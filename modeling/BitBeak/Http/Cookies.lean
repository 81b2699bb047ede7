import BitBeak.Http.Text

/-! The cookie jar: what a `Set-Cookie` header says, what the jar keeps of it and which
cookies it gives to a request. The time is a parameter where the source reads the clock. -/
namespace BitBeak

structure Cookie where
  name : String
  value : String
  domain : String
  path : String
  secure : Bool := false
  httpOnly : Bool := false
  sameSite : String := ""
  expiresAt : Option Nat := none
  deriving DecidableEq, Repr

structure CookieJar where
  enabled : Bool
  cookies : List Cookie
  deriving DecidableEq, Repr

def urlRest (url : String) : Option String :=
  match stripPrefix url "https://" with
  | some rest => some rest
  | none => stripPrefix url "http://"

def urlHost (url : String) : Option String :=
  (urlRest url).map fun rest =>
    let hostport := textBefore '?' (textBefore '/' rest)
    match stripPrefix hostport "[" with
    | some inner => toAsciiLowercase (textBefore ']' inner)
    | none => toAsciiLowercase (textBeforeLast ':' hostport)

def urlPath (url : String) : String :=
  let rest := (urlRest url).getD url
  let path := rest.toList.dropWhile (· ≠ '/')
  if path = [] then "/" else textBefore '?' (String.ofList path)

def domainMatches (cookieDomain host : String) : Bool :=
  let d := toAsciiLowercase (trimStart '.' cookieDomain)
  host == d || hasSuffix host ("." ++ d)

def u64Max : Nat := 2 ^ 64 - 1

def monthNumber (name : String) : Option Int :=
  (["Jan", "Feb", "Mar", "Apr", "May", "Jun", "Jul", "Aug", "Sep", "Oct", "Nov", "Dec"].idxOf?
    name).map fun i => (i : Int) + 1

/-- Numbers of 32 bits wrap, as they do in the release build. -/
def wrap32 (n : Int) : Int := n.bmod (2 ^ 32)

/-- Days since the epoch of a date, and the seconds at a time of that day. -/
def civilSeconds (year month : Int) (day hour min sec : Nat) : Int :=
  let y := if month ≤ 2 then wrap32 (year - 1) else year
  let era := y / 400
  let yoe := y - era * 400
  let doy := wrap32 (wrap32 ((153 * (month + if 2 < month then -3 else 9) + 2) / 5 + wrap32 day) - 1)
  let doe := wrap32 (yoe * 365 + yoe / 4 - yoe / 100 + doy)
  let days := era * 146097 + doe - 719468
  days * 86400 + (hour : Int) * 3600 + (min : Int) * 60 + sec

def parseHttpDate (s : String) : Option Nat := do
  let parts := splitWhitespace s
  if parts.length < 4 then none
  else
    let day ← parseUnsigned (2 ^ 32) (parts.getD 1 "")
    let month ← monthNumber (parts.getD 2 "")
    let year ← parseSigned (2 ^ 31) (parts.getD 3 "")
    let tp := splitText ':' (parts.getD 4 "00:00:00")
    let hour ← parseUnsigned (2 ^ 32) (← tp[0]?)
    let min ← parseUnsigned (2 ^ 32) (← tp[1]?)
    let sec ← parseUnsigned (2 ^ 32) (tp.getD 2 "0")
    let secs := civilSeconds year month day hour min sec
    if secs < 0 then none else some secs.toNat

/-- What one attribute of a `Set-Cookie` header does to the cookie read so far. -/
def cookieAttribute (now : Nat) (c : Cookie) (text : String) : Cookie :=
  let attr := trim text
  if eqIgnoreAsciiCase attr "secure" then { c with secure := true }
  else if eqIgnoreAsciiCase attr "httponly" then { c with httpOnly := true }
  else
    match splitOnce '=' attr with
    | none => c
    | some (key, val) =>
      let k := trim key
      let v := trim val
      if eqIgnoreAsciiCase k "domain" then
        { c with domain := toAsciiLowercase (trimStart '.' v) }
      else if eqIgnoreAsciiCase k "path" then { c with path := v }
      else if eqIgnoreAsciiCase k "max-age" then
        match parseSigned (2 ^ 63) v with
        | some secs =>
          if secs ≤ 0 then { c with expiresAt := some (now - 1) }
          else { c with expiresAt := some (min (now + secs.toNat) u64Max) }
        | none => c
      else if eqIgnoreAsciiCase k "expires" then
        match parseHttpDate v with
        | some ts => { c with expiresAt := some ts }
        | none => c
      else if eqIgnoreAsciiCase k "samesite" then { c with sameSite := v }
      else c

def parseSetCookie (raw defaultHost defaultPath : String) (now : Nat) : Option Cookie :=
  match splitText ';' raw with
  | [] => none
  | nv :: attrs =>
    (splitOnce '=' nv).map fun (name, value) =>
      attrs.foldl (cookieAttribute now)
        { name := trim name, value := trim value, domain := defaultHost, path := defaultPath }

/-- Whether the cookie is still to be kept at a time. -/
def Cookie.liveAt (now : Nat) (c : Cookie) : Bool := c.expiresAt.all (now < ·)

namespace CookieJar

def selects (url : String) (now : Nat) (host : String) (c : Cookie) : Bool :=
  c.liveAt now && (!c.secure || hasPrefix url "https://") && domainMatches c.domain host &&
    hasPrefix (urlPath url) c.path

def cookieHeaderFor (jar : CookieJar) (url : String) (now : Nat) : Option String :=
  if !jar.enabled then none
  else
    match urlHost url with
    | none => none
    | some host =>
      let parts := (jar.cookies.filter (selects url now host)).map fun c => c.name ++ "=" ++ c.value
      if parts = [] then none else some ("; ".intercalate parts)

def sameKey (c x : Cookie) : Bool := x.name == c.name && x.domain == c.domain

/-- What one parsed cookie does to the jar. -/
def put (now : Nat) (cookies : List Cookie) (c : Cookie) : List Cookie :=
  let rest := cookies.filter fun x => !sameKey c x
  if c.liveAt now then rest ++ [c] else rest

/-- The cookies the headers of a response set, in their order. -/
def setCookies (url : String) (headers : List (String × String)) (now : Nat) : List Cookie :=
  headers.filterMap fun (k, v) =>
    if eqIgnoreAsciiCase k "set-cookie" then
      parseSetCookie v ((urlHost url).getD "") (urlPath url) now
    else none

def storeFromResponse (jar : CookieJar) (url : String) (headers : List (String × String))
    (now : Nat) : CookieJar :=
  if !jar.enabled then jar
  else
    let cookies := (setCookies url headers now).foldl (put now) jar.cookies
    { jar with cookies := cookies.filter (·.liveAt now) }

end CookieJar

end BitBeak
