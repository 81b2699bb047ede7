import BitBeak.Http.Text
import BitBeak.Lib.Bytes

/-! The HTTP client: authentication headers, form bodies and the redirect loop. The server
is whatever answers the requests sent so far; the crates that parse URLs and headers, and
the file system, are parameters. -/
namespace BitBeak.Http
open Wire

inductive AuthKind where
  | none
  | bearer
  | basic
  | apiKeyHeader
  | apiKeyQuery
  | oauth2
  deriving DecidableEq, Repr

inductive BodyMode where
  | raw
  | urlEncoded
  | multipart
  | graphQL
  deriving DecidableEq, Repr

structure FormField where
  key : String
  value : String
  file : Option String := Option.none
  deriving DecidableEq, Repr

abbrev Headers := List (String × String)

structure HttpRequestSpec where
  method : String := "GET"
  url : String := "https://example.com/"
  headers : Headers := [("User-Agent", "bitbeak/0.1")]
  body : Bytes := []
  followRedirects : Bool := true
  maxRedirects : UInt8 := 10
  auth : AuthKind := .none
  authToken : String := ""
  authUser : String := ""
  authPass : String := ""
  authKey : String := "X-Api-Key"
  authValue : String := ""
  bodyMode : BodyMode := .raw
  formFields : List FormField := []
  deriving DecidableEq, Repr

/-- What the client asks of a parsed URL. -/
structure Uri where
  scheme : Option String
  authority : Option String
  host : Option String
  deriving DecidableEq, Repr

/-- Code outside the repository: the parsers of the `http` crate, the encoders, the files a
form names, and the number a boundary is made from. -/
structure HttpCrates where
  uri : String → Option Uri
  validMethod : String → Bool
  validHeaderName : String → Bool
  validHeaderValue : String → Bool
  urlencode : String → String
  base64 : String → String
  readFile : String → Option Bytes
  fileName : String → Option String
  boundaryId : Nat

def utf8Bytes (text : String) : Bytes := text.toUTF8.toList

/-- The first header of the name gets the value; a header that is not there is appended. -/
def upsertHeader (name value : String) : Headers → Headers
  | [] => [(name, value)]
  | (k, v) :: rest =>
    if eqIgnoreAsciiCase k name then (k, value) :: rest
    else (k, v) :: upsertHeader name value rest

/-- The header the configured authentication adds. -/
def authHeader (crates : HttpCrates) (spec : HttpRequestSpec) : Option (String × String) :=
  match spec.auth with
  | .none => Option.none
  | .bearer | .oauth2 =>
    if spec.authToken = "" then Option.none else some ("Authorization", "Bearer " ++ spec.authToken)
  | .basic =>
    some ("Authorization", "Basic " ++ crates.base64 (spec.authUser ++ ":" ++ spec.authPass))
  | .apiKeyHeader => if spec.authKey = "" then Option.none else some (spec.authKey, spec.authValue)
  | .apiKeyQuery => Option.none

def applyAuth (crates : HttpCrates) (spec : HttpRequestSpec) : HttpRequestSpec :=
  match authHeader crates spec with
  | some (name, value) => { spec with headers := upsertHeader name value spec.headers }
  | Option.none =>
    if spec.auth = .apiKeyQuery ∧ spec.authKey ≠ "" then
      let sep := if '?' ∈ spec.url.toList then "&" else "?"
      { spec with url := spec.url ++ sep ++ crates.urlencode spec.authKey ++ "=" ++
                    crates.urlencode spec.authValue }
    else spec

def multipartField (crates : HttpCrates) (boundary : String) (f : FormField) : Option Bytes :=
  let opening := utf8Bytes ("--" ++ boundary ++ "\r\n")
  match f.file with
  | some path =>
    (crates.readFile path).map fun data =>
      opening ++ utf8Bytes ("Content-Disposition: form-data; name=\"" ++ f.key ++
        "\"; filename=\"" ++ (crates.fileName path).getD "file" ++
        "\"\r\nContent-Type: application/octet-stream\r\n\r\n") ++ data ++ utf8Bytes "\r\n"
  | Option.none =>
    some (opening ++ utf8Bytes ("Content-Disposition: form-data; name=\"" ++ f.key ++
      "\"\r\n\r\n" ++ f.value ++ "\r\n"))

/-- Body and content type of a form; nothing when a file cannot be read. -/
def buildFormBody (crates : HttpCrates) (mode : BodyMode) (fields : List FormField) :
    Option (Bytes × Option String) :=
  match mode with
  | .raw | .graphQL => some ([], Option.none)
  | .urlEncoded =>
    let enc := "&".intercalate (fields.map fun f =>
      crates.urlencode f.key ++ "=" ++ crates.urlencode f.value)
    some (utf8Bytes enc, some "application/x-www-form-urlencoded")
  | .multipart =>
    let boundary := "----bitbeak" ++ toString crates.boundaryId
    (fields.mapM (multipartField crates boundary)).map fun parts =>
      (parts.flatten ++ utf8Bytes ("--" ++ boundary ++ "--\r\n"),
        some ("multipart/form-data; boundary=" ++ boundary))

def withFormBody (crates : HttpCrates) (spec : HttpRequestSpec) : Option HttpRequestSpec :=
  if (spec.bodyMode = .urlEncoded ∨ spec.bodyMode = .multipart) ∧ spec.formFields ≠ [] then
    (buildFormBody crates spec.bodyMode spec.formFields).map fun (body, ctype) =>
      { spec with
        body := body
        headers := match ctype with
          | some ct => upsertHeader "Content-Type" ct spec.headers
          | Option.none => spec.headers }
  else some spec

structure HttpRequest where
  method : String
  url : String
  headers : Headers
  body : Bytes
  deriving DecidableEq, Repr

structure HttpReply where
  status : UInt16
  headers : Headers
  body : Bytes := []
  version : String := "HTTP/1.1"
  deriving DecidableEq, Repr

structure RedirectHop where
  status : UInt16
  location : String
  deriving DecidableEq, Repr

/-- `HeaderMap::insert`: the new value replaces all values of the name. -/
def insertHeader (map : Headers) (name value : String) : Headers :=
  map.filter (fun h => h.1 ≠ name) ++ [(name, value)]

/-- The header map of a request; names are kept in lower case, and pairs that are no header
are left out. -/
def headerMap (crates : HttpCrates) (headers : Headers) : Headers :=
  headers.foldl (fun map (k, v) =>
    if crates.validHeaderName k ∧ crates.validHeaderValue v then
      insertHeader map (toAsciiLowercase k) v
    else map) []

def isRedirect (status : UInt16) : Bool :=
  status == 301 || status == 302 || status == 303 || status == 307 || status == 308

/-- The statuses that turn the request into a GET. -/
def rewritesMethod (status : UInt16) : Bool := 301 ≤ status && status ≤ 303

def applyRedirectMethod (status : UInt16) (method : String) (body : Bytes) : String × Bytes :=
  if rewritesMethod status then ("GET", []) else (method, body)

def resolveLocation (crates : HttpCrates) (base loc : String) : String :=
  if hasPrefix loc "http://" ∨ hasPrefix loc "https://" then loc
  else
    match crates.uri base with
    | some uri =>
      let scheme := uri.scheme.getD "https"
      let auth := uri.authority.getD ""
      if hasPrefix loc "/" then scheme ++ "://" ++ auth ++ loc
      else scheme ++ "://" ++ auth ++ "/" ++ loc
    | Option.none => loc

def headerValue (name : String) (headers : Headers) : Option String :=
  (headers.find? fun h => eqIgnoreAsciiCase h.1 name).map Prod.snd

/-- Why no response comes back. -/
inductive SendError where
  | form
  | url
  | exchange
  deriving DecidableEq, Repr

structure HttpResponse where
  status : UInt16
  headers : Headers
  body : Bytes
  redirectChain : List RedirectHop
  version : String
  deriving DecidableEq, Repr

/-- A run of the loop: its result, and what went over the wire for it. -/
structure Sent where
  result : Except SendError HttpResponse
  requests : List HttpRequest
  replies : List HttpReply

/-- What the loop carries from one hop to the next. -/
structure HopState where
  url : String
  method : String
  body : Bytes
  hops : UInt8 := 0
  chain : List RedirectHop := []
  requests : List HttpRequest := []
  replies : List HttpReply := []

/-- An increment of the hop counter, which has eight bits. -/
def checkedIncr (hops : UInt8) : Except Fault UInt8 :=
  if hops = 255 then .error .outOfRange else .ok (hops + 1)

/-- The server's answer to the last of the requests sent so far, if the exchange succeeds. -/
abbrev Server := List HttpRequest → Option HttpReply

def HopState.request (crates : HttpCrates) (spec : HttpRequestSpec) (st : HopState) : HttpRequest :=
  { method := if crates.validMethod st.method then st.method else "GET"
    url := st.url
    headers := headerMap crates spec.headers
    body := st.body }

def HopState.finish (st : HopState) (result : Except SendError HttpResponse) : Sent :=
  { result := result, requests := st.requests, replies := st.replies }

def HopState.respond (st : HopState) (reply : HttpReply) : Sent :=
  st.finish (.ok { status := reply.status, headers := reply.headers, body := reply.body,
                   redirectChain := st.chain, version := reply.version })

/-- The redirect loop, from the hop in `st` on. -/
def redirectLoop (crates : HttpCrates) (server : Server) (spec : HttpRequestSpec) :
    Nat → HopState → Except Fault Sent
  | 0, _ => .error .outOfFuel
  | fuel + 1, st =>
    match crates.uri st.url with
    | Option.none => return st.finish (.error .url)
    | some _ =>
      let sent := { st with requests := st.requests ++ [st.request crates spec] }
      match server sent.requests with
      | Option.none => return sent.finish (.error .exchange)
      | some reply =>
        let answered := { sent with replies := st.replies ++ [reply] }
        if spec.followRedirects ∧ isRedirect reply.status ∧ st.hops < spec.maxRedirects then
          match headerValue "location" reply.headers with
          | Option.none => return answered.respond reply
          | some loc => do
            let hops ← checkedIncr st.hops
            redirectLoop crates server spec fuel
              { answered with
                url := resolveLocation crates st.url loc
                method := (applyRedirectMethod reply.status st.method st.body).1
                body := (applyRedirectMethod reply.status st.method st.body).2
                hops := hops
                chain := st.chain ++ [⟨reply.status, loc⟩] }
        else return answered.respond reply

def sendRequest (crates : HttpCrates) (server : Server) (spec : HttpRequestSpec) :
    Except Fault Sent :=
  match withFormBody crates (applyAuth crates spec) with
  | Option.none => return { result := .error .form, requests := [], replies := [] }
  | some spec =>
    redirectLoop crates server spec 257 { url := spec.url, method := spec.method, body := spec.body }

end BitBeak.Http
