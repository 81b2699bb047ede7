import BitBeak.Http.Client
import BitBeak.Http.CookieJar

/-! `send_now` of an HTTP session: the cookie header, the pre-request script, the request and
the jar afterwards. The request as the editor fields give it and the script engine are
parameters. -/
namespace BitBeak.Http
open Wire

/-- The end of `build_spec`: what the jar selects takes the place of a cookie header. -/
def withCookies (jar : CookieJar) (now : Nat) (spec : HttpRequestSpec) : HttpRequestSpec :=
  match jar.cookieHeaderFor spec.url now with
  | some cookie => { spec with headers := upsertHeader "Cookie" cookie spec.headers }
  | none => spec

/-- The request a script works on. -/
structure ScriptRequest where
  url : String
  method : String
  body : String
  headers : Headers

/-- The entries of `req` that are texts, or a map of texts, after a script has run. -/
structure ScriptEdits where
  url : Option String
  method : Option String
  body : Option String
  headers : Option Headers

/-- Runs a script on a request with the variables of the environment. -/
abbrev Engine := String → ScriptRequest → List (String × String) → Option ScriptEdits

def applyEdits (spec : HttpRequestSpec) (edits : ScriptEdits) : HttpRequestSpec :=
  { spec with
    url := edits.url.getD spec.url
    method := edits.method.getD spec.method
    body := (edits.body.map utf8Bytes).getD spec.body
    headers := edits.headers.getD spec.headers }

def runPreScript (engine : Engine) (script : String) (spec : HttpRequestSpec)
    (env : List (String × String)) : Option HttpRequestSpec :=
  if trim script = "" then some spec
  else
    (engine script { url := spec.url, method := spec.method, body := fromUtf8Lossy spec.body,
                     headers := spec.headers } env).map (applyEdits spec)

/-- A request that is not gRPC, from the drafted one. `now` is the time at which the cookies
are selected, `later` the time at which those of the response are stored. -/
def sendNow (crates : HttpCrates) (engine : Engine) (server : Server) (jar : CookieJar)
    (now later : Nat) (script : String) (env : List (String × String)) (drafted : HttpRequestSpec) :
    Except Fault (Option Sent × CookieJar) :=
  match runPreScript engine script (withCookies jar now drafted) env with
  | none => return (none, jar)
  | some spec => do
    let sent ← sendRequest crates server spec
    match sent.result with
    | .ok resp => return (some sent, jar.storeFromResponse spec.url resp.headers later)
    | .error _ => return (some sent, jar)

/-- A run that got to sending is a run of the client on the edited request. -/
theorem sendNow_sent {crates : HttpCrates} {engine : Engine} {server : Server} {jar jar' : CookieJar}
    {now later : Nat} {script : String} {env : List (String × String)} {drafted spec : HttpRequestSpec}
    {sent : Sent} (edited : runPreScript engine script (withCookies jar now drafted) env = some spec)
    (ran : sendNow crates engine server jar now later script env drafted = .ok (some sent, jar')) :
    sendRequest crates server spec = .ok sent ∧
      jar' = match sent.result with
        | .ok resp => jar.storeFromResponse spec.url resp.headers later
        | .error _ => jar := by
  unfold sendNow at ran
  rw [edited] at ran
  dsimp only at ran
  cases done : sendRequest crates server spec with
  | error fault => rw [done] at ran; cases ran
  | ok other =>
    rw [done] at ran
    dsimp only [ok_bind] at ran
    cases result : other.result with
    | ok resp =>
      rw [result] at ran
      cases ran
      exact ⟨rfl, by rw [result]⟩
    | error e =>
      rw [result] at ran
      cases ran
      exact ⟨rfl, by rw [result]⟩

end BitBeak.Http
