import BitBeak.Http.Client

/-! The OAuth2 flow with a loopback callback: the URL that is opened, the callback that is waited
for and the request for a token. -/
namespace BitBeak.Http
open Wire

structure OAuthConfig where
  clientId : String
  clientSecret : String
  authUrl : String
  tokenUrl : String
  scopes : String
  deriving DecidableEq, Repr

def redirectUri (port : UInt16) : String :=
  "http://127.0.0.1:" ++ toString port.toNat ++ "/callback"

def authorizeUrl (urlencode : String → String) (cfg : OAuthConfig) (port : UInt16)
    (state codeChallenge : String) : String :=
  cfg.authUrl ++ "?response_type=code&client_id=" ++ urlencode cfg.clientId ++
    "&redirect_uri=" ++ urlencode (redirectUri port) ++ "&scope=" ++ urlencode cfg.scopes ++
    "&state=" ++ urlencode state ++ "&code_challenge=" ++ urlencode codeChallenge ++
    "&code_challenge_method=S256"

/-- Why no code comes back. -/
inductive CallbackError where
  | bind
  | missingCode
  | timedOut
  deriving DecidableEq, Repr

def CallbackError.text : CallbackError → String
  | .bind => "bind oauth callback"
  | .missingCode => "oauth callback missing code"
  | .timedOut => "oauth callback timed out"

/-- What the system does for the listener: whether it gets its port, and the octets of the first
connection that are there when it is read, if one comes in time. -/
structure CallbackListener where
  bound : Bool
  arrived : Option Bytes

/-- The request is read once, into a buffer of 4096 octets. -/
def callbackText (arrived : Bytes) : String := fromUtf8Lossy (arrived.take 4096)

/-- What stands behind the first question mark of the target, up to the next. -/
def callbackQuery (req : String) : Option String := do
  let line ← firstLine req
  let path ← (splitWhitespace line)[1]?
  (splitText '?' path)[1]?

def codeParam (query : String) : Option String :=
  (splitText '&' query).findSome? fun kv => do
    let (k, v) ← splitOnce '=' kv
    if k = "code" then some v else none

def waitForCode (listener : CallbackListener) : Except CallbackError String :=
  if !listener.bound then .error .bind
  else
    match listener.arrived with
    | none => .error .timedOut
    | some arrived =>
      match (callbackQuery (callbackText arrived)).bind codeParam with
      | some code => .ok code
      | none => .error .missingCode

structure TokenRequest where
  url : String
  body : String
  deriving DecidableEq, Repr

def exchangeCode (urlencode : String → String) (cfg : OAuthConfig) (port : UInt16)
    (code codeVerifier : String) : TokenRequest where
  url := cfg.tokenUrl
  body := "grant_type=authorization_code&code=" ++ urlencode code ++ "&redirect_uri=" ++
    urlencode (redirectUri port) ++ "&client_id=" ++ urlencode cfg.clientId ++ "&code_verifier=" ++
    urlencode codeVerifier ++
    (if cfg.clientSecret = "" then "" else "&client_secret=" ++ urlencode cfg.clientSecret)

/-- The state of a flow whose callback comes to the port. -/
def flowState (port : UInt16) : String := "bb" ++ toString port.toNat

/-- The flow from the free port on: the URL is opened in a browser, and the request for a token is
made with the code that is waited for. -/
def loopbackFlow (urlencode : String → String) (openBrowser : String → Except String Unit)
    (cfg : OAuthConfig) (port : UInt16) (verifier challenge : String) (listener : CallbackListener) :
    Except String TokenRequest := do
  let url := authorizeUrl urlencode cfg port (flowState port) challenge
  (openBrowser url).mapError ("open browser: " ++ ·)
  let code ← (waitForCode listener).mapError fun e => "oauth: " ++ e.text
  return exchangeCode urlencode cfg port code verifier

end BitBeak.Http
