import BitBeak.Cli
import BitBeak.Collections
import BitBeak.Composer
import BitBeak.Http.HeaderBlock
import BitBeak.Http.Session

/-! The session of HTTP requests: its editors, the requests it is loaded from, and the request that
is built from them. -/
namespace BitBeak
open Collections Http
open ByteText (Checked given)

structure HttpSession where
  method : TextArea
  url : TextArea
  headers : TextArea
  body : TextArea
  authTokenTa : TextArea
  authUserTa : TextArea
  authPassTa : TextArea
  authKeyTa : TextArea
  authValueTa : TextArea
  formKeyTa : TextArea
  formValueTa : TextArea
  formFileTa : TextArea
  graphqlVarsTa : TextArea
  graphqlOpTa : TextArea
  composerMode : ComposerMode
  statusMsg : String
  auth : AuthKind
  bodyMode : BodyMode
  formFields : List FormField
  formRow : Nat
  tests : List RequestTest
  followRedirects : Bool
  maxRedirects : UInt8
  cookies : CookieJar
  httpVersion : HttpVersion
  preScript : String
  grpcMode : Bool
  grpcDescriptorPath : String
  grpcMessageType : String
  grpcReplyType : String

/-- What is written of an exchange. -/
structure HistoryEntry where
  id : String
  atUnix : Nat
  method : String
  url : String
  status : UInt16
  totalMs : UInt64
  bodyPreview : String
  requestHeaders : Headers
  requestBody : String
  deriving DecidableEq, Repr

/-- The entry of `append_history` at time `now`, for a response that took `totalMs`. -/
def historyEntry (now : Nat) (totalMs : UInt64) (spec : HttpRequestSpec)
    (resp : Http.HttpResponse) : HistoryEntry where
  id := toString now ++ "-" ++ toString resp.status
  atUnix := now
  method := spec.method
  url := spec.url
  status := resp.status
  totalMs := totalMs
  bodyPreview := fromUtf8Lossy (resp.body.take 512)
  requestHeaders := spec.headers
  requestBody := fromUtf8Lossy spec.body

/-- The JSON crate, as far as the body of a GraphQL request needs it. -/
structure JsonCrate where
  Value : Type
  object : List (String × Value) → Value
  string : String → Value
  fromStr : String → Except String Value
  toStringPretty : Value → Except String String

def buildGraphqlBody (json : JsonCrate) (query vars operation : String) :
    Except String String := do
  let value ←
    if trim vars = "" then .ok (json.object [])
    else (json.fromStr vars).mapError ("variables JSON: " ++ ·)
  let named :=
    if trim operation = "" then [] else [("operationName", json.string (trim operation))]
  json.toStringPretty
    (json.object ([("query", json.string query), ("variables", value)] ++ named))

namespace HttpSession

/-- A new session, with the cookies that were stored. -/
def start (target : Cli.Target) (cookies : CookieJar) : HttpSession where
  method := .singleLine "GET"
  url := .singleLine target.display
  headers := .multiLine "User-Agent: bitbeak/0.1\nAccept: */*\n"
  body := .multiLine ""
  authTokenTa := .singleLine ""
  authUserTa := .singleLine ""
  authPassTa := .singleLine ""
  authKeyTa := .singleLine "X-Api-Key"
  authValueTa := .singleLine ""
  formKeyTa := .singleLine ""
  formValueTa := .singleLine ""
  formFileTa := .singleLine ""
  graphqlVarsTa := .multiLine "\x7b\x7d"
  graphqlOpTa := .singleLine ""
  composerMode := .utf8
  statusMsg := "Tab fields · Enter Send · History: focus + Enter replay"
  auth := .none
  bodyMode := .raw
  formFields := []
  formRow := 0
  tests := []
  followRedirects := true
  maxRedirects := 10
  cookies := cookies
  httpVersion := .auto
  preScript := ""
  grpcMode := false
  grpcDescriptorPath := ""
  grpcMessageType := ""
  grpcReplyType := ""

def syncFormEditorFromRow (s : HttpSession) : HttpSession :=
  match s.formFields[s.formRow]? with
  | some f =>
    { s with
      formKeyTa := .setText f.key
      formValueTa := .setText f.value
      formFileTa := .setText (f.file.getD "") }
  | none =>
    { s with formKeyTa := .setText "", formValueTa := .setText "", formFileTa := .setText "" }

def loadHistory (s : HttpSession) (entry : HistoryEntry) : HttpSession :=
  { s with
    method := .setText entry.method
    url := .setText entry.url
    headers := .setText (formatHeaders entry.requestHeaders)
    body := .setText entry.requestBody
    bodyMode := .raw
    statusMsg := "replay ready: " ++ entry.id }

def loadSaved (s : HttpSession) (req : SavedRequest) : HttpSession :=
  let s := { s with
    method := .setText (req.method.getD "GET")
    url := .setText req.target
    headers := .setText (formatHeaders req.headers)
    body := .setText req.body
    auth := req.auth
    authTokenTa := .setText req.authToken
    authUserTa := .setText req.authUser
    authPassTa := .setText req.authPass
    authKeyTa := .setText (if req.authKey = "" then "X-Api-Key" else req.authKey)
    authValueTa := .setText req.authValue
    bodyMode := req.bodyMode
    formFields := req.formFields
    formRow := 0 }
  { s.syncFormEditorFromRow with
    tests := req.tests
    followRedirects := req.followRedirects
    maxRedirects := req.maxRedirects
    httpVersion := req.httpVersion
    graphqlVarsTa := .setText req.graphqlVariables
    graphqlOpTa := .setText req.graphqlOperation
    preScript := req.preScript
    grpcDescriptorPath := req.grpcDescriptor
    grpcMessageType := req.grpcMessageType
    grpcReplyType := req.grpcReplyType
    bodyMode := if req.kind = "graphql" then .graphQL else req.bodyMode
    grpcMode := if req.kind = "grpc" then true else req.grpcMode
    statusMsg := "loaded " ++ req.name }

/-- The file that the editor of its path names. -/
def fileNamed (path : String) : Option String := if path = "" then none else some path

/-- The row as the form's editors have it. -/
def editedRow (s : HttpSession) : FormField where
  key := s.formKeyTa.textOf
  value := s.formValueTa.textOf
  file := fileNamed s.formFileTa.textOf

/-- The rows of the form, with the one that is edited in the place of its own. -/
def currentForm (s : HttpSession) : List FormField :=
  if (s.bodyMode = .urlEncoded ∨ s.bodyMode = .multipart) ∧ s.formFields ≠ [] ∧
      s.formRow < s.formFields.length then
    s.formFields.set s.formRow s.editedRow
  else s.formFields

def savedKind (grpcMode : Bool) (bodyMode : BodyMode) : String :=
  if grpcMode then "grpc" else if bodyMode = .graphQL then "graphql" else "http"

def toSaved (s : HttpSession) (name : String) : SavedRequest where
  name := name
  kind := savedKind s.grpcMode s.bodyMode
  target := s.url.textOf
  method := some s.method.textOf
  headers := parseHeaderBlock s.headers.textOf
  body := s.body.textOf
  auth := s.auth
  authToken := s.authTokenTa.textOf
  authUser := s.authUserTa.textOf
  authPass := s.authPassTa.textOf
  authKey := s.authKeyTa.textOf
  authValue := s.authValueTa.textOf
  bodyMode := s.bodyMode
  formFields := s.currentForm
  tests := s.tests
  followRedirects := s.followRedirects
  maxRedirects := s.maxRedirects
  httpVersion := s.httpVersion
  graphqlVariables := s.graphqlVarsTa.textOf
  graphqlOperation := s.graphqlOpTa.textOf
  preScript := s.preScript
  grpcMode := s.grpcMode
  grpcDescriptor := s.grpcDescriptorPath
  grpcMessageType := s.grpcMessageType
  grpcReplyType := s.grpcReplyType

/- The request that is built. -/

/-- The body of a GraphQL request in its JSON form. -/
def withGraphql (json : JsonCrate) (s : HttpSession) (spec : HttpRequestSpec) :
    Except String HttpRequestSpec :=
  if s.bodyMode = .graphQL then do
    let text ← buildGraphqlBody json s.body.textOf s.graphqlVarsTa.textOf s.graphqlOpTa.textOf
    return { spec with
      body := utf8Bytes text
      bodyMode := .raw
      headers :=
        if spec.headers.any fun h => eqIgnoreAsciiCase h.1 "Content-Type" then spec.headers
        else spec.headers ++ [("Content-Type", "application/json")]
      method := if eqIgnoreAsciiCase spec.method "GET" then "POST" else spec.method }
  else return spec

/-- The variables of the collection in all the texts. -/
def withVariables (col : Collection) (spec : HttpRequestSpec) : HttpRequestSpec :=
  { spec with
    url := col.substitute spec.url
    authToken := col.substitute spec.authToken
    authUser := col.substitute spec.authUser
    authPass := col.substitute spec.authPass
    authValue := col.substitute spec.authValue
    headers := spec.headers.map fun h => (h.1, col.substitute h.2)
    body :=
      let sub := utf8Bytes (col.substitute (fromUtf8Lossy spec.body))
      if sub = spec.body then spec.body else sub
    formFields := spec.formFields.map fun f =>
      { f with key := col.substitute f.key, value := col.substitute f.value } }

/-- A part of a body that is written as a form. -/
def formPart (part : String) : Option FormField :=
  let part := trim part
  if part = "" then none
  else
    match splitOnce '=' part with
    | some (k, v) => some { key := trim k, value := trim v }
    | none => (splitOnce ':' part).map fun (k, v) => { key := trim k, value := trim v }

def withBodyForm (spec : HttpRequestSpec) : HttpRequestSpec :=
  if spec.bodyMode = .urlEncoded ∧ spec.formFields = [] then
    let parts := (fromUtf8Lossy spec.body).toList.splitOnP fun c => c = '&' ∨ c = '\n'
    { spec with formFields := parts.filterMap fun part => formPart (String.ofList part) }
  else spec

/-- `now` is the time at which the cookies are selected. The decoder may stop the program. -/
def buildSpec (json : JsonCrate) (now : Nat) (s : HttpSession) (collection : Option Collection) :
    Checked String HttpRequestSpec := do
  let body ← decodePayload s.body.textOf s.composerMode
  let spec ← given <| s.withGraphql json
    { method := s.method.textOf
      url := s.url.textOf
      headers := parseHeaderBlock s.headers.textOf
      body := body
      followRedirects := s.followRedirects
      maxRedirects := s.maxRedirects
      auth := s.auth
      authToken := s.authTokenTa.textOf
      authUser := s.authUserTa.textOf
      authPass := s.authPassTa.textOf
      authKey := s.authKeyTa.textOf
      authValue := s.authValueTa.textOf
      bodyMode := s.bodyMode
      formFields := s.currentForm }
  let spec := match collection with
    | some col => withVariables col spec
    | none => spec
  return withCookies s.cookies now (withBodyForm spec)

end HttpSession

end BitBeak
