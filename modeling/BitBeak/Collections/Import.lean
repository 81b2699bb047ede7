import BitBeak.Collections
import BitBeak.Lib.Json

/-! Postman collections of version 2.1: what is imported of a document. -/
namespace BitBeak.Collections
open Http

/-- A text, or another one in its place. -/
def textOr (other : String) (v : Json) (key : String) : String := (v.textAt key).getD other

/-- The texts of an array, with a mark between them; other values are left out. -/
def joinTexts (mark : String) (items : List Json) : String :=
  mark.intercalate (items.filterMap Json.asStr)

structure PostmanAuth where
  auth : AuthKind := .none
  authToken : String := ""
  authUser : String := ""
  authPass : String := ""
  authKey : String := "X-Api-Key"
  authValue : String := ""
  deriving DecidableEq, Repr

/-- The attributes of a kind of authentication: an array of keys and values. -/
def authAttrs (auth : Json) (name : String) : List (String × String) :=
  (((auth.get name).bind Json.asArray).getD []).filterMap fun x =>
    (x.textAt "key").map fun key => (key, textOr "" x "value")

def findAttr (pairs : List (String × String)) (key : String) : String :=
  ((pairs.find? fun p => eqIgnoreAsciiCase p.1 key).map Prod.snd).getD ""

def postmanAuth : Option Json → PostmanAuth
  | none => {}
  | some auth =>
    match toAsciiLowercase (textOr "noauth" auth "type") with
    | "bearer" => { auth := .bearer, authToken := findAttr (authAttrs auth "bearer") "token" }
    | "basic" =>
      let pairs := authAttrs auth "basic"
      { auth := .basic, authUser := findAttr pairs "username", authPass := findAttr pairs "password" }
    | "apikey" =>
      let pairs := authAttrs auth "apikey"
      let key := findAttr pairs "key"
      let inQuery := eqIgnoreAsciiCase (findAttr pairs "in") "query"
      { auth := if inQuery then .apiKeyQuery else .apiKeyHeader
        authKey := if key = "" then "X-Api-Key" else key
        authValue := findAttr pairs "value" }
    | _ => {}

/-- The scripts of the events that are listened to. -/
def eventScripts (listen : String) (event : Option Json) : List Json :=
  ((event.bind Json.asArray).getD []).filterMap fun ev =>
    if textOr "" ev "listen" = listen then ev.get "script" else none

/-- The source of a script, if it is an array of lines or a text. -/
def scriptText (script : Json) : Option String :=
  match (script.get "exec").bind Json.asArray with
  | some lines => some (joinTexts "\n" lines)
  | none => script.textAt "exec"

def postmanPrerequest (event : Option Json) : String :=
  ((eventScripts "prerequest" event).findSome? scriptText).getD ""

/-- The numbers that a status is expected to be. -/
def statusTests (text : String) : List RequestTest :=
  (Occurrence.split "to.have.status(".toList text.toList).tail.filterMap fun cap =>
    (parseU16 (trim (textBefore ')' (String.ofList cap)))).map fun num =>
      ⟨"status == " ++ toString num⟩

/-- The text in quotes that the body is expected to have: that of the first `include`, or of the
first `contain` where there is none. -/
def includeTests (text : String) : List RequestTest :=
  let start := (Occurrence.cut ".to.include(\"".toList text.toList).or
    (Occurrence.cut ".to.contain(\"".toList text.toList)
  match start with
  | none => []
  | some (_, after) =>
    if '"' ∈ after then [⟨"body contains " ++ textBefore '"' (String.ofList after)⟩] else []

def postmanTests (event : Option Json) : List RequestTest :=
  (eventScripts "test" event).flatMap fun script =>
    let text := (scriptText script).getD ""
    statusTests text ++ includeTests text

def postmanUrl : Option Json → String
  | none => ""
  | some v =>
    match v.asStr with
    | some s => s
    | none =>
      match v.textAt "raw" with
      | some raw => raw
      | none =>
        let host := joinTexts "." (((v.get "host").bind Json.asArray).getD [])
        let path := joinTexts "/" (((v.get "path").bind Json.asArray).getD [])
        let proto := textOr "https" v "protocol"
        if host = "" then path
        else if path = "" then proto ++ "://" ++ host
        else proto ++ "://" ++ host ++ "/" ++ path

def isDisabled (v : Json) : Bool := (v.get "disabled").bind Json.asBool = some true

def postmanHeaders (v : Option Json) : Headers :=
  ((v.bind Json.asArray).getD []).filterMap fun h =>
    (h.textAt "key").bind fun key => if isDisabled h then none else some (key, textOr "" h "value")

def formFromUrlencoded (v : Option Json) : List FormField :=
  ((v.bind Json.asArray).getD []).filterMap fun f =>
    if isDisabled f then none
    else (f.textAt "key").map fun key => { key := key, value := textOr "" f "value" }

/-- The path of a file: a text, or the first of an array. -/
def sourcePath (f : Json) : String :=
  ((f.get "src").bind fun s => s.asStr.or ((s.asArray.bind List.head?).bind Json.asStr)).getD ""

def formFromFormdata (v : Option Json) : List FormField :=
  ((v.bind Json.asArray).getD []).filterMap fun f =>
    if isDisabled f then none
    else (f.textAt "key").map fun key =>
      if toAsciiLowercase (textOr "text" f "type") = "file" then
        let path := sourcePath f
        { key := key, value := "", file := if path = "" then none else some path }
      else { key := key, value := textOr "" f "value" }

def postmanBodyParts : Option Json → BodyMode × String × List FormField
  | none => (.raw, "", [])
  | some v =>
    match toAsciiLowercase (textOr "raw" v "mode") with
    | "urlencoded" => (.urlEncoded, "", formFromUrlencoded (v.get "urlencoded"))
    | "formdata" => (.multipart, "", formFromFormdata (v.get "formdata"))
    | "graphql" => (.graphQL, ((v.get "graphql").bind (Json.textAt "query")).getD "", [])
    | _ => (.raw, textOr "" v "raw", [])

/-- The request of an item, under the name and with the authentication that are found for it. -/
def postmanRequest (fullName : String) (auth : Option Json) (item req : Json) : SavedRequest :=
  let (bodyMode, body, formFields) := postmanBodyParts (req.get "body")
  let a := postmanAuth auth
  let event := (item.get "event").or (req.get "event")
  { name := fullName
    kind := if bodyMode = .graphQL then "graphql" else "http"
    target := postmanUrl (req.get "url")
    method := some (textOr "GET" req "method")
    headers := postmanHeaders (req.get "header")
    body := body
    auth := a.auth
    authToken := a.authToken
    authUser := a.authUser
    authPass := a.authPass
    authKey := a.authKey
    authValue := a.authValue
    bodyMode := bodyMode
    formFields := formFields
    preScript := postmanPrerequest event
    tests := postmanTests event }

/-- The items of a folder. -/
def childrenOf (item : Json) : Option (List Json) := (item.get "item").bind Json.asArray

theorem sizeOf_children {item : Json} {children : List Json}
    (found : childrenOf item = some children) : sizeOf children < sizeOf item := by
  obtain ⟨v, inside, items⟩ := Option.bind_eq_some_iff.mp found
  exact (Json.sizeOf_items items).trans (Json.sizeOf_get inside)

/-- The name below a folder. -/
def nameBelow (folder name : String) : String :=
  if folder = "" then name else folder ++ "/" ++ name

def walkPostmanItems (folder : String) (inheritedAuth : Option Json) :
    List Json → List SavedRequest
  | [] => []
  | item :: items =>
    let name := textOr "request" item "name"
    let auth := (item.get "auth").or inheritedAuth
    let here :=
      match _found : childrenOf item with
      | some children => walkPostmanItems (nameBelow folder name) auth children
      | none =>
        match item.get "request" with
        | none => []
        | some req => [postmanRequest (nameBelow folder name) ((req.get "auth").or auth) item req]
    here ++ walkPostmanItems folder inheritedAuth items
termination_by items => sizeOf items
decreasing_by
  · have smaller := sizeOf_children _found
    simp only [List.cons.sizeOf_spec]
    omega
  · simp only [List.cons.sizeOf_spec]
    omega

/-- The variables of a document, but those without a key. -/
def postmanVariables (vars : List Json) : List (String × String) :=
  vars.filterMap fun var =>
    let key := textOr "" var "key"
    if key = "" then none else some (key, textOr "" var "value")

inductive ImportError where
  | parse
  | missingInfo
  deriving DecidableEq, Repr

def ImportError.text : ImportError → String
  | .parse => "parse postman json"
  | .missingInfo => "missing info"

def importPostmanV21 (fromStr : String → Option Json) (text : String) :
    Except ImportError Collection :=
  match fromStr text with
  | none => .error .parse
  | some v =>
    match v.get "info" with
    | none => .error .missingInfo
    | some info =>
      let vars := (((v.get "variable").bind Json.asArray).map postmanVariables).getD []
      .ok
        { name := textOr "postman" info "name"
          requests := ((childrenOf v).map (walkPostmanItems "" (v.get "auth"))).getD []
          environments := if vars = [] then [] else [{ name := "collection", vars := vars }]
          activeEnv := if vars = [] then none else some "collection" }

end BitBeak.Collections
