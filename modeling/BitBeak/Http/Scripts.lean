import BitBeak.Dissect.Utf8Text
import BitBeak.Http.Session
import BitBeak.Lib.OrderedMap
import Mathlib.Data.String.Basic

/-! Pre-request scripts. The request goes into the scope of the script as a map of texts, and is
read from the scope when the script has run. -/
namespace BitBeak.Http.Scripts
open Wire

/-- Values of the script engine. Nothing is read of those that are neither texts nor maps; a map
has its entries in the order of their keys. -/
inductive Dynamic where
  | string (text : String)
  | map (entries : List (String × Dynamic))
  | other

namespace Dynamic

def intoString : Dynamic → Option String
  | .string text => some text
  | _ => none

def castMap : Dynamic → Option (List (String × Dynamic))
  | .map entries => some entries
  | _ => none

end Dynamic

/-- The variables of a script, in the order in which they were pushed. -/
abbrev Scope := List (String × Dynamic)

/-- The value of the last variable of the name, if it is a map. -/
def getMap (scope : Scope) (name : String) : Option (List (String × Dynamic)) :=
  (scope.reverse.find? fun v => v.1 = name).bind fun v => v.2.castMap

/-- The script engine: the outcome of a run, and the scope after it. -/
structure Rhai where
  runWithScope : Scope → String → Except String Unit × Scope

def texts (entries : List (String × String)) : List (String × Dynamic) :=
  OrderedMap.ofList (entries.map (Prod.map id Dynamic.string))

/-- The request as a script gets it. -/
def requestOf (spec : HttpRequestSpec) : ScriptRequest where
  url := spec.url
  method := spec.method
  body := fromUtf8Lossy spec.body
  headers := spec.headers

/-- The entries of `req`. -/
def requestMap (req : ScriptRequest) : List (String × Dynamic) :=
  OrderedMap.ofList
    [("url", .string req.url), ("method", .string req.method), ("body", .string req.body),
      ("headers", .map (texts req.headers))]

def scopeOf (req : ScriptRequest) (env : List (String × String)) : Scope :=
  [("req", .map (requestMap req)), ("env", .map (texts env))]

/-- The value of a key. -/
def get (entries : List (String × Dynamic)) (key : String) : Option Dynamic :=
  (entries.find? fun e => e.1 = key).map Prod.snd

/-- The entries whose values are texts. -/
def headersOf (entries : List (String × Dynamic)) : Headers :=
  entries.filterMap fun e => e.2.intoString.map fun text => (e.1, text)

/-- What is read of `req`. -/
def editsOf (req : List (String × Dynamic)) : ScriptEdits where
  url := (get req "url").bind Dynamic.intoString
  method := (get req "method").bind Dynamic.intoString
  body := (get req "body").bind Dynamic.intoString
  headers := ((get req "headers").bind Dynamic.castMap).map headersOf

/-- The outcome, and the request afterwards. -/
def runPreScript (rhai : Rhai) (script : String) (spec : HttpRequestSpec)
    (env : List (String × String)) : Except String Unit × HttpRequestSpec :=
  if trim script = "" then (.ok (), spec)
  else
    match rhai.runWithScope (scopeOf (requestOf spec) env) script with
    | (.error e, _) => (.error ("pre-script: " ++ e), spec)
    | (.ok (), scope) =>
      match getMap scope "req" with
      | some req => (.ok (), applyEdits spec (editsOf req))
      | none => (.ok (), spec)

/-- The engine as the session uses it. -/
def engineOf (rhai : Rhai) : Engine := fun script req env =>
  match rhai.runWithScope (scopeOf req env) script with
  | (.error _, _) => none
  | (.ok (), scope) => some (((getMap scope "req").map editsOf).getD ⟨none, none, none, none⟩)

theorem applyEdits_none (spec : HttpRequestSpec) :
    applyEdits spec ⟨none, none, none, none⟩ = spec := rfl

/-- The session goes on with the request after a run without error. -/
theorem runPreScript_session (rhai : Rhai) (script : String) (spec : HttpRequestSpec)
    (env : List (String × String)) :
    Http.runPreScript (engineOf rhai) script spec env =
      match runPreScript rhai script spec env with
      | (.ok (), edited) => some edited
      | (.error _, _) => none := by
  rw [Http.runPreScript, runPreScript]
  split
  · rfl
  · change Option.map _ (engineOf rhai script (requestOf spec) env) = _
    rw [engineOf]
    rcases rhai.runWithScope (scopeOf (requestOf spec) env) script with ⟨e | ⟨⟩, scope⟩
    · rfl
    · cases found : getMap scope "req" with
      | none => simp [found, applyEdits_none]
      | some req => simp [found]

/-- A script that fails leaves the request as it was. -/
theorem runPreScript_error {rhai : Rhai} {script : String} {spec edited : HttpRequestSpec}
    {env : List (String × String)} {e : String}
    (failed : runPreScript rhai script spec env = (.error e, edited)) : edited = spec := by
  rw [runPreScript] at failed
  split at failed
  · cases failed
  · split at failed
    · cases failed
      rfl
    · split at failed <;> cases failed

/- A script that does not touch `req`. -/

theorem requestMap_eq (req : ScriptRequest) :
    requestMap req = [("body", .string req.body), ("headers", .map (texts req.headers)),
      ("method", .string req.method), ("url", .string req.url)] := by
  have keys : ¬ "method" = "url" ∧ "method" < "url" ∧ "body" < "method" ∧
      ¬ "headers" < "body" ∧ ¬ "headers" = "body" ∧ "headers" < "method" := by decide
  simp [requestMap, OrderedMap.ofList, OrderedMap.put, keys]

theorem headersOf_texts (headers : Headers) : headersOf (texts headers) = OrderedMap.ofList headers := by
  rw [headersOf, texts, OrderedMap.ofList_map, List.filterMap_map]
  exact List.filterMap_some

/-- What is read of the map that was put in: the headers as a map of the last of each name, and the
body as a text. -/
theorem editsOf_requestMap (req : ScriptRequest) :
    editsOf (requestMap req) =
      ⟨some req.url, some req.method, some req.body, some (OrderedMap.ofList req.headers)⟩ := by
  rw [requestMap_eq]
  simp [editsOf, get, Dynamic.intoString, Dynamic.castMap, headersOf_texts]

/-- The script runs without error, and `req` is afterwards what it was. -/
def Untouched (rhai : Rhai) (script : String) (spec : HttpRequestSpec)
    (env : List (String × String)) : Prop :=
  ∃ scope, rhai.runWithScope (scopeOf (requestOf spec) env) script = (.ok (), scope) ∧
    getMap scope "req" = some (requestMap (requestOf spec))

/-- What is left of a request by a script that does not touch it. -/
def throughMap (spec : HttpRequestSpec) : HttpRequestSpec :=
  { spec with
    headers := OrderedMap.ofList spec.headers
    body := utf8Bytes (fromUtf8Lossy spec.body) }

theorem runPreScript_untouched {rhai : Rhai} {script : String} {spec : HttpRequestSpec}
    {env : List (String × String)} (some : trim script ≠ "")
    (untouched : Untouched rhai script spec env) :
    runPreScript rhai script spec env = (.ok (), throughMap spec) := by
  obtain ⟨scope, ran, kept⟩ := untouched
  rw [runPreScript, if_neg some, ran]
  simp only [kept, editsOf_requestMap]
  rfl

theorem lossy_octets_iff (octets : Bytes) :
    utf8Bytes (fromUtf8Lossy octets) = octets ↔ fromUtf8 octets ≠ none := by
  rw [utf8Bytes, Utf8.toUTF8_toList, fromUtf8_ne_none_iff]
  constructor
  · exact fun same => ⟨_, same⟩
  · rintro ⟨text, rfl⟩
    rw [fromUtf8Lossy_encode, String.ofList_toList]

theorem throughMap_iff (spec : HttpRequestSpec) :
    throughMap spec = spec ↔ OrderedMap.Ordered spec.headers ∧ fromUtf8 spec.body ≠ none := by
  rw [← OrderedMap.ofList_eq_iff, ← lossy_octets_iff]
  cases spec
  simp [throughMap]

/-- A script that does not touch the request leaves it as it was exactly if the script is blank,
or the names of the headers ascend and the body is UTF-8; one that fails always does. -/
theorem pre_script_iff (rhai : Rhai) (script : String) (spec : HttpRequestSpec)
    (env : List (String × String)) :
    (Untouched rhai script spec env →
      (runPreScript rhai script spec env = (.ok (), spec) ↔
        trim script = "" ∨ OrderedMap.Ordered spec.headers ∧ fromUtf8 spec.body ≠ none)) ∧
      ∀ e edited, runPreScript rhai script spec env = (.error e, edited) → edited = spec := by
  refine ⟨fun untouched => ?_, fun e edited => runPreScript_error⟩
  by_cases blank : trim script = ""
  · simp [runPreScript, blank]
  · rw [runPreScript_untouched blank untouched, ← throughMap_iff]
    simp [blank]

/-- A script of one value changes no variable. -/
def valueEngine : Rhai := ⟨fun scope _ => (.ok (), scope)⟩

theorem valueEngine_untouched (script : String) (spec : HttpRequestSpec)
    (env : List (String × String)) : Untouched valueEngine script spec env :=
  ⟨_, rfl, rfl⟩

theorem pre_script_plain :
    runPreScript valueEngine "1 + 1" {} [] = (.ok (), ({} : HttpRequestSpec)) :=
  ((pre_script_iff valueEngine "1 + 1" {} []).1 (valueEngine_untouched _ _ _)).mpr
    (.inr ⟨List.pairwise_singleton _ _, by decide⟩)

/-- Headers that do not stand in the order of their names are put in that order. -/
theorem pre_script_reorders :
    ¬ ∀ (rhai : Rhai) (script : String) (spec : HttpRequestSpec) (env : List (String × String)),
      Untouched rhai script spec env → runPreScript rhai script spec env = (.ok (), spec) := by
  intro all
  have kept := all valueEngine "1 + 1" { headers := [("Host", "a"), ("Accept", "b")] } []
    (valueEngine_untouched _ _ _)
  have script : trim "1 + 1" ≠ "" := by decide
  rw [runPreScript_untouched script (valueEngine_untouched _ _ _)] at kept
  have headers := congrArg (fun run => run.2.headers) kept
  revert headers
  decide

end BitBeak.Http.Scripts
