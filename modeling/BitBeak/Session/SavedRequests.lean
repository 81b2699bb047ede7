import BitBeak.Session.HttpSession

/-! A saved request that is loaded into a session and saved again. Most of its texts go through an
editor, and of a form the first row does. -/
namespace BitBeak
open Collections Http

def edited (text : String) : String := (TextArea.setText text).textOf

theorem edited_iff (text : String) : edited text = text ↔ EditorText text := textOf_setText text

def editedField (f : FormField) : FormField where
  key := edited f.key
  value := edited f.value
  file := HttpSession.fileNamed (edited (f.file.getD ""))

/-- The file of a field is not named by an empty path. -/
structure FieldKept (f : FormField) : Prop where
  key : EditorText f.key
  value : EditorText f.value
  file : ∀ path, f.file = some path → EditorText path ∧ path ≠ ""

theorem editedField_iff (f : FormField) : editedField f = f ↔ FieldKept f := by
  obtain ⟨key, value, file⟩ := f
  have path : HttpSession.fileNamed (edited (file.getD "")) = file ↔
      ∀ path, file = some path → EditorText path ∧ path ≠ "" := by
    rw [HttpSession.fileNamed]
    cases file with
    | none => simp [edited, TextArea.setText, textOf_singleLine]
    | some path =>
      simp only [Option.getD_some, Option.some.injEq, forall_eq', ← edited_iff]
      split
      · next empty => simp [empty, eq_comm]
      · next other =>
        rw [Option.some.injEq, iff_self_and]
        intro same
        rwa [← same]
  rw [editedField, FormField.mk.injEq, path, edited_iff, edited_iff]
  constructor
  · rintro ⟨key, value, file⟩
    exact ⟨key, value, file⟩
  · exact fun kept => ⟨kept.key, kept.value, kept.file⟩

def FormMode (mode : BodyMode) : Prop := mode = .urlEncoded ∨ mode = .multipart

instance (mode : BodyMode) : Decidable (FormMode mode) :=
  inferInstanceAs (Decidable (mode = .urlEncoded ∨ mode = .multipart))

def editedForm (mode : BodyMode) (fields : List FormField) : List FormField :=
  if FormMode mode then fields.modifyHead editedField else fields

theorem editedForm_iff (mode : BodyMode) (fields : List FormField) :
    editedForm mode fields = fields ↔
      (FormMode mode → ∀ f, fields.head? = some f → FieldKept f) := by
  rw [editedForm]
  split
  · next form =>
    cases fields with
    | nil => simp
    | cons f fields => simp [form, editedField_iff]
  · next other => simp [other]

/- Loading. -/

namespace HttpSession

/-- The row that the form's editors are filled from. -/
def shownRow (s : HttpSession) : FormField :=
  s.formFields[s.formRow]?.getD { key := "", value := "" }

theorem syncFormEditorFromRow_eq (s : HttpSession) :
    s.syncFormEditorFromRow =
      { s with
        formKeyTa := .setText s.shownRow.key
        formValueTa := .setText s.shownRow.value
        formFileTa := .setText (s.shownRow.file.getD "") } := by
  rw [syncFormEditorFromRow, shownRow]
  split
  · next f row => simp [row]
  · next row => simp [row]

end HttpSession

/-- The form in which the session saves a request. -/
structure NormalForm (r : SavedRequest) : Prop where
  method : r.method ≠ none
  key : r.authKey ≠ ""
  kind : r.kind = HttpSession.savedKind r.grpcMode r.bodyMode
  headers : ∀ h ∈ r.headers, HeaderKept h ∧ HeaderLine h

section
variable (s : HttpSession) {r : SavedRequest} (normal : NormalForm r)
include normal

theorem loadSaved_bodyMode : (s.loadSaved r).bodyMode = r.bodyMode := by
  have graphql : r.kind = "graphql" → r.bodyMode = .graphQL := by
    rw [normal.kind, HttpSession.savedKind]
    split
    · exact fun other => absurd other (by decide)
    · split
      · next mode => exact fun _ => mode
      · exact fun other => absurd other (by decide)
  change (if r.kind = "graphql" then BodyMode.graphQL else r.bodyMode) = r.bodyMode
  split
  · next kind => exact (graphql kind).symm
  · rfl

theorem loadSaved_grpcMode : (s.loadSaved r).grpcMode = r.grpcMode := by
  change (if r.kind = "grpc" then true else r.grpcMode) = r.grpcMode
  rw [normal.kind, HttpSession.savedKind]
  cases r.grpcMode with
  | true => rfl
  | false => cases r.bodyMode <;> rfl

theorem loadSaved_form : (s.loadSaved r).currentForm = editedForm r.bodyMode r.formFields := by
  have mode := loadSaved_bodyMode s normal
  rw [HttpSession.currentForm, mode, editedForm]
  by_cases form : r.bodyMode = .urlEncoded ∨ r.bodyMode = .multipart
  · rw [if_pos (show FormMode r.bodyMode from form)]
    simp only [form, HttpSession.loadSaved, HttpSession.editedRow,
      HttpSession.syncFormEditorFromRow_eq, HttpSession.shownRow]
    cases r.formFields with
    | nil => rfl
    | cons f fields => simp [editedField, edited]
  · rw [if_neg (show ¬ FormMode r.bodyMode from form), if_neg fun all => form all.1]
    simp only [HttpSession.loadSaved, HttpSession.syncFormEditorFromRow_eq]

/-- What is saved again, of each text what its editor gives back. -/
theorem saved_again : (s.loadSaved r).toSaved r.name =
    { r with
      method := r.method.map edited
      target := edited r.target
      body := edited r.body
      authToken := edited r.authToken
      authUser := edited r.authUser
      authPass := edited r.authPass
      authKey := edited r.authKey
      authValue := edited r.authValue
      formFields := editedForm r.bodyMode r.formFields
      graphqlVariables := edited r.graphqlVariables
      graphqlOperation := edited r.graphqlOperation } := by
  have mode := loadSaved_bodyMode s normal
  have grpc := loadSaved_grpcMode s normal
  have form := loadSaved_form s normal
  have headers := (headers_again_iff fun h member => (normal.headers h member).2).mpr
    fun h member => (normal.headers h member).1
  obtain ⟨method, set⟩ := Option.ne_none_iff_exists'.mp normal.method
  rw [HttpSession.toSaved, mode, grpc, form, ← normal.kind]
  simp only [HttpSession.loadSaved, HttpSession.syncFormEditorFromRow_eq, headers, normal.key, set,
    if_false, edited, Option.getD_some, Option.map_some]

end

/-- The texts that go through an editor, besides those of the form. -/
def editorTexts (r : SavedRequest) : List String :=
  [r.method.getD "GET", r.target, r.body, r.authToken, r.authUser, r.authPass, r.authKey,
    r.authValue, r.graphqlVariables, r.graphqlOperation]

/-- A saved request is saved again as it was exactly if no text of it that goes through an editor
has a carriage return in front of a line break or a line break at its end, and the first row of its
form does not name a file by an empty path. -/
theorem saved_again_iff (s : HttpSession) {r : SavedRequest} (normal : NormalForm r) :
    (s.loadSaved r).toSaved r.name = r ↔
      (∀ text ∈ editorTexts r, EditorText text) ∧
        (FormMode r.bodyMode → ∀ f, r.formFields.head? = some f → FieldKept f) := by
  obtain ⟨method, set⟩ := Option.ne_none_iff_exists'.mp normal.method
  rw [saved_again s normal, ← editedForm_iff]
  cases r
  simp only at set
  subst set
  simp only [editorTexts, SavedRequest.mk.injEq, List.forall_mem_cons, edited_iff, Option.map_some,
    Option.getD_some, Option.some.injEq, List.not_mem_nil, false_implies, implies_true, true_and,
    and_true]
  tauto

def plainRequest (body : String) : SavedRequest :=
  { name := "ping", target := "http://localhost/ping", headers := [("Accept", "*/*")], body := body }

theorem plainRequest_normal (body : String) : NormalForm (plainRequest body) where
  method := by simp [plainRequest]
  key := by simp [plainRequest]
  kind := rfl
  headers := by
    intro h member
    obtain rfl := List.mem_singleton.mp member
    exact ⟨⟨by decide, by decide, by decide⟩, by decide, by decide⟩

def savedSession : HttpSession := .start (.tcp "localhost" 80) ⟨true, []⟩

theorem saved_again_plain :
    (savedSession.loadSaved (plainRequest "pong")).toSaved "ping" = plainRequest "pong" := by
  have unbroken : ∀ text ∈ editorTexts (plainRequest "pong"), '\n' ∉ text.toList := by decide
  refine (saved_again_iff savedSession (plainRequest_normal "pong")).mpr
    ⟨fun text member => LineText.settled_of_none (unbroken text member), fun form => ?_⟩
  cases form <;> contradiction

/-- The line break at the end of the body is lost. -/
theorem saved_break_lost : ¬ ∀ (s : HttpSession) (r : SavedRequest), NormalForm r →
    (s.loadSaved r).toSaved r.name = r := by
  intro all
  have same := all savedSession _ (plainRequest_normal "pong\n")
  rw [saved_again savedSession (plainRequest_normal "pong\n")] at same
  have body : EditorText "pong\n" := (edited_iff _).mp (congrArg SavedRequest.body same)
  exact body.1 (by decide)

end BitBeak
