import BitBeak.Session.HttpSession

/-! The rows of a form and the editor of the one that is selected. The editor is written into its
row and filled from it at different moments; an index that does not fit is a fault. -/
namespace BitBeak
open Wire Http Collections

inductive HttpField where
  | method
  | url
  | authKind
  | authToken
  | authUser
  | authPass
  | authKey
  | authValue
  | headers
  | body
  | form
  | graphqlVars
  | graphqlOp
  deriving DecidableEq, Repr

inductive FormCell where
  | key
  | value
  | file
  deriving DecidableEq, Repr

/-- A session with its cursor. `onForm` is the focus on the pane of the editors. -/
structure HttpForm extends HttpSession where
  onForm : Bool := true
  field : HttpField := .url
  formCell : FormCell := .key

/-- The keys that are told apart while a row of the form is edited. Any other key makes the
editor it goes to what it becomes. -/
inductive FormKey where
  | add
  | delete
  | backTab
  | tab
  | up
  | down
  | input (edited : TextArea)

inductive FormAct where
  | loadSaved (req : SavedRequest)
  | loadHistory (entry : HistoryEntry)
  | formKey (key : FormKey)
  | cycleBodyMode
  | cycleField (reverse : Bool)
  | setField (field : HttpField)
  | cycleAuth
  | commit
  | setFocus (onForm : Bool)

/-- The acts that put other rows in the place of all. -/
def FormAct.loads : FormAct → Bool
  | .loadSaved _ => true
  | _ => false

namespace HttpForm

/-- A new session. -/
def start (target : Cli.Target) (cookies : CookieJar) : HttpForm :=
  { HttpSession.start target cookies with }

def syncFormEditorFromRow (s : HttpForm) : HttpForm :=
  { s with toHttpSession := s.toHttpSession.syncFormEditorFromRow }

/-- The editor is written into the row. -/
def commitFormEditorToRow (s : HttpForm) : Except Fault HttpForm :=
  if s.formFields.isEmpty then .ok s
  else
    let row := if s.formFields.length ≤ s.formRow then s.formFields.length - 1 else s.formRow
    if row < s.formFields.length then
      .ok { s with formRow := row, formFields := s.formFields.set row s.editedRow }
    else .error .outOfRange

def formAddRow (s : HttpForm) : Except Fault HttpForm := do
  let s ← s.commitFormEditorToRow
  let formFields := s.formFields ++ [{ key := "", value := "" }]
  let s := { s with formFields := formFields, formRow := formFields.length - 1 }
  return { s.syncFormEditorFromRow with field := .form }

def formDeleteRow (s : HttpForm) : Except Fault HttpForm :=
  if s.formFields.isEmpty then .ok s
  else if s.formRow < s.formFields.length then
    let formFields := s.formFields.eraseIdx s.formRow
    let row :=
      if 0 < s.formRow ∧ formFields.length ≤ s.formRow then s.formRow - 1 else s.formRow
    .ok { s with formFields := formFields, formRow := row }.syncFormEditorFromRow
  else .error .outOfRange

def commitAuthAndForm (s : HttpForm) : Except Fault HttpForm :=
  if s.field = .form then s.commitFormEditorToRow else .ok s

/-- The field behind this one. -/
def fieldBehind (s : HttpForm) : HttpField :=
  match s.field with
  | .method => .url
  | .url => .authKind
  | .authKind =>
    match s.auth with
    | .none => .headers
    | .bearer => .authToken
    | .basic => .authUser
    | .apiKeyHeader | .apiKeyQuery => .authKey
    | .oauth2 => .authUser
  | .authUser => .authPass
  | .authPass => if s.auth = .oauth2 then .authKey else .headers
  | .authKey => .authValue
  | .authValue => if s.auth = .oauth2 then .authToken else .headers
  | .authToken => .headers
  | .headers =>
    match s.bodyMode with
    | .raw | .graphQL => .body
    | .urlEncoded | .multipart => .form
  | .body => if s.bodyMode = .graphQL then .graphqlVars else .method
  | .graphqlVars => .graphqlOp
  | .graphqlOp | .form => .method

/-- The field in front of this one, as `cycle_focus` goes back. -/
def fieldInFront (s : HttpForm) : HttpField :=
  match s.field with
  | .method =>
    match s.bodyMode with
    | .raw => .body
    | .graphQL => .graphqlOp
    | .urlEncoded | .multipart => .form
  | .url => .method
  | .authKind => .url
  | .authToken | .authUser | .authKey => .authKind
  | .authPass => .authUser
  | .authValue => .authKey
  | .headers =>
    match s.auth with
    | .none => .authKind
    | .bearer => .authToken
    | .basic => .authPass
    | .apiKeyHeader | .apiKeyQuery | .oauth2 => .authValue
  | .graphqlOp => .graphqlVars
  | .graphqlVars => .body
  | .body | .form => .headers

def setField (s : HttpForm) (field : HttpField) : Except Fault HttpForm := do
  let s ← s.commitAuthAndForm
  let s := { s with field := field, onForm := true }
  return if field = .form then s.syncFormEditorFromRow else s

/-- Going back does not write the editor into its row. -/
def cycleField (s : HttpForm) (reverse : Bool) : Except Fault HttpForm :=
  if reverse then .ok { s with field := s.fieldInFront, onForm := true }
  else do
    let s ← s.commitAuthAndForm
    let s := { s with field := s.fieldBehind }
    let s := if s.field = .form then s.syncFormEditorFromRow else s
    return { s with onForm := true }

def cycleAuth (s : HttpForm) : HttpForm :=
  { s with
    auth :=
      match s.auth with
      | .none => .bearer
      | .bearer => .basic
      | .basic => .apiKeyHeader
      | .apiKeyHeader => .apiKeyQuery
      | .apiKeyQuery => .oauth2
      | .oauth2 => .none
    field := .authKind }

def nextBodyMode : BodyMode → BodyMode
  | .raw => .urlEncoded
  | .urlEncoded => .multipart
  | .multipart => .graphQL
  | .graphQL => .raw

/-- A form has a row at least, and the cursor goes to it. -/
def enterForm (s : HttpForm) : Except Fault HttpForm := do
  let s ← if s.formFields.isEmpty then s.formAddRow else .ok s
  return { s with field := .form }.syncFormEditorFromRow

/-- The editor is written into its row whatever the field is. -/
def cycleBodyMode (s : HttpForm) : Except Fault HttpForm := do
  let s ← s.commitFormEditorToRow
  let s := { s with bodyMode := nextBodyMode s.bodyMode }
  match s.bodyMode with
  | .raw => return { s with field := .body }
  | .graphQL =>
    let method :=
      if eqIgnoreAsciiCase s.method.textOf "GET" then TextArea.setText "POST" else s.method
    return { s with field := .body, method := method }
  | .urlEncoded | .multipart => s.enterForm

/-- The editor that is typed into. -/
def setActiveTextarea (s : HttpForm) (edited : TextArea) : HttpForm :=
  if s.onForm then
    match s.field with
    | .method => { s with method := edited }
    | .url => { s with url := edited }
    | .headers => { s with headers := edited }
    | .body => { s with body := edited }
    | .authToken => { s with authTokenTa := edited }
    | .authUser => { s with authUserTa := edited }
    | .authPass => { s with authPassTa := edited }
    | .authKey => { s with authKeyTa := edited }
    | .authValue => { s with authValueTa := edited }
    | .graphqlVars => { s with graphqlVarsTa := edited }
    | .graphqlOp => { s with graphqlOpTa := edited }
    | .form =>
      match s.formCell with
      | .key => { s with formKeyTa := edited }
      | .value => { s with formValueTa := edited }
      | .file => { s with formFileTa := edited }
    | .authKind => s
  else s

/-- A key while the editors have the focus; only in a row of the form is it more than typing. -/
def formKey (s : HttpForm) (key : FormKey) : Except Fault HttpForm :=
  if s.field = .form ∧ s.onForm then
    match key with
    | .add => s.formAddRow
    | .delete => s.formDeleteRow
    | .backTab =>
      .ok { s with
        formCell :=
          match s.formCell with
          | .key => if s.bodyMode = .multipart then .file else .value
          | .value => .key
          | .file => .value }
    | .tab =>
      .ok { s with
        formCell :=
          match s.formCell with
          | .key => .value
          | .value => if s.bodyMode = .multipart then .file else .key
          | .file => .key }
    | .up => do
      let s ← s.commitFormEditorToRow
      return { s with formRow := s.formRow - 1 }.syncFormEditorFromRow
    | .down => do
      let s ← s.commitFormEditorToRow
      let row := if s.formRow + 1 < s.formFields.length then s.formRow + 1 else s.formRow
      return { s with formRow := row }.syncFormEditorFromRow
    | .input edited => .ok (s.setActiveTextarea edited)
  else
    match key with
    | .input edited => .ok (s.setActiveTextarea edited)
    | _ => .ok s

def step (s : HttpForm) : FormAct → Except Fault HttpForm
  | .loadSaved req => .ok { s with toHttpSession := s.toHttpSession.loadSaved req }
  | .loadHistory entry =>
    .ok { s with
      toHttpSession := s.toHttpSession.loadHistory entry, onForm := true, field := .url }
  | .formKey key => s.formKey key
  | .cycleBodyMode => s.cycleBodyMode
  | .cycleField reverse => s.cycleField reverse
  | .setField field => s.setField field
  | .cycleAuth => .ok s.cycleAuth
  | .commit => s.commitFormEditorToRow
  | .setFocus onForm => .ok { s with onForm := onForm }

def run (s : HttpForm) (acts : List FormAct) : Except Fault HttpForm := acts.foldlM step s

/- The rows and the selected one. -/

/-- A row is selected, or there is none and the index is zero. -/
def RowValid (s : HttpForm) : Prop :=
  s.formRow < s.formFields.length ∨ s.formFields = [] ∧ s.formRow = 0

/-- What an act may do to the rows: the selected one gets another content; the same, and one more
comes to the end and is selected; or the selected one goes. -/
structure Touches (before after : HttpForm) : Prop where
  kept : after.formFields.length = before.formFields.length →
    ∃ row, after.formFields = before.formFields.set before.formRow row
  added : before.formFields.length < after.formFields.length →
    ∃ row new, after.formFields = before.formFields.set before.formRow row ++ [new] ∧
      after.formRow = before.formFields.length
  removed : after.formFields.length < before.formFields.length →
    after.formFields = before.formFields.eraseIdx before.formRow

/-- An act that went well. -/
def Safe (s : HttpForm) (result : Except Fault HttpForm) : Prop :=
  ∃ next, result = .ok next ∧ next.RowValid ∧ Touches s next

/-- The editor shows the selected row. -/
def Shows (s : HttpForm) : Prop := s.syncFormEditorFromRow = s

section
variable {s after : HttpForm}

theorem touches_set (row : FormField) (changed : after.formFields = s.formFields.set s.formRow row) :
    Touches s after where
  kept _ := ⟨row, changed⟩
  added longer := absurd longer (by simp [changed])
  removed shorter := absurd shorter (by simp [changed])

theorem touches_same (same : after.formFields = s.formFields) : Touches s after := by
  refine ⟨fun _ => ?_, fun longer => absurd longer (by simp [same]),
    fun shorter => absurd shorter (by simp [same])⟩
  rw [same]
  by_cases inside : s.formRow < s.formFields.length
  · exact ⟨s.formFields[s.formRow], (List.set_getElem_self inside).symm⟩
  · exact ⟨{ key := "", value := "" }, (List.set_eq_of_length_le (Nat.le_of_not_lt inside)).symm⟩

theorem touches_add (row new : FormField)
    (longer : after.formFields = s.formFields.set s.formRow row ++ [new])
    (selected : after.formRow = s.formFields.length) : Touches s after where
  kept level := absurd level (by simp [longer])
  added _ := ⟨row, new, longer, selected⟩
  removed shorter := absurd shorter (by simp [longer])

theorem touches_remove (inside : s.formRow < s.formFields.length)
    (removed : after.formFields = s.formFields.eraseIdx s.formRow) : Touches s after where
  kept level := absurd level (by rw [removed, List.length_eraseIdx_of_lt inside]; omega)
  added longer := absurd longer (by rw [removed, List.length_eraseIdx_of_lt inside]; omega)
  removed _ := removed

theorem safe_same (valid : s.RowValid) (rows : after.formFields = s.formFields)
    (row : after.formRow = s.formRow) : Safe s (.ok after) := by
  refine ⟨after, rfl, ?_, touches_same rows⟩
  unfold RowValid
  rw [rows, row]
  exact valid

/-- Filling the editor changes neither the rows nor which one is selected. -/
@[simp] theorem sync_rows (s : HttpForm) :
    s.syncFormEditorFromRow.formFields = s.formFields := by
  unfold syncFormEditorFromRow HttpSession.syncFormEditorFromRow
  split <;> rfl

@[simp] theorem sync_row (s : HttpForm) : s.syncFormEditorFromRow.formRow = s.formRow := by
  unfold syncFormEditorFromRow HttpSession.syncFormEditorFromRow
  split <;> rfl

theorem sync_shows (s : HttpForm) : Shows s.syncFormEditorFromRow := by
  unfold Shows syncFormEditorFromRow HttpSession.syncFormEditorFromRow
  cases row : s.formFields[s.formRow]? <;> simp [row]

/-- The editor is written into the selected row, if there is one. -/
theorem commit_eq (valid : s.RowValid) : s.commitFormEditorToRow =
    .ok { s with formFields := s.formFields.set s.formRow s.editedRow } := by
  unfold commitFormEditorToRow
  rcases valid with inside | ⟨none, _⟩
  · have some : s.formFields.isEmpty = false :=
      List.isEmpty_eq_false_iff.mpr (List.ne_nil_of_length_pos (Nat.zero_lt_of_lt inside))
    simp only [some, Bool.false_eq_true, if_false, if_neg (Nat.not_le_of_lt inside), if_pos inside]
  · simp [none]
    rw [← none]

/-- The rows behind a commit. -/
def committed (s : HttpForm) : List FormField := s.formFields.set s.formRow s.editedRow

theorem commit_safe (valid : s.RowValid) : Safe s s.commitFormEditorToRow := by
  refine ⟨_, commit_eq valid, ?_, touches_set s.editedRow rfl⟩
  rcases valid with inside | ⟨none, zero⟩
  · exact .inl (by simpa using inside)
  · exact .inr ⟨by simp [none], zero⟩

theorem formAddRow_eq (valid : s.RowValid) : ∃ next, s.formAddRow = .ok next ∧
    next.formFields = s.committed ++ [{ key := "", value := "" }] ∧
    next.formRow = s.formFields.length ∧ Shows next ∧ next.bodyMode = s.bodyMode := by
  unfold formAddRow
  rw [commit_eq valid]
  refine ⟨_, rfl, ?_, ?_, ?_, ?_⟩
  · exact sync_rows _
  · simp
  · exact congrArg (fun t : HttpForm => { t with field := .form }) (sync_shows _)
  · unfold syncFormEditorFromRow HttpSession.syncFormEditorFromRow
    dsimp only
    split <;> rfl

theorem formAddRow_safe (valid : s.RowValid) : Safe s s.formAddRow := by
  obtain ⟨next, went, rows, row, _⟩ := formAddRow_eq valid
  exact ⟨next, went, .inl (by simp [rows, row, committed]), touches_add _ _ rows row⟩

theorem formDeleteRow_eq (inside : s.formRow < s.formFields.length) : s.formDeleteRow =
    .ok { s with
      formFields := s.formFields.eraseIdx s.formRow
      formRow := min s.formRow (s.formFields.length - 2) }.syncFormEditorFromRow := by
  have some : s.formFields.isEmpty = false :=
    List.isEmpty_eq_false_iff.mpr (List.ne_nil_of_length_pos (Nat.zero_lt_of_lt inside))
  have row : (if 0 < s.formRow ∧ (s.formFields.eraseIdx s.formRow).length ≤ s.formRow
      then s.formRow - 1 else s.formRow) = min s.formRow (s.formFields.length - 2) := by
    rw [List.length_eraseIdx_of_lt inside]
    split <;> omega
  unfold formDeleteRow
  simp only [some, Bool.false_eq_true, if_false, if_pos inside, row]

theorem formDeleteRow_safe (valid : s.RowValid) : Safe s s.formDeleteRow := by
  rcases valid with inside | ⟨none, zero⟩
  · have shorter := List.length_eraseIdx_of_lt inside
    refine ⟨_, formDeleteRow_eq inside, ?_, touches_remove inside (by rw [sync_rows])⟩
    unfold RowValid
    simp only [sync_rows, sync_row, ← List.length_eq_zero_iff, shorter]
    omega
  · rw [formDeleteRow, none]
    exact safe_same (.inr ⟨none, zero⟩) rfl rfl

/-- Going to another row behind a commit. -/
theorem move_safe (valid : s.RowValid) {row : Nat}
    (near : row = s.formRow ∨ row < s.formFields.length) :
    Safe s (.ok { s with formFields := s.committed, formRow := row }.syncFormEditorFromRow) := by
  refine ⟨_, rfl, ?_, touches_set s.editedRow (by rw [sync_rows]; rfl)⟩
  unfold RowValid at valid ⊢
  simp only [sync_rows, sync_row, ← List.length_eq_zero_iff, committed, List.length_set] at valid ⊢
  omega

theorem formKey_safe (valid : s.RowValid) (key : FormKey) : Safe s (s.formKey key) := by
  have typed (edited : TextArea) : Safe s (.ok (s.setActiveTextarea edited)) := by
    have rows : (s.setActiveTextarea edited).formFields = s.formFields ∧
        (s.setActiveTextarea edited).formRow = s.formRow := by
      unfold setActiveTextarea
      constructor <;> (repeat' split) <;> rfl
    exact safe_same valid rows.1 rows.2
  unfold formKey
  split
  · cases key with
    | add => exact formAddRow_safe valid
    | delete => exact formDeleteRow_safe valid
    | backTab => exact safe_same valid rfl rfl
    | tab => exact safe_same valid rfl rfl
    | up =>
      dsimp only
      rw [commit_eq valid]
      apply move_safe valid
      show s.formRow - 1 = s.formRow ∨ s.formRow - 1 < s.formFields.length
      unfold RowValid at valid
      omega
    | down =>
      dsimp only
      rw [commit_eq valid]
      apply move_safe valid
      dsimp only
      rw [List.length_set]
      split
      · next more => exact .inr more
      · exact .inl rfl
    | input edited => exact typed edited
  · cases key with
    | input edited => exact typed edited
    | _ => exact safe_same valid rfl rfl

theorem safe_field {next : HttpForm} (safe : Safe s (.ok next)) (onForm : Bool)
    (field : HttpField) : Safe s (.ok { next with onForm := onForm, field := field }) := by
  obtain ⟨_, same, valid, kept, added, removed⟩ := safe
  cases same
  exact ⟨_, rfl, valid, kept, added, removed⟩

theorem safe_sync {next : HttpForm} (safe : Safe s (.ok next)) :
    Safe s (.ok next.syncFormEditorFromRow) := by
  obtain ⟨_, same, valid, kept, added, removed⟩ := safe
  cases same
  refine ⟨_, rfl, ?_, ?_, ?_, ?_⟩
  · simpa [RowValid] using valid
  · simpa using kept
  · simpa using added
  · simpa using removed

theorem commitAuthAndForm_safe (valid : s.RowValid) : Safe s s.commitAuthAndForm := by
  unfold commitAuthAndForm
  split
  · exact commit_safe valid
  · exact safe_same valid rfl rfl

theorem setField_safe (valid : s.RowValid) (field : HttpField) : Safe s (s.setField field) := by
  obtain ⟨next, went, safe⟩ := commitAuthAndForm_safe valid
  unfold setField
  rw [went]
  have focused := safe_field ⟨next, rfl, safe⟩ true field
  show Safe s (.ok (if field = .form then _ else _))
  split
  · exact safe_sync focused
  · exact focused

theorem cycleField_safe (valid : s.RowValid) (reverse : Bool) :
    Safe s (s.cycleField reverse) := by
  cases reverse with
  | true => exact safe_same valid rfl rfl
  | false =>
    obtain ⟨next, went, safe⟩ := commitAuthAndForm_safe valid
    unfold cycleField
    rw [if_neg Bool.false_ne_true, went]
    have behind := safe_field ⟨next, rfl, safe⟩ next.onForm next.fieldBehind
    show Safe s (.ok { (if next.fieldBehind = .form then _ else _ : HttpForm) with onForm := true })
    split
    · exact safe_field (safe_sync behind) true _
    · exact safe_field behind true _

theorem safe_of_rows {next : HttpForm} {result : Except Fault HttpForm}
    (rows : next.formFields = s.formFields) (row : next.formRow = s.formRow)
    (safe : Safe next result) : Safe s result := by
  obtain ⟨last, went, valid, kept, added, removed⟩ := safe
  rw [rows, row] at kept removed
  rw [rows, row] at added
  exact ⟨last, went, valid, kept, added, removed⟩

/-- What enters a form behind a commit. -/
theorem enterForm_safe (valid : s.RowValid) {next : HttpForm}
    (rows : next.formFields = s.committed) (row : next.formRow = s.formRow) :
    Safe s next.enterForm := by
  unfold enterForm
  split
  · next none =>
    have empty : s.formFields = [] := by simpa [rows, committed] using none
    have same : next.formFields = s.formFields := by rw [rows, committed, empty]; rfl
    have blank : next.RowValid := .inr ⟨same.trans empty, by
      rw [row]
      exact (valid.resolve_left (by simp [empty])).2⟩
    obtain ⟨last, went, safe⟩ := safe_of_rows same row (formAddRow_safe blank)
    rw [went]
    exact safe_sync (safe_field ⟨last, rfl, safe⟩ last.onForm .form)
  · apply safe_sync
    refine safe_field ⟨next, rfl, ?_, touches_set s.editedRow rows⟩ next.onForm .form
    unfold RowValid at valid ⊢
    rw [← List.length_eq_zero_iff] at valid ⊢
    rw [rows, row, committed, List.length_set]
    exact valid

theorem cycleBodyMode_safe (valid : s.RowValid) : Safe s s.cycleBodyMode := by
  have changed : Safe s (.ok { s with formFields := s.committed }) := by
    obtain ⟨_, went, safe⟩ := commit_safe valid
    rw [commit_eq valid] at went
    cases went
    exact ⟨_, rfl, safe⟩
  unfold cycleBodyMode
  rw [commit_eq valid]
  obtain ⟨_, same, still, kept, added, removed⟩ := changed
  cases same
  cases s.bodyMode with
  | raw => exact enterForm_safe valid rfl rfl
  | urlEncoded => exact enterForm_safe valid rfl rfl
  | multipart => exact ⟨_, rfl, still, kept, added, removed⟩
  | graphQL => exact ⟨_, rfl, still, kept, added, removed⟩

/-- An act other than a load touches one row, and one that it adds or removes. -/
theorem step_safe (valid : s.RowValid) (act : FormAct) (edits : act.loads = false) :
    Safe s (s.step act) := by
  cases act with
  | loadSaved req => cases edits
  | loadHistory entry => exact safe_same valid rfl rfl
  | formKey key => exact formKey_safe valid key
  | cycleBodyMode => exact cycleBodyMode_safe valid
  | cycleField reverse => exact cycleField_safe valid reverse
  | setField field => exact setField_safe valid field
  | cycleAuth => exact safe_same valid rfl rfl
  | commit => exact commit_safe valid
  | setFocus onForm => exact safe_same valid rfl rfl

/-- A load brings rows of its own and selects the first. -/
theorem loadSaved_rows (s : HttpForm) (req : SavedRequest) : ∃ next,
    s.step (.loadSaved req) = .ok next ∧ next.RowValid ∧ next.formFields = req.formFields ∧
      next.formRow = 0 := by
  have rows : (s.toHttpSession.loadSaved req).formFields = req.formFields ∧
      (s.toHttpSession.loadSaved req).formRow = 0 := by
    unfold HttpSession.loadSaved HttpSession.syncFormEditorFromRow
    constructor <;> dsimp only <;> split <;> rfl
  refine ⟨_, rfl, ?_, rows⟩
  unfold RowValid
  rw [← List.length_eq_zero_iff, rows.1, rows.2]
  omega

theorem run_valid (valid : s.RowValid) (acts : List FormAct) :
    ∃ now, s.run acts = .ok now ∧ now.RowValid := by
  induction acts generalizing s with
  | nil => exact ⟨s, rfl, valid⟩
  | cons act acts ih =>
    have moved : ∃ next, s.step act = .ok next ∧ next.RowValid := by
      cases loads : act.loads with
      | false =>
        obtain ⟨next, went, still, _⟩ := step_safe valid act loads
        exact ⟨next, went, still⟩
      | true =>
        cases act with
        | loadSaved req =>
          obtain ⟨next, went, still, _⟩ := loadSaved_rows s req
          exact ⟨next, went, still⟩
        | _ => cases loads
    obtain ⟨next, went, still⟩ := moved
    obtain ⟨now, ran, kept⟩ := ih still
    refine ⟨now, ?_, kept⟩
    rw [run, List.foldlM_cons, went]
    exact ran

/-- After a row has been added, removed or gone to, the editor shows the selected one. -/
theorem editor_shows (valid : s.RowValid) (editing : s.field = .form ∧ s.onForm = true)
    (some : s.formFields ≠ []) {key : FormKey}
    (moves : key = .add ∨ key = .delete ∨ key = .up ∨ key = .down) :
    ∃ next, s.formKey key = .ok next ∧ Shows next := by
  unfold formKey
  rw [if_pos editing]
  rcases moves with rfl | rfl | rfl | rfl
  · obtain ⟨next, went, _, _, shows, _⟩ := formAddRow_eq valid
    exact ⟨next, went, shows⟩
  · exact ⟨_, formDeleteRow_eq (valid.resolve_right fun none => some none.1), sync_shows _⟩
  · dsimp only
    rw [commit_eq valid]
    exact ⟨_, rfl, sync_shows _⟩
  · dsimp only
    rw [commit_eq valid]
    exact ⟨_, rfl, sync_shows _⟩

end

end HttpForm

open HttpForm in
/-- No index is out of range, and a row is selected if there is one. An act touches the selected
row and the one that it adds or removes; a load brings rows of its own. -/
theorem form_rows_stay_valid (target : Cli.Target) (cookies : CookieJar) (acts : List FormAct) :
    ∃ now, (HttpForm.start target cookies).run acts = .ok now ∧ now.RowValid ∧
      (∀ act, act.loads = false → Safe now (now.step act)) ∧
      ∀ req, ∃ next, now.step (.loadSaved req) = .ok next ∧ next.RowValid ∧
        next.formFields = req.formFields ∧ next.formRow = 0 := by
  have blank : (HttpForm.start target cookies).RowValid := .inr ⟨rfl, rfl⟩
  obtain ⟨now, ran, valid⟩ := run_valid blank acts
  exact ⟨now, ran, valid, step_safe valid, loadSaved_rows now⟩

def twoRows : SavedRequest :=
  { bodyMode := .urlEncoded
    formFields := [{ key := "a", value := "1" }, { key := "b", value := "2" }] }

def otherRows : SavedRequest :=
  { bodyMode := .urlEncoded
    formFields := [{ key := "c", value := "3" }, { key := "d", value := "4" }] }

/-- A second load changes both rows. -/
theorem load_replaces_rows :
    ∃ now next, (HttpForm.start (.http "http://h/" false) ⟨true, []⟩).run [.loadSaved twoRows]
        = .ok now ∧
      now.step (.loadSaved otherRows) = .ok next ∧ now.formFields = twoRows.formFields ∧
      next.formFields = otherRows.formFields ∧ ¬ HttpForm.Touches now next := by
  obtain ⟨now, went, _, rows, row⟩ :=
    HttpForm.loadSaved_rows (HttpForm.start (.http "http://h/" false) ⟨true, []⟩) twoRows
  obtain ⟨next, after, _, others, _⟩ := HttpForm.loadSaved_rows now otherRows
  refine ⟨now, next, ?_, after, rows, others, fun touches => ?_⟩
  · rw [HttpForm.run, List.foldlM_cons, went]
    rfl
  · obtain ⟨content, same⟩ := touches.kept (by rw [rows, others]; rfl)
    rw [rows, others, row] at same
    exact absurd (congrArg (·[1]?) same) (by simp [twoRows, otherRows])

end BitBeak
