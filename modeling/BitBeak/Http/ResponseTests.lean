import BitBeak.Http.Assert
import BitBeak.Http.Words

/-! What the tests of a response say, and when the verdict of a test is that. -/
namespace BitBeak.Http
open Wire Collections BoolText

inductive TextOp where
  | contains
  | equals
  deriving DecidableEq, Repr

def TextOp.text : TextOp → String
  | .contains => "contains"
  | .equals => "=="

def CmpOp.text : CmpOp → String
  | .eq => "=="
  | .ne => "!="
  | .gt => ">"
  | .lt => "<"
  | .ge => ">="
  | .le => "<="

/-- A test, in the forms that are documented. A path has the names of the members to go through. -/
inductive ResponseTest where
  | status (op : CmpOp) (number : String)
  | header (name : String) (op : TextOp) (value : String)
  | body (op : TextOp) (value : String)
  | jsonExists (path : List String)
  | jsonEquals (path : List String) (value : String)
  deriving DecidableEq, Repr

/-- A text without white space, and not empty. -/
def Word (text : String) : Prop := text ≠ "" ∧ ∀ c ∈ text.toList, isWhitespace c = false

/-- A text without white space or quotes around it. It may be empty. -/
def Bare (text : String) : Prop :=
  ∀ c, c ∈ text.toList.head? ∨ c ∈ text.toList.getLast? → isWhitespace c = false ∧ c ≠ '"'

def JsonPath (path : List String) : Prop := path ≠ [] ∧ ∀ key ∈ path, Word key ∧ '.' ∉ key.toList

namespace ResponseTest

def pathText (path : List String) : String := "$." ++ ".".intercalate path

def text : ResponseTest → String
  | status op number => "status " ++ op.text ++ " " ++ number
  | header name op value => "header " ++ name ++ " " ++ op.text ++ " " ++ value
  | body op value => "body " ++ op.text ++ " " ++ value
  | jsonExists path => "jsonpath " ++ pathText path ++ " exists"
  | jsonEquals path value => "jsonpath " ++ pathText path ++ " == " ++ value

def WellFormed : ResponseTest → Prop
  | status _ number => number ≠ "" ∧ ∀ c ∈ number.toList, c.isDigit = true
  | header name _ value => Word name ∧ Bare value
  | body _ value => Bare value
  | jsonExists path => JsonPath path
  | jsonEquals path value => JsonPath path ∧ Bare value

end ResponseTest

/-- The first header of the name has the value. Case does not count in the name. -/
def FirstHeader (name : String) (headers : Headers) (value : String) : Prop :=
  ∃ front key behind, headers = front ++ (key, value) :: behind ∧
    eqIgnoreAsciiCase key name = true ∧ ∀ h ∈ front, eqIgnoreAsciiCase h.1 name = false

/-- A value is contained whatever the case of its letters. -/
def TextOp.Holds : TextOp → String → String → Prop
  | .contains, hay, value =>
    ∃ front part behind, hay.toList = front ++ part ++ behind ∧
      eqIgnoreAsciiCase (String.ofList part) value = true
  | .equals, hay, value => hay = value

/-- The path leads to the value, in a body that is a document. -/
def LeadsTo (crates : AssertCrates) (path : List String) (body : Bytes) (w : Json) : Prop :=
  ∃ doc, crates.fromSlice body = some doc ∧ Json.descend path doc = some w

def numberOf (number : String) : Nat := Nat.ofDigitChars 10 number.toList 0

/-- What a test says of a response. -/
def ResponseTest.Holds (crates : AssertCrates) (resp : HttpResponse) : ResponseTest → Prop
  | status op number => op.holds resp.status.toNat (numberOf number)
  | header name op value => ∃ hay, FirstHeader name resp.headers hay ∧ op.Holds hay value
  | body op value => op.Holds (fromUtf8Lossy resp.body) value
  | jsonExists path => ∃ w, LeadsTo crates path resp.body w
  | jsonEquals path value => ∃ w, LeadsTo crates path resp.body w ∧ valueText crates w = value

/-- The value is not empty; or it is compared with something that is there, or looked for in a
header that is not there. A number fits 16 bits, or no status can be what is asked. -/
def ResponseTest.Decided (crates : AssertCrates) (resp : HttpResponse) : ResponseTest → Prop
  | status op number => numberOf number < 2 ^ 16 ∨ op = .eq ∨ op = .gt ∨ op = .ge
  | header name op value =>
    value ≠ "" ∨ (op = .equals ↔ ∃ hay, FirstHeader name resp.headers hay)
  | body op value => value ≠ "" ∨ op = .equals
  | jsonExists _ => True
  | jsonEquals path value => value ≠ "" ∨ ∃ w, LeadsTo crates path resp.body w

/- Texts of one operator and a value behind it. -/

/-- The blank goes away with an empty value. -/
def operand (op value : String) : String := if value = "" then op else op ++ " " ++ value

theorem operand_append (front op value : String) :
    front ++ operand op value = operand (front ++ op) value := by
  unfold operand
  split <;> simp only [String.append_assoc]

theorem operand_split (op value : String) :
    operand op value = op ++ operand "" value := by
  rw [operand_append, String.append_empty]

theorem Bare.tight {value : String} (bare : Bare value) (some : value ≠ "") :
    Tight isWhitespace value.toList := by
  have filled : value.toList ≠ [] := fun none => some (String.toList_eq_nil_iff.mp none)
  have first := List.head?_eq_some_head filled
  have last := List.getLast?_eq_some_getLast filled
  exact ⟨⟨_, first, (bare _ (.inl first)).1⟩, ⟨_, last, (bare _ (.inr last)).1⟩⟩

theorem Bare.trimMatches_eq {value : String} (bare : Bare value) : trimMatches '"' value = value := by
  have front : value.toList.dropWhile (· = '"') = value.toList := by
    cases shape : value.toList with
    | nil => rfl
    | cons c rest =>
      have other := (bare c (.inl (by simp [shape]))).2
      exact List.dropWhile_cons_of_neg (by simp [other])
  have back : value.toList.rdropWhile (· = '"') = value.toList := by
    rw [List.rdropWhile_eq_self_iff]
    intro filled
    have other := (bare _ (.inr (List.getLast?_eq_some_getLast filled))).2
    simp [other]
  rw [trimMatches, front, back, String.ofList_toList]

theorem tight_operand {op value : String} (tight : Tight isWhitespace op.toList)
    (bare : Bare value) : Tight isWhitespace (operand op value).toList := by
  unfold operand
  split
  · exact tight
  · next some =>
    simp only [String.toList_append]
    exact tight.append (bare.tight some) _

/-- Trimming takes the blank away that an empty value leaves. -/
theorem trim_operand {op value : String} (tight : Tight isWhitespace op.toList)
    (bare : Bare value) : trim (op ++ " " ++ value) = operand op value := by
  by_cases none : value = ""
  · subst none
    have ended : BoolText.trim isWhitespace ([] ++ (op.toList ++ [' '])) = op.toList :=
      tight.trim_between (by simp) (by simp [isWhitespace])
    have whole : op ++ " " ++ "" = String.ofList ([] ++ (op.toList ++ [' '])) := by simp
    rw [operand, if_pos rfl, whole, trim_ofList, ended, String.ofList_toList]
  · have whole : op ++ " " ++ value = operand op value := (if_neg none).symm
    rw [whole, trim_tight (tight_operand tight bare)]

theorem trim_blank {text : String} (tight : Tight isWhitespace text.toList) :
    trim (" " ++ text) = text := by
  have inner : BoolText.trim isWhitespace ([' '] ++ (text.toList ++ [])) = text.toList :=
    tight.trim_between (by simp [isWhitespace]) (by simp)
  have whole : " " ++ text = String.ofList ([' '] ++ (text.toList ++ [])) := by simp
  rw [whole, trim_ofList, inner, String.ofList_toList]

/-- The value itself, behind its blank. -/
theorem trim_value {value : String} (bare : Bare value) : trim (operand "" value) = value := by
  unfold operand
  split
  · next none => rw [none]; rfl
  · next some => exact trim_blank (bare.tight some)

theorem contains_iff (hay value : String) :
    hasText (toAsciiLowercase hay) (toAsciiLowercase value) = true ↔
      TextOp.contains.Holds hay value := by
  rw [hasText_iff, toAsciiLowercase, toAsciiLowercase, String.toList_ofList, String.toList_ofList]
  constructor
  · rintro ⟨front, behind, whole⟩
    obtain ⟨shown, behind', split, front_part, -⟩ := List.map_eq_append_iff.mp whole.symm
    obtain ⟨front', part, rfl, -, same⟩ := List.map_eq_append_iff.mp front_part
    exact ⟨front', part, behind', split, by simp [eqIgnoreAsciiCase, same]⟩
  · rintro ⟨front, part, behind, whole, same⟩
    rw [eqIgnoreAsciiCase, String.toList_ofList, beq_iff_eq] at same
    exact ⟨front.map Char.toLower, behind.map Char.toLower, by simp [whole, same]⟩

/-- The verdict of a comparison of texts. -/
theorem strOp_passed_iff (expr hay : String) (op : TextOp) {value : String} (bare : Bare value) :
    (strOp expr hay (operand op.text value)).passed = true ↔
      op.Holds hay value ∧ (value ≠ "" ∨ op = .equals) := by
  cases op with
  | equals =>
    have other : stripPrefix (operand "==" value) "contains " = none := by
      rw [operand_split]
      simp [stripPrefix]
    have found : stripPrefix (operand "==" value) "==" = some (operand "" value) := by
      rw [operand_split, stripPrefix_append]
    simp [strOp, TextOp.text, other, found, trim_value bare, bare.trimMatches_eq, TextOp.Holds]
  | contains =>
    by_cases none : value = ""
    · subst none
      have short : stripPrefix (operand "contains" "") "contains " = none := by decide
      have other : stripPrefix (operand "contains" "") "==" = none := by decide
      simp [strOp, TextOp.text, short, other]
    · have found : stripPrefix (operand "contains" value) "contains " = some value := by
        have whole : operand "contains" value = "contains " ++ value := by
          rw [operand, if_neg none]
          rfl
        rw [whole, stripPrefix_append]
      have same : trim value = value := trim_tight (bare.tight none)
      simp only [strOp, TextOp.text, found, same, bare.trimMatches_eq, none, ne_eq,
        not_false_eq_true, true_or, and_true]
      exact contains_iff hay value

/- The forms of a test, one by one. -/

theorem tight_ends {text : String} {c d : Char} (first : text.toList.head? = some c)
    (last : text.toList.getLast? = some d) (front : isWhitespace c = false)
    (back : isWhitespace d = false) : Tight isWhitespace text.toList :=
  ⟨⟨c, first, front⟩, ⟨d, last, back⟩⟩

theorem TextOp.tight : ∀ op : TextOp, Tight isWhitespace op.text.toList
  | .contains => tight_ends (c := 'c') (d := 's') rfl rfl rfl rfl
  | .equals => tight_ends (c := '=') (d := '=') rfl rfl rfl rfl

theorem Word.tight {word : String} (visible : Word word) : Tight isWhitespace word.toList := by
  have filled : word.toList ≠ [] := fun none => visible.1 (String.toList_eq_nil_iff.mp none)
  exact ⟨⟨_, List.head?_eq_some_head filled, visible.2 _ (List.head_mem filled)⟩,
    ⟨_, List.getLast?_eq_some_getLast filled, visible.2 _ (List.getLast_mem filled)⟩⟩

theorem Word.outside {word : String} (visible : Word word) : ' ' ∉ word.toList :=
  fun inside => Bool.false_ne_true ((visible.2 _ inside).symm.trans (by decide))

section

-- The equations of what is unfolded below are made here, once.
attribute [local simp] ResponseTest.text operand TextOp.Holds ResponseTest.Holds evalOne evalJsonpath

end

theorem tight_append {a b : String} (left : Tight isWhitespace a.toList)
    (right : Tight isWhitespace b.toList) (middle : String) :
    Tight isWhitespace (a ++ middle ++ b).toList := by
  simp only [String.toList_append]
  exact left.append right _

theorem tight_header : Tight isWhitespace "header".toList :=
  tight_ends (c := 'h') (d := 'r') rfl rfl rfl rfl

variable (crates : AssertCrates) (resp : HttpResponse)

theorem evalOne_header {name value : String} (word : Word name) (op : TextOp) (bare : Bare value) :
    (evalOne crates (ResponseTest.header name op value).text resp).passed = true ↔
      op.Holds (headerText name resp.headers) value ∧ (value ≠ "" ∨ op = .equals) := by
  have shape : "header " ++ name ++ " " ++ op.text = "header" ++ (" " ++ name ++ " ") ++ op.text := by
    simp [String.append_assoc, ← String.toList_inj]
  have ends : Tight isWhitespace ("header " ++ name ++ " " ++ op.text).toList := by
    rw [shape]
    exact tight_append tight_header op.tight _
  have behind : Tight isWhitespace (name ++ " " ++ operand op.text value).toList :=
    tight_append word.tight (tight_operand op.tight bare) _
  have whole : trim (ResponseTest.header name op value).text =
      "header " ++ (name ++ " " ++ operand op.text value) := by
    rw [ResponseTest.text, trim_operand ends bare]
    simp only [operand_append, String.append_assoc]
  have unlike : stripPrefix ("header " ++ (name ++ " " ++ operand op.text value)) "status" = none := by
    simp [stripPrefix]
  have parts : splitOnce ' ' (name ++ " " ++ operand op.text value) =
      some (name, operand op.text value) := splitOnce_append word.outside _
  simp only [evalOne, whole, unlike, stripPrefix_append, Option.bind_some, trim_tight behind, parts,
    trim_tight word.tight, trim_tight (tight_operand op.tight bare)]
  exact strOp_passed_iff _ _ op bare

theorem evalOne_body {value : String} (op : TextOp) (bare : Bare value) :
    (evalOne crates (ResponseTest.body op value).text resp).passed = true ↔
      op.Holds (fromUtf8Lossy resp.body) value ∧ (value ≠ "" ∨ op = .equals) := by
  have ends : Tight isWhitespace ("body " ++ op.text).toList := by
    have word : Tight isWhitespace "body".toList := tight_ends (c := 'b') (d := 'y') rfl rfl rfl rfl
    exact tight_append word op.tight " "
  have whole : trim (ResponseTest.body op value).text = "body " ++ operand op.text value := by
    rw [ResponseTest.text, trim_operand ends bare, operand_append]
  have unlike : stripPrefix ("body " ++ operand op.text value) "status" = none := by
    simp [stripPrefix]
  have other : stripPrefix ("body " ++ operand op.text value) "header " = none := by
    simp [stripPrefix]
  simp only [evalOne, whole, unlike, other, Option.bind_none, stripPrefix_append,
    trim_tight (tight_operand op.tight bare)]
  exact strOp_passed_iff _ _ op bare

/-- The marks are told apart in the order of the table. -/
theorem cmpMarks_find (op : CmpOp) (rest : String) :
    (cmpMarks.findSome? fun m =>
      (stripPrefix (op.text ++ " " ++ rest) m.1).map fun val => (m.2, val)) =
      some (op, " " ++ rest) := by
  cases op <;> simp [cmpMarks, CmpOp.text, stripPrefix]

theorem parseU16_digits {number : String} (filled : number ≠ "")
    (decimal : ∀ c ∈ number.toList, c.isDigit = true) :
    parseU16 number = if numberOf number < 2 ^ 16 then some (numberOf number) else none := by
  have digits : number.toList ≠ [] ∧ number.toList.all (·.isDigit) :=
    ⟨fun none => filled (String.toList_eq_nil_iff.mp none), List.all_eq_true.mpr decimal⟩
  have plain : hasPrefix number "+" = false := by
    have unsigned := unsigned_digits decimal "+" rfl (by decide)
    rwa [String.ofList_toList] at unsigned
  simp only [parseU16, plain, Bool.false_eq_true, if_false, if_pos digits]
  rfl

theorem evalOne_status {number : String} (op : CmpOp) (filled : number ≠ "")
    (decimal : ∀ c ∈ number.toList, c.isDigit = true) :
    (evalOne crates (ResponseTest.status op number).text resp).passed = true ↔
      numberOf number < 2 ^ 16 ∧ op.holds resp.status.toNat (numberOf number) = true := by
  have word : Word number := ⟨filled, fun c inside => digit_visible (decimal c inside)⟩
  have behind : Tight isWhitespace (op.text ++ " " ++ number).toList := by
    have mark : Tight isWhitespace op.text.toList := by
      cases op <;> exact tight_ends rfl rfl rfl rfl
    exact tight_append mark word.tight _
  have whole : trim (ResponseTest.status op number).text =
      "status" ++ (" " ++ (op.text ++ " " ++ number)) := by
    have label : Tight isWhitespace "status".toList :=
      tight_ends (c := 's') (d := 's') rfl rfl rfl rfl
    have shape : (ResponseTest.status op number).text =
        "status" ++ " " ++ (op.text ++ " " ++ number) := by
      simp [ResponseTest.text, String.append_assoc]
    rw [shape, trim_tight (tight_append label behind _), String.append_assoc]
  simp only [evalOne, whole, stripPrefix_append, cmpU16, trim_blank behind, cmpMarks_find,
    trim_blank word.tight, parseU16_digits filled decimal]
  by_cases small : numberOf number < 2 ^ 16
  · simp only [small, if_true, true_and]
  · simp only [small, if_false, false_and, Bool.false_eq_true]

/-- The text of a path begins with its first name. -/
theorem path_head {path : List String} (plain : JsonPath path) :
    ∃ c rest, (".".intercalate path).toList = c :: rest ∧ c ≠ '.' := by
  obtain ⟨filled, keys⟩ := plain
  cases path with
  | nil => exact absurd rfl filled
  | cons key more =>
    obtain ⟨word, dotless⟩ := keys key List.mem_cons_self
    cases shape : key.toList with
    | nil => exact absurd (String.toList_eq_nil_iff.mp shape) word.1
    | cons c rest =>
      have other : c ≠ '.' := fun same => dotless (by simp [shape, same])
      cases more with
      | nil => exact ⟨c, rest, by simp [shape], other⟩
      | cons next more => exact ⟨c, _, by simp [shape]; rfl, other⟩

theorem pathText_pointer {path : List String} (plain : JsonPath path) :
    trimStart '.' (trimStart '$' (ResponseTest.pathText path)) = ".".intercalate path := by
  obtain ⟨c, rest, shape, other⟩ := path_head plain
  have dollar : trimStart '$' (ResponseTest.pathText path) = "." ++ ".".intercalate path := by
    simp [trimStart, ResponseTest.pathText, ← String.toList_inj]
  rw [dollar]
  simp [trimStart, shape, other, ← String.toList_inj]

theorem splitText_path {path : List String} (plain : JsonPath path) :
    splitText '.' (".".intercalate path) = path := by
  obtain ⟨filled, keys⟩ := plain
  have outside : ∀ t ∈ path.map String.toList, '.' ∉ t := by
    simpa using fun key inside => (keys key inside).2
  have parts := List.splitOn_intercalate '.' outside (by simpa using filled)
  have same : (".".intercalate path).toList = ['.'].intercalate (path.map String.toList) :=
    String.toList_intercalate
  rw [splitText, same, parts]
  simp

theorem word_path {path : List String} (plain : JsonPath path) :
    Word (ResponseTest.pathText path) := by
  constructor
  · simp [ResponseTest.pathText]
  · intro c inside
    simp only [ResponseTest.pathText, String.toList_append, List.mem_append] at inside
    rcases inside with mark | inside
    · have either : c = '$' ∨ c = '.' := by simpa using mark
      rcases either with rfl | rfl <;> simp [isWhitespace]
    · rcases mem_intercalate inside with dot | ⟨key, listed, inside⟩
      · have same : c = '.' := by simpa using dot
        simp [same, isWhitespace]
      · exact (plain.2 key listed).1.2 c inside

theorem jsonPointer_path {path : List String} (plain : JsonPath path) (body : Bytes) :
    jsonPointer crates body (ResponseTest.pathText path) =
      ((crates.fromSlice body).bind (Json.descend path)).map (valueText crates) := by
  have filled : ".".intercalate path ≠ "" := by
    obtain ⟨c, rest, shape, -⟩ := path_head plain
    intro none
    simp [none] at shape
  simp only [jsonPointer, trim_tight (word_path plain).tight, pathText_pointer plain, filled,
    if_false, splitText_path plain, Json.foldlM_get]
  cases crates.fromSlice body with
  | none => rfl
  | some v => cases found : Json.descend path v <;> simp [found]

theorem jsonPointer_eq_some_iff {path : List String} (plain : JsonPath path) (body : Bytes)
    (got : String) : jsonPointer crates body (ResponseTest.pathText path) = some got ↔
      ∃ w, LeadsTo crates path body w ∧ valueText crates w = got := by
  rw [jsonPointer_path crates plain]
  simp only [Option.map_eq_some_iff, Option.bind_eq_some_iff, LeadsTo]

theorem tight_jsonpath : Tight isWhitespace "jsonpath".toList :=
  tight_ends (c := 'j') (d := 'h') rfl rfl rfl rfl

theorem evalOne_jsonpath {expr rest : String} (whole : trim expr = "jsonpath " ++ rest) :
    evalOne crates expr resp = evalJsonpath crates ("jsonpath " ++ rest) rest resp.body := by
  have unlike : stripPrefix ("jsonpath " ++ rest) "status" = none ∧
      stripPrefix ("jsonpath " ++ rest) "header " = none ∧
      stripPrefix ("jsonpath " ++ rest) "body " = none := by
    simp [stripPrefix]
  simp only [evalOne, whole, unlike, Option.bind_none, stripPrefix_append]

theorem evalOne_jsonExists {path : List String} (plain : JsonPath path) :
    (evalOne crates (ResponseTest.jsonExists path).text resp).passed = true ↔
      ∃ w, LeadsTo crates path resp.body w := by
  have word := word_path plain
  have last : Tight isWhitespace "exists".toList := tight_ends (c := 'e') (d := 's') rfl rfl rfl rfl
  have behind : Tight isWhitespace (ResponseTest.pathText path ++ " " ++ "exists").toList :=
    tight_append word.tight last _
  have whole : trim (ResponseTest.jsonExists path).text =
      "jsonpath " ++ (ResponseTest.pathText path ++ " " ++ "exists") := by
    have shape : (ResponseTest.jsonExists path).text =
        "jsonpath" ++ " " ++ (ResponseTest.pathText path ++ " " ++ "exists") := by
      simp [ResponseTest.text, String.append_assoc]
    rw [shape, trim_tight (tight_append tight_jsonpath behind _)]
    rfl
  have parts : splitOnce ' ' (ResponseTest.pathText path ++ " " ++ "exists") =
      some (ResponseTest.pathText path, "exists") := splitOnce_append word.outside "exists"
  simp only [evalOne_jsonpath crates resp whole, evalJsonpath, trim_tight behind, parts,
    trim_tight word.tight, trim_tight last, if_true, Option.isSome_iff_exists,
    jsonPointer_eq_some_iff crates plain]
  exact ⟨fun ⟨_, w, leads, _⟩ => ⟨w, leads⟩, fun ⟨w, leads⟩ => ⟨_, w, leads, rfl⟩⟩

theorem evalOne_jsonEquals {path : List String} (plain : JsonPath path) {value : String}
    (bare : Bare value) :
    (evalOne crates (ResponseTest.jsonEquals path value).text resp).passed = true ↔
      (jsonPointer crates resp.body (ResponseTest.pathText path)).getD "" = value := by
  have word := word_path plain
  have op : Tight isWhitespace "==".toList := TextOp.equals.tight
  have last : Tight isWhitespace (operand "==" value).toList := tight_operand op bare
  have behind : Tight isWhitespace (ResponseTest.pathText path ++ " " ++ operand "==" value).toList :=
    tight_append word.tight last _
  have whole : trim (ResponseTest.jsonEquals path value).text =
      "jsonpath " ++ (ResponseTest.pathText path ++ " " ++ operand "==" value) := by
    have front : Tight isWhitespace
        ("jsonpath" ++ (" " ++ ResponseTest.pathText path ++ " ") ++ "==").toList :=
      tight_append tight_jsonpath op _
    have shape : (ResponseTest.jsonEquals path value).text =
        "jsonpath" ++ (" " ++ ResponseTest.pathText path ++ " ") ++ "==" ++ " " ++ value := by
      simp [ResponseTest.text, String.append_assoc, ← String.toList_inj]
    have label : "jsonpath " = "jsonpath" ++ " " := rfl
    rw [shape, trim_operand front bare, label]
    simp only [operand_append, String.append_assoc]
  have parts : splitOnce ' ' (ResponseTest.pathText path ++ " " ++ operand "==" value) =
      some (ResponseTest.pathText path, operand "==" value) := splitOnce_append word.outside _
  have unlike : operand "==" value ≠ "exists" := by
    rw [operand_split]
    simp [← String.toList_inj]
  have found : stripPrefix (operand "==" value) "==" = some (operand "" value) := by
    rw [operand_split, stripPrefix_append]
  simp only [evalOne_jsonpath crates resp whole, evalJsonpath, trim_tight behind, parts,
    trim_tight word.tight, trim_tight last, unlike, if_false, found, trim_value bare,
    bare.trimMatches_eq, decide_eq_true_eq]

/- The verdict of every test. -/

theorem firstHeader_iff (name value : String) (headers : Headers) :
    FirstHeader name headers value ↔ headerValue name headers = some value := by
  simp only [headerValue, Option.map_eq_some_iff, List.find?_eq_some_iff_append, FirstHeader]
  constructor
  · rintro ⟨front, key, behind, rfl, same, others⟩
    exact ⟨(key, value), ⟨same, front, behind, rfl, by simpa using others⟩, rfl⟩
  · rintro ⟨⟨key, _⟩, ⟨same, front, behind, rfl, others⟩, rfl⟩
    exact ⟨front, key, behind, rfl, same, by simpa using others⟩

theorem TextOp.holds_none (op : TextOp) (value : String) : op.Holds "" value ↔ value = "" := by
  cases op with
  | equals => exact eq_comm
  | contains =>
    constructor
    · rintro ⟨front, part, behind, whole, same⟩
      have none : part = [] := by
        have lengths := congrArg List.length whole
        simp only [String.toList_empty, List.length_nil, List.length_append] at lengths
        exact List.length_eq_zero_iff.mp (by omega)
      rw [none, eqIgnoreAsciiCase, beq_iff_eq] at same
      simpa using same.symm
    · rintro rfl
      exact ⟨[], [], [], rfl, rfl⟩

theorem TextOp.contains_holds_empty (hay : String) : TextOp.contains.Holds hay "" :=
  ⟨[], [], hay.toList, rfl, rfl⟩

theorem status_verdict_iff {op : CmpOp} {number : String}
    (well : (ResponseTest.status op number).WellFormed) :
    ((evalOne crates (ResponseTest.status op number).text resp).passed = true ↔
        (ResponseTest.status op number).Holds crates resp) ↔
      (ResponseTest.status op number).Decided crates resp := by
  rw [evalOne_status crates resp op well.1 well.2]
  have bound := resp.status.toNat_lt
  simp only [ResponseTest.Holds, ResponseTest.Decided]
  by_cases small : numberOf number < 2 ^ 16
  · simp only [small, true_and, true_or]
  · simp only [small, false_and, false_or]
    cases op <;> simp [CmpOp.holds] <;> omega

theorem header_verdict_iff {name : String} {op : TextOp} {value : String}
    (well : (ResponseTest.header name op value).WellFormed) :
    ((evalOne crates (ResponseTest.header name op value).text resp).passed = true ↔
        (ResponseTest.header name op value).Holds crates resp) ↔
      (ResponseTest.header name op value).Decided crates resp := by
  rw [evalOne_header crates resp well.1 op well.2]
  simp only [ResponseTest.Holds, ResponseTest.Decided, firstHeader_iff, headerText]
  cases found : headerValue name resp.headers with
  | none => cases op <;> by_cases none : value = "" <;> simp [none, TextOp.holds_none]
  | some hay => cases op <;> by_cases none : value = "" <;> simp [none, TextOp.contains_holds_empty]

theorem leadsTo_iff_isSome {path : List String} (plain : JsonPath path) (body : Bytes) :
    (∃ w, LeadsTo crates path body w) ↔
      (jsonPointer crates body (ResponseTest.pathText path)).isSome = true := by
  rw [Option.isSome_iff_exists]
  constructor
  · rintro ⟨w, there⟩
    exact ⟨_, (jsonPointer_eq_some_iff crates plain body _).mpr ⟨w, there, rfl⟩⟩
  · rintro ⟨got, found⟩
    obtain ⟨w, there, -⟩ := (jsonPointer_eq_some_iff crates plain body got).mp found
    exact ⟨w, there⟩

theorem jsonEquals_verdict_iff {path : List String} {value : String}
    (well : (ResponseTest.jsonEquals path value).WellFormed) :
    ((evalOne crates (ResponseTest.jsonEquals path value).text resp).passed = true ↔
        (ResponseTest.jsonEquals path value).Holds crates resp) ↔
      (ResponseTest.jsonEquals path value).Decided crates resp := by
  rw [evalOne_jsonEquals crates resp well.1 well.2]
  simp only [ResponseTest.Holds, ResponseTest.Decided]
  rw [leadsTo_iff_isSome crates well.1, ← jsonPointer_eq_some_iff crates well.1]
  cases jsonPointer crates resp.body (ResponseTest.pathText path) with
  | none => simp [eq_comm]
  | some got => simp

/-- The verdict is what the test says, but for an empty value at the wrong place. -/
theorem verdict_iff {t : ResponseTest} (well : t.WellFormed) :
    ((evalOne crates t.text resp).passed = true ↔ t.Holds crates resp) ↔
      t.Decided crates resp := by
  cases t with
  | status op number => exact status_verdict_iff crates resp well
  | header name op value => exact header_verdict_iff crates resp well
  | body op value =>
    rw [evalOne_body crates resp op well]
    cases op <;> by_cases none : value = "" <;>
      simp [none, ResponseTest.Holds, ResponseTest.Decided, TextOp.contains_holds_empty]
  | jsonExists path =>
    rw [evalOne_jsonExists crates resp well]
    exact iff_of_true Iff.rfl trivial
  | jsonEquals path value => exact jsonEquals_verdict_iff crates resp well

/-- The verdicts are what the tests say if and only if every test is decided. -/
theorem run_tests_iff {tests : List ResponseTest} (well : ∀ t ∈ tests, t.WellFormed) :
    (∀ (i : Nat) (t : ResponseTest), tests[i]? = some t → ∃ result : AssertResult,
      (runTests crates (tests.map fun t => ⟨t.text⟩) resp)[i]? = some result ∧
        (result.passed = true ↔ t.Holds crates resp)) ↔
      ∀ t ∈ tests, t.Decided crates resp := by
  constructor
  · intro right t inside
    obtain ⟨i, here⟩ := List.getElem?_of_mem inside
    obtain ⟨result, found, verdict⟩ := right i t here
    simp only [runTests, List.getElem?_map, here, Option.map_some, Option.some.injEq] at found
    rw [← found] at verdict
    exact (verdict_iff crates resp (well t inside)).mp verdict
  · intro decided i t here
    have inside := List.mem_of_getElem? here
    refine ⟨evalOne crates t.text resp, ?_, ?_⟩
    · simp only [runTests, List.getElem?_map, here, Option.map_some]
    · exact (verdict_iff crates resp (well t inside)).mpr (decided t inside)

/-- No body is a document. -/
def noDocuments : AssertCrates where
  fromSlice _ := none
  jsonText _ := ""
  visible _ := true

/-- A response with one header and no body. -/
def jsonResponse : HttpResponse where
  status := 200
  headers := [("Content-Type", "application/json")]
  body := []
  redirectChain := []
  version := "HTTP/1.1"

def documentedTests : List ResponseTest :=
  [.status .eq "200", .header "Content-Type" .contains "json", .jsonExists ["id"]]

theorem documented_tests_told : ∃ result : AssertResult,
    (runTests noDocuments (documentedTests.map fun t => ⟨t.text⟩) jsonResponse)[1]? = some result ∧
      (result.passed = true ↔
        (ResponseTest.header "Content-Type" .contains "json").Holds noDocuments jsonResponse) := by
  have value : Bare "json" := by
    intro c inside
    have ends : c = 'j' ∨ c = 'n' := by simpa [eq_comm] using inside
    rcases ends with rfl | rfl <;> decide
  have well : ∀ t ∈ documentedTests, t.WellFormed := by
    simp [documentedTests, ResponseTest.WellFormed, Word, value, JsonPath, isWhitespace,
      Char.isDigit]
  have decided : ∀ t ∈ documentedTests, t.Decided noDocuments jsonResponse := by
    simp [documentedTests, ResponseTest.Decided, numberOf, Nat.ofDigitChars]
  exact (run_tests_iff noDocuments jsonResponse well).mpr decided 1 _ rfl

/-- A header that is not there is equal to the empty value. -/
theorem absent_header_passes : (ResponseTest.header "X-Trace" .equals "").WellFormed ∧
    (evalOne noDocuments (ResponseTest.header "X-Trace" .equals "").text jsonResponse).passed ∧
    ¬ (ResponseTest.header "X-Trace" .equals "").Holds noDocuments jsonResponse := by
  have word : Word "X-Trace" := by simp [Word, isWhitespace]
  have bare : Bare "" := by simp [Bare]
  have none : headerValue "X-Trace" jsonResponse.headers = none := by decide
  refine ⟨⟨word, bare⟩, ?_, ?_⟩
  · refine (evalOne_header noDocuments jsonResponse word .equals bare).mpr ⟨?_, .inr rfl⟩
    rw [headerText, none]
    rfl
  · rintro ⟨hay, found, -⟩
    rw [firstHeader_iff, none] at found
    cases found

end BitBeak.Http
