import BitBeak.Http.Words
import BitBeak.Ui.TextareaUtil

/-! The headers of a request as a block of text with one line for each. -/
namespace BitBeak.Http
open BoolText (Text)

def parseHeaderLine (line : Text) : Option (String × String) :=
  let line := trim (String.ofList line)
  if line = "" then none else (splitOnce ':' line).map fun (k, v) => (trim k, trim v)

/-- Header lines "Name: value" as pairs. -/
def parseHeaderBlock (text : String) : List (String × String) :=
  (textLines text.toList).filterMap parseHeaderLine

def formatHeader (header : String × String) : String := header.1 ++ ": " ++ header.2

def formatHeaders (headers : List (String × String)) : String :=
  "\n".intercalate (headers.map formatHeader)

/-- A header that its line gives back. -/
structure HeaderKept (header : String × String) : Prop where
  name : trim header.1 = header.1
  value : trim header.2 = header.2
  plain : ':' ∉ header.1.toList

/-- A header without line breaks. -/
def HeaderLine (header : String × String) : Prop :=
  '\n' ∉ header.1.toList ∧ '\n' ∉ header.2.toList

/- White space around the parts of a line. -/

section trimming
variable {white : Char → Bool}

theorem dropWhile_visible {c : Char} (visible : white c = false) (a rest : Text) :
    (a ++ c :: rest).dropWhile white = a.dropWhile white ++ c :: rest := by
  induction a with
  | nil => simp [visible]
  | cons d a ih =>
    rw [List.cons_append, List.dropWhile_cons, List.dropWhile_cons]
    split
    · exact ih
    · rfl

theorem rdropWhile_visible {c : Char} (visible : white c = false) (a rest : Text) :
    (a ++ c :: rest).rdropWhile white = a ++ c :: rest.rdropWhile white := by
  induction rest using List.reverseRecOn with
  | nil => simp [visible]
  | append_singleton rest d ih =>
    rw [← List.cons_append, ← List.append_assoc, List.rdropWhile_concat, List.rdropWhile_concat]
    split
    · exact ih
    · simp

theorem trim_visible {c : Char} (visible : white c = false) (a rest : Text) :
    BoolText.trim white (a ++ c :: rest) = a.dropWhile white ++ c :: rest.rdropWhile white := by
  rw [BoolText.trim, dropWhile_visible visible, rdropWhile_visible visible]

theorem trim_cons {c : Char} (blank : white c = true) (t : Text) :
    BoolText.trim white (c :: t) = BoolText.trim white t := by
  simp [BoolText.trim, blank]

theorem trim_concat {c : Char} (blank : white c = true) (t : Text) :
    BoolText.trim white (t ++ [c]) = BoolText.trim white t := by
  induction t with
  | nil => simp [BoolText.trim, blank]
  | cons d t ih =>
    by_cases first : white d = true
    · rw [List.cons_append, trim_cons first, trim_cons first, ih]
    · simp only [Bool.not_eq_true] at first
      simp only [BoolText.trim, List.cons_append, List.dropWhile_cons, first, Bool.false_eq_true,
        if_false]
      rw [← List.cons_append, List.rdropWhile_concat_pos _ _ _ blank]

theorem trim_dropWhile (t : Text) :
    BoolText.trim white (t.dropWhile white) = BoolText.trim white t := by
  induction t with
  | nil => rfl
  | cons c t ih =>
    rw [List.dropWhile_cons]
    split
    · next blank => rw [ih, trim_cons blank]
    · rfl

theorem trim_rdropWhile (t : Text) :
    BoolText.trim white (t.rdropWhile white) = BoolText.trim white t := by
  induction t using List.reverseRecOn with
  | nil => simp
  | append_singleton t c ih =>
    rw [List.rdropWhile_concat]
    split
    · next blank => rw [ih, trim_concat blank]
    · rfl

end trimming

/- One line. -/

theorem parseHeaderLine_stripped (l : Text) :
    parseHeaderLine (LineText.stripped '\r' l) = parseHeaderLine l := by
  have same : BoolText.trim isWhitespace (LineText.stripped '\r' l) = BoolText.trim isWhitespace l := by
    rw [LineText.stripped]
    split
    · next ends =>
      obtain ⟨front, rfl⟩ := List.getLast?_eq_some_iff.mp ends
      rw [List.dropLast_concat, trim_concat (by decide)]
    · rfl
  simp only [parseHeaderLine, trim_ofList, same]

/-- The name ends at the first colon. -/
theorem parseHeaderLine_colon {a : Text} (plain : ':' ∉ a) (rest : Text) :
    parseHeaderLine (a ++ ':' :: rest) =
      some (trim (String.ofList a), trim (String.ofList rest)) := by
  have outside : ':' ∉ a.dropWhile isWhitespace := fun member =>
    plain ((List.dropWhile_suffix _).subset member)
  have shape : trim (String.ofList (a ++ ':' :: rest)) =
      String.ofList (a.dropWhile isWhitespace) ++ String.ofList [':'] ++
        String.ofList (rest.rdropWhile isWhitespace) := by
    rw [trim_ofList, trim_visible (by decide), ← String.toList_inj]
    simp
  have nonempty : trim (String.ofList (a ++ ':' :: rest)) ≠ "" := by
    rw [shape, Ne, ← String.toList_inj]
    simp
  rw [parseHeaderLine, if_neg nonempty, shape, splitOnce_append (by simpa using outside)]
  simp only [Option.map_some, trim_ofList, trim_dropWhile, trim_rdropWhile]

theorem length_trimmed_le (t : Text) : (trim (String.ofList t)).toList.length ≤ t.length := by
  rw [trim_ofList, String.toList_ofList]
  exact (List.rdropWhile_prefix isWhitespace _).length_le.trans
    (List.dropWhile_suffix isWhitespace).length_le

/-- The line of a header is always read as one, and as this one if it is kept. -/
theorem parseHeaderLine_header (header : String × String) :
    ∃ read, parseHeaderLine (formatHeader header).toList = some read ∧
      (read = header ↔ HeaderKept header) := by
  obtain ⟨name, value⟩ := header
  by_cases colon : ':' ∈ name.toList
  · obtain ⟨a, b, whole, plain⟩ := List.eq_append_cons_of_mem colon
    have shape : (formatHeader (name, value)).toList =
        a ++ ':' :: (b ++ ':' :: ' ' :: value.toList) := by
      simp [formatHeader, whole]
    rw [shape, parseHeaderLine_colon plain]
    refine ⟨_, rfl, iff_of_false (fun same => ?_) fun kept => kept.plain colon⟩
    have short := length_trimmed_le a
    rw [(Prod.mk.inj same).1, whole] at short
    simp only [List.length_append, List.length_cons] at short
    omega
  · have shape : (formatHeader (name, value)).toList = name.toList ++ ':' :: ' ' :: value.toList := by
      simp [formatHeader]
    have back : trim (String.ofList (' ' :: value.toList)) = trim value := by
      rw [trim_ofList, trim_cons (by decide), ← trim_ofList, String.ofList_toList]
    rw [shape, parseHeaderLine_colon colon, back, String.ofList_toList]
    refine ⟨_, rfl, ?_⟩
    rw [Prod.mk.injEq]
    exact ⟨fun same => ⟨same.1, same.2, colon⟩, fun kept => ⟨kept.name, kept.value⟩⟩

theorem formatHeader_unbroken {header : String × String} (line : HeaderLine header) :
    '\n' ∉ (formatHeader header).toList := by
  simp [formatHeader, line.1, line.2]

/- The block. -/

theorem parseHeaderLine_nil : parseHeaderLine [] = none := by
  simp [parseHeaderLine, trim]

/-- An editor changes nothing in what a block of headers says. -/
theorem parseHeaderBlock_edited (text : String) :
    parseHeaderBlock (TextArea.setText text).textOf = parseHeaderBlock text := by
  rw [TextArea.setText]
  split
  · next breaks =>
    have nonempty : text ≠ "" := by
      rintro rfl
      simp at breaks
    simp only [parseHeaderBlock, textOf_multiLine nonempty, textLines_eq]
    exact LineText.filterMap_lines_again parseHeaderLine_nil parseHeaderLine_stripped text.toList
  · rw [textOf_singleLine]

theorem parseHeaderBlock_formatHeaders {headers : List (String × String)}
    (single : ∀ h ∈ headers, HeaderLine h) :
    parseHeaderBlock (formatHeaders headers) =
      headers.filterMap fun h => parseHeaderLine (formatHeader h).toList := by
  have text : (formatHeaders headers).toList =
      LineText.joined '\n' (headers.map fun h => (formatHeader h).toList) := by
    simp [formatHeaders, String.toList_intercalate, LineText.joined, Function.comp_def]
  have unbroken : ∀ l ∈ headers.map fun h => (formatHeader h).toList, '\n' ∉ l :=
    List.forall_mem_map.mpr fun h member => formatHeader_unbroken (single h member)
  rw [parseHeaderBlock, text, textLines_eq,
    LineText.filterMap_lines_joined parseHeaderLine_nil parseHeaderLine_stripped unbroken,
    List.filterMap_map, Function.comp_def]

/-- Headers that go through their editor come back exactly if each of them is kept. -/
theorem headers_again_iff {headers : List (String × String)}
    (single : ∀ h ∈ headers, HeaderLine h) :
    parseHeaderBlock (TextArea.setText (formatHeaders headers)).textOf = headers ↔
      ∀ h ∈ headers, HeaderKept h := by
  rw [parseHeaderBlock_edited, parseHeaderBlock_formatHeaders single]
  clear single
  induction headers with
  | nil => simp
  | cons header headers ih =>
    obtain ⟨read, line, kept⟩ := parseHeaderLine_header header
    rw [List.filterMap_cons, line, List.forall_mem_cons, ← ih, ← kept]
    exact List.cons_eq_cons

end BitBeak.Http
