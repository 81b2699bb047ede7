import BitBeak.Http.Text
import BitBeak.Lib.BoolText

/-! The words of a text, and texts in front of and behind a character. -/
namespace BitBeak
open BoolText

/- White space around a text. -/

theorem isWhitespace_graphic {c : Char} (low : 33 ≤ c.toNat) (high : c.toNat ≤ 126) :
    isWhitespace c = false := by
  simp only [isWhitespace, Bool.or_eq_false_iff, Bool.and_eq_false_iff, decide_eq_false_iff_not,
    beq_eq_false_iff_ne]
  omega

theorem digit_visible {c : Char} (digit : c.isDigit = true) : isWhitespace c = false := by
  simp only [Char.isDigit, Bool.and_eq_true, decide_eq_true_eq, UInt32.le_iff_toNat_le] at digit
  have range : 48 ≤ c.toNat ∧ c.toNat ≤ 57 := digit
  exact isWhitespace_graphic (by omega) (by omega)

theorem trim_ofList (t : List Char) :
    trim (String.ofList t) = String.ofList (BoolText.trim isWhitespace t) := by
  rw [trim, String.toList_ofList]
  rfl

theorem trim_tight {text : String} (tight : Tight isWhitespace text.toList) : trim text = text := by
  have same : trim text = String.ofList (BoolText.trim isWhitespace text.toList) := rfl
  rw [same, tight.trim_eq, String.ofList_toList]

/-- Trimming leaves nothing, or a text without white space around it. -/
theorem tight_trim {text : String} (nonempty : trim text ≠ "") :
    Tight isWhitespace (trim text).toList := by
  rw [trim, String.toList_ofList]
  have left : (text.toList.dropWhile isWhitespace).rdropWhile isWhitespace ≠ [] := by
    intro none
    rw [trim, none] at nonempty
    exact nonempty rfl
  constructor
  · have first : text.toList.dropWhile isWhitespace ≠ [] := by
      intro none
      rw [none] at left
      exact left rfl
    obtain ⟨more, whole⟩ := List.rdropWhile_prefix isWhitespace (text.toList.dropWhile isWhitespace)
    refine ⟨(text.toList.dropWhile isWhitespace).head first, ?_, ?_⟩
    · rw [Option.mem_def, ← List.head?_eq_some_head first]
      conv_rhs => rw [← whole]
      rw [List.head?_append_of_ne_nil _ left]
    · simpa using List.head_dropWhile_not isWhitespace first
  · refine ⟨_, List.getLast?_eq_some_getLast left, ?_⟩
    simpa using List.rdropWhile_last_not isWhitespace _ left

/- Words. -/

def textWords (t : Text) : List Text :=
  (t.splitOnP isWhitespace).filter fun word => !word.isEmpty

theorem splitWhitespace_words (t : Text) :
    splitWhitespace (String.ofList t) = (textWords t).map String.ofList := by
  rw [splitWhitespace, String.toList_ofList]
  rfl

theorem textWords_append (s : Text) {c : Char} (white : isWhitespace c = true) (t : Text) :
    textWords (s ++ c :: t) = textWords s ++ textWords t := by
  rw [textWords, List.splitOnP_append_cons s t white, List.filter_append]
  rfl

theorem textWords_solid {w : Text} (nonempty : w ≠ []) (solid : ∀ c ∈ w, isWhitespace c = false) :
    textWords w = [w] := by
  rw [textWords, List.splitOnP_eq_singleton solid]
  cases w with
  | nil => exact absurd rfl nonempty
  | cons c rest => rfl

theorem textWords_trim (t : Text) : textWords (BoolText.trim isWhitespace t) = textWords t := by
  have front : ∀ t : Text, textWords (t.dropWhile isWhitespace) = textWords t := by
    intro t
    induction t with
    | nil => rfl
    | cons c rest ih =>
      rw [List.dropWhile_cons]
      split
      · next white => exact ih.trans (textWords_append [] white rest).symm
      · rfl
  have back : ∀ t : Text, textWords (t.rdropWhile isWhitespace) = textWords t := by
    intro t
    induction t using List.reverseRecOn with
    | nil => rw [List.rdropWhile_nil]
    | append_singleton t c ih =>
      rw [List.rdropWhile_concat]
      split
      · next white => exact ih.trans ((textWords_append t white []).trans (List.append_nil _)).symm
      · rfl
  rw [BoolText.trim, back, front]

theorem splitWhitespace_spaced {words : List Text} (some : words ≠ [])
    (solid : ∀ w ∈ words, w ≠ [] ∧ ∀ c ∈ w, isWhitespace c = false) :
    splitWhitespace (String.ofList (spaced words)) = words.map String.ofList := by
  rw [splitWhitespace_words]
  congr 1
  induction words with
  | nil => exact absurd rfl some
  | cons w rest ih =>
    obtain ⟨nonempty, visible⟩ := solid w List.mem_cons_self
    by_cases more : rest = []
    · rw [more, spaced, List.intercalate_singleton, textWords_solid nonempty visible]
    · have others := ih more fun v member => solid v (List.mem_cons_of_mem _ member)
      rw [spaced_cons w more, textWords_append w (by decide), textWords_solid nonempty visible, others]
      rfl

theorem splitOnce_append {c : Char} {a : String} (outside : c ∉ a.toList) (b : String) :
    splitOnce c (a ++ String.ofList [c] ++ b) = some (a, b) := by
  have whole : (a ++ String.ofList [c] ++ b).toList = a.toList ++ c :: b.toList := by
    simp only [String.toList_append, String.toList_ofList, List.append_assoc,
      List.singleton_append]
  have before := differs_of_outside outside
  rw [splitOnce, whole, List.span_eq_takeWhile_dropWhile, List.takeWhile_append_of_pos before,
    List.dropWhile_append_of_pos before, List.takeWhile_cons_of_neg (by simp),
    List.dropWhile_cons_of_neg (by simp), List.append_nil]
  simp only [String.ofList_toList]

theorem splitOnce_eq_some {c : Char} {text a b : String} (found : splitOnce c text = some (a, b)) :
    text = a ++ String.ofList [c] ++ b ∧ c ∉ a.toList := by
  rw [splitOnce, List.span_eq_takeWhile_dropWhile] at found
  have whole := List.takeWhile_append_dropWhile (p := fun d => decide (d ≠ c)) (l := text.toList)
  cases behind : text.toList.dropWhile fun d => decide (d ≠ c) with
  | nil =>
    rw [behind] at found
    cases found
  | cons d rest =>
    have stops := List.head?_dropWhile_not (fun d => decide (d ≠ c)) text.toList
    rw [behind] at found stops whole
    have same : d = c := by simpa using stops
    cases found
    constructor
    · rw [← String.toList_inj]
      simp only [String.toList_append, String.toList_ofList]
      nth_rewrite 1 [← whole, same]
      simp
    · rw [String.toList_ofList]
      intro inside
      have differs := List.mem_takeWhile_imp inside
      simp at differs

/- Numbers. -/

section
variable {limit : Nat} {digits : Text} (filled : digits ≠ [])
  (decimal : ∀ c ∈ digits, c.isDigit = true)
include decimal

theorem unsigned_digits (sign : String) {c : Char} (begins : sign.toList.head? = some c)
    (other : c.isDigit = false) : hasPrefix (String.ofList digits) sign = false := by
  rw [hasPrefix, Bool.eq_false_iff]
  intro found
  have member : c ∈ sign.toList := List.mem_of_head? begins
  have inside := (List.isPrefixOf_iff_prefix.mp found).subset member
  rw [String.toList_ofList] at inside
  rw [decimal c inside] at other
  cases other

include filled

theorem parseUnsigned_digits (small : Nat.ofDigitChars 10 digits 0 < limit) :
    parseUnsigned limit (String.ofList digits) = some (Nat.ofDigitChars 10 digits 0) := by
  have value : parseDigits digits = some (Nat.ofDigitChars 10 digits 0) := by
    rw [parseDigits, if_pos ⟨filled, List.all_eq_true.mpr decimal⟩]
  rw [parseUnsigned, unsigned_digits decimal "+" rfl (by decide)]
  simp only [Bool.false_eq_true, if_false, String.toList_ofList, value]
  exact Option.filter_some_pos (decide_eq_true small)

theorem parseSigned_digits (small : Nat.ofDigitChars 10 digits 0 < limit) :
    parseSigned limit (String.ofList digits) = some (Nat.ofDigitChars 10 digits 0 : Int) := by
  rw [parseSigned, unsigned_digits decimal "-" rfl (by decide),
    parseUnsigned_digits filled decimal small]
  rfl

end

end BitBeak
