import BitBeak.Lib.Utf8
import Mathlib.Tactic.IntervalCases

/-! Percent encoding, and forms: pairs of a name and a value with an ampersand between them. -/
namespace Percent
open Wire

abbrev Text := List Char

/-- The numbers of the letters, the digits and the four marks that are written as they are. -/
def plain (n : Nat) : Bool :=
  (48 ≤ n && n ≤ 57) || (65 ≤ n && n ≤ 90) || (97 ≤ n && n ≤ 122) || n == 45 || n == 46 || n == 95 ||
    n == 126

def unreserved (c : Char) : Bool := plain c.toNat

def hexDigit (n : Nat) : Char := Char.ofNat (if n < 10 then 48 + n else 55 + n)

def hexValue (c : Char) : Option Nat :=
  let n := c.toNat
  if 48 ≤ n ∧ n ≤ 57 then some (n - 48)
  else if 65 ≤ n ∧ n ≤ 70 then some (n - 55)
  else if 97 ≤ n ∧ n ≤ 102 then some (n - 87)
  else none

/-- An octet, as it is written. -/
def escape (b : UInt8) : Text :=
  if plain b.toNat then [Char.ofNat b.toNat]
  else ['%', hexDigit (b.toNat / 16), hexDigit (b.toNat % 16)]

def encode (t : Text) : Text := (Utf8.encode t).flatMap escape

/-- The octets of a value of a form. A plus sign is a blank there. -/
def decode : Text → Bytes
  | [] => []
  | '%' :: hi :: lo :: rest =>
    match hexValue hi, hexValue lo with
    | some h, some l => UInt8.ofNat (16 * h + l) :: decode rest
    | _, _ => 37 :: decode (hi :: lo :: rest)
  | c :: rest => (if c = '+' then [32] else String.utf8EncodeChar c) ++ decode rest

/-- Name and value of a pair, as they are written. -/
def pair (t : Text) : Text × Text :=
  (t.takeWhile (· ≠ '='), (t.dropWhile (· ≠ '=')).drop 1)

/-- The octets of the first value of the name. -/
def formValue (name : Text) (form : Text) : Option Bytes :=
  ((form.splitOn '&').find? fun p => decode (pair p).1 = Utf8.encode name).map fun p =>
    decode (pair p).2

/- Octets and characters that are written as they are. -/

theorem plain_bounds {n : Nat} (kept : plain n = true) :
    45 ≤ n ∧ n ≤ 126 ∧ n ≠ 61 ∧ n ≠ 63 := by
  simp only [plain, Bool.or_eq_true, Bool.and_eq_true, decide_eq_true_eq, beq_iff_eq] at kept
  omega

theorem plain_hexDigit : ∀ n < 16, plain (hexDigit n).toNat = true := by decide

theorem hexValue_hexDigit : ∀ n < 16, hexValue (hexDigit n) = some n := by decide

theorem ofNat_plain {b : UInt8} (kept : plain b.toNat = true) :
    (Char.ofNat b.toNat).toNat = b.toNat := by
  have bounds := plain_bounds kept
  have valid : b.toNat.isValidChar := .inl (by omega)
  rw [Char.ofNat, dif_pos valid]
  rfl

theorem escape_unreserved {c : Char} (kept : unreserved c = true) :
    escape (UInt8.ofNat c.toNat) = [c] := by
  have bounds := plain_bounds kept
  have same : (UInt8.ofNat c.toNat).toNat = c.toNat := Utf8.toNat_ascii (by omega)
  rw [escape, same, if_pos (show plain c.toNat = true from kept), Char.ofNat_toNat]

/-- The octets of a character, as they are written. -/
def encodeChar (c : Char) : Text := (String.utf8EncodeChar c).flatMap escape

theorem encode_nil : encode [] = [] := rfl

theorem encode_cons (c : Char) (t : Text) : encode (c :: t) = encodeChar c ++ encode t := by
  rw [encode, Utf8.encode_cons, List.flatMap_append]
  rfl

theorem encodeChar_unreserved {c : Char} (kept : unreserved c = true) : encodeChar c = [c] := by
  have bounds := plain_bounds kept
  rw [encodeChar, Utf8.encode_ascii (by omega), List.flatMap_singleton, escape_unreserved kept]

theorem mem_escape {b : UInt8} {c : Char} (inside : c ∈ escape b) :
    unreserved c = true ∨ c = '%' := by
  have bound := b.toNat_lt
  rw [escape] at inside
  split at inside
  · next kept =>
    rw [List.mem_singleton.mp inside, unreserved, ofNat_plain kept]
    exact .inl kept
  · simp only [List.mem_cons, List.not_mem_nil, or_false] at inside
    rcases inside with rfl | rfl | rfl
    · exact .inr rfl
    · exact .inl (plain_hexDigit _ (by omega))
    · exact .inl (plain_hexDigit _ (by omega))

/-- What is written are unreserved characters and percent signs. -/
theorem mem_encode {t : Text} {c : Char} (inside : c ∈ encode t) : unreserved c = true ∨ c = '%' := by
  obtain ⟨b, -, written⟩ := List.mem_flatMap.mp inside
  exact mem_escape written

/-- A character that needs an escape is longer when it is written. -/
theorem length_encodeChar {c : Char} (escaped : unreserved c = false) :
    1 < (encodeChar c).length := by
  have octets : ∀ b ∈ String.utf8EncodeChar c, plain b.toNat = false := by
    intro b inside
    by_cases low : c.toNat < 128
    · rw [Utf8.encode_ascii low, List.mem_singleton] at inside
      rw [inside, Utf8.toNat_ascii low]
      exact escaped
    · have high := Utf8.encode_high (Nat.le_of_not_lt low) b inside
      by_contra kept
      have bounds := plain_bounds (Bool.eq_true_of_not_eq_false kept)
      omega
  rw [encodeChar]
  cases shape : String.utf8EncodeChar c with
  | nil => exact absurd shape String.utf8EncodeChar_ne_nil
  | cons b more =>
    have first := octets b (by simp [shape])
    simp [escape, first]

theorem length_encode (t : Text) : t.length ≤ (encode t).length := by
  induction t with
  | nil => exact Nat.le_refl _
  | cons c t ih =>
    have one : 1 ≤ (encodeChar c).length := by
      cases kept : unreserved c with
      | true => simp [encodeChar_unreserved kept]
      | false => exact Nat.le_of_lt (length_encodeChar kept)
    rw [encode_cons, List.length_append, List.length_cons]
    omega

/-- Nothing is escaped in a text of unreserved characters, and something in every other. -/
theorem encode_eq_self_iff (t : Text) : encode t = t ↔ ∀ c ∈ t, unreserved c = true := by
  induction t with
  | nil => simp [encode_nil]
  | cons c t ih =>
    rw [encode_cons, List.forall_mem_cons]
    cases kept : unreserved c with
    | true => simp [encodeChar_unreserved kept, ih]
    | false =>
      have longer := length_encodeChar kept
      have rest := length_encode t
      constructor
      · intro same
        have lengths := congrArg List.length same
        simp only [List.length_append, List.length_cons] at lengths
        omega
      · rintro ⟨impossible, -⟩
        cases impossible

/- What is written is read again. -/

theorem decode_cons {c : Char} (other : c ≠ '%') (rest : Text) :
    decode (c :: rest) = (if c = '+' then [32] else String.utf8EncodeChar c) ++ decode rest := by
  rw [decode.eq_def]
  split
  · next impossible => cases impossible
  · next same => exact absurd (List.cons.inj same).1 other
  · next same => obtain ⟨rfl, rfl⟩ := List.cons.inj same; rfl

theorem decode_escape (b : UInt8) (rest : Text) : decode (escape b ++ rest) = b :: decode rest := by
  have bound := b.toNat_lt
  rw [escape]
  split
  · next kept =>
    have bounds := plain_bounds kept
    have value := ofNat_plain kept
    have percent : Char.ofNat b.toNat ≠ '%' := by
      intro same
      rw [same] at value
      have number : ('%').toNat = 37 := rfl
      omega
    have plus : Char.ofNat b.toNat ≠ '+' := by
      intro same
      rw [same] at value
      have number : ('+').toNat = 43 := rfl
      omega
    rw [List.cons_append, List.nil_append, decode_cons percent, if_neg plus,
      Utf8.encode_ascii (by omega), value, UInt8.ofNat_toNat]
    rfl
  · have high := hexValue_hexDigit (b.toNat / 16) (by omega)
    have low := hexValue_hexDigit (b.toNat % 16) (by omega)
    have whole : 16 * (b.toNat / 16) + b.toNat % 16 = b.toNat := by omega
    rw [List.cons_append, List.cons_append, List.cons_append, List.nil_append, decode]
    simp only [high, low, whole, UInt8.ofNat_toNat]

theorem decode_encode (t : Text) : decode (encode t) = Utf8.encode t := by
  rw [encode]
  induction Utf8.encode t with
  | nil => rfl
  | cons b octets ih => rw [List.flatMap_cons, decode_escape, ih]

/- What is written stands between no marks of a query or a form. -/

theorem outside_encode {c : Char} (mark : unreserved c = false ∧ c ≠ '%') (t : Text) :
    c ∉ encode t := by
  intro inside
  rcases mem_encode inside with kept | percent
  · rw [mark.1] at kept
    cases kept
  · exact mark.2 percent

theorem pair_append {name : Text} (outside : '=' ∉ name) (value : Text) :
    pair (name ++ '=' :: value) = (name, value) := by
  have before : ∀ c ∈ name, decide (c ≠ '=') = true := by
    intro c inside
    simpa using fun same : c = '=' => outside (same ▸ inside)
  rw [pair, List.takeWhile_append_of_pos before, List.dropWhile_append_of_pos before]
  simp

/-- A pair of another name is passed over. -/
theorem formValue_other {name p : Text} (outside : '&' ∉ p)
    (other : decode (pair p).1 ≠ Utf8.encode name) (form : Text) :
    formValue name (p ++ '&' :: form) = formValue name form := by
  rw [formValue, formValue, List.splitOn_append_cons_self_of_not_mem outside,
    List.find?_cons_of_neg (by simpa using other)]

/-- The value of the first pair is read as it was before it was written. -/
theorem formValue_first (name value form : Text) :
    formValue name (encode name ++ '=' :: encode value ++ '&' :: form) =
      some (Utf8.encode value) := by
  have ampersand := fun t => outside_encode (c := '&') ⟨rfl, by decide⟩ t
  have equals := fun t => outside_encode (c := '=') ⟨rfl, by decide⟩ t
  have outside : '&' ∉ encode name ++ '=' :: encode value := by
    simp [ampersand]
  have parts := pair_append (equals name) (encode value)
  rw [formValue, List.splitOn_append_cons_self_of_not_mem outside,
    List.find?_cons_of_pos (by simp [parts, decode_encode])]
  simp [parts, decode_encode]

/- Forms. -/

/-- The pairs of a form, written one after the other. -/
def writeForm : List (Text × Text) → Text
  | [] => []
  | [p] => encode p.1 ++ '=' :: encode p.2
  | p :: q :: ps => encode p.1 ++ '=' :: encode p.2 ++ '&' :: writeForm (q :: ps)

theorem pair_outside (p : Text × Text) : '&' ∉ encode p.1 ++ '=' :: encode p.2 := by
  have ampersand := fun t => outside_encode (c := '&') ⟨rfl, by decide⟩ t
  simp [ampersand]

theorem pair_encode (p : Text × Text) :
    pair (encode p.1 ++ '=' :: encode p.2) = (encode p.1, encode p.2) :=
  pair_append (outside_encode ⟨rfl, by decide⟩ p.1) (encode p.2)

/-- What is written is read as the first pair of the name says. -/
theorem formValue_writeForm {name : Text} (some : Utf8.encode name ≠ [])
    (ps : List (Text × Text)) :
    formValue name (writeForm ps) =
      (ps.find? fun p => Utf8.encode p.1 = Utf8.encode name).map fun p => Utf8.encode p.2 := by
  induction ps with
  | nil => simp [formValue, writeForm, pair, decode, some.symm]
  | cons p ps ih =>
    cases ps with
    | nil =>
      rw [writeForm, formValue, List.splitOn_eq_singleton (pair_outside p)]
      by_cases here : Utf8.encode p.1 = Utf8.encode name <;>
        simp [pair_encode, decode_encode, here]
    | cons q ps =>
      rw [writeForm, formValue, List.splitOn_append_cons_self_of_not_mem (pair_outside p)]
      by_cases here : Utf8.encode p.1 = Utf8.encode name
      · simp [pair_encode, decode_encode, here]
      · rw [List.find?_cons_of_neg (by simpa [pair_encode, decode_encode] using here),
          List.find?_cons_of_neg (by simpa using here)]
        exact ih

theorem formValue_second {name other : Text} (some : Utf8.encode name ≠ [])
    (apart : Utf8.encode other ≠ Utf8.encode name) (v w : Text) (ps : List (Text × Text)) :
    formValue name (writeForm ((other, v) :: (name, w) :: ps)) = .some (Utf8.encode w) := by
  rw [formValue_writeForm some, List.find?_cons_of_neg (by simpa using apart),
    List.find?_cons_of_pos (by simp)]
  rfl

theorem formValue_absent {name : Text} (some : Utf8.encode name ≠ []) {ps : List (Text × Text)}
    (absent : ∀ p ∈ ps, Utf8.encode p.1 ≠ Utf8.encode name) :
    formValue name (writeForm ps) = none := by
  rw [formValue_writeForm some, List.find?_eq_none.mpr fun p member => by
    simpa using absent p member]
  rfl

end Percent
