import BitBeak.Composer.Escapes

/-! Payloads put into the editor and read back without an edit. -/
namespace BitBeak
open BoolText ByteText Utf8
open Wire hiding slice

/- The escaped form. -/

/-- The escaped form of an octet stands for that octet. -/
theorem escapeByte_unescapes (b : UInt8) {rest : Text} {out : Bytes}
    (behind : Unescapes rest out) : Unescapes ((escapeByte b).toList ++ rest) (b :: out) := by
  unfold escapeByte previewByte
  split
  · next slash =>
    subst slash
    exact .letter (d := '\\') (by decide) rfl behind
  split
  · next lf =>
    subst lf
    exact .letter (d := 'n') (by decide) rfl behind
  split
  · next cr =>
    subst cr
    exact .letter (d := 'r') (by decide) rfl behind
  split
  · next tab =>
    subst tab
    exact .letter (d := 't') (by decide) rfl behind
  split
  · next slash _ _ _ range =>
    have small : b.toNat < 0x80 := Nat.lt_of_le_of_lt (UInt8.le_iff_toNat_le.mp range.2) (by decide)
    have own := encode_one small
    have other : octetChar b ≠ '\\' := by
      intro same
      rw [octetChar] at same
      rw [same] at own
      exact slash (List.head_eq_of_cons_eq own).symm
    rw [String.toList_singleton]
    have plain := Unescapes.plain other behind
    rwa [octetChar, own] at plain
  · obtain ⟨first, _, high⟩ := digitChar_hex (show b.toNat / 16 < 16 by have := b.toNat_lt; omega)
    obtain ⟨second, _, low⟩ := digitChar_hex (show b.toNat % 16 < 16 by omega)
    have digits := Unescapes.digits first second high low behind
    rw [String.toList_append, hexDigits_two]
    rwa [nibbles_join] at digits

theorem unescapes_escaped (payload : Bytes) : Unescapes (escaped payload).toList payload := by
  rw [escaped, String.toList_join, List.flatMap_map]
  induction payload with
  | nil => exact .nil
  | cons b payload ih =>
    rw [List.flatMap_cons]
    exact escapeByte_unescapes b ih

/- The hexadecimal form. -/

/-- The two digits of an octet. -/
def digitPair (b : UInt8) : Text :=
  [Nat.digitChar (b.toNat / 16), Nat.digitChar (b.toNat % 16)]

theorem encode_digitPair (b : UInt8) : encode (digitPair b) =
    [UInt8.ofNat (Nat.digitChar (b.toNat / 16)).toNat,
      UInt8.ofNat (Nat.digitChar (b.toNat % 16)).toNat] := by
  have bound := b.toNat_lt
  obtain ⟨first, _⟩ := digitChar_hex (show b.toNat / 16 < 16 by omega)
  obtain ⟨second, _⟩ := digitChar_hex (show b.toNat % 16 < 16 by omega)
  simp [digitPair, encode_cons, encode_nil, encode_ascii first, encode_ascii second]

theorem filter_digitPair (b : UInt8) : (digitPair b).filter isHexDigitText = digitPair b := by
  have bound := b.toNat_lt
  obtain ⟨_, first, _⟩ := digitChar_hex (show b.toNat / 16 < 16 by omega)
  obtain ⟨_, second, _⟩ := digitChar_hex (show b.toNat % 16 < 16 by omega)
  simp [digitPair, first, second]

/-- The hexadecimal form is the pairs of digits with blanks between them. -/
theorem hex_toList (payload : Bytes) :
    (encodeForEdit payload .hex).toList = [' '].intercalate (payload.map digitPair) := by
  have pairs : (payload.map fun b => hexDigits 2 b.toNat).map String.toList =
      payload.map digitPair := by
    simp [hexDigits_two, digitPair]
  rw [encodeForEdit, String.toList_intercalate, pairs]
  rfl

/-- The blanks between the pairs are left out. -/
theorem cleaned_hex (payload : Bytes) :
    (encodeForEdit payload .hex).toList.filter isHexDigitText = payload.flatMap digitPair := by
  rw [hex_toList]
  induction payload with
  | nil => rfl
  | cons b payload ih =>
    cases payload with
    | nil => simp [filter_digitPair]
    | cons next payload =>
      have blank : isHexDigitText ' ' = false := by decide
      simp only [List.map_cons] at ih
      simp only [List.map_cons, List.intercalate_cons_cons, List.filter_append, ih,
        filter_digitPair]
      simp [blank]

theorem nibblePairs_digits (payload : Bytes) :
    nibblePairs (encode (payload.flatMap digitPair)) = .ok payload := by
  induction payload with
  | nil => rfl
  | cons b payload ih =>
    have bound := b.toNat_lt
    obtain ⟨_, _, high⟩ := digitChar_hex (show b.toNat / 16 < 16 by omega)
    obtain ⟨_, _, low⟩ := digitChar_hex (show b.toNat % 16 < 16 by omega)
    rw [List.flatMap_cons, encode_append, encode_digitPair, List.cons_append, List.cons_append,
      List.nil_append, nibblePairs, high, low, ih]
    exact congrArg (fun octet => Except.ok (octet :: payload)) (nibbles_join b)

theorem parseHexBytes_encoded (payload : Bytes) :
    parseHexBytes (encodeForEdit payload .hex) = .ok payload := by
  have even : (encode (payload.flatMap digitPair)).length = 2 * payload.length := by
    induction payload with
    | nil => rfl
    | cons b payload ih =>
      rw [List.flatMap_cons, encode_append, encode_digitPair, List.length_append, ih]
      simp only [List.length_cons, List.length_nil]
      omega
  rw [parseHexBytes, cleaned_hex, nibblePairs_digits, even]
  simp

/- Both modes. -/

/-- A payload that the editor shows as it is stands in it without an escape. -/
def ShownPlainly (payload : Bytes) : Prop :=
  ∀ t, encode t = payload → t.all isEditable = true → NoEscapes t

/-- Put into the editor and read back, a payload is the same, in hexadecimal mode always, in text
mode exactly if it is shown in its escaped form or has no backslash that makes an escape. -/
theorem edit_round_trip_iff (payload : Bytes) (mode : ComposerMode) :
    decodePayload (encodeForEdit payload mode) mode = given (.ok payload) ↔
      (mode = .utf8 → ShownPlainly payload) := by
  cases mode with
  | hex => simp [decodePayload, parseHexBytes_encoded]
  | utf8 =>
    simp only [decodePayload, decodeUtf8Escapes_iff, true_implies]
    cases read : fromUtf8 payload with
    | none =>
      have no_text : ∀ t, encode t ≠ payload := by
        rintro t rfl
        rw [fromUtf8_encode] at read
        cases read
      simp [encodeForEdit, read, unescapes_escaped, ShownPlainly, no_text]
    | some s =>
      obtain rfl := (fromUtf8_eq_some_iff payload s).mp read
      by_cases shown : s.toList.all isEditable = true
      · have plainly : ShownPlainly (encode s.toList) ↔ NoEscapes s.toList := by
          constructor
          · exact fun plainly => plainly s.toList rfl shown
          · intro clear t same _
            rwa [encode_injective same]
        rw [plainly, ← unescapes_encode_iff, encodeForEdit]
        simp only [read, if_pos shown]
      · have plainly : ShownPlainly (encode s.toList) := by
          intro t same editable
          rw [encode_injective same] at editable
          exact absurd editable shown
        refine iff_of_true ?_ plainly
        rw [encodeForEdit]
        simp only [read, if_neg shown]
        exact unescapes_escaped _

/-- The text `\n` of two characters is read as a line end. -/
theorem backslash_lost :
    decodePayload (encodeForEdit [0x5c, 0x6e] .utf8) .utf8 = given (.ok [0x0a]) ∧
    decodePayload (encodeForEdit [0x5c, 0x6e] .utf8) .utf8 ≠ given (.ok [0x5c, 0x6e]) := by
  have read : decodePayload (encodeForEdit [0x5c, 0x6e] .utf8) .utf8 = given (.ok [0x0a]) := by rfl
  refine ⟨read, fun same => ?_⟩
  rw [read] at same
  cases same

/-- A backslash in front of a character of two octets stops the program. -/
example : decodePayload (encodeForEdit [0x5c, 0xc3, 0xa9] .utf8) .utf8 =
    ExceptT.mk (.error .badSlice) := by rfl

end BitBeak
