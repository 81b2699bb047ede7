import BitBeak.Lib.ByteText

/-! A text scanned by the offsets of its octets. Where the scanner stands between two characters,
the octet it sees is the first one of the character behind; inside a character it can cut
nothing. -/
namespace ByteText
open BoolText Utf8 Wire

/-- The slice `[i..]` of a text. -/
def tailFrom (s : Text) (i : Nat) : Except Panic Text :=
  match charsBefore s i with
  | some n => .ok (s.drop n)
  | none => .error .badSlice

section
variable (front : Text) {c : Char} (rest : Text)

theorem tailFrom_behind : tailFrom (front ++ rest) (size front) = .ok rest := by
  rw [tailFrom, charsBefore_size]
  simp

/-- No offset inside a character has a number of characters in front of it. -/
theorem charsBefore_inside {k : Nat} (positive : 0 < k)
    (inside : k < (String.utf8EncodeChar c).length) :
    charsBefore (front ++ c :: rest) (size front + k) = none := by
  have width : (String.utf8EncodeChar c).length = c.utf8Size := String.length_utf8EncodeChar c
  induction front with
  | nil =>
    obtain ⟨k, rfl⟩ : ∃ n, k = n + 1 := ⟨k - 1, by omega⟩
    rw [List.nil_append, size_nil, Nat.zero_add, charsBefore, if_neg (by omega)]
  | cons d front ih =>
    have pos := length_pos d
    have first : (String.utf8EncodeChar d).length = d.utf8Size := String.length_utf8EncodeChar d
    obtain ⟨n, hn⟩ : ∃ n, size (d :: front) + k = n + 1 := ⟨size (d :: front) + k - 1, by omega⟩
    have behind : n + 1 - d.utf8Size = size front + k := by
      rw [← hn, size_cons, first]
      omega
    rw [List.cons_append, hn, charsBefore, behind, ih, Option.map_none, ite_self]

theorem tailFrom_inside {k : Nat} (positive : 0 < k)
    (inside : k < (String.utf8EncodeChar c).length) :
    tailFrom (front ++ c :: rest) (size front + k) = .error .badSlice := by
  rw [tailFrom, charsBefore_inside front rest positive inside]

theorem octet_ascii (ascii : c.toNat < 128) :
    (encode (front ++ c :: rest))[size front]? = some (UInt8.ofNat c.toNat) := by
  have first := octet_behind front c rest (length_pos c)
  rw [Nat.add_zero] at first
  simpa only [encode_ascii ascii, List.getElem_cons_zero] using first

/-- The octets of another character are none of an ASCII one. -/
theorem octet_high (high : 128 ≤ c.toNat) {k : Nat}
    (inside : k < (String.utf8EncodeChar c).length) :
    ∃ b, (encode (front ++ c :: rest))[size front + k]? = some b ∧ 128 ≤ b.toNat :=
  ⟨_, octet_behind front c rest inside, encode_high high _ (List.getElem_mem inside)⟩

theorem octet_end : (encode front)[size front]? = none :=
  List.getElem?_eq_none (Nat.le_refl _)

end

theorem size_append_ascii (front : Text) {t : Text} (ascii : ∀ c ∈ t, c.toNat < 128) :
    size (front ++ t) = size front + t.length := by
  rw [size_append, size_ascii ascii]

theorem size_snoc_ascii (front : Text) {c : Char} (ascii : c.toNat < 128) :
    size (front ++ [c]) = size front + 1 :=
  size_append_ascii front (by simpa using ascii)

theorem length_le_size (t : Text) : t.length ≤ size t := by
  induction t with
  | nil => exact Nat.le_refl _
  | cons c t ih =>
    have first := length_pos c
    rw [size_cons, List.length_cons]
    omega

/-- A character that is not ASCII takes more than one octet. -/
theorem two_octets {c : Char} (high : 128 ≤ c.toNat) :
    1 < (String.utf8EncodeChar c).length := by
  have large : ¬ c.val.toNat ≤ 0x7f := Nat.not_le_of_gt high
  unfold String.utf8EncodeChar
  dsimp only
  rw [if_neg large]
  split
  · simp
  · split <;> simp

end ByteText
