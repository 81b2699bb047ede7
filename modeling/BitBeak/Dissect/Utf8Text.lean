import BitBeak.Dissect.Lossy

/-! Octets that are read as a text are the octets of that text. -/
namespace BitBeak
open Wire

/- The octets of a character that was put together from octets. -/

theorem toNat_read {n : Nat} (small : n < 0x110000) (scalar : n < 0xd800 ∨ 0xdfff < n) :
    (Char.ofNat n).val.toNat = n := by
  have valid : n.isValidChar := by
    rcases scalar with low | high
    · exact .inl low
    · exact .inr ⟨high, small⟩
  rw [Char.ofNat, dif_pos valid]
  rfl

theorem ofNat_eq {n : Nat} {b : UInt8} (same : n = b.toNat) : UInt8.ofNat n = b := by
  rw [same, UInt8.ofNat_toNat]

section
variable {b x y z : UInt8}

theorem encode_one (ascii : b.toNat < 0x80) : String.utf8EncodeChar (Char.ofNat b.toNat) = [b] := by
  have value := toNat_read (n := b.toNat) (by omega) (by omega)
  unfold String.utf8EncodeChar
  simp only [value]
  rw [if_pos (by omega), ofNat_eq rfl]

theorem encode_two (first : 0xc2 ≤ b.toNat ∧ b.toNat ≤ 0xdf)
    (second : 0x80 ≤ x.toNat ∧ x.toNat ≤ 0xbf) :
    String.utf8EncodeChar (Char.ofNat (b.toNat % 32 * 64 + x.toNat % 64)) = [b, x] := by
  have value := toNat_read (n := b.toNat % 32 * 64 + x.toNat % 64) (by omega) (by omega)
  unfold String.utf8EncodeChar
  simp only [value]
  rw [if_neg (by omega), if_pos (by omega), ofNat_eq (b := b) (by omega),
    ofNat_eq (b := x) (by omega)]

theorem encode_three (first : 0xe0 ≤ b.toNat ∧ b.toNat ≤ 0xef)
    (second : (if b.toNat = 0xe0 then 0xa0 else 0x80) ≤ x.toNat ∧
      x.toNat ≤ if b.toNat = 0xed then 0x9f else 0xbf)
    (third : 0x80 ≤ y.toNat ∧ y.toNat ≤ 0xbf) :
    String.utf8EncodeChar (Char.ofNat (b.toNat % 16 * 4096 + x.toNat % 64 * 64 + y.toNat % 64)) =
      [b, x, y] := by
  have bounds : 0x80 ≤ x.toNat ∧ x.toNat ≤ 0xbf ∧ (b.toNat = 0xe0 → 0xa0 ≤ x.toNat) ∧
      (b.toNat = 0xed → x.toNat ≤ 0x9f) := by
    grind
  have value := toNat_read (n := b.toNat % 16 * 4096 + x.toNat % 64 * 64 + y.toNat % 64)
    (by omega) (by omega)
  unfold String.utf8EncodeChar
  simp only [value]
  rw [if_neg (by omega), if_neg (by omega), if_pos (by omega), ofNat_eq (b := b) (by omega),
    ofNat_eq (b := x) (by omega), ofNat_eq (b := y) (by omega)]

theorem encode_four (first : 0xf0 ≤ b.toNat ∧ b.toNat ≤ 0xf4)
    (second : (if b.toNat = 0xf0 then 0x90 else 0x80) ≤ x.toNat ∧
      x.toNat ≤ if b.toNat = 0xf4 then 0x8f else 0xbf)
    (third : 0x80 ≤ y.toNat ∧ y.toNat ≤ 0xbf) (fourth : 0x80 ≤ z.toNat ∧ z.toNat ≤ 0xbf) :
    String.utf8EncodeChar (Char.ofNat
      (b.toNat % 8 * 262144 + x.toNat % 64 * 4096 + y.toNat % 64 * 64 + z.toNat % 64)) =
        [b, x, y, z] := by
  have bounds : 0x80 ≤ x.toNat ∧ x.toNat ≤ 0xbf ∧ (b.toNat = 0xf0 → 0x90 ≤ x.toNat) ∧
      (b.toNat = 0xf4 → x.toNat ≤ 0x8f) := by
    grind
  have value := toNat_read
    (n := b.toNat % 8 * 262144 + x.toNat % 64 * 4096 + y.toNat % 64 * 64 + z.toNat % 64)
    (by omega) (by omega)
  unfold String.utf8EncodeChar
  simp only [value]
  rw [if_neg (by omega), if_neg (by omega), if_neg (by omega), ofNat_eq (b := b) (by omega),
    ofNat_eq (b := x) (by omega), ofNat_eq (b := y) (by omega), ofNat_eq (b := z) (by omega)]

end

theorem prefix_of_octets {front rest : Bytes}
    (same : (List.range front.length).map (rest[·]?) = front.map some) : front <+: rest := by
  rw [List.prefix_iff_getElem?]
  intro i inside
  have here := congrArg (·[i]?) same
  simpa [inside] using here

/-- A step that yields a character took the octets of that character. -/
theorem utf8Step_octets {b : UInt8} {rest : Bytes} {c : Char} {taken : Nat}
    (step : utf8Step b rest = (some c, taken)) :
    ∃ more tail, rest = more ++ tail ∧ String.utf8EncodeChar c = b :: more ∧
      taken = more.length + 1 := by
  cases charStep_of_utf8Step step with
  | one ascii => exact ⟨[], rest, rfl, encode_one ascii, rfl⟩
  | @two x first there second =>
    obtain ⟨tail, rfl⟩ : [x] <+: rest := prefix_of_octets (by simp [there])
    exact ⟨[x], tail, rfl, encode_two first second, rfl⟩
  | @three x y first there there' second third =>
    obtain ⟨tail, rfl⟩ : [x, y] <+: rest :=
      prefix_of_octets (by simp [List.range_succ, there, there'])
    exact ⟨[x, y], tail, rfl, encode_three first second third, rfl⟩
  | @four x y z first there there' there'' second third fourth =>
    obtain ⟨tail, rfl⟩ : [x, y, z] <+: rest :=
      prefix_of_octets (by simp [List.range_succ, there, there', there''])
    exact ⟨[x, y, z], tail, rfl, encode_four first second third fourth, rfl⟩

/-- A text that was read whole, by induction on its characters. -/
theorem utf8Steps_octets {t : List Char} {bytes : Bytes} (read : utf8Steps bytes 0 = t.map some) :
    Utf8.encode t = bytes := by
  have skip : ∀ l rest : Bytes, utf8Steps (l ++ rest) l.length = utf8Steps rest 0 := by
    intro l rest
    induction l with
    | nil => rfl
    | cons b l ih => exact ih
  induction t generalizing bytes with
  | nil =>
    cases bytes with
    | nil => rfl
    | cons b rest => simp [utf8Steps] at read
  | cons c t ih =>
    cases bytes with
    | nil => simp [utf8Steps] at read
    | cons b rest =>
      rw [utf8Steps, List.map_cons, List.cons_eq_cons] at read
      obtain ⟨first, others⟩ := read
      have step : utf8Step b rest = (some c, (utf8Step b rest).2) := Prod.ext first rfl
      obtain ⟨more, tail, rfl, octets, taken⟩ := utf8Step_octets step
      rw [taken, Nat.add_sub_cancel, skip] at others
      rw [Utf8.encode_cons, octets, ih others]
      rfl

theorem mapM_id_eq_some (xs : List (Option Char)) (t : List Char) :
    xs.mapM id = some t ↔ xs = t.map some := by
  induction xs generalizing t with
  | nil => cases t <;> simp
  | cons x xs ih =>
    have step : (x :: xs).mapM id = some t ↔ ∃ c s, x = some c ∧ xs.mapM id = some s ∧ c :: s = t := by
      rw [List.mapM_cons]
      simp [Option.bind_eq_some_iff]
    rw [step]
    constructor
    · rintro ⟨c, s, rfl, rest, rfl⟩
      rw [(ih s).mp rest, List.map_cons]
    · intro whole
      cases t with
      | nil => cases whole
      | cons c t =>
        obtain ⟨first, others⟩ := List.cons_eq_cons.mp whole
        exact ⟨c, t, first, (ih t).mpr others, rfl⟩

theorem fromUtf8_eq_some_iff (bytes : Bytes) (text : String) :
    fromUtf8 bytes = some text ↔ Utf8.encode text.toList = bytes := by
  rw [fromUtf8, Option.map_eq_some_iff]
  simp only [mapM_id_eq_some]
  constructor
  · rintro ⟨t, read, rfl⟩
    rw [String.toList_ofList]
    exact utf8Steps_octets read
  · rintro rfl
    exact ⟨text.toList, utf8Steps_encode _, String.ofList_toList⟩

theorem fromUtf8_ne_none_iff (bytes : Bytes) :
    fromUtf8 bytes ≠ none ↔ ∃ text : String, Utf8.encode text.toList = bytes := by
  simp only [Option.ne_none_iff_exists', fromUtf8_eq_some_iff]

theorem fromUtf8_encode (t : List Char) : fromUtf8 (Utf8.encode t) = some (String.ofList t) :=
  (fromUtf8_eq_some_iff _ _).mpr (congrArg Utf8.encode String.toList_ofList)

theorem encode_injective {s t : List Char} (same : Utf8.encode s = Utf8.encode t) : s = t := by
  have texts := fromUtf8_encode s
  rw [same, fromUtf8_encode t] at texts
  exact (String.ofList_injective (Option.some.inj texts)).symm

end BitBeak
