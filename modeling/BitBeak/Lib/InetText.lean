import Mathlib.Data.List.Basic

/-! The textual forms of internet addresses. -/
namespace InetText

def hexDigit (c : Char) : Prop := c.isDigit = true ∨ ('a' ≤ c ∧ c ≤ 'f') ∨ ('A' ≤ c ∧ c ≤ 'F')

/-- Up to three decimal digits. -/
def DecOctet (t : List Char) : Prop :=
  t ≠ [] ∧ (∀ c ∈ t, c.isDigit = true) ∧ t.length ≤ 3 ∧ Nat.ofDigitChars 10 t 0 ≤ 255

/-- An IPv4 address: four octets between dots. -/
def Ipv4 (t : List Char) : Prop :=
  ∃ a b c d, DecOctet a ∧ DecOctet b ∧ DecOctet c ∧ DecOctet d ∧
    t = a ++ '.' :: (b ++ '.' :: (c ++ '.' :: d))

/-- Sixteen bits in up to four hexadecimal digits. -/
def HexGroup (t : List Char) : Prop := t ≠ [] ∧ (∀ c ∈ t, hexDigit c) ∧ t.length ≤ 4

/-- Groups between colons, `n` of them. -/
inductive HexGroups : Nat → List Char → Prop where
  | none : HexGroups 0 []
  | one {g} : HexGroup g → HexGroups 1 g
  | cons {g t n} : HexGroup g → HexGroups (n + 1) t → HexGroups (n + 2) (g ++ ':' :: t)

/-- Groups of which the last two may be an IPv4 address. -/
inductive Groups : Nat → List Char → Prop where
  | hex {n t} : HexGroups n t → Groups n t
  | v4 {t} : Ipv4 t → Groups 2 t
  | cons {g t n} : HexGroup g → Groups (n + 1) t → Groups (n + 2) (g ++ ':' :: t)

/-- An IPv6 address: eight groups, or fewer around two colons that stand for groups of zeros, with
the name of a zone behind it or without. -/
inductive Ipv6 : List Char → Prop where
  | full {t} : Groups 8 t → Ipv6 t
  | compressed {front back n m} : HexGroups n front → Groups m back → n + m ≤ 7 →
      Ipv6 (front ++ ':' :: ':' :: back)
  | zoned {t zone} : Ipv6 t → zone ≠ [] → (∀ c ∈ zone, c.isAlphanum = true ∨ c ∈ ['-', '.', '_', '~']) →
      Ipv6 (t ++ '%' :: zone)

/-- A character of an address. -/
def addressChar (c : Char) : Prop := c.isAlphanum = true ∨ c ∈ ['-', '.', '_', '~', ':', '%']

theorem isAlphanum_iff (c : Char) :
    c.isAlphanum = true ↔ (c.isUpper = true ∨ c.isLower = true) ∨ c.isDigit = true := by
  rw [← Bool.or_eq_true, ← Bool.or_eq_true]
  rfl

theorem isUpper_iff (c : Char) : c.isUpper = true ↔ 'A' ≤ c ∧ c ≤ 'Z' := decide_eq_true_iff

theorem isLower_iff (c : Char) : c.isLower = true ↔ 'a' ≤ c ∧ c ≤ 'z' := by
  rw [← decide_eq_true_iff (p := 'a' ≤ c), ← decide_eq_true_iff (p := c ≤ 'z'), ← Bool.and_eq_true]
  rfl

theorem addressChar_digit {c : Char} (digit : c.isDigit = true) : addressChar c :=
  .inl ((isAlphanum_iff c).mpr (.inr digit))

theorem addressChar_hex {c : Char} (hex : hexDigit c) : addressChar c := by
  rcases hex with digit | ⟨low, high⟩ | ⟨low, high⟩
  · exact addressChar_digit digit
  · have lower := (isLower_iff c).mpr ⟨low, Char.le_trans high (by decide)⟩
    exact .inl ((isAlphanum_iff c).mpr (.inl (.inr lower)))
  · have upper := (isUpper_iff c).mpr ⟨low, Char.le_trans high (by decide)⟩
    exact .inl ((isAlphanum_iff c).mpr (.inl (.inl upper)))

theorem Ipv4.chars {t : List Char} (v4 : Ipv4 t) : ∀ c ∈ t, c.isDigit = true ∨ c = '.' := by
  obtain ⟨a, b, c, d, first, second, third, last, rfl⟩ := v4
  intro e member
  simp only [List.mem_append, List.mem_cons] at member
  rcases member with inside | dot | inside | dot | inside | dot | inside
  · exact .inl (first.2.1 e inside)
  · exact .inr dot
  · exact .inl (second.2.1 e inside)
  · exact .inr dot
  · exact .inl (third.2.1 e inside)
  · exact .inr dot
  · exact .inl (last.2.1 e inside)

theorem Ipv4.ne_nil {t : List Char} (v4 : Ipv4 t) : t ≠ [] := by
  obtain ⟨a, b, c, d, first, -, -, -, rfl⟩ := v4
  simp [first.1]

theorem addressChar_join {g t : List Char} (front : HexGroup g) (back : ∀ c ∈ t, addressChar c) :
    ∀ c ∈ g ++ ':' :: t, addressChar c := by
  intro c member
  rcases List.mem_append.mp member with first | rest
  · exact addressChar_hex (front.2.1 c first)
  · rcases List.mem_cons.mp rest with rfl | last
    · exact .inr (by simp)
    · exact back c last

theorem HexGroups.chars {n : Nat} {t : List Char} (groups : HexGroups n t) :
    ∀ c ∈ t, addressChar c := by
  induction groups with
  | none => simp
  | one group => exact fun c member => addressChar_hex (group.2.1 c member)
  | cons group _ ih => exact addressChar_join group ih

theorem Groups.chars {n : Nat} {t : List Char} (groups : Groups n t) : ∀ c ∈ t, addressChar c := by
  induction groups with
  | hex groups => exact groups.chars
  | v4 address =>
    intro c member
    rcases address.chars c member with digit | rfl
    · exact addressChar_digit digit
    · exact .inr (by simp)
  | cons group _ ih => exact addressChar_join group ih

theorem Ipv6.chars {t : List Char} (v6 : Ipv6 t) : ∀ c ∈ t, addressChar c := by
  induction v6 with
  | full groups => exact groups.chars
  | compressed front back _ =>
    intro c member
    simp only [List.mem_append, List.mem_cons] at member
    rcases member with first | rfl | rfl | last
    · exact front.chars c first
    · exact .inr (by simp)
    · exact .inr (by simp)
    · exact back.chars c last
  | zoned _ _ zone ih =>
    intro c member
    simp only [List.mem_append, List.mem_cons] at member
    rcases member with first | rfl | last
    · exact ih c first
    · exact .inr (by simp)
    · rcases zone c last with letter | mark
      · exact .inl letter
      · exact .inr (by simp at mark ⊢; tauto)

/-- There is a colon in every form. -/
theorem Ipv6.colon {t : List Char} (v6 : Ipv6 t) : ':' ∈ t := by
  have eight : ∀ {n t}, Groups n t → 2 < n → ':' ∈ t := by
    intro n t groups many
    cases groups with
    | hex groups =>
      cases groups with
      | none => omega
      | one => omega
      | cons => simp
    | v4 => omega
    | cons => simp
  induction v6 with
  | full groups => exact eight groups (by decide)
  | compressed => simp
  | zoned _ _ _ ih => exact List.mem_append_left _ ih

end InetText
