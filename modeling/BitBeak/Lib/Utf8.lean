import BitBeak.Lib.Bytes

/-! Texts as UTF-8 octets. -/
namespace Utf8
open Wire

def encode (t : List Char) : Bytes := t.flatMap String.utf8EncodeChar

/-- The octets of some text. -/
def Valid (octets : Bytes) : Prop := ∃ t, encode t = octets

theorem encode_nil : encode [] = [] := rfl

theorem encode_cons (c : Char) (t : List Char) :
    encode (c :: t) = String.utf8EncodeChar c ++ encode t := List.flatMap_cons

theorem encode_append (s t : List Char) : encode (s ++ t) = encode s ++ encode t :=
  List.flatMap_append

theorem encode_eq_nil {t : List Char} (none : encode t = []) : t = [] := by
  cases t with
  | nil => rfl
  | cons c t =>
    rw [encode_cons] at none
    exact absurd (List.append_eq_nil_iff.mp none).1 String.utf8EncodeChar_ne_nil

/-- An occurrence of a text is one of its octets. -/
theorem infix_encode {pat t : List Char} (inside : pat <:+: t) : encode pat <:+: encode t := by
  obtain ⟨front, behind, rfl⟩ := inside
  exact ⟨encode front, encode behind, by rw [encode_append, encode_append]⟩

theorem toList_loop (octets : ByteArray) (i : Nat) (front : Bytes) :
    ByteArray.toList.loop octets i front = front.reverse ++ octets.data.toList.drop i := by
  fun_induction ByteArray.toList.loop octets i front with
  | case1 i front inside ih =>
    have here : i < octets.data.toList.length := inside
    rw [ih, List.drop_eq_getElem_cons here]
    simp [ByteArray.get!, getElem!_pos octets.data i inside]
  | case2 i front outside =>
    have past : octets.data.toList.length ≤ i := Nat.le_of_not_lt outside
    rw [List.drop_eq_nil_of_le past, List.append_nil]

theorem toUTF8_toList (text : String) : text.toUTF8.toList = encode text.toList := by
  rw [String.toUTF8_eq_toByteArray, ← String.utf8Encode_toList, List.utf8Encode,
    ByteArray.toList, toList_loop, List.toList_data_toByteArray]
  rfl

/- One octet for each of the first 128 characters, and high octets for the others. -/

theorem encode_ascii {c : Char} (ascii : c.toNat < 128) :
    String.utf8EncodeChar c = [UInt8.ofNat c.toNat] := by
  have small : c.val.toNat ≤ 0x7f := Nat.le_of_lt_succ ascii
  unfold String.utf8EncodeChar
  dsimp only
  rw [if_pos small]
  rfl

theorem toNat_ascii {c : Char} (ascii : c.toNat < 128) : (UInt8.ofNat c.toNat).toNat = c.toNat := by
  rw [UInt8.toNat_ofNat', Nat.mod_eq_of_lt (by omega)]

theorem encode_high {c : Char} (high : 128 ≤ c.toNat) :
    ∀ b ∈ String.utf8EncodeChar c, 128 ≤ b.toNat := by
  have large : ¬ c.val.toNat ≤ 0x7f := Nat.not_le_of_gt high
  have octet : ∀ n, n < 128 → 128 ≤ (UInt8.ofNat (n + 128)).toNat := by
    intro n small
    rw [UInt8.toNat_ofNat', Nat.mod_eq_of_lt (by omega)]
    omega
  have continued : ∀ v, 128 ≤ (UInt8.ofNat (v % 0x40 + 0x80)).toNat :=
    fun v => octet (v % 0x40) (by omega)
  have two : ∀ v, 128 ≤ (UInt8.ofNat (v % 0x20 + 0xc0)).toNat :=
    fun v => octet (v % 0x20 + 64) (by omega)
  have three : ∀ v, 128 ≤ (UInt8.ofNat (v % 0x10 + 0xe0)).toNat :=
    fun v => octet (v % 0x10 + 96) (by omega)
  have four : ∀ v, 128 ≤ (UInt8.ofNat (v % 0x08 + 0xf0)).toNat :=
    fun v => octet (v % 0x08 + 112) (by omega)
  unfold String.utf8EncodeChar
  dsimp only
  rw [if_neg large]
  split
  · simp only [List.forall_mem_cons, List.not_mem_nil, false_implies, implies_true, and_true]
    exact ⟨two _, continued _⟩
  · split
    · simp only [List.forall_mem_cons, List.not_mem_nil, false_implies, implies_true, and_true]
      exact ⟨three _, continued _, continued _⟩
    · simp only [List.forall_mem_cons, List.not_mem_nil, false_implies, implies_true, and_true]
      exact ⟨four _, continued _, continued _, continued _⟩

theorem ascii_inj {c d : Char} (left : c.toNat < 128) (right : d.toNat < 128)
    (same : UInt8.ofNat c.toNat = UInt8.ofNat d.toNat) : c = d := by
  have values := congrArg UInt8.toNat same
  rw [toNat_ascii left, toNat_ascii right] at values
  rw [← Char.ofNat_toNat c, ← Char.ofNat_toNat d, values]

/-- An ASCII octet is that of a character. -/
theorem mem_encode {t : List Char} {b : UInt8} (ascii : b.toNat < 128) (member : b ∈ encode t) :
    ∃ c ∈ t, c.toNat = b.toNat := by
  obtain ⟨c, inside, octet⟩ := List.mem_flatMap.mp member
  refine ⟨c, inside, ?_⟩
  by_cases low : c.toNat < 128
  · rw [encode_ascii low, List.mem_singleton] at octet
    rw [octet, toNat_ascii low]
  · have high := encode_high (Nat.le_of_not_lt low) b octet
    omega

theorem encode_of_ascii {t : List Char} (ascii : ∀ c ∈ t, c.toNat < 128) :
    encode t = t.map fun c => UInt8.ofNat c.toNat := by
  induction t with
  | nil => rfl
  | cons c t ih =>
    obtain ⟨first, others⟩ := List.forall_mem_cons.mp ascii
    rw [encode_cons, encode_ascii first, ih others]
    rfl

theorem mem_encode_iff {t : List Char} {c : Char} (ascii : c.toNat < 128) :
    UInt8.ofNat c.toNat ∈ encode t ↔ c ∈ t := by
  constructor
  · intro member
    obtain ⟨d, inside, same⟩ := mem_encode (by rwa [toNat_ascii ascii]) member
    rw [toNat_ascii ascii] at same
    rwa [← Char.ofNat_toNat c, ← same, Char.ofNat_toNat]
  · exact fun inside => List.mem_flatMap.mpr ⟨c, inside, by simp [encode_ascii ascii]⟩

/-- An ASCII text begins where its octets do. -/
theorem prefix_encode_iff {pat t : List Char} (ascii : ∀ c ∈ pat, c.toNat < 128) :
    encode pat <+: encode t ↔ pat <+: t := by
  constructor
  · intro begins
    induction pat generalizing t with
    | nil => exact List.nil_prefix
    | cons c pat ih =>
      obtain ⟨first, others⟩ := List.forall_mem_cons.mp ascii
      rw [encode_cons, encode_ascii first, List.singleton_append] at begins
      cases t with
      | nil => simp [encode_nil] at begins
      | cons d t =>
        by_cases low : d.toNat < 128
        · rw [encode_cons, encode_ascii low, List.singleton_append, List.cons_prefix_cons] at begins
          rw [ascii_inj first low begins.1]
          exact List.cons_prefix_cons.mpr ⟨rfl, ih others begins.2⟩
        · obtain ⟨b, more, octets⟩ := List.exists_cons_of_ne_nil (@String.utf8EncodeChar_ne_nil d)
          rw [encode_cons, octets, List.cons_append, List.cons_prefix_cons] at begins
          have high := encode_high (Nat.le_of_not_lt low) b (octets ▸ List.mem_cons_self)
          rw [← begins.1, toNat_ascii first] at high
          omega
  · rintro ⟨rest, rfl⟩
    exact ⟨encode rest, (encode_append pat rest).symm⟩

/- Offsets in the octets. -/

def size (t : List Char) : Nat := (encode t).length

@[simp] theorem size_nil : size [] = 0 := rfl

theorem size_cons (c : Char) (t : List Char) :
    size (c :: t) = (String.utf8EncodeChar c).length + size t := by
  rw [size, encode_cons, List.length_append, size]

theorem size_append (s t : List Char) : size (s ++ t) = size s + size t := by
  rw [size, encode_append, List.length_append, size, size]

theorem size_ascii {t : List Char} (ascii : ∀ c ∈ t, c.toNat < 128) : size t = t.length := by
  induction t with
  | nil => rfl
  | cons c t ih =>
    obtain ⟨first, others⟩ := List.forall_mem_cons.mp ascii
    rw [size_cons, encode_ascii first, ih others, List.length_singleton, List.length_cons,
      Nat.add_comm]

theorem length_pos (c : Char) : 0 < (String.utf8EncodeChar c).length :=
  List.length_pos_iff.mpr String.utf8EncodeChar_ne_nil

/-- The number of characters in front of an offset, where one begins there or the text ends. -/
def charsBefore : List Char → Nat → Option Nat
  | _, 0 => some 0
  | [], _ + 1 => none
  | c :: rest, n + 1 =>
    if c.utf8Size ≤ n + 1 then (charsBefore rest (n + 1 - c.utf8Size)).map (· + 1) else none

theorem charsBefore_size (front behind : List Char) :
    charsBefore (front ++ behind) (size front) = some front.length := by
  induction front with
  | nil =>
    cases behind <;> rfl
  | cons c front ih =>
    have width : (String.utf8EncodeChar c).length = c.utf8Size := String.length_utf8EncodeChar c
    have pos := length_pos c
    obtain ⟨n, hn⟩ : ∃ n, size (c :: front) = n + 1 := by
      refine ⟨size (c :: front) - 1, ?_⟩
      rw [size_cons]
      omega
    have rest : n + 1 - c.utf8Size = size front := by
      rw [← hn, size_cons, width]
      omega
    have inside : c.utf8Size ≤ n + 1 := by
      rw [← hn, size_cons, width]
      omega
    rw [List.cons_append, hn, charsBefore, if_pos inside, rest, ih]
    rfl

end Utf8
