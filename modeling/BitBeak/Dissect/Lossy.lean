import BitBeak.Dissect.Text
import BitBeak.Lib.Utf8

/-! Octets read as UTF-8: a text is read back from its octets, and an ASCII octet is read as its
character whatever stands in front of it. -/
namespace BitBeak
open Wire

/- Texts are read back from their octets. -/

theorem utf8Step_encode (c : Char) (tail : Bytes) : ∃ b more,
    String.utf8EncodeChar c = b :: more ∧ utf8Step b (more ++ tail) = (some c, more.length + 1) := by
  have valid : c.val.toNat < 0xd800 ∨ 0xdfff < c.val.toNat ∧ c.val.toNat < 0x110000 := c.valid
  have self : Char.ofNat c.val.toNat = c := Char.ofNat_toNat c
  generalize value : c.val.toNat = v at valid self
  have octet : ∀ n < 256, (UInt8.ofNat n).toNat = n := fun n small => by
    rw [UInt8.toNat_ofNat', Nat.mod_eq_of_lt small]
  unfold String.utf8EncodeChar
  rw [value]
  dsimp only
  split
  · refine ⟨_, _, rfl, ?_⟩
    unfold utf8Step
    dsimp only
    rw [octet v (by omega), if_pos (by omega), self]
    rfl
  · split
    · refine ⟨_, _, rfl, ?_⟩
      have first := octet (v / 64 % 0x20 + 0xc0) (by omega)
      have second := octet (v % 0x40 + 0x80) (by omega)
      have whole : (v / 64 % 0x20 + 0xc0) % 32 * 64 + (v % 0x40 + 0x80) % 64 = v := by omega
      unfold utf8Step
      dsimp only [List.cons_append, List.nil_append, List.getElem?_cons_zero]
      rw [first, second, if_neg (by omega), if_pos (by omega), if_pos (by omega)]
      dsimp only
      rw [whole, self]
      rfl
    · split
      · refine ⟨_, _, rfl, ?_⟩
        have first := octet (v / 4096 % 0x10 + 0xe0) (by omega)
        have second := octet (v / 64 % 0x40 + 0x80) (by omega)
        have third := octet (v % 0x40 + 0x80) (by omega)
        have whole : (v / 4096 % 0x10 + 0xe0) % 16 * 4096 + (v / 64 % 0x40 + 0x80) % 64 * 64 +
            (v % 0x40 + 0x80) % 64 = v := by omega
        unfold utf8Step
        dsimp only [List.cons_append, List.nil_append, List.getElem?_cons_zero,
          List.getElem?_cons_succ]
        rw [first, second, third, if_neg (by omega), if_neg (by omega), if_pos (by omega)]
        have lowest : (if v / 4096 % 0x10 + 0xe0 = 0xe0 then 0xa0 else 0x80) ≤ v / 64 % 0x40 + 0x80 := by
          split <;> omega
        have highest : v / 64 % 0x40 + 0x80 ≤ (if v / 4096 % 0x10 + 0xe0 = 0xed then 0x9f else 0xbf) := by
          split <;> omega
        rw [if_pos ⟨lowest, highest⟩]
        dsimp only
        rw [if_pos (by omega)]
        dsimp only
        rw [whole, self]
        rfl
      · refine ⟨_, _, rfl, ?_⟩
        have first := octet (v / 262144 % 0x08 + 0xf0) (by omega)
        have second := octet (v / 4096 % 0x40 + 0x80) (by omega)
        have third := octet (v / 64 % 0x40 + 0x80) (by omega)
        have fourth := octet (v % 0x40 + 0x80) (by omega)
        have whole : (v / 262144 % 0x08 + 0xf0) % 8 * 262144 + (v / 4096 % 0x40 + 0x80) % 64 * 4096 +
            (v / 64 % 0x40 + 0x80) % 64 * 64 + (v % 0x40 + 0x80) % 64 = v := by omega
        unfold utf8Step
        dsimp only [List.cons_append, List.nil_append, List.getElem?_cons_zero,
          List.getElem?_cons_succ]
        rw [first, second, third, fourth, if_neg (by omega), if_neg (by omega), if_neg (by omega),
          if_pos (by omega)]
        have lowest : (if v / 262144 % 0x08 + 0xf0 = 0xf0 then 0x90 else 0x80) ≤
            v / 4096 % 0x40 + 0x80 := by
          split <;> omega
        have highest : v / 4096 % 0x40 + 0x80 ≤
            (if v / 262144 % 0x08 + 0xf0 = 0xf4 then 0x8f else 0xbf) := by
          split <;> omega
        rw [if_pos ⟨lowest, highest⟩]
        dsimp only
        rw [if_pos (by omega)]
        dsimp only
        rw [if_pos (by omega)]
        dsimp only
        rw [whole, self]
        rfl

theorem utf8Steps_encode (t : List Char) : utf8Steps (Utf8.encode t) 0 = t.map some := by
  induction t with
  | nil => rfl
  | cons c t ih =>
    obtain ⟨b, more, octets, step⟩ := utf8Step_encode c (Utf8.encode t)
    have skip : ∀ l rest : Bytes, utf8Steps (l ++ rest) l.length = utf8Steps rest 0 := by
      intro l rest
      induction l with
      | nil => rfl
      | cons b l ih => exact ih
    rw [Utf8.encode_cons, octets, List.cons_append, utf8Steps, step]
    dsimp only
    rw [Nat.add_sub_cancel, skip, ih]
    rfl

theorem fromUtf8Lossy_encode (t : List Char) : fromUtf8Lossy (Utf8.encode t) = String.ofList t := by
  rw [fromUtf8Lossy, utf8Steps_encode, List.map_map]
  exact congrArg String.ofList (List.map_id t)

/- One step. -/

/-- A continuation octet within the bounds. -/
def continued (rest : Bytes) (i lo hi : Nat) : Option Nat :=
  match rest[i]? with
  | some c => if lo ≤ c.toNat ∧ c.toNat ≤ hi then some (c.toNat % 64) else none
  | none => none

theorem continued_octet {rest : Bytes} {i lo hi n : Nat}
    (found : continued rest i lo hi = some n) :
    ∃ c, rest[i]? = some c ∧ lo ≤ c.toNat ∧ c.toNat ≤ hi ∧ n = c.toNat % 64 := by
  rw [continued] at found
  cases here : rest[i]? with
  | none => simp [here] at found
  | some c =>
    simp only [here] at found
    split at found
    · next bounds =>
      cases found
      exact ⟨c, rfl, bounds.1, bounds.2, rfl⟩
    · cases found

/-- A step that yields a character goes on behind each octet it asks for. -/
theorem continued_then {rest : Bytes} {i lo hi cut taken : Nat} {c : Char}
    {next : Nat → Option Char × Nat}
    (step : (match continued rest i lo hi with
      | none => (none, cut)
      | some n => next n) = (some c, taken)) :
    ∃ x, rest[i]? = some x ∧ (lo ≤ x.toNat ∧ x.toNat ≤ hi) ∧
      next (x.toNat % 64) = (some c, taken) := by
  cases found : continued rest i lo hi with
  | none => simp [found] at step
  | some n =>
    obtain ⟨x, there, low, high, rfl⟩ := continued_octet found
    rw [found] at step
    exact ⟨x, there, ⟨low, high⟩, step⟩

/-- An ASCII octet continues nothing. -/
theorem continued_ascii {a : Bytes} {e : UInt8} (ascii : e.toNat < 128) (t : Bytes) {i lo : Nat}
    (inside : i ≤ a.length) (high : 128 ≤ lo) (hi : Nat) :
    continued (a ++ e :: t) i lo hi = continued a i lo hi := by
  rcases Nat.lt_or_eq_of_le inside with front | rfl
  · rw [continued, continued, List.getElem?_append_left front]
  · have low : ¬ (lo ≤ e.toNat ∧ e.toNat ≤ hi) := by omega
    rw [continued, continued, List.getElem?_append_right (Nat.le_refl _), Nat.sub_self,
      List.getElem?_cons_zero, List.getElem?_eq_none (Nat.le_refl _)]
    exact if_neg low

theorem continued_then_ascii {a : Bytes} {e : UInt8} (ascii : e.toNat < 128) (t : Bytes)
    {i lo hi cut : Nat} {next next' : Nat → Option Char × Nat} (inside : i ≤ a.length)
    (high : 128 ≤ lo) (short : cut ≤ a.length + 1)
    (same : i < a.length → ∀ n, next n = next' n ∧ (next' n).2 ≤ a.length + 1) :
    (match continued (a ++ e :: t) i lo hi with
      | none => (none, cut)
      | some n => next n) =
        (match continued a i lo hi with
        | none => (none, cut)
        | some n => next' n) ∧
      (match continued a i lo hi with
        | none => (none, cut)
        | some n => next' n).2 ≤ a.length + 1 := by
  rw [continued_ascii ascii t inside high]
  cases found : continued a i lo hi with
  | none => exact ⟨rfl, short⟩
  | some n =>
    obtain ⟨_, there, _⟩ := continued_octet found
    exact same (List.getElem?_eq_some_iff.mp there).1 n

theorem utf8Step_eq (b : UInt8) (rest : Bytes) : utf8Step b rest =
    if b.toNat < 0x80 then (some (Char.ofNat b.toNat), 1)
    else if 0xc2 ≤ b.toNat ∧ b.toNat ≤ 0xdf then
      match continued rest 0 0x80 0xbf with
      | none => (none, 1)
      | some c => (some (Char.ofNat (b.toNat % 32 * 64 + c)), 2)
    else if 0xe0 ≤ b.toNat ∧ b.toNat ≤ 0xef then
      match continued rest 0 (if b.toNat = 0xe0 then 0xa0 else 0x80)
          (if b.toNat = 0xed then 0x9f else 0xbf) with
      | none => (none, 1)
      | some c =>
        match continued rest 1 0x80 0xbf with
        | none => (none, 2)
        | some d => (some (Char.ofNat (b.toNat % 16 * 4096 + c * 64 + d)), 3)
    else if 0xf0 ≤ b.toNat ∧ b.toNat ≤ 0xf4 then
      match continued rest 0 (if b.toNat = 0xf0 then 0x90 else 0x80)
          (if b.toNat = 0xf4 then 0x8f else 0xbf) with
      | none => (none, 1)
      | some c =>
        match continued rest 1 0x80 0xbf with
        | none => (none, 2)
        | some d =>
          match continued rest 2 0x80 0xbf with
          | none => (none, 3)
          | some e => (some (Char.ofNat (b.toNat % 8 * 262144 + c * 4096 + d * 64 + e)), 4)
    else (none, 1) := by
  unfold utf8Step
  dsimp only
  split
  · rfl
  split
  · -- here alone the source looks for an octet before it looks for none
    rw [continued]
    cases rest[0]? with
    | none => rfl
    | some c =>
      by_cases inside : 0x80 ≤ c.toNat ∧ c.toNat ≤ 0xbf
      · simp only [if_pos inside]
      · simp only [if_neg inside]
  · rfl

/-- What a step has read that yields a character. -/
inductive CharStep (b : UInt8) (rest : Bytes) : Char → Nat → Prop
  | one (ascii : b.toNat < 0x80) : CharStep b rest (Char.ofNat b.toNat) 1
  | two {x : UInt8} (first : 0xc2 ≤ b.toNat ∧ b.toNat ≤ 0xdf) (there : rest[0]? = some x)
      (second : 0x80 ≤ x.toNat ∧ x.toNat ≤ 0xbf) :
      CharStep b rest (Char.ofNat (b.toNat % 32 * 64 + x.toNat % 64)) 2
  | three {x y : UInt8} (first : 0xe0 ≤ b.toNat ∧ b.toNat ≤ 0xef)
      (there : rest[0]? = some x) (there' : rest[1]? = some y)
      (second : (if b.toNat = 0xe0 then 0xa0 else 0x80) ≤ x.toNat ∧
        x.toNat ≤ if b.toNat = 0xed then 0x9f else 0xbf)
      (third : 0x80 ≤ y.toNat ∧ y.toNat ≤ 0xbf) :
      CharStep b rest
        (Char.ofNat (b.toNat % 16 * 4096 + x.toNat % 64 * 64 + y.toNat % 64)) 3
  | four {x y z : UInt8} (first : 0xf0 ≤ b.toNat ∧ b.toNat ≤ 0xf4)
      (there : rest[0]? = some x) (there' : rest[1]? = some y) (there'' : rest[2]? = some z)
      (second : (if b.toNat = 0xf0 then 0x90 else 0x80) ≤ x.toNat ∧
        x.toNat ≤ if b.toNat = 0xf4 then 0x8f else 0xbf)
      (third : 0x80 ≤ y.toNat ∧ y.toNat ≤ 0xbf) (fourth : 0x80 ≤ z.toNat ∧ z.toNat ≤ 0xbf) :
      CharStep b rest (Char.ofNat
        (b.toNat % 8 * 262144 + x.toNat % 64 * 4096 + y.toNat % 64 * 64 + z.toNat % 64)) 4

theorem charStep_of_utf8Step {b : UInt8} {rest : Bytes} {c : Char} {taken : Nat}
    (step : utf8Step b rest = (some c, taken)) : CharStep b rest c taken := by
  rw [utf8Step_eq] at step
  split at step
  · next ascii =>
    cases step
    exact .one ascii
  split at step
  · next range =>
    obtain ⟨x, there, second, step⟩ := continued_then step
    cases step
    exact .two range there second
  split at step
  · next range =>
    obtain ⟨x, there, second, step⟩ := continued_then step
    obtain ⟨y, there', third, step⟩ := continued_then step
    cases step
    exact .three range there there' second third
  split at step
  · next range =>
    obtain ⟨x, there, second, step⟩ := continued_then step
    obtain ⟨y, there', third, step⟩ := continued_then step
    obtain ⟨z, there'', fourth, step⟩ := continued_then step
    cases step
    exact .four range there there' there'' second third fourth
  · cases step

/-- A step ends where an ASCII octet comes. -/
theorem utf8Step_ascii (b : UInt8) (a : Bytes) {e : UInt8} (ascii : e.toNat < 128) (t : Bytes) :
    utf8Step b (a ++ e :: t) = utf8Step b a ∧ (utf8Step b a).2 ≤ a.length + 1 := by
  have lowest : 128 ≤ if b.toNat = 0xe0 then 0xa0 else 0x80 := by split <;> omega
  have lowest' : 128 ≤ if b.toNat = 0xf0 then 0x90 else 0x80 := by split <;> omega
  rw [utf8Step_eq, utf8Step_eq]
  split
  · exact ⟨rfl, by omega⟩
  split
  · refine continued_then_ascii ascii t (Nat.zero_le _) (Nat.le_refl _) (by omega) ?_
    exact fun inside _ => ⟨rfl, by dsimp only; omega⟩
  split
  · refine continued_then_ascii ascii t (Nat.zero_le _) lowest (by omega) (fun inside _ => ?_)
    refine continued_then_ascii ascii t inside (Nat.le_refl _) (by omega) (fun inside _ => ?_)
    exact ⟨rfl, by dsimp only; omega⟩
  split
  · refine continued_then_ascii ascii t (Nat.zero_le _) lowest' (by omega) (fun inside _ => ?_)
    refine continued_then_ascii ascii t inside (Nat.le_refl _) (by omega) (fun inside _ => ?_)
    refine continued_then_ascii ascii t inside (Nat.le_refl _) (by omega) (fun inside _ => ?_)
    exact ⟨rfl, by dsimp only; omega⟩
  · exact ⟨rfl, by omega⟩

/-- An ASCII character is read from its octet and from no other. -/
theorem utf8Step_char {b : UInt8} {rest : Bytes} {c : Char} (ascii : c.toNat < 128)
    (nonzero : c.toNat ≠ 0) (read : (utf8Step b rest).1 = some c) : b.toNat = c.toNat := by
  have value : ∀ {n : Nat}, Char.ofNat n = c → n = c.toNat := by
    rintro n rfl
    by_cases valid : n.isValidChar
    · rw [Char.ofNat, dif_pos valid]
      rfl
    · rw [Char.ofNat, dif_neg valid] at nonzero
      exact absurd rfl nonzero
  obtain ⟨taken, step⟩ : ∃ taken, CharStep b rest c taken :=
    ⟨_, charStep_of_utf8Step (Prod.ext read rfl)⟩
  cases step with
  | one => exact value rfl
  | two first =>
    have := value rfl
    omega
  | three first there there' second =>
    have := value rfl
    grind
  | four first there there' there'' second =>
    have := value rfl
    grind

/- All steps. -/

theorem utf8Steps_ascii {a : Bytes} {e : UInt8} (ascii : e.toNat < 128) (t : Bytes) {skip : Nat}
    (inside : skip ≤ a.length) :
    utf8Steps (a ++ e :: t) skip = utf8Steps a skip ++ some (Char.ofNat e.toNat) :: utf8Steps t 0 := by
  induction a generalizing skip with
  | nil =>
    obtain rfl := Nat.le_zero.mp inside
    have step : utf8Step e t = (some (Char.ofNat e.toNat), 1) := by
      rw [utf8Step_eq, if_pos ascii]
    change (utf8Step e t).1 :: utf8Steps t ((utf8Step e t).2 - 1) = _
    rw [step]
    rfl
  | cons b a ih =>
    cases skip with
    | succ skip => exact ih (Nat.le_of_succ_le_succ inside)
    | zero =>
      obtain ⟨same, short⟩ := utf8Step_ascii b a ascii t
      rw [List.cons_append, utf8Steps, same, ih (by omega), utf8Steps]
      rfl

theorem utf8Steps_char {bs : Bytes} {skip : Nat} {c : Char} (ascii : c.toNat < 128)
    (nonzero : c.toNat ≠ 0) (read : some c ∈ utf8Steps bs skip) : ∃ b ∈ bs, b.toNat = c.toNat := by
  induction bs generalizing skip with
  | nil => cases read
  | cons b rest ih =>
    have later : ∀ {skip : Nat}, some c ∈ utf8Steps rest skip →
        ∃ d ∈ b :: rest, d.toNat = c.toNat := by
      intro skip member
      obtain ⟨d, inside, same⟩ := ih member
      exact ⟨d, List.mem_cons_of_mem b inside, same⟩
    cases skip with
    | succ skip => exact later read
    | zero =>
      rw [utf8Steps, List.mem_cons] at read
      rcases read with here | there
      · exact ⟨b, List.mem_cons_self, utf8Step_char ascii nonzero here.symm⟩
      · exact later there

/-- The characters that are read. -/
def lossy (bs : Bytes) : List Char := (fromUtf8Lossy bs).toList

theorem lossy_eq (bs : Bytes) :
    lossy bs = (utf8Steps bs 0).map fun c => c.getD (Char.ofNat 0xfffd) := by
  rw [lossy, fromUtf8Lossy, String.toList_ofList]

theorem lossy_encode (t : List Char) : lossy (Utf8.encode t) = t := by
  rw [lossy, fromUtf8Lossy_encode, String.toList_ofList]

theorem lossy_ascii (a : Bytes) {e : UInt8} (ascii : e.toNat < 128) (t : Bytes) :
    lossy (a ++ e :: t) = lossy a ++ Char.ofNat e.toNat :: lossy t := by
  rw [lossy_eq, utf8Steps_ascii ascii t (Nat.zero_le _), List.map_append, List.map_cons, lossy_eq,
    lossy_eq]
  rfl

theorem mem_lossy {bs : Bytes} {c : Char} (ascii : c.toNat < 128) (nonzero : c.toNat ≠ 0)
    (member : c ∈ lossy bs) : ∃ b ∈ bs, b.toNat = c.toNat := by
  rw [lossy_eq] at member
  obtain ⟨read, inside, same⟩ := List.mem_map.mp member
  cases read with
  | none =>
    rw [← same] at ascii
    exact absurd ascii (by decide)
  | some d =>
    obtain rfl : d = c := same
    exact utf8Steps_char ascii nonzero inside

end BitBeak
