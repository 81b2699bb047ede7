import BitBeak.Lib.Bytes
import Mathlib.Data.Nat.ModEq

/-! Sums of 16-bit words whose carries are added back in (one's complement). Adding a
carry back keeps the remainder modulo 65535, so the folded sum is that remainder,
except that a sum above zero never folds to zero: of the two zeros of the arithmetic
it takes the other one. -/
namespace Wire

/-- What is left of a sum when all its carries have been added back. -/
def carried (sum : Nat) : Nat := if sum = 0 then 0 else (sum - 1) % 65535 + 1

/-- The 16-bit words of a string, high octet first; an odd octet at the end is high. -/
def wordSum : Bytes → Nat
  | [] => 0
  | [high] => high.toNat * 256
  | high :: low :: rest => high.toNat * 256 + low.toNat + wordSum rest

/-- What one unit of the octet at `i` counts in its word. -/
def octetWeight (i : Nat) : Nat := if i % 2 = 0 then 256 else 1

/-- The string with bit `k` of the octet at `i` turned over; bit 0 is the lowest. -/
def flipBit (bs : Bytes) (i k : Nat) : Bytes :=
  overwrite bs i [octet bs i ^^^ UInt8.ofNat (2 ^ k)]

theorem octetWeight_even {i : Nat} (even : i % 2 = 0) : octetWeight i = 256 := if_pos even

theorem octetWeight_odd {i : Nat} (odd : i % 2 = 1) : octetWeight i = 1 := if_neg (by omega)

theorem carried_le (sum : Nat) : carried sum ≤ 65535 := by
  unfold carried
  split <;> omega

theorem carried_of_small {sum : Nat} (small : sum < 2 ^ 16) : carried sum = sum := by
  unfold carried
  split <;> omega

theorem carried_fold {sum : Nat} (carry : 2 ^ 16 ≤ sum) :
    carried (sum % 2 ^ 16 + sum / 2 ^ 16) = carried sum := by
  unfold carried
  rw [if_neg (by omega), if_neg (by omega)]
  omega

theorem mod_of_carried_eq {a b : Nat} (same : carried a = carried b) :
    a % 65535 = b % 65535 := by
  unfold carried at same
  split at same <;> split at same <;> omega

/-- A sum that one bit of one word went into or out of folds to another value. -/
theorem carried_ne_of_bit {a b k : Nat} (bit : k < 16) (changed : b = a + 2 ^ k ∨ a = b + 2 ^ k) :
    carried a ≠ carried b := by
  intro same
  have residue := mod_of_carried_eq same
  have positive : 0 < 2 ^ k := Nat.two_pow_pos k
  have below : 2 ^ k ≤ 2 ^ 15 := Nat.pow_le_pow_right (by decide) (by omega)
  omega

theorem wordSum_drop {bs : Bytes} {i : Nat} (even : i % 2 = 0) (inside : i + 1 < bs.length) :
    wordSum (bs.drop i) = beAt bs i 2 + wordSum (bs.drop (i + 2)) := by
  obtain ⟨high, low, rest, known⟩ : ∃ high low rest, bs.drop i = high :: low :: rest := by
    match found : bs.drop i with
    | [] | [_] =>
      have width := congrArg List.length found
      simp only [List.length_drop, List.length_cons, List.length_nil] at width
      omega
    | high :: low :: rest => exact ⟨high, low, rest, rfl⟩
  have word : beAt bs i 2 = high.toNat * 256 + low.toNat := by
    have here : span bs i (i + 2) = [high, low] := by
      rw [span, known, Nat.add_sub_cancel_left]
      rfl
    rw [beAt, here]
    simp only [ofBE, List.reverse_cons, List.reverse_nil, List.nil_append, List.cons_append, ofLE]
    omega
  have behind : bs.drop (i + 2) = rest := by
    rw [← List.drop_drop, known]
    rfl
  rw [known, wordSum, word, behind]

/-- One octet written over another moves the sum by their difference, at its weight. -/
theorem wordSum_overwrite {bs : Bytes} {i : Nat} (b : UInt8) (inside : i < bs.length) :
    wordSum (overwrite bs i [b]) + octetWeight i * (octet bs i).toNat =
      wordSum bs + octetWeight i * b.toNat := by
  induction bs using wordSum.induct generalizing i with
  | case1 => cases inside
  | case2 high =>
    have first : i = 0 := by
      rw [List.length_singleton] at inside
      omega
    subst first
    rw [octetWeight_even rfl]
    simp only [overwrite, octet, List.take_zero, List.nil_append, List.length_cons,
      List.length_nil, List.drop_succ_cons, List.drop_nil, List.append_nil, List.getD_cons_zero,
      wordSum]
    omega
  | case3 high low rest ih =>
    rcases i with _ | _ | i
    · rw [octetWeight_even rfl]
      simp only [overwrite, octet, List.take_zero, List.nil_append, List.length_cons,
        List.length_nil, List.drop_succ_cons, List.drop_zero, List.cons_append,
        List.getD_cons_zero, wordSum]
      omega
    · rw [octetWeight_odd rfl]
      simp only [overwrite, octet, List.take_succ_cons, List.take_zero,
        List.cons_append, List.nil_append, List.length_cons, List.length_nil,
        List.drop_succ_cons, List.drop_zero, List.getD_cons_succ, List.getD_cons_zero, wordSum]
      omega
    · have further := ih (i := i) (by simpa using inside)
      have weight : octetWeight (i + 2) = octetWeight i := by
        unfold octetWeight
        rw [Nat.add_mod_right]
      have tail : overwrite (high :: low :: rest) (i + 2) [b] =
          high :: low :: overwrite rest i [b] := by
        simp only [overwrite, List.take_succ_cons, List.cons_append, List.length_cons,
          List.length_nil, Nat.zero_add]
        rw [show i + 2 + 1 = i + 1 + 1 + 1 by omega, List.drop_succ_cons, List.drop_succ_cons]
      have read : octet (high :: low :: rest) (i + 2) = octet rest i := by
        simp only [octet, List.getD_cons_succ]
      rw [tail, read, weight, wordSum, wordSum]
      omega

/- Octets written over others, one by one. -/

theorem getElem?_overwrite {bs xs : Bytes} {i : Nat} (inside : i + xs.length ≤ bs.length)
    (j : Nat) : (overwrite bs i xs)[j]? =
      if j < i then bs[j]? else if j < i + xs.length then xs[j - i]? else bs[j]? := by
  have front : (bs.take i).length = i := by rw [List.length_take, Nat.min_eq_left (by omega)]
  unfold overwrite
  split
  · next before => rw [List.getElem?_append_left (by omega), List.getElem?_take_of_lt before]
  · next behind =>
    rw [List.getElem?_append_right (by omega), front]
    split
    · next here => rw [List.getElem?_append_left (by omega)]
    · next after =>
      rw [List.getElem?_append_right (by omega), List.getElem?_drop]
      congr 1
      omega

theorem octet_overwrite_here {bs : Bytes} {i : Nat} (b : UInt8) (inside : i < bs.length) :
    octet (overwrite bs i [b]) i = b := by
  have room : i + [b].length ≤ bs.length := inside
  rw [octet, List.getD_eq_getElem?_getD, getElem?_overwrite room, if_neg (by omega),
    if_pos (by simp), Nat.sub_self]
  rfl

theorem octet_overwrite_apart {bs xs : Bytes} {i j : Nat} (inside : i + xs.length ≤ bs.length)
    (apart : j < i ∨ i + xs.length ≤ j) : octet (overwrite bs i xs) j = octet bs j := by
  rw [octet, octet, List.getD_eq_getElem?_getD, List.getD_eq_getElem?_getD,
    getElem?_overwrite inside]
  rcases apart with before | behind
  · rw [if_pos before]
  · rw [if_neg (by omega), if_neg (by omega)]

/-- Two places that do not meet are written in any order. -/
theorem overwrite_comm {bs xs ys : Bytes} {i j : Nat} (first : i + xs.length ≤ bs.length)
    (second : j + ys.length ≤ bs.length) (apart : i + xs.length ≤ j ∨ j + ys.length ≤ i) :
    overwrite (overwrite bs i xs) j ys = overwrite (overwrite bs j ys) i xs := by
  apply List.ext_getElem?
  intro n
  rw [getElem?_overwrite (by rwa [length_overwrite first]), getElem?_overwrite first,
    getElem?_overwrite (by rwa [length_overwrite second]), getElem?_overwrite second]
  split_ifs <;> first | rfl | omega

/-- What is written over is forgotten. -/
theorem overwrite_again {bs xs ys : Bytes} {i j : Nat} (room : j + ys.length ≤ bs.length)
    (covered : j ≤ i ∧ i + xs.length ≤ j + ys.length) :
    overwrite (overwrite bs i xs) j ys = overwrite bs j ys := by
  have first : i + xs.length ≤ bs.length := by omega
  apply List.ext_getElem?
  intro n
  rw [getElem?_overwrite (by rwa [length_overwrite first]), getElem?_overwrite first,
    getElem?_overwrite room]
  split_ifs <;> first | rfl | omega

theorem span_overwrite {bs xs : Bytes} {i j n : Nat} (within : i + n + xs.length ≤ j)
    (inside : j ≤ bs.length) :
    span (overwrite bs (i + n) xs) i j = overwrite (span bs i j) n xs := by
  have room : n + xs.length ≤ (span bs i j).length := by
    rw [length_span inside]
    omega
  apply List.ext_getElem?
  intro m
  rw [getElem?_overwrite room]
  simp only [span, List.getElem?_take, List.getElem?_drop]
  rw [getElem?_overwrite (by omega)]
  have place : i + m - (i + n) = m - n := by omega
  rw [place]
  split_ifs <;> first | rfl | omega

/- One bit turned over. -/

theorem octet_flip (b : UInt8) {k : Nat} (bit : k < 8) :
    (b ^^^ UInt8.ofNat (2 ^ k)).toNat = b.toNat + 2 ^ k ∨
      b.toNat = (b ^^^ UInt8.ofNat (2 ^ k)).toNat + 2 ^ k := by
  have every : ∀ k < 8, ∀ n < 256, n ^^^ 2 ^ k = n + 2 ^ k ∨ n = (n ^^^ 2 ^ k) + 2 ^ k := by
    decide +kernel
  have power : 2 ^ k < 256 := by
    have := Nat.pow_lt_pow_right (by decide : 1 < 2) bit
    omega
  have mask : (UInt8.ofNat (2 ^ k)).toNat = 2 ^ k := by
    rw [UInt8.toNat_ofNat', Nat.mod_eq_of_lt power]
  rw [UInt8.toNat_xor, mask]
  exact every k bit b.toNat b.toNat_lt

theorem length_flipBit {bs : Bytes} {i k : Nat} (inside : i < bs.length) :
    (flipBit bs i k).length = bs.length :=
  length_overwrite inside

theorem wordSum_flipBit {bs : Bytes} {i k : Nat} (inside : i < bs.length) (bit : k < 8) :
    ∃ j < 16, wordSum (flipBit bs i k) = wordSum bs + 2 ^ j ∨
      wordSum bs = wordSum (flipBit bs i k) + 2 ^ j := by
  have moved := wordSum_overwrite (octet bs i ^^^ UInt8.ofNat (2 ^ k)) inside
  rw [← flipBit] at moved
  by_cases even : i % 2 = 0
  · have weight : octetWeight i = 2 ^ 8 := octetWeight_even even
    have place : 2 ^ (8 + k) = 2 ^ 8 * 2 ^ k := Nat.pow_add 2 8 k
    refine ⟨8 + k, by omega, ?_⟩
    rw [weight] at moved
    rcases octet_flip (octet bs i) bit with up | down
    · left
      omega
    · right
      omega
  · have weight : octetWeight i = 1 := octetWeight_odd (by omega)
    refine ⟨k, by omega, ?_⟩
    rw [weight] at moved
    rcases octet_flip (octet bs i) bit with up | down
    · left
      omega
    · right
      omega

theorem beAt_wordSum {bs : Bytes} {i : Nat} (inside : i + 2 ≤ bs.length) :
    beAt bs i 2 = wordSum (span bs i (i + 2)) := by
  have width := length_span (i := i) inside
  have word : wordSum ((span bs i (i + 2)).drop 0) =
      beAt (span bs i (i + 2)) 0 2 + wordSum ((span bs i (i + 2)).drop (0 + 2)) :=
    wordSum_drop rfl (by omega)
  rw [beAt_span (by omega), List.drop_zero, List.drop_eq_nil_of_le (by omega), wordSum] at word
  exact word.symm

/-- The word that has the bit reads otherwise. -/
theorem beAt_flipBit_here {bs : Bytes} {i n k : Nat} (inside : i + 2 ≤ bs.length) (within : n < 2)
    (bit : k < 8) : beAt (flipBit bs (i + n) k) i 2 ≠ beAt bs i 2 := by
  have cut : span (flipBit bs (i + n) k) i (i + 2) = flipBit (span bs i (i + 2)) n k := by
    rw [flipBit, flipBit, octet_span (by omega)]
    exact span_overwrite (by change i + n + 1 ≤ _; omega) inside
  have width := length_span (i := i) inside
  obtain ⟨j, _, moved⟩ := @wordSum_flipBit (span bs i (i + 2)) n k (by omega) bit
  have positive : 0 < 2 ^ j := Nat.two_pow_pos j
  rw [beAt_wordSum (by rwa [length_flipBit (by omega)]), beAt_wordSum inside, cut]
  omega

theorem beAt_flipBit_apart {bs : Bytes} {i n k : Nat} (room : n < bs.length)
    (apart : n < i ∨ i + 2 ≤ n) :
    beAt (flipBit bs n k) i 2 = beAt bs i 2 := by
  rcases apart with before | after
  · rw [beAt, flipBit, span_overwrite_after (by exact room) (by exact before) (by omega)]
    rfl
  · rw [beAt, flipBit, span_overwrite_before (by omega) after]
    rfl

end Wire
