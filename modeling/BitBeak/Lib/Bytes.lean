import Mathlib.Algebra.Group.Int.Defs
import Mathlib.Algebra.GroupWithZero.Nat
import Mathlib.Tactic.Common

/-! Byte strings whose reads are checked: a read outside the string is a fault,
never a default value. Every checked read has a total twin that agrees with it
inside the string; proofs move to the twin and then reason about lists. -/
namespace Wire

abbrev Bytes := List UInt8

/-- What ends a run early: an index or slice outside the string, a subtraction
below zero, or a loop that used up the steps it was given. -/
inductive Fault where
  | outOfRange
  | underflow
  | outOfFuel
  deriving DecidableEq, Repr

/- Numbers of a fixed number of octets, in both orders. -/

def ofLE : Bytes → Nat
  | [] => 0
  | b :: bs => b.toNat + 256 * ofLE bs

def ofBE (bs : Bytes) : Nat := ofLE bs.reverse

def toLE : Nat → Nat → Bytes
  | 0, _ => []
  | k + 1, n => UInt8.ofNat (n % 256) :: toLE k (n / 256)

def toBE (k n : Nat) : Bytes := (toLE k n).reverse

@[simp] theorem length_toLE (k n : Nat) : (toLE k n).length = k := by
  induction k generalizing n with
  | zero => rfl
  | succ k ih => simp only [toLE, List.length_cons, ih]

@[simp] theorem length_toBE (k n : Nat) : (toBE k n).length = k := by
  simp only [toBE, List.length_reverse, length_toLE]

theorem ofLE_toLE {k n : Nat} (small : n < 256 ^ k) : ofLE (toLE k n) = n := by
  induction k generalizing n with
  | zero =>
    have zero : n = 0 := by simpa using small
    simp only [toLE, ofLE, zero]
  | succ k ih =>
    have high : n / 256 < 256 ^ k := by
      apply Nat.div_lt_of_lt_mul
      rwa [Nat.pow_succ, Nat.mul_comm] at small
    have low : (UInt8.ofNat (n % 256)).toNat = n % 256 := by
      rw [UInt8.toNat_ofNat']
      omega
    simp only [toLE, ofLE, ih high, low]
    omega

theorem ofBE_toBE {k n : Nat} (small : n < 256 ^ k) : ofBE (toBE k n) = n := by
  rw [ofBE, toBE, List.reverse_reverse, ofLE_toLE small]

theorem toLE_ofLE (bs : Bytes) : toLE bs.length (ofLE bs) = bs := by
  induction bs with
  | nil => rfl
  | cons b bs ih =>
    have bound := b.toNat_lt
    have low : (b.toNat + 256 * ofLE bs) % 256 = b.toNat := by omega
    have high : (b.toNat + 256 * ofLE bs) / 256 = ofLE bs := by omega
    rw [List.length_cons, ofLE, toLE, low, high, ih, UInt8.ofNat_toNat]

theorem toBE_ofBE (bs : Bytes) : toBE bs.length (ofBE bs) = bs := by
  have reversed := toLE_ofLE bs.reverse
  rw [List.length_reverse] at reversed
  rw [toBE, ofBE, reversed, List.reverse_reverse]

theorem ofLE_lt (bs : Bytes) : ofLE bs < 256 ^ bs.length := by
  induction bs with
  | nil => decide
  | cons b bs ih =>
    have bound := b.toNat_lt
    rw [List.length_cons, ofLE, Nat.pow_succ]
    omega

theorem getElem?_toLE (k n i : Nat) :
    (toLE k n)[i]? = if i < k then some (UInt8.ofNat (n / 256 ^ i % 256)) else none := by
  induction k generalizing n i with
  | zero => rfl
  | succ k ih =>
    cases i with
    | zero => rw [Nat.pow_zero, Nat.div_one, if_pos (by omega)]; rfl
    | succ i =>
      rw [toLE, List.getElem?_cons_succ, ih, Nat.div_div_eq_div_mul, Nat.pow_succ']
      simp only [Nat.succ_lt_succ_iff]

theorem getElem?_toBE (k n i : Nat) : (toBE k n)[i]? =
    if i < k then some (UInt8.ofNat (n / 256 ^ (k - 1 - i) % 256)) else none := by
  by_cases inside : i < k
  · rw [toBE, List.getElem?_reverse (by rw [length_toLE]; exact inside), length_toLE,
      getElem?_toLE, if_pos (by omega), if_pos inside]
  · rw [List.getElem?_eq_none (by rw [length_toBE]; omega), if_neg inside]

/- Total reads. They answer something outside the string as well; nothing is
proved about those answers. -/

def octet (bs : Bytes) (i : Nat) : UInt8 := bs.getD i 0

/-- The bytes `[i, j)`. -/
def span (bs : Bytes) (i j : Nat) : Bytes := (bs.drop i).take (j - i)

def beAt (bs : Bytes) (i k : Nat) : Nat := ofBE (span bs i (i + k))
def leAt (bs : Bytes) (i k : Nat) : Nat := ofLE (span bs i (i + k))

theorem length_span {bs : Bytes} {i j : Nat} (inside : j ≤ bs.length) :
    (span bs i j).length = j - i := by
  rw [span, List.length_take, List.length_drop]
  omega

theorem length_span_le (bs : Bytes) (i j : Nat) : (span bs i j).length ≤ j - i := by
  rw [span, List.length_take]
  exact Nat.min_le_left _ _

/- Checked reads. -/

@[simp] theorem ok_bind {α β : Type} (a : α) (f : α → Except Fault β) :
    (Except.ok a >>= f) = f a := rfl

@[simp] theorem pure_ok {α : Type} (a : α) : (pure a : Except Fault α) = .ok a := rfl

theorem ok_of_bind {ε α β : Type} {x : Except ε α} {f : α → Except ε β} {b : β}
    (ran : (x >>= f) = .ok b) : ∃ a, x = .ok a ∧ f a = .ok b := by
  cases x with
  | error fault => cases ran
  | ok a => exact ⟨a, rfl, ran⟩

theorem bind_of_ok {ε α β : Type} {x : Except ε α} {a : α} (done : x = .ok a)
    (f : α → Except ε β) : (x >>= f) = f a := by
  rw [done]
  rfl

/-- Every result of a pass over a list is that of its own element. -/
theorem mapM_getElem? {α β : Type} {f : α → Except Fault β} {xs : List α} {ys : List β}
    (ran : xs.mapM f = .ok ys) {i : Nat} {x : α} (found : xs[i]? = some x) :
    ∃ y, ys[i]? = some y ∧ f x = .ok y := by
  induction xs generalizing ys i with
  | nil => cases found
  | cons first rest ih =>
    rw [List.mapM_cons] at ran
    obtain ⟨y, done, ran⟩ := ok_of_bind ran
    obtain ⟨more, others, ran⟩ := ok_of_bind ran
    cases ran
    cases i with
    | zero =>
      cases found
      exact ⟨y, rfl, done⟩
    | succ i => exact ih others found

theorem mapM_ok {ε α β : Type} {f : α → Except ε β} {g : α → β} {xs : List α}
    (each : ∀ x ∈ xs, f x = .ok (g x)) : xs.mapM f = .ok (xs.map g) := by
  induction xs with
  | nil => rfl
  | cons x xs ih =>
    rw [List.mapM_cons, each x (List.mem_cons_self ..),
      ih fun y member => each y (List.mem_cons_of_mem x member)]
    rfl

def byteAt (bs : Bytes) (i : Nat) : Except Fault UInt8 :=
  match bs[i]? with
  | some b => .ok b
  | none => .error .outOfRange

def slice (bs : Bytes) (i j : Nat) : Except Fault Bytes :=
  if i ≤ j ∧ j ≤ bs.length then .ok (span bs i j) else .error .outOfRange

def sliceFrom (bs : Bytes) (i : Nat) : Except Fault Bytes :=
  if i ≤ bs.length then .ok (bs.drop i) else .error .outOfRange

def readBE (bs : Bytes) (i k : Nat) : Except Fault Nat := do
  return ofBE (← slice bs i (i + k))

def readLE (bs : Bytes) (i k : Nat) : Except Fault Nat := do
  return ofLE (← slice bs i (i + k))

/-- Subtraction of unsigned machine numbers. -/
def checkedSub (a b : Nat) : Except Fault Nat :=
  if b ≤ a then .ok (a - b) else .error .underflow

theorem byteAt_ok {bs : Bytes} {i : Nat} (inside : i < bs.length) :
    byteAt bs i = .ok (octet bs i) := by
  simp [byteAt, octet, List.getElem?_eq_getElem inside]

theorem slice_ok {bs : Bytes} {i j : Nat} (ordered : i ≤ j) (inside : j ≤ bs.length) :
    slice bs i j = .ok (span bs i j) :=
  if_pos ⟨ordered, inside⟩

theorem sliceFrom_ok {bs : Bytes} {i : Nat} (inside : i ≤ bs.length) :
    sliceFrom bs i = .ok (bs.drop i) :=
  if_pos inside

theorem readBE_ok {bs : Bytes} {i k : Nat} (inside : i + k ≤ bs.length) :
    readBE bs i k = .ok (beAt bs i k) := by
  rw [readBE, slice_ok (Nat.le_add_right i k) inside]
  rfl

theorem readLE_ok {bs : Bytes} {i k : Nat} (inside : i + k ≤ bs.length) :
    readLE bs i k = .ok (leAt bs i k) := by
  rw [readLE, slice_ok (Nat.le_add_right i k) inside]
  rfl

theorem checkedSub_ok {a b : Nat} (h : b ≤ a) : checkedSub a b = .ok (a - b) :=
  if_pos h

/-- What lies past the first `n` bytes, or nothing. -/
def tailOrEmpty (bs : Bytes) (n : Nat) : Except Fault Bytes :=
  if n < bs.length then sliceFrom bs n else .ok []

theorem tailOrEmpty_ok (bs : Bytes) (n : Nat) : tailOrEmpty bs n = .ok (bs.drop n) := by
  unfold tailOrEmpty
  split
  · exact sliceFrom_ok (by omega)
  · rw [List.drop_eq_nil_of_le (by omega)]

/- Reads of a concatenation stay in the part they point at. -/

theorem octet_append_right {xs ys : Bytes} {i : Nat} (h : xs.length ≤ i) :
    octet (xs ++ ys) i = octet ys (i - xs.length) := by
  simp [octet, List.getElem?_append_right h]

theorem span_append_left {xs ys : Bytes} {i j : Nat} (h : j ≤ xs.length) :
    span (xs ++ ys) i j = span xs i j := by
  by_cases hi : i ≤ xs.length
  · rw [span, span, List.drop_append_of_le_length hi, List.take_append_of_le_length]
    rw [List.length_drop]
    omega
  · have empty : j - i = 0 := by omega
    rw [span, span, empty, List.take_zero, List.take_zero]

theorem span_append_right {xs ys : Bytes} {i j : Nat} (h : xs.length ≤ i) :
    span (xs ++ ys) i j = span ys (i - xs.length) (j - xs.length) := by
  rw [span, span, List.drop_append, List.drop_eq_nil_of_le h, List.nil_append]
  congr 1
  omega

theorem beAt_append_left {xs ys : Bytes} {i k : Nat} (h : i + k ≤ xs.length) :
    beAt (xs ++ ys) i k = beAt xs i k := by
  rw [beAt, beAt, span_append_left h]

theorem beAt_append_right {xs ys : Bytes} {i k : Nat} (h : xs.length ≤ i) :
    beAt (xs ++ ys) i k = beAt ys (i - xs.length) k := by
  have width : i + k - xs.length = i - xs.length + k := by omega
  rw [beAt, beAt, span_append_right h, width]

theorem beAt_succ {bs : Bytes} {i k : Nat} (inside : i + k < bs.length) :
    beAt bs i (k + 1) = beAt bs i k * 256 + (octet bs (i + k)).toNat := by
  have cut : span bs i (i + (k + 1)) = span bs i (i + k) ++ [octet bs (i + k)] := by
    rw [span, span, Nat.add_sub_cancel_left, Nat.add_sub_cancel_left, List.take_add_one,
      List.getElem?_drop]
    simp [octet, inside]
  rw [beAt, beAt, cut, ofBE, ofBE, List.reverse_append, List.reverse_singleton,
    List.singleton_append, ofLE]
  omega

theorem beAt_lt (bs : Bytes) (i k : Nat) : beAt bs i k < 256 ^ k := by
  have bound := ofLE_lt (span bs i (i + k)).reverse
  have short : (span bs i (i + k)).reverse.length ≤ k := by
    simp only [List.length_reverse, span, List.length_take]
    omega
  exact Nat.lt_of_lt_of_le bound (Nat.pow_le_pow_right (by decide) short)

theorem leAt_lt (bs : Bytes) (i k : Nat) : leAt bs i k < 256 ^ k := by
  have short : (span bs i (i + k)).length ≤ k := by
    simp only [span, List.length_take]
    omega
  exact Nat.lt_of_lt_of_le (ofLE_lt _) (Nat.pow_le_pow_right (by decide) short)

theorem beAt_toBE {k n : Nat} {ys : Bytes} (small : n < 256 ^ k) :
    beAt (toBE k n ++ ys) 0 k = n := by
  have whole : span (toBE k n ++ ys) 0 (0 + k) = toBE k n := by
    rw [span_append_left (by rw [length_toBE]; omega), span, List.drop_zero, Nat.zero_add,
      Nat.sub_zero, List.take_of_length_le (Nat.le_of_eq (length_toBE k n))]
  rw [beAt, whole, ofBE_toBE small]

theorem leAt_append_right {xs ys : Bytes} {i k : Nat} (h : xs.length ≤ i) :
    leAt (xs ++ ys) i k = leAt ys (i - xs.length) k := by
  have width : i + k - xs.length = i - xs.length + k := by omega
  rw [leAt, leAt, span_append_right h, width]

theorem leAt_toLE {k n : Nat} {ys : Bytes} (small : n < 256 ^ k) :
    leAt (toLE k n ++ ys) 0 k = n := by
  have whole : span (toLE k n ++ ys) 0 (0 + k) = toLE k n := by
    rw [span_append_left (by rw [length_toLE]; omega), span, List.drop_zero, Nat.zero_add,
      Nat.sub_zero, List.take_of_length_le (Nat.le_of_eq (length_toLE k n))]
  rw [leAt, whole, ofLE_toLE small]

/-- The part of a string put together from three. -/
theorem span_middle {xs ys zs : Bytes} {i j : Nat} (start : i = xs.length)
    (stop : j = xs.length + ys.length) : span (xs ++ (ys ++ zs)) i j = ys := by
  have width : xs.length + ys.length - xs.length = ys.length := by omega
  rw [start, stop, span, List.drop_left, width, List.take_left]

/- Reads of a part are reads of the whole further on. -/

theorem octet_drop (bs : Bytes) (n i : Nat) : octet (bs.drop n) i = octet bs (n + i) := by
  simp [octet, List.getElem?_drop]

theorem span_drop (bs : Bytes) (n i j : Nat) : span (bs.drop n) i j = span bs (n + i) (n + j) := by
  rw [span, span, List.drop_drop, Nat.add_sub_add_left]

theorem beAt_drop (bs : Bytes) (n i k : Nat) : beAt (bs.drop n) i k = beAt bs (n + i) k := by
  rw [beAt, beAt, span_drop, Nat.add_assoc]

theorem span_span {bs : Bytes} {i j a b : Nat} (inside : i + b ≤ j) :
    span (span bs i j) a b = span bs (i + a) (i + b) := by
  rw [span, span, span, List.drop_take, List.drop_drop, List.take_take, Nat.add_sub_add_left,
    Nat.min_eq_left (by omega)]

theorem beAt_span {bs : Bytes} {i j a k : Nat} (inside : i + a + k ≤ j) :
    beAt (span bs i j) a k = beAt bs (i + a) k := by
  rw [beAt, beAt, span_span (by omega), Nat.add_assoc]

theorem octet_span {bs : Bytes} {i j a : Nat} (inside : i + a < j) :
    octet (span bs i j) a = octet bs (i + a) := by
  have within : a < j - i := by omega
  simp [octet, span, within, List.getElem?_drop]

theorem drop_span (bs : Bytes) (i j n : Nat) : (span bs i j).drop n = span bs (i + n) j := by
  rw [span, span, List.drop_take, List.drop_drop, Nat.sub_sub]

theorem span_end (bs : Bytes) (i : Nat) : span bs i bs.length = bs.drop i := by
  rw [span, List.take_of_length_le (Nat.le_of_eq List.length_drop)]

theorem drop_min_length (bs : Bytes) (n : Nat) : bs.drop (min n bs.length) = bs.drop n := by
  by_cases short : n ≤ bs.length
  · rw [Nat.min_eq_left short]
  · rw [Nat.min_eq_right (by omega), List.drop_length, List.drop_eq_nil_of_le (by omega)]

/-- A part is all the rest exactly when the rest ends where the part does. -/
theorem span_eq_drop_iff (bs : Bytes) (i j : Nat) :
    span bs i j = bs.drop i ↔ bs.length ≤ max i j := by
  constructor
  · intro whole
    have width := congrArg List.length whole
    rw [span, List.length_take, List.length_drop] at width
    omega
  · intro short
    rw [span, List.take_of_length_le]
    rw [List.length_drop]
    omega

theorem span_min_length {bs : Bytes} {j : Nat} (inside : j ≤ bs.length) (i : Nat) :
    span bs (min i bs.length) j = span bs i j := by
  by_cases short : i ≤ bs.length
  · rw [Nat.min_eq_left short]
  · have nothing : j - bs.length = 0 := by omega
    have none' : j - i = 0 := by omega
    rw [Nat.min_eq_right (by omega), span, span, nothing, none', List.take_zero, List.take_zero]

theorem drop_injective {bs : Bytes} {i j : Nat} (hi : i ≤ bs.length) (hj : j ≤ bs.length)
    (same : bs.drop i = bs.drop j) : i = j := by
  have width := congrArg List.length same
  rw [List.length_drop, List.length_drop] at width
  omega

theorem leAt_span {bs : Bytes} {i j a k : Nat} (inside : i + a + k ≤ j) :
    leAt (span bs i j) a k = leAt bs (i + a) k := by
  rw [leAt, leAt, span_span (by omega), Nat.add_assoc]

/- Octets written over others. -/

/-- The string with `xs` in place of what was at `i`. -/
def overwrite (bs : Bytes) (i : Nat) (xs : Bytes) : Bytes :=
  bs.take i ++ (xs ++ bs.drop (i + xs.length))

section
variable {bs xs : Bytes} {start i j : Nat}

theorem length_overwrite (inside : i + xs.length ≤ bs.length) :
    (overwrite bs i xs).length = bs.length := by
  simp only [overwrite, List.length_append, List.length_take, List.length_drop]
  omega

theorem span_overwrite_before (inside : start ≤ bs.length) (before : j ≤ start) :
    span (overwrite bs start xs) i j = span bs i j := by
  have front : (bs.take start).length = start := by rw [List.length_take, Nat.min_eq_left inside]
  rw [overwrite, span_append_left (by rw [front]; exact before)]
  conv_rhs => rw [← List.take_append_drop start bs]
  rw [span_append_left (by rw [front]; exact before)]

theorem span_overwrite_after (inside : start + xs.length ≤ bs.length)
    (after : start + xs.length ≤ i) (ordered : i ≤ j) :
    span (overwrite bs start xs) i j = span bs i j := by
  have front : (bs.take start).length = start := by
    rw [List.length_take, Nat.min_eq_left (by omega)]
  rw [overwrite, span_append_right (by omega), front, span_append_right (by omega), span_drop]
  congr 1 <;> omega

theorem span_overwrite_here (inside : start ≤ bs.length) :
    span (overwrite bs start xs) start (start + xs.length) = xs := by
  have front : (bs.take start).length = start := by rw [List.length_take, Nat.min_eq_left inside]
  rw [overwrite, span_middle front.symm (by rw [front])]

end

end Wire
