import Mathlib.Data.List.Infix

/-! Occurrences of a list in another: cutting at the first one, and splitting at all of them
from left to right. A pattern no part of which is both its beginning and its end has no two
occurrences that overlap. -/
namespace Occurrence

variable {α : Type} {pat : List α}

/- Where a pattern begins. -/

theorem prefix_past_iff {e : α} (outside : e ∉ pat) {a : List α} (t : List α) :
    pat <+: a ++ e :: t ↔ pat <+: a := by
  constructor
  · intro begins
    have front : a ++ [e] <+: a ++ e :: t := ⟨t, by simp⟩
    rcases Nat.le_total (a ++ [e]).length pat.length with long | short
    · have inside := List.prefix_of_prefix_length_le front begins long
      exact absurd (inside.subset (List.mem_append_right _ List.mem_cons_self)) outside
    · have inside := List.prefix_of_prefix_length_le begins front short
      rw [List.prefix_concat_iff] at inside
      rcases inside with rfl | inside
      · exact absurd (List.mem_append_right _ List.mem_cons_self) outside
      · exact inside
  · exact fun begins => begins.trans (List.prefix_append _ _)

theorem infix_append_cons {c : α} {a b : List α} (outside : c ∉ pat)
    (inside : pat <:+: a ++ c :: b) : pat <:+: a ∨ pat <:+: b := by
  obtain ⟨front, behind, whole⟩ := inside
  rw [List.append_assoc, List.append_eq_append_iff] at whole
  rcases whole with ⟨w, rfl, split⟩ | ⟨w, rfl, split⟩
  · rw [List.append_eq_append_iff] at split
    rcases split with ⟨w', rfl, _⟩ | ⟨w', rfl, split⟩
    · exact .inl ⟨front, w', List.append_assoc ..⟩
    · cases w' with
      | nil => exact .inl ⟨front, [], by simp⟩
      | cons d more =>
        cases (List.cons.inj split).1
        exact absurd (List.mem_append_right _ List.mem_cons_self) outside
  · cases w with
    | nil =>
      cases pat with
      | nil => exact .inl List.nil_infix
      | cons d more =>
        cases (List.cons.inj split).1
        exact absurd List.mem_cons_self outside
    | cons d more =>
      exact .inr ⟨more, behind, by rw [List.append_assoc]; exact (List.cons.inj split).2.symm⟩

/-- No part of the pattern but the whole is its beginning and its end. -/
def Borderless (pat : List α) : Prop := ∀ b, b <+: pat → b <:+ pat → b = [] ∨ b = pat

theorem Borderless.prefix_iff (borderless : Borderless pat) {s : List α} (some : s ≠ [])
    (t : List α) : pat <+: s ++ (pat ++ t) ↔ pat <+: s := by
  constructor
  · intro begins
    rcases Nat.le_total pat.length s.length with short | long
    · exact List.prefix_of_prefix_length_le begins (List.prefix_append _ _) short
    · obtain ⟨border, whole⟩ := List.prefix_of_prefix_length_le (List.prefix_append _ _) begins long
      have front : border <+: pat := by
        rw [← whole] at begins
        have inner := (List.prefix_append_right_inj s).mp begins
        refine List.prefix_of_prefix_length_le inner ?_ ?_
        · rw [whole]
          exact List.prefix_append _ _
        · rw [← whole, List.length_append]
          exact Nat.le_add_left _ _
      rcases borderless border front ⟨s, whole⟩ with rfl | same
      · rw [List.append_nil] at whole
        rw [whole]
      · rw [same] at whole
        exact absurd (List.append_left_eq_self.mp whole) some
  · exact fun begins => begins.trans (List.prefix_append _ _)

variable [BEq α]

/-- What stands in front of the first occurrence, and what stands behind it. -/
def cut (pat : List α) : List α → Option (List α × List α)
  | [] => none
  | c :: rest =>
    if pat.isPrefixOf (c :: rest) then some ([], (c :: rest).drop pat.length)
    else (cut pat rest).map fun x => (c :: x.1, x.2)

/-- The parts between the occurrences. `skip` elements in front belong to an occurrence, and
`part` is what the next part begins with. -/
def splitFrom (pat : List α) : Nat → List α → List α → List (List α)
  | _, part, [] => [part]
  | skip + 1, part, _ :: rest => splitFrom pat skip part rest
  | 0, part, c :: rest =>
    if pat.isPrefixOf (c :: rest) then part :: splitFrom pat (pat.length - 1) [] rest
    else splitFrom pat 0 (part ++ [c]) rest

def split (pat s : List α) : List (List α) := splitFrom pat 0 [] s

/- Parts. -/

theorem splitFrom_ne_nil (skip : Nat) (part s : List α) : splitFrom pat skip part s ≠ [] := by
  induction s generalizing skip part with
  | nil => cases skip <;> exact List.cons_ne_nil _ _
  | cons c rest ih =>
    cases skip with
    | succ skip => exact ih skip part
    | zero =>
      rw [splitFrom]
      split
      · exact List.cons_ne_nil _ _
      · exact ih 0 _

theorem splitFrom_skip (part l rest : List α) :
    splitFrom pat l.length part (l ++ rest) = splitFrom pat 0 part rest := by
  induction l with
  | nil => rfl
  | cons c l ih => exact ih

/-- Every part is a piece of the whole. -/
theorem splitFrom_infix {skip : Nat} {part s p : List α} (fresh : skip = 0 ∨ part = [])
    (member : p ∈ splitFrom pat skip part s) : p <:+: part ++ s := by
  induction s generalizing skip part with
  | nil =>
    have same : p = part := by
      cases skip <;> exact List.mem_singleton.mp member
    rw [same, List.append_nil]
  | cons c rest ih =>
    cases skip with
    | succ skip =>
      obtain rfl : part = [] := fresh.resolve_left (Nat.succ_ne_zero _)
      exact (ih (.inr rfl) member).trans (List.suffix_cons c rest).isInfix
    | zero =>
      rw [splitFrom] at member
      split at member
      · rcases List.mem_cons.mp member with rfl | later
        · exact (List.prefix_append _ _).isInfix
        · have inner : p <:+: rest := ih (.inr rfl) later
          exact inner.trans ⟨part ++ [c], [], by simp⟩
      · have inner := ih (.inl rfl) member
        rwa [List.append_assoc] at inner

theorem infix_of_mem_split {s p : List α} (member : p ∈ split pat s) : p <:+: s :=
  splitFrom_infix (.inl rfl) member

section

variable [LawfulBEq α]

/- The first occurrence. -/

theorem cut_eq_none_iff (nonempty : pat ≠ []) {s : List α} : cut pat s = none ↔ ¬ pat <:+: s := by
  induction s with
  | nil => simp [cut, nonempty]
  | cons c rest ih =>
    rw [cut, List.infix_cons_iff, ← List.isPrefixOf_iff_prefix]
    split
    · next begins => simp [begins]
    · next other => simp [other, ih]

theorem cut_self (nonempty : pat ≠ []) (t : List α) : cut pat (pat ++ t) = some ([], t) := by
  obtain ⟨c, rest, rfl⟩ := List.exists_cons_of_ne_nil nonempty
  have begins : (c :: rest).isPrefixOf (c :: (rest ++ t)) = true :=
    List.isPrefixOf_iff_prefix.mpr (List.prefix_append (c :: rest) t)
  rw [List.cons_append, cut, if_pos begins, ← List.cons_append, List.drop_left]

/-- An element that the pattern does not have ends what has no occurrence. -/
theorem cut_past {e : α} (outside : e ∉ pat) {a : List α} (none : ¬ pat <:+: a) (t : List α) :
    cut pat (a ++ e :: t) = (cut pat t).map fun x => (a ++ e :: x.1, x.2) := by
  induction a with
  | nil =>
    have other : ¬ pat.isPrefixOf (e :: t) = true := by
      rw [List.isPrefixOf_iff_prefix, ← List.nil_append (e :: t), prefix_past_iff outside]
      exact fun begins => none begins.isInfix
    rw [List.nil_append, cut, if_neg other]
    rfl
  | cons c a ih =>
    have other : ¬ pat.isPrefixOf (c :: (a ++ e :: t)) = true := by
      rw [List.isPrefixOf_iff_prefix, ← List.cons_append, prefix_past_iff outside]
      exact fun begins => none begins.isInfix
    have inner : ¬ pat <:+: a := fun inside => none (inside.trans (List.suffix_cons c a).isInfix)
    rw [List.cons_append, cut, if_neg other, ih inner, Option.map_map]
    rfl

/-- Nothing begins where the pattern's first element is not. -/
theorem cut_outside {c : α} {front : List α} (outside : c ∉ front) (t : List α) :
    cut (c :: pat) (front ++ t) = (cut (c :: pat) t).map fun x => (front ++ x.1, x.2) := by
  induction front with
  | nil =>
    rw [List.nil_append]
    exact Option.map_id'.symm
  | cons d rest ih =>
    have other : ¬ (c :: pat).isPrefixOf (d :: (rest ++ t)) = true := by
      intro begins
      obtain ⟨more, whole⟩ := List.isPrefixOf_iff_prefix.mp begins
      exact outside ((List.cons.inj whole).1 ▸ List.mem_cons_self)
    rw [List.cons_append, cut, if_neg other,
      ih fun member => outside (List.mem_cons_of_mem d member), Option.map_map]
    rfl

/-- The first occurrence is where an element outside the pattern ends a front without one. -/
theorem cut_front (nonempty : pat ≠ []) {a : List α} {e : α} (outside : e ∉ pat)
    (none : ¬ pat <:+: a) (t : List α) :
    cut pat (a ++ [e] ++ (pat ++ t)) = some (a ++ [e], t) := by
  rw [List.append_assoc, List.singleton_append, cut_past outside none, cut_self nonempty]
  rfl

/-- A pattern without borders is found behind what has no occurrence. -/
theorem cut_borderless (nonempty : pat ≠ []) (borderless : Borderless pat) {a : List α}
    (none : ¬ pat <:+: a) (t : List α) : cut pat (a ++ (pat ++ t)) = some (a, t) := by
  induction a with
  | nil => exact cut_self nonempty t
  | cons c a ih =>
    have other : ¬ pat.isPrefixOf (c :: (a ++ (pat ++ t))) = true := by
      rw [List.isPrefixOf_iff_prefix, ← List.cons_append,
        borderless.prefix_iff (List.cons_ne_nil c a)]
      exact fun begins => none begins.isInfix
    have inner : ¬ pat <:+: a := fun inside => none (inside.trans (List.suffix_cons c a).isInfix)
    rw [List.cons_append, cut, if_neg other, ih inner]
    rfl

theorem eq_of_cut {s a b : List α} (found : cut pat s = some (a, b)) : s = a ++ (pat ++ b) := by
  induction s generalizing a with
  | nil => cases found
  | cons c rest ih =>
    rw [cut] at found
    split at found
    · next begins =>
      cases found
      obtain ⟨t, whole⟩ := List.isPrefixOf_iff_prefix.mp begins
      rw [← whole, List.drop_left]
      rfl
    · obtain ⟨x, inner, same⟩ := Option.map_eq_some_iff.mp found
      cases same
      rw [ih inner]
      rfl

/-- The first occurrence stays the first. -/
theorem cut_append {u a b : List α} (found : cut pat u = some (a, b)) (v : List α) :
    cut pat (u ++ v) = some (a, b ++ v) := by
  induction u generalizing a with
  | nil => cases found
  | cons c rest ih =>
    rw [cut] at found
    split at found
    · next begins =>
      cases found
      have whole := List.isPrefixOf_iff_prefix.mp begins
      have still : pat.isPrefixOf (c :: rest ++ v) = true :=
        List.isPrefixOf_iff_prefix.mpr (whole.trans (List.prefix_append _ v))
      rw [List.cons_append] at still ⊢
      rw [cut, if_pos still, ← List.cons_append, List.drop_append_of_le_length whole.length_le]
    · next other =>
      obtain ⟨x, inner, same⟩ := Option.map_eq_some_iff.mp found
      cases same
      have later := ih inner
      have still : ¬ pat.isPrefixOf (c :: (rest ++ v)) = true := by
        intro begins
        have long : pat.length ≤ (c :: rest).length := by
          have whole := congrArg List.length (eq_of_cut inner)
          simp only [List.length_append, List.length_cons] at whole ⊢
          omega
        have whole : pat <+: c :: rest ++ v := List.isPrefixOf_iff_prefix.mp begins
        have short := List.prefix_of_prefix_length_le whole (List.prefix_append _ v) long
        exact other (List.isPrefixOf_iff_prefix.mpr short)
      rw [List.cons_append, cut, if_neg still, later]
      rfl

/-- The first occurrence is not there before its end is. -/
theorem cut_eq_none_iff_short (nonempty : pat ≠ []) {u v a b : List α}
    (found : cut pat (u ++ v) = some (a, b)) : cut pat u = none ↔ u.length < a.length + pat.length := by
  have whole := eq_of_cut found
  constructor
  · intro without
    rw [cut_eq_none_iff nonempty] at without
    apply Nat.lt_of_not_le
    intro long
    have closed : a ++ pat <+: u := by
      apply List.prefix_of_prefix_length_le ⟨b, _⟩ (List.prefix_append u v)
      · rwa [List.length_append]
      · rw [whole, List.append_assoc]
    exact without ((List.suffix_append a pat).isInfix.trans closed.isInfix)
  · intro short
    cases early : cut pat u with
    | none => rfl
    | some x =>
      obtain ⟨same, _⟩ := Prod.mk.inj (Option.some.inj ((cut_append early v).symm.trans found))
      have lengths := congrArg List.length (eq_of_cut early)
      rw [same, List.length_append, List.length_append] at lengths
      omega

/-- An occurrence in front of some tail does not need the tail. -/
theorem cut_within (nonempty : pat ≠ []) {u v a b : List α}
    (found : cut pat (u ++ v) = some (a, b ++ v)) : cut pat u = some (a, b) := by
  have whole : u = a ++ (pat ++ b) := by
    have same := eq_of_cut found
    rw [← List.append_assoc pat, ← List.append_assoc] at same
    exact List.append_cancel_right same
  cases early : cut pat u with
  | none =>
    have outside := (cut_eq_none_iff nonempty).mp early
    exact absurd ⟨a, b, by rw [whole, List.append_assoc]⟩ outside
  | some x =>
    obtain ⟨same, tail⟩ := Prod.mk.inj (Option.some.inj ((cut_append early v).symm.trans found))
    rw [Option.some.injEq, Prod.mk.injEq]
    exact ⟨same, List.append_cancel_right tail⟩

/- All occurrences. -/

theorem splitFrom_none {s : List α} (none : ¬ pat <:+: s) (part : List α) :
    splitFrom pat 0 part s = [part ++ s] := by
  induction s generalizing part with
  | nil => rw [splitFrom, List.append_nil]
  | cons c rest ih =>
    have other : ¬ pat.isPrefixOf (c :: rest) = true := fun begins =>
      none (List.isPrefixOf_iff_prefix.mp begins).isInfix
    rw [splitFrom, if_neg other, ih fun inside => none (inside.trans (List.suffix_cons c rest).isInfix),
      List.append_assoc]
    rfl

/-- What no occurrence reaches belongs to the last part. -/
theorem splitFrom_past {e : α} (nonempty : pat ≠ []) (outside : e ∉ pat) {v : List α}
    (none : ¬ pat <:+: v) {skip : Nat} {part h : List α} (fresh : skip = 0 ∨ part = [])
    (room : skip ≤ h.length) :
    ∃ parts last, splitFrom pat skip part h = parts ++ [last] ∧ last <:+ part ++ h ∧
      splitFrom pat skip part (h ++ e :: v) = parts ++ [last ++ e :: v] := by
  induction h generalizing skip part with
  | nil =>
    obtain rfl : skip = 0 := Nat.le_zero.mp room
    have other : ¬ pat.isPrefixOf (e :: v) = true := by
      rw [List.isPrefixOf_iff_prefix, ← List.nil_append (e :: v), prefix_past_iff outside,
        List.prefix_nil]
      exact nonempty
    refine ⟨[], part, rfl, by rw [List.append_nil], ?_⟩
    rw [List.nil_append, splitFrom, if_neg other, splitFrom_none none, List.append_assoc]
    rfl
  | cons c h ih =>
    cases skip with
    | succ skip =>
      obtain rfl : part = [] := fresh.resolve_left (Nat.succ_ne_zero _)
      obtain ⟨parts, last, alone, ends, whole⟩ := ih (.inr rfl) (Nat.le_of_succ_le_succ room)
      exact ⟨parts, last, alone, ends.trans (List.suffix_cons c h), whole⟩
    | zero =>
      have same : pat.isPrefixOf (c :: (h ++ e :: v)) = pat.isPrefixOf (c :: h) := by
        rw [Bool.eq_iff_iff, List.isPrefixOf_iff_prefix, List.isPrefixOf_iff_prefix,
          ← List.cons_append, prefix_past_iff outside]
      rw [List.cons_append, splitFrom, splitFrom, same]
      split
      · next begins =>
        have fits : pat.length - 1 ≤ h.length := by
          have most := (List.isPrefixOf_iff_prefix.mp begins).length_le
          rw [List.length_cons] at most
          omega
        obtain ⟨parts, last, alone, ends, whole⟩ := ih (.inr rfl) fits
        refine ⟨part :: parts, last, by rw [alone]; rfl, ?_, by rw [whole]; rfl⟩
        exact ends.trans ⟨part ++ [c], by simp⟩
      · obtain ⟨parts, last, alone, ends, whole⟩ := ih (.inl rfl) (Nat.zero_le _)
        refine ⟨parts, last, alone, ?_, whole⟩
        rwa [List.append_assoc] at ends

theorem split_past {e : α} (nonempty : pat ≠ []) (outside : e ∉ pat) {v : List α}
    (none : ¬ pat <:+: v) (h : List α) :
    ∃ parts last, split pat h = parts ++ [last] ∧ last <:+ h ∧
      split pat (h ++ e :: v) = parts ++ [last ++ e :: v] :=
  splitFrom_past nonempty outside none (.inl rfl) (Nat.zero_le _)

theorem splitFrom_append (nonempty : pat ≠ []) (borderless : Borderless pat) {skip : Nat}
    {part s : List α} (room : skip ≤ s.length) (t : List α) :
    splitFrom pat skip part (s ++ (pat ++ t)) = splitFrom pat skip part s ++ split pat t := by
  induction s generalizing skip part with
  | nil =>
    obtain rfl : skip = 0 := Nat.le_zero.mp room
    obtain ⟨c, rest, rfl⟩ := List.exists_cons_of_ne_nil nonempty
    have begins : (c :: rest).isPrefixOf (c :: (rest ++ t)) = true :=
      List.isPrefixOf_iff_prefix.mpr (List.prefix_append (c :: rest) t)
    rw [List.nil_append, List.cons_append, splitFrom, splitFrom, if_pos begins, List.length_cons,
      Nat.add_sub_cancel, splitFrom_skip]
    rfl
  | cons c s ih =>
    cases skip with
    | succ skip => exact ih (Nat.le_of_succ_le_succ room)
    | zero =>
      have same : pat.isPrefixOf (c :: (s ++ (pat ++ t))) = pat.isPrefixOf (c :: s) := by
        rw [Bool.eq_iff_iff, List.isPrefixOf_iff_prefix, List.isPrefixOf_iff_prefix,
          ← List.cons_append, borderless.prefix_iff (List.cons_ne_nil c s)]
      rw [List.cons_append, splitFrom, splitFrom, same]
      split
      · next begins =>
        have fits : pat.length - 1 ≤ s.length := by
          have most := (List.isPrefixOf_iff_prefix.mp begins).length_le
          rw [List.length_cons] at most
          omega
        rw [ih fits]
        rfl
      · rw [ih (Nat.zero_le _)]

/-- A borderless pattern between two lists is an occurrence of its own. -/
theorem split_append (nonempty : pat ≠ []) (borderless : Borderless pat) (s t : List α) :
    split pat (s ++ (pat ++ t)) = split pat s ++ split pat t :=
  splitFrom_append nonempty borderless (Nat.zero_le _) t

end

end Occurrence
