import Mathlib.Algebra.Group.Int.Defs
import Mathlib.Algebra.GroupWithZero.Nat
import Mathlib.Tactic.Common

/-! Lists of entries of which one changes, and lists that get one entry more. -/
namespace Entries

variable {α β : Type} {l : List α} {i j : Nat} {x y : α}

/-- What stands in a list in which one entry was replaced. -/
theorem set_cases (found : (l.set i x)[j]? = some y) :
    (i = j ∧ y = x) ∨ (i ≠ j ∧ l[j]? = some y) := by
  by_cases same : i = j
  · subst same
    obtain ⟨inside, -⟩ := List.getElem?_eq_some_iff.mp found
    rw [List.length_set] at inside
    rw [List.getElem?_set_self inside] at found
    exact .inl ⟨rfl, (Option.some.inj found).symm⟩
  · rw [List.getElem?_set_ne same] at found
    exact .inr ⟨same, found⟩

/-- What stands in a list in which one entry was changed. -/
theorem modify_cases {f : α → α} (found : (l.modify i f)[j]? = some y) :
    (∃ x, l[i]? = some x ∧ i = j ∧ y = f x) ∨ (i ≠ j ∧ l[j]? = some y) := by
  rw [List.getElem?_modify] at found
  obtain ⟨x, there, changed⟩ := Option.map_eq_some_iff.mp found
  split at changed
  · next same =>
    subst same
    exact .inl ⟨x, there, rfl, changed.symm⟩
  · next apart =>
    subst changed
    exact .inr ⟨apart, there⟩

/-- What stands in a list that got one entry more. -/
theorem concat_cases (found : (l ++ [x])[j]? = some y) : l[j]? = some y ∨ j = l.length ∧ y = x := by
  rcases Nat.lt_trichotomy j l.length with inside | rfl | beyond
  · rw [List.getElem?_append_left inside] at found
    exact .inl found
  · rw [List.getElem?_concat_length] at found
    exact .inr ⟨rfl, (Option.some.inj found).symm⟩
  · have outside : (l ++ [x]).length ≤ j := by
      rw [List.length_append, List.length_singleton]
      omega
    rw [List.getElem?_eq_none outside] at found
    contradiction

theorem map_set_same {f : α → β} (here : l[i]? = some x) (same : f y = f x) :
    (l.set i y).map f = l.map f := by
  have mapped : (l.map f)[i]? = some (f x) := by
    rw [List.getElem?_map, here]
    rfl
  obtain ⟨inside, found⟩ := List.getElem?_eq_some_iff.mp mapped
  rw [List.map_set, same, ← found, List.set_getElem_self]

theorem sum_map_set {f : α → Nat} (here : l[i]? = some x) :
    ((l.set i y).map f).sum + f x = (l.map f).sum + f y := by
  induction l generalizing i with
  | nil => cases here
  | cons z l ih =>
    cases i with
    | zero =>
      cases here
      simp only [List.set_cons_zero, List.map_cons, List.sum_cons]
      omega
    | succ i =>
      rw [List.getElem?_cons_succ] at here
      have rest := ih here
      simp only [List.set_cons_succ, List.map_cons, List.sum_cons]
      omega

end Entries
