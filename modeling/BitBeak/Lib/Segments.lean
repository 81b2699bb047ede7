import Mathlib.Algebra.GroupWithZero.Nat

/-! Segments that stand side by side on a line. -/
namespace Segments

/-- The segment of a column, and the column within it. -/
def locate : List Nat → Nat → Option (Nat × Nat)
  | [], _ => none
  | w :: ws, x => if x < w then some (0, x) else (locate ws (x - w)).map fun s => (s.1 + 1, s.2)

theorem locate_eq_some {ws : List Nat} {x i k : Nat} :
    locate ws x = some (i, k) ↔ ∃ w, ws[i]? = some w ∧ k < w ∧ x = (ws.take i).sum + k := by
  induction ws generalizing x i with
  | nil => simp [locate]
  | cons w ws ih =>
    rw [locate]
    by_cases first : x < w
    · rw [if_pos first]
      cases i with
      | zero =>
        simp only [Option.some.injEq, Prod.mk.injEq, true_and, List.getElem?_cons_zero,
          List.take_zero, List.sum_nil, Nat.zero_add]
        constructor
        · rintro rfl
          exact ⟨w, rfl, first, rfl⟩
        · rintro ⟨_, _, _, same⟩
          exact same
      | succ i =>
        simp only [Option.some.injEq, Prod.mk.injEq, List.take_succ_cons, List.sum_cons]
        constructor
        · rintro ⟨impossible, _⟩
          cases impossible
        · rintro ⟨_, _, _, same⟩
          omega
    · rw [if_neg first]
      cases i with
      | zero =>
        simp only [Option.map_eq_some_iff, Prod.mk.injEq, List.getElem?_cons_zero,
          Option.some.injEq, List.take_zero, List.sum_nil, Nat.zero_add]
        constructor
        · rintro ⟨_, _, impossible, _⟩
          cases impossible
        · rintro ⟨_, rfl, low, rfl⟩
          exact absurd low first
      | succ i =>
        have inner : (locate ws (x - w)).map (fun s => (s.1 + 1, s.2)) = some (i + 1, k) ↔
            locate ws (x - w) = some (i, k) := by
          cases locate ws (x - w) <;> simp [Prod.ext_iff]
        rw [inner, ih, List.getElem?_cons_succ, List.take_succ_cons, List.sum_cons]
        exact exists_congr fun v => and_congr_right fun _ => and_congr_right fun _ => by omega

/-- Only the segments up to that of a column matter. -/
theorem locate_append_left {ws : List Nat} (vs : List Nat) {x : Nat} (inside : x < ws.sum) :
    locate (ws ++ vs) x = locate ws x := by
  induction ws generalizing x with
  | nil => cases inside
  | cons w ws ih =>
    rw [List.cons_append, locate, locate]
    split
    · rfl
    · next behind =>
      rw [List.sum_cons] at inside
      rw [ih (by omega)]

end Segments
