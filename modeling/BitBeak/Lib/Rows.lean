import Mathlib.Data.List.Nodup
import Mathlib.Tactic.Common

/-! The places of a list whose entries a predicate takes, and a cursor that is kept as a row
among them while the list grows at its end and loses its front. -/
namespace Rows

variable {α : Type} (keep : α → Bool)

/-- The places whose entries are taken, in order. -/
def places (l : List α) : List Nat := (l.zipIdx.filter fun e => keep e.1).map Prod.snd

/-- The place in a row. A row behind the last one counts as the last one. -/
def shown (row : Nat) (l : List α) : Option Nat :=
  (places keep l)[min row ((places keep l).length - 1)]?

/- The places of lists. -/

theorem places_from (l : List α) (n : Nat) :
    ((l.zipIdx n).filter fun e => keep e.1).map Prod.snd = (places keep l).map (· + n) := by
  unfold places
  induction l generalizing n with
  | nil => rfl
  | cons x l ih =>
    have both := (ih (n + 1)).trans (congrArg _ rfl)
    have one := ih 1
    simp only [List.zipIdx_cons, List.filter_cons, Nat.zero_add]
    split <;> simp [both, one, Function.comp_def, Nat.add_comm, Nat.add_left_comm]

theorem places_append (l r : List α) :
    places keep (l ++ r) = places keep l ++ (places keep r).map (· + l.length) := by
  rw [← places_from, places, List.zipIdx_append, List.filter_append, List.map_append, places,
    Nat.zero_add]

/-- The places in front of a cut and those behind it. -/
theorem places_cut {k : Nat} {l : List α} (inside : k ≤ l.length) :
    places keep (l.take k) ++ (places keep (l.drop k)).map (· + k) = places keep l := by
  have length : (l.take k).length = k := by
    rw [List.length_take]
    omega
  have both := places_append keep (l.take k) (l.drop k)
  rw [List.take_append_drop, length] at both
  exact both.symm

theorem length_places (l : List α) : (places keep l).length = l.countP keep := by
  induction l with
  | nil => rfl
  | cons x l ih =>
    rw [← List.singleton_append, places_append, List.length_append, List.length_map, ih,
      List.countP_append]
    congr 1
    cases taken : keep x <;> simp [places, taken]

theorem lt_of_mem_places {l : List α} {i : Nat} (member : i ∈ places keep l) : i < l.length := by
  obtain ⟨⟨x, j⟩, inside, rfl⟩ := List.mem_map.mp member
  simpa using (List.mem_zipIdx (List.mem_of_mem_filter inside)).2.1

theorem places_nodup (l : List α) : (places keep l).Nodup := by
  have whole : (l.zipIdx.map Prod.snd).Nodup := by
    rw [List.zipIdx_map_snd]
    exact List.nodup_range'
  exact whole.sublist (List.filter_sublist.map _)

/- The cursor. -/

variable {keep}

theorem shown_mem {row i : Nat} {l : List α} (here : shown keep row l = some i) :
    i ∈ places keep l :=
  List.mem_of_getElem? here

/-- The row of a place that stays lies behind all the rows that go. -/
theorem countP_take_le {k s i : Nat} {l : List α} (here : (places keep l)[s]? = some i)
    (stays : k ≤ i) : (l.take k).countP keep ≤ s := by
  have inside := lt_of_mem_places keep (List.mem_of_getElem? here)
  by_contra before
  rw [← places_cut keep (Nat.le_of_lt (Nat.lt_of_le_of_lt stays inside)),
    List.getElem?_append_left (by rw [length_places]; omega)] at here
  have low := lt_of_mem_places keep (List.mem_of_getElem? here)
  rw [List.length_take] at low
  omega

/-- An entry behind a cut is in the row of the whole list that lies as far behind the rows in
front of the cut. -/
theorem getElem?_places_drop {k s i : Nat} {l : List α} (inside : k ≤ l.length) (stays : k ≤ i) :
    (places keep (l.drop k))[s]? = some (i - k) ↔
      (places keep l)[(l.take k).countP keep + s]? = some i := by
  rw [← places_cut keep inside, List.getElem?_append_right (by rw [length_places]; omega),
    length_places, Nat.add_sub_cancel_left, List.getElem?_map, Option.map_eq_some_iff]
  constructor
  · intro found
    exact ⟨i - k, found, by omega⟩
  · rintro ⟨j, found, rfl⟩
    rw [found, Nat.add_sub_cancel]

/-- A list that has grown by `fresh` and lost the first `gone` shows the same entry in the row
as before when none of those was taken and the row exists, or when nothing new is taken and the
row is the last one or behind it. -/
theorem shown_moved {row i gone : Nat} {l : List α} (here : shown keep row l = some i)
    (stays : gone ≤ i) (fresh : List α) :
    shown keep row ((l ++ fresh).drop gone) = some (i - gone) ↔
      (row < l.countP keep ∧ (l.take gone).countP keep = 0) ∨
        (l.countP keep ≤ row + 1 ∧ fresh.countP keep = 0) := by
  have inside : i < l.length := lt_of_mem_places keep (shown_mem here)
  have front : (l ++ fresh).take gone = l.take gone :=
    List.take_append_of_le_length (by omega)
  have counted := congrArg (List.countP keep) (List.take_append_drop gone (l ++ fresh))
  rw [List.countP_append, List.countP_append, front] at counted
  unfold shown at here ⊢
  have bounded := (List.getElem?_eq_some_iff.mp here).1
  have behind := countP_take_le here stays
  have whole : (places keep (l ++ fresh))[min row ((places keep l).length - 1)]? = some i := by
    rw [places_append, List.getElem?_append_left bounded, here]
  rw [getElem?_places_drop (by rw [List.length_append]; omega) stays, front]
  rw [length_places] at bounded behind whole ⊢
  constructor
  · intro found
    have same := (List.getElem?_inj (by simp only [length_places, List.countP_append]; omega)
      (places_nodup keep _)).mp (whole.trans found.symm)
    omega
  · intro still
    rw [← whole]
    congr 1
    omega

end Rows
