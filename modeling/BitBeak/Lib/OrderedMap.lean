import Mathlib.Data.List.Induction
import Mathlib.Data.List.Sort

/-! A map over ordered keys as the list of its entries in the order of the keys. Putting an
entry replaces the one that has its key, so the map of a list holds the last entry of each
key, in order. -/
namespace OrderedMap

variable {κ α β : Type} [LinearOrder κ]

def put (e : κ × α) : List (κ × α) → List (κ × α)
  | [] => [e]
  | d :: rest =>
    if e.1 < d.1 then e :: d :: rest
    else if e.1 = d.1 then e :: rest
    else d :: put e rest

def ofList (l : List (κ × α)) : List (κ × α) := l.foldl (fun m e => put e m) []

def Ordered (m : List (κ × α)) : Prop := m.Pairwise fun a b => a.1 < b.1

/-- The entries whose key no later entry has. -/
def lasts : List (κ × α) → List (κ × α)
  | [] => []
  | e :: rest => if e.1 ∈ rest.map Prod.fst then lasts rest else e :: lasts rest

section

-- The equations of the two functions are made here, once.
attribute [local simp] put lasts

end

theorem put_map (f : α → β) (e : κ × α) (m : List (κ × α)) :
    put (Prod.map id f e) (m.map (Prod.map id f)) = (put e m).map (Prod.map id f) := by
  induction m with
  | nil => rfl
  | cons d rest ih =>
    simp only [List.map_cons, put, Prod.map_fst, id, ih]
    split
    · rfl
    · split <;> rfl

theorem ofList_concat (l : List (κ × α)) (e : κ × α) : ofList (l ++ [e]) = put e (ofList l) := by
  simp only [ofList, List.foldl_append, List.foldl_cons, List.foldl_nil]

theorem ofList_map (f : α → β) (l : List (κ × α)) :
    ofList (l.map (Prod.map id f)) = (ofList l).map (Prod.map id f) := by
  induction l using List.reverseRecOn with
  | nil => rfl
  | append_singleton l e ih =>
    rw [List.map_append, List.map_singleton, ofList_concat, ofList_concat, ih, put_map]

/-- What stands in front is not touched by a change behind it. -/
theorem kept_in_front {p q r s : Prop} (apart : q → s) :
    (q ∨ p ∨ r ∧ s) ↔ p ∨ (q ∨ r) ∧ s := by
  constructor
  · rintro (front | new | ⟨behind, other⟩)
    · exact .inr ⟨.inl front, apart front⟩
    · exact .inl new
    · exact .inr ⟨.inr behind, other⟩
  · rintro (new | ⟨front | behind, other⟩)
    · exact .inr (.inl new)
    · exact .inl front
    · exact .inr (.inr ⟨behind, other⟩)

theorem mem_put {m : List (κ × α)} (ordered : Ordered m) (e x : κ × α) :
    x ∈ put e m ↔ x = e ∨ x ∈ m ∧ x.1 ≠ e.1 := by
  induction m with
  | nil => simp [put]
  | cons d rest ih =>
    obtain ⟨above, ordered⟩ := List.pairwise_cons.mp ordered
    have others : e.1 ≤ d.1 → ∀ y ∈ rest, y.1 ≠ e.1 := by
      intro low y member same
      have high := above y member
      rw [same] at high
      exact absurd low (not_le.mpr high)
    rw [put]
    split
    · next low =>
      have here : d.1 ≠ e.1 := ne_of_gt low
      have there := others low.le
      constructor
      · intro member
        rcases List.mem_cons.mp member with rfl | member
        · exact .inl rfl
        · refine .inr ⟨member, ?_⟩
          rcases List.mem_cons.mp member with rfl | member
          · exact here
          · exact there x member
      · rintro (rfl | ⟨member, _⟩)
        · exact List.mem_cons_self
        · exact List.mem_cons_of_mem _ member
    · split
      · next same =>
        have there := others same.le
        simp only [List.mem_cons]
        constructor
        · rintro (rfl | member)
          · exact .inl rfl
          · exact .inr ⟨.inr member, there x member⟩
        · rintro (rfl | ⟨rfl | member, other⟩)
          · exact .inl rfl
          · exact absurd same.symm other
          · exact .inr member
      · next high different =>
        have here : d.1 ≠ e.1 := fun same => different same.symm
        simp only [List.mem_cons, ih ordered]
        exact kept_in_front fun front => front ▸ here

theorem put_ordered {m : List (κ × α)} (ordered : Ordered m) (e : κ × α) : Ordered (put e m) := by
  induction m with
  | nil => exact List.pairwise_singleton _ _
  | cons d rest ih =>
    have whole := ordered
    obtain ⟨above, ordered⟩ := List.pairwise_cons.mp ordered
    rw [put]
    split
    · next low =>
      refine List.pairwise_cons.mpr ⟨?_, whole⟩
      intro x member
      rcases List.mem_cons.mp member with rfl | member
      · exact low
      · exact low.trans (above x member)
    · split
      · next same =>
        refine List.pairwise_cons.mpr ⟨?_, ordered⟩
        intro x member
        rw [same]
        exact above x member
      · next high different =>
        refine List.pairwise_cons.mpr ⟨?_, ih ordered⟩
        intro x member
        rcases (mem_put ordered e x).mp member with rfl | ⟨member, _⟩
        · exact lt_of_le_of_ne (not_lt.mp high) (Ne.symm different)
        · exact above x member

theorem ofList_ordered (l : List (κ × α)) : Ordered (ofList l) := by
  induction l using List.reverseRecOn with
  | nil => exact List.Pairwise.nil
  | append_singleton l e ih =>
    rw [ofList_concat]
    exact put_ordered ih e

theorem put_above {m : List (κ × α)} {e : κ × α} (above : ∀ x ∈ m, x.1 < e.1) :
    put e m = m ++ [e] := by
  induction m with
  | nil => rfl
  | cons d rest ih =>
    have less := above d List.mem_cons_self
    rw [put, if_neg less.not_gt, if_neg less.ne', ih fun x member =>
      above x (List.mem_cons_of_mem d member)]
    rfl

/-- A list is the map of itself exactly if its keys ascend. -/
theorem ofList_eq_iff (l : List (κ × α)) : ofList l = l ↔ Ordered l := by
  constructor
  · intro same
    rw [← same]
    exact ofList_ordered l
  · intro ordered
    induction l using List.reverseRecOn with
    | nil => rfl
    | append_singleton l e ih =>
      obtain ⟨front, -, above⟩ := List.pairwise_append.mp ordered
      rw [ofList_concat, ih front]
      exact put_above fun x member => above x member e List.mem_cons_self

theorem mem_lasts_concat (l : List (κ × α)) (e x : κ × α) :
    x ∈ lasts (l ++ [e]) ↔ x = e ∨ x ∈ lasts l ∧ x.1 ≠ e.1 := by
  induction l with
  | nil => simp [lasts]
  | cons d rest ih =>
    by_cases later : d.1 ∈ rest.map Prod.fst
    · have still : d.1 ∈ (rest ++ [e]).map Prod.fst := by
        rw [List.map_append]
        exact List.mem_append_left _ later
      rw [List.cons_append, lasts, if_pos still, lasts, if_pos later, ih]
    · by_cases same : d.1 = e.1
      · have now : d.1 ∈ (rest ++ [e]).map Prod.fst := by simp [same]
        rw [List.cons_append, lasts, if_pos now, ih, lasts, if_neg later, List.mem_cons]
        constructor
        · rintro (rfl | ⟨member, other⟩)
          · exact .inl rfl
          · exact .inr ⟨.inr member, other⟩
        · rintro (rfl | ⟨rfl | member, other⟩)
          · exact .inl rfl
          · exact absurd same other
          · exact .inr ⟨member, other⟩
      · have never : d.1 ∉ (rest ++ [e]).map Prod.fst := by
          simp only [List.map_append, List.map_cons, List.map_nil, List.mem_append,
            List.mem_singleton]
          rintro (before | now)
          · exact later before
          · exact same now
        rw [List.cons_append, lasts, if_neg never, lasts, if_neg later, List.mem_cons, ih,
          List.mem_cons]
        exact kept_in_front fun front => front ▸ same

theorem mem_ofList (l : List (κ × α)) (x : κ × α) : x ∈ ofList l ↔ x ∈ lasts l := by
  induction l using List.reverseRecOn with
  | nil => exact Iff.rfl
  | append_singleton l e ih =>
    rw [ofList_concat, mem_put (ofList_ordered l), mem_lasts_concat, ih]

theorem lasts_subset (l : List (κ × α)) : ∀ e ∈ lasts l, e ∈ l := by
  induction l with
  | nil => exact fun _ member => member
  | cons d rest ih =>
    intro e member
    rw [lasts] at member
    split at member
    · exact List.mem_cons_of_mem d (ih e member)
    · rcases List.mem_cons.mp member with rfl | member
      · exact List.mem_cons_self
      · exact List.mem_cons_of_mem d (ih e member)

/-- No two of them have the same key. -/
theorem lasts_apart (l : List (κ × α)) : (lasts l).Pairwise fun a b => a.1 ≠ b.1 := by
  induction l with
  | nil => exact List.Pairwise.nil
  | cons d rest ih =>
    rw [lasts]
    split
    · exact ih
    · next never =>
      refine List.pairwise_cons.mpr ⟨?_, ih⟩
      intro e member same
      apply never
      rw [same]
      exact List.mem_map_of_mem (lasts_subset rest e member)

/-- The map holds the last entry of each key, in order. -/
theorem ofList_eq_sorted (l : List (κ × α)) :
    ofList l = (lasts l).insertionSort fun a b => a.1 ≤ b.1 := by
  have ordered := ofList_ordered l
  have keys : ((ofList l).map Prod.fst).Nodup := by
    rw [List.Nodup, List.pairwise_map]
    exact ordered.imp fun less => less.ne
  have apart : (lasts l).Nodup :=
    (lasts_apart l).imp fun other same => other (congrArg Prod.fst same)
  have perm : (ofList l).Perm (lasts l) :=
    (List.perm_ext_iff_of_nodup keys.of_map apart).mpr (mem_ofList l)
  have total : Std.Total fun a b : κ × α => a.1 ≤ b.1 := ⟨fun a b => le_total a.1 b.1⟩
  have trans : IsTrans (κ × α) fun a b => a.1 ≤ b.1 := ⟨fun _ _ _ => le_trans⟩
  have sorted := perm.trans (List.perm_insertionSort (fun a b => a.1 ≤ b.1) (lasts l)).symm
  refine sorted.eq_of_pairwise ?_ (ordered.imp fun less => less.le)
    (List.pairwise_insertionSort _ _)
  intro a b first second low high
  exact List.inj_on_of_nodup_map keys first (sorted.mem_iff.mpr second) (le_antisymm low high)

/- Lists that give one value to each key, in whatever order. -/

def Functional (l : List (κ × α)) : Prop := ∀ a ∈ l, ∀ b ∈ l, a.1 = b.1 → a = b

omit [LinearOrder κ] in
theorem Functional.perm {l l' : List (κ × α)} (functional : Functional l) (same : l.Perm l') :
    Functional l' := by
  intro a first b second
  exact functional a (same.mem_iff.mpr first) b (same.mem_iff.mpr second)

theorem mem_lasts_of_functional {l : List (κ × α)} (functional : Functional l) (x : κ × α) :
    x ∈ lasts l ↔ x ∈ l := by
  induction l with
  | nil => exact Iff.rfl
  | cons d rest ih =>
    have later := ih fun a first b second => functional a (List.mem_cons_of_mem d first) b
      (List.mem_cons_of_mem d second)
    rw [lasts]
    split
    · next again =>
      obtain ⟨e, member, key⟩ := List.mem_map.mp again
      have same := functional e (List.mem_cons_of_mem d member) d List.mem_cons_self key
      rw [later, List.mem_cons]
      constructor
      · exact .inr
      · rintro (rfl | member')
        · exact same ▸ member
        · exact member'
    · rw [List.mem_cons, List.mem_cons, later]

theorem Ordered.eq_of_mem_iff {m m' : List (κ × α)} (ordered : Ordered m) (ordered' : Ordered m')
    (same : ∀ x, x ∈ m ↔ x ∈ m') : m = m' := by
  have apart : ∀ {m : List (κ × α)}, Ordered m → m.Nodup := by
    intro m ordered
    apply ordered.imp
    intro a b less equal
    exact less.ne (congrArg Prod.fst equal)
  have perm := (List.perm_ext_iff_of_nodup (apart ordered) (apart ordered')).mpr same
  apply perm.eq_of_pairwise _ ordered ordered'
  intro a b _ _ low high
  exact absurd (low.trans high) (lt_irrefl _)

/-- The map does not depend on the order of such a list. -/
theorem ofList_perm {l l' : List (κ × α)} (functional : Functional l) (same : l.Perm l') :
    ofList l = ofList l' := by
  apply (ofList_ordered l).eq_of_mem_iff (ofList_ordered l')
  intro x
  rw [mem_ofList, mem_ofList, mem_lasts_of_functional functional,
    mem_lasts_of_functional (functional.perm same)]
  exact same.mem_iff

end OrderedMap
