import Mathlib.Data.List.DropRight
import Mathlib.Data.List.Nodup

/-! Rings that keep the latest of what was pushed, under ids given out in turn and never
again. A clear drops everything that is kept, and the ids go on. -/
namespace Rings

variable {α : Type}

inductive Op (α : Type) where
  | push (x : α)
  | clear
  deriving DecidableEq, Repr

/-- One more at the end; the oldest leaves a full ring. -/
def push (cap : Nat) (kept : List α) (x : α) : List α :=
  (if cap ≤ kept.length then kept.tail else kept) ++ [x]

/-- Everything pushed. -/
def pushed (ops : List (Op α)) : List α :=
  ops.filterMap fun
    | .push x => some x
    | .clear => none

/-- What was pushed behind the last clear. -/
def sinceClear (ops : List (Op α)) : List α :=
  ops.foldl (fun l op => match op with
    | .push x => l ++ [x]
    | .clear => []) []

/-- Records under consecutive ids. -/
def numbered (setId : Nat → α → α) (first : Nat) (l : List α) : List α :=
  l.mapIdx fun i x => setId (first + i) x

/-- The first id given out behind the last clear. -/
def firstId (ops : List (Op α)) : Nat := (pushed ops).length - (sinceClear ops).length + 1

/-- What a ring of this capacity keeps. -/
def kept (setId : Nat → α → α) (cap : Nat) (ops : List (Op α)) : List α :=
  (numbered setId (firstId ops) (sinceClear ops)).rtake cap

/-- What holds of a ring after some operations: it keeps the latest within its capacity,
under the ids given out last, and a lookup finds what was pushed under an id while it is
kept. -/
structure Law (setId : Nat → α → α) (getId : α → Nat) (cap : Nat) (ops : List (Op α))
    (now : List α) (get : Nat → Option α) : Prop where
  bounded : now.length ≤ cap
  latest : now = (numbered setId (firstId ops) (sinceClear ops)).rtake cap
  ids : now.map getId = List.range' ((pushed ops).length + 1 - now.length) now.length
  lookup : ∀ id, get id = if (pushed ops).length < id + now.length
    then (pushed ops)[id - 1]?.map (setId id) else none

/- The ends of lists. -/

theorem length_rtake (l : List α) (n : Nat) : (l.rtake n).length = min n l.length := by
  rw [List.rtake, List.length_drop]
  omega

theorem tail_rtake {l : List α} {n : Nat} (inside : n < l.length) :
    (l.rtake (n + 1)).tail = l.rtake n := by
  rw [List.rtake, List.rtake, List.tail_drop]
  congr 1
  omega

/-- The end of a list, grown by one more. -/
theorem push_rtake {cap : Nat} (positive : 0 < cap) (l : List α) (x : α) :
    push cap (l.rtake cap) x = (l ++ [x]).rtake cap := by
  obtain ⟨less, rfl⟩ : ∃ k, cap = k + 1 := ⟨cap - 1, by omega⟩
  unfold push
  rw [length_rtake, List.rtake_concat_succ]
  split
  · next full => rw [tail_rtake (by omega)]
  · next room =>
    have whole : ∀ n, l.length ≤ n → l.rtake n = l := by
      intro n long
      rw [List.rtake, Nat.sub_eq_zero_of_le long, List.drop_zero]
    rw [whole _ (by omega), whole _ (by omega)]

/-- How many of a ring and of what is pushed go when as many as `more` are pushed. -/
def evictions (cap len more : Nat) : Nat := more - (max cap 1 - len)

theorem push_eq_drop (cap : Nat) (l : List α) (x : α) :
    push cap l x = (l ++ [x]).drop (evictions cap l.length 1) := by
  cases l with
  | nil =>
    have none : evictions cap ([] : List α).length 1 = 0 := by
      simp only [evictions, List.length_nil]
      omega
    rw [none, push]
    split <;> rfl
  | cons y l =>
    unfold push evictions
    simp only [List.length_cons]
    split
    · next full =>
      rw [show 1 - (max cap 1 - (l.length + 1)) = 1 by omega]
      rfl
    · next room =>
      rw [show 1 - (max cap 1 - (l.length + 1)) = 0 by omega, List.drop_zero]

/-- A ring after some pushes is the end of what it held and was given. -/
theorem foldl_push (cap : Nat) (l fresh : List α) :
    fresh.foldl (push cap) l = (l ++ fresh).drop (evictions cap l.length fresh.length) := by
  induction fresh generalizing l with
  | nil => simp [evictions]
  | cons x fresh ih =>
    have short : evictions cap l.length 1 ≤ (l ++ [x]).length := by
      rw [evictions, List.length_append, List.length_singleton]
      omega
    rw [List.foldl_cons, ih, push_eq_drop, ← List.drop_append_of_le_length short, List.drop_drop,
      List.append_assoc, List.singleton_append]
    congr 1
    simp only [evictions, List.length_drop, List.length_append, List.length_cons,
      List.length_nil] at short ⊢
    omega

/- Pushes and clears. -/

@[simp] theorem pushed_push (ops : List (Op α)) (x : α) :
    pushed (ops ++ [.push x]) = pushed ops ++ [x] := by
  simp [pushed]

@[simp] theorem pushed_clear (ops : List (Op α)) : pushed (ops ++ [.clear]) = pushed ops := by
  simp [pushed]

@[simp] theorem sinceClear_push (ops : List (Op α)) (x : α) :
    sinceClear (ops ++ [.push x]) = sinceClear ops ++ [x] := by
  simp [sinceClear]

@[simp] theorem sinceClear_clear (ops : List (Op α)) : sinceClear (ops ++ [.clear]) = [] := by
  simp [sinceClear]

@[simp] theorem pushed_pushes (l : List α) : pushed (l.map .push) = l := by
  rw [pushed, List.filterMap_map]
  exact List.filterMap_some

@[simp] theorem sinceClear_pushes (l : List α) : sinceClear (l.map .push) = l := by
  induction l using List.reverseRecOn with
  | nil => rfl
  | append_singleton l x ih =>
    rw [List.map_append, List.map_singleton, sinceClear_push, ih]

theorem sinceClear_suffix (ops : List (Op α)) : sinceClear ops <:+ pushed ops := by
  induction ops using List.reverseRecOn with
  | nil => exact List.suffix_rfl
  | append_singleton ops op ih =>
    cases op with
    | push x =>
      obtain ⟨before, whole⟩ := ih
      exact ⟨before, by rw [pushed_push, sinceClear_push, ← List.append_assoc, whole]⟩
    | clear => exact ⟨pushed ops, by rw [pushed_clear, sinceClear_clear, List.append_nil]⟩

theorem length_sinceClear_le (ops : List (Op α)) :
    (sinceClear ops).length ≤ (pushed ops).length :=
  (sinceClear_suffix ops).length_le

section
variable {setId : Nat → α → α} {getId : α → Nat}

@[simp] theorem length_numbered (first : Nat) (l : List α) :
    (numbered setId first l).length = l.length :=
  List.length_mapIdx

theorem getElem?_numbered (first : Nat) (l : List α) (i : Nat) :
    (numbered setId first l)[i]? = l[i]?.map (setId (first + i)) := by
  rw [numbered, List.getElem?_mapIdx]

theorem length_kept (cap : Nat) (ops : List (Op α)) :
    (kept setId cap ops).length = min cap (sinceClear ops).length := by
  rw [kept, length_rtake, length_numbered]

theorem kept_push {cap : Nat} (positive : 0 < cap) (ops : List (Op α)) (x : α) :
    kept setId cap (ops ++ [.push x])
      = push cap (kept setId cap ops) (setId ((pushed ops).length + 1) x) := by
  have below := length_sinceClear_le ops
  have first : firstId (ops ++ [.push x]) = firstId ops := by
    simp only [firstId, pushed_push, sinceClear_push, List.length_append, List.length_singleton]
    omega
  have given : firstId ops + (sinceClear ops).length = (pushed ops).length + 1 := by
    rw [firstId]
    omega
  rw [kept, kept, first, sinceClear_push, numbered, List.mapIdx_concat, given,
    push_rtake positive, numbered]

@[simp] theorem kept_nil (cap : Nat) : kept setId cap [] = [] :=
  List.rtake_nil cap

theorem kept_clear (cap : Nat) (ops : List (Op α)) : kept setId cap (ops ++ [.clear]) = [] := by
  rw [kept, sinceClear_clear, numbered, List.mapIdx_nil, List.rtake_nil]

theorem ids_numbered (own : ∀ i x, getId (setId i x) = i) (first : Nat) (l : List α) :
    (numbered setId first l).map getId = List.range' first l.length := by
  apply List.ext_getElem?
  intro i
  rw [List.getElem?_map, getElem?_numbered]
  rcases Nat.lt_or_ge i l.length with inside | outside
  · rw [List.getElem?_eq_getElem inside, List.getElem?_range' inside]
    simp only [Option.map_some, own, Option.some.injEq]
    omega
  · rw [List.getElem?_eq_none outside, List.getElem?_eq_none (by rwa [List.length_range'])]
    rfl

/-- The ids that are kept are those given out last. -/
theorem ids_kept (own : ∀ i x, getId (setId i x) = i) (cap : Nat) (ops : List (Op α)) :
    (kept setId cap ops).map getId
      = List.range' ((pushed ops).length + 1 - min cap (sinceClear ops).length)
          (min cap (sinceClear ops).length) := by
  have below := length_sinceClear_le ops
  rw [kept, List.rtake, List.map_drop, ids_numbered own, length_numbered, List.drop_range', firstId]
  congr 1 <;> omega

theorem find_unique {l : List α} (apart : (l.map getId).Nodup) {x : α} (member : x ∈ l) :
    l.find? (fun y => getId y == getId x) = some x := by
  induction l with
  | nil => cases member
  | cons y ys ih =>
    rw [List.map_cons, List.nodup_cons] at apart
    rcases List.mem_cons.mp member with rfl | later
    · simp
    · have other : getId y ≠ getId x := by
        intro same
        exact apart.1 (same ▸ List.mem_map_of_mem later)
      rw [List.find?_cons_of_neg (by simpa using other)]
      exact ih apart.2 later

/-- What is kept was pushed under the id it has. -/
theorem pushed_of_kept (own : ∀ i x, getId (setId i x) = i) {cap : Nat} {ops : List (Op α)} {x : α}
    (member : x ∈ kept setId cap ops) :
    (pushed ops)[getId x - 1]?.map (setId (getId x)) = some x := by
  obtain ⟨i, found⟩ := List.mem_iff_getElem?.mp (List.mem_of_mem_drop member)
  rw [getElem?_numbered] at found
  obtain ⟨record, there, rfl⟩ := Option.map_eq_some_iff.mp found
  obtain ⟨before, whole⟩ := sinceClear_suffix ops
  have first : firstId ops = before.length + 1 := by
    rw [firstId, ← whole, List.length_append, Nat.add_sub_cancel]
  rw [own, ← whole, List.getElem?_append_right (by omega)]
  have place : firstId ops + i - 1 - before.length = i := by omega
  rw [place, there]
  rfl

/-- A lookup finds what was pushed under the id, while it is kept. -/
theorem find_kept (own : ∀ i x, getId (setId i x) = i) (cap : Nat) (ops : List (Op α)) (id : Nat) :
    (kept setId cap ops).find? (fun x => getId x == id)
      = if (pushed ops).length < id + min cap (sinceClear ops).length
        then (pushed ops)[id - 1]?.map (setId id) else none := by
  have ids := ids_kept own cap ops
  have below := length_sinceClear_le ops
  by_cases here : ∃ x ∈ kept setId cap ops, getId x = id
  · obtain ⟨x, member, rfl⟩ := here
    have apart : ((kept setId cap ops).map getId).Nodup := by
      rw [ids]
      exact List.nodup_range'
    have given := List.mem_map_of_mem (f := getId) member
    rw [ids, List.mem_range'_1] at given
    rw [find_unique apart member, if_pos (by omega), pushed_of_kept own member]
  · have absent : id ∉ (kept setId cap ops).map getId := by
      intro given
      obtain ⟨x, member, same⟩ := List.mem_map.mp given
      exact here ⟨x, member, same⟩
    rw [ids, List.mem_range'_1] at absent
    rw [List.find?_eq_none.mpr]
    · split
      · rw [List.getElem?_eq_none (by omega)]
        rfl
      · rfl
    · intro x member
      rw [beq_iff_eq]
      exact fun same => here ⟨x, member, same⟩

theorem law_kept (own : ∀ i x, getId (setId i x) = i) (cap : Nat) (ops : List (Op α)) :
    Law setId getId cap ops (kept setId cap ops)
      fun id => (kept setId cap ops).find? fun x => getId x == id := by
  constructor
  · rw [length_kept]
    exact Nat.min_le_left _ _
  · rfl
  · rw [length_kept, ids_kept own]
  · intro id
    rw [length_kept, find_kept own]

end

end Rings
