import Mathlib.Algebra.BigOperators.Group.List.Basic
import Mathlib.Data.List.AList

/-! A table with one row for each key. An update looks up the row of its key, makes it if
there is none, and changes it. What the rows count in the end is what the updates brought. -/
namespace Tally

variable {κ ρ M : Type} [DecidableEq κ] [AddCommMonoid M]

abbrev Table (κ ρ : Type) := AList fun _ : κ => ρ

structure Update (κ ρ : Type) where
  key : κ
  new : ρ
  change : ρ → ρ

def put (table : Table κ ρ) (u : Update κ ρ) : Table κ ρ :=
  table.insert u.key (u.change ((table.lookup u.key).getD u.new))

def puts (table : Table κ ρ) (us : List (Update κ ρ)) : Table κ ρ := us.foldl put table

def rows (table : Table κ ρ) : List ρ := table.entries.map Sigma.snd

/-- What an update adds to a measure of its row. A row just made measures nothing. -/
def Brings (m : κ → ρ → M) (amount : M) (u : Update κ ρ) : Prop :=
  m u.key u.new = 0 ∧ ∀ r, m u.key (u.change r) = m u.key r + amount

/-- The measure of one row, or of none. -/
def reading (m : κ → ρ → M) (table : Table κ ρ) (k : κ) : M := (table.lookup k).elim 0 (m k)

/-- The measure of all the rows. -/
def total (m : κ → ρ → M) (table : Table κ ρ) : M := (table.entries.map fun e => m e.1 e.2).sum

section
variable (table : Table κ ρ) (u : Update κ ρ) (us : List (Update κ ρ)) (k : κ)

theorem lookup_put : (put table u).lookup k =
    if k = u.key then some (u.change ((table.lookup u.key).getD u.new)) else table.lookup k := by
  unfold put
  split
  · next same =>
    rw [same]
    exact AList.lookup_insert table
  · next other => exact AList.lookup_insert_ne other

theorem mem_put : k ∈ put table u ↔ k = u.key ∨ k ∈ table := AList.mem_insert table

theorem mem_puts : k ∈ puts table us ↔ k ∈ table ∨ ∃ u ∈ us, u.key = k := by
  induction us generalizing table with
  | nil => simp [puts]
  | cons u us ih =>
    have step := ih (put table u)
    rw [mem_put] at step
    simp only [List.exists_mem_cons_iff]
    rw [show puts table (u :: us) = puts (put table u) us from rfl, step]
    constructor
    · rintro ((same | old) | later)
      · exact .inr (.inl same.symm)
      · exact .inl old
      · exact .inr (.inr later)
    · rintro (old | same | later)
      · exact .inl (.inr old)
      · exact .inl (.inl same.symm)
      · exact .inr later

/-- Taking in one thing after the other, each with some updates, is making all the updates. -/
theorem foldl_puts {α : Type} {take : Table κ ρ → α → Table κ ρ} {updates : α → List (Update κ ρ)}
    (step : ∀ t x, take t x = puts t (updates x)) (l : List α) :
    l.foldl take table = puts table (l.flatMap updates) := by
  unfold puts at step ⊢
  induction l generalizing table with
  | nil => rfl
  | cons x l ih => rw [List.foldl_cons, ih, step, List.flatMap_cons, List.foldl_append]

end

section
variable {β : Type} {m : κ → ρ → M} {amount : M} {weight : β → M} {table : Table κ ρ}
  {u : Update κ ρ}

theorem Brings.found (brings : Brings m amount u) (table : Table κ ρ) :
    m u.key (u.change ((table.lookup u.key).getD u.new)) = reading m table u.key + amount := by
  unfold reading
  cases table.lookup u.key with
  | none => simp [brings.2, brings.1]
  | some r => simp [brings.2]

theorem reading_put (brings : Brings m amount u) (k : κ) :
    reading m (put table u) k = reading m table k + if u.key = k then amount else 0 := by
  by_cases same : u.key = k
  · subst same
    rw [if_pos rfl, ← brings.found table]
    simp [reading, lookup_put]
  · have other : k ≠ u.key := fun equal => same equal.symm
    simp [reading, lookup_put, same, other]

/-- A row measures what the updates of its key brought. -/
theorem reading_puts (table : Table κ ρ) {f : β → Update κ ρ} {l : List β}
    (brings : ∀ x ∈ l, Brings m (weight x) (f x)) (k : κ) :
    reading m (puts table (l.map f)) k =
      reading m table k + ((l.filter fun x => (f x).key = k).map weight).sum := by
  induction l generalizing table with
  | nil => simp [puts]
  | cons x l ih =>
    obtain ⟨first, others⟩ := List.forall_mem_cons.mp brings
    have later : reading m (puts table ((x :: l).map f)) k = _ := ih (put table (f x)) others
    rw [later, reading_put first, add_assoc]
    by_cases same : (f x).key = k <;> simp [same]

/-- A row that is there, in front of the others. -/
theorem entries_perm {k : κ} {r : ρ} (there : table.lookup k = some r) :
    table.entries.Perm (⟨k, r⟩ :: (table.erase k).entries) := by
  have key : k ∈ table.entries.keys := by
    apply AList.lookup_isSome.mp
    rw [there]
    rfl
  obtain ⟨r', front, behind, absent, split, erased⟩ := List.exists_of_kerase key
  have same : r' = r := by
    have found := there
    unfold AList.lookup at found
    rw [split] at found
    simpa [List.dlookup_append, List.dlookup_eq_none.mpr absent] using found
  rw [show (table.erase k).entries = front ++ behind from erased, split, same]
  exact List.perm_middle

theorem total_put (brings : Brings m amount u) :
    total m (put table u) = total m table + amount := by
  have found := brings.found table
  unfold put total
  rw [AList.entries_insert, List.map_cons, List.sum_cons, found, reading]
  cases there : table.lookup u.key with
  | none =>
    have absent := AList.lookup_eq_none.mp there
    rw [List.kerase_of_notMem_keys absent, Option.elim_none, zero_add, add_comm]
  | some r =>
    have sum := ((entries_perm there).map fun e => m e.1 e.2).sum_eq
    rw [sum, Option.elim_some, List.map_cons, List.sum_cons]
    exact add_right_comm _ _ _

/-- The rows together measure what all the updates brought. -/
theorem total_puts (table : Table κ ρ) {f : β → Update κ ρ} {l : List β}
    (brings : ∀ x ∈ l, Brings m (weight x) (f x)) :
    total m (puts table (l.map f)) = total m table + (l.map weight).sum := by
  induction l generalizing table with
  | nil => simp [puts]
  | cons x l ih =>
    obtain ⟨first, others⟩ := List.forall_mem_cons.mp brings
    have later : total m (puts table ((x :: l).map f)) = _ := ih (put table (f x)) others
    rw [later, total_put first, List.map_cons, List.sum_cons, add_assoc]

end

/- Things that each come under some tags. -/

section
variable {α τ : Type} [BEq τ] [LawfulBEq τ] [DecidableEq τ]

def tagged (tags : α → List τ) (l : List α) : List (α × τ) :=
  l.flatMap fun x => (tags x).map (x, ·)

theorem sum_map_filter (weight : α → M) (among : α → Bool) (l : List α) :
    ((l.filter among).map weight).sum = (l.map fun x => if among x then weight x else 0).sum := by
  induction l with
  | nil => rfl
  | cons x l ih => cases kept : among x <;> simp [kept, ih]

/-- What comes under one tag weighs each thing as often as it has the tag. -/
theorem sum_tagged (tags : α → List τ) (weight : α → M) (among : α → Bool) (t : τ) (l : List α) :
    (((tagged tags l).filter fun e => among e.1 && e.2 = t).map fun e => weight e.1).sum
      = ((l.filter among).map fun x => (tags x).count t • weight x).sum := by
  have one : ∀ x, ((((tags x).map (x, ·)).filter fun e => among e.1 && e.2 = t).map
      fun e => weight e.1).sum = if among x then (tags x).count t • weight x else 0 := by
    intro x
    cases kept : among x with
    | false => simp [List.filter_map, Function.comp_def, kept]
    | true =>
      have same : ((tags x).filter fun s => s = t).map (fun _ => weight x)
          = List.replicate ((tags x).count t) (weight x) := by
        rw [List.filter_eq, List.map_replicate]
      simp only [List.filter_map, Function.comp_def, kept, List.map_map, Bool.true_and, same,
        List.sum_replicate, if_true]
  induction l with
  | nil => rfl
  | cons x l ih =>
    unfold tagged at ih ⊢
    rw [List.flatMap_cons, List.filter_append, List.map_append, List.sum_append, one, ih]
    cases kept : among x <;> simp [kept]

end

/- Rows, by what holds of each and by their mirror images. -/

section
variable {table table' : Table κ ρ} {us us' : List (Update κ ρ)}

theorem mem_rows {r : ρ} : r ∈ rows table ↔ ∃ k, table.lookup k = some r := by
  unfold rows
  constructor
  · intro member
    obtain ⟨⟨k, r'⟩, inside, rfl⟩ := List.mem_map.mp member
    exact ⟨k, AList.mem_lookup_iff.mpr inside⟩
  · rintro ⟨k, found⟩
    exact List.mem_map.mpr ⟨⟨k, r⟩, AList.mem_lookup_iff.mp found, rfl⟩

/-- What a row just made has and every change keeps, each row has. -/
theorem holds_puts (inv : κ → ρ → Prop) (start : ∀ k r, table.lookup k = some r → inv k r)
    (made : ∀ u ∈ us, inv u.key u.new)
    (kept : ∀ u ∈ us, ∀ r, inv u.key r → inv u.key (u.change r)) :
    ∀ k r, (puts table us).lookup k = some r → inv k r := by
  induction us generalizing table with
  | nil => exact start
  | cons u us ih =>
    obtain ⟨first, madeLater⟩ := List.forall_mem_cons.mp made
    obtain ⟨change, keptLater⟩ := List.forall_mem_cons.mp kept
    apply ih _ madeLater keptLater
    intro k r found
    rw [lookup_put] at found
    split at found
    · next same =>
      cases found
      rw [same]
      apply change
      cases there : table.lookup u.key with
      | none => exact first
      | some old => exact start _ _ there
    · exact start k r found

/-- Where each row tells its key, one row tells each key there is. -/
theorem rows_countP {key : ρ → κ} (keyed : ∀ k r, table.lookup k = some r → key r = k) {k : κ}
    (there : k ∈ table) : (rows table).countP (fun r => key r = k) = 1 := by
  have keys : (rows table).map key = table.keys := by
    unfold rows AList.keys List.keys
    rw [List.map_map]
    apply List.map_congr_left
    intro e member
    exact keyed e.1 e.2 (AList.mem_lookup_iff.mpr member)
  have once := List.count_eq_one_of_mem table.keys_nodup (AList.mem_keys.mp there)
  rw [← keys, List.count, List.countP_map] at once
  simpa [Function.comp_def, Bool.beq_eq_decide_eq] using once

/-- The same update, seen through the image of a row. -/
structure Mirrors (image : κ → ρ → ρ) (u u' : Update κ ρ) : Prop where
  key : u'.key = u.key
  new : u'.new = image u.key u.new
  change : ∀ r, u'.change (image u.key r) = image u.key (u.change r)

/-- One table holds the images of the rows of the other. -/
def Mirrored (image : κ → ρ → ρ) (table table' : Table κ ρ) : Prop :=
  ∀ k, table'.lookup k = (table.lookup k).map (image k)

variable {image : κ → ρ → ρ}

theorem Mirrored.put (mirrored : Mirrored image table table') {u u' : Update κ ρ}
    (same : Mirrors image u u') : Mirrored image (put table u) (put table' u') := by
  intro k
  rw [lookup_put, lookup_put, same.key]
  by_cases here : k = u.key
  · rw [if_pos here, if_pos here, mirrored, here]
    cases table.lookup u.key <;> simp [same.new, same.change]
  · rw [if_neg here, if_neg here, mirrored]

theorem Mirrored.puts (mirrored : Mirrored image table table')
    (same : List.Forall₂ (Mirrors image) us us') :
    Mirrored image (puts table us) (puts table' us') := by
  induction same generalizing table table' with
  | nil => exact mirrored
  | cons first _ ih => exact ih (mirrored.put first)

theorem Mirrored.rows_perm (mirrored : Mirrored image table table') :
    (rows table').Perm (table.entries.map fun e => image e.1 e.2) := by
  let entry := fun e : Sigma fun _ : κ => ρ => (⟨e.1, image e.1 e.2⟩ : Sigma fun _ : κ => ρ)
  have keys : (table.entries.map entry).NodupKeys := by
    unfold List.NodupKeys List.keys
    rw [List.map_map]
    exact table.nodupKeys
  have same : table'.entries.Perm (table.entries.map entry) := by
    apply List.lookup_ext table'.nodupKeys keys
    intro k r
    rw [List.mem_dlookup_iff table'.nodupKeys, List.mem_dlookup_iff keys,
      ← AList.mem_lookup_iff, mirrored k, List.mem_map]
    constructor
    · intro found
      obtain ⟨old, there, rfl⟩ := Option.map_eq_some_iff.mp found
      exact ⟨⟨k, old⟩, AList.mem_lookup_iff.mp there, rfl⟩
    · rintro ⟨⟨k', old⟩, there, equal⟩
      cases equal
      exact Option.map_eq_some_iff.mpr ⟨old, AList.mem_lookup_iff.mpr there, rfl⟩
  have values := same.map Sigma.snd
  rw [List.map_map] at values
  exact values

end

end Tally
