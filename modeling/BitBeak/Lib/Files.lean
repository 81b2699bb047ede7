import Mathlib.Data.List.Perm.Subperm
import Mathlib.Data.List.Dedup
import Mathlib.Data.List.Nodup

/-! Files with names: one file of each name, and a write that replaces what was there. -/
namespace Files

variable {κ α : Type} [DecidableEq κ]

def names (files : List (κ × α)) : List κ := files.map Prod.fst

def read (name : κ) (files : List (κ × α)) : Option α :=
  (files.find? fun f => f.1 = name).map Prod.snd

def write (files : List (κ × α)) (f : κ × α) : List (κ × α) :=
  files.filter (fun g => g.1 ≠ f.1) ++ [f]

def writeAll (files : List (κ × α)) (new : List (κ × α)) : List (κ × α) := new.foldl write files

theorem read_write_same (files : List (κ × α)) (f : κ × α) : read f.1 (write files f) = some f.2 := by
  have gone : (files.filter fun g => g.1 ≠ f.1).find? (fun g => g.1 = f.1) = none := by
    simp [List.find?_eq_none]
  rw [read, write, List.find?_append, gone]
  simp

theorem read_write_other {name : κ} {f : κ × α} (other : name ≠ f.1) (files : List (κ × α)) :
    read name (write files f) = read name files := by
  have kept : (files.filter fun g => g.1 ≠ f.1).find? (fun g => g.1 = name) =
      files.find? fun g => g.1 = name := by
    rw [List.find?_filter]
    congr 1
    funext g
    by_cases same : g.1 = name
    · simp [same, other]
    · simp [same]
  rw [read, read, write, List.find?_append, kept]
  cases files.find? fun g => g.1 = name <;> simp [Ne.symm other]

theorem mem_names_write {files : List (κ × α)} {f : κ × α} {name : κ} :
    name ∈ names (write files f) ↔ name = f.1 ∨ name ∈ names files := by
  simp only [names, write, List.map_append, List.mem_append, List.mem_map, List.mem_filter,
    List.map_singleton, List.mem_singleton, decide_eq_true_eq]
  constructor
  · rintro (⟨g, ⟨inside, -⟩, rfl⟩ | rfl)
    · exact .inr ⟨g, inside, rfl⟩
    · exact .inl rfl
  · rintro (rfl | ⟨g, inside, rfl⟩)
    · exact .inr rfl
    · by_cases same : g.1 = f.1
      · exact .inr same
      · exact .inl ⟨g, ⟨inside, same⟩, rfl⟩

theorem nodup_write {files : List (κ × α)} (distinct : (names files).Nodup) (f : κ × α) :
    (names (write files f)).Nodup := by
  have rest : ((files.filter fun g => g.1 ≠ f.1).map Prod.fst).Nodup :=
    distinct.sublist (List.filter_sublist.map _)
  simp only [names, write, List.map_append, List.map_singleton]
  refine List.Nodup.append rest (List.nodup_singleton _) ?_
  intro name inside same
  obtain ⟨g, kept, rfl⟩ := List.mem_map.mp inside
  have other := (List.mem_filter.mp kept).2
  simp [List.mem_singleton.mp same] at other

theorem write_fresh {files : List (κ × α)} {f : κ × α} (fresh : f.1 ∉ names files) :
    write files f = files ++ [f] := by
  have kept : files.filter (fun g => g.1 ≠ f.1) = files := by
    rw [List.filter_eq_self]
    intro g inside
    have named : g.1 ∈ names files := List.mem_map_of_mem inside
    simpa using fun same : g.1 = f.1 => fresh (same ▸ named)
  rw [write, kept]

theorem length_write_le (files : List (κ × α)) (f : κ × α) :
    (write files f).length ≤ files.length + 1 := by
  rw [write, List.length_append]
  exact Nat.succ_le_succ (List.length_filter_le _ _)

/-- A file that is there is read. -/
theorem read_of_mem {files : List (κ × α)} (distinct : (names files).Nodup) {f : κ × α}
    (inside : f ∈ files) : read f.1 files = some f.2 := by
  induction files with
  | nil => cases inside
  | cons g files ih =>
    obtain ⟨fresh, distinct⟩ := List.nodup_cons.mp distinct
    rcases List.mem_cons.mp inside with rfl | later
    · simp [read]
    · have other : g.1 ≠ f.1 := fun same => fresh (same ▸ List.mem_map_of_mem later)
      have rest := ih distinct later
      rw [read] at rest ⊢
      rw [List.find?_cons_of_neg (by simpa using other), rest]

/- Many writes. -/

theorem mem_names_writeAll {files new : List (κ × α)} {name : κ} :
    name ∈ names (writeAll files new) ↔ name ∈ names new ∨ name ∈ names files := by
  induction new generalizing files with
  | nil => simp [writeAll, names]
  | cons f new ih =>
    rw [writeAll, List.foldl_cons, ← writeAll, ih, mem_names_write]
    simp only [names, List.map_cons, List.mem_cons]
    tauto

theorem nodup_writeAll {files : List (κ × α)} (distinct : (names files).Nodup)
    (new : List (κ × α)) : (names (writeAll files new)).Nodup := by
  induction new generalizing files with
  | nil => exact distinct
  | cons f new ih => exact ih (nodup_write distinct f)

/-- What no write has the name of stays as it was. -/
theorem read_writeAll_other {name : κ} {new : List (κ × α)} (other : name ∉ names new)
    (files : List (κ × α)) : read name (writeAll files new) = read name files := by
  induction new generalizing files with
  | nil => rfl
  | cons f new ih =>
    simp only [names, List.map_cons, List.mem_cons, not_or] at other
    rw [writeAll, List.foldl_cons, ← writeAll, ih other.2, read_write_other other.1]

/-- The last write of a name is what is read. -/
theorem read_writeAll_last {name : κ} {content : α} {front behind : List (κ × α)}
    (last : name ∉ names behind) (files : List (κ × α)) :
    read name (writeAll files (front ++ (name, content) :: behind)) = some content := by
  rw [writeAll, List.foldl_append, List.foldl_cons, ← writeAll, ← writeAll,
    read_writeAll_other last, read_write_same (writeAll files front) (name, content)]

theorem mem_names_iff {files : List (κ × α)} {name : κ} :
    name ∈ names files ↔ ∃ content, read name files = some content := by
  induction files with
  | nil => simp [names, read]
  | cons f files ih =>
    by_cases here : f.1 = name
    · simp [names, read, here]
    · simp only [names, List.map_cons, List.mem_cons, Ne.symm here, false_or]
      rw [← names, ih, read, read, List.find?_cons_of_neg (by simpa using here)]

theorem writeAll_append {files new : List (κ × α)} (distinct : (names (files ++ new)).Nodup) :
    writeAll files new = files ++ new := by
  induction new generalizing files with
  | nil => simp [writeAll]
  | cons f new ih =>
    have whole : files ++ f :: new = (files ++ [f]) ++ new := by simp
    have fresh : f.1 ∉ names files := by
      simp only [names, List.map_append, List.map_cons, List.nodup_append] at distinct
      exact fun inside => distinct.2.2 _ inside _ List.mem_cons_self rfl
    rw [whole] at distinct
    rw [writeAll, List.foldl_cons, write_fresh fresh, ← writeAll, ih distinct, whole]

/-- Files of different names are all there, in the order in which they were written. -/
theorem writeAll_nodup {new : List (κ × α)} (distinct : (names new).Nodup) :
    writeAll [] new = new :=
  writeAll_append (by simpa using distinct)

/-- As many files as writes are there only if the names differ. -/
theorem nodup_of_length {new : List (κ × α)} (many : new.length ≤ (writeAll [] new).length) :
    (names new).Nodup := by
  have distinct : (names (writeAll [] new)).Nodup := nodup_writeAll (by simp [names]) new
  have inside : names (writeAll [] new) ⊆ (names new).dedup := by
    intro name there
    rw [List.mem_dedup]
    exact (mem_names_writeAll.mp there).resolve_right (by simp [names])
  have few := (List.subperm_of_subset distinct inside).length_le
  have same : (names new).dedup = names new := by
    apply (List.dedup_sublist (names new)).eq_of_length_le
    simpa [names] using Nat.le_trans (by simpa [names] using many) few
  rw [← same]
  exact List.nodup_dedup _

end Files
