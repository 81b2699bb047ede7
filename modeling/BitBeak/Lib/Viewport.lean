import Mathlib.Tactic.Common

/-! A window on the rows of a list: which rows it has, and how it is placed so that one row is
among them. -/
namespace Viewport

variable {α : Type}

/-- The rows from `scroll` on that there is room for, each with its place. -/
def window (scroll room : Nat) (l : List α) : List (α × Nat) := (l.zipIdx.drop scroll).take room

def Shows (scroll room row : Nat) : Prop := scroll ≤ row ∧ row < scroll + room

instance (scroll room row : Nat) : Decidable (Shows scroll room row) :=
  inferInstanceAs (Decidable (_ ∧ _))

/-- With half of the room above the row, as far as there are rows above it. -/
def centred (room row : Nat) : Nat := row - (room - 1) / 2

/-- Centred, but never further down than the last full window. -/
def clamped (len room row : Nat) : Nat := min (centred room row) (len - room)

/-- A window that stays where it is for as long as it shows the row. -/
def chase (scroll room row : Nat) : Nat :=
  let scroll := if row < scroll then row else scroll
  if scroll + room ≤ row then row + 1 - room else scroll

/- What a window has. -/

theorem getElem?_window (scroll room k : Nat) (l : List α) :
    (window scroll room l)[k]? =
      if k < room then l[scroll + k]?.map (·, scroll + k) else none := by
  rw [window, List.getElem?_take]
  split
  · rw [List.getElem?_drop, List.getElem?_zipIdx, Nat.zero_add]
  · rfl

theorem window_eq (scroll room : Nat) (l : List α) :
    window scroll room l = ((l.drop scroll).take room).zipIdx scroll := by
  apply List.ext_getElem?
  intro k
  rw [getElem?_window, List.getElem?_zipIdx, List.getElem?_take, List.getElem?_drop]
  split
  · rfl
  · rfl

theorem mem_window {scroll room i : Nat} {x : α} {l : List α} :
    (x, i) ∈ window scroll room l ↔ Shows scroll room i ∧ l[i]? = some x := by
  rw [List.mem_iff_getElem?]
  constructor
  · rintro ⟨k, here⟩
    rw [getElem?_window] at here
    split at here
    · next within =>
      obtain ⟨y, found, same⟩ := Option.map_eq_some_iff.mp here
      cases same
      exact ⟨⟨Nat.le_add_right _ _, Nat.add_lt_add_left within _⟩, found⟩
    · cases here
  · rintro ⟨⟨low, high⟩, found⟩
    refine ⟨i - scroll, ?_⟩
    rw [getElem?_window, if_pos (by omega), Nat.add_sub_cancel' low, found]
    rfl

theorem length_window (scroll room : Nat) (l : List α) :
    (window scroll room l).length = min room (l.length - scroll) := by
  rw [window, List.length_take, List.length_drop, List.length_zipIdx]

/- What the placements show. -/

theorem shows_centred {room : Nat} (some : 0 < room) (row : Nat) :
    Shows (centred room row) room row := by
  unfold Shows centred
  omega

theorem shows_clamped {len room row : Nat} (some : 0 < room) (inside : row < len) :
    Shows (clamped len room row) room row := by
  unfold Shows clamped centred
  omega

/-- A window with room for one row less than what it was clamped for does not get to the last
row of a long list, and has every other one. -/
theorem shows_clamped_short {len room row : Nat} (inside : row < len) :
    Shows (clamped len (max room 1) row) (room - 1) row ↔
      2 ≤ room ∧ (len < room ∨ row + 1 < len) := by
  unfold Shows clamped centred
  omega

theorem shows_chase {room : Nat} (some : 0 < room) (scroll row : Nat) :
    Shows (chase scroll room row) room row := by
  unfold Shows chase
  dsimp only
  split <;> split <;> omega

theorem chase_eq_self {scroll room row : Nat} (shows : Shows scroll room row) :
    chase scroll room row = scroll := by
  unfold chase
  dsimp only
  rw [if_neg (Nat.not_lt.mpr shows.1), if_neg (Nat.not_le.mpr shows.2)]

end Viewport
