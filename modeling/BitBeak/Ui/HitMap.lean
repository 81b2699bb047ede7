import BitBeak.Session.FormRows
import BitBeak.Session.Focus

/-! What a click hits: the regions that one drawing of the screen leaves behind. Coordinates are
16-bit numbers; a sum of them wraps where the source adds and stops at the end where it
saturates. -/
namespace BitBeak.Ui
open BitBeak

def u16 (n : Nat) : Nat := n % 65536

def satAdd (a b : Nat) : Nat := min (a + b) 65535

theorem u16_of_lt {n : Nat} (small : n < 65536) : u16 n = n := Nat.mod_eq_of_lt small

/-- A rectangle of the terminal. Its far edges are coordinates too. -/
structure Rect where
  x : Nat
  y : Nat
  width : Nat
  height : Nat
  right_fits : x + width ≤ 65535
  bottom_fits : y + height ≤ 65535
  deriving DecidableEq, Repr

namespace Rect

/-- A rectangle that would reach too far is cut. -/
def new (x y width height : Nat) : Rect where
  x := u16 x
  y := u16 y
  width := min width (65535 - u16 x)
  height := min height (65535 - u16 y)
  right_fits := by
    have := Nat.mod_lt x (show 0 < 65536 by decide)
    unfold u16
    omega
  bottom_fits := by
    have := Nat.mod_lt y (show 0 < 65536 by decide)
    unfold u16
    omega

def right (r : Rect) : Nat := satAdd r.x r.width

def bottom (r : Rect) : Nat := satAdd r.y r.height

/-- The cells of a rectangle. -/
def Covers (r : Rect) (col row : Nat) : Prop :=
  r.x ≤ col ∧ col < satAdd r.x r.width ∧ r.y ≤ row ∧ row < satAdd r.y r.height

instance (r : Rect) (col row : Nat) : Decidable (r.Covers col row) :=
  inferInstanceAs (Decidable (_ ∧ _ ∧ _ ∧ _))

@[simp] theorem right_eq (r : Rect) : satAdd r.x r.width = r.x + r.width :=
  Nat.min_eq_left r.right_fits

@[simp] theorem bottom_eq (r : Rect) : satAdd r.y r.height = r.y + r.height :=
  Nat.min_eq_left r.bottom_fits

theorem covers_iff {r : Rect} {col row : Nat} :
    r.Covers col row ↔
      r.x ≤ col ∧ col < r.x + r.width ∧ r.y ≤ row ∧ row < r.y + r.height := by
  rw [Covers, right_eq, bottom_eq]

/-- Of a rectangle that needs no cut. -/
theorem covers_new {x y width height col row : Nat} (wide : x + width ≤ 65535)
    (high : y + height ≤ 65535) :
    (Rect.new x y width height).Covers col row ↔
      x ≤ col ∧ col < x + width ∧ y ≤ row ∧ row < y + height := by
  have left : u16 x = x := u16_of_lt (by omega)
  have top : u16 y = y := u16_of_lt (by omega)
  rw [covers_iff]
  simp only [Rect.new, left, top]
  rw [Nat.min_eq_left (Nat.le_sub_of_add_le (by omega)),
    Nat.min_eq_left (Nat.le_sub_of_add_le (by omega))]

/-- Of one that may be cut at the last column, on the columns in front of that. -/
theorem covers_new_cut {x y width height col row : Nat} (left : x ≤ 65535)
    (high : y + height ≤ 65535) (before : col < 65535) :
    (Rect.new x y width height).Covers col row ↔
      x ≤ col ∧ col < x + width ∧ y ≤ row ∧ row < y + height := by
  have same : u16 x = x := u16_of_lt (by omega)
  have top : u16 y = y := u16_of_lt (by omega)
  rw [covers_iff]
  simp only [Rect.new, same, top, Nat.min_eq_left (Nat.le_sub_of_add_le' high)]
  refine and_congr_right fun _ => and_congr_left fun _ => ?_
  rcases Nat.le_total width (65535 - x) with fits | cut
  · rw [Nat.min_eq_left fits]
  · rw [Nat.min_eq_right cut]
    omega

/-- What `block.inner` leaves of an area inside of a border on all sides. -/
def inner (r : Rect) : Rect where
  x := min (r.x + 1) r.right
  y := min (r.y + 1) r.bottom
  width := r.width - 2
  height := r.height - 2
  right_fits := by
    have right := r.right_fits
    rw [Rect.right, right_eq]
    omega
  bottom_fits := by
    have bottom := r.bottom_fits
    rw [Rect.bottom, bottom_eq]
    omega

end Rect

/-- The panes that can have the focus. -/
inductive Pane where
  | log
  | inspector
  | composer
  | clients
  | form
  | history
  | tree
  | hex
  deriving DecidableEq, Repr

inductive InspectMode where
  | hex
  | raw
  | json
  | msgPack
  deriving DecidableEq, Repr

inductive Target where
  | tab (i : Nat)
  | newTab
  | focus (pane : Pane)
  | httpField (field : HttpField)
  | inspectMode (mode : InspectMode)
  | footerF (n : Nat)
  | send
  | broadcast
  | logRow (i : Nat)
  | historyRow (i : Nat)
  | quitYes
  | quitNo
  | newKind (kind : Nat)
  | collectionRow (i : Nat)
  | overlayDismiss
  deriving DecidableEq, Repr

structure HitMap where
  hits : List (Rect × Target) := []
  deriving DecidableEq, Repr

namespace HitMap

def push (m : HitMap) (rect : Rect) (target : Target) : HitMap :=
  if 0 < rect.width ∧ 0 < rect.height then { hits := m.hits ++ [(rect, target)] } else m

/-- The region that was registered last wins. -/
def hit (m : HitMap) (col row : Nat) : Option Target :=
  (m.hits.reverse.find? fun e => e.1.Covers col row).map Prod.snd

theorem hit_push (m : HitMap) (rect : Rect) (target : Target) (col row : Nat) :
    (m.push rect target).hit col row =
      if rect.Covers col row then some target else m.hit col row := by
  unfold push
  split
  · simp only [hit, List.reverse_append, List.reverse_singleton, List.singleton_append,
      List.find?_cons]
    by_cases covered : rect.Covers col row <;> simp [covered]
  · next empty =>
    rw [if_neg]
    intro covered
    rw [Rect.covers_iff] at covered
    omega

/-- What one or more registrations do to the answers: the cells that they claim answer as they
say, and all others as before. -/
def Claims (claim : Nat → Nat → Option Target) (before after : HitMap) : Prop :=
  ∀ col row, after.hit col row = (claim col row).or (before.hit col row)

theorem Claims.push (m : HitMap) (rect : Rect) (target : Target) :
    Claims (fun col row => if rect.Covers col row then some target else none) m
      (m.push rect target) := by
  intro col row
  rw [hit_push]
  by_cases covered : rect.Covers col row <;> simp [covered]

theorem Claims.refl (m : HitMap) : Claims (fun _ _ => none) m m := fun _ _ => by simp

theorem Claims.trans {first second : Nat → Nat → Option Target} {a b c : HitMap}
    (early : Claims first a b) (late : Claims second b c) :
    Claims (fun col row => (second col row).or (first col row)) a c := by
  intro col row
  rw [late, early, Option.or_assoc]

theorem Claims.congr {claim same : Nat → Nat → Option Target} {a b : HitMap}
    (claims : Claims claim a b) (eq : ∀ col row, claim col row = same col row) :
    Claims same a b := fun col row => by rw [claims, eq]

end HitMap

end BitBeak.Ui
