import BitBeak.Ui.HitMap

/-! The dialogs that are drawn over a session: where they stand, what they register, and what a
click hits while one is open. -/
namespace BitBeak.Ui
open BitBeak

def centered (area : Rect) (w h : Nat) : Rect :=
  let x := u16 (area.x + (area.width - w) / 2)
  let y := u16 (area.y + (area.height - h) / 2)
  Rect.new x y (min w area.width) (min h area.height)

/-- Four strips around the dialog. -/
def registerOverlayDismiss (area dialog : Rect) (hits : HitMap) : HitMap :=
  let hits :=
    if area.y < dialog.y then
      hits.push (Rect.new area.x area.y area.width (dialog.y - area.y)) .overlayDismiss
    else hits
  let belowY := satAdd dialog.y dialog.height
  let hits :=
    if belowY < satAdd area.y area.height then
      hits.push (Rect.new area.x belowY area.width (satAdd area.y area.height - belowY))
        .overlayDismiss
    else hits
  let hits :=
    if area.x < dialog.x then
      hits.push (Rect.new area.x dialog.y (dialog.x - area.x) dialog.height) .overlayDismiss
    else hits
  let rightX := satAdd dialog.x dialog.width
  if rightX < satAdd area.x area.width then
    hits.push (Rect.new rightX dialog.y (satAdd area.x area.width - rightX) dialog.height)
      .overlayDismiss
  else hits

theorem HitMap.hit_ite (c : Prop) [Decidable c] (m : HitMap) (rect : Rect) (target : Target)
    (col row : Nat) :
    (if c then m.push rect target else m).hit col row =
      if c ∧ rect.Covers col row then some target else m.hit col row := by
  by_cases registered : c
  · rw [if_pos registered, hit_push]
    exact if_congr (by simp [registered]) rfl rfl
  · rw [if_neg registered, if_neg fun both => registered both.1]

/-- A strip that is registered only where it is not empty. -/
theorem Rect.covers_strip {c : Prop} {x y width height col row : Nat}
    (fits : c → x + width ≤ 65535 ∧ y + height ≤ 65535) :
    (c ∧ (Rect.new x y width height).Covers col row) ↔
      c ∧ x ≤ col ∧ col < x + width ∧ y ≤ row ∧ row < y + height :=
  and_congr_right fun some => covers_new (fits some).1 (fits some).2

/-- The strips are what the dialog leaves of the area, wherever it stands. -/
theorem hit_registerOverlayDismiss {area : Rect} (dialog : Rect) (hits : HitMap)
    {col row : Nat} (inside : area.Covers col row) :
    (registerOverlayDismiss area dialog hits).hit col row =
      if dialog.Covers col row then hits.hit col row else some .overlayDismiss := by
  have areaRight := area.right_fits
  have areaBottom := area.bottom_fits
  have right := dialog.right_fits
  have bottom := dialog.bottom_fits
  rw [Rect.covers_iff] at inside
  unfold registerOverlayDismiss
  simp only [HitMap.hit_ite, Rect.right_eq, Rect.bottom_eq]
  simp (disch := omega) only [Rect.covers_strip]
  simp only [Rect.covers_iff]
  by_cases within : dialog.x ≤ col ∧ col < dialog.x + dialog.width ∧ dialog.y ≤ row ∧
      row < dialog.y + dialog.height
  · rw [if_pos within, if_neg (by omega), if_neg (by omega),
      if_neg (by omega), if_neg (by omega)]
  · rw [if_neg within]
    split
    · rfl
    · split
      · rfl
      · split
        · rfl
        · rw [if_pos (by omega)]

/- The dialogs. -/

/-- Where a dialog stands, and what it registers beside the strips, in order. -/
structure Dialog where
  rect : Rect
  buttons : List (Rect × Target) := []

/-- What the dialogs read: the requests of the collection, if there is one, the names of the
collections, which of the two are listed, and whether a capture is in front. -/
structure DialogView where
  requests : Option Nat
  collectionNames : Nat
  collectionShowRequests : Bool
  capture : Bool

def drawHelp (area : Rect) : Dialog where
  rect := centered area 78 (if area.height < 24 then 18 else 22)

def drawQuit (area : Rect) : Dialog :=
  let r := centered area 42 7
  { rect := r
    buttons := [(Rect.new (r.x + 5) (r.y + 3) 7 1, .quitYes),
      (Rect.new (r.x + 18) (r.y + 3) 6 1, .quitNo)] }

/-- The number of `NEW_KINDS`. -/
def newKinds : Nat := 7

def drawNewSession (area : Rect) : Dialog :=
  let r := centered area 56 16
  let inner := r.inner
  { rect := r
    buttons := (List.range newKinds).map fun i =>
      (Rect.new inner.x (satAdd inner.y i) inner.width 1, .newKind i) }

def drawNewSessionUri (area : Rect) (kind : Nat) : Dialog where
  rect := centered area 72 (if kind = 3 then 14 else 11)

def drawFilter (area : Rect) : Dialog where
  rect := Rect.new (area.x + 2) (area.bottom - 5) (area.width - 4) 4

/-- The rows of a list that does not scroll. -/
def collectionRows (r : Rect) (count : Nat) : List (Rect × Target) :=
  (List.range count).filterMap fun i =>
    let rowY := satAdd (satAdd r.y 1) (u16 i)
    if rowY < satAdd r.y (r.height - 1) then
      some (Rect.new (satAdd r.x 1) rowY (r.width - 2) 1, .collectionRow i)
    else none

def drawCollections (view : DialogView) (area : Rect) : Dialog :=
  let r := centered area 60 18
  { rect := r
    buttons := collectionRows r
      (if view.collectionShowRequests then view.requests.getD 0 else view.collectionNames) }

def drawEditOverlay (area : Rect) : Dialog where
  rect := centered area 72 16

def drawBench (area : Rect) : Dialog where
  rect := centered area 60 10

def drawFuzz (area : Rect) : Dialog where
  rect := centered area 56 12

def drawPalette (area : Rect) : Dialog where
  rect := Rect.new (area.x + 4) (area.y + 2) (area.width - 8) 3

/-- Nothing is drawn unless a capture is in front. -/
def drawCaptureOverlay (view : DialogView) (area : Rect) : Option Dialog :=
  if view.capture then
    some { rect := centered area (min (max area.width 50) 76) (min (max area.height 10) 22) }
  else none

def drawOverlay (view : DialogView) (area : Rect) : Overlay → Option Dialog
  | .none => none
  | .help => some (drawHelp area)
  | .quit => some (drawQuit area)
  | .closeConfirm => some (drawQuit area)
  | .newSession => some (drawNewSession area)
  | .newSessionUri kind => some (drawNewSessionUri area kind)
  | .filter => some (drawFilter area)
  | .collections => some (drawCollections view area)
  | .bench => some (drawBench area)
  | .fuzz => some (drawFuzz area)
  | .commandPalette => some (drawPalette area)
  | .followStream | .conversations | .endpoints | .hierarchy | .expert | .keylog =>
    drawCaptureOverlay view area
  | .testsEdit | .preScriptEdit => some (drawEditOverlay area)

/-- What a dialog registers over what is there. -/
def Dialog.register (area : Rect) (dialog : Dialog) (hits : HitMap) : HitMap :=
  dialog.buttons.foldl (fun hits b => hits.push b.1 b.2)
    (registerOverlayDismiss area dialog.rect hits)

/-- The button of a cell; the last one that covers it. -/
def Dialog.buttonAt (dialog : Dialog) (col row : Nat) : Option Target :=
  (dialog.buttons.reverse.find? fun b => b.1.Covers col row).map Prod.snd

theorem claims_pushes (hits : HitMap) (buttons : List (Rect × Target)) :
    HitMap.Claims (fun col row =>
        (buttons.reverse.find? fun b => b.1.Covers col row).map Prod.snd) hits
      (buttons.foldl (fun hits b => hits.push b.1 b.2) hits) := by
  induction buttons using List.reverseRecOn with
  | nil => exact HitMap.Claims.refl hits
  | append_singleton buttons b ih =>
    rw [List.foldl_append]
    refine (ih.trans (HitMap.Claims.push _ b.1 b.2)).congr fun col row => ?_
    rw [List.reverse_append, List.reverse_singleton, List.singleton_append, List.find?_cons]
    by_cases covered : b.1.Covers col row <;> simp [covered]

/-- With a dialog open a click is on one of its buttons, closes it where it is not, and on the
rest of the dialog hits what lies below. -/
theorem hit_register {area : Rect} (dialog : Dialog) (hits : HitMap) {col row : Nat}
    (inside : area.Covers col row) :
    (dialog.register area hits).hit col row =
      (dialog.buttonAt col row).or
        (if dialog.rect.Covers col row then hits.hit col row else some .overlayDismiss) := by
  rw [Dialog.register, claims_pushes, hit_registerOverlayDismiss dialog.rect hits inside]
  rfl

end BitBeak.Ui
