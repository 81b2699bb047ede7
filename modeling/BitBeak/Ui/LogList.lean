import BitBeak.Frame.Filter
import BitBeak.Lib.Viewport
import BitBeak.Session.CaptureTab
import BitBeak.Ui.HitMap

/-! The lists of frames and of packets: the rows that are given to the list widget, and the
regions that are registered for them. -/
namespace BitBeak.Ui
open BitBeak Wire Viewport

/-- A row of a list: a text, or the entry at a place. -/
inductive ListRow (α : Type) where
  | text (line : String)
  | entry (place : Nat) (item : α) (marked : Bool)
  deriving DecidableEq, Repr

def ListRow.place {α : Type} : ListRow α → Option Nat
  | .text _ => none
  | .entry place _ _ => some place

/-- `{:>n}` and `{:n}`. -/
def padLeft (n : Nat) (s : String) : String :=
  String.ofList (List.replicate (n - s.length) ' ') ++ s

def padRight (n : Nat) (s : String) : String :=
  s ++ String.ofList (List.replicate (n - s.length) ' ')

section
variable {α β : Type}

/-- The row that is marked. -/
def markedRow (len selected : Nat) : Nat := if len = 0 then 0 else min selected (len - 1)

/-- The first entry that is shown. The header takes one of the rows that are reckoned with. -/
def logScroll (height len selected : Nat) (follow : Bool) : Nat :=
  if len = 0 then 0
  else if follow then len - max height 1
  else min (markedRow len selected - (height - 1) / 2) (len - max height 1)

/-- The region of an entry, below the border and the header. -/
def rowHit (area : Rect) (scroll : Nat) (hits : HitMap) (i : Nat) : HitMap :=
  let rowY := u16 (area.y + 1 + 1 + u16 (i - scroll))
  if rowY < satAdd area.y (area.height - 1) then
    hits.push (Rect.new (area.x + 1) rowY (area.width - 2) 1) (.logRow i)
  else hits

/-- One turn of the loop over the entries. One that `lookup` does not find is passed over. -/
def drawRow (lookup : α → Option β) (area : Rect) (scroll sel : Nat)
    (drawn : List (ListRow β) × HitMap) (e : α × Nat) : List (ListRow β) × HitMap :=
  match lookup e.1 with
  | none => drawn
  | some item => (drawn.1 ++ [.entry e.2 item (e.2 == sel)], rowHit area scroll drawn.2 e.2)

/-- The list: a header, and the entries that there is room for or a text in their place. -/
def drawList (lookup : α → Option β) (header empty : String) (area : Rect) (l : List α)
    (selected : Nat) (follow : Bool) (hits : HitMap) : List (ListRow β) × HitMap :=
  let height := area.height - 2
  let scroll := logScroll height l.length selected follow
  if l.isEmpty then ([.text header, .text ("  " ++ empty)], hits)
  else
    (window scroll (height - 1) l).foldl
      (drawRow lookup area scroll (markedRow l.length selected)) ([.text header], hits)

end

/- The two lists. -/

def arrow : Direction → String
  | .inward => "<-"
  | .outward => "->"

def frameHeader (showTime : Bool) : String :=
  if showTime then
    padLeft 4 "#" ++ " │ " ++ padRight 12 "Time" ++ " │ " ++ padRight 3 "Dir" ++ " │ " ++
      padLeft 5 "Size" ++ " │ Preview"
  else
    padLeft 4 "#" ++ " │ " ++ padRight 3 "Dir" ++ " │ " ++ padLeft 5 "Size" ++ " │ Preview"

/-- The line of a frame. `wall` is the time of day at which it was seen. -/
def frameLine (wall : Frame → String) (width : Nat) (f : Frame) (marked : Bool) : String :=
  let showTime := 70 ≤ width
  let fixedCols := if showTime then 7 + 15 + 6 + 8 else 7 + 6 + 8
  let previewW := max (width - 2 - fixedCols) 8
  let marker := if marked then ">" else " "
  marker ++ padLeft 3 (toString f.id) ++ " │ " ++
    (if showTime then padRight 12 (wall f) ++ " │ " else "") ++
    padRight 3 (arrow f.direction) ++ " │ " ++
    padLeft 4 (toString f.payload.length) ++ "B │ " ++ f.preview previewW

def drawFrameLog (area : Rect) (frames : List Frame) (selected : Nat) (follow : Bool)
    (emptyHint : String) (hits : HitMap) : List (ListRow Frame) × HitMap :=
  drawList some (frameHeader (70 ≤ area.width)) emptyHint area frames selected follow hits

def packetHeader : String :=
  padLeft 4 "No" ++ " │ " ++ padRight 12 "Time" ++ " │ " ++ padLeft 18 "Source" ++ " │ " ++
    padLeft 18 "Destination" ++ " │ " ++ padLeft 6 "Proto" ++ " │ " ++ padLeft 5 "Len" ++ " │ Info"

/-- The entries are places in the store. -/
def drawCapturePacketList (area : Rect) (store : List StoredPacket) (filtered : List Nat)
    (selected : Nat) (follow : Bool) (emptyMsg : String) (hits : HitMap) :
    List (ListRow StoredPacket) × HitMap :=
  drawList (fun i => store[i]?) packetHeader emptyMsg area filtered selected follow hits

/-- The row of the list that the widget puts on a row of the screen. Inside of its border it
starts with the first one, a row each. -/
def shownAt {α : Type} (area : Rect) (rows : List (ListRow α)) (row : Nat) : Option (ListRow α) :=
  if area.y + 1 ≤ row ∧ row < area.y + (area.height - 1) then rows[row - (area.y + 1)]? else none

/-- Inside of the border a click on an entry that is drawn hits its place; everywhere else it
hits what it hit before. -/
def ClicksShown {α : Type} (area : Rect) (before : HitMap) (drawn : List (ListRow α) × HitMap) :
    Prop :=
  HitMap.Claims (fun col row =>
    if area.x + 1 ≤ col ∧ col < area.x + (area.width - 1) then
      ((shownAt area drawn.1 row).bind ListRow.place).map .logRow
    else none) before drawn.2

/- What is registered. -/

section
variable {area : Rect} {scroll : Nat}

theorem claims_rowHit (hits : HitMap) {n : Nat} (fits : n + 4 ≤ area.height) :
    HitMap.Claims (fun col row =>
      if row = area.y + 2 + n ∧ area.x + 1 ≤ col ∧ col < area.x + (area.width - 1) then
        some (.logRow (scroll + n))
      else none) hits (rowHit area scroll hits (scroll + n)) := by
  have right := area.right_fits
  have bottom := area.bottom_fits
  have offset : u16 (scroll + n - scroll) = n := by
    rw [Nat.add_sub_cancel_left]
    exact u16_of_lt (by omega)
  have rowY : u16 (area.y + 1 + 1 + n) = area.y + 2 + n := by
    rw [u16_of_lt (by omega)]
  have inside : area.y + 2 + n < satAdd area.y (area.height - 1) := by
    unfold satAdd
    omega
  simp only [rowHit, offset, rowY, if_pos inside]
  refine (HitMap.Claims.push _ _ _).congr fun col row => if_congr ?_ rfl rfl
  by_cases narrow : area.width = 0
  · rw [Rect.covers_iff]
    simp only [Rect.new]
    omega
  · rw [Rect.covers_new (by omega) (by omega)]
    constructor
    · rintro ⟨left, right, top, bottom⟩
      omega
    · rintro ⟨here, left, right⟩
      omega

theorem claims_rows (hits : HitMap) {n : Nat} (fits : n + 3 ≤ area.height) :
    HitMap.Claims (fun col row =>
      if area.y + 2 ≤ row ∧ row < area.y + 2 + n ∧
          area.x + 1 ≤ col ∧ col < area.x + (area.width - 1) then
        some (.logRow (scroll + (row - (area.y + 2))))
      else none) hits ((List.range' scroll n).foldl (rowHit area scroll) hits) := by
  induction n with
  | zero =>
    refine (HitMap.Claims.refl hits).congr fun col row => (if_neg ?_).symm
    omega
  | succ n ih =>
    rw [List.range'_1_concat, List.foldl_append]
    refine ((ih (by omega)).trans (claims_rowHit _ (by omega))).congr fun col row => ?_
    by_cases last : row = area.y + 2 + n
    · subst last
      by_cases inside : area.x + 1 ≤ col ∧ col < area.x + (area.width - 1)
      · simp [inside]
      · simp [inside]
    · have same : row < area.y + 2 + (n + 1) ↔ row < area.y + 2 + n := by omega
      simp [last, same]

end

/- What is drawn. -/

section
variable {α β : Type} {lookup : α → Option β} {area : Rect} {scroll sel : Nat}

def listed (lookup : α → Option β) (sel : Nat) (entries : List (α × Nat)) : List (ListRow β) :=
  entries.filterMap fun e => (lookup e.1).map fun item => .entry e.2 item (e.2 == sel)

/-- Where every entry is found, the loop lists them all and registers them all. -/
theorem foldl_drawRow {entries : List (α × Nat)} (found : ∀ e ∈ entries, (lookup e.1).isSome)
    (rows : List (ListRow β)) (hits : HitMap) :
    entries.foldl (drawRow lookup area scroll sel) (rows, hits) =
      (rows ++ listed lookup sel entries,
        (entries.map Prod.snd).foldl (rowHit area scroll) hits) := by
  induction entries generalizing rows hits with
  | nil => simp [listed]
  | cons e entries ih =>
    obtain ⟨item, here⟩ := Option.isSome_iff_exists.mp (found e List.mem_cons_self)
    rw [List.foldl_cons, drawRow, here]
    dsimp only
    rw [ih fun e member => found e (List.mem_cons_of_mem _ member)]
    simp [listed, here]

theorem getElem?_listed {entries : List (α × Nat)} (found : ∀ e ∈ entries, (lookup e.1).isSome)
    (k : Nat) :
    (listed lookup sel entries)[k]? = entries[k]?.bind fun e =>
      (lookup e.1).map fun item => .entry e.2 item (e.2 == sel) := by
  induction entries generalizing k with
  | nil => rfl
  | cons e entries ih =>
    obtain ⟨item, here⟩ := Option.isSome_iff_exists.mp (found e List.mem_cons_self)
    have rest := ih fun e member => found e (List.mem_cons_of_mem _ member)
    unfold listed at rest ⊢
    rw [List.filterMap_cons_some (by rw [here]; rfl)]
    cases k with
    | zero => simp [here]
    | succ k => simpa using rest k

/-- A list that has entries. -/
theorem drawList_eq {l : List α} (some : l ≠ []) (found : ∀ x ∈ l, (lookup x).isSome)
    (header empty : String) (selected : Nat) (follow : Bool) (hits : HitMap) :
    let height := area.height - 2
    let scroll := logScroll height l.length selected follow
    let entries := window scroll (height - 1) l
    drawList lookup header empty area l selected follow hits =
      (.text header :: listed lookup (markedRow l.length selected) entries,
        (List.range' scroll entries.length).foldl (rowHit area scroll) hits) := by
  intro height scroll entries
  have all : ∀ e ∈ entries, (lookup e.1).isSome := fun e member =>
    found e.1 (List.mem_of_getElem? (mem_window.mp member).2)
  have places : entries.map Prod.snd = List.range' scroll entries.length := by
    simp only [entries, window_eq, List.zipIdx_map_snd, List.length_zipIdx]
  have full : l.isEmpty = false := by simpa using some
  simp only [drawList, full, Bool.false_eq_true, if_false]
  rw [foldl_drawRow all, places]
  rfl

/-- Below the header, one place after the other. -/
theorem place_shownAt {l : List α} {room : Nat} (header : String)
    (found : ∀ e ∈ window scroll room l, (lookup e.1).isSome)
    (fits : 0 < (window scroll room l).length → room + 3 ≤ area.height) (row : Nat) :
    (shownAt area (.text header :: listed lookup sel (window scroll room l)) row).bind
        ListRow.place =
      if area.y + 2 ≤ row ∧ row < area.y + 2 + (window scroll room l).length then
        some (scroll + (row - (area.y + 2)))
      else none := by
  have few : (window scroll room l).length ≤ room := by
    rw [length_window]
    exact Nat.min_le_left _ _
  by_cases below : area.y + 2 ≤ row
  · obtain ⟨k, rfl⟩ := Nat.exists_eq_add_of_le below
    have next : area.y + 2 + k - (area.y + 1) = k + 1 := by omega
    have same : area.y + 2 + k - (area.y + 2) = k := Nat.add_sub_cancel_left _ _
    by_cases within : k < (window scroll room l).length
    · have inner : area.y + 2 + k < area.y + (area.height - 1) := by
        have := fits (by omega)
        omega
      obtain ⟨item, here⟩ := Option.isSome_iff_exists.mp
        (found _ (List.getElem_mem within))
      have place := getElem?_window scroll room k l
      rw [if_pos (Nat.lt_of_lt_of_le within few), List.getElem?_eq_getElem within] at place
      obtain ⟨x, -, entry⟩ := Option.map_eq_some_iff.mp place.symm
      rw [shownAt, if_pos ⟨by omega, inner⟩, next, List.getElem?_cons_succ,
        getElem?_listed found, List.getElem?_eq_getElem within, if_pos ⟨below, by omega⟩, same]
      rw [← entry] at here ⊢
      dsimp only at here
      simp only [Option.bind_some, here, Option.map_some, ListRow.place]
    · rw [if_neg (by omega), shownAt]
      split
      · rw [next, List.getElem?_cons_succ, getElem?_listed found,
          List.getElem?_eq_none (Nat.le_of_not_lt within)]
        rfl
      · rfl
  · rw [if_neg (fun inside => below inside.1), shownAt]
    split
    · next inside =>
      have first : row - (area.y + 1) = 0 := by omega
      rw [first]
      rfl
    · rfl

/-- Of a list whose entries are all found. -/
theorem clicksShown_drawList {l : List α} (found : ∀ x ∈ l, (lookup x).isSome)
    (header empty : String) (selected : Nat) (follow : Bool) (hits : HitMap) :
    ClicksShown area hits (drawList lookup header empty area l selected follow hits) := by
  by_cases none : l = []
  · subst none
    refine (HitMap.Claims.refl hits).congr fun col row => ?_
    split
    · unfold shownAt
      split
      · simp only [drawList, List.isEmpty_nil, if_true]
        match row - (area.y + 1) with
        | 0 => rfl
        | 1 => rfl
        | _ + 2 => rfl
      · rfl
    · rfl
  rw [drawList_eq none found]
  set height := area.height - 2
  set scroll := logScroll height l.length selected follow
  set entries := window scroll (height - 1) l with entries_def
  have all : ∀ e ∈ entries, (lookup e.1).isSome := fun e member =>
    found e.1 (List.mem_of_getElem? (mem_window.mp member).2)
  have few : entries.length ≤ height - 1 := by
    rw [entries_def, length_window]
    exact Nat.min_le_left _ _
  have fits : 0 < entries.length → height - 1 + 3 ≤ area.height := by omega
  have registered : HitMap.Claims (fun col row =>
      if area.y + 2 ≤ row ∧ row < area.y + 2 + entries.length ∧
          area.x + 1 ≤ col ∧ col < area.x + (area.width - 1) then
        some (.logRow (scroll + (row - (area.y + 2))))
      else .none) hits ((List.range' scroll entries.length).foldl (rowHit area scroll) hits) := by
    by_cases tall : 3 ≤ area.height
    · exact claims_rows hits (by omega)
    · have nothing : entries.length = 0 := by omega
      rw [nothing]
      refine (HitMap.Claims.refl hits).congr fun col row => (if_neg ?_).symm
      omega
  refine registered.congr fun col row => ?_
  rw [place_shownAt header all fits]
  by_cases inside : area.x + 1 ≤ col ∧ col < area.x + (area.width - 1)
  · by_cases below : area.y + 2 ≤ row ∧ row < area.y + 2 + entries.length
    · rw [if_pos ⟨below.1, below.2, inside⟩, if_pos inside, if_pos below]
      rfl
    · rw [if_neg fun all => below ⟨all.1, all.2.1⟩, if_pos inside, if_neg below]
      rfl
  · rw [if_neg fun all => inside all.2.2, if_neg inside]

/-- Which entries are on the screen. -/
def OnScreen (area : Rect) (drawn : List (ListRow β) × HitMap) (i : Nat) : Prop :=
  ∃ row, (shownAt area drawn.1 row).bind ListRow.place = some i

theorem onScreen_drawList {l : List α} (found : ∀ x ∈ l, (lookup x).isSome)
    (header empty : String) (selected : Nat) (follow : Bool) (hits : HitMap) (i : Nat) :
    OnScreen area (drawList lookup header empty area l selected follow hits) i ↔
      i < l.length ∧ Shows (logScroll (area.height - 2) l.length selected follow)
        (area.height - 2 - 1) i := by
  by_cases none : l = []
  · subst none
    simp only [List.length_nil, Nat.not_lt_zero, false_and, iff_false]
    rintro ⟨row, here⟩
    have texts : ∀ r ∈ (drawList lookup header empty area [] selected follow hits).1,
        r.place = .none := by
      intro r member
      simp only [drawList, List.isEmpty_nil, if_true, List.mem_cons, List.not_mem_nil,
        or_false] at member
      rcases member with rfl | rfl <;> rfl
    obtain ⟨r, shown, place⟩ := Option.bind_eq_some_iff.mp here
    unfold shownAt at shown
    split at shown
    · rw [texts r (List.mem_of_getElem? shown)] at place
      cases place
    · cases shown
  unfold OnScreen
  rw [drawList_eq none found]
  set scroll := logScroll (area.height - 2) l.length selected follow
  set room := area.height - 2 - 1
  have all : ∀ e ∈ window scroll room l, (lookup e.1).isSome := fun e member =>
    found e.1 (List.mem_of_getElem? (mem_window.mp member).2)
  have length := length_window scroll room l
  have fits : 0 < (window scroll room l).length → room + 3 ≤ area.height := by omega
  simp only [place_shownAt header all fits, length]
  constructor
  · rintro ⟨row, here⟩
    split at here
    · next inside =>
      cases here
      unfold Shows
      omega
    · cases here
  · rintro ⟨inside, low, high⟩
    refine ⟨area.y + 2 + (i - scroll), ?_⟩
    rw [if_pos (by omega), Nat.add_sub_cancel_left, Nat.add_sub_cancel' low]

theorem entry_drawList {l : List α} {header empty : String} {selected : Nat} {follow : Bool}
    {hits : HitMap} (found : ∀ x ∈ l, (lookup x).isSome) {i : Nat} {item : β} {marked : Bool}
    (member : .entry i item marked
      ∈ (drawList lookup header empty area l selected follow hits).1) :
    l[i]?.bind lookup = some item ∧ marked = (i == markedRow l.length selected) := by
  by_cases none : l = []
  · subst none
    simp [drawList] at member
  rw [drawList_eq none found] at member
  rcases List.mem_cons.mp member with impossible | member
  · cases impossible
  obtain ⟨⟨x, j⟩, inside, entry⟩ := List.mem_filterMap.mp member
  obtain ⟨found, here, same⟩ := Option.map_eq_some_iff.mp entry
  cases same
  rw [(mem_window.mp inside).2]
  exact ⟨here, rfl⟩

end

end BitBeak.Ui
