import BitBeak.Session.SelectedPacket
import BitBeak.Session.Stream
import BitBeak.Ui.LogList

/-! The selection of a log while frames or packets arrive and keys and clicks move it, and what of
it the log shows. -/
namespace BitBeak.Ui
open BitBeak Viewport

/-- What a log is placed by: how many entries pass its filter, and the selection. -/
structure LogPane where
  rows : Nat
  selected : Nat
  follow : Bool

/-- A log that is followed has the selection at its last entry or behind it. -/
def LogPane.Settled (p : LogPane) : Prop := p.follow = true → p.rows ≤ p.selected + 1

def LogPane.marked (p : LogPane) : Nat := markedRow p.rows p.selected

/-- The entries that a log of this height shows. -/
def LogPane.Shown (p : LogPane) (height i : Nat) : Prop :=
  i < p.rows ∧ Shows (logScroll height p.rows p.selected p.follow) (height - 1) i

namespace LogPane

/-- As long as the log fits, all of it is shown; the last entry of a longer one never is. -/
theorem shown_last (p : LogPane) (some : 0 < p.rows) (height : Nat) :
    p.Shown height (p.rows - 1) ↔ 2 ≤ height ∧ p.rows < height := by
  have some' : p.rows ≠ 0 := by omega
  unfold Shown logScroll Shows
  rw [if_neg some']
  split <;> omega

/-- The marked entry is shown unless it is the last one of a log that does not fit. -/
theorem shown_marked {p : LogPane} (settled : p.Settled) (some : 0 < p.rows) (height : Nat) :
    p.Shown height p.marked ↔ 2 ≤ height ∧ (p.rows < height ∨ p.marked + 1 < p.rows) := by
  have some' : p.rows ≠ 0 := by omega
  have inside : p.marked < p.rows := by
    unfold marked markedRow
    rw [if_neg some']
    omega
  by_cases follow : p.follow = true
  · have last : p.marked = p.rows - 1 := by
      have behind := settled follow
      unfold marked markedRow
      rw [if_neg some']
      omega
    rw [last, shown_last p some]
    omega
  · unfold Shown logScroll
    rw [if_neg some', if_neg follow]
    have placed : Shows (clamped _ (max height 1) _) (height - 1) _ ↔ _ :=
      shows_clamped_short inside
    unfold clamped centred at placed
    rw [show (max height 1 - 1) / 2 = (height - 1) / 2 by omega] at placed
    exact ⟨fun shown => placed.mp shown.2, fun fits => ⟨inside, placed.mpr fits⟩⟩

end LogPane

/- What moves a selection. -/

/-- `jump_top` and `jump_bottom`. -/
def jumpTop : Nat × Bool := (0, false)

def jumpBottom (len : Nat) : Nat × Bool := if len = 0 then (0, true) else (len - 1, true)

/-- `select_log_row`, of a row that may be gone. -/
def selectRow (len selected : Nat) (follow : Bool) (i : Nat) : Nat × Bool :=
  if i < len then (i, len ≤ i + 1) else (selected, follow)

theorem settled_move (len selected : Nat) (follow : Bool) (delta : Int) :
    LogPane.Settled ⟨len, (moveSelection selected len follow delta).1,
      (moveSelection selected len follow delta).2⟩ := by
  unfold moveSelection LogPane.Settled
  dsimp only
  split
  · intro _
    omega
  · intro follow
    simpa using follow

/-- Two moves one way are one move. -/
theorem moveSelection_add {selected len : Nat} {follow : Bool} {a b : Int}
    (oneWay : 0 < a ∧ 0 < b ∨ a < 0 ∧ b < 0) :
    moveSelection (moveSelection selected len follow a).1 len
        (moveSelection selected len follow a).2 b =
      moveSelection selected len follow (a + b) := by
  unfold moveSelection
  by_cases none : len = 0
  · simp only [if_pos none]
  · simp only [if_neg none]
    rcases oneWay with ⟨downA, downB⟩ | ⟨upA, upB⟩
    · rw [if_neg (by omega), if_neg (by omega), if_neg (by omega)]
      have same : min (min (min (min selected (len - 1) + a.toNat) (len - 1)) (len - 1) + b.toNat)
          (len - 1) = min (min selected (len - 1) + (a + b).toNat) (len - 1) := by omega
      rw [same]
    · rw [if_pos upA, if_pos upB, if_pos (by omega)]
      have same : min (min selected (len - 1) - (-a).toNat) (len - 1) - (-b).toNat =
          min selected (len - 1) - (-(a + b)).toNat := by omega
      rw [same]

theorem settled_jumpTop (len : Nat) : LogPane.Settled ⟨len, jumpTop.1, jumpTop.2⟩ :=
  fun on => Bool.noConfusion on

theorem settled_jumpBottom (len : Nat) :
    LogPane.Settled ⟨len, (jumpBottom len).1, (jumpBottom len).2⟩ := by
  intro _
  unfold jumpBottom
  dsimp only
  split <;> omega

theorem settled_selectRow {len selected : Nat} {follow : Bool} (i : Nat)
    (settled : LogPane.Settled ⟨len, selected, follow⟩) :
    LogPane.Settled ⟨len, (selectRow len selected follow i).1,
      (selectRow len selected follow i).2⟩ := by
  unfold selectRow
  split
  · intro follow
    simpa using follow
  · exact settled

end BitBeak.Ui

namespace BitBeak
open Ui Viewport

/- A stream. -/

namespace StreamSession

def rows (s : StreamSession) : List Frame := s.frames.filtered s.filter

def pane (s : StreamSession) : LogPane := ⟨s.rows.length, s.selected, s.follow⟩

/-- The selection is put somewhere. -/
def place (s : StreamSession) (cursor : Nat × Bool) : StreamSession :=
  { s with selected := cursor.1, follow := cursor.2 }

def navUp (s : StreamSession) : StreamSession :=
  s.place (moveSelection s.selected s.rows.length s.follow (-1))

def navDown (s : StreamSession) : StreamSession :=
  s.place (moveSelection s.selected s.rows.length s.follow 1)

/-- `nav` goes row by row in a stream. -/
def nav (s : StreamSession) (delta : Int) : StreamSession :=
  if 0 < delta then navDown^[delta.toNat] s else navUp^[(-delta).toNat] s

def navTop (s : StreamSession) : StreamSession := s.place jumpTop

def navBottom (s : StreamSession) : StreamSession := s.place (jumpBottom s.rows.length)

def selectLogRow (s : StreamSession) (i : Nat) : StreamSession :=
  s.place (selectRow s.rows.length s.selected s.follow i)

theorem navDown_iterate (s : StreamSession) (n : Nat) :
    navDown^[n + 1] s = s.place (moveSelection s.selected s.rows.length s.follow (n + 1 : Nat)) := by
  induction n with
  | zero => rfl
  | succ n ih =>
    rw [Function.iterate_succ_apply', ih, navDown]
    exact congrArg s.place (moveSelection_add (.inl ⟨by omega, by omega⟩))

theorem navUp_iterate (s : StreamSession) (n : Nat) :
    navUp^[n + 1] s =
      s.place (moveSelection s.selected s.rows.length s.follow (-((n + 1 : Nat) : Int))) := by
  induction n with
  | zero => rfl
  | succ n ih =>
    rw [Function.iterate_succ_apply', ih, navUp]
    refine congrArg s.place ((moveSelection_add (.inr ⟨by omega, by omega⟩)).trans ?_)
    exact congrArg (moveSelection _ _ _) (by omega)

/-- Row by row is as far as all at once. -/
theorem nav_eq (s : StreamSession) {delta : Int} (moves : delta ≠ 0) :
    s.nav delta = s.place (moveSelection s.selected s.rows.length s.follow delta) := by
  unfold nav
  split
  · next down =>
    obtain ⟨n, steps⟩ : ∃ n, delta.toNat = n + 1 := ⟨delta.toNat - 1, by omega⟩
    rw [steps, navDown_iterate, ← steps, Int.toNat_of_nonneg (by omega)]
  · next up =>
    obtain ⟨n, steps⟩ : ∃ n, (-delta).toNat = n + 1 := ⟨(-delta).toNat - 1, by omega⟩
    rw [steps, navUp_iterate, ← steps, Int.toNat_of_nonneg (by omega), neg_neg]

end StreamSession

/-- What happens to the log of a stream while its filter stays. -/
inductive StreamLogAct where
  | io (event : IoEvent)
  | nav (delta : Int)
  | top
  | bottom
  | click (i : Nat)

namespace StreamSession

def logStep (s : StreamSession) : StreamLogAct → StreamSession
  | .io event => s.onIo event
  | .nav delta => s.nav delta
  | .top => s.navTop
  | .bottom => s.navBottom
  | .click i => s.selectLogRow i

theorem settled_logStep {s : StreamSession} (settled : s.pane.Settled) (act : StreamLogAct) :
    (s.logStep act).pane.Settled := by
  cases act with
  | io event =>
    cases event with
    | frame direction payload peer =>
      intro follow
      change (s.frames.pushFull direction payload peer none |>.filtered s.filter).length ≤ _ + 1
      change s.follow = true at follow
      simp only [logStep, onIo, pane, follow, true_and]
      split <;> omega
    | _ => exact settled
  | nav delta =>
    by_cases still : delta = 0
    · subst still
      exact settled
    · rw [logStep, nav_eq s still]
      exact settled_move _ _ _ delta
  | top => exact settled_jumpTop _
  | bottom => exact settled_jumpBottom _
  | click i => exact settled_selectRow i settled

theorem settled_run {s : StreamSession} (settled : s.pane.Settled) (acts : List StreamLogAct) :
    (acts.foldl logStep s).pane.Settled := by
  induction acts generalizing s with
  | nil => exact settled
  | cons act acts ih => exact ih (settled_logStep settled act)

/-- Without a filter the selection is one of the frames. -/
def Inside (s : StreamSession) : Prop :=
  s.filter = "" ∧ (s.selected < s.rows.length ∨ s.rows.length = 0 ∧ s.selected = 0)

theorem rows_unfiltered {s : StreamSession} (all : s.filter = "") : s.rows = s.frames.frames := by
  simp [rows, all, FrameBuffer.filtered, Frame.matchesFilter]

theorem length_pushFull (buf : FrameBuffer) (direction : Direction) (payload : Wire.Bytes)
    (peer metadata : Option String) :
    0 < (buf.pushFull direction payload peer metadata).frames.length ∧
      buf.frames.length ≤ (buf.pushFull direction payload peer metadata).frames.length := by
  simp only [FrameBuffer.pushFull, List.length_append, List.length_singleton]
  split
  · rw [List.length_tail]
    omega
  · omega

theorem inside_move {s : StreamSession} (inside : s.Inside) (delta : Int) :
    (s.place (moveSelection s.selected s.rows.length s.follow delta)).Inside := by
  refine ⟨inside.1, ?_⟩
  change (moveSelection _ s.rows.length _ _).1 < s.rows.length ∨
    s.rows.length = 0 ∧ (moveSelection _ s.rows.length _ _).1 = 0
  unfold moveSelection
  split
  · next none => exact .inr ⟨none, rfl⟩
  · left
    dsimp only
    split <;> omega

theorem inside_logStep {s : StreamSession} (inside : s.Inside) (act : StreamLogAct) :
    (s.logStep act).Inside := by
  cases act with
  | io event =>
    cases event with
    | frame direction payload peer =>
      have grown := length_pushFull s.frames direction payload peer none
      refine ⟨inside.1, .inl ?_⟩
      have before := rows_unfiltered inside.1
      have after : (s.logStep (.io (.frame direction payload peer))).rows =
          (s.frames.pushFull direction payload peer none).frames := rows_unfiltered inside.1
      rw [after]
      have same : (s.frames.pushFull direction payload peer none).filtered s.filter =
          (s.frames.pushFull direction payload peer none).frames := after
      simp only [logStep, onIo, same]
      have low := inside.2
      rw [before] at low
      split <;> omega
    | _ => exact inside
  | nav delta =>
    by_cases still : delta = 0
    · subst still
      exact inside
    · rw [logStep, nav_eq s still]
      exact inside_move inside delta
  | top =>
    refine ⟨inside.1, ?_⟩
    change 0 < s.rows.length ∨ s.rows.length = 0 ∧ 0 = 0
    omega
  | bottom =>
    refine ⟨inside.1, ?_⟩
    change (jumpBottom s.rows.length).1 < s.rows.length ∨
      s.rows.length = 0 ∧ (jumpBottom s.rows.length).1 = 0
    unfold jumpBottom
    split
    · next none => exact .inr ⟨none, rfl⟩
    · left
      dsimp only
      omega
  | click i =>
    refine ⟨inside.1, ?_⟩
    change (selectRow s.rows.length s.selected s.follow i).1 < s.rows.length ∨
      s.rows.length = 0 ∧ (selectRow s.rows.length s.selected s.follow i).1 = 0
    unfold selectRow
    split
    · next within => exact .inl within
    · exact inside.2

theorem inside_run {s : StreamSession} (inside : s.Inside) (acts : List StreamLogAct) :
    (acts.foldl logStep s).Inside := by
  induction acts generalizing s with
  | nil => exact inside
  | cons act acts ih => exact ih (inside_logStep inside act)

/-- The frame that is inspected and replayed is the marked one. -/
theorem selectedFrame_marked {s : StreamSession} (inside : s.Inside) :
    s.selectedFrame = s.rows[s.pane.marked]? := by
  have same : s.rows.length = 0 ∨ s.pane.marked = s.selected := by
    have low := inside.2
    by_cases none : s.rows.length = 0
    · exact .inl none
    · right
      change markedRow s.rows.length s.selected = s.selected
      rw [markedRow, if_neg none]
      omega
  rcases same with none | same
  · have empty : s.rows = [] := List.eq_nil_of_length_eq_zero none
    change s.rows[s.selected]? = _
    rw [empty]
    rfl
  · rw [same]
    rfl

end StreamSession

/- A capture. -/

namespace CaptureTab

section
variable {R : Type} (isMatch : R → String → Bool)

def pane (tab : CaptureTab R) : LogPane :=
  ⟨(tab.filteredIndices isMatch).length, tab.selected, tab.follow⟩

def place (tab : CaptureTab R) (cursor : Nat × Bool) : CaptureTab R :=
  { tab with selected := cursor.1, follow := cursor.2 }

/-- Without packets the selection goes to the top, and the rest stays. -/
def nav (tab : CaptureTab R) (delta : Int) : CaptureTab R :=
  let n := (tab.filteredIndices isMatch).length
  if n = 0 then { tab with selected := 0 }
  else
    let cur := min tab.selected (n - 1)
    let selected := if delta < 0 then cur - (-delta).toNat else min (cur + delta.toNat) (n - 1)
    { tab with selected := selected, follow := n ≤ selected + 1 }

def navHome (tab : CaptureTab R) : CaptureTab R := { tab with selected := 0, follow := false }

def navEnd (tab : CaptureTab R) : CaptureTab R :=
  let n := (tab.filteredIndices isMatch).length
  if 0 < n then { tab with selected := n - 1, follow := true } else tab

def selectLogRow (tab : CaptureTab R) (i : Nat) : CaptureTab R :=
  let len := (tab.filteredIndices isMatch).length
  if i < len then { tab with selected := i, follow := len ≤ i + 1 } else tab

/-- `nav` is `move_selection`. -/
theorem nav_eq (tab : CaptureTab R) (delta : Int) :
    tab.nav isMatch delta = tab.place
      (moveSelection tab.selected (tab.filteredIndices isMatch).length tab.follow delta) := by
  unfold nav moveSelection place
  dsimp only
  split <;> rfl

theorem selectLogRow_eq (tab : CaptureTab R) (i : Nat) :
    tab.selectLogRow isMatch i = tab.place
      (selectRow (tab.filteredIndices isMatch).length tab.selected tab.follow i) := by
  unfold selectLogRow selectRow place
  dsimp only
  split <;> rfl

end

end CaptureTab

/-- What happens to the list of packets while the display filter stays. -/
inductive CaptureLogAct where
  | drain (batch : List (DiskAnswers × TimedPacket)) (last : TryRecvError)
  | nav (delta : Int)
  | top
  | bottom
  | click (i : Nat)

namespace CaptureTab

variable {R : Type} (isMatch : R → String → Bool) (blockSize : PcapNgBlock → Nat)

def logStep (tab : CaptureTab R) : CaptureLogAct → CaptureTab R
  | .drain batch last => tab.drainPackets isMatch blockSize batch last
  | .nav delta => tab.nav isMatch delta
  | .top => tab.navHome
  | .bottom => tab.navEnd isMatch
  | .click i => tab.selectLogRow isMatch i

variable {isMatch} {blockSize} {tab : CaptureTab R}

theorem settled_takeIn (tab : CaptureTab R) (received : DiskAnswers × TimedPacket) :
    ((tab.takeIn isMatch blockSize received).pane isMatch).Settled := by
  unfold takeIn
  dsimp only
  split
  · split
    · next some =>
      intro _
      exact Nat.le_of_eq (Nat.succ_pred_eq_of_pos some).symm
    · next none =>
      intro _
      exact Nat.le_trans (Nat.le_of_not_lt none) (Nat.zero_le _)
  · next off => exact fun on => absurd on off

theorem settled_logStep (settled : (tab.pane isMatch).Settled) (act : CaptureLogAct) :
    ((tab.logStep isMatch blockSize act).pane isMatch).Settled := by
  cases act with
  | drain batch last =>
    have each : ∀ {tab : CaptureTab R}, (tab.pane isMatch).Settled →
        ((batch.foldl (takeIn isMatch blockSize) tab).pane isMatch).Settled := by
      induction batch with
      | nil => exact fun settled => settled
      | cons received batch ih => exact fun _ => ih (settled_takeIn _ received)
    rw [logStep, drainPackets]
    split
    · exact settled
    · cases last <;> exact each settled
  | nav delta =>
    rw [logStep, nav_eq]
    exact settled_move _ _ _ delta
  | top => exact settled_jumpTop _
  | bottom =>
    unfold logStep navEnd
    dsimp only
    split
    · next some =>
      intro _
      exact Nat.le_of_eq (Nat.succ_pred_eq_of_pos some).symm
    · exact settled
  | click i =>
    rw [logStep, selectLogRow_eq]
    exact settled_selectRow i settled

theorem settled_run (settled : (tab.pane isMatch).Settled) (acts : List CaptureLogAct) :
    ((acts.foldl (logStep isMatch blockSize) tab).pane isMatch).Settled := by
  induction acts generalizing tab with
  | nil => exact settled
  | cons act acts ih => exact ih (settled_logStep settled act)

/-- What the filter takes is in the store. -/
theorem filteredIndices_found {i : Nat} (member : i ∈ tab.filteredIndices isMatch) :
    (tab.store.packets[i]?).isSome := by
  have inside : i < tab.store.packets.length :=
    Rows.lt_of_mem_places (fun p => tab.displayFilter.holds isMatch p) member
  rw [List.getElem?_eq_getElem inside]
  rfl

end CaptureTab

end BitBeak

namespace BitBeak.Ui
open BitBeak

/- What is seen of a log, and what a click on it selects. -/

section
variable {R : Type} (isMatch : R → String → Bool) (blockSize : PcapNgBlock → Nat) (area : Rect)

/-- The marked entry is on the screen unless it is the last one and the pane is too small for
the log, and the last one is only where the log fits. -/
def LogPane.Seen {α : Type} (p : LogPane) (drawn : List (ListRow α) × HitMap) : Prop :=
  0 < p.rows →
    (OnScreen area drawn p.marked ↔
      2 ≤ area.height - 2 ∧ (p.rows < area.height - 2 ∨ p.marked + 1 < p.rows)) ∧
    (OnScreen area drawn (p.rows - 1) ↔ 2 ≤ area.height - 2 ∧ p.rows < area.height - 2)

variable {area}

theorem seen_drawList {α β : Type} {lookup : α → Option β} {l : List α} {selected : Nat}
    {follow : Bool} (found : ∀ x ∈ l, (lookup x).isSome)
    (settled : LogPane.Settled ⟨l.length, selected, follow⟩) (header empty : String)
    (hits : HitMap) :
    LogPane.Seen area ⟨l.length, selected, follow⟩
      (drawList lookup header empty area l selected follow hits) := by
  intro some
  rw [onScreen_drawList found, onScreen_drawList found]
  exact ⟨LogPane.shown_marked settled some _, LogPane.shown_last _ some _⟩

theorem mem_of_shownAt {α : Type} {rows : List (ListRow α)} {row : Nat} {r : ListRow α}
    (shown : shownAt area rows row = some r) : r ∈ rows := by
  unfold shownAt at shown
  split at shown
  · exact List.mem_of_getElem? shown
  · cases shown

/-- A click on an entry that is drawn selects what is drawn there, which is then replayed or
shown; a click on anything else is as if the list were not there. -/
theorem click_selects_what_is_drawn (hits : HitMap) (empty : String) :
    (∀ s : StreamSession,
      let drawn := drawFrameLog area s.rows s.selected s.follow empty hits
      ClicksShown area hits drawn ∧
        ∀ row i f marked, shownAt area drawn.1 row = some (.entry i f marked) →
          (s.selectLogRow i).replaySelected = some (StreamSession.sendBytes f.payload) ∧
            (marked = true ↔ i = s.pane.marked)) ∧
    (∀ tab : CaptureTab R,
      let drawn := drawCapturePacketList area tab.store.packets (tab.filteredIndices isMatch)
        tab.selected tab.follow empty hits
      ClicksShown area hits drawn ∧
        ∀ row i pkt marked, shownAt area drawn.1 row = some (.entry i pkt marked) →
          (tab.selectLogRow isMatch i).visiblePacket isMatch = some pkt ∧
            (marked = true ↔ i = (tab.pane isMatch).marked)) := by
  constructor
  · intro s drawn
    have found : ∀ x ∈ s.rows, (some x).isSome = true := fun _ _ => rfl
    refine ⟨clicksShown_drawList found _ _ _ _ _, fun row i f marked shown => ?_⟩
    obtain ⟨here, mark⟩ := entry_drawList found (mem_of_shownAt shown)
    rw [Option.bind_fun_some] at here
    have within : i < s.rows.length := (List.getElem?_eq_some_iff.mp here).1
    have chosen : (s.selectLogRow i).selectedFrame = some f := by
      change s.rows[(selectRow s.rows.length s.selected s.follow i).1]? = some f
      rw [selectRow, if_pos within, here]
    refine ⟨?_, ?_⟩
    · rw [StreamSession.replaySelected, chosen]
      rfl
    · rw [mark, beq_iff_eq]
      rfl
  · intro tab drawn
    have found : ∀ i ∈ tab.filteredIndices isMatch, (tab.store.packets[i]?).isSome := fun _ =>
      CaptureTab.filteredIndices_found
    refine ⟨clicksShown_drawList found _ _ _ _ _, fun row i pkt marked shown => ?_⟩
    obtain ⟨here, mark⟩ := entry_drawList found (mem_of_shownAt shown)
    obtain ⟨place, listed, here⟩ := Option.bind_eq_some_iff.mp here
    have within : i < (tab.filteredIndices isMatch).length :=
      (List.getElem?_eq_some_iff.mp listed).1
    have full : (tab.filteredIndices isMatch).isEmpty = false := by
      rw [List.isEmpty_eq_false_iff]
      exact List.ne_nil_of_length_pos (Nat.zero_lt_of_lt within)
    refine ⟨?_, ?_⟩
    · have chosen : (tab.selectLogRow isMatch i).visibleIndex isMatch = some place := by
        rw [CaptureTab.selectLogRow, if_pos within]
        change (if (tab.filteredIndices isMatch).isEmpty then none
          else (tab.filteredIndices isMatch)[min i ((tab.filteredIndices isMatch).length - 1)]?)
            = some place
        rw [full, if_neg (by decide), Nat.min_eq_left (Nat.le_sub_one_of_lt within), listed]
      rw [CaptureTab.visiblePacket, chosen, Option.bind_some, CaptureTab.selectLogRow,
        if_pos within]
      exact here
    · rw [mark, beq_iff_eq]
      rfl

end

/-- A pane with room for a header and two entries. -/
def demoPane : Rect := Rect.new 0 3 80 5

def demoStream (frames : Nat) : StreamSession :=
  (List.replicate frames (.io (.frame .inward [65] none))).foldl StreamSession.logStep
    { StreamSession.start (.tcp "a" 1) {} 10 with filter := "" }

def demoCapture : CaptureTab Unit :=
  [.drain demoArrival .empty].foldl (CaptureTab.logStep (fun _ _ => false) fun _ => 0)
    { CaptureTab.newLive "" "eth0" 2 0 with packetRx := some 0 }

/-- Below border and header of the pane a click hits the frame that is drawn there, and what is
replayed then is its payload. -/
theorem first_row_clicked :
    (drawFrameLog demoPane (demoStream 1).rows (demoStream 1).selected (demoStream 1).follow ""
        {}).2.hit 7 5 = some (.logRow 0) ∧
      ((demoStream 1).selectLogRow 0).replaySelected = some (StreamSession.sendBytes [65]) ∧
      ((demoCapture.selectLogRow (fun _ _ => false) 0).visiblePacket fun _ _ => false)
        = some ((demoStored [3]).withId 1) := by
  have clicked := @click_selects_what_is_drawn Unit (fun _ _ => false) demoPane {} ""
  refine ⟨?_, ?_, ?_⟩
  · rw [(clicked.1 (demoStream 1)).1]
    decide +kernel
  · exact ((clicked.1 (demoStream 1)).2 5 0 (Frame.withId 1 (Frame.new 1 .inward [65])) true
      (by decide +kernel)).1
  · exact ((clicked.2 demoCapture).2 5 0 ((demoStored [3]).withId 1) true
      (by decide +kernel)).1

end BitBeak.Ui
