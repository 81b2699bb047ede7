import BitBeak.Lib.Bytes
import BitBeak.Session.Routing

/-! Which session is in front: everything that opens, closes or selects a session, with the
overlays that ask before one is closed. What a session is stays open; it is looked at only to
ask before a live one is closed and to find one that can be used again. -/
namespace BitBeak
open Wire

inductive Overlay where
  | none
  | help
  | newSession
  | newSessionUri (kind : Nat)
  | quit
  | filter
  | collections
  | bench
  | fuzz
  | commandPalette
  | closeConfirm
  | followStream
  | conversations
  | endpoints
  | hierarchy
  | expert
  | keylog
  | testsEdit
  | preScriptEdit
  deriving DecidableEq, Repr

structure WorkspaceUi (Session : Type) extends Workspace Session where
  overlay : Overlay := .none
  quitYes : Bool := true
  closeYes : Bool := true

/-- What is asked of a session. `sniffs` says of a live capture that it is on an interface. -/
structure SessionView (Session : Type) where
  kind : Session → SessionKind
  status : Session → ConnStatus
  sniffs : String → Session → Bool

inductive ConfirmKind where
  | quit
  | close
  deriving DecidableEq, Repr

/-- The keys that `handle_confirm_keys` tells apart. -/
inductive ConfirmKey where
  | turn
  | enter
  | yes
  | no
  | other
  deriving DecidableEq, Repr

/-- The targets of a click that have to do with sessions or overlays. -/
inductive HitTarget where
  | tab (i : Nat)
  | newTab
  | quitYes
  | quitNo
  | newKind (kind : Nat)
  | overlayDismiss
  deriving DecidableEq, Repr

/-- `openSession` is any of the functions that open a session of some kind. A session that has
been made or is loaded into comes with the act. -/
inductive FocusAct (Session : Type) where
  | openSession (made : Session)
  | openCaptureFile (read : Option Session)
  | ensureHttpAndLoad (made : Session) (load : Session → Session)
  | replayFollowIntoHttp (made : Session) (load : Session → Session)
  | sniffFromHttp (iface : String) (made : Session) (start : Session → Session)
  | nextTab
  | prevTab
  | digit (c : Char)
  | hit (target : HitTarget)
  | requestCloseActive
  | confirm (key : ConfirmKey)
  | show (overlay : Overlay)
  | change (i : Nat) (f : Session → Session)

namespace SessionView

variable {Session : Type} (view : SessionView Session)

def isLive (session : Session) : Bool :=
  match view.status session with
  | .connected | .listening | .connecting => true
  | _ => false

def isHttp (session : Session) : Bool := view.kind session = .http

end SessionView

namespace WorkspaceUi

variable {Session : Type} (view : SessionView Session)

/-- The saved requests of a collection, as sessions that can be opened on them, and what the
collection does to a session that is open. -/
structure Hydration (Session : Type) where
  requests : List Session
  apply : Session → Session

/-- An HTTP session in front takes the collection; without any session, one is opened on the
first request of the collection. -/
def hydrateHttpFromCollection (ws : WorkspaceUi Session) :
    Option (Hydration Session) → WorkspaceUi Session
  | none => ws
  | some collection =>
    if ws.activeSession.any view.isHttp then
      { ws with toWorkspace := ws.update ws.active collection.apply }
    else if ws.sessions.isEmpty then
      match collection.requests with
      | [] => ws
      | session :: _ => { ws with toWorkspace := ws.openTab session }
    else ws

/-- `first` is the session that the arguments ask for. -/
def new (first : Option Session) (collection : Option (Hydration Session)) : WorkspaceUi Session :=
  hydrateHttpFromCollection view { sessions := first.toList } collection

/-- What the `open_*` functions do with the session they made. -/
def openSession (ws : WorkspaceUi Session) (made : Session) : WorkspaceUi Session :=
  { ws with toWorkspace := ws.openTab made, overlay := .none }

/-- The active session is looked up, and removed, by an index that is not checked. -/
def closeActive (ws : WorkspaceUi Session) : Except Fault (WorkspaceUi Session) :=
  if ws.sessions.isEmpty then .ok ws
  else if ws.active < ws.sessions.length then
    let sessions := ws.sessions.eraseIdx ws.active
    let active :=
      if sessions.length ≤ ws.active ∧ !sessions.isEmpty then sessions.length - 1 else ws.active
    .ok { ws with
      sessions := sessions
      active := if sessions.isEmpty then 0 else active
      overlay := .none }
  else .error .outOfRange

def requestCloseActive (ws : WorkspaceUi Session) : Except Fault (WorkspaceUi Session) :=
  if ws.activeSession.any view.isLive then
    .ok { ws with closeYes := true, overlay := .closeConfirm }
  else ws.closeActive

/-- `handle_confirm_keys`, but for the answer that ends the program. -/
def handleConfirmKeys (ws : WorkspaceUi Session) (kind : ConfirmKind) :
    ConfirmKey → Except Fault (WorkspaceUi Session)
  | .turn =>
    match kind with
    | .quit => .ok { ws with quitYes := !ws.quitYes }
    | .close => .ok { ws with closeYes := !ws.closeYes }
  | .enter =>
    match kind with
    | .quit => .ok ws
    | .close => if ws.closeYes then ws.closeActive else .ok { ws with overlay := .none }
  | .yes =>
    match kind with
    | .quit => .ok ws
    | .close => ws.closeActive
  | .no => .ok { ws with overlay := .none }
  | .other => .ok ws

def dispatchHit (ws : WorkspaceUi Session) : HitTarget → Except Fault (WorkspaceUi Session)
  | .tab i => .ok { ws with toWorkspace := ws.selectTab i }
  | .newTab => .ok { ws with overlay := .newSession }
  | .quitYes =>
    match ws.overlay with
    | .closeConfirm => ws.closeActive
    | _ => .ok ws
  | .quitNo | .overlayDismiss => .ok { ws with overlay := .none }
  | .newKind kind => .ok { ws with overlay := .newSessionUri kind }

/-- The keys from `1` to `9`. -/
def digit (ws : WorkspaceUi Session) (c : Char) : WorkspaceUi Session :=
  if '1' ≤ c ∧ c ≤ '9' then { ws with toWorkspace := ws.selectTab (c.toNat - '1'.toNat) } else ws

/-- A session is opened unless an HTTP session is in front, and the request is loaded. -/
def ensureHttpAndLoad (ws : WorkspaceUi Session) (made : Session) (load : Session → Session) :
    WorkspaceUi Session :=
  let ws :=
    if ws.activeSession.any view.isHttp then ws else { ws with toWorkspace := ws.openTab made }
  if ws.activeSession.any view.isHttp then
    { ws with toWorkspace := ws.update ws.active load }
  else ws

def replayFollowIntoHttp (ws : WorkspaceUi Session) (made : Session) (load : Session → Session) :
    WorkspaceUi Session :=
  let ws := ws.ensureHttpAndLoad view made load
  if ws.activeSession.any view.isHttp then { ws with overlay := .none } else ws

/-- From an HTTP session, a live capture on the interface comes to the front, or one is opened,
and it is started. -/
def sniffFromHttp (ws : WorkspaceUi Session) (iface : String) (made : Session)
    (start : Session → Session) : WorkspaceUi Session :=
  if ws.activeSession.any view.isHttp then
    let ws :=
      match ws.sessions.findIdx? (view.sniffs iface) with
      | some idx => { ws with active := idx }
      | none => ws.openSession made
    { ws with toWorkspace := ws.update ws.active start }
  else ws

def step (ws : WorkspaceUi Session) : FocusAct Session → Except Fault (WorkspaceUi Session)
  | .openSession made => .ok (ws.openSession made)
  | .openCaptureFile none => .ok ws
  | .openCaptureFile (some made) => .ok (ws.openSession made)
  | .ensureHttpAndLoad made load => .ok (ws.ensureHttpAndLoad view made load)
  | .replayFollowIntoHttp made load => .ok (ws.replayFollowIntoHttp view made load)
  | .sniffFromHttp iface made start => .ok (ws.sniffFromHttp view iface made start)
  | .nextTab => .ok { ws with toWorkspace := ws.toWorkspace.nextTab }
  | .prevTab => .ok { ws with toWorkspace := ws.toWorkspace.prevTab }
  | .digit c => .ok (if ws.overlay = .none then ws.digit c else ws)
  | .hit target => ws.dispatchHit target
  | .requestCloseActive => ws.requestCloseActive view
  | .confirm key =>
    match ws.overlay with
    | .quit => ws.handleConfirmKeys .quit key
    | .closeConfirm => ws.handleConfirmKeys .close key
    | _ => .ok ws
  | .show overlay => .ok { ws with overlay := overlay }
  | .change i f => .ok { ws with toWorkspace := ws.update i f }

def run (ws : WorkspaceUi Session) (acts : List (FocusAct Session)) :
    Except Fault (WorkspaceUi Session) :=
  acts.foldlM (step view) ws

/- The index of the session in front. -/

/-- There is a session in front, or there is none at all and the index is zero. -/
def Focused (ws : Workspace Session) : Prop :=
  ws.active < ws.sessions.length ∨ ws.sessions = [] ∧ ws.active = 0

/-- What an act may do to the row of sessions: one more comes to its end and to the front, the
one in front goes, or each stays where it is and at most one of them changes. -/
structure Moves (before after : Workspace Session) : Prop where
  opened : before.sessions.length < after.sessions.length →
    ∃ session, after.sessions = before.sessions ++ [session] ∧
      after.active = before.sessions.length
  closed : after.sessions.length < before.sessions.length →
    after.sessions = before.sessions.eraseIdx before.active
  kept : after.sessions.length = before.sessions.length →
    ∃ i f, after.sessions = before.sessions.modify i f

/-- An act that went well. -/
def Safe (ws : WorkspaceUi Session) (result : Except Fault (WorkspaceUi Session)) : Prop :=
  ∃ next, result = .ok next ∧ Focused next.toWorkspace ∧ Moves ws.toWorkspace next.toWorkspace

section
variable {view} {before after : Workspace Session}

theorem moves_same (same : after.sessions = before.sessions) : Moves before after where
  opened longer := absurd longer (by rw [same]; exact Nat.lt_irrefl _)
  closed shorter := absurd shorter (by rw [same]; exact Nat.lt_irrefl _)
  kept _ := ⟨0, id, by rw [same, List.modify_id]⟩

theorem moves_update (i : Nat) (f : Session → Session)
    (changed : after.sessions = before.sessions.modify i f) : Moves before after where
  opened longer := absurd longer (by rw [changed, List.length_modify]; exact Nat.lt_irrefl _)
  closed shorter := absurd shorter (by rw [changed, List.length_modify]; exact Nat.lt_irrefl _)
  kept _ := ⟨i, f, changed⟩

theorem moves_open {session : Session} (added : after.sessions = before.sessions ++ [session])
    (front : after.active = before.sessions.length) : Moves before after where
  opened _ := ⟨session, added, front⟩
  closed shorter := absurd shorter (by simp [added])
  kept level := absurd level (by simp [added])

theorem moves_close (inside : before.active < before.sessions.length)
    (removed : after.sessions = before.sessions.eraseIdx before.active) : Moves before after where
  opened longer := absurd longer (by rw [removed, List.length_eraseIdx_of_lt inside]; omega)
  closed _ := removed
  kept level := absurd level (by rw [removed, List.length_eraseIdx_of_lt inside]; omega)

theorem focused_open (ws : Workspace Session) (made : Session) : Focused (ws.openTab made) :=
  .inl (by simp [Workspace.openTab])

theorem focused_update {ws : Workspace Session} (focused : Focused ws) (i : Nat)
    (f : Session → Session) : Focused (ws.update i f) := by
  rcases focused with inside | ⟨none, zero⟩
  · exact .inl (by simpa [Workspace.update] using inside)
  · exact .inr ⟨by simp [none], zero⟩

theorem focused_selectTab {ws : Workspace Session} (focused : Focused ws) (i : Nat) :
    Focused (ws.selectTab i) := by
  unfold Workspace.selectTab
  split
  · next inside => exact .inl inside
  · exact focused

theorem focused_nextTab {ws : Workspace Session} (focused : Focused ws) :
    Focused ws.nextTab := by
  unfold Workspace.nextTab
  split
  · exact focused
  · next some =>
    exact .inl (Nat.mod_lt _ (List.length_pos_iff.mpr (by simpa using some)))

theorem focused_prevTab {ws : Workspace Session} (focused : Focused ws) :
    Focused ws.prevTab := by
  unfold Workspace.prevTab
  split
  · exact focused
  · next some =>
    have inside := focused.resolve_right fun none => some (by simp [none.1])
    left
    dsimp only
    split <;> omega

end

section
variable {view} {ws : WorkspaceUi Session}

theorem safe_same (focused : Focused ws.toWorkspace) {next : WorkspaceUi Session}
    (same : next.toWorkspace = ws.toWorkspace) : Safe ws (.ok next) :=
  ⟨next, rfl, same ▸ focused, moves_same (by rw [same])⟩

/-- Closing takes the session in front away, and the one behind it comes to the front, or the
last one. -/
theorem closeActive_eq (inside : ws.active < ws.sessions.length) :
    ws.closeActive = .ok { ws with
      sessions := ws.sessions.eraseIdx ws.active
      active := min ws.active (ws.sessions.length - 2)
      overlay := .none } := by
  have some : ws.sessions.isEmpty = false := by
    rw [List.isEmpty_eq_false_iff]
    exact List.ne_nil_of_length_pos (Nat.zero_lt_of_lt inside)
  have index : ∀ l : List Session, l.length = ws.sessions.length - 1 →
      (if l.isEmpty then 0
        else if l.length ≤ ws.active ∧ !l.isEmpty then l.length - 1 else ws.active)
        = min ws.active (ws.sessions.length - 2) := by
    intro l length
    cases l with
    | nil =>
      rw [List.length_nil] at length
      simp only [List.isEmpty_nil, if_true]
      omega
    | cons x l =>
      simp only [List.isEmpty_cons, Bool.false_eq_true, if_false, Bool.not_false, and_true, length]
      rw [List.length_cons] at length
      split <;> omega
  rw [closeActive, some, if_neg Bool.false_ne_true, if_pos inside]
  dsimp only
  rw [index _ (List.length_eraseIdx_of_lt inside)]

theorem closeActive_safe (focused : Focused ws.toWorkspace) : Safe ws ws.closeActive := by
  rcases focused with inside | ⟨none, zero⟩
  · refine ⟨_, closeActive_eq inside, ?_, moves_close inside rfl⟩
    by_cases last : ws.sessions.length = 1
    · right
      rw [← List.length_eq_zero_iff, List.length_eraseIdx_of_lt inside]
      dsimp only
      omega
    · left
      rw [List.length_eraseIdx_of_lt inside]
      dsimp only
      omega
  · rw [closeActive, none]
    exact safe_same (.inr ⟨none, zero⟩) rfl

theorem handleConfirmKeys_safe (focused : Focused ws.toWorkspace) (kind : ConfirmKind)
    (key : ConfirmKey) : Safe ws (ws.handleConfirmKeys kind key) := by
  cases key with
  | turn => cases kind <;> exact safe_same focused rfl
  | no => exact safe_same focused rfl
  | other => exact safe_same focused rfl
  | enter =>
    cases kind with
    | quit => exact safe_same focused rfl
    | close =>
      unfold handleConfirmKeys
      dsimp only
      split
      · exact closeActive_safe focused
      · exact safe_same focused rfl
  | yes =>
    cases kind with
    | quit => exact safe_same focused rfl
    | close => exact closeActive_safe focused

theorem select_safe (focused : Focused ws.toWorkspace) (i : Nat) :
    Safe ws (.ok { ws with toWorkspace := ws.selectTab i }) :=
  ⟨_, rfl, focused_selectTab focused i, moves_same (Workspace.selectTab_sessions ..)⟩

theorem dispatchHit_safe (focused : Focused ws.toWorkspace) (target : HitTarget) :
    Safe ws (ws.dispatchHit target) := by
  cases target with
  | tab i => exact select_safe focused i
  | quitYes =>
    unfold dispatchHit
    dsimp only
    split
    · exact closeActive_safe focused
    · exact safe_same focused rfl
  | _ => exact safe_same focused rfl

theorem update_safe (focused : Focused ws.toWorkspace) (i : Nat) (f : Session → Session)
    (overlay : Overlay) :
    Safe ws (.ok { ws with toWorkspace := ws.update i f, overlay := overlay }) :=
  ⟨_, rfl, focused_update focused i f, moves_update i f rfl⟩

/-- A session that has just been opened, with something done to it. -/
theorem open_safe (made : Session) (f : Session → Session) (overlay : Overlay) :
    Safe ws (.ok { ws with
      toWorkspace := (ws.openTab made).update ws.sessions.length f, overlay := overlay }) := by
  have added : ((ws.openTab made).update ws.sessions.length f).sessions =
      ws.sessions ++ [f made] := by
    rw [Workspace.update_sessions, Workspace.openTab_sessions, List.modify_eq_take_drop,
      List.take_left, List.drop_left, List.modifyHead_cons]
  exact ⟨_, rfl, focused_update (focused_open ws.toWorkspace made) _ f, moves_open added rfl⟩

theorem openTab_activeSession (made : Session) :
    (ws.openTab made).activeSession = some made := by
  simp [Workspace.activeSession, Workspace.openTab]

/-- Opening alone is opening with nothing done to the session. -/
theorem openTab_safe (made : Session) (overlay : Overlay) :
    Safe ws (.ok { ws with toWorkspace := ws.openTab made, overlay := overlay }) :=
  ⟨_, rfl, focused_open ws.toWorkspace made, moves_open rfl rfl⟩

variable (view) in
theorem ensureHttpAndLoad_safe (focused : Focused ws.toWorkspace) (made : Session)
    (load : Session → Session) : Safe ws (.ok (ws.ensureHttpAndLoad view made load)) := by
  unfold ensureHttpAndLoad
  by_cases http : ws.activeSession.any view.isHttp
  · simp only [http, if_true]
    exact update_safe focused ws.active load ws.overlay
  · simp only [http, Bool.false_eq_true, if_false, openTab_activeSession]
    split
    · exact open_safe made load ws.overlay
    · exact openTab_safe made ws.overlay

theorem safe_overlay {next : WorkspaceUi Session} (safe : Safe ws (.ok next))
    (overlay : Overlay) : Safe ws (.ok { next with overlay := overlay }) := by
  obtain ⟨_, same, focused, moves⟩ := safe
  cases same
  exact ⟨_, rfl, focused, moves⟩

variable (view) in
theorem replayFollowIntoHttp_safe (focused : Focused ws.toWorkspace) (made : Session)
    (load : Session → Session) : Safe ws (.ok (ws.replayFollowIntoHttp view made load)) := by
  have safe := ensureHttpAndLoad_safe view focused made load
  unfold replayFollowIntoHttp
  dsimp only
  split
  · exact safe_overlay safe .none
  · exact safe

variable (view) in
theorem sniffFromHttp_safe (focused : Focused ws.toWorkspace) (iface : String) (made : Session)
    (start : Session → Session) : Safe ws (.ok (ws.sniffFromHttp view iface made start)) := by
  unfold sniffFromHttp
  split
  · split
    · next idx found =>
      have inside := (List.findIdx?_eq_some_iff_findIdx_eq.mp found).1
      exact ⟨_, rfl, focused_update (.inl inside) idx start, moves_update idx start rfl⟩
    · exact open_safe made start .none
  · exact safe_same focused rfl

variable (view) in
/-- No act fails, and each leaves the index in range. -/
theorem step_safe (focused : Focused ws.toWorkspace) (act : FocusAct Session) :
    Safe ws (ws.step view act) := by
  cases act with
  | openSession made => exact openTab_safe made .none
  | openCaptureFile read =>
    cases read with
    | none => exact safe_same focused rfl
    | some made => exact openTab_safe made .none
  | ensureHttpAndLoad made load => exact ensureHttpAndLoad_safe view focused made load
  | replayFollowIntoHttp made load => exact replayFollowIntoHttp_safe view focused made load
  | sniffFromHttp iface made start => exact sniffFromHttp_safe view focused iface made start
  | nextTab =>
    exact ⟨_, rfl, focused_nextTab focused, moves_same (Workspace.nextTab_sessions _)⟩
  | prevTab =>
    exact ⟨_, rfl, focused_prevTab focused, moves_same (Workspace.prevTab_sessions _)⟩
  | digit c =>
    unfold step digit
    dsimp only
    split
    · split
      · exact select_safe focused _
      · exact safe_same focused rfl
    · exact safe_same focused rfl
  | hit target => exact dispatchHit_safe focused target
  | requestCloseActive =>
    unfold step requestCloseActive
    dsimp only
    split
    · exact safe_same focused rfl
    · exact closeActive_safe focused
  | confirm key =>
    unfold step
    dsimp only
    split
    · exact handleConfirmKeys_safe focused .quit key
    · exact handleConfirmKeys_safe focused .close key
    · exact safe_same focused rfl
  | «show» overlay => exact safe_same focused rfl
  | change i f => exact update_safe focused i f ws.overlay

variable (view) in
theorem run_focused (focused : Focused ws.toWorkspace) (acts : List (FocusAct Session)) :
    ∃ now, ws.run view acts = .ok now ∧ Focused now.toWorkspace := by
  induction acts generalizing ws with
  | nil => exact ⟨ws, rfl, focused⟩
  | cons act acts ih =>
    obtain ⟨next, went, still, _⟩ := step_safe view focused act
    obtain ⟨now, ran, kept⟩ := ih still
    refine ⟨now, ?_, kept⟩
    rw [run, List.foldlM_cons, went]
    exact ran

variable (view) in
theorem new_focused (first : Option Session) (collection : Option (Hydration Session)) :
    Focused (new view first collection).toWorkspace := by
  have bare : Focused ({ sessions := first.toList } : Workspace Session) := by
    cases first with
    | none => exact .inr ⟨rfl, rfl⟩
    | some session => exact .inl Nat.zero_lt_one
  unfold new hydrateHttpFromCollection
  split
  · exact bare
  · split
    · exact focused_update bare _ _
    · split
      · split
        · exact bare
        · exact focused_open _ _
      · exact bare

end

end WorkspaceUi

open WorkspaceUi in
/-- Whatever is done to a workspace, there is a session in front, or none at all. What opens a
session puts it at the end and to the front, closing takes the one in front and no other, and
selecting changes none. -/
theorem focus_stays_valid {Session : Type} (view : SessionView Session) (first : Option Session)
    (collection : Option (Hydration Session)) (acts : List (FocusAct Session)) :
    ∃ now, (WorkspaceUi.new view first collection).run view acts = .ok now ∧
      Focused now.toWorkspace ∧
      (∀ act, Safe now (now.step view act)) ∧
      (∀ made, (now.openSession made).sessions = now.sessions ++ [made] ∧
        (now.openSession made).active = now.sessions.length) ∧
      (now.sessions ≠ [] → now.closeActive = .ok { now with
        sessions := now.sessions.eraseIdx now.active
        active := min now.active (now.sessions.length - 2)
        overlay := .none }) ∧
      (∀ i, (now.selectTab i).sessions = now.sessions) ∧
      now.nextTab.sessions = now.sessions ∧ now.prevTab.sessions = now.sessions := by
  obtain ⟨now, ran, focused⟩ := run_focused view (new_focused view first collection) acts
  refine ⟨now, ran, focused, step_safe view focused, fun made => ⟨rfl, rfl⟩, fun some => ?_,
    Workspace.selectTab_sessions _, Workspace.nextTab_sessions _, Workspace.prevTab_sessions _⟩
  exact closeActive_eq (focused.resolve_right fun none => some none.1)

end BitBeak
