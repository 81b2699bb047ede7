import BitBeak.Lib.Entries
import BitBeak.Lib.Runs
import BitBeak.Transport
import BitBeak.Workspace

/-! Event routing. A forwarder hands its session's events to the application under the
tab index it was attached with; the application applies each to the tab at that index. -/
namespace BitBeak
open Runs

inductive SessionKind where
  | stream
  | http
  | listen
  | proxy
  | diag
  | capture
  deriving DecidableEq, Repr

inductive ConnStatus where
  | idle
  | connecting
  | connected
  | listening
  | disconnected
  | error
  deriving DecidableEq, Repr

/-- Kinds with an I/O task; the others do nothing in `on_io`. -/
def SessionKind.handlesIo : SessionKind → Bool
  | .stream | .listen | .proxy => true
  | .http | .diag | .capture => false

/-- A tab. `sid` names the session for as long as the application runs; `handled` is
the record of the events its `on_io` got, each with the session whose task sent it. -/
structure Tab where
  sid : Nat
  kind : SessionKind
  status : ConnStatus
  handled : List (Nat × IoEvent) := []
  deriving DecidableEq

/-- What an event does to the status line of a session. -/
def SessionKind.statusAfter (kind : SessionKind) (status : ConnStatus) : IoEvent → ConnStatus
  | .connected _ => match kind with
    | .stream => .connected
    | _ => .listening
  | .disconnected _ => match kind with
    | .stream => .disconnected
    | _ => status
  | .error _ => .error
  | _ => status

def Tab.onIo (tab : Tab) (owner : Nat) (event : IoEvent) : Tab :=
  if tab.kind.handlesIo then
    { tab with
      status := tab.kind.statusAfter tab.status event
      handled := tab.handled ++ [(owner, event)] }
  else tab

/-- One I/O task with its channel and the forwarder `attach_io` spawned for it. -/
structure Route where
  owner : Nat
  idx : Nat
  running : Bool := true
  pending : List IoEvent := []
  deriving DecidableEq

/-- A message in the fan-in channel. -/
structure FanMsg where
  idx : Nat
  owner : Nat
  event : IoEvent
  deriving DecidableEq

structure RoutingState where
  ws : Workspace Tab := {}
  routes : List Route := []
  fan : List FanMsg := []
  nextSid : Nat := 0
  deriving DecidableEq

inductive RoutingAct where
  | openTab (kind : SessionKind)
  | close
  | nextTab
  | prevTab
  | selectTab (idx : Nat)
  | reconnect
  | emit (r : Nat) (event : IoEvent)
  | finish (r : Nat)
  | forward (r : Nat)
  | handle

namespace RoutingState

/-- `attach_io` on the session at `idx`: its receiver moves to a new forwarder. -/
def attachIo (s : RoutingState) (idx owner : Nat) : RoutingState :=
  { s with routes := s.routes ++ [{ owner := owner, idx := idx }] }

/-- The tab a freshly made session stands in. -/
def freshTab (s : RoutingState) (kind : SessionKind) : Tab :=
  { sid := s.nextSid
    kind := kind
    status := match kind with
      | .stream => .connecting
      | .listen | .proxy => .listening
      | _ => .idle }

/-- `open_*` and the `attach_io` that follows it. -/
def openSession (s : RoutingState) (kind : SessionKind) : RoutingState :=
  let opened := { s with ws := s.ws.openTab (s.freshTab kind), nextSid := s.nextSid + 1 }
  if kind.handlesIo then opened.attachIo s.ws.sessions.length s.nextSid else opened

def step (s : RoutingState) : RoutingAct → Option RoutingState
  | .openTab kind => some (s.openSession kind)
  | .close => some { s with ws := s.ws.removeActive }
  | .nextTab => some { s with ws := s.ws.nextTab }
  | .prevTab => some { s with ws := s.ws.prevTab }
  | .selectTab idx => some { s with ws := s.ws.selectTab idx }
  | .reconnect =>
    match s.ws.activeSession with
    | some tab =>
      if tab.kind = .stream ∧ tab.status = .disconnected then
        let again := { s with
          ws := s.ws.update s.ws.active (fun tab => { tab with status := .connecting }) }
        some (again.attachIo s.ws.active tab.sid)
      else none
    | none => none
  | .emit r event =>
    match s.routes[r]? with
    | some route =>
      if route.running then
        some { s with routes := s.routes.set r { route with pending := route.pending ++ [event] } }
      else none
    | none => none
  | .finish r =>
    match s.routes[r]? with
    | some route => some { s with routes := s.routes.set r { route with running := false } }
    | none => none
  | .forward r =>
    match s.routes[r]? with
    | some route =>
      match route.pending with
      | event :: rest => some { s with
          routes := s.routes.set r { route with pending := rest }
          fan := s.fan ++ [⟨route.idx, route.owner, event⟩] }
      | [] => none
    | none => none
  | .handle =>
    match s.fan with
    | msg :: rest => some { s with
        ws := s.ws.update msg.idx (·.onIo msg.owner msg.event)
        fan := rest }
    | [] => none

/-- Some event of session `owner` that is not yet handled, or may still come, carries
the index `i`. -/
def Carries (s : RoutingState) (i owner : Nat) : Prop :=
  (∃ route ∈ s.routes, route.idx = i ∧ route.owner = owner ∧
    (route.running = true ∨ route.pending ≠ [])) ∨
  ∃ msg ∈ s.fan, msg.idx = i ∧ msg.owner = owner

/-- A session has handled an event that another session's task sent. -/
def Misrouted (s : RoutingState) : Prop :=
  ∃ tab ∈ s.ws.sessions, ∃ sent ∈ tab.handled, sent.1 ≠ tab.sid

/-- The tabs behind an index still in use stay where they are: a close moves no session
with an I/O task onto such an index, and no such session is opened at one. -/
def KeepsIndices (s : RoutingState) : RoutingAct → Prop
  | .close => ∀ i owner tab, s.Carries i owner → s.ws.active ≤ i →
      s.ws.sessions[i + 1]? = some tab → tab.kind.handlesIo = false
  | .openTab kind => kind.handlesIo = true → ∀ i owner, s.Carries i owner →
      i ≠ s.ws.sessions.length
  | _ => True

/- What keeps routing straight. -/

/-- Every index in use points at its session, at one that ignores events, or nowhere. -/
def Routed (s : RoutingState) : Prop :=
  ∀ i owner tab, s.Carries i owner → s.ws.sessions[i]? = some tab →
    tab.kind.handlesIo = true → tab.sid = owner

def Logged (s : RoutingState) : Prop :=
  ∀ tab ∈ s.ws.sessions, ∀ sent ∈ tab.handled, sent.1 = tab.sid

variable {s t : RoutingState}

theorem carries_attachIo {idx sid i owner : Nat} (carries : (s.attachIo idx sid).Carries i owner) :
    s.Carries i owner ∨ i = idx ∧ owner = sid := by
  rcases carries with ⟨route, member, rfl, rfl, live⟩ | inFlight
  · rcases List.mem_append.mp member with old | new
    · exact .inl (.inl ⟨route, old, rfl, rfl, live⟩)
    · cases List.mem_singleton.mp new
      exact .inr ⟨rfl, rfl⟩
  · exact .inl (.inr inFlight)

/-- Replacing a route by one with the same index and owner, live only if the old one
was, carries nothing new. -/
theorem carries_set {r : Nat} {route next : Route} {fan : List FanMsg} {i owner : Nat}
    (carries : Carries { s with routes := s.routes.set r next, fan := fan } i owner)
    (found : s.routes[r]? = some route) (same : next.idx = route.idx ∧ next.owner = route.owner)
    (live : next.running = true ∨ next.pending ≠ [] → route.running = true ∨ route.pending ≠ [])
    (sent : ∀ msg ∈ fan, msg ∈ s.fan ∨ msg.idx = route.idx ∧ msg.owner = route.owner ∧
      route.pending ≠ []) :
    s.Carries i owner := by
  have member : route ∈ s.routes := List.mem_of_getElem? found
  rcases carries with ⟨other, there, rfl, rfl, alive⟩ | ⟨msg, there, rfl, rfl⟩
  · rcases List.mem_or_eq_of_mem_set there with old | rfl
    · exact .inl ⟨other, old, rfl, rfl, alive⟩
    · exact .inl ⟨route, member, same.1.symm, same.2.symm, live alive⟩
  · rcases sent msg there with old | ⟨idx, owner, waiting⟩
    · exact .inr ⟨msg, old, rfl, rfl⟩
    · exact .inl ⟨route, member, idx.symm, owner.symm, .inr waiting⟩

/- What a step can do, said once. -/

inductive Moves (s : RoutingState) : RoutingAct → RoutingState → Prop where
  | openTab {kind : SessionKind} : Moves s (.openTab kind) (s.openSession kind)
  | close : Moves s .close { s with ws := s.ws.removeActive }
  | nextTab : Moves s .nextTab { s with ws := s.ws.nextTab }
  | prevTab : Moves s .prevTab { s with ws := s.ws.prevTab }
  | selectTab {idx : Nat} : Moves s (.selectTab idx) { s with ws := s.ws.selectTab idx }
  | reconnect {tab : Tab} (front : s.ws.activeSession = some tab)
    (ended : tab.kind = .stream ∧ tab.status = .disconnected) :
    Moves s .reconnect (attachIo
      { s with ws := s.ws.update s.ws.active (fun tab => { tab with status := .connecting }) }
      s.ws.active tab.sid)
  | emit {r : Nat} {event : IoEvent} {route : Route} (found : s.routes[r]? = some route)
    (running : route.running = true) :
    Moves s (.emit r event)
      { s with routes := s.routes.set r { route with pending := route.pending ++ [event] } }
  | finish {r : Nat} {route : Route} (found : s.routes[r]? = some route) :
    Moves s (.finish r) { s with routes := s.routes.set r { route with running := false } }
  | forward {r : Nat} {route : Route} {event : IoEvent} {rest : List IoEvent}
    (found : s.routes[r]? = some route) (queued : route.pending = event :: rest) :
    Moves s (.forward r) { s with
      routes := s.routes.set r { route with pending := rest }
      fan := s.fan ++ [⟨route.idx, route.owner, event⟩] }
  | handle {msg : FanMsg} {rest : List FanMsg} (waiting : s.fan = msg :: rest) :
    Moves s .handle { s with
      ws := s.ws.update msg.idx (·.onIo msg.owner msg.event)
      fan := rest }

theorem step_cases {a : RoutingAct} (move : s.step a = some t) : s.Moves a t := by
  cases a with
  | openTab kind =>
    cases move
    exact .openTab
  | close =>
    cases move
    exact .close
  | nextTab =>
    cases move
    exact .nextTab
  | prevTab =>
    cases move
    exact .prevTab
  | selectTab idx =>
    cases move
    exact .selectTab
  | reconnect =>
    simp only [step] at move
    split at move
    · next tab front =>
      split at move
      · next ended =>
        cases move
        exact .reconnect front ended
      · contradiction
    · contradiction
  | emit r event =>
    simp only [step] at move
    split at move
    · next route found =>
      split at move
      · next running =>
        cases move
        exact .emit found running
      · contradiction
    · contradiction
  | finish r =>
    simp only [step] at move
    split at move
    · next route found =>
      cases move
      exact .finish found
    · contradiction
  | forward r =>
    simp only [step] at move
    split at move
    · next route found =>
      split at move
      · next event rest queued =>
        cases move
        exact .forward found queued
      · contradiction
    · contradiction
  | handle =>
    simp only [step] at move
    split at move
    · next msg rest waiting =>
      cases move
      exact .handle waiting
    · contradiction

/- Where each tab of the new state comes from, and which indices are still carried. -/

/-- Where the tab at `j` stood before the step. -/
def origin (s : RoutingState) (a : RoutingAct) (j : Nat) : Nat :=
  match a with
  | .close => if j < s.ws.active then j else j + 1
  | _ => j

theorem onIo_sid (tab : Tab) (owner : Nat) (event : IoEvent) :
    (tab.onIo owner event).sid = tab.sid := by
  unfold Tab.onIo
  split <;> rfl

theorem onIo_kind (tab : Tab) (owner : Nat) (event : IoEvent) :
    (tab.onIo owner event).kind = tab.kind := by
  unfold Tab.onIo
  split <;> rfl

theorem openSession_sessions (kind : SessionKind) :
    (s.openSession kind).ws.sessions = s.ws.sessions ++ [s.freshTab kind] := by
  unfold openSession
  split <;> rfl

theorem openSession_nextSid (kind : SessionKind) :
    (s.openSession kind).nextSid = s.nextSid + 1 := by
  unfold openSession
  split <;> rfl

/-- The session of `tab` stood at `j`. -/
def Stood (s : RoutingState) (j : Nat) (tab : Tab) : Prop :=
  ∃ old, s.ws.sessions[j]? = some old ∧ old.sid = tab.sid ∧ old.kind = tab.kind

theorem stood_update {i j : Nat} {f : Tab → Tab} {tab : Tab}
    (found : (s.ws.update i f).sessions[j]? = some tab)
    (same : ∀ tab, (f tab).sid = tab.sid ∧ (f tab).kind = tab.kind) : s.Stood j tab := by
  rcases Entries.modify_cases found with ⟨old, there, rfl, rfl⟩ | ⟨_, there⟩
  · exact ⟨old, there, (same old).1.symm, (same old).2.symm⟩
  · exact ⟨tab, there, rfl, rfl⟩

theorem step_tab {a : RoutingAct} {j : Nat} {tab : Tab} (move : s.step a = some t)
    (found : t.ws.sessions[j]? = some tab) :
    s.Stood (s.origin a j) tab ∨
      ∃ kind, a = .openTab kind ∧ j = s.ws.sessions.length ∧ tab = s.freshTab kind := by
  have still : t.ws.sessions = s.ws.sessions → s.Stood j tab :=
    fun same => ⟨tab, same ▸ found, rfl, rfl⟩
  cases step_cases move with
  | @openTab kind =>
    rw [openSession_sessions] at found
    rcases Entries.concat_cases found with old | ⟨last, rfl⟩
    · exact .inl ⟨tab, old, rfl, rfl⟩
    · exact .inr ⟨kind, rfl, last, rfl⟩
  | close =>
    rw [Workspace.removeActive_sessions, List.getElem?_eraseIdx] at found
    refine .inl ⟨tab, ?_, rfl, rfl⟩
    unfold origin
    split at found
    · next before => rwa [if_pos before]
    · next behind => rwa [if_neg behind]
  | nextTab => exact .inl (still (Workspace.nextTab_sessions _))
  | prevTab => exact .inl (still (Workspace.prevTab_sessions _))
  | selectTab => exact .inl (still (Workspace.selectTab_sessions _ _))
  | reconnect _ _ => exact .inl (stood_update found (fun _ => ⟨rfl, rfl⟩))
  | emit _ _ | finish _ | forward _ _ => exact .inl (still rfl)
  | handle _ =>
    exact .inl (stood_update found (fun tab => ⟨onIo_sid tab _ _, onIo_kind tab _ _⟩))

/-- An index is carried since before the step, or it is the place of its session. -/
theorem step_carries {a : RoutingAct} {i owner : Nat} (move : s.step a = some t)
    (carries : t.Carries i owner) :
    s.Carries i owner ∨ ∃ tab, t.ws.sessions[i]? = some tab ∧ tab.sid = owner := by
  cases step_cases move with
  | @openTab kind =>
    have place : (s.openSession kind).ws.sessions[s.ws.sessions.length]? = some (s.freshTab kind) := by
      rw [openSession_sessions, List.getElem?_concat_length]
    unfold openSession at carries
    split at carries
    · rcases carries_attachIo carries with old | ⟨rfl, rfl⟩
      · exact .inl old
      · exact .inr ⟨s.freshTab kind, place, rfl⟩
    · exact .inl carries
  | close | nextTab | prevTab | selectTab => exact .inl carries
  | @reconnect tab front _ =>
    rcases carries_attachIo carries with old | ⟨rfl, rfl⟩
    · exact .inl old
    · refine .inr ⟨{ tab with status := .connecting }, ?_, rfl⟩
      have there : s.ws.sessions[s.ws.active]? = some tab := front
      simp only [attachIo, Workspace.update_sessions, List.getElem?_modify_eq, there]
      rfl
  | emit found running =>
    refine .inl (carries_set carries found ⟨rfl, rfl⟩ ?_ ?_)
    · exact fun _ => .inl running
    · exact fun msg member => .inl member
  | finish found =>
    refine .inl (carries_set carries found ⟨rfl, rfl⟩ ?_ ?_)
    · rintro (stopped | waiting)
      · contradiction
      · exact .inr waiting
    · exact fun msg member => .inl member
  | @forward _ route event rest found queued =>
    have waiting : route.pending ≠ [] := by
      rw [queued]
      exact List.cons_ne_nil event rest
    refine .inl (carries_set carries found ⟨rfl, rfl⟩ ?_ ?_)
    · exact fun _ => .inr waiting
    · intro msg member
      rcases List.mem_append.mp member with old | new
      · exact .inl old
      · cases List.mem_singleton.mp new
        exact .inr ⟨rfl, rfl, waiting⟩
  | handle waiting =>
    rcases carries with live | ⟨other, there, idx, owner⟩
    · exact .inl (.inl live)
    · refine .inl (.inr ⟨other, ?_, idx, owner⟩)
      rw [waiting]
      exact List.mem_cons_of_mem _ there

theorem logged_of_subset {ws : Workspace Tab} (logged : s.Logged)
    (subset : ∀ tab ∈ ws.sessions, tab ∈ s.ws.sessions) : Logged { s with ws := ws } :=
  fun tab member => logged tab (subset tab member)

theorem logged_update {i : Nat} {f : Tab → Tab} (logged : s.Logged)
    (here : ∀ tab, s.ws.sessions[i]? = some tab → ∀ sent ∈ (f tab).handled, sent.1 = (f tab).sid) :
    Logged { s with ws := s.ws.update i f } := by
  intro tab member
  obtain ⟨j, found⟩ := List.mem_iff_getElem?.mp member
  rcases Entries.modify_cases found with ⟨old, there, rfl, rfl⟩ | ⟨_, there⟩
  · exact here old there
  · exact logged tab (List.mem_of_getElem? there)

/-- The one step that applies an event: it goes to the session it came from. -/
theorem handle_logged (routed : s.Routed) (logged : s.Logged) (move : s.step .handle = some t) :
    t.Logged := by
  cases step_cases move with
  | @handle msg rest waiting =>
    have member : msg ∈ s.fan := by
      rw [waiting]
      exact List.mem_cons_self ..
    refine logged_update logged ?_
    intro tab found sent there
    rw [onIo_sid]
    unfold Tab.onIo at there
    split at there
    · next handles =>
      rcases List.mem_append.mp there with old | new
      · exact logged tab (List.mem_of_getElem? found) sent old
      · cases List.mem_singleton.mp new
        exact (routed msg.idx msg.owner tab (.inr ⟨msg, member, rfl, rfl⟩) found handles).symm
    · exact logged tab (List.mem_of_getElem? found) sent there

theorem step_logged {a : RoutingAct} (routed : s.Routed) (logged : s.Logged)
    (move : s.step a = some t) : t.Logged := by
  cases step_cases move with
  | openTab =>
    intro tab member
    rw [openSession_sessions, List.mem_append, List.mem_singleton] at member
    rcases member with old | rfl
    · exact logged tab old
    · rintro sent ⟨⟩
  | close =>
    apply logged_of_subset logged
    intro tab member
    rw [Workspace.removeActive_sessions] at member
    exact List.mem_of_mem_eraseIdx member
  | nextTab => exact logged_of_subset logged (fun _ h => Workspace.nextTab_sessions s.ws ▸ h)
  | prevTab => exact logged_of_subset logged (fun _ h => Workspace.prevTab_sessions s.ws ▸ h)
  | @selectTab idx =>
    exact logged_of_subset logged (fun _ h => Workspace.selectTab_sessions s.ws idx ▸ h)
  | reconnect _ _ =>
    refine logged_update logged ?_
    intro old there
    exact logged old (List.mem_of_getElem? there)
  | emit _ _ | finish _ | forward _ _ => exact logged
  | handle _ => exact handle_logged routed logged move

theorem step_routed {a : RoutingAct} (routed : s.Routed) (keeps : s.KeepsIndices a)
    (move : s.step a = some t) : t.Routed := by
  intro i owner tab carries found handles
  rcases step_carries move carries with carried | ⟨other, there, rfl⟩
  · rcases step_tab move found with ⟨old, before, sid, kind⟩ | ⟨kind, rfl, rfl, rfl⟩
    · rw [← kind] at handles
      rw [← sid]
      cases a with
      | close =>
        simp only [origin] at before
        split at before
        · exact routed i owner old carried before handles
        · next behind =>
          have ignores := keeps i owner old carried (Nat.le_of_not_lt behind) before
          exact absurd (handles.symm.trans ignores) (by decide)
      | _ => exact routed i owner old carried before handles
    · exact absurd rfl (keeps handles _ owner carried)
  · cases found.symm.trans there
    rfl

/-- In a run that moves no session onto an index in use, every event reaches the session
whose task sent it or no session. -/
theorem kept_indices_route_right (run : Run step KeepsIndices {} s) : ¬ s.Misrouted := by
  have straight : s.Routed ∧ s.Logged := by
    apply run.invariant
    · constructor
      · rintro i owner tab (⟨route, ⟨⟩, _⟩ | ⟨msg, ⟨⟩, _⟩)
      · rintro tab ⟨⟩
    · rintro u v a ⟨routed, logged⟩ keeps move
      exact ⟨step_routed routed keeps move, step_logged routed logged move⟩
  rintro ⟨tab, member, sent, there, wrong⟩
  exact wrong (straight.2 tab member sent there)

/-- Two streams; the second one's event is handled while both tabs are open. -/
theorem second_stream_routes_right :
    ∃ s, play step {} [.openTab .stream, .openTab .stream, .emit 1 (.status "up"), .forward 1,
      .handle] = some s ∧ ¬ s.Misrouted := by
  refine ⟨_, rfl, ?_⟩
  apply kept_indices_route_right
  have first : Run step KeepsIndices {} (openSession {} .stream) := by
    refine .next .start (a := .openTab .stream) ?_ rfl
    rintro _ i owner (⟨route, ⟨⟩, _⟩ | ⟨msg, ⟨⟩, _⟩)
  have second : Run step KeepsIndices {} ((openSession {} .stream).openSession .stream) := by
    refine first.next (a := .openTab .stream) ?_ rfl
    rintro _ i owner (⟨route, member, rfl, _⟩ | ⟨msg, ⟨⟩, _⟩)
    cases List.mem_singleton.mp member
    decide
  refine second.trans (run_of_play [.emit 1 (.status "up"), .forward 1, .handle] ?_ rfl)
  intro s a member
  simp only [List.mem_cons, List.not_mem_nil, or_false] at member
  rcases member with rfl | rfl | rfl <;> exact trivial

/-- Two streams, the first one closed: its next event is applied to the second. -/
theorem event_after_close_misrouted : ¬ ∀ s, Reachable step {} s → ¬ s.Misrouted := by
  intro never
  refine never _ (reachable_of_play [.openTab .stream, .openTab .stream, .selectTab 0,
    .close, .emit 0 (.disconnected "closed"), .forward 0, .handle] rfl) ?_
  refine ⟨_, List.mem_singleton.mpr rfl, (0, .disconnected "closed"), ?_, ?_⟩
  · decide
  · decide

/- Where a step does move such a session, the wrong application can follow: no index in
use lies below its own session, so what moves onto it is another one. -/

structure Aged (s : RoutingState) : Prop where
  unique : ∀ (i j : Nat) (a b : Tab), s.ws.sessions[i]? = some a → s.ws.sessions[j]? = some b →
    a.sid = b.sid → i = j
  fresh : ∀ (j : Nat) (tab : Tab), s.ws.sessions[j]? = some tab → tab.sid < s.nextSid
  behind : ∀ i owner, s.Carries i owner → owner < s.nextSid ∧
    ∀ (j : Nat) (tab : Tab), s.ws.sessions[j]? = some tab → tab.sid = owner → j ≤ i

theorem le_origin (a : RoutingAct) (j : Nat) : j ≤ s.origin a j := by
  unfold origin
  split
  · split <;> omega
  · exact Nat.le_refl j

theorem origin_injective {a : RoutingAct} {i j : Nat} (same : s.origin a i = s.origin a j) :
    i = j := by
  unfold origin at same
  split at same
  · split at same <;> split at same <;> omega
  · exact same

theorem step_nextSid {a : RoutingAct} (move : s.step a = some t) :
    s.nextSid ≤ t.nextSid ∧ ∀ kind, a = .openTab kind → t.nextSid = s.nextSid + 1 := by
  cases step_cases move with
  | openTab =>
    rw [openSession_nextSid]
    exact ⟨Nat.le_succ _, fun _ _ => rfl⟩
  | _ => exact ⟨Nat.le_refl _, by rintro _ ⟨⟩⟩

theorem step_aged {a : RoutingAct} (aged : s.Aged) (move : s.step a = some t) : t.Aged := by
  obtain ⟨grows, opened⟩ := step_nextSid move
  have unique : ∀ (i j : Nat) (a b : Tab), t.ws.sessions[i]? = some a → t.ws.sessions[j]? = some b →
      a.sid = b.sid → i = j := by
    intro i j a' b' left right same
    rcases step_tab move left with ⟨old, there, sid, _⟩ | ⟨_, _, rfl, rfl⟩ <;>
      rcases step_tab move right with ⟨old', there', sid', _⟩ | ⟨_, _, rfl, rfl⟩
    · exact origin_injective (aged.unique _ _ _ _ there there' (by rw [sid, same, sid']))
    · exact absurd (sid.trans same) (Nat.ne_of_lt (aged.fresh _ _ there))
    · exact absurd (sid'.trans same.symm) (Nat.ne_of_lt (aged.fresh _ _ there'))
    · rfl
  have fresh : ∀ (j : Nat) (tab : Tab), t.ws.sessions[j]? = some tab → tab.sid < t.nextSid := by
    intro j tab found
    rcases step_tab move found with ⟨old, there, sid, _⟩ | ⟨kind, same, _, rfl⟩
    · rw [← sid]
      exact Nat.lt_of_lt_of_le (aged.fresh _ _ there) grows
    · rw [opened kind same]
      exact Nat.lt_succ_self _
  refine ⟨unique, fresh, ?_⟩
  intro i owner carries
  rcases step_carries move carries with old | ⟨place, there, rfl⟩
  · obtain ⟨known, behind⟩ := aged.behind i owner old
    refine ⟨Nat.lt_of_lt_of_le known grows, ?_⟩
    intro j tab found sid
    rcases step_tab move found with ⟨tab', there, sid', _⟩ | ⟨_, _, _, rfl⟩
    · exact Nat.le_trans (le_origin a j) (behind _ _ there (sid'.trans sid))
    · exact absurd sid.symm (Nat.ne_of_lt known)
  · refine ⟨fresh _ _ there, ?_⟩
    intro j tab found sid
    exact Nat.le_of_eq (unique _ _ _ _ found there sid)

theorem fan_misroutes {pre post : List FanMsg} {msg : FanMsg} {tab : Tab}
    (waiting : s.fan = pre ++ msg :: post) (found : s.ws.sessions[msg.idx]? = some tab)
    (handles : tab.kind.handlesIo = true) (wrong : msg.owner ≠ tab.sid) :
    ∃ u, Reachable step s u ∧ u.Misrouted := by
  induction pre generalizing s tab with
  | nil =>
    have move : s.step .handle = some { s with
        ws := s.ws.update msg.idx (·.onIo msg.owner msg.event), fan := post } := by
      simp only [step, waiting, List.nil_append]
    refine ⟨_, .next (.refl s) move, tab.onIo msg.owner msg.event, ?_, (msg.owner, msg.event), ?_, ?_⟩
    · apply List.mem_of_getElem? (i := msg.idx)
      rw [Workspace.update_sessions, List.getElem?_modify_eq, found]
      rfl
    · simp only [Tab.onIo, handles, if_true, List.mem_append, List.mem_singleton, or_true]
    · rwa [onIo_sid]
  | cons first rest ih =>
    have move : s.step .handle = some { s with
        ws := s.ws.update first.idx (·.onIo first.owner first.event)
        fan := rest ++ msg :: post } := by
      simp only [step, waiting, List.cons_append]
    have kept : ∃ tab', (s.ws.update first.idx (·.onIo first.owner first.event)).sessions[msg.idx]?
        = some tab' ∧ tab'.sid = tab.sid ∧ tab'.kind = tab.kind := by
      rw [Workspace.update_sessions, List.getElem?_modify, found]
      refine ⟨_, rfl, ?_⟩
      dsimp only
      split
      · exact ⟨onIo_sid .., onIo_kind ..⟩
      · exact ⟨rfl, rfl⟩
    obtain ⟨tab', there, sid, kind⟩ := kept
    obtain ⟨u, reached, misrouted⟩ := ih (s := { s with
        ws := s.ws.update first.idx (·.onIo first.owner first.event)
        fan := rest ++ msg :: post }) rfl there (kind ▸ handles) (sid ▸ wrong)
    exact ⟨u, .trans (.next (.refl s) move) reached, misrouted⟩

theorem waiting_misroutes {r : Nat} {route : Route} {event : IoEvent} {rest : List IoEvent}
    {tab : Tab} (live : s.routes[r]? = some route) (queued : route.pending = event :: rest)
    (found : s.ws.sessions[route.idx]? = some tab) (handles : tab.kind.handlesIo = true)
    (wrong : route.owner ≠ tab.sid) : ∃ u, Reachable step s u ∧ u.Misrouted := by
  have move : s.step (.forward r) = some { s with
      routes := s.routes.set r { route with pending := rest }
      fan := s.fan ++ [⟨route.idx, route.owner, event⟩] } := by
    simp only [step, live, queued]
  obtain ⟨u, reached, misrouted⟩ := fan_misroutes (s := { s with
    routes := s.routes.set r { route with pending := rest }
    fan := s.fan ++ [⟨route.idx, route.owner, event⟩] }) rfl found handles wrong
  exact ⟨u, .trans (.next (.refl s) move) reached, misrouted⟩

theorem carried_misroutes {i owner : Nat} {tab : Tab} (carries : s.Carries i owner)
    (found : s.ws.sessions[i]? = some tab) (handles : tab.kind.handlesIo = true)
    (wrong : tab.sid ≠ owner) : ∃ u, Reachable step s u ∧ u.Misrouted := by
  rcases carries with ⟨route, member, rfl, rfl, alive⟩ | ⟨msg, member, rfl, rfl⟩
  · obtain ⟨r, live⟩ := List.mem_iff_getElem?.mp member
    cases queued : route.pending with
    | cons event rest => exact waiting_misroutes live queued found handles wrong.symm
    | nil =>
      have running : route.running = true := by
        rcases alive with running | waiting
        · exact running
        · exact absurd queued waiting
      have move : s.step (.emit r (.status "")) = some { s with
          routes := s.routes.set r { route with pending := [.status ""] } } := by
        simp only [step, live, running, if_true, queued, List.nil_append]
      have there : (s.routes.set r { route with pending := [.status ""] })[r]?
          = some { route with pending := [.status ""] } :=
        List.getElem?_set_self (List.getElem?_eq_some_iff.mp live).1
      obtain ⟨u, reached, misrouted⟩ := waiting_misroutes (s := { s with
        routes := s.routes.set r { route with pending := [.status ""] } }) there rfl found handles
        wrong.symm
      exact ⟨u, .trans (.next (.refl s) move) reached, misrouted⟩
  · obtain ⟨pre, post, waiting⟩ := List.append_of_mem member
    exact fan_misroutes waiting found handles wrong.symm

/-- A close or an open that puts a session onto an index in use, in whatever state a run
reaches, can be followed by a wrong application. -/
theorem moved_index_can_misroute {a : RoutingAct} (run : Reachable step {} s)
    (breaks : ¬ s.KeepsIndices a) : ∃ u, Reachable step s u ∧ u.Misrouted := by
  have aged : s.Aged := by
    refine run.invariant ?_ (fun _ _ _ aged move => step_aged aged move)
    refine ⟨?_, ?_, ?_⟩
    · rintro i j a b ⟨⟩
    · rintro j tab ⟨⟩
    · rintro i owner (⟨route, ⟨⟩, _⟩ | ⟨msg, ⟨⟩, _⟩)
  cases a with
  | close =>
    simp only [KeepsIndices, not_forall] at breaks
    obtain ⟨i, owner, tab, carries, below, found, handles⟩ := breaks
    have moved : s.ws.removeActive.sessions[i]? = some tab := by
      rw [Workspace.removeActive_sessions, List.getElem?_eraseIdx, if_neg (Nat.not_lt.mpr below)]
      exact found
    have wrong : tab.sid ≠ owner := by
      intro same
      have back := (aged.behind i owner carries).2 _ tab found same
      omega
    obtain ⟨u, reached, misrouted⟩ := carried_misroutes (s := { s with ws := s.ws.removeActive })
      carries moved (by simpa using handles) wrong
    exact ⟨u, .trans (.next (a := .close) (.refl s) rfl) reached, misrouted⟩
  | openTab kind =>
    simp only [KeepsIndices, not_forall, ne_eq, not_not] at breaks
    obtain ⟨io, i, owner, carries, rfl⟩ := breaks
    have place : (s.openSession kind).ws.sessions[s.ws.sessions.length]? = some (s.freshTab kind) := by
      rw [openSession_sessions, List.getElem?_concat_length]
    have still : (s.openSession kind).Carries s.ws.sessions.length owner := by
      unfold openSession
      rw [if_pos io]
      rcases carries with ⟨route, member, live⟩ | inFlight
      · exact .inl ⟨route, List.mem_append_left _ member, live⟩
      · exact .inr inFlight
    have wrong : (s.freshTab kind).sid ≠ owner :=
      Nat.ne_of_gt (aged.behind _ owner carries).1
    obtain ⟨u, reached, misrouted⟩ := carried_misroutes still place io wrong
    exact ⟨u, .trans (.next (a := .openTab kind) (.refl s) rfl) reached, misrouted⟩
  | _ => exact absurd trivial breaks

end RoutingState

end BitBeak
