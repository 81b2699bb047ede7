import BitBeak.Frame
import BitBeak.Session.Routing

/-! Reconnecting a stream. The session gets a new I/O task and a new forwarder, under the index
its old one may still send with. Connections are numbered in the order they are opened. -/
namespace BitBeak
open Runs

/-- The last event of an I/O task. -/
def IoEvent.isDisconnected : IoEvent → Bool
  | .disconnected _ => true
  | _ => false

/-- Events that a stream's status or log depends on. -/
def IoEvent.touches : IoEvent → Bool
  | .connected _ | .disconnected _ | .frame _ _ _ | .error _ => true
  | _ => false

/-- What `on_io` of a stream does to its log. -/
def FrameBuffer.log (buf : FrameBuffer) : IoEvent → FrameBuffer
  | .frame direction payload peer => buf.pushFull direction payload peer none
  | _ => buf

/-- An event that `on_io` got, with the session and the connection it comes from. -/
structure Delivered where
  owner : Nat
  link : Nat
  event : IoEvent
  deriving DecidableEq

/-- A tab with its frame log. `link` is the connection it has, `before` the log it had when that
was opened, and `since` the record of what it got from then on. -/
structure LinkTab where
  tab : Tab
  frames : FrameBuffer
  link : Nat
  before : FrameBuffer
  since : List Delivered := []
  deriving DecidableEq

namespace LinkTab

def onIo (t : LinkTab) (d : Delivered) : LinkTab :=
  if t.tab.kind = .stream then
    { t with
      tab := t.tab.onIo d.owner d.event
      frames := t.frames.log d.event
      since := t.since ++ [d] }
  else { t with tab := t.tab.onIo d.owner d.event }

/-- `StreamSession::reconnect`, with the number of the connection it opens. -/
def reconnect (link : Nat) (t : LinkTab) : LinkTab where
  tab := { t.tab with status := .connecting }
  frames := t.frames
  link := link
  before := t.frames

/-- An event of the session's own task, but not of the connection it has. -/
def isStale (t : LinkTab) (d : Delivered) : Bool := d.owner == t.tab.sid && d.link != t.link

/-- Status and log that the events alone lead to. -/
def replay (t : LinkTab) (events : List Delivered) : ConnStatus × FrameBuffer :=
  events.foldl (fun v d => (SessionKind.stream.statusAfter v.1 d.event, v.2.log d.event))
    (.connecting, t.before)

/-- Status and log are what they would be without the events of older connections. -/
def Isolated (t : LinkTab) : Prop :=
  (t.tab.status, t.frames) = t.replay (t.since.filter fun d => !t.isStale d)

end LinkTab

/-- A connection: its forwarder, and whether its task has sent its last event. -/
structure Link where
  route : Route
  parted : Bool := false
  deriving DecidableEq

def Link.send (l : Link) (event : IoEvent) : Link where
  route := { l.route with pending := l.route.pending ++ [event] }
  parted := event.isDisconnected

/-- It may still send something that a stream depends on, or has it queued. -/
def Link.Live (l : Link) : Prop :=
  l.route.running = true ∧ l.parted = false ∨ ∃ event ∈ l.route.pending, event.touches = true

structure LinkMsg where
  link : Nat
  msg : FanMsg
  deriving DecidableEq

structure LinkState where
  ws : Workspace LinkTab := {}
  links : List Link := []
  fan : List LinkMsg := []
  nextSid : Nat := 0
  deriving DecidableEq

namespace LinkState

/-- The routing of the events, without the logs. -/
def routing (s : LinkState) : RoutingState where
  ws := s.ws.map LinkTab.tab
  routes := s.links.map Link.route
  fan := s.fan.map LinkMsg.msg
  nextSid := s.nextSid

/-- `attach_io` on the session at `idx`. -/
def attachIo (s : LinkState) (idx owner : Nat) : LinkState :=
  { s with links := s.links ++ [{ route := { owner := owner, idx := idx } }] }

variable (maxFrames : Nat)

def freshTab (s : LinkState) (kind : SessionKind) : LinkTab where
  tab := s.routing.freshTab kind
  frames := FrameBuffer.new maxFrames
  link := s.links.length
  before := FrameBuffer.new maxFrames

def openSession (s : LinkState) (kind : SessionKind) : LinkState :=
  let opened := { s with ws := s.ws.openTab (s.freshTab maxFrames kind), nextSid := s.nextSid + 1 }
  if kind.handlesIo then opened.attachIo s.ws.sessions.length s.nextSid else opened

/-- A task that has sent its `Disconnected` sends nothing else. -/
def step (s : LinkState) : RoutingAct → Option LinkState
  | .openTab kind => some (s.openSession maxFrames kind)
  | .close => some { s with ws := s.ws.removeActive }
  | .nextTab => some { s with ws := s.ws.nextTab }
  | .prevTab => some { s with ws := s.ws.prevTab }
  | .selectTab idx => some { s with ws := s.ws.selectTab idx }
  | .reconnect =>
    match s.ws.activeSession with
    | some t =>
      if t.tab.kind = .stream ∧ t.tab.status = .disconnected then
        let again := { s with ws := s.ws.update s.ws.active (·.reconnect s.links.length) }
        some (again.attachIo s.ws.active t.tab.sid)
      else none
    | none => none
  | .emit r event =>
    match s.links[r]? with
    | some l =>
      if l.route.running = true ∧ l.parted = false then
        some { s with links := s.links.set r (l.send event) }
      else none
    | none => none
  | .finish r =>
    match s.links[r]? with
    | some l => some { s with links := s.links.set r { l with
        route := { l.route with running := false } } }
    | none => none
  | .forward r =>
    match s.links[r]? with
    | some l =>
      match l.route.pending with
      | event :: rest => some { s with
          links := s.links.set r { l with route := { l.route with pending := rest } }
          fan := s.fan ++ [⟨r, ⟨l.route.idx, l.route.owner, event⟩⟩] }
      | [] => none
    | none => none
  | .handle =>
    match s.fan with
    | m :: rest => some { s with
        ws := s.ws.update m.msg.idx (·.onIo ⟨m.msg.owner, m.link, m.msg.event⟩)
        fan := rest }
    | [] => none

/-- An event of session `owner`'s connection `link` that matters to a stream, and is not yet
handled or may still come, carries the index `i`. -/
def Carries (s : LinkState) (i owner link : Nat) : Prop :=
  (∃ l, s.links[link]? = some l ∧ l.route.idx = i ∧ l.route.owner = owner ∧ l.Live) ∨
  ∃ m ∈ s.fan, m.link = link ∧ m.msg.idx = i ∧ m.msg.owner = owner ∧ m.msg.event.touches = true

/-- A reconnect finds nothing of the session's connections under the index it has. -/
def Settled (s : LinkState) : RoutingAct → Prop
  | .reconnect => ∀ t, s.ws.activeSession = some t → ∀ link, ¬ s.Carries s.ws.active t.tab.sid link
  | _ => True

/-- Every stream is as the events of its own connection have left it. -/
def Isolated (s : LinkState) : Prop :=
  ∀ t ∈ s.ws.sessions, t.tab.kind = .stream → t.Isolated

/- What a step can do, said once. -/

variable {maxFrames} {s u : LinkState}

inductive Moves (maxFrames : Nat) (s : LinkState) : RoutingAct → LinkState → Prop where
  | openTab {kind : SessionKind} : Moves maxFrames s (.openTab kind) (s.openSession maxFrames kind)
  | close : Moves maxFrames s .close { s with ws := s.ws.removeActive }
  | nextTab : Moves maxFrames s .nextTab { s with ws := s.ws.nextTab }
  | prevTab : Moves maxFrames s .prevTab { s with ws := s.ws.prevTab }
  | selectTab {idx : Nat} : Moves maxFrames s (.selectTab idx) { s with ws := s.ws.selectTab idx }
  | reconnect {t : LinkTab} (front : s.ws.activeSession = some t)
    (ended : t.tab.kind = .stream ∧ t.tab.status = .disconnected) :
    Moves maxFrames s .reconnect (attachIo
      { s with ws := s.ws.update s.ws.active (·.reconnect s.links.length) } s.ws.active t.tab.sid)
  | emit {r : Nat} {event : IoEvent} {l : Link} (found : s.links[r]? = some l)
    (running : l.route.running = true ∧ l.parted = false) :
    Moves maxFrames s (.emit r event) { s with links := s.links.set r (l.send event) }
  | finish {r : Nat} {l : Link} (found : s.links[r]? = some l) :
    Moves maxFrames s (.finish r)
      { s with links := s.links.set r { l with route := { l.route with running := false } } }
  | forward {r : Nat} {l : Link} {event : IoEvent} {rest : List IoEvent}
    (found : s.links[r]? = some l) (queued : l.route.pending = event :: rest) :
    Moves maxFrames s (.forward r) { s with
      links := s.links.set r { l with route := { l.route with pending := rest } }
      fan := s.fan ++ [⟨r, ⟨l.route.idx, l.route.owner, event⟩⟩] }
  | handle {m : LinkMsg} {rest : List LinkMsg} (waiting : s.fan = m :: rest) :
    Moves maxFrames s .handle { s with
      ws := s.ws.update m.msg.idx (·.onIo ⟨m.msg.owner, m.link, m.msg.event⟩)
      fan := rest }

theorem step_cases {a : RoutingAct} (move : s.step maxFrames a = some u) : s.Moves maxFrames a u := by
  cases a with
  | openTab kind =>
    cases move
    exact .openTab
  | close =>
    cases move
    exact .close
  | nextTab =>
    cases move
    exact .nextTab
  | prevTab =>
    cases move
    exact .prevTab
  | selectTab idx =>
    cases move
    exact .selectTab
  | reconnect =>
    simp only [step] at move
    split at move
    · next t front =>
      split at move
      · next ended =>
        cases move
        exact .reconnect front ended
      · contradiction
    · contradiction
  | emit r event =>
    simp only [step] at move
    split at move
    · next l found =>
      split at move
      · next running =>
        cases move
        exact .emit found running
      · contradiction
    · contradiction
  | finish r =>
    simp only [step] at move
    split at move
    · next l found =>
      cases move
      exact .finish found
    · contradiction
  | forward r =>
    simp only [step] at move
    split at move
    · next l found =>
      split at move
      · next event rest queued =>
        cases move
        exact .forward found queued
      · contradiction
    · contradiction
  | handle =>
    simp only [step] at move
    split at move
    · next m rest waiting =>
      cases move
      exact .handle waiting
    · contradiction

/- Without the logs this is the routing. -/

theorem onIo_tab (t : LinkTab) (d : Delivered) : (t.onIo d).tab = t.tab.onIo d.owner d.event := by
  unfold LinkTab.onIo
  split <;> rfl

theorem openSession_routing (kind : SessionKind) :
    (s.openSession maxFrames kind).routing = s.routing.openSession kind := by
  have tabs : (s.ws.openTab (s.freshTab maxFrames kind)).map LinkTab.tab =
      s.routing.ws.openTab (s.routing.freshTab kind) := Workspace.map_openTab ..
  have length : s.routing.ws.sessions.length = s.ws.sessions.length := List.length_map ..
  unfold openSession RoutingState.openSession
  rw [length, ← tabs]
  split
  · simp only [routing, attachIo, RoutingState.attachIo, List.map_append, List.map_cons,
      List.map_nil]
  · rfl

theorem step_routing {a : RoutingAct} (move : s.step maxFrames a = some u) :
    s.routing.step a = some u.routing := by
  cases step_cases move with
  | @openTab kind => exact congrArg some (openSession_routing kind).symm
  | close => simp [RoutingState.step, routing, Workspace.map_removeActive]
  | nextTab => simp [RoutingState.step, routing, Workspace.map_nextTab]
  | prevTab => simp [RoutingState.step, routing, Workspace.map_prevTab]
  | selectTab => simp [RoutingState.step, routing, Workspace.map_selectTab]
  | @reconnect t front ended =>
    have there : s.routing.ws.activeSession = some t.tab := by
      simp [routing, Workspace.map_activeSession, front]
    have tabs : (s.ws.update s.ws.active (·.reconnect s.links.length)).map LinkTab.tab =
        (s.ws.map LinkTab.tab).update s.ws.active (fun tab => { tab with status := .connecting }) :=
      Workspace.map_update LinkTab.tab s.ws s.ws.active (fun _ => rfl)
    simp only [RoutingState.step, there, ended, and_self, if_true]
    simp only [routing, attachIo, RoutingState.attachIo, tabs, List.map_append, List.map_cons,
      List.map_nil]
    rfl
  | @emit r event l found running =>
    have there : s.routing.routes[r]? = some l.route := by simp [routing, found]
    simp only [RoutingState.step, there, running, if_true]
    simp [routing, Link.send, running]
  | @finish r l found =>
    have there : s.routing.routes[r]? = some l.route := by simp [routing, found]
    simp only [RoutingState.step, there]
    simp [routing]
  | @forward r l event rest found queued =>
    have there : s.routing.routes[r]? = some l.route := by simp [routing, found]
    simp only [RoutingState.step, there, queued]
    simp [routing]
  | @handle m rest waiting =>
    have there : s.routing.fan = m.msg :: rest.map LinkMsg.msg := by simp [routing, waiting]
    have tabs : (s.ws.update m.msg.idx (·.onIo ⟨m.msg.owner, m.link, m.msg.event⟩)).map LinkTab.tab =
        (s.ws.map LinkTab.tab).update m.msg.idx (·.onIo m.msg.owner m.msg.event) :=
      Workspace.map_update LinkTab.tab s.ws m.msg.idx (fun t => onIo_tab t _)
    simp only [RoutingState.step, there]
    simp only [routing, tabs]

/- Where a tab comes from, and what carries an index. -/

inductive Came (maxFrames : Nat) (s : LinkState) : RoutingAct → Nat → LinkTab → Prop where
  | stood {a : RoutingAct} {j : Nat} {t : LinkTab}
    (there : s.ws.sessions[s.routing.origin a j]? = some t) : Came maxFrames s a j t
  | fresh {kind : SessionKind} {j : Nat} :
    Came maxFrames s (.openTab kind) j (s.freshTab maxFrames kind)
  | reconnected {t : LinkTab} (front : s.ws.activeSession = some t) :
    Came maxFrames s .reconnect s.ws.active (t.reconnect s.links.length)
  | handled {m : LinkMsg} {rest : List LinkMsg} {t : LinkTab} (waiting : s.fan = m :: rest)
    (there : s.ws.sessions[m.msg.idx]? = some t) :
    Came maxFrames s .handle m.msg.idx (t.onIo ⟨m.msg.owner, m.link, m.msg.event⟩)

theorem openSession_sessions (kind : SessionKind) :
    (s.openSession maxFrames kind).ws.sessions = s.ws.sessions ++ [s.freshTab maxFrames kind] := by
  unfold openSession
  split <;> rfl

theorem step_tab {a : RoutingAct} {j : Nat} {t : LinkTab} (move : s.step maxFrames a = some u)
    (found : u.ws.sessions[j]? = some t) : s.Came maxFrames a j t := by
  cases step_cases move with
  | openTab =>
    rw [openSession_sessions] at found
    rcases Entries.concat_cases found with old | ⟨_, rfl⟩
    · exact .stood old
    · exact .fresh
  | close =>
    rw [Workspace.removeActive_sessions, List.getElem?_eraseIdx] at found
    refine .stood ?_
    have origin : s.routing.origin .close j = if j < s.ws.active then j else j + 1 := rfl
    rw [origin]
    split at found
    · next before => rwa [if_pos before]
    · next behind => rwa [if_neg behind]
  | nextTab => exact .stood (by rwa [Workspace.nextTab_sessions] at found)
  | prevTab => exact .stood (by rwa [Workspace.prevTab_sessions] at found)
  | selectTab => exact .stood (by rwa [Workspace.selectTab_sessions] at found)
  | @reconnect front_tab front _ =>
    rcases Entries.modify_cases found with ⟨old, there, rfl, rfl⟩ | ⟨_, there⟩
    · exact .reconnected there
    · exact .stood there
  | emit | finish | forward => exact .stood found
  | handle waiting =>
    rcases Entries.modify_cases found with ⟨old, there, rfl, rfl⟩ | ⟨_, there⟩
    · exact .handled waiting there
    · exact .stood there

theorem carries_attachIo {idx sid i owner link : Nat}
    (carries : (s.attachIo idx sid).Carries i owner link) :
    s.Carries i owner link ∨ link = s.links.length ∧ i = idx ∧ owner = sid := by
  rcases carries with ⟨l, found, rfl, rfl, live⟩ | inFlight
  · rcases Entries.concat_cases found with old | ⟨last, rfl⟩
    · exact .inl (.inl ⟨l, old, rfl, rfl, live⟩)
    · exact .inr ⟨last, rfl, rfl⟩
  · exact .inl (.inr inFlight)

/-- Replacing a connection by one under the same index and owner, live only if the old one was,
carries nothing new. -/
theorem carries_set {r : Nat} {l next : Link} {fan : List LinkMsg} {i owner link : Nat}
    (carries : Carries { s with links := s.links.set r next, fan := fan } i owner link)
    (found : s.links[r]? = some l)
    (same : next.route.idx = l.route.idx ∧ next.route.owner = l.route.owner)
    (live : next.Live → l.Live)
    (sent : ∀ m ∈ fan, m ∈ s.fan ∨ m.link = r ∧ m.msg.idx = l.route.idx ∧
      m.msg.owner = l.route.owner ∧ (m.msg.event.touches = true → l.Live)) :
    s.Carries i owner link := by
  rcases carries with ⟨other, there, rfl, rfl, alive⟩ | ⟨m, there, rfl, rfl, rfl, touches⟩
  · rcases Entries.set_cases there with ⟨rfl, rfl⟩ | ⟨-, before⟩
    · exact .inl ⟨l, found, same.1.symm, same.2.symm, live alive⟩
    · exact .inl ⟨other, before, rfl, rfl, alive⟩
  · rcases sent m there with old | ⟨rfl, idx, owner, alive⟩
    · exact .inr ⟨m, old, rfl, rfl, rfl, touches⟩
    · exact .inl ⟨l, found, idx.symm, owner.symm, alive touches⟩

/-- What carries an index did so before the step, or is the connection that was just opened. -/
theorem step_carries {a : RoutingAct} {i owner link : Nat} (move : s.step maxFrames a = some u)
    (carries : u.Carries i owner link) :
    s.Carries i owner link ∨
      ∃ t, u.ws.sessions[i]? = some t ∧ t.tab.sid = owner ∧ t.link = link ∧
        t.tab.status ≠ .disconnected := by
  cases step_cases move with
  | @openTab kind =>
    have place : (s.openSession maxFrames kind).ws.sessions[s.ws.sessions.length]? =
        some (s.freshTab maxFrames kind) := by
      rw [openSession_sessions, List.getElem?_concat_length]
    unfold openSession at carries
    split at carries
    · rcases carries_attachIo carries with old | ⟨rfl, rfl, rfl⟩
      · exact .inl old
      · refine .inr ⟨s.freshTab maxFrames kind, place, rfl, rfl, ?_⟩
        cases kind <;> exact ConnStatus.noConfusion
    · exact .inl carries
  | close | nextTab | prevTab | selectTab => exact .inl carries
  | @reconnect t front _ =>
    rcases carries_attachIo carries with old | ⟨rfl, rfl, rfl⟩
    · exact .inl old
    · refine .inr ⟨t.reconnect s.links.length, ?_, rfl, rfl, ConnStatus.noConfusion⟩
      have there : s.ws.sessions[s.ws.active]? = some t := front
      simp only [attachIo, Workspace.update_sessions, List.getElem?_modify_eq, there]
      rfl
  | emit found running =>
    refine .inl (carries_set carries found ⟨rfl, rfl⟩ ?_ ?_)
    · exact fun _ => .inl running
    · exact fun m member => .inl member
  | finish found =>
    refine .inl (carries_set carries found ⟨rfl, rfl⟩ ?_ ?_)
    · rintro (⟨stopped, _⟩ | waiting)
      · contradiction
      · exact .inr waiting
    · exact fun m member => .inl member
  | @forward r l event rest found queued =>
    refine .inl (carries_set carries found ⟨rfl, rfl⟩ ?_ ?_)
    · rintro (running | ⟨later, member, touches⟩)
      · exact .inl running
      · exact .inr ⟨later, queued ▸ List.mem_cons_of_mem event member, touches⟩
    · intro m member
      rcases List.mem_append.mp member with old | new
      · exact .inl old
      · cases List.mem_singleton.mp new
        refine .inr ⟨rfl, rfl, rfl, ?_⟩
        exact fun touches => .inr ⟨event, queued ▸ List.mem_cons_self .., touches⟩
  | handle waiting =>
    rcases carries with live | ⟨other, there, rest⟩
    · exact .inl (.inl live)
    · refine .inl (.inr ⟨other, ?_, rest⟩)
      rw [waiting]
      exact List.mem_cons_of_mem _ there

theorem carries_routing {i owner link : Nat} (carries : s.Carries i owner link) :
    s.routing.Carries i owner := by
  rcases carries with ⟨l, found, rfl, rfl, live⟩ | ⟨m, member, _, rfl, rfl, _⟩
  · refine .inl ⟨l.route, List.mem_map_of_mem (List.mem_of_getElem? found), rfl, rfl, ?_⟩
    rcases live with ⟨running, _⟩ | ⟨event, waiting, _⟩
    · exact .inl running
    · exact .inr (List.ne_nil_of_mem waiting)
  · exact .inr ⟨m.msg, List.mem_map_of_mem member, rfl, rfl⟩

theorem routing_tab {j : Nat} {t : LinkTab} (found : s.ws.sessions[j]? = some t) :
    s.routing.ws.sessions[j]? = some t.tab := by
  simp [routing, Workspace.map, found]

/- One event. -/

theorem onIo_link (t : LinkTab) (d : Delivered) : (t.onIo d).link = t.link := by
  unfold LinkTab.onIo
  split <;> rfl

theorem onIo_sid (t : LinkTab) (d : Delivered) : (t.onIo d).tab.sid = t.tab.sid := by
  rw [onIo_tab, RoutingState.onIo_sid]

theorem onIo_kind (t : LinkTab) (d : Delivered) : (t.onIo d).tab.kind = t.tab.kind := by
  rw [onIo_tab, RoutingState.onIo_kind]

theorem onIo_isStale (t : LinkTab) (d : Delivered) : (t.onIo d).isStale = t.isStale := by
  funext e
  rw [LinkTab.isStale, LinkTab.isStale, onIo_sid, onIo_link]

theorem untouched {event : IoEvent} (h : event.touches = false) (status : ConnStatus)
    (buf : FrameBuffer) :
    SessionKind.stream.statusAfter status event = status ∧ buf.log event = buf := by
  cases event <;> first | contradiction | exact ⟨rfl, rfl⟩

theorem onIo_stream {t : LinkTab} (stream : t.tab.kind = .stream) (d : Delivered) :
    (t.onIo d).tab.status = SessionKind.stream.statusAfter t.tab.status d.event ∧
    (t.onIo d).frames = t.frames.log d.event ∧ (t.onIo d).before = t.before ∧
    (t.onIo d).since = t.since ++ [d] := by
  have handles : t.tab.kind.handlesIo = true := by rw [stream]; rfl
  simp [LinkTab.onIo, stream, Tab.onIo, SessionKind.handlesIo]

theorem onIo_isolated {t : LinkTab} {d : Delivered} (stream : t.tab.kind = .stream)
    (isolated : t.Isolated) (harmless : t.isStale d = true → d.event.touches = false) :
    (t.onIo d).Isolated := by
  obtain ⟨status, frames, before, since⟩ := onIo_stream stream d
  unfold LinkTab.Isolated LinkTab.replay at isolated ⊢
  rw [onIo_isStale, status, frames, before, since, List.filter_append]
  cases stale : t.isStale d with
  | true =>
    obtain ⟨same, kept⟩ := untouched (harmless stale) t.tab.status t.frames
    rw [same, kept, List.filter_cons_of_neg (by simp [stale]), List.filter_nil, List.append_nil]
    exact isolated
  | false =>
    rw [List.filter_cons_of_pos (by simp [stale]), List.filter_nil, List.foldl_append, ← isolated]
    rfl

/- Nothing of an older connection carries an index its session can come to. -/

structure Apart (s : LinkState) : Prop where
  aged : s.routing.Aged
  ahead : ∀ (j : Nat) (t : LinkTab) (i link : Nat), s.ws.sessions[j]? = some t → link ≠ t.link →
    s.Carries i t.tab.sid link → j < i
  isolated : s.Isolated

theorem step_ahead {a : RoutingAct} (apart : s.Apart) (settled : s.Settled a)
    (move : s.step maxFrames a = some u) (j : Nat) (t : LinkTab) (i link : Nat)
    (found : u.ws.sessions[j]? = some t) (other : link ≠ t.link)
    (carries : u.Carries i t.tab.sid link) : j < i := by
  have aged : u.routing.Aged := RoutingState.step_aged apart.aged (step_routing move)
  rcases step_carries move carries with old | ⟨opened, there, sid, rfl, _⟩
  · have behind := apart.aged.behind i t.tab.sid (carries_routing old)
    cases step_tab move found with
    | stood there =>
      exact Nat.lt_of_le_of_lt (RoutingState.le_origin a j) (apart.ahead _ t i link there other old)
    | fresh => exact absurd behind.1 (Nat.lt_irrefl _)
    | @reconnected before front =>
      have le := behind.2 s.ws.active before.tab (routing_tab front) rfl
      apply Nat.lt_of_le_of_ne le
      rintro rfl
      exact settled before front link old
    | handled _ there =>
      rw [onIo_sid] at old
      rw [onIo_link] at other
      exact apart.ahead _ _ i link there other old
  · cases aged.unique i j _ _ (routing_tab there) (routing_tab found) sid
    cases there.symm.trans found
    exact absurd rfl other

theorem step_isolated {a : RoutingAct} (apart : s.Apart) (move : s.step maxFrames a = some u) :
    u.Isolated := by
  intro t member stream
  obtain ⟨j, found⟩ := List.mem_iff_getElem?.mp member
  cases step_tab move found with
  | stood there => exact apart.isolated t (List.mem_of_getElem? there) stream
  | @fresh kind =>
    have kind_eq : kind = .stream := stream
    subst kind_eq
    rfl
  | reconnected => rfl
  | @handled m rest before waiting there =>
    rw [onIo_kind] at stream
    refine onIo_isolated stream (apart.isolated before (List.mem_of_getElem? there) stream) ?_
    intro stale
    simp only [LinkTab.isStale, Bool.and_eq_true, beq_iff_eq, bne_iff_ne] at stale
    by_contra touches
    have carries : s.Carries m.msg.idx before.tab.sid m.link := by
      refine .inr ⟨m, ?_, rfl, rfl, stale.1, by simpa using touches⟩
      rw [waiting]
      exact List.mem_cons_self ..
    exact absurd (apart.ahead _ _ _ _ there stale.2 carries) (Nat.lt_irrefl _)

theorem start_apart : Apart {} := by
  refine ⟨⟨?_, ?_, ?_⟩, ?_, ?_⟩
  · rintro i j a b ⟨⟩
  · rintro j tab ⟨⟩
  · rintro i owner (⟨route, ⟨⟩, _⟩ | ⟨msg, ⟨⟩, _⟩)
  · rintro j t i link ⟨⟩
  · rintro t ⟨⟩

/-- In a run whose reconnects find nothing of the session's connections under the index it has,
status and log of every stream are those that the events of its own connection lead to. -/
theorem settled_reconnects_isolate (run : Run (step maxFrames) Settled {} s) : s.Isolated := by
  have apart : s.Apart := by
    refine run.invariant start_apart ?_
    intro s u a apart settled move
    exact ⟨RoutingState.step_aged apart.aged (step_routing move), step_ahead apart settled move,
      step_isolated apart move⟩
  exact apart.isolated

theorem settled_of_ended (quiet : s.fan = [])
    (ended : ∀ l ∈ s.links, l.parted = true ∧ l.route.pending = []) (a : RoutingAct) :
    s.Settled a := by
  cases a with
  | reconnect =>
    rintro t front link (⟨l, found, _, _, live⟩ | ⟨m, member, _⟩)
    · obtain ⟨parted, empty⟩ := ended l (List.mem_of_getElem? found)
      rcases live with ⟨_, open_⟩ | ⟨event, waiting, _⟩
      · rw [parted] at open_
        contradiction
      · rw [empty] at waiting
        contradiction
    · rw [quiet] at member
      contradiction
  | _ => trivial

/-- A stream whose connection has ended is connected again. -/
theorem reconnect_after_last_event :
    ∃ s, play (step 10000) {} [.openTab .stream, .emit 0 (.disconnected "eof"), .forward 0, .handle,
      .reconnect, .emit 1 (.connected "peer"), .forward 1, .handle] = some s ∧ s.Isolated := by
  refine ⟨_, rfl, ?_⟩
  apply settled_reconnects_isolate
  have ended : Run (step 10000) Settled {} _ := run_of_play
    [.openTab .stream, .emit 0 (.disconnected "eof"), .forward 0, .handle] (by simp [Settled]) rfl
  exact (ended.next (settled_of_ended rfl (by decide) .reconnect) rfl).trans
    (run_of_play [.emit 1 (.connected "peer"), .forward 1, .handle] (by simp [Settled]) rfl)

/-- A stream is closed while its `Disconnected` is on the way; the stream that is opened under its
index is marked by it and reconnects, while the connection it has is alive: the end of that one
is then taken for the end of the new one. -/
theorem old_end_closes_new_connection : ¬ ∀ s, Reachable (step 10000) {} s → s.Isolated := by
  intro always
  have isolated := always _ (reachable_of_play [.openTab .stream, .emit 0 (.disconnected "eof"),
    .close, .openTab .stream, .forward 0, .handle, .reconnect, .emit 1 (.disconnected "eof"),
    .forward 1, .handle] rfl) _ (List.mem_singleton.mpr rfl) rfl
  have status := congrArg Prod.fst isolated
  exact absurd status (by decide)

/- Where an event reaches no session but its own, a reconnect finds nothing. -/

/-- What connection `r` has sent and is not handled. -/
def queue (s : LinkState) (r : Nat) (l : Link) : List IoEvent :=
  (s.fan.filter (·.link == r)).map (·.msg.event) ++ l.route.pending

/-- A `Disconnected` is the last of it, and shows that the task has ended. -/
def Final (parted : Bool) (events : List IoEvent) : Prop :=
  (parted = false → ∀ event ∈ events, event.isDisconnected = false) ∧
  ∀ before event behind, events = before ++ event :: behind → event.isDisconnected = true →
    behind = []

theorem final_nil (parted : Bool) : Final parted [] :=
  ⟨fun _ _ member => absurd member List.not_mem_nil,
    fun before event behind same _ => absurd same.symm (by simp)⟩

theorem final_send {events : List IoEvent} (final : Final false events) (event : IoEvent) :
    Final event.isDisconnected (events ++ [event]) := by
  constructor
  · intro last e member
    rcases List.mem_append.mp member with old | new
    · exact final.1 rfl e old
    · rwa [List.mem_singleton.mp new]
  · intro before e behind same ends
    cases behind using List.reverseRecOn with
    | nil => rfl
    | append_singleton behind d =>
      -- Then the end was among the events before, and none of them is one.
      rw [← List.cons_append, ← List.append_assoc] at same
      obtain ⟨rfl, -⟩ := List.append_singleton_inj.mp same
      have inside : e ∈ before ++ e :: behind := List.mem_append_right before List.mem_cons_self
      rw [final.1 rfl e inside] at ends
      contradiction

theorem final_tail {parted : Bool} {event : IoEvent} {events : List IoEvent}
    (final : Final parted (event :: events)) : Final parted events :=
  ⟨fun still e member => final.1 still e (List.mem_cons_of_mem event member),
    fun before e behind same ends => final.2 (event :: before) e behind (by rw [same]; rfl) ends⟩

structure Quiet (s : LinkState) : Prop where
  aged : s.routing.Aged
  routed : s.routing.Routed
  final : ∀ (r : Nat) (l : Link), s.links[r]? = some l → Final l.parted (s.queue r l)
  sent : ∀ m ∈ s.fan, m.link < s.links.length
  latest : ∀ (j : Nat) (t : LinkTab) (i link : Nat), s.ws.sessions[j]? = some t →
    s.Carries i t.tab.sid link → link = t.link ∧ t.tab.status ≠ .disconnected

theorem step_links {a : RoutingAct} (move : s.step maxFrames a = some u) :
    s.links.length ≤ u.links.length := by
  cases step_cases move with
  | openTab =>
    unfold openSession
    split <;> simp [attachIo]
  | reconnect => simp [attachIo]
  | emit | finish | forward => simp
  | close | nextTab | prevTab | selectTab | handle => exact le_rfl

theorem step_sent {a : RoutingAct} (quiet : s.Quiet) (move : s.step maxFrames a = some u)
    (m : LinkMsg) (member : m ∈ u.fan) : m.link < u.links.length := by
  have grows := step_links move
  have old : m ∈ s.fan → m.link < u.links.length :=
    fun there => Nat.lt_of_lt_of_le (quiet.sent m there) grows
  cases step_cases move with
  | openTab =>
    unfold openSession at member
    split at member <;> exact old member
  | close | nextTab | prevTab | selectTab | reconnect | emit | finish => exact old member
  | forward found =>
    rcases List.mem_append.mp member with there | new
    · exact old there
    · rw [List.mem_singleton.mp new]
      exact Nat.lt_of_lt_of_le (List.getElem?_eq_some_iff.mp found).1 grows
  | @handle first _ waiting => exact old (waiting ▸ List.mem_cons_of_mem first member)

/-- The queue of a connection that is not there yet. -/
theorem queue_new (quiet : s.Quiet) (route : Route) (empty : route.pending = []) :
    s.queue s.links.length { route := route } = [] := by
  have none : s.fan.filter (·.link == s.links.length) = [] := by
    rw [List.filter_eq_nil_iff]
    intro m member
    have := quiet.sent m member
    simpa using Nat.ne_of_lt this
  rw [queue, none, empty]
  rfl

theorem final_attachIo (quiet : s.Quiet) {links : List Link} {route : Route} {r : Nat} {l : Link}
    (opened : links = s.links ++ [{ route := route }]) (empty : route.pending = [])
    (found : links[r]? = some l) : Final l.parted (s.queue r l) := by
  rw [opened] at found
  rcases Entries.concat_cases found with old | ⟨rfl, rfl⟩
  · exact quiet.final r l old
  · rw [queue_new quiet route empty]
    exact final_nil false

theorem step_final {a : RoutingAct} (quiet : s.Quiet) (move : s.step maxFrames a = some u)
    (r : Nat) (l : Link) (found : u.links[r]? = some l) : Final l.parted (u.queue r l) := by
  cases step_cases move with
  | @openTab kind =>
    have fan : (s.openSession maxFrames kind).fan = s.fan := by
      unfold openSession
      split <;> rfl
    rw [queue, fan]
    unfold openSession at found
    split at found
    · exact final_attachIo quiet rfl rfl found
    · exact quiet.final r l found
  | close | nextTab | prevTab | selectTab => exact quiet.final r l found
  | reconnect => exact final_attachIo quiet rfl rfl found
  | @emit r' event old there running =>
    have before := quiet.final r' old there
    rw [running.2] at before
    rcases Entries.set_cases found with ⟨rfl, rfl⟩ | ⟨-, same⟩
    · have more : queue { s with links := s.links.set r' (old.send event) } r' (old.send event) =
          s.queue r' old ++ [event] := (List.append_assoc ..).symm
      rw [more]
      exact final_send before event
    · exact quiet.final r l same
  | @finish r' old there =>
    rcases Entries.set_cases found with ⟨rfl, rfl⟩ | ⟨-, same⟩
    · exact quiet.final r' old there
    · exact quiet.final r l same
  | @forward r' old event rest there queued =>
    rcases Entries.set_cases found with ⟨rfl, rfl⟩ | ⟨elsewhere, same⟩
    · have before := quiet.final r' old there
      simpa [queue, List.filter_append, queued] using before
    · have before := quiet.final r l same
      simpa [queue, List.filter_append, elsewhere] using before
  | @handle m rest waiting =>
    have before := quiet.final r l found
    by_cases here : m.link = r
    · simp only [queue, waiting, List.filter_cons, here, beq_self_eq_true, if_true, List.map_cons,
        List.cons_append] at before
      exact final_tail before
    · simpa [queue, waiting, List.filter_cons, here] using before

/-- The end of a connection is the last that is heard of it. -/
theorem handle_last (quiet : s.Quiet) {m : LinkMsg} {rest : List LinkMsg} {ws : Workspace LinkTab}
    {i owner : Nat} (waiting : s.fan = m :: rest) (ends : m.msg.event.isDisconnected = true) :
    ¬ Carries { s with ws := ws, fan := rest } i owner m.link := by
  have known : m.link < s.links.length := quiet.sent m (waiting ▸ List.mem_cons_self ..)
  have final := quiet.final m.link _ (List.getElem?_eq_getElem known)
  rw [queue, waiting, List.filter_cons, if_pos (beq_self_eq_true _), List.map_cons,
    List.cons_append] at final
  have parted : (s.links[m.link]).parted = true := by
    by_contra open_
    have none := final.1 (by simpa using open_) m.msg.event (List.mem_cons_self ..)
    rw [ends] at none
    contradiction
  obtain ⟨handled, empty⟩ := List.append_eq_nil_iff.mp (final.2 [] _ _ rfl ends)
  rintro (⟨l, found, _, _, live⟩ | ⟨other, member, same, _⟩)
  · cases (List.getElem?_eq_getElem known).symm.trans found
    rcases live with ⟨_, open_⟩ | ⟨event, member, _⟩
    · rw [parted] at open_
      contradiction
    · rw [empty] at member
      contradiction
  · have there : other ∈ rest.filter (·.link == m.link) :=
      List.mem_filter.mpr ⟨member, by simpa using same⟩
    rw [List.map_eq_nil_iff.mp handled] at there
    contradiction

theorem touches_of_isDisconnected {event : IoEvent} (ends : event.isDisconnected = true) :
    event.touches = true := by
  cases event <;> first | rfl | contradiction

theorem statusAfter_disconnected {kind : SessionKind} {status : ConnStatus} {event : IoEvent}
    (ended : kind.statusAfter status event = .disconnected) :
    status = .disconnected ∨ event.isDisconnected = true := by
  cases event <;> cases kind <;> simp_all [SessionKind.statusAfter, IoEvent.isDisconnected]

theorem step_latest {a : RoutingAct} (quiet : s.Quiet) (move : s.step maxFrames a = some u)
    (j : Nat) (t : LinkTab) (i link : Nat) (found : u.ws.sessions[j]? = some t)
    (carries : u.Carries i t.tab.sid link) : link = t.link ∧ t.tab.status ≠ .disconnected := by
  have aged : u.routing.Aged := RoutingState.step_aged quiet.aged (step_routing move)
  rcases step_carries move carries with old | ⟨opened, there, sid, rfl, connecting⟩
  · cases step_tab move found with
    | stood there => exact quiet.latest _ t i link there old
    | fresh =>
      exact absurd (quiet.aged.behind i _ (carries_routing old)).1 (Nat.lt_irrefl _)
    | @reconnected before front =>
      cases step_cases move with
      | reconnect again ended =>
        cases front.symm.trans again
        exact absurd ended.2 (quiet.latest _ before i link front old).2
    | @handled m rest before waiting there =>
      rw [onIo_sid] at old carries
      obtain ⟨same, connected⟩ := quiet.latest _ before i link there old
      rw [onIo_link]
      refine ⟨same, ?_⟩
      intro ended
      rw [onIo_tab] at ended
      unfold Tab.onIo at ended
      split at ended
      · next handles =>
        rcases statusAfter_disconnected ended with was | ends
        · exact connected was
        · have touches := touches_of_isDisconnected ends
          have member : m ∈ s.fan := waiting ▸ List.mem_cons_self ..
          have own := quiet.routed m.msg.idx m.msg.owner before.tab
            (.inr ⟨m.msg, List.mem_map_of_mem member, rfl, rfl⟩) (routing_tab there) handles
          have current := quiet.latest _ before m.msg.idx m.link there
            (.inr ⟨m, member, rfl, rfl, own.symm, touches⟩)
          cases step_cases move with
          | handle again =>
            cases waiting.symm.trans again
            rw [same, ← current.1] at carries
            exact handle_last quiet waiting ends carries
      · exact connected ended
  · cases aged.unique i j _ _ (routing_tab there) (routing_tab found) sid
    cases there.symm.trans found
    exact ⟨rfl, connecting⟩

theorem start_quiet : Quiet {} := by
  refine ⟨start_apart.aged, ?_, ?_, ?_, ?_⟩
  · rintro i owner tab (⟨route, ⟨⟩, _⟩ | ⟨msg, ⟨⟩, _⟩)
  · rintro r l ⟨⟩
  · rintro m ⟨⟩
  · rintro j t i link ⟨⟩

theorem step_quiet {a : RoutingAct} (quiet : s.Quiet) (keeps : s.routing.KeepsIndices a)
    (move : s.step maxFrames a = some u) : u.Quiet where
  aged := RoutingState.step_aged quiet.aged (step_routing move)
  routed := RoutingState.step_routed quiet.routed keeps (step_routing move)
  final := step_final quiet move
  sent := step_sent quiet move
  latest := step_latest quiet move

theorem quiet_settled {a : RoutingAct} (quiet : s.Quiet) (move : s.step maxFrames a = some u) :
    s.Settled a := by
  cases step_cases move with
  | reconnect front ended =>
    intro t again link carries
    cases front.symm.trans again
    exact (quiet.latest _ _ _ link front carries).2 ended.2
  | _ => trivial

/-- Where no session is moved onto an index in use, every reconnect comes after the last event of
the connection before, and status and log are those of the new one. -/
theorem kept_indices_isolate
    (run : Run (step maxFrames) (fun s a => s.routing.KeepsIndices a) {} s) :
    Run (step maxFrames) Settled {} s ∧ s.Isolated := by
  have settled : Run (step maxFrames) Settled {} s ∧ s.Quiet := by
    apply run.invariant (I := fun s => Run (step maxFrames) Settled {} s ∧ s.Quiet)
      ⟨.start, start_quiet⟩
    rintro s u a ⟨before, quiet⟩ keeps move
    exact ⟨before.next (quiet_settled quiet move) move, step_quiet quiet keeps move⟩
  exact ⟨settled.1, settled_reconnects_isolate settled.1⟩

end LinkState

end BitBeak
