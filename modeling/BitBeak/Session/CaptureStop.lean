import BitBeak.Lib.Entries
import BitBeak.Session.Capture

/-! Stopping a live capture. A stop that finds room in the packet channel always gets
its join; a stop that finds the channel full may wait for ever. -/
namespace BitBeak
open Wire Runs

/- What holds in every state: a session that can be stopped holds all ends of one
capture, and a channel keeps to its capacity and holds packets its filter accepts. -/

def CaptureSession.Wired (t : CaptureSession) : Prop :=
  t.stopTx = t.join ∧ ∀ c, t.join = some c → t.packetRx = some c

def Capture.Sound (cap : Capture) : Prop :=
  cap.queue.length ≤ channelCapacity ∧
    (∀ pkt ∈ cap.queue, cap.filter.matchesAt pkt = true) ∧
    ∀ pkt, cap.pc = .send pkt → cap.filter.matchesAt pkt = true

namespace Workspace

variable {ws : Workspace SessionSlot}

def Wired (ws : Workspace SessionSlot) : Prop :=
  ∀ t, SessionSlot.capture t ∈ ws.sessions → t.Wired

theorem Wired.of_subset {ws' : Workspace SessionSlot} (wired : ws.Wired)
    (subset : ∀ slot ∈ ws'.sessions, slot ∈ ws.sessions) : ws'.Wired :=
  fun t member => wired t (subset _ member)

theorem Wired.openTab (wired : ws.Wired) {slot : SessionSlot}
    (fresh : ∀ t, slot = .capture t → t.Wired) : (ws.openTab slot).Wired := by
  intro t member
  rw [openTab_sessions, List.mem_append, List.mem_singleton] at member
  cases member with
  | inl old => exact wired t old
  | inr new => exact fresh t new.symm

theorem Wired.update (wired : ws.Wired) {i : Nat} {f : CaptureSession → CaptureSession}
    (here : ∀ t, ws.sessions[i]? = some (.capture t) → (f t).Wired) :
    (ws.update i (·.modify f)).Wired := by
  intro t member
  obtain ⟨j, found⟩ := List.mem_iff_getElem?.mp member
  rcases Entries.modify_cases found with ⟨slot, old, rfl, changed⟩ | ⟨_, old⟩
  · cases slot with
    | other => contradiction
    | capture u =>
      cases changed
      exact here u old
  · exact wired t (List.mem_of_getElem? old)

end Workspace

namespace LiveState

variable {s t : LiveState}

def NotJoining (s : LiveState) : Prop := ∀ i c after, s.ui ≠ .joining i c after

structure Consistent (s : LiveState) : Prop where
  wired : s.ws.Wired
  sound : ∀ cap ∈ s.captures, cap.Sound
  taken : ∀ i c after, s.ui = .joining i c after →
    ∀ t, s.session i = some t → t.join = none ∧ t.stopTx = none

theorem session_eq {i : Nat} {session : CaptureSession} (h : s.session i = some session) :
    s.ws.sessions[i]? = some (.capture session) := by
  unfold LiveState.session at h
  split at h
  · next found => rw [found, Option.some.inj h]
  · contradiction

theorem Consistent.idle (wired : s.ws.Wired) (sound : ∀ cap ∈ s.captures, cap.Sound)
    (away : s.NotJoining) : s.Consistent :=
  ⟨wired, sound, fun i c after here => absurd here (away i c after)⟩

theorem sound_setCapture {c : Nat} {f : Capture → Capture} (sound : ∀ cap ∈ s.captures, cap.Sound)
    (here : ∀ cap, s.captures[c]? = some cap → (f cap).Sound) :
    ∀ cap ∈ (s.setCapture c f).captures, cap.Sound := by
  intro cap member
  obtain ⟨j, found⟩ := List.mem_iff_getElem?.mp member
  rcases Entries.modify_cases found with ⟨old, there, rfl, rfl⟩ | ⟨_, there⟩
  · exact here old there
  · exact sound cap (List.mem_of_getElem? there)

theorem Consistent.goto (held : s.Consistent) {pc : UiPc}
    (away : ∀ i c after, pc ≠ .joining i c after) : (s.goto pc).Consistent :=
  .idle held.wired held.sound away

theorem Consistent.setSession (held : s.Consistent) {i : Nat} {pc : UiPc}
    {f : CaptureSession → CaptureSession} (away : ∀ i c after, pc ≠ .joining i c after)
    (here : ∀ t, s.ws.sessions[i]? = some (.capture t) → (f t).Wired) :
    ((s.setSession i f).goto pc).Consistent :=
  .idle (held.wired.update here) held.sound away

theorem tryRecv_consistent (held : s.Consistent) (here : s.ui = .draining) :
    s.tryRecv.Consistent ∧ s.tryRecv.NotJoining := by
  have waits : (s.goto .select).Consistent ∧ (s.goto .select).NotJoining := by
    refine ⟨held.goto ?_, ?_⟩ <;> rintro _ _ _ ⟨⟩
  unfold tryRecv
  split
  · exact waits
  · next c _ =>
    split
    · exact waits
    · next cap found =>
      split
      · next rest queued =>
        have away : (s.setCapture c (fun cap => { cap with queue := rest })).NotJoining := by
          intro i c after joining
          exact absurd (here.symm.trans joining) (by rintro ⟨⟩)
        refine ⟨.idle held.wired (sound_setCapture held.sound ?_) away, away⟩
        intro old there
        obtain ⟨room, accepted, sending⟩ := held.sound old (List.mem_of_getElem? there)
        have same : old = cap := Option.some.inj (there.symm.trans found)
        subst same
        rw [queued] at room accepted
        refine ⟨Nat.le_of_succ_le room, ?_, sending⟩
        exact fun p member => accepted p (List.mem_cons_of_mem _ member)
      · refine ⟨held.setSession (by rintro _ _ _ ⟨⟩) ?_, by rintro _ _ _ ⟨⟩⟩
        intro t there
        exact held.wired t (List.mem_of_getElem? there)
      · exact waits

theorem setFilter_consistent (held : s.Consistent) (parsed : Option CaptureFilter) :
    (s.setFilter parsed).Consistent ∧ (s.setFilter parsed).NotJoining := by
  have rewired : ∀ f t, s.ws.sessions[s.ws.active]? = some (.capture t) →
      ({ t with captureFilter := f } : CaptureSession).Wired :=
    fun _ t there => held.wired t (List.mem_of_getElem? there)
  unfold setFilter
  split
  · split
    · exact ⟨held.goto (by rintro _ _ _ ⟨⟩), by rintro _ _ _ ⟨⟩⟩
    · split
      · exact ⟨held.setSession (by rintro _ _ _ ⟨⟩) (rewired _), by rintro _ _ _ ⟨⟩⟩
      · exact ⟨held.setSession (by rintro _ _ _ ⟨⟩) (rewired _), by rintro _ _ _ ⟨⟩⟩
  · exact ⟨held.goto (by rintro _ _ _ ⟨⟩), by rintro _ _ _ ⟨⟩⟩

theorem newLive_wired (iface : String) : (CaptureSession.newLive iface).Wired := by
  refine ⟨rfl, ?_⟩
  rintro c ⟨⟩

theorem openFile_wired (path : String) : (CaptureSession.openFile path).Wired := by
  refine ⟨rfl, ?_⟩
  rintro c ⟨⟩

theorem openCapture_wired (held : s.Consistent) {t : CaptureSession} (fresh : t.Wired) :
    (s.ws.openTab (.capture t)).Wired := by
  apply held.wired.openTab
  rintro _ ⟨⟩
  exact fresh

theorem sniff_consistent (held : s.Consistent) (here : s.ui = .select) (iface : String)
    (parsed : Option CaptureFilter) :
    (s.sniff iface parsed).Consistent ∧ (s.sniff iface parsed).NotJoining := by
  have wired : (sniffTab s.ws iface).Wired := by
    unfold sniffTab
    split
    · exact held.wired
    · exact openCapture_wired held (newLive_wired iface)
  have fronted : LiveState.Consistent { s with ws := sniffTab s.ws iface } := by
    refine .idle wired held.sound ?_
    intro i c after joining
    exact absurd (here.symm.trans joining) (by rintro ⟨⟩)
  have filtered := setFilter_consistent fronted parsed
  unfold sniff
  dsimp only
  split
  · exact ⟨filtered.1.goto (by rintro _ _ _ ⟨⟩), by rintro _ _ _ ⟨⟩⟩
  · exact filtered

theorem event_consistent {a : UiAct} (held : s.Consistent) (here : s.ui = .select)
    (move : s.event a = some t) : t.Consistent ∧ t.NotJoining := by
  have opened : ∀ {ws : Workspace SessionSlot} {pc : UiPc}, ws.Wired →
      (∀ i c after, pc ≠ .joining i c after) →
      LiveState.Consistent { s with ws := ws, ui := pc } ∧
        LiveState.NotJoining { s with ws := ws, ui := pc } :=
    fun wired away => ⟨.idle wired held.sound away, away⟩
  have moved : ∀ {pc : UiPc}, (∀ i c after, pc ≠ .joining i c after) →
      (s.goto pc).Consistent ∧ (s.goto pc).NotJoining :=
    fun away => ⟨held.goto away, away⟩
  have kept : ∀ {ws : Workspace SessionSlot}, ws.sessions = s.ws.sessions → ws.Wired :=
    fun same => held.wired.of_subset (fun slot member => same ▸ member)
  cases a with
  | idle => exact Option.some.inj move ▸ moved (by rintro _ _ _ ⟨⟩)
  | nextTab => exact Option.some.inj move ▸ opened (kept (by simp)) (by rintro _ _ _ ⟨⟩)
  | prevTab => exact Option.some.inj move ▸ opened (kept (by simp)) (by rintro _ _ _ ⟨⟩)
  | selectTab idx => exact Option.some.inj move ▸ opened (kept (by simp)) (by rintro _ _ _ ⟨⟩)
  | openOther =>
    exact Option.some.inj move ▸ opened (held.wired.openTab (by rintro _ ⟨⟩)) (by rintro _ _ _ ⟨⟩)
  | openCapture iface =>
    exact Option.some.inj move ▸
      opened (openCapture_wired held (newLive_wired iface)) (by rintro _ _ _ ⟨⟩)
  | openCaptureFile path =>
    exact Option.some.inj move ▸
      opened (openCapture_wired held (openFile_wired path)) (by rintro _ _ _ ⟨⟩)
  | rpcap target =>
    exact Option.some.inj move ▸
      opened (openCapture_wired held (newLive_wired target)) (by rintro _ _ _ ⟨⟩)
  | toggle =>
    simp only [event] at move
    split at move
    · exact Option.some.inj move ▸ moved (by rintro _ _ _ ⟨⟩)
    · split at move <;> exact Option.some.inj move ▸ moved (by rintro _ _ _ ⟨⟩)
  | setFilter parsed => exact Option.some.inj move ▸ setFilter_consistent held parsed
  | sniff iface parsed => exact Option.some.inj move ▸ sniff_consistent held here iface parsed
  | injectSelected frame =>
    simp only [event] at move
    split at move
    · exact Option.some.inj move ▸ moved (by rintro _ _ _ ⟨⟩)
    · cases move
      refine ⟨.idle held.wired (sound_setCapture held.sound ?_) ?_, ?_⟩
      · exact fun cap there => held.sound cap (List.mem_of_getElem? there)
      · rintro _ _ _ ⟨⟩
      · rintro _ _ _ ⟨⟩
  | close =>
    simp only [event] at move
    split at move
    · exact Option.some.inj move ▸ moved (by rintro _ _ _ ⟨⟩)
    · refine Option.some.inj move ▸ opened (held.wired.of_subset ?_) (by rintro _ _ _ ⟨⟩)
      intro slot member
      rw [Workspace.removeActive_sessions] at member
      exact List.mem_of_mem_eraseIdx member
  | quit => exact Option.some.inj move ▸ moved (by rintro _ _ _ ⟨⟩)
  | drain | tryRecv | sendStop | joined | start _ | dropNext => contradiction

theorem startCapture_consistent (held : s.Consistent) (i : Nat) (opens : Bool) :
    ((s.startCapture i opens).goto .top).Consistent := by
  unfold startCapture
  split
  · exact held.goto (by rintro _ _ _ ⟨⟩)
  · split
    · exact held.goto (by rintro _ _ _ ⟨⟩)
    · next session _ _ =>
      refine .idle (held.wired.update ?_) ?_ (by rintro _ _ _ ⟨⟩)
      · intro t there
        exact ⟨rfl, fun c same => same⟩
      · intro cap member
        simp only [goto, setSession, List.mem_append, List.mem_singleton] at member
        rcases member with old | rfl
        · exact held.sound cap old
        · refine ⟨Nat.zero_le _, ?_, ?_⟩
          · rintro pkt ⟨⟩
          · rintro pkt ⟨⟩

/-- `stop_capture` returns only for a session whose join handle is gone. -/
theorem stopReturns_consistent (held : s.Consistent) {i : Nat}
    (taken : ∀ t, s.session i = some t → t.join = none ∧ t.stopTx = none) (after : AfterStop) :
    (s.stopReturns i after).Consistent ∧ (s.stopReturns i after).NotJoining := by
  have wired : (s.setSession i .stopped).ws.Wired := by
    apply held.wired.update
    intro t there
    have ends : t.join = none ∧ t.stopTx = none := by
      apply taken
      simp only [session, there]
    refine ⟨?_, ?_⟩
    · simp only [CaptureSession.stopped, ends]
    · intro c joined
      simp only [CaptureSession.stopped, ends] at joined
      contradiction
  have sound : ∀ cap ∈ (s.setSession i .stopped).captures, cap.Sound := held.sound
  cases after with
  | nothing => exact ⟨.idle wired sound (by rintro _ _ _ ⟨⟩), by rintro _ _ _ ⟨⟩⟩
  | restart => exact ⟨.idle wired sound (by rintro _ _ _ ⟨⟩), by rintro _ _ _ ⟨⟩⟩
  | remove =>
    refine ⟨.idle (wired.of_subset ?_) sound (by rintro _ _ _ ⟨⟩), by rintro _ _ _ ⟨⟩⟩
    intro slot member
    simp only [stopReturns, Workspace.removeActive_sessions] at member
    exact List.mem_of_mem_eraseIdx member
  | dropNext =>
    refine ⟨.idle (wired.of_subset ?_) sound (by rintro _ _ _ ⟨⟩), by rintro _ _ _ ⟨⟩⟩
    intro slot member
    exact List.mem_of_mem_eraseIdx member

theorem session_setSession (i : Nat) (f : CaptureSession → CaptureSession) :
    (s.setSession i f).session i = (s.session i).map f := by
  simp only [session, setSession, Workspace.update_sessions, List.getElem?_modify_eq]
  cases s.ws.sessions[i]? with
  | none => rfl
  | some slot => cases slot <;> rfl

theorem setSession_twice (i : Nat) (f g : CaptureSession → CaptureSession) :
    (s.setSession i f).setSession i g = s.setSession i (fun t => g (f t)) := by
  have fused : (fun slot => SessionSlot.modify g (SessionSlot.modify f slot))
      = SessionSlot.modify (fun t => g (f t)) := by
    funext slot
    cases slot <;> rfl
  simp only [setSession, Workspace.update, List.modify_modify_eq, Function.comp_def, fused]

/-- The state in which `stop_capture` of the session at `i` waits for capture `c`. -/
def waitFor (s : LiveState) (i c : Nat) (after : AfterStop) : LiveState :=
  ((s.setCapture c (fun cap => { cap with stopSent := true })).setSession i
    (fun t => { t with stopTx := none, join := none })).goto (.joining i c after)

/-- What the send of `stop_capture` leads to. -/
theorem sendStop_cases {i : Nat} {after : AfterStop} (held : s.Consistent)
    (here : s.ui = .stopping i after) (move : s.uiStep .sendStop = some t) :
    ∃ session, s.session i = some session ∧
      ((session.join = none ∧ session.stopTx = none ∧ t = s.stopReturns i after) ∨
        ∃ c, session.join = some c ∧ t = s.waitFor i c after) := by
  simp only [uiStep, here] at move
  split at move
  · contradiction
  · next session found =>
    have wired := held.wired session (List.mem_of_getElem? (session_eq found))
    refine ⟨session, found, ?_⟩
    simp only [LiveState.sendStop, wired.1] at move
    split at move
    · next c joined =>
      simp only at move
      refine .inr ⟨c, joined, ?_⟩
      rw [← Option.some.inj move, waitFor, setSession_twice]
    · next joined =>
      simp only at move
      exact .inl ⟨joined, wired.1.trans joined, (Option.some.inj move).symm⟩

theorem waitFor_consistent (held : s.Consistent) (i c : Nat) (after : AfterStop) :
    (s.waitFor i c after).Consistent := by
  refine ⟨?_, ?_, ?_⟩
  · apply held.wired.update
    intro t there
    refine ⟨rfl, ?_⟩
    rintro c ⟨⟩
  · apply sound_setCapture held.sound
    intro cap there
    exact held.sound cap (List.mem_of_getElem? there)
  · rintro i' c' after' ⟨⟩ t found
    rw [waitFor] at found
    change (LiveState.setSession _ i _).session i = some t at found
    rw [session_setSession] at found
    obtain ⟨old, _, changed⟩ := Option.map_eq_some_iff.mp found
    cases changed
    exact ⟨rfl, rfl⟩

/-- Every step of the interface but the wait itself ends outside the join. -/
theorem uiStep_consistent {a : UiAct} (held : s.Consistent) (move : s.uiStep a = some t) :
    t.Consistent ∧ (t.NotJoining ∨ ∃ i c after session, a = .sendStop ∧ s.ui = .stopping i after ∧
      s.session i = some session ∧ session.join = some c ∧ t = s.waitFor i c after) := by
  cases pc : s.ui with
  | top =>
    cases a <;> simp only [uiStep, pc] at move <;> try contradiction
    cases move
    exact ⟨held.goto (by rintro _ _ _ ⟨⟩), .inl (by rintro _ _ _ ⟨⟩)⟩
  | draining =>
    cases a <;> simp only [uiStep, pc] at move <;> try contradiction
    cases move
    exact (tryRecv_consistent held pc).imp_right .inl
  | select =>
    have evented : s.event a = some t := by
      simpa only [uiStep, pc] using move
    exact (event_consistent held pc evented).imp_right .inl
  | starting i =>
    cases a <;> simp only [uiStep, pc] at move <;> try contradiction
    cases move
    exact ⟨startCapture_consistent held i _, .inl (by rintro _ _ _ ⟨⟩)⟩
  | stopping i after =>
    cases a <;> try (simp only [uiStep, pc] at move; contradiction)
    obtain ⟨session, found, ⟨joined, sent, rfl⟩ | ⟨c, joined, rfl⟩⟩ := sendStop_cases held pc move
    · have taken : ∀ t, s.session i = some t → t.join = none ∧ t.stopTx = none := by
        intro t there
        cases found.symm.trans there
        exact ⟨joined, sent⟩
      exact (stopReturns_consistent held taken after).imp_right .inl
    · exact ⟨waitFor_consistent held i c after,
        .inr ⟨i, c, after, session, rfl, rfl, found, joined, rfl⟩⟩
  | joining i c after =>
    cases a <;> simp only [uiStep, pc] at move <;> try contradiction
    split at move
    · split at move
      · cases move
        exact (stopReturns_consistent held (held.taken i c after pc) after).imp_right .inl
      · contradiction
    · contradiction
  | quitting =>
    cases a <;> simp only [uiStep, pc] at move <;> try contradiction
    split at move
    · contradiction
    · next rest sessions =>
      cases move
      have dropped : (⟨rest, s.ws.active⟩ : Workspace SessionSlot).Wired := by
        apply held.wired.of_subset
        intro slot member
        rw [sessions]
        exact List.mem_cons_of_mem _ member
      exact ⟨.idle dropped held.sound (by rintro _ _ _ ⟨⟩), .inl (by rintro _ _ _ ⟨⟩)⟩
    · cases move
      exact ⟨held.goto (by rintro _ _ _ ⟨⟩), .inl (by rintro _ _ _ ⟨⟩)⟩

end LiveState

/- One turn of the capture thread. -/

namespace Capture

variable {cap next : Capture} {rxHeld : Bool} {a : LoopAct}

/-- The thread has room for the one packet it may still send, or needs none. -/
def EndsSoon (cap : Capture) : Prop :=
  cap.queue.length < channelCapacity ∨ cap.pc = .poll ∨ cap.pc = .done

theorem loopStep_sound (sound : cap.Sound) (move : cap.loopStep rxHeld a = some next) :
    next.Sound := by
  obtain ⟨room, accepted, sending⟩ := sound
  unfold loopStep at move
  split at move
  · cases move
    refine ⟨room, accepted, ?_⟩
    dsimp only
    split <;> rintro pkt ⟨⟩
  · split at move
    · cases move
      exact ⟨room, accepted, sending⟩
    · cases move
      exact ⟨room, accepted, by rintro pkt ⟨⟩⟩
  · cases move
    exact ⟨room, accepted, by rintro pkt ⟨⟩⟩
  · next pkt _ _ =>
    rw [CaptureFilter.matchesRaw_ok] at move
    split at move
    · next verdict =>
      cases move
      refine ⟨room, accepted, ?_⟩
      rintro _ ⟨⟩
      exact Except.ok.inj verdict
    · cases move
      exact ⟨room, accepted, by rintro pkt ⟨⟩⟩
    · contradiction
  · next pkt here =>
    split at move
    · cases move
      exact ⟨room, accepted, by rintro pkt ⟨⟩⟩
    · split at move
      · next free =>
        cases move
        refine ⟨?_, ?_, by rintro pkt ⟨⟩⟩
        · rw [List.length_append]
          exact free
        · intro p member
          rcases List.mem_append.mp member with old | new
          · exact accepted p old
          · rw [List.mem_singleton.mp new]
            exact sending pkt here
      · contradiction
  · contradiction

/-- A thread told to stop that ends soon still does after its next step. -/
theorem loopStep_endsSoon (told : cap.stopSent = true) (soon : cap.EndsSoon)
    (move : cap.loopStep rxHeld a = some next) : next.stopSent = true ∧ next.EndsSoon := by
  unfold loopStep at move
  split at move
  · cases move
    refine ⟨told, .inr (.inr ?_)⟩
    rw [if_pos told]
  · next here =>
    have room : cap.queue.length < channelCapacity := by
      simpa only [EndsSoon, here, reduceCtorEq, or_false] using soon
    split at move <;> cases move <;> exact ⟨told, .inl room⟩
  · cases move
    exact ⟨told, .inr (.inl rfl)⟩
  · next here =>
    have room : cap.queue.length < channelCapacity := by
      simpa only [EndsSoon, here, reduceCtorEq, or_false] using soon
    split at move <;> cases move <;> exact ⟨told, .inl room⟩
  · split at move
    · cases move
      exact ⟨told, .inr (.inr rfl)⟩
    · split at move
      · cases move
        exact ⟨told, .inr (.inl rfl)⟩
      · contradiction
  · contradiction

end Capture

namespace LiveState

variable {s t : LiveState} {a : LiveAct}

/-- The capture the interface waits for has been told to stop and will end. -/
def Winding (s : LiveState) : Prop :=
  ∀ i c after cap, s.ui = .joining i c after → s.captures[c]? = some cap →
    cap.stopSent = true ∧ cap.EndsSoon

/-- The stop is sent while the packet channel has room, or to a thread that is about to
look for it. -/
def StopsInTime (s : LiveState) : LiveAct → Prop
  | .ui .sendStop => ∀ i after session c cap, s.ui = .stopping i after →
      s.session i = some session → session.join = some c → s.captures[c]? = some cap →
      cap.EndsSoon
  | _ => True

theorem initial_consistent (initial : s.Initial) : s.Consistent := by
  obtain ⟨atTop, none, idle⟩ := initial
  refine .idle ?_ ?_ ?_
  · intro t member
    obtain ⟨_, sent, joined⟩ := idle t member
    refine ⟨sent.trans joined.symm, ?_⟩
    intro c there
    exact absurd (joined.symm.trans there) (by rintro ⟨⟩)
  · rw [none]
    rintro cap ⟨⟩
  · intro i c after joining
    exact absurd (atTop.symm.trans joining) (by rintro ⟨⟩)

/-- A step of a thread is a turn of its loop. -/
theorem thread_cases {c : Nat} {a : LoopAct} (move : s.step (.thread c a) = some t) :
    ∃ cap next, s.captures[c]? = some cap ∧ cap.loopStep (s.rxHeld c) a = some next ∧
      t = s.setCapture c (fun _ => next) := by
  simp only [step] at move
  split at move
  · contradiction
  · next cap found =>
    obtain ⟨next, turned, rfl⟩ := Option.map_eq_some_iff.mp move
    exact ⟨cap, next, found, turned, rfl⟩

theorem step_consistent (held : s.Consistent) (move : s.step a = some t) : t.Consistent := by
  cases a with
  | ui a => exact (uiStep_consistent held move).1
  | thread c a =>
    obtain ⟨cap, next, found, turned, rfl⟩ := thread_cases move
    have sound := Capture.loopStep_sound (held.sound cap (List.mem_of_getElem? found)) turned
    exact ⟨held.wired, sound_setCapture held.sound (fun _ _ => sound), held.taken⟩

theorem step_winding (held : s.Consistent) (winding : s.Winding) (inTime : s.StopsInTime a)
    (move : s.step a = some t) : t.Winding := by
  cases a with
  | ui a =>
    obtain ⟨_, away | ⟨i, c, after, session, rfl, here, found, joined, rfl⟩⟩ :=
      uiStep_consistent held move
    · intro i c after _ joining
      exact absurd joining (away i c after)
    · rintro i' c' after' cap ⟨⟩ there
      simp only [waitFor, goto, setSession, setCapture, List.getElem?_modify_eq] at there
      obtain ⟨old, before, rfl⟩ := Option.map_eq_some_iff.mp there
      exact ⟨rfl, inTime i after session c old here found joined before⟩
  | thread c a =>
    obtain ⟨cap, next, found, turned, rfl⟩ := thread_cases move
    intro i c' after cap' joining there
    rcases Entries.modify_cases there with ⟨old, before, rfl, rfl⟩ | ⟨_, before⟩
    · cases found.symm.trans before
      obtain ⟨told, soon⟩ := winding i c after cap joining found
      exact Capture.loopStep_endsSoon told soon turned
    · exact winding i c' after cap' joining before

/- Where a stop comes late, the deadlock can follow: the channel is full, and the packet
at its head is one the thread may read again. -/

theorem step_thread {c : Nat} {cap next : Capture} {a : LoopAct} (found : s.captures[c]? = some cap)
    (turned : cap.loopStep (s.rxHeld c) a = some next) :
    s.step (.thread c a) = some (s.setCapture c (fun _ => next)) := by
  simp only [step, found, turned, Option.map_some]

/-- A joined thread in front of a full channel, with a packet it accepts. -/
structure Stuck (s : LiveState) (i c : Nat) (after : AfterStop) (cap : Capture) (pkt : Bytes) :
    Prop where
  joining : s.ui = .joining i c after
  found : s.captures[c]? = some cap
  held : s.rxHeld c = true
  full : cap.queue.length = channelCapacity
  accepted : cap.filter.matchesAt pkt = true

theorem Stuck.next {i c : Nat} {after : AfterStop} {cap : Capture} {pkt : Bytes}
    (stuck : s.Stuck i c after cap pkt) (next : Capture) (queue : next.queue = cap.queue)
    (filter : next.filter = cap.filter) :
    (s.setCapture c (fun _ => next)).Stuck i c after next pkt := by
  refine ⟨stuck.joining, ?_, stuck.held, queue ▸ stuck.full, filter ▸ stuck.accepted⟩
  simp only [setCapture, List.getElem?_modify_eq, stuck.found]
  rfl

theorem Stuck.at_send {i c : Nat} {after : AfterStop} {cap : Capture} {pkt p : Bytes}
    (stuck : s.Stuck i c after cap pkt) (sending : cap.pc = .send p) : s.Deadlocked :=
  ⟨i, c, after, cap, p, stuck.joining, stuck.found, sending, stuck.full, stuck.held⟩

theorem Stuck.at_next {i c : Nat} {after : AfterStop} {cap : Capture} {pkt : Bytes}
    (stuck : s.Stuck i c after cap pkt) (reading : cap.pc = .next) :
    ∃ t, Reachable step s t ∧ t.Deadlocked := by
  have move : s.step (.thread c (.read (some pkt)))
      = some (s.setCapture c (fun _ => { cap with pc := .send pkt })) := by
    apply step_thread stuck.found
    simp only [Capture.loopStep, reading, CaptureFilter.matchesRaw_ok, stuck.accepted]
  have blocked := stuck.next { cap with pc := .send pkt } rfl rfl
  exact ⟨_, .next (.refl s) move, blocked.at_send rfl⟩

theorem Stuck.at_inject {i c : Nat} {after : AfterStop} {cap : Capture} {pkt : Bytes}
    (stuck : s.Stuck i c after cap pkt) (injecting : cap.pc = .inject) :
    ∃ t, Reachable step s t ∧ t.Deadlocked := by
  obtain ⟨frames, left⟩ : ∃ frames, cap.injected = frames := ⟨_, rfl⟩
  induction frames generalizing s cap with
  | nil =>
    have move : s.step (.thread c .inject)
        = some (s.setCapture c (fun _ => { cap with pc := .next })) := by
      apply step_thread stuck.found
      simp only [Capture.loopStep, injecting, left]
    have reading := stuck.next { cap with pc := .next } rfl rfl
    obtain ⟨t, reached, dead⟩ := reading.at_next rfl
    exact ⟨t, .trans (.next (.refl s) move) reached, dead⟩
  | cons frame rest ih =>
    have move : s.step (.thread c .inject)
        = some (s.setCapture c (fun _ => { cap with injected := rest })) := by
      apply step_thread stuck.found
      simp only [Capture.loopStep, injecting, left]
    have again := stuck.next { cap with injected := rest } rfl rfl
    obtain ⟨t, reached, dead⟩ := ih again injecting rfl
    exact ⟨t, .trans (.next (.refl s) move) reached, dead⟩

theorem Stuck.deadlocks {i c : Nat} {after : AfterStop} {cap : Capture} {pkt : Bytes}
    (stuck : s.Stuck i c after cap pkt) (late : ¬ cap.EndsSoon) :
    ∃ t, Reachable step s t ∧ t.Deadlocked := by
  cases pc : cap.pc with
  | poll => exact absurd (.inr (.inl pc)) late
  | inject => exact stuck.at_inject pc
  | next => exact stuck.at_next pc
  | send p => exact ⟨s, .refl s, stuck.at_send pc⟩
  | done => exact absurd (.inr (.inr pc)) late

theorem rxHeld_waitFor {i c : Nat} {after : AfterStop} {session : CaptureSession}
    (found : s.session i = some session) (holds : session.packetRx = some c) :
    (s.waitFor i c after).rxHeld c = true := by
  simp only [rxHeld, List.any_eq_true]
  refine ⟨.capture { session with stopTx := none, join := none }, ?_, ?_⟩
  · apply List.mem_of_getElem? (i := i)
    simp only [waitFor, goto, setSession, setCapture, Workspace.update_sessions,
      List.getElem?_modify_eq, session_eq found]
    rfl
  · simp only [SessionSlot.holds, holds, BEq.rfl]

/-- A stop that comes late, in whatever state a run reaches, can be followed by the
deadlock. -/
theorem late_stop_can_deadlock (initial : s.Initial) (run : Reachable step s t)
    (late : ¬ t.StopsInTime a) : ∃ u, Reachable step t u ∧ u.Deadlocked := by
  have held : t.Consistent :=
    run.invariant (initial_consistent initial) (fun _ _ _ held move => step_consistent held move)
  cases a with
  | thread c a => exact absurd trivial late
  | ui a =>
    cases a <;> try exact absurd trivial late
    simp only [StopsInTime, not_forall] at late
    obtain ⟨i, after, session, c, cap, here, found, joined, there, late⟩ := late
    have wired := held.wired session (List.mem_of_getElem? (session_eq found))
    have move : t.step (.ui .sendStop) = some (t.waitFor i c after) := by
      simp only [step, uiStep, here, found, LiveState.sendStop, wired.1, joined, waitFor,
        setSession_twice]
    obtain ⟨room, accepted, _⟩ := held.sound cap (List.mem_of_getElem? there)
    have full : cap.queue.length = channelCapacity :=
      Nat.le_antisymm room (Nat.le_of_not_lt (fun free => late (.inl free)))
    obtain ⟨pkt, queued⟩ : ∃ pkt, pkt ∈ cap.queue := by
      apply List.exists_mem_of_length_pos
      rw [full]
      decide
    have stuck : (t.waitFor i c after).Stuck i c after { cap with stopSent := true } pkt := by
      refine ⟨rfl, ?_, rxHeld_waitFor found (wired.2 c joined), full, accepted pkt queued⟩
      simp only [waitFor, goto, setSession, setCapture, List.getElem?_modify_eq, there]
      rfl
    obtain ⟨u, reached, dead⟩ := stuck.deadlocks late
    exact ⟨u, .trans (.next (.refl t) move) reached, dead⟩

/- A live tab left capturing while the interface waits for a key. -/

def oneTab : LiveState :=
  { ws := { sessions := [.capture (.newLive "eth0")] } }

/-- Capture 0 runs behind the tab, `n` packets wait in its channel. -/
def sniffing (pc : LoopPc) (n : Nat) : LiveState :=
  { ws := { sessions := [.capture (CaptureSession.started 0 (.newLive "eth0"))] }
    captures := [{ filter := .true, pc := pc, queue := List.replicate n [] }]
    ui := .select }

theorem oneTab_initial : oneTab.Initial := by
  refine ⟨rfl, rfl, ?_⟩
  intro t member
  cases List.mem_singleton.mp member
  exact ⟨rfl, rfl, rfl⟩

theorem sniffing_reads (n : Nat) : Reachable step (sniffing .poll n) (sniffing (.send []) n) :=
  reachable_of_play [.thread 0 .poll, .thread 0 .inject, .thread 0 (.read (some []))] rfl

theorem sniffing_sends {n : Nat} (free : n < channelCapacity) :
    (sniffing (.send []) n).step (.thread 0 .send) = some (sniffing .poll (n + 1)) := by
  have held : (sniffing (.send []) n).rxHeld 0 = true := rfl
  have queued : List.replicate n ([] : Bytes) ++ [[]] = List.replicate (n + 1) [] :=
    List.replicate_succ'.symm
  apply step_thread (rfl : _ = some
    ({ filter := .true, pc := .send [], queue := List.replicate n [] } : Capture))
  simp only [Capture.loopStep, held, List.length_replicate, free, queued, Bool.not_true,
    Bool.false_eq_true, if_false, if_true]

theorem reach_sniffing {n : Nat} (room : n ≤ channelCapacity) :
    Reachable step oneTab (sniffing .poll n) := by
  induction n with
  | zero =>
    exact reachable_of_play [.ui .drain, .ui .tryRecv, .ui .toggle, .ui (.start true),
      .ui .drain, .ui .tryRecv] rfl
  | succ n ih =>
    have reading := Reachable.trans (ih (Nat.le_of_succ_le room)) (sniffing_reads n)
    exact reading.next (sniffing_sends room)

/-- In a run whose stops all come in time the interface never waits for a capture thread
that waits for the interface. -/
theorem stops_in_time_never_deadlock (initial : s.Initial) (run : Run step StopsInTime s t) :
    ¬ t.Deadlocked := by
  have held : t.Consistent ∧ t.Winding := by
    apply run.invariant
    · refine ⟨initial_consistent initial, ?_⟩
      intro i c after _ joining
      exact absurd (initial.1.symm.trans joining) (by rintro ⟨⟩)
    · rintro u v a ⟨held, winding⟩ inTime move
      exact ⟨step_consistent held move, step_winding held winding inTime move⟩
  rintro ⟨i, c, after, cap, pkt, joining, found, sending, full, _⟩
  obtain ⟨_, soon⟩ := held.2 i c after cap joining found
  rcases soon with room | polls | done
  · omega
  · exact absurd (sending.symm.trans polls) (by rintro ⟨⟩)
  · exact absurd (sending.symm.trans done) (by rintro ⟨⟩)

/-- A stop right after the start. -/
theorem stop_after_start_joins : ¬ ((sniffing .poll 0).waitFor 0 0 .nothing).Deadlocked := by
  apply stops_in_time_never_deadlock oneTab_initial
  have prepared : Run step StopsInTime oneTab ((sniffing .poll 0).goto (.stopping 0 .nothing)) := by
    refine run_of_play [.ui .drain, .ui .tryRecv, .ui .toggle, .ui (.start true),
      .ui .drain, .ui .tryRecv, .ui .toggle] ?_ rfl
    intro s a member
    simp only [List.mem_cons, List.not_mem_nil, or_false] at member
    rcases member with rfl | rfl | rfl | rfl | rfl | rfl | rfl <;> exact trivial
  refine prepared.next (a := .ui .sendStop) ?_ rfl
  rintro i after session c cap ⟨⟩ ⟨⟩ ⟨⟩ ⟨⟩
  exact .inr (.inl rfl)

/-- F6 on a tab whose channel filled up while the interface waited in `select!`. -/
theorem full_channel_stop_deadlocks :
    ¬ ∀ s t : LiveState, s.Initial → Reachable step s t → ¬ t.Deadlocked := by
  intro never
  have reached : Reachable step oneTab
      ((sniffing (.send []) channelCapacity).waitFor 0 0 .nothing) := by
    apply Reachable.trans ((reach_sniffing (Nat.le_refl _)).trans (sniffing_reads _))
    exact reachable_of_play [.ui .toggle, .ui .sendStop] rfl
  apply never _ _ oneTab_initial reached
  exact ⟨0, 0, .nothing, _, [], rfl, rfl, rfl, List.length_replicate, rfl⟩

end LiveState

end BitBeak
