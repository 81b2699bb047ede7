import BitBeak.Capture.CapFilter
import BitBeak.Lib.Runs
import BitBeak.Workspace

/-! Live capture: the user interface thread, the capture threads it starts, and the
bounded packet channels between them. -/
namespace BitBeak
open Wire Runs

/-- Room in the channel `start_capture` makes. -/
def channelCapacity : Nat := 4096

/-- Where `capture_loop` stands in its turn. -/
inductive LoopPc where
  | poll
  | inject
  | next
  | send (pkt : Bytes)
  | done
  deriving DecidableEq

/-- One started capture: its filter, its thread and what its three channels hold. -/
structure Capture where
  filter : CaptureFilter
  pc : LoopPc := .poll
  queue : List Bytes := []
  stopSent : Bool := false
  injected : List Bytes := []
  deriving DecidableEq

inductive CaptureSource where
  | live
  | file
  deriving DecidableEq

/-- The channel ends and the join handle name the capture they belong to. -/
structure CaptureSession where
  titleIface : String
  source : CaptureSource := .live
  captureFilter : CaptureFilter := .true
  capturing : Bool := false
  packetRx : Option Nat := none
  stopTx : Option Nat := none
  injectTx : Option Nat := none
  join : Option Nat := none
  deriving DecidableEq

inductive SessionSlot where
  | capture (session : CaptureSession)
  | other
  deriving DecidableEq

/-- What the user interface does once `stop_capture` returns. -/
inductive AfterStop where
  | nothing
  | restart
  | remove
  | dropNext
  deriving DecidableEq

/-- Where the user interface stands: at the head of `event_loop`, in `drain_packets`,
waiting in `select!`, before and in the join of `stop_capture`, in `start_capture`, or
dropping the sessions after the loop. -/
inductive UiPc where
  | top
  | draining
  | select
  | stopping (i : Nat) (after : AfterStop)
  | joining (i c : Nat) (after : AfterStop)
  | starting (i : Nat)
  | quitting
  deriving DecidableEq

structure LiveState where
  ws : Workspace SessionSlot
  captures : List Capture := []
  ui : UiPc := .top

inductive UiAct where
  | drain
  | tryRecv
  | idle
  | nextTab
  | prevTab
  | selectTab (idx : Nat)
  | openOther
  | openCapture (iface : String)
  | openCaptureFile (path : String)
  | rpcap (target : String)
  | toggle
  | setFilter (parsed : Option CaptureFilter)
  | sniff (iface : String) (parsed : Option CaptureFilter)
  | injectSelected (frame : Bytes)
  | close
  | quit
  | sendStop
  | joined
  | start (opens : Bool)
  | dropNext

inductive LoopAct where
  | poll
  | inject
  | read (pkt : Option Bytes)
  | send

inductive LiveAct where
  | ui (a : UiAct)
  | thread (c : Nat) (a : LoopAct)

namespace SessionSlot

def holds (c : Nat) : SessionSlot → Bool
  | .capture session => session.packetRx == some c
  | .other => false

def modify (f : CaptureSession → CaptureSession) : SessionSlot → SessionSlot
  | .capture session => .capture (f session)
  | .other => .other

def sniffs (iface : String) : SessionSlot → Bool
  | .capture session => session.source == .live && session.titleIface == iface
  | .other => false

end SessionSlot

namespace CaptureSession

def newLive (iface : String) : CaptureSession := { titleIface := iface }

def openFile (path : String) : CaptureSession := { titleIface := path, source := .file }

/-- `stop_capture` behind the join. -/
def stopped (session : CaptureSession) : CaptureSession :=
  { session with packetRx := none, injectTx := none, capturing := false }

/-- `start_capture` behind the spawn of capture `c`. -/
def started (c : Nat) (session : CaptureSession) : CaptureSession :=
  { session with
    packetRx := some c, stopTx := some c, injectTx := some c, join := some c, capturing := true }

end CaptureSession

def sniffTab (ws : Workspace SessionSlot) (iface : String) : Workspace SessionSlot :=
  match ws.sessions.findIdx? (·.sniffs iface) with
  | some idx => { ws with active := idx }
  | none => ws.openTab (.capture (.newLive iface))

namespace LiveState

/-- The receiver of capture `c` is still held. -/
def rxHeld (s : LiveState) (c : Nat) : Bool := s.ws.sessions.any (·.holds c)

def session (s : LiveState) (i : Nat) : Option CaptureSession :=
  match s.ws.sessions[i]? with
  | some (.capture session) => some session
  | _ => none

def activeCapture (s : LiveState) : Option CaptureSession := s.session s.ws.active

def setSession (s : LiveState) (i : Nat) (f : CaptureSession → CaptureSession) : LiveState :=
  { s with ws := s.ws.update i (·.modify f) }

def setCapture (s : LiveState) (c : Nat) (f : Capture → Capture) : LiveState :=
  { s with captures := s.captures.modify c f }

def goto (s : LiveState) (pc : UiPc) : LiveState := { s with ui := pc }

/-- One turn of the loop in `drain_packets`. -/
def tryRecv (s : LiveState) : LiveState :=
  match s.activeCapture.bind (·.packetRx) with
  | none => s.goto .select
  | some c =>
    match s.captures[c]? with
    | none => s.goto .select
    | some cap =>
      match cap.queue, cap.pc with
      | _ :: rest, _ => s.setCapture c (fun cap => { cap with queue := rest })
      | [], .done => (s.setSession s.ws.active (fun t => { t with capturing := false })).goto .select
      | [], _ => s.goto .select

/-- `set_capture_filter` on the session in front; `None` is a text that does not parse. -/
def setFilter (s : LiveState) (parsed : Option CaptureFilter) : LiveState :=
  match s.activeCapture, parsed with
  | some session, some f =>
    if session.source = .file then s.goto .top
    else
      let s := s.setSession s.ws.active (fun t => { t with captureFilter := f })
      if session.capturing then s.goto (.stopping s.ws.active .restart) else s.goto .top
  | _, _ => s.goto .top

/-- `sniff_from_http`: a live session on the same interface comes to the front, or a new
one is opened; its filter is set, and it is started unless it is already capturing. -/
def sniff (s : LiveState) (iface : String) (parsed : Option CaptureFilter) : LiveState :=
  let s := { s with ws := sniffTab s.ws iface }.setFilter parsed
  if s.ui = .top ∧ parsed.isSome then s.goto (.starting s.ws.active) else s

/-- `start_capture`; `opens` says whether the interface can be opened. -/
def startCapture (s : LiveState) (i : Nat) (opens : Bool) : LiveState :=
  match s.session i with
  | none => s
  | some session =>
    if session.source ≠ .live ∨ session.capturing ∨ !opens then s
    else
      { s.setSession i (.started s.captures.length) with
        captures := s.captures ++ [{ filter := session.captureFilter }] }

/-- The send of `stop_capture`. -/
def sendStop (s : LiveState) (i : Nat) (session : CaptureSession) : LiveState :=
  match session.stopTx with
  | some c => (s.setCapture c (fun cap => { cap with stopSent := true })).setSession i
      (fun t => { t with stopTx := none })
  | none => s

/-- `stop_capture` returns to what called it. -/
def stopReturns (s : LiveState) (i : Nat) (after : AfterStop) : LiveState :=
  let s := s.setSession i .stopped
  match after with
  | .nothing => s.goto .top
  | .restart => s.goto (.starting i)
  | .remove => { s with ws := s.ws.removeActive, ui := .top }
  | .dropNext => { s with ws := { s.ws with sessions := s.ws.sessions.eraseIdx i }, ui := .quitting }

/-- What the user can do while the interface waits in `select!`. -/
def event (s : LiveState) : UiAct → Option LiveState
  | .idle => some (s.goto .top)
  | .nextTab => some { s with ws := s.ws.nextTab, ui := .top }
  | .prevTab => some { s with ws := s.ws.prevTab, ui := .top }
  | .selectTab idx => some { s with ws := s.ws.selectTab idx, ui := .top }
  | .openOther => some { s with ws := s.ws.openTab .other, ui := .top }
  | .openCapture iface =>
    some { s with ws := s.ws.openTab (.capture (.newLive iface)), ui := .top }
  | .openCaptureFile path =>
    some { s with ws := s.ws.openTab (.capture (.openFile path)), ui := .top }
  | .rpcap target =>
    some { s with
      ws := s.ws.openTab (.capture (.newLive target)), ui := .starting s.ws.sessions.length }
  | .toggle =>
    match s.activeCapture with
    | none => some (s.goto .top)
    | some session =>
      if session.capturing then some (s.goto (.stopping s.ws.active .nothing))
      else some (s.goto (.starting s.ws.active))
  | .setFilter parsed => some (s.setFilter parsed)
  | .sniff iface parsed => some (s.sniff iface parsed)
  | .injectSelected frame =>
    match s.activeCapture.bind (·.injectTx) with
    | none => some (s.goto .top)
    | some c =>
      some ((s.setCapture c (fun cap => { cap with injected := cap.injected ++ [frame] })).goto .top)
  | .close =>
    match s.activeCapture with
    | some _ => some (s.goto (.stopping s.ws.active .remove))
    | none => some { s with ws := s.ws.removeActive, ui := .top }
  | .quit => some (s.goto .quitting)
  | _ => none

/-- Steps of the user interface thread. -/
def uiStep (s : LiveState) (a : UiAct) : Option LiveState :=
  match s.ui, a with
  | .top, .drain => some (s.goto .draining)
  | .draining, .tryRecv => some s.tryRecv
  | .select, a => s.event a
  | .starting i, .start opens => some ((s.startCapture i opens).goto .top)
  | .stopping i after, .sendStop =>
    match s.session i with
    | none => none
    | some session =>
      let s := s.sendStop i session
      match session.join with
      | some c => some ((s.setSession i (fun t => { t with join := none })).goto (.joining i c after))
      | none => some (s.stopReturns i after)
  | .joining i c after, .joined =>
    match s.captures[c]? with
    | some cap => if cap.pc = .done then some (s.stopReturns i after) else none
    | none => none
  | .quitting, .dropNext =>
    match s.ws.sessions with
    | [] => none
    | .other :: rest => some { s with ws := { s.ws with sessions := rest } }
    | .capture _ :: _ => some (s.goto (.stopping 0 .dropNext))
  | _, _ => none

end LiveState

/-- Steps of `capture_loop`. A packet in `send` waits while the channel is full, and ends
the loop when the receiver is gone. -/
def Capture.loopStep (cap : Capture) (rxHeld : Bool) (a : LoopAct) : Option Capture :=
  match cap.pc, a with
  | .poll, .poll => some { cap with pc := if cap.stopSent then .done else .inject }
  | .inject, .inject =>
    match cap.injected with
    | _ :: rest => some { cap with injected := rest }
    | [] => some { cap with pc := .next }
  | .next, .read none => some { cap with pc := .poll }
  | .next, .read (some pkt) =>
    match cap.filter.matchesRaw pkt with
    | .ok true => some { cap with pc := .send pkt }
    | .ok false => some { cap with pc := .poll }
    | .error _ => some { cap with pc := .done }
  | .send pkt, .send =>
    if !rxHeld then some { cap with pc := .done }
    else if cap.queue.length < channelCapacity then
      some { cap with queue := cap.queue ++ [pkt], pc := .poll }
    else none
  | _, _ => none

namespace LiveState

def step (s : LiveState) : LiveAct → Option LiveState
  | .ui a => s.uiStep a
  | .thread c a =>
    match s.captures[c]? with
    | none => none
    | some cap => (cap.loopStep (s.rxHeld c) a).map (fun next => s.setCapture c (fun _ => next))

/-- A workspace as it is when the event loop starts: nothing is being captured. -/
def Initial (s : LiveState) : Prop :=
  s.ui = .top ∧ s.captures = [] ∧
    ∀ session, SessionSlot.capture session ∈ s.ws.sessions →
      session.packetRx = none ∧ session.stopTx = none ∧ session.join = none

/-- The interface waits for a capture thread that waits for the interface. -/
def Deadlocked (s : LiveState) : Prop :=
  ∃ i c after cap pkt, s.ui = .joining i c after ∧ s.captures[c]? = some cap ∧
    cap.pc = .send pkt ∧ cap.queue.length = channelCapacity ∧ s.rxHeld c = true

end LiveState

end BitBeak
