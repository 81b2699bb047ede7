import BitBeak.Framing
import BitBeak.Lib.Entries
import BitBeak.Lib.Runs
import BitBeak.Transport

/-! The listeners. Over TCP and Unix sockets every client has a task of its own; over WebSocket
the listener serves one client after the other. Clients are counted in the order in which they
are accepted. -/
namespace BitBeak
open Wire Runs

/-- Why the connection of a client is over. -/
inductive Ending where
  | peerClosed
  | readError
  | writeError
  | channelClosed
  | handshakeFailed
  | commanded
  deriving DecidableEq, Repr

/-- An event that was sent, and the client it is about if it is about one. -/
structure Emitted where
  conn : Option Nat
  event : IoEvent
  deriving DecidableEq, Repr

def eventsOf (c : Nat) (log : List Emitted) : List IoEvent :=
  (log.filter (·.conn = some c)).map (·.event)

def IoEvent.isFrame : IoEvent → Bool
  | .frame _ _ _ => true
  | _ => false

/-- A join, then frames, then the leave of who joined. -/
def Balanced (events : List IoEvent) : Prop :=
  ∃ id peer frames, events = .clientJoined id peer :: (frames ++ [.clientLeft id]) ∧
    ∀ e ∈ frames, e.isFrame = true

/- TCP and Unix sockets. -/

inductive MapTransport where
  | tcp
  | unix
  deriving DecidableEq, Repr

/-- What a client is called. -/
def MapTransport.peer : MapTransport → UInt64 → String → String
  | .tcp, _, addr => addr
  | .unix, id, _ => "client-" ++ toString id.toNat

def MapTransport.display : MapTransport → String → String
  | .tcp, addr => addr
  | .unix, path => "unix://" ++ path

/-- The task of a client. `queue` is its channel, `outbox` what it is about to send. -/
structure ListenClient where
  id : UInt64
  peer : String
  readBuf : Bytes
  queue : List Bytes
  outbox : List IoEvent
  ended : Option Ending

/-- `clients` is the map of the senders: ids, and whose channels they are. -/
structure MapListener where
  listening : Bool
  nextId : UInt64
  clients : List (UInt64 × Nat)
  conns : List ListenClient
  log : List Emitted

/-- What happens next. A read of nothing is the end of the stream. -/
inductive MapAct where
  | command (cmd : Option IoCommand) (first : Nat)
  | accept (result : Except String String)
  | read (c : Nat) (result : Except Unit Bytes)
  | write (c : Nat) (written : Bool)
  | emit (c : Nat)

namespace MapListener

section
variable (lines : LinesCodec) (framing : FramingConfig) (errorText : FramingError → String)
  (transport : MapTransport)

def start (addr : String) : MapListener where
  listening := true
  nextId := 1
  clients := []
  conns := []
  log := [⟨none, .status ("listening on " ++ transport.display addr)⟩,
    ⟨none, .connected ("listen:" ++ addr)⟩]

/-- The listener returns an error, and `spawn_listen` reports it. -/
def fail (s : MapListener) (message : String) : MapListener :=
  { s with listening := false, log := s.log ++ [⟨none, .error message⟩] }

/-- The data goes into the channels of some clients. -/
def enqueue (s : MapListener) (targets : Nat → Bool) (data : Bytes) : MapListener :=
  { s with conns := s.conns.mapIdx fun c conn =>
      if targets c then { conn with queue := conn.queue ++ [data] } else conn }

/-- Whose channel `Send` uses. Without an id it is the one that the map happens to have first. -/
def target (s : MapListener) (id : Option UInt64) (first : Nat) : Option Nat :=
  match id with
  | some id => (s.clients.find? (·.1 = id)).map (·.2)
  | none => s.clients[first % s.clients.length]?.map (·.2)

def onCommand (s : MapListener) (cmd : Option IoCommand) (first : Nat) : MapListener :=
  match cmd with
  | none | some .close => { s with listening := false }
  | some (.send payload id) =>
    match encodeOutbound framing payload with
    | .error e => s.fail (errorText e)
    | .ok encoded => s.enqueue (fun c => s.target id first = some c) encoded
  | some (.broadcast payload) =>
    match encodeOutbound framing payload with
    | .error e => s.fail (errorText e)
    | .ok encoded => s.enqueue (fun c => s.clients.any (·.2 = c)) encoded

def onAccept (s : MapListener) : Except String String → MapListener
  | .error text => s.fail ("accept: " ++ text)
  | .ok addr =>
    let id := s.nextId
    let peer := transport.peer id addr
    let c := s.conns.length
    { s with
      nextId := id + 1
      clients := (id, c) :: s.clients.filter (·.1 ≠ id)
      conns := s.conns ++
        [{ id := id, peer := peer, readBuf := [], queue := [], outbox := [], ended := none }]
      log := s.log ++ [⟨some c, .clientJoined id peer⟩] }

def setConn (s : MapListener) (c : Nat) (conn : ListenClient) : MapListener :=
  { s with conns := s.conns.set c conn }

/-- What a task does behind its loop. -/
def finish (s : MapListener) (c : Nat) (conn : ListenClient) (e : Ending) : MapListener :=
  let s := { s with clients := s.clients.filter (·.1 ≠ conn.id) }
  s.setConn c { conn with ended := some e, outbox := [.clientLeft conn.id] }

def onRead (s : MapListener) (c : Nat) (conn : ListenClient) : Except Unit Bytes → MapListener
  | .error _ => s.finish c conn .readError
  | .ok [] => s.finish c conn .peerClosed
  | .ok chunk =>
    let drained := drainFrames lines (conn.readBuf ++ chunk) framing
    s.setConn c { conn with
      readBuf := drained.2
      outbox := drained.1.map fun frame => .frame .inward frame (some conn.peer) }

/-- A task takes the next message out of its channel, if there is one or all senders are gone. -/
def onWrite (s : MapListener) (c : Nat) (conn : ListenClient) (written : Bool) :
    Option MapListener :=
  match conn.queue with
  | [] =>
    if s.clients.any (·.2 = c) then none else some (s.finish c conn .channelClosed)
  | data :: rest =>
    let conn := { conn with queue := rest }
    if written then
      some (s.setConn c { conn with outbox := [.frame .outward data (some conn.peer)] })
    else some (s.finish c conn .writeError)

/-- A task sends the next of the events it is about to send. -/
def onEmit (s : MapListener) (c : Nat) (conn : ListenClient) : Option MapListener :=
  match conn.outbox with
  | [] => none
  | event :: rest =>
    let s : MapListener := { s with log := s.log ++ [⟨some c, event⟩] }
    some (s.setConn c { conn with outbox := rest })

def step (s : MapListener) : MapAct → Option MapListener
  | .command cmd first =>
    if s.listening then some (s.onCommand framing errorText cmd first) else none
  | .accept result => if s.listening then some (s.onAccept transport result) else none
  | .read c result =>
    match s.conns[c]? with
    | none => none
    | some conn =>
      if conn.ended.isSome ∨ conn.outbox ≠ [] then none
      else some (s.onRead lines framing c conn result)
  | .write c written =>
    match s.conns[c]? with
    | none => none
    | some conn =>
      if conn.ended.isSome ∨ conn.outbox ≠ [] then none else s.onWrite c conn written
  | .emit c =>
    match s.conns[c]? with
    | none => none
    | some conn => s.onEmit c conn

end

end MapListener

/- WebSocket. -/

/-- What `read.next()` yields. -/
inductive WsMessage where
  | text (data : Bytes)
  | binary (data : Bytes)
  | close
  | other
  | failed (text : String)
  | finished
  deriving DecidableEq, Repr

structure WsClient where
  peer : String
  ended : Option Ending
  deriving DecidableEq, Repr

inductive WsPhase where
  | waiting
  | handshake
  | serving
  | stopped
  deriving DecidableEq, Repr

/-- Unless the listener waits or has stopped, it is about the last client. -/
structure WsListener where
  phase : WsPhase
  conns : List WsClient
  log : List Emitted
  deriving DecidableEq, Repr

inductive WsAct where
  | command (cmd : Option IoCommand) (written : Except String Unit)
  | accept (result : Except String String)
  | handshake (result : Except String Unit)
  | message (msg : WsMessage)

namespace WsListener

def start (addr : String) : WsListener where
  phase := .waiting
  conns := []
  log := [⟨none, .status ("ws listening on " ++ addr)⟩, ⟨none, .connected ("listen:" ++ addr)⟩]

/-- The listener returns an error, and `spawn_listen` reports it. -/
def fail (s : WsListener) (message : String) : WsListener :=
  { s with phase := .stopped, log := s.log ++ [⟨none, .error message⟩] }

/-- An event about the client that is served. -/
def tell (s : WsListener) (event : IoEvent) : WsListener :=
  { s with log := s.log ++ [⟨some (s.conns.length - 1), event⟩] }

/-- The connection of the client that is served is over. -/
def finish (s : WsListener) (e : Ending) : WsListener :=
  { s with conns := s.conns.modify (s.conns.length - 1) fun conn => { conn with ended := some e } }

def peer (s : WsListener) : Option String := s.conns.getLast?.map (·.peer)

def onMessage (s : WsListener) : WsMessage → WsListener
  | .text data | .binary data => s.tell (.frame .inward data s.peer)
  | .close | .finished => { (s.tell (.clientLeft 1)).finish .peerClosed with phase := .waiting }
  | .other => s
  | .failed text =>
    { s.finish .readError with phase := .waiting, log := s.log ++ [⟨none, .error text⟩] }

def onCommand (s : WsListener) (cmd : Option IoCommand) (written : Except String Unit) :
    WsListener :=
  match cmd with
  | none | some .close => { s.finish .commanded with phase := .stopped }
  | some (.send payload _) | some (.broadcast payload) =>
    match written with
    | .ok _ => s.tell (.frame .outward payload s.peer)
    | .error text => (s.finish .writeError).fail text

/-- Between two clients only the end of the session is looked at. -/
def onIdleCommand (s : WsListener) : Option IoCommand → WsListener
  | none | some .close => { s with phase := .stopped }
  | _ => s

def onAccept (s : WsListener) : Except String String → WsListener
  | .error text => s.fail text
  | .ok peer =>
    { phase := .handshake
      conns := s.conns ++ [{ peer := peer, ended := none }]
      log := s.log ++ [⟨some s.conns.length, .clientJoined 1 peer⟩] }

def onHandshake (s : WsListener) : Except String Unit → WsListener
  | .error text => (s.finish .handshakeFailed).fail ("ws accept: " ++ text)
  | .ok _ => { s with phase := .serving }

def step (s : WsListener) : WsAct → Option WsListener
  | .command cmd written =>
    if s.phase = .waiting then some (s.onIdleCommand cmd)
    else if s.phase = .serving then some (s.onCommand cmd written)
    else none
  | .accept result => if s.phase = .waiting then some (s.onAccept result) else none
  | .handshake result => if s.phase = .handshake then some (s.onHandshake result) else none
  | .message msg => if s.phase = .serving then some (s.onMessage msg) else none

end WsListener

/- What the log says about a client. -/

section
variable {c d : Nat} {log : List Emitted} {event : IoEvent}

theorem eventsOf_own : eventsOf c (log ++ [⟨some c, event⟩]) = eventsOf c log ++ [event] := by
  simp [eventsOf]

theorem eventsOf_other (apart : c ≠ d) :
    eventsOf c (log ++ [⟨some d, event⟩]) = eventsOf c log := by
  simp [eventsOf, apart.symm]

theorem eventsOf_none : eventsOf c (log ++ [⟨none, event⟩]) = eventsOf c log := by
  simp [eventsOf]

end

/-- A join, then frames, then a leave if the connection is over with it. -/
def Told (id : UInt64) (peer : String) (left : Bool) (events : List IoEvent) : Prop :=
  ∃ frames, events = .clientJoined id peer :: (frames ++ if left then [.clientLeft id] else []) ∧
    ∀ e ∈ frames, e.isFrame = true

namespace Told

variable {id : UInt64} {peer : String} {events : List IoEvent}

theorem joined : Told id peer false [.clientJoined id peer] := ⟨[], rfl, by simp⟩

theorem frames {more : List IoEvent} (told : Told id peer false events)
    (all : ∀ e ∈ more, e.isFrame = true) : Told id peer false (events ++ more) := by
  obtain ⟨frames, rfl, framed⟩ := told
  exact ⟨frames ++ more, by simp, List.forall_mem_append.mpr ⟨framed, all⟩⟩

theorem leaves (told : Told id peer false events) :
    Told id peer true (events ++ [.clientLeft id]) := by
  obtain ⟨frames, rfl, framed⟩ := told
  exact ⟨frames, by simp, framed⟩

theorem balanced (told : Told id peer true events) : Balanced events := by
  obtain ⟨frames, same, framed⟩ := told
  exact ⟨id, peer, frames, same, framed⟩

/-- Without the leave there is no balance. -/
theorem not_balanced (told : Told id peer false events) : ¬ Balanced events := by
  obtain ⟨frames, rfl, framed⟩ := told
  rintro ⟨id', peer', frames', same, -⟩
  rw [if_neg Bool.false_ne_true, List.append_nil] at same
  have left : IoEvent.clientLeft id' ∈ frames := by
    rw [(List.cons.inj same).2]
    exact List.mem_append_right _ List.mem_cons_self
  exact absurd (framed _ left) Bool.false_ne_true

end Told

section
variable {α : Type} {P : α → List IoEvent → Prop} {conns : List α} {log log' : List Emitted}

/-- The events of each client are what is said of its state, and there are none of others. -/
structure Logged (P : α → List IoEvent → Prop) (conns : List α) (log : List Emitted) : Prop where
  told : ∀ c conn, conns[c]? = some conn → P conn (eventsOf c log)
  fresh : ∀ c, conns.length ≤ c → eventsOf c log = []

/-- One client's turn. -/
theorem Logged.set (logged : Logged P conns log) {c : Nat} {new : α} (inside : c < conns.length)
    (others : ∀ d, d ≠ c → eventsOf d log' = eventsOf d log) (own : P new (eventsOf c log')) :
    Logged P (conns.set c new) log' where
  told := by
    intro d other there
    rcases Entries.set_cases there with ⟨rfl, rfl⟩ | ⟨apart, same⟩
    · exact own
    · rw [others d (Ne.symm apart)]
      exact logged.told d other same
  fresh := by
    intro d beyond
    rw [List.length_set] at beyond
    rw [others d (by omega)]
    exact logged.fresh d beyond

/-- A client comes. -/
theorem Logged.concat (logged : Logged P conns log) {new : α} {event : IoEvent}
    (own : P new [event]) :
    Logged P (conns ++ [new]) (log ++ [⟨some conns.length, event⟩]) where
  told := by
    intro c conn here
    rcases Entries.concat_cases here with old | ⟨rfl, rfl⟩
    · rw [eventsOf_other (Nat.ne_of_lt (List.getElem?_eq_some_iff.mp old).1)]
      exact logged.told c conn old
    · rw [eventsOf_own, logged.fresh _ (Nat.le_refl _)]
      exact own
  fresh := by
    intro c beyond
    rw [List.length_append, List.length_singleton] at beyond
    rw [eventsOf_other (by omega)]
    exact logged.fresh c (by omega)

end

/- Runs of the map listeners. -/

namespace MapListener

variable {lines : LinesCodec} {framing : FramingConfig} {errorText : FramingError → String}
  {transport : MapTransport} {s t : MapListener}

/-- The log of each client, with what its task is about to send. -/
structure Tells (s : MapListener) : Prop where
  told : ∀ c conn, s.conns[c]? = some conn →
    Told conn.id conn.peer conn.ended.isSome (eventsOf c s.log ++ conn.outbox)
  fresh : ∀ c, s.conns.length ≤ c → eventsOf c s.log = []

theorem Tells.logged (tells : Tells s) :
    Logged (fun conn events => Told conn.id conn.peer conn.ended.isSome (events ++ conn.outbox))
      s.conns s.log := ⟨tells.told, tells.fresh⟩

/-- A turn of one task: it tells its own client's events and no others. -/
theorem Tells.turn (tells : Tells s) {c : Nat} {conn new : ListenClient}
    (here : s.conns[c]? = some conn) (conns : t.conns = s.conns.set c new)
    (others : ∀ d, d ≠ c → eventsOf d t.log = eventsOf d s.log)
    (told : Told new.id new.peer new.ended.isSome (eventsOf c t.log ++ new.outbox)) :
    Tells t := by
  obtain ⟨inside, -⟩ := List.getElem?_eq_some_iff.mp here
  have logged := tells.logged.set inside others told
  rw [← conns] at logged
  exact ⟨logged.told, logged.fresh⟩

theorem Tells.fail (tells : Tells s) (message : String) : Tells (s.fail message) where
  told := by
    intro c conn here
    change Told _ _ _ (eventsOf c (s.log ++ [⟨none, .error message⟩]) ++ _)
    rw [eventsOf_none]
    exact tells.told c conn here
  fresh := by
    intro c beyond
    change eventsOf c (s.log ++ [⟨none, .error message⟩]) = []
    rw [eventsOf_none]
    exact tells.fresh c beyond

theorem Tells.enqueue (tells : Tells s) (targets : Nat → Bool) (data : Bytes) :
    Tells (s.enqueue targets data) where
  told := by
    intro c conn here
    change (s.conns.mapIdx _)[c]? = some conn at here
    rw [List.getElem?_mapIdx] at here
    obtain ⟨old, there, same⟩ := Option.map_eq_some_iff.mp here
    have told := tells.told c old there
    rw [← same]
    split <;> exact told
  fresh := by
    intro c beyond
    change (s.conns.mapIdx _).length ≤ c at beyond
    rw [List.length_mapIdx] at beyond
    exact tells.fresh c beyond

theorem Tells.onCommand (tells : Tells s) (cmd : Option IoCommand) (first : Nat) :
    Tells (s.onCommand framing errorText cmd first) := by
  unfold MapListener.onCommand
  split
  · exact ⟨tells.told, tells.fresh⟩
  · exact ⟨tells.told, tells.fresh⟩
  · split
    · exact tells.fail _
    · exact tells.enqueue _ _
  · split
    · exact tells.fail _
    · exact tells.enqueue _ _

theorem Tells.onAccept (tells : Tells s) (result : Except String String) :
    Tells (s.onAccept transport result) := by
  cases result with
  | error text => exact tells.fail _
  | ok addr =>
    let new : ListenClient :=
      { id := s.nextId, peer := transport.peer s.nextId addr, readBuf := [], queue := [],
        outbox := [], ended := none }
    have logged := tells.logged.concat (show Told new.id new.peer _ (_ ++ new.outbox) from
      Told.joined)
    exact ⟨logged.told, logged.fresh⟩

/-- A task that is behind its loop tells that its client left. -/
theorem Tells.finish (tells : Tells s) {c : Nat} {conn new : ListenClient} (e : Ending)
    (here : s.conns[c]? = some conn) (running : conn.ended = none) (idle : conn.outbox = [])
    (id : new.id = conn.id) (peer : new.peer = conn.peer) : Tells (s.finish c new e) := by
  have told := tells.told c conn here
  rw [running, idle, List.append_nil] at told
  refine tells.turn here rfl (fun _ _ => rfl) ?_
  change Told new.id new.peer true (eventsOf c s.log ++ [.clientLeft new.id])
  rw [id, peer]
  exact told.leaves

theorem Tells.onRead (tells : Tells s) {c : Nat} {conn : ListenClient}
    (here : s.conns[c]? = some conn) (running : conn.ended = none) (idle : conn.outbox = [])
    (result : Except Unit Bytes) : Tells (s.onRead lines framing c conn result) := by
  have told := tells.told c conn here
  rw [running, idle, List.append_nil] at told
  unfold MapListener.onRead
  split
  · exact tells.finish _ here running idle rfl rfl
  · exact tells.finish _ here running idle rfl rfl
  · refine tells.turn here rfl (fun _ _ => rfl) ?_
    change Told conn.id conn.peer conn.ended.isSome _
    rw [running]
    refine told.frames ?_
    intro e member
    obtain ⟨frame, _, rfl⟩ := List.mem_map.mp member
    rfl

theorem Tells.onWrite (tells : Tells s) {c : Nat} {conn : ListenClient}
    (here : s.conns[c]? = some conn) (running : conn.ended = none) (idle : conn.outbox = [])
    {written : Bool} (moved : s.onWrite c conn written = some t) : Tells t := by
  have told := tells.told c conn here
  rw [running, idle, List.append_nil] at told
  unfold MapListener.onWrite at moved
  split at moved
  · split at moved
    · cases moved
    · cases moved
      exact tells.finish _ here running idle rfl rfl
  · dsimp only at moved
    split at moved
    · cases moved
      refine tells.turn here rfl (fun _ _ => rfl) ?_
      change Told conn.id conn.peer conn.ended.isSome _
      rw [running]
      exact told.frames (by simp [IoEvent.isFrame])
    · cases moved
      exact tells.finish _ here running idle rfl rfl

theorem Tells.onEmit (tells : Tells s) {c : Nat} {conn : ListenClient}
    (here : s.conns[c]? = some conn) (moved : s.onEmit c conn = some t) : Tells t := by
  have told := tells.told c conn here
  unfold MapListener.onEmit at moved
  split at moved
  · cases moved
  · next event rest outbox =>
    cases moved
    refine tells.turn here rfl (fun d apart => eventsOf_other apart) ?_
    change Told conn.id conn.peer conn.ended.isSome (eventsOf c (s.log ++ [⟨some c, event⟩]) ++ rest)
    rw [outbox, ← List.singleton_append, ← List.append_assoc] at told
    rw [eventsOf_own]
    exact told

theorem Tells.step (tells : Tells s) {act : MapAct}
    (moved : s.step lines framing errorText transport act = some t) : Tells t := by
  cases act with
  | command cmd first =>
    rw [MapListener.step] at moved
    split at moved
    · cases moved
      exact tells.onCommand cmd first
    · cases moved
  | accept result =>
    rw [MapListener.step] at moved
    split at moved
    · cases moved
      exact tells.onAccept result
    · cases moved
  | read c result =>
    rw [MapListener.step] at moved
    split at moved
    · cases moved
    · next conn here =>
      split at moved
      · cases moved
      · next idle =>
        cases moved
        obtain ⟨running, empty⟩ := not_or.mp idle
        exact tells.onRead here (Option.not_isSome_iff_eq_none.mp running) (not_not.mp empty) result
  | write c written =>
    rw [MapListener.step] at moved
    split at moved
    · cases moved
    · next conn here =>
      split at moved
      · cases moved
      · next idle =>
        obtain ⟨running, empty⟩ := not_or.mp idle
        exact tells.onWrite here (Option.not_isSome_iff_eq_none.mp running) (not_not.mp empty) moved
  | emit c =>
    rw [MapListener.step] at moved
    split at moved
    · cases moved
    · next conn here => exact tells.onEmit here moved

theorem Tells.start (addr : String) : Tells (start transport addr) where
  told := by
    intro c conn here
    cases here
  fresh := fun c _ => by simp [MapListener.start, eventsOf]

theorem tells_reachable {addr : String}
    (run : Reachable (step lines framing errorText transport) (start transport addr) s) : Tells s :=
  run.invariant (Tells.start addr) (fun _ _ _ tells moved => tells.step moved)

end MapListener

/- Runs of the WebSocket listener. -/

namespace WsListener

variable {s t : WsListener}

/-- The log of each client. Only a client that closed has left. -/
structure Tells (s : WsListener) : Prop where
  told : ∀ c conn, s.conns[c]? = some conn →
    Told 1 conn.peer (conn.ended = some .peerClosed) (eventsOf c s.log)
  fresh : ∀ c, s.conns.length ≤ c → eventsOf c s.log = []
  busy : s.phase = .handshake ∨ s.phase = .serving →
    ∃ conn, s.conns[s.conns.length - 1]? = some conn ∧ conn.ended = none

theorem Tells.logged (tells : Tells s) :
    Logged (fun conn events => Told 1 conn.peer (conn.ended = some .peerClosed) events)
      s.conns s.log := ⟨tells.told, tells.fresh⟩

/-- A turn about the last client. -/
theorem Tells.turn (tells : Tells s) {conn new : WsClient}
    (here : s.conns[s.conns.length - 1]? = some conn)
    (conns : t.conns = s.conns.set (s.conns.length - 1) new)
    (others : ∀ d, d ≠ s.conns.length - 1 → eventsOf d t.log = eventsOf d s.log)
    (told : Told 1 new.peer (new.ended = some .peerClosed) (eventsOf (s.conns.length - 1) t.log))
    (busy : t.phase = .handshake ∨ t.phase = .serving → new.ended = none) : Tells t := by
  obtain ⟨inside, -⟩ := List.getElem?_eq_some_iff.mp here
  have logged := tells.logged.set inside others told
  rw [← conns] at logged
  refine ⟨logged.told, logged.fresh, fun phase => ⟨new, ?_, busy phase⟩⟩
  rw [conns, List.length_set, List.getElem?_set_self inside]

/-- A turn that only reports about the listener. -/
theorem Tells.quiet (tells : Tells s) (conns : t.conns = s.conns)
    (same : ∀ c, eventsOf c t.log = eventsOf c s.log)
    (idle : t.phase = .handshake ∨ t.phase = .serving →
      s.phase = .handshake ∨ s.phase = .serving) : Tells t where
  told := by
    intro c conn here
    rw [conns] at here
    rw [same]
    exact tells.told c conn here
  fresh := by
    intro c beyond
    rw [conns] at beyond
    rw [same]
    exact tells.fresh c beyond
  busy := by
    intro phase
    rw [conns]
    exact tells.busy (idle phase)

theorem conns_finish {conn : WsClient} (here : s.conns[s.conns.length - 1]? = some conn)
    (e : Ending) : (s.finish e).conns
      = s.conns.set (s.conns.length - 1) { conn with ended := some e } := by
  change s.conns.modify _ _ = _
  apply List.ext_getElem?
  intro d
  obtain ⟨inside, -⟩ := List.getElem?_eq_some_iff.mp here
  rw [List.getElem?_modify, List.getElem?_set]
  split
  · next same =>
    rw [← same, here]
    rfl
  · cases s.conns[d]? <;> rfl

theorem Tells.told_running (tells : Tells s) {conn : WsClient}
    (here : s.conns[s.conns.length - 1]? = some conn) (running : conn.ended = none) :
    Told 1 conn.peer false (eventsOf (s.conns.length - 1) s.log) := by
  have told := tells.told _ conn here
  rw [running] at told
  exact told

/-- The connection of the client that is served is over, and it was not the client that
closed it. -/
theorem Tells.finish (tells : Tells s) (busy : s.phase = .handshake ∨ s.phase = .serving)
    {e : Ending} (lost : e ≠ .peerClosed) (conns : t.conns = (s.finish e).conns)
    (same : ∀ c, eventsOf c t.log = eventsOf c s.log)
    (idle : ¬ (t.phase = .handshake ∨ t.phase = .serving)) : Tells t := by
  obtain ⟨conn, here, running⟩ := tells.busy busy
  refine tells.turn here (conns.trans (conns_finish here e)) (fun d _ => same d) ?_
    (fun phase => absurd phase idle)
  have told := tells.told_running here running
  rw [same]
  have open' : decide (some e = some Ending.peerClosed) = false := by simp [lost]
  change Told 1 conn.peer (some e = some Ending.peerClosed) _
  rw [open']
  exact told

theorem Tells.tell (tells : Tells s) (busy : s.phase = .handshake ∨ s.phase = .serving)
    {event : IoEvent} (frame : event.isFrame = true) : Tells (s.tell event) := by
  obtain ⟨conn, here, running⟩ := tells.busy busy
  have stays : s.conns = s.conns.set (s.conns.length - 1) conn := by
    obtain ⟨inside, there⟩ := List.getElem?_eq_some_iff.mp here
    rw [← there, List.set_getElem_self]
  refine tells.turn here stays (fun d apart => eventsOf_other apart) ?_ (fun _ => running)
  have told := tells.told_running here running
  change Told 1 conn.peer _ (eventsOf _ (s.log ++ [⟨some (s.conns.length - 1), event⟩]))
  rw [running, eventsOf_own]
  exact told.frames (by simpa using frame)

theorem Tells.close (tells : Tells s) (busy : s.phase = .handshake ∨ s.phase = .serving) :
    Tells { (s.tell (.clientLeft 1)).finish .peerClosed with phase := .waiting } := by
  obtain ⟨conn, here, running⟩ := tells.busy busy
  have there : (s.tell (.clientLeft 1)).conns[(s.tell (.clientLeft 1)).conns.length - 1]?
      = some conn := here
  refine tells.turn here (conns_finish there .peerClosed) (fun d apart => eventsOf_other apart) ?_
    (by simp)
  have told := tells.told_running here running
  change Told 1 conn.peer _ (eventsOf _ (s.log ++ [⟨some (s.conns.length - 1), .clientLeft 1⟩]))
  rw [eventsOf_own]
  exact told.leaves

theorem Tells.onMessage (tells : Tells s) (serving : s.phase = .serving) (msg : WsMessage) :
    Tells (s.onMessage msg) := by
  cases msg with
  | text data => exact tells.tell (.inr serving) rfl
  | binary data => exact tells.tell (.inr serving) rfl
  | close => exact tells.close (.inr serving)
  | other => exact tells
  | failed text =>
    exact tells.finish (.inr serving) (e := .readError) (by decide) rfl
      (fun c => eventsOf_none) (by simp [WsListener.onMessage])
  | finished => exact tells.close (.inr serving)

theorem Tells.onCommand (tells : Tells s) (serving : s.phase = .serving) (cmd : Option IoCommand)
    (written : Except String Unit) : Tells (s.onCommand cmd written) := by
  unfold WsListener.onCommand
  split
  · exact tells.finish (.inr serving) (e := .commanded) (by decide) rfl (fun _ => rfl) (by simp)
  · exact tells.finish (.inr serving) (e := .commanded) (by decide) rfl (fun _ => rfl) (by simp)
  all_goals
    cases written with
    | ok _ => exact tells.tell (.inr serving) rfl
    | error text =>
      exact tells.finish (.inr serving) (e := .writeError) (by decide) rfl
        (fun c => eventsOf_none) (by simp [WsListener.fail])

theorem Tells.onAccept (tells : Tells s) (result : Except String String) :
    Tells (s.onAccept result) := by
  cases result with
  | error text => exact tells.quiet rfl (fun _ => eventsOf_none) (by simp [WsListener.onAccept, fail])
  | ok peer =>
    let new : WsClient := { peer := peer, ended := none }
    have logged := tells.logged.concat (show Told 1 new.peer _ _ from Told.joined)
    refine ⟨logged.told, logged.fresh, fun _ => ⟨new, ?_, rfl⟩⟩
    simp [WsListener.onAccept, new]

theorem Tells.onHandshake (tells : Tells s) (busy : s.phase = .handshake)
    (result : Except String Unit) : Tells (s.onHandshake result) := by
  cases result with
  | error text =>
    exact tells.finish (.inl busy) (e := .handshakeFailed) (by decide) rfl
      (fun _ => eventsOf_none) (by simp [WsListener.onHandshake, fail])
  | ok _ => exact tells.quiet rfl (fun _ => rfl) (fun _ => .inl busy)

theorem Tells.onIdleCommand (tells : Tells s) (cmd : Option IoCommand) :
    Tells (s.onIdleCommand cmd) := by
  unfold WsListener.onIdleCommand
  split
  · exact tells.quiet rfl (fun _ => rfl) (by simp)
  · exact tells.quiet rfl (fun _ => rfl) (by simp)
  · exact tells

theorem Tells.step (tells : Tells s) {act : WsAct} (moved : s.step act = some t) : Tells t := by
  cases act with
  | command cmd written =>
    rw [WsListener.step] at moved
    split at moved
    · cases moved
      exact tells.onIdleCommand cmd
    · split at moved
      · next serving =>
        cases moved
        exact tells.onCommand serving cmd written
      · cases moved
  | accept result =>
    rw [WsListener.step] at moved
    split at moved
    · cases moved
      exact tells.onAccept result
    · cases moved
  | handshake result =>
    rw [WsListener.step] at moved
    split at moved
    · next busy =>
      cases moved
      exact tells.onHandshake busy result
    · cases moved
  | message msg =>
    rw [WsListener.step] at moved
    split at moved
    · next serving =>
      cases moved
      exact tells.onMessage serving msg
    · cases moved

theorem Tells.start (addr : String) : Tells (start addr) where
  told := by
    intro c conn here
    cases here
  fresh := fun c _ => by simp [WsListener.start, eventsOf]
  busy := by simp [WsListener.start]

theorem tells_reachable {addr : String} (run : Reachable step (start addr) s) : Tells s :=
  run.invariant (Tells.start addr) (fun _ _ _ tells moved => tells.step moved)

end WsListener

/-- Over TCP and Unix sockets every client whose connection is over has joined, sent its frames and
left. Over WebSocket only a client that closed the connection itself has. -/
theorem listeners_balanced_iff (lines : LinesCodec) (framing : FramingConfig)
    (errorText : FramingError → String) (addr : String) :
    (∀ (transport : MapTransport) (s : MapListener),
      Reachable (MapListener.step lines framing errorText transport)
        (MapListener.start transport addr) s →
      ∀ c conn, s.conns[c]? = some conn → conn.ended.isSome = true →
        Balanced (eventsOf c s.log ++ conn.outbox)) ∧
    ∀ s, Reachable WsListener.step (WsListener.start addr) s →
      ∀ c conn e, s.conns[c]? = some conn → conn.ended = some e →
        (Balanced (eventsOf c s.log) ↔ e = .peerClosed) := by
  constructor
  · intro transport s run c conn here gone
    have told := (MapListener.tells_reachable run).told c conn here
    rw [gone] at told
    exact told.balanced
  · intro s run c conn e here gone
    have told := (WsListener.tells_reachable run).told c conn here
    rw [gone] at told
    constructor
    · intro balanced
      by_contra lost
      have stays : decide (some e = some Ending.peerClosed) = false := by simp [lost]
      rw [stays] at told
      exact told.not_balanced balanced
    · rintro rfl
      exact told.balanced

/-- Framing by lines is not used below. -/
def unusedLines : LinesCodec where
  State := Unit
  newWithMaxLength := fun _ => ()
  decode := fun s buf => (.ok none, s, buf)

/-- A client that closes, over TCP and over WebSocket. -/
theorem closing_clients_balanced :
    Balanced [.clientJoined 1 "b", .frame .inward [7] (some "b"), .clientLeft 1] ∧
      (Balanced [.clientJoined 1 "b", .clientLeft 1] ↔ Ending.peerClosed = .peerClosed) := by
  have both := listeners_balanced_iff unusedLines {} (fun _ => "") "a"
  constructor
  · exact both.1 .tcp _
      (reachable_of_play [.accept (.ok "b"), .read 0 (.ok [7]), .emit 0, .read 0 (.ok [])] rfl) 0 _
      rfl rfl
  · exact both.2 _
      (reachable_of_play [.accept (.ok "b"), .handshake (.ok ()), .message .close] rfl) 0 _ _ rfl rfl

/-- A read of the socket fails, a handshake fails, a send fails: no leave is told. -/
theorem lost_clients_stay :
    (∃ s, play WsListener.step (WsListener.start "a")
        [.accept (.ok "b"), .handshake (.ok ()), .message (.failed "reset")] = some s ∧
      s.conns = [⟨"b", some .readError⟩] ∧ ¬ Balanced (eventsOf 0 s.log)) ∧
    (∃ s, play WsListener.step (WsListener.start "a")
        [.accept (.ok "b"), .handshake (.error "no upgrade")] = some s ∧
      s.conns = [⟨"b", some .handshakeFailed⟩] ∧ ¬ Balanced (eventsOf 0 s.log)) ∧
    ∃ s, play WsListener.step (WsListener.start "a")
        [.accept (.ok "b"), .handshake (.ok ()),
          .command (some (.broadcast [1])) (.error "broken pipe")] = some s ∧
      s.conns = [⟨"b", some .writeError⟩] ∧ ¬ Balanced (eventsOf 0 s.log) := by
  have joined : ¬ Balanced [.clientJoined 1 "b"] := Told.joined.not_balanced
  exact ⟨⟨_, rfl, rfl, joined⟩, ⟨_, rfl, rfl, joined⟩, ⟨_, rfl, rfl, joined⟩⟩

end BitBeak
