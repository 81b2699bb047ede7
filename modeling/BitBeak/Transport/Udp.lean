import BitBeak.Session.Listen
import BitBeak.Session.Reconnect
import BitBeak.Transport.Listen

/-! The UDP listener and its session. There are no clients: what is typed goes to whoever the last
datagram came from. The commands and the events wait in a channel each. -/
namespace BitBeak
open Runs Wire

/-- What came or went, and from or to whom. -/
structure UdpDatagram (Addr : Type) where
  direction : Direction
  payload : Bytes
  peer : Addr
  deriving DecidableEq, Repr

/-- `events` is all that the task has sent, `wire` all that its socket has received or sent. -/
structure UdpListener (Addr : Type) where
  running : Bool
  lastPeer : Option Addr
  events : List IoEvent
  wire : List (UdpDatagram Addr)
  deriving DecidableEq

/-- A payload that a session wants to have sent, to a client or to all. -/
def IoCommand.sendable : IoCommand → Option Bytes
  | .send payload _ | .broadcast payload => some payload
  | .close => none

def IoEvent.isError : IoEvent → Bool
  | .error _ => true
  | _ => false

def IoEvent.isOfClient : IoEvent → Bool
  | .clientJoined _ _ | .clientLeft _ => true
  | _ => false

section
variable {Addr : Type} (display : Addr → String)

def UdpDatagram.event (d : UdpDatagram Addr) : IoEvent :=
  .frame d.direction d.payload (some (display d.peer))

def UdpDatagram.frame (d : UdpDatagram Addr) : Frame :=
  { Frame.new 0 d.direction d.payload with peer := some (display d.peer) }

namespace UdpListener

/-- What is sent when the socket is bound. -/
def hello (addr : String) : List IoEvent :=
  [.status ("udp listening on " ++ addr), .connected ("listen:" ++ addr)]

def noPeer : IoEvent := .error "no peer yet to reply to"

/-- `run_udp_listen` on a socket that is bound. -/
def start (addr : String) : UdpListener Addr where
  running := true
  lastPeer := none
  events := hello addr
  wire := []

/-- The task is over, and its session is told why. -/
def fail (s : UdpListener Addr) (message : String) : UdpListener Addr :=
  { s with running := false, events := s.events ++ [.error message] }

/-- The socket has done this. -/
def tell (s : UdpListener Addr) (d : UdpDatagram Addr) : UdpListener Addr :=
  { s with events := s.events ++ [d.event display], wire := s.wire ++ [d] }

/-- A datagram that is longer than the buffer is cut. -/
def onReceive (s : UdpListener Addr) : Except String (Bytes × Addr) → UdpListener Addr
  | .ok (data, peer) =>
    { s with lastPeer := some peer }.tell display ⟨.inward, data.take 65535, peer⟩
  | .error e => s.fail e

/-- Nobody has written yet. -/
def unheard (s : UdpListener Addr) : UdpListener Addr := { s with events := s.events ++ [noPeer] }

def onPayload (s : UdpListener Addr) (payload : Bytes) (written : Except String Unit) :
    UdpListener Addr :=
  match s.lastPeer with
  | none => s.unheard
  | some peer =>
    match written with
    | .ok _ => s.tell display ⟨.outward, payload, peer⟩
    | .error e => s.fail e

def onCommand (s : UdpListener Addr) (cmd : Option IoCommand) (written : Except String Unit) :
    UdpListener Addr :=
  match cmd with
  | none | some .close => { s with running := false }
  | some (.send payload _) | some (.broadcast payload) => s.onPayload display payload written

end UdpListener

/-- A session and its task, with how many of the commands are taken and how many of the events
are handled. It is in a tab until that is closed. -/
structure UdpListening (Addr : Type) where
  session : ListenSession
  task : UdpListener Addr
  taken : Nat := 0
  handled : Nat := 0
  inTab : Bool := true

inductive UdpAct (Addr : Type) where
  | receive (result : Except String (Bytes × Addr))
  | take (written : Except String Unit)
  | handle
  | user (act : ListenAct)
  | close

namespace UdpListening

def start (maxFrames : Nat) (addr : String) : UdpListening Addr where
  session := .start maxFrames
  task := .start addr

def step (matchesFilter : String → Frame → Bool) (s : UdpListening Addr) :
    UdpAct Addr → Option (UdpListening Addr)
  | .receive result =>
    if s.task.running then some { s with task := s.task.onReceive display result } else none
  | .take written =>
    if s.task.running then
      match s.session.commands[s.taken]? with
      | some cmd =>
        some { s with task := s.task.onCommand display (some cmd) written, taken := s.taken + 1 }
      | none =>
        -- a channel without its sender ends when it is empty
        if s.inTab then none else some { s with task := s.task.onCommand display none written }
    else none
  | .handle =>
    if s.inTab then
      s.task.events[s.handled]?.map fun event =>
        { s with session := s.session.onIo matchesFilter event, handled := s.handled + 1 }
    else none
  | .user (.io _) => none
  | .user act =>
    if s.inTab then some { s with session := s.session.step matchesFilter act } else none
  | .close => some { s with inTab := false }

end UdpListening

end

/- The wire. -/

section
variable {Addr : Type} {wire : List (UdpDatagram Addr)} {d : UdpDatagram Addr}

def lastSender (wire : List (UdpDatagram Addr)) : Option Addr :=
  ((wire.filter (·.direction = .inward)).getLast?).map (·.peer)

def sentPayloads (wire : List (UdpDatagram Addr)) : List Bytes :=
  (wire.filter (·.direction = .outward)).map (·.payload)

/-- What went out went to who the last datagram before it came from. -/
def UdpAnswered (wire : List (UdpDatagram Addr)) : Prop :=
  ∀ pre d post, wire = pre ++ d :: post → d.direction = .outward → lastSender pre = some d.peer

theorem lastSender_inward (inward : d.direction = .inward) :
    lastSender (wire ++ [d]) = some d.peer := by
  simp [lastSender, inward]

theorem lastSender_outward (outward : d.direction = .outward) :
    lastSender (wire ++ [d]) = lastSender wire := by
  simp [lastSender, outward]

theorem sentPayloads_inward (inward : d.direction = .inward) :
    sentPayloads (wire ++ [d]) = sentPayloads wire := by
  simp [sentPayloads, inward]

theorem sentPayloads_outward (outward : d.direction = .outward) :
    sentPayloads (wire ++ [d]) = sentPayloads wire ++ [d.payload] := by
  simp [sentPayloads, outward]

theorem UdpAnswered.snoc (answered : UdpAnswered wire)
    (last : d.direction = .outward → lastSender wire = some d.peer) : UdpAnswered (wire ++ [d]) := by
  intro pre e post same outward
  rcases List.eq_nil_or_concat post with rfl | ⟨post, x, rfl⟩
  · obtain ⟨rfl, own⟩ := List.append_inj' same rfl
    cases own
    exact last outward
  · rw [List.concat_eq_append, ← List.cons_append, ← List.append_assoc] at same
    exact answered pre e post (List.append_inj' same rfl).1 outward

end

/- The task, by the commands it has taken. -/

section
variable {Addr : Type} {display : Addr → String} {addr : String} {taken : List IoCommand}
  {task : UdpListener Addr}

/-- What there was to send before anyone had written, and the last payload and event of a task
that failed. -/
structure UdpExtra where
  early : List Bytes := []
  failed : List Bytes := []
  last : List IoEvent := []

/-- The events and the commands, by what was on the wire. -/
structure UdpAccount (display : Addr → String) (addr : String) (taken : List IoCommand)
    (task : UdpListener Addr) (extra : UdpExtra) : Prop where
  events : task.events = UdpListener.hello addr ++
    (List.replicate extra.early.length UdpListener.noPeer ++
      (task.wire.map (UdpDatagram.event display) ++ extra.last))
  commands : taken.filterMap IoCommand.sendable =
    extra.early ++ (sentPayloads task.wire ++ extra.failed)
  answered : UdpAnswered task.wire
  peer : task.lastPeer = lastSender task.wire
  quiet : task.lastPeer = none → task.wire = []
  failed : extra.failed.length ≤ 1
  last : ∀ e ∈ extra.last, ∃ message, e = .error message
  running : task.running = true → extra.failed = [] ∧ extra.last = []

namespace UdpAccount

theorem start (display : Addr → String) (addr : String) :
    UdpAccount display addr [] (.start addr) {} where
  events := rfl
  commands := rfl
  answered := by
    intro pre d post same
    cases pre <;> cases same
  peer := rfl
  quiet := fun _ => rfl
  failed := Nat.zero_le 1
  last := nofun
  running := fun _ => ⟨rfl, rfl⟩

section
variable {early : List Bytes} (held : UdpAccount display addr taken task { early := early })
include held

/-- The task is over, and the command that it took last may be lost. -/
theorem fail (message : String) {cmd : IoCommand} {payload : Bytes}
    (asked : cmd.sendable = some payload) (known : task.lastPeer ≠ none) :
    UdpAccount display addr (taken ++ [cmd]) (task.fail message)
      ⟨early, [payload], [.error message]⟩ where
  events := by simp [UdpListener.fail, held.events]
  commands := by simp [UdpListener.fail, held.commands, asked]
  answered := held.answered
  peer := held.peer
  quiet := fun none => absurd none known
  failed := le_rfl
  last := by simp
  running := nofun

theorem interrupted (message : String) :
    UdpAccount display addr taken (task.fail message) ⟨early, [], [.error message]⟩ where
  events := by simp [UdpListener.fail, held.events]
  commands := held.commands
  answered := held.answered
  peer := held.peer
  quiet := held.quiet
  failed := Nat.zero_le 1
  last := by simp
  running := nofun

theorem stop {more : List IoCommand} (nothing : more.filterMap IoCommand.sendable = []) :
    UdpAccount display addr (taken ++ more) { task with running := false } { early := early } where
  events := held.events
  commands := by rw [List.filterMap_append, nothing, List.append_nil, held.commands]
  answered := held.answered
  peer := held.peer
  quiet := held.quiet
  failed := Nat.zero_le 1
  last := nofun
  running := nofun

theorem arrived (data : Bytes) (peer : Addr) :
    UdpAccount display addr taken (task.onReceive display (.ok (data, peer)))
      { early := early } where
  events := by simp [UdpListener.onReceive, UdpListener.tell, held.events]
  commands := by
    rw [UdpListener.onReceive, UdpListener.tell, sentPayloads_inward rfl]
    exact held.commands
  answered := held.answered.snoc nofun
  peer := by rw [UdpListener.onReceive, UdpListener.tell, lastSender_inward rfl]
  quiet := nofun
  failed := Nat.zero_le 1
  last := nofun
  running := fun _ => ⟨rfl, rfl⟩

/-- A payload is told to be without a receiver as long as nothing has come. -/
theorem unanswered {cmd : IoCommand} {payload : Bytes} (asked : cmd.sendable = some payload)
    (unknown : task.lastPeer = none) :
    UdpAccount display addr (taken ++ [cmd]) task.unheard
      { early := early ++ [payload] } where
  events := by
    simp [UdpListener.unheard, held.events, held.quiet unknown, List.replicate_succ']
  commands := by
    have none : sentPayloads task.wire = [] := by rw [held.quiet unknown]; rfl
    simp [UdpListener.unheard, held.commands, asked, none]
  answered := held.answered
  peer := held.peer
  quiet := held.quiet
  failed := Nat.zero_le 1
  last := nofun
  running := fun _ => ⟨rfl, rfl⟩

theorem sent {cmd : IoCommand} {payload : Bytes} (asked : cmd.sendable = some payload) {peer : Addr}
    (known : task.lastPeer = some peer) :
    UdpAccount display addr (taken ++ [cmd]) (task.tell display ⟨.outward, payload, peer⟩)
      { early := early } where
  events := by simp [UdpListener.tell, held.events]
  commands := by
    rw [UdpListener.tell, sentPayloads_outward rfl]
    simp [held.commands, asked]
  answered := held.answered.snoc fun _ => held.peer.symm.trans known
  peer := by
    rw [UdpListener.tell, lastSender_outward rfl]
    exact held.peer
  quiet := fun none => nomatch known.symm.trans none
  failed := Nat.zero_le 1
  last := nofun
  running := fun _ => ⟨rfl, rfl⟩

end

variable {extra : UdpExtra}

/-- A task that runs has not failed. -/
theorem of_running (held : UdpAccount display addr taken task extra)
    (running : task.running = true) :
    UdpAccount display addr taken task { early := extra.early } := by
  obtain ⟨early, failed, last⟩ := extra
  obtain ⟨rfl, rfl⟩ := held.running running
  exact held

theorem receive (held : UdpAccount display addr taken task extra) (running : task.running = true)
    (result : Except String (Bytes × Addr)) :
    ∃ extra, UdpAccount display addr taken (task.onReceive display result) extra := by
  cases result with
  | ok datagram => exact ⟨_, (held.of_running running).arrived datagram.1 datagram.2⟩
  | error e => exact ⟨_, (held.of_running running).interrupted e⟩

theorem command (held : UdpAccount display addr taken task extra) (running : task.running = true)
    (cmd : IoCommand) (written : Except String Unit) :
    ∃ extra, UdpAccount display addr (taken ++ [cmd]) (task.onCommand display (some cmd) written)
      extra := by
  have held := held.of_running running
  have wanted : ∀ payload, cmd.sendable = some payload →
      ∃ extra, UdpAccount display addr (taken ++ [cmd])
        (task.onPayload display payload written) extra := by
    intro payload asked
    unfold UdpListener.onPayload
    cases known : task.lastPeer with
    | none => exact ⟨_, held.unanswered asked known⟩
    | some peer =>
      cases written with
      | ok => exact ⟨_, held.sent asked known⟩
      | error e => exact ⟨_, held.fail e asked (by rw [known]; nofun)⟩
  cases cmd with
  | send payload _ => exact wanted payload rfl
  | broadcast payload => exact wanted payload rfl
  | close => exact ⟨_, held.stop rfl⟩

theorem ended (held : UdpAccount display addr taken task extra) (running : task.running = true)
    (written : Except String Unit) :
    ∃ extra, UdpAccount display addr taken (task.onCommand display none written) extra := by
  have nothing : ([] : List IoCommand).filterMap IoCommand.sendable = [] := rfl
  have stopped := (held.of_running running).stop nothing
  rw [List.append_nil] at stopped
  exact ⟨_, stopped⟩

/-- No event is of a client. -/
theorem events_apart (held : UdpAccount display addr taken task extra) :
    ∀ event ∈ task.events, event.isOfClient = false := by
  intro event member
  rw [held.events] at member
  simp only [List.mem_append, UdpListener.hello, List.mem_cons, List.not_mem_nil, or_false,
    List.mem_replicate, List.mem_map] at member
  rcases member with (rfl | rfl) | ⟨-, rfl⟩ | ⟨d, -, rfl⟩ | late
  · rfl
  · rfl
  · rfl
  · rfl
  · obtain ⟨message, rfl⟩ := held.last event late
    rfl

end UdpAccount

end

/- The session, by the events it has handled. -/

/-- What nobody joins has no client to name in a command. -/
structure ShowsEvents (maxFrames : Nat) (handled : List IoEvent) (s : ListenSession) : Prop where
  frames : s.frames = handled.foldl FrameBuffer.log (.new maxFrames)
  status : s.status = handled.foldl SessionKind.listen.statusAfter .listening
  clients : s.clients = []
  nobody : s.selectedClient = none
  commands : ∀ cmd ∈ s.commands, ∃ payload, cmd = .send payload none ∨ cmd = .broadcast payload

namespace ShowsEvents

variable {maxFrames : Nat} {handled : List IoEvent} {s : ListenSession}

theorem start (maxFrames : Nat) : ShowsEvents maxFrames [] (.start maxFrames) where
  frames := rfl
  status := rfl
  clients := rfl
  nobody := rfl
  commands := nofun

theorem handle (shows : ShowsEvents maxFrames handled s)
    (matchesFilter : String → Frame → Bool) {event : IoEvent} (apart : event.isOfClient = false) :
    ShowsEvents maxFrames (handled ++ [event]) (s.onIo matchesFilter event) ∧
      (s.onIo matchesFilter event).commands = s.commands := by
  have after : ∀ {t : ListenSession}, t.frames = s.frames.log event →
      t.status = SessionKind.listen.statusAfter s.status event → t.clients = s.clients →
      t.selectedClient = s.selectedClient → t.commands = s.commands →
      ShowsEvents maxFrames (handled ++ [event]) t ∧ t.commands = s.commands := by
    intro t frames status clients nobody commands
    refine ⟨⟨?_, ?_, clients.trans shows.clients, nobody.trans shows.nobody, ?_⟩, commands⟩
    · rw [frames, shows.frames, List.foldl_append, List.foldl_cons, List.foldl_nil]
    · rw [status, shows.status, List.foldl_append, List.foldl_cons, List.foldl_nil]
    · rw [commands]
      exact shows.commands
  cases event with
  | frame direction payload peer =>
    have none : countFrame direction payload.length peer s.clients = s.clients := by
      rw [shows.clients]
      cases peer <;> rfl
    unfold ListenSession.onIo
    dsimp only
    split
    · exact after rfl rfl none rfl rfl
    · exact after rfl rfl none rfl rfl
  | clientJoined => cases apart
  | clientLeft => cases apart
  | connected => exact after rfl rfl rfl rfl rfl
  | disconnected => exact after rfl rfl rfl rfl rfl
  | error => exact after rfl rfl rfl rfl rfl
  | status => exact after rfl rfl rfl rfl rfl

theorem user (shows : ShowsEvents maxFrames handled s)
    (matchesFilter : String → Frame → Bool) {act : ListenAct} (own : ∀ event, act ≠ .io event) :
    ShowsEvents maxFrames handled (s.step matchesFilter act) ∧
      ∃ more, (s.step matchesFilter act).commands = s.commands ++ more := by
  have same : ∀ {t : ListenSession}, t.frames = s.frames → t.status = s.status →
      t.clients = s.clients → t.selectedClient = s.selectedClient → t.commands = s.commands →
      ShowsEvents maxFrames handled t ∧ ∃ more, t.commands = s.commands ++ more := by
    intro t frames status clients nobody commands
    exact ⟨⟨frames.trans shows.frames, status.trans shows.status, clients.trans shows.clients,
      nobody.trans shows.nobody, commands ▸ shows.commands⟩, [],
      commands.trans (List.append_nil _).symm⟩
  have asks : ∀ {cmd : IoCommand},
      (∃ payload, cmd = .send payload none ∨ cmd = .broadcast payload) →
      ShowsEvents maxFrames handled { s with commands := s.commands ++ [cmd] } := by
    intro cmd plain
    refine ⟨shows.frames, shows.status, shows.clients, shows.nobody, fun c member => ?_⟩
    rcases List.mem_append.mp member with before | new
    · exact shows.commands c before
    · rw [List.mem_singleton.mp new]
      exact plain
  cases act with
  | io event => exact absurd rfl (own event)
  | nav delta =>
    rw [ListenSession.step, ListenSession.nav, if_pos shows.clients]
    split
    · exact same rfl rfl rfl rfl rfl
    · exact same rfl rfl rfl rfl rfl
  | selectClientIndex idx =>
    rw [ListenSession.step, ListenSession.selectClientIndex, shows.clients]
    exact same rfl rfl rfl rfl rfl
  | sendComposer decoded =>
    cases decoded with
    | error e => exact same rfl rfl rfl rfl rfl
    | ok bytes =>
      rw [ListenSession.step, ListenSession.sendComposer]
      split
      · exact ⟨asks ⟨bytes, .inr rfl⟩, _, rfl⟩
      · exact ⟨asks ⟨bytes, .inl (by rw [shows.nobody])⟩, _, rfl⟩
  | setFocus focus => exact same rfl rfl rfl rfl rfl
  | setBroadcast broadcast => exact same rfl rfl rfl rfl rfl
  | setFilter filter => exact same rfl rfl rfl rfl rfl

end ShowsEvents

namespace UdpListener

variable {Addr : Type} (display : Addr → String) (s : UdpListener Addr)

/-- The task takes nothing back of what it told. -/
theorem onReceive_events (result : Except String (Bytes × Addr)) :
    ∃ more, (s.onReceive display result).events = s.events ++ more := by
  cases result with
  | ok datagram => exact ⟨_, rfl⟩
  | error e => exact ⟨_, rfl⟩

theorem onCommand_events (cmd : Option IoCommand) (written : Except String Unit) :
    ∃ more, (s.onCommand display cmd written).events = s.events ++ more := by
  have wanted : ∀ payload, ∃ more,
      (s.onPayload display payload written).events = s.events ++ more := by
    intro payload
    unfold onPayload
    split
    · exact ⟨_, rfl⟩
    · split <;> exact ⟨_, rfl⟩
  cases cmd with
  | none => exact ⟨[], (List.append_nil _).symm⟩
  | some cmd =>
    cases cmd with
    | send payload _ => exact wanted payload
    | broadcast payload => exact wanted payload
    | close => exact ⟨[], (List.append_nil _).symm⟩

end UdpListener

namespace UdpListening

section
variable {Addr : Type} {display : Addr → String} {matchesFilter : String → Frame → Bool}
  {maxFrames : Nat} {addr : String} {s t : UdpListening Addr}

structure Holds (display : Addr → String) (maxFrames : Nat) (addr : String)
    (s : UdpListening Addr) : Prop where
  task : ∃ extra, UdpAccount display addr (s.session.commands.take s.taken) s.task extra
  session : ShowsEvents maxFrames (s.task.events.take s.handled) s.session
  taken : s.taken ≤ s.session.commands.length
  handled : s.handled ≤ s.task.events.length

theorem holds_start : Holds display maxFrames addr (start maxFrames addr) where
  task := ⟨{}, .start display addr⟩
  session := .start maxFrames
  taken := Nat.zero_le _
  handled := Nat.zero_le _

/-- What the task does changes nothing of what is handled. -/
theorem Holds.tasked (holds : Holds display maxFrames addr s) {task : UdpListener Addr}
    {taken : Nat} (told : ∃ more, task.events = s.task.events ++ more)
    (accounted : ∃ extra, UdpAccount display addr (s.session.commands.take taken) task extra)
    (few : taken ≤ s.session.commands.length) :
    Holds display maxFrames addr { s with task := task, taken := taken } := by
  obtain ⟨more, told⟩ := told
  refine ⟨accounted, ?_, few, ?_⟩
  · change ShowsEvents maxFrames (task.events.take s.handled) s.session
    rw [told, List.take_append_of_le_length holds.handled]
    exact holds.session
  · change s.handled ≤ task.events.length
    rw [told, List.length_append]
    exact Nat.le_add_right_of_le holds.handled

theorem holds_step (holds : Holds display maxFrames addr s) {act : UdpAct Addr}
    (move : s.step display matchesFilter act = some t) : Holds display maxFrames addr t := by
  obtain ⟨extra, accounted⟩ := holds.task
  cases act with
  | receive result =>
    rw [step] at move
    split at move
    · next running =>
      cases move
      exact holds.tasked (s.task.onReceive_events display result)
        (accounted.receive running result) holds.taken
    · cases move
  | take written =>
    rw [step] at move
    split at move
    · next running =>
      split at move
      · next cmd found =>
        cases move
        have next : s.session.commands.take (s.taken + 1) =
            s.session.commands.take s.taken ++ [cmd] := by
          rw [List.take_add_one, found, Option.toList_some]
        exact holds.tasked (s.task.onCommand_events display (some cmd) written)
          (next ▸ accounted.command running cmd written)
          (List.getElem?_eq_some_iff.mp found).1
      · split at move
        · cases move
        · cases move
          exact holds.tasked (s.task.onCommand_events display none written)
            (accounted.ended running written) holds.taken
    · cases move
  | handle =>
    rw [step] at move
    split at move
    · obtain ⟨event, found, same⟩ := Option.map_eq_some_iff.mp move
      subst same
      obtain ⟨shows, commands⟩ := holds.session.handle matchesFilter
        (accounted.events_apart event (List.mem_of_getElem? found))
      have next : s.task.events.take (s.handled + 1) = s.task.events.take s.handled ++ [event] := by
        rw [List.take_add_one, found, Option.toList_some]
      refine ⟨⟨extra, ?_⟩, ?_, ?_, (List.getElem?_eq_some_iff.mp found).1⟩
      · change UdpAccount display addr (List.take s.taken _) s.task extra
        rwa [commands]
      · change ShowsEvents maxFrames (s.task.events.take (s.handled + 1)) _
        rwa [next]
      · change s.taken ≤ _
        rw [commands]
        exact holds.taken
    · cases move
  | user act =>
    have own : ∀ event, act ≠ .io event := by
      rintro event rfl
      cases move
    have there : ∃ session, session = s.session.step matchesFilter act ∧
        t = { s with session := session } := by
      cases act with
      | io event => exact absurd rfl (own event)
      | _ =>
        rw [step] at move
        · split at move
          · exact ⟨_, rfl, (Option.some.inj move).symm⟩
          · cases move
        · nofun
    obtain ⟨session, made, rfl⟩ := there
    obtain ⟨shows, more, commands⟩ := holds.session.user matchesFilter own
    rw [← made] at shows commands
    refine ⟨⟨extra, ?_⟩, shows, ?_, holds.handled⟩
    · change UdpAccount display addr (session.commands.take s.taken) s.task extra
      rwa [commands, List.take_append_of_le_length holds.taken]
    · change s.taken ≤ session.commands.length
      rw [commands, List.length_append]
      exact Nat.le_add_right_of_le holds.taken
  | close =>
    cases move
    exact ⟨⟨extra, accounted⟩, holds.session, holds.taken, holds.handled⟩

/- What is seen of it. -/

theorem log_quiet {events : List IoEvent} (quiet : ∀ e ∈ events, e.isFrame = false)
    (buf : FrameBuffer) : events.foldl FrameBuffer.log buf = buf := by
  induction events with
  | nil => rfl
  | cons e events ih =>
    obtain ⟨none, rest⟩ := List.forall_mem_cons.mp quiet
    rw [List.foldl_cons]
    cases e with
    | frame => cases none
    | _ => exact ih rest

theorem log_wire (wire : List (UdpDatagram Addr)) (buf : FrameBuffer) :
    (wire.map (UdpDatagram.event display)).foldl FrameBuffer.log buf =
      buf.pushAll (wire.map (UdpDatagram.frame display)) := by
  rw [FrameBuffer.pushAll, List.foldl_map, List.foldl_map]
  rfl

theorem status_told {events : List IoEvent}
    (told : ∀ e ∈ events, e.isFrame = true ∨ e.isError = true) (status : ConnStatus) :
    events.foldl SessionKind.listen.statusAfter status =
      if events.any IoEvent.isError then .error else status := by
  induction events generalizing status with
  | nil => rfl
  | cons e events ih =>
    obtain ⟨first, rest⟩ := List.forall_mem_cons.mp told
    rw [List.foldl_cons, ih rest]
    cases e with
    | error => simp [IoEvent.isError, SessionKind.statusAfter]
    | frame => rfl
    | _ => rcases first with first | first <;> cases first

/-- The log and the status of a session, by what its task has told. -/
theorem seen {taken : List IoCommand} {extra : UdpExtra}
    (accounted : UdpAccount display addr taken s.task extra)
    (shows : ShowsEvents maxFrames (s.task.events.take s.handled) s.session) :
    s.session.frames = (FrameBuffer.new maxFrames).pushAll
        ((s.task.wire.take (s.handled - 2 - extra.early.length)).map (UdpDatagram.frame display)) ∧
      s.session.status =
        if ((List.replicate extra.early.length UdpListener.noPeer).take (s.handled - 2) ++
          ((s.task.wire.take (s.handled - 2 - extra.early.length)).map (UdpDatagram.event display) ++
            extra.last.take (s.handled - 2 - extra.early.length - s.task.wire.length))).any
              IoEvent.isError
        then .error else .listening := by
  have handled : s.task.events.take s.handled = (UdpListener.hello addr).take s.handled ++
      ((List.replicate extra.early.length UdpListener.noPeer).take (s.handled - 2) ++
        ((s.task.wire.take (s.handled - 2 - extra.early.length)).map (UdpDatagram.event display) ++
          extra.last.take (s.handled - 2 - extra.early.length - s.task.wire.length))) := by
    rw [accounted.events, List.take_append, List.take_append, List.take_append,
      List.length_replicate, List.length_map, List.map_take]
    rfl
  have greeted : ∀ e ∈ (UdpListener.hello addr).take s.handled, e.isFrame = false := by
    intro e member
    have listed := List.mem_of_mem_take member
    rw [UdpListener.hello, List.mem_cons, List.mem_singleton] at listed
    rcases listed with rfl | rfl <;> rfl
  have refused : ∀ e ∈ (List.replicate extra.early.length UdpListener.noPeer).take (s.handled - 2),
      e = UdpListener.noPeer :=
    fun e member => (List.mem_replicate.mp (List.mem_of_mem_take member)).2
  have late : ∀ {n : Nat}, ∀ e ∈ extra.last.take n, ∃ message, e = .error message :=
    fun e member => accounted.last e (List.mem_of_mem_take member)
  constructor
  · rw [shows.frames, handled, List.foldl_append, List.foldl_append, List.foldl_append,
      log_quiet greeted, log_quiet fun e member => by obtain ⟨message, rfl⟩ := late e member; rfl,
      log_wire, log_quiet fun e member => by rw [refused e member]; rfl]
  · have listening : ((UdpListener.hello addr).take s.handled).foldl
        SessionKind.listen.statusAfter .listening = .listening := by
      rcases s.handled with _ | _ | n
      · rfl
      · rfl
      · rw [UdpListener.hello, List.take_succ_cons, List.take_succ_cons, List.take_nil]
        rfl
    rw [shows.status, handled, List.foldl_append, listening, status_told]
    intro e member
    rcases List.mem_append.mp member with early | later
    · exact .inr (by rw [refused e early]; rfl)
    · rcases List.mem_append.mp later with wire | last
      · obtain ⟨d, -, rfl⟩ := List.mem_map.mp wire
        exact .inl rfl
      · obtain ⟨message, rfl⟩ := late e last
        exact .inr rfl

/-- Whatever datagrams come, whatever is typed and in whichever order the task and the session
turn to it: what goes out goes to who the last datagram came from; what is typed is sent once
each, in order, but for what came before the first datagram and for the last one of a task that
failed; the log is what was on the wire; and a payload that came too early leaves the session in
error, for as long as it runs. -/
theorem replies_to_last_sender
    (reached : Reachable (step display matchesFilter) (start maxFrames addr) s) :
    ∃ (early failed : List Bytes) (last : List IoEvent),
      UdpAnswered s.task.wire ∧
      (∀ cmd ∈ s.session.commands, ∃ payload, cmd = .send payload none ∨ cmd = .broadcast payload) ∧
      (s.session.commands.take s.taken).filterMap IoCommand.sendable =
        early ++ (sentPayloads s.task.wire ++ failed) ∧
      s.task.events = UdpListener.hello addr ++
        (List.replicate early.length UdpListener.noPeer ++
          (s.task.wire.map (UdpDatagram.event display) ++ last)) ∧
      failed.length ≤ 1 ∧ (s.task.running = true → failed = [] ∧ last = []) ∧
      s.session.frames = (FrameBuffer.new maxFrames).pushAll
        ((s.task.wire.take (s.handled - 2 - early.length)).map (UdpDatagram.frame display)) ∧
      (early ≠ [] → 2 < s.handled → s.session.status = .error) ∧
      (early = [] → s.task.running = true → s.session.status = .listening) := by
  have holds : Holds display maxFrames addr s :=
    reached.invariant holds_start fun _ _ _ holds move => holds_step holds move
  obtain ⟨extra, accounted⟩ := holds.task
  obtain ⟨frames, status⟩ := seen accounted holds.session
  refine ⟨extra.early, extra.failed, extra.last, accounted.answered, holds.session.commands,
    accounted.commands, accounted.events, accounted.failed, accounted.running, frames, ?_, ?_⟩
  · intro some handled
    rw [status, if_pos]
    rw [List.any_append, Bool.or_eq_true]
    refine .inl (List.any_eq_true.mpr ⟨UdpListener.noPeer, ?_, rfl⟩)
    have room : min (s.handled - 2) extra.early.length ≠ 0 := by
      have long := List.length_pos_iff.mpr some
      omega
    rw [List.take_replicate]
    exact List.mem_replicate.mpr ⟨room, rfl⟩
  · intro none running
    rw [status, none, (accounted.running running).2, if_neg]
    rw [List.take_nil, List.append_nil, List.any_append, List.length_nil, List.replicate_zero,
      List.take_nil, List.any_nil, Bool.false_or, List.any_map, List.any_eq_true]
    rintro ⟨d, -, error⟩
    cases error

end

/-- A payload that is too early, then a reply to each of two senders. -/
def twoSenders : List (UdpAct String) :=
  [.user (.sendComposer (.ok [1])), .take (.ok ()), .receive (.ok ([2], "a")),
    .user (.sendComposer (.ok [3])), .receive (.ok ([4], "b")), .take (.ok ())]

theorem second_sender_answered :
    ∃ s, play (step id fun _ _ => true) (start 10 "0.0.0.0:9") twoSenders = some s ∧
      s.task.wire = [⟨.inward, [2], "a"⟩, ⟨.inward, [4], "b"⟩, ⟨.outward, [3], "b"⟩] ∧
      UdpAnswered s.task.wire := by
  obtain ⟨s, played⟩ : ∃ s, play (step id fun _ _ => true) (start 10 "0.0.0.0:9") twoSenders =
    some s := ⟨_, rfl⟩
  obtain ⟨-, -, -, answered, -⟩ := replies_to_last_sender (reachable_of_play twoSenders played)
  refine ⟨s, played, ?_, answered⟩
  cases played
  rfl

end UdpListening

end BitBeak
