import BitBeak.Lib.Runs
import BitBeak.Session.Stream

/-! Replay in a stream session. A send is encoded, written, and logged as it was written; a replay
sends what was logged. Writes are numbered in the order they are made, over all connections of the
session, and what comes of a write carries its number. -/
namespace BitBeak
open Runs Wire

/-- The transport frames what it writes; the others send a payload as one datagram or message. -/
def Cli.Target.isFramed : Cli.Target → Bool
  | .tcp _ _ | .unix _ | .tls _ _ => true
  | .udp _ _ | .ws _ _ | .http _ _ => false

/-- What the write arm of the I/O task puts on the wire for a payload. -/
def encodedFor (target : Cli.Target) (framing : FramingConfig) (payload : Bytes) :
    Except FramingError Bytes :=
  if target.isFramed then encodeOutbound framing payload else .ok payload

/-- The peer that the write arm logs. -/
def sentPeer : Cli.Target → Option String
  | .udp host port => some (Cli.joinHostPort host port)
  | _ => none

/-- A write; `replayOf` is the write whose logged frame it replays. -/
structure WireWrite where
  bytes : Bytes
  replayOf : Option Nat
  deriving DecidableEq, Repr

/-- A connection: whether its task runs, the commands it has not taken, and the events it sent that
are not handled. -/
structure StreamLink where
  running : Bool
  commands : List (IoCommand × Option Nat) := []
  events : List (IoEvent × Option Nat) := []

/-- `marks` has the number of the write for each frame of the log that is outgoing. -/
structure ReplayState where
  session : StreamSession
  marks : List (Option Nat) := []
  links : List StreamLink
  wire : List WireWrite := []

inductive ReplayAct where
  | sendBytes (payload : Bytes)
  | replaySelected
  | select (idx : Nat) (follow : Bool)
  | setFilter (filter : String)
  | reconnect
  | take (link : Nat) (written : Bool)
  | emit (link : Nat) (event : IoEvent)
  | deliver (link : Nat)

/-- Only the write arm tells of an outgoing frame. -/
def IoEvent.isOutgoing : IoEvent → Bool
  | .frame .outward _ _ => true
  | _ => false

namespace ReplayState

/-- There is no I/O task for an HTTP target. -/
def newLink (target : Cli.Target) : StreamLink where
  running := match target with
    | .http _ _ => false
    | _ => true

def start (target : Cli.Target) (framing : FramingConfig) (maxFrames : Nat) : ReplayState where
  session := .start target framing maxFrames
  links := [newLink target]

/-- The write that the selected frame is logged for. -/
def selectedMark (s : ReplayState) : Option Nat :=
  (((s.session.frames.frames.zip s.marks).filter fun x =>
    x.1.matchesFilter s.session.filter)[s.session.selected]?).bind (·.2)

/-- A command into the channel of the connection the session has. -/
def command (s : ReplayState) (cmd : IoCommand) (mark : Option Nat) : ReplayState :=
  let last := s.links.length - 1
  { s with links := s.links.modify last fun l => { l with commands := l.commands ++ [(cmd, mark)] } }

/-- The write arm of a task; `written` is whether the socket takes the bytes. An error ends it. -/
def write (s : ReplayState) (i : Nat) (l : StreamLink) (rest : List (IoCommand × Option Nat))
    (payload : Bytes) (mark : Option Nat) (written : Bool) : ReplayState :=
  match encodedFor s.session.target s.session.framing payload with
  | .ok bytes =>
    if written then
      { s with
        wire := s.wire ++ [⟨bytes, mark⟩]
        links := s.links.set i { l with
          commands := rest
          events := l.events ++
            [(.frame .outward bytes (sentPeer s.session.target), some s.wire.length)] } }
    else { s with links := s.links.set i { l with running := false, commands := rest } }
  | .error _ => { s with links := s.links.set i { l with running := false, commands := rest } }

/-- The log drops a mark with the frame it is for. -/
def logged (s : ReplayState) (event : IoEvent) (mark : Option Nat) : List (Option Nat) :=
  match event with
  | .frame _ _ _ =>
    (if s.session.frames.capacity ≤ s.marks.length then s.marks.tail else s.marks) ++ [mark]
  | _ => s.marks

def step (s : ReplayState) : ReplayAct → Option ReplayState
  | .sendBytes payload => some (s.command (StreamSession.sendBytes payload) none)
  | .replaySelected =>
    match s.session.replaySelected with
    | some cmd => some (s.command cmd s.selectedMark)
    | none => some s
  | .select idx follow => some { s with session := { s.session with selected := idx, follow := follow } }
  | .setFilter filter => some { s with session := { s.session with filter := filter } }
  | .reconnect =>
    let closed := s.command .close none
    some { closed with
      session := s.session.reconnect
      links := closed.links ++ [newLink s.session.target] }
  | .take i written =>
    match s.links[i]? with
    | some l =>
      if l.running then
        match l.commands with
        | (.close, _) :: rest =>
          some { s with links := s.links.set i { l with running := false, commands := rest } }
        | (.send payload _, mark) :: rest | (.broadcast payload, mark) :: rest =>
          some (s.write i l rest payload mark written)
        | [] => none
      else none
    | none => none
  | .emit i event =>
    match s.links[i]? with
    | some l =>
      if event.isOutgoing then none
      else some { s with links := s.links.set i { l with events := l.events ++ [(event, none)] } }
    | none => none
  | .deliver i =>
    match s.links[i]? with
    | some l =>
      match l.events with
      | (event, mark) :: rest =>
        some { s with
          session := s.session.onIo event
          marks := s.logged event mark
          links := s.links.set i { l with events := rest } }
      | [] => none
    | none => none

end ReplayState

/-- A frame that was encoded once stays as it is when it is encoded again. -/
def ReplaySafe (target : Cli.Target) (framing : FramingConfig) : Prop :=
  target.isFramed = true → framing.kind ≠ .lengthPrefixed

/- Encoding twice. -/

theorem writeLen_positive {c : LengthPrefixedCodec} {len : Nat} {front : Bytes}
    (written : c.writeLen len = .ok front) : 0 < front.length := by
  unfold LengthPrefixedCodec.writeLen at written
  split at written
  case h_8 => cases written
  case h_6 | h_7 =>
    cases written
    simp
  all_goals
    split at written
    · cases written
      simp
    · cases written

theorem encodeOutbound_longer {framing : FramingConfig} (kind : framing.kind = .lengthPrefixed)
    {payload bytes : Bytes} (encoded : encodeOutbound framing payload = .ok bytes) :
    payload.length < bytes.length := by
  simp only [encodeOutbound, kind, LengthPrefixedCodec.encode] at encoded
  cases written : (LengthPrefixedCodec.new framing.prefixSize framing.endian
      framing.maxFrame).writeLen payload.length with
  | error e =>
    rw [written] at encoded
    cases encoded
  | ok front =>
    rw [written] at encoded
    cases encoded
    have positive := writeLen_positive written
    rw [List.length_append]
    omega

section
variable {target : Cli.Target} {framing : FramingConfig}

theorem encodedFor_again {payload bytes : Bytes} (encoded : encodedFor target framing payload = .ok bytes) :
    encodedFor target framing bytes = .ok bytes ↔ ReplaySafe target framing := by
  by_cases framed : target.isFramed = true
  · simp only [encodedFor, framed, ReplaySafe, if_true, true_implies] at encoded ⊢
    cases kind : framing.kind with
    | none => simp [encodeOutbound, kind]
    | newline =>
      refine iff_of_true ?_ nofun
      have ended : bytes.getLast? = some newlineByte := by
        simp only [encodeOutbound, kind, Except.ok.injEq] at encoded
        by_cases ends : payload.getLast? = some newlineByte
        · rw [← encoded, if_pos ends, ends]
        · rw [← encoded, if_neg ends, List.getLast?_concat]
      simp only [encodeOutbound, kind, if_pos ended]
    | lengthPrefixed =>
      refine iff_of_false (fun same => ?_) (fun other => other rfl)
      exact lt_irrefl _ (encodeOutbound_longer kind same)
  · refine iff_of_true ?_ fun other => absurd other framed
    rw [encodedFor, if_neg framed]

/- What a number refers to. -/

/-- The payload is what the write of that number put on the wire. -/
def Marked (wire : List WireWrite) (payload : Bytes) (mark : Option Nat) : Prop :=
  ∀ w, mark = some w → ∃ first, wire[w]? = some first ∧ payload = first.bytes

/-- An outgoing payload has the number of its write. -/
def LogsWrite (wire : List WireWrite) (direction : Direction) (payload : Bytes)
    (mark : Option Nat) : Prop :=
  Marked wire payload mark ∧ (direction = .outward → mark.isSome = true)

theorem Marked.none {wire : List WireWrite} {payload : Bytes} : Marked wire payload none := nofun

theorem Marked.grown {wire : List WireWrite} {payload : Bytes} {mark : Option Nat}
    (marked : Marked wire payload mark) (more : List WireWrite) :
    Marked (wire ++ more) payload mark := by
  intro w number
  obtain ⟨first, there, same⟩ := marked w number
  refine ⟨first, ?_, same⟩
  rw [List.getElem?_append_left (List.getElem?_eq_some_iff.mp there).1, there]

theorem LogsWrite.grown {wire : List WireWrite} {direction : Direction} {payload : Bytes}
    {mark : Option Nat} (logs : LogsWrite wire direction payload mark) (more : List WireWrite) :
    LogsWrite (wire ++ more) direction payload mark :=
  ⟨logs.1.grown more, logs.2⟩

def IoCommand.payload : IoCommand → Bytes
  | .send payload _ | .broadcast payload => payload
  | .close => []

/-- Commands and events of a connection carry the numbers of their writes. -/
structure LinkFaithful (wire : List WireWrite) (l : StreamLink) : Prop where
  commands : ∀ x ∈ l.commands, Marked wire x.1.payload x.2
  events : ∀ x ∈ l.events, ∀ direction payload peer, x.1 = .frame direction payload peer →
    LogsWrite wire direction payload x.2

theorem LinkFaithful.grown {wire : List WireWrite} {l : StreamLink} (faithful : LinkFaithful wire l)
    (more : List WireWrite) : LinkFaithful (wire ++ more) l where
  commands x member := (faithful.commands x member).grown more
  events x member d p peer same := (faithful.events x member d p peer same).grown more

namespace ReplayState

/-- A write that replays another is the encoding of what the other put on the wire, and logged
frames, commands and events know the writes they are about. -/
structure Faithful (target : Cli.Target) (framing : FramingConfig) (s : ReplayState) : Prop where
  sameTarget : s.session.target = target
  sameFraming : s.session.framing = framing
  frames : List.Forall₂ (fun f mark => LogsWrite s.wire f.direction f.payload mark)
    s.session.frames.frames s.marks
  links : ∀ l ∈ s.links, LinkFaithful s.wire l
  written : ∀ x ∈ s.wire, ∃ payload, encodedFor target framing payload = .ok x.bytes
  replays : ∀ (k w : Nat) (x : WireWrite), s.wire[k]? = some x → x.replayOf = some w →
    ∃ first : WireWrite, w < k ∧ s.wire[w]? = some first ∧
      encodedFor target framing first.bytes = .ok x.bytes

namespace Faithful

variable {s : ReplayState}

theorem start (maxFrames : Nat) : (start target framing maxFrames).Faithful target framing where
  sameTarget := rfl
  sameFraming := rfl
  frames := .nil
  links := by
    intro l member
    cases List.mem_singleton.mp member
    exact ⟨nofun, nofun⟩
  written := nofun
  replays := nofun

/-- Nothing but the connections changes. -/
theorem withLinks (faithful : s.Faithful target framing) {links : List StreamLink}
    (each : ∀ l ∈ links, LinkFaithful s.wire l) : { s with links := links }.Faithful target framing :=
  { faithful with links := each }

theorem setLink (faithful : s.Faithful target framing) {i : Nat} {l : StreamLink}
    (good : LinkFaithful s.wire l) :
    { s with links := s.links.set i l }.Faithful target framing := by
  refine faithful.withLinks fun m member => ?_
  rcases List.mem_or_eq_of_mem_set member with old | rfl
  · exact faithful.links m old
  · exact good

theorem command (faithful : s.Faithful target framing) {cmd : IoCommand} {mark : Option Nat}
    (marked : Marked s.wire cmd.payload mark) : (s.command cmd mark).Faithful target framing := by
  refine faithful.withLinks fun m member => ?_
  obtain ⟨i, there⟩ := List.mem_iff_getElem?.mp member
  rw [List.getElem?_modify] at there
  obtain ⟨l, found, changed⟩ := Option.map_eq_some_iff.mp there
  have good := faithful.links l (List.mem_of_getElem? found)
  split at changed <;> subst changed
  · refine ⟨fun x inside => ?_, good.events⟩
    rcases List.mem_append.mp inside with old | new
    · exact good.commands x old
    · cases List.mem_singleton.mp new
      exact marked
  · exact good

/-- The selected frame's number is that of the write it is logged for. -/
theorem selected (faithful : s.Faithful target framing) {cmd : IoCommand}
    (replay : s.session.replaySelected = some cmd) :
    Marked s.wire cmd.payload s.selectedMark := by
  obtain ⟨lengths, each⟩ := List.forall₂_iff_zip.mp faithful.frames
  have shown : s.session.frames.filtered s.session.filter =
      ((s.session.frames.frames.zip s.marks).filter fun x =>
        x.1.matchesFilter s.session.filter).map Prod.fst := by
    have fronts := List.map_fst_zip lengths.le
    rw [FrameBuffer.filtered]
    nth_rewrite 1 [← fronts]
    exact List.filter_map
  obtain ⟨frame, selected, rfl⟩ := Option.map_eq_some_iff.mp replay
  rw [StreamSession.selectedFrame, shown, List.getElem?_map] at selected
  obtain ⟨x, found, rfl⟩ := Option.map_eq_some_iff.mp selected
  have inside := (List.mem_filter.mp (List.mem_of_getElem? found)).1
  rw [selectedMark, found]
  exact (each inside).1

theorem ended (faithful : s.Faithful target framing) {i : Nat} {l : StreamLink}
    (found : s.links[i]? = some l) {rest : List (IoCommand × Option Nat)}
    (fewer : ∀ x ∈ rest, x ∈ l.commands) :
    { s with links := s.links.set i { l with running := false, commands := rest } }.Faithful
      target framing := by
  have good := faithful.links l (List.mem_of_getElem? found)
  exact faithful.setLink ⟨fun x member => good.commands x (fewer x member), good.events⟩

/-- A write is the encoding of what it was told to send, and it is logged under its number. -/
theorem write (faithful : s.Faithful target framing) {i : Nat} {l : StreamLink}
    (found : s.links[i]? = some l) {rest : List (IoCommand × Option Nat)}
    (fewer : ∀ x ∈ rest, x ∈ l.commands) {payload : Bytes} {mark : Option Nat}
    (marked : Marked s.wire payload mark) (written : Bool) :
    (s.write i l rest payload mark written).Faithful target framing := by
  rw [ReplayState.write, faithful.sameTarget, faithful.sameFraming]
  split
  · next bytes encoded =>
    split
    · have good := faithful.links l (List.mem_of_getElem? found)
      have here : (s.wire ++ [⟨bytes, mark⟩])[s.wire.length]? = some ⟨bytes, mark⟩ := by simp
      constructor
      · exact faithful.sameTarget
      · exact faithful.sameFraming
      · exact faithful.frames.imp fun _ _ logs => logs.grown _
      · intro m member
        rcases List.mem_or_eq_of_mem_set member with old | rfl
        · exact (faithful.links m old).grown _
        · constructor
          · exact fun x inside => (good.commands x (fewer x inside)).grown _
          · intro x inside d p peer same
            rcases List.mem_append.mp inside with old | new
            · exact (good.events x old d p peer same).grown _
            · cases List.mem_singleton.mp new
              cases same
              refine ⟨fun w number => ?_, fun _ => rfl⟩
              cases number
              exact ⟨_, here, rfl⟩
      · intro x member
        rcases List.mem_append.mp member with old | new
        · exact faithful.written x old
        · cases List.mem_singleton.mp new
          exact ⟨payload, encoded⟩
      · intro k w x there replay
        rcases Nat.lt_or_ge k s.wire.length with old | new
        · rw [List.getElem?_append_left old] at there
          obtain ⟨first, before, original, same⟩ := faithful.replays k w x there replay
          refine ⟨first, before, ?_, same⟩
          rw [List.getElem?_append_left (before.trans old), original]
        · rw [List.getElem?_append_right new] at there
          cases List.mem_singleton.mp (List.mem_of_getElem? there)
          obtain ⟨first, original, same⟩ := marked w replay
          have before := (List.getElem?_eq_some_iff.mp original).1
          refine ⟨first, before.trans_le new, ?_, same ▸ encoded⟩
          rw [List.getElem?_append_left before, original]
    · exact faithful.ended found fewer
  · exact faithful.ended found fewer

theorem forall₂_tail {α β : Type} {R : α → β → Prop} {l : List α} {r : List β}
    (each : List.Forall₂ R l r) : List.Forall₂ R l.tail r.tail := by
  cases each with
  | nil => exact .nil
  | cons _ rest => exact rest

/-- The log and the numbers of its frames go on together. -/
theorem onIo (faithful : s.Faithful target framing) {event : IoEvent} {mark : Option Nat}
    (logs : ∀ d p peer, event = .frame d p peer → LogsWrite s.wire d p mark) :
    { s with session := s.session.onIo event, marks := s.logged event mark }.Faithful target
      framing := by
  obtain ⟨target, framing⟩ := s.session.onIo_kept event
  refine { faithful with
    sameTarget := target.trans faithful.sameTarget
    sameFraming := framing.trans faithful.sameFraming
    frames := ?_ }
  cases event with
  | frame d p peer =>
    have lengths := faithful.frames.length_eq
    have new := logs d p peer rfl
    simp only [StreamSession.onIo, FrameBuffer.pushFull, ReplayState.logged, lengths]
    refine List.rel_append ?_ (.cons new .nil)
    split
    · exact forall₂_tail faithful.frames
    · exact faithful.frames
  | _ => exact faithful.frames

theorem step (faithful : s.Faithful target framing) {a : ReplayAct} {t : ReplayState}
    (move : s.step a = some t) : t.Faithful target framing := by
  cases a with
  | sendBytes payload =>
    cases move
    exact faithful.command Marked.none
  | replaySelected =>
    simp only [ReplayState.step] at move
    split at move
    · next cmd replay =>
      cases move
      exact faithful.command (faithful.selected replay)
    · cases move
      exact faithful
  | select idx follow =>
    cases move
    exact { faithful with }
  | setFilter filter =>
    cases move
    exact { faithful with }
  | reconnect =>
    cases move
    have closed : (s.command .close none).Faithful target framing := faithful.command Marked.none
    refine { closed with
      sameTarget := faithful.sameTarget
      sameFraming := faithful.sameFraming
      links := fun l member => ?_ }
    rcases List.mem_append.mp member with old | new
    · exact closed.links l old
    · cases List.mem_singleton.mp new
      exact ⟨nofun, nofun⟩
  | take i written =>
    simp only [ReplayState.step] at move
    split at move
    · next l found =>
      split at move
      · have good := faithful.links l (List.mem_of_getElem? found)
        split at move
        · next mark rest queued =>
          cases move
          exact faithful.ended found fun x member => queued ▸ List.mem_cons_of_mem _ member
        · next payload client mark rest queued =>
          cases move
          have first := good.commands (.send payload client, mark) (queued ▸ List.mem_cons_self)
          exact faithful.write found (fun x member => queued ▸ List.mem_cons_of_mem _ member)
            first written
        · next payload mark rest queued =>
          cases move
          have first := good.commands (.broadcast payload, mark) (queued ▸ List.mem_cons_self)
          exact faithful.write found (fun x member => queued ▸ List.mem_cons_of_mem _ member)
            first written
        · cases move
      · cases move
    · cases move
  | emit i event =>
    simp only [ReplayState.step] at move
    split at move
    · next l found =>
      split at move
      · cases move
      · next other =>
        cases move
        have good := faithful.links l (List.mem_of_getElem? found)
        refine faithful.setLink ⟨good.commands, fun x inside d p peer same => ?_⟩
        rcases List.mem_append.mp inside with old | new
        · exact good.events x old d p peer same
        · cases List.mem_singleton.mp new
          refine ⟨Marked.none, fun outward => ?_⟩
          subst same outward
          exact absurd rfl other
    · cases move
  | deliver i =>
    simp only [ReplayState.step] at move
    split at move
    · next l found =>
      split at move
      · next event mark rest queued =>
        cases move
        have good := faithful.links l (List.mem_of_getElem? found)
        have handled := faithful.onIo
          (good.events (event, mark) (queued ▸ List.mem_cons_self))
        exact handled.setLink ⟨good.commands, fun x inside =>
          good.events x (queued ▸ List.mem_cons_of_mem _ inside)⟩
      · cases move
    · cases move

theorem run (maxFrames : Nat)
    (reached : Reachable ReplayState.step (.start target framing maxFrames) s) :
    s.Faithful target framing :=
  reached.invariant (.start maxFrames) fun _ _ _ held move => held.step move

end Faithful

/-- In every run: a write that replays a logged frame puts the bytes on the wire that the frame's
own write did, if and only if nothing is put in front of what is framed; and of every outgoing
frame in the log this is what a replay would write. -/
theorem replay_same_iff {maxFrames : Nat} {s : ReplayState}
    (reached : Reachable ReplayState.step (.start target framing maxFrames) s) :
    (∀ (k w : Nat) (again : WireWrite), s.wire[k]? = some again → again.replayOf = some w →
      ∃ first : WireWrite, w < k ∧ s.wire[w]? = some first ∧
        (again.bytes = first.bytes ↔ ReplaySafe target framing)) ∧
    (∀ (j : Nat) (f : Frame), s.session.frames.frames[j]? = some f → f.direction = .outward →
      ∃ (w : Nat) (first : WireWrite), s.marks[j]? = some (some w) ∧ s.wire[w]? = some first ∧
        (encodedFor target framing f.payload = .ok first.bytes ↔ ReplaySafe target framing)) := by
  have faithful := Faithful.run maxFrames reached
  constructor
  · intro k w again there replay
    obtain ⟨first, before, original, encoded⟩ := faithful.replays k w again there replay
    obtain ⟨payload, sent⟩ := faithful.written first (List.mem_of_getElem? original)
    refine ⟨first, before, original, ?_⟩
    rw [← encodedFor_again sent, encoded, Except.ok.injEq]
  · intro j f there outward
    obtain ⟨lengths, each⟩ := List.forall₂_iff_get.mp faithful.frames
    obtain ⟨inside, rfl⟩ := List.getElem?_eq_some_iff.mp there
    have logs := each j inside (lengths ▸ inside)
    simp only [List.get_eq_getElem] at logs
    obtain ⟨w, number⟩ := Option.isSome_iff_exists.mp (logs.2 outward)
    obtain ⟨first, original, same⟩ := logs.1 w number
    obtain ⟨payload, sent⟩ := faithful.written first (List.mem_of_getElem? original)
    refine ⟨w, first, ?_, original, ?_⟩
    · rw [List.getElem?_eq_getElem (lengths ▸ inside), number]
    · rw [same, encodedFor_again sent]

end ReplayState

end

/-- A send of one octet, and the replay of its frame. -/
def replayOnce : List ReplayAct :=
  [.sendBytes [0x61], .take 0 true, .deliver 0, .replaySelected, .take 0 true]

theorem replay_same_newline :
    ∃ s, Reachable ReplayState.step (.start (.tcp "peer" 7) (.fromArgs .newline 4 .big) 10) s ∧
      s.wire[1]? = some ⟨[0x61, 10], some 0⟩ ∧
      ∃ first : WireWrite, 0 < 1 ∧ s.wire[0]? = some first ∧ ([0x61, 10] = first.bytes ↔
        ReplaySafe (.tcp "peer" 7) (.fromArgs .newline 4 .big)) := by
  obtain ⟨s, played⟩ : ∃ s, play ReplayState.step
      (.start (.tcp "peer" 7) (.fromArgs .newline 4 .big) 10) replayOnce = some s := ⟨_, rfl⟩
  have reached := reachable_of_play replayOnce played
  have again : s.wire[1]? = some ⟨[0x61, 10], some 0⟩ := by
    cases played
    rfl
  exact ⟨s, reached, again, (ReplayState.replay_same_iff reached).1 1 0 _ again rfl⟩

/-- The prefix of the logged frame is sent as payload, behind another prefix. -/
theorem replay_prefixed_twice :
    ∃ s, Reachable ReplayState.step
        (.start (.tcp "peer" 7) (.fromArgs .lengthPrefixed 4 .big) 10) s ∧
      s.wire = [⟨[0, 0, 0, 1, 0x61], none⟩, ⟨[0, 0, 0, 5, 0, 0, 0, 1, 0x61], some 0⟩] := by
  obtain ⟨s, played⟩ : ∃ s, play ReplayState.step
      (.start (.tcp "peer" 7) (.fromArgs .lengthPrefixed 4 .big) 10) replayOnce = some s := ⟨_, rfl⟩
  refine ⟨s, reachable_of_play replayOnce played, ?_⟩
  cases played
  rfl

end BitBeak
