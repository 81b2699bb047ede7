import BitBeak.Frame
import BitBeak.Session.Routing

/-! The session of a listener: the list of its clients, and the one that is written to. -/
namespace BitBeak
open Wire

structure ClientInfo where
  id : UInt64
  peer : String
  bytesIn : Nat
  bytesOut : Nat
  deriving DecidableEq, Repr

inductive PaneFocus where
  | log
  | inspector
  | composer
  | clients
  deriving DecidableEq, Repr

/-- `commands` is what went into `cmd_tx`. -/
structure ListenSession where
  status : ConnStatus
  frames : FrameBuffer
  clients : List ClientInfo
  selectedClient : Option UInt64
  selected : Nat
  follow : Bool
  focus : PaneFocus
  broadcast : Bool
  filter : String
  statusMsg : String
  commands : List IoCommand
  deriving DecidableEq

/-- What a key or an event does to the session. -/
inductive ListenAct where
  | io (event : IoEvent)
  | nav (delta : Int)
  | selectClientIndex (idx : Nat)
  | sendComposer (decoded : Except String Bytes)
  | setFocus (focus : PaneFocus)
  | setBroadcast (broadcast : Bool)
  | setFilter (filter : String)

/-- `move_selection`, on the selection and whether the log follows. -/
def moveSelection (selected len : Nat) (follow : Bool) (delta : Int) : Nat × Bool :=
  if len = 0 then (0, follow)
  else
    let cur := min selected (len - 1)
    let next := if delta < 0 then cur - (-delta).toNat else min (cur + delta.toNat) (len - 1)
    (next, len ≤ next + 1)

/-- The count of the first client with that peer, if there is one. -/
def countBytes (direction : Direction) (len : Nat) (peer : String) :
    List ClientInfo → List ClientInfo
  | [] => []
  | c :: rest =>
    if c.peer = peer then
      (match direction with
        | .inward => { c with bytesIn := c.bytesIn + len }
        | .outward => { c with bytesOut := c.bytesOut + len }) :: rest
    else c :: countBytes direction len peer rest

/-- What a frame does to the counts. -/
def countFrame (direction : Direction) (len : Nat) :
    Option String → List ClientInfo → List ClientInfo
  | some peer, clients => countBytes direction len peer clients
  | none, clients => clients

namespace ListenSession

section
-- Which frames a filter shows; nothing that is proved here depends on it.
variable (matchesFilter : String → Frame → Bool)

def start (maxFrames : Nat) : ListenSession where
  status := .listening
  frames := .new maxFrames
  clients := []
  selectedClient := none
  selected := 0
  follow := true
  focus := .clients
  broadcast := false
  filter := ""
  statusMsg := "waiting for clients…"
  commands := []

def filtered (s : ListenSession) : List Frame := s.frames.frames.filter (matchesFilter s.filter)

def selectClientIndex (s : ListenSession) (idx : Nat) : ListenSession :=
  match s.clients[idx]? with
  | some c => { s with selectedClient := some c.id }
  | none => s

def sendComposer (s : ListenSession) : Except String Bytes → ListenSession
  | .error e => { s with statusMsg := e }
  | .ok bytes =>
    if s.broadcast then { s with commands := s.commands ++ [.broadcast bytes] }
    else { s with commands := s.commands ++ [.send bytes s.selectedClient] }

def onIo (s : ListenSession) : IoEvent → ListenSession
  | .connected _ => { s with status := .listening }
  | .clientJoined id peer =>
    { s with
      clients := s.clients ++ [{ id := id, peer := peer, bytesIn := 0, bytesOut := 0 }]
      selectedClient := if s.selectedClient.isNone then some id else s.selectedClient
      statusMsg := "client joined " ++ peer }
  | .clientLeft id =>
    let clients := s.clients.filter (·.id ≠ id)
    { s with
      clients := clients
      selectedClient :=
        if s.selectedClient = some id then clients.head?.map (·.id) else s.selectedClient }
  | .frame direction payload peer =>
    let s := { s with
      clients := countFrame direction payload.length peer s.clients
      frames := s.frames.pushFull direction payload peer none }
    let n := (s.filtered matchesFilter).length
    if s.follow ∧ 0 < n then { s with selected := n - 1 } else s
  | .error message => { s with status := .error, statusMsg := message }
  | .status message => { s with statusMsg := message }
  | .disconnected reason => { s with statusMsg := reason }

/-- An arrow key, with this session in front. -/
def nav (s : ListenSession) (delta : Int) : ListenSession :=
  if s.focus = .clients then
    if s.clients = [] then s
    else
      let cur := (s.clients.findIdx? (some ·.id = s.selectedClient)).getD 0
      let next := if delta < 0 then cur - 1 else min (cur + 1) (s.clients.length - 1)
      s.selectClientIndex next
  else
    let moved := moveSelection s.selected (s.filtered matchesFilter).length s.follow delta
    { s with selected := moved.1, follow := moved.2 }

def step (s : ListenSession) : ListenAct → ListenSession
  | .io event => s.onIo matchesFilter event
  | .nav delta => s.nav matchesFilter delta
  | .selectClientIndex idx => s.selectClientIndex idx
  | .sendComposer decoded => s.sendComposer decoded
  | .setFocus focus => { s with focus := focus }
  | .setBroadcast broadcast => { s with broadcast := broadcast }
  | .setFilter filter => { s with filter := filter }

def run (s : ListenSession) (acts : List ListenAct) : ListenSession :=
  acts.foldl (step matchesFilter) s

end

end ListenSession

/- Who has joined and who has left. -/

/-- The clients that joined, in the order in which they did. -/
def joinedClients (acts : List ListenAct) : List (UInt64 × String) :=
  acts.filterMap fun a =>
    match a with
    | .io (.clientJoined id peer) => some (id, peer)
    | _ => none

def leftClients (acts : List ListenAct) : List UInt64 :=
  acts.filterMap fun a =>
    match a with
    | .io (.clientLeft id) => some id
    | _ => none

/-- No id is given twice, and no client leaves before it has joined. -/
structure OrderedClients (acts : List ListenAct) : Prop where
  unique : ((joinedClients acts).map (·.1)).Nodup
  before : ∀ pre id post, acts = pre ++ .io (.clientLeft id) :: post →
    id ∈ (joinedClients pre).map (·.1)

/-- The clients that have joined and not left. -/
def presentClients (acts : List ListenAct) : List (UInt64 × String) :=
  (joinedClients acts).filter fun c => c.1 ∉ leftClients acts

section
variable {acts : List ListenAct}

theorem joinedClients_append (acts more : List ListenAct) :
    joinedClients (acts ++ more) = joinedClients acts ++ joinedClients more :=
  List.filterMap_append

theorem leftClients_append (acts more : List ListenAct) :
    leftClients (acts ++ more) = leftClients acts ++ leftClients more :=
  List.filterMap_append

theorem mem_leftClients {id : UInt64} (gone : id ∈ leftClients acts) :
    ListenAct.io (.clientLeft id) ∈ acts := by
  obtain ⟨a, member, same⟩ := List.mem_filterMap.mp gone
  split at same
  · cases same
    exact member
  · cases same

theorem OrderedClients.init {a : ListenAct} (ordered : OrderedClients (acts ++ [a])) :
    OrderedClients acts where
  unique := by
    have all := ordered.unique
    rw [joinedClients_append, List.map_append] at all
    exact (List.nodup_append.mp all).1
  before := by
    intro pre id post same
    exact ordered.before pre id (post ++ [a]) (by rw [same, List.append_assoc, List.cons_append])

theorem OrderedClients.nil : OrderedClients [] := ⟨by decide, by simp⟩

theorem OrderedClients.snoc {a : ListenAct} (ordered : OrderedClients acts)
    (unique : ((joinedClients (acts ++ [a])).map (·.1)).Nodup)
    (before : ∀ id, a = .io (.clientLeft id) → id ∈ (joinedClients acts).map (·.1)) :
    OrderedClients (acts ++ [a]) where
  unique := unique
  before := by
    intro pre id post same
    rcases List.eq_nil_or_concat post with rfl | ⟨post, last, rfl⟩
    · obtain ⟨rfl, last⟩ := List.append_inj' same rfl
      exact before id (List.singleton_inj.mp last)
    · rw [List.concat_eq_append, ← List.cons_append, ← List.append_assoc] at same
      exact ordered.before pre id post (List.append_inj' same rfl).1

/-- Who has left had joined. -/
theorem OrderedClients.left_joined (ordered : OrderedClients acts) {id : UInt64}
    (gone : id ∈ leftClients acts) : id ∈ (joinedClients acts).map (·.1) := by
  obtain ⟨pre, post, same⟩ := List.append_of_mem (mem_leftClients gone)
  have there := ordered.before pre id post same
  rw [same, joinedClients_append, List.map_append]
  exact List.mem_append_left _ there

theorem presentClients_joined {id : UInt64} {peer : String}
    (ordered : OrderedClients (acts ++ [.io (.clientJoined id peer)])) :
    presentClients (acts ++ [.io (.clientJoined id peer)]) = presentClients acts ++ [(id, peer)] := by
  have unique := ordered.unique
  have here : id ∉ leftClients acts := by
    intro gone
    rw [joinedClients_append, List.map_append] at unique
    have apart := (List.nodup_append.mp unique).2.2
    exact apart id (ordered.init.left_joined gone) id (by simp [joinedClients]) rfl
  have same : leftClients (acts ++ [.io (.clientJoined id peer)]) = leftClients acts := by
    rw [leftClients_append]
    exact List.append_nil _
  unfold presentClients
  rw [same, joinedClients_append, List.filter_append]
  congr 1
  exact List.filter_eq_self.mpr (by
    intro c member
    cases List.mem_singleton.mp member
    exact decide_eq_true here)

theorem presentClients_left {id : UInt64} :
    presentClients (acts ++ [.io (.clientLeft id)]) = (presentClients acts).filter (·.1 ≠ id) := by
  have same : joinedClients (acts ++ [.io (.clientLeft id)]) = joinedClients acts := by
    rw [joinedClients_append]
    exact List.append_nil _
  have gone : leftClients (acts ++ [.io (.clientLeft id)]) = leftClients acts ++ [id] :=
    leftClients_append _ _
  unfold presentClients
  rw [same, gone, List.filter_filter]
  apply List.filter_congr
  intro c _
  simp [and_comm]

/-- Other steps change nothing about who is there. -/
theorem presentClients_other {a : ListenAct} (joins : joinedClients [a] = [])
    (leaves : leftClients [a] = []) : presentClients (acts ++ [a]) = presentClients acts := by
  unfold presentClients
  rw [joinedClients_append, leftClients_append, joins, leaves, List.append_nil, List.append_nil]

end

/- The list of a session, as ids and peers, and its selection. -/

def ClientInfo.label (c : ClientInfo) : UInt64 × String := (c.id, c.peer)

/-- None is selected if the list is empty, else one of the list. -/
structure Roster (labels : List (UInt64 × String)) (selected : Option UInt64) : Prop where
  none_iff : selected = none ↔ labels = []
  member : ∀ id, selected = some id → id ∈ labels.map (·.1)

namespace Roster

variable {labels : List (UInt64 × String)} {selected : Option UInt64}

theorem choose {id : UInt64} (there : id ∈ labels.map (·.1)) : Roster labels (some id) where
  none_iff := by
    have some : labels ≠ [] := by
      intro none
      rw [none] at there
      cases there
    simp [some]
  member := fun _ same => Option.some.inj same ▸ there

theorem join (roster : Roster labels selected) (id : UInt64) (peer : String) :
    Roster (labels ++ [(id, peer)]) (if selected.isNone then some id else selected) := by
  cases selected with
  | none => exact choose (by simp)
  | some old =>
    refine choose ?_
    rw [List.map_append]
    exact List.mem_append_left _ (roster.member old rfl)

theorem leave (roster : Roster labels selected) (id : UInt64) :
    Roster (labels.filter (·.1 ≠ id))
      (if selected = some id then (labels.filter (·.1 ≠ id)).head?.map (·.1) else selected) := by
  split
  · cases rest : labels.filter (·.1 ≠ id) with
    | nil => exact ⟨by simp, by simp⟩
    | cons c rest => exact choose (by simp)
  · next other =>
    cases selected with
    | none =>
      rw [roster.none_iff.mp rfl]
      exact ⟨by simp, by simp⟩
    | some old =>
      refine choose ?_
      obtain ⟨c, member, same⟩ := List.mem_map.mp (roster.member old rfl)
      refine List.mem_map.mpr ⟨c, List.mem_filter.mpr ⟨member, ?_⟩, same⟩
      rw [same]
      exact decide_eq_true fun stays => other (congrArg some stays)

end Roster

theorem countBytes_labels (direction : Direction) (len : Nat) (peer : String)
    (clients : List ClientInfo) :
    (countBytes direction len peer clients).map ClientInfo.label = clients.map ClientInfo.label := by
  induction clients with
  | nil => rfl
  | cons c rest ih =>
    unfold countBytes
    split
    · cases direction <;> rfl
    · rw [List.map_cons, List.map_cons, ih]

theorem countFrame_labels (direction : Direction) (len : Nat) (peer : Option String)
    (clients : List ClientInfo) :
    (countFrame direction len peer clients).map ClientInfo.label = clients.map ClientInfo.label := by
  cases peer with
  | none => rfl
  | some p => exact countBytes_labels direction len p clients

namespace ListenSession

variable {matchesFilter : String → Frame → Bool} {s : ListenSession} {acts : List ListenAct}

/-- The list is who is there, and the selection is one of them if there is one. -/
structure Kept (s : ListenSession) (acts : List ListenAct) : Prop where
  clients : s.clients.map ClientInfo.label = presentClients acts
  roster : Roster (s.clients.map ClientInfo.label) s.selectedClient

theorem Kept.same {t : ListenSession} {a : ListenAct} (kept : Kept s acts)
    (joins : joinedClients [a] = []) (leaves : leftClients [a] = [])
    (clients : t.clients.map ClientInfo.label = s.clients.map ClientInfo.label)
    (selected : t.selectedClient = s.selectedClient) : Kept t (acts ++ [a]) where
  clients := by rw [clients, kept.clients, presentClients_other joins leaves]
  roster := by
    rw [clients, selected]
    exact kept.roster

theorem selectClientIndex_clients (s : ListenSession) (idx : Nat) :
    (s.selectClientIndex idx).clients = s.clients := by
  unfold selectClientIndex
  split <;> rfl

theorem Kept.selectClientIndex {a : ListenAct} (kept : Kept s acts) (idx : Nat)
    (joins : joinedClients [a] = []) (leaves : leftClients [a] = []) :
    Kept (s.selectClientIndex idx) (acts ++ [a]) where
  clients := by rw [selectClientIndex_clients, kept.clients, presentClients_other joins leaves]
  roster := by
    rw [selectClientIndex_clients]
    unfold ListenSession.selectClientIndex
    split
    · next c found =>
      refine Roster.choose ?_
      rw [List.map_map]
      exact List.mem_map_of_mem (List.mem_of_getElem? found)
    · exact kept.roster

theorem Kept.nav (kept : Kept s acts) (delta : Int) :
    Kept (s.nav matchesFilter delta) (acts ++ [.nav delta]) := by
  unfold ListenSession.nav
  split
  · split
    · exact kept.same rfl rfl rfl rfl
    · exact kept.selectClientIndex _ rfl rfl
  · exact kept.same rfl rfl rfl rfl

theorem Kept.onIo {event : IoEvent} (kept : Kept s acts)
    (ordered : OrderedClients (acts ++ [.io event])) :
    Kept (s.onIo matchesFilter event) (acts ++ [.io event]) := by
  cases event with
  | connected peer => exact kept.same rfl rfl rfl rfl
  | error message => exact kept.same rfl rfl rfl rfl
  | status message => exact kept.same rfl rfl rfl rfl
  | disconnected reason => exact kept.same rfl rfl rfl rfl
  | clientJoined id peer =>
    have labels : (s.onIo matchesFilter (.clientJoined id peer)).clients.map ClientInfo.label
        = s.clients.map ClientInfo.label ++ [(id, peer)] := List.map_append
    constructor
    · rw [labels, kept.clients, presentClients_joined ordered]
    · rw [labels]
      exact kept.roster.join id peer
  | clientLeft id =>
    have labels : (s.onIo matchesFilter (.clientLeft id)).clients.map ClientInfo.label
        = (s.clients.map ClientInfo.label).filter (·.1 ≠ id) := by
      rw [List.filter_map]
      rfl
    constructor
    · rw [labels, kept.clients, presentClients_left]
    · have stays := kept.roster.leave id
      rw [← labels, List.head?_map, Option.map_map] at stays
      exact stays
  | frame direction payload peer =>
    have counted := countFrame_labels direction payload.length peer s.clients
    unfold ListenSession.onIo
    dsimp only
    split
    · exact kept.same rfl rfl counted rfl
    · exact kept.same rfl rfl counted rfl

theorem Kept.step {a : ListenAct} (kept : Kept s acts) (ordered : OrderedClients (acts ++ [a])) :
    Kept (s.step matchesFilter a) (acts ++ [a]) := by
  cases a with
  | io event => exact kept.onIo ordered
  | nav delta => exact kept.nav delta
  | selectClientIndex idx => exact kept.selectClientIndex idx rfl rfl
  | sendComposer decoded =>
    have same : (s.sendComposer decoded).clients = s.clients ∧
        (s.sendComposer decoded).selectedClient = s.selectedClient := by
      unfold ListenSession.sendComposer
      split
      · exact ⟨rfl, rfl⟩
      · split <;> exact ⟨rfl, rfl⟩
    exact kept.same rfl rfl (congrArg _ same.1) same.2
  | setFocus focus => exact kept.same rfl rfl rfl rfl
  | setBroadcast broadcast => exact kept.same rfl rfl rfl rfl
  | setFilter filter => exact kept.same rfl rfl rfl rfl

theorem run_kept (maxFrames : Nat) (ordered : OrderedClients acts) :
    Kept ((start maxFrames).run matchesFilter acts) acts := by
  induction acts using List.reverseRecOn with
  | nil => exact ⟨rfl, ⟨by simp [run, start], by simp [run, start]⟩⟩
  | append_singleton acts a ih =>
    have last : (start maxFrames).run matchesFilter (acts ++ [a])
        = ((start maxFrames).run matchesFilter acts).step matchesFilter a := by
      rw [run, List.foldl_append]
      rfl
    rw [last]
    exact (ih ordered.init).step ordered

/-- Whatever events and keys come: the list is who has joined and not left, in the order of their
joins, each once; and one of them is selected unless there is none. -/
theorem clients_kept (matchesFilter : String → Frame → Bool) (maxFrames : Nat)
    (acts : List ListenAct) (ordered : OrderedClients acts) :
    let s := (start maxFrames).run matchesFilter acts
    s.clients.map (fun c => (c.id, c.peer)) = presentClients acts ∧ (s.clients.map (·.id)).Nodup ∧
      (s.selectedClient = none ↔ s.clients = []) ∧
      ∀ id, s.selectedClient = some id → id ∈ s.clients.map (·.id) := by
  intro s
  have kept : Kept s acts := run_kept maxFrames ordered
  have ids : s.clients.map (·.id) = (s.clients.map ClientInfo.label).map (·.1) := by
    rw [List.map_map]
    rfl
  refine ⟨kept.clients, ?_, ?_, ?_⟩
  · rw [ids, kept.clients]
    exact ordered.unique.sublist (List.filter_sublist.map _)
  · rw [kept.roster.none_iff, List.map_eq_nil_iff]
  · intro id chosen
    rw [ids]
    exact kept.roster.member id chosen

/-- Two clients join, and the one that is selected leaves. -/
def twoClients : List ListenAct :=
  [.io (.clientJoined 1 "a"), .io (.clientJoined 2 "b"), .io (.clientLeft 1)]

theorem twoClients_ordered : OrderedClients twoClients :=
  ((OrderedClients.nil.snoc (a := .io (.clientJoined 1 "a")) (by decide) (by simp)).snoc
    (a := .io (.clientJoined 2 "b")) (by decide) (by simp)).snoc
      (a := .io (.clientLeft 1)) (by decide) (by simp [joinedClients])

theorem second_client_selected :
    let s := (start 10).run (fun _ _ => true) twoClients
    s.clients.map (fun c => (c.id, c.peer)) = presentClients twoClients ∧
      (s.clients.map (·.id)).Nodup ∧
        (s.selectedClient = none ↔ s.clients = []) ∧
          ∀ id, s.selectedClient = some id → id ∈ s.clients.map (·.id) :=
  clients_kept (fun _ _ => true) 10 twoClients twoClients_ordered

end ListenSession

end BitBeak
