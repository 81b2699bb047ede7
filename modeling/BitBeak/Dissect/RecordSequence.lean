import BitBeak.Dissect.TlsCapture

/-! The frames of one TLS connection, given to the decryption one after another with the state
that the last has left: with which keys and under which number each record of application data
is tried. -/
namespace BitBeak
open Wire

/-- A frame and who sent it, which the program is not told. -/
structure SentFrame where
  data : Bytes
  linkType : LinkType
  fromClient : Bool

/-- Application data under the keys of a direction and a sequence number. -/
structure Attempt where
  blob : Bytes
  fromClient : Bool
  seq : UInt64
  deriving DecidableEq, Repr

theorem map_of_bind {α β γ : Type} (x : Except Fault α) (f : α → Except Fault β) (g : β → γ) :
    (x >>= f).map g = x >>= fun a => (f a).map g := by
  cases x <;> rfl

theorem bind_of_map {α β γ : Type} (x : Except Fault α) (g : α → β) (f : β → Except Fault γ) :
    x.map g >>= f = x >>= fun a => f (g a) := by
  cases x <;> rfl

section

variable (crates : Crates) (ciphers : TlsCiphers) (keylog : KeyLog)

/- The decryption of a frame with what it tries written down. -/

def openMessagesTried (cr : String) (fromClient : Bool) (seq : UInt64) (sr : Option Bytes) :
    List Bytes → List String → Except Fault (DecryptOutcome × List Attempt)
  | [], notes => return ({ notes := notes }, [])
  | blob :: blobs, notes => do
    let out ← keylog.tryDecryptAppDataExt ciphers cr blob fromClient seq sr
    if out.plaintext.isSome then
      return ({ plaintext := out.plaintext, notes := notes ++ out.notes }, [⟨blob, fromClient, seq⟩])
    else
      let (out, tried) ← openMessagesTried cr fromClient seq sr blobs (notes ++ out.notes)
      return (out, ⟨blob, fromClient, seq⟩ :: tried)

def openRecordsTried (cr : String) (fromClient : Bool) (seq : UInt64) (sr : Option Bytes) :
    Nat → Bytes → List String → Except Fault (DecryptOutcome × List Attempt)
  | 0, _, _ => .error .outOfFuel
  | fuel + 1, rest, notes =>
    if rest = [] then return ({ notes := notes }, [])
    else match crates.parseTlsPlaintext rest with
      | none => return ({ notes := notes }, [])
      | some (remain, record) => do
        let blobs := if record.recordType = .applicationData then record.msg.filterMap (·.blob?)
          else []
        let (out, tried) ← openMessagesTried ciphers keylog cr fromClient seq sr blobs notes
        if out.plaintext.isSome then return (out, tried)
        else
          let (out, more) ← openRecordsTried cr fromClient seq sr fuel remain out.notes
          return (out, tried ++ more)

/-- What a frame's handshake leaves in the state. -/
def DecryptState.noteHandshake (state : DecryptState) (cr : String) (early : Bool)
    (serverRandom : Option String) : DecryptState :=
  let state := if early then state.markEarlyData cr else state
  match serverRandom with
  | some sr => state.setServerRandom cr sr
  | none => state

def decryptTlsInFrameTried (data : Bytes) (linkType : LinkType) (state : DecryptState) :
    Except Fault ((DecryptOutcome × DecryptState) × List Attempt) := do
  match ← findTlsPayload data linkType with
  | none => return (({}, state), [])
  | some tls =>
    let fromClient := guessFromClient
    match (← extractClientRandom crates data linkType).or
        (state.connections.head?.map (·.1)) with
    | none => return (({}, state), [])
    | some cr =>
      let early ← clientHelloHasEarlyData data linkType
      let notes := if early then ["TLS 0-RTT early_data offered — not decrypted by BitBeak"] else []
      let state := state.noteHandshake cr early (← extractServerRandom crates data linkType)
      let conn := state.tracked cr
      let notes := if conn.earlyDataSeen then
          notes ++ ["TLS 0-RTT / early data — BitBeak does not decrypt early data"]
        else notes
      let serverRandom ← hexDecode conn.serverRandom
      let (seq, conn) := DecryptState.nextSeq conn fromClient
      let (out, tried) ← openRecordsTried crates ciphers keylog cr fromClient seq serverRandom
        (tls.length + 1) tls notes
      return ((out, state.put cr conn), tried)

/-- The frames one after another, with one state. -/
def decryptFrames : List SentFrame → DecryptState → Except Fault (List (List Attempt))
  | [], _ => return []
  | frame :: frames, state => do
    let ((_, state), tried) ←
      decryptTlsInFrameTried crates ciphers keylog frame.data frame.linkType state
    return tried :: (← decryptFrames frames state)

/- What is written down changes nothing. -/

theorem openMessagesTried_erased (cr : String) (fromClient : Bool) (seq : UInt64)
    (sr : Option Bytes) (blobs : List Bytes) (notes : List String) :
    (openMessagesTried ciphers keylog cr fromClient seq sr blobs notes).map (·.1) =
      openMessages ciphers keylog cr fromClient seq sr blobs notes := by
  induction blobs generalizing notes with
  | nil => rfl
  | cons blob blobs ih =>
    rw [openMessagesTried, openMessages, map_of_bind]
    refine bind_congr fun out => ?_
    rw [← ih]
    split
    · rfl
    · exact map_of_bind _ _ _

theorem openRecordsTried_erased (cr : String) (fromClient : Bool) (seq : UInt64)
    (sr : Option Bytes) (fuel : Nat) (rest : Bytes) (notes : List String) :
    (openRecordsTried crates ciphers keylog cr fromClient seq sr fuel rest notes).map (·.1) =
      openRecords crates ciphers keylog cr fromClient seq sr fuel rest notes := by
  induction fuel generalizing rest notes with
  | zero => rfl
  | succ fuel ih =>
    unfold openRecordsTried openRecords
    split
    · rfl
    · cases crates.parseTlsPlaintext rest with
      | none => rfl
      | some pair =>
        obtain ⟨remain, record⟩ := pair
        dsimp only
        rw [← openMessagesTried_erased, map_of_bind, bind_of_map]
        refine bind_congr fun result => ?_
        rw [← ih]
        split
        · rfl
        · exact map_of_bind _ _ _

theorem decryptTlsInFrameTried_erased (data : Bytes) (linkType : LinkType)
    (state : DecryptState) :
    (decryptTlsInFrameTried crates ciphers keylog data linkType state).map (·.1) =
      decryptTlsInFrameExt crates ciphers keylog data linkType state := by
  unfold decryptTlsInFrameTried decryptTlsInFrameExt
  rw [map_of_bind]
  refine bind_congr fun payload => ?_
  cases payload with
  | none => rfl
  | some tls =>
    rw [map_of_bind]
    refine bind_congr fun random => ?_
    cases random.or (state.connections.head?.map (·.1)) with
    | none => rfl
    | some cr =>
      dsimp only
      rw [map_of_bind]
      refine bind_congr fun early => ?_
      rw [map_of_bind]
      refine bind_congr fun sr => ?_
      rw [map_of_bind]
      refine bind_congr fun serverRandom => ?_
      rw [map_of_bind, ← openRecordsTried_erased, bind_of_map]
      rfl

/- What the connection asks for. -/

/-- The application data of the records in front of the first that does not parse. A record of
application data holds one message. -/
def appDataOf : Nat → Bytes → List Bytes
  | 0, _ => []
  | fuel + 1, rest =>
    if rest = [] then []
    else match crates.parseTlsPlaintext rest with
      | none => []
      | some (remain, record) =>
        (if record.recordType = .applicationData then record.msg.filterMap (·.blob?) else []) ++
          appDataOf fuel remain

namespace SentFrame

def appData (frame : SentFrame) : List Bytes :=
  match l4Payload frame.data frame.linkType with
  | .ok (some payload) => appDataOf crates (payload.length + 1) payload
  | _ => []

/-- The records of the frame with the keys of its sender and the numbers from `first` on. -/
def due (frame : SentFrame) (first : Nat) : List Attempt :=
  (frame.appData crates).mapIdx fun j blob => ⟨blob, frame.fromClient, UInt64.ofNat (first + j)⟩

end SentFrame

/-- The records of application data that a side has sent in the frames. -/
def sentBy (fromClient : Bool) (frames : List SentFrame) : Nat :=
  ((frames.filter (·.fromClient = fromClient)).map fun frame => (frame.appData crates).length).sum

/-- Every record is tried with the keys of its direction and under its number in this
direction. The frames from before come latest first. -/
def Accounted : List SentFrame → List SentFrame → List (List Attempt) → Prop
  | _, [], tried => tried = []
  | _, _ :: _, [] => False
  | earlier, frame :: frames, tried :: more =>
    tried = frame.due crates (sentBy crates frame.fromClient earlier) ∧
      Accounted (frame :: earlier) frames more

/- What the program counts. -/

namespace SentFrame

def isTls (frame : SentFrame) : Bool :=
  match findTlsPayload frame.data frame.linkType with
  | .ok (some _) => true
  | _ => false

/-- The frame has a client hello where the program looks for one. -/
def hasHello (frame : SentFrame) : Bool :=
  match extractClientRandom crates frame.data frame.linkType with
  | .ok (some _) => true
  | _ => false

/-- The frame takes a sequence number: it looks like TLS, of a connection that is known by then. -/
def takesNumber (frame : SentFrame) (earlier : List SentFrame) : Bool :=
  frame.isTls && (frame :: earlier).any (·.hasHello crates)

end SentFrame

/-- The sequence numbers that frames have taken, latest first. -/
def numbersTaken : List SentFrame → Nat
  | [] => 0
  | frame :: earlier => numbersTaken earlier + if frame.takesNumber crates earlier then 1 else 0

/-- A frame with application data has one record of it, comes from the client and takes a
number, and so many numbers were taken before as the client had sent records. -/
def SentFrame.InStep (frame : SentFrame) (earlier : List SentFrame) : Prop :=
  frame.appData crates = [] ∨
    frame.takesNumber crates earlier ∧ frame.fromClient = true ∧
      (frame.appData crates).length = 1 ∧
        numbersTaken crates earlier % 2 ^ 64 = sentBy crates true earlier % 2 ^ 64

def AllInStep : List SentFrame → List SentFrame → Prop
  | _, [] => True
  | earlier, frame :: frames => frame.InStep crates earlier ∧ AllInStep (frame :: earlier) frames

/-- All client hellos have one client random. -/
def OneConnection (random : String) (frames : List SentFrame) : Prop :=
  ∀ frame ∈ frames, ∀ cr,
    extractClientRandom crates frame.data frame.linkType = .ok (some cr) → cr = random

/- A frame tries a front of its application data under one number. -/

/-- The first records are tried, one at least if there is one. -/
def TriesFront (blobs : List Bytes) (fromClient : Bool) (seq : UInt64) (tried : List Attempt) :
    Prop :=
  ∃ k, k ≤ blobs.length ∧ (blobs ≠ [] → 0 < k) ∧
    tried = (blobs.take k).map fun blob => ⟨blob, fromClient, seq⟩

variable {crates ciphers keylog}

theorem openMessagesTried_front {cr : String} {fromClient : Bool} {seq : UInt64}
    {sr : Option Bytes} {blobs : List Bytes} {notes : List String} {out : DecryptOutcome}
    {tried : List Attempt}
    (ran : openMessagesTried ciphers keylog cr fromClient seq sr blobs notes = .ok (out, tried)) :
    TriesFront blobs fromClient seq tried ∧
      (out.plaintext.isSome → blobs ≠ []) ∧
      (¬ out.plaintext.isSome → tried = blobs.map fun blob => ⟨blob, fromClient, seq⟩) := by
  induction blobs generalizing notes out tried with
  | nil =>
    cases ran
    refine ⟨⟨0, Nat.le_refl _, fun some_data => absurd rfl some_data, rfl⟩, ?_, fun _ => rfl⟩
    intro opened
    cases opened
  | cons blob blobs ih =>
    obtain ⟨first, _, ran⟩ := ok_of_bind ran
    split at ran
    · next opened =>
      cases ran
      refine ⟨⟨1, by rw [List.length_cons]; omega, fun _ => Nat.one_pos, rfl⟩, fun _ => ?_, ?_⟩
      · exact List.cons_ne_nil _ _
      · intro closed
        exact absurd opened closed
    · obtain ⟨⟨rest, more⟩, others, ran⟩ := ok_of_bind ran
      cases ran
      obtain ⟨⟨k, within, _, known⟩, _, all⟩ := ih others
      refine ⟨⟨k + 1, ?_, fun _ => Nat.succ_pos k, ?_⟩, fun _ => List.cons_ne_nil _ _, ?_⟩
      · rw [List.length_cons]
        omega
      · rw [known, List.take_succ_cons, List.map_cons]
      · intro closed
        rw [all closed, List.map_cons]

theorem openRecordsTried_front {cr : String} {fromClient : Bool} {seq : UInt64}
    {sr : Option Bytes} {fuel : Nat} {rest : Bytes} {notes : List String} {out : DecryptOutcome}
    {tried : List Attempt}
    (ran : openRecordsTried crates ciphers keylog cr fromClient seq sr fuel rest notes =
      .ok (out, tried)) :
    TriesFront (appDataOf crates fuel rest) fromClient seq tried := by
  have nothing : TriesFront [] fromClient seq [] :=
    ⟨0, Nat.le_refl _, fun some_data => absurd rfl some_data, rfl⟩
  induction fuel generalizing rest notes out tried with
  | zero => cases ran
  | succ fuel ih =>
    unfold openRecordsTried at ran
    unfold appDataOf
    split at ran
    · next empty =>
      rw [if_pos empty]
      cases ran
      exact nothing
    · next more =>
      rw [if_neg more]
      cases parsed : crates.parseTlsPlaintext rest with
      | none =>
        rw [parsed] at ran
        cases ran
        exact nothing
      | some pair =>
        obtain ⟨remain, record⟩ := pair
        rw [parsed] at ran
        dsimp only at ran ⊢
        generalize (if record.recordType = .applicationData then record.msg.filterMap (·.blob?)
          else []) = blobs at ran ⊢
        obtain ⟨⟨first, here⟩, messages, ran⟩ := ok_of_bind ran
        obtain ⟨⟨k, within, started, known⟩, opening, all⟩ := openMessagesTried_front messages
        dsimp only at ran
        split at ran
        · next opened =>
          cases ran
          refine ⟨k, ?_, fun _ => started (opening opened), ?_⟩
          · rw [List.length_append]
            omega
          · rw [known, List.take_append_of_le_length within]
        · next closed =>
          obtain ⟨⟨last, later⟩, others, ran⟩ := ok_of_bind ran
          cases ran
          obtain ⟨j, within', started', known'⟩ := ih others
          refine ⟨blobs.length + j, ?_, ?_, ?_⟩
          · rw [List.length_append]
            omega
          · intro some_data
            cases blobs with
            | nil => exact Nat.lt_of_lt_of_le (started' some_data) (Nat.le_add_left j _)
            | cons blob blobs => exact Nat.lt_of_lt_of_le (Nat.succ_pos _) (Nat.le_add_right _ j)
          · rw [all closed, known', List.take_length_add_append, List.map_append]

end

/- A state with one connection at most. -/

theorem toLower_again (c : Char) : c.toLower.toLower = c.toLower := by
  have other : ∀ {d : Char}, ¬ ('A'.val ≤ d.val ∧ d.val ≤ 'Z'.val) → d.toLower = d :=
    fun outside => dif_neg outside
  by_cases upper : 'A'.val ≤ c.val ∧ c.val ≤ 'Z'.val
  · apply other
    have moved : c.toLower.val = c.val + 32 :=
      congrArg Char.val (dif_pos upper : c.toLower = _)
    obtain ⟨low, high⟩ := upper
    rw [moved]
    simp only [UInt32.le_iff_toNat_le, UInt32.toNat_add, Char.reduceVal, UInt32.reduceToNat]
      at low high ⊢
    omega
  · rw [other upper, other upper]

theorem toAsciiLowercase_again (text : String) :
    toAsciiLowercase (toAsciiLowercase text) = toAsciiLowercase text := by
  rw [toAsciiLowercase, toAsciiLowercase, String.toList_ofList, List.map_map]
  congr 1
  exact List.map_congr_left fun c _ => toLower_again c

namespace DecryptState

def Solo (key : String) (state : DecryptState) : Prop :=
  state.connections = [] ∨ ∃ conn, state.connections = [(key, conn)]

variable {key cr : String} {state : DecryptState}

theorem put_solo (solo : state.Solo key) (named : toAsciiLowercase cr = key)
    (conn : TlsConnection) : (state.put cr conn).connections = [(key, conn)] := by
  subst named
  rcases solo with none | ⟨old, one⟩
  · simp [put, none]
  · simp [put, one]

theorem tracked_put (solo : state.Solo key) (named : toAsciiLowercase cr = key)
    (conn : TlsConnection) : (state.put cr conn).tracked cr = conn := by
  rw [tracked, put_solo solo named, named]
  simp

theorem solo_put (solo : state.Solo key) (named : toAsciiLowercase cr = key)
    (conn : TlsConnection) : (state.put cr conn).Solo key :=
  .inr ⟨conn, put_solo solo named conn⟩

theorem tracked_congr {other : String} (same : toAsciiLowercase cr = toAsciiLowercase other) :
    state.tracked cr = state.tracked other := by
  rw [tracked, tracked, same]

/-- What is noted of a handshake leaves the number of the client's next record as it is. -/
def SameSeq (key cr : String) (before after : DecryptState) : Prop :=
  after.Solo key ∧ (after.tracked cr).clientSeq = (before.tracked cr).clientSeq

theorem markEarlyData_seq (solo : state.Solo key) (named : toAsciiLowercase cr = key) :
    SameSeq key cr state (state.markEarlyData cr) := by
  refine ⟨solo_put solo named _, ?_⟩
  rw [markEarlyData, tracked_put solo named]

theorem setServerRandom_seq (solo : state.Solo key) (named : toAsciiLowercase cr = key)
    (srHex : String) : SameSeq key cr state (state.setServerRandom cr srHex) := by
  refine ⟨solo_put solo named _, ?_⟩
  rw [setServerRandom, tracked_put solo named]
  split <;> rfl

theorem noteHandshake_seq (solo : state.Solo key) (named : toAsciiLowercase cr = key)
    (early : Bool) (serverRandom : Option String) :
    SameSeq key cr state (state.noteHandshake cr early serverRandom) := by
  have marked : SameSeq key cr state (if early then state.markEarlyData cr else state) := by
    split
    · exact markEarlyData_seq solo named
    · exact ⟨solo, rfl⟩
  unfold noteHandshake
  cases serverRandom with
  | none => exact marked
  | some sr =>
    obtain ⟨solo', same⟩ := setServerRandom_seq marked.1 named sr
    exact ⟨solo', same.trans marked.2⟩

end DecryptState

section

variable {crates : Crates} {ciphers : TlsCiphers} {keylog : KeyLog}

/-- After the frames from before, latest first, the state knows the connection if one of them
has a client hello, and has given out the numbers that were taken. -/
structure Follows (crates : Crates) (random : String) (earlier : List SentFrame)
    (state : DecryptState) : Prop where
  solo : state.Solo (toAsciiLowercase random)
  known : state.connections ≠ [] ↔ earlier.any (·.hasHello crates)
  seq : (state.tracked random).clientSeq = UInt64.ofNat (numbersTaken crates earlier)

theorem SentFrame.appData_of_tls {frame : SentFrame} {payload : Bytes}
    (tls : findTlsPayload frame.data frame.linkType = .ok (some payload)) :
    frame.appData crates = appDataOf crates (payload.length + 1) payload := by
  obtain ⟨found, l4, tls⟩ := ok_of_bind tls
  cases found with
  | none => cases tls
  | some found =>
    have same : found = payload := by
      have both : ([22, 3] <+: found ∨ [23, 3] <+: found) ∧ found = payload := by simpa using tls
      exact both.2
    rw [SentFrame.appData, l4, same]

theorem follows_nothing (random : String) : Follows crates random [] {} :=
  ⟨.inl rfl, ⟨fun some_conn => absurd rfl some_conn, fun impossible => by cases impossible⟩, rfl⟩

/-- A frame that takes no number leaves the state as it is. -/
theorem Follows.pass {random : String} {earlier : List SentFrame} {state : DecryptState}
    {frame : SentFrame} (follows : Follows crates random earlier state)
    (silent : frame.hasHello crates = false) (skipped : frame.takesNumber crates earlier = false) :
    Follows crates random (frame :: earlier) state := by
  refine ⟨follows.solo, ?_, ?_⟩
  · rw [List.any_cons, silent, Bool.false_or]
    exact follows.known
  · rw [numbersTaken, skipped]
    exact follows.seq

/-- One frame: whether it takes a number depends on the frames alone, and if it does it tries a
front of its application data with the client's keys, under the count of the numbers taken. -/
theorem decryptTlsInFrameTried_step {random : String} {earlier : List SentFrame}
    {frame : SentFrame} {state state' : DecryptState} {out : DecryptOutcome}
    {tried : List Attempt}
    (one : ∀ cr, extractClientRandom crates frame.data frame.linkType = .ok (some cr) → cr = random)
    (follows : Follows crates random earlier state)
    (ran : decryptTlsInFrameTried crates ciphers keylog frame.data frame.linkType state =
      .ok ((out, state'), tried)) :
    Follows crates random (frame :: earlier) state' ∧
      (frame.takesNumber crates earlier = false → tried = []) ∧
      (frame.takesNumber crates earlier → TriesFront (frame.appData crates) true
        (UInt64.ofNat (numbersTaken crates earlier)) tried) := by
  unfold decryptTlsInFrameTried at ran
  obtain ⟨payload, tls, ran⟩ := ok_of_bind ran
  cases payload with
  | none =>
    cases ran
    have plain : frame.isTls = false := by rw [SentFrame.isTls, tls]
    have silent : frame.hasHello crates = false := by
      rw [SentFrame.hasHello, extractClientRandom, tls]
      rfl
    have skipped : frame.takesNumber crates earlier = false := by
      rw [SentFrame.takesNumber, plain, Bool.false_and]
    refine ⟨follows.pass silent skipped, fun _ => rfl, fun taken => ?_⟩
    rw [skipped] at taken
    cases taken
  | some payload =>
    have looks : frame.isTls = true := by rw [SentFrame.isTls, tls]
    obtain ⟨found, hello, ran⟩ := ok_of_bind ran
    have greets : frame.hasHello crates = found.isSome := by
      rw [SentFrame.hasHello, hello]
      cases found <;> rfl
    have takes : frame.takesNumber crates earlier =
        (found.isSome || earlier.any (·.hasHello crates)) := by
      rw [SentFrame.takesNumber, looks, List.any_cons, greets, Bool.true_and]
    cases chosen : found.or (state.connections.head?.map (·.1)) with
    | none =>
      rw [chosen] at ran
      cases ran
      obtain ⟨rfl, unknown⟩ := Option.or_eq_none_iff.mp chosen
      have empty : state.connections = [] :=
        List.head?_eq_none_iff.mp (Option.map_eq_none_iff.mp unknown)
      have skipped : frame.takesNumber crates earlier = false := by
        rw [takes, Option.isSome_none, Bool.false_or, Bool.eq_false_iff]
        exact fun greeted => follows.known.mpr greeted empty
      refine ⟨follows.pass greets skipped, fun _ => rfl, fun taken => ?_⟩
      rw [skipped] at taken
      cases taken
    | some cr =>
      rw [chosen] at ran
      dsimp only at ran
      have named : toAsciiLowercase cr = toAsciiLowercase random := by
        rcases Option.or_eq_some_iff.mp chosen with rfl | ⟨_, head⟩
        · rw [one cr hello]
        · rcases follows.solo with empty | ⟨conn, single⟩
          · rw [empty] at head
            cases head
          · rw [single] at head
            cases head
            exact toAsciiLowercase_again random
      have taken : frame.takesNumber crates earlier = true := by
        rw [takes]
        rcases Option.or_eq_some_iff.mp chosen with rfl | ⟨_, head⟩
        · rfl
        · rw [follows.known.mp, Bool.or_true]
          intro empty
          rw [empty] at head
          cases head
      obtain ⟨early, _, ran⟩ := ok_of_bind ran
      obtain ⟨sr, _, ran⟩ := ok_of_bind ran
      obtain ⟨serverRandom, _, ran⟩ := ok_of_bind ran
      obtain ⟨⟨last, tries⟩, opened, ran⟩ := ok_of_bind ran
      obtain ⟨solo, same⟩ := DecryptState.noteHandshake_seq follows.solo named early sr
      simp only [pure_ok, Except.ok.injEq, Prod.mk.injEq] at ran
      obtain ⟨⟨rfl, rfl⟩, rfl⟩ := ran
      have number : ((state.noteHandshake cr early sr).tracked cr).clientSeq =
          UInt64.ofNat (numbersTaken crates earlier) := by
        rw [same, DecryptState.tracked_congr named, follows.seq]
      have front := openRecordsTried_front opened
      rw [← SentFrame.appData_of_tls tls, DecryptState.nextSeq, guessFromClient, if_pos rfl, number]
        at front
      refine ⟨⟨DecryptState.solo_put solo named _, ?_, ?_⟩, fun skipped => ?_, fun _ => front⟩
      · rw [DecryptState.put_solo solo named, List.any_cons, greets, ← takes, taken]
        exact ⟨fun _ => rfl, fun _ => List.cons_ne_nil _ _⟩
      · rw [← DecryptState.tracked_congr named, DecryptState.tracked_put solo named,
          DecryptState.nextSeq, guessFromClient, if_pos rfl, numbersTaken, taken, if_pos rfl,
          UInt64.ofNat_add, ← number]
        rfl
      · rw [taken] at skipped
        cases skipped

/-- The tries of one frame are those its records are due for exactly when it is in step. -/
theorem tries_due_iff {earlier : List SentFrame} {frame : SentFrame} {tried : List Attempt}
    (skips : frame.takesNumber crates earlier = false → tried = [])
    (tries : frame.takesNumber crates earlier → TriesFront (frame.appData crates) true
      (UInt64.ofNat (numbersTaken crates earlier)) tried) :
    tried = frame.due crates (sentBy crates frame.fromClient earlier) ↔
      frame.InStep crates earlier := by
  unfold SentFrame.InStep SentFrame.due
  cases data : frame.appData crates with
  | nil =>
    have none_tried : tried = [] := by
      cases taken : frame.takesNumber crates earlier with
      | false => exact skips taken
      | true =>
        obtain ⟨k, _, _, known⟩ := tries taken
        rw [known, data, List.take_nil, List.map_nil]
    rw [none_tried]
    simp
  | cons blob blobs =>
    constructor
    · intro due
      right
      have taken : frame.takesNumber crates earlier := by
        cases taken : frame.takesNumber crates earlier with
        | true => rfl
        | false =>
          rw [skips taken, List.mapIdx_cons] at due
          cases due
      obtain ⟨k, _, started, known⟩ := tries taken
      rw [data] at known started
      obtain ⟨j, rfl⟩ := Nat.exists_eq_succ_of_ne_zero
        (Nat.ne_of_gt (started (List.cons_ne_nil _ _)))
      rw [known, List.take_succ_cons, List.map_cons, List.mapIdx_cons] at due
      obtain ⟨first, others⟩ := List.cons.inj due
      obtain ⟨_, sender, number⟩ := Attempt.mk.inj first
      rw [Nat.add_zero] at number
      have counts : numbersTaken crates earlier % 2 ^ 64 =
          sentBy crates frame.fromClient earlier % 2 ^ 64 := by
        simpa using congrArg UInt64.toNat number
      have single : blobs = [] := by
        cases blobs with
        | nil => rfl
        | cons second blobs =>
          -- The second record is tried, if at all, under the number of the first.
          rw [List.mapIdx_cons] at others
          cases j with
          | zero => cases others
          | succ j =>
            rw [List.take_succ_cons, List.map_cons] at others
            obtain ⟨_, _, again⟩ := Attempt.mk.inj (List.cons.inj others).1
            have later : numbersTaken crates earlier % 2 ^ 64 =
                (sentBy crates frame.fromClient earlier + (0 + 1)) % 2 ^ 64 := by
              simpa using congrArg UInt64.toNat again
            omega
      rw [← sender] at counts
      exact ⟨taken, sender.symm, by rw [single]; rfl, counts⟩
    · rintro (impossible | ⟨taken, client, one, counts⟩)
      · cases impossible
      · have single : blobs = [] := List.eq_nil_of_length_eq_zero (Nat.succ.inj one)
        obtain ⟨k, within, started, known⟩ := tries taken
        rw [data, single] at known started within
        have all : k = 1 := Nat.le_antisymm within (started (List.cons_ne_nil _ _))
        have number : UInt64.ofNat (numbersTaken crates earlier) =
            UInt64.ofNat (sentBy crates true earlier + 0) := by
          apply UInt64.toNat.inj
          simpa using counts
        rw [known, all, single, client, number]
        rfl

theorem decryptFrames_follows {random : String} {earlier frames : List SentFrame}
    {state : DecryptState} {tried : List (List Attempt)}
    (one : OneConnection crates random frames) (follows : Follows crates random earlier state)
    (ran : decryptFrames crates ciphers keylog frames state = .ok tried) :
    Accounted crates earlier frames tried ↔ AllInStep crates earlier frames := by
  induction frames generalizing earlier state tried with
  | nil =>
    cases ran
    exact ⟨fun _ => trivial, fun _ => rfl⟩
  | cons frame frames ih =>
    obtain ⟨⟨⟨out, after⟩, here⟩, stepped, ran⟩ := ok_of_bind ran
    obtain ⟨more, others, ran⟩ := ok_of_bind ran
    cases ran
    obtain ⟨next, skips, tries⟩ := decryptTlsInFrameTried_step
      (one frame (List.mem_cons_self ..)) follows stepped
    have rest := ih (fun other member => one other (List.mem_cons_of_mem frame member)) next others
    exact and_congr (tries_due_iff skips tries) rest

def earlyFrames : List SentFrame :=
  [⟨(helloOf 1 demoSession.clientRandom).data ++ [0x17, 3, 3, 0, 2, 0x68, 0x69], .ethernet, true⟩,
    ⟨(tlsFrame 0x17 demoData.blob).data, .ethernet, true⟩]

def handshakeFrames : List SentFrame :=
  [⟨(helloOf 1 demoSession.clientRandom).data, .ethernet, true⟩,
    ⟨(helloOf 2 demoSession.serverRandom).data, .ethernet, false⟩,
    ⟨(tlsFrame 0x17 demoData.blob).data, .ethernet, true⟩]

theorem oneConnection_of_each {random : String} {frames : List SentFrame}
    (each : ∀ frame ∈ frames, extractClientRandom crates frame.data frame.linkType = .ok none ∨
      extractClientRandom crates frame.data frame.linkType = .ok (some random)) :
    OneConnection crates random frames := by
  intro frame member cr found
  rcases each frame member with none | hello
  · rw [none] at found
    cases found
  · rw [hello] at found
    cases found
    rfl

end

end BitBeak
