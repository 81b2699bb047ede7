import BitBeak.Capture.Attach
import BitBeak.Capture.Rpcap
import Mathlib.Data.Nat.ModEq

/-! The ring of blocks that a Linux capture shares with the kernel. The kernel fills blocks and
marks them for the reader; the reader walks the packets of a block and gives it back. -/
namespace BitBeak
open Wire
open Rpcap (CapturePacket)

def tpStatusKernel : Nat := 0
def tpStatusUser : Nat := 1

/-- `map` is the shared memory; block `k` begins at `k * blockSize`. -/
structure RingState where
  map : Bytes
  blockSize : Nat
  blockNr : Nat
  currentBlock : Nat
  offsetInBlock : Nat
  deriving DecidableEq, Repr

/-- What the reader does to the shared memory, beside reading headers. -/
inductive RingEvent where
  | copied (block off len : Nat)
  | returned (block : Nat)
  deriving DecidableEq, Repr

namespace RingState

def blockPtr (r : RingState) : Nat := r.currentBlock * r.blockSize

def skipBlock (r : RingState) : RingState :=
  { r with currentBlock := (r.currentBlock + 1) % r.blockNr, offsetInBlock := 0 }

def returnBlock (r : RingState) : RingState :=
  { r.skipBlock with map := overwrite r.map (r.blockPtr + 8) (toLE 4 tpStatusKernel) }

end RingState

/-- One round of the loop: on to the next block, or a packet. -/
inductive RingVisit where
  | passed (ring : RingState) (events : List RingEvent)
  | found (ring : RingState) (events : List RingEvent) (data : Bytes) (origLen : Nat)
  deriving DecidableEq, Repr

namespace RingState

/-- The packet at the offset in the current block. -/
def readPacket (ring : RingState) : Except Fault RingVisit := do
  let gaveBack := .returned ring.currentBlock
  if ring.offsetInBlock = 0 ∨ ring.blockSize ≤ ring.offsetInBlock then
    return .passed ring.returnBlock [gaveBack]
  else
    let hdr := ring.blockPtr + ring.offsetInBlock
    let snap ← readLE ring.map (hdr + 12) 4
    let mac ← readLE ring.map (hdr + 24) 2
    let pktOff := ring.offsetInBlock + mac
    if ring.blockSize < pktOff + snap then return .passed ring.returnBlock [gaveBack]
    else
      let data ← slice ring.map (ring.blockPtr + pktOff) (ring.blockPtr + pktOff + snap)
      let copied := .copied ring.currentBlock pktOff snap
      let next ← readLE ring.map hdr 4
      if next = 0 then
        -- the length of the packet is read after its block was given back
        let origLen ← readLE ring.returnBlock.map (hdr + 16) 4
        return .found ring.returnBlock [copied, gaveBack] data origLen
      else
        let origLen ← readLE ring.map (hdr + 16) 4
        return .found { ring with offsetInBlock := ring.offsetInBlock + next } [copied] data origLen

def visit (ring : RingState) : Except Fault RingVisit := do
  if (← readLE ring.map (ring.blockPtr + 8) 4) &&& tpStatusUser = 0 then
    return .passed ring.skipBlock []
  else if ring.offsetInBlock = 0 then
    let offset ← readLE ring.map (ring.blockPtr + 16) 4
    readPacket { ring with offsetInBlock := offset }
  else readPacket ring

/-- So many rounds of the loop, with everything done to the memory. -/
def walk : Nat → RingState → Except Fault (RingState × List RingEvent × Option (Bytes × Nat))
  | 0, ring => return (ring, [], none)
  | rounds + 1, ring => do
    match ← ring.visit with
    | .found after events data origLen => return (after, events, some (data, origLen))
    | .passed after events =>
      let (final, more, found) ← walk rounds after
      return (final, events ++ more, found)

end RingState

structure RingCapture extends LinuxCapture where
  iface : String
  ring : Option RingState

namespace RingCapture

def packet (cap : RingCapture) (data : Bytes) (origLen : Nat) : CapturePacket where
  data := data
  linkType := if cap.ifindex = 0 then .linuxSll else cap.linkType
  iface := cap.iface
  origLen := origLen

def nextFromRing (cap : RingCapture) :
    Except Fault (RingCapture × List RingEvent × Option CapturePacket) := do
  match cap.ring with
  | none => return (cap, [], none)
  | some ring =>
    let (after, events, found) ← ring.walk ring.blockNr
    return ({ cap with ring := some after }, events, found.map fun p => cap.packet p.1 p.2)

end RingCapture

/- Blocks as the kernel fills them. -/

structure RingPacket where
  data : Bytes
  origLen : Nat
  deriving DecidableEq, Repr

/-- The size of the header of a packet. -/
def tpacket3HdrSize : Nat := 40

/-- The size of the descriptor of a block. -/
def tpacketBlockDescSize : Nat := 44

/-- A header at `off` in block `b`, and a packet where it says. -/
structure PacketAt (b : Bytes) (off : Nat) (p : RingPacket) : Prop where
  start : off ≠ 0
  header : off + tpacket3HdrSize ≤ b.length
  snap : leAt b (off + 12) 4 = p.data.length
  inside : off + leAt b (off + 24) 2 + p.data.length ≤ b.length
  data : span b (off + leAt b (off + 24) 2) (off + leAt b (off + 24) 2 + p.data.length) = p.data
  origLen : leAt b (off + 16) 4 = p.origLen

/-- The octets of a packet at `off` in block `b`. -/
def CopiedFrom (b : Bytes) (off : Nat) (data : Bytes) : Prop :=
  off + data.length ≤ b.length ∧ span b off (off + data.length) = data

/-- Packets linked by their next offsets. -/
inductive Chain (b : Bytes) : Nat → List RingPacket → Prop where
  | last {off : Nat} {p : RingPacket} (here : PacketAt b off p) (final : leAt b off 4 = 0) :
      Chain b off [p]
  | link {off : Nat} {p q : RingPacket} {ps : List RingPacket} (here : PacketAt b off p)
      (more : leAt b off 4 ≠ 0) (rest : Chain b (off + leAt b off 4) (q :: ps)) :
      Chain b off (p :: q :: ps)

/-- The status of a block that is the reader's. -/
def BlockReady (b : Bytes) : Prop := leAt b 8 4 &&& tpStatusUser ≠ 0

instance (b : Bytes) : Decidable (BlockReady b) := inferInstanceAs (Decidable (_ ≠ _))

/-- A block with the packets `ps`, ready for the reader. -/
structure WellFormed (b : Bytes) (ps : List RingPacket) : Prop where
  ready : BlockReady b
  chain : Chain b (leAt b 16 4) ps

namespace RingState

def block (r : RingState) (k : Nat) : Bytes :=
  span r.map (k * r.blockSize) (k * r.blockSize + r.blockSize)

def Ready (r : RingState) (k : Nat) : Prop := BlockReady (r.block k)

instance (r : RingState) (k : Nat) : Decidable (r.Ready k) := inferInstanceAs (Decidable (_ ≠ _))

/-- The ring has `n` blocks of `size` octets, each with room for its descriptor. -/
structure Shaped (n size : Nat) (r : RingState) : Prop where
  blockNr : r.blockNr = n
  blockSize : r.blockSize = size
  length : r.map.length = n * size
  descriptor : tpacketBlockDescSize ≤ size

end RingState

/-- What the kernel may do to the memory beside filling block `target`: blocks that are the
reader's stay as they are, and none of the others becomes the reader's. -/
structure KernelKeeps (n : Nat) (before after : RingState) (target : Option Nat) : Prop where
  length : after.map.length = before.map.length
  kept : ∀ k < n, before.Ready k → after.block k = before.block k
  idle : ∀ k < n, ¬ before.Ready k → some k ≠ target → ¬ after.Ready k

def RingState.withMap (r : RingState) (map : Bytes) : RingState := { r with map := map }

/-- A call, with the ring it found. -/
structure RingCall where
  ring : RingState
  events : List RingEvent
  packet : Option CapturePacket
  deriving DecidableEq, Repr

/-- A fresh ring: nothing in it is ready. -/
structure RingState.Fresh (n size : Nat) (r : RingState) : Prop where
  shaped : r.Shaped n size
  currentBlock : r.currentBlock = 0
  offsetInBlock : r.offsetInBlock = 0
  idle : ∀ k < n, ¬ r.Ready k

/-- Calls with the kernel's work between them: blocks become ready in ring order, each when it
is the kernel's. `filled` are the packets of the blocks that became ready. -/
inductive RingRun (n : Nat) (cap₀ : RingCapture) :
    RingCapture → List (List RingPacket) → List RingCall → Prop where
  | start : RingRun n cap₀ cap₀ [] []
  | fill {cap : RingCapture} {r : RingState} {filled : List (List RingPacket)}
      {calls : List RingCall} {map : Bytes} {ps : List RingPacket}
      (run : RingRun n cap₀ cap filled calls) (shared : cap.ring = some r)
      (owned : ¬ r.Ready (filled.length % n))
      (keeps : KernelKeeps n r (r.withMap map) (some (filled.length % n)))
      (formed : WellFormed ((r.withMap map).block (filled.length % n)) ps) :
      RingRun n cap₀ { cap with ring := some (r.withMap map) } (filled ++ [ps]) calls
  | write {cap : RingCapture} {r : RingState} {filled : List (List RingPacket)}
      {calls : List RingCall} {map : Bytes} (run : RingRun n cap₀ cap filled calls)
      (shared : cap.ring = some r) (keeps : KernelKeeps n r (r.withMap map) none) :
      RingRun n cap₀ { cap with ring := some (r.withMap map) } filled calls
  | call {cap after : RingCapture} {r : RingState} {filled : List (List RingPacket)}
      {calls : List RingCall} {events : List RingEvent} {found : Option CapturePacket}
      (run : RingRun n cap₀ cap filled calls) (shared : cap.ring = some r)
      (called : cap.nextFromRing = .ok (after, events, found)) :
      RingRun n cap₀ after filled (calls ++ [⟨r, events, found⟩])

/- What the calls are to deliver. -/

/-- The packets of block `k`, each with the blocks that the call for it gives back. -/
def blockDeliveries (k : Nat) : List RingPacket → List (RingPacket × List Nat)
  | [] => []
  | [p] => [(p, [k])]
  | p :: q :: ps => (p, []) :: blockDeliveries k (q :: ps)

def deliveries (n : Nat) : Nat → List (List RingPacket) → List (RingPacket × List Nat)
  | _, [] => []
  | first, ps :: rest => blockDeliveries (first % n) ps ++ deliveries n (first + 1) rest

def returnedBlocks (events : List RingEvent) : List Nat :=
  events.filterMap fun e =>
    match e with
    | .copied _ _ _ => none
    | .returned block => some block

/-- What a call delivered, with the blocks it gave back. -/
def RingCall.delivery (c : RingCall) : Option (CapturePacket × List Nat) :=
  c.packet.map fun p => (p, returnedBlocks c.events)

/-- A call delivers nothing and touches nothing, or it copies the data of one packet out of a
ready block and perhaps gives a block back after that. -/
inductive RingCall.Sound (n : Nat) (c : RingCall) : Prop where
  | nothing (none : c.packet = none) (untouched : c.events = [])
  | delivered {p : CapturePacket} {block off : Nat} {gaveBack : List RingEvent}
      (found : c.packet = some p) (inside : block < n) (ready : c.ring.Ready block)
      (data : CopiedFrom (c.ring.block block) off p.data)
      (events : c.events = .copied block off p.data.length :: gaveBack)
      (after : gaveBack = [] ∨ gaveBack = [.returned block])

namespace RingCapture

/-- A delivery as the capture reports it. -/
def reported (cap : RingCapture) (d : RingPacket × List Nat) : CapturePacket × List Nat :=
  (cap.packet d.1.data d.1.origLen, d.2)

/-- So many calls one after the other. -/
def calls : Nat → RingCapture →
    Except Fault (RingCapture × List (List RingEvent × Option CapturePacket))
  | 0, cap => return (cap, [])
  | k + 1, cap => do
    let (after, events, found) ← cap.nextFromRing
    let (last, more) ← calls k after
    return (last, (events, found) :: more)

end RingCapture

/- One round at a block. -/

namespace RingState

variable {n size : Nat} {r : RingState} {k j : Nat}

theorem Shaped.fits (shaped : r.Shaped n size) (inside : k < n) :
    k * r.blockSize + r.blockSize ≤ r.map.length := by
  rw [shaped.length, shaped.blockSize, ← Nat.succ_mul]
  exact Nat.mul_le_mul_right size inside

theorem Shaped.length_block (shaped : r.Shaped n size) (inside : k < n) :
    (r.block k).length = size := by
  rw [block, length_span (shaped.fits inside), Nat.add_sub_cancel_left, shaped.blockSize]

theorem leAt_block {a w : Nat} (inside : a + w ≤ r.blockSize) :
    leAt (r.block k) a w = leAt r.map (k * r.blockSize + a) w :=
  leAt_span (by omega)

theorem Shaped.read (shaped : r.Shaped n size) (inside : r.currentBlock < n) {a w : Nat}
    (room : a + w ≤ size) :
    readLE r.map (r.blockPtr + a) w = .ok (leAt (r.block r.currentBlock) a w) := by
  have fits := shaped.fits inside
  have same := shaped.blockSize
  rw [leAt_block (by omega), blockPtr, readLE_ok (by omega)]

theorem Shaped.cut (shaped : r.Shaped n size) (inside : r.currentBlock < n) {a b : Nat}
    (ordered : a ≤ b) (room : b ≤ size) :
    slice r.map (r.blockPtr + a) (r.blockPtr + b) = .ok (span (r.block r.currentBlock) a b) := by
  have fits := shaped.fits inside
  have same := shaped.blockSize
  unfold blockPtr
  rw [slice_ok (by omega) (by omega), block, span_span (by omega)]

theorem Shaped.skip (shaped : r.Shaped n size) : r.skipBlock.Shaped n size :=
  ⟨shaped.blockNr, shaped.blockSize, shaped.length, shaped.descriptor⟩

theorem visit_idle (shaped : r.Shaped n size) (inside : r.currentBlock < n)
    (idle : ¬ r.Ready r.currentBlock) : r.visit = .ok (.passed r.skipBlock []) := by
  have room := shaped.descriptor
  unfold tpacketBlockDescSize at room
  unfold visit
  rw [shaped.read inside (by omega), ok_bind, if_pos (not_not.mp idle)]
  rfl

/-- Where the next packet of the current block is. -/
def cursor (r : RingState) : Nat :=
  if r.offsetInBlock = 0 then leAt (r.block r.currentBlock) 16 4 else r.offsetInBlock

theorem cursor_start (fresh : r.offsetInBlock = 0) :
    r.cursor = leAt (r.block r.currentBlock) 16 4 :=
  if_pos fresh

theorem cursor_inside (later : r.offsetInBlock ≠ 0) : r.cursor = r.offsetInBlock :=
  if_neg later

theorem Shaped.length_return (shaped : r.Shaped n size) (inside : r.currentBlock < n) :
    r.returnBlock.map.length = r.map.length := by
  have fits := shaped.fits inside
  have room := shaped.descriptor
  have same := shaped.blockSize
  unfold tpacketBlockDescSize at room
  apply length_overwrite
  rw [length_toLE, blockPtr]
  omega

theorem Shaped.return (shaped : r.Shaped n size) (inside : r.currentBlock < n) :
    r.returnBlock.Shaped n size :=
  ⟨shaped.blockNr, shaped.blockSize, (shaped.length_return inside).trans shaped.length,
    shaped.descriptor⟩

/-- Giving a block back leaves the others as they are. -/
theorem Shaped.return_other (shaped : r.Shaped n size) (inside : r.currentBlock < n)
    (other : j ≠ r.currentBlock) : r.returnBlock.block j = r.block j := by
  have fits := shaped.fits inside
  have room := shaped.descriptor
  have same := shaped.blockSize
  unfold tpacketBlockDescSize at room
  change span (overwrite r.map (r.currentBlock * r.blockSize + 8) (toLE 4 tpStatusKernel)) _ _ = _
  rcases Nat.lt_or_gt_of_ne other with before | behind
  · have apart : (j + 1) * r.blockSize ≤ r.currentBlock * r.blockSize :=
      Nat.mul_le_mul_right _ before
    rw [Nat.succ_mul] at apart
    rw [span_overwrite_before (by omega)]
    · rfl
    · change j * r.blockSize + r.blockSize ≤ _
      omega
  · have apart : (r.currentBlock + 1) * r.blockSize ≤ j * r.blockSize :=
      Nat.mul_le_mul_right _ behind
    rw [Nat.succ_mul] at apart
    rw [span_overwrite_after]
    · rfl
    · rw [length_toLE]
      omega
    · rw [length_toLE]
      change _ ≤ j * r.blockSize
      omega
    · exact Nat.le_add_right _ _

theorem Shaped.return_idle (shaped : r.Shaped n size) (inside : r.currentBlock < n) :
    ¬ r.returnBlock.Ready r.currentBlock := by
  have fits := shaped.fits inside
  have room := shaped.descriptor
  have same := shaped.blockSize
  unfold tpacketBlockDescSize at room
  have status : leAt (r.returnBlock.block r.currentBlock) 8 4 = 0 := by
    change leAt (span _ _ _) 8 4 = 0
    rw [leAt_span (by
      change _ ≤ r.currentBlock * r.blockSize + r.blockSize
      change r.currentBlock * r.blockSize + 8 + 4 ≤ _
      omega)]
    change ofLE (span (overwrite r.map (r.currentBlock * r.blockSize + 8) (toLE 4 0))
      (r.currentBlock * r.blockSize + 8) (r.currentBlock * r.blockSize + 8 + 4)) = 0
    have here : span (overwrite r.map (r.currentBlock * r.blockSize + 8) (toLE 4 0))
        (r.currentBlock * r.blockSize + 8) (r.currentBlock * r.blockSize + 8 + 4) = toLE 4 0 :=
      span_overwrite_here (by omega)
    rw [here]
    rfl
  unfold Ready BlockReady
  rw [status]
  exact not_not.mpr rfl

/-- The length of the packet can still be read when its block was given back. -/
theorem Shaped.read_returned (shaped : r.Shaped n size) (inside : r.currentBlock < n) {a w : Nat}
    (behind : 12 ≤ a) (room : a + w ≤ size) :
    readLE r.returnBlock.map (r.blockPtr + a) w = .ok (leAt (r.block r.currentBlock) a w) := by
  have fits := shaped.fits inside
  have same := shaped.blockSize
  rw [readLE_ok (by rw [shaped.length_return inside, blockPtr]; omega), leAt_block (by omega)]
  unfold leAt
  change Except.ok (ofLE (span (overwrite r.map (r.blockPtr + 8) (toLE 4 tpStatusKernel)) _ _)) = _
  rw [span_overwrite_after]
  · rfl
  · rw [length_toLE, blockPtr]
    omega
  · rw [length_toLE]
    omega
  · exact Nat.le_add_right _ _

theorem readPacket_ok {p : RingPacket} (shaped : r.Shaped n size) (inside : r.currentBlock < n)
    (here : PacketAt (r.block r.currentBlock) r.offsetInBlock p) :
    ∃ off, CopiedFrom (r.block r.currentBlock) off p.data ∧ r.readPacket = .ok
      (if leAt (r.block r.currentBlock) r.offsetInBlock 4 = 0 then
        .found r.returnBlock [.copied r.currentBlock off p.data.length, .returned r.currentBlock]
          p.data p.origLen
      else
        .found { r with
            offsetInBlock := r.offsetInBlock + leAt (r.block r.currentBlock) r.offsetInBlock 4 }
          [.copied r.currentBlock off p.data.length] p.data p.origLen) := by
  obtain ⟨start, header, snap, within, data, origLen⟩ := here
  have same := shaped.blockSize
  refine ⟨_, ⟨within, data⟩, ?_⟩
  rw [shaped.length_block inside] at header within
  unfold tpacket3HdrSize at header
  unfold readPacket
  rw [if_neg (by omega)]
  simp only [Nat.add_assoc]
  rw [shaped.read inside (by omega), ok_bind, shaped.read inside (by omega), ok_bind, snap,
    if_neg (by omega), shaped.cut inside (by omega) (by omega), ok_bind,
    shaped.read inside (by omega), ok_bind]
  simp only [Nat.add_assoc] at data
  rw [data]
  split
  · rw [shaped.read_returned inside (by omega) (by omega), origLen]
    rfl
  · rw [shaped.read inside (by omega), origLen]
    rfl

/-- A round at a ready block finds its next packet. -/
theorem visit_ready {p : RingPacket} (shaped : r.Shaped n size) (inside : r.currentBlock < n)
    (ready : r.Ready r.currentBlock) (here : PacketAt (r.block r.currentBlock) r.cursor p) :
    ∃ off, CopiedFrom (r.block r.currentBlock) off p.data ∧ r.visit = .ok
      (if leAt (r.block r.currentBlock) r.cursor 4 = 0 then
        .found r.returnBlock [.copied r.currentBlock off p.data.length, .returned r.currentBlock]
          p.data p.origLen
      else
        .found { r with offsetInBlock := r.cursor + leAt (r.block r.currentBlock) r.cursor 4 }
          [.copied r.currentBlock off p.data.length] p.data p.origLen) := by
  have room := shaped.descriptor
  unfold tpacketBlockDescSize at room
  unfold visit
  rw [shaped.read inside (by omega), ok_bind, if_neg ready]
  unfold cursor at here ⊢
  split
  · next fresh =>
    rw [if_pos fresh] at here
    rw [shaped.read inside (by omega), ok_bind]
    have moved : ({ r with offsetInBlock := leAt (r.block r.currentBlock) 16 4 } :
        RingState).Shaped n size := ⟨shaped.blockNr, shaped.blockSize, shaped.length, shaped.descriptor⟩
    exact readPacket_ok moved inside here
  · next later =>
    rw [if_neg later] at here
    exact readPacket_ok shaped inside here

/-- A walk around blocks that are all the kernel's ends with nothing. -/
theorem walk_idle (rounds : Nat) (shaped : r.Shaped n size) (inside : r.currentBlock < n)
    (rest : r.offsetInBlock = 0) (idle : ∀ i < rounds, ¬ r.Ready ((r.currentBlock + i) % n)) :
    r.walk rounds
      = .ok ({ r with currentBlock := (r.currentBlock + rounds) % n }, [], none) := by
  induction rounds generalizing r with
  | zero =>
    have stays : (r.currentBlock + 0) % n = r.currentBlock := Nat.mod_eq_of_lt inside
    rw [stays]
    rfl
  | succ rounds ih =>
    have here := idle 0 (Nat.succ_pos _)
    rw [Nat.add_zero, Nat.mod_eq_of_lt inside] at here
    have next : r.skipBlock.currentBlock = (r.currentBlock + 1) % n := by
      rw [← shaped.blockNr]
      rfl
    have others : ∀ i < rounds, ¬ r.skipBlock.Ready ((r.skipBlock.currentBlock + i) % n) := by
      intro i bound
      have later := idle (i + 1) (Nat.succ_lt_succ bound)
      rw [next, Nat.mod_add_mod, Nat.add_assoc, Nat.add_comm 1 i]
      exact later
    have after := ih shaped.skip (by rw [next]; exact Nat.mod_lt _ (by omega)) rfl others
    rw [next, Nat.mod_add_mod, Nat.add_assoc, Nat.add_comm 1 rounds] at after
    rw [walk, visit_idle shaped inside here, ok_bind]
    dsimp only
    rw [after, rest]
    rfl

/-- A walk ends at a ready block with its next packet. -/
theorem walk_ready {rounds : Nat} {after : RingState} {events : List RingEvent} {data : Bytes}
    {origLen : Nat} (found : r.visit = .ok (.found after events data origLen)) :
    r.walk (rounds + 1) = .ok (after, events, some (data, origLen)) := by
  rw [walk, found]
  rfl

end RingState

/- What the ring holds between two steps. -/

/-- From block `first` on, counted around the ring, the blocks hold `pending`, and no other
block is the reader's. What is pending of the first block begins at the cursor. -/
structure RingHolds (n size first : Nat) (r : RingState) (pending : List (List RingPacket)) :
    Prop where
  shaped : r.Shaped n size
  current : r.currentBlock = first % n
  room : pending.length ≤ n
  ready : ∀ i < pending.length, r.Ready ((first + i) % n)
  head : ∀ ps, pending.head? = some ps → Chain (r.block r.currentBlock) r.cursor ps
  tail : ∀ i ps, pending[i + 1]? = some ps →
    Chain (r.block ((first + (i + 1)) % n)) (leAt (r.block ((first + (i + 1)) % n)) 16 4) ps
  rest : pending = [] → r.offsetInBlock = 0
  idle : ∀ i, pending.length ≤ i → i < n → ¬ r.Ready ((first + i) % n)

theorem mod_distinct {n first i j : Nat} (hi : i < n) (hj : j < n)
    (same : (first + i) % n = (first + j) % n) : i = j :=
  (Nat.ModEq.add_left_cancel' first same).eq_of_lt_of_lt hi hj

/-- A block with packets has room for a header. -/
theorem WellFormed.header {b : Bytes} {ps : List RingPacket} (formed : WellFormed b ps) :
    tpacket3HdrSize ≤ b.length := by
  obtain ⟨off, header⟩ : ∃ off, off + tpacket3HdrSize ≤ b.length := by
    cases formed.chain with
    | last here _ => exact ⟨_, here.header⟩
    | link here _ _ => exact ⟨_, here.header⟩
  omega

namespace RingHolds

variable {n size first : Nat} {r : RingState} {pending : List (List RingPacket)}

theorem filled_lt {ps : List RingPacket} {rest : List (List RingPacket)}
    (holds : RingHolds n size first r (ps :: rest)) : r.currentBlock < n := by
  have room := holds.room
  rw [List.length_cons] at room
  rw [holds.current]
  exact Nat.mod_lt _ (by omega)

/-- With nothing pending a call leaves everything as it is. -/
theorem call_idle (holds : RingHolds n size first r []) : r.walk r.blockNr = .ok (r, [], none) := by
  have count := holds.shaped.blockNr
  rcases Nat.eq_zero_or_pos n with none | some
  · rw [count, none]
    rfl
  · have inside : r.currentBlock < n := by
      rw [holds.current]
      exact Nat.mod_lt _ some
    have walked := RingState.walk_idle n holds.shaped inside (holds.rest rfl) (by
      intro i bound
      rw [holds.current, Nat.mod_add_mod]
      exact holds.idle i (Nat.zero_le i) bound)
    rw [Nat.add_mod_right, Nat.mod_eq_of_lt inside] at walked
    rw [count, walked]

/-- The call for a packet that others follow in its block. -/
theorem call_packet {p q : RingPacket} {ps : List RingPacket} {rest : List (List RingPacket)}
    (holds : RingHolds n size first r ((p :: q :: ps) :: rest)) :
    ∃ off after, CopiedFrom (r.block r.currentBlock) off p.data ∧ r.walk r.blockNr
      = .ok (after, [.copied r.currentBlock off p.data.length], some (p.data, p.origLen)) ∧
      RingHolds n size first after ((q :: ps) :: rest) := by
  have inside := holds.filled_lt
  have ready := holds.ready 0 (Nat.succ_pos _)
  rw [Nat.add_zero, ← holds.current] at ready
  cases holds.head _ rfl with
  | link here more chain =>
    obtain ⟨off, fits, visited⟩ := RingState.visit_ready holds.shaped inside ready here
    rw [if_neg more] at visited
    have count : r.blockNr = (n - 1) + 1 := by
      rw [holds.shaped.blockNr]
      omega
    refine ⟨off, _, fits, by rw [count, RingState.walk_ready visited], ?_⟩
    have moved : r.cursor + leAt (r.block r.currentBlock) r.cursor 4 ≠ 0 := by omega
    exact {
      shaped := ⟨holds.shaped.blockNr, holds.shaped.blockSize, holds.shaped.length,
        holds.shaped.descriptor⟩
      current := holds.current
      room := holds.room
      ready := holds.ready
      head := by
        intro qs same
        cases same
        have onwards : RingState.cursor
            { r with offsetInBlock := r.cursor + leAt (r.block r.currentBlock) r.cursor 4 } = _ :=
          RingState.cursor_inside moved
        rw [onwards]
        exact chain
      tail := holds.tail
      rest := by simp
      idle := holds.idle }

/-- The call for the last packet of a block gives the block back. -/
theorem call_last {p : RingPacket} {rest : List (List RingPacket)}
    (holds : RingHolds n size first r ([p] :: rest)) :
    ∃ off after, CopiedFrom (r.block r.currentBlock) off p.data ∧ r.walk r.blockNr
      = .ok (after, [.copied r.currentBlock off p.data.length, .returned r.currentBlock],
          some (p.data, p.origLen)) ∧
      RingHolds n size (first + 1) after rest := by
  have inside := holds.filled_lt
  have room := holds.room
  have ready := holds.ready 0 (Nat.succ_pos _)
  rw [Nat.add_zero, ← holds.current] at ready
  rw [List.length_cons] at room
  cases holds.head _ rfl with
  | last here final =>
    obtain ⟨off, fits, visited⟩ := RingState.visit_ready holds.shaped inside ready here
    rw [if_pos final] at visited
    have count : r.blockNr = (n - 1) + 1 := by
      rw [holds.shaped.blockNr]
      omega
    refine ⟨off, _, fits, by rw [count, RingState.walk_ready visited], ?_⟩
    have shift : ∀ i, first + 1 + i = first + (i + 1) := by omega
    have apart : ∀ i, i + 1 < n → (first + (i + 1)) % n ≠ r.currentBlock := by
      intro i bound same
      rw [holds.current, ← Nat.add_zero first, Nat.add_assoc, Nat.zero_add] at same
      cases mod_distinct bound (by omega) same
    have other : ∀ i, i + 1 < n →
        r.returnBlock.block ((first + (i + 1)) % n) = r.block ((first + (i + 1)) % n) :=
      fun i bound => holds.shaped.return_other inside (apart i bound)
    have following : r.returnBlock.currentBlock = (first + 1) % n := by
      change (r.currentBlock + 1) % r.blockNr = _
      rw [holds.shaped.blockNr, holds.current, Nat.mod_add_mod]
    exact {
      shaped := holds.shaped.return inside
      current := following
      room := by omega
      ready := by
        intro i bound
        unfold RingState.Ready
        rw [shift, other i (by omega)]
        exact holds.ready (i + 1) (Nat.succ_lt_succ bound)
      head := by
        intro ps first
        have there := holds.tail 0 ps (by rwa [List.getElem?_cons_succ, ← List.head?_eq_getElem?])
        have some : 0 < rest.length := by
          cases rest with
          | nil => cases first
          | cons _ _ => exact Nat.succ_pos _
        rw [RingState.cursor_start rfl, following, other 0 (by omega)]
        exact there
      tail := by
        intro i ps found
        have there := holds.tail (i + 1) ps (by rwa [List.getElem?_cons_succ])
        obtain ⟨bound, -⟩ := List.getElem?_eq_some_iff.mp found
        rw [shift, other (i + 1) (by omega)]
        exact there
      rest := fun _ => rfl
      idle := by
        intro i low high ready
        rcases Nat.lt_or_ge (i + 1) n with inside' | last
        · unfold RingState.Ready at ready
          rw [shift, other i inside'] at ready
          exact holds.idle (i + 1) (by rw [List.length_cons]; omega) inside' ready
        · have whole : first + 1 + i = first + n := by omega
          rw [whole, Nat.add_mod_right, ← holds.current] at ready
          exact holds.shaped.return_idle inside ready }

/-- A call delivers what is due next, or nothing if nothing is. -/
theorem call (holds : RingHolds n size first r pending) :
    (pending = [] ∧ r.walk r.blockNr = .ok (r, [], none)) ∨
      ∃ p blocks off after gaveBack first' pending',
        deliveries n first pending = (p, blocks) :: deliveries n first' pending' ∧
        r.walk r.blockNr = .ok (after, .copied r.currentBlock off p.data.length :: gaveBack,
          some (p.data, p.origLen)) ∧
        (r.currentBlock < n ∧ r.Ready r.currentBlock ∧
          CopiedFrom (r.block r.currentBlock) off p.data) ∧
        (gaveBack = [] ∧ blocks = [] ∨
          gaveBack = [.returned r.currentBlock] ∧ blocks = [r.currentBlock]) ∧
        RingHolds n size first' after pending' ∧
        first' + pending'.length = first + pending.length := by
  cases pending with
  | nil => exact .inl ⟨rfl, holds.call_idle⟩
  | cons ps rest =>
    have inside := holds.filled_lt
    have ready := holds.ready 0 (Nat.succ_pos _)
    rw [Nat.add_zero, ← holds.current] at ready
    refine .inr ?_
    cases ps with
    | nil => cases holds.head _ rfl
    | cons p ps =>
      cases ps with
      | nil =>
        obtain ⟨off, after, copied, walked, next⟩ := holds.call_last
        refine ⟨p, [r.currentBlock], off, after, _, first + 1, rest, ?_, walked,
          ⟨inside, ready, copied⟩, .inr ⟨rfl, rfl⟩, next, ?_⟩
        · rw [holds.current]
          rfl
        · rw [List.length_cons]
          omega
      | cons q ps =>
        obtain ⟨off, after, copied, walked, next⟩ := holds.call_packet
        exact ⟨p, [], off, after, _, first, (q :: ps) :: rest, rfl, walked,
          ⟨inside, ready, copied⟩, .inl ⟨rfl, rfl⟩, next, rfl⟩

/-- The ready blocks stay as they are when the kernel writes. -/
theorem kept {map : Bytes} {target : Option Nat} (holds : RingHolds n size first r pending)
    (keeps : KernelKeeps n r (r.withMap map) target) {i : Nat} (bound : i < pending.length) :
    (r.withMap map).block ((first + i) % n) = r.block ((first + i) % n) := by
  have room := holds.room
  exact keeps.kept _ (Nat.mod_lt _ (by omega)) (holds.ready i bound)

theorem head_kept {map : Bytes} {target : Option Nat} (holds : RingHolds n size first r pending)
    (keeps : KernelKeeps n r (r.withMap map) target) {ps : List RingPacket}
    (due : pending.head? = some ps) :
    Chain ((r.withMap map).block r.currentBlock) (r.withMap map).cursor ps := by
  have some : 0 < pending.length := by
    cases pending with
    | nil => cases due
    | cons _ _ => exact Nat.succ_pos _
  have same := holds.kept keeps some
  rw [Nat.add_zero, ← holds.current] at same
  have there := holds.head ps due
  have cursor : (r.withMap map).cursor = r.cursor := by
    unfold RingState.cursor
    change (if r.offsetInBlock = 0 then leAt ((r.withMap map).block r.currentBlock) 16 4
      else r.offsetInBlock) = _
    rw [same]
  rw [cursor, same]
  exact there

theorem shaped_kept {map : Bytes} {target : Option Nat} (holds : RingHolds n size first r pending)
    (keeps : KernelKeeps n r (r.withMap map) target) : (r.withMap map).Shaped n size :=
  ⟨holds.shaped.blockNr, holds.shaped.blockSize, keeps.length.trans holds.shaped.length,
    holds.shaped.descriptor⟩

theorem write {map : Bytes} (holds : RingHolds n size first r pending)
    (keeps : KernelKeeps n r (r.withMap map) none) :
    RingHolds n size first (r.withMap map) pending where
  shaped := holds.shaped_kept keeps
  current := holds.current
  room := holds.room
  ready := by
    intro i bound
    unfold RingState.Ready
    rw [holds.kept keeps bound]
    exact holds.ready i bound
  head := fun ps due => holds.head_kept keeps due
  tail := by
    intro i ps found
    obtain ⟨bound, -⟩ := List.getElem?_eq_some_iff.mp found
    rw [holds.kept keeps bound]
    exact holds.tail i ps found
  rest := holds.rest
  idle := by
    intro i low high
    exact keeps.idle _ (Nat.mod_lt _ (by omega)) (holds.idle i low high) (by simp)

/-- A block that becomes ready is the one behind those that are pending. -/
theorem fill {map : Bytes} {ps : List RingPacket} (holds : RingHolds n size first r pending)
    (owned : ¬ r.Ready ((first + pending.length) % n))
    (keeps : KernelKeeps n r (r.withMap map) (some ((first + pending.length) % n)))
    (formed : WellFormed ((r.withMap map).block ((first + pending.length) % n)) ps) :
    RingHolds n size first (r.withMap map) (pending ++ [ps]) := by
  have shaped := holds.shaped_kept keeps
  have some : 0 < n := by
    by_contra none
    have empty : n = 0 := by omega
    have long := shaped.length
    rw [empty, Nat.zero_mul] at long
    have header := formed.header
    rw [RingState.block, List.length_eq_zero_iff.mp long] at header
    simp [span, tpacket3HdrSize] at header
  have room : pending.length < n := by
    by_contra full
    have all : pending.length = n := Nat.le_antisymm holds.room (Nat.le_of_not_lt full)
    apply owned
    rw [all, Nat.add_mod_right, ← Nat.add_zero first]
    exact holds.ready 0 (by omega)
  exact {
    shaped := shaped
    current := holds.current
    room := by
      rw [List.length_append]
      exact room
    ready := by
      intro i bound
      rw [List.length_append, List.length_singleton] at bound
      rcases Nat.lt_succ_iff_lt_or_eq.mp bound with old | new
      · unfold RingState.Ready
        rw [holds.kept keeps old]
        exact holds.ready i old
      · rw [new]
        exact formed.ready
    head := by
      intro qs due
      cases pending with
      | nil =>
        cases due
        have there := formed.chain
        rw [List.length_nil, Nat.add_zero, ← holds.current] at there
        have start : (r.withMap map).cursor = _ := RingState.cursor_start (holds.rest rfl)
        rw [start]
        exact there
      | cons p rest => exact holds.head_kept keeps due
    tail := by
      intro i qs found
      rcases Nat.lt_or_ge (i + 1) pending.length with old | new
      · rw [List.getElem?_append_left old] at found
        rw [holds.kept keeps old]
        exact holds.tail i qs found
      · obtain ⟨bound, -⟩ := List.getElem?_eq_some_iff.mp found
        rw [List.length_append, List.length_singleton] at bound
        have last : i + 1 = pending.length := by omega
        rw [last, List.getElem?_append_right (Nat.le_refl _), Nat.sub_self] at found
        cases found
        rw [last]
        exact formed.chain
    rest := by simp
    idle := by
      intro i low high
      rw [List.length_append, List.length_singleton] at low
      refine keeps.idle _ (Nat.mod_lt _ some) (holds.idle i (by omega) high) ?_
      intro same
      have again := mod_distinct high room (Option.some.inj same)
      omega }

end RingHolds

theorem deliveries_append (n first : Nat) (xs ys : List (List RingPacket)) :
    deliveries n first (xs ++ ys)
      = deliveries n first xs ++ deliveries n (first + xs.length) ys := by
  induction xs generalizing first with
  | nil => rfl
  | cons x xs ih =>
    have shift : first + 1 + xs.length = first + (x :: xs).length := by
      rw [List.length_cons]
      omega
    rw [List.cons_append, deliveries, ih, deliveries, List.append_assoc, shift]

theorem RingState.Fresh.holds {n size : Nat} {r : RingState} (fresh : r.Fresh n size) :
    RingHolds n size 0 r [] where
  shaped := fresh.shaped
  current := fresh.currentBlock.trans (Nat.zero_mod n).symm
  room := Nat.zero_le n
  ready := by simp
  head := by simp
  tail := by simp
  rest := fun _ => fresh.offsetInBlock
  idle := by
    intro i _ bound
    rw [Nat.zero_add, Nat.mod_eq_of_lt bound]
    exact fresh.idle i bound

theorem nextFromRing_eq {cap : RingCapture} {r after : RingState} {events : List RingEvent}
    {found : Option (Bytes × Nat)} (shared : cap.ring = some r)
    (walked : r.walk r.blockNr = .ok (after, events, found)) :
    cap.nextFromRing = .ok ({ cap with ring := some after }, events,
      found.map fun p => cap.packet p.1 p.2) := by
  unfold RingCapture.nextFromRing
  rw [shared]
  dsimp only
  rw [walked]
  rfl

/-- What has been delivered and what is pending are together what was filled. -/
theorem ring_run {n size : Nat} {cap₀ cap : RingCapture} {r₀ : RingState}
    {filled : List (List RingPacket)} {calls : List RingCall} (opened : cap₀.ring = some r₀)
    (fresh : r₀.Fresh n size) (run : RingRun n cap₀ cap filled calls) :
    ∃ first r pending, cap = { cap₀ with ring := some r } ∧ RingHolds n size first r pending ∧
      filled.length = first + pending.length ∧
      calls.filterMap RingCall.delivery ++ (deliveries n first pending).map cap₀.reported
        = (deliveries n 0 filled).map cap₀.reported ∧
      ∀ c ∈ calls, c.Sound n := by
  induction run with
  | start =>
    refine ⟨0, r₀, [], ?_, fresh.holds, rfl, rfl, by simp⟩
    rw [← opened]
  | @fill cap r filled calls map ps run shared owned keeps formed ih =>
    obtain ⟨first, r', pending, same, holds, count, delivered, sound⟩ := ih
    rw [same] at shared
    cases shared
    rw [count] at owned keeps formed
    refine ⟨first, r.withMap map, pending ++ [ps], by rw [same], holds.fill owned keeps formed,
      ?_, ?_, sound⟩
    · rw [List.length_append, List.length_append, count, Nat.add_assoc]
    · rw [deliveries_append, deliveries_append, List.map_append, List.map_append,
        ← List.append_assoc, delivered, count, Nat.zero_add]
  | @write cap r filled calls map run shared keeps ih =>
    obtain ⟨first, r', pending, same, holds, count, delivered, sound⟩ := ih
    rw [same] at shared
    cases shared
    exact ⟨first, r.withMap map, pending, by rw [same], holds.write keeps, count, delivered, sound⟩
  | @call cap after r filled calls events found run shared called ih =>
    obtain ⟨first, r', pending, same, holds, count, delivered, sound⟩ := ih
    have reported : cap.reported = cap₀.reported := by
      rw [same]
      rfl
    have now := shared
    rw [same] at now
    cases now
    rcases holds.call with
      ⟨rfl, walked⟩ | ⟨p, blocks, off, next, gaveBack, first', pending', due, walked, ⟨inside, ready,
        data⟩, back, onwards, total⟩
    · rw [nextFromRing_eq shared walked] at called
      cases called
      refine ⟨first, r, [], by rw [same], holds, count, ?_, ?_⟩
      · rw [List.filterMap_append]
        simp only [List.filterMap_cons, RingCall.delivery, Option.map_none, List.filterMap_nil,
          List.append_nil]
        exact delivered
      · intro c member
        rcases List.mem_append.mp member with old | new
        · exact sound c old
        · rw [List.mem_singleton.mp new]
          exact .nothing rfl rfl
    · rw [nextFromRing_eq shared walked] at called
      cases called
      have result : RingCall.delivery ⟨r, .copied r.currentBlock off p.data.length :: gaveBack,
          some (cap.packet p.data p.origLen)⟩ = some (cap₀.reported (p, blocks)) := by
        rw [← reported]
        rcases back with ⟨rfl, rfl⟩ | ⟨rfl, rfl⟩ <;> rfl
      refine ⟨first', next, pending', by rw [same], onwards, count.trans total.symm, ?_, ?_⟩
      · rw [← delivered, due, List.filterMap_append, List.map_cons, List.append_assoc]
        congr 1
        change List.filterMap _ [RingCall.mk r _ (some _)] ++ _ = _
        rw [List.filterMap_cons, result]
        rfl
      · intro c member
        rcases List.mem_append.mp member with old | new
        · exact sound c old
        · rw [List.mem_singleton.mp new]
          exact .delivered rfl inside ready data rfl (back.imp And.left And.left)

/-- As many calls as packets are due deliver them; one more finds nothing. -/
theorem calls_deliver {n size first : Nat} {cap : RingCapture} {r : RingState}
    {pending : List (List RingPacket)} (shared : cap.ring = some r)
    (holds : RingHolds n size first r pending) :
    ∃ last more, cap.calls (deliveries n first pending).length = .ok (last, more) ∧
      more.map (fun c => c.2.map fun p => (p, returnedBlocks c.1))
        = (deliveries n first pending).map (fun d => some (cap.reported d)) ∧
      last.nextFromRing = .ok (last, [], none) := by
  induction total : (deliveries n first pending).length generalizing cap r first pending with
  | zero =>
    rcases holds.call with ⟨rfl, walked⟩ | ⟨p, blocks, off, next, gaveBack, first', pending', due, _⟩
    · refine ⟨cap, [], rfl, rfl, ?_⟩
      rw [nextFromRing_eq shared walked, ← shared]
      rfl
    · rw [due] at total
      cases total
  | succ k ih =>
    rcases holds.call with
      ⟨rfl, walked⟩ | ⟨p, blocks, off, next, gaveBack, first', pending', due, walked, _, back,
        onwards, _⟩
    · cases total
    · rw [due, List.length_cons] at total
      obtain ⟨last, more, called, outs, done⟩ :=
        @ih first' { cap with ring := some next } next pending' rfl onwards (by omega)
      refine ⟨last, (.copied r.currentBlock off p.data.length :: gaveBack,
        some (cap.packet p.data p.origLen)) :: more, ?_, ?_, done⟩
      · rw [RingCapture.calls, nextFromRing_eq shared walked, ok_bind]
        dsimp only
        rw [called]
        rfl
      · rw [due, List.map_cons, List.map_cons, outs]
        congr 1
        rcases back with ⟨rfl, rfl⟩ | ⟨rfl, rfl⟩ <;> rfl

/-- Whatever blocks become ready in ring order, and whenever: the calls deliver all their packets,
each once and in order, and give each block back with its last packet. Data is copied out of
blocks that are ready, before they are given back. -/
theorem ring_walk {n size : Nat} {cap₀ cap : RingCapture} {r₀ : RingState}
    {filled : List (List RingPacket)} {calls : List RingCall} (opened : cap₀.ring = some r₀)
    (fresh : r₀.Fresh n size) (run : RingRun n cap₀ cap filled calls) :
    (∀ c ∈ calls, c.Sound n) ∧ ∃ due : List (RingPacket × List Nat),
      calls.filterMap RingCall.delivery ++ due.map cap₀.reported
        = (deliveries n 0 filled).map cap₀.reported ∧
      ∃ last more, cap.calls due.length = .ok (last, more) ∧
        more.map (fun c => c.2.map fun p => (p, returnedBlocks c.1))
          = due.map (fun d => some (cap₀.reported d)) ∧
        last.nextFromRing = .ok (last, [], none) := by
  obtain ⟨first, r, pending, same, holds, -, delivered, sound⟩ := ring_run opened fresh run
  have shared : cap.ring = some r := by rw [same]
  obtain ⟨last, more, called, outs, done⟩ := calls_deliver shared holds
  refine ⟨sound, deliveries n first pending, delivered, last, more, called, ?_, done⟩
  rw [outs, same]
  rfl

/-- A ring of one block of 96 octets, and the block with a packet of two octets in it. -/
def smallRing : RingState where
  map := List.replicate 96 0
  blockSize := 96
  blockNr := 1
  currentBlock := 0
  offsetInBlock := 0

def smallCapture : RingCapture where
  ifindex := 3
  linkType := .ethernet
  bpfProg := none
  issued := []
  iface := "eth0"
  ring := some smallRing

def filledBlock : Bytes :=
  List.replicate 8 0 ++ toLE 4 1 ++ List.replicate 4 0 ++ toLE 4 48 ++ List.replicate 28 0 ++
    (toLE 4 0 ++ List.replicate 8 0 ++ toLE 4 2 ++ toLE 4 60 ++ List.replicate 4 0 ++ toLE 2 40 ++
      List.replicate 14 0) ++ [7, 8] ++ List.replicate 6 0

theorem filledBlock_formed : WellFormed filledBlock [⟨[7, 8], 60⟩] where
  ready := by decide
  chain := .last ⟨by decide, by decide, by decide, by decide, by decide, by decide⟩ (by decide)

theorem smallRing_filled :
    RingRun 1 smallCapture { smallCapture with ring := some (smallRing.withMap filledBlock) }
      [[⟨[7, 8], 60⟩]] [] := by
  refine .fill .start rfl (by decide) ⟨by decide, ?_, ?_⟩ ?_
  · intro k bound ready
    cases Nat.lt_one_iff.mp bound
    exact absurd ready (by decide)
  · intro k bound _ other
    cases Nat.lt_one_iff.mp bound
    exact absurd rfl other
  · exact filledBlock_formed

theorem smallRing_walk :
    (∀ c ∈ ([] : List RingCall), c.Sound 1) ∧ ∃ due : List (RingPacket × List Nat),
      [].filterMap RingCall.delivery ++ due.map smallCapture.reported
        = (deliveries 1 0 [[⟨[7, 8], 60⟩]]).map smallCapture.reported ∧
      ∃ last more, RingCapture.calls due.length
          { smallCapture with ring := some (smallRing.withMap filledBlock) } = .ok (last, more) ∧
        more.map (fun c => c.2.map fun p => (p, returnedBlocks c.1))
          = due.map (fun d => some (smallCapture.reported d)) ∧
        last.nextFromRing = .ok (last, [], none) :=
  @ring_walk 1 96 smallCapture _ smallRing _ _ rfl
    ⟨⟨rfl, rfl, by decide, by decide⟩, rfl, rfl, by decide⟩ smallRing_filled

end BitBeak
