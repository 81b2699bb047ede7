import BitBeak.Capture.Rpcap
import BitBeak.Lib.Entries
import Mathlib.Data.List.Nodup
import Mathlib.Data.List.ReduceOption

/-! Captures from BPF devices on macOS. A read fills a buffer with packets; they wait with the
device until a call asks for them. Several devices are asked in turn. -/
namespace BitBeak
open Wire
open Rpcap (CapturePacket)

/-- What a read of a device finds; behind the last it would block. -/
inductive BpfRead where
  | data (bytes : Bytes)
  | failed
  deriving DecidableEq, Repr

structure BpfDev where
  file : List BpfRead
  buf : Bytes
  pending : List CapturePacket
  iface : String
  linkType : LinkType
  deriving DecidableEq, Repr

structure MacCapture where
  devices : List BpfDev
  iface : String
  linkType : LinkType
  rr : Nat
  deriving DecidableEq, Repr

namespace BpfDev

def packet (dev : BpfDev) (data : Bytes) : CapturePacket where
  data := data
  linkType := dev.linkType
  iface := dev.iface
  origLen := data.length

/-- The loop over the `n` octets that were read. -/
def parse (dev : BpfDev) (n : Nat) :
    Nat → Nat → List CapturePacket → Except Fault (List CapturePacket)
  | 0, _, _ => .error .outOfFuel
  | fuel + 1, off, pending => do
    if n < off + 18 then return pending
    else
      let caplen ← readLE dev.buf (off + 16) 4
      let hdrlen ← readLE dev.buf (off + 24) 2
      let dataOff := off + hdrlen
      let dataEnd := dataOff + caplen
      if n < dataEnd then return pending
      else
        let data ← slice dev.buf dataOff dataEnd
        -- on to the next word boundary
        dev.parse n fuel ((dataEnd + 3) / 4 * 4) (pending ++ [dev.packet data])

/-- What was read lies over the front of the buffer. -/
def fillPending (dev : BpfDev) : Except Fault (Except String Bool × BpfDev) := do
  match dev.file with
  | [] => return (.ok false, dev)
  | .failed :: rest => return (.error "BPF read", { dev with file := rest })
  | .data bytes :: rest =>
    if bytes = [] then return (.ok false, { dev with file := rest })
    else
      let n := bytes.length
      let dev := { dev with file := rest, buf := bytes ++ dev.buf.drop n }
      let pending ← dev.parse n (n + 1) 0 dev.pending
      return (.ok (!pending.isEmpty), { dev with pending := pending })

/-- `Vec::pop` takes the last. -/
def pop (dev : BpfDev) : Option (CapturePacket × BpfDev) :=
  dev.pending.getLast?.map fun p => (p, { dev with pending := dev.pending.dropLast })

end BpfDev

namespace MacCapture

def setDev (cap : MacCapture) (idx : Nat) (dev : BpfDev) : MacCapture :=
  { cap with devices := cap.devices.set idx dev }

/-- So many rounds over the devices, from the one whose turn it is. -/
def poll (n : Nat) :
    Nat → MacCapture → Except Fault (Except String (Option CapturePacket) × MacCapture)
  | 0, cap => return (.ok none, cap)
  | rounds + 1, cap => do
    let idx := cap.rr % n
    let cap := { cap with rr := cap.rr + 1 }
    match cap.devices[idx]? with
    | none => .error .outOfRange
    | some dev =>
      let (filled, dev) ← dev.fillPending
      match filled with
      | .error e => return (.error e, cap.setDev idx dev)
      | .ok false => poll n rounds (cap.setDev idx dev)
      | .ok true =>
        match dev.pop with
        | some (p, dev) => return (.ok (some p), cap.setDev idx dev)
        | none => poll n rounds (cap.setDev idx dev)

def nextPacket (cap : MacCapture) :
    Except Fault (Except String (Option CapturePacket) × MacCapture) :=
  let n := cap.devices.length
  if n = 0 then .ok (.ok none, cap)
  else
    match cap.devices[cap.rr % n]? with
    | none => .error .outOfRange
    | some dev =>
      match dev.pop with
      | some (p, dev) => .ok (.ok (some p), cap.setDev (cap.rr % n) dev)
      | none => cap.poll n n

end MacCapture

/- Buffers as the code reads them. -/

/-- A packet behind its header: a time of 16 octets, the captured length, the length on the wire,
the length of the header, and whatever else the header has. -/
structure BpfRecord where
  stamp : Bytes
  datalen : UInt32
  extra : Bytes
  data : Bytes
  stampWidth : stamp.length = 16
  fits : data.length < 2 ^ 32 ∧ 26 + extra.length < 2 ^ 16
  deriving DecidableEq

namespace BpfRecord

def hdrlen (r : BpfRecord) : Nat := 26 + r.extra.length

def bytes (r : BpfRecord) : Bytes :=
  r.stamp ++ (toLE 4 r.data.length ++ (toLE 4 r.datalen.toNat ++ (toLE 2 r.hdrlen ++
    (r.extra ++ r.data))))

/-- The octets up to the next word boundary. -/
def pad (r : BpfRecord) : Bytes := List.replicate ((4 - r.bytes.length % 4) % 4) 0

end BpfRecord

def encodeRecords : List BpfRecord → Bytes
  | [] => []
  | [r] => r.bytes
  | r :: q :: rs => r.bytes ++ (r.pad ++ encodeRecords (q :: rs))

/-- A well-formed buffer: packets at word boundaries, with perhaps some padding behind the
last. -/
structure BpfBuffer where
  records : List BpfRecord
  trail : Bytes
  some : records ≠ []
  short : trail.length < 4

def BpfBuffer.bytes (b : BpfBuffer) : Bytes := encodeRecords b.records ++ b.trail

/-- The names of the interfaces are distinct, and nothing has been read or is there to read. -/
structure MacCapture.Opened (cap : MacCapture) : Prop where
  distinct : (cap.devices.map (·.iface)).Nodup
  empty : ∀ dev ∈ cap.devices, dev.file = [] ∧ dev.pending = []

/-- Calls, with buffers that arrive between them. `arrived` are the buffers with their devices,
`calls` what the calls returned. -/
inductive MacRun (cap₀ : MacCapture) :
    MacCapture → List (Nat × BpfBuffer) → List (Option CapturePacket) → Prop where
  | start : MacRun cap₀ cap₀ [] []
  | arrive {cap : MacCapture} {arrived : List (Nat × BpfBuffer)}
      {calls : List (Option CapturePacket)} {i : Nat} {dev : BpfDev} {b : BpfBuffer}
      (run : MacRun cap₀ cap arrived calls) (found : cap.devices[i]? = some dev)
      (room : b.bytes.length ≤ dev.buf.length) :
      MacRun cap₀ (cap.setDev i { dev with file := dev.file ++ [.data b.bytes] })
        (arrived ++ [(i, b)]) calls
  | call {cap after : MacCapture} {arrived : List (Nat × BpfBuffer)}
      {calls : List (Option CapturePacket)} {found : Option CapturePacket}
      (run : MacRun cap₀ cap arrived calls) (called : cap.nextPacket = .ok (.ok found, after)) :
      MacRun cap₀ after arrived (calls ++ [found])

/-- The packets that arrived at device `i`, in the order of their buffers. -/
def arrivedAt (i : Nat) (arrived : List (Nat × BpfBuffer)) : List BpfRecord :=
  (arrived.filter (·.1 = i)).flatMap (·.2.records)

/-- What calls delivered from an interface. -/
def deliveredFrom (iface : String) (calls : List (Option CapturePacket)) : List CapturePacket :=
  calls.reduceOption.filter (·.iface = iface)

/- What the loop makes of a buffer. -/

namespace BpfRecord

variable {r : BpfRecord}

theorem length_bytes : r.bytes.length = r.hdrlen + r.data.length := by
  simp only [bytes, hdrlen, List.length_append, length_toLE, r.stampWidth]
  omega

theorem length_pad : r.pad.length = (4 - r.bytes.length % 4) % 4 := List.length_replicate

/-- The header and the packet, wherever the record lies. -/
theorem reads (front behind : Bytes) :
    leAt (front ++ (r.bytes ++ behind)) (front.length + 16) 4 = r.data.length ∧
      leAt (front ++ (r.bytes ++ behind)) (front.length + 24) 2 = r.hdrlen ∧
        span (front ++ (r.bytes ++ behind)) (front.length + r.hdrlen)
          (front.length + r.hdrlen + r.data.length) = r.data := by
  obtain ⟨small, header⟩ := r.fits
  have width := r.stampWidth
  have long : r.hdrlen = 26 + r.extra.length := rfl
  simp only [bytes, List.append_assoc]
  refine ⟨?_, ?_, ?_⟩
  · simp (disch := simp [width]) only [leAt_append_right, Nat.add_sub_cancel_left, width]
    exact leAt_toLE small
  · simp (disch := simp [width]) only [leAt_append_right, Nat.add_sub_cancel_left, width,
      length_toLE]
    exact leAt_toLE header
  · rw [span_append_right (by omega), span_append_right (by omega), span_append_right (by
      rw [length_toLE]
      omega), span_append_right (by simp only [length_toLE]; omega), span_append_right (by
      simp only [length_toLE]
      omega)]
    apply span_middle
    · simp only [length_toLE, width]
      omega
    · simp only [length_toLE, width]
      omega

end BpfRecord

theorem length_le_encodeRecords (rs : List BpfRecord) : rs.length ≤ (encodeRecords rs).length := by
  induction rs with
  | nil => exact Nat.le_refl 0
  | cons r rs ih =>
    have long : 26 ≤ r.bytes.length := by
      rw [BpfRecord.length_bytes, BpfRecord.hdrlen]
      omega
    cases rs with
    | nil =>
      rw [encodeRecords, List.length_singleton]
      omega
    | cons q rs =>
      rw [encodeRecords, List.length_append, List.length_append, List.length_cons]
      omega

theorem encodeRecords_ne_nil {rs : List BpfRecord} (some : rs ≠ []) : encodeRecords rs ≠ [] := by
  intro none
  have long := length_le_encodeRecords rs
  rw [none] at long
  exact some (List.length_eq_zero_iff.mp (Nat.le_zero.mp long))

namespace BpfDev

variable {dev : BpfDev} {n fuel : Nat} {front behind : Bytes} {pending : List CapturePacket}

theorem parse_end {off : Nat} (short : n < off + 18) :
    dev.parse n (fuel + 1) off pending = .ok pending :=
  if_pos short

/-- One round of the loop takes one record. -/
theorem parse_record {r : BpfRecord} (here : dev.buf = front ++ (r.bytes ++ behind))
    (inside : front.length + r.bytes.length ≤ n) :
    dev.parse n (fuel + 1) front.length pending
      = dev.parse n fuel ((front.length + r.bytes.length + 3) / 4 * 4)
          (pending ++ [dev.packet r.data]) := by
  have total := BpfRecord.length_bytes (r := r)
  have header : r.hdrlen = 26 + r.extra.length := rfl
  obtain ⟨caplen, hdrlen, data⟩ := BpfRecord.reads (r := r) front behind
  rw [← here] at caplen hdrlen data
  have long : front.length + r.bytes.length ≤ dev.buf.length := by
    rw [here, List.length_append, List.length_append]
    omega
  rw [parse, if_neg (by omega), readLE_ok (by omega), ok_bind, readLE_ok (by omega), ok_bind,
    caplen, hdrlen]
  dsimp only
  rw [if_neg (by omega), slice_ok (by omega) (by omega), ok_bind, data, total,
    ← Nat.add_assoc front.length]

theorem parse_records {rs : List BpfRecord} {trail : Nat} (aligned : 4 ∣ front.length)
    (here : dev.buf = front ++ (encodeRecords rs ++ behind))
    (stop : n = front.length + (encodeRecords rs).length + trail) (short : trail < 4)
    (enough : rs.length < fuel) :
    dev.parse n fuel front.length pending
      = .ok (pending ++ rs.map fun r => dev.packet r.data) := by
  induction rs generalizing front fuel pending with
  | nil =>
    obtain ⟨fuel, rfl⟩ := Nat.exists_eq_succ_of_ne_zero (Nat.ne_zero_of_lt enough)
    rw [parse_end]
    · rw [List.map_nil, List.append_nil]
    · rw [encodeRecords, List.length_nil] at stop
      omega
  | cons r rs ih =>
    rw [List.length_cons] at enough
    obtain ⟨fuel, rfl⟩ := Nat.exists_eq_succ_of_ne_zero (Nat.ne_zero_of_lt enough)
    cases rs with
    | nil =>
      rw [encodeRecords] at here stop
      rw [parse_record here (by omega)]
      obtain ⟨fuel, rfl⟩ := Nat.exists_eq_succ_of_ne_zero
        (show fuel ≠ 0 by rw [List.length_nil] at enough; omega)
      rw [parse_end (by omega)]
      rfl
    | cons q rs =>
      rw [encodeRecords, List.append_assoc] at here
      rw [encodeRecords, List.length_append, List.length_append] at stop
      rw [parse_record here (by omega)]
      have pad := BpfRecord.length_pad (r := r)
      have next : (front.length + r.bytes.length + 3) / 4 * 4
          = (front ++ (r.bytes ++ r.pad)).length := by
        rw [List.length_append, List.length_append, pad]
        omega
      have word : 4 ∣ (front ++ (r.bytes ++ r.pad)).length := by
        rw [← next]
        exact Nat.dvd_mul_left 4 _
      rw [next, ih word]
      · simp only [List.map_cons, List.append_assoc, List.singleton_append]
      · rw [here]
        simp only [List.append_assoc]
      · rw [stop]
        simp only [List.length_append]
        omega
      · omega

/-- A read of a well-formed buffer leaves its packets pending in their order. -/
theorem fillPending_buffer {b : BpfBuffer} {rest : List BpfRead}
    (next : dev.file = .data b.bytes :: rest) :
    dev.fillPending = .ok (.ok true, { dev with
      file := rest
      buf := b.bytes ++ dev.buf.drop b.bytes.length
      pending := dev.pending ++ b.records.map fun r => dev.packet r.data }) := by
  have some : b.bytes ≠ [] := by
    unfold BpfBuffer.bytes
    exact List.append_ne_nil_of_left_ne_nil (encodeRecords_ne_nil b.some) _
  have parsed := @parse_records
    { dev with file := rest, buf := b.bytes ++ dev.buf.drop b.bytes.length } b.bytes.length
    (b.bytes.length + 1) [] (b.trail ++ dev.buf.drop b.bytes.length) dev.pending b.records
    b.trail.length (Nat.dvd_zero 4)
    (by simp only [BpfBuffer.bytes, List.append_assoc, List.nil_append])
    (by simp only [BpfBuffer.bytes, List.length_append, List.length_nil, Nat.zero_add]) b.short
    (by
      have count := length_le_encodeRecords b.records
      simp only [BpfBuffer.bytes, List.length_append]
      omega)
  unfold fillPending
  rw [next]
  dsimp only
  rw [if_neg some]
  rw [List.length_nil] at parsed
  rw [parsed]
  have filled : (dev.pending ++ b.records.map fun r => dev.packet r.data).isEmpty = false := by
    rw [List.isEmpty_eq_false_iff]
    apply List.append_ne_nil_of_right_ne_nil
    intro none
    exact b.some (List.map_eq_nil_iff.mp none)
  rw [ok_bind]
  change Except.ok (Except.ok (!(dev.pending ++ b.records.map fun r => dev.packet r.data).isEmpty), _)
    = _
  rw [filled]
  rfl

/-- Two buffers of the same octets hold the same packets. -/
theorem packets_of_bytes (dev : BpfDev) {b b' : BpfBuffer} (same : b.bytes = b'.bytes) :
    (b.records.map fun r => dev.packet r.data) = b'.records.map fun r => dev.packet r.data := by
  have first := @fillPending_buffer { dev with file := [.data b.bytes], pending := [] } b [] rfl
  have second := @fillPending_buffer { dev with file := [.data b.bytes], pending := [] } b' []
    (by rw [← same])
  rw [first] at second
  exact congrArg BpfDev.pending (Prod.mk.inj (Except.ok.inj second)).2

theorem fillPending_idle (none : dev.file = []) : dev.fillPending = .ok (.ok false, dev) := by
  unfold fillPending
  rw [none]
  rfl

end BpfDev

/- Buffers of one packet. -/

/-- Nothing waits with the device, and the buffer it has next, if any, is one of one packet. -/
def BpfDev.Single (dev : BpfDev) : Prop :=
  dev.pending = [] ∧ (dev.file = [] ∨
    ∃ (b : BpfBuffer) (rest : List BpfRead) (r : BpfRecord),
      dev.file = .data b.bytes :: rest ∧ b.records = [r])

/-- The device when its next buffer was read and its packet taken. -/
def BpfDev.served (dev : BpfDev) (b : BpfBuffer) (rest : List BpfRead) : BpfDev :=
  { dev with file := rest, buf := b.bytes ++ dev.buf.drop b.bytes.length }

namespace MacCapture

variable {cap : MacCapture} {n : Nat}

theorem pop_pending {dev : BpfDev} {b : BpfBuffer} {rest : List BpfRead} {p : CapturePacket}
    (nothing : dev.pending = []) :
    BpfDev.pop { dev with
      file := rest
      buf := b.bytes ++ dev.buf.drop b.bytes.length
      pending := [p] } = some (p, dev.served b rest) := by
  unfold BpfDev.pop BpfDev.served
  rw [nothing]
  rfl

theorem set_same {dev : BpfDev} {i : Nat} (found : cap.devices[i]? = some dev) :
    cap.devices.set i dev = cap.devices := by
  obtain ⟨inside, here⟩ := List.getElem?_eq_some_iff.mp found
  rw [← here]
  exact List.set_getElem_self inside

/-- Rounds over devices with at most one packet in a buffer: nothing is there, or the first packet
that is there is delivered. -/
theorem poll_single {rounds : Nat} (count : cap.devices.length = n) (some : 0 < n)
    (single : ∀ dev ∈ cap.devices, dev.Single) :
    ((∀ j < rounds, ∃ dev, cap.devices[(cap.rr + j) % n]? = Option.some dev ∧ dev.file = []) ∧
      cap.poll n rounds = .ok (.ok none, { cap with rr := cap.rr + rounds })) ∨
    ∃ i dev b rest r rr, cap.devices[i]? = Option.some dev ∧
      dev.file = .data b.bytes :: rest ∧ b.records = [r] ∧
      cap.poll n rounds = .ok (.ok (Option.some (dev.packet r.data)),
        { cap with rr := rr, devices := cap.devices.set i (dev.served b rest) }) := by
  induction rounds generalizing cap with
  | zero => exact .inl ⟨by simp, rfl⟩
  | succ rounds ih =>
    have inside : cap.rr % n < cap.devices.length := by
      rw [count]
      exact Nat.mod_lt _ some
    obtain ⟨dev, here⟩ : ∃ dev, cap.devices[cap.rr % n]? = Option.some dev :=
      ⟨_, List.getElem?_eq_getElem inside⟩
    obtain ⟨nothing, idle | ⟨b, rest, r, next, one⟩⟩ := single dev (List.mem_of_getElem? here)
    · have step : cap.poll n (rounds + 1) = poll n rounds { cap with rr := cap.rr + 1 } := by
        rw [poll]
        dsimp only
        rw [here]
        dsimp only
        rw [BpfDev.fillPending_idle idle, ok_bind]
        change poll n rounds { cap with rr := cap.rr + 1, devices := cap.devices.set _ dev } = _
        rw [set_same here]
      rw [step]
      rcases @ih { cap with rr := cap.rr + 1 } count single with ⟨empty, polled⟩ | found
      · refine .inl ⟨?_, ?_⟩
        · intro j bound
          cases j with
          | zero => exact ⟨dev, here, idle⟩
          | succ j =>
            obtain ⟨dev, there, none⟩ := empty j (Nat.lt_of_succ_lt_succ bound)
            have shift : cap.rr + (j + 1) = cap.rr + 1 + j := by omega
            exact ⟨dev, by rw [shift]; exact there, none⟩
        · rw [polled, Nat.add_assoc, Nat.add_comm 1]
      · exact .inr found
    · refine .inr ⟨cap.rr % n, dev, b, rest, r, cap.rr + 1, here, next, one, ?_⟩
      rw [poll]
      dsimp only
      rw [here]
      dsimp only
      rw [BpfDev.fillPending_buffer next, ok_bind]
      dsimp only
      rw [nothing, one, List.nil_append, List.map_singleton, pop_pending nothing]
      rfl

/-- As many rounds as there are devices come to all of them. -/
theorem round_robin {i rr : Nat} (inside : i < n) : ∃ j < n, (rr + j) % n = i := by
  refine ⟨(i + (n - rr % n)) % n, Nat.mod_lt _ (by omega), ?_⟩
  have bound := Nat.mod_lt rr (Nat.zero_lt_of_lt inside)
  have whole : rr + (i + (n - rr % n)) = i + n * (rr / n + 1) := by
    have parts := Nat.div_add_mod rr n
    rw [Nat.mul_add, Nat.mul_one]
    omega
  rw [Nat.add_mod_mod, whole, Nat.add_mul_mod_self_left, Nat.mod_eq_of_lt inside]

/-- A call over such devices. -/
theorem nextPacket_single (single : ∀ dev ∈ cap.devices, dev.Single) :
    ((∀ dev ∈ cap.devices, dev.file = []) ∧
      ∃ rr, cap.nextPacket = .ok (.ok none, { cap with rr := rr })) ∨
    ∃ i dev b rest r rr, cap.devices[i]? = some dev ∧
      dev.file = .data b.bytes :: rest ∧ b.records = [r] ∧
      cap.nextPacket = .ok (.ok (some (dev.packet r.data)),
        { cap with rr := rr, devices := cap.devices.set i (dev.served b rest) }) := by
  rcases Nat.eq_zero_or_pos cap.devices.length with none | more
  · refine .inl ⟨?_, cap.rr, ?_⟩
    · rw [List.length_eq_zero_iff.mp none]
      simp
    · exact if_pos none
  · have inside := Nat.mod_lt cap.rr more
    have here := List.getElem?_eq_getElem inside
    have nothing := (single _ (List.getElem_mem inside)).1
    have asked : cap.nextPacket = cap.poll cap.devices.length cap.devices.length := by
      unfold nextPacket
      dsimp only
      rw [if_neg (by omega), here]
      dsimp only
      have unpopped : BpfDev.pop cap.devices[cap.rr % cap.devices.length] = none := by
        unfold BpfDev.pop
        rw [nothing]
        rfl
      rw [unpopped]
    rw [asked]
    rcases poll_single rfl more single with ⟨empty, polled⟩ | found
    · refine .inl ⟨?_, _, polled⟩
      intro dev member
      obtain ⟨i, there⟩ := List.getElem?_of_mem member
      obtain ⟨bound, -⟩ := List.getElem?_eq_some_iff.mp there
      obtain ⟨j, turn, same⟩ := @round_robin _ i cap.rr bound
      obtain ⟨dev', found, idle⟩ := empty j turn
      rw [same, there] at found
      cases found
      exact idle
    · exact .inr found

end MacCapture

/-- What the packets of a device are reported with. -/
def BpfDev.label (dev : BpfDev) : String × LinkType := (dev.iface, dev.linkType)

theorem BpfDev.packet_label {dev other : BpfDev} (same : dev.label = other.label) :
    dev.packet = other.packet := by
  obtain ⟨iface, link⟩ := Prod.mk.inj same
  funext data
  unfold BpfDev.packet
  rw [iface, link]

/-- What was delivered from each device and what it still has to read are together what arrived
at it. -/
structure MacHolds (cap₀ cap : MacCapture) (arrived : List (Nat × BpfBuffer))
    (calls : List (Option CapturePacket)) : Prop where
  labels : cap.devices.map BpfDev.label = cap₀.devices.map BpfDev.label
  held : ∀ i dev, cap.devices[i]? = some dev → dev.pending = [] ∧
    ∃ unread : List BpfBuffer, dev.file = unread.map (fun b => .data b.bytes) ∧
      (∀ b ∈ unread, b.records.length ≤ 1) ∧
      deliveredFrom dev.iface calls
          ++ (unread.flatMap (·.records)).map (fun r => dev.packet r.data)
        = (arrivedAt i arrived).map fun r => dev.packet r.data

namespace MacHolds

variable {cap₀ cap : MacCapture} {arrived : List (Nat × BpfBuffer)}
  {calls : List (Option CapturePacket)}

theorem single (holds : MacHolds cap₀ cap arrived calls) :
    ∀ dev ∈ cap.devices, dev.Single := by
  intro dev member
  obtain ⟨i, here⟩ := List.getElem?_of_mem member
  obtain ⟨nothing, unread, file, ones, -⟩ := holds.held i dev here
  refine ⟨nothing, ?_⟩
  cases unread with
  | nil => exact .inl file
  | cons b rest =>
    obtain ⟨r, one⟩ : ∃ r, b.records = [r] := by
      apply List.length_eq_one_iff.mp
      have some := List.length_pos_iff.mpr b.some
      have most := ones b List.mem_cons_self
      omega
    exact .inr ⟨b, _, r, file, one⟩

/-- Devices apart from each other have interfaces of different names. -/
theorem iface_apart (holds : MacHolds cap₀ cap arrived calls)
    (distinct : (cap₀.devices.map (·.iface)).Nodup) {i j : Nat} {dev other : BpfDev}
    (here : cap.devices[i]? = some dev) (there : cap.devices[j]? = some other) (apart : i ≠ j) :
    dev.iface ≠ other.iface := by
  intro same
  have names : cap.devices.map (·.iface) = cap₀.devices.map (·.iface) := by
    have first := congrArg (List.map Prod.fst) holds.labels
    rw [List.map_map, List.map_map] at first
    exact first
  rw [← names] at distinct
  obtain ⟨bound, first⟩ := List.getElem?_eq_some_iff.mp here
  obtain ⟨bound', second⟩ := List.getElem?_eq_some_iff.mp there
  apply apart
  apply (@List.Nodup.getElem_inj_iff _ _ distinct i (by rwa [List.length_map]) j
    (by rwa [List.length_map])).mp
  rw [List.getElem_map, List.getElem_map, first, second]
  exact same

theorem arrive (holds : MacHolds cap₀ cap arrived calls) {i : Nat} {dev : BpfDev} {b : BpfBuffer}
    (found : cap.devices[i]? = some dev) (one : b.records.length ≤ 1) :
    MacHolds cap₀ (cap.setDev i { dev with file := dev.file ++ [.data b.bytes] })
      (arrived ++ [(i, b)]) calls := by
  refine ⟨?_, ?_⟩
  · rw [← holds.labels]
    exact Entries.map_set_same found rfl
  intro j dev' here
  rcases Entries.set_cases here with ⟨rfl, rfl⟩ | ⟨apart, there⟩
  · obtain ⟨nothing, unread, file, ones, total⟩ := holds.held i dev found
    refine ⟨nothing, unread ++ [b], ?_, ?_, ?_⟩
    · change dev.file ++ _ = _
      rw [file, List.map_append]
      rfl
    · intro b' member
      rcases List.mem_append.mp member with old | new
      · exact ones b' old
      · rw [List.mem_singleton.mp new]
        exact one
    · have more : arrivedAt i (arrived ++ [(i, b)]) = arrivedAt i arrived ++ b.records := by
        simp [arrivedAt]
      rw [more, List.map_append, List.flatMap_append, List.map_append, ← List.append_assoc,
        List.flatMap_singleton]
      exact congrArg (· ++ _) total
  · have more : arrivedAt j (arrived ++ [(i, b)]) = arrivedAt j arrived := by
      simp [arrivedAt, apart]
    rw [more]
    exact holds.held j dev' there

/-- A call that finds nothing only moves on. -/
theorem idle (holds : MacHolds cap₀ cap arrived calls) (rr : Nat) :
    MacHolds cap₀ { cap with rr := rr } arrived (calls ++ [none]) := by
  refine ⟨holds.labels, ?_⟩
  intro i dev here
  obtain ⟨nothing, unread, file, ones, total⟩ := holds.held i dev here
  have same : deliveredFrom dev.iface (calls ++ [none]) = deliveredFrom dev.iface calls := by
    simp [deliveredFrom, List.reduceOption_append]
  exact ⟨nothing, unread, file, ones, by rw [same]; exact total⟩

/-- A call that delivers takes the packet off its device and leaves the others alone. -/
theorem deliver (holds : MacHolds cap₀ cap arrived calls)
    (distinct : (cap₀.devices.map (·.iface)).Nodup) {i rr : Nat} {dev : BpfDev} {b : BpfBuffer}
    {rest : List BpfRead} {r : BpfRecord} (found : cap.devices[i]? = some dev)
    (next : dev.file = .data b.bytes :: rest) (one : b.records = [r]) :
    MacHolds cap₀ { cap with rr := rr, devices := cap.devices.set i (dev.served b rest) } arrived
      (calls ++ [some (dev.packet r.data)]) := by
  refine ⟨?_, ?_⟩
  · rw [← holds.labels]
    exact Entries.map_set_same found rfl
  intro j dev' here
  rcases Entries.set_cases here with ⟨rfl, rfl⟩ | ⟨apart, there⟩
  · obtain ⟨nothing, unread, file, ones, total⟩ := holds.held i dev found
    cases unread with
    | nil =>
      rw [next] at file
      cases file
    | cons b' unread =>
      rw [next, List.map_cons] at file
      obtain ⟨first, others⟩ := List.cons.inj file
      have records := BpfDev.packets_of_bytes dev (BpfRead.data.inj first)
      rw [one, List.map_singleton] at records
      refine ⟨nothing, unread, others, fun b member => ones b (List.mem_cons_of_mem _ member), ?_⟩
      have more : deliveredFrom dev.iface (calls ++ [some (dev.packet r.data)])
          = deliveredFrom dev.iface calls ++ [dev.packet r.data] := by
        simp [deliveredFrom, List.reduceOption_append, BpfDev.packet]
      rw [List.flatMap_cons, List.map_append, ← List.append_assoc, ← records] at total
      change deliveredFrom dev.iface _ ++ _ = _
      rw [more]
      exact total
  · obtain ⟨nothing, unread, file, ones, total⟩ := holds.held j dev' there
    have other : dev.iface ≠ dev'.iface := holds.iface_apart distinct found there apart
    have same : deliveredFrom dev'.iface (calls ++ [some (dev.packet r.data)])
        = deliveredFrom dev'.iface calls := by
      simp [deliveredFrom, List.reduceOption_append, BpfDev.packet, other]
    exact ⟨nothing, unread, file, ones, by rw [same]; exact total⟩

end MacHolds

/-- In a run whose buffers hold one packet each, all that arrived is delivered or still to read. -/
theorem mac_run {cap₀ cap : MacCapture} {arrived : List (Nat × BpfBuffer)}
    {calls : List (Option CapturePacket)} (opened : cap₀.Opened)
    (run : MacRun cap₀ cap arrived calls) (single : ∀ a ∈ arrived, a.2.records.length ≤ 1) :
    MacHolds cap₀ cap arrived calls := by
  induction run with
  | start =>
    refine ⟨rfl, fun i dev here => ?_⟩
    obtain ⟨file, pending⟩ := opened.empty dev (List.mem_of_getElem? here)
    exact ⟨pending, [], file, by simp, rfl⟩
  | arrive run found room ih =>
    rw [List.forall_mem_append, List.forall_mem_singleton] at single
    exact (ih single.1).arrive found single.2
  | @call cap after arrived calls found run called ih =>
    have holds := ih single
    rcases MacCapture.nextPacket_single holds.single with
      ⟨-, rr, nothing⟩ | ⟨i, dev, b, rest, r, rr, here, next, one, delivered⟩
    · rw [nothing] at called
      cases called
      exact holds.idle rr
    · rw [delivered] at called
      cases called
      exact holds.deliver opened.distinct here next one

/-- How many buffers are still to read. -/
def MacCapture.unread (cap : MacCapture) : Nat := (cap.devices.map (·.file.length)).sum

theorem MacRun.call_first {cap mid last : MacCapture} {arrived : List (Nat × BpfBuffer)}
    {found : Option CapturePacket} {calls : List (Option CapturePacket)}
    (called : cap.nextPacket = .ok (.ok found, mid)) (run : MacRun mid last arrived calls) :
    MacRun cap last arrived (found :: calls) := by
  induction run with
  | start => exact .call .start called
  | arrive _ found room ih => exact .arrive ih found room
  | call _ called ih => exact .call ih called

/-- Calls until one finds nothing. -/
theorem mac_drain {cap₀ cap : MacCapture} {arrived : List (Nat × BpfBuffer)}
    {calls : List (Option CapturePacket)} (distinct : (cap₀.devices.map (·.iface)).Nodup)
    (holds : MacHolds cap₀ cap arrived calls) :
    ∃ last rr, ∃ more : List CapturePacket, MacRun cap last [] (more.map some) ∧
      last.nextPacket = .ok (.ok none, { last with rr := rr }) ∧
      MacHolds cap₀ last arrived (calls ++ more.map some) ∧ ∀ dev ∈ last.devices, dev.file = [] := by
  induction total : cap.unread using Nat.strongRecOn generalizing cap calls with
  | ind k ih =>
    rcases MacCapture.nextPacket_single holds.single with
      ⟨empty, rr, nothing⟩ | ⟨i, dev, b, rest, r, rr, here, next, one, delivered⟩
    · exact ⟨cap, rr, [], .start, nothing, by rwa [List.map_nil, List.append_nil], empty⟩
    · have onwards : MacHolds cap₀
          { cap with rr := rr, devices := cap.devices.set i (dev.served b rest) } _ _ :=
        holds.deliver distinct here next one
      have fewer : MacCapture.unread
          { cap with rr := rr, devices := cap.devices.set i (dev.served b rest) } + 1 = k := by
        have step : MacCapture.unread { cap with
            rr := rr, devices := cap.devices.set i (dev.served b rest) } + dev.file.length
              = cap.unread + rest.length := Entries.sum_map_set here
        rw [next, List.length_cons] at step
        omega
      obtain ⟨last, rr', more, run, nothing, ends, empty⟩ := ih _ (by omega) onwards rfl
      refine ⟨last, rr', dev.packet r.data :: more, run.call_first delivered, nothing, ?_, empty⟩
      rwa [List.append_assoc] at ends

/-- A buffer of several packets is delivered from its end. -/
theorem nextPacket_takes_last {cap : MacCapture} {dev : BpfDev} {b : BpfBuffer}
    {rest : List BpfRead} {rs : List BpfRecord} {r : BpfRecord}
    (here : cap.devices[cap.rr % cap.devices.length]? = some dev) (nothing : dev.pending = [])
    (next : dev.file = .data b.bytes :: rest) (several : b.records = rs ++ [r]) :
    cap.nextPacket = .ok (.ok (some (dev.packet r.data)), { cap with
      rr := cap.rr + 1
      devices := cap.devices.set (cap.rr % cap.devices.length) { dev.served b rest with
        pending := rs.map fun r => dev.packet r.data } }) := by
  obtain ⟨inside, -⟩ := List.getElem?_eq_some_iff.mp here
  have unpopped : dev.pop = none := by
    unfold BpfDev.pop
    rw [nothing]
    rfl
  obtain ⟨n, count⟩ := Nat.exists_eq_succ_of_ne_zero (Nat.ne_zero_of_lt inside)
  unfold MacCapture.nextPacket
  dsimp only
  rw [if_neg (by omega), here]
  dsimp only
  rw [unpopped]
  dsimp only
  conv_lhs => rw [count]
  rw [MacCapture.poll]
  dsimp only
  rw [← count, here]
  dsimp only
  rw [BpfDev.fillPending_buffer next, ok_bind]
  dsimp only
  have popped : BpfDev.pop { dev with
      file := rest
      buf := b.bytes ++ dev.buf.drop b.bytes.length
      pending := dev.pending ++ b.records.map fun r => dev.packet r.data }
      = some (dev.packet r.data, { dev.served b rest with
          pending := rs.map fun r => dev.packet r.data }) := by
    unfold BpfDev.pop BpfDev.served
    rw [nothing, several, List.nil_append, List.map_append, List.map_singleton]
    dsimp only
    rw [List.getLast?_concat, List.dropLast_concat]
    rfl
  rw [popped]
  rfl

/-- A packet of one octet, and two of them in one buffer. -/
def oneOctet (x : UInt8) : BpfRecord where
  stamp := List.replicate 16 0
  datalen := 1
  extra := []
  data := [x]
  stampWidth := by decide
  fits := by simp

def twoOctets : BpfBuffer where
  records := [oneOctet 1, oneOctet 2]
  trail := []
  some := by decide
  short := by decide

def idleDev (iface : String) : BpfDev where
  file := []
  buf := List.replicate 64 0
  pending := []
  iface := iface
  linkType := .ethernet

def idleCapture (ifaces : List String) : MacCapture where
  devices := ifaces.map idleDev
  iface := "any"
  linkType := .ethernet
  rr := 0

def oneBuffer : BpfBuffer where
  records := [oneOctet 7]
  trail := []
  some := by decide
  short := by decide

end BitBeak
