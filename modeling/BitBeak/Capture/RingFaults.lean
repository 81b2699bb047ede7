import BitBeak.Capture.DiskRing

/-! The rotating files on a disk whose operations may fail, and what becomes of a ring that could
not begin a new file. -/
namespace BitBeak

/-- Which operations on the disk succeed: the directory is created, a file is created and taken by
the writer of the package, and the three kinds of blocks are written. -/
structure DiskAnswers where
  directory : Bool := true
  create : Bool := true
  begins : Bool := true
  header : Bool := true
  iface : Bool := true
  packet : Bool := true
  deriving DecidableEq, Repr

inductive RingError where
  | directory
  | create (path : String)
  | begins
  | block
  | noWriter
  deriving DecidableEq, Repr

/-- What is said of the error, but what the system says. -/
def RingError.context : RingError → Option String
  | directory | block => none
  | create path => some ("create ring file " ++ path)
  | begins => some "pcapng"
  | noWriter => some "no ring writer"

namespace DiskRing

/-- Writer, interface and counter are reset before anything is tried. -/
def tryRotate (disk : DiskAnswers) (ring : DiskRing) : DiskRing × Except RingError Unit :=
  let ring := { ring with writer := none, wroteIface := false, currentBytes := 0 }
  let path := ring.pathFor ring.currentIdx
  if disk.create = false then (ring, .error (.create path))
  else
    let ring := { ring with dir := ring.dir.create path }
    if disk.begins = false then (ring, .error .begins)
    else if disk.header = false then (ring, .error .block)
    else
      ({ ring with
          dir := ring.dir.write path (.sectionHeader sectionBlock)
          writer := some path
          currentIdx := ring.currentIdx + 1 },
        .ok ())

def tryNew (disk : DiskAnswers) (filePrefix : String) (maxMb maxFiles : Nat) :
    Except RingError DiskRing :=
  if disk.directory = false then .error .directory
  else
    match (unopened filePrefix maxMb maxFiles).tryRotate disk with
    | (_, .error e) => .error e
    | (ring, .ok ()) => .ok ring

section
variable (blockSize : PcapNgBlock → Nat)

/-- A block that is not written leaves the file as it is. -/
def tryPut (disk : DiskAnswers) (ring : DiskRing) (pkt : PacketRecord) :
    DiskRing × Except RingError Unit :=
  match ring.writer with
  | none => (ring, .error .noWriter)
  | some path =>
    if ring.wroteIface = false ∧ disk.iface = false then (ring, .error .block)
    else
      let ring := ring.describeIface path pkt.linkType
      if disk.packet = false then (ring, .error .block)
      else
        let block := enhancedBlock pkt
        ({ ring with
            dir := ring.dir.write path block
            currentBytes := (ring.currentBytes + blockSize block) % 2 ^ 64 },
          .ok ())

def tryWritePacket (disk : DiskAnswers) (ring : DiskRing) (pkt : PacketRecord) :
    DiskRing × Except RingError Unit :=
  if ring.maxBytes ≤ ring.currentBytes then
    match ring.tryRotate disk with
    | (ring, .error e) => (ring, .error e)
    | (ring, .ok ()) => ring.tryPut blockSize disk pkt
  else ring.tryPut blockSize disk pkt

/-- What is left of the ring when packets have been written, and no error minded. -/
def drain (ring : DiskRing) (calls : List (DiskAnswers × PacketRecord)) : DiskRing :=
  calls.foldl (fun ring call => (ring.tryWritePacket blockSize call.1 call.2).1) ring

/- On a disk that works, this is the ring that cannot fail. -/

theorem tryRotate_working (ring : DiskRing) : ring.tryRotate {} = (ring.rotate, .ok ()) := rfl

theorem tryPut_working (ring next : DiskRing) (pkt : PacketRecord) :
    ring.tryPut blockSize {} pkt = (next, .ok ()) ↔ ring.putPacket blockSize pkt = some next := by
  cases opened : ring.writer with
  | none => simp [tryPut, putPacket, opened]
  | some path => simp [tryPut, putPacket, opened]

/-- The two rings write the same packets. -/
theorem tryWritePacket_working (ring next : DiskRing) (pkt : PacketRecord) :
    ring.tryWritePacket blockSize {} pkt = (next, .ok ()) ↔
      ring.writePacket blockSize pkt = some next := by
  by_cases due : ring.maxBytes ≤ ring.currentBytes
  · simp only [tryWritePacket, writePacket, if_pos due, tryRotate_working]
    exact tryPut_working blockSize ring.rotate next pkt
  · simp only [tryWritePacket, writePacket, if_neg due]
    exact tryPut_working blockSize ring next pkt

theorem tryNew_working (filePrefix : String) (maxMb maxFiles : Nat) :
    tryNew {} filePrefix maxMb maxFiles = .ok (new filePrefix maxMb maxFiles) := rfl

end

/- The bound on the size of a file does not change. -/

theorem tryRotate_maxBytes (disk : DiskAnswers) (ring : DiskRing) :
    (ring.tryRotate disk).1.maxBytes = ring.maxBytes := by
  unfold tryRotate
  dsimp only
  split_ifs <;> rfl

theorem tryPut_maxBytes (blockSize : PcapNgBlock → Nat) (disk : DiskAnswers) (ring : DiskRing)
    (pkt : PacketRecord) : (ring.tryPut blockSize disk pkt).1.maxBytes = ring.maxBytes := by
  have described (path : String) :
      (ring.describeIface path pkt.linkType).maxBytes = ring.maxBytes := by
    unfold describeIface
    split <;> rfl
  unfold tryPut
  cases ring.writer with
  | none => rfl
  | some path =>
    dsimp only
    split_ifs
    · rfl
    · exact described path
    · exact described path

theorem tryWritePacket_maxBytes (blockSize : PcapNgBlock → Nat) (disk : DiskAnswers)
    (ring : DiskRing) (pkt : PacketRecord) :
    (ring.tryWritePacket blockSize disk pkt).1.maxBytes = ring.maxBytes := by
  unfold tryWritePacket
  split
  · have same := tryRotate_maxBytes disk ring
    split
    · next rotated =>
      rw [rotated] at same
      exact same
    · next rotated =>
      rw [rotated] at same
      exact (tryPut_maxBytes blockSize disk _ pkt).trans same
  · exact tryPut_maxBytes blockSize disk ring pkt

theorem drain_maxBytes (blockSize : PcapNgBlock → Nat) (ring : DiskRing)
    (calls : List (DiskAnswers × PacketRecord)) :
    (ring.drain blockSize calls).maxBytes = ring.maxBytes := by
  induction calls generalizing ring with
  | nil => rfl
  | cons call calls ih =>
    exact (ih _).trans (tryWritePacket_maxBytes blockSize call.1 ring call.2)

theorem tryNew_maxBytes {disk : DiskAnswers} {filePrefix : String} {maxMb maxFiles : Nat}
    {ring : DiskRing} (created : tryNew disk filePrefix maxMb maxFiles = .ok ring) :
    ring.maxBytes = max maxMb 1 * 1024 * 1024 % 2 ^ 64 := by
  have same := tryRotate_maxBytes disk (unopened filePrefix maxMb maxFiles)
  unfold tryNew at created
  split at created
  · cases created
  · split at created
    · cases created
    · next rotated =>
      cases created
      rw [rotated] at same
      exact same

/- A rotation that fails. -/

/-- No file is open, and none is due. -/
structure Stuck (ring : DiskRing) : Prop where
  writer : ring.writer = none
  early : ring.currentBytes < ring.maxBytes

/-- The bytes are counted from zero again before the new file is there. -/
theorem tryRotate_failed {disk : DiskAnswers} {ring : DiskRing}
    (failed : (ring.tryRotate disk).2 ≠ .ok ()) :
    (ring.tryRotate disk).1.writer = none ∧ (ring.tryRotate disk).1.currentBytes = 0 := by
  unfold tryRotate at failed ⊢
  dsimp only at failed ⊢
  split_ifs at failed ⊢ with create begins header
  · exact ⟨rfl, rfl⟩
  · exact ⟨rfl, rfl⟩
  · exact ⟨rfl, rfl⟩
  · exact absurd rfl failed

theorem tryWritePacket_failed {blockSize : PcapNgBlock → Nat} {disk : DiskAnswers}
    {ring : DiskRing} (due : ring.maxBytes ≤ ring.currentBytes)
    (failed : (ring.tryRotate disk).2 ≠ .ok ()) (pkt : PacketRecord) :
    (ring.tryWritePacket blockSize disk pkt).1 = (ring.tryRotate disk).1 := by
  rw [tryWritePacket, if_pos due]
  split
  · next rotated => rw [rotated]
  · next rotated =>
    rw [rotated] at failed
    exact absurd rfl failed

/-- A ring without a file stays as it is, whatever the disk does. -/
theorem Stuck.step {ring : DiskRing} (stuck : Stuck ring) (blockSize : PcapNgBlock → Nat)
    (disk : DiskAnswers) (pkt : PacketRecord) :
    ring.tryWritePacket blockSize disk pkt = (ring, .error .noWriter) := by
  rw [tryWritePacket, if_neg (Nat.not_le_of_lt stuck.early), tryPut, stuck.writer]

theorem Stuck.drain {ring : DiskRing} (stuck : Stuck ring) (blockSize : PcapNgBlock → Nat)
    (calls : List (DiskAnswers × PacketRecord)) : ring.drain blockSize calls = ring := by
  induction calls with
  | nil => rfl
  | cons call calls ih =>
    have same : (ring.tryWritePacket blockSize call.1 call.2).1 = ring :=
      congrArg Prod.fst (stuck.step blockSize call.1 call.2)
    rw [DiskRing.drain, List.foldl_cons, same]
    exact ih

theorem stuck_of_failed {blockSize : PcapNgBlock → Nat} {disk : DiskAnswers} {ring : DiskRing}
    (due : ring.maxBytes ≤ ring.currentBytes) (failed : (ring.tryRotate disk).2 ≠ .ok ())
    (pkt : PacketRecord) (bounded : ring.maxBytes ≠ 0) :
    Stuck (ring.tryWritePacket blockSize disk pkt).1 := by
  rw [tryWritePacket_failed due failed]
  obtain ⟨writer, zero⟩ := tryRotate_failed failed
  refine ⟨writer, ?_⟩
  rw [zero, tryRotate_maxBytes]
  exact Nat.pos_of_ne_zero bounded

/-- Where every packet is due for a new file, it is written once the disk works. -/
theorem written_of_unbounded (blockSize : PcapNgBlock → Nat) {ring : DiskRing}
    (unbounded : ring.maxBytes = 0) (pkt : PacketRecord) :
    (ring.tryWritePacket blockSize {} pkt).2 = .ok () := by
  have due : ring.maxBytes ≤ ring.currentBytes := unbounded ▸ Nat.zero_le _
  rw [tryWritePacket, if_pos due]
  simp [tryRotate_working, tryPut, rotate]

/-- After a rotation that failed, the ring writes the packets that the disk takes again, or any of
them, if and only if the bound on the size of its files is zero. -/
theorem ring_resumes_iff (blockSize : PcapNgBlock → Nat) {filePrefix : String}
    {maxMb maxFiles : Nat} {first : DiskAnswers} {ring : DiskRing}
    (created : tryNew first filePrefix maxMb maxFiles = .ok ring)
    (before : List (DiskAnswers × PacketRecord)) {faults : DiskAnswers}
    (due : (ring.drain blockSize before).maxBytes ≤ (ring.drain blockSize before).currentBytes)
    (failed : ((ring.drain blockSize before).tryRotate faults).2 ≠ .ok ()) (pkt : PacketRecord) :
    let left := ((ring.drain blockSize before).tryWritePacket blockSize faults pkt).1
    ((∀ later pkt', ((left.drain blockSize later).tryWritePacket blockSize {} pkt').2 = .ok ()) ↔
        max maxMb 1 * 1024 * 1024 % 2 ^ 64 = 0) ∧
      ((∃ later disk pkt',
          ((left.drain blockSize later).tryWritePacket blockSize disk pkt').2 = .ok ()) ↔
        max maxMb 1 * 1024 * 1024 % 2 ^ 64 = 0) := by
  intro left
  have bound : (ring.drain blockSize before).maxBytes = max maxMb 1 * 1024 * 1024 % 2 ^ 64 :=
    (drain_maxBytes blockSize ring before).trans (tryNew_maxBytes created)
  have same : left.maxBytes = max maxMb 1 * 1024 * 1024 % 2 ^ 64 :=
    (tryWritePacket_maxBytes blockSize faults _ pkt).trans bound
  have resumes : max maxMb 1 * 1024 * 1024 % 2 ^ 64 = 0 → ∀ later pkt',
      ((left.drain blockSize later).tryWritePacket blockSize {} pkt').2 = .ok () := by
    intro zero later pkt'
    have unbounded : (left.drain blockSize later).maxBytes = 0 :=
      (drain_maxBytes blockSize left later).trans (same.trans zero)
    exact written_of_unbounded blockSize unbounded pkt'
  have silent (later disk pkt')
      (written : ((left.drain blockSize later).tryWritePacket blockSize disk pkt').2 = .ok ()) :
      max maxMb 1 * 1024 * 1024 % 2 ^ 64 = 0 := by
    by_contra bounded
    have stuck : Stuck left := stuck_of_failed due failed pkt (bound ▸ bounded)
    rw [stuck.drain, stuck.step] at written
    cases written
  exact ⟨⟨fun all => silent [] {} pkt (all [] pkt), resumes⟩,
    ⟨fun ⟨later, disk, pkt', written⟩ => silent later disk pkt' written,
      fun zero => ⟨[], {}, pkt, resumes zero [] pkt⟩⟩⟩

/-- A packet of the largest size that is announced. -/
def largePacket : PacketRecord := { linkType := .ethernet, data := List.replicate 65535 0 }

/-- The bytes of its block. -/
def largeBlock : PcapNgBlock → Nat := fun _ => 65568

/-- A ring of one megabyte a file, filled. -/
def filled : DiskRing :=
  (new "capture" 1 8).drain largeBlock (List.replicate 16 ({}, largePacket))

theorem filled_due : filled.maxBytes ≤ filled.currentBytes := by decide

theorem filled_resumes_not :
    ¬ ∃ later disk pkt,
      (((filled.tryWritePacket largeBlock { create := false } largePacket).1.drain largeBlock
        later).tryWritePacket largeBlock disk pkt).2 = .ok () := by
  intro resumed
  have zero := (ring_resumes_iff largeBlock (tryNew_working "capture" 1 8)
    (List.replicate 16 ({}, largePacket)) filled_due (by decide) largePacket).2.mp resumed
  exact absurd zero (by decide)

/-- When a file cannot be created once, no packet is written any more. -/
theorem packets_lost_for_good :
    ¬ ∃ later disk pkt,
      (((filled.tryWritePacket largeBlock { create := false } largePacket).1.drain largeBlock
        later).tryWritePacket largeBlock disk pkt).2 ≠ .error .noWriter := by
  rintro ⟨later, disk, pkt, other⟩
  have stuck : Stuck (filled.tryWritePacket largeBlock { create := false } largePacket).1 :=
    stuck_of_failed filled_due (by decide) largePacket (by decide)
  rw [stuck.drain, stuck.step] at other
  exact other rfl

end DiskRing

end BitBeak
