import BitBeak.Dissect.Export

/-! The sequence numbers of an exported session. The number of a segment is the id of its
frame, which the log gives out one by one for both directions together, whatever the
frames carry. -/
namespace BitBeak
open Wire Rings

/-- The id the log gives the frame after `k` others. -/
def logNumber (k : Nat) : Nat := min (k + 1) (2 ^ 64 - 1)

/-- What a log of this capacity keeps of the frames pushed, with the number of frames in front
of each. -/
def keptFrames (capacity : Nat) (pushes : List Frame) : List (Frame × Nat) :=
  pushes.zipIdx.rtake (max capacity 1)

def numberedFrame (pushed : Frame × Nat) : Frame := pushed.1.withId (logNumber pushed.2)

theorem saturatingSucc_logNumber (k : Nat) : saturatingSucc (logNumber k) = logNumber (k + 1) := by
  unfold saturatingSucc logNumber
  omega

/-- However many frames are pushed, the log keeps the latest of them under these ids. -/
theorem pushAll_numbered (capacity : Nat) (pushes : List Frame) :
    ((FrameBuffer.new capacity).pushAll pushes).capacity = max capacity 1 ∧
      ((FrameBuffer.new capacity).pushAll pushes).nextId = logNumber pushes.length ∧
      ((FrameBuffer.new capacity).pushAll pushes).frames =
        (keptFrames capacity pushes).map numberedFrame := by
  induction pushes using List.reverseRecOn with
  | nil =>
    refine ⟨rfl, rfl, ?_⟩
    rw [keptFrames, List.zipIdx_nil, List.rtake_nil]
    rfl
  | append_singleton pushes f ih =>
    obtain ⟨cap, next, frames⟩ := ih
    have positive : 0 < max capacity 1 := by omega
    rw [FrameBuffer.pushAll, List.foldl_append]
    refine ⟨cap, ?_, ?_⟩
    · rw [List.length_append, List.length_singleton, ← saturatingSucc_logNumber, ← next]
      rfl
    · have kept : keptFrames capacity (pushes ++ [f]) =
          push (max capacity 1) (keptFrames capacity pushes) (f, pushes.length) := by
        rw [keptFrames, List.zipIdx_append, keptFrames, push_rtake positive]
        rw [Nat.zero_add]
        rfl
      have pushed : ((FrameBuffer.new capacity).pushAll pushes |>.pushFull f.direction f.payload
          f.peer f.metadata).frames = push (max capacity 1)
            ((keptFrames capacity pushes).map numberedFrame) (numberedFrame (f, pushes.length)) := by
        rw [← frames, ← cap, numberedFrame, ← next]
        rfl
      rw [kept]
      refine pushed.trans ?_
      unfold push
      rw [List.length_map, List.map_append]
      split
      · rw [List.map_tail]
        rfl
      · rfl

/- What is written. -/

/-- A frame as the package is given it. -/
def writtenPacket (wall : Frame → Nat) (src dst : SocketAddrV4) (frame : Frame) : PcapPacket :=
  let packet := packetOf (frameEnds src dst frame.direction).1
    (frameEnds src dst frame.direction).2 frame.payload (frame.id % 2 ^ 32)
  { timestamp := wall frame, origLen := UInt32.ofNat packet.length, data := packet }

/-- Every frame is written, one packet each. -/
theorem writeFramesPcap_written {File : Type} (crate : PcapFile File) (wall : Frame → Nat)
    (frames : List Frame) (src dst : SocketAddrV4) :
    writeFramesPcap crate wall frames src dst = .ok ((crate.pcapWithHeader framesHeader).bind
      fun file => (frames.map (writtenPacket wall src dst)).foldlM crate.writePacket file) := by
  have each : ∀ frame ∈ frames, (do
      let packet ← framePacket src dst frame
      return { timestamp := wall frame, origLen := UInt32.ofNat packet.length, data := packet } :
        Except Fault PcapPacket) = .ok (writtenPacket wall src dst frame) := by
    intro frame _
    unfold framePacket
    dsimp only
    rw [buildTcpPacket_of]
    rfl
  rw [writeFramesPcap, mapM_ok each]
  rfl

/-- The sequence number in a packet. -/
def packetSeq (packet : PcapPacket) : Nat := beAt packet.data 38 4

/-- What a packet carries behind its headers. -/
def packetPayload (packet : PcapPacket) : Bytes := packet.data.drop 54

/-- The packets of one direction, of packets written for frames of these directions. -/
def directionPackets (d : Direction) (directions : List Direction) (packets : List PcapPacket) :
    List PcapPacket :=
  ((directions.zip packets).filter (·.1 = d)).map (·.2)

/-- In each direction every sequence number is the one before it plus the octets sent there. -/
def Contiguous (directions : List Direction) (packets : List PcapPacket) : Prop :=
  ∀ d, (directionPackets d directions packets).IsChain fun p q =>
    packetSeq q = (packetSeq p + (packetPayload p).length) % 2 ^ 32

/-- In each direction every frame carries as many octets as frames were logged, of either
direction, from it to the next one there (modulo 2^32, with the ids that the log gives). -/
def Paced (capacity : Nat) (pushes : List Frame) : Prop :=
  ∀ d, ((keptFrames capacity pushes).filter (·.1.direction = d)).IsChain fun f g =>
    (logNumber f.2 + f.1.payload.length) % 2 ^ 32 = logNumber g.2 % 2 ^ 32

theorem packetSeq_written (wall : Frame → Nat) (src dst : SocketAddrV4) (frame : Frame) :
    packetSeq (writtenPacket wall src dst frame) = frame.id % 2 ^ 32 := by
  have small : frame.id % 2 ^ 32 < 2 ^ 32 := Nat.mod_lt _ (by decide)
  exact @tcpSegmentOf_seq (frameEnds src dst frame.direction).1
    (frameEnds src dst frame.direction).2 frame.payload _ small

theorem packetPayload_written (wall : Frame → Nat) (src dst : SocketAddrV4) (frame : Frame) :
    packetPayload (writtenPacket wall src dst frame) = frame.payload := rfl

theorem directionPackets_written (wall : Frame → Nat) (src dst : SocketAddrV4) (d : Direction)
    (frames : List Frame) :
    directionPackets d (frames.map (·.direction)) (frames.map (writtenPacket wall src dst)) =
      (frames.filter (·.direction = d)).map (writtenPacket wall src dst) := by
  induction frames with
  | nil => rfl
  | cons frame frames ih =>
    unfold directionPackets at ih ⊢
    rw [List.map_cons, List.map_cons, List.zip_cons_cons, List.filter_cons, List.filter_cons]
    split
    · rw [List.map_cons, ih, List.map_cons]
    · exact ih

theorem contiguous_written (wall : Frame → Nat) (src dst : SocketAddrV4) (capacity : Nat)
    (pushes : List Frame) :
    Contiguous ((((FrameBuffer.new capacity).pushAll pushes).frames).map (·.direction))
        ((((FrameBuffer.new capacity).pushAll pushes).frames).map (writtenPacket wall src dst)) ↔
      Paced capacity pushes := by
  obtain ⟨_, _, frames⟩ := pushAll_numbered capacity pushes
  apply forall_congr'
  intro d
  have kept : ((keptFrames capacity pushes).map numberedFrame).filter (·.direction = d) =
      ((keptFrames capacity pushes).filter (·.1.direction = d)).map numberedFrame :=
    List.filter_map ..
  rw [directionPackets_written, frames, kept, List.isChain_map, List.isChain_map]
  simp only [packetSeq_written, packetPayload_written]
  have step : ∀ f g : Frame × Nat,
      (numberedFrame g).id % 2 ^ 32 =
          ((numberedFrame f).id % 2 ^ 32 + (numberedFrame f).payload.length) % 2 ^ 32 ↔
        (logNumber f.2 + f.1.payload.length) % 2 ^ 32 = logNumber g.2 % 2 ^ 32 := by
    intro f g
    rw [Nat.mod_add_mod]
    exact eq_comm
  simp only [step]

/-- The packets that are written for a log are contiguous in each direction exactly when the
frames are paced. -/
theorem exported_contiguous_iff (capacity : Nat) (pushes : List Frame) (wall : Frame → Nat)
    (src dst : SocketAddrV4) : ∃ packets,
      (∀ (File : Type) (crate : PcapFile File), writeFramesPcap crate wall
        ((FrameBuffer.new capacity).pushAll pushes).frames src dst =
          .ok ((crate.pcapWithHeader framesHeader).bind fun file =>
            packets.foldlM crate.writePacket file)) ∧
      (Contiguous ((((FrameBuffer.new capacity).pushAll pushes).frames).map (·.direction)) packets ↔
        Paced capacity pushes) :=
  ⟨_, fun _ crate => writeFramesPcap_written crate wall _ src dst,
    contiguous_written wall src dst capacity pushes⟩

/-- Two frames of one direction in a row, of five octets each. -/
def twoGreetings : List Frame :=
  let hello := Frame.new 0 .outward [104, 101, 108, 108, 111]
  [hello, hello]

theorem twoGreetings_not_contiguous : ∃ packets,
    (∀ (File : Type) (crate : PcapFile File), writeFramesPcap crate (fun _ => 0)
      ((FrameBuffer.new 10).pushAll twoGreetings).frames defaultAddrs.1 defaultAddrs.2 =
        .ok ((crate.pcapWithHeader framesHeader).bind fun file =>
          packets.foldlM crate.writePacket file)) ∧
    ¬ Contiguous ((((FrameBuffer.new 10).pushAll twoGreetings).frames).map (·.direction)) packets := by
  refine ⟨_, fun _ crate => writeFramesPcap_written crate _ _ _ _, ?_⟩
  rw [contiguous_written]
  intro paced
  exact absurd (paced .outward) (by decide)

end BitBeak
