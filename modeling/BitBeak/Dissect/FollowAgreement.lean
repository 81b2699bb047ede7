import BitBeak.Dissect.Follow

/-! Whether the wire walk of stream following takes from a frame the TCP payload that the
dissector delimits. The dissector ends an IPv4 datagram where its total length does; the walk
runs to the end of the frame. -/
namespace BitBeak
open Wire

/-- The bytes a walk took; none where it found no segment, which following a stream treats
like an empty one. -/
def extracted : Option (Nat × Bytes) → Bytes
  | none => []
  | some (_, payload) => payload

/-- What following takes from the frame is the payload of the transport header noted. -/
def DissectedPacket.FollowedAlike (d : DissectedPacket) (native : Endian) (data : Bytes)
    (link : LinkType) : Prop :=
  ∃ found seg, tcpPayloadFromWire native data link = .ok found ∧ d.transport = some seg ∧
    extracted found = seg.payload

/-- Where the dissector takes the transport header behind a network header. -/
def transportOffset (data : Bytes) (version off : Nat) : Nat :=
  if version = 4 then off + headerLength (data.drop off)
  else off + (extensionsEnd (data.drop off) ((data.drop off).length + 1)
    (octet (data.drop off) 6) 40).2

/-- Where it ends the packet. -/
def packetEnd (data : Bytes) (version off : Nat) : Nat :=
  if version = 4 then off + min (beAt data (off + 2) 2) (data.length - off) else data.length

/-- Where the payload behind a TCP header starts in the frame, if not at its end. -/
def startInFrame (data : Bytes) (tcpOff : Nat) : Nat :=
  min (payloadStart data tcpOff) data.length

/-- Where the walk starts to take bytes: at the end of the frame when it finds no segment. -/
def takenFrom (native : Endian) (data : Bytes) (link : LinkType) : Nat :=
  match headerOnWire native data link with
  | none => data.length
  | some tcpOff => if data.length < tcpOff + 20 then data.length else startInFrame data tcpOff

/-- When the walk takes the payload. At the network header the dissector goes to, the walk is
to come to the same payload and the frame is to end with the packet. On loopback frames whose
family is not that of the packet behind it the two go by different headers, and the bytes
taken behind the wrong one are to be those of the payload. -/
def TakesPayload (native : Endian) (data : Bytes) (link : LinkType) : Prop :=
  ∃ version off, networkAt link data = some (version, off) ∧
    let start := startInFrame data (transportOffset data version off)
    let stop := packetEnd data version off
    if ipOffsetAt native data link = some (off, version == 6) then
      takenFrom native data link = start ∧ data.length ≤ max start stop
    else data.drop (takenFrom native data link) = span data start stop

theorem extracted_segmentOnWire (native : Endian) (data : Bytes) (link : LinkType) :
    extracted (segmentOnWire native data link) = data.drop (takenFrom native data link) := by
  unfold segmentOnWire takenFrom
  cases headerOnWire native data link with
  | none => exact (List.drop_length).symm
  | some tcpOff =>
    simp only [Option.bind_some, segmentAt, startInFrame]
    split
    · exact (List.drop_length).symm
    · rw [drop_min_length]
      split
      · next past => exact (List.drop_eq_nil_of_le (Nat.le_of_lt past)).symm
      · rfl

/-- What the dissector read of a TCP header at an offset, in a packet with an end. -/
structure Delimited (data : Bytes) (tcpOff stop : Nat) (seg : Transport) : Prop where
  room : tcpOff + 20 ≤ stop
  inside : stop ≤ data.length
  seq : seg.seq = beAt data (tcpOff + 4) 4
  payload : seg.payload = span data (payloadStart data tcpOff) stop

section

variable {data : Bytes} {off : Nat} {seg : Transport}

theorem delimited_ipv4 (labelled : (ipv4Labels off (data.drop off)).transport = some seg)
    (tcp : seg.proto = .tcp) :
    Delimited data (transportOffset data 4 off) (packetEnd data 4 off) seg := by
  obtain ⟨long, inside, _, room, header⟩ := ipv4Labels_some labelled
  rw [tcp] at room header
  have twenty : 20 ≤ (ipv4Payload (data.drop off) (headerLength (data.drop off))).length := room
  replace header : seg = tcpHeader (off + headerLength (data.drop off))
      (ipv4Payload (data.drop off) (headerLength (data.drop off))) := header
  have long' := twenty
  rw [length_ipv4Payload inside, beAt_drop, List.length_drop] at long'
  have stop : off + max (min (beAt (data.drop off) 2 2) (data.drop off).length)
      (headerLength (data.drop off)) = packetEnd data 4 off := by
    rw [beAt_drop, List.length_drop, packetEnd, if_pos rfl]
    omega
  constructor
  · simp only [transportOffset, packetEnd, if_true]
    omega
  · simp only [packetEnd, if_true]
    omega
  · rw [header, tcpHeader_seq, beAt_ipv4Payload (by omega), beAt_drop, transportOffset,
      if_pos rfl, Nat.add_assoc]
  · rw [header, tcpHeader_payload, octet_ipv4Payload (by omega), ipv4Payload, drop_span,
      span_drop, stop, octet_drop, transportOffset, if_pos rfl, payloadStart]
    simp only [Nat.add_assoc]

theorem delimited_ipv6 (labelled : (ipv6Labels off (data.drop off)).transport = some seg)
    (tcp : seg.proto = .tcp) :
    Delimited data (transportOffset data 6 off) (packetEnd data 6 off) seg := by
  obtain ⟨long, cursor, walked, room, header⟩ := ipv6Labels_some labelled
  rw [tcp] at room header
  have twenty : 20 ≤ ((data.drop off).drop cursor).length := room
  have here : transportOffset data 6 off = off + cursor := by
    rw [transportOffset, walked]
    rfl
  rw [List.drop_drop] at twenty header
  rw [List.length_drop] at twenty
  rw [here]
  constructor
  · simp only [packetEnd, if_neg (by decide : ¬ 6 = 4)]
    omega
  · exact Nat.le_refl _
  · rw [header]
    exact beAt_drop _ _ _ _
  · rw [header]
    show (tcpHeader _ (data.drop (off + cursor))).payload = _
    rw [tcpHeader_payload, List.drop_drop, octet_drop]
    exact (span_end _ _).symm

theorem delimited_network {version : Nat}
    (labelled : (networkLabels data (some (version, off))).transport = some seg)
    (known : version = 4 ∨ version = 6) (tcp : seg.proto = .tcp) :
    Delimited data (transportOffset data version off) (packetEnd data version off) seg := by
  rcases known with rfl | rfl
  · exact delimited_ipv4 labelled tcp
  · exact delimited_ipv6 labelled tcp

/-- At the network header of an IPv4 datagram both come to the same TCP header. -/
theorem tcpHeaderAt_ipv4 (labelled : (ipv4Labels off (data.drop off)).transport = some seg) :
    tcpHeaderAt data off false = some (transportOffset data 4 off) := by
  obtain ⟨long, inside, _⟩ := ipv4Labels_some labelled
  rw [List.length_drop] at inside
  have room : ¬ data.length < off + 20 := by omega
  rw [tcpHeaderAt, if_neg Bool.false_ne_true, if_neg room, transportOffset, if_pos rfl,
    headerLength, octet_drop]
  rfl

end

theorem startInFrame_le (data : Bytes) (tcpOff : Nat) : startInFrame data tcpOff ≤ data.length :=
  Nat.min_le_right _ _

theorem takenFrom_le (native : Endian) (data : Bytes) (link : LinkType) :
    takenFrom native data link ≤ data.length := by
  unfold takenFrom
  split
  · exact Nat.le_refl _
  · split
    · exact Nat.le_refl _
    · exact startInFrame_le _ _

/-- A walk that comes to the TCP header starts where the payload does. -/
theorem takenFrom_header {native : Endian} {data : Bytes} {link : LinkType} {tcpOff : Nat}
    (found : headerOnWire native data link = some tcpOff) (room : tcpOff + 20 ≤ data.length) :
    takenFrom native data link = startInFrame data tcpOff := by
  rw [takenFrom, found]
  exact if_neg (Nat.not_lt.mpr room)

/-- An empty acknowledgement: Ethernet, IPv4 with a total length of 40, TCP. -/
def ackFrame : Bytes :=
  List.replicate 12 0 ++ [0x08, 0x00, 0x45, 0, 0, 40] ++ [0, 1, 0, 0, 64, 6, 0, 0] ++
    [10, 0, 0, 1, 10, 0, 0, 2] ++ [0, 80, 0x30, 0x39] ++ List.replicate 8 0 ++
    [0x50, 0x10, 0, 0, 0, 0, 0, 0]

/-- The same padded to the 60 octets that Ethernet sends at least. -/
def paddedAckFrame : Bytes := ackFrame ++ List.replicate 6 0

/-- The reserved octet of every Fragment header on the way is zero; the walk takes it for a
length. -/
def ReservedClear (data : Bytes) : Nat → UInt8 → Nat → Prop
  | 0, _, _ => True
  | fuel + 1, next, cursor =>
    isExtension next = true → (next = 44 → octet data (cursor + 1) = 0) ∧
      ReservedClear data fuel (octet data cursor)
        (cursor + extensionLength next (octet data (cursor + 1)))

theorem skipped_of_extension {next : UInt8} (ext : isExtension next = true) :
    skippedHeader next = true := by
  simp only [isExtension, skippedHeader, Bool.or_eq_true, beq_iff_eq] at ext ⊢
  tauto

theorem extensionLength_clear {next second : UInt8} (clear : next = 44 → second = 0) :
    extensionLength next second = (second.toNat + 1) * 8 := by
  unfold extensionLength
  split
  · next fragment =>
    rw [clear fragment]
    rfl
  · rfl

/-- With the reserved octets zero the two walks are one. -/
theorem skipExtensionsAt_clear {data : Bytes} {off stop : Nat} (fuel steps : Nat) (next : UInt8)
    (cursor : Nat) (clear : ReservedClear (data.drop off) fuel next cursor)
    (walked : extensionsEnd (data.drop off) fuel next cursor = (6, stop))
    (room : stop < data.length - off) (enough : data.length < off + cursor + (steps + 1)) :
    skipExtensionsAt data (steps + 1) next (off + cursor) = some (6, off + stop) := by
  induction fuel generalizing next cursor steps with
  | zero =>
    cases walked
    rfl
  | succ fuel ih =>
    unfold extensionsEnd at walked
    dsimp only at walked
    split at walked
    · next ext =>
      obtain ⟨reserved, rest⟩ := clear ext
      rw [extensionLength_clear reserved] at walked rest
      simp only [List.length_drop, octet_drop] at walked rest
      split at walked
      · cases walked
        cases ext
      · next long =>
        split at walked
        · obtain ⟨_, past⟩ := Prod.mk.inj walked
          exact absurd past (Nat.ne_of_gt room)
        · obtain ⟨steps, rfl⟩ : ∃ k, steps = k + 1 := ⟨steps - 1, by omega⟩
          have later := ih steps _ _ rest walked (by omega)
          rw [skipExtensionsAt, if_pos (skipped_of_extension ext), if_neg (by omega), ← later]
          simp only [Nat.add_assoc]
    · next plain =>
      cases walked
      rfl

theorem takenFrom_clear {native : Endian} {data : Bytes} {link : LinkType} {off : Nat}
    {seg : Transport} (right : ipOffsetAt native data link = some (off, true))
    (labelled : (ipv6Labels off (data.drop off)).transport = some seg) (tcp : seg.proto = .tcp)
    (clear : ReservedClear (data.drop off) ((data.drop off).length + 1)
      (octet (data.drop off) 6) 40) :
    takenFrom native data link = startInFrame data (transportOffset data 6 off) := by
  obtain ⟨long, cursor, walked, room, _⟩ := ipv6Labels_some labelled
  have here : transportOffset data 6 off = off + cursor := by
    rw [transportOffset, walked]
    rfl
  rw [tcp] at walked room
  have twenty : 20 ≤ ((data.drop off).drop cursor).length := room
  rw [List.length_drop] at long
  rw [List.drop_drop, List.length_drop] at twenty
  have skipped := skipExtensionsAt_clear _ data.length _ _ clear walked (by omega) (by omega)
  rw [octet_drop] at skipped
  have found : headerOnWire native data link = some (off + cursor) := by
    rw [headerOnWire, right, Option.bind_some, tcpHeaderAt, if_pos rfl, if_neg (by omega), skipped]
    rfl
  rw [here]
  exact takenFrom_header found (by omega)

end BitBeak
