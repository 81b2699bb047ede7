import BitBeak.Dissect.Account
import BitBeak.Dissect.Checksum

/-! Exported packets taken apart again. The headers that are made up lead the dissector to
the two ends and to the payload, as long as the total length of the datagram fits its field;
a longer payload is cut where the field says. -/
namespace BitBeak
open Wire Dissector

/-- The header with its checksum. -/
def ipHeaderOf (src dst : SocketAddrV4) (payload : Bytes) : Bytes :=
  overwrite (ipHeader src dst payload) 10 (toBE 2 (checksumOf (ipHeader src dst payload)))

/-- The packet as it is written. -/
def packetOf (src dst : SocketAddrV4) (payload : Bytes) (seq : Nat) : Bytes :=
  ethHeader ++ (ipHeaderOf src dst payload ++ tcpSegmentOf src dst payload seq)

section

variable {src dst : SocketAddrV4} {payload : Bytes} {seq : Nat}

theorem zeroField_ipHeader : zeroField (ipHeader src dst payload) = ipHeader src dst payload := rfl

theorem buildTcpPacket_of (src dst : SocketAddrV4) (payload : Bytes) (seq : Nat) :
    buildTcpPacket src dst payload seq = .ok (packetOf src dst payload seq) := by
  have summed : ipChecksum (ipHeader src dst payload) =
      .ok (checksumOf (ipHeader src dst payload)) := by
    have width : (ipHeader src dst payload).length = 20 := rfl
    rw [← ipChecksum_zeroField (by omega) (by omega), zeroField_ipHeader]
  have small := checksumOf_lt (ipHeader src dst payload)
  have octets : ∀ csum < 2 ^ 16, [UInt8.ofNat (csum / 2 ^ 8), UInt8.ofNat (csum % 2 ^ 8)] =
      toBE 2 csum := by
    intro csum small
    have high : csum / 256 % 256 = csum / 2 ^ 8 := by omega
    simp only [toBE, toLE, List.reverse_cons, List.reverse_nil, List.nil_append, List.cons_append,
      high]
    rfl
  rw [buildTcpPacket, summed, ok_bind]
  dsimp only
  rw [octets _ small, List.append_assoc]
  rfl

/- The headers as the dissector reads them. -/

/-- The datagram behind the Ethernet header. -/
def datagramOf (src dst : SocketAddrV4) (payload : Bytes) (seq : Nat) : Bytes :=
  ipHeaderOf src dst payload ++ tcpSegmentOf src dst payload seq

theorem packetOf_drop : (packetOf src dst payload seq).drop 14 = datagramOf src dst payload seq :=
  rfl

theorem length_tcpSegmentOf (src dst : SocketAddrV4) (payload : Bytes) (seq : Nat) :
    (tcpSegmentOf src dst payload seq).length = 20 + payload.length := by
  simp only [tcpSegmentOf, List.length_append, length_toBE, List.length_cons, List.length_nil]

theorem length_datagramOf (src dst : SocketAddrV4) (payload : Bytes) (seq : Nat) :
    (datagramOf src dst payload seq).length = 40 + payload.length := by
  have header : (ipHeaderOf src dst payload).length = 20 := rfl
  rw [datagramOf, List.length_append, header, length_tcpSegmentOf]
  omega

theorem length_packetOf (src dst : SocketAddrV4) (payload : Bytes) (seq : Nat) :
    (packetOf src dst payload seq).length = 54 + payload.length := by
  have width := length_datagramOf src dst payload seq
  rw [← packetOf_drop, List.length_drop] at width
  omega

theorem packetOf_ethertype : beAt (packetOf src dst payload seq) 12 2 = 0x0800 := rfl

theorem datagramOf_version : octet (datagramOf src dst payload seq) 0 = 0x45 := rfl

theorem datagramOf_protocol : octet (datagramOf src dst payload seq) 9 = 6 := rfl

theorem datagramOf_total (src dst : SocketAddrV4) (payload : Bytes) (seq : Nat) :
    beAt (datagramOf src dst payload seq) 2 2 = (40 + payload.length) % 2 ^ 16 := by
  have total : 20 + (20 + payload.length) = 40 + payload.length := by omega
  have field : span (datagramOf src dst payload seq) 2 4 =
      toBE 2 ((20 + (20 + payload.length)) % 2 ^ 16) := rfl
  have small : (20 + (20 + payload.length)) % 2 ^ 16 < 256 ^ 2 := Nat.mod_lt _ (by decide)
  rw [beAt, field, ofBE_toBE small, total]

theorem datagramOf_source : span (datagramOf src dst payload seq) 12 16 = src.octets := rfl

theorem datagramOf_target : span (datagramOf src dst payload seq) 16 20 = dst.octets := rfl

theorem tcpSegmentOf_sport : beAt (tcpSegmentOf src dst payload seq) 0 2 = src.port.toNat := by
  have field : span (tcpSegmentOf src dst payload seq) 0 2 = toBE 2 src.port.toNat := rfl
  rw [beAt, field, ofBE_toBE src.port.toNat_lt]

theorem tcpSegmentOf_dport : beAt (tcpSegmentOf src dst payload seq) 2 2 = dst.port.toNat := by
  have field : span (tcpSegmentOf src dst payload seq) 2 4 = toBE 2 dst.port.toNat := rfl
  rw [beAt, field, ofBE_toBE dst.port.toNat_lt]

theorem tcpSegmentOf_seq (small : seq < 2 ^ 32) :
    beAt (tcpSegmentOf src dst payload seq) 4 4 = seq := by
  have field : span (tcpSegmentOf src dst payload seq) 4 8 = toBE 4 seq := rfl
  rw [beAt, field, ofBE_toBE small]

theorem tcpSegmentOf_offset : octet (tcpSegmentOf src dst payload seq) 12 = 0x50 := rfl

theorem tcpSegmentOf_payload : (tcpSegmentOf src dst payload seq).drop 20 = payload := rfl

/-- A datagram whose length fits its field is delimited as a whole. -/
theorem ipv4Payload_datagramOf (fits : payload.length ≤ 65495) :
    ipv4Payload (datagramOf src dst payload seq) 20 = tcpSegmentOf src dst payload seq := by
  have width := length_datagramOf src dst payload seq
  have total := datagramOf_total src dst payload seq
  rw [Nat.mod_eq_of_lt (by omega), ← width] at total
  rw [ipv4Payload, total, Nat.min_self, Nat.max_eq_left (by omega), span_end]
  rfl

end

/- The summary. -/

/-- No WebSocket was seen and the two ends are known. -/
structure Between (a b : String) (s : Dissection) : Prop where
  websocket : s.flags.websocket = false
  src : s.summary.src = a
  dst : s.summary.dst = b

section

variable {crates : Crates} {parent offset : Nat} {data : Bytes} {a b : String}

theorem between_leaves {α : Type} {m : Dissector α} (leaves : Leaves Dissection.told m) :
    Gives (Between a b) m (fun _ => Between a b) := by
  intro s between r t run
  have same := leaves s r t run
  simp only [Dissection.told, Prod.mk.injEq] at same
  obtain ⟨summary, flags, _⟩ := same
  exact ⟨flags ▸ between.websocket, summary ▸ between.src, summary ▸ between.dst⟩

theorem tcpApplication_between {sport dport : Nat} (nonempty : data ≠ []) :
    Gives (Between a b) (tcpApplication crates parent sport dport data offset)
      (fun _ s => s.summary.src = a ∧ s.summary.dst = b) := by
  intro s between r t run
  have kept := (tcpApplication_gives nonempty s.summary.info s.ends s
    ⟨between.websocket, rfl, rfl⟩ r t run).2
  have ends : t.ends.src = s.ends.src ∧ t.ends.dst = s.ends.dst := by
    rw [kept, Ends.with]
    split <;> exact ⟨rfl, rfl⟩
  exact ⟨ends.1.trans between.src, ends.2.trans between.dst⟩

/-- Both ends get their ports. -/
theorem dissectTcp_between (long : 20 ≤ data.length) :
    Gives (Between a b) (dissectTcp crates parent data offset) (fun _ s =>
      s.summary.src = withPort a (beAt data 0 2) ∧ s.summary.dst = withPort b (beAt data 2 2)) := by
  unfold dissectTcp
  rw [if_neg (by omega)]
  refine .bind (R := fun _ => Between a b) (.modify (fun _ h => ⟨h.websocket, h.src, h.dst⟩)) ?_
  intro _
  simp (disch := omega) only [readBE_ok, byteAt_ok, tailOrEmpty_ok, read_ok, pure_bind]
  refine .bind (between_leaves addSection_leaves) (fun sec => ?_)
  refine .bind (between_leaves addFields_leaves) (fun _ => ?_)
  refine .bind (between_leaves (onlyIf_leaves fun _ => ?_)) (fun _ => ?_)
  · exact .bind (.lift _) (fun len => addFields_leaves)
  refine .bind (R := fun _ => Between a b) (.modify (fun _ h => ⟨h.websocket, h.src, h.dst⟩)) ?_
  intro _
  refine .bind (R := fun _ => Between (withPort a (beAt data 0 2)) (withPort b (beAt data 2 2)))
    (.modify (fun _ h => ⟨h.websocket, congrArg (withPort · _) h.src,
      congrArg (withPort · _) h.dst⟩)) (fun _ => ?_)
  refine .bind (R := fun _ => Between (withPort a (beAt data 0 2)) (withPort b (beAt data 2 2)))
    (.modify (fun _ h => ⟨h.websocket, h.src, h.dst⟩)) (fun _ => ?_)
  refine .bind (R := fun _ => Between (withPort a (beAt data 0 2)) (withPort b (beAt data 2 2)))
    (.modify (fun _ h => ⟨h.websocket, h.src, h.dst⟩)) (fun _ => ?_)
  exact .ite (fun _ => .pure (fun _ h => ⟨h.src, h.dst⟩))
    (fun nonempty => tcpApplication_between nonempty)

/-- A TCP segment in an IPv4 datagram without options. -/
theorem dissectIpv4_between (version : octet data 0 = 0x45) (protocol : octet data 9 = 6)
    (room : 20 ≤ (ipv4Payload data 20).length) (long : 20 ≤ data.length) :
    Gives (Between a b) (dissectIpv4 crates parent data offset) (fun _ s =>
      s.summary.src = withPort (dotted (span data 12 16)) (beAt (ipv4Payload data 20) 0 2) ∧
        s.summary.dst = withPort (dotted (span data 16 20)) (beAt (ipv4Payload data 20) 2 2)) := by
  have ihl : (octet data 0 &&& 0x0f).toNat * 4 = 20 := by
    rw [version]
    rfl
  unfold dissectIpv4
  rw [if_neg (by omega)]
  refine .bind (R := fun _ => Between a b) (.modify (fun _ h => ⟨h.websocket, h.src, h.dst⟩)) ?_
  intro _
  rw [byteAt_ok (by omega), read_ok, pure_bind, ihl, if_neg (by omega)]
  simp (disch := omega) only [readBE_ok, byteAt_ok, slice_ok, read_ok, pure_bind]
  refine .bind (between_leaves addSection_leaves) (fun sec => ?_)
  refine .bind (between_leaves addFields_leaves) (fun _ => ?_)
  refine .bind (R := fun _ => Between (dotted (span data 12 16)) (dotted (span data 16 20)))
    (.modify (fun _ h => ⟨h.websocket, rfl, rfl⟩)) (fun _ => ?_)
  refine .bind (R := fun _ => Between (dotted (span data 12 16)) (dotted (span data 16 20)))
    (.modify (fun _ h => ⟨h.websocket, h.src, h.dst⟩)) (fun _ => ?_)
  rw [if_neg (by rw [protocol]; decide), if_pos protocol]
  exact dissectTcp_between room

/-- Behind an Ethernet header without a tag. -/
theorem dissectEthernet_between (long : 34 ≤ data.length) (plain : beAt data 12 2 = 0x0800)
    (version : octet (data.drop 14) 0 = 0x45) (protocol : octet (data.drop 14) 9 = 6)
    (room : 20 ≤ (ipv4Payload (data.drop 14) 20).length) :
    Gives (Between a b) (dissectEthernet crates parent data 0) (fun _ s =>
      s.summary.src = withPort (dotted (span (data.drop 14) 12 16))
          (beAt (ipv4Payload (data.drop 14) 20) 0 2) ∧
        s.summary.dst = withPort (dotted (span (data.drop 14) 16 20))
          (beAt (ipv4Payload (data.drop 14) 20) 2 2)) := by
  have behind : 20 ≤ (data.drop 14).length := by
    rw [List.length_drop]
    omega
  unfold dissectEthernet
  rw [if_neg (by omega)]
  refine .bind (R := fun _ => Between a b) (.modify (fun _ h => ⟨h.websocket, h.src, h.dst⟩)) ?_
  intro _
  refine .bind (between_leaves addSection_leaves) (fun eth => ?_)
  simp (disch := omega) only [readBE_ok, slice_ok, read_ok, pure_bind]
  refine .bind (between_leaves addFields_leaves) (fun _ => ?_)
  refine .bind (R := fun _ => Between (fmtMac (span data 6 12)) (fmtMac (span data 0 6)))
    (.modify (fun _ h => ⟨h.websocket, rfl, rfl⟩)) (fun _ => ?_)
  refine .bind (between_leaves addFields_leaves) (fun _ => ?_)
  rw [plain, dissectVlan, if_neg (by omega), pure_bind]
  dsimp only
  rw [Nat.zero_add, Nat.min_eq_left (by omega), sliceFrom_ok (by omega), read_ok, pure_bind,
    dissectEthertype, if_pos rfl]
  exact dissectIpv4_between version protocol room behind

/-- Only the info of the summary is changed after the layers. -/
theorem dissect_between (long : 34 ≤ data.length) (plain : beAt data 12 2 = 0x0800)
    (version : octet (data.drop 14) 0 = 0x45) (protocol : octet (data.drop 14) 9 = 6)
    (room : 20 ≤ (ipv4Payload (data.drop 14) 20).length) {d : DissectedPacket}
    (done : dissect crates data .ethernet = .ok d) :
    d.summary.src = withPort (dotted (span (data.drop 14) 12 16))
        (beAt (ipv4Payload (data.drop 14) 20) 0 2) ∧
      d.summary.dst = withPort (dotted (span (data.drop 14) 16 20))
        (beAt (ipv4Payload (data.drop 14) 20) 2 2) := by
  have nonempty : data ≠ [] := by
    rintro rfl
    cases long
  unfold dissect at done
  obtain ⟨⟨r, s⟩, run, rest⟩ := ok_of_bind done
  have gives : Gives (Between "" "") (dissectFrame crates data .ethernet) (fun _ s =>
      s.summary.src = withPort (dotted (span (data.drop 14) 12 16))
          (beAt (ipv4Payload (data.drop 14) 20) 0 2) ∧
        s.summary.dst = withPort (dotted (span (data.drop 14) 16 20))
          (beAt (ipv4Payload (data.drop 14) 20) 2 2)) := by
    refine .bind (between_leaves addRoot_leaves) (fun root => ?_)
    refine .bind (between_leaves addFields_leaves) (fun _ => .ite (fun empty => ?_) (fun _ => ?_))
    · exact absurd empty nonempty
    · exact dissectEthernet_between long plain version protocol room
  have ends := gives _ ⟨rfl, rfl, rfl⟩ r s run
  dsimp only at rest
  rw [if_neg nonempty] at rest
  obtain ⟨expert, _, rest⟩ := ok_of_bind rest
  obtain ⟨fields, _, last⟩ := ok_of_bind rest
  cases last
  dsimp only
  split <;> exact ends

end

/- What a packet is taken for. -/

/-- `SocketAddrV4` as it displays itself. -/
def SocketAddrV4.text (addr : SocketAddrV4) : String :=
  dotted addr.octets ++ String.ofList [':'] ++ toString addr.port.toNat

/-- The dissector finds the two ends and the whole payload behind 54 octets of headers, and the
length field of the datagram is its length. -/
structure DissectsBack (crates : Crates) (packet : Bytes) (src dst : SocketAddrV4)
    (payload : Bytes) : Prop where
  total : beAt packet 16 2 = 40 + payload.length
  back : ∃ d seg, dissect crates packet .ethernet = .ok d ∧ d.summary.src = src.text ∧
    d.summary.dst = dst.text ∧ d.transport = some seg ∧ seg.proto = .tcp ∧
    seg.sport = src.port.toNat ∧ seg.dport = dst.port.toNat ∧ seg.payloadOffset = 54 ∧
    seg.payload = payload

theorem withPort_text (addr : SocketAddrV4) :
    withPort (dotted addr.octets) addr.port.toNat = addr.text :=
  withPort_eq (endAddress_dotted (by rw [SocketAddrV4.octets, length_toBE]; decide)).address _

theorem packetOf_total (src dst : SocketAddrV4) (payload : Bytes) (seq : Nat) :
    beAt (packetOf src dst payload seq) 16 2 = (40 + payload.length) % 2 ^ 16 := by
  rw [← datagramOf_total src dst payload seq, ← packetOf_drop, beAt_drop]

/-- The TCP header as the dissector notes it. -/
theorem tcpHeader_segmentOf (src dst : SocketAddrV4) (payload : Bytes) (seq : Nat) :
    tcpHeader 34 (tcpSegmentOf src dst payload seq) =
      { proto := .tcp, sport := src.port.toNat, dport := dst.port.toNat,
        seq := beAt (tcpSegmentOf src dst payload seq) 4 4, payloadOffset := 54,
        payload := payload } := by
  have known : (octet (tcpSegmentOf src dst payload seq) 12 >>> 4).toNat * 4 = 20 := by
    rw [tcpSegmentOf_offset]
    rfl
  have room : 20 ≤ (tcpSegmentOf src dst payload seq).length := by
    rw [length_tcpSegmentOf]
    omega
  simp only [tcpHeader, known, Nat.min_eq_left room, tcpSegmentOf_sport, tcpSegmentOf_dport,
    tcpSegmentOf_payload]

theorem labels_datagramOf (src dst : SocketAddrV4) {payload : Bytes} (seq : Nat)
    (fits : payload.length ≤ 65495) : ipv4Labels 14 (datagramOf src dst payload seq) =
      { transport := some (tcpHeader 34 (tcpSegmentOf src dst payload seq)), tcp := true } := by
  have ihl : (octet (datagramOf src dst payload seq) 0 &&& 0x0f).toNat * 4 = 20 := by
    rw [datagramOf_version]
    rfl
  have long := length_datagramOf src dst payload seq
  have segment := length_tcpSegmentOf src dst payload seq
  unfold ipv4Labels
  dsimp only
  rw [ihl, if_neg (by omega), if_pos datagramOf_protocol, ipv4Payload_datagramOf fits, tcpLabels,
    if_neg (by omega)]

theorem networkAt_packetOf (src dst : SocketAddrV4) (payload : Bytes) (seq : Nat) :
    networkAt .ethernet (packetOf src dst payload seq) = some (4, 14) := by
  have width := length_packetOf src dst payload seq
  have head : ethernetHead (packetOf src dst payload seq) = (0x0800, 14) := by
    rw [ethernetHead, packetOf_ethertype]
    rfl
  unfold networkAt
  dsimp only
  rw [if_neg (by omega), head]
  rfl

theorem dissectsBack_packetOf {crates : Crates} (contract : crates.Contract)
    (src dst : SocketAddrV4) {payload : Bytes} (seq : Nat) (fits : payload.length ≤ 65495) :
    DissectsBack crates (packetOf src dst payload seq) src dst payload := by
  have width := length_packetOf src dst payload seq
  have delimited : ipv4Payload (datagramOf src dst payload seq) 20 =
      tcpSegmentOf src dst payload seq := ipv4Payload_datagramOf fits
  have segment := length_tcpSegmentOf src dst payload seq
  obtain ⟨d, done, _, _⟩ := dissect_ok contract (packetOf src dst payload seq) .ethernet
  have ends := dissect_between (by omega) packetOf_ethertype datagramOf_version datagramOf_protocol
    (by rw [packetOf_drop, delimited]; omega) done
  rw [packetOf_drop, delimited, datagramOf_source, datagramOf_target, tcpSegmentOf_sport,
    tcpSegmentOf_dport, withPort_text, withPort_text] at ends
  have labels := dissect_labels contract done
  rw [networkAt_packetOf, networkLabels, if_pos rfl, packetOf_drop,
    labels_datagramOf src dst seq fits, tcpHeader_segmentOf] at labels
  constructor
  · rw [packetOf_total, Nat.mod_eq_of_lt (by omega)]
  · exact ⟨d, _, done, ends.1, ends.2, congrArg Labels.transport labels, rfl, rfl, rfl, rfl, rfl⟩

/-- A packet that is made up for a frame dissects back exactly when its payload leaves room for
forty octets of headers in the 16 bits of the total length. -/
theorem framePacket_dissects_back_iff (crates : Crates) (contract : crates.Contract)
    (src dst : SocketAddrV4) (frame : Frame) : ∃ packet,
      framePacket src dst frame = .ok packet ∧
      (DissectsBack crates packet (frameEnds src dst frame.direction).1
        (frameEnds src dst frame.direction).2 frame.payload ↔ frame.payload.length ≤ 65495) := by
  refine ⟨_, buildTcpPacket_of _ _ _ _, ?_, dissectsBack_packetOf contract _ _ _⟩
  intro back
  have total := back.total
  rw [packetOf_total] at total
  omega

/-- One octet more than fits. -/
def longFrame : Frame := .new 1 .outward (List.replicate 65496 0)

theorem longFrame_not_back : ∃ packet,
    framePacket defaultAddrs.1 defaultAddrs.2 longFrame = .ok packet ∧
      ¬ DissectsBack refusingCrates packet defaultAddrs.1 defaultAddrs.2 longFrame.payload := by
  refine ⟨_, buildTcpPacket_of _ _ _ _, fun back => ?_⟩
  have total := back.total
  have width : longFrame.payload.length = 65496 := List.length_replicate
  rw [packetOf_total, width] at total
  cases total

theorem framePacket_hello : ∃ packet,
    framePacket defaultAddrs.1 defaultAddrs.2 (.new 1 .inward [104, 105]) = .ok packet ∧
      (DissectsBack refusingCrates packet defaultAddrs.2 defaultAddrs.1 [104, 105] ↔ 2 ≤ 65495) :=
  framePacket_dissects_back_iff refusingCrates refusingCrates_contract defaultAddrs.1
    defaultAddrs.2 (.new 1 .inward [104, 105])

end BitBeak
