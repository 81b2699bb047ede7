import BitBeak.Capture.CapFilter
import BitBeak.Dissect.Network

/-! Whether the capture filters see the protocol and the ports the dissector labels a frame
with. The dissector goes by the link type and past IPv6 extension headers; the filters guess
the network header from the bytes and take the next header of IPv6 for the transport. -/
namespace BitBeak
open Wire

def TransportProto.name : TransportProto → String
  | .tcp => "tcp"
  | .udp => "udp"

/-- The dissector labels the packet with a protocol and its ports. -/
def DissectedPacket.LabelledAs (d : DissectedPacket) (proto : TransportProto) (sp dp : UInt16) :
    Prop :=
  (match proto with
    | .tcp => d.flags.tcp = true
    | .udp => d.flags.udp = true) ∧
  ∃ seg, d.transport = some seg ∧ seg.proto = proto ∧ seg.sport = sp.toNat ∧ seg.dport = dp.toNat

/-- The filters for the protocol and for each of the two ports. -/
def portFilters (proto : TransportProto) (sp dp : UInt16) : List CaptureFilter :=
  [.proto proto.name, .srcPort sp, .dstPort dp, .port sp, .port dp]

def FiltersMatch (data : Bytes) (proto : TransportProto) (sp dp : UInt16) : Prop :=
  ∀ f ∈ portFilters proto sp dp, f.matchesRaw data = .ok true

/-- Where the filters look for the transport header behind a network header. -/
def filterTransport (data : Bytes) (version off : Nat) : Nat :=
  if version = 4 then off + (octet data off &&& 0x0f).toNat * 4 else off + 40

/-- Read at a network header without regard to extension headers, the frame has the
protocol and the ports. -/
structure HeaderHolds (data : Bytes) (version off : Nat) (proto : TransportProto)
    (sp dp : UInt16) : Prop where
  room : off + (if version = 4 then 20 else 40) ≤ data.length
  number : octet data (off + if version = 4 then 9 else 6) = proto.number
  ports : filterTransport data version off + 4 ≤ data.length
  sport : beAt data (filterTransport data version off) 2 = sp.toNat
  dport : beAt data (filterTransport data version off + 2) 2 = dp.toNat

/-- What the filters go by. Where their guess is the header the dissector goes to, the
transport header is to follow without an IPv6 extension header; where it is another place,
the bytes there happen to say the same. -/
def FilterSees (linkType : LinkType) (data : Bytes) (proto : TransportProto)
    (sp dp : UInt16) : Prop :=
  ∃ version off, l3At data = some (version, off) ∧
    if networkAt linkType data = some (version, off) then
      version = 4 ∨ isExtension (octet data (off + 6)) = false
    else HeaderHolds data version off proto sp dp

theorem matchesAt_name (data : Bytes) (proto : TransportProto) :
    (CaptureFilter.proto proto.name).matchesAt data = hasIpProtoAt data proto.number := by
  cases proto <;> rfl

/-- A port that is the source's or the destination's is either one's. -/
theorem hasPortAt_either {data : Bytes} {port : UInt16} {side : Side}
    (one : hasPortAt data port side = true) : hasPortAt data port .either = true := by
  unfold hasPortAt at one ⊢
  split at one
  · simp only [Bool.and_eq_true] at one ⊢
    refine ⟨one.1, ?_⟩
    cases side <;> simp_all [Side.test]
  · cases one

theorem filtersMatch_hasPort (data : Bytes) (proto : TransportProto) (sp dp : UInt16) :
    FiltersMatch data proto sp dp ↔ hasIpProtoAt data proto.number = true ∧
      hasPortAt data sp .source = true ∧ hasPortAt data dp .destination = true := by
  have answers : FiltersMatch data proto sp dp ↔ hasIpProtoAt data proto.number = true ∧
      hasPortAt data sp .source = true ∧ hasPortAt data dp .destination = true ∧
      hasPortAt data sp .either = true ∧ hasPortAt data dp .either = true := by
    simp only [FiltersMatch, portFilters, List.forall_mem_cons, CaptureFilter.matchesRaw_ok,
      matchesAt_name, Except.ok.injEq]
    simp only [CaptureFilter.matchesAt, List.not_mem_nil, false_implies, implies_true, and_true]
  rw [answers]
  constructor
  · rintro ⟨named, source, destination, _, _⟩
    exact ⟨named, source, destination⟩
  · rintro ⟨named, source, destination⟩
    exact ⟨named, source, destination, hasPortAt_either source, hasPortAt_either destination⟩

theorem transportNumber_known (proto : TransportProto) :
    (proto.number == 6 || proto.number == 17) = true := by
  cases proto <;> rfl

/-- The two port atoms read the ports behind one transport header. -/
theorem ports_of_l4At {data : Bytes} {version l4 : Nat} {proto : TransportProto} {sp dp : UInt16}
    (found : l4At data = some (version, l4, proto.number)) :
    (hasPortAt data sp .source = true ∧ hasPortAt data dp .destination = true) ↔
      l4 + 4 ≤ data.length ∧ beAt data l4 2 = sp.toNat ∧ beAt data (l4 + 2) 2 = dp.toNat := by
  simp only [hasPortAt, found, transportNumber_known, Side.test, Bool.true_and, Bool.and_eq_true,
    decide_eq_true_eq, beq_iff_eq]
  tauto

/-- The filters match where the guessed network header holds the values. -/
theorem filtersMatch_iff (data : Bytes) (proto : TransportProto) (sp dp : UInt16) :
    FiltersMatch data proto sp dp ↔
      ∃ version off, l3At data = some (version, off) ∧
        HeaderHolds data version off proto sp dp := by
  rw [filtersMatch_hasPort]
  obtain found | ⟨off, found⟩ | ⟨off, found⟩ := l3_cases data
  · simp [hasIpProtoAt, found]
  · constructor
    · rintro ⟨named, source, destination⟩
      by_cases short : data.length < off + 20
      · simp [hasPortAt, l4At, found, short] at source
      have number : octet data (off + 9) = proto.number := by
        simp only [hasIpProtoAt, found, Bool.and_eq_true, beq_iff_eq] at named
        exact named.2
      have l4 : l4At data = some (4, filterTransport data 4 off, proto.number) := by
        simp only [l4At, found, if_neg short, number, filterTransport, if_true]
      obtain ⟨room, sport, dport⟩ := (ports_of_l4At l4).mp ⟨source, destination⟩
      exact ⟨4, off, found, Nat.le_of_not_lt short, number, room, sport, dport⟩
    · rintro ⟨version, off', same, room, number, ports, sport, dport⟩
      cases found.symm.trans same
      simp only [if_true] at room number
      have l4 : l4At data = some (4, filterTransport data 4 off, proto.number) := by
        simp only [l4At, found, if_neg (Nat.not_lt.mpr room), number, filterTransport, if_true]
      refine ⟨?_, (ports_of_l4At l4).mpr ⟨ports, sport, dport⟩⟩
      have inside : off + 9 < data.length := by omega
      simp [hasIpProtoAt, found, number, inside]
  · constructor
    · rintro ⟨named, source, destination⟩
      by_cases short : data.length < off + 40
      · simp [hasPortAt, l4At, found, short] at source
      have number : octet data (off + 6) = proto.number := by
        simp only [hasIpProtoAt, found, Bool.and_eq_true, beq_iff_eq] at named
        exact named.2
      have l4 : l4At data = some (6, filterTransport data 6 off, proto.number) := by
        simp only [l4At, found, if_neg short, number]
        rfl
      obtain ⟨room, sport, dport⟩ := (ports_of_l4At l4).mp ⟨source, destination⟩
      exact ⟨6, off, found, Nat.le_of_not_lt short, number, room, sport, dport⟩
    · rintro ⟨version, off', same, room, number, ports, sport, dport⟩
      cases found.symm.trans same
      simp only [if_neg (by decide : ¬ 6 = 4)] at room number
      have l4 : l4At data = some (6, filterTransport data 6 off, proto.number) := by
        simp only [l4At, found, if_neg (Nat.not_lt.mpr room), number]
        rfl
      refine ⟨?_, (ports_of_l4At l4).mpr ⟨ports, sport, dport⟩⟩
      have inside : off + 6 < data.length := by omega
      simp [hasIpProtoAt, found, number, inside]

section

variable {data : Bytes} {off : Nat} {seg : Transport} {sp dp : UInt16}

/-- The dissector's reading of an IPv4 header is the filters' reading. -/
theorem headerHolds_ipv4 (labelled : (ipv4Labels off (data.drop off)).transport = some seg)
    (source : seg.sport = sp.toNat) (destination : seg.dport = dp.toNat) :
    HeaderHolds data 4 off seg.proto sp dp := by
  obtain ⟨long, inside, number, room, header⟩ := ipv4Labels_some labelled
  have least : 8 ≤ seg.proto.minimum := by cases seg.proto <;> decide
  have width : headerLength (data.drop off) = (octet data off &&& 0x0f).toNat * 4 := by
    rw [headerLength, octet_drop]
    rfl
  rw [header, transportHeader_sport, beAt_ipv4Payload (by omega), beAt_drop] at source
  rw [header, transportHeader_dport, beAt_ipv4Payload (by omega), beAt_drop] at destination
  rw [length_ipv4Payload inside] at room
  simp only [List.length_drop] at inside room
  constructor
  · simp only [if_true]
    omega
  · rw [← number, octet_drop]
    rfl
  · simp only [filterTransport, if_true, ← width]
    omega
  · simpa only [filterTransport, if_true, ← width, Nat.add_zero] using source
  · simpa only [filterTransport, if_true, ← width, Nat.add_assoc] using destination

/-- Of an IPv6 header without extension headers too. -/
theorem headerHolds_ipv6 (labelled : (ipv6Labels off (data.drop off)).transport = some seg)
    (source : seg.sport = sp.toNat) (destination : seg.dport = dp.toNat)
    (plain : isExtension (octet data (off + 6)) = false) :
    HeaderHolds data 6 off seg.proto sp dp := by
  obtain ⟨long, cursor, walked, room, header⟩ := ipv6Labels_some labelled
  rw [extensionsEnd_plain (by rw [octet_drop]; exact plain)] at walked
  have least : 8 ≤ seg.proto.minimum := by cases seg.proto <;> decide
  obtain ⟨number, rfl⟩ := Prod.mk.inj walked
  rw [List.length_drop] at long
  rw [List.length_drop, List.length_drop] at room
  rw [header, transportHeader_sport, beAt_drop, beAt_drop] at source
  rw [header, transportHeader_dport, beAt_drop, beAt_drop] at destination
  constructor
  · simp only [if_neg (by decide : ¬ 6 = 4)]
    omega
  · rw [← number, octet_drop]
    rfl
  · simp only [filterTransport, if_neg (by decide : ¬ 6 = 4)]
    omega
  · simpa only [filterTransport, if_neg (by decide : ¬ 6 = 4), Nat.add_zero] using source
  · simpa only [filterTransport, if_neg (by decide : ¬ 6 = 4), Nat.add_assoc] using destination

end

/-- On a frame the dissector labels with a protocol and two ports, the filters for them match
exactly when the filters see what the dissector saw. -/
theorem filters_match_iff_seen {crates : Crates} (contract : crates.Contract) {data : Bytes}
    {linkType : LinkType} {d : DissectedPacket} {proto : TransportProto} {sp dp : UInt16}
    (dissected : dissect crates data linkType = .ok d) (labelled : d.LabelledAs proto sp dp) :
    FiltersMatch data proto sp dp ↔ FilterSees linkType data proto sp dp := by
  obtain ⟨_, seg, noted, rfl, source, destination⟩ := labelled
  have labels := dissect_labels contract dissected
  rw [filtersMatch_iff]
  refine exists_congr (fun version => exists_congr (fun off => and_congr_right (fun _ => ?_)))
  by_cases right : networkAt linkType data = some (version, off)
  · rw [if_pos right]
    rw [right] at labels
    have transport : (networkLabels data (some (version, off))).transport = some seg := by
      rw [← labels]
      exact noted
    rcases networkAt_version right with rfl | rfl
    · exact ⟨fun _ => .inl rfl, fun _ => headerHolds_ipv4 transport source destination⟩
    · constructor
      · intro holds
        have number : octet data (off + 6) = seg.proto.number := holds.number
        right
        rw [number]
        cases seg.proto <;> rfl
      · rintro (impossible | plain)
        · cases impossible
        · exact headerHolds_ipv6 transport source destination plain
  · rw [if_neg right]

/-- An Ethernet frame, a hop-by-hop header before TCP from port 80 to port 81. -/
def hopByHopFrame : Bytes :=
  List.replicate 12 0 ++ [0x86, 0xdd, 0x60, 0, 0, 0, 0, 28, 0, 64] ++ List.replicate 32 0 ++
    [6, 0, 0, 0, 0, 0, 0, 0] ++ [0, 80, 0, 81] ++ List.replicate 8 0 ++ [0x50] ++
    List.replicate 7 0

theorem labelledAs_of_labels {d : DissectedPacket} {labels : Labels} (same : d.labels = labels)
    (proto : TransportProto) {seg : Transport} {sp dp : UInt16}
    (flagged : (match proto with | .tcp => labels.tcp | .udp => labels.udp) = true)
    (noted : labels.transport = some seg) (kind : seg.proto = proto)
    (source : seg.sport = sp.toNat) (destination : seg.dport = dp.toNat) :
    d.LabelledAs proto sp dp := by
  subst same
  refine ⟨?_, seg, noted, kind, source, destination⟩
  cases proto <;> exact flagged

theorem hop_by_hop_frame_missed :
    ∃ d, dissect refusingCrates hopByHopFrame .ethernet = .ok d ∧ d.LabelledAs .tcp 80 81 ∧
      ¬ FiltersMatch hopByHopFrame .tcp 80 81 := by
  obtain ⟨d, done, _, labels⟩ := dissect_ok refusingCrates_contract hopByHopFrame .ethernet
  have noted : (frameLabels .ethernet hopByHopFrame).transport =
      some (tcpHeader 62 (hopByHopFrame.drop 62)) := by
    decide +kernel
  refine ⟨d, done, labelledAs_of_labels labels .tcp ?_ noted rfl ?_ ?_, ?_⟩
  · decide +kernel
  · decide +kernel
  · decide +kernel
  · intro all
    have named := ((filtersMatch_hasPort _ _ _ _).mp all).1
    exact absurd named (by decide +kernel)

theorem short_dns_matched : FiltersMatch shortDnsFrame .udp 53 53 := by
  obtain ⟨d, done, _, labels⟩ := dissect_ok refusingCrates_contract shortDnsFrame .ethernet
  have noted : (frameLabels .ethernet shortDnsFrame).transport =
      some (udpHeader 34 (shortDnsFrame.drop 34)) := by
    decide +kernel
  have labelled : d.LabelledAs .udp 53 53 :=
    labelledAs_of_labels labels .udp (by decide +kernel) noted rfl (by decide +kernel)
      (by decide +kernel)
  have header : networkAt .ethernet shortDnsFrame = some (4, 14) := by decide +kernel
  refine (filters_match_iff_seen refusingCrates_contract done labelled).mpr ⟨4, 14, ?_, ?_⟩
  · decide +kernel
  · rw [if_pos header]
    exact .inl rfl

/- Where the guess is the dissector's header. -/

section

variable {data : Bytes} {found : Nat × Nat}

theorem filtersMatch_of_right_guess {crates : Crates} (contract : crates.Contract)
    {linkType : LinkType} {d : DissectedPacket} {proto : TransportProto} {sp dp : UInt16}
    (dissected : dissect crates data linkType = .ok d) (labelled : d.LabelledAs proto sp dp)
    {version off : Nat} (header : networkAt linkType data = some (version, off))
    (guess : l3At data = some (version, off)) :
    FiltersMatch data proto sp dp ↔
      version = 4 ∨ isExtension (octet data (off + 6)) = false := by
  have seen := filters_match_iff_seen contract dissected labelled
  rw [seen]
  constructor
  · rintro ⟨version', off', guess', holds⟩
    cases guess.symm.trans guess'
    rwa [if_pos header] at holds
  · intro plain
    exact ⟨version, off, guess, by rwa [if_pos header]⟩

theorem ethertypeNetwork_some {ethertype off : Nat}
    (header : ethertypeNetwork ethertype off = some found) :
    (ethertype = 0x0800 ∧ found = (4, off)) ∨ (ethertype = 0x86dd ∧ found = (6, off)) := by
  unfold ethertypeNetwork at header
  split_ifs at header with v4 v6
  · exact .inl ⟨v4, (Option.some.inj header).symm⟩
  · exact .inr ⟨v6, (Option.some.inj header).symm⟩

/-- On Ethernet the guess is never wrong. -/
theorem ethernet_guess (header : networkAt .ethernet data = some found) :
    l3At data = some found := by
  unfold networkAt at header
  dsimp only at header
  split at header
  · cases header
  · next long =>
    rw [l3At, if_pos (Nat.le_of_not_lt long), show etherHeadAt data = ethernetHead data from rfl]
    obtain ⟨v4, rfl⟩ | ⟨v6, rfl⟩ := ethertypeNetwork_some header
    · rw [if_pos v4]
    · rw [v6]
      rfl

/-- No known Ethernet type stands where an Ethernet frame has one. -/
def NoEthertype (data : Bytes) : Prop :=
  ∀ et ∈ [0x0800, 0x86dd, 0x0806], (etherHeadAt data).1 ≠ et

theorem l3At_noEthertype (quiet : NoEthertype data) : l3At data = sllL3At data := by
  have ip := quiet 0x0800 (by decide)
  have ip6 := quiet 0x86dd (by decide)
  have arp := quiet 0x0806 (by decide)
  by_cases long : 14 ≤ data.length
  · rw [l3At, if_pos long, if_neg ip, if_neg ip6, if_neg arp]
  · rw [l3At, if_neg long]

/-- On Linux SLL it is right where the bytes are not those of an Ethernet frame. -/
theorem linuxSll_guess (quiet : NoEthertype data)
    (header : networkAt .linuxSll data = some found) : l3At data = some found := by
  rw [l3At_noEthertype quiet]
  unfold networkAt at header
  dsimp only at header
  split at header
  · cases header
  · next long =>
    rw [sllL3At, if_pos (Nat.le_of_not_lt long)]
    obtain ⟨v4, rfl⟩ | ⟨v6, rfl⟩ := ethertypeNetwork_some header
    · rw [if_pos v4]
    · rw [v6]
      rfl

/-- On Linux SLL2 where they are not those of a Linux SLL frame either. -/
theorem linuxSll2_guess (quiet : NoEthertype data)
    (noSll : beAt data 14 2 ≠ 0x0800 ∧ beAt data 14 2 ≠ 0x86dd)
    (header : networkAt .linuxSll2 data = some found) : l3At data = some found := by
  rw [l3At_noEthertype quiet]
  unfold networkAt at header
  dsimp only at header
  split at header
  · cases header
  · next long =>
    have sll2 : sllL3At data = sll2L3At data := by
      rw [sllL3At, if_pos (by omega), if_neg noSll.1, if_neg noSll.2]
    rw [sll2, sll2L3At, if_pos (Nat.le_of_not_lt long)]
    obtain ⟨v4, rfl⟩ | ⟨v6, rfl⟩ := ethertypeNetwork_some header
    · rw [if_pos v4]
    · rw [v6]
      rfl

/-- On BSD loopback also where the family is little-endian and not 24, which the dissector
knows and the filters do not. -/
theorem null_guess (quiet : NoEthertype data)
    (noSll : beAt data 14 2 ≠ 0x0800 ∧ beAt data 14 2 ≠ 0x86dd)
    (noSll2 : beAt data 0 2 ≠ 0x0800 ∧ beAt data 0 2 ≠ 0x86dd)
    (family : leAt data 0 4 = 2 ∨ leAt data 0 4 = 28 ∨ leAt data 0 4 = 30)
    (header : networkAt .null data = some found) : l3At data = some found := by
  have guess : l3At data = nullL3At data := by
    rw [l3At_noEthertype quiet, sllL3At, sll2L3At, if_neg noSll.1, if_neg noSll.2,
      if_neg noSll2.1, if_neg noSll2.2]
    split_ifs <;> rfl
  unfold networkAt at header
  dsimp only at header
  split at header
  · cases header
  · next long =>
    rw [guess, nullL3At, if_pos (Nat.le_of_not_lt long), ← header]
    rcases family with inet | inet6 | inet6
    · simp only [nullFamily, inet]
      rfl
    · simp only [nullFamily, inet6]
      rfl
    · simp only [nullFamily, inet6]
      rfl

end

end BitBeak
