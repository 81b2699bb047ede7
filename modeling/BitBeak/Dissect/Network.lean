import BitBeak.Dissect.Dissect

/-! Where the dissector finds the network header of a frame, and what it takes for the
transport header behind it. -/
namespace BitBeak
open Wire

def TransportProto.number : TransportProto → UInt8
  | .tcp => 6
  | .udp => 17

/-- The shortest header of the protocol. -/
def TransportProto.minimum : TransportProto → Nat
  | .tcp => 20
  | .udp => 8

def transportHeader (proto : TransportProto) (offset : Nat) (data : Bytes) : Transport :=
  match proto with
  | .tcp => tcpHeader offset data
  | .udp => udpHeader offset data

@[simp] theorem transportHeader_proto (proto : TransportProto) (offset : Nat) (data : Bytes) :
    (transportHeader proto offset data).proto = proto := by
  cases proto <;> rfl

@[simp] theorem transportHeader_sport (proto : TransportProto) (offset : Nat) (data : Bytes) :
    (transportHeader proto offset data).sport = beAt data 0 2 := by
  cases proto <;> rfl

@[simp] theorem transportHeader_dport (proto : TransportProto) (offset : Nat) (data : Bytes) :
    (transportHeader proto offset data).dport = beAt data 2 2 := by
  cases proto <;> rfl

theorem tcpHeader_seq (offset : Nat) (data : Bytes) :
    (tcpHeader offset data).seq = beAt data 4 4 := rfl

theorem tcpHeader_payload (offset : Nat) (data : Bytes) :
    (tcpHeader offset data).payload = data.drop ((octet data 12 >>> 4).toNat * 4) :=
  drop_min_length _ _

/-- The IP version an Ethernet type stands for. -/
def ethertypeNetwork (ethertype off : Nat) : Option (Nat × Nat) :=
  if ethertype = 0x0800 then some (4, off)
  else if ethertype = 0x86dd then some (6, off)
  else none

def versionNetwork (off : Nat) (payload : Bytes) : Option (Nat × Nat) :=
  if payload = [] then none
  else if octet payload 0 >>> 4 = 4 then some (4, off)
  else if octet payload 0 >>> 4 = 6 then some (6, off)
  else none

/-- IP version and offset of the network header the dissector goes to. -/
def networkAt (linkType : LinkType) (data : Bytes) : Option (Nat × Nat) :=
  match linkType with
  | .ethernet | .unknown _ =>
    if data.length < 14 then none else ethertypeNetwork (ethernetHead data).1 (ethernetHead data).2
  | .linuxSll => if data.length < 16 then none else ethertypeNetwork (beAt data 14 2) 16
  | .linuxSll2 => if data.length < 20 then none else ethertypeNetwork (beAt data 0 2) 20
  | .null =>
    if data.length < 4 then none
    else if nullFamily data = 2 then some (4, 4)
    else if knownFamily (nullFamily data) then some (6, 4)
    else versionNetwork 4 (data.drop 4)
  | .raw => versionNetwork 0 data
  | .ieee80211 | .ieee80211Radio => none

def networkLabels (data : Bytes) : Option (Nat × Nat) → Labels
  | none => {}
  | some (version, off) =>
    if version = 4 then ipv4Labels off (data.drop off) else ipv6Labels off (data.drop off)

theorem ethertypeLabels_network (data : Bytes) (ethertype off : Nat) :
    ethertypeLabels ethertype off (data.drop off) =
      networkLabels data (ethertypeNetwork ethertype off) := by
  unfold ethertypeLabels ethertypeNetwork
  split
  · rfl
  · split <;> rfl

theorem versionLabels_network (data : Bytes) (off : Nat) :
    versionLabels off (data.drop off) = networkLabels data (versionNetwork off (data.drop off)) := by
  unfold versionLabels versionNetwork
  split
  · rfl
  · split
    · rfl
    · split <;> rfl

theorem frameLabels_network (linkType : LinkType) (data : Bytes) :
    frameLabels linkType data = networkLabels data (networkAt linkType data) := by
  have ethernet : ethernetLabels data = networkLabels data (networkAt .ethernet data) := by
    unfold ethernetLabels networkAt
    split
    · rfl
    · exact ethertypeLabels_network data _ _
  cases linkType with
  | ethernet => exact ethernet
  | unknown v => exact ethernet
  | linuxSll =>
    unfold frameLabels networkAt
    dsimp only
    split
    · rfl
    · exact ethertypeLabels_network data _ _
  | linuxSll2 =>
    unfold frameLabels networkAt
    dsimp only
    split
    · rfl
    · exact ethertypeLabels_network data _ _
  | null =>
    unfold frameLabels nullLabels networkAt
    dsimp only
    split
    · rfl
    · split
      · rfl
      · split
        · rfl
        · exact versionLabels_network data 4
  | raw => exact versionLabels_network data 0
  | ieee80211 => rfl
  | ieee80211Radio => rfl

/- What a labelled frame has in it. -/

theorem tcpLabels_some {offset : Nat} {data : Bytes} {seg : Transport}
    (labelled : (tcpLabels offset data).transport = some seg) :
    20 ≤ data.length ∧ seg = transportHeader .tcp offset data := by
  unfold tcpLabels at labelled
  split at labelled
  · cases labelled
  · next long =>
    cases labelled
    exact ⟨Nat.le_of_not_lt long, rfl⟩

theorem udpLabels_some {offset : Nat} {data : Bytes} {seg : Transport}
    (labelled : (udpLabels offset data).transport = some seg) :
    8 ≤ data.length ∧ seg = transportHeader .udp offset data := by
  unfold udpLabels at labelled
  split at labelled
  · cases labelled
  · next long =>
    cases labelled
    exact ⟨Nat.le_of_not_lt long, rfl⟩

/-- The header length an IPv4 header claims. -/
def headerLength (data : Bytes) : Nat := (octet data 0 &&& 0x0f).toNat * 4

theorem ipv4Labels_some {offset : Nat} {data : Bytes} {seg : Transport}
    (labelled : (ipv4Labels offset data).transport = some seg) :
    20 ≤ headerLength data ∧ headerLength data ≤ data.length ∧
      octet data 9 = seg.proto.number ∧
      seg.proto.minimum ≤ (ipv4Payload data (headerLength data)).length ∧
      seg = transportHeader seg.proto (offset + headerLength data)
        (ipv4Payload data (headerLength data)) := by
  unfold ipv4Labels at labelled
  dsimp only at labelled
  split at labelled
  · cases labelled
  · next header =>
    have known : 20 ≤ headerLength data ∧ headerLength data ≤ data.length := by
      unfold headerLength
      omega
    split at labelled
    · next tcp =>
      obtain ⟨long, rfl⟩ := tcpLabels_some labelled
      exact ⟨known.1, known.2, tcp, long, rfl⟩
    · split at labelled
      · next udp =>
        obtain ⟨long, rfl⟩ := udpLabels_some labelled
        exact ⟨known.1, known.2, udp, long, rfl⟩
      · cases labelled

/-- Reads of the payload are reads of the datagram further on. -/
theorem beAt_ipv4Payload {data : Bytes} {ihl i k : Nat}
    (inside : i + k ≤ (ipv4Payload data ihl).length) :
    beAt (ipv4Payload data ihl) i k = beAt data (ihl + i) k := by
  have short := length_span_le data ihl (max (min (beAt data 2 2) data.length) ihl)
  rw [ipv4Payload] at inside
  rw [ipv4Payload, beAt_span (by omega)]

theorem octet_ipv4Payload {data : Bytes} {ihl i : Nat}
    (inside : i < (ipv4Payload data ihl).length) :
    octet (ipv4Payload data ihl) i = octet data (ihl + i) := by
  have short := length_span_le data ihl (max (min (beAt data 2 2) data.length) ihl)
  rw [ipv4Payload] at inside
  rw [ipv4Payload, octet_span (by omega)]

theorem length_ipv4Payload {data : Bytes} {ihl : Nat} (header : ihl ≤ data.length) :
    (ipv4Payload data ihl).length = min (beAt data 2 2) data.length - ihl := by
  rw [ipv4Payload, length_span (by omega)]
  omega

theorem ipv6Labels_some {offset : Nat} {data : Bytes} {seg : Transport}
    (labelled : (ipv6Labels offset data).transport = some seg) :
    40 ≤ data.length ∧ ∃ cursor,
      extensionsEnd data (data.length + 1) (octet data 6) 40 = (seg.proto.number, cursor) ∧
      seg.proto.minimum ≤ (data.drop cursor).length ∧
      seg = transportHeader seg.proto (offset + cursor) (data.drop cursor) := by
  unfold ipv6Labels at labelled
  generalize extensionsEnd data (data.length + 1) (octet data 6) 40 = found at labelled ⊢
  obtain ⟨next, cursor⟩ := found
  dsimp only at labelled
  split at labelled
  · cases labelled
  · next long =>
    split at labelled
    · next tcp =>
      obtain ⟨room, rfl⟩ := tcpLabels_some labelled
      exact ⟨Nat.le_of_not_lt long, cursor, by rw [tcp]; rfl, room, rfl⟩
    · split at labelled
      · next udp =>
        obtain ⟨room, rfl⟩ := udpLabels_some labelled
        exact ⟨Nat.le_of_not_lt long, cursor, by rw [udp]; rfl, room, rfl⟩
      · cases labelled

/-- A frame marked as TCP has a TCP header noted. -/
def Labels.Noted (labels : Labels) : Prop :=
  labels.tcp = true → ∃ seg, labels.transport = some seg ∧ seg.proto = .tcp

theorem noted_nothing : Labels.Noted {} := by
  intro impossible
  cases impossible

theorem noted_tcp (offset : Nat) (data : Bytes) : (tcpLabels offset data).Noted := by
  unfold tcpLabels
  split
  · exact noted_nothing
  · exact fun _ => ⟨_, rfl, rfl⟩

theorem noted_udp (offset : Nat) (data : Bytes) : (udpLabels offset data).Noted := by
  unfold udpLabels
  split
  · exact noted_nothing
  · intro impossible
    cases impossible

theorem noted_ite {c : Prop} [Decidable c] {a b : Labels} (yes : a.Noted) (no : b.Noted) :
    (if c then a else b).Noted := by
  split
  · exact yes
  · exact no

theorem noted_network (data : Bytes) (found : Option (Nat × Nat)) :
    (networkLabels data found).Noted := by
  obtain _ | ⟨version, off⟩ := found
  · exact noted_nothing
  · exact noted_ite
      (noted_ite noted_nothing (noted_ite (noted_tcp _ _) (noted_ite (noted_udp _ _) noted_nothing)))
      (noted_ite noted_nothing (noted_ite (noted_tcp _ _) (noted_ite (noted_udp _ _) noted_nothing)))

/-- A header that is not an extension ends the walk where it starts. -/
theorem extensionsEnd_plain {data : Bytes} {next : UInt8} (plain : isExtension next = false)
    (fuel cursor : Nat) : extensionsEnd data (fuel + 1) next cursor = (next, cursor) := by
  rw [extensionsEnd, plain]
  rfl

theorem networkAt_version {linkType : LinkType} {data : Bytes} {version off : Nat}
    (found : networkAt linkType data = some (version, off)) : version = 4 ∨ version = 6 := by
  have ethertype : ∀ {ethertype off'}, ethertypeNetwork ethertype off' = some (version, off) →
      version = 4 ∨ version = 6 := by
    intro ethertype off' found
    unfold ethertypeNetwork at found
    split_ifs at found <;> cases found <;> decide
  have nibble : ∀ {off' payload}, versionNetwork off' payload = some (version, off) →
      version = 4 ∨ version = 6 := by
    intro off' payload found
    unfold versionNetwork at found
    split_ifs at found <;> cases found <;> decide
  unfold networkAt at found
  split at found
  · split_ifs at found
    exact ethertype found
  · split_ifs at found
    exact ethertype found
  · split_ifs at found
    exact ethertype found
  · split_ifs at found
    exact ethertype found
  · split_ifs at found
    · cases found
      decide
    · cases found
      decide
    · exact nibble found
  · exact nibble found
  · cases found
  · cases found

/-- The labels of a dissected frame are those of its headers. -/
theorem dissect_labels {crates : Crates} (contract : crates.Contract) {data : Bytes}
    {linkType : LinkType} {d : DissectedPacket} (dissected : dissect crates data linkType = .ok d) :
    d.labels = networkLabels data (networkAt linkType data) := by
  obtain ⟨d', done, _, labels⟩ := dissect_ok contract data linkType
  cases dissected.symm.trans done
  rw [labels, frameLabels_network]

end BitBeak
