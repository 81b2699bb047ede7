import BitBeak.Capture.CapFilter
import BitBeak.Dissect.Network

/-! The later fragments of an IPv4 datagram, which begin in the middle of its payload. Neither
the dissector nor the port predicates look at the fragment offset. -/
namespace BitBeak
open Wire

/-- The frame carries a fragment that is not the first of its datagram. -/
structure LaterFragment (linkType : LinkType) (data : Bytes) (off : Nat) : Prop where
  network : networkAt linkType data = some (4, off)
  room : off + 20 ≤ data.length
  later : beAt data (off + 6) 2 % 2 ^ 13 ≠ 0

/-- Behind the header at `off` the datagram is as long as a header of the protocol it names. -/
def HeaderRoom (data : Bytes) (off : Nat) : Prop :=
  let ip := data.drop off
  20 ≤ headerLength ip ∧ headerLength ip ≤ ip.length ∧
    ∃ proto : TransportProto, octet ip 9 = proto.number ∧
      proto.minimum + headerLength ip ≤ min (beAt ip 2 2) ip.length

/-- The protocol number and the length of an IP header, as the filter takes them. -/
def filterHeader (data : Bytes) (version off : Nat) : UInt8 × Nat :=
  if version = 4 then (octet data (off + 9), headerLength (data.drop off))
  else (octet data (off + 6), 40)

/-- Behind the header the filter goes to, the frame has room for two ports of TCP or UDP. -/
def PortRoom (data : Bytes) : Prop :=
  ∃ version off, l3At data = some (version, off) ∧
    off + (if version = 4 then 20 else 40) ≤ data.length ∧
    ((filterHeader data version off).1 = 6 ∨ (filterHeader data version off).1 = 17) ∧
    off + (filterHeader data version off).2 + 4 ≤ data.length

/-- The frame is given no ports, and no port predicate matches it. -/
structure Portless (crates : Crates) (linkType : LinkType) (data : Bytes) : Prop where
  dissector : ∃ d, dissect crates data linkType = .ok d ∧ d.transport = none ∧
    d.flags.tcp = false ∧ d.flags.udp = false
  filter : ∀ p : UInt16,
    (CaptureFilter.port p).matchesRaw data = .ok false ∧
      (CaptureFilter.srcPort p).matchesRaw data = .ok false ∧
      (CaptureFilter.dstPort p).matchesRaw data = .ok false

theorem labels_eq_nothing {d : DissectedPacket} : d.labels = {} ↔
    d.transport = none ∧ d.flags.tcp = false ∧ d.flags.udp = false := by
  simp [DissectedPacket.labels]

/- The dissector. -/

theorem tcpLabels_nothing {offset : Nat} {data : Bytes} :
    tcpLabels offset data = {} ↔ data.length < 20 := by
  unfold tcpLabels
  split <;> simp_all

theorem udpLabels_nothing {offset : Nat} {data : Bytes} :
    udpLabels offset data = {} ↔ data.length < 8 := by
  unfold udpLabels
  split <;> simp_all

/-- A datagram whose header is inside it. -/
theorem ipv4Labels_header {off : Nat} {ip : Bytes} (long : 20 ≤ ip.length)
    (header : 20 ≤ headerLength ip ∧ headerLength ip ≤ ip.length) :
    ipv4Labels off ip =
      if octet ip 9 = 6 then tcpLabels (off + headerLength ip) (ipv4Payload ip (headerLength ip))
      else if octet ip 9 = 17 then
        udpLabels (off + headerLength ip) (ipv4Payload ip (headerLength ip))
      else {} := by
  have inside : ¬ (ip.length < 20 ∨ headerLength ip < 20 ∨ ip.length < headerLength ip) := by
    omega
  exact if_neg inside

theorem ipv4Labels_headless {off : Nat} {ip : Bytes}
    (outside : ¬ (20 ≤ headerLength ip ∧ headerLength ip ≤ ip.length)) : ipv4Labels off ip = {} := by
  have bad : ip.length < 20 ∨ headerLength ip < 20 ∨ ip.length < headerLength ip := by
    omega
  exact if_pos bad

/-- A number names one protocol. -/
theorem exists_number {number : UInt8} {proto : TransportProto} (named : number = proto.number)
    (fits : TransportProto → Prop) : (∃ proto, number = proto.number ∧ fits proto) ↔ fits proto := by
  constructor
  · rintro ⟨other, number', room⟩
    have same : other = proto := by
      have numbers := number'.symm.trans named
      cases other <;> cases proto <;> first | rfl | exact absurd numbers (by decide)
    exact same ▸ room
  · intro room
    exact ⟨proto, named, room⟩

theorem ipv4Labels_nothing {data : Bytes} {off : Nat} (room : off + 20 ≤ data.length) :
    ipv4Labels off (data.drop off) = {} ↔ ¬ HeaderRoom data off := by
  have long : 20 ≤ (data.drop off).length := by
    rw [List.length_drop]
    omega
  unfold HeaderRoom
  generalize data.drop off = ip at long
  dsimp only
  by_cases header : 20 ≤ headerLength ip ∧ headerLength ip ≤ ip.length
  · have payload := length_ipv4Payload header.2
    rw [ipv4Labels_header long header, ← and_assoc, and_iff_right header]
    split_ifs with tcp udp
    · rw [exists_number (show octet ip 9 = TransportProto.tcp.number from tcp), tcpLabels_nothing, payload]
      simp only [TransportProto.minimum]
      omega
    · rw [exists_number (show octet ip 9 = TransportProto.udp.number from udp), udpLabels_nothing, payload]
      simp only [TransportProto.minimum]
      omega
    · apply iff_of_true rfl
      rintro ⟨proto, number, _⟩
      cases proto with
      | tcp => exact tcp number
      | udp => exact udp number
  · rw [ipv4Labels_headless header]
    tauto

theorem dissector_portless {crates : Crates} (contract : crates.Contract) {linkType : LinkType}
    {data : Bytes} {off : Nat} (fragment : LaterFragment linkType data off) :
    (∃ d, dissect crates data linkType = .ok d ∧ d.transport = none ∧ d.flags.tcp = false ∧
      d.flags.udp = false) ↔ ¬ HeaderRoom data off := by
  obtain ⟨d, done, _, labelled⟩ := dissect_ok contract data linkType
  rw [frameLabels_network, fragment.network] at labelled
  rw [← ipv4Labels_nothing fragment.room, show ipv4Labels off (data.drop off) = d.labels from
    labelled.symm, labels_eq_nothing]
  constructor
  · rintro ⟨d', again, portless⟩
    cases done.symm.trans again
    exact portless
  · intro portless
    exact ⟨d, done, portless⟩

/- The filter. -/

/-- Where the filter finds ports, and the two that it finds. -/
def filterPorts (data : Bytes) : Option (Nat × Nat) :=
  match l4At data with
  | some (_, l4, proto) =>
    if (proto = 6 ∨ proto = 17) ∧ l4 + 4 ≤ data.length then
      some (beAt data l4 2, beAt data (l4 + 2) 2)
    else none
  | none => none

theorem hasPortAt_eq (data : Bytes) (port : UInt16) (side : Side) : hasPortAt data port side =
    (filterPorts data).any fun (sp, dp) => side.test (sp == port.toNat) (dp == port.toNat) := by
  unfold hasPortAt filterPorts
  cases l4At data with
  | none => rfl
  | some found =>
    obtain ⟨_, l4, proto⟩ := found
    by_cases there : (proto = 6 ∨ proto = 17) ∧ l4 + 4 ≤ data.length
    · simp [there]
    · simp only [if_neg there, Option.any_none]
      simp only [not_and_or, not_or] at there
      rcases there with other | short
      · simp [other]
      · simp [short]

theorem filterPorts_none (data : Bytes) : filterPorts data = none ↔ ¬ PortRoom data := by
  unfold filterPorts PortRoom l4At filterHeader headerLength
  obtain found | ⟨off, found⟩ | ⟨off, found⟩ := l3_cases data <;> simp only [found]
  · simp
  · by_cases short : data.length < off + 20
    · simp [short, Nat.not_le.mpr short]
    · simp [short, Nat.le_of_not_lt short, octet_drop]
  · by_cases short : data.length < off + 40
    · simp [short, Nat.not_le.mpr short]
    · simp [short, Nat.le_of_not_lt short]

/-- Ports that are found are matched by the predicates for them. -/
theorem filter_portless (data : Bytes) :
    (∀ p : UInt16, (CaptureFilter.port p).matchesRaw data = .ok false ∧
      (CaptureFilter.srcPort p).matchesRaw data = .ok false ∧
      (CaptureFilter.dstPort p).matchesRaw data = .ok false) ↔ ¬ PortRoom data := by
  rw [← filterPorts_none]
  simp only [CaptureFilter.matchesRaw_ok, CaptureFilter.matchesAt, hasPortAt_eq, Except.ok.injEq]
  constructor
  · intro unmatched
    cases found : filterPorts data with
    | none => rfl
    | some ports =>
      obtain ⟨sp, dp⟩ := ports
      have small : sp < 2 ^ 16 := by
        unfold filterPorts at found
        split at found
        · split_ifs at found
          cases found
          exact beAt_lt _ _ _
        · cases found
      have matched := (unmatched (UInt16.ofNat sp)).2.1
      have number : (UInt16.ofNat sp).toNat = sp := Nat.mod_eq_of_lt small
      simp [found, number, Side.test] at matched
  · intro nothing p
    simp [nothing]

/-- A later fragment is given no ports and matched by no port predicate exactly if neither
reader finds room for a transport header in it. -/
theorem later_fragment_portless_iff {crates : Crates} (contract : crates.Contract)
    {linkType : LinkType} {data : Bytes} {off : Nat} (fragment : LaterFragment linkType data off) :
    Portless crates linkType data ↔ ¬ HeaderRoom data off ∧ ¬ PortRoom data := by
  rw [← dissector_portless contract fragment, ← filter_portless]
  exact ⟨fun portless => ⟨portless.dissector, portless.filter⟩, fun both => ⟨both.1, both.2⟩⟩

/-- A later fragment of `len` octets whose payload has the given octets in front. -/
def fragmentFrame (proto : UInt8) (payload : Bytes) : Bytes :=
  List.replicate 12 0 ++ [0x08, 0x00, 0x45, 0, 0, UInt8.ofNat (20 + payload.length), 0, 1, 0, 185] ++
    [64, proto, 0, 0] ++ [10, 0, 0, 1, 10, 0, 0, 2] ++ payload

theorem icmp_fragment_portless :
    Portless refusingCrates .ethernet (fragmentFrame 1 [0, 53, 0, 53, 0, 11, 0, 0]) ↔
      ¬ HeaderRoom (fragmentFrame 1 [0, 53, 0, 53, 0, 11, 0, 0]) 14 ∧
        ¬ PortRoom (fragmentFrame 1 [0, 53, 0, 53, 0, 11, 0, 0]) :=
  later_fragment_portless_iff refusingCrates_contract ⟨by decide, by decide, by decide⟩

/-- Eight octets from the middle of a UDP datagram, read as its header. -/
theorem fragment_given_ports : ¬ ∀ (linkType : LinkType) (data : Bytes) (off : Nat),
    LaterFragment linkType data off → Portless refusingCrates linkType data := by
  intro claimed
  have portless := claimed .ethernet (fragmentFrame 17 [0, 53, 0, 53, 0, 11, 0, 0]) 14
    ⟨by decide, by decide, by decide⟩
  have read := (portless.filter 53).1
  exact absurd read (by decide)

end BitBeak
