import BitBeak.Dissect.Conserved

/-! How often the rows of the endpoints count a packet: once for each side that has the
endpoint. -/
namespace BitBeak
open Wire Tally

/-- The endpoints of one side of a packet, read from its text. -/
def sideEndpoints (flags : ProtocolFlags) (side : String) : List (EndpointKind × String) :=
  (if flags.ipv6 then [(.ipv6, stripPort side)]
    else if flags.ipv4 ∨ flags.arp then [(.ipv4, stripPort side)]
    else []) ++
  (if flags.tcp then ((portOf side).map (EndpointKind.tcpPort, ·)).toList else []) ++
  (if flags.udp then ((portOf side).map (EndpointKind.udpPort, ·)).toList else [])

/-- Which endpoints a side has. -/
theorem mem_sideEndpoints {flags : ProtocolFlags} {side : String} {e : EndpointKind × String} :
    e ∈ sideEndpoints flags side ↔
      match e.1 with
      | .mac => False
      | .ipv6 => flags.ipv6 ∧ e.2 = stripPort side
      | .ipv4 => (¬ flags.ipv6 ∧ (flags.ipv4 ∨ flags.arp)) ∧ e.2 = stripPort side
      | .tcpPort => flags.tcp ∧ portOf side = some e.2
      | .udpPort => flags.udp ∧ portOf side = some e.2 := by
  obtain ⟨kind, text⟩ := e
  unfold sideEndpoints
  by_cases four : flags.ipv4 = true ∨ flags.arp = true <;> cases six : flags.ipv6 <;>
    cases kind <;> simp [four]

namespace TimedPacket

variable (p : TimedPacket)

def AtSource (e : EndpointKind × String) : Prop := e ∈ sideEndpoints p.flags p.summary.src

def AtDestination (e : EndpointKind × String) : Prop := e ∈ sideEndpoints p.flags p.summary.dst

instance (e : EndpointKind × String) : Decidable (p.AtSource e) :=
  inferInstanceAs (Decidable (e ∈ _))

instance (e : EndpointKind × String) : Decidable (p.AtDestination e) :=
  inferInstanceAs (Decidable (e ∈ _))

/-- The two sides have different addresses and different ports, as far as each is counted. -/
structure SidesDiffer : Prop where
  addresses : p.flags.ipv6 ∨ p.flags.ipv4 ∨ p.flags.arp →
    stripPort p.summary.src ≠ stripPort p.summary.dst
  ports : p.flags.tcp ∨ p.flags.udp →
    ∀ port, portOf p.summary.src = some port → portOf p.summary.dst ≠ some port

theorem sidesDiffer_iff : p.SidesDiffer ↔ ∀ e, ¬ (p.AtSource e ∧ p.AtDestination e) := by
  constructor
  · rintro ⟨addresses, ports⟩ e ⟨source, destination⟩
    obtain ⟨kind, text⟩ := e
    unfold AtSource at source
    unfold AtDestination at destination
    rw [mem_sideEndpoints] at source destination
    cases kind with
    | mac => exact source
    | ipv6 => exact addresses (.inl source.1) (source.2.symm.trans destination.2)
    | ipv4 => exact addresses (.inr source.1.2) (source.2.symm.trans destination.2)
    | tcpPort => exact ports (.inl source.1) text source.2 destination.2
    | udpPort => exact ports (.inr source.1) text source.2 destination.2
  · intro apart
    constructor
    · intro counted same
      by_cases six : p.flags.ipv6 = true
      · apply apart (.ipv6, stripPort p.summary.src)
        exact ⟨mem_sideEndpoints.mpr ⟨six, rfl⟩, mem_sideEndpoints.mpr ⟨six, same⟩⟩
      · have four := counted.resolve_left six
        apply apart (.ipv4, stripPort p.summary.src)
        exact ⟨mem_sideEndpoints.mpr ⟨⟨six, four⟩, rfl⟩, mem_sideEndpoints.mpr ⟨⟨six, four⟩, same⟩⟩
    · rintro (tcp | udp) port source destination
      · apply apart (.tcpPort, port)
        exact ⟨mem_sideEndpoints.mpr ⟨tcp, source⟩, mem_sideEndpoints.mpr ⟨tcp, destination⟩⟩
      · apply apart (.udpPort, port)
        exact ⟨mem_sideEndpoints.mpr ⟨udp, source⟩, mem_sideEndpoints.mpr ⟨udp, destination⟩⟩

end TimedPacket

/-- The endpoints of a side are of different kinds, in this order. -/
theorem sideEndpoints_kinds (flags : ProtocolFlags) (side : String) :
    ((sideEndpoints flags side).map Prod.fst).Sublist
      ([if flags.ipv6 then .ipv6 else .ipv4] ++ [.tcpPort] ++ [.udpPort]) := by
  have port (flag : Bool) (kind : EndpointKind) :
      ((if flag then ((portOf side).map (kind, ·)).toList else []).map Prod.fst).Sublist [kind] := by
    cases flag <;> cases portOf side <;> simp
  unfold sideEndpoints
  rw [List.map_append, List.map_append]
  refine .append (.append ?_ (port _ _)) (port _ _)
  split_ifs <;> simp

theorem sideEndpoints_nodup (flags : ProtocolFlags) (side : String) :
    (sideEndpoints flags side).Nodup := by
  apply List.Nodup.of_map Prod.fst
  apply (sideEndpoints_kinds flags side).nodup
  split_ifs <;> decide

theorem count_endpointAddrs (p : TimedPacket) (e : EndpointKind × String) :
    (endpointAddrs p).count e = (sideEndpoints p.flags p.summary.src).count e +
      (sideEndpoints p.flags p.summary.dst).count e := by
  have pair (x y : EndpointKind × String) : [x, y].count e = [x].count e + [y].count e := by
    rw [← List.count_append]
    rfl
  have ports (flag : Bool) (kind : EndpointKind) (s t : Option String) :
      (if flag then (s.map (kind, ·)).toList ++ (t.map (kind, ·)).toList else []).count e =
        (if flag then (s.map (kind, ·)).toList else []).count e +
          (if flag then (t.map (kind, ·)).toList else []).count e := by
    cases flag <;> simp
  unfold endpointAddrs sideEndpoints
  simp only [List.count_append, ports]
  split_ifs <;> simp only [pair, List.count_nil] <;> omega

theorem count_side (flags : ProtocolFlags) (side : String) (e : EndpointKind × String) :
    (sideEndpoints flags side).count e = if e ∈ sideEndpoints flags side then 1 else 0 :=
  (sideEndpoints_nodup flags side).count

/- The table of a run. -/

theorem EndpointTable.ingest_eq (table : EndpointTable) (pkt : TimedPacket) :
    table.ingest pkt = puts table ((endpointAddrs pkt).map (endpointUpdate pkt)) := by
  unfold EndpointTable.ingest puts
  rw [List.foldl_map]

theorem endpoints_eq (packets : List TimedPacket) :
    packets.foldl EndpointTable.ingest ∅
      = puts ∅ ((tagged endpointAddrs packets).map fun e => endpointUpdate e.1 e.2) := by
  rw [foldl_puts _ EndpointTable.ingest_eq, tagged, List.map_flatMap]
  simp [Function.comp_def]

namespace EndpointRow

def key (row : EndpointRow) : EndpointKind × String := (row.kind, row.address)

def volume (row : EndpointRow) : Nat × Nat := (row.packets, row.bytes)

end EndpointRow

theorem endpoint_keyed (packets : List TimedPacket) (k : EndpointKind × String)
    (row : EndpointRow)
    (found : (packets.foldl EndpointTable.ingest ∅).lookup k = some row) : row.key = k := by
  rw [endpoints_eq] at found
  apply holds_puts (fun k row => row.key = k) _ _ _ k row found
  · intro k row none
    simp at none
  · intro u member
    obtain ⟨e, _, rfl⟩ := List.mem_map.mp member
    rfl
  · intro u member row same
    obtain ⟨e, _, rfl⟩ := List.mem_map.mp member
    exact same

theorem volume_filter_cons (among : TimedPacket → Prop) [DecidablePred among] (p : TimedPacket)
    (rest : List TimedPacket) : volume ((p :: rest).filter fun p => among p) =
      (if among p then p.size else 0) + volume (rest.filter fun p => among p) := by
  rw [volume_eq_sum, volume_eq_sum, List.filter_cons]
  by_cases this : among p
  · simp [this]
  · simp [this]

/-- A packet weighs once if it has the endpoint, and once more if both of its sides have it. -/
theorem count_size (p : TimedPacket) (e : EndpointKind × String) :
    (endpointAddrs p).count e • p.size =
      (if p.AtSource e ∨ p.AtDestination e then p.size else 0) +
        (if p.AtSource e ∧ p.AtDestination e then p.size else 0) := by
  have source : (sideEndpoints p.flags p.summary.src).count e = if p.AtSource e then 1 else 0 :=
    count_side _ _ e
  have destination : (sideEndpoints p.flags p.summary.dst).count e =
      if p.AtDestination e then 1 else 0 := count_side _ _ e
  rw [count_endpointAddrs, source, destination, add_nsmul]
  by_cases here : p.AtSource e <;> by_cases there : p.AtDestination e <;>
    simp [here, there, one_nsmul]

theorem sum_sides (packets : List TimedPacket) (e : EndpointKind × String) :
    (packets.map fun p => (endpointAddrs p).count e • p.size).sum =
      volume (packets.filter fun p => p.AtSource e ∨ p.AtDestination e) +
        volume (packets.filter fun p => p.AtSource e ∧ p.AtDestination e) := by
  induction packets with
  | nil => rfl
  | cons p rest ih =>
    rw [List.map_cons, List.sum_cons, ih, count_size,
      volume_filter_cons (fun p => p.AtSource e ∨ p.AtDestination e),
      volume_filter_cons (fun p => p.AtSource e ∧ p.AtDestination e)]
    exact add_add_add_comm _ _ _ _

/-- A row counts a packet for each of its sides. -/
theorem endpoint_row_volume (packets : List TimedPacket) {row : EndpointRow}
    (member : row ∈ (packets.foldl EndpointTable.ingest ∅).rows) :
    row.volume = volume (packets.filter fun p => p.AtSource row.key ∨ p.AtDestination row.key) +
      volume (packets.filter fun p => p.AtSource row.key ∧ p.AtDestination row.key) := by
  obtain ⟨k, found⟩ := mem_rows.mp ((List.perm_insertionSort _ _).mem_iff.mp member)
  have keyed := endpoint_keyed packets k row found
  have brings : ∀ e ∈ tagged endpointAddrs packets,
      Brings (fun _ (row : EndpointRow) => row.volume) e.1.size (endpointUpdate e.1 e.2) :=
    fun e _ => ⟨rfl, fun row => rfl⟩
  have counted := reading_puts ∅ brings k
  rw [← endpoints_eq] at counted
  have mine : reading (fun _ (row : EndpointRow) => row.volume)
      (packets.foldl EndpointTable.ingest ∅) k = row.volume := by
    rw [reading, found, Option.elim_some]
  have entries := sum_tagged endpointAddrs TimedPacket.size (fun _ => true) k packets
  simp only [Bool.true_and, List.filter_true] at entries
  rw [← mine, counted, keyed, ← sum_sides]
  simp only [reading, endpointUpdate, AList.lookup_empty, Option.elim_none, zero_add]
  exact entries

theorem endpoint_row_there (packets : List TimedPacket) {p : TimedPacket} (taken : p ∈ packets)
    {e : EndpointKind × String} (source : p.AtSource e) :
    ∃ row ∈ (packets.foldl EndpointTable.ingest ∅).rows, row.key = e := by
  have counted : e ∈ endpointAddrs p := by
    unfold TimedPacket.AtSource at source
    apply List.count_pos_iff.mp
    rw [count_endpointAddrs, count_side, if_pos source]
    omega
  have there : e ∈ packets.foldl EndpointTable.ingest ∅ := by
    rw [endpoints_eq, mem_puts]
    refine .inr ⟨endpointUpdate p e, List.mem_map.mpr ⟨(p, e), ?_, rfl⟩, rfl⟩
    exact List.mem_flatMap.mpr ⟨p, taken, List.mem_map_of_mem counted⟩
  obtain ⟨row, found⟩ := Option.isSome_iff_exists.mp (AList.lookup_isSome.mpr there)
  refine ⟨row, ?_, endpoint_keyed packets e row found⟩
  exact (List.perm_insertionSort _ _).mem_iff.mpr (mem_rows.mpr ⟨e, found⟩)

/-- Every row counts the packets that have its endpoint, each once, if and only if no packet
has one endpoint on both sides. -/
theorem endpoints_counted_once_iff (start capacity : Nat) (packets : List TimedPacket) :
    (∀ row ∈ (CaptureStats.ingestAll start capacity packets).endpoints.rows,
      row.volume = volume (packets.filter fun p =>
        p.AtSource (row.kind, row.address) ∨ p.AtDestination (row.kind, row.address))) ↔
          ∀ p ∈ packets, p.SidesDiffer := by
  rw [CaptureStats.ingestAll_eq]
  constructor
  · intro exact p taken
    rw [TimedPacket.sidesDiffer_iff]
    rintro e ⟨source, destination⟩
    obtain ⟨row, member, rfl⟩ := endpoint_row_there packets taken source
    have twice := endpoint_row_volume packets member
    rw [exact row member] at twice
    have none := congrArg Prod.fst (left_eq_add.mp twice)
    have both : p ∈ packets.filter fun p => p.AtSource row.key ∧ p.AtDestination row.key := by
      simp [taken, source, destination]
    exact absurd (List.length_pos_of_mem both) (by simpa [volume] using none)
  · intro differ row member
    have twice : packets.filter (fun p => p.AtSource row.key ∧ p.AtDestination row.key) = [] := by
      apply List.filter_eq_nil_iff.mpr
      intro p taken
      simpa using (TimedPacket.sidesDiffer_iff p).mp (differ p taken) row.key
    rw [endpoint_row_volume packets member, twice]
    exact add_zero _

/-- A packet from port 53 to port 53. -/
def portToPort : TimedPacket where
  linkType := .raw
  data := [1]
  summary := { src := "10.0.0.1:53", dst := "10.0.0.2:53" }
  flags := { udp := true, ipv4 := true }

/-- The row of the port counts the packet twice. -/
theorem port_counted_twice :
    (∃ row ∈ (CaptureStats.ingestAll 0 1 [portToPort]).endpoints.rows,
        row.kind = .udpPort ∧ row.address = "53" ∧ row.packets = 2 ∧ row.bytes = 2) ∧
      ¬ ∀ row ∈ (CaptureStats.ingestAll 0 1 [portToPort]).endpoints.rows,
        row.volume = volume ([portToPort].filter fun p =>
          p.AtSource (row.kind, row.address) ∨ p.AtDestination (row.kind, row.address)) := by
  decide +kernel

end BitBeak
