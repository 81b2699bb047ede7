import BitBeak.Dissect.FollowTcp

/-! Following a TCP stream whatever the order its packets are captured in. -/
namespace BitBeak
open Wire OrderedMap

/-- Segments of one direction with one sequence number have one payload. What is counted as
the segment of a packet, and its number, is what the loop over the packets takes of it. -/
def SegmentsAgree (native : Endian) (selected : PacketRecord) (packets : List PacketRecord) :
    Prop :=
  ∀ p ∈ packets, ∀ q ∈ packets, ∀ seq forward x y,
    segmentOf native selected p = some (seq, forward, x) →
      segmentOf native selected q = some (seq, forward, y) → x = y

section
variable {native : Endian} {selected : PacketRecord} {packets packets' : List PacketRecord}

/-- The segments of one direction, by their numbers. -/
def segmentsOf (native : Endian) (selected : PacketRecord) (forward : Bool)
    (packets : List PacketRecord) : List (Nat × Bytes) :=
  ofDirection forward (packets.filterMap (segmentOf native selected))

theorem mem_segmentsOf {forward : Bool} {e : Nat × Bytes} :
    e ∈ segmentsOf native selected forward packets ↔
      ∃ p ∈ packets, segmentOf native selected p = some (e.1, forward, e.2) := by
  unfold segmentsOf ofDirection
  constructor
  · intro member
    obtain ⟨⟨seq, direction, payload⟩, taken, kept⟩ := List.mem_filterMap.mp member
    obtain ⟨p, inside, found⟩ := List.mem_filterMap.mp taken
    obtain ⟨rfl, entry⟩ := Option.ite_none_right_eq_some.mp kept
    cases entry
    exact ⟨p, inside, found⟩
  · rintro ⟨p, inside, found⟩
    apply List.mem_filterMap.mpr
    exact ⟨_, List.mem_filterMap.mpr ⟨p, inside, found⟩, if_pos rfl⟩

theorem segmentsOf_functional (agree : SegmentsAgree native selected packets) (forward : Bool) :
    Functional (segmentsOf native selected forward packets) := by
  rintro ⟨seq, x⟩ first ⟨seq', y⟩ second same
  obtain ⟨p, inside, one⟩ := mem_segmentsOf.mp first
  obtain ⟨q, there, other⟩ := mem_segmentsOf.mp second
  cases same
  have equal : x = y := agree p inside q there seq forward x y one other
  rw [equal]

theorem segmentsOf_perm (same : packets.Perm packets') (forward : Bool) :
    (segmentsOf native selected forward packets).Perm
      (segmentsOf native selected forward packets') :=
  (same.filterMap _).filterMap _

end

/-- What is followed, from the segments of the two directions. -/
def followed (selected : PacketRecord) (forward reverse : List (Nat × Bytes)) : FollowResult :=
  let client := (ofList forward).map Prod.snd
  let server := (ofList reverse).map Prod.snd
  { label := "TCP " ++ selected.summary.src ++ " ↔ " ++ selected.summary.dst
    text := "--- Client → Server ---\n" ++ String.join (client.map fromUtf8Lossy) ++
      "\n--- Server → Client ---\n" ++ String.join (server.map fromUtf8Lossy)
    raw := client.flatten ++ server.flatten
    objects := [] }

theorem followTcp_eq (native : Endian) (packets : List PacketRecord) (selected : PacketRecord) :
    followTcp native packets selected = .ok (followed selected
      (segmentsOf native selected true packets) (segmentsOf native selected false packets)) := by
  unfold followTcp
  rw [collect_ok, ok_bind, List.nil_append, putSegments_eq]
  rfl

/-- Two captures of the same packets in different orders are followed to the same stream. -/
theorem follow_order_independent (native : Endian) (selected : PacketRecord)
    (packets packets' : List PacketRecord) (same : packets.Perm packets')
    (agree : SegmentsAgree native selected packets) :
    ∃ r r', followTcp native packets selected = .ok r ∧
      followTcp native packets' selected = .ok r' ∧ r.raw = r'.raw ∧ r.text = r'.text := by
  have maps : ∀ forward, ofList (segmentsOf native selected forward packets)
      = ofList (segmentsOf native selected forward packets') := fun forward =>
    ofList_perm (segmentsOf_functional agree forward) (segmentsOf_perm same forward)
  refine ⟨_, _, followTcp_eq native packets selected, followTcp_eq native packets' selected, ?_⟩
  unfold followed
  rw [maps true, maps false]
  exact ⟨rfl, rfl⟩

/-- A request in two segments and an answer, the second segment twice. -/
def answeredRequest : List PacketRecord :=
  [tcpRecord true 1 [0x61], tcpRecord true 2 [0x62], tcpRecord true 2 [0x62],
    tcpRecord false 1 [0x63]]

theorem reversed_request_followed :
    ∃ r r', followTcp .little answeredRequest (tcpRecord true 0 []) = .ok r ∧
      followTcp .little answeredRequest.reverse (tcpRecord true 0 []) = .ok r' ∧
        r.raw = r'.raw ∧ r.text = r'.text := by
  apply follow_order_independent .little (tcpRecord true 0 []) answeredRequest
    answeredRequest.reverse (List.reverse_perm _).symm
  have one : ∀ forward seq payload, seq < 2 ^ 32 → payload ≠ [] →
      segmentOf .little (tcpRecord true 0 []) (tcpRecord forward seq payload)
        = some (seq, forward, payload) := by
    intro forward seq payload small filled
    have wire := segmentOnWire_wireFrame .little small payload
    have ends : sameEnds (tcpRecord true 0 []) (tcpRecord forward seq payload) = true := by
      cases forward <;> rfl
    have direction : isForward (tcpRecord true 0 []) (tcpRecord forward seq payload) = forward := by
      cases forward <;> rfl
    unfold segmentOf
    rw [ends, direction, payloadOf]
    simp [tcpRecord, wire, filled]
  simp [SegmentsAgree, answeredRequest, one]

end BitBeak
