import BitBeak.Dissect.Redelivery

/-! The records that defragmentation of a packet list returns: one for each datagram that
is completed, a copy of the record that completed it. -/
namespace BitBeak
open Wire

/-- The copy of the last fragment that stands for its datagram. Only the text is new. -/
def PacketRecord.reassembled (p : PacketRecord) (data : Bytes) : PacketRecord :=
  { p with summary :=
    { p.summary with info := "IPv4 reassembled (" ++ toString data.length ++ " bytes)" } }

/-- The loop of `defrag_ipv4`. -/
def defragFrom (table : Ipv4Defrag) : List PacketRecord → Except Fault (List PacketRecord)
  | [] => return []
  | p :: rest => do
    let (next, found) ← table.ingest p
    let out ← defragFrom next rest
    match found with
    | some data => return p.reassembled data :: out
    | none => return out

def defragIpv4 (packets : List PacketRecord) : Except Fault (List PacketRecord) :=
  defragFrom ∅ packets

/-- The records for what a scan completed. -/
def emitted (packets : List PacketRecord) (outs : List (Option Bytes)) : List PacketRecord :=
  (packets.zip outs).filterMap fun (p, found) => found.map p.reassembled

/-- A record carries a datagram if its octets, read as IPv4, have that payload. -/
def Carries (rec : PacketRecord) (datagram : Bytes) : Prop :=
  ∃ hdr, parseIpv4 rec = .ok (some (hdr, datagram))

def Ipv4Hdr.key (hdr : Ipv4Hdr) : FragKey := ⟨hdr.id, hdr.src, hdr.dst, hdr.proto⟩

def Ipv4Hdr.piece (hdr : Ipv4Hdr) (payload : Bytes) : FragPiece :=
  ⟨hdr.fragOffset, hdr.moreFragments, payload⟩

/-- If the record completes a datagram, nothing but empty fragments of it came before. -/
def CompletesAlone (table : Ipv4Defrag) (p : PacketRecord) : Prop :=
  ∀ hdr payload next out, parseIpv4 p = .ok (some (hdr, payload)) →
    table.ingest p = .ok (next, some out) → ∀ f ∈ table.held hdr.key, f.data = []

/-- Each record of the list completes its datagram alone, if it completes one. -/
def EachAlone (table : Ipv4Defrag) (packets : List PacketRecord) : Prop :=
  ∀ seen p rest, packets = seen ++ p :: rest →
    ∀ now outs, table.ingestAll seen = .ok (now, outs) → CompletesAlone now p

/-- The list is read to its end, and what is returned carries, one for one and in order, the
datagrams that the scan completes. -/
def ReturnsDatagrams (table : Ipv4Defrag) (packets : List PacketRecord) : Prop :=
  ∃ final outs out, table.ingestAll packets = .ok (final, outs) ∧
    defragFrom table packets = .ok out ∧ List.Forall₂ Carries out (outs.filterMap id)

/- What one completion puts together. -/

section
variable {s l : List FragPiece} {out : Bytes}

theorem joinPieces_flatten {expected : Nat} (joined : joinPieces expected s = some out) :
    out = (s.map (·.data)).flatten := by
  induction s generalizing expected out with
  | nil =>
    cases joined
    rfl
  | cons f s ih =>
    unfold joinPieces at joined
    split at joined
    · cases joined
    · obtain ⟨rest, later, rfl⟩ := Option.map_eq_some_iff.mp joined
      simp [ih later]

/-- A datagram is made of the data of its pieces, in some order. -/
theorem reassemble_perm (made : reassemble l = some out) :
    ∃ s : List FragPiece, s.Perm l ∧ out = (s.map (·.data)).flatten := by
  unfold reassemble at made
  split at made
  · cases made
  · dsimp only at made
    split at made
    · cases made
    · next joined =>
      split at made
      · cases made
      · cases made
        exact ⟨_, List.perm_insertionSort _ l, joinPieces_flatten joined⟩

theorem flatten_perm_one {pieces : List Bytes} {data : Bytes} {others : List Bytes}
    (same : pieces.Perm (others ++ [data])) (empty : ∀ x ∈ others, x = []) :
    pieces.flatten = data := by
  have filled := same.filter (fun x => !x.isEmpty)
  have none : others.filter (fun x => !x.isEmpty) = [] := by
    apply List.filter_eq_nil_iff.mpr
    intro x member
    simp [empty x member]
  rw [List.filter_append, none, List.nil_append] at filled
  rw [← List.flatten_filter_not_isEmpty]
  cases data with
  | nil =>
    have gone : pieces.filter (fun x => !x.isEmpty) = [] := List.Perm.eq_nil filled
    rw [gone]
    rfl
  | cons b data =>
    have alone : pieces.filter (fun x => !x.isEmpty) = [b :: data] :=
      List.Perm.eq_singleton filled
    simp [alone]

/-- The datagram is its last piece if and only if all the others are empty. -/
theorem reassemble_alone_iff {piece : FragPiece} (made : reassemble (l ++ [piece]) = some out) :
    piece.data = out ↔ ∀ f ∈ l, f.data = [] := by
  obtain ⟨s, same, rfl⟩ := reassemble_perm made
  have data := same.map (·.data)
  rw [List.map_append, List.map_singleton] at data
  constructor
  · intro last f member
    have total : (s.map (·.data)).flatten.length
        = ((l.map (·.data)).map List.length).sum + piece.data.length := by
      rw [List.length_flatten, (data.map List.length).sum_nat]
      simp
    rw [← last] at total
    have nothing : ((l.map (·.data)).map List.length).sum = 0 := by omega
    have each := List.sum_eq_zero_iff_forall_eq_nat.mp nothing f.data.length
      (List.mem_map_of_mem (List.mem_map_of_mem member))
    exact List.length_eq_zero_iff.mp each
  · intro empty
    apply (flatten_perm_one data _).symm
    intro x member
    obtain ⟨f, inside, rfl⟩ := List.mem_map.mp member
    exact empty f inside

end

/- One record. -/

section
variable {table next : Ipv4Defrag} {p : PacketRecord} {found : Option Bytes}

theorem ingest_ok_iff (table : Ipv4Defrag) (p : PacketRecord) :
    (∃ step, table.ingest p = .ok step) ↔ LengthsInside p := (defrag_in_range_iff p).2 table

/-- A record that completes a datagram is a fragment, and its piece goes behind those held. -/
theorem ingest_completes {out : Bytes} (step : table.ingest p = .ok (next, some out)) :
    ∃ hdr payload, parseIpv4 p = .ok (some (hdr, payload)) ∧
      reassemble (table.held hdr.key ++ [hdr.piece payload]) = some out := by
  unfold Ipv4Defrag.ingest at step
  cases read : parseIpv4 p with
  | error fault =>
    rw [read] at step
    cases step
  | ok header =>
    rw [read, ok_bind] at step
    cases header with
    | none => cases step
    | some both =>
      obtain ⟨hdr, payload⟩ := both
      refine ⟨hdr, payload, rfl, ?_⟩
      dsimp only at step
      split at step
      · cases step
      · split at step
        · cases step
        · next made =>
          cases step
          exact made

theorem carries_reassembled {data datagram : Bytes} {hdr : Ipv4Hdr} {payload : Bytes}
    (read : parseIpv4 p = .ok (some (hdr, payload))) :
    Carries (p.reassembled data) datagram ↔ payload = datagram := by
  have same : parseIpv4 (p.reassembled data) = parseIpv4 p := rfl
  unfold Carries
  rw [same, read]
  simp

theorem completion_carries_iff {out : Bytes} (step : table.ingest p = .ok (next, some out)) :
    Carries (p.reassembled out) out ↔ CompletesAlone table p := by
  obtain ⟨hdr, payload, read, made⟩ := ingest_completes step
  rw [carries_reassembled read, show payload = (hdr.piece payload).data from rfl,
    reassemble_alone_iff made]
  constructor
  · intro empty other data after result parsed _
    rw [read] at parsed
    cases parsed
    exact empty
  · intro alone
    exact alone hdr payload next out read step

theorem completesAlone_none (step : table.ingest p = .ok (next, none)) :
    CompletesAlone table p := by
  intro hdr payload after out _ completed
  rw [step] at completed
  cases completed

end

/- The whole list. -/

section
variable {table next : Ipv4Defrag} {p : PacketRecord} {rest : List PacketRecord}
  {found : Option Bytes}

theorem eachAlone_cons (step : table.ingest p = .ok (next, found)) :
    EachAlone table (p :: rest) ↔ CompletesAlone table p ∧ EachAlone next rest := by
  constructor
  · intro each
    refine ⟨each [] p rest rfl table [] rfl, ?_⟩
    rintro seen q later rfl now outs ran
    apply each (p :: seen) q later rfl now (found :: outs)
    rw [Ipv4Defrag.ingestAll_cons, step, ok_bind, ran]
    rfl
  · rintro ⟨here, others⟩ seen q later split now outs ran
    cases seen with
    | nil =>
      cases ran
      cases split
      exact here
    | cons r seen =>
      obtain ⟨rfl, rfl⟩ := List.cons.inj split
      rw [Ipv4Defrag.ingestAll_cons, step, ok_bind] at ran
      cases tail : next.ingestAll seen with
      | error fault =>
        rw [tail] at ran
        cases ran
      | ok final =>
        rw [tail] at ran
        cases ran
        exact others seen q later rfl final.1 final.2 tail

theorem ingestAll_step (step : table.ingest p = .ok (next, found)) :
    table.ingestAll (p :: rest) = (next.ingestAll rest).map (fun r => (r.1, found :: r.2)) := by
  rw [Ipv4Defrag.ingestAll_cons, step, ok_bind]
  cases next.ingestAll rest <;> rfl

/-- The loop returns what the scan completed, each as the record that completed it. -/
theorem defragFrom_eq (table : Ipv4Defrag) (packets : List PacketRecord) :
    defragFrom table packets = (table.ingestAll packets).map (fun r => emitted packets r.2) := by
  induction packets generalizing table with
  | nil => rfl
  | cons p rest ih =>
    unfold defragFrom
    cases step : table.ingest p with
    | error fault =>
      rw [Ipv4Defrag.ingestAll_cons, step]
      rfl
    | ok taken =>
      obtain ⟨next, found⟩ := taken
      rw [ingestAll_step step, ok_bind]
      dsimp only
      rw [ih]
      cases next.ingestAll rest with
      | error fault => rfl
      | ok run => cases found <;> rfl

theorem returnsDatagrams_iff (table : Ipv4Defrag) (packets : List PacketRecord) :
    ReturnsDatagrams table packets ↔ ∃ final outs, table.ingestAll packets = .ok (final, outs) ∧
      List.Forall₂ Carries (emitted packets outs) (outs.filterMap id) := by
  unfold ReturnsDatagrams
  rw [defragFrom_eq]
  constructor
  · rintro ⟨final, outs, out, scan, returned, each⟩
    rw [scan] at returned
    cases returned
    exact ⟨final, outs, scan, each⟩
  · rintro ⟨final, outs, scan, each⟩
    exact ⟨final, outs, _, scan, by rw [scan]; rfl, each⟩

theorem returnsDatagrams_cons (step : table.ingest p = .ok (next, found)) :
    ReturnsDatagrams table (p :: rest) ↔
      (∀ data, found = some data → Carries (p.reassembled data) data) ∧
        ReturnsDatagrams next rest := by
  rw [returnsDatagrams_iff, returnsDatagrams_iff, ingestAll_step step]
  cases next.ingestAll rest with
  | error fault => simp [Except.map]
  | ok run =>
    obtain ⟨final, outs⟩ := run
    cases found <;> simp [Except.map, emitted]

/-- The scan returns what it completes if and only if every record is read inside itself, and
no completion has octets of its datagram held from before. -/
theorem returnsDatagrams_from_iff (table : Ipv4Defrag) (packets : List PacketRecord) :
    ReturnsDatagrams table packets ↔
      (∀ p ∈ packets, LengthsInside p) ∧ EachAlone table packets := by
  induction packets generalizing table with
  | nil =>
    constructor
    · intro _
      refine ⟨fun p member => absurd member List.not_mem_nil, ?_⟩
      intro seen p rest split
      simp at split
    · intro _
      exact ⟨table, [], [], rfl, rfl, .nil⟩
  | cons p rest ih =>
    rw [List.forall_mem_cons]
    by_cases inside : LengthsInside p
    · obtain ⟨⟨next, found⟩, step⟩ := (ingest_ok_iff table p).mpr inside
      have here : (∀ data, found = some data → Carries (p.reassembled data) data) ↔
          CompletesAlone table p := by
        cases found with
        | none => simp [completesAlone_none step]
        | some data => simpa using completion_carries_iff step
      rw [returnsDatagrams_cons step, eachAlone_cons step, here, ih next]
      tauto
    · constructor
      · rintro ⟨final, outs, out, scan, -⟩
        apply absurd _ inside
        apply (ingest_ok_iff table p).mp
        cases step : table.ingest p with
        | error fault =>
          rw [Ipv4Defrag.ingestAll_cons, step] at scan
          cases scan
        | ok taken => exact ⟨taken, rfl⟩
      · rintro ⟨⟨here, -⟩, -⟩
        exact absurd here inside

end

/-- One record for each completion and in their order, whatever the records carry. -/
theorem one_record_per_completion (packets : List PacketRecord) :
    defragIpv4 packets
      = (Ipv4Defrag.ingestAll ∅ packets).map (fun r => emitted packets r.2) :=
  defragFrom_eq ∅ packets

/-- The packets returned carry the datagrams that were completed if and only if each
completed datagram came whole with its last fragment. -/
theorem defrag_returns_datagrams_iff (packets : List PacketRecord) :
    (∃ final outs out, Ipv4Defrag.ingestAll ∅ packets = .ok (final, outs) ∧
      defragIpv4 packets = .ok out ∧ List.Forall₂ Carries out (outs.filterMap id)) ↔
        (∀ p ∈ packets, LengthsInside p) ∧ EachAlone ∅ packets :=
  returnsDatagrams_from_iff ∅ packets

/-- Nine octets in two fragments: the record returned holds the ninth. -/
theorem last_fragment_returned :
    (∃ out, defragIpv4 [firstHalf.record, secondHalf.record] = .ok [out] ∧
        out = secondHalf.record.reassembled twoFragments.payload ∧
        out.summary.info = "IPv4 reassembled (9 bytes)" ∧
        ¬ twoFragments.payload <:+: out.data) ∧
      ¬ ∃ final outs out,
        Ipv4Defrag.ingestAll ∅ [firstHalf.record, secondHalf.record] = .ok (final, outs) ∧
          defragIpv4 [firstHalf.record, secondHalf.record] = .ok out ∧
            List.Forall₂ Carries out (outs.filterMap id) := by
  refine ⟨⟨_, by decide, rfl, by decide, by decide⟩, fun returned => ?_⟩
  have each := ((returnsDatagrams_from_iff ∅ _).mp returned).2
  have waits : Ipv4Defrag.ingestAll ∅ [firstHalf.record]
      = .ok (AList.singleton twoFragments.key [firstHalf.fragment.piece], [none]) := rfl
  have completes : Ipv4Defrag.ingest
      (AList.singleton twoFragments.key [firstHalf.fragment.piece]) secondHalf.record
      = .ok (∅, some twoFragments.payload) := rfl
  have read : parseIpv4 secondHalf.record
      = .ok (some (⟨7, 0x0a000001, 0x0a000002, 17, 8, false⟩, [8])) := by decide
  have alone := each [firstHalf.record] secondHalf.record [] rfl _ _ waits
  have empty := alone _ _ _ _ read completes firstHalf.fragment.piece (by decide)
  cases empty

end BitBeak
