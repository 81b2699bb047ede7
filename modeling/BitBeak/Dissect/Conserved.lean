import BitBeak.Dissect.Analysis

/-! What the statistics count is what was taken in: every packet and every octet once, in the
hierarchy, in the lengths and in the conversations of each kind. -/
namespace BitBeak
open Wire Tally

/-- Packets and octets. -/
def volume (packets : List TimedPacket) : Nat × Nat :=
  (packets.length, (packets.map fun p => p.data.length).sum)

def TimedPacket.size (p : TimedPacket) : Nat × Nat := (1, p.data.length)

theorem volume_eq_sum (packets : List TimedPacket) :
    volume packets = (packets.map TimedPacket.size).sum := by
  induction packets with
  | nil => rfl
  | cons p rest ih =>
    rw [List.map_cons, List.sum_cons, ← ih]
    simp [volume, TimedPacket.size, Nat.add_comm]

/- The tables of a run, by the updates that made them. -/

namespace CaptureStats

variable (start capacity : Nat) (packets : List TimedPacket)

/-- Each table takes in the packets on its own. -/
theorem ingestAll_eq : ingestAll start capacity packets =
    { conversations := packets.foldl ConversationTable.ingest ∅
      endpoints := packets.foldl EndpointTable.ingest ∅
      hierarchy := packets.foldl ProtoHierarchy.ingest ∅
      lengths := packets.foldl LengthHistogram.ingest {}
      io := packets.foldl IoGraph.ingest (IoGraph.new start capacity) } := by
  induction packets using List.reverseRecOn with
  | nil => rfl
  | append_singleton packets p ih =>
    unfold ingestAll at ih ⊢
    rw [List.foldl_append, ih]
    simp [ingest]

end CaptureStats

/-- The kinds under which a packet is counted. Without both ends it is under none. -/
def countedKinds (pkt : TimedPacket) : List ConversationKind :=
  if pkt.summary.src.isEmpty ∨ pkt.summary.dst.isEmpty then [] else conversationKinds pkt.flags

theorem ConversationTable.ingest_eq (table : ConversationTable) (pkt : TimedPacket) :
    table.ingest pkt = puts table ((countedKinds pkt).map (conversationUpdate pkt)) := by
  unfold ConversationTable.ingest puts countedKinds
  rw [List.foldl_map]
  split <;> rfl

theorem conversations_eq (packets : List TimedPacket) :
    packets.foldl ConversationTable.ingest ∅
      = puts ∅ ((tagged countedKinds packets).map fun e => conversationUpdate e.1 e.2) := by
  rw [foldl_puts _ ConversationTable.ingest_eq, tagged, List.map_flatMap]
  simp [Function.comp_def]

theorem hierarchy_eq (packets : List TimedPacket) :
    packets.foldl ProtoHierarchy.ingest ∅ = puts ∅ (packets.map protoUpdate) := by
  unfold puts
  rw [List.foldl_map]
  rfl

/- The hierarchy and the lengths. -/

theorem hierarchy_total (packets : List TimedPacket) :
    ((packets.foldl ProtoHierarchy.ingest ∅).rows.map Prod.snd).sum = volume packets := by
  have brings : ∀ p ∈ packets, Brings (fun _ e => e) p.size (protoUpdate p) := by
    intro p _
    exact ⟨rfl, fun e => rfl⟩
  have counted := total_puts ∅ brings
  rw [hierarchy_eq]
  unfold ProtoHierarchy.rows
  rw [((List.perm_insertionSort _ _).map Prod.snd).sum_eq, List.map_map, volume_eq_sum]
  calc _ = total (fun _ e => e) (puts ∅ (packets.map protoUpdate)) := rfl
    _ = 0 + (packets.map TimedPacket.size).sum := counted
    _ = _ := zero_add _

theorem lengths_total (packets : List TimedPacket) :
    ∑ i, (packets.foldl LengthHistogram.ingest {}).buckets i = packets.length := by
  induction packets using List.reverseRecOn with
  | nil => rfl
  | append_singleton packets p ih =>
    rw [List.foldl_append, List.length_append]
    simp only [List.foldl_cons, List.foldl_nil, List.length_singleton, LengthHistogram.ingest]
    rw [Finset.sum_update_of_mem (Finset.mem_univ _), ← ih,
      ← Finset.add_sum_erase _ _ (Finset.mem_univ (lengthBucket p.data.length)),
      Finset.sdiff_singleton_eq_erase]
    exact Nat.add_right_comm _ _ _

/- The conversations. -/

/-- The addresses of the row that a packet is counted in. -/
def pairOf (p : TimedPacket) : String × String :=
  ((normalizePair p.summary.src p.summary.dst).1, (normalizePair p.summary.src p.summary.dst).2.1)

namespace ConversationRow

def key (row : ConversationRow) : ConversationKey := (row.kind, row.addrA, row.addrB)

def volume (row : ConversationRow) : Nat × Nat := (row.packets, row.bytes)

end ConversationRow

section
variable (p : TimedPacket) (kind : ConversationKind)

@[simp] theorem conversationUpdate_key : (conversationUpdate p kind).key = (kind, pairOf p) := rfl

@[simp] theorem conversationUpdate_new_key :
    (conversationUpdate p kind).new.key = (kind, pairOf p) := rfl

@[simp] theorem conversationUpdate_new_volume : (conversationUpdate p kind).new.volume = 0 := rfl

@[simp] theorem conversationUpdate_change_key (row : ConversationRow) :
    ((conversationUpdate p kind).change row).key = row.key := by
  unfold conversationUpdate
  dsimp only
  split <;> rfl

@[simp] theorem conversationUpdate_change_volume (row : ConversationRow) :
    ((conversationUpdate p kind).change row).volume = row.volume + p.size := by
  unfold conversationUpdate ConversationRow.volume ConversationRow.packets ConversationRow.bytes
    TimedPacket.size
  dsimp only
  split
  · exact Prod.ext (Nat.add_right_comm _ _ _) (Nat.add_right_comm _ _ _)
  · exact Prod.ext (Nat.add_assoc _ _ _).symm (Nat.add_assoc _ _ _).symm

theorem conversationKinds_nodup (flags : ProtocolFlags) : (conversationKinds flags).Nodup := by
  unfold conversationKinds
  cases flags.ethernet <;> cases flags.tcp <;> cases flags.udp <;> cases flags.ipv4 <;>
    cases flags.ipv6 <;> decide

theorem countedKinds_nodup : (countedKinds p).Nodup := by
  unfold countedKinds
  split
  · exact List.nodup_nil
  · exact conversationKinds_nodup p.flags

end

/-- A row stands under its own kind and addresses. -/
theorem conversation_keyed (packets : List TimedPacket) (k : ConversationKey)
    (row : ConversationRow)
    (found : (packets.foldl ConversationTable.ingest ∅).lookup k = some row) : row.key = k := by
  rw [conversations_eq] at found
  apply holds_puts (fun k row => row.key = k) _ _ _ k row found
  · intro k row none
    simp at none
  · intro u member
    obtain ⟨e, _, rfl⟩ := List.mem_map.mp member
    simp
  · intro u member row same
    obtain ⟨e, _, rfl⟩ := List.mem_map.mp member
    simpa using same

/-- The packets counted under a kind, among some. -/
theorem counted_once (among : TimedPacket → Bool) (kind : ConversationKind)
    (packets : List TimedPacket) :
    (((tagged countedKinds packets).filter fun e => among e.1 && e.2 = kind).map
      fun e => e.1.size).sum
      = volume (packets.filter fun p => among p && kind ∈ countedKinds p) := by
  rw [sum_tagged, volume_eq_sum]
  induction packets with
  | nil => rfl
  | cons p rest ih =>
    have once : (countedKinds p).count kind = if kind ∈ countedKinds p then 1 else 0 :=
      (countedKinds_nodup p).count
    by_cases counted : kind ∈ countedKinds p <;> cases kept : among p <;>
      simp only [List.filter_cons, List.map_cons, List.sum_cons, kept, once, counted, ih,
        Bool.false_and, Bool.true_and, Bool.false_eq_true, decide_true, decide_false, if_true,
        if_false, one_nsmul, zero_nsmul, zero_add]

theorem rows_perm (table : ConversationTable) : table.rows.Perm (Tally.rows table) :=
  List.perm_insertionSort _ _

/-- The rows of one kind together. -/
theorem conversation_kind_total (packets : List TimedPacket) (kind : ConversationKind) :
    (((packets.foldl ConversationTable.ingest ∅).rows.filter fun row => row.kind = kind).map
      ConversationRow.volume).sum
      = volume (packets.filter fun p => kind ∈ countedKinds p) := by
  let measure := fun (k : ConversationKey) (row : ConversationRow) =>
    if k.1 = kind then row.volume else 0
  have brings : ∀ e ∈ tagged countedKinds packets,
      Brings measure (if e.2 = kind then e.1.size else 0) (conversationUpdate e.1 e.2) := by
    rintro ⟨p, other⟩ _
    by_cases same : other = kind <;> simp [Brings, measure, same]
  have counted := total_puts ∅ brings
  rw [← conversations_eq] at counted
  have entries := counted_once (fun _ => true) kind packets
  simp only [Bool.true_and] at entries
  rw [← entries, (((rows_perm _).filter _).map _).sum_eq, sum_map_filter, sum_map_filter]
  rw [show total measure (∅ : ConversationTable) = 0 from rfl, zero_add] at counted
  simp only [decide_eq_true_eq]
  rw [← counted]
  unfold total Tally.rows
  rw [List.map_map]
  congr 1
  apply List.map_congr_left
  intro e member
  have keyed := conversation_keyed packets e.1 e.2 (AList.mem_lookup_iff.mpr member)
  simp [measure, ← keyed, ConversationRow.key]

/-- One row on its own. -/
theorem conversation_row_volume (packets : List TimedPacket) {row : ConversationRow}
    (member : row ∈ (packets.foldl ConversationTable.ingest ∅).rows) :
    row.volume = volume (packets.filter fun p =>
      pairOf p = (row.addrA, row.addrB) && row.kind ∈ countedKinds p) := by
  obtain ⟨k, found⟩ := mem_rows.mp ((rows_perm _).mem_iff.mp member)
  have keyed := conversation_keyed packets k row found
  have brings : ∀ e ∈ tagged countedKinds packets,
      Brings (fun _ (row : ConversationRow) => row.volume) e.1.size
        (conversationUpdate e.1 e.2) := by
    rintro ⟨p, kind⟩ _
    simp [Brings]
  have counted := reading_puts ∅ brings k
  rw [← conversations_eq] at counted
  have mine : reading (fun _ (row : ConversationRow) => row.volume)
      (packets.foldl ConversationTable.ingest ∅) k = row.volume := by
    rw [reading, found, Option.elim_some]
  rw [← mine, counted, ← counted_once]
  simp [reading, ← keyed, ConversationRow.key, Bool.and_comm]

/-- A packet counted under a kind is counted in one row of it. -/
theorem conversation_one_row (packets : List TimedPacket) {p : TimedPacket} (taken : p ∈ packets)
    {kind : ConversationKind} (counted : kind ∈ countedKinds p) :
    (packets.foldl ConversationTable.ingest ∅).rows.countP
      (fun row => row.key = (kind, pairOf p)) = 1 := by
  rw [(rows_perm _).countP_eq]
  apply rows_countP (conversation_keyed packets)
  rw [conversations_eq, mem_puts]
  refine .inr ⟨conversationUpdate p kind, List.mem_map.mpr ⟨(p, kind), ?_, rfl⟩, rfl⟩
  exact List.mem_flatMap.mpr ⟨p, taken, List.mem_map_of_mem counted⟩

/- Packets with their ends exchanged. -/

def TimedPacket.swapped (p : TimedPacket) : TimedPacket :=
  { p with summary := { p.summary with src := p.summary.dst, dst := p.summary.src } }

theorem countedKinds_swapped (p : TimedPacket) : countedKinds p.swapped = countedKinds p := by
  unfold countedKinds TimedPacket.swapped
  simp only [or_comm]

namespace ConversationRow

/-- The counters of the two directions exchanged. -/
def flipped (row : ConversationRow) : ConversationRow :=
  { row with
    packetsAb := row.packetsBa, packetsBa := row.packetsAb, bytesAb := row.bytesBa,
    bytesBa := row.bytesAb }

/-- The same where there are two directions. -/
def exchanged (row : ConversationRow) : ConversationRow :=
  if row.addrA = row.addrB then row else row.flipped

end ConversationRow

def exchangedAt (k : ConversationKey) (row : ConversationRow) : ConversationRow :=
  if k.2.1 = k.2.2 then row else row.flipped

theorem normalizePair_lt {a b : String} (less : a < b) :
    normalizePair a b = (a, b, true) ∧ normalizePair b a = (a, b, false) := by
  unfold normalizePair
  exact ⟨if_pos less.le, if_neg (not_le.mpr less)⟩

theorem conversationUpdate_swapped (p : TimedPacket) (kind : ConversationKind) :
    Mirrors exchangedAt (conversationUpdate p kind) (conversationUpdate p.swapped kind) := by
  unfold conversationUpdate
  rw [show p.swapped.summary.src = p.summary.dst from rfl,
    show p.swapped.summary.dst = p.summary.src from rfl]
  rcases lt_trichotomy p.summary.src p.summary.dst with less | same | more
  · obtain ⟨one, other⟩ := normalizePair_lt less
    rw [one, other]
    constructor <;> simp [exchangedAt, ConversationRow.flipped, less.ne, TimedPacket.swapped]
  · rw [same, normalizePair, if_pos le_rfl]
    constructor <;> simp [exchangedAt, TimedPacket.swapped]
  · obtain ⟨one, other⟩ := normalizePair_lt more
    rw [one, other]
    constructor <;> simp [exchangedAt, ConversationRow.flipped, more.ne, TimedPacket.swapped]

/-- The rows of the exchanged packets, with the counters exchanged. -/
theorem conversations_swapped (packets : List TimedPacket) :
    ((packets.map TimedPacket.swapped).foldl ConversationTable.ingest ∅).rows.Perm
      ((packets.foldl ConversationTable.ingest ∅).rows.map ConversationRow.exchanged) := by
  have same : List.Forall₂ (Mirrors exchangedAt)
      ((tagged countedKinds packets).map fun e => conversationUpdate e.1 e.2)
      ((tagged countedKinds (packets.map TimedPacket.swapped)).map
        fun e => conversationUpdate e.1 e.2) := by
    unfold tagged
    rw [List.flatMap_map, List.map_flatMap, List.map_flatMap]
    induction packets with
    | nil => exact .nil
    | cons p rest ih =>
      rw [List.flatMap_cons, List.flatMap_cons]
      apply List.rel_append _ ih
      rw [countedKinds_swapped, List.map_map, List.map_map, List.forall₂_map_left_iff,
        List.forall₂_map_right_iff, List.forall₂_same]
      intro kind _
      exact conversationUpdate_swapped p kind
  have mirrored : Mirrored exchangedAt (packets.foldl ConversationTable.ingest ∅)
      ((packets.map TimedPacket.swapped).foldl ConversationTable.ingest ∅) := by
    rw [conversations_eq, conversations_eq]
    exact Mirrored.puts (fun k => rfl) same
  have images : (packets.foldl ConversationTable.ingest ∅).entries.map
      (fun e => exchangedAt e.1 e.2) = (Tally.rows (packets.foldl ConversationTable.ingest ∅)).map
        ConversationRow.exchanged := by
    unfold Tally.rows
    rw [List.map_map]
    apply List.map_congr_left
    intro e member
    have keyed := conversation_keyed packets e.1 e.2 (AList.mem_lookup_iff.mpr member)
    rw [← keyed]
    rfl
  have rows := mirrored.rows_perm
  rw [images] at rows
  exact ((rows_perm _).trans rows).trans ((rows_perm _).map _).symm

/-- The hierarchy and the lengths count what was taken in. The conversations of a kind count the
packets of the kind that have both ends, each in the one row of its addresses. Exchanging the
ends exchanges the directions. -/
theorem statistics_conserve (start capacity : Nat) (packets : List TimedPacket) :
    let stats := CaptureStats.ingestAll start capacity packets
    let rows := stats.conversations.rows
    (stats.hierarchy.rows.map Prod.snd).sum = volume packets ∧
      ∑ i, stats.lengths.buckets i = packets.length ∧
      (∀ kind, ((rows.filter fun row => row.kind = kind).map ConversationRow.volume).sum
        = volume (packets.filter fun p => kind ∈ countedKinds p)) ∧
      (∀ row ∈ rows, row.volume = volume (packets.filter fun p =>
        pairOf p = (row.addrA, row.addrB) && row.kind ∈ countedKinds p)) ∧
      (∀ p ∈ packets, ∀ kind ∈ countedKinds p,
        rows.countP (fun row => row.key = (kind, pairOf p)) = 1) ∧
      (CaptureStats.ingestAll start capacity
        (packets.map TimedPacket.swapped)).conversations.rows.Perm
          (rows.map ConversationRow.exchanged) := by
  simp only [CaptureStats.ingestAll_eq]
  exact ⟨hierarchy_total packets, lengths_total packets, conversation_kind_total packets,
    fun row => conversation_row_volume packets,
    fun p taken kind => conversation_one_row packets taken, conversations_swapped packets⟩

/-- Two packets of one conversation, the second the answer to the first. -/
def askAndAnswer : List TimedPacket :=
  [{ linkType := .raw, data := [1, 2], flags := { udp := true },
     summary := { src := "10.0.0.1:5", dst := "10.0.0.2:53" } },
   { linkType := .raw, data := [3], flags := { udp := true },
     summary := { src := "10.0.0.2:53", dst := "10.0.0.1:5" } }]

example : (askAndAnswer.foldl ConversationTable.ingest ∅).rows.map
    (fun row => (row.addrA, row.packetsAb, row.bytesBa)) = [("10.0.0.1:5", 1, 1)] := by decide

end BitBeak
