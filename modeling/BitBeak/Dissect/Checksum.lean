import BitBeak.Dissect.Expert
import BitBeak.Lib.CarrySum
import BitBeak.Pcap

/-! The two sums over an IPv4 header, that of the exporter and that of the expert, are one
function of its words. The expert accepts what the exporter writes, and sees every single
bit that changes afterwards. -/
namespace BitBeak
open Wire

theorem foldCarries_carried {fuel sum : Nat} (enough : sum < fuel) :
    foldCarries fuel sum = .ok (carried sum) := by
  induction fuel generalizing sum with
  | zero => omega
  | succ fuel ih =>
    unfold foldCarries
    split
    · next carry => rw [ih (by omega), carried_fold (by omega)]
    · next small => rw [carried_of_small (by omega)]

theorem foldWords_carried {fuel sum : Nat} (enough : sum < fuel) :
    foldWords fuel sum = .ok (carried sum) := by
  induction fuel generalizing sum with
  | zero => omega
  | succ fuel ih =>
    unfold foldWords
    split
    · next carry => rw [ih (by omega), carried_fold (by omega)]
    · next small => rw [carried_of_small (by omega)]

/-- A header has words only. -/
theorem headerWords_sum {header : Bytes} {fuel i : Nat} (sum : Nat)
    (whole : header.length % 2 = 0) (even : i % 2 = 0) (enough : header.length < i + fuel)
    (started : 0 < fuel) :
    headerWords header fuel i sum = .ok (sum + wordSum (header.drop i)) := by
  induction fuel generalizing i sum with
  | zero => omega
  | succ fuel ih =>
    unfold headerWords
    split
    · next more =>
      rw [readBE_ok (by omega), ok_bind, ih _ (by omega) (by omega) (by omega),
        wordSum_drop even more, Nat.add_assoc]
    · rw [List.drop_eq_nil_of_le (by omega)]
      rfl

theorem ipChecksum_sum {header : Bytes} (whole : header.length % 2 = 0) :
    ipChecksum header = .ok (65535 - carried (wordSum header)) := by
  have summed : headerWords header (header.length + 1) 0 0 = .ok (wordSum header) := by
    rw [headerWords_sum 0 whole rfl (by omega) (by omega), Nat.zero_add, List.drop_zero]
  rw [ipChecksum, summed, ok_bind, foldWords_carried (Nat.lt_succ_self _)]
  rfl

/-- The header with zeros for its checksum. -/
def zeroField (hdr : Bytes) : Bytes := overwrite hdr 10 [0, 0]

section

variable {hdr : Bytes} {fuel i j : Nat}

theorem length_zeroField (long : 12 ≤ hdr.length) : (zeroField hdr).length = hdr.length :=
  length_overwrite long

theorem beAt_zeroField_here (long : 12 ≤ hdr.length) : beAt (zeroField hdr) 10 2 = 0 := by
  have field : span (zeroField hdr) 10 (10 + 2) = [0, 0] := span_overwrite_here (by omega)
  rw [beAt, field]
  rfl

theorem beAt_zeroField_apart (long : 12 ≤ hdr.length) (apart : j + 2 ≤ 10 ∨ 12 ≤ j) :
    beAt (zeroField hdr) j 2 = beAt hdr j 2 := by
  rcases apart with before | after
  · rw [beAt, zeroField, span_overwrite_before (by omega) before]
    rfl
  · rw [beAt, zeroField, span_overwrite_after long after (by omega)]
    rfl

theorem sumWords_sum (sum : Nat) (whole : hdr.length % 2 = 0) (long : 12 ≤ hdr.length)
    (even : i % 2 = 0) (enough : hdr.length < i + fuel) (started : 0 < fuel) :
    sumWords hdr fuel i sum = .ok (sum + wordSum ((zeroField hdr).drop i)) := by
  have width := length_zeroField long
  induction fuel generalizing i sum with
  | zero => omega
  | succ fuel ih =>
    unfold sumWords
    split
    · next more =>
      rw [wordSum_drop even (by omega)]
      split
      · next field =>
        subst field
        rw [beAt_zeroField_here long, Nat.zero_add]
        exact ih _ rfl (by omega) (by omega)
      · next other =>
        rw [if_pos (by omega), readBE_ok (by omega), ok_bind,
          ih _ (by omega) (by omega) (by omega), beAt_zeroField_apart long (by omega),
          Nat.add_assoc]
    · rw [List.drop_eq_nil_of_le (by omega)]
      rfl

/-- The checksum both sides compute for a header. -/
def checksumOf (hdr : Bytes) : Nat := 65535 - carried (wordSum (zeroField hdr))

theorem ipv4Checksum_sum (whole : hdr.length % 2 = 0) (long : 12 ≤ hdr.length) :
    ipv4Checksum hdr = .ok (checksumOf hdr) := by
  have summed : sumWords hdr (hdr.length + 1) 0 0 = .ok (wordSum (zeroField hdr)) := by
    rw [sumWords_sum 0 whole long rfl (by omega) (by omega), Nat.zero_add, List.drop_zero]
  rw [ipv4Checksum, summed, ok_bind, foldCarries_carried (Nat.lt_succ_self _)]
  rfl

theorem ipChecksum_zeroField (whole : hdr.length % 2 = 0) (long : 12 ≤ hdr.length) :
    ipChecksum (zeroField hdr) = .ok (checksumOf hdr) :=
  ipChecksum_sum (by rw [length_zeroField long, whole])

theorem checksumOf_lt (hdr : Bytes) : checksumOf hdr < 2 ^ 16 := by
  unfold checksumOf
  omega

/-- A bit outside of the checksum moves the sum. -/
theorem checksumOf_flipBit {k : Nat} (long : 12 ≤ hdr.length) (inside : i < hdr.length)
    (bit : k < 8) (apart : i < 10 ∨ 12 ≤ i) : checksumOf (flipBit hdr i k) ≠ checksumOf hdr := by
  have field : 10 + ([0, 0] : Bytes).length ≤ hdr.length := long
  have read : octet (zeroField hdr) i = octet hdr i := octet_overwrite_apart field apart
  have commuted : zeroField (flipBit hdr i k) = flipBit (zeroField hdr) i k := by
    rw [flipBit, flipBit, read, zeroField, zeroField]
    apply overwrite_comm inside field
    rw [List.length_singleton]
    change i + 1 ≤ 10 ∨ 12 ≤ i
    omega
  obtain ⟨j, small, moved⟩ := wordSum_flipBit (k := k)
    (by rwa [length_zeroField long] : i < (zeroField hdr).length) bit
  have apart := carried_ne_of_bit small moved
  have bound := carried_le (wordSum (zeroField hdr))
  have bound' := carried_le (wordSum (flipBit (zeroField hdr) i k))
  rw [checksumOf, checksumOf, commuted]
  omega

/-- A bit of the checksum leaves the sum. -/
theorem checksumOf_flipBit_field {k : Nat} (long : 12 ≤ hdr.length) (here : 10 ≤ i ∧ i < 12) :
    checksumOf (flipBit hdr i k) = checksumOf hdr := by
  have forgotten : zeroField (flipBit hdr i k) = zeroField hdr := by
    apply overwrite_again long
    rw [List.length_singleton]
    change 10 ≤ i ∧ i + 1 ≤ 12
    omega
  rw [checksumOf, checksumOf, forgotten]

end

/- A header where the expert looks for one. -/

/-- The header at `off` with the length its IHL tells, at least five words, lies inside the
frame, and the expert finds it. -/
structure HeaderAt (data : Bytes) (linkType : LinkType) (off len : Nat) : Prop where
  found : findIpv4Offset data linkType = .ok (some off)
  ihl : len = (octet data off &&& 0x0f).toNat * 4
  long : 20 ≤ len
  inside : off + len ≤ data.length

/-- The frame with the exporter's checksum written into the header at `off`. -/
def withChecksum (data : Bytes) (off len : Nat) : Except Fault Bytes := do
  let csum ← ipChecksum (zeroField (← slice data off (off + len)))
  return overwrite data (off + 10) (toBE 2 csum)

/-- What the expert says of a header with this checksum in its field. -/
def checksumNotes (expected actual : Nat) : List ExpertInfo :=
  if expected ≠ actual ∧ actual ≠ 0 then
    [{ severity := .error, group := "Checksum",
       message := "IPv4 checksum bad (got 0x" ++ hexDigits 4 actual ++ ", expected 0x" ++
         hexDigits 4 expected ++ ")" }]
  else []

section

variable {data data' : Bytes} {linkType : LinkType} {off len i k : Nat}

/-- The search looks at nothing behind the place it gives. -/
theorem findIpv4Offset_front (found : findIpv4Offset data linkType = .ok (some off))
    (width : data'.length = data.length) (front : data'.take off = data.take off) :
    findIpv4Offset data' linkType = .ok (some off) := by
  have reads : ∀ i k, i + k ≤ off → beAt data' i k = beAt data i k := by
    intro i k before
    have same : ∀ bs : Bytes, span bs i (i + k) = span (bs.take off) i (i + k) := by
      intro bs
      rw [span, span, List.drop_take, List.take_take, Nat.min_eq_left (by omega)]
    rw [beAt, beAt, same data', same data, front]
  unfold findIpv4Offset at found ⊢
  rw [width]
  cases linkType with
  | ethernet =>
    dsimp only at found ⊢
    split at found
    · cases found
    next long =>
    rw [if_neg long, readBE_ok (by omega), ok_bind]
    rw [readBE_ok (by omega), ok_bind] at found
    split at found
    · next tagged =>
      rw [readBE_ok (by omega), ok_bind] at found
      split at found
      · cases found
        rw [reads 12 2 (by omega), if_pos tagged, readBE_ok (by omega), ok_bind,
          reads 16 2 (by omega), if_pos ‹_›]
        rfl
      · cases found
    · next plain =>
      split at found
      · cases found
        rw [reads 12 2 (by omega), if_neg plain, if_pos ‹_›]
        rfl
      · cases found
  | linuxSll =>
    dsimp only at found ⊢
    split at found
    · next long =>
      rw [readBE_ok (by omega), ok_bind] at found
      split at found
      · cases found
        rw [if_pos long, readBE_ok (by omega), ok_bind, reads 14 2 (by omega), if_pos ‹_›]
        rfl
      · cases found
    · cases found
  | null => exact found
  | raw => exact found
  | linuxSll2 | ieee80211 | ieee80211Radio | unknown => exact found

theorem checksumExpert_notes (header : HeaderAt data linkType off len) :
    checksumExpert data off =
      .ok (checksumNotes (checksumOf (span data off (off + len))) (beAt data (off + 10) 2)) := by
  obtain ⟨_, rfl, long, inside⟩ := header
  have width := length_span (i := off) inside
  have whole : (span data off (off + (octet data off &&& 0x0f).toNat * 4)).length % 2 = 0 := by
    omega
  unfold checksumExpert checksumNotes
  rw [if_pos (by omega), byteAt_ok (by omega), ok_bind]
  dsimp only
  rw [if_pos ⟨long, inside⟩, slice_ok (by omega) inside, ok_bind,
    ipv4Checksum_sum whole (by omega), ok_bind, readBE_ok (by omega), ok_bind]
  split <;> rfl

theorem collectExpert_notes (header : HeaderAt data linkType off len) (flags : ProtocolFlags)
    (summary : PacketSummary) : collectExpert data linkType flags summary =
      .ok (httpExpert flags summary ++
        checksumNotes (checksumOf (span data off (off + len))) (beAt data (off + 10) 2)) := by
  unfold collectExpert
  rw [header.found, ok_bind]
  dsimp only
  rw [checksumExpert_notes header]
  rfl

theorem httpExpert_group {flags : ProtocolFlags} {summary : PacketSummary} :
    ∀ note ∈ httpExpert flags summary, note.group = "HTTP" := by
  intro note member
  unfold httpExpert at member
  split at member
  · split at member
    · split at member
      · cases List.mem_singleton.mp member
        rfl
      · cases member
    · cases member
  · cases member

/-- The header is still there when octets of it other than the first are written over. -/
theorem HeaderAt.overwrite (header : HeaderAt data linkType off len) {xs : Bytes}
    (within : i + xs.length ≤ len)
    (same : octet (overwrite data (off + i) xs) off &&& 0x0f = octet data off &&& 0x0f) :
    HeaderAt (overwrite data (off + i) xs) linkType off len := by
  have inside := header.inside
  have width := length_overwrite (by omega : off + i + xs.length ≤ data.length)
  refine ⟨findIpv4Offset_front header.found width ?_, ?_, header.long, ?_⟩
  · have cut : (data.take (off + i)).length = off + i := by
      rw [List.length_take, Nat.min_eq_left (by omega)]
    rw [Wire.overwrite, List.take_append_of_le_length (by omega), List.take_take,
      Nat.min_eq_left (by omega)]
  · rw [same]
    exact header.ihl
  · rw [width]
    exact inside

/-- The frame that has the checksum, its header and what the field reads. -/
theorem withChecksum_header (header : HeaderAt data linkType off len) :
    ∃ checked, withChecksum data off len = .ok checked ∧ HeaderAt checked linkType off len ∧
      beAt checked (off + 10) 2 = checksumOf (span checked off (off + len)) := by
  have long := header.long
  have inside := header.inside
  have width := length_span (i := off) inside
  have even : (span data off (off + len)).length % 2 = 0 := by
    have ihl := header.ihl
    omega
  have bound := checksumOf_lt (span data off (off + len))
  generalize known : checksumOf (span data off (off + len)) = csum at bound
  have field : (toBE 2 csum).length = 2 := length_toBE 2 csum
  have kept : octet (overwrite data (off + 10) (toBE 2 csum)) off = octet data off :=
    octet_overwrite_apart (by omega) (by omega)
  refine ⟨overwrite data (off + 10) (toBE 2 csum), ?_, header.overwrite (by omega) (by rw [kept]), ?_⟩
  · rw [withChecksum, slice_ok (by omega) inside, ok_bind, ipChecksum_zeroField even (by omega),
      ok_bind, known]
    rfl
  · have read : beAt (overwrite data (off + 10) (toBE 2 csum)) (off + 10) 2 = csum := by
      have whole : span (overwrite data (off + 10) (toBE 2 csum)) (off + 10) (off + 10 + 2) =
          toBE 2 csum := by
        have here : span (overwrite data (off + 10) (toBE 2 csum)) (off + 10)
            (off + 10 + (toBE 2 csum).length) = toBE 2 csum := span_overwrite_here (by omega)
        rwa [field] at here
      rw [beAt, whole, ofBE_toBE bound]
    have summed : checksumOf (span (overwrite data (off + 10) (toBE 2 csum)) off (off + len)) =
        csum := by
      rw [span_overwrite (by omega) inside, ← known, checksumOf, checksumOf, zeroField, zeroField,
        overwrite_again (by change 10 + 2 ≤ _; omega) ⟨Nat.le_refl _, by rw [length_toBE]; rfl⟩]
    rw [read, summed]

theorem flip_keeps_ihl (b : UInt8) (high : 4 ≤ k) (bit : k < 8) :
    (b ^^^ UInt8.ofNat (2 ^ k)) &&& 0x0f = b &&& 0x0f := by
  have apart : UInt8.ofNat (2 ^ k) &&& 0x0f = 0 := by
    obtain rfl | rfl | rfl | rfl : k = 4 ∨ k = 5 ∨ k = 6 ∨ k = 7 := by omega
    all_goals decide
  apply UInt8.toNat_inj.mp
  have zero := congrArg UInt8.toNat apart
  rw [UInt8.toNat_and] at zero
  rw [UInt8.toNat_and, UInt8.toNat_and, UInt8.toNat_xor, Nat.and_xor_distrib_right, zero]
  exact Nat.xor_zero _

theorem HeaderAt.flipBit (header : HeaderAt data linkType off len) (inside : i < len)
    (bit : k < 8) (kept : i = 0 → 4 ≤ k) :
    HeaderAt (flipBit data (off + i) k) linkType off len := by
  have bound := header.inside
  apply header.overwrite inside
  by_cases first : i = 0
  · subst first
    rw [Nat.add_zero, octet_overwrite_here _ (by omega)]
    exact flip_keeps_ihl _ (kept rfl) bit
  · rw [octet_overwrite_apart (by change off + i + 1 ≤ _; omega) (by omega)]

theorem span_flipBit (header : HeaderAt data linkType off len) (inside : i < len) :
    span (flipBit data (off + i) k) off (off + len) = flipBit (span data off (off + len)) i k := by
  rw [Wire.flipBit, Wire.flipBit, octet_span (by omega)]
  exact span_overwrite (by change off + i + 1 ≤ _; omega) header.inside

/-- A frame whose header has the right checksum, with one bit of the header turned over: the
checksum in the field and the one computed are not the same any more. -/
theorem flipped_differs (header : HeaderAt data linkType off len)
    (right : beAt data (off + 10) 2 = checksumOf (span data off (off + len))) (inside : i < len)
    (bit : k < 8) :
    checksumOf (span (Wire.flipBit data (off + i) k) off (off + len)) ≠
      beAt (Wire.flipBit data (off + i) k) (off + 10) 2 := by
  have long := header.long
  have bound := header.inside
  have width := length_span (i := off) bound
  rw [span_flipBit header inside]
  by_cases here : 10 ≤ i ∧ i < 12
  · -- The field changes and the sum does not.
    have changed : beAt (flipBit data (off + 10 + (i - 10)) k) (off + 10) 2 ≠
        beAt data (off + 10) 2 := beAt_flipBit_here (by omega) (by omega) bit
    rw [show off + 10 + (i - 10) = off + i by omega] at changed
    rw [checksumOf_flipBit_field (by omega) here, ← right]
    exact changed.symm
  · have moved : checksumOf (flipBit (span data off (off + len)) i k) ≠
        checksumOf (span data off (off + len)) :=
      checksumOf_flipBit (by omega) (by omega) bit (by omega)
    rw [beAt_flipBit_apart (by omega) (by omega), right]
    exact moved

/-- The expert accepts the checksum the exporter computes over any header it finds, and once it
is there a bit turned over anywhere in the header but in the IHL is reported, unless the field
reads zero then. -/
theorem expert_checksum_laws (header : HeaderAt data linkType off len) (flags : ProtocolFlags)
    (summary : PacketSummary) : ∃ checked, withChecksum data off len = .ok checked ∧
      (∃ notes, collectExpert checked linkType flags summary = .ok notes ∧
        ∀ note ∈ notes, note.group ≠ "Checksum") ∧
      ∀ i k, i < len → k < 8 → (i = 0 → 4 ≤ k) →
        beAt (flipBit checked (off + i) k) (off + 10) 2 ≠ 0 →
        ∃ notes, collectExpert (flipBit checked (off + i) k) linkType flags summary = .ok notes ∧
          ∃ note ∈ notes, note.severity = .error ∧ note.group = "Checksum" := by
  obtain ⟨checked, written, header, right⟩ := withChecksum_header header
  refine ⟨checked, written, ⟨_, collectExpert_notes header flags summary, ?_⟩, ?_⟩
  · intro note member
    rw [← right, checksumNotes, if_neg (fun differs => differs.1 rfl), List.append_nil] at member
    rw [httpExpert_group note member]
    decide
  · intro i k inside bit kept nonzero
    refine ⟨_, collectExpert_notes (header.flipBit inside bit kept) flags summary, ?_⟩
    have differs := flipped_differs header right inside bit
    rw [checksumNotes, if_pos ⟨differs, nonzero⟩]
    exact ⟨_, List.mem_append_right _ (List.mem_singleton_self _), rfl, rfl⟩

end

/-- A header of six words, the last of them options, in a raw packet. -/
def optionsHeader : Bytes :=
  [0x46, 0, 0, 24, 0, 1, 0, 0, 64, 17, 0, 0, 10, 0, 0, 1, 10, 0, 0, 2, 0x94, 4, 0, 0]

theorem expert_checksum_options : ∃ checked, withChecksum optionsHeader 0 24 = .ok checked ∧
    (∃ notes, collectExpert checked .raw {} {} = .ok notes ∧
      ∀ note ∈ notes, note.group ≠ "Checksum") ∧
    ∀ i k, i < 24 → k < 8 → (i = 0 → 4 ≤ k) → beAt (flipBit checked (0 + i) k) (0 + 10) 2 ≠ 0 →
      ∃ notes, collectExpert (flipBit checked (0 + i) k) .raw {} {} = .ok notes ∧
        ∃ note ∈ notes, note.severity = .error ∧ note.group = "Checksum" :=
  expert_checksum_laws ⟨rfl, rfl, by decide, by decide⟩ {} {}

end BitBeak
