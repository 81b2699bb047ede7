import BitBeak.Dissect.Follow
import BitBeak.Dissect.Text
import BitBeak.Lib.OrderedMap

/-! `follow_tcp`: the two byte streams of a TCP connection put together from its segments, and
the captures for which they come out whole. -/
namespace BitBeak
open Wire OrderedMap

structure HttpObject where
  name : String
  contentType : String
  data : Bytes
  isRequest : Bool
  method : String
  url : String
  headers : List (String × String)
  deriving DecidableEq, Repr

structure FollowResult where
  label : String
  text : String
  raw : Bytes
  objects : List HttpObject
  deriving DecidableEq, Repr

def tcpPayload (native : Endian) (p : PacketRecord) : Except Fault (Option (Nat × Bytes)) := do
  match ← tcpPayloadFromWire native p.data p.linkType with
  | some (seq, wire) =>
    match p.decrypted with
    | some dec => return some (seq, dec)
    | none => return some (seq, wire)
  | none => return p.decrypted.map fun dec => (0, dec)

/-- The packet has the ends of the selected one, in either order. -/
def sameEnds (selected p : PacketRecord) : Bool :=
  (p.summary.src = selected.summary.src && p.summary.dst = selected.summary.dst) ||
    (p.summary.src = selected.summary.dst && p.summary.dst = selected.summary.src)

def isForward (selected p : PacketRecord) : Bool := p.summary.src = selected.summary.src

/-- One turn of the loop over the packets. -/
def collectSegment (native : Endian) (selected : PacketRecord)
    (segments : List (Nat × Bool × Bytes)) (p : PacketRecord) :
    Except Fault (List (Nat × Bool × Bytes)) := do
  if !p.flags.tcp then return segments
  else if !sameEnds selected p then return segments
  else
    match ← tcpPayload native p with
    | some (seq, payload) =>
      if payload = [] then return segments
      else return segments ++ [(seq, isForward selected p, payload)]
    | none => return segments

/-- The segments of both directions by their sequence numbers. -/
def putSegment (maps : List (Nat × Bytes) × List (Nat × Bytes)) (segment : Nat × Bool × Bytes) :
    List (Nat × Bytes) × List (Nat × Bytes) :=
  match segment with
  | (seq, true, payload) => (put (seq, payload) maps.1, maps.2)
  | (seq, false, payload) => (maps.1, put (seq, payload) maps.2)

def followTcp (native : Endian) (packets : List PacketRecord) (selected : PacketRecord) :
    Except Fault FollowResult := do
  let segments ← packets.foldlM (collectSegment native selected) []
  let (forwardMap, reverseMap) := segments.foldl putSegment ([], [])
  let forward := forwardMap.map Prod.snd
  let reverse := reverseMap.map Prod.snd
  return {
    label := "TCP " ++ selected.summary.src ++ " ↔ " ++ selected.summary.dst
    text := "--- Client → Server ---\n" ++ String.join (forward.map fromUtf8Lossy) ++
      "\n--- Server → Client ---\n" ++ String.join (reverse.map fromUtf8Lossy)
    raw := forward.flatten ++ reverse.flatten
    objects := [] }

/- The same on total reads. -/

def payloadOf (native : Endian) (p : PacketRecord) : Option (Nat × Bytes) :=
  match segmentOnWire native p.data p.linkType with
  | some (seq, wire) => some (seq, p.decrypted.getD wire)
  | none => p.decrypted.map fun dec => (0, dec)

theorem tcpPayload_ok (native : Endian) (p : PacketRecord) :
    tcpPayload native p = .ok (payloadOf native p) := by
  rw [tcpPayload, tcpPayloadFromWire_ok, ok_bind, payloadOf]
  cases segmentOnWire native p.data p.linkType with
  | none => rfl
  | some found => cases p.decrypted <;> rfl

/-- What the loop takes of a packet. -/
def segmentOf (native : Endian) (selected p : PacketRecord) : Option (Nat × Bool × Bytes) :=
  if p.flags.tcp && sameEnds selected p then
    (payloadOf native p).bind fun (seq, payload) =>
      if payload = [] then none else some (seq, isForward selected p, payload)
  else none

theorem collectSegment_ok (native : Endian) (selected p : PacketRecord)
    (segments : List (Nat × Bool × Bytes)) :
    collectSegment native selected segments p =
      .ok (segments ++ (segmentOf native selected p).toList) := by
  unfold collectSegment segmentOf
  cases p.flags.tcp with
  | false => simp
  | true =>
    cases sameEnds selected p with
    | false => simp
    | true =>
      simp only [Bool.not_true, Bool.false_eq_true, if_false, tcpPayload_ok, ok_bind, Bool.and_true,
        if_true]
      cases payloadOf native p with
      | none => simp
      | some found =>
        simp only [Option.bind_some]
        split <;> simp

theorem collect_ok (native : Endian) (selected : PacketRecord) (packets : List PacketRecord)
    (segments : List (Nat × Bool × Bytes)) :
    packets.foldlM (collectSegment native selected) segments =
      .ok (segments ++ packets.filterMap (segmentOf native selected)) := by
  induction packets generalizing segments with
  | nil => simp
  | cons p rest ih =>
    rw [List.foldlM_cons, collectSegment_ok, ok_bind, ih, List.append_assoc]
    cases found : segmentOf native selected p <;> simp [found]

/-- The segments of one direction. -/
def ofDirection (forward : Bool) (segments : List (Nat × Bool × Bytes)) : List (Nat × Bytes) :=
  segments.filterMap fun (seq, forward', payload) =>
    if forward' = forward then some (seq, payload) else none

theorem putSegments_eq (segments : List (Nat × Bool × Bytes)) :
    segments.foldl putSegment ([], []) =
      (ofList (ofDirection true segments), ofList (ofDirection false segments)) := by
  induction segments using List.reverseRecOn with
  | nil => rfl
  | append_singleton segments segment ih =>
    obtain ⟨seq, forward, payload⟩ := segment
    rw [List.foldl_append, ih]
    cases forward <;> simp [ofDirection, List.filterMap_append, putSegment, ofList_concat]

/-- The raw bytes are the last segment of each sequence number, in the order of the numbers. -/
theorem followTcp_raw (native : Endian) (packets : List PacketRecord) (selected : PacketRecord) :
    ∃ r, followTcp native packets selected = .ok r ∧
      r.raw = ((ofList (ofDirection true (packets.filterMap (segmentOf native selected)))).map
          Prod.snd).flatten ++
        ((ofList (ofDirection false (packets.filterMap (segmentOf native selected)))).map
          Prod.snd).flatten := by
  unfold followTcp
  rw [collect_ok, ok_bind, List.nil_append, putSegments_eq]
  exact ⟨_, rfl, rfl⟩

/- Captures of two streams. -/

/-- A frame of the connection: the bytes of a stream it carries, and what stands behind them
in the frame. -/
structure StreamSlice where
  forward : Bool
  off : Nat
  len : Nat
  pad : Bytes := []
  deriving DecidableEq, Repr

/-- How two streams are captured: their lengths, the sequence numbers of their first bytes and
the frames in the order of their capture. The frames cover both streams. -/
structure CapturePlan where
  size : Bool → Nat
  first : Bool → Nat
  slices : List StreamSlice
  fits : ∀ s ∈ slices, s.off + s.len ≤ size s.forward
  covers : ∀ forward i, i < size forward →
    ∃ s ∈ slices, s.forward = forward ∧ s.off ≤ i ∧ i < s.off + s.len

def bothStreams (client server : Bytes) (forward : Bool) : Bytes :=
  if forward then client else server

namespace StreamSlice

/-- What stands behind the TCP header. -/
def bytes (streams : Bool → Bytes) (s : StreamSlice) : Bytes :=
  span (streams s.forward) s.off (s.off + s.len) ++ s.pad

def filled (s : StreamSlice) : Bool := s.len != 0 || s.pad != []

end StreamSlice

namespace CapturePlan

variable (plan : CapturePlan)

def seq (s : StreamSlice) : Nat := (plan.first s.forward + s.off) % 2 ^ 32

/-- The frame of a slice, among the packets of the connection. -/
structure Shows (native : Endian) (streams : Bool → Bytes) (selected : PacketRecord)
    (s : StreamSlice) (p : PacketRecord) : Prop where
  direction : isForward selected p = s.forward
  undecrypted : p.decrypted = none
  onWire : segmentOnWire native p.data p.linkType = some (plan.seq s, s.bytes streams)

/-- The packet is one of the connection, and a TCP segment is found in it. -/
def ofConnection (native : Endian) (selected p : PacketRecord) : Bool :=
  p.flags.tcp && sameEnds selected p && (payloadOf native p).isSome

/-- The packets of the selected connection are the frames of the plan. -/
structure Captured (native : Endian) (client server : Bytes) (packets : List PacketRecord)
    (selected : PacketRecord) : Prop where
  clientSize : client.length = plan.size true
  serverSize : server.length = plan.size false
  frames : List.Forall₂ (plan.Shows native (bothStreams client server) selected) plan.slices
    (packets.filter (ofConnection native selected))

/-- The filled frames of a direction by their sequence numbers. -/
def numbered (forward : Bool) : List (Nat × StreamSlice) :=
  (plan.slices.filter fun s => s.forward == forward && s.filled).map fun s => (plan.seq s, s)

/-- Of every sequence number the frame captured last, in the order of the numbers. -/
def kept (forward : Bool) : List StreamSlice :=
  ((lasts (plan.numbered forward)).insertionSort fun a b => a.1 ≤ b.1).map Prod.snd

end CapturePlan

/-- The slices lie end to end from one place to the other, and nothing stands behind them. -/
def EndToEnd : Nat → List StreamSlice → Nat → Prop
  | start, [], stop => start = stop
  | start, s :: rest, stop => s.off = start ∧ s.pad = [] ∧ EndToEnd (start + s.len) rest stop

instance decidableEndToEnd : (start : Nat) → (l : List StreamSlice) → (stop : Nat) →
    Decidable (EndToEnd start l stop)
  | _, [], _ => inferInstanceAs (Decidable (_ = _))
  | start, s :: rest, stop =>
    have := decidableEndToEnd (start + s.len) rest stop
    inferInstanceAs (Decidable (_ ∧ _ ∧ _))

/-- The kept frames of a direction lie end to end over its stream. -/
def CapturePlan.Whole (plan : CapturePlan) (forward : Bool) : Prop :=
  EndToEnd 0 (plan.kept forward) (plan.size forward)

/- What is followed of a capture. -/

theorem bytes_filled {streams : Bool → Bytes} {s : StreamSlice}
    (fits : s.off + s.len ≤ (streams s.forward).length) :
    s.bytes streams = [] ↔ s.filled = false := by
  have length : (span (streams s.forward) s.off (s.off + s.len)).length = s.len := by
    rw [length_span fits]
    omega
  simp only [StreamSlice.bytes, ← List.length_eq_zero_iff, List.length_append, length,
    Nat.add_eq_zero_iff, StreamSlice.filled, Bool.or_eq_false_iff, bne_eq_false_iff_eq]

namespace CapturePlan

variable {plan : CapturePlan} {native : Endian} {client server : Bytes}
  {packets : List PacketRecord} {selected : PacketRecord}

theorem Captured.fits (captured : plan.Captured native client server packets selected) :
    ∀ s ∈ plan.slices, s.off + s.len ≤ (bothStreams client server s.forward).length := by
  intro s member
  have fits := plan.fits s member
  cases direction : s.forward with
  | false => simpa [bothStreams, captured.serverSize, direction] using fits
  | true => simpa [bothStreams, captured.clientSize, direction] using fits

theorem Shows.segment {streams : Bool → Bytes} {s : StreamSlice} {p : PacketRecord}
    (shown : plan.Shows native streams selected s p)
    (member : ofConnection native selected p = true) :
    segmentOf native selected p =
      if s.bytes streams = [] then none else some (plan.seq s, s.forward, s.bytes streams) := by
  have payload : payloadOf native p = some (plan.seq s, s.bytes streams) := by
    simp only [payloadOf, shown.onWire, shown.undecrypted, Option.getD_none]
  simp only [ofConnection, Bool.and_eq_true] at member
  rw [segmentOf, if_pos (by simp [member.1]), payload]
  simp only [Option.bind_some, shown.direction]

theorem segmentOf_outside {p : PacketRecord} (outside : ¬ ofConnection native selected p = true) :
    segmentOf native selected p = none := by
  unfold segmentOf
  split
  · next same =>
    cases payload : payloadOf native p with
    | none => rfl
    | some found => simp [ofConnection, same, payload] at outside
  · rfl

/-- The segments that are taken are the filled slices. -/
theorem Captured.segments (captured : plan.Captured native client server packets selected) :
    packets.filterMap (segmentOf native selected) =
      (plan.slices.filter StreamSlice.filled).map fun s =>
        (plan.seq s, s.forward, s.bytes (bothStreams client server)) := by
  have inside : packets.filterMap (segmentOf native selected) =
      (packets.filter (ofConnection native selected)).filterMap (segmentOf native selected) := by
    rw [List.filterMap_filter]
    apply List.filterMap_congr
    intro p _
    split
    · rfl
    · next outside => exact segmentOf_outside outside
  have members : ∀ p ∈ packets.filter (ofConnection native selected),
      ofConnection native selected p = true := fun p member => (List.mem_filter.mp member).2
  have fits := captured.fits
  have frames := captured.frames
  rw [inside]
  generalize packets.filter (ofConnection native selected) = shown at frames members
  generalize plan.slices = slices at frames fits
  induction frames with
  | nil => rfl
  | @cons s p slices shown first _ ih =>
    have rest := ih (fun q member => members q (List.mem_cons_of_mem _ member))
      (fun s member => fits s (List.mem_cons_of_mem _ member))
    have segment := first.segment (members p List.mem_cons_self)
    have filled := bytes_filled (fits s List.mem_cons_self)
    cases empty : s.filled with
    | false =>
      rw [if_pos (filled.mpr empty)] at segment
      rw [List.filterMap_cons_none segment, rest, List.filter_cons_of_neg (by simp [empty])]
    | true =>
      rw [if_neg fun none => by simp [filled.mp none] at empty] at segment
      rw [List.filterMap_cons_some segment, rest, List.filter_cons_of_pos empty, List.map_cons]

theorem numbered_bytes (plan : CapturePlan) (streams : Bool → Bytes) (forward : Bool) :
    ofDirection forward ((plan.slices.filter StreamSlice.filled).map fun s =>
        (plan.seq s, s.forward, s.bytes streams)) =
      (plan.numbered forward).map (Prod.map id (StreamSlice.bytes streams)) := by
  unfold numbered ofDirection
  induction plan.slices with
  | nil => rfl
  | cons s rest ih =>
    cases empty : s.filled with
    | false => simpa [List.filter_cons, empty] using ih
    | true =>
      by_cases same : s.forward = forward
      · simpa [List.filter_cons, empty, same] using ih
      · simpa [List.filter_cons, empty, same] using ih

/-- The raw bytes are what the kept frames carry. -/
theorem Captured.raw (captured : plan.Captured native client server packets selected) :
    ∃ r, followTcp native packets selected = .ok r ∧
      r.raw = (plan.kept true).flatMap (StreamSlice.bytes (bothStreams client server)) ++
        (plan.kept false).flatMap (StreamSlice.bytes (bothStreams client server)) := by
  obtain ⟨r, ran, raw⟩ := followTcp_raw native packets selected
  have side : ∀ forward, ((ofList (ofDirection forward
      (packets.filterMap (segmentOf native selected)))).map Prod.snd).flatten =
        (plan.kept forward).flatMap (StreamSlice.bytes (bothStreams client server)) := by
    intro forward
    rw [captured.segments, numbered_bytes, ofList_map, ofList_eq_sorted, kept, List.map_map,
      List.flatMap_def, List.map_map]
    rfl
  exact ⟨r, ran, by rw [raw, side, side]⟩

end CapturePlan

/- Frames that lie end to end carry the stream. -/

theorem EndToEnd.le {start stop : Nat} {l : List StreamSlice} (whole : EndToEnd start l stop) :
    start ≤ stop := by
  induction l generalizing start with
  | nil => exact Nat.le_of_eq whole
  | cons s rest ih =>
    have later := ih whole.2.2
    omega

theorem EndToEnd.bytes {streams : Bool → Bytes} {forward : Bool} {start : Nat}
    {l : List StreamSlice} (whole : EndToEnd start l (streams forward).length)
    (direction : ∀ s ∈ l, s.forward = forward) :
    l.flatMap (StreamSlice.bytes streams) = (streams forward).drop start := by
  induction l generalizing start with
  | nil =>
    have ends : start = (streams forward).length := whole
    simp [ends]
  | cons s rest ih =>
    obtain ⟨rfl, unpadded, whole⟩ := whole
    have inside := whole.le
    have here := direction s List.mem_cons_self
    rw [List.flatMap_cons, ih whole fun s member => direction s (List.mem_cons_of_mem _ member),
      StreamSlice.bytes, unpadded, here, List.append_nil, span]
    have taken : s.off + s.len - s.off = s.len := Nat.add_sub_cancel_left ..
    rw [taken, ← List.drop_drop]
    exact List.take_append_drop s.len _

/- Streams that tell where their bytes are. -/

/-- A place of a stream, or a byte of a padding. -/
inductive Source where
  | place (forward : Bool) (i : Nat)
  | byte (b : UInt8)
  deriving DecidableEq

namespace Source

def value (streams : Bool → Bytes) : Source → UInt8
  | place forward i => octet (streams forward) i
  | byte b => b

def ofSlice (s : StreamSlice) : List Source :=
  (List.range' s.off s.len).map (place s.forward) ++ s.pad.map byte

def ofStream (forward : Bool) (size : Nat) : List Source := (List.range' 0 size).map (place forward)

theorem span_eq_octets {bs : Bytes} {i n : Nat} (inside : i + n ≤ bs.length) :
    span bs i (i + n) = (List.range' i n).map (octet bs) := by
  apply List.ext_getElem
  · rw [length_span inside, List.length_map, List.length_range']
    omega
  · intro j left right
    have bound : j < n := by simpa using right
    simp [span, octet, List.getElem?_eq_getElem (show i + j < bs.length by omega)]

theorem value_ofSlice {streams : Bool → Bytes} {s : StreamSlice}
    (fits : s.off + s.len ≤ (streams s.forward).length) :
    (ofSlice s).map (value streams) = s.bytes streams := by
  rw [ofSlice, List.map_append, List.map_map, List.map_map, StreamSlice.bytes, span_eq_octets fits]
  congr 1
  exact List.map_id _

theorem value_ofStream (streams : Bool → Bytes) (forward : Bool) :
    (ofStream forward (streams forward).length).map (value streams) = streams forward := by
  have whole := span_eq_octets
    (show 0 + (streams forward).length ≤ (streams forward).length by omega)
  rw [Nat.zero_add, span_end, List.drop_zero] at whole
  rw [ofStream, List.map_map]
  exact whole.symm

/-- Only one place has a byte of its own. -/
def spot (size : Bool → Nat) (forward : Bool) (i : Nat) (f : Bool) : Bytes :=
  (List.range (size f)).map fun j => if f = forward ∧ j = i then 1 else 0

theorem length_spot (size : Bool → Nat) (forward : Bool) (i : Nat) (f : Bool) :
    (spot size forward i f).length = size f := by
  rw [spot, List.length_map, List.length_range]

theorem value_spot {size : Bool → Nat} {forward f : Bool} {i j : Nat} (inside : i < size forward) :
    value (spot size forward i) (place f j) = if f = forward ∧ j = i then 1 else 0 := by
  by_cases here : j < size f
  · simp [value, octet, spot, here]
  · have other : ¬ (f = forward ∧ j = i) := by
      rintro ⟨rfl, rfl⟩
      exact here inside
    simp [value, octet, spot, here, other]

/-- A source with the byte of a place in all streams is the place. -/
theorem eq_place {size : Bool → Nat} {source : Source} {forward : Bool} {i : Nat}
    (inside : i < size forward)
    (same : ∀ streams : Bool → Bytes, (∀ f, (streams f).length = size f) →
      source.value streams = (place forward i).value streams) : source = place forward i := by
  have bright := same (spot size forward i) (length_spot size forward i)
  rw [value_spot inside] at bright
  cases source with
  | place f j =>
    rw [value_spot inside] at bright
    by_cases here : f = forward ∧ j = i
    · rw [here.1, here.2]
    · simp [here] at bright
  | byte b =>
    have dark := same (fun f => List.replicate (size f) 0) fun f => List.length_replicate
    simp [value, octet, inside] at bright dark
    rw [bright] at dark
    exact absurd dark (by decide)

theorem eq_of_values {size : Bool → Nat} {sources places : List Source}
    (proper : ∀ p ∈ places, ∃ forward i, p = place forward i ∧ i < size forward)
    (same : ∀ streams : Bool → Bytes, (∀ f, (streams f).length = size f) →
      sources.map (value streams) = places.map (value streams)) : sources = places := by
  induction places generalizing sources with
  | nil =>
    have none := same (fun f => List.replicate (size f) 0) fun f => List.length_replicate
    exact List.map_eq_nil_iff.mp none
  | cons p rest ih =>
    have some := same (fun f => List.replicate (size f) 0) fun f => List.length_replicate
    cases sources with
    | nil => cases some
    | cons source more =>
      obtain ⟨forward, i, rfl, inside⟩ := proper p List.mem_cons_self
      have first : source = place forward i := eq_place inside fun streams sizes =>
        (List.cons.inj (same streams sizes)).1
      have others : more = rest := ih (fun q member => proper q (List.mem_cons_of_mem _ member))
        fun streams sizes => (List.cons.inj (same streams sizes)).2
      rw [first, others]

end Source

/- The frames must lie end to end. -/

theorem endToEnd_of_sources {forward : Bool} {l : List StreamSlice} {start n : Nat}
    (filled : ∀ s ∈ l, s.filled = true) (direction : ∀ s ∈ l, s.forward = forward)
    (same : l.flatMap Source.ofSlice = (List.range' start n).map (Source.place forward)) :
    EndToEnd start l (start + n) := by
  induction l generalizing start n with
  | nil =>
    have none : 0 = n := by simpa using congrArg List.length same
    simp [EndToEnd, ← none]
  | cons s rest ih =>
    rw [List.flatMap_cons, Source.ofSlice, direction s List.mem_cons_self] at same
    have unpadded : s.pad = [] := by
      rw [List.eq_nil_iff_forall_not_mem]
      intro b member
      have inside : Source.byte b ∈ (List.range' start n).map (Source.place forward) := by
        rw [← same]
        simp [member]
      simp at inside
    have some : s.len ≠ 0 := by
      have here := filled s List.mem_cons_self
      simpa [StreamSlice.filled, unpadded] using here
    rw [unpadded, List.map_nil, List.append_nil] at same
    have short : s.len ≤ n := by
      have lengths := congrArg List.length same
      simp only [List.length_append, List.length_map, List.length_range'] at lengths
      omega
    have cut : List.range' start n =
        List.range' start s.len ++ List.range' (start + s.len) (n - s.len) := by
      have whole := @List.range'_append start s.len (n - s.len) 1
      rw [Nat.one_mul, Nat.add_sub_cancel' short] at whole
      exact whole.symm
    rw [cut, List.map_append] at same
    obtain ⟨front, behind⟩ := List.append_inj same (by simp)
    have at_ : s.off = start := by
      cases size : s.len with
      | zero => exact absurd size some
      | succ k =>
        rw [size, List.range'_succ, List.range'_succ, List.map_cons, List.map_cons] at front
        exact (Source.place.inj (List.cons.inj front).1).2
    have later := ih (fun s member => filled s (List.mem_cons_of_mem _ member))
      (fun s member => direction s (List.mem_cons_of_mem _ member)) behind
    refine ⟨at_, unpadded, ?_⟩
    have sum : start + s.len + (n - s.len) = start + n := by omega
    rwa [sum] at later

/-- Everything of one stream stands in front of everything of the other. -/
theorem sources_apart {l l' : List StreamSlice} {n n' : Nat}
    (forward : ∀ s ∈ l, s.forward = true) (reverse : ∀ s ∈ l', s.forward = false)
    (same : l.flatMap Source.ofSlice ++ l'.flatMap Source.ofSlice =
      Source.ofStream true n ++ Source.ofStream false n') :
    l.flatMap Source.ofSlice = Source.ofStream true n ∧
      l'.flatMap Source.ofSlice = Source.ofStream false n' := by
  let early : Source → Bool := fun source =>
    match source with
    | .place forward _ => forward
    | .byte _ => true
  have first : ∀ source ∈ l.flatMap Source.ofSlice, early source = true := by
    intro source member
    obtain ⟨s, inside, member⟩ := List.mem_flatMap.mp member
    simp only [Source.ofSlice, forward s inside, List.mem_append, List.mem_map] at member
    rcases member with ⟨_, _, rfl⟩ | ⟨_, _, rfl⟩ <;> rfl
  have second : ∀ source ∈ l'.flatMap Source.ofSlice,
      early source = true → ∃ b, source = .byte b := by
    intro source member here
    obtain ⟨s, inside, member⟩ := List.mem_flatMap.mp member
    simp only [Source.ofSlice, reverse s inside, List.mem_append, List.mem_map] at member
    rcases member with ⟨_, _, rfl⟩ | ⟨b, _, rfl⟩
    · cases here
    · exact ⟨b, rfl⟩
  have client : ∀ source ∈ Source.ofStream true n, early source = true := by
    intro source member
    obtain ⟨_, _, rfl⟩ := List.mem_map.mp member
    rfl
  have server : ∀ source ∈ Source.ofStream false n', ¬ early source = true := by
    intro source member
    obtain ⟨_, _, rfl⟩ := List.mem_map.mp member
    exact Bool.false_ne_true
  have split := congrArg (List.filter early) same
  rw [List.filter_append, List.filter_append, List.filter_eq_self.mpr first,
    List.filter_eq_self.mpr client, List.filter_eq_nil_iff.mpr server, List.append_nil] at split
  have none : (l'.flatMap Source.ofSlice).filter early = [] := by
    rw [List.eq_nil_iff_forall_not_mem]
    intro source member
    obtain ⟨inside, here⟩ := List.mem_filter.mp member
    obtain ⟨b, rfl⟩ := second source inside here
    have place : Source.byte b ∈ Source.ofStream true n := by
      rw [← split]
      exact List.mem_append_right _ member
    obtain ⟨_, _, other⟩ := List.mem_map.mp place
    cases other
  rw [none, List.append_nil] at split
  rw [split] at same
  exact ⟨split, List.append_cancel_left same⟩

/- Frames for a plan: raw IPv4 packets with headers of 20 bytes. -/

def wireFrame (seq : Nat) (payload : Bytes) : Bytes :=
  [0x45, 0, 0, 0, 0, 0, 0, 0, 64, 6, 0, 0, 10, 0, 0, 1, 10, 0, 0, 2, 0x30, 0x39, 0, 80] ++
    toBE 4 seq ++ [0, 0, 0, 0, 0x50, 0x18, 0, 0, 0, 0, 0, 0] ++ payload

theorem segmentOnWire_wireFrame (native : Endian) {seq : Nat} (small : seq < 2 ^ 32)
    (payload : Bytes) :
    segmentOnWire native (wireFrame seq payload) .raw = some (seq, payload) := by
  have length : (wireFrame seq payload).length = 40 + payload.length := by
    simp [wireFrame]
    omega
  have header : headerOnWire native (wireFrame seq payload) .raw = some 20 := by
    have version : octet (wireFrame seq payload) 0 = 0x45 := rfl
    have some : wireFrame seq payload ≠ [] := List.ne_nil_of_length_pos (by omega)
    have offset : ipOffsetAt native (wireFrame seq payload) .raw = Option.some (0, false) := by
      rw [ipOffsetAt, if_neg some, sniffedOffset, version]
      decide
    rw [headerOnWire, offset, Option.bind_some, tcpHeaderAt, if_neg Bool.false_ne_true,
      if_neg (by omega), version]
    decide
  have start : payloadStart (wireFrame seq payload) 20 = 40 := by
    have offset : octet (wireFrame seq payload) (20 + 12) = 0x50 := rfl
    rw [payloadStart, offset]
    decide
  have number : beAt (wireFrame seq payload) (20 + 4) 4 = seq :=
    ofBE_toBE (k := 4) (Nat.lt_of_lt_of_eq small (by decide))
  have rest : (wireFrame seq payload).drop 40 = payload := rfl
  rw [segmentOnWire, header, Option.bind_some, segmentAt, start, if_neg (by omega),
    if_neg (by omega), number, rest]

def endsSummary (forward : Bool) : PacketSummary :=
  if forward then { src := "client", dst := "server" } else { src := "server", dst := "client" }

def tcpRecord (forward : Bool) (seq : Nat) (payload : Bytes) : PacketRecord where
  linkType := .raw
  data := wireFrame seq payload
  summary := endsSummary forward
  flags := { tcp := true, ipv4 := true }

namespace CapturePlan

variable (plan : CapturePlan)

def packets (streams : Bool → Bytes) : List PacketRecord :=
  plan.slices.map fun s => tcpRecord s.forward (plan.seq s) (s.bytes streams)

theorem packets_captured (native : Endian) {client server : Bytes}
    (clientSize : client.length = plan.size true) (serverSize : server.length = plan.size false) :
    plan.Captured native client server (plan.packets (bothStreams client server))
      (tcpRecord true 0 []) := by
  have onWire : ∀ s : StreamSlice, segmentOnWire native
      (wireFrame (plan.seq s) (s.bytes (bothStreams client server))) .raw =
        some (plan.seq s, s.bytes (bothStreams client server)) := fun s =>
    segmentOnWire_wireFrame native (Nat.mod_lt _ (by decide)) _
  have all : ∀ p ∈ plan.packets (bothStreams client server),
      ofConnection native (tcpRecord true 0 []) p = true := by
    intro p member
    obtain ⟨s, _, rfl⟩ := List.mem_map.mp member
    have found : (payloadOf native (tcpRecord s.forward (plan.seq s)
        (s.bytes (bothStreams client server)))).isSome = true := by
      simp only [payloadOf, tcpRecord, onWire, Option.isSome_some]
    rw [ofConnection, found]
    cases s.forward <;> rfl
  refine ⟨clientSize, serverSize, ?_⟩
  rw [List.filter_eq_self.mpr all, packets, List.forall₂_map_right_iff, List.forall₂_same]
  intro s _
  refine ⟨?_, rfl, onWire s⟩
  cases s.forward <;> rfl

end CapturePlan

/- The condition. -/

namespace CapturePlan

variable (plan : CapturePlan)

theorem kept_of_mem {forward : Bool} {s : StreamSlice} (member : s ∈ plan.kept forward) :
    s ∈ plan.slices ∧ s.forward = forward ∧ s.filled = true := by
  obtain ⟨⟨seq, s'⟩, inside, rfl⟩ := List.mem_map.mp member
  have numbered := lasts_subset _ _ ((List.perm_insertionSort _ _).mem_iff.mp inside)
  obtain ⟨t, kept, same⟩ := List.mem_map.mp numbered
  cases same
  simpa using List.mem_filter.mp kept

theorem value_kept {streams : Bool → Bytes}
    (sizes : ∀ forward, (streams forward).length = plan.size forward) (forward : Bool) :
    ((plan.kept forward).flatMap Source.ofSlice).map (Source.value streams) =
      (plan.kept forward).flatMap (StreamSlice.bytes streams) := by
  rw [List.map_flatMap]
  apply List.flatMap_congr
  intro s member
  apply Source.value_ofSlice
  rw [sizes]
  exact plan.fits s (plan.kept_of_mem member).1

/-- Where all streams of the plan come out, every byte comes from its own place. -/
theorem sources_of_followed {native : Endian}
    (followed : ∀ client server packets selected,
      plan.Captured native client server packets selected →
        ∃ r, followTcp native packets selected = .ok r ∧ r.raw = client ++ server) :
    (plan.kept true).flatMap Source.ofSlice ++ (plan.kept false).flatMap Source.ofSlice =
      Source.ofStream true (plan.size true) ++ Source.ofStream false (plan.size false) := by
  have proper : ∀ source ∈ Source.ofStream true (plan.size true) ++
      Source.ofStream false (plan.size false),
        ∃ forward i, source = .place forward i ∧ i < plan.size forward := by
    intro source member
    rcases List.mem_append.mp member with member | member
    · obtain ⟨i, inside, rfl⟩ := List.mem_map.mp member
      exact ⟨true, i, rfl, by simpa using inside⟩
    · obtain ⟨i, inside, rfl⟩ := List.mem_map.mp member
      exact ⟨false, i, rfl, by simpa using inside⟩
  apply Source.eq_of_values proper
  intro streams sizes
  have both : bothStreams (streams true) (streams false) = streams := by
    funext forward
    cases forward <;> rfl
  have captured := plan.packets_captured native (sizes true) (sizes false)
  obtain ⟨r, ran, raw⟩ := captured.raw
  obtain ⟨r', ran', whole⟩ := followed _ _ _ _ captured
  rw [ran] at ran'
  cases ran'
  rw [whole, both] at raw
  have stream : ∀ forward, (Source.ofStream forward (plan.size forward)).map
      (Source.value streams) = streams forward := by
    intro forward
    rw [← sizes]
    exact Source.value_ofStream streams forward
  rw [List.map_append, List.map_append, plan.value_kept sizes, plan.value_kept sizes, stream,
    stream, raw]

theorem whole_of_sources {forward : Bool}
    (sources : (plan.kept forward).flatMap Source.ofSlice =
      Source.ofStream forward (plan.size forward)) : plan.Whole forward := by
  have tiles := endToEnd_of_sources (fun s member => (plan.kept_of_mem member).2.2)
    (fun s member => (plan.kept_of_mem member).2.1) sources
  rwa [Nat.zero_add] at tiles

theorem bytes_of_whole {streams : Bool → Bytes} {forward : Bool} (whole : plan.Whole forward)
    (size : (streams forward).length = plan.size forward) :
    (plan.kept forward).flatMap (StreamSlice.bytes streams) = streams forward := by
  rw [Whole, ← size] at whole
  exact whole.bytes fun s member => (plan.kept_of_mem member).2.1

/-- The raw bytes are the client's stream and the server's behind it for all streams of the
plan, in every capture of them, if and only if the kept frames lie end to end over each. -/
theorem followed_whole_iff (native : Endian) :
    (∀ client server packets selected, plan.Captured native client server packets selected →
      ∃ r, followTcp native packets selected = .ok r ∧ r.raw = client ++ server) ↔
        plan.Whole true ∧ plan.Whole false := by
  constructor
  · intro followed
    obtain ⟨client, server⟩ := sources_apart (fun s member => (plan.kept_of_mem member).2.1)
      (fun s member => (plan.kept_of_mem member).2.1) (plan.sources_of_followed followed)
    exact ⟨plan.whole_of_sources client, plan.whole_of_sources server⟩
  · rintro ⟨wholeClient, wholeServer⟩ client server packets selected captured
    obtain ⟨r, ran, raw⟩ := captured.raw
    have front : (plan.kept true).flatMap (StreamSlice.bytes (bothStreams client server)) =
        bothStreams client server true := plan.bytes_of_whole wholeClient captured.clientSize
    have behind : (plan.kept false).flatMap (StreamSlice.bytes (bothStreams client server)) =
        bothStreams client server false := plan.bytes_of_whole wholeServer captured.serverSize
    refine ⟨r, ran, ?_⟩
    rw [raw, front, behind]
    rfl

end CapturePlan

/- A stream whose sequence numbers pass zero. -/

def wrapPlan : CapturePlan where
  size forward := if forward then 4 else 0
  first _ := 2 ^ 32 - 2
  slices := [{ forward := true, off := 0, len := 2 }, { forward := true, off := 2, len := 2 }]
  fits := by decide
  covers forward i inside := by
    cases forward with
    | false => simp at inside
    | true =>
      simp only [if_true] at inside
      by_cases early : i < 2
      · exact ⟨{ forward := true, off := 0, len := 2 }, List.mem_cons_self, rfl, Nat.zero_le i,
          early⟩
      · refine ⟨{ forward := true, off := 2, len := 2 }, by simp, rfl, ?_, ?_⟩
        · exact Nat.le_of_not_lt early
        · exact inside

def wrapPackets : List PacketRecord := wrapPlan.packets (bothStreams [0x61, 0x62, 0x63, 0x64] [])

/-- Captured in order, and followed with its second half in front. -/
theorem wrapped_stream_rotated :
    wrapPlan.Captured .little [0x61, 0x62, 0x63, 0x64] [] wrapPackets (tcpRecord true 0 []) ∧
      ∃ r, followTcp .little wrapPackets (tcpRecord true 0 []) = .ok r ∧
        r.raw = [0x63, 0x64, 0x61, 0x62] ∧ r.raw ≠ [0x61, 0x62, 0x63, 0x64] ++ [] := by
  have captured : wrapPlan.Captured .little [0x61, 0x62, 0x63, 0x64] [] wrapPackets
      (tcpRecord true 0 []) := wrapPlan.packets_captured .little rfl rfl
  obtain ⟨r, ran, raw⟩ := captured.raw
  have halves : r.raw = [0x63, 0x64, 0x61, 0x62] := by
    rw [raw]
    decide +kernel
  refine ⟨captured, r, ran, halves, ?_⟩
  rw [halves]
  decide

end BitBeak
