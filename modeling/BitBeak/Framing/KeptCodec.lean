import BitBeak.Framing.Stream

/-! One length-prefixed codec kept for a whole connection. What a read leaves unfinished is
in the codec or in the buffer, so a stream may be cut anywhere. -/
namespace BitBeak
open Wire

namespace LengthPrefixedCodec

/-- The codec polled until it asks for more, with a bound on the turns: nothing when it
fails, or when the turns run out. -/
def poll : Nat → LengthPrefixedCodec → Bytes → Option (List Bytes × LengthPrefixedCodec × Bytes)
  | 0, _, _ => none
  | turns + 1, codec, buf =>
    match codec.decode buf with
    | (.ok (some item), codec', buf') => do
      let (items, last, rest) ← poll turns codec' buf'
      return (item :: items, last, rest)
    | (.ok none, codec', buf') => some ([], codec', buf')
    | (.error _, _, _) => none

/-- The codec polled after every chunk. A turn takes a byte off the buffer or is one of two
others: the first of a codec that waits for an empty body, and the last. -/
def pollChunks : LengthPrefixedCodec → Bytes → List Bytes →
    Option (List Bytes × LengthPrefixedCodec × Bytes)
  | codec, buf, [] => some ([], codec, buf)
  | codec, buf, chunk :: chunks => do
    let (items, codec, buf) ← codec.poll ((buf ++ chunk).length + 2) (buf ++ chunk)
    let (more, last, rest) ← pollChunks codec buf chunks
    return (items ++ more, last, rest)

end LengthPrefixedCodec

open LengthPrefixedCodec

section
variable {framing : FramingConfig}

/-- The codec that has read the prefix of a body. -/
def bodyCodec (framing : FramingConfig) (len : Nat) : LengthPrefixedCodec :=
  { freshCodec framing with state := .body len }

/-- What the codec has yet to see of the frames in front of it. -/
inductive Ahead (framing : FramingConfig) : LengthPrefixedCodec → List Bytes → Bytes → Prop
  | length (left : List Bytes) : Ahead framing (freshCodec framing) left (wire framing left)
  | body (p : Bytes) (ps : List Bytes) :
    Ahead framing (bodyCodec framing p.length) (p :: ps) (p ++ wire framing ps)

/-- What the codec waits for is not yet in the buffer. -/
def Waits (codec : LengthPrefixedCodec) (buf : Bytes) : Prop :=
  match codec.state with
  | .length => buf.length < codec.prefixSize
  | .body len => buf.length < len

/-- The outcome of a poll: the frames it yields are those in front, and what is ahead is the
rest of the buffer and what has yet to arrive. -/
structure PolledTo (framing : FramingConfig) (left : List Bytes) (rest : Bytes)
    (polled : List Bytes × LengthPrefixedCodec × Bytes) : Prop where
  split : ∃ later, left = polled.1 ++ later ∧ Ahead framing polled.2.1 later (polled.2.2 ++ rest)
  waits : Waits polled.2.1 polled.2.2

theorem PolledTo.cons {left : List Bytes} {rest p : Bytes}
    {polled : List Bytes × LengthPrefixedCodec × Bytes} (done : PolledTo framing left rest polled) :
    PolledTo framing (p :: left) rest (p :: polled.1, polled.2) := by
  obtain ⟨⟨later, rfl, ahead⟩, waits⟩ := done
  exact ⟨⟨later, rfl, ahead⟩, waits⟩

theorem poll_item {codec codec' : LengthPrefixedCodec} {buf buf' p : Bytes} {turns : Nat}
    {polled : List Bytes × LengthPrefixedCodec × Bytes}
    (decoded : codec.decode buf = (.ok (some p), codec', buf'))
    (run : codec'.poll turns buf' = some polled) :
    codec.poll (turns + 1) buf = some (p :: polled.1, polled.2) := by
  simp only [poll, decoded, run]
  rfl

theorem poll_none {codec codec' : LengthPrefixedCodec} {buf buf' : Bytes} (turns : Nat)
    (decoded : codec.decode buf = (.ok none, codec', buf')) :
    codec.poll (turns + 1) buf = some ([], codec', buf') := by
  simp only [poll, decoded]

theorem width_pos (width : IsWidth framing.prefixSize) : 0 < framing.prefixSize := by
  rcases width with h | h | h | h <;> omega

/-- A turn of a codec that knows the length of the body in front. -/
theorem poll_body {codec : LengthPrefixedCodec} {buf tail rest p : Bytes} {ps : List Bytes}
    {turns : Nat} (knows : codec.decode buf = (freshCodec framing).decodeBody p.length tail)
    (stream : tail ++ rest = p ++ wire framing ps)
    (later : ∀ behind, tail = p ++ behind → behind ++ rest = wire framing ps →
      ∃ polled, (freshCodec framing).poll turns behind = some polled ∧
        PolledTo framing ps rest polled) :
    ∃ polled, codec.poll (turns + 1) buf = some polled ∧ PolledTo framing (p :: ps) rest polled := by
  by_cases short : tail.length < p.length
  · rw [decodeBody_waits short] at knows
    refine ⟨_, poll_none turns knows, ⟨p :: ps, rfl, ?_⟩, short⟩
    rw [stream]
    exact .body p ps
  · obtain ⟨behind, rfl⟩ : p <+: tail :=
      List.prefix_of_prefix_length_le ⟨_, stream.symm⟩ ⟨_, rfl⟩ (Nat.le_of_not_lt short)
    rw [decodeBody_item] at knows
    rw [List.append_assoc] at stream
    obtain ⟨polled, run, done⟩ := later behind rfl (List.append_cancel_left stream)
    exact ⟨_, poll_item knows run, done.cons⟩

/-- From a frame boundary, by induction on the frames that are still to come. -/
theorem poll_fresh (width : IsWidth framing.prefixSize) {left : List Bytes}
    (fits : ∀ p ∈ left, Fits framing p) {buf rest : Bytes} (stream : buf ++ rest = wire framing left)
    {turns : Nat} (enough : buf.length < turns) :
    ∃ polled, (freshCodec framing).poll turns buf = some polled ∧
      PolledTo framing left rest polled := by
  have positive := width_pos width
  induction left generalizing buf turns with
  | nil =>
    obtain ⟨turns, rfl⟩ : ∃ n, turns = n + 1 := ⟨turns - 1, by omega⟩
    obtain ⟨rfl, rfl⟩ := List.append_eq_nil_iff.mp stream
    exact ⟨_, poll_none turns (decode_short positive), ⟨[], rfl, .length []⟩, positive⟩
  | cons p ps ih =>
    obtain ⟨turns, rfl⟩ : ∃ n, turns = n + 1 := ⟨turns - 1, by omega⟩
    by_cases short : buf.length < framing.prefixSize
    · refine ⟨_, poll_none turns (decode_short short), ⟨p :: ps, rfl, ?_⟩, short⟩
      rw [stream]
      exact .length (p :: ps)
    · rw [wire_cons] at stream
      obtain ⟨tail, rfl⟩ : header framing p.length <+: buf :=
        List.prefix_of_prefix_length_le ⟨_, stream.symm⟩ ⟨_, rfl⟩
          (by rw [length_header]; exact Nat.le_of_not_lt short)
      rw [List.append_assoc] at stream
      refine poll_body (decode_prefixed width (fits p (List.mem_cons_self ..)) tail)
        (List.append_cancel_left stream) ?_
      rintro behind rfl same
      refine ih (fun q h => fits q (List.mem_cons_of_mem p h)) same ?_
      simp only [List.length_append, length_header] at enough
      omega

theorem poll_ahead (width : IsWidth framing.prefixSize) {codec : LengthPrefixedCodec}
    {left : List Bytes} (fits : ∀ p ∈ left, Fits framing p) {buf rest : Bytes}
    (ahead : Ahead framing codec left (buf ++ rest)) :
    ∃ polled, codec.poll (buf.length + 2) buf = some polled ∧ PolledTo framing left rest polled := by
  generalize stream : buf ++ rest = bytes at ahead
  cases ahead with
  | length left => exact poll_fresh width fits stream (by omega)
  | body p ps =>
    have knows : (bodyCodec framing p.length).decode buf
        = (freshCodec framing).decodeBody p.length buf := rfl
    refine poll_body knows stream ?_
    rintro behind rfl same
    refine poll_fresh width (fun q h => fits q (List.mem_cons_of_mem p h)) same ?_
    rw [List.length_append]
    omega

/-- Nothing is left of a stream that has arrived whole. -/
theorem waits_nothing {codec : LengthPrefixedCodec} {left : List Bytes} {buf : Bytes}
    (ahead : Ahead framing codec left buf) (waits : Waits codec buf) :
    left = [] ∧ codec = freshCodec framing ∧ buf = [] := by
  cases ahead with
  | length left =>
    cases left with
    | nil => exact ⟨rfl, rfl, rfl⟩
    | cons p ps =>
      have short : (wire framing (p :: ps)).length < framing.prefixSize := waits
      rw [wire_cons, List.length_append, length_header] at short
      omega
  | body p ps =>
    have short : (p ++ wire framing ps).length < p.length := waits
    rw [List.length_append] at short
    omega

/-- By induction on the chunks; what codec and buffer hold of the stream is the invariant. -/
theorem pollChunks_ahead (width : IsWidth framing.prefixSize) (chunks : List Bytes)
    {codec : LengthPrefixedCodec} {left : List Bytes} (fits : ∀ p ∈ left, Fits framing p)
    {buf : Bytes} (ahead : Ahead framing codec left (buf ++ chunks.flatten))
    (waits : Waits codec buf) :
    codec.pollChunks buf chunks = some (left, freshCodec framing, []) := by
  induction chunks generalizing codec left buf with
  | nil =>
    rw [List.flatten_nil, List.append_nil] at ahead
    obtain ⟨rfl, rfl, rfl⟩ := waits_nothing ahead waits
    rfl
  | cons chunk chunks ih =>
    rw [List.flatten_cons, ← List.append_assoc] at ahead
    obtain ⟨⟨items, codec', buf'⟩, run, ⟨later, rfl, ahead'⟩, waits'⟩ := poll_ahead width fits ahead
    have others : codec'.pollChunks buf' chunks = some (later, freshCodec framing, []) :=
      ih (fun p h => fits p (List.mem_append_right _ h)) ahead' waits'
    simp only [pollChunks, run, Option.bind_eq_bind, Option.bind_some, others]
    rfl

theorem encode_eq (width : IsWidth framing.prefixSize) {p : Bytes} (fits : Fits framing p) :
    (freshCodec framing).encode p = .ok (header framing p.length ++ p) := by
  rw [LengthPrefixedCodec.encode, writeLen_eq width fits.2]
  rfl

end

/-- Payloads that the prefix can announce and the limit admits are encoded, and however their
encodings are cut into chunks, one codec that is polled after every chunk yields them in
order and ends with an empty buffer, in its length state. -/
theorem kept_codec_streams (prefixSize : Nat) (width : IsWidth prefixSize) (endian : Endian)
    (maxFrame : Nat) (payloads : List Bytes)
    (fits : ∀ p ∈ payloads, p.length ≤ maxFrame ∧ p.length < 256 ^ prefixSize) :
    ∃ encoded, payloads.mapM (LengthPrefixedCodec.new prefixSize endian maxFrame).encode
        = .ok encoded ∧
      ∀ chunks : List Bytes, chunks.flatten = encoded.flatten →
        (LengthPrefixedCodec.new prefixSize endian maxFrame).pollChunks [] chunks
          = some (payloads, .new prefixSize endian maxFrame, []) := by
  let framing : FramingConfig :=
    { kind := .lengthPrefixed, prefixSize := prefixSize, endian := endian, maxFrame := maxFrame }
  have known : IsWidth framing.prefixSize := width
  have carried : ∀ p ∈ payloads, Fits framing p := fits
  have sent : payloads.mapM (freshCodec framing).encode
      = .ok (payloads.map fun p => header framing p.length ++ p) :=
    mapM_ok fun p member => encode_eq known (carried p member)
  refine ⟨_, sent, fun chunks cut => ?_⟩
  have ahead : Ahead framing (freshCodec framing) payloads ([] ++ chunks.flatten) := by
    rw [List.nil_append, cut, ← List.flatMap_def]
    exact .length payloads
  exact pollChunks_ahead known chunks carried ahead (width_pos known)

/-- Three payloads, an empty one among them, cut inside a prefix and inside a body. -/
theorem kept_codec_streams_three :
    (LengthPrefixedCodec.new 2 .little 8).pollChunks [] [[2], [0, 104], [105, 0, 0, 1, 0], [33]]
      = some ([[104, 105], [], [33]], .new 2 .little 8, []) := by
  obtain ⟨encoded, sent, streams⟩ := kept_codec_streams 2 (by unfold IsWidth; decide) .little 8
    [[104, 105], [], [33]] (by simp)
  cases sent
  exact streams _ rfl

end BitBeak
