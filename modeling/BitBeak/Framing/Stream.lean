import BitBeak.Framing
import Mathlib.Algebra.Order.BigOperators.Group.List

/-! Length-prefixed frames cut into reads. The codec of one drain is forgotten before
the next, so what a read boundary leaves behind decides whether the stream survives:
a cut inside a prefix is harmless, a cut after a whole prefix loses that prefix. -/
namespace BitBeak
open Wire

/-- The four prefix widths `FramingConfig::from_args` lets through. -/
def IsWidth (k : Nat) : Prop := k = 1 ∨ k = 2 ∨ k = 4 ∨ k = 8

/-- The length prefix of a frame as it stands on the wire. -/
def header (framing : FramingConfig) (len : Nat) : Bytes :=
  match framing.endian with
  | .big => toBE framing.prefixSize len
  | .little => toLE framing.prefixSize len

def wire (framing : FramingConfig) (payloads : List Bytes) : Bytes :=
  payloads.flatMap (fun p => header framing p.length ++ p)

/-- Payloads the prefix can announce and the decoder admits. -/
def Fits (framing : FramingConfig) (p : Bytes) : Prop :=
  p.length ≤ framing.maxFrame ∧ p.length < 256 ^ framing.prefixSize

/-- The first `n` bytes of the wire end behind a whole prefix and before the end of
the body it announces. -/
def insideBody (k : Nat) : List Bytes → Nat → Bool
  | [], _ => false
  | p :: ps, n =>
    if n < k then false
    else if n < k + p.length then true
    else insideBody k ps (n - (k + p.length))

section
variable {framing : FramingConfig}

@[simp] theorem length_header (len : Nat) : (header framing len).length = framing.prefixSize := by
  unfold header
  split <;> simp only [length_toBE, length_toLE]

@[simp] theorem wire_cons (p : Bytes) (ps : List Bytes) :
    wire framing (p :: ps) = header framing p.length ++ (p ++ wire framing ps) := by
  simp only [wire, List.flatMap_cons, List.append_assoc]

/-- What frames take on the wire. -/
def frameBytes (framing : FramingConfig) (items : List Bytes) : Nat :=
  (items.map (fun p => framing.prefixSize + p.length)).sum

@[simp] theorem frameBytes_nil : frameBytes framing [] = 0 := rfl

@[simp] theorem frameBytes_cons (p : Bytes) (ps : List Bytes) :
    frameBytes framing (p :: ps) = framing.prefixSize + p.length + frameBytes framing ps := rfl

theorem frameBytes_append (ps qs : List Bytes) :
    frameBytes framing (ps ++ qs) = frameBytes framing ps + frameBytes framing qs := by
  simp only [frameBytes, List.map_append, List.sum_append]

theorem wire_append (ps qs : List Bytes) :
    wire framing (ps ++ qs) = wire framing ps ++ wire framing qs := by
  simp only [wire, List.flatMap_append]

theorem length_wire (payloads : List Bytes) :
    (wire framing payloads).length = frameBytes framing payloads := by
  induction payloads with
  | nil => rfl
  | cons p ps ih =>
    simp only [wire_cons, List.length_append, length_header, ih, frameBytes_cons]
    omega

theorem insideBody_append (k : Nat) (sent left : List Bytes) (m : Nat) :
    insideBody k (sent ++ left) ((sent.map (fun p => k + p.length)).sum + m)
      = insideBody k left m := by
  induction sent with
  | nil => simp only [List.nil_append, List.map_nil, List.sum_nil, Nat.zero_add]
  | cons p ps ih =>
    have past : ¬ k + p.length + (ps.map (fun p => k + p.length)).sum + m < k := by omega
    have beyond : ¬ k + p.length + (ps.map (fun p => k + p.length)).sum + m < k + p.length := by
      omega
    have rest : k + p.length + (ps.map (fun p => k + p.length)).sum + m - (k + p.length)
        = (ps.map (fun p => k + p.length)).sum + m := by omega
    simp only [List.cons_append, List.map_cons, List.sum_cons, insideBody, if_neg past,
      if_neg beyond, rest, ih]

/- The codec on a buffer that starts at a frame boundary. -/

/-- The codec `drain_frames` makes for every drain. -/
def freshCodec (framing : FramingConfig) : LengthPrefixedCodec :=
  .new framing.prefixSize framing.endian framing.maxFrame

theorem writeLen_eq (width : IsWidth framing.prefixSize) {len : Nat}
    (small : len < 256 ^ framing.prefixSize) :
    (freshCodec framing).writeLen len = .ok (header framing len) := by
  obtain ⟨kind, k, endian, maxFrame⟩ := framing
  rcases width with rfl | rfl | rfl | rfl <;> cases endian <;>
    simp_all [freshCodec, LengthPrefixedCodec.new, LengthPrefixedCodec.writeLen, header,
      toBE, toLE]

theorem usizeFrom_ok {v : Nat} (small : v < 256 ^ 8) :
    LengthPrefixedCodec.usizeFrom v = .ok v := by
  rw [LengthPrefixedCodec.usizeFrom, if_pos]
  unfold usizeMax
  omega

theorem rawLen_eq (width : IsWidth framing.prefixSize) {len : Nat}
    (small : len < 256 ^ framing.prefixSize) :
    (freshCodec framing).rawLen (header framing len) = .ok len := by
  have big : beAt (toBE framing.prefixSize len) 0 framing.prefixSize = len := by
    rw [beAt, span, List.drop_zero, List.take_of_length_le, ofBE_toBE small]
    rw [length_toBE]
    omega
  have little : leAt (toLE framing.prefixSize len) 0 framing.prefixSize = len := by
    rw [leAt, span, List.drop_zero, List.take_of_length_le, ofLE_toLE small]
    rw [length_toLE]
    omega
  obtain ⟨kind, k, endian, maxFrame⟩ := framing
  rcases width with rfl | rfl | rfl | rfl <;> cases endian <;>
    simp only [freshCodec, LengthPrefixedCodec.new, LengthPrefixedCodec.rawLen, header] at *
  · simpa [beAt, span, octet, toBE, toLE, ofBE, ofLE] using big
  · simpa [leAt, span, octet, toLE, ofLE] using little
  · rw [big]
  · rw [little]
  · rw [big]
  · rw [little]
  · rw [big, usizeFrom_ok small]
  · rw [little, usizeFrom_ok small]

theorem readLen_eq (width : IsWidth framing.prefixSize) {p : Bytes} (fits : Fits framing p) :
    (freshCodec framing).readLen (header framing p.length) = .ok p.length := by
  have admitted : ¬ p.length > (freshCodec framing).maxFrame := Nat.not_lt.mpr fits.1
  rw [LengthPrefixedCodec.readLen, rawLen_eq width fits.2]
  exact if_neg admitted

theorem encodeOutbound_eq (kind : framing.kind = .lengthPrefixed)
    (width : IsWidth framing.prefixSize) {p : Bytes} (fits : Fits framing p) :
    encodeOutbound framing p = .ok (header framing p.length ++ p) := by
  simp only [encodeOutbound, kind, LengthPrefixedCodec.encode]
  rw [← freshCodec, writeLen_eq width fits.2]
  rfl

theorem decode_short {buf : Bytes} (short : buf.length < framing.prefixSize) :
    (freshCodec framing).decode buf = (.ok none, freshCodec framing, buf) :=
  if_pos short

theorem decode_prefixed (width : IsWidth framing.prefixSize) {p : Bytes} (fits : Fits framing p)
    (tail : Bytes) :
    (freshCodec framing).decode (header framing p.length ++ tail)
      = (freshCodec framing).decodeBody p.length tail := by
  have whole : ¬ (header framing p.length ++ tail).length < framing.prefixSize := by
    rw [List.length_append, length_header]
    omega
  have front : (header framing p.length ++ tail).take framing.prefixSize
      = header framing p.length :=
    List.take_left' (length_header _)
  have back : (header framing p.length ++ tail).drop framing.prefixSize = tail :=
    List.drop_left' (length_header _)
  simp only [LengthPrefixedCodec.decode, freshCodec, LengthPrefixedCodec.new, if_neg whole,
    front, back]
  rw [← LengthPrefixedCodec.new, ← freshCodec, readLen_eq width fits]

theorem decodeBody_waits {len : Nat} {tail : Bytes} (short : tail.length < len) :
    (freshCodec framing).decodeBody len tail
      = (.ok none, { freshCodec framing with state := .body len }, tail) :=
  if_pos short

theorem decodeBody_item (p rest : Bytes) :
    (freshCodec framing).decodeBody p.length (p ++ rest)
      = (.ok (some p), freshCodec framing, rest) := by
  have long : ¬ (p ++ rest).length < p.length := by
    rw [List.length_append]
    omega
  rw [LengthPrefixedCodec.decodeBody, if_neg long, List.take_left' rfl, List.drop_left' rfl]
  rfl

/-- Whatever the buffer holds, an item and its prefix are what leaves it. -/
theorem decode_accounts {buf buf' : Bytes} {codec : LengthPrefixedCodec}
    {answer : Except FramingError (Option Bytes)}
    (h : (freshCodec framing).decode buf = (answer, codec, buf')) :
    buf'.length ≤ buf.length ∧ ∀ item, answer = .ok (some item) → codec = freshCodec framing ∧
      framing.prefixSize + item.length + buf'.length = buf.length := by
  have fresh : (freshCodec framing).state = .length := rfl
  simp only [LengthPrefixedCodec.decode, fresh] at h
  split_ifs at h with short
  · cases h
    exact ⟨Nat.le_refl _, fun _ none => by cases none⟩
  split at h
  · cases h
    exact ⟨Nat.le_refl _, fun _ failed => by cases failed⟩
  · rename_i len _
    unfold LengthPrefixedCodec.decodeBody at h
    split_ifs at h with waiting
    · cases h
      rw [List.length_drop]
      exact ⟨Nat.sub_le _ _, fun _ none => by cases none⟩
    · cases h
      rw [List.length_drop] at waiting
      refine ⟨by simp only [List.length_drop]; omega, fun item some_item => ?_⟩
      cases some_item
      have prefixSize : (freshCodec framing).prefixSize = framing.prefixSize := rfl
      rw [prefixSize] at short waiting
      refine ⟨rfl, ?_⟩
      simp only [List.length_take, List.length_drop, prefixSize]
      omega

/- One drain. -/

/-- A drain of the length-prefixed arm, with any number of turns. -/
abbrev drain (framing : FramingConfig) (turns : Nat) (buf : Bytes) : List Bytes × Bytes :=
  drainLoop LengthPrefixedCodec.decode turns (freshCodec framing) buf

/-- No drain delivers more than the buffer held, prefixes included. -/
theorem drain_accounts (turns : Nat) (buf : Bytes) :
    frameBytes framing (drain framing turns buf).1 + (drain framing turns buf).2.length
      ≤ buf.length := by
  induction turns generalizing buf with
  | zero => simp only [drain, drainLoop, frameBytes_nil, Nat.zero_add, Nat.le_refl]
  | succ turns ih =>
    rcases run : (freshCodec framing).decode buf with ⟨answer, codec, buf'⟩
    obtain ⟨less, item_account⟩ := decode_accounts run
    rcases answer with e | _ | item
    · simpa only [drain, drainLoop, run, frameBytes_nil, Nat.zero_add] using less
    · simpa only [drain, drainLoop, run, frameBytes_nil, Nat.zero_add] using less
    · obtain ⟨rfl, total⟩ := item_account item rfl
      have rest := ih buf'
      simp only [drain] at rest
      simp only [drain, drainLoop, run, frameBytes_cons]
      omega

theorem drain_short {turns : Nat} {buf : Bytes} (short : buf.length < framing.prefixSize) :
    drain framing turns buf = ([], buf) := by
  cases turns with
  | zero => rfl
  | succ turns => simp only [drain, drainLoop, decode_short short]

theorem drain_frame (width : IsWidth framing.prefixSize) {p : Bytes} (fits : Fits framing p)
    (turns : Nat) (rest : Bytes) :
    drain framing (turns + 1) (header framing p.length ++ (p ++ rest))
      = (p :: (drain framing turns rest).1, (drain framing turns rest).2) := by
  simp only [drain, drainLoop, decode_prefixed width fits, decodeBody_item]

/-- A whole prefix is taken off the buffer and forgotten when its body is incomplete. -/
theorem drain_cut (width : IsWidth framing.prefixSize) {p : Bytes} (fits : Fits framing p)
    (turns : Nat) {tail : Bytes} (short : tail.length < p.length) :
    drain framing (turns + 1) (header framing p.length ++ tail) = ([], tail) := by
  simp only [drain, drainLoop, decode_prefixed width fits, decodeBody_waits short]

/-- The first frame of a wire prefix that reaches past the length of the frame. -/
theorem split_frame {p : Bytes} {ps : List Bytes} {buf : Bytes}
    (part : buf <+: wire framing (p :: ps))
    (longer : framing.prefixSize + p.length ≤ buf.length) :
    ∃ rest, buf = header framing p.length ++ (p ++ rest) ∧ rest <+: wire framing ps ∧
      buf.length = framing.prefixSize + p.length + rest.length := by
  rw [wire_cons, ← List.append_assoc] at part
  have frame : (header framing p.length ++ p).length = framing.prefixSize + p.length := by
    rw [List.length_append, length_header]
  obtain ⟨rest, rfl⟩ :=
    List.prefix_of_prefix_length_le (List.prefix_append _ _) part (by omega)
  refine ⟨rest, List.append_assoc _ _ _, (List.prefix_append_right_inj _).mp part, ?_⟩
  rw [List.length_append, frame]

theorem insideBody_step {p : Bytes} {ps : List Bytes} {n : Nat} :
    insideBody framing.prefixSize (p :: ps) (framing.prefixSize + p.length + n)
      = insideBody framing.prefixSize ps n := by
  rw [insideBody, if_neg (by omega), if_neg (by omega), Nat.add_sub_cancel_left]

theorem insideBody_short {k n : Nat} {payloads : List Bytes} (short : n < k) :
    insideBody k payloads n = false := by
  cases payloads with
  | nil => rfl
  | cons p ps => exact if_pos short

/-- A buffer that ends outside every body is read up to its last frame boundary. -/
theorem drain_outside (width : IsWidth framing.prefixSize) {payloads : List Bytes}
    (fits : ∀ p ∈ payloads, Fits framing p) {buf : Bytes} (part : buf <+: wire framing payloads)
    (outside : insideBody framing.prefixSize payloads buf.length = false) (turns : Nat)
    (enough : buf.length < turns) :
    ∃ sent left tail, payloads = sent ++ left ∧ buf = wire framing sent ++ tail ∧
      tail <+: wire framing left ∧ tail.length < framing.prefixSize ∧
      drain framing turns buf = (sent, tail) := by
  induction payloads generalizing buf turns with
  | nil =>
    have empty : buf = [] := List.prefix_nil.mp part
    have positive : ([] : Bytes).length < framing.prefixSize := by
      rcases width with h | h | h | h <;> rw [h] <;> decide
    subst empty
    exact ⟨[], [], [], rfl, rfl, part, positive, drain_short positive⟩
  | cons p ps ih =>
    by_cases short : buf.length < framing.prefixSize
    · exact ⟨[], p :: ps, buf, rfl, rfl, part, short, drain_short short⟩
    have longer : framing.prefixSize + p.length ≤ buf.length := by
      rw [insideBody, if_neg short] at outside
      split_ifs at outside with inside
      exact Nat.le_of_not_lt inside
    obtain ⟨rest, rfl, part', total⟩ := split_frame part longer
    rw [total, insideBody_step] at outside
    obtain ⟨turns, rfl⟩ : ∃ n, turns = n + 1 := ⟨turns - 1, by omega⟩
    have positive : 0 < framing.prefixSize := by
      rcases width with h | h | h | h <;> rw [h] <;> decide
    obtain ⟨sent, left, tail, rfl, rfl, part'', small, run⟩ :=
      ih (fun q h => fits q (List.mem_cons_of_mem p h)) part' outside turns (by omega)
    refine ⟨p :: sent, left, tail, rfl, ?_, part'', small, ?_⟩
    · simp only [wire_cons, List.append_assoc]
    · rw [drain_frame width (fits p (List.mem_cons_self ..)), run]

/-- A buffer that ends inside a body loses that body's prefix. -/
theorem drain_inside (width : IsWidth framing.prefixSize) {payloads : List Bytes}
    (fits : ∀ p ∈ payloads, Fits framing p) {buf : Bytes} (part : buf <+: wire framing payloads)
    (inside : insideBody framing.prefixSize payloads buf.length = true) (turns : Nat)
    (enough : buf.length < turns) :
    frameBytes framing (drain framing turns buf).1 + (drain framing turns buf).2.length
      < buf.length := by
  induction payloads generalizing buf turns with
  | nil => cases inside
  | cons p ps ih =>
    obtain ⟨turns, rfl⟩ : ∃ n, turns = n + 1 := ⟨turns - 1, by omega⟩
    have positive : 0 < framing.prefixSize := by
      rcases width with h | h | h | h <;> rw [h] <;> decide
    have head := fits p (List.mem_cons_self ..)
    by_cases longer : framing.prefixSize + p.length ≤ buf.length
    · obtain ⟨rest, rfl, part', total⟩ := split_frame part longer
      rw [total, insideBody_step] at inside
      have loss := ih (fun q h => fits q (List.mem_cons_of_mem p h)) part' inside turns
        (by omega)
      simp only [drain_frame width head, frameBytes_cons, total]
      omega
    · have whole : ¬ buf.length < framing.prefixSize := by
        intro short
        rw [insideBody, if_pos short] at inside
        cases inside
      rw [wire_cons] at part
      obtain ⟨tail, rfl⟩ := List.prefix_of_prefix_length_le (List.prefix_append _ _) part
        (by rw [length_header]; omega)
      simp only [List.length_append, length_header] at longer ⊢
      simp only [drain_cut width head turns (show tail.length < p.length by omega), frameBytes_nil]
      omega

/- All reads of a connection. -/

section
variable {lines : LinesCodec}

theorem drainFrames_eq (kind : framing.kind = .lengthPrefixed) (buf : Bytes) :
    drainFrames lines buf framing = drain framing (buf.length + 1) buf := by
  simp only [drainFrames, kind, drain, freshCodec]

theorem encoded_wire (kind : framing.kind = .lengthPrefixed) (width : IsWidth framing.prefixSize)
    {payloads : List Bytes} (fits : ∀ p ∈ payloads, Fits framing p) {encoded : List Bytes}
    (sent : payloads.mapM (encodeOutbound framing) = .ok encoded) :
    encoded.flatten = wire framing payloads := by
  rw [mapM_ok fun p member => encodeOutbound_eq kind width (fits p member)] at sent
  cases sent
  exact (List.flatMap_def ..).symm

/-- Reads from a buffer that was left by earlier reads. -/
def reads (lines : LinesCodec) (framing : FramingConfig) (buf : Bytes) :
    List Bytes → List Bytes × Bytes
  | [] => ([], buf)
  | chunk :: chunks =>
    let first := drainFrames lines (buf ++ chunk) framing
    let rest := reads lines framing first.2 chunks
    (first.1 ++ rest.1, rest.2)

theorem receive_eq (chunks : List Bytes) :
    receive lines framing chunks = reads lines framing [] chunks := by
  have general : ∀ (sent : List Bytes) (buf : Bytes),
      chunks.foldl (onRead lines framing) (sent, buf)
        = (sent ++ (reads lines framing buf chunks).1, (reads lines framing buf chunks).2) := by
    induction chunks with
    | nil => intro sent buf; simp only [List.foldl_nil, reads, List.append_nil]
    | cons chunk chunks ih =>
      intro sent buf
      simp only [List.foldl_cons, onRead, ih, reads, List.append_assoc]
  simpa only [receive, List.nil_append] using general [] []

theorem reads_account (lines : LinesCodec) (kind : framing.kind = .lengthPrefixed) (chunks : List Bytes) (buf : Bytes) :
    frameBytes framing (reads lines framing buf chunks).1
        + (reads lines framing buf chunks).2.length
      ≤ buf.length + chunks.flatten.length := by
  induction chunks generalizing buf with
  | nil => simp only [reads, frameBytes_nil, List.flatten_nil, List.length_nil]; omega
  | cons chunk chunks ih =>
    have first : frameBytes framing (drain framing ((buf ++ chunk).length + 1) (buf ++ chunk)).1
        + (drain framing ((buf ++ chunk).length + 1) (buf ++ chunk)).2.length
          ≤ (buf ++ chunk).length := drain_accounts _ _
    have rest := ih (drainFrames lines (buf ++ chunk) framing).2
    rw [drainFrames_eq kind] at rest
    simp only [reads, drainFrames_eq kind, frameBytes_append, List.flatten_cons,
      List.length_append] at first rest ⊢
    omega

/-- No boundary between two reads, and not the last one either, falls inside a body
that stands behind its whole prefix. -/
def CutsOutsideBodies (k : Nat) (payloads : List Bytes) (start : Nat) (chunks : List Bytes) : Prop :=
  ∀ seen rest, chunks = seen ++ rest →
    insideBody k payloads (start + seen.flatten.length) = false

theorem CutsOutsideBodies.tail {k start : Nat} {payloads : List Bytes} {chunk : Bytes}
    {chunks : List Bytes} (h : CutsOutsideBodies k payloads start (chunk :: chunks)) :
    CutsOutsideBodies k payloads (start + chunk.length) chunks := by
  intro seen rest split
  have cut := h (chunk :: seen) rest (by rw [split, List.cons_append])
  rwa [List.flatten_cons, List.length_append, ← Nat.add_assoc] at cut

theorem cuts_shift (sent left : List Bytes) (chunks : List Bytes) (m : Nat) :
    CutsOutsideBodies framing.prefixSize (sent ++ left) (frameBytes framing sent + m) chunks ↔
      CutsOutsideBodies framing.prefixSize left m chunks := by
  unfold CutsOutsideBodies
  simp only [Nat.add_assoc, frameBytes, insideBody_append]

/-- The reads deliver everything when every cut is outside the bodies, and come out
short of the wire when one cut is inside. -/
theorem reads_spec (lines : LinesCodec) (kind : framing.kind = .lengthPrefixed) (width : IsWidth framing.prefixSize)
    (chunks : List Bytes) {payloads : List Bytes} (fits : ∀ p ∈ payloads, Fits framing p)
    {buf : Bytes} (short : buf.length < framing.prefixSize)
    (stream : buf ++ chunks.flatten = wire framing payloads) :
    (CutsOutsideBodies framing.prefixSize payloads buf.length chunks →
      reads lines framing buf chunks = (payloads, [])) ∧
    (¬ CutsOutsideBodies framing.prefixSize payloads buf.length chunks →
      frameBytes framing (reads lines framing buf chunks).1
        + (reads lines framing buf chunks).2.length < (wire framing payloads).length) := by
  induction chunks generalizing buf payloads with
  | nil =>
    have same : buf = wire framing payloads := by simpa using stream
    have none_left : payloads = [] := by
      cases payloads with
      | nil => rfl
      | cons p ps =>
        rw [same, wire_cons, List.length_append, length_header] at short
        omega
    subst none_left
    refine ⟨fun _ => by rw [reads, same]; rfl, fun cut => absurd ?_ cut⟩
    intro seen rest _
    rfl
  | cons chunk chunks ih =>
    rw [List.flatten_cons, ← List.append_assoc] at stream
    have part : buf ++ chunk <+: wire framing payloads := ⟨_, stream⟩
    have enough : (buf ++ chunk).length < (buf ++ chunk).length + 1 := Nat.lt_succ_self _
    by_cases outside : insideBody framing.prefixSize payloads (buf ++ chunk).length = false
    · obtain ⟨sent, left, tail, rfl, whole, _, small, run⟩ :=
        drain_outside width fits part outside _ enough
      have stream' : tail ++ chunks.flatten = wire framing left := by
        rw [whole, List.append_assoc, wire_append] at stream
        exact List.append_cancel_left stream
      have fits' : ∀ p ∈ left, Fits framing p := fun p h => fits p (List.mem_append_right _ h)
      obtain ⟨good, bad⟩ := ih fits' small stream'
      have size : (buf ++ chunk).length = frameBytes framing sent + tail.length := by
        rw [whole, List.length_append, length_wire]
      have cuts : CutsOutsideBodies framing.prefixSize (sent ++ left) buf.length (chunk :: chunks)
          ↔ CutsOutsideBodies framing.prefixSize left tail.length chunks := by
        refine Iff.trans ?_ (cuts_shift sent left chunks tail.length)
        rw [← size, List.length_append]
        refine ⟨CutsOutsideBodies.tail, fun h seen rest split => ?_⟩
        cases seen with
        | nil => exact insideBody_short short
        | cons c seen =>
          obtain ⟨rfl, split'⟩ := List.cons.inj split
          rw [List.flatten_cons, List.length_append, ← Nat.add_assoc]
          exact h seen rest split'
      rw [cuts]
      have step : reads lines framing buf (chunk :: chunks)
          = (sent ++ (reads lines framing tail chunks).1, (reads lines framing tail chunks).2) := by
        rw [reads, drainFrames_eq kind, run]
      refine ⟨fun h => by rw [step, good h], fun h => ?_⟩
      have loss := bad h
      simp only [step, wire_append, List.length_append, length_wire sent, frameBytes_append]
      omega
    · have inside : insideBody framing.prefixSize payloads (buf ++ chunk).length = true := by
        simpa using outside
      have loss := drain_inside width fits part inside _ enough
      refine ⟨fun cuts => ?_, fun _ => ?_⟩
      · have cut := cuts [chunk] chunks rfl
        rw [List.flatten_singleton, ← List.length_append] at cut
        exact absurd cut outside
      · have rest := reads_account lines kind chunks
          (drain framing ((buf ++ chunk).length + 1) (buf ++ chunk)).2
        have total := congrArg List.length stream
        simp only [reads, drainFrames_eq kind, frameBytes_append, List.length_append] at loss rest total ⊢
        omega

end

end

/-- Frames sent with a length prefix and cut into reads anywhere arrive whole, in order
and with nothing left over exactly when no read ends inside a body whose prefix it has
already delivered. -/
theorem delivered_iff_cuts_outside_bodies (lines : LinesCodec) (framing : FramingConfig)
    (kind : framing.kind = .lengthPrefixed) (width : IsWidth framing.prefixSize)
    (payloads : List Bytes) (fits : ∀ p ∈ payloads, Fits framing p) (encoded : List Bytes)
    (sent : payloads.mapM (encodeOutbound framing) = .ok encoded) (chunks : List Bytes)
    (cut : chunks.flatten = encoded.flatten) :
    receive lines framing chunks = (payloads, []) ↔
      CutsOutsideBodies framing.prefixSize payloads 0 chunks := by
  have stream : [] ++ chunks.flatten = wire framing payloads := by
    rw [List.nil_append, cut, encoded_wire kind width fits sent]
  have positive : ([] : Bytes).length < framing.prefixSize := by
    rcases width with h | h | h | h <;> rw [h] <;> decide
  obtain ⟨good, bad⟩ := reads_spec lines kind width chunks fits positive stream
  rw [receive_eq]
  refine ⟨fun all => ?_, good⟩
  by_contra broken
  have loss := bad broken
  simp only [all, length_wire, List.length_nil] at loss
  omega

/-- A line codec for runs that never reach it: it splits at LF and takes no CR off. -/
def lineSplitter : LinesCodec where
  State := Unit
  newWithMaxLength _ := ()
  decode _ buf :=
    if newlineByte ∈ buf then
      (.ok (some (buf.takeWhile (· ≠ newlineByte))), (),
        (buf.dropWhile (· ≠ newlineByte)).drop 1)
    else (.ok none, (), buf)

/-- The default 4-byte prefix, two frames, one cut inside the second prefix. -/
theorem delivered_across_prefix_cut :
    receive lineSplitter { kind := .lengthPrefixed }
        [[0, 0, 0, 2, 104, 105, 0], [0, 0, 1, 33]] = ([[104, 105], [33]], []) ↔
      CutsOutsideBodies 4 [[104, 105], [33]] 0 [[0, 0, 0, 2, 104, 105, 0], [0, 0, 1, 33]] :=
  delivered_iff_cuts_outside_bodies lineSplitter { kind := .lengthPrefixed } rfl
    (by unfold IsWidth; decide) [[104, 105], [33]]
    (by simp [Fits]) [[0, 0, 0, 2, 104, 105], [0, 0, 0, 1, 33]] (by rfl) _ (by rfl)

/-- One frame in two reads, the prefix in the first and the body in the second: nothing
is delivered and the body waits in the buffer as the start of a prefix. -/
theorem prefix_and_body_in_two_reads_lost :
    encodeOutbound { kind := .lengthPrefixed } [104, 105] = .ok ([0, 0, 0, 2] ++ [104, 105]) ∧
    receive lineSplitter { kind := .lengthPrefixed } [[0, 0, 0, 2], [104, 105]]
      = ([], [104, 105]) ∧
    receive lineSplitter { kind := .lengthPrefixed } [[0, 0, 0, 2], [104, 105]]
      ≠ ([[104, 105]], []) := by
  refine ⟨by rfl, by rfl, by decide⟩

end BitBeak
