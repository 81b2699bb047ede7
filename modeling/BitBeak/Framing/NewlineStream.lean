import BitBeak.Framing.Remainder

/-! Payloads sent one a line. The encoder takes any octets; the decoder reads lines of text,
takes a carriage return off their ends, and stops its drain at a line that is no text. -/
namespace BitBeak
open Wire

/-- The lines of payloads as they stand on the wire. -/
def lineWire (payloads : List Bytes) : Bytes := payloads.flatMap fun p => p ++ [newlineByte]

def isLineText (line : Bytes) : Bool := (fromUtf8 (withoutCarriageReturn line)).isSome

/-- What is delivered of lines that were taken off the buffer. -/
def deliveredLines (taken : List Bytes) : List Bytes :=
  (taken.filter isLineText).map withoutCarriageReturn

/-- A text that does not end in a carriage return. -/
def PlainLine (p : Bytes) : Prop := fromUtf8 p ≠ none ∧ p.getLast? ≠ some 13

section
variable {lines : LinesCodec} {max : Nat}

@[simp] theorem lineWire_nil : lineWire [] = [] := rfl

@[simp] theorem lineWire_cons (p : Bytes) (ps : List Bytes) :
    lineWire (p :: ps) = p ++ newlineByte :: lineWire ps := by
  simp [lineWire]

@[simp] theorem lineWire_append (ps qs : List Bytes) :
    lineWire (ps ++ qs) = lineWire ps ++ lineWire qs := by
  simp [lineWire]

@[simp] theorem deliveredLines_append (ps qs : List Bytes) :
    deliveredLines (ps ++ qs) = deliveredLines ps ++ deliveredLines qs := by
  simp [deliveredLines]

theorem deliveredLines_text {p : Bytes} (text : isLineText p = true) (ps : List Bytes) :
    deliveredLines (p :: ps) = withoutCarriageReturn p :: deliveredLines ps := by
  simp [deliveredLines, text]

/-- A line is delivered as it is exactly if it is a text without a carriage return at its end. -/
theorem plainLine_iff (p : Bytes) :
    PlainLine p ↔ isLineText p = true ∧ withoutCarriageReturn p = p := by
  by_cases ends : p.getLast? = some 13
  · have shorter : p.dropLast ≠ p := by
      intro same
      have width := congrArg List.length same
      cases p with
      | nil => cases ends
      | cons b p => simp at width
    simp [PlainLine, withoutCarriageReturn, ends, shorter]
  · simp [PlainLine, isLineText, withoutCarriageReturn, ends, Option.isSome_iff_ne_none]

theorem deliveredLines_eq_iff (payloads : List Bytes) :
    deliveredLines payloads = payloads ↔ ∀ p ∈ payloads, PlainLine p := by
  have unchanged : payloads.map withoutCarriageReturn = payloads ↔
      ∀ p ∈ payloads, withoutCarriageReturn p = id p := by
    rw [← List.map_inj_left, List.map_id]
  constructor
  · intro same
    have kept : payloads.filter isLineText = payloads := by
      apply List.filter_sublist.eq_of_length
      simpa [deliveredLines] using congrArg List.length same
    rw [deliveredLines, kept, unchanged] at same
    intro p member
    exact (plainLine_iff p).mpr ⟨List.filter_eq_self.mp kept p member, same p member⟩
  · intro good
    have texts : payloads.filter isLineText = payloads :=
      List.filter_eq_self.mpr fun p member => ((plainLine_iff p).mp (good p member)).1
    rw [deliveredLines, texts, unchanged]
    exact fun p member => ((plainLine_iff p).mp (good p member)).2

/-- The encoder ends a payload that has no line end with one. -/
theorem encodeOutbound_line {framing : FramingConfig} (kind : framing.kind = .newline) {p : Bytes}
    (one : newlineByte ∉ p) : encodeOutbound framing p = .ok (p ++ [newlineByte]) := by
  have open_end : p.getLast? ≠ some newlineByte := fun ends => one (List.mem_of_getLast? ends)
  simp [encodeOutbound, kind, open_end]

/-- The outcome of a drain: whole lines left the buffer, and those that are texts were delivered. -/
structure DrainedTo (left : List Bytes) (rest : Bytes) (drained : List Bytes × Bytes)
    (taken later : List Bytes) : Prop where
  split : left = taken ++ later
  delivered : drained.1 = deliveredLines taken
  stream : drained.2 ++ rest = lineWire later
  waits : (∀ p ∈ taken, isLineText p = true) → newlineByte ∉ drained.2

/-- A buffer without a line end stays as it is. -/
theorem drain_endless (documented : lines.Documented) {left : List Bytes} {buf rest : Bytes}
    (endless : newlineByte ∉ buf) (short : buf.length ≤ max)
    (stream : buf ++ rest = lineWire left) (turns : Nat) :
    DrainedTo left rest (drainLoop lines.decode (turns + 1) (lines.newWithMaxLength max) buf)
      [] left := by
  obtain ⟨state, decoded⟩ := documented.waits max buf short endless
  have stuck : drainLoop lines.decode (turns + 1) (lines.newWithMaxLength max) buf = ([], buf) := by
    simp only [drainLoop, decoded]
  rw [stuck]
  exact ⟨rfl, rfl, stream, fun _ => endless⟩

/-- One drain, by induction on the lines that are still to come. -/
theorem drain_lines (documented : lines.Documented) {left : List Bytes}
    (plain : ∀ p ∈ left, newlineByte ∉ p ∧ p.length ≤ max) {buf rest : Bytes}
    (stream : buf ++ rest = lineWire left) {turns : Nat} (enough : buf.length < turns) :
    ∃ taken later, DrainedTo left rest
      (drainLoop lines.decode turns (lines.newWithMaxLength max) buf) taken later := by
  induction left generalizing buf turns with
  | nil =>
    obtain ⟨turns, rfl⟩ : ∃ n, turns = n + 1 := ⟨turns - 1, by omega⟩
    obtain ⟨rfl, rfl⟩ := List.append_eq_nil_iff.mp stream
    exact ⟨[], [], drain_endless documented (by simp) (by simp) stream turns⟩
  | cons p ps ih =>
    obtain ⟨turns, rfl⟩ : ∃ n, turns = n + 1 := ⟨turns - 1, by omega⟩
    obtain ⟨one, short⟩ := plain p List.mem_cons_self
    have whole := stream
    rw [lineWire_cons] at whole
    by_cases inside : buf.length ≤ p.length
    · have part : buf <+: p := List.prefix_of_prefix_length_le ⟨_, whole⟩ ⟨_, rfl⟩ inside
      have endless : newlineByte ∉ buf := fun ends => one (part.subset ends)
      exact ⟨[], p :: ps, drain_endless documented endless (by omega) stream turns⟩
    obtain ⟨tail, rfl⟩ : p <+: buf :=
      List.prefix_of_prefix_length_le ⟨_, rfl⟩ ⟨_, whole⟩ (by omega)
    rw [List.append_assoc] at whole
    have behind := List.append_cancel_left whole
    cases tail with
    | nil => simp at inside
    | cons b tail =>
      obtain ⟨rfl, stream'⟩ := List.cons_eq_cons.mp behind
      cases text : isLineText p with
      | false =>
        have bad : fromUtf8 (withoutCarriageReturn p) = none := by simpa [isLineText] using text
        obtain ⟨state, decoded⟩ := documented.illFormed max p tail one short bad
        have stopped : drainLoop lines.decode (turns + 1) (lines.newWithMaxLength max)
            (p ++ newlineByte :: tail) = ([], tail) := by
          simp only [drainLoop, decoded]
        rw [stopped]
        refine ⟨[p], ps, rfl, ?_, stream', fun texts => ?_⟩
        · simp [deliveredLines, text]
        · simp [text] at texts
      | true =>
        have good : fromUtf8 (withoutCarriageReturn p) ≠ none := by
          simpa [isLineText, Option.isSome_iff_ne_none] using text
        have decoded := documented.line max p tail one short good
        have on : drainLoop lines.decode (turns + 1) (lines.newWithMaxLength max)
            (p ++ newlineByte :: tail) =
              (withoutCarriageReturn p ::
                (drainLoop lines.decode turns (lines.newWithMaxLength max) tail).1,
                (drainLoop lines.decode turns (lines.newWithMaxLength max) tail).2) := by
          simp only [drainLoop, decoded]
        simp only [List.length_append, List.length_cons] at enough
        obtain ⟨taken, later, rfl, delivered, after, waits⟩ :=
          ih (fun q member => plain q (List.mem_cons_of_mem p member)) stream'
            (show tail.length < turns by omega)
        rw [on]
        refine ⟨p :: taken, later, rfl, ?_, after, fun texts => ?_⟩
        · rw [deliveredLines_text text, delivered]
        · exact waits fun q member => texts q (List.mem_cons_of_mem p member)

/-- All reads of a connection, by induction on the chunks. Only a line that is no text leaves a
buffer behind in which a line ends. -/
theorem reads_lines (documented : lines.Documented) {framing : FramingConfig}
    (kind : framing.kind = .newline) (chunks : List Bytes) {left : List Bytes}
    (plain : ∀ p ∈ left, newlineByte ∉ p ∧ p.length ≤ framing.maxFrame) {buf : Bytes}
    (stream : buf ++ chunks.flatten = lineWire left) :
    ∃ taken later, left = taken ++ later ∧
      reads lines framing buf chunks = (deliveredLines taken, lineWire later) ∧
      (newlineByte ∉ buf → (∀ p ∈ left, isLineText p = true) → later = []) := by
  induction chunks generalizing buf left with
  | nil =>
    rw [List.flatten_nil, List.append_nil] at stream
    subst stream
    refine ⟨[], left, rfl, rfl, fun endless _ => ?_⟩
    cases left with
    | nil => rfl
    | cons p ps => simp at endless
  | cons chunk chunks ih =>
    rw [List.flatten_cons, ← List.append_assoc] at stream
    obtain ⟨taken, later, rfl, delivered, stream', quiet⟩ :=
      drain_lines documented plain stream (Nat.lt_succ_self _)
    have run : drainFrames lines (buf ++ chunk) framing = drainLoop lines.decode
        ((buf ++ chunk).length + 1) (lines.newWithMaxLength framing.maxFrame) (buf ++ chunk) := by
      simp only [drainFrames, kind]
    rw [← run] at delivered stream' quiet
    obtain ⟨more, last, rfl, rest, ended⟩ :=
      ih (fun p member => plain p (List.mem_append_right _ member)) stream'
    refine ⟨taken ++ more, last, by simp, ?_, fun _ texts => ?_⟩
    · rw [reads, delivered, rest, deliveredLines_append]
    · exact ended (quiet fun p member => texts p (List.mem_append_left _ member))
        (fun p member => texts p (List.mem_append_right _ member))

end

/-- Payloads without a line end, each within the maximum, encoded one a line and cut into reads
anywhere: what is delivered is the payloads exactly if each is a text that does not end in a
carriage return. -/
theorem lines_delivered_iff (lines : LinesCodec) (documented : lines.Documented)
    (framing : FramingConfig) (kind : framing.kind = .newline) (payloads : List Bytes)
    (plain : ∀ p ∈ payloads, newlineByte ∉ p ∧ p.length ≤ framing.maxFrame) (encoded : List Bytes)
    (sent : payloads.mapM (encodeOutbound framing) = .ok encoded) (chunks : List Bytes)
    (cut : chunks.flatten = encoded.flatten) :
    (receive lines framing chunks).1 = payloads ↔ ∀ p ∈ payloads, PlainLine p := by
  have stream : [] ++ chunks.flatten = lineWire payloads := by
    rw [mapM_ok fun p member => encodeOutbound_line kind (plain p member).1] at sent
    cases sent
    rw [List.nil_append, cut, lineWire, List.flatMap_def]
  obtain ⟨taken, later, rfl, run, ended⟩ := reads_lines documented kind chunks plain stream
  rw [receive_eq, run, ← deliveredLines_eq_iff]
  constructor
  · intro (same : deliveredLines taken = taken ++ later)
    -- No more is delivered than was taken off, so nothing was left.
    have few : (deliveredLines taken).length ≤ taken.length := by
      simpa [deliveredLines] using List.length_filter_le isLineText taken
    have none_left : later = [] := by
      rw [same, List.length_append] at few
      exact List.eq_nil_of_length_eq_zero (by omega)
    subst none_left
    rwa [List.append_nil] at same ⊢
  · intro same
    have good := (deliveredLines_eq_iff _).mp same
    have none_left := ended (by simp) fun p member => ((plainLine_iff p).mp (good p member)).1
    subst none_left
    rwa [List.append_nil] at same ⊢

/-- Three lines, an empty one among them, cut inside a line and behind a line end. -/
theorem lines_delivered_three :
    (receive boundedLines { kind := .newline } [[104], [105, 10], [10, 33, 10]]).1
        = [[104, 105], [], [33]] ↔ ∀ p ∈ [[104, 105], [], [33]], PlainLine p :=
  lines_delivered_iff boundedLines boundedLines_documented { kind := .newline } rfl
    [[104, 105], [], [33]] (by decide) [[104, 105, 10], [10], [33, 10]] rfl _ rfl

/-- The octet ff is no text: it is taken off without a word, and the line behind it waits. -/
theorem octet_line_lost :
    [[0xff], [104]].mapM (encodeOutbound { kind := .newline }) = .ok [[0xff, 10], [104, 10]] ∧
    receive boundedLines { kind := .newline } [[0xff, 10, 104, 10]] = ([], [104, 10]) ∧
    (receive boundedLines { kind := .newline } [[0xff, 10, 104, 10]]).1 ≠ [[0xff], [104]] := by
  refine ⟨by rfl, by rfl, by decide⟩

end BitBeak
