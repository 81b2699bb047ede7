import BitBeak.Dissect.Text
import BitBeak.Framing.Stream
import BitBeak.Transport
import Mathlib.Data.List.Induction

/-! What a drain leaves in the read buffer. A codec that fails ends the drain like one that
waits, nobody is told, and the next drain begins with a new codec at the same octets. So a
front that no codec can read holds back all that arrives behind it. -/
namespace BitBeak
open Wire

/-- A connection that is read: what its session is told, and the read buffer. -/
structure ReadLoop where
  events : List IoEvent := []
  buf : Bytes := []

/-- The read arm: every frame of a drain is one event. -/
def ReadLoop.onRead (lines : LinesCodec) (framing : FramingConfig) (peer : Option String)
    (s : ReadLoop) (chunk : Bytes) : ReadLoop :=
  let drained := drainFrames lines (s.buf ++ chunk) framing
  { events := s.events ++ drained.1.map (.frame .inward · peer), buf := drained.2 }

def ReadLoop.after (lines : LinesCodec) (framing : FramingConfig) (peer : Option String)
    (chunks : List Bytes) : ReadLoop :=
  chunks.foldl (ReadLoop.onRead lines framing peer) {}

/-- The room a buffer may take: a whole frame with its prefix, or a line with its end. -/
def FramingConfig.room (framing : FramingConfig) : Nat :=
  match framing.kind with
  | .none | .lengthPrefixed => framing.prefixSize + framing.maxFrame
  | .newline => framing.maxFrame + 1

/-- The buffer is within its room, or the session was told of an error. -/
def ReadLoop.Held (framing : FramingConfig) (s : ReadLoop) : Prop :=
  s.buf.length ≤ framing.room ∨ ∃ message, .error message ∈ s.events

/- What the line codec documents. -/

def withoutCarriageReturn (line : Bytes) : Bytes :=
  if line.getLast? = some 13 then line.dropLast else line

/-- A new codec on a buffer: it takes the first line, if that ends within the maximum and is a
text; it fails past a line that is none, and in front of one that is too long. -/
structure LinesCodec.Documented (lines : LinesCodec) : Prop where
  line : ∀ max line rest, newlineByte ∉ line → line.length ≤ max →
    fromUtf8 (withoutCarriageReturn line) ≠ none →
    lines.decode (lines.newWithMaxLength max) (line ++ newlineByte :: rest) =
      (.ok (some (withoutCarriageReturn line)), lines.newWithMaxLength max, rest)
  illFormed : ∀ max line rest, newlineByte ∉ line → line.length ≤ max →
    fromUtf8 (withoutCarriageReturn line) = none →
    ∃ state, lines.decode (lines.newWithMaxLength max) (line ++ newlineByte :: rest) =
      (.error .lines, state, rest)
  tooLong : ∀ max buf, max < buf.length → newlineByte ∉ buf.take (max + 1) →
    ∃ state, lines.decode (lines.newWithMaxLength max) buf = (.error .lines, state, buf)
  waits : ∀ max buf, buf.length ≤ max → newlineByte ∉ buf →
    ∃ state, lines.decode (lines.newWithMaxLength max) buf = (.ok none, state, buf)

/- Buffers that a drain gets stuck in. -/

/-- What stands behind some whole frames. -/
inductive FramesBehind (framing : FramingConfig) : Bytes → Bytes → Prop where
  | here (buf : Bytes) : FramesBehind framing buf buf
  | frame {pre body more rest : Bytes} : pre.length = framing.prefixSize →
      (freshCodec framing).readLen pre = .ok body.length → FramesBehind framing more rest →
        FramesBehind framing (pre ++ (body ++ more)) rest

/-- What stands behind some lines that are not too long and are texts. -/
inductive LinesBehind (max : Nat) : Bytes → Bytes → Prop where
  | here (buf : Bytes) : LinesBehind max buf buf
  | line {line more rest : Bytes} : newlineByte ∉ line → line.length ≤ max →
      fromUtf8 (withoutCarriageReturn line) ≠ none → LinesBehind max more rest →
        LinesBehind max (line ++ newlineByte :: more) rest

/-- Behind whole frames the buffer has more than its room, and a prefix that is not admitted. -/
def PrefixStalls (framing : FramingConfig) (buf : Bytes) : Prop :=
  ∃ rest, FramesBehind framing buf rest ∧ framing.prefixSize + framing.maxFrame < rest.length ∧
    ∃ e, (freshCodec framing).readLen (rest.take framing.prefixSize) = .error e

/-- Behind good lines the buffer has more than its room without an end of a line in it, or it
has more than its room behind a line that is no text. -/
def LineStalls (max : Nat) (buf : Bytes) : Prop :=
  ∃ rest, LinesBehind max buf rest ∧
    ((max + 1 < rest.length ∧ newlineByte ∉ rest.take (max + 1)) ∨
      ∃ line more, rest = line ++ newlineByte :: more ∧ newlineByte ∉ line ∧ line.length ≤ max ∧
        fromUtf8 (withoutCarriageReturn line) = none ∧ max + 1 < more.length)

def Stalls (framing : FramingConfig) (buf : Bytes) : Prop :=
  match framing.kind with
  | .none => False
  | .newline => LineStalls framing.maxFrame buf
  | .lengthPrefixed => PrefixStalls framing buf

section

variable {framing : FramingConfig} {buf rest : Bytes}

theorem FramesBehind.length_le (behind : FramesBehind framing buf rest) :
    rest.length ≤ buf.length := by
  induction behind with
  | here buf => exact Nat.le_refl _
  | frame _ _ _ ih =>
    rw [List.length_append, List.length_append]
    omega

theorem readLen_admitted {src : Bytes} {len : Nat}
    (read : (freshCodec framing).readLen src = .ok len) :
    0 < framing.prefixSize ∧ len ≤ framing.maxFrame := by
  obtain ⟨n, raw, admitted⟩ := ok_of_bind read
  split at admitted
  · cases admitted
  next small =>
  cases admitted
  refine ⟨?_, Nat.le_of_not_lt small⟩
  by_contra zero
  have none_given : framing.prefixSize = 0 := by omega
  rw [LengthPrefixedCodec.rawLen, freshCodec, LengthPrefixedCodec.new, none_given] at raw
  cases raw

/-- A front that fails is behind no frame. -/
theorem FramesBehind.failed (behind : FramesBehind framing buf rest) {e : FramingError}
    (error : (freshCodec framing).readLen (buf.take framing.prefixSize) = .error e) :
    rest = buf := by
  cases behind with
  | here => rfl
  | frame width read more =>
    rw [List.take_left' width, read] at error
    cases error

/-- A front that reads is a frame, or less than one. -/
theorem FramesBehind.admitted (behind : FramesBehind framing buf rest) {len : Nat}
    (read : (freshCodec framing).readLen (buf.take framing.prefixSize) = .ok len) :
    rest = buf ∨ len ≤ (buf.drop framing.prefixSize).length ∧
      FramesBehind framing ((buf.drop framing.prefixSize).drop len) rest := by
  cases behind with
  | here => exact .inl rfl
  | @frame _ body more _ width known further =>
    rw [List.take_left' width, known] at read
    cases read
    rw [List.drop_left' width, List.drop_left' rfl, List.length_append]
    exact .inr ⟨Nat.le_add_right _ _, further⟩

/-- A front that fails stalls where it is longer than the room. -/
theorem prefixStalls_failed {e : FramingError}
    (error : (freshCodec framing).readLen (buf.take framing.prefixSize) = .error e) :
    PrefixStalls framing buf ↔ framing.prefixSize + framing.maxFrame < buf.length := by
  constructor
  · rintro ⟨rest, behind, long, _⟩
    rwa [behind.failed error] at long
  · exact fun long => ⟨buf, .here buf, long, e, error⟩

/-- A front that reads stalls behind its frame. -/
theorem prefixStalls_admitted (wide : framing.prefixSize ≤ buf.length) {len : Nat}
    (read : (freshCodec framing).readLen (buf.take framing.prefixSize) = .ok len) :
    PrefixStalls framing buf ↔ len ≤ (buf.drop framing.prefixSize).length ∧
      PrefixStalls framing ((buf.drop framing.prefixSize).drop len) := by
  constructor
  · rintro ⟨rest, behind, long, e, failed⟩
    rcases behind.admitted read with rfl | ⟨inside, further⟩
    · rw [read] at failed
      cases failed
    · exact ⟨inside, rest, further, long, e, failed⟩
  · rintro ⟨inside, rest, further, long, failed⟩
    refine ⟨rest, ?_, long, failed⟩
    have body : ((buf.drop framing.prefixSize).take len).length = len := by
      rw [List.length_take, Nat.min_eq_left inside]
    have front : (buf.take framing.prefixSize).length = framing.prefixSize := by
      rw [List.length_take, Nat.min_eq_left wide]
    have frame := FramesBehind.frame front (by rw [body]; exact read) further
    rwa [List.take_append_drop, List.take_append_drop] at frame

theorem drain_bounded_iff {turns : Nat} (enough : buf.length < turns) :
    (drain framing turns buf).2.length ≤ framing.prefixSize + framing.maxFrame ↔
      ¬ PrefixStalls framing buf := by
  induction turns generalizing buf with
  | zero => omega
  | succ turns ih =>
    have fresh : (freshCodec framing).state = .length := rfl
    have width : (freshCodec framing).prefixSize = framing.prefixSize := rfl
    by_cases short : buf.length < framing.prefixSize
    · rw [drain_short short]
      refine iff_of_true (by dsimp only; omega) ?_
      rintro ⟨rest, behind, long, _⟩
      have less := behind.length_le
      omega
    cases read : (freshCodec framing).readLen (buf.take framing.prefixSize) with
    | error e =>
      have decoded : (freshCodec framing).decode buf = (.error e, freshCodec framing, buf) := by
        rw [LengthPrefixedCodec.decode, fresh]
        dsimp only
        rw [width, if_neg short, read]
      have stuck : (drain framing (turns + 1) buf).2 = buf := by
        simp only [drain, drainLoop, decoded]
      rw [stuck, prefixStalls_failed read, Nat.not_lt]
    | ok len =>
      obtain ⟨positive, admitted⟩ := readLen_admitted read
      have decoded : (freshCodec framing).decode buf =
          (freshCodec framing).decodeBody len (buf.drop framing.prefixSize) := by
        rw [LengthPrefixedCodec.decode, fresh]
        dsimp only
        rw [width, if_neg short, read]
      rw [prefixStalls_admitted (by omega) read]
      by_cases waiting : (buf.drop framing.prefixSize).length < len
      · have stuck : (drain framing (turns + 1) buf).2 = buf.drop framing.prefixSize := by
          simp only [drain, drainLoop, decoded, decodeBody_waits waiting]
        rw [stuck]
        exact iff_of_true (by omega) (fun stalls => by omega)
      · have taken : (freshCodec framing).decodeBody len (buf.drop framing.prefixSize) =
            (.ok (some ((buf.drop framing.prefixSize).take len)), freshCodec framing,
              (buf.drop framing.prefixSize).drop len) := by
          rw [LengthPrefixedCodec.decodeBody, if_neg waiting]
          rfl
        have on : (drain framing (turns + 1) buf).2 =
            (drain framing turns ((buf.drop framing.prefixSize).drop len)).2 := by
          simp only [drain, drainLoop, decoded, taken]
        rw [on, ih (by simp only [List.length_drop]; omega)]
        exact not_congr (and_iff_right (Nat.le_of_not_lt waiting)).symm

/- Lines. -/

variable {lines : LinesCodec} {max : Nat}

theorem LinesBehind.length_le (behind : LinesBehind max buf rest) : rest.length ≤ buf.length := by
  induction behind with
  | here buf => exact Nat.le_refl _
  | line _ _ _ _ ih =>
    rw [List.length_append, List.length_cons]
    omega

/-- A first line that is not too long ends in sight. -/
theorem end_in_sight {line : Bytes} (short : line.length ≤ max) (more : Bytes) :
    newlineByte ∈ (line ++ newlineByte :: more).take (max + 1) := by
  rw [List.take_append, List.take_of_length_le (by omega)]
  apply List.mem_append_right
  obtain ⟨n, known⟩ : ∃ n, max + 1 - line.length = n + 1 := ⟨max - line.length, by omega⟩
  rw [known, List.take_succ_cons]
  exact List.mem_cons_self

/-- What a line is does not depend on what follows it. -/
theorem same_line {line line' more more' : Bytes} (one : newlineByte ∉ line)
    (other : newlineByte ∉ line') (same : line ++ newlineByte :: more = line' ++ newlineByte :: more') :
    line = line' ∧ more = more' := by
  induction line generalizing line' with
  | nil =>
    cases line' with
    | nil => exact ⟨rfl, List.tail_eq_of_cons_eq same⟩
    | cons b line' =>
      have first := List.head_eq_of_cons_eq same
      exact absurd (first ▸ List.mem_cons_self) other
  | cons a line ih =>
    cases line' with
    | nil =>
      have first := List.head_eq_of_cons_eq same
      exact absurd (first ▸ List.mem_cons_self) one
    | cons b line' =>
      obtain ⟨rfl, rest⟩ := List.cons_eq_cons.mp same
      obtain ⟨rfl, rfl⟩ := ih (fun h => one (List.mem_cons_of_mem _ h))
        (fun h => other (List.mem_cons_of_mem _ h)) rest
      exact ⟨rfl, rfl⟩

/-- The end of the first line is within the maximum, or it is not in sight. -/
theorem first_line (max : Nat) (buf : Bytes) :
    (∃ line more, buf = line ++ newlineByte :: more ∧ newlineByte ∉ line ∧ line.length ≤ max) ∨
      newlineByte ∉ buf.take (max + 1) := by
  by_cases here : newlineByte ∈ buf.take (max + 1)
  · left
    obtain ⟨line, seen, cut, first⟩ := List.eq_append_cons_of_mem here
    have width := congrArg List.length cut
    rw [List.length_take, List.length_append, List.length_cons] at width
    refine ⟨line, seen ++ buf.drop (max + 1), ?_, first, by omega⟩
    rw [← List.cons_append, ← List.append_assoc, ← cut, List.take_append_drop]
  · exact .inr here

/-- Where no line ends in sight, none stands in front. -/
theorem LinesBehind.endless (behind : LinesBehind max buf rest)
    (none_ends : newlineByte ∉ buf.take (max + 1)) : rest = buf := by
  cases behind with
  | here => rfl
  | @line line more _ _ short _ _ =>
    exact absurd (end_in_sight short more) none_ends

/-- Where the first line ends, that is what stands in front. -/
theorem LinesBehind.first {line more : Bytes}
    (behind : LinesBehind max (line ++ newlineByte :: more) rest) (one : newlineByte ∉ line) :
    rest = line ++ newlineByte :: more ∨
      fromUtf8 (withoutCarriageReturn line) ≠ none ∧ LinesBehind max more rest := by
  generalize whole : line ++ newlineByte :: more = buf at behind
  cases behind with
  | here => exact .inl rfl
  | line other _ good further =>
    obtain ⟨rfl, rfl⟩ := same_line one other whole
    exact .inr ⟨good, further⟩

/-- Octets without an end of a line in sight stall where they are longer than the room. -/
theorem lineStalls_endless (endless : newlineByte ∉ buf.take (max + 1)) :
    LineStalls max buf ↔ max + 1 < buf.length := by
  constructor
  · rintro ⟨rest, behind, reason⟩
    rw [behind.endless endless] at reason
    rcases reason with ⟨long, _⟩ | ⟨line, more, rfl, _, short, _, _⟩
    · exact long
    · exact absurd (end_in_sight short more) endless
  · exact fun long => ⟨buf, .here buf, .inl ⟨long, endless⟩⟩

section

variable {line more : Bytes} (one : newlineByte ∉ line) (short : line.length ≤ max)
include one short

/-- A line that is no text stalls where what follows is longer than the room. -/
theorem lineStalls_illFormed (text : fromUtf8 (withoutCarriageReturn line) = none) :
    LineStalls max (line ++ newlineByte :: more) ↔ max + 1 < more.length := by
  constructor
  · rintro ⟨rest, behind, reason⟩
    rcases behind.first one with rfl | ⟨good, _⟩
    · rcases reason with ⟨_, endless⟩ | ⟨line', more', whole, one', _, _, long⟩
      · exact absurd (end_in_sight short more) endless
      · obtain ⟨_, rfl⟩ := same_line one one' whole
        exact long
    · exact absurd text good
  · exact fun long => ⟨_, .here _, .inr ⟨line, more, rfl, one, short, text, long⟩⟩

/-- A line that is a text stalls where what follows does. -/
theorem lineStalls_line (good : fromUtf8 (withoutCarriageReturn line) ≠ none) :
    LineStalls max (line ++ newlineByte :: more) ↔ LineStalls max more := by
  constructor
  · rintro ⟨rest, behind, reason⟩
    rcases behind.first one with rfl | ⟨_, further⟩
    · rcases reason with ⟨_, endless⟩ | ⟨line', more', whole, one', _, bad, _⟩
      · exact absurd (end_in_sight short more) endless
      · obtain ⟨rfl, _⟩ := same_line one one' whole
        exact absurd bad good
    · exact ⟨rest, further, reason⟩
  · rintro ⟨rest, behind, reason⟩
    exact ⟨rest, .line one short good behind, reason⟩

end

theorem drain_lines_bounded_iff (documented : lines.Documented) {turns : Nat}
    (enough : buf.length < turns) :
    (drainLoop lines.decode turns (lines.newWithMaxLength max) buf).2.length ≤ max + 1 ↔
      ¬ LineStalls max buf := by
  induction turns generalizing buf with
  | zero => omega
  | succ turns ih =>
    rcases first_line max buf with ⟨line, more, rfl, one, short⟩ | endless
    · rw [List.length_append, List.length_cons] at enough
      cases text : fromUtf8 (withoutCarriageReturn line) with
      | none =>
        obtain ⟨state, decoded⟩ := documented.illFormed max line more one short text
        have stuck : (drainLoop lines.decode (turns + 1) (lines.newWithMaxLength max)
            (line ++ newlineByte :: more)).2 = more := by
          simp only [drainLoop, decoded]
        rw [stuck, lineStalls_illFormed one short text, Nat.not_lt]
      | some text' =>
        have good : fromUtf8 (withoutCarriageReturn line) ≠ none := by
          rw [text]
          exact Option.some_ne_none _
        have decoded := documented.line max line more one short good
        have on : (drainLoop lines.decode (turns + 1) (lines.newWithMaxLength max)
            (line ++ newlineByte :: more)).2 =
              (drainLoop lines.decode turns (lines.newWithMaxLength max) more).2 := by
          simp only [drainLoop, decoded]
        rw [on, ih (by omega), lineStalls_line one short good]
    · have stuck : (drainLoop lines.decode (turns + 1) (lines.newWithMaxLength max) buf).2 = buf := by
        by_cases long : max < buf.length
        · obtain ⟨state, decoded⟩ := documented.tooLong max buf long endless
          simp only [drainLoop, decoded]
        · rw [List.take_of_length_le (by omega)] at endless
          obtain ⟨state, decoded⟩ := documented.waits max buf (by omega) endless
          simp only [drainLoop, decoded]
      rw [stuck, lineStalls_endless endless, Nat.not_lt]

/- All reads of a connection. -/

/-- One drain. -/
theorem drainFrames_bounded_iff (documented : lines.Documented) (framing : FramingConfig)
    (buf : Bytes) :
    (drainFrames lines buf framing).2.length ≤ framing.room ↔ ¬ Stalls framing buf := by
  unfold Stalls FramingConfig.room
  cases kind : framing.kind with
  | none =>
    have nothing : (drainFrames lines buf framing).2 = [] := by
      unfold drainFrames
      rw [kind]
      dsimp only
      split <;> rfl
    rw [nothing]
    exact iff_of_true (Nat.zero_le _) id
  | newline =>
    have run : drainFrames lines buf framing = drainLoop lines.decode (buf.length + 1)
        (lines.newWithMaxLength framing.maxFrame) buf := by
      unfold drainFrames
      rw [kind]
    rw [run]
    exact drain_lines_bounded_iff documented (Nat.lt_succ_self _)
  | lengthPrefixed =>
    rw [drainFrames_eq kind]
    exact drain_bounded_iff (Nat.lt_succ_self _)

variable {peer : Option String}

namespace ReadLoop

theorem after_concat (chunks : List Bytes) (chunk : Bytes) :
    after lines framing peer (chunks ++ [chunk]) =
      (after lines framing peer chunks).onRead lines framing peer chunk :=
  List.foldl_concat ..

/-- The reads of a connection are those of the framing. -/
theorem after_receive (chunks : List Bytes) : after lines framing peer chunks =
    { events := (receive lines framing chunks).1.map (.frame .inward · peer),
      buf := (receive lines framing chunks).2 } := by
  induction chunks using List.reverseRecOn with
  | nil => rfl
  | append_singleton chunks chunk ih =>
    have last : receive lines framing (chunks ++ [chunk]) =
        BitBeak.onRead lines framing (receive lines framing chunks) chunk := List.foldl_concat ..
    rw [after_concat, ih, last, onRead, BitBeak.onRead, List.map_append]

/-- No drain tells of an error. -/
theorem no_error (chunks : List Bytes) (message : String) :
    .error message ∉ (after lines framing peer chunks).events := by
  rw [after_receive]
  intro told
  obtain ⟨_, _, impossible⟩ := List.mem_map.mp told
  cases impossible

theorem held_onRead_iff (documented : lines.Documented) (chunks : List Bytes) (chunk : Bytes) :
    (after lines framing peer (chunks ++ [chunk])).Held framing ↔
      ¬ Stalls framing ((after lines framing peer chunks).buf ++ chunk) := by
  have silent : ¬ ∃ message, .error message ∈
      (after lines framing peer (chunks ++ [chunk])).events :=
    fun ⟨message, told⟩ => no_error _ message told
  rw [Held, or_iff_left silent, after_concat]
  exact drainFrames_bounded_iff documented framing _

end ReadLoop

end

/-- After every drain of a connection the buffer is within its room, or an error was told,
exactly when no read completes a buffer that a drain gets stuck in. -/
theorem read_buffers_held_iff (lines : LinesCodec) (documented : lines.Documented)
    (framing : FramingConfig) (peer : Option String) (chunks : List Bytes) :
    (∀ seen chunk rest, chunks = seen ++ chunk :: rest →
      (ReadLoop.after lines framing peer (seen ++ [chunk])).Held framing) ↔
    ∀ seen chunk rest, chunks = seen ++ chunk :: rest →
      ¬ Stalls framing ((ReadLoop.after lines framing peer seen).buf ++ chunk) := by
  simp only [ReadLoop.held_onRead_iff documented]

/-- A line codec as it is documented, of which nothing is kept between two drains. -/
def boundedLines : LinesCodec where
  State := Nat
  newWithMaxLength max := max
  decode max buf :=
    let line := (buf.take (max + 1)).takeWhile (· ≠ newlineByte)
    if newlineByte ∈ buf.take (max + 1) then
      match fromUtf8 (withoutCarriageReturn line) with
      | some _ =>
        (.ok (some (withoutCarriageReturn line)), max, buf.drop (line.length + 1))
      | none => (.error .lines, max, buf.drop (line.length + 1))
    else if max < buf.length then (.error .lines, max, buf)
    else (.ok none, max, buf)

theorem takeWhile_line {max : Nat} {line : Bytes} (one : newlineByte ∉ line)
    (short : line.length ≤ max) (rest : Bytes) :
    ((line ++ newlineByte :: rest).take (max + 1)).takeWhile (· ≠ newlineByte) = line := by
  obtain ⟨n, known⟩ : ∃ n, max + 1 - line.length = n + 1 := ⟨max - line.length, by omega⟩
  rw [List.take_append, List.take_of_length_le (by omega), known, List.take_succ_cons,
    List.takeWhile_append_of_pos, List.takeWhile_cons_of_neg (by simp), List.append_nil]
  intro b member
  exact decide_eq_true (fun same => one (same ▸ member))

theorem drop_line (line rest : Bytes) :
    (line ++ newlineByte :: rest).drop (line.length + 1) = rest := by
  rw [← List.drop_drop, List.drop_left' rfl, List.drop_succ_cons, List.drop_zero]

theorem boundedLines_documented : boundedLines.Documented := by
  constructor
  · intro max line rest one short good
    obtain ⟨text, read⟩ := Option.ne_none_iff_exists'.mp good
    simp only [boundedLines, if_pos (end_in_sight short rest), takeWhile_line one short, read,
      drop_line]
  · intro max line rest one short bad
    refine ⟨max, ?_⟩
    simp only [boundedLines, if_pos (end_in_sight short rest), takeWhile_line one short, bad,
      drop_line]
  · intro max buf long endless
    refine ⟨max, ?_⟩
    simp only [boundedLines, if_neg endless, if_pos long]
  · intro max buf short endless
    refine ⟨max, ?_⟩
    rw [← List.take_of_length_le (by omega : buf.length ≤ max + 1)] at endless
    simp only [boundedLines, if_neg endless, if_neg (Nat.not_lt.mpr short)]

theorem read_buffers_held_lines :
    (∀ seen chunk rest, [[104, 105], [10, 33]] = seen ++ chunk :: rest →
      (ReadLoop.after boundedLines { kind := .newline } none (seen ++ [chunk])).Held
        { kind := .newline }) ↔
    ∀ seen chunk rest, [[104, 105], [10, 33]] = seen ++ chunk :: rest →
      ¬ Stalls { kind := .newline }
        ((ReadLoop.after boundedLines { kind := .newline } none seen).buf ++ chunk) :=
  read_buffers_held_iff boundedLines boundedLines_documented { kind := .newline } none
    [[104, 105], [10, 33]]

/- A prefix that announces too much. -/

theorem drainFrames_announced {lines : LinesCodec} (n : Nat) :
    drainFrames lines (List.replicate n 0xff) (.fromArgs .lengthPrefixed 4 .big) =
      ([], List.replicate n 0xff) := by
  rw [drainFrames_eq rfl]
  by_cases short : n < 4
  · exact drain_short (by rw [List.length_replicate]; exact short)
  · obtain ⟨more, rfl⟩ : ∃ more, n = more + 4 := ⟨n - 4, by omega⟩
    rfl

theorem after_announced {lines : LinesCodec} (n : Nat) :
    (ReadLoop.after lines (.fromArgs .lengthPrefixed 4 .big) none (List.replicate n [0xff])).buf =
      List.replicate n 0xff := by
  induction n with
  | zero => rfl
  | succ n ih =>
    rw [List.replicate_succ', ReadLoop.after_concat, ReadLoop.onRead, ih,
      ← List.replicate_succ', drainFrames_announced]

/-- More octets `ff` than a frame of the largest size has, one in each read. -/
theorem endless_prefix_not_held :
    ¬ ∀ seen chunk rest, List.replicate (16777216 + 5) [0xff] = seen ++ chunk :: rest →
      (ReadLoop.after boundedLines (.fromArgs .lengthPrefixed 4 .big) none (seen ++ [chunk])).Held
        (.fromArgs .lengthPrefixed 4 .big) := by
  intro held
  have last := held (List.replicate (16777216 + 4) [0xff]) [0xff] []
    (List.replicate_succ' ..)
  rw [← List.replicate_succ'] at last
  rcases last with bounded | ⟨message, told⟩
  · rw [after_announced, List.length_replicate] at bounded
    exact absurd bounded (by decide)
  · exact ReadLoop.no_error _ message told

end BitBeak
