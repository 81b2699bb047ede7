import BitBeak.Session.Http1Assembler

/-! Well-formed HTTP/1 messages with at most one `Content-Length`, and what the assembler makes of
their stream. -/
namespace BitBeak
open Wire Occurrence Peel

/- Messages on the wire. -/

/-- A value within a line, of octets that need not be a text. -/
structure FieldValue where
  octets : Bytes
  inside : ∀ b ∈ octets, b ≠ 13 ∧ b ≠ 10

structure Field where
  name : Token
  value : FieldValue

/-- The octets of the line of a header. -/
def fieldLine (name : Token) (value : Bytes) : Bytes := Utf8.encode name.text.toList ++ 58 :: value

def Token.isLength (name : Token) : Bool := eqIgnoreAsciiCase name.text "content-length"

/-- A header whose value is a number, with blanks around it. -/
structure LengthField where
  name : Token
  named : name.isLength = true
  before : List Char
  digits : List Char
  after : List Char
  blank : ∀ c ∈ before ++ after, c = ' ' ∨ c = '\t'
  filled : digits ≠ []
  decimal : ∀ c ∈ digits, c.isDigit = true

namespace LengthField

variable (f : LengthField)

def value : Nat := Nat.ofDigitChars 10 f.digits 0

def text : List Char := f.before ++ (f.digits ++ f.after)

end LengthField

/-- What a start line says, but for the version. The status is the number of a response. -/
inductive Http1Start where
  | request (method : Token) (target : Target)
  | response (status : Nat) (reason : FieldValue)

/-- The parts of a message of version 1. -/
structure Http1Parts where
  start : Http1Start
  minor : Char
  digit : minor.isDigit = true
  before : List Field
  length : Option LengthField
  after : List Field
  body : Bytes

namespace Http1Parts

variable (m : Http1Parts)

def version : List Char := marker ++ [m.minor]

/-- The first two words of the start line. -/
def words : List Char × List Char :=
  match m.start with
  | .request method target => (method.text.toList, target.text.toList)
  | .response status _ => (m.version, (toString status).toList)

/-- What stands behind them. -/
def ending : Bytes :=
  match m.start with
  | .request _ _ => Utf8.encode m.version
  | .response _ reason => reason.octets

def startLine : Bytes := Utf8.encode (m.words.1 ++ ' ' :: m.words.2) ++ 32 :: m.ending

def fieldLines : List Bytes :=
  m.before.map (fun f => fieldLine f.name f.value.octets) ++
    (m.length.toList.map (fun f => fieldLine f.name (Utf8.encode f.text)) ++
      m.after.map fun f => fieldLine f.name f.value.octets)

def head : Bytes := m.startLine ++ m.fieldLines.flatMap fun line => 13 :: 10 :: line

def wire : Bytes := m.head ++ (emptyCrlf ++ m.body)

/-- The text a message is shown with. -/
def tag (isRequest : Bool) : String :=
  if isRequest then "HTTP " ++ (String.ofList m.words.1 ++ " " ++ String.ofList m.words.2)
  else "HTTP " ++ trim (fromUtf8Lossy m.startLine)

end Http1Parts

/-- One correct `Content-Length`, or none and no body, in a message that can be addressed. -/
structure Http1Message extends Http1Parts where
  others : ∀ f ∈ before ++ after, f.name.isLength = false
  announced : body.length = (length.map LengthField.value).getD 0
  addressed : toHttp1Parts.wire.length < 2 ^ 64

/- Lines as text. -/

/-- Octets of which none ends a line. -/
def Clean (line : Bytes) : Prop := ∀ b ∈ line, b ≠ 13 ∧ b ≠ 10

theorem Clean.append {a b : Bytes} (left : Clean a) (right : Clean b) : Clean (a ++ b) := by
  intro e member
  rcases List.mem_append.mp member with here | there
  · exact left e here
  · exact right e there

theorem Clean.cons {e : UInt8} {line : Bytes} (plain : e ≠ 13 ∧ e ≠ 10) (clean : Clean line) :
    Clean (e :: line) := List.forall_mem_cons.mpr ⟨plain, clean⟩

theorem clean_encode {t : List Char} (inside : Inline t) : Clean (Utf8.encode t) := by
  have plain : ∀ {b : UInt8} {d : Char}, b ∈ Utf8.encode t → b.toNat = d.toNat → d.toNat < 128 →
      d ∈ t := by
    intro b d member same ascii
    obtain ⟨c, here, value⟩ := Utf8.mem_encode (by omega) member
    have equal : c = d := by rw [← Char.ofNat_toNat c, value, same, Char.ofNat_toNat]
    exact equal ▸ here
  intro b member
  constructor
  · rintro rfl
    exact (inside _ (plain (d := '\r') member rfl (by decide))).1 rfl
  · rintro rfl
    exact (inside _ (plain (d := '\n') member rfl (by decide))).2 rfl

theorem Clean.lossy {line : Bytes} (clean : Clean line) : Inline (lossy line) := by
  intro c member
  constructor
  · rintro rfl
    obtain ⟨b, here, value⟩ := mem_lossy (by decide) (by decide) member
    exact (clean b here).1 (UInt8.toNat_inj.mp value)
  · rintro rfl
    obtain ⟨b, here, value⟩ := mem_lossy (by decide) (by decide) member
    exact (clean b here).2 (UInt8.toNat_inj.mp value)

theorem lossy_lines (a : Bytes) (lines : List Bytes) :
    lossy (a ++ lines.flatMap fun line => 13 :: 10 :: line) =
      lossy a ++ (lines.map lossy).flatMap fun line => '\r' :: '\n' :: line := by
  induction lines generalizing a with
  | nil => rw [List.flatMap_nil, List.append_nil, List.map_nil, List.flatMap_nil, List.append_nil]
  | cons line lines ih =>
    have feed := lossy_ascii [] (e := 10) (by decide)
      (line ++ lines.flatMap fun line => 13 :: 10 :: line)
    rw [List.nil_append, ih line] at feed
    rw [List.flatMap_cons, List.cons_append, List.cons_append, lossy_ascii a (by decide), feed,
      List.map_cons, List.flatMap_cons]
    rfl

theorem lossy_fieldLine (name : Token) (value : Bytes) :
    lossy (fieldLine name value) = name.text.toList ++ ':' :: lossy value := by
  rw [fieldLine, lossy_ascii _ (by decide), lossy_encode]
  rfl

theorem clean_fieldLine (name : Token) {value : Bytes} (clean : Clean value) :
    Clean (fieldLine name value) :=
  (clean_encode (inline_of_visible name.visible)).append (clean.cons (by decide))

theorem lengthAfter_fieldLine (contentLen : Option Nat) (name : Token) (value : Bytes) :
    lengthAfter contentLen (lossy (fieldLine name value)) =
      if name.isLength then parseUnsigned (2 ^ 64) (trim (String.ofList (lossy value)))
      else contentLen := by
  have spelled : String.ofList (name.text.toList ++ ':' :: lossy value) =
      name.text ++ String.ofList [':'] ++ String.ofList (lossy value) := by
    rw [← String.toList_inj]
    simp
  rw [lengthAfter, lossy_fieldLine, spelled, splitOnce_append (name.outside (by decide))]
  rfl

namespace LengthField

variable (f : LengthField)

theorem blank_white {c : Char} (blank : c = ' ' ∨ c = '\t') : isWhitespace c = true := by
  rcases blank with rfl | rfl <;> decide

theorem text_inline : Inline f.text := by
  intro c member
  rw [text, List.mem_append, List.mem_append] at member
  have white : ∀ {c : Char}, c = ' ' ∨ c = '\t' → c ≠ '\r' ∧ c ≠ '\n' := by
    intro c blank
    rcases blank with rfl | rfl <;> decide
  rcases member with front | digit | back
  · exact white (f.blank c (List.mem_append_left _ front))
  · exact inline_of_visible (fun c member => digit_visible (f.decimal c member)) c digit
  · exact white (f.blank c (List.mem_append_right _ back))

theorem trim_text : trim (String.ofList f.text) = String.ofList f.digits := by
  have tight : BoolText.Tight isWhitespace f.digits :=
    ⟨⟨_, List.head?_eq_some_head f.filled, digit_visible (f.decimal _ (List.head_mem _))⟩,
      ⟨_, List.getLast?_eq_some_getLast f.filled, digit_visible (f.decimal _ (List.getLast_mem _))⟩⟩
  have front : ∀ c ∈ f.before, isWhitespace c = true := fun c member =>
    blank_white (f.blank c (List.mem_append_left _ member))
  have back : ∀ c ∈ f.after, isWhitespace c = true := fun c member =>
    blank_white (f.blank c (List.mem_append_right _ member))
  rw [trim_ofList, text, tight.trim_between front back]

theorem parse_text (small : f.value < 2 ^ 64) :
    parseUnsigned (2 ^ 64) (trim (String.ofList f.text)) = some f.value := by
  rw [trim_text]
  exact parseUnsigned_digits f.filled f.decimal small

end LengthField

/- The head of a message. -/

namespace Http1Parts

variable (m : Http1Parts)

theorem words_solid : (m.words.1 ≠ [] ∧ ∀ c ∈ m.words.1, isWhitespace c = false) ∧
    m.words.2 ≠ [] ∧ ∀ c ∈ m.words.2, isWhitespace c = false := by
  rw [words]
  split
  · next method target _ =>
    exact ⟨⟨method.list_ne_nil, method.visible⟩,
      fun none => target.nonempty (String.toList_eq_nil_iff.mp none), target.solid⟩
  · next status _ _ =>
    refine ⟨⟨by simp [version], version_visible m.digit⟩, ?_⟩
    rw [toList_toString]
    refine ⟨Nat.toDigits_ne_nil, fun c member => ?_⟩
    exact digit_visible (digits_all c member)

theorem ending_clean : Clean m.ending := by
  rw [ending]
  split
  · exact clean_encode (inline_of_visible (version_visible m.digit))
  · next reason _ => exact reason.inside

theorem startLine_clean : Clean m.startLine := by
  obtain ⟨⟨_, first⟩, _, second⟩ := m.words_solid
  have words : Inline (m.words.1 ++ ' ' :: m.words.2) :=
    (inline_of_visible first).append (inline_blank (inline_of_visible second))
  exact (clean_encode words).append (m.ending_clean.cons (by decide))

theorem lossy_startLine :
    lossy m.startLine = m.words.1 ++ ' ' :: (m.words.2 ++ ' ' :: lossy m.ending) := by
  rw [startLine, lossy_ascii _ (by decide), lossy_encode, List.append_assoc]
  rfl

theorem fieldLines_clean : ∀ line ∈ m.fieldLines, lossy line ≠ [] ∧ Clean line := by
  have each : ∀ (name : Token) {value : Bytes}, Clean value →
      lossy (fieldLine name value) ≠ [] ∧ Clean (fieldLine name value) := by
    intro name value clean
    rw [lossy_fieldLine]
    exact ⟨by simp, clean_fieldLine name clean⟩
  intro line member
  rw [fieldLines, List.mem_append, List.mem_append, List.mem_map, List.mem_map, List.mem_map]
    at member
  obtain ⟨f, _, rfl⟩ | ⟨f, _, rfl⟩ | ⟨f, _, rfl⟩ := member
  · exact each f.name f.value.inside
  · exact each f.name (clean_encode f.text_inline)
  · exact each f.name f.value.inside

theorem lossy_head : lossy m.head =
    lossy m.startLine ++ (m.fieldLines.map lossy).flatMap fun line => '\r' :: '\n' :: line :=
  lossy_lines _ _

theorem head_text : Lines (lossy m.head) ∧
    textLines (lossy m.head) = lossy m.startLine :: m.fieldLines.map lossy := by
  have start : lossy m.startLine ≠ [] := by
    rw [lossy_startLine]
    simp
  have each : ∀ line ∈ m.fieldLines.map lossy, line ≠ [] ∧ Inline line := by
    intro line member
    obtain ⟨octets, inside, rfl⟩ := List.mem_map.mp member
    obtain ⟨nonempty, clean⟩ := m.fieldLines_clean octets inside
    exact ⟨nonempty, clean.lossy⟩
  rw [lossy_head]
  constructor
  · exact (m.startLine_clean.lossy.lines start).joined each
  · apply textLines_joined
    intro line member
    rcases List.mem_cons.mp member with rfl | later
    · exact ⟨start, fun feed => (m.startLine_clean.lossy _ feed).2 rfl⟩
    · obtain ⟨nonempty, inside⟩ := each line later
      exact ⟨nonempty, fun feed => (inside _ feed).2 rfl⟩

/-- No end of a line follows a line feed. -/
theorem head_calm {x y : Bytes} {e : UInt8} (ends : e = 13 ∨ e = 10) : m.head ≠ x ++ 10 :: e :: y := by
  intro whole
  have calm := m.head_text.1.calm
  have behind := lossy_ascii [] (e := e) (by rcases ends with rfl | rfl <;> decide) y
  rw [List.nil_append] at behind
  rw [whole, lossy_ascii x (by decide), behind] at calm
  have pair : ['\n', Char.ofNat e.toNat] <:+:
      lossy x ++ Char.ofNat (10 : UInt8).toNat :: (lossy [] ++ Char.ofNat e.toNat :: lossy y) :=
    ⟨lossy x, lossy y, by simp [lossy_eq, utf8Steps]⟩
  have chain := calm.within pair
  rcases ends with rfl | rfl
  · exact absurd chain (by simp [Calm])
  · exact absurd chain (by simp [Calm])

/-- A head ends in the middle of a line. -/
theorem head_last : ∃ a e, m.head = a ++ [e] ∧ e ≠ 13 ∧ e ≠ 10 := by
  obtain ⟨_, c, last, noReturn, noFeed⟩ := m.head_text.1
  cases whole : m.head using List.reverseRecOn with
  | nil =>
    rw [whole] at last
    cases last
  | append_singleton a e =>
    refine ⟨a, e, rfl, ?_, ?_⟩
    · rintro rfl
      rw [whole, lossy_ascii a (by decide), List.getLast?_append] at last
      cases last
      exact noReturn rfl
    · rintro rfl
      rw [whole, lossy_ascii a (by decide), List.getLast?_append] at last
      cases last
      exact noFeed rfl

theorem cut_wire (rest : Bytes) : cut emptyCrlf (m.wire ++ rest) = some (m.head, m.body ++ rest) := by
  obtain ⟨a, e, whole, noReturn, noFeed⟩ := m.head_last
  have outside : e ∉ emptyCrlf := by simp [emptyCrlf, noReturn, noFeed]
  have none : ¬ emptyCrlf <:+: a := by
    rintro ⟨x, y, rfl⟩
    apply m.head_calm (x := x ++ [13]) (e := 13) (y := 10 :: (y ++ [e])) (.inl rfl)
    rw [whole, emptyCrlf]
    simp
  rw [wire, List.append_assoc, List.append_assoc, whole, cut_front (by decide) outside none]

/-- What is in front of the end of the empty line has no empty line of line feeds. -/
theorem head_unfed : cut emptyLf (m.head ++ [13, 10, 13]) = none := by
  have none : ¬ emptyLf <:+: m.head := by
    rintro ⟨x, y, whole⟩
    apply m.head_calm (x := x) (e := 10) (y := y) (.inr rfl)
    rw [← whole, emptyLf]
    simp
  rw [cut_past (by decide) none]
  rfl

end Http1Parts

namespace Http1Message

variable (m : Http1Message)

theorem length_wire : m.wire.length = m.head.length + 4 + m.body.length := by
  rw [Http1Parts.wire, List.length_append, List.length_append, Nat.add_assoc]
  rfl

/-- What is known of the length behind all header lines. -/
theorem contentLen_head :
    (textLines (lossy m.head)).tail.foldl lengthAfter none = m.length.map LengthField.value := by
  have skip : ∀ {fields : List Field}, (∀ f ∈ fields, f.name.isLength = false) →
      ∀ known, (fields.map fun f => lossy (fieldLine f.name f.value.octets)).foldl lengthAfter known =
        known := by
    intro fields other known
    induction fields with
    | nil => rfl
    | cons f fields ih =>
      obtain ⟨first, later⟩ := List.forall_mem_cons.mp other
      rw [List.map_cons, List.foldl_cons, lengthAfter_fieldLine, first, if_neg (by decide), ih later]
  have before := skip fun f member => m.others f (List.mem_append_left _ member)
  have after := skip fun f member => m.others f (List.mem_append_right _ member)
  rw [m.head_text.2, List.tail_cons, Http1Parts.fieldLines]
  simp only [List.map_append, List.map_map, List.foldl_append, Function.comp_def, before, after]
  cases known : m.length with
  | none => rfl
  | some f =>
    have small : f.value < 2 ^ 64 := by
      have total := m.length_wire
      have addressed := m.addressed
      have announced := m.announced
      rw [known] at announced
      dsimp only [Option.map_some, Option.getD_some] at announced
      omega
    simp only [Option.toList_some, List.map_cons, List.map_nil, List.foldl_cons, List.foldl_nil,
      lengthAfter_fieldLine, f.named, if_true, lossy_encode, f.parse_text small, Option.map_some]

theorem messageEnd_head : (headOf 4 m.head).messageEnd = m.wire.length := by
  have known : (headOf 4 m.head).contentLen = m.length.map LengthField.value := by
    rw [headOf, ← lossy]
    dsimp only
    exact m.contentLen_head
  rw [Http1Head.messageEnd, Http1Head.bodyLen, known, ← m.announced, m.length_wire]
  rfl

theorem tag_head (isRequest : Bool) : messageTag isRequest (headOf 4 m.head).first = m.tag isRequest := by
  have first : (headOf 4 m.head).first = trim (fromUtf8Lossy m.startLine) := by
    change trim (String.ofList ((textLines (lossy m.head)).head?.getD [])) = _
    rw [m.head_text.2, List.head?_cons, Option.getD_some, lossy, String.ofList_toList]
  rw [messageTag, Http1Parts.tag, first]
  split
  · have words : splitWhitespace (trim (fromUtf8Lossy m.startLine)) =
        String.ofList m.words.1 :: String.ofList m.words.2 ::
          (textWords (lossy m.ending)).map String.ofList := by
      obtain ⟨⟨some, solid⟩, some', solid'⟩ := m.words_solid
      have text : fromUtf8Lossy m.startLine = String.ofList (lossy m.startLine) :=
        String.ofList_toList.symm
      rw [text, trim_ofList, splitWhitespace_words, textWords_trim, m.lossy_startLine,
        textWords_append _ (by decide), textWords_append _ (by decide), textWords_solid some solid,
        textWords_solid some' solid', List.singleton_append, List.singleton_append, List.map_cons,
        List.map_cons]
    simp only [words, List.getElem?_cons_zero, List.getElem?_cons_succ, Option.getD_some]
  · rfl

/-- The head is read when its empty line is there. -/
theorem readHead_front {u v : Bytes} (rest : Bytes) (whole : u ++ v = m.wire ++ rest) :
    readHead u = if m.head.length + 4 ≤ u.length then some (headOf 4 m.head) else none := by
  have found := m.cut_wire rest
  rw [← whole] at found
  have missing : cut emptyCrlf u = none ↔ u.length < m.head.length + 4 :=
    cut_eq_none_iff_short (by decide) found
  split
  · next long =>
    cases early : cut emptyCrlf u with
    | none => exact absurd (missing.mp early) (Nat.not_lt.mpr long)
    | some x =>
      obtain ⟨same, _⟩ := Prod.mk.inj (Option.some.inj ((cut_append early v).symm.trans found))
      rw [readHead_crlf early, same]
  · next short =>
    have few := Nat.lt_of_not_le short
    apply readHead_none (missing.mpr few)
    have front : u <+: m.head ++ [13, 10, 13] := by
      apply List.prefix_of_prefix_length_le ⟨v, whole⟩ ⟨10 :: (m.body ++ rest), _⟩
      · rw [List.length_append]
        exact Nat.le_of_lt_succ few
      · rw [Http1Parts.wire, emptyCrlf]
        simp
    obtain ⟨w, same⟩ := front
    apply cut_none_front (v := w) (by decide)
    rw [same]
    exact m.head_unfed

/-- A message is taken when all of it is there, and not before. -/
theorem frame (isRequest : Bool) :
    (messages isRequest).Frame m.wire ⟨m.tag isRequest, m.wire.take 4096⟩ := by
  constructor
  · intro rest
    have long : m.head.length + 4 ≤ (m.wire ++ rest).length := by
      rw [List.length_append, m.length_wire]
      omega
    have found := m.readHead_front rest (List.append_nil (m.wire ++ rest))
    rw [if_pos long] at found
    have fits : (headOf 4 m.head).messageEnd ≤ (m.wire ++ rest).length := by
      rw [m.messageEnd_head, List.length_append]
      exact Nat.le_add_right _ _
    change popMessage isRequest (m.wire ++ rest) = _
    rw [popMessage_some isRequest found fits, m.messageEnd_head, m.tag_head, List.take_left, List.drop_left]
  · rintro u ⟨v, whole⟩ other
    have short : u.length < m.wire.length := by
      rw [← whole, List.length_append]
      have some : v ≠ [] := by
        rintro rfl
        exact other (by rw [← whole, List.append_nil])
      have := List.length_pos_iff.mpr some
      omega
    have found := m.readHead_front [] (by rw [whole, List.append_nil])
    change popMessage isRequest u = none
    rw [popMessage, found]
    split
    · rw [Option.bind_some, m.messageEnd_head, if_pos short]
    · rfl

end Http1Message

/-- Well-formed messages come out in order, each once, however their stream is cut, and nothing
is left. -/
theorem messages_assembled (isRequest : Bool) (build : Build) (ms : List Http1Message)
    {chunks : List Bytes} {fuel : Nat} (cuts : chunks.flatten = ms.flatMap fun m => m.wire)
    (enough : (ms.flatMap fun m => m.wire).length < fuel) :
    (Http1Assembler.new isRequest).pushes build fuel chunks =
      .ok (ms.map fun m => ⟨m.tag isRequest, m.wire.take 4096⟩, .new isRequest) := by
  have frames : ∀ m ∈ ms, (messages isRequest).Frame m.wire ⟨m.tag isRequest, m.wire.take 4096⟩ :=
    fun m _ => m.frame isRequest
  apply Http1Assembler.pushes_room
  · intro buf seen
    have steady := Peeler.Frame.steady frames
    rw [← cuts, ← List.append_nil chunks.flatten] at steady
    obtain ⟨out, w, items⟩ := Peeler.Steady.seen [] steady seen
    rw [List.nil_append, List.append_nil, cuts] at items
    obtain ⟨later, _, whole⟩ := Peeler.Frame.begins frames items
    intro head found
    cases later with
    | nil =>
      obtain ⟨rfl, _⟩ := List.append_eq_nil_iff.mp whole
      cases found
    | cons m later =>
      rw [m.readHead_front _ whole] at found
      split at found
      · cases found
        rw [m.messageEnd_head]
        exact m.addressed
      · cases found
  · exact Peeler.Frame.fed frames cuts
  · rwa [Http1Assembler.new, List.length_nil, Nat.zero_add, cuts]

theorem one_digit : '1'.isDigit = true := by decide

theorem get_nonempty : "GET" ≠ "" := by decide

theorem get_chars : "GET".toList.all tokenChar = true := by decide

/-- `POST /a` with a body that is an empty line. -/
def postLine : Http1Message where
  start := .request (demoToken "POST" (by decide) (by decide)) ⟨"/a", by decide, by simp [isWhitespace]⟩
  minor := '1'
  digit := one_digit
  before := []
  length := some
    { name := demoToken "content-length" (by decide) (by decide)
      named := by decide
      before := [' ']
      digits := ['4']
      after := []
      blank := List.forall_mem_singleton.mpr (.inl rfl)
      filled := List.cons_ne_nil _ _
      decimal := List.forall_mem_singleton.mpr rfl }
  after := []
  body := emptyCrlf
  others := List.forall_mem_nil _
  announced := by decide
  addressed := by decide +kernel

/-- `GET /b` without a header. -/
def getLine : Http1Message where
  start := .request (demoToken "GET" get_nonempty get_chars) ⟨"/b", by decide, by simp [isWhitespace]⟩
  minor := '1'
  digit := one_digit
  before := []
  length := none
  after := []
  body := []
  others := List.forall_mem_nil _
  announced := by decide
  addressed := by decide +kernel

/-- A cut in the empty line behind the first head, and one in the second message. -/
theorem post_and_get_assembled :
    (Http1Assembler.new true).pushes .wrapping 64
        [postLine.wire.take 36, postLine.wire.drop 36 ++ getLine.wire.take 5, getLine.wire.drop 5] =
      .ok ([⟨"HTTP POST /a", postLine.wire⟩, ⟨"HTTP GET /b", getLine.wire⟩], .new true) := by
  have tags : [postLine, getLine].map (fun m => m.tag true) = ["HTTP POST /a", "HTTP GET /b"] := by
    decide +kernel
  have shown : [postLine, getLine].map (fun m => m.wire.take 4096) = [postLine.wire, getLine.wire] := by
    decide +kernel
  have cuts : [postLine.wire.take 36, postLine.wire.drop 36 ++ getLine.wire.take 5,
      getLine.wire.drop 5].flatten = [postLine, getLine].flatMap fun m => m.wire := by
    decide +kernel
  have enough : ([postLine, getLine].flatMap fun m => m.wire).length < 64 := by decide +kernel
  rw [messages_assembled true .wrapping [postLine, getLine] cuts enough]
  simp only [List.map_cons, List.map_nil, List.cons.injEq, and_true] at tags shown
  simp only [List.map_cons, List.map_nil, tags, shown]

end BitBeak
