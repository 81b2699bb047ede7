import BitBeak.Dissect.FollowTcp
import BitBeak.Dissect.Lossy
import BitBeak.Http.Words
import BitBeak.Lib.BoolFront
import BitBeak.Lib.LineText
import BitBeak.Lib.Occurrence
import Mathlib.Data.List.Chain

/-! The HTTP objects of a followed stream: messages are found by the text `HTTP/1.` in the
stream as text. -/
namespace BitBeak
open Wire Occurrence

/- The source. -/

/-- `str::lines`: a line feed and a carriage return in front of it end a line. -/
def textLines (text : List Char) : List (List Char) :=
  let parts := text.splitOn '\n'
  let ended := parts.dropLast.map fun l => if l.getLast? = some '\r' then l.dropLast else l
  match parts.getLast? with
  | some [] | none => ended
  | some last => ended ++ [last]

def marker : List Char := ['H', 'T', 'T', 'P', '/', '1', '.']
def crlfTwice : List Char := ['\r', '\n', '\r', '\n']
def lfTwice : List Char := ['\n', '\n']

/-- The name and the value of a header line. -/
def headerLine (line : List Char) : Option (String × String) :=
  (splitOnce ':' (String.ofList line)).map fun (k, v) => (trim k, trim v)

def requestUrl (path host : String) : String :=
  if hasPrefix path "http://" ∨ hasPrefix path "https://" then path
  else if host ≠ "" then "http://" ++ host ++ path
  else path

/-- The head and the body, cut at the first empty line. -/
def headAndBody (msg : List Char) : Option (List Char × List Char) :=
  (cut crlfTwice msg).or (cut lfTwice msg)

def parseHttpMessage (msg : List Char) : Option HttpObject := do
  let (head, body) ← headAndBody msg
  let first := trim (String.ofList (← (textLines head).head?))
  if first = "" then none
  else
    let headers := (textLines head).tail.filterMap headerLine
    let contentTypes := headers.filter fun header => eqIgnoreAsciiCase header.1 "content-type"
    let isRequest := !hasPrefix first "HTTP/"
    let words := splitWhitespace first
    let host := ((headers.find? fun header => eqIgnoreAsciiCase header.1 "host").map (·.2)).getD ""
    if !isRequest && body.isEmpty then none
    else return {
      name := String.ofList (first.toList.take 60)
      contentType := ((contentTypes.map (·.2)).getLast?).getD "application/octet-stream"
      data := Utf8.encode body
      isRequest := isRequest
      method := if isRequest then words.head?.getD "GET" else ""
      url := if isRequest then requestUrl (words[1]?.getD "/") host else ""
      headers := headers }

/-- The first part may be a request. The others are read with the marker in front. -/
def chunkObject (i : Nat) (chunk : List Char) : Option HttpObject :=
  if i = 0 ∧ ¬ hasText (String.ofList chunk) "HTTP/" then parseHttpMessage chunk
  else parseHttpMessage (marker ++ chunk)

def textObjects (text : List Char) : List HttpObject :=
  let out := ((split marker text).mapIdx chunkObject).filterMap id
  if out = [] then (parseHttpMessage text).toList else out

def extractHttpObjects (raw : Bytes) : List HttpObject := textObjects (fromUtf8Lossy raw).toList

def objectLine (o : HttpObject) : String :=
  o.name ++ " (" ++ o.contentType ++ ", " ++ toString o.data.length ++ " bytes)\n"

def followHttp (native : Endian) (packets : List PacketRecord) (selected : PacketRecord) :
    Except Fault FollowResult := do
  let base ← followTcp native packets selected
  let objects := extractHttpObjects base.raw
  return { base with
    label := "HTTP " ++ base.label
    objects := objects
    text := if objects = [] then base.text
      else base.text ++ "\n--- Objects ---\n" ++ String.join (objects.map objectLine) }

/-- What is compared with a message. -/
structure ObjectView where
  isRequest : Bool
  method : String
  url : String
  body : Bytes
  deriving DecidableEq, Repr

def HttpObject.view (o : HttpObject) : ObjectView := ⟨o.isRequest, o.method, o.url, o.data⟩

/- Messages. -/

/-- A text within a line. -/
structure LineText where
  text : String
  inside : ∀ c ∈ text.toList, c ≠ '\r' ∧ c ≠ '\n'

def tokenChar (c : Char) : Bool :=
  c.isAlphanum || "!#$%&'*+-.^_|~".toList.contains c || c.toNat == 0x60

/-- The name of a method or a header. -/
structure Token where
  text : String
  nonempty : text ≠ ""
  chars : ∀ c ∈ text.toList, tokenChar c = true

/-- The target of a request. -/
structure Target where
  text : String
  nonempty : text ≠ ""
  solid : ∀ c ∈ text.toList, isWhitespace c = false

structure Header where
  name : Token
  value : LineText

/-- A body in which no message starts. -/
structure Body where
  bytes : Bytes
  quiet : ¬ Utf8.encode marker <:+: bytes

inductive StartLine where
  | request (method : Token) (target : Target)
  | response (status : Nat) (reason : LineText)

/-- A request, or a response that is not empty. -/
structure Message where
  start : StartLine
  minor : Char
  digit : minor.isDigit = true
  headers : List Header
  body : Body
  filled : ∀ status reason, start = .response status reason → body.bytes ≠ []

namespace Message

variable (m : Message)

/-- What stands in front of the version. -/
def lead : List Char :=
  match m.start with
  | .request method target => method.text.toList ++ ' ' :: (target.text.toList ++ [' '])
  | .response _ _ => []

/-- What stands behind the version. -/
def behind : List Char :=
  match m.start with
  | .request _ _ => []
  | .response status reason => ' ' :: ((toString status).toList ++ ' ' :: reason.text.toList)

def headerText (h : Header) : List Char :=
  '\r' :: '\n' :: (h.name.text.toList ++ ':' :: ' ' :: h.value.text.toList)

/-- The text between the marker of the version and the empty line. -/
def tail : List Char := m.minor :: (m.behind ++ m.headers.flatMap headerText)

def head : List Char := m.lead ++ (marker ++ m.tail)

/-- The octets on the wire. -/
def wire : Bytes := Utf8.encode (m.head ++ crlfTwice) ++ m.body.bytes

def isRequest : Bool :=
  match m.start with
  | .request _ _ => true
  | .response _ _ => false

def method : String :=
  match m.start with
  | .request method _ => method.text
  | .response _ _ => ""

/-- The value of the first header `Host`. -/
def host : Option String :=
  (m.headers.find? fun h => eqIgnoreAsciiCase h.name.text "host").map fun h => trim h.value.text

/-- The target of a request where it is a URL, else the target at the host that is named. -/
def url : String :=
  match m.start with
  | .request _ target =>
    if hasPrefix target.text "http://" ∨ hasPrefix target.text "https://" then target.text
    else
      match m.host with
      | none | some "" => target.text
      | some host => "http://" ++ host ++ target.text
  | .response _ _ => ""

/-- What is to be found of a message. -/
def view : ObjectView := ⟨m.isRequest, m.method, m.url, m.body.bytes⟩

end Message

/-- The messages on one followed stream. -/
def stream (ms : List Message) : Bytes := ms.flatMap Message.wire

/-- Every message is found, in order, and nothing else. -/
def Extracted (ms : List Message) : Prop :=
  (extractHttpObjects (stream ms)).map HttpObject.view = ms.map Message.view

/- Lines. -/

theorem textLines_eq (t : List Char) : textLines t = LineText.lines '\n' '\r' t := by
  rw [textLines, LineText.lines]
  rcases (t.splitOn '\n').getLast? with _ | _ | _ <;> rfl

theorem textLines_cons {l : List Char} (inside : '\n' ∉ l)
    (rest : List Char) : textLines (l ++ '\r' :: '\n' :: rest) = l :: textLines rest := by
  have closed : '\n' ∉ l ++ ['\r'] := by simp [inside]
  have whole : l ++ '\r' :: '\n' :: rest = (l ++ ['\r']) ++ '\n' :: rest := by simp
  have stripped : LineText.stripped '\r' (l ++ ['\r']) = l := by simp [LineText.stripped]
  rw [textLines_eq, whole, LineText.lines_cons closed, stripped, textLines_eq]

theorem textLines_single {l : List Char} (nonempty : l ≠ []) (inside : '\n' ∉ l) :
    textLines l = [l] := by
  rw [textLines_eq, LineText.lines_single nonempty inside]

theorem textLines_joined {l : List Char} {ls : List (List Char)}
    (each : ∀ x ∈ l :: ls, x ≠ [] ∧ '\n' ∉ x) :
    textLines (l ++ ls.flatMap fun x => '\r' :: '\n' :: x) = l :: ls := by
  induction ls generalizing l with
  | nil =>
    obtain ⟨nonempty, inside⟩ := each l List.mem_cons_self
    rw [List.flatMap_nil, List.append_nil, textLines_single nonempty inside]
  | cons x ls ih =>
    have whole : l ++ (x :: ls).flatMap (fun x => '\r' :: '\n' :: x) =
        l ++ '\r' :: '\n' :: (x ++ ls.flatMap fun x => '\r' :: '\n' :: x) := by
      rw [List.flatMap_cons]
      rfl
    rw [whole, textLines_cons (each l List.mem_cons_self).2,
      ih fun y member => each y (List.mem_cons_of_mem l member)]

/-- The first line of a text begins as the text does. -/
theorem textLines_front {front : List Char} (nonempty : front ≠ []) (inside : '\n' ∉ front)
    (last : front.getLast? ≠ some '\r') (t : List Char) :
    ∃ more, (textLines (front ++ t)).head? = some (front ++ more) := by
  by_cases feed : '\n' ∈ t
  · obtain ⟨a, b, rfl, before⟩ := List.eq_append_cons_of_mem feed
    have closed : '\n' ∉ front ++ a := by
      rw [List.mem_append, not_or]
      exact ⟨inside, before⟩
    have stripped : ∃ more, LineText.stripped '\r' (front ++ a) = front ++ more := by
      rw [LineText.stripped]
      split
      · next ends =>
        cases a using List.reverseRecOn with
        | nil =>
          rw [List.append_nil] at ends
          exact absurd ends last
        | append_singleton a e => exact ⟨a, by rw [← List.append_assoc, List.dropLast_concat]⟩
      · exact ⟨a, rfl⟩
    obtain ⟨more, stripped⟩ := stripped
    refine ⟨more, ?_⟩
    rw [textLines_eq, ← List.append_assoc, LineText.lines_cons closed, stripped]
    rfl
  · refine ⟨t, ?_⟩
    rw [textLines_single]
    · rfl
    · intro none
      exact nonempty (List.append_eq_nil_iff.mp none).1
    · rw [List.mem_append, not_or]
      exact ⟨inside, feed⟩

/- What is read behind a marker is a response. -/

theorem marker_tight : BoolText.Tight isWhitespace marker :=
  ⟨⟨'H', rfl, by decide⟩, ⟨'.', rfl, by decide⟩⟩

theorem headAndBody_marker (t : List Char) :
    headAndBody (marker ++ t) = (headAndBody t).map fun x => (marker ++ x.1, x.2) := by
  rw [headAndBody, crlfTwice, lfTwice, cut_outside (by decide), cut_outside (by decide), headAndBody,
    crlfTwice, lfTwice]
  cases cut ['\r', '\n', '\r', '\n'] t <;> rfl

theorem parseHttpMessage_marker {t h b : List Char} (found : headAndBody t = some (h, b)) :
    (b = [] → parseHttpMessage (marker ++ t) = none) ∧
      (b ≠ [] → ∃ o, parseHttpMessage (marker ++ t) = some o ∧
        o.view = ⟨false, "", "", Utf8.encode b⟩) := by
  have opens : ∃ more, (textLines (marker ++ h)).head? = some (marker ++ more) :=
    textLines_front (by decide) (by decide) (by decide) h
  obtain ⟨more, line⟩ := opens
  have first : trim (String.ofList (marker ++ more)) =
      String.ofList (marker ++ more.rdropWhile isWhitespace) := by
    rw [trim_ofList, marker_tight.trim_front]
  have shown : String.ofList (marker ++ more.rdropWhile isWhitespace) ≠ "" := by
    intro none
    rw [← String.toList_inj, String.toList_ofList] at none
    cases none
  have response : hasPrefix (String.ofList (marker ++ more.rdropWhile isWhitespace)) "HTTP/" = true := by
    rw [hasPrefix, String.toList_ofList, String.toList_ofList, List.isPrefixOf_iff_prefix]
    exact ⟨['1', '.'] ++ more.rdropWhile isWhitespace, rfl⟩
  rw [parseHttpMessage, headAndBody_marker, found]
  simp only [Option.map_some, Option.bind_eq_bind, Option.bind_some, line, first, if_neg shown, response,
    Bool.not_true, Bool.not_false, Bool.true_and]
  constructor
  · rintro rfl
    rfl
  · intro filled
    rw [if_neg (by simpa using filled)]
    exact ⟨_, rfl, rfl⟩

/- Texts without an empty line. -/

def Inline (t : List Char) : Prop := ∀ c ∈ t, c ≠ '\r' ∧ c ≠ '\n'

/-- No line feed in front of an end of line. -/
def Calm (t : List Char) : Prop := t.IsChain fun a b => a = '\n' → b ≠ '\r' ∧ b ≠ '\n'

theorem Inline.append {s t : List Char} (left : Inline s) (right : Inline t) : Inline (s ++ t) := by
  intro c member
  rcases List.mem_append.mp member with here | there
  · exact left c here
  · exact right c there

theorem Inline.calm {t : List Char} (inside : Inline t) : Calm t := by
  induction t with
  | nil => exact .nil
  | cons c t ih =>
    have later : Calm t := ih fun d member => inside d (List.mem_cons_of_mem c member)
    exact later.cons fun d _ feed => absurd feed (inside c List.mem_cons_self).2

theorem Calm.within {s t : List Char} (calm : Calm t) (inside : s <:+: t) : Calm s :=
  List.IsChain.infix calm inside

theorem Calm.headAndBody {t : List Char} (calm : Calm t) : headAndBody t = none := by
  have crlf : cut crlfTwice t = none := by
    rw [cut_eq_none_iff (by decide)]
    intro inside
    exact absurd (calm.within inside) (by simp [Calm, crlfTwice])
  have lf : cut lfTwice t = none := by
    rw [cut_eq_none_iff (by decide)]
    intro inside
    exact absurd (calm.within inside) (by simp [Calm, lfTwice])
  rw [BitBeak.headAndBody, crlf, lf]
  rfl

theorem Calm.parse {t : List Char} (calm : Calm t) : parseHttpMessage t = none := by
  rw [parseHttpMessage, calm.headAndBody]
  rfl

/-- Lines that end in the middle of one. -/
structure Lines (t : List Char) : Prop where
  calm : Calm t
  last : ∃ e ∈ t.getLast?, e ≠ '\r' ∧ e ≠ '\n'

theorem Lines.headAndBody {t : List Char} (lines : Lines t) (body : List Char) :
    headAndBody (t ++ (crlfTwice ++ body)) = some (t, body) := by
  obtain ⟨calm, e, last, noReturn, noFeed⟩ := lines
  obtain ⟨a, rfl⟩ := List.getLast?_eq_some_iff.mp last
  have outside : e ∉ crlfTwice := by simp [crlfTwice, noReturn, noFeed]
  have none : ¬ crlfTwice <:+: a := by
    intro inside
    exact absurd (calm.within (inside.trans (List.prefix_append a [e]).isInfix))
      (by simp [Calm, crlfTwice])
  rw [BitBeak.headAndBody, cut_front (by decide) outside none]
  rfl

theorem Inline.lines {t : List Char} (inside : Inline t) (nonempty : t ≠ []) : Lines t :=
  ⟨inside.calm, _, List.getLast?_eq_some_getLast nonempty, inside _ (List.getLast_mem nonempty)⟩

theorem Lines.line {t l : List Char} (lines : Lines t) (inside : Inline l) (nonempty : l ≠ []) :
    Lines (t ++ '\r' :: '\n' :: l) := by
  obtain ⟨calm, e, last, noReturn, noFeed⟩ := lines
  constructor
  · have feed : Calm ('\n' :: l) := by
      refine inside.calm.cons fun c head _ => ?_
      exact inside c (List.mem_of_mem_head? head)
    have line : Calm ('\r' :: '\n' :: l) := feed.cons fun c _ same => absurd same (by decide)
    refine List.IsChain.append calm line fun c ends _ _ same => ?_
    rw [Option.mem_def.mp last] at ends
    cases ends
    exact absurd same noFeed
  · refine ⟨_, ?_, inside _ (List.getLast_mem nonempty)⟩
    rw [List.getLast?_append, List.getLast?_cons_cons, List.getLast?_cons,
      List.getLast?_eq_some_getLast nonempty]
    rfl

theorem Lines.joined {t : List Char} (lines : Lines t) {ls : List (List Char)}
    (each : ∀ x ∈ ls, x ≠ [] ∧ Inline x) : Lines (t ++ ls.flatMap fun x => '\r' :: '\n' :: x) := by
  induction ls generalizing t with
  | nil => rwa [List.flatMap_nil, List.append_nil]
  | cons x ls ih =>
    obtain ⟨nonempty, inside⟩ := each x List.mem_cons_self
    rw [List.flatMap_cons, ← List.append_assoc]
    exact ih (lines.line inside nonempty) fun y member => each y (List.mem_cons_of_mem x member)

/-- A version is one word. -/
theorem version_visible {c : Char} (digit : c.isDigit = true) :
    ∀ d ∈ marker ++ [c], isWhitespace d = false := by
  intro d member
  rcases List.mem_append.mp member with mark | last
  · have marks : marker.all (fun d => !isWhitespace d) = true := by decide
    exact (Bool.not_eq_true' _).mp (List.all_eq_true.mp marks d mark)
  · rw [List.mem_singleton.mp last]
    exact digit_visible digit

theorem tokenChar_visible {c : Char} (token : tokenChar c = true) : isWhitespace c = false := by
  rw [tokenChar, Bool.or_eq_true_iff, Bool.or_eq_true_iff] at token
  rcases token with (letter | mark) | tick
  · have bounds : ((decide (65 ≤ c.val ∧ c.val ≤ 90) ||
        (decide (97 ≤ c.val) && decide (c.val ≤ 122))) ||
          (decide (48 ≤ c.val) && decide (c.val ≤ 57))) = true := letter
    simp only [Bool.or_eq_true, Bool.and_eq_true, decide_eq_true_eq, UInt32.le_iff_toNat_le]
      at bounds
    have ranges : ((65 ≤ c.toNat ∧ c.toNat ≤ 90) ∨ (97 ≤ c.toNat ∧ c.toNat ≤ 122)) ∨
        (48 ≤ c.toNat ∧ c.toNat ≤ 57) := bounds
    exact isWhitespace_graphic (by omega) (by omega)
  · have marks : "!#$%&'*+-.^_|~".toList.all (fun d => !isWhitespace d) = true := by decide
    exact (Bool.not_eq_true' _).mp (List.all_eq_true.mp marks c (List.contains_iff_mem.mp mark))
  · have same : c.toNat = 0x60 := by simpa using tick
    exact isWhitespace_graphic (by omega) (by omega)

namespace Token

variable (t : Token)

theorem list_ne_nil : t.text.toList ≠ [] := fun none => t.nonempty (String.toList_eq_nil_iff.mp none)

theorem visible : ∀ c ∈ t.text.toList, isWhitespace c = false :=
  fun c member => tokenChar_visible (t.chars c member)

theorem outside {c : Char} (other : tokenChar c = false) : c ∉ t.text.toList := fun member =>
  Bool.false_ne_true (other.symm.trans (t.chars c member))

end Token

theorem inline_of_visible {t : List Char} (visible : ∀ c ∈ t, isWhitespace c = false) : Inline t := by
  intro c member
  have shown := visible c member
  constructor
  · rintro rfl
    exact absurd shown (by decide)
  · rintro rfl
    exact absurd shown (by decide)

theorem inline_toString (n : Nat) : Inline (toString n).toList := by
  intro c member
  have digit := isDigit_of_mem_toString member
  constructor
  · rintro rfl
    exact absurd digit (by decide)
  · rintro rfl
    exact absurd digit (by decide)

theorem inline_blank {t : List Char} (inside : Inline t) : Inline (' ' :: t) := by
  intro c member
  rcases List.mem_cons.mp member with rfl | later
  · decide
  · exact inside c later

namespace Message

variable (m : Message)

theorem lead_inline : Inline m.lead := by
  rw [lead]
  split
  · next method target _ =>
    have last : Inline (target.text.toList ++ [' ']) :=
      (inline_of_visible target.solid).append (inline_blank (List.forall_mem_nil _))
    exact (inline_of_visible method.visible).append (inline_blank last)
  · exact List.forall_mem_nil _

theorem behind_inline : Inline (m.minor :: m.behind) := by
  have digit : Inline [m.minor] :=
    inline_of_visible (List.forall_mem_singleton.mpr (digit_visible m.digit))
  have rest : Inline m.behind := by
    rw [behind]
    split
    · exact List.forall_mem_nil _
    · next status reason _ =>
      exact inline_blank ((inline_toString status).append (inline_blank reason.inside))
  exact digit.append rest

/-- The header lines end in the middle of the last one. -/
theorem lines_headers {t : List Char} (lines : Lines t) (headers : List Header) :
    Lines (t ++ headers.flatMap headerText) := by
  have joined : headers.flatMap headerText =
      (headers.map fun h => h.name.text.toList ++ ':' :: ' ' :: h.value.text.toList).flatMap
        fun x => '\r' :: '\n' :: x := by
    rw [List.flatMap_map]
    rfl
  rw [joined]
  apply lines.joined
  intro x member
  obtain ⟨h, _, rfl⟩ := List.mem_map.mp member
  have colon : Inline [':', ' '] := by simp [Inline]
  exact ⟨by simp, (inline_of_visible h.name.visible).append (colon.append h.value.inside)⟩

theorem tail_lines : Lines m.tail :=
  lines_headers (m.behind_inline.lines (List.cons_ne_nil _ _)) m.headers

theorem head_lines : Lines m.head := by
  have marked : Inline marker := by simp [Inline, marker]
  have start : Inline (m.lead ++ (marker ++ m.minor :: m.behind)) :=
    m.lead_inline.append (marked.append m.behind_inline)
  have whole : m.head = (m.lead ++ (marker ++ m.minor :: m.behind)) ++ m.headers.flatMap headerText := by
    rw [head, tail]
    simp
  rw [whole]
  exact lines_headers (start.lines (by simp)) m.headers

end Message

/- The parts of a message. -/

theorem marker_borderless : Borderless marker := by
  intro b front back
  have fronts : b ∈ marker.inits := (List.mem_inits _ _).mpr front
  have backs : b ∈ marker.tails := (List.mem_tails _ _).mpr back
  have known : ∀ b ∈ marker.inits, b ∈ marker.tails → b = [] ∨ b = marker := by
    simp [marker]
  exact known b fronts backs

/-- The objects of the parts that have a marker in front. -/
def partObjects (text : List Char) : List HttpObject :=
  (split marker text).filterMap fun part => parseHttpMessage (marker ++ part)

theorem textObjects_eq {text first : List Char} {rest : List (List Char)}
    (parts : split marker text = first :: rest) : textObjects text =
      let out := (chunkObject 0 first).toList ++
        rest.filterMap fun part => parseHttpMessage (marker ++ part)
      if out = [] then (parseHttpMessage text).toList else out := by
  have others : ∀ i, chunkObject (i + 1) = fun part => parseHttpMessage (marker ++ part) := by
    intro i
    funext part
    rw [chunkObject, if_neg fun both => absurd both.1 (Nat.succ_ne_zero i)]
  have mapped : (first :: rest).mapIdx chunkObject =
      chunkObject 0 first :: rest.map fun part => parseHttpMessage (marker ++ part) := by
    rw [List.mapIdx_cons]
    congr 1
    rw [funext others]
    exact List.mapIdx_eq_iff.mpr fun i => List.getElem?_map ..
  have behind : (rest.map fun part => parseHttpMessage (marker ++ part)).filterMap id =
      rest.filterMap fun part => parseHttpMessage (marker ++ part) := by
    rw [List.filterMap_map]
    rfl
  rw [textObjects, parts, mapped, List.filterMap_cons, behind]
  cases chunkObject 0 first <;> rfl

theorem calm_marker {t : List Char} (calm : Calm t) : Calm (marker ++ t) := by
  have marked : Inline marker := by simp [Inline, marker]
  refine List.IsChain.append marked.calm calm fun c last _ _ same => ?_
  cases last
  exact absurd same (by decide)

/-- A message has one part with an empty line, and the response in it is the body behind that
line. -/
theorem partObjects_tail (m : Message) {body : List Char} (quiet : ¬ marker <:+: body) :
    (partObjects (m.tail ++ (crlfTwice ++ body))).map HttpObject.view =
      if body = [] then [] else [⟨false, "", "", Utf8.encode body⟩] := by
  have past : ¬ marker <:+: '\n' :: '\r' :: '\n' :: body := by
    simp only [List.infix_cons_iff, marker, List.cons_prefix_cons]
    simpa [marker] using quiet
  have parted : ∃ parts last, split marker m.tail = parts ++ [last] ∧ last <:+ m.tail ∧
      split marker (m.tail ++ (crlfTwice ++ body)) = parts ++ [last ++ (crlfTwice ++ body)] :=
    split_past (by decide) (by decide) past m.tail
  obtain ⟨parts, last, alone, ends, whole⟩ := parted
  have silent : ∀ part ∈ parts, parseHttpMessage (marker ++ part) = none := by
    intro part member
    have inside : part <:+: m.tail := by
      apply infix_of_mem_split
      rw [alone]
      exact List.mem_append_left _ member
    exact (calm_marker (m.tail_lines.calm.within inside)).parse
  have found : headAndBody (last ++ (crlfTwice ++ body)) = some (last, body) := by
    obtain ⟨front, tail⟩ := ends
    cases end' : last.getLast? with
    | none =>
      rw [List.getLast?_eq_none_iff.mp end', List.nil_append, headAndBody, cut_self (by decide)]
      rfl
    | some e =>
      obtain ⟨calm, d, lastChar, plain⟩ := m.tail_lines
      rw [← tail, List.getLast?_append, end'] at lastChar
      cases lastChar
      exact Lines.headAndBody ⟨(tail ▸ calm).right_of_append, e, end', plain⟩ body
  have early : parts.filterMap (fun part => parseHttpMessage (marker ++ part)) = [] :=
    List.filterMap_eq_nil_iff.mpr silent
  obtain ⟨empty, filled⟩ := parseHttpMessage_marker found
  rw [partObjects, whole, List.filterMap_append, early, List.nil_append]
  split
  · next none => rw [List.filterMap_cons, empty none, List.filterMap_nil, List.map_nil]
  · next some =>
    obtain ⟨o, parsed, view⟩ := filled some
    rw [List.filterMap_cons, parsed, List.filterMap_nil, List.map_singleton, view]

theorem partObjects_append (x r : List Char) :
    partObjects (x ++ (marker ++ r)) = partObjects x ++ partObjects r := by
  rw [partObjects, split_append (by decide) marker_borderless, List.filterMap_append]
  rfl

theorem isRequest_of_marker {t : List Char} {o : HttpObject}
    (parsed : parseHttpMessage (marker ++ t) = some o) : o.isRequest = false := by
  cases found : headAndBody t with
  | none =>
    rw [parseHttpMessage, headAndBody_marker, found] at parsed
    cases parsed
  | some x =>
    obtain ⟨empty, filled⟩ := parseHttpMessage_marker found
    by_cases none : x.2 = []
    · rw [empty none] at parsed
      cases parsed
    · obtain ⟨o', same, view⟩ := filled none
      cases same.symm.trans parsed
      exact congrArg ObjectView.isRequest view

theorem isRequest_of_partObjects {r : List Char} {o : HttpObject} (member : o ∈ partObjects r) :
    o.isRequest = false := by
  obtain ⟨part, _, parsed⟩ := List.mem_filterMap.mp member
  exact isRequest_of_marker parsed

/-- Nothing is found in front of the first marker. -/
theorem textObjects_lead {lead : List Char} (calm : Calm lead) (r : List Char) :
    textObjects (lead ++ (marker ++ r)) =
      if partObjects r = [] then (parseHttpMessage (lead ++ (marker ++ r))).toList
      else partObjects r := by
  obtain ⟨first, rest, parts⟩ : ∃ first rest, split marker lead = first :: rest :=
    List.exists_cons_of_ne_nil (splitFrom_ne_nil 0 [] lead)
  have pieces : ∀ part ∈ first :: rest, Calm part := by
    intro part member
    rw [← parts] at member
    exact calm.within (infix_of_mem_split member)
  have none : chunkObject 0 first = none := by
    have quiet := pieces first List.mem_cons_self
    rw [chunkObject]
    split
    · exact quiet.parse
    · exact (calm_marker quiet).parse
  have silent : rest.filterMap (fun part => parseHttpMessage (marker ++ part)) = [] :=
    List.filterMap_eq_nil_iff.mpr fun part member =>
      (calm_marker (pieces part (List.mem_cons_of_mem first member))).parse
  have whole : split marker (lead ++ (marker ++ r)) = first :: (rest ++ split marker r) := by
    rw [split_append (by decide) marker_borderless, parts]
    rfl
  rw [textObjects_eq whole, none, List.filterMap_append, silent]
  rfl

/-- The data of an object are the octets of a text. -/
theorem valid_of_textObjects {text : List Char} {o : HttpObject} (member : o ∈ textObjects text) :
    Utf8.Valid o.data := by
  have parsed : ∀ {msg : List Char}, parseHttpMessage msg = some o → Utf8.Valid o.data := by
    intro msg parsed
    rw [parseHttpMessage, Option.bind_eq_bind, Option.bind_eq_some_iff] at parsed
    obtain ⟨⟨head, body⟩, _, parsed⟩ := parsed
    dsimp only at parsed
    rw [Option.bind_eq_bind, Option.bind_eq_some_iff] at parsed
    obtain ⟨line, _, parsed⟩ := parsed
    split at parsed
    · cases parsed
    · split at parsed
      · cases parsed
      · exact ⟨body, congrArg HttpObject.data (Option.some.inj parsed)⟩
  have chunk : ∀ {i : Nat} {part : List Char}, chunkObject i part = some o → Utf8.Valid o.data := by
    intro i part found
    rw [chunkObject] at found
    split at found
    · exact parsed found
    · exact parsed found
  rw [textObjects] at member
  split at member
  · exact parsed (Option.mem_toList.mp member)
  · obtain ⟨found, inside, same⟩ := List.mem_filterMap.mp member
    obtain ⟨i, bound, same'⟩ := List.mem_mapIdx.mp inside
    exact chunk (same'.trans same)

/- A request is read back. -/

def lineOf (h : Header) : List Char := h.name.text.toList ++ ':' :: ' ' :: h.value.text.toList

theorem lineOf_inline (h : Header) : Inline (lineOf h) := by
  have colon : Inline [':', ' '] := by simp [Inline]
  exact (inline_of_visible h.name.visible).append (colon.append h.value.inside)

theorem textLines_headers {l : List Char} (inside : Inline l) (nonempty : l ≠ [])
    (headers : List Header) :
    textLines (l ++ headers.flatMap Message.headerText) = l :: headers.map lineOf := by
  have lines : headers.flatMap Message.headerText =
      (headers.map lineOf).flatMap fun x => '\r' :: '\n' :: x := by
    rw [List.flatMap_map]
    rfl
  rw [lines]
  apply textLines_joined
  intro x member
  rcases List.mem_cons.mp member with rfl | later
  · exact ⟨nonempty, fun feed => (inside _ feed).2 rfl⟩
  · obtain ⟨h, _, rfl⟩ := List.mem_map.mp later
    exact ⟨by simp [lineOf], fun feed => (lineOf_inline h _ feed).2 rfl⟩

theorem headerLine_lineOf (h : Header) :
    headerLine (lineOf h) = some (h.name.text, trim h.value.text) := by
  have cut : splitOnce ':' (String.ofList (lineOf h)) =
      some (h.name.text, String.ofList (' ' :: h.value.text.toList)) := by
    have spelled : String.ofList (lineOf h) =
        h.name.text ++ String.ofList [':'] ++ String.ofList (' ' :: h.value.text.toList) := by
      rw [← String.toList_inj]
      simp [lineOf]
    rw [spelled, splitOnce_append (h.name.outside (by decide))]
  have name : trim h.name.text = h.name.text := by
    have tight : BoolText.Tight isWhitespace h.name.text.toList :=
      ⟨⟨_, List.head?_eq_some_head h.name.list_ne_nil, h.name.visible _ (List.head_mem _)⟩,
        ⟨_, List.getLast?_eq_some_getLast h.name.list_ne_nil, h.name.visible _ (List.getLast_mem _)⟩⟩
    have whole := trim_ofList h.name.text.toList
    rwa [tight.trim_eq, String.ofList_toList] at whole
  have value : trim (String.ofList (' ' :: h.value.text.toList)) = trim h.value.text := by
    rw [trim_ofList, BoolText.trim, List.dropWhile_cons_of_pos (by decide)]
    rfl
  rw [headerLine, cut, Option.map_some]
  dsimp only
  rw [name, value]

namespace Message

/-- The first line of a request. -/
def requestLine (method : Token) (target : Target) (minor : Char) : List Char :=
  method.text.toList ++ ' ' :: (target.text.toList ++ ' ' :: (marker ++ [minor]))

variable {m : Message} {method : Token} {target : Target}

theorem head_request (start : m.start = .request method target) :
    m.head = requestLine method target m.minor ++ m.headers.flatMap headerText := by
  simp [head, tail, lead, behind, start, requestLine]

theorem requestLine_inline (start : m.start = .request method target) :
    Inline (requestLine method target m.minor) := by
  have whole : requestLine method target m.minor = m.lead ++ (marker ++ m.minor :: m.behind) := by
    simp [lead, behind, start, requestLine]
  have marked : Inline marker := by simp [Inline, marker]
  rw [whole]
  exact m.lead_inline.append (marked.append m.behind_inline)

theorem requestLine_tight (m : Message) (method : Token) (target : Target) :
    BoolText.Tight isWhitespace (requestLine method target m.minor) := by
  refine ⟨⟨_, ?_, method.visible _ (List.head_mem method.list_ne_nil)⟩, ⟨m.minor, ?_, digit_visible m.digit⟩⟩
  · rw [requestLine, List.head?_append, List.head?_eq_some_head method.list_ne_nil]
    rfl
  · have whole : requestLine method target m.minor =
        (method.text.toList ++ ' ' :: (target.text.toList ++ ' ' :: marker)) ++ [m.minor] := by
      simp [requestLine]
    rw [whole, List.getLast?_concat]
    rfl

theorem requestLine_words (m : Message) (method : Token) (target : Target) :
    splitWhitespace (String.ofList (requestLine method target m.minor)) =
      [method.text, target.text, String.ofList (marker ++ [m.minor])] := by
  have solid : ∀ c ∈ target.text.toList, isWhitespace c = false := target.solid
  have some : target.text.toList ≠ [] := fun none => target.nonempty (String.toList_eq_nil_iff.mp none)
  rw [splitWhitespace_words, requestLine, textWords_append _ (by decide),
    textWords_append _ (by decide), textWords_solid method.list_ne_nil method.visible,
    textWords_solid some solid, textWords_solid (by simp) (version_visible m.digit)]
  simp

theorem requestLine_method (m : Message) (method : Token) (target : Target) :
    hasPrefix (String.ofList (requestLine method target m.minor)) "HTTP/" = false := by
  rw [hasPrefix, String.toList_ofList, Bool.eq_false_iff]
  intro begins
  have front : "HTTP/".toList <+: method.text.toList := by
    have whole := List.isPrefixOf_iff_prefix.mp begins
    rw [String.toList_ofList, requestLine] at whole
    exact (prefix_past_iff (by decide) _).mp whole
  exact method.outside (c := '/') (by decide) (front.subset (by decide))

theorem requestUrl_eq (start : m.start = .request method target) :
    requestUrl target.text (m.host.getD "") = m.url := by
  rw [requestUrl, url, start]
  dsimp only
  split
  · rfl
  · split
    · next some =>
      split
      · next none => exact absurd rfl (none ▸ some)
      · next empty => exact absurd rfl (empty ▸ some)
      · next known =>
        rw [known]
        rfl
    · next none =>
      split
      · rfl
      · rfl
      · next host other known =>
        rw [known] at none
        exact absurd (not_not.mp none) other

/-- Read alone, a request without a body is read as what it is. -/
theorem parse_request (start : m.start = .request method target) (body : List Char) :
    ∃ o, parseHttpMessage (m.head ++ (crlfTwice ++ body)) = some o ∧
      o.view = ⟨true, m.method, m.url, Utf8.encode body⟩ := by
  have nonempty : requestLine method target m.minor ≠ [] := by simp [requestLine]
  have lines : textLines m.head = requestLine method target m.minor :: m.headers.map lineOf := by
    rw [head_request start, textLines_headers (requestLine_inline start) nonempty]
  have headers : (m.headers.map lineOf).filterMap headerLine =
      m.headers.map fun h => (h.name.text, trim h.value.text) := by
    have each : headerLine ∘ lineOf = some ∘ fun h => (h.name.text, trim h.value.text) := by
      funext h
      rw [Function.comp_apply, headerLine_lineOf, Function.comp_apply]
    rw [List.filterMap_map, each, List.filterMap_eq_map]
  have host : (((m.headers.map fun h => (h.name.text, trim h.value.text)).find? fun header =>
      eqIgnoreAsciiCase header.1 "host").map (·.2)) = m.host := by
    rw [List.find?_map, Option.map_map]
    rfl
  have first : trim (String.ofList (requestLine method target m.minor)) =
      String.ofList (requestLine method target m.minor) := by
    rw [trim_ofList, (requestLine_tight m method target).trim_eq]
  have shown : String.ofList (requestLine method target m.minor) ≠ "" := by
    intro none
    rw [← String.toList_inj, String.toList_ofList] at none
    exact nonempty none
  rw [parseHttpMessage, m.head_lines.headAndBody]
  simp only [Option.bind_eq_bind, Option.bind_some, lines, List.head?_cons, first, if_neg shown,
    requestLine_method, requestLine_words, List.tail_cons, headers]
  refine ⟨_, rfl, ?_⟩
  rw [HttpObject.view, host, Message.method, start, ← requestUrl_eq start]
  rfl

end Message

/- Streams of messages with texts in their bodies. -/

namespace Message

variable (m : Message)

def bodyText : List Char := (fromUtf8Lossy m.body.bytes).toList

def text : List Char := m.head ++ (crlfTwice ++ m.bodyText)

variable {m}

theorem encode_bodyText (valid : Utf8.Valid m.body.bytes) : Utf8.encode m.bodyText = m.body.bytes := by
  obtain ⟨t, octets⟩ := valid
  rw [bodyText, ← octets, fromUtf8Lossy_encode, String.toList_ofList]

theorem encode_text (valid : Utf8.Valid m.body.bytes) : Utf8.encode m.text = m.wire := by
  rw [text, wire, ← List.append_assoc, Utf8.encode_append, encode_bodyText valid]

theorem bodyText_quiet (valid : Utf8.Valid m.body.bytes) : ¬ marker <:+: m.bodyText := by
  intro inside
  apply m.body.quiet
  rw [← encode_bodyText valid]
  exact Utf8.infix_encode inside

theorem partObjects_body (valid : Utf8.Valid m.body.bytes) :
    (partObjects (m.tail ++ (crlfTwice ++ m.bodyText))).map HttpObject.view =
      if m.body.bytes = [] then [] else [⟨false, "", "", m.body.bytes⟩] := by
  have empty : m.bodyText = [] ↔ m.body.bytes = [] := by
    rw [← encode_bodyText valid]
    exact ⟨fun none => by rw [none]; rfl, Utf8.encode_eq_nil⟩
  rw [partObjects_tail m (bodyText_quiet valid), encode_bodyText valid]
  simp only [empty]

end Message

theorem extract_text {ms : List Message} (valid : ∀ m ∈ ms, Utf8.Valid m.body.bytes) :
    extractHttpObjects (stream ms) = textObjects (ms.flatMap Message.text) := by
  have octets : Utf8.encode (ms.flatMap Message.text) = stream ms := by
    rw [Utf8.encode, List.flatMap_assoc]
    exact List.flatMap_congr fun m member => Message.encode_text (valid m member)
  rw [extractHttpObjects, ← octets, fromUtf8Lossy_encode, String.toList_ofList]

theorem exists_response {m : Message} (response : m.isRequest = false) :
    ∃ status reason, m.start = .response status reason := by
  unfold Message.isRequest at response
  split at response
  · cases response
  · next status reason start => exact ⟨status, reason, start⟩

theorem exists_request {m : Message} (request : m.isRequest = true) :
    ∃ method target, m.start = .request method target := by
  unfold Message.isRequest at request
  split at request
  · next method target start => exact ⟨method, target, start⟩
  · cases request

theorem response_text {m : Message} (response : m.isRequest = false) :
    m.text = marker ++ (m.tail ++ (crlfTwice ++ m.bodyText)) := by
  obtain ⟨status, reason, start⟩ := exists_response response
  have lead : m.lead = [] := by rw [Message.lead, start]
  rw [Message.text, Message.head, lead, List.nil_append, List.append_assoc]

theorem response_object {m : Message} (valid : Utf8.Valid m.body.bytes)
    (response : m.isRequest = false) :
    (partObjects (m.tail ++ (crlfTwice ++ m.bodyText))).map HttpObject.view = [m.view] := by
  obtain ⟨status, reason, start⟩ := exists_response response
  rw [Message.partObjects_body valid, if_neg (m.filled status reason start), Message.view,
    Message.isRequest, Message.method, Message.url, start]

/-- The parts behind the messages of a stream of responses. -/
theorem partObjects_responses {ms : List Message} (valid : ∀ m ∈ ms, Utf8.Valid m.body.bytes)
    (responses : ∀ m ∈ ms, m.isRequest = false) (x : List Char) :
    (partObjects (x ++ ms.flatMap Message.text)).map HttpObject.view =
      (partObjects x).map HttpObject.view ++ ms.map Message.view := by
  induction ms generalizing x with
  | nil => rw [List.flatMap_nil, List.append_nil, List.map_nil, List.append_nil]
  | cons m rest ih =>
    have head := responses m List.mem_cons_self
    have known := valid m List.mem_cons_self
    have later := ih (fun m member => valid m (List.mem_cons_of_mem _ member))
      (fun m member => responses m (List.mem_cons_of_mem _ member))
    rw [List.flatMap_cons, response_text head, List.append_assoc marker, partObjects_append,
      List.map_append, later, response_object known head]
    rfl

theorem extracted_responses {ms : List Message} (valid : ∀ m ∈ ms, Utf8.Valid m.body.bytes)
    (responses : ∀ m ∈ ms, m.isRequest = false) : Extracted ms := by
  rw [Extracted, extract_text valid]
  cases ms with
  | nil => decide
  | cons m rest =>
    have head := responses m List.mem_cons_self
    have known := valid m List.mem_cons_self
    have views : (partObjects ((m.tail ++ (crlfTwice ++ m.bodyText)) ++
        rest.flatMap Message.text)).map HttpObject.view = (m :: rest).map Message.view := by
      rw [partObjects_responses (fun m member => valid m (List.mem_cons_of_mem _ member))
        (fun m member => responses m (List.mem_cons_of_mem _ member)), response_object known head]
      rfl
    have whole : (m :: rest).flatMap Message.text = [] ++ (marker ++
        ((m.tail ++ (crlfTwice ++ m.bodyText)) ++ rest.flatMap Message.text)) := by
      rw [List.flatMap_cons, response_text head, List.nil_append, List.append_assoc marker]
    have calm : Calm [] := .nil
    rw [whole, textObjects_lead calm, if_neg, views]
    intro none
    rw [none] at views
    cases views

theorem extracted_request {m : Message} (request : m.isRequest = true) (empty : m.body.bytes = []) :
    Extracted [m] := by
  obtain ⟨method, target, start⟩ := exists_request request
  have valid : ∀ m' ∈ [m], Utf8.Valid m'.body.bytes := by
    intro m' member
    rw [List.mem_singleton.mp member, empty]
    exact ⟨[], rfl⟩
  have known := valid m List.mem_cons_self
  have none : partObjects (m.tail ++ (crlfTwice ++ m.bodyText)) = [] := by
    have views := Message.partObjects_body known
    rw [if_pos empty] at views
    exact List.map_eq_nil_iff.mp views
  obtain ⟨o, parsed, view⟩ := Message.parse_request start m.bodyText
  have whole : [m].flatMap Message.text =
      m.lead ++ (marker ++ (m.tail ++ (crlfTwice ++ m.bodyText))) := by
    rw [List.flatMap_singleton, Message.text, Message.head, List.append_assoc, List.append_assoc]
  have text : m.lead ++ (marker ++ (m.tail ++ (crlfTwice ++ m.bodyText))) =
      m.head ++ (crlfTwice ++ m.bodyText) := by
    rw [Message.head, List.append_assoc, List.append_assoc]
  rw [Extracted, extract_text valid, whole, textObjects_lead m.lead_inline.calm, if_pos none, text, parsed,
    Option.toList_some, List.map_singleton, view, Message.encode_bodyText known, List.map_singleton,
    Message.view, request]

/-- The messages of a stream are found exactly when their bodies are texts and all are responses,
or when there is one request only and it has no body. -/
theorem http_objects_iff (ms : List Message) : Extracted ms ↔
    (∀ m ∈ ms, m.isRequest = false ∧ Utf8.Valid m.body.bytes) ∨
      ∃ m, ms = [m] ∧ m.isRequest = true ∧ m.body.bytes = [] := by
  constructor
  · intro extracted
    have valid : ∀ m ∈ ms, Utf8.Valid m.body.bytes := by
      intro m member
      have found := List.mem_map_of_mem (f := Message.view) member
      rw [← extracted] at found
      obtain ⟨o, inside, same⟩ := List.mem_map.mp found
      have data : o.data = m.body.bytes := congrArg ObjectView.body same
      rw [← data]
      exact valid_of_textObjects inside
    cases ms with
    | nil => exact .inl (List.forall_mem_nil _)
    | cons m rest =>
      have whole : (m :: rest).flatMap Message.text = m.lead ++ (marker ++
          ((m.tail ++ (crlfTwice ++ m.bodyText)) ++ rest.flatMap Message.text)) := by
        rw [List.flatMap_cons, Message.text, Message.head]
        simp only [List.append_assoc]
      rw [Extracted, extract_text valid, whole, textObjects_lead m.lead_inline.calm] at extracted
      split at extracted
      · next none =>
        have alone : rest = [] := by
          have lengths := congrArg List.length extracted
          rw [List.length_map, List.length_map, List.length_cons] at lengths
          have most := Option.length_toList_le (o := parseHttpMessage (m.lead ++ (marker ++
            ((m.tail ++ (crlfTwice ++ m.bodyText)) ++ rest.flatMap Message.text))))
          exact List.length_eq_zero_iff.mp (by omega)
        subst alone
        cases request : m.isRequest with
        | false =>
          exact .inl (List.forall_mem_singleton.mpr ⟨request, valid m List.mem_cons_self⟩)
        | true =>
          refine .inr ⟨m, rfl, request, ?_⟩
          rw [List.flatMap_nil, List.append_nil] at none
          have views := Message.partObjects_body (valid m List.mem_cons_self)
          rw [none] at views
          by_contra filled
          rw [if_neg filled] at views
          cases views
      · refine .inl fun m' member => ⟨?_, valid m' member⟩
        have found := List.mem_map_of_mem (f := Message.view) member
        rw [← extracted] at found
        obtain ⟨o, inside, same⟩ := List.mem_map.mp found
        have kind : o.isRequest = m'.isRequest := congrArg ObjectView.isRequest same
        rw [← kind]
        exact isRequest_of_partObjects inside
  · rintro (all | ⟨m, rfl, request, empty⟩)
    · exact extracted_responses (fun m member => (all m member).2) fun m member => (all m member).1
    · exact extracted_request request empty

/- An exchange, and two requests. -/

def demoToken (text : String) (nonempty : text ≠ "") (chars : text.toList.all tokenChar = true) : Token :=
  ⟨text, nonempty, List.all_eq_true.mp chars⟩

/-- `GET / HTTP/1.1` without headers. -/
def getRoot : Message where
  start := .request (demoToken "GET" (by decide) (by decide)) ⟨"/", by decide, by simp [isWhitespace]⟩
  minor := '1'
  digit := by decide
  headers := []
  body := ⟨[], by decide⟩
  filled := by
    intro status reason other
    cases other

/-- `HTTP/1.1 200 OK` with a body of two octets. -/
def okHi : Message where
  start := .response 200 ⟨"OK", by simp⟩
  minor := '1'
  digit := by decide
  headers := []
  body := ⟨[0x68, 0x69], by decide⟩
  filled := fun _ _ _ => List.cons_ne_nil _ _

/-- Of a request and its response the response is found, and of two requests a response with the
start of the second one as its body. -/
theorem requests_are_lost :
    ((extractHttpObjects (stream [getRoot, okHi])).map HttpObject.view = [okHi.view] ∧
      ¬ Extracted [getRoot, okHi]) ∧
      (extractHttpObjects (stream [getRoot, getRoot])).map HttpObject.view =
          [⟨false, "", "", Utf8.encode "GET / ".toList⟩] ∧
        ¬ Extracted [getRoot, getRoot] := by
  have exchange : (extractHttpObjects (stream [getRoot, okHi])).map HttpObject.view =
      [okHi.view] := by decide +kernel
  have twice : (extractHttpObjects (stream [getRoot, getRoot])).map HttpObject.view =
      [⟨false, "", "", Utf8.encode "GET / ".toList⟩] := by decide +kernel
  refine ⟨⟨exchange, ?_⟩, twice, ?_⟩
  · rw [Extracted, exchange]
    decide
  · rw [Extracted, twice]
    decide

end BitBeak
