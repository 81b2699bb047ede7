import BitBeak.Capture.CapParse
import BitBeak.Dissect.Expert
import BitBeak.Lib.BoolTextExact
import BitBeak.Lib.Occurrence

/-! The display filters and `parse_display_filter`. Regular expressions are a parameter. -/
namespace BitBeak.DispFilter
open BoolText Wire

inductive Cmp where
  | eq
  | ne
  | lt
  | gt
  | le
  | ge
  deriving DecidableEq, Repr

inductive FieldSlice where
  | index (i : Nat)
  | range (start stop : Nat)
  deriving DecidableEq, Repr

inductive DisplayFilter (R : Type) where
  | true
  | proto (p : String)
  | ipAddr (a : String)
  | tcpPort (p : UInt16)
  | udpPort (p : UInt16)
  | fieldEq (field : String) (slice : Option FieldSlice) (val : String)
  | fieldContains (field : String) (slice : Option FieldSlice) (val : String)
  | fieldMatches (field : String) (re : R)
  | frameLen (op : Cmp) (val : Nat)
  | expertSeverity (sev : ExpertSeverity)
  | and (a b : DisplayFilter R)
  | or (a b : DisplayFilter R)
  | not (a : DisplayFilter R)
  deriving DecidableEq, Repr

/-- `outOfFuel` is not in the source. -/
inductive DispFilterError where
  | parse (text : String)
  | outOfFuel
  deriving DecidableEq, Repr

/- Texts. -/

def isQuote (c : Char) : Bool := c == '"'

/-- What stands in front of a first occurrence, and what stands behind it. -/
def find (pat : Text) : Text → Option (Text × Text)
  | [] => none
  | c :: rest =>
    if pat.isPrefixOf (c :: rest) then some ([], (c :: rest).drop pat.length)
    else (find pat rest).map fun (front, behind) => (c :: front, behind)

def stripFront (pat s : Text) : Option Text :=
  if pat.isPrefixOf s then some (s.drop pat.length) else none

def unquote (s : Text) : String :=
  String.ofList (BoolText.trim isQuote (BoolText.trim isWhitespace s))

def trimEqEq : Text → Text
  | '=' :: '=' :: rest => trimEqEq rest
  | s => s

/-- The value behind any number of equals signs. -/
def behindEq (rest : Text) : Text :=
  BoolText.trim isWhitespace ((trimEqEq (BoolText.trim isWhitespace rest)).dropWhile (· == '='))

/- The atoms. -/

def parsedNum (limit : Nat) (s : Text) : Except DispFilterError Nat :=
  (parseInt limit (String.ofList s)).mapError fun e => .parse e.text

def parseEqStr (rest : Text) : Except DispFilterError String :=
  let v := BoolText.trim isQuote (behindEq rest)
  if v = [] then .error (.parse "missing value") else .ok (String.ofList v)

def parseEqU16 (rest : Text) : Except DispFilterError UInt16 := do
  return UInt16.ofNat (← parsedNum (2 ^ 16) (behindEq rest))

def cmpWords : List (Text × Cmp) :=
  [(['=', '='], .eq), (['!', '='], .ne), (['<', '='], .le), (['>', '='], .ge), (['<'], .lt),
    (['>'], .gt), (['='], .eq)]

def parseCmpUsize (rest : Text) : Except DispFilterError (Cmp × Nat) :=
  let rest := BoolText.trim isWhitespace rest
  match cmpWords.findSome? fun (word, op) => (stripFront word rest).map fun v => (op, v) with
  | none => .error (.parse ("bad cmp: " ++ String.ofList rest))
  | some (op, v) => do return (op, ← parsedNum (2 ^ 64) (BoolText.trim isWhitespace v))

def parseSeverity (rest : Text) : Except DispFilterError ExpertSeverity :=
  let v := String.ofList (behindEq rest)
  match toAsciiLowercase v with
  | "error" => .ok .error
  | "warn" | "warning" => .ok .warn
  | "note" => .ok .note
  | "comment" => .ok .comment
  | _ => .error (.parse ("unknown expert.severity " ++ v))

/-- The operators between a field and its value, in the order in which they are looked for. -/
inductive FieldOp where
  | contains
  | matching
  | eqEq
  | eq
  deriving DecidableEq, Repr

def FieldOp.word : FieldOp → Text
  | contains => [' ', 'c', 'o', 'n', 't', 'a', 'i', 'n', 's', ' ']
  | matching => [' ', 'm', 'a', 't', 'c', 'h', 'e', 's', ' ']
  | eqEq => ['=', '=']
  | eq => ['=']

def FieldOp.cut (op : FieldOp) (s : Text) : Option (Text × FieldOp × Text) :=
  (find op.word s).map fun (field, val) =>
    (BoolText.trim isWhitespace field, op, BoolText.trim isWhitespace val)

def parseFieldOp (s : Text) : Option (Text × FieldOp × Text) :=
  [FieldOp.contains, .matching, .eqEq, .eq].findSome? fun op => op.cut s

def parseFieldRef (raw : Text) : Except DispFilterError (String × Option FieldSlice) :=
  let raw := BoolText.trim isWhitespace raw
  let bad : DispFilterError := .parse ("bad field slice: " ++ String.ofList raw)
  match find ['['] raw with
  | none => .ok (String.ofList raw, none)
  | some (base, behind) =>
    let base := BoolText.trim isWhitespace base
    if raw.getLast? ≠ some ']' then .error bad
    else if base = [] then .error bad
    else
      let inner := BoolText.trim isWhitespace behind.dropLast
      match find [':'] inner with
      | some (start, stop) => do
        let start ← parsedNum (2 ^ 64) (BoolText.trim isWhitespace start)
        let stop ← parsedNum (2 ^ 64) (BoolText.trim isWhitespace stop)
        return (String.ofList base, some (.range start stop))
      | none => do return (String.ofList base, some (.index (← parsedNum (2 ^ 64) inner)))

def protoNames : List String :=
  ["http2", "http", "dns", "mdns", "llmnr", "dhcp", "tcp", "udp", "tls", "websocket", "sip", "rtp",
    "quic", "wifi", "wlan", "802.11", "arp", "icmp", "ipv6", "ip"]

/- The parser. -/

section

variable {R : Type} (regexNew : String → Except String R)

def fieldFilter (raw : Text) (op : FieldOp) (val : Text) :
    Except DispFilterError (DisplayFilter R) := do
  let (field, slice) ← parseFieldRef raw
  match op with
  | .contains => return .fieldContains field slice (unquote val)
  | .matching =>
    match regexNew (String.ofList val) with
    | .ok re => return .fieldMatches field re
    | .error e => throw (.parse ("regex: " ++ e))
  | _ => return .fieldEq field slice (unquote val)

/-- The atoms that a field and an operator do not make. -/
def parseRest (s : Text) : Except DispFilterError (DisplayFilter R) :=
  match stripFront "frame.len".toList s with
  | some rest => do
    let (op, val) ← parseCmpUsize rest
    return .frameLen op val
  | none =>
    match stripFront "expert.severity".toList s with
    | some rest => do return .expertSeverity (← parseSeverity rest)
    | none => .error (.parse ("unknown: " ++ String.ofList s))

/-- The names that are looked for in front, and what is made of the text behind them. -/
def ownAtoms : List (String × (Text → Except DispFilterError (DisplayFilter R))) :=
  [("ip.addr", fun rest => do return .ipAddr (← parseEqStr rest)),
    ("ipv6.addr", fun rest => do return .ipAddr (← parseEqStr rest)),
    ("tcp.port", fun rest => do return .tcpPort (← parseEqU16 rest)),
    ("udp.port", fun rest => do return .udpPort (← parseEqU16 rest))]

def parseNamed (s : Text) : Option (Except DispFilterError (DisplayFilter R)) :=
  match protoNames.find? fun p => eqIgnoreAsciiCase (String.ofList s) p with
  | some p => some (.ok (.proto p))
  | none => ownAtoms.findSome? fun (name, make) => (stripFront name.toList s).map make

def parseAtom (s : Text) : Except DispFilterError (DisplayFilter R) :=
  let s := BoolText.trim isWhitespace s
  match parseNamed s with
  | some filter => filter
  | none =>
    match parseFieldOp s with
    | some (field, op, val) => fieldFilter regexNew field op val
    | none => parseRest s

def dispReader : Reader (DisplayFilter R) DispFilterError where
  white := isWhitespace
  atom := parseAtom regexNew
  or := .or
  and := .and
  not := .not
  exhausted := .outOfFuel

def parseNot (fuel : Nat) (s : Text) : Except DispFilterError (DisplayFilter R) :=
  (dispReader regexNew).readNot fuel s

def parseAnd (fuel : Nat) (s : Text) : Except DispFilterError (DisplayFilter R) :=
  (dispReader regexNew).readAnd (parseNot regexNew fuel) s

def parseOr (fuel : Nat) (s : Text) : Except DispFilterError (DisplayFilter R) :=
  (dispReader regexNew).readOr (parseNot regexNew fuel) s

def parseDisplayFilter (input : String) : Except DispFilterError (DisplayFilter R) :=
  let s := BoolText.trim isWhitespace input.toList
  if s = [] then .ok .true else parseOr regexNew (s.length + 1) s

end

/- The atoms whose values are quoted. -/

def fieldChar (c : Char) : Bool := !(isWhitespace c || ['"', '(', ')', '[', '='].contains c)

/-- A name of a field: no white space, quotes, parentheses, slices or equals signs. -/
structure FieldName where
  name : String
  nonempty : name.toList ≠ []
  chars : ∀ c ∈ name.toList, fieldChar c = true

/-- Any text without a double quote. -/
structure QuotedText where
  text : String
  unquoted : '"' ∉ text.toList

inductive DispAtom where
  | eq (field : FieldName) (val : QuotedText)
  | contains (field : FieldName) (val : QuotedText)

namespace DispAtom

def field : DispAtom → FieldName
  | eq f _ => f
  | contains f _ => f

def val : DispAtom → QuotedText
  | eq _ v => v
  | contains _ v => v

/-- The operator and the blanks around it. -/
def opText : DispAtom → Text
  | eq _ _ => [' ', '=', '=', ' ']
  | contains _ _ => FieldOp.contains.word

/-- `field == "v"` and `field contains "v"`. -/
def text (x : DispAtom) : Text :=
  x.field.name.toList ++ x.opText ++ '"' :: (x.val.text.toList ++ ['"'])

def filter {R : Type} : DispAtom → DisplayFilter R
  | eq f v => .fieldEq f.name none v.text
  | contains f v => .fieldContains f.name none v.text

end DispAtom

/-- The filter of an expression. -/
def DisplayFilter.ofExpr {R : Type} : BoolExpr DispAtom → DisplayFilter R
  | .atom x => x.filter
  | .or a b => .or (ofExpr a) (ofExpr b)
  | .and a b => .and (ofExpr a) (ofExpr b)
  | .not a => .not (ofExpr a)

/-- The text of an expression. -/
def filterText (e : BoolExpr DispAtom) : String := String.ofList (e.print DispAtom.text .alone)

/- What the parser takes for something else. -/

def ownNames : List String := ["ip.addr", "ipv6.addr", "tcp.port", "udp.port"]

/-- The field is not the word `not`, and begins like none that has atoms of its own. -/
structure FieldName.Plain (f : FieldName) : Prop where
  word : f.name ≠ "not"
  own : ∀ p ∈ ownNames, ¬ p.toList.isPrefixOf f.name.toList = true

/-- No operator is found in a value in front of the operator of the atom. -/
def DispAtom.Plain : DispAtom → Prop
  | eq f v => f.Plain ∧ ¬ FieldOp.contains.word <:+: v.text.toList ∧
      ¬ FieldOp.matching.word <:+: v.text.toList
  | contains f _ => f.Plain

/- Occurrences. -/

theorem find_eq_cut (pat s : Text) : find pat s = Occurrence.cut pat s := by
  induction s with
  | nil => rfl
  | cons c rest ih => rw [find, Occurrence.cut, ih]

theorem find_front {c : Char} {pat front : Text} (outside : c ∉ front) (behind : Text) :
    find (c :: pat) (front ++ (c :: pat) ++ behind) = some (front, behind) := by
  rw [find_eq_cut, List.append_assoc, Occurrence.cut_outside outside,
    Occurrence.cut_self (List.cons_ne_nil c pat), Option.map_some, List.append_nil]

theorem find_some {pat s front behind : Text} (found : find pat s = some (front, behind)) :
    s = front ++ pat ++ behind := by
  rw [find_eq_cut] at found
  rw [Occurrence.eq_of_cut found, List.append_assoc]

theorem find_none_iff {pat s : Text} (some : pat ≠ []) : find pat s = none ↔ ¬ pat <:+: s := by
  rw [find_eq_cut, Occurrence.cut_eq_none_iff some]

/- The text of an atom. -/

namespace FieldName

variable (f : FieldName)

theorem outside {c : Char} (other : fieldChar c = false) : c ∉ f.name.toList := fun member =>
  Bool.false_ne_true (other.symm.trans (f.chars c member))

theorem visible : ∀ c ∈ f.name.toList, isWhitespace c = false := by
  intro c member
  have char := f.chars c member
  rw [fieldChar, Bool.not_eq_true', Bool.or_eq_false_iff] at char
  exact char.1

/-- What is looked for in front, and has no blank, is in front of the first blank. -/
theorem prefix_blank {pat : Text} (solid : ' ' ∉ pat) (rest : Text) :
    pat <+: f.name.toList ++ ' ' :: rest ↔ pat <+: f.name.toList :=
  Occurrence.prefix_past_iff solid rest

theorem notWord_blank (rest : Text) :
    notWord.isPrefixOf (f.name.toList ++ ' ' :: rest) = true ↔ f.name = "not" := by
  rw [List.isPrefixOf_iff_prefix]
  constructor
  · intro begins
    have word : ['n', 'o', 't'] <+: f.name.toList :=
      (f.prefix_blank (by decide) rest).mp (List.IsPrefix.trans ⟨[' '], rfl⟩ begins)
    obtain ⟨more, same⟩ := word
    rw [← same] at begins
    cases more with
    | nil => rw [← String.toList_inj, ← same]; rfl
    | cons c more =>
      have blank : ' ' = c := by
        obtain ⟨behind, whole⟩ := begins
        have same : ['n', 'o', 't'] ++ ' ' :: behind =
            ['n', 'o', 't'] ++ c :: (more ++ ' ' :: rest) := whole
        exact (List.cons.inj (List.append_cancel_left same)).1
      exact absurd (same ▸ List.mem_append_right _ (blank ▸ List.mem_cons_self))
        (f.outside (c := ' ') (by decide))
  · intro same
    rw [same]
    exact ⟨rest, rfl⟩

theorem tight : Tight isWhitespace f.name.toList :=
  ⟨⟨_, List.head?_eq_some_head f.nonempty, f.visible _ (List.head_mem f.nonempty)⟩,
    ⟨_, List.getLast?_eq_some_getLast f.nonempty, f.visible _ (List.getLast_mem f.nonempty)⟩⟩

end FieldName

theorem trim_blank {t : Text} (tight : Tight isWhitespace t) :
    BoolText.trim isWhitespace (t ++ [' ']) = t := by
  have same := tight.trim_eq
  obtain ⟨c, head, visible⟩ := tight.first
  cases t with
  | nil => cases head
  | cons b rest =>
    cases head
    have shows : ¬ isWhitespace c = true := ne_true_of_eq_false visible
    rw [BoolText.trim, List.dropWhile_cons_of_neg shows] at same
    rw [BoolText.trim, List.cons_append, List.dropWhile_cons_of_neg shows, ← List.cons_append,
      List.rdropWhile_concat_pos _ _ _ (by decide), same]

theorem quoted_tight (v : Text) : Tight isWhitespace ('"' :: (v ++ ['"'])) := by
  refine ⟨⟨'"', rfl, by decide⟩, ⟨'"', ?_, by decide⟩⟩
  rw [List.getLast?_cons, List.getLast?_concat]
  rfl

theorem trim_blank_cons (t : Text) :
    BoolText.trim isWhitespace (' ' :: t) = BoolText.trim isWhitespace t := by
  rw [BoolText.trim, List.dropWhile_cons_of_pos (by decide)]
  rfl

theorem trim_quoted (v : Text) :
    BoolText.trim isWhitespace (' ' :: '"' :: (v ++ ['"'])) = '"' :: (v ++ ['"']) := by
  rw [trim_blank_cons, (quoted_tight v).trim_eq]

theorem unquote_quoted (v : QuotedText) : unquote ('"' :: (v.text.toList ++ ['"'])) = v.text := by
  have quotes : ∀ c ∈ v.text.toList, isQuote c = false := by
    intro c member
    exact beq_eq_false_iff_ne.mpr fun same => v.unquoted (same ▸ member)
  rw [unquote, (quoted_tight _).trim_eq, BoolText.trim, List.dropWhile_cons_of_pos (by decide)]
  cases h : v.text.toList with
  | nil => rw [← String.toList_inj, h]; decide
  | cons c rest =>
    rw [h] at quotes
    have first : isQuote c = false := quotes c List.mem_cons_self
    rw [List.cons_append, List.dropWhile_cons_of_neg (by rw [first]; decide), ← List.cons_append,
      List.rdropWhile_concat_pos _ _ _ (by decide), List.rdropWhile_eq_self_iff.mpr, ← h,
      String.ofList_toList]
    intro nonempty
    rw [quotes _ (List.getLast_mem nonempty)]
    decide

namespace DispAtom

variable (x : DispAtom)

theorem text_last : x.text.getLast? = some '"' := by
  rw [text, List.getLast?_append, List.getLast?_cons, List.getLast?_concat]
  rfl

theorem text_tight : Tight isWhitespace x.text := by
  rw [text]
  exact x.field.tight.append (quoted_tight _) _

/-- The field stands in front of the first blank. -/
theorem text_split : ∃ rest, x.text = x.field.name.toList ++ ' ' :: rest := by
  cases x with
  | eq f v => exact ⟨_, by rw [text, opText, List.append_assoc]; rfl⟩
  | contains f v => exact ⟨_, by rw [text, opText, List.append_assoc]; rfl⟩

theorem notWord_text : notWord.isPrefixOf x.text = true ↔ x.field.name = "not" := by
  obtain ⟨rest, whole⟩ := x.text_split
  rw [whole, x.field.notWord_blank]

end DispAtom


/- What the parser makes of the text of an atom. -/

section

variable {R : Type} {regexNew : String → Except String R}

/-- The filters of protocols, addresses and ports. -/
def DisplayFilter.Named : DisplayFilter R → Prop
  | .proto _ | .ipAddr _ | .tcpPort _ | .udpPort _ => True
  | _ => False

/-- No connective and not the empty filter. -/
def DisplayFilter.Atomic : DisplayFilter R → Prop
  | .true | .and _ _ | .or _ _ | .not _ => False
  | _ => True

theorem parseNamed_named {s : Text} {v : DisplayFilter R}
    (named : parseNamed s = some (.ok v)) : v.Named := by
  rw [parseNamed] at named
  split at named
  · cases named
    trivial
  · obtain ⟨⟨name, make⟩, member, stripped⟩ := List.exists_of_findSome?_eq_some named
    obtain ⟨rest, _, made⟩ := Option.map_eq_some_iff.mp stripped
    have all : ∀ own ∈ ownAtoms (R := R), ∀ rest v, own.2 rest = .ok v → v.Named := by
      simp only [ownAtoms, List.forall_mem_cons, List.not_mem_nil, false_implies, implies_true,
        and_true]
      refine ⟨?_, ?_, ?_, ?_⟩ <;>
        · intro rest v made
          obtain ⟨_, _, made⟩ := ok_of_bind made
          cases made
          trivial
    exact all _ member rest v made

theorem not_proto {s : Text} (blank : ' ' ∈ s) :
    protoNames.find? (fun p => eqIgnoreAsciiCase (String.ofList s) p) = none := by
  rw [List.find?_eq_none]
  intro p member same
  have solid : ∀ p ∈ protoNames, ' ' ∉ p.toList.map Char.toLower := by decide +kernel
  apply solid p member
  rw [← beq_iff_eq.mp same, String.toList_ofList]
  exact List.mem_map.mpr ⟨' ', blank, by decide⟩

theorem parseNamed_blank (f : FieldName) (rest : Text) :
    parseNamed (R := R) (f.name.toList ++ ' ' :: rest) = none ↔
      ∀ p ∈ ownNames, ¬ p.toList.isPrefixOf f.name.toList = true := by
  have solid : ∀ p ∈ ownNames, ' ' ∉ p.toList := by decide +kernel
  have names : ownNames = (ownAtoms (R := R)).map Prod.fst := rfl
  rw [parseNamed, not_proto (List.mem_append_right _ List.mem_cons_self)]
  simp only [List.findSome?_eq_none_iff, Option.map_eq_none_iff, stripFront]
  rw [names, List.forall_mem_map]
  refine forall₂_congr fun own member => ?_
  have blank := solid own.1 (names ▸ List.mem_map_of_mem member)
  have same : own.1.toList.isPrefixOf (f.name.toList ++ ' ' :: rest) = true ↔
      own.1.toList.isPrefixOf f.name.toList = true := by
    rw [List.isPrefixOf_iff_prefix, List.isPrefixOf_iff_prefix, f.prefix_blank blank]
  simp only [ite_eq_right_iff, reduceCtorEq, imp_false, same]

theorem parseNamed_text (x : DispAtom) : parseNamed (R := R) x.text = none ↔
    ∀ p ∈ ownNames, ¬ p.toList.isPrefixOf x.field.name.toList = true := by
  obtain ⟨rest, whole⟩ := x.text_split
  rw [whole, parseNamed_blank]

theorem parseFieldRef_name (f : FieldName) : parseFieldRef f.name.toList = .ok (f.name, none) := by
  have none : find ['['] f.name.toList = none := by
    rw [find_none_iff (List.cons_ne_nil _ _)]
    intro inside
    exact f.outside (c := '[') (by decide) (inside.subset List.mem_cons_self)
  rw [parseFieldRef, f.tight.trim_eq, none]
  dsimp only
  rw [String.ofList_toList]

/-- A word between two blanks is not found in front of the value. -/
theorem infix_eq {pat : Text} (f : FieldName) (v : QuotedText) (quotes : '"' ∉ pat)
    (equals : '=' ∉ pat) (blanks : 2 ≤ pat.count ' ') (inside : pat <:+: (DispAtom.eq f v).text) :
    pat <:+: v.text.toList := by
  have single : ∀ t : Text, t.count ' ' ≤ 1 → ¬ pat <:+: t := by
    intro t few inside
    have most := inside.sublist.count_le ' '
    omega
  have spelled : (DispAtom.eq f v).text =
      (f.name.toList ++ [' ']) ++ '=' :: ([] ++ '=' :: [' ']) ++
        '"' :: (v.text.toList ++ ['"']) := by
    simp [DispAtom.text, DispAtom.opText, DispAtom.field, DispAtom.val]
  rw [spelled] at inside
  rcases Occurrence.infix_append_cons quotes inside with front | behind
  · exfalso
    rcases Occurrence.infix_append_cons equals front with front | behind
    · refine single _ ?_ front
      rw [List.count_append, List.count_eq_zero.mpr (f.outside (by decide))]
      decide
    · rcases Occurrence.infix_append_cons equals behind with front | behind
      · exact single _ (by decide) front
      · exact single _ (by decide) behind
  · rcases Occurrence.infix_append_cons quotes behind with value | none
    · exact value
    · exact absurd none (single _ (by decide))

theorem cut_word {op : FieldOp} {s front behind : Text}
    (found : find op.word s = some (front, behind)) :
    op.cut s = some (BoolText.trim isWhitespace front, op, BoolText.trim isWhitespace behind) := by
  rw [FieldOp.cut, found]
  rfl

theorem cut_none_iff {op : FieldOp} {s : Text} : op.cut s = none ↔ ¬ op.word <:+: s := by
  rw [FieldOp.cut, Option.map_eq_none_iff, find_none_iff]
  cases op <;> exact List.cons_ne_nil _ _

theorem cut_contains (f : FieldName) (v : QuotedText) :
    FieldOp.contains.cut (DispAtom.contains f v).text =
      some (f.name.toList, .contains, '"' :: (v.text.toList ++ ['"'])) := by
  have found : find FieldOp.contains.word (DispAtom.contains f v).text =
      some (f.name.toList, '"' :: (v.text.toList ++ ['"'])) :=
    find_front (f.outside (c := ' ') (by decide)) _
  rw [cut_word found, f.tight.trim_eq, (quoted_tight _).trim_eq]

theorem cut_eqEq (f : FieldName) (v : QuotedText) :
    FieldOp.eqEq.cut (DispAtom.eq f v).text =
      some (f.name.toList, .eqEq, '"' :: (v.text.toList ++ ['"'])) := by
  have spelled : (DispAtom.eq f v).text = (f.name.toList ++ [' ']) ++ FieldOp.eqEq.word ++
      (' ' :: '"' :: (v.text.toList ++ ['"'])) := by
    simp [DispAtom.text, DispAtom.opText, DispAtom.field, DispAtom.val, FieldOp.word]
  have outside : '=' ∉ f.name.toList ++ [' '] := by
    rw [List.mem_append, not_or]
    exact ⟨f.outside (by decide), by decide⟩
  have found : find FieldOp.eqEq.word (DispAtom.eq f v).text =
      some (f.name.toList ++ [' '], ' ' :: '"' :: (v.text.toList ++ ['"'])) := by
    rw [spelled]
    exact find_front outside _
  rw [cut_word found, trim_quoted, trim_blank f.tight]

/- Atoms are read back. -/

theorem parseFieldOp_contains (f : FieldName) (v : QuotedText) :
    parseFieldOp (DispAtom.contains f v).text =
      some (f.name.toList, .contains, '"' :: (v.text.toList ++ ['"'])) := by
  rw [parseFieldOp, List.findSome?_cons, cut_contains]

theorem parseFieldOp_eq (f : FieldName) (v : QuotedText)
    (noContains : ¬ FieldOp.contains.word <:+: v.text.toList)
    (noMatches : ¬ FieldOp.matching.word <:+: v.text.toList) :
    parseFieldOp (DispAtom.eq f v).text =
      some (f.name.toList, .eqEq, '"' :: (v.text.toList ++ ['"'])) := by
  have first : FieldOp.contains.cut (DispAtom.eq f v).text = none :=
    cut_none_iff.mpr fun inside =>
      noContains (infix_eq f v (by decide) (by decide) (by decide) inside)
  have second : FieldOp.matching.cut (DispAtom.eq f v).text = none :=
    cut_none_iff.mpr fun inside =>
      noMatches (infix_eq f v (by decide) (by decide) (by decide) inside)
  rw [parseFieldOp, List.findSome?_cons, first, List.findSome?_cons, second, List.findSome?_cons,
    cut_eqEq]

theorem parseAtom_fieldOp {s field val : Text} {op : FieldOp} (tight : Tight isWhitespace s)
    (unnamed : parseNamed (R := R) s = none) (cut : parseFieldOp s = some (field, op, val)) :
    parseAtom regexNew s = fieldFilter regexNew field op val := by
  rw [parseAtom, tight.trim_eq, unnamed]
  dsimp only
  rw [cut]

theorem parseAtom_text {x : DispAtom} (plain : x.Plain) :
    parseAtom regexNew x.text = .ok x.filter := by
  cases x with
  | eq f v =>
    obtain ⟨named, noContains, noMatches⟩ := plain
    have unnamed := (parseNamed_text (R := R) (.eq f v)).mpr named.own
    rw [parseAtom_fieldOp (DispAtom.eq f v).text_tight unnamed
      (parseFieldOp_eq f v noContains noMatches), fieldFilter, parseFieldRef_name]
    show Except.ok
      (DisplayFilter.fieldEq f.name none (unquote ('"' :: (v.text.toList ++ ['"'])))) = _
    rw [unquote_quoted]
    rfl
  | contains f v =>
    have unnamed := (parseNamed_text (R := R) (.contains f v)).mpr plain.own
    rw [parseAtom_fieldOp (DispAtom.contains f v).text_tight unnamed (parseFieldOp_contains f v),
      fieldFilter, parseFieldRef_name]
    show Except.ok
      (DisplayFilter.fieldContains f.name none (unquote ('"' :: (v.text.toList ++ ['"'])))) = _
    rw [unquote_quoted]
    rfl

/- What an atom can be read as. -/

theorem fieldFilter_ok {field val : Text} {op : FieldOp} {v : DisplayFilter R}
    (read : fieldFilter regexNew field op val = .ok v) :
    ∃ name slice, parseFieldRef field = .ok (name, slice) ∧
      ((op = .contains ∧ v = .fieldContains name slice (unquote val)) ∨
        (op = .matching ∧ ∃ re, v = .fieldMatches name re) ∨
          ((op = .eqEq ∨ op = .eq) ∧ v = .fieldEq name slice (unquote val))) := by
  obtain ⟨⟨name, slice⟩, ref, read⟩ := ok_of_bind read
  refine ⟨name, slice, ref, ?_⟩
  cases op with
  | contains =>
    cases read
    exact .inl ⟨rfl, rfl⟩
  | matching =>
    dsimp only at read
    split at read
    · cases read
      exact .inr (.inl ⟨rfl, _, rfl⟩)
    · cases read
  | eqEq =>
    cases read
    exact .inr (.inr ⟨.inl rfl, rfl⟩)
  | eq =>
    cases read
    exact .inr (.inr ⟨.inr rfl, rfl⟩)

theorem parseRest_ok {s : Text} {v : DisplayFilter R} (read : parseRest s = .ok v) :
    (∃ op val, v = .frameLen op val) ∨ ∃ sev, v = .expertSeverity sev := by
  rw [parseRest] at read
  split at read
  · obtain ⟨⟨op, val⟩, _, read⟩ := ok_of_bind read
    cases read
    exact .inl ⟨op, val, rfl⟩
  · split at read
    · obtain ⟨sev, _, read⟩ := ok_of_bind read
      cases read
      exact .inr ⟨sev, rfl⟩
    · cases read

/-- A protocol, an address or a port; a field and its operator; or one of the others. -/
theorem parseAtom_ok {t : Text} {v : DisplayFilter R} (read : parseAtom regexNew t = .ok v) :
    v.Named ∨
      (parseNamed (R := R) (BoolText.trim isWhitespace t) = none ∧
        ∃ field op val, parseFieldOp (BoolText.trim isWhitespace t) = some (field, op, val) ∧
          fieldFilter regexNew field op val = .ok v) ∨
        (∃ op val, v = .frameLen op val) ∨ ∃ sev, v = .expertSeverity sev := by
  rw [parseAtom] at read
  split at read
  · next named =>
    rw [read] at named
    exact .inl (parseNamed_named named)
  · next unnamed =>
    split at read
    · next cut => exact .inr (.inl ⟨unnamed, _, _, _, cut, read⟩)
    · exact .inr (.inr (parseRest_ok read))

/-- Text that is read as one of our atoms has a field and an operator. -/
theorem parseAtom_filter {t : Text} {x : DispAtom} (read : parseAtom regexNew t = .ok x.filter) :
    parseNamed (R := R) (BoolText.trim isWhitespace t) = none ∧
      ∃ field op val, parseFieldOp (BoolText.trim isWhitespace t) = some (field, op, val) ∧
        fieldFilter regexNew field op val = .ok x.filter := by
  rcases parseAtom_ok read with named | found | ⟨_, _, other⟩ | ⟨_, other⟩
  · cases x <;> cases named
  · exact found
  · cases x <;> cases other
  · cases x <;> cases other

theorem DispAtom.filter_atomic (x : DispAtom) : (x.filter (R := R)).Atomic := by
  cases x <;> trivial

theorem DispAtom.filter_ne {v : DisplayFilter R} (x : DispAtom) (composed : ¬ v.Atomic) :
    v ≠ x.filter := by
  rintro rfl
  exact composed x.filter_atomic

theorem parseAtom_atomic {t : Text} {v : DisplayFilter R}
    (read : parseAtom regexNew t = .ok v) : v.Atomic := by
  rcases parseAtom_ok read with named | ⟨_, _, _, _, _, made⟩ | ⟨_, _, rfl⟩ | ⟨_, rfl⟩
  · cases v <;> trivial
  · obtain ⟨_, _, _, ⟨_, rfl⟩ | ⟨_, _, rfl⟩ | ⟨_, rfl⟩⟩ := fieldFilter_ok made <;> trivial
  · trivial
  · trivial

/- What an atom stands for tells its text but for blanks, quotes and equals signs. -/

def faint (c : Char) : Bool := isWhitespace c || isQuote c || c == '='

theorem kept_white (t : Text) : kept faint (BoolText.trim isWhitespace t) = kept faint t := by
  apply kept_trim
  intro c white
  rw [faint, white]
  rfl

theorem kept_unquote (t : Text) : kept faint (unquote t).toList = kept faint t := by
  rw [unquote, String.toList_ofList, kept_trim, kept_white]
  intro c quote
  rw [faint, quote, Bool.or_true]
  rfl

theorem kept_text (x : DispAtom) : kept faint x.text =
    kept faint x.field.name.toList ++ kept faint x.opText ++ kept faint x.val.text.toList := by
  have quoted : kept faint ('"' :: (x.val.text.toList ++ ['"'])) =
      kept faint x.val.text.toList := by
    rw [← kept_unquote, unquote_quoted]
  rw [DispAtom.text, kept_append, kept_append, quoted]

theorem parseFieldOp_ok {s field val : Text} {op : FieldOp}
    (cut : parseFieldOp s = some (field, op, val)) :
    kept faint s = kept faint field ++ kept faint op.word ++ kept faint val := by
  obtain ⟨op', _, found⟩ := List.exists_of_findSome?_eq_some cut
  obtain ⟨⟨front, behind⟩, split, same⟩ := Option.map_eq_some_iff.mp found
  cases same
  rw [find_some split, kept_append, kept_append, kept_white, kept_white]

theorem parseFieldRef_ok {raw : Text} {name : String} (ref : parseFieldRef raw = .ok (name, none)) :
    kept faint name.toList = kept faint raw := by
  rw [parseFieldRef] at ref
  split at ref
  · cases ref
    rw [String.toList_ofList, kept_white]
  · dsimp only at ref
    split at ref
    · cases ref
    · split at ref
      · cases ref
      · split at ref
        · obtain ⟨_, _, ref⟩ := ok_of_bind ref
          obtain ⟨_, _, ref⟩ := ok_of_bind ref
          cases ref
        · obtain ⟨_, _, ref⟩ := ok_of_bind ref
          cases ref

theorem kept_atom {t : Text} {x : DispAtom} (read : parseAtom regexNew t = .ok x.filter) :
    kept faint t = kept faint x.text := by
  obtain ⟨_, field, op, val, cut, made⟩ := parseAtom_filter read
  have split := parseFieldOp_ok cut
  rw [kept_white] at split
  obtain ⟨name, slice, ref, how⟩ := fieldFilter_ok made
  rw [kept_text, split]
  rcases how with ⟨rfl, same⟩ | ⟨_, _, same⟩ | ⟨equals, same⟩
  · cases x with
    | eq f v => cases same
    | contains f v =>
      obtain ⟨rfl, rfl, value⟩ := DisplayFilter.fieldContains.inj same
      rw [← parseFieldRef_ok ref, ← kept_unquote val, ← value]
      rfl
  · cases x <;> cases same
  · cases x with
    | contains f v => cases same
    | eq f v =>
      obtain ⟨rfl, rfl, value⟩ := DisplayFilter.fieldEq.inj same
      have word : kept faint op.word = kept faint [' ', '=', '=', ' '] := by
        rcases equals with rfl | rfl <;> decide
      rw [← parseFieldRef_ok ref, ← kept_unquote val, ← value, word]
      rfl

/- The reader of display filters. -/

theorem dispReader_atom : (dispReader regexNew).atom = parseAtom regexNew := rfl

theorem dispReader_sees : (dispReader regexNew).Sees := ⟨rfl, rfl, rfl⟩

theorem dispReader_faint : (dispReader regexNew).Faint faint := by
  refine ⟨fun c white => ?_, rfl, by simp [faint, isWhitespace, isQuote]⟩
  rw [faint, show isWhitespace c = true from white]
  rfl

theorem ofExpr_value (regexNew : String → Except String R) (e : BoolExpr DispAtom) :
    e.value (dispReader regexNew) DispAtom.filter = DisplayFilter.ofExpr e := by
  induction e with
  | atom x => rfl
  | or a b iha ihb => exact congrArg₂ DisplayFilter.or iha ihb
  | and a b iha ihb => exact congrArg₂ DisplayFilter.and iha ihb
  | not a ih => exact congrArg DisplayFilter.not ih

theorem dispReader_free : (dispReader regexNew).Free DispAtom.filter := by
  have values := ofExpr_value regexNew
  constructor
  · intro va vb e made
    replace made : DisplayFilter.or va vb = .ofExpr e := made.trans (values e)
    cases e with
    | or a b =>
      obtain ⟨first, second⟩ := DisplayFilter.or.inj made
      exact ⟨a, b, rfl, first.trans (values a).symm, second.trans (values b).symm⟩
    | atom x => exact absurd made (x.filter_ne id)
    | _ => cases made
  · intro va vb e made
    replace made : DisplayFilter.and va vb = .ofExpr e := made.trans (values e)
    cases e with
    | and a b =>
      obtain ⟨first, second⟩ := DisplayFilter.and.inj made
      exact ⟨a, b, rfl, first.trans (values a).symm, second.trans (values b).symm⟩
    | atom x => exact absurd made (x.filter_ne id)
    | _ => cases made
  · intro v e made
    replace made : DisplayFilter.not v = .ofExpr e := made.trans (values e)
    cases e with
    | not a => exact ⟨a, rfl, (DisplayFilter.not.inj made).trans (values a).symm⟩
    | atom x => exact absurd made (x.filter_ne id)
    | _ => cases made
  · intro t e read
    rw [dispReader_atom, values] at read
    cases e with
    | atom x => exact ⟨x, rfl⟩
    | _ => exact (parseAtom_atomic read).elim

theorem dispReader_marked :
    BoolExpr.Marked (dispReader regexNew) DispAtom.text DispAtom.filter faint := by
  refine ⟨DispAtom.text_tight, fun x => ⟨'"', x.text_last, by decide, by decide⟩, ?_, ?_⟩
  · rintro x ⟨_, last⟩
    rw [x.text_last] at last
    cases last
  · intro t x read
    rw [dispReader_atom] at read
    exact kept_atom read

theorem parseFieldOp_words {s field val : Text} {op : FieldOp}
    (cut : parseFieldOp s = some (field, op, val)) (equals : op = .eqEq ∨ op = .eq) :
    ¬ FieldOp.contains.word <:+: s ∧ ¬ FieldOp.matching.word <:+: s := by
  have own : ∀ {op' : FieldOp} {field val : Text},
      op'.cut s = some (field, op, val) → op = op' := by
    intro op' field val found
    obtain ⟨_, _, same⟩ := Option.map_eq_some_iff.mp found
    cases same
    rfl
  rw [parseFieldOp, List.findSome?_cons] at cut
  split at cut
  · next found =>
    cases cut
    rcases equals with rfl | rfl <;> cases own found
  · next noContains =>
    rw [List.findSome?_cons] at cut
    split at cut
    · next found =>
      cases cut
      rcases equals with rfl | rfl <;> cases own found
    · next noMatches => exact ⟨cut_none_iff.mp noContains, cut_none_iff.mp noMatches⟩

/-- Only plain atoms are read back. -/
theorem plain_of_parseAtom {x : DispAtom} (word : x.field.name ≠ "not")
    (read : parseAtom regexNew x.text = .ok x.filter) : x.Plain := by
  obtain ⟨unnamed, field, op, val, cut, made⟩ := parseAtom_filter read
  rw [x.text_tight.trim_eq] at unnamed cut
  have plain : x.field.Plain := ⟨word, (parseNamed_text x).mp unnamed⟩
  cases x with
  | contains f v => exact plain
  | eq f v =>
    have value : v.text.toList <:+: (DispAtom.eq f v).text :=
      ⟨f.name.toList ++ [' ', '=', '=', ' ', '"'], ['"'], by
        simp [DispAtom.text, DispAtom.opText, DispAtom.field, DispAtom.val]⟩
    obtain ⟨name, slice, _, how⟩ := fieldFilter_ok made
    rcases how with ⟨_, same⟩ | ⟨_, _, same⟩ | ⟨equals, _⟩
    · cases same
    · cases same
    · obtain ⟨noContains, noMatches⟩ := parseFieldOp_words cut equals
      exact ⟨plain, fun inside => noContains (inside.trans value),
        fun inside => noMatches (inside.trans value)⟩

/-- An atom is read back if and only if it is plain. -/
theorem atomRead_iff (x : DispAtom) :
    BoolExpr.AtomRead (dispReader regexNew) DispAtom.text DispAtom.filter x ↔ x.Plain := by
  constructor
  · rintro ⟨negated, _, read⟩
    rw [dispReader_atom] at read
    exact plain_of_parseAtom (fun same => negated (x.notWord_text.mpr same)) read
  · intro plain
    have word : x.field.name ≠ "not" := by
      cases x with
      | eq f v => exact plain.1.word
      | contains f v => exact plain.word
    have bare := (dispReader_marked : BoolExpr.Marked (dispReader regexNew) _ _ _).bare x
    refine ⟨fun negated => word (x.notWord_text.mp negated), bare, ?_⟩
    rw [dispReader_atom]
    exact parseAtom_text plain

/-- A filter is read back from its text if and only if its atoms are plain and, with the
parentheses in quotes counted, every operand is cut off where it ends and nowhere else. -/
theorem display_filter_round_trip_iff (regexNew : String → Except String R)
    (e : BoolExpr DispAtom) :
    parseDisplayFilter regexNew (filterText e) = .ok (DisplayFilter.ofExpr e) ↔
      e.Readable DispAtom.text DispAtom.Plain .alone := by
  have plain : BoolExpr.AtomRead (dispReader regexNew) DispAtom.text DispAtom.filter =
      DispAtom.Plain := funext fun x => propext (atomRead_iff x)
  have sees : (dispReader regexNew).Sees := dispReader_sees
  have tight := BoolExpr.print_tight sees DispAtom.text_tight e .alone
  have trimmed : BoolText.trim isWhitespace (e.print DispAtom.text .alone) =
      e.print DispAtom.text .alone := tight.trim_eq
  have nonempty : e.print DispAtom.text .alone ≠ [] := by
    obtain ⟨c, head, _⟩ := tight.first
    intro none
    rw [none] at head
    cases head
  rw [parseDisplayFilter, filterText, String.toList_ofList, trimmed, if_neg nonempty, ← plain,
    ← ofExpr_value regexNew]
  exact BoolExpr.read_print_iff sees dispReader_faint dispReader_free dispReader_marked e

end

/- Quotes that are read as syntax. -/

def noRegex (_ : String) : Except String Unit := .error "no regular expressions"

def demoEq (name : String) (nonempty : name.toList ≠ [])
    (chars : name.toList.all fieldChar = true) (v : String) (unquoted : '"' ∉ v.toList) :
    BoolExpr DispAtom := .atom (.eq ⟨name, nonempty, List.all_eq_true.mp chars⟩ ⟨v, unquoted⟩)

/-- `x == "a or b"`. -/
def quotedOr : BoolExpr DispAtom := demoEq "x" (by decide) (by decide) "a or b" (by decide)

/-- `x == "(" and y == "b"`. -/
def quotedParen : BoolExpr DispAtom :=
  .and (demoEq "x" (by decide) (by decide) "(" (by decide))
    (demoEq "y" (by decide) (by decide) "b" (by decide))

/-- The one is cut inside the quotes, and the other is read as a single atom. -/
theorem quoted_text_is_syntax :
    filterText quotedOr = "x == \"a or b\"" ∧
      parseDisplayFilter noRegex (filterText quotedOr) = .error (.parse "unknown: b\"") ∧
        parseDisplayFilter noRegex (filterText quotedOr) ≠ .ok (DisplayFilter.ofExpr quotedOr) ∧
          filterText quotedParen = "x == \"(\" and y == \"b\"" ∧
            parseDisplayFilter noRegex (filterText quotedParen) =
              .ok (.fieldEq "x" none "(\" and y == \"b") := by
  decide +kernel

end BitBeak.DispFilter
