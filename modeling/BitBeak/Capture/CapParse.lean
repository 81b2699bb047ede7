import BitBeak.Capture.CapFilter
import BitBeak.Http.Words
import BitBeak.Lib.BoolText

/-! The text of capture filters: `parse_capture_filter` and, with as few parentheses as it
takes, the text of a filter. What IP addresses look like is a parameter. -/
namespace BitBeak
open BoolText

/-- How the standard library reads and writes addresses. -/
structure IpText where
  parseIp : String → Option IpAddr
  parseIpv4 : String → Option Ipv4Addr
  ipText : IpAddr → String
  ipv4Text : Ipv4Addr → String

/- `from_str` of the unsigned integers, with its errors. -/

inductive IntErrorKind where
  | empty
  | invalidDigit
  | posOverflow
  deriving DecidableEq, Repr

def IntErrorKind.text : IntErrorKind → String
  | empty => "cannot parse integer from empty string"
  | invalidDigit => "invalid digit found in string"
  | posOverflow => "number too large to fit in target type"

def readDigits (limit : Nat) : List Char → Nat → Except IntErrorKind Nat
  | [], n => .ok n
  | c :: rest, n =>
    if c.isDigit then
      let n := 10 * n + (c.toNat - '0'.toNat)
      if n < limit then readDigits limit rest n else .error .posOverflow
    else .error .invalidDigit

def parseInt (limit : Nat) (text : String) : Except IntErrorKind Nat :=
  match text.toList with
  | [] => .error .empty
  | ['+'] => .error .invalidDigit
  | '+' :: digits => readDigits limit digits 0
  | digits => readDigits limit digits 0

/- The parser. -/

/-- `outOfFuel` is not in the source. -/
inductive FilterError where
  | empty
  | parse (text : String)
  | outOfFuel
  deriving DecidableEq, Repr

section

variable (ips : IpText)

def parsedIp (h : String) : Except FilterError IpAddr :=
  match ips.parseIp h with
  | some ip => .ok ip
  | none => .error (.parse "invalid IP address syntax")

def parsedIpv4 (h : String) : Except FilterError Ipv4Addr :=
  match ips.parseIpv4 h with
  | some ip => .ok ip
  | none => .error (.parse "invalid IPv4 address syntax")

def parsedInt (limit : Nat) (text : String) : Except FilterError Nat :=
  (parseInt limit text).mapError fun e => .parse e.text

/-- The mask of a prefix; a prefix beyond 32 counts as 32. -/
def netMask (pre : Nat) : BitVec 32 :=
  if pre = 0 then 0 else BitVec.allOnes 32 <<< (32 - min pre 32)

def parseNet (n : String) : Except FilterError CaptureFilter :=
  match splitOnce '/' n with
  | some (a, m) => do
    let ip ← parsedIpv4 ips a
    let pre ← parsedInt (2 ^ 32) m
    return .net (ip &&& netMask pre) (netMask pre)
  | none => do
    let ip ← parsedIpv4 ips n
    return .net ip 0xffffffff

def protoTokens : List String := ["tcp", "udp", "icmp", "arp", "ip", "ip6"]

def parsePort (p : String) : Except FilterError UInt16 := do
  return UInt16.ofNat (← parsedInt (2 ^ 16) p)

def parseAtom (s : Text) : Except FilterError CaptureFilter :=
  let s := String.ofList (BoolText.trim isWhitespace s)
  if s ∈ protoTokens then .ok (.proto s)
  else
    match splitWhitespace s with
    | ["host", h] => do return .host (← parsedIp ips h)
    | ["src", "host", h] => do return .srcHost (← parsedIp ips h)
    | ["dst", "host", h] => do return .dstHost (← parsedIp ips h)
    | ["port", p] => do return .port (← parsePort p)
    | ["src", "port", p] => do return .srcPort (← parsePort p)
    | ["dst", "port", p] => do return .dstPort (← parsePort p)
    | ["net", n] => parseNet ips n
    | _ => .error (.parse ("unknown atom: " ++ s))

def capReader : Reader CaptureFilter FilterError where
  white := isWhitespace
  atom := parseAtom ips
  or := .or
  and := .and
  not := .not
  exhausted := .outOfFuel

def parseNot (fuel : Nat) (s : Text) : Except FilterError CaptureFilter :=
  (capReader ips).readNot fuel s

def parseAnd (fuel : Nat) (s : Text) : Except FilterError CaptureFilter :=
  (capReader ips).readAnd (parseNot ips fuel) s

def parseOr (fuel : Nat) (s : Text) : Except FilterError CaptureFilter :=
  (capReader ips).readOr (parseNot ips fuel) s

def parseCaptureFilter (input : String) : Except FilterError CaptureFilter :=
  let s := BoolText.trim isWhitespace input.toList
  if s = [] then .ok .true else parseOr ips (s.length + 1) s

end

/- Canonical atoms. -/

/-- A network whose address has no bits behind its prefix. -/
structure CapNet where
  addr : Ipv4Addr
  len : Nat
  fits : len ≤ 32
  masked : addr &&& netMask len = addr

inductive CapAtom where
  | proto (token : { name : String // name ∈ protoTokens })
  | host (side : Side) (ip : IpAddr)
  | net (n : CapNet)
  | port (side : Side) (p : UInt16)

def CapAtom.filter : CapAtom → CaptureFilter
  | proto token => .proto token.val
  | host .either ip => .host ip
  | host .source ip => .srcHost ip
  | host .destination ip => .dstHost ip
  | net n => .net n.addr (netMask n.len)
  | port .either p => .port p
  | port .source p => .srcPort p
  | port .destination p => .dstPort p

def Side.words : Side → List String
  | either => []
  | source => ["src"]
  | destination => ["dst"]

def CapAtom.words (ips : IpText) : CapAtom → List String
  | proto token => [token.val]
  | host side ip => side.words ++ ["host", ips.ipText ip]
  | net n => ["net", ips.ipv4Text n.addr ++ "/" ++ toString n.len]
  | port side p => side.words ++ ["port", toString p.toNat]

def CapAtom.text (ips : IpText) (x : CapAtom) : Text := spaced ((x.words ips).map String.toList)

/-- The filter of an expression. -/
def CaptureFilter.ofExpr : BoolExpr CapAtom → CaptureFilter
  | .atom x => x.filter
  | .or a b => .or (ofExpr a) (ofExpr b)
  | .and a b => .and (ofExpr a) (ofExpr b)
  | .not a => .not (ofExpr a)

/-- The text of an expression. -/
def filterText (ips : IpText) (e : BoolExpr CapAtom) : String :=
  String.ofList (e.print (CapAtom.text ips) .alone)

def addressChar (c : Char) : Bool :=
  c.isDigit || ['a', 'b', 'c', 'd', 'e', 'f', '.', ':'].contains c

/-- A text of digits, dots and colons, and not of digits only. -/
def AddressText (text : String) : Prop :=
  (∀ c ∈ text.toList, addressChar c = true) ∧ ∃ c ∈ text.toList, c = '.' ∨ c = ':'

/-- An address is read back from its text. -/
structure IpText.Lawful (ips : IpText) : Prop where
  ip : ∀ ip, ips.parseIp (ips.ipText ip) = some ip
  ipv4 : ∀ ip, ips.parseIpv4 (ips.ipv4Text ip) = some ip
  ipShape : ∀ ip, AddressText (ips.ipText ip)
  ipv4Shape : ∀ ip, AddressText (ips.ipv4Text ip)

/- Numbers are read back. -/

theorem readDigits_ok {limit : Nat} {digits : List Char} {n : Nat}
    (all : ∀ c ∈ digits, c.isDigit = true) (small : Nat.ofDigitChars 10 digits n < limit) :
    readDigits limit digits n = .ok (Nat.ofDigitChars 10 digits n) := by
  induction digits generalizing n with
  | nil => rfl
  | cons c rest ih =>
    have grows : ∀ (ds : List Char) (m : Nat), m ≤ Nat.ofDigitChars 10 ds m := by
      intro ds m
      rw [Nat.ofDigitChars_eq_ofDigitChars_zero]
      have power : 1 ≤ 10 ^ ds.length := Nat.one_le_pow _ _ (by decide)
      exact Nat.le_add_right_of_le (Nat.le_mul_of_pos_left m power)
    rw [Nat.ofDigitChars_cons] at small ⊢
    have below := Nat.lt_of_le_of_lt (grows rest _) small
    rw [readDigits, if_pos (all c List.mem_cons_self)]
    dsimp only
    rw [if_pos below]
    exact ih (fun d member => all d (List.mem_cons_of_mem _ member)) small

theorem parseInt_toString {limit n : Nat} (small : n < limit) :
    parseInt limit (toString n) = .ok n := by
  have value := @Nat.ofDigitChars_ten_toDigits n
  have read := readDigits_ok digits_all (by rwa [value])
  rw [value] at read
  unfold parseInt
  rw [toList_toString]
  split
  · next empty => exact absurd empty Nat.toDigits_ne_nil
  · next plus => exact absurd (digits_all '+' (plus ▸ List.mem_cons_self)) (by decide)
  · next rest _ plus => exact absurd (digits_all '+' (plus ▸ List.mem_cons_self)) (by decide)
  · exact read

theorem readDigits_value {limit : Nat} {digits : List Char} {n m : Nat}
    (read : readDigits limit digits n = .ok m) :
    m = Nat.ofDigitChars 10 digits n ∧ (digits ≠ [] → m < limit) := by
  induction digits generalizing n with
  | nil =>
    cases read
    exact ⟨rfl, fun some => absurd rfl some⟩
  | cons c rest ih =>
    rw [readDigits] at read
    split at read
    · dsimp only at read
      split at read
      · next small =>
        obtain ⟨value, below⟩ := ih read
        refine ⟨value.trans (Nat.ofDigitChars_cons ..).symm, fun _ => ?_⟩
        by_cases last : rest = []
        · subst last
          cases read
          exact small
        · exact below last
      · cases read
    · cases read

/-- A number that is read is below the limit. -/
theorem lt_of_parseInt_toString {limit n m : Nat} (read : parseInt limit (toString n) = .ok m) :
    n < limit := by
  unfold parseInt at read
  rw [toList_toString] at read
  split at read
  · cases read
  · cases read
  · next rest _ plus => exact absurd (digits_all '+' (plus ▸ List.mem_cons_self)) (by decide)
  · obtain ⟨value, below⟩ := readDigits_value read
    rw [Nat.ofDigitChars_ten_toDigits] at value
    rw [← value]
    exact below Nat.toDigits_ne_nil

theorem parsedInt_toString {limit n : Nat} (small : n < limit) :
    parsedInt limit (toString n) = .ok n := by
  rw [parsedInt, parseInt_toString small]
  rfl

/- Words. -/

/-- A character that shows. -/
def graphic (c : Char) : Bool := 33 ≤ c.toNat && c.toNat ≤ 126 && c != '(' && c != ')'

theorem graphic_plain {c : Char} (shows : graphic c = true) :
    isWhitespace c = false ∧ c ≠ '(' ∧ c ≠ ')' := by
  simp only [graphic, Bool.and_eq_true, decide_eq_true_eq, bne_iff_ne] at shows
  obtain ⟨⟨⟨low, high⟩, opening⟩, closing⟩ := shows
  refine ⟨?_, opening, closing⟩
  simp only [isWhitespace, Bool.or_eq_false_iff, Bool.and_eq_false_iff, decide_eq_false_iff_not,
    beq_eq_false_iff_ne]
  omega

theorem graphic_digit {c : Char} (digit : c.isDigit = true) : graphic c = true := by
  simp only [Char.isDigit, Bool.and_eq_true, decide_eq_true_eq, UInt32.le_iff_toNat_le] at digit
  obtain ⟨low, high⟩ := digit
  have value : c.toNat = c.val.toNat := rfl
  have least : 48 ≤ c.toNat := low
  have most : c.toNat ≤ 57 := high
  simp only [graphic, Bool.and_eq_true, decide_eq_true_eq, bne_iff_ne]
  refine ⟨⟨⟨by omega, by omega⟩, ?_⟩, ?_⟩
  · rintro rfl
    exact absurd least (by decide)
  · rintro rfl
    exact absurd least (by decide)

theorem graphic_address {c : Char} (address : addressChar c = true) : graphic c = true := by
  rcases Bool.or_eq_true_iff.mp address with digit | letter
  · exact graphic_digit digit
  · have named : ∀ d ∈ ['a', 'b', 'c', 'd', 'e', 'f', '.', ':'], graphic d = true :=
      List.all_eq_true.mp (by decide)
    exact named c (List.contains_iff_mem.mp letter)

theorem graphic_toString {n : Nat} : ∀ c ∈ (toString n).toList, graphic c = true := by
  intro c member
  exact graphic_digit (isDigit_of_mem_toString member)

/-- No word of an atom is one of these, and all their characters show. -/
structure PlainWord (w : String) : Prop where
  nonempty : w.toList ≠ []
  shows : ∀ c ∈ w.toList, graphic c = true
  free : w.toList ∉ [['o', 'r'], ['a', 'n', 'd'], ['n', 'o', 't']]

theorem plainWord_iff (w : String) : PlainWord w ↔ w.toList ≠ [] ∧
    w.toList.all graphic = true ∧ w.toList ∉ [['o', 'r'], ['a', 'n', 'd'], ['n', 'o', 't']] :=
  ⟨fun ⟨nonempty, shows, free⟩ => ⟨nonempty, List.all_eq_true.mpr shows, free⟩,
    fun ⟨nonempty, shows, free⟩ => ⟨nonempty, List.all_eq_true.mp shows, free⟩⟩

instance (w : String) : Decidable (PlainWord w) := decidable_of_iff _ (plainWord_iff w).symm

/-- A character that the connectives do not have. -/
theorem plainWord_of_mem {w : String} (shows : ∀ c ∈ w.toList, graphic c = true) {c : Char}
    (member : c ∈ w.toList) (other : c ∉ ['o', 'r', 'a', 'n', 'd', 't']) : PlainWord w := by
  refine ⟨List.ne_nil_of_mem member, shows, fun connective => other ?_⟩
  have letters : ∀ word ∈ [['o', 'r'], ['a', 'n', 'd'], ['n', 'o', 't']],
      ∀ d ∈ word, d ∈ ['o', 'r', 'a', 'n', 'd', 't'] := by simp
  exact letters w.toList connective c member

theorem plainWord_toString (n : Nat) : PlainWord (toString n) := by
  obtain ⟨c, member⟩ := List.exists_mem_of_ne_nil _ (@Nat.toDigits_ne_nil n 10)
  refine plainWord_of_mem graphic_toString (toList_toString n ▸ member) fun letter => ?_
  have none : ∀ d ∈ ['o', 'r', 'a', 'n', 'd', 't'], d.isDigit = false := by simp
  exact Bool.false_ne_true ((none c letter).symm.trans (digits_all c member))

theorem plainWord_address {text : String} (address : AddressText text) : PlainWord text := by
  obtain ⟨chars, c, member, mark⟩ := address
  refine plainWord_of_mem (fun d inside => graphic_address (chars d inside)) member ?_
  rcases mark with rfl | rfl <;> decide

theorem plainWord_net {text : String} (address : AddressText text) (n : Nat) :
    PlainWord (text ++ "/" ++ toString n) := by
  have whole : (text ++ "/" ++ toString n).toList = text.toList ++ '/' :: (toString n).toList := by
    simp only [String.toList_append, List.append_assoc]
    rfl
  refine plainWord_of_mem (fun c inside => ?_) (whole ▸ List.mem_append_right _ List.mem_cons_self)
    (by decide)
  rw [whole, List.mem_append, List.mem_cons] at inside
  rcases inside with here | rfl | there
  · exact graphic_address (address.1 c here)
  · decide
  · exact graphic_toString c there

theorem plainWords_of {words : List String} (some : words ≠ []) (plain : ∀ w ∈ words, PlainWord w) :
    PlainWords isWhitespace (words.map String.toList) := by
  have outside : ∀ word ∈ [['o', 'r'], ['a', 'n', 'd'], ['n', 'o', 't']],
      word ∉ words.map String.toList := by
    intro word connective member
    obtain ⟨w, inside, rfl⟩ := List.mem_map.mp member
    exact (plain w inside).free connective
  refine ⟨fun none => some (List.map_eq_nil_iff.mp none), ?_, outside _ (by decide),
    outside _ (by decide), outside _ (by decide)⟩
  intro word member
  obtain ⟨w, inside, rfl⟩ := List.mem_map.mp member
  exact ⟨(plain w inside).nonempty, fun c here => graphic_plain ((plain w inside).shows c here)⟩

/-- The words of an atom that is more than a token. -/
theorem atom_words {words : List String} (plain : ∀ w ∈ words, PlainWord w)
    (several : 1 < words.length) :
    String.ofList (spaced (words.map String.toList)) ∉ protoTokens ∧
      splitWhitespace (String.ofList (spaced (words.map String.toList))) = words := by
  have some : words ≠ [] := by
    rintro rfl
    cases several
  have all := plainWords_of some plain
  have split : splitWhitespace (String.ofList (spaced (words.map String.toList))) = words := by
    rw [splitWhitespace_spaced all.some fun w member =>
      ⟨(all.solid w member).1, fun c here => ((all.solid w member).2 c here).1⟩, List.map_map]
    exact (List.map_congr_left fun w _ => String.ofList_toList).trans (List.map_id _)
  refine ⟨fun token => ?_, split⟩
  have single : ∀ name ∈ protoTokens, splitWhitespace name = [name] := by decide +kernel
  rw [← split, single _ token] at several
  exact absurd several (by decide : ¬ 1 < 1)

theorem words_plain {ips : IpText} (lawful : ips.Lawful) (x : CapAtom) :
    ∀ w ∈ x.words ips, PlainWord w := by
  have side : ∀ (side : Side), ∀ w ∈ side.words, PlainWord w := by
    intro side
    cases side <;> decide
  cases x with
  | proto token =>
    have tokens : ∀ w ∈ protoTokens, PlainWord w := by decide
    exact List.forall_mem_singleton.mpr (tokens token.val token.property)
  | host at_ ip =>
    refine List.forall_mem_append.mpr ⟨side at_, List.forall_mem_cons.mpr ⟨by decide, ?_⟩⟩
    exact List.forall_mem_singleton.mpr (plainWord_address (lawful.ipShape ip))
  | net n =>
    refine List.forall_mem_cons.mpr ⟨by decide, ?_⟩
    exact List.forall_mem_singleton.mpr (plainWord_net (lawful.ipv4Shape n.addr) n.len)
  | port at_ p =>
    refine List.forall_mem_append.mpr ⟨side at_, List.forall_mem_cons.mpr ⟨by decide, ?_⟩⟩
    exact List.forall_mem_singleton.mpr (plainWord_toString p.toNat)

theorem words_ne_nil (ips : IpText) (x : CapAtom) : x.words ips ≠ [] := by
  cases x <;> simp [CapAtom.words]

theorem plainWords {ips : IpText} (lawful : ips.Lawful) (x : CapAtom) :
    PlainWords isWhitespace ((x.words ips).map String.toList) :=
  plainWords_of (words_ne_nil ips x) (words_plain lawful x)

/- Atoms are read back. -/

theorem parseNet_text {ips : IpText} (lawful : ips.Lawful) (n : CapNet) :
    parseNet ips (ips.ipv4Text n.addr ++ "/" ++ toString n.len) =
      .ok (.net n.addr (netMask n.len)) := by
  have outside : '/' ∉ (ips.ipv4Text n.addr).toList := fun member =>
    absurd ((lawful.ipv4Shape n.addr).1 '/' member) (by decide)
  have fits := n.fits
  unfold parseNet
  rw [show ips.ipv4Text n.addr ++ "/" ++ toString n.len =
    ips.ipv4Text n.addr ++ String.ofList ['/'] ++ toString n.len from rfl, splitOnce_append outside]
  dsimp only
  rw [parsedIpv4, lawful.ipv4, parsedInt_toString (by omega)]
  show Except.ok (CaptureFilter.net (n.addr &&& netMask n.len) (netMask n.len)) = _
  rw [n.masked]

theorem parsePort_text (p : UInt16) : parsePort (toString p.toNat) = .ok p := by
  rw [parsePort, parsedInt_toString p.toNat_lt]
  show Except.ok (UInt16.ofNat p.toNat) = _
  rw [UInt16.ofNat_toNat]

theorem parseAtom_text {ips : IpText} (lawful : ips.Lawful) (x : CapAtom) :
    parseAtom ips (x.text ips) = .ok x.filter := by
  have plain := plainWords lawful x
  have several := fun more : 1 < (x.words ips).length => atom_words (words_plain lawful x) more
  have tight : BoolText.trim isWhitespace (x.text ips) = x.text ips := plain.tight.trim_eq
  unfold parseAtom
  rw [tight]
  dsimp only
  cases x with
  | proto token =>
    have text : String.ofList ((CapAtom.proto token).text ips) = token.val := by
      rw [CapAtom.text]
      show String.ofList (spaced [token.val.toList]) = token.val
      rw [spaced, List.intercalate_singleton, String.ofList_toList]
    rw [text, if_pos token.property]
    rfl
  | net n =>
    obtain ⟨token, words⟩ := several (by decide : 1 < 2)
    rw [CapAtom.text, if_neg token, words]
    exact parseNet_text lawful n
  | host side ip =>
    have read : parsedIp ips (ips.ipText ip) = .ok ip := by
      rw [parsedIp, lawful.ip]
    cases side with
    | either =>
      obtain ⟨token, words⟩ := several (by decide : 1 < 2)
      rw [CapAtom.text, if_neg token, words]
      show (do return CaptureFilter.host (← parsedIp ips (ips.ipText ip))) = _
      rw [read]
      rfl
    | source =>
      obtain ⟨token, words⟩ := several (by decide : 1 < 3)
      rw [CapAtom.text, if_neg token, words]
      show (do return CaptureFilter.srcHost (← parsedIp ips (ips.ipText ip))) = _
      rw [read]
      rfl
    | destination =>
      obtain ⟨token, words⟩ := several (by decide : 1 < 3)
      rw [CapAtom.text, if_neg token, words]
      show (do return CaptureFilter.dstHost (← parsedIp ips (ips.ipText ip))) = _
      rw [read]
      rfl
  | port side p =>
    cases side with
    | either =>
      obtain ⟨token, words⟩ := several (by decide : 1 < 2)
      rw [CapAtom.text, if_neg token, words]
      show (do return CaptureFilter.port (← parsePort (toString p.toNat))) = _
      rw [parsePort_text]
      rfl
    | source =>
      obtain ⟨token, words⟩ := several (by decide : 1 < 3)
      rw [CapAtom.text, if_neg token, words]
      show (do return CaptureFilter.srcPort (← parsePort (toString p.toNat))) = _
      rw [parsePort_text]
      rfl
    | destination =>
      obtain ⟨token, words⟩ := several (by decide : 1 < 3)
      rw [CapAtom.text, if_neg token, words]
      show (do return CaptureFilter.dstPort (← parsePort (toString p.toNat))) = _
      rw [parsePort_text]
      rfl

theorem atomRead {ips : IpText} (lawful : ips.Lawful) (x : CapAtom) :
    BoolExpr.AtomRead (capReader ips) (CapAtom.text ips) CapAtom.filter x := by
  have plain := plainWords lawful x
  refine ⟨plain.unnegated (by decide), fun bare => ?_, parseAtom_text lawful x⟩
  exact ((plain.text (by decide)).flat '(' (List.mem_of_head? bare.1)).1 rfl

theorem capReader_sees (ips : IpText) : (capReader ips).Sees := ⟨rfl, rfl, rfl⟩

theorem ofExpr_value (ips : IpText) (e : BoolExpr CapAtom) :
    e.value (capReader ips) CapAtom.filter = CaptureFilter.ofExpr e := by
  induction e with
  | atom x => rfl
  | or a b iha ihb => exact congrArg₂ CaptureFilter.or iha ihb
  | and a b iha ihb => exact congrArg₂ CaptureFilter.and iha ihb
  | not a ih => exact congrArg CaptureFilter.not ih

theorem parseCaptureFilter_tight (ips : IpText) {t : Text} (tight : Tight isWhitespace t) :
    parseCaptureFilter ips (String.ofList t) = (capReader ips).read t := by
  have nonempty : t ≠ [] := by
    obtain ⟨c, head, _⟩ := tight.first
    rintro rfl
    cases head
  rw [parseCaptureFilter, String.toList_ofList, tight.trim_eq, if_neg nonempty]
  rfl

/-- Every filter of canonical atoms is read back from its text with as few parentheses as
precedence and the left association of the connectives leave. -/
theorem capture_filter_round_trip {ips : IpText} (lawful : ips.Lawful) (e : BoolExpr CapAtom) :
    parseCaptureFilter ips (filterText ips e) = .ok (CaptureFilter.ofExpr e) := by
  have plain : ∀ x, PlainText (CapAtom.text ips x) :=
    fun x => (plainWords lawful x).text (by decide)
  have words : ∀ x, Tight isWhitespace (CapAtom.text ips x) := fun x => (plainWords lawful x).tight
  have tight := BoolExpr.print_tight (capReader_sees ips) words e .alone
  rw [filterText, parseCaptureFilter_tight ips tight, ← ofExpr_value ips]
  exact BoolExpr.read_print_plain (capReader_sees ips) words plain (atomRead lawful) e

/- Addresses in a form that has all it takes: dotted numbers for IPv4, and for IPv6 a colon and
the number the octets spell. -/

def octetText (a : Ipv4Addr) (shift : Nat) : Text := Nat.toDigits 10 (a.toNat / 2 ^ shift % 256)

def demoIpv4Text (a : Ipv4Addr) : String :=
  String.ofList (['.'].intercalate
    [octetText a 24, octetText a 16, octetText a 8, octetText a 0])

def demoParseIpv4 (text : String) : Option Ipv4Addr :=
  match (text.toList.splitOn '.').map fun part => Nat.ofDigitChars 10 part 0 with
  | [a, b, c, d] => some (BitVec.ofNat 32 (a * 2 ^ 24 + b * 2 ^ 16 + c * 2 ^ 8 + d))
  | _ => none

def demoIpText : IpText where
  parseIp text :=
    match text.toList with
    | ':' :: digits => some (.v6 (BitVec.ofNat 128 (Nat.ofDigitChars 10 digits 0)))
    | _ => (demoParseIpv4 text).map .v4
  parseIpv4 := demoParseIpv4
  ipText
    | .v4 a => demoIpv4Text a
    | .v6 a => String.ofList (':' :: Nat.toDigits 10 a.toNat)
  ipv4Text := demoIpv4Text

theorem demoParseIpv4_text (a : Ipv4Addr) : demoParseIpv4 (demoIpv4Text a) = some a := by
  have outside : ∀ part ∈ [octetText a 24, octetText a 16, octetText a 8, octetText a 0],
      '.' ∉ part := by
    have octet : ∀ shift, '.' ∉ octetText a shift := fun shift => digits_outside (by decide)
    simp only [List.forall_mem_cons, octet, not_false_eq_true, List.not_mem_nil, false_implies,
      implies_true, and_self]
  unfold demoParseIpv4 demoIpv4Text
  rw [String.toList_ofList, List.splitOn_intercalate '.' outside (List.cons_ne_nil _ _)]
  simp only [List.map_cons, List.map_nil, octetText, Nat.ofDigitChars_ten_toDigits]
  congr 1
  apply BitVec.eq_of_toNat_eq
  rw [BitVec.toNat_ofNat]
  have bound := a.isLt
  omega

theorem demoIpv4Text_chars (a : Ipv4Addr) :
    (∀ c ∈ (demoIpv4Text a).toList, c.isDigit = true ∨ c = '.') ∧ '.' ∈ (demoIpv4Text a).toList := by
  have whole : (demoIpv4Text a).toList = octetText a 24 ++ '.' :: (octetText a 16 ++ '.' ::
      (octetText a 8 ++ '.' :: octetText a 0)) := by
    rw [demoIpv4Text, String.toList_ofList]
    simp only [List.intercalate_cons_cons, List.intercalate_singleton, List.append_assoc,
      List.singleton_append]
  have octet : ∀ shift, ∀ c ∈ octetText a shift, c.isDigit = true := fun _ => digits_all
  rw [whole]
  refine ⟨fun c member => ?_, List.mem_append_right _ List.mem_cons_self⟩
  simp only [List.mem_append, List.mem_cons] at member
  rcases member with here | rfl | here | rfl | here | rfl | here
  · exact .inl (octet _ c here)
  · exact .inr rfl
  · exact .inl (octet _ c here)
  · exact .inr rfl
  · exact .inl (octet _ c here)
  · exact .inr rfl
  · exact .inl (octet _ c here)

theorem demoIpv4Text_shape (a : Ipv4Addr) : AddressText (demoIpv4Text a) := by
  obtain ⟨chars, dot⟩ := demoIpv4Text_chars a
  refine ⟨fun c member => ?_, '.', dot, .inl rfl⟩
  rcases chars c member with digit | rfl
  · exact Bool.or_eq_true_iff.mpr (.inl digit)
  · decide

theorem demoIpText_lawful : demoIpText.Lawful := by
  constructor
  · intro ip
    cases ip with
    | v4 a =>
      show (match (demoIpv4Text a).toList with
        | ':' :: digits => some (IpAddr.v6 (BitVec.ofNat 128 (Nat.ofDigitChars 10 digits 0)))
        | _ => (demoParseIpv4 (demoIpv4Text a)).map .v4) = _
      split
      · next digits front =>
        have colon := (demoIpv4Text_chars a).1 ':' (front ▸ List.mem_cons_self)
        exact absurd colon (by decide)
      · rw [demoParseIpv4_text]
        rfl
    | v6 a =>
      simp only [demoIpText, String.toList_ofList, Nat.ofDigitChars_ten_toDigits,
        BitVec.ofNat_toNat, BitVec.setWidth_eq]
  · exact demoParseIpv4_text
  · intro ip
    cases ip with
    | v4 a => exact demoIpv4Text_shape a
    | v6 a =>
      have whole : (demoIpText.ipText (.v6 a)).toList = ':' :: Nat.toDigits 10 a.toNat :=
        String.toList_ofList
      refine ⟨fun c member => ?_, ':', whole ▸ List.mem_cons_self, .inr rfl⟩
      rw [whole, List.mem_cons] at member
      rcases member with rfl | digit
      · decide
      · exact Bool.or_eq_true_iff.mpr (.inl (digits_all c digit))
  · exact demoIpv4Text_shape

/-- `not (tcp or net 10.0.0.0/8) and (src port 80 and host 10.0.0.1)`. -/
def demoExpr : BoolExpr CapAtom :=
  .and (.not (.or (.atom (.proto ⟨"tcp", by decide⟩))
      (.atom (.net { addr := 0x0a000000, len := 8, fits := by decide, masked := by decide }))))
    (.and (.atom (.port .source 80)) (.atom (.host .either (.v4 0x0a000001))))

theorem demoExpr_round_trips :
    parseCaptureFilter demoIpText (filterText demoIpText demoExpr) =
        .ok (.and (.not (.or (.proto "tcp") (.net 0x0a000000 0xff000000)))
          (.and (.srcPort 80) (.host (.v4 0x0a000001)))) ∧
      filterText demoIpText demoExpr =
        "not (tcp or net 10.0.0.0/8) and (src port 80 and host 10.0.0.1)" :=
  ⟨capture_filter_round_trip demoIpText_lawful demoExpr, by decide +kernel⟩

end BitBeak
