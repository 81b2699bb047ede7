import BitBeak.Capture.DispMatch
import BitBeak.Lib.ByteText

/-! The parsers of both filter languages at the byte offsets the source works with, where a slice
inside a character or out of range and a shift by 32 or more stop the program; neither happens,
and both parsers end. -/
namespace BitBeak
open BoolText ByteText Utf8
open Wire hiding slice

namespace CapBytes

/-- `<<` of a `u32`. -/
def shiftLeft (x : BitVec 32) (n : Nat) : Except Panic (BitVec 32) :=
  if n < 32 then .ok (x <<< n) else .error .shiftTooFar

def netMask (pre : Nat) : Except Panic (BitVec 32) :=
  if pre = 0 then .ok 0 else shiftLeft (BitVec.allOnes 32) (32 - min pre 32)

section

variable (ips : IpText)

def parseNet (n : String) : Checked FilterError CaptureFilter :=
  match splitOnce '/' n with
  | some (a, m) => do
    let ip ← given (parsedIpv4 ips a)
    let pre ← given (parsedInt (2 ^ 32) m)
    let mask ← netMask pre
    return .net (ip &&& mask) mask
  | none => do
    let ip ← given (parsedIpv4 ips n)
    return .net ip 0xffffffff

def parseAtom (s : Text) : Checked FilterError CaptureFilter :=
  let s := String.ofList (BoolText.trim isWhitespace s)
  if s ∈ protoTokens then return .proto s
  else
    match splitWhitespace s with
    | ["host", h] => do return .host (← given (parsedIp ips h))
    | ["src", "host", h] => do return .srcHost (← given (parsedIp ips h))
    | ["dst", "host", h] => do return .dstHost (← given (parsedIp ips h))
    | ["port", p] => do return .port (← given (parsePort p))
    | ["src", "port", p] => do return .srcPort (← given (parsePort p))
    | ["dst", "port", p] => do return .dstPort (← given (parsePort p))
    | ["net", n] => parseNet ips n
    | _ => throw (.parse ("unknown atom: " ++ s))

def byteReader : ByteReader CaptureFilter FilterError where
  white := isWhitespace
  atom := parseAtom ips
  or := .or
  and := .and
  not := .not

def parseNot (fuel : Nat) (s : Text) : Checked FilterError CaptureFilter :=
  (byteReader ips).readNot fuel s

def parseOr (fuel : Nat) (s : Text) : Checked FilterError CaptureFilter :=
  (byteReader ips).readOr (parseNot ips fuel) s

/-- `parse_capture_filter`, with `fuel` nested calls of `parse_not` at most. -/
def parseCaptureFilter (fuel : Nat) (input : String) : Checked FilterError CaptureFilter :=
  let s := BoolText.trim isWhitespace input.toList
  if s = [] then return .true else parseOr ips fuel s

end

theorem netMask_ok (pre : Nat) : netMask pre = .ok (BitBeak.netMask pre) := by
  unfold netMask BitBeak.netMask
  split
  · rfl
  · next some =>
    have short : 32 - min pre 32 < 32 := by omega
    rw [shiftLeft, if_pos short]

variable {ips : IpText}

theorem parseNet_given (n : String) : parseNet ips n = given (BitBeak.parseNet ips n) := by
  unfold parseNet BitBeak.parseNet
  cases splitOnce '/' n with
  | some cut =>
    refine given_bind rfl fun ip => given_bind rfl fun pre => ?_
    rw [checked_bind (netMask_ok pre)]
    rfl
  | none => exact given_bind rfl fun _ => rfl

theorem parseAtom_given (s : Text) : parseAtom ips s = given (BitBeak.parseAtom ips s) := by
  unfold parseAtom BitBeak.parseAtom
  dsimp only
  split
  · rfl
  · generalize splitWhitespace _ = words
    split
    case h_7 n => exact parseNet_given n
    case h_8 =>
      try simp only [*]
      rfl
    all_goals exact given_bind rfl fun _ => rfl

theorem mirrors : (byteReader ips).Mirrors (capReader ips) := ⟨rfl, parseAtom_given, rfl, rfl, rfl⟩

/- The error of a reader without fuel is none of an atom's. -/

theorem parsedIp_ne (h : String) : parsedIp ips h ≠ .error .outOfFuel := by
  unfold parsedIp
  split <;> simp

theorem parsedIpv4_ne (h : String) : parsedIpv4 ips h ≠ .error .outOfFuel := by
  unfold parsedIpv4
  split <;> simp

theorem parsedInt_ne (limit : Nat) (text : String) : parsedInt limit text ≠ .error .outOfFuel := by
  unfold parsedInt
  cases parseInt limit text <;> simp [Except.mapError]

theorem parsePort_ne (p : String) : parsePort p ≠ .error .outOfFuel :=
  ne_error_map (parsedInt_ne _ p) _

theorem parseNet_ne (n : String) : BitBeak.parseNet ips n ≠ .error .outOfFuel := by
  unfold BitBeak.parseNet
  split
  · exact ne_error_bind (parsedIpv4_ne _) fun _ => ne_error_map (parsedInt_ne _ _) _
  · exact ne_error_map (parsedIpv4_ne _) _

theorem parseAtom_ne (s : Text) : BitBeak.parseAtom ips s ≠ .error .outOfFuel := by
  unfold BitBeak.parseAtom
  dsimp only
  split
  · simp
  · split
    case h_1 | h_2 | h_3 => exact ne_error_map (parsedIp_ne _) _
    case h_4 | h_5 | h_6 => exact ne_error_map (parsePort_ne _) _
    case h_7 n _ => exact parseNet_ne n
    case h_8 => simp

theorem parseNot_settle {n m : Nat} {s : Text} (enough : s.length < n) (enough' : s.length < m) :
    Settle .outOfFuel (parseNot ips n s) (parseNot ips m s) :=
  ByteReader.readNot_settle (fun s => ⟨_, parseAtom_given s, parseAtom_ne s⟩) enough enough'

/-- With more fuel than there are characters the parser ends in a filter or an error, always the
same. -/
theorem parseCaptureFilter_settle {n m : Nat} {input : String} (enough : input.toList.length < n)
    (enough' : input.toList.length < m) :
    Settle .outOfFuel (parseCaptureFilter ips n input) (parseCaptureFilter ips m input) := by
  have short := length_trim isWhitespace input.toList
  unfold parseCaptureFilter
  dsimp only
  split
  · exact Settle.pure _
  · exact ByteReader.readOr_settle fun p shorter => parseNot_settle (by omega) (by omega)

/-- Below 2 GiB it is the parser on characters. -/
theorem parseCaptureFilter_given {n : Nat} {input : String} (enough : input.toList.length < n)
    (small : input.toList.length < 2 ^ 31) :
    parseCaptureFilter ips n input = given (BitBeak.parseCaptureFilter ips input) := by
  have short := length_trim isWhitespace input.toList
  unfold parseCaptureFilter BitBeak.parseCaptureFilter
  dsimp only
  split
  · rfl
  · exact ByteReader.read_given mirrors (by omega) (by omega)

end CapBytes

namespace DispBytes
open DispFilter

/-- The offset of a first occurrence. -/
def find (pat s : Text) : Option Nat := (DispFilter.find pat s).map fun (front, _) => size front

/-- The field, the operator and the value, where the operator occurs. -/
def cutField (s : Text) (op : FieldOp) : Except Panic (Option (Text × FieldOp × Text)) := do
  match find op.word s with
  | some idx =>
    let field := BoolText.trim isWhitespace (← slice s 0 idx)
    let val := BoolText.trim isWhitespace (← slice s (idx + size op.word) (size s))
    return some (field, op, val)
  | none => return none

def parseFieldOp (s : Text) : Except Panic (Option (Text × FieldOp × Text)) :=
  [FieldOp.contains, .matching, .eqEq, .eq].findSomeM? (cutField s)

def parseSlice (base : String) (inner : Text) :
    Checked DispFilterError (String × Option FieldSlice) :=
  match find [':'] inner with
  | some colon => do
    let first ← slice inner 0 colon
    let start ← given (parsedNum (2 ^ 64) (BoolText.trim isWhitespace first))
    let second ← slice inner (colon + 1) (size inner)
    let stop ← given (parsedNum (2 ^ 64) (BoolText.trim isWhitespace second))
    return (base, some (.range start stop))
  | none => do return (base, some (.index (← given (parsedNum (2 ^ 64) inner))))

def parseFieldRef (raw : Text) : Checked DispFilterError (String × Option FieldSlice) :=
  let raw := BoolText.trim isWhitespace raw
  let bad : DispFilterError := .parse ("bad field slice: " ++ String.ofList raw)
  match find ['['] raw with
  | none => return (String.ofList raw, none)
  | some opening =>
    if raw.getLast? ≠ some ']' then throw bad
    else do
      let base := BoolText.trim isWhitespace (← slice raw 0 opening)
      if base = [] then throw bad
      else do
        let inner ← slice raw (opening + 1) (size raw - 1)
        parseSlice (String.ofList base) (BoolText.trim isWhitespace inner)

section

variable {R : Type} (regexNew : String → Except String R)

def fieldFilter (raw : Text) (op : FieldOp) (val : Text) :
    Checked DispFilterError (DisplayFilter R) := do
  let (field, cut) ← parseFieldRef raw
  match op with
  | .contains => return .fieldContains field cut (unquote val)
  | .matching =>
    match regexNew (String.ofList val) with
    | .ok re => return .fieldMatches field re
    | .error e => throw (.parse ("regex: " ++ e))
  | _ => return .fieldEq field cut (unquote val)

def parseAtom (s : Text) : Checked DispFilterError (DisplayFilter R) :=
  let s := BoolText.trim isWhitespace s
  match parseNamed s with
  | some filter => given filter
  | none => do
    match ← parseFieldOp s with
    | some (field, op, val) => fieldFilter regexNew field op val
    | none => given (parseRest s)

def byteReader : ByteReader (DisplayFilter R) DispFilterError where
  white := isWhitespace
  atom := parseAtom regexNew
  or := .or
  and := .and
  not := .not

def parseNot (fuel : Nat) (s : Text) : Checked DispFilterError (DisplayFilter R) :=
  (byteReader regexNew).readNot fuel s

def parseOr (fuel : Nat) (s : Text) : Checked DispFilterError (DisplayFilter R) :=
  (byteReader regexNew).readOr (parseNot regexNew fuel) s

/-- `parse_display_filter`, with `fuel` nested calls of `parse_not` at most. -/
def parseDisplayFilter (fuel : Nat) (input : String) :
    Checked DispFilterError (DisplayFilter R) :=
  let s := BoolText.trim isWhitespace input.toList
  if s = [] then return .true else parseOr regexNew fuel s

end

/- A text is cut where a word occurs, between characters. -/

theorem cutField_ok (s : Text) (op : FieldOp) : cutField s op = .ok (op.cut s) := by
  unfold cutField FieldOp.cut find
  cases found : DispFilter.find op.word s with
  | none => rfl
  | some cut =>
    obtain ⟨field, val⟩ := cut
    have text := find_some found
    have first : slice s 0 (size field) = .ok field := text ▸ slice_first field op.word val
    have second : slice s (size field + size op.word) (size s) = .ok val :=
      text ▸ slice_rest field op.word val
    simp only [Option.map_some, first, second]
    rfl

theorem parseFieldOp_ok (s : Text) : parseFieldOp s = .ok (DispFilter.parseFieldOp s) := by
  have cuts : cutField s = fun op => pure (op.cut s) := funext (cutField_ok s)
  unfold parseFieldOp
  rw [cuts, List.findSomeM?_pure]
  rfl

/-- The text between the brackets. -/
theorem slice_brackets {base behind : Text} (last : (base ++ ['['] ++ behind).getLast? = some ']') :
    slice (base ++ ['['] ++ behind) (size base + 1) (size (base ++ ['['] ++ behind) - 1) =
      .ok behind.dropLast := by
  rcases List.eq_nil_or_concat' behind with rfl | ⟨inner, c, rfl⟩
  · simp at last
  · rw [← List.append_assoc, List.getLast?_concat] at last
    cases last
    have opening : size base + 1 = size (base ++ ['[']) := by
      rw [size_append]
      rfl
    have stop : size (base ++ ['['] ++ (inner ++ [']'])) - 1 = size (base ++ ['['] ++ inner) := by
      rw [← List.append_assoc, size_append _ [']']]
      rfl
    rw [opening, stop, ← List.append_assoc, slice_between, List.dropLast_concat]

/- As on characters. -/

theorem find_eq {pat s front behind : Text} (found : DispFilter.find pat s = some (front, behind)) :
    find pat s = some (size front) := by
  rw [find, found]
  rfl

theorem find_none {pat s : Text} (missing : DispFilter.find pat s = none) : find pat s = none := by
  rw [find, missing]
  rfl

theorem parseFieldRef_given (raw : Text) :
    parseFieldRef raw = given (DispFilter.parseFieldRef raw) := by
  unfold parseFieldRef DispFilter.parseFieldRef
  dsimp only
  generalize BoolText.trim isWhitespace raw = raw
  cases found : DispFilter.find ['['] raw with
  | none =>
    rw [find_none found]
    rfl
  | some cut =>
    obtain ⟨base, behind⟩ := cut
    have text := find_some found
    rw [find_eq found]
    dsimp only
    split
    · rfl
    · next last =>
      have ends : (base ++ ['['] ++ behind).getLast? = some ']' := text ▸ not_not.mp last
      rw [text, checked_bind (slice_first base ['['] behind)]
      split
      · rfl
      · rw [checked_bind (slice_brackets ends)]
        generalize BoolText.trim isWhitespace behind.dropLast = inner
        unfold parseSlice
        cases cut : DispFilter.find [':'] inner with
        | none =>
          rw [find_none cut]
          exact given_bind rfl fun _ => rfl
        | some parts =>
          obtain ⟨start, stop⟩ := parts
          have whole := find_some cut
          have front := slice_first start [':'] stop
          have rear := slice_rest start [':'] stop
          rw [← whole] at front rear
          rw [find_eq cut]
          dsimp only
          rw [checked_bind front]
          refine given_bind rfl fun a => ?_
          exact (checked_bind rear _).trans (given_bind rfl fun _ => rfl)

section

variable {R : Type} {regexNew : String → Except String R}

theorem fieldFilter_given (raw : Text) (op : FieldOp) (val : Text) :
    fieldFilter regexNew raw op val = given (DispFilter.fieldFilter regexNew raw op val) := by
  refine given_bind (parseFieldRef_given raw) fun (field, cut) => ?_
  cases op with
  | matching => dsimp only; cases regexNew (String.ofList val) <;> rfl
  | _ => rfl

theorem parseAtom_given (s : Text) :
    parseAtom regexNew s = given (DispFilter.parseAtom regexNew s) := by
  unfold parseAtom DispFilter.parseAtom
  dsimp only
  generalize BoolText.trim isWhitespace s = s
  cases parseNamed s with
  | some filter => rfl
  | none =>
    dsimp only
    rw [checked_bind (parseFieldOp_ok s)]
    cases DispFilter.parseFieldOp s with
    | some cut => exact fieldFilter_given cut.1 cut.2.1 cut.2.2
    | none => rfl

theorem mirrors : (byteReader regexNew).Mirrors (dispReader regexNew) :=
  ⟨rfl, parseAtom_given, rfl, rfl, rfl⟩

/- The error of a reader without fuel is none of an atom's. -/

theorem parsedNum_ne (limit : Nat) (s : Text) : parsedNum limit s ≠ .error .outOfFuel := by
  unfold parsedNum
  cases parseInt limit (String.ofList s) <;> simp [Except.mapError]

theorem parseEqStr_ne (rest : Text) : parseEqStr rest ≠ .error .outOfFuel := by
  unfold parseEqStr
  dsimp only
  split <;> simp

theorem parseCmpUsize_ne (rest : Text) : parseCmpUsize rest ≠ .error .outOfFuel := by
  unfold parseCmpUsize
  dsimp only
  split
  · simp
  · exact ne_error_map (parsedNum_ne _ _) _

theorem parseSeverity_ne (rest : Text) : parseSeverity rest ≠ .error .outOfFuel := by
  unfold parseSeverity
  dsimp only
  split <;> simp

theorem parseFieldRef_ne (raw : Text) : DispFilter.parseFieldRef raw ≠ .error .outOfFuel := by
  unfold DispFilter.parseFieldRef
  dsimp only
  split
  · simp
  · split
    · simp
    · split
      · simp
      · split
        · exact ne_error_bind (parsedNum_ne _ _) fun _ => ne_error_map (parsedNum_ne _ _) _
        · exact ne_error_map (parsedNum_ne _ _) _

theorem fieldFilter_ne (raw : Text) (op : FieldOp) (val : Text) :
    DispFilter.fieldFilter regexNew raw op val ≠ .error .outOfFuel := by
  refine ne_error_bind (parseFieldRef_ne raw) fun (field, cut) => ?_
  cases op with
  | matching =>
    dsimp only
    cases regexNew (String.ofList val) with
    | ok re => exact nofun
    | error e => intro same; cases same
  | _ => intro same; cases same

theorem parseRest_ne (s : Text) :
    (parseRest s : Except DispFilterError (DisplayFilter R)) ≠ .error .outOfFuel := by
  unfold parseRest
  split
  · exact ne_error_map (parseCmpUsize_ne _) _
  · split
    · exact ne_error_map (parseSeverity_ne _) _
    · simp

theorem parseNamed_ne (s : Text) :
    (parseNamed s : Option (Except DispFilterError (DisplayFilter R))) ≠
      some (.error .outOfFuel) := by
  unfold parseNamed
  split
  · simp
  · intro found
    obtain ⟨⟨name, make⟩, member, made⟩ := List.exists_of_findSome?_eq_some found
    obtain ⟨rest, _, failed⟩ := Option.map_eq_some_iff.mp made
    simp only [ownAtoms, List.mem_cons, List.not_mem_nil, or_false, Prod.mk.injEq] at member
    rcases member with ⟨_, rfl⟩ | ⟨_, rfl⟩ | ⟨_, rfl⟩ | ⟨_, rfl⟩
    · exact ne_error_map (parseEqStr_ne rest) _ failed
    · exact ne_error_map (parseEqStr_ne rest) _ failed
    · exact ne_error_map (ne_error_map (parsedNum_ne _ _) _) _ failed
    · exact ne_error_map (ne_error_map (parsedNum_ne _ _) _) _ failed

theorem parseAtom_ne (s : Text) : DispFilter.parseAtom regexNew s ≠ .error .outOfFuel := by
  unfold DispFilter.parseAtom
  dsimp only
  split
  · next filter named => exact fun same => parseNamed_ne _ (same ▸ named)
  · split
    · exact fieldFilter_ne _ _ _
    · exact parseRest_ne _

theorem parseNot_settle {n m : Nat} {s : Text} (enough : s.length < n) (enough' : s.length < m) :
    Settle .outOfFuel (parseNot regexNew n s) (parseNot regexNew m s) :=
  ByteReader.readNot_settle (fun s => ⟨_, parseAtom_given s, parseAtom_ne s⟩) enough enough'

/-- With more fuel than there are characters the parser ends in a filter or an error, always the
same. -/
theorem parseDisplayFilter_settle {n m : Nat} {input : String} (enough : input.toList.length < n)
    (enough' : input.toList.length < m) :
    Settle .outOfFuel (parseDisplayFilter regexNew n input)
      (parseDisplayFilter regexNew m input) := by
  have short := length_trim isWhitespace input.toList
  unfold parseDisplayFilter
  dsimp only
  split
  · exact Settle.pure _
  · exact ByteReader.readOr_settle fun p shorter => parseNot_settle (by omega) (by omega)

/-- Below 2 GiB it is the parser on characters. -/
theorem parseDisplayFilter_given {n : Nat} {input : String} (enough : input.toList.length < n)
    (small : input.toList.length < 2 ^ 31) :
    parseDisplayFilter regexNew n input = given (DispFilter.parseDisplayFilter regexNew input) := by
  have short := length_trim isWhitespace input.toList
  unfold parseDisplayFilter DispFilter.parseDisplayFilter
  dsimp only
  split
  · rfl
  · exact ByteReader.read_given mirrors (by omega) (by omega)

end

end DispBytes

/-- Every text is read to a filter or an error, and every filter has an answer for every packet. -/
theorem filters_total (ips : IpText) {R : Type} (regexNew : String → Except String R)
    (isMatch : R → String → Bool) :
    (∀ input : String, ∃ read, read ≠ .error .outOfFuel ∧
        ∀ fuel, input.toList.length < fuel →
          CapBytes.parseCaptureFilter ips fuel input = given read) ∧
      (∀ input : String, ∃ read, read ≠ .error .outOfFuel ∧
        ∀ fuel, input.toList.length < fuel →
          DispBytes.parseDisplayFilter regexNew fuel input = given read) ∧
        (∀ (f : CaptureFilter) (data : Bytes), ∃ answer, f.matchesRaw data = .ok answer) ∧
          ∀ (f : DispFilter.DisplayFilter R) (pkt : StoredPacket),
            ∃ answer, f.matchesPacket isMatch pkt = .ok answer := by
  refine ⟨fun input => ?_, fun input => ?_, fun f data => ⟨_, f.matchesRaw_ok data⟩,
    fun f pkt => ⟨_, f.matchesPacket_ok isMatch pkt⟩⟩
  · exact Settle.result CapBytes.parseCaptureFilter_settle
  · exact Settle.result DispBytes.parseDisplayFilter_settle

end BitBeak
