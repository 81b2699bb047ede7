import BitBeak.Cli
import BitBeak.Lib.InetText

/-! The targets of a diagnosis. A host stands alone, or in brackets in front of a port. -/
namespace BitBeak.Cli
open Occurrence BoolText

inductive DiagSpec where
  | dns (host : String)
  | ping (host : String) (port : Option UInt16)
  | tcp (host : String) (port : UInt16)
  | tls (host : String) (port : UInt16)
  | trace (host : String) (port : Option UInt16)
  deriving DecidableEq, Repr

def parsePingLike (rest : String) (f : String → Option UInt16 → DiagSpec) :
    Except TargetParseError DiagSpec :=
  if ':' ∈ rest.toList ∧ ¬ hasPrefix rest "[" then do
    let (host, port) ← splitHostPort rest
    return f host (some port)
  else
    match stripPrefix rest "[" with
    | some inner => do
      let (host, port) ← splitHostPort ("[" ++ inner)
      return f host (some port)
    | none => .ok (f rest none)

def parseDiag (input : String) : Except TargetParseError DiagSpec :=
  let s := trim input
  if s = "" then .error .empty
  else
    match stripPrefix s "dns://" with
    | some rest => .ok (.dns rest)
    | none =>
      match stripPrefix s "ping://" with
      | some rest => parsePingLike rest .ping
      | none =>
        match stripPrefix s "trace://" with
        | some rest => parsePingLike rest .trace
        | none =>
          match stripPrefix s "tcp://" with
          | some rest => do let (host, port) ← splitHostPort rest; return .tcp host port
          | none =>
            match stripPrefix s "tls://" with
            | some rest => do let (host, port) ← splitHostPort rest; return .tls host port
            | none => .ok (.dns s)

/- The hosts. -/

/-- What stands between the marks of a URI: no white space, no path and no brackets. -/
def HostText (host : String) : Prop :=
  host ≠ "" ∧ ∀ c ∈ host.toList, isWhitespace c = false ∧ c ∉ ['/', '[', ']']

inductive HostLiteral (host : String) : Prop where
  | name : HostText host → ':' ∉ host.toList → HostLiteral host
  | v4 : InetText.Ipv4 host.toList → HostLiteral host
  | v6 : InetText.Ipv6 host.toList → HostLiteral host

theorem addressChar_host {c : Char} (address : InetText.addressChar c) :
    isWhitespace c = false ∧ c ∉ ['/', '[', ']'] := by
  rcases address with letter | mark
  · rw [InetText.isAlphanum_iff, InetText.isUpper_iff, InetText.isLower_iff, Char.isDigit,
      Bool.and_eq_true, decide_eq_true_eq, decide_eq_true_eq] at letter
    have range : (65 ≤ c.toNat ∧ c.toNat ≤ 90 ∨ 97 ≤ c.toNat ∧ c.toNat ≤ 122) ∨
      48 ≤ c.toNat ∧ c.toNat ≤ 57 := letter
    refine ⟨isWhitespace_graphic (by omega) (by omega), ?_⟩
    simp only [List.mem_cons, List.not_mem_nil, or_false, not_or]
    refine ⟨?_, ?_, ?_⟩ <;> rintro rfl <;> revert range <;> decide
  · simp only [List.mem_cons, List.not_mem_nil, or_false] at mark
    rcases mark with rfl | rfl | rfl | rfl | rfl | rfl <;> decide

theorem HostLiteral.text {host : String} (literal : HostLiteral host) : HostText host := by
  cases literal with
  | name text _ => exact text
  | v4 address =>
    refine ⟨fun none => address.ne_nil (String.toList_eq_nil_iff.mpr none), fun c member => ?_⟩
    rcases address.chars c member with digit | rfl
    · exact addressChar_host (InetText.addressChar_digit digit)
    · decide
  | v6 address =>
    refine ⟨fun none => ?_, fun c member => addressChar_host (address.chars c member)⟩
    have colon := address.colon
    simp [none] at colon

/-- A colon tells an IPv6 address from the other hosts. -/
theorem HostLiteral.colon_iff {host : String} (literal : HostLiteral host) :
    ':' ∈ host.toList ↔ InetText.Ipv6 host.toList := by
  constructor
  · intro colon
    cases literal with
    | name _ none => exact absurd colon none
    | v4 address =>
      rcases address.chars ':' colon with digit | dot
      · cases digit
      · cases dot
    | v6 address => exact address
  · exact InetText.Ipv6.colon

/- What is read behind a scheme. -/

def Visible (rest : String) : Prop := ∃ c ∈ rest.toList.getLast?, isWhitespace c = false

section
variable {rest : String} (ends : Visible rest)
include ends

theorem diag_text (scheme : String) {first : Char} (begins : scheme.toList.head? = some first)
    (visible : isWhitespace first = false) :
    trim (scheme ++ rest) = scheme ++ rest ∧ scheme ++ rest ≠ "" := by
  obtain ⟨last, member, seen⟩ := ends
  have tight : Tight isWhitespace (scheme ++ rest).toList := by
    constructor
    · exact ⟨first, by simp [List.head?_append, begins], visible⟩
    · exact ⟨last, by rw [String.toList_append, List.getLast?_append, member]; rfl, seen⟩
  refine ⟨trim_tight tight, fun none => ?_⟩
  obtain ⟨c, head, -⟩ := tight.first
  simp [none] at head

theorem parseDiag_ping : parseDiag ("ping://" ++ rest) = parsePingLike rest .ping := by
  obtain ⟨trimmed, some⟩ := diag_text ends "ping://" rfl (by decide)
  simp only [parseDiag, trimmed, if_neg some, stripPrefix_append]
  simp [stripPrefix, List.isPrefixOf]

theorem parseDiag_trace : parseDiag ("trace://" ++ rest) = parsePingLike rest .trace := by
  obtain ⟨trimmed, some⟩ := diag_text ends "trace://" rfl (by decide)
  simp only [parseDiag, trimmed, if_neg some, stripPrefix_append]
  simp [stripPrefix, List.isPrefixOf]

theorem parseDiag_tcp : parseDiag ("tcp://" ++ rest) = do
    let (host, port) ← splitHostPort rest; return .tcp host port := by
  obtain ⟨trimmed, some⟩ := diag_text ends "tcp://" rfl (by decide)
  simp only [parseDiag, trimmed, if_neg some, stripPrefix_append]
  simp [stripPrefix, List.isPrefixOf]

theorem parseDiag_tls : parseDiag ("tls://" ++ rest) = do
    let (host, port) ← splitHostPort rest; return .tls host port := by
  obtain ⟨trimmed, some⟩ := diag_text ends "tls://" rfl (by decide)
  simp only [parseDiag, trimmed, if_neg some, stripPrefix_append]
  simp [stripPrefix, List.isPrefixOf]

end

/- Hosts behind the scheme. -/

def bracketed (host : String) : String := "[" ++ host ++ "]"

section
variable {host : String} (text : HostText host)
include text

theorem HostText.first : host.toList.head? ≠ some '[' := by
  intro opens
  obtain ⟨rest, shape⟩ := List.head?_eq_some_iff.mp opens
  have clear := text.2 '[' (by simp [shape])
  simp at clear

theorem HostText.visible : Visible host := by
  have filled : host.toList ≠ [] := fun none => text.1 (String.toList_eq_nil_iff.mp none)
  exact ⟨_, List.getLast?_eq_some_getLast filled, (text.2 _ (List.getLast_mem filled)).1⟩

theorem HostText.outside {c : Char} (mark : c ∈ ['/', '[', ']']) : c ∉ host.toList :=
  fun member => (text.2 c member).2 mark

theorem splitOnceAt_bracket (behind : String) :
    splitOnceAt "]:" (host ++ behind) =
      (splitOnceAt "]:" behind).map fun x => (host ++ x.1, x.2) := by
  have first : Occurrence.cut (']' :: [':']) (host.toList ++ behind.toList) =
      (Occurrence.cut (']' :: [':']) behind.toList).map fun x => (host.toList ++ x.1, x.2) :=
    cut_outside (text.outside (by simp)) _
  rw [splitOnceAt, splitOnceAt, String.toList_append, show "]:".toList = ']' :: [':'] from rfl,
    first, Option.map_map, Option.map_map]
  congr 1
  funext x
  simp

/-- In brackets, host and port are told apart whatever the host is. -/
theorem splitHostPort_bracketed (port : UInt16) :
    splitHostPort (joinedHost (bracketed host) port) = .ok (host, port) := by
  have inside : '/' ∉ (bracketed host).toList := by
    simp [bracketed, text.outside (c := '/') (by simp)]
  have stripped : stripPrefix (joinedHost (bracketed host) port) "[" =
      some (host ++ ("]:" ++ toString port.toNat)) := by
    rw [show joinedHost (bracketed host) port =
      "[" ++ (host ++ ("]:" ++ toString port.toNat)) by simp [joinedHost, bracketed, String.append_assoc]]
    exact stripPrefix_append _ _
  have behind : splitOnceAt "]:" ("]:" ++ toString port.toNat) = some ("", toString port.toNat) := by
    rw [splitOnceAt, String.toList_append, cut_self (by simp), Option.map_some,
      String.ofList_toList]
  simp only [splitHostPort, textBefore_joined inside, if_neg joinedHost_nonempty, stripped,
    splitOnceAt_bracket text, behind, Option.map_some, targetPort_toString, String.append_empty]
  rfl

/-- Without a port nothing is read in brackets. -/
theorem splitHostPort_unported :
    splitHostPort (bracketed host) = .error (.invalidHostPort (bracketed host)) := by
  have inside : '/' ∉ (bracketed host).toList := by
    simp [bracketed, text.outside (c := '/') (by simp)]
  have whole : textBefore '/' (bracketed host) = bracketed host := textBefore_outside inside
  have filled : bracketed host ≠ "" := by
    intro none
    have empty := congrArg String.toList none
    simp [bracketed] at empty
  have stripped : stripPrefix (bracketed host) "[" = some (host ++ "]") := by
    rw [bracketed, String.append_assoc]
    exact stripPrefix_append _ _
  have behind : splitOnceAt "]:" "]" = none := by decide
  simp only [splitHostPort, whole, if_neg filled, stripped, splitOnceAt_bracket text, behind,
    Option.map_none]

theorem parsePingLike_bare (f : String → Option UInt16 → DiagSpec) (none : ':' ∉ host.toList) :
    parsePingLike host f = .ok (f host Option.none) := by
  rw [parsePingLike, if_neg fun colon => none colon.1, stripPrefix_bracket text.first]

/-- A colon is always taken to stand in front of a port. -/
theorem parsePingLike_colon {f : String → Option UInt16 → DiagSpec} (colon : ':' ∈ host.toList)
    {spec : DiagSpec} (read : parsePingLike host f = .ok spec) : ∃ h p, spec = f h (some p) := by
  have open_bracket : ¬ hasPrefix host "[" = true := by
    intro begins
    obtain ⟨more, whole⟩ := List.isPrefixOf_iff_prefix.mp begins
    exact text.first (by rw [← whole]; rfl)
  rw [parsePingLike, if_pos ⟨colon, open_bracket⟩] at read
  cases split : splitHostPort host with
  | error e =>
    rw [split] at read
    cases read
  | ok x =>
    rw [split] at read
    exact ⟨x.1, x.2, (Except.ok.inj read).symm⟩

theorem parsePingLike_ported (f : String → Option UInt16 → DiagSpec) (port : UInt16) :
    parsePingLike (joinedHost (bracketed host) port) f = .ok (f host (some port)) := by
  have shape : joinedHost (bracketed host) port = "[" ++ (host ++ "]:" ++ toString port.toNat) := by
    simp [joinedHost, bracketed, String.append_assoc]
  have opens : hasPrefix (joinedHost (bracketed host) port) "[" = true := by
    rw [shape, hasPrefix, String.toList_append]
    exact List.isPrefixOf_iff_prefix.mpr (List.prefix_append _ _)
  have stripped : stripPrefix (joinedHost (bracketed host) port) "[" =
      some (host ++ "]:" ++ toString port.toNat) := by
    rw [shape]
    exact stripPrefix_append _ _
  rw [parsePingLike, if_neg fun colon => colon.2 opens, stripped]
  dsimp only
  rw [← shape, splitHostPort_bracketed text]
  rfl

end

/-- The text behind the scheme is read as the host, without a port. -/
def ReadAlone (host rest : String) : Prop :=
  parseDiag ("ping://" ++ rest) = .ok (.ping host none) ∧
    parseDiag ("trace://" ++ rest) = .ok (.trace host none)

structure UniformHost (host : String) : Prop where
  bare : ReadAlone host host
  brackets : InetText.Ipv6 host.toList → ReadAlone host (bracketed host)
  ported : ∀ port, parseDiag ("ping://" ++ joinedHost (bracketed host) port) =
      .ok (.ping host (some port)) ∧
    parseDiag ("tcp://" ++ joinedHost (bracketed host) port) = .ok (.tcp host port) ∧
    parseDiag ("tls://" ++ joinedHost (bracketed host) port) = .ok (.tls host port)

/-- Behind brackets a port is read, whatever the host is. -/
theorem parseDiag_ported {host : String} (text : HostText host) (port : UInt16) :
    parseDiag ("ping://" ++ joinedHost (bracketed host) port) = .ok (.ping host (some port)) ∧
      parseDiag ("tcp://" ++ joinedHost (bracketed host) port) = .ok (.tcp host port) ∧
      parseDiag ("tls://" ++ joinedHost (bracketed host) port) = .ok (.tls host port) := by
  have ends : Visible (joinedHost (bracketed host) port) := joinedHost_ends
  refine ⟨?_, ?_, ?_⟩
  · rw [parseDiag_ping ends, parsePingLike_ported text]
  · rw [parseDiag_tcp ends, splitHostPort_bracketed text]
    rfl
  · rw [parseDiag_tls ends, splitHostPort_bracketed text]
    rfl

/-- Hosts are read the same way everywhere exactly if they are no IPv6 addresses. -/
theorem uniformHost_iff {host : String} (literal : HostLiteral host) :
    UniformHost host ↔ ¬ InetText.Ipv6 host.toList := by
  have text := literal.text
  rw [← literal.colon_iff]
  constructor
  · intro uniform colon
    have alone := uniform.bare.1
    rw [parseDiag_ping text.visible] at alone
    obtain ⟨h, p, other⟩ := parsePingLike_colon text colon alone
    cases other
  · intro none
    constructor
    · rw [ReadAlone, parseDiag_ping text.visible, parseDiag_trace text.visible,
        parsePingLike_bare text _ none, parsePingLike_bare text _ none]
      exact ⟨rfl, rfl⟩
    · exact fun address => absurd address.colon none
    · exact parseDiag_ported text

theorem uniformHost_localhost : UniformHost "localhost" := by
  have literal : HostLiteral "localhost" := .name ⟨by simp, by simp [isWhitespace]⟩ (by simp)
  exact (uniformHost_iff literal).mpr fun address => absurd address.colon (by decide)

/-- The last group of the loopback address is taken for a port. -/
theorem loopback_read_as_port : parseDiag "ping://::1" = .ok (.ping ":" (some 1)) ∧
    ¬ ∀ host, HostLiteral host → UniformHost host := by
  have read : parseDiag "ping://::1" = .ok (.ping ":" (some 1)) := by rfl
  refine ⟨read, fun all => ?_⟩
  have group : InetText.HexGroup ['1'] := ⟨by decide, fun c member => .inl (by
    rw [List.mem_singleton.mp member]; rfl), by decide⟩
  have address : InetText.Ipv6 "::1".toList :=
    .compressed .none (.hex (.one group)) (by decide)
  have alone := (all "::1" (.v6 address)).bare.1
  rw [show "ping://" ++ "::1" = "ping://::1" from rfl, read] at alone
  exact absurd alone (by decide)

end BitBeak.Cli
