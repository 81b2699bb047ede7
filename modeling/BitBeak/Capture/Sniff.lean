import BitBeak.Capture.CapParse
import BitBeak.Lib.BoolTextExact
import BitBeak.Http.Words

/-! The capture filter that is made of the URL of an HTTP session, and what the parser of
capture filters makes of it. -/
namespace BitBeak
open BoolText

/-- Host and port of the part of a URL in front of its path and query. A port that is no
16-bit number is dropped. -/
def hostPort (hostport : String) : Option (String × Option Nat) :=
  match stripPrefix hostport "[" with
  | some inner => (splitOnce ']' inner).map fun (host, tail) =>
    (host, (stripPrefix tail ":").bind parseU16)
  | none =>
    match rsplitOnce ':' hostport with
    | some (h, p) => if p.toList.all Char.isDigit then some (h, parseU16 p) else some (hostport, none)
    | none => some (hostport, none)

def captureFilterForUrl (url : String) : Option String := do
  let rest ← (stripPrefix url "https://").or (stripPrefix url "http://")
  let isHttps := hasPrefix url "https://"
  let hostport := textBefore '?' (textBefore '/' rest)
  let (host, portOpt) ← hostPort hostport
  if host = "" then none
  else
    let defaultPort := if isHttps then 443 else 80
    let port := portOpt.getD defaultPort
    if port = defaultPort then some ("host " ++ host)
    else some ("host " ++ host ++ " and port " ++ toString port)

/-- What `sniff_from_http` gives the capture session to parse. -/
def sniffFromHttp (ips : IpText) (url : String) : Option (Except FilterError CaptureFilter) :=
  (captureFilterForUrl url).map (parseCaptureFilter ips)

/- URLs. -/

/-- What stands between the scheme and the path of a URL: a host in brackets and what follows
it, a host and a port, or a host alone. -/
inductive Authority where
  | bracketed (host tail : String)
  | ported (host digits : String)
  | bare (host : String)
  deriving DecidableEq, Repr

namespace Authority

def host : Authority → String
  | bracketed host _ => host
  | ported host _ => host
  | bare host => host

def text : Authority → String
  | bracketed host tail => "[" ++ host ++ "]" ++ tail
  | ported host digits => host ++ ":" ++ digits
  | bare host => host

/-- A text is that of one authority only. -/
def Formed : Authority → Prop
  | bracketed host _ => ']' ∉ host.toList
  | ported host digits => host.toList.head? ≠ some '[' ∧ digits.toList.all Char.isDigit = true
  | bare host => host.toList.head? ≠ some '[' ∧
    ∀ h p : String, host = h ++ ":" ++ p → p.toList.all Char.isDigit = false

end Authority

/-- A URL over HTTP with a host. There is no white space in its host, and its authority ends in
front of the first slash or question mark. -/
structure HttpUrl where
  https : Bool
  authority : Authority
  rest : String
  formed : authority.Formed
  named : authority.host ≠ ""
  visible : ∀ c ∈ authority.host.toList, isWhitespace c = false
  ends : ∀ c ∈ authority.text.toList, c ≠ '/' ∧ c ≠ '?'
  behind : ∀ c ∈ rest.toList.head?, c = '/' ∨ c = '?'

namespace HttpUrl

def host (u : HttpUrl) : String := u.authority.host

def scheme (u : HttpUrl) : String := if u.https then "https://" else "http://"

def text (u : HttpUrl) : String := u.scheme ++ u.authority.text ++ u.rest

end HttpUrl

/-- An address is read from hexadecimal digits, dots and colons. -/
def hexAddressChar (c : Char) : Bool :=
  addressChar c || ['A', 'B', 'C', 'D', 'E', 'F'].contains c

def IpText.ReadsAddresses (ips : IpText) : Prop :=
  ∀ text ip, ips.parseIp text = some ip → ∀ c ∈ text.toList, hexAddressChar c = true

/- Host and port are found. -/

theorem rsplitOnce_append {c : Char} (a : String) {b : String} (outside : c ∉ b.toList) :
    rsplitOnce c (a ++ String.ofList [c] ++ b) = some (a, b) := by
  have whole : (a ++ String.ofList [c] ++ b).toList = a.toList ++ [c] ++ b.toList := by
    simp
  have parts : ∀ behind : List Char, c ∉ behind →
      (a.toList ++ [c] ++ behind).rdropWhile (· ≠ c) = a.toList ++ [c] ∧
        (a.toList ++ [c] ++ behind).rtakeWhile (· ≠ c) = behind := by
    intro behind other
    induction behind using List.reverseRecOn with
    | nil =>
      rw [List.append_nil]
      exact ⟨List.rdropWhile_concat_neg _ _ _ (by simp), List.rtakeWhile_concat_neg _ _ _ (by simp)⟩
    | append_singleton behind d ih =>
      rw [List.mem_append, List.mem_singleton, not_or] at other
      obtain ⟨before, after⟩ := ih other.1
      have differs : decide (d ≠ c) = true := decide_eq_true fun same => other.2 same.symm
      rw [← List.append_assoc]
      constructor
      · rw [List.rdropWhile_concat_pos (fun x => decide (x ≠ c)) _ _ differs, before]
      · rw [List.rtakeWhile_concat_pos (fun x => decide (x ≠ c)) _ _ differs, after]
  obtain ⟨before, after⟩ := parts b.toList outside
  rw [rsplitOnce, whole, if_pos (by simp), before, after, List.dropLast_concat,
    String.ofList_toList, String.ofList_toList]

theorem rsplitOnce_eq_some {c : Char} {text a b : String}
    (found : rsplitOnce c text = some (a, b)) :
    text = a ++ String.ofList [c] ++ b ∧ c ∉ b.toList := by
  rw [rsplitOnce] at found
  split at found
  · next member =>
    cases found
    have whole := List.rdropWhile_append_rtakeWhile (p := fun d => decide (d ≠ c)) (l := text.toList)
    have some : text.toList.rdropWhile (fun d => decide (d ≠ c)) ≠ [] := by
      intro none
      have every := List.rdropWhile_eq_nil_iff.mp none c member
      simp at every
    have last : (text.toList.rdropWhile fun d => decide (d ≠ c)).getLast some = c := by
      have stops := List.rdropWhile_last_not _ _ some
      simpa using stops
    constructor
    · rw [← String.toList_inj]
      simp only [String.toList_append, String.toList_ofList]
      nth_rewrite 1 [← whole, ← List.dropLast_append_getLast some, last]
      rfl
    · rw [String.toList_ofList]
      intro inside
      have differs := List.mem_rtakeWhile_imp inside
      simp at differs
  · cases found

theorem rsplitOnce_eq_none {c : Char} {text : String} (outside : c ∉ text.toList) :
    rsplitOnce c text = none := by
  rw [rsplitOnce, if_neg outside]

theorem stripPrefix_bracket {text : String} (other : text.toList.head? ≠ some '[') :
    stripPrefix text "[" = none := by
  rw [stripPrefix, if_neg]
  intro begins
  obtain ⟨more, whole⟩ := List.isPrefixOf_iff_prefix.mp begins
  rw [← whole] at other
  exact other rfl

/-- The port that is kept of an authority. -/
def Authority.port : Authority → Option Nat
  | bracketed _ tail => (stripPrefix tail ":").bind parseU16
  | ported _ digits => parseU16 digits
  | bare _ => none

theorem hostPort_text {a : Authority} (formed : a.Formed) :
    hostPort a.text = some (a.host, a.port) := by
  rw [hostPort]
  cases a with
  | bracketed host tail =>
    have inner : stripPrefix (Authority.bracketed host tail).text "[" = some (host ++ "]" ++ tail) := by
      rw [Authority.text, String.append_assoc, String.append_assoc, stripPrefix_append,
        String.append_assoc]
    rw [inner]
    dsimp only
    rw [show host ++ "]" ++ tail = host ++ String.ofList [']'] ++ tail from rfl,
      splitOnce_append formed]
    rfl
  | ported host digits =>
    obtain ⟨front, number⟩ := formed
    have outside : ':' ∉ digits.toList := by
      intro member
      have digit := List.all_eq_true.mp number ':' member
      exact absurd digit (by decide)
    have first : (Authority.ported host digits).text.toList.head? ≠ some '[' := by
      rw [Authority.text]
      simp only [String.toList_append]
      cases h : host.toList with
      | nil => exact (by decide : some ':' ≠ some '[')
      | cons c rest =>
        rw [h] at front
        exact front
    rw [stripPrefix_bracket first]
    dsimp only
    rw [Authority.text, show host ++ ":" ++ digits = host ++ String.ofList [':'] ++ digits from rfl,
      rsplitOnce_append host outside]
    dsimp only
    rw [if_pos number]
    rfl
  | bare host =>
    obtain ⟨front, unported⟩ := formed
    rw [Authority.text, stripPrefix_bracket front]
    dsimp only
    cases found : rsplitOnce ':' host with
    | none => rfl
    | some parts =>
      obtain ⟨h, p⟩ := parts
      have other := unported h p (rsplitOnce_eq_some found).1
      dsimp only
      rw [other]
      rfl

/-- No slash and no question mark. -/
def staysInHost (c : Char) : Bool := decide (decide (c ≠ '?') = true ∧ decide (c ≠ '/') = true)

theorem textBefore_twice (text : String) :
    textBefore '?' (textBefore '/' text) = String.ofList (text.toList.takeWhile staysInHost) := by
  rw [textBefore, textBefore, String.toList_ofList, List.takeWhile_takeWhile]
  rfl

theorem staysInHost_iff (c : Char) : staysInHost c = true ↔ c ≠ '/' ∧ c ≠ '?' := by
  rw [staysInHost, decide_eq_true_iff, decide_eq_true_iff, decide_eq_true_iff]
  exact And.comm

theorem textBefore_path {text rest : String} (ends : ∀ c ∈ text.toList, c ≠ '/' ∧ c ≠ '?')
    (behind : ∀ c ∈ rest.toList.head?, c = '/' ∨ c = '?') :
    textBefore '?' (textBefore '/' (text ++ rest)) = text := by
  have kept : ∀ c ∈ text.toList, staysInHost c = true := fun c member =>
    (staysInHost_iff c).mpr (ends c member)
  have stops : rest.toList.takeWhile staysInHost = [] := by
    cases h : rest.toList with
    | nil => rfl
    | cons c more =>
      rcases behind c (by rw [h]; rfl) with rfl | rfl
      · rfl
      · rfl
  rw [textBefore_twice, String.toList_append, List.takeWhile_append_of_pos kept, stops,
    List.append_nil, String.ofList_toList]

theorem parseU16_lt {text : String} {port : Nat} (read : parseU16 text = some port) :
    port < 2 ^ 16 := by
  simp only [parseU16, Option.ite_none_right_eq_some, Option.some.injEq] at read
  obtain ⟨_, small, rfl⟩ := read
  exact small

theorem Authority.port_lt {a : Authority} {port : Nat} (read : a.port = some port) :
    port < 2 ^ 16 := by
  cases a with
  | bracketed host tail =>
    obtain ⟨digits, _, number⟩ := Option.bind_eq_some_iff.mp read
    exact parseU16_lt number
  | ported host digits => exact parseU16_lt read
  | bare host => cases read

theorem captureFilterForUrl_text (u : HttpUrl) : ∃ port < 2 ^ 16,
    captureFilterForUrl u.text = some ("host " ++ u.host) ∨
      captureFilterForUrl u.text = some ("host " ++ u.host ++ " and port " ++ toString port) := by
  have rest : (stripPrefix u.text "https://").or (stripPrefix u.text "http://")
      = some (u.authority.text ++ u.rest) := by
    rw [HttpUrl.text, HttpUrl.scheme, String.append_assoc]
    split
    · rw [stripPrefix_append]
      rfl
    · have other : stripPrefix ("http://" ++ (u.authority.text ++ u.rest)) "https://" = none := by
        rw [stripPrefix, String.toList_append]
        rfl
      rw [other, stripPrefix_append]
      rfl
  have found := hostPort_text u.formed
  let usual := if hasPrefix u.text "https://" then 443 else 80
  have filter : captureFilterForUrl u.text = if u.authority.port.getD usual = usual
      then some ("host " ++ u.host)
      else some ("host " ++ u.host ++ " and port " ++ toString (u.authority.port.getD usual)) := by
    simp only [captureFilterForUrl, rest, Option.bind_eq_bind, Option.bind_some,
      textBefore_path u.ends u.behind, found, if_neg u.named]
    rfl
  have small : u.authority.port.getD usual < 2 ^ 16 := by
    cases port : u.authority.port with
    | some port => exact Authority.port_lt port
    | none =>
      show (if hasPrefix u.text "https://" then 443 else 80) < 2 ^ 16
      split <;> decide
  refine ⟨_, small, ?_⟩
  rw [filter]
  split
  · exact .inl rfl
  · exact .inr rfl

/- Every text without white space that a filter is made of is a URL. -/

theorem bracket_of_head {text : String} (first : text.toList.head? = some '[') :
    ∃ inner, stripPrefix text "[" = some inner := by
  obtain ⟨rest, whole⟩ := List.head?_eq_some_iff.mp first
  refine ⟨String.ofList rest, ?_⟩
  rw [stripPrefix, whole]
  rfl

theorem authority_of_hostPort {text host : String} {port : Option Nat}
    (found : hostPort text = some (host, port)) :
    ∃ a : Authority, a.Formed ∧ a.text = text ∧ a.host = host := by
  rw [hostPort] at found
  split at found
  · next inner bracket =>
    obtain ⟨⟨h, tail⟩, split, same⟩ := Option.map_eq_some_iff.mp found
    cases same
    obtain ⟨rfl, outside⟩ := splitOnce_eq_some split
    refine ⟨.bracketed host tail, outside, ?_, rfl⟩
    rw [stripPrefix_eq_some bracket, Authority.text, String.append_assoc, String.append_assoc,
      String.append_assoc]
  · next unbracketed =>
    have front : text.toList.head? ≠ some '[' := by
      intro first
      obtain ⟨inner, bracket⟩ := bracket_of_head first
      rw [bracket] at unbracketed
      cases unbracketed
    have digits : ∀ h p : String, text = h ++ ":" ++ p → p.toList.all Char.isDigit = true →
        rsplitOnce ':' text = some (h, p) := by
      rintro h p rfl number
      refine rsplitOnce_append h fun member => ?_
      exact absurd (List.all_eq_true.mp number ':' member) (by decide)
    split at found
    · next h p split =>
      split at found
      · next number =>
        cases found
        obtain ⟨rfl, _⟩ := rsplitOnce_eq_some split
        refine ⟨.ported host p, ⟨fun first => front ?_, number⟩, rfl, rfl⟩
        obtain ⟨rest, whole⟩ := List.head?_eq_some_iff.mp first
        simp [whole]
      · next other =>
        cases found
        refine ⟨.bare text, ⟨front, fun h' p' whole => ?_⟩, rfl, rfl⟩
        rw [Bool.eq_false_iff]
        intro number
        rw [digits h' p' whole number] at split
        cases split
        exact other number
    · next none =>
      cases found
      refine ⟨.bare text, ⟨front, fun h' p' whole => ?_⟩, rfl, rfl⟩
      rw [Bool.eq_false_iff]
      intro number
      rw [digits h' p' whole number] at none
      cases none

/-- What is left of a text behind its part in front of a path and a query. -/
theorem exists_path (text : String) : ∃ rest : String,
    text = textBefore '?' (textBefore '/' text) ++ rest ∧
      (∀ c ∈ (textBefore '?' (textBefore '/' text)).toList, c ≠ '/' ∧ c ≠ '?') ∧
        ∀ c ∈ rest.toList.head?, c = '/' ∨ c = '?' := by
  rw [textBefore_twice]
  refine ⟨String.ofList (text.toList.dropWhile staysInHost), ?_, fun c member => ?_, fun c first => ?_⟩
  · rw [← String.ofList_append, List.takeWhile_append_dropWhile, String.ofList_toList]
  · rw [String.toList_ofList] at member
    exact (staysInHost_iff c).mp (List.mem_takeWhile_imp member)
  · rw [String.toList_ofList] at first
    have stops := List.head?_dropWhile_not staysInHost text.toList
    rw [show (text.toList.dropWhile staysInHost).head? = some c from first] at stops
    by_contra other
    rw [not_or] at other
    exact Bool.false_ne_true (stops.symm.trans ((staysInHost_iff c).mpr other))

theorem exists_httpUrl {url filter : String} (visible : ∀ c ∈ url.toList, isWhitespace c = false)
    (made : captureFilterForUrl url = some filter) : ∃ u : HttpUrl, u.text = url := by
  obtain ⟨rest, scheme, made⟩ := Option.bind_eq_some_iff.mp made
  obtain ⟨⟨host, port⟩, found, made⟩ := Option.bind_eq_some_iff.mp made
  have named : host ≠ "" := by
    rintro rfl
    cases made
  obtain ⟨https, rfl⟩ : ∃ https : Bool, url = (if https then "https://" else "http://") ++ rest := by
    rcases Option.or_eq_some_iff.mp scheme with secure | ⟨_, plain⟩
    · exact ⟨true, stripPrefix_eq_some secure⟩
    · exact ⟨false, stripPrefix_eq_some plain⟩
  obtain ⟨a, formed, text, same⟩ := authority_of_hostPort found
  obtain ⟨path, whole, ends, behind⟩ := exists_path rest
  rw [← text] at whole ends
  have shown : ∀ c ∈ a.host.toList, isWhitespace c = false := by
    intro c member
    refine visible c ?_
    rw [whole, String.toList_append, String.toList_append]
    refine List.mem_append_right _ (List.mem_append_left _ ?_)
    cases a with
    | bare host => exact member
    | ported host digits =>
      simp only [Authority.text, String.toList_append]
      exact List.mem_append_left _ (List.mem_append_left _ member)
    | bracketed host tail =>
      simp only [Authority.text, String.toList_append]
      exact List.mem_append_left _ (List.mem_append_left _ (List.mem_append_right _ member))
  refine ⟨⟨https, a, path, formed, same ▸ named, shown, ends, behind⟩, ?_⟩
  rw [HttpUrl.text, HttpUrl.scheme, String.append_assoc, ← whole]

/- Filters of addresses are accepted. -/

theorem hexAddressChar_graphic {c : Char} (address : hexAddressChar c = true) :
    graphic c = true ∧ c ∉ ['o', 'r', 'n', 't'] := by
  have named : ∀ d ∈ ['a', 'b', 'c', 'd', 'e', 'f', '.', ':', 'A', 'B', 'C', 'D', 'E', 'F'],
      graphic d = true ∧ d ∉ ['o', 'r', 'n', 't'] := by
    simp [graphic]
  rcases Bool.or_eq_true_iff.mp address with lower | upper
  · rcases Bool.or_eq_true_iff.mp lower with digit | letter
    · refine ⟨graphic_digit digit, fun member => ?_⟩
      have none : ∀ d ∈ ['o', 'r', 'n', 't'], d.isDigit = false := by simp
      exact Bool.false_ne_true ((none c member).symm.trans digit)
    · exact named c (List.mem_append_left ['A', 'B', 'C', 'D', 'E', 'F']
        (List.contains_iff_mem.mp letter))
  · exact named c (List.mem_append_right ['a', 'b', 'c', 'd', 'e', 'f', '.', ':']
      (List.contains_iff_mem.mp upper))

theorem plainWord_hex {text : String} (nonempty : text ≠ "")
    (address : ∀ c ∈ text.toList, hexAddressChar c = true) : PlainWord text := by
  have some : text.toList ≠ [] := fun none => nonempty (String.toList_eq_nil_iff.mp none)
  refine ⟨some, fun c member => (hexAddressChar_graphic (address c member)).1, fun connective => ?_⟩
  have letters : ∀ word ∈ [['o', 'r'], ['a', 'n', 'd'], ['n', 'o', 't']],
      ∃ c ∈ word, c ∈ ['o', 'r', 'n', 't'] := by simp
  obtain ⟨c, inside, letter⟩ := letters _ connective
  exact (hexAddressChar_graphic (address c inside)).2 letter

/-- The two atoms of a filter of a URL. -/
inductive SniffAtom where
  | host
  | port
  deriving DecidableEq, Repr

def SniffAtom.words (host : String) (port : Nat) : SniffAtom → List String
  | .host => ["host", host]
  | .port => ["port", toString port]

def SniffAtom.filter (ip : IpAddr) (port : Nat) : SniffAtom → CaptureFilter
  | .host => .host ip
  | .port => .port (UInt16.ofNat port)

section

variable {ips : IpText} {host : String} {ip : IpAddr} {port : Nat}

theorem sniffAtom_plain (plain : PlainWord host) (x : SniffAtom) :
    ∀ w ∈ x.words host port, PlainWord w := by
  cases x with
  | host => exact List.forall_mem_cons.mpr ⟨by decide, List.forall_mem_singleton.mpr plain⟩
  | port =>
    exact List.forall_mem_cons.mpr
      ⟨by decide, List.forall_mem_singleton.mpr (plainWord_toString port)⟩

theorem parseAtom_sniff (plain : PlainWord host) (parsed : ips.parseIp host = some ip)
    (small : port < 2 ^ 16) (x : SniffAtom) :
    parseAtom ips (spaced ((x.words host port).map String.toList)) = .ok (x.filter ip port) := by
  have every : ∀ w ∈ x.words host port, PlainWord w := sniffAtom_plain plain x
  have all := plainWords_of (by cases x <;> exact List.cons_ne_nil _ _) every
  obtain ⟨token, words⟩ := atom_words every (by cases x <;> exact (by decide : 1 < 2))
  have tight : BoolText.trim isWhitespace (spaced ((x.words host port).map String.toList))
      = spaced ((x.words host port).map String.toList) := all.tight.trim_eq
  unfold parseAtom
  rw [tight]
  dsimp only
  rw [if_neg token, words]
  cases x with
  | host =>
    show (do return CaptureFilter.host (← parsedIp ips host)) = _
    rw [parsedIp, parsed]
    rfl
  | port =>
    show (do return CaptureFilter.port (← parsePort (toString port))) = _
    rw [parsePort, parsedInt_toString small]
    rfl

theorem accepted_of_ip (plain : PlainWord host) (parsed : ips.parseIp host = some ip)
    (small : port < 2 ^ 16) (e : BoolExpr SniffAtom) :
    ∃ v, parseCaptureFilter ips (String.ofList
      (e.print (fun x => spaced ((x.words host port).map String.toList)) .alone)) = .ok v := by
  have all : ∀ x : SniffAtom, PlainWords isWhitespace ((x.words host port).map String.toList) :=
    fun x => plainWords_of (by cases x <;> exact List.cons_ne_nil _ _) (sniffAtom_plain plain x)
  have read : ∀ x, BoolExpr.AtomRead (capReader ips)
      (fun x : SniffAtom => spaced ((x.words host port).map String.toList))
      (SniffAtom.filter ip port) x := by
    intro x
    refine ⟨(all x).unnegated (by decide), fun bare => ?_, parseAtom_sniff plain parsed small x⟩
    exact (((all x).text (by decide)).flat '(' (List.mem_of_head? bare.1)).1 rfl
  have whole := BoolExpr.read_print_plain (capReader_sees ips) (fun x => (all x).tight)
    (fun x => (all x).text (by decide)) read e
  refine ⟨_, (parseCaptureFilter_tight ips ?_).trans whole⟩
  exact BoolExpr.print_tight (capReader_sees ips) (fun x => (all x).tight) e .alone

end

/- The words of the atom that is read first. -/

/-- The first part of a text ends where the text does or in front of a blank. -/
theorem splitFrom_first {sep : Text} (separates : Separates sep) {depth : Int} {part t p : Text}
    {ps : List Text} (cut : splitFrom sep 0 depth part t = p :: ps) :
    part ++ t = p ∨ ∃ rest, part ++ t = p ++ ' ' :: rest := by
  induction t generalizing depth part with
  | nil =>
    cases cut
    exact .inl (List.append_nil _)
  | cons c t ih =>
    rw [splitFrom] at cut
    split at cut
    · next here =>
      cases cut
      obtain ⟨word, rfl, _⟩ := separates.blanks
      obtain ⟨more, whole⟩ := List.isPrefixOf_iff_prefix.mp here.2
      refine .inr ⟨t, ?_⟩
      rw [(List.cons.inj whole).1]
    · rcases ih cut with whole | ⟨rest, whole⟩
      · exact .inl (by rw [← whole, List.append_assoc]; rfl)
      · exact .inr ⟨rest, by rw [← whole, List.append_assoc]; rfl⟩

theorem joined_first {α ε : Type} {r : Reader α ε} {op : α → α → α} {unit : Text → Except ε α}
    {p : Text} {ps : List Text} {v : α} (read : r.joined op unit (p :: ps) = .ok v) :
    ∃ w, unit p = .ok w := by
  obtain ⟨w, first, _⟩ := Wire.ok_of_bind read
  exact ⟨w, first⟩

/-- What is read first of a text that is read has the words in front. -/
theorem joined_words {ε : Type} {r : Reader CaptureFilter ε} (white : r.white = isWhitespace)
    {op : CaptureFilter → CaptureFilter → CaptureFilter} {unit : Text → Except ε CaptureFilter}
    {sep t : Text} {v : CaptureFilter} (separates : Separates sep)
    (read : r.joined op unit (splitTop r.white sep t) = .ok v) :
    ∃ p w, unit p = .ok w ∧ textWords p <+: textWords t := by
  rw [splitTop] at read
  cases cut : splitFrom sep 0 0 [] t with
  | nil => exact absurd cut (splitFrom_ne_nil _ _ _ _ _)
  | cons p ps =>
    rw [cut, List.map_cons] at read
    obtain ⟨w, first⟩ := joined_first read
    refine ⟨_, w, first, ?_⟩
    rw [white, textWords_trim]
    rcases splitFrom_first separates cut with whole | ⟨rest, whole⟩
    · rw [List.nil_append] at whole
      rw [whole]
    · rw [List.nil_append] at whole
      rw [whole, textWords_append p (by decide)]
      exact List.prefix_append _ _

section

variable {ips : IpText} {host : Text}

/-- The word `host` begins an atom only with an address behind it. -/
theorem parseAtom_host {t : Text} {more : List Text} {v : CaptureFilter}
    (front : textWords t <+: "host".toList :: host :: more) (read : parseAtom ips t = .ok v) :
    ∃ ip, ips.parseIp (String.ofList host) = some ip := by
  have words : splitWhitespace (String.ofList (BoolText.trim isWhitespace t))
      = (textWords t).map String.ofList := by
    rw [splitWhitespace_words, textWords_trim]
  have first : ∀ w ws, (textWords t).map String.ofList = w :: ws → w = "host" ∧
      ∀ h hs, ws = h :: hs → h = String.ofList host := by
    intro w ws shape
    have mapped : (textWords t).map String.ofList <+:
        "host" :: String.ofList host :: more.map String.ofList := by
      obtain ⟨rest, whole⟩ := front
      exact ⟨rest.map String.ofList, by rw [← List.map_append, whole]; rfl⟩
    rw [shape] at mapped
    obtain ⟨same, rest⟩ := List.cons_prefix_cons.mp mapped
    refine ⟨same, ?_⟩
    rintro h hs rfl
    exact (List.cons_prefix_cons.mp rest).1
  unfold parseAtom at read
  dsimp only at read
  split at read
  · next token =>
    have single : ∀ name ∈ protoTokens, splitWhitespace name = [name] ∧ name ≠ "host" := by
      decide +kernel
    obtain ⟨alone, other⟩ := single _ token
    exact absurd (first _ _ (words.symm.trans alone)).1 other
  · rw [words] at read
    split at read
    · next h shape =>
      obtain ⟨ip, parsed, _⟩ := Wire.ok_of_bind read
      rw [(first _ _ shape).2 h [] rfl, parsedIp] at parsed
      split at parsed
      · next address => exact ⟨_, address⟩
      · cases parsed
    · next shape => exact absurd (first _ _ shape).1 (by decide)
    · next shape => exact absurd (first _ _ shape).1 (by decide)
    · next shape => exact absurd (first _ _ shape).1 (by decide)
    · next shape => exact absurd (first _ _ shape).1 (by decide)
    · next shape => exact absurd (first _ _ shape).1 (by decide)
    · next shape => exact absurd (first _ _ shape).1 (by decide)
    · cases read

theorem textWords_cons {c : Char} (visible : isWhitespace c = false) (t : Text) :
    ∃ tail ws, textWords (c :: t) = (c :: tail) :: ws := by
  rw [textWords, List.splitOnP_cons_eq_if_modifyHead, if_neg (by simp [visible])]
  cases parts : t.splitOnP isWhitespace with
  | nil => exact absurd parts (List.splitOnP_ne_nil _ _)
  | cons tail ws => exact ⟨tail, ws.filter fun word => !word.isEmpty, rfl⟩

theorem trim_head {t : Text} {c : Char} (head : (BoolText.trim isWhitespace t).head? = some c) :
    isWhitespace c = false := by
  have front : (t.dropWhile isWhitespace).head? = some c := by
    obtain ⟨rest, whole⟩ := List.rdropWhile_prefix isWhitespace (l := t.dropWhile isWhitespace)
    rw [← whole, List.head?_append]
    exact Option.or_eq_some_iff.mpr (.inl head)
  have stops := List.head?_dropWhile_not isWhitespace t
  rw [front] at stops
  exact Bool.eq_false_iff.mpr (by simpa using stops)

/-- The first word begins with the first character. -/
theorem first_word_char {t : Text} {c : Char} {w : Text} {ws : List Text}
    (head : (BoolText.trim isWhitespace t).head? = some c) (front : textWords t <+: w :: ws) :
    w.head? = some c := by
  rw [← textWords_trim] at front
  obtain ⟨rest, whole⟩ := List.head?_eq_some_iff.mp head
  obtain ⟨tail, others, words⟩ := textWords_cons (trim_head head) rest
  rw [whole, words] at front
  rw [← (List.cons_prefix_cons.mp front).1]
  rfl

theorem capReader_atom : (capReader ips).atom = parseAtom ips := rfl

theorem capReader_white : (capReader ips).white = isWhitespace := by
  rw [capReader]

/-- A text whose words begin with `host` and another is accepted only if that is an address. -/
theorem parseCaptureFilter_host {t : Text} {more : List Text} {v : CaptureFilter}
    (words : textWords t = "host".toList :: host :: more)
    (read : parseCaptureFilter ips (String.ofList t) = .ok v) :
    ∃ ip, ips.parseIp (String.ofList host) = some ip := by
  rw [parseCaptureFilter, String.toList_ofList] at read
  split at read
  · next none =>
    have empty := textWords_trim t
    rw [none, words] at empty
    cases empty
  · obtain ⟨p, w, readAnd, front⟩ := joined_words rfl separates_or read
    obtain ⟨q, w', readNot, front'⟩ := joined_words rfl separates_and readAnd
    rw [textWords_trim, words] at front
    have begins := front'.trans front
    obtain ⟨_, _, ⟨rest, _, negated, _⟩ | ⟨inner, bracketed, _⟩ | ⟨_, atom⟩⟩ :=
      Reader.readNot_cases readNot
    · have head := first_word_char (by rw [show BoolText.trim isWhitespace q = _ from negated]; rfl)
        begins
      exact absurd head (by decide : some 'h' ≠ some 'n')
    · have head := first_word_char (by rw [show BoolText.trim isWhitespace q = _ from bracketed]; rfl)
        begins
      exact absurd head (by decide : some 'h' ≠ some '(')
    · rw [capReader_atom, capReader_white] at atom
      rw [← textWords_trim] at begins
      exact parseAtom_host begins atom

theorem spaced_two (a b : String) :
    spaced ([a, b].map String.toList) = a.toList ++ ' ' :: b.toList := by
  show spaced [a.toList, b.toList] = _
  rw [spaced_cons _ (List.cons_ne_nil _ _), spaced, List.intercalate_singleton]

/-- The filter of a URL is accepted if and only if the host of the URL is an address. -/
theorem sniff_filter_accepted_iff (reads : ips.ReadsAddresses) (u : HttpUrl) :
    ∃ filter, captureFilterForUrl u.text = some filter ∧
      ((∃ v, parseCaptureFilter ips filter = .ok v) ↔ ∃ ip, ips.parseIp u.host = some ip) := by
  obtain ⟨port, small, made⟩ := captureFilterForUrl_text u
  have solid : textWords u.host.toList = [u.host.toList] :=
    textWords_solid (fun none => u.named (String.toList_eq_nil_iff.mp none)) u.visible
  have plain : ∀ ip, ips.parseIp u.host = some ip → PlainWord u.host := fun ip parsed =>
    plainWord_hex u.named (reads u.host ip parsed)
  have single : ("host " ++ u.host).toList = "host".toList ++ ' ' :: u.host.toList := by
    rw [String.toList_append]
    rfl
  have double : ("host " ++ u.host ++ " and port " ++ toString port).toList
      = "host".toList ++ ' ' :: (u.host.toList ++ ' ' :: ("and port ".toList ++
        (toString port).toList)) := by
    rw [String.toList_append, String.toList_append, single]
    simp only [List.append_assoc, List.cons_append]
    rfl
  have word : textWords "host".toList = ["host".toList] := by decide
  rcases made with made | made
  · refine ⟨_, made, ?_, ?_⟩
    · rintro ⟨v, read⟩
      rw [← String.ofList_toList (s := "host " ++ u.host)] at read
      have words : textWords ("host " ++ u.host).toList = ["host".toList, u.host.toList] := by
        rw [single, textWords_append _ (by decide), solid, word]
        rfl
      obtain ⟨ip, parsed⟩ := parseCaptureFilter_host words read
      exact ⟨ip, by rw [← parsed, String.ofList_toList]⟩
    · rintro ⟨ip, parsed⟩
      obtain ⟨v, read⟩ := accepted_of_ip (plain ip parsed) parsed small (.atom .host)
      refine ⟨v, ?_⟩
      rw [← String.ofList_toList (s := "host " ++ u.host), single, ← spaced_two]
      exact read
  · refine ⟨_, made, ?_, ?_⟩
    · rintro ⟨v, read⟩
      rw [← String.ofList_toList (s := "host " ++ u.host ++ " and port " ++ toString port)] at read
      have words : textWords ("host " ++ u.host ++ " and port " ++ toString port).toList
          = "host".toList :: u.host.toList :: textWords ("and port ".toList ++
            (toString port).toList) := by
        rw [double, textWords_append _ (by decide), textWords_append _ (by decide), solid, word]
        rfl
      obtain ⟨ip, parsed⟩ := parseCaptureFilter_host words read
      exact ⟨ip, by rw [← parsed, String.ofList_toList]⟩
    · rintro ⟨ip, parsed⟩
      obtain ⟨v, read⟩ := accepted_of_ip (plain ip parsed) parsed small
        (.and (.atom .host) (.atom .port))
      have print : ("host " ++ u.host ++ " and port " ++ toString port).toList
          = spaced (["host", u.host].map String.toList) ++ andSep ++
            spaced (["port", toString port].map String.toList) := by
        rw [double, spaced_two, spaced_two, andSep]
        simp only [List.append_assoc, List.cons_append]
        rfl
      refine ⟨v, ?_⟩
      rw [← String.ofList_toList (s := "host " ++ u.host ++ " and port " ++ toString port), print]
      exact read

end

/- A host with a name. -/

/-- The addresses of the demonstration, read from nothing but hexadecimal digits, dots and
colons. -/
def checkedIpText : IpText where
  parseIp text := if text.toList.all hexAddressChar then demoIpText.parseIp text else none
  parseIpv4 := demoIpText.parseIpv4
  ipText := demoIpText.ipText
  ipv4Text := demoIpText.ipv4Text

theorem checkedIpText_reads : checkedIpText.ReadsAddresses := by
  intro text ip read
  simp only [checkedIpText, Option.ite_none_right_eq_some] at read
  exact List.all_eq_true.mp read.1

/-- The filter of `https://example.com/` is not accepted. -/
theorem named_host_is_refused :
    captureFilterForUrl "https://example.com/" = some "host example.com" ∧
      sniffFromHttp checkedIpText "https://example.com/"
        = some (.error (.parse "invalid IP address syntax")) := by
  decide +kernel

/-- `http://10.0.0.1:8080/v1`. -/
def addressUrl : HttpUrl where
  https := false
  authority := .ported "10.0.0.1" "8080"
  rest := "/v1"
  formed := ⟨by decide, by decide⟩
  named := by decide
  visible c member := by
    have all : ("10.0.0.1".toList.all fun c => isWhitespace c = false) = true := by decide
    exact of_decide_eq_true (List.all_eq_true.mp all c member)
  ends c member := by
    have all : ("10.0.0.1:8080".toList.all fun c => c ≠ '/' ∧ c ≠ '?') = true := by decide
    exact of_decide_eq_true (List.all_eq_true.mp all c member)
  behind c member := .inl (Option.some.inj member).symm

theorem sniff_filter_accepted_iff_address :
    ∃ filter, captureFilterForUrl addressUrl.text = some filter ∧
      ∃ v, parseCaptureFilter checkedIpText filter = .ok v := by
  obtain ⟨filter, made, accepted⟩ := sniff_filter_accepted_iff checkedIpText_reads addressUrl
  exact ⟨filter, made, accepted.mpr ⟨.v4 0x0a000001, by decide +kernel⟩⟩

end BitBeak
