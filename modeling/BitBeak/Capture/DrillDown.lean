import BitBeak.Capture.DispCompare
import BitBeak.Capture.EndpointText
import BitBeak.Dissect.Conserved
import BitBeak.Dissect.PayloadSlice
import BitBeak.Dissect.TlsCapture

/-! The display filter of a conversation row. It is read back and matches the packets of the row,
and with them every packet whose ends contain the same texts. -/
namespace BitBeak.DispFilter
open BoolText Tally Wire

/- The atoms that the rows write. -/

inductive RowAtom where
  | addr (host : { text // AddressText text })
  | port (proto : TransportProto) (p : UInt16)

namespace RowAtom

def name : RowAtom → String
  | addr _ => "ip.addr"
  | port .tcp _ => "tcp.port"
  | port .udp _ => "udp.port"

def value : RowAtom → String
  | addr host => host.val
  | port _ p => toString p.toNat

def words (x : RowAtom) : List String := [x.name, "==", x.value]

def text (x : RowAtom) : Text := spaced (x.words.map String.toList)

def filter {R : Type} : RowAtom → DisplayFilter R
  | addr host => .ipAddr host.val
  | port .tcp p => .tcpPort p
  | port .udp p => .udpPort p

variable (x : RowAtom)

theorem words_plain : ∀ w ∈ x.words, PlainWord w := by
  have value : PlainWord x.value := by
    cases x with
    | addr host => exact plainWord_address host.property
    | port proto p => exact plainWord_toString p.toNat
  have name : PlainWord x.name := by
    have names : ∀ name ∈ ["ip.addr", "tcp.port", "udp.port"], PlainWord name := by decide
    rcases x with host | ⟨_ | _, p⟩ <;> exact names _ (by simp [RowAtom.name])
  intro w member
  simp only [words, List.mem_cons, List.not_mem_nil, or_false] at member
  rcases member with rfl | rfl | rfl
  · exact name
  · decide
  · exact value

theorem plainWords : PlainWords isWhitespace (x.words.map String.toList) :=
  plainWords_of (List.cons_ne_nil _ _) x.words_plain

theorem text_eq : x.text = x.name.toList ++ ' ' :: '=' :: '=' :: ' ' :: x.value.toList := by
  simp [text, words, spaced, List.intercalate, List.intersperse]

end RowAtom

theorem tight_of_visible {white : Char → Bool} {v : Text} (nonempty : v ≠ [])
    (visible : ∀ c ∈ v, white c = false) : Tight white v :=
  ⟨⟨_, List.head?_eq_some_head nonempty, visible _ (List.head_mem nonempty)⟩,
    ⟨_, List.getLast?_eq_some_getLast nonempty, visible _ (List.getLast_mem nonempty)⟩⟩

theorem behindEq_value {v : Text} (tight : Tight isWhitespace v) :
    behindEq (' ' :: '=' :: '=' :: ' ' :: v) = v := by
  have front : Tight isWhitespace (['=', '='] ++ [' '] ++ v) :=
    Tight.append ⟨⟨'=', rfl, by decide⟩, ⟨'=', rfl, by decide⟩⟩ tight [' ']
  have first : BoolText.trim isWhitespace (' ' :: '=' :: '=' :: ' ' :: v) = '=' :: '=' :: ' ' :: v :=
    (trim_blank_cons _).trans front.trim_eq
  have value : trimEqEq (' ' :: v) = ' ' :: v := by
    rw [trimEqEq]
    intro rest other
    cases other
  rw [behindEq, first, trimEqEq, value, List.dropWhile_cons_of_neg (by decide), trim_blank_cons,
    tight.trim_eq]

/-- Digits, letters, dots and colons are no white space. -/
theorem address_tight {v : String} (plain : PlainWord v) : Tight isWhitespace v.toList :=
  tight_of_visible plain.nonempty fun c member => (graphic_plain (plain.shows c member)).1

theorem parseEqStr_value {host : String} (address : AddressText host) :
    parseEqStr (' ' :: '=' :: '=' :: ' ' :: host.toList) = .ok host := by
  have plain := plainWord_address address
  have quotes : ∀ c ∈ host.toList, isQuote c = false := by
    intro c member
    rw [isQuote, beq_eq_false_iff_ne]
    rintro rfl
    exact absurd (address.1 _ member) (by decide)
  rw [parseEqStr, behindEq_value (address_tight plain),
    (tight_of_visible plain.nonempty quotes).trim_eq, if_neg plain.nonempty, String.ofList_toList]

theorem parseEqU16_value (p : UInt16) :
    parseEqU16 (' ' :: '=' :: '=' :: ' ' :: (toString p.toNat).toList) = .ok p := by
  rw [parseEqU16, behindEq_value (address_tight (plainWord_toString p.toNat)),
    parsedNum_toString p.toNat_lt]
  exact congrArg Except.ok UInt16.ofNat_toNat

section

variable {R : Type} (regexNew : String → Except String R)

theorem parseNamed_row (x : RowAtom) : parseNamed (R := R) x.text = some (.ok x.filter) := by
  rw [x.text_eq]
  rcases x with host | ⟨_ | _, p⟩
  · have own := parseNamed_own (R := R)
      ("ip.addr", fun rest => do return .ipAddr (← parseEqStr rest)) (by simp [ownAtoms])
      ('=' :: '=' :: ' ' :: host.val.toList)
    dsimp only at own
    rw [parseEqStr_value host.property] at own
    exact own
  · have own := parseNamed_own (R := R)
      ("tcp.port", fun rest => do return .tcpPort (← parseEqU16 rest))
      (by simp [ownAtoms]) ('=' :: '=' :: ' ' :: (toString p.toNat).toList)
    dsimp only at own
    rw [parseEqU16_value] at own
    exact own
  · have own := parseNamed_udp (R := R) ('=' :: '=' :: ' ' :: (toString p.toNat).toList)
    rw [parseEqU16_value] at own
    exact own

theorem rowText_tight (x : RowAtom) : Tight isWhitespace x.text := x.plainWords.tight

theorem rowText_plain (x : RowAtom) : PlainText x.text := x.plainWords.text isWhitespace_blank

theorem parseAtom_row (x : RowAtom) : parseAtom regexNew x.text = .ok x.filter := by
  rw [parseAtom, (rowText_tight x).trim_eq, parseNamed_row]

theorem rowAtom_read (x : RowAtom) :
    BoolExpr.AtomRead (dispReader regexNew) RowAtom.text RowAtom.filter x := by
  constructor
  · exact x.plainWords.unnegated isWhitespace_blank
  · intro both
    have member : '(' ∈ x.text := List.mem_of_mem_head? both.1
    exact ((rowText_plain x).flat '(' member).1 rfl
  · rw [dispReader_atom]
    exact parseAtom_row regexNew x

theorem parse_read {text : String} (tight : Tight isWhitespace text.toList) :
    parseDisplayFilter regexNew text = (dispReader regexNew).read text.toList := by
  have nonempty : text.toList ≠ [] := by
    intro none
    obtain ⟨c, head, _⟩ := tight.first
    rw [none] at head
    cases head
  rw [parseDisplayFilter, tight.trim_eq, if_neg nonempty]
  rfl

section

variable (a b : { text // AddressText text }) (proto : TransportProto) (p q : UInt16)

/-- What the rows of TCP and UDP write. -/
def portedText : String :=
  "(ip.addr == " ++ a.val ++ " and ip.addr == " ++ b.val ++ ") and (" ++
    (RowAtom.port proto p).name ++ " == " ++ toString p.toNat ++ " or " ++
      (RowAtom.port proto q).name ++ " == " ++ toString q.toNat ++ ")"

/-- What the other rows write. -/
def hostsText : String := "ip.addr == " ++ a.val ++ " or ip.addr == " ++ b.val

theorem print_and (x y : RowAtom) : (BoolExpr.and (.atom x) (.atom y)).print RowAtom.text .alone =
    x.text ++ andSep ++ y.text := by
  rw [BoolExpr.print, if_neg (by decide), BoolExpr.print, BoolExpr.print]

theorem print_or (x y : RowAtom) : (BoolExpr.or (.atom x) (.atom y)).print RowAtom.text .alone =
    x.text ++ orSep ++ y.text := by
  rw [BoolExpr.print, if_pos rfl, BoolExpr.print, BoolExpr.print]

/-- The characters of the text, whatever stands for its values. -/
theorem ported_chars (one other a b p q : String) :
    ("(ip.addr == " ++ a ++ " and ip.addr == " ++ b ++ ") and (" ++ one ++ " == " ++ p ++ " or " ++
      other ++ " == " ++ q ++ ")").toList =
        parens ("ip.addr".toList ++ ' ' :: '=' :: '=' :: ' ' :: a.toList ++ andSep ++
          ("ip.addr".toList ++ ' ' :: '=' :: '=' :: ' ' :: b.toList)) ++ andSep ++
            parens (one.toList ++ ' ' :: '=' :: '=' :: ' ' :: p.toList ++ orSep ++
              (other.toList ++ ' ' :: '=' :: '=' :: ' ' :: q.toList)) := by
  simp [parens, andSep, orSep]

theorem portedText_toList : (portedText a b proto p q).toList =
    parens ((BoolExpr.and (.atom (.addr a)) (.atom (.addr b))).print RowAtom.text .alone) ++
      andSep ++ parens ((BoolExpr.or (.atom (.port proto p)) (.atom (.port proto q))).print
        RowAtom.text .alone) := by
  rw [print_and, print_or]
  simp only [RowAtom.text_eq]
  exact ported_chars _ _ _ _ _ _

theorem hostsText_toList : (hostsText a b).toList =
    (BoolExpr.or (.atom (.addr a)) (.atom (.addr b))).print RowAtom.text .alone := by
  rw [print_or, hostsText]
  simp [RowAtom.text_eq, RowAtom.name, RowAtom.value, orSep]

theorem parse_portedText : parseDisplayFilter regexNew (portedText a b proto p q) =
    .ok (.and (.and (.ipAddr a.val) (.ipAddr b.val))
      (.or (RowAtom.port proto p).filter (RowAtom.port proto q).filter)) := by
  have sees : (dispReader regexNew).Sees := dispReader_sees
  have read := BoolExpr.read_and_parens sees rowText_tight rowText_plain (rowAtom_read regexNew)
    (.and (.atom (.addr a)) (.atom (.addr b))) (.or (.atom (.port proto p)) (.atom (.port proto q)))
  rw [← portedText_toList] at read
  have tight : Tight isWhitespace (portedText a b proto p q).toList := by
    rw [portedText_toList]
    exact (BoolExpr.tight_parens sees _).append (BoolExpr.tight_parens sees _) andSep
  rw [parse_read regexNew tight, read]
  rfl

theorem parse_hostsText : parseDisplayFilter regexNew (hostsText a b) =
    .ok (.or (.ipAddr a.val) (.ipAddr b.val)) := by
  have sees : (dispReader regexNew).Sees := dispReader_sees
  have read := BoolExpr.read_print_plain sees rowText_tight rowText_plain (rowAtom_read regexNew)
    (.or (.atom (.addr a)) (.atom (.addr b)))
  rw [← hostsText_toList] at read
  have tight : Tight isWhitespace (hostsText a b).toList := by
    rw [hostsText_toList]
    exact BoolExpr.print_tight sees rowText_tight _ .alone
  rw [parse_read regexNew tight, read]
  rfl

end

end

/- The ends of dissected packets. -/

/-- The packet is what its frame was dissected into, with or without a key log. -/
def Dissected (crates : Crates) (ciphers : TlsCiphers) (p : TimedPacket) : Prop :=
  ∃ keylog d, dissectWith crates ciphers keylog p.data p.linkType = .ok d ∧
    p.summary = d.summary ∧ p.flags = d.flags

/-- An address with a port. -/
def PortedEnd (text : String) : Prop :=
  ∃ a port, EndAddress a ∧ port < 2 ^ 16 ∧ text = withPort a port

structure PacketEnds (p : TimedPacket) : Prop where
  src : p.summary.src = "" ∨ EndAddress p.summary.src ∨ PortedEnd p.summary.src
  dst : p.summary.dst = "" ∨ EndAddress p.summary.dst ∨ PortedEnd p.summary.dst
  ported : p.flags.tcp = true ∨ p.flags.udp = true →
    PortedEnd p.summary.src ∧ PortedEnd p.summary.dst

theorem ported_ends {sport dport : Nat} {s : Dissection} (ported : Ported sport dport s)
    (small : sport < 2 ^ 16) (small' : dport < 2 ^ 16) :
    PortedEnd s.summary.src ∧ PortedEnd s.summary.dst := by
  obtain ⟨⟨a, address, src⟩, ⟨b, address', dst⟩⟩ := ported
  exact ⟨⟨a, sport, address, small, src⟩, ⟨b, dport, address', small', dst⟩⟩

theorem Dissected.ends {crates : Crates} {ciphers : TlsCiphers} {p : TimedPacket}
    (dissected : Dissected crates ciphers p) : PacketEnds p := by
  obtain ⟨keylog, d, done, summary, flags⟩ := dissected
  obtain ⟨plain, first, restaged⟩ := dissectWith_restaged done
  have account := (dissect_account first).1
  have same := restaged.ends
  simp only [Dissection.ends, DissectedPacket.state, Ends.mk.injEq] at same
  obtain ⟨src, dst, tcp, udp, -⟩ := same
  rw [← summary] at src dst
  rw [← flags] at tcp udp
  have ported_packet : PortedEnd plain.summary.src ∧ PortedEnd plain.summary.dst → PacketEnds p := by
    rintro ⟨source, destination⟩
    rw [← src] at source
    rw [← dst] at destination
    exact ⟨.inr (.inr source), .inr (.inr destination), fun _ => ⟨source, destination⟩⟩
  cases account with
  | none untouched =>
    have maybe : ∀ {text : String}, MaybeAddress text →
        text = "" ∨ EndAddress text ∨ PortedEnd text := by
      rintro text (none | address)
      · exact .inl none
      · exact .inr (.inl address)
    refine ⟨src ▸ maybe untouched.src, dst ▸ maybe untouched.dst, fun flagged => ?_⟩
    rw [tcp, udp] at flagged
    rcases flagged with on | on
    · exact absurd (on.symm.trans untouched.tcp) (by decide)
    · exact absurd (on.symm.trans untouched.udp) (by decide)
  | udp seg noted proto off on ported =>
    obtain ⟨sport, small, dport, small', ported⟩ := ported
    exact ported_packet (ported_ends ported small small')
  | tcp data here offset noted on off tls ported =>
    exact ported_packet (ported_ends ported (beAt_lt data 0 2) (beAt_lt data 2 2))

/- The texts of the ends. -/

theorem addressText_withPort {a : String} (address : AddressText a) (port : Nat) :
    AddressText (withPort a port) := by
  rw [withPort_eq address]
  obtain ⟨chars, c, member, mark⟩ := address
  constructor
  · intro d inside
    simp only [String.toList_append, String.toList_ofList, List.mem_append,
      List.mem_singleton] at inside
    rcases inside with (early | rfl) | late
    · exact chars d early
    · decide
    · exact addressChar_toString late
  · exact ⟨c, by simp [member], mark⟩

/-- The statistics leave an address, perhaps with its port. -/
theorem addressText_stripPort {text : String} (known : EndAddress text ∨ PortedEnd text) :
    AddressText (stripPort text) := by
  rcases known with bare | ⟨a, port, bare, small, rfl⟩
  · rw [bare.whole]
    exact bare.address
  · rw [stripPort_withPort bare.address small]
    split
    · exact addressText_withPort bare.address port
    · exact bare.address

theorem portOf_ported {text : String} (ported : PortedEnd text) :
    portOf text = some (stripPortNum text) ∧
      ∃ port : UInt16, stripPortNum text = toString port.toNat := by
  obtain ⟨a, port, bare, small, rfl⟩ := ported
  have number : stripPortNum (withPort a port) = toString port := by
    simp only [stripPortNum, rsplitOnce_withPort bare.address, parseU16_toString small,
      Option.isSome_some, if_true]
  refine ⟨?_, UInt16.ofNat port, ?_⟩
  · rw [number]
    exact portOf_withPort bare.address small
  · rw [number, UInt16.toNat_ofNat_of_lt' small]

/-- The text ends in a colon and a number if and only if that is its port. -/
theorem hasSuffix_ported {text : String} (ported : PortedEnd text) (n : Nat) :
    hasSuffix text (":" ++ toString n) = true ↔ portOf text = some (toString n) := by
  obtain ⟨a, port, bare, small, rfl⟩ := ported
  rw [portOf_withPort bare.address small, hasSuffix, List.isSuffixOf_iff_suffix]
  constructor
  · rintro ⟨front, whole⟩
    have cut : withPort a port = String.ofList front ++ String.ofList [':'] ++ toString n := by
      rw [← String.toList_inj, ← whole]
      simp
    have parts := rsplitOnce_withPort bare.address port
    have behind : ':' ∉ (toString n).toList := outside_toString (by decide)
    rw [cut, rsplitOnce_append _ behind] at parts
    exact congrArg some (Prod.mk.inj (Option.some.inj parts)).2.symm
  · intro same
    rw [withPort_eq bare.address, Option.some.inj same]
    exact ⟨a.toList, by simp⟩

/- The packets of a row. -/

def CountedIn (row : ConversationRow) (p : TimedPacket) : Prop :=
  row.kind ∈ countedKinds p ∧ pairOf p = (row.addrA, row.addrB)

instance (row : ConversationRow) (p : TimedPacket) : Decidable (CountedIn row p) :=
  inferInstanceAs (Decidable (_ ∧ _))

/-- A host is part of the text of one of the ends. -/
def Mentions (p : TimedPacket) (host : String) : Prop :=
  hasText p.summary.src host = true ∨ hasText p.summary.dst host = true

def HasPort (p : TimedPacket) (port : String) : Prop :=
  portOf p.summary.src = some port ∨ portOf p.summary.dst = some port

def flagOf (flags : ProtocolFlags) : TransportProto → Bool
  | .tcp => flags.tcp
  | .udp => flags.udp

/-- The packet has the texts that are looked for: both hosts and one of the two ports for TCP
and UDP, and one of the two hosts for the other rows. -/
def Drawn (row : ConversationRow) (p : TimedPacket) : Prop :=
  let ported (proto : TransportProto) : Prop :=
    flagOf p.flags proto = true ∧
      (Mentions p (stripPort row.addrA) ∧ Mentions p (stripPort row.addrB)) ∧
      (HasPort p (stripPortNum row.addrA) ∨ HasPort p (stripPortNum row.addrB))
  match row.kind with
  | .tcp => ported .tcp
  | .udp => ported .udp
  | _ => Mentions p (stripPort row.addrA) ∨ Mentions p (stripPort row.addrB)

theorem pairOf_cases (p : TimedPacket) : pairOf p = (p.summary.src, p.summary.dst) ∨
    pairOf p = (p.summary.dst, p.summary.src) := by
  unfold pairOf normalizePair
  split
  · exact .inl rfl
  · exact .inr rfl

theorem flag_of_counted {p : TimedPacket} (proto : TransportProto)
    (counted : (match proto with | .tcp => ConversationKind.tcp | .udp => .udp) ∈ countedKinds p) :
    flagOf p.flags proto = true := by
  unfold countedKinds at counted
  split at counted
  · cases counted
  · unfold conversationKinds at counted
    cases proto <;> revert counted <;> unfold flagOf <;> dsimp only <;>
      cases p.flags.ethernet <;> cases p.flags.tcp <;> cases p.flags.udp <;>
        cases p.flags.ipv4 <;> cases p.flags.ipv6 <;> decide

theorem hasText_stripPort (text : String) : hasText text (stripPort text) = true := by
  rw [hasText_iff, stripPort]
  split
  · next host port split =>
    obtain ⟨whole, _⟩ := rsplitOnce_eq_some split
    split_ifs
    · rw [whole, String.append_assoc, String.toList_append]
      exact (List.prefix_append _ _).isInfix
    · exact List.infix_refl _
  · exact List.infix_refl _

/-- A row has been made by a packet that is counted in it. -/
theorem row_counted {packets : List TimedPacket} {row : ConversationRow}
    (made : row ∈ (packets.foldl ConversationTable.ingest ∅).rows) :
    ∃ p ∈ packets, CountedIn row p := by
  obtain ⟨k, found⟩ := mem_rows.mp ((rows_perm _).mem_iff.mp made)
  have keyed := conversation_keyed packets k row found
  have there : k ∈ packets.foldl ConversationTable.ingest ∅ := by
    apply AList.lookup_isSome.mp
    rw [found]
    rfl
  rw [conversations_eq, mem_puts] at there
  rcases there with none | ⟨u, member, same⟩
  · exact absurd none (AList.notMem_empty k)
  · obtain ⟨⟨p, kind⟩, tag, rfl⟩ := List.mem_map.mp member
    obtain ⟨q, taken, listed⟩ := List.mem_flatMap.mp tag
    obtain ⟨kind', counted, equal⟩ := List.mem_map.mp listed
    cases equal
    rw [conversationUpdate_key, ← keyed] at same
    obtain ⟨rfl, pair⟩ := Prod.mk.inj same
    exact ⟨_, taken, counted, pair⟩

section

variable {row : ConversationRow} {p : TimedPacket}

/-- The ends of the row are those of a packet that is counted in it. -/
theorem CountedIn.ends (counted : CountedIn row p) :
    (row.addrA = p.summary.src ∧ row.addrB = p.summary.dst) ∨
      (row.addrA = p.summary.dst ∧ row.addrB = p.summary.src) := by
  have pair := counted.2
  rcases pairOf_cases p with same | swapped
  · rw [same] at pair
    exact .inl ⟨(Prod.mk.inj pair).1.symm, (Prod.mk.inj pair).2.symm⟩
  · rw [swapped] at pair
    exact .inr ⟨(Prod.mk.inj pair).1.symm, (Prod.mk.inj pair).2.symm⟩

/-- What both ends of a packet have, both ends of its rows have. -/
theorem CountedIn.both (counted : CountedIn row p) (holds : String → Prop)
    (src : holds p.summary.src) (dst : holds p.summary.dst) :
    holds row.addrA ∧ holds row.addrB := by
  rcases counted.ends with ⟨a, b⟩ | ⟨a, b⟩
  · rw [a, b]
    exact ⟨src, dst⟩
  · rw [a, b]
    exact ⟨dst, src⟩

/-- Both ends of a counted packet are known. -/
theorem CountedIn.known (counted : CountedIn row p) (ends : PacketEnds p) :
    (EndAddress row.addrA ∨ PortedEnd row.addrA) ∧ (EndAddress row.addrB ∨ PortedEnd row.addrB) := by
  have listed := counted.1
  unfold countedKinds at listed
  split at listed
  · cases listed
  · next nonempty =>
    simp only [String.isEmpty_iff, not_or] at nonempty
    exact counted.both (fun text => EndAddress text ∨ PortedEnd text)
      (ends.src.resolve_left nonempty.1) (ends.dst.resolve_left nonempty.2)

/-- The packets of a row have its texts. -/
theorem CountedIn.drawn (counted : CountedIn row p) (ends : PacketEnds p) : Drawn row p := by
  have mentions : Mentions p (stripPort row.addrA) ∧ Mentions p (stripPort row.addrB) :=
    counted.both (fun text => Mentions p (stripPort text))
      (.inl (hasText_stripPort _)) (.inr (hasText_stripPort _))
  have ported : ∀ proto, flagOf p.flags proto = true →
      flagOf p.flags proto = true ∧
        (Mentions p (stripPort row.addrA) ∧ Mentions p (stripPort row.addrB)) ∧
          (HasPort p (stripPortNum row.addrA) ∨ HasPort p (stripPortNum row.addrB)) := by
    intro proto flagged
    have either : p.flags.tcp = true ∨ p.flags.udp = true := by
      cases proto with
      | tcp => exact .inl flagged
      | udp => exact .inr flagged
    obtain ⟨src, dst⟩ := ends.ported either
    have ports := counted.both (fun text => HasPort p (stripPortNum text))
      (.inl (portOf_ported src).1) (.inr (portOf_ported dst).1)
    exact ⟨flagged, mentions, .inl ports.1⟩
  have listed := counted.1
  unfold Drawn
  dsimp only
  split
  · next tcp => exact ported .tcp (flag_of_counted .tcp (tcp ▸ listed))
  · next udp => exact ported .udp (flag_of_counted .udp (udp ▸ listed))
  · exact .inl mentions.1

end

section

variable {R : Type} (regexNew : String → Except String R) (isMatch : R → String → Bool)

theorem holds_addr (p : TimedPacket) (host : String) :
    (DisplayFilter.ipAddr (R := R) host).holds isMatch p.toStoredPacket = true ↔ Mentions p host :=
  Bool.or_eq_true_iff

theorem holds_port {p : TimedPacket} (ends : PacketEnds p) (proto : TransportProto) (n : UInt16) :
    ((RowAtom.port proto n).filter (R := R)).holds isMatch p.toStoredPacket = true ↔
      flagOf p.flags proto = true ∧ HasPort p (toString n.toNat) := by
  have either : flagOf p.flags proto = true → p.flags.tcp = true ∨ p.flags.udp = true := by
    cases proto with
    | tcp => exact .inl
    | udp => exact .inr
  have same : flagOf p.flags proto = true →
      (portMatches p.toStoredPacket n = true ↔ HasPort p (toString n.toNat)) := by
    intro flagged
    obtain ⟨src, dst⟩ := ends.ported (either flagged)
    rw [portMatches, Bool.or_eq_true, hasSuffix_ported src, hasSuffix_ported dst]
    rfl
  rw [← and_congr_right same]
  cases proto <;> exact Bool.and_eq_true_iff

theorem tcp_between : ") and (tcp.port == " = ") and (" ++ "tcp.port" ++ " == " ∧
    " or tcp.port == " = " or " ++ "tcp.port" ++ " == " := by
  decide

theorem udp_between : ") and (udp.port == " = ") and (" ++ "udp.port" ++ " == " ∧
    " or udp.port == " = " or " ++ "udp.port" ++ " == " := by
  decide

/-- What stands around the ports names their protocol. -/
theorem named_chars {name one other : String} (first : one = ") and (" ++ name ++ " == ")
    (second : other = " or " ++ name ++ " == ") (a b p q : String) :
    "(ip.addr == " ++ a ++ " and ip.addr == " ++ b ++ one ++ p ++ other ++ q ++ ")" =
      "(ip.addr == " ++ a ++ " and ip.addr == " ++ b ++ ") and (" ++ name ++ " == " ++ p ++
        " or " ++ name ++ " == " ++ q ++ ")" := by
  subst first second
  simp only [String.append_assoc]

theorem hostsText_read (a b : { text // AddressText text }) :
    ∃ f, parseDisplayFilter regexNew (hostsText a b) = .ok f ∧
      ∀ p : TimedPacket, f.holds isMatch p.toStoredPacket = true ↔
        Mentions p a.val ∨ Mentions p b.val := by
  refine ⟨_, parse_hostsText regexNew a b, fun p => ?_⟩
  exact Bool.or_eq_true_iff.trans (or_congr (holds_addr isMatch p _) (holds_addr isMatch p _))

theorem portedText_read (a b : { text // AddressText text }) (proto : TransportProto)
    (n m : UInt16) :
    ∃ f, parseDisplayFilter regexNew (portedText a b proto n m) = .ok f ∧
      ∀ p, PacketEnds p → (f.holds isMatch p.toStoredPacket = true ↔
        flagOf p.flags proto = true ∧ (Mentions p a.val ∧ Mentions p b.val) ∧
          (HasPort p (toString n.toNat) ∨ HasPort p (toString m.toNat))) := by
  refine ⟨_, parse_portedText regexNew a b proto n m, fun p ends => ?_⟩
  have hosts : (DisplayFilter.and (R := R) (.ipAddr a.val) (.ipAddr b.val)).holds isMatch
      p.toStoredPacket = true ↔ Mentions p a.val ∧ Mentions p b.val :=
    Bool.and_eq_true_iff.trans (and_congr (holds_addr isMatch p _) (holds_addr isMatch p _))
  have ports := or_congr (holds_port isMatch ends proto n) (holds_port isMatch ends proto m)
  have whole := and_congr hosts ports
  rw [← and_or_left, and_left_comm] at whole
  exact (Bool.and_eq_true_iff.trans (and_congr_right fun _ => Bool.or_eq_true_iff)).trans whole

/-- The text of a row is read as a filter that looks for the texts of the row. -/
theorem filterExpr_read {row : ConversationRow}
    (a : EndAddress row.addrA ∨ PortedEnd row.addrA) (b : EndAddress row.addrB ∨ PortedEnd row.addrB)
    (ported : row.kind = .tcp ∨ row.kind = .udp → PortedEnd row.addrA ∧ PortedEnd row.addrB) :
    ∃ f, parseDisplayFilter regexNew row.filterExpr = .ok f ∧
      ∀ p, PacketEnds p → (f.holds isMatch p.toStoredPacket = true ↔ Drawn row p) := by
  let hostA : { text // AddressText text } := ⟨stripPort row.addrA, addressText_stripPort a⟩
  let hostB : { text // AddressText text } := ⟨stripPort row.addrB, addressText_stripPort b⟩
  obtain ⟨f, read, either⟩ := hostsText_read regexNew isMatch hostA hostB
  unfold Drawn ConversationRow.filterExpr
  dsimp only
  cases kind : row.kind with
  | tcp =>
    obtain ⟨endA, endB⟩ := ported (.inl kind)
    obtain ⟨_, n, portA⟩ := portOf_ported endA
    obtain ⟨_, m, portB⟩ := portOf_ported endB
    dsimp only
    rw [named_chars tcp_between.1 tcp_between.2, portA, portB]
    exact portedText_read regexNew isMatch hostA hostB .tcp n m
  | udp =>
    obtain ⟨endA, endB⟩ := ported (.inr kind)
    obtain ⟨_, n, portA⟩ := portOf_ported endA
    obtain ⟨_, m, portB⟩ := portOf_ported endB
    dsimp only
    rw [named_chars udp_between.1 udp_between.2, portA, portB]
    exact portedText_read regexNew isMatch hostA hostB .udp n m
  | ethernet => exact ⟨f, read, fun p _ => either p⟩
  | ipv4 => exact ⟨f, read, fun p _ => either p⟩
  | ipv6 => exact ⟨f, read, fun p _ => either p⟩

end

/-- The text of the row is read, and the filter matches the packets of the row and no others. -/
def DrillsDown {R : Type} (regexNew : String → Except String R) (isMatch : R → String → Bool)
    (packets : List TimedPacket) (row : ConversationRow) : Prop :=
  ∃ f, parseDisplayFilter regexNew row.filterExpr = .ok f ∧
    ∀ p ∈ packets, f.matchesPacket isMatch p.toStoredPacket = .ok (decide (CountedIn row p))

section

variable {R : Type} (regexNew : String → Except String R) (isMatch : R → String → Bool)
variable {crates : Crates} {ciphers : TlsCiphers} {packets : List TimedPacket}

/-- The filter of a row of dissected packets. -/
theorem row_filter (dissected : ∀ p ∈ packets, Dissected crates ciphers p) {row : ConversationRow}
    (made : row ∈ (packets.foldl ConversationTable.ingest ∅).rows) :
    ∃ f, parseDisplayFilter regexNew row.filterExpr = .ok f ∧
      ∀ p ∈ packets, (f.holds isMatch p.toStoredPacket = true ↔ Drawn row p) := by
  obtain ⟨p, taken, counted⟩ := row_counted made
  have ends := (dissected p taken).ends
  obtain ⟨a, b⟩ := counted.known ends
  have ported : row.kind = .tcp ∨ row.kind = .udp → PortedEnd row.addrA ∧ PortedEnd row.addrB := by
    intro kind
    have flagged : p.flags.tcp = true ∨ p.flags.udp = true := by
      rcases kind with tcp | udp
      · exact .inl (flag_of_counted .tcp (tcp ▸ counted.1))
      · exact .inr (flag_of_counted .udp (udp ▸ counted.1))
    obtain ⟨src, dst⟩ := ends.ported flagged
    exact counted.both PortedEnd src dst
  obtain ⟨f, read, holds⟩ := filterExpr_read regexNew isMatch a b ported
  exact ⟨f, read, fun q taken => holds q (dissected q taken).ends⟩

/-- The filter of a row is read and matches every packet of the row. It matches no others if and
only if no other packet that was taken in has the texts of the row. -/
theorem drill_down_exact_iff (dissected : ∀ p ∈ packets, Dissected crates ciphers p)
    {row : ConversationRow} (made : row ∈ (packets.foldl ConversationTable.ingest ∅).rows) :
    (∃ f, parseDisplayFilter regexNew row.filterExpr = .ok f ∧
      ∀ p ∈ packets, CountedIn row p → f.matchesPacket isMatch p.toStoredPacket = .ok true) ∧
        (DrillsDown regexNew isMatch packets row ↔
          ∀ p ∈ packets, Drawn row p → CountedIn row p) := by
  obtain ⟨f, read, holds⟩ := row_filter regexNew isMatch dissected made
  have drawn : ∀ p ∈ packets, CountedIn row p → Drawn row p := fun p taken counted =>
    counted.drawn (dissected p taken).ends
  constructor
  · refine ⟨f, read, fun p taken counted => ?_⟩
    rw [DisplayFilter.matchesPacket_ok, (holds p taken).mpr (drawn p taken counted)]
  constructor
  · rintro ⟨f', read', exactly⟩ p taken matched
    cases read.symm.trans read'
    have same := exactly p taken
    rw [DisplayFilter.matchesPacket_ok, (holds p taken).mpr matched, Except.ok.injEq] at same
    exact of_decide_eq_true same.symm
  · intro alone
    refine ⟨f, read, fun p taken => ?_⟩
    rw [DisplayFilter.matchesPacket_ok, Except.ok.injEq, Bool.eq_iff_iff, holds p taken,
      decide_eq_true_iff]
    exact ⟨alone p taken, drawn p taken⟩

end

/-- A packet of one segment from the given port of 10.0.0.1 to port 2 of 10.0.0.2. -/
def segmentPacket (sport : UInt8) : TimedPacket where
  linkType := .raw
  data := segmentFrame sport 16 []
  summary :=
    { src := withPort "10.0.0.1" sport.toNat, dst := "10.0.0.2:2", protocol := "TCP",
      info := toString sport.toNat ++ " → 2 [ACK] Seq=0 Ack=0 Win=0 Len=0", len := 40 }
  flags := { ipv4 := true, tcp := true }

theorem segmentPacket_dissected :
    ∀ p ∈ [segmentPacket 1, segmentPacket 3], Dissected refusingCrates nullCiphers p := by
  have made : ∀ p ∈ [segmentPacket 1, segmentPacket 3],
      (dissect refusingCrates p.data p.linkType).map (fun d => (d.summary, d.flags))
        = .ok (p.summary, p.flags) := by
    decide +kernel
  intro p listed
  have same := made p listed
  obtain ⟨d, done, _⟩ := dissect_ok refusingCrates_contract p.data p.linkType
  rw [done] at same
  obtain ⟨summary, flags⟩ := Prod.mk.inj (Except.ok.inj same)
  refine ⟨none, d, ?_, summary.symm, flags.symm⟩
  rw [dissectWith, done]
  rfl

/-- The row of the first packet. -/
theorem segmentPacket_row {packets : List TimedPacket} (taken : segmentPacket 1 ∈ packets) :
    ∃ row ∈ (packets.foldl ConversationTable.ingest ∅).rows,
      row.key = (.tcp, "10.0.0.1:1", "10.0.0.2:2") := by
  have kind : ConversationKind.tcp ∈ countedKinds (segmentPacket 1) := by decide
  have one := conversation_one_row packets taken kind
  obtain ⟨row, made, key⟩ := List.countP_pos_iff.mp (one ▸ Nat.one_pos)
  have pair : pairOf (segmentPacket 1) = ("10.0.0.1:1", "10.0.0.2:2") := by decide +kernel
  rw [decide_eq_true_eq, pair] at key
  exact ⟨row, made, key⟩

theorem segment_row_drills_down : ∃ row,
    (∃ f, parseDisplayFilter noRegex row.filterExpr = .ok f ∧
      ∀ p ∈ [segmentPacket 1, segmentPacket 3], CountedIn row p →
        f.matchesPacket noMatch p.toStoredPacket = .ok true) ∧
      (DrillsDown noRegex noMatch [segmentPacket 1, segmentPacket 3] row ↔
        ∀ p ∈ [segmentPacket 1, segmentPacket 3], Drawn row p → CountedIn row p) := by
  obtain ⟨row, made, _⟩ := segmentPacket_row (List.mem_cons_self (l := [segmentPacket 3]))
  exact ⟨row, drill_down_exact_iff noRegex noMatch segmentPacket_dissected made⟩

/-- Two conversations of one host with one port of another. -/
theorem shared_port_drawn : ¬ ∀ packets : List TimedPacket,
    (∀ p ∈ packets, Dissected refusingCrates nullCiphers p) →
      ∀ row ∈ (packets.foldl ConversationTable.ingest ∅).rows,
        DrillsDown noRegex noMatch packets row := by
  intro claimed
  obtain ⟨row, made, key⟩ := segmentPacket_row (List.mem_cons_self (l := [segmentPacket 3]))
  obtain ⟨f, read, exactly⟩ := claimed _ segmentPacket_dissected row made
  obtain ⟨f', read', holds⟩ := row_filter noRegex noMatch segmentPacket_dissected made
  cases read.symm.trans read'
  have other : segmentPacket 3 ∈ [segmentPacket 1, segmentPacket 3] := by simp
  obtain ⟨kind, a, b⟩ : row.kind = .tcp ∧ row.addrA = "10.0.0.1:1" ∧ row.addrB = "10.0.0.2:2" := by
    simpa [ConversationRow.key] using key
  have drawn : Drawn row (segmentPacket 3) := by
    unfold Drawn
    rw [kind, a, b]
    refine ⟨rfl, ⟨?_, ?_⟩, ?_⟩
    · exact .inl (by decide +kernel)
    · exact .inr (by decide +kernel)
    · exact .inr (.inr (by decide +kernel))
  have uncounted : ¬ CountedIn row (segmentPacket 3) := by
    rintro ⟨_, pair⟩
    rw [a, b] at pair
    exact absurd pair (by decide +kernel)
  have same := exactly _ other
  rw [DisplayFilter.matchesPacket_ok, (holds _ other).mpr drawn, decide_eq_false uncounted] at same
  cases same

end BitBeak.DispFilter
