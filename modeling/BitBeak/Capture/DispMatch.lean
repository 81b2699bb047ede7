import BitBeak.Capture.DispFilter
import BitBeak.Dissect.PacketStore

/-! Which packets a display filter matches. What a regular expression matches is a
parameter. -/
namespace BitBeak.DispFilter
open Wire

/-- The slice `[i..j]`. -/
def charSlice (chars : List Char) (i j : Nat) : Except Fault (List Char) :=
  if i ≤ j ∧ j ≤ chars.length then .ok ((chars.drop i).take (j - i)) else .error .outOfRange

def applyFieldSlice (value : String) : Option FieldSlice → Except Fault String
  | none => .ok value
  | some (.index i) => .ok (String.ofList (value.toList[i]?).toList)
  | some (.range start stop) =>
    let chars := value.toList
    if chars.length ≤ start ∨ stop ≤ start then .ok ""
    else do return String.ofList (← charSlice chars start (min stop chars.length))

/-- The slice of a value, where nothing can go wrong. -/
def sliced (value : String) : Option FieldSlice → String
  | none => value
  | some (.index i) => String.ofList (value.toList[i]?).toList
  | some (.range start stop) => String.ofList ((value.toList.drop start).take (stop - start))

def fieldCandidates (name : String) : List String :=
  match name with
  | "http.host" => ["http.request.host", "http.host", "Host"]
  | other => [other]

def fieldHeuristic (name : String) (flags : ProtocolFlags) (summary : PacketSummary) :
    Option String :=
  match name with
  | "http.request.method" => if flags.http then (splitWhitespace summary.info)[0]? else none
  | "http.response.code" =>
    if flags.http ∧ hasPrefix summary.info "HTTP " then (splitWhitespace summary.info)[1]? else none
  | "dns.qry.name" => if flags.dns then stripPrefix summary.info "Standard query " else none
  | _ => none

def stripHostPort (endpoint : String) : String :=
  match rsplitOnce ':' endpoint with
  | some (host, _) => host
  | none => endpoint

def endpointPort (endpoint : String) : Option Nat :=
  (rsplitOnce ':' endpoint).bind fun (_, port) => parseU16 port

def fieldComputed (name : String) (summary : PacketSummary) : Option String :=
  match name with
  | "ip.src" => some (stripHostPort summary.src)
  | "ip.dst" => some (stripHostPort summary.dst)
  | "tcp.srcport" | "udp.srcport" => (endpointPort summary.src).map toString
  | "tcp.dstport" | "udp.dstport" => (endpointPort summary.dst).map toString
  | "udp.port" => ((endpointPort summary.src).or (endpointPort summary.dst)).map toString
  | _ => none

def DisplayFields.get (fields : DisplayFields) (name : String) : Option String :=
  (fields.find? fun field => field.1 == name).map Prod.snd

def field (pkt : StoredPacket) (name : String) : Option String :=
  (fieldCandidates name).findSome? fun candidate =>
    ((DisplayFields.get pkt.fields candidate).or
      (fieldHeuristic candidate pkt.flags pkt.summary)).or (fieldComputed candidate pkt.summary)

def fieldSliced (pkt : StoredPacket) (name : String) (slice : Option FieldSlice) :
    Except Fault (Option String) :=
  match field pkt name with
  | some v => do return some (← applyFieldSlice v slice)
  | none => .ok none

def protoMatches (pkt : StoredPacket) (p : String) : Bool :=
  match p with
  | "http" => pkt.flags.http
  | "http2" => pkt.flags.http2
  | "dns" => pkt.flags.dns
  | "mdns" => pkt.flags.mdns
  | "llmnr" => pkt.flags.llmnr
  | "dhcp" => pkt.flags.dhcp
  | "tcp" => pkt.flags.tcp
  | "udp" => pkt.flags.udp
  | "tls" => pkt.flags.tls
  | "websocket" => pkt.flags.websocket
  | "arp" => pkt.flags.arp
  | "icmp" => pkt.flags.icmp
  | "ip" => pkt.flags.ipv4
  | "ipv6" => pkt.flags.ipv6
  | "sip" => pkt.flags.sip
  | "rtp" => pkt.flags.rtp
  | "quic" => pkt.flags.quicLooking
  | "wifi" | "wlan" | "802.11" =>
    pkt.flags.wifi || eqIgnoreAsciiCase pkt.summary.protocol "802.11" ||
      eqIgnoreAsciiCase pkt.summary.protocol "WiFi" || hasText pkt.summary.protocol "802.11"
  | other => eqIgnoreAsciiCase pkt.summary.protocol other

def portMatches (pkt : StoredPacket) (port : UInt16) : Bool :=
  hasSuffix pkt.summary.src (":" ++ toString port.toNat) ||
    hasSuffix pkt.summary.dst (":" ++ toString port.toNat)

def Cmp.holds (op : Cmp) (a b : Nat) : Bool :=
  match op with
  | .eq => a = b
  | .ne => a ≠ b
  | .lt => a < b
  | .gt => b < a
  | .le => a ≤ b
  | .ge => b ≤ a

/-- The severities in their order. -/
def severityRank : ExpertSeverity → Nat
  | .comment => 0
  | .note => 1
  | .warn => 2
  | .error => 3

namespace DisplayFilter

section

variable {R : Type} (isMatch : R → String → Bool)

def matchesPacket (pkt : StoredPacket) : DisplayFilter R → Except Fault Bool
  | .true => .ok Bool.true
  | .not f => do return !(← f.matchesPacket pkt)
  | .and a b => do if ← a.matchesPacket pkt then b.matchesPacket pkt else return false
  | .or a b => do if ← a.matchesPacket pkt then return Bool.true else b.matchesPacket pkt
  | .proto p => .ok (protoMatches pkt p)
  | .ipAddr a => .ok (hasText pkt.summary.src a || hasText pkt.summary.dst a)
  | .tcpPort p => .ok (pkt.flags.tcp && portMatches pkt p)
  | .udpPort p => .ok (pkt.flags.udp && portMatches pkt p)
  | .fieldEq name slice val => do
    return (← fieldSliced pkt name slice).any fun v => eqIgnoreAsciiCase v val
  | .fieldContains name slice val => do
    return (← fieldSliced pkt name slice).any fun v => hasText v val
  | .fieldMatches name re => .ok ((field pkt name).any fun v => isMatch re v)
  | .frameLen op val => .ok (op.holds pkt.data.length val)
  | .expertSeverity sev => .ok (pkt.expert.any fun e => severityRank sev ≤ severityRank e.severity)

/-- Whether the filter matches, where nothing can go wrong. -/
def holds (pkt : StoredPacket) : DisplayFilter R → Bool
  | .true => Bool.true
  | .not f => !f.holds pkt
  | .and a b => a.holds pkt && b.holds pkt
  | .or a b => a.holds pkt || b.holds pkt
  | .proto p => protoMatches pkt p
  | .ipAddr a => hasText pkt.summary.src a || hasText pkt.summary.dst a
  | .tcpPort p => pkt.flags.tcp && portMatches pkt p
  | .udpPort p => pkt.flags.udp && portMatches pkt p
  | .fieldEq name slice val =>
    (field pkt name).any fun v => eqIgnoreAsciiCase (sliced v slice) val
  | .fieldContains name slice val => (field pkt name).any fun v => hasText (sliced v slice) val
  | .fieldMatches name re => (field pkt name).any fun v => isMatch re v
  | .frameLen op val => op.holds pkt.data.length val
  | .expertSeverity sev => pkt.expert.any fun e => severityRank sev ≤ severityRank e.severity

end

end DisplayFilter

/- No field slice is out of range. -/

theorem applyFieldSlice_ok (value : String) (slice : Option FieldSlice) :
    applyFieldSlice value slice = .ok (sliced value slice) := by
  cases slice with
  | none => rfl
  | some slice =>
    cases slice with
    | index i => rfl
    | range start stop =>
      rw [applyFieldSlice, sliced]
      split
      · next outside =>
        have none : (value.toList.drop start).take (stop - start) = [] := by
          rcases outside with long | wrong
          · rw [List.drop_eq_nil_of_le long, List.take_nil]
          · rw [Nat.sub_eq_zero_of_le wrong, List.take_zero]
        rw [none]
      · next inside =>
        obtain ⟨short, ordered⟩ := not_or.mp inside
        have bounds : start ≤ min stop value.toList.length ∧
            min stop value.toList.length ≤ value.toList.length := by
          omega
        have most : (value.toList.drop start).length ≤ value.toList.length - start :=
          (List.length_drop ..).le
        rw [charSlice, if_pos bounds]
        show Except.ok (String.ofList _) = Except.ok (String.ofList _)
        congr 2
        rcases Nat.le_total stop value.toList.length with low | high
        · rw [Nat.min_eq_left low]
        · rw [Nat.min_eq_right high, List.take_of_length_le most,
            List.take_of_length_le (by omega)]

theorem fieldSliced_ok (pkt : StoredPacket) (name : String) (slice : Option FieldSlice) :
    fieldSliced pkt name slice = .ok ((field pkt name).map fun v => sliced v slice) := by
  rw [fieldSliced]
  split
  · next v found =>
    rw [applyFieldSlice_ok, found]
    rfl
  · next missing =>
    rw [missing]
    rfl

/-- Every filter has an answer for every packet. -/
theorem DisplayFilter.matchesPacket_ok {R : Type} (isMatch : R → String → Bool)
    (pkt : StoredPacket) (f : DisplayFilter R) :
    f.matchesPacket isMatch pkt = .ok (f.holds isMatch pkt) := by
  induction f with
  | not f ih =>
    rw [matchesPacket, ih]
    rfl
  | and a b iha ihb =>
    rw [matchesPacket, iha, ihb, holds]
    cases a.holds isMatch pkt <;> rfl
  | or a b iha ihb =>
    rw [matchesPacket, iha, ihb, holds]
    cases a.holds isMatch pkt <;> rfl
  | fieldEq name slice val =>
    rw [matchesPacket, fieldSliced_ok, holds]
    cases field pkt name <;> rfl
  | fieldContains name slice val =>
    rw [matchesPacket, fieldSliced_ok, holds]
    cases field pkt name <;> rfl
  | _ => rfl

end BitBeak.DispFilter
