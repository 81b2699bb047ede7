import BitBeak.Dissect.PacketStore
import BitBeak.Http.Text
import BitBeak.Lib.Tally
import Mathlib.Algebra.BigOperators.Fin
import Mathlib.Data.List.Sort
import Mathlib.Data.String.Basic

/-! The statistics of a capture: conversations, endpoints, the protocol hierarchy, the lengths
of the packets and the graph of their arrivals. Each packet is taken in once. -/
namespace BitBeak
open Wire Tally

/-- A stored packet and the instant it was taken in, in nanoseconds of the clock. -/
structure TimedPacket extends StoredPacket where
  instant : Nat := 0
  deriving DecidableEq, Repr

/- Endpoints without their port, and ports. -/

/-- The host in front of a port. A host with colons is left with what is behind it. -/
def stripPort (s : String) : String :=
  match rsplitOnce ':' s with
  | some (host, port) =>
    if (parseU16 port).isSome ∧ ':' ∉ host.toList then host else s
  | none => s

def portOf (s : String) : Option String :=
  match rsplitOnce ':' s with
  | some (_, port) => if (parseU16 port).isSome then some port else none
  | none => none

def stripPortNum (s : String) : String :=
  match rsplitOnce ':' s with
  | some (_, port) => if (parseU16 port).isSome then port else "0"
  | none => "0"

/- Conversations. -/

inductive ConversationKind where
  | ethernet
  | ipv4
  | ipv6
  | tcp
  | udp
  deriving DecidableEq, Repr

structure ConversationRow where
  kind : ConversationKind
  addrA : String
  addrB : String
  packetsAb : Nat
  packetsBa : Nat
  bytesAb : Nat
  bytesBa : Nat
  start : Nat
  last : Nat
  deriving DecidableEq, Repr

namespace ConversationRow

def packets (row : ConversationRow) : Nat := row.packetsAb + row.packetsBa

def bytes (row : ConversationRow) : Nat := row.bytesAb + row.bytesBa

def filterExpr (row : ConversationRow) : String :=
  let a := stripPort row.addrA
  let b := stripPort row.addrB
  match row.kind with
  | .tcp =>
    "(ip.addr == " ++ a ++ " and ip.addr == " ++ b ++ ") and (tcp.port == " ++
      stripPortNum row.addrA ++ " or tcp.port == " ++ stripPortNum row.addrB ++ ")"
  | .udp =>
    "(ip.addr == " ++ a ++ " and ip.addr == " ++ b ++ ") and (udp.port == " ++
      stripPortNum row.addrA ++ " or udp.port == " ++ stripPortNum row.addrB ++ ")"
  | _ => "ip.addr == " ++ a ++ " or ip.addr == " ++ b

end ConversationRow

def conversationKinds (flags : ProtocolFlags) : List ConversationKind :=
  let k := (if flags.ethernet then [.ethernet] else []) ++
    (if flags.tcp then [.tcp] else if flags.udp then [.udp] else []) ++
    (if flags.ipv4 then [.ipv4] else []) ++
    (if flags.ipv6 then [.ipv6] else [])
  if k.isEmpty then [.ipv4] else k

/-- The addresses in the order of their texts, and whether that is the order they came in. -/
def normalizePair (a b : String) : String × String × Bool :=
  if a ≤ b then (a, b, true) else (b, a, false)

abbrev ConversationKey := ConversationKind × String × String

abbrev ConversationTable := Table ConversationKey ConversationRow

/-- The row of one kind that a packet makes or adds to. -/
def conversationUpdate (pkt : TimedPacket) (kind : ConversationKind) :
    Update ConversationKey ConversationRow :=
  let (a, b, ab) := normalizePair pkt.summary.src pkt.summary.dst
  let len := pkt.data.length
  { key := (kind, a, b)
    new :=
      { kind := kind, addrA := a, addrB := b, packetsAb := 0, packetsBa := 0, bytesAb := 0,
        bytesBa := 0, start := pkt.instant, last := pkt.instant }
    change := fun row =>
      let counted :=
        if ab then { row with packetsAb := row.packetsAb + 1, bytesAb := row.bytesAb + len }
        else { row with packetsBa := row.packetsBa + 1, bytesBa := row.bytesBa + len }
      { counted with last := pkt.instant } }

namespace ConversationTable

def ingest (table : ConversationTable) (pkt : TimedPacket) : ConversationTable :=
  if pkt.summary.src.isEmpty ∨ pkt.summary.dst.isEmpty then table
  else (conversationKinds pkt.flags).foldl (fun t kind => put t (conversationUpdate pkt kind)) table

/-- The busiest first. -/
def rows (table : ConversationTable) : List ConversationRow :=
  (Tally.rows table).insertionSort fun r s => s.packets ≤ r.packets

end ConversationTable

/- Endpoints. -/

inductive EndpointKind where
  | mac
  | ipv4
  | ipv6
  | tcpPort
  | udpPort
  deriving DecidableEq, Repr

structure EndpointRow where
  kind : EndpointKind
  address : String
  packets : Nat
  bytes : Nat
  deriving DecidableEq, Repr

def endpointAddrs (pkt : TimedPacket) : List (EndpointKind × String) :=
  let src := pkt.summary.src
  let dst := pkt.summary.dst
  (if pkt.flags.ipv6 then [(.ipv6, stripPort src), (.ipv6, stripPort dst)]
    else if pkt.flags.ipv4 ∨ pkt.flags.arp then [(.ipv4, stripPort src), (.ipv4, stripPort dst)]
    else []) ++
  (if pkt.flags.tcp then
    ((portOf src).map (EndpointKind.tcpPort, ·)).toList ++
      ((portOf dst).map (EndpointKind.tcpPort, ·)).toList
    else []) ++
  (if pkt.flags.udp then
    ((portOf src).map (EndpointKind.udpPort, ·)).toList ++
      ((portOf dst).map (EndpointKind.udpPort, ·)).toList
    else [])

abbrev EndpointTable := Table (EndpointKind × String) EndpointRow

def endpointUpdate (pkt : TimedPacket) (e : EndpointKind × String) :
    Update (EndpointKind × String) EndpointRow where
  key := e
  new := { kind := e.1, address := e.2, packets := 0, bytes := 0 }
  change row := { row with packets := row.packets + 1, bytes := row.bytes + pkt.data.length }

namespace EndpointTable

def ingest (table : EndpointTable) (pkt : TimedPacket) : EndpointTable :=
  (endpointAddrs pkt).foldl (fun t e => put t (endpointUpdate pkt e)) table

def rows (table : EndpointTable) : List EndpointRow :=
  (Tally.rows table).insertionSort fun r s => s.packets ≤ r.packets

end EndpointTable

/- The hierarchy: packets and octets by the protocol of the summary. -/

abbrev ProtoHierarchy := Table String (Nat × Nat)

def protoUpdate (pkt : TimedPacket) : Update String (Nat × Nat) where
  key := pkt.summary.protocol
  new := (0, 0)
  change e := (e.1 + 1, e.2 + pkt.data.length)

namespace ProtoHierarchy

def ingest (counts : ProtoHierarchy) (pkt : TimedPacket) : ProtoHierarchy :=
  put counts (protoUpdate pkt)

def rows (counts : ProtoHierarchy) : List (String × Nat × Nat) :=
  (counts.entries.map fun e => (e.1, e.2.1, e.2.2)).insertionSort fun r s => s.2.1 ≤ r.2.1

end ProtoHierarchy

/- The lengths, in seven buckets: below 64, 128, 256, 512, 1024 and 1518 octets, and the rest. -/

def lengthBucket (n : Nat) : Fin 7 :=
  if n < 64 then 0
  else if n < 128 then 1
  else if n < 256 then 2
  else if n < 512 then 3
  else if n < 1024 then 4
  else if n < 1518 then 5
  else 6

structure LengthHistogram where
  buckets : Fin 7 → Nat := fun _ => 0

def LengthHistogram.ingest (lengths : LengthHistogram) (pkt : TimedPacket) : LengthHistogram :=
  let idx := lengthBucket pkt.data.length
  { buckets := Function.update lengths.buckets idx (lengths.buckets idx + 1) }

/- The graph of the arrivals: one bucket for a second, taken in turn. -/

structure IoBucket where
  packets : Nat := 0
  bytes : Nat := 0
  deriving DecidableEq, Repr

structure IoGraph where
  start : Nat
  capacity : Nat
  positive : 0 < capacity
  buckets : Fin capacity → IoBucket

namespace IoGraph

theorem capacity_positive (capacity : Nat) : 0 < max capacity 1 :=
  Nat.lt_of_lt_of_le Nat.one_pos (Nat.le_max_right capacity 1)

def new (start capacity : Nat) : IoGraph where
  start := start
  capacity := max capacity 1
  positive := capacity_positive capacity
  buckets _ := {}

/-- Whole seconds from the start to an instant. What was taken in before counts as the start. -/
def secs (start : Nat) (pkt : TimedPacket) : Nat := (pkt.instant - start) / 10 ^ 9

theorem slot_lt (graph : IoGraph) (secs : Nat) : secs % graph.capacity < graph.capacity :=
  Nat.mod_lt secs graph.positive

def slot (graph : IoGraph) (secs : Nat) : Fin graph.capacity :=
  ⟨secs % graph.capacity, slot_lt graph secs⟩

/-- The bucket of the second is added to as it stands, whichever second it counted before. -/
def ingest (graph : IoGraph) (pkt : TimedPacket) : IoGraph :=
  let idx := graph.slot (secs graph.start pkt)
  let bucket := graph.buckets idx
  { graph with
    buckets := Function.update graph.buckets idx
      { packets := bucket.packets + 1, bytes := bucket.bytes + pkt.data.length } }

def packetSeries (graph : IoGraph) : List Nat := List.ofFn fun i => (graph.buckets i).packets

def byteSeries (graph : IoGraph) : List Nat := List.ofFn fun i => (graph.buckets i).bytes

end IoGraph

structure CaptureStats where
  conversations : ConversationTable := ∅
  endpoints : EndpointTable := ∅
  hierarchy : ProtoHierarchy := ∅
  lengths : LengthHistogram := {}
  io : IoGraph

namespace CaptureStats

def ingest (stats : CaptureStats) (pkt : TimedPacket) : CaptureStats where
  conversations := stats.conversations.ingest pkt
  endpoints := stats.endpoints.ingest pkt
  hierarchy := stats.hierarchy.ingest pkt
  lengths := stats.lengths.ingest pkt
  io := stats.io.ingest pkt

/-- Statistics that have taken in nothing yet. -/
def new (start capacity : Nat) : CaptureStats := { io := IoGraph.new start capacity }

/-- The statistics after these packets. -/
def ingestAll (start capacity : Nat) (packets : List TimedPacket) : CaptureStats :=
  packets.foldl ingest (new start capacity)

end CaptureStats

end BitBeak
