import BitBeak.Lib.Bytes

/-! Link types, the summary and the protocol flags of a packet, and the record of one
captured packet. -/
namespace BitBeak
open Wire

inductive LinkType where
  | null
  | ethernet
  | ieee80211
  | ieee80211Radio
  | raw
  | linuxSll
  | linuxSll2
  | unknown (v : UInt32)
  deriving DecidableEq, Repr

/-- The number of a link type, as the capture interfaces give it. -/
def LinkType.fromU32 (v : UInt32) : LinkType :=
  if v = 0 then .null
  else if v = 1 then .ethernet
  else if v = 12 then .raw
  else if v = 105 then .ieee80211
  else if v = 127 then .ieee80211Radio
  else if v = 113 then .linuxSll
  else if v = 276 then .linuxSll2
  else .unknown v

/- Addresses as the numbers their octets spell in network order. -/

abbrev Ipv4Addr := BitVec 32
abbrev Ipv6Addr := BitVec 128

inductive IpAddr where
  | v4 (ip : Ipv4Addr)
  | v6 (ip : Ipv6Addr)
  deriving DecidableEq, Repr

structure PacketSummary where
  src : String := ""
  dst : String := ""
  protocol : String := ""
  info : String := ""
  len : Nat := 0
  deriving DecidableEq, Repr

structure ProtocolFlags where
  ethernet : Bool := false
  vlan : Bool := false
  arp : Bool := false
  ipv4 : Bool := false
  ipv6 : Bool := false
  icmp : Bool := false
  icmpv6 : Bool := false
  tcp : Bool := false
  udp : Bool := false
  dns : Bool := false
  mdns : Bool := false
  llmnr : Bool := false
  dhcp : Bool := false
  http : Bool := false
  http2 : Bool := false
  tls : Bool := false
  websocket : Bool := false
  quicLooking : Bool := false
  wifi : Bool := false
  sip : Bool := false
  rtp : Bool := false
  deriving DecidableEq, Repr

def ProtocolFlags.any (flags : ProtocolFlags) : Bool :=
  flags.ethernet || flags.arp || flags.ipv4 || flags.ipv6 || flags.icmp || flags.icmpv6 ||
    flags.tcp || flags.udp || flags.dns || flags.http || flags.tls

/-- What reassembly, follow and the file writers read of a stored packet. The time is in
nanoseconds from the epoch. -/
structure PacketRecord where
  linkType : LinkType
  data : Bytes
  origLen : UInt32 := 0
  wall : Int := 0
  summary : PacketSummary := {}
  flags : ProtocolFlags := {}
  decrypted : Option Bytes := none
  deriving DecidableEq, Repr

/-- What a dissector leaves to the layers above it. -/
structure LayerResult where
  payload : Bytes
  payloadOffset : Nat
  deriving DecidableEq, Repr

end BitBeak
