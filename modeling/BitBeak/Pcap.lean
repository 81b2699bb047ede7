import BitBeak.Capture.FileIo
import BitBeak.Frame

/-! Export of logged frames as a capture file: every frame becomes a TCP segment with
Ethernet and IPv4 headers made up for it. -/
namespace BitBeak
open Wire

structure SocketAddrV4 where
  ip : Ipv4Addr
  port : UInt16
  deriving DecidableEq, Repr

def SocketAddrV4.octets (addr : SocketAddrV4) : Bytes := toBE 4 addr.ip.toNat

/-- The pairs of octets from `i` on; an odd one at the end is not looked at. -/
def headerWords (header : Bytes) : Nat → Nat → Nat → Except Fault Nat
  | 0, _, _ => .error .outOfFuel
  | fuel + 1, i, sum => do
    if i + 1 < header.length then headerWords header fuel (i + 2) (sum + (← readBE header i 2))
    else return sum

/-- `while sum > 0xffff`. -/
def foldWords : Nat → Nat → Except Fault Nat
  | 0, _ => .error .outOfFuel
  | fuel + 1, sum =>
    if 0xffff < sum then foldWords fuel (sum % 2 ^ 16 + sum / 2 ^ 16) else .ok sum

def ipChecksum (header : Bytes) : Except Fault Nat := do
  let sum ← headerWords header (header.length + 1) 0 0
  return 2 ^ 16 - 1 - (← foldWords (sum + 1) sum)

def ethHeader : Bytes :=
  [0x02, 0, 0, 0, 0, 0x02] ++ [0x02, 0, 0, 0, 0, 0x01] ++ [0x08, 0x00]

/-- The IPv4 header in front of its checksum is known; `total` is cut down to 16 bits. -/
def ipHeader (src dst : SocketAddrV4) (payload : Bytes) : Bytes :=
  let total := (20 + (20 + payload.length)) % 2 ^ 16
  [0x45, 0] ++ toBE 2 total ++ toBE 2 0 ++ toBE 2 0 ++ [64, 6] ++ toBE 2 0 ++ src.octets ++
    dst.octets

def tcpSegmentOf (src dst : SocketAddrV4) (payload : Bytes) (seq : Nat) : Bytes :=
  toBE 2 src.port.toNat ++ toBE 2 dst.port.toNat ++ toBE 4 seq ++ toBE 4 0 ++ [0x50, 0x18] ++
    toBE 2 8192 ++ toBE 2 0 ++ toBE 2 0 ++ payload

/-- `seq` is a 32-bit number. -/
def buildTcpPacket (src dst : SocketAddrV4) (payload : Bytes) (seq : Nat) : Except Fault Bytes := do
  let ip := ipHeader src dst payload
  let csum ← ipChecksum ip
  let ip := overwrite ip 10 [UInt8.ofNat (csum / 2 ^ 8), UInt8.ofNat (csum % 2 ^ 8)]
  return ethHeader ++ ip ++ tcpSegmentOf src dst payload seq

/-- Who sends a frame, and to whom. -/
def frameEnds (src dst : SocketAddrV4) : Direction → SocketAddrV4 × SocketAddrV4
  | .outward => (src, dst)
  | .inward => (dst, src)

def framePacket (src dst : SocketAddrV4) (frame : Frame) : Except Fault Bytes :=
  let (s, d) := frameEnds src dst frame.direction
  buildTcpPacket s d frame.payload (frame.id % 2 ^ 32)

def framesHeader : PcapHeader where
  versionMajor := 2
  versionMinor := 4
  tsCorrection := 0
  tsAccuracy := 0
  snaplen := 65535
  datalink := .ETHERNET
  tsResolution := .microSecond
  endianness := .little

/-- `wall` is the time a frame was logged at. Nothing is given where the package refuses to
write. -/
def writeFramesPcap {File : Type} (crate : PcapFile File) (wall : Frame → Nat)
    (frames : List Frame) (src dst : SocketAddrV4) : Except Fault (Option File) := do
  let packets ← frames.mapM fun frame => do
    let packet ← framePacket src dst frame
    return { timestamp := wall frame, origLen := UInt32.ofNat packet.length, data := packet }
  return (crate.pcapWithHeader framesHeader).bind fun file =>
    packets.foldlM crate.writePacket file

def defaultAddrs : SocketAddrV4 × SocketAddrV4 :=
  ({ ip := 0x0a000001, port := 12345 }, { ip := 0x0a000002, port := 80 })

end BitBeak
