import BitBeak.Capture.CapParse
import BitBeak.Capture.DispMatch
import BitBeak.Capture.RingFaults
import BitBeak.Dissect.Analysis
import BitBeak.Session.Capture
import BitBeak.Session.Routing

/-! A capture session as its tab keeps it: the packets, the row that is selected among those
that the display filter takes, and the live capture behind it. How addresses are read, what a
regular expression matches, the size of a written block and whether a device can be opened are
parameters. -/
namespace BitBeak
open DispFilter

/-- What `try_recv` answers when there is no packet. -/
inductive TryRecvError where
  | empty
  | disconnected
  deriving DecidableEq, Repr

def FilterError.text : FilterError → String
  | .empty => "empty filter"
  | .parse text => "parse error: " ++ text
  | .outOfFuel => ""

/-- The text of an error, and its text with those of its causes. -/
structure OpenError where
  text : String
  chain : String
  deriving DecidableEq, Repr

/-- The channel ends and the join handle name the capture they belong to. -/
structure CaptureTab (R : Type) where
  titleIface : String
  source : CaptureSource := .live
  status : ConnStatus := .idle
  statusMsg : String
  store : PacketStore
  stats : CaptureStats
  selected : Nat := 0
  follow : Bool := true
  displayFilterStr : String := ""
  displayFilter : DisplayFilter R := .true
  captureFilterStr : String := ""
  capturing : Bool := false
  ring : Option DiskRing := none
  lastError : Option String := none
  filterKernelBpf : Bool := true
  packetRx : Option Nat := none
  stopTx : Option Nat := none
  join : Option Nat := none
  injectTx : Option Nat := none

namespace CaptureTab

variable {R : Type}

/-- `start` is the instant at which the session is made, `hint` what the platform asks for. -/
def newLive (hint iface : String) (maxPackets start : Nat) : CaptureTab R where
  titleIface := iface
  statusMsg := "ready · " ++ hint
  store := .new maxPackets
  stats := .new start 120

/- The packets that are shown. -/

section
variable (isMatch : R → String → Bool)

def filteredIndices (tab : CaptureTab R) : List Nat :=
  (tab.store.packets.zipIdx.filter fun e => tab.displayFilter.holds isMatch e.1).map Prod.snd

/-- The place of the packet that `visible_packet` looks up. -/
def visibleIndex (tab : CaptureTab R) : Option Nat :=
  let idx := tab.filteredIndices isMatch
  if idx.isEmpty then none else idx[min tab.selected (idx.length - 1)]?

def visiblePacket (tab : CaptureTab R) : Option StoredPacket :=
  (tab.visibleIndex isMatch).bind fun i => tab.store.packets[i]?

variable (blockSize : PcapNgBlock → Nat)

/-- The turn of the loop in `drain_packets` that has a packet. An error of the ring is dropped. -/
def takeIn (tab : CaptureTab R) (received : DiskAnswers × TimedPacket) : CaptureTab R :=
  let (disk, pkt) := received
  let tab := { tab with
    ring := tab.ring.map fun r => (DiskRing.tryWritePacket blockSize disk r pkt.toPacketRecord).1
    stats := tab.stats.ingest pkt
    store := (tab.store.push pkt.toStoredPacket).1 }
  if tab.follow then
    let n := (tab.filteredIndices isMatch).length
    if 0 < n then { tab with selected := n - 1 } else tab
  else tab

/-- The turn that has none. -/
def drained (tab : CaptureTab R) : TryRecvError → CaptureTab R
  | .empty => tab
  | .disconnected =>
    { tab with capturing := false, status := .disconnected, statusMsg := "capture ended" }

/-- The channel gives a batch of packets, and the disk its answers, before the channel has
nothing more. -/
def drainPackets (tab : CaptureTab R) (batch : List (DiskAnswers × TimedPacket))
    (last : TryRecvError) : CaptureTab R :=
  match tab.packetRx with
  | none => tab
  | some _ => (batch.foldl (takeIn isMatch blockSize) tab).drained last

end

/- The live capture. -/

section
variable (ips : IpText) (hint : String)
  (openLiveFiltered : String → Nat → Bool → Option CaptureFilter → Except OpenError Nat)

/-- A device that is opened is given with the number of the capture that is started on it. -/
def startCapture (tab : CaptureTab R) : CaptureTab R × Except OpenError Unit :=
  if tab.source ≠ .live then
    let refused := "cannot live-capture a file session"
    (tab, .error { text := refused, chain := refused })
  else if tab.capturing then (tab, .ok ())
  else
    let capFilter :=
      match parseCaptureFilter ips tab.captureFilterStr with
      | .ok f => f
      | .error _ => .true
    let tab := { tab with filterKernelBpf := capFilter.isKernelSimple }
    match openLiveFiltered tab.titleIface 65535 true (some capFilter) with
    | .error e =>
      ({ tab with
          lastError := some e.text
          status := .error
          statusMsg := e.chain ++ " · " ++ hint },
        .error e)
    | .ok c =>
      let filt :=
        if tab.captureFilterStr.isEmpty then "none"
        else if tab.filterKernelBpf then tab.captureFilterStr ++ " (kernel BPF)"
        else tab.captureFilterStr ++ " (userspace)"
      ({ tab with
          packetRx := some c
          stopTx := some c
          injectTx := some c
          join := some c
          capturing := true
          lastError := none
          status := .connected
          statusMsg := "capturing on " ++ tab.titleIface ++ " · filter " ++ filt },
        .ok ())

/-- What is left when the capture has been stopped and its thread has been waited for. -/
def stopCapture (tab : CaptureTab R) : CaptureTab R :=
  { tab with
    stopTx := none
    join := none
    packetRx := none
    injectTx := none
    capturing := false
    status := .disconnected
    statusMsg := "capture stopped" }

def setCaptureFilter (tab : CaptureTab R) (q : String) : CaptureTab R × Except String Unit :=
  if tab.source = .file then
    (tab, .error
      "capture filter applies to live sniff only — use F8 display filter on files")
  else
    match parseCaptureFilter ips q with
    | .error e => (tab, .error e.text)
    | .ok _ =>
      let tab := { tab with captureFilterStr := q }
      if tab.capturing then
        match tab.stopCapture.startCapture ips hint openLiveFiltered with
        | (tab, .error e) => (tab, .error e.text)
        | (tab, .ok ()) => (tab, .ok ())
      else (tab, .ok ())

end

end CaptureTab

end BitBeak
