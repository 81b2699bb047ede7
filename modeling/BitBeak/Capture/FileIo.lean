import BitBeak.Dissect.Packet
import Mathlib.Data.List.Forall2

/-! Capture files: what the two writers store of a list of packets and what is read back.
The package that lays out the files is a parameter. Each writer has one link type for the
whole file, that of the first packet. -/
namespace BitBeak
open Wire

/-- A number of the link type registry. -/
structure DataLink where
  number : UInt32
  deriving DecidableEq, Repr

namespace DataLink

def NULL : DataLink := ⟨0⟩
def ETHERNET : DataLink := ⟨1⟩
def RAW : DataLink := ⟨101⟩
def LINUX_SLL : DataLink := ⟨113⟩

end DataLink

inductive TsResolution where
  | microSecond
  | nanoSecond
  deriving DecidableEq, Repr

inductive Endianness where
  | big
  | little
  deriving DecidableEq, Repr

structure PcapHeader where
  versionMajor : UInt16
  versionMinor : UInt16
  tsCorrection : Int
  tsAccuracy : UInt32
  snaplen : UInt32
  datalink : DataLink
  tsResolution : TsResolution
  endianness : Endianness
  deriving DecidableEq, Repr

structure PcapPacket where
  timestamp : Nat
  origLen : UInt32
  data : Bytes
  deriving DecidableEq, Repr

structure SectionHeader where
  endianness : Endianness
  majorVersion : UInt16
  minorVersion : UInt16
  sectionLength : Int
  deriving DecidableEq, Repr

inductive PcapNgBlock where
  | sectionHeader (header : SectionHeader)
  | interfaceDescription (linktype : DataLink) (snaplen : UInt32)
  | enhancedPacket (interfaceId : UInt32) (timestamp : Nat) (originalLen : UInt32) (data : Bytes)
  | simplePacket (originalLen : UInt32) (data : Bytes)
  | other
  deriving DecidableEq, Repr

/-- The writers and readers of the package, over the files they share. A reader gives what it
meets one by one, and an item that cannot be read as nothing. -/
structure PcapFile (File : Type) where
  pcapWithHeader : PcapHeader → Option File
  writePacket : File → PcapPacket → Option File
  ngNew : Option File
  writeBlock : File → PcapNgBlock → Option File
  /-- The first four octets. -/
  magic : File → Option Bytes
  pcapReader : File → Option (DataLink × List (Option PcapPacket))
  ngReader : File → Option (List (Option PcapNgBlock))

section

variable {File : Type} (crate : PcapFile File)

def linkToDatalink : LinkType → DataLink
  | .ethernet => .ETHERNET
  | .linuxSll => .LINUX_SLL
  | .null => .NULL
  | .raw => .RAW
  | _ => .ETHERNET

structure OpenedPacket where
  data : Bytes
  linkType : LinkType
  origLen : UInt32
  wall : Nat
  deriving DecidableEq, Repr

def openPcap (file : File) : Option (List OpenedPacket) := do
  let (datalink, read) ← crate.pcapReader file
  let link := LinkType.fromU32 datalink.number
  read.mapM fun pkt => pkt.map fun pkt =>
    { data := pkt.data, linkType := link, origLen := pkt.origLen, wall := pkt.timestamp }

/-- Interfaces and packets after one more block. -/
def ngBlockRead (now : Nat) (ifaces : List LinkType) (packets : List OpenedPacket) :
    PcapNgBlock → List LinkType × List OpenedPacket
  | .interfaceDescription linktype _ => (ifaces ++ [LinkType.fromU32 linktype.number], packets)
  | .enhancedPacket interfaceId timestamp originalLen data =>
    (ifaces, packets ++ [{
      data := data
      linkType := ifaces.getD interfaceId.toNat .ethernet
      origLen := originalLen
      wall := timestamp }])
  | .simplePacket originalLen data =>
    (ifaces, packets ++ [{
      data := data
      linkType := ifaces.head?.getD .ethernet
      origLen := originalLen
      wall := now }])
  | .sectionHeader _ | .other => (ifaces, packets)

/-- `now` is the time of reading. -/
def openPcapng (now : Nat) (file : File) : Option (List OpenedPacket) := do
  let blocks ← (← crate.ngReader file).mapM id
  return (blocks.foldl (fun (ifaces, packets) block => ngBlockRead now ifaces packets block)
    ([], [])).2

def ngMagic : Bytes := [0x0a, 0x0d, 0x0d, 0x0a]

def openCaptureFile (now : Nat) (file : File) : Option (List OpenedPacket) := do
  let magic ← crate.magic file
  if magic = ngMagic then openPcapng crate now file else openPcap crate file

def firstLink (packets : List PacketRecord) : LinkType :=
  (packets.head?.map (·.linkType)).getD .ethernet

/-- The time since the epoch, none before it. -/
def PacketRecord.timestamp (p : PacketRecord) : Nat := p.wall.toNat

def pcapHeader (packets : List PacketRecord) : PcapHeader where
  versionMajor := 2
  versionMinor := 4
  tsCorrection := 0
  tsAccuracy := 0
  snaplen := 65535
  datalink := linkToDatalink (firstLink packets)
  tsResolution := .microSecond
  endianness := .little

def pcapPacket (p : PacketRecord) : PcapPacket :=
  { timestamp := p.timestamp, origLen := p.origLen, data := p.data }

def savePacketsPcap (packets : List PacketRecord) : Option File := do
  let file ← crate.pcapWithHeader (pcapHeader packets)
  (packets.map pcapPacket).foldlM crate.writePacket file

def sectionBlock : SectionHeader where
  endianness := .little
  majorVersion := 1
  minorVersion := 0
  sectionLength := -1

def enhancedBlock (p : PacketRecord) : PcapNgBlock :=
  .enhancedPacket 0 p.timestamp p.origLen p.data

def savePacketsPcapng (packets : List PacketRecord) : Option File := do
  let file ← crate.ngNew
  let file ← crate.writeBlock file (.sectionHeader sectionBlock)
  let file ← crate.writeBlock file
    (.interfaceDescription (linkToDatalink (firstLink packets)) 65535)
  (packets.map enhancedBlock).foldlM crate.writeBlock file

/- What the package promises: it returns what was stored, with times up to the resolution of
the file. -/

/-- The package returned the second for the first. -/
def SamePcap (stored read : PcapPacket) : Prop :=
  read.data = stored.data ∧ read.origLen = stored.origLen

inductive SameBlock : PcapNgBlock → PcapNgBlock → Prop where
  | interfaceDescription (linktype : DataLink) (snaplen snaplen' : UInt32) :
    SameBlock (.interfaceDescription linktype snaplen) (.interfaceDescription linktype snaplen')
  | enhancedPacket (interfaceId : UInt32) (timestamp timestamp' : Nat) (originalLen : UInt32)
    (data : Bytes) : SameBlock (.enhancedPacket interfaceId timestamp originalLen data)
      (.enhancedPacket interfaceId timestamp' originalLen data)

def PcapNgBlock.isSection : PcapNgBlock → Bool
  | .sectionHeader _ => true
  | _ => false

def PcapNgBlock.isFirstInterfacePacket : PcapNgBlock → Bool
  | .enhancedPacket interfaceId _ _ _ => interfaceId = 0
  | _ => false

structure PcapFile.Faithful : Prop where
  pcap : ∀ header packets, ∃ file,
    (crate.pcapWithHeader header).bind (packets.foldlM crate.writePacket) = some file ∧
      (∃ magic, crate.magic file = some magic ∧ magic ≠ ngMagic) ∧
        ∃ read : List PcapPacket,
        crate.pcapReader file = some (header.datalink, read.map some) ∧
          List.Forall₂ SamePcap packets read
  /-- A section with one interface and its packets. Where the reader gives section headers is
  left open. -/
  pcapng : ∀ header linktype snaplen packets,
    (∀ block ∈ packets, PcapNgBlock.isFirstInterfacePacket block = true) → ∃ file,
      crate.ngNew.bind ((.sectionHeader header :: .interfaceDescription linktype snaplen ::
        packets).foldlM crate.writeBlock) = some file ∧
        crate.magic file = some ngMagic ∧ ∃ read : List PcapNgBlock,
          crate.ngReader file = some (read.map some) ∧
            List.Forall₂ SameBlock (.interfaceDescription linktype snaplen :: packets)
              (read.filter fun block => !block.isSection)

/-- What a reader is to return of a packet. -/
abbrev Content := Bytes × LinkType × UInt32

def PacketRecord.content (p : PacketRecord) : Content := (p.data, p.linkType, p.origLen)
def OpenedPacket.content (p : OpenedPacket) : Content := (p.data, p.linkType, p.origLen)

/-- Saved and opened again, the packets are the same in the same order. -/
def RoundTrips (now : Nat) (save : List PacketRecord → Option File)
    (packets : List PacketRecord) : Prop :=
  ∃ file, save packets = some file ∧ ∃ opened, openCaptureFile crate now file = some opened ∧
    opened.map OpenedPacket.content = packets.map PacketRecord.content

theorem roundTrips_iff (now : Nat) (save : List PacketRecord → Option File)
    (packets : List PacketRecord) : RoundTrips crate now save packets ↔
      ((save packets).bind (openCaptureFile crate now)).map (·.map OpenedPacket.content) =
        some (packets.map PacketRecord.content) := by
  rw [Option.map_eq_some_iff]
  constructor
  · rintro ⟨file, saved, opened, done, same⟩
    exact ⟨opened, Option.bind_eq_some_iff.mpr ⟨file, saved, done⟩, same⟩
  · rintro ⟨opened, done, same⟩
    obtain ⟨file, saved, done⟩ := Option.bind_eq_some_iff.mp done
    exact ⟨file, saved, opened, done, same⟩

instance (now : Nat) (save : List PacketRecord → Option File) (packets : List PacketRecord) :
    Decidable (RoundTrips crate now save packets) :=
  decidable_of_iff _ (roundTrips_iff crate now save packets).symm

/-- The link types that a file gives back. -/
def keptLinks : List LinkType := [.null, .ethernet, .linuxSll]

/-- All packets have one link type, and a file gives it back. -/
def OneKeptLink (packets : List PacketRecord) : Prop :=
  ∃ link ∈ keptLinks, ∀ p ∈ packets, p.linkType = link

/-- The link type with which all packets come back. -/
def savedLink (packets : List PacketRecord) : LinkType :=
  LinkType.fromU32 (linkToDatalink (firstLink packets)).number

theorem kept_iff (link : LinkType) :
    link = LinkType.fromU32 (linkToDatalink link).number ↔ link ∈ keptLinks := by
  cases link with
  | unknown v =>
    constructor
    · intro same
      cases same
    · intro member
      simp only [keptLinks, List.mem_cons, reduceCtorEq, List.not_mem_nil, or_self] at member
  | _ => decide

theorem savedLink_iff (packets : List PacketRecord) :
    (∀ p ∈ packets, p.linkType = savedLink packets) ↔ OneKeptLink packets := by
  cases packets with
  | nil =>
    refine ⟨fun _ => ⟨.ethernet, by decide, fun p member => ?_⟩, fun _ p member => ?_⟩
    · cases member
    · cases member
  | cons first rest =>
    have saved : savedLink (first :: rest) =
        LinkType.fromU32 (linkToDatalink first.linkType).number := rfl
    constructor
    · intro same
      have own := same first List.mem_cons_self
      refine ⟨first.linkType, (kept_iff _).mp (own.trans saved), fun p member => ?_⟩
      exact (same p member).trans own.symm
    · rintro ⟨link, kept, same⟩ p member
      rw [saved, same first List.mem_cons_self, ← (kept_iff link).mpr kept]
      exact same p member

/-- What comes back: data and lengths as they were, and the one link type. -/
def asSaved (packets : List PacketRecord) : List Content :=
  packets.map fun p => (p.data, savedLink packets, p.origLen)

theorem asSaved_iff (packets : List PacketRecord) :
    asSaved packets = packets.map PacketRecord.content ↔ OneKeptLink packets := by
  rw [asSaved, List.map_inj_left, ← savedLink_iff]
  refine forall₂_congr fun p _ => ?_
  rw [PacketRecord.content, Prod.mk.injEq, Prod.mk.injEq]
  exact ⟨fun same => same.2.1.symm, fun same => ⟨rfl, same.symm, rfl⟩⟩

theorem openPcap_content {datalink : DataLink} {stored read : List PcapPacket} {file : File}
    (reader : crate.pcapReader file = some (datalink, read.map some))
    (same : List.Forall₂ SamePcap stored read) : ∃ opened, openPcap crate file = some opened ∧
      opened.map OpenedPacket.content =
        stored.map fun p => (p.data, LinkType.fromU32 datalink.number, p.origLen) := by
  refine ⟨read.map fun pkt => {
    data := pkt.data
    linkType := LinkType.fromU32 datalink.number
    origLen := pkt.origLen
    wall := pkt.timestamp }, ?_, ?_⟩
  · rw [openPcap, reader]
    show (read.map some).mapM _ = _
    clear reader same
    induction read with
    | nil => rfl
    | cons pkt rest ih =>
      rw [List.map_cons, List.mapM_cons, ih]
      rfl
  · rw [List.map_map]
    clear reader
    induction same with
    | nil => rfl
    | cons pair _ ih =>
      rw [List.map_cons, List.map_cons, ih]
      simp only [Function.comp, OpenedPacket.content, pair.1, pair.2]

/-- Section headers change nothing. -/
theorem foldl_ngBlockRead_filter (now : Nat) (blocks : List PcapNgBlock)
    (state : List LinkType × List OpenedPacket) :
    (blocks.filter fun block => !block.isSection).foldl
        (fun (ifaces, packets) block => ngBlockRead now ifaces packets block) state =
      blocks.foldl (fun (ifaces, packets) block => ngBlockRead now ifaces packets block) state := by
  induction blocks generalizing state with
  | nil => rfl
  | cons block rest ih => cases block <;> exact ih _

theorem foldl_ngBlockRead_content (now : Nat) (link : LinkType) (packets : List PacketRecord)
    {read : List PcapNgBlock} (same : List.Forall₂ SameBlock (packets.map enhancedBlock) read)
    (opened : List OpenedPacket) :
    (read.foldl (fun (ifaces, packets) block => ngBlockRead now ifaces packets block)
        ([link], opened)).2.map OpenedPacket.content =
      opened.map OpenedPacket.content ++ packets.map fun p => (p.data, link, p.origLen) := by
  induction packets generalizing read opened with
  | nil =>
    cases same
    exact (List.append_nil _).symm
  | cons p rest ih =>
    cases same with
    | cons block others =>
      cases block with
      | enhancedPacket _ _ timestamp _ _ =>
        rw [List.foldl_cons]
        refine (ih others _).trans ?_
        rw [List.map_append, List.append_assoc]
        rfl

theorem pcap_returns (faithful : crate.Faithful) (packets : List PacketRecord) (now : Nat) :
    ∃ file, savePacketsPcap crate packets = some file ∧ ∃ opened,
      openCaptureFile crate now file = some opened ∧
        opened.map OpenedPacket.content = asSaved packets := by
  obtain ⟨file, written, ⟨magic, first, other⟩, read, reader, same⟩ :=
    faithful.pcap (pcapHeader packets) (packets.map pcapPacket)
  obtain ⟨opened, done, content⟩ := openPcap_content crate reader same
  refine ⟨file, written, opened, ?_, ?_⟩
  · rw [openCaptureFile, first]
    exact (if_neg other).trans done
  · rw [content, List.map_map]
    rfl

theorem pcapng_returns (faithful : crate.Faithful) (packets : List PacketRecord) (now : Nat) :
    ∃ file, savePacketsPcapng crate packets = some file ∧ ∃ opened,
      openCaptureFile crate now file = some opened ∧
        opened.map OpenedPacket.content = asSaved packets := by
  have single : ∀ block ∈ packets.map enhancedBlock, block.isFirstInterfacePacket = true := by
    intro block member
    obtain ⟨p, _, rfl⟩ := List.mem_map.mp member
    rfl
  obtain ⟨file, written, magic, read, reader, same⟩ :=
    faithful.pcapng sectionBlock (linkToDatalink (firstLink packets)) 65535 _ single
  have blocks : (read.map some).mapM id = some read := by
    clear reader same
    induction read with
    | nil => rfl
    | cons block rest ih =>
      rw [List.map_cons, List.mapM_cons, ih]
      rfl
  have opens : openCaptureFile crate now file = some (read.foldl
      (fun (ifaces, packets) block => ngBlockRead now ifaces packets block) ([], [])).2 := by
    rw [openCaptureFile, magic]
    show (if ngMagic = ngMagic then openPcapng crate now file else openPcap crate file) = _
    rw [if_pos rfl, openPcapng, reader]
    show ((read.map some).mapM id).bind _ = _
    rw [blocks]
    rfl
  refine ⟨file, written, _, opens, ?_⟩
  rw [← foldl_ngBlockRead_filter]
  cases behind : read.filter fun block => !block.isSection with
  | nil => rw [behind] at same; cases same
  | cons first rest =>
    rw [behind] at same
    cases same with
    | cons interface others =>
      cases interface
      exact foldl_ngBlockRead_content now _ packets others []

/-- Either writer gives back every packet exactly when all have one link type that the file
keeps: Ethernet, Linux cooked or null. -/
theorem capture_file_round_trips_iff (faithful : crate.Faithful) (packets : List PacketRecord)
    (now : Nat) :
    (RoundTrips crate now (savePacketsPcap crate) packets ↔ OneKeptLink packets) ∧
      (RoundTrips crate now (savePacketsPcapng crate) packets ↔ OneKeptLink packets) := by
  have settled : ∀ save : List PacketRecord → Option File,
      (∃ file, save packets = some file ∧ ∃ opened, openCaptureFile crate now file = some opened ∧
        opened.map OpenedPacket.content = asSaved packets) →
      (RoundTrips crate now save packets ↔ OneKeptLink packets) := by
    rintro save ⟨file, saved, opened, done, content⟩
    rw [← asSaved_iff]
    constructor
    · rintro ⟨other, saved', opened', done', content'⟩
      rw [saved] at saved'
      cases saved'
      rw [done] at done'
      cases done'
      exact content.symm.trans content'
    · intro kept
      exact ⟨file, saved, opened, done, content.trans kept⟩
  exact ⟨settled _ (pcap_returns crate faithful packets now),
    settled _ (pcapng_returns crate faithful packets now)⟩

end

/- A package that keeps the items it is given. -/

inductive ItemFile where
  | pcap (header : PcapHeader) (packets : List PcapPacket)
  | pcapng (blocks : List PcapNgBlock)
  deriving DecidableEq, Repr

def itemCrate : PcapFile ItemFile where
  pcapWithHeader header := some (.pcap header [])
  writePacket
    | .pcap header packets, pkt => some (.pcap header (packets ++ [pkt]))
    | .pcapng _, _ => none
  ngNew := some (.pcapng [])
  writeBlock
    | .pcapng blocks, block => some (.pcapng (blocks ++ [block]))
    | .pcap _ _, _ => none
  magic
    | .pcap _ _ => some [0xd4, 0xc3, 0xb2, 0xa1]
    | .pcapng _ => some ngMagic
  pcapReader
    | .pcap header packets => some (header.datalink, packets.map some)
    | .pcapng _ => none
  ngReader
    | .pcapng blocks => some (blocks.map some)
    | .pcap _ _ => none

theorem itemCrate_packets (header : PcapHeader) (packets stored : List PcapPacket) :
    packets.foldlM itemCrate.writePacket (.pcap header stored) =
      some (.pcap header (stored ++ packets)) := by
  induction packets generalizing stored with
  | nil => rw [List.append_nil]; rfl
  | cons pkt rest ih =>
    rw [List.foldlM_cons]
    refine (ih _).trans ?_
    rw [List.append_assoc, List.singleton_append]

theorem itemCrate_blocks (blocks stored : List PcapNgBlock) :
    blocks.foldlM itemCrate.writeBlock (.pcapng stored) = some (.pcapng (stored ++ blocks)) := by
  induction blocks generalizing stored with
  | nil => rw [List.append_nil]; rfl
  | cons block rest ih =>
    rw [List.foldlM_cons]
    refine (ih _).trans ?_
    rw [List.append_assoc, List.singleton_append]

theorem itemCrate_faithful : itemCrate.Faithful := by
  constructor
  · intro header packets
    refine ⟨_, itemCrate_packets header packets [], ⟨_, rfl, by decide⟩, packets, rfl, ?_⟩
    exact List.forall₂_same.mpr fun pkt _ => ⟨rfl, rfl⟩
  · intro header linktype snaplen packets single
    refine ⟨_, itemCrate_blocks _ [], rfl, _, rfl, ?_⟩
    have kept : packets.filter (fun block => !block.isSection) = packets := by
      apply List.filter_eq_self.mpr
      intro block member
      have packet := single block member
      cases block <;> first | rfl | cases packet
    show List.Forall₂ SameBlock _ (_ :: packets.filter fun block => !block.isSection)
    rw [kept]
    refine .cons (.interfaceDescription linktype snaplen snaplen) ?_
    apply List.forall₂_same.mpr
    intro block member
    have packet := single block member
    cases block with
    | enhancedPacket interfaceId timestamp originalLen data => exact .enhancedPacket ..
    | _ => cases packet

def cookedRecord : PacketRecord where
  linkType := .linuxSll
  data := [0, 4]
  origLen := 60

theorem cooked_pair_round_trips :
    RoundTrips itemCrate 0 (savePacketsPcap itemCrate) [cookedRecord, cookedRecord] ∧
      RoundTrips itemCrate 0 (savePacketsPcapng itemCrate) [cookedRecord, cookedRecord] := by
  have one : OneKeptLink [cookedRecord, cookedRecord] := ⟨.linuxSll, by decide, by decide⟩
  have both := capture_file_round_trips_iff itemCrate itemCrate_faithful
    [cookedRecord, cookedRecord] 0
  exact ⟨both.1.mpr one, both.2.mpr one⟩

def rawRecord : PacketRecord where
  linkType := .raw
  data := [0x45, 0]
  origLen := 40

/-- A raw packet comes back with an unknown link type, and one behind a cooked packet as cooked. -/
theorem raw_packets_relabelled :
    (savePacketsPcapng itemCrate [rawRecord]).bind (openCaptureFile itemCrate 0) =
        some [{ data := [0x45, 0], linkType := .unknown 101, origLen := 40, wall := 0 }] ∧
      ¬ RoundTrips itemCrate 0 (savePacketsPcap itemCrate) [rawRecord] ∧
      ¬ RoundTrips itemCrate 0 (savePacketsPcapng itemCrate) [rawRecord] ∧
      ¬ RoundTrips itemCrate 0 (savePacketsPcapng itemCrate) [cookedRecord, rawRecord] := by
  decide

end BitBeak
