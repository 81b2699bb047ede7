import BitBeak.Capture.FileIo
import BitBeak.Lib.Rings

/-! The rotating files of a running capture, and what they keep of it. The directory is part
of the ring, and every operation on it succeeds. -/
namespace BitBeak
open Wire Rings

def PcapNgBlock.isPacket : PcapNgBlock → Bool
  | .enhancedPacket .. => true
  | _ => false

/-- The files with what was written to them, in the order in which they were created. -/
abbrev Directory := List (String × List PcapNgBlock)

namespace Directory

/-- `File::create`: a file of that name loses what it holds and is the newest from now on. -/
def create (dir : Directory) (name : String) : Directory :=
  dir.filter (fun file => file.1 ≠ name) ++ [(name, [])]

def write (dir : Directory) (name : String) (block : PcapNgBlock) : Directory :=
  dir.map fun file => if file.1 = name then (name, file.2 ++ [block]) else file

/-- The packets file by file. -/
def packets (dir : Directory) : List PcapNgBlock :=
  dir.flatMap fun file => file.2.filter PcapNgBlock.isPacket

end Directory

/-- `n` in decimal, padded with zeros to `width` digits. -/
def paddedNat (width n : Nat) : String :=
  let digits := Nat.toDigits 10 n
  String.ofList (List.replicate (width - digits.length) '0' ++ digits)

/-- `writer` names the file it writes to. `currentIdx` counts the files created, and is taken
not to overflow. -/
structure DiskRing where
  dir : Directory
  filePrefix : String
  maxBytes : Nat
  maxFiles : Nat
  currentIdx : Nat
  currentBytes : Nat
  writer : Option String
  wroteIface : Bool
  deriving DecidableEq, Repr

namespace DiskRing

def pathFor (ring : DiskRing) (idx : Nat) : String :=
  ring.filePrefix ++ "-" ++ paddedNat 5 (idx % ring.maxFiles) ++ ".pcapng"

def rotate (ring : DiskRing) : DiskRing :=
  let path := ring.pathFor ring.currentIdx
  { ring with
    dir := (ring.dir.create path).write path (.sectionHeader sectionBlock)
    currentIdx := ring.currentIdx + 1
    currentBytes := 0
    writer := some path
    wroteIface := false }

/-- The ring in front of its first file, over an empty directory. -/
def unopened (filePrefix : String) (maxMb maxFiles : Nat) : DiskRing where
  dir := []
  filePrefix := filePrefix
  maxBytes := max maxMb 1 * 1024 * 1024 % 2 ^ 64
  maxFiles := max maxFiles 1
  currentIdx := 0
  currentBytes := 0
  writer := none
  wroteIface := false

def new (filePrefix : String) (maxMb maxFiles : Nat) : DiskRing :=
  (unopened filePrefix maxMb maxFiles).rotate

def ringDatalink : LinkType → DataLink
  | .ethernet => .ETHERNET
  | .linuxSll => .LINUX_SLL
  | .null => .NULL
  | _ => .ETHERNET

/-- The interface is described in front of the first packet of a file. -/
def describeIface (ring : DiskRing) (path : String) (link : LinkType) : DiskRing :=
  if ring.wroteIface then ring
  else
    { ring with
      dir := ring.dir.write path (.interfaceDescription (ringDatalink link) 65535)
      wroteIface := true }

/-- The interface, if need be, and the packet. `blockSize` is the number of bytes that the
package says it wrote. Without a writer there is an error. -/
def putPacket (blockSize : PcapNgBlock → Nat) (ring : DiskRing) (pkt : PacketRecord) :
    Option DiskRing := do
  let path ← ring.writer
  let ring := ring.describeIface path pkt.linkType
  let block := enhancedBlock pkt
  return { ring with
    dir := ring.dir.write path block
    currentBytes := (ring.currentBytes + blockSize block) % 2 ^ 64 }

def writePacket (blockSize : PcapNgBlock → Nat) (ring : DiskRing) (pkt : PacketRecord) :
    Option DiskRing :=
  let ring := if ring.maxBytes ≤ ring.currentBytes then ring.rotate else ring
  ring.putPacket blockSize pkt

def writeAll (blockSize : PcapNgBlock → Nat) (ring : DiskRing) (pkts : List PacketRecord) :
    Option DiskRing :=
  pkts.foldlM (writePacket blockSize) ring

/- Files. -/

theorem write_last {name : String} {front : Directory} (other : name ∉ front.map Prod.fst)
    (blocks : List PcapNgBlock) (block : PcapNgBlock) :
    Directory.write (front ++ [(name, blocks)]) name block = front ++ [(name, blocks ++ [block])] := by
  have untouched : front.map (fun file => if file.1 = name then (name, file.2 ++ [block]) else file)
      = front := by
    refine (List.map_congr_left fun file member => ?_).trans (List.map_id front)
    refine if_neg fun same => other ?_
    rw [← same]
    exact List.mem_map_of_mem member
  rw [Directory.write, List.map_append, untouched, List.map_singleton, if_pos rfl]

theorem write_create (dir : Directory) (name : String) (block : PcapNgBlock) :
    (dir.create name).write name block
      = dir.filter (fun file => file.1 ≠ name) ++ [(name, [block])] := by
  refine write_last (fun member => ?_) [] block
  obtain ⟨file, kept, same⟩ := List.mem_map.mp member
  exact of_decide_eq_true (List.mem_filter.mp kept).2 same

theorem write_names (dir : Directory) (name : String) (block : PcapNgBlock) :
    (dir.write name block).map Prod.fst = dir.map Prod.fst := by
  rw [Directory.write, List.map_map]
  refine List.map_congr_left fun file _ => ?_
  rw [Function.comp_apply]
  split
  · next same => exact same.symm
  · rfl

theorem packets_append (front behind : Directory) :
    Directory.packets (front ++ behind) = front.packets ++ behind.packets :=
  List.flatMap_append

/- Names. -/

theorem paddedNat_injective {width m n : Nat} (same : paddedNat width m = paddedNat width n) :
    m = n := by
  have value : ∀ k, Nat.ofDigitChars 10 (paddedNat width k).toList 0 = k := by
    intro k
    rw [paddedNat, String.toList_ofList, Nat.ofDigitChars_append, Nat.ofDigitChars_replicate_zero,
      Nat.mul_zero, Nat.ofDigitChars_ten_toDigits]
  rw [← value m, same, value n]

theorem pathFor_eq_iff (ring : DiskRing) (i j : Nat) :
    ring.pathFor i = ring.pathFor j ↔ i % ring.maxFiles = j % ring.maxFiles := by
  constructor
  · intro same
    rw [pathFor, pathFor, String.append_left_inj, String.append_right_inj] at same
    exact paddedNat_injective same
  · intro same
    rw [pathFor, pathFor, same]

/-- Fewer than `maxFiles` files in a row have different names. -/
theorem pathFor_ne (ring : DiskRing) {i j : Nat} (before : i < j) (near : j - i < ring.maxFiles) :
    ring.pathFor i ≠ ring.pathFor j := by
  intro same
  have whole : (j - i) % ring.maxFiles = 0 :=
    Nat.sub_mod_eq_zero_of_mod_eq ((ring.pathFor_eq_iff i j).mp same).symm
  rw [Nat.mod_eq_of_lt near] at whole
  omega

theorem pathFor_again (ring : DiskRing) {idx : Nat} (wrapped : ring.maxFiles ≤ idx) :
    ring.pathFor (idx - ring.maxFiles) = ring.pathFor idx := by
  rw [pathFor_eq_iff, Nat.mod_eq_sub_mod wrapped]

/-- The files there are were created last, one after the other. -/
structure Named (ring : DiskRing) : Prop where
  positive : 0 < ring.maxFiles
  length : ring.dir.length = min ring.currentIdx ring.maxFiles
  names : ring.dir.map Prod.fst
    = (List.range' (ring.currentIdx - ring.dir.length) ring.dir.length).map ring.pathFor

/-- The newest file is open. -/
structure Opened (ring : DiskRing) : Prop extends Named ring where
  created : 0 < ring.currentIdx
  writer : ring.writer = some (ring.pathFor (ring.currentIdx - 1))

/-- The next name is that of the oldest file, once there are enough of them. -/
theorem Named.others {ring : DiskRing} (named : Named ring) :
    ring.dir.filter (fun file => file.1 ≠ ring.pathFor ring.currentIdx)
      = if ring.maxFiles ≤ ring.dir.length then ring.dir.tail else ring.dir := by
  have keeps : ∀ files : Directory, (∀ name ∈ files.map Prod.fst,
      name ≠ ring.pathFor ring.currentIdx) →
      files.filter (fun file => file.1 ≠ ring.pathFor ring.currentIdx) = files := by
    intro files others
    refine List.filter_eq_self.mpr fun file member => ?_
    exact decide_eq_true (others file.1 (List.mem_map_of_mem member))
  have apart : ∀ idx, idx < ring.currentIdx → ring.currentIdx - idx < ring.maxFiles →
      ring.pathFor idx ≠ ring.pathFor ring.currentIdx := fun idx => ring.pathFor_ne
  have length := named.length
  have names := named.names
  have positive := named.positive
  split
  · next full =>
    cases dir : ring.dir with
    | nil =>
      rw [dir, List.length_nil] at full
      omega
    | cons oldest files =>
      rw [dir, List.length_cons] at length full
      rw [dir, List.length_cons, List.map_cons, List.range'_succ, List.map_cons,
        List.cons.injEq] at names
      obtain ⟨first, others⟩ := names
      have same : oldest.1 = ring.pathFor ring.currentIdx := by
        have wrapped : files.length + 1 = ring.maxFiles := by omega
        rw [first, wrapped, ring.pathFor_again (by omega)]
      rw [List.filter_cons_of_neg (by simpa using same), List.tail_cons]
      refine keeps files fun name member => ?_
      rw [others] at member
      obtain ⟨idx, inside, rfl⟩ := List.mem_map.mp member
      rw [List.mem_range'_1] at inside
      exact apart idx (by omega) (by omega)
  · next room =>
    refine keeps ring.dir fun name member => ?_
    rw [names] at member
    obtain ⟨idx, inside, rfl⟩ := List.mem_map.mp member
    rw [List.mem_range'_1] at inside
    exact apart idx (by omega) (by omega)

/-- The new file takes the place of the oldest, once there are enough of them. -/
theorem Named.rotate_dir {ring : DiskRing} (named : Named ring) :
    ring.rotate.dir = Rings.push ring.maxFiles ring.dir
      (ring.pathFor ring.currentIdx, [.sectionHeader sectionBlock]) := by
  rw [Rings.push, ← named.others]
  exact write_create _ _ _

theorem Named.rotate {ring : DiskRing} (named : Named ring) : Opened ring.rotate := by
  have length := named.length
  have positive := named.positive
  have names := named.names
  obtain ⟨less, enough⟩ : ∃ n, ring.maxFiles = n + 1 := ⟨ring.maxFiles - 1, by omega⟩
  have size : ring.rotate.dir.length = min (ring.currentIdx + 1) ring.maxFiles := by
    rw [named.rotate_dir, Rings.push, List.length_append, List.length_singleton]
    split
    · rw [List.length_tail]
      omega
    · omega
  refine ⟨⟨positive, size, ?_⟩, Nat.succ_pos _, rfl⟩
  rw [size, named.rotate_dir, Rings.push, List.map_append]
  show _ = (List.range' (ring.currentIdx + 1 - _) _).map ring.pathFor
  split
  · next full =>
    have most : min (ring.currentIdx + 1) ring.maxFiles = less + 1 := by omega
    have held : ring.dir.length = less + 1 := by omega
    have start : ring.currentIdx + 1 - (less + 1) = ring.currentIdx - (less + 1) + 1 := by omega
    have newest : ring.currentIdx - (less + 1) + 1 + 1 * less = ring.currentIdx := by omega
    rw [held, List.range'_succ, List.map_cons] at names
    rw [most, start, List.range'_concat, newest, List.map_append, List.map_tail, names]
    rfl
  · next room =>
    have most : min (ring.currentIdx + 1) ring.maxFiles = ring.dir.length + 1 := by omega
    have all : ring.currentIdx = ring.dir.length := by omega
    have start : ring.currentIdx + 1 - (ring.dir.length + 1)
        = ring.currentIdx - ring.dir.length := by omega
    have newest : ring.currentIdx - ring.dir.length + 1 * ring.dir.length = ring.currentIdx := by
      omega
    rw [most, start, List.range'_concat, newest, List.map_append, names]
    rfl

/-- The file that is written to is the last of those there are. -/
theorem Opened.last {ring : DiskRing} (opened : Opened ring) :
    ∃ front blocks, ring.dir = front ++ [(ring.pathFor (ring.currentIdx - 1), blocks)] ∧
      ring.pathFor (ring.currentIdx - 1) ∉ front.map Prod.fst := by
  have length := opened.length
  have positive := opened.positive
  have created := opened.created
  have names := opened.names
  obtain ⟨less, held⟩ : ∃ n, ring.dir.length = n + 1 := ⟨ring.dir.length - 1, by omega⟩
  rw [held, List.range'_concat, List.map_append] at names
  obtain ⟨front, newest, whole, before, last⟩ := List.map_eq_append_iff.mp names
  rw [List.map_singleton] at last
  obtain ⟨⟨path, blocks⟩, rfl, same⟩ := List.map_eq_singleton_iff.mp last
  have idx : ring.currentIdx - (less + 1) + less = ring.currentIdx - 1 := by omega
  rw [Nat.one_mul, idx] at same
  refine ⟨front, blocks, by rw [whole, ← same], ?_⟩
  rw [before]
  intro member
  obtain ⟨i, inside, again⟩ := List.mem_map.mp member
  rw [List.mem_range'_1] at inside
  exact ring.pathFor_ne (by omega) (by omega) again

/-- A block goes to the newest file. -/
theorem Opened.write {ring : DiskRing} (opened : Opened ring) {path : String}
    (current : ring.writer = some path) (block : PcapNgBlock) (bytes : Nat) (wrote : Bool) :
    Opened { ring with
      dir := ring.dir.write path block, currentBytes := bytes, wroteIface := wrote } ∧
      (ring.dir.write path block).packets
        = ring.dir.packets ++ [block].filter PcapNgBlock.isPacket := by
  have size : (ring.dir.write path block).length = ring.dir.length := List.length_map _
  constructor
  · refine ⟨⟨opened.positive, size.trans opened.length, ?_⟩, opened.created, opened.writer⟩
    rw [write_names, size]
    exact opened.names
  · obtain ⟨front, blocks, whole, other⟩ := opened.last
    cases Option.some.inj (current.symm.trans opened.writer)
    rw [whole, write_last other, packets_append, packets_append, List.append_assoc]
    congr 1
    simp only [Directory.packets, List.flatMap_cons, List.flatMap_nil, List.append_nil,
      List.filter_append]

theorem Opened.describeIface {ring : DiskRing} (opened : Opened ring) {path : String}
    (current : ring.writer = some path) (link : LinkType) :
    Opened (ring.describeIface path link) ∧
      (ring.describeIface path link).dir.packets = ring.dir.packets ∧
        (ring.describeIface path link).writer = some path := by
  rw [DiskRing.describeIface]
  split
  · exact ⟨opened, rfl, current⟩
  · obtain ⟨written, same⟩ := opened.write current
      (.interfaceDescription (ringDatalink link) 65535) ring.currentBytes true
    exact ⟨written, same.trans (List.append_nil _), current⟩

theorem Opened.putPacket {ring : DiskRing} (opened : Opened ring)
    (blockSize : PcapNgBlock → Nat) (pkt : PacketRecord) :
    ∃ next, ring.putPacket blockSize pkt = some next ∧ Opened next ∧
      next.maxFiles = ring.maxFiles ∧
        next.dir.packets = ring.dir.packets ++ [enhancedBlock pkt] := by
  have limit : ∀ path, (ring.describeIface path pkt.linkType).maxFiles = ring.maxFiles := by
    intro path
    rw [DiskRing.describeIface]
    split <;> rfl
  obtain ⟨described, same, current⟩ := opened.describeIface opened.writer pkt.linkType
  obtain ⟨written, more⟩ := described.write current (enhancedBlock pkt) _ _
  rw [DiskRing.putPacket, opened.writer]
  exact ⟨_, rfl, written, limit _, more.trans (by rw [same]; rfl)⟩

/-- What is there when a packet has been written: what was there, but for the oldest of enough
files when a new one was begun, and the packet. -/
theorem Opened.writePacket {ring : DiskRing} (opened : Opened ring)
    (blockSize : PcapNgBlock → Nat) (pkt : PacketRecord) :
    ∃ next, ring.writePacket blockSize pkt = some next ∧ Opened next ∧
      next.maxFiles = ring.maxFiles ∧
        next.dir.packets = (if ring.maxBytes ≤ ring.currentBytes then ring.rotate.dir.packets
          else ring.dir.packets) ++ [enhancedBlock pkt] := by
  rw [DiskRing.writePacket]
  split
  · exact opened.rotate.putPacket blockSize pkt
  · exact opened.putPacket blockSize pkt

theorem section_packets (path : String) :
    Directory.packets [(path, [.sectionHeader sectionBlock])] = [] := rfl

/-- A rotation keeps the end of what there was. -/
theorem Named.rotate_suffix {ring : DiskRing} (named : Named ring) :
    ring.rotate.dir.packets <:+ ring.dir.packets := by
  rw [named.rotate_dir, Rings.push, packets_append, section_packets, List.append_nil]
  split
  · cases ring.dir with
    | nil => exact List.suffix_rfl
    | cons oldest files => exact ⟨_, (packets_append [oldest] files).symm⟩
  · exact List.suffix_rfl

/-- What holds of a ring when these packets have been written to it. -/
structure Retains (limit : Nat) (pkts : List PacketRecord) (ring : DiskRing) : Prop where
  opened : Opened ring
  limit : ring.maxFiles = limit
  suffix : ring.dir.packets <:+ pkts.map enhancedBlock
  latest : ring.dir.packets.getLast? = (pkts.map enhancedBlock).getLast?

theorem retains_new (filePrefix : String) (maxMb maxFiles : Nat) :
    Retains (max maxFiles 1) [] (new filePrefix maxMb maxFiles) := by
  have named : Named (unopened filePrefix maxMb maxFiles) :=
    ⟨Nat.le_max_right _ _, (Nat.zero_min _).symm, rfl⟩
  have nothing : (new filePrefix maxMb maxFiles).dir.packets = [] :=
    List.suffix_nil.mp named.rotate_suffix
  refine ⟨named.rotate, rfl, ?_, ?_⟩
  · rw [nothing]
    exact List.nil_suffix
  · rw [nothing]
    rfl

theorem Retains.writePacket {limit : Nat} {pkts : List PacketRecord} {ring : DiskRing}
    (before : Retains limit pkts ring) (blockSize : PcapNgBlock → Nat) (pkt : PacketRecord) :
    ∃ next, ring.writePacket blockSize pkt = some next ∧ Retains limit (pkts ++ [pkt]) next := by
  obtain ⟨next, written, opened, same, packets⟩ := before.opened.writePacket blockSize pkt
  have kept : (if ring.maxBytes ≤ ring.currentBytes then ring.rotate.dir.packets
      else ring.dir.packets) <:+ pkts.map enhancedBlock := by
    split
    · exact before.opened.rotate_suffix.trans before.suffix
    · exact before.suffix
  refine ⟨next, written, opened, same.trans before.limit, ?_, ?_⟩
  · rw [packets, List.map_append, List.map_singleton]
    obtain ⟨gone, whole⟩ := kept
    exact ⟨gone, by rw [← List.append_assoc, whole]⟩
  · rw [packets, List.map_append, List.map_singleton, List.getLast?_concat, List.getLast?_concat]

theorem retains_writeAll (blockSize : PcapNgBlock → Nat) (filePrefix : String)
    (maxMb maxFiles : Nat) (pkts : List PacketRecord) :
    ∃ ring, (new filePrefix maxMb maxFiles).writeAll blockSize pkts = some ring ∧
      Retains (max maxFiles 1) pkts ring := by
  induction pkts using List.reverseRecOn with
  | nil => exact ⟨_, rfl, retains_new filePrefix maxMb maxFiles⟩
  | append_singleton pkts pkt ih =>
    obtain ⟨ring, written, before⟩ := ih
    obtain ⟨next, last, after⟩ := before.writePacket blockSize pkt
    refine ⟨next, ?_, after⟩
    rw [writeAll] at written ⊢
    rw [List.foldlM_append, written]
    simpa using last

end DiskRing

open DiskRing in
/-- However many packets are written, the files are no more than were asked for, and what
they hold is the end of what was written. A rotation adds a file and removes none but the
oldest, and a packet is written behind what is left. -/
theorem disk_ring_retention (blockSize : PcapNgBlock → Nat) (filePrefix : String)
    (maxMb maxFiles : Nat) (pkts : List PacketRecord) :
    ∃ ring, (DiskRing.new filePrefix maxMb maxFiles).writeAll blockSize pkts = some ring ∧
      ring.dir.length ≤ max maxFiles 1 ∧
      ring.dir.packets <:+ pkts.map enhancedBlock ∧
      ring.dir.packets.getLast? = (pkts.map enhancedBlock).getLast? ∧
      ring.rotate.dir.length ≤ max maxFiles 1 ∧
      ring.rotate.dir = Rings.push (max maxFiles 1) ring.dir
        (ring.pathFor ring.currentIdx, [.sectionHeader sectionBlock]) ∧
      ∀ pkt, ∃ next, ring.writePacket blockSize pkt = some next ∧
        next.dir.packets = (if ring.maxBytes ≤ ring.currentBytes then ring.rotate.dir.packets
          else ring.dir.packets) ++ [enhancedBlock pkt] := by
  obtain ⟨ring, written, held⟩ := retains_writeAll blockSize filePrefix maxMb maxFiles pkts
  have bounded : ∀ now : DiskRing, Named now → now.dir.length ≤ now.maxFiles := by
    intro now named
    rw [named.length]
    exact Nat.min_le_right _ _
  have named := held.opened.toNamed
  refine ⟨ring, written, ?_, held.suffix, held.latest, ?_, ?_, fun pkt => ?_⟩
  · exact held.limit ▸ bounded ring named
  · exact held.limit ▸ bounded ring.rotate named.rotate.toNamed
  · exact held.limit ▸ named.rotate_dir
  · obtain ⟨next, last, _, _, packets⟩ := held.opened.writePacket blockSize pkt
    exact ⟨next, last, packets⟩

/-- A ring that was asked for no file has one. -/
theorem ring_of_no_files_has_one : ¬ (DiskRing.new "t" 1 0).dir.length ≤ 0 := by
  decide

end BitBeak
