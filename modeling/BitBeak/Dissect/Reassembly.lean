import BitBeak.Dissect.Packet
import Mathlib.Data.List.AList
import Mathlib.Data.List.Sort

/-! IPv4 defragmentation: the header reader and the table of pending fragments. -/
namespace BitBeak
open Wire

/-- The table is keyed by identification, source, destination and protocol. -/
structure FragKey where
  id : Nat
  src : Nat
  dst : Nat
  proto : UInt8
  deriving DecidableEq, Repr

structure FragPiece where
  offset : Nat
  more : Bool
  data : Bytes
  deriving DecidableEq, Repr

structure Ipv4Hdr where
  id : Nat
  src : Nat
  dst : Nat
  proto : UInt8
  fragOffset : Nat
  moreFragments : Bool
  deriving DecidableEq, Repr

/-- Where `parse_ipv4` expects the IPv4 header of a record. -/
def ipv4Start (pkt : PacketRecord) : Except Fault (Option Nat) := do
  match pkt.linkType with
  | .ethernet =>
    if pkt.data.length < 14 then return none
    else if (← readBE pkt.data 12 2) ≠ 0x0800 then return none
    else return some 14
  | .linuxSll => return some 16
  | .raw | .null => return some 0
  | _ => return none

def parseIpv4 (pkt : PacketRecord) : Except Fault (Option (Ipv4Hdr × Bytes)) := do
  match ← ipv4Start pkt with
  | none => return none
  | some ipOff =>
    let data := pkt.data
    if data.length < ipOff + 20 then return none
    else
      let ihl := ((← byteAt data ipOff) &&& 0x0f).toNat * 4
      let total ← readBE data (ipOff + 2) 2
      let flagsFrag ← readBE data (ipOff + 6) 2
      let id ← readBE data (ipOff + 4) 2
      let proto ← byteAt data (ipOff + 9)
      let src ← readBE data (ipOff + 12) 4
      let dst ← readBE data (ipOff + 16) 4
      let payload ← slice data (ipOff + ihl) (ipOff + min total data.length)
      return some (
        { id := id
          src := src
          dst := dst
          proto := proto
          fragOffset := (flagsFrag &&& 0x1fff) * 8
          moreFragments := flagsFrag &&& 0x2000 ≠ 0 }, payload)

/-- Fragments waiting for the rest of their datagram. -/
abbrev Ipv4Defrag := AList (fun _ : FragKey => List FragPiece)

def u16Max : Nat := 2 ^ 16 - 1

/-- The pieces laid end to end from `expected`, if each starts where the one before it
ends. The running offset is a saturating sum of 16-bit numbers. -/
def joinPieces (expected : Nat) : List FragPiece → Option Bytes
  | [] => some []
  | f :: rest =>
    if f.offset ≠ expected then none
    else (joinPieces (min (expected + f.data.length % 2 ^ 16) u16Max) rest).map (f.data ++ ·)

/-- What `ingest` makes of the pieces collected under one key. -/
def reassemble (frags : List FragPiece) : Option Bytes :=
  if frags.all (·.more) then none
  else
    let sorted := frags.insertionSort (fun a b => a.offset ≤ b.offset)
    match joinPieces 0 sorted with
    | none => none
    | some out => if (sorted.getLast?.map (·.more)).getD true then none else some out

namespace Ipv4Defrag

def ingest (table : Ipv4Defrag) (pkt : PacketRecord) :
    Except Fault (Ipv4Defrag × Option Bytes) := do
  match ← parseIpv4 pkt with
  | none => return (table, none)
  | some (hdr, payload) =>
    if hdr.fragOffset = 0 ∧ !hdr.moreFragments then return (table, none)
    else
      let key : FragKey := ⟨hdr.id, hdr.src, hdr.dst, hdr.proto⟩
      let piece : FragPiece := ⟨hdr.fragOffset, hdr.moreFragments, payload⟩
      let frags := (table.lookup key).getD [] ++ [piece]
      match reassemble frags with
      | none => return (table.insert key frags, none)
      | some out => return (table.erase key, some out)

/-- One record after the other, with what each returned. -/
def ingestAll (table : Ipv4Defrag) :
    List PacketRecord → Except Fault (Ipv4Defrag × List (Option Bytes))
  | [] => return (table, [])
  | pkt :: rest => do
    let (next, out) ← table.ingest pkt
    let (final, outs) ← ingestAll next rest
    return (final, out :: outs)

end Ipv4Defrag

/- Which records are read inside themselves. -/

/-- Where the IPv4 header of a record begins. -/
def ipv4StartAt (pkt : PacketRecord) : Option Nat :=
  match pkt.linkType with
  | .ethernet => if 14 ≤ pkt.data.length ∧ beAt pkt.data 12 2 = 0x0800 then some 14 else none
  | .linuxSll => some 16
  | .raw | .null => some 0
  | _ => none

/-- The octets that the lengths of the header claim, where the whole header is there, are all
in the record, and the header is among them. -/
def LengthsInside (pkt : PacketRecord) : Prop :=
  ∀ off, ipv4StartAt pkt = some off → off + 20 ≤ pkt.data.length →
    (octet pkt.data off &&& 0x0f).toNat * 4 ≤ min (beAt pkt.data (off + 2) 2) pkt.data.length ∧
      off + min (beAt pkt.data (off + 2) 2) pkt.data.length ≤ pkt.data.length

theorem ipv4Start_ok (pkt : PacketRecord) : ipv4Start pkt = .ok (ipv4StartAt pkt) := by
  unfold ipv4Start ipv4StartAt
  split
  · split
    · next short =>
      rw [if_neg fun both => absurd both.1 (by omega)]
      rfl
    · next long =>
      rw [readBE_ok (by omega), ok_bind]
      by_cases ip : beAt pkt.data 12 2 = 0x0800
      · rw [if_neg (not_not.mpr ip), if_pos ⟨by omega, ip⟩]
        rfl
      · rw [if_pos ip, if_neg fun both => ip both.2]
        rfl
  all_goals rfl

theorem slice_ok_iff {bs : Bytes} {i j : Nat} :
    (∃ part, slice bs i j = .ok part) ↔ i ≤ j ∧ j ≤ bs.length := by
  unfold slice
  constructor
  · rintro ⟨part, sliced⟩
    split at sliced
    · next inside => exact inside
    · cases sliced
  · exact fun inside => ⟨_, if_pos inside⟩

theorem returns_iff {α β : Type} {x : Except Fault α} {g : α → β} :
    (∃ b, (do return g (← x)) = Except.ok b) ↔ ∃ a, x = .ok a := by
  cases x with
  | error fault => exact ⟨nofun, nofun⟩
  | ok a => exact ⟨fun _ => ⟨a, rfl⟩, fun _ => ⟨g a, rfl⟩⟩

theorem parseIpv4_ok_iff (pkt : PacketRecord) :
    (∃ read, parseIpv4 pkt = .ok read) ↔ LengthsInside pkt := by
  unfold parseIpv4 LengthsInside
  rw [ipv4Start_ok, ok_bind]
  cases ipv4StartAt pkt with
  | none => simp
  | some off =>
    simp only [Option.some.injEq, forall_eq']
    split
    · next short => exact ⟨fun _ room => absurd room (by omega), fun _ => ⟨none, rfl⟩⟩
    · next room =>
      have enough := Nat.le_of_not_lt room
      rw [byteAt_ok (by omega), readBE_ok (by omega), readBE_ok (by omega), readBE_ok (by omega),
        byteAt_ok (by omega), readBE_ok (by omega), readBE_ok (by omega)]
      simp only [ok_bind, forall_prop_of_true enough]
      rw [returns_iff, slice_ok_iff, Nat.add_le_add_iff_left]

/-- A record is read without a slice out of range if and only if its lengths lie inside it. -/
theorem defrag_in_range_iff (pkt : PacketRecord) :
    ((∃ read, parseIpv4 pkt = .ok read) ↔ LengthsInside pkt) ∧
      ∀ table : Ipv4Defrag, (∃ out, table.ingest pkt = .ok out) ↔ LengthsInside pkt := by
  refine ⟨parseIpv4_ok_iff pkt, fun table => ?_⟩
  rw [← parseIpv4_ok_iff]
  unfold Ipv4Defrag.ingest
  cases parseIpv4 pkt with
  | error fault => exact ⟨nofun, nofun⟩
  | ok read =>
    refine ⟨fun _ => ⟨read, rfl⟩, fun _ => ?_⟩
    rw [ok_bind]
    cases read with
    | none => exact ⟨_, rfl⟩
    | some found =>
      dsimp only
      split
      · exact ⟨_, rfl⟩
      · split <;> exact ⟨_, rfl⟩

/-- A frame whose end the capture cut off: 40 octets of IPv4 are announced, 20 are there. -/
def cutFrame : PacketRecord :=
  { linkType := .ethernet
    data := List.replicate 12 0 ++ [0x08, 0x00, 0x45, 0, 0, 40] ++ List.replicate 16 0 }

/-- A header of 60 octets in a packet that announces 20. -/
def longHeader : PacketRecord :=
  { linkType := .raw, data := [0x4f, 0, 0, 20] ++ List.replicate 56 0 }

/-- One slice ends behind the record, the other before it begins. -/
theorem captured_frames_panic :
    parseIpv4 cutFrame = .error .outOfRange ∧
      Ipv4Defrag.ingest ∅ cutFrame = .error .outOfRange ∧
        parseIpv4 longHeader = .error .outOfRange ∧
          Ipv4Defrag.ingest ∅ longHeader = .error .outOfRange := by
  decide

end BitBeak
