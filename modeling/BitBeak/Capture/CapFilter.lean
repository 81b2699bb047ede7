import BitBeak.Dissect.Packet

/-! Capture filters and the predicate `capture_loop` evaluates on raw frames. The
predicate does not know the link type: it guesses the network header from the bytes. -/
namespace BitBeak
open Wire

inductive CaptureFilter where
  | true
  | host (ip : IpAddr)
  | net (addr mask : BitVec 32)
  | port (p : UInt16)
  | srcHost (ip : IpAddr)
  | dstHost (ip : IpAddr)
  | srcPort (p : UInt16)
  | dstPort (p : UInt16)
  | proto (name : String)
  | and (a b : CaptureFilter)
  | or (a b : CaptureFilter)
  | not (f : CaptureFilter)
  deriving DecidableEq, Repr

/-- Which side of a packet an atom looks at; `None` in the source is either side. -/
inductive Side where
  | source
  | destination
  | either
  deriving DecidableEq, Repr

def Side.test (side : Side) (source destination : Bool) : Bool :=
  match side with
  | .source => source
  | .destination => destination
  | .either => source || destination

/- `l3_offset`: IP version and offset of the network header. Each link guess that finds
nothing falls through to the next. -/

def nullL3 (data : Bytes) : Except Fault (Option (Nat × Nat)) := do
  if 4 ≤ data.length then
    let family ← readLE data 0 4
    return if family = 2 then some (4, 4)
      else if family = 10 ∨ family = 28 ∨ family = 30 then some (6, 4)
      else none
  else return none

def sll2L3 (data : Bytes) : Except Fault (Option (Nat × Nat)) := do
  if 20 ≤ data.length then
    let proto ← readBE data 0 2
    if proto = 0x0800 then return some (4, 20)
    else if proto = 0x86dd then return some (6, 20)
    else nullL3 data
  else nullL3 data

def sllL3 (data : Bytes) : Except Fault (Option (Nat × Nat)) := do
  if 16 ≤ data.length then
    let proto ← readBE data 14 2
    if proto = 0x0800 then return some (4, 16)
    else if proto = 0x86dd then return some (6, 16)
    else sll2L3 data
  else sll2L3 data

/-- Ethertype and header length of a frame of at least 14 bytes, past one 802.1Q tag. -/
def etherHead (data : Bytes) : Except Fault (Nat × Nat) := do
  let et ← readBE data 12 2
  if et = 0x8100 ∧ 18 ≤ data.length then return (← readBE data 16 2, 18)
  else return (et, 14)

def l3Offset (data : Bytes) : Except Fault (Option (Nat × Nat)) := do
  if 14 ≤ data.length then
    let (et, off) ← etherHead data
    if et = 0x0800 then return some (4, off)
    else if et = 0x86dd then return some (6, off)
    else if et = 0x0806 then return none
    else sllL3 data
  else sllL3 data

def linkEthertype (data : Bytes) : Except Fault (Option Nat) := do
  if 14 ≤ data.length then return some (← etherHead data).1
  else if 16 ≤ data.length then return some (← readBE data 14 2)
  else return none

def hasIpVersion (data : Bytes) (ver : Nat) : Except Fault Bool := do
  match ← l3Offset data with
  | some (v, _) => return v == ver
  | none => return false

def hasIpProto (data : Bytes) (proto : UInt8) : Except Fault Bool := do
  match ← l3Offset data with
  | none => return false
  | some (4, off) =>
    if off + 9 < data.length then return (← byteAt data (off + 9)) == proto else return false
  | some (6, off) =>
    if off + 6 < data.length then return (← byteAt data (off + 6)) == proto else return false
  | some _ => return false

def ipv4At (data : Bytes) (off : Nat) : Except Fault Ipv4Addr := do
  return BitVec.ofNat 32 (← readBE data off 4)

def ipv6AddrEq (data : Bytes) (off : Nat) (ip : Ipv6Addr) : Except Fault Bool := do
  if data.length < off + 16 then return false
  else return BitVec.ofNat 128 (← readBE data off 16) == ip

def hasHost (data : Bytes) (ip : IpAddr) (side : Side) : Except Fault Bool := do
  match ← l3Offset data, ip with
  | some (4, off), .v4 v4 =>
    if data.length < off + 20 then return false
    else return side.test ((← ipv4At data (off + 12)) == v4) ((← ipv4At data (off + 16)) == v4)
  | some (6, off), .v6 v6 =>
    if data.length < off + 40 then return false
    else return side.test (← ipv6AddrEq data (off + 8) v6) (← ipv6AddrEq data (off + 24) v6)
  | _, _ => return false

def hasNet (data : Bytes) (addr mask : BitVec 32) : Except Fault Bool := do
  match ← l3Offset data with
  | none => return false
  | some (ver, off) =>
    if ver ≠ 4 ∨ data.length < off + 20 then return false
    else
      let src ← ipv4At data (off + 12)
      let dst ← ipv4At data (off + 16)
      return src &&& mask == addr || dst &&& mask == addr

/-- IP version, offset of the transport header and the protocol number. -/
def l4Offset (data : Bytes) : Except Fault (Option (Nat × Nat × UInt8)) := do
  match ← l3Offset data with
  | some (4, off) =>
    if data.length < off + 20 then return none
    else
      let ihl := ((← byteAt data off) &&& 0x0f).toNat * 4
      return some (4, off + ihl, ← byteAt data (off + 9))
  | some (6, off) =>
    if data.length < off + 40 then return none
    else return some (6, off + 40, ← byteAt data (off + 6))
  | _ => return none

def hasPort (data : Bytes) (port : UInt16) (side : Side) : Except Fault Bool := do
  match ← l4Offset data with
  | none => return false
  | some (_, l4, proto) =>
    if proto ≠ 6 ∧ proto ≠ 17 then return false
    else if data.length < l4 + 4 then return false
    else
      let sp ← readBE data l4 2
      let dp ← readBE data (l4 + 2) 2
      return side.test (sp == port.toNat) (dp == port.toNat)

namespace CaptureFilter

/-- The right operand of `and` and of `or` is evaluated only where the left one has not
decided. -/
def matchesRaw (data : Bytes) : CaptureFilter → Except Fault Bool
  | .true => return Bool.true
  | .not f => return !(← f.matchesRaw data)
  | .and a b => do if ← a.matchesRaw data then b.matchesRaw data else return false
  | .or a b => do if ← a.matchesRaw data then return Bool.true else b.matchesRaw data
  | .proto p => match p with
    | "tcp" => hasIpProto data 6
    | "udp" => hasIpProto data 17
    | "icmp" => hasIpProto data 1
    | "arp" => return (← linkEthertype data) == some 0x0806
    | "ip" => hasIpVersion data 4
    | "ip6" => hasIpVersion data 6
    | _ => return Bool.true
  | .port p => hasPort data p .either
  | .srcPort p => hasPort data p .source
  | .dstPort p => hasPort data p .destination
  | .host ip => hasHost data ip .either
  | .srcHost ip => hasHost data ip .source
  | .dstHost ip => hasHost data ip .destination
  | .net addr mask => hasNet data addr mask

def isKernelSimple : CaptureFilter → Bool
  | .true => Bool.true
  | .host (.v4 _) | .srcHost (.v4 _) | .dstHost (.v4 _) => Bool.true
  | .port _ | .srcPort _ | .dstPort _ => Bool.true
  | .proto p => p == "tcp" || p == "udp" || p == "icmp" || p == "ip"
  | .and a b => a.isKernelSimple && b.isKernelSimple
  | .or a b => a.isKernelSimple && b.isKernelSimple
  | .not f => f.isKernelSimple
  | _ => false

end CaptureFilter

/- The same predicate on total reads: no frame makes the filter read outside itself. -/

def nullL3At (data : Bytes) : Option (Nat × Nat) :=
  if 4 ≤ data.length then
    if leAt data 0 4 = 2 then some (4, 4)
    else if leAt data 0 4 = 10 ∨ leAt data 0 4 = 28 ∨ leAt data 0 4 = 30 then some (6, 4)
    else none
  else none

def sll2L3At (data : Bytes) : Option (Nat × Nat) :=
  if 20 ≤ data.length then
    if beAt data 0 2 = 0x0800 then some (4, 20)
    else if beAt data 0 2 = 0x86dd then some (6, 20)
    else nullL3At data
  else nullL3At data

def sllL3At (data : Bytes) : Option (Nat × Nat) :=
  if 16 ≤ data.length then
    if beAt data 14 2 = 0x0800 then some (4, 16)
    else if beAt data 14 2 = 0x86dd then some (6, 16)
    else sll2L3At data
  else sll2L3At data

def etherHeadAt (data : Bytes) : Nat × Nat :=
  if beAt data 12 2 = 0x8100 ∧ 18 ≤ data.length then (beAt data 16 2, 18)
  else (beAt data 12 2, 14)

def l3At (data : Bytes) : Option (Nat × Nat) :=
  if 14 ≤ data.length then
    if (etherHeadAt data).1 = 0x0800 then some (4, (etherHeadAt data).2)
    else if (etherHeadAt data).1 = 0x86dd then some (6, (etherHeadAt data).2)
    else if (etherHeadAt data).1 = 0x0806 then none
    else sllL3At data
  else sllL3At data

def l4At (data : Bytes) : Option (Nat × Nat × UInt8) :=
  match l3At data with
  | some (4, off) =>
    if data.length < off + 20 then none
    else some (4, off + (octet data off &&& 0x0f).toNat * 4, octet data (off + 9))
  | some (6, off) =>
    if data.length < off + 40 then none else some (6, off + 40, octet data (off + 6))
  | _ => none

def hasIpProtoAt (data : Bytes) (proto : UInt8) : Bool :=
  match l3At data with
  | some (4, off) => off + 9 < data.length && octet data (off + 9) == proto
  | some (6, off) => off + 6 < data.length && octet data (off + 6) == proto
  | _ => false

def ipv6AddrEqAt (data : Bytes) (off : Nat) (ip : Ipv6Addr) : Bool :=
  off + 16 ≤ data.length && BitVec.ofNat 128 (beAt data off 16) == ip

def hasHostAt (data : Bytes) (ip : IpAddr) (side : Side) : Bool :=
  match l3At data, ip with
  | some (4, off), .v4 v4 =>
    off + 20 ≤ data.length && side.test (BitVec.ofNat 32 (beAt data (off + 12) 4) == v4)
      (BitVec.ofNat 32 (beAt data (off + 16) 4) == v4)
  | some (6, off), .v6 v6 =>
    off + 40 ≤ data.length &&
      side.test (ipv6AddrEqAt data (off + 8) v6) (ipv6AddrEqAt data (off + 24) v6)
  | _, _ => false

def hasNetAt (data : Bytes) (addr mask : BitVec 32) : Bool :=
  match l3At data with
  | some (4, off) =>
    off + 20 ≤ data.length &&
      (BitVec.ofNat 32 (beAt data (off + 12) 4) &&& mask == addr ||
        BitVec.ofNat 32 (beAt data (off + 16) 4) &&& mask == addr)
  | _ => false

def hasPortAt (data : Bytes) (port : UInt16) (side : Side) : Bool :=
  match l4At data with
  | some (_, l4, proto) =>
    (proto == 6 || proto == 17) && l4 + 4 ≤ data.length &&
      side.test (beAt data l4 2 == port.toNat) (beAt data (l4 + 2) 2 == port.toNat)
  | none => false

theorem nullL3_ok (data : Bytes) : nullL3 data = .ok (nullL3At data) := by
  unfold nullL3 nullL3At
  split
  · rw [readLE_ok (by omega)]
    rfl
  · rfl

theorem sll2L3_ok (data : Bytes) : sll2L3 data = .ok (sll2L3At data) := by
  unfold sll2L3 sll2L3At
  split
  · rw [readBE_ok (by omega), nullL3_ok, ok_bind]
    split_ifs <;> rfl
  · exact nullL3_ok data

theorem sllL3_ok (data : Bytes) : sllL3 data = .ok (sllL3At data) := by
  unfold sllL3 sllL3At
  split
  · rw [readBE_ok (by omega), sll2L3_ok, ok_bind]
    split_ifs <;> rfl
  · exact sll2L3_ok data

theorem etherHead_ok {data : Bytes} (long : 14 ≤ data.length) :
    etherHead data = .ok (etherHeadAt data) := by
  unfold etherHead etherHeadAt
  rw [readBE_ok (by omega), ok_bind]
  split
  · rw [readBE_ok (by omega)]
    rfl
  · rfl

theorem l3Offset_ok (data : Bytes) : l3Offset data = .ok (l3At data) := by
  unfold l3Offset l3At
  split
  · next long =>
    obtain ⟨⟨et, off⟩, head⟩ : ∃ found, etherHeadAt data = found := ⟨_, rfl⟩
    rw [etherHead_ok long, head, sllL3_ok, ok_bind]
    dsimp only
    split_ifs <;> rfl
  · exact sllL3_ok data

/-- A link guess answers with version 4, with version 6, or not at all. -/
def Guess (found : Option (Nat × Nat)) : Prop :=
  found = none ∨ (∃ off, found = some (4, off)) ∨ ∃ off, found = some (6, off)

namespace Guess

theorem nothing : Guess none := .inl rfl
theorem version4 (off : Nat) : Guess (some (4, off)) := .inr (.inl ⟨off, rfl⟩)
theorem version6 (off : Nat) : Guess (some (6, off)) := .inr (.inr ⟨off, rfl⟩)

theorem ite {c : Prop} [Decidable c] {a b : Option (Nat × Nat)} (yes : Guess a)
    (no : Guess b) : Guess (if c then a else b) := by
  split
  · exact yes
  · exact no

end Guess

theorem l3_cases (data : Bytes) : Guess (l3At data) := by
  have null : Guess (nullL3At data) :=
    .ite (.ite (.version4 _) (.ite (.version6 _) .nothing)) .nothing
  have sll2 : Guess (sll2L3At data) := .ite (.ite (.version4 _) (.ite (.version6 _) null)) null
  have sll : Guess (sllL3At data) := .ite (.ite (.version4 _) (.ite (.version6 _) sll2)) sll2
  exact .ite (.ite (.version4 _) (.ite (.version6 _) (.ite .nothing sll))) sll

theorem l4Offset_ok (data : Bytes) : l4Offset data = .ok (l4At data) := by
  unfold l4Offset l4At
  rw [l3Offset_ok, ok_bind]
  obtain found | ⟨off, found⟩ | ⟨off, found⟩ := l3_cases data <;> simp only [found]
  · rfl
  · split
    · rfl
    · rw [byteAt_ok (by omega), byteAt_ok (by omega)]
      rfl
  · split
    · rfl
    · rw [byteAt_ok (by omega)]
      rfl

theorem hasIpVersion_ok (data : Bytes) (ver : Nat) :
    hasIpVersion data ver = .ok ((l3At data).any (fun found => found.1 == ver)) := by
  unfold hasIpVersion
  rw [l3Offset_ok, ok_bind]
  obtain found | ⟨off, found⟩ | ⟨off, found⟩ := l3_cases data <;> rw [found] <;> rfl

theorem hasIpProto_ok (data : Bytes) (proto : UInt8) :
    hasIpProto data proto = .ok (hasIpProtoAt data proto) := by
  unfold hasIpProto hasIpProtoAt
  rw [l3Offset_ok, ok_bind]
  obtain found | ⟨off, found⟩ | ⟨off, found⟩ := l3_cases data <;> simp only [found]
  · rfl
  · split
    · next long => simp [byteAt_ok long, long]
    · next short => simp [short]
  · split
    · next long => simp [byteAt_ok long, long]
    · next short => simp [short]

theorem ipv6AddrEq_ok (data : Bytes) (off : Nat) (ip : Ipv6Addr) :
    ipv6AddrEq data off ip = .ok (ipv6AddrEqAt data off ip) := by
  unfold ipv6AddrEq ipv6AddrEqAt
  split
  · next short => simp [Nat.not_le.mpr short]
  · next long => simp [readBE_ok (Nat.le_of_not_lt long), Nat.le_of_not_lt long]

theorem ipv4At_ok {data : Bytes} {off : Nat} (inside : off + 4 ≤ data.length) :
    ipv4At data off = .ok (BitVec.ofNat 32 (beAt data off 4)) := by
  rw [ipv4At, readBE_ok inside]
  rfl

theorem hasHost_ok (data : Bytes) (ip : IpAddr) (side : Side) :
    hasHost data ip side = .ok (hasHostAt data ip side) := by
  unfold hasHost hasHostAt
  rw [l3Offset_ok, ok_bind]
  obtain found | ⟨off, found⟩ | ⟨off, found⟩ := l3_cases data <;> cases ip <;>
    simp only [found]
  · rfl
  · rfl
  · split
    · next short => simp [Nat.not_le.mpr short]
    · next long =>
      rw [ipv4At_ok (by omega), ipv4At_ok (by omega)]
      simp [Nat.le_of_not_lt long]
  · rfl
  · rfl
  · split
    · next short => simp [Nat.not_le.mpr short]
    · next long =>
      rw [ipv6AddrEq_ok, ipv6AddrEq_ok]
      simp [Nat.le_of_not_lt long]

theorem hasNet_ok (data : Bytes) (addr mask : BitVec 32) :
    hasNet data addr mask = .ok (hasNetAt data addr mask) := by
  unfold hasNet hasNetAt
  rw [l3Offset_ok, ok_bind]
  obtain found | ⟨off, found⟩ | ⟨off, found⟩ := l3_cases data <;> simp only [found]
  · rfl
  · split
    · next short =>
      have short : ¬ off + 20 ≤ data.length := by omega
      simp [short]
    · next long =>
      have long : off + 20 ≤ data.length := by omega
      rw [ipv4At_ok (by omega), ipv4At_ok (by omega)]
      simp [long]
  · simp

theorem hasPort_ok (data : Bytes) (port : UInt16) (side : Side) :
    hasPort data port side = .ok (hasPortAt data port side) := by
  unfold hasPort hasPortAt
  rw [l4Offset_ok, ok_bind]
  obtain _ | ⟨ver, l4, proto⟩ := l4At data <;> dsimp only
  · rfl
  · split
    · next other =>
      have other : (proto == 6 || proto == 17) = false := by simpa using other
      rw [other]
      rfl
    · next known =>
      have known : (proto == 6 || proto == 17) = true := by
        rw [Bool.or_eq_true, beq_iff_eq, beq_iff_eq]
        tauto
      split
      · next short => simp [Nat.not_le.mpr short]
      · next long =>
        rw [readBE_ok (by omega), readBE_ok (by omega), known]
        simp [Nat.le_of_not_lt long]

theorem linkEthertype_ok (data : Bytes) :
    linkEthertype data = .ok (if 14 ≤ data.length then some (etherHeadAt data).1 else none) := by
  unfold linkEthertype
  split
  · next long =>
    rw [etherHead_ok long]
    rfl
  · rw [if_neg (by omega)]
    rfl

namespace CaptureFilter

/-- What `matches_raw` answers. -/
def matchesAt (data : Bytes) : CaptureFilter → Bool
  | .true => Bool.true
  | .not f => !f.matchesAt data
  | .and a b => a.matchesAt data && b.matchesAt data
  | .or a b => a.matchesAt data || b.matchesAt data
  | .proto p => match p with
    | "tcp" => hasIpProtoAt data 6
    | "udp" => hasIpProtoAt data 17
    | "icmp" => hasIpProtoAt data 1
    | "arp" => 14 ≤ data.length && (etherHeadAt data).1 == 0x0806
    | "ip" => (l3At data).any (fun found => found.1 == 4)
    | "ip6" => (l3At data).any (fun found => found.1 == 6)
    | _ => Bool.true
  | .port p => hasPortAt data p .either
  | .srcPort p => hasPortAt data p .source
  | .dstPort p => hasPortAt data p .destination
  | .host ip => hasHostAt data ip .either
  | .srcHost ip => hasHostAt data ip .source
  | .dstHost ip => hasHostAt data ip .destination
  | .net addr mask => hasNetAt data addr mask

/-- The predicate answers on every frame, whatever its bytes. -/
theorem matchesRaw_ok (f : CaptureFilter) (data : Bytes) :
    f.matchesRaw data = .ok (f.matchesAt data) := by
  induction f with
  | true => rfl
  | host ip => exact hasHost_ok data ip .either
  | net addr mask => exact hasNet_ok data addr mask
  | port p => exact hasPort_ok data p .either
  | srcHost ip => exact hasHost_ok data ip .source
  | dstHost ip => exact hasHost_ok data ip .destination
  | srcPort p => exact hasPort_ok data p .source
  | dstPort p => exact hasPort_ok data p .destination
  | proto name =>
    unfold matchesRaw matchesAt
    split
    · exact hasIpProto_ok data 6
    · exact hasIpProto_ok data 17
    · exact hasIpProto_ok data 1
    · rw [linkEthertype_ok]
      by_cases long : 14 ≤ data.length <;> simp [long]
    · exact hasIpVersion_ok data 4
    · exact hasIpVersion_ok data 6
    · rfl
  | and a b iha ihb =>
    simp only [matchesRaw, matchesAt, iha, ihb, ok_bind]
    cases a.matchesAt data <;> rfl
  | or a b iha ihb =>
    simp only [matchesRaw, matchesAt, iha, ihb, ok_bind]
    cases a.matchesAt data <;> rfl
  | not f ih =>
    simp only [matchesRaw, matchesAt, ih, ok_bind]
    rfl

end CaptureFilter

end BitBeak
