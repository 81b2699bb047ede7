import BitBeak.Dissect.Network
import BitBeak.Framing

/-! The wire walk of stream following. It looks for the TCP segment of a frame on its own,
apart from the dissector; what it finds is compared here with what the dissector delimits. -/
namespace BitBeak
open Wire

/-- Offset of the IP header behind an Ethernet type, and whether it is one of IPv6. -/
def ethertypeOffset (et off : Nat) : Option (Nat × Bool) :=
  if et = 0x0800 then some (off, false)
  else if et = 0x86dd then some (off, true)
  else none

/-- The first four octets in the byte order of the machine. -/
def nativeU32 (native : Endian) (data : Bytes) : Except Fault Nat :=
  match native with
  | .little => readLE data 0 4
  | .big => readBE data 0 4

def ipPayloadOffset (native : Endian) (data : Bytes) (link : LinkType) :
    Except Fault (Option (Nat × Bool)) := do
  match link with
  | .ethernet | .unknown _ =>
    if data.length < 14 then return none
    else
      let et ← readBE data 12 2
      if et = 0x8100 ∧ 18 ≤ data.length then return ethertypeOffset (← readBE data 16 2) 18
      else return ethertypeOffset et 14
  | .linuxSll =>
    if data.length < 16 then return none
    else return ethertypeOffset (← readBE data 14 2) 16
  | .linuxSll2 =>
    if data.length < 20 then return none
    else return ethertypeOffset (← readBE data 0 2) 20
  | .raw =>
    if data = [] then return none
    else
      let version := (← byteAt data 0) >>> 4
      return if version = 4 then some (0, false)
        else if version = 6 then some (0, true)
        else none
  | .null =>
    if data.length < 4 then return none
    else
      let af ← nativeU32 native data
      if 4 < data.length then
        let version := (← byteAt data 4) >>> 4
        return if version = 4 then some (4, false)
          else if version = 6 then some (4, true)
          else if af = 2 then some (4, false)
          else none
      else return none
  | .ieee80211 | .ieee80211Radio => return none

/-- Headers the walk takes for extension headers. The dissector's list has no 51. -/
def skippedHeader (next : UInt8) : Bool :=
  next == 0 || next == 43 || next == 44 || next == 51 || next == 60

def skipExtensions (data : Bytes) : Nat → UInt8 → Nat → Except Fault (Option (UInt8 × Nat))
  | 0, _, _ => .error .outOfFuel
  | fuel + 1, next, hdrOff =>
    if skippedHeader next then
      if data.length < hdrOff + 2 then return none
      else do
        let next ← byteAt data hdrOff
        let hdrLen := ((← byteAt data (hdrOff + 1)).toNat + 1) * 8
        skipExtensions data fuel next (hdrOff + hdrLen)
    else return some (next, hdrOff)

/-- Sequence number and payload behind a TCP header. -/
def tcpSegmentAt (data : Bytes) (tcpOff : Nat) : Except Fault (Option (Nat × Bytes)) := do
  if data.length < tcpOff + 20 then return none
  else
    let seq ← readBE data (tcpOff + 4) 4
    let doff := ((← byteAt data (tcpOff + 12)) >>> 4).toNat * 4
    let payloadOff := tcpOff + doff
    if data.length < payloadOff then return none
    else return some (seq, ← sliceFrom data payloadOff)

def tcpPayloadFromWire (native : Endian) (data : Bytes) (link : LinkType) :
    Except Fault (Option (Nat × Bytes)) := do
  match ← ipPayloadOffset native data link with
  | none => return none
  | some (ipOff, true) =>
    if data.length < ipOff + 40 then return none
    else
      match ← skipExtensions data (data.length + 1) (← byteAt data (ipOff + 6)) (ipOff + 40) with
      | none => return none
      | some (next, hdrOff) => if next ≠ 6 then return none else tcpSegmentAt data hdrOff
  | some (ipOff, false) =>
    if data.length < ipOff + 20 then return none
    else
      let ihl := ((← byteAt data ipOff) &&& 0x0f).toNat * 4
      tcpSegmentAt data (ipOff + ihl)

/- The same walk on total reads. -/

def nativeAt (native : Endian) (data : Bytes) : Nat :=
  match native with
  | .little => leAt data 0 4
  | .big => beAt data 0 4

/-- The walk goes by the version in front of the packet, and by the family only where that
is none. -/
def sniffedOffset (off : Nat) (data : Bytes) (fallback : Option (Nat × Bool)) :
    Option (Nat × Bool) :=
  if octet data off >>> 4 = 4 then some (off, false)
  else if octet data off >>> 4 = 6 then some (off, true)
  else fallback

def ipOffsetAt (native : Endian) (data : Bytes) (link : LinkType) : Option (Nat × Bool) :=
  match link with
  | .ethernet | .unknown _ =>
    if data.length < 14 then none
    else ethertypeOffset (ethernetHead data).1 (ethernetHead data).2
  | .linuxSll => if data.length < 16 then none else ethertypeOffset (beAt data 14 2) 16
  | .linuxSll2 => if data.length < 20 then none else ethertypeOffset (beAt data 0 2) 20
  | .raw => if data = [] then none else sniffedOffset 0 data none
  | .null =>
    if data.length ≤ 4 then none
    else sniffedOffset 4 data (if nativeAt native data = 2 then some (4, false) else none)
  | .ieee80211 | .ieee80211Radio => none

def skipExtensionsAt (data : Bytes) : Nat → UInt8 → Nat → Option (UInt8 × Nat)
  | 0, _, _ => none
  | fuel + 1, next, hdrOff =>
    if skippedHeader next then
      if data.length < hdrOff + 2 then none
      else skipExtensionsAt data fuel (octet data hdrOff)
        (hdrOff + ((octet data (hdrOff + 1)).toNat + 1) * 8)
    else some (next, hdrOff)

/-- Where the walk finds the TCP header of a packet. -/
def tcpHeaderAt (data : Bytes) (ipOff : Nat) (v6 : Bool) : Option Nat :=
  if v6 then
    if data.length < ipOff + 40 then none
    else
      match skipExtensionsAt data (data.length + 1) (octet data (ipOff + 6)) (ipOff + 40) with
      | none => none
      | some (next, hdrOff) => if next ≠ 6 then none else some hdrOff
  else if data.length < ipOff + 20 then none
  else some (ipOff + (octet data ipOff &&& 0x0f).toNat * 4)

/-- Where the payload behind a TCP header starts. -/
def payloadStart (data : Bytes) (tcpOff : Nat) : Nat :=
  tcpOff + (octet data (tcpOff + 12) >>> 4).toNat * 4

def segmentAt (data : Bytes) (tcpOff : Nat) : Option (Nat × Bytes) :=
  if data.length < tcpOff + 20 then none
  else if data.length < payloadStart data tcpOff then none
  else some (beAt data (tcpOff + 4) 4, data.drop (payloadStart data tcpOff))

def headerOnWire (native : Endian) (data : Bytes) (link : LinkType) : Option Nat :=
  (ipOffsetAt native data link).bind fun found => tcpHeaderAt data found.1 found.2

def segmentOnWire (native : Endian) (data : Bytes) (link : LinkType) : Option (Nat × Bytes) :=
  (headerOnWire native data link).bind (segmentAt data)

theorem nativeU32_ok (native : Endian) {data : Bytes} (long : 4 ≤ data.length) :
    nativeU32 native data = .ok (nativeAt native data) := by
  cases native
  · exact readBE_ok (by omega)
  · exact readLE_ok (by omega)

theorem ipPayloadOffset_ok (native : Endian) (data : Bytes) (link : LinkType) :
    ipPayloadOffset native data link = .ok (ipOffsetAt native data link) := by
  have ethernet : ipPayloadOffset native data .ethernet =
      .ok (ipOffsetAt native data .ethernet) := by
    unfold ipPayloadOffset ipOffsetAt ethernetHead
    dsimp only
    split
    · rfl
    · rw [readBE_ok (by omega), ok_bind]
      split
      · rw [readBE_ok (by omega)]
        rfl
      · rfl
  cases link with
  | ethernet => exact ethernet
  | unknown v => exact ethernet
  | linuxSll =>
    unfold ipPayloadOffset ipOffsetAt
    dsimp only
    split
    · rfl
    · rw [readBE_ok (by omega)]
      rfl
  | linuxSll2 =>
    unfold ipPayloadOffset ipOffsetAt
    dsimp only
    split
    · rfl
    · rw [readBE_ok (by omega)]
      rfl
  | raw =>
    unfold ipPayloadOffset ipOffsetAt sniffedOffset
    dsimp only
    split
    · rfl
    · next some =>
      rw [byteAt_ok (List.length_pos_iff.mpr some)]
      rfl
  | null =>
    unfold ipPayloadOffset ipOffsetAt sniffedOffset
    dsimp only
    by_cases short : data.length < 4
    · rw [if_pos short, if_pos (Nat.le_of_lt short)]
      rfl
    · rw [if_neg short, nativeU32_ok native (by omega), ok_bind]
      by_cases long : 4 < data.length
      · rw [if_pos long, if_neg (Nat.not_le.mpr long), byteAt_ok long]
        rfl
      · rw [if_neg long, if_pos (Nat.le_of_not_lt long)]
        rfl
  | ieee80211 => rfl
  | ieee80211Radio => rfl

/-- Every skipped header takes eight octets or more, so the steps suffice. -/
theorem skipExtensions_ok (data : Bytes) (fuel : Nat) (next : UInt8) (hdrOff : Nat)
    (enough : data.length < hdrOff + fuel) (positive : 0 < fuel) :
    skipExtensions data fuel next hdrOff = .ok (skipExtensionsAt data fuel next hdrOff) := by
  induction fuel generalizing next hdrOff with
  | zero => cases positive
  | succ fuel ih =>
    unfold skipExtensions skipExtensionsAt
    split
    · split
      · rfl
      · rw [byteAt_ok (by omega), ok_bind, byteAt_ok (by omega), ok_bind]
        exact ih _ _ (by omega) (by omega)
    · rfl

theorem tcpSegmentAt_ok (data : Bytes) (tcpOff : Nat) :
    tcpSegmentAt data tcpOff = .ok (segmentAt data tcpOff) := by
  unfold tcpSegmentAt segmentAt payloadStart
  split
  · rfl
  · rw [readBE_ok (by omega), byteAt_ok (by omega), ok_bind, ok_bind]
    dsimp only
    split
    · rfl
    · rw [sliceFrom_ok (by omega)]
      rfl

/-- The walk answers on every frame, whatever its bytes. -/
theorem tcpPayloadFromWire_ok (native : Endian) (data : Bytes) (link : LinkType) :
    tcpPayloadFromWire native data link = .ok (segmentOnWire native data link) := by
  unfold tcpPayloadFromWire segmentOnWire headerOnWire
  rw [ipPayloadOffset_ok, ok_bind]
  obtain _ | ⟨ipOff, _ | _⟩ := ipOffsetAt native data link
  · rfl
  · simp only [Option.bind_some, tcpHeaderAt]
    split
    · rfl
    · rw [byteAt_ok (by omega), ok_bind, tcpSegmentAt_ok]
      rfl
  · simp only [Option.bind_some, tcpHeaderAt, if_true]
    split
    · rfl
    · rw [byteAt_ok (by omega), ok_bind, skipExtensions_ok _ _ _ _ (by omega) (by omega), ok_bind]
      obtain _ | ⟨next, hdrOff⟩ := skipExtensionsAt data (data.length + 1)
        (octet data (ipOff + 6)) (ipOff + 40)
      · rfl
      · dsimp only
        split
        · rfl
        · exact tcpSegmentAt_ok data hdrOff

end BitBeak
