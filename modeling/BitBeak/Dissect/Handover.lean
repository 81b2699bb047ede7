import BitBeak.Lib.Noted
import BitBeak.Dissect.Account
import BitBeak.Dissect.QuicShort

/-! The dissector of a frame with a note of each hand-over: of a segment or datagram to the
transport layer, of its payload to an application, of a frame to 802.11. -/
namespace BitBeak
open Wire Dissector

inductive Layer where
  | tcp
  | udp
  | overTcp
  | overUdp
  | dot11
  deriving DecidableEq, Repr

/-- The octets that a layer is handed, where they lie in the frame, and the ranges of the nodes
that its dissector adds for them. -/
structure Handover where
  layer : Layer
  offset : Nat
  data : Bytes
  added : List (Nat × Nat)
  deriving DecidableEq, Repr

def handover (layer : Layer) (offset : Nat) (data : Bytes) (before after : Dissection) : Handover :=
  { layer := layer, offset := offset, data := data,
    added := (after.tree.nodes.drop before.tree.nodes.length).map fun node =>
      (node.offset, node.len) }

abbrev Handing (α : Type) := Noting Dissection Handover α

/-- A layer's dissector, called. -/
def handing {α : Type} (layer : Layer) (offset : Nat) (data : Bytes) (m : Dissector α) : Handing α :=
  noted (handover layer offset data) m

/-- The header of a segment: its ports, and its payload with where that starts. -/
def tcpHead (parent : Nat) (data : Bytes) (offset : Nat) :
    Dissector (Nat × Nat × LayerResult) := do
  setFlags fun f => { f with tcp := true }
  let sport ← readBE data 0 2
  let dport ← readBE data 2 2
  let seq ← readBE data 4 4
  let ack ← readBE data 8 4
  let dataOff := ((← byteAt data 12) >>> 4).toNat * 4
  let fl ← byteAt data 13
  let window ← readBE data 14 2
  let sec ← addSection parent "Transmission Control Protocol" offset (min dataOff data.length)
  addFields sec [("Source Port", offset, 2), ("Destination Port", offset + 2, 2),
    ("Sequence Number", offset + 4, 4), ("Acknowledgment Number", offset + 8, 4),
    ("Flags", offset + 13, 1), ("Window", offset + 14, 2)]
  let hdr := min dataOff data.length
  onlyIf (20 < dataOff ∧ dataOff ≤ data.length) do
    let len ← checkedSub dataOff 20
    addFields sec [("Options", offset + 20, len)]
  let payload ← tailOrEmpty data hdr
  let payloadOff := offset + hdr
  noteTransport { proto := .tcp, sport := sport, dport := dport, seq := seq,
                  payloadOffset := payloadOff, payload := payload }
  setSummary fun m => { m with src := withPort m.src sport, dst := withPort m.dst dport }
  setProtocol "TCP"
  setInfo (s!"{sport} → {dport} [" ++ formatTcpFlags fl ++
    s!"] Seq={seq} Ack={ack} Win={window} Len={payload.length}")
  return (sport, dport, { payload := payload, payloadOffset := payloadOff })

def dissectTcpNoted (crates : Crates) (parent : Nat) (data : Bytes) (offset : Nat) :
    Handing LayerResult :=
  if data.length < 20 then
    handing .tcp offset data (pure { payload := data, payloadOffset := offset })
  else do
    let (sport, dport, r) ← handing .tcp offset data (tcpHead parent data offset)
    if r.payload = [] then return r
    else
      handing .overTcp r.payloadOffset r.payload
        (tcpApplication crates parent sport dport r.payload r.payloadOffset)

/-- The header of a datagram. -/
def udpHead (parent : Nat) (data : Bytes) (offset : Nat) :
    Dissector (Nat × Nat × LayerResult) := do
  setFlags fun f => { f with udp := true }
  let sport ← readBE data 0 2
  let dport ← readBE data 2 2
  let _len ← readBE data 4 2
  let sec ← addSection parent "User Datagram Protocol" offset 8
  addFields sec [("Source Port", offset, 2), ("Destination Port", offset + 2, 2),
    ("Length", offset + 4, 2)]
  setSummary fun m => { m with src := withPort m.src sport, dst := withPort m.dst dport }
  let payload ← sliceFrom data 8
  let payloadOff := offset + 8
  noteTransport { proto := .udp, sport := sport, dport := dport, payloadOffset := payloadOff,
                  payload := payload }
  setProtocol "UDP"
  setInfo s!"{sport} → {dport} Len={payload.length}"
  return (sport, dport, { payload := payload, payloadOffset := payloadOff })

section

variable (crates : Crates) (keylog : Option KeyLog)

def dissectUdpNoted (parent : Nat) (data : Bytes) (offset : Nat) : Handing LayerResult :=
  if data.length < 8 then
    handing .udp offset data (pure { payload := data, payloadOffset := offset })
  else do
    let (sport, dport, r) ← handing .udp offset data (udpHead parent data offset)
    handing .overUdp r.payloadOffset r.payload
      (udpApplicationWith crates keylog parent sport dport r.payload r.payloadOffset)

def dissectIpv4Noted (parent : Nat) (data : Bytes) (offset : Nat) : Handing LayerResult := do
  if data.length < 20 then return { payload := data, payloadOffset := offset }
  else
    setFlags fun f => { f with ipv4 := true }
    let ihl := ((← byteAt data 0) &&& 0x0f).toNat * 4
    if ihl < 20 ∨ data.length < ihl then return { payload := data, payloadOffset := offset }
    else
      let total ← readBE data 2 2
      let _ttl ← byteAt data 8
      let proto ← byteAt data 9
      let src := dotted (← slice data 12 16)
      let dst := dotted (← slice data 16 20)
      let sec ← addSection parent "Internet Protocol Version 4" offset ihl
      addFields sec [("Version", offset, 1), ("Header Length", offset, 1),
        ("Total Length", offset + 2, 2), ("TTL", offset + 8, 1), ("Protocol", offset + 9, 1),
        ("Source", offset + 12, 4), ("Destination", offset + 16, 4)]
      setAddresses src dst
      setProtocol (protoName proto)
      let payload ← slice data ihl (max (min total data.length) ihl)
      let payloadOff := offset + ihl
      if proto = 1 then dissectIcmp parent payload payloadOff
      else if proto = 6 then dissectTcpNoted crates parent payload payloadOff
      else if proto = 17 then dissectUdpNoted crates keylog parent payload payloadOff
      else
        setInfo (src ++ " → " ++ dst ++ " proto=" ++ protoName proto)
        return { payload := payload, payloadOffset := payloadOff }

def isolatedNoted {α : Type} (m : Handing α) : Handing α := do
  let outer ← (get : Dissector Dissection)
  (set { outer with flags := {}, summary := {}, transport := none } : Dissector PUnit)
  let result ← m
  (modify fun s => { s with flags := outer.flags, summary := outer.summary,
                            transport := outer.transport } : Dissector PUnit)
  return result

/-- An error of type 1 quotes a packet. -/
def Quotes (typ : UInt8) (data : Bytes) : Prop := typ = 1 ∧ 8 < data.length

instance (typ : UInt8) (data : Bytes) : Decidable (Quotes typ data) :=
  inferInstanceAs (Decidable (typ = 1 ∧ 8 < data.length))

/-- Only the quoted packet is handed on. -/
def icmpv6BodyNoted (inner : Nat → Bytes → Nat → Handing LayerResult) (sec : Nat) (data : Bytes)
    (offset : Nat) (typ code : UInt8) : Handing PUnit := do
  if Quotes typ data then
    setInfo s!"Destination Unreachable code={code}"
    let quoted ← sliceFrom data 8
    let _ ← isolatedNoted (inner sec quoted (offset + 8))
  else icmpv6Body (dissectIpv6 crates 0) sec data offset typ code

def dissectIcmpv6Noted (inner : Nat → Bytes → Nat → Handing LayerResult) (parent : Nat)
    (data : Bytes) (offset : Nat) : Handing LayerResult := do
  setFlags fun f => { f with icmpv6 := true }
  setProtocol "ICMPv6"
  if data.length < 4 then return { payload := data, payloadOffset := offset }
  else
    let typ ← byteAt data 0
    let code ← byteAt data 1
    let sec ← addSection parent "Internet Control Message Protocol v6" offset data.length
    addFields sec [("Type", offset, 1), ("Code", offset + 1, 1)]
    icmpv6BodyNoted crates inner sec data offset typ code
    return { payload := [], payloadOffset := offset + data.length }

def dissectIpv6Noted : Nat → Nat → Bytes → Nat → Handing LayerResult
  | 0, _, _, _ => liftM (.error .outOfFuel : Except Fault LayerResult)
  | fuel + 1, parent, data, offset =>
    if data.length < 40 then return { payload := data, payloadOffset := offset }
    else do
      setFlags fun f => { f with ipv6 := true }
      let _payloadLen ← readBE data 4 2
      let next ← byteAt data 6
      let _hop ← byteAt data 7
      let src := ipv6Text (← slice data 8 24)
      let dst := ipv6Text (← slice data 24 40)
      let sec ← addSection parent "Internet Protocol Version 6" offset 40
      addFields sec [("Payload Length", offset + 4, 2), ("Next Header", offset + 6, 1),
        ("Hop Limit", offset + 7, 1), ("Source", offset + 8, 16), ("Destination", offset + 24, 16)]
      setAddresses src dst
      let (next, cursor) ← ipv6Extensions parent data offset (data.length + 1) next 40
      let payload ← sliceFrom data cursor
      let payloadOff := offset + cursor
      setProtocol (protoName next)
      if next = 58 then
        dissectIcmpv6Noted crates (dissectIpv6Noted fuel) parent payload payloadOff
      else if next = 6 then dissectTcpNoted crates parent payload payloadOff
      else if next = 17 then dissectUdpNoted crates keylog parent payload payloadOff
      else
        setInfo (src ++ " → " ++ dst)
        return { payload := payload, payloadOffset := payloadOff }

def dissectIpv6PacketNoted (parent : Nat) (data : Bytes) (offset : Nat) : Handing LayerResult :=
  dissectIpv6Noted crates keylog (data.length + 1) parent data offset

def dissectEthertypeNoted (parent ethertype : Nat) (payload : Bytes) (payloadOff : Nat)
    (other : Dissector PUnit) : Handing LayerResult :=
  if ethertype = 0x0800 then dissectIpv4Noted crates keylog parent payload payloadOff
  else if ethertype = 0x86dd then dissectIpv6PacketNoted crates keylog parent payload payloadOff
  else if ethertype = 0x0806 then dissectArp parent payload payloadOff
  else do
    other
    return { payload := payload, payloadOffset := payloadOff }

def dissectEthernetNoted (parent : Nat) (data : Bytes) (offset : Nat) : Handing LayerResult := do
  if data.length < 14 then return { payload := data, payloadOffset := offset }
  else
    setFlags fun f => { f with ethernet := true }
    let eth ← addSection parent "Ethernet II" offset 14
    let dst := fmtMac (← slice data 0 6)
    let src := fmtMac (← slice data 6 12)
    addFields eth [("Destination", offset, 6), ("Source", offset + 6, 6)]
    setAddresses src dst
    let ethertype ← readBE data 12 2
    addFields eth [("Type", offset + 12, 2)]
    let (ethertype, payloadOff) ← dissectVlan parent data offset ethertype
    let payload ← sliceFrom data (min payloadOff data.length)
    let text := "0x" ++ hexDigits 4 ethertype
    dissectEthertypeNoted crates keylog parent ethertype payload payloadOff do
      setProtocol text
      setInfo ("EtherType " ++ text)

def dissectSllNoted (parent : Nat) (data : Bytes) (offset : Nat) : Handing LayerResult := do
  if data.length < 16 then return { payload := data, payloadOffset := offset }
  else
    setFlags fun f => { f with ethernet := true }
    let sec ← addSection parent "Linux cooked capture" offset 16
    let _pkttype ← readBE data 0 2
    let protocol ← readBE data 14 2
    addFields sec [("Packet type", offset, 2), ("Protocol", offset + 14, 2)]
    dissectEthertypeNoted crates keylog parent protocol (← sliceFrom data 16) (offset + 16)
      (pure ⟨⟩)

def dissectSll2Noted (parent : Nat) (data : Bytes) (offset : Nat) : Handing LayerResult := do
  if data.length < 20 then return { payload := data, payloadOffset := offset }
  else
    setFlags fun f => { f with ethernet := true }
    let sec ← addSection parent "Linux cooked capture v2" offset 20
    let protocol ← readBE data 0 2
    addFields sec [("Protocol", offset, 2)]
    dissectEthertypeNoted crates keylog parent protocol (← sliceFrom data 20) (offset + 20)
      (pure ⟨⟩)

def dissectVersionNoted (parent : Nat) (payload : Bytes) (payloadOff : Nat) :
    Handing LayerResult := do
  if payload = [] then return { payload := payload, payloadOffset := payloadOff }
  else
    let version := (← byteAt payload 0) >>> 4
    if version = 4 then dissectIpv4Noted crates keylog parent payload payloadOff
    else if version = 6 then dissectIpv6PacketNoted crates keylog parent payload payloadOff
    else return { payload := payload, payloadOffset := payloadOff }

def dissectNullNoted (parent : Nat) (data : Bytes) (offset : Nat) : Handing LayerResult := do
  if data.length < 4 then return { payload := data, payloadOffset := offset }
  else
    let sec ← addSection parent "BSD loopback" offset 4
    let afLe ← readLE data 0 4
    let afBe ← readBE data 0 4
    let af := if knownFamily afLe then afLe else if knownFamily afBe then afBe else afLe
    let payload ← sliceFrom data 4
    addFields sec [("Family", offset, 4)]
    let payloadOff := offset + 4
    if af = 2 then dissectIpv4Noted crates keylog parent payload payloadOff
    else if knownFamily af then dissectIpv6PacketNoted crates keylog parent payload payloadOff
    else dissectVersionNoted crates keylog parent payload payloadOff

/-- 802.11 is handed what is behind the radiotap header, but not where that is. -/
def dissectRadiotapNoted (parent : Nat) (data : Bytes) : Handing PUnit := do
  if 8 ≤ data.length then
    let itLen ← readLE data 2 2
    if itLen ≤ data.length then
      setFlags fun f => { f with wifi := true }
      addFields parent [("Radiotap", 0, itLen)]
      let wifi ← sliceFrom data itLen
      handing .dot11 itLen wifi (dissectDot11 parent wifi)

def dissectL2Noted (parent : Nat) (data : Bytes) (linkType : LinkType) : Handing LayerResult :=
  match linkType with
  | .ethernet => dissectEthernetNoted crates keylog parent data 0
  | .linuxSll => dissectSllNoted crates keylog parent data 0
  | .linuxSll2 => dissectSll2Noted crates keylog parent data 0
  | .null => dissectNullNoted crates keylog parent data 0
  | .raw => dissectVersionNoted crates keylog parent data 0
  | .ieee80211Radio => do
    dissectRadiotapNoted parent data
    return { payload := [], payloadOffset := data.length }
  | .ieee80211 => do
    handing .dot11 0 data (dissectDot11 parent data)
    return { payload := [], payloadOffset := data.length }
  | .unknown _ =>
    if 14 ≤ data.length then dissectEthernetNoted crates keylog parent data 0
    else return { payload := data, payloadOffset := 0 }

/-- The dissection of a frame with its hand-overs. -/
def dissectFrameNoted (data : Bytes) (linkType : LinkType) : Handing LayerResult := do
  let root ← addRoot s!"Frame ({data.length} bytes)" 0 data.length
  addFields root [("Frame length", 0, data.length)]
  if data = [] then return { payload := [], payloadOffset := 0 }
  else dissectL2Noted crates keylog root data linkType

/-- The hand-overs of a frame, in their order. -/
def frameHandovers (data : Bytes) (linkType : LinkType) : Except Fault (List Handover) := do
  let summary : PacketSummary :=
    { protocol := "Data", info := s!"{data.length} bytes", len := data.length }
  let (_, after) ← dissectFrameNoted crates keylog data linkType { state := { summary := summary } }
  return after.notes

end

/- Without its notes, and without a key log, it is the dissector of a frame. -/

section

variable {crates : Crates} {parent offset : Nat} {data : Bytes}

theorem dissectTcp_head :
    dissectTcp crates parent data offset =
      (if data.length < 20 then return { payload := data, payloadOffset := offset }
      else do
        let (sport, dport, r) ← tcpHead parent data offset
        if r.payload = [] then return r
        else tcpApplication crates parent sport dport r.payload r.payloadOffset) := by
  simp only [dissectTcp, tcpHead, bind_assoc, pure_bind]

theorem dissectUdp_head :
    dissectUdp crates parent data offset =
      (if data.length < 8 then return { payload := data, payloadOffset := offset }
      else do
        let (sport, dport, r) ← udpHead parent data offset
        udpApplicationWith crates none parent sport dport r.payload r.payloadOffset) := by
  simp only [dissectUdp, udpHead, bind_assoc, pure_bind, udpApplicationWith_none]

theorem dissectTcp_erased :
    Erases (dissectTcpNoted crates parent data offset) (dissectTcp crates parent data offset) := by
  rw [dissectTcp_head]
  refine .ite (fun _ => .noted _ _) (fun _ => .bind (.noted _ _) (fun found => ?_))
  exact .ite (fun _ => .pure _) (fun _ => .noted _ _)

theorem dissectUdp_erased :
    Erases (dissectUdpNoted crates none parent data offset)
      (dissectUdp crates parent data offset) := by
  rw [dissectUdp_head]
  exact .ite (fun _ => .noted _ _) (fun _ => .bind (.noted _ _) (fun found => .noted _ _))

theorem dissectIpv4_erased :
    Erases (dissectIpv4Noted crates none parent data offset)
      (dissectIpv4 crates parent data offset) := by
  refine .ite (fun _ => .pure _) (fun _ => .bind (.unnoted _) (fun _ => ?_))
  refine .bind (.unnoted _) (fun first => .ite (fun _ => .pure _) (fun _ => ?_))
  refine .bind (.unnoted _) (fun total => .bind (.unnoted _) (fun _ => ?_))
  refine .bind (.unnoted _) (fun proto => .bind (.unnoted _) (fun src => ?_))
  refine .bind (.unnoted _) (fun dst => .bind (.unnoted _) (fun sec => ?_))
  refine .bind (.unnoted _) (fun _ => .bind (.unnoted _) (fun _ => ?_))
  refine .bind (.unnoted _) (fun _ => .bind (.unnoted _) (fun payload => ?_))
  refine .ite (fun _ => .unnoted _) (fun _ => .ite (fun _ => dissectTcp_erased) (fun _ => ?_))
  refine .ite (fun _ => dissectUdp_erased) (fun _ => ?_)
  exact .bind (.unnoted _) (fun _ => .pure _)

theorem isolated_erased {α : Type} {n : Handing α} {m : Dissector α} (inner : Erases n m) :
    Erases (isolatedNoted n) (isolated m) := by
  refine .bind (.unnoted _) (fun outer => .bind (.unnoted _) (fun _ => ?_))
  exact .bind inner (fun result => .bind (.unnoted _) (fun _ => .pure _))

/-- What a body that quotes a packet does. -/
theorem icmpv6Body_quotes {inner : Nat → Bytes → Nat → Dissector LayerResult} {sec : Nat}
    {typ code : UInt8} (quotes : Quotes typ data) :
    icmpv6Body inner sec data offset typ code = (do
      setInfo s!"Destination Unreachable code={code}"
      let quoted ← sliceFrom data 8
      let _ ← isolated (inner sec quoted (offset + 8))) := by
  obtain ⟨rfl, long⟩ := quotes
  unfold icmpv6Body
  rw [if_neg (by simp), if_neg (by decide), if_neg (by decide), if_neg (by decide),
    if_pos ⟨rfl, long⟩]

/-- Other bodies hand nothing on. -/
theorem icmpv6Body_other {inner inner' : Nat → Bytes → Nat → Dissector LayerResult} {sec : Nat}
    {typ code : UInt8} (other : ¬ Quotes typ data) :
    icmpv6Body inner sec data offset typ code = icmpv6Body inner' sec data offset typ code := by
  unfold icmpv6Body
  simp only [if_neg (show ¬ (typ = 1 ∧ 8 < data.length) from other)]

theorem icmpv6Body_erased {inner : Nat → Bytes → Nat → Handing LayerResult}
    {inner' : Nat → Bytes → Nat → Dissector LayerResult} {sec : Nat} {typ code : UInt8}
    (erased : ∀ parent data offset, Erases (inner parent data offset) (inner' parent data offset)) :
    Erases (icmpv6BodyNoted crates inner sec data offset typ code)
      (icmpv6Body inner' sec data offset typ code) := by
  unfold icmpv6BodyNoted
  split
  · next quotes =>
    rw [icmpv6Body_quotes quotes]
    refine .bind (.unnoted _) (fun _ => .bind (.unnoted _) (fun quoted => ?_))
    exact .bind (isolated_erased (erased _ _ _)) (fun _ => .pure _)
  · next other =>
    rw [icmpv6Body_other other]
    exact .unnoted _

theorem dissectIcmpv6_erased {inner : Nat → Bytes → Nat → Handing LayerResult}
    {inner' : Nat → Bytes → Nat → Dissector LayerResult}
    (erased : ∀ parent data offset, Erases (inner parent data offset) (inner' parent data offset)) :
    Erases (dissectIcmpv6Noted crates inner parent data offset)
      (dissectIcmpv6 inner' parent data offset) := by
  refine .bind (.unnoted _) (fun _ => .bind (.unnoted _) (fun _ => .ite (fun _ => .pure _) ?_))
  refine fun _ => .bind (.unnoted _) (fun typ => .bind (.unnoted _) (fun code => ?_))
  refine .bind (.unnoted _) (fun sec => .bind (.unnoted _) (fun _ => ?_))
  exact .bind (icmpv6Body_erased erased) (fun _ => .pure _)

theorem dissectIpv6_erased {fuel : Nat} :
    Erases (dissectIpv6Noted crates none fuel parent data offset)
      (dissectIpv6 crates fuel parent data offset) := by
  induction fuel generalizing parent data offset with
  | zero =>
    unfold dissectIpv6Noted dissectIpv6
    exact .unnoted _
  | succ fuel ih =>
    unfold dissectIpv6Noted dissectIpv6
    refine .ite (fun _ => .pure _) (fun _ => .bind (.unnoted _) (fun _ => ?_))
    refine .bind (.unnoted _) (fun _ => .bind (.unnoted _) (fun next => ?_))
    refine .bind (.unnoted _) (fun _ => .bind (.unnoted _) (fun src => ?_))
    refine .bind (.unnoted _) (fun dst => .bind (.unnoted _) (fun sec => ?_))
    refine .bind (.unnoted _) (fun _ => .bind (.unnoted _) (fun _ => ?_))
    refine .bind (.unnoted _) (fun found => .bind (.unnoted _) (fun payload => ?_))
    refine .bind (.unnoted _) (fun _ => .ite (fun _ => ?_) (fun _ => ?_))
    · exact dissectIcmpv6_erased (fun _ _ _ => ih)
    refine .ite (fun _ => dissectTcp_erased) (fun _ => .ite (fun _ => dissectUdp_erased) ?_)
    exact fun _ => .bind (.unnoted _) (fun _ => .pure _)

theorem dissectEthertype_erased {ethertype : Nat} {other : Dissector PUnit} :
    Erases (dissectEthertypeNoted crates none parent ethertype data offset other)
      (dissectEthertype crates parent ethertype data offset other) := by
  refine .ite (fun _ => dissectIpv4_erased) (fun _ => .ite (fun _ => dissectIpv6_erased) ?_)
  refine fun _ => .ite (fun _ => .unnoted _) (fun _ => ?_)
  exact .bind (.unnoted _) (fun _ => .pure _)

theorem dissectEthernet_erased :
    Erases (dissectEthernetNoted crates none parent data offset)
      (dissectEthernet crates parent data offset) := by
  refine .ite (fun _ => .pure _) (fun _ => .bind (.unnoted _) (fun _ => ?_))
  refine .bind (.unnoted _) (fun eth => .bind (.unnoted _) (fun dst => ?_))
  refine .bind (.unnoted _) (fun src => .bind (.unnoted _) (fun _ => ?_))
  refine .bind (.unnoted _) (fun _ => .bind (.unnoted _) (fun ethertype => ?_))
  refine .bind (.unnoted _) (fun _ => .bind (.unnoted _) (fun head => ?_))
  exact .bind (.unnoted _) (fun payload => dissectEthertype_erased)

theorem dissectSll_erased :
    Erases (dissectSllNoted crates none parent data offset)
      (dissectSll crates parent data offset) := by
  refine .ite (fun _ => .pure _) (fun _ => .bind (.unnoted _) (fun _ => ?_))
  refine .bind (.unnoted _) (fun sec => .bind (.unnoted _) (fun _ => ?_))
  refine .bind (.unnoted _) (fun protocol => .bind (.unnoted _) (fun _ => ?_))
  exact .bind (.unnoted _) (fun payload => dissectEthertype_erased)

theorem dissectSll2_erased :
    Erases (dissectSll2Noted crates none parent data offset)
      (dissectSll2 crates parent data offset) := by
  refine .ite (fun _ => .pure _) (fun _ => .bind (.unnoted _) (fun _ => ?_))
  refine .bind (.unnoted _) (fun sec => .bind (.unnoted _) (fun protocol => ?_))
  refine .bind (.unnoted _) (fun _ => .bind (.unnoted _) (fun payload => ?_))
  exact dissectEthertype_erased

theorem dissectVersion_erased :
    Erases (dissectVersionNoted crates none parent data offset)
      (dissectVersion crates parent data offset) := by
  refine .ite (fun _ => .pure _) (fun _ => .bind (.unnoted _) (fun first => ?_))
  refine .ite (fun _ => dissectIpv4_erased) (fun _ => .ite (fun _ => dissectIpv6_erased) ?_)
  exact fun _ => .pure _

theorem dissectNull_erased :
    Erases (dissectNullNoted crates none parent data offset)
      (dissectNull crates parent data offset) := by
  refine .ite (fun _ => .pure _) (fun _ => .bind (.unnoted _) (fun sec => ?_))
  refine .bind (.unnoted _) (fun afLe => .bind (.unnoted _) (fun afBe => ?_))
  refine .bind (.unnoted _) (fun payload => .bind (.unnoted _) (fun _ => ?_))
  refine .ite (fun _ => dissectIpv4_erased) (fun _ => .ite (fun _ => dissectIpv6_erased) ?_)
  exact fun _ => dissectVersion_erased

theorem dissectRadiotap_erased :
    Erases (dissectRadiotapNoted parent data) (dissectRadiotap parent data) := by
  refine .ite (fun _ => .bind (.unnoted _) (fun itLen => ?_)) (fun _ => .pure _)
  refine .ite (fun _ => .bind (.unnoted _) (fun _ => ?_)) (fun _ => .pure _)
  exact .bind (.unnoted _) (fun _ => .bind (.unnoted _) (fun wifi => .noted _ _))

theorem dissectL2_erased (linkType : LinkType) :
    Erases (dissectL2Noted crates none parent data linkType)
      (dissectL2 crates parent data linkType) := by
  cases linkType with
  | ethernet => exact dissectEthernet_erased
  | linuxSll => exact dissectSll_erased
  | linuxSll2 => exact dissectSll2_erased
  | null => exact dissectNull_erased
  | raw => exact dissectVersion_erased
  | ieee80211Radio => exact .bind dissectRadiotap_erased (fun _ => .pure _)
  | ieee80211 => exact .bind (.noted _ _) (fun _ => .pure _)
  | unknown v => exact .ite (fun _ => dissectEthernet_erased) (fun _ => .pure _)

theorem dissectFrame_erased (linkType : LinkType) :
    Erases (dissectFrameNoted crates none data linkType) (dissectFrame crates data linkType) := by
  refine .bind (.unnoted _) (fun root => .bind (.unnoted _) (fun _ => .ite ?_ ?_))
  · exact fun _ => .pure _
  · exact fun _ => dissectL2_erased linkType

end

end BitBeak
