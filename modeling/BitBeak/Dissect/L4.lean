import BitBeak.Dissect.Tls
import BitBeak.Dissect.Web
import BitBeak.Dissect.Services
import BitBeak.Dissect.Quic

/-! TCP and UDP, and the choice of an application protocol by port and content. -/
namespace BitBeak
open Wire Dissector

def formatTcpFlags (f : UInt8) : String :=
  let parts := [(0x01, "FIN"), (0x02, "SYN"), (0x04, "RST"), (0x08, "PSH"), (0x10, "ACK"),
    (0x20, "URG")].filter fun (bit, _) => f &&& bit ≠ 0
  if parts = [] then "0x" ++ hexDigits 2 f.toNat else ",".intercalate (parts.map (·.2))

def looksLikeTls (p : Bytes) : Except Fault Bool := do
  if 5 ≤ p.length then
    let kind ← byteAt p 0
    let major ← byteAt p 1
    return (kind == 0x16 || kind == 0x17 || kind == 0x15 || kind == 0x14) && major == 0x03
  else return false

def looksLikeHttp1 (p : Bytes) : Bool :=
  match fromUtf8 (p.take 16) with
  | some s => ["GET ", "POST ", "PUT ", "HEAD ", "DELETE ", "OPTIONS ", "PATCH ", "HTTP/1."].any
      (hasPrefix s)
  | none => false

def looksLikeHttp2 (p : Bytes) : Except Fault Bool := do
  if p.length < 9 then return false
  else
    let len ← readBE p 0 3
    let typ ← byteAt p 3
    return typ ≤ 0x09 && len + 9 ≤ p.length + 16384

def looksLikeWsFrame (p : Bytes) : Except Fault Bool := do
  if p.length < 2 then return false
  else
    let first ← byteAt p 0
    return [0x0, 0x1, 0x2, 0x8, 0x9, 0xa].contains (first &&& 0x0f) && first &&& 0x70 == 0

/-- Some nine octets are `websocket` in any case. -/
def mentionsWebsocket (payload : Bytes) : Bool :=
  let lower := payload.map fun b => if 0x41 ≤ b ∧ b ≤ 0x5a then b + 0x20 else b
  lower.tails.any ("websocket".toUTF8.toList.isPrefixOf ·)

/-- The top bit of the first octet is set. -/
def hasLongHeader (payload : Bytes) : Except Fault Bool := do
  if payload = [] then return false else return (← byteAt payload 0) &&& 0x80 != 0

/-- An address gets its port, where there is an address. -/
def withPort (address : String) (port : Nat) : String :=
  if address = "" then address else address ++ s!":{port}"

def tcpApplication (crates : Crates) (parent sport dport : Nat) (payload : Bytes) (payloadOff : Nat) :
    Dissector LayerResult := do
  let tls ← looksLikeTls payload
  let http2 ← looksLikeHttp2 payload
  let frame ← looksLikeWsFrame payload
  let upgraded := (← get).flags.websocket
  if sport = 443 ∨ dport = 443 ∨ tls then dissectTls crates parent payload payloadOff
  else if http2Preface.isPrefixOf payload ∨ http2 then
    dissectHttp2 crates parent payload payloadOff
  else if looksLikeHttp1 payload then
    let r ← dissectHttp1 crates parent payload payloadOff
    onlyIf (mentionsWebsocket payload) (setFlags fun f => { f with websocket := true })
    return r
  else if upgraded ∨ frame then dissectWebsocket parent payload payloadOff
  else if sport = 5060 ∨ dport = 5060 ∨ looksLikeSip payload then
    dissectSip parent payload
    return { payload := payload, payloadOffset := payloadOff }
  else return { payload := payload, payloadOffset := payloadOff }

def dissectTcp (crates : Crates) (parent : Nat) (data : Bytes) (offset : Nat) : Dissector LayerResult := do
  if data.length < 20 then return { payload := data, payloadOffset := offset }
  else
    setFlags fun f => { f with tcp := true }
    let sport ← readBE data 0 2
    let dport ← readBE data 2 2
    let seq ← readBE data 4 4
    let ack ← readBE data 8 4
    let dataOff := ((← byteAt data 12) >>> 4).toNat * 4
    let fl ← byteAt data 13
    let window ← readBE data 14 2
    let sec ← addSection parent "Transmission Control Protocol" offset (min dataOff data.length)
    addFields sec [("Source Port", offset, 2), ("Destination Port", offset + 2, 2),
      ("Sequence Number", offset + 4, 4), ("Acknowledgment Number", offset + 8, 4),
      ("Flags", offset + 13, 1), ("Window", offset + 14, 2)]
    let hdr := min dataOff data.length
    onlyIf (20 < dataOff ∧ dataOff ≤ data.length) do
      let len ← checkedSub dataOff 20
      addFields sec [("Options", offset + 20, len)]
    let payload ← tailOrEmpty data hdr
    let payloadOff := offset + hdr
    noteTransport { proto := .tcp, sport := sport, dport := dport, seq := seq,
                    payloadOffset := payloadOff, payload := payload }
    setSummary fun m => { m with src := withPort m.src sport, dst := withPort m.dst dport }
    setProtocol "TCP"
    setInfo (s!"{sport} → {dport} [" ++ formatTcpFlags fl ++
      s!"] Seq={seq} Ack={ack} Win={window} Len={payload.length}")
    if payload = [] then return { payload := payload, payloadOffset := payloadOff }
    else tcpApplication crates parent sport dport payload payloadOff

def udpApplication (crates : Crates) (parent sport dport : Nat) (payload : Bytes) (payloadOff : Nat) :
    Dissector LayerResult := do
  let rtp ← looksLikeRtp payload
  let initial ← looksLikeQuicInitial payload
  let short ← looksLikeQuicShort payload
  let long ← hasLongHeader payload
  if sport = 53 ∨ dport = 53 ∨ sport = 5353 ∨ dport = 5353 ∨ sport = 5355 ∨ dport = 5355 then
    let r ← dissectDns crates parent payload payloadOff
    if sport = 5353 ∨ dport = 5353 then
      setFlags fun f => { f with mdns := true, dns := true }
      setProtocol "MDNS"
      return r
    else if sport = 5355 ∨ dport = 5355 then
      setFlags fun f => { f with llmnr := true, dns := true }
      setProtocol "LLMNR"
      return r
    else return r
  else if sport = 67 ∨ dport = 67 ∨ sport = 68 ∨ dport = 68 then
    dissectDhcp parent payload payloadOff
  else if sport = 5060 ∨ dport = 5060 ∨ looksLikeSip payload then
    dissectSip parent payload
    return { payload := payload, payloadOffset := payloadOff }
  else if rtp then
    dissectRtp parent payload
    return { payload := payload, payloadOffset := payloadOff }
  else if initial ∨ (short ∧ 20 < payload.length) ∨ ((sport = 443 ∨ dport = 443) ∧ long) then
    dissectQuic crates parent payload payloadOff
    setSummary fun m =>
      if m.info = "" ∨ hasPrefix m.info "Len=" then
        { m with info := s!"{sport} → {dport} " ++ m.protocol }
      else m
    return { payload := payload, payloadOffset := payloadOff }
  else return { payload := payload, payloadOffset := payloadOff }

def dissectUdp (crates : Crates) (parent : Nat) (data : Bytes) (offset : Nat) : Dissector LayerResult := do
  if data.length < 8 then return { payload := data, payloadOffset := offset }
  else
    setFlags fun f => { f with udp := true }
    let sport ← readBE data 0 2
    let dport ← readBE data 2 2
    let _len ← readBE data 4 2
    let sec ← addSection parent "User Datagram Protocol" offset 8
    addFields sec [("Source Port", offset, 2), ("Destination Port", offset + 2, 2),
      ("Length", offset + 4, 2)]
    setSummary fun m => { m with src := withPort m.src sport, dst := withPort m.dst dport }
    let payload ← sliceFrom data 8
    let payloadOff := offset + 8
    noteTransport { proto := .udp, sport := sport, dport := dport, payloadOffset := payloadOff,
                    payload := payload }
    setProtocol "UDP"
    setInfo s!"{sport} → {dport} Len={payload.length}"
    udpApplication crates parent sport dport payload payloadOff

/- What the transport dissectors read of a segment. -/

def tcpHeader (offset : Nat) (data : Bytes) : Transport :=
  let hdr := min ((octet data 12 >>> 4).toNat * 4) data.length
  { proto := .tcp, sport := beAt data 0 2, dport := beAt data 2 2, seq := beAt data 4 4,
    payloadOffset := offset + hdr, payload := data.drop hdr }

def udpHeader (offset : Nat) (data : Bytes) : Transport :=
  { proto := .udp, sport := beAt data 0 2, dport := beAt data 2 2, payloadOffset := offset + 8,
    payload := data.drop 8 }

def tcpLabels (offset : Nat) (data : Bytes) : Labels :=
  if data.length < 20 then {} else { transport := some (tcpHeader offset data), tcp := true }

def udpLabels (offset : Nat) (data : Bytes) : Labels :=
  if data.length < 8 then {} else { transport := some (udpHeader offset data), udp := true }

theorem looksLikeTls_ok (p : Bytes) : ∃ answer, looksLikeTls p = .ok answer := by
  unfold looksLikeTls
  split
  · rw [byteAt_ok (by omega), byteAt_ok (by omega)]
    exact ⟨_, rfl⟩
  · exact ⟨_, rfl⟩

theorem looksLikeHttp2_ok (p : Bytes) : ∃ answer, looksLikeHttp2 p = .ok answer := by
  unfold looksLikeHttp2
  split
  · exact ⟨_, rfl⟩
  · rw [readBE_ok (by omega), byteAt_ok (by omega)]
    exact ⟨_, rfl⟩

theorem looksLikeWsFrame_ok (p : Bytes) : ∃ answer, looksLikeWsFrame p = .ok answer := by
  unfold looksLikeWsFrame
  split
  · exact ⟨_, rfl⟩
  · rw [byteAt_ok (by omega)]
    exact ⟨_, rfl⟩

theorem hasLongHeader_ok (p : Bytes) : ∃ answer, hasLongHeader p = .ok answer := by
  unfold hasLongHeader
  split
  · exact ⟨_, rfl⟩
  · next nonempty =>
    rw [byteAt_ok (List.length_pos_iff.mpr nonempty)]
    exact ⟨_, rfl⟩

section

variable {size : Nat} {labels : Labels} {crates : Crates} {parent offset sport dport : Nat}
variable {data : Bytes}

theorem tcpApplication_keeps (contract : crates.Contract) (room : 20 ≤ size)
    (fits : offset + data.length ≤ size) :
    Keeps (Sound size labels) (tcpApplication crates parent sport dport data offset) := by
  obtain ⟨tls, known⟩ := looksLikeTls_ok data
  obtain ⟨http2, known'⟩ := looksLikeHttp2_ok data
  obtain ⟨frame, known''⟩ := looksLikeWsFrame_ok data
  unfold tcpApplication
  rw [known, known', known'', read_ok, read_ok, read_ok, pure_bind, pure_bind, pure_bind]
  refine .bind .get (fun s => ?_)
  have marked : Keeps (Sound size labels) (setFlags fun f => { f with tls := true }) :=
    .modify (fun _ sound => ⟨sound.inside, sound.labelled, fun _ => room⟩)
  have low := Nat.zero_le offset
  refine .ite (fun _ => dissectTls_keeps Sound.allows marked contract low fits) (fun _ => ?_)
  refine .ite (fun _ => dissectHttp2_keeps Sound.allows low fits) (fun _ => .ite ?_ ?_)
  · refine fun _ => .bind (dissectHttp1_keeps Sound.allows contract low fits) (fun r => ?_)
    refine .bind (onlyIf_keeps ?_) (fun _ => .pure r)
    exact fun _ => Sound.allows.setFlags (fun _ => ⟨rfl, rfl, rfl⟩)
  · refine fun _ => .ite (fun _ => dissectWebsocket_keeps Sound.allows low fits) (fun _ => ?_)
    refine .ite (fun _ => ?_) ?_
    · exact .bind (dissectSip_keeps Sound.allows rfl (by omega)) (fun _ => .pure _)
    · exact fun _ => .pure _

theorem udpApplication_keeps (contract : crates.Contract) (fits : offset + data.length ≤ size) :
    Keeps (Sound size labels) (udpApplication crates parent sport dport data offset) := by
  have unlabelled : ∀ {change : ProtocolFlags → ProtocolFlags} {name : String} {r : LayerResult},
      (∀ flags, (change flags).tcp = flags.tcp ∧ (change flags).udp = flags.udp ∧
        (change flags).tls = flags.tls) →
      Keeps (Sound size labels) (do setFlags change; setProtocol name; return r) :=
    fun same => .bind (Sound.allows.setFlags same)
      (fun _ => .bind Sound.allows.setSummary (fun _ => .pure _))
  have low := Nat.zero_le offset
  obtain ⟨initial, known⟩ := looksLikeQuicInitial_ok data
  obtain ⟨long, known'⟩ := hasLongHeader_ok data
  unfold udpApplication
  rw [looksLikeRtp_ok, known, looksLikeQuicShort_ok, known', read_ok, read_ok, read_ok, read_ok,
    pure_bind, pure_bind, pure_bind, pure_bind]
  refine .ite (fun _ => ?_) (fun _ => .ite ?_ (fun _ => ?_))
  · refine .bind (dissectDns_keeps Sound.allows contract low fits) (fun r => ?_)
    refine .ite (fun _ => unlabelled (fun _ => ⟨rfl, rfl, rfl⟩)) (fun _ => .ite (fun _ => ?_) ?_)
    · exact unlabelled (fun _ => ⟨rfl, rfl, rfl⟩)
    · exact fun _ => .pure r
  · exact fun _ => dissectDhcp_keeps Sound.allows low fits
  · refine .ite (fun _ => ?_) (fun _ => .ite (fun _ => ?_) (fun _ => .ite ?_ (fun _ => .pure _)))
    · exact .bind (dissectSip_keeps Sound.allows rfl (by omega)) (fun _ => .pure _)
    · exact .bind (dissectRtp_keeps Sound.allows rfl (by omega)) (fun _ => .pure _)
    · exact fun _ => .bind (dissectQuic_keeps Sound.allows contract low fits)
        (fun _ => .bind Sound.allows.setSummary (fun _ => .pure _))

theorem dissectTcp_meets (contract : crates.Contract) (fits : offset + data.length ≤ size) :
    Meets (Sound size {}) (dissectTcp crates parent data offset)
      (fun _ => Sound size (tcpLabels offset data)) := by
  unfold dissectTcp
  refine .ite (fun short => ?_) (fun long => ?_)
  · rw [tcpLabels, if_pos short]
    exact .pure (fun _ sound => sound)
  have marked : Meets (Sound size {}) (setFlags fun f => { f with tcp := true })
      (fun _ => Sound size { tcp := true }) := by
    refine relabel (fun _ => ⟨rfl, rfl⟩) ?_
    intro s before
    simp_all [Dissection.labels]
  have noted : Meets (Sound size { tcp := true }) (noteTransport (tcpHeader offset data))
      (fun _ => Sound size (tcpLabels offset data)) := by
    rw [tcpLabels, if_neg long]
    refine relabel (fun _ => ⟨rfl, rfl⟩) ?_
    intro s before
    simp_all [Dissection.labels]
  refine .bind marked (fun _ => ?_)
  simp (disch := omega) only [readBE_ok, byteAt_ok, tailOrEmpty_ok, read_ok, pure_bind]
  refine .bind (Sound.allows.addSection (by omega)) (fun sec => ?_)
  refine .bind (Sound.allows.addFields ?_) (fun _ => ?_)
  · simp only [List.forall_mem_cons, List.not_mem_nil, false_implies, implies_true, and_true]
    omega
  refine .bind (onlyIf_keeps (fun options => ?_)) (fun _ => .bind noted (fun _ => ?_))
  · rw [checkedSub_ok (by omega), read_ok, pure_bind]
    exact Sound.allows.addField (by omega)
  refine .bind Sound.allows.setSummary (fun _ => .bind Sound.allows.setSummary (fun _ => ?_))
  refine .bind Sound.allows.setSummary (fun _ => .ite (fun _ => .pure (fun _ sound => sound)) ?_)
  intro _
  refine tcpApplication_keeps contract (by omega) ?_
  rw [List.length_drop]
  omega

theorem dissectUdp_meets (contract : crates.Contract) (fits : offset + data.length ≤ size) :
    Meets (Sound size {}) (dissectUdp crates parent data offset)
      (fun _ => Sound size (udpLabels offset data)) := by
  unfold dissectUdp
  refine .ite (fun short => ?_) (fun long => ?_)
  · rw [udpLabels, if_pos short]
    exact .pure (fun _ sound => sound)
  have marked : Meets (Sound size {}) (setFlags fun f => { f with udp := true })
      (fun _ => Sound size { udp := true }) := by
    refine relabel (fun _ => ⟨rfl, rfl⟩) ?_
    intro s before
    simp_all [Dissection.labels]
  have noted : Meets (Sound size { udp := true }) (noteTransport (udpHeader offset data))
      (fun _ => Sound size (udpLabels offset data)) := by
    rw [udpLabels, if_neg long]
    refine relabel (fun _ => ⟨rfl, rfl⟩) ?_
    intro s before
    simp_all [Dissection.labels]
  refine .bind marked (fun _ => ?_)
  simp (disch := omega) only [readBE_ok, sliceFrom_ok, read_ok, pure_bind]
  refine .bind (Sound.allows.addSection (by omega)) (fun sec => ?_)
  refine .bind (Sound.allows.addFields ?_) (fun _ => ?_)
  · simp only [List.forall_mem_cons, List.not_mem_nil, false_implies, implies_true, and_true]
    omega
  refine .bind Sound.allows.setSummary (fun _ => .bind noted (fun _ => ?_))
  refine .bind Sound.allows.setSummary (fun _ => ?_)
  refine .bind Sound.allows.setSummary (fun _ => udpApplication_keeps contract ?_)
  rw [List.length_drop]
  omega

end

end BitBeak
