import BitBeak.Dissect.Crates
import BitBeak.Dissect.Dissection
import BitBeak.Dissect.Text

/-! DNS, DHCP, SIP and RTP in a UDP payload; SIP in a TCP payload too. -/
namespace BitBeak
open Wire Dissector

def dissectDns (crates : Crates) (parent : Nat) (data : Bytes) (offset : Nat) :
    Dissector LayerResult := do
  setFlags fun f => { f with dns := true }
  setProtocol "DNS"
  let sec ← addSection parent "Domain Name System" offset data.length
  match crates.dnsMessage data with
  | some msg => do
    let qr := if msg.response then "response" else "query"
    addFields sec [("Transaction ID", offset, 2), ("Flags", offset + 2, 2)]
    addFields sec (msg.queries.map fun _ => ("Query", offset, 0))
    addFields sec (List.replicate msg.answers ("Answer", offset, 0))
    setInfo (if msg.queries = [] then "DNS " ++ qr
      else "DNS " ++ qr ++ " " ++ ", ".intercalate msg.queries)
    return { payload := [], payloadOffset := offset + data.length }
  | none => do
    addFields sec [("Parse error", offset, 0)]
    setInfo "DNS (malformed)"
    return { payload := [], payloadOffset := offset + data.length }

def dhcpMessageType (code : UInt8) : String :=
  if code = 1 then "Discover"
  else if code = 2 then "Offer"
  else if code = 3 then "Request"
  else if code = 4 then "Decline"
  else if code = 5 then "ACK"
  else if code = 6 then "NAK"
  else if code = 7 then "Release"
  else if code = 8 then "Inform"
  else "DHCP"

/-- The options from `i` on; the answer is the last message type among them. -/
def dhcpOptions (sec : Nat) (data : Bytes) (offset : Nat) : Nat → Nat → String → Dissector String
  | 0, _, _ => liftM (.error .outOfFuel : Except Fault String)
  | fuel + 1, i, msgType =>
    if i + 1 < data.length then do
      let code ← byteAt data i
      if code = 255 then return msgType
      else if code = 0 then dhcpOptions sec data offset fuel (i + 1) msgType
      else
        let len := (← byteAt data (i + 1)).toNat
        if data.length < i + 2 + len then return msgType
        else if code = 53 ∧ 1 ≤ len then
          let msgType := dhcpMessageType (← byteAt data (i + 2))
          addFields sec [("Option 53 Message Type", offset + i, 2 + len)]
          dhcpOptions sec data offset fuel (i + 2 + len) msgType
        else dhcpOptions sec data offset fuel (i + 2 + len) msgType
    else return msgType

/-- Options lie behind the magic cookie. -/
def dhcpOptionsAt (sec : Nat) (data : Bytes) (offset : Nat) (cookie : Bytes) : Dissector String :=
  if 240 < data.length ∧ cookie = [0x63, 0x82, 0x53, 0x63] then
    dhcpOptions sec data offset (data.length + 1) 240 "DHCP"
  else return "DHCP"

def dissectDhcp (parent : Nat) (data : Bytes) (offset : Nat) : Dissector LayerResult := do
  setFlags fun f => { f with dhcp := true }
  setProtocol "DHCP"
  let sec ← addSection parent "Dynamic Host Configuration Protocol" offset (min data.length 240)
  if data.length < 240 then
    setInfo "DHCP (truncated)"
    return { payload := data, payloadOffset := offset }
  else
    let _op ← byteAt data 0
    let xid := hexDigits 1 (← readBE data 4 4)
    let yiaddr := dotted (← slice data 16 20)
    let chaddr := fmtMac (← slice data 28 34)
    addFields sec [("Message op", offset, 1), ("Transaction ID", offset + 4, 4),
      ("Your IP", offset + 16, 4), ("Client MAC", offset + 28, 6)]
    let msgType ← dhcpOptionsAt sec data offset (← slice data 236 240)
    setInfo (s!"DHCP {msgType} xid=0x{xid} yiaddr={yiaddr} chaddr={chaddr}")
    return { payload := [], payloadOffset := offset + data.length }

def looksLikeSip (payload : Bytes) : Bool :=
  let s := fromUtf8Lossy (payload.take 16)
  ["SIP/2.0", "INVITE ", "REGISTER ", "ACK ", "BYE ", "OPTIONS ", "CANCEL "].any (hasPrefix s)

/-- The node is laid at the start of the frame, not of the payload. -/
def dissectSip (parent : Nat) (payload : Bytes) : Dissector PUnit := do
  setFlags fun f => { f with sip := true }
  let first := (firstLine (fromUtf8Lossy payload)).getD "SIP"
  setProtocol "SIP"
  setInfo (String.ofList (first.toList.take 80))
  addFields parent [("SIP", 0, min payload.length 64)]

def looksLikeRtp (payload : Bytes) : Except Fault Bool := do
  if payload.length < 12 then return false
  else return (← byteAt payload 0) >>> 6 == 2

/-- The node is laid at the start of the frame, not of the payload. -/
def dissectRtp (parent : Nat) (payload : Bytes) : Dissector PUnit :=
  onlyIf (12 ≤ payload.length) do
    setFlags fun f => { f with rtp := true }
    let pt := ((← byteAt payload 1) &&& 0x7f).toNat
    let seq ← readBE payload 2 2
    let ssrc := hexDigits 8 (← readBE payload 8 4)
    setProtocol "RTP"
    setInfo (s!"PT={pt} seq={seq} SSRC=0x{ssrc}")
    addFields parent [("RTP", 0, 12)]

section

variable {lo hi : Nat} {I : Dissection → Prop} {parent offset : Nat} {data : Bytes}

theorem dissectDns_keeps (allows : Allows lo hi I) {crates : Crates} (contract : crates.Contract)
    (low : lo ≤ offset) (fits : offset + data.length ≤ hi) :
    Keeps I (dissectDns crates parent data offset) := by
  refine .bind (allows.setFlags (fun _ => ⟨rfl, rfl, rfl⟩)) (fun _ => ?_)
  refine .bind allows.setSummary (fun _ => .bind (allows.addSection ⟨low, fits⟩) (fun sec => ?_))
  cases parsed : crates.dnsMessage data with
  | none =>
    exact .bind (allows.addField (by omega)) (fun _ => .bind allows.setSummary (fun _ => .pure _))
  | some msg =>
    have header := contract.dns data msg parsed
    refine .bind (allows.addFields ?_) (fun _ => .bind (allows.addFields ?_) (fun _ =>
      .bind (allows.addFields ?_) (fun _ => .bind allows.setSummary (fun _ => .pure _))))
    · simp only [List.forall_mem_cons, List.not_mem_nil, false_implies, implies_true, and_true]
      omega
    · intro field member
      obtain ⟨name, _, rfl⟩ := List.mem_map.mp member
      dsimp only
      omega
    · intro field member
      rw [List.eq_of_mem_replicate member]
      dsimp only
      omega

theorem dhcpOptions_keeps (allows : Allows lo hi I) {sec fuel i : Nat} (msgType : String)
    (low : lo ≤ offset)
    (fits : offset + data.length ≤ hi) (enough : data.length ≤ i + fuel) (started : 0 < fuel) :
    Keeps I (dhcpOptions sec data offset fuel i msgType) := by
  induction fuel generalizing i msgType with
  | zero => omega
  | succ fuel ih =>
    unfold dhcpOptions
    refine .ite (fun inside => ?_) (fun _ => .pure _)
    simp (disch := omega) only [byteAt_ok, read_ok, pure_bind]
    refine .ite (fun _ => .pure _) (fun _ => .ite (fun _ => ?_) (fun _ => ?_))
    · exact ih msgType (by omega) (by omega)
    · refine .ite (fun _ => .pure _) (fun _ => .ite (fun dated => ?_) (fun _ => ?_))
      · refine .bind (allows.addField (by omega)) (fun _ => ih _ (by omega) (by omega))
      · exact ih msgType (by omega) (by omega)

theorem dissectDhcp_keeps (allows : Allows lo hi I) (low : lo ≤ offset)
    (fits : offset + data.length ≤ hi) :
    Keeps I (dissectDhcp parent data offset) := by
  refine .bind (allows.setFlags (fun _ => ⟨rfl, rfl, rfl⟩)) (fun _ => ?_)
  refine .bind allows.setSummary (fun _ => .bind (allows.addSection (by omega)) (fun sec => ?_))
  refine .ite (fun _ => .bind allows.setSummary (fun _ => .pure _)) (fun long => ?_)
  simp (disch := omega) only [byteAt_ok, readBE_ok, slice_ok, read_ok, pure_bind]
  refine .bind (allows.addFields ?_) (fun _ => ?_)
  · simp only [List.forall_mem_cons, List.not_mem_nil, false_implies, implies_true, and_true]
    omega
  · refine .bind (.ite (fun _ => ?_) (fun _ => .pure _))
      (fun _ => .bind allows.setSummary (fun _ => .pure _))
    exact dhcpOptions_keeps allows _ low fits (by omega) (by omega)

theorem dissectSip_keeps (allows : Allows lo hi I) (low : lo = 0) (fits : data.length ≤ hi) :
    Keeps I (dissectSip parent data) := by
  refine .bind (allows.setFlags (fun _ => ⟨rfl, rfl, rfl⟩)) (fun _ => ?_)
  refine .bind allows.setSummary (fun _ => .bind allows.setSummary (fun _ => ?_))
  exact allows.addField (by omega)

theorem looksLikeRtp_ok (payload : Bytes) :
    looksLikeRtp payload = .ok (12 ≤ payload.length && octet payload 0 >>> 6 == 2) := by
  unfold looksLikeRtp
  split
  · next short => simp [Nat.not_le.mpr short]
  · next long =>
    rw [byteAt_ok (by omega)]
    simp [Nat.le_of_not_lt long]

theorem dissectRtp_keeps (allows : Allows lo hi I) (low : lo = 0) (fits : data.length ≤ hi) :
    Keeps I (dissectRtp parent data) := by
  refine onlyIf_keeps (fun long => ?_)
  simp (disch := omega) only [byteAt_ok, readBE_ok, read_ok, pure_bind]
  refine .bind (allows.setFlags (fun _ => ⟨rfl, rfl, rfl⟩)) (fun _ => ?_)
  refine .bind allows.setSummary (fun _ => .bind allows.setSummary (fun _ => ?_))
  exact allows.addField (by omega)

end

end BitBeak
