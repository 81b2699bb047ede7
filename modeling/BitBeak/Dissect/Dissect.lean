import BitBeak.Dissect.L2
import BitBeak.Dissect.Expert

/-! The dissector as a whole, without a key log: the tree and labels of every frame, expert
notes and display fields. -/
namespace BitBeak
open Wire Dissector

abbrev DisplayFields := List (String × String)

/-- A key inserted again loses its old value. -/
def DisplayFields.insert (fields : DisplayFields) (key value : String) : DisplayFields :=
  fields.filter (fun field => field.1 ≠ key) ++ [(key, value)]

/- The TLS client random, found by a walk of its own over the frame. -/

/-- Where the IP header starts and how long it is. -/
def ipHeaderAt (data : Bytes) (linkType : LinkType) : Except Fault (Option (Nat × Nat)) := do
  let ihlAt (off : Nat) : Except Fault Nat := do return ((← byteAt data off) &&& 0x0f).toNat * 4
  match linkType with
  | .ethernet | .unknown _ =>
    if data.length < 14 then return none
    else
      let et ← readBE data 12 2
      if et = 0x8100 ∧ 18 ≤ data.length then
        if (← readBE data 16 2) ≠ 0x0800 then return none else return some (18, ← ihlAt 18)
      else if et ≠ 0x0800 then return none
      else return some (14, ← ihlAt 14)
  | .linuxSll => if data.length < 36 then return none else return some (16, ← ihlAt 16)
  | .raw | .null => if data = [] then return none else return some (0, ← ihlAt 0)
  | _ => return none

def l4Payload (data : Bytes) (linkType : LinkType) : Except Fault (Option Bytes) := do
  match ← ipHeaderAt data linkType with
  | none => return none
  | some (ipOff, ihl) =>
    let tcpOff := ipOff + ihl
    if data.length < tcpOff + 20 then return none
    else
      let payloadOff := tcpOff + ((← byteAt data (tcpOff + 12)) >>> 4).toNat * 4
      if data.length < payloadOff then return none else return some (← sliceFrom data payloadOff)

def findTlsPayload (data : Bytes) (linkType : LinkType) : Except Fault (Option Bytes) := do
  match ← l4Payload data linkType with
  | none => return none
  | some l4 =>
    return if [0x16, 0x03].isPrefixOf l4 ∨ [0x17, 0x03].isPrefixOf l4 then some l4 else none

def TlsMessage.clientRandom? : TlsMessage → Option Bytes
  | .handshake (.clientHello random _) => some random
  | _ => none

def clientRandomFrom (crates : Crates) : Nat → Bytes → Except Fault (Option String)
  | 0, _ => .error .outOfFuel
  | fuel + 1, rest =>
    if rest = [] then .ok none
    else match crates.parseTlsPlaintext rest with
      | none => .ok none
      | some (remain, record) =>
        match if record.recordType = .handshake then record.msg.findSome? (·.clientRandom?)
            else none with
        | some random => .ok (some (hexBytes random))
        | none => clientRandomFrom crates fuel remain

def extractClientRandom (crates : Crates) (data : Bytes) (linkType : LinkType) :
    Except Fault (Option String) := do
  match ← findTlsPayload data linkType with
  | none => return none
  | some tls => clientRandomFrom crates (tls.length + 1) tls

def buildFrameProtocols (flags : ProtocolFlags) : String :=
  ":".intercalate (([(flags.ethernet, "eth"), (flags.vlan, "vlan"), (flags.ipv4, "ip"),
    (flags.ipv6, "ipv6"), (flags.tcp, "tcp"), (flags.udp, "udp"), (flags.tls, "tls"),
    (flags.http, "http"), (flags.http2, "http2"), (flags.dns, "dns"), (flags.dhcp, "dhcp"),
    (flags.websocket, "websocket")].filter (·.1)).map (·.2))

def httpFields (info : String) (fields : DisplayFields) : DisplayFields :=
  let fields := match (splitWhitespace info).head? with
    | some method =>
      if ["GET", "POST", "PUT", "HEAD", "DELETE", "OPTIONS", "PATCH"].contains method then
        fields.insert "http.request.method" method
      else fields
    | none => fields
  match (splitWhitespace info)[1]? with
  | some code =>
    if hasPrefix info "HTTP " then fields.insert "http.response.code" code else fields
  | none => fields

def dnsFields (info : String) (fields : DisplayFields) : DisplayFields :=
  match (stripPrefix info "Standard query ").or (stripPrefix info "DNS query ") with
  | some rest => fields.insert "dns.qry.name" rest
  | none => fields

def tlsFields (info : String) (clientRandom : Option String) (fields : DisplayFields) :
    DisplayFields :=
  let fields :=
    if hasText info "ClientHello" then fields.insert "tls.handshake.type" "1"
    else if hasText info "ServerHello" then fields.insert "tls.handshake.type" "2"
    else fields
  match clientRandom with
  | some cr => fields.insert "tls.client_random" cr
  | none => fields

/-- The flags between the first pair of brackets. -/
def tcpFields (info : String) (fields : DisplayFields) : DisplayFields :=
  match (info.toList.splitOn (Char.ofNat 0x5b))[1]? with
  | some rest =>
    let flags := String.ofList (rest.takeWhile (· ≠ Char.ofNat 0x5d))
    fields.insert "tcp.flags.syn" (if hasText flags "SYN" then "1" else "0")
  | none => fields

def populateDisplayFields (crates : Crates) (flags : ProtocolFlags) (summary : PacketSummary)
    (data : Bytes) (linkType : LinkType) : Except Fault DisplayFields := do
  let info := summary.info
  let fields := DisplayFields.insert [] "frame.protocols" (buildFrameProtocols flags)
  let fields := if flags.http then httpFields info fields else fields
  let fields := if flags.dns then dnsFields info fields else fields
  let fields ←
    if flags.tls then do
      pure (tlsFields info (← extractClientRandom crates data linkType) fields)
    else pure fields
  return if flags.tcp then tcpFields info fields else fields

structure DissectedPacket where
  tree : ProtoTree
  summary : PacketSummary
  flags : ProtocolFlags
  expert : List ExpertInfo
  payloadOffset : Nat
  payload : Bytes
  decrypted : Option Bytes
  fields : DisplayFields
  /-- Not in the source: the transport header that was read. -/
  transport : Option Transport
  deriving DecidableEq, Repr

def DissectedPacket.labels (d : DissectedPacket) : Labels :=
  { transport := d.transport, tcp := d.flags.tcp, udp := d.flags.udp }

/-- The root of the tree and the layers below it. An empty frame has the root only. -/
def dissectFrame (crates : Crates) (data : Bytes) (linkType : LinkType) :
    Dissector LayerResult := do
  let root ← addRoot s!"Frame ({data.length} bytes)" 0 data.length
  addFields root [("Frame length", 0, data.length)]
  if data = [] then return { payload := [], payloadOffset := 0 }
  else dissectL2 crates root data linkType

/-- `dissect` with no key log. -/
def dissect (crates : Crates) (data : Bytes) (linkType : LinkType) :
    Except Fault DissectedPacket := do
  let summary : PacketSummary :=
    { protocol := "Data", info := s!"{data.length} bytes", len := data.length }
  let (result, s) ← dissectFrame crates data linkType { summary := summary }
  if data = [] then
    return { tree := s.tree, summary := s.summary, flags := s.flags, expert := [],
             payloadOffset := 0, payload := [], decrypted := none, fields := [],
             transport := s.transport }
  else
    let expert ← collectExpert data linkType s.flags s.summary
    let summary :=
      if s.summary.protocol = "Data" ∧ ¬ s.flags.any then
        { s.summary with info := s!"{data.length} bytes" }
      else s.summary
    let fields ← populateDisplayFields crates s.flags summary data linkType
    return { tree := s.tree, summary := summary, flags := s.flags, expert := expert,
             payloadOffset := result.payloadOffset, payload := result.payload,
             decrypted := none, fields := fields, transport := s.transport }

section

variable {crates : Crates} {data : Bytes} {linkType : LinkType}

/-- A header length is read from a frame that has room for a transport header only. -/
theorem ipHeaderAt_ok (linkType : LinkType) (room : 20 ≤ data.length) :
    ∃ found, ipHeaderAt data linkType = .ok found := by
  have ihl : ∀ off < data.length,
      ∃ n, (do return ((← byteAt data off) &&& 0x0f).toNat * 4 : Except Fault Nat) = .ok n := by
    intro off inside
    rw [byteAt_ok inside]
    exact ⟨_, rfl⟩
  have ethernet : ∃ found, ipHeaderAt data .ethernet = .ok found := by
    unfold ipHeaderAt
    dsimp only
    rw [if_neg (by omega), readBE_ok (by omega), ok_bind]
    split
    · rw [readBE_ok (by omega), ok_bind]
      split
      · exact ⟨_, rfl⟩
      · obtain ⟨n, known⟩ := ihl 18 (by omega)
        rw [known]
        exact ⟨_, rfl⟩
    · split
      · exact ⟨_, rfl⟩
      · obtain ⟨n, known⟩ := ihl 14 (by omega)
        rw [known]
        exact ⟨_, rfl⟩
  cases linkType with
  | ethernet => exact ethernet
  | unknown v => exact ethernet
  | linuxSll =>
    unfold ipHeaderAt
    dsimp only
    split
    · exact ⟨_, rfl⟩
    · obtain ⟨n, known⟩ := ihl 16 (by omega)
      rw [known]
      exact ⟨_, rfl⟩
  | raw =>
    unfold ipHeaderAt
    dsimp only
    obtain ⟨n, known⟩ := ihl 0 (by omega)
    rw [known]
    split <;> exact ⟨_, rfl⟩
  | null =>
    unfold ipHeaderAt
    dsimp only
    obtain ⟨n, known⟩ := ihl 0 (by omega)
    rw [known]
    split <;> exact ⟨_, rfl⟩
  | _ => exact ⟨_, rfl⟩

theorem l4Payload_ok (linkType : LinkType) (room : 20 ≤ data.length) :
    ∃ found, l4Payload data linkType = .ok found := by
  obtain ⟨header, known⟩ := ipHeaderAt_ok linkType room
  unfold l4Payload
  rw [known, ok_bind]
  cases header with
  | none => exact ⟨none, rfl⟩
  | some header =>
    dsimp only
    split
    · exact ⟨none, rfl⟩
    · rw [byteAt_ok (by omega), ok_bind]
      split
      · exact ⟨none, rfl⟩
      · rw [sliceFrom_ok (by omega)]
        exact ⟨_, rfl⟩

theorem clientRandomFrom_ok (contract : crates.Contract) {fuel : Nat} {rest : Bytes}
    (enough : rest.length < fuel) : ∃ random, clientRandomFrom crates fuel rest = .ok random := by
  induction fuel generalizing rest with
  | zero => omega
  | succ fuel ih =>
    unfold clientRandomFrom
    split
    · exact ⟨none, rfl⟩
    · split
      · exact ⟨none, rfl⟩
      · next remain record parsed =>
        obtain ⟨header, whole, long⟩ := contract.tls rest remain record parsed
        have shorter : remain.length < rest.length := by
          rw [whole, List.length_append]
          omega
        generalize (if record.recordType = .handshake then
          record.msg.findSome? (·.clientRandom?) else none) = random
        cases random with
        | some random => exact ⟨_, rfl⟩
        | none => exact ih (by omega)

theorem extractClientRandom_ok (contract : crates.Contract) (linkType : LinkType) (room : 20 ≤ data.length) :
    ∃ random, extractClientRandom crates data linkType = .ok random := by
  obtain ⟨l4, known⟩ := l4Payload_ok linkType room
  have tls : ∃ found, findTlsPayload data linkType = .ok found := by
    unfold findTlsPayload
    rw [known]
    cases l4 with
    | none => exact ⟨none, rfl⟩
    | some l4 => exact ⟨_, rfl⟩
  obtain ⟨tls, known⟩ := tls
  unfold extractClientRandom
  rw [known, ok_bind]
  cases tls with
  | none => exact ⟨none, rfl⟩
  | some tls => exact clientRandomFrom_ok contract (by omega)

theorem populateDisplayFields_ok (contract : crates.Contract) (linkType : LinkType)
    {flags : ProtocolFlags} (summary : PacketSummary) (room : flags.tls = true → 20 ≤ data.length) :
    ∃ fields, populateDisplayFields crates flags summary data linkType = .ok fields := by
  unfold populateDisplayFields
  dsimp only
  split
  · next tls =>
    obtain ⟨random, known⟩ := extractClientRandom_ok contract linkType (room tls)
    rw [known]
    exact ⟨_, rfl⟩
  · exact ⟨_, rfl⟩

theorem frameLabels_nil (linkType : LinkType) : frameLabels linkType [] = {} := by
  cases linkType <;> rfl

theorem dissectFrame_meets (contract : crates.Contract) (linkType : LinkType) :
    Meets (Sound data.length {}) (dissectFrame crates data linkType)
      (fun _ => Sound data.length (frameLabels linkType data)) := by
  refine .bind (addRoot_keeps (by omega)) (fun root => ?_)
  refine .bind (Sound.admits.addField (by omega)) (fun _ => .ite (fun empty => ?_) (fun _ => ?_))
  · rw [empty, frameLabels_nil]
    exact .pure (fun _ sound => sound)
  · exact dissectL2_meets contract linkType (Nat.le_refl _)

/-- Every frame is dissected, into nodes inside the frame and the labels of its headers. -/
theorem dissect_ok (contract : crates.Contract) (data : Bytes) (linkType : LinkType) :
    ∃ d, dissect crates data linkType = .ok d ∧ d.tree.Inside data.length ∧
      d.labels = frameLabels linkType data := by
  have fresh : ∀ summary : PacketSummary, Sound data.length {} { summary := summary } := by
    intro summary
    refine ⟨ProtoTree.inside_empty _, rfl, ?_⟩
    intro impossible
    cases impossible
  obtain ⟨result, s, run, sound⟩ := dissectFrame_meets contract linkType _
    (fresh { protocol := "Data", info := s!"{data.length} bytes", len := data.length })
  unfold dissect
  dsimp only
  rw [run, ok_bind]
  dsimp only
  split
  · exact ⟨_, rfl, sound.inside, sound.labelled⟩
  · obtain ⟨expert, noted⟩ := collectExpert_ok data linkType s.flags s.summary
    rw [noted, ok_bind]
    obtain ⟨fields, filled⟩ := populateDisplayFields_ok contract linkType
      (if s.summary.protocol = "Data" ∧ ¬ s.flags.any then
        { s.summary with info := s!"{data.length} bytes" } else s.summary) sound.tls
    simp only [filled, ok_bind]
    exact ⟨_, rfl, sound.inside, sound.labelled⟩

end

/-- The dissector ends normally on every frame of every link type, and every node of its tree
is a range of the frame. -/
theorem dissect_total_inside_frame (crates : Crates) (contract : crates.Contract) (data : Bytes)
    (linkType : LinkType) : ∃ d, dissect crates data linkType = .ok d ∧
      ∀ node ∈ d.tree.nodes, node.offset + node.len ≤ data.length := by
  obtain ⟨d, done, inside, _⟩ := dissect_ok contract data linkType
  exact ⟨d, done, inside⟩

/-- Packages that refuse every input. -/
def refusingCrates : Crates where
  parseTlsPlaintext _ := none
  parseRequest _ := none
  parseResponse _ := none
  dnsMessage _ := none
  hpackDecode _ _ := none
  hmacSha256 _ _ := []
  hkdfExpand _ _ _ := none
  aes128 _ _ := none
  aes128GcmOpen _ _ _ _ := none

theorem refusingCrates_contract : refusingCrates.Contract := by
  constructor <;> intros <;> contradiction

/-- A DNS message of three octets over UDP, which is malformed. -/
def shortDnsFrame : Bytes :=
  List.replicate 12 0 ++ [0x08, 0x00, 0x45, 0, 0, 31] ++ [0, 1, 0, 0, 64, 17, 0, 0] ++
    [10, 0, 0, 1, 10, 0, 0, 2] ++ [0, 53, 0, 53, 0, 11, 0, 0, 1, 2, 3]

theorem dissect_short_dns : ∃ d, dissect refusingCrates shortDnsFrame .ethernet = .ok d ∧
    ∀ node ∈ d.tree.nodes, node.offset + node.len ≤ shortDnsFrame.length :=
  dissect_total_inside_frame refusingCrates refusingCrates_contract shortDnsFrame .ethernet

end BitBeak
