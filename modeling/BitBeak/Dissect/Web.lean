import BitBeak.Dissect.Crates
import BitBeak.Dissect.Dissection
import BitBeak.Dissect.Text

/-! HTTP/1.x, HTTP/2 and WebSocket in a TCP payload. -/
namespace BitBeak
open Wire Dissector

/-- The tree and the result of a complete head of `n` octets. -/
def httpHead (sec : Nat) (data : Bytes) (offset n : Nat) (line : String) (headers : List String)
    (info : String) : Dissector LayerResult := do
  let _ ← addChild sec line offset (min n data.length)
  addFields sec (headers.map fun name => (name, offset, 0))
  setInfo info
  let body ← tailOrEmpty data n
  onlyIf (body ≠ []) (addFields sec [("Body", offset + n, body.length)])
  return { payload := body, payloadOffset := offset + n }

def dissectHttp1 (crates : Crates) (parent : Nat) (data : Bytes) (offset : Nat) :
    Dissector LayerResult := do
  setFlags fun f => { f with http := true }
  setProtocol "HTTP"
  let sec ← addSection parent "Hypertext Transfer Protocol" offset data.length
  match crates.parseRequest data with
  | some req =>
    httpHead sec data offset req.length "Request Line" req.headers
      (req.method.getD "?" ++ " " ++ req.path.getD "/")
  | none =>
    match crates.parseResponse data with
    | some resp =>
      httpHead sec data offset resp.length "Status Line" resp.headers
        (s!"HTTP {resp.code.getD 0} " ++ resp.reason.getD "")
    | none => do
      let _ ← addChild sec "Data" offset data.length
      setInfo "HTTP (partial)"
      return { payload := data, payloadOffset := offset }

def http2Preface : Bytes := "PRI * HTTP/2.0\r\n\r\nSM\r\n\r\n".toUTF8.toList

def frameTypeName : Nat → String
  | 0x00 => "DATA"
  | 0x01 => "HEADERS"
  | 0x02 => "PRIORITY"
  | 0x03 => "RST_STREAM"
  | 0x04 => "SETTINGS"
  | 0x05 => "PUSH_PROMISE"
  | 0x06 => "PING"
  | 0x07 => "GOAWAY"
  | 0x08 => "WINDOW_UPDATE"
  | 0x09 => "CONTINUATION"
  | _ => "UNKNOWN"

/-- The children of one frame whose payload starts at `at_`; `blocks` are the header blocks
the decoder has read, and come back with this frame's. -/
def http2Payload (crates : Crates) (frame at_ : Nat) (typ fl : UInt8) (payload : Bytes)
    (blocks : List Bytes) : Dissector (List Bytes) := do
  if typ = 0x01 then
    let start := if fl &&& 0x20 ≠ 0 ∧ 5 ≤ payload.length then 5 else 0
    if start < payload.length then
      let block ← sliceFrom payload start
      addFields frame (match crates.hpackDecode blocks block with
        | some headers => headers.map fun name => (name, at_, 0)
        | none => [("HEADERS", at_, payload.length)])
      return blocks ++ [block]
    else return blocks
  else if typ = 0x00 then
    let _ ← addChild frame "DATA" at_ payload.length
    return blocks
  else return blocks

def http2Frames (crates : Crates) (parent sec : Nat) (data : Bytes) (offset : Nat) :
    Nat → Nat → List Bytes → List String → Dissector (List String)
  | 0, _, _, _ => liftM (.error .outOfFuel : Except Fault (List String))
  | fuel + 1, cur, blocks, infos =>
    if cur + 9 ≤ data.length then do
      let len ← readBE data cur 3
      let typ ← byteAt data (cur + 3)
      let fl ← byteAt data (cur + 4)
      let stream := (← readBE data (cur + 5) 4) % 2 ^ 31
      let frameEnd := cur + 9 + len
      if data.length < frameEnd then
        let _ ← addChild sec "Truncated frame" (offset + cur) (← checkedSub data.length cur)
        return infos
      else
        let name := frameTypeName typ.toNat
        let frame ← addSection parent ("HTTP2 " ++ name) (offset + cur) (9 + len)
        addFields frame [("Length", offset + cur, 3), ("Type", offset + cur + 3, 1),
          ("Flags", offset + cur + 4, 1), ("Stream", offset + cur + 5, 4)]
        let payload ← slice data (cur + 9) frameEnd
        let blocks ← http2Payload crates frame (offset + cur + 9) typ fl payload blocks
        http2Frames crates parent sec data offset fuel frameEnd blocks
          (infos ++ [name ++ s!" sid={stream}"])
    else return infos

def dissectHttp2 (crates : Crates) (parent : Nat) (data : Bytes) (offset : Nat) :
    Dissector LayerResult := do
  setFlags fun f => { f with http2 := true }
  setProtocol "HTTP2"
  let sec ← addSection parent "HyperText Transfer Protocol 2" offset data.length
  let prefaced := http2Preface.isPrefixOf data
  onlyIf prefaced (addFields sec [("Connection Preface", offset, http2Preface.length)])
  let infos ← http2Frames crates parent sec data offset (data.length + 1)
    (if prefaced then http2Preface.length else 0) [] []
  setInfo (if infos = [] then "HTTP/2" else "HTTP/2 " ++ ", ".intercalate infos)
  return { payload := [], payloadOffset := offset + data.length }

def wsOpName (opcode : UInt8) : String :=
  if opcode = 0x0 then "Continuation"
  else if opcode = 0x1 then "Text"
  else if opcode = 0x2 then "Binary"
  else if opcode = 0x8 then "Close"
  else if opcode = 0x9 then "Ping"
  else if opcode = 0xa then "Pong"
  else "Unknown"

/-- The payload length and the length of the header without its mask. -/
def wsLength (data : Bytes) (short : Nat) : Except Fault (Nat × Nat) := do
  if short = 126 ∧ 4 ≤ data.length then return (← readBE data 2 2, 4)
  else if short = 127 ∧ 10 ≤ data.length then return (← readBE data 2 8, 10)
  else return (short, 2)

def dissectWebsocket (parent : Nat) (data : Bytes) (offset : Nat) : Dissector LayerResult := do
  setFlags fun f => { f with websocket := true }
  setProtocol "WebSocket"
  if data.length < 2 then return { payload := data, payloadOffset := offset }
  else
    let sec ← addSection parent "WebSocket" offset data.length
    let opcode := (← byteAt data 0) &&& 0x0f
    let second ← byteAt data 1
    let masked := second &&& 0x80 ≠ 0
    let short := (second &&& 0x7f).toNat
    let (plen, hdr) ← wsLength data short
    let hdr := if masked then hdr + 4 else hdr
    addFields sec [("FIN", offset, 1), ("Opcode", offset, 1), ("Masked", offset + 1, 1),
      ("Payload length", offset + 1, 1)]
    setInfo ("WebSocket " ++ wsOpName opcode ++ s!" len={plen}")
    return { payload := ← tailOrEmpty data hdr, payloadOffset := offset + hdr }

section

variable {lo hi : Nat} {I : Dissection → Prop} {parent offset : Nat} {data : Bytes}

theorem httpHead_keeps (allows : Allows lo hi I) {sec n : Nat} {line info : String}
    {headers : List String} (low : lo ≤ offset) (fits : offset + data.length ≤ hi) (complete : n ≤ data.length) :
    Keeps I (httpHead sec data offset n line headers info) := by
  unfold httpHead
  simp only [tailOrEmpty_ok, read_ok, pure_bind]
  refine .bind (allows.addChild (by omega)) (fun _ => ?_)
  refine .bind (allows.addFields ?_) (fun _ => .bind allows.setSummary (fun _ => ?_))
  · intro field member
    obtain ⟨name, _, rfl⟩ := List.mem_map.mp member
    dsimp only
    omega
  · refine .bind (onlyIf_keeps (fun _ => allows.addField ?_)) (fun _ => .pure _)
    rw [List.length_drop]
    omega

theorem dissectHttp1_keeps (allows : Allows lo hi I) {crates : Crates}
    (contract : crates.Contract) (low : lo ≤ offset) (fits : offset + data.length ≤ hi) :
    Keeps I (dissectHttp1 crates parent data offset) := by
  refine .bind (allows.setFlags (fun _ => ⟨rfl, rfl, rfl⟩)) (fun _ => ?_)
  refine .bind allows.setSummary (fun _ => .bind (allows.addSection ⟨low, fits⟩) (fun sec => ?_))
  cases request : crates.parseRequest data with
  | some req => exact httpHead_keeps allows low fits (contract.request data req request)
  | none =>
    cases response : crates.parseResponse data with
    | some resp => exact httpHead_keeps allows low fits (contract.response data resp response)
    | none =>
      exact .bind (allows.addChild ⟨low, fits⟩)
        (fun _ => .bind allows.setSummary (fun _ => .pure _))

theorem http2Payload_keeps (allows : Allows lo hi I) {crates : Crates} {frame at_ : Nat}
    {typ fl : UInt8} {payload : Bytes} {blocks : List Bytes} (low : lo ≤ at_)
    (fits : at_ + payload.length ≤ hi) :
    Keeps I (http2Payload crates frame at_ typ fl payload blocks) := by
  unfold http2Payload
  refine .ite (fun _ => ?_) (fun _ => .ite (fun _ => ?_) (fun _ => .pure _))
  · dsimp only
    refine .ite (fun inside => ?_) (fun _ => .pure _)
    rw [sliceFrom_ok (Nat.le_of_lt inside), read_ok, pure_bind]
    refine .bind ?_ (fun _ => .pure _)
    split
    · apply allows.addFields
      intro field member
      obtain ⟨name, _, rfl⟩ := List.mem_map.mp member
      dsimp only
      omega
    · exact allows.addField ⟨low, fits⟩
  · exact .bind (allows.addChild ⟨low, fits⟩) (fun _ => .pure _)

theorem http2Frames_keeps (allows : Allows lo hi I) {crates : Crates} {sec fuel cur : Nat}
    (blocks : List Bytes) (infos : List String) (low : lo ≤ offset)
    (fits : offset + data.length ≤ hi) (inside : cur ≤ data.length) (enough : data.length < cur + fuel) :
    Keeps I (http2Frames crates parent sec data offset fuel cur blocks infos) := by
  induction fuel generalizing cur blocks infos with
  | zero => omega
  | succ fuel ih =>
    unfold http2Frames
    refine .ite (fun header => ?_) (fun _ => .pure _)
    simp (disch := omega) only [readBE_ok, byteAt_ok, read_ok, pure_bind]
    refine .ite (fun _ => ?_) (fun whole => ?_)
    · rw [checkedSub_ok inside, read_ok, pure_bind]
      exact .bind (allows.addChild (by omega)) (fun _ => .pure _)
    · have payload := Nat.le_of_not_lt whole
      refine .bind (allows.addSection (by omega)) (fun frame => ?_)
      refine .bind (allows.addFields ?_) (fun _ => ?_)
      · simp only [List.forall_mem_cons, List.not_mem_nil, false_implies, implies_true, and_true]
        omega
      · rw [slice_ok (by omega) payload, read_ok, pure_bind]
        refine .bind (http2Payload_keeps allows (by omega) ?_)
          (fun blocks => ih blocks _ payload (by omega))
        rw [length_span payload]
        omega

theorem dissectHttp2_keeps (allows : Allows lo hi I) {crates : Crates} (low : lo ≤ offset)
    (fits : offset + data.length ≤ hi) :
    Keeps I (dissectHttp2 crates parent data offset) := by
  have preface : http2Preface.isPrefixOf data = true → http2Preface.length ≤ data.length := by
    intro prefaced
    exact (List.isPrefixOf_iff_prefix.mp prefaced).length_le
  refine .bind (allows.setFlags (fun _ => ⟨rfl, rfl, rfl⟩)) (fun _ => ?_)
  refine .bind allows.setSummary (fun _ => .bind (allows.addSection ⟨low, fits⟩) (fun sec => ?_))
  refine .bind (onlyIf_keeps (fun prefaced => allows.addField ?_)) (fun _ => ?_)
  · have := preface prefaced
    omega
  · refine .bind (http2Frames_keeps allows [] [] low fits ?_ ?_) (fun infos => ?_)
    · split
      · exact preface ‹_›
      · exact Nat.zero_le _
    · omega
    · exact .bind allows.setSummary (fun _ => .pure _)

theorem wsLength_ok (data : Bytes) (short : Nat) : ∃ lengths, wsLength data short = .ok lengths := by
  unfold wsLength
  split
  · rw [readBE_ok (by omega)]
    exact ⟨_, rfl⟩
  · split
    · rw [readBE_ok (by omega)]
      exact ⟨_, rfl⟩
    · exact ⟨_, rfl⟩

theorem dissectWebsocket_keeps (allows : Allows lo hi I) (low : lo ≤ offset)
    (fits : offset + data.length ≤ hi) :
    Keeps I (dissectWebsocket parent data offset) := by
  refine .bind (allows.setFlags (fun _ => ⟨rfl, rfl, rfl⟩)) (fun _ => ?_)
  refine .bind allows.setSummary (fun _ => .ite (fun _ => .pure _) (fun long => ?_))
  refine .bind (allows.addSection ⟨low, fits⟩) (fun sec => ?_)
  simp (disch := omega) only [byteAt_ok, read_ok, pure_bind, tailOrEmpty_ok]
  obtain ⟨lengths, known⟩ := wsLength_ok data (octet data 1 &&& 0x7f).toNat
  rw [known, read_ok, pure_bind]
  refine .bind (allows.addFields ?_) (fun _ => .bind allows.setSummary (fun _ => .pure _))
  simp only [List.forall_mem_cons, List.not_mem_nil, false_implies, implies_true, and_true]
  omega

end

end BitBeak
