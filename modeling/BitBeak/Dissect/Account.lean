import BitBeak.Capture.EndpointText
import BitBeak.Dissect.Dispatch
import BitBeak.Dissect.Network

/-! What a dissected frame is told to be: its ends, the info of its application and the part of
the frame that is left as payload, by the headers that lead there. -/
namespace BitBeak
open Wire Dissector

/-- The octets of the frame from `offset` on are the given ones. -/
structure At (frame : Bytes) (offset : Nat) (data : Bytes) : Prop where
  inside : offset + data.length ≤ frame.length
  same : data = (frame.drop offset).take data.length

namespace At

variable {frame data : Bytes} {offset : Nat}

theorem whole (frame : Bytes) : At frame 0 frame :=
  ⟨by omega, by rw [List.drop_zero, List.take_length]⟩

theorem nil_iff : At frame offset [] ↔ offset ≤ frame.length :=
  ⟨fun placed => placed.inside, fun inside => ⟨inside, rfl⟩⟩

theorem take (placed : At frame offset data) (n : Nat) : At frame offset (data.take n) := by
  have inside := placed.inside
  refine ⟨by rw [List.length_take]; omega, ?_⟩
  nth_rewrite 1 [placed.same]
  rw [List.take_take, List.length_take]

theorem drop (placed : At frame offset data) {n : Nat} (room : n ≤ data.length) :
    At frame (offset + n) (data.drop n) := by
  have inside := placed.inside
  refine ⟨by rw [List.length_drop]; omega, ?_⟩
  nth_rewrite 1 [placed.same]
  rw [List.drop_take, List.drop_drop, List.length_drop]

theorem from_offset (inside : offset ≤ frame.length) : At frame offset (frame.drop offset) := by
  have rest := (whole frame).drop inside
  rwa [Nat.zero_add] at rest

theorem span (placed : At frame offset data) {i : Nat} (j : Nat) (room : i ≤ data.length) :
    At frame (offset + i) (Wire.span data i j) :=
  (placed.drop room).take _

theorem rest (placed : At frame offset data) {n : Nat} (room : n ≤ data.length) :
    At frame (restFrom offset n data).payloadOffset (restFrom offset n data).payload :=
  placed.drop room

/-- Nothing is left of it. -/
theorem spent (placed : At frame offset data) : At frame (offset + data.length) [] :=
  nil_iff.mpr placed.inside

end At

/- The state in front of the transport layer. -/

/-- The text of an end that may not be known. -/
def MaybeAddress (text : String) : Prop := text = "" ∨ EndAddress text

/-- Nothing of a transport layer or above is noted. -/
structure Untouched (ends : String → Prop) (s : Dissection) : Prop where
  transport : s.transport = none
  tcp : s.flags.tcp = false
  udp : s.flags.udp = false
  tls : s.flags.tls = false
  websocket : s.flags.websocket = false
  src : ends s.summary.src
  dst : ends s.summary.dst

section

variable {ends : String → Prop} {α : Type}

theorem Untouched.weaken {s : Dissection} (untouched : Untouched EndAddress s) :
    Untouched MaybeAddress s :=
  ⟨untouched.transport, untouched.tcp, untouched.udp, untouched.tls, untouched.websocket,
    .inr untouched.src, .inr untouched.dst⟩

theorem untouched_leaves {m : Dissector α} (leaves : Leaves Dissection.told m) :
    Gives (Untouched ends) m (fun _ => Untouched ends) := by
  intro s untouched a t run
  have same := leaves s a t run
  simp only [Dissection.told, Prod.mk.injEq] at same
  obtain ⟨summary, flags, transport⟩ := same
  constructor
  · exact transport ▸ untouched.transport
  · exact flags ▸ untouched.tcp
  · exact flags ▸ untouched.udp
  · exact flags ▸ untouched.tls
  · exact flags ▸ untouched.websocket
  · exact summary ▸ untouched.src
  · exact summary ▸ untouched.dst

theorem untouched_setFlags {change : ProtocolFlags → ProtocolFlags}
    (same : ∀ flags, (change flags).tcp = flags.tcp ∧ (change flags).udp = flags.udp ∧
      (change flags).tls = flags.tls ∧ (change flags).websocket = flags.websocket) :
    Gives (Untouched ends) (setFlags change) (fun _ => Untouched ends) := by
  apply Gives.modify
  intro s untouched
  obtain ⟨tcp, udp, tls, websocket⟩ := same s.flags
  exact ⟨untouched.transport, tcp.trans untouched.tcp, udp.trans untouched.udp,
    tls.trans untouched.tls, websocket.trans untouched.websocket, untouched.src, untouched.dst⟩

theorem untouched_setProtocol {name : String} :
    Gives (Untouched ends) (setProtocol name) (fun _ => Untouched ends) :=
  .modify (fun _ h => ⟨h.transport, h.tcp, h.udp, h.tls, h.websocket, h.src, h.dst⟩)

theorem untouched_setInfo {info : String} :
    Gives (Untouched ends) (setInfo info) (fun _ => Untouched ends) :=
  .modify (fun _ h => ⟨h.transport, h.tcp, h.udp, h.tls, h.websocket, h.src, h.dst⟩)

theorem untouched_setAddresses {before : String → Prop} {src dst : String} (known : ends src)
    (known' : ends dst) :
    Gives (Untouched before) (setAddresses src dst) (fun _ => Untouched ends) :=
  .modify (fun _ h => ⟨h.transport, h.tcp, h.udp, h.tls, h.websocket, known, known'⟩)

end

/- The transport layer. -/

/-- Both ends have an address and the port. -/
structure Ported (sport dport : Nat) (s : Dissection) : Prop where
  src : ∃ a, EndAddress a ∧ s.summary.src = withPort a sport
  dst : ∃ a, EndAddress a ∧ s.summary.dst = withPort a dport

/-- The info of a segment without a payload. -/
def tcpText (data : Bytes) : String :=
  s!"{beAt data 0 2} → {beAt data 2 2} [" ++ formatTcpFlags (octet data 13) ++
    s!"] Seq={beAt data 4 4} Ack={beAt data 8 4} Win={beAt data 14 2} Len={(tcpHeader 0 data).payload.length}"

/-- The application that is recognised in a segment. -/
def Transport.application (seg : Transport) : Option TcpApplication :=
  recognised seg.sport seg.dport seg.payload

/-- The frame is taken apart up to the transport layer, if it has one that can be read. For TCP
the segment is the one the network header leads to. -/
inductive Account (crates : Crates) (frame : Bytes) (segment : Option Bytes) (r : LayerResult)
    (s : Dissection) : Prop where
  | none (untouched : Untouched MaybeAddress s) (placed : At frame r.payloadOffset r.payload)
  | udp (seg : Transport) (noted : s.transport = some seg) (proto : seg.proto = .udp)
      (tcp : s.flags.tcp = false) (udp : s.flags.udp = true)
      (ported : ∃ sport < 2 ^ 16, ∃ dport < 2 ^ 16, Ported sport dport s)
      (placed : At frame r.payloadOffset r.payload)
  | tcp (data : Bytes) (here : segment = some data) (offset : Nat)
      (noted : s.transport = some (tcpHeader offset data)) (tcp : s.flags.tcp = true)
      (udp : s.flags.udp = false)
      (tls : s.flags.tls = decide ((tcpHeader offset data).application = some .tls))
      (ported : Ported (beAt data 0 2) (beAt data 2 2) s)
      (info : InfoOf crates (tcpText data) (tcpHeader offset data).payload s.summary.info
        (tcpHeader offset data).application)
      (result : r = restFrom (tcpHeader offset data).payloadOffset
        (taken crates (tcpHeader offset data).payload (tcpHeader offset data).application)
        (tcpHeader offset data).payload)
      (placed : At frame (tcpHeader offset data).payloadOffset (tcpHeader offset data).payload)

section

variable {crates : Crates} {frame : Bytes} {segment : Option Bytes} {parent offset : Nat}
variable {data : Bytes}

/-- The octets are handed on as they are. -/
theorem account_whole (placed : At frame offset data) :
    Gives (Untouched MaybeAddress)
      (pure { payload := data, payloadOffset := offset } : Dissector LayerResult)
      (Account crates frame segment) :=
  .pure (fun _ untouched => .none untouched placed)

theorem account_spent (placed : At frame offset data) :
    Gives (Untouched MaybeAddress)
      (pure { payload := [], payloadOffset := offset + data.length } : Dissector LayerResult)
      (Account crates frame segment) :=
  .pure (fun _ untouched => .none untouched placed.spent)

/-- The header of a transport layer is being read. -/
structure Opened (tcp udp : Bool) (s : Dissection) : Prop where
  tcp : s.flags.tcp = tcp
  udp : s.flags.udp = udp
  tls : s.flags.tls = false
  websocket : s.flags.websocket = false
  src : EndAddress s.summary.src
  dst : EndAddress s.summary.dst

theorem opened_leaves {α : Type} {m : Dissector α} {tcp udp : Bool}
    (leaves : Leaves Dissection.told m) :
    Gives (Opened tcp udp) m (fun _ => Opened tcp udp) := by
  intro s opened a t run
  have same := leaves s a t run
  simp only [Dissection.told, Prod.mk.injEq] at same
  obtain ⟨summary, flags, _⟩ := same
  constructor
  · exact flags ▸ opened.tcp
  · exact flags ▸ opened.udp
  · exact flags ▸ opened.tls
  · exact flags ▸ opened.websocket
  · exact summary ▸ opened.src
  · exact summary ▸ opened.dst

/-- The state once the header is noted. -/
def Dissection.sent (header : Transport) (name info : String) (s : Dissection) : Dissection :=
  { s with
    transport := some header
    summary :=
      { s.summary with
        src := withPort s.summary.src header.sport
        dst := withPort s.summary.dst header.dport
        protocol := name
        info := info } }

theorem Opened.ported {tcp udp : Bool} {s : Dissection} (opened : Opened tcp udp s)
    (header : Transport) (name info : String) :
    Ported header.sport header.dport (s.sent header name info) :=
  ⟨⟨_, opened.src, rfl⟩, ⟨_, opened.dst, rfl⟩⟩

/-- The application does not change what is noted of the header. -/
theorem tcpApplication_account {own : Dissection} (opened : Opened true false own)
    (nonempty : (tcpHeader offset data).payload ≠ [])
    (placed : At frame (tcpHeader offset data).payloadOffset (tcpHeader offset data).payload) :
    Gives (fun s => s = own.sent (tcpHeader offset data) "TCP" (tcpText data))
      (tcpApplication crates parent (tcpHeader offset data).sport (tcpHeader offset data).dport
        (tcpHeader offset data).payload (tcpHeader offset data).payloadOffset)
      (Account crates frame (some data)) := by
  rintro s rfl r t run
  have fresh : (own.sent (tcpHeader offset data) "TCP" (tcpText data)).flags.websocket = false ∧
      (own.sent (tcpHeader offset data) "TCP" (tcpText data)).summary.info = tcpText data ∧
      (own.sent (tcpHeader offset data) "TCP" (tcpText data)).ends
        = (own.sent (tcpHeader offset data) "TCP" (tcpText data)).ends :=
    ⟨opened.websocket, rfl, rfl⟩
  obtain ⟨⟨result, info⟩, kept⟩ := tcpApplication_gives nonempty _ _ _ fresh r t run
  have ported := opened.ported (tcpHeader offset data) "TCP" (tcpText data)
  have told : t.summary.src = withPort own.summary.src (beAt data 0 2) ∧
      t.summary.dst = withPort own.summary.dst (beAt data 2 2) ∧ t.flags.tcp = own.flags.tcp ∧
      t.flags.udp = own.flags.udp ∧ t.transport = some (tcpHeader offset data) ∧
      t.flags.tls = (own.flags.tls || decide ((tcpHeader offset data).application = some .tls)) := by
    change t.ends = Ends.with _ (tcpHeader offset data).application at kept
    unfold Ends.with at kept
    by_cases tls : (tcpHeader offset data).application = some .tls
    · rw [if_pos tls] at kept
      simp only [Dissection.ends, Ends.mk.injEq] at kept
      obtain ⟨src, dst, tcp, udp, marked, transport⟩ := kept
      exact ⟨src, dst, tcp, udp, transport, by simp [marked, tls]⟩
    · rw [if_neg tls] at kept
      simp only [Dissection.ends, Ends.mk.injEq] at kept
      obtain ⟨src, dst, tcp, udp, marked, transport⟩ := kept
      exact ⟨src, dst, tcp, udp, transport, by simp [marked, tls, Dissection.sent]⟩
  obtain ⟨src, dst, tcp, udp, transport, tls⟩ := told
  apply Account.tcp data rfl offset transport (tcp.trans opened.tcp) (udp.trans opened.udp)
  · rw [tls, opened.tls, Bool.false_or]
  · exact ⟨src ▸ ported.src, dst ▸ ported.dst⟩
  · exact info
  · exact result
  · exact placed

theorem dissectTcp_gives (placed : At frame offset data) :
    Gives (Untouched EndAddress) (dissectTcp crates parent data offset)
      (Account crates frame (some data)) := by
  unfold dissectTcp
  refine .ite (fun _ => ?_) (fun long => ?_)
  · exact (account_whole placed).mono (fun _ h => h.weaken) (fun _ _ h => h)
  refine .bind (R := fun _ => Opened true false) (.modify (fun _ h => ?_)) (fun _ => ?_)
  · exact ⟨rfl, h.udp, h.tls, h.websocket, h.src, h.dst⟩
  simp (disch := omega) only [readBE_ok, byteAt_ok, tailOrEmpty_ok, read_ok, pure_bind]
  refine .bind (opened_leaves addSection_leaves) (fun sec => ?_)
  refine .bind (opened_leaves addFields_leaves) (fun _ => ?_)
  refine .bind (opened_leaves (onlyIf_leaves fun _ => ?_)) (fun _ => ?_)
  · exact .bind (.lift _) (fun len => addFields_leaves)
  have header : At frame (tcpHeader offset data).payloadOffset (tcpHeader offset data).payload :=
    placed.drop (Nat.min_le_right _ _)
  intro own opened r t run
  -- Four updates stand in front of the application.
  have rest : Gives (fun s => s = own.sent (tcpHeader offset data) "TCP" (tcpText data))
      (if (tcpHeader offset data).payload = [] then
        pure { payload := (tcpHeader offset data).payload,
               payloadOffset := (tcpHeader offset data).payloadOffset }
      else tcpApplication crates parent (tcpHeader offset data).sport (tcpHeader offset data).dport
        (tcpHeader offset data).payload (tcpHeader offset data).payloadOffset)
      (Account crates frame (some data)) := by
    refine .ite (fun empty => .pure ?_) (fun nonempty => tcpApplication_account opened nonempty header)
    rintro s rfl
    have nothing : (tcpHeader offset data).application = none := if_pos empty
    apply Account.tcp data rfl offset
    · rfl
    · exact opened.tcp
    · exact opened.udp
    · rw [nothing]
      exact opened.tls
    · exact opened.ported (tcpHeader offset data) _ _
    · rw [nothing]
      rfl
    · rw [nothing]
      rfl
    · exact header
  exact rest _ rfl r t run

theorem dissectUdp_gives (placed : At frame offset data) :
    Gives (Untouched EndAddress) (dissectUdp crates parent data offset)
      (Account crates frame segment) := by
  unfold dissectUdp
  refine .ite (fun _ => ?_) (fun long => ?_)
  · exact (account_whole placed).mono (fun _ h => h.weaken) (fun _ _ h => h)
  refine .bind (R := fun _ => Opened false true) (.modify (fun _ h => ?_)) (fun _ => ?_)
  · exact ⟨h.tcp, rfl, h.tls, h.websocket, h.src, h.dst⟩
  simp (disch := omega) only [readBE_ok, sliceFrom_ok, read_ok, pure_bind]
  refine .bind (opened_leaves addSection_leaves) (fun sec => ?_)
  refine .bind (opened_leaves addFields_leaves) (fun _ => ?_)
  have payload : At frame (offset + 8) (data.drop 8) := placed.drop (by omega)
  intro own opened r t run
  let info := s!"{beAt data 0 2} → {beAt data 2 2} Len={(data.drop 8).length}"
  have ported := opened.ported (udpHeader offset data) "UDP" info
  have run : udpApplication crates parent (beAt data 0 2) (beAt data 2 2) (data.drop 8) (offset + 8)
      (own.sent (udpHeader offset data) "UDP" info) = .ok (r, t) := run
  have kept := udpApplication_leaves _ _ _ run
  have result := udpApplication_gives (P := fun _ => True) _ trivial r t run
  simp only [Dissection.ends, Ends.mk.injEq] at kept
  obtain ⟨src, dst, tcp, udp, _, transport⟩ := kept
  apply Account.udp _ transport rfl (tcp.trans opened.tcp) (udp.trans opened.udp)
  · refine ⟨_, beAt_lt data 0 2, _, beAt_lt data 2 2, ?_⟩
    exact ⟨src ▸ ported.src, dst ▸ ported.dst⟩
  · rcases result with rfl | rfl
    · exact payload.rest (Nat.zero_le _)
    · exact payload.rest (Nat.le_refl _)

/- The network layer. -/

theorem dissectIcmp_gives (placed : At frame offset data) :
    Gives (Untouched MaybeAddress) (dissectIcmp parent data offset)
      (Account crates frame segment) := by
  refine .bind (untouched_setFlags (fun _ => ⟨rfl, rfl, rfl, rfl⟩)) (fun _ => ?_)
  refine .bind untouched_setProtocol (fun _ => .ite (fun _ => account_whole placed) (fun long => ?_))
  simp (disch := omega) only [byteAt_ok, read_ok, pure_bind]
  refine .bind (untouched_leaves addSection_leaves) (fun sec => ?_)
  refine .bind (untouched_leaves addFields_leaves) (fun _ => .ite (fun echo => ?_) (fun _ => ?_))
  · simp (disch := omega) only [readBE_ok, read_ok, pure_bind]
    refine .bind (untouched_leaves addFields_leaves) (fun _ => ?_)
    exact .bind untouched_setInfo (fun _ => account_spent placed)
  · exact .bind untouched_setInfo (fun _ => account_spent placed)

end

/-- The TCP segment in an IPv4 datagram. -/
def ipv4Segment (data : Bytes) : Option Bytes :=
  if data.length < 20 ∨ headerLength data < 20 ∨ data.length < headerLength data then none
  else if octet data 9 = 6 then some (ipv4Payload data (headerLength data))
  else none

/-- The TCP segment in an IPv6 packet. -/
def ipv6Segment (data : Bytes) : Option Bytes :=
  let (next, cursor) := extensionsEnd data (data.length + 1) (octet data 6) 40
  if data.length < 40 then none
  else if next = 6 then some (data.drop cursor)
  else none

def networkSegment (data : Bytes) : Option (Nat × Nat) → Option Bytes
  | none => none
  | some (version, off) =>
    if version = 4 then ipv4Segment (data.drop off) else ipv6Segment (data.drop off)

/-- The TCP segment that the headers of a frame lead to. -/
def tcpSegment (linkType : LinkType) (data : Bytes) : Option Bytes :=
  networkSegment data (networkAt linkType data)

section

variable {crates : Crates} {frame : Bytes} {parent offset : Nat} {data : Bytes}

theorem dissectIpv4_gives (placed : At frame offset data) :
    Gives (Untouched MaybeAddress) (dissectIpv4 crates parent data offset)
      (Account crates frame (ipv4Segment data)) := by
  unfold dissectIpv4
  refine .ite (fun _ => account_whole placed) (fun long => ?_)
  refine .bind (untouched_setFlags (fun _ => ⟨rfl, rfl, rfl, rfl⟩)) (fun _ => ?_)
  rw [byteAt_ok (by omega), read_ok, pure_bind]
  refine .ite (fun _ => account_whole placed) (fun room => ?_)
  have header : ¬ (headerLength data < 20 ∨ data.length < headerLength data) := room
  simp (disch := omega) only [readBE_ok, byteAt_ok, slice_ok, read_ok, pure_bind]
  refine .bind (untouched_leaves addSection_leaves) (fun sec => ?_)
  refine .bind (untouched_leaves addFields_leaves) (fun _ => ?_)
  have address : ∀ i, i + 4 ≤ data.length → EndAddress (dotted (span data i (i + 4))) := by
    intro i room
    apply endAddress_dotted
    rw [length_span room]
    omega
  refine .bind (untouched_setAddresses (address 12 (by omega)) (address 16 (by omega))) (fun _ => ?_)
  refine .bind untouched_setProtocol (fun _ => ?_)
  have here : ipv4Segment data =
      if octet data 9 = 6 then some (ipv4Payload data (headerLength data)) else none :=
    if_neg (by omega)
  have payload : At frame (offset + headerLength data) (ipv4Payload data (headerLength data)) :=
    placed.span _ (by omega)
  refine .ite (fun _ => ?_) (fun _ => ?_)
  · exact (dissectIcmp_gives payload).mono (fun _ h => h.weaken) (fun _ _ h => h)
  refine .ite (fun tcp => ?_) (fun _ => ?_)
  · rw [here, if_pos tcp]
    exact dissectTcp_gives payload
  refine .ite (fun _ => dissectUdp_gives payload) (fun _ => .bind untouched_setInfo (fun _ => ?_))
  exact (account_whole payload).mono (fun _ h => h.weaken) (fun _ _ h => h)

theorem icmpv6Body_gives {inner : Nat → Bytes → Nat → Dissector LayerResult} {sec : Nat}
    {typ code : UInt8} {ends : String → Prop} :
    Gives (Untouched ends) (icmpv6Body inner sec data offset typ code)
      (fun _ => Untouched ends) := by
  unfold icmpv6Body
  refine .ite (fun _ => .read (fun id _ => .read (fun seq _ => ?_))) (fun _ => ?_)
  · exact .bind (untouched_leaves addFields_leaves) (fun _ => untouched_setInfo)
  refine .ite (fun _ => untouched_setInfo) (fun _ => ?_)
  refine .ite (fun _ => untouched_setInfo) (fun _ => ?_)
  refine .ite (fun _ => ?_) (fun _ => ?_)
  · refine .ite (fun _ => .read (fun target _ => ?_)) (fun _ => untouched_setInfo)
    exact .bind (untouched_leaves addFields_leaves) (fun _ => untouched_setInfo)
  · refine .ite (fun _ => ?_) (fun _ => untouched_setInfo)
    refine .bind untouched_setInfo (fun _ => .read (fun quoted _ => ?_))
    exact .bind (untouched_leaves (isolated_leaves _)) (fun _ => .pure (fun _ h => h))

theorem dissectIcmpv6_gives {inner : Nat → Bytes → Nat → Dissector LayerResult}
    {segment : Option Bytes} (placed : At frame offset data) :
    Gives (Untouched MaybeAddress) (dissectIcmpv6 inner parent data offset)
      (Account crates frame segment) := by
  refine .bind (untouched_setFlags (fun _ => ⟨rfl, rfl, rfl, rfl⟩)) (fun _ => ?_)
  refine .bind untouched_setProtocol (fun _ => .ite (fun _ => account_whole placed) (fun _ => ?_))
  refine .read (fun typ _ => .read (fun code _ => ?_))
  refine .bind (untouched_leaves addSection_leaves) (fun sec => ?_)
  refine .bind (untouched_leaves addFields_leaves) (fun _ => ?_)
  exact .bind icmpv6Body_gives (fun _ => account_spent placed)

theorem ipv6Extensions_leaves (fuel : Nat) (next : UInt8) (cursor : Nat) :
    Leaves Dissection.told (ipv6Extensions parent data offset fuel next cursor) := by
  induction fuel generalizing next cursor with
  | zero => exact .lift _
  | succ fuel ih =>
    unfold ipv6Extensions
    refine .ite (fun _ => .ite (fun _ => .pure _) (fun _ => ?_)) (fun _ => .pure _)
    refine .bind (.lift _) (fun second => .bind (.lift _) (fun left => ?_))
    refine .bind addSection_leaves (fun ext => .bind (.lift _) (fun nh => ?_))
    exact .bind addFields_leaves (fun _ => .ite (fun _ => .pure _) (fun _ => ih _ _))

/-- The walk over the extension headers ends where `extensionsEnd` does. -/
theorem ipv6Extensions_gives {P : Dissection → Prop} (fuel : Nat) (next : UInt8) (cursor : Nat) :
    Gives P (ipv6Extensions parent data offset fuel next cursor)
      (fun found _ => found = extensionsEnd data fuel next cursor) := by
  induction fuel generalizing next cursor P with
  | zero =>
    intro s _ a t run
    cases run
  | succ fuel ih =>
    unfold ipv6Extensions extensionsEnd
    by_cases extension : isExtension next = true
    · rw [if_pos extension, if_pos extension]
      by_cases short : data.length < cursor + 2
      · rw [if_pos short, if_pos short]
        exact .pure (fun _ _ => rfl)
      · rw [if_neg short, if_neg short, byteAt_ok (by omega), byteAt_ok (by omega), read_ok,
          pure_bind]
        refine .after (fun left => .after (fun ext => ?_))
        rw [read_ok, pure_bind]
        refine .after (fun _ => ?_)
        dsimp only
        split
        · exact .pure (fun _ _ => rfl)
        · exact ih _ _
    · rw [if_neg extension, if_neg extension]
      exact .pure (fun _ _ => rfl)

theorem dissectIpv6_gives (placed : At frame offset data) (fuel : Nat) :
    Gives (Untouched MaybeAddress) (dissectIpv6 crates fuel parent data offset)
      (Account crates frame (ipv6Segment data)) := by
  cases fuel with
  | zero =>
    intro s _ a t run
    cases run
  | succ fuel =>
    unfold dissectIpv6 ipv6Segment
    refine .ite (fun _ => account_whole placed) (fun long => ?_)
    refine .bind (untouched_setFlags (fun _ => ⟨rfl, rfl, rfl, rfl⟩)) (fun _ => ?_)
    simp (disch := omega) only [readBE_ok, byteAt_ok, slice_ok, read_ok, pure_bind]
    refine .bind (untouched_leaves addSection_leaves) (fun sec => ?_)
    refine .bind (untouched_leaves addFields_leaves) (fun _ => ?_)
    refine .bind (untouched_setAddresses (endAddress_ipv6Text _) (endAddress_ipv6Text _)) ?_
    intro _
    refine .bind ((untouched_leaves (ipv6Extensions_leaves _ _ _)).and
      (ipv6Extensions_gives _ _ _)) (fun found => ?_)
    refine .known (fun _ both => both.2) (fun known => ?_)
    have inside : found.2 ≤ data.length := by
      rw [known]
      exact extensionsEnd_le (by omega)
    rw [← known]
    obtain ⟨next, cursor⟩ := found
    dsimp only at inside ⊢
    rw [sliceFrom_ok inside, read_ok, pure_bind, if_neg long]
    have payload : At frame (offset + cursor) (data.drop cursor) := placed.drop inside
    refine .bind (R := fun _ => Untouched EndAddress) ?_ (fun _ => ?_)
    · exact untouched_setProtocol.mono (fun _ both => both.1) (fun _ _ h => h)
    refine .ite (fun _ => ?_) (fun _ => ?_)
    · exact (dissectIcmpv6_gives payload).mono (fun _ h => h.weaken) (fun _ _ h => h)
    refine .ite (fun tcp => ?_) (fun _ => ?_)
    · rw [if_pos tcp]
      exact dissectTcp_gives payload
    refine .ite (fun _ => dissectUdp_gives payload) (fun _ => .bind untouched_setInfo (fun _ => ?_))
    exact (account_whole payload).mono (fun _ h => h.weaken) (fun _ _ h => h)

/- The link layer. -/

theorem dissectArp_gives {segment : Option Bytes} (placed : At frame offset data) :
    Gives (Untouched MaybeAddress) (dissectArp parent data offset)
      (Account crates frame segment) := by
  refine .bind (untouched_setFlags (fun _ => ⟨rfl, rfl, rfl, rfl⟩)) (fun _ => ?_)
  refine .bind untouched_setProtocol (fun _ => .bind (untouched_leaves addSection_leaves) ?_)
  refine fun sec => .ite (fun _ => account_whole placed) (fun _ => .read (fun oper _ => ?_))
  refine .bind (untouched_leaves addFields_leaves) (fun _ => .bind ?_ (fun _ => account_spent placed))
  refine .ite (fun long => ?_) (fun _ => .pure (fun _ h => h))
  have address : ∀ i, i + 4 ≤ data.length → MaybeAddress (dotted (span data i (i + 4))) := by
    intro i room
    apply Or.inr
    apply endAddress_dotted
    rw [length_span room]
    omega
  simp (disch := omega) only [slice_ok, read_ok, pure_bind]
  refine .bind (untouched_leaves addFields_leaves) (fun _ => ?_)
  refine .bind (untouched_setAddresses (address 14 (by omega)) (address 24 (by omega))) ?_
  exact fun _ => untouched_setInfo

theorem dissectDot11_gives {ends : String → Prop} :
    Gives (Untouched ends) (dissectDot11 parent data) (fun _ => Untouched ends) := by
  refine .ite (fun _ => ?_) (fun _ => .pure (fun _ h => h))
  refine .bind (untouched_setFlags (fun _ => ⟨rfl, rfl, rfl, rfl⟩)) (fun _ => .read (fun fc _ => ?_))
  refine .bind untouched_setProtocol (fun _ => .bind untouched_setInfo (fun _ => ?_))
  refine .bind (untouched_leaves addFields_leaves) (fun _ => ?_)
  refine .ite (fun _ => .read (fun ies _ => .read (fun found _ => ?_))) (fun _ => ?_)
  · cases found with
    | none => exact .pure (fun _ h => h)
    | some ssid =>
      exact .bind untouched_setInfo (fun _ => untouched_leaves addFields_leaves)
  · exact .pure (fun _ h => h)

theorem dissectRadiotap_gives {ends : String → Prop} :
    Gives (Untouched ends) (dissectRadiotap parent data) (fun _ => Untouched ends) := by
  refine .ite (fun _ => .read (fun len _ => ?_)) (fun _ => .pure (fun _ h => h))
  refine .ite (fun _ => ?_) (fun _ => .pure (fun _ h => h))
  refine .bind (untouched_setFlags (fun _ => ⟨rfl, rfl, rfl, rfl⟩)) (fun _ => ?_)
  refine .bind (untouched_leaves addFields_leaves) (fun _ => ?_)
  exact .read (fun rest _ => dissectDot11_gives)

/-- The two network layers that a link layer chooses from, in front of all others. -/
theorem network_gives {off : Nat} {four six : Prop} [Decidable four] [Decidable six]
    {other : Dissector LayerResult} {network : Option (Nat × Nat)} (inside : off ≤ frame.length)
    (others : Gives (Untouched MaybeAddress) other
      (Account crates frame (networkSegment frame network))) :
    Gives (Untouched MaybeAddress)
      (if four then dissectIpv4 crates parent (frame.drop off) off
        else if six then dissectIpv6Packet crates parent (frame.drop off) off
        else other)
      (Account crates frame (networkSegment frame
        (if four then some (4, off) else if six then some (6, off) else network))) := by
  refine .ite (fun ipv4 => ?_) (fun ipv4 => ?_)
  · rw [if_pos ipv4]
    exact dissectIpv4_gives (.from_offset inside)
  rw [if_neg ipv4]
  refine .ite (fun ipv6 => ?_) (fun ipv6 => ?_)
  · rw [if_pos ipv6]
    exact dissectIpv6_gives (.from_offset inside) _
  · rw [if_neg ipv6]
    exact others

theorem dissectEthertype_gives {ethertype off : Nat} {other : Dissector PUnit}
    (inside : off ≤ frame.length)
    (quiet : Gives (Untouched MaybeAddress) other (fun _ => Untouched MaybeAddress)) :
    Gives (Untouched MaybeAddress)
      (dissectEthertype crates parent ethertype (frame.drop off) off other)
      (Account crates frame (networkSegment frame (ethertypeNetwork ethertype off))) := by
  have placed : At frame off (frame.drop off) := .from_offset inside
  refine network_gives inside (.ite (fun _ => dissectArp_gives placed) (fun _ => ?_))
  exact .bind quiet (fun _ => account_whole placed)

theorem dissectVersion_gives {off : Nat} (inside : off ≤ frame.length) :
    Gives (Untouched MaybeAddress) (dissectVersion crates parent (frame.drop off) off)
      (Account crates frame (networkSegment frame (versionNetwork off (frame.drop off)))) := by
  have placed : At frame off (frame.drop off) := .from_offset inside
  unfold dissectVersion versionNetwork
  refine .ite (fun _ => account_whole placed) (fun nonempty => ?_)
  rw [if_neg nonempty, byteAt_ok (List.length_pos_iff.mpr nonempty), read_ok, pure_bind]
  exact network_gives inside (account_whole placed)

theorem dissectVlan_gives {ethertype : Nat} (first : ethertype = beAt frame 12 2) :
    Gives (Untouched MaybeAddress) (dissectVlan parent frame 0 ethertype)
      (fun found s => found = ethernetHead frame ∧ Untouched MaybeAddress s) := by
  subst first
  unfold dissectVlan ethernetHead
  dsimp only
  split
  · next tagged =>
    refine .bind (untouched_setFlags (fun _ => ⟨rfl, rfl, rfl, rfl⟩)) (fun _ => ?_)
    refine .bind (untouched_leaves addSection_leaves) (fun vlan => ?_)
    rw [readBE_ok (by omega), readBE_ok (by omega), read_ok, read_ok, pure_bind, pure_bind]
    refine .bind (untouched_leaves addFields_leaves) (fun _ => .pure (fun _ h => ⟨rfl, h⟩))
  · exact .pure (fun _ h => ⟨rfl, h⟩)

theorem dissectEthernet_gives :
    Gives (Untouched MaybeAddress) (dissectEthernet crates parent frame 0)
      (Account crates frame (tcpSegment .ethernet frame)) := by
  unfold dissectEthernet tcpSegment networkAt
  refine .ite (fun _ => account_whole (.whole frame)) (fun long => ?_)
  dsimp only
  rw [if_neg long]
  refine .bind (untouched_setFlags (fun _ => ⟨rfl, rfl, rfl, rfl⟩)) (fun _ => ?_)
  refine .bind (untouched_leaves addSection_leaves) (fun eth => ?_)
  simp (disch := omega) only [slice_ok, readBE_ok, read_ok, pure_bind]
  have address : ∀ i, i + 6 ≤ frame.length → MaybeAddress (fmtMac (span frame i (i + 6))) := by
    intro i room
    apply Or.inr
    apply endAddress_fmtMac
    rw [length_span room]
    omega
  refine .bind (untouched_leaves addFields_leaves) (fun _ => ?_)
  refine .bind (untouched_setAddresses (address 6 (by omega)) (address 0 (by omega))) (fun _ => ?_)
  refine .bind (untouched_leaves addFields_leaves) (fun _ => ?_)
  refine .bind (dissectVlan_gives rfl) (fun head => ?_)
  refine .known (fun _ both => both.1) (fun known => ?_)
  subst known
  have inside : (ethernetHead frame).2 ≤ frame.length := by
    unfold ethernetHead
    split <;> simp only <;> omega
  rw [Nat.min_eq_left inside, sliceFrom_ok inside, read_ok, pure_bind]
  refine (dissectEthertype_gives inside ?_).mono (fun _ both => both.2) (fun _ _ h => h)
  exact .bind untouched_setProtocol (fun _ => untouched_setInfo)

theorem dissectSll_gives :
    Gives (Untouched MaybeAddress) (dissectSll crates parent frame 0)
      (Account crates frame (tcpSegment .linuxSll frame)) := by
  unfold dissectSll tcpSegment networkAt
  refine .ite (fun _ => account_whole (.whole frame)) (fun long => ?_)
  dsimp only
  rw [if_neg long]
  refine .bind (untouched_setFlags (fun _ => ⟨rfl, rfl, rfl, rfl⟩)) (fun _ => ?_)
  refine .bind (untouched_leaves addSection_leaves) (fun sec => ?_)
  simp (disch := omega) only [sliceFrom_ok, readBE_ok, read_ok, pure_bind]
  refine .bind (untouched_leaves addFields_leaves) (fun _ => ?_)
  exact dissectEthertype_gives (by omega) (.pure (fun _ h => h))

theorem dissectSll2_gives :
    Gives (Untouched MaybeAddress) (dissectSll2 crates parent frame 0)
      (Account crates frame (tcpSegment .linuxSll2 frame)) := by
  unfold dissectSll2 tcpSegment networkAt
  refine .ite (fun _ => account_whole (.whole frame)) (fun long => ?_)
  dsimp only
  rw [if_neg long]
  refine .bind (untouched_setFlags (fun _ => ⟨rfl, rfl, rfl, rfl⟩)) (fun _ => ?_)
  refine .bind (untouched_leaves addSection_leaves) (fun sec => ?_)
  simp (disch := omega) only [sliceFrom_ok, readBE_ok, read_ok, pure_bind]
  refine .bind (untouched_leaves addFields_leaves) (fun _ => ?_)
  exact dissectEthertype_gives (by omega) (.pure (fun _ h => h))

theorem dissectNull_gives :
    Gives (Untouched MaybeAddress) (dissectNull crates parent frame 0)
      (Account crates frame (tcpSegment .null frame)) := by
  unfold dissectNull tcpSegment networkAt
  refine .ite (fun _ => account_whole (.whole frame)) (fun long => ?_)
  dsimp only
  rw [if_neg long]
  refine .bind (untouched_leaves addSection_leaves) (fun sec => ?_)
  simp (disch := omega) only [sliceFrom_ok, readLE_ok, readBE_ok, read_ok, pure_bind]
  refine .bind (untouched_leaves addFields_leaves) (fun _ => ?_)
  exact network_gives (by omega) (dissectVersion_gives (by omega))

theorem dissectL2_gives (linkType : LinkType) :
    Gives (Untouched MaybeAddress) (dissectL2 crates parent frame linkType)
      (Account crates frame (tcpSegment linkType frame)) := by
  have spent : Gives (Untouched MaybeAddress)
      (pure { payload := [], payloadOffset := frame.length } : Dissector LayerResult)
      (Account crates frame none) :=
    .pure (fun _ untouched => .none untouched (At.nil_iff.mpr (Nat.le_refl _)))
  cases linkType with
  | ethernet => exact dissectEthernet_gives
  | linuxSll => exact dissectSll_gives
  | linuxSll2 => exact dissectSll2_gives
  | null => exact dissectNull_gives
  | raw => exact dissectVersion_gives (Nat.zero_le _)
  | ieee80211Radio => exact .bind dissectRadiotap_gives (fun _ => spent)
  | ieee80211 => exact .bind dissectDot11_gives (fun _ => spent)
  | unknown v =>
    exact .ite (fun _ => dissectEthernet_gives) (fun _ => account_whole (.whole frame))

theorem dissectFrame_gives (linkType : LinkType) :
    Gives (Untouched MaybeAddress) (dissectFrame crates frame linkType)
      (Account crates frame (tcpSegment linkType frame)) := by
  refine .bind (untouched_leaves addRoot_leaves) (fun root => ?_)
  refine .bind (untouched_leaves addFields_leaves) (fun _ => .ite (fun empty => ?_) (fun _ => ?_))
  · subst empty
    exact account_whole (.whole [])
  · exact dissectL2_gives linkType

theorem dissectFrame_nil {P : Dissection → Prop} (linkType : LinkType) :
    Gives P (dissectFrame crates [] linkType)
      (fun r _ => r = { payload := [], payloadOffset := 0 }) :=
  .after (fun _ => .after (fun _ => .pure (fun _ _ => rfl)))

/-- The state that the result of a dissection is taken from. -/
def DissectedPacket.state (d : DissectedPacket) : Dissection :=
  { tree := d.tree, flags := d.flags, summary := d.summary, transport := d.transport }

def DissectedPacket.result (d : DissectedPacket) : LayerResult :=
  { payload := d.payload, payloadOffset := d.payloadOffset }

theorem ProtocolFlags.any_tcp {flags : ProtocolFlags} (tcp : flags.tcp = true) :
    flags.any = true := by
  simp [any, tcp]

theorem ProtocolFlags.any_udp {flags : ProtocolFlags} (udp : flags.udp = true) :
    flags.any = true := by
  simp [any, udp]

/-- The info of a frame without a protocol may be replaced. -/
theorem Account.relabel {segment : Option Bytes} {r : LayerResult} {s : Dissection}
    (account : Account crates frame segment r s) (info : String) (unmarked : ¬ s.flags.any) :
    Account crates frame segment r { s with summary := { s.summary with info := info } } := by
  cases account with
  | none untouched placed =>
    exact .none ⟨untouched.transport, untouched.tcp, untouched.udp, untouched.tls,
      untouched.websocket, untouched.src, untouched.dst⟩ placed
  | udp seg noted proto tcp udp => exact absurd (ProtocolFlags.any_udp udp) unmarked
  | tcp data here offset noted tcp => exact absurd (ProtocolFlags.any_tcp tcp) unmarked

/-- Every frame that is dissected is accounted for, and its fields are made from its flags and
its summary. -/
theorem dissect_account {linkType : LinkType} {d : DissectedPacket}
    (done : dissect crates frame linkType = .ok d) :
    Account crates frame (tcpSegment linkType frame) d.result d.state ∧
      (frame ≠ [] → populateDisplayFields crates d.flags d.summary frame linkType = .ok d.fields) := by
  unfold dissect at done
  obtain ⟨⟨r, s⟩, run, rest⟩ := ok_of_bind done
  have account := dissectFrame_gives linkType _ ⟨rfl, rfl, rfl, rfl, rfl, .inl rfl, .inl rfl⟩ r s run
  dsimp only at rest
  split at rest
  · next empty =>
    subst empty
    have nothing := dissectFrame_nil (P := fun _ => True) linkType _ trivial r s run
    subst nothing
    cases rest
    exact ⟨account, fun nonempty => absurd rfl nonempty⟩
  · obtain ⟨expert, _, rest⟩ := ok_of_bind rest
    obtain ⟨fields, filled, last⟩ := ok_of_bind rest
    cases last
    refine ⟨?_, fun _ => filled⟩
    by_cases unknown : s.summary.protocol = "Data" ∧ ¬ s.flags.any
    · have relabelled := account.relabel s!"{frame.length} bytes" unknown.2
      simp only [DissectedPacket.state, if_pos unknown]
      exact relabelled
    · simp only [DissectedPacket.state, if_neg unknown]
      exact account

end

end BitBeak
