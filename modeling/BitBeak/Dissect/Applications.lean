import BitBeak.Dissect.L4

/-! What the application dissectors leave as they found it: the ends of the packet and its
transport header. Those over TCP put a text of their own in the place of the summary of TCP. -/
namespace BitBeak
open Wire Dissector

/-- All but the tree. -/
def Dissection.told (s : Dissection) : PacketSummary × ProtocolFlags × Option Transport :=
  (s.summary, s.flags, s.transport)

/-- The two ends and the transport layer, and whether TLS was seen above it. -/
structure Ends where
  src : String
  dst : String
  tcp : Bool
  udp : Bool
  tls : Bool
  transport : Option Transport
  deriving DecidableEq, Repr

def Dissection.ends (s : Dissection) : Ends :=
  { src := s.summary.src, dst := s.summary.dst, tcp := s.flags.tcp, udp := s.flags.udp,
    tls := s.flags.tls, transport := s.transport }

theorem leaves_ends {α : Type} {m : Dissector α} (leaves : Leaves Dissection.told m) :
    Leaves Dissection.ends m := by
  intro s a t run
  have same := leaves s a t run
  simp only [Dissection.told, Prod.mk.injEq] at same
  simp only [Dissection.ends, same]

namespace Dissector

section

variable {parent offset len : Nat} {label : String}

theorem addRoot_leaves : Leaves Dissection.told (addRoot label offset len) := by
  intro s a t run
  cases run
  rfl

theorem addChild_leaves : Leaves Dissection.told (addChild parent label offset len) := by
  intro s a t run
  cases run
  rfl

theorem addSection_leaves : Leaves Dissection.told (addSection parent label offset len) :=
  addChild_leaves

theorem addFields_leaves {fields : List (String × Nat × Nat)} :
    Leaves Dissection.told (addFields parent fields) := by
  apply Leaves.forM
  intro field _
  exact .bind addChild_leaves (fun _ => .pure _)

theorem onlyIf_leaves {τ : Type} {view : Dissection → τ} {c : Prop} [Decidable c]
    {m : Dissector PUnit} (run : c → Leaves view m) : Leaves view (onlyIf c m) :=
  .ite run (fun _ => .pure _)

theorem isolated_leaves {α : Type} (m : Dissector α) : Leaves Dissection.told (isolated m) := by
  intro s a t run
  obtain ⟨outer, s', read, run⟩ := run_bind run
  cases read
  obtain ⟨_, s', put, run⟩ := run_bind run
  cases put
  obtain ⟨r, inner, _, run⟩ := run_bind run
  cases run
  rfl

theorem setProtocol_leaves {name : String} : Leaves Dissection.ends (setProtocol name) :=
  .modify (fun _ => rfl)

theorem setInfo_leaves {info : String} : Leaves Dissection.ends (setInfo info) :=
  .modify (fun _ => rfl)

theorem setFlags_leaves {change : ProtocolFlags → ProtocolFlags}
    (same : ∀ flags, (change flags).tcp = flags.tcp ∧ (change flags).udp = flags.udp ∧
      (change flags).tls = flags.tls) : Leaves Dissection.ends (setFlags change) := by
  apply Leaves.modify
  intro s
  obtain ⟨tcp, udp, tls⟩ := same s.flags
  simp [Dissection.ends, tcp, udp, tls]

/-- The info that is set last. -/
theorem setInfo_gives {P : Dissection → Prop} {α : Type} {info : String} {r : α} :
    Gives P (do setInfo info; return r) (fun r' s => r' = r ∧ s.summary.info = info) := by
  intro s _ a t run
  cases run
  exact ⟨rfl, rfl⟩

end

end Dissector

/- TLS. -/

def sniOf (ext : Bytes) : Option String :=
  match extractSni ext with
  | .ok sni => sni
  | .error _ => none

/-- What a message adds to the info. -/
def TlsMessage.texts : TlsMessage → List String
  | .handshake (.clientHello _ ext) =>
    match ext.bind sniOf with
    | none => ["ClientHello"]
    | some sni => ["ClientHello", "SNI=" ++ sni]
  | .handshake (.serverHello _) => ["ServerHello"]
  | .handshake .certificate => ["Certificate"]
  | .handshake (.other debug) => [debug]
  | .applicationData _ => ["AppData"]
  | .other => []

def tlsInfos (crates : Crates) : Nat → Bytes → List String → List String
  | 0, _, infos => infos
  | fuel + 1, rest, infos =>
    if rest = [] then infos
    else match crates.parseTlsPlaintext rest with
      | some (remain, record) =>
        tlsInfos crates fuel remain (infos ++ record.msg.flatMap TlsMessage.texts)
      | none => if infos = [] then [s!"{rest.length} bytes"] else infos

/-- The info of a TLS payload. -/
def tlsText (crates : Crates) (data : Bytes) : String :=
  let infos := tlsInfos crates (data.length + 1) data []
  if infos = [] then "TLS" else "TLS " ++ ", ".intercalate infos

section

variable {crates : Crates} {parent sec offset : Nat} {data : Bytes}

theorem tlsMessages_leaves (record off : Nat) (msg : List TlsMessage) (infos : List String) :
    Leaves Dissection.told (tlsMessages record off msg infos) := by
  induction msg generalizing infos with
  | nil => exact .pure _
  | cons m msg ih =>
    cases m with
    | applicationData blob => exact ih _
    | other => exact ih _
    | handshake hs =>
      cases hs with
      | serverHello random => exact .bind addChild_leaves (fun _ => ih _)
      | certificate => exact .bind addChild_leaves (fun _ => ih _)
      | other debug => exact .bind addChild_leaves (fun _ => ih _)
      | clientHello random ext =>
        apply Leaves.bind addChild_leaves
        intro _
        cases ext with
        | none => exact ih _
        | some ext =>
          apply Leaves.bind (.lift _)
          intro sni
          cases sni with
          | none => exact ih _
          | some sni => exact .bind addChild_leaves (fun _ => ih _)

theorem tlsMessages_gives {P : Dissection → Prop} (record off : Nat) (msg : List TlsMessage)
    (infos : List String) : Gives P (tlsMessages record off msg infos)
      (fun all _ => all = infos ++ msg.flatMap TlsMessage.texts) := by
  induction msg generalizing infos P with
  | nil => exact .pure (fun _ _ => (List.append_nil infos).symm)
  | cons m msg ih =>
    have next : ∀ {P : Dissection → Prop} {texts : List String}, m.texts = texts →
        Gives P (tlsMessages record off msg (infos ++ texts))
          (fun all _ => all = infos ++ (m :: msg).flatMap TlsMessage.texts) := by
      rintro P texts rfl
      have rest := ih (P := P) (infos ++ m.texts)
      rwa [List.append_assoc] at rest
    cases m with
    | applicationData blob => exact next rfl
    | other =>
      have rest := @next P [] rfl
      rwa [List.append_nil] at rest
    | handshake hs =>
      cases hs with
      | serverHello random => exact .after (fun _ => next rfl)
      | certificate => exact .after (fun _ => next rfl)
      | other debug => exact .after (fun _ => next rfl)
      | clientHello random ext =>
        apply Gives.after
        intro _
        cases ext with
        | none => exact next rfl
        | some ext =>
          apply Gives.read
          intro sni found
          have known : sniOf ext = sni := by
            rw [sniOf, found]
          cases sni with
          | none => exact next (by simp [TlsMessage.texts, known])
          | some sni => exact .after (fun _ => next (by simp [TlsMessage.texts, known]))

theorem tlsRecords_leaves (fuel : Nat) (rest : Bytes) (off : Nat) (infos : List String) :
    Leaves Dissection.told (tlsRecords crates parent sec fuel rest off infos) := by
  induction fuel generalizing rest off infos with
  | zero => exact .lift _
  | succ fuel ih =>
    unfold tlsRecords
    apply Leaves.ite
    · exact fun _ => .pure _
    · intro _
      cases crates.parseTlsPlaintext rest with
      | none => exact .bind addChild_leaves (fun _ => .pure _)
      | some found =>
        apply Leaves.bind (.lift _)
        intro consumed
        apply Leaves.bind addSection_leaves
        intro child
        apply Leaves.bind addFields_leaves
        intro _
        exact .bind (tlsMessages_leaves _ _ _ _) (fun _ => ih _ _ _)

theorem tlsRecords_gives {P : Dissection → Prop} (fuel : Nat) (rest : Bytes) (off : Nat)
    (infos : List String) : Gives P (tlsRecords crates parent sec fuel rest off infos)
      (fun all _ => all = tlsInfos crates fuel rest infos) := by
  induction fuel generalizing rest off infos P with
  | zero =>
    intro s _ a t run
    cases run
  | succ fuel ih =>
    unfold tlsRecords tlsInfos
    split
    · exact .pure (fun _ _ => rfl)
    · cases crates.parseTlsPlaintext rest with
      | none => exact .after (fun _ => .pure (fun _ _ => rfl))
      | some found =>
        apply Gives.after
        intro consumed
        apply Gives.after
        intro child
        apply Gives.after
        intro _
        exact .value (tlsMessages_gives _ _ _ _) (ih _ _ _)

theorem dissectTls_marks (e : Ends) :
    Gives (fun s => s.ends = e) (dissectTls crates parent data offset)
      (fun _ s => s.ends = { e with tls := true }) := by
  refine .bind (R := fun _ s => s.ends = { e with tls := true }) (.modify ?_) (fun _ => ?_)
  · rintro s rfl
    rfl
  have rest : Leaves Dissection.ends (do
      setProtocol "TLS"
      let sec ← addSection parent "Transport Layer Security" offset data.length
      let infos ← tlsRecords crates parent sec (data.length + 1) data offset []
      setInfo (if infos = [] then "TLS" else "TLS " ++ ", ".intercalate infos)
      return ({ payload := [], payloadOffset := offset + data.length } : LayerResult)) := by
    refine .bind setProtocol_leaves (fun _ => .bind (leaves_ends addSection_leaves) (fun sec => ?_))
    refine .bind (leaves_ends (tlsRecords_leaves _ _ _ _)) (fun infos => ?_)
    exact .bind setInfo_leaves (fun _ => .pure _)
  exact rest.gives fun ends => ends = { e with tls := true }

theorem dissectTls_gives {P : Dissection → Prop} :
    Gives P (dissectTls crates parent data offset) (fun r s =>
      r = { payload := [], payloadOffset := offset + data.length } ∧
        s.summary.info = tlsText crates data) := by
  refine .after (fun _ => .after (fun _ => .after (fun sec => ?_)))
  exact .value (tlsRecords_gives _ _ _ _) setInfo_gives

end

/- HTTP/1.x. -/

/-- The info of an HTTP/1.x payload. -/
def http1Text (crates : Crates) (data : Bytes) : String :=
  match crates.parseRequest data with
  | some req => req.method.getD "?" ++ " " ++ req.path.getD "/"
  | none =>
    match crates.parseResponse data with
    | some resp => s!"HTTP {resp.code.getD 0} " ++ resp.reason.getD ""
    | none => "HTTP (partial)"

/-- How much of an HTTP/1.x payload the head takes. -/
def http1Head (crates : Crates) (data : Bytes) : Nat :=
  match crates.parseRequest data with
  | some req => req.length
  | none =>
    match crates.parseResponse data with
    | some resp => resp.length
    | none => 0

theorem http1Head_le {crates : Crates} (contract : crates.Contract) (data : Bytes) :
    http1Head crates data ≤ data.length := by
  unfold http1Head
  split
  · next req found => exact contract.request data req found
  · split
    · next resp found => exact contract.response data resp found
    · exact Nat.zero_le _

section

variable {crates : Crates} {parent sec offset n : Nat} {data : Bytes} {line info : String}
variable {headers : List String}

theorem httpHead_leaves :
    Leaves Dissection.ends (httpHead sec data offset n line headers info) := by
  refine .bind (leaves_ends addChild_leaves) (fun _ => .bind (leaves_ends addFields_leaves) ?_)
  refine fun _ => .bind setInfo_leaves (fun _ => .bind (.lift _) (fun body => ?_))
  refine .bind (onlyIf_leaves (fun _ => leaves_ends addFields_leaves)) (fun _ => .pure _)

theorem httpHead_gives {P : Dissection → Prop} :
    Gives P (httpHead sec data offset n line headers info) (fun r s =>
      r = { payload := data.drop n, payloadOffset := offset + n } ∧ s.summary.info = info) := by
  refine .after (fun _ => .after (fun _ => ?_))
  simp only [tailOrEmpty_ok, read_ok, pure_bind]
  refine .bind (R := fun _ s => s.summary.info = info) (.modify (fun _ _ => rfl)) (fun _ => ?_)
  refine .bind (R := fun _ s => s.summary.info = info) ?_ (fun _ => .pure (fun _ kept => ⟨rfl, kept⟩))
  exact (onlyIf_leaves (fun _ => addFields_leaves)).gives fun told => told.1.info = info

theorem dissectHttp1_leaves :
    Leaves Dissection.ends (dissectHttp1 crates parent data offset) := by
  refine .bind (setFlags_leaves (fun _ => ⟨rfl, rfl, rfl⟩)) (fun _ => ?_)
  refine .bind setProtocol_leaves (fun _ => .bind (leaves_ends addSection_leaves) (fun sec => ?_))
  cases crates.parseRequest data with
  | some req => exact httpHead_leaves
  | none =>
    cases crates.parseResponse data with
    | some resp => exact httpHead_leaves
    | none =>
      exact .bind (leaves_ends addChild_leaves) (fun _ => .bind setInfo_leaves (fun _ => .pure _))

theorem dissectHttp1_gives {P : Dissection → Prop} :
    Gives P (dissectHttp1 crates parent data offset) (fun r s =>
      r = { payload := data.drop (http1Head crates data),
            payloadOffset := offset + http1Head crates data } ∧
        s.summary.info = http1Text crates data) := by
  refine .after (fun _ => .after (fun _ => .after (fun sec => ?_)))
  unfold http1Head http1Text
  cases crates.parseRequest data with
  | some req => exact httpHead_gives
  | none =>
    cases crates.parseResponse data with
    | some resp => exact httpHead_gives
    | none => exact .after (fun _ => setInfo_gives)

end

/- HTTP/2 and WebSocket, whose infos have no brackets. -/

abbrev Bracketless (text : String) : Prop := '[' ∉ text.toList

theorem bracketless_append {s t : String} (left : Bracketless s) (right : Bracketless t) :
    Bracketless (s ++ t) := by
  rw [Bracketless, String.toList_append, List.mem_append]
  exact not_or.mpr ⟨left, right⟩

theorem bracketless_toString (n : Nat) : Bracketless (toString n) := by
  exact outside_toString (by decide)

theorem bracketless_intercalate {mark : String} {parts : List String} (between : Bracketless mark)
    (each : ∀ part ∈ parts, Bracketless part) : Bracketless (mark.intercalate parts) := by
  intro member
  rcases mem_intercalate member with inside | ⟨part, listed, inside⟩
  · exact between inside
  · exact each part listed inside

theorem bracketless_frameTypeName (typ : Nat) : Bracketless (frameTypeName typ) := by
  unfold frameTypeName
  split <;> decide

theorem bracketless_wsOpName (opcode : UInt8) : Bracketless (wsOpName opcode) := by
  unfold wsOpName
  split_ifs <;> decide

section

variable {crates : Crates} {parent sec frame offset : Nat} {data : Bytes}

theorem http2Payload_leaves {at_ : Nat} {typ fl : UInt8} {payload : Bytes} {blocks : List Bytes} :
    Leaves Dissection.told (http2Payload crates frame at_ typ fl payload blocks) := by
  unfold http2Payload
  refine .ite (fun _ => ?_) (fun _ => .ite (fun _ => ?_) (fun _ => .pure _))
  · dsimp only
    refine .ite (fun _ => .bind (.lift _) (fun block => ?_)) (fun _ => .pure _)
    exact .bind addFields_leaves (fun _ => .pure _)
  · exact .bind addChild_leaves (fun _ => .pure _)

theorem http2Frames_leaves (fuel cur : Nat) (blocks : List Bytes) (infos : List String) :
    Leaves Dissection.told (http2Frames crates parent sec data offset fuel cur blocks infos) := by
  induction fuel generalizing cur blocks infos with
  | zero => exact .lift _
  | succ fuel ih =>
    unfold http2Frames
    refine .ite (fun _ => ?_) (fun _ => .pure _)
    refine .bind (.lift _) (fun len => .bind (.lift _) (fun typ => .bind (.lift _) (fun fl => ?_)))
    refine .bind (.lift _) (fun stream => .ite (fun _ => ?_) (fun _ => ?_))
    · refine .bind (.lift _) (fun rest => .bind addChild_leaves (fun _ => .pure _))
    · refine .bind addSection_leaves (fun frame => .bind addFields_leaves (fun _ => ?_))
      refine .bind (.lift _) (fun payload => .bind http2Payload_leaves (fun blocks => ih _ _ _))

/-- The frames are named without brackets. -/
theorem http2Frames_gives {P : Dissection → Prop} (fuel cur : Nat) (blocks : List Bytes)
    (infos : List String) (before : ∀ info ∈ infos, Bracketless info) :
    Gives P (http2Frames crates parent sec data offset fuel cur blocks infos)
      (fun all _ => ∀ info ∈ all, Bracketless info) := by
  induction fuel generalizing cur blocks infos P with
  | zero =>
    intro s _ a t run
    cases run
  | succ fuel ih =>
    unfold http2Frames
    refine .ite (fun _ => ?_) (fun _ => .pure (fun _ _ => before))
    refine .after (fun len => .after (fun typ => .after (fun fl => .after (fun stream => ?_))))
    refine .ite (fun _ => ?_) (fun _ => ?_)
    · exact .after (fun _ => .after (fun _ => .pure (fun _ _ => before)))
    · refine .after (fun frame => .after (fun _ => .after (fun payload => .after (fun blocks => ?_))))
      apply ih
      intro info member
      rcases List.mem_append.mp member with early | late
      · exact before info early
      · rw [List.mem_singleton.mp late]
        refine bracketless_append (bracketless_frameTypeName _) ?_
        exact bracketless_append (by decide) (bracketless_toString _)

theorem dissectHttp2_leaves :
    Leaves Dissection.ends (dissectHttp2 crates parent data offset) := by
  refine .bind (setFlags_leaves (fun _ => ⟨rfl, rfl, rfl⟩)) (fun _ => ?_)
  refine .bind setProtocol_leaves (fun _ => .bind (leaves_ends addSection_leaves) (fun sec => ?_))
  refine .bind (onlyIf_leaves (fun _ => leaves_ends addFields_leaves)) (fun _ => ?_)
  refine .bind (leaves_ends (http2Frames_leaves _ _ _ _)) (fun infos => ?_)
  exact .bind setInfo_leaves (fun _ => .pure _)

theorem dissectHttp2_gives {P : Dissection → Prop} :
    Gives P (dissectHttp2 crates parent data offset) (fun r s =>
      r = { payload := [], payloadOffset := offset + data.length } ∧
        Bracketless s.summary.info) := by
  refine .after (fun _ => .after (fun _ => .after (fun sec => .after (fun _ => ?_))))
  refine .bind (http2Frames_gives _ _ _ [] (fun _ none => nomatch none)) (fun infos => ?_)
  intro s plain r t run
  obtain ⟨same, info⟩ := setInfo_gives (P := fun _ => True) s trivial r t run
  refine ⟨same, ?_⟩
  rw [info]
  split
  · decide
  · exact bracketless_append (by decide) (bracketless_intercalate (by decide) plain)

/-- How much of a payload the header of a WebSocket frame takes, as far as the lengths in it
can be read. -/
def wsHeader (data : Bytes) : Nat :=
  let short := (octet data 1 &&& 0x7f).toNat
  let hdr := if short = 126 ∧ 4 ≤ data.length then 4
    else if short = 127 ∧ 10 ≤ data.length then 10
    else 2
  if octet data 1 &&& 0x80 ≠ 0 then hdr + 4 else hdr

theorem dissectWebsocket_leaves : Leaves Dissection.ends (dissectWebsocket parent data offset) := by
  refine .bind (setFlags_leaves (fun _ => ⟨rfl, rfl, rfl⟩)) (fun _ => ?_)
  refine .bind setProtocol_leaves (fun _ => .ite (fun _ => .pure _) (fun _ => ?_))
  refine .bind (leaves_ends addSection_leaves) (fun sec => .bind (.lift _) (fun first => ?_))
  refine .bind (.lift _) (fun second => .bind (.lift _) (fun lengths => ?_))
  refine .bind (leaves_ends addFields_leaves) (fun _ => .bind setInfo_leaves (fun _ => ?_))
  exact .bind (.lift _) (fun _ => .pure _)

theorem wsLength_header {short plen hdr : Nat} (known : wsLength data short = .ok (plen, hdr)) :
    hdr = if short = 126 ∧ 4 ≤ data.length then 4
      else if short = 127 ∧ 10 ≤ data.length then 10
      else 2 := by
  unfold wsLength at known
  split_ifs at known ⊢ with two ten
  · rw [readBE_ok (by omega)] at known
    cases known
    rfl
  · rw [readBE_ok (by omega)] at known
    cases known
    rfl
  · cases known
    rfl

theorem dissectWebsocket_gives {P : Dissection → Prop} (long : 2 ≤ data.length) :
    Gives P (dissectWebsocket parent data offset) (fun r s =>
      r = { payload := data.drop (wsHeader data), payloadOffset := offset + wsHeader data } ∧
        Bracketless s.summary.info) := by
  refine .after (fun _ => .after (fun _ => ?_))
  rw [if_neg (by omega)]
  refine .after (fun sec => ?_)
  simp (disch := omega) only [byteAt_ok, read_ok, pure_bind, tailOrEmpty_ok]
  refine .read (fun lengths known => ?_)
  obtain ⟨plen, hdr⟩ := lengths
  have header := wsLength_header known
  refine .after (fun _ => ?_)
  intro s _ r t run
  obtain ⟨rfl, info⟩ := setInfo_gives (P := fun _ => True) s trivial r t run
  constructor
  · rw [wsHeader, ← header]
  · rw [info]
    refine bracketless_append (bracketless_append (by decide) (bracketless_wsOpName _)) ?_
    exact bracketless_append (by decide) (bracketless_toString _)

end

end BitBeak
