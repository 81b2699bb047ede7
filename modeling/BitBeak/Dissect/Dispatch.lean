import BitBeak.Dissect.Applications

/-! What becomes of the payload of a segment or of a datagram: the application that is
recognised in it, the text of that application, and the part of the payload that is left. -/
namespace BitBeak
open Wire Dissector

/-- The rest of the payload from `n` octets on. -/
def restFrom (offset n : Nat) (data : Bytes) : LayerResult :=
  { payload := data.drop n, payloadOffset := offset + n }

theorem restFrom_zero (offset : Nat) (data : Bytes) :
    restFrom offset 0 data = { payload := data, payloadOffset := offset } := rfl

theorem restFrom_length (offset : Nat) (data : Bytes) :
    restFrom offset data.length data = { payload := [], payloadOffset := offset + data.length } := by
  rw [restFrom, List.drop_length]

/- The services over UDP, and SIP. -/

/-- The info of a SIP message. -/
def sipText (payload : Bytes) : String :=
  String.ofList (((firstLine (fromUtf8Lossy payload)).getD "SIP").toList.take 80)

section

variable {crates : Crates} {parent sec offset : Nat} {data : Bytes}

theorem dissectDns_leaves : Leaves Dissection.ends (dissectDns crates parent data offset) := by
  refine .bind (setFlags_leaves (fun _ => ⟨rfl, rfl, rfl⟩)) (fun _ => ?_)
  refine .bind setProtocol_leaves (fun _ => .bind (leaves_ends addSection_leaves) (fun sec => ?_))
  have fields : ∀ {fields : List (String × Nat × Nat)},
      Leaves Dissection.ends (addFields sec fields) := leaves_ends addFields_leaves
  cases crates.dnsMessage data with
  | none => exact .bind fields (fun _ => .bind setInfo_leaves (fun _ => .pure _))
  | some msg =>
    refine .bind fields (fun _ => .bind fields (fun _ => .bind fields (fun _ => ?_)))
    exact .bind setInfo_leaves (fun _ => .pure _)

theorem dissectDns_gives {P : Dissection → Prop} :
    Gives P (dissectDns crates parent data offset)
      (fun r _ => r = restFrom offset data.length data) := by
  refine .after (fun _ => .after (fun _ => .after (fun sec => ?_)))
  rw [restFrom_length]
  cases crates.dnsMessage data with
  | none => exact .after (fun _ => .after (fun _ => .pure (fun _ _ => rfl)))
  | some msg =>
    refine .after (fun _ => .after (fun _ => .after (fun _ => .after (fun _ => ?_))))
    exact .pure (fun _ _ => rfl)

theorem dhcpOptions_leaves (fuel i : Nat) (msgType : String) :
    Leaves Dissection.told (dhcpOptions sec data offset fuel i msgType) := by
  induction fuel generalizing i msgType with
  | zero => exact .lift _
  | succ fuel ih =>
    unfold dhcpOptions
    refine .ite (fun _ => .bind (.lift _) (fun code => ?_)) (fun _ => .pure _)
    refine .ite (fun _ => .pure _) (fun _ => .ite (fun _ => ih _ _) (fun _ => ?_))
    refine .bind (.lift _) (fun len => .ite (fun _ => .pure _) (fun _ => ?_))
    refine .ite (fun _ => .bind (.lift _) (fun kind => ?_)) (fun _ => ih _ _)
    exact .bind addFields_leaves (fun _ => ih _ _)

theorem dissectDhcp_leaves : Leaves Dissection.ends (dissectDhcp parent data offset) := by
  refine .bind (setFlags_leaves (fun _ => ⟨rfl, rfl, rfl⟩)) (fun _ => ?_)
  refine .bind setProtocol_leaves (fun _ => .bind (leaves_ends addSection_leaves) (fun sec => ?_))
  refine .ite (fun _ => .bind setInfo_leaves (fun _ => .pure _)) (fun _ => ?_)
  refine .bind (.lift _) (fun op => .bind (.lift _) (fun xid => .bind (.lift _) (fun yi => ?_)))
  refine .bind (.lift _) (fun ch => .bind (leaves_ends addFields_leaves) (fun _ => ?_))
  refine .bind (.lift _) (fun cookie => .bind (leaves_ends ?_) (fun kind => ?_))
  · exact .ite (fun _ => dhcpOptions_leaves _ _ _) (fun _ => .pure _)
  · exact .bind setInfo_leaves (fun _ => .pure _)

theorem dissectDhcp_gives {P : Dissection → Prop} :
    Gives P (dissectDhcp parent data offset)
      (fun r _ => r = restFrom offset 0 data ∨ r = restFrom offset data.length data) := by
  refine .after (fun _ => .after (fun _ => .after (fun sec => ?_)))
  rw [restFrom_zero, restFrom_length]
  refine .ite (fun _ => .after (fun _ => .pure (fun _ _ => .inl rfl))) (fun _ => ?_)
  refine .after (fun op => .after (fun xid => .after (fun yi => .after (fun ch => ?_))))
  refine .after (fun _ => .after (fun cookie => .after (fun kind => .after (fun _ => ?_))))
  exact .pure (fun _ _ => .inr rfl)

theorem dissectSip_leaves : Leaves Dissection.ends (dissectSip parent data) := by
  refine .bind (setFlags_leaves (fun _ => ⟨rfl, rfl, rfl⟩)) (fun _ => ?_)
  refine .bind setProtocol_leaves (fun _ => .bind setInfo_leaves (fun _ => ?_))
  exact leaves_ends addFields_leaves

theorem dissectSip_gives {P : Dissection → Prop} :
    Gives P (dissectSip parent data) (fun _ s => s.summary.info = sipText data) := by
  refine .after (fun _ => .after (fun _ => ?_))
  refine .bind (R := fun _ s => s.summary.info = sipText data) (.modify (fun _ _ => rfl)) ?_
  exact fun _ => addFields_leaves.gives fun told => told.1.info = sipText data

theorem dissectRtp_leaves : Leaves Dissection.ends (dissectRtp parent data) := by
  refine onlyIf_leaves (fun _ => .bind (setFlags_leaves (fun _ => ⟨rfl, rfl, rfl⟩)) (fun _ => ?_))
  refine .bind (.lift _) (fun pt => .bind (.lift _) (fun seq => .bind (.lift _) (fun ssrc => ?_)))
  refine .bind setProtocol_leaves (fun _ => .bind setInfo_leaves (fun _ => ?_))
  exact leaves_ends addFields_leaves

/- QUIC. -/

theorem annotateCryptoFrames_leaves {plain : Bytes} (fuel i : Nat) :
    Leaves Dissection.told (annotateCryptoFrames parent plain offset fuel i) := by
  induction fuel generalizing i with
  | zero => exact .lift _
  | succ fuel ih =>
    unfold annotateCryptoFrames
    refine .ite (fun _ => .bind (.lift _) (fun fty => ?_)) (fun _ => .pure _)
    refine .ite (fun _ => .bind (.lift _) (fun found => ?_)) (fun _ => ?_)
    · cases found with
      | none => exact .pure _
      | some found =>
        refine .bind (.lift _) (fun second => ?_)
        cases second with
        | none => exact .pure _
        | some second =>
          exact .bind (.lift _) (fun len => .bind addFields_leaves (fun _ => ih _))
    · refine .ite (fun _ => ih _) (fun _ => .ite (fun _ => ?_) (fun _ => .pure _))
      exact .bind addFields_leaves (fun _ => ih _)

theorem quicDecrypted_leaves {label : String} {fields : List (String × Nat × Nat)} {plain : Bytes} :
    Leaves Dissection.ends (quicDecrypted parent label fields plain offset) := by
  refine .bind (leaves_ends addSection_leaves) (fun sec => ?_)
  refine .bind (leaves_ends addFields_leaves) (fun _ => ?_)
  exact .bind (leaves_ends (annotateCryptoFrames_leaves _ _)) (fun _ => setInfo_leaves)

theorem quicTryNumbers_leaves {keys : QuicInitialKeys} {hdr ct : Bytes} (numbers : List Nat) :
    Leaves Dissection.ends (quicTryNumbers crates parent sec keys hdr ct offset numbers) := by
  induction numbers with
  | nil => exact .bind (leaves_ends addFields_leaves) (fun _ => setInfo_leaves)
  | cons n numbers ih =>
    unfold quicTryNumbers
    split
    · exact quicDecrypted_leaves
    · exact ih

theorem quicOpen_leaves {packet : Bytes} {keys : QuicInitialKeys} {pos protectedLen guess : Nat} :
    Leaves Dissection.ends
      (quicOpen crates parent sec packet offset keys pos protectedLen guess) := by
  refine .bind (.lift _) (fun first => .bind (.lift _) (fun pn => ?_))
  refine .ite (fun _ => setInfo_leaves) (fun _ => ?_)
  refine .bind (.lift _) (fun header => .bind (.lift _) (fun ciphertext => ?_))
  split
  · exact quicDecrypted_leaves
  · split
    · exact quicDecrypted_leaves
    · exact .bind (.lift _) (fun hdr => .bind (.lift _) (fun ct => quicTryNumbers_leaves _))

theorem dissectQuicInitial_leaves :
    Leaves Dissection.ends (dissectQuicInitial crates parent data offset) := by
  have fields : ∀ {sec : Nat} {fields : List (String × Nat × Nat)},
      Leaves Dissection.ends (addFields sec fields) := leaves_ends addFields_leaves
  refine .bind (setFlags_leaves (fun _ => ⟨rfl, rfl, rfl⟩)) (fun _ => ?_)
  refine .bind setProtocol_leaves (fun _ => .ite (fun _ => ?_) (fun _ => ?_))
  · refine .bind setInfo_leaves (fun _ => .bind (leaves_ends addSection_leaves) (fun sec => ?_))
    exact fields
  refine .bind (leaves_ends addSection_leaves) (fun sec => .bind (.lift _) (fun b0 => ?_))
  refine .bind (.lift _) (fun version => .bind fields (fun _ => .bind (.lift _) (fun dcil => ?_)))
  refine .ite (fun _ => .bind fields (fun _ => setInfo_leaves)) (fun _ => ?_)
  refine .bind (.lift _) (fun dcid => .bind fields (fun _ => .bind (.lift _) (fun found => ?_)))
  cases found with
  | none => exact setInfo_leaves
  | some found =>
    dsimp only
    split
    · exact setInfo_leaves
    · refine .bind fields (fun _ => .bind (.lift _) (fun packet => ?_))
      cases packet with
      | none => exact quicOpen_leaves
      | some packet => exact .bind fields (fun _ => quicOpen_leaves)

theorem dissectQuic_leaves : Leaves Dissection.ends (dissectQuic crates parent data offset) := by
  refine .bind (setFlags_leaves (fun _ => ⟨rfl, rfl, rfl⟩)) (fun _ => ?_)
  refine .bind setProtocol_leaves (fun _ => .ite (fun _ => setInfo_leaves) (fun _ => ?_))
  refine .bind (.lift _) (fun short => .ite (fun _ => ?_) (fun _ => dissectQuicInitial_leaves))
  refine .bind (leaves_ends addSection_leaves) (fun sec => .bind (.lift _) (fun first => ?_))
  exact .bind (leaves_ends addFields_leaves) (fun _ => setInfo_leaves)

/- UDP. -/

theorem udpApplication_leaves {sport dport : Nat} :
    Leaves Dissection.ends (udpApplication crates parent sport dport data offset) := by
  refine .bind (.lift _) (fun rtp => .bind (.lift _) (fun initial => .bind (.lift _) ?_))
  refine fun short => .bind (.lift _) (fun long => .ite (fun _ => ?_) (fun _ => ?_))
  · refine .bind dissectDns_leaves (fun r => .ite (fun _ => ?_) (fun _ => .ite (fun _ => ?_) ?_))
    · refine .bind (setFlags_leaves (fun _ => ⟨rfl, rfl, rfl⟩)) (fun _ => ?_)
      exact .bind setProtocol_leaves (fun _ => .pure _)
    · refine .bind (setFlags_leaves (fun _ => ⟨rfl, rfl, rfl⟩)) (fun _ => ?_)
      exact .bind setProtocol_leaves (fun _ => .pure _)
    · exact fun _ => .pure _
  refine .ite (fun _ => dissectDhcp_leaves) (fun _ => ?_)
  refine .ite (fun _ => .bind dissectSip_leaves (fun _ => .pure _)) (fun _ => ?_)
  refine .ite (fun _ => .bind dissectRtp_leaves (fun _ => .pure _)) (fun _ => ?_)
  refine .ite (fun _ => .bind dissectQuic_leaves (fun _ => .bind (.modify ?_) ?_)) ?_
  · intro s
    unfold Dissection.ends
    dsimp only
    split <;> rfl
  · exact fun _ => .pure _
  · exact fun _ => .pure _

/-- Either all of the payload is left or nothing. -/
theorem udpApplication_gives {P : Dissection → Prop} {sport dport : Nat} :
    Gives P (udpApplication crates parent sport dport data offset)
      (fun r _ => r = restFrom offset 0 data ∨ r = restFrom offset data.length data) := by
  have whole : ∀ {P : Dissection → Prop}, Gives P
      (pure { payload := data, payloadOffset := offset } : Dissector LayerResult)
        (fun r _ => r = restFrom offset 0 data ∨ r = restFrom offset data.length data) :=
    .pure (fun _ _ => .inl rfl)
  refine .after (fun rtp => .after (fun initial => .after (fun short => .after (fun long => ?_))))
  refine .ite (fun _ => ?_) (fun _ => .ite (fun _ => dissectDhcp_gives) (fun _ => ?_))
  · refine .value dissectDns_gives (.ite (fun _ => ?_) (fun _ => .ite (fun _ => ?_) (fun _ => ?_)))
    · exact .after (fun _ => .after (fun _ => .pure (fun _ _ => .inr rfl)))
    · exact .after (fun _ => .after (fun _ => .pure (fun _ _ => .inr rfl)))
    · exact .pure (fun _ _ => .inr rfl)
  refine .ite (fun _ => .after (fun _ => whole)) (fun _ => ?_)
  refine .ite (fun _ => .after (fun _ => whole)) (fun _ => ?_)
  exact .ite (fun _ => .after (fun _ => .after (fun _ => whole))) (fun _ => whole)

end

/- TCP. -/

def tlsLike (p : Bytes) : Bool :=
  5 ≤ p.length && ((octet p 0 == 0x16 || octet p 0 == 0x17 || octet p 0 == 0x15 ||
    octet p 0 == 0x14) && octet p 1 == 0x03)

def http2Like (p : Bytes) : Bool :=
  9 ≤ p.length && (octet p 3 ≤ 0x09 && beAt p 0 3 + 9 ≤ p.length + 16384)

def wsLike (p : Bytes) : Bool :=
  2 ≤ p.length && ([0x0, 0x1, 0x2, 0x8, 0x9, 0xa].contains (octet p 0 &&& 0x0f) &&
    octet p 0 &&& 0x70 == 0)

theorem looksLikeTls_like (p : Bytes) : looksLikeTls p = .ok (tlsLike p) := by
  unfold looksLikeTls tlsLike
  split
  · next long =>
    rw [byteAt_ok (by omega), byteAt_ok (by omega)]
    simp [long]
  · next short => simp [short]

theorem looksLikeHttp2_like (p : Bytes) : looksLikeHttp2 p = .ok (http2Like p) := by
  unfold looksLikeHttp2 http2Like
  split
  · next short => simp [Nat.not_le.mpr short]
  · next long =>
    rw [readBE_ok (by omega), byteAt_ok (by omega)]
    simp [Nat.le_of_not_lt long]

theorem looksLikeWsFrame_like (p : Bytes) : looksLikeWsFrame p = .ok (wsLike p) := by
  unfold looksLikeWsFrame wsLike
  split
  · next short => simp [Nat.not_le.mpr short]
  · next long =>
    rw [byteAt_ok (by omega)]
    simp [Nat.le_of_not_lt long]

/-- The applications over TCP. -/
inductive TcpApplication where
  | tls
  | http2
  | http1
  | websocket
  | sip
  deriving DecidableEq, Repr

/-- The application recognised in a segment, by its ports and its payload. -/
def recognised (sport dport : Nat) (payload : Bytes) : Option TcpApplication :=
  if payload = [] then none
  else if sport = 443 ∨ dport = 443 ∨ tlsLike payload then some .tls
  else if http2Preface.isPrefixOf payload ∨ http2Like payload then some .http2
  else if looksLikeHttp1 payload then some .http1
  else if wsLike payload then some .websocket
  else if sport = 5060 ∨ dport = 5060 ∨ looksLikeSip payload then some .sip
  else none

/-- How much of the payload is taken away by the application. -/
def taken (crates : Crates) (payload : Bytes) : Option TcpApplication → Nat
  | some .tls | some .http2 => payload.length
  | some .http1 => http1Head crates payload
  | some .websocket => wsHeader payload
  | some .sip | none => 0

/-- What the info is once the application has been called; `own` is that of TCP. -/
def InfoOf (crates : Crates) (own : String) (payload : Bytes) (info : String) :
    Option TcpApplication → Prop
  | none => info = own
  | some .tls => info = tlsText crates payload
  | some .http1 => info = http1Text crates payload
  | some .sip => info = sipText payload
  | some .http2 | some .websocket => Bracketless info

section

variable {crates : Crates} {parent sport dport offset : Nat} {data : Bytes}

/-- Only TLS changes what is told of the layers below. -/
def Ends.with (ends : Ends) (application : Option TcpApplication) : Ends :=
  if application = some .tls then { ends with tls := true } else ends

/-- The result, the ends and the info by the application that is recognised, where no WebSocket
was seen before. -/
theorem tcpApplication_gives (nonempty : data ≠ []) (own : String) (ends : Ends) :
    Gives (fun s => s.flags.websocket = false ∧ s.summary.info = own ∧ s.ends = ends)
      (tcpApplication crates parent sport dport data offset) (fun r s =>
        (r = restFrom offset (taken crates data (recognised sport dport data)) data ∧
          InfoOf crates own data s.summary.info (recognised sport dport data)) ∧
            s.ends = ends.with (recognised sport dport data)) := by
  unfold tcpApplication recognised
  rw [looksLikeTls_like, looksLikeHttp2_like, looksLikeWsFrame_like, read_ok, read_ok, read_ok,
    pure_bind, pure_bind, pure_bind, if_neg nonempty]
  refine .bind (R := fun before s => before.flags.websocket = false ∧ s.summary.info = own ∧
    s.ends = ends) (.get (fun _ known => known)) (fun before => ?_)
  refine .known (fun _ known => known.1) (fun fresh => ?_)
  have kept : ∀ {α : Type} {m : Dissector α}, Leaves Dissection.ends m →
      Gives (fun s => before.flags.websocket = false ∧ s.summary.info = own ∧ s.ends = ends) m
        (fun _ s => s.ends = ends) := fun leaves =>
    (leaves.gives fun e => e = ends).mono (fun _ known => known.2.2) (fun _ _ h => h)
  by_cases tls : sport = 443 ∨ dport = 443 ∨ tlsLike data = true
  · rw [if_pos tls, if_pos tls, taken, restFrom_length]
    refine dissectTls_gives.and ?_
    exact (dissectTls_marks ends).mono (fun _ known => known.2.2) (fun _ _ h => h)
  rw [if_neg tls, if_neg tls]
  by_cases http2 : http2Preface.isPrefixOf data = true ∨ http2Like data = true
  · rw [if_pos http2, if_pos http2, taken, restFrom_length]
    exact dissectHttp2_gives.and (kept dissectHttp2_leaves)
  rw [if_neg http2, if_neg http2]
  by_cases http1 : looksLikeHttp1 data = true
  · rw [if_pos http1, if_pos http1]
    refine .and ?_ (kept ?_)
    · refine .bind dissectHttp1_gives (fun r => ?_)
      refine .known (c := r = restFrom offset (http1Head crates data) data) (fun _ both => both.1) ?_
      rintro rfl
      refine .bind (R := fun _ s => s.summary.info = http1Text crates data) ?_ (fun _ => ?_)
      · exact .ite (fun _ => .modify (fun _ both => both.2)) (fun _ => .pure (fun _ both => both.2))
      · exact .pure (fun _ info => ⟨rfl, info⟩)
    · refine .bind dissectHttp1_leaves (fun r => .bind (onlyIf_leaves (fun _ => ?_)) ?_)
      · exact setFlags_leaves (fun _ => ⟨rfl, rfl, rfl⟩)
      · exact fun _ => .pure _
  rw [if_neg http1, if_neg http1]
  have upgraded : (before.flags.websocket = true ∨ wsLike data = true) ↔ wsLike data = true := by
    simp [fresh]
  by_cases frame : wsLike data = true
  · rw [if_pos (upgraded.mpr frame), if_pos frame]
    refine .and (dissectWebsocket_gives ?_) (kept dissectWebsocket_leaves)
    simp only [wsLike, Bool.and_eq_true, decide_eq_true_eq] at frame
    exact frame.1
  rw [if_neg (mt upgraded.mp frame), if_neg frame]
  by_cases sip : sport = 5060 ∨ dport = 5060 ∨ looksLikeSip data = true
  · rw [if_pos sip, if_pos sip]
    refine .and ?_ (kept (.bind dissectSip_leaves (fun _ => .pure _)))
    exact .bind dissectSip_gives (fun _ => .pure (fun _ info => ⟨rfl, info⟩))
  · rw [if_neg sip, if_neg sip]
    exact .pure (fun _ known => ⟨⟨rfl, known.2.1⟩, known.2.2⟩)

end

end BitBeak
