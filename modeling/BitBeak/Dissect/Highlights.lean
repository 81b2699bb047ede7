import BitBeak.Dissect.Handover

/-! Which of the octets that a layer is handed its nodes mark: those of every layer but SIP, RTP
and 802.11 behind a radiotap header, whose nodes are laid at the start of the frame. -/
namespace BitBeak
open Wire Dissector

/-- Every node of the layer marks octets that the layer was handed. -/
def Handover.Right (h : Handover) : Prop :=
  ∀ range ∈ h.added, h.offset ≤ range.1 ∧ range.1 + range.2 ≤ h.offset + h.data.length

instance (h : Handover) : Decidable h.Right :=
  inferInstanceAs (Decidable (∀ range ∈ h.added,
    h.offset ≤ range.1 ∧ range.1 + range.2 ≤ h.offset + h.data.length))

/-- The dissection of the frame ends, every layer is handed octets of the frame, and its nodes
mark some of them. -/
def HighlightsRight (crates : Crates) (keylog : Option KeyLog) (frame : Bytes)
    (linkType : LinkType) : Prop :=
  ∃ handed, frameHandovers crates keylog frame linkType = .ok handed ∧
    ∀ h ∈ handed, At frame h.offset h.data ∧ h.Right

/- The layers that mark other octets, found by the headers of the frame. -/

def rtpLike (payload : Bytes) : Bool := 12 ≤ payload.length && octet payload 0 >>> 6 == 2

/-- SIP or RTP over UDP. -/
def udpVoip (sport dport : Nat) (payload : Bytes) : Bool :=
  if sport = 53 ∨ dport = 53 ∨ sport = 5353 ∨ dport = 5353 ∨ sport = 5355 ∨ dport = 5355 then false
  else if sport = 67 ∨ dport = 67 ∨ sport = 68 ∨ dport = 68 then false
  else sport == 5060 || dport == 5060 || looksLikeSip payload || rtpLike payload

def segmentVoip (data : Bytes) : Bool :=
  20 ≤ data.length && (tcpHeader 0 data).application == some .sip

def datagramVoip (data : Bytes) : Bool :=
  8 ≤ data.length && udpVoip (beAt data 0 2) (beAt data 2 2) (data.drop 8)

def ipv4Voip (data : Bytes) : Bool :=
  let ihl := (octet data 0 &&& 0x0f).toNat * 4
  if data.length < 20 ∨ ihl < 20 ∨ data.length < ihl then false
  else if octet data 9 = 6 then segmentVoip (ipv4Payload data ihl)
  else if octet data 9 = 17 then datagramVoip (ipv4Payload data ihl)
  else false

/-- In the packet or in one that an error in it quotes. -/
def ipv6Voip : Nat → Bytes → Bool
  | 0, _ => false
  | fuel + 1, data =>
    let (next, cursor) := extensionsEnd data (data.length + 1) (octet data 6) 40
    let payload := data.drop cursor
    if data.length < 40 then false
    else if next = 58 then
      Quotes (octet payload 0) payload && ipv6Voip fuel (payload.drop 8)
    else if next = 6 then segmentVoip payload
    else if next = 17 then datagramVoip payload
    else false

def networkVoip (frame : Bytes) : Option (Nat × Nat) → Bool
  | none => false
  | some (version, off) =>
    let packet := frame.drop off
    if version = 4 then ipv4Voip packet else ipv6Voip (packet.length + 1) packet

/-- An 802.11 header behind a radiotap header that is not empty. -/
def dot11Behind (frame : Bytes) : Bool :=
  8 ≤ frame.length && 0 < leAt frame 2 2 && leAt frame 2 2 + 24 ≤ frame.length

/-- Some layer of the frame is given no offset and does not start the frame. -/
def mismarks (frame : Bytes) (linkType : LinkType) : Bool :=
  networkVoip frame (networkAt linkType frame) ||
    linkType == .ieee80211Radio && dot11Behind frame

/- Nodes that a part of the dissection adds. -/

/-- All nodes from the `n`th on lie between `lo` and `hi`. -/
structure Grown (n lo hi : Nat) (s : Dissection) : Prop where
  long : n ≤ s.tree.nodes.length
  within : ∀ i node, n ≤ i → s.tree.nodes[i]? = some node →
    lo ≤ node.offset ∧ node.offset + node.len ≤ hi

/-- The `n`th node starts at `at_`. -/
def Laid (n at_ : Nat) (s : Dissection) : Prop :=
  ∃ node, s.tree.nodes[n]? = some node ∧ node.offset = at_

section

variable {n lo hi at_ : Nat}

theorem length_addChild (tree : ProtoTree) (parent : Nat) (label : String) (offset len : Nat) :
    (tree.addChild parent label offset len).1.nodes.length = tree.nodes.length + 1 := by
  simp [ProtoTree.addChild]

/-- A node of the tree with one more child is the new one or a node of the tree. -/
theorem getElem?_addChild {tree : ProtoTree} {parent i : Nat} {label : String} {offset len : Nat}
    {node : ProtoNode} (found : (tree.addChild parent label offset len).1.nodes[i]? = some node) :
    (i = tree.nodes.length ∧ node.offset = offset ∧ node.len = len) ∨
      ∃ before, tree.nodes[i]? = some before ∧ node.offset = before.offset ∧
        node.len = before.len := by
  rw [ProtoTree.addChild, List.getElem?_modify] at found
  obtain ⟨before, there, changed⟩ := Option.map_eq_some_iff.mp found
  have kept : node.offset = before.offset ∧ node.len = before.len := by
    split at changed <;> subst changed <;> exact ⟨rfl, rfl⟩
  rw [List.getElem?_append] at there
  split at there
  · exact .inr ⟨before, there, kept⟩
  · next beyond =>
    rw [List.getElem?_singleton] at there
    split at there
    · next first =>
      cases there
      exact .inl ⟨by omega, kept⟩
    · cases there

/-- The nodes of the tree start where they started. -/
theorem getElem?_addChild_of {tree : ProtoTree} {parent i : Nat} {label : String}
    {offset len : Nat} {before : ProtoNode} (there : tree.nodes[i]? = some before) :
    ∃ node, (tree.addChild parent label offset len).1.nodes[i]? = some node ∧
      node.offset = before.offset := by
  have inside := (List.getElem?_eq_some_iff.mp there).1
  rw [ProtoTree.addChild, List.getElem?_modify, List.getElem?_append_left inside, there]
  refine ⟨_, rfl, ?_⟩
  split <;> rfl

theorem Grown.allows : Allows lo hi (Grown n lo hi) where
  node s parent label offset len grown within := by
    refine ⟨?_, ?_⟩
    · rw [length_addChild]
      exact Nat.le_succ_of_le grown.long
    · intro i node later found
      rcases getElem?_addChild found with ⟨_, start, width⟩ | ⟨before, there, start, width⟩
      · rw [start, width]
        exact within
      · rw [start, width]
        exact grown.within i before later there
  summary _ _ grown := ⟨grown.long, grown.within⟩
  flags _ _ _ grown := ⟨grown.long, grown.within⟩
  marks _ _ _ grown := ⟨grown.long, grown.within⟩

theorem Laid.allows : Allows lo hi (Laid n at_) where
  node s parent label offset len := by
    rintro ⟨before, there, start⟩ _
    obtain ⟨node, here, same⟩ := getElem?_addChild_of there
    exact ⟨node, here, same.trans start⟩
  summary _ _ laid := laid
  flags _ _ _ laid := laid
  marks _ _ _ laid := laid

/-- The next node is the one that is added. -/
theorem addField_laid {parent len : Nat} {label : String} :
    Meets (fun s => s.tree.nodes.length = n) (addFields parent [(label, at_, len)])
      (fun _ => Laid n at_) := by
  rintro s rfl
  have room : s.tree.nodes.length < (s.tree.addChild parent label at_ len).1.nodes.length := by
    rw [length_addChild]
    exact Nat.lt_succ_self _
  refine ⟨_, _, rfl, _, List.getElem?_eq_getElem room, ?_⟩
  rcases getElem?_addChild (List.getElem?_eq_getElem room) with ⟨_, start, _⟩ | ⟨_, there, _⟩
  · exact start
  · rw [List.getElem?_eq_none (Nat.le_refl _)] at there
    cases there

end

/- The applications. -/

section

variable {crates : Crates} {keylog : Option KeyLog} {parent sport dport offset n : Nat}
variable {data : Bytes}

/-- Applications other than SIP stay in the payload. -/
theorem tcpApplication_grown (contract : crates.Contract) (nonempty : data ≠ [])
    (other : recognised sport dport data ≠ some .sip) :
    Keeps (Grown n offset (offset + data.length))
      (tcpApplication crates parent sport dport data offset) := by
  have allows : Allows offset (offset + data.length) (Grown n offset (offset + data.length)) :=
    Grown.allows
  have marked : Keeps (Grown n offset (offset + data.length))
      (setFlags fun f => { f with tls := true }) :=
    .modify (fun _ grown => ⟨grown.long, grown.within⟩)
  have low := Nat.le_refl offset
  have fits := Nat.le_refl (offset + data.length)
  unfold recognised at other
  rw [if_neg nonempty] at other
  unfold tcpApplication
  rw [looksLikeTls_like, looksLikeHttp2_like, looksLikeWsFrame_like, read_ok, read_ok, read_ok,
    pure_bind, pure_bind, pure_bind]
  refine .bind .get (fun s => ?_)
  refine .ite (fun _ => dissectTls_keeps allows marked contract low fits) (fun tls => ?_)
  rw [if_neg tls] at other
  refine .ite (fun _ => dissectHttp2_keeps allows low fits) (fun http2 => ?_)
  rw [if_neg http2] at other
  refine .ite (fun _ => ?_) (fun http1 => ?_)
  · refine .bind (dissectHttp1_keeps allows contract low fits) (fun r => ?_)
    refine .bind (onlyIf_keeps (fun _ => ?_)) (fun _ => .pure r)
    exact allows.setFlags (fun _ => ⟨rfl, rfl, rfl⟩)
  rw [if_neg http1] at other
  refine .ite (fun _ => dissectWebsocket_keeps allows low fits) (fun ws => ?_)
  rw [if_neg (fun like => ws (.inr like))] at other
  refine .ite (fun sip => ?_) (fun _ => .pure _)
  exact absurd (if_pos sip) other

theorem udpApplication_grown (contract : crates.Contract)
    (other : udpVoip sport dport data = false) :
    Keeps (Grown n offset (offset + data.length))
      (udpApplicationWith crates keylog parent sport dport data offset) := by
  have allows : Allows offset (offset + data.length) (Grown n offset (offset + data.length)) :=
    Grown.allows
  have low := Nat.le_refl offset
  have fits := Nat.le_refl (offset + data.length)
  have renamed : ∀ {change : ProtocolFlags → ProtocolFlags} {name : String} {r : LayerResult},
      (∀ flags, (change flags).tcp = flags.tcp ∧ (change flags).udp = flags.udp ∧
        (change flags).tls = flags.tls) →
      Keeps (Grown n offset (offset + data.length))
        (do setFlags change; setProtocol name; return r) :=
    fun same => .bind (allows.setFlags same) (fun _ => .bind allows.setSummary (fun _ => .pure _))
  obtain ⟨initial, known⟩ := looksLikeQuicInitial_ok data
  obtain ⟨long, known'⟩ := hasLongHeader_ok data
  unfold udpVoip at other
  unfold udpApplicationWith
  rw [looksLikeRtp_ok, known, looksLikeQuicShort_ok, known', read_ok, read_ok, read_ok, read_ok,
    pure_bind, pure_bind, pure_bind, pure_bind]
  refine .ite (fun _ => ?_) (fun dns => .ite ?_ (fun dhcp => ?_))
  · refine .bind (dissectDns_keeps allows contract low fits) (fun r => ?_)
    refine .ite (fun _ => renamed (fun _ => ⟨rfl, rfl, rfl⟩)) (fun _ => .ite (fun _ => ?_) ?_)
    · exact renamed (fun _ => ⟨rfl, rfl, rfl⟩)
    · exact fun _ => .pure r
  · exact fun _ => dissectDhcp_keeps allows low fits
  rw [if_neg dns, if_neg dhcp] at other
  simp only [Bool.or_eq_false_iff, beq_eq_false_iff_ne, rtpLike] at other
  obtain ⟨⟨⟨sport', dport'⟩, sip⟩, rtp⟩ := other
  rw [rtp]
  refine .ite (fun voip => ?_) (fun _ => .ite (fun voip => ?_) (fun _ => .ite ?_ (fun _ => .pure _)))
  · simp [sport', dport', sip] at voip
  · cases voip
  · exact fun _ => .bind (dissectQuicWith_keeps allows contract keylog low fits)
      (fun _ => .bind allows.setSummary (fun _ => .pure _))

theorem setFlags_sized {change : ProtocolFlags → ProtocolFlags} :
    Keeps (fun s => s.tree.nodes.length = n) (setFlags change) :=
  .modify (fun _ size => size)

theorem setSummary_sized {change : PacketSummary → PacketSummary} :
    Keeps (fun s => s.tree.nodes.length = n) (setSummary change) :=
  .modify (fun _ size => size)

theorem dissectSip_laid :
    Meets (fun s => s.tree.nodes.length = n) (dissectSip parent data) (fun _ => Laid n 0) :=
  .bind setFlags_sized (fun _ => .bind setSummary_sized (fun _ =>
    .bind setSummary_sized (fun _ => addField_laid)))

theorem dissectRtp_laid (long : 12 ≤ data.length) :
    Meets (fun s => s.tree.nodes.length = n) (dissectRtp parent data) (fun _ => Laid n 0) := by
  unfold dissectRtp onlyIf
  rw [if_pos long]
  refine .bind setFlags_sized (fun _ => ?_)
  simp (disch := omega) only [byteAt_ok, readBE_ok, read_ok, pure_bind]
  exact .bind setSummary_sized (fun _ => .bind setSummary_sized (fun _ => addField_laid))

/-- SIP is laid at the start of the frame, where no WebSocket was seen before. -/
theorem tcpApplication_laid (sip : recognised sport dport data = some .sip) :
    Meets (fun s => s.flags.websocket = false ∧ s.tree.nodes.length = n)
      (tcpApplication crates parent sport dport data offset) (fun _ => Laid n 0) := by
  unfold recognised at sip
  split at sip
  · cases sip
  split at sip
  · cases sip
  next tls =>
  split at sip
  · cases sip
  next http2 =>
  split at sip
  · cases sip
  next http1 =>
  split at sip
  · cases sip
  next ws =>
  split at sip
  · next voip =>
    have laid : Meets (fun s => s.tree.nodes.length = n) (do
        dissectSip parent data
        return ({ payload := data, payloadOffset := offset } : LayerResult))
        (fun _ => Laid n 0) :=
      .bind dissectSip_laid (fun _ => .pure (fun _ laid => laid))
    unfold tcpApplication
    rw [looksLikeTls_like, looksLikeHttp2_like, looksLikeWsFrame_like, read_ok, read_ok, read_ok,
      pure_bind, pure_bind, pure_bind]
    refine .bind (R := fun before s => before.flags.websocket = false ∧
      s.tree.nodes.length = n) (.get (fun _ both => both)) (fun before => ?_)
    rintro s ⟨fresh, size⟩
    dsimp only
    rw [if_neg tls, if_neg http2, if_neg http1, if_neg (by simp [fresh, ws]), if_pos voip]
    exact laid s size
  · cases sip

theorem udpApplication_laid (voip : udpVoip sport dport data = true) :
    Meets (fun s => s.tree.nodes.length = n)
      (udpApplicationWith crates keylog parent sport dport data offset) (fun _ => Laid n 0) := by
  obtain ⟨initial, known⟩ := looksLikeQuicInitial_ok data
  obtain ⟨long, known'⟩ := hasLongHeader_ok data
  unfold udpVoip at voip
  unfold udpApplicationWith
  rw [looksLikeRtp_ok, known, looksLikeQuicShort_ok, known', read_ok, read_ok, read_ok, read_ok,
    pure_bind, pure_bind, pure_bind, pure_bind]
  split at voip
  · cases voip
  next dns =>
  split at voip
  · cases voip
  next dhcp =>
  rw [if_neg dns, if_neg dhcp]
  refine .ite (fun _ => .bind dissectSip_laid (fun _ => .pure (fun _ laid => laid))) (fun sip => ?_)
  have rtp : rtpLike data = true := by
    simp only [not_or] at sip
    simpa [sip.1, sip.2.1, sip.2.2] using voip
  rw [← rtpLike, if_pos rtp]
  have width : 12 ≤ data.length := by
    simp only [rtpLike, Bool.and_eq_true, decide_eq_true_eq] at rtp
    exact rtp.1
  exact .bind (dissectRtp_laid width) (fun _ => .pure (fun _ laid => laid))

end

/- Hand-overs. -/

def Plain (s : Dissection) : Prop := s.flags.websocket = false

def AllRight (frame : Bytes) (handed : List Handover) : Prop :=
  ∀ h ∈ handed, At frame h.offset h.data ∧ h.Right

/-- In front of the transport layer. -/
def Ready (frame : Bytes) (w : Noted Dissection Handover) : Prop :=
  Plain w.state ∧ AllRight frame w.notes

/-- The layers were handed octets of the frame, and whether they all mark these. -/
def Verdict (frame : Bytes) (right : Prop) (w : Noted Dissection Handover) : Prop :=
  (∀ h ∈ w.notes, At frame h.offset h.data) ∧ ((∀ h ∈ w.notes, h.Right) ↔ right)

section

variable {α : Type} {frame data : Bytes} {offset : Nat} {layer : Layer} {m : Dissector α}

theorem Ready.verdict {w : Noted Dissection Handover} {right : Prop} (ready : Ready frame w)
    (holds : right) : Verdict frame right w :=
  ⟨fun h member => (ready.2 h member).1, iff_of_true (fun h member => (ready.2 h member).2) holds⟩

theorem Plain.admits {lo hi : Nat} : Admits lo hi Plain where
  node _ _ _ _ _ plain _ := plain
  summary _ _ plain := plain
  flags s _ same plain := ((same s.flags).2.2.2).trans plain

/-- No node is new yet. -/
theorem Grown.start (s : Dissection) (lo hi : Nat) : Grown s.tree.nodes.length lo hi s := by
  refine ⟨Nat.le_refl _, ?_⟩
  intro i node later found
  rw [List.getElem?_eq_none later] at found
  cases found

theorem Grown.right {before after : Dissection}
    (grown : Grown before.tree.nodes.length offset (offset + data.length) after) :
    (handover layer offset data before after).Right := by
  intro range member
  obtain ⟨node, found, rfl⟩ := List.mem_map.mp member
  obtain ⟨i, there⟩ := List.mem_iff_getElem?.mp found
  rw [List.getElem?_drop] at there
  exact grown.within _ node (Nat.le_add_right _ _) there

theorem Laid.not_right {before after : Dissection} (behind : 0 < offset)
    (laid : Laid before.tree.nodes.length 0 after) :
    ¬ (handover layer offset data before after).Right := by
  intro right
  obtain ⟨node, there, start⟩ := laid
  have added : (node.offset, node.len) ∈ (handover layer offset data before after).added := by
    refine List.mem_map.mpr ⟨node, ?_, rfl⟩
    refine List.mem_iff_getElem?.mpr ⟨0, ?_⟩
    rw [List.getElem?_drop]
    exact there
  have within := (right _ added).1
  dsimp only [handover] at within
  omega

theorem handing_ready {Q : α → Dissection → Prop} (placed : At frame offset data)
    (run : ∀ n, Meets (fun s => Plain s ∧ Grown n offset (offset + data.length) s) m
      (fun a s => Q a s ∧ Grown n offset (offset + data.length) s)) :
    Meets (Ready frame) (handing layer offset data m)
      (fun a w => Q a w.state ∧ AllRight frame w.notes) := by
  apply Meets.noted
  intro s plain
  obtain ⟨a, t, ran, known, grown⟩ := run _ s ⟨plain, Grown.start s _ _⟩
  refine ⟨a, t, ran, known, ?_⟩
  intro notes all h member
  rcases List.mem_append.mp member with old | new
  · exact all h old
  · cases List.mem_singleton.mp new
    exact ⟨placed, grown.right⟩

theorem handing_right {right : Prop} (holds : right) (placed : At frame offset data)
    (run : ∀ n, Keeps (Grown n offset (offset + data.length)) m) :
    Meets (Ready frame) (handing layer offset data m) (fun _ => Verdict frame right) := by
  intro w ready
  obtain ⟨a, after, ran, _, all⟩ := @handing_ready _ _ _ _ layer _ (fun _ _ => True) placed
    (fun n s both => by
      obtain ⟨a, t, ran, grown⟩ := run n s both.2
      exact ⟨a, t, ran, trivial, grown⟩) w ready
  exact ⟨a, after, ran, fun h member => (all h member).1,
    iff_of_true (fun h member => (all h member).2) holds⟩

theorem handing_wrong {right : Prop} (fails : ¬ right) (placed : At frame offset data)
    (behind : 0 < offset)
    (run : ∀ n, Meets (fun s => Plain s ∧ s.tree.nodes.length = n) m (fun _ => Laid n 0)) :
    Meets (Ready frame) (handing layer offset data m) (fun _ => Verdict frame right) := by
  rintro w ⟨plain, all⟩
  obtain ⟨a, t, ran, laid⟩ := run _ w.state ⟨plain, rfl⟩
  refine ⟨a, { state := t, notes := w.notes ++ [handover layer offset data w.state t] }, ?_, ?_, ?_⟩
  · rw [handing, noted, ran]
  · intro h member
    rcases List.mem_append.mp member with old | new
    · exact (all h old).1
    · cases List.mem_singleton.mp new
      exact placed
  · refine iff_of_false (fun right => ?_) fails
    exact laid.not_right behind (right _ (List.mem_append_right _ (List.mem_singleton_self _)))

/-- A part that hands nothing on. -/
theorem unnoted_ready {Q : α → Dissection → Prop} (run : Meets Plain m Q) :
    Meets (Ready frame) (unnoted m)
      (fun a w => Q a w.state ∧ AllRight frame w.notes) :=
  Meets.unnoted run

theorem unnoted_keeps (run : Keeps Plain m) : Keeps (Ready frame) (unnoted m) :=
  unnoted_ready run

end

/- The transport layer. -/

section

variable {crates : Crates} {keylog : Option KeyLog} {frame data : Bytes} {parent offset n : Nat}

/-- In front of the transport layer, with `n` nodes of the layers below. -/
def Opening (n lo hi : Nat) (s : Dissection) : Prop := Plain s ∧ Grown n lo hi s

theorem Opening.admits {lo hi : Nat} : Admits lo hi (Opening n lo hi) where
  node s parent label off len opening within :=
    ⟨opening.1, Grown.allows.node s parent label off len opening.2 within⟩
  summary s change opening := ⟨opening.1, Grown.allows.summary s change opening.2⟩
  flags s change same opening :=
    ⟨((same s.flags).2.2.2).trans opening.1,
      Grown.allows.flags s change same opening.2⟩

/-- The flag of the transport layer itself. -/
theorem Opening.setFlags {lo hi : Nat} {change : ProtocolFlags → ProtocolFlags}
    (same : ∀ flags, (change flags).websocket = flags.websocket) :
    Keeps (Opening n lo hi) (Dissector.setFlags change) :=
  .modify (fun s opening => ⟨(same s.flags).trans opening.1, opening.2.long, opening.2.within⟩)

theorem Opening.noteTransport {lo hi : Nat} {transport : Transport} :
    Keeps (Opening n lo hi) (Dissector.noteTransport transport) :=
  .modify (fun _ opening => ⟨opening.1, opening.2.long, opening.2.within⟩)

/-- Nodes of the header stay in the segment. -/
theorem tcpHead_meets (long : 20 ≤ data.length) :
    Meets (Opening n offset (offset + data.length)) (tcpHead parent data offset) (fun found s =>
      (found = (beAt data 0 2, beAt data 2 2,
        { payload := (tcpHeader offset data).payload,
          payloadOffset := (tcpHeader offset data).payloadOffset }) ∧ Plain s) ∧
        Grown n offset (offset + data.length) s) := by
  have admits : Admits offset (offset + data.length) (Opening n offset (offset + data.length)) :=
    Opening.admits
  unfold tcpHead
  refine .bind (Opening.setFlags (fun _ => rfl)) (fun _ => ?_)
  simp (disch := omega) only [readBE_ok, byteAt_ok, tailOrEmpty_ok, read_ok, pure_bind]
  refine .bind (admits.addSection (by omega)) (fun sec => .bind (admits.addFields ?_) (fun _ => ?_))
  · simp only [List.forall_mem_cons, List.not_mem_nil, false_implies, implies_true, and_true]
    omega
  refine .bind (onlyIf_keeps (fun options => ?_)) (fun _ => .bind Opening.noteTransport ?_)
  · rw [checkedSub_ok (by omega), read_ok, pure_bind]
    exact admits.addField (by omega)
  refine fun _ => .bind admits.setSummary (fun _ => .bind admits.setSummary (fun _ => ?_))
  refine .bind admits.setSummary (fun _ => .pure ?_)
  exact fun _ opening => ⟨⟨rfl, opening.1⟩, opening.2⟩

theorem udpHead_meets (long : 8 ≤ data.length) :
    Meets (Opening n offset (offset + data.length)) (udpHead parent data offset) (fun found s =>
      (found = (beAt data 0 2, beAt data 2 2,
        { payload := data.drop 8, payloadOffset := offset + 8 }) ∧ Plain s) ∧
        Grown n offset (offset + data.length) s) := by
  have admits : Admits offset (offset + data.length) (Opening n offset (offset + data.length)) :=
    Opening.admits
  unfold udpHead
  refine .bind (Opening.setFlags (fun _ => rfl)) (fun _ => ?_)
  simp (disch := omega) only [readBE_ok, sliceFrom_ok, read_ok, pure_bind]
  refine .bind (admits.addSection (by omega)) (fun sec => .bind (admits.addFields ?_) (fun _ => ?_))
  · simp only [List.forall_mem_cons, List.not_mem_nil, false_implies, implies_true, and_true]
    omega
  refine .bind admits.setSummary (fun _ => .bind Opening.noteTransport (fun _ => ?_))
  refine .bind admits.setSummary (fun _ => .bind admits.setSummary (fun _ => .pure ?_))
  exact fun _ opening => ⟨⟨rfl, opening.1⟩, opening.2⟩

theorem dissectTcpNoted_meets (contract : crates.Contract) (placed : At frame offset data)
    (behind : 0 < offset) :
    Meets (Ready frame) (dissectTcpNoted crates parent data offset)
      (fun _ => Verdict frame (segmentVoip data = false)) := by
  unfold dissectTcpNoted
  refine .ite (fun short => ?_) (fun long => ?_)
  · have none : segmentVoip data = false := by
      simp [segmentVoip, Nat.not_le.mpr short]
    exact handing_right none placed (fun _ => .pure _)
  have room := Nat.le_of_not_lt long
  refine .bind (handing_ready placed (fun n => tcpHead_meets room)) (fun found => ?_)
  rintro w ⟨⟨rfl, plain⟩, all⟩
  have ready : Ready frame w := ⟨plain, all⟩
  have inner : At frame (tcpHeader offset data).payloadOffset (tcpHeader offset data).payload :=
    placed.drop (Nat.min_le_right _ _)
  have known : segmentVoip data = true ↔ recognised (beAt data 0 2) (beAt data 2 2)
      (tcpHeader offset data).payload = some .sip := by
    simp [segmentVoip, room, Transport.application, tcpHeader]
  dsimp only
  split
  · next empty =>
    refine ⟨_, w, rfl, ready.verdict ?_⟩
    rw [← Bool.not_eq_true, known, recognised, if_pos empty]
    exact nofun
  · next nonempty =>
    by_cases sip : recognised (beAt data 0 2) (beAt data 2 2) (tcpHeader offset data).payload =
        some .sip
    · refine handing_wrong ?_ inner (Nat.lt_add_right _ behind)
        (fun n => tcpApplication_laid sip) w ready
      simp [known.mpr sip]
    · refine handing_right ?_ inner (fun n => tcpApplication_grown contract nonempty sip) w ready
      rwa [← Bool.not_eq_true, known]

theorem dissectUdpNoted_meets (contract : crates.Contract) (placed : At frame offset data) :
    Meets (Ready frame) (dissectUdpNoted crates keylog parent data offset)
      (fun _ => Verdict frame (datagramVoip data = false)) := by
  unfold dissectUdpNoted
  refine .ite (fun short => ?_) (fun long => ?_)
  · have none : datagramVoip data = false := by
      simp [datagramVoip, Nat.not_le.mpr short]
    exact handing_right none placed (fun _ => .pure _)
  have room := Nat.le_of_not_lt long
  refine .bind (handing_ready placed (fun n => udpHead_meets room)) (fun found => ?_)
  rintro w ⟨⟨rfl, plain⟩, all⟩
  have known : datagramVoip data = udpVoip (beAt data 0 2) (beAt data 2 2) (data.drop 8) := by
    simp [datagramVoip, room]
  have inner : At frame (offset + 8) (data.drop 8) := placed.drop room
  dsimp only
  rw [known]
  by_cases voip : udpVoip (beAt data 0 2) (beAt data 2 2) (data.drop 8) = true
  · refine handing_wrong (by simp [voip]) inner (by omega) (fun n s both => ?_) w ⟨plain, all⟩
    exact udpApplication_laid voip s both.2
  · have other := Bool.not_eq_true _ ▸ voip
    exact handing_right other inner (fun n => udpApplication_grown contract other) w ⟨plain, all⟩

end

/- The layers below. -/

section

variable {α : Type} {frame : Bytes} {right : Prop} {m : Dissector α} {n : Handing α} {parent : Nat}

theorem handing_ok {a : α} : (liftM (Except.ok a : Except Fault α) : Handing α) = pure a := rfl

theorem handing_lift : (liftM m : Handing α) = unnoted m := rfl

theorem unnoted_value {v : α} (run : Meets Plain m (fun a s => a = v ∧ Plain s)) :
    Meets (Ready frame) (unnoted m) (fun a w => a = v ∧ Ready frame w) := by
  intro w ready
  obtain ⟨a, after, ran, ⟨known, plain⟩, all⟩ := unnoted_ready run w ready
  exact ⟨a, after, ran, known, plain, all⟩

theorem verdict_of_keeps (run : Keeps (Ready frame) n) (holds : right) :
    Meets (Ready frame) n (fun _ => Verdict frame right) := by
  intro w ready
  obtain ⟨a, after, ran, still⟩ := run w ready
  exact ⟨a, after, ran, still.verdict holds⟩

theorem addSection_ready {label : String} {offset len : Nat} :
    Keeps (Ready frame) (unnoted (addSection parent label offset len)) :=
  unnoted_keeps (Plain.admits.addSection ⟨Nat.le_refl _, Nat.le_refl _⟩)

theorem addFields_ready {fields : List (String × Nat × Nat)} :
    Keeps (Ready frame) (unnoted (addFields parent fields)) := by
  apply unnoted_keeps
  apply Keeps.forM
  intro field _
  exact .bind (Plain.admits.addChild ⟨Nat.le_refl _, Nat.le_refl _⟩) (fun _ => .pure _)

theorem setSummary_ready {change : PacketSummary → PacketSummary} :
    Keeps (Ready frame) (unnoted (setSummary change)) :=
  unnoted_keeps (.modify (fun _ plain => plain))

theorem setFlags_ready {change : ProtocolFlags → ProtocolFlags}
    (same : ∀ flags, (change flags).websocket = flags.websocket) :
    Keeps (Ready frame) (unnoted (setFlags change)) :=
  unnoted_keeps (.modify (fun s plain => (same s.flags).trans plain))

/-- The flags within are those of a packet of its own. -/
theorem isolatedNoted_meets (run : Meets (Ready frame) n (fun _ => Verdict frame right)) :
    Meets (Ready frame) (isolatedNoted n) (fun _ => Verdict frame right) := by
  have fresh : ∀ outer : Dissection, Meets Plain (m := (set ({ outer with
      flags := {}, summary := {}, transport := none } : Dissection) : Dissector PUnit))
      (fun _ => Plain) :=
    fun outer s _ => ⟨_, _, rfl, rfl⟩
  refine .bind (unnoted_keeps .get) (fun outer => .bind (unnoted_keeps (fresh outer)) (fun _ => ?_))
  refine .bind run (fun result => .bind (R := fun _ => Verdict frame right) ?_ (fun _ => ?_))
  · intro w verdict
    exact ⟨_, _, rfl, verdict⟩
  · exact .pure (fun _ verdict => verdict)

end

section

variable {crates : Crates} {keylog : Option KeyLog} {frame data : Bytes} {parent offset : Nat}

theorem dissectIpv4Noted_meets (contract : crates.Contract) (placed : At frame offset data) :
    Meets (Ready frame) (dissectIpv4Noted crates keylog parent data offset)
      (fun _ => Verdict frame (ipv4Voip data = false)) := by
  unfold dissectIpv4Noted ipv4Voip
  simp only [handing_lift]
  refine .ite (fun short => ?_) (fun long => ?_)
  · exact .pure (fun _ ready => ready.verdict (if_pos (.inl short)))
  refine .bind (setFlags_ready (fun _ => rfl)) (fun _ => ?_)
  rw [byteAt_ok (by omega), handing_ok, pure_bind]
  refine .ite (fun bad => ?_) (fun header => ?_)
  · exact .pure (fun _ ready => ready.verdict (if_pos (.inr bad)))
  rw [if_neg (by omega)]
  simp (disch := omega) only [readBE_ok, byteAt_ok, slice_ok, handing_ok, pure_bind]
  refine .bind addSection_ready (fun sec => .bind addFields_ready (fun _ => ?_))
  refine .bind setSummary_ready (fun _ => .bind setSummary_ready (fun _ => ?_))
  have inner : At frame (offset + (octet data 0 &&& 0x0f).toNat * 4)
      (ipv4Payload data ((octet data 0 &&& 0x0f).toNat * 4)) :=
    placed.span _ (by omega)
  refine .ite (fun icmp => ?_) (fun _ => .ite (fun tcp => ?_) (fun other => ?_))
  · refine verdict_of_keeps (unnoted_keeps ?_) (by rw [icmp]; rfl)
    exact dissectIcmp_keeps Plain.admits (Nat.le_refl _) (Nat.le_refl _)
  · rw [if_pos tcp]
    exact dissectTcpNoted_meets contract inner (by omega)
  · rw [if_neg other]
    refine .ite (fun udp => ?_) (fun udp => ?_)
    · rw [if_pos udp]
      exact dissectUdpNoted_meets contract inner
    · rw [if_neg udp]
      exact .bind setSummary_ready (fun _ => .pure (fun _ ready => ready.verdict rfl))

theorem dissectIcmpv6Noted_meets {inner : Nat → Bytes → Nat → Handing LayerResult} {right : Prop}
    (quoted : ∀ sec, 8 < data.length → Meets (Ready frame) (inner sec (data.drop 8) (offset + 8))
      (fun _ => Verdict frame right)) :
    Meets (Ready frame) (dissectIcmpv6Noted crates inner parent data offset)
      (fun _ => Verdict frame (Quotes (octet data 0) data → right)) := by
  unfold dissectIcmpv6Noted icmpv6BodyNoted
  simp only [handing_lift]
  refine .bind (setFlags_ready (fun _ => rfl)) (fun _ => .bind setSummary_ready (fun _ => ?_))
  refine .ite (fun short => ?_) (fun long => ?_)
  · refine .pure (fun _ ready => ready.verdict ?_)
    rintro ⟨_, room⟩
    omega
  simp (disch := omega) only [byteAt_ok, handing_ok, pure_bind]
  refine .bind addSection_ready (fun sec => .bind addFields_ready (fun _ => ?_))
  refine .bind ?_ (fun _ => .pure (fun _ verdict => verdict))
  refine .ite (fun quotes => ?_) (fun other => ?_)
  · have same : (Quotes (octet data 0) data → right) = right := propext (imp_iff_right quotes)
    rw [same, sliceFrom_ok (Nat.le_of_lt quotes.2), handing_ok, pure_bind]
    refine .bind setSummary_ready (fun _ => ?_)
    exact .bind (isolatedNoted_meets (quoted sec quotes.2)) (fun _ => .pure (fun _ h => h))
  · refine verdict_of_keeps (unnoted_keeps ?_) (fun quotes => absurd quotes other)
    refine icmpv6Body_keeps Plain.admits (Nat.le_refl _) (Nat.le_refl _) ?_
    exact fun error room => absurd ⟨error, room⟩ other

theorem dissectIpv6Noted_meets (contract : crates.Contract) {fuel : Nat}
    (placed : At frame offset data) (enough : data.length < fuel) :
    Meets (Ready frame) (dissectIpv6Noted crates keylog fuel parent data offset)
      (fun _ => Verdict frame (ipv6Voip fuel data = false)) := by
  induction fuel generalizing parent data offset with
  | zero => omega
  | succ fuel ih =>
    unfold dissectIpv6Noted ipv6Voip
    simp only [handing_lift]
    refine .ite (fun short => ?_) (fun long => ?_)
    · exact .pure (fun _ ready => ready.verdict (if_pos short))
    refine .bind (setFlags_ready (fun _ => rfl)) (fun _ => ?_)
    simp (disch := omega) only [readBE_ok, byteAt_ok, slice_ok, handing_ok, pure_bind, if_neg long]
    refine .bind addSection_ready (fun sec => .bind addFields_ready (fun _ => ?_))
    refine .bind setSummary_ready (fun _ => ?_)
    refine .bind_value (unnoted_value (ipv6Extensions_meets Plain.admits (Nat.le_refl _)
      (Nat.le_refl _) (by omega) (by omega))) ?_
    have behind : (extensionsEnd data (data.length + 1) (octet data 6) 40).2 ≤ data.length :=
      extensionsEnd_le (by omega)
    have late : 40 ≤ (extensionsEnd data (data.length + 1) (octet data 6) 40).2 :=
      le_extensionsEnd (by omega)
    generalize extensionsEnd data (data.length + 1) (octet data 6) 40 = found at behind late ⊢
    obtain ⟨next, cursor⟩ := found
    dsimp only at behind late ⊢
    rw [sliceFrom_ok behind, handing_ok, pure_bind]
    have inner : At frame (offset + cursor) (data.drop cursor) := placed.drop behind
    refine .bind setSummary_ready (fun _ => ?_)
    refine .ite (fun icmp => ?_) (fun icmp => .ite (fun tcp => ?_) (fun tcp => ?_))
    · have quoted : ∀ sec, 8 < (data.drop cursor).length → Meets (Ready frame)
          (dissectIpv6Noted crates keylog fuel sec ((data.drop cursor).drop 8)
            (offset + cursor + 8))
          (fun _ => Verdict frame (ipv6Voip fuel ((data.drop cursor).drop 8) = false)) := by
        intro sec room
        refine ih (inner.drop (Nat.le_of_lt room)) ?_
        simp only [List.length_drop]
        omega
      have both : Meets (Ready frame)
          (dissectIcmpv6Noted crates (dissectIpv6Noted crates keylog fuel) parent
            (data.drop cursor) (offset + cursor)) _ := dissectIcmpv6Noted_meets quoted
      simpa [icmp, Bool.and_eq_false_imp] using both
    · rw [if_neg icmp, if_pos tcp]
      exact dissectTcpNoted_meets contract inner (by omega)
    · rw [if_neg icmp, if_neg tcp]
      refine .ite (fun udp => ?_) (fun udp => ?_)
      · rw [if_pos udp]
        exact dissectUdpNoted_meets contract inner
      · rw [if_neg udp]
        exact .bind setSummary_ready (fun _ => .pure (fun _ ready => ready.verdict rfl))

/-- A packet whose version is known. -/
theorem networkNoted_meets (contract : crates.Contract) {off : Nat} (inside : off ≤ frame.length) :
    Meets (Ready frame) (dissectIpv4Noted crates keylog parent (frame.drop off) off)
        (fun _ => Verdict frame (networkVoip frame (some (4, off)) = false)) ∧
      Meets (Ready frame) (dissectIpv6PacketNoted crates keylog parent (frame.drop off) off)
        (fun _ => Verdict frame (networkVoip frame (some (6, off)) = false)) := by
  have placed := At.from_offset inside
  exact ⟨dissectIpv4Noted_meets contract placed,
    dissectIpv6Noted_meets contract placed (Nat.lt_succ_self _)⟩

theorem dissectEthertypeNoted_meets (contract : crates.Contract) {ethertype off : Nat}
    {other : Dissector PUnit} (inside : off ≤ frame.length) (rest : Keeps Plain other) :
    Meets (Ready frame)
      (dissectEthertypeNoted crates keylog parent ethertype (frame.drop off) off other)
      (fun _ => Verdict frame (networkVoip frame (ethertypeNetwork ethertype off) = false)) := by
  obtain ⟨ipv4, ipv6⟩ := @networkNoted_meets crates keylog frame parent contract off inside
  unfold dissectEthertypeNoted ethertypeNetwork
  split
  · exact ipv4
  · split
    · exact ipv6
    · refine .ite (fun _ => verdict_of_keeps (unnoted_keeps ?_) rfl) (fun _ => ?_)
      · exact dissectArp_keeps Plain.admits (Nat.le_refl _) (Nat.le_refl _)
      · exact .bind (unnoted_keeps rest) (fun _ => .pure (fun _ ready => ready.verdict rfl))

theorem dissectVersionNoted_meets (contract : crates.Contract) {off : Nat}
    (inside : off ≤ frame.length) :
    Meets (Ready frame) (dissectVersionNoted crates keylog parent (frame.drop off) off)
      (fun _ => Verdict frame
        (networkVoip frame (versionNetwork off (frame.drop off)) = false)) := by
  obtain ⟨ipv4, ipv6⟩ := @networkNoted_meets crates keylog frame parent contract off inside
  unfold dissectVersionNoted versionNetwork
  split
  · exact .pure (fun _ ready => ready.verdict rfl)
  · next nonempty =>
    rw [byteAt_ok (List.length_pos_iff.mpr nonempty), handing_ok, pure_bind]
    dsimp only
    split
    · exact ipv4
    · split
      · exact ipv6
      · exact .pure (fun _ ready => ready.verdict rfl)

theorem dissectEthernetNoted_meets (contract : crates.Contract) :
    Meets (Ready frame) (dissectEthernetNoted crates keylog parent frame 0)
      (fun _ => Verdict frame (networkVoip frame (networkAt .ethernet frame) = false)) := by
  unfold dissectEthernetNoted networkAt
  simp only [handing_lift]
  refine .ite (fun short => ?_) (fun long => ?_)
  · rw [if_pos short]
    exact .pure (fun _ ready => ready.verdict rfl)
  rw [if_neg long]
  refine .bind (setFlags_ready (fun _ => rfl)) (fun _ => .bind addSection_ready (fun eth => ?_))
  simp (disch := omega) only [slice_ok, readBE_ok, handing_ok, pure_bind]
  refine .bind addFields_ready (fun _ => .bind setSummary_ready (fun _ => ?_))
  refine .bind addFields_ready (fun _ => ?_)
  refine .bind_value (unnoted_value (dissectVlan_meets Plain.admits rfl (Nat.le_refl _) rfl)) ?_
  have inside : (ethernetHead frame).2 ≤ frame.length := by
    unfold ethernetHead
    split <;> dsimp only <;> omega
  rw [Nat.min_eq_left inside, sliceFrom_ok inside, handing_ok, pure_bind]
  refine dissectEthertypeNoted_meets contract inside ?_
  exact .bind (.modify (fun _ plain => plain)) (fun _ => .modify (fun _ plain => plain))

theorem dissectSllNoted_meets (contract : crates.Contract) :
    Meets (Ready frame) (dissectSllNoted crates keylog parent frame 0)
      (fun _ => Verdict frame (networkVoip frame (networkAt .linuxSll frame) = false)) := by
  unfold dissectSllNoted networkAt
  simp only [handing_lift]
  refine .ite (fun short => ?_) (fun long => ?_)
  · rw [if_pos short]
    exact .pure (fun _ ready => ready.verdict rfl)
  rw [if_neg long]
  refine .bind (setFlags_ready (fun _ => rfl)) (fun _ => .bind addSection_ready (fun sec => ?_))
  simp (disch := omega) only [readBE_ok, sliceFrom_ok, handing_ok, pure_bind]
  refine .bind addFields_ready (fun _ => ?_)
  exact dissectEthertypeNoted_meets contract (by omega) (.pure _)

theorem dissectSll2Noted_meets (contract : crates.Contract) :
    Meets (Ready frame) (dissectSll2Noted crates keylog parent frame 0)
      (fun _ => Verdict frame (networkVoip frame (networkAt .linuxSll2 frame) = false)) := by
  unfold dissectSll2Noted networkAt
  simp only [handing_lift]
  refine .ite (fun short => ?_) (fun long => ?_)
  · rw [if_pos short]
    exact .pure (fun _ ready => ready.verdict rfl)
  rw [if_neg long]
  refine .bind (setFlags_ready (fun _ => rfl)) (fun _ => .bind addSection_ready (fun sec => ?_))
  simp (disch := omega) only [readBE_ok, sliceFrom_ok, handing_ok, pure_bind]
  refine .bind addFields_ready (fun _ => ?_)
  exact dissectEthertypeNoted_meets contract (by omega) (.pure _)

theorem dissectNullNoted_meets (contract : crates.Contract) :
    Meets (Ready frame) (dissectNullNoted crates keylog parent frame 0)
      (fun _ => Verdict frame (networkVoip frame (networkAt .null frame) = false)) := by
  unfold dissectNullNoted networkAt
  simp only [handing_lift]
  refine .ite (fun short => ?_) (fun long => ?_)
  · rw [if_pos short]
    exact .pure (fun _ ready => ready.verdict rfl)
  rw [if_neg long]
  refine .bind addSection_ready (fun sec => ?_)
  simp (disch := omega) only [readBE_ok, readLE_ok, sliceFrom_ok, handing_ok, pure_bind]
  refine .bind addFields_ready (fun _ => ?_)
  have inside : 4 ≤ frame.length := by omega
  obtain ⟨ipv4, ipv6⟩ := @networkNoted_meets crates keylog frame parent contract 4 inside
  change Meets (Ready frame) (if nullFamily frame = 2 then _ else
    if knownFamily (nullFamily frame) then _ else _) _
  split
  · exact ipv4
  · split
    · exact ipv6
    · exact dissectVersionNoted_meets contract inside

/-- 802.11 behind radiotap is laid at the start of the frame. -/
theorem dissectDot11_laid {n : Nat} (long : 24 ≤ data.length) :
    Meets (fun s => s.tree.nodes.length = n) (dissectDot11 parent data) (fun _ => Laid n 0) := by
  have laid {lo hi : Nat} : Admits lo hi (Laid n 0) := Laid.allows.toAdmits
  unfold dissectDot11 onlyIf
  rw [if_pos long, readLE_ok (by omega)]
  refine .bind setFlags_sized (fun _ => ?_)
  rw [read_ok, pure_bind]
  refine .bind setSummary_sized (fun _ => .bind setSummary_sized (fun _ => .bind addField_laid ?_))
  refine fun _ => onlyIf_keeps (fun beacon => ?_)
  obtain ⟨ssid, found⟩ := findSsid_ok (data.drop 36)
  rw [sliceFrom_ok (by omega), read_ok, pure_bind, found, read_ok, pure_bind]
  cases ssid with
  | none => exact .pure _
  | some ssid =>
    exact .bind (.modify (fun _ still => still))
      (fun _ => laid.addField ⟨Nat.le_refl _, Nat.le_refl _⟩)

theorem dissectRadiotapNoted_meets :
    Meets (Ready frame) (dissectRadiotapNoted parent frame)
      (fun _ => Verdict frame (dot11Behind frame = false)) := by
  unfold dissectRadiotapNoted
  simp only [handing_lift]
  refine .ite (fun long => ?_) (fun short => ?_)
  · rw [readLE_ok (by omega), handing_ok, pure_bind]
    refine .ite (fun inside => ?_) (fun outside => ?_)
    · refine .bind (setFlags_ready (fun _ => rfl)) (fun _ => .bind addFields_ready (fun _ => ?_))
      rw [sliceFrom_ok inside, handing_ok, pure_bind]
      have placed := At.from_offset inside
      have width : (frame.drop (leAt frame 2 2)).length = frame.length - leAt frame 2 2 :=
        List.length_drop
      by_cases behind : 0 < leAt frame 2 2 ∧ leAt frame 2 2 + 24 ≤ frame.length
      · refine handing_wrong (by simp [dot11Behind, long, behind]) placed behind.1 (fun n => ?_)
        intro s both
        exact dissectDot11_laid (by omega) s both.2
      · refine handing_right ?_ placed (fun n => ?_)
        · simpa [dot11Behind, long] using behind
        · by_cases start : leAt frame 2 2 = 0
          · refine dissectDot11_keeps Grown.allows.toAdmits start ?_
            exact Nat.le_add_left _ _
          · unfold dissectDot11 onlyIf
            rw [if_neg (by omega)]
            exact .pure _
    · refine .pure (fun _ ready => ready.verdict ?_)
      simp [dot11Behind]
      omega
  · refine .pure (fun _ ready => ready.verdict ?_)
    simp [dot11Behind, short]

theorem dissectL2Noted_meets (contract : crates.Contract) (linkType : LinkType) :
    Meets (Ready frame) (dissectL2Noted crates keylog parent frame linkType)
      (fun _ => Verdict frame (mismarks frame linkType = false)) := by
  have whole : ∀ linkType, linkType ≠ .ieee80211Radio →
      (mismarks frame linkType = networkVoip frame (networkAt linkType frame)) := by
    intro linkType other
    simp [mismarks, other]
  cases linkType with
  | ethernet =>
    rw [whole _ (by simp)]
    exact dissectEthernetNoted_meets contract
  | linuxSll =>
    rw [whole _ (by simp)]
    exact dissectSllNoted_meets contract
  | linuxSll2 =>
    rw [whole _ (by simp)]
    exact dissectSll2Noted_meets contract
  | null =>
    rw [whole _ (by simp)]
    exact dissectNullNoted_meets contract
  | raw =>
    rw [whole _ (by simp)]
    exact dissectVersionNoted_meets contract (Nat.zero_le _)
  | ieee80211Radio =>
    have only : mismarks frame .ieee80211Radio = dot11Behind frame := by
      simp [mismarks, networkAt, networkVoip]
    rw [only]
    exact .bind dissectRadiotapNoted_meets (fun _ => .pure (fun _ verdict => verdict))
  | ieee80211 =>
    refine .bind (handing_right (by simp [mismarks, networkAt, networkVoip]) (.whole frame)
      (fun n => ?_)) (fun _ => .pure (fun _ verdict => verdict))
    exact dissectDot11_keeps Grown.allows.toAdmits rfl (Nat.le_add_left _ _)
  | unknown v =>
    rw [whole _ (by simp)]
    refine .ite (fun _ => dissectEthernetNoted_meets contract) (fun short => ?_)
    refine .pure (fun _ ready => ready.verdict ?_)
    simp [networkAt, networkVoip, Nat.lt_of_not_le short]

theorem dissectFrameNoted_meets (contract : crates.Contract) (linkType : LinkType) :
    Meets (Ready frame) (dissectFrameNoted crates keylog frame linkType)
      (fun _ => Verdict frame (mismarks frame linkType = false)) := by
  unfold dissectFrameNoted
  simp only [handing_lift]
  refine .bind (unnoted_keeps (fun s plain => ⟨_, _, rfl, plain⟩)) (fun root => ?_)
  refine .bind addFields_ready (fun _ => .ite (fun empty => ?_) (fun _ => ?_))
  · refine .pure (fun _ ready => ready.verdict ?_)
    subst empty
    cases linkType <;> rfl
  · exact dissectL2Noted_meets contract linkType

end

/-- The nodes of the layers mark what the layers were handed if and only if no layer of the frame
is SIP, RTP or 802.11 behind a radiotap header. -/
theorem highlights_right_iff (crates : Crates) (contract : crates.Contract)
    (keylog : Option KeyLog) (frame : Bytes) (linkType : LinkType) :
    HighlightsRight crates keylog frame linkType ↔ mismarks frame linkType = false := by
  have ready : ∀ summary : PacketSummary,
      Ready frame { state := { summary := summary } } :=
    fun summary => ⟨rfl, fun h member => by cases member⟩
  obtain ⟨r, after, ran, placed, verdict⟩ := @dissectFrameNoted_meets crates keylog frame contract
    linkType _ (ready { protocol := "Data", info := s!"{frame.length} bytes", len := frame.length })
  have handed : frameHandovers crates keylog frame linkType = .ok after.notes := by
    unfold frameHandovers
    dsimp only
    rw [ran]
    rfl
  constructor
  · rintro ⟨notes, found, right⟩
    cases handed.symm.trans found
    exact verdict.mp (fun h member => (right h member).2)
  · intro clear
    exact ⟨_, handed, fun h member => ⟨placed h member, verdict.mpr clear h member⟩⟩

theorem highlights_right_dns : HighlightsRight refusingCrates none shortDnsFrame .ethernet :=
  (highlights_right_iff refusingCrates refusingCrates_contract none shortDnsFrame .ethernet).mpr
    (by decide)

/-- `BYE ` in a datagram to the port of SIP. -/
def sipFrame : Bytes :=
  List.replicate 12 0 ++ [0x08, 0x00, 0x45, 0, 0, 32] ++ [0, 1, 0, 0, 64, 17, 0, 0] ++
    [10, 0, 0, 1, 10, 0, 0, 2] ++ [0x13, 0xc4, 0x13, 0xc4, 0, 12, 0, 0, 0x42, 0x59, 0x45, 0x20]

/-- The payload lies at 42 and the node of SIP at 0. -/
theorem sipFrame_handovers : frameHandovers refusingCrates none sipFrame .ethernet =
    .ok [{ layer := .udp, offset := 34, data := sipFrame.drop 34,
           added := [(34, 8), (34, 2), (36, 2), (38, 2)] },
         { layer := .overUdp, offset := 42, data := [0x42, 0x59, 0x45, 0x20],
           added := [(0, 4)] }] := by
  decide +kernel

theorem highlights_not_right_sip : ¬ HighlightsRight refusingCrates none sipFrame .ethernet := by
  rintro ⟨handed, found, right⟩
  cases sipFrame_handovers.symm.trans found
  have mark := (right _ (List.mem_cons_of_mem _ (List.mem_cons_self ..))).2 (0, 4)
    (List.mem_cons_self ..)
  exact absurd mark.1 (by decide)

end BitBeak
