import BitBeak.Dissect.L4

/-! IPv4, IPv6 with its extension headers, and ICMP of both. An ICMPv6 error carries the
IPv6 packet it is about, which is taken apart with flags and a summary of its own. -/
namespace BitBeak
open Wire Dissector

def protoName (p : UInt8) : String :=
  if p = 1 then "ICMP"
  else if p = 6 then "TCP"
  else if p = 17 then "UDP"
  else if p = 58 then "ICMPv6"
  else if p = 0 then "HOPOPT"
  else if p = 43 then "IPv6-Route"
  else if p = 44 then "IPv6-Frag"
  else if p = 60 then "IPv6-Opts"
  else "Unknown"

def icmpTypeName (t : UInt8) : String :=
  if t = 0 then "Echo Reply"
  else if t = 3 then "Destination Unreachable"
  else if t = 8 then "Echo Request"
  else if t = 11 then "Time Exceeded"
  else "Other"

def icmpv6TypeName (t : UInt8) : String :=
  if t = 1 then "Destination Unreachable"
  else if t = 2 then "Packet Too Big"
  else if t = 3 then "Time Exceeded"
  else if t = 128 then "Echo Request"
  else if t = 129 then "Echo Reply"
  else if t = 133 then "Router Solicitation"
  else if t = 134 then "Router Advertisement"
  else if t = 135 then "Neighbor Solicitation"
  else if t = 136 then "Neighbor Advertisement"
  else "Other"

def dissectIcmp (parent : Nat) (data : Bytes) (offset : Nat) : Dissector LayerResult := do
  setFlags fun f => { f with icmp := true }
  setProtocol "ICMP"
  if data.length < 4 then return { payload := data, payloadOffset := offset }
  else
    let typ ← byteAt data 0
    let code ← byteAt data 1
    let sec ← addSection parent "Internet Control Message Protocol" offset data.length
    let name := icmpTypeName typ
    addFields sec [("Type", offset, 1), ("Code", offset + 1, 1)]
    if 8 ≤ data.length ∧ (typ = 0 ∨ typ = 8) then
      let id ← readBE data 4 2
      let seq ← readBE data 6 2
      addFields sec [("Identifier", offset + 4, 2), ("Sequence", offset + 6, 2)]
      setInfo s!"{name} id={id} seq={seq}"
      return { payload := [], payloadOffset := offset + data.length }
    else
      setInfo s!"{name} code={code}"
      return { payload := [], payloadOffset := offset + data.length }

def dissectIpv4 (crates : Crates) (parent : Nat) (data : Bytes) (offset : Nat) :
    Dissector LayerResult := do
  if data.length < 20 then return { payload := data, payloadOffset := offset }
  else
    setFlags fun f => { f with ipv4 := true }
    let ihl := ((← byteAt data 0) &&& 0x0f).toNat * 4
    if ihl < 20 ∨ data.length < ihl then return { payload := data, payloadOffset := offset }
    else
      let total ← readBE data 2 2
      let _ttl ← byteAt data 8
      let proto ← byteAt data 9
      let src := dotted (← slice data 12 16)
      let dst := dotted (← slice data 16 20)
      let sec ← addSection parent "Internet Protocol Version 4" offset ihl
      addFields sec [("Version", offset, 1), ("Header Length", offset, 1),
        ("Total Length", offset + 2, 2), ("TTL", offset + 8, 1), ("Protocol", offset + 9, 1),
        ("Source", offset + 12, 4), ("Destination", offset + 16, 4)]
      setAddresses src dst
      setProtocol (protoName proto)
      let payload ← slice data ihl (max (min total data.length) ihl)
      let payloadOff := offset + ihl
      if proto = 1 then dissectIcmp parent payload payloadOff
      else if proto = 6 then dissectTcp crates parent payload payloadOff
      else if proto = 17 then dissectUdp crates parent payload payloadOff
      else
        setInfo (src ++ " → " ++ dst ++ " proto=" ++ protoName proto)
        return { payload := payload, payloadOffset := payloadOff }

/-- What one ICMPv6 type adds; `inner` takes an IPv6 packet apart. -/
def icmpv6Body (inner : Nat → Bytes → Nat → Dissector LayerResult) (sec : Nat) (data : Bytes)
    (offset : Nat) (typ code : UInt8) : Dissector PUnit := do
  let name := icmpv6TypeName typ
  if (typ = 128 ∨ typ = 129) ∧ 8 ≤ data.length then
    let id ← readBE data 4 2
    let seq ← readBE data 6 2
    addFields sec [("Identifier", offset + 4, 2), ("Sequence", offset + 6, 2)]
    setInfo s!"{name} id={id} seq={seq}"
  else if typ = 133 then setInfo "Router Solicitation"
  else if typ = 134 then setInfo "Router Advertisement"
  else if typ = 135 ∨ typ = 136 then
    if 24 ≤ data.length then
      let target := ipv6Text (← slice data 8 24)
      addFields sec [("Target Address", offset + 8, 16)]
      setInfo ((if typ = 135 then "Neighbor Solicitation for " else "Neighbor Advertisement ") ++
        target)
    else setInfo name
  else if typ = 1 ∧ 8 < data.length then
    setInfo s!"Destination Unreachable code={code}"
    let quoted ← sliceFrom data 8
    let _ ← isolated (inner sec quoted (offset + 8))
  else setInfo s!"{name} code={code}"

def dissectIcmpv6 (inner : Nat → Bytes → Nat → Dissector LayerResult) (parent : Nat)
    (data : Bytes) (offset : Nat) : Dissector LayerResult := do
  setFlags fun f => { f with icmpv6 := true }
  setProtocol "ICMPv6"
  if data.length < 4 then return { payload := data, payloadOffset := offset }
  else
    let typ ← byteAt data 0
    let code ← byteAt data 1
    let sec ← addSection parent "Internet Control Message Protocol v6" offset data.length
    addFields sec [("Type", offset, 1), ("Code", offset + 1, 1)]
    icmpv6Body inner sec data offset typ code
    return { payload := [], payloadOffset := offset + data.length }

/-- Hop-by-hop options, routing, fragment and destination options. -/
def isExtension (next : UInt8) : Bool := next == 0 || next == 43 || next == 44 || next == 60

def extensionName (next : UInt8) : String :=
  if next = 0 then "IPv6 Hop-by-Hop Option"
  else if next = 43 then "IPv6 Routing"
  else if next = 44 then "IPv6 Fragment"
  else if next = 60 then "IPv6 Destination Options"
  else "IPv6 Extension"

/-- The length of an extension header from its second octet. -/
def extensionLength (next second : UInt8) : Nat :=
  if next = 44 then 8 else (second.toNat + 1) * 8

/-- The header behind the extension headers from `cursor` on, and where it starts. -/
def ipv6Extensions (parent : Nat) (data : Bytes) (offset : Nat) :
    Nat → UInt8 → Nat → Dissector (UInt8 × Nat)
  | 0, _, _ => liftM (.error .outOfFuel : Except Fault (UInt8 × Nat))
  | fuel + 1, next, cursor =>
    if isExtension next then
      if data.length < cursor + 2 then return (next, cursor)
      else do
        let hdrLen := extensionLength next (← byteAt data (cursor + 1))
        let left ← checkedSub data.length cursor
        let ext ← addSection parent (extensionName next) (offset + cursor) (min hdrLen left)
        let nh ← byteAt data cursor
        addFields ext [("Next Header", offset + cursor, 1)]
        if data.length < cursor + hdrLen then return (nh, data.length)
        else ipv6Extensions parent data offset fuel nh (cursor + hdrLen)
    else return (next, cursor)

def dissectIpv6 (crates : Crates) : Nat → Nat → Bytes → Nat → Dissector LayerResult
  | 0, _, _, _ => liftM (.error .outOfFuel : Except Fault LayerResult)
  | fuel + 1, parent, data, offset =>
    if data.length < 40 then return { payload := data, payloadOffset := offset }
    else do
      setFlags fun f => { f with ipv6 := true }
      let _payloadLen ← readBE data 4 2
      let next ← byteAt data 6
      let _hop ← byteAt data 7
      let src := ipv6Text (← slice data 8 24)
      let dst := ipv6Text (← slice data 24 40)
      let sec ← addSection parent "Internet Protocol Version 6" offset 40
      addFields sec [("Payload Length", offset + 4, 2), ("Next Header", offset + 6, 1),
        ("Hop Limit", offset + 7, 1), ("Source", offset + 8, 16), ("Destination", offset + 24, 16)]
      setAddresses src dst
      let (next, cursor) ← ipv6Extensions parent data offset (data.length + 1) next 40
      let payload ← sliceFrom data cursor
      let payloadOff := offset + cursor
      setProtocol (protoName next)
      if next = 58 then dissectIcmpv6 (dissectIpv6 crates fuel) parent payload payloadOff
      else if next = 6 then dissectTcp crates parent payload payloadOff
      else if next = 17 then dissectUdp crates parent payload payloadOff
      else
        setInfo (src ++ " → " ++ dst)
        return { payload := payload, payloadOffset := payloadOff }

/- How network headers lead to a transport header. -/

/-- The octets an IPv4 header of `ihl` octets says are its payload. -/
def ipv4Payload (data : Bytes) (ihl : Nat) : Bytes :=
  span data ihl (max (min (beAt data 2 2) data.length) ihl)

def ipv4Labels (offset : Nat) (data : Bytes) : Labels :=
  let ihl := (octet data 0 &&& 0x0f).toNat * 4
  if data.length < 20 ∨ ihl < 20 ∨ data.length < ihl then {}
  else if octet data 9 = 6 then tcpLabels (offset + ihl) (ipv4Payload data ihl)
  else if octet data 9 = 17 then udpLabels (offset + ihl) (ipv4Payload data ihl)
  else {}

def extensionsEnd (data : Bytes) : Nat → UInt8 → Nat → UInt8 × Nat
  | 0, next, cursor => (next, cursor)
  | fuel + 1, next, cursor =>
    if isExtension next then
      if data.length < cursor + 2 then (next, cursor)
      else
        let hdrLen := extensionLength next (octet data (cursor + 1))
        if data.length < cursor + hdrLen then (octet data cursor, data.length)
        else extensionsEnd data fuel (octet data cursor) (cursor + hdrLen)
    else (next, cursor)

def ipv6Labels (offset : Nat) (data : Bytes) : Labels :=
  let (next, cursor) := extensionsEnd data (data.length + 1) (octet data 6) 40
  if data.length < 40 then {}
  else if next = 6 then tcpLabels (offset + cursor) (data.drop cursor)
  else if next = 17 then udpLabels (offset + cursor) (data.drop cursor)
  else {}

theorem extensionLength_pos (next second : UInt8) : 0 < extensionLength next second := by
  unfold extensionLength
  split <;> omega

theorem extensionsEnd_le {data : Bytes} {fuel cursor : Nat} {next : UInt8}
    (inside : cursor ≤ data.length) : (extensionsEnd data fuel next cursor).2 ≤ data.length := by
  induction fuel generalizing next cursor with
  | zero => exact inside
  | succ fuel ih =>
    unfold extensionsEnd
    split
    · split
      · exact inside
      · dsimp only
        split
        · exact Nat.le_refl _
        · exact ih (by omega)
    · exact inside

theorem le_extensionsEnd {data : Bytes} {fuel cursor : Nat} {next : UInt8}
    (inside : cursor ≤ data.length) : cursor ≤ (extensionsEnd data fuel next cursor).2 := by
  induction fuel generalizing next cursor with
  | zero => exact Nat.le_refl _
  | succ fuel ih =>
    unfold extensionsEnd
    split
    · split
      · exact Nat.le_refl _
      · dsimp only
        split
        · exact inside
        · exact Nat.le_trans (Nat.le_add_right _ _) (ih (by omega))
    · exact Nat.le_refl _

section

variable {size : Nat} {labels : Labels} {crates : Crates} {parent offset : Nat} {data : Bytes}
variable {lo hi : Nat} {I : Dissection → Prop}

theorem dissectIcmp_keeps (admits : Admits lo hi I) (low : lo ≤ offset)
    (fits : offset + data.length ≤ hi) : Keeps I (dissectIcmp parent data offset) := by
  refine .bind (admits.setFlags (fun _ => ⟨rfl, rfl, rfl, rfl⟩)) (fun _ => ?_)
  refine .bind admits.setSummary (fun _ => .ite (fun _ => .pure _) (fun long => ?_))
  simp (disch := omega) only [byteAt_ok, read_ok, pure_bind]
  refine .bind (admits.addSection ⟨low, fits⟩) (fun sec => ?_)
  refine .bind (admits.addFields ?_) (fun _ => ?_)
  · simp only [List.forall_mem_cons, List.not_mem_nil, false_implies, implies_true, and_true]
    omega
  refine .ite (fun echo => ?_) (fun _ => .bind admits.setSummary (fun _ => .pure _))
  simp (disch := omega) only [readBE_ok, read_ok, pure_bind]
  refine .bind (admits.addFields ?_)
    (fun _ => .bind admits.setSummary (fun _ => .pure _))
  simp only [List.forall_mem_cons, List.not_mem_nil, false_implies, implies_true, and_true]
  omega

theorem dissectIpv4_meets (contract : crates.Contract) (fits : offset + data.length ≤ size) :
    Meets (Sound size {}) (dissectIpv4 crates parent data offset)
      (fun _ => Sound size (ipv4Labels offset data)) := by
  unfold dissectIpv4
  refine .ite (fun short => ?_) (fun long => ?_)
  · rw [ipv4Labels, if_pos (.inl short)]
    exact .pure (fun _ sound => sound)
  refine .bind (Sound.admits.setFlags (fun _ => ⟨rfl, rfl, rfl, rfl⟩)) (fun _ => ?_)
  rw [byteAt_ok (by omega), read_ok, pure_bind]
  refine .ite (fun bad => ?_) (fun header => ?_)
  · rw [ipv4Labels, if_pos (.inr bad)]
    exact .pure (fun _ sound => sound)
  rw [ipv4Labels, if_neg (by omega)]
  simp (disch := omega) only [readBE_ok, byteAt_ok, slice_ok, read_ok, pure_bind]
  refine .bind (Sound.admits.addSection (by omega)) (fun sec => ?_)
  refine .bind (Sound.admits.addFields ?_) (fun _ => ?_)
  · simp only [List.forall_mem_cons, List.not_mem_nil, false_implies, implies_true, and_true]
    omega
  refine .bind Sound.admits.setSummary (fun _ => .bind Sound.admits.setSummary (fun _ => ?_))
  have within : offset + (octet data 0 &&& 0x0f).toNat * 4 +
      (ipv4Payload data ((octet data 0 &&& 0x0f).toNat * 4)).length ≤ size := by
    rw [ipv4Payload, length_span (by omega)]
    omega
  refine .ite (fun icmp => ?_) (fun _ => .ite (fun tcp => ?_) (fun other => ?_))
  · rw [if_neg (by rw [icmp]; decide), if_neg (by rw [icmp]; decide)]
    exact dissectIcmp_keeps Sound.admits (Nat.zero_le _) within
  · rw [if_pos tcp]
    exact dissectTcp_meets contract within
  · rw [if_neg other]
    refine .ite (fun udp => ?_) (fun udp => ?_)
    · rw [if_pos udp]
      exact dissectUdp_meets contract within
    · rw [if_neg udp]
      exact .bind Sound.admits.setSummary (fun _ => .pure (fun _ sound => sound))

theorem icmpv6Body_keeps {inner : Nat → Bytes → Nat → Dissector LayerResult} {sec : Nat}
    {typ code : UInt8} (admits : Admits lo hi I) (low : lo ≤ offset)
    (fits : offset + data.length ≤ hi)
    (quoted : typ = 1 → 8 < data.length →
      Keeps I (isolated (inner sec (data.drop 8) (offset + 8)))) :
    Keeps I (icmpv6Body inner sec data offset typ code) := by
  unfold icmpv6Body
  refine .ite (fun echo => ?_) (fun _ => .ite (fun _ => admits.setSummary) (fun _ =>
    .ite (fun _ => admits.setSummary) (fun _ => .ite (fun _ => .ite (fun long => ?_) (fun _ =>
      admits.setSummary)) (fun _ => .ite (fun error => ?_)
        (fun _ => admits.setSummary)))))
  · simp (disch := omega) only [readBE_ok, read_ok, pure_bind]
    refine .bind (admits.addFields ?_) (fun _ => admits.setSummary)
    simp only [List.forall_mem_cons, List.not_mem_nil, false_implies, implies_true, and_true]
    omega
  · rw [slice_ok (by omega) (by omega), read_ok, pure_bind]
    exact .bind (admits.addField (by omega)) (fun _ => admits.setSummary)
  · rw [sliceFrom_ok (by omega), read_ok, pure_bind]
    exact .bind admits.setSummary
      (fun _ => .bind (quoted error.1 error.2) (fun _ => .pure _))

theorem dissectIcmpv6_keeps {inner : Nat → Bytes → Nat → Dissector LayerResult}
    (fits : offset + data.length ≤ size)
    (quoted : ∀ sec, 8 < data.length → ∃ labels,
      Meets (Sound size {}) (inner sec (data.drop 8) (offset + 8)) (fun _ => Sound size labels)) :
    Keeps (Sound size labels) (dissectIcmpv6 inner parent data offset) := by
  refine .bind (Sound.admits.setFlags (fun _ => ⟨rfl, rfl, rfl, rfl⟩)) (fun _ => ?_)
  refine .bind Sound.admits.setSummary (fun _ => .ite (fun _ => .pure _) (fun long => ?_))
  simp (disch := omega) only [byteAt_ok, read_ok, pure_bind]
  refine .bind (Sound.admits.addSection ⟨Nat.zero_le _, fits⟩) (fun sec => ?_)
  refine .bind (Sound.admits.addFields ?_) (fun _ => ?_)
  · simp only [List.forall_mem_cons, List.not_mem_nil, false_implies, implies_true, and_true]
    omega
  · refine .bind (icmpv6Body_keeps Sound.admits (Nat.zero_le _) fits ?_) (fun _ => .pure _)
    intro _ room
    obtain ⟨labels, run⟩ := quoted sec room
    exact isolated_keeps run

theorem ipv6Extensions_meets {fuel cursor : Nat} {next : UInt8} (admits : Admits lo hi I)
    (low : lo ≤ offset) (fits : offset + data.length ≤ hi) (inside : cursor ≤ data.length)
    (enough : data.length < cursor + fuel) :
    Meets (I) (ipv6Extensions parent data offset fuel next cursor)
      (fun found s => found = extensionsEnd data fuel next cursor ∧ I s) := by
  induction fuel generalizing next cursor with
  | zero => omega
  | succ fuel ih =>
    unfold ipv6Extensions extensionsEnd
    split
    · split
      · exact .pure (fun _ sound => ⟨rfl, sound⟩)
      · simp (disch := omega) only [byteAt_ok, checkedSub_ok, read_ok, pure_bind]
        refine .bind (admits.addSection (by omega)) (fun ext => ?_)
        refine .bind (admits.addField (by omega)) (fun _ => ?_)
        split
        · exact .pure (fun _ sound => ⟨rfl, sound⟩)
        · have long := extensionLength_pos next (octet data (cursor + 1))
          exact ih (by omega) (by omega)
    · exact .pure (fun _ sound => ⟨rfl, sound⟩)

theorem dissectIpv6_meets (contract : crates.Contract) {fuel : Nat}
    (fits : offset + data.length ≤ size) (enough : data.length < fuel) :
    Meets (Sound size {}) (dissectIpv6 crates fuel parent data offset)
      (fun _ => Sound size (ipv6Labels offset data)) := by
  induction fuel generalizing parent data offset with
  | zero => omega
  | succ fuel ih =>
    unfold dissectIpv6 ipv6Labels
    refine .ite (fun short => ?_) (fun long => ?_)
    · dsimp only
      rw [if_pos short]
      exact .pure (fun _ sound => sound)
    refine .bind (Sound.admits.setFlags (fun _ => ⟨rfl, rfl, rfl, rfl⟩)) (fun _ => ?_)
    simp (disch := omega) only [readBE_ok, byteAt_ok, slice_ok, read_ok, pure_bind, if_neg long]
    refine .bind (Sound.admits.addSection (by omega)) (fun sec => ?_)
    refine .bind (Sound.admits.addFields ?_) (fun _ => ?_)
    · simp only [List.forall_mem_cons, List.not_mem_nil, false_implies, implies_true, and_true]
      omega
    refine .bind Sound.admits.setSummary (fun _ => ?_)
    refine .bind_value (ipv6Extensions_meets Sound.admits (Nat.zero_le _) fits (by omega) (by omega)) ?_
    have behind : (extensionsEnd data (data.length + 1) (octet data 6) 40).2 ≤ data.length :=
      extensionsEnd_le (by omega)
    generalize extensionsEnd data (data.length + 1) (octet data 6) 40 = found at behind ⊢
    obtain ⟨next, cursor⟩ := found
    dsimp only at behind ⊢
    rw [sliceFrom_ok behind, read_ok, pure_bind]
    have within : offset + cursor + (data.drop cursor).length ≤ size := by
      rw [List.length_drop]
      omega
    refine .bind Sound.admits.setSummary (fun _ => ?_)
    refine .ite (fun icmp => ?_) (fun _ => .ite (fun tcp => ?_) (fun other => ?_))
    · rw [if_neg (by rw [icmp]; decide), if_neg (by rw [icmp]; decide)]
      refine dissectIcmpv6_keeps within (fun sec quoted => ⟨_, ih ?_ ?_⟩)
      · simp only [List.length_drop] at within quoted ⊢
        omega
      · simp only [List.length_drop]
        omega
    · rw [if_pos tcp]
      exact dissectTcp_meets contract within
    · rw [if_neg other]
      refine .ite (fun udp => ?_) (fun udp => ?_)
      · rw [if_pos udp]
        exact dissectUdp_meets contract within
      · rw [if_neg udp]
        exact .bind Sound.admits.setSummary (fun _ => .pure (fun _ sound => sound))

end

end BitBeak
