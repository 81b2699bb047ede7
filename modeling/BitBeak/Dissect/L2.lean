import BitBeak.Dissect.L3

/-! Link layers: Ethernet with one VLAN tag, Linux cooked captures, BSD loopback, raw IP and
802.11 with its radiotap header; ARP. -/
namespace BitBeak
open Wire Dissector

/-- The SSID among the information elements. -/
def findSsidFrom (ies : Bytes) : Nat → Nat → Except Fault (Option String)
  | 0, _ => .error .outOfFuel
  | fuel + 1, i => do
    if i + 2 ≤ ies.length then
      let id ← byteAt ies i
      let len := (← byteAt ies (i + 1)).toNat
      let i := i + 2
      if ies.length < i + len then return none
      else if id = 0 then return some (fromUtf8Lossy (← slice ies i (i + len)))
      else findSsidFrom ies fuel (i + len)
    else return none

def findSsid (ies : Bytes) : Except Fault (Option String) := findSsidFrom ies (ies.length + 1) 0

/-- The nodes are laid at the start of the frame, not behind a radiotap header. -/
def dissectDot11 (parent : Nat) (data : Bytes) : Dissector PUnit :=
  onlyIf (24 ≤ data.length) do
    setFlags fun f => { f with wifi := true }
    let fc ← readLE data 0 2
    let ftype := fc / 4 % 4
    let subtype := fc / 16 % 16
    let typeName := match ftype with
      | 0 => "Mgmt"
      | 1 => "Ctrl"
      | 2 => "Data"
      | _ => "Ext"
    let subtypeName := match ftype, subtype with
      | 0, 8 => "Beacon"
      | 0, 4 => "Probe Req"
      | 0, 5 => "Probe Resp"
      | 0, 11 => "Auth"
      | 0, 0 => "Assoc Req"
      | 2, _ => "Data"
      | _, _ => "Other"
    setProtocol "802.11"
    setInfo s!"{typeName}/{subtypeName}"
    addFields parent [("802.11", 0, min data.length 24)]
    onlyIf (ftype = 0 ∧ subtype = 8 ∧ 36 < data.length) do
      match ← findSsid (← sliceFrom data 36) with
      | none => return
      | some ssid =>
        setInfo ("Beacon SSID=" ++ ssid)
        addFields parent [("SSID", 36, 0)]

def dissectRadiotap (parent : Nat) (data : Bytes) : Dissector PUnit :=
  onlyIf (8 ≤ data.length) do
    let itLen ← readLE data 2 2
    onlyIf (itLen ≤ data.length) do
      setFlags fun f => { f with wifi := true }
      addFields parent [("Radiotap", 0, itLen)]
      dissectDot11 parent (← sliceFrom data itLen)

def dissectArp (parent : Nat) (data : Bytes) (offset : Nat) : Dissector LayerResult := do
  setFlags fun f => { f with arp := true }
  setProtocol "ARP"
  let sec ← addSection parent "Address Resolution Protocol" offset (min data.length 28)
  if data.length < 8 then return { payload := data, payloadOffset := offset }
  else
    let oper ← readBE data 6 2
    addFields sec [("Opcode", offset + 6, 2)]
    onlyIf (28 ≤ data.length) do
      let sha := fmtMac (← slice data 8 14)
      let spa := dotted (← slice data 14 18)
      let tpa := dotted (← slice data 24 28)
      addFields sec [("Sender MAC", offset + 8, 6), ("Sender IP", offset + 14, 4),
        ("Target MAC", offset + 18, 6), ("Target IP", offset + 24, 4)]
      setAddresses spa tpa
      setInfo (if oper = 1 then s!"Who has {tpa}? Tell {spa}" else s!"{spa} is at {sha}")
    return { payload := [], payloadOffset := offset + data.length }

/-- IPv6 with all the fuel its nesting can need. -/
def dissectIpv6Packet (crates : Crates) (parent : Nat) (data : Bytes) (offset : Nat) :
    Dissector LayerResult :=
  dissectIpv6 crates (data.length + 1) parent data offset

/-- The payload by its type; `other` describes a type that is not known. -/
def dissectEthertype (crates : Crates) (parent ethertype : Nat) (payload : Bytes)
    (payloadOff : Nat) (other : Dissector PUnit) : Dissector LayerResult :=
  if ethertype = 0x0800 then dissectIpv4 crates parent payload payloadOff
  else if ethertype = 0x86dd then dissectIpv6Packet crates parent payload payloadOff
  else if ethertype = 0x0806 then dissectArp parent payload payloadOff
  else do
    other
    return { payload := payload, payloadOffset := payloadOff }

/-- The VLAN tag behind a header of 14 octets, where there is one: the type it carries, and
where the payload starts. -/
def dissectVlan (parent : Nat) (data : Bytes) (offset ethertype : Nat) :
    Dissector (Nat × Nat) := do
  let payloadOff := offset + 14
  if ethertype = 0x8100 ∧ payloadOff + 4 ≤ data.length then
    setFlags fun f => { f with vlan := true }
    let vlan ← addSection parent "802.1Q Virtual LAN" payloadOff 4
    let _tci ← readBE data payloadOff 2
    let ethertype ← readBE data (payloadOff + 2) 2
    addFields vlan [("Priority", payloadOff, 2), ("VLAN ID", payloadOff, 2),
      ("Type", payloadOff + 2, 2)]
    return (ethertype, payloadOff + 4)
  else return (ethertype, payloadOff)

/-- Called with `offset` 0 only, which the reads rely on. -/
def dissectEthernet (crates : Crates) (parent : Nat) (data : Bytes) (offset : Nat) :
    Dissector LayerResult := do
  if data.length < 14 then return { payload := data, payloadOffset := offset }
  else
    setFlags fun f => { f with ethernet := true }
    let eth ← addSection parent "Ethernet II" offset 14
    let dst := fmtMac (← slice data 0 6)
    let src := fmtMac (← slice data 6 12)
    addFields eth [("Destination", offset, 6), ("Source", offset + 6, 6)]
    setAddresses src dst
    let ethertype ← readBE data 12 2
    addFields eth [("Type", offset + 12, 2)]
    let (ethertype, payloadOff) ← dissectVlan parent data offset ethertype
    let payload ← sliceFrom data (min payloadOff data.length)
    let text := "0x" ++ hexDigits 4 ethertype
    dissectEthertype crates parent ethertype payload payloadOff do
      setProtocol text
      setInfo ("EtherType " ++ text)

def dissectSll (crates : Crates) (parent : Nat) (data : Bytes) (offset : Nat) :
    Dissector LayerResult := do
  if data.length < 16 then return { payload := data, payloadOffset := offset }
  else
    setFlags fun f => { f with ethernet := true }
    let sec ← addSection parent "Linux cooked capture" offset 16
    let _pkttype ← readBE data 0 2
    let protocol ← readBE data 14 2
    addFields sec [("Packet type", offset, 2), ("Protocol", offset + 14, 2)]
    dissectEthertype crates parent protocol (← sliceFrom data 16) (offset + 16) (pure ⟨⟩)

def dissectSll2 (crates : Crates) (parent : Nat) (data : Bytes) (offset : Nat) :
    Dissector LayerResult := do
  if data.length < 20 then return { payload := data, payloadOffset := offset }
  else
    setFlags fun f => { f with ethernet := true }
    let sec ← addSection parent "Linux cooked capture v2" offset 20
    let protocol ← readBE data 0 2
    addFields sec [("Protocol", offset, 2)]
    dissectEthertype crates parent protocol (← sliceFrom data 20) (offset + 20) (pure ⟨⟩)

/-- The payload by its version nibble. -/
def dissectVersion (crates : Crates) (parent : Nat) (payload : Bytes) (payloadOff : Nat) :
    Dissector LayerResult := do
  if payload = [] then return { payload := payload, payloadOffset := payloadOff }
  else
    let version := (← byteAt payload 0) >>> 4
    if version = 4 then dissectIpv4 crates parent payload payloadOff
    else if version = 6 then dissectIpv6Packet crates parent payload payloadOff
    else return { payload := payload, payloadOffset := payloadOff }

def knownFamily (af : Nat) : Bool := af == 2 || af == 24 || af == 28 || af == 30

def dissectNull (crates : Crates) (parent : Nat) (data : Bytes) (offset : Nat) :
    Dissector LayerResult := do
  if data.length < 4 then return { payload := data, payloadOffset := offset }
  else
    let sec ← addSection parent "BSD loopback" offset 4
    let afLe ← readLE data 0 4
    let afBe ← readBE data 0 4
    let af := if knownFamily afLe then afLe else if knownFamily afBe then afBe else afLe
    let payload ← sliceFrom data 4
    addFields sec [("Family", offset, 4)]
    let payloadOff := offset + 4
    if af = 2 then dissectIpv4 crates parent payload payloadOff
    else if knownFamily af then dissectIpv6Packet crates parent payload payloadOff
    else dissectVersion crates parent payload payloadOff

def dissectL2 (crates : Crates) (parent : Nat) (data : Bytes) (linkType : LinkType) :
    Dissector LayerResult :=
  match linkType with
  | .ethernet => dissectEthernet crates parent data 0
  | .linuxSll => dissectSll crates parent data 0
  | .linuxSll2 => dissectSll2 crates parent data 0
  | .null => dissectNull crates parent data 0
  | .raw => dissectVersion crates parent data 0
  | .ieee80211Radio => do
    dissectRadiotap parent data
    return { payload := [], payloadOffset := data.length }
  | .ieee80211 => do
    dissectDot11 parent data
    return { payload := [], payloadOffset := data.length }
  | .unknown _ =>
    if 14 ≤ data.length then dissectEthernet crates parent data 0
    else return { payload := data, payloadOffset := 0 }

/- How a frame of each link type leads to a transport header. -/

def ethertypeLabels (ethertype payloadOff : Nat) (payload : Bytes) : Labels :=
  if ethertype = 0x0800 then ipv4Labels payloadOff payload
  else if ethertype = 0x86dd then ipv6Labels payloadOff payload
  else {}

/-- The type of an Ethernet frame and the length of its header. -/
def ethernetHead (data : Bytes) : Nat × Nat :=
  if beAt data 12 2 = 0x8100 ∧ 18 ≤ data.length then (beAt data 16 2, 18)
  else (beAt data 12 2, 14)

def ethernetLabels (data : Bytes) : Labels :=
  if data.length < 14 then {}
  else ethertypeLabels (ethernetHead data).1 (ethernetHead data).2 (data.drop (ethernetHead data).2)

def versionLabels (payloadOff : Nat) (payload : Bytes) : Labels :=
  if payload = [] then {}
  else if octet payload 0 >>> 4 = 4 then ipv4Labels payloadOff payload
  else if octet payload 0 >>> 4 = 6 then ipv6Labels payloadOff payload
  else {}

/-- The address family the loopback header names, in either byte order. -/
def nullFamily (data : Bytes) : Nat :=
  if knownFamily (leAt data 0 4) then leAt data 0 4
  else if knownFamily (beAt data 0 4) then beAt data 0 4
  else leAt data 0 4

def nullLabels (data : Bytes) : Labels :=
  if data.length < 4 then {}
  else if nullFamily data = 2 then ipv4Labels 4 (data.drop 4)
  else if knownFamily (nullFamily data) then ipv6Labels 4 (data.drop 4)
  else versionLabels 4 (data.drop 4)

def frameLabels (linkType : LinkType) (data : Bytes) : Labels :=
  match linkType with
  | .ethernet | .unknown _ => ethernetLabels data
  | .linuxSll =>
    if data.length < 16 then {} else ethertypeLabels (beAt data 14 2) 16 (data.drop 16)
  | .linuxSll2 =>
    if data.length < 20 then {} else ethertypeLabels (beAt data 0 2) 20 (data.drop 20)
  | .null => nullLabels data
  | .raw => versionLabels 0 data
  | .ieee80211 | .ieee80211Radio => {}

theorem findSsidFrom_ok {ies : Bytes} {fuel i : Nat} (inside : i ≤ ies.length)
    (enough : ies.length < i + fuel) : ∃ ssid, findSsidFrom ies fuel i = .ok ssid := by
  induction fuel generalizing i with
  | zero => omega
  | succ fuel ih =>
    unfold findSsidFrom
    split
    · rw [byteAt_ok (by omega), byteAt_ok (by omega), ok_bind, ok_bind]
      dsimp only
      split
      · exact ⟨none, rfl⟩
      · split
        · rw [slice_ok (by omega) (by omega)]
          exact ⟨_, rfl⟩
        · exact ih (by omega) (by omega)
    · exact ⟨none, rfl⟩

theorem findSsid_ok (ies : Bytes) : ∃ ssid, findSsid ies = .ok ssid :=
  findSsidFrom_ok (Nat.zero_le _) (by omega)

section

variable {size : Nat} {labels : Labels} {crates : Crates} {parent offset : Nat} {data : Bytes}
variable {lo hi : Nat} {I : Dissection → Prop}

theorem dissectDot11_keeps (admits : Admits lo hi I) (low : lo = 0) (fits : data.length ≤ hi) :
    Keeps I (dissectDot11 parent data) := by
  refine onlyIf_keeps (fun long => ?_)
  refine .bind (admits.setFlags (fun _ => ⟨rfl, rfl, rfl, rfl⟩)) (fun _ => ?_)
  rw [readLE_ok (by omega), read_ok, pure_bind]
  refine .bind admits.setSummary (fun _ => .bind admits.setSummary (fun _ => ?_))
  refine .bind (admits.addField (by omega)) (fun _ => onlyIf_keeps (fun beacon => ?_))
  obtain ⟨ssid, found⟩ := findSsid_ok (data.drop 36)
  rw [sliceFrom_ok (by omega), read_ok, pure_bind, found, read_ok, pure_bind]
  cases ssid with
  | none => exact .pure _
  | some ssid => exact .bind admits.setSummary (fun _ => admits.addField (by omega))

theorem dissectRadiotap_keeps (fits : data.length ≤ size) :
    Keeps (Sound size labels) (dissectRadiotap parent data) := by
  refine onlyIf_keeps (fun long => ?_)
  rw [readLE_ok (by omega), read_ok, pure_bind]
  refine onlyIf_keeps (fun inside => ?_)
  refine .bind (Sound.admits.setFlags (fun _ => ⟨rfl, rfl, rfl, rfl⟩)) (fun _ => ?_)
  refine .bind (Sound.admits.addField (by omega)) (fun _ => ?_)
  rw [sliceFrom_ok inside, read_ok, pure_bind]
  refine dissectDot11_keeps Sound.admits rfl ?_
  rw [List.length_drop]
  omega

theorem dissectArp_keeps (admits : Admits lo hi I) (low : lo ≤ offset)
    (fits : offset + data.length ≤ hi) : Keeps I (dissectArp parent data offset) := by
  refine .bind (admits.setFlags (fun _ => ⟨rfl, rfl, rfl, rfl⟩)) (fun _ => ?_)
  refine .bind admits.setSummary (fun _ => ?_)
  refine .bind (admits.addSection (by omega)) (fun sec => ?_)
  refine .ite (fun _ => .pure _) (fun long => ?_)
  rw [readBE_ok (by omega), read_ok, pure_bind]
  refine .bind (admits.addField (by omega)) (fun _ => .bind (onlyIf_keeps (fun full => ?_))
    (fun _ => .pure _))
  simp (disch := omega) only [slice_ok, read_ok, pure_bind]
  refine .bind (admits.addFields ?_)
    (fun _ => .bind admits.setSummary (fun _ => admits.setSummary))
  simp only [List.forall_mem_cons, List.not_mem_nil, false_implies, implies_true, and_true]
  omega

theorem dissectIpv6Packet_meets (contract : crates.Contract) (fits : offset + data.length ≤ size) :
    Meets (Sound size {}) (dissectIpv6Packet crates parent data offset)
      (fun _ => Sound size (ipv6Labels offset data)) :=
  dissectIpv6_meets contract fits (by omega)

theorem dissectEthertype_meets (contract : crates.Contract) {ethertype : Nat}
    {other : Dissector PUnit} (fits : offset + data.length ≤ size)
    (rest : Keeps (Sound size {}) other) :
    Meets (Sound size {}) (dissectEthertype crates parent ethertype data offset other)
      (fun _ => Sound size (ethertypeLabels ethertype offset data)) := by
  unfold dissectEthertype ethertypeLabels
  split
  · exact dissectIpv4_meets contract fits
  · split
    · exact dissectIpv6Packet_meets contract fits
    · refine .ite (fun _ => dissectArp_keeps Sound.admits (Nat.zero_le _) fits) (fun _ => .bind rest (fun _ => ?_))
      exact .pure (fun _ sound => sound)

theorem dissectVlan_meets {ethertype : Nat} (admits : Admits lo hi I) (low : lo = 0)
    (fits : data.length ≤ hi)
    (read : ethertype = beAt data 12 2) :
    Meets (I) (dissectVlan parent data 0 ethertype)
      (fun found s => found = ethernetHead data ∧ I s) := by
  unfold dissectVlan ethernetHead
  refine .ite (fun tagged => ?_) (fun untagged => ?_)
  · rw [if_pos (by omega)]
    refine .bind (admits.setFlags (fun _ => ⟨rfl, rfl, rfl, rfl⟩)) (fun _ => ?_)
    refine .bind (admits.addSection (by omega)) (fun vlan => ?_)
    simp (disch := omega) only [readBE_ok, read_ok, pure_bind]
    refine .bind (admits.addFields ?_) (fun _ => .pure (fun _ sound => ⟨rfl, sound⟩))
    simp only [List.forall_mem_cons, List.not_mem_nil, false_implies, implies_true, and_true]
    omega
  · rw [if_neg (by omega), read]
    exact .pure (fun _ sound => ⟨rfl, sound⟩)

theorem dissectEthernet_meets (contract : crates.Contract) (fits : data.length ≤ size) :
    Meets (Sound size {}) (dissectEthernet crates parent data 0)
      (fun _ => Sound size (ethernetLabels data)) := by
  unfold dissectEthernet
  refine .ite (fun short => ?_) (fun long => ?_)
  · rw [ethernetLabels, if_pos short]
    exact .pure (fun _ sound => sound)
  rw [ethernetLabels, if_neg long]
  refine .bind (Sound.admits.setFlags (fun _ => ⟨rfl, rfl, rfl, rfl⟩)) (fun _ => ?_)
  refine .bind (Sound.admits.addSection (by omega)) (fun eth => ?_)
  simp (disch := omega) only [slice_ok, readBE_ok, read_ok, pure_bind]
  refine .bind (Sound.admits.addFields ?_) (fun _ => .bind Sound.admits.setSummary (fun _ => ?_))
  · simp only [List.forall_mem_cons, List.not_mem_nil, false_implies, implies_true, and_true]
    omega
  refine .bind (Sound.admits.addField (by omega)) (fun _ => ?_)
  refine .bind_value (dissectVlan_meets Sound.admits rfl fits rfl) ?_
  have inside : (ethernetHead data).2 ≤ data.length := by
    unfold ethernetHead
    split <;> dsimp only <;> omega
  rw [Nat.min_eq_left inside, sliceFrom_ok inside, read_ok, pure_bind]
  refine dissectEthertype_meets contract ?_
    (.bind Sound.admits.setSummary (fun _ => Sound.admits.setSummary))
  rw [List.length_drop]
  omega

theorem dissectSll_meets (contract : crates.Contract) (fits : data.length ≤ size) :
    Meets (Sound size {}) (dissectSll crates parent data 0)
      (fun _ => Sound size (frameLabels .linuxSll data)) := by
  unfold dissectSll
  refine .ite (fun short => ?_) (fun long => ?_)
  · rw [frameLabels, if_pos short]
    exact .pure (fun _ sound => sound)
  rw [frameLabels, if_neg long]
  refine .bind (Sound.admits.setFlags (fun _ => ⟨rfl, rfl, rfl, rfl⟩)) (fun _ => ?_)
  refine .bind (Sound.admits.addSection (by omega)) (fun sec => ?_)
  simp (disch := omega) only [readBE_ok, sliceFrom_ok, read_ok, pure_bind]
  refine .bind (Sound.admits.addFields ?_) (fun _ => dissectEthertype_meets contract ?_ (.pure _))
  · simp only [List.forall_mem_cons, List.not_mem_nil, false_implies, implies_true, and_true]
    omega
  · rw [List.length_drop]
    omega

theorem dissectSll2_meets (contract : crates.Contract) (fits : data.length ≤ size) :
    Meets (Sound size {}) (dissectSll2 crates parent data 0)
      (fun _ => Sound size (frameLabels .linuxSll2 data)) := by
  unfold dissectSll2
  refine .ite (fun short => ?_) (fun long => ?_)
  · rw [frameLabels, if_pos short]
    exact .pure (fun _ sound => sound)
  rw [frameLabels, if_neg long]
  refine .bind (Sound.admits.setFlags (fun _ => ⟨rfl, rfl, rfl, rfl⟩)) (fun _ => ?_)
  refine .bind (Sound.admits.addSection (by omega)) (fun sec => ?_)
  simp (disch := omega) only [readBE_ok, sliceFrom_ok, read_ok, pure_bind]
  refine .bind (Sound.admits.addField (by omega)) (fun _ => ?_)
  refine dissectEthertype_meets contract ?_ (.pure _)
  rw [List.length_drop]
  omega

theorem dissectVersion_meets (contract : crates.Contract) (fits : offset + data.length ≤ size) :
    Meets (Sound size {}) (dissectVersion crates parent data offset)
      (fun _ => Sound size (versionLabels offset data)) := by
  unfold dissectVersion versionLabels
  split
  · exact .pure (fun _ sound => sound)
  · next nonempty =>
    rw [byteAt_ok (List.length_pos_iff.mpr nonempty), read_ok, pure_bind]
    dsimp only
    split
    · exact dissectIpv4_meets contract fits
    · split
      · exact dissectIpv6Packet_meets contract fits
      · exact .pure (fun _ sound => sound)

theorem dissectNull_meets (contract : crates.Contract) (fits : data.length ≤ size) :
    Meets (Sound size {}) (dissectNull crates parent data 0)
      (fun _ => Sound size (nullLabels data)) := by
  unfold dissectNull
  refine .ite (fun short => ?_) (fun long => ?_)
  · rw [nullLabels, if_pos short]
    exact .pure (fun _ sound => sound)
  rw [nullLabels, if_neg long]
  refine .bind (Sound.admits.addSection (by omega)) (fun sec => ?_)
  simp (disch := omega) only [readBE_ok, readLE_ok, sliceFrom_ok, read_ok, pure_bind]
  have within : 0 + 4 + (data.drop 4).length ≤ size := by
    rw [List.length_drop]
    omega
  refine .bind (Sound.admits.addField (by omega)) (fun _ => ?_)
  change Meets (Sound size {}) (if nullFamily data = 2 then _ else
    if knownFamily (nullFamily data) then _ else _) _
  split
  · exact dissectIpv4_meets contract within
  · split
    · exact dissectIpv6Packet_meets contract within
    · exact dissectVersion_meets contract within

/-- Every link layer ends with the labels the walk over the frame's headers gives. -/
theorem dissectL2_meets (contract : crates.Contract) (linkType : LinkType)
    (fits : data.length ≤ size) :
    Meets (Sound size {}) (dissectL2 crates parent data linkType)
      (fun _ => Sound size (frameLabels linkType data)) := by
  have within : 0 + data.length ≤ size := by omega
  cases linkType with
  | ethernet => exact dissectEthernet_meets contract fits
  | linuxSll => exact dissectSll_meets contract fits
  | linuxSll2 => exact dissectSll2_meets contract fits
  | null => exact dissectNull_meets contract fits
  | raw => exact dissectVersion_meets contract within
  | ieee80211Radio => exact .bind (dissectRadiotap_keeps fits) (fun _ => .pure (fun _ h => h))
  | ieee80211 => exact .bind (dissectDot11_keeps Sound.admits rfl fits) (fun _ => .pure (fun _ h => h))
  | unknown v =>
    refine .ite (fun _ => dissectEthernet_meets contract fits) (fun short => ?_)
    rw [frameLabels, ethernetLabels, if_pos (by omega)]
    exact .pure (fun _ sound => sound)

end

end BitBeak
