import BitBeak.Capture.CapParse
import BitBeak.Capture.DispMatch
import BitBeak.Capture.Sniff
import BitBeak.Dissect.Analysis
import BitBeak.Dissect.L4

/-! The text of an endpoint, which the dissectors write as an address with or without a port
and the display fields and the statistics take apart again. -/
namespace BitBeak
open Wire DispFilter

/-- An address as the dissectors of its network layer write it, from its octets. -/
def IpAddr.display : IpAddr → String
  | .v4 ip => dotted (toBE 4 ip.toNat)
  | .v6 ip => ipv6Text (toBE 16 ip.toNat)

/-- The transport dissectors add their port. -/
def endpointText (address : IpAddr) : Option UInt16 → String
  | none => address.display
  | some port => withPort address.display port.toNat

/-- All readers of an endpoint find the address and the port that were written. -/
structure Recovered (address : IpAddr) (port : Option UInt16) : Prop where
  source : ∀ summary : PacketSummary, summary.src = endpointText address port →
    fieldComputed "ip.src" summary = some address.display
  destination : ∀ summary : PacketSummary, summary.dst = endpointText address port →
    fieldComputed "ip.dst" summary = some address.display
  sourcePort : ∀ summary : PacketSummary, summary.src = endpointText address port →
    ∀ name ∈ ["tcp.srcport", "udp.srcport"],
      fieldComputed name summary = port.map fun p => toString p.toNat
  destinationPort : ∀ summary : PacketSummary, summary.dst = endpointText address port →
    ∀ name ∈ ["tcp.dstport", "udp.dstport"],
      fieldComputed name summary = port.map fun p => toString p.toNat
  host : stripPort (endpointText address port) = address.display
  port : portOf (endpointText address port) = port.map fun p => toString p.toNat

/- Numbers and their digits. -/

theorem parseU16_toString {n : Nat} (small : n < 2 ^ 16) : parseU16 (toString n) = some n := by
  have unsigned : hasPrefix (toString n) "+" = false := by
    have other : '+' ∉ Nat.toDigits 10 n := digits_outside (by decide)
    rw [hasPrefix, toList_toString]
    cases shape : Nat.toDigits 10 n with
    | nil => rfl
    | cons c cs =>
      have differs : '+' ≠ c := by
        rintro rfl
        exact other (shape ▸ List.mem_cons_self)
      simp [List.isPrefixOf, differs]
  have all : (Nat.toDigits 10 n).all (·.isDigit) = true := List.all_eq_true.mpr digits_all
  rw [parseU16, unsigned, toList_toString]
  simp only [Bool.false_eq_true, if_false, Nat.ofDigitChars_ten_toDigits]
  rw [if_pos ⟨Nat.toDigits_ne_nil, all⟩, if_pos small]

theorem hexDigit_of_mem {n : Nat} {c : Char} (member : c ∈ Nat.toDigits 16 n) :
    ∃ d < 16, c = Nat.digitChar d := by
  induction n using Nat.strongRecOn with
  | ind n ih =>
    rw [Nat.toDigits_eq_if (by decide)] at member
    split at member
    · next small =>
      exact ⟨n, small, List.mem_singleton.mp member⟩
    · next large =>
      rcases List.mem_append.mp member with front | last
      · exact ih (n / 16) (by omega) front
      · exact ⟨n % 16, by omega, List.mem_singleton.mp last⟩

theorem addressChar_hex : ∀ d < 16, addressChar (Nat.digitChar d) = true := by decide

theorem addressChar_hexDigits {width n : Nat} {c : Char} (member : c ∈ (hexDigits width n).toList) :
    addressChar c = true := by
  rw [hexDigits, String.toList_ofList, List.mem_append] at member
  rcases member with padding | digit
  · rw [List.eq_of_mem_replicate padding]
    decide
  · obtain ⟨d, small, rfl⟩ := hexDigit_of_mem digit
    exact addressChar_hex d small

theorem addressChar_toString {n : Nat} {c : Char} (member : c ∈ (toString n).toList) :
    addressChar c = true := by
  have digit := isDigit_of_mem_toString member
  simp [addressChar, digit]

/- The texts of addresses. -/

theorem portless_dotted (bytes : Bytes) : ':' ∉ (dotted bytes).toList := by
  intro member
  rcases mem_intercalate member with mark | ⟨part, listed, inside⟩
  · exact absurd mark (by decide)
  · obtain ⟨b, _, rfl⟩ := List.mem_map.mp listed
    exact outside_toString (by decide) inside

theorem addressChar_dotted {bytes : Bytes} {c : Char} (member : c ∈ (dotted bytes).toList) :
    addressChar c = true := by
  rcases mem_intercalate member with mark | ⟨part, listed, inside⟩
  · rw [List.mem_singleton.mp mark]
    decide
  · obtain ⟨b, _, rfl⟩ := List.mem_map.mp listed
    exact addressChar_toString inside

theorem addressText_dotted {bytes : Bytes} (several : 2 ≤ bytes.length) :
    AddressText (dotted bytes) := by
  refine ⟨fun c => addressChar_dotted, '.', ?_, .inl rfl⟩
  apply mark_mem_intercalate
  · rwa [List.length_map]
  · decide

theorem addressText_fmtMac {bytes : Bytes} (several : 2 ≤ bytes.length) :
    AddressText (fmtMac bytes) := by
  refine ⟨fun c member => ?_, ':', ?_, .inr rfl⟩
  · rcases mem_intercalate member with mark | ⟨part, listed, inside⟩
    · rw [List.mem_singleton.mp mark]
      decide
    · obtain ⟨b, _, rfl⟩ := List.mem_map.mp listed
      exact addressChar_hexDigits inside
  · apply mark_mem_intercalate
    · rw [List.length_map, List.length_take]
      omega
    · decide

theorem addressChar_groupsText {groups : List Nat} {c : Char}
    (member : c ∈ (groupsText groups).toList) : addressChar c = true := by
  rcases mem_intercalate member with mark | ⟨part, listed, inside⟩
  · rw [List.mem_singleton.mp mark]
    decide
  · obtain ⟨g, _, rfl⟩ := List.mem_map.mp listed
    exact addressChar_hexDigits inside

theorem colon_mem_ipv6Text (bytes : Bytes) : ':' ∈ (ipv6Text bytes).toList := by
  unfold ipv6Text
  dsimp only
  split
  · simp
  · split
    · simp
    · apply mark_mem_intercalate
      · simp
      · decide

theorem addressText_ipv6Text (bytes : Bytes) : AddressText (ipv6Text bytes) := by
  refine ⟨fun c member => ?_, ':', colon_mem_ipv6Text bytes, .inr rfl⟩
  have between : "::".toList.all addressChar = true := by decide
  have front : "::ffff:".toList.all addressChar = true := by decide
  unfold ipv6Text at member
  dsimp only at member
  split at member
  · rw [String.toList_append, List.mem_append] at member
    rcases member with mapped | address
    · exact List.all_eq_true.mp front c mapped
    · exact addressChar_dotted address
  · split at member
    · simp only [String.toList_append, List.mem_append] at member
      rcases member with (before | gap) | after
      · exact addressChar_groupsText before
      · exact List.all_eq_true.mp between c gap
      · exact addressChar_groupsText after
    · exact addressChar_groupsText member

/- What the readers find. -/

theorem AddressText.nonempty {text : String} (address : AddressText text) : text ≠ "" := by
  obtain ⟨_, c, member, _⟩ := address
  rintro rfl
  cases member

theorem withPort_eq {text : String} (address : AddressText text) (port : Nat) :
    withPort text port = text ++ String.ofList [':'] ++ toString port := by
  rw [withPort, if_neg address.nonempty, String.append_assoc]
  rfl

theorem rsplitOnce_withPort {text : String} (address : AddressText text) (port : Nat) :
    rsplitOnce ':' (withPort text port) = some (text, toString port) := by
  rw [withPort_eq address]
  exact rsplitOnce_append _ (outside_toString (by decide))

theorem stripHostPort_withPort {text : String} (address : AddressText text) (port : Nat) :
    stripHostPort (withPort text port) = text := by
  rw [stripHostPort, rsplitOnce_withPort address]

theorem endpointPort_withPort {text : String} (address : AddressText text) {port : Nat}
    (small : port < 2 ^ 16) : endpointPort (withPort text port) = some port := by
  rw [endpointPort, rsplitOnce_withPort address]
  exact parseU16_toString small

theorem portOf_withPort {text : String} (address : AddressText text) {port : Nat}
    (small : port < 2 ^ 16) : portOf (withPort text port) = some (toString port) := by
  simp only [portOf, rsplitOnce_withPort address, parseU16_toString small, Option.isSome_some,
    if_true]

/-- The statistics take the port off an address without colons only. -/
theorem stripPort_withPort {text : String} (address : AddressText text) {port : Nat}
    (small : port < 2 ^ 16) : stripPort (withPort text port) =
      if ':' ∈ text.toList then withPort text port else text := by
  simp only [stripPort, rsplitOnce_withPort address, parseU16_toString small, Option.isSome_some,
    true_and]
  exact ite_not ..

theorem stripHostPort_portless {text : String} (portless : ':' ∉ text.toList) :
    stripHostPort text = text := by
  rw [stripHostPort, rsplitOnce_eq_none portless]

theorem stripPort_portless {text : String} (portless : ':' ∉ text.toList) :
    stripPort text = text := by
  rw [stripPort, rsplitOnce_eq_none portless]

/-- Where no port was written, a colon of the address is taken for the one in front of it. -/
theorem stripHostPort_ne {text : String} (colon : ':' ∈ text.toList) :
    stripHostPort text ≠ text := by
  obtain ⟨⟨host, rest⟩, split⟩ : ∃ parts, rsplitOnce ':' text = some parts := by
    rw [rsplitOnce, if_pos colon]
    exact ⟨_, rfl⟩
  obtain ⟨whole, _⟩ := rsplitOnce_eq_some split
  rw [stripHostPort, split]
  intro same
  have longer := congrArg (fun t : String => t.toList.length) whole
  simp only [← same, String.toList_append, List.length_append, String.toList_ofList,
    List.length_singleton] at longer
  omega

/- The addresses of all layers. The statistics leave each of them whole. -/

/-- A text that a dissector writes for an address. -/
structure EndAddress (text : String) : Prop where
  address : AddressText text
  whole : stripPort text = text

/-- The last colon of several stands behind another. -/
theorem stripPort_colons {text : String} (several : 2 ≤ text.toList.count ':') :
    stripPort text = text := by
  unfold stripPort
  split
  · next host port split =>
    obtain ⟨whole, outside⟩ := rsplitOnce_eq_some split
    have colon : ':' ∈ host.toList := by
      rw [whole] at several
      simp only [String.toList_append, List.count_append, List.count_eq_zero_of_not_mem outside,
        String.toList_ofList, List.count_singleton_self] at several
      exact List.count_pos_iff.mp (by omega)
    rw [if_neg (fun both => both.2 colon)]
  · rfl

theorem endAddress_dotted {bytes : Bytes} (several : 2 ≤ bytes.length) : EndAddress (dotted bytes) :=
  ⟨addressText_dotted several, stripPort_portless (portless_dotted bytes)⟩

theorem colon_between : ':' ∈ ":".toList := by
  decide

theorem endAddress_fmtMac {bytes : Bytes} (several : 3 ≤ bytes.length) :
    EndAddress (fmtMac bytes) := by
  refine ⟨addressText_fmtMac (by omega), stripPort_colons ?_⟩
  have counted := length_le_count_intercalate ((bytes.take 6).map fun b => hexDigits 2 b.toNat)
    colon_between
  rw [List.length_map, List.length_take] at counted
  unfold fmtMac
  omega

theorem endAddress_ipv6Text (bytes : Bytes) : EndAddress (ipv6Text bytes) := by
  refine ⟨addressText_ipv6Text bytes, stripPort_colons ?_⟩
  unfold ipv6Text
  dsimp only
  split
  · simp
  · split
    · simp
      omega
    · have counted := length_le_count_intercalate
        (((List.range 8).map fun i => beAt bytes (2 * i) 2).map (hexDigits 1)) colon_between
      rw [List.length_map, List.length_map, List.length_range] at counted
      unfold groupsText
      omega

theorem display_v4 (ip : Ipv4Addr) : (IpAddr.v4 ip).display = dotted (toBE 4 ip.toNat) := by
  rw [IpAddr.display]

theorem display_v6 (ip : Ipv6Addr) : (IpAddr.v6 ip).display = ipv6Text (toBE 16 ip.toNat) := by
  rw [IpAddr.display]

theorem addressText_display (address : IpAddr) : AddressText address.display := by
  cases address with
  | v4 ip =>
    rw [display_v4]
    apply addressText_dotted
    rw [length_toBE]
    decide
  | v6 ip =>
    rw [display_v6]
    apply addressText_ipv6Text

@[simp] theorem endpointText_none (address : IpAddr) :
    endpointText address none = address.display := rfl

@[simp] theorem endpointText_some (address : IpAddr) (port : UInt16) :
    endpointText address (some port) = withPort address.display port.toNat := rfl

theorem fieldComputed_source (summary : PacketSummary) :
    fieldComputed "ip.src" summary = some (stripHostPort summary.src) := rfl

theorem fieldComputed_destination (summary : PacketSummary) :
    fieldComputed "ip.dst" summary = some (stripHostPort summary.dst) := rfl

theorem fieldComputed_sourcePort {name : String} (listed : name ∈ ["tcp.srcport", "udp.srcport"])
    (summary : PacketSummary) :
    fieldComputed name summary = (endpointPort summary.src).map toString := by
  simp only [List.mem_cons, List.not_mem_nil, or_false] at listed
  rcases listed with rfl | rfl <;> rfl

theorem fieldComputed_destinationPort {name : String}
    (listed : name ∈ ["tcp.dstport", "udp.dstport"]) (summary : PacketSummary) :
    fieldComputed name summary = (endpointPort summary.dst).map toString := by
  simp only [List.mem_cons, List.not_mem_nil, or_false] at listed
  rcases listed with rfl | rfl <;> rfl

/-- What the source address of a packet is read as. -/
theorem Recovered.stripHostPort_eq {address : IpAddr} {port : Option UInt16}
    (recovered : Recovered address port) :
    stripHostPort (endpointText address port) = address.display := by
  have read := recovered.source
  generalize endpointText address port = text at read ⊢
  exact Option.some.inj (read { src := text } rfl)

/-- The four functions that take an endpoint apart decide what all readers find. -/
theorem recovered_of_readers {address : IpAddr} {port : Option UInt16}
    (host : stripHostPort (endpointText address port) = address.display)
    (number : endpointPort (endpointText address port) = port.map UInt16.toNat)
    (bare : stripPort (endpointText address port) = address.display)
    (text : portOf (endpointText address port) = port.map fun p => toString p.toNat) :
    Recovered address port := by
  constructor
  · intro summary written
    rw [fieldComputed_source, written, host]
  · intro summary written
    rw [fieldComputed_destination, written, host]
  · intro summary written name listed
    rw [fieldComputed_sourcePort listed, written, number, Option.map_map]
    rfl
  · intro summary written name listed
    rw [fieldComputed_destinationPort listed, written, number, Option.map_map]
    rfl
  · exact bare
  · exact text

theorem recovered_v4 (ip : Ipv4Addr) (port : Option UInt16) : Recovered (.v4 ip) port := by
  have portless : ':' ∉ (IpAddr.v4 ip).display.toList := by
    rw [display_v4]
    apply portless_dotted
  have address := addressText_display (.v4 ip)
  generalize shown : (IpAddr.v4 ip).display = text at portless address
  cases port with
  | none =>
    have nowhere := rsplitOnce_eq_none portless
    apply recovered_of_readers <;> rw [endpointText_none, shown]
    · exact stripHostPort_portless portless
    · rw [endpointPort, nowhere]
      rfl
    · exact stripPort_portless portless
    · rw [portOf, nowhere]
      rfl
  | some port =>
    have small : port.toNat < 2 ^ 16 := port.toNat_lt
    apply recovered_of_readers <;> rw [endpointText_some, shown]
    · exact stripHostPort_withPort address _
    · exact endpointPort_withPort address small
    · rw [stripPort_withPort address small, if_neg portless]
    · exact portOf_withPort address small

theorem not_recovered_v6 (ip : Ipv6Addr) (port : Option UInt16) : ¬ Recovered (.v6 ip) port := by
  intro recovered
  have colon : ':' ∈ (IpAddr.v6 ip).display.toList := by
    rw [display_v6]
    apply colon_mem_ipv6Text
  have address := addressText_display (.v6 ip)
  cases port with
  | none =>
    -- The last group goes with the colon in front of it.
    have read := recovered.stripHostPort_eq
    rw [endpointText_none] at read
    exact stripHostPort_ne colon read
  | some port =>
    -- The statistics keep the port.
    have read := recovered.host
    rw [endpointText_some, stripPort_withPort address port.toNat_lt, if_pos colon,
      withPort_eq address] at read
    have longer := congrArg (fun t : String => t.toList.length) read
    simp only [String.toList_append, List.length_append, String.toList_ofList,
      List.length_singleton] at longer
    omega

/-- The readers of an endpoint find the address and the port that the dissectors wrote exactly
for the endpoints of IPv4. -/
theorem endpoint_text_recovered_iff (address : IpAddr) (port : Option UInt16) :
    Recovered address port ↔ ∃ ip, address = .v4 ip := by
  constructor
  · intro recovered
    cases address with
    | v4 ip => exact ⟨ip, rfl⟩
    | v6 ip => exact absurd recovered (not_recovered_v6 ip port)
  · rintro ⟨ip, rfl⟩
    exact recovered_v4 ip port

/-- `::1` without a port is read as the address `:`. -/
theorem loopback_endpoint_lost : ¬ Recovered (.v6 1) none := by
  intro recovered
  have read := recovered.stripHostPort_eq
  have shown : (IpAddr.v6 1).display = "::1" := by decide +kernel
  rw [endpointText_none, shown] at read
  exact absurd read (by decide +kernel)

end BitBeak
