import BitBeak.Capture.DispCompare
import BitBeak.Dissect.PayloadSlice
import BitBeak.Dissect.TlsCapture

/-! The field `tcp.flags.syn`. It is read back from the info of the packet, where the application
has put a text of its own. -/
namespace BitBeak
open Wire Dissector DispFilter

def flagText (set : Bool) : String := if set then "1" else "0"

/-- What the info says of the flag: whether it is named behind the first bracket. -/
def shown (info : String) : Option Bool :=
  (info.toList.splitOn '[')[1]?.map fun rest => hasText (String.ofList (rest.takeWhile (· ≠ ']'))) "SYN"

/- The field in the map. -/

section

variable {fields : DisplayFields} {key : String}

theorem get_insert (fields : DisplayFields) (key value : String) :
    DisplayFields.get (fields.insert key value) key = some value := by
  have gone :
      (fields.filter fun field => field.1 ≠ key).find? (fun field => field.1 == key) = none := by
    simp
  rw [DisplayFields.get, DisplayFields.insert, List.find?_append, gone]
  simp

theorem get_insert_other {other : String} (different : other ≠ key) (value : String) :
    DisplayFields.get (fields.insert other value) key = DisplayFields.get fields key := by
  induction fields with
  | nil => simp [DisplayFields.get, DisplayFields.insert, different]
  | cons field fields ih =>
    simp only [DisplayFields.get, DisplayFields.insert] at ih ⊢
    by_cases same : field.1 = key
    · simp [same, Ne.symm different]
    · by_cases old : field.1 = other
      · simpa [old, different] using ih
      · simpa [old, same] using ih

theorem get_within {keys : List String} (within : Within keys fields) (outside : key ∉ keys) :
    DisplayFields.get fields key = none := by
  rw [DisplayFields.get, Option.map_eq_none_iff, List.find?_eq_none]
  intro entry member named
  exact outside (beq_iff_eq.mp named ▸ within entry member)

/-- Entries of other keys do not change what is found. -/
theorem get_foldl_within {keys : List String} (outside : key ∉ keys) {others : DisplayFields}
    (within : Within keys others) (fields : DisplayFields) :
    DisplayFields.get (others.foldl (fun all (k, v) => all.insert k v) fields) key
      = DisplayFields.get fields key := by
  induction others generalizing fields with
  | nil => rfl
  | cons entry others ih =>
    have other : entry.1 ≠ key := fun same => outside (same ▸ within entry (List.mem_cons_self ..))
    rw [List.foldl_cons, ih (fun e member => within e (List.mem_cons_of_mem _ member)),
      get_insert_other other]

end

theorem tcpFields_shown (info : String) (fields : DisplayFields) :
    tcpFields info fields = match shown info with
      | some set => fields.insert "tcp.flags.syn" (flagText set)
      | none => fields := by
  unfold tcpFields shown
  cases (info.toList.splitOn '[')[1]? <;> rfl

section

variable {crates : Crates} {flags : ProtocolFlags} {summary : PacketSummary} {data : Bytes}
variable {linkType : LinkType} {fields : DisplayFields}

theorem syn_outside : "tcp.flags.syn" ∉ mapFields.dropLast := by
  decide

/-- The fields of a packet put into a map that is there. -/
theorem get_populated (tcp : flags.tcp = true)
    (populated : populateDisplayFields crates flags summary data linkType = .ok fields)
    (all : DisplayFields) :
    DisplayFields.get (fields.foldl (fun all (k, v) => all.insert k v) all) "tcp.flags.syn"
      = ((shown summary.info).map flagText).or (DisplayFields.get all "tcp.flags.syn") := by
  obtain ⟨others, within, rfl⟩ := populateDisplayFields_within populated
  rw [if_pos tcp, tcpFields_shown]
  cases shown summary.info with
  | none => exact get_foldl_within syn_outside within all
  | some set =>
    dsimp only
    rw [DisplayFields.insert, List.foldl_append, List.foldl_cons, List.foldl_nil, get_insert]
    rfl

theorem get_syn (tcp : flags.tcp = true)
    (populated : populateDisplayFields crates flags summary data linkType = .ok fields) :
    DisplayFields.get fields "tcp.flags.syn" = (shown summary.info).map flagText := by
  obtain ⟨others, within, rfl⟩ := populateDisplayFields_within populated
  rw [if_pos tcp, tcpFields_shown]
  cases shown summary.info with
  | none => exact get_within within syn_outside
  | some set => exact get_insert others _ _

end

/- The flag in the info. -/

theorem shown_bracketless {info : String} (plain : Bracketless info) : shown info = none := by
  have single : info.toList.splitOn '[' = [info.toList] := by
    have outside : ∀ part ∈ [info.toList], '[' ∉ part := List.forall_mem_singleton.mpr plain
    have joined := List.splitOn_intercalate '[' outside (List.cons_ne_nil _ _)
    simpa using joined
  rw [shown, single]
  rfl

theorem shown_bracket {front flags back : String} (before : Bracketless front)
    (inside : Bracketless flags) (closed : ']' ∉ flags.toList) (after : Bracketless back) :
    shown (front ++ "[" ++ flags ++ "]" ++ back) = some (hasText flags "SYN") := by
  have whole : (front ++ "[" ++ flags ++ "]" ++ back).toList
      = ['['].intercalate [front.toList, flags.toList ++ ']' :: back.toList] := by
    simp [List.intercalate]
  have outside : ∀ part ∈ [front.toList, flags.toList ++ ']' :: back.toList], '[' ∉ part := by
    simp [before, inside, after]
  have parts := List.splitOn_intercalate '[' outside (List.cons_ne_nil _ _)
  have open' : ∀ c ∈ flags.toList, (decide (c ≠ ']')) = true := by
    intro c member
    exact decide_eq_true (fun same => closed (same ▸ member))
  have taken : (flags.toList ++ ']' :: back.toList).takeWhile (fun c => decide (c ≠ ']'))
      = flags.toList := by
    rw [List.takeWhile_append_of_pos open']
    simp
  rw [shown, whole, parts]
  simp only [List.getElem?_cons_succ, List.getElem?_cons_zero, Option.map_some, taken,
    String.ofList_toList]

/-- The flag SYN of a segment. -/
def synFlag (seg : Bytes) : Bool := octet seg 13 &&& 0x02 ≠ 0

/-- The names of the flags that are set. -/
def flagNames (f : UInt8) : List String :=
  ([(0x01, "FIN"), (0x02, "SYN"), (0x04, "RST"), (0x08, "PSH"), (0x10, "ACK"),
    (0x20, "URG")].filter fun (bit, _) => f &&& bit ≠ 0).map (·.2)

theorem formatTcpFlags_toList (f : UInt8) : (formatTcpFlags f).toList =
    if flagNames f = [] then "0x".toList ++ (hexDigits 2 f.toNat).toList
    else [','].intercalate ((flagNames f).map String.toList) := by
  have same : formatTcpFlags f =
      if flagNames f = [] then "0x" ++ hexDigits 2 f.toNat else ",".intercalate (flagNames f) := by
    simp only [formatTcpFlags, flagNames, List.map_eq_nil_iff]
  rw [same]
  split
  · exact String.toList_append
  · exact String.toList_intercalate

/-- The six low bits decide. -/
theorem flagNames_low (f : UInt8) : ∃ n < 64, flagNames f = flagNames (UInt8.ofNat n) ∧
    (f &&& 0x02 ≠ 0 ↔ UInt8.ofNat n &&& 0x02 ≠ 0) := by
  have each : ∀ n < 256, [(0x01 : UInt8), 0x02, 0x04, 0x08, 0x10, 0x20].all
      fun bit => decide (UInt8.ofNat n &&& bit ≠ 0 ↔ UInt8.ofNat (n % 64) &&& bit ≠ 0) := by
    decide +kernel
  have every : ∀ n < 256, ∀ bit ∈ [(0x01 : UInt8), 0x02, 0x04, 0x08, 0x10, 0x20],
      (UInt8.ofNat n &&& bit ≠ 0 ↔ UInt8.ofNat (n % 64) &&& bit ≠ 0) := fun n small bit member =>
    of_decide_eq_true (List.all_eq_true.mp (each n small) bit member)
  have known := every f.toNat f.toNat_lt
  rw [UInt8.ofNat_toNat] at known
  refine ⟨f.toNat % 64, Nat.mod_lt _ (by omega), ?_, known 0x02 (by decide)⟩
  unfold flagNames
  congr 1
  apply List.filter_congr
  rintro ⟨bit, name⟩ listed
  have low : bit ∈ [(0x01 : UInt8), 0x02, 0x04, 0x08, 0x10, 0x20] :=
    List.mem_map_of_mem (f := Prod.fst) listed
  exact decide_eq_decide.mpr (known bit low)

theorem formatTcpFlags_names (f : UInt8) : Bracketless (formatTcpFlags f) ∧
    ']' ∉ (formatTcpFlags f).toList ∧ hasText (formatTcpFlags f) "SYN" = decide (f &&& 0x02 ≠ 0) := by
  rw [Bracketless, hasText, formatTcpFlags_toList]
  split
  · next none =>
    have every : ∀ n < 256, flagNames (UInt8.ofNat n) = [] → n ∈ [0, 64, 128, 192] := by
      decide +kernel
    have plain : ∀ n ∈ [0, 64, 128, 192], '[' ∉ "0x".toList ++ (hexDigits 2 n).toList ∧
        ']' ∉ "0x".toList ++ (hexDigits 2 n).toList ∧
        ("0x".toList ++ (hexDigits 2 n).toList).tails.any "SYN".toList.isPrefixOf
          = decide (UInt8.ofNat n &&& 0x02 ≠ 0) := by
      decide +kernel
    have known := plain f.toNat (every f.toNat f.toNat_lt (by rwa [UInt8.ofNat_toNat]))
    rwa [UInt8.ofNat_toNat] at known
  · have every : ∀ n < 64,
        '[' ∉ [','].intercalate ((flagNames (UInt8.ofNat n)).map String.toList) ∧
          ']' ∉ [','].intercalate ((flagNames (UInt8.ofNat n)).map String.toList) ∧
            ([','].intercalate ((flagNames (UInt8.ofNat n)).map String.toList)).tails.any
              "SYN".toList.isPrefixOf = decide (UInt8.ofNat n &&& 0x02 ≠ 0) := by
      decide +kernel
    obtain ⟨n, small, same, bit⟩ := flagNames_low f
    simp only [same, bit]
    exact every n small

theorem bracketless_labelled {front label : String} (before : Bracketless front)
    (plain : Bracketless label) (n : Nat) : Bracketless (front ++ label ++ toString n) :=
  bracketless_append (bracketless_append before plain) (bracketless_toString n)

/-- Before an application is called, the info shows the flag. -/
theorem shown_tcpText (seg : Bytes) : shown (tcpText seg) = some (synFlag seg) := by
  obtain ⟨plain, closed, named⟩ := formatTcpFlags_names (octet seg 13)
  let front := toString (beAt seg 0 2) ++ " → " ++ toString (beAt seg 2 2) ++ " "
  let back := " Seq=" ++ toString (beAt seg 4 4) ++ " Ack=" ++ toString (beAt seg 8 4) ++ " Win=" ++
    toString (beAt seg 14 2) ++ " Len=" ++ toString (tcpHeader 0 seg).payload.length
  have ports : Bracketless front :=
    bracketless_append (bracketless_labelled (bracketless_toString _) (by decide) _) (by decide)
  have first : Bracketless (" Seq=" ++ toString (beAt seg 4 4)) :=
    bracketless_append (by decide) (bracketless_toString _)
  have numbers : Bracketless back :=
    bracketless_labelled (bracketless_labelled (bracketless_labelled first (by decide) _)
      (by decide) _) (by decide) _
  have text : tcpText seg = front ++ "[" ++ formatTcpFlags (octet seg 13) ++ "]" ++ back := by
    change toString (beAt seg 0 2) ++ " → " ++ toString (beAt seg 2 2) ++ " [" ++
      formatTcpFlags (octet seg 13) ++ ("] Seq=" ++ toString (beAt seg 4 4) ++ " Ack=" ++
        toString (beAt seg 8 4) ++ " Win=" ++ toString (beAt seg 14 2) ++ " Len=" ++
          toString (tcpHeader 0 seg).payload.length) = _
    apply String.toList_injective
    simp [front, back]
  rw [text, shown_bracket ports plain closed numbers, named]
  rfl

/- The field of a packet. -/

/-- What the packet shows of the flag, by the text that the application of the segment puts into
the info. `plain` is the HTTP message that was opened with the key log. -/
def synShown (crates : Crates) (seg : Bytes) (plain : Option Bytes) : Option Bool :=
  let payload := (tcpHeader 0 seg).payload
  match (tcpHeader 0 seg).application with
  | none => some (synFlag seg)
  | some .tls =>
    (plain.bind fun plain => shown (http1Text crates plain)).or (shown (tlsText crates payload))
  | some .http1 => shown (http1Text crates payload)
  | some .sip => shown (sipText payload)
  | some .http2 | some .websocket => none

/-- The text in the info names SYN, in its first brackets, if and only if the segment sets it. -/
def SynKept (crates : Crates) (ciphers : TlsCiphers) (keylog : Option KeyLog) (linkType : LinkType)
    (data : Bytes) : Prop :=
  ∃ seg, tcpSegment linkType data = some seg ∧
    synShown crates seg (keylog.bind fun keylog => openedHttp1 crates ciphers keylog data linkType)
      = some (synFlag seg)

/-- The packet has the field, with the flag of its segment. -/
def ReflectsSyn (linkType : LinkType) (data : Bytes) (d : DissectedPacket) : Prop :=
  ∃ seg, tcpSegment linkType data = some seg ∧
    DisplayFields.get d.fields "tcp.flags.syn" = some (flagText (synFlag seg))

section

variable {crates : Crates} {ciphers : TlsCiphers} {keylog : Option KeyLog} {linkType : LinkType}
variable {data : Bytes} {d : DissectedPacket}

theorem flagText_injective : Function.Injective flagText := by
  decide

theorem shown_info {seg : Bytes} {info : String}
    (said : InfoOf crates (tcpText seg) (tcpHeader 0 seg).payload info (tcpHeader 0 seg).application) :
    shown info = synShown crates seg none := by
  unfold synShown
  cases known : (tcpHeader 0 seg).application with
  | none =>
    rw [known] at said
    rw [show info = _ from said, shown_tcpText]
  | some application =>
    rw [known] at said
    cases application with
    | http2 => exact shown_bracketless said
    | websocket => exact shown_bracketless said
    | tls => exact congrArg shown said
    | http1 => exact congrArg shown said
    | sip => exact congrArg shown said

theorem tcpSegment_nil (linkType : LinkType) : tcpSegment linkType [] = none := by
  cases linkType <;> rfl

/-- The field before the key log is used. -/
theorem dissect_syn (done : dissect crates data linkType = .ok d) (tcp : d.flags.tcp = true) :
    ∃ seg, tcpSegment linkType data = some seg ∧
      (d.flags.tls = decide ((tcpHeader 0 seg).application = some .tls)) ∧
        DisplayFields.get d.fields "tcp.flags.syn" = (synShown crates seg none).map flagText := by
  obtain ⟨account, filled⟩ := dissect_account done
  cases account with
  | none untouched => exact absurd (tcp.symm.trans untouched.tcp) (by decide)
  | udp seg noted proto off => exact absurd (tcp.symm.trans off) (by decide)
  | tcp seg here offset noted on off tls ported info =>
    refine ⟨seg, here, tls, ?_⟩
    have nonempty : data ≠ [] := by
      rintro rfl
      rw [tcpSegment_nil] at here
      cases here
    rw [get_syn tcp (filled nonempty), ← shown_info info]
    rfl

theorem syn_field (done : dissectWith crates ciphers keylog data linkType = .ok d)
    (tcp : d.flags.tcp = true) : ∃ seg, tcpSegment linkType data = some seg ∧
      DisplayFields.get d.fields "tcp.flags.syn" = (synShown crates seg (keylog.bind fun keylog =>
        openedHttp1 crates ciphers keylog data linkType)).map flagText := by
  obtain ⟨plain, first, restaged⟩ := dissectWith_restaged done
  have same := restaged.ends
  simp only [Dissection.ends, DissectedPacket.state, Ends.mk.injEq] at same
  obtain ⟨seg, here, tls, known⟩ := dissect_syn first (same.2.2.1.symm.trans tcp)
  refine ⟨seg, here, ?_⟩
  generalize (keylog.bind fun keylog => openedHttp1 crates ciphers keylog data linkType)
    = opened at restaged ⊢
  by_cases secured : (tcpHeader 0 seg).application = some .tls
  · rw [if_pos (tls.trans (decide_eq_true secured))] at restaged
    have both : synShown crates seg opened
        = (opened.bind fun plain => shown (http1Text crates plain)).or (synShown crates seg none) := by
      simp only [synShown, secured, Option.bind_none, Option.none_or]
    rw [both]
    cases restaged with
    | kept => simpa using known
    | opened plain' s fields tree ends info filled =>
      rw [get_populated tcp filled, known, info, Option.map_or]
      rfl
  · have other : synShown crates seg opened = synShown crates seg none := by
      unfold synShown
      split <;> first | rfl | exact absurd ‹_› secured
    rw [if_neg (by rw [tls]; simpa using secured)] at restaged
    cases restaged
    rw [other]
    exact known

end

/-- A packet that is dissected as TCP has the field with the flag of the segment if and only if
the application's text in the info says the same of it. -/
theorem syn_field_iff {crates : Crates} {ciphers : TlsCiphers} {keylog : Option KeyLog}
    {linkType : LinkType} {data : Bytes} {d : DissectedPacket}
    (done : dissectWith crates ciphers keylog data linkType = .ok d) (tcp : d.flags.tcp = true) :
    ReflectsSyn linkType data d ↔ SynKept crates ciphers keylog linkType data := by
  obtain ⟨seg, here, known⟩ := syn_field done tcp
  unfold ReflectsSyn SynKept
  simp only [here, Option.some.injEq, exists_eq_left', known]
  constructor
  · intro reflected
    obtain ⟨set, shown, same⟩ := Option.map_eq_some_iff.mp reflected
    rw [shown, flagText_injective same]
  · intro kept
    rw [kept]
    rfl

theorem syn_segment_shown : ∃ d, dissectWith refusingCrates nullCiphers none
    (segmentFrame 1 0x02 []) .raw = .ok d ∧ d.flags.tcp = true ∧
      (ReflectsSyn .raw (segmentFrame 1 0x02 []) d ↔
        SynKept refusingCrates nullCiphers none .raw (segmentFrame 1 0x02 [])) := by
  obtain ⟨d, done, _, labelled⟩ := dissect_ok refusingCrates_contract (segmentFrame 1 0x02 []) .raw
  have tcp : d.flags.tcp = true := congrArg Labels.tcp labelled
  have whole : dissectWith refusingCrates nullCiphers none (segmentFrame 1 0x02 []) .raw = .ok d := by
    rw [dissectWith, done]
    rfl
  exact ⟨d, whole, tcp, syn_field_iff whole tcp⟩

/-- A segment with SYN whose two octets of payload are taken for an empty WebSocket frame. -/
theorem ws_segment_without_syn : ¬ ∀ (data : Bytes) (linkType : LinkType) (d : DissectedPacket),
    dissect refusingCrates data linkType = .ok d → d.flags.tcp = true →
      ReflectsSyn linkType data d := by
  intro claimed
  obtain ⟨d, done, _, labelled⟩ :=
    dissect_ok refusingCrates_contract (segmentFrame 1 0x02 [0x81, 0]) .raw
  have tcp : d.flags.tcp = true := congrArg Labels.tcp labelled
  obtain ⟨seg, here, reflected⟩ := claimed _ _ d done tcp
  obtain ⟨seg', here', _, known⟩ := dissect_syn done tcp
  have missing : (tcpSegment .raw (segmentFrame 1 0x02 [0x81, 0])).bind
      (fun seg => synShown refusingCrates seg none) = none := by
    decide +kernel
  rw [here', Option.bind_some] at missing
  rw [known, missing] at reflected
  cases reflected

end BitBeak
