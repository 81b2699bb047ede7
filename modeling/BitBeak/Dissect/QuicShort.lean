import BitBeak.Dissect.KeyLog
import BitBeak.Dissect.L4

/-! QUIC packets with a short header, which a traffic secret of the key log may open, and UDP with
a key log. -/
namespace BitBeak
open Wire Dissector

def pairUp : List Nat → Bytes
  | high :: low :: rest => UInt8.ofNat (high * 16 + low) :: pairUp rest
  | _ => []

/-- The hexadecimal digits among the characters, in pairs. -/
def decodeLoose (s : String) : Bytes := pairUp (s.toList.filterMap hexDigit?)

/-- The first connection with secrets tells, by the label it prefers. -/
def KeyLog.quicTrafficSecret (keylog : KeyLog) : Option (String × String) :=
  let preferred := ["CLIENT_TRAFFIC_SECRET_0", "SERVER_TRAFFIC_SECRET_0",
    "CLIENT_HANDSHAKE_TRAFFIC_SECRET", "SERVER_HANDSHAKE_TRAFFIC_SECRET"]
  keylog.trafficSecrets.findSome? fun (_, entries) =>
    (preferred.findSome? fun label => entries.find? (·.1 == label)).or entries.head?

/-- The plaintext under the first connection id length and packet number that open it. -/
def openShortHeader (crates : Crates) (key : Octets 16) (iv : Octets 12) (payload : Bytes) :
    Option Bytes :=
  (List.range 9).findSome? fun dcidLen =>
    if payload.length < 1 + dcidLen + 1 + 16 then none
    else (List.range 4).findSome? fun pn =>
      decryptInitialPayload crates key iv pn (payload.take (1 + dcidLen + 1))
        (payload.drop (1 + dcidLen + 1))

def dissectQuic1rttWith (crates : Crates) (keylog : Option KeyLog) (parent : Nat) (payload : Bytes)
    (payloadOff : Nat) : Dissector PUnit := do
  let sec ← addSection parent "QUIC 1-RTT" payloadOff (min payload.length 32)
  let _first ← byteAt payload 0
  addFields sec [("First byte", payloadOff, 1)]
  let encrypted : Dissector PUnit := do
    addFields sec [("Note", payloadOff, 0)]
    setInfo "QUIC encrypted"
  match keylog.bind (·.quicTrafficSecret) with
  | none => encrypted
  | some (_, secretHex) =>
    let secret := decodeLoose secretHex
    if secret.length < 16 then encrypted
    else
      match (hkdfExpandLabel crates secret "quic key" 16).bind (toOctets 16),
          (hkdfExpandLabel crates secret "quic iv" 12).bind (toOctets 12) with
      | some key, some iv =>
        match openShortHeader crates key iv payload with
        | some plain =>
          addFields sec [("Decrypted", payloadOff, 0)]
          annotateCryptoFrames sec plain payloadOff (plain.length + 1) 0
          setInfo "QUIC 1-RTT (decrypted)"
        | none => encrypted
      | _, _ => setInfo "QUIC encrypted"

def dissectQuicWith (crates : Crates) (keylog : Option KeyLog) (parent : Nat) (payload : Bytes)
    (payloadOff : Nat) : Dissector PUnit := do
  setFlags fun f => { f with quicLooking := true }
  setProtocol "QUIC"
  if payload = [] then setInfo "QUIC (empty)"
  else if ← looksLikeQuicShort payload then
    dissectQuic1rttWith crates keylog parent payload payloadOff
  else dissectQuicInitial crates parent payload payloadOff

/-- `udpApplication` with the key log that QUIC is given. -/
def udpApplicationWith (crates : Crates) (keylog : Option KeyLog) (parent sport dport : Nat)
    (payload : Bytes) (payloadOff : Nat) : Dissector LayerResult := do
  let rtp ← looksLikeRtp payload
  let initial ← looksLikeQuicInitial payload
  let short ← looksLikeQuicShort payload
  let long ← hasLongHeader payload
  if sport = 53 ∨ dport = 53 ∨ sport = 5353 ∨ dport = 5353 ∨ sport = 5355 ∨ dport = 5355 then
    let r ← dissectDns crates parent payload payloadOff
    if sport = 5353 ∨ dport = 5353 then
      setFlags fun f => { f with mdns := true, dns := true }
      setProtocol "MDNS"
      return r
    else if sport = 5355 ∨ dport = 5355 then
      setFlags fun f => { f with llmnr := true, dns := true }
      setProtocol "LLMNR"
      return r
    else return r
  else if sport = 67 ∨ dport = 67 ∨ sport = 68 ∨ dport = 68 then
    dissectDhcp parent payload payloadOff
  else if sport = 5060 ∨ dport = 5060 ∨ looksLikeSip payload then
    dissectSip parent payload
    return { payload := payload, payloadOffset := payloadOff }
  else if rtp then
    dissectRtp parent payload
    return { payload := payload, payloadOffset := payloadOff }
  else if initial ∨ (short ∧ 20 < payload.length) ∨ ((sport = 443 ∨ dport = 443) ∧ long) then
    dissectQuicWith crates keylog parent payload payloadOff
    setSummary fun m =>
      if m.info = "" ∨ hasPrefix m.info "Len=" then
        { m with info := s!"{sport} → {dport} " ++ m.protocol }
      else m
    return { payload := payload, payloadOffset := payloadOff }
  else return { payload := payload, payloadOffset := payloadOff }

/- Without a key log nothing is opened. -/

section

variable {crates : Crates} {parent offset : Nat} {data : Bytes}

theorem dissectQuic1rttWith_none :
    dissectQuic1rttWith crates none parent data offset = dissectQuic1rtt parent data offset := by
  unfold dissectQuic1rttWith dissectQuic1rtt
  simp only [addFields_cons _ ("First byte", _, _) [("Note", _, _)], Option.bind_none, bind_assoc]

theorem dissectQuicWith_none :
    dissectQuicWith crates none parent data offset = dissectQuic crates parent data offset := by
  unfold dissectQuicWith dissectQuic
  simp only [dissectQuic1rttWith_none]

theorem udpApplicationWith_none {sport dport : Nat} :
    udpApplicationWith crates none parent sport dport data offset =
      udpApplication crates parent sport dport data offset := by
  unfold udpApplicationWith udpApplication
  simp only [dissectQuicWith_none]

end

/- What is opened lies in the packet. -/

section

variable {crates : Crates} {lo hi : Nat} {I : Dissection → Prop} {parent payloadOff : Nat}
variable {payload : Bytes}

theorem length_openShortHeader (contract : crates.Contract) {key : Octets 16} {iv : Octets 12}
    {plain : Bytes} (opened : openShortHeader crates key iv payload = some plain) :
    plain.length ≤ payload.length := by
  obtain ⟨dcidLen, _, found⟩ := List.exists_of_findSome?_eq_some opened
  split at found
  · cases found
  · obtain ⟨pn, _, decrypted⟩ := List.exists_of_findSome?_eq_some found
    have short := length_decryptInitialPayload contract decrypted
    rw [List.length_drop] at short
    omega

theorem dissectQuic1rttWith_keeps (allows : Allows lo hi I) (contract : crates.Contract)
    (keylog : Option KeyLog) (low : lo ≤ payloadOff) (fits : payloadOff + payload.length ≤ hi)
    (nonempty : payload ≠ []) :
    Keeps I (dissectQuic1rttWith crates keylog parent payload payloadOff) := by
  have long := List.length_pos_iff.mpr nonempty
  unfold dissectQuic1rttWith
  refine .bind (allows.addSection (by omega)) (fun sec => ?_)
  rw [byteAt_ok long, read_ok, pure_bind]
  refine .bind (allows.addField (by omega)) (fun _ => ?_)
  have encrypted : Keeps I (do
      addFields sec [("Note", payloadOff, 0)]
      setInfo "QUIC encrypted") :=
    .bind (allows.addField (by omega)) (fun _ => allows.setSummary)
  cases keylog.bind (·.quicTrafficSecret) with
  | none => exact encrypted
  | some secret =>
    refine .ite (fun _ => encrypted) (fun _ => ?_)
    split
    · next key iv _ _ =>
      cases opened : openShortHeader crates key iv payload with
      | none => exact encrypted
      | some plain =>
        have short := length_openShortHeader contract opened
        refine .bind (allows.addField (by omega)) (fun _ => .bind ?_ (fun _ => allows.setSummary))
        exact annotateCryptoFrames_keeps allows low (by omega) (by omega) (by omega)
    · exact allows.setSummary

theorem dissectQuicWith_keeps (allows : Allows lo hi I) (contract : crates.Contract)
    (keylog : Option KeyLog) (low : lo ≤ payloadOff) (fits : payloadOff + payload.length ≤ hi) :
    Keeps I (dissectQuicWith crates keylog parent payload payloadOff) := by
  refine .bind (allows.setFlags (fun _ => ⟨rfl, rfl, rfl⟩)) (fun _ => ?_)
  refine .bind allows.setSummary (fun _ => .ite (fun _ => allows.setSummary) (fun nonempty => ?_))
  rw [looksLikeQuicShort_ok, read_ok, pure_bind]
  refine .ite (fun _ => ?_) (fun _ => dissectQuicInitial_keeps allows contract low fits)
  exact dissectQuic1rttWith_keeps allows contract keylog low fits nonempty

end

end BitBeak
