import BitBeak.Dissect.Crates
import BitBeak.Dissect.Dissection
import BitBeak.Dissect.Text

/-! QUIC in a UDP payload: Initial packets with the keys their connection id gives, and
short headers, which stay encrypted without a key log. -/
namespace BitBeak
open Wire Dissector

def initialSaltV1 : Bytes :=
  [0x38, 0x76, 0x2c, 0xf7, 0xf5, 0x59, 0x34, 0xb3, 0x4d, 0x17, 0x9a, 0xe6, 0xa4, 0xc8, 0x0c, 0xad,
    0xcc, 0xbb, 0x7f, 0x0a]

structure QuicInitialKeys where
  clientKey : Octets 16
  clientIv : Octets 12
  clientHp : Octets 16
  serverKey : Octets 16
  serverIv : Octets 12
  serverHp : Octets 16

def toOctets (n : Nat) (bytes : Bytes) : Option (Octets n) :=
  if h : bytes.length = n then some ⟨bytes, h⟩ else none

section

variable (crates : Crates)

def hkdfExpandLabel (secret : Bytes) (label : String) (len : Nat) : Option Bytes :=
  let fullLabel := ("tls13 " ++ label).toUTF8.toList
  crates.hkdfExpand secret
    (toBE 2 (len % 2 ^ 16) ++ [UInt8.ofNat fullLabel.length] ++ fullLabel ++ [0]) len

def deriveInitialKeys (dcid : Bytes) : Option QuicInitialKeys := do
  let initialSecret := crates.hmacSha256 initialSaltV1 dcid
  let clientSecret ← hkdfExpandLabel crates initialSecret "client in" 32
  let serverSecret ← hkdfExpandLabel crates initialSecret "server in" 32
  return {
    clientKey := ← toOctets 16 (← hkdfExpandLabel crates clientSecret "quic key" 16)
    clientIv := ← toOctets 12 (← hkdfExpandLabel crates clientSecret "quic iv" 12)
    clientHp := ← toOctets 16 (← hkdfExpandLabel crates clientSecret "quic hp" 16)
    serverKey := ← toOctets 16 (← hkdfExpandLabel crates serverSecret "quic key" 16)
    serverIv := ← toOctets 12 (← hkdfExpandLabel crates serverSecret "quic iv" 12)
    serverHp := ← toOctets 16 (← hkdfExpandLabel crates serverSecret "quic hp" 16) }

/-- The first octet and the packet number without their masks. -/
def removeHeaderProtection (hpKey : Octets 16) (first : UInt8) (pnBytes sample : Bytes)
    (longHeader : Bool) : Option (UInt8 × Bytes) := do
  let mask ← crates.aes128 hpKey (← toOctets 16 (sample.take 16))
  let bits := if longHeader then 0x0f else 0x1f
  return (first ^^^ (octet mask.val 0 &&& bits),
    pnBytes.mapIdx fun i b => if i + 1 < mask.val.length then b ^^^ octet mask.val (1 + i) else b)

/-- The nonce: the packet number's eight octets on the last eight of the vector. -/
def quicNonce (iv : Octets 12) (packetNumber : Nat) : Octets 12 :=
  ⟨iv.val.mapIdx fun j b =>
      if 4 ≤ j then b ^^^ UInt8.ofNat (packetNumber >>> (56 - 8 * (j - 4)) % 256) else b,
    by rw [List.length_mapIdx, iv.property]⟩

def decryptInitialPayload (key : Octets 16) (iv : Octets 12) (packetNumber : Nat)
    (header ciphertextWithTag : Bytes) : Option Bytes :=
  if ciphertextWithTag.length < 16 then none
  else crates.aes128GcmOpen key (quicNonce iv packetNumber) header ciphertextWithTag

end

def looksLikeQuicInitial (udp : Bytes) : Except Fault Bool := do
  if udp.length < 7 then return false
  else
    let kind := (← byteAt udp 0) &&& 0xf0
    return kind == 0xc0 || kind == 0xd0

def looksLikeQuicShort (udp : Bytes) : Except Fault Bool := do
  if udp = [] then return false else return (← byteAt udp 0) &&& 0x80 == 0

/-- A variable-length integer and the offset behind it. The two top bits of the first octet
give the width. -/
def readVarint (payload : Bytes) (off : Nat) : Except Fault (Option (Nat × Nat)) := do
  if payload.length ≤ off then return none
  else
    let width := 2 ^ ((← byteAt payload off) >>> 6).toNat
    if payload.length ≤ off + (width - 1) then return none
    else return some ((← readBE payload off width) % 2 ^ (8 * width - 2), off + width)

def annotateCryptoFrames (parent : Nat) (plain : Bytes) (off : Nat) :
    Nat → Nat → Dissector PUnit
  | 0, _ => liftM (.error .outOfFuel : Except Fault PUnit)
  | fuel + 1, i =>
    if i < plain.length then do
      let fty ← byteAt plain i
      if fty = 0x06 then
        match ← readVarint plain (i + 1) with
        | none => return
        | some (_, p) =>
          match ← readVarint plain p with
          | none => return
          | some (cryptoLen, p) =>
            let len ← checkedSub p i
            addFields parent [("CRYPTO", off + i, min len (plain.length - i))]
            annotateCryptoFrames parent plain off fuel (p + cryptoLen)
      else if fty = 0x00 then annotateCryptoFrames parent plain off fuel (i + 1)
      else if fty = 0x01 then
        addFields parent [("PING", off + i, 1)]
        annotateCryptoFrames parent plain off fuel (i + 1)
      else return
    else return

def dissectQuic1rtt (parent : Nat) (payload : Bytes) (payloadOff : Nat) : Dissector PUnit := do
  let sec ← addSection parent "QUIC 1-RTT" payloadOff (min payload.length 32)
  let _first ← byteAt payload 0
  addFields sec [("First byte", payloadOff, 1), ("Note", payloadOff, 0)]
  setInfo "QUIC encrypted"

/-- Where the packet number lies, and the length that is counted from there. -/
def quicProtected (packet : Bytes) (b0 : UInt8) (pos : Nat) :
    Except Fault (Option (Nat × Nat)) := do
  let scil := (← byteAt packet pos).toNat
  let pos := pos + 1
  if 20 < scil ∨ packet.length < pos + scil then return none
  else
    match ← readVarint packet (pos + scil) with
    | none => return none
    | some (tokenLen, p) =>
      match ← readVarint packet (p + tokenLen) with
      | none => return none
      | some (protectedLen, pos) =>
        if protectedLen ≤ (b0 &&& 0x03).toNat + 1 ∨ packet.length < pos + protectedLen then
          return none
        else return some (pos, protectedLen)

/-- `copy_from_slice` into the octets from `pos` on. -/
def copyAt (packet : Bytes) (pos : Nat) (part : Bytes) : Except Fault Bytes :=
  if pos + part.length ≤ packet.length then
    .ok (packet.take pos ++ part ++ packet.drop (pos + part.length))
  else .error .outOfRange

/-- The packet with its header protection removed, under the client's key or else the
server's. -/
def quicUnprotect (crates : Crates) (packet : Bytes) (keys : QuicInitialKeys) (pos guess : Nat) :
    Except Fault (Option Bytes) := do
  let sampleOff := pos + 4
  if sampleOff + 16 ≤ packet.length then
    let sample ← slice packet sampleOff (sampleOff + 16)
    let first ← byteAt packet 0
    let pnBuf ← slice packet pos (pos + guess)
    match (removeHeaderProtection crates keys.clientHp first pnBuf sample true).or
        (removeHeaderProtection crates keys.serverHp first pnBuf sample true) with
    | none => return none
    | some (first, pnBuf) => return some (← copyAt (packet.set 0 first) pos pnBuf)
  else return none

/-- The section of a decrypted Initial packet and its frames. -/
def quicDecrypted (parent : Nat) (label : String) (fields : List (String × Nat × Nat))
    (plain : Bytes) (off : Nat) : Dissector PUnit := do
  let decSec ← addSection parent label off (min plain.length 32)
  addFields decSec fields
  annotateCryptoFrames decSec plain off (plain.length + 1) 0
  setInfo "QUIC Initial (decrypted)"

/-- Packet numbers tried with the guessed length of the number. -/
def quicTryNumbers (crates : Crates) (parent sec : Nat) (keys : QuicInitialKeys)
    (hdr ct : Bytes) (payloadOff : Nat) : List Nat → Dissector PUnit
  | [] => do
    addFields sec [("Note", payloadOff, 0)]
    setInfo "QUIC Initial (keys ok, payload protected)"
  | tryPn :: rest =>
    match (decryptInitialPayload crates keys.clientKey keys.clientIv tryPn hdr ct).or
        (decryptInitialPayload crates keys.serverKey keys.serverIv tryPn hdr ct) with
    | some plain => quicDecrypted parent "QUIC Initial (decrypted)" [] plain payloadOff
    | none => quicTryNumbers crates parent sec keys hdr ct payloadOff rest

def quicOpen (crates : Crates) (parent sec : Nat) (packet : Bytes) (payloadOff : Nat)
    (keys : QuicInitialKeys) (pos protectedLen guess : Nat) : Dissector PUnit := do
  let pnLen := ((← byteAt packet 0) &&& 0x03).toNat + 1
  let pn := ofBE (← slice packet pos (pos + min pnLen (packet.length - pos)))
  let stop := pos + protectedLen
  if stop ≤ pos + pnLen ∨ packet.length < stop then
    setInfo "QUIC Initial (keys ok, payload protected)"
  else
    let header ← slice packet 0 (pos + pnLen)
    let ciphertext ← slice packet (pos + pnLen) stop
    let off := payloadOff + pos + pnLen
    match decryptInitialPayload crates keys.clientKey keys.clientIv pn header ciphertext with
    | some plain =>
      quicDecrypted parent "QUIC Initial (decrypted)" [("Plaintext", off, min plain.length 16)]
        plain off
    | none =>
      match decryptInitialPayload crates keys.serverKey keys.serverIv pn header ciphertext with
      | some plain => quicDecrypted parent "QUIC Initial (decrypted, server)" [] plain off
      | none =>
        quicTryNumbers crates parent sec keys (← slice packet 0 (pos + guess))
          (← slice packet (pos + guess) stop) payloadOff (List.range 8)

def dissectQuicInitial (crates : Crates) (parent : Nat) (payload : Bytes) (payloadOff : Nat) :
    Dissector PUnit := do
  setFlags fun f => { f with quicLooking := true }
  setProtocol "QUIC"
  if payload.length < 7 then
    setInfo "QUIC (short)"
    let sec ← addSection parent "QUIC" payloadOff payload.length
    addFields sec [("Note", payloadOff, 0)]
  else
    let sec ← addSection parent "QUIC Initial" payloadOff (min payload.length 64)
    let b0 ← byteAt payload 0
    let _version ← readBE payload 1 4
    addFields sec [("First byte", payloadOff, 1), ("Version", payloadOff + 1, 4)]
    let dcil := (← byteAt payload 5).toNat
    if 20 < dcil ∨ payload.length < 6 + dcil + 1 then
      addFields sec [("Note", payloadOff, 0)]
      setInfo "QUIC encrypted"
    else
      let dcid ← slice payload 6 (6 + dcil)
      addFields sec [("DCID", payloadOff + 6, dcil)]
      match ← quicProtected payload b0 (6 + dcil) with
      | none => setInfo "QUIC encrypted"
      | some (pos, protectedLen) =>
        match deriveInitialKeys crates dcid with
        | none => setInfo "QUIC encrypted"
        | some keys =>
          addFields sec [("Keys", payloadOff, 0)]
          let guess := (b0 &&& 0x03).toNat + 1
          match ← quicUnprotect crates payload keys pos guess with
          | none => quicOpen crates parent sec payload payloadOff keys pos protectedLen guess
          | some packet =>
            addFields sec [("HP", payloadOff, 0)]
            quicOpen crates parent sec packet payloadOff keys pos protectedLen guess

def dissectQuic (crates : Crates) (parent : Nat) (payload : Bytes) (payloadOff : Nat) :
    Dissector PUnit := do
  setFlags fun f => { f with quicLooking := true }
  setProtocol "QUIC"
  if payload = [] then setInfo "QUIC (empty)"
  else if ← looksLikeQuicShort payload then dissectQuic1rtt parent payload payloadOff
  else dissectQuicInitial crates parent payload payloadOff

/- The nonce of a cipher. -/

theorem length_paddedNonce (iv : Octets 12) (n : Nat) :
    (List.zipWith (· ^^^ ·) iv.val (toBE 12 n)).length = 12 := by
  rw [List.length_zipWith, iv.property, length_toBE, Nat.min_self]

/-- A number, in as many octets as the vector has, on the vector. -/
def paddedNonce (iv : Octets 12) (n : Nat) : Octets 12 :=
  ⟨List.zipWith (· ^^^ ·) iv.val (toBE 12 n), length_paddedNonce iv n⟩

theorem quicNonce_eq (iv : Octets 12) {n : Nat} (small : n < 2 ^ 64) :
    quicNonce iv n = paddedNonce iv n := by
  apply Subtype.ext
  apply List.ext_getElem?
  intro i
  rw [quicNonce, paddedNonce, List.getElem?_mapIdx, List.getElem?_zipWith, getElem?_toBE]
  by_cases inside : i < 12
  · rw [List.getElem?_eq_getElem (by rw [iv.property]; exact inside), if_pos inside]
    dsimp only [Option.map_some]
    congr 1
    split
    · next late =>
      rw [Nat.shiftRight_eq_div_pow]
      have width : 256 ^ (12 - 1 - i) = 2 ^ (56 - 8 * (i - 4)) := by
        rw [show (256 : Nat) = 2 ^ 8 from rfl, ← Nat.pow_mul]
        congr 1
        omega
      rw [width]
    · next early =>
      have high : n / 256 ^ (12 - 1 - i) = 0 := by
        apply Nat.div_eq_of_lt
        calc n < 256 ^ 8 := small
          _ ≤ 256 ^ (12 - 1 - i) := Nat.pow_le_pow_right (by decide) (by omega)
      rw [high]
      exact (UInt8.xor_zero).symm
  · rw [List.getElem?_eq_none (by rw [iv.property]; omega)]
    rfl

/- Lengths that the packet claims are checked before they are used. -/

theorem readVarint_ok (payload : Bytes) (off : Nat) : ∃ found, readVarint payload off = .ok found ∧
    ∀ value next, found = some (value, next) → off < next ∧ next ≤ payload.length := by
  unfold readVarint
  split
  · refine ⟨none, rfl, ?_⟩
    intro value next impossible
    cases impossible
  · have positive := Nat.one_le_two_pow (n := ((octet payload off) >>> 6).toNat)
    rw [byteAt_ok (by omega), ok_bind]
    dsimp only
    split
    · refine ⟨none, rfl, ?_⟩
      intro value next impossible
      cases impossible
    · rw [readBE_ok (by omega)]
      refine ⟨_, rfl, ?_⟩
      rintro value next ⟨⟩
      omega

theorem quicProtected_ok {packet : Bytes} (b0 : UInt8) {pos : Nat} (inside : pos < packet.length) :
    ∃ found, quicProtected packet b0 pos = .ok found ∧
      ∀ start len, found = some (start, len) →
        (b0 &&& 0x03).toNat + 1 < len ∧ start + len ≤ packet.length := by
  have nothing : ∀ start len, (none : Option (Nat × Nat)) = some (start, len) →
      (b0 &&& 0x03).toNat + 1 < len ∧ start + len ≤ packet.length := by
    intro start len impossible
    cases impossible
  unfold quicProtected
  rw [byteAt_ok inside, ok_bind]
  dsimp only
  split
  · exact ⟨none, rfl, nothing⟩
  · obtain ⟨token, read, _⟩ := readVarint_ok packet (pos + 1 + (octet packet pos).toNat)
    rw [read, ok_bind]
    cases token with
    | none => exact ⟨none, rfl, nothing⟩
    | some token =>
      obtain ⟨tokenLen, p⟩ := token
      obtain ⟨length, read', _⟩ := readVarint_ok packet (p + tokenLen)
      dsimp only
      rw [read', ok_bind]
      cases length with
      | none => exact ⟨none, rfl, nothing⟩
      | some length =>
        dsimp only
        split
        · exact ⟨none, rfl, nothing⟩
        · refine ⟨_, rfl, ?_⟩
          rintro start len ⟨⟩
          omega

theorem length_removeHeaderProtection {crates : Crates} {hpKey : Octets 16} {first first' : UInt8}
    {pnBytes pnBytes' sample : Bytes} {longHeader : Bool}
    (removed : removeHeaderProtection crates hpKey first pnBytes sample longHeader =
      some (first', pnBytes')) : pnBytes'.length = pnBytes.length := by
  simp only [removeHeaderProtection, Option.bind_eq_bind, Option.bind_eq_some_iff] at removed
  obtain ⟨block, _, mask, _, result⟩ := removed
  cases result
  exact List.length_mapIdx

theorem quicUnprotect_ok (crates : Crates) {packet : Bytes} (keys : QuicInitialKeys)
    {pos guess : Nat} (nonempty : 0 < packet.length) (inside : pos + guess ≤ packet.length) :
    ∃ found, quicUnprotect crates packet keys pos guess = .ok found ∧
      ∀ bare, found = some bare → bare.length = packet.length := by
  have nothing : ∀ bare, (none : Option Bytes) = some bare → bare.length = packet.length := by
    intro bare impossible
    cases impossible
  unfold quicUnprotect
  dsimp only
  split
  · rw [slice_ok (by omega) (by omega), byteAt_ok nonempty, slice_ok (by omega) inside, ok_bind,
      ok_bind, ok_bind]
    split
    · exact ⟨none, rfl, nothing⟩
    · next first pnBuf removed =>
      have width : pnBuf.length = guess := by
        have same : pnBuf.length = (span packet pos (pos + guess)).length := by
          rcases Option.or_eq_some_iff.mp removed with client | ⟨_, server⟩
          · exact length_removeHeaderProtection client
          · exact length_removeHeaderProtection server
        rw [same, length_span inside]
        omega
      rw [copyAt, if_pos (by rw [List.length_set]; omega)]
      refine ⟨_, rfl, ?_⟩
      rintro bare ⟨⟩
      simp only [List.length_append, List.length_take, List.length_drop, List.length_set]
      omega
  · exact ⟨none, rfl, nothing⟩

theorem length_decryptInitialPayload {crates : Crates} (contract : crates.Contract)
    {key : Octets 16} {iv : Octets 12} {pn : Nat} {header ciphertext plain : Bytes}
    (opened : decryptInitialPayload crates key iv pn header ciphertext = some plain) :
    plain.length ≤ ciphertext.length := by
  unfold decryptInitialPayload at opened
  split at opened
  · cases opened
  · exact contract.gcm _ _ _ _ _ opened

section

variable {lo hi : Nat} {I : Dissection → Prop} {parent sec payloadOff : Nat} {payload plain : Bytes}

/-- The frames that are named lie inside the plaintext. -/
theorem annotateCryptoFrames_adds (parent off : Nat) {fuel i : Nat}
    (enough : plain.length < i + fuel) (started : 0 < fuel) :
    ∃ fields, annotateCryptoFrames parent plain off fuel i = addFields parent fields ∧
      ∀ field ∈ fields, off ≤ field.2.1 ∧ field.2.1 + field.2.2 ≤ off + plain.length := by
  induction fuel generalizing i with
  | zero => omega
  | succ fuel ih =>
    have ended : ∃ fields, (pure ⟨⟩ : Dissector PUnit) = addFields parent fields ∧
        ∀ field ∈ fields, off ≤ field.2.1 ∧ field.2.1 + field.2.2 ≤ off + plain.length :=
      ⟨[], rfl, by simp⟩
    unfold annotateCryptoFrames
    split
    · next inside =>
      rw [byteAt_ok inside, read_ok, pure_bind]
      split
      · obtain ⟨crypto, read, after⟩ := readVarint_ok plain (i + 1)
        rw [read, read_ok, pure_bind]
        cases crypto with
        | none => exact ended
        | some crypto =>
          obtain ⟨_, p⟩ := crypto
          obtain ⟨len, read', after'⟩ := readVarint_ok plain p
          dsimp only
          rw [read', read_ok, pure_bind]
          cases len with
          | none => exact ended
          | some len =>
            obtain ⟨cryptoLen, q⟩ := len
            have first := after _ _ rfl
            have second := after' _ _ rfl
            obtain ⟨fields, later, within⟩ := ih (i := q + cryptoLen) (by omega) (by omega)
            dsimp only
            rw [checkedSub_ok (by omega), read_ok, pure_bind, later, ← addFields_cons]
            exact ⟨_, rfl, List.forall_mem_cons.mpr ⟨by dsimp only; omega, within⟩⟩
      split
      · exact ih (by omega) (by omega)
      split
      · obtain ⟨fields, later, within⟩ := ih (i := i + 1) (by omega) (by omega)
        rw [later, ← addFields_cons]
        exact ⟨_, rfl, List.forall_mem_cons.mpr ⟨by dsimp only; omega, within⟩⟩
      · exact ended
    · exact ended

theorem annotateCryptoFrames_keeps (allows : Allows lo hi I) {off fuel i : Nat} (low : lo ≤ off)
    (fits : off + plain.length ≤ hi)
    (enough : plain.length < i + fuel) (started : 0 < fuel) :
    Keeps I (annotateCryptoFrames parent plain off fuel i) := by
  obtain ⟨fields, adds, within⟩ := annotateCryptoFrames_adds parent off enough started
  rw [adds]
  refine allows.addFields fun field member => ?_
  have place := within field member
  omega

theorem quicDecrypted_keeps (allows : Allows lo hi I) {label : String}
    {fields : List (String × Nat × Nat)} {off : Nat} (low : lo ≤ off)
    (fits : off + plain.length ≤ hi)
    (inside : ∀ field ∈ fields, lo ≤ field.2.1 ∧ field.2.1 + field.2.2 ≤ hi) :
    Keeps I (quicDecrypted parent label fields plain off) := by
  refine .bind (allows.addSection (by omega)) (fun decSec => .bind (allows.addFields inside) ?_)
  intro _
  refine .bind (annotateCryptoFrames_keeps allows low fits (by omega) (by omega)) (fun _ => ?_)
  exact allows.setSummary

theorem quicTryNumbers_keeps (allows : Allows lo hi I) {crates : Crates}
    (contract : crates.Contract) {keys : QuicInitialKeys} {hdr ct : Bytes} (low : lo ≤ payloadOff)
    (fits : payloadOff + ct.length ≤ hi) (tries : List Nat) :
    Keeps I (quicTryNumbers crates parent sec keys hdr ct payloadOff tries) := by
  induction tries with
  | nil => exact .bind (allows.addField (by omega)) (fun _ => allows.setSummary)
  | cons tryPn rest ih =>
    unfold quicTryNumbers
    split
    · next plain opened =>
      have short : plain.length ≤ ct.length := by
        rcases Option.or_eq_some_iff.mp opened with client | ⟨_, server⟩
        · exact length_decryptInitialPayload contract client
        · exact length_decryptInitialPayload contract server
      refine quicDecrypted_keeps allows (by omega) (by omega) ?_
      intro field member
      cases member
    · exact ih

theorem quicOpen_keeps (allows : Allows lo hi I) {crates : Crates} (contract : crates.Contract)
    {packet : Bytes} {keys : QuicInitialKeys} {pos protectedLen guess : Nat}
    (low : lo ≤ payloadOff) (fits : payloadOff + packet.length ≤ hi)
    (claimed : pos + protectedLen ≤ packet.length) (guessed : guess < protectedLen) :
    Keeps I (quicOpen crates parent sec packet payloadOff keys pos protectedLen guess) := by
  unfold quicOpen
  simp (disch := omega) only [byteAt_ok, slice_ok, read_ok, pure_bind]
  refine .ite (fun _ => allows.setSummary) (fun room => ?_)
  have sealedLength : ∀ start, start ≤ pos + protectedLen →
      (span packet start (pos + protectedLen)).length = pos + protectedLen - start :=
    fun start _ => length_span claimed
  split
  · next plain opened =>
    have short := length_decryptInitialPayload contract opened
    rw [sealedLength _ (by omega)] at short
    refine quicDecrypted_keeps allows (by omega) (by omega) ?_
    simp only [List.forall_mem_cons, List.not_mem_nil, false_implies, implies_true, and_true]
    omega
  · split
    · next plain opened =>
      have short := length_decryptInitialPayload contract opened
      rw [sealedLength _ (by omega)] at short
      refine quicDecrypted_keeps allows (by omega) (by omega) ?_
      intro field member
      cases member
    · refine quicTryNumbers_keeps allows contract low ?_ _
      rw [sealedLength _ (by omega)]
      omega

theorem dissectQuicInitial_keeps (allows : Allows lo hi I) {crates : Crates}
    (contract : crates.Contract) (low : lo ≤ payloadOff)
    (fits : payloadOff + payload.length ≤ hi) :
    Keeps I (dissectQuicInitial crates parent payload payloadOff) := by
  refine .bind (allows.setFlags (fun _ => ⟨rfl, rfl, rfl⟩)) (fun _ => ?_)
  refine .bind allows.setSummary (fun _ => .ite (fun _ => ?_) (fun long => ?_))
  · refine .bind allows.setSummary (fun _ => .bind (allows.addSection ⟨low, fits⟩) (fun sec => ?_))
    exact allows.addField (by omega)
  refine .bind (allows.addSection (by omega)) (fun sec => ?_)
  simp (disch := omega) only [byteAt_ok, readBE_ok, read_ok, pure_bind]
  refine .bind (allows.addFields ?_) (fun _ => .ite (fun _ => ?_) (fun ids => ?_))
  · simp only [List.forall_mem_cons, List.not_mem_nil, false_implies, implies_true, and_true]
    omega
  · exact .bind (allows.addField (by omega)) (fun _ => allows.setSummary)
  rw [slice_ok (by omega) (by omega), read_ok, pure_bind]
  refine .bind (allows.addField (by omega)) (fun _ => ?_)
  obtain ⟨found, read, claimed⟩ := quicProtected_ok (octet payload 0)
    (by omega : 6 + (octet payload 5).toNat < payload.length)
  rw [read, read_ok, pure_bind]
  cases found with
  | none => exact allows.setSummary
  | some found =>
    obtain ⟨pos, protectedLen⟩ := found
    obtain ⟨guessed, inside⟩ := claimed pos protectedLen rfl
    dsimp only
    split
    · exact allows.setSummary
    · next keys derived =>
      refine .bind (allows.addField (by omega)) (fun _ => ?_)
      obtain ⟨bare, unprotected, same⟩ := quicUnprotect_ok crates keys (by omega)
        (by omega : pos + ((octet payload 0 &&& 0x03).toNat + 1) ≤ payload.length)
      rw [unprotected, read_ok, pure_bind]
      cases bare with
      | none => exact quicOpen_keeps allows contract low fits inside guessed
      | some packet =>
        have width := same packet rfl
        refine .bind (allows.addField (by omega)) (fun _ => ?_)
        exact quicOpen_keeps allows contract low (width ▸ fits) (width ▸ inside) guessed

theorem looksLikeQuicShort_ok (udp : Bytes) :
    looksLikeQuicShort udp = .ok (udp ≠ [] && octet udp 0 &&& 0x80 == 0) := by
  unfold looksLikeQuicShort
  split
  · next empty => simp [empty]
  · next nonempty =>
    rw [byteAt_ok (List.length_pos_iff.mpr nonempty)]
    simp [nonempty]

theorem looksLikeQuicInitial_ok (udp : Bytes) :
    ∃ answer, looksLikeQuicInitial udp = .ok answer := by
  unfold looksLikeQuicInitial
  split
  · exact ⟨_, rfl⟩
  · rw [byteAt_ok (by omega)]
    exact ⟨_, rfl⟩

theorem dissectQuic_keeps (allows : Allows lo hi I) {crates : Crates} (contract : crates.Contract)
    (low : lo ≤ payloadOff)
    (fits : payloadOff + payload.length ≤ hi) :
    Keeps I (dissectQuic crates parent payload payloadOff) := by
  refine .bind (allows.setFlags (fun _ => ⟨rfl, rfl, rfl⟩)) (fun _ => ?_)
  refine .bind allows.setSummary (fun _ => .ite (fun _ => allows.setSummary) (fun nonempty => ?_))
  rw [looksLikeQuicShort_ok, read_ok, pure_bind]
  refine .ite (fun _ => ?_) (fun _ => dissectQuicInitial_keeps allows contract low fits)
  refine .bind (allows.addSection (by omega)) (fun sec => ?_)
  rw [byteAt_ok (List.length_pos_iff.mpr nonempty), read_ok, pure_bind]
  refine .bind (allows.addFields ?_) (fun _ => allows.setSummary)
  have := List.length_pos_iff.mpr nonempty
  simp only [List.forall_mem_cons, List.not_mem_nil, false_implies, implies_true, and_true]
  omega

end

end BitBeak
