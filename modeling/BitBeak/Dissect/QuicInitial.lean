import BitBeak.Dissect.Quic
import BitBeak.Lib.CarrySum

/-! The dissector of QUIC Initial packets with what it opens written down: with whose keys, under
which header and packet number, and the plaintext. -/
namespace BitBeak
open Wire Dissector

/-- With whose keys a packet was opened, under which header and number, and to what. -/
structure QuicOpened where
  fromClient : Bool
  header : Bytes
  packetNumber : Nat
  plain : Bytes
  deriving DecidableEq, Repr

section

variable (crates : Crates)

/- The dissector with what it opens written down. -/

def quicTryNumbersOpened (parent sec : Nat) (keys : QuicInitialKeys) (hdr ct : Bytes)
    (payloadOff : Nat) : List Nat → Dissector (Option QuicOpened)
  | [] => do
    addFields sec [("Note", payloadOff, 0)]
    setInfo "QUIC Initial (keys ok, payload protected)"
    return none
  | tryPn :: rest =>
    match decryptInitialPayload crates keys.clientKey keys.clientIv tryPn hdr ct with
    | some plain => do
      quicDecrypted parent "QUIC Initial (decrypted)" [] plain payloadOff
      return some ⟨true, hdr, tryPn, plain⟩
    | none =>
      match decryptInitialPayload crates keys.serverKey keys.serverIv tryPn hdr ct with
      | some plain => do
        quicDecrypted parent "QUIC Initial (decrypted)" [] plain payloadOff
        return some ⟨false, hdr, tryPn, plain⟩
      | none => quicTryNumbersOpened parent sec keys hdr ct payloadOff rest

def quicOpenOpened (parent sec : Nat) (packet : Bytes) (payloadOff : Nat)
    (keys : QuicInitialKeys) (pos protectedLen guess : Nat) : Dissector (Option QuicOpened) := do
  let pnLen := ((← byteAt packet 0) &&& 0x03).toNat + 1
  let pn := ofBE (← slice packet pos (pos + min pnLen (packet.length - pos)))
  let stop := pos + protectedLen
  if stop ≤ pos + pnLen ∨ packet.length < stop then
    setInfo "QUIC Initial (keys ok, payload protected)"
    return none
  else
    let header ← slice packet 0 (pos + pnLen)
    let ciphertext ← slice packet (pos + pnLen) stop
    let off := payloadOff + pos + pnLen
    match decryptInitialPayload crates keys.clientKey keys.clientIv pn header ciphertext with
    | some plain =>
      quicDecrypted parent "QUIC Initial (decrypted)" [("Plaintext", off, min plain.length 16)]
        plain off
      return some ⟨true, header, pn, plain⟩
    | none =>
      match decryptInitialPayload crates keys.serverKey keys.serverIv pn header ciphertext with
      | some plain =>
        quicDecrypted parent "QUIC Initial (decrypted, server)" [] plain off
        return some ⟨false, header, pn, plain⟩
      | none =>
        quicTryNumbersOpened crates parent sec keys (← slice packet 0 (pos + guess))
          (← slice packet (pos + guess) stop) payloadOff (List.range 8)

def dissectQuicInitialOpened (parent : Nat) (payload : Bytes) (payloadOff : Nat) :
    Dissector (Option QuicOpened) := do
  setFlags fun f => { f with quicLooking := true }
  setProtocol "QUIC"
  if payload.length < 7 then
    setInfo "QUIC (short)"
    let sec ← addSection parent "QUIC" payloadOff payload.length
    addFields sec [("Note", payloadOff, 0)]
    return none
  else
    let sec ← addSection parent "QUIC Initial" payloadOff (min payload.length 64)
    let b0 ← byteAt payload 0
    let _version ← readBE payload 1 4
    addFields sec [("First byte", payloadOff, 1), ("Version", payloadOff + 1, 4)]
    let dcil := (← byteAt payload 5).toNat
    if 20 < dcil ∨ payload.length < 6 + dcil + 1 then
      addFields sec [("Note", payloadOff, 0)]
      setInfo "QUIC encrypted"
      return none
    else
      let dcid ← slice payload 6 (6 + dcil)
      addFields sec [("DCID", payloadOff + 6, dcil)]
      match ← quicProtected payload b0 (6 + dcil) with
      | none =>
        setInfo "QUIC encrypted"
        return none
      | some (pos, protectedLen) =>
        match deriveInitialKeys crates dcid with
        | none =>
          setInfo "QUIC encrypted"
          return none
        | some keys =>
          addFields sec [("Keys", payloadOff, 0)]
          let guess := (b0 &&& 0x03).toNat + 1
          match ← quicUnprotect crates payload keys pos guess with
          | none => quicOpenOpened crates parent sec payload payloadOff keys pos protectedLen guess
          | some packet =>
            addFields sec [("HP", payloadOff, 0)]
            quicOpenOpened crates parent sec packet payloadOff keys pos protectedLen guess

/- What is written down changes nothing. -/

def forget {α : Type} (m : Dissector α) : Dissector PUnit := do
  let _ ← m
  return ⟨⟩

theorem forget_bind {α β : Type} (m : Dissector α) (f : α → Dissector β) :
    forget (m >>= f) = m >>= fun a => forget (f a) := by
  simp only [forget, bind_assoc]

theorem forget_then {α : Type} (m : Dissector PUnit) (a : α) :
    forget (m >>= fun _ => pure a) = m := by
  simp only [forget, bind_assoc, pure_bind, bind_pure_unit]

theorem quicTryNumbersOpened_erased (parent sec : Nat) (keys : QuicInitialKeys) (hdr ct : Bytes)
    (payloadOff : Nat) (tries : List Nat) :
    forget (quicTryNumbersOpened crates parent sec keys hdr ct payloadOff tries) =
      quicTryNumbers crates parent sec keys hdr ct payloadOff tries := by
  induction tries with
  | nil =>
    unfold quicTryNumbersOpened quicTryNumbers
    rw [forget_bind]
    exact bind_congr fun _ => forget_then _ _
  | cons tryPn rest ih =>
    unfold quicTryNumbersOpened quicTryNumbers
    cases decryptInitialPayload crates keys.clientKey keys.clientIv tryPn hdr ct with
    | some plain => exact forget_then _ _
    | none =>
      cases decryptInitialPayload crates keys.serverKey keys.serverIv tryPn hdr ct with
      | some plain => exact forget_then _ _
      | none => exact ih

theorem quicOpenOpened_erased (parent sec : Nat) (packet : Bytes) (payloadOff : Nat)
    (keys : QuicInitialKeys) (pos protectedLen guess : Nat) :
    forget (quicOpenOpened crates parent sec packet payloadOff keys pos protectedLen guess) =
      quicOpen crates parent sec packet payloadOff keys pos protectedLen guess := by
  unfold quicOpenOpened quicOpen
  rw [forget_bind]
  refine bind_congr fun first => ?_
  rw [forget_bind]
  refine bind_congr fun number => ?_
  dsimp only
  split
  · exact forget_then _ _
  · rw [forget_bind]
    refine bind_congr fun header => ?_
    rw [forget_bind]
    refine bind_congr fun ciphertext => ?_
    cases decryptInitialPayload crates keys.clientKey keys.clientIv (ofBE number) header
        ciphertext with
    | some plain => exact forget_then _ _
    | none =>
      cases decryptInitialPayload crates keys.serverKey keys.serverIv (ofBE number) header
          ciphertext with
      | some plain => exact forget_then _ _
      | none =>
        dsimp only
        rw [forget_bind]
        refine bind_congr fun hdr => ?_
        rw [forget_bind]
        exact bind_congr fun ct => quicTryNumbersOpened_erased crates parent sec keys hdr ct _ _

theorem dissectQuicInitialOpened_erased (parent : Nat) (payload : Bytes) (payloadOff : Nat) :
    forget (dissectQuicInitialOpened crates parent payload payloadOff) =
      dissectQuicInitial crates parent payload payloadOff := by
  unfold dissectQuicInitialOpened dissectQuicInitial
  simp only [forget_bind]
  refine bind_congr fun _ => bind_congr fun _ => ?_
  split
  · simp only [forget_bind]
    exact bind_congr fun _ => bind_congr fun sec => forget_then _ _
  · simp only [forget_bind]
    refine bind_congr fun sec => bind_congr fun b0 => bind_congr fun _ => bind_congr fun _ =>
      bind_congr fun dcil => ?_
    split
    · rw [forget_bind]
      exact bind_congr fun _ => forget_then _ _
    · simp only [forget_bind]
      refine bind_congr fun dcid => bind_congr fun _ => bind_congr fun found => ?_
      cases found with
      | none => exact forget_then _ _
      | some found =>
        dsimp only
        cases deriveInitialKeys crates dcid with
        | none => exact forget_then _ _
        | some keys =>
          simp only [forget_bind]
          refine bind_congr fun _ => bind_congr fun bare => ?_
          cases bare with
          | none => exact quicOpenOpened_erased crates parent sec payload payloadOff keys _ _ _
          | some packet =>
            rw [forget_bind]
            exact bind_congr fun _ =>
              quicOpenOpened_erased crates parent sec packet payloadOff keys _ _ _

/- What is opened, without the tree. -/

/-- A try with the keys of one side. -/
def quicAttempt (keys : QuicInitialKeys) (fromClient : Bool) (pn : Nat) (header ct : Bytes) :
    Option QuicOpened :=
  let key := if fromClient then keys.clientKey else keys.serverKey
  let iv := if fromClient then keys.clientIv else keys.serverIv
  (decryptInitialPayload crates key iv pn header ct).map (⟨fromClient, header, pn, ·⟩)

/-- The client's keys and then the server's. -/
def quicAttempts (keys : QuicInitialKeys) (pn : Nat) (header ct : Bytes) : Option QuicOpened :=
  (quicAttempt crates keys true pn header ct).or (quicAttempt crates keys false pn header ct)

/-- What is opened of a packet whose protection was removed: the packet number is read where the
first octet puts it, and then a few numbers are tried where it was guessed. -/
def quicOpenedOf (keys : QuicInitialKeys) (packet : Bytes) (pos stop guess : Nat) :
    Option QuicOpened :=
  let pnLen := (octet packet 0 &&& 0x03).toNat + 1
  (quicAttempts crates keys (beAt packet pos pnLen) (span packet 0 (pos + pnLen))
    (span packet (pos + pnLen) stop)).or
    ((List.range 8).findSome? fun tryPn =>
      quicAttempts crates keys tryPn (span packet 0 (pos + guess)) (span packet (pos + guess) stop))

/-- From every state the dissector ends with this result. -/
def Yields {α : Type} (m : Dissector α) (a : α) : Prop :=
  Meets (fun _ => True) m fun b _ => b = a

/-- From every state the dissector ends. -/
abbrev Finishes {α : Type} (m : Dissector α) : Prop := Keeps (fun _ => True) m

theorem Yields.unique {α : Type} {m : Dissector α} {a b : α} (first : Yields m a)
    (second : Yields m b) : a = b := by
  obtain ⟨c, t, ran, rfl⟩ := first {} trivial
  obtain ⟨d, u, ran', rfl⟩ := second {} trivial
  rw [ran] at ran'
  cases ran'
  rfl

theorem Yields.pure {α : Type} (a : α) : Yields (Pure.pure a : Dissector α) a :=
  Meets.pure fun _ _ => rfl

theorem Finishes.yields {α β : Type} {m : Dissector α} {f : α → Dissector β} {b : β}
    (ends : Finishes m) (rest : ∀ a, Yields (f a) b) : Yields (m >>= f) b :=
  Meets.bind ends rest

theorem addSection_finishes {parent offset len : Nat} {label : String} :
    Finishes (addSection parent label offset len) :=
  fun _ _ => ⟨_, _, rfl, trivial⟩

theorem addFields_finishes {parent : Nat} {fields : List (String × Nat × Nat)} :
    Finishes (addFields parent fields) :=
  Keeps.forM fun _ _ => .bind (fun _ _ => ⟨_, _, rfl, trivial⟩) fun _ => .pure _

theorem setSummary_finishes {change : PacketSummary → PacketSummary} : Finishes (setSummary change) :=
  .modify fun _ _ => trivial

theorem setFlags_finishes {change : ProtocolFlags → ProtocolFlags} : Finishes (setFlags change) :=
  .modify fun _ _ => trivial

theorem annotateCryptoFrames_finishes {parent off : Nat} {plain : Bytes} {fuel i : Nat}
    (enough : plain.length < i + fuel) (started : 0 < fuel) :
    Finishes (annotateCryptoFrames parent plain off fuel i) := by
  obtain ⟨fields, adds, _⟩ := annotateCryptoFrames_adds parent off enough started
  rw [adds]
  exact addFields_finishes

theorem quicDecrypted_finishes {parent : Nat} {label : String} {fields : List (String × Nat × Nat)}
    {plain : Bytes} {off : Nat} : Finishes (quicDecrypted parent label fields plain off) :=
  .bind addSection_finishes fun _ => .bind addFields_finishes fun _ =>
    .bind (annotateCryptoFrames_finishes (by omega) (by omega)) fun _ => setSummary_finishes

theorem quicTryNumbersOpened_yields (parent sec : Nat) (keys : QuicInitialKeys) (hdr ct : Bytes)
    (payloadOff : Nat) (tries : List Nat) :
    Yields (quicTryNumbersOpened crates parent sec keys hdr ct payloadOff tries)
      (tries.findSome? fun tryPn => quicAttempts crates keys tryPn hdr ct) := by
  induction tries with
  | nil => exact addFields_finishes.yields fun _ => setSummary_finishes.yields fun _ => .pure _
  | cons tryPn rest ih =>
    unfold quicTryNumbersOpened
    rw [List.findSome?_cons]
    simp only [quicAttempts, quicAttempt, if_true, Bool.false_eq_true, if_false]
    cases decryptInitialPayload crates keys.clientKey keys.clientIv tryPn hdr ct with
    | some plain => exact quicDecrypted_finishes.yields fun _ => .pure _
    | none =>
      cases decryptInitialPayload crates keys.serverKey keys.serverIv tryPn hdr ct with
      | some plain => exact quicDecrypted_finishes.yields fun _ => .pure _
      | none => exact ih

theorem quicOpenOpened_yields (parent sec : Nat) {packet : Bytes} (payloadOff : Nat)
    (keys : QuicInitialKeys) {pos protectedLen guess : Nat}
    (claimed : pos + protectedLen ≤ packet.length) (guessed : guess < protectedLen)
    (room : 4 < protectedLen) :
    Yields (quicOpenOpened crates parent sec packet payloadOff keys pos protectedLen guess)
      (quicOpenedOf crates keys packet pos (pos + protectedLen) guess) := by
  have short : (octet packet 0 &&& 0x03).toNat + 1 ≤ 4 := by
    rw [UInt8.toNat_and]
    exact Nat.succ_le_succ Nat.and_le_right
  unfold quicOpenOpened quicOpenedOf
  rw [byteAt_ok (by omega), read_ok, pure_bind]
  dsimp only
  generalize (octet packet 0 &&& 0x03).toNat + 1 = pnLen at short
  have whole : pos + min pnLen (packet.length - pos) = pos + pnLen := by omega
  rw [whole, slice_ok (by omega) (by omega), read_ok, pure_bind, if_neg (by omega),
    slice_ok (by omega) (by omega), read_ok, pure_bind, slice_ok (by omega) (by omega), read_ok,
    pure_bind]
  simp only [beAt, quicAttempts, quicAttempt, if_true, Bool.false_eq_true, if_false]
  cases decryptInitialPayload crates keys.clientKey keys.clientIv
      (ofBE (span packet pos (pos + pnLen))) (span packet 0 (pos + pnLen))
      (span packet (pos + pnLen) (pos + protectedLen)) with
  | some plain => exact quicDecrypted_finishes.yields fun _ => .pure _
  | none =>
    cases decryptInitialPayload crates keys.serverKey keys.serverIv
        (ofBE (span packet pos (pos + pnLen))) (span packet 0 (pos + pnLen))
        (span packet (pos + pnLen) (pos + protectedLen)) with
    | some plain => exact quicDecrypted_finishes.yields fun _ => .pure _
    | none =>
      dsimp only [Option.map_none, Option.or_none]
      rw [slice_ok (by omega) (by omega), read_ok, pure_bind, slice_ok (by omega) (by omega),
        read_ok, pure_bind]
      exact quicTryNumbersOpened_yields crates parent sec keys _ _ payloadOff _

/- What is taken off a packet: a mask over its first octet and its packet number. -/

/-- Four bits of the mask on the first octet, and its next octets on the `n` from `pos` on. -/
def maskOver (mask : Bytes) (pos n j : Nat) : UInt8 :=
  if j = 0 then octet mask 0 &&& 0x0f
  else if pos ≤ j ∧ j < pos + n then octet mask (1 + (j - pos))
  else 0

def maskHeader (mask : Bytes) (pos n : Nat) (packet : Bytes) : Bytes :=
  packet.mapIdx fun j b => b ^^^ maskOver mask pos n j

@[simp] theorem length_maskHeader (mask : Bytes) (pos n : Nat) (packet : Bytes) :
    (maskHeader mask pos n packet).length = packet.length :=
  List.length_mapIdx

theorem getElem?_maskHeader (mask : Bytes) (pos n : Nat) (packet : Bytes) (j : Nat) :
    (maskHeader mask pos n packet)[j]? = packet[j]?.map (· ^^^ maskOver mask pos n j) :=
  List.getElem?_mapIdx

theorem maskOver_behind (mask : Bytes) {pos n j : Nat} (positive : 0 < j) (behind : pos + n ≤ j) :
    maskOver mask pos n j = 0 := by
  rw [maskOver, if_neg (by omega), if_neg (by omega)]

theorem maskHeader_append (mask : Bytes) {pos n : Nat} {packet rest : Bytes}
    (positive : 0 < packet.length) (inside : pos + n ≤ packet.length) :
    maskHeader mask pos n (packet ++ rest) = maskHeader mask pos n packet ++ rest := by
  apply List.ext_getElem?
  intro j
  rw [getElem?_maskHeader]
  by_cases front : j < packet.length
  · rw [List.getElem?_append_left front,
      List.getElem?_append_left (by rw [length_maskHeader]; exact front), getElem?_maskHeader]
  · rw [List.getElem?_append_right (by omega),
      List.getElem?_append_right (by rw [length_maskHeader]; omega), length_maskHeader,
      maskOver_behind mask (by omega) (by omega)]
    simp only [UInt8.xor_zero, Option.map_id_fun', id_eq]

/-- One mask behind another gives back the packet exactly when they are the same on it. -/
theorem maskHeader_maskHeader_eq_iff {mask mask' packet : Bytes} {pos n n' : Nat} :
    maskHeader mask pos n (maskHeader mask' pos n' packet) = packet ↔
      ∀ j < packet.length, maskOver mask pos n j = maskOver mask' pos n' j := by
  constructor
  · intro same j inside
    have there := congrArg (·[j]?) same
    simp only [getElem?_maskHeader, List.getElem?_eq_getElem inside, Option.map_some,
      Option.some.injEq, UInt8.xor_assoc] at there
    have cancel := (UInt8.xor_right_inj packet[j]).mp (there.trans UInt8.xor_zero.symm)
    exact (UInt8.xor_eq_zero_iff.mp cancel).symm
  · intro same
    apply List.ext_getElem?
    intro j
    rw [getElem?_maskHeader, getElem?_maskHeader]
    by_cases inside : j < packet.length
    · rw [List.getElem?_eq_getElem inside, Option.map_some, Option.map_some, same j inside,
        UInt8.xor_assoc, UInt8.xor_self, UInt8.xor_zero]
    · rw [List.getElem?_eq_none (by omega)]
      rfl

theorem span_maskHeader_behind (mask : Bytes) {pos n i j : Nat} (packet : Bytes) (start : 0 < i)
    (behind : pos + n ≤ i) : span (maskHeader mask pos n packet) i j = span packet i j := by
  apply List.ext_getElem?
  intro k
  rw [span, span, maskHeader, List.getElem?_take, List.getElem?_take]
  split
  · rw [List.getElem?_drop, List.getElem?_drop, List.getElem?_mapIdx]
    have outside : maskOver mask pos n (i + k) = 0 := by
      rw [maskOver, if_neg (by omega), if_neg (by omega)]
    simp only [outside, UInt8.xor_zero, Option.map_id_fun', id_eq]
  · rfl

theorem toOctets_of_length {n : Nat} {bytes : Bytes} (width : bytes.length = n) :
    toOctets n bytes = some ⟨bytes, width⟩ :=
  dif_pos width

theorem copyAt_ok {packet part : Bytes} {pos : Nat} (fits : pos + part.length ≤ packet.length) :
    copyAt packet pos part = .ok (overwrite packet pos part) := by
  rw [copyAt, if_pos fits, List.append_assoc]
  rfl

/-- The mask of the client's key is taken off, whoever sent the packet. -/
theorem quicUnprotect_masks {packet : Bytes} {keys : QuicInitialKeys} {pos guess : Nat}
    {sample mask : Octets 16} (sampled : sample.val = span packet (pos + 4) (pos + 20))
    (masked : crates.aes128 keys.clientHp sample = some mask) (behind : 0 < pos) (few : guess ≤ 4)
    (room : pos + 20 ≤ packet.length) :
    quicUnprotect crates packet keys pos guess =
      .ok (some (maskHeader mask.val pos guess packet)) := by
  have whole : (span packet (pos + 4) (pos + 4 + 16)).take 16 = sample.val := by
    rw [sampled, List.take_of_length_le]
    exact Nat.le_trans (length_span_le _ _ _) (by omega)
  have removed : removeHeaderProtection crates keys.clientHp (octet packet 0)
      (span packet pos (pos + guess)) (span packet (pos + 4) (pos + 4 + 16)) true =
        some (octet packet 0 ^^^ (octet mask.val 0 &&& 0x0f),
          (span packet pos (pos + guess)).mapIdx fun i b => b ^^^ octet mask.val (1 + i)) := by
    have each : ((span packet pos (pos + guess)).mapIdx fun i b =>
        if i + 1 < mask.val.length then b ^^^ octet mask.val (1 + i) else b) =
          (span packet pos (pos + guess)).mapIdx fun i b => b ^^^ octet mask.val (1 + i) := by
      apply List.mapIdx_eq_mapIdx_iff.mpr
      intro i inside
      rw [length_span (by omega)] at inside
      rw [if_pos (by rw [mask.property]; omega)]
    rw [removeHeaderProtection, whole, toOctets_of_length sample.property]
    change (crates.aes128 keys.clientHp sample).bind _ = _
    rw [masked, Option.bind_some, if_pos rfl]
    exact congrArg (fun pn => some (_, pn)) each
  have width : ((span packet pos (pos + guess)).mapIdx fun i b =>
      b ^^^ octet mask.val (1 + i)).length = guess := by
    rw [List.length_mapIdx, length_span (by omega)]
    omega
  unfold quicUnprotect
  dsimp only
  rw [if_pos (by omega), slice_ok (by omega) (by omega), ok_bind, byteAt_ok (by omega), ok_bind,
    slice_ok (by omega) (by omega), ok_bind, removed]
  dsimp only [Option.or]
  have fits : pos + ((span packet pos (pos + guess)).mapIdx fun i b =>
      b ^^^ octet mask.val (1 + i)).length ≤
        (packet.set 0 (octet packet 0 ^^^ (octet mask.val 0 &&& 0x0f))).length := by
    rw [width, List.length_set]
    omega
  rw [copyAt_ok fits, ok_bind, pure_ok]
  congr 2
  apply List.ext_getElem?
  intro j
  rw [getElem?_overwrite fits, width, maskHeader, List.getElem?_mapIdx, List.getElem?_mapIdx,
    List.getElem?_set]
  unfold maskOver
  have untouched : packet[j]? = packet[j]?.map fun b => b ^^^ 0 := by
    simp only [UInt8.xor_zero, Option.map_id_fun', id_eq]
  by_cases start : j = 0
  · subst start
    rw [if_pos behind, if_pos rfl, if_pos (by omega),
      List.getElem?_eq_getElem (by omega : 0 < packet.length)]
    simp [octet, List.getElem?_eq_getElem (by omega : 0 < packet.length)]
  rw [if_neg (Ne.symm start)]
  simp only [if_neg start]
  by_cases before : j < pos
  · rw [if_pos before]
    simp only [if_neg (by omega : ¬ (pos ≤ j ∧ j < pos + guess))]
    exact untouched
  rw [if_neg before]
  by_cases within : j < pos + guess
  · have there : (span packet pos (pos + guess))[j - pos]? = packet[j]? := by
      have place : pos + (j - pos) = j := by omega
      rw [span, List.getElem?_take_of_lt (by omega), List.getElem?_drop, place]
    rw [if_pos within, there]
    simp only [if_pos (And.intro (Nat.le_of_not_lt before) within)]
  · rw [if_neg within]
    simp only [if_neg (by omega : ¬ (pos ≤ j ∧ j < pos + guess))]
    exact untouched

end

end BitBeak
