import BitBeak.Lib.Cursor
import BitBeak.Dissect.QuicInitial
import BitBeak.Dissect.TlsRecords

/-! Initial packets of QUIC as their senders protect them, and which of them the dissector takes
the protection off: the length of the packet number is guessed from the protected octet, and
the mask is always the client's. -/
namespace BitBeak
open Wire Dissector

/- Variable-length integers. -/

def varintBound (width : Fin 4) : Nat := 2 ^ (8 * 2 ^ width.val - 2)

/-- A number in `2 ^ width` octets, with the width in the two top bits. -/
def varint (width : Fin 4) (n : Nat) : Bytes :=
  toBE (2 ^ width.val) (width.val * varintBound width + n)

@[simp] theorem length_varint (width : Fin 4) (n : Nat) : (varint width n).length = 2 ^ width.val :=
  length_toBE _ _

theorem varintBound_pos (width : Fin 4) : 0 < varintBound width := Nat.two_pow_pos _

/-- The bits below the width. -/
theorem varintBound_eq (width : Fin 4) : 256 ^ (2 ^ width.val - 1) * 64 = varintBound width := by
  have positive := Nat.two_pow_pos width.val
  have octets : (256 : Nat) = 2 ^ 8 := rfl
  have bits : (64 : Nat) = 2 ^ 6 := rfl
  have exponent : 8 * (2 ^ width.val - 1) + 6 = 8 * 2 ^ width.val - 2 := by omega
  rw [octets, bits, ← Nat.pow_mul, ← Nat.pow_add, exponent, varintBound]

theorem varint_small {width : Fin 4} {n : Nat} (fits : n < varintBound width) :
    width.val * varintBound width + n < 256 ^ (2 ^ width.val - 1) * 256 := by
  have three : width.val * varintBound width ≤ 3 * varintBound width :=
    Nat.mul_le_mul_right _ (by omega)
  have eq := varintBound_eq width
  omega

theorem varint_head {width : Fin 4} {n : Nat} (fits : n < varintBound width) :
    ∃ b : UInt8, (varint width n)[0]? = some b ∧ (b >>> 6).toNat = width.val := by
  refine ⟨UInt8.ofNat ((width.val * varintBound width + n) / 256 ^ (2 ^ width.val - 1) % 256),
    ?_, ?_⟩
  · rw [varint, getElem?_toBE, if_pos (Nat.two_pow_pos _)]
    rfl
  · have small := Nat.div_lt_of_lt_mul (varint_small fits)
    have top : (width.val * varintBound width + n) / varintBound width = width.val := by
      rw [Nat.add_comm, Nat.add_mul_div_right _ _ (varintBound_pos width), Nat.div_eq_of_lt fits,
        Nat.zero_add]
    rw [UInt8.toNat_shiftRight, UInt8.toNat_ofNat', Nat.mod_mod, Nat.mod_eq_of_lt small,
      Nat.shiftRight_eq_div_pow]
    change _ / 64 = _
    rw [Nat.div_div_eq_div_mul, varintBound_eq, top]

theorem readVarint_here {front rest : Bytes} {width : Fin 4} {n i : Nat}
    (fits : n < varintBound width) (at_i : i = front.length) :
    readVarint (front ++ (varint width n ++ rest)) i = .ok (some (n, i + 2 ^ width.val)) := by
  obtain ⟨b, head, top⟩ := varint_head fits
  have positive := Nat.two_pow_pos width.val
  have inside : (front ++ (varint width n ++ rest)).length =
      i + 2 ^ width.val + rest.length := by
    simp only [List.length_append, length_varint, at_i]
    omega
  have first : byteAt (front ++ (varint width n ++ rest)) i = .ok b := by
    rw [byteAt, List.getElem?_append_right (by omega), at_i, Nat.sub_self,
      List.getElem?_append_left (by rw [length_varint]; exact positive), head]
  have value : readBE (front ++ (varint width n ++ rest)) i (2 ^ width.val) =
      .ok (width.val * varintBound width + n) := by
    have whole : 256 ^ (2 ^ width.val - 1) * 256 = 256 ^ 2 ^ width.val := by
      rw [← Nat.pow_succ]
      congr 1
      omega
    rw [varint, readBE_here (whole ▸ varint_small fits) at_i]
  have low : (width.val * varintBound width + n) % 2 ^ (8 * 2 ^ width.val - 2) = n := by
    rw [← varintBound, Nat.mul_add_mod_self_right, Nat.mod_eq_of_lt fits]
  rw [readVarint, if_neg (by omega), first, ok_bind, top]
  dsimp only
  rw [if_neg (by omega), value, ok_bind, low]
  rfl

/- A packet and its protection. -/

/-- An Initial packet with the connection id of the client's first one, and how its sender
writes it: the length of the packet number and the widths of the two lengths. -/
structure QuicInitialPacket where
  fromClient : Bool
  dcid : Bytes
  scid : Bytes
  token : Bytes
  pnLen : Nat
  packetNumber : Nat
  plain : Bytes
  tokenWidth : Fin 4
  lengthWidth : Fin 4
  ids : dcid.length ≤ 20 ∧ scid.length ≤ 20
  numbered : packetNumber < 2 ^ 62
  pnLenRange : 1 ≤ pnLen ∧ pnLen ≤ 4
  tokenFits : token.length < varintBound tokenWidth
  lengthFits : pnLen + (plain.length + 16) < varintBound lengthWidth
  /-- The sample of the header protection lies inside the packet. -/
  sampled : 4 ≤ pnLen + plain.length

namespace QuicInitialPacket

/-- The long header of an Initial packet with the two bits of the length. -/
def first (pkt : QuicInitialPacket) : UInt8 := UInt8.ofNat (0xc0 + (pkt.pnLen - 1))

/-- The version, the connection ids, the token and the length of what follows. -/
def fields (pkt : QuicInitialPacket) : Bytes :=
  toBE 4 1 ++ UInt8.ofNat pkt.dcid.length :: (pkt.dcid ++ UInt8.ofNat pkt.scid.length ::
    (pkt.scid ++ (varint pkt.tokenWidth pkt.token.length ++ (pkt.token ++
      varint pkt.lengthWidth (pkt.pnLen + (pkt.plain.length + 16))))))

/-- Where the packet number lies. -/
def pnOffset (pkt : QuicInitialPacket) : Nat := pkt.fields.length + 1

def header (pkt : QuicInitialPacket) : Bytes :=
  pkt.first :: (pkt.fields ++ toBE pkt.pnLen pkt.packetNumber)

end QuicInitialPacket

section

variable (p : TlsPrimitives) (aes : Octets 16 → Bytes → Octets 16)

def initialSecret (dcid : Bytes) (fromClient : Bool) : Octets 32 :=
  trafficKey p (p.hmacSha256 initialSaltV1 dcid).val
    (if fromClient then "client in" else "server in") 32

def initialKey (dcid : Bytes) (fromClient : Bool) : Octets 16 :=
  trafficKey p (initialSecret p dcid fromClient).val "quic key" 16

def initialIv (dcid : Bytes) (fromClient : Bool) : Octets 12 :=
  trafficKey p (initialSecret p dcid fromClient).val "quic iv" 12

def initialHp (dcid : Bytes) (fromClient : Bool) : Octets 16 :=
  trafficKey p (initialSecret p dcid fromClient).val "quic hp" 16

namespace QuicInitialPacket

variable (pkt : QuicInitialPacket)

def sealed : Bytes :=
  p.sealInPlace .aes128 (initialKey p pkt.dcid pkt.fromClient).val
    (paddedNonce (initialIv p pkt.dcid pkt.fromClient) pkt.packetNumber) pkt.header pkt.plain

/-- The packet without header protection. -/
def bare : Bytes := pkt.header ++ pkt.sealed p

/-- The mask of a side: the cipher under its key on the sample, four octets behind the start of
the packet number. -/
def mask (fromClient : Bool) : Octets 16 :=
  aes (initialHp p pkt.dcid fromClient) (span (pkt.bare p) (pkt.pnOffset + 4) (pkt.pnOffset + 20))

/-- The packet as it is sent. -/
def onWire : Bytes :=
  maskHeader (pkt.mask p aes pkt.fromClient).val pkt.pnOffset pkt.pnLen (pkt.bare p)

/-- What there is to recover. -/
def opened : QuicOpened := ⟨pkt.fromClient, pkt.header, pkt.packetNumber, pkt.plain⟩

/-- The length of the packet number as the protected first octet has it. -/
def guess : Nat := (octet (pkt.onWire p aes) 0 &&& 0x03).toNat + 1

/-- The client's mask on as many octets as are guessed is the sender's on as many as there
are. -/
def Unmasks : Prop :=
  octet (pkt.mask p aes true).val 0 &&& 0x0f =
      octet (pkt.mask p aes pkt.fromClient).val 0 &&& 0x0f ∧
    ∀ i < 4, (if i < pkt.guess p aes then octet (pkt.mask p aes true).val (1 + i) else 0) =
      if i < pkt.pnLen then octet (pkt.mask p aes pkt.fromClient).val (1 + i) else 0

/-- The dissector opens the packet, whatever follows it in the datagram. -/
def Recovered (crates : Crates) : Prop :=
  ∀ rest parent payloadOff, Yields
    (dissectQuicInitialOpened crates parent (pkt.onWire p aes ++ rest) payloadOff)
    (some pkt.opened)

end QuicInitialPacket

/-- The packages compute what the senders do: a tag has sixteen octets, and opening gives back
what was sealed. -/
structure QuicComputes (crates : Crates) : Prop where
  hmac : ∀ key message, crates.hmacSha256 key message = (p.hmacSha256 key message).val
  expand : ∀ prk info n, n ≤ 255 * 32 →
    crates.hkdfExpand prk info n = some (p.hkdfExpand prk info n).val
  block : ∀ key sample, crates.aes128 key sample = some (aes key sample.val)
  tag : ∀ (key : Octets 16) nonce aad plain,
    (p.sealInPlace .aes128 key.val nonce aad plain).length = plain.length + 16
  opens : ∀ (key : Octets 16) nonce aad plain,
    crates.aes128GcmOpen key nonce aad (p.sealInPlace .aes128 key.val nonce aad plain) = some plain

/-- Only what was sealed is opened. -/
def QuicAuthentic (crates : Crates) : Prop :=
  ∀ (key : Octets 16) nonce aad ciphertext plain,
    crates.aes128GcmOpen key nonce aad ciphertext = some plain →
      ciphertext = p.sealInPlace .aes128 key.val nonce aad plain

variable {p aes} {crates : Crates}

/- The keys and the places that the dissector finds. -/

theorem hkdfExpandLabel_eq (computes : QuicComputes p aes crates) (secret : Bytes) (label : String)
    {len : Nat} (short : len ≤ 255 * 32) :
    hkdfExpandLabel crates secret label len = some (trafficKey p secret label len).val := by
  have one : ∀ n, toBE 1 n = [UInt8.ofNat n] := by
    intro n
    change [UInt8.ofNat (n % 256)] = _
    rw [UInt8.ofNat_mod_size]
  have small : len % 2 ^ 16 = len := Nat.mod_eq_of_lt (by omega)
  rw [hkdfExpandLabel, trafficKey, hkdfLabel, small, one, one, computes.expand _ _ _ short,
    List.append_nil]
  rfl

def initialKeys (p : TlsPrimitives) (dcid : Bytes) : QuicInitialKeys where
  clientKey := initialKey p dcid true
  clientIv := initialIv p dcid true
  clientHp := initialHp p dcid true
  serverKey := initialKey p dcid false
  serverIv := initialIv p dcid false
  serverHp := initialHp p dcid false

theorem deriveInitialKeys_eq (computes : QuicComputes p aes crates) (dcid : Bytes) :
    deriveInitialKeys crates dcid = some (initialKeys p dcid) := by
  have whole : ∀ {n : Nat} (octets : Octets n), toOctets n octets.val = some octets :=
    fun octets => toOctets_of_length octets.property
  have expanded : ∀ (secret : Bytes) (label : String) {len : Nat}, len ≤ 32 →
      hkdfExpandLabel crates secret label len = some (trafficKey p secret label len).val :=
    fun secret label _ short => hkdfExpandLabel_eq computes secret label (by omega)
  unfold deriveInitialKeys
  simp only [computes.hmac, expanded, whole, Option.bind_eq_bind, Option.bind_some, Nat.le_refl,
    Nat.reduceLeDiff]
  rfl

namespace QuicInitialPacket

variable {pkt : QuicInitialPacket}

theorem length_header : pkt.header.length = pkt.pnOffset + pkt.pnLen := by
  rw [header, List.length_cons, List.length_append, length_toBE, pnOffset]
  omega

theorem length_sealed (computes : QuicComputes p aes crates) :
    (pkt.sealed p).length = pkt.plain.length + 16 :=
  computes.tag _ _ _ _

theorem length_onWire (computes : QuicComputes p aes crates) :
    (pkt.onWire p aes).length = pkt.pnOffset + (pkt.pnLen + (pkt.plain.length + 16)) := by
  rw [onWire, length_maskHeader, bare, List.length_append, length_header, length_sealed computes]
  omega

/-- The mask leaves what lies between the first octet and the packet number. -/
theorem onWire_shape (computes : QuicComputes p aes crates) : ∃ body : Bytes,
    body.length = pkt.pnLen + (pkt.plain.length + 16) ∧
      pkt.onWire p aes = octet (pkt.onWire p aes) 0 :: (pkt.fields ++ body) := by
  have bare : pkt.bare p = pkt.first :: (pkt.fields ++
      (toBE pkt.pnLen pkt.packetNumber ++ pkt.sealed p)) := by
    rw [bare, header, List.cons_append, List.append_assoc]
  obtain ⟨body, masked⟩ : ∃ body, pkt.onWire p aes =
      octet (pkt.onWire p aes) 0 :: (pkt.fields ++ body) := by
    rw [onWire, maskHeader, bare, List.mapIdx_cons, List.mapIdx_append]
    refine ⟨_, congrArg₂ List.cons rfl (congrArg (· ++ _) ?_)⟩
    apply List.ext_getElem?
    intro i
    rw [List.getElem?_mapIdx]
    by_cases inside : i < pkt.fields.length
    · rw [List.getElem?_eq_getElem inside, Option.map_some, maskOver, if_neg (by omega),
        if_neg (by rw [pnOffset]; omega), UInt8.xor_zero]
    · rw [List.getElem?_eq_none (by omega)]
      rfl
  have width := congrArg List.length masked
  rw [length_onWire computes, List.length_cons, List.length_append, pnOffset] at width
  exact ⟨body, by omega, masked⟩

/-- The places of a packet are found whatever the first octet is and whatever stands from the
packet number on. -/
theorem quicProtected_fields (b0 : UInt8) {body : Bytes}
    (whole : pkt.pnLen + (pkt.plain.length + 16) ≤ body.length) :
    quicProtected (b0 :: (pkt.fields ++ body)) b0 (6 + pkt.dcid.length) =
      .ok (some (pkt.pnOffset, pkt.pnLen + (pkt.plain.length + 16))) := by
  have scidLen : (UInt8.ofNat pkt.scid.length).toNat = pkt.scid.length := by
    have short := pkt.ids.2
    rw [UInt8.toNat_ofNat', Nat.mod_eq_of_lt (by omega)]
  have sampled := pkt.sampled
  have guess : (b0 &&& 0x03).toNat ≤ 3 := by
    rw [UInt8.toNat_and]
    exact Nat.and_le_right
  have place : pkt.pnOffset = 6 + pkt.dcid.length + 1 + pkt.scid.length +
      2 ^ pkt.tokenWidth.val + pkt.token.length + 2 ^ pkt.lengthWidth.val := by
    simp only [pnOffset, fields, List.length_append, List.length_cons, length_toBE, length_varint]
    omega
  have width : (b0 :: (pkt.fields ++ body)).length = pkt.pnOffset + body.length := by
    rw [List.length_cons, List.length_append, pnOffset]
    omega
  have atScid : b0 :: (pkt.fields ++ body) =
      (b0 :: (toBE 4 1 ++ UInt8.ofNat pkt.dcid.length :: pkt.dcid)) ++
        UInt8.ofNat pkt.scid.length :: (pkt.scid ++ (varint pkt.tokenWidth pkt.token.length ++
          (pkt.token ++ (varint pkt.lengthWidth (pkt.pnLen + (pkt.plain.length + 16)) ++
            body)))) := by
    simp only [fields, List.cons_append, List.append_assoc]
  have atToken : b0 :: (pkt.fields ++ body) =
      (b0 :: (toBE 4 1 ++ UInt8.ofNat pkt.dcid.length :: (pkt.dcid ++
        UInt8.ofNat pkt.scid.length :: pkt.scid))) ++ (varint pkt.tokenWidth pkt.token.length ++
          (pkt.token ++ (varint pkt.lengthWidth (pkt.pnLen + (pkt.plain.length + 16)) ++
            body))) := by
    simp only [fields, List.cons_append, List.append_assoc]
  have atLength : b0 :: (pkt.fields ++ body) =
      (b0 :: (toBE 4 1 ++ UInt8.ofNat pkt.dcid.length :: (pkt.dcid ++
        UInt8.ofNat pkt.scid.length :: (pkt.scid ++ (varint pkt.tokenWidth pkt.token.length ++
          pkt.token))))) ++ (varint pkt.lengthWidth (pkt.pnLen + (pkt.plain.length + 16)) ++
            body) := by
    simp only [fields, List.cons_append, List.append_assoc]
  have readScid : byteAt (b0 :: (pkt.fields ++ body)) (6 + pkt.dcid.length) =
      .ok (UInt8.ofNat pkt.scid.length) := by
    rw [atScid, byteAt_here]
    simp only [List.length_append, List.length_cons, length_toBE]
    omega
  have readToken : readVarint (b0 :: (pkt.fields ++ body))
      (6 + pkt.dcid.length + 1 + pkt.scid.length) =
        .ok (some (pkt.token.length,
          6 + pkt.dcid.length + 1 + pkt.scid.length + 2 ^ pkt.tokenWidth.val)) := by
    rw [atToken, readVarint_here pkt.tokenFits]
    simp only [List.length_append, List.length_cons, length_toBE]
    omega
  have readLength : readVarint (b0 :: (pkt.fields ++ body))
      (6 + pkt.dcid.length + 1 + pkt.scid.length + 2 ^ pkt.tokenWidth.val + pkt.token.length) =
        .ok (some (pkt.pnLen + (pkt.plain.length + 16), pkt.pnOffset)) := by
    rw [place, atLength, readVarint_here pkt.lengthFits]
    simp only [List.length_append, List.length_cons, length_toBE, length_varint]
    omega
  have ids := pkt.ids
  have tokenWidth := Nat.two_pow_pos pkt.tokenWidth.val
  have lengthWidth := Nat.two_pow_pos pkt.lengthWidth.val
  rw [quicProtected, readScid, ok_bind, scidLen]
  dsimp only
  rw [if_neg (by omega), readToken, ok_bind]
  dsimp only
  rw [readLength, ok_bind]
  dsimp only
  rw [if_neg (by omega)]
  rfl

/-- The dissector opens what the client's mask leaves of the packet. -/
theorem dissectQuicInitialOpened_yields (computes : QuicComputes p aes crates)
    (rest : Bytes) (parent payloadOff : Nat) :
    Yields (dissectQuicInitialOpened crates parent (pkt.onWire p aes ++ rest) payloadOff)
      (quicOpenedOf crates (initialKeys p pkt.dcid)
        (maskHeader (pkt.mask p aes true).val pkt.pnOffset (pkt.guess p aes)
          (pkt.onWire p aes ++ rest))
        pkt.pnOffset (pkt.pnOffset + (pkt.pnLen + (pkt.plain.length + 16))) (pkt.guess p aes)) := by
  obtain ⟨body, long, shape⟩ := pkt.onWire_shape computes
  have ids := pkt.ids
  have range := pkt.pnLenRange
  have sampled := pkt.sampled
  have few : pkt.guess p aes ≤ 4 := by
    rw [guess, UInt8.toNat_and]
    exact Nat.succ_le_succ Nat.and_le_right
  have wire : pkt.onWire p aes ++ rest =
      octet (pkt.onWire p aes) 0 :: (pkt.fields ++ (body ++ rest)) := by
    conv_lhs => rw [shape]
    rw [List.cons_append, List.append_assoc]
  have width : (pkt.onWire p aes ++ rest).length =
      pkt.pnOffset + (pkt.pnLen + (pkt.plain.length + 16)) + rest.length := by
    rw [List.length_append, length_onWire computes]
  have place : 6 + pkt.dcid.length < pkt.pnOffset := by
    simp only [pnOffset, fields, List.length_append, List.length_cons, length_toBE]
    omega
  have first : byteAt (pkt.onWire p aes ++ rest) 0 = .ok (octet (pkt.onWire p aes) 0) := by
    rw [wire]
    rfl
  have readDcid : byteAt (pkt.onWire p aes ++ rest) 5 =
      .ok (UInt8.ofNat pkt.dcid.length) := by
    have shown : pkt.onWire p aes ++ rest = (octet (pkt.onWire p aes) 0 :: toBE 4 1) ++
        UInt8.ofNat pkt.dcid.length :: (pkt.dcid ++ UInt8.ofNat pkt.scid.length ::
          (pkt.scid ++ (varint pkt.tokenWidth pkt.token.length ++ (pkt.token ++
            (varint pkt.lengthWidth (pkt.pnLen + (pkt.plain.length + 16)) ++ (body ++ rest)))))) := by
      rw [wire]
      simp only [fields, List.cons_append, List.append_assoc]
    rw [shown]
    exact byteAt_here _ rfl
  have dcid : slice (pkt.onWire p aes ++ rest) 6 (6 + pkt.dcid.length) = .ok pkt.dcid := by
    have shown : pkt.onWire p aes ++ rest = (octet (pkt.onWire p aes) 0 :: (toBE 4 1 ++
        [UInt8.ofNat pkt.dcid.length])) ++ (pkt.dcid ++ UInt8.ofNat pkt.scid.length ::
          (pkt.scid ++ (varint pkt.tokenWidth pkt.token.length ++ (pkt.token ++
            (varint pkt.lengthWidth (pkt.pnLen + (pkt.plain.length + 16)) ++ (body ++ rest)))))) := by
      rw [wire]
      simp only [fields, List.cons_append, List.append_assoc, List.nil_append]
    rw [shown]
    exact slice_here rfl rfl
  have dcidLen : (UInt8.ofNat pkt.dcid.length).toNat = pkt.dcid.length := by
    rw [UInt8.toNat_ofNat', Nat.mod_eq_of_lt (by omega)]
  have places : quicProtected (pkt.onWire p aes ++ rest) (octet (pkt.onWire p aes) 0)
      (6 + pkt.dcid.length) =
        .ok (some (pkt.pnOffset, pkt.pnLen + (pkt.plain.length + 16))) := by
    rw [wire]
    exact quicProtected_fields _ (by rw [List.length_append]; omega)
  have unprotected : quicUnprotect crates (pkt.onWire p aes ++ rest) (initialKeys p pkt.dcid)
      pkt.pnOffset (pkt.guess p aes) = .ok (some (maskHeader (pkt.mask p aes true).val
        pkt.pnOffset (pkt.guess p aes) (pkt.onWire p aes ++ rest))) := by
    have sample : span (pkt.onWire p aes ++ rest) (pkt.pnOffset + 4) (pkt.pnOffset + 20) =
        span (pkt.bare p) (pkt.pnOffset + 4) (pkt.pnOffset + 20) := by
      rw [span_append_left (by rw [length_onWire computes]; omega), onWire,
        span_maskHeader_behind _ _ (by omega) (by omega)]
    have sixteen : (span (pkt.onWire p aes ++ rest) (pkt.pnOffset + 4)
        (pkt.pnOffset + 20)).length = 16 := by
      rw [length_span (by omega)]
      omega
    have masked : crates.aes128 (initialKeys p pkt.dcid).clientHp ⟨_, sixteen⟩ =
        some (pkt.mask p aes true) := by
      rw [computes.block]
      change some (aes _ (span (pkt.onWire p aes ++ rest) _ _)) = _
      rw [sample]
      rfl
    exact quicUnprotect_masks crates rfl masked (by omega) few (by omega)
  refine setFlags_finishes.yields fun _ => setSummary_finishes.yields fun _ => ?_
  rw [if_neg (by omega)]
  refine addSection_finishes.yields fun sec => ?_
  rw [first, read_ok, pure_bind, readBE_ok (by omega), read_ok, pure_bind]
  refine addFields_finishes.yields fun _ => ?_
  rw [readDcid, read_ok, pure_bind, dcidLen]
  dsimp only
  rw [if_neg (by omega), dcid, read_ok, pure_bind]
  refine addFields_finishes.yields fun _ => ?_
  rw [places, read_ok, pure_bind, deriveInitialKeys_eq computes]
  refine addFields_finishes.yields fun _ => ?_
  rw [← guess, unprotected, read_ok, pure_bind]
  refine addFields_finishes.yields fun _ => ?_
  exact quicOpenOpened_yields crates parent sec payloadOff _
    (by rw [length_maskHeader]; omega) (by omega) (by omega)

/- The client's mask gives back the packet, or it does not. -/

theorem guess_le : pkt.guess p aes ≤ 4 := by
  rw [guess, UInt8.toNat_and]
  exact Nat.succ_le_succ Nat.and_le_right

/-- What the dissector makes of the packet before it opens it. -/
theorem unmasked_append (computes : QuicComputes p aes crates) (rest : Bytes) :
    maskHeader (pkt.mask p aes true).val pkt.pnOffset (pkt.guess p aes)
        (pkt.onWire p aes ++ rest) =
      maskHeader (pkt.mask p aes true).val pkt.pnOffset (pkt.guess p aes) (pkt.onWire p aes) ++
        rest := by
  have sampled := pkt.sampled
  have few : pkt.guess p aes ≤ 4 := pkt.guess_le
  have width := pkt.length_onWire computes
  exact maskHeader_append _ (by omega) (by omega)

theorem unmasked_eq_iff (computes : QuicComputes p aes crates) :
    maskHeader (pkt.mask p aes true).val pkt.pnOffset (pkt.guess p aes) (pkt.onWire p aes) =
      pkt.bare p ↔ pkt.Unmasks p aes := by
  have sampled := pkt.sampled
  have range := pkt.pnLenRange
  have few : pkt.guess p aes ≤ 4 := pkt.guess_le
  have width : (pkt.bare p).length = pkt.pnOffset + (pkt.pnLen + (pkt.plain.length + 16)) := by
    rw [← length_onWire computes, onWire, length_maskHeader]
  have behind : 0 < pkt.pnOffset := Nat.succ_pos _
  have masking : ∀ (mask : Bytes) n i, maskOver mask pkt.pnOffset n (pkt.pnOffset + i) =
      if i < n then octet mask (1 + i) else 0 := by
    intro mask n i
    rw [maskOver, if_neg (by omega), Nat.add_sub_cancel_left]
    by_cases within : i < n
    · rw [if_pos (by omega), if_pos within]
    · rw [if_neg (by omega), if_neg within]
  have before : ∀ (mask : Bytes) n j, 0 < j → j < pkt.pnOffset →
      maskOver mask pkt.pnOffset n j = 0 := by
    intro mask n j positive front
    rw [maskOver, if_neg (by omega), if_neg (by omega)]
  rw [onWire, maskHeader_maskHeader_eq_iff]
  constructor
  · intro same
    refine ⟨same 0 (by omega), fun i inside => ?_⟩
    rw [← masking, ← masking]
    exact same _ (by omega)
  · rintro ⟨first, numbers⟩ j inside
    rcases Nat.eq_zero_or_pos j with rfl | positive
    · exact first
    by_cases front : j < pkt.pnOffset
    · rw [before _ _ j positive front, before _ _ j positive front]
    obtain ⟨i, rfl⟩ := Nat.exists_eq_add_of_le (Nat.le_of_not_lt front)
    by_cases number : i < 4
    · rw [masking, masking]
      exact numbers i number
    · rw [maskOver_behind _ positive (by omega), maskOver_behind _ positive (by omega)]

/- The parts of the bare packet, where the dissector reads them. -/

theorem first_pnLen : (pkt.first &&& 0x03).toNat + 1 = pkt.pnLen := by
  have range := pkt.pnLenRange
  rw [first]
  generalize pkt.pnLen = n at range ⊢
  match n, range with
  | 1, _ | 2, _ | 3, _ | 4, _ => rfl

theorem bare_parts (computes : QuicComputes p aes crates) (rest : Bytes) :
    octet (pkt.bare p ++ rest) 0 = pkt.first ∧
      span (pkt.bare p ++ rest) 0 (pkt.pnOffset + pkt.pnLen) = pkt.header ∧
        span (pkt.bare p ++ rest) (pkt.pnOffset + pkt.pnLen)
          (pkt.pnOffset + (pkt.pnLen + (pkt.plain.length + 16))) = pkt.sealed p := by
  have header := pkt.length_header
  have sealedLen := pkt.length_sealed computes
  have shape : pkt.bare p ++ rest = pkt.header ++ (pkt.sealed p ++ rest) := by
    rw [bare, List.append_assoc]
  refine ⟨by rw [shape]; rfl, ?_, ?_⟩
  · rw [shape, span_append_left (Nat.le_of_eq header.symm), span, List.drop_zero, Nat.sub_zero,
      ← header, List.take_length]
  · rw [shape, span_middle header.symm]
    rw [header, sealedLen]
    omega

theorem beAt_bare (rest : Bytes) (small : pkt.packetNumber < 256 ^ pkt.pnLen) :
    beAt (pkt.bare p ++ rest) pkt.pnOffset pkt.pnLen = pkt.packetNumber := by
  have shape : pkt.bare p ++ rest = (pkt.first :: pkt.fields) ++
      (toBE pkt.pnLen pkt.packetNumber ++ (pkt.sealed p ++ rest)) := by
    simp only [bare, header, List.cons_append, List.append_assoc]
  rw [shape]
  exact beAt_here small rfl

/-- A packet that reads like the bare one where it is opened is the bare one. -/
theorem eq_bare_of_parts {packet : Bytes} {n : Nat}
    (width : packet.length = pkt.pnOffset + (pkt.pnLen + (pkt.plain.length + 16))) (few : n ≤ 4)
    (front : span packet 0 (pkt.pnOffset + n) = pkt.header)
    (back : span packet (pkt.pnOffset + n)
      (pkt.pnOffset + (pkt.pnLen + (pkt.plain.length + 16))) = pkt.sealed p) :
    n = pkt.pnLen ∧ packet = pkt.bare p := by
  have sampled := pkt.sampled
  have same := congrArg List.length front
  rw [length_span (by omega), length_header] at same
  refine ⟨by omega, ?_⟩
  rw [bare, ← front, ← back, ← width, span_end, span, List.drop_zero, Nat.sub_zero,
    List.take_append_drop]

/- Tries with the keys of a side. -/

/-- What the keys of a side make of a ciphertext. -/
def tryOf (p : TlsPrimitives) (crates : Crates) (dcid : Bytes) (fromClient : Bool) (pn : Nat)
    (header ct : Bytes) : Option Bytes :=
  crates.aes128GcmOpen (initialKey p dcid fromClient) (paddedNonce (initialIv p dcid fromClient) pn)
    header ct

theorem quicAttempt_eq (fromClient : Bool) {pn : Nat} (small : pn < 2 ^ 64) {header ct : Bytes}
    (long : 16 ≤ ct.length) :
    quicAttempt crates (initialKeys p pkt.dcid) fromClient pn header ct =
      (tryOf p crates pkt.dcid fromClient pn header ct).map (⟨fromClient, header, pn, ·⟩) := by
  rw [quicAttempt, decryptInitialPayload, if_neg (by omega), quicNonce_eq _ small]
  cases fromClient <;> rfl

/-- What was opened as the packet was tried as the packet, with its sender's keys and, if these
are the server's, after the client's. -/
theorem quicAttempts_opened {pn : Nat} (small : pn < 2 ^ 64) {header ct : Bytes}
    (long : 16 ≤ ct.length)
    (found : quicAttempts crates (initialKeys p pkt.dcid) pn header ct = some pkt.opened) :
    header = pkt.header ∧ pn = pkt.packetNumber ∧
      tryOf p crates pkt.dcid pkt.fromClient pn header ct = some pkt.plain ∧
        (pkt.fromClient = true ∨ tryOf p crates pkt.dcid true pn header ct = none) := by
  rw [quicAttempts, quicAttempt_eq true small long, quicAttempt_eq false small long] at found
  rcases Option.or_eq_some_iff.mp found with client | ⟨none, server⟩
  · obtain ⟨plain, tried, same⟩ := Option.map_eq_some_iff.mp client
    obtain ⟨sender, head, number, text⟩ := QuicOpened.mk.inj same
    rw [← sender, ← text]
    exact ⟨head, number, tried, .inl rfl⟩
  · obtain ⟨plain, tried, same⟩ := Option.map_eq_some_iff.mp server
    obtain ⟨sender, head, number, text⟩ := QuicOpened.mk.inj same
    rw [← sender, ← text]
    exact ⟨head, number, tried, .inr (Option.map_eq_none_iff.mp none)⟩

theorem tryOf_sealed (computes : QuicComputes p aes crates) :
    tryOf p crates pkt.dcid pkt.fromClient pkt.packetNumber pkt.header (pkt.sealed p) =
      some pkt.plain :=
  computes.opens _ _ _ _

/-- The client's keys and then the server's open the bare packet, if the client's open nothing
that the server has sealed. -/
theorem quicAttempts_bare (computes : QuicComputes p aes crates)
    (apart : pkt.fromClient = true ∨
      tryOf p crates pkt.dcid true pkt.packetNumber pkt.header (pkt.sealed p) = none) :
    quicAttempts crates (initialKeys p pkt.dcid) pkt.packetNumber pkt.header (pkt.sealed p) =
      some pkt.opened := by
  have small : pkt.packetNumber < 2 ^ 64 := Nat.lt_trans pkt.numbered (by decide)
  have long : 16 ≤ (pkt.sealed p).length := by
    rw [length_sealed computes]
    omega
  have opens := pkt.tryOf_sealed computes
  rw [quicAttempts, quicAttempt_eq true small long, quicAttempt_eq false small long, opened]
  cases sender : pkt.fromClient with
  | true =>
    rw [sender] at opens
    rw [opens]
    rfl
  | false =>
    rw [sender] at opens apart
    rcases apart with impossible | none
    · cases impossible
    · rw [none, opens]
      rfl

/-- The client's mask takes the protection off, the packet number is written in full, and the
client's keys open nothing that the server has sealed. -/
def Recoverable (p : TlsPrimitives) (aes : Octets 16 → Bytes → Octets 16) (crates : Crates)
    (pkt : QuicInitialPacket) : Prop :=
  pkt.Unmasks p aes ∧ pkt.packetNumber < 256 ^ pkt.pnLen ∧
    (pkt.fromClient = true ∨
      tryOf p crates pkt.dcid true pkt.packetNumber pkt.header (pkt.sealed p) = none)

theorem recovered_of (computes : QuicComputes p aes crates)
    (recoverable : pkt.Recoverable p aes crates) : pkt.Recovered p aes crates := by
  obtain ⟨unmasks, small, apart⟩ := recoverable
  intro rest parent payloadOff
  have yields := pkt.dissectQuicInitialOpened_yields computes rest parent payloadOff
  obtain ⟨first, header, ciphertext⟩ := pkt.bare_parts computes rest
  have number := pkt.beAt_bare (p := p) rest small
  rw [unmasked_append computes, (unmasked_eq_iff computes).mpr unmasks, quicOpenedOf, first,
    first_pnLen, number, header, ciphertext, quicAttempts_bare computes apart, Option.some_or]
    at yields
  exact yields

theorem eq_bare_of_attempts (authentic : QuicAuthentic p crates) {packet : Bytes} {n pn : Nat}
    (width : packet.length = pkt.pnOffset + (pkt.pnLen + (pkt.plain.length + 16))) (few : n ≤ 4)
    (small : pn < 2 ^ 64)
    (found : quicAttempts crates (initialKeys p pkt.dcid) pn (span packet 0 (pkt.pnOffset + n))
      (span packet (pkt.pnOffset + n) (pkt.pnOffset + (pkt.pnLen + (pkt.plain.length + 16)))) =
        some pkt.opened) :
    n = pkt.pnLen ∧ packet = pkt.bare p ∧ pn = pkt.packetNumber ∧
      (pkt.fromClient = true ∨
        tryOf p crates pkt.dcid true pkt.packetNumber pkt.header (pkt.sealed p) = none) := by
  have sampled := pkt.sampled
  have range := pkt.pnLenRange
  have cut : (span packet (pkt.pnOffset + n)
      (pkt.pnOffset + (pkt.pnLen + (pkt.plain.length + 16)))).length =
        pkt.pnOffset + (pkt.pnLen + (pkt.plain.length + 16)) - (pkt.pnOffset + n) :=
    length_span (by omega)
  obtain ⟨front, number, tried, apart⟩ := quicAttempts_opened small (by omega) found
  have back := authentic _ _ _ _ _ tried
  rw [front, number] at back
  obtain ⟨same, bare⟩ := eq_bare_of_parts width few front back
  rw [front, number, back] at apart
  exact ⟨same, bare, number, apart⟩

theorem recoverable_of (computes : QuicComputes p aes crates) (authentic : QuicAuthentic p crates)
    (recovered : pkt.Recovered p aes crates) : pkt.Recoverable p aes crates := by
  have yields := pkt.dissectQuicInitialOpened_yields computes [] 0 0
  have width := pkt.length_onWire computes
  rw [← length_maskHeader (pkt.mask p aes true).val pkt.pnOffset (pkt.guess p aes)] at width
  have same := (recovered [] 0 0).unique yields
  rw [unmasked_append computes, List.append_nil] at same
  rcases Option.or_eq_some_iff.mp same.symm with main | ⟨failed, fallback⟩
  · have few : (octet (maskHeader (pkt.mask p aes true).val pkt.pnOffset (pkt.guess p aes)
        (pkt.onWire p aes)) 0 &&& 0x03).toNat + 1 ≤ 4 := by
      rw [UInt8.toNat_and]
      exact Nat.succ_le_succ Nat.and_le_right
    have bound := beAt_lt (maskHeader (pkt.mask p aes true).val pkt.pnOffset (pkt.guess p aes)
      (pkt.onWire p aes)) pkt.pnOffset ((octet (maskHeader (pkt.mask p aes true).val pkt.pnOffset
        (pkt.guess p aes) (pkt.onWire p aes)) 0 &&& 0x03).toNat + 1)
    have small := Nat.lt_of_lt_of_le bound
      (Nat.le_trans (Nat.pow_le_pow_right (by decide) few) (by decide : 256 ^ 4 ≤ 2 ^ 64))
    obtain ⟨length, bare, number, apart⟩ := eq_bare_of_attempts authentic width few small main
    rw [number, length] at bound
    exact ⟨(unmasked_eq_iff computes).mp bare, bound, apart⟩
  · obtain ⟨tryPn, member, found⟩ := List.exists_of_findSome?_eq_some fallback
    have tries := List.mem_range.mp member
    obtain ⟨length, bare, number, apart⟩ := eq_bare_of_attempts authentic width pkt.guess_le
      (Nat.lt_trans tries (by decide)) found
    have short : pkt.packetNumber < 256 ^ pkt.pnLen := by
      have range := pkt.pnLenRange
      have most := Nat.pow_le_pow_right (by decide : 0 < 256) range.1
      omega
    -- The number was tried already where the packet has it.
    obtain ⟨first, header, ciphertext⟩ := pkt.bare_parts computes []
    have there := pkt.beAt_bare (p := p) [] short
    rw [List.append_nil] at first header ciphertext there
    rw [bare, first, first_pnLen, there, header, ciphertext, quicAttempts_bare computes apart]
      at failed
    cases failed

end QuicInitialPacket

end

/- A block cipher that gives its block back, with the readable sealing. -/

theorem length_readableBlock (sample : Bytes) :
    ((sample ++ List.replicate 16 0).take 16).length = 16 := by
  rw [List.length_take, List.length_append, List.length_replicate]
  omega

def readableBlock (_ : Octets 16) (sample : Bytes) : Octets 16 :=
  ⟨(sample ++ List.replicate 16 0).take 16, length_readableBlock sample⟩

def readableCrates : Crates where
  parseTlsPlaintext _ := none
  parseRequest _ := none
  parseResponse _ := none
  dnsMessage _ := none
  hpackDecode _ _ := none
  hmacSha256 key message := (readablePrimitives.hmacSha256 key message).val
  hkdfExpand prk info n := some (readablePrimitives.hkdfExpand prk info n).val
  aes128 key sample := some (readableBlock key sample.val)
  aes128GcmOpen key nonce aad ct :=
    (readableOpen key.val nonce aad ct).map fun buffer => buffer.take (buffer.length - 16)

theorem readableCrates_computes :
    QuicComputes readablePrimitives readableBlock readableCrates := by
  have width : ∀ key nonce aad plain, (readableSeal key nonce aad plain).length =
      plain.length + 16 := by
    intro key nonce aad plain
    rw [readableSeal, readableTag, List.length_append, List.length_replicate]
  refine ⟨fun _ _ => rfl, fun _ _ _ _ => rfl, fun _ _ => rfl, fun key => width key.val, ?_⟩
  intro key nonce aad plain
  have front : (readableSeal key.val nonce aad plain).take
      ((readableSeal key.val nonce aad plain).length - 16) = plain := by
    rw [width, Nat.add_sub_cancel, readableSeal, List.take_left]
  change (readableOpen key.val nonce aad (readableSeal key.val nonce aad plain)).map _ = _
  rw [readableOpen, front, if_pos rfl, Option.map_some, front]

theorem readableCrates_authentic : QuicAuthentic readablePrimitives readableCrates := by
  intro key nonce aad ct plain opened
  change (readableOpen key.val nonce aad ct).map _ = _ at opened
  obtain ⟨buffer, open', rfl⟩ := Option.map_eq_some_iff.mp opened
  unfold readableOpen at open'
  dsimp only at open'
  split at open'
  · next same =>
    cases open'
    exact same
  · cases open'

/-- A packet of the client with a packet number of one octet. -/
def helloPacket (bits : UInt8) : QuicInitialPacket where
  fromClient := true
  dcid := [1, 2, 3, 4]
  scid := []
  token := []
  pnLen := 1
  packetNumber := 5
  plain := [0, 0, 0, bits] ++ List.replicate 16 2
  tokenWidth := 0
  lengthWidth := 0
  ids := by decide
  numbered := by decide
  pnLenRange := by decide
  tokenFits := by decide
  lengthFits := by simp [varintBound]
  sampled := by simp

/-- An Initial packet of either side, whatever follows it in the datagram, is opened under its
header and packet number to its plaintext if the client's mask takes its protection off, its
packet number is written in full and the client's keys do not open it for the server's; with a
cipher that opens only what was sealed, only then. -/
theorem initial_recovered_iff {p : TlsPrimitives} {aes : Octets 16 → Bytes → Octets 16}
    {crates : Crates} (pkt : QuicInitialPacket) (computes : QuicComputes p aes crates) :
    (pkt.Recoverable p aes crates → pkt.Recovered p aes crates) ∧
      (QuicAuthentic p crates → pkt.Recovered p aes crates → pkt.Recoverable p aes crates) :=
  ⟨pkt.recovered_of computes, pkt.recoverable_of computes⟩

theorem helloPacket_recovered :
    QuicAuthentic readablePrimitives readableCrates ∧
      (helloPacket 4).Recovered readablePrimitives readableBlock readableCrates := by
  refine ⟨readableCrates_authentic,
    (initial_recovered_iff (helloPacket 4) readableCrates_computes).1 ⟨⟨rfl, ?_⟩, ?_, .inl rfl⟩⟩
  · decide +kernel
  · decide

/-- The two low bits of the mask are set: three octets of the packet behind its number are taken
for the number. -/
theorem helloPacket_not_recovered :
    QuicComputes readablePrimitives readableBlock readableCrates ∧
      QuicAuthentic readablePrimitives readableCrates ∧
        ¬ (helloPacket 7).Recovered readablePrimitives readableBlock readableCrates := by
  refine ⟨readableCrates_computes, readableCrates_authentic, fun recovered => ?_⟩
  obtain ⟨found, after, ran, same⟩ := recovered [] 0 0 {} trivial
  have closed : (dissectQuicInitialOpened readableCrates 0
      ((helloPacket 7).onWire readablePrimitives readableBlock ++ []) 0 {}).map (·.1) = .ok none := by
    decide +kernel
  rw [ran, same] at closed
  cases closed

end BitBeak
