import BitBeak.Dissect.KeyLog

/-! The key derivation under the ciphers of the key log, and the records that they are to
open: application data of TLS 1.2 and of TLS 1.3 as their sender protects it. The hash, the
expansion of a key and the cipher are parameters. -/
namespace BitBeak
open Wire

def GcmAlg.keyLength : GcmAlg → Nat
  | .aes128 => 16
  | .aes256 => 32

/-- What the cryptographic package computes. -/
structure TlsPrimitives where
  /-- A key and a message. -/
  hmacSha256 : Bytes → Bytes → Octets 32
  /-- `n` octets from a pseudorandom key and an info string. -/
  hkdfExpand : Bytes → Bytes → (n : Nat) → Octets n
  /-- The ciphertext with its tag, from a key, a nonce, additional data and a plaintext. -/
  sealInPlace : GcmAlg → Bytes → Octets 12 → Bytes → Bytes → Bytes
  /-- What the buffer holds once it is opened in its place. -/
  openInPlace : GcmAlg → Bytes → Octets 12 → Bytes → Bytes → Option Bytes

/-- A tag has sixteen octets; opening gives back what was sealed and leaves the octets of the
tag behind it in the buffer, which keeps its length. -/
structure TlsPrimitives.Lawful (p : TlsPrimitives) : Prop where
  tag : ∀ alg key nonce aad plain, key.length = alg.keyLength →
    (p.sealInPlace alg key nonce aad plain).length = plain.length + 16
  opens : ∀ alg key nonce aad plain, key.length = alg.keyLength → ∃ left, left.length = 16 ∧
    p.openInPlace alg key nonce aad (p.sealInPlace alg key nonce aad plain) = some (plain ++ left)
  inPlace : ∀ alg key nonce aad buffer after,
    p.openInPlace alg key nonce aad buffer = some after → after.length = buffer.length

section

variable (p : TlsPrimitives)

/- The derivations as the program has them. -/

/-- The rounds that are left, with `A(i)` and what is put out so far. Every round adds an
octet at least. -/
def pHashRounds (secret seed : Bytes) (outLen : Nat) : Nat → Octets 32 → Bytes → Bytes
  | 0, _, out => out
  | fuel + 1, a, out =>
    if out.length < outLen then
      let block := p.hmacSha256 secret (a.val ++ seed)
      let need := min (outLen - out.length) block.val.length
      pHashRounds secret seed outLen fuel (p.hmacSha256 secret a.val) (out ++ block.val.take need)
    else out

def pHashSha256 (secret seed : Bytes) (outLen : Nat) : Bytes :=
  pHashRounds p secret seed outLen outLen (p.hmacSha256 secret seed) []

def buildHkdfInfo (label context : Bytes) (len : Nat) : Bytes :=
  toBE 2 (len % 2 ^ 16) ++ [UInt8.ofNat label.length] ++ label ++
    [UInt8.ofNat context.length] ++ context

/-- The secret is extracted with an empty salt before it is expanded. -/
def TlsPrimitives.hkdfExpandLabel (secret : Bytes) (label : String) (context : Bytes) (len : Nat) :
    Option (Octets len) :=
  let fullLabel := ("tls13 " ++ label).toUTF8.toList
  let prk := p.hmacSha256 [] secret
  if 255 * 32 < len then none
  else some (p.hkdfExpand prk.val (buildHkdfInfo fullLabel context len) len)

/- Records as their senders protect them. -/

/-- The label of an expansion and its context, with their lengths in front. -/
def hkdfLabel (label : String) (context : Bytes) (len : Nat) : Bytes :=
  let fullLabel := ("tls13 " ++ label).toUTF8.toList
  toBE 2 len ++ toBE 1 fullLabel.length ++ fullLabel ++ toBE 1 context.length ++ context

/-- The traffic secret itself is what is expanded. -/
def trafficKey (secret : Bytes) (label : String) (len : Nat) : Octets len :=
  p.hkdfExpand secret (hkdfLabel label [] len) len

/-- The content with its type and the padding. -/
def innerPlaintext (content : Bytes) (contentType : UInt8) (padding : Nat) : Bytes :=
  content ++ contentType :: List.replicate padding 0

/-- The header of a record with application data. -/
def appDataHeader (len : Nat) : Bytes := [0x17, 0x03, 0x03] ++ toBE 2 len

/-- The body of a TLS 1.3 record. -/
def protectTls13 (secret : Bytes) (seq : UInt64) (content : Bytes) (contentType : UInt8)
    (padding : Nat) : Bytes :=
  let inner := innerPlaintext content contentType padding
  p.sealInPlace .aes128 (trafficKey p secret "key" 16).val
    (paddedNonce (trafficKey p secret "iv" 12) seq.toNat) (appDataHeader (inner.length + 16)) inner

/-- `A(i)` of RFC 5246. -/
def hashChain (secret seed : Bytes) : Nat → Bytes
  | 0 => seed
  | i + 1 => (p.hmacSha256 secret (hashChain secret seed i)).val

/-- The first `count` blocks of the expansion, each under the next `A(i)`. -/
def hashBlocks (secret seed : Bytes) (count : Nat) : Bytes :=
  (List.range count).flatMap fun i =>
    (p.hmacSha256 secret (hashChain p secret seed (i + 1) ++ seed)).val

/-- As many octets as two keys and two salts take, from as many blocks as these need. -/
def keyBlock (master clientRandom serverRandom : Bytes) (alg : GcmAlg) : Bytes :=
  let len := 2 * alg.keyLength + 2 * 4
  let seed := "key expansion".toUTF8.toList ++ (serverRandom ++ clientRandom)
  (hashBlocks p master seed ((len + 31) / 32)).take len

/-- The client's key, the server's key, the client's salt and the server's lie in the key
block in this order. -/
def writeKey (block : Bytes) (alg : GcmAlg) (fromClient : Bool) : Bytes :=
  if fromClient then block.take alg.keyLength else (block.drop alg.keyLength).take alg.keyLength

def writeSalt (block : Bytes) (alg : GcmAlg) (fromClient : Bool) : Bytes :=
  let salts := (block.drop alg.keyLength).drop alg.keyLength
  if fromClient then salts.take 4 else (salts.drop 4).take 4

theorem hashBlocks_succ (secret seed : Bytes) (count : Nat) :
    hashBlocks p secret seed (count + 1) = hashBlocks p secret seed count ++
      (p.hmacSha256 secret (hashChain p secret seed (count + 1) ++ seed)).val := by
  rw [hashBlocks, List.range_succ, List.flatMap_append, List.flatMap_singleton]
  rfl

theorem length_hashBlocks (secret seed : Bytes) (count : Nat) :
    (hashBlocks p secret seed count).length = 32 * count := by
  induction count with
  | zero => rfl
  | succ count ih =>
    rw [hashBlocks_succ, List.length_append, ih,
      (p.hmacSha256 secret (hashChain p secret seed (count + 1) ++ seed)).property]
    omega

theorem length_keyBlock (master clientRandom serverRandom : Bytes) (alg : GcmAlg) :
    (keyBlock p master clientRandom serverRandom alg).length = 2 * alg.keyLength + 8 := by
  rw [keyBlock, List.length_take, length_hashBlocks]
  omega

theorem length_writeSalt {block : Bytes} {alg : GcmAlg} (fromClient : Bool)
    (whole : block.length = 2 * alg.keyLength + 8) :
    (writeSalt block alg fromClient).length = 4 := by
  unfold writeSalt
  dsimp only
  split <;> simp only [List.length_take, List.length_drop] <;> omega

theorem length_writeKey {block : Bytes} {alg : GcmAlg} (fromClient : Bool)
    (whole : block.length = 2 * alg.keyLength + 8) :
    (writeKey block alg fromClient).length = alg.keyLength := by
  unfold writeKey
  split <;> simp only [List.length_take, List.length_drop] <;> omega

theorem length_tls12Nonce (master clientRandom serverRandom : Bytes) (alg : GcmAlg)
    (fromClient : Bool) (explicit : Octets 8) :
    (writeSalt (keyBlock p master clientRandom serverRandom alg) alg fromClient ++
      explicit.val).length = 12 := by
  rw [List.length_append, explicit.property,
    length_writeSalt fromClient (length_keyBlock p master clientRandom serverRandom alg)]

/-- The salt of the direction and the nonce that the record carries. -/
def tls12Nonce (master clientRandom serverRandom : Bytes) (alg : GcmAlg) (fromClient : Bool)
    (explicit : Octets 8) : Octets 12 :=
  ⟨writeSalt (keyBlock p master clientRandom serverRandom alg) alg fromClient ++ explicit.val,
    length_tls12Nonce p master clientRandom serverRandom alg fromClient explicit⟩

/-- The fragment of a TLS 1.2 record, as RFC 5288 has it. -/
def protectTls12 (master clientRandom serverRandom : Bytes) (alg : GcmAlg) (fromClient : Bool)
    (seq : UInt64) (explicit : Octets 8) (plain : Bytes) : Bytes :=
  explicit.val ++ p.sealInPlace alg
    (writeKey (keyBlock p master clientRandom serverRandom alg) alg fromClient)
    (tls12Nonce p master clientRandom serverRandom alg fromClient explicit)
    (toBE 8 seq.toNat ++ appDataHeader plain.length) plain

/- The program's rounds give the blocks of the expansion. -/

/-- More blocks than a length needs change nothing of it. -/
theorem take_hashBlocks (secret seed : Bytes) {outLen few : Nat} (enough : outLen ≤ 32 * few)
    (more : Nat) : (hashBlocks p secret seed (few + more)).take outLen =
      (hashBlocks p secret seed few).take outLen := by
  induction more with
  | zero => rfl
  | succ more ih =>
    rw [← Nat.add_assoc, hashBlocks_succ, List.take_append_of_le_length, ih]
    rw [length_hashBlocks]
    omega

/-- The rounds keep to the blocks: after `count` of them the output is the front of as many
blocks, and the next `A(i)` is at hand. -/
theorem pHashRounds_blocks (secret seed : Bytes) {outLen : Nat} (fuel : Nat) {count : Nat}
    {a : Octets 32} (next : a.val = hashChain p secret seed (count + 1))
    (enough : outLen ≤ 32 * count + fuel) :
    pHashRounds p secret seed outLen fuel a ((hashBlocks p secret seed count).take outLen) =
      (hashBlocks p secret seed (count + fuel)).take outLen := by
  induction fuel generalizing count a with
  | zero => rfl
  | succ fuel ih =>
    have width := length_hashBlocks p secret seed count
    unfold pHashRounds
    rw [List.length_take, width]
    split
    · next room =>
      have all : (hashBlocks p secret seed count).take outLen = hashBlocks p secret seed count :=
        List.take_of_length_le (by omega)
      have longer : hashBlocks p secret seed count ++
          (p.hmacSha256 secret (a.val ++ seed)).val.take (min (outLen - 32 * count)
            (p.hmacSha256 secret (a.val ++ seed)).val.length) =
          (hashBlocks p secret seed (count + 1)).take outLen := by
        rw [hashBlocks_succ, List.take_append, width, all, ← next, ← List.take_eq_take_min]
      have onward : (p.hmacSha256 secret a.val).val = hashChain p secret seed (count + 1 + 1) := by
        rw [next]
        rfl
      have filled : min outLen (32 * count) = 32 * count := by omega
      have counted : count + (fuel + 1) = count + 1 + fuel := by omega
      dsimp only
      rw [filled, all, longer, ih onward (by omega), counted]
    · next full =>
      rw [take_hashBlocks p secret seed (by omega)]

theorem pHashSha256_blocks (secret seed : Bytes) {outLen count : Nat}
    (enough : outLen ≤ 32 * count) :
    pHashSha256 p secret seed outLen = (hashBlocks p secret seed count).take outLen := by
  have rounds : pHashRounds p secret seed outLen outLen (p.hmacSha256 secret seed)
      ((hashBlocks p secret seed 0).take outLen) =
        (hashBlocks p secret seed (0 + outLen)).take outLen :=
    pHashRounds_blocks p secret seed outLen rfl (by omega)
  have both : (hashBlocks p secret seed (0 + outLen)).take outLen =
      (hashBlocks p secret seed count).take outLen := by
    rw [Nat.zero_add]
    rcases Nat.le_total count outLen with le | le
    · obtain ⟨more, rfl⟩ := Nat.exists_eq_add_of_le le
      exact take_hashBlocks p secret seed enough more
    · obtain ⟨more, rfl⟩ := Nat.exists_eq_add_of_le le
      exact (take_hashBlocks p secret seed (by omega) more).symm
  rw [← both, ← rounds, hashBlocks, List.range_zero, List.flatMap_nil, List.take_nil, pHashSha256]

theorem length_pHashSha256 (secret seed : Bytes) (outLen : Nat) :
    (pHashSha256 p secret seed outLen).length = outLen := by
  have enough : outLen ≤ 32 * outLen := by omega
  rw [pHashSha256_blocks p secret seed enough, List.length_take, length_hashBlocks]
  omega

def tls12Prf (secret : Bytes) (label : String) (seed : Bytes) (outLen : Nat) : Octets outLen :=
  ⟨pHashSha256 p secret (label.toUTF8.toList ++ seed) outLen, length_pHashSha256 p secret _ outLen⟩

/-- The ciphers of the key log. -/
def tlsCiphers : TlsCiphers where
  prf := tls12Prf p
  expandLabel secret label len := p.hkdfExpandLabel secret label [] len
  openInPlace := p.openInPlace

/-- The program's key block is the sender's. -/
theorem tls12Prf_keyBlock (master clientRandom serverRandom : Bytes) (alg : GcmAlg) :
    (tls12Prf p master "key expansion" (serverRandom ++ clientRandom) (alg.keyLength * 2 + 8)).val =
      keyBlock p master clientRandom serverRandom alg := by
  have len : alg.keyLength * 2 + 8 = 2 * alg.keyLength + 2 * 4 := by omega
  rw [tls12Prf, len, keyBlock]
  exact pHashSha256_blocks p master _ (by omega)

/-- The keys and the vectors of both directions lie where the sender takes them. -/
theorem tls12KeyBlock_parts (master clientRandom serverRandom : Bytes) (alg : GcmAlg) :
    let keys := tls12KeyBlock (tlsCiphers p) master clientRandom serverRandom alg.keyLength
    let block := keyBlock p master clientRandom serverRandom alg
    (∀ fromClient, (if fromClient then keys.clientWriteKey else keys.serverWriteKey) =
      writeKey block alg fromClient) ∧
    ∀ fromClient, (if fromClient then keys.clientWriteIv else keys.serverWriteIv).val =
      writeSalt block alg fromClient := by
  have block := tls12Prf_keyBlock p master clientRandom serverRandom alg
  constructor
  · intro fromClient
    cases fromClient
    · have width : 2 * alg.keyLength - alg.keyLength = alg.keyLength := by omega
      simp only [tls12KeyBlock, tlsCiphers, block, span, writeKey, width, Bool.false_eq_true,
        if_false]
    · simp only [tls12KeyBlock, tlsCiphers, block, span, writeKey, List.drop_zero, Nat.sub_zero,
        if_true]
  · intro fromClient
    cases fromClient
    · have start : alg.keyLength + alg.keyLength + 4 = 2 * alg.keyLength + 4 := by omega
      have width : 2 * alg.keyLength + 8 - (2 * alg.keyLength + 4) = 4 := by omega
      simp only [tls12KeyBlock, tlsCiphers, block, span, writeSalt, List.drop_drop, start, width,
        Bool.false_eq_true, if_false]
    · have start : alg.keyLength + alg.keyLength = 2 * alg.keyLength := by omega
      have width : 2 * alg.keyLength + 4 - 2 * alg.keyLength = 4 := by omega
      simp only [tls12KeyBlock, tlsCiphers, block, span, writeSalt, List.drop_drop, start, width,
        if_true]

/- A cipher that leaves its text readable and seals it with a sum. -/

def octetSum (bs : Bytes) : UInt8 := bs.foldl (· + ·) 0

def readableTag (key : Bytes) (nonce : Octets 12) (aad plain : Bytes) : Bytes :=
  List.replicate 16 (octetSum (key ++ nonce.val ++ aad ++ plain))

def readableSeal (key : Bytes) (nonce : Octets 12) (aad plain : Bytes) : Bytes :=
  plain ++ readableTag key nonce aad plain

def readableOpen (key : Bytes) (nonce : Octets 12) (aad buffer : Bytes) : Option Bytes :=
  let plain := buffer.take (buffer.length - 16)
  if buffer = readableSeal key nonce aad plain then some buffer else none

def readablePrimitives : TlsPrimitives where
  hmacSha256 key message := ⟨List.replicate 32 (octetSum (key ++ message)), List.length_replicate⟩
  hkdfExpand prk _ n := ⟨List.replicate n (octetSum prk), List.length_replicate⟩
  sealInPlace _ := readableSeal
  openInPlace _ := readableOpen

theorem readablePrimitives_lawful : readablePrimitives.Lawful := by
  have width : ∀ key nonce aad plain, (readableTag key nonce aad plain).length = 16 :=
    fun _ _ _ _ => List.length_replicate
  constructor
  · intro alg key nonce aad plain _
    change (plain ++ readableTag key nonce aad plain).length = _
    rw [List.length_append, width]
  · intro alg key nonce aad plain _
    refine ⟨readableTag key nonce aad plain, width key nonce aad plain, ?_⟩
    change readableOpen key nonce aad (plain ++ readableTag key nonce aad plain) = _
    have front : (plain ++ readableTag key nonce aad plain).take
        ((plain ++ readableTag key nonce aad plain).length - 16) = plain := by
      rw [List.length_append, width, Nat.add_sub_cancel, List.take_left]
    rw [readableOpen, front, if_pos]
    rfl
  · intro alg key nonce aad buffer after opened
    change readableOpen key nonce aad buffer = some after at opened
    unfold readableOpen at opened
    dsimp only at opened
    split at opened
    · cases opened
      rfl
    · cases opened

/-- Application data of TLS 1.2 is opened to what its sender sealed, in both directions and
under both lengths of the key. -/
theorem decryptTls12Gcm_opens (lawful : p.Lawful) (master clientRandom serverRandom : Bytes)
    (alg : GcmAlg) (fromClient : Bool) (seq : UInt64) (explicit : Octets 8) {plain : Bytes}
    (short : plain.length < 2 ^ 16) :
    decryptTls12Gcm (tlsCiphers p) master clientRandom serverRandom
      (protectTls12 p master clientRandom serverRandom alg fromClient seq explicit plain)
      fromClient seq alg.keyLength = .ok (some plain) := by
  have block := length_keyBlock p master clientRandom serverRandom alg
  have keyLength := length_writeKey fromClient block
  obtain ⟨keys, salts⟩ := tls12KeyBlock_parts p master clientRandom serverRandom alg
  have tag := lawful.tag alg _
    (tls12Nonce p master clientRandom serverRandom alg fromClient explicit)
    (toBE 8 seq.toNat ++ appDataHeader plain.length) plain keyLength
  obtain ⟨left, sixteen, opened⟩ := lawful.opens alg _
    (tls12Nonce p master clientRandom serverRandom alg fromClient explicit)
    (toBE 8 seq.toNat ++ appDataHeader plain.length) plain keyLength
  have front : (protectTls12 p master clientRandom serverRandom alg fromClient seq explicit
      plain).take 8 = explicit.val := by
    rw [protectTls12, List.take_left' explicit.property]
  have behind : (protectTls12 p master clientRandom serverRandom alg fromClient seq explicit
      plain).drop 8 = p.sealInPlace alg
        (writeKey (keyBlock p master clientRandom serverRandom alg) alg fromClient)
        (tls12Nonce p master clientRandom serverRandom alg fromClient explicit)
        (toBE 8 seq.toNat ++ appDataHeader plain.length) plain := by
    rw [protectTls12, List.drop_left' explicit.property]
  have width : (protectTls12 p master clientRandom serverRandom alg fromClient seq explicit
      plain).length = 8 + (plain.length + 16) := by
    rw [protectTls12, List.length_append, tag, explicit.property]
  have small : ¬ 2 ^ 64 ≤ alg.keyLength * 2 + 8 := by
    cases alg <;> decide
  have sameAlg : (if alg.keyLength = 16 then GcmAlg.aes128 else GcmAlg.aes256) = alg := by
    cases alg <;> rfl
  have declared : (plain.length + 16 - 16) % 2 ^ 16 = plain.length := by
    rw [Nat.add_sub_cancel, Nat.mod_eq_of_lt short]
  have stripped : (plain ++ left).take ((plain ++ left).length - 16) = plain := by
    rw [List.length_append, sixteen, Nat.add_sub_cancel, List.take_left]
  unfold decryptTls12Gcm
  rw [dif_neg (by omega), if_neg small]
  dsimp only
  simp only [keys, salts, front, behind, tag, declared, sameAlg]
  rw [List.append_assoc]
  refine congrArg Except.ok ((congrArg (Option.map _) opened).trans ?_)
  rw [Option.map_some, if_pos (by rw [List.length_append]; omega), stripped]

theorem server_record_opens :
    decryptTls12Gcm (tlsCiphers readablePrimitives) [0x33] [0x11] [0x22]
      (protectTls12 readablePrimitives [0x33] [0x11] [0x22] .aes256 false 1
        ⟨[1, 2, 3, 4, 5, 6, 7, 8], rfl⟩ [0x68, 0x69]) false 1 32 = .ok (some [0x68, 0x69]) :=
  decryptTls12Gcm_opens readablePrimitives readablePrimitives_lawful [0x33] [0x11] [0x22] .aes256
    false 1 ⟨[1, 2, 3, 4, 5, 6, 7, 8], rfl⟩ (by decide)

/-- What opening a TLS 1.3 record gives, if anything, is as long as the content with its type
and the padding. -/
theorem length_decryptTls13AppData (lawful : p.Lawful) {secret content opened : Bytes}
    {seq : UInt64} {contentType : UInt8} {padding : Nat}
    (done : decryptTls13AppData (tlsCiphers p) secret
      (protectTls13 p secret seq content contentType padding) seq = some opened) :
    opened.length = content.length + 1 + padding := by
  have tag := lawful.tag .aes128 (trafficKey p secret "key" 16).val
    (paddedNonce (trafficKey p secret "iv" 12) seq.toNat)
    (appDataHeader ((innerPlaintext content contentType padding).length + 16))
    (innerPlaintext content contentType padding) (trafficKey p secret "key" 16).property
  have inner : (innerPlaintext content contentType padding).length =
      content.length + 1 + padding := by
    rw [innerPlaintext, List.length_append, List.length_cons, List.length_replicate]
    omega
  unfold decryptTls13AppData at done
  rw [if_neg (by rw [protectTls13, tag]; omega)] at done
  obtain ⟨key, _, done⟩ := Option.bind_eq_some_iff.mp done
  obtain ⟨iv, _, done⟩ := Option.bind_eq_some_iff.mp done
  have kept := lawful.inPlace _ _ _ _ _ _ done
  rw [kept, List.length_take, protectTls13, tag, inner]
  omega

/-- No content is given back: its type would have to be taken off what was opened. -/
theorem decryptTls13AppData_never_opens (lawful : p.Lawful) (secret : Bytes) (seq : UInt64)
    (content : Bytes) (contentType : UInt8) (padding : Nat) :
    decryptTls13AppData (tlsCiphers p) secret
      (protectTls13 p secret seq content contentType padding) seq ≠ some content := by
  intro done
  have width := length_decryptTls13AppData p lawful done
  omega

theorem short_greeting_not_given :
    decryptTls13AppData (tlsCiphers readablePrimitives) [0x07]
      (protectTls13 readablePrimitives [0x07] 0 [0x68, 0x69] 0x17 0) 0 ≠ some [0x68, 0x69] :=
  decryptTls13AppData_never_opens readablePrimitives readablePrimitives_lawful [0x07] 0
    [0x68, 0x69] 0x17 0

/-- A greeting as its sender protects it is not opened, although the cipher opens whatever it
has sealed. -/
theorem protected_greeting_unopened :
    readablePrimitives.Lawful ∧ decryptTls13AppData (tlsCiphers readablePrimitives) [0x07]
      (protectTls13 readablePrimitives [0x07] 0 [0x68, 0x69] 0x17 0) 0 = none :=
  ⟨readablePrimitives_lawful, by decide +kernel⟩

end

end BitBeak
