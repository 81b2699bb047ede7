import BitBeak.Dissect.Quic
import BitBeak.Http.Text

/-! The key log and what it opens: the application data of one TLS record, by the secrets of
one client random. Random, secrets and state are kept in hexadecimal; the pseudorandom
function and the cipher are parameters. -/
namespace BitBeak
open Wire

/-- Maps as lists of pairs, with one pair for each key. -/
structure KeyLog where
  clientRandom : List (String × String) := []
  trafficSecrets : List (String × List (String × String)) := []
  deriving DecidableEq, Repr

inductive GcmAlg where
  | aes128
  | aes256
  deriving DecidableEq, Repr

structure TlsCiphers where
  /-- `tls12_prf`, from a secret, a label and a seed. -/
  prf : Bytes → String → Bytes → (n : Nat) → Octets n
  /-- `hkdf_expand_label` without a context. -/
  expandLabel : Bytes → String → (n : Nat) → Option (Octets n)
  /-- `open_in_place` under a key, a nonce and additional data: what the buffer holds then. -/
  openInPlace : GcmAlg → Bytes → Octets 12 → Bytes → Bytes → Option Bytes

structure DecryptOutcome where
  plaintext : Option Bytes := none
  notes : List String := []
  deriving DecidableEq, Repr

/- `hex_decode`. It takes octets in pairs, so a character of more than one octet either makes
a pair that is no number or is cut, which panics. -/

def hexDigit? (c : Char) : Option Nat :=
  let n := c.toNat
  if 0x30 ≤ n ∧ n ≤ 0x39 then some (n - 0x30)
  else if 0x41 ≤ n ∧ n ≤ 0x46 then some (n - 0x41 + 10)
  else if 0x61 ≤ n ∧ n ≤ 0x66 then some (n - 0x61 + 10)
  else none

/-- `u8::from_str_radix`, which takes a sign for the first digit. -/
def hexPair (c d : Char) : Option UInt8 := do
  let low ← hexDigit? d
  let high ← if c = '+' then some 0 else hexDigit? c
  return UInt8.ofNat (high * 16 + low)

def hexPairs : List Char → Except Fault (Option Bytes)
  | [] => return some []
  | [c] => if c.utf8Size ≤ 2 then return none else .error .outOfRange
  | c :: d :: rest =>
    if c.utf8Size = 2 then return none
    else if 2 < c.utf8Size ∨ 1 < d.utf8Size then .error .outOfRange
    else
      match hexPair c d with
      | none => return none
      | some b => do return (← hexPairs rest).map (b :: ·)

def hexDecode (s : String) : Except Fault (Option Bytes) :=
  if (trim s).utf8ByteSize % 2 ≠ 0 then return none else hexPairs (trim s).toList

namespace KeyLog

def hasSecrets (keylog : KeyLog) : Bool :=
  !keylog.clientRandom.isEmpty || !keylog.trafficSecrets.isEmpty

def hasEarlySecrets (keylog : KeyLog) (clientRandom : String) : Bool :=
  (keylog.trafficSecrets.lookup (toAsciiLowercase clientRandom)).any fun entries =>
    entries.any fun (label, _) =>
      label == "CLIENT_EARLY_TRAFFIC_SECRET" || label == "EARLY_EXPORTER_SECRET"

def masterSecret (keylog : KeyLog) (clientRandom : String) : Except Fault (Option Bytes) :=
  match keylog.clientRandom.lookup (toAsciiLowercase clientRandom) with
  | some secret => hexDecode secret
  | none => return none

def trafficSecret (keylog : KeyLog) (clientRandom : String) (fromClient : Bool) :
    Except Fault (Option Bytes) :=
  let label := if fromClient then "CLIENT_TRAFFIC_SECRET_0" else "SERVER_TRAFFIC_SECRET_0"
  match (keylog.trafficSecrets.lookup (toAsciiLowercase clientRandom)).bind (·.lookup label) with
  | some secret => hexDecode secret
  | none => return none

end KeyLog

section

variable (ciphers : TlsCiphers)

/-- The sequence number on the last eight octets of the vector. -/
def xorNonce (iv : Octets 12) (seq : UInt64) : Octets 12 := quicNonce iv seq.toNat

def decryptTls13AppData (trafficSecret ciphertext : Bytes) (seq : UInt64) : Option Bytes := do
  if ciphertext.length < 17 then none
  else
    let key ← ciphers.expandLabel trafficSecret "key" 16
    let ivBase ← ciphers.expandLabel trafficSecret "iv" 12
    ciphers.openInPlace .aes128 key.val (xorNonce ivBase seq) []
      (ciphertext.take (ciphertext.length - 16))

structure Tls12KeyBlock where
  clientWriteKey : Bytes
  serverWriteKey : Bytes
  clientWriteIv : Octets 4
  serverWriteIv : Octets 4

def tls12KeyBlock (master clientRandom serverRandom : Bytes) (keyLen : Nat) : Tls12KeyBlock :=
  let block := ciphers.prf master "key expansion" (serverRandom ++ clientRandom) (keyLen * 2 + 8)
  { clientWriteKey := span block.val 0 keyLen
    serverWriteKey := span block.val keyLen (2 * keyLen)
    clientWriteIv := ⟨span block.val (2 * keyLen) (2 * keyLen + 4), by
      rw [length_span (by rw [block.property]; omega)]; omega⟩
    serverWriteIv := ⟨span block.val (2 * keyLen + 4) (2 * keyLen + 8), by
      rw [length_span (by rw [block.property]; omega)]; omega⟩ }

/-- A fragment is a nonce of eight octets, the ciphertext and a tag of sixteen. -/
def decryptTls12Gcm (master clientRandom serverRandom fragment : Bytes) (fromClient : Bool)
    (seq : UInt64) (keyLen : Nat) : Except Fault (Option Bytes) :=
  if h : fragment.length < 8 + 16 then return none
  else if 2 ^ 64 ≤ keyLen * 2 + 8 then .error .outOfRange
  else
    let keys := tls12KeyBlock ciphers master clientRandom serverRandom keyLen
    let writeKey := if fromClient then keys.clientWriteKey else keys.serverWriteKey
    let fixedIv := if fromClient then keys.clientWriteIv else keys.serverWriteIv
    let ct := fragment.drop 8
    let nonce : Octets 12 := ⟨fixedIv.val ++ fragment.take 8, by
      rw [List.length_append, fixedIv.property, List.length_take]; omega⟩
    let aad := toBE 8 seq.toNat ++ [0x17, 0x03, 0x03] ++ toBE 2 ((ct.length - 16) % 2 ^ 16)
    let alg := if keyLen = 16 then GcmAlg.aes128 else GcmAlg.aes256
    return (ciphers.openInPlace alg writeKey nonce aad ct).map fun plain =>
      if 16 ≤ plain.length then plain.take (plain.length - 16) else plain

/- Ciphertexts in a form of the repository's own, for its tests. -/

def fixturePrefix (name : String) : Bytes := (name ++ ":").toUTF8.toList

def decryptBitbeakGcmFixture (ciphertext : Bytes) (keylog : KeyLog) (cr : String)
    (fromClient : Bool) : Except Fault (Option Bytes) := do
  match (fromUtf8 ciphertext).bind (stripPrefix · "BITBEAK_GCM:") |>.bind (splitOnce ':') with
  | none => return none
  | some (nonceHex, ctHex) =>
    match (← hexDecode nonceHex).bind (toOctets 12) with
    | none => return none
    | some nonce =>
      match ← hexDecode ctHex with
      | none => return none
      | some ct =>
        match ← keylog.trafficSecret cr fromClient with
        | none => return none
        | some secret =>
          return (ciphers.expandLabel secret "key" 16).bind fun key =>
            ciphers.openInPlace .aes128 key.val nonce [] ct

/-- `splitn(4, ':')`, where it gives four parts. -/
def fourParts (text : String) : Option (String × String × String × String) := do
  let (a, rest) ← splitOnce ':' text
  let (b, rest) ← splitOnce ':' rest
  let (c, d) ← splitOnce ':' rest
  return (a, b, c, d)

def decryptBitbeakTls12Fixture (ciphertext : Bytes) (keylog : KeyLog) (cr : String)
    (fromClient : Bool) : Except Fault (Option Bytes) := do
  match (fromUtf8 ciphertext).bind (stripPrefix · "BITBEAK_TLS12_GCM:") |>.bind fourParts with
  | none => return none
  | some (keyLenText, seqText, explicitHex, ctHex) =>
    match parseUnsigned (2 ^ 64) keyLenText, parseUnsigned (2 ^ 64) seqText with
    | some keyLen, some seq =>
      match ← hexDecode explicitHex with
      | none => return none
      | some explicit =>
        match ← hexDecode ctHex with
        | none => return none
        | some ct =>
          if explicit.length ≠ 8 then return none
          else
            match ← keylog.masterSecret cr with
            | none => return none
            | some master =>
              match ← hexDecode cr with
              | none => return none
              | some random =>
                decryptTls12Gcm ciphers master random random (explicit ++ ct) fromClient
                  (UInt64.ofNat seq) keyLen
    | _, _ => return none

def earlyDataNote : String :=
  "TLS 0-RTT / early data secrets present — BitBeak does not decrypt early data"

/-- The two key lengths of TLS 1.2, in turn. -/
def tryTls12 (master clientRandom serverRandom ciphertext : Bytes) (fromClient : Bool)
    (seq : UInt64) : Except Fault (Option Bytes) := do
  match ← decryptTls12Gcm ciphers master clientRandom serverRandom ciphertext fromClient seq 16 with
  | some plain => return some plain
  | none => decryptTls12Gcm ciphers master clientRandom serverRandom ciphertext fromClient seq 32

def KeyLog.tryDecryptAppDataExt (keylog : KeyLog) (clientRandomHex : String) (ciphertext : Bytes)
    (fromClient : Bool) (seq : UInt64) (serverRandom : Option Bytes) :
    Except Fault DecryptOutcome := do
  let cr := toAsciiLowercase clientRandomHex
  let notes := if keylog.hasEarlySecrets cr then [earlyDataNote] else []
  if (keylog.clientRandom.lookup cr).isNone ∧ (keylog.trafficSecrets.lookup cr).isNone then
    return { notes := notes }
  else if (fixturePrefix "BITBEAK_PLAIN").isPrefixOf ciphertext then
    return { plaintext := some (ciphertext.drop (fixturePrefix "BITBEAK_PLAIN").length)
             notes := notes }
  else if (fixturePrefix "BITBEAK_GCM").isPrefixOf ciphertext then
    return { plaintext := ← decryptBitbeakGcmFixture ciphers ciphertext keylog cr fromClient
             notes := notes }
  else if (fixturePrefix "BITBEAK_TLS12_GCM").isPrefixOf ciphertext then
    return { plaintext := ← decryptBitbeakTls12Fixture ciphers ciphertext keylog cr fromClient
             notes := notes }
  else
    match (← keylog.trafficSecret cr fromClient).bind fun secret =>
        decryptTls13AppData ciphers secret ciphertext seq with
    | some plain => return { plaintext := some plain, notes := notes }
    | none =>
      match ← keylog.masterSecret cr, serverRandom with
      | some master, some sr =>
        match ← hexDecode cr with
        | some random =>
          if random.length = 32 ∧ sr.length = 32 then
            return { plaintext := ← tryTls12 ciphers master random sr ciphertext fromClient seq
                     notes := notes }
          else return { notes := notes }
        | none => return { notes := notes }
      | _, _ => return { notes := notes }

end

end BitBeak
