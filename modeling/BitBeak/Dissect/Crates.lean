import BitBeak.Lib.Bytes

/-! The parsers and ciphers the dissectors take from other packages, as parameters, with
what the dissectors rely on. -/
namespace BitBeak
open Wire

/- What the dissectors read of a parsed TLS record. -/

inductive TlsRecordType where
  | changeCipherSpec
  | alert
  | handshake
  | applicationData
  | heartbeat
  | other
  deriving DecidableEq, Repr

/-- `debug` is the name the debug text of another handshake message starts with. -/
inductive TlsHandshake where
  | clientHello (random : Bytes) (ext : Option Bytes)
  | serverHello (random : Bytes)
  | certificate
  | other (debug : String)
  deriving DecidableEq, Repr

inductive TlsMessage where
  | handshake (hs : TlsHandshake)
  | applicationData (blob : Bytes)
  | other
  deriving DecidableEq, Repr

structure TlsRecord where
  recordType : TlsRecordType
  msg : List TlsMessage
  deriving DecidableEq, Repr

/-- A complete head of `length` octets. -/
structure HttpRequest where
  length : Nat
  method : Option String
  path : Option String
  headers : List String
  deriving DecidableEq, Repr

structure HttpResponse where
  length : Nat
  code : Option Nat
  reason : Option String
  headers : List String
  deriving DecidableEq, Repr

structure DnsMessage where
  response : Bool
  queries : List String
  answers : Nat
  deriving DecidableEq, Repr

/-- An array of a fixed number of octets. -/
abbrev Octets (n : Nat) := { bytes : Bytes // bytes.length = n }

structure Crates where
  /-- The rest of the input and the record in front of it. -/
  parseTlsPlaintext : Bytes → Option (Bytes × TlsRecord)
  parseRequest : Bytes → Option HttpRequest
  parseResponse : Bytes → Option HttpResponse
  dnsMessage : Bytes → Option DnsMessage
  /-- The names of the headers, from a decoder that was given the listed blocks before. -/
  hpackDecode : List Bytes → Bytes → Option (List String)
  hmacSha256 : Bytes → Bytes → Bytes
  hkdfExpand : Bytes → Bytes → Nat → Option Bytes
  aes128 : Octets 16 → Octets 16 → Option (Octets 16)
  /-- The plaintext under a key, a nonce and additional data. -/
  aes128GcmOpen : Octets 16 → Octets 12 → Bytes → Bytes → Option Bytes

/-- What the packages document about lengths. -/
structure Crates.Contract (crates : Crates) : Prop where
  /-- A record is a header of five octets and a body, and what follows it is returned. -/
  tls : ∀ input rest record, crates.parseTlsPlaintext input = some (rest, record) →
    ∃ consumed, input = consumed ++ rest ∧ 5 ≤ consumed.length
  request : ∀ input head, crates.parseRequest input = some head → head.length ≤ input.length
  response : ∀ input head, crates.parseResponse input = some head → head.length ≤ input.length
  /-- A message has a header of twelve octets. -/
  dns : ∀ input message, crates.dnsMessage input = some message → 12 ≤ input.length
  gcm : ∀ key nonce aad sealed plain, crates.aes128GcmOpen key nonce aad sealed = some plain →
    plain.length ≤ sealed.length

end BitBeak
