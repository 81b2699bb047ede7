import BitBeak.Dissect.Dissect
import BitBeak.Dissect.KeyLog

/-! TLS in a frame opened by the key log, and the dissector with one. Every frame is given a
decryption state of its own, so what a handshake leaves in it reaches no later frame. -/
namespace BitBeak
open Wire Dissector

structure TlsConnection where
  clientRandom : String
  serverRandom : String := ""
  clientSeq : UInt64 := 0
  serverSeq : UInt64 := 0
  earlyDataSeen : Bool := false
  deriving DecidableEq, Repr

/-- The connections by client random, in the order in which the map lists its keys. -/
structure DecryptState where
  connections : List (String × TlsConnection) := []
  deriving DecidableEq, Repr

namespace DecryptState

/-- The connection of a client random, a new one if there is none. -/
def tracked (state : DecryptState) (cr : String) : TlsConnection :=
  (state.connections.lookup (toAsciiLowercase cr)).getD { clientRandom := toAsciiLowercase cr }

def put (state : DecryptState) (cr : String) (conn : TlsConnection) : DecryptState :=
  let key := toAsciiLowercase cr
  if (state.connections.lookup key).isSome then
    { connections := state.connections.map fun (k, c) => if k = key then (k, conn) else (k, c) }
  else { connections := state.connections ++ [(key, conn)] }

def setServerRandom (state : DecryptState) (cr srHex : String) : DecryptState :=
  let conn := state.tracked cr
  state.put cr
    (if conn.serverRandom = "" then { conn with serverRandom := toAsciiLowercase srHex } else conn)

def markEarlyData (state : DecryptState) (cr : String) : DecryptState :=
  state.put cr { state.tracked cr with earlyDataSeen := true }

/-- The sequence number of the next record of a direction, and the connection after it. -/
def nextSeq (conn : TlsConnection) (fromClient : Bool) : UInt64 × TlsConnection :=
  if fromClient then (conn.clientSeq, { conn with clientSeq := conn.clientSeq + 1 })
  else (conn.serverSeq, { conn with serverSeq := conn.serverSeq + 1 })

end DecryptState

/-- Every frame counts as the client's: the walk ends at the payload, behind the ports. -/
def guessFromClient : Bool := true

def TlsMessage.serverRandom? : TlsMessage → Option Bytes
  | .handshake (.serverHello random) => some random
  | _ => none

def serverRandomFrom (crates : Crates) : Nat → Bytes → Except Fault (Option String)
  | 0, _ => .error .outOfFuel
  | fuel + 1, rest =>
    if rest = [] then .ok none
    else match crates.parseTlsPlaintext rest with
      | none => .ok none
      | some (remain, record) =>
        match if record.recordType = .handshake then record.msg.findSome? (·.serverRandom?)
            else none with
        | some random => .ok (some (hexBytes random))
        | none => serverRandomFrom crates fuel remain

def extractServerRandom (crates : Crates) (data : Bytes) (linkType : LinkType) :
    Except Fault (Option String) := do
  match ← findTlsPayload data linkType with
  | none => return none
  | some tls => serverRandomFrom crates (tls.length + 1) tls

def findExt002a : Bytes → Bool
  | a :: b :: c :: d :: rest => (a == 0x00 && b == 0x2a) || findExt002a (b :: c :: d :: rest)
  | _ => false

/-- The first octet 0x16 with a client hello five octets behind it decides. -/
def offersEarlyData : Bytes → Bool
  | [] => false
  | b :: rest =>
    if rest.length < 4 then false
    else if b = 0x16 ∧ rest[4]? = some 0x01 then findExt002a (rest.drop 4)
    else offersEarlyData rest

def clientHelloHasEarlyData (data : Bytes) (linkType : LinkType) : Except Fault Bool := do
  return (← findTlsPayload data linkType).any offersEarlyData

def TlsMessage.blob? : TlsMessage → Option Bytes
  | .applicationData blob => some blob
  | _ => none

section

variable (crates : Crates) (ciphers : TlsCiphers) (keylog : KeyLog)

/-- The application data of one record, up to the first that opens. -/
def openMessages (cr : String) (fromClient : Bool) (seq : UInt64) (sr : Option Bytes) :
    List Bytes → List String → Except Fault DecryptOutcome
  | [], notes => return { notes := notes }
  | blob :: blobs, notes => do
    let out ← keylog.tryDecryptAppDataExt ciphers cr blob fromClient seq sr
    if out.plaintext.isSome then
      return { plaintext := out.plaintext, notes := notes ++ out.notes }
    else openMessages cr fromClient seq sr blobs (notes ++ out.notes)

/-- The records, up to the first with application data that opens. -/
def openRecords (cr : String) (fromClient : Bool) (seq : UInt64) (sr : Option Bytes) :
    Nat → Bytes → List String → Except Fault DecryptOutcome
  | 0, _, _ => .error .outOfFuel
  | fuel + 1, rest, notes =>
    if rest = [] then return { notes := notes }
    else match crates.parseTlsPlaintext rest with
      | none => return { notes := notes }
      | some (remain, record) => do
        let blobs := if record.recordType = .applicationData then record.msg.filterMap (·.blob?)
          else []
        let out ← openMessages ciphers keylog cr fromClient seq sr blobs notes
        if out.plaintext.isSome then return out
        else openRecords cr fromClient seq sr fuel remain out.notes

def decryptTlsInFrameExt (data : Bytes) (linkType : LinkType) (state : DecryptState) :
    Except Fault (DecryptOutcome × DecryptState) := do
  match ← findTlsPayload data linkType with
  | none => return ({}, state)
  | some tls =>
    let fromClient := guessFromClient
    match (← extractClientRandom crates data linkType).or
        (state.connections.head?.map (·.1)) with
    | none => return ({}, state)
    | some cr =>
      let early ← clientHelloHasEarlyData data linkType
      let state := if early then state.markEarlyData cr else state
      let notes := if early then ["TLS 0-RTT early_data offered — not decrypted by BitBeak"] else []
      let state := match ← extractServerRandom crates data linkType with
        | some sr => state.setServerRandom cr sr
        | none => state
      let conn := state.tracked cr
      let notes := if conn.earlyDataSeen then
          notes ++ ["TLS 0-RTT / early data — BitBeak does not decrypt early data"]
        else notes
      let serverRandom ← hexDecode conn.serverRandom
      let (seq, conn) := DecryptState.nextSeq conn fromClient
      let out ← openRecords crates ciphers keylog cr fromClient seq serverRandom (tls.length + 1)
        tls notes
      return (out, state.put cr conn)

/-- The two methods and the version `dissect` looks for in a plaintext. -/
def plainLooksLikeHttp1 (p : Bytes) : Bool :=
  let s := (fromUtf8 (p.take 16)).getD ""
  hasPrefix s "GET " || hasPrefix s "POST " || hasPrefix s "HTTP/1."

/-- What `dissect` makes of a frame once its layers are read: with a key log, TLS is opened,
in a state that is new for every frame. -/
def decryptStage (data : Bytes) (linkType : LinkType) (d : DissectedPacket) :
    Except Fault DissectedPacket :=
  if d.flags.tls ∧ keylog.hasSecrets then do
    let (out, _) ← decryptTlsInFrameExt crates ciphers keylog data linkType {}
    match out.plaintext with
    | none => return d
    | some plain =>
      if plainLooksLikeHttp1 plain then
        let sub := do
          let subRoot ← addRoot "Decrypted HTTP" 0 plain.length
          dissectHttp1 crates subRoot plain 0
        let (_, s) ← sub { flags := d.flags, summary := d.summary }
        let fields ← populateDisplayFields crates s.flags s.summary plain .raw
        return { d with
          tree := (d.tree.addChild 0 "Decrypted Layer" 0 0).1
          summary := s.summary
          flags := s.flags
          decrypted := some plain
          fields := fields.foldl (fun all (key, value) => all.insert key value) d.fields }
      else return { d with decrypted := some plain }
  else return d

end

/-- `dissect` with or without a key log. -/
def dissectWith (crates : Crates) (ciphers : TlsCiphers) (keylog : Option KeyLog) (data : Bytes)
    (linkType : LinkType) : Except Fault DissectedPacket := do
  let d ← dissect crates data linkType
  match keylog with
  | some keylog => decryptStage crates ciphers keylog data linkType d
  | none => return d

/-- The packets of the store dissected again, one by one. -/
def redigestAll (crates : Crates) (ciphers : TlsCiphers) (keylog : Option KeyLog)
    (packets : List PacketRecord) : Except Fault (List PacketRecord) :=
  packets.mapM fun pkt => do
    let d ← dissectWith crates ciphers keylog pkt.data pkt.linkType
    return { pkt with summary := d.summary, flags := d.flags, decrypted := d.decrypted }

end BitBeak
