import BitBeak.Dissect.Decrypt

/-! Captures of whole TLS 1.2 sessions: the handshake of each and then its application data.
The secrets of the key log belong to client randoms, and a frame without one is never
opened. -/
namespace BitBeak
open Wire

structure TlsSession where
  clientRandom : Bytes
  serverRandom : Bytes
  master : Bytes

/-- Application data as its sender sealed it. -/
structure SealedData where
  session : TlsSession
  fromClient : Bool
  seq : UInt64
  keyLen : Nat
  blob : Bytes
  plain : Bytes

/-- The secret of the session opens it. -/
def SealedData.Opens (ciphers : TlsCiphers) (s : SealedData) : Prop :=
  decryptTls12Gcm ciphers s.session.master s.session.clientRandom s.session.serverRandom s.blob
    s.fromClient s.seq s.keyLen = .ok (some s.plain)

section

variable (crates : Crates)

/-- The messages of the records in front of the first that does not parse. -/
def recordMessages : Nat → Bytes → List TlsMessage
  | 0, _ => []
  | fuel + 1, rest =>
    if rest = [] then []
    else match crates.parseTlsPlaintext rest with
      | none => []
      | some (remain, record) => record.msg ++ recordMessages fuel remain

def frameMessages (pkt : PacketRecord) : List TlsMessage :=
  match findTlsPayload pkt.data pkt.linkType with
  | .ok (some tls) => recordMessages crates (tls.length + 1) tls
  | _ => []

/-- The frame at a place of the capture carries the message. -/
def SentAt (packets : List PacketRecord) (i : Nat) (message : TlsMessage) : Prop :=
  ∃ pkt, packets[i]? = some pkt ∧ message ∈ frameMessages crates pkt

/-- The capture has `sealed i` in frame `i`, behind the handshake of its session, and the key
log has the secret of the session. -/
structure HoldsSessions (ciphers : TlsCiphers) (keylog : KeyLog) (packets : List PacketRecord)
    (sealed : Nat → Option SealedData) : Prop where
  data : ∀ i s, sealed i = some s → ∃ pkt, packets[i]? = some pkt ∧
    .applicationData s.blob ∈ frameMessages crates pkt ∧
      ∀ message ∈ frameMessages crates pkt, message.clientRandom? = none
  handshake : ∀ i s, sealed i = some s → ∃ hello reply, hello < reply ∧ reply < i ∧
    (∃ ext, SentAt crates packets hello (.handshake (.clientHello s.session.clientRandom ext))) ∧
      SentAt crates packets reply (.handshake (.serverHello s.session.serverRandom))
  secret : ∀ i s, sealed i = some s →
    keylog.masterSecret (hexBytes s.session.clientRandom) = .ok (some s.session.master)
  opens : ∀ i s, sealed i = some s → s.Opens ciphers

end

/-- Every frame of application data is opened to what its sender sealed. -/
def EachDecrypted (after : List PacketRecord) (sealed : Nat → Option SealedData) : Prop :=
  ∀ i s, sealed i = some s → ∃ pkt, after[i]? = some pkt ∧ pkt.decrypted = some s.plain

theorem clientRandomFrom_silent {crates : Crates} {fuel : Nat} {rest : Bytes}
    (silent : ∀ message ∈ recordMessages crates fuel rest, message.clientRandom? = none)
    {found : Option String} (walked : clientRandomFrom crates fuel rest = .ok found) :
    found = none := by
  induction fuel generalizing rest with
  | zero => cases walked
  | succ fuel ih =>
    unfold clientRandomFrom at walked
    unfold recordMessages at silent
    split at walked
    · cases walked
      rfl
    · next more =>
      rw [if_neg more] at silent
      cases parsed : crates.parseTlsPlaintext rest with
      | none =>
        rw [parsed] at walked
        cases walked
        rfl
      | some pair =>
        obtain ⟨remain, record⟩ := pair
        rw [parsed] at walked silent
        dsimp only at walked silent
        have here : record.msg.findSome? (·.clientRandom?) = none :=
          List.findSome?_eq_none_iff.mpr fun message member =>
            silent message (List.mem_append_left _ member)
        rw [here, ite_self] at walked
        exact ih (fun message member => silent message (List.mem_append_right _ member)) walked

theorem extractClientRandom_silent {crates : Crates} {pkt : PacketRecord}
    (silent : ∀ message ∈ frameMessages crates pkt, message.clientRandom? = none)
    {found : Option String} (walked : extractClientRandom crates pkt.data pkt.linkType = .ok found) :
    found = none := by
  unfold extractClientRandom at walked
  unfold frameMessages at silent
  cases tls : findTlsPayload pkt.data pkt.linkType with
  | error fault => rw [tls] at walked; cases walked
  | ok payload =>
    rw [tls] at walked silent
    cases payload with
    | none => cases walked; rfl
    | some payload => exact clientRandomFrom_silent silent walked

section

variable {crates : Crates} {ciphers : TlsCiphers}

/-- In a new state nothing is opened without a client hello in the frame itself. -/
theorem fresh_state_opens_nothing {keylog : KeyLog} {pkt : PacketRecord}
    (silent : ∀ message ∈ frameMessages crates pkt, message.clientRandom? = none)
    {out : DecryptOutcome} {state : DecryptState}
    (ran : decryptTlsInFrameExt crates ciphers keylog pkt.data pkt.linkType {} = .ok (out, state)) :
    out.plaintext = none := by
  unfold decryptTlsInFrameExt at ran
  cases tls : findTlsPayload pkt.data pkt.linkType with
  | error fault => rw [tls] at ran; cases ran
  | ok payload =>
    rw [tls, ok_bind] at ran
    cases payload with
    | none => cases ran; rfl
    | some payload =>
      dsimp only at ran
      cases walked : extractClientRandom crates pkt.data pkt.linkType with
      | error fault => rw [walked] at ran; cases ran
      | ok found =>
        rw [walked, extractClientRandom_silent silent walked] at ran
        cases ran
        rfl

/-- The dissector without a key log opens nothing. -/
theorem dissect_undecrypted {data : Bytes} {linkType : LinkType} {d : DissectedPacket}
    (ran : dissect crates data linkType = .ok d) : d.decrypted = none := by
  unfold dissect at ran
  obtain ⟨⟨result, s⟩, _, ran⟩ := ok_of_bind ran
  dsimp only at ran
  split at ran
  · cases ran
    rfl
  · obtain ⟨expert, _, ran⟩ := ok_of_bind ran
    obtain ⟨fields, _, ran⟩ := ok_of_bind ran
    cases ran
    rfl

theorem dissectWith_silent {keylog : KeyLog} {pkt : PacketRecord} {d : DissectedPacket}
    (silent : ∀ message ∈ frameMessages crates pkt, message.clientRandom? = none)
    (ran : dissectWith crates ciphers (some keylog) pkt.data pkt.linkType = .ok d) :
    d.decrypted = none := by
  obtain ⟨plain, read, ran⟩ := ok_of_bind ran
  have before := dissect_undecrypted read
  dsimp only at ran
  unfold decryptStage at ran
  split at ran
  · obtain ⟨⟨out, state⟩, tried, ran⟩ := ok_of_bind ran
    dsimp only at ran
    rw [fresh_state_opens_nothing silent tried] at ran
    cases ran
    exact before
  · cases ran
    exact before

theorem redigestAll_silent {keylog : KeyLog} {packets after : List PacketRecord}
    (ran : redigestAll crates ciphers (some keylog) packets = .ok after) {i : Nat}
    {pkt : PacketRecord} (found : packets[i]? = some pkt)
    (silent : ∀ message ∈ frameMessages crates pkt, message.clientRandom? = none) :
    ∃ again, after[i]? = some again ∧ again.decrypted = none := by
  obtain ⟨again, there, done⟩ := mapM_getElem? ran found
  obtain ⟨d, read, done⟩ := ok_of_bind done
  cases done
  exact ⟨_, there, dissectWith_silent silent read⟩

/-- In a capture of any number of sessions no frame of application data is opened, with all
the secrets in the key log, whether the packets are dissected as they come or all again. -/
theorem application_data_never_decrypted {keylog : KeyLog} {packets after : List PacketRecord}
    {sealed : Nat → Option SealedData}
    (holds : HoldsSessions crates ciphers keylog packets sealed)
    (some_data : ∃ i s, sealed i = some s)
    (ran : redigestAll crates ciphers (some keylog) packets = .ok after) :
    ¬ EachDecrypted after sealed ∧
      ∀ i s, sealed i = some s →
        (∃ pkt, after[i]? = some pkt ∧ pkt.decrypted = none) ∧
          ∀ pkt d, packets[i]? = some pkt →
            dissectWith crates ciphers (some keylog) pkt.data pkt.linkType = .ok d →
              d.decrypted = none := by
  have never : ∀ i s, sealed i = some s → ∃ pkt, after[i]? = some pkt ∧ pkt.decrypted = none := by
    intro i s here
    obtain ⟨pkt, found, _, silent⟩ := holds.data i s here
    exact redigestAll_silent ran found silent
  constructor
  · intro each
    obtain ⟨i, s, here⟩ := some_data
    obtain ⟨pkt, found, opened⟩ := each i s here
    obtain ⟨other, same, closed⟩ := never i s here
    rw [found] at same
    cases same
    rw [closed] at opened
    cases opened
  · intro i s here
    refine ⟨never i s here, fun pkt d there read => ?_⟩
    obtain ⟨found, same, _, silent⟩ := holds.data i s here
    rw [there] at same
    cases same
    exact dissectWith_silent silent read

end

/- One session: its hellos and a request, with a parser and a cipher that do the least. -/

/-- A parser of records with one message, whose hellos have their random behind six octets. -/
def parseOneMessage : Bytes → Option (Bytes × TlsRecord)
  | typ :: _ :: _ :: hi :: lo :: rest =>
    let n := hi.toNat * 256 + lo.toNat
    if rest.length < n then none
    else
      let body := rest.take n
      let random := span body 6 38
      let record : TlsRecord :=
        if typ = 0x17 then { recordType := .applicationData, msg := [.applicationData body] }
        else if body[0]? = some 1 then
          { recordType := .handshake, msg := [.handshake (.clientHello random none)] }
        else { recordType := .handshake, msg := [.handshake (.serverHello random)] }
      some (rest.drop n, record)
  | _ => none

def oneMessageCrates : Crates := { refusingCrates with parseTlsPlaintext := parseOneMessage }

/-- Keys of zeros and a cipher that leaves the buffer as it is. -/
def nullCiphers : TlsCiphers where
  prf _ _ _ n := ⟨List.replicate n 0, List.length_replicate⟩
  expandLabel _ _ _ := none
  openInPlace _ _ _ _ buffer := some buffer

/-- A record in a TCP segment over IPv4 on Ethernet. -/
def tlsFrame (typ : UInt8) (body : Bytes) : PacketRecord where
  linkType := .ethernet
  data := List.replicate 12 0 ++ [0x08, 0x00, 0x45, 0] ++ toBE 2 (45 + body.length) ++
    [0, 1, 0, 0, 64, 6, 0, 0, 10, 0, 0, 1, 10, 0, 0, 2] ++
    [0x01, 0xbb, 0x30, 0x39, 0, 0, 0, 1, 0, 0, 0, 1, 0x50, 0x18, 0xff, 0xff, 0, 0, 0, 0] ++
    [typ, 3, 3] ++ toBE 2 body.length ++ body

def helloOf (kind : UInt8) (random : Bytes) : PacketRecord :=
  tlsFrame 0x16 ([kind, 0, 0, 34, 3, 3] ++ random)

def demoSession : TlsSession where
  clientRandom := List.replicate 32 0x11
  serverRandom := List.replicate 32 0x22
  master := List.replicate 48 0x33

def demoData : SealedData where
  session := demoSession
  fromClient := true
  seq := 0
  keyLen := 16
  blob := List.replicate 8 0 ++ "GET / HTTP/1.1".toUTF8.toList ++ List.replicate 16 0
  plain := "GET / HTTP/1.1".toUTF8.toList

def demoKeyLog : KeyLog where
  clientRandom := [(hexBytes demoSession.clientRandom, hexBytes demoSession.master)]

def demoCapture : List PacketRecord :=
  [helloOf 1 demoSession.clientRandom, helloOf 2 demoSession.serverRandom,
    tlsFrame 0x17 demoData.blob]

def demoSealed (i : Nat) : Option SealedData := if i = 2 then some demoData else none

theorem demoCapture_holds :
    HoldsSessions oneMessageCrates nullCiphers demoKeyLog demoCapture demoSealed := by
  have only : ∀ i s, demoSealed i = some s → i = 2 ∧ s = demoData := by
    intro i s here
    unfold demoSealed at here
    split at here
    · next two => exact ⟨two, (Option.some.inj here).symm⟩
    · cases here
  constructor
  · intro i s here
    obtain ⟨rfl, rfl⟩ := only i s here
    exact ⟨_, rfl, by decide +kernel, by decide +kernel⟩
  · intro i s here
    obtain ⟨rfl, rfl⟩ := only i s here
    refine ⟨0, 1, by decide, by decide, ⟨none, _, rfl, ?_⟩, _, rfl, ?_⟩
    · decide +kernel
    · decide +kernel
  · intro i s here
    obtain ⟨rfl, rfl⟩ := only i s here
    decide +kernel
  · intro i s here
    obtain ⟨rfl, rfl⟩ := only i s here
    unfold SealedData.Opens
    decide +kernel

theorem demoCapture_redigested : ∃ after,
    redigestAll oneMessageCrates nullCiphers (some demoKeyLog) demoCapture = .ok after ∧
      after.map (·.decrypted) = [none, none, none] := by
  have closed : (redigestAll oneMessageCrates nullCiphers (some demoKeyLog) demoCapture).map
      (·.map (·.decrypted)) = .ok [none, none, none] := by
    decide +kernel
  cases ran : redigestAll oneMessageCrates nullCiphers (some demoKeyLog) demoCapture with
  | error fault => rw [ran] at closed; cases closed
  | ok after =>
    rw [ran] at closed
    exact ⟨after, rfl, Except.ok.inj closed⟩

theorem demo_request_stays_sealed : ∃ after,
    redigestAll oneMessageCrates nullCiphers (some demoKeyLog) demoCapture = .ok after ∧
      ¬ EachDecrypted after demoSealed := by
  obtain ⟨after, ran, _⟩ := demoCapture_redigested
  exact ⟨after, ran,
    (application_data_never_decrypted demoCapture_holds ⟨2, demoData, rfl⟩ ran).1⟩

/-- The request opens under the secret in the key log; no packet is opened. -/
theorem logged_secret_unused :
    HoldsSessions oneMessageCrates nullCiphers demoKeyLog demoCapture demoSealed ∧ ∃ after,
      redigestAll oneMessageCrates nullCiphers (some demoKeyLog) demoCapture = .ok after ∧
        ¬ EachDecrypted after demoSealed := by
  obtain ⟨after, ran, closed⟩ := demoCapture_redigested
  refine ⟨demoCapture_holds, after, ran, fun each => ?_⟩
  obtain ⟨pkt, found, opened⟩ := each 2 demoData rfl
  have third := congrArg (·[2]?) closed
  simp only [List.getElem?_map, found, Option.map_some, opened] at third
  cases third

end BitBeak
