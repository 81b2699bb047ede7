import BitBeak.Dissect.Crates
import BitBeak.Dissect.Utf8Text
import BitBeak.Lib.Cursor

/-! The server name a proxy reads from the ClientHello of a client it is about to answer with a
certificate of its own. -/
namespace BitBeak
open Wire

/-- The entries of a server name list from `i` on. -/
def serverNames (data : Bytes) : Nat → Nat → Except Fault (Option String)
  | 0, _ => .error .outOfFuel
  | fuel + 1, i => do
    if i + 3 ≤ data.length then
      let nameType ← byteAt data i
      let nameLen ← readBE data (i + 1) 2
      let i := i + 3
      if data.length < i + nameLen then return none
      else if nameType = 0 then return fromUtf8 (← slice data i (i + nameLen))
      else serverNames data fuel (i + nameLen)
    else return none

def parseServerNameExtension (data : Bytes) : Except Fault (Option String) :=
  if data.length < 5 then return none else serverNames data (data.length + 1) 2

/-- The extensions from `i` on, which stop at `stop`. -/
def helloExtensions (payload : Bytes) (stop : Nat) : Nat → Nat → Except Fault (Option String)
  | 0, _ => .error .outOfFuel
  | fuel + 1, i => do
    if i + 4 ≤ stop then
      let typ ← readBE payload i 2
      let len ← readBE payload (i + 2) 2
      let i := i + 4
      if stop < i + len then return none
      else if typ = 0 then parseServerNameExtension (← slice payload i (i + len))
      else helloExtensions payload stop fuel (i + len)
    else return none

/-- The handshake message of a ClientHello. -/
def sniOfHello (payload : Bytes) : Except Fault (Option String) := do
  if payload[0]? ≠ some 0x01 ∨ payload.length < 38 then return none
  else
    let i := 4 + 2 + 32
    if payload.length ≤ i then return none
    else
      let sessionLen := (← byteAt payload i).toNat
      let i := i + (1 + sessionLen)
      if payload.length < i + 2 then return none
      else
        let cipherLen ← readBE payload i 2
        let i := i + (2 + cipherLen)
        if payload.length ≤ i then return none
        else
          let compLen := (← byteAt payload i).toNat
          let i := i + (1 + compLen)
          if payload.length < i + 2 then return none
          else
            let extLen ← readBE payload i 2
            let i := i + 2
            helloExtensions payload (min (i + extLen) payload.length) (payload.length + 1) i

def parseSniFromClientHello (data : Bytes) : Except Fault (Option String) := do
  if 5 ≤ data.length ∧ data[0]? = some 0x16 then
    let len ← readBE data 3 2
    if data.length < 5 + len then return none
    else sniOfHello (← slice data 5 (5 + len))
  else sniOfHello data

/- Every read is inside, and every loop goes on. -/

theorem serverNames_ok {data : Bytes} {fuel i : Nat} (enough : data.length < i + fuel)
    (started : 0 < fuel) : ∃ found, serverNames data fuel i = .ok found := by
  induction fuel generalizing i with
  | zero => omega
  | succ fuel ih =>
    unfold serverNames
    split
    · rw [byteAt_ok (by omega), ok_bind, readBE_ok (by omega), ok_bind]
      dsimp only
      split
      · exact ⟨none, rfl⟩
      · next room =>
        split
        · rw [slice_ok (by omega) (by omega)]
          exact ⟨_, rfl⟩
        · exact ih (by omega) (by omega)
    · exact ⟨none, rfl⟩

theorem parseServerNameExtension_ok (data : Bytes) :
    ∃ found, parseServerNameExtension data = .ok found := by
  unfold parseServerNameExtension
  split
  · exact ⟨none, rfl⟩
  · exact serverNames_ok (by omega) (by omega)

theorem helloExtensions_ok {payload : Bytes} {stop fuel i : Nat} (inside : stop ≤ payload.length)
    (enough : payload.length < i + fuel) (started : 0 < fuel) :
    ∃ found, helloExtensions payload stop fuel i = .ok found := by
  induction fuel generalizing i with
  | zero => omega
  | succ fuel ih =>
    unfold helloExtensions
    split
    · rw [readBE_ok (by omega), ok_bind, readBE_ok (by omega), ok_bind]
      dsimp only
      split
      · exact ⟨none, rfl⟩
      · next room =>
        split
        · rw [slice_ok (by omega) (by omega), ok_bind]
          exact parseServerNameExtension_ok _
        · exact ih (by omega) (by omega)
    · exact ⟨none, rfl⟩

theorem sniOfHello_ok (payload : Bytes) : ∃ found, sniOfHello payload = .ok found := by
  unfold sniOfHello
  split
  · exact ⟨none, rfl⟩
  dsimp only
  split
  · exact ⟨none, rfl⟩
  rw [byteAt_ok (by omega), ok_bind]
  split
  · exact ⟨none, rfl⟩
  rw [readBE_ok (by omega), ok_bind]
  split
  · exact ⟨none, rfl⟩
  rw [byteAt_ok (by omega), ok_bind]
  split
  · exact ⟨none, rfl⟩
  rw [readBE_ok (by omega), ok_bind]
  exact helloExtensions_ok (by omega) (by omega) (by omega)

theorem parseSniFromClientHello_ok (data : Bytes) :
    ∃ found, parseSniFromClientHello data = .ok found := by
  unfold parseSniFromClientHello
  split
  · rw [readBE_ok (by omega), ok_bind]
    split
    · exact ⟨none, rfl⟩
    · rw [slice_ok (by omega) (by omega), ok_bind]
      exact sniOfHello_ok _
  · exact sniOfHello_ok data

/- A well-formed ClientHello. -/

/-- An entry of a server name list. -/
inductive ServerName where
  | hostName (name : String)
  | other (nameType : UInt8) (unlike : nameType ≠ 0) (name : Bytes)

namespace ServerName

def nameType : ServerName → UInt8
  | hostName _ => 0
  | other nameType _ _ => nameType

def bytes : ServerName → Bytes
  | hostName name => Utf8.encode name.toList
  | other _ _ name => name

def octets (name : ServerName) : Bytes :=
  name.nameType :: (toBE 2 name.bytes.length ++ name.bytes)

def host? : ServerName → Option String
  | hostName name => some name
  | other _ _ _ => none

end ServerName

inductive HelloExtension where
  | serverName (names : List ServerName)
  | other (typ : UInt16) (unlike : typ ≠ 0) (data : Bytes)

namespace HelloExtension

def typ : HelloExtension → UInt16
  | serverName _ => 0
  | other typ _ _ => typ

def body : HelloExtension → Bytes
  | serverName names =>
    let list := names.flatMap ServerName.octets
    toBE 2 list.length ++ list
  | other _ _ data => data

def octets (ext : HelloExtension) : Bytes :=
  toBE 2 ext.typ.toNat ++ (toBE 2 ext.body.length ++ ext.body)

def names? : HelloExtension → Option (List ServerName)
  | serverName names => some names
  | other _ _ _ => none

end HelloExtension

/-- The fields of the message. Old clients send no extensions. -/
structure HelloFields where
  version : Octets 2
  random : Octets 32
  sessionId : Bytes
  cipherSuites : List UInt16
  compressionMethods : Bytes
  extensions : Option (List HelloExtension)

namespace HelloFields

def extensionOctets (hello : HelloFields) : Bytes :=
  match hello.extensions with
  | none => []
  | some exts =>
    let list := exts.flatMap HelloExtension.octets
    toBE 2 list.length ++ list

def body (hello : HelloFields) : Bytes :=
  let suites := hello.cipherSuites.flatMap fun suite => toBE 2 suite.toNat
  hello.version.val ++ (hello.random.val ++ (UInt8.ofNat hello.sessionId.length ::
    (hello.sessionId ++ (toBE 2 suites.length ++ (suites ++
      (UInt8.ofNat hello.compressionMethods.length ::
        (hello.compressionMethods ++ hello.extensionOctets)))))))

/-- The handshake message: type, length and body. -/
def message (hello : HelloFields) : Bytes := 0x01 :: (toBE 3 hello.body.length ++ hello.body)

/-- The name the client asks for: the host name in its server name extension. -/
def hostName (hello : HelloFields) : Option String :=
  ((hello.extensions.getD []).findSome? HelloExtension.names?).bind
    fun names => names.findSome? ServerName.host?

end HelloFields

/-- A ClientHello whose parts fit their length fields and which fits one record. No extension
is there twice, and no name type. -/
structure ClientHello extends HelloFields where
  session : sessionId.length ≤ 32
  suites : 0 < cipherSuites.length
  compression : 0 < compressionMethods.length ∧ compressionMethods.length < 2 ^ 8
  types : ((extensions.getD []).map HelloExtension.typ).Nodup
  names : ∀ ext ∈ extensions.getD [], ∀ list, ext.names? = some list →
    list ≠ [] ∧ (list.map ServerName.nameType).Nodup
  fits : toHelloFields.message.length < 2 ^ 16

/-- The record of the handshake protocol with the message. -/
def ClientHello.record (hello : ClientHello) (version : Octets 2) : Bytes :=
  0x16 :: (version.val ++ (toBE 2 hello.message.length ++ hello.message))

/- The walk over the names of a list, then over the extensions. -/

theorem ServerName.length_octets (name : ServerName) :
    name.octets.length = 3 + name.bytes.length := by
  simp only [octets, List.length_cons, List.length_append, length_toBE]
  omega

theorem HelloExtension.length_octets (ext : HelloExtension) :
    ext.octets.length = 4 + ext.body.length := by
  simp only [octets, List.length_append, length_toBE]
  omega

theorem serverNames_walk {names : List ServerName} {fuel : Nat} (front : Bytes)
    (small : (names.flatMap ServerName.octets).length < 2 ^ 16) (enough : names.length < fuel) :
    serverNames (front ++ names.flatMap ServerName.octets) fuel front.length =
      .ok (names.findSome? ServerName.host?) := by
  induction names generalizing fuel front with
  | nil =>
    obtain ⟨fuel, rfl⟩ : ∃ less, fuel = less + 1 := ⟨fuel - 1, by omega⟩
    rw [List.flatMap_nil, List.append_nil, serverNames, if_neg (by omega)]
    rfl
  | cons name names ih =>
    obtain ⟨fuel, rfl⟩ : ∃ less, fuel = less + 1 := ⟨fuel - 1, by omega⟩
    rw [List.flatMap_cons] at small ⊢
    have width := name.length_octets
    rw [List.length_append] at small
    rw [List.length_cons] at enough
    have atType : front ++ (name.octets ++ names.flatMap ServerName.octets) =
        front ++ name.nameType :: (toBE 2 name.bytes.length ++
          (name.bytes ++ names.flatMap ServerName.octets)) := by
      simp only [ServerName.octets, List.cons_append, List.append_assoc]
    have atLen : front ++ (name.octets ++ names.flatMap ServerName.octets) =
        (front ++ [name.nameType]) ++ (toBE 2 name.bytes.length ++
          (name.bytes ++ names.flatMap ServerName.octets)) := by
      simp only [ServerName.octets, List.cons_append, List.append_assoc, List.nil_append]
    have atBytes : front ++ (name.octets ++ names.flatMap ServerName.octets) =
        (front ++ name.nameType :: toBE 2 name.bytes.length) ++
          (name.bytes ++ names.flatMap ServerName.octets) := by
      simp only [ServerName.octets, List.cons_append, List.append_assoc]
    have next : front ++ (name.octets ++ names.flatMap ServerName.octets) =
        (front ++ name.octets) ++ names.flatMap ServerName.octets := by
      rw [List.append_assoc]
    have size : (front ++ (name.octets ++ names.flatMap ServerName.octets)).length =
        front.length + 3 + name.bytes.length + (names.flatMap ServerName.octets).length := by
      simp only [List.length_append]
      omega
    have readType : byteAt (front ++ (name.octets ++ names.flatMap ServerName.octets))
        front.length = .ok name.nameType := by
      rw [atType, byteAt_here _ rfl]
    have readLen : readBE (front ++ (name.octets ++ names.flatMap ServerName.octets))
        (front.length + 1) 2 = .ok name.bytes.length := by
      rw [atLen, readBE_here (by omega) (by simp)]
    have readBytes : slice (front ++ (name.octets ++ names.flatMap ServerName.octets))
        (front.length + 3) (front.length + 3 + name.bytes.length) = .ok name.bytes := by
      rw [atBytes, slice_here (by simp) rfl]
    rw [serverNames, if_pos (by omega), readType, ok_bind, readLen, ok_bind]
    dsimp only
    rw [if_neg (by omega)]
    cases name with
    | hostName host =>
      have zero : (ServerName.hostName host).nameType = 0 := rfl
      rw [if_pos zero, readBytes]
      change Except.ok (fromUtf8 (Utf8.encode host.toList)) = _
      rw [fromUtf8_encode, String.ofList_toList]
      rfl
    | other nameType unlike name =>
      have apart : (ServerName.other nameType unlike name).nameType ≠ 0 := unlike
      rw [if_neg apart, next]
      have place : front.length + 3 + (ServerName.other nameType unlike name).bytes.length =
          (front ++ (ServerName.other nameType unlike name).octets).length := by
        rw [List.length_append, width]
        omega
      rw [place, ih _ (by omega) (by omega)]
      rfl

theorem length_le_flatMap {α : Type} {f : α → Bytes} {xs : List α} (some : ∀ x, 0 < (f x).length) :
    xs.length ≤ (xs.flatMap f).length := by
  induction xs with
  | nil => exact Nat.zero_le _
  | cons x xs ih =>
    have first := some x
    rw [List.length_cons, List.flatMap_cons, List.length_append]
    omega

/-- The list behind its length. -/
theorem parseServerNameExtension_body {names : List ServerName}
    (small : (HelloExtension.serverName names).body.length < 2 ^ 16) :
    parseServerNameExtension (HelloExtension.serverName names).body =
      .ok (names.findSome? ServerName.host?) := by
  have width : (HelloExtension.serverName names).body.length =
      2 + (names.flatMap ServerName.octets).length := by
    simp only [HelloExtension.body, List.length_append, length_toBE]
  have count : names.length ≤ (names.flatMap ServerName.octets).length :=
    length_le_flatMap fun name => by
      rw [ServerName.length_octets]
      omega
  unfold parseServerNameExtension
  split
  · next short =>
    cases names with
    | nil => rfl
    | cons name names =>
      rw [List.flatMap_cons, List.length_append, name.length_octets] at width
      omega
  · have front : (toBE 2 (names.flatMap ServerName.octets).length).length = 2 := length_toBE _ _
    have walked := @serverNames_walk names ((HelloExtension.serverName names).body.length + 1)
      (toBE 2 (names.flatMap ServerName.octets).length) (by omega) (by omega)
    rw [front] at walked
    exact walked

theorem helloExtensions_walk {exts : List HelloExtension} {fuel stop : Nat} (front : Bytes)
    (small : (exts.flatMap HelloExtension.octets).length < 2 ^ 16) (enough : exts.length < fuel)
    (all : stop = front.length + (exts.flatMap HelloExtension.octets).length) :
    helloExtensions (front ++ exts.flatMap HelloExtension.octets) stop fuel front.length =
      .ok ((exts.findSome? HelloExtension.names?).bind
        fun names => names.findSome? ServerName.host?) := by
  induction exts generalizing fuel front with
  | nil =>
    obtain ⟨fuel, rfl⟩ : ∃ less, fuel = less + 1 := ⟨fuel - 1, by omega⟩
    rw [List.flatMap_nil, List.length_nil] at all
    rw [helloExtensions, if_neg (by omega)]
    rfl
  | cons ext exts ih =>
    obtain ⟨fuel, rfl⟩ : ∃ less, fuel = less + 1 := ⟨fuel - 1, by omega⟩
    rw [List.flatMap_cons] at small all ⊢
    have width := ext.length_octets
    rw [List.length_append] at small all
    rw [List.length_cons] at enough
    have atType : front ++ (ext.octets ++ exts.flatMap HelloExtension.octets) =
        front ++ (toBE 2 ext.typ.toNat ++ (toBE 2 ext.body.length ++
          (ext.body ++ exts.flatMap HelloExtension.octets))) := by
      simp only [HelloExtension.octets, List.append_assoc]
    have atLen : front ++ (ext.octets ++ exts.flatMap HelloExtension.octets) =
        (front ++ toBE 2 ext.typ.toNat) ++ (toBE 2 ext.body.length ++
          (ext.body ++ exts.flatMap HelloExtension.octets)) := by
      simp only [HelloExtension.octets, List.append_assoc]
    have atBody : front ++ (ext.octets ++ exts.flatMap HelloExtension.octets) =
        (front ++ (toBE 2 ext.typ.toNat ++ toBE 2 ext.body.length)) ++
          (ext.body ++ exts.flatMap HelloExtension.octets) := by
      simp only [HelloExtension.octets, List.append_assoc]
    have next : front ++ (ext.octets ++ exts.flatMap HelloExtension.octets) =
        (front ++ ext.octets) ++ exts.flatMap HelloExtension.octets := by
      rw [List.append_assoc]
    have readType : readBE (front ++ (ext.octets ++ exts.flatMap HelloExtension.octets))
        front.length 2 = .ok ext.typ.toNat := by
      rw [atType, readBE_here ext.typ.toNat_lt rfl]
    have readLen : readBE (front ++ (ext.octets ++ exts.flatMap HelloExtension.octets))
        (front.length + 2) 2 = .ok ext.body.length := by
      rw [atLen, readBE_here (by omega) (by simp)]
    have readBody : slice (front ++ (ext.octets ++ exts.flatMap HelloExtension.octets))
        (front.length + 4) (front.length + 4 + ext.body.length) = .ok ext.body := by
      rw [atBody, slice_here (by simp) rfl]
    rw [helloExtensions, if_pos (by omega), readType, ok_bind, readLen, ok_bind]
    dsimp only
    rw [if_neg (by omega)]
    cases ext with
    | serverName names =>
      have zero : (HelloExtension.serverName names).typ.toNat = 0 := rfl
      rw [if_pos zero, readBody, ok_bind, parseServerNameExtension_body (by omega)]
      rfl
    | other typ unlike data =>
      have apart : (HelloExtension.other typ unlike data).typ.toNat ≠ 0 :=
        fun zero => unlike (UInt16.toNat_inj.mp zero)
      have place : front.length + 4 + (HelloExtension.other typ unlike data).body.length =
          (front ++ (HelloExtension.other typ unlike data).octets).length := by
        rw [List.length_append, width]
        omega
      rw [if_neg apart, next, place, ih _ (by omega) (by omega) (by rw [List.length_append]; omega)]
      rfl

/- The message. -/

section

variable (hello : ClientHello)

/-- The fixed part of the message: type, length, version and random. -/
def HelloFields.opening (hello : HelloFields) : Bytes :=
  0x01 :: (toBE 3 hello.body.length ++ (hello.version.val ++ hello.random.val))

def HelloFields.suiteOctets (hello : HelloFields) : Bytes :=
  hello.cipherSuites.flatMap fun suite => toBE 2 suite.toNat

theorem HelloFields.length_opening (hello : HelloFields) : hello.opening.length = 38 := by
  simp only [opening, List.length_cons, List.length_append, length_toBE, hello.version.property,
    hello.random.property]

theorem HelloFields.message_parts (hello : HelloFields) : hello.message =
    hello.opening ++ (UInt8.ofNat hello.sessionId.length :: (hello.sessionId ++
      (toBE 2 hello.suiteOctets.length ++ (hello.suiteOctets ++
        (UInt8.ofNat hello.compressionMethods.length ::
          (hello.compressionMethods ++ hello.extensionOctets)))))) := by
  simp only [message, opening, body, suiteOctets, List.cons_append, List.append_assoc]

/-- The message up to its extensions. -/
def HelloFields.head (hello : HelloFields) : Bytes :=
  hello.opening ++ (UInt8.ofNat hello.sessionId.length :: (hello.sessionId ++
    (toBE 2 hello.suiteOctets.length ++ (hello.suiteOctets ++
      (UInt8.ofNat hello.compressionMethods.length :: hello.compressionMethods)))))

theorem HelloFields.message_head (hello : HelloFields) :
    hello.message = hello.head ++ hello.extensionOctets := by
  rw [message_parts]
  simp only [head, List.cons_append, List.append_assoc]

theorem HelloFields.length_head (hello : HelloFields) : hello.head.length =
    38 + (1 + hello.sessionId.length) + (2 + hello.suiteOctets.length) +
      (1 + hello.compressionMethods.length) := by
  simp only [head, List.length_append, List.length_cons, length_toBE, length_opening]
  omega

/-- The reader goes over the head by the lengths that stand in it. -/
theorem sniOfHello_head : sniOfHello hello.message =
    if hello.message.length < hello.head.length + 2 then .ok none
    else (do
      let extLen ← readBE hello.message hello.head.length 2
      let i := hello.head.length + 2
      helloExtensions hello.message (min (i + extLen) hello.message.length)
        (hello.message.length + 1) i) := by
  have parts := hello.message_parts
  have width := congrArg List.length hello.message_head
  rw [List.length_append, hello.length_head] at width
  have opening := hello.length_opening
  have session := hello.session
  have compression := hello.compression.2
  have fits := hello.fits
  have first : hello.message[0]? = some 0x01 := rfl
  have readSession : byteAt hello.message 38 = .ok (UInt8.ofNat hello.sessionId.length) := by
    rw [parts, byteAt_here _ opening.symm]
  have sessionLen : (UInt8.ofNat hello.sessionId.length).toNat = hello.sessionId.length := by
    rw [UInt8.toNat_ofNat', Nat.mod_eq_of_lt (by omega)]
  have readSuites : readBE hello.message (38 + (1 + hello.sessionId.length)) 2 =
      .ok hello.suiteOctets.length := by
    have front : hello.message =
        (hello.opening ++ UInt8.ofNat hello.sessionId.length :: hello.sessionId) ++
          (toBE 2 hello.suiteOctets.length ++ (hello.suiteOctets ++
            (UInt8.ofNat hello.compressionMethods.length ::
              (hello.compressionMethods ++ hello.extensionOctets)))) := by
      rw [parts]
      simp only [List.cons_append, List.append_assoc]
    rw [front, readBE_here (by omega)]
    simp only [List.length_append, List.length_cons, opening]
    omega
  have readMethods : byteAt hello.message
      (38 + (1 + hello.sessionId.length) + (2 + hello.suiteOctets.length)) =
        .ok (UInt8.ofNat hello.compressionMethods.length) := by
    have front : hello.message =
        (hello.opening ++ (UInt8.ofNat hello.sessionId.length :: hello.sessionId ++
          (toBE 2 hello.suiteOctets.length ++ hello.suiteOctets))) ++
            UInt8.ofNat hello.compressionMethods.length ::
              (hello.compressionMethods ++ hello.extensionOctets) := by
      rw [parts]
      simp only [List.cons_append, List.append_assoc]
    rw [front, byteAt_here]
    simp only [List.length_append, List.length_cons, length_toBE, opening]
    omega
  have methodsLen : (UInt8.ofNat hello.compressionMethods.length).toNat =
      hello.compressionMethods.length := by
    rw [UInt8.toNat_ofNat', Nat.mod_eq_of_lt (by omega)]
  rw [sniOfHello, if_neg (by rw [first]; simp; omega)]
  dsimp only
  rw [if_neg (by omega), readSession, ok_bind, sessionLen, if_neg (by omega), readSuites, ok_bind,
    if_neg (by omega), readMethods, ok_bind, methodsLen, ← hello.length_head]
  rfl

theorem sniOfHello_message : sniOfHello hello.message = .ok hello.hostName := by
  have parts := hello.message_head
  have fits := hello.fits
  have width := congrArg List.length parts
  rw [List.length_append] at width
  rw [sniOfHello_head]
  cases extensions : hello.extensions with
  | none =>
    have none_sent : hello.extensionOctets = [] := by
      rw [HelloFields.extensionOctets, extensions]
    rw [none_sent, List.length_nil] at width
    rw [if_pos (by omega), HelloFields.hostName, extensions]
    rfl
  | some exts =>
    have sent : hello.extensionOctets = toBE 2 (exts.flatMap HelloExtension.octets).length ++
        exts.flatMap HelloExtension.octets := by
      rw [HelloFields.extensionOctets, extensions]
    have sentLen := congrArg List.length sent
    rw [List.length_append, length_toBE] at sentLen
    rw [sent] at parts
    have readLen : readBE hello.message hello.head.length 2 =
        .ok (exts.flatMap HelloExtension.octets).length := by
      rw [parts, readBE_here (by omega) rfl]
    have behind : hello.head.length + 2 =
        (hello.head ++ toBE 2 (exts.flatMap HelloExtension.octets).length).length := by
      rw [List.length_append, length_toBE]
    have count : exts.length ≤ (exts.flatMap HelloExtension.octets).length :=
      length_le_flatMap fun ext => by
        rw [HelloExtension.length_octets]
        omega
    have stop : min (hello.head.length + 2 + (exts.flatMap HelloExtension.octets).length)
        hello.message.length =
          (hello.head ++ toBE 2 (exts.flatMap HelloExtension.octets).length).length +
            (exts.flatMap HelloExtension.octets).length := by
      rw [← behind]
      omega
    have walked := @helloExtensions_walk exts (hello.message.length + 1) _
      (hello.head ++ toBE 2 (exts.flatMap HelloExtension.octets).length) (by omega) (by omega) stop
    rw [List.append_assoc, ← parts, ← behind] at walked
    rw [if_neg (by omega), readLen, ok_bind, walked, HelloFields.hostName, extensions]
    rfl

end

/-- On every input the reader ends without a read outside of it, and it finds the host name of
every well-formed ClientHello, or that it has none, whatever follows the record. -/
theorem parseSni_total_and_exact :
    (∀ data, ∃ found, parseSniFromClientHello data = .ok found) ∧
      ∀ (hello : ClientHello) (version : Octets 2) (rest : Bytes),
        parseSniFromClientHello (hello.record version ++ rest) = .ok hello.hostName := by
  refine ⟨parseSniFromClientHello_ok, ?_⟩
  intro hello version rest
  have fits := hello.fits
  have shape : hello.record version ++ rest = (0x16 :: version.val) ++
      (toBE 2 hello.message.length ++ (hello.message ++ rest)) := by
    simp only [ClientHello.record, List.cons_append, List.append_assoc]
  have body : hello.record version ++ rest =
      (0x16 :: (version.val ++ toBE 2 hello.message.length)) ++ (hello.message ++ rest) := by
    simp only [ClientHello.record, List.cons_append, List.append_assoc]
  have front : (0x16 :: version.val).length = 3 := by
    rw [List.length_cons, version.property]
  have front' : (0x16 :: (version.val ++ toBE 2 hello.message.length)).length = 5 := by
    rw [List.length_cons, List.length_append, version.property, length_toBE]
  have width : (hello.record version ++ rest).length = 5 + hello.message.length + rest.length := by
    rw [body, List.length_append, List.length_append, front']
    omega
  have readLen : readBE (hello.record version ++ rest) 3 2 = .ok hello.message.length := by
    rw [shape, readBE_here (by omega) front.symm]
  have readBody : slice (hello.record version ++ rest) 5 (5 + hello.message.length) =
      .ok hello.message := by
    rw [body, slice_here front'.symm rfl]
  rw [parseSniFromClientHello, if_pos ⟨by omega, rfl⟩, readLen, ok_bind, if_neg (by omega),
    readBody, ok_bind, sniOfHello_message]

end BitBeak
