import BitBeak.Dissect.Text

/-! The client of a remote capture: packet messages read from a socket that does not block.
A read that finds too little gives up what it has got. -/
namespace BitBeak.Rpcap
open Wire

/-- What has still to be read, in the order in which it arrives: octets, and nothing wherever
a read meets an empty socket. Behind the end a read always does. -/
abbrev Socket := List (Option UInt8)

/-- `read_exact`: it takes what is there piece by piece until there is enough. What it took
before it meets an empty socket is lost. -/
def readExact : Nat → Socket → Option Bytes × Socket
  | 0, s => (some [], s)
  | _ + 1, [] => (none, [])
  | _ + 1, none :: s => (none, s)
  | n + 1, some b :: s => ((readExact n s).1.map (b :: ·), (readExact n s).2)

def MSG_ERROR : Nat := 1
def MSG_PACKET : Nat := 7

structure RpcapHeader where
  version : Nat
  typ : Nat
  value : Nat
  plen : Nat
  deriving DecidableEq, Repr

def parseHeader (buf : Bytes) : Option RpcapHeader :=
  if buf.length < 8 then none
  else some { version := beAt buf 0 1, typ := beAt buf 1 1, value := beAt buf 2 2,
              plen := beAt buf 4 4 }

def encodeHeader (typ value plen : Nat) : Bytes :=
  toBE 1 0 ++ (toBE 1 typ ++ (toBE 2 value ++ toBE 4 plen))

/-- `wouldBlock` stands for the two kinds of an empty socket. -/
inductive RpcapError where
  | wouldBlock
  | message (text : String)
  deriving DecidableEq, Repr

def readMsg (s : Socket) : Except RpcapError (RpcapHeader × Bytes) × Socket :=
  match readExact 8 s with
  | (none, s) => (.error .wouldBlock, s)
  | (some hdr, s) =>
    match parseHeader hdr with
    | none => (.error (.message "bad rpcap hdr"), s)
    | some h =>
      if 16 * 1024 * 1024 < h.plen then (.error (.message "rpcap plen too large"), s)
      else
        match if 0 < h.plen then readExact h.plen s else (some [], s) with
        | (none, s) => (.error .wouldBlock, s)
        | (some body, s) =>
          if h.typ = MSG_ERROR then
            (.error (.message ("rpcap error: " ++ fromUtf8Lossy body)), s)
          else (.ok (h, body), s)

structure CapturePacket where
  data : Bytes
  linkType : LinkType
  iface : String
  origLen : Nat
  deriving DecidableEq, Repr

/-- Seconds, microseconds, captured length, length and number of the packet, and the packet; or
else the packet is all there is. -/
def parsePacketBody (body : Bytes) : Except RpcapError CapturePacket :=
  let whole : Except RpcapError CapturePacket :=
    if body = [] then .error (.message "empty rpcap packet")
    else .ok { data := body, linkType := .ethernet, iface := "rpcap",
               origLen := body.length % 2 ^ 32 }
  if 20 ≤ body.length then
    let caplen := beAt body 8 4
    if 20 + caplen ≤ body.length then
      .ok { data := span body 20 (20 + caplen), linkType := .ethernet, iface := "rpcap",
            origLen := max (beAt body 12 4) caplen }
    else whole
  else whole

structure RpcapCapture where
  data : Socket
  iface : String
  linkType : LinkType
  deriving DecidableEq, Repr

def nextPacket (cap : RpcapCapture) : Except RpcapError (Option CapturePacket) × RpcapCapture :=
  match readMsg cap.data with
  | (.ok (h, body), s) =>
    let cap := { cap with data := s }
    if h.typ = MSG_PACKET ∨ h.typ = MSG_PACKET + 0x80 ∨ body ≠ [] then
      match parsePacketBody body with
      | .ok pkt => (.ok (some { pkt with iface := cap.iface, linkType := cap.linkType }), cap)
      | .error e => (.error e, cap)
    else (.ok none, cap)
  | (.error .wouldBlock, s) => (.ok none, { cap with data := s })
  | (.error (.message text), s) =>
    let cap := { cap with data := s }
    if hasText text "WouldBlock" ∨ hasText text "timed out" ∨ hasText text "Timeout" then
      (.ok none, cap)
    else (.error (.message text), cap)

/-- The packets that the capture loop gets from so many calls. After an error it calls again. -/
def packets : Nat → RpcapCapture → List CapturePacket
  | 0, _ => []
  | calls + 1, cap =>
    match nextPacket cap with
    | (.ok (some pkt), cap) => pkt :: packets calls cap
    | (_, cap) => packets calls cap

/- Packet messages. -/

/-- A message of a packet that a server sends. -/
structure PacketMessage where
  value : UInt16
  sec : UInt32
  usec : UInt32
  len : UInt32
  npkt : UInt32
  data : Bytes
  fits : 20 + data.length ≤ 16 * 1024 * 1024

namespace PacketMessage

def body (m : PacketMessage) : Bytes :=
  toBE 4 m.sec.toNat ++ (toBE 4 m.usec.toNat ++ (toBE 4 m.data.length ++
    (toBE 4 m.len.toNat ++ (toBE 4 m.npkt.toNat ++ m.data))))

def encode (m : PacketMessage) : Bytes :=
  encodeHeader MSG_PACKET m.value.toNat m.body.length ++ m.body

def packet (cap : RpcapCapture) (m : PacketMessage) : CapturePacket where
  data := m.data
  linkType := cap.linkType
  iface := cap.iface
  origLen := max m.len.toNat m.data.length

end PacketMessage

def stream (msgs : List PacketMessage) : Bytes := msgs.flatMap PacketMessage.encode

/-- The octets in a socket. -/
def arrived (s : Socket) : Bytes := s.filterMap id

/-- From some number of calls on, the capture gets the packets that it gets when all the
messages are there at once. -/
def Delivers (cap : RpcapCapture) (msgs : List PacketMessage) : Prop :=
  ∃ enough, ∀ calls, enough ≤ calls →
    packets calls cap = packets calls { cap with data := (stream msgs).map some }

/-- Reads meet an empty socket between messages only. -/
def BetweenMessages (s : Socket) (msgs : List PacketMessage) : Prop :=
  ∀ front behind, s = front ++ none :: behind → ∃ done, done <+: msgs ∧ arrived front = stream done

/- Reads. -/

@[simp] theorem arrived_some (bs : Bytes) (s : Socket) :
    arrived (bs.map some ++ s) = bs ++ arrived s := by
  rw [arrived, List.filterMap_append, List.filterMap_map]
  exact congrArg (· ++ arrived s) List.filterMap_some

@[simp] theorem arrived_none (s : Socket) : arrived (none :: s) = arrived s := rfl

theorem readExact_some (bs : Bytes) (s : Socket) :
    readExact bs.length (bs.map some ++ s) = (some bs, s) := by
  induction bs with
  | nil => rfl
  | cons b bs ih =>
    rw [List.length_cons, List.map_cons, List.cons_append, readExact, ih]
    rfl

/-- What was read in front of an empty socket is lost. -/
theorem readExact_none {n : Nat} {bs : Bytes} (short : bs.length < n) (s : Socket) :
    readExact n (bs.map some ++ none :: s) = (none, s) := by
  induction bs generalizing n with
  | nil =>
    obtain ⟨n, rfl⟩ : ∃ k, n = k + 1 := ⟨n - 1, by simp at short; omega⟩
    rfl
  | cons b bs ih =>
    obtain ⟨n, rfl⟩ : ∃ k, n = k + 1 := ⟨n - 1, by simp at short; omega⟩
    rw [List.map_cons, List.cons_append, readExact, ih (by simpa using short)]
    rfl

theorem beAt_toBE_middle {k n : Nat} {front back : Bytes} (small : n < 256 ^ k) {i : Nat}
    (start : i = front.length) : beAt (front ++ (toBE k n ++ back)) i k = n := by
  rw [start, beAt_append_right (Nat.le_refl _), Nat.sub_self, beAt_toBE small]

theorem parseHeader_encode {typ value plen : Nat} (t : typ < 256) (v : value < 256 ^ 2)
    (p : plen < 256 ^ 4) : parseHeader (encodeHeader typ value plen)
      = some { version := 0, typ := typ, value := value, plen := plen } := by
  have version : beAt (encodeHeader typ value plen) 0 1 = 0 := beAt_toBE (by decide)
  have kind : beAt (encodeHeader typ value plen) 1 1 = typ :=
    beAt_toBE_middle t (length_toBE 1 0).symm
  have rest : encodeHeader typ value plen
      = (toBE 1 0 ++ toBE 1 typ) ++ (toBE 2 value ++ toBE 4 plen) := (List.append_assoc ..).symm
  have amount : beAt (encodeHeader typ value plen) 2 2 = value := by
    rw [rest]
    exact beAt_toBE_middle v (by simp)
  have last : encodeHeader typ value plen
      = (toBE 1 0 ++ (toBE 1 typ ++ toBE 2 value)) ++ (toBE 4 plen ++ []) := by
    simp [encodeHeader]
  have length : beAt (encodeHeader typ value plen) 4 4 = plen := by
    rw [last]
    exact beAt_toBE_middle p (by simp)
  have enough : (encodeHeader typ value plen).length = 8 := by simp [encodeHeader]
  rw [parseHeader, if_neg (by omega), version, kind, amount, length]

theorem length_encodeHeader (typ value plen : Nat) : (encodeHeader typ value plen).length = 8 := by
  simp [encodeHeader]

theorem readMsg_body {hdr body : Bytes} {h : RpcapHeader} (read : parseHeader hdr = some h)
    (eight : hdr.length = 8) (plen : h.plen = body.length)
    (small : h.plen ≤ 16 * 1024 * 1024) (good : h.typ ≠ MSG_ERROR) (s : Socket) :
    readMsg ((hdr ++ body).map some ++ s) = (.ok (h, body), s) := by
  have first : readExact 8 ((hdr ++ body).map some ++ s) = (some hdr, body.map some ++ s) := by
    rw [← eight, List.map_append, List.append_assoc, readExact_some]
  have second : (if 0 < h.plen then readExact h.plen (body.map some ++ s)
      else (some [], body.map some ++ s)) = (some body, s) := by
    rw [plen, readExact_some]
    split
    · rfl
    · next none =>
      obtain rfl : body = [] := List.length_eq_zero_iff.mp (by omega)
      rfl
  rw [readMsg, first]
  dsimp only
  rw [read]
  dsimp only
  rw [if_neg (by omega), second]
  dsimp only
  rw [if_neg good]

theorem readMsg_cut {hdr body front : Bytes} {h : RpcapHeader} (read : parseHeader hdr = some h)
    (eight : hdr.length = 8) (plen : h.plen = body.length)
    (small : h.plen ≤ 16 * 1024 * 1024) (begun : front <+: hdr ++ body)
    (short : front.length < (hdr ++ body).length) (s : Socket) :
    readMsg (front.map some ++ none :: s) = (.error .wouldBlock, s) := by
  rw [readMsg]
  by_cases header : front.length < 8
  · rw [readExact_none header]
  · obtain ⟨part, rfl⟩ : hdr <+: front :=
      List.prefix_of_prefix_length_le (List.prefix_append _ _) begun (by omega)
    rw [List.length_append, List.length_append] at short
    have first : readExact 8 ((hdr ++ part).map some ++ none :: s)
        = (some hdr, part.map some ++ none :: s) := by
      rw [← eight, List.map_append, List.append_assoc, readExact_some]
    rw [first]
    dsimp only
    rw [read]
    dsimp only
    rw [if_neg (by omega), if_pos (by omega), readExact_none (by omega)]

namespace PacketMessage

variable (m : PacketMessage)

theorem length_body : m.body.length = 20 + m.data.length := by
  simp only [body, List.length_append, length_toBE]
  omega

theorem length_encode : m.encode.length = 28 + m.data.length := by
  rw [encode, List.length_append, length_encodeHeader, length_body]
  omega

theorem parseHeader_encode : parseHeader (encodeHeader MSG_PACKET m.value.toNat m.body.length)
    = some { version := 0, typ := MSG_PACKET, value := m.value.toNat, plen := m.body.length } := by
  have fits := m.fits
  have length := m.length_body
  exact Rpcap.parseHeader_encode (by decide) m.value.toNat_lt (by omega)

theorem parsePacketBody_body : parsePacketBody m.body = .ok {
    data := m.data, linkType := .ethernet, iface := "rpcap"
    origLen := max m.len.toNat m.data.length } := by
  have fits := m.fits
  have length := m.length_body
  have caplen : beAt m.body 8 4 = m.data.length := by
    have whole : m.body = (toBE 4 m.sec.toNat ++ toBE 4 m.usec.toNat) ++
        (toBE 4 m.data.length ++ (toBE 4 m.len.toNat ++ (toBE 4 m.npkt.toNat ++ m.data))) :=
      (List.append_assoc ..).symm
    rw [whole]
    exact beAt_toBE_middle (by omega) (by simp)
  have len : beAt m.body 12 4 = m.len.toNat := by
    have whole : m.body = (toBE 4 m.sec.toNat ++ (toBE 4 m.usec.toNat ++ toBE 4 m.data.length)) ++
        (toBE 4 m.len.toNat ++ (toBE 4 m.npkt.toNat ++ m.data)) := by
      simp [body]
    rw [whole]
    exact beAt_toBE_middle m.len.toNat_lt (by simp)
  have data : span m.body 20 (20 + m.data.length) = m.data := by
    have whole : m.body = (toBE 4 m.sec.toNat ++ (toBE 4 m.usec.toNat ++ (toBE 4 m.data.length ++
        (toBE 4 m.len.toNat ++ toBE 4 m.npkt.toNat)))) ++ (m.data ++ []) := by
      simp [body]
    rw [whole]
    exact span_middle (by simp) (by simp)
  rw [parsePacketBody]
  dsimp only
  rw [if_pos (by omega), caplen, if_pos (by omega), len, data]

end PacketMessage

theorem nextPacket_message (cap : RpcapCapture) (m : PacketMessage) (s : Socket)
    (here : cap.data = m.encode.map some ++ s) :
    nextPacket cap = (.ok (some (m.packet cap)), { cap with data := s }) := by
  have fits := m.fits
  have length := m.length_body
  have read := readMsg_body m.parseHeader_encode (length_encodeHeader _ _ _) rfl
    (by dsimp only; omega) (show MSG_PACKET ≠ MSG_ERROR by decide) s
  rw [nextPacket, here, PacketMessage.encode, read]
  dsimp only
  rw [if_pos (.inl rfl), m.parsePacketBody_body]
  rfl

theorem nextPacket_cut (cap : RpcapCapture) (m : PacketMessage) {front : Bytes}
    (begun : front <+: m.encode) (short : front.length < m.encode.length) (s : Socket)
    (here : cap.data = front.map some ++ none :: s) :
    nextPacket cap = (.ok none, { cap with data := s }) := by
  have fits := m.fits
  have length := m.length_body
  have read := readMsg_cut m.parseHeader_encode (length_encodeHeader _ _ _) rfl
    (by dsimp only; omega) begun short s
  rw [nextPacket, here, read]

theorem nextPacket_empty (cap : RpcapCapture) (nothing : arrived cap.data = []) :
    nextPacket cap = (.ok none, { cap with data := cap.data.tail }) := by
  have read : readExact 8 cap.data = (none, cap.data.tail) := by
    cases data : cap.data with
    | nil => rfl
    | cons first s =>
      cases first with
      | none => rfl
      | some b =>
        rw [data] at nothing
        cases nothing
  rw [nextPacket, readMsg, read]

/-- A socket in front of a message: the message is there, or a read falls short in it. -/
theorem socket_cases {s : Socket} {whole rest : Bytes} (stream : arrived s = whole ++ rest) :
    (∃ later, s = whole.map some ++ later) ∨
      ∃ front later, s = front.map some ++ none :: later ∧ front <+: whole ∧
        front.length < whole.length := by
  induction s generalizing whole with
  | nil =>
    obtain ⟨rfl, rfl⟩ := List.append_eq_nil_iff.mp stream.symm
    exact .inl ⟨[], rfl⟩
  | cons first s ih =>
    cases whole with
    | nil => exact .inl ⟨first :: s, rfl⟩
    | cons b whole =>
      cases first with
      | none => exact .inr ⟨[], s, rfl, List.nil_prefix, Nat.succ_pos _⟩
      | some a =>
        obtain ⟨rfl, behind⟩ := List.cons.inj stream
        rcases ih behind with ⟨later, rfl⟩ | ⟨front, later, rfl, begun, short⟩
        · exact .inl ⟨later, rfl⟩
        · exact .inr ⟨a :: front, later, rfl, List.cons_prefix_cons.mpr ⟨rfl, begun⟩,
            Nat.succ_lt_succ short⟩

/- A whole stream of messages. -/

@[simp] theorem stream_cons (m : PacketMessage) (msgs : List PacketMessage) :
    stream (m :: msgs) = m.encode ++ stream msgs := rfl

theorem encode_ne_nil (m : PacketMessage) : m.encode ≠ [] := by
  have length := m.length_encode
  rintro none
  rw [none, List.length_nil] at length
  omega

theorem BetweenMessages.later {m : PacketMessage} {msgs : List PacketMessage} {s : Socket}
    (between : BetweenMessages (m.encode.map some ++ s) (m :: msgs)) : BetweenMessages s msgs := by
  rintro front behind rfl
  obtain ⟨done, begun, same⟩ := between (m.encode.map some ++ front) behind (by simp)
  rw [arrived_some] at same
  cases done with
  | nil => exact absurd (List.append_eq_nil_iff.mp same).1 (encode_ne_nil m)
  | cons first done =>
    obtain ⟨rfl, others⟩ := List.cons_prefix_cons.mp begun
    exact ⟨done, others, List.append_cancel_left same⟩

theorem BetweenMessages.wait {msgs : List PacketMessage} {s : Socket}
    (between : BetweenMessages (none :: s) msgs) : BetweenMessages s msgs := by
  rintro front behind rfl
  exact between (none :: front) behind rfl

/-- A read that falls short between messages has read nothing. -/
theorem BetweenMessages.front_nil {m : PacketMessage} {msgs : List PacketMessage} {front : Bytes}
    {later : Socket} (between : BetweenMessages (front.map some ++ none :: later) (m :: msgs))
    (short : front.length < m.encode.length) : front = [] := by
  obtain ⟨done, begun, same⟩ := between (front.map some) later rfl
  rw [← List.append_nil (front.map some), arrived_some] at same
  cases done with
  | nil => exact (List.append_eq_nil_iff.mp same).1
  | cons first done =>
    obtain ⟨rfl, _⟩ := List.cons_prefix_cons.mp begun
    have length := congrArg List.length same
    rw [stream_cons, List.length_append, List.length_append] at length
    have nothing : (arrived []).length = 0 := rfl
    omega

theorem packets_nothing {calls : Nat} {cap : RpcapCapture} (nothing : arrived cap.data = []) :
    packets calls cap = [] := by
  induction calls generalizing cap with
  | zero => rfl
  | succ calls ih =>
    rw [packets, nextPacket_empty cap nothing]
    refine ih ?_
    show arrived cap.data.tail = []
    cases data : cap.data with
    | nil => rfl
    | cons first s =>
      rw [data] at nothing
      cases first with
      | none => exact nothing
      | some b => cases nothing

/-- By induction on the calls; every call takes a message or a wait off the socket. -/
theorem packets_between {msgs : List PacketMessage} {calls : Nat} {cap : RpcapCapture}
    (all : arrived cap.data = stream msgs) (between : BetweenMessages cap.data msgs)
    (enough : cap.data.length ≤ calls) : packets calls cap = msgs.map (·.packet cap) := by
  induction calls generalizing msgs cap with
  | zero =>
    have none : cap.data = [] := List.length_eq_zero_iff.mp (by omega)
    cases msgs with
    | nil => rfl
    | cons m msgs =>
      rw [none, stream_cons] at all
      exact absurd (List.append_eq_nil_iff.mp all.symm).1 (encode_ne_nil m)
  | succ calls ih =>
    cases msgs with
    | nil => exact packets_nothing all
    | cons m msgs =>
      rcases socket_cases all with ⟨later, here⟩ | ⟨front, later, here, begun, short⟩
      · have length := m.length_encode
        rw [here] at all between enough
        rw [arrived_some] at all
        rw [List.length_append, List.length_map] at enough
        have others := @ih msgs { cap with data := later } (List.append_cancel_left all)
          between.later (by dsimp only; omega)
        rw [packets, nextPacket_message cap m later here]
        dsimp only
        rw [others]
        rfl
      · rw [here] at all between enough
        obtain rfl := between.front_nil short
        rw [packets, nextPacket_cut cap m begun short later here]
        refine ih all between.wait ?_
        simpa using enough

theorem between_whole (msgs : List PacketMessage) (bytes : Bytes) :
    BetweenMessages (bytes.map some) msgs := by
  intro front behind whole
  have member : none ∈ bytes.map some := by
    rw [whole]
    exact List.mem_append_right _ List.mem_cons_self
  obtain ⟨_, _, none⟩ := List.mem_map.mp member
  cases none

theorem arrived_whole (bytes : Bytes) : arrived (bytes.map some) = bytes := by
  have all := arrived_some bytes []
  rw [List.append_nil] at all
  exact all.trans (List.append_nil _)

theorem packets_whole {msgs : List PacketMessage} {calls : Nat} {cap : RpcapCapture}
    (enough : (stream msgs).length ≤ calls) :
    packets calls { cap with data := (stream msgs).map some } = msgs.map (·.packet cap) :=
  packets_between (arrived_whole _) (between_whole _ _) (by simpa using enough)

theorem delivers_between {msgs : List PacketMessage} {cap : RpcapCapture}
    (all : arrived cap.data = stream msgs) (between : BetweenMessages cap.data msgs) :
    Delivers cap msgs := by
  refine ⟨max cap.data.length (stream msgs).length, fun calls enough => ?_⟩
  rw [packets_between all between (by omega), packets_whole (by omega)]

/- Marks: a length that no other part of these messages can be taken for. -/

/-- The octets of the length `0xff000000`. -/
def mark : Bytes := [0xff, 0, 0, 0]

def marks : Bytes → Nat
  | [] => 0
  | b :: bs => (if mark.isPrefixOf (b :: bs) then 1 else 0) + marks bs

theorem marks_suffix {l bs : Bytes} (suffix : l <:+ bs) : marks l ≤ marks bs := by
  induction bs with
  | nil => exact Nat.le_of_eq (congrArg marks (List.suffix_nil.mp suffix))
  | cons b bs ih =>
    rcases List.suffix_cons_iff.mp suffix with rfl | later
    · exact Nat.le_refl _
    · exact Nat.le_trans (ih later) (Nat.le_add_left _ _)

theorem marks_skip {front : Bytes} (plain : ∀ b ∈ front, b ≠ 0xff) (bs : Bytes) :
    marks (front ++ bs) = marks bs := by
  induction front with
  | nil => rfl
  | cons b front ih =>
    have other : ¬ mark.isPrefixOf (b :: (front ++ bs)) = true := by
      intro begins
      rw [mark, List.isPrefixOf_cons_cons, Bool.and_eq_true, beq_iff_eq] at begins
      exact plain b List.mem_cons_self begins.1.symm
    rw [List.cons_append, marks, if_neg other, Nat.zero_add]
    exact ih fun c member => plain c (List.mem_cons_of_mem b member)

/-- No mark begins in a smaller number with an octet other than zero behind it. -/
theorem marks_number {n : Nat} (small : n < 0xff000000) {c : UInt8} (other : c ≠ 0) (bs : Bytes) :
    marks (toBE 4 n ++ c :: bs) = marks (c :: bs) := by
  have four : ∃ b₀ b₁ b₂ b₃, toBE 4 n = [b₀, b₁, b₂, b₃] ∧ b₀.toNat = n / 256 / 256 / 256 % 256 :=
    ⟨_, _, _, _, rfl, by rw [UInt8.toNat_ofNat']; omega⟩
  obtain ⟨b₀, b₁, b₂, b₃, octets, high⟩ := four
  have first : b₀ ≠ 0xff := by
    rintro rfl
    have value : (0xff : UInt8).toNat = 255 := rfl
    omega
  rw [octets]
  simp [marks, mark, first.symm, other.symm]

def marked (m : PacketMessage) : PacketMessage where
  value := 0
  sec := 0x01010101
  usec := 0x01010101
  len := 0xff000000
  npkt := 0
  data := List.replicate m.data.length 0
  fits := by
    rw [List.length_replicate]
    exact m.fits

theorem marks_encode (m : PacketMessage) (bs : Bytes) :
    marks ((marked m).encode ++ bs) = marks bs + 1 ∧
      marks (((marked m).encode ++ bs).drop 21) = marks bs := by
  have fits := m.fits
  have length := (marked m).length_body
  have size : (marked m).data.length = m.data.length := List.length_replicate
  have zeros : ∀ k, marks (List.replicate k 0 ++ bs) = marks bs := by
    refine fun k => marks_skip (fun b member => ?_) bs
    rw [List.eq_of_mem_replicate member]
    decide
  have ones : toBE 4 (0x01010101 : UInt32).toNat = [1, 1, 1, 1] := by decide
  have most : toBE 4 (0xff000000 : UInt32).toNat = [0xff, 0, 0, 0] := by decide
  have none : toBE 4 (0 : UInt32).toNat = [0, 0, 0, 0] := by decide
  have none' : toBE 2 (0 : UInt16).toNat = [0, 0] := by decide
  have version : toBE 1 0 = [0] := rfl
  have kind : toBE 1 MSG_PACKET = [7] := rfl
  have behind : List.replicate (7 + m.data.length) 0 ++ bs
      = [0, 0, 0] ++ ([0, 0, 0, 0] ++ ((marked m).data ++ bs)) := by
    rw [Nat.add_comm, marked]
    rfl
  have whole : (marked m).encode ++ bs = [0, 7, 0, 0] ++ (toBE 4 (marked m).body.length ++
      1 :: ([1, 1, 1, 1, 1, 1, 1] ++ (toBE 4 m.data.length ++
        0xff :: (List.replicate (7 + m.data.length) 0 ++ bs)))) := by
    rw [behind, PacketMessage.encode, encodeHeader, PacketMessage.body, size, version, kind]
    show [0] ++ ([7] ++ (toBE 2 (0 : UInt16).toNat ++ _)) ++ (toBE 4 (0x01010101 : UInt32).toNat ++
      (toBE 4 (0x01010101 : UInt32).toNat ++ (_ ++ (toBE 4 (0xff000000 : UInt32).toNat ++
        (toBE 4 (0 : UInt32).toNat ++ _))))) ++ bs = _
    rw [ones, most, none, none']
    simp
  have begins : mark.isPrefixOf (0xff :: (List.replicate (7 + m.data.length) 0 ++ bs)) = true := by
    rw [behind]
    rfl
  constructor
  · rw [whole, marks_skip (by simp), marks_number (by omega) (by decide), ← List.singleton_append,
      marks_skip (by simp), marks_skip (by simp), marks_number (by omega) (by decide), marks,
      if_pos begins, zeros, Nat.add_comm]
  · have cut : (marked m).encode ++ bs = ([0, 7, 0, 0] ++ (toBE 4 (marked m).body.length ++
        1 :: ([1, 1, 1, 1, 1, 1, 1] ++ (toBE 4 m.data.length ++ [0xff])))) ++
          (List.replicate (7 + m.data.length) 0 ++ bs) := by
      rw [whole]
      simp
    rw [cut, List.drop_left' (by simp), zeros]

theorem marks_stream (msgs : List PacketMessage) : marks (stream (msgs.map marked)) = msgs.length := by
  induction msgs with
  | nil => rfl
  | cons m msgs ih =>
    rw [List.map_cons, stream_cons, (marks_encode m _).1, ih, List.length_cons]

/- What a call takes off a socket. -/

theorem readExact_spec (n : Nat) (s : Socket) :
    ∃ taken, arrived s = taken ++ arrived (readExact n s).2 ∧
      ∀ got, (readExact n s).1 = some got → got = taken ∧ got.length = n := by
  induction n generalizing s with
  | zero => exact ⟨[], rfl, fun got same => by cases same; exact ⟨rfl, rfl⟩⟩
  | succ n ih =>
    cases s with
    | nil => exact ⟨[], rfl, fun got same => by cases same⟩
    | cons first s =>
      cases first with
      | none => exact ⟨[], rfl, fun got same => by cases same⟩
      | some b =>
        obtain ⟨taken, split, read⟩ := ih s
        refine ⟨b :: taken, congrArg (b :: ·) split, fun got same => ?_⟩
        obtain ⟨rest, there, rfl⟩ := Option.map_eq_some_iff.mp same
        obtain ⟨rfl, size⟩ := read rest there
        exact ⟨rfl, congrArg Nat.succ size⟩

/-- The body, if there is to be one. -/
theorem readBody_spec (n : Nat) (s : Socket) :
    ∃ taken, arrived s = taken ++ arrived (if 0 < n then readExact n s else (some [], s)).2 ∧
      ∀ got, (if 0 < n then readExact n s else (some [], s)).1 = some got →
        got = taken ∧ got.length = n := by
  split
  · exact readExact_spec n s
  · next none =>
    refine ⟨[], rfl, fun got same => ?_⟩
    cases same
    exact ⟨rfl, (Nat.eq_zero_of_not_pos none).symm⟩

theorem readMsg_spec (s : Socket) :
    ∃ taken, arrived s = taken ++ arrived (readMsg s).2 ∧
      ∀ h body, (readMsg s).1 = .ok (h, body) → body.length ≤ 16 * 1024 * 1024 ∧
        ∃ hdr : Bytes, hdr.length = 8 ∧ taken = hdr ++ body := by
  obtain ⟨front, split₁, header⟩ := readExact_spec 8 s
  rw [readMsg]
  generalize readExact 8 s = first at split₁ header ⊢
  obtain ⟨hdr, s₁⟩ := first
  cases hdr with
  | none => exact ⟨front, split₁, fun h body same => by cases same⟩
  | some hdr =>
    obtain ⟨rfl, eight⟩ := header hdr rfl
    dsimp only at split₁ ⊢
    split
    · exact ⟨hdr, split₁, fun h body same => by cases same⟩
    · next h _ =>
      split
      · exact ⟨hdr, split₁, fun h body same => by cases same⟩
      · next small =>
        obtain ⟨behind, split₂, read⟩ := readBody_spec h.plen s₁
        generalize (if 0 < h.plen then readExact h.plen s₁ else (some [], s₁)) = second
          at split₂ read ⊢
        obtain ⟨body, s₂⟩ := second
        have split : arrived s = (hdr ++ behind) ++ arrived s₂ := by
          rw [split₁, split₂, List.append_assoc]
        cases body with
        | none => exact ⟨_, split, fun h body same => by cases same⟩
        | some body =>
          obtain ⟨rfl, size⟩ := read body rfl
          dsimp only
          split
          · exact ⟨_, split, fun h body same => by cases same⟩
          · refine ⟨_, split, fun h' body' same => ?_⟩
            cases same
            exact ⟨by omega, hdr, eight, rfl⟩

/-- A packet of that length has a mark where its length stands. -/
theorem parsePacketBody_mark {body : Bytes} {pkt : CapturePacket}
    (small : body.length ≤ 16 * 1024 * 1024) (parsed : parsePacketBody body = .ok pkt)
    (long : pkt.origLen = 0xff000000) : mark <+: body.drop 12 := by
  have whole : ∀ pkt' : CapturePacket, pkt'.origLen = body.length % 2 ^ 32 → pkt' ≠ pkt := by
    rintro pkt' size rfl
    omega
  rw [parsePacketBody] at parsed
  dsimp only at parsed
  split at parsed
  · next long' =>
    split at parsed
    · next room =>
      cases parsed
      dsimp only at long
      have value : beAt body 12 4 = 0xff000000 := by omega
      have four : (span body 12 (12 + 4)).length = 4 := length_span (by omega)
      have octets := toBE_ofBE (span body 12 (12 + 4))
      rw [four, show ofBE (span body 12 (12 + 4)) = 0xff000000 from value] at octets
      have same : span body 12 (12 + 4) = mark := octets.symm.trans (by decide)
      rw [← same]
      exact List.take_prefix _ _
    · split at parsed
      · cases parsed
      · exact absurd (Except.ok.inj parsed) (whole _ rfl)
  · split at parsed
    · cases parsed
    · exact absurd (Except.ok.inj parsed) (whole _ rfl)

/-- The length of the packet is that of the mark. -/
def isMarked (pkt : CapturePacket) : Bool := pkt.origLen = 0xff000000

theorem nextPacket_spec (cap : RpcapCapture) :
    ∃ taken, arrived cap.data = taken ++ arrived (nextPacket cap).2.data ∧
      ∀ pkt, (nextPacket cap).1 = .ok (some pkt) → isMarked pkt = true →
        taken ≠ [] ∧ mark <+: (arrived cap.data).drop 20 := by
  obtain ⟨taken, split, read⟩ := readMsg_spec cap.data
  rw [nextPacket]
  generalize readMsg cap.data = result at split read ⊢
  obtain ⟨outcome, s⟩ := result
  cases outcome with
  | error e =>
    cases e with
    | wouldBlock => exact ⟨taken, split, fun pkt same => by cases same⟩
    | message text =>
      dsimp only
      split
      · exact ⟨taken, split, fun pkt same => by cases same⟩
      · exact ⟨taken, split, fun pkt same => by cases same⟩
  | ok message =>
    obtain ⟨h, body⟩ := message
    obtain ⟨small, hdr, eight, rfl⟩ := read h body rfl
    dsimp only
    split
    · split
      · next pkt parsed =>
        refine ⟨_, split, fun pkt' same long => ?_⟩
        cases same
        have begins := parsePacketBody_mark small parsed (of_decide_eq_true long)
        constructor
        · intro nothing
          rw [(List.append_eq_nil_iff.mp nothing).1] at eight
          cases eight
        · have further : (hdr ++ body ++ arrived s).drop 20 = (body ++ arrived s).drop 12 := by
            rw [List.append_assoc, List.drop_append, eight]
            rw [List.drop_eq_nil_of_le (by omega)]
            rfl
          rw [split, further]
          obtain ⟨more, whole⟩ := begins
          refine ⟨more ++ arrived s, ?_⟩
          have four : mark.length = 4 := rfl
          have size := congrArg List.length whole
          rw [List.length_append, List.length_drop] at size
          rw [← List.append_assoc, whole, List.drop_append_of_le_length (by omega)]
      · exact ⟨_, split, fun pkt same => by cases same⟩
    · exact ⟨_, split, fun pkt same => by cases same⟩

theorem drop_behind (taken bs : Bytes) (n : Nat) : bs.drop n <:+ (taken ++ bs).drop n := by
  have inside : bs.drop n <:+ taken ++ bs := (List.drop_suffix n bs).trans (List.suffix_append _ _)
  refine List.suffix_of_suffix_length_le inside (List.drop_suffix _ _) ?_
  rw [List.length_drop, List.length_drop, List.length_append]
  omega

theorem marks_begins {bs : Bytes} {n : Nat} (begins : mark <+: bs.drop n) :
    marks (bs.drop n) = 1 + marks (bs.drop (n + 1)) := by
  rw [← List.tail_drop]
  cases rest : bs.drop n with
  | nil =>
    rw [rest] at begins
    exact absurd (List.prefix_nil.mp begins) (List.cons_ne_nil _ _)
  | cons b more =>
    rw [rest] at begins
    rw [marks, if_pos (List.isPrefixOf_iff_prefix.mpr begins), List.tail_cons]

/-- Every packet of that length uses a mark up. -/
theorem packets_marks (calls : Nat) (cap : RpcapCapture) :
    (packets calls cap).countP isMarked ≤ marks ((arrived cap.data).drop 20) := by
  induction calls generalizing cap with
  | zero => exact Nat.zero_le _
  | succ calls ih =>
    obtain ⟨taken, split, used⟩ := nextPacket_spec cap
    have later := marks_suffix (drop_behind taken (arrived (nextPacket cap).2.data) 20)
    rw [← split] at later
    have rest := ih (nextPacket cap).2
    rw [packets]
    generalize nextPacket cap = result at split used later rest ⊢
    obtain ⟨outcome, next⟩ := result
    dsimp only at split used later rest
    split
    · next pkt cap' same =>
      cases same
      rw [List.countP_cons]
      split
      · next long =>
        obtain ⟨some, begins⟩ := used pkt rfl long
        obtain ⟨t, ts, rfl⟩ := List.exists_cons_of_ne_nil some
        have more := marks_suffix (drop_behind ts (arrived next.data) 20)
        have onward : (arrived cap.data).drop 21 = (ts ++ arrived next.data).drop 20 := by
          rw [split]
          rfl
        rw [marks_begins begins, onward]
        omega
      · omega
    · next cap' _ same =>
      cases same
      exact Nat.le_trans rest later

/- Reads that fall short inside a message. -/

theorem BetweenMessages.behind {m : PacketMessage} {msgs : List PacketMessage} {s : Socket}
    (between : BetweenMessages s msgs) : BetweenMessages (m.encode.map some ++ s) (m :: msgs) := by
  intro front later whole
  obtain ⟨front', rfl, rest⟩ : ∃ front', front = m.encode.map some ++ front' ∧
      s = front' ++ none :: later := by
    rcases List.append_eq_append_iff.mp whole with ⟨front', same, rest⟩ | ⟨part, same, rest⟩
    · exact ⟨front', same, rest⟩
    · cases part with
      | nil => exact ⟨[], by rw [same, List.append_nil, List.append_nil], rest.symm⟩
      | cons first part =>
        have member : first ∈ m.encode.map some := by
          rw [same]
          exact List.mem_append_right _ List.mem_cons_self
        obtain ⟨_, _, rfl⟩ := List.mem_map.mp member
        cases rest
  obtain ⟨done, begun, same⟩ := between front' later rest
  exact ⟨m :: done, List.cons_prefix_cons.mpr ⟨rfl, begun⟩, by rw [arrived_some, same, stream_cons]⟩

theorem BetweenMessages.waited {msgs : List PacketMessage} {s : Socket}
    (between : BetweenMessages s msgs) : BetweenMessages (none :: s) msgs := by
  intro front later whole
  cases front with
  | nil => exact ⟨[], List.nil_prefix, rfl⟩
  | cons first front =>
    obtain ⟨rfl, rest⟩ := List.cons.inj whole
    exact between front later rest

theorem between_nil {s : Socket} (nothing : arrived s = []) : BetweenMessages s [] := by
  rintro front later rfl
  rw [arrived, List.filterMap_append] at nothing
  exact ⟨[], List.prefix_rfl, (List.append_eq_nil_iff.mp nothing).1⟩

/-- A message that is cut is lost, and none of what is left of it counts as one. -/
theorem packets_inside {msgs : List PacketMessage} {cap : RpcapCapture}
    (all : arrived cap.data = stream (msgs.map marked))
    (inside : ¬ BetweenMessages cap.data (msgs.map marked)) (calls : Nat) :
    (packets calls cap).countP isMarked < msgs.length := by
  induction calls generalizing msgs cap with
  | zero =>
    cases msgs with
    | nil => exact absurd (between_nil all) inside
    | cons m msgs => exact Nat.succ_pos _
  | succ calls ih =>
    cases msgs with
    | nil => exact absurd (between_nil all) inside
    | cons m msgs =>
      rcases socket_cases all with ⟨later, here⟩ | ⟨front, later, here, begun, short⟩
      · rw [here] at all inside
        rw [arrived_some] at all
        have others := @ih msgs { cap with data := later } (List.append_cancel_left all)
          fun between => inside between.behind
        rw [packets, nextPacket_message cap (marked m) later here]
        dsimp only
        rw [List.countP_cons, List.length_cons]
        split <;> omega
      · rw [packets, nextPacket_cut cap (marked m) begun short later here]
        dsimp only
        rw [here] at all inside
        rw [arrived_some, arrived_none] at all
        cases front with
        | nil =>
          exact ih all fun between => inside between.waited
        | cons b front =>
          have used := packets_marks calls { cap with data := later }
          have left := marks_suffix (drop_behind front (arrived later) 20)
          have onward : (front ++ arrived later).drop 20
              = ((marked m).encode ++ stream (msgs.map marked)).drop 21 := by
            rw [← stream_cons, ← List.map_cons, ← all]
            rfl
          rw [onward, (marks_encode m _).2, marks_stream] at left
          rw [List.length_cons]
          exact Nat.lt_succ_of_le (Nat.le_trans used left)

theorem not_delivers_inside {msgs : List PacketMessage} {cap : RpcapCapture}
    (all : arrived cap.data = stream (msgs.map marked))
    (inside : ¬ BetweenMessages cap.data (msgs.map marked)) :
    ¬ Delivers cap (msgs.map marked) := by
  rintro ⟨enough, same⟩
  have count := packets_inside all inside (max enough (stream (msgs.map marked)).length)
  rw [same _ (Nat.le_max_left _ _), packets_whole (Nat.le_max_right _ _)] at count
  have every : ∀ pkt ∈ (msgs.map marked).map (·.packet cap), isMarked pkt = true := by
    intro pkt member
    rw [List.map_map] at member
    obtain ⟨m, _, rfl⟩ := List.mem_map.mp member
    have fits := m.fits
    have size : (marked m).data.length = m.data.length := List.length_replicate
    refine decide_eq_true ?_
    show max 0xff000000 (marked m).data.length = 0xff000000
    omega
  rw [List.countP_eq_length.mpr every, List.length_map, List.length_map] at count
  exact Nat.lt_irrefl _ count

/- Streams of one shape. -/

/-- Messages of the same lengths, and reads that fall short at the same places. -/
structure SameShape (msgs msgs' : List PacketMessage) (s s' : Socket) : Prop where
  lengths : msgs'.map (·.data.length) = msgs.map (·.data.length)
  reads : s'.map Option.isSome = s.map Option.isSome

/-- Other octets in the places of those in a socket. -/
def refill : Socket → Bytes → Socket
  | [], _ => []
  | none :: s, bs => none :: refill s bs
  | some a :: s, [] => some a :: s
  | some _ :: s, b :: bs => some b :: refill s bs

theorem refill_spec {s : Socket} {bs : Bytes} (size : bs.length = (arrived s).length) :
    arrived (refill s bs) = bs ∧ (refill s bs).map Option.isSome = s.map Option.isSome := by
  induction s generalizing bs with
  | nil => exact ⟨(List.length_eq_zero_iff.mp size).symm, rfl⟩
  | cons first s ih =>
    cases first with
    | none =>
      obtain ⟨octets, places⟩ := ih size
      exact ⟨octets, congrArg (false :: ·) places⟩
    | some a =>
      cases bs with
      | nil => cases size
      | cons b bs =>
        obtain ⟨octets, places⟩ := ih (Nat.succ.inj size)
        exact ⟨congrArg (b :: ·) octets, congrArg (true :: ·) places⟩

theorem length_stream {msgs msgs' : List PacketMessage}
    (lengths : msgs'.map (·.data.length) = msgs.map (·.data.length)) :
    (stream msgs').length = (stream msgs).length := by
  have sum : ∀ msgs : List PacketMessage,
      (stream msgs).length = ((msgs.map (·.data.length)).map (28 + ·)).sum := by
    intro msgs
    rw [stream, List.length_flatMap, List.map_map]
    congr 2
    funext m
    exact m.length_encode
  rw [sum, sum, lengths]

theorem length_arrived {s s' : Socket} (reads : s'.map Option.isSome = s.map Option.isSome) :
    (arrived s').length = (arrived s).length := by
  have count : ∀ s : Socket, (arrived s).length = (s.map Option.isSome).countP id := by
    intro s
    induction s with
    | nil => rfl
    | cons first s ih =>
      cases first with
      | none => exact ih
      | some b =>
        rw [List.map_cons, List.countP_cons, ← ih]
        rfl
  rw [count, count, reads]

/-- Where the messages end tells only their lengths. -/
theorem SameShape.between {msgs msgs' : List PacketMessage} {s s' : Socket}
    (same : SameShape msgs msgs' s s') (all : arrived s = stream msgs)
    (between : BetweenMessages s' msgs') : BetweenMessages s msgs := by
  rintro front later rfl
  have reads := same.reads
  rw [List.map_append, List.map_cons] at reads
  obtain ⟨front', rest, rfl, places, behind⟩ := List.map_eq_append_iff.mp reads
  obtain ⟨first, later', rfl, none', _⟩ := List.map_eq_cons_iff.mp behind
  obtain rfl : first = none := Option.not_isSome_iff_eq_none.mp (by rw [none']; decide)
  obtain ⟨done', begun, ends⟩ := between front' later' rfl
  have lengths : done'.map (·.data.length)
      = (msgs.take done'.length).map (·.data.length) := by
    rw [List.map_take, ← same.lengths, ← List.map_take, ← List.prefix_iff_eq_take.mp begun]
  have taken : msgs.take done'.length <+: msgs := List.take_prefix _ _
  refine ⟨msgs.take done'.length, taken, ?_⟩
  have size : (arrived front).length = (stream (msgs.take done'.length)).length := by
    rw [← length_arrived places, ends, length_stream lengths]
  have here : arrived front <+: stream msgs := by
    rw [← all, arrived, arrived, List.filterMap_append]
    exact List.prefix_append _ _
  have there : stream (msgs.take done'.length) <+: stream msgs := by
    obtain ⟨rest, whole⟩ := taken
    refine ⟨stream rest, ?_⟩
    rw [stream, stream, ← List.flatMap_append, whole, stream]
  exact (List.prefix_of_prefix_length_le here there (Nat.le_of_eq size)).eq_of_length size

/-- Whatever messages of these lengths a socket holds, with reads that fall short at these
places: all packets are returned if and only if no read falls short inside a message. -/
theorem rpcap_delivers_iff (iface : String) (linkType : LinkType) (msgs : List PacketMessage)
    (s : Socket) (all : arrived s = stream msgs) :
    (∀ msgs' s', SameShape msgs msgs' s s' → arrived s' = stream msgs' →
      Delivers { data := s', iface := iface, linkType := linkType } msgs') ↔
      BetweenMessages s msgs := by
  constructor
  · intro delivers
    by_contra inside
    have lengths : (msgs.map marked).map (·.data.length) = msgs.map (·.data.length) := by
      rw [List.map_map]
      exact List.map_congr_left fun m _ => List.length_replicate
    have size : (stream (msgs.map marked)).length = (arrived s).length := by
      rw [length_stream lengths, all]
    obtain ⟨octets, places⟩ := refill_spec size
    have same : SameShape msgs (msgs.map marked) s (refill s (stream (msgs.map marked))) :=
      ⟨lengths, places⟩
    refine not_delivers_inside octets (fun between => inside (same.between all between))
      (delivers _ _ same octets)
  · intro between msgs' s' same all'
    refine delivers_between all' ?_
    have back : SameShape msgs' msgs s' s := ⟨same.lengths.symm, same.reads.symm⟩
    exact back.between all' between

/- A message whose header comes alone. -/

def demoMessage : PacketMessage where
  value := 0
  sec := 1
  usec := 2
  len := 4
  npkt := 1
  data := [0xaa, 0xbb, 0xcc, 0xdd]
  fits := by decide

def demoCapture (s : Socket) : RpcapCapture :=
  { data := s, iface := "rpcap://h:2002/eth0", linkType := .ethernet }

/-- The message, and a read that falls short behind its header. -/
def splitSocket : Socket :=
  (demoMessage.encode.take 8).map some ++ none :: (demoMessage.encode.drop 8).map some

/-- What the capture makes of the rest of the message. -/
def bogusPacket : CapturePacket :=
  { data := [0, 0], linkType := .ethernet, iface := "rpcap://h:2002/eth0", origLen := 2 }

theorem packets_split (calls : Nat) :
    packets (calls + 3) (demoCapture splitSocket) = [bogusPacket] := by
  have first : nextPacket (demoCapture splitSocket)
      = (.ok none, demoCapture ((demoMessage.encode.drop 8).map some)) := by decide +kernel
  have second : nextPacket (demoCapture ((demoMessage.encode.drop 8).map some))
      = (.ok (some bogusPacket), demoCapture ((demoMessage.encode.drop 18).map some)) := by
    decide +kernel
  have third : nextPacket (demoCapture ((demoMessage.encode.drop 18).map some))
      = (.ok none, demoCapture []) := by decide +kernel
  rw [packets, first]
  dsimp only
  rw [packets, second]
  dsimp only
  rw [packets, third]
  exact congrArg (bogusPacket :: ·) (packets_nothing rfl)

/-- The packet of the message is not returned, however often the capture asks, and another is. -/
theorem header_alone_loses_packet :
    arrived splitSocket = stream [demoMessage] ∧
      (∀ calls, packets (calls + 3) (demoCapture splitSocket) = [bogusPacket]) ∧
        ¬ Delivers (demoCapture splitSocket) [demoMessage] := by
  refine ⟨by decide, packets_split, ?_⟩
  rintro ⟨enough, same⟩
  have all := same (enough + (stream [demoMessage]).length + 3) (by omega)
  rw [packets_split, packets_whole (by omega)] at all
  exact absurd all (by decide)

/-- The same message, with a read that falls short in front of it. -/
theorem rpcap_delivers_iff_waited :
    Delivers (demoCapture (none :: (stream [demoMessage]).map some)) [demoMessage] := by
  have all : arrived (none :: (stream [demoMessage]).map some) = stream [demoMessage] :=
    arrived_whole _
  refine (rpcap_delivers_iff _ _ [demoMessage] _ all).mpr ?_ _ _ ⟨rfl, rfl⟩ all
  exact (between_whole [demoMessage] _).waited

end BitBeak.Rpcap
