import BitBeak.Dissect.Text
import BitBeak.Lib.PolledReader

/-! The ClientHello that a TLS proxy takes off a connection to learn the server's name, and the
stream that gives it back to the acceptor in front of what the connection still brings. The
connection is a reader of its own: what it promises is what is asked of any such stream. -/
namespace BitBeak
open Wire
open PolledReader (Poll)

/-- A buffer that is read into. -/
structure ReadBuf where
  capacity : Nat
  filled : Bytes
  fits : filled.length ≤ capacity

namespace ReadBuf

def new (capacity : Nat) : ReadBuf :=
  { capacity := capacity, filled := [], fits := Nat.zero_le _ }

def remaining (buf : ReadBuf) : Nat := buf.capacity - buf.filled.length

/-- A slice that does not fit is a panic. -/
def putSlice (buf : ReadBuf) (octets : Bytes) : Except Fault ReadBuf :=
  if room : octets.length ≤ buf.remaining then
    .ok { buf with
      filled := buf.filled ++ octets
      fits := by
        have fits := buf.fits
        rw [remaining] at room
        rw [List.length_append]
        omega }
  else .error .outOfRange

theorem putSlice_ok {buf : ReadBuf} {octets : Bytes} (room : octets.length ≤ buf.remaining) :
    ∃ buf', buf.putSlice octets = .ok buf' ∧ buf'.capacity = buf.capacity ∧
      buf'.filled = buf.filled ++ octets :=
  ⟨_, dif_pos room, rfl, rfl⟩

end ReadBuf

/-- `split_to`: the front and what is kept. A place behind the end is a panic. -/
def splitTo (bytes : Bytes) (n : Nat) : Except Fault (Bytes × Bytes) :=
  if n ≤ bytes.length then .ok (bytes.take n, bytes.drop n) else .error .outOfRange

/-- `prefixBytes` is what is replayed before the connection `inner` is read. -/
structure PrefixedTcp (σ : Type) where
  prefixBytes : Bytes
  inner : σ

variable {σ ε : Type} (tcp : PolledReader σ UInt8 ε)

/-- A connection polled with a buffer is polled with the room in it. -/
def tcpPollRead (inner : σ) (buf : ReadBuf) : Except Fault (Poll ε × ReadBuf × σ) := do
  let (status, piece, inner) := tcp.poll inner buf.remaining
  let buf ← buf.putSlice piece
  return (status, buf, inner)

namespace PrefixedTcp

def pollRead (self : PrefixedTcp σ) (buf : ReadBuf) :
    Except Fault (Poll ε × ReadBuf × PrefixedTcp σ) :=
  if self.prefixBytes ≠ [] then do
    let n := min buf.remaining self.prefixBytes.length
    let (front, kept) ← splitTo self.prefixBytes n
    let buf ← buf.putSlice front
    return (.ready, buf, { self with prefixBytes := kept })
  else do
    let (status, buf, inner) ← tcpPollRead tcp self.inner buf
    return (status, buf, { self with inner := inner })

/-- Polls with empty buffers of the given sizes: what each of them answers, and puts into its
buffer. -/
def reads : List Nat → PrefixedTcp σ → Except Fault (List (Poll ε × Bytes) × PrefixedTcp σ)
  | [], self => .ok ([], self)
  | size :: sizes, self => do
    let (status, buf, self) ← self.pollRead tcp (.new size)
    let (later, self) ← reads sizes self
    return ((status, buf.filled) :: later, self)

end PrefixedTcp

/-- Why there is no ClientHello. -/
inductive HelloError (ε : Type) where
  | read (e : ε)
  | notHandshake (got : Nat)
  deriving DecidableEq, Repr

def HelloError.text (error : ε → String) : HelloError ε → String
  | .read e => error e
  | .notHandshake got => "expected TLS handshake record (got 0x" ++ hexDigits 1 got ++ ")"

/-- Each of the two reads is given so many polls. Without an outcome the client has not sent
enough in them. `early` is the error of a connection that ends within a read. -/
def readClientHello (early : ε) (polls : Nat) (stream : σ) :
    Option (Except (HelloError ε) Bytes) × σ :=
  match tcp.readExact early polls 5 stream with
  | (none, stream) => (none, stream)
  | (some (.error e), stream) => (some (.error (.read e)), stream)
  | (some (.ok header), stream) =>
    if beAt header 0 1 ≠ 0x16 then (some (.error (.notHandshake (beAt header 0 1))), stream)
    else
      let len := beAt header 3 2
      match tcp.readExact early polls len stream with
      | (none, stream) => (none, stream)
      | (some (.error e), stream) => (some (.error (.read e)), stream)
      | (some (.ok body), stream) => (some (.ok (header ++ body)), stream)

/-- The stream the acceptor of `mitm_splice` reads from, when there is a ClientHello. -/
def acceptorStream (early : ε) (polls : Nat) (client : σ) : Option (PrefixedTcp σ) :=
  match readClientHello tcp early polls client with
  | (some (.ok hello), client) => some { prefixBytes := hello, inner := client }
  | _ => none

/-- One record of the handshake, whole and nothing else. -/
structure HandshakeRecord (record : Bytes) : Prop where
  header : 5 ≤ record.length
  typ : beAt record 0 1 = 0x16
  length : record.length = 5 + beAt record 3 2

theorem splitTo_min (bytes : Bytes) (n : Nat) :
    splitTo bytes (min n bytes.length) = .ok (bytes.take n, bytes.drop n) := by
  rw [splitTo, if_pos (Nat.min_le_right n _), ← List.take_eq_take_min, ← List.drop_eq_drop_min]

theorem tcpPollRead_ok (inner : σ) (buf : ReadBuf) :
    ∃ buf', tcpPollRead tcp inner buf = .ok ((tcp.poll inner buf.remaining).1, buf',
        (tcp.poll inner buf.remaining).2.2) ∧
      buf'.capacity = buf.capacity ∧
        buf'.filled = buf.filled ++ (tcp.poll inner buf.remaining).2.1 := by
  obtain ⟨buf', put, capacity, filled⟩ := ReadBuf.putSlice_ok (tcp.fits inner buf.remaining)
  refine ⟨buf', ?_, capacity, filled⟩
  rw [tcpPollRead]
  simp only [put, ok_bind, pure_ok]

/- The stream as a reader of its own. -/

namespace PrefixedTcp

/-- What a poll takes, whatever the buffer holds already. -/
def take (self : PrefixedTcp σ) (room : Nat) : Poll ε × Bytes × PrefixedTcp σ :=
  if self.prefixBytes ≠ [] then
    (.ready, self.prefixBytes.take room, { self with prefixBytes := self.prefixBytes.drop room })
  else
    let (status, piece, inner) := tcp.poll self.inner room
    (status, piece, { self with inner := inner })

section

variable {self : PrefixedTcp σ} {room : Nat}

theorem take_replayed (kept : self.prefixBytes ≠ []) :
    self.take tcp room = (.ready, self.prefixBytes.take room,
      { self with prefixBytes := self.prefixBytes.drop room }) := by
  rw [take, if_pos kept]

theorem take_inner (all : self.prefixBytes = []) :
    self.take tcp room = ((tcp.poll self.inner room).1, (tcp.poll self.inner room).2.1,
      { self with inner := (tcp.poll self.inner room).2.2 }) := by
  rw [take, if_neg (not_not.mpr all)]

end

/-- What the stream promises follows from what the connection promises. -/
def source : PolledReader (PrefixedTcp σ) UInt8 ε where
  poll self room := self.take tcp room
  unread self := self.prefixBytes ++ tcp.unread self.inner
  fits self room := by
    by_cases all : self.prefixBytes = []
    · rw [take_inner tcp all]
      exact tcp.fits self.inner room
    · rw [take_replayed tcp all]
      exact List.length_take_le room self.prefixBytes
  taken self room := by
    by_cases all : self.prefixBytes = []
    · rw [take_inner tcp all, all]
      exact tcp.taken self.inner room
    · rw [take_replayed tcp all]
      simp only [← List.append_assoc, List.take_append_drop]
  idle self room := by
    by_cases all : self.prefixBytes = []
    · rw [take_inner tcp all]
      exact tcp.idle self.inner room
    · rw [take_replayed tcp all]
      exact fun other => absurd rfl other
  ends self room := by
    by_cases all : self.prefixBytes = []
    · rw [take_inner tcp all, all]
      exact tcp.ends self.inner room
    · -- with room, a poll that replays takes an octet at least
      rw [take_replayed tcp all]
      intro some _ nothing
      rcases List.take_eq_nil_iff.mp nothing with none | none
      · omega
      · exact absurd none all

/-- A poll for each octet that is replayed, and those of the connection. -/
def paced (pace : tcp.Paced) : (source tcp).Paced where
  polls self := self.prefixBytes.length + pace.polls self.inner
  never_more self room := by
    by_cases all : self.prefixBytes = []
    · have never_more := pace.never_more self.inner room
      simp only [source, take_inner tcp all]
      omega
    · simp only [source, take_replayed tcp all, List.length_drop]
      omega
  fewer self room some left := by
    by_cases all : self.prefixBytes = []
    · have fewer := pace.fewer self.inner room some (by simpa [source, all] using left)
      simp only [source, take_inner tcp all]
      omega
    · have long := List.length_pos_iff.mpr all
      simp only [source, take_replayed tcp all, List.length_drop]
      omega
  sound self room e left := by
    by_cases all : self.prefixBytes = []
    · simp only [source, take_inner tcp all]
      exact pace.sound self.inner room e (by simpa [source, all] using left)
    · simp only [source, take_replayed tcp all]
      nofun

/-- No poll panics, and it adds to the buffer what it takes. -/
theorem pollRead_ok (self : PrefixedTcp σ) (buf : ReadBuf) :
    ∃ buf', self.pollRead tcp buf = .ok ((self.take tcp buf.remaining).1, buf',
        (self.take tcp buf.remaining).2.2) ∧
      buf'.capacity = buf.capacity ∧
        buf'.filled = buf.filled ++ (self.take tcp buf.remaining).2.1 := by
  by_cases all : self.prefixBytes = []
  · obtain ⟨buf', polled, capacity, filled⟩ := tcpPollRead_ok tcp self.inner buf
    refine ⟨buf', ?_, capacity, ?_⟩
    · rw [pollRead, if_neg (not_not.mpr all), polled, take_inner tcp all]
      rfl
    · rw [filled, take_inner tcp all]
  · have room : (self.prefixBytes.take buf.remaining).length ≤ buf.remaining :=
      List.length_take_le _ _
    obtain ⟨buf', put, capacity, filled⟩ := ReadBuf.putSlice_ok room
    refine ⟨buf', ?_, capacity, ?_⟩
    · rw [pollRead, if_pos all, take_replayed tcp all]
      simp only [splitTo_min, ok_bind, put, pure_ok]
    · rw [filled, take_replayed tcp all]

/-- The reads of the acceptor are the polls of the reader. -/
theorem reads_eq (sizes : List Nat) (self : PrefixedTcp σ) :
    self.reads tcp sizes = .ok ((source tcp).pull sizes self) := by
  induction sizes generalizing self with
  | nil => rfl
  | cons size sizes ih =>
    obtain ⟨buf', polled, capacity, filled⟩ := self.pollRead_ok tcp (.new size)
    have empty : (ReadBuf.new size).remaining = size := rfl
    rw [empty] at polled filled
    rw [reads, polled, ok_bind]
    simp only [ih, ok_bind, filled]
    rfl

end PrefixedTcp

/- What is taken off the connection before. -/

section

variable {tcp} {early : ε} {polls : Nat}

/-- What `read_client_hello` returns is one record, and the connection goes on behind it. -/
theorem readClientHello_ok {client client' : σ} {hello : Bytes}
    (read : readClientHello tcp early polls client = (some (.ok hello), client')) :
    HandshakeRecord hello ∧ tcp.unread client = hello ++ tcp.unread client' := by
  unfold readClientHello at read
  split at read
  · cases read
  · cases read
  · next header behind first =>
    split at read
    · cases read
    · next typ =>
      dsimp only at read
      split at read
      · cases read
      · cases read
      · next body last second =>
        cases read
        obtain ⟨five, left⟩ := PolledReader.readExact_ok first
        obtain ⟨long, left'⟩ := PolledReader.readExact_ok second
        have inHeader : ∀ {i k : Nat}, i + k ≤ 5 → beAt (header ++ body) i k = beAt header i k :=
          fun inside => beAt_append_left (by rw [five]; exact inside)
        refine ⟨⟨?_, ?_, ?_⟩, by rw [left, left', List.append_assoc]⟩
        · rw [List.length_append]
          omega
        · rw [inHeader (by omega)]
          exact not_not.mp typ
        · rw [inHeader (by omega), List.length_append, five, long]

/-- A record that the client sends first is read, whatever it sends after it and however that is
cut into pieces. -/
theorem readClientHello_record (pace : tcp.Paced) {client : σ} (enough : pace.polls client ≤ polls)
    {record rest : Bytes} (whole : HandshakeRecord record)
    (sent : tcp.unread client = record ++ rest) :
    ∃ client', readClientHello tcp early polls client = (some (.ok record), client') ∧
      tcp.unread client' = rest := by
  obtain ⟨header, body, rfl, five⟩ : ∃ header body, record = header ++ body ∧ header.length = 5 :=
    ⟨record.take 5, record.drop 5, (List.take_append_drop 5 record).symm,
      List.length_take_of_le whole.header⟩
  have typ := whole.typ
  have length := whole.length
  rw [beAt_append_left (by omega)] at typ length
  rw [List.length_append, five] at length
  have long : body.length = beAt header 3 2 := by omega
  obtain ⟨behind, first, left, fewer⟩ :=
    pace.readExact_front early enough (sent.trans (List.append_assoc _ _ _))
  obtain ⟨client', second, left', _⟩ :=
    pace.readExact_front early (Nat.le_trans fewer enough) left
  rw [five] at first
  rw [long] at second
  refine ⟨client', ?_, left'⟩
  rw [readClientHello, first]
  simp only [typ, ne_eq, not_true_eq_false, if_false, second]

theorem acceptorStream_sent {client : σ} {stream : PrefixedTcp σ}
    (accepted : acceptorStream tcp early polls client = some stream) :
    stream.prefixBytes ++ tcp.unread stream.inner = tcp.unread client := by
  unfold acceptorStream at accepted
  split at accepted
  · next hello client' read =>
    cases accepted
    exact (readClientHello_ok read).2.symm
  · cases accepted

end

/-- Everything the acceptor of a proxy reads is what the client sent: reads of whatever sizes
give the replayed octets and then those of the connection, once each and in order, up to the end
when that is seen or there were enough reads; and what is replayed is the one record that was
taken off the connection. -/
theorem hello_replayed (tcp : PolledReader σ UInt8 ε) (early : ε) :
    (∀ (self : PrefixedTcp σ) (sizes : List Nat), ∃ done left,
      self.reads tcp sizes = .ok (done, left) ∧
        self.prefixBytes ++ tcp.unread self.inner =
          PolledReader.delivered done ++ (left.prefixBytes ++ tcp.unread left.inner) ∧
        (PolledReader.SawEnd sizes done →
          PolledReader.delivered done = self.prefixBytes ++ tcp.unread self.inner) ∧
        ∀ pace : tcp.Paced,
          self.prefixBytes.length + pace.polls self.inner ≤ (sizes.filter (0 < ·)).length →
            PolledReader.delivered done = self.prefixBytes ++ tcp.unread self.inner) ∧
      (∀ polls client hello client',
        readClientHello tcp early polls client = (some (.ok hello), client') →
          HandshakeRecord hello ∧ tcp.unread client = hello ++ tcp.unread client') ∧
      (∀ polls client stream, acceptorStream tcp early polls client = some stream →
        stream.prefixBytes ++ tcp.unread stream.inner = tcp.unread client) ∧
        ∀ (pace : tcp.Paced) (client : σ) (record rest : Bytes), HandshakeRecord record →
          tcp.unread client = record ++ rest → ∃ client',
            readClientHello tcp early (pace.polls client) client =
              (some (.ok record), client') ∧ tcp.unread client' = rest := by
  refine ⟨fun self sizes => ?_, fun polls client hello client' read => readClientHello_ok read,
    fun polls client stream accepted => acceptorStream_sent accepted,
    fun pace client record rest whole sent =>
      readClientHello_record pace (Nat.le_refl _) whole sent⟩
  refine ⟨_, _, self.reads_eq tcp sizes, ?_, ?_, ?_⟩
  · exact (PrefixedTcp.source tcp).pull_taken sizes self
  · exact (PrefixedTcp.source tcp).pull_ends sizes self
  · exact fun pace enough => (PrefixedTcp.paced tcp pace).pull_all sizes self enough

/- A connection given by what arrives on it, up to an end that is orderly. -/

/-- A poll that finds nothing, or some octets that lie there together. -/
inductive TcpArrival where
  | nothing
  | octets (first : UInt8) (more : Bytes)
  deriving DecidableEq, Repr

namespace TcpArrival

/-- What is left of a piece, in front of what comes after it. -/
def putBack : Bytes → List TcpArrival → List TcpArrival
  | [], later => later
  | b :: bs, later => .octets b bs :: later

def poll : List TcpArrival → Nat → Poll ε × Bytes × List TcpArrival
  | [], _ => (.ready, [], [])
  | .nothing :: later, _ => (.pending, [], later)
  | .octets b bs :: later, 0 => (.ready, [], .octets b bs :: later)
  | .octets b bs :: later, n + 1 => (.ready, b :: bs.take n, putBack (bs.drop n) later)

def bytes : List TcpArrival → Bytes
  | [] => []
  | .nothing :: later => bytes later
  | .octets b bs :: later => b :: bs ++ bytes later

def pollsLeft : List TcpArrival → Nat
  | [] => 0
  | .nothing :: later => 1 + pollsLeft later
  | .octets _ bs :: later => 1 + bs.length + pollsLeft later

theorem bytes_putBack (bs : Bytes) (later : List TcpArrival) :
    bytes (putBack bs later) = bs ++ bytes later := by
  cases bs <;> rfl

theorem pollsLeft_putBack (bs : Bytes) (later : List TcpArrival) :
    pollsLeft (putBack bs later) = bs.length + pollsLeft later := by
  cases bs with
  | nil => exact (Nat.zero_add _).symm
  | cons b bs =>
    simp only [putBack, pollsLeft, List.length_cons]
    omega

def stream : PolledReader (List TcpArrival) UInt8 ε where
  poll := poll
  unread := bytes
  fits s n := by
    fun_cases poll s n with
    | case1 | case2 | case3 => simp
    | case4 => exact Nat.succ_le_succ (List.length_take_le _ _)
  taken s n := by
    fun_cases poll s n with
    | case1 | case2 | case3 => rfl
    | case4 =>
      simp only [bytes, bytes_putBack, List.cons_append, ← List.append_assoc, List.take_append_drop]
  idle s n := by
    fun_cases poll s n <;> simp
  ends s n := by
    fun_cases poll s n <;> simp [bytes]

def paced : (stream : PolledReader (List TcpArrival) UInt8 ε).Paced where
  polls := pollsLeft
  never_more s n := by
    simp only [stream]
    fun_cases poll s n with
    | case1 | case3 => exact Nat.le_refl _
    | case2 => exact Nat.le_add_left _ 1
    | case4 =>
      simp only [pollsLeft, pollsLeft_putBack, List.length_drop]
      omega
  fewer s n room left := by
    simp only [stream] at left ⊢
    fun_cases poll s n with
    | case1 => exact absurd rfl left
    | case2 => exact Nat.lt_add_of_pos_left Nat.one_pos
    | case3 => exact absurd room (Nat.lt_irrefl 0)
    | case4 =>
      simp only [pollsLeft, pollsLeft_putBack, List.length_drop]
      omega
  sound s n e left := by
    simp only [stream]
    fun_cases poll s n <;> nofun

end TcpArrival

/-- A record of two octets, sent in three pieces with another octet behind it. -/
def cutHello : List TcpArrival :=
  [.octets 0x16 [3], .nothing, .octets 1 [0, 2, 0xaa], .octets 0xbb [0xcc]]

/-- The record is found, and reads with more and with less room, one of them with none, give it
back with the octet behind it. -/
theorem cut_hello_replayed :
    (∃ client, readClientHello TcpArrival.stream "early eof" (TcpArrival.pollsLeft cutHello)
        cutHello = (some (.ok [0x16, 3, 1, 0, 2, 0xaa, 0xbb]), client) ∧
          TcpArrival.bytes client = [0xcc]) ∧
      ∃ (done : List (Poll String × Bytes)) (left : PrefixedTcp (List TcpArrival)),
        PrefixedTcp.reads TcpArrival.stream [3, 0, 1, 1, 9, 9, 9, 9, 9]
          ⟨[0x16, 3, 1, 0, 2, 0xaa, 0xbb], [.octets 0xcc []]⟩ = .ok (done, left) ∧
        PolledReader.delivered done = [0x16, 3, 1, 0, 2, 0xaa, 0xbb, 0xcc] := by
  obtain ⟨replayed, _, _, found⟩ := hello_replayed TcpArrival.stream "early eof"
  constructor
  · exact found TcpArrival.paced cutHello _ [0xcc] ⟨by decide, by decide, by decide⟩ rfl
  · obtain ⟨done, left, reads, _, _, all⟩ := replayed
      ⟨[0x16, 3, 1, 0, 2, 0xaa, 0xbb], [.octets 0xcc []]⟩ [3, 0, 1, 1, 9, 9, 9, 9, 9]
    exact ⟨done, left, reads, all TcpArrival.paced (by decide)⟩

end BitBeak
