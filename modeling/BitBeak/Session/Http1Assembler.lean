import BitBeak.Dissect.HttpObjects
import BitBeak.Lib.Peel

/-! The assembler of HTTP/1 messages behind the proxy: what was read is kept until a head and the
body it announces are there. -/
namespace BitBeak
open Wire Occurrence Peel

/- The source. -/

/-- What stops a push: a sum that does not fit where sums are checked, and a cut behind the end of
the buffer. `outOfFuel` is a loop that is not over. -/
inductive PushFault where
  | overflow
  | outOfRange
  | outOfFuel
  deriving DecidableEq, Repr

/-- Whether a build checks sums. One that does not keeps their low 64 bits. -/
inductive Build where
  | checked
  | wrapping
  deriving DecidableEq, Repr

def Build.add : Build → Nat → Nat → Except PushFault Nat
  | .checked, a, b => if a + b < 2 ^ 64 then .ok (a + b) else .error .overflow
  | .wrapping, a, b => .ok ((a + b) % 2 ^ 64)

structure HttpMsg where
  tag : String
  body : Bytes
  deriving DecidableEq, Repr

structure Http1Assembler where
  buf : Bytes
  isRequest : Bool
  deriving DecidableEq, Repr

def emptyCrlf : Bytes := [13, 10, 13, 10]
def emptyLf : Bytes := [10, 10]

/-- Where the pattern begins first. -/
def position (pat buf : Bytes) : Option Nat := (cut pat buf).map (·.1.length)

/-- What is read in front of a body. -/
structure Http1Head where
  sepLen : Nat
  headEnd : Nat
  first : String
  contentLen : Option Nat
  deriving DecidableEq, Repr

/-- What a header line makes of the length that is known. -/
def lengthAfter (contentLen : Option Nat) (line : List Char) : Option Nat :=
  match splitOnce ':' (String.ofList line) with
  | some (k, v) =>
    if eqIgnoreAsciiCase k "content-length" then parseUnsigned (2 ^ 64) (trim v) else contentLen
  | none => contentLen

def readHead (buf : Bytes) : Option Http1Head :=
  ((position emptyCrlf buf).or (position emptyLf buf)).map fun sep =>
    let (sepLen, headEnd) := if emptyCrlf.isPrefixOf (buf.drop sep) then (4, sep) else (2, sep)
    let headStr := (fromUtf8Lossy (buf.take headEnd)).toList
    { sepLen := sepLen
      headEnd := headEnd
      first := trim (String.ofList ((textLines headStr).head?.getD []))
      contentLen := (textLines headStr).tail.foldl lengthAfter none }

def messageTag (isRequest : Bool) (first : String) : String :=
  if isRequest then
    let parts := splitWhitespace first
    "HTTP " ++ (parts[0]?.getD "REQ" ++ " " ++ parts[1]?.getD "/")
  else "HTTP " ++ first

def preview (frame : Bytes) : Bytes := if 4096 < frame.length then frame.take 4096 else frame

namespace Http1Assembler

def new (isRequest : Bool) : Http1Assembler where
  buf := []
  isRequest := isRequest

section
variable (build : Build)

def tryPop (a : Http1Assembler) : Except PushFault (Option (HttpMsg × Http1Assembler)) := do
  match readHead a.buf with
  | none => return none
  | some head =>
    let bodyStart ← build.add head.headEnd head.sepLen
    let bodyLen := head.contentLen.getD 0
    if a.buf.length < (← build.add bodyStart bodyLen) then return none
    else
      let total ← build.add bodyStart bodyLen
      if a.buf.length < total then throw .outOfRange
      else
        return some (⟨messageTag a.isRequest head.first, preview (a.buf.take total)⟩,
          { a with buf := a.buf.drop total })

/-- The loop over the messages that are there. -/
def popAll : Nat → Http1Assembler → Except PushFault (List HttpMsg × Http1Assembler)
  | 0, _ => throw .outOfFuel
  | fuel + 1, a => do
    match ← a.tryPop build with
    | none => return ([], a)
    | some (msg, a) => do
      let (out, a) ← popAll fuel a
      return (msg :: out, a)

def push (fuel : Nat) (a : Http1Assembler) (chunk : Bytes) :
    Except PushFault (List HttpMsg × Http1Assembler) :=
  popAll build fuel { a with buf := a.buf ++ chunk }

/-- One push for each chunk. -/
def pushes (fuel : Nat) (a : Http1Assembler) :
    List Bytes → Except PushFault (List HttpMsg × Http1Assembler)
  | [] => return ([], a)
  | chunk :: chunks => do
    let (out, a) ← a.push build fuel chunk
    let (later, a) ← a.pushes fuel chunks
    return (out ++ later, a)

end

end Http1Assembler

/- Messages where sums have no bound. -/

/-- What is read of a head that ends here. -/
def headOf (sepLen : Nat) (octets : Bytes) : Http1Head where
  sepLen := sepLen
  headEnd := octets.length
  first := trim (String.ofList ((textLines (fromUtf8Lossy octets).toList).head?.getD []))
  contentLen := (textLines (fromUtf8Lossy octets).toList).tail.foldl lengthAfter none

namespace Http1Head

variable (head : Http1Head)

def bodyLen : Nat := head.contentLen.getD 0

/-- Where the message ends. -/
def messageEnd : Nat := head.headEnd + head.sepLen + head.bodyLen

end Http1Head

/-- The end of the message that begins with this head can be told in 64 bits. -/
def Room (buf : Bytes) : Prop := ∀ head, readHead buf = some head → head.messageEnd < 2 ^ 64

/-- The message in front of the rest. -/
def popMessage (isRequest : Bool) (buf : Bytes) : Option (HttpMsg × Bytes) :=
  (readHead buf).bind fun head =>
    if buf.length < head.messageEnd then none
    else some (⟨messageTag isRequest head.first, (buf.take head.messageEnd).take 4096⟩,
      buf.drop head.messageEnd)

theorem preview_eq (frame : Bytes) : preview frame = frame.take 4096 := by
  rw [preview]
  split
  · rfl
  · next short => rw [List.take_of_length_le (Nat.le_of_not_lt short)]

theorem readHead_crlf {buf head rest : Bytes} (found : cut emptyCrlf buf = some (head, rest)) :
    readHead buf = some (headOf 4 head) := by
  have whole := eq_of_cut found
  have begins : emptyCrlf.isPrefixOf (buf.drop head.length) = true := by
    rw [whole, List.drop_left, List.isPrefixOf_iff_prefix]
    exact List.prefix_append _ _
  have front : buf.take head.length = head := by rw [whole, List.take_left]
  rw [readHead, position, found, Option.map_some, Option.some_or, Option.map_some, if_pos begins]
  dsimp only
  rw [front]
  rfl

theorem readHead_lf {buf head rest : Bytes} (unclosed : cut emptyCrlf buf = none)
    (found : cut emptyLf buf = some (head, rest)) : readHead buf = some (headOf 2 head) := by
  have whole := eq_of_cut found
  have other : ¬ emptyCrlf.isPrefixOf (buf.drop head.length) = true := by
    rw [whole, List.drop_left, List.isPrefixOf_iff_prefix]
    simp [emptyCrlf, emptyLf]
  have front : buf.take head.length = head := by rw [whole, List.take_left]
  rw [readHead, position, unclosed, position, found, Option.map_none, Option.none_or,
    Option.map_some, Option.map_some, if_neg other]
  dsimp only
  rw [front]
  rfl

theorem readHead_none {buf : Bytes} (unclosed : cut emptyCrlf buf = none)
    (open' : cut emptyLf buf = none) : readHead buf = none := by
  rw [readHead, position, unclosed, position, open']
  rfl

/-- How a head is found: it ends at the first empty line, or at the first empty line of line feeds
where there is none. -/
theorem readHead_cases {buf : Bytes} {head : Http1Head} (found : readHead buf = some head) :
    ∃ octets rest, (cut emptyCrlf buf = some (octets, rest) ∧ head = headOf 4 octets) ∨
      (cut emptyCrlf buf = none ∧ cut emptyLf buf = some (octets, rest) ∧
        head = headOf 2 octets) := by
  cases crlf : cut emptyCrlf buf with
  | some x =>
    obtain ⟨octets, rest⟩ := x
    cases (readHead_crlf crlf).symm.trans found
    exact ⟨octets, rest, .inl ⟨rfl, rfl⟩⟩
  | none =>
    cases lf : cut emptyLf buf with
    | some x =>
      obtain ⟨octets, rest⟩ := x
      cases (readHead_lf crlf lf).symm.trans found
      exact ⟨octets, rest, .inr ⟨rfl, rfl, rfl⟩⟩
    | none => exact absurd ((readHead_none crlf lf).symm.trans found) (by simp)

theorem readHead_pos {buf : Bytes} {head : Http1Head} (found : readHead buf = some head) :
    0 < head.sepLen := by
  obtain ⟨octets, rest, ⟨_, rfl⟩ | ⟨_, _, rfl⟩⟩ := readHead_cases found
  · exact Nat.succ_pos 3
  · exact Nat.succ_pos 1

theorem cut_none_front {pat u v : Bytes} (nonempty : pat ≠ []) (without : cut pat (u ++ v) = none) :
    cut pat u = none := by
  rw [cut_eq_none_iff nonempty] at without ⊢
  exact fun inside => without (inside.trans (List.prefix_append u v).isInfix)

/-- A head is read where it ends. -/
theorem readHead_within {u v : Bytes} {head : Http1Head} (found : readHead (u ++ v) = some head)
    (inside : head.headEnd + head.sepLen ≤ u.length) : readHead u = some head := by
  have ended : ∀ {pat octets rest : Bytes}, pat ≠ [] → cut pat (u ++ v) = some (octets, rest) →
      octets.length + pat.length ≤ u.length → ∃ tail, cut pat u = some (octets, tail) := by
    intro pat octets rest nonempty here fits
    have whole := eq_of_cut here
    rw [← List.append_assoc] at whole
    have short : (octets ++ pat).length ≤ u.length := by rwa [List.length_append]
    obtain ⟨tail, rfl⟩ := List.prefix_of_prefix_length_le ⟨rest, whole.symm⟩
      (List.prefix_append u v) short
    rw [List.append_assoc (octets ++ pat)] at whole
    rw [← List.append_cancel_left whole] at here
    exact ⟨tail, cut_within nonempty here⟩
  obtain ⟨octets, rest, ⟨crlf, rfl⟩ | ⟨unclosed, lf, rfl⟩⟩ := readHead_cases found
  · obtain ⟨tail, here⟩ := ended (by decide) crlf inside
    exact readHead_crlf here
  · obtain ⟨tail, here⟩ := ended (by decide) lf inside
    exact readHead_lf (cut_none_front (by decide) unclosed) here

theorem popMessage_eq {isRequest : Bool} {buf rest : Bytes} {msg : HttpMsg}
    (popped : popMessage isRequest buf = some (msg, rest)) :
    ∃ head, readHead buf = some head ∧ head.messageEnd ≤ buf.length ∧
      msg = ⟨messageTag isRequest head.first, (buf.take head.messageEnd).take 4096⟩ ∧
      rest = buf.drop head.messageEnd := by
  obtain ⟨head, found, popped⟩ := Option.bind_eq_some_iff.mp popped
  split at popped
  · cases popped
  · next long =>
    cases popped
    exact ⟨head, found, Nat.le_of_not_lt long, rfl, rfl⟩

theorem popMessage_some (isRequest : Bool) {buf : Bytes} {head : Http1Head}
    (found : readHead buf = some head) (long : head.messageEnd ≤ buf.length) :
    popMessage isRequest buf =
      some (⟨messageTag isRequest head.first, (buf.take head.messageEnd).take 4096⟩,
        buf.drop head.messageEnd) := by
  rw [popMessage, found, Option.bind_some, if_neg (Nat.not_lt.mpr long)]

/-- Messages are taken off the front. -/
def messages (isRequest : Bool) : Peeler UInt8 HttpMsg where
  pop := popMessage isRequest
  front := by
    intro buf msg rest popped
    obtain ⟨head, found, long, _, rfl⟩ := popMessage_eq popped
    refine ⟨buf.take head.messageEnd, ?_, (List.take_append_drop _ _).symm⟩
    have pos := readHead_pos found
    have some : 0 < (buf.take head.messageEnd).length := by
      rw [List.length_take, Http1Head.messageEnd] at *
      omega
    exact List.length_pos_iff.mp some
  within := by
    intro u v msg rest popped
    obtain ⟨head, found, long, rfl, behind⟩ := popMessage_eq popped
    have inside : head.messageEnd ≤ u.length := by
      have lengths := congrArg List.length behind
      rw [List.length_drop, List.length_append, List.length_append] at lengths
      rw [List.length_append] at long
      omega
    have first := readHead_within found (Nat.le_trans (Nat.le_add_right _ _) inside)
    rw [popMessage_some isRequest first inside, List.take_append_of_le_length inside]
    rw [List.drop_append_of_le_length inside] at behind
    rw [List.append_cancel_right behind]

/- Pushes take these messages where every end can be told. -/

theorem Build.add_ok (build : Build) {a b : Nat} (small : a + b < 2 ^ 64) :
    build.add a b = .ok (a + b) := by
  cases build with
  | checked => exact if_pos small
  | wrapping => rw [Build.add, Nat.mod_eq_of_lt small]

theorem Build.add_checked {a b sum : Nat} (added : Build.add .checked a b = .ok sum) :
    a + b < 2 ^ 64 := by
  rw [Build.add] at added
  split at added
  · assumption
  · cases added

namespace Http1Assembler

variable {build : Build} {a a' : Http1Assembler} {fuel : Nat}

theorem tryPop_room (build : Build) (room : Room a.buf) : a.tryPop build =
    .ok ((popMessage a.isRequest a.buf).map fun x => (x.1, { a with buf := x.2 })) := by
  rw [tryPop, popMessage]
  cases found : readHead a.buf with
  | none => rfl
  | some head =>
    have small := room head found
    rw [Http1Head.messageEnd, Http1Head.bodyLen] at small
    have sum : build.add (head.headEnd + head.sepLen) (head.contentLen.getD 0) =
        .ok head.messageEnd := build.add_ok small
    dsimp only
    rw [bind_of_ok (build.add_ok (by omega)), bind_of_ok sum, Option.bind_some]
    split
    · rfl
    · next long =>
      rw [bind_of_ok sum, if_neg long, preview_eq]
      rfl

/-- A build that checks sums goes on only where the end can be told. -/
theorem room_of_tryPop {x : Option (HttpMsg × Http1Assembler)}
    (ran : a.tryPop .checked = .ok x) : Room a.buf := by
  intro head found
  rw [tryPop, found] at ran
  dsimp only at ran
  obtain ⟨bodyStart, start, ran⟩ := ok_of_bind ran
  obtain ⟨total, sum, _⟩ := ok_of_bind ran
  have first := Build.add_checked start
  rw [Build.add_ok .checked first] at start
  cases start
  exact Build.add_checked sum

theorem tryPop_checked {x : Option (HttpMsg × Http1Assembler)} (ran : a.tryPop .checked = .ok x) :
    x = (popMessage a.isRequest a.buf).map fun x => (x.1, { a with buf := x.2 }) :=
  Except.ok.inj (ran.symm.trans (tryPop_room .checked (room_of_tryPop ran)))

theorem popAll_room {ms : List HttpMsg} {rest : Bytes}
    (room : ∀ out buf, (messages a.isRequest).Items a.buf out buf → Room buf)
    (items : (messages a.isRequest).Items a.buf ms rest)
    (last : (messages a.isRequest).pop rest = none) (enough : a.buf.length < fuel) :
    a.popAll build fuel = .ok (ms, { a with buf := rest }) := by
  obtain ⟨buf, isRequest⟩ := a
  dsimp only at room items last enough ⊢
  induction items generalizing fuel with
  | here buf =>
    obtain ⟨fuel, rfl⟩ := Nat.exists_eq_succ_of_ne_zero (Nat.ne_zero_of_lt enough)
    have popped := tryPop_room build (a := ⟨buf, isRequest⟩) (room [] buf (.here buf))
    have none : popMessage isRequest buf = none := last
    rw [none] at popped
    rw [popAll, bind_of_ok popped]
    rfl
  | @next buf after rest msg ms first _ ih =>
    obtain ⟨fuel, rfl⟩ := Nat.exists_eq_succ_of_ne_zero (Nat.ne_zero_of_lt enough)
    have popped := tryPop_room build (a := ⟨buf, isRequest⟩) (room [] buf (.here buf))
    have some : popMessage isRequest buf = some (msg, after) := first
    have shorter := Peeler.shorter first
    have left : after.length < fuel := by omega
    have later := ih (fun out t items => room (msg :: out) t (.next first items)) last left
    rw [some] at popped
    rw [popAll, bind_of_ok popped]
    dsimp only [Option.map_some]
    rw [bind_of_ok later]
    rfl

theorem popAll_checked {ms : List HttpMsg} (ran : a.popAll .checked fuel = .ok (ms, a')) :
    a'.isRequest = a.isRequest ∧ (messages a.isRequest).Items a.buf ms a'.buf ∧
      (messages a.isRequest).pop a'.buf = none ∧
      ∀ out buf, (messages a.isRequest).Items a.buf out buf → Room buf := by
  induction fuel generalizing a ms with
  | zero => cases ran
  | succ fuel ih =>
    rw [popAll] at ran
    obtain ⟨x, popped, ran⟩ := ok_of_bind ran
    have room := room_of_tryPop popped
    cases found : popMessage a.isRequest a.buf with
    | none =>
      have none : x = none := by
        rw [tryPop_checked popped, found]
        rfl
      subst none
      cases ran
      refine ⟨rfl, .here _, found, fun out buf items => ?_⟩
      cases items with
      | here => exact room
      | next first => exact absurd (found.symm.trans first) (by simp)
    | some y =>
      obtain ⟨msg, rest⟩ := y
      have some : x = some (msg, { a with buf := rest }) := by
        rw [tryPop_checked popped, found]
        rfl
      subst some
      obtain ⟨⟨out, b⟩, later, ran⟩ := ok_of_bind ran
      cases ran
      obtain ⟨same, items, last, others⟩ := ih later
      refine ⟨same, .next found items, last, fun out buf items => ?_⟩
      cases items with
      | here => exact room
      | next first behind =>
        cases found.symm.trans first
        exact others _ _ behind

theorem pushes_room {chunks : List Bytes} {ms : List HttpMsg} {rest : Bytes}
    (room : ∀ buf, (messages a.isRequest).Seen a.buf chunks buf → Room buf)
    (fed : (messages a.isRequest).Fed a.buf chunks ms rest)
    (enough : a.buf.length + chunks.flatten.length < fuel) :
    a.pushes build fuel chunks = .ok (ms, { a with buf := rest }) := by
  obtain ⟨buf, isRequest⟩ := a
  dsimp only at room fed enough ⊢
  induction fed with
  | nil held => rfl
  | @cons held chunk left final chunks bs cs items last _ ih =>
    rw [List.flatten_cons, List.length_append] at enough
    have within : (held ++ chunk).length < fuel := by
      rw [List.length_append]
      omega
    have pushed : push build fuel ⟨held, isRequest⟩ chunk = .ok (bs, ⟨left, isRequest⟩) :=
      popAll_room (a := ⟨held ++ chunk, isRequest⟩) (fun out buf items => room buf (.here items))
        items last within
    have kept : left.length ≤ held.length + chunk.length := by
      obtain ⟨front, whole⟩ := items.front
      have lengths := congrArg List.length whole
      rw [List.length_append, List.length_append] at lengths
      omega
    have later := ih (fun buf seen => room buf (.later items last seen)) (by omega)
    rw [pushes, bind_of_ok pushed]
    dsimp only
    rw [bind_of_ok later]
    rfl

theorem pushes_checked {chunks : List Bytes} {ms : List HttpMsg}
    (ran : a.pushes .checked fuel chunks = .ok (ms, a')) :
    (messages a.isRequest).Fed a.buf chunks ms a'.buf ∧
      ∀ buf, (messages a.isRequest).Seen a.buf chunks buf → Room buf := by
  induction chunks generalizing a ms with
  | nil =>
    cases ran
    refine ⟨.nil _, fun buf seen => ?_⟩
    cases seen
  | cons chunk chunks ih =>
    rw [pushes] at ran
    obtain ⟨⟨out, b⟩, pushed, ran⟩ := ok_of_bind ran
    obtain ⟨⟨later, c⟩, others, ran⟩ := ok_of_bind ran
    cases ran
    obtain ⟨same, items, last, room⟩ := popAll_checked pushed
    dsimp only at same items last room
    obtain ⟨fed, seen⟩ := ih others
    rw [same] at fed seen
    refine ⟨.cons items last fed, fun buf looked => ?_⟩
    cases looked with
    | here early => exact room _ _ early
    | later early wait behind =>
      obtain ⟨_, rfl⟩ := early.unique wait items last
      exact seen buf behind

end Http1Assembler

/-- Every push ends, sums what fits and cuts within the buffer, in both builds and with one result,
exactly where the end of every message that is looked at can be told in 64 bits. -/
theorem pushes_ok_iff (isRequest : Bool) (chunks : List Bytes) :
    (∃ out, ∀ build fuel, chunks.flatten.length < fuel →
        (Http1Assembler.new isRequest).pushes build fuel chunks = .ok out) ↔
      ∀ buf, (messages isRequest).Seen [] chunks buf → Room buf := by
  constructor
  · rintro ⟨⟨ms, a⟩, ran⟩
    exact (Http1Assembler.pushes_checked (ran .checked _ (Nat.lt_succ_self _))).2
  · intro room
    obtain ⟨ms, rest, fed⟩ := Peeler.exists_fed (p := messages isRequest) [] chunks
    refine ⟨(ms, ⟨rest, isRequest⟩), fun build fuel enough => ?_⟩
    apply Http1Assembler.pushes_room room fed
    rwa [Http1Assembler.new, List.length_nil, Nat.zero_add]

/- A length that takes the sum to 2^64. -/

/-- Where the sum comes to nothing the loop takes nothing, again and again. -/
theorem Http1Assembler.popAll_endless {a : Http1Assembler} {head : Http1Head}
    (found : readHead a.buf = some head) (wraps : head.messageEnd = 2 ^ 64)
    (short : head.headEnd + head.sepLen < 2 ^ 64) (fuel : Nat) :
    a.popAll .wrapping fuel = .error .outOfFuel := by
  have popped : a.tryPop .wrapping =
      .ok (some (⟨messageTag a.isRequest head.first, preview []⟩, a)) := by
    have sum : Build.add .wrapping (head.headEnd + head.sepLen) (head.contentLen.getD 0) = .ok 0 :=
      congrArg (fun n => Except.ok (n % 2 ^ 64)) wraps
    rw [tryPop, found]
    dsimp only
    rw [bind_of_ok (Build.add_ok .wrapping short), bind_of_ok sum, if_neg (Nat.not_lt_zero _),
      bind_of_ok sum, if_neg (Nat.not_lt_zero _)]
    rfl
  induction fuel with
  | zero => rfl
  | succ fuel ih =>
    rw [popAll, bind_of_ok popped]
    dsimp only
    rw [ih]
    rfl

def endless : Bytes :=
  Utf8.encode "POST / HTTP/1.1\r\nContent-Length: 18446744073709551559\r\n\r\n".toList

theorem readHead_endless : readHead endless = some
    { sepLen := 4, headEnd := 53, first := "POST / HTTP/1.1"
      contentLen := some 18446744073709551559 } := by
  decide +kernel

/-- One request stops a build that checks sums, and keeps another busy forever. -/
theorem endless_push :
    (∀ fuel, (Http1Assembler.new true).pushes .checked (fuel + 1) [endless] = .error .overflow) ∧
      ∀ fuel, (Http1Assembler.new true).pushes .wrapping fuel [endless] = .error .outOfFuel := by
  constructor
  · intro fuel
    have stops : Http1Assembler.tryPop .checked ⟨endless, true⟩ = .error .overflow := by
      rw [Http1Assembler.tryPop, readHead_endless]
      rfl
    have pushed : (Http1Assembler.new true).push .checked (fuel + 1) endless = .error .overflow := by
      change Http1Assembler.popAll .checked (fuel + 1) ⟨endless, true⟩ = .error .overflow
      rw [Http1Assembler.popAll, stops]
      rfl
    rw [Http1Assembler.pushes, pushed]
    rfl
  · intro fuel
    have pushed : (Http1Assembler.new true).push .wrapping fuel endless = .error .outOfFuel :=
      Http1Assembler.popAll_endless (a := ⟨endless, true⟩) readHead_endless (by decide) (by decide) fuel
    rw [Http1Assembler.pushes, pushed]
    rfl

/- Cuts that show. -/

/-- Where a head ends at an empty line, no message of a head that ends at line feeds is complete in
front of the end of that line. -/
def Undivided (buf : Bytes) : Prop :=
  ∀ head rest first behind, cut emptyCrlf buf = some (head, rest) →
    cut emptyLf (head ++ [13, 10, 13]) = some (first, behind) →
      behind.length < (headOf 2 first).bodyLen

theorem messageEnd_le_iff {n : Nat} {octets pat rest buf : Bytes} (width : pat.length = n)
    (whole : buf = octets ++ (pat ++ rest)) :
    (headOf n octets).messageEnd ≤ buf.length ↔ (headOf n octets).bodyLen ≤ rest.length := by
  have total : (headOf n octets).messageEnd = octets.length + n + (headOf n octets).bodyLen := rfl
  rw [total, whole, List.length_append, List.length_append, width]
  omega

/-- The head of a message that is there is the head also when more has come. -/
theorem readHead_append {u v : Bytes} {head : Http1Head} (undivided : Undivided (u ++ v))
    (found : readHead u = some head) (long : head.messageEnd ≤ u.length) :
    readHead (u ++ v) = some head := by
  obtain ⟨octets, tail, ⟨crlf, rfl⟩ | ⟨unclosed, lf, rfl⟩⟩ := readHead_cases found
  · exact readHead_crlf (cut_append crlf v)
  · cases later : cut emptyCrlf (u ++ v) with
    | none => exact readHead_lf later (cut_append lf v)
    | some x =>
      obtain ⟨head, behind⟩ := x
      have short : u.length < head.length + 4 :=
        (cut_eq_none_iff_short (by decide) later).mp unclosed
      have front : u <+: head ++ [13, 10, 13] := by
        apply List.prefix_of_prefix_length_le (List.prefix_append u v) ⟨10 :: behind, _⟩
        · rw [List.length_append]
          exact Nat.le_of_lt_succ short
        · rw [eq_of_cut later, emptyCrlf]
          simp
      obtain ⟨w, same⟩ := front
      have first := cut_append lf w
      rw [same] at first
      have needed := undivided head behind octets _ later first
      have there := (messageEnd_le_iff (n := 2) rfl (eq_of_cut lf)).mp long
      rw [List.length_append] at needed
      omega

/-- A message that the end of an empty line takes back was cut off before that end. -/
theorem undivided_of_calm {isRequest : Bool} {buf : Bytes} (calm : (messages isRequest).Calm buf) :
    Undivided buf := by
  intro head rest first behind crlf lf
  apply Nat.lt_of_not_le
  intro complete
  have whole : buf = (head ++ [13, 10, 13]) ++ (10 :: rest) := by
    rw [eq_of_cut crlf, emptyCrlf]
    simp
  have unclosed : cut emptyCrlf (head ++ [13, 10, 13]) = none := by
    rw [cut_eq_none_iff_short (by decide) (whole ▸ crlf), List.length_append]
    exact Nat.lt_succ_self _
  have early := popMessage_some isRequest (readHead_lf unclosed lf)
    ((messageEnd_le_iff rfl (eq_of_cut lf)).mpr complete)
  have late := calm _ _ _ _ whole early
  obtain ⟨head', found, long, _, rest'⟩ := popMessage_eq late
  cases (readHead_crlf crlf).symm.trans found
  -- What stands behind the message of the empty line is less than what arrived behind the other.
  have lengths := congrArg List.length rest'
  have total : (headOf 4 head).messageEnd = head.length + 4 + (headOf 4 head).bodyLen := rfl
  have size : buf.length = head.length + 4 + rest.length := by
    rw [whole]
    simp only [List.length_append, List.length_cons, List.length_nil]
    omega
  simp only [List.length_append, List.length_drop, List.length_cons] at lengths
  omega

/-- Only a message whose head ends at line feeds can turn out to be none, where an empty line
comes. -/
theorem calm_iff (isRequest : Bool) (buf : Bytes) :
    (messages isRequest).Calm buf ↔ Undivided buf := by
  refine ⟨undivided_of_calm, ?_⟩
  rintro undivided u v msg rest rfl popped
  obtain ⟨head, found, long, rfl, rfl⟩ := popMessage_eq popped
  have fits : head.messageEnd ≤ (u ++ v).length := by
    rw [List.length_append]
    omega
  change popMessage isRequest (u ++ v) = _
  rw [popMessage_some isRequest (readHead_append undivided found long) fits,
    List.take_append_of_le_length long, List.drop_append_of_le_length long]

theorem steady_iff (isRequest : Bool) (s : Bytes) :
    (messages isRequest).Steady s ↔
      ∀ ms t, (messages isRequest).Items s ms t → Undivided t := by
  simp only [Peeler.Steady, calm_iff]

/-- At every time the cuts do not show, in either build, exactly where at every message no head
that ends at line feeds makes a message in front of an empty line, and every end can be told. -/
theorem cuts_hidden_iff (isRequest : Bool) (s : Bytes) :
    (∀ u, u <+: s → ∃ out, ∀ build chunks fuel, chunks.flatten = u → u.length < fuel →
        (Http1Assembler.new isRequest).pushes build fuel chunks = .ok out) ↔
      ∀ ms t, (messages isRequest).Items s ms t → Undivided t ∧ ∀ u, u <+: t → Room u := by
  constructor
  · intro hidden
    have runs : ∀ u, u <+: s → ∃ ms rest, ∀ chunks, chunks.flatten = u →
        (messages isRequest).Fed [] chunks ms rest ∧
          ∀ buf, (messages isRequest).Seen [] chunks buf → Room buf := by
      intro u front
      obtain ⟨⟨ms, a⟩, ran⟩ := hidden u front
      refine ⟨ms, a.buf, fun chunks same => ?_⟩
      exact Http1Assembler.pushes_checked (ran .checked chunks _ same (Nat.lt_succ_self _))
    have steady : (messages isRequest).Steady s := by
      rw [← Peeler.independent_iff]
      intro u front chunks pieces bs cs left rest same same' fed fed'
      obtain ⟨ms, last, ran⟩ := runs u front
      obtain ⟨rfl, rfl⟩ := fed.unique (ran chunks same).1
      obtain ⟨rfl, rfl⟩ := fed'.unique (ran pieces same').1
      exact ⟨rfl, rfl⟩
    intro ms t items
    refine ⟨(steady_iff isRequest s).mp steady ms t items, ?_⟩
    rintro u ⟨v, rfl⟩
    obtain ⟨front, rfl⟩ := items.front
    obtain ⟨_, _, ran⟩ := runs (front ++ u) ⟨v, List.append_assoc ..⟩
    -- Read in two chunks, the messages in front are gone when `u` arrives.
    apply (ran [front, u] (by simp)).2
    exact .later (Peeler.Items.within items) Peeler.pop_nil (.here (.here _))
  · rintro condition u ⟨v, rfl⟩
    have steady : (messages isRequest).Steady (u ++ v) :=
      (steady_iff isRequest _).mpr fun ms t items => (condition ms t items).1
    obtain ⟨ms, rest, once⟩ := Peeler.exists_fed (p := messages isRequest) [] [u]
    refine ⟨(ms, ⟨rest, isRequest⟩), fun build chunks fuel same enough => ?_⟩
    obtain ⟨out, left, fed⟩ := Peeler.exists_fed (p := messages isRequest) [] chunks
    obtain ⟨rfl, rfl⟩ := steady.independent _ _ _ _ _ _ same (by simp) fed once
    apply Http1Assembler.pushes_room _ fed
    · rwa [Http1Assembler.new, List.length_nil, Nat.zero_add, same]
    · intro buf looked
      obtain ⟨before, w, items⟩ := Peeler.Steady.seen [] (v := v) (same ▸ steady) looked
      rw [List.nil_append, same] at items
      exact (condition before _ items).2 buf (List.prefix_append buf w)

/-- A line, an empty line of line feeds, and a line with an empty line. -/
def twoLines : Bytes := Utf8.encode "GET /a\n\nGET /b\r\n\r\n".toList

/-- In one piece it is one message, in two it is two. -/
theorem cuts_show :
    (∀ build, (Http1Assembler.new true).pushes build 19 [twoLines] =
        .ok ([⟨"HTTP GET /a", twoLines⟩], .new true)) ∧
      ∀ build, (Http1Assembler.new true).pushes build 19 [twoLines.take 8, twoLines.drop 8] =
        .ok ([⟨"HTTP GET /a", twoLines.take 8⟩, ⟨"HTTP GET /b", twoLines.drop 8⟩], .new true) := by
  constructor
  · intro build
    cases build <;> decide +kernel
  · intro build
    cases build <;> decide +kernel

end BitBeak
