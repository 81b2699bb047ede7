import BitBeak.Lib.Bytes

/-! The data frames of gRPC: a flag, the length of the message in four octets, and the message. -/
namespace BitBeak.Grpc
open Wire

inductive FrameError where
  | truncated
  | compressed (flag : UInt8)
  deriving DecidableEq, Repr

def FrameError.text : FrameError → String
  | .truncated => "truncated grpc frame"
  | .compressed flag =>
    "compressed gRPC frames are not supported (flag=" ++ toString flag.toNat ++ ")"

/-- A single uncompressed frame. The length is written with 32 bits. -/
def encodeFrame (msg : Bytes) : Bytes := 0 :: toBE 4 (msg.length % 2 ^ 32) ++ msg

/-- The loop, from the cursor `i` on. -/
def decodeFrom (data : Bytes) (i : Nat) (out : List Bytes) : Except FrameError (List Bytes) :=
  if i + 5 ≤ data.length then
    let comp := octet data i
    let len := beAt data (i + 1) 4
    if data.length < i + 5 + len then .error .truncated
    else if comp ≠ 0 then .error (.compressed comp)
    else decodeFrom data (i + 5 + len) (out ++ [span data (i + 5) (i + 5 + len)])
  else .ok out
termination_by data.length - i

def decodeFrames (data : Bytes) : Except FrameError (List Bytes) := decodeFrom data 0 []

theorem length_encodeFrame (msg : Bytes) : (encodeFrame msg).length = 5 + msg.length := by
  simp [encodeFrame]
  omega

/-- One turn of the loop takes the frame that begins at the cursor. -/
theorem decodeFrom_frame (front rest : Bytes) {msg : Bytes} (short : msg.length < 2 ^ 32)
    (out : List Bytes) :
    decodeFrom (front ++ (encodeFrame msg ++ rest)) front.length out =
      decodeFrom (front ++ (encodeFrame msg ++ rest)) (front ++ encodeFrame msg).length
        (out ++ [msg]) := by
  have shape : front ++ (encodeFrame msg ++ rest) =
      (front ++ [0]) ++ (toBE 4 msg.length ++ (msg ++ rest)) := by
    rw [encodeFrame, Nat.mod_eq_of_lt short]
    simp
  have room : front.length + 5 ≤ (front ++ (encodeFrame msg ++ rest)).length := by
    simp only [List.length_append, length_encodeFrame]
    omega
  have comp : octet (front ++ (encodeFrame msg ++ rest)) front.length = 0 := by
    rw [octet_append_right (Nat.le_refl _), Nat.sub_self]
    rfl
  have len : beAt (front ++ (encodeFrame msg ++ rest)) (front.length + 1) 4 = msg.length := by
    have read : beAt (toBE 4 msg.length ++ (msg ++ rest)) 0 4 = msg.length := beAt_toBE short
    rw [shape, beAt_append_right (by simp)]
    simpa using read
  have fits : ¬ (front ++ (encodeFrame msg ++ rest)).length < front.length + 5 + msg.length := by
    simp only [List.length_append, length_encodeFrame]
    omega
  have body : span (front ++ (encodeFrame msg ++ rest)) (front.length + 5)
      (front.length + 5 + msg.length) = msg := by
    rw [shape, ← List.append_assoc (front ++ [0])]
    exact span_middle (by simp) (by simp)
  have next : (front ++ encodeFrame msg).length = front.length + 5 + msg.length := by
    rw [List.length_append, length_encodeFrame, Nat.add_assoc]
  conv_lhs => rw [decodeFrom]
  simp only [room, comp, len, fits, body, next, if_true, if_false, ne_eq, not_true]

/-- The loop passes over whole frames, whatever stands behind them. -/
theorem decodeFrom_passes {msgs : List Bytes} (short : ∀ msg ∈ msgs, msg.length < 2 ^ 32)
    (front tail : Bytes) (out : List Bytes) :
    decodeFrom (front ++ (msgs.flatMap encodeFrame ++ tail)) front.length out =
      decodeFrom (front ++ (msgs.flatMap encodeFrame ++ tail))
        (front ++ msgs.flatMap encodeFrame).length (out ++ msgs) := by
  induction msgs generalizing front out with
  | nil => simp
  | cons msg msgs ih =>
    obtain ⟨first, others⟩ := List.forall_mem_cons.mp short
    have turn := decodeFrom_frame front (msgs.flatMap encodeFrame ++ tail) first out
    have rest := ih others (front ++ encodeFrame msg) (out ++ [msg])
    simp only [List.flatMap_cons, List.append_assoc, List.singleton_append] at turn rest ⊢
    exact turn.trans rest

theorem decodeFrom_frames {msgs : List Bytes} (short : ∀ msg ∈ msgs, msg.length < 2 ^ 32)
    (front : Bytes) (out : List Bytes) :
    decodeFrom (front ++ msgs.flatMap encodeFrame) front.length out = .ok (out ++ msgs) := by
  have passed := decodeFrom_passes short front [] out
  have ended (k : Nat) : ¬ k + 5 ≤ k := by omega
  rw [List.append_nil] at passed
  rw [passed, decodeFrom, if_neg (ended _)]

/-- Decoding takes the frames of any messages apart again, however many there are. -/
theorem decodeFrames_encoded {msgs : List Bytes} (short : ∀ msg ∈ msgs, msg.length < 2 ^ 32) :
    decodeFrames (msgs.flatMap encodeFrame) = .ok msgs :=
  decodeFrom_frames short [] []

/-- An empty message, and one that looks like the head of a frame. -/
theorem decodeFrames_headlike :
    decodeFrames ([[], [0, 0, 0, 0, 9], [0x68, 0x69]].flatMap encodeFrame) =
      .ok [[], [0, 0, 0, 0, 9], [0x68, 0x69]] :=
  decodeFrames_encoded (by decide)

/-- The octets behind the cursor are a frame and what stands behind it. -/
theorem drop_frame {data : Bytes} {i : Nat} (fits : i + 5 + beAt data (i + 1) 4 ≤ data.length)
    (plain : octet data i = 0) :
    data.drop i = encodeFrame (span data (i + 5) (i + 5 + beAt data (i + 1) 4)) ++
      data.drop (i + 5 + beAt data (i + 1) 4) := by
  have width : (span data (i + 5) (i + 5 + beAt data (i + 1) 4)).length = beAt data (i + 1) 4 := by
    rw [length_span fits]
    omega
  have head : (span data (i + 1) (i + 1 + 4)).length = 4 := by
    rw [length_span (by omega)]
    omega
  have bound : beAt data (i + 1) 4 < 2 ^ 32 := beAt_lt data (i + 1) 4
  have length : toBE 4 (beAt data (i + 1) 4) = span data (i + 1) (i + 1 + 4) := by
    have back := toBE_ofBE (span data (i + 1) (i + 1 + 4))
    rwa [head] at back
  have first : data.drop i = octet data i :: data.drop (i + 1) := by
    have inside : i < data.length := by omega
    rw [List.drop_eq_getElem_cons inside]
    simp [octet, inside]
  have cut : ∀ {j k : Nat}, j ≤ k → data.drop j = span data j k ++ data.drop k := by
    intro j k ordered
    have parts := List.take_append_drop (k - j) (data.drop j)
    rw [List.drop_drop, Nat.add_sub_cancel' ordered] at parts
    exact parts.symm
  rw [encodeFrame, width, Nat.mod_eq_of_lt bound, length, first, plain,
    cut (show i + 1 ≤ i + 1 + 4 by omega),
    cut (show i + 1 + 4 ≤ i + 5 + beAt data (i + 1) 4 by omega)]
  simp

/-- What is decoded was encoded with a length of four octets, up to less than a head at the
end. -/
theorem decodeFrom_ok {data : Bytes} {i : Nat} {out msgs : List Bytes}
    (read : decodeFrom data i out = .ok msgs) :
    ∃ more tail, msgs = out ++ more ∧ (∀ msg ∈ more, msg.length < 2 ^ 32) ∧ tail.length < 5 ∧
      data.drop i = more.flatMap encodeFrame ++ tail := by
  induction i, out using decodeFrom.induct data with
  | case1 i out room len cut =>
    rw [decodeFrom, if_pos room, if_pos cut] at read
    cases read
  | case2 i out room comp len fits flagged =>
    rw [decodeFrom, if_pos room, if_neg fits, if_pos flagged] at read
    cases read
  | case3 i out room comp len fits plain ih =>
    rw [decodeFrom, if_pos room, if_neg fits, if_neg plain] at read
    obtain ⟨more, tail, rfl, bounded, short, rest⟩ := ih read
    refine ⟨span data (i + 5) (i + 5 + len) :: more, tail, by simp, ?_, short, ?_⟩
    · have bound : len < 2 ^ 32 := beAt_lt data (i + 1) 4
      refine List.forall_mem_cons.mpr ⟨?_, bounded⟩
      rw [length_span (Nat.le_of_not_lt fits)]
      omega
    · rw [List.flatMap_cons, List.append_assoc, ← rest]
      exact drop_frame (Nat.le_of_not_lt fits) (not_not.mp plain)
  | case4 i out ended =>
    rw [decodeFrom, if_neg ended] at read
    cases read
    refine ⟨[], data.drop i, by simp, by simp, ?_, rfl⟩
    rw [List.length_drop]
    omega

theorem decodeFrames_sound {data : Bytes} {msgs : List Bytes} (read : decodeFrames data = .ok msgs) :
    ∃ tail, tail.length < 5 ∧ data = msgs.flatMap encodeFrame ++ tail := by
  obtain ⟨more, tail, rfl, _, short, whole⟩ := decodeFrom_ok read
  exact ⟨tail, short, whole⟩

/-- The length of a message that was read stood in four octets. -/
theorem decodeFrames_short {data : Bytes} {msgs : List Bytes} (read : decodeFrames data = .ok msgs) :
    ∀ msg ∈ msgs, msg.length < 2 ^ 32 := by
  obtain ⟨more, _, rfl, bounded, _⟩ := decodeFrom_ok read
  exact bounded

/- A body that was cut. -/

/-- The message of a unary call is the first one of its body. -/
def unaryMessage (body : Bytes) : Except FrameError Bytes :=
  (decodeFrames body).map (·.headD [])

/-- The octets are whole frames and a frame of which some octets are missing. -/
def CutInside (data : Bytes) : Prop :=
  ∃ (msgs : List Bytes) (msg : Bytes) (j : Nat), (∀ msg ∈ msgs, msg.length < 2 ^ 32) ∧
    msg.length < 2 ^ 32 ∧ 0 < j ∧ j < (encodeFrame msg).length ∧
    data = msgs.flatMap encodeFrame ++ (encodeFrame msg).take j

/-- The octets are whole frames and less than a head. -/
def EndsInHead (data : Bytes) : Prop :=
  ∃ (msgs : List Bytes) (tail : Bytes), (∀ msg ∈ msgs, msg.length < 2 ^ 32) ∧
    0 < tail.length ∧ tail.length < 5 ∧ data = msgs.flatMap encodeFrame ++ tail

/-- The loop ends without a word where less than a head is left. -/
theorem decodeFrames_head {msgs : List Bytes} (short : ∀ msg ∈ msgs, msg.length < 2 ^ 32)
    {tail : Bytes} (small : tail.length < 5) :
    decodeFrames (msgs.flatMap encodeFrame ++ tail) = .ok msgs := by
  have passed := decodeFrom_passes short [] tail []
  have ended : ¬ (msgs.flatMap encodeFrame).length + 5 ≤
      (msgs.flatMap encodeFrame ++ tail).length := by
    simp only [List.length_append]
    omega
  simp only [List.nil_append, List.length_nil] at passed
  rw [decodeFrames, passed, decodeFrom, if_neg ended]

/-- A frame whose head is whole is asked for all its octets. -/
theorem decodeFrames_cut {msgs : List Bytes} (short : ∀ msg ∈ msgs, msg.length < 2 ^ 32)
    {msg : Bytes} (fits : msg.length < 2 ^ 32) {j : Nat} (head : 5 ≤ j)
    (cut : j < (encodeFrame msg).length) :
    decodeFrames (msgs.flatMap encodeFrame ++ (encodeFrame msg).take j) = .error .truncated := by
  rw [length_encodeFrame] at cut
  have passed := decodeFrom_passes short [] ((encodeFrame msg).take j) []
  simp only [List.nil_append, List.length_nil] at passed
  rw [decodeFrames, passed]
  -- the flag, the length of the message and less octets than that
  have shape : msgs.flatMap encodeFrame ++ (encodeFrame msg).take j =
      (msgs.flatMap encodeFrame ++ [0]) ++ (toBE 4 msg.length ++ msg.take (j - 5)) := by
    have flagged : (encodeFrame msg).take j = 0 :: (toBE 4 msg.length ++ msg).take (j - 1) := by
      have flag : j = (j - 1) + 1 := by omega
      rw [encodeFrame, Nat.mod_eq_of_lt fits, flag, List.cons_append, List.take_succ_cons]
      rfl
    have octets : (toBE 4 msg.length ++ msg).take (j - 1) =
        toBE 4 msg.length ++ msg.take (j - 5) := by
      have all : (toBE 4 msg.length).take (j - 1) = toBE 4 msg.length :=
        List.take_of_length_le (by simp only [length_toBE]; omega)
      rw [List.take_append, all, length_toBE, Nat.sub_sub]
    rw [flagged, octets]
    simp
  have size : (msgs.flatMap encodeFrame ++ (encodeFrame msg).take j).length =
      (msgs.flatMap encodeFrame).length + j := by
    rw [List.length_append, List.length_take, length_encodeFrame, Nat.min_eq_left (by omega)]
  have len : beAt (msgs.flatMap encodeFrame ++ (encodeFrame msg).take j)
      ((msgs.flatMap encodeFrame).length + 1) 4 = msg.length := by
    have read : beAt (toBE 4 msg.length ++ msg.take (j - 5)) 0 4 = msg.length := beAt_toBE fits
    rw [shape, beAt_append_right (by simp)]
    simpa using read
  rw [decodeFrom, if_pos (by omega)]
  simp only [len, size]
  rw [if_pos (by omega)]

/-- What is read is the whole of the octets, and a cut frame is told, unless the octets end in
the head of a frame. -/
theorem decodeFrames_whole_iff (data : Bytes) :
    ((∀ msgs, decodeFrames data = .ok msgs → data = msgs.flatMap encodeFrame) ∧
      (CutInside data → decodeFrames data = .error .truncated ∧
        unaryMessage data = .error .truncated)) ↔ ¬ EndsInHead data := by
  constructor
  · rintro ⟨whole, -⟩ ⟨msgs, tail, short, some, small, rfl⟩
    have same := whole msgs (decodeFrames_head short small)
    have none : tail = [] := by simpa using same
    simp [none] at some
  · intro clean
    constructor
    · intro msgs read
      obtain ⟨tail, small, shape⟩ := decodeFrames_sound read
      have short : ∀ msg ∈ msgs, msg.length < 2 ^ 32 := decodeFrames_short read
      by_cases none : tail = []
      · simpa [none] using shape
      · exact absurd ⟨msgs, tail, short, List.length_pos_iff.mpr none, small, shape⟩ clean
    · rintro ⟨msgs, msg, j, short, fits, some, cut, rfl⟩
      have head : 5 ≤ j := by
        by_contra below
        refine clean ⟨msgs, (encodeFrame msg).take j, short, ?_, ?_, rfl⟩
        all_goals simp only [List.length_take]; omega
      have told := decodeFrames_cut short fits head cut
      exact ⟨told, by rw [unaryMessage, told]; rfl⟩

/-- Three octets of the only frame: the call has an empty message. -/
theorem decodeFrames_head_lost :
    CutInside [0, 0, 0] ∧ decodeFrames [0, 0, 0] = .ok [] ∧ unaryMessage [0, 0, 0] = .ok [] ∧
      ([0, 0, 0] : Bytes) ≠ ([] : List Bytes).flatMap encodeFrame := by
  have read : decodeFrames [0, 0, 0] = .ok [] := by
    rw [decodeFrames, decodeFrom]
    simp
  refine ⟨⟨[], [0x68, 0x69], 3, by simp, by simp, by decide, by decide, by decide⟩, read, ?_,
    by decide⟩
  rw [unaryMessage, read]
  rfl

end BitBeak.Grpc
