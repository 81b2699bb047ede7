import BitBeak.Lib.Bytes
import Mathlib.Data.List.Basic

/-! Mutations of a payload. Positions and octets are drawn from a generator of 64 bits, and an
index or a divisor that does not fit is a fault. -/
namespace BitBeak
open Wire

/-- The state of the generator. -/
structure XorShift64 where
  state : UInt64
  deriving DecidableEq, Repr

namespace XorShift64

def new (seed : UInt64) : XorShift64 := ⟨max seed 1⟩

/-- The number drawn is the next state. -/
def next (rng : XorShift64) : XorShift64 :=
  let x := rng.state
  let x := x ^^^ (x <<< 13)
  let x := x ^^^ (x >>> 7)
  let x := x ^^^ (x <<< 17)
  ⟨x⟩

def genRange (rng : XorShift64) (max : Nat) : Nat × XorShift64 :=
  if max = 0 then (0, rng) else (rng.next.state.toNat % max, rng.next)

def genU8 (rng : XorShift64) : UInt8 × XorShift64 := (rng.next.state.toUInt8, rng.next)

theorem genRange_lt (rng : XorShift64) {max : Nat} (positive : 0 < max) :
    (rng.genRange max).1 < max := by
  rw [genRange, if_neg (Nat.pos_iff_ne_zero.mp positive)]
  exact Nat.mod_lt _ positive

end XorShift64

inductive Mutator where
  | bitFlip
  | byteInsert
  | byteDelete
  | truncate
  | junkSuffix
  | breakJson
  | corruptLengthPrefix
  deriving DecidableEq, Repr

/- The operations of a vector that look at an index. -/

def vecXor (out : Bytes) (i : Nat) (mask : UInt8) : Except Fault Bytes :=
  if i < out.length then .ok (out.modify i (· ^^^ mask)) else .error .outOfRange

def vecSet (out : Bytes) (i : Nat) (b : UInt8) : Except Fault Bytes :=
  if i < out.length then .ok (out.set i b) else .error .outOfRange

def vecInsert (out : Bytes) (i : Nat) (b : UInt8) : Except Fault Bytes :=
  if i ≤ out.length then .ok (out.insertIdx i b) else .error .outOfRange

def vecRemove (out : Bytes) (i : Nat) : Except Fault Bytes :=
  if i < out.length then .ok (out.eraseIdx i) else .error .outOfRange

/-- `n` octets one after the other. -/
def genBytes (rng : XorShift64) : Nat → Bytes
  | 0 => []
  | n + 1 => rng.genU8.1 :: genBytes rng.genU8.2 n

def mutate (payload : Bytes) (kind : Mutator) (seed : UInt64) : Except Fault Bytes :=
  let rng := XorShift64.new seed
  match kind with
  | .bitFlip =>
    let out := if payload.isEmpty then [0] else payload
    let (i, rng) := rng.genRange out.length
    let bit := (1 : UInt8) <<< UInt8.ofNat (rng.genRange 8).1
    vecXor out i bit
  | .byteInsert =>
    let (i, rng) := rng.genRange (payload.length + 1)
    vecInsert payload i rng.genU8.1
  | .byteDelete =>
    if payload.isEmpty then .ok payload
    else vecRemove payload (rng.genRange payload.length).1
  | .truncate =>
    if 1 < payload.length then
      let n := (rng.genRange payload.length).1
      .ok (payload.take (max n 1))
    else .ok []
  | .junkSuffix =>
    let (n, rng) := rng.genRange 16
    .ok (payload ++ genBytes rng (1 + n))
  | .breakJson =>
    match payload with
    | [] => .ok ['{'.toNat.toUInt8]
    | b :: _ =>
      if b = '{'.toNat.toUInt8 then vecInsert payload 1 ','.toNat.toUInt8
      else .ok (payload ++ ['}'.toNat.toUInt8])
  | .corruptLengthPrefix =>
    if 4 ≤ payload.length then do
      let (b0, rng) := rng.genU8
      let out ← vecSet payload 0 b0
      let (b1, _) := rng.genU8
      vecSet out 1 b1
    else .ok ([0xff, 0xff, 0xff, 0xff] ++ payload)

/-- The two octets that a length prefix is overwritten with. -/
def drawnPrefix (seed : UInt64) : Bytes := genBytes (XorShift64.new seed) 2

/-- The payload begins with the octets that it is to be overwritten with. -/
def DrawsSamePrefix (payload : Bytes) (kind : Mutator) (seed : UInt64) : Prop :=
  kind = .corruptLengthPrefix ∧ 4 ≤ payload.length ∧ payload.take 2 = drawnPrefix seed

/-- A mutation that went well: it is at most this much longer, and it differs. -/
def Mutated (payload : Bytes) (result : Except Fault Bytes) : Prop :=
  ∃ out, result = .ok out ∧ out.length ≤ payload.length + 16 ∧ out ≠ payload

section
variable {payload : Bytes}

theorem mutated_of_length {out : Bytes} (bounded : out.length ≤ payload.length + 16)
    (other : out.length ≠ payload.length) : Mutated payload (.ok out) :=
  ⟨out, rfl, bounded, fun same => other (congrArg List.length same)⟩

theorem length_genBytes (rng : XorShift64) (n : Nat) : (genBytes rng n).length = n := by
  induction n generalizing rng with
  | zero => rfl
  | succ n ih => rw [genBytes, List.length_cons, ih]

theorem bit_ne_zero : ∀ k < 8, (1 : UInt8) <<< UInt8.ofNat k ≠ 0 := by decide

/-- One octet that gets another value. -/
theorem xor_mutated {i : Nat} (inside : i < payload.length) {mask : UInt8} (some : mask ≠ 0) :
    Mutated payload (vecXor payload i mask) := by
  rw [vecXor, if_pos inside]
  refine ⟨_, rfl, by rw [List.length_modify]; omega, fun same => some ?_⟩
  have here := congrArg (·[i]?) same
  simp only [List.getElem?_modify_eq, List.getElem?_eq_getElem inside] at here
  have equal : payload[i] ^^^ mask = payload[i] ^^^ 0 := by
    rw [UInt8.xor_zero]
    exact Option.some.inj here
  exact (UInt8.xor_right_inj _).mp equal

theorem insert_mutated {i : Nat} (inside : i ≤ payload.length) (b : UInt8) :
    Mutated payload (vecInsert payload i b) := by
  have longer := List.length_insertIdx_of_le_length (a := b) inside
  rw [vecInsert, if_pos inside]
  exact mutated_of_length (by omega) (by omega)

theorem remove_mutated {i : Nat} (inside : i < payload.length) :
    Mutated payload (vecRemove payload i) := by
  have shorter := List.length_eraseIdx_of_lt inside
  rw [vecRemove, if_pos inside]
  exact mutated_of_length (by omega) (by omega)

/-- A prefix that is overwritten. -/
theorem corrupt_eq (long : 4 ≤ payload.length) (seed : UInt64) :
    mutate payload .corruptLengthPrefix seed = .ok (drawnPrefix seed ++ payload.drop 2) := by
  unfold mutate
  dsimp only
  rw [if_pos long]
  match payload, long with
  | a :: b :: rest, _ => simp [vecSet, drawnPrefix, genBytes, bind, Except.bind]

theorem bitFlip_mutated (some : payload ≠ []) (seed : UInt64) :
    Mutated payload (mutate payload .bitFlip seed) := by
  have length := List.length_pos_iff.mpr some
  unfold mutate
  dsimp only
  rw [List.isEmpty_eq_false_iff.mpr some, if_neg Bool.false_ne_true]
  exact xor_mutated (XorShift64.genRange_lt _ length)
    (bit_ne_zero _ (XorShift64.genRange_lt _ (by decide)))

theorem byteInsert_mutated (seed : UInt64) :
    Mutated payload (mutate payload .byteInsert seed) :=
  insert_mutated (Nat.le_of_lt_succ (XorShift64.genRange_lt _ (Nat.succ_pos _))) _

theorem byteDelete_mutated (some : payload ≠ []) (seed : UInt64) :
    Mutated payload (mutate payload .byteDelete seed) := by
  unfold mutate
  dsimp only
  rw [List.isEmpty_eq_false_iff.mpr some, if_neg Bool.false_ne_true]
  exact remove_mutated (XorShift64.genRange_lt _ (List.length_pos_iff.mpr some))

theorem truncate_mutated (some : payload ≠ []) (seed : UInt64) :
    Mutated payload (mutate payload .truncate seed) := by
  have length := List.length_pos_iff.mpr some
  unfold mutate
  dsimp only
  split
  · next long =>
    have short := XorShift64.genRange_lt (XorShift64.new seed) length
    apply mutated_of_length <;> rw [List.length_take] <;> omega
  · exact mutated_of_length (Nat.zero_le _) (Nat.ne_of_lt length)

theorem junkSuffix_mutated (seed : UInt64) :
    Mutated payload (mutate payload .junkSuffix seed) := by
  have few : ((XorShift64.new seed).genRange 16).1 < 16 := XorShift64.genRange_lt _ (by decide)
  unfold mutate
  apply mutated_of_length <;> rw [List.length_append, length_genBytes] <;> omega

theorem breakJson_mutated (some : payload ≠ []) (seed : UInt64) :
    Mutated payload (mutate payload .breakJson seed) := by
  cases payload with
  | nil => exact absurd rfl some
  | cons b rest =>
    unfold mutate
    dsimp only
    split
    · exact insert_mutated (Nat.le_add_left _ _) _
    · apply mutated_of_length <;> simp

/-- The two octets in front are the only ones that may come out as they were. -/
theorem corrupt_mutated_iff (seed : UInt64) :
    Mutated payload (mutate payload .corruptLengthPrefix seed) ↔
      ¬ (4 ≤ payload.length ∧ payload.take 2 = drawnPrefix seed) := by
  by_cases long : 4 ≤ payload.length
  · have drawn : (drawnPrefix seed).length = 2 := length_genBytes _ 2
    rw [corrupt_eq long]
    constructor
    · rintro ⟨_, same, _, other⟩ ⟨_, equal⟩
      cases same
      rw [← equal, List.take_append_drop] at other
      exact other rfl
    · intro other
      refine ⟨_, rfl, ?_, fun same => other ⟨long, ?_⟩⟩
      · rw [List.length_append, drawn, List.length_drop]
        omega
      · rw [← same, ← drawn, List.take_left]
  · simp only [long, false_and, not_false_iff, iff_true]
    unfold mutate
    dsimp only
    rw [if_neg long]
    apply mutated_of_length
    · simp
    · rw [List.length_append]
      exact Nat.ne_of_gt (Nat.lt_add_of_pos_left (by decide))

/-- No index is out of range and nothing grows by more than sixteen octets, also where the
octets of a prefix come out as they were. -/
theorem mutate_bounded (some : payload ≠ []) (kind : Mutator) (seed : UInt64) :
    ∃ out, mutate payload kind seed = .ok out ∧ out.length ≤ payload.length + 16 := by
  have fits : ∀ {result}, Mutated payload result →
      ∃ out, result = .ok out ∧ out.length ≤ payload.length + 16 :=
    fun ⟨out, made, bounded, _⟩ => ⟨out, made, bounded⟩
  cases kind with
  | bitFlip => exact fits (bitFlip_mutated some seed)
  | byteInsert => exact fits (byteInsert_mutated seed)
  | byteDelete => exact fits (byteDelete_mutated some seed)
  | truncate => exact fits (truncate_mutated some seed)
  | junkSuffix => exact fits (junkSuffix_mutated seed)
  | breakJson => exact fits (breakJson_mutated some seed)
  | corruptLengthPrefix =>
    by_cases same : 4 ≤ payload.length ∧ payload.take 2 = drawnPrefix seed
    · rw [corrupt_eq same.1, ← same.2, List.take_append_drop]
      exact ⟨payload, rfl, Nat.le_add_right _ _⟩
    · exact fits ((corrupt_mutated_iff seed).mpr same)

end

/-- A mutation goes well, and it differs unless the octets drawn for a length prefix are those
of the payload. -/
theorem mutation_differs (payload : Bytes) (kind : Mutator) (seed : UInt64)
    (some : payload ≠ []) :
    (∃ out, mutate payload kind seed = .ok out ∧ out.length ≤ payload.length + 16) ∧
      (Mutated payload (mutate payload kind seed) ↔ ¬ DrawsSamePrefix payload kind seed) := by
  refine ⟨mutate_bounded some kind seed, ?_⟩
  have sure : kind ≠ .corruptLengthPrefix → Mutated payload (mutate payload kind seed) →
      (Mutated payload (mutate payload kind seed) ↔ ¬ DrawsSamePrefix payload kind seed) :=
    fun other done => ⟨fun _ draws => other draws.1, fun _ => done⟩
  cases kind with
  | bitFlip => exact sure (by decide) (bitFlip_mutated some seed)
  | byteInsert => exact sure (by decide) (byteInsert_mutated seed)
  | byteDelete => exact sure (by decide) (byteDelete_mutated some seed)
  | truncate => exact sure (by decide) (truncate_mutated some seed)
  | junkSuffix => exact sure (by decide) (junkSuffix_mutated seed)
  | breakJson => exact sure (by decide) (breakJson_mutated some seed)
  | corruptLengthPrefix =>
    rw [corrupt_mutated_iff, DrawsSamePrefix]
    simp

theorem mutation_differs_abc :
    (∃ out, mutate [0x61, 0x62, 0x63] .bitFlip 1 = .ok out ∧ out.length ≤ 3 + 16) ∧
      (Mutated [0x61, 0x62, 0x63] (mutate [0x61, 0x62, 0x63] .bitFlip 1) ↔
        ¬ DrawsSamePrefix [0x61, 0x62, 0x63] .bitFlip 1) :=
  mutation_differs [0x61, 0x62, 0x63] .bitFlip 1 (by decide)

/-- The octets of `MKab` with the seed 13, which draws `MK`. -/
theorem mutation_returns_payload :
    mutate [0x4d, 0x4b, 0x61, 0x62] .corruptLengthPrefix 13 = .ok [0x4d, 0x4b, 0x61, 0x62] ∧
      ¬ Mutated [0x4d, 0x4b, 0x61, 0x62]
        (mutate [0x4d, 0x4b, 0x61, 0x62] .corruptLengthPrefix 13) := by
  have same : mutate [0x4d, 0x4b, 0x61, 0x62] .corruptLengthPrefix 13
      = .ok [0x4d, 0x4b, 0x61, 0x62] := by decide +kernel
  refine ⟨same, ?_⟩
  rintro ⟨out, made, _, other⟩
  rw [same] at made
  cases made
  exact other rfl

end BitBeak
