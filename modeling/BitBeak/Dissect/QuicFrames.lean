import BitBeak.Dissect.QuicProtection

/-! The frames of a decrypted QUIC packet with the machine words of the source: offsets are of 64
bits, and a sum that does not fit is a fault. The lengths in the frames are the sender's, up to
`2 ^ 62 - 1`. -/
namespace BitBeak
open Wire Dissector

/-- What stops the walk. `outOfFuel` is a loop that is not over. -/
inductive WordFault where
  | overflow
  | underflow
  | outOfRange
  | outOfFuel
  deriving DecidableEq, Repr

def usizeAdd (a b : Nat) : Except WordFault Nat :=
  if a + b < 2 ^ 64 then .ok (a + b) else .error .overflow

def usizeSub (a b : Nat) : Except WordFault Nat :=
  if b ≤ a then .ok (a - b) else .error .underflow

/-- `payload[off]`, as it is used in an expression of `u64`. -/
def octetAt (payload : Bytes) (off : Nat) : Except WordFault UInt8 :=
  match payload[off]? with
  | some b => .ok b
  | none => .error .outOfRange

/-- `read_varint`. -/
def readVarintWord (payload : Bytes) (off : Nat) : Except WordFault (Option (UInt64 × Nat)) := do
  if payload.length ≤ off then return none
  else
    let b0 ← octetAt payload off
    match (b0 >>> 6).toNat with
    | 0 => return some ((b0 &&& 0x3f).toUInt64, ← usizeAdd off 1)
    | 1 =>
      if payload.length ≤ (← usizeAdd off 1) then return none
      else
        let b1 ← octetAt payload (← usizeAdd off 1)
        return some ((b0 &&& 0x3f).toUInt64 <<< 8 ||| b1.toUInt64, ← usizeAdd off 2)
    | 2 =>
      if payload.length ≤ (← usizeAdd off 3) then return none
      else
        let b1 ← octetAt payload (← usizeAdd off 1)
        let b2 ← octetAt payload (← usizeAdd off 2)
        let b3 ← octetAt payload (← usizeAdd off 3)
        return some ((b0 &&& 0x3f).toUInt64 <<< 24 ||| b1.toUInt64 <<< 16 ||| b2.toUInt64 <<< 8 |||
          b3.toUInt64, ← usizeAdd off 4)
    | _ =>
      if payload.length ≤ (← usizeAdd off 7) then return none
      else
        let b1 ← octetAt payload (← usizeAdd off 1)
        let b2 ← octetAt payload (← usizeAdd off 2)
        let b3 ← octetAt payload (← usizeAdd off 3)
        let b4 ← octetAt payload (← usizeAdd off 4)
        let b5 ← octetAt payload (← usizeAdd off 5)
        let b6 ← octetAt payload (← usizeAdd off 6)
        let b7 ← octetAt payload (← usizeAdd off 7)
        return some ((b0 &&& 0x3f).toUInt64 <<< 56 ||| b1.toUInt64 <<< 48 ||| b2.toUInt64 <<< 40 |||
          b3.toUInt64 <<< 32 ||| b4.toUInt64 <<< 24 ||| b5.toUInt64 <<< 16 |||
          b6.toUInt64 <<< 8 ||| b7.toUInt64, ← usizeAdd off 8)

/-- What is handed to `add_child`, below the parent. -/
structure FrameNode where
  label : String
  value : String
  offset : Nat
  len : Nat
  deriving DecidableEq, Repr

/-- The loop of `annotate_crypto_frames` from `i` on, and the nodes it adds. -/
def cryptoFrameNodes (plain : Bytes) (off : Nat) : Nat → Nat → Except WordFault (List FrameNode)
  | 0, _ => .error .outOfFuel
  | fuel + 1, i => do
    if i < plain.length then
      let fty ← octetAt plain i
      if fty = 0x06 then
        let p ← usizeAdd i 1
        match ← readVarintWord plain p with
        | none => return []
        | some (cryptoOff, p) =>
          match ← readVarintWord plain p with
          | none => return []
          | some (cryptoLen, p) =>
            let node : FrameNode :=
              { label := "CRYPTO"
                value := "offset=" ++ toString cryptoOff.toNat ++ " len=" ++
                  toString cryptoLen.toNat
                offset := ← usizeAdd off i
                len := min (← usizeSub p i) (plain.length - i) }
            let i ← usizeAdd p cryptoLen.toNat
            return node :: (← cryptoFrameNodes plain off fuel i)
      else if fty = 0x00 then cryptoFrameNodes plain off fuel (← usizeAdd i 1)
      else if fty = 0x01 then
        let node : FrameNode := { label := "PING", value := "", offset := ← usizeAdd off i, len := 1 }
        return node :: (← cryptoFrameNodes plain off fuel (← usizeAdd i 1))
      else return []
    else return []

/- The words of the integers. -/

theorem usizeAdd_ok {a b : Nat} (small : a + b < 2 ^ 64) : usizeAdd a b = .ok (a + b) :=
  if_pos small

theorem usizeSub_ok {a b : Nat} (le : b ≤ a) : usizeSub a b = .ok (a - b) := if_pos le

theorem octetAt_ok {payload : Bytes} {off : Nat} (inside : off < payload.length) :
    octetAt payload off = .ok (octet payload off) := by
  simp [octetAt, octet, inside]

theorem word_bind {α β : Type} (a : α) (f : α → Except WordFault β) :
    (Except.ok a >>= f) = f a := rfl

/-- Another octet below the ones that are there. -/
theorem or_octet {high k : UInt64} {n : Nat} {b : UInt8} (room : k.toNat ≤ 48)
    (above : high.toNat = n * 2 ^ (k.toNat + 8)) :
    (high ||| b.toUInt64 <<< k).toNat = (n * 256 + b.toNat) * 2 ^ k.toNat := by
  have small : b.toNat * 2 ^ k.toNat < 2 ^ (k.toNat + 8) := by
    rw [Nat.pow_add, Nat.mul_comm]
    exact Nat.mul_lt_mul_of_pos_left b.toNat_lt (Nat.two_pow_pos _)
  have fits : 2 ^ (k.toNat + 8) ≤ 2 ^ 64 := Nat.pow_le_pow_right (by decide) (by omega)
  have shifted : (b.toUInt64 <<< k).toNat = b.toNat * 2 ^ k.toNat := by
    rw [UInt64.toNat_shiftLeft, UInt8.toNat_toUInt64, Nat.mod_eq_of_lt (by omega : k.toNat < 64),
      Nat.shiftLeft_eq, Nat.mod_eq_of_lt (by omega)]
  rw [UInt64.toNat_or, above, shifted, Nat.mul_comm n, ← Nat.two_pow_add_eq_or_of_lt small,
    Nat.pow_add, Nat.add_mul, Nat.mul_comm _ n, Nat.mul_comm (2 ^ k.toNat) (2 ^ 8),
    ← Nat.mul_assoc]

theorem toNat_low (b : UInt8) : (b &&& 0x3f).toUInt64.toNat = b.toNat % 64 := by
  rw [UInt8.toNat_toUInt64, UInt8.toNat_and]
  exact Nat.and_two_pow_sub_one_eq_mod b.toNat 6

/-- The lowest octet is not shifted. -/
theorem or_lowest {high : UInt64} {n : Nat} {b : UInt8} (above : high.toNat = n * 2 ^ 8) :
    (high ||| b.toUInt64).toNat = n * 256 + b.toNat := by
  have shifted := or_octet (k := 0) (b := b) (by decide) above
  rw [UInt64.shiftLeft_zero] at shifted
  exact shifted.trans (Nat.mul_one _)

theorem toNat_high {b : UInt8} {k : UInt64} (room : k.toNat ≤ 56) :
    ((b &&& 0x3f).toUInt64 <<< k).toNat = b.toNat % 64 * 2 ^ k.toNat := by
  have small : b.toNat % 64 < 2 ^ 6 := Nat.mod_lt _ (by decide)
  have fits : b.toNat % 64 * 2 ^ k.toNat < 2 ^ 64 := by
    calc b.toNat % 64 * 2 ^ k.toNat < 2 ^ 6 * 2 ^ k.toNat :=
          Nat.mul_lt_mul_of_pos_right small (Nat.two_pow_pos _)
      _ = 2 ^ (6 + k.toNat) := (Nat.pow_add 2 6 k.toNat).symm
      _ ≤ 2 ^ 64 := Nat.pow_le_pow_right (by decide) (by omega)
  rw [UInt64.toNat_shiftLeft, toNat_low, Nat.mod_eq_of_lt (by omega : k.toNat < 64),
    Nat.shiftLeft_eq, Nat.mod_eq_of_lt fits]

section

variable {payload : Bytes} {off : Nat}

theorem beAt_one (inside : off + 1 ≤ payload.length) :
    beAt payload off 1 = (octet payload off).toNat := by
  have zero : beAt payload off 0 = 0 := by simp [beAt, span, ofBE, ofLE]
  rw [beAt_succ (k := 0) (by omega), zero]
  exact Nat.zero_add _

theorem beAt_two (inside : off + 2 ≤ payload.length) : beAt payload off 2 =
    (octet payload off).toNat * 256 + (octet payload (off + 1)).toNat := by
  rw [beAt_succ (k := 1) (by omega), beAt_one (by omega)]

theorem beAt_four (inside : off + 4 ≤ payload.length) : beAt payload off 4 =
    (((octet payload off).toNat * 256 + (octet payload (off + 1)).toNat) * 256 +
      (octet payload (off + 2)).toNat) * 256 + (octet payload (off + 3)).toNat := by
  rw [beAt_succ (k := 3) (by omega), beAt_succ (k := 2) (by omega), beAt_two (by omega)]

theorem beAt_eight (inside : off + 8 ≤ payload.length) : beAt payload off 8 =
    (((((((octet payload off).toNat * 256 + (octet payload (off + 1)).toNat) * 256 +
      (octet payload (off + 2)).toNat) * 256 + (octet payload (off + 3)).toNat) * 256 +
      (octet payload (off + 4)).toNat) * 256 + (octet payload (off + 5)).toNat) * 256 +
      (octet payload (off + 6)).toNat) * 256 + (octet payload (off + 7)).toNat := by
  rw [beAt_succ (k := 7) (by omega), beAt_succ (k := 6) (by omega), beAt_succ (k := 5) (by omega),
    beAt_succ (k := 4) (by omega), beAt_four (by omega)]

/-- The octets of the widest integer, put together as the source does it. -/
theorem word_eight (b0 b1 b2 b3 b4 b5 b6 b7 : UInt8) :
    ((b0 &&& 0x3f).toUInt64 <<< 56 ||| b1.toUInt64 <<< 48 ||| b2.toUInt64 <<< 40 |||
      b3.toUInt64 <<< 32 ||| b4.toUInt64 <<< 24 ||| b5.toUInt64 <<< 16 |||
      b6.toUInt64 <<< 8 ||| b7.toUInt64).toNat =
    ((((((b0.toNat % 64 * 256 + b1.toNat) * 256 + b2.toNat) * 256 + b3.toNat) * 256 +
      b4.toNat) * 256 + b5.toNat) * 256 + b6.toNat) * 256 + b7.toNat := by
  have h0 := @toNat_high b0 56 (by decide)
  have h1 := @or_octet _ 48 _ b1 (by decide) h0
  have h2 := @or_octet _ 40 _ b2 (by decide) h1
  have h3 := @or_octet _ 32 _ b3 (by decide) h2
  have h4 := @or_octet _ 24 _ b4 (by decide) h3
  have h5 := @or_octet _ 16 _ b5 (by decide) h4
  have h6 := @or_octet _ 8 _ b6 (by decide) h5
  exact or_lowest h6

theorem word_four (b0 b1 b2 b3 : UInt8) :
    ((b0 &&& 0x3f).toUInt64 <<< 24 ||| b1.toUInt64 <<< 16 ||| b2.toUInt64 <<< 8 |||
      b3.toUInt64).toNat =
    ((b0.toNat % 64 * 256 + b1.toNat) * 256 + b2.toNat) * 256 + b3.toNat := by
  have h0 := @toNat_high b0 24 (by decide)
  have h1 := @or_octet _ 16 _ b1 (by decide) h0
  have h2 := @or_octet _ 8 _ b2 (by decide) h1
  exact or_lowest h2

theorem word_two (b0 b1 : UInt8) :
    ((b0 &&& 0x3f).toUInt64 <<< 8 ||| b1.toUInt64).toNat = b0.toNat % 64 * 256 + b1.toNat :=
  or_lowest (@toNat_high b0 8 (by decide))

/-- The width that the two top bits of an integer's first octet say. -/
def varintWidth (payload : Bytes) (off : Nat) : Nat := 2 ^ (octet payload off >>> 6).toNat

/-- The bits of an integer below the width. -/
def varintValue (payload : Bytes) (off : Nat) : Nat :=
  beAt payload off (varintWidth payload off) % 2 ^ (8 * varintWidth payload off - 2)

theorem top_lt (b : UInt8) : (b >>> 6).toNat < 4 := by
  have small := b.toNat_lt
  have shifted : (b >>> 6).toNat = b.toNat / 64 := Nat.shiftRight_eq_div_pow _ 6
  omega

theorem readVarintWord_short (held : payload.length < 2 ^ 63) (inside : off < payload.length)
    (short : payload.length < off + varintWidth payload off) :
    readVarintWord payload off = .ok none := by
  have add : ∀ k, k ≤ 8 → usizeAdd off k = .ok (off + k) := fun k le => usizeAdd_ok (by omega)
  have four := top_lt (octet payload off)
  rw [readVarintWord, if_neg (by omega), octetAt_ok inside, word_bind]
  unfold varintWidth at short
  generalize (octet payload off >>> 6).toNat = w at four short
  match w with
  | 0 => omega
  | 1 =>
    simp only [add 1 (by decide), word_bind, if_pos (show payload.length ≤ off + 1 by omega)]
    rfl
  | 2 =>
    simp only [add 3 (by decide), word_bind, if_pos (show payload.length ≤ off + 3 by omega)]
    rfl
  | 3 =>
    simp only [add 7 (by decide), word_bind, if_pos (show payload.length ≤ off + 7 by omega)]
    rfl

/-- Below the bits of the width stands the word that is returned. -/
theorem readVarintWord_split (held : payload.length < 2 ^ 63)
    (whole : off + varintWidth payload off ≤ payload.length) :
    ∃ v : UInt64, readVarintWord payload off = .ok (some (v, off + varintWidth payload off)) ∧
      v.toNat < 2 ^ (8 * varintWidth payload off - 2) ∧
        beAt payload off (varintWidth payload off) =
          (octet payload off >>> 6).toNat * 2 ^ (8 * varintWidth payload off - 2) + v.toNat := by
  have positive : 0 < varintWidth payload off := Nat.two_pow_pos _
  have add : ∀ k, k ≤ 8 → usizeAdd off k = .ok (off + k) := fun k le => usizeAdd_ok (by omega)
  have bound : ∀ k, (octet payload (off + k)).toNat < 256 := fun k => UInt8.toNat_lt _
  have top : (octet payload off >>> 6).toNat = (octet payload off).toNat / 64 :=
    Nat.shiftRight_eq_div_pow _ 6
  have four := top_lt (octet payload off)
  rw [readVarintWord, if_neg (by omega), octetAt_ok (by omega), word_bind]
  unfold varintWidth at whole ⊢
  generalize (octet payload off >>> 6).toNat = w at top four whole
  have read : ∀ k, k < 2 ^ w → octetAt payload (off + k) = .ok (octet payload (off + k)) :=
    fun k lt => octetAt_ok (by omega)
  have there : ∀ k, k < 2 ^ w → ¬ payload.length ≤ off + k := fun k lt => by omega
  match w with
  | 0 =>
    have joined := beAt_one whole
    refine ⟨(octet payload off &&& 0x3f).toUInt64, ?_, ?_⟩
    · simp only [add 1 (by decide), word_bind]
      rfl
    · rw [toNat_low]
      change _ < 2 ^ 6 ∧ beAt payload off 1 = 0 * 2 ^ 6 + _
      omega
  | 1 =>
    have joined := beAt_two whole
    have b1 := bound 1
    refine ⟨(octet payload off &&& 0x3f).toUInt64 <<< 8 ||| (octet payload (off + 1)).toUInt64,
      ?_, ?_⟩
    · simp only [add 1 (by decide), add 2 (by decide), read 1 (by decide),
        if_neg (there 1 (by decide)), word_bind]
      rfl
    · rw [word_two]
      change _ < 2 ^ 14 ∧ beAt payload off 2 = 1 * 2 ^ 14 + _
      omega
  | 2 =>
    have joined := beAt_four whole
    have b1 := bound 1
    have b2 := bound 2
    have b3 := bound 3
    refine ⟨(octet payload off &&& 0x3f).toUInt64 <<< 24 |||
      (octet payload (off + 1)).toUInt64 <<< 16 ||| (octet payload (off + 2)).toUInt64 <<< 8 |||
      (octet payload (off + 3)).toUInt64, ?_, ?_⟩
    · simp only [add 1 (by decide), add 2 (by decide), add 3 (by decide), add 4 (by decide),
        read 1 (by decide), read 2 (by decide), read 3 (by decide), if_neg (there 3 (by decide)),
        word_bind]
      rfl
    · rw [word_four]
      change _ < 2 ^ 30 ∧ beAt payload off 4 = 2 * 2 ^ 30 + _
      omega
  | 3 =>
    have joined := beAt_eight whole
    have b1 := bound 1
    have b2 := bound 2
    have b3 := bound 3
    have b4 := bound 4
    have b5 := bound 5
    have b6 := bound 6
    have b7 := bound 7
    refine ⟨(octet payload off &&& 0x3f).toUInt64 <<< 56 |||
      (octet payload (off + 1)).toUInt64 <<< 48 ||| (octet payload (off + 2)).toUInt64 <<< 40 |||
      (octet payload (off + 3)).toUInt64 <<< 32 ||| (octet payload (off + 4)).toUInt64 <<< 24 |||
      (octet payload (off + 5)).toUInt64 <<< 16 ||| (octet payload (off + 6)).toUInt64 <<< 8 |||
      (octet payload (off + 7)).toUInt64, ?_, ?_⟩
    · simp only [add 1 (by decide), add 2 (by decide), add 3 (by decide), add 4 (by decide),
        add 5 (by decide), add 6 (by decide), add 7 (by decide), add 8 (by decide),
        read 1 (by decide), read 2 (by decide), read 3 (by decide), read 4 (by decide),
        read 5 (by decide), read 6 (by decide), read 7 (by decide), if_neg (there 7 (by decide)),
        word_bind]
      rfl
    · rw [word_eight]
      change _ < 2 ^ 62 ∧ beAt payload off 8 = 3 * 2 ^ 62 + _
      omega

theorem readVarintWord_whole (held : payload.length < 2 ^ 63)
    (whole : off + varintWidth payload off ≤ payload.length) :
    ∃ v : UInt64, readVarintWord payload off = .ok (some (v, off + varintWidth payload off)) ∧
      v.toNat = varintValue payload off := by
  obtain ⟨v, read, small, split⟩ := readVarintWord_split held whole
  refine ⟨v, read, ?_⟩
  rw [varintValue, split, Nat.mul_add_mod_self_right, Nat.mod_eq_of_lt small]

theorem readVarint_short (short : payload.length < off + varintWidth payload off) :
    readVarint payload off = .ok none := by
  by_cases past : payload.length ≤ off
  · rw [readVarint, if_pos past]
    rfl
  · rw [readVarint, if_neg past, byteAt_ok (by omega), ok_bind]
    unfold varintWidth at short
    dsimp only
    rw [if_pos (by omega)]
    rfl

theorem readVarint_whole (whole : off + varintWidth payload off ≤ payload.length) :
    readVarint payload off =
      .ok (some (varintValue payload off, off + varintWidth payload off)) := by
  have positive : 0 < varintWidth payload off := Nat.two_pow_pos _
  rw [readVarint, if_neg (by omega), byteAt_ok (by omega), ok_bind]
  unfold varintValue
  unfold varintWidth at positive whole ⊢
  dsimp only
  rw [if_neg (by omega), readBE_ok whole, ok_bind]
  rfl

/- The integers of the protocol. -/

/-- The integer `n` is written from `off` on, in one of the four widths, and `next` is where it
has ended. -/
def VarintAt (payload : Bytes) (off n next : Nat) : Prop :=
  ∃ (width : Fin 4) (front rest : Bytes), n < varintBound width ∧
    payload = front ++ (varint width n ++ rest) ∧ front.length = off ∧ next = off + 2 ^ width.val

/-- The payload ends in front of an integer, or within the octets that its first one announces. -/
def Truncated (payload : Bytes) (off : Nat) : Prop :=
  payload.length ≤ off ∨
    ∃ b, payload[off]? = some b ∧ payload.length < off + 2 ^ (b >>> 6).toNat

theorem truncated_iff : Truncated payload off ↔ payload.length < off + varintWidth payload off := by
  have positive : 0 < varintWidth payload off := Nat.two_pow_pos _
  by_cases past : payload.length ≤ off
  · exact iff_of_true (.inl past) (by omega)
  · have here : payload[off]? = some (octet payload off) := by
      simp [octet, Nat.lt_of_not_le past]
    rw [Truncated, here]
    simp [past, varintWidth]

theorem varintAt_whole (held : payload.length < 2 ^ 63)
    (whole : off + varintWidth payload off ≤ payload.length) :
    VarintAt payload off (varintValue payload off) (off + varintWidth payload off) := by
  let width : Fin 4 := ⟨(octet payload off >>> 6).toNat, top_lt _⟩
  have bound : varintBound width = 2 ^ (8 * varintWidth payload off - 2) := rfl
  refine ⟨width, payload.take off, payload.drop (off + varintWidth payload off), ?_, ?_, ?_, rfl⟩
  · exact Nat.mod_lt _ (Nat.two_pow_pos _)
  · have value : width.val * varintBound width + varintValue payload off =
        beAt payload off (varintWidth payload off) := by
      obtain ⟨v, _, small, split⟩ := readVarintWord_split held whole
      rw [bound, varintValue, split, Nat.mul_add_mod_self_right, Nat.mod_eq_of_lt small]
    have length : (span payload off (off + varintWidth payload off)).length =
        varintWidth payload off := by
      rw [length_span whole, Nat.add_sub_cancel_left]
    have written : varint width (varintValue payload off) =
        span payload off (off + varintWidth payload off) := by
      have exact := toBE_ofBE (span payload off (off + varintWidth payload off))
      rw [length] at exact
      rw [varint, value]
      exact exact
    rw [written, span, Nat.add_sub_cancel_left, ← List.drop_drop, List.take_append_drop,
      List.take_append_drop]
  · exact List.length_take_of_le (by omega)

theorem VarintAt.read {n next : Nat} (written : VarintAt payload off n next) :
    off + varintWidth payload off ≤ payload.length ∧ varintValue payload off = n ∧
      next = off + varintWidth payload off := by
  obtain ⟨width, front, rest, fits, rfl, rfl, rfl⟩ := written
  have read : readVarint (front ++ (varint width n ++ rest)) front.length =
      .ok (some (n, front.length + 2 ^ width.val)) := readVarint_here fits rfl
  by_cases whole : front.length + varintWidth (front ++ (varint width n ++ rest)) front.length ≤
      (front ++ (varint width n ++ rest)).length
  · rw [readVarint_whole whole, Except.ok.injEq, Option.some.injEq, Prod.mk.injEq] at read
    exact ⟨whole, read.1, read.2.symm⟩
  · rw [readVarint_short (by omega)] at read
    cases read

theorem varintValue_lt : varintValue payload off < 2 ^ 62 := by
  have four := top_lt (octet payload off)
  have wide : varintWidth payload off ≤ 2 ^ 3 := Nat.pow_le_pow_right (by decide) (by omega)
  calc varintValue payload off < 2 ^ (8 * varintWidth payload off - 2) :=
        Nat.mod_lt _ (Nat.two_pow_pos _)
    _ ≤ 2 ^ 62 := Nat.pow_le_pow_right (by decide) (by omega)

theorem readVarintWord_some_iff (held : payload.length < 2 ^ 63) (v : UInt64) (next : Nat) :
    readVarintWord payload off = .ok (some (v, next)) ↔ VarintAt payload off v.toNat next := by
  constructor
  · intro read
    by_cases whole : off + varintWidth payload off ≤ payload.length
    · obtain ⟨v', read', value⟩ := readVarintWord_whole held whole
      rw [read'] at read
      cases read
      rw [value]
      exact varintAt_whole held whole
    · by_cases past : payload.length ≤ off
      · rw [readVarintWord, if_pos past] at read
        cases read
      · rw [readVarintWord_short held (by omega) (by omega)] at read
        cases read
  · intro written
    obtain ⟨whole, value, rfl⟩ := written.read
    obtain ⟨v', read, value'⟩ := readVarintWord_whole held whole
    rw [read, UInt64.toNat_inj.mp (value'.trans value)]

theorem readVarintWord_none_iff (held : payload.length < 2 ^ 63) :
    readVarintWord payload off = .ok none ↔ Truncated payload off := by
  rw [truncated_iff]
  constructor
  · intro read
    by_contra whole
    obtain ⟨v, read', _⟩ := readVarintWord_whole held (Nat.le_of_not_lt whole)
    rw [read'] at read
    cases read
  · intro short
    by_cases past : payload.length ≤ off
    · rw [readVarintWord, if_pos past]
      rfl
    · exact readVarintWord_short held (Nat.lt_of_not_le past) short

end

/- The walk. -/

/-- A node within the plaintext, which lies at `off`. -/
def FrameNode.Inside (plain : Bytes) (off : Nat) (node : FrameNode) : Prop :=
  off ≤ node.offset ∧ node.offset + node.len ≤ off + plain.length

/-- What the source hands to the dissection's tree. -/
def FrameNode.field (node : FrameNode) : String × Nat × Nat := (node.label, node.offset, node.len)

section

variable {plain : Bytes} {off i : Nat}

/-- The source and the dissector read the same integers, or find one of them cut off. -/
theorem readVarint_cases (held : plain.length < 2 ^ 63) (i : Nat) :
    (readVarintWord plain i = .ok none ∧ readVarint plain i = .ok none) ∨
      ∃ (v : UInt64) (next : Nat), readVarintWord plain i = .ok (some (v, next)) ∧
        readVarint plain i = .ok (some (v.toNat, next)) ∧ i < next ∧ next ≤ plain.length ∧
          v.toNat < 2 ^ 62 := by
  by_cases whole : i + varintWidth plain i ≤ plain.length
  · obtain ⟨v, read, value⟩ := readVarintWord_whole held whole
    have positive : 0 < varintWidth plain i := Nat.two_pow_pos _
    refine .inr ⟨v, _, read, ?_, by omega, whole, by rw [value]; exact varintValue_lt⟩
    rw [readVarint_whole whole, value]
  · have short : plain.length < i + varintWidth plain i := Nat.lt_of_not_le whole
    exact .inl ⟨(readVarintWord_none_iff held).mpr (truncated_iff.mpr short),
      readVarint_short short⟩

/-- The loop is over at `i`, in the source and in the dissector. -/
def Over (plain : Bytes) (off i : Nat) : Prop :=
  ∀ fuel, cryptoFrameNodes plain off (fuel + 1) i = .ok [] ∧
    ∀ parent, annotateCryptoFrames parent plain off (fuel + 1) i = pure ⟨⟩

/-- A round at `i` adds the nodes and goes on at `next`. -/
def Round (plain : Bytes) (off i : Nat) (nodes : List FrameNode) (next : Nat) : Prop :=
  ∀ fuel, cryptoFrameNodes plain off (fuel + 1) i =
      (do return nodes ++ (← cryptoFrameNodes plain off fuel next)) ∧
    ∀ parent, annotateCryptoFrames parent plain off (fuel + 1) i =
      (do addFields parent (nodes.map FrameNode.field)
          annotateCryptoFrames parent plain off fuel next : Dissector PUnit)

section

-- The equations of the loops are made here, once.
attribute [local simp] cryptoFrameNodes annotateCryptoFrames

end

theorem over_end (past : ¬ i < plain.length) : Over plain off i := by
  refine fun fuel => ⟨?_, fun parent => ?_⟩
  · rw [cryptoFrameNodes, if_neg past]
    rfl
  · rw [annotateCryptoFrames, if_neg past]

theorem over_other (inside : i < plain.length) (crypto : octet plain i ≠ 0x06)
    (padding : octet plain i ≠ 0x00) (ping : octet plain i ≠ 0x01) : Over plain off i := by
  refine fun fuel => ⟨?_, fun parent => ?_⟩
  · rw [cryptoFrameNodes, if_pos inside, octetAt_ok inside, word_bind, if_neg crypto,
      if_neg padding, if_neg ping]
    rfl
  · rw [annotateCryptoFrames, if_pos inside, byteAt_ok inside, read_ok, pure_bind, if_neg crypto,
      if_neg padding, if_neg ping]

theorem round_padding (held : off + plain.length < 2 ^ 63) (inside : i < plain.length)
    (padding : octet plain i = 0x00) : Round plain off i [] (i + 1) := by
  have crypto : octet plain i ≠ 0x06 := by
    rw [padding]
    decide
  refine fun fuel => ⟨?_, fun parent => ?_⟩
  · rw [cryptoFrameNodes, if_pos inside, octetAt_ok inside, word_bind, if_neg crypto,
      if_pos padding, usizeAdd_ok (by omega), word_bind]
    simp
  · rw [annotateCryptoFrames, if_pos inside, byteAt_ok inside, read_ok, pure_bind, if_neg crypto,
      if_pos padding]
    rfl

theorem round_ping (held : off + plain.length < 2 ^ 63) (inside : i < plain.length)
    (ping : octet plain i = 0x01) : Round plain off i
      [{ label := "PING", value := "", offset := off + i, len := 1 }] (i + 1) := by
  have crypto : octet plain i ≠ 0x06 := by
    rw [ping]
    decide
  have padding : octet plain i ≠ 0x00 := by
    rw [ping]
    decide
  refine fun fuel => ⟨?_, fun parent => ?_⟩
  · rw [cryptoFrameNodes, if_pos inside, octetAt_ok inside, word_bind, if_neg crypto,
      if_neg padding, if_pos ping, usizeAdd_ok (by omega), word_bind, usizeAdd_ok (by omega),
      word_bind]
    rfl
  · rw [annotateCryptoFrames, if_pos inside, byteAt_ok inside, read_ok, pure_bind, if_neg crypto,
      if_neg padding, if_pos ping]
    rfl

section

variable {p : Nat} {start : UInt64}

theorem over_cut_offset (inside : i < plain.length) (crypto : octet plain i = 0x06)
    (step : usizeAdd i 1 = .ok (i + 1)) (word : readVarintWord plain (i + 1) = .ok none)
    (read : readVarint plain (i + 1) = .ok none) : Over plain off i := by
  refine fun fuel => ⟨?_, fun parent => ?_⟩
  · rw [cryptoFrameNodes, if_pos inside, octetAt_ok inside, word_bind, if_pos crypto, step,
      word_bind, word]
    rfl
  · rw [annotateCryptoFrames, if_pos inside, byteAt_ok inside, read_ok, pure_bind,
      if_pos crypto, read]
    rfl

theorem over_cut_length (inside : i < plain.length) (crypto : octet plain i = 0x06)
    (step : usizeAdd i 1 = .ok (i + 1))
    (word : readVarintWord plain (i + 1) = .ok (some (start, p)))
    (read : readVarint plain (i + 1) = .ok (some (start.toNat, p)))
    (word' : readVarintWord plain p = .ok none) (read' : readVarint plain p = .ok none) :
    Over plain off i := by
  refine fun fuel => ⟨?_, fun parent => ?_⟩
  · rw [cryptoFrameNodes, if_pos inside, octetAt_ok inside, word_bind, if_pos crypto, step,
      word_bind, word, word_bind]
    dsimp only
    rw [word']
    rfl
  · rw [annotateCryptoFrames, if_pos inside, byteAt_ok inside, read_ok, pure_bind,
      if_pos crypto, read, read_ok, pure_bind]
    dsimp only
    rw [read']
    rfl

/-- A CRYPTO frame up to its data. The next frame lies at most `2 ^ 62` octets behind the end of
the plaintext. -/
theorem round_crypto (held : off + plain.length < 2 ^ 63) (inside : i < plain.length)
    (crypto : octet plain i = 0x06) (step : usizeAdd i 1 = .ok (i + 1)) {q : Nat} {len : UInt64}
    (word : readVarintWord plain (i + 1) = .ok (some (start, p)))
    (read : readVarint plain (i + 1) = .ok (some (start.toNat, p)))
    (word' : readVarintWord plain p = .ok (some (len, q)))
    (read' : readVarint plain p = .ok (some (len.toNat, q)))
    (behind : i < q) (fits : q ≤ plain.length) (small : len.toNat < 2 ^ 62) :
    Round plain off i
      [{ label := "CRYPTO"
         value := "offset=" ++ toString start.toNat ++ " len=" ++ toString len.toNat
         offset := off + i
         len := min (q - i) (plain.length - i) }] (q + len.toNat) := by
  have place := usizeAdd_ok (show off + i < 2 ^ 64 by omega)
  have next := usizeAdd_ok (show q + len.toNat < 2 ^ 64 by omega)
  refine fun fuel => ⟨?_, fun parent => ?_⟩
  · rw [cryptoFrameNodes, if_pos inside, octetAt_ok inside, word_bind, if_pos crypto, step,
      word_bind, word, word_bind]
    dsimp only
    rw [word', word_bind]
    dsimp only
    rw [place, word_bind, usizeSub_ok behind.le, word_bind, next, word_bind]
    rfl
  · rw [annotateCryptoFrames, if_pos inside, byteAt_ok inside, read_ok, pure_bind,
      if_pos crypto, read, read_ok, pure_bind]
    dsimp only
    rw [read', read_ok, pure_bind]
    dsimp only
    rw [checkedSub_ok behind.le, read_ok, pure_bind]
    rfl

end

/-- A round ends the loop, or it adds what is inside and goes on behind where it was. -/
theorem round_cases (held : off + plain.length < 2 ^ 63) (i : Nat) :
    Over plain off i ∨ ∃ nodes next, Round plain off i nodes next ∧
      i < plain.length ∧ i < next ∧ ∀ node ∈ nodes, node.Inside plain off := by
  by_cases inside : i < plain.length
  · by_cases crypto : octet plain i = 0x06
    · have held' : plain.length < 2 ^ 63 := by omega
      have step := usizeAdd_ok (show i + 1 < 2 ^ 64 by omega)
      rcases readVarint_cases held' (i + 1) with ⟨word, read⟩ | ⟨start, p, word, read, first, _⟩
      · exact .inl (over_cut_offset inside crypto step word read)
      · rcases readVarint_cases held' p with
          ⟨word', read'⟩ | ⟨len, q, word', read', second, fits, small⟩
        · exact .inl (over_cut_length inside crypto step word read word' read')
        · refine .inr ⟨_, q + len.toNat, round_crypto held inside crypto step word read word' read'
            (by omega) fits small, inside, by omega, ?_⟩
          intro node member
          rw [List.mem_singleton.mp member]
          constructor <;> dsimp only <;> omega
    · by_cases padding : octet plain i = 0x00
      · exact .inr ⟨[], i + 1, round_padding held inside padding, inside, by omega, by simp⟩
      · by_cases ping : octet plain i = 0x01
        · refine .inr ⟨_, i + 1, round_ping held inside ping, inside, by omega, ?_⟩
          intro node member
          rw [List.mem_singleton.mp member]
          constructor <;> dsimp only <;> omega
        · exact .inl (over_other inside crypto padding ping)
  · exact .inl (over_end inside)

/-- From wherever it starts, the loop ends within as many rounds as there are octets left, no sum
overflows, and what it adds is inside and what the dissector adds. -/
theorem cryptoFrameNodes_ok (held : off + plain.length < 2 ^ 63) {fuel : Nat}
    (enough : plain.length < i + fuel) (started : 0 < fuel) :
    ∃ nodes, cryptoFrameNodes plain off fuel i = .ok nodes ∧
      (∀ node ∈ nodes, node.Inside plain off) ∧
        ∀ parent, annotateCryptoFrames parent plain off fuel i =
          addFields parent (nodes.map FrameNode.field) := by
  induction fuel generalizing i with
  | zero => omega
  | succ fuel ih =>
    rcases round_cases held i with done | ⟨here, next, round, within, further, inside⟩
    · exact ⟨[], (done fuel).1, by simp, (done fuel).2⟩
    · obtain ⟨later, run, inside', added⟩ := ih (i := next) (by omega) (by omega)
      obtain ⟨nodes, dissected⟩ := round fuel
      refine ⟨here ++ later, ?_, ?_, fun parent => ?_⟩
      · rw [nodes, run]
        rfl
      · intro node member
        rcases List.mem_append.mp member with now | then'
        · exact inside node now
        · exact inside' node then'
      · rw [dissected, added, List.map_append, addFields_append]

end

/-- Integers are read as the protocol writes them, from every place of every slice, and nothing is
read exactly where one is cut off. The walk over the frames of a plaintext that lies at a place of
a frame ends without a sum that overflows, whatever lengths the frames claim, and all it adds to
the dissector's tree is inside. -/
theorem quic_frames_walked :
    (∀ (payload : Bytes) (off : Nat), payload.length < 2 ^ 63 →
      (∃ found, readVarintWord payload off = .ok found) ∧
        (∀ v next, readVarintWord payload off = .ok (some (v, next)) ↔
          VarintAt payload off v.toNat next) ∧
        (∀ v next, readVarintWord payload off = .ok (some (v, next)) →
          off < next ∧ next ≤ payload.length) ∧
        (readVarintWord payload off = .ok none ↔ Truncated payload off)) ∧
      ∀ (plain : Bytes) (off : Nat), off + plain.length < 2 ^ 63 →
        ∃ nodes, cryptoFrameNodes plain off (plain.length + 1) 0 = .ok nodes ∧
          (∀ node ∈ nodes, node.Inside plain off) ∧
            ∀ parent, annotateCryptoFrames parent plain off (plain.length + 1) 0 =
              addFields parent (nodes.map FrameNode.field) := by
  constructor
  · intro payload off held
    refine ⟨?_, readVarintWord_some_iff held, ?_, readVarintWord_none_iff held⟩
    · rcases readVarint_cases held off with ⟨read, _⟩ | ⟨v, next, read, _⟩
      · exact ⟨_, read⟩
      · exact ⟨_, read⟩
    · intro v next read
      rcases readVarint_cases held off with ⟨read', _⟩ | ⟨v', next', read', _, behind, inside, _⟩
      · rw [read'] at read
        cases read
      · rw [read'] at read
        cases read
        exact ⟨behind, inside⟩
  · intro plain off held
    exact cryptoFrameNodes_ok held (by omega) (Nat.succ_pos _)

/-- An integer of eight octets, and a frame that claims the longest length there is. -/
theorem longest_frame_walked :
    VarintAt [0xc2, 0x19, 0x7c, 0x5e, 0xff, 0x14, 0xe8, 0x8c] 0 151288809941952652 8 ∧
      ∃ nodes, cryptoFrameNodes
          [0x00, 0x01, 0x06, 0x00, 0xff, 0xff, 0xff, 0xff, 0xff, 0xff, 0xff, 0xff, 0x16] 50 14 0 =
            .ok nodes ∧
        ∀ node ∈ nodes, node.Inside
          [0x00, 0x01, 0x06, 0x00, 0xff, 0xff, 0xff, 0xff, 0xff, 0xff, 0xff, 0xff, 0x16] 50 := by
  constructor
  · exact (((quic_frames_walked.1 _ 0 (by decide)).2.1 151288809941952652 8).mp (by decide))
  · obtain ⟨nodes, run, inside, _⟩ := quic_frames_walked.2
      [0x00, 0x01, 0x06, 0x00, 0xff, 0xff, 0xff, 0xff, 0xff, 0xff, 0xff, 0xff, 0x16] 50 (by decide)
    exact ⟨nodes, run, inside⟩

end BitBeak
