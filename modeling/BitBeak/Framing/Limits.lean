import BitBeak.Framing.Stream

/-! The two limits of a length prefix: what its width can announce, which the encoder minds, and
the largest frame, which only the decoder minds. -/
namespace BitBeak
open Wire

/-- The prefix can announce the payload. -/
def Announced (framing : FramingConfig) (payload : Bytes) : Prop :=
  IsWidth framing.prefixSize ∧ payload.length < 256 ^ framing.prefixSize

/-- What the encoder lets through, a codec of the same configuration reads as the payload. -/
def LimitsAgree (framing : FramingConfig) (payload : Bytes) : Prop :=
  ∀ encoded, encodeOutbound framing payload = .ok encoded →
    (freshCodec framing).decode encoded = (.ok (some payload), freshCodec framing, [])

/-- Some prefix makes the codec wait for a body of the payload's length. -/
def Admitted (framing : FramingConfig) (payload : Bytes) : Prop :=
  ∃ front : Bytes, front.length = framing.prefixSize ∧
    (freshCodec framing).readLen front = .ok payload.length

def Refused (framing : FramingConfig) (payload : Bytes) : Prop :=
  ∃ e, encodeOutbound framing payload = .error e

section
variable {framing : FramingConfig} {payload : Bytes}

theorem encodeOutbound_announced (kind : framing.kind = .lengthPrefixed)
    (announced : Announced framing payload) :
    encodeOutbound framing payload = .ok (header framing payload.length ++ payload) := by
  simp only [encodeOutbound, kind, LengthPrefixedCodec.encode]
  rw [← freshCodec, writeLen_eq announced.1 announced.2]
  rfl

theorem writeLen_strange {len : Nat} (strange : ¬ IsWidth framing.prefixSize) :
    (freshCodec framing).writeLen len = .error .invalidLength := by
  obtain ⟨kind, width, endian, maxFrame⟩ := framing
  simp only [IsWidth, not_or] at strange
  obtain ⟨one, two, four, eight⟩ := strange
  simp only [freshCodec, LengthPrefixedCodec.new, LengthPrefixedCodec.writeLen]
  split <;> first | contradiction | rfl

theorem writeLen_long {len : Nat} (width : IsWidth framing.prefixSize) (held : len ≤ usizeMax)
    (long : 256 ^ framing.prefixSize ≤ len) :
    (freshCodec framing).writeLen len = .error (.tooLarge len) := by
  obtain ⟨kind, k, endian, maxFrame⟩ := framing
  rcases width with rfl | rfl | rfl | rfl <;> cases endian <;>
    simp only [freshCodec, LengthPrefixedCodec.new, LengthPrefixedCodec.writeLen]
  case inr.inr.inr.big | inr.inr.inr.little =>
    dsimp only at long
    unfold usizeMax at held
    omega
  all_goals exact if_neg (Nat.not_lt.mpr long)

theorem writeLen_refuses {len : Nat} (held : len ≤ usizeMax)
    (beyond : ¬ (IsWidth framing.prefixSize ∧ len < 256 ^ framing.prefixSize)) :
    ∃ e, (freshCodec framing).writeLen len = .error e := by
  by_cases width : IsWidth framing.prefixSize
  · exact ⟨_, writeLen_long width held (Nat.le_of_not_lt fun small => beyond ⟨width, small⟩)⟩
  · exact ⟨_, writeLen_strange width⟩

theorem refused_iff (kind : framing.kind = .lengthPrefixed) (held : payload.length ≤ usizeMax) :
    Refused framing payload ↔ ¬ Announced framing payload := by
  constructor
  · rintro ⟨e, refused⟩ announced
    rw [encodeOutbound_announced kind announced] at refused
    cases refused
  · intro beyond
    obtain ⟨e, refused⟩ := writeLen_refuses held beyond
    refine ⟨e, ?_⟩
    simp only [encodeOutbound, kind, LengthPrefixedCodec.encode]
    rw [← freshCodec, refused]
    rfl

theorem usizeFrom_eq {v len : Nat} (read : LengthPrefixedCodec.usizeFrom v = .ok len) : v = len := by
  unfold LengthPrefixedCodec.usizeFrom at read
  split at read <;> cases read
  rfl

/-- A codec reads no length that its prefix cannot announce. -/
theorem rawLen_announced {front : Bytes} {len : Nat}
    (read : (freshCodec framing).rawLen front = .ok len) :
    IsWidth framing.prefixSize ∧ len < 256 ^ framing.prefixSize := by
  obtain ⟨kind, width, endian, maxFrame⟩ := framing
  simp only [freshCodec, LengthPrefixedCodec.new, LengthPrefixedCodec.rawLen] at read
  split at read
  case h_1 => cases read; exact ⟨.inl rfl, (octet front 0).toNat_lt⟩
  case h_2 => cases read; exact ⟨.inr (.inl rfl), beAt_lt front 0 2⟩
  case h_3 => cases read; exact ⟨.inr (.inl rfl), leAt_lt front 0 2⟩
  case h_4 => cases read; exact ⟨.inr (.inr (.inl rfl)), beAt_lt front 0 4⟩
  case h_5 => cases read; exact ⟨.inr (.inr (.inl rfl)), leAt_lt front 0 4⟩
  case h_6 => cases usizeFrom_eq read; exact ⟨.inr (.inr (.inr rfl)), beAt_lt front 0 8⟩
  case h_7 => cases usizeFrom_eq read; exact ⟨.inr (.inr (.inr rfl)), leAt_lt front 0 8⟩
  case h_8 => cases read

theorem admitted_iff : Admitted framing payload ↔
    Announced framing payload ∧ payload.length ≤ framing.maxFrame := by
  constructor
  · rintro ⟨front, _, read⟩
    obtain ⟨len, raw, small⟩ := ok_of_bind read
    split at small
    · cases small
    next within =>
      cases small
      exact ⟨rawLen_announced raw, Nat.le_of_not_lt within⟩
  · rintro ⟨⟨width, small⟩, within⟩
    exact ⟨header framing payload.length, length_header _, readLen_eq width ⟨within, small⟩⟩

/-- The codec refuses a length beyond its largest frame, and stays in front of it. -/
theorem decode_beyond (announced : Announced framing payload)
    (long : framing.maxFrame < payload.length) (rest : Bytes) :
    (freshCodec framing).decode (header framing payload.length ++ rest) =
      (.error (.tooLarge payload.length), freshCodec framing,
        header framing payload.length ++ rest) := by
  have rejected : (freshCodec framing).readLen (header framing payload.length) =
      .error (.tooLarge payload.length) := by
    rw [LengthPrefixedCodec.readLen, rawLen_eq announced.1 announced.2]
    exact if_pos long
  have whole : ¬ (header framing payload.length ++ rest).length < framing.prefixSize := by
    simp
  have front : (header framing payload.length ++ rest).take framing.prefixSize =
      header framing payload.length := List.take_left' (length_header _)
  have fresh : (freshCodec framing).state = .length := rfl
  have width : (freshCodec framing).prefixSize = framing.prefixSize := rfl
  rw [LengthPrefixedCodec.decode, fresh]
  dsimp only
  rw [width, if_neg whole, front, rejected]

theorem decode_announced (announced : Announced framing payload) :
    (freshCodec framing).decode (header framing payload.length ++ payload) =
        (.ok (some payload), freshCodec framing, []) ↔ payload.length ≤ framing.maxFrame := by
  constructor
  · intro decoded
    by_contra large
    rw [decode_beyond announced (Nat.lt_of_not_le large)] at decoded
    cases decoded
  · intro within
    rw [decode_prefixed announced.1 ⟨within, announced.2⟩]
    simpa using decodeBody_item payload []

end

/-- Encoder and decoder of one configuration agree on a payload, and what the decoder would
reject is refused, exactly if the prefix cannot announce the payload or the payload is within
the largest frame. -/
theorem limits_agree_iff (framing : FramingConfig) (kind : framing.kind = .lengthPrefixed)
    (payload : Bytes) (held : payload.length ≤ usizeMax) :
    (LimitsAgree framing payload ↔
      ¬ Announced framing payload ∨ payload.length ≤ framing.maxFrame) ∧
    ((¬ Admitted framing payload → Refused framing payload) ↔
      ¬ Announced framing payload ∨ payload.length ≤ framing.maxFrame) := by
  by_cases announced : Announced framing payload
  · have sent := encodeOutbound_announced kind announced
    have decoded := decode_announced announced
    constructor
    · simp [LimitsAgree, sent, decoded, announced]
    · simp [admitted_iff, refused_iff kind held, announced]
  · obtain ⟨e, refused⟩ := (refused_iff kind held).mpr announced
    constructor
    · simp [LimitsAgree, refused, announced]
    · simp [refused_iff kind held, announced]

theorem limits_agree_at_limit :
    (LimitsAgree (.fromArgs .lengthPrefixed 2 .little) [104, 105] ↔
      ¬ Announced (.fromArgs .lengthPrefixed 2 .little) [104, 105] ∨ 2 ≤ 16777216) ∧
    ((¬ Admitted (.fromArgs .lengthPrefixed 2 .little) [104, 105] →
        Refused (.fromArgs .lengthPrefixed 2 .little) [104, 105]) ↔
      ¬ Announced (.fromArgs .lengthPrefixed 2 .little) [104, 105] ∨ 2 ≤ 16777216) :=
  limits_agree_iff (.fromArgs .lengthPrefixed 2 .little) rfl [104, 105] (by decide)

/-- One octet more than the largest frame goes out, and the codec at the other end stays in
front of its prefix. -/
theorem frame_beyond_limit_sent :
    ¬ LimitsAgree (.fromArgs .lengthPrefixed 4 .big) (List.replicate 16777217 0) := by
  have width : IsWidth (FramingConfig.fromArgs .lengthPrefixed 4 .big).prefixSize :=
    .inr (.inr (.inl rfl))
  have announced : Announced (.fromArgs .lengthPrefixed 4 .big) (List.replicate 16777217 0) := by
    refine ⟨width, ?_⟩
    rw [List.length_replicate]
    decide
  intro agree
  have within := (decode_announced announced).mp (agree _ (encodeOutbound_announced rfl announced))
  rw [List.length_replicate] at within
  exact absurd within (by decide)

end BitBeak
