import BitBeak.Inspect

/-! The coloured spans are the line, cut; the scanner stops the program at a character outside the
strings that is not ASCII. -/
namespace BitBeak.Inspect
open BoolText ByteText Utf8
open Wire hiding slice

/- What is outside the strings. -/

inductive ScanState where
  | outside
  | quoted
  | escaped
  deriving DecidableEq, Repr

/-- The characters outside the strings. A string begins with a quote and ends with the next one
that no backslash precedes, or with the line. -/
def charsOutside : ScanState → Text → Text
  | _, [] => []
  | .outside, c :: t => if c = '"' then charsOutside .quoted t else c :: charsOutside .outside t
  | .quoted, c :: t =>
    if c = '\\' then charsOutside .escaped t
    else if c = '"' then charsOutside .outside t
    else charsOutside .quoted t
  | .escaped, _ :: t => charsOutside .quoted t

def AsciiOutside (t : Text) : Prop := ∀ c ∈ charsOutside .outside t, c.toNat < 128

/-- Text that is in no string and has no character of several octets. -/
def Plain (part : Text) : Prop := ∀ c ∈ part, c.toNat < 128 ∧ c ≠ '"'

theorem asciiOutside_cons {c : Char} (ascii : c.toNat < 128) (other : c ≠ '"') (t : Text) :
    AsciiOutside (c :: t) ↔ AsciiOutside t := by
  rw [AsciiOutside, charsOutside, if_neg other, List.forall_mem_cons]
  exact and_iff_right ascii

theorem asciiOutside_plain {part : Text} (plain : Plain part) (t : Text) :
    AsciiOutside (part ++ t) ↔ AsciiOutside t := by
  induction part with
  | nil => rfl
  | cons c part ih =>
    obtain ⟨⟨ascii, other⟩, rest⟩ := List.forall_mem_cons.mp plain
    rw [List.cons_append, asciiOutside_cons ascii other, ih rest]

theorem not_asciiOutside {c : Char} (high : 128 ≤ c.toNat) (t : Text) :
    ¬ AsciiOutside (c :: t) := by
  have other : c ≠ '"' := by
    rintro rfl
    exact absurd high (by decide)
  intro ascii
  rw [AsciiOutside, charsOutside, if_neg other] at ascii
  exact absurd (ascii c List.mem_cons_self) (Nat.not_lt.mpr high)

/- Strings. -/

/-- The part of a string behind its opening quote. -/
def stringPart : Text → Text
  | [] => []
  | c :: t =>
    if c = '\\' then
      match t with
      | [] => [c]
      | d :: t => c :: d :: stringPart t
    else if c = '"' then [c]
    else c :: stringPart t

theorem stringPart_split (t : Text) :
    ∃ behind, t = stringPart t ++ behind ∧
      charsOutside .quoted t = charsOutside .outside behind := by
  fun_induction stringPart t with
  | case1 => exact ⟨[], rfl, rfl⟩
  | case2 => exact ⟨[], rfl, by simp [charsOutside]⟩
  | case3 d t ih =>
    obtain ⟨behind, whole, same⟩ := ih
    exact ⟨behind, by rw [List.cons_append, List.cons_append, ← whole], by simp [charsOutside, same]⟩
  | case4 t other => exact ⟨t, rfl, by simp [charsOutside, other]⟩
  | case5 c t other unquoted ih =>
    obtain ⟨behind, whole, same⟩ := ih
    exact ⟨behind, by rw [List.cons_append, ← whole], by simp [charsOutside, other, unquoted, same]⟩

theorem stringLength_octets {octets : Bytes} (others : ∀ b ∈ octets, b ≠ 0x5c ∧ b ≠ 0x22)
    (rest : Bytes) : stringLength (octets ++ rest) = octets.length + stringLength rest := by
  induction octets with
  | nil => simp
  | cons b octets ih =>
    obtain ⟨⟨slash, quote⟩, tail⟩ := List.forall_mem_cons.mp others
    rw [List.cons_append, stringLength.eq_def]
    simp only [if_neg slash, if_neg quote, ih tail, List.length_cons]
    omega

theorem octets_other {b : UInt8} (high : 128 ≤ b.toNat) : b ≠ 0x5c ∧ b ≠ 0x22 := by
  constructor <;>
  · rintro rfl
    exact absurd high (by decide)

/-- A character that is neither a backslash nor a quote has no octet that is one. -/
theorem octets_plain {c : Char} (slash : c ≠ '\\') (quote : c ≠ '"') :
    ∀ b ∈ String.utf8EncodeChar c, b ≠ 0x5c ∧ b ≠ 0x22 := by
  intro b member
  by_cases ascii : c.toNat < 128
  · rw [encode_ascii ascii, List.mem_singleton] at member
    subst member
    exact ⟨fun same => slash (ascii_inj ascii (by decide) same),
      fun same => quote (ascii_inj ascii (by decide) same)⟩
  · exact octets_other (encode_high (Nat.le_of_not_lt ascii) b member)

theorem octets_tail (c : Char) : ∀ b ∈ (String.utf8EncodeChar c).tail, b ≠ 0x5c ∧ b ≠ 0x22 := by
  intro b member
  by_cases ascii : c.toNat < 128
  · rw [encode_ascii ascii] at member
    cases member
  · exact octets_other (encode_high (Nat.le_of_not_lt ascii) b (List.mem_of_mem_tail member))

theorem stringLength_text (t : Text) : stringLength (encode t) = size (stringPart t) := by
  fun_induction stringPart t with
  | case1 => rfl
  | case2 => rfl
  | case3 d t ih =>
    have slash : encode ('\\' :: d :: t) = 0x5c :: encode (d :: t) := rfl
    obtain ⟨b, more, octets⟩ : ∃ b more, String.utf8EncodeChar d = b :: more :=
      List.exists_cons_of_ne_nil String.utf8EncodeChar_ne_nil
    have tail := stringLength_octets (octets_tail d) (encode t)
    rw [octets, List.tail_cons] at tail
    rw [slash, encode_cons, octets, List.cons_append, stringLength, if_pos rfl, tail, ih, size_cons,
      size_cons, octets]
    simp [encode_ascii]
    omega
  | case4 t other =>
    have quote : encode ('"' :: t) = 0x22 :: encode t := rfl
    rw [quote, stringLength.eq_def]
    rfl
  | case5 c t other unquoted ih =>
    rw [encode_cons, stringLength_octets (octets_plain other unquoted), ih, size_cons]

/- Numbers, and the text between tokens. -/

theorem numberByte_ascii {b : UInt8} (number : isNumberByte b = true) : b.toNat < 128 ∧ b ≠ 0x22 := by
  constructor
  · have small : b ≤ 0x7f := by
      simp only [isNumberByte, isDigitByte, List.contains_cons, List.contains_nil, Bool.or_eq_true,
        Bool.and_eq_true, decide_eq_true_eq, beq_iff_eq] at number
      grind
    exact Nat.lt_succ_of_le (UInt8.le_iff_toNat_le.mp small)
  · rintro rfl
    cases number

theorem numberPart (t : Text) :
    ∃ part behind, t = part ++ behind ∧ Plain part ∧
      ((encode t).takeWhile isNumberByte).length = size part := by
  induction t with
  | nil => exact ⟨[], [], rfl, by simp [Plain], rfl⟩
  | cons c t ih =>
    obtain ⟨b, more, octets⟩ : ∃ b more, String.utf8EncodeChar c = b :: more :=
      List.exists_cons_of_ne_nil String.utf8EncodeChar_ne_nil
    by_cases number : isNumberByte b = true
    · obtain ⟨low, unquoted⟩ := numberByte_ascii number
      have ascii : c.toNat < 128 := by
        by_contra high
        have large := encode_high (Nat.le_of_not_lt high) b (octets ▸ List.mem_cons_self)
        omega
      obtain ⟨part, behind, rfl, plain, length⟩ := ih
      rw [encode_ascii ascii] at octets
      obtain ⟨rfl, rfl⟩ := List.cons.inj octets
      refine ⟨c :: part, behind, rfl, List.forall_mem_cons.mpr ⟨⟨ascii, ?_⟩, plain⟩, ?_⟩
      · rintro rfl
        exact unquoted rfl
      · rw [encode_cons, encode_ascii ascii, List.singleton_append, List.takeWhile_cons_of_pos number,
          List.length_cons, length, size_cons, encode_ascii ascii]
        simp only [List.length_singleton]
        omega
    · refine ⟨[], c :: t, rfl, by simp [Plain], ?_⟩
      rw [encode_cons, octets, List.cons_append, List.takeWhile_cons_of_neg number]
      rfl

theorem literalAt_behind (front t : Text) : ∃ found, literalAt (front ++ t) (size front) = .ok found ∧
    ∀ lit ∈ found, lit ≠ [] ∧ Plain lit ∧ ∃ behind, t = lit ++ behind := by
  refine ⟨_, by rw [literalAt, tailFrom_behind]; rfl, fun lit found => ?_⟩
  have words : ∀ w ∈ [['t', 'r', 'u', 'e'], ['f', 'a', 'l', 's', 'e'], ['n', 'u', 'l', 'l']],
      w ≠ [] ∧ ∀ c ∈ w, c.toNat < 128 ∧ c ≠ '"' := by simp
  obtain ⟨nonempty, plain⟩ := words lit (List.mem_of_find?_eq_some found)
  have begins := List.find?_some found
  obtain ⟨behind, whole⟩ := List.isPrefixOf_iff_prefix.mp begins
  exact ⟨nonempty, plain, behind, whole.symm⟩

/-- Inside a character the search for the next token stops the program. -/
theorem valueEnd_inside (front : Text) {c : Char} (t : Text) (high : 128 ≤ c.toNat) (fuel : Nat) :
    ∃ e, valueEnd (front ++ c :: t) fuel (size front + 1) = .error e := by
  cases fuel with
  | zero => exact ⟨_, rfl⟩
  | succ fuel =>
    obtain ⟨b, there, large⟩ := octet_high front t high (two_octets high)
    have plain : ¬ (b = 0x22 ∨ isDigitByte b = true) := by
      rintro (rfl | digit)
      · exact absurd large (by decide)
      · have number : isNumberByte b = true := by rw [isNumberByte, digit, Bool.true_or]
        exact absurd (numberByte_ascii number).1 (Nat.not_lt.mpr large)
    refine ⟨.badSlice, ?_⟩
    rw [valueEnd, there]
    simp only [if_neg plain, literalAt, tailFrom_inside front t Nat.zero_lt_one (two_octets high)]
    rfl

/-- One turn of the search. -/
theorem valueEnd_turn {line : Text} {i : Nat} {b : UInt8} {found : Option Text}
    (there : (encode line)[i]? = some b) (literal : literalAt line i = .ok found) (fuel : Nat) :
    valueEnd line (fuel + 1) i =
      if (b = 0x22 ∨ isDigitByte b) ∨ found.isSome ∨ b = 0x2d ∧ digitAt line (i + 1) then .ok i
      else valueEnd line fuel (i + 1) := by
  simp only [valueEnd, there, literal]
  by_cases first : b = 0x22 ∨ isDigitByte b = true
  · rw [if_pos first, if_pos (Or.inl first)]
  · rw [if_neg first]
    cases found with
    | some lit => exact (if_pos (Or.inr (Or.inl rfl))).symm
    | none =>
      by_cases minus : b = 0x2d ∧ digitAt line (i + 1) = true
      · simp only [minus, and_self, or_true, if_true]
        rfl
      · simp only [first, minus, Option.isSome_none, Bool.false_eq_true, or_self, if_false]
        rfl

/-- From a place between characters the next token is found behind a piece of plain text, or the
program stops in front of it. -/
theorem valueEnd_behind (t front : Text) {fuel : Nat} (enough : t.length < fuel) :
    (∃ part behind, t = part ++ behind ∧ Plain part ∧
      valueEnd (front ++ t) fuel (size front) = .ok (size (front ++ part))) ∨
    (¬ AsciiOutside t ∧ ∃ e, valueEnd (front ++ t) fuel (size front) = .error e) := by
  induction t generalizing front fuel with
  | nil =>
    obtain ⟨fuel, rfl⟩ : ∃ n, fuel = n + 1 := ⟨fuel - 1, by omega⟩
    refine .inl ⟨[], [], rfl, by simp [Plain], ?_⟩
    simp only [List.append_nil, valueEnd, octet_end]
  | cons c t ih =>
    obtain ⟨fuel, rfl⟩ : ∃ n, fuel = n + 1 := ⟨fuel - 1, by omega⟩
    obtain ⟨found, literal, _⟩ := literalAt_behind front (c :: t)
    obtain ⟨b, there⟩ : ∃ b, (encode (front ++ c :: t))[size front]? = some b :=
      ⟨_, octet_behind front c t (length_pos c)⟩
    rw [valueEnd_turn there literal]
    split
    · exact .inl ⟨[], c :: t, rfl, by simp [Plain], by rw [List.append_nil]⟩
    · next plain =>
      by_cases ascii : c.toNat < 128
      · have other : c ≠ '"' := by
          rintro rfl
          rw [octet_ascii front t ascii] at there
          cases there
          exact plain (.inl (.inl rfl))
        have fewer : t.length < fuel := by simpa using enough
        have step := ih (front ++ [c]) fewer
        rw [size_snoc_ascii front ascii, List.append_assoc, List.singleton_append] at step
        rcases step with ⟨part, behind, rfl, clear, ends⟩ | ⟨strange, stops⟩
        · refine .inl ⟨c :: part, behind, rfl, List.forall_mem_cons.mpr ⟨⟨ascii, other⟩, clear⟩, ?_⟩
          rw [ends, List.append_assoc, List.singleton_append]
        · refine .inr ⟨fun every => strange ?_, stops⟩
          exact (asciiOutside_cons ascii other t).mp every
      · have high := Nat.le_of_not_lt ascii
        exact .inr ⟨not_asciiOutside high t, valueEnd_inside front t high fuel⟩

/- The loop. -/

/-- The spans are the text, or the program stops where it is not ASCII. -/
def Settles (x : Except Panic (List Span)) (t : Text) : Prop :=
  (AsciiOutside t ∧ ∃ spans, x = .ok spans ∧ spans.flatMap Span.text = t) ∨
    (¬ AsciiOutside t ∧ ∃ e, x = .error e)

theorem Settles.span {x : Except Panic (List Span)} {behind : Text} (rest : Settles x behind)
    (part : Text) (style : TokenStyle) (same : AsciiOutside (part ++ behind) ↔ AsciiOutside behind) :
    Settles (do return ⟨part, style⟩ :: (← x)) (part ++ behind) := by
  rcases rest with ⟨ascii, spans, rfl, whole⟩ | ⟨strange, e, rfl⟩
  · exact .inl ⟨same.mpr ascii, ⟨part, style⟩ :: spans, rfl, by simp [whole]⟩
  · exact .inr ⟨fun ascii => strange (same.mp ascii), e, rfl⟩

theorem octets_behind (front : Text) {c : Char} (ascii : c.toNat < 128) (t : Text) :
    (encode (front ++ c :: t)).drop (size front + 1) = encode t := by
  rw [encode_append, encode_cons, encode_ascii ascii, ← List.drop_drop, size, List.drop_left]
  rfl

/-- A character whose first octet is that of an ASCII one is that one. -/
theorem eq_of_octet {front t : Text} {c d : Char} (ascii : d.toNat < 128)
    (there : (encode (front ++ c :: t))[size front]? = some (UInt8.ofNat d.toNat)) : c = d := by
  by_cases low : c.toNat < 128
  · rw [octet_ascii front t low] at there
    exact ascii_inj low ascii (Option.some.inj there)
  · obtain ⟨b, first, large⟩ := octet_high front t (Nat.le_of_not_lt low) (length_pos c)
    rw [Nat.add_zero, there] at first
    have small := toNat_ascii ascii
    cases first
    omega

section
variable {front t : Text} {c : Char} {fuel : Nat}
  (rest : ∀ front behind : Text, behind.length ≤ t.length →
    Settles (colorizeLoop (front ++ behind) fuel (size front)) behind)
include rest

/-- A string, from its opening quote on. -/
theorem colorize_string :
    Settles (colorizeLoop (front ++ '"' :: t) (fuel + 1) (size front)) ('"' :: t) := by
  obtain ⟨behind, whole, same⟩ := stringPart_split t
  have ascii : '"'.toNat < 128 := by decide
  have stop : size front + 1 + stringLength (encode t) = size (front ++ '"' :: stringPart t) := by
    rw [stringLength_text, size_append, size_cons, encode_ascii ascii]
    simp only [List.length_singleton]
    omega
  have line : front ++ '"' :: t = front ++ '"' :: stringPart t ++ behind := by
    rw [List.append_assoc, List.cons_append, ← whole]
  have shorter : behind.length ≤ t.length := by
    rw [whole, List.length_append]
    omega
  have cut := slice_between front ('"' :: stringPart t) behind
  have tail := tailFrom_behind (front ++ '"' :: stringPart t) behind
  have others := rest (front ++ '"' :: stringPart t) behind shorter
  rw [colorizeLoop, octet_ascii front t ascii]
  simp only [show UInt8.ofNat '"'.toNat = 0x22 from rfl, if_true, octets_behind front ascii, stop]
  rw [← line] at cut tail others
  simp only [cut, tail]
  have closed : AsciiOutside (('"' :: stringPart t) ++ behind) ↔ AsciiOutside behind := by
    rw [List.cons_append, AsciiOutside, AsciiOutside, charsOutside, if_pos rfl, ← whole, same]
  have spans := others.span ('"' :: stringPart t)
    (if (behind.dropWhile isWhitespace).head? = some ':' then .key else .string) closed
  rw [List.cons_append, ← whole] at spans
  exact spans

/-- A piece of plain text that is cut out as one span. -/
theorem settles_plain {part behind : Text} (whole : t = part ++ behind) (plain : Plain (c :: part))
    (style : TokenStyle) {stop : Nat} (ends : stop = size (front ++ c :: part)) :
    Settles (do
      let s ← slice (front ++ c :: t) (size front) stop
      return ⟨s, style⟩ :: (← colorizeLoop (front ++ c :: t) fuel stop)) (c :: t) := by
  have shorter : behind.length ≤ t.length := by
    rw [whole, List.length_append]
    omega
  have line : front ++ c :: t = front ++ c :: part ++ behind := by
    rw [List.append_assoc, List.cons_append, ← whole]
  have cut := slice_between front (c :: part) behind
  have others := rest (front ++ c :: part) behind shorter
  rw [← line] at cut others
  have spans := others.span (c :: part) style (asciiOutside_plain plain behind)
  rw [List.cons_append, ← whole] at spans
  rw [ends, cut]
  exact spans

theorem colorize_number (ascii : c.toNat < 128) (unquoted : c ≠ '"') {b : UInt8}
    (octet : UInt8.ofNat c.toNat = b)
    (number : isDigitByte b ∨ b = 0x2d ∧ digitAt (front ++ c :: t) (size front + 1)) :
    Settles (colorizeLoop (front ++ c :: t) (fuel + 1) (size front)) (c :: t) := by
  obtain ⟨part, behind, whole, plain, length⟩ := numberPart t
  have other : b ≠ 0x22 := by
    rintro rfl
    exact unquoted (ascii_inj ascii (show '"'.toNat < 128 by decide) octet)
  have ends : size front + 1 + ((encode t).takeWhile isNumberByte).length =
      size (front ++ c :: part) := by
    rw [length, size_append, size_cons, encode_ascii ascii]
    simp only [List.length_singleton]
    omega
  have spans := settles_plain rest whole (List.forall_mem_cons.mpr ⟨⟨ascii, unquoted⟩, plain⟩)
    .number ends
  rw [colorizeLoop, octet_ascii front t ascii, octet]
  simp only [if_neg other, if_pos number, octets_behind front ascii]
  exact spans

/-- A literal, or the text up to the next token. -/
theorem colorize_other (unquoted : c ≠ '"') {b : UInt8}
    (there : (encode (front ++ c :: t))[size front]? = some b) (other : b ≠ 0x22)
    (number : ¬ (isDigitByte b ∨ b = 0x2d ∧ digitAt (front ++ c :: t) (size front + 1))) :
    Settles (colorizeLoop (front ++ c :: t) (fuel + 1) (size front)) (c :: t) := by
  obtain ⟨found, literal, word⟩ := literalAt_behind front (c :: t)
  rw [colorizeLoop, there]
  simp only [if_neg other, if_neg number, literal]
  cases found with
  | some lit =>
    obtain ⟨nonempty, plain, behind, whole⟩ := word lit rfl
    obtain ⟨d, part, rfl⟩ := List.exists_cons_of_ne_nil nonempty
    obtain ⟨rfl, tail⟩ := List.cons.inj whole
    have shorter : behind.length ≤ t.length := by
      have lengths := congrArg List.length whole
      simp only [List.length_cons, List.length_append] at lengths
      omega
    have others := rest (front ++ c :: part) behind shorter
    have spans := others.span (c :: part) .literal (asciiOutside_plain plain behind)
    rw [List.append_assoc, ← whole, size_append] at spans
    exact spans
  | none =>
    change Settles (do
      let stop ← valueEnd (front ++ c :: t) (size (front ++ c :: t) + 1) (size front + 1)
      let s ← slice (front ++ c :: t) (size front) stop
      return ⟨s, .value⟩ :: (← colorizeLoop (front ++ c :: t) fuel stop)) (c :: t)
    by_cases ascii : c.toNat < 128
    · have ahead : t.length < size (front ++ c :: t) + 1 := by
        have longer := length_le_size t
        rw [size_append, size_cons]
        omega
      have search := valueEnd_behind t (front ++ [c]) ahead
      rw [size_snoc_ascii front ascii, List.append_assoc, List.singleton_append] at search
      rcases search with ⟨part, behind, whole, plain, ends⟩ | ⟨strange, e, stops⟩
      · rw [ends]
        rw [List.append_assoc, List.singleton_append]
        exact settles_plain rest whole (List.forall_mem_cons.mpr ⟨⟨ascii, unquoted⟩, plain⟩)
          .value rfl
      · refine .inr ⟨fun every => strange ?_, e, ?_⟩
        · exact (asciiOutside_cons ascii unquoted t).mp every
        · rw [stops]
          rfl
    · have high := Nat.le_of_not_lt ascii
      obtain ⟨e, stops⟩ := valueEnd_inside front t high (size (front ++ c :: t) + 1)
      refine .inr ⟨not_asciiOutside high t, e, ?_⟩
      rw [stops]
      rfl

end

theorem colorizeLoop_settles (n : Nat) (t front : Text) (fuel : Nat) (short : t.length ≤ n)
    (enough : t.length < fuel) : Settles (colorizeLoop (front ++ t) fuel (size front)) t := by
  induction n generalizing t front fuel with
  | zero =>
    cases List.length_eq_zero_iff.mp (Nat.le_zero.mp short)
    obtain ⟨fuel, rfl⟩ : ∃ n, fuel = n + 1 := ⟨fuel - 1, by omega⟩
    refine .inl ⟨by simp [AsciiOutside, charsOutside], [], ?_, rfl⟩
    rw [List.append_nil, colorizeLoop, octet_end]
  | succ n ih =>
    obtain ⟨fuel, rfl⟩ : ∃ n, fuel = n + 1 := ⟨fuel - 1, by omega⟩
    cases t with
    | nil => exact ih [] front (fuel + 1) (Nat.zero_le n) enough
    | cons c t =>
      rw [List.length_cons] at short enough
      have rest : ∀ front behind : Text, behind.length ≤ t.length →
          Settles (colorizeLoop (front ++ behind) fuel (size front)) behind := by
        intro front behind shorter
        exact ih behind front fuel (by omega) (by omega)
      by_cases quote : c = '"'
      · subst quote
        exact colorize_string rest
      · obtain ⟨b, there⟩ : ∃ b, (encode (front ++ c :: t))[size front]? = some b :=
          ⟨_, octet_behind front c t (length_pos c)⟩
        by_cases number : isDigitByte b ∨ b = 0x2d ∧ digitAt (front ++ c :: t) (size front + 1)
        · have low : b.toNat < 128 := by
            rcases number with digit | ⟨rfl, _⟩
            · exact (numberByte_ascii (by rw [isNumberByte, digit, Bool.true_or])).1
            · decide
          have ascii : c.toNat < 128 := by
            by_contra high
            obtain ⟨b', first, large⟩ :=
              octet_high front t (Nat.le_of_not_lt high) (length_pos c)
            cases there.symm.trans first
            omega
          have octet := there
          rw [octet_ascii front t ascii] at octet
          exact colorize_number rest ascii quote (Option.some.inj octet) number
        · refine colorize_other rest quote there ?_ number
          rintro rfl
          exact quote (eq_of_octet (d := '"') (by decide) there)

/-- A line is cut into coloured spans that are all of it, if and only if it is ASCII outside its
strings; else the program stops inside a character. -/
theorem colorizeJsonLine_lossless_iff (line : String) :
    (∃ spans, colorizeJsonLine line = .ok spans ∧ spans.flatMap Span.text = line.toList) ↔
      AsciiOutside line.toList := by
  have settled := colorizeLoop_settles line.toList.length line.toList []
    (size line.toList + 1) le_rfl (Nat.lt_succ_of_le (length_le_size line.toList))
  rw [List.nil_append, size_nil] at settled
  rcases settled with ⟨ascii, spans, done, whole⟩ | ⟨strange, e, stops⟩
  · refine iff_of_true ?_ ascii
    rw [colorizeJsonLine, done]
    by_cases empty : spans = []
    · exact ⟨[⟨line.toList, .value⟩], by rw [empty]; rfl, by simp⟩
    · refine ⟨spans, ?_, whole⟩
      change Except.ok (if spans = [] then _ else spans) = _
      rw [if_neg empty]
  · refine iff_of_false ?_ strange
    rintro ⟨spans, done, _⟩
    rw [colorizeJsonLine, stops] at done
    cases done

/-- A MessagePack string with a quote in it closes the quotes it is shown in. -/
theorem quoted_accent_stops :
    colorizeJsonLine "\"\"é\"" = .error .badSlice ∧
    msgpackLines (.string (some "\"é")) 1 = .error .badSlice := by
  have stops : colorizeJsonLine "\"\"é\"" = .error .badSlice := by decide
  have shown : formatMsgpack 0 (.string (some "\"é")) = "\"\"é\"" := by decide
  have lines : textLines "\"\"é\"".toList = ["\"\"é\"".toList] := by decide
  refine ⟨stops, ?_⟩
  rw [msgpackLines, shown, lines, List.take_one, List.head?_cons, Option.toList_some,
    List.mapM_cons, String.ofList_toList, stops]
  rfl

end BitBeak.Inspect
