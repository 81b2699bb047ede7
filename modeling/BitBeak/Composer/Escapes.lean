import BitBeak.Composer

/-! What a text with escapes stands for. The loop of the composer walks the octets of a text by
their offsets; it finds the octets that the text stands for and nothing else. -/
namespace BitBeak
open BoolText ByteText Utf8
open Wire hiding slice

theorem bind_return_ok {α β : Type} {m : Checked String α} {f : α → β} {b : β} :
    (do return f (← m)) = (given (.ok b) : Checked String β) ↔ ∃ a, m = given (.ok a) ∧ f a = b := by
  rcases m with panic | e | a
  · constructor
    · intro stopped
      cases stopped
    · rintro ⟨_, impossible, _⟩
      cases impossible
  · constructor
    · intro failed
      cases failed
    · rintro ⟨_, impossible, _⟩
      cases impossible
  · constructor
    · intro done
      cases done
      exact ⟨a, rfl, rfl⟩
    · rintro ⟨_, same, rfl⟩
      cases same
      rfl

/- One turn of the loop, with the text in front of the offset and behind it. -/

/-- What a turn yields in front of what the others do. -/
def appended (octets : Bytes) (m : Checked String Bytes) : Checked String Bytes := do
  return octets ++ (← m)

theorem appended_ok {octets out : Bytes} {m : Checked String Bytes} :
    appended octets m = given (.ok out) ↔ ∃ more, m = given (.ok more) ∧ out = octets ++ more := by
  rw [appended, bind_return_ok]
  simp only [eq_comm (a := out)]

section

-- The equations of the loop are made here, once.
attribute [local simp] escapesLoop

end

section
variable (front rest : Text) (fuel : Nat)

theorem escapesLoop_end : escapesLoop front (fuel + 1) (size front) = given (.ok []) := by
  simp only [escapesLoop, octet_end]
  rfl

theorem escapesLoop_plain {c : Char} (other : c ≠ '\\') :
    escapesLoop (front ++ c :: rest) (fuel + 1) (size front) =
      appended (String.utf8EncodeChar c)
        (escapesLoop (front ++ c :: rest) fuel (size (front ++ [c]))) := by
  have place : size (front ++ [c]) = size front + (String.utf8EncodeChar c).length := by
    simp [size_append, size_cons]
  have turn : ∀ b : UInt8, (encode (front ++ c :: rest))[size front]? = some b → b ≠ 0x5c →
      escapesLoop (front ++ c :: rest) (fuel + 1) (size front) =
        appended (String.utf8EncodeChar c)
          (escapesLoop (front ++ c :: rest) fuel (size (front ++ [c]))) := by
    intro b there unequal
    rw [escapesLoop, there]
    simp only [if_neg unequal]
    rw [checked_bind (tailFrom_behind front (c :: rest)), place]
    rfl
  by_cases ascii : c.toNat < 128
  · apply turn _ (octet_ascii front rest ascii)
    intro same
    exact other (ascii_inj ascii (by decide) same)
  · obtain ⟨b, there, high⟩ := octet_high front rest (Nat.le_of_not_lt ascii) (length_pos c)
    apply turn b there
    rintro rfl
    exact absurd high (by decide)

/-- Behind a backslash, at an ASCII character. -/
theorem escapesLoop_backslash {d : Char} (ascii : d.toNat < 128) :
    escapesLoop (front ++ '\\' :: d :: rest) (fuel + 1) (size front) =
      match letterEscape (UInt8.ofNat d.toNat) with
      | some octet => appended [octet]
          (escapesLoop (front ++ '\\' :: d :: rest) fuel (size front + 2))
      | none =>
        if d = 'x' then
          match (encode (front ++ '\\' :: d :: rest))[size front + 2]?,
              (encode (front ++ '\\' :: d :: rest))[size front + 3]? with
          | some high, some low => do
            let hi ← given (hexDigit high)
            let lo ← given (hexDigit low)
            appended [hi <<< 4 ||| lo]
              (escapesLoop (front ++ '\\' :: d :: rest) fuel (size front + 4))
          | _, _ => throw "incomplete \\x escape"
        else appended [0x5c, UInt8.ofNat d.toNat]
          (escapesLoop (front ++ '\\' :: d :: rest) fuel (size front + 2)) := by
  have slash := octet_ascii front (d :: rest) (show '\\'.toNat < 128 by decide)
  have letter := octet_ascii (front ++ ['\\']) rest ascii
  rw [size_snoc_ascii front (by decide), List.append_assoc, List.singleton_append] at letter
  have same : UInt8.ofNat d.toNat = 0x78 ↔ d = 'x' := by
    constructor
    · exact fun same => ascii_inj ascii (by decide) same
    · rintro rfl
      rfl
  rw [escapesLoop, slash]
  simp only [show UInt8.ofNat '\\'.toNat = 0x5c from rfl, if_true, letter, same]
  rfl

theorem letterEscape_high {b : UInt8} (high : 128 ≤ b.toNat) :
    letterEscape b = none ∧ b ≠ 0x78 ∧ b ≠ 0x5c := by
  have other : ∀ d : UInt8, d.toNat < 128 → b ≠ d := by
    rintro d small rfl
    omega
  simp [letterEscape, other]

/-- Behind a backslash the loop goes on inside a character of several octets, and stops there. -/
theorem escapesLoop_high {d : Char} (high : 128 ≤ d.toNat) (out : Bytes) :
    escapesLoop (front ++ '\\' :: d :: rest) fuel (size front) ≠ given (.ok out) := by
  intro done
  have slash := octet_ascii front (d :: rest) (show '\\'.toNat < 128 by decide)
  have text : front ++ '\\' :: d :: rest = front ++ ['\\'] ++ d :: rest := by simp
  have place : size (front ++ ['\\']) = size front + 1 := size_snoc_ascii front (by decide)
  obtain ⟨b, first, large⟩ := octet_high (front ++ ['\\']) rest high (length_pos d)
  obtain ⟨b', second, large'⟩ := octet_high (front ++ ['\\']) rest high (two_octets high)
  have cut := tailFrom_inside (front ++ ['\\']) rest Nat.zero_lt_one (two_octets high)
  rw [← text, place] at first second cut
  obtain ⟨unnamed, other, _⟩ := letterEscape_high large
  obtain ⟨_, _, plain⟩ := letterEscape_high large'
  cases fuel with
  | zero => cases done
  | succ fuel =>
    rw [escapesLoop, slash] at done
    simp only [show UInt8.ofNat '\\'.toNat = 0x5c from rfl, if_true, Nat.add_zero] at done first
    simp only [first, unnamed, other, if_false] at done
    obtain ⟨more, stopped, _⟩ := appended_ok.mp (show appended [0x5c, b] _ = _ from done)
    cases fuel with
    | zero => cases stopped
    | succ fuel =>
      rw [escapesLoop, second] at stopped
      simp only [plain, if_false, show size front + 2 = size front + 1 + 1 from rfl, cut] at stopped
      cases stopped

theorem escapesLoop_slash_end (out : Bytes) :
    escapesLoop (front ++ ['\\']) fuel (size front) ≠ given (.ok out) := by
  intro done
  have slash := octet_ascii front [] (show '\\'.toNat < 128 by decide)
  have past := octet_end (front ++ ['\\'])
  rw [size_snoc_ascii front (by decide)] at past
  cases fuel with
  | zero => cases done
  | succ fuel =>
    rw [escapesLoop, slash] at done
    simp only [show UInt8.ofNat '\\'.toNat = 0x5c from rfl, if_true, past] at done
    cases done

end

/- What a text stands for. -/

/-- The octets that a text with escapes stands for. -/
inductive Unescapes : Text → Bytes → Prop where
  | nil : Unescapes [] []
  | plain {c : Char} {rest : Text} {out : Bytes} (other : c ≠ '\\') (behind : Unescapes rest out) :
    Unescapes (c :: rest) (String.utf8EncodeChar c ++ out)
  | letter {d : Char} {octet : UInt8} {rest : Text} {out : Bytes} (ascii : d.toNat < 128)
    (escape : letterEscape (UInt8.ofNat d.toNat) = some octet) (behind : Unescapes rest out) :
    Unescapes ('\\' :: d :: rest) (octet :: out)
  | digits {h l : Char} {hi lo : UInt8} {rest : Text} {out : Bytes} (first : h.toNat < 128)
    (second : l.toNat < 128) (high : hexDigit (UInt8.ofNat h.toNat) = .ok hi)
    (low : hexDigit (UInt8.ofNat l.toNat) = .ok lo) (behind : Unescapes rest out) :
    Unescapes ('\\' :: 'x' :: h :: l :: rest) ((hi <<< 4 ||| lo) :: out)
  | kept {d : Char} {rest : Text} {out : Bytes} (ascii : d.toNat < 128)
    (unnamed : letterEscape (UInt8.ofNat d.toNat) = none) (other : d ≠ 'x')
    (behind : Unescapes rest out) :
    Unescapes ('\\' :: d :: rest) (0x5c :: UInt8.ofNat d.toNat :: out)

/-- The turns behind some ASCII characters. -/
theorem turns_behind {t rest : Text} {out : Bytes} {front : Text} {fuel : Nat}
    (ascii : ∀ c ∈ t, c.toNat < 128) (later : ∀ front : Text,
      escapesLoop (front ++ rest) fuel (size front) = given (.ok out)) :
    escapesLoop (front ++ (t ++ rest)) fuel (size front + t.length) = given (.ok out) := by
  have next := later (front ++ t)
  rwa [size_append_ascii front ascii, List.append_assoc] at next

/-- The loop finds the octets that a text stands for. -/
theorem Unescapes.loop {behind : Text} {out : Bytes} (stands : Unescapes behind out) (front : Text)
    {fuel : Nat} (enough : size behind < fuel) :
    escapesLoop (front ++ behind) fuel (size front) = given (.ok out) := by
  induction stands generalizing front fuel with
  | nil =>
    obtain ⟨fuel, rfl⟩ : ∃ n, fuel = n + 1 := ⟨fuel - 1, by omega⟩
    rw [List.append_nil]
    exact escapesLoop_end front fuel
  | @plain c rest out other behind ih =>
    obtain ⟨fuel, rfl⟩ : ∃ n, fuel = n + 1 := ⟨fuel - 1, by omega⟩
    rw [size_cons] at enough
    have pos := length_pos c
    rw [escapesLoop_plain front rest fuel other, appended_ok]
    have next := ih (front ++ [c]) (show size rest < fuel by omega)
    rw [List.append_assoc, List.singleton_append] at next
    exact ⟨out, next, rfl⟩
  | @letter d octet rest out ascii escape behind ih =>
    obtain ⟨fuel, rfl⟩ : ∃ n, fuel = n + 1 := ⟨fuel - 1, by omega⟩
    have both : ∀ c ∈ ['\\', d], c.toNat < 128 := by simp [ascii]
    have size : size ('\\' :: d :: rest) = 2 + size rest := by
      simpa [size_ascii both] using size_append ['\\', d] rest
    rw [escapesLoop_backslash front rest fuel ascii, escape]
    exact appended_ok.mpr
      ⟨out, turns_behind both fun front => ih front (show _ < fuel by omega), rfl⟩
  | @digits h l hi lo rest out first second high low behind ih =>
    obtain ⟨fuel, rfl⟩ : ∃ n, fuel = n + 1 := ⟨fuel - 1, by omega⟩
    have four : ∀ c ∈ ['\\', 'x', h, l], c.toNat < 128 := by simp [first, second]
    have size : size ('\\' :: 'x' :: h :: l :: rest) = 4 + size rest := by
      simpa [size_ascii four] using size_append ['\\', 'x', h, l] rest
    have third := octet_ascii (front ++ ['\\', 'x']) (l :: rest) first
    have fourth := octet_ascii (front ++ ['\\', 'x', h]) rest second
    rw [size_append_ascii front (by simp), List.append_assoc] at third
    rw [size_append_ascii front (by simp [first]), List.append_assoc] at fourth
    rw [escapesLoop_backslash front (h :: l :: rest) fuel (by decide),
      show letterEscape (UInt8.ofNat 'x'.toNat) = none from rfl]
    simp only [if_true]
    rw [show (encode (front ++ '\\' :: 'x' :: h :: l :: rest))[_ + 2]? = _ from third,
      show (encode (front ++ '\\' :: 'x' :: h :: l :: rest))[_ + 3]? = _ from fourth]
    simp only [high, low]
    exact appended_ok.mpr
      ⟨out, turns_behind four fun front => ih front (show _ < fuel by omega), rfl⟩
  | @kept d rest out ascii unnamed other behind ih =>
    obtain ⟨fuel, rfl⟩ : ∃ n, fuel = n + 1 := ⟨fuel - 1, by omega⟩
    have both : ∀ c ∈ ['\\', d], c.toNat < 128 := by simp [ascii]
    have size : size ('\\' :: d :: rest) = 2 + size rest := by
      simpa [size_ascii both] using size_append ['\\', d] rest
    rw [escapesLoop_backslash front rest fuel ascii, unnamed]
    simp only [if_neg other]
    exact appended_ok.mpr
      ⟨out, turns_behind both fun front => ih front (show _ < fuel by omega), rfl⟩

/-- An ASCII octet behind a text is a character. -/
theorem ascii_behind {front rest : Text} {b : UInt8}
    (there : (encode (front ++ rest))[size front]? = some b) (low : b.toNat < 128) :
    ∃ c more, rest = c :: more ∧ c.toNat < 128 ∧ b = UInt8.ofNat c.toNat := by
  cases rest with
  | nil =>
    rw [List.append_nil, octet_end] at there
    cases there
  | cons c more =>
    by_cases ascii : c.toNat < 128
    · rw [octet_ascii front more ascii] at there
      cases there
      exact ⟨c, more, rfl, ascii, rfl⟩
    · obtain ⟨b', there', high⟩ :=
        octet_high front more (Nat.le_of_not_lt ascii) (length_pos c)
      rw [Nat.add_zero, there] at there'
      cases there'
      omega

theorem hexDigit_ascii {b digit : UInt8} (read : hexDigit b = .ok digit) : b.toNat < 128 := by
  unfold hexDigit hexNibble at read
  split at read
  · next range => exact Nat.lt_of_le_of_lt (UInt8.le_iff_toNat_le.mp range.2) (by decide)
  split at read
  · next range => exact Nat.lt_of_le_of_lt (UInt8.le_iff_toNat_le.mp range.2) (by decide)
  split at read
  · next range => exact Nat.lt_of_le_of_lt (UInt8.le_iff_toNat_le.mp range.2) (by decide)
  · cases read

/-- The two digits of an escape are characters. -/
theorem digits_behind {front rest : Text} {high low hi lo : UInt8}
    (third : (encode (front ++ '\\' :: 'x' :: rest))[size front + 2]? = some high)
    (fourth : (encode (front ++ '\\' :: 'x' :: rest))[size front + 3]? = some low)
    (first : hexDigit high = .ok hi) (second : hexDigit low = .ok lo) :
    ∃ h l more, rest = h :: l :: more ∧ h.toNat < 128 ∧ l.toNat < 128 ∧
      high = UInt8.ofNat h.toNat ∧ low = UInt8.ofNat l.toNat := by
  have two : size (front ++ ['\\', 'x']) = size front + 2 := size_append_ascii front (by simp)
  have text : front ++ '\\' :: 'x' :: rest = (front ++ ['\\', 'x']) ++ rest := by simp
  rw [text, ← two] at third
  obtain ⟨h, more, rfl, small, rfl⟩ := ascii_behind third (hexDigit_ascii first)
  have three : size (front ++ ['\\', 'x', h]) = size front + 3 :=
    size_append_ascii front (by simp [small])
  have text' : front ++ '\\' :: 'x' :: h :: more = (front ++ ['\\', 'x', h]) ++ more := by simp
  rw [text', ← three] at fourth
  obtain ⟨l, more, rfl, small', rfl⟩ := ascii_behind fourth (hexDigit_ascii second)
  exact ⟨h, l, more, rfl, small, small', rfl, rfl⟩

/-- What the loop finds is what the text stands for, by induction on the turns. -/
theorem unescapes_of_loop {behind : Text} {out : Bytes} (front : Text) {fuel : Nat}
    (done : escapesLoop (front ++ behind) fuel (size front) = given (.ok out)) :
    Unescapes behind out := by
  induction fuel generalizing front behind out with
  | zero => cases done
  | succ fuel ih =>
    cases behind with
    | nil =>
      rw [List.append_nil, escapesLoop_end] at done
      cases done
      exact .nil
    | cons c rest =>
      by_cases slash : c = '\\'
      · subst slash
        cases rest with
        | nil => exact absurd done (escapesLoop_slash_end front _ out)
        | cons d rest =>
          by_cases ascii : d.toNat < 128
          · have both : ∀ c ∈ ['\\', d], c.toNat < 128 := by simp [ascii]
            have behind : ∀ {more}, escapesLoop (front ++ '\\' :: d :: rest) fuel (size front + 2) =
                given (.ok more) → Unescapes rest more := by
              intro more run
              apply ih (front ++ ['\\', d])
              rwa [size_append_ascii front both, List.append_assoc]
            rw [escapesLoop_backslash front rest fuel ascii] at done
            cases escape : letterEscape (UInt8.ofNat d.toNat) with
            | some octet =>
              simp only [escape] at done
              obtain ⟨more, run, rfl⟩ := appended_ok.mp done
              exact .letter ascii escape (behind run)
            | none =>
              simp only [escape] at done
              split at done
              · next hex =>
                subst hex
                split at done
                · next high low third fourth =>
                  cases first : hexDigit high with
                  | error e => simp only [first] at done; cases done
                  | ok hi =>
                    cases second : hexDigit low with
                    | error e => simp only [first, second] at done; cases done
                    | ok lo =>
                      simp only [first, second] at done
                      obtain ⟨more, run, rfl⟩ := appended_ok.mp done
                      obtain ⟨h, l, rest, rfl, small, small', rfl, rfl⟩ :=
                        digits_behind third fourth first second
                      have four : ∀ c ∈ ['\\', 'x', h, l], c.toNat < 128 := by
                        simp [small, small']
                      refine .digits small small' first second (ih (front ++ ['\\', 'x', h, l]) ?_)
                      rwa [size_append_ascii front four, List.append_assoc]
                · cases done
              · next other =>
                obtain ⟨more, run, rfl⟩ := appended_ok.mp done
                exact .kept ascii escape other (behind run)
          · exact absurd done (escapesLoop_high front rest _ (Nat.le_of_not_lt ascii) out)
      · rw [escapesLoop_plain front rest fuel slash] at done
        obtain ⟨more, run, rfl⟩ := appended_ok.mp done
        refine .plain slash (ih (front ++ [c]) ?_)
        rwa [List.append_assoc, List.singleton_append]

theorem decodeUtf8Escapes_iff (text : String) (out : Bytes) :
    decodeUtf8Escapes text = given (.ok out) ↔ Unescapes text.toList out :=
  ⟨fun done => unescapes_of_loop [] done,
    fun stands => stands.loop [] (Nat.lt_succ_self _)⟩

/- Texts that stand for their own octets. -/

/-- Every backslash stands in front of an ASCII character with which it makes no escape. -/
def NoEscapes (t : Text) : Prop :=
  ∀ front behind, t = front ++ '\\' :: behind → ∃ c rest, behind = c :: rest ∧
    c.toNat < 128 ∧ c ∉ ['n', 'r', 't', 'x', '\\']

section
variable {c d : Char} {rest : Text}

theorem noEscapes_nil : NoEscapes [] := by
  intro front behind whole
  simp at whole

theorem noEscapes_plain (other : c ≠ '\\') : NoEscapes (c :: rest) ↔ NoEscapes rest := by
  constructor
  · intro clear front behind whole
    exact clear (c :: front) behind (by rw [whole, List.cons_append])
  · intro clear front behind whole
    cases front with
    | nil => exact absurd (List.head_eq_of_cons_eq whole) other
    | cons e front => exact clear front behind (List.tail_eq_of_cons_eq whole)

theorem noEscapes_kept (ascii : d.toNat < 128) (other : d ∉ ['n', 'r', 't', 'x', '\\']) :
    NoEscapes ('\\' :: d :: rest) ↔ NoEscapes rest := by
  have slash : d ≠ '\\' := by
    rintro rfl
    simp at other
  constructor
  · intro clear front behind whole
    exact clear ('\\' :: d :: front) behind (by rw [whole]; rfl)
  · intro clear front behind whole
    cases front with
    | nil =>
      obtain ⟨_, rfl⟩ := List.cons_eq_cons.mp whole
      exact ⟨d, rest, rfl, ascii, other⟩
    | cons e front =>
      exact (noEscapes_plain slash).mpr clear front behind (List.tail_eq_of_cons_eq whole)

theorem letterEscape_none (ascii : d.toNat < 128) :
    letterEscape (UInt8.ofNat d.toNat) = none ∧ d ≠ 'x' ↔ d ∉ ['n', 'r', 't', 'x', '\\'] := by
  have same : ∀ e : Char, e.toNat < 128 → (UInt8.ofNat d.toNat = UInt8.ofNat e.toNat ↔ d = e) :=
    fun e small => ⟨ascii_inj ascii small, fun h => by rw [h]⟩
  have n := same 'n' (by decide)
  have r := same 'r' (by decide)
  have t := same 't' (by decide)
  have slash := same '\\' (by decide)
  simp only [letterEscape, show (0x6e : UInt8) = UInt8.ofNat 'n'.toNat from rfl,
    show (0x72 : UInt8) = UInt8.ofNat 'r'.toNat from rfl,
    show (0x74 : UInt8) = UInt8.ofNat 't'.toNat from rfl,
    show (0x5c : UInt8) = UInt8.ofNat '\\'.toNat from rfl, n, r, t, slash]
  grind

end

/-- An escape takes more octets than it stands for. -/
theorem Unescapes.length_le {t : Text} {out : Bytes} (stands : Unescapes t out) :
    out.length ≤ size t := by
  induction stands with
  | nil => exact Nat.le_refl _
  | plain _ _ ih => simp only [List.length_append, size_cons]; omega
  | letter ascii _ _ ih =>
    simp only [List.length_cons, size_cons, encode_ascii ascii] at *
    omega
  | digits first second _ _ _ ih =>
    simp only [List.length_cons, size_cons, encode_ascii first, encode_ascii second] at *
    omega
  | kept ascii _ _ _ ih =>
    simp only [List.length_cons, size_cons, encode_ascii ascii] at *
    have slash := length_pos '\\'
    omega

/-- A text stands for its own octets exactly if there are no escapes in it. -/
theorem unescapes_encode_iff (t : Text) : Unescapes t (encode t) ↔ NoEscapes t := by
  constructor
  · intro stands
    generalize own : encode t = out at stands
    induction stands with
    | nil => exact noEscapes_nil
    | plain other _ ih =>
      rw [encode_cons] at own
      exact (noEscapes_plain other).mpr (ih (List.append_cancel_left own))
    | letter ascii _ behind _ =>
      have width := congrArg List.length own
      have short := behind.length_le
      simp only [encode_cons, encode_ascii ascii, List.length_append, List.length_cons, size] at *
      have slash := length_pos '\\'
      omega
    | digits first second _ _ behind _ =>
      have width := congrArg List.length own
      have short := behind.length_le
      simp only [encode_cons, encode_ascii first, encode_ascii second, List.length_append,
        List.length_cons, size] at *
      omega
    | kept ascii unnamed other _ ih =>
      rw [encode_cons, encode_cons, encode_ascii ascii] at own
      exact (noEscapes_kept ascii ((letterEscape_none ascii).mp ⟨unnamed, other⟩)).mpr
        (ih (List.tail_eq_of_cons_eq (List.tail_eq_of_cons_eq own)))
  · intro clear
    induction hn : t.length using Nat.strong_induction_on generalizing t with
    | _ n ih =>
      cases t with
      | nil => exact .nil
      | cons c rest =>
        by_cases slash : c = '\\'
        · subst slash
          obtain ⟨d, more, rfl, ascii, other⟩ := clear [] rest rfl
          obtain ⟨unnamed, hex⟩ := (letterEscape_none ascii).mpr other
          have behind := ih more.length (by simp at hn; omega) more
            ((noEscapes_kept ascii other).mp clear) rfl
          have kept := Unescapes.kept ascii unnamed hex behind
          rwa [encode_cons, encode_cons, encode_ascii ascii]
        · rw [encode_cons]
          exact .plain slash (ih rest.length (by simp at hn; omega) rest
            ((noEscapes_plain slash).mp clear) rfl)

end BitBeak
