import BitBeak.Lib.BoolTextExact
import BitBeak.Lib.Utf8

/-! Texts cut at byte offsets, where a cut inside a character or behind the end stops the
program. The boolean expressions of `BoolText` as a program reads them that walks the octets and
keeps the depth in 32 bits. -/
namespace ByteText
open BoolText Utf8 Wire

/-- What stops the program: a slice off the boundaries, a shift by the whole width or more, an
element that is not there. `outOfFuel` is a loop or a recursion that is not over. -/
inductive Panic where
  | badSlice
  | shiftTooFar
  | noElement
  | outOfFuel
  deriving DecidableEq, Repr

/-- A value or an error, or the program stops. -/
abbrev Checked (ε α : Type) := ExceptT ε (Except Panic) α

/-- What cannot stop. -/
def given {ε α : Type} (x : Except ε α) : Checked ε α := ExceptT.mk (.ok x)

/-- The slice `[i..j]` of a text. -/
def slice (s : Text) (i j : Nat) : Except Panic Text :=
  match charsBefore s i, charsBefore s j with
  | some a, some b => if i ≤ j then .ok ((s.drop a).take (b - a)) else .error .badSlice
  | _, _ => .error .badSlice

/-- The slice `[i..j]` of octets. -/
def byteSlice (bytes : Bytes) (i j : Nat) : Except Panic Bytes :=
  if i ≤ j ∧ j ≤ bytes.length then .ok ((bytes.drop i).take (j - i)) else .error .badSlice

/-- A number that went round in 32 bits. -/
def wrapped (n : Int) : Int := Int.bmod n (2 ^ 32)

def depthAfterByte (depth : Int) (b : UInt8) : Int :=
  if b = 0x28 then wrapped (depth + 1) else if b = 0x29 then wrapped (depth - 1) else depth

section

variable (white : Char → Bool) (sep s : Text)

/-- Whether the separator begins at `i`. -/
def separatorAt (depth : Int) (i : Nat) : Except Panic Bool :=
  if depth = 0 ∧ i + size sep ≤ size s then do
    return (← byteSlice (encode s) i (i + size sep)) == encode sep
  else return false

/-- The loop over the octets; the part that is not ended yet begins at `start`. -/
def splitLoop : Nat → Nat → Nat → Int → List Text → Except Panic (List Text)
  | 0, _, _, _, _ => .error .outOfFuel
  | fuel + 1, i, start, depth, out =>
    match (encode s)[i]? with
    | some b => do
      let depth := depthAfterByte depth b
      if ← separatorAt sep s depth i then
        let part ← slice s start i
        splitLoop fuel (i + size sep) (i + size sep) depth (out ++ [trim white part])
      else splitLoop fuel (i + 1) start depth out
    | none => do return out ++ [trim white (← slice s start (size s))]

def splitBytes : Except Panic (List Text) := splitLoop white sep s (size s + 1) 0 0 0 []

end

/-- How a text is read: its atoms, and what the connectives make. -/
structure ByteReader (α ε : Type) where
  white : Char → Bool
  atom : Text → Checked ε α
  or : α → α → α
  and : α → α → α
  not : α → α

namespace ByteReader

variable {α ε : Type} (r : ByteReader α ε)

/-- The parts read in turn and joined from the left; there is a first one. -/
def joined (op : α → α → α) (unit : Text → Checked ε α) : List Text → Checked ε α
  | [] => ExceptT.mk (.error .noElement)
  | p :: ps => do ps.foldlM (fun acc p => return op acc (← unit p)) (← unit p)

def readAnd (unit : Text → Checked ε α) (s : Text) : Checked ε α := do
  joined r.and unit (← splitBytes r.white andSep s)

def readOr (unit : Text → Checked ε α) (s : Text) : Checked ε α := do
  joined r.or (r.readAnd unit) (← splitBytes r.white orSep s)

/-- A negation, a text in parentheses or an atom. -/
def readNot : Nat → Text → Checked ε α
  | 0, _ => ExceptT.mk (.error .outOfFuel)
  | fuel + 1, s =>
    let s := trim r.white s
    if notWord.isPrefixOf s then do return r.not (← readNot fuel (s.drop notWord.length))
    else if s.head? = some '(' ∧ s.getLast? = some ')' then do
      r.readOr (readNot fuel) (← slice s 1 (size s - 1))
    else r.atom s

end ByteReader

/- A slice between characters is the text between them. -/

theorem slice_between (front part behind : Text) :
    slice (front ++ part ++ behind) (size front) (size (front ++ part)) = .ok part := by
  have first := charsBefore_size front (part ++ behind)
  have second := charsBefore_size (front ++ part) behind
  rw [← List.append_assoc] at first
  have ordered : size front ≤ size (front ++ part) := by
    rw [size_append]
    exact Nat.le_add_right _ _
  have text : ((front ++ part ++ behind).drop front.length).take
      ((front ++ part).length - front.length) = part := by
    rw [List.length_append, Nat.add_sub_cancel_left, List.append_assoc, List.drop_left,
      List.take_left]
  simp only [slice, first, second, ordered, if_true, text]

theorem slice_front (part behind : Text) : slice (part ++ behind) 0 (size part) = .ok part :=
  slice_between [] part behind

theorem slice_behind (front part : Text) :
    slice (front ++ part) (size front) (size (front ++ part)) = .ok part := by
  have whole := slice_between front part []
  rwa [List.append_nil] at whole

/- In front of a text that occurs, and behind it. -/

theorem slice_first (front pat behind : Text) :
    slice (front ++ pat ++ behind) 0 (size front) = .ok front := by
  rw [List.append_assoc]
  exact slice_front front (pat ++ behind)

theorem slice_rest (front pat behind : Text) :
    slice (front ++ pat ++ behind) (size front + size pat) (size (front ++ pat ++ behind)) =
      .ok behind := by
  rw [← size_append]
  exact slice_behind (front ++ pat) behind

/- What the loop over the octets finds, character by character. -/

def depthAfterWrapped (depth : Int) (c : Char) : Int :=
  if c = '(' then wrapped (depth + 1) else if c = ')' then wrapped (depth - 1) else depth

/-- `splitFrom` with the depth in 32 bits. -/
def splitWrapped (sep : Text) : Nat → Int → Text → Text → List Text
  | _, _, part, [] => [part]
  | skip + 1, depth, part, _ :: rest => splitWrapped sep skip depth part rest
  | 0, depth, part, c :: rest =>
    if depthAfterWrapped depth c = 0 ∧ sep.isPrefixOf (c :: rest) then
      part :: splitWrapped sep (sep.length - 1) (depthAfterWrapped depth c) [] rest
    else splitWrapped sep 0 (depthAfterWrapped depth c) (part ++ [c]) rest

theorem splitWrapped_skip (sep : Text) (depth : Int) (part l rest : Text) :
    splitWrapped sep l.length depth part (l ++ rest) = splitWrapped sep 0 depth part rest := by
  induction l with
  | nil => rfl
  | cons c l ih => exact ih

theorem splitWrapped_ne_nil (sep : Text) (skip : Nat) (depth : Int) (part t : Text) :
    splitWrapped sep skip depth part t ≠ [] := by
  induction t generalizing skip depth part with
  | nil => simp [splitWrapped]
  | cons c rest ih =>
    cases skip with
    | succ skip => exact ih skip depth part
    | zero =>
      rw [splitWrapped]
      split
      · exact List.cons_ne_nil _ _
      · exact ih 0 _ _

/-- No part is longer than the text. -/
theorem length_splitWrapped {sep p : Text} {skip : Nat} {depth : Int} {part t : Text}
    (member : p ∈ splitWrapped sep skip depth part t) : p.length ≤ part.length + t.length := by
  induction t generalizing skip depth part with
  | nil =>
    rw [splitWrapped, List.mem_singleton] at member
    rw [member]
    exact Nat.le_add_right _ _
  | cons c rest ih =>
    cases skip with
    | succ skip =>
      have := ih member
      rw [List.length_cons]
      omega
    | zero =>
      rw [splitWrapped] at member
      split at member
      · rcases List.mem_cons.mp member with rfl | later
        · exact Nat.le_add_right _ _
        · have := ih later
          simp only [List.length_nil, List.length_cons] at this ⊢
          omega
      · have := ih member
        simp only [List.length_append, List.length_cons, List.length_nil] at this ⊢
        omega

theorem wrapped_eq {n : Int} (low : -2 ^ 31 ≤ n) (high : n < 2 ^ 31) : wrapped n = n :=
  Int.bmod_eq_of_le (by omega) (by omega)

theorem depthAfterWrapped_eq {depth : Int} {c : Char} (small : depth.natAbs + 1 < 2 ^ 31) :
    depthAfterWrapped depth c = depthAfter depth c ∧
      (depthAfter depth c).natAbs ≤ depth.natAbs + 1 := by
  unfold depthAfterWrapped depthAfter
  split
  · exact ⟨wrapped_eq (by omega) (by omega), by omega⟩
  · split
    · exact ⟨wrapped_eq (by omega) (by omega), by omega⟩
    · exact ⟨rfl, by omega⟩

/-- In a text of less than 2 GiB the depth does not go round. -/
theorem splitWrapped_eq {sep : Text} {skip : Nat} {depth : Int} {part t : Text}
    (small : depth.natAbs + t.length < 2 ^ 31) :
    splitWrapped sep skip depth part t = splitFrom sep skip depth part t := by
  induction t generalizing skip depth part with
  | nil => cases skip <;> rfl
  | cons c rest ih =>
    rw [List.length_cons] at small
    cases skip with
    | succ skip => exact ih (by omega)
    | zero =>
      obtain ⟨same, near⟩ := @depthAfterWrapped_eq depth c (by omega)
      rw [splitWrapped, splitFrom, same, ih (by omega), ih (by omega)]

/- The loop at a character, and in one. -/

/-- A word between two blanks, of ASCII characters. -/
structure AsciiSeparator (sep : Text) : Prop extends Separates sep where
  ascii : ∀ c ∈ sep, c.toNat < 128

theorem ascii_or : AsciiSeparator orSep := ⟨separates_or, by simp [orSep]⟩
theorem ascii_and : AsciiSeparator andSep := ⟨separates_and, by simp [andSep]⟩

theorem encode_blank (t : Text) : encode (' ' :: t) = 0x20 :: encode t := rfl

namespace AsciiSeparator

variable {sep : Text}

theorem nonempty (separator : AsciiSeparator sep) : 0 < sep.length := by
  obtain ⟨word, rfl, _⟩ := separator.blanks
  exact Nat.succ_pos _

theorem first_octet (separator : AsciiSeparator sep) : ∃ more, encode sep = 0x20 :: more := by
  obtain ⟨word, rfl, _⟩ := separator.blanks
  exact ⟨_, encode_blank _⟩

theorem separatorAt_text (separator : AsciiSeparator sep) (front rest : Text) (depth : Int) :
    separatorAt sep (front ++ rest) depth (size front) =
      .ok (decide (depth = 0 ∧ sep.isPrefixOf rest = true)) := by
  have begins : sep.isPrefixOf rest = true ↔ encode sep <+: encode rest := by
    rw [List.isPrefixOf_iff_prefix, prefix_encode_iff separator.ascii]
  have behind : (encode (front ++ rest)).drop (size front) = encode rest := by
    rw [encode_append, size, List.drop_left]
  unfold separatorAt
  by_cases fits : depth = 0 ∧ size front + size sep ≤ size (front ++ rest)
  · have bounds : size front ≤ size front + size sep ∧
        size front + size sep ≤ (encode (front ++ rest)).length := ⟨Nat.le_add_right _ _, fits.2⟩
    rw [if_pos fits, byteSlice, if_pos bounds, behind, Nat.add_sub_cancel_left]
    have here : ((encode rest).take (size sep) == encode sep) =
        decide (depth = 0 ∧ sep.isPrefixOf rest = true) := by
      rw [Bool.eq_iff_iff, beq_iff_eq, decide_eq_true_eq, begins, List.prefix_iff_eq_take]
      exact ⟨fun same => ⟨fits.1, same.symm⟩, fun same => same.2.symm⟩
    rw [← here]
    rfl
  · rw [if_neg fits]
    have none : ¬ (depth = 0 ∧ sep.isPrefixOf rest = true) := by
      rintro ⟨level, there⟩
      apply fits
      have short := (begins.mp there).length_le
      rw [size_append]
      exact ⟨level, Nat.add_le_add_left short _⟩
    rw [decide_eq_false none]
    rfl

theorem separatorAt_inside (separator : AsciiSeparator sep) {s : Text} {i : Nat} {b : UInt8}
    (there : (encode s)[i]? = some b) (high : 128 ≤ b.toNat) (depth : Int) :
    separatorAt sep s depth i = .ok false := by
  unfold separatorAt
  split
  · next fits =>
    obtain ⟨more, octets⟩ := separator.first_octet
    have bounds : i ≤ i + size sep ∧ i + size sep ≤ (encode s).length :=
      ⟨Nat.le_add_right _ _, fits.2⟩
    rw [byteSlice, if_pos bounds, Nat.add_sub_cancel_left, octets, size, octets]
    obtain ⟨inside, rfl⟩ := List.getElem?_eq_some_iff.mp there
    rw [List.drop_eq_getElem_cons inside, List.length_cons, List.take_succ_cons]
    have other : (encode s)[i] ≠ 0x20 := by
      intro same
      rw [same] at high
      exact absurd high (by decide)
    have unequal : ((encode s)[i] :: ((encode s).drop (i + 1)).take more.length == 0x20 :: more) =
        false := by
      rw [beq_eq_false_iff_ne]
      exact fun same => other (List.cons.inj same).1
    show Except.ok _ = _
    rw [unequal]
  · rfl

end AsciiSeparator

theorem depthAfterByte_high {b : UInt8} (high : 128 ≤ b.toNat) (depth : Int) :
    depthAfterByte depth b = depth := by
  have other : ∀ c : UInt8, c.toNat < 128 → b ≠ c := by
    rintro c low rfl
    omega
  rw [depthAfterByte, if_neg (other _ (by decide)), if_neg (other _ (by decide))]

theorem depthAfterByte_ascii {c : Char} (ascii : c.toNat < 128) (depth : Int) :
    depthAfterByte depth (UInt8.ofNat c.toNat) = depthAfterWrapped depth c := by
  have opening : UInt8.ofNat c.toNat = 0x28 ↔ c = '(' :=
    ⟨fun same => ascii_inj ascii (by decide) (d := '(') same, fun same => same ▸ rfl⟩
  have closing : UInt8.ofNat c.toNat = 0x29 ↔ c = ')' :=
    ⟨fun same => ascii_inj ascii (by decide) (d := ')') same, fun same => same ▸ rfl⟩
  simp only [depthAfterByte, depthAfterWrapped, opening, closing]

section

variable {white : Char → Bool} {sep : Text} {s : Text}

/-- The loop passes over the octets of a character that is not ASCII. -/
theorem splitLoop_inside (separator : AsciiSeparator sep) {k i : Nat}
    (octets : ∀ m < k, ∃ b, (encode s)[i + m]? = some b ∧ 128 ≤ b.toNat)
    (fuel start : Nat) (depth : Int) (out : List Text) :
    splitLoop white sep s (fuel + k) i start depth out =
      splitLoop white sep s fuel (i + k) start depth out := by
  induction k generalizing i with
  | zero => rfl
  | succ k ih =>
    obtain ⟨b, there, high⟩ := octets 0 (Nat.succ_pos k)
    have later : ∀ m < k, ∃ b, (encode s)[i + 1 + m]? = some b ∧ 128 ≤ b.toNat := by
      intro m small
      have next := octets (m + 1) (Nat.succ_lt_succ small)
      rwa [show i + (m + 1) = i + 1 + m by omega] at next
    rw [Nat.add_zero] at there
    rw [show fuel + (k + 1) = fuel + k + 1 by omega, splitLoop, there]
    dsimp only
    rw [depthAfterByte_high high, separator.separatorAt_inside there high]
    refine Eq.trans ?_ ((ih later).trans (by rw [show i + 1 + k = i + (k + 1) by omega]))
    rfl

/-- The octets of the character behind a text. -/
theorem octet_behind (a : Text) (c : Char) (rest : Text) {m : Nat}
    (small : m < (String.utf8EncodeChar c).length) :
    (encode (a ++ c :: rest))[size a + m]? = some (String.utf8EncodeChar c)[m] := by
  have place : (encode a).length ≤ size a + m := Nat.le_add_right _ _
  have offset : size a + m - (encode a).length = m := Nat.add_sub_cancel_left _ _
  rw [encode_append, encode_cons, List.getElem?_append_right place, offset,
    List.getElem?_append_left small, List.getElem?_eq_getElem small]

/-- At an ASCII character the loop does what `splitFrom` does. -/
theorem splitLoop_ascii (separator : AsciiSeparator sep) {c : Char} (low : c.toNat < 128)
    (front part rest : Text) (depth : Int) (out : List Text) (fuel : Nat) :
    splitLoop white sep (front ++ part ++ c :: rest) (fuel + 1) (size (front ++ part)) (size front)
        depth out =
      if depthAfterWrapped depth c = 0 ∧ sep.isPrefixOf (c :: rest) = true then
        splitLoop white sep (front ++ part ++ c :: rest) fuel (size (front ++ part) + size sep)
          (size (front ++ part) + size sep) (depthAfterWrapped depth c) (out ++ [trim white part])
      else
        splitLoop white sep (front ++ part ++ c :: rest) fuel (size (front ++ part) + 1) (size front)
          (depthAfterWrapped depth c) out := by
  have there : (encode (front ++ part ++ c :: rest))[size (front ++ part)]? =
      some (UInt8.ofNat c.toNat) := by
    have first := octet_behind (front ++ part) c rest (length_pos c)
    rw [Nat.add_zero] at first
    simpa only [encode_ascii low, List.getElem_cons_zero] using first
  rw [splitLoop, there]
  dsimp only
  rw [depthAfterByte_ascii low, separator.separatorAt_text]
  by_cases here : depthAfterWrapped depth c = 0 ∧ sep.isPrefixOf (c :: rest) = true
  · rw [if_pos here, decide_eq_true here, slice_between]
    rfl
  · rw [if_neg here, decide_eq_false here]
    rfl

/-- At another character it goes on to the next. -/
theorem splitLoop_other (separator : AsciiSeparator sep) {c : Char} (high : 128 ≤ c.toNat)
    (front part rest : Text) (depth : Int) (out : List Text) (fuel : Nat) :
    splitLoop white sep (front ++ part ++ c :: rest) (fuel + (String.utf8EncodeChar c).length)
        (size (front ++ part)) (size front) depth out =
      splitLoop white sep (front ++ part ++ c :: rest) fuel
        (size (front ++ part) + (String.utf8EncodeChar c).length) (size front) depth out := by
  apply splitLoop_inside separator
  intro m small
  exact ⟨_, octet_behind (front ++ part) c rest small, encode_high high _ (List.getElem_mem small)⟩

theorem splitWrapped_other (separator : AsciiSeparator sep) {c : Char} (high : 128 ≤ c.toNat)
    (depth : Int) (part rest : Text) :
    splitWrapped sep 0 depth part (c :: rest) = splitWrapped sep 0 depth (part ++ [c]) rest := by
  have other : ∀ d : Char, d.toNat < 128 → c ≠ d := by
    rintro d small rfl
    omega
  have level : depthAfterWrapped depth c = depth := by
    rw [depthAfterWrapped, if_neg (other _ (by decide)), if_neg (other _ (by decide))]
  have none : ¬ (depthAfterWrapped depth c = 0 ∧ sep.isPrefixOf (c :: rest) = true) := by
    rintro ⟨_, begins⟩
    obtain ⟨word, rfl, _⟩ := separator.blanks
    rw [List.isPrefixOf_iff_prefix, List.cons_prefix_cons] at begins
    exact other ' ' (by decide) begins.1.symm
  rw [splitWrapped, if_neg none, level]

theorem splitLoop_ok (separator : AsciiSeparator sep) (rest front part : Text) (depth : Int)
    (out : List Text) {fuel : Nat} (enough : size rest < fuel) :
    splitLoop white sep (front ++ part ++ rest) fuel (size (front ++ part)) (size front) depth out =
      .ok (out ++ (splitWrapped sep 0 depth part rest).map (trim white)) := by
  induction len : rest.length using Nat.strongRecOn generalizing rest front part depth out fuel with
  | ind n ih =>
  cases rest with
  | nil =>
    obtain ⟨fuel, rfl⟩ : ∃ m, fuel = m + 1 := ⟨fuel - 1, by omega⟩
    have past : (encode (front ++ part ++ []))[size (front ++ part)]? = none := by
      rw [List.append_nil]
      exact List.getElem?_eq_none le_rfl
    rw [splitLoop, past]
    dsimp only
    rw [List.append_nil, slice_behind]
    rfl
  | cons c rest =>
    have shorter : rest.length < n := by
      rw [← len, List.length_cons]
      exact Nat.lt_succ_self _
    have text : front ++ (part ++ [c]) ++ rest = front ++ part ++ c :: rest := by simp
    have place : size (front ++ (part ++ [c])) =
        size (front ++ part) + (String.utf8EncodeChar c).length := by
      rw [← List.append_assoc, size_append, size_cons, size_nil, Nat.add_zero]
    rw [size_cons] at enough
    by_cases low : c.toNat < 128
    · have one : (String.utf8EncodeChar c).length = 1 := by rw [encode_ascii low]; rfl
      rw [one] at place enough
      obtain ⟨fuel, rfl⟩ : ∃ m, fuel = m + 1 := ⟨fuel - 1, by omega⟩
      rw [splitLoop_ascii separator low, splitWrapped]
      split
      · next here =>
        obtain ⟨behind, begins⟩ := List.isPrefixOf_iff_prefix.mp here.2
        have skipped : splitWrapped sep (sep.length - 1) (depthAfterWrapped depth c) [] rest =
            splitWrapped sep 0 (depthAfterWrapped depth c) [] behind := by
          obtain ⟨word, rfl, _⟩ := separator.blanks
          have tail : word ++ [' '] ++ behind = rest := (List.cons.inj begins).2
          rw [← tail, List.length_cons, Nat.add_sub_cancel, splitWrapped_skip]
        have some := separator.nonempty
        have lengths := congrArg List.length begins
        have sizes := congrArg size begins
        rw [List.length_append, List.length_cons] at lengths
        rw [size_append, size_ascii separator.ascii, size_cons, one] at sizes
        have next := @ih behind.length (by omega) behind (front ++ part ++ sep) []
          (depthAfterWrapped depth c) (out ++ [trim white part]) fuel (by omega) rfl
        rw [List.append_nil, size_append (front ++ part) sep, List.append_assoc (front ++ part),
          begins] at next
        rw [next, skipped, List.map_cons, List.append_assoc, List.singleton_append]
      · have next := @ih rest.length shorter rest front (part ++ [c]) (depthAfterWrapped depth c)
          out fuel (by omega) rfl
        rwa [place, text] at next
    · have high := Nat.le_of_not_lt low
      obtain ⟨more, rfl⟩ : ∃ m, fuel = m + (String.utf8EncodeChar c).length :=
        ⟨fuel - (String.utf8EncodeChar c).length, by omega⟩
      have next := @ih rest.length shorter rest front (part ++ [c]) depth out more (by omega) rfl
      rw [place, text] at next
      rw [splitLoop_other separator high, splitWrapped_other separator high, next]

theorem splitBytes_ok (separator : AsciiSeparator sep) (s : Text) :
    splitBytes white sep s = .ok ((splitWrapped sep 0 0 [] s).map (trim white)) :=
  splitLoop_ok separator s [] [] 0 [] (Nat.lt_succ_self _)

end

/- Programs that do not stop. -/

section

variable {α β ε : Type}

/-- Both come to the same value or the same error, which is not `never`. -/
def Settle (never : ε) (x y : Checked ε α) : Prop :=
  ∃ v, x = given v ∧ y = given v ∧ v ≠ .error never

theorem given_bind {x : Checked ε α} {v : Except ε α} {f : α → Checked ε β} {g : α → Except ε β}
    (first : x = given v) (rest : ∀ a, f a = given (g a)) : (x >>= f) = given (v >>= g) := by
  subst first
  cases v with
  | ok a => exact rest a
  | error e => rfl

theorem ne_error_bind {never : ε} {x : Except ε α} {f : α → Except ε β}
    (first : x ≠ .error never) (rest : ∀ a, f a ≠ .error never) : (x >>= f) ≠ .error never := by
  cases x with
  | ok a => exact rest a
  | error e =>
    intro same
    cases same
    exact first rfl

theorem ne_error_map {never : ε} {x : Except ε α} (first : x ≠ .error never) (g : α → β) :
    (do return g (← x)) ≠ Except.error never :=
  ne_error_bind first fun a same => by cases same

/-- What a step that cannot stop hands on. -/
theorem checked_bind {x : Except Panic β} {b : β} (ok : x = .ok b) (f : β → Checked ε α) :
    ((liftM x : Checked ε β) >>= f) = f b := by
  rw [ok]
  rfl

theorem Settle.pure {never : ε} (a : α) : Settle never (Pure.pure a) (Pure.pure a) :=
  ⟨.ok a, rfl, rfl, by simp⟩

theorem Settle.bind {never : ε} {x y : Checked ε α} {f g : α → Checked ε β}
    (first : Settle never x y) (rest : ∀ a, Settle never (f a) (g a)) :
    Settle never (x >>= f) (y >>= g) := by
  obtain ⟨v, rfl, rfl, settled⟩ := first
  cases v with
  | ok a => exact rest a
  | error e => exact ⟨.error e, rfl, rfl, by simpa using settled⟩

end

/-- A program that settles with enough fuel has one result. -/
theorem Settle.result {α ε : Type} {never : ε} {x : Nat → Checked ε α} {len : Nat}
    (settle : ∀ {n m}, len < n → len < m → Settle never (x n) (x m)) :
    ∃ v, v ≠ .error never ∧ ∀ n, len < n → x n = given v := by
  obtain ⟨v, first, _, settled⟩ := settle (Nat.lt_succ_self len) (Nat.lt_succ_self len)
  refine ⟨v, settled, fun n enough => ?_⟩
  obtain ⟨w, here, there, _⟩ := settle enough (Nat.lt_succ_self len)
  exact here.trans (there.symm.trans first)

theorem length_trim (white : Char → Bool) (t : Text) : (trim white t).length ≤ t.length :=
  (List.rdropWhile_prefix _ _).length_le.trans (List.dropWhile_suffix _).length_le

namespace ByteReader

variable {α ε : Type} {r : ByteReader α ε} {never : ε}

theorem joined_settle (op : α → α → α) {unit unit' : Text → Checked ε α} {parts : List Text}
    (some : parts ≠ []) (units : ∀ p ∈ parts, Settle never (unit p) (unit' p)) :
    Settle never (joined op unit parts) (joined op unit' parts) := by
  cases parts with
  | nil => exact absurd rfl some
  | cons p ps =>
    obtain ⟨first, others⟩ := List.forall_mem_cons.mp units
    refine first.bind fun a => ?_
    clear first units some
    induction ps generalizing a with
    | nil => exact Settle.pure a
    | cons q qs ih =>
      obtain ⟨here, later⟩ := List.forall_mem_cons.mp others
      rw [List.foldlM_cons, List.foldlM_cons]
      exact (here.bind fun b => Settle.pure (op a b)).bind fun c => ih later c

/-- No part is longer than the text, trimmed or not. -/
theorem length_part {white : Char → Bool} {sep p s : Text}
    (member : p ∈ (splitWrapped sep 0 0 [] s).map (trim white)) : p.length ≤ s.length := by
  obtain ⟨part, there, rfl⟩ := List.mem_map.mp member
  have short := length_splitWrapped there
  rw [List.length_nil, Nat.zero_add] at short
  exact (length_trim _ _).trans short

theorem parts_settle (op : α → α → α) {sep : Text} (separator : AsciiSeparator sep)
    {unit unit' : Text → Checked ε α} {s : Text}
    (units : ∀ p, p.length ≤ s.length → Settle never (unit p) (unit' p)) :
    Settle never (do joined op unit (← splitBytes r.white sep s))
      (do joined op unit' (← splitBytes r.white sep s)) := by
  have split := @splitBytes_ok r.white sep separator s
  rw [checked_bind split, checked_bind split]
  apply joined_settle op
  · simpa using splitWrapped_ne_nil sep 0 0 [] s
  · intro p member
    exact units p (length_part member)

theorem readOr_settle {unit unit' : Text → Checked ε α} {s : Text}
    (units : ∀ p, p.length ≤ s.length → Settle never (unit p) (unit' p)) :
    Settle never (r.readOr unit s) (r.readOr unit' s) :=
  parts_settle r.or ascii_or fun _ short =>
    parts_settle r.and ascii_and fun q shorter => units q (shorter.trans short)

/-- The text between parentheses. -/
theorem slice_parens {s : Text} (first : s.head? = some '(') (last : s.getLast? = some ')') :
    slice s 1 (size s - 1) = .ok s.tail.dropLast ∧ s.tail.dropLast.length + 2 = s.length := by
  have text := BoolText.eq_parens first last
  generalize s.tail.dropLast = inner at text
  subst text
  have between := slice_between ['('] inner [')']
  have length : size (parens inner) - 1 = size (['('] ++ inner) := by
    have whole : parens inner = ['('] ++ inner ++ [')'] := rfl
    rw [whole, size_append]
    rfl
  exact ⟨length ▸ between, by simp [parens]⟩

/-- The recursion ends, and more fuel than there are characters makes no difference. -/
theorem readNot_settle (atoms : ∀ s, ∃ v, r.atom s = given v ∧ v ≠ .error never) {n m : Nat}
    {s : Text} (enough : s.length < n) (enough' : s.length < m) :
    Settle never (r.readNot n s) (r.readNot m s) := by
  induction n generalizing m s with
  | zero => exact absurd enough (Nat.not_lt_zero _)
  | succ n ih =>
    obtain ⟨m, rfl⟩ : ∃ k, m = k + 1 := ⟨m - 1, by omega⟩
    have short := length_trim r.white s
    rw [readNot, readNot]
    split
    · next negated =>
      have word := (List.isPrefixOf_iff_prefix.mp negated).length_le
      have shorter : ((trim r.white s).drop notWord.length).length < s.length := by
        have four : notWord.length = 4 := rfl
        rw [List.length_drop]
        omega
      exact (ih (by omega) (by omega)).bind fun a => Settle.pure (r.not a)
    · split
      · next bracketed =>
        obtain ⟨sliced, inner⟩ := slice_parens bracketed.1 bracketed.2
        rw [checked_bind sliced, checked_bind sliced]
        exact readOr_settle fun p shorter => ih (by omega) (by omega)
      · obtain ⟨v, atom, settled⟩ := atoms (trim r.white s)
        exact ⟨v, atom, atom, settled⟩

/-- A reader that walks the octets, and one that is given the characters. -/
structure Mirrors (r : ByteReader α ε) (c : Reader α ε) : Prop where
  white : r.white = c.white
  atom : ∀ s, r.atom s = given (c.atom s)
  or : r.or = c.or
  and : r.and = c.and
  not : r.not = c.not

variable {c : Reader α ε}

theorem joined_given (op : α → α → α) {unit : Text → Checked ε α} {unit' : Text → Except ε α}
    {parts : List Text} (some : parts ≠ []) (units : ∀ p ∈ parts, unit p = given (unit' p)) :
    joined op unit parts = given (c.joined op unit' parts) := by
  cases parts with
  | nil => exact absurd rfl some
  | cons p ps =>
    obtain ⟨first, others⟩ := List.forall_mem_cons.mp units
    refine given_bind first fun a => ?_
    clear first units some
    induction ps generalizing a with
    | nil => rfl
    | cons q qs ih =>
      obtain ⟨here, later⟩ := List.forall_mem_cons.mp others
      rw [List.foldlM_cons, List.foldlM_cons]
      have turn := given_bind (f := fun b => return op a b) (g := fun b => return op a b) here
        fun _ => rfl
      exact given_bind turn (ih later)

theorem parts_given (mirrors : r.Mirrors c) (op : α → α → α) {sep : Text}
    (separator : AsciiSeparator sep) {unit : Text → Checked ε α} {unit' : Text → Except ε α}
    {s : Text} (small : s.length < 2 ^ 31)
    (units : ∀ p, p.length ≤ s.length → unit p = given (unit' p)) :
    (do joined op unit (← splitBytes r.white sep s) : Checked ε α) =
      given (c.joined op unit' (splitTop c.white sep s)) := by
  have same : splitWrapped sep 0 0 [] s = splitFrom sep 0 0 [] s :=
    splitWrapped_eq (by simpa using small)
  rw [checked_bind (splitBytes_ok separator s), mirrors.white, splitTop, ← same]
  apply joined_given
  · simpa using splitWrapped_ne_nil sep 0 0 [] s
  · intro p member
    exact units p (length_part member)

theorem readOr_given (mirrors : r.Mirrors c) {unit : Text → Checked ε α}
    {unit' : Text → Except ε α} {s : Text} (small : s.length < 2 ^ 31)
    (units : ∀ p, p.length ≤ s.length → unit p = given (unit' p)) :
    r.readOr unit s = given (c.readOr unit' s) := by
  unfold readOr Reader.readOr
  rw [mirrors.or]
  apply parts_given mirrors c.or ascii_or small
  intro p short
  unfold readAnd Reader.readAnd
  rw [mirrors.and]
  exact parts_given mirrors c.and ascii_and (Nat.lt_of_le_of_lt short small)
    fun q shorter => units q (shorter.trans short)

/-- On a text of less than 2 GiB the octets are read as the characters are. -/
theorem readNot_given (mirrors : r.Mirrors c) {n m : Nat} {s : Text} (enough : s.length < n)
    (enough' : s.length < m) (small : s.length < 2 ^ 31) :
    r.readNot n s = given (c.readNot m s) := by
  induction n generalizing m s with
  | zero => exact absurd enough (Nat.not_lt_zero _)
  | succ n ih =>
    obtain ⟨m, rfl⟩ : ∃ k, m = k + 1 := ⟨m - 1, by omega⟩
    have short := length_trim c.white s
    rw [readNot, Reader.readNot, mirrors.white]
    split
    · next negated =>
      have word := (List.isPrefixOf_iff_prefix.mp negated).length_le
      have shorter : ((trim c.white s).drop notWord.length).length < s.length := by
        have four : notWord.length = 4 := rfl
        rw [List.length_drop]
        omega
      rw [mirrors.not]
      exact given_bind (ih (by omega) (by omega) (by omega)) fun _ => rfl
    · split
      · next bracketed =>
        obtain ⟨sliced, inner⟩ := slice_parens bracketed.1 bracketed.2
        rw [checked_bind sliced]
        exact readOr_given mirrors (by omega) fun p shorter =>
          ih (by omega) (by omega) (by omega)
      · exact mirrors.atom _

/-- A whole text. -/
theorem read_given (mirrors : r.Mirrors c) {n : Nat} {s : Text} (enough : s.length < n)
    (small : s.length < 2 ^ 31) : r.readOr (r.readNot n) s = given (c.read s) :=
  readOr_given mirrors small fun _ short =>
    readNot_given mirrors (Nat.lt_of_le_of_lt short enough) (Nat.lt_succ_of_le short)
      (Nat.lt_of_le_of_lt short small)

end ByteReader

end ByteText
