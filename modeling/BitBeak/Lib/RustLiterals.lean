import BitBeak.Lib.Occurrence
import Mathlib.Data.List.TakeWhile
import Mathlib.Tactic.Common

/-! Rust's lexical rules for line comments, string literals and raw string literals. A reader takes
one of them from the front of a text, and gives what it denotes and the rest. -/
namespace Rust

abbrev Text := List Char

/-- Before anything is read, a carriage return in front of a line feed is left out. -/
def normalize : Text → Text
  | [] => []
  | c :: rest =>
    if c = '\r' ∧ rest.head? = some '\n' then normalize rest else c :: normalize rest

/-- A comment goes to the end of its line. -/
def lineComment : Text → Option (Text × Text)
  | '/' :: '/' :: rest => some (rest.takeWhile (· ≠ '\n'), rest.dropWhile (· ≠ '\n'))
  | _ => none

def hexValue (c : Char) : Option Nat :=
  if '0' ≤ c ∧ c ≤ '9' then some (c.toNat - 48)
  else if 'a' ≤ c ∧ c ≤ 'f' then some (c.toNat - 87)
  else if 'A' ≤ c ∧ c ≤ 'F' then some (c.toNat - 55)
  else none

def simpleEscapes : List (Char × Char) :=
  [('n', '\n'), ('r', '\r'), ('t', '\t'), ('\\', '\\'), ('0', Char.ofNat 0),
    (Char.ofNat 0x27, Char.ofNat 0x27), ('"', '"')]

/-- Two digits of base sixteen, for a number below 128. -/
def asciiEscape : Text → Option (Text × Text)
  | a :: b :: rest =>
    match hexValue a, hexValue b with
    | some m, some n => if m < 8 then some ([Char.ofNat (16 * m + n)], rest) else none
    | _, _ => none
  | _ => none

def isDigitOrLine (c : Char) : Bool := (hexValue c).isSome || c == '_'

/-- One to six digits in braces, for a character; there may be low lines behind a digit. -/
def unicodeEscape : Text → Option (Text × Text)
  | '{' :: rest =>
    let digits := rest.takeWhile isDigitOrLine
    let values := digits.filterMap hexValue
    let number := values.foldl (fun n v => 16 * n + v) 0
    match rest.dropWhile isDigitOrLine with
    | '}' :: after =>
      if digits.head? ≠ some '_' ∧ 1 ≤ values.length ∧ values.length ≤ 6 ∧ number.isValidChar then
        some ([Char.ofNat number], after)
      else none
    | _ => none
  | _ => none

def isBlank (c : Char) : Bool := c == ' ' || c == '\n' || c == '\r' || c == '\t'

/-- What stands behind a backslash. The end of a line and the blanks behind it denote nothing. -/
def escape : Text → Option (Text × Text)
  | [] => none
  | c :: rest =>
    match simpleEscapes.lookup c with
    | some d => some ([d], rest)
    | none =>
      if c = 'x' then asciiEscape rest
      else if c = 'u' then unicodeEscape rest
      else if c = '\n' then some ([], rest.dropWhile isBlank)
      else none

variable {t v rest : Text}

theorem quote_not_digit : hexValue '"' = none := by decide

theorem not_mem_takeWhile {p : Char → Bool} {c : Char} (other : p c = false) (t : Text) :
    c ∉ t.takeWhile p := by
  intro inside
  have holds := List.mem_takeWhile_imp inside
  rw [other] at holds
  cases holds

theorem asciiEscape_spec (read : asciiEscape t = some (v, rest)) :
    ∃ used, t = used ++ rest ∧ '"' ∉ used ∧ v.length = 1 := by
  match t, read with
  | a :: b :: rest', read =>
    rw [asciiEscape] at read
    split at read
    · next m n high low =>
      split at read
      · cases read
        refine ⟨[a, b], rfl, ?_, rfl⟩
        intro inside
        rcases List.mem_pair.mp inside with rfl | rfl
        · cases quote_not_digit.symm.trans high
        · cases quote_not_digit.symm.trans low
      · cases read
    · cases read

theorem unicodeEscape_spec (read : unicodeEscape t = some (v, rest)) :
    ∃ used, t = used ++ rest ∧ '"' ∉ used ∧ v.length = 1 := by
  unfold unicodeEscape at read
  split at read
  · next inner =>
    dsimp only at read
    split at read
    · next after closed =>
      split_ifs at read
      cases read
      have whole := List.takeWhile_append_dropWhile (p := isDigitOrLine) (l := inner)
      rw [closed] at whole
      have quoteless := not_mem_takeWhile (p := isDigitOrLine) (c := '"') (by decide) inner
      exact ⟨'{' :: (inner.takeWhile isDigitOrLine ++ ['}']), by simp [whole],
        by simp [quoteless], rfl⟩
    · cases read
  · cases read

/-- An escape takes something, and denotes less than it takes with its backslash and has quotes;
only a quote behind the backslash is just as much. -/
theorem escape_spec (read : escape t = some (v, rest)) :
    ∃ used, t = used ++ rest ∧ used ≠ [] ∧ v.length + used.count '"' ≤ used.length + 1 ∧
      (v.length + used.count '"' = used.length + 1 → used = ['"']) := by
  cases t with
  | nil => cases read
  | cons c t =>
    have quoteless {used : Text} (whole : t = used ++ rest) (without : '"' ∉ used)
        (short : v.length ≤ 1) (other : c ≠ '"') :
        ∃ used, c :: t = used ++ rest ∧ used ≠ [] ∧ v.length + used.count '"' ≤ used.length + 1 ∧
          (v.length + used.count '"' = used.length + 1 → used = ['"']) := by
      refine ⟨c :: used, by rw [whole]; rfl, List.cons_ne_nil _ _, ?_⟩
      have none : (c :: used).count '"' = 0 := by
        rw [List.count_eq_zero]
        simp [other.symm, without]
      simp only [none, List.length_cons]
      exact ⟨by omega, fun equal => by omega⟩
    rw [escape] at read
    split at read
    · next d simple =>
      cases read
      by_cases quoted : c = '"'
      · exact ⟨[c], rfl, List.cons_ne_nil _ _, by simp [quoted], fun _ => by rw [quoted]⟩
      · exact quoteless rfl List.not_mem_nil (Nat.le_refl 1) quoted
    · split_ifs at read with ascii unicode line
      · obtain ⟨used, whole, without, one⟩ := asciiEscape_spec read
        exact quoteless whole without one.le (by simp [ascii])
      · obtain ⟨used, whole, without, one⟩ := unicodeEscape_spec read
        exact quoteless whole without one.le (by simp [unicode])
      · cases read
        exact quoteless List.takeWhile_append_dropWhile.symm (not_mem_takeWhile (by decide) t)
          (Nat.zero_le 1) (by simp [line])

/-- The rest of a string literal, behind its first quote. -/
def stringBody : Text → Option (Text × Text)
  | [] => none
  | c :: rest =>
    if c = '"' then some ([], rest)
    else if c = '\r' then none
    else if c = '\\' then
      match _read : escape rest with
      | none => none
      | some (v, behind) => (stringBody behind).map fun x => (v ++ x.1, x.2)
    else (stringBody rest).map fun x => (c :: x.1, x.2)
termination_by t => t.length
decreasing_by
  · obtain ⟨used, rfl, -⟩ := escape_spec _read
    simp only [List.length_cons, List.length_append]
    omega
  · simp

def stringLiteral : Text → Option (Text × Text)
  | '"' :: rest => stringBody rest
  | _ => none

/-- The rest of a raw string literal with `n` signs, behind its first quote. -/
def rawBody (n : Nat) (t : Text) : Option (Text × Text) :=
  (Occurrence.cut ('"' :: List.replicate n '#') t).filter fun x => '\r' ∉ x.1

def rawStringLiteral : Text → Option (Text × Text)
  | 'r' :: rest =>
    match rest.dropWhile (· = '#') with
    | '"' :: body => rawBody (rest.takeWhile (· = '#')).length body
    | _ => none
  | _ => none

/-! What is left out in front of everything else. -/

theorem normalize_cons {c : Char} (other : c ≠ '\r') (t : Text) :
    normalize (c :: t) = c :: normalize t := by
  rw [normalize, if_neg fun both => other both.1]

theorem normalize_append {b : Text} (apart : b.head? ≠ some '\n') (a : Text) :
    normalize (a ++ b) = normalize a ++ normalize b := by
  induction a with
  | nil => rfl
  | cons c a ih =>
    have heads : (a ++ b).head? = some '\n' ↔ a.head? = some '\n' := by
      cases a with
      | nil => simpa using apart
      | cons d a => simp
    rw [List.cons_append, normalize, normalize, ih]
    simp only [heads]
    split <;> rfl

/-- A line stays a line. -/
theorem normalize_line (a : Text) :
    ∃ x, (∀ back, normalize (a ++ '\n' :: back) = x ++ '\n' :: normalize back) ∧
      ('\n' ∈ x ↔ '\n' ∈ a) := by
  induction a with
  | nil => exact ⟨[], fun back => normalize_cons (by decide) back, Iff.rfl⟩
  | cons c a ih =>
    obtain ⟨x, whole, lines⟩ := ih
    by_cases left_out : c = '\r' ∧ (a ++ ['\n']).head? = some '\n'
    · have heads (back : Text) : (a ++ '\n' :: back).head? = some '\n' := by
        cases a with
        | nil => rfl
        | cons d a => exact left_out.2
      refine ⟨x, fun back => ?_, ?_⟩
      · rw [List.cons_append, normalize, if_pos ⟨left_out.1, heads back⟩, whole]
      · simp [lines, left_out.1]
    · have heads (back : Text) : (a ++ '\n' :: back).head? = (a ++ ['\n']).head? := by
        cases a <;> rfl
      refine ⟨c :: x, fun back => ?_, ?_⟩
      · rw [List.cons_append, normalize, if_neg (heads back ▸ left_out), whole]
        rfl
      · simp [lines]

theorem length_normalize (t : Text) : (normalize t).length ≤ t.length := by
  induction t with
  | nil => exact Nat.le_refl 0
  | cons c t ih =>
    rw [normalize]
    split <;> simp only [List.length_cons] <;> omega

theorem normalize_of_length {t : Text} (same : (normalize t).length = t.length) :
    normalize t = t := by
  induction t with
  | nil => rfl
  | cons c t ih =>
    have most := length_normalize t
    rw [normalize] at same ⊢
    split at same
    · simp only [List.length_cons] at same
      omega
    · next kept => rw [if_neg kept, ih (Nat.succ.inj same)]

theorem normalize_plain {t : Text} (plain : '\r' ∉ t) : normalize t = t := by
  induction t with
  | nil => rfl
  | cons c t ih =>
    rw [List.mem_cons, not_or] at plain
    rw [normalize_cons (Ne.symm plain.1), ih plain.2]

theorem count_normalize {c : Char} (other : c ≠ '\r') (t : Text) :
    (normalize t).count c = t.count c := by
  induction t with
  | nil => rfl
  | cons d t ih =>
    rw [normalize]
    split
    · next left_out => simp [ih, left_out.1, other.symm]
    · simp [List.count_cons, ih]

/-! A comment. -/

theorem lineComment_first {a : Text} (without : '\n' ∉ a) (back : Text) :
    lineComment ('/' :: '/' :: (a ++ '\n' :: back)) = some (a, '\n' :: back) := by
  have inside : ∀ c ∈ a, decide (c ≠ '\n') = true := by
    intro c member
    exact decide_eq_true fun same => without (same ▸ member)
  simp only [lineComment]
  rw [List.takeWhile_append_of_pos inside, List.dropWhile_append_of_pos inside]
  simp

/-- A comment ends with its own line if and only if it has no end of a line inside. -/
theorem lineComment_iff (a back : Text) :
    (∃ c, lineComment (normalize ('/' :: '/' :: (a ++ '\n' :: back))) =
      some (c, '\n' :: normalize back)) ↔ '\n' ∉ a := by
  obtain ⟨x, whole, lines⟩ := normalize_line a
  rw [normalize_cons (by decide), normalize_cons (by decide), whole, ← lines]
  constructor
  · rintro ⟨c, read⟩ inside
    obtain ⟨x₁, x₂, rfl, first⟩ := List.eq_append_cons_of_mem inside
    rw [List.append_assoc, List.cons_append, lineComment_first first] at read
    have lengths := congrArg (fun r => (r.2 : Text).length) (Option.some.inj read)
    simp only [List.length_cons, List.length_append] at lengths
    omega
  · exact fun without => ⟨x, lineComment_first without _⟩

/-! String literals. -/

theorem stringBody_quote (t : Text) : stringBody ('"' :: t) = some ([], t) := by
  rw [stringBody, if_pos rfl]

theorem stringBody_plain {c : Char} (plain : c ≠ '"' ∧ c ≠ '\r' ∧ c ≠ '\\') (t : Text) :
    stringBody (c :: t) = (stringBody t).map fun x => (c :: x.1, x.2) := by
  rw [stringBody, if_neg plain.1, if_neg plain.2.1, if_neg plain.2.2]

theorem stringBody_escaped (t : Text) :
    stringBody ('\\' :: '"' :: t) = (stringBody t).map fun x => ('"' :: x.1, x.2) := by
  rw [stringBody, if_neg (by decide), if_neg (by decide), if_pos rfl]
  split
  · next failed => cases failed
  · next v behind read =>
    cases read
    rfl

/-- The length of a literal bounds what it denotes: each quote takes a backslash. If it denotes
all it can, then these are all its backslashes and it has no carriage return. -/
theorem stringBody_spec (read : stringBody t = some (v, rest)) :
    ∃ body, t = body ++ '"' :: rest ∧ v.length + body.count '"' ≤ body.length ∧
      (v.length + body.count '"' = body.length →
        '\r' ∉ body ∧ body.count '\\' = body.count '"') := by
  fun_induction stringBody t generalizing v rest with
  | case1 => cases read
  | case2 t =>
    cases read
    exact ⟨[], rfl, Nat.le_refl 0, by simp⟩
  | case3 => cases read
  | case4 => cases read
  | case5 t w behind taken quote_ne return_ne ih =>
    obtain ⟨x, inner, same⟩ := Option.map_eq_some_iff.mp read
    cases same
    obtain ⟨body, rfl, bound, equal⟩ := ih inner
    obtain ⟨used, rfl, -, least, most⟩ := escape_spec taken
    have quotes : ('\\' :: used ++ body).count '"' = used.count '"' + body.count '"' := by simp
    have lengths : ('\\' :: used ++ body).length = used.length + 1 + body.length := by
      simp only [List.length_append, List.length_cons]
    refine ⟨'\\' :: used ++ body, by simp, ?_⟩
    rw [quotes, lengths, List.length_append]
    refine ⟨by omega, fun total => ?_⟩
    obtain ⟨plain, backslashes⟩ := equal (by omega)
    cases most (by omega)
    simp [plain, backslashes, Nat.add_comm]
  | case6 c t quote_ne return_ne backslash_ne ih =>
    obtain ⟨x, inner, same⟩ := Option.map_eq_some_iff.mp read
    cases same
    obtain ⟨body, rfl, bound, equal⟩ := ih inner
    have quotes : (c :: body).count '"' = body.count '"' := by simp [quote_ne]
    refine ⟨c :: body, rfl, ?_⟩
    rw [quotes, List.length_cons, List.length_cons]
    refine ⟨by omega, fun total => ?_⟩
    obtain ⟨plain, backslashes⟩ := equal (by omega)
    simp [plain, backslashes, backslash_ne, Ne.symm return_ne]

/-- A literal that is read up to its own last quote. -/
theorem stringLiteral_bound {written back : Text}
    (read : stringLiteral (normalize ('"' :: (written ++ '"' :: back))) =
      some (v, normalize back)) :
    v.length + written.count '"' ≤ written.length ∧
      (v.length + written.count '"' = written.length →
        '\r' ∉ written ∧ written.count '\\' = written.count '"') := by
  rw [normalize_cons (by decide), normalize_append (by simp), normalize_cons (by decide)] at read
  obtain ⟨body, whole, bound, equal⟩ := stringBody_spec read
  cases List.append_cancel_right whole
  have shorter := length_normalize written
  rw [count_normalize (by decide)] at bound equal
  refine ⟨by omega, fun total => ?_⟩
  rw [normalize_of_length (t := written) (by omega)] at equal
  exact equal total

/-! Raw string literals. -/

/-- A raw literal with one sign that is read up to its own last quote. -/
theorem rawStringLiteral_whole {written back : Text}
    (read : rawStringLiteral (normalize ('r' :: '#' :: '"' :: (written ++ '"' :: '#' :: back))) =
      some (v, normalize back)) : normalize written = v ∧ '\r' ∉ v := by
  rw [normalize_cons (by decide), normalize_cons (by decide), normalize_cons (by decide),
    normalize_append (by simp), normalize_cons (by decide), normalize_cons (by decide)] at read
  obtain ⟨found, plain⟩ := Option.filter_eq_some_iff.mp read
  have whole := Occurrence.eq_of_cut found
  exact ⟨List.append_cancel_right whole, of_decide_eq_true plain⟩

theorem borderless_close : Occurrence.Borderless ['"', '#'] := by
  intro b front behind
  match b, List.prefix_cons_iff.mp front with
  | _, .inl rfl => exact .inl rfl
  | _, .inr ⟨b, rfl, inner⟩ =>
    rcases List.prefix_cons_iff.mp inner with rfl | ⟨b, rfl, last⟩
    · exact absurd behind (by decide)
    · exact .inr (by rw [List.prefix_nil.mp last])

theorem rawStringLiteral_plain {written : Text} (plain : '\r' ∉ written)
    (without : ¬ ['"', '#'] <:+: written) (back : Text) :
    rawStringLiteral ('r' :: '#' :: '"' :: (written ++ '"' :: '#' :: back)) =
      some (written, back) := by
  have found := Occurrence.cut_borderless (List.cons_ne_nil _ _) borderless_close without back
  exact Option.filter_eq_some_iff.mpr ⟨found, decide_eq_true plain⟩

end Rust
