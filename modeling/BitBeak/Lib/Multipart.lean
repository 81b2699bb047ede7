import BitBeak.Lib.Replace
import Mathlib.Data.List.TakeWhile

/-! Bodies of several parts by the grammar of `multipart/form-data`. Lines that begin with the
boundary stand between the parts, and a part has header lines in front of an empty line and its
content. In a quoted string a backslash stands in front of a character that is meant itself. -/
namespace Multipart
open Occurrence

abbrev Octets := List UInt8

def crlf : Octets := [0x0d, 0x0a]

def quote : UInt8 := 0x22

def backslash : UInt8 := 0x5c

def ascii (t : String) : Octets := t.toList.map fun c => UInt8.ofNat c.toNat

def lower (t : Octets) : Octets := t.map fun b => if 0x41 ≤ b ∧ b ≤ 0x5a then b + 0x20 else b

def blank (b : UInt8) : Bool := b == 0x20 || b == 0x09

def tokenOctet (b : UInt8) : Bool :=
  (0x30 ≤ b && b ≤ 0x39) || (0x41 ≤ b && b ≤ 0x5a) || (0x61 ≤ b && b ≤ 0x7a) ||
    (ascii "!#$%&'*+-.^_\x60|~").contains b

/- The parts between the boundaries. -/

/-- The lines up to the next boundary, and the lines of the parts behind it. Behind the closing
boundary nothing is read. -/
def segments (dashed : Octets) : List Octets → Option (List Octets × List (List Octets))
  | [] => none
  | line :: rest =>
    if (dashed ++ ascii "--").isPrefixOf line then some ([], [])
    else if dashed.isPrefixOf line then (segments dashed rest).map fun s => ([], s.1 :: s.2)
    else (segments dashed rest).map fun s => (line :: s.1, s.2)

/- Headers. -/

/-- A line that begins with a blank continues the one in front of it. -/
def unfolded : List Octets → List Octets
  | [] => []
  | line :: rest =>
    match unfolded rest with
    | [] => [line]
    | next :: more => if next.head?.any blank then (line ++ next) :: more else line :: next :: more

/-- The name of a header in lower case, and its value. -/
def headerField (line : Octets) : Option (Octets × Octets) :=
  match line.dropWhile (· ≠ 0x3a) with
  | [] => none
  | _ :: value => some (lower (line.takeWhile (· ≠ 0x3a)), value.dropWhile blank)

/-- A quoted string behind its opening quotation mark, and what stands behind the closing one. A
line does not end inside. -/
def quoted : Octets → Option (Octets × Octets)
  | [] => none
  | [c] => if c = quote then some ([], []) else none
  | c :: d :: rest =>
    if c = quote then some ([], d :: rest)
    else if c ∈ crlf then none
    else if c = backslash then
      if d ∈ crlf then none else (quoted rest).map fun r => (d :: r.1, r.2)
    else (quoted (d :: rest)).map fun r => (c :: r.1, r.2)

def paramValue : Octets → Option (Octets × Octets)
  | [] => none
  | c :: rest =>
    if c = quote then quoted rest
    else if tokenOctet c then
      some ((c :: rest).takeWhile tokenOctet, (c :: rest).dropWhile tokenOctet)
    else none

/-- A parameter with the semicolon in front of it, and what stands behind it. -/
def param : Octets → Option ((Octets × Octets) × Octets)
  | [] => none
  | c :: rest =>
    if c = 0x3b then
      match (rest.dropWhile blank).dropWhile tokenOctet with
      | [] => none
      | e :: behind =>
        if e = 0x3d then
          (paramValue behind).map fun v =>
            ((lower ((rest.dropWhile blank).takeWhile tokenOctet), v.1), v.2.dropWhile blank)
        else none
    else none

/-- The parameters, at most as many as there are octets. -/
def params : Nat → Octets → Option (List (Octets × Octets))
  | _, [] => some []
  | 0, _ :: _ => none
  | n + 1, c :: rest => (param (c :: rest)).bind fun p => (params n p.2).map (p.1 :: ·)

def disposition (value : Octets) : Option (List (Octets × Octets)) :=
  if lower (value.takeWhile tokenOctet) = ascii "form-data" then
    let behind := (value.dropWhile tokenOctet).dropWhile blank
    params behind.length behind
  else none

/- Parts. -/

structure Part where
  name : Octets
  fileName : Option Octets
  others : List (Octets × Octets)
  content : Octets
  deriving DecidableEq

def part (lines : List Octets) : Option Part :=
  match lines.dropWhile (· ≠ []) with
  | [] => none
  | _ :: content => do
    let headers ← (unfolded (lines.takeWhile (· ≠ []))).mapM headerField
    let value ← headers.lookup (ascii "content-disposition")
    let found ← disposition value
    let name ← found.lookup (ascii "name")
    return {
      name := name
      fileName := found.lookup (ascii "filename")
      others := headers.filter fun h => h.1 ≠ ascii "content-disposition"
      content := crlf.intercalate content }

def parse (boundary body : Octets) : Option (List Part) := do
  let s ← segments (ascii "--" ++ boundary) (split crlf body)
  s.2.mapM part

/- Lines. -/

theorem crlf_borderless : Borderless crlf := by
  intro b front back
  have either : b = [] ∨ b = [0x0d] ∨ b = crlf := by
    simpa [crlf] using (List.mem_inits b crlf).mpr front
  rcases either with rfl | rfl | rfl
  · exact .inl rfl
  · exact absurd back (by decide)
  · exact .inr rfl

theorem lines_append (s t : Octets) :
    split crlf (s ++ (crlf ++ t)) = split crlf s ++ split crlf t :=
  split_append (by decide) crlf_borderless s t

theorem joined_lines (t : Octets) : crlf.intercalate (split crlf t) = t :=
  replaced_same (by decide) t

theorem lines_single {t : Octets} (inside : 0x0d ∉ t) : split crlf t = [t] := by
  have none : ¬ crlf <:+: t := fun found => inside (found.subset (by decide))
  rw [split, splitFrom_none none, List.nil_append]

/- Boundaries. -/

section
variable {dashed : Octets}

theorem segments_lines {lines : List Octets} (apart : ∀ line ∈ lines, ¬ dashed <+: line)
    (rest : List Octets) :
    segments dashed (lines ++ rest) =
      (segments dashed rest).map fun s => (lines ++ s.1, s.2) := by
  induction lines with
  | nil => simp
  | cons line lines ih =>
    obtain ⟨first, others⟩ := List.forall_mem_cons.mp apart
    have longer : ¬ dashed ++ ascii "--" <+: line := fun begins =>
      first ((List.prefix_append _ _).trans begins)
    rw [List.cons_append, segments, if_neg fun begins => longer (List.isPrefixOf_iff_prefix.mp begins),
      if_neg fun begins => first (List.isPrefixOf_iff_prefix.mp begins), ih others, Option.map_map]
    rfl

theorem segments_closed (rest : List Octets) :
    segments dashed ((dashed ++ ascii "--") :: rest) = some ([], []) := by
  rw [segments, if_pos (List.isPrefixOf_iff_prefix.mpr (List.prefix_refl _))]

/-- Between boundaries the lines of the parts are found again. -/
theorem segments_parts {parts : List (List Octets)}
    (apart : ∀ lines ∈ parts, ∀ line ∈ lines, ¬ dashed <+: line) (rest : List Octets) :
    segments dashed (parts.flatMap (dashed :: ·) ++ (dashed ++ ascii "--") :: rest) =
      some ([], parts) := by
  induction parts with
  | nil => exact segments_closed rest
  | cons lines parts ih =>
    obtain ⟨first, others⟩ := List.forall_mem_cons.mp apart
    have longer : ¬ dashed ++ ascii "--" <+: dashed := by
      intro begins
      have most := begins.length_le
      rw [List.length_append] at most
      exact absurd most (Nat.not_le.mpr (Nat.lt_add_of_pos_right (by decide)))
    rw [List.flatMap_cons, List.cons_append, List.cons_append, segments,
      if_neg fun begins => longer (List.isPrefixOf_iff_prefix.mp begins),
      if_pos (List.isPrefixOf_iff_prefix.mpr (List.prefix_refl _)), List.append_assoc,
      segments_lines first, ih others]
    simp

end

/- Quoted strings. -/

/-- A text that may stand between quotation marks as it is. -/
def Clean (t : Octets) : Prop := ∀ b ∈ t, b ∉ crlf ∧ b ≠ quote ∧ b ≠ backslash

theorem quoted_quote (t : Octets) : quoted (quote :: t) = some ([], t) := by
  cases t <;> simp [quoted]

theorem quoted_cons {c : UInt8} (line : c ∉ crlf) (open' : c ≠ quote) (plain : c ≠ backslash)
    {t : Octets} (more : t ≠ []) :
    quoted (c :: t) = (quoted t).map fun r => (c :: r.1, r.2) := by
  obtain ⟨d, rest, rfl⟩ := List.exists_cons_of_ne_nil more
  rw [quoted, if_neg open', if_neg line, if_neg plain]

theorem quoted_clean {k : Octets} (clean : Clean k) (t : Octets) :
    quoted (k ++ quote :: t) = some (k, t) := by
  induction k with
  | nil => exact quoted_quote t
  | cons c k ih =>
    obtain ⟨⟨line, mark, plain⟩, others⟩ := List.forall_mem_cons.mp clean
    rw [List.cons_append, quoted_cons line mark plain (by simp), ih others]
    rfl

/-- No line ends in what was read. -/
theorem quoted_line {t k rest : Octets} (read : quoted t = some (k, rest)) : ∀ b ∈ k, b ∉ crlf := by
  fun_induction quoted t generalizing k rest with
  | case1 => cases read
  | case2 => cases read; simp
  | case3 => cases read
  | case4 => cases read; simp
  | case5 => cases read
  | case6 => cases read
  | case7 d more inner _ _ ih =>
    obtain ⟨⟨k', rest'⟩, found, same⟩ := Option.map_eq_some_iff.mp read
    cases same
    exact List.forall_mem_cons.mpr ⟨inner, ih found⟩
  | case8 c d more _ line _ ih =>
    obtain ⟨⟨k', rest'⟩, found, same⟩ := Option.map_eq_some_iff.mp read
    cases same
    exact List.forall_mem_cons.mpr ⟨line, ih found⟩

/-- A backslash that was read stands behind another one. -/
theorem quoted_backslash {t k rest : Octets} (read : quoted t = some (backslash :: k, rest)) :
    ∃ more, t = backslash :: backslash :: more ∧ quoted more = some (k, rest) := by
  fun_cases quoted t with
  | case7 d more _ _ _ =>
    rw [quoted, if_neg (by decide), if_neg (by decide), if_pos rfl, if_neg (by assumption)] at read
    obtain ⟨⟨k', rest'⟩, found, same⟩ := Option.map_eq_some_iff.mp read
    cases same
    exact ⟨more, rfl, found⟩
  | case8 c d more mark line plain =>
    rw [quoted, if_neg mark, if_neg line, if_neg plain] at read
    obtain ⟨⟨k', rest'⟩, found, same⟩ := Option.map_eq_some_iff.mp read
    cases same
    exact absurd rfl plain
  | _ => simp_all [quoted]

/-- In front of a quotation mark the two backslashes stand in the text. -/
theorem quoted_pair {k t rest found : Octets}
    (read : quoted (k ++ quote :: t) = some (backslash :: found, rest)) :
    ∃ k', k = backslash :: backslash :: k' ∧ quoted (k' ++ quote :: t) = some (found, rest) := by
  obtain ⟨more, whole, inner⟩ := quoted_backslash read
  have differ : quote ≠ backslash := by decide
  match k with
  | [] => exact absurd (List.cons.inj whole).1 differ
  | [_] => exact absurd (List.cons.inj (List.cons.inj whole).2).1 differ
  | a :: b :: k =>
    obtain ⟨rfl, rfl, rfl⟩ : a = backslash ∧ b = backslash ∧ k ++ quote :: t = more := by
      simpa using whole
    exact ⟨k, rfl, inner⟩

/-- What is read as itself in front of a quotation mark has nothing in it to be quoted. With more
backslashes in front it would be read from too few octets. -/
theorem quoted_shifted {n : Nat} {k t rest : Octets}
    (read : quoted (k ++ quote :: t) = some (List.replicate n backslash ++ k, rest)) :
    n = 0 ∧ Clean k := by
  induction long : k.length using Nat.strong_induction_on generalizing n k with
  | _ length ih =>
    subst long
    cases n with
    | succ n =>
      obtain ⟨k, rfl, inner⟩ := quoted_pair read
      have shifted : List.replicate n backslash ++ backslash :: backslash :: k =
          List.replicate (n + 2) backslash ++ k := by
        simp [List.replicate_add]
      have small : k.length < (backslash :: backslash :: k).length := by
        simp only [List.length_cons]
        omega
      exact absurd (ih k.length small (inner.trans (by rw [← shifted]; rfl)) rfl).1
        (Nat.succ_ne_zero _)
    | zero =>
      refine ⟨rfl, ?_⟩
      cases k with
      | nil => simp [Clean]
      | cons c k =>
        have line : c ∉ crlf := quoted_line read c List.mem_cons_self
        have mark : c ≠ quote := by
          rintro rfl
          simp [quoted_quote] at read
        by_cases plain : c = backslash
        · subst plain
          obtain ⟨k', same, inner⟩ := quoted_pair read
          obtain rfl := (List.cons.inj same).2
          have small : k'.length < (backslash :: backslash :: k').length := by
            simp only [List.length_cons]
            omega
          exact absurd (ih k'.length small (n := 1) inner rfl).1 Nat.one_ne_zero
        · rw [List.cons_append, quoted_cons line mark plain (by simp)] at read
          obtain ⟨⟨k', rest'⟩, found, same⟩ := Option.map_eq_some_iff.mp read
          obtain ⟨rfl, rfl⟩ : k' = k ∧ rest' = rest := by simpa using same
          have clean := (ih k'.length (Nat.lt_succ_self _) (n := 0) found rfl).2
          exact List.forall_mem_cons.mpr ⟨⟨line, mark, plain⟩, clean⟩

theorem quoted_self {k t rest : Octets} (read : quoted (k ++ quote :: t) = some (k, rest)) :
    Clean k := (quoted_shifted (n := 0) read).2

/- Parameters. -/

def parameter (attr : String) (value : Octets) : Octets :=
  ascii "; " ++ (ascii attr ++ (0x3d :: quote :: (value ++ [quote])))

theorem blank_of_token {b : UInt8} (token : tokenOctet b = true) : blank b = false := by
  rw [Bool.eq_false_iff]
  intro white
  rcases (Bool.or_eq_true ..).mp white with space | tab
  · rw [beq_iff_eq.mp space] at token
    exact absurd token (by decide)
  · rw [beq_iff_eq.mp tab] at token
    exact absurd token (by decide)

theorem param_parameter {attr : String} (some : ascii attr ≠ [])
    (token : ∀ b ∈ ascii attr, tokenOctet b = true) (value tail : Octets) :
    param (parameter attr value ++ tail) =
      (quoted (value ++ quote :: tail)).map fun v =>
        ((lower (ascii attr), v.1), v.2.dropWhile blank) := by
  obtain ⟨b, more, whole⟩ := List.exists_cons_of_ne_nil some
  have first : blank b = false := blank_of_token (token b (by simp [whole]))
  have shape : parameter attr value ++ tail =
      0x3b :: 0x20 :: (ascii attr ++ 0x3d :: quote :: (value ++ quote :: tail)) := by
    simp [parameter, ascii]
  have start : (0x20 :: (ascii attr ++ 0x3d :: quote :: (value ++ quote :: tail))).dropWhile blank =
      ascii attr ++ 0x3d :: quote :: (value ++ quote :: tail) := by
    rw [whole]
    simp [first, show blank 0x20 = true by decide]
  have ends : tokenOctet 0x3d = false := by decide
  rw [shape, param, if_pos rfl, start, List.dropWhile_append_of_pos token,
    List.takeWhile_append_of_pos token]
  simp [ends, paramValue]

theorem params_parameter {attr : String} (some : ascii attr ≠ [])
    (token : ∀ b ∈ ascii attr, tokenOctet b = true) (n : Nat) (value tail : Octets) :
    params (n + 1) (parameter attr value ++ tail) =
      (quoted (value ++ quote :: tail)).bind fun v =>
        (params n (v.2.dropWhile blank)).map ((lower (ascii attr), v.1) :: ·) := by
  have read := param_parameter some token value tail
  obtain ⟨c, rest, whole⟩ : ∃ c rest, parameter attr value ++ tail = c :: rest := ⟨_, _, rfl⟩
  rw [whole] at read ⊢
  rw [params, read]
  cases quoted (value ++ quote :: tail) <;> rfl

theorem paramValue_line {t v rest : Octets} (read : paramValue t = some (v, rest)) :
    ∀ b ∈ v, b ∉ crlf := by
  fun_cases paramValue t with
  | case1 => cases read
  | case2 c => exact quoted_line read
  | case3 c t _ first =>
    rw [paramValue, if_neg (by assumption), if_pos first] at read
    cases read
    intro b member inside
    have token := List.mem_takeWhile_imp member
    rcases List.mem_pair.mp inside with rfl | rfl
    · exact absurd token (by decide)
    · exact absurd token (by decide)
  | case4 c t mark first => simp [paramValue, mark, first] at read

theorem param_line {t behind : Octets} {p : Octets × Octets} (read : param t = some (p, behind)) :
    ∀ b ∈ p.2, b ∉ crlf := by
  cases t with
  | nil => cases read
  | cons c t =>
    rw [param] at read
    split at read
    · split at read
      · cases read
      · split at read
        · obtain ⟨v, found, same⟩ := Option.map_eq_some_iff.mp read
          cases same
          exact paramValue_line found
        · cases read
    · cases read

/-- No line ends in a value. -/
theorem params_line {n : Nat} {t : Octets} {found : List (Octets × Octets)}
    (read : params n t = some found) : ∀ p ∈ found, ∀ b ∈ p.2, b ∉ crlf := by
  induction n generalizing t found with
  | zero =>
    cases t <;> cases read
    simp
  | succ n ih =>
    cases t with
    | nil =>
      cases read
      simp
    | cons c t =>
      obtain ⟨⟨p, behind⟩, first, later⟩ := Option.bind_eq_some_iff.mp read
      obtain ⟨more, others, rfl⟩ := Option.map_eq_some_iff.mp later
      exact List.forall_mem_cons.mpr ⟨param_line first, ih others⟩

/- Parts. -/

/-- The parameters that name a form field. -/
def written (name : Octets) (fileName : Option Octets) : Octets :=
  parameter "name" name ++ fileName.elim [] (parameter "filename")

def dispositionLine (name : Octets) (fileName : Option Octets) : Octets :=
  ascii "Content-Disposition: form-data" ++ written name fileName

theorem headerField_dispositionLine (name : Octets) (fileName : Option Octets) :
    headerField (dispositionLine name fileName) =
      some (ascii "content-disposition", ascii "form-data" ++ written name fileName) := rfl

theorem disposition_written (name : Octets) (fileName : Option Octets) :
    disposition (ascii "form-data" ++ written name fileName) =
      params (written name fileName).length (written name fileName) := rfl

theorem name_letters : ∀ b ∈ ascii "name", tokenOctet b = true := by simp [ascii, tokenOctet]

theorem filename_letters : ∀ b ∈ ascii "filename", tokenOctet b = true := by
  simp [ascii, tokenOctet]

theorem disposition_line {value attr v : Octets} {found : List (Octets × Octets)}
    (read : disposition value = some found) (here : found.lookup attr = some v) :
    ∀ b ∈ v, b ∉ crlf := by
  rw [disposition] at read
  split at read
  · obtain ⟨front, behind, rfl, -⟩ := List.lookup_eq_some_iff.mp here
    exact params_line read (attr, v) (by simp)
  · cases read

/-- In what is read of a form field no line ends. -/
theorem part_line {lines : List Octets} {p : Part} (read : part lines = some p) :
    (∀ b ∈ p.name, b ∉ crlf) ∧ ∀ f, p.fileName = some f → ∀ b ∈ f, b ∉ crlf := by
  rw [part] at read
  split at read
  · cases read
  · simp only [Option.bind_eq_bind, Option.bind_eq_some_iff] at read
    obtain ⟨headers, -, value, -, found, disposed, name, named, same⟩ := read
    cases same
    exact ⟨disposition_line disposed named, fun f here => disposition_line disposed here⟩

/-- What stands in front of the content, line by line. -/
theorem part_lines {lines : List Octets} (some : ∀ l ∈ lines, l ≠ []) (content : Octets) :
    part (lines ++ [] :: split crlf content) = (do
      let headers ← (unfolded lines).mapM headerField
      let value ← headers.lookup (ascii "content-disposition")
      let found ← disposition value
      let name ← found.lookup (ascii "name")
      return {
        name := name
        fileName := found.lookup (ascii "filename")
        others := headers.filter fun h => h.1 ≠ ascii "content-disposition"
        content := content }) := by
  have filled : ∀ l ∈ lines, decide (l ≠ []) = true := fun l member => decide_eq_true (some l member)
  rw [part, List.dropWhile_append_of_pos filled, List.takeWhile_append_of_pos filled]
  simp [joined_lines]

theorem unfolded_eq_self {lines : List Octets} (first : ∀ l ∈ lines, l.head?.any blank = false) :
    unfolded lines = lines := by
  induction lines with
  | nil => rfl
  | cons line lines ih =>
    obtain ⟨-, others⟩ := List.forall_mem_cons.mp first
    rw [unfolded, ih others]
    cases lines with
    | nil => rfl
    | cons next more => simp [others next List.mem_cons_self]

/-- What is read of the parameters is what they are written from. -/
def Named (name : Octets) (fileName : Option Octets) (found : List (Octets × Octets)) : Prop :=
  found.lookup (ascii "name") = some name ∧ found.lookup (ascii "filename") = fileName

theorem lookup_name (v : Octets) (more : List (Octets × Octets)) :
    List.lookup (ascii "name") ((lower (ascii "name"), v) :: more) = some v := rfl

theorem lookup_filename (v : Octets) (more : List (Octets × Octets)) :
    List.lookup (ascii "filename") ((lower (ascii "name"), v) :: more) =
      more.lookup (ascii "filename") := rfl

theorem named_iff (n : Nat) (name : Octets) (fileName : Option Octets) :
    (∃ found, params (n + 2) (written name fileName) = some found ∧ Named name fileName found) ↔
      Clean name ∧ ∀ f, fileName = some f → Clean f := by
  have first := params_parameter (by decide) name_letters (n + 1) name
  have second := params_parameter (by decide) filename_letters n
  constructor
  · rintro ⟨found, read, named, file⟩
    rw [written, first] at read
    obtain ⟨⟨value, rest⟩, quotedName, more⟩ := Option.bind_eq_some_iff.mp read
    obtain ⟨found', read', rfl⟩ := Option.map_eq_some_iff.mp more
    rw [lookup_name] at named
    cases named
    have clean := quoted_self quotedName
    refine ⟨clean, ?_⟩
    rintro f rfl
    rw [quoted_clean clean] at quotedName
    cases quotedName
    have read'' : params (n + 1) (parameter "filename" f ++ []) = some found' := by
      rw [List.append_nil]
      exact read'
    rw [second] at read''
    obtain ⟨⟨value, rest⟩, quotedFile, more⟩ := Option.bind_eq_some_iff.mp read''
    obtain ⟨found'', -, rfl⟩ := Option.map_eq_some_iff.mp more
    rw [lookup_filename] at file
    cases file
    exact quoted_self quotedFile
  · rintro ⟨clean, cleanFile⟩
    rw [written, first, quoted_clean clean, Option.bind_some]
    cases fileName with
    | none => exact ⟨[(lower (ascii "name"), name)], by cases n <;> rfl, rfl, rfl⟩
    | some f =>
      have file := second f []
      rw [List.append_nil, quoted_clean (cleanFile f rfl), Option.bind_some] at file
      refine ⟨[(lower (ascii "name"), name), (lower (ascii "filename"), f)], ?_, rfl, rfl⟩
      rw [show params (n + 1) (List.dropWhile blank (Option.elim (some f) [] (parameter "filename"))) =
        params (n + 1) (parameter "filename" f) from rfl, file]
      cases n <;> rfl

section
variable (name : Octets) (fileName : Option Octets) (content : Octets) {extra : List Octets}
  {others : List (Octets × Octets)}

theorem dispositionLine_head :
    (dispositionLine name fileName).head? = some 0x43 := rfl

theorem part_read (filled : ∀ l ∈ extra, l ≠ []) (first : ∀ l ∈ extra, l.head?.any blank = false)
    (read : extra.mapM headerField = some others)
    (differ : ∀ h ∈ others, h.1 ≠ ascii "content-disposition") :
    part (dispositionLine name fileName :: (extra ++ [] :: split crlf content)) =
        some { name := name, fileName := fileName, others := others, content := content } ↔
      ∃ found, params (written name fileName).length (written name fileName) = some found ∧
        Named name fileName found := by
  have begins := dispositionLine_head name fileName
  have all : ∀ l ∈ dispositionLine name fileName :: extra, l ≠ [] := by
    refine List.forall_mem_cons.mpr ⟨fun none => ?_, filled⟩
    rw [none] at begins
    cases begins
  have heads : ∀ l ∈ dispositionLine name fileName :: extra, l.head?.any blank = false :=
    List.forall_mem_cons.mpr ⟨by rw [begins]; rfl, first⟩
  have kept : others.filter (fun h => !decide (h.1 = ascii "content-disposition")) = others :=
    List.filter_eq_self.mpr fun h member => by simp [differ h member]
  rw [← List.cons_append, part_lines all, unfolded_eq_self heads, List.mapM_cons,
    headerField_dispositionLine, read]
  simp [kept, disposition_written, Named, Option.bind_eq_some_iff]

/-- A part is read as what it is written from exactly if its names need no quoting. -/
theorem part_iff (filled : ∀ l ∈ extra, l ≠ []) (first : ∀ l ∈ extra, l.head?.any blank = false)
    (read : extra.mapM headerField = some others)
    (differ : ∀ h ∈ others, h.1 ≠ ascii "content-disposition") :
    part (split crlf (dispositionLine name fileName) ++ (extra ++ [] :: split crlf content)) =
        some { name := name, fileName := fileName, others := others, content := content } ↔
      Clean name ∧ ∀ f, fileName = some f → Clean f := by
  have enough : ∃ n, (written name fileName).length = n + 2 := ⟨_, rfl⟩
  obtain ⟨n, long⟩ := enough
  have whole : (∀ b ∈ name, b ∉ crlf) ∧ (∀ f, fileName = some f → ∀ b ∈ f, b ∉ crlf) →
      split crlf (dispositionLine name fileName) = [dispositionLine name fileName] := by
    rintro ⟨line, lineFile⟩
    have own : ∀ {t : Octets}, (∀ b ∈ t, b ∉ crlf) → 0x0d ∉ t := fun free inside =>
      free _ inside (by decide)
    refine lines_single ?_
    rw [dispositionLine, written, parameter]
    cases fileName with
    | none => simpa [ascii, quote] using own line
    | some f => simpa [ascii, quote, parameter] using ⟨own line, own (lineFile f rfl)⟩
  have single := part_read name fileName content filled first read differ
  rw [long, named_iff] at single
  constructor
  · intro found
    rw [whole (part_line found)] at found
    exact single.mp found
  · rintro ⟨clean, cleanFile⟩
    rw [whole ⟨fun b member => (clean b member).1, fun f here b member => (cleanFile f here b member).1⟩]
    exact single.mpr ⟨clean, cleanFile⟩

end

/- Bodies. -/

/-- Texts of parts between boundaries. -/
def encapsulated (boundary : Octets) (texts : List Octets) : Octets :=
  texts.flatMap (fun t => ascii "--" ++ boundary ++ (crlf ++ (t ++ crlf))) ++
    (ascii "--" ++ boundary ++ ascii "--" ++ crlf)

section
variable {boundary : Octets} (line : 0x0d ∉ boundary)
include line

theorem lines_encapsulated (texts : List Octets) :
    split crlf (encapsulated boundary texts) =
      (texts.map (split crlf)).flatMap ((ascii "--" ++ boundary) :: ·) ++
        [ascii "--" ++ boundary ++ ascii "--", []] := by
  have dashed : ∀ {t : Octets}, 0x0d ∉ t → split crlf (ascii "--" ++ boundary ++ t) =
      [ascii "--" ++ boundary ++ t] := by
    intro t inside
    exact lines_single (by simp [ascii, line, inside])
  rw [encapsulated]
  induction texts with
  | nil =>
    have ends := lines_append (ascii "--" ++ boundary ++ ascii "--") []
    rw [List.append_nil, dashed (by decide), lines_single List.not_mem_nil] at ends
    exact ends
  | cons t texts ih =>
    have first := dashed (t := []) List.not_mem_nil
    rw [List.append_nil] at first
    rw [List.flatMap_cons, List.append_assoc, List.append_assoc (ascii "--" ++ boundary),
      List.append_assoc crlf, lines_append, first, List.append_assoc t, lines_append, ih]
    simp

/-- The texts that do not have the boundary are the parts. -/
theorem parse_encapsulated {texts : List Octets} (apart : ∀ t ∈ texts, ¬ boundary <:+: t) :
    parse boundary (encapsulated boundary texts) = texts.mapM fun t => part (split crlf t) := by
  have clear : ∀ lines ∈ texts.map (split crlf), ∀ l ∈ lines, ¬ ascii "--" ++ boundary <+: l := by
    intro lines member l inside begins
    obtain ⟨t, here, rfl⟩ := List.mem_map.mp member
    have within : boundary <:+: ascii "--" ++ boundary := (List.suffix_append _ _).isInfix
    exact apart t here ((within.trans begins.isInfix).trans (infix_of_mem_split inside))
  rw [parse, lines_encapsulated line, segments_parts clear, Option.bind_eq_bind, Option.bind_some,
    List.mapM_map, Function.comp_def]

end

theorem mapM_map_iff {α β : Type} {read : α → Option β} {written : α → β} (xs : List α) :
    xs.mapM read = some (xs.map written) ↔ ∀ x ∈ xs, read x = some (written x) := by
  induction xs with
  | nil => simp
  | cons x xs ih => simp [Option.bind_eq_some_iff, ih]

end Multipart
