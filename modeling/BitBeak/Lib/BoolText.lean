import Mathlib.Data.List.DropRight
import Mathlib.Data.List.Infix

/-! Boolean expressions over atoms as text, with the words `not`, `and` and `or` and with
parentheses: a printer that writes as few parentheses as it can, and a parser that cuts the
text at the words which a counter of parentheses finds at depth zero. The atoms, what white
space is and what an expression stands for are parameters. -/
namespace BoolText

abbrev Text := List Char

/- Cutting a text. -/

def depthAfter (depth : Int) (c : Char) : Int :=
  if c = '(' then depth + 1 else if c = ')' then depth - 1 else depth

/-- How many parentheses a text opens and does not close. -/
def net (t : Text) : Int := t.foldl depthAfter 0

/-- The parts of a text between the separators at depth zero. `skip` characters in front
belong to a separator, and `part` is what the next part begins with. -/
def splitFrom (sep : Text) : Nat → Int → Text → Text → List Text
  | _, _, part, [] => [part]
  | skip + 1, depth, part, _ :: rest => splitFrom sep skip depth part rest
  | 0, depth, part, c :: rest =>
    if depthAfter depth c = 0 ∧ sep.isPrefixOf (c :: rest) then
      part :: splitFrom sep (sep.length - 1) (depthAfter depth c) [] rest
    else splitFrom sep 0 (depthAfter depth c) (part ++ [c]) rest

def trim (white : Char → Bool) (t : Text) : Text := (t.dropWhile white).rdropWhile white

def splitTop (white : Char → Bool) (sep s : Text) : List Text :=
  (splitFrom sep 0 0 [] s).map (trim white)

def orSep : Text := [' ', 'o', 'r', ' ']
def andSep : Text := [' ', 'a', 'n', 'd', ' ']
def notWord : Text := ['n', 'o', 't', ' ']

/- Reading. -/

/-- How a text is read: its atoms, and what the connectives make. `exhausted` is the error of
a reader without fuel. -/
structure Reader (α ε : Type) where
  white : Char → Bool
  atom : Text → Except ε α
  or : α → α → α
  and : α → α → α
  not : α → α
  exhausted : ε

namespace Reader

variable {α ε : Type} (r : Reader α ε)

/-- The parts read in turn and joined from the left. -/
def joined (op : α → α → α) (unit : Text → Except ε α) : List Text → Except ε α
  | [] => .error r.exhausted
  | p :: ps => do ps.foldlM (fun acc p => return op acc (← unit p)) (← unit p)

def readAnd (unit : Text → Except ε α) (s : Text) : Except ε α :=
  r.joined r.and unit (splitTop r.white andSep s)

def readOr (unit : Text → Except ε α) (s : Text) : Except ε α :=
  r.joined r.or (r.readAnd unit) (splitTop r.white orSep s)

/-- A negation, a text in parentheses or an atom. -/
def readNot : Nat → Text → Except ε α
  | 0, _ => .error r.exhausted
  | fuel + 1, s =>
    let s := trim r.white s
    if notWord.isPrefixOf s then do return r.not (← readNot fuel (s.drop notWord.length))
    else if s.head? = some '(' ∧ s.getLast? = some ')' then r.readOr (readNot fuel) s.tail.dropLast
    else r.atom s

/-- A whole text. Its length is fuel enough. -/
def read (s : Text) : Except ε α := r.readOr (r.readNot (s.length + 1)) s

end Reader

/- Printing. -/

inductive BoolExpr (β : Type) where
  | atom (x : β)
  | or (a b : BoolExpr β)
  | and (a b : BoolExpr β)
  | not (a : BoolExpr β)
  deriving DecidableEq, Repr

/-- Where an expression stands: alone or left of an `or`, in an operand of `or`, or in an
operand of `and` or `not`. -/
inductive Place where
  | alone
  | underOr
  | underAnd
  deriving DecidableEq, Repr

def parens (t : Text) : Text := '(' :: (t ++ [')'])

namespace BoolExpr

variable {β : Type} (text : β → Text)

def print : BoolExpr β → Place → Text
  | atom x, _ => text x
  | not a, _ => notWord ++ a.print .underAnd
  | and a b, place =>
    let t := a.print .underOr ++ andSep ++ b.print .underAnd
    if place = .underAnd then parens t else t
  | or a b, place =>
    let t := a.print .alone ++ orSep ++ b.print .underOr
    if place = .alone then t else parens t

/-- What an expression stands for. -/
def value {α ε : Type} (r : Reader α ε) (leaf : β → α) : BoolExpr β → α
  | atom x => leaf x
  | not a => r.not (a.value r leaf)
  | and a b => r.and (a.value r leaf) (b.value r leaf)
  | or a b => r.or (a.value r leaf) (b.value r leaf)

end BoolExpr

/- Depth. -/

theorem foldl_depthAfter (t : Text) (depth : Int) : t.foldl depthAfter depth = depth + net t := by
  induction t generalizing depth with
  | nil => exact (Int.add_zero depth).symm
  | cons c rest ih =>
    have step : depthAfter depth c = depth + depthAfter 0 c := by
      unfold depthAfter
      split
      · omega
      · split <;> omega
    rw [net, List.foldl_cons, List.foldl_cons, ih, ih (depthAfter 0 c), step, Int.add_assoc]

theorem net_append (s t : Text) : net (s ++ t) = net s + net t := by
  rw [net, List.foldl_append, foldl_depthAfter]
  rfl

theorem net_cons (c : Char) (t : Text) : net (c :: t) = depthAfter 0 c + net t := by
  rw [net, List.foldl_cons, foldl_depthAfter]

theorem net_parens (t : Text) : net (parens t) = net t := by
  rw [parens, net_cons, net_append]
  show 1 + (net t + (-1)) = net t
  omega

/- Texts without a separator at depth zero. -/

/-- No separator begins at depth zero, where the text is followed by `next`. -/
def Quiet (sep next : Text) : Int → Text → Prop
  | _, [] => True
  | depth, c :: rest =>
    ¬ (depthAfter depth c = 0 ∧ sep.isPrefixOf (c :: (rest ++ next)) = true) ∧
      Quiet sep next (depthAfter depth c) rest

instance decidableQuiet (sep next : Text) : (depth : Int) → (t : Text) →
    Decidable (Quiet sep next depth t)
  | _, [] => .isTrue trivial
  | depth, c :: rest =>
    have := decidableQuiet sep next (depthAfter depth c) rest
    inferInstanceAs (Decidable (_ ∧ _))

theorem quiet_append {sep next : Text} {depth : Int} {s t : Text} :
    Quiet sep next depth (s ++ t) ↔
      Quiet sep (t ++ next) depth s ∧ Quiet sep next (depth + net s) t := by
  induction s generalizing depth with
  | nil =>
    rw [List.nil_append, show depth + net [] = depth from Int.add_zero _]
    exact ⟨fun quiet => ⟨trivial, quiet⟩, And.right⟩
  | cons c rest ih =>
    have depths : depthAfter depth c + net rest = depth + net (c :: rest) := by
      rw [← foldl_depthAfter, ← foldl_depthAfter, List.foldl_cons]
    rw [List.cons_append, Quiet, Quiet, ih, depths, List.append_assoc, and_assoc]

theorem splitFrom_quiet {sep next : Text} {depth : Int} {t : Text}
    (quiet : Quiet sep next depth t) (part : Text) :
    splitFrom sep 0 depth part (t ++ next) = splitFrom sep 0 (depth + net t) (part ++ t) next := by
  induction t generalizing depth part with
  | nil => rw [List.nil_append, List.append_nil, show depth + net [] = depth from Int.add_zero _]
  | cons c rest ih =>
    obtain ⟨here, later⟩ := quiet
    have depths : depthAfter depth c + net rest = depth + net (c :: rest) := by
      rw [← foldl_depthAfter, ← foldl_depthAfter, List.foldl_cons]
    rw [List.cons_append, splitFrom, if_neg here, ih later, List.append_assoc,
      List.singleton_append, depths]

theorem splitFrom_skip (sep : Text) (depth : Int) (part l rest : Text) :
    splitFrom sep l.length depth part (l ++ rest) = splitFrom sep 0 depth part rest := by
  induction l with
  | nil => rfl
  | cons c l ih => exact ih

/-- A word between two blanks. -/
structure Separates (sep : Text) : Prop where
  blanks : ∃ word, sep = ' ' :: (word ++ [' ']) ∧ ' ' ∉ word
  level : net sep = 0

theorem separates_or : Separates orSep := ⟨⟨['o', 'r'], rfl, by decide⟩, rfl⟩
theorem separates_and : Separates andSep := ⟨⟨['a', 'n', 'd'], rfl, by decide⟩, rfl⟩

namespace Separates

variable {sep : Text}

theorem cut (separates : Separates sep) (part rest : Text) :
    splitFrom sep 0 0 part (sep ++ rest) = part :: splitFrom sep 0 0 [] rest := by
  obtain ⟨word, rfl, _⟩ := separates.blanks
  have here : depthAfter 0 ' ' = 0 ∧ (' ' :: (word ++ [' '])).isPrefixOf
      (' ' :: (word ++ [' '] ++ rest)) = true :=
    ⟨rfl, List.isPrefixOf_iff_prefix.mpr (List.prefix_append _ rest)⟩
  rw [List.cons_append, splitFrom, if_pos here, here.1, List.length_cons, Nat.add_sub_cancel,
    splitFrom_skip]

/-- A blank behind a text stands for all that may follow it. -/
theorem prefix_blank (separates : Separates sep) {c : Char} {rest more : Text}
    (here : sep <+: c :: (rest ++ ' ' :: more)) : sep <+: c :: (rest ++ [' ']) := by
  obtain ⟨word, rfl, inner⟩ := separates.blanks
  have front : c :: (rest ++ [' ']) <+: c :: (rest ++ ' ' :: more) := ⟨more, by simp⟩
  rcases Nat.le_total (' ' :: (word ++ [' '])).length (c :: (rest ++ [' '])).length with short | long
  · exact List.prefix_of_prefix_length_le here front short
  · obtain ⟨tail, whole⟩ := List.prefix_of_prefix_length_le front here long
    rcases List.eq_nil_or_concat tail with rfl | ⟨tail, last, rfl⟩
    · rw [← whole, List.append_nil]
    · exfalso
      apply inner
      have same : (rest ++ ' ' :: tail) ++ [last] = word ++ [' '] := by
        have := List.tail_eq_of_cons_eq whole
        simpa using this
      rw [← (List.append_inj' same rfl).1]
      exact List.mem_append_right _ List.mem_cons_self

theorem quiet_next (separates : Separates sep) {depth : Int} {t : Text}
    (quiet : Quiet sep [' '] depth t) {next : Text} (follows : next = [] ∨ next.head? = some ' ') :
    Quiet sep next depth t := by
  induction t generalizing depth with
  | nil => trivial
  | cons c rest ih =>
    refine ⟨fun ⟨level, begins⟩ => quiet.1 ⟨level, ?_⟩, ih quiet.2⟩
    rw [List.isPrefixOf_iff_prefix] at begins ⊢
    rcases follows with rfl | blank
    · rw [List.append_nil] at begins
      exact begins.trans (List.prefix_append (c :: rest) [' '])
    · cases next with
      | nil => cases blank
      | cons b more =>
        cases blank
        exact separates.prefix_blank begins

end Separates

/-- The text is cut into the parts, alone and, where its parentheses are closed, in front of a
separator. -/
structure Cuts (sep s : Text) (parts : List Text) : Prop where
  alone : splitFrom sep 0 0 [] s = parts
  before : net s = 0 → ∀ rest,
    splitFrom sep 0 0 [] (s ++ (sep ++ rest)) = parts ++ splitFrom sep 0 0 [] rest

theorem cuts_quiet {sep t : Text} (separates : Separates sep) (quiet : Quiet sep [' '] 0 t) :
    Cuts sep t [t] := by
  constructor
  · have whole := splitFrom_quiet (separates.quiet_next quiet (.inl rfl)) []
    rw [List.append_nil] at whole
    rw [whole]
    rfl
  · intro closed rest
    have blank : (sep ++ rest).head? = some ' ' := by
      obtain ⟨word, rfl, _⟩ := separates.blanks
      rfl
    rw [splitFrom_quiet (separates.quiet_next quiet (.inr blank)), closed, List.nil_append]
    exact separates.cut t rest

theorem Cuts.snoc {sep s t : Text} {parts : List Text} (separates : Separates sep)
    (cuts : Cuts sep s parts) (closed : net s = 0) (quiet : Quiet sep [' '] 0 t) :
    Cuts sep (s ++ sep ++ t) (parts ++ [t]) := by
  have single := cuts_quiet separates quiet
  constructor
  · rw [List.append_assoc, cuts.before closed, single.alone]
  · intro level rest
    rw [net_append, net_append, closed, separates.level, Int.zero_add, Int.zero_add] at level
    rw [List.append_assoc s, List.append_assoc s, List.append_assoc sep, cuts.before closed,
      single.before level, List.append_assoc]

/- Texts without white space around them. -/

structure Tight (white : Char → Bool) (t : Text) : Prop where
  first : ∃ c ∈ t.head?, white c = false
  last : ∃ c ∈ t.getLast?, white c = false

theorem Tight.trim_eq {white : Char → Bool} {t : Text} (tight : Tight white t) :
    trim white t = t := by
  obtain ⟨c, head, visible⟩ := tight.first
  obtain ⟨d, last, seen⟩ := tight.last
  have front : t.dropWhile white = t := by
    cases t with
    | nil => rfl
    | cons b rest =>
      cases head
      exact List.dropWhile_cons_of_neg (ne_true_of_eq_false visible)
  rw [trim, front, List.rdropWhile_eq_self_iff]
  intro nonempty
  rw [List.getLast?_eq_some_getLast nonempty] at last
  cases last
  exact ne_true_of_eq_false seen

theorem Tight.trim_between {white : Char → Bool} {front t back : Text} (tight : Tight white t)
    (before : ∀ c ∈ front, white c = true) (after : ∀ c ∈ back, white c = true) :
    trim white (front ++ (t ++ back)) = t := by
  obtain ⟨c, head, visible⟩ := tight.first
  have alone := tight.trim_eq
  have kept : ∀ more, (t ++ more).dropWhile white = t ++ more := by
    intro more
    cases t with
    | nil => cases head
    | cons b rest =>
      cases head
      exact List.dropWhile_cons_of_neg (ne_true_of_eq_false visible)
  have reversed : ∀ c ∈ back.reverse, white c = true := by
    intro c member
    exact after c (List.mem_reverse.mp member)
  rw [trim, ← List.append_nil t, kept [], List.append_nil] at alone
  rw [trim, List.dropWhile_append_of_pos before, kept, List.rdropWhile, List.reverse_append,
    List.dropWhile_append_of_pos reversed]
  exact alone

theorem Tight.append {white : Char → Bool} {s t : Text} (left : Tight white s)
    (right : Tight white t) (middle : Text) : Tight white (s ++ middle ++ t) := by
  obtain ⟨c, head, visible⟩ := left.first
  obtain ⟨d, last, seen⟩ := right.last
  constructor
  · refine ⟨c, ?_, visible⟩
    rw [List.append_assoc, List.head?_append, head]
    rfl
  · refine ⟨d, ?_, seen⟩
    rw [List.getLast?_append, last]
    rfl

/- What is printed is read back. -/

namespace Reader

variable {α ε : Type} (r : Reader α ε)

/-- The reader does not take the syntax for white space. -/
structure Sees : Prop where
  opening : r.white '(' = false
  closing : r.white ')' = false
  negation : r.white 'n' = false

theorem joined_snoc (op : α → α → α) (unit : Text → Except ε α) {parts : List Text}
    (some : parts ≠ []) (t : Text) :
    r.joined op unit (parts ++ [t]) = do
      let acc ← r.joined op unit parts
      return op acc (← unit t) := by
  cases parts with
  | nil => exact absurd rfl some
  | cons p ps =>
    simp only [joined, List.cons_append, List.foldlM_append, List.foldlM_cons, List.foldlM_nil,
      bind_assoc, bind_pure]

theorem joined_single (op : α → α → α) (unit : Text → Except ε α) (t : Text) :
    r.joined op unit [t] = unit t := by
  simp only [joined, List.foldlM_nil, bind_pure]

variable {r}

theorem splitTop_cuts {sep s : Text} {parts : List Text} (cuts : Cuts sep s parts)
    (tight : ∀ p ∈ parts, Tight r.white p) : splitTop r.white sep s = parts := by
  rw [splitTop, cuts.alone, List.map_congr_left fun p member => (tight p member).trim_eq]
  exact List.map_id parts

end Reader

namespace BoolExpr

section

variable {α β ε : Type} (r : Reader α ε) (text : β → Text) (leaf : β → α)

/-- An atom that is read alone. -/
structure AtomRead (x : β) : Prop where
  plain : ¬ notWord.isPrefixOf (text x) = true
  bare : ¬ ((text x).head? = some '(' ∧ (text x).getLast? = some ')')
  read : r.atom (text x) = .ok (leaf x)

/-- The text passes the cuts of its place in one piece. -/
structure Uncut (place : Place) (t : Text) : Prop where
  and : place ≠ .underAnd → Quiet andSep [' '] 0 t
  or : place = .alone → Quiet orSep [' '] 0 t

/-- The atoms are well, and every operand is cut off where it ends and nowhere else. -/
def Readable (well : β → Prop) : BoolExpr β → Place → Prop
  | atom x, place => well x ∧ Uncut place (text x)
  | not a, place => Readable well a .underAnd ∧ Uncut place (notWord ++ a.print text .underAnd)
  | and a b, place =>
    (Readable well a .underOr ∧ Readable well b .underAnd ∧ net (a.print text .underOr) = 0 ∧
      Quiet andSep [' '] 0 (b.print text .underAnd)) ∧
        (place ≠ .underOr → Quiet orSep [' '] 0 ((and a b).print text .underOr))
  | or a b, place =>
    (Readable well a .alone ∧ Readable well b .underOr ∧ net (a.print text .alone) = 0 ∧
      Quiet orSep [' '] 0 (b.print text .underOr)) ∧
        (place = .underOr → Quiet andSep [' '] 0 (parens ((or a b).print text .alone)))

def orParts : BoolExpr β → List Text
  | or a b => a.orParts ++ [b.print text .underOr]
  | e => [e.print text .underOr]

def andParts : BoolExpr β → List Text
  | and a b => a.andParts ++ [b.print text .underAnd]
  | e => [e.print text .underAnd]

end

section

variable {α β ε : Type} {r : Reader α ε} {text : β → Text} {well : β → Prop}

theorem orParts_ne_nil (e : BoolExpr β) : e.orParts text ≠ [] := by
  cases e with
  | or a b => exact List.append_ne_nil_of_right_ne_nil _ (List.cons_ne_nil _ _)
  | _ => exact List.cons_ne_nil _ _

theorem andParts_ne_nil (e : BoolExpr β) : e.andParts text ≠ [] := by
  cases e with
  | and a b => exact List.append_ne_nil_of_right_ne_nil _ (List.cons_ne_nil _ _)
  | _ => exact List.cons_ne_nil _ _

theorem tight_parens (sees : r.Sees) (t : Text) : Tight r.white (parens t) := by
  refine ⟨⟨'(', rfl, sees.opening⟩, ⟨')', ?_, sees.closing⟩⟩
  rw [parens, List.getLast?_cons, List.getLast?_concat]
  rfl

theorem print_tight (sees : r.Sees) (tight : ∀ x, Tight r.white (text x)) (e : BoolExpr β)
    (place : Place) : Tight r.white (e.print text place) := by
  induction e generalizing place with
  | atom x => exact tight x
  | not a ih =>
    obtain ⟨d, last, seen⟩ := (ih .underAnd).last
    refine ⟨⟨'n', rfl, sees.negation⟩, ⟨d, ?_, seen⟩⟩
    rw [print, List.getLast?_append, last]
    rfl
  | and a b iha ihb =>
    rw [print]
    split
    · exact tight_parens sees _
    · exact (iha .underOr).append (ihb .underAnd) andSep
  | or a b iha ihb =>
    rw [print]
    split
    · exact (iha .alone).append (ihb .underOr) orSep
    · exact tight_parens sees _

theorem cuts_or {e : BoolExpr β} (readable : e.Readable text well .alone) :
    Cuts orSep (e.print text .alone) (e.orParts text) := by
  induction e with
  | or a b iha _ =>
    obtain ⟨⟨left, _, closed, quiet⟩, _⟩ := readable
    exact (iha left).snoc separates_or closed quiet
  | and a b => exact cuts_quiet separates_or (readable.2 (by decide))
  | atom x => exact cuts_quiet separates_or (readable.2.or rfl)
  | not a => exact cuts_quiet separates_or (readable.2.or rfl)

theorem cuts_and {e : BoolExpr β} (readable : e.Readable text well .underOr) :
    Cuts andSep (e.print text .underOr) (e.andParts text) := by
  induction e with
  | and a b iha _ =>
    obtain ⟨⟨left, _, closed, quiet⟩, _⟩ := readable
    exact (iha left).snoc separates_and closed quiet
  | or a b => exact cuts_quiet separates_and (readable.2 rfl)
  | atom x => exact cuts_quiet separates_and (readable.2.and (by decide))
  | not a => exact cuts_quiet separates_and (readable.2.and (by decide))

end

end BoolExpr

namespace Reader

variable {α ε : Type} {r : Reader α ε}

theorem readAnd_cuts (unit : Text → Except ε α) {s : Text} {parts : List Text}
    (cuts : Cuts andSep s parts) (tight : ∀ p ∈ parts, Tight r.white p) :
    r.readAnd unit s = r.joined r.and unit parts := by
  rw [readAnd, splitTop_cuts cuts tight]

theorem readOr_cuts (unit : Text → Except ε α) {s : Text} {parts : List Text}
    (cuts : Cuts orSep s parts) (tight : ∀ p ∈ parts, Tight r.white p) :
    r.readOr unit s = r.joined r.or (r.readAnd unit) parts := by
  rw [readOr, splitTop_cuts cuts tight]

theorem readAnd_quiet (unit : Text → Except ε α) {t : Text} (quiet : Quiet andSep [' '] 0 t)
    (tight : Tight r.white t) : r.readAnd unit t = unit t := by
  rw [readAnd_cuts unit (cuts_quiet separates_and quiet) (List.forall_mem_singleton.mpr tight),
    joined_single]

theorem readOr_quiet (unit : Text → Except ε α) {t : Text} (quiet : Quiet orSep [' '] 0 t)
    (tight : Tight r.white t) : r.readOr unit t = r.readAnd unit t := by
  rw [readOr_cuts unit (cuts_quiet separates_or quiet) (List.forall_mem_singleton.mpr tight),
    joined_single]

theorem readNot_negated {t : Text} (tight : Tight r.white (notWord ++ t)) (fuel : Nat) :
    r.readNot (fuel + 1) (notWord ++ t) = do return r.not (← r.readNot fuel t) := by
  have front : notWord.isPrefixOf (notWord ++ t) = true :=
    List.isPrefixOf_iff_prefix.mpr (List.prefix_append _ _)
  rw [readNot, tight.trim_eq, if_pos front, List.drop_left]

theorem readNot_parens (sees : r.Sees) (t : Text) (fuel : Nat) :
    r.readNot (fuel + 1) (parens t) = r.readOr (r.readNot fuel) t := by
  have front : ¬ notWord.isPrefixOf (parens t) = true := by
    intro negated
    cases List.isPrefixOf_iff_prefix.mp negated with
    | intro more same => cases same
  have both : (parens t).head? = some '(' ∧ (parens t).getLast? = some ')' := by
    refine ⟨rfl, ?_⟩
    rw [parens, List.getLast?_cons, List.getLast?_concat]
    rfl
  rw [readNot, (BoolExpr.tight_parens sees t).trim_eq, if_neg front, if_pos both, parens,
    List.tail_cons, List.dropLast_concat]

/-- The reader of the texts of a place. -/
def readAt (r : Reader α ε) (fuel : Nat) : Place → Text → Except ε α
  | .alone => r.readOr (r.readNot fuel)
  | .underOr => r.readAnd (r.readNot fuel)
  | .underAnd => r.readNot fuel

end Reader

namespace BoolExpr

variable {α β ε : Type} {r : Reader α ε} {text : β → Text} {leaf : β → α} {well : β → Prop}

theorem orParts_tight (sees : r.Sees) (tight : ∀ x, Tight r.white (text x)) (e : BoolExpr β) :
    ∀ p ∈ e.orParts text, Tight r.white p := by
  induction e with
  | or a b iha _ =>
    intro p member
    rcases List.mem_append.mp member with early | late
    · exact iha p early
    · rw [List.mem_singleton.mp late]
      exact print_tight sees tight b .underOr
  | _ => exact List.forall_mem_singleton.mpr (print_tight sees tight _ .underOr)

theorem andParts_tight (sees : r.Sees) (tight : ∀ x, Tight r.white (text x)) (e : BoolExpr β) :
    ∀ p ∈ e.andParts text, Tight r.white p := by
  induction e with
  | and a b iha _ =>
    intro p member
    rcases List.mem_append.mp member with early | late
    · exact iha p early
    · rw [List.mem_singleton.mp late]
      exact print_tight sees tight b .underAnd
  | _ => exact List.forall_mem_singleton.mpr (print_tight sees tight _ .underAnd)

/-- A text that a negation or an atom is printed as, read at its place. -/
theorem readAt_uncut {place : Place} {t : Text} {fuel : Nat} {v : α} (uncut : Uncut place t)
    (tight : Tight r.white t) (read : r.readNot fuel t = .ok v) : r.readAt fuel place t = .ok v := by
  cases place with
  | underAnd => exact read
  | underOr => exact (Reader.readAnd_quiet _ (uncut.and (by decide)) tight).trans read
  | alone =>
    refine (Reader.readOr_quiet _ (uncut.or rfl) tight).trans ?_
    exact (Reader.readAnd_quiet _ (uncut.and (by decide)) tight).trans read

theorem readAnd_operands (sees : r.Sees) (tight : ∀ x, Tight r.white (text x)) {a b : BoolExpr β}
    {unit : Text → Except ε α} {va vb : α} (left : a.Readable text well .underOr)
    (closed : net (a.print text .underOr) = 0)
    (quiet : Quiet andSep [' '] 0 (b.print text .underAnd))
    (first : r.readAnd unit (a.print text .underOr) = .ok va)
    (second : unit (b.print text .underAnd) = .ok vb) :
    r.readAnd unit (a.print text .underOr ++ andSep ++ b.print text .underAnd) =
      .ok (r.and va vb) := by
  have front := andParts_tight sees tight a
  rw [Reader.readAnd_cuts unit (cuts_and left) front] at first
  have parts : ∀ p ∈ a.andParts text ++ [b.print text .underAnd], Tight r.white p := by
    intro p member
    rcases List.mem_append.mp member with early | late
    · exact front p early
    · rw [List.mem_singleton.mp late]
      exact print_tight sees tight b .underAnd
  rw [Reader.readAnd_cuts unit ((cuts_and left).snoc separates_and closed quiet) parts,
    r.joined_snoc _ _ (andParts_ne_nil a), first, second]
  rfl

theorem readOr_operands (sees : r.Sees) (tight : ∀ x, Tight r.white (text x)) {a b : BoolExpr β}
    {unit : Text → Except ε α} {va vb : α} (left : a.Readable text well .alone)
    (closed : net (a.print text .alone) = 0)
    (quiet : Quiet orSep [' '] 0 (b.print text .underOr))
    (first : r.readOr unit (a.print text .alone) = .ok va)
    (second : r.readAnd unit (b.print text .underOr) = .ok vb) :
    r.readOr unit (a.print text .alone ++ orSep ++ b.print text .underOr) =
      .ok (r.or va vb) := by
  have front := orParts_tight sees tight a
  rw [Reader.readOr_cuts unit (cuts_or left) front] at first
  have parts : ∀ p ∈ a.orParts text ++ [b.print text .underOr], Tight r.white p := by
    intro p member
    rcases List.mem_append.mp member with early | late
    · exact front p early
    · rw [List.mem_singleton.mp late]
      exact print_tight sees tight b .underOr
  rw [Reader.readOr_cuts unit ((cuts_or left).snoc separates_or closed quiet) parts,
    r.joined_snoc _ _ (orParts_ne_nil a), first, second]
  rfl

theorem length_parens (t : Text) : (parens t).length = t.length + 2 := by
  rw [parens, List.length_cons, List.length_append]
  rfl

/-- What is printed is read back at its place. -/
theorem readAt_print (sees : r.Sees) (tight : ∀ x, Tight r.white (text x))
    (atoms : ∀ x, well x → AtomRead r text leaf x) (e : BoolExpr β) {place : Place} {fuel : Nat}
    (readable : e.Readable text well place) (enough : (e.print text place).length < fuel) :
    r.readAt fuel place (e.print text place) = .ok (e.value r leaf) := by
  induction e generalizing place fuel with
  | atom x =>
    obtain ⟨good, uncut⟩ := readable
    have atom := atoms x good
    apply readAt_uncut uncut (tight x)
    cases fuel with
    | zero => exact absurd enough (Nat.not_lt_zero _)
    | succ fuel =>
      show r.readNot (fuel + 1) (text x) = _
      rw [Reader.readNot, (tight x).trim_eq, if_neg atom.plain, if_neg atom.bare]
      exact atom.read
  | not a ih =>
    have whole : Tight r.white (notWord ++ a.print text .underAnd) :=
      print_tight sees tight (not a) place
    obtain ⟨inner, uncut⟩ := readable
    apply readAt_uncut uncut whole
    cases fuel with
    | zero => exact absurd enough (Nat.not_lt_zero _)
    | succ fuel =>
      have shorter : (a.print text .underAnd).length < fuel := by
        rw [print, List.length_append] at enough
        have four : notWord.length = 4 := rfl
        omega
      rw [Reader.readNot_negated whole, show r.readNot fuel _ = _ from ih inner shorter]
      rfl
  | and a b iha ihb =>
    have trimmed := print_tight sees tight (and a b) .underOr
    obtain ⟨⟨left, right, closed, quiet⟩, whole⟩ := readable
    have core : ∀ fuel, ((and a b).print text .underOr).length < fuel →
        r.readAnd (r.readNot fuel) ((and a b).print text .underOr) =
          .ok ((and a b).value r leaf) := by
      intro fuel enough
      rw [print, if_neg (by decide), List.length_append, List.length_append] at enough
      exact readAnd_operands sees tight left closed quiet (iha left (by omega))
        (ihb right (by omega))
    cases place with
    | underOr => exact core fuel enough
    | alone => exact (Reader.readOr_quiet _ (whole (by decide)) trimmed).trans (core fuel enough)
    | underAnd =>
      cases fuel with
      | zero => exact absurd enough (Nat.not_lt_zero _)
      | succ fuel =>
        have inner := core fuel (by
          rw [show (and a b).print text .underAnd = parens ((and a b).print text .underOr) from rfl,
            length_parens] at enough
          omega)
        refine (Reader.readNot_parens sees _ fuel).trans ?_
        exact (Reader.readOr_quiet _ (whole (by decide)) trimmed).trans inner
  | or a b iha ihb =>
    have trimmed := print_tight sees tight (or a b) .underAnd
    obtain ⟨⟨left, right, closed, quiet⟩, whole⟩ := readable
    have core : ∀ fuel, ((or a b).print text .alone).length < fuel →
        r.readOr (r.readNot fuel) ((or a b).print text .alone) = .ok ((or a b).value r leaf) := by
      intro fuel enough
      rw [print, if_pos rfl, List.length_append, List.length_append] at enough
      exact readOr_operands sees tight left closed quiet (iha left (by omega))
        (ihb right (by omega))
    have bracketed : ∀ fuel, (parens ((or a b).print text .alone)).length < fuel →
        r.readNot fuel (parens ((or a b).print text .alone)) = .ok ((or a b).value r leaf) := by
      intro fuel enough
      rw [length_parens] at enough
      cases fuel with
      | zero => exact absurd enough (Nat.not_lt_zero _)
      | succ fuel => exact (Reader.readNot_parens sees _ fuel).trans (core fuel (by omega))
    cases place with
    | alone => exact core fuel enough
    | underAnd => exact bracketed fuel enough
    | underOr => exact (Reader.readAnd_quiet _ (whole rfl) trimmed).trans (bracketed fuel enough)

/-- A whole expression whose operands are cut off where they end is read back. -/
theorem read_print (sees : r.Sees) (tight : ∀ x, Tight r.white (text x))
    (atoms : ∀ x, well x → AtomRead r text leaf x) {e : BoolExpr β}
    (readable : e.Readable text well .alone) :
    r.read (e.print text .alone) = .ok (e.value r leaf) :=
  readAt_print sees tight atoms e readable (Nat.lt_succ_self _)

end BoolExpr

/- Atoms without parentheses and connectives. Their expressions are read back, all of them. -/

/-- A text that closes the parentheses it opens, and no others: inside parentheses nothing of
it is at depth zero. -/
structure Closed (t : Text) : Prop where
  level : net t = 0
  inside : ∀ (sep next : Text) (depth : Int), 0 < depth → Quiet sep next depth t

namespace Closed

theorem of_flat {t : Text} (flat : ∀ c ∈ t, c ≠ '(' ∧ c ≠ ')') : Closed t := by
  have still : ∀ (depth : Int), ∀ c ∈ t, depthAfter depth c = depth := by
    intro depth c member
    rw [depthAfter, if_neg (flat c member).1, if_neg (flat c member).2]
  clear flat
  induction t with
  | nil => exact ⟨rfl, fun _ _ _ _ => trivial⟩
  | cons c rest ih =>
    obtain ⟨level, inside⟩ := ih fun depth d member => still depth d (List.mem_cons_of_mem _ member)
    constructor
    · rw [net_cons, level, still 0 c List.mem_cons_self]
      rfl
    · intro sep next depth positive
      rw [Quiet, still depth c List.mem_cons_self]
      exact ⟨fun here => absurd here.1 (by omega), inside sep next depth positive⟩

theorem append {s t : Text} (left : Closed s) (right : Closed t) : Closed (s ++ t) := by
  constructor
  · rw [net_append, left.level, right.level]
    rfl
  · intro sep next depth positive
    rw [quiet_append, left.level, Int.add_zero]
    exact ⟨left.inside _ _ _ positive, right.inside _ _ _ positive⟩

/-- From any depth that is not negative. -/
theorem quiet_parens {t : Text} (closed : Closed t) {sep : Text} (separates : Separates sep)
    (next : Text) {depth : Int} (natural : 0 ≤ depth) : Quiet sep next depth (BoolText.parens t) := by
  obtain ⟨word, rfl, _⟩ := separates.blanks
  have opened : depthAfter depth '(' = depth + 1 := rfl
  refine ⟨fun here => Bool.false_ne_true here.2, ?_⟩
  rw [opened, quiet_append, closed.level, Int.add_zero]
  refine ⟨closed.inside _ _ _ (by omega), fun here => ?_, trivial⟩
  cases here.2

theorem parens {t : Text} (closed : Closed t) : Closed (parens t) := by
  refine ⟨(net_parens t).trans closed.level, fun sep next depth positive => ?_⟩
  have opened : depthAfter depth '(' = depth + 1 := rfl
  have closing : depthAfter (depth + 1) ')' = depth := by
    show depth + 1 - 1 = depth
    omega
  refine ⟨fun here => ?_, ?_⟩
  · rw [opened] at here
    omega
  · rw [opened, quiet_append, closed.level, Int.add_zero]
    refine ⟨closed.inside _ _ _ (by omega), fun here => ?_, trivial⟩
    rw [closing] at here
    omega

end Closed

/-- No separator begins in the text or in a blank in front of it. -/
def Apart (sep t : Text) : Prop := Quiet sep [' '] 0 (' ' :: t)

theorem Apart.quiet {sep t : Text} (apart : Apart sep t) : Quiet sep [' '] 0 t := apart.2

/-- An atom without parentheses in which the connectives are no words. -/
structure PlainText (t : Text) : Prop where
  flat : ∀ c ∈ t, c ≠ '(' ∧ c ≠ ')'
  or : ¬ orSep <:+: ' ' :: (t ++ [' '])
  and : ¬ andSep <:+: ' ' :: (t ++ [' '])

theorem quiet_of_not_infix {sep next : Text} {t : Text} (outside : ¬ sep <:+: t ++ next)
    (depth : Int) : Quiet sep next depth t := by
  induction t generalizing depth with
  | nil => trivial
  | cons c rest ih =>
    refine ⟨fun here => outside ?_, ih (fun inner => outside ?_) _⟩
    · exact (List.isPrefixOf_iff_prefix.mp here.2).isInfix
    · exact inner.trans (List.suffix_cons c _).isInfix

theorem PlainText.apart {t : Text} (plain : PlainText t) {sep : Text}
    (either : sep = orSep ∨ sep = andSep) : Apart sep t := by
  rcases either with rfl | rfl
  · exact quiet_of_not_infix plain.or 0
  · exact quiet_of_not_infix plain.and 0

theorem apart_parens {t : Text} (closed : Closed t) {sep : Text}
    (either : sep = orSep ∨ sep = andSep) : Apart sep (parens t) := by
  rcases either with rfl | rfl
  · exact ⟨fun here => Bool.false_ne_true here.2, closed.quiet_parens separates_or _ (Int.le_refl 0)⟩
  · exact ⟨fun here => Bool.false_ne_true here.2, closed.quiet_parens separates_and _ (Int.le_refl 0)⟩

theorem apart_not {t : Text} {sep : Text} (either : sep = orSep ∨ sep = andSep)
    (apart : Apart sep t) : Apart sep (notWord ++ t) := by
  have front : ∀ next : Text, Quiet sep (' ' :: next) 0 [' ', 'n', 'o', 't'] := by
    intro next
    rcases either with rfl | rfl <;>
      exact ⟨fun here => Bool.false_ne_true here.2, fun here => Bool.false_ne_true here.2,
        fun here => Bool.false_ne_true here.2, fun here => Bool.false_ne_true here.2, trivial⟩
  show Quiet sep [' '] 0 ([' ', 'n', 'o', 't'] ++ ' ' :: t)
  exact quiet_append.mpr ⟨front _, apart⟩

/-- An `and` is no `or`. -/
theorem apart_and {s t : Text} (left : Apart orSep s) (closed : net s = 0)
    (right : Apart orSep t) : Apart orSep (s ++ andSep ++ t) := by
  have word : ∀ next : Text, Quiet orSep (' ' :: next) 0 [' ', 'a', 'n', 'd'] := by
    intro next
    exact ⟨fun here => Bool.false_ne_true here.2, fun here => Bool.false_ne_true here.2,
      fun here => Bool.false_ne_true here.2, fun here => Bool.false_ne_true here.2, trivial⟩
  have behind : Quiet orSep [' '] 0 ([' ', 'a', 'n', 'd'] ++ ' ' :: t) :=
    quiet_append.mpr ⟨word _, right⟩
  rw [Apart, List.append_assoc, ← List.cons_append, quiet_append, net_cons, closed]
  exact ⟨separates_or.quiet_next left (.inr rfl), behind⟩

namespace BoolExpr

variable {α β ε : Type} {r : Reader α ε} {text : β → Text} {leaf : β → α}

theorem print_closed (plain : ∀ x, PlainText (text x)) (e : BoolExpr β) (place : Place) :
    Closed (e.print text place) := by
  have flat : ∀ t : Text, (∀ c ∈ t, c ≠ '(' ∧ c ≠ ')') → Closed t := fun t => Closed.of_flat
  induction e generalizing place with
  | atom x => exact flat _ (plain x).flat
  | not a ih => exact (flat notWord (by simp [notWord])).append (ih .underAnd)
  | and a b iha ihb =>
    have inner := ((iha .underOr).append (flat andSep (by simp [andSep]))).append (ihb .underAnd)
    rw [print]
    split
    · exact inner.parens
    · exact inner
  | or a b iha ihb =>
    have inner := ((iha .alone).append (flat orSep (by simp [orSep]))).append (ihb .underOr)
    rw [print]
    split
    · exact inner
    · exact inner.parens

theorem apart_underAnd (plain : ∀ x, PlainText (text x)) (e : BoolExpr β) {sep : Text}
    (either : sep = orSep ∨ sep = andSep) : Apart sep (e.print text .underAnd) := by
  induction e with
  | atom x => exact (plain x).apart either
  | not a ih => exact apart_not either ih
  | and a b =>
    exact apart_parens (print_closed plain (and a b) .alone) either
  | or a b => exact apart_parens (print_closed plain (or a b) .alone) either

theorem apart_underOr (plain : ∀ x, PlainText (text x)) (e : BoolExpr β) :
    Apart orSep (e.print text .underOr) := by
  induction e with
  | and a b iha _ =>
    exact apart_and iha (print_closed plain a .underOr).level (apart_underAnd plain b (.inl rfl))
  | atom x => exact apart_underAnd plain (atom x) (.inl rfl)
  | not a => exact apart_underAnd plain (not a) (.inl rfl)
  | or a b => exact apart_underAnd plain (or a b) (.inl rfl)

/-- Plain atoms need no condition on the expression. -/
theorem readable_of_plain {well : β → Prop} (plain : ∀ x, PlainText (text x))
    (every : ∀ x, well x) (e : BoolExpr β) (place : Place) : e.Readable text well place := by
  have uncut : ∀ (e : BoolExpr β) (place : Place), Uncut place (e.print text .underAnd) :=
    fun e place => ⟨fun _ => (apart_underAnd plain e (.inr rfl)).quiet,
      fun _ => (apart_underAnd plain e (.inl rfl)).quiet⟩
  induction e generalizing place with
  | atom x => exact ⟨every x, uncut (atom x) place⟩
  | not a ih => exact ⟨ih .underAnd, uncut (not a) place⟩
  | and a b iha ihb =>
    exact ⟨⟨iha .underOr, ihb .underAnd, (print_closed plain a .underOr).level,
      (apart_underAnd plain b (.inr rfl)).quiet⟩, fun _ => (apart_underOr plain (and a b)).quiet⟩
  | or a b iha ihb =>
    exact ⟨⟨iha .alone, ihb .underOr, (print_closed plain a .alone).level,
      (apart_underOr plain b).quiet⟩, fun _ => (apart_underAnd plain (or a b) (.inr rfl)).quiet⟩

/-- Every expression over plain atoms is read back. -/
theorem read_print_plain (sees : r.Sees) (tight : ∀ x, Tight r.white (text x))
    (plain : ∀ x, PlainText (text x)) (atoms : ∀ x, AtomRead r text leaf x) (e : BoolExpr β) :
    r.read (e.print text .alone) = .ok (e.value r leaf) :=
  read_print sees tight (fun x _ => atoms x) (readable_of_plain plain atoms e .alone)

/-- The operands of an `and` in parentheses, those it needs and others. -/
theorem read_and_parens (sees : r.Sees) (tight : ∀ x, Tight r.white (text x))
    (plain : ∀ x, PlainText (text x)) (atoms : ∀ x, AtomRead r text leaf x) (a b : BoolExpr β) :
    r.read (parens (a.print text .alone) ++ andSep ++ parens (b.print text .alone)) =
      .ok (r.and (a.value r leaf) (b.value r leaf)) := by
  have left := print_closed plain a .alone
  have right := print_closed plain b .alone
  have parts : ∀ p ∈ [parens (a.print text .alone)] ++ [parens (b.print text .alone)],
      Tight r.white p := by
    intro p member
    rcases List.mem_append.mp member with first | second
    · rw [List.mem_singleton.mp first]
      exact tight_parens sees _
    · rw [List.mem_singleton.mp second]
      exact tight_parens sees _
  have cuts : Cuts andSep (parens (a.print text .alone) ++ andSep ++ parens (b.print text .alone))
      ([parens (a.print text .alone)] ++ [parens (b.print text .alone)]) :=
    (cuts_quiet separates_and (apart_parens left (.inr rfl)).quiet).snoc separates_and
      left.parens.level (apart_parens right (.inr rfl)).quiet
  have whole : Tight r.white
      (parens (a.print text .alone) ++ andSep ++ parens (b.print text .alone)) :=
    (tight_parens sees _).append (tight_parens sees _) andSep
  have quiet := (apart_and (apart_parens left (.inl rfl)) left.parens.level
    (apart_parens right (.inl rfl))).quiet
  -- One level of fuel for the parentheses, the rest for what is inside.
  have operand : ∀ (e : BoolExpr β) (fuel : Nat), (e.print text .alone).length < fuel →
      r.readNot (fuel + 1) (parens (e.print text .alone)) = .ok (e.value r leaf) := by
    intro e fuel enough
    rw [Reader.readNot_parens sees]
    exact readAt_print sees tight (fun x _ => atoms x) e (readable_of_plain plain atoms e .alone) enough
  rw [Reader.read, Reader.readOr_quiet _ quiet whole, Reader.readAnd_cuts _ cuts parts,
    r.joined_snoc _ _ (List.cons_ne_nil _ _), r.joined_single, operand a, operand b]
  · rfl
  · simp only [List.length_append, length_parens]
    omega
  · simp only [List.length_append, length_parens]
    omega

end BoolExpr

/- Atoms made of words with blanks between them. -/

def spaced (words : List Text) : Text := [' '].intercalate words

theorem spaced_cons (w : Text) {rest : List Text} (more : rest ≠ []) :
    spaced (w :: rest) = w ++ ' ' :: spaced rest := by
  rw [spaced, List.intercalate_cons_of_ne_nil more, List.append_assoc]
  rfl

theorem mem_spaced {words : List Text} {c : Char} (member : c ∈ spaced words) :
    c = ' ' ∨ ∃ w ∈ words, c ∈ w := by
  induction words with
  | nil => cases member
  | cons w rest ih =>
    by_cases more : rest = []
    · rw [more, spaced, List.intercalate_singleton] at member
      exact .inr ⟨w, List.mem_cons_self, member⟩
    · rw [spaced_cons w more, List.mem_append, List.mem_cons] at member
      rcases member with here | blank | later
      · exact .inr ⟨w, List.mem_cons_self, here⟩
      · exact .inl blank
      · rcases ih later with blank | ⟨v, inside, there⟩
        · exact .inl blank
        · exact .inr ⟨v, List.mem_cons_of_mem _ inside, there⟩

theorem spaced_tight {white : Char → Bool} {words : List Text} (some : words ≠ [])
    (solid : ∀ w ∈ words, w ≠ [] ∧ ∀ c ∈ w, white c = false) : Tight white (spaced words) := by
  have word : ∀ w ∈ words, Tight white w := by
    intro w member
    obtain ⟨nonempty, visible⟩ := solid w member
    refine ⟨⟨_, List.head?_eq_some_head nonempty, visible _ (List.head_mem nonempty)⟩, ?_⟩
    exact ⟨_, List.getLast?_eq_some_getLast nonempty, visible _ (List.getLast_mem nonempty)⟩
  clear solid
  induction words with
  | nil => exact absurd rfl some
  | cons w rest ih =>
    have first := word w List.mem_cons_self
    by_cases more : rest = []
    · rwa [more, spaced, List.intercalate_singleton]
    · have others := ih more fun v member => word v (List.mem_cons_of_mem _ member)
      rw [spaced_cons w more, ← List.singleton_append, ← List.append_assoc]
      exact first.append others [' ']

/-- Words of which none is a connective, a parenthesis or cut by white space. -/
structure PlainWords (white : Char → Bool) (words : List Text) : Prop where
  some : words ≠ []
  solid : ∀ w ∈ words, w ≠ [] ∧ ∀ c ∈ w, white c = false ∧ c ≠ '(' ∧ c ≠ ')'
  or : ['o', 'r'] ∉ words
  and : ['a', 'n', 'd'] ∉ words
  not : ['n', 'o', 't'] ∉ words

theorem infix_spaced {words : List Text} {word : Text} (some : words ≠ [])
    (solid : ∀ w ∈ words, ' ' ∉ w) (nonempty : word ≠ []) (blank : ' ' ∉ word)
    (inside : ' ' :: (word ++ [' ']) <:+: ' ' :: (spaced words ++ [' '])) : word ∈ words := by
  obtain ⟨front, behind, whole⟩ := inside
  have left : (front ++ ' ' :: (word ++ ' ' :: behind)).splitOn ' ' =
      front.splitOn ' ' ++ word :: behind.splitOn ' ' := by
    rw [List.splitOn_append_cons_self, List.splitOn_append_cons_self_of_not_mem blank]
  have right : ([] ++ ' ' :: (spaced words ++ ' ' :: [])).splitOn ' ' =
      [[]] ++ (words ++ [[]]) := by
    rw [List.splitOn_append_cons_self, List.splitOn_append_cons_self, spaced,
      List.splitOn_intercalate ' ' solid some]
    rfl
  have same : front ++ ' ' :: (word ++ ' ' :: behind) = [] ++ ' ' :: (spaced words ++ ' ' :: []) := by
    simpa using whole
  have member : word ∈ [[]] ++ (words ++ [[]]) := by
    rw [← right, ← same, left]
    exact List.mem_append_right _ List.mem_cons_self
  simpa [nonempty] using member

theorem prefix_spaced {words : List Text} {word : Text} (some : words ≠ [])
    (solid : ∀ w ∈ words, ' ' ∉ w) (blank : ' ' ∉ word)
    (begins : word ++ [' '] <+: spaced words) : word ∈ words := by
  obtain ⟨behind, whole⟩ := begins
  have left : (word ++ ' ' :: behind).splitOn ' ' = word :: behind.splitOn ' ' :=
    List.splitOn_append_cons_self_of_not_mem blank behind
  have same : word ++ ' ' :: behind = spaced words := by
    simpa using whole
  rw [same, spaced, List.splitOn_intercalate ' ' solid some] at left
  rw [left]
  exact List.mem_cons_self

namespace PlainWords

variable {white : Char → Bool} {words : List Text}

theorem unblanked (plain : PlainWords white words) (blank : white ' ' = true) :
    ∀ w ∈ words, ' ' ∉ w := by
  intro w member inside
  exact Bool.false_ne_true (((plain.solid w member).2 ' ' inside).1.symm.trans blank)

theorem text (plain : PlainWords white words) (blank : white ' ' = true) :
    PlainText (spaced words) := by
  have unblanked := plain.unblanked blank
  constructor
  · intro c member
    rcases mem_spaced member with rfl | ⟨w, inside, here⟩
    · decide
    · exact ((plain.solid w inside).2 c here).2
  · intro inside
    exact plain.or (infix_spaced plain.some unblanked (by decide) (by decide) inside)
  · intro inside
    exact plain.and (infix_spaced plain.some unblanked (by decide) (by decide) inside)

theorem tight (plain : PlainWords white words) : Tight white (spaced words) :=
  spaced_tight plain.some fun w member =>
    ⟨(plain.solid w member).1, fun c here => ((plain.solid w member).2 c here).1⟩

theorem unnegated (plain : PlainWords white words) (blank : white ' ' = true) :
    ¬ notWord.isPrefixOf (spaced words) = true := by
  intro begins
  exact plain.not (prefix_spaced plain.some (plain.unblanked blank) (by decide)
    (List.isPrefixOf_iff_prefix.mp begins))

/-- Nothing in plain words is cut. -/
theorem read {α ε : Type} {r : Reader α ε} (plain : PlainWords r.white words)
    (blank : r.white ' ' = true) : r.read (spaced words) = r.atom (spaced words) := by
  have text := plain.text blank
  have bare : ¬ ((spaced words).head? = Option.some '(' ∧
      (spaced words).getLast? = Option.some ')') :=
    fun both => (text.flat _ (List.mem_of_mem_head? both.1)).1 rfl
  rw [Reader.read, Reader.readOr_quiet _ (text.apart (.inl rfl)).quiet plain.tight,
    Reader.readAnd_quiet _ (text.apart (.inr rfl)).quiet plain.tight, Reader.readNot,
    plain.tight.trim_eq, if_neg (plain.unnegated blank), if_neg bare]

end PlainWords

end BoolText
