import BitBeak.Lib.BoolText
import BitBeak.Lib.Bytes

/-! Boolean expressions whose texts differ in front only: a front without connectives and
parentheses stays in the first atom, and what the two texts stand for differs by what is
read of that atom. -/
namespace BoolText
open Wire (ok_of_bind)

/- Fronts. -/

/-- A front that is cut nowhere, negates nothing and opens no parenthesis. -/
structure Front (white : Char → Bool) (front : Text) : Prop where
  tight : Tight white front
  or : ∀ next, Quiet orSep next 0 front
  and : ∀ next, Quiet andSep next 0 front
  level : net front = 0
  bare : front.head? ≠ some '('
  plain : ∀ t, ¬ notWord.isPrefixOf (front ++ t) = true

theorem quiet_of_visible {sep next t : Text} (separates : Separates sep) (visible : ' ' ∉ t)
    (depth : Int) : Quiet sep next depth t := by
  obtain ⟨word, rfl, _⟩ := separates.blanks
  induction t generalizing depth with
  | nil => trivial
  | cons c rest ih =>
    refine ⟨fun here => visible ?_, ih (fun inside => visible (List.mem_cons_of_mem c inside)) _⟩
    obtain ⟨more, whole⟩ := List.isPrefixOf_iff_prefix.mp here.2
    rw [(List.cons.inj whole).1]
    exact List.mem_cons_self

/-- What the first part begins with is kept, and the other parts do not depend on it. -/
theorem splitFrom_part (sep : Text) (skip : Nat) (depth : Int) (t : Text) :
    ∃ more rest, ∀ part, splitFrom sep skip depth part t = (part ++ more) :: rest := by
  induction t generalizing skip depth with
  | nil =>
    refine ⟨[], [], fun part => ?_⟩
    cases skip <;> rw [splitFrom, List.append_nil]
  | cons c t ih =>
    cases skip with
    | succ skip => exact ih skip depth
    | zero =>
      by_cases here : depthAfter depth c = 0 ∧ sep.isPrefixOf (c :: t)
      · refine ⟨[], splitFrom sep (sep.length - 1) (depthAfter depth c) [] t, fun part => ?_⟩
        rw [splitFrom, if_pos here, List.append_nil]
      · obtain ⟨more, rest, split⟩ := ih 0 (depthAfter depth c)
        refine ⟨c :: more, rest, fun part => ?_⟩
        rw [splitFrom, if_neg here, split, List.append_assoc]
        rfl

theorem Tight.trim_front {white : Char → Bool} {front : Text} (tight : Tight white front)
    (t : Text) : trim white (front ++ t) = front ++ t.rdropWhile white := by
  obtain ⟨c, head, visible⟩ := tight.first
  obtain ⟨d, last, seen⟩ := tight.last
  have whole : (front ++ t).dropWhile white = front ++ t := by
    cases front with
    | nil => cases head
    | cons b rest =>
      cases head
      exact List.dropWhile_cons_of_neg (ne_true_of_eq_false visible)
  rw [trim, whole]
  clear whole
  induction t using List.reverseRecOn with
  | nil =>
    rw [List.append_nil, List.rdropWhile_nil, List.append_nil, List.rdropWhile_eq_self_iff]
    intro nonempty
    rw [List.getLast?_eq_some_getLast nonempty] at last
    cases last
    exact ne_true_of_eq_false seen
  | append_singleton t e ih =>
    by_cases blank : white e = true
    · rw [← List.append_assoc, List.rdropWhile_concat_pos _ _ _ blank,
        List.rdropWhile_concat_pos _ _ _ blank, ih]
    · rw [← List.append_assoc, List.rdropWhile_concat_neg _ _ _ blank,
        List.rdropWhile_concat_neg _ _ _ blank, List.append_assoc]

theorem splitTop_front {white : Char → Bool} {sep : Text} (t : Text) :
    ∃ more rest, ∀ front, Tight white front → net front = 0 →
      Quiet sep t 0 front → splitTop white sep (front ++ t) = (front ++ more) :: rest := by
  obtain ⟨more, rest, split⟩ := splitFrom_part sep 0 0 t
  refine ⟨more.rdropWhile white, rest.map (trim white), fun front tight level quiet => ?_⟩
  rw [splitTop, splitFrom_quiet quiet, level, Int.zero_add, List.nil_append, split, List.map_cons,
    tight.trim_front]

namespace Reader

variable {α ε : Type} {r : Reader α ε} {rel : α → α → Prop}

/-- A relation that the connectives keep on their left. -/
structure Congruent (r : Reader α ε) (rel : α → α → Prop) : Prop where
  or : ∀ {v w}, rel v w → ∀ u, rel (r.or v u) (r.or w u)
  and : ∀ {v w}, rel v w → ∀ u, rel (r.and v u) (r.and w u)

/-- Where the one is read, so is the other, and what they stand for is related. -/
def Carries (rel : α → α → Prop) (x y : Except ε α) : Prop :=
  ∀ v, x = .ok v → ∃ w, y = .ok w ∧ rel v w

theorem joined_carries {op : α → α → α} (keeps : ∀ {v w}, rel v w → ∀ u, rel (op v u) (op w u))
    {unit : Text → Except ε α} {s t : Text} (first : Carries rel (unit s) (unit t))
    (rest : List Text) :
    Carries rel (r.joined op unit (s :: rest)) (r.joined op unit (t :: rest)) := by
  induction rest using List.reverseRecOn with
  | nil =>
    rw [joined_single, joined_single]
    exact first
  | append_singleton rest p ih =>
    intro v read
    rw [← List.cons_append, joined_snoc r op unit (List.cons_ne_nil _ _)] at read ⊢
    obtain ⟨acc, front, read⟩ := ok_of_bind read
    obtain ⟨u, last, read⟩ := ok_of_bind read
    cases read
    obtain ⟨acc', front', related⟩ := ih acc front
    rw [front', last]
    exact ⟨op acc' u, rfl, keeps related u⟩

theorem readNot_front {front : Text} (fronted : Front r.white front) (fuel : Nat) (t : Text) :
    r.readNot (fuel + 1) (front ++ t) = r.atom (front ++ t.rdropWhile r.white) := by
  have bare : ¬ ((front ++ t.rdropWhile r.white).head? = some '(' ∧
      (front ++ t.rdropWhile r.white).getLast? = some ')') := by
    rintro ⟨head, _⟩
    obtain ⟨c, first, _⟩ := fronted.tight.first
    apply fronted.bare
    rw [List.head?_append, Option.mem_def.mp first] at head
    rw [Option.mem_def.mp first]
    exact head
  rw [readNot, fronted.tight.trim_front, if_neg (fronted.plain _), if_neg bare]

theorem readAnd_carries (keeps : r.Congruent rel) {front front' : Text}
    (left : Front r.white front) (right : Front r.white front')
    (atoms : ∀ t, Carries rel (r.atom (front ++ t)) (r.atom (front' ++ t))) (fuel : Nat) (t : Text) :
    Carries rel (r.readAnd (r.readNot (fuel + 1)) (front ++ t))
      (r.readAnd (r.readNot (fuel + 1)) (front' ++ t)) := by
  obtain ⟨more, rest, split⟩ := @splitTop_front r.white andSep t
  rw [readAnd, readAnd, split front left.tight left.level (left.and t),
    split front' right.tight right.level (right.and t)]
  apply joined_carries keeps.and
  rw [readNot_front left, readNot_front right]
  exact atoms _

/-- Two fronts with related atoms make related readings of every text behind them. -/
theorem readOr_carries (keeps : r.Congruent rel) {front front' : Text}
    (left : Front r.white front) (right : Front r.white front')
    (atoms : ∀ t, Carries rel (r.atom (front ++ t)) (r.atom (front' ++ t))) (fuel : Nat) (t : Text) :
    Carries rel (r.readOr (r.readNot (fuel + 1)) (front ++ t))
      (r.readOr (r.readNot (fuel + 1)) (front' ++ t)) := by
  obtain ⟨more, rest, split⟩ := @splitTop_front r.white orSep t
  rw [readOr, readOr, split front left.tight left.level (left.or t),
    split front' right.tight right.level (right.or t)]
  exact joined_carries keeps.or (readAnd_carries keeps left right atoms fuel more) rest

end Reader

end BoolText
