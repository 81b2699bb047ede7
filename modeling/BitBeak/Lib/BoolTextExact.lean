import BitBeak.Lib.BoolText
import BitBeak.Lib.Bytes
import Mathlib.Data.List.Count

/-! The converse of reading back: an expression that is read back from its text has every
operand cut off where it ends. The atoms are asked for one thing, that what an atom stands for
tells its text but for faint characters such as blanks. -/
namespace BoolText
open Wire (ok_of_bind)

/- The inversion of cutting. -/

theorem splitFrom_ne_nil (sep : Text) (skip : Nat) (depth : Int) (part t : Text) :
    splitFrom sep skip depth part t ≠ [] := by
  fun_induction splitFrom sep skip depth part t with
  | case1 => exact List.cons_ne_nil _ _
  | case2 _ _ _ _ _ ih => exact ih
  | case3 => exact List.cons_ne_nil _ _
  | case4 _ _ _ _ _ ih => exact ih

theorem splitFrom_single {sep : Text} {depth : Int} {part t u : Text}
    (single : splitFrom sep 0 depth part t = [u]) : u = part ++ t ∧ Quiet sep [] depth t := by
  induction t generalizing depth part with
  | nil =>
    exact ⟨(List.cons.inj single).1.symm.trans (List.append_nil part).symm, trivial⟩
  | cons c rest ih =>
    rw [splitFrom] at single
    split at single
    · obtain ⟨_, none⟩ := List.cons.inj single
      exact absurd none (splitFrom_ne_nil _ _ _ _ _)
    · next outside =>
      obtain ⟨whole, quiet⟩ := ih single
      rw [List.append_assoc, List.singleton_append] at whole
      rw [Quiet, List.append_nil]
      exact ⟨whole, outside, quiet⟩

/-- The last cut. -/
theorem splitFrom_snoc {sep : Text} (separates : Separates sep) {depth : Int} {part t : Text}
    {parts : List Text} {u : Text} (several : parts ≠ [])
    (cuts : splitFrom sep 0 depth part t = parts ++ [u]) :
    ∃ s, t = s ++ sep ++ u ∧ splitFrom sep 0 depth part s = parts ∧ depth + net s = 0 ∧
      Quiet sep [] 0 u := by
  match t with
  | [] =>
    cases parts with
    | nil => exact absurd rfl several
    | cons p ps =>
      have none := (List.cons.inj cuts).2
      exact absurd none.symm (List.append_ne_nil_of_right_ne_nil _ (List.cons_ne_nil _ _))
  | c :: rest =>
    rw [splitFrom] at cuts
    split at cuts
    · next here =>
      obtain ⟨level, begins⟩ := here
      obtain ⟨more, whole⟩ := List.isPrefixOf_iff_prefix.mp begins
      obtain ⟨word, spelled, _⟩ := separates.blanks
      have blank : c = ' ' := by
        rw [spelled] at whole
        exact (List.cons.inj whole).1.symm
      have flat : depth = 0 := by
        rw [blank] at level
        exact level
      have behind : rest = sep.tail ++ more := by
        rw [spelled] at whole ⊢
        exact (List.cons.inj whole).2.symm
      have length : sep.length - 1 = sep.tail.length := List.length_tail.symm
      rw [level, length, behind, splitFrom_skip] at cuts
      cases parts with
      | nil => exact absurd rfl several
      | cons p ps =>
        obtain ⟨rfl, later⟩ := List.cons.inj cuts
        by_cases others : ps = []
        · subst others
          obtain ⟨rfl, quiet⟩ := splitFrom_single later
          exact ⟨[], whole.symm, rfl, by rw [flat]; rfl, quiet⟩
        · have shorter : more.length < (c :: rest).length := by
            rw [behind, List.length_cons, List.length_append]
            omega
          obtain ⟨s, rfl, before, closed, quiet⟩ := splitFrom_snoc separates others later
          refine ⟨sep ++ s, ?_, ?_, ?_, quiet⟩
          · rw [← whole]
            simp only [List.append_assoc]
          · rw [flat, separates.cut, before]
          · rw [flat, net_append, separates.level, Int.zero_add]
            exact closed
    · next outside =>
      obtain ⟨s, rfl, before, closed, quiet⟩ := splitFrom_snoc separates several cuts
      refine ⟨c :: s, rfl, ?_, ?_, quiet⟩
      · rw [splitFrom, if_neg]
        · exact before
        · rintro ⟨level, begins⟩
          have front : c :: s <+: c :: (s ++ sep ++ u) := ⟨sep ++ u, by simp⟩
          exact outside ⟨level, List.isPrefixOf_iff_prefix.mpr
            ((List.isPrefixOf_iff_prefix.mp begins).trans front)⟩
      · rw [← closed, ← foldl_depthAfter, ← foldl_depthAfter, List.foldl_cons]
termination_by t.length

theorem eq_parens {t : Text} (first : t.head? = some '(') (last : t.getLast? = some ')') :
    t = parens t.tail.dropLast := by
  cases t with
  | nil => cases first
  | cons c rest =>
    cases first
    cases List.eq_nil_or_concat rest with
    | inl none =>
      rw [none] at last
      cases last
    | inr more =>
      obtain ⟨inner, d, rfl⟩ := more
      rw [List.concat_eq_append] at last ⊢
      rw [List.getLast?_cons, List.getLast?_concat] at last
      have closing : d = ')' := Option.some.inj last
      rw [closing, parens, List.tail_cons, List.dropLast_concat]

/- The inversion of reading. -/

namespace Reader

variable {α ε : Type} {r : Reader α ε}

/-- A text whose parts are joined is read in one piece, or at its last cut. -/
theorem joined_cases {op : α → α → α} {unit : Text → Except ε α} {sep t : Text} {v : α}
    (separates : Separates sep) (read : r.joined op unit (splitTop r.white sep t) = .ok v) :
    (unit (trim r.white t) = .ok v ∧ Quiet sep [] 0 t) ∨
      ∃ s u va vb, t = s ++ sep ++ u ∧ net s = 0 ∧ Quiet sep [] 0 u ∧
        r.joined op unit (splitTop r.white sep s) = .ok va ∧
          unit (trim r.white u) = .ok vb ∧ v = op va vb := by
  rw [splitTop] at read
  rcases List.eq_nil_or_concat (splitFrom sep 0 0 [] t) with none | ⟨parts, u, cuts⟩
  · exact absurd none (splitFrom_ne_nil _ _ _ _ _)
  · rw [List.concat_eq_append] at cuts
    rw [cuts, List.map_append, List.map_singleton] at read
    by_cases several : parts = []
    · rw [several, List.map_nil, List.nil_append, joined_single] at read
      rw [several, List.nil_append] at cuts
      obtain ⟨rfl, quiet⟩ := splitFrom_single cuts
      exact .inl ⟨read, quiet⟩
    · obtain ⟨s, whole, before, closed, quiet⟩ := splitFrom_snoc separates several cuts
      have mapped : parts.map (trim r.white) ≠ [] :=
        fun none => several (List.map_eq_nil_iff.mp none)
      rw [joined_snoc _ _ _ mapped] at read
      rw [Int.zero_add] at closed
      obtain ⟨va, first, read⟩ := ok_of_bind read
      obtain ⟨vb, second, read⟩ := ok_of_bind read
      cases read
      refine .inr ⟨s, u, va, vb, whole, closed, quiet, ?_, second, rfl⟩
      rw [splitTop, before, first]

/-- A negation, a text in parentheses or an atom. -/
theorem readNot_cases {fuel : Nat} {t : Text} {v : α} (read : r.readNot fuel t = .ok v) :
    ∃ less, fuel = less + 1 ∧
      ((∃ rest w, trim r.white t = notWord ++ rest ∧ r.readNot less rest = .ok w ∧ v = r.not w) ∨
        (∃ inner, trim r.white t = parens inner ∧ r.readOr (r.readNot less) inner = .ok v) ∨
          (¬ notWord.isPrefixOf (trim r.white t) = true ∧ r.atom (trim r.white t) = .ok v)) := by
  cases fuel with
  | zero => cases read
  | succ less =>
    refine ⟨less, rfl, ?_⟩
    rw [readNot] at read
    split at read
    · next begins =>
      obtain ⟨rest, whole⟩ := List.isPrefixOf_iff_prefix.mp begins
      rw [← whole, List.drop_left] at read
      obtain ⟨w, inner, read⟩ := ok_of_bind read
      cases read
      exact .inl ⟨rest, w, whole.symm, inner, rfl⟩
    · next plain =>
      split at read
      · next both =>
        exact .inr (.inl ⟨_, eq_parens both.1 both.2, read⟩)
      · exact .inr (.inr ⟨plain, read⟩)

end Reader

/- Texts up to faint characters, and what they cover. -/

/-- The text without its faint characters. -/
def kept (faint : Char → Bool) (t : Text) : Text := t.filter fun c => !faint c

/-- The one text is the other, or opens more parentheses. -/
def Covers (s t : Text) : Prop := s = t ∨ t.count '(' < s.count '('

namespace Covers

theorem least {s t : Text} (covers : Covers s t) : t.count '(' ≤ s.count '(' := by
  rcases covers with rfl | more
  · exact Nat.le_refl _
  · exact Nat.le_of_lt more

theorem append {s s' t t' : Text} (left : Covers s t) (right : Covers s' t') (middle : Text) :
    Covers (s ++ middle ++ s') (t ++ middle ++ t') := by
  simp only [Covers, List.count_append]
  rcases left with rfl | left
  · rcases right with rfl | right
    · exact .inl rfl
    · exact .inr (by omega)
  · have most := right.least
    exact .inr (by omega)

theorem count_parens (t : Text) : (BoolText.parens t).count '(' = t.count '(' + 1 := by
  rw [BoolText.parens, List.count_cons_self, List.count_append]
  rfl

theorem parens {s t : Text} (covers : Covers s t) : Covers (parens s) (parens t) := by
  rw [Covers, count_parens, count_parens]
  rcases covers with rfl | more
  · exact .inl rfl
  · exact .inr (by omega)

theorem wrapped {s t : Text} (covers : Covers s t) : Covers (BoolText.parens s) t := by
  rw [Covers, count_parens]
  rcases covers with rfl | more
  · exact .inr (by omega)
  · exact .inr (by omega)

theorem unwrapped {s t : Text} (covers : Covers s (BoolText.parens t)) : Covers s t := by
  rw [Covers, count_parens] at covers
  rcases covers with rfl | more
  · exact (Covers.wrapped (.inl rfl))
  · exact .inr (by omega)

theorem eq_of_count {s t : Text} (covers : Covers s t) (most : s.count '(' ≤ t.count '(') :
    s = t := by
  rcases covers with same | more
  · exact same
  · omega

end Covers

/-- Blanks are faint, and the syntax is not. -/
structure Reader.Faint {α ε : Type} (r : Reader α ε) (faint : Char → Bool) : Prop where
  white : ∀ c, r.white c = true → faint c = true
  blank : r.white ' ' = true
  syntax_ : ∀ c ∈ ['(', ')', 'o', 'a'], faint c = false

section

variable {faint : Char → Bool}

theorem kept_append (s t : Text) : kept faint (s ++ t) = kept faint s ++ kept faint t :=
  List.filter_append ..

theorem kept_parens {t : Text} (opening : faint '(' = false) (closing : faint ')' = false) :
    kept faint (parens t) = parens (kept faint t) := by
  rw [parens, kept, List.filter_cons_of_pos (by rw [opening]; rfl), List.filter_append,
    List.filter_cons_of_pos (by rw [closing]; rfl)]
  rfl

theorem count_kept {c : Char} (shows : faint c = false) (t : Text) :
    (kept faint t).count c = t.count c :=
  List.count_filter (by rw [shows]; rfl)

theorem kept_trim {white : Char → Bool} (whites : ∀ c, white c = true → faint c = true) (t : Text) :
    kept faint (trim white t) = kept faint t := by
  have front : ∀ t : Text, kept faint (t.dropWhile white) = kept faint t := by
    intro t
    induction t with
    | nil => rfl
    | cons c rest ih =>
      rw [List.dropWhile_cons]
      split
      · next here =>
        rw [ih, kept, kept, List.filter_cons, whites c here]
        rfl
      · rfl
  have reversed : ∀ t : Text, kept faint t.reverse = (kept faint t).reverse :=
    fun t => List.filter_reverse ..
  rw [trim, List.rdropWhile, reversed, front, reversed, List.reverse_reverse, front]

end

/- What is read covers what is printed. -/

/-- What the connectives make tells its operands, and what atoms stand for is not of it. -/
structure Reader.Free {α β ε : Type} (r : Reader α ε) (leaf : β → α) : Prop where
  or : ∀ {va vb : α} {e : BoolExpr β}, r.or va vb = e.value r leaf →
    ∃ a b, e = .or a b ∧ va = a.value r leaf ∧ vb = b.value r leaf
  and : ∀ {va vb : α} {e : BoolExpr β}, r.and va vb = e.value r leaf →
    ∃ a b, e = .and a b ∧ va = a.value r leaf ∧ vb = b.value r leaf
  not : ∀ {v : α} {e : BoolExpr β}, r.not v = e.value r leaf →
    ∃ a, e = .not a ∧ v = a.value r leaf
  atom : ∀ {t : Text} {e : BoolExpr β}, r.atom t = .ok (e.value r leaf) → ∃ x, e = .atom x

namespace Reader.Free

variable {α β ε : Type} {r : Reader α ε} {leaf : β → α} {e : BoolExpr β}

theorem value_ne_or (free : r.Free leaf) (other : ∀ a b, e ≠ .or a b) (va vb : α) :
    e.value r leaf ≠ r.or va vb := by
  intro made
  obtain ⟨a, b, same, _⟩ := free.or made.symm
  exact other a b same

theorem value_ne_and (free : r.Free leaf) (other : ∀ a b, e ≠ .and a b) (va vb : α) :
    e.value r leaf ≠ r.and va vb := by
  intro made
  obtain ⟨a, b, same, _⟩ := free.and made.symm
  exact other a b same

theorem or_operands (free : r.Free leaf) {a b : BoolExpr β} {va vb : α}
    (made : (BoolExpr.or a b).value r leaf = r.or va vb) :
    va = a.value r leaf ∧ vb = b.value r leaf := by
  obtain ⟨_, _, same, first, second⟩ := free.or made.symm
  cases same
  exact ⟨first, second⟩

theorem and_operands (free : r.Free leaf) {a b : BoolExpr β} {va vb : α}
    (made : (BoolExpr.and a b).value r leaf = r.and va vb) :
    va = a.value r leaf ∧ vb = b.value r leaf := by
  obtain ⟨_, _, same, first, second⟩ := free.and made.symm
  cases same
  exact ⟨first, second⟩

end Reader.Free

namespace BoolExpr

variable {α β ε : Type} {r : Reader α ε} {text : β → Text} {leaf : β → α} {faint : Char → Bool}

section

variable (marks : r.Faint faint)

include marks

theorem faint_parens (t : Text) : kept faint (parens t) = parens (kept faint t) :=
  kept_parens (marks.syntax_ '(' (by decide)) (marks.syntax_ ')' (by decide))

theorem covers_underOr {e : BoolExpr β} {s : Text}
    (covers : Covers s (kept faint (e.print text .underAnd))) :
    Covers s (kept faint (e.print text .underOr)) := by
  cases e with
  | and a b =>
    rw [show (and a b).print text .underAnd = parens ((and a b).print text .underOr) from rfl,
      faint_parens marks] at covers
    exact covers.unwrapped
  | _ => exact covers

theorem covers_alone {e : BoolExpr β} {s : Text}
    (covers : Covers s (kept faint (e.print text .underOr))) :
    Covers s (kept faint (e.print text .alone)) := by
  cases e with
  | or a b =>
    rw [show (or a b).print text .underOr = parens ((or a b).print text .alone) from rfl,
      faint_parens marks] at covers
    exact covers.unwrapped
  | _ => exact covers

theorem covers_parens {e : BoolExpr β} {s : Text}
    (covers : Covers (kept faint s) (kept faint (e.print text .alone))) :
    Covers (kept faint (parens s)) (kept faint (e.print text .underAnd)) := by
  rw [faint_parens marks]
  cases e with
  | atom x => exact covers.wrapped
  | not a => exact covers.wrapped
  | and a b =>
    rw [show (and a b).print text .underAnd = parens ((and a b).print text .alone) from rfl,
      faint_parens marks]
    exact covers.parens
  | or a b =>
    rw [show (or a b).print text .underAnd = parens ((or a b).print text .alone) from rfl,
      faint_parens marks]
    exact covers.parens

end

/-- The texts that stand for an expression cover its text at this place. -/
def Covering (r : Reader α ε) (text : β → Text) (leaf : β → α) (faint : Char → Bool)
    (place : Place) (unit : Text → Except ε α) : Prop :=
  ∀ (t : Text) (e : BoolExpr β), unit t = .ok (e.value r leaf) →
    Covers (kept faint t) (kept faint (e.print text place))

theorem joined_covers (marks : r.Faint faint) {op : α → α → α} {unit : Text → Except ε α}
    {sep : Text} (separates : Separates sep) {inner outer : Place}
    (covering : Covering r text leaf faint inner unit)
    (weaker : ∀ {e : BoolExpr β} {s : Text}, Covers s (kept faint (e.print text inner)) →
      Covers s (kept faint (e.print text outer)))
    (operands : ∀ {va vb : α} {e : BoolExpr β}, op va vb = e.value r leaf →
      ∃ a b : BoolExpr β, va = a.value r leaf ∧ vb = b.value r leaf ∧
        e.print text outer = a.print text outer ++ sep ++ b.print text inner) :
    Covering r text leaf faint outer fun t => r.joined op unit (splitTop r.white sep t) := by
  intro t
  induction length : t.length using Nat.strong_induction_on generalizing t with
  | _ n ih =>
    intro e read
    rcases Reader.joined_cases separates read with
      ⟨one, _⟩ | ⟨s, u, va, vb, rfl, _, _, first, second, made⟩
    · have covers := covering _ e one
      rw [kept_trim marks.white] at covers
      exact weaker covers
    · obtain ⟨a, b, rfl, rfl, printed⟩ := operands made.symm
      obtain ⟨word, spelled, _⟩ := separates.blanks
      have shorter : s.length < n := by
        rw [← length, spelled]
        simp only [List.length_append, List.length_cons]
        omega
      have left := ih s.length shorter s rfl a first
      have right := covering _ b second
      rw [kept_trim marks.white] at right
      rw [printed, kept_append, kept_append, kept_append, kept_append]
      exact left.append right _

theorem readAnd_covers (marks : r.Faint faint) (free : r.Free leaf) {unit : Text → Except ε α}
    (covering : Covering r text leaf faint .underAnd unit) :
    Covering r text leaf faint .underOr (r.readAnd unit) := by
  refine joined_covers marks separates_and covering (covers_underOr marks) fun made => ?_
  obtain ⟨a, b, rfl, first, second⟩ := free.and made
  exact ⟨a, b, first, second, rfl⟩

theorem readOr_covers (marks : r.Faint faint) (free : r.Free leaf) {unit : Text → Except ε α}
    (covering : Covering r text leaf faint .underAnd unit) :
    Covering r text leaf faint .alone (r.readOr unit) := by
  refine joined_covers marks separates_or (readAnd_covers marks free covering)
    (covers_alone marks) fun made => ?_
  obtain ⟨a, b, rfl, first, second⟩ := free.or made
  exact ⟨a, b, first, second, rfl⟩

theorem readNot_covers (marks : r.Faint faint) (free : r.Free leaf)
    (atoms : ∀ {t : Text} {x : β}, r.atom t = .ok (leaf x) → kept faint t = kept faint (text x))
    (fuel : Nat) : Covering r text leaf faint .underAnd (r.readNot fuel) := by
  induction fuel with
  | zero =>
    intro t e read
    cases read
  | succ less ih =>
    intro t e read
    rw [← kept_trim marks.white]
    obtain ⟨_, same, how⟩ := Reader.readNot_cases read
    cases same
    rcases how with ⟨rest, v, whole, inner, made⟩ | ⟨inner, whole, read⟩ | ⟨_, read⟩
    · obtain ⟨a, rfl, rfl⟩ := free.not made.symm
      rw [whole, kept_append, print, kept_append]
      have behind := Covers.append (.inl rfl : Covers (kept faint notWord) (kept faint notWord))
        (ih rest a inner) []
      rwa [List.append_nil] at behind
    · rw [whole]
      exact covers_parens marks (readOr_covers marks free ih inner e read)
    · obtain ⟨x, rfl⟩ := free.atom read
      exact .inl (atoms read)

end BoolExpr

/- Where a text ends. -/

/-- The last character is of no separator. -/
def Ends (t : Text) : Prop := ∃ c ∈ t.getLast?, c ∉ orSep ∧ c ∉ andSep

theorem Ends.append {t : Text} (ends : Ends t) (s : Text) : Ends (s ++ t) := by
  obtain ⟨c, last, other⟩ := ends
  refine ⟨c, ?_, other⟩
  rw [List.getLast?_append, last]
  rfl

theorem Ends.outside_or {t : Text} (ends : Ends t) : ∀ c ∈ t.getLast?, c ∉ orSep := by
  obtain ⟨d, last, other, _⟩ := ends
  exact fun c here => Option.mem_unique last here ▸ other

theorem Ends.outside_and {t : Text} (ends : Ends t) : ∀ c ∈ t.getLast?, c ∉ andSep := by
  obtain ⟨d, last, _, other⟩ := ends
  exact fun c here => Option.mem_unique last here ▸ other

theorem ends_parens (t : Text) : Ends (parens t) :=
  Ends.append (s := '(' :: t) ⟨')', rfl, by decide, by decide⟩

theorem quiet_blank {sep t : Text} {depth : Int} (quiet : Quiet sep [] depth t)
    (ends : ∀ c ∈ t.getLast?, c ∉ sep) : Quiet sep [' '] depth t := by
  induction t generalizing depth with
  | nil => trivial
  | cons c rest ih =>
    obtain ⟨here, later⟩ := quiet
    rw [List.append_nil] at here
    constructor
    · rintro ⟨level, begins⟩
      rw [← List.cons_append, List.isPrefixOf_iff_prefix, List.prefix_concat_iff] at begins
      rcases begins with whole | begins
      · have last := List.getLast?_eq_some_getLast (List.cons_ne_nil c rest)
        apply ends _ last
        rw [whole]
        exact List.mem_append_left _ (List.getLast_mem _)
      · exact here ⟨level, List.isPrefixOf_iff_prefix.mpr begins⟩
    · apply ih later
      intro d last
      apply ends d
      rw [List.getLast?_cons, last]
      rfl

/-- Two cuts at a separator are one, where the texts in front differ in faint characters only. -/
theorem cut_unique {white faint : Char → Bool} {sep x y a b : Text}
    (whites : ∀ c, white c = true → faint c = true) (blank : white ' ' = true)
    (spelled : ∃ c word, sep = ' ' :: c :: word ∧ faint c = false)
    (whole : x ++ sep ++ y = a ++ sep ++ b) (same : kept faint x = kept faint a)
    (tight : Tight white a) : x = a := by
  obtain ⟨c, word, rfl, shows⟩ := spelled
  have other : c ≠ ' ' := by
    rintro rfl
    exact Bool.false_ne_true (shows.symm.trans (whites _ blank))
  have hidden : ∀ {w : Text}, kept faint w = [] → c ∉ w := by
    intro w none inside
    have member : c ∈ kept faint w := List.mem_filter.mpr ⟨inside, by rw [shows]; rfl⟩
    rw [none] at member
    cases member
  rw [List.append_assoc, List.append_assoc, List.append_eq_append_iff] at whole
  rcases whole with ⟨w, rfl, split⟩ | ⟨w, rfl, split⟩
  · have none : kept faint w = [] := by
      rw [kept_append] at same
      exact List.self_eq_append_right.mp same
    match w, split with
    | [], _ => exact (List.append_nil x).symm
    | [d], split =>
      obtain ⟨d', last, seen⟩ := tight.last
      rw [List.getLast?_concat] at last
      cases last
      cases (List.cons.inj split).1
      exact absurd seen (by rw [blank]; decide)
    | d :: d' :: w, split =>
      cases (List.cons.inj (List.cons.inj split).2).1
      exact absurd (List.mem_cons_of_mem _ List.mem_cons_self) (hidden none)
  · have none : kept faint w = [] := by
      rw [kept_append] at same
      exact List.append_right_eq_self.mp same
    match w, split with
    | [], _ => exact List.append_nil a
    | [d], split =>
      exact absurd (List.cons.inj (List.cons.inj split).2).1 other
    | d :: d' :: w, split =>
      cases (List.cons.inj (List.cons.inj split).2).1
      exact absurd (List.mem_cons_of_mem _ List.mem_cons_self) (hidden none)

/- What is read back was readable. -/

namespace BoolExpr

variable {α β ε : Type} {r : Reader α ε} {text : β → Text} {leaf : β → α} {faint : Char → Bool}

theorem print_ends (ends : ∀ x, Ends (text x)) (e : BoolExpr β) (place : Place) :
    Ends (e.print text place) := by
  induction e generalizing place with
  | atom x => exact ends x
  | not a ih => exact (ih .underAnd).append notWord
  | and a b _ ihb =>
    rw [print]
    split
    · exact ends_parens _
    · exact (ihb .underAnd).append _
  | or a b _ ihb =>
    rw [print]
    split
    · exact (ihb .underOr).append _
    · exact ends_parens _

/-- What a text stands for is not joined: the text is read in one piece. -/
theorem joined_whole {op : α → α → α} {unit : Text → Except ε α} {sep t : Text} {v : α}
    (separates : Separates sep) (tight : Tight r.white t) (ends : ∀ c ∈ t.getLast?, c ∉ sep)
    (other : ∀ va vb, v ≠ op va vb) (read : r.joined op unit (splitTop r.white sep t) = .ok v) :
    unit t = .ok v ∧ Quiet sep [' '] 0 t := by
  rcases Reader.joined_cases separates read with ⟨one, quiet⟩ | ⟨_, _, va, vb, _, _, _, _, _, made⟩
  · rw [tight.trim_eq] at one
    exact ⟨one, quiet_blank quiet ends⟩
  · exact absurd made (other va vb)

/-- The text of two operands is cut where the first ends. -/
theorem joined_operands (marks : r.Faint faint) {op : α → α → α} {unit : Text → Except ε α}
    {sep : Text} (separates : Separates sep)
    (spelled : ∃ c word, sep = ' ' :: c :: word ∧ faint c = false) {inner outer : Place}
    (first : Covering r text leaf faint outer fun t => r.joined op unit (splitTop r.white sep t))
    (second : Covering r text leaf faint inner unit) {e a b : BoolExpr β}
    (printed : e.print text outer = a.print text outer ++ sep ++ b.print text inner)
    (bracketed : e.print text inner = parens (e.print text outer))
    (made : ∀ va vb, e.value r leaf = op va vb → va = a.value r leaf ∧ vb = b.value r leaf)
    (left : Tight r.white (a.print text outer)) (right : Tight r.white (b.print text inner))
    (ends : ∀ c ∈ (b.print text inner).getLast?, c ∉ sep)
    (read : r.joined op unit (splitTop r.white sep (e.print text outer)) = .ok (e.value r leaf)) :
    (r.joined op unit (splitTop r.white sep (a.print text outer)) = .ok (a.value r leaf) ∧
      unit (b.print text inner) = .ok (b.value r leaf)) ∧
        net (a.print text outer) = 0 ∧ Quiet sep [' '] 0 (b.print text inner) := by
  have opening : faint '(' = false := marks.syntax_ '(' (by decide)
  rcases Reader.joined_cases separates read with
    ⟨one, _⟩ | ⟨s, u, va, vb, whole, closed, quiet, front, behind, value⟩
  · have covers := second _ e one
    rw [kept_trim marks.white, bracketed, faint_parens marks] at covers
    have fewer := Covers.count_parens (kept faint (e.print text outer))
    rcases covers with same | more
    · rw [← same] at fewer
      omega
    · omega
  · obtain ⟨rfl, rfl⟩ := made va vb value
    have leftCovers := first s a front
    have rightCovers := second _ b behind
    rw [kept_trim marks.white] at rightCovers
    have total := congrArg (List.count '(') (printed.symm.trans whole)
    simp only [List.count_append] at total
    have least := rightCovers.least
    simp only [count_kept opening] at least
    have same : kept faint s = kept faint (a.print text outer) := by
      apply leftCovers.eq_of_count
      simp only [count_kept opening]
      omega
    have cut : s = a.print text outer :=
      cut_unique marks.white marks.blank spelled (whole.symm.trans printed) same left
    have rest : u = b.print text inner := by
      rw [printed, cut] at whole
      exact (List.append_cancel_left whole).symm
    rw [cut] at front closed
    rw [rest] at behind quiet
    rw [right.trim_eq] at behind
    exact ⟨⟨front, behind⟩, closed, quiet_blank quiet ends⟩

/-- What is asked of the atoms. -/
structure Marked (r : Reader α ε) (text : β → Text) (leaf : β → α) (faint : Char → Bool) :
    Prop where
  tight : ∀ x, Tight r.white (text x)
  ends : ∀ x, Ends (text x)
  bare : ∀ x, ¬ ((text x).head? = some '(' ∧ (text x).getLast? = some ')')
  told : ∀ {t : Text} {x : β}, r.atom t = .ok (leaf x) → kept faint t = kept faint (text x)

theorem readAt_whole {place : Place} {t : Text} {fuel : Nat} {v : α} (tight : Tight r.white t)
    (ends : Ends t) (notOr : ∀ va vb, v ≠ r.or va vb) (notAnd : ∀ va vb, v ≠ r.and va vb)
    (read : r.readAt fuel place t = .ok v) : r.readNot fuel t = .ok v ∧ Uncut place t := by
  cases place with
  | underAnd => exact ⟨read, fun other => absurd rfl other, fun other => nomatch other⟩
  | underOr =>
    obtain ⟨read, quiet⟩ := joined_whole separates_and tight ends.outside_and notAnd read
    exact ⟨read, fun _ => quiet, fun other => nomatch other⟩
  | alone =>
    obtain ⟨read, quietOr⟩ := joined_whole separates_or tight ends.outside_or notOr read
    obtain ⟨read, quietAnd⟩ := joined_whole separates_and tight ends.outside_and notAnd read
    exact ⟨read, fun _ => quietAnd, fun _ => quietOr⟩

theorem readNot_brackets (sees : r.Sees) {fuel : Nat} {t : Text} {v : α}
    (read : r.readNot fuel (parens t) = .ok v) :
    ∃ less, r.readOr (r.readNot less) t = .ok v := by
  cases fuel with
  | zero => cases read
  | succ less => exact ⟨less, (Reader.readNot_parens sees t less).symm.trans read⟩

/-- An expression that is read back from its text is readable. -/
theorem readable_of_readAt (sees : r.Sees) (marks : r.Faint faint) (free : r.Free leaf)
    (marked : Marked r text leaf faint) (e : BoolExpr β) {place : Place} {fuel : Nat}
    (read : r.readAt fuel place (e.print text place) = .ok (e.value r leaf)) :
    e.Readable text (AtomRead r text leaf) place := by
  have tight := print_tight sees marked.tight
  have ends := print_ends marked.ends
  have covering := readNot_covers marks free marked.told
  induction e generalizing place fuel with
  | atom x =>
    obtain ⟨read, uncut⟩ := readAt_whole (tight (atom x) place) (ends (atom x) place)
      (free.value_ne_or (e := atom x) (by simp)) (free.value_ne_and (e := atom x) (by simp)) read
    refine ⟨?_, uncut⟩
    obtain ⟨less, _, how⟩ := Reader.readNot_cases read
    rw [(tight (atom x) place).trim_eq] at how
    rcases how with ⟨rest, v, _, _, made⟩ | ⟨inner, whole, _⟩ | ⟨plain, read⟩
    · obtain ⟨_, other, _⟩ := free.not made.symm
      cases other
    · exfalso
      apply marked.bare x
      rw [show text x = parens inner from whole]
      refine ⟨rfl, ?_⟩
      rw [parens, List.getLast?_cons, List.getLast?_concat]
      rfl
    · exact ⟨plain, marked.bare x, read⟩
  | not a ih =>
    obtain ⟨read, uncut⟩ := readAt_whole (tight (not a) place) (ends (not a) place)
      (free.value_ne_or (e := not a) (by simp)) (free.value_ne_and (e := not a) (by simp)) read
    refine ⟨?_, uncut⟩
    obtain ⟨less, _, how⟩ := Reader.readNot_cases read
    rw [(tight (not a) place).trim_eq] at how
    rcases how with ⟨rest, v, whole, read, made⟩ | ⟨inner, whole, _⟩ | ⟨plain, _⟩
    · obtain ⟨_, same, rfl⟩ := free.not made.symm
      cases same
      have behind : a.print text .underAnd = rest := List.append_cancel_left whole
      rw [← behind] at read
      exact ih read
    · cases (List.cons.inj whole).1
    · exact absurd (List.isPrefixOf_iff_prefix.mpr (List.prefix_append _ _)) plain
  | and a b iha ihb =>
    have core : ∀ fuel, r.readAnd (r.readNot fuel) ((and a b).print text .underOr) =
        .ok ((and a b).value r leaf) →
        a.Readable text (AtomRead r text leaf) .underOr ∧
          b.Readable text (AtomRead r text leaf) .underAnd ∧
            net (a.print text .underOr) = 0 ∧ Quiet andSep [' '] 0 (b.print text .underAnd) := by
      intro fuel read
      obtain ⟨⟨first, second⟩, closed, quiet⟩ := joined_operands marks separates_and
        ⟨'a', _, rfl, marks.syntax_ 'a' (by decide)⟩ (readAnd_covers marks free (covering fuel))
        (covering fuel) rfl rfl (fun _ _ => free.and_operands) (tight a .underOr)
        (tight b .underAnd) (ends b .underAnd).outside_and read
      exact ⟨iha first, ihb second, closed, quiet⟩
    have whole : ∀ fuel, r.readOr (r.readNot fuel) ((and a b).print text .underOr) =
        .ok ((and a b).value r leaf) →
        r.readAnd (r.readNot fuel) ((and a b).print text .underOr) = .ok ((and a b).value r leaf) ∧
          Quiet orSep [' '] 0 ((and a b).print text .underOr) := fun fuel read =>
      joined_whole separates_or (tight (and a b) .underOr) (ends (and a b) .underOr).outside_or
        (free.value_ne_or (e := and a b) (by simp)) read
    cases place with
    | underOr => exact ⟨core fuel read, fun other => absurd rfl other⟩
    | alone =>
      obtain ⟨read, quiet⟩ := whole fuel read
      exact ⟨core fuel read, fun _ => quiet⟩
    | underAnd =>
      obtain ⟨less, read⟩ := readNot_brackets sees read
      obtain ⟨read, quiet⟩ := whole less read
      exact ⟨core less read, fun _ => quiet⟩
  | or a b iha ihb =>
    have core : ∀ fuel, r.readOr (r.readNot fuel) ((or a b).print text .alone) =
        .ok ((or a b).value r leaf) →
        a.Readable text (AtomRead r text leaf) .alone ∧
          b.Readable text (AtomRead r text leaf) .underOr ∧
            net (a.print text .alone) = 0 ∧ Quiet orSep [' '] 0 (b.print text .underOr) := by
      intro fuel read
      obtain ⟨⟨first, second⟩, closed, quiet⟩ := joined_operands marks separates_or
        ⟨'o', _, rfl, marks.syntax_ 'o' (by decide)⟩ (readOr_covers marks free (covering fuel))
        (readAnd_covers marks free (covering fuel)) rfl rfl (fun _ _ => free.or_operands)
        (tight a .alone) (tight b .underOr) (ends b .underOr).outside_or read
      exact ⟨iha first, ihb second, closed, quiet⟩
    cases place with
    | alone => exact ⟨core fuel read, by simp⟩
    | underOr =>
      obtain ⟨read, quiet⟩ := joined_whole separates_and (tight (or a b) .underOr)
        (ends (or a b) .underOr).outside_and (free.value_ne_and (e := or a b) (by simp)) read
      obtain ⟨less, read⟩ := readNot_brackets sees read
      exact ⟨core less read, fun _ => quiet⟩
    | underAnd =>
      obtain ⟨less, read⟩ := readNot_brackets sees read
      exact ⟨core less read, by simp⟩

/-- An expression is read back from its text if and only if it is readable. -/
theorem read_print_iff (sees : r.Sees) (marks : r.Faint faint) (free : r.Free leaf)
    (marked : Marked r text leaf faint) (e : BoolExpr β) :
    r.read (e.print text .alone) = .ok (e.value r leaf) ↔
      e.Readable text (AtomRead r text leaf) .alone := by
  constructor
  · intro read
    have whole : r.readAt ((e.print text .alone).length + 1) .alone (e.print text .alone) =
        .ok (e.value r leaf) := read
    exact readable_of_readAt sees marks free marked e whole
  · exact read_print sees marked.tight fun _ atom => atom

end BoolExpr

end BoolText
