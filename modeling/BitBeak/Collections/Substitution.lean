import BitBeak.Collections
import BitBeak.Lib.Replace
import Mathlib.Data.List.Nodup

/-! The order in which the variables of an environment are substituted. -/
namespace BitBeak.Collections
open Occurrence

/-- A variable as it stands in a text. -/
def placeholder (name : List Char) : List Char := '{' :: '{' :: (name ++ ['}', '}'])

theorem placeholder_ne_nil (name : List Char) : placeholder name ≠ [] := List.cons_ne_nil _ _

/-- The placeholder of a variable of an environment. -/
def varText (v : String × String) : List Char := placeholder v.1.toList

/-- The replacement of one variable. -/
def replaceVar (text : List Char) (v : String × String) : List Char :=
  replaced (varText v) v.2.toList text

theorem toList_replace (v : String × String) (text : String) :
    (replace text ("\x7b\x7b" ++ v.1 ++ "\x7d\x7d") v.2).toList = replaceVar text.toList v := by
  simp [replace, replaceVar, replaced, varText, placeholder]

theorem toList_foldl (vars : List (String × String)) (text : String) :
    (vars.foldl (fun out (k, v) => replace out ("\x7b\x7b" ++ k ++ "\x7d\x7d") v) text).toList =
      vars.foldl replaceVar text.toList := by
  induction vars generalizing text with
  | nil => rfl
  | cons v vars ih => rw [List.foldl_cons, List.foldl_cons, ← toList_replace]; exact ih _

theorem toList_substitute (col : Collection) (text : String) :
    (col.substitute text).toList = col.activeVars.foldl replaceVar text.toList :=
  toList_foldl _ _

theorem replaceVar_none {v : String × String} {text : List Char} (none : ¬ varText v <:+: text) :
    replaceVar text v = text := replaced_none none

theorem foldl_replaceVar_none {vars : List (String × String)} {text : List Char}
    (none : ∀ v ∈ vars, ¬ varText v <:+: text) : vars.foldl replaceVar text = text := by
  induction vars with
  | nil => rfl
  | cons v vars ih =>
    have rest := ih fun w member => none w (List.mem_cons_of_mem v member)
    rw [List.foldl_cons, replaceVar_none (none v List.mem_cons_self), rest]

/-- A text without a variable of the environment stays as it is. -/
theorem substitute_none {col : Collection} {text : String}
    (none : ∀ v ∈ col.activeVars, ¬ varText v <:+: text.toList) : col.substitute text = text := by
  rw [← String.toList_inj, toList_substitute, foldl_replaceVar_none none]

/- Two variables. -/

/-- No value touches the placeholder of another variable. A value that is the variable's own
placeholder puts nothing in. -/
def ValuesApart (vars : List (String × String)) : Prop :=
  ∀ v ∈ vars, ∀ w ∈ vars, v ≠ w → w.2.toList = varText w ∨ Apart (varText w) v.2.toList

/-- No placeholder touches another one. -/
def PlaceholdersApart (vars : List (String × String)) : Prop :=
  ∀ v ∈ vars, ∀ w ∈ vars, v ≠ w → NoneBegins (varText w) (varText v)

/-- Environments with the same variables substitute the same. -/
def OrderFree (col : Collection) : Prop :=
  ∀ other : Collection, other.activeVars.Perm col.activeVars →
    ∀ text, other.substitute text = col.substitute text

theorem replaceVar_own {v : String × String} (own : v.2.toList = varText v) (text : List Char) :
    replaceVar text v = text := by
  rw [replaceVar, own]
  exact replaced_same (placeholder_ne_nil _) text

theorem replaceVar_comm {vars : List (String × String)} (placeholders : PlaceholdersApart vars)
    (values : ValuesApart vars) {v w : String × String} (first : v ∈ vars) (second : w ∈ vars)
    (text : List Char) :
    replaceVar (replaceVar text v) w = replaceVar (replaceVar text w) v := by
  by_cases same : v = w
  · rw [same]
  rcases values v first w second same with own | apart
  · rw [replaceVar_own own, replaceVar_own own]
  rcases values w second v first (Ne.symm same) with own | apart'
  · rw [replaceVar_own own, replaceVar_own own]
  exact replaced_comm (placeholder_ne_nil _) (placeholder_ne_nil _)
    (placeholders w second v first (Ne.symm same)) (placeholders v first w second same)
    apart apart' text

theorem orderFree_of_apart {col : Collection} (placeholders : PlaceholdersApart col.activeVars)
    (values : ValuesApart col.activeVars) : OrderFree col := by
  intro other same text
  rw [← String.toList_inj, toList_substitute, toList_substitute]
  refine same.foldl_eq' (fun v first w second z => ?_) _
  exact replaceVar_comm placeholders values (same.subset first) (same.subset second) z

/- Names without braces. -/

def BraceFree (name : List Char) : Prop := '{' ∉ name ∧ '}' ∉ name

instance (name : List Char) : Decidable (BraceFree name) :=
  inferInstanceAs (Decidable ('{' ∉ name ∧ '}' ∉ name))

/-- What begins like a placeholder is not a later part of one. -/
theorem suffix_placeholder {name : List Char} (free : BraceFree name) {s : List Char}
    (suffix : s <:+ placeholder name) (some : s ≠ []) (proper : s ≠ placeholder name)
    (t : List Char) : ¬ '{' :: '{' :: t <+: s ∧ ¬ s <+: '{' :: '{' :: t := by
  have behind : '{' ∉ name ++ ['}', '}'] := by simp [free.1]
  obtain ⟨c, s, rfl⟩ := List.exists_cons_of_ne_nil some
  rcases List.suffix_cons_iff.mp suffix with whole | later
  · exact absurd whole proper
  rcases List.suffix_cons_iff.mp later with second | later
  · obtain ⟨-, rfl⟩ := List.cons.inj second
    have shape : ∃ d rest, name ++ ['}', '}'] = d :: rest ∧ d ≠ '{' := by
      obtain ⟨d, rest, same⟩ := List.exists_cons_of_ne_nil
        (show name ++ ['}', '}'] ≠ [] by simp)
      exact ⟨d, rest, same, fun brace => behind (by simp [same, brace])⟩
    obtain ⟨d, rest, same, other⟩ := shape
    rw [same]
    simp [List.cons_prefix_cons, other, Ne.symm other]
  · have other : c ≠ '{' := by
      rintro rfl
      exact behind (later.subset List.mem_cons_self)
    simp [List.cons_prefix_cons, other, Ne.symm other]

theorem prefix_placeholder {name other : List Char} (free : BraceFree name)
    (free' : BraceFree other) (begins : placeholder name <+: placeholder other) : name = other := by
  have inner : name ++ ['}', '}'] <+: other ++ ['}', '}'] := by
    simpa [placeholder, List.cons_prefix_cons] using begins
  clear begins
  induction name generalizing other with
  | nil =>
    cases other with
    | nil => rfl
    | cons d other =>
      have brace : '}' = d := by simpa [List.cons_prefix_cons] using (List.cons_prefix_cons.mp inner).1
      exact absurd (brace ▸ List.mem_cons_self) free'.2
  | cons c name ih =>
    have free : c ≠ '}' ∧ BraceFree name := by
      simp only [BraceFree, List.mem_cons, not_or] at free ⊢
      tauto
    cases other with
    | nil =>
      have brace : c = '}' := (List.cons_prefix_cons.mp inner).1
      exact absurd brace free.1
    | cons d other =>
      obtain ⟨rfl, rest⟩ := List.cons_prefix_cons.mp inner
      have free' : BraceFree other := by
        simp only [BraceFree, List.mem_cons, not_or] at free' ⊢
        tauto
      rw [ih free.2 free' rest]

theorem infix_placeholder {name other : List Char} (free : BraceFree name)
    (free' : BraceFree other) (inside : placeholder name <:+: placeholder other) : name = other := by
  obtain ⟨s, begins, suffix⟩ := List.infix_iff_prefix_suffix.mp inside
  by_cases whole : s = placeholder other
  · exact prefix_placeholder free free' (whole ▸ begins)
  · have some : s ≠ [] := by
      rintro rfl
      exact placeholder_ne_nil name (List.prefix_nil.mp begins)
    exact absurd begins (suffix_placeholder free' suffix some whole _).1

theorem apart_placeholder {name other : List Char} (free : BraceFree name)
    (free' : BraceFree other) (differ : name ≠ other) :
    Apart (placeholder name) (placeholder other) where
  begins s suffix some := by
    by_cases whole : s = placeholder other
    · rw [whole]
      exact ⟨fun begins => differ (prefix_placeholder free free' begins),
        fun begins => differ (prefix_placeholder free' free begins).symm⟩
    · exact suffix_placeholder free' suffix some whole _
  reaches x m whole front behind := by
    have proper : m ≠ placeholder name := by
      rintro rfl
      exact front (List.append_left_eq_self.mp whole.symm)
    exact (suffix_placeholder free ⟨x, whole.symm⟩ behind proper _).symm

theorem borderless_placeholder {name : List Char} (free : BraceFree name) :
    Borderless (placeholder name) := by
  intro b begins ends
  by_cases empty : b = []
  · exact .inl empty
  · by_cases whole : b = placeholder name
    · exact .inr whole
    · exact absurd begins (suffix_placeholder free ends empty whole _).2

/-- Without braces, a value touches a placeholder exactly if it is empty or a part of the name. -/
theorem apart_value {name value : List Char} (free : BraceFree name) (free' : BraceFree value) :
    Apart (placeholder name) value ↔ value ≠ [] ∧ ¬ value <:+: name := by
  constructor
  · intro apart
    constructor
    · rintro rfl
      exact (apart.reaches ['{'] _ rfl (List.cons_ne_nil _ _) (List.cons_ne_nil _ _)).2
        List.nil_prefix
    · rintro ⟨f, g, rfl⟩
      have clear := apart.reaches ('{' :: '{' :: f) (value ++ (g ++ ['}', '}']))
        (by simp [placeholder]) (List.cons_ne_nil _ _) (by simp)
      exact clear.2 (List.prefix_append _ _)
  · rintro ⟨some, outside⟩
    constructor
    · intro s suffix some
      obtain ⟨c, s, rfl⟩ := List.exists_cons_of_ne_nil some
      have other : c ≠ '{' := by
        rintro rfl
        exact free'.1 (suffix.subset List.mem_cons_self)
      simp [placeholder, List.cons_prefix_cons, other, Ne.symm other]
    · intro x m whole front behind
      have suffix : m <:+ placeholder name := ⟨x, whole.symm⟩
      constructor
      · intro begins
        have brace : '}' ∈ m := by
          have last := suffix.getLast behind
          rw [show (placeholder name).getLast _ = '}' by simp [placeholder]] at last
          exact last ▸ List.getLast_mem behind
        exact free'.2 (begins.subset brace)
      · intro begins
        have inside : value <:+: '{' :: '{' :: (name ++ ['}', '}']) :=
          begins.isInfix.trans suffix.isInfix
        have empty : ¬ value <:+: [] := fun part => some (List.infix_nil.mp part)
        have first := (infix_append_cons (a := []) free'.1 inside).resolve_left empty
        have second := (infix_append_cons (a := []) free'.1 first).resolve_left empty
        have third := (infix_append_cons free'.2 second).resolve_left outside
        exact (infix_append_cons (a := []) free'.2 third).elim empty empty

/-- The placeholder between parts of another one is the only occurrence of a placeholder. -/
theorem replaceVar_between {v w : String × String} (free : BraceFree v.1.toList)
    (free' : BraceFree w.1.toList) (differ : v.1.toList ≠ w.1.toList) {x z : List Char}
    (front : x <:+: varText w) (behind : z <:+: varText w) :
    replaceVar (x ++ (varText v ++ z)) v = x ++ (v.2.toList ++ z) := by
  have outside : ∀ {y}, y <:+: varText w → ¬ varText v <:+: y := fun part inside =>
    differ (infix_placeholder free free' (inside.trans part))
  have parts : split (varText v) (x ++ (varText v ++ z)) = [x, z] := by
    have both := split_append (placeholder_ne_nil _) (borderless_placeholder free) x z
    have first := splitFrom_none (outside front) []
    have last := splitFrom_none (outside behind) []
    exact both.trans (by rw [split, split, varText] at *; rw [first, last]; rfl)
  rw [replaceVar, replaced, parts]
  simp [List.intercalate_cons_cons]

/-- The variables that are substituted last, one of them in front of the other. -/
theorem foldl_two {vars : List (String × String)} {text : List Char} {v w : String × String}
    (none : ∀ u ∈ vars, ¬ varText u <:+: text) :
    (vars ++ [v, w]).foldl replaceVar text = replaceVar (replaceVar text v) w := by
  rw [List.foldl_append, foldl_replaceVar_none none]
  rfl

/-- An environment of its own for some variables. -/
def environmentOf (vars : List (String × String)) : Collection :=
  { environments := [{ vars := vars }], activeEnv := some "" }

theorem activeVars_environmentOf (vars : List (String × String)) :
    (environmentOf vars).activeVars = vars := rfl

/-- Around the placeholder of one variable, parts of another one complete no placeholder. -/
theorem outside_between {v w u : String × String} (free : BraceFree v.1.toList)
    (free' : BraceFree w.1.toList) (free'' : BraceFree u.1.toList)
    (differ : u.1.toList ≠ v.1.toList) {x z : List Char} (front : x <+: varText w)
    (front' : x ≠ varText w) (behind : z <:+ varText w) (behind' : z ≠ varText w) :
    ¬ varText u <:+: x ++ (varText v ++ z) := by
  have short : ∀ {y}, y <:+: varText w → y ≠ varText w → ¬ varText u <:+: y := by
    intro y part proper inside
    have same := infix_placeholder free'' free' (inside.trans part)
    have whole : varText w <:+: y := by rwa [varText, same] at inside
    exact proper (part.eq_of_length_le whole.length_le)
  intro inside
  rcases (apart_placeholder free'' free differ).occurs inside with first | last
  · exact short front.isInfix front' first
  · exact short behind.isInfix behind' last

theorem valuesApart_of_orderFree {col : Collection} (distinct : (col.activeVars.map Prod.fst).Nodup)
    (free : ∀ v ∈ col.activeVars, BraceFree v.1.toList) (order : OrderFree col) :
    ValuesApart col.activeVars := by
  intro v first w second differ
  by_contra touching
  obtain ⟨own, touching⟩ := not_or.mp touching
  obtain ⟨x, z, front, front', behind, behind', touched⟩ :=
    exists_touching (placeholder_ne_nil _) touching
  have names : ∀ u ∈ col.activeVars, u ≠ v → u.1.toList ≠ v.1.toList := by
    intro u member other same
    exact other (List.inj_on_of_nodup_map distinct member first (String.toList_inj.mp same))
  have outside : ∀ u ∈ col.activeVars, u ≠ v → ¬ varText u <:+: x ++ (varText v ++ z) :=
    fun u member other => outside_between (free v first) (free w second) (free u member)
      (names u member other) front front' behind behind'
  obtain ⟨rest, same⟩ : ∃ rest, (rest ++ [v, w]).Perm col.activeVars := by
    have second' : w ∈ col.activeVars.erase v := (List.mem_erase_of_ne (Ne.symm differ)).mpr second
    refine ⟨(col.activeVars.erase v).erase w, ?_⟩
    have outer := List.perm_cons_erase first
    have inner := List.perm_cons_erase second'
    exact (List.perm_append_comm.trans ((inner.symm.cons v).trans outer.symm))
  have swapped : (rest ++ [w, v]).Perm col.activeVars :=
    ((List.Perm.swap v w []).append_left rest).trans same
  have none : ∀ u ∈ rest, ¬ varText u <:+: x ++ (varText v ++ z) := by
    intro u member
    have whole : (rest ++ [v, w]).Nodup := same.nodup_iff.mpr (List.Nodup.of_map _ distinct)
    refine outside u (same.subset (List.mem_append_left _ member)) ?_
    rintro rfl
    exact List.disjoint_of_nodup_append whole member List.mem_cons_self
  -- Both orders, on the text in which only `v` stands.
  have runs := (order (environmentOf _) same (String.ofList (x ++ (varText v ++ z)))).trans
    (order (environmentOf _) swapped (String.ofList (x ++ (varText v ++ z)))).symm
  rw [← String.toList_inj, toList_substitute, toList_substitute, activeVars_environmentOf,
    activeVars_environmentOf, String.toList_ofList, foldl_two none, foldl_two none,
    replaceVar_none (outside w second (Ne.symm differ)),
    replaceVar_between (free v first) (free w second) (names w second (Ne.symm differ)).symm
      front.isInfix behind.isInfix] at runs
  exact own (eq_of_replaced (placeholder_ne_nil _) touched runs)

theorem placeholdersApart_of_free {vars : List (String × String)}
    (distinct : (vars.map Prod.fst).Nodup) (free : ∀ v ∈ vars, BraceFree v.1.toList) :
    PlaceholdersApart vars := by
  intro v first w second differ
  have names : w.1.toList ≠ v.1.toList := fun same =>
    differ (List.inj_on_of_nodup_map distinct first second (String.toList_inj.mp same).symm)
  exact (apart_placeholder (free w second) (free v first) names).begins

/-- The order of the variables does not matter if no placeholder and no value touches the
placeholder of another variable. Where no name has a brace, it matters exactly if some value
touches one. -/
theorem substitute_order (col : Collection) (distinct : (col.activeVars.map Prod.fst).Nodup) :
    (PlaceholdersApart col.activeVars → ValuesApart col.activeVars → OrderFree col) ∧
      ((∀ v ∈ col.activeVars, BraceFree v.1.toList) →
        (OrderFree col ↔ ValuesApart col.activeVars)) :=
  ⟨orderFree_of_apart, fun free => ⟨valuesApart_of_orderFree distinct free,
    orderFree_of_apart (placeholdersApart_of_free distinct free)⟩⟩

def hostEnvironment : Collection := environmentOf [("host", "localhost"), ("port", "8080")]

theorem substitute_order_host : OrderFree hostEnvironment := by
  have free : ∀ v ∈ hostEnvironment.activeVars, BraceFree v.1.toList := by
    simp [hostEnvironment, activeVars_environmentOf, BraceFree]
  refine ((substitute_order hostEnvironment (by decide)).2 free).mpr ?_
  have touch : ∀ v ∈ hostEnvironment.activeVars, ∀ w ∈ hostEnvironment.activeVars, v ≠ w →
      BraceFree v.2.toList ∧ v.2.toList ≠ [] ∧ ¬ v.2.toList <:+: w.1.toList := by
    decide
  intro v first w second differ
  obtain ⟨free', clear⟩ := touch v first w second differ
  exact .inr ((apart_value (free w second) free').mpr clear)

/-- The value of the first variable is the placeholder of the second one. -/
theorem substitute_order_chained :
    ¬ ∀ col : Collection, (col.activeVars.map Prod.fst).Nodup → OrderFree col := by
  intro all
  have same := all (environmentOf [("a", "\x7b\x7bb\x7d\x7d"), ("b", "x")]) (by decide)
    (environmentOf [("b", "x"), ("a", "\x7b\x7bb\x7d\x7d")]) (List.Perm.swap ..)
    "\x7b\x7ba\x7d\x7d"
  rw [← String.toList_inj, toList_substitute, toList_substitute] at same
  revert same
  decide

end BitBeak.Collections
