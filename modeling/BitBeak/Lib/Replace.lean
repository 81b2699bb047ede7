import BitBeak.Lib.Occurrence

/-! Replacement of all occurrences of a pattern, from left to right, and when the replacements of
two patterns commute: no occurrence of the one touches an occurrence of the other, nor what is put
in the place of it. -/
namespace Occurrence

variable {α : Type} {pat other mid new value : List α}

/- A piece of a text in which a pattern does not occur, whatever stands around the piece. -/

/-- No occurrence begins inside the piece. -/
def NoneBegins (pat mid : List α) : Prop := ∀ s, s <:+ mid → s ≠ [] → ¬ pat <+: s ∧ ¬ s <+: pat

/-- No occurrence that begins in front of the piece reaches what begins there. -/
def NoneReaches (pat mid : List α) : Prop :=
  ∀ x m, pat = x ++ m → x ≠ [] → m ≠ [] → ¬ m <+: mid ∧ ¬ mid <+: m

/-- No occurrence touches the piece. -/
structure Apart (pat mid : List α) : Prop where
  begins : NoneBegins pat mid
  reaches : NoneReaches pat mid

theorem NoneBegins.tail {c : α} (none : NoneBegins pat (c :: mid)) : NoneBegins pat mid :=
  fun s suffix => none s (suffix.trans (List.suffix_cons c mid))

theorem NoneBegins.not_prefix {c : α} (none : NoneBegins pat (c :: mid)) (t : List α) :
    ¬ pat <+: c :: (mid ++ t) := by
  intro begins
  have clear := none (c :: mid) List.suffix_rfl (List.cons_ne_nil _ _)
  rcases List.prefix_or_prefix_of_prefix begins (List.prefix_append (c :: mid) t) with short | long
  · exact clear.1 short
  · exact clear.2 long

theorem NoneReaches.not_prefix {x : List α} (none : NoneReaches pat mid) (some : x ≠ [])
    {t : List α} (begins : pat <+: x ++ (mid ++ t)) : pat <+: x := by
  rcases List.prefix_or_prefix_of_prefix begins (List.prefix_append x _) with short | ⟨m, rfl⟩
  · exact short
  · have inner : m <+: mid ++ t := (List.prefix_append_right_inj x).mp begins
    cases m with
    | nil => simp
    | cons c m =>
      have clear := none x (c :: m) rfl some (List.cons_ne_nil _ _)
      rcases List.prefix_or_prefix_of_prefix inner (List.prefix_append mid t) with short | long
      · exact absurd short clear.1
      · exact absurd long clear.2

/-- An occurrence is in front of the piece or behind it. -/
theorem Apart.occurs (apart : Apart pat mid) {x z : List α}
    (inside : pat <:+: x ++ (mid ++ z)) : pat <:+: x ∨ pat <:+: z := by
  induction x with
  | nil =>
    have none := apart.begins
    clear apart
    right
    induction mid with
    | nil => exact inside
    | cons c mid ih =>
      rcases List.infix_cons_iff.mp inside with begins | later
      · exact absurd begins (none.not_prefix z)
      · exact ih later none.tail
  | cons c x ih =>
    rcases List.infix_cons_iff.mp inside with begins | later
    · exact .inl (apart.reaches.not_prefix (List.cons_ne_nil c x) begins).isInfix
    · rcases ih later with front | behind
      · exact .inl (front.trans (List.suffix_cons c x).isInfix)
      · exact .inr behind

/-- What touches a piece is an occurrence in some text around it: the text takes parts of the
pattern that are not the whole. -/
theorem exists_touching (nonempty : pat ≠ []) (touching : ¬ Apart pat mid) :
    ∃ x z, x <+: pat ∧ x ≠ pat ∧ z <:+ pat ∧ z ≠ pat ∧ pat <:+: x ++ (mid ++ z) := by
  by_cases begins : NoneBegins pat mid
  · obtain ⟨x, m, whole, front, behind, meets⟩ : ∃ x m, pat = x ++ m ∧ x ≠ [] ∧ m ≠ [] ∧
        (m <+: mid ∨ mid <+: m) := by
      have reaches : ¬ NoneReaches pat mid := fun none => touching ⟨begins, none⟩
      simp only [NoneReaches, not_forall] at reaches
      obtain ⟨x, m, whole, front, behind, meets⟩ := reaches
      exact ⟨x, m, whole, front, behind, by tauto⟩
    have shorter : x ≠ pat := by
      rintro rfl
      exact behind (List.append_right_eq_self.mp whole.symm)
    rcases meets with ⟨more, rfl⟩ | ⟨z, rfl⟩
    · refine ⟨x, [], ⟨m, whole.symm⟩, shorter, List.nil_suffix, ?_, [], more, by simp [whole]⟩
      rintro rfl
      exact front (List.append_eq_nil_iff.mp whole.symm).1
    · refine ⟨x, z, ⟨mid ++ z, whole.symm⟩, shorter, ⟨x ++ mid, by simp [whole]⟩, ?_, ?_⟩
      · rintro rfl
        have lengths := congrArg List.length whole
        have positive := List.length_pos_iff.mpr front
        simp only [List.length_append] at lengths
        omega
      · rw [← whole]
  · obtain ⟨s, ⟨f, whole⟩, some, meets⟩ : ∃ s, s <:+ mid ∧ s ≠ [] ∧ (pat <+: s ∨ s <+: pat) := by
      simp only [NoneBegins, not_forall] at begins
      obtain ⟨s, suffix, some, meets⟩ := begins
      exact ⟨s, suffix, some, by tauto⟩
    rcases meets with begins | ⟨z, rfl⟩
    · refine ⟨[], [], List.nil_prefix, nonempty.symm, List.nil_suffix, nonempty.symm, ?_⟩
      rw [List.append_nil, List.nil_append]
      exact begins.isInfix.trans ⟨f, [], by rw [List.append_nil, whole]⟩
    · refine ⟨[], z, List.nil_prefix, nonempty.symm, ⟨s, rfl⟩, ?_, f, [], ?_⟩
      · exact fun same => some (List.append_left_eq_self.mp same.symm)
      · simp [← whole]

theorem length_behind (nonempty : pat ≠ []) {t more : List α} (whole : pat ++ more = t) :
    more.length < t.length := by
  have positive := List.length_pos_iff.mpr nonempty
  rw [← whole, List.length_append]
  omega

/-- A text is read occurrence by occurrence and element by element. -/
theorem occurrence_induction {motive : List α → Prop} (nonempty : pat ≠ []) (nil : motive [])
    (pattern : ∀ t, motive t → motive (pat ++ t))
    (cons : ∀ c t, ¬ pat <+: c :: t → motive t → motive (c :: t)) (t : List α) : motive t := by
  induction hn : t.length using Nat.strongRecOn generalizing t with
  | ind n ih =>
    cases t with
    | nil => exact nil
    | cons c rest =>
      by_cases begins : pat <+: c :: rest
      · obtain ⟨more, whole⟩ := begins
        exact whole ▸ pattern more (ih _ (hn ▸ length_behind nonempty whole) more rfl)
      · have shorter : rest.length < n := by
          rw [← hn]
          exact Nat.lt_succ_self _
        exact cons c rest begins (ih _ shorter rest rfl)

section Replaced

theorem intercalate_modifyHead (front : List α) {parts : List (List α)} (some : parts ≠ []) :
    new.intercalate (parts.modifyHead (front ++ ·)) = front ++ new.intercalate parts := by
  obtain ⟨p, parts, rfl⟩ := List.exists_cons_of_ne_nil some
  cases parts with
  | nil => simp
  | cons q parts => simp [List.intercalate_cons_cons]

variable [BEq α]

/-- The text with `new` in the place of every occurrence. -/
def replaced (pat new t : List α) : List α := new.intercalate (split pat t)

@[simp] theorem replaced_nil : replaced pat new [] = [] := List.intercalate_singleton

theorem splitFrom_part (part t : List α) :
    splitFrom pat 0 part t = (splitFrom pat 0 [] t).modifyHead (part ++ ·) := by
  induction t generalizing part with
  | nil => simp [splitFrom]
  | cons c t ih =>
    rw [splitFrom, splitFrom]
    split
    · simp
    · rw [ih (part ++ [c]), ih ([] ++ [c]), List.modifyHead_modifyHead]
      simp [Function.comp_def]

variable [LawfulBEq α]

theorem replaced_pattern (nonempty : pat ≠ []) (t : List α) :
    replaced pat new (pat ++ t) = new ++ replaced pat new t := by
  obtain ⟨c, rest, rfl⟩ := List.exists_cons_of_ne_nil nonempty
  have begins : (c :: rest).isPrefixOf (c :: (rest ++ t)) = true :=
    List.isPrefixOf_iff_prefix.mpr (List.prefix_append (c :: rest) t)
  rw [replaced, split, List.cons_append, splitFrom, if_pos begins, List.length_cons,
    Nat.add_sub_cancel, splitFrom_skip, List.intercalate_cons_of_ne_nil (splitFrom_ne_nil _ _ _),
    List.nil_append]
  rfl

theorem replaced_cons {c : α} {t : List α} (none : ¬ pat <+: c :: t) :
    replaced pat new (c :: t) = c :: replaced pat new t := by
  have here : ¬ pat.isPrefixOf (c :: t) = true := fun begins =>
    none (List.isPrefixOf_iff_prefix.mp begins)
  rw [replaced, split, splitFrom, if_neg here, splitFrom_part,
    intercalate_modifyHead _ (splitFrom_ne_nil _ _ _)]
  rfl

theorem replaced_none {t : List α} (none : ¬ pat <:+: t) : replaced pat new t = t := by
  rw [replaced, split, splitFrom_none none, List.intercalate_singleton, List.nil_append]

theorem replaced_same (nonempty : pat ≠ []) (t : List α) : replaced pat pat t = t := by
  induction t using occurrence_induction nonempty with
  | nil => rfl
  | pattern t ih => rw [replaced_pattern nonempty, ih]
  | cons c t none ih => rw [replaced_cons none, ih]

theorem replaced_front (none : NoneBegins pat mid) (t : List α) :
    replaced pat new (mid ++ t) = mid ++ replaced pat new t := by
  induction mid with
  | nil => rfl
  | cons c mid ih =>
    rw [List.cons_append, replaced_cons (none.not_prefix t), ih none.tail]
    rfl

/-- A pattern of one element is replaced element by element. -/
theorem replaced_single [DecidableEq α] (q : α) (new t : List α) :
    replaced [q] new t = t.flatMap fun c => if c = q then new else [c] := by
  induction t with
  | nil => exact replaced_nil
  | cons c t ih =>
    by_cases same : c = q
    · have step : replaced [q] new (q :: t) = new ++ replaced [q] new t :=
        replaced_pattern (List.cons_ne_nil _ _) t
      rw [same, step, ih, List.flatMap_cons, if_pos rfl]
    · have none : ¬ [q] <+: c :: t := fun begins => same (List.cons_prefix_cons.mp begins).1.symm
      rw [replaced_cons none, ih, List.flatMap_cons, if_neg same]
      rfl

theorem mem_of_replaced {pat : List α} (nonempty : pat ≠ []) {e : α} {t : List α}
    (inside : e ∈ replaced pat new t) : e ∈ new ∨ e ∈ t := by
  induction t using occurrence_induction nonempty with
  | nil => exact .inr inside
  | pattern t ih =>
    rw [replaced_pattern nonempty, List.mem_append] at inside
    rcases inside with put | later
    · exact .inl put
    · exact (ih later).imp_right (List.mem_append_right pat)
  | cons c t none ih =>
    rw [replaced_cons none, List.mem_cons] at inside
    rcases inside with rfl | later
    · exact .inr List.mem_cons_self
    · exact (ih later).imp_right (List.mem_cons_of_mem c)

/-- The length grows with each occurrence by the same amount. -/
theorem length_replaced (new : List α) (nonempty : pat ≠ []) (t : List α) :
    ∃ n, (replaced pat new t).length + n * pat.length = t.length + n * new.length := by
  induction t using occurrence_induction nonempty with
  | nil => exact ⟨0, by simp⟩
  | pattern t ih =>
    obtain ⟨n, grown⟩ := ih
    refine ⟨n + 1, ?_⟩
    rw [replaced_pattern nonempty, List.length_append, List.length_append, Nat.succ_mul,
      Nat.succ_mul]
    omega
  | cons c t none ih =>
    obtain ⟨n, grown⟩ := ih
    refine ⟨n, ?_⟩
    rw [replaced_cons none, List.length_cons, List.length_cons]
    omega

/-- A text with an occurrence changes, unless the occurrence is put in its own place. -/
theorem eq_of_replaced (nonempty : pat ≠ []) {t : List α} (inside : pat <:+: t)
    (same : replaced pat new t = t) : new = pat := by
  induction t using occurrence_induction nonempty with
  | nil => exact absurd (List.infix_nil.mp inside) nonempty
  | pattern t ih =>
    rw [replaced_pattern nonempty] at same
    have long : new.length = pat.length := by
      obtain ⟨n, grown⟩ := length_replaced new nonempty t
      have lengths := congrArg List.length same
      rw [List.length_append, List.length_append] at lengths
      rcases Nat.lt_trichotomy new.length pat.length with shorter | equal | longer
      · have most : n * new.length ≤ n * pat.length := Nat.mul_le_mul_left n shorter.le
        omega
      · exact equal
      · have least : n * pat.length ≤ n * new.length := Nat.mul_le_mul_left n longer.le
        omega
    exact List.append_inj_left same long
  | cons c t none ih =>
    rw [replaced_cons none] at same
    rcases List.infix_cons_iff.mp inside with begins | later
    · exact absurd begins none
    · exact ih later (List.cons.inj same).2

/-- What is put in does not complete an occurrence of a pattern it does not touch. -/
theorem prefix_of_prefix_replaced (nonempty : pat ≠ []) (reaches : NoneReaches other new)
    {t x : List α} (some : x ≠ []) (begins : other <+: x ++ replaced pat new t) :
    other <+: x ++ t := by
  induction t using occurrence_induction nonempty generalizing x with
  | nil => exact begins
  | pattern t ih =>
    rw [replaced_pattern nonempty] at begins
    exact (reaches.not_prefix some begins).trans (List.prefix_append x _)
  | cons c t none ih =>
    rw [replaced_cons none, ← List.singleton_append, ← List.append_assoc] at begins
    have later := ih (List.append_ne_nil_of_left_ne_nil some [c]) begins
    rwa [List.append_assoc] at later

/-- Two replacements of which none touches the other commute. -/
theorem replaced_comm (nonempty : pat ≠ []) (nonempty' : other ≠ [])
    (separate : NoneBegins pat other) (separate' : NoneBegins other pat)
    (apart : Apart other new) (apart' : Apart pat value) (t : List α) :
    replaced other value (replaced pat new t) = replaced pat new (replaced other value t) := by
  induction hn : t.length using Nat.strongRecOn generalizing t with
  | ind n ih =>
    cases t with
    | nil => rfl
    | cons c rest =>
      by_cases first : pat <+: c :: rest
      · obtain ⟨more, whole⟩ := first
        have shorter := hn ▸ length_behind nonempty whole
        rw [← whole, replaced_pattern nonempty, replaced_front apart.begins,
          replaced_front separate', replaced_pattern nonempty, ih _ shorter more rfl]
      · by_cases second : other <+: c :: rest
        · obtain ⟨more, whole⟩ := second
          have shorter := hn ▸ length_behind nonempty' whole
          rw [← whole, replaced_pattern nonempty', replaced_front apart'.begins,
            replaced_front separate, replaced_pattern nonempty', ih _ shorter more rfl]
        · have shorter : rest.length < n := by
            rw [← hn]
            exact Nat.lt_succ_self _
          have stays : ¬ other <+: c :: replaced pat new rest := fun begins =>
            second (prefix_of_prefix_replaced nonempty apart.reaches (x := [c])
              (List.cons_ne_nil _ _) begins)
          have stays' : ¬ pat <+: c :: replaced other value rest := fun begins =>
            first (prefix_of_prefix_replaced nonempty' apart'.reaches (x := [c])
              (List.cons_ne_nil _ _) begins)
          rw [replaced_cons first, replaced_cons second, replaced_cons stays, replaced_cons stays',
            ih _ shorter rest rfl]

end Replaced

end Occurrence
