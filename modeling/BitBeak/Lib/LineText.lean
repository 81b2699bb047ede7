import Mathlib.Data.List.Infix

/-! Texts cut into lines and lines joined to a text again. A line ends with `lf`, or with `cr` and
`lf`; what stands behind the last end is a line if it is not empty. -/
namespace LineText

variable {α : Type} [DecidableEq α] (lf cr : α)

/-- A line without the `cr` at its end. -/
def stripped (l : List α) : List α := if l.getLast? = some cr then l.dropLast else l

def lines (t : List α) : List (List α) :=
  let parts := t.splitOn lf
  let ended := parts.dropLast.map (stripped cr)
  match parts.getLast? with
  | some [] | none => ended
  | some last => ended ++ [last]

def joined (ls : List (List α)) : List α := [lf].intercalate ls

/-- No line of the text ends with `cr`, and its last one is not ended. -/
def Settled (t : List α) : Prop := t.getLast? ≠ some lf ∧ ¬ [cr, lf] <:+: t

variable {lf cr}

theorem stripped_eq_self {l : List α} : stripped cr l = l ↔ l.getLast? ≠ some cr := by
  rw [stripped]
  split
  · next ends =>
    refine iff_of_false (fun same => ?_) (fun other => other ends)
    have nonempty : l ≠ [] := by
      rintro rfl
      cases ends
    have lengths := congrArg List.length same
    have positive := List.length_pos_iff.mpr nonempty
    rw [List.length_dropLast] at lengths
    omega
  · next other => exact iff_of_true rfl other

theorem length_stripped_le (cr : α) (l : List α) : (stripped cr l).length ≤ l.length := by
  rw [stripped]
  split
  · rw [List.length_dropLast]
    omega
  · exact Nat.le_refl _

theorem stripped_inside {l : List α} (inside : lf ∉ l) : lf ∉ stripped cr l := by
  rw [stripped]
  split
  · exact fun member => inside (List.mem_of_mem_dropLast member)
  · exact inside

theorem lines_nil : lines lf cr [] = [] := by
  simp [lines]

theorem lines_single {l : List α} (nonempty : l ≠ []) (inside : lf ∉ l) : lines lf cr l = [l] := by
  rw [lines, List.splitOn_eq_singleton inside]
  cases l with
  | nil => exact absurd rfl nonempty
  | cons c l => rfl

theorem lines_cons {l : List α} (inside : lf ∉ l) (rest : List α) :
    lines lf cr (l ++ lf :: rest) = stripped cr l :: lines lf cr rest := by
  obtain ⟨d, ds, parts⟩ := List.exists_cons_of_ne_nil (List.splitOn_ne_nil lf rest)
  rw [lines, List.splitOn_append_cons_self_of_not_mem inside, lines, parts,
    List.dropLast_cons_of_ne_nil (List.cons_ne_nil d ds), List.map_cons, List.getLast?_cons_cons]
  split <;> rfl

/-- A text has no end of line in it, or it has a first one. -/
theorem first_line (lf : α) (t : List α) : lf ∉ t ∨ ∃ l rest, t = l ++ lf :: rest ∧ lf ∉ l := by
  by_cases inside : lf ∈ t
  · obtain ⟨l, rest, whole, before⟩ := List.eq_append_cons_of_mem inside
    exact .inr ⟨l, rest, whole, before⟩
  · exact .inl inside

/-- A text is empty, or one line without an end, or a line in front of a text. -/
@[elab_as_elim] theorem line_induction (lf : α) {motive : List α → Prop} (nil : motive [])
    (single : ∀ l, l ≠ [] → lf ∉ l → motive l)
    (cons : ∀ l rest, lf ∉ l → motive rest → motive (l ++ lf :: rest)) (t : List α) : motive t := by
  induction h : t.length using Nat.strongRecOn generalizing t with
  | ind n ih =>
    rcases first_line lf t with none | ⟨l, rest, rfl, inside⟩
    · by_cases empty : t = []
      · rw [empty]
        exact nil
      · exact single t empty none
    · refine cons l rest inside (ih rest.length ?_ rest rfl)
      rw [← h, List.length_append, List.length_cons]
      omega

/- Joining the lines. -/

omit [DecidableEq α] in
theorem joined_cons {l : List α} {ls : List (List α)} (more : ls ≠ []) :
    joined lf (l :: ls) = l ++ lf :: joined lf ls := by
  rw [joined, List.intercalate_cons_of_ne_nil more, List.append_assoc]
  rfl

theorem lines_ne_nil {t : List α} (nonempty : t ≠ []) : lines lf cr t ≠ [] := by
  rcases first_line lf t with none | ⟨l, rest, rfl, inside⟩
  · rw [lines_single nonempty none]
    exact List.cons_ne_nil _ _
  · rw [lines_cons inside]
    exact List.cons_ne_nil _ _

omit [DecidableEq α] in
theorem settled_of_none {t : List α} (none : lf ∉ t) : Settled lf cr t :=
  ⟨fun last => none (List.mem_of_getLast? last),
    fun inside => none (inside.subset (List.mem_cons_of_mem cr (List.mem_singleton_self lf)))⟩

omit [DecidableEq α] in
theorem pair_infix (differ : cr ≠ lf) {l rest : List α} (inside : lf ∉ l) :
    [cr, lf] <:+: l ++ lf :: rest ↔ l.getLast? = some cr ∨ [cr, lf] <:+: rest := by
  induction l with
  | nil => simp [List.infix_cons_iff, differ]
  | cons c l ih =>
    obtain ⟨first, others⟩ := not_or.mp (fun member => inside (List.mem_cons.mpr member))
    cases l with
    | nil => simp [List.infix_cons_iff, differ, eq_comm (a := cr)]
    | cons d l =>
      have unequal : ¬ lf = d := fun same => others (same ▸ List.mem_cons_self)
      rw [List.getLast?_cons_cons, ← ih others, List.cons_append, List.infix_cons_iff]
      simp [unequal]

omit [DecidableEq α] in
/-- In front of an end of line stands no `cr`, and the rest is settled. -/
theorem settled_cons (differ : cr ≠ lf) {l rest : List α} (inside : lf ∉ l) (more : rest ≠ []) :
    Settled lf cr (l ++ lf :: rest) ↔ l.getLast? ≠ some cr ∧ Settled lf cr rest := by
  have last : (l ++ lf :: rest).getLast? = rest.getLast? := by
    rw [List.getLast?_append_of_ne_nil _ (List.cons_ne_nil _ _), List.getLast?_cons_of_ne_nil more]
  rw [Settled, Settled, last, pair_infix differ inside, not_or]
  exact and_left_comm

/-- The lines of a settled text are the text again, and of no other. -/
theorem joined_lines (differ : cr ≠ lf) (t : List α) :
    joined lf (lines lf cr t) = t ↔ Settled lf cr t := by
  induction t using line_induction lf with
  | nil => exact iff_of_true (by simp [lines_nil, joined]) (settled_of_none List.not_mem_nil)
  | single l nonempty none =>
    rw [lines_single nonempty none, joined, List.intercalate_singleton]
    exact iff_of_true rfl (settled_of_none none)
  | cons l rest inside ih =>
    rw [lines_cons inside]
    by_cases more : rest = []
    · subst more
      refine iff_of_false (fun same => ?_) (fun settled => settled.1 List.getLast?_concat)
      have short := length_stripped_le cr l
      rw [lines_nil, joined, List.intercalate_singleton] at same
      have lengths := congrArg List.length same
      simp at lengths
      omega
    · rw [joined_cons (lines_ne_nil more), settled_cons differ inside more, ← ih, ← stripped_eq_self]
      constructor
      · intro same
        -- Both sides are cut at the first end of line.
        have cut := congrArg (List.splitOn lf) same
        rw [List.splitOn_append_cons_self_of_not_mem (stripped_inside inside),
          List.splitOn_append_cons_self_of_not_mem inside] at cut
        have front := (List.cons.inj cut).1
        rw [front] at same
        exact ⟨front, (List.cons.inj (List.append_cancel_left same)).2⟩
      · rintro ⟨plain, others⟩
        rw [plain, others]

theorem mem_stripped {l : List α} {c : α} (member : c ∈ stripped cr l) : c ∈ l := by
  rw [stripped] at member
  split at member
  · exact List.mem_of_mem_dropLast member
  · exact member

/-- Joined lines have no character that the text does not have. -/
theorem mem_joined_lines (t : List α) {c : α} (member : c ∈ joined lf (lines lf cr t)) : c ∈ t := by
  induction t using line_induction lf with
  | nil => simp [lines_nil, joined] at member
  | single l nonempty none => simpa [lines_single nonempty none, joined] using member
  | cons l rest inside ih =>
    rw [lines_cons inside] at member
    by_cases more : rest = []
    · rw [more, lines_nil, joined, List.intercalate_singleton] at member
      exact List.mem_append_left _ (mem_stripped member)
    · rw [joined_cons (lines_ne_nil more), List.mem_append, List.mem_cons] at member
      rcases member with front | rfl | back
      · exact List.mem_append_left _ (mem_stripped front)
      · exact List.mem_append_right _ List.mem_cons_self
      · exact List.mem_append_right _ (List.mem_cons_of_mem _ (ih back))

/- Reading line by line. -/

theorem mem_lines {t l : List α} (member : l ∈ lines lf cr t) : lf ∉ l := by
  induction t using line_induction lf with
  | nil => simp [lines_nil] at member
  | single t nonempty none =>
    rw [lines_single nonempty none, List.mem_singleton] at member
    rwa [member]
  | cons first rest inside ih =>
    rw [lines_cons inside, List.mem_cons] at member
    rcases member with rfl | later
    · exact stripped_inside inside
    · exact ih later

section reading
variable {β : Type} {read : List α → Option β}
  (blank : read [] = none) (ends : ∀ l, read (stripped cr l) = read l)
include blank ends

/-- What is read from joined lines is what is read from each. -/
theorem filterMap_lines_joined {ls : List (List α)} (inside : ∀ l ∈ ls, lf ∉ l) :
    (lines lf cr (joined lf ls)).filterMap read = ls.filterMap read := by
  induction ls with
  | nil => simp [joined, lines_nil]
  | cons l ls ih =>
    obtain ⟨first, others⟩ := List.forall_mem_cons.mp inside
    by_cases more : ls = []
    · rw [more, joined, List.intercalate_singleton]
      by_cases empty : l = []
      · simp [empty, lines_nil, blank]
      · rw [lines_single empty first]
    · rw [joined_cons more, lines_cons first, List.filterMap_cons, List.filterMap_cons, ends,
        ih others]

/-- Cutting a text into lines and joining them changes nothing in what is read from them. -/
theorem filterMap_lines_again (t : List α) :
    (lines lf cr (joined lf (lines lf cr t))).filterMap read = (lines lf cr t).filterMap read :=
  filterMap_lines_joined blank ends fun _ member => mem_lines member

end reading

end LineText
