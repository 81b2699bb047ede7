import Mathlib.Tactic.Common

/-! Arms that are tried in order on a text, each of which takes one word or whatever begins with
a lead. Where no text can be taken by two of them, their order does not matter. -/
namespace Arms

variable {α β : Type} [DecidableEq α]

inductive Pattern (α : Type) where
  | word (w : List α)
  | lead (p : List α)
  deriving DecidableEq

namespace Pattern

/-- What is left of a text that the pattern takes. -/
def rest : Pattern α → List α → Option (List α)
  | .word w, text => if text = w then some [] else none
  | .lead p, text => if p.isPrefixOf text then some (text.drop p.length) else none

/-- The text that leaves this rest. -/
def write : Pattern α → List α → List α
  | .word w, _ => w
  | .lead p, arg => p ++ arg

/-- No text is taken by both. -/
def Apart : Pattern α → Pattern α → Bool
  | .word w, .word v => w ≠ v
  | .word w, .lead p => !p.isPrefixOf w
  | .lead p, .word w => !p.isPrefixOf w
  | .lead p, .lead q => !p.isPrefixOf q && !q.isPrefixOf p

theorem rest_eq_some {pat : Pattern α} {text arg : List α} :
    pat.rest text = some arg ↔ text = pat.write arg ∧ (∀ w, pat = .word w → arg = []) := by
  cases pat with
  | word w =>
    rw [rest, write]
    constructor
    · intro found
      split at found
      · next same =>
        cases found
        exact ⟨same, fun _ _ => rfl⟩
      · cases found
    · rintro ⟨rfl, none⟩
      rw [if_pos rfl, none _ rfl]
  | lead p =>
    rw [rest, write]
    constructor
    · intro found
      split at found
      · next begins =>
        obtain ⟨more, rfl⟩ := List.isPrefixOf_iff_prefix.mp begins
        rw [List.drop_left] at found
        cases found
        exact ⟨rfl, nofun⟩
      · cases found
    · rintro ⟨rfl, _⟩
      rw [if_pos (List.isPrefixOf_iff_prefix.mpr (List.prefix_append _ _)), List.drop_left]

/-- The patterns are apart exactly if no text is taken by both. -/
theorem apart_iff (a b : Pattern α) :
    a.Apart b = true ↔ ∀ text, ¬ ((a.rest text).isSome ∧ (b.rest text).isSome) := by
  have taken : ∀ (pat : Pattern α) (text : List α), (pat.rest text).isSome ↔
      match pat with
      | .word w => text = w
      | .lead p => p <+: text := by
    intro pat text
    cases pat with
    | word w => rw [rest]; split <;> simp_all
    | lead p => rw [rest]; split <;> simp_all [List.isPrefixOf_iff_prefix]
  simp only [taken]
  cases a with
  | word w =>
    cases b with
    | word v =>
      rw [Apart, decide_eq_true_eq]
      exact ⟨fun differ text both => differ (both.1.symm.trans both.2),
        fun none same => none w ⟨rfl, same⟩⟩
    | lead p =>
      simp only [Apart, Bool.not_eq_true', ← Bool.not_eq_true, List.isPrefixOf_iff_prefix]
      exact ⟨fun differ text both => differ (both.1 ▸ both.2), fun none begins => none w ⟨rfl, begins⟩⟩
  | lead p =>
    cases b with
    | word w =>
      simp only [Apart, Bool.not_eq_true', ← Bool.not_eq_true, List.isPrefixOf_iff_prefix]
      exact ⟨fun differ text both => differ (both.2 ▸ both.1), fun none begins => none w ⟨begins, rfl⟩⟩
    | lead q =>
      simp only [Apart, Bool.and_eq_true, Bool.not_eq_true', ← Bool.not_eq_true,
        List.isPrefixOf_iff_prefix]
      constructor
      · rintro ⟨first, second⟩ text ⟨left, right⟩
        exact (List.prefix_or_prefix_of_prefix left right).elim first second
      · intro none
        exact ⟨fun below => none q ⟨below, List.prefix_refl q⟩,
          fun below => none p ⟨List.prefix_refl p, below⟩⟩

end Pattern

/-- The first arm that takes the text. -/
def firstMatch : List (Pattern α × (List α → β)) → List α → Option β
  | [], _ => none
  | arm :: arms, text =>
    match arm.1.rest text with
    | some arg => some (arm.2 arg)
    | none => firstMatch arms text

/-- Among arms that are apart, the one that takes a text is the only one. -/
theorem firstMatch_iff {arms : List (Pattern α × (List α → β))}
    (apart : arms.Pairwise fun a b => a.1.Apart b.1 = true) {text : List α} {b : β} :
    firstMatch arms text = some b ↔
      ∃ arm ∈ arms, ∃ arg, arm.1.rest text = some arg ∧ arm.2 arg = b := by
  induction arms with
  | nil => simp [firstMatch]
  | cons arm arms ih =>
    obtain ⟨others, rest⟩ := List.pairwise_cons.mp apart
    rw [firstMatch]
    cases here : arm.1.rest text with
    | none =>
      rw [ih rest]
      simp [here]
    | some arg =>
      constructor
      · intro found
        exact ⟨arm, List.mem_cons_self, arg, here, Option.some.inj found⟩
      · rintro ⟨arm', member, arg', there, same⟩
        rcases List.mem_cons.mp member with rfl | later
        · rw [here] at there
          cases there
          exact congrArg some same
        · exact absurd ⟨by rw [here]; rfl, by rw [there]; rfl⟩
            ((Pattern.apart_iff arm.1 arm'.1).mp (others arm' later) text)

/-- The order of arms that are apart does not matter. -/
theorem firstMatch_perm {arms others : List (Pattern α × (List α → β))}
    (apart : arms.Pairwise fun a b => a.1.Apart b.1 = true) (perm : others.Perm arms)
    (text : List α) : firstMatch others text = firstMatch arms text := by
  have symmetric : ∀ {a b : Pattern α × (List α → β)}, a.1.Apart b.1 = true →
      b.1.Apart a.1 = true := by
    intro a b ab
    rw [Pattern.apart_iff] at ab ⊢
    exact fun text both => ab text ⟨both.2, both.1⟩
  have apart' := (perm.pairwise_iff symmetric).mpr apart
  apply Option.ext
  intro b
  rw [firstMatch_iff apart', firstMatch_iff apart]
  exact exists_congr fun arm => and_congr_left fun _ => perm.mem_iff

theorem firstMatch_eq_none {arms : List (Pattern α × (List α → β))} {text : List α} :
    firstMatch arms text = none ↔ ∀ arm ∈ arms, arm.1.rest text = none := by
  induction arms with
  | nil => simp [firstMatch]
  | cons arm arms ih =>
    rw [firstMatch]
    cases here : arm.1.rest text with
    | none => simp [ih, here]
    | some arg => simp [here]

end Arms
