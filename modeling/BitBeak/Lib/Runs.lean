import Mathlib.Tactic.Common

/-! Systems that move by labelled steps. A step function says what a label does in a
state, or that it cannot happen there. A run may be restricted to steps that a guard
allows; the unrestricted run has the guard that allows everything. -/
namespace Runs

variable {σ α : Type}

/-- Runs of `step` from `s` whose every step satisfies the guard in the state it leaves. -/
inductive Run (step : σ → α → Option σ) (guard : σ → α → Prop) (s : σ) : σ → Prop where
  | start : Run step guard s s
  | next {t u : σ} {a : α} :
      Run step guard s t → guard t a → step t a = some u → Run step guard s u

/-- Every state some run reaches. -/
def Reachable (step : σ → α → Option σ) (s : σ) : σ → Prop :=
  Run step (fun _ _ => True) s

variable {step : σ → α → Option σ} {guard : σ → α → Prop} {s t u : σ} {a : α}

namespace Run

theorem invariant {I : σ → Prop} (run : Run step guard s t) (base : I s)
    (keep : ∀ t u a, I t → guard t a → step t a = some u → I u) : I t := by
  induction run with
  | start => exact base
  | next _ allowed move ih => exact keep _ _ _ ih allowed move

theorem trans (first : Run step guard s t) (second : Run step guard t u) :
    Run step guard s u := by
  induction second with
  | start => exact first
  | next _ allowed move ih => exact .next ih allowed move

end Run

namespace Reachable

theorem refl (s : σ) : Reachable step s s := .start

theorem next (run : Reachable step s t) (move : step t a = some u) : Reachable step s u :=
  Run.next run trivial move

theorem trans (first : Reachable step s t) (second : Reachable step t u) :
    Reachable step s u :=
  Run.trans first second

theorem invariant {I : σ → Prop} (run : Reachable step s t) (base : I s)
    (keep : ∀ t u a, I t → step t a = some u → I u) : I t :=
  Run.invariant run base (fun t u a held _ move => keep t u a held move)

end Reachable

/-- A list of labels taken one after the other. -/
def play (step : σ → α → Option σ) (s : σ) : List α → Option σ
  | [] => some s
  | a :: rest => (step s a).bind (fun t => play step t rest)

theorem run_of_play (acts : List α) (allowed : ∀ s, ∀ a ∈ acts, guard s a)
    (h : play step s acts = some t) : Run step guard s t := by
  induction acts generalizing s with
  | nil => exact Option.some.inj h ▸ .start
  | cons a rest ih =>
    obtain ⟨mid, move, after⟩ := Option.bind_eq_some_iff.mp h
    have first : Run step guard s mid := .next .start (allowed s a (List.mem_cons_self ..)) move
    exact first.trans (ih (fun s b member => allowed s b (List.mem_cons_of_mem a member)) after)

theorem reachable_of_play (acts : List α) (h : play step s acts = some t) :
    Reachable step s t :=
  run_of_play acts (fun _ _ _ => trivial) h

end Runs
