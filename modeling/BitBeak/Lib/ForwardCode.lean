import Mathlib.Logic.Function.Iterate
import Mathlib.Tactic.Common

/-! Straight-line code whose jumps only go forward. A block is entered after skipping some
of its instructions and is left by an answer or past its end, where the rest of a skip is
the entry of the block that follows. Blocks compose, so code put together from parts is
reasoned about part by part. -/
namespace ForwardCode

/-- Control moves on, skipping instructions, or stops with an answer. -/
inductive Flow (σ ρ : Type) where
  | next (skip : Nat) (s : σ)
  | stop (r : ρ)
  deriving DecidableEq, Repr

variable {ι σ ρ : Type}

def Flow.andThen (flow : Flow σ ρ) (follow : Nat → σ → Flow σ ρ) : Flow σ ρ :=
  match flow with
  | .next skip s => follow skip s
  | .stop r => .stop r

@[simp] theorem Flow.next_andThen (skip : Nat) (s : σ) (follow : Nat → σ → Flow σ ρ) :
    (Flow.next skip s).andThen follow = follow skip s := rfl

@[simp] theorem Flow.stop_andThen (r : ρ) (follow : Nat → σ → Flow σ ρ) :
    (Flow.stop r : Flow σ ρ).andThen follow = .stop r := rfl

variable (exec : ι → σ → Flow σ ρ)

/-- The block run from behind its first `skip` instructions. -/
def run : List ι → Nat → σ → Flow σ ρ
  | [], skip, s => .next skip s
  | _ :: code, skip + 1, s => run code skip s
  | i :: code, 0, s => (exec i s).andThen (run code)

@[simp] theorem run_nil (skip : Nat) (s : σ) : run exec [] skip s = .next skip s := rfl

@[simp] theorem run_skip (i : ι) (code : List ι) (skip : Nat) (s : σ) :
    run exec (i :: code) (skip + 1) s = run exec code skip s := rfl

@[simp] theorem run_enter (i : ι) (code : List ι) (s : σ) :
    run exec (i :: code) 0 s = (exec i s).andThen (run exec code) := rfl

theorem run_append (code rest : List ι) (skip : Nat) (s : σ) :
    run exec (code ++ rest) skip s = (run exec code skip s).andThen (run exec rest) := by
  induction code generalizing skip s with
  | nil => rfl
  | cons i code ih =>
    cases skip with
    | succ skip => exact ih skip s
    | zero =>
      simp only [List.cons_append, run_enter]
      cases exec i s with
      | next skip t => exact ih skip t
      | stop r => rfl

/- The same code under a program counter, one instruction after the other. -/

/-- Control is in front of an instruction, has stopped at one, or is past the end. -/
inductive Control (σ ρ : Type) where
  | running (pc : Nat) (s : σ)
  | stopped (pc : Nat) (r : ρ)
  | lost
  deriving DecidableEq, Repr

def advance (prog : List ι) : Control σ ρ → Control σ ρ
  | .running pc s =>
    match prog[pc]? with
    | none => .lost
    | some i =>
      match exec i s with
      | .next skip t => .running (pc + 1 + skip) t
      | .stop r => .stopped pc r
  | .stopped pc r => .stopped pc r
  | .lost => .lost

/-- Wherever an instruction goes on, there is an instruction to go on with. -/
def Closed (prog : List ι) : Prop :=
  ∀ pc i, prog[pc]? = some i → ∀ s skip t, exec i s = .next skip t → pc + 1 + skip < prog.length

variable {exec}

@[simp] theorem advance_stopped (prog : List ι) (pc : Nat) (r : ρ) :
    advance exec prog (.stopped pc r) = .stopped pc r := rfl

@[simp] theorem advance_lost (prog : List ι) : advance exec prog .lost = .lost := rfl

theorem advance_next {prog : List ι} {pc skip : Nat} {i : ι} {s t : σ}
    (here : prog[pc]? = some i) (goes : exec i s = .next skip t) :
    advance exec prog (.running pc s) = .running (pc + 1 + skip) t := by
  simp [advance, here, goes]

theorem advance_stop {prog : List ι} {pc : Nat} {i : ι} {s : σ} {r : ρ}
    (here : prog[pc]? = some i) (stops : exec i s = .stop r) :
    advance exec prog (.running pc s) = .stopped pc r := by
  simp [advance, here, stops]

/-- Control in closed code stops at one of its instructions, having passed each instruction
once at most. -/
theorem Closed.stops {prog : List ι} (closed : Closed exec prog) (pc : Nat) (s : σ)
    (inside : pc < prog.length) :
    ∃ n ≤ prog.length - pc, ∃ last i t r, prog[last]? = some i ∧ exec i t = .stop r ∧
      (advance exec prog)^[n] (.running pc s) = .stopped last r := by
  -- the counter only grows, so the induction is on what is left behind it
  induction left : prog.length - pc using Nat.strongRecOn generalizing pc s with
  | ind left ih =>
    have here : prog[pc]? = some prog[pc] := List.getElem?_eq_getElem inside
    cases does : exec prog[pc] s with
    | stop r =>
      exact ⟨1, by omega, pc, _, s, r, here, does, advance_stop here does⟩
    | next skip t =>
      have further := closed pc _ here s skip t does
      obtain ⟨n, few, last, i, u, r, found, stops, run⟩ :=
        ih (prog.length - (pc + 1 + skip)) (by omega) (pc + 1 + skip) t further rfl
      refine ⟨n + 1, by omega, last, i, u, r, found, stops, ?_⟩
      rw [Function.iterate_succ_apply, advance_next here does]
      exact run

theorem run_drop (prog : List ι) (n skip : Nat) (s : σ) (inside : n ≤ prog.length) :
    run exec prog (n + skip) s = run exec (prog.drop n) skip s := by
  induction prog generalizing n with
  | nil =>
    have none : n = 0 := by simpa using inside
    simp [none]
  | cons i prog ih =>
    cases n with
    | zero => simp
    | succ n =>
      rw [Nat.add_right_comm, run_skip, List.drop_succ_cons]
      exact ih n (by simpa using inside)

/-- Code entered at an instruction runs it, and then what lies behind it. -/
theorem run_at {prog : List ι} {pc : Nat} {i : ι} (here : prog[pc]? = some i) (s : σ) :
    run exec prog pc s =
      (exec i s).andThen (fun skip t => run exec prog (pc + 1 + skip) t) := by
  obtain ⟨inside, rfl⟩ := List.getElem?_eq_some_iff.mp here
  have entered : run exec prog pc s = run exec (prog.drop pc) 0 s :=
    run_drop prog pc 0 s (Nat.le_of_lt inside)
  rw [List.drop_eq_getElem_cons inside, run_enter] at entered
  rw [entered]
  cases exec prog[pc] s with
  | stop r => rfl
  | next skip t => exact (run_drop prog (pc + 1) skip t inside).symm

/-- Where control stops, the code as a whole gives the same answer. -/
theorem run_eq_of_stopped {prog : List ι} {n pc last : Nat} {s : σ} {r : ρ}
    (stopped : (advance exec prog)^[n] (.running pc s) = .stopped last r) :
    run exec prog pc s = .stop r := by
  induction n generalizing pc s with
  | zero => cases stopped
  | succ n ih =>
    rw [Function.iterate_succ_apply] at stopped
    cases here : prog[pc]? with
    | none =>
      have past : advance exec prog (.running pc s) = .lost := by simp [advance, here]
      rw [past, Function.iterate_fixed (advance_lost prog)] at stopped
      cases stopped
    | some i =>
      rw [run_at here]
      cases does : exec i s with
      | next skip t =>
        rw [advance_next here does] at stopped
        exact ih stopped
      | stop answer =>
        rw [advance_stop here does, Function.iterate_fixed (advance_stopped prog pc answer)]
          at stopped
        cases stopped
        rfl

end ForwardCode
