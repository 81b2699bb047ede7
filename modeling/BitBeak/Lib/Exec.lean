import BitBeak.Lib.Bytes

/-! Programs that update a state and may fault, and rules for their total
correctness: `Meets P m Q` says that from every state in `P` the program `m`
finishes without a fault in a state in `Q`. `Gives P m Q` says so of the runs
that finish, whether or not others fault. -/
namespace Wire

abbrev Exec (σ α : Type) := StateT σ (Except Fault) α

variable {σ α β : Type}

/-- From every state of `P` the program ends normally, with its result and state in `Q`. -/
def Meets (P : σ → Prop) (m : Exec σ α) (Q : α → σ → Prop) : Prop :=
  ∀ s, P s → ∃ a t, m s = .ok (a, t) ∧ Q a t

/-- The program ends normally and preserves `I`. -/
def Keeps (I : σ → Prop) (m : Exec σ α) : Prop := Meets I m (fun _ => I)

namespace Meets

theorem pure {P : σ → Prop} {Q : α → σ → Prop} {a : α} (h : ∀ s, P s → Q a s) :
    Meets P (Pure.pure a : Exec σ α) Q :=
  fun s hs => ⟨a, s, rfl, h s hs⟩

theorem bind {P : σ → Prop} {R : α → σ → Prop} {Q : β → σ → Prop}
    {m : Exec σ α} {f : α → Exec σ β}
    (first : Meets P m R) (rest : ∀ a, Meets (R a) (f a) Q) : Meets P (m >>= f) Q := by
  intro s hs
  obtain ⟨a, t, run, mid⟩ := first s hs
  obtain ⟨b, u, run', post⟩ := rest a t mid
  refine ⟨b, u, ?_, post⟩
  change Except.bind (m s) (fun p => f p.1 p.2) = _
  rw [run]
  exact run'

/-- The first program's result is known. -/
theorem bind_value {P R : σ → Prop} {Q : β → σ → Prop} {m : Exec σ α} {f : α → Exec σ β} {v : α}
    (first : Meets P m (fun a s => a = v ∧ R s)) (rest : Meets R (f v) Q) :
    Meets P (m >>= f) Q := by
  refine bind first ?_
  rintro a s ⟨rfl, held⟩
  exact rest s held

theorem modify {P : σ → Prop} {Q : PUnit → σ → Prop} {f : σ → σ}
    (h : ∀ s, P s → Q ⟨⟩ (f s)) : Meets P (modify f : Exec σ PUnit) Q :=
  fun s hs => ⟨⟨⟩, f s, rfl, h s hs⟩

theorem get {P : σ → Prop} {Q : σ → σ → Prop} (h : ∀ s, P s → Q s s) :
    Meets P (get : Exec σ σ) Q :=
  fun s hs => ⟨s, s, rfl, h s hs⟩

theorem ite {P : σ → Prop} {Q : α → σ → Prop} {c : Prop} [Decidable c] {m n : Exec σ α}
    (yes : c → Meets P m Q) (no : ¬ c → Meets P n Q) :
    Meets P (if c then m else n) Q := by
  by_cases h : c
  · rw [if_pos h]
    exact yes h
  · rw [if_neg h]
    exact no h

end Meets

namespace Keeps

variable {I : σ → Prop}

theorem pure (a : α) : Keeps I (Pure.pure a : Exec σ α) := Meets.pure (fun _ h => h)

theorem bind {m : Exec σ α} {f : α → Exec σ β} (first : Keeps I m)
    (rest : ∀ a, Keeps I (f a)) : Keeps I (m >>= f) :=
  Meets.bind first rest

theorem modify {f : σ → σ} (h : ∀ s, I s → I (f s)) : Keeps I (modify f : Exec σ PUnit) :=
  Meets.modify h

theorem get : Keeps I (get : Exec σ σ) := Meets.get (fun _ h => h)

theorem ite {c : Prop} [Decidable c] {m n : Exec σ α}
    (yes : c → Keeps I m) (no : ¬ c → Keeps I n) : Keeps I (if c then m else n) :=
  Meets.ite yes no

/-- A loop over a list keeps what each turn keeps. -/
theorem forM {m : α → Exec σ PUnit} {xs : List α} (turn : ∀ x ∈ xs, Keeps I (m x)) :
    Keeps I (xs.forM m) := by
  induction xs with
  | nil => exact pure _
  | cons x xs ih =>
    change Keeps I (m x >>= fun _ => xs.forM m)
    exact bind (turn x (List.mem_cons_self ..))
      (fun _ => ih (fun y hy => turn y (List.mem_cons_of_mem x hy)))

end Keeps

/- Partial correctness. -/

/-- What ends normally from a state of `P` has its result and state in `Q`. -/
def Gives (P : σ → Prop) (m : Exec σ α) (Q : α → σ → Prop) : Prop :=
  ∀ s, P s → ∀ a t, m s = .ok (a, t) → Q a t

/-- The program leaves a part of the state as it was. -/
def Leaves {τ : Type} (view : σ → τ) (m : Exec σ α) : Prop :=
  ∀ s a t, m s = .ok (a, t) → view t = view s

/-- A bind that ends normally has gone through both programs. -/
theorem run_bind {m : Exec σ α} {f : α → Exec σ β} {s u : σ} {b : β}
    (run : (m >>= f) s = .ok (b, u)) : ∃ a t, m s = .ok (a, t) ∧ f a t = .ok (b, u) := by
  change Except.bind (m s) (fun p => f p.1 p.2) = _ at run
  cases first : m s with
  | error e =>
    rw [first] at run
    cases run
  | ok p =>
    rw [first] at run
    exact ⟨p.1, p.2, rfl, run⟩

theorem run_lift {x : Except Fault α} {s t : σ} {a : α}
    (run : (liftM x : Exec σ α) s = .ok (a, t)) : x = .ok a ∧ s = t := by
  cases x with
  | error e => cases run
  | ok b =>
    cases run
    exact ⟨rfl, rfl⟩

namespace Gives

variable {P : σ → Prop} {Q : α → σ → Prop}

theorem pure {a : α} (h : ∀ s, P s → Q a s) : Gives P (Pure.pure a : Exec σ α) Q := by
  intro s hs b t run
  cases run
  exact h s hs

theorem bind {R : α → σ → Prop} {Q : β → σ → Prop} {m : Exec σ α} {f : α → Exec σ β}
    (first : Gives P m R) (rest : ∀ a, Gives (R a) (f a) Q) : Gives P (m >>= f) Q := by
  intro s hs b u run
  obtain ⟨a, t, half, other⟩ := run_bind run
  exact rest a t (first s hs a t half) b u other

/-- Nothing is needed of the first program. -/
theorem after {Q : β → σ → Prop} {m : Exec σ α} {f : α → Exec σ β}
    (rest : ∀ a, Gives (fun _ => True) (f a) Q) : Gives P (m >>= f) Q :=
  bind (R := fun _ _ => True) (fun _ _ _ _ _ => trivial) rest

/-- The first program's result is known. -/
theorem value {Q : β → σ → Prop} {m : Exec σ α} {f : α → Exec σ β} {v : α}
    (first : Gives P m (fun a _ => a = v)) (rest : Gives (fun _ => True) (f v) Q) :
    Gives P (m >>= f) Q := by
  refine bind first (fun a => ?_)
  rintro s rfl
  exact rest s trivial

/-- What the state says whatever it is. -/
theorem known {c : Prop} {m : Exec σ α} (holds : ∀ s, P s → c) (rest : c → Gives P m Q) :
    Gives P m Q :=
  fun s hs => rest (holds s hs) s hs

/-- A read, which changes nothing. -/
theorem read {Q : β → σ → Prop} {x : Except Fault α} {f : α → Exec σ β}
    (rest : ∀ a, x = .ok a → Gives P (f a) Q) : Gives P (liftM x >>= f) Q := by
  intro s hs b u run
  obtain ⟨a, t, half, other⟩ := run_bind run
  obtain ⟨known, rfl⟩ := run_lift half
  exact rest a known s hs b u other

theorem modify {Q : PUnit → σ → Prop} {f : σ → σ} (h : ∀ s, P s → Q ⟨⟩ (f s)) :
    Gives P (modify f : Exec σ PUnit) Q := by
  intro s hs b t run
  cases run
  exact h s hs

theorem get {Q : σ → σ → Prop} (h : ∀ s, P s → Q s s) : Gives P (get : Exec σ σ) Q := by
  intro s hs b t run
  cases run
  exact h s hs

theorem ite {c : Prop} [Decidable c] {m n : Exec σ α} (yes : c → Gives P m Q)
    (no : ¬ c → Gives P n Q) : Gives P (if c then m else n) Q := by
  by_cases h : c
  · rw [if_pos h]
    exact yes h
  · rw [if_neg h]
    exact no h

theorem mono {P' : σ → Prop} {Q' : α → σ → Prop} {m : Exec σ α} (gives : Gives P m Q)
    (before : ∀ s, P' s → P s) (after : ∀ a s, Q a s → Q' a s) : Gives P' m Q' :=
  fun s hs a t run => after a t (gives s (before s hs) a t run)

theorem and {Q' : α → σ → Prop} {m : Exec σ α} (one : Gives P m Q) (other : Gives P m Q') :
    Gives P m (fun a s => Q a s ∧ Q' a s) :=
  fun s hs a t run => ⟨one s hs a t run, other s hs a t run⟩

end Gives

namespace Leaves

variable {τ : Type} {view : σ → τ}

theorem pure (a : α) : Leaves view (Pure.pure a : Exec σ α) := by
  intro s b t run
  cases run
  rfl

theorem bind {m : Exec σ α} {f : α → Exec σ β} (first : Leaves view m)
    (rest : ∀ a, Leaves view (f a)) : Leaves view (m >>= f) := by
  intro s b u run
  obtain ⟨a, t, half, other⟩ := run_bind run
  exact (rest a t b u other).trans (first s a t half)

theorem lift (x : Except Fault α) : Leaves view (liftM x : Exec σ α) := by
  intro s a t run
  rw [(run_lift run).2]

theorem modify {f : σ → σ} (h : ∀ s, view (f s) = view s) :
    Leaves view (modify f : Exec σ PUnit) := by
  intro s a t run
  cases run
  exact h s

theorem get : Leaves view (get : Exec σ σ) := by
  intro s a t run
  cases run
  rfl

theorem ite {c : Prop} [Decidable c] {m n : Exec σ α} (yes : c → Leaves view m)
    (no : ¬ c → Leaves view n) : Leaves view (if c then m else n) := by
  split
  · exact yes ‹_›
  · exact no ‹_›

theorem forM {m : α → Exec σ PUnit} {xs : List α} (turn : ∀ x ∈ xs, Leaves view (m x)) :
    Leaves view (xs.forM m) := by
  induction xs with
  | nil => exact pure _
  | cons x xs ih =>
    change Leaves view (m x >>= fun _ => xs.forM m)
    apply bind (turn x (List.mem_cons_self ..))
    intro _
    exact ih fun y hy => turn y (List.mem_cons_of_mem x hy)

/-- A part of what is left is left. -/
theorem part {ρ : Type} {m : Exec σ α} (leaves : Leaves view m) (g : τ → ρ) :
    Leaves (fun s => g (view s)) m := by
  intro s a t run
  exact congrArg g (leaves s a t run)

/-- What is said of the part that is left is still true. -/
theorem gives {m : Exec σ α} (leaves : Leaves view m) (holds : τ → Prop) :
    Gives (fun s => holds (view s)) m (fun _ s => holds (view s)) := by
  intro s hs a t run
  rw [leaves s a t run]
  exact hs

end Leaves

end Wire
