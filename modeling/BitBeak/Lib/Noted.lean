import BitBeak.Lib.Exec

/-! Programs that keep notes beside their state. Without its notes such a program is a program on
the state alone; a note tells what one part of it made of the state. -/
namespace Wire

variable {σ κ α β : Type}

structure Noted (σ κ : Type) where
  state : σ
  notes : List κ := []

abbrev Noting (σ κ α : Type) := Exec (Noted σ κ) α

/-- A part that is not noted. -/
def unnoted (m : Exec σ α) : Noting σ κ α := fun w =>
  match m w.state with
  | .ok (a, s) => .ok (a, { w with state := s })
  | .error e => .error e

instance : MonadLift (Exec σ) (Noting σ κ) := ⟨unnoted⟩

/-- A part with a note of the states before and behind it. -/
def noted (note : σ → σ → κ) (m : Exec σ α) : Noting σ κ α := fun w =>
  match m w.state with
  | .ok (a, s) => .ok (a, { state := s, notes := w.notes ++ [note w.state s] })
  | .error e => .error e

/-- Without its notes the one program is the other. -/
def Erases (noting : Noting σ κ α) (m : Exec σ α) : Prop :=
  ∀ w, (noting w).map (fun (a, after) => (a, after.state)) = m w.state

namespace Erases

theorem unnoted (m : Exec σ α) : Erases (unnoted m : Noting σ κ α) m := by
  intro w
  unfold Wire.unnoted
  cases m w.state <;> rfl

theorem noted (note : σ → σ → κ) (m : Exec σ α) : Erases (noted note m) m := by
  intro w
  unfold Wire.noted
  cases m w.state <;> rfl

theorem pure (a : α) : Erases (Pure.pure a : Noting σ κ α) (Pure.pure a) :=
  fun _ => rfl

theorem bind {n : Noting σ κ α} {m : Exec σ α} {f : α → Noting σ κ β} {g : α → Exec σ β}
    (first : Erases n m) (rest : ∀ a, Erases (f a) (g a)) : Erases (n >>= f) (m >>= g) := by
  intro w
  change (Except.bind (n w) (fun p => f p.1 p.2)).map _ =
    Except.bind (m w.state) (fun p => g p.1 p.2)
  rw [← first w]
  cases n w with
  | error e => rfl
  | ok p => exact rest p.1 p.2

theorem ite {c : Prop} [Decidable c] {n n' : Noting σ κ α} {m m' : Exec σ α}
    (yes : c → Erases n m) (no : ¬ c → Erases n' m') :
    Erases (if c then n else n') (if c then m else m') := by
  by_cases h : c
  · rw [if_pos h, if_pos h]
    exact yes h
  · rw [if_neg h, if_neg h]
    exact no h

end Erases

namespace Meets

variable {P : σ → Prop} {Q : α → σ → Prop} {N : List κ → Prop} {m : Exec σ α}

theorem unnoted (run : Meets P m Q) :
    Meets (fun w => P w.state ∧ N w.notes) (unnoted m : Noting σ κ α)
      (fun a w => Q a w.state ∧ N w.notes) := by
  rintro w ⟨before, notes⟩
  obtain ⟨a, s, ran, after⟩ := run w.state before
  refine ⟨a, { w with state := s }, ?_, after, notes⟩
  rw [Wire.unnoted, ran]

/-- What is known of the note is known of the last note. -/
theorem noted {note : σ → σ → κ} {N' : List κ → Prop}
    (run : ∀ s, P s → ∃ a t, m s = .ok (a, t) ∧ Q a t ∧
      ∀ notes, N notes → N' (notes ++ [note s t])) :
    Meets (fun w => P w.state ∧ N w.notes) (noted note m)
      (fun a w => Q a w.state ∧ N' w.notes) := by
  rintro w ⟨before, notes⟩
  obtain ⟨a, s, ran, after, known⟩ := run w.state before
  refine ⟨a, { state := s, notes := w.notes ++ [note w.state s] }, ?_, after, known _ notes⟩
  rw [Wire.noted, ran]

end Meets

end Wire
