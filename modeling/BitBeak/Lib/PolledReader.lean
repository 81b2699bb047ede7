import Mathlib.Tactic.Common

/-! Readers that are polled. A poll takes some of what is unread, as much as there is room for
or less, or it finds nothing yet, or it fails. What many polls take, put together, is what was
unread in the beginning, up to what still is. -/
namespace PolledReader

inductive Poll (ε : Type) where
  | pending
  | ready
  | failed (e : ε)
  deriving DecidableEq, Repr

end PolledReader

open PolledReader (Poll)

/-- What a reader promises. A poll that is ready and takes nothing, though it has room, says
that the end is reached. -/
structure PolledReader (σ α ε : Type) where
  poll : σ → Nat → Poll ε × List α × σ
  unread : σ → List α
  fits : ∀ s n, (poll s n).2.1.length ≤ n
  taken : ∀ s n, unread s = (poll s n).2.1 ++ unread (poll s n).2.2
  idle : ∀ s n, (poll s n).1 ≠ .ready → (poll s n).2.1 = []
  ends : ∀ s n, 0 < n → (poll s n).1 = .ready → (poll s n).2.1 = [] → unread s = []

namespace PolledReader

variable {σ α ε : Type} (src : PolledReader σ α ε)

/-- A bound on how many polls with room it takes until everything is read, none of which
fails before that. -/
structure Paced where
  polls : σ → Nat
  never_more : ∀ s n, polls (src.poll s n).2.2 ≤ polls s
  fewer : ∀ s n, 0 < n → src.unread s ≠ [] → polls (src.poll s n).2.2 < polls s
  sound : ∀ s n e, src.unread s ≠ [] → (src.poll s n).1 ≠ .failed e

/-- Polls with the given room one after the other. -/
def pull : List Nat → σ → List (Poll ε × List α) × σ
  | [], s => ([], s)
  | n :: ns, s =>
    let (status, piece, s) := src.poll s n
    let (later, s) := pull ns s
    ((status, piece) :: later, s)

/-- Everything that was taken, in order. -/
def delivered (polls : List (Poll ε × List α)) : List α := (polls.map Prod.snd).flatten

@[simp] theorem delivered_nil : delivered ([] : List (Poll ε × List α)) = [] := rfl

@[simp] theorem delivered_cons (poll : Poll ε × List α) (polls : List (Poll ε × List α)) :
    delivered (poll :: polls) = poll.2 ++ delivered polls := rfl

theorem delivered_append (a b : List (Poll ε × List α)) :
    delivered (a ++ b) = delivered a ++ delivered b := by
  simp [delivered]

/-- Nothing is lost, repeated or put elsewhere. -/
theorem pull_taken (ns : List Nat) (s : σ) :
    src.unread s = delivered (src.pull ns s).1 ++ src.unread (src.pull ns s).2 := by
  induction ns generalizing s with
  | nil => rfl
  | cons n ns ih =>
    rw [pull, src.taken s n, ih (src.poll s n).2.2, delivered_cons, List.append_assoc]

/-- A poll with room was ready and took nothing. -/
def SawEnd (ns : List Nat) (polls : List (Poll ε × List α)) : Prop :=
  ∃ n, 0 < n ∧ (n, Poll.ready, []) ∈ ns.zip polls

theorem pull_ends (ns : List Nat) (s : σ) (ended : SawEnd ns (src.pull ns s).1) :
    delivered (src.pull ns s).1 = src.unread s := by
  induction ns generalizing s with
  | nil =>
    obtain ⟨n, room, member⟩ := ended
    cases member
  | cons n ns ih =>
    obtain ⟨m, room, member⟩ := ended
    rw [pull, List.zip_cons_cons, List.mem_cons, Prod.mk.injEq, Prod.mk.injEq] at member
    rw [pull, delivered_cons]
    rcases member with ⟨rfl, status, piece⟩ | later
    · have nothing := src.ends s m room status.symm piece.symm
      have all := src.pull_taken (m :: ns) s
      rw [nothing, pull, delivered_cons] at all
      rw [nothing]
      exact (List.append_eq_nil_iff.mp all.symm).1
    · rw [src.taken s n]
      exact congrArg _ (ih (src.poll s n).2.2 ⟨m, room, later⟩)

variable {src}

theorem unread_of_taken_all {ns : List Nat} {s : σ} (none : src.unread s = []) :
    delivered (src.pull ns s).1 = [] := by
  have all := src.pull_taken ns s
  rw [none] at all
  exact (List.append_eq_nil_iff.mp all.symm).1

/-- As many polls with room as the reader needs get everything. -/
theorem Paced.pull_all (pace : src.Paced) (ns : List Nat) (s : σ)
    (enough : pace.polls s ≤ (ns.filter (0 < ·)).length) :
    delivered (src.pull ns s).1 = src.unread s := by
  by_cases none : src.unread s = []
  · rw [none, unread_of_taken_all none]
  · induction ns generalizing s with
    | nil =>
      have fewer := pace.fewer s 1 Nat.one_pos none
      have zero : pace.polls s ≤ 0 := enough
      omega
    | cons n ns ih =>
      rw [pull, delivered_cons, src.taken s n]
      have left : pace.polls (src.poll s n).2.2 ≤ (ns.filter (0 < ·)).length := by
        by_cases room : 0 < n
        · have fewer := pace.fewer s n room none
          rw [List.filter_cons_of_pos (by simpa using room), List.length_cons] at enough
          omega
        · rw [List.filter_cons_of_neg (by simpa using room)] at enough
          exact Nat.le_trans (pace.never_more s n) enough
      by_cases rest : src.unread (src.poll s n).2.2 = []
      · rw [rest, unread_of_taken_all rest]
      · rw [ih (src.poll s n).2.2 left rest]

/- Reading an exact number. -/

variable (src)

/-- Polls, at most so many, until there are `n`. Without an outcome there are not enough yet
after all of them. The end comes too early when a poll is ready and takes nothing. -/
def readExact (early : ε) : Nat → Nat → σ → Option (Except ε (List α)) × σ
  | _, 0, s => (some (.ok []), s)
  | 0, _ + 1, s => (none, s)
  | polls + 1, n + 1, s =>
    match src.poll s (n + 1) with
    | (.pending, _, s) => readExact early polls (n + 1) s
    | (.failed e, _, s) => (some (.error e), s)
    | (.ready, [], s) => (some (.error early), s)
    | (.ready, x :: piece, s) =>
      let (more, s) := readExact early polls (n - piece.length) s
      (more.map (Except.map (x :: piece ++ ·)), s)

/-- What one poll does to a read: it goes on as it was, it fails, or a piece of it is there. -/
theorem readExact_cases (early : ε) (polls n : Nat) (s : σ) :
    let u := (src.poll s (n + 1)).2.2
    (src.unread s = src.unread u ∧
      src.readExact early (polls + 1) (n + 1) s = src.readExact early polls (n + 1) u) ∨
    (∃ e, ((src.poll s (n + 1)).1 = .failed e ∨ src.unread s = []) ∧
      src.readExact early (polls + 1) (n + 1) s = (some (.error e), u)) ∨
    ∃ piece, piece.length ≤ n + 1 ∧ src.unread s = piece ++ src.unread u ∧
      src.readExact early (polls + 1) (n + 1) s =
        ((src.readExact early polls (n + 1 - piece.length) u).1.map (Except.map (piece ++ ·)),
          (src.readExact early polls (n + 1 - piece.length) u).2) := by
  have taken := src.taken s (n + 1)
  have idle := src.idle s (n + 1)
  have fits := src.fits s (n + 1)
  have ends := src.ends s (n + 1) n.succ_pos
  rw [readExact]
  generalize src.poll s (n + 1) = polled at taken idle fits ends
  obtain ⟨status, piece, u⟩ := polled
  dsimp only at taken idle fits ends ⊢
  cases status with
  | pending =>
    rw [idle nofun] at taken
    exact .inl ⟨taken, rfl⟩
  | failed e => exact .inr (.inl ⟨e, .inl rfl, rfl⟩)
  | ready =>
    cases piece with
    | nil => exact .inr (.inl ⟨early, .inr (ends rfl rfl), rfl⟩)
    | cons x piece =>
      refine .inr (.inr ⟨x :: piece, fits, taken, ?_⟩)
      rw [List.length_cons, Nat.add_sub_add_right]

variable {src} {early : ε} {polls n : Nat} {s t : σ}

/-- What is read has the length asked for, and what is unread continues behind it. -/
theorem readExact_ok {out : List α}
    (read : src.readExact early polls n s = (some (.ok out), t)) :
    out.length = n ∧ src.unread s = out ++ src.unread t := by
  induction polls generalizing n s out with
  | zero =>
    cases n with
    | zero =>
      cases read
      exact ⟨rfl, rfl⟩
    | succ n => cases read
  | succ polls ih =>
    cases n with
    | zero =>
      cases read
      exact ⟨rfl, rfl⟩
    | succ n =>
      rcases src.readExact_cases early polls n s with ⟨same, again⟩ | ⟨e, _, failed⟩ |
        ⟨piece, fits, taken, more⟩
      · rw [same]
        exact ih (again.symm.trans read)
      · rw [failed] at read
        cases read
      · rw [more, Prod.mk.injEq, Option.map_eq_some_iff] at read
        obtain ⟨⟨result, rest, mapped⟩, rfl⟩ := read
        cases result with
        | error e => cases mapped
        | ok out' =>
          cases mapped
          obtain ⟨length, left⟩ := ih (Prod.ext rest rfl)
          constructor
          · rw [List.length_append, length]
            omega
          · rw [taken, left, List.append_assoc]

/-- Where there is enough to read, it is read, in as many polls as the reader needs. -/
theorem Paced.readExact_take (pace : src.Paced) (early : ε) (enough : pace.polls s ≤ polls)
    (long : n ≤ (src.unread s).length) :
    ∃ t, src.readExact early polls n s = (some (.ok ((src.unread s).take n)), t) := by
  induction polls generalizing n s with
  | zero =>
    cases n with
    | zero => exact ⟨s, rfl⟩
    | succ n =>
      have left : src.unread s ≠ [] := List.ne_nil_of_length_pos (by omega)
      have fewer := pace.fewer s 1 Nat.one_pos left
      omega
  | succ polls ih =>
    cases n with
    | zero => exact ⟨s, rfl⟩
    | succ n =>
      have left : src.unread s ≠ [] := List.ne_nil_of_length_pos (by omega)
      have fewer := pace.fewer s (n + 1) n.succ_pos left
      rcases src.readExact_cases early polls n s with ⟨same, again⟩ | ⟨e, reason, _⟩ |
        ⟨piece, fits, taken, more⟩
      · rw [again, same]
        exact ih (by omega) (same ▸ long)
      · rcases reason with failed | none
        · exact absurd failed (pace.sound s (n + 1) e left)
        · exact absurd none left
      · have long' := congrArg List.length taken
        rw [List.length_append] at long'
        obtain ⟨t, rest⟩ := ih (n := n + 1 - piece.length) (s := (src.poll s (n + 1)).2.2)
          (by omega) (by omega)
        refine ⟨t, ?_⟩
        rw [more, rest, taken, List.take_append, List.take_of_length_le fits]
        rfl

theorem Paced.readExact_le (pace : src.Paced) (early : ε) (polls n : Nat) (s : σ) :
    pace.polls (src.readExact early polls n s).2 ≤ pace.polls s := by
  induction polls generalizing n s with
  | zero => cases n <;> exact Nat.le_refl _
  | succ polls ih =>
    cases n with
    | zero => exact Nat.le_refl _
    | succ n =>
      have never_more := pace.never_more s (n + 1)
      rcases src.readExact_cases early polls n s with ⟨_, again⟩ | ⟨e, _, failed⟩ |
        ⟨piece, _, _, more⟩
      · rw [again]
        exact Nat.le_trans (ih (n + 1) _) never_more
      · rw [failed]
        exact never_more
      · rw [more]
        exact Nat.le_trans (ih (n + 1 - piece.length) _) never_more

/-- A front of what is unread is read by its length. -/
theorem Paced.readExact_front (pace : src.Paced) (early : ε) (enough : pace.polls s ≤ polls)
    {front rest : List α} (split : src.unread s = front ++ rest) :
    ∃ t, src.readExact early polls front.length s = (some (.ok front), t) ∧
      src.unread t = rest ∧ pace.polls t ≤ pace.polls s := by
  have long := congrArg List.length split
  rw [List.length_append] at long
  obtain ⟨t, read⟩ := pace.readExact_take early enough
    (Nat.le.intro long.symm : front.length ≤ (src.unread s).length)
  rw [split, List.take_left] at read
  obtain ⟨length, left⟩ := readExact_ok read
  have fewer := pace.readExact_le early polls front.length s
  rw [read] at fewer
  exact ⟨t, read, (List.append_cancel_left (split.symm.trans left)).symm, fewer⟩

end PolledReader
