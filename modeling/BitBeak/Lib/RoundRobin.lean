import BitBeak.Lib.Entries
import Mathlib.Data.List.ReduceOption

/-! Queues that are read in turn: one call goes from queue to queue, and reads one entry of each,
until an entry holds something. -/
namespace RoundRobin

variable {α : Type}

/-- The queues, and whose turn it is. -/
structure Rota (α : Type) where
  queues : List (List (Option α))
  turn : Nat

/-- The turn behind a turn. -/
def after (n turn : Nat) : Nat := if turn + 1 = n then 0 else turn + 1

/-- How many turns it takes until it is that of a queue. -/
def wait (n turn i : Nat) : Nat := if turn ≤ i then i - turn else i + n - turn

namespace Rota

def read (r : Rota α) : Rota α where
  queues := r.queues.modify r.turn (List.drop 1)
  turn := after r.queues.length r.turn

/-- So many queues are read, and what was found stands in the queue that it is returned with. -/
def serve : Nat → Rota α → Option (Nat × α) × Rota α
  | 0, r => (none, r)
  | rounds + 1, r =>
    match ((r.queues[r.turn]?.getD []).head?).join with
    | some x => (some (r.turn, x), r.read)
    | none => serve rounds r.read

def next (r : Rota α) : Option (Nat × α) × Rota α := r.serve r.queues.length

end Rota

/-- What a call found in a queue. -/
def foundIn (i : Nat) (found : Option (Nat × α)) : List α :=
  (found.toList.filter fun f => f.1 = i).map Prod.snd

section
variable {r : Rota α} {n i : Nat} {q : List (Option α)}

theorem wait_lt (inside : i < n) (turn : r.turn < n) : wait n r.turn i < n := by
  unfold wait
  split <;> omega

theorem after_lt {turn : Nat} (inside : turn < n) : after n turn < n := by
  unfold after
  split <;> omega

theorem wait_after {turn : Nat} (inside : i < n) (turn' : turn < n) (other : turn ≠ i) :
    wait n (after n turn) i + 1 = wait n turn i := by
  unfold wait after
  split <;> split <;> split <;> omega

theorem wait_own {turn : Nat} (turn' : turn < n) : wait n (after n turn) turn + 1 = n := by
  unfold wait after
  split <;> split <;> omega

@[simp] theorem length_read : r.read.queues.length = r.queues.length := List.length_modify ..

theorem read_own (here : r.queues[r.turn]? = some q) :
    r.read.queues[r.turn]? = some (q.drop 1) := by
  simp [Rota.read, here]

theorem read_other (other : r.turn ≠ i) : r.read.queues[i]? = r.queues[i]? := by
  simp [Rota.read, other]

theorem foundIn_self (x : α) : foundIn i (some (i, x)) = [x] := by simp [foundIn]

theorem foundIn_other {j : Nat} (other : j ≠ i) (x : α) : foundIn i (some (j, x)) = [] := by
  simp [foundIn, other]

theorem serve_length (rounds : Nat) (r : Rota α) :
    (r.serve rounds).2.queues.length = r.queues.length := by
  induction rounds generalizing r with
  | zero => rfl
  | succ rounds ih =>
    rw [Rota.serve]
    split
    · exact length_read
    · rw [ih, length_read]

theorem serve_turn (rounds : Nat) {r : Rota α} (turn : r.turn < r.queues.length) :
    (r.serve rounds).2.turn < r.queues.length := by
  induction rounds generalizing r with
  | zero => exact turn
  | succ rounds ih =>
    have next : r.read.turn < r.queues.length := after_lt turn
    rw [Rota.serve]
    split
    · exact next
    · have later := ih (show r.read.turn < r.read.queues.length by rwa [length_read])
      rwa [length_read] at later

/-- A queue whose turn does not come is left alone. -/
theorem serve_passed {rounds : Nat} (inside : i < r.queues.length)
    (turn : r.turn < r.queues.length) (here : r.queues[i]? = some q)
    (early : rounds ≤ wait r.queues.length r.turn i) :
    (r.serve rounds).2.queues[i]? = some q ∧ foundIn i (r.serve rounds).1 = [] := by
  induction rounds generalizing r with
  | zero => exact ⟨here, rfl⟩
  | succ rounds ih =>
    have other : r.turn ≠ i := by
      rintro rfl
      simp [wait] at early
    have nearer := wait_after inside turn other
    rw [Rota.serve]
    split
    · exact ⟨(read_other other).trans here, foundIn_other other _⟩
    · refine ih (by rwa [length_read]) (by rw [length_read]; exact after_lt turn)
        ((read_other other).trans here) ?_
      rw [length_read]
      change rounds ≤ wait r.queues.length (after r.queues.length r.turn) i
      omega

/-- What one call does to a queue: one entry is read, or none, and then its turn comes nearer. -/
inductive Served (i : Nat) (q : List (Option α)) (r : Rota α) (call : Option (Nat × α) × Rota α) :
    Prop where
  | read (queue : call.2.queues[i]? = some (q.drop 1))
    (holds : foundIn i call.1 = (q.take 1).reduceOption) : Served i q r call
  | passed (queue : call.2.queues[i]? = some q) (none : foundIn i call.1 = [])
    (nearer : wait r.queues.length call.2.turn i < wait r.queues.length r.turn i) :
    Served i q r call

theorem serve_served {rounds : Nat} (inside : i < r.queues.length)
    (turn : r.turn < r.queues.length) (here : r.queues[i]? = some q) (asked : 0 < rounds)
    (once : rounds ≤ r.queues.length) : Served i q r (r.serve rounds) := by
  induction rounds generalizing r with
  | zero => exact absurd asked (Nat.lt_irrefl 0)
  | succ rounds ih =>
    have turn' : r.read.turn < r.read.queues.length := by
      rw [length_read]
      exact after_lt turn
    by_cases own : r.turn = i
    · subst own
      rw [Rota.serve, here, Option.getD_some]
      cases entry : q.head?.join with
      | some x =>
        refine .read (read_own here) ?_
        cases q with
        | nil => cases entry
        | cons y q =>
          simp only [List.head?_cons, Option.join_some] at entry
          subst entry
          rw [foundIn_self]
          rfl
      | none =>
        -- the other queues are read before its turn comes again
        have again := wait_own turn
        have early : rounds ≤ wait r.read.queues.length r.read.turn r.turn := by
          rw [length_read]
          change rounds ≤ wait r.queues.length (after r.queues.length r.turn) r.turn
          omega
        obtain ⟨queue, none⟩ := serve_passed (by rwa [length_read]) turn' (read_own here) early
        refine .read queue (none.trans ?_)
        cases q with
        | nil => rfl
        | cons y q =>
          simp only [List.head?_cons, Option.join_some] at entry
          subst entry
          rfl
    · have nearer := wait_after inside turn own
      have there : r.read.queues[i]? = some q := (read_other own).trans here
      rw [Rota.serve]
      split
      · exact .passed there (foundIn_other own _)
          (show wait r.queues.length (after r.queues.length r.turn) i < _ by omega)
      · rcases Nat.eq_zero_or_pos rounds with rfl | more
        · exact .passed there rfl
            (show wait r.queues.length (after r.queues.length r.turn) i < _ by omega)
        · have rest := ih (by rwa [length_read]) turn' there more (by rw [length_read]; omega)
          cases rest with
          | read queue holds => exact .read queue holds
          | passed queue none closer =>
            rw [length_read] at closer
            refine .passed queue none (Nat.lt_trans closer ?_)
            change wait r.queues.length (after r.queues.length r.turn) i < _
            omega

theorem next_served (inside : i < r.queues.length) (turn : r.turn < r.queues.length)
    (here : r.queues[i]? = some q) : Served i q r r.next :=
  serve_served inside turn here (Nat.zero_lt_of_lt inside) (Nat.le_refl _)

/- Calls, with entries that arrive between them. -/

inductive Event (α : Type) where
  | arrive (i : Nat) (entries : List (Option α))
  | call

/-- The entries that arrive at a queue. -/
def arrivals (i : Nat) : List (Event α) → List (Option α)
  | [] => []
  | .arrive j entries :: events => (if j = i then entries else []) ++ arrivals i events
  | .call :: events => arrivals i events

def calls (events : List (Event α)) : Nat :=
  events.countP fun
    | .call => true
    | .arrive _ _ => false

/-- What the calls found, and what is left. -/
def Rota.run (r : Rota α) : List (Event α) → List (Option (Nat × α)) × Rota α
  | [] => ([], r)
  | .arrive i entries :: events =>
    Rota.run { r with queues := r.queues.modify i (· ++ entries) } events
  | .call :: events =>
    let call := r.next
    let rest := Rota.run call.2 events
    (call.1 :: rest.1, rest.2)

/-- In whatever order calls and arrivals come: what is found in a queue is what was put in, in
order and once, and an entry with so many in front of it is read after as many rounds of calls. -/
theorem run_queue (events : List (Event α)) (inside : i < r.queues.length)
    (turn : r.turn < r.queues.length) (here : r.queues[i]? = some q) :
    ∃ c, (r.run events).2.queues[i]? = some ((q ++ arrivals i events).drop c) ∧
      (r.run events).1.flatMap (foundIn i) = ((q ++ arrivals i events).take c).reduceOption ∧
      ∀ p < q.length, p * r.queues.length + wait r.queues.length r.turn i < calls events →
        p < c := by
  induction events generalizing r q with
  | nil =>
    refine ⟨0, ?_, rfl, fun p _ few => absurd few (Nat.not_lt_zero _)⟩
    rw [Rota.run, arrivals, List.append_nil]
    exact here
  | cons event events ih =>
    cases event with
    | arrive j entries =>
      have more : (r.queues.modify j (· ++ entries))[i]? =
          some (q ++ if j = i then entries else []) := by
        rw [List.getElem?_modify, here]
        split <;> simp
      obtain ⟨c, queue, found, soon⟩ :=
        @ih { r with queues := r.queues.modify j (· ++ entries) } _
          (by rwa [List.length_modify]) (by rwa [List.length_modify]) more
      rw [List.append_assoc] at queue found
      refine ⟨c, queue, found, fun p listed enough => ?_⟩
      refine soon p (by rw [List.length_append]; omega) ?_
      rw [List.length_modify]
      simpa [calls] using enough
    | call =>
      have length : r.next.2.queues.length = r.queues.length := serve_length _ r
      have turn' : r.next.2.turn < r.next.2.queues.length := by
        rw [length]
        exact serve_turn _ turn
      have count : calls (.call :: events : List (Event α)) = calls events + 1 := by
        simp [calls]
      rw [Rota.run, arrivals, count]
      dsimp only
      rw [List.flatMap_cons]
      cases next_served inside turn here with
      | read queue holds =>
        obtain ⟨c, queue', found, soon⟩ := ih (by rwa [length]) turn' queue
        have near : wait r.queues.length r.next.2.turn i < r.queues.length :=
          wait_lt inside (length ▸ turn')
        cases q with
        | nil => exact ⟨c, queue', by rw [holds, found]; rfl, nofun⟩
        | cons y q =>
          refine ⟨c + 1, queue', ?_, fun p listed enough => ?_⟩
          · rw [holds, found, ← List.reduceOption_append]
            rfl
          · cases p with
            | zero => exact Nat.succ_pos c
            | succ p =>
              rw [Nat.add_one_mul] at enough
              refine Nat.succ_lt_succ (soon p (Nat.lt_of_succ_lt_succ listed) ?_)
              rw [length]
              omega
      | passed queue none nearer =>
        obtain ⟨c, queue', found, soon⟩ := ih (by rwa [length]) turn' queue
        refine ⟨c, queue', by rw [none, found, List.nil_append], fun p listed enough => ?_⟩
        refine soon p listed ?_
        rw [length]
        omega

theorem run_length (r : Rota α) (events : List (Event α)) :
    (r.run events).1.length = calls events := by
  induction events generalizing r with
  | nil => rfl
  | cons event events ih =>
    cases event with
    | call =>
      rw [Rota.run, calls, List.countP_cons_of_pos rfl]
      exact congrArg (· + 1) (ih r.next.2)
    | arrive i entries =>
      rw [Rota.run, calls, List.countP_cons_of_neg (by simp)]
      exact ih _

theorem serve_found (rounds : Nat) {j : Nat} {x : α} (turn : r.turn < r.queues.length)
    (found : (r.serve rounds).1 = some (j, x)) : j < r.queues.length := by
  induction rounds generalizing r with
  | zero => cases found
  | succ rounds ih =>
    rw [Rota.serve] at found
    split at found
    · cases found
      exact turn
    · rw [← length_read]
      exact ih (by rw [length_read]; exact after_lt turn) found

/-- What is found was found in one of the queues. -/
theorem run_found (events : List (Event α)) {j : Nat} {x : α} (turn : r.turn < r.queues.length)
    (found : some (j, x) ∈ (r.run events).1) : j < r.queues.length := by
  induction events generalizing r with
  | nil => cases found
  | cons event events ih =>
    cases event with
    | arrive i entries =>
      have inside := @ih { r with queues := r.queues.modify i (· ++ entries) }
        (by rwa [List.length_modify]) found
      rwa [List.length_modify] at inside
    | call =>
      rcases List.mem_cons.mp found with now | later
      · exact serve_found _ turn now.symm
      · have length : r.next.2.queues.length = r.queues.length := serve_length _ r
        rw [← length]
        exact ih (by rw [length]; exact serve_turn _ turn) later

/-- Where the entries of the queues are told apart by a label, so is what is found. -/
theorem filter_found {β : Type} [DecidableEq β] {label : α → β} {b : β}
    {found : List (Option (Nat × α))}
    (apart : ∀ j x, some (j, x) ∈ found → (label x = b ↔ j = i)) :
    ((found.map (Option.map Prod.snd)).reduceOption.filter fun x => label x = b) =
      found.flatMap (foundIn i) := by
  induction found with
  | nil => rfl
  | cons f found ih =>
    have rest := ih fun j x member => apart j x (List.mem_cons_of_mem _ member)
    cases f with
    | none => exact rest
    | some f =>
      obtain ⟨j, x⟩ := f
      have own := apart j x (List.mem_cons_self ..)
      rw [List.map_cons, Option.map_some, List.reduceOption_cons_of_some, List.flatMap_cons,
        ← rest]
      by_cases same : j = i
      · subst same
        rw [List.filter_cons_of_pos (by simpa using own.mpr rfl), foundIn_self]
        rfl
      · rw [List.filter_cons_of_neg (by simpa using fun is => same (own.mp is)),
          foundIn_other same]
        rfl

end

end RoundRobin
