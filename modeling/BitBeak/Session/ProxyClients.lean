import BitBeak.Lib.Entries
import BitBeak.Session.Proxy

/-! What one proxy client can do to another. A forwarding loop lives as long as its
sender is in the shared slot; whoever takes it out parks the loop. -/
namespace BitBeak
open Wire Runs

namespace ProxyClient

variable {client next : ProxyClient} {alive : Bool}

/-- The forwarding loop still looks at its client, and everything it has read has gone
to the server or is on its way there; or the loop has ended, with a side of its own. -/
def Forwarding (client : ProxyClient) : Prop :=
  match client.c2s with
  | .parked => False
  | .closing | .done => True
  | .write payload true => client.received = client.forwarded ++ [payload]
  | _ => client.received = client.forwarded

/-- Without its sender the loop would get to the closed channel: it is still to start,
or comes back to its `select!`, or waits there with nothing else to take. -/
def NeedsSender (client : ProxyClient) : Prop :=
  match client.pc, client.c2s with
  | .flagging, _ | .connecting, _ => True
  | .splicing, .head | .splicing, .write _ _ => client.active = true
  | .splicing, .select => client.active = true ∨ client.injected = []
  | _, _ => False

/-- The loops have not been spawned. -/
def Early (client : ProxyClient) : Prop :=
  match client.pc with
  | .accepted | .flagging | .connecting => client.c2s = .head ∧ client.active = true
  | _ => True

theorem c2sStep_pc {a : C2sAct} (move : client.c2sStep alive a = some next) :
    next.pc = client.pc := by
  unfold c2sStep at move
  repeat' split at move
  all_goals cases move
  all_goals rfl

theorem s2cStep_pc {a : S2cAct} (move : client.s2cStep a = some next) :
    next.pc = client.pc := by
  unfold s2cStep at move
  split at move <;> cases move <;> rfl

theorem early_splicing (splicing : client.pc = .splicing) : client.Early := by
  simp only [Early, splicing]

theorem c2sStep_keeps {a : C2sAct} (splicing : client.pc = .splicing)
    (move : client.c2sStep alive a = some next) :
    (next.NeedsSender → client.NeedsSender) ∧
      (client.Forwarding → (client.NeedsSender → alive = true) → next.Forwarding) := by
  obtain ⟨pc, injected, active, c2s, s2c, received, forwarded⟩ := client
  cases splicing
  unfold c2sStep at move
  dsimp only at move
  split at move
  · cases move
    cases active
    · exact ⟨False.elim, fun _ _ => trivial⟩
    · exact ⟨fun _ => rfl, fun same _ => same⟩
  · split at move
    · cases move
      exact ⟨.inl, fun same _ => same⟩
    · split at move
      · contradiction
      · next dead =>
        cases move
        refine ⟨False.elim, fun _ held => ?_⟩
        exact absurd (held (.inr rfl)) dead
  · split at move
    · split at move
      · cases move
        exact ⟨False.elim, fun _ _ => trivial⟩
      · cases move
        refine ⟨.inl, fun same _ => ?_⟩
        exact congrArg (· ++ _) same
    · contradiction
  · next payload fromClient ok =>
    split at move
    · cases move
      refine ⟨id, fun same _ => ?_⟩
      cases fromClient
      · exact same
      · exact same
    · cases move
      exact ⟨False.elim, fun _ _ => trivial⟩
  · cases move
    exact ⟨id, fun _ _ => trivial⟩
  · contradiction

theorem s2cStep_keeps {a : S2cAct} (splicing : client.pc = .splicing)
    (move : client.s2cStep a = some next) :
    (next.NeedsSender → client.NeedsSender) ∧ (client.Forwarding → next.Forwarding) := by
  obtain ⟨pc, injected, active, c2s, s2c, received, forwarded⟩ := client
  cases splicing
  unfold s2cStep at move
  dsimp only at move
  split at move <;> cases move <;> try exact ⟨id, id⟩
  refine ⟨?_, id⟩
  cases c2s with
  | select =>
    rintro (on | empty)
    · contradiction
    · exact .inr empty
  | head | write _ _ => rintro ⟨⟩
  | parked | closing | done => exact False.elim

end ProxyClient

namespace ProxyState

variable {s t : ProxyState} {a : ProxyAct}

/-- Some forwarding loop no longer looks at a client that is still connected, or has
lost bytes it read. -/
def Disturbed (s : ProxyState) : Prop := ∃ client ∈ s.clients, ¬ client.Forwarding

/-- No forwarding loop needs the sender in the slot. -/
def SlotFree (s : ProxyState) : Prop :=
  ∀ c client, s.inject = some c → s.clients[c]? = some client → ¬ client.NeedsSender

/-- The slot is filled and cleared only while no forwarding loop needs what is in it. -/
def KeepsSenders (s : ProxyState) : ProxyAct → Prop
  | .fillSlot _ | .clearSlot _ => s.SlotFree
  | _ => True

/-- The client at `j` after a step: new, or the one before, which needed the sender
already unless its own task just filled the slot. -/
def Turned (s : ProxyState) (a : ProxyAct) (j : Nat) (next : ProxyClient) : Prop :=
  next = {} ∨ ∃ old, s.clients[j]? = some old ∧
    (next.NeedsSender → old.NeedsSender ∨ a = .fillSlot j) ∧ (old.Early → next.Early) ∧
    (old.Forwarding → (old.NeedsSender → s.inject = some j) → next.Forwarding)

theorem Turned.same {j : Nat} {client : ProxyClient} (found : s.clients[j]? = some client) :
    s.Turned a j client :=
  .inr ⟨client, found, .inl, id, fun forwarding _ => forwarding⟩

theorem turned_set {c j : Nat} {client next tab : ProxyClient} (here : s.clients[c]? = some client)
    (found : (s.clients.set c next)[j]? = some tab)
    (turn : (next.NeedsSender → client.NeedsSender ∨ a = .fillSlot c) ∧
      (client.Early → next.Early) ∧
      (client.Forwarding → (client.NeedsSender → s.inject = some c) → next.Forwarding)) :
    s.Turned a j tab := by
  rcases Entries.set_cases found with ⟨rfl, rfl⟩ | ⟨-, same⟩
  · exact .inr ⟨client, here, turn⟩
  · exact .same same

theorem needs_before_splice {client : ProxyClient}
    (early : client.pc = .flagging ∨ client.pc = .connecting) : client.NeedsSender := by
  rcases early with pc | pc <;> simp only [ProxyClient.NeedsSender, pc]

theorem turned_inject {c j : Nat} {payload : Bytes} {tab : ProxyClient}
    (found : (s.clients.modify c
      (fun client => { client with injected := client.injected ++ [payload] }))[j]? = some tab) :
    s.Turned a j tab := by
  rcases Entries.modify_cases found with ⟨old, there, rfl, rfl⟩ | ⟨_, there⟩
  · refine .inr ⟨old, there, ?_, id, fun same _ => same⟩
    intro needs
    left
    unfold ProxyClient.NeedsSender at needs ⊢
    dsimp only at needs
    split at needs
    · trivial
    · trivial
    · exact needs
    · exact needs
    · rcases needs with on | empty
      · exact .inl on
      · exact absurd empty (List.append_ne_nil_of_right_ne_nil _ (List.cons_ne_nil _ _))
    · contradiction
  · exact .inr ⟨tab, there, .inl, id, fun same _ => same⟩

theorem TaskMoves.turn {c : Nat} {client next : ProxyClient} (moved : s.TaskMoves c client a next) :
    (next.NeedsSender → client.NeedsSender ∨ a = .fillSlot c) ∧ (client.Early → next.Early) ∧
      (client.Forwarding → (client.NeedsSender → s.inject = some c) → next.Forwarding) := by
  cases moved with
  | fillSlot pc =>
    refine ⟨fun _ => .inr rfl, ?_, fun same _ => same⟩
    simp only [ProxyClient.Early, pc, imp_self]
  | setFlag pc =>
    refine ⟨fun _ => .inl (needs_before_splice (.inl pc)), ?_, fun same _ => same⟩
    simp only [ProxyClient.Early, pc, imp_self]
  | connect pc ok =>
    refine ⟨fun _ => .inl (needs_before_splice (.inr pc)), ?_, fun same _ => same⟩
    intro _
    cases ok <;> exact trivial
  | c2s pc looped =>
    obtain ⟨needs, forwarding⟩ := ProxyClient.c2sStep_keeps pc looped
    have early : next.Early :=
      ProxyClient.early_splicing ((ProxyClient.c2sStep_pc looped).trans pc)
    refine ⟨fun h => .inl (needs h), fun _ => early, fun same held => ?_⟩
    exact forwarding same (fun h => beq_iff_eq.mpr (held h))
  | s2c pc looped =>
    obtain ⟨needs, forwarding⟩ := ProxyClient.s2cStep_keeps pc looped
    have early : next.Early :=
      ProxyClient.early_splicing ((ProxyClient.s2cStep_pc looped).trans pc)
    exact ⟨fun h => .inl (needs h), fun _ => early, fun same _ => forwarding same⟩
  | join _ _ | clearFlag _ | clearSlot _ =>
    exact ⟨False.elim, fun _ => trivial, fun same _ => same⟩

theorem step_turned {j : Nat} {tab : ProxyClient} (move : s.step a = some t)
    (found : t.clients[j]? = some tab) : s.Turned a j tab := by
  cases step_cases move with
  | accept =>
    dsimp only at found
    rw [List.getElem?_append] at found
    split at found
    · exact .same found
    · exact .inl (List.mem_singleton.mp (List.mem_of_getElem? found))
  | task here moved => exact turned_set here found moved.turn
  | deliver _ _ => exact turned_inject found
  | sendComposer _ | drop _ _ => exact .same found

/-- Only the two slot steps touch the slot. -/
theorem step_inject (move : s.step a = some t) : t.inject = s.slotAfter a := by
  cases step_cases move <;> rfl

/-- Every loop that needs its sender finds it in the slot, and every loop forwards. -/
structure Served (s : ProxyState) : Prop where
  held : ∀ (c : Nat) (client : ProxyClient), s.clients[c]? = some client →
    client.NeedsSender → s.inject = some c
  forwards : ∀ (c : Nat) (client : ProxyClient), s.clients[c]? = some client → client.Forwarding

theorem step_served (served : s.Served) (keeps : s.KeepsSenders a) (move : s.step a = some t) :
    t.Served := by
  constructor
  · intro c client found needs
    rcases step_turned move found with rfl | ⟨old, there, needed, _, _⟩
    · exact False.elim needs
    · have slot := step_inject move
      rcases needed needs with before | rfl
      · have holds := served.held c old there before
        cases a with
        | fillSlot d => exact absurd before (keeps c old holds there)
        | clearSlot d => exact absurd before (keeps c old holds there)
        | _ => exact slot.trans holds
      · exact slot
  · intro c client found
    rcases step_turned move found with rfl | ⟨old, there, _, _, forwarding⟩
    · exact rfl
    · exact forwarding (served.forwards c old there) (served.held c old there)

/-- Client `c` is there and its sender is gone. -/
structure Cut (s : ProxyState) (c : Nat) (client : ProxyClient) : Prop where
  found : s.clients[c]? = some client
  dropped : s.inject ≠ some c

variable {c : Nat} {client next : ProxyClient}

theorem Cut.turn {b : C2sAct} (cut : s.Cut c client) (next : ProxyClient) (pc : client.pc = .splicing)
    (looped : client.c2sStep false b = some next) :
    s.step (.c2s c b) = some (s.setClient c next) ∧ (s.setClient c next).Cut c next := by
  have gone : (s.inject == some c) = false := beq_eq_false_iff_ne.mpr cut.dropped
  have inside := (List.getElem?_eq_some_iff.mp cut.found).1
  refine ⟨?_, List.getElem?_set_self inside, cut.dropped⟩
  simp only [step, cut.found, pc, if_true, gone, looped, Option.map_some]

theorem Cut.at_select (cut : s.Cut c client) (pc : client.pc = .splicing)
    (waits : client.c2s = .select) (needs : client.active = true ∨ client.injected = []) :
    ∃ t, Reachable step s t ∧ t.Disturbed := by
  obtain ⟨payloads, queued⟩ : ∃ payloads, client.injected = payloads := ⟨_, rfl⟩
  induction payloads generalizing s client with
  | nil =>
    obtain ⟨move, parked⟩ := cut.turn { client with c2s := .parked } (b := .recv) pc (by
      simp only [ProxyClient.c2sStep, waits, queued, Bool.false_eq_true, if_false])
    exact ⟨_, .next (.refl s) move, _, List.mem_of_getElem? parked.found, id⟩
  | cons payload rest ih =>
    have on : client.active = true := by
      rcases needs with on | empty
      · exact on
      · exact absurd (queued.symm.trans empty) (List.cons_ne_nil _ _)
    obtain ⟨move₁, cut₁⟩ := cut.turn (b := .recv)
      { client with injected := rest, c2s := .write payload false } pc (by
        simp only [ProxyClient.c2sStep, waits, queued])
    obtain ⟨move₂, cut₂⟩ := cut₁.turn (b := .wrote true)
      { client with injected := rest, c2s := .head } pc rfl
    obtain ⟨move₃, cut₃⟩ := cut₂.turn (b := .check)
      { client with injected := rest, c2s := .select } pc (by
        simp only [ProxyClient.c2sStep, on, if_true])
    obtain ⟨t, reached, disturbed⟩ := ih cut₃ pc rfl (.inl on) rfl
    exact ⟨t, .trans (.next (.next (.next (.refl s) move₁) move₂) move₃) reached, disturbed⟩

theorem Cut.at_head (cut : s.Cut c client) (pc : client.pc = .splicing)
    (here : client.c2s = .head) (on : client.active = true) :
    ∃ t, Reachable step s t ∧ t.Disturbed := by
  obtain ⟨move, waiting⟩ := cut.turn (b := .check) { client with c2s := .select } pc (by
    simp only [ProxyClient.c2sStep, here, on, if_true])
  obtain ⟨t, reached, disturbed⟩ := waiting.at_select pc rfl (.inl on)
  exact ⟨t, .trans (.next (.refl s) move) reached, disturbed⟩

theorem Cut.at_write {payload : Bytes} {fromClient : Bool} (cut : s.Cut c client)
    (pc : client.pc = .splicing) (here : client.c2s = .write payload fromClient)
    (on : client.active = true) : ∃ t, Reachable step s t ∧ t.Disturbed := by
  obtain ⟨move, back⟩ := cut.turn (b := .wrote true)
    { client with
      forwarded := if fromClient then client.forwarded ++ [payload] else client.forwarded
      c2s := .head } pc (by simp only [ProxyClient.c2sStep, here, if_true])
  obtain ⟨t, reached, disturbed⟩ := back.at_head pc rfl on
  exact ⟨t, .trans (.next (.refl s) move) reached, disturbed⟩

theorem Cut.at_connecting (cut : s.Cut c client) (pc : client.pc = .connecting)
    (early : client.Early) : ∃ t, Reachable step s t ∧ t.Disturbed := by
  simp only [ProxyClient.Early, pc] at early
  have inside := (List.getElem?_eq_some_iff.mp cut.found).1
  have move : s.step (.connect c true) = some (s.setClient c { client with pc := .splicing }) := by
    simp only [step, cut.found, pc, if_true]
  have spliced : (s.setClient c { client with pc := .splicing }).Cut c
      { client with pc := .splicing } := ⟨List.getElem?_set_self inside, cut.dropped⟩
  obtain ⟨t, reached, disturbed⟩ := spliced.at_head rfl early.1 early.2
  exact ⟨t, .trans (.next (.refl s) move) reached, disturbed⟩

theorem Cut.at_flagging (cut : s.Cut c client) (pc : client.pc = .flagging)
    (early : client.Early) : ∃ t, Reachable step s t ∧ t.Disturbed := by
  have inside := (List.getElem?_eq_some_iff.mp cut.found).1
  have move : s.step (.setFlag c)
      = some { s.setClient c { client with pc := .connecting } with spliceLive := true } := by
    simp only [step, cut.found, pc, if_true]
  have connecting : Cut { s.setClient c { client with pc := .connecting } with spliceLive := true }
      c { client with pc := .connecting } := ⟨List.getElem?_set_self inside, cut.dropped⟩
  simp only [ProxyClient.Early, pc] at early
  obtain ⟨t, reached, disturbed⟩ := connecting.at_connecting rfl early
  exact ⟨t, .trans (.next (.refl s) move) reached, disturbed⟩

theorem Cut.disturbs (cut : s.Cut c client) (needs : client.NeedsSender) (early : client.Early) :
    ∃ t, Reachable step s t ∧ t.Disturbed := by
  unfold ProxyClient.NeedsSender at needs
  split at needs
  · next pc => exact cut.at_flagging pc early
  · next pc => exact cut.at_connecting pc early
  · next pc here => exact cut.at_head pc here needs
  · next pc here => exact cut.at_write pc here needs
  · next pc here => exact cut.at_select pc here needs
  · contradiction

/-- The client whose task takes a slot step needs no sender. -/
theorem slot_step_cuts (holds : s.inject = some c) (found : s.clients[c]? = some client)
    (needs : client.NeedsSender) (breaks : ¬ s.KeepsSenders a) (move : s.step a = some t) :
    t.Cut c client := by
  have other : ∀ {d : Nat} {mover : ProxyClient}, s.clients[d]? = some mover →
      ¬ mover.NeedsSender → d ≠ c := by
    rintro d mover there idle rfl
    cases there.symm.trans found
    exact idle needs
  cases a with
  | fillSlot d =>
    cases step_cases move with
    | task here moved =>
      cases moved with
      | fillSlot pc =>
        have apart := other here (by simp only [ProxyClient.NeedsSender, pc, not_false_eq_true])
        refine ⟨?_, fun same => apart (Option.some.inj same)⟩
        simp only [List.getElem?_set_ne apart, found]
  | clearSlot d =>
    cases step_cases move with
    | task here moved =>
      cases moved with
      | clearSlot pc =>
        have apart := other here (by simp only [ProxyClient.NeedsSender, pc, not_false_eq_true])
        refine ⟨?_, by rintro ⟨⟩⟩
        simp only [List.getElem?_set_ne apart, found]
  | _ => exact absurd trivial breaks

/-- A slot step that breaks the rule, in whatever state a run reaches, can be followed by
the end of another client's forwarding. -/
theorem taken_sender_can_disturb (run : Reachable step {} s) (breaks : ¬ s.KeepsSenders a)
    (move : s.step a = some t) : ∃ u, Reachable step t u ∧ u.Disturbed := by
  have early : ∀ (c : Nat) (client : ProxyClient), s.clients[c]? = some client →
      client.Early := by
    refine run.invariant (I := fun s => ∀ (c : Nat) (client : ProxyClient),
      s.clients[c]? = some client → client.Early) ?_ ?_
    · rintro c client ⟨⟩
    · intro u v b early move c client found
      rcases step_turned move found with rfl | ⟨old, there, _, kept, _⟩
      · exact ⟨rfl, rfl⟩
      · exact kept (early c old there)
  have taken : ¬ s.SlotFree := by
    cases a with
    | fillSlot _ | clearSlot _ => exact breaks
    | _ => exact absurd trivial breaks
  simp only [SlotFree, not_forall, not_not] at taken
  obtain ⟨c, client, holds, found, needs⟩ := taken
  exact (slot_step_cuts holds found needs breaks move).disturbs needs (early c client found)

end ProxyState

end BitBeak
