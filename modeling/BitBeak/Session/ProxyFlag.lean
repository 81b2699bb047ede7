import BitBeak.Session.ProxyClients

/-! What the flag tells the composer. Every task of a client raises and drops the one flag
and fills and clears the one slot for itself, so the two speak of the last task that
touched them and not of the splices that are there. -/
namespace BitBeak
open Wire Runs

namespace ProxyClient

/-- The task has announced its splice and the splice has not ended. -/
def Active (client : ProxyClient) : Prop := client.pc = .connecting ∨ client.pc = .splicing

/-- The task has put its sender into the slot and its splice has not ended. -/
def Running (client : ProxyClient) : Prop := client.pc = .flagging ∨ client.Active

end ProxyClient

namespace ProxyState

variable {s t : ProxyState} {a : ProxyAct}

def SpliceActive (s : ProxyState) : Prop := ∃ client ∈ s.clients, client.Active

/-- The sender in the slot is that of an active splice. -/
def SlotLive (s : ProxyState) : Prop :=
  ∃ c client, s.inject = some c ∧ s.clients[c]? = some client ∧ client.Active

/-- The flag is up and the slot leads to a splice whenever, and only when, there is one. -/
def Accurate (s : ProxyState) : Prop := s.spliceLive = true ∧ s.SlotLive ↔ s.SpliceActive

/-- No task fills or clears the slot while another's splice is starting or running, none
drops the flag while a splice is active, and no payload is accepted between the end of the
last splice and the drop of its flag. -/
def KeepsFlag (s : ProxyState) : ProxyAct → Prop
  | .fillSlot _ | .clearSlot _ => ∀ client ∈ s.clients, ¬ client.Running
  | .clearFlag _ => ¬ s.SpliceActive
  | .sendComposer _ => s.spliceLive = true → s.SpliceActive
  | _ => True

/-- What a step leaves of the phase a client is in: it starts to run by filling the slot and
gets active by raising the flag. -/
structure PhaseKept (a : ProxyAct) (j : Nat) (old tab : ProxyClient) : Prop where
  running : tab.Running → old.Running ∨ a = .fillSlot j
  active : tab.Active → old.Active ∨ a = .setFlag j

theorem PhaseKept.of_pc {j : Nat} {old tab : ProxyClient} (same : tab.pc = old.pc) :
    PhaseKept a j old tab := by
  constructor
  · intro running
    left
    unfold ProxyClient.Running ProxyClient.Active at running ⊢
    rwa [same] at running
  · intro active
    left
    unfold ProxyClient.Active at active ⊢
    rwa [same] at active

theorem PhaseKept.of_idle {j : Nat} {old tab : ProxyClient} (idle : ¬ tab.Running) :
    PhaseKept a j old tab :=
  ⟨fun running => absurd running idle, fun active => absurd (.inr active) idle⟩

theorem phase_set {c j : Nat} {client next tab : ProxyClient}
    (here : s.clients[c]? = some client) (found : (s.clients.set c next)[j]? = some tab)
    (kept : PhaseKept a c client next) :
    ∃ old, s.clients[j]? = some old ∧ PhaseKept a j old tab := by
  rcases Entries.set_cases found with ⟨rfl, rfl⟩ | ⟨-, same⟩
  · exact ⟨client, here, kept⟩
  · exact ⟨tab, same, .of_pc rfl⟩

theorem TaskMoves.phase {c : Nat} {client next : ProxyClient}
    (moved : s.TaskMoves c client a next) : PhaseKept a c client next := by
  cases moved with
  | fillSlot pc =>
    refine ⟨fun _ => .inr rfl, ?_⟩
    rintro (pc | pc) <;> cases pc
  | setFlag pc => exact ⟨fun _ => .inl (.inl pc), fun _ => .inr rfl⟩
  | connect pc ok => exact ⟨fun _ => .inl (.inr (.inl pc)), fun _ => .inl (.inl pc)⟩
  | c2s pc looped => exact .of_pc (ProxyClient.c2sStep_pc looped)
  | s2c pc looped => exact .of_pc (ProxyClient.s2cStep_pc looped)
  | join _ _ | clearFlag _ | clearSlot _ =>
    apply PhaseKept.of_idle
    rintro (pc | pc | pc) <;> cases pc

/-- Every client after a step is new or was there in a phase the step kept. -/
theorem step_phase {j : Nat} {tab : ProxyClient} (move : s.step a = some t)
    (found : t.clients[j]? = some tab) :
    tab = {} ∨ ∃ old, s.clients[j]? = some old ∧ PhaseKept a j old tab := by
  cases step_cases move with
  | accept =>
    dsimp only at found
    rw [List.getElem?_append] at found
    split at found
    · exact .inr ⟨tab, found, .of_pc rfl⟩
    · exact .inl (List.mem_singleton.mp (List.mem_of_getElem? found))
  | task here moved => exact .inr (phase_set here found moved.phase)
  | deliver _ _ =>
    rcases Entries.modify_cases found with ⟨old, there, rfl, rfl⟩ | ⟨_, there⟩
    · exact .inr ⟨old, there, .of_pc rfl⟩
    · exact .inr ⟨tab, there, .of_pc rfl⟩
  | sendComposer _ | drop _ _ => exact .inr ⟨tab, found, .of_pc rfl⟩

/-- Only the two flag steps touch the flag. -/
theorem step_flag (move : s.step a = some t) : t.spliceLive = s.flagAfter a := by
  cases step_cases move <;> rfl

/-- The slot is that of the client that runs, and the flag is up for the one that is
active. -/
structure Announced (s : ProxyState) : Prop where
  slot : ∀ (c : Nat) (client : ProxyClient), s.clients[c]? = some client →
    client.Running → s.inject = some c
  flag : ∀ (c : Nat) (client : ProxyClient), s.clients[c]? = some client →
    client.Active → s.spliceLive = true

theorem Announced.accurate (announced : s.Announced) : s.Accurate := by
  constructor
  · rintro ⟨_, c, client, _, found, active⟩
    exact ⟨client, List.mem_of_getElem? found, active⟩
  · rintro ⟨client, member, active⟩
    obtain ⟨c, found⟩ := List.mem_iff_getElem?.mp member
    exact ⟨announced.flag c client found active, c, client,
      announced.slot c client found (.inr active), found, active⟩

theorem fresh_idle : ¬ ({} : ProxyClient).Running := by
  rintro (pc | pc | pc) <;> cases pc

theorem step_announced (announced : s.Announced) (keeps : s.KeepsFlag a)
    (move : s.step a = some t) : t.Announced := by
  constructor
  · intro c client found running
    rcases step_phase move found with rfl | ⟨old, there, kept⟩
    · exact absurd running fresh_idle
    · have slot := step_inject move
      rcases kept.running running with before | rfl
      · have holds := announced.slot c old there before
        cases a with
        | fillSlot d => exact absurd before (keeps old (List.mem_of_getElem? there))
        | clearSlot d => exact absurd before (keeps old (List.mem_of_getElem? there))
        | _ => exact slot.trans holds
      · exact slot
  · intro c client found active
    rcases step_phase move found with rfl | ⟨old, there, kept⟩
    · exact absurd (.inr active) fresh_idle
    · have flag := step_flag move
      rcases kept.active active with before | rfl
      · have up := announced.flag c old there before
        cases a with
        | setFlag d => exact flag
        | clearFlag d => exact absurd ⟨old, List.mem_of_getElem? there, before⟩ keeps
        | _ => exact flag.trans up
      · exact flag

theorem inaccurate_of_down {client : ProxyClient} (member : client ∈ s.clients)
    (active : client.Active) (down : s.spliceLive = false ∨ s.inject = none) :
    ¬ s.Accurate := by
  intro accurate
  obtain ⟨up, c, other, slot, _⟩ := accurate.mpr ⟨client, member, active⟩
  rcases down with flag | empty
  · rw [flag] at up
    cases up
  · rw [empty] at slot
    cases slot

/-- The slot leads to a client whose splice is not active. -/
theorem inaccurate_of_slot {client other : ProxyClient} {c : Nat} (member : client ∈ s.clients)
    (active : client.Active) (slot : s.inject = some c) (found : s.clients[c]? = some other)
    (idle : ¬ other.Active) : ¬ s.Accurate := by
  intro accurate
  obtain ⟨_, d, there, slot', found', active'⟩ := accurate.mpr ⟨client, member, active⟩
  cases slot.symm.trans slot'
  cases found.symm.trans found'
  exact idle active'

/-- A client elsewhere than one that does not run stays where it is when that one moves. -/
theorem other_stays {c j : Nat} {mover client : ProxyClient} (moved : ProxyClient)
    (here : s.clients[c]? = some mover) (idle : ¬ mover.Running)
    (found : s.clients[j]? = some client) (running : client.Running) :
    c ≠ j ∧ (s.clients.set c moved)[j]? = some client := by
  have other : c ≠ j := by
    rintro rfl
    cases here.symm.trans found
    exact idle running
  refine ⟨other, ?_⟩
  rw [List.getElem?_set_ne other]
  exact found

theorem idle_of_pc {client : ProxyClient}
    (pc : client.pc = .accepted ∨ client.pc = .unflagging ∨ client.pc = .clearing) :
    ¬ client.Running := by
  unfold ProxyClient.Running ProxyClient.Active
  rcases pc with pc | pc | pc <;> rw [pc] <;> rintro (moved | moved | moved) <;> cases moved

/-- A task between the slot and the flag raises the flag next. -/
theorem next_raises {j : Nat} {client : ProxyClient} (found : s.clients[j]? = some client)
    (pc : client.pc = .flagging) :
    ∃ u, Reachable step s u ∧ u.inject = s.inject ∧
      (∃ tab ∈ u.clients, tab.Active) ∧ ∀ c, c ≠ j → u.clients[c]? = s.clients[c]? := by
  have inside := (List.getElem?_eq_some_iff.mp found).1
  have move : s.step (.setFlag j) =
      some { s.setClient j { client with pc := .connecting } with spliceLive := true } := by
    simp only [step, found, pc, if_true]
  refine ⟨_, Reachable.next (.refl s) move, rfl, ?_, ?_⟩
  · exact ⟨{ client with pc := .connecting }, List.mem_set inside _, .inl rfl⟩
  · intro c other
    exact List.getElem?_set_ne (Ne.symm other)

theorem running_of_not_forall (broken : ¬ ∀ client ∈ s.clients, ¬ client.Running) :
    ∃ client ∈ s.clients, client.Running := by
  by_contra none
  exact broken fun client member running => none ⟨client, member, running⟩

theorem broken_condition_misleads (move : s.step a = some t) (broken : ¬ s.KeepsFlag a) :
    (∃ u, Reachable step t u ∧ ¬ u.Accurate) ∨
      ∃ payload, a = .sendComposer payload ∧ ¬ s.SlotLive := by
  cases a with
  | fillSlot c =>
    left
    obtain ⟨client, member, running⟩ := running_of_not_forall broken
    obtain ⟨j, found⟩ := List.mem_iff_getElem?.mp member
    cases step_cases move with
    | @task _ filler _ _ here moved =>
      cases moved with
      | fillSlot pc =>
        obtain ⟨other, there⟩ :=
          other_stays { filler with pc := .flagging } here (idle_of_pc (.inl pc)) found running
        have inside := (List.getElem?_eq_some_iff.mp here).1
        have idle : ¬ ({ filler with pc := .flagging } : ProxyClient).Active := by
          rintro (pc | pc) <;> cases pc
        rcases running with flagging | active
        · obtain ⟨u, reached, slot, ⟨tab, tabs, active⟩, same⟩ :=
            next_raises (s := { s.setClient c { filler with pc := .flagging } with
              inject := some c }) there flagging
          refine ⟨u, reached, inaccurate_of_slot tabs active slot ?_ idle⟩
          rw [same c other]
          exact List.getElem?_set_self inside
        · exact ⟨_, .refl _, inaccurate_of_slot (List.mem_of_getElem? there) active rfl
            (List.getElem?_set_self inside) idle⟩
  | clearFlag c =>
    left
    obtain ⟨client, member, active⟩ : s.SpliceActive := not_not.mp broken
    obtain ⟨j, found⟩ := List.mem_iff_getElem?.mp member
    cases step_cases move with
    | @task _ clearer _ _ here moved =>
      cases moved with
      | clearFlag pc =>
        obtain ⟨_, there⟩ := other_stays { clearer with pc := .clearing } here
          (idle_of_pc (.inr (.inl pc))) found (.inr active)
        exact ⟨_, .refl _, inaccurate_of_down (List.mem_of_getElem? there) active (.inl rfl)⟩
  | clearSlot c =>
    left
    obtain ⟨client, member, running⟩ := running_of_not_forall broken
    obtain ⟨j, found⟩ := List.mem_iff_getElem?.mp member
    cases step_cases move with
    | @task _ clearer _ _ here moved =>
      cases moved with
      | clearSlot pc =>
        obtain ⟨_, there⟩ := other_stays { clearer with pc := .left } here
          (idle_of_pc (.inr (.inr pc))) found running
        rcases running with flagging | active
        · obtain ⟨u, reached, slot, ⟨tab, tabs, active⟩, _⟩ :=
            next_raises (s := { s.setClient c { clearer with pc := .left } with
              inject := none }) there flagging
          exact ⟨u, reached, inaccurate_of_down tabs active (.inr slot)⟩
        · exact ⟨_, .refl _, inaccurate_of_down (List.mem_of_getElem? there) active (.inr rfl)⟩
  | sendComposer payload =>
    right
    refine ⟨payload, rfl, ?_⟩
    rintro ⟨c, client, _, found, active⟩
    exact broken (fun _ => ⟨client, List.mem_of_getElem? found, active⟩)
  | _ => exact absurd trivial broken

end ProxyState

end BitBeak
