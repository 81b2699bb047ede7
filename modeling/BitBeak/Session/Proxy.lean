import BitBeak.Lib.Bytes
import BitBeak.Lib.Runs

/-! The proxy: one task for each accepted client, two forwarding loops for each splice,
and the one slot all clients share for the sender of composer payloads. -/
namespace BitBeak
open Wire Runs

/-- Where the task of an accepted client stands. A sender is alive exactly while the
slot holds it, so the slot is the name of the client whose sender is in it. -/
inductive ClientPc where
  | accepted
  | flagging
  | connecting
  | splicing
  | unflagging
  | clearing
  | left
  deriving DecidableEq

/-- Where the client-to-server loop of `splice_any` stands. A payload on its way to the
server was read from the client or taken from the inject channel. -/
inductive C2sPc where
  | head
  | select
  | write (payload : Bytes) (fromClient : Bool)
  | parked
  | closing
  | done
  deriving DecidableEq

inductive S2cPc where
  | head
  | read
  | write (payload : Bytes)
  | closing
  | done
  deriving DecidableEq

/-- `received` is what the loop read from the client, `forwarded` what of it the server
got. -/
structure ProxyClient where
  pc : ClientPc := .accepted
  injected : List Bytes := []
  active : Bool := true
  c2s : C2sPc := .head
  s2c : S2cPc := .head
  received : List Bytes := []
  forwarded : List Bytes := []
  deriving DecidableEq

structure ProxyState where
  clients : List ProxyClient := []
  inject : Option Nat := none
  spliceLive : Bool := false
  commands : List Bytes := []
  deriving DecidableEq

/-- A read gives bytes, or ends the loop: end of stream and errors alike. -/
inductive C2sAct where
  | check
  | recv
  | read (chunk : Option Bytes)
  | wrote (ok : Bool)
  | close

inductive S2cAct where
  | check
  | read (chunk : Option Bytes)
  | wrote (ok : Bool)
  | close

inductive ProxyAct where
  | accept
  | fillSlot (c : Nat)
  | setFlag (c : Nat)
  | connect (c : Nat) (ok : Bool)
  | c2s (c : Nat) (a : C2sAct)
  | s2c (c : Nat) (a : S2cAct)
  | join (c : Nat)
  | clearFlag (c : Nat)
  | clearSlot (c : Nat)
  | sendComposer (payload : Bytes)
  | command

namespace ProxyClient

/-- The client-to-server loop. `select!` is biased: it reads from the client only while
the inject channel is open and empty, and a closed channel parks the loop. -/
def c2sStep (client : ProxyClient) (senderAlive : Bool) (a : C2sAct) : Option ProxyClient :=
  match client.c2s, a with
  | .head, .check => some { client with c2s := if client.active then .select else .closing }
  | .select, .recv =>
    match client.injected with
    | payload :: rest => some { client with injected := rest, c2s := .write payload false }
    | [] => if senderAlive then none else some { client with c2s := .parked }
  | .select, .read chunk =>
    if client.injected.isEmpty && senderAlive then
      match chunk with
      | none => some { client with c2s := .closing }
      | some payload => some { client with
          received := client.received ++ [payload], c2s := .write payload true }
    else none
  | .write payload fromClient, .wrote ok =>
    if ok then some { client with
      forwarded := if fromClient then client.forwarded ++ [payload] else client.forwarded
      c2s := .head }
    else some { client with c2s := .closing }
  | .closing, .close => some { client with active := false, c2s := .done }
  | _, _ => none

def s2cStep (client : ProxyClient) (a : S2cAct) : Option ProxyClient :=
  match client.s2c, a with
  | .head, .check => some { client with s2c := if client.active then .read else .closing }
  | .read, .read none => some { client with s2c := .closing }
  | .read, .read (some payload) => some { client with s2c := .write payload }
  | .write _, .wrote ok => some { client with s2c := if ok then .head else .closing }
  | .closing, .close => some { client with active := false, s2c := .done }
  | _, _ => none

end ProxyClient

namespace ProxyState

def setClient (s : ProxyState) (c : Nat) (client : ProxyClient) : ProxyState :=
  { s with clients := s.clients.set c client }

/-- A step of the task of client `c`, of its two loops, of the accept loop, of the
composer and of the task that takes its commands. -/
def step (s : ProxyState) : ProxyAct → Option ProxyState
  | .accept => some { s with clients := s.clients ++ [{}] }
  | .fillSlot c =>
    match s.clients[c]? with
    | some client =>
      if client.pc = .accepted then
        some { s.setClient c { client with pc := .flagging } with inject := some c }
      else none
    | none => none
  | .setFlag c =>
    match s.clients[c]? with
    | some client =>
      if client.pc = .flagging then
        some { s.setClient c { client with pc := .connecting } with spliceLive := true }
      else none
    | none => none
  | .connect c ok =>
    match s.clients[c]? with
    | some client =>
      if client.pc = .connecting then
        some (s.setClient c { client with pc := if ok then .splicing else .unflagging })
      else none
    | none => none
  | .c2s c a =>
    match s.clients[c]? with
    | some client =>
      if client.pc = .splicing then
        (client.c2sStep (s.inject == some c) a).map (s.setClient c)
      else none
    | none => none
  | .s2c c a =>
    match s.clients[c]? with
    | some client =>
      if client.pc = .splicing then (client.s2cStep a).map (s.setClient c) else none
    | none => none
  | .join c =>
    match s.clients[c]? with
    | some client =>
      if client.pc = .splicing ∧ client.c2s = .done ∧ client.s2c = .done then
        some (s.setClient c { client with pc := .unflagging })
      else none
    | none => none
  | .clearFlag c =>
    match s.clients[c]? with
    | some client =>
      if client.pc = .unflagging then
        some { s.setClient c { client with pc := .clearing } with spliceLive := false }
      else none
    | none => none
  | .clearSlot c =>
    match s.clients[c]? with
    | some client =>
      if client.pc = .clearing then
        some { s.setClient c { client with pc := .left } with inject := none }
      else none
    | none => none
  | .sendComposer payload =>
    if payload ≠ [] ∧ s.spliceLive then some { s with commands := s.commands ++ [payload] }
    else none
  | .command =>
    match s.commands with
    | payload :: rest =>
      match s.inject with
      | some c => some { s with
          clients := s.clients.modify c
            (fun client => { client with injected := client.injected ++ [payload] })
          commands := rest }
      | none => some { s with commands := rest }
    | [] => none

/- What a step can do, said once. -/

/-- What the task of client `c` makes of its client, in a step of its own or of one of its
two loops. -/
inductive TaskMoves (s : ProxyState) (c : Nat) (client : ProxyClient) :
    ProxyAct → ProxyClient → Prop where
  | fillSlot (pc : client.pc = .accepted) :
    TaskMoves s c client (.fillSlot c) { client with pc := .flagging }
  | setFlag (pc : client.pc = .flagging) :
    TaskMoves s c client (.setFlag c) { client with pc := .connecting }
  | connect (pc : client.pc = .connecting) (ok : Bool) :
    TaskMoves s c client (.connect c ok)
      { client with pc := if ok then .splicing else .unflagging }
  | c2s {b : C2sAct} {next : ProxyClient} (pc : client.pc = .splicing)
    (looped : client.c2sStep (s.inject == some c) b = some next) :
    TaskMoves s c client (.c2s c b) next
  | s2c {b : S2cAct} {next : ProxyClient} (pc : client.pc = .splicing)
    (looped : client.s2cStep b = some next) : TaskMoves s c client (.s2c c b) next
  | join (pc : client.pc = .splicing) (joined : client.c2s = .done ∧ client.s2c = .done) :
    TaskMoves s c client (.join c) { client with pc := .unflagging }
  | clearFlag (pc : client.pc = .unflagging) :
    TaskMoves s c client (.clearFlag c) { client with pc := .clearing }
  | clearSlot (pc : client.pc = .clearing) :
    TaskMoves s c client (.clearSlot c) { client with pc := .left }

def slotAfter (s : ProxyState) : ProxyAct → Option Nat
  | .fillSlot c => some c
  | .clearSlot _ => none
  | _ => s.inject

def flagAfter (s : ProxyState) : ProxyAct → Bool
  | .setFlag _ => true
  | .clearFlag _ => false
  | _ => s.spliceLive

inductive Moves (s : ProxyState) : ProxyAct → ProxyState → Prop where
  | accept : Moves s .accept { s with clients := s.clients ++ [{}] }
  | task {c : Nat} {client next : ProxyClient} {a : ProxyAct}
    (here : s.clients[c]? = some client) (turn : s.TaskMoves c client a next) :
    Moves s a { s with
      clients := s.clients.set c next, inject := s.slotAfter a, spliceLive := s.flagAfter a }
  | sendComposer {payload : Bytes} (accepted : payload ≠ [] ∧ s.spliceLive) :
    Moves s (.sendComposer payload) { s with commands := s.commands ++ [payload] }
  | deliver {payload : Bytes} {rest : List Bytes} {c : Nat}
    (queued : s.commands = payload :: rest) (slot : s.inject = some c) :
    Moves s .command { s with
      clients := s.clients.modify c
        (fun client => { client with injected := client.injected ++ [payload] })
      commands := rest }
  | drop {payload : Bytes} {rest : List Bytes} (queued : s.commands = payload :: rest)
    (slot : s.inject = none) : Moves s .command { s with commands := rest }

variable {s t : ProxyState} {a : ProxyAct}

/-- A task's step with its guard: the client is there and where the step expects it. -/
theorem task_cases {c : Nat} {guarded : ProxyClient → Prop} [DecidablePred guarded]
    {f : ProxyClient → Option ProxyState}
    (move : (match s.clients[c]? with
      | some client => if guarded client then f client else none
      | none => none) = some t) :
    ∃ client, s.clients[c]? = some client ∧ guarded client ∧ f client = some t := by
  split at move
  · next client here =>
    split at move
    · next holds => exact ⟨client, here, holds, move⟩
    · contradiction
  · contradiction

theorem step_cases (move : s.step a = some t) : s.Moves a t := by
  cases a with
  | accept =>
    cases move
    exact .accept
  | fillSlot c =>
    obtain ⟨client, here, pc, ⟨⟩⟩ := task_cases move
    exact .task here (.fillSlot pc)
  | setFlag c =>
    obtain ⟨client, here, pc, ⟨⟩⟩ := task_cases move
    exact .task here (.setFlag pc)
  | connect c ok =>
    obtain ⟨client, here, pc, ⟨⟩⟩ := task_cases move
    exact .task here (.connect pc ok)
  | c2s c b =>
    obtain ⟨client, here, pc, moved⟩ := task_cases move
    obtain ⟨next, looped, rfl⟩ := Option.map_eq_some_iff.mp moved
    exact .task here (.c2s pc looped)
  | s2c c b =>
    obtain ⟨client, here, pc, moved⟩ := task_cases move
    obtain ⟨next, looped, rfl⟩ := Option.map_eq_some_iff.mp moved
    exact .task here (.s2c pc looped)
  | join c =>
    obtain ⟨client, here, ⟨pc, joined⟩, ⟨⟩⟩ := task_cases move
    exact .task here (.join pc joined)
  | clearFlag c =>
    obtain ⟨client, here, pc, ⟨⟩⟩ := task_cases move
    exact .task here (.clearFlag pc)
  | clearSlot c =>
    obtain ⟨client, here, pc, ⟨⟩⟩ := task_cases move
    exact .task here (.clearSlot pc)
  | sendComposer payload =>
    simp only [step] at move
    split at move
    · next accepted =>
      cases move
      exact .sendComposer accepted
    · contradiction
  | command =>
    simp only [step] at move
    split at move
    · next payload rest queued =>
      split at move
      · next c slot =>
        cases move
        exact .deliver queued slot
      · next slot =>
        cases move
        exact .drop queued slot
    · contradiction

end ProxyState

end BitBeak
