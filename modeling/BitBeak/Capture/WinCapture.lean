import BitBeak.Capture.MacBpf
import BitBeak.Lib.RoundRobin

/-! Live capture on several interfaces of Windows: one handle after the other is asked, from the
one whose turn it is. -/
namespace BitBeak
open Wire RoundRobin
open Rpcap (CapturePacket)

/-- What a call of `pcap_next_ex` comes to: a packet with its length on the wire, or no packet,
because there is none in time or because the call fails. -/
inductive NextEx where
  | packet (data : Bytes) (len : Nat)
  | nothing
  deriving DecidableEq, Repr

/-- A handle, with what the calls for it will come to. -/
structure WinHandle where
  name : String
  waiting : List NextEx := []
  deriving DecidableEq, Repr

structure WinCapture where
  handles : List WinHandle
  iface : String
  rr : Nat := 0
  deriving DecidableEq, Repr

namespace WinHandle

def nextEx (h : WinHandle) : NextEx × WinHandle :=
  match h.waiting with
  | [] => (.nothing, h)
  | e :: rest => (e, { h with waiting := rest })

/-- The packet that is made of it. -/
def packet (h : WinHandle) : NextEx → Option CapturePacket
  | .packet data len => some
    { data := data, linkType := .ethernet, iface := h.name, origLen := len }
  | .nothing => none

end WinHandle

namespace WinCapture

/-- So many handles are asked, from the one whose turn it is. -/
def poll (n : Nat) : Nat → WinCapture → Except Fault (Option CapturePacket × WinCapture)
  | 0, cap => .ok (none, cap)
  | rounds + 1, cap =>
    let idx := cap.rr % n
    let cap := { cap with rr := cap.rr + 1 }
    match cap.handles[idx]? with
    | none => .error .outOfRange
    | some h =>
      let (e, h) := h.nextEx
      let cap := { cap with handles := cap.handles.set idx h }
      match h.packet e with
      | some p => .ok (some p, cap)
      | none => poll n rounds cap

def nextPacket (cap : WinCapture) : Except Fault (Option CapturePacket × WinCapture) :=
  cap.poll cap.handles.length cap.handles.length

/-- Something comes to a handle, or the capture loop calls. -/
inductive Act where
  | arrive (i : Nat) (waiting : List NextEx)
  | call

def arrive (cap : WinCapture) (i : Nat) (waiting : List NextEx) : WinCapture :=
  { cap with handles := cap.handles.modify i fun h => { h with waiting := h.waiting ++ waiting } }

def run (cap : WinCapture) : List Act → Except Fault (List (Option CapturePacket) × WinCapture)
  | [] => .ok ([], cap)
  | .arrive i waiting :: acts => run (cap.arrive i waiting) acts
  | .call :: acts => do
    let (found, cap) ← cap.nextPacket
    let (rest, cap) ← run cap acts
    return (found :: rest, cap)

/- The handles as queues that are read in turn. -/

def ring (cap : WinCapture) : Rota CapturePacket where
  queues := cap.handles.map fun h => h.waiting.map h.packet
  turn := cap.rr % cap.handles.length

def names (cap : WinCapture) : List String := cap.handles.map (·.name)

theorem succ_mod {n : Nat} (some : 0 < n) (rr : Nat) : (rr + 1) % n = after n (rr % n) := by
  have inside := Nat.mod_lt rr some
  unfold after
  rw [← Nat.mod_add_mod]
  split
  · next last => rw [last, Nat.mod_self]
  · exact Nat.mod_eq_of_lt (by omega)

theorem nextEx_spec (h : WinHandle) :
    h.nextEx.2.name = h.name ∧ h.nextEx.2.waiting = h.waiting.drop 1 ∧
      h.nextEx.2.packet h.nextEx.1 = ((h.waiting.map h.packet).head?).join := by
  obtain ⟨name, waiting⟩ := h
  cases waiting with
  | nil => exact ⟨rfl, rfl, rfl⟩
  | cons e rest => exact ⟨rfl, rfl, rfl⟩

/-- A packet is made of the name of its handle only. -/
theorem packet_congr {h h' : WinHandle} (same : h'.name = h.name) : h'.packet = h.packet := by
  funext e
  cases e with
  | packet => rw [WinHandle.packet, WinHandle.packet, same]
  | nothing => rfl

theorem ring_length (cap : WinCapture) : cap.ring.queues.length = cap.handles.length :=
  List.length_map ..

/-- The handle whose turn it is, asked. -/
def asked (cap : WinCapture) (h : WinHandle) : WinCapture :=
  { cap with
    rr := cap.rr + 1
    handles := cap.handles.set (cap.rr % cap.handles.length) h.nextEx.2 }

theorem asked_spec {cap : WinCapture} {h : WinHandle}
    (here : cap.handles[cap.rr % cap.handles.length]? = some h) :
    (cap.asked h).ring = cap.ring.read ∧ (cap.asked h).names = cap.names ∧
      (cap.asked h).handles.length = cap.handles.length := by
  obtain ⟨name, rest, -⟩ := nextEx_spec h
  have inside : cap.rr % cap.handles.length < cap.handles.length :=
    (List.getElem?_eq_some_iff.mp here).1
  have length : (cap.asked h).handles.length = cap.handles.length := List.length_set ..
  refine ⟨?_, ?_, length⟩
  · unfold ring Rota.read
    rw [length]
    congr 1
    · refine List.ext_getElem? fun j => ?_
      rw [List.getElem?_map, List.getElem?_modify, List.getElem?_map, asked]
      by_cases own : cap.rr % cap.handles.length = j
      · subst own
        rw [List.getElem?_set_self inside, here]
        simp [rest, packet_congr name]
      · rw [List.getElem?_set_ne own]
        simp [own]
    · rw [List.length_map]
      exact succ_mod (Nat.zero_lt_of_lt inside) cap.rr
  · refine List.ext_getElem? fun j => ?_
    unfold names asked
    rw [List.getElem?_map, List.getElem?_map]
    by_cases own : cap.rr % cap.handles.length = j
    · subst own
      rw [List.getElem?_set_self inside, here, Option.map_some, Option.map_some, name]
    · rw [List.getElem?_set_ne own]

/-- The loop is that of the queues. -/
theorem poll_ring (rounds : Nat) {cap : WinCapture} (some' : 0 < cap.handles.length) :
    ∃ next, cap.poll cap.handles.length rounds =
        .ok ((cap.ring.serve rounds).1.map Prod.snd, next) ∧
      next.ring = (cap.ring.serve rounds).2 ∧ next.names = cap.names := by
  induction rounds generalizing cap with
  | zero => exact ⟨cap, rfl, rfl, rfl⟩
  | succ rounds ih =>
    obtain ⟨h, here⟩ : ∃ h, cap.handles[cap.rr % cap.handles.length]? = some h :=
      ⟨_, List.getElem?_eq_getElem (Nat.mod_lt cap.rr some')⟩
    obtain ⟨ring, names, length⟩ := asked_spec here
    have entry := (nextEx_spec h).2.2
    have front : cap.ring.queues[cap.ring.turn]? = some (h.waiting.map h.packet) := by
      change (cap.handles.map _)[cap.rr % cap.handles.length]? = _
      rw [List.getElem?_map, here]
      rfl
    rw [poll, Rota.serve, front, Option.getD_some, ← entry]
    dsimp only
    rw [here]
    dsimp only
    cases made : h.nextEx.2.packet h.nextEx.1 with
    | some p => exact ⟨_, rfl, ring, names⟩
    | none =>
      obtain ⟨next, went, ring', names'⟩ := ih (length.symm ▸ some')
      rw [length, ring] at went
      rw [ring] at ring'
      exact ⟨next, went, ring', names'.trans names⟩

/- Runs. -/

/-- What an act is for the queues of handles with these names. -/
def Act.event (names : List String) : Act → Event CapturePacket
  | .arrive i waiting =>
    .arrive i (waiting.map (WinHandle.packet { name := names[i]?.getD "" }))
  | .call => .call

/-- What comes to a handle. -/
def arrived (i : Nat) : List Act → List NextEx
  | [] => []
  | .arrive j waiting :: acts => (if j = i then waiting else []) ++ arrived i acts
  | .call :: acts => arrived i acts

theorem arrive_spec (cap : WinCapture) (i : Nat) (waiting : List NextEx) :
    (cap.arrive i waiting).ring = { cap.ring with
      queues := cap.ring.queues.modify i
        (· ++ waiting.map (WinHandle.packet { name := cap.names[i]?.getD "" })) } ∧
      (cap.arrive i waiting).names = cap.names ∧
      (cap.arrive i waiting).handles.length = cap.handles.length := by
  have length : (cap.arrive i waiting).handles.length = cap.handles.length :=
    List.length_modify ..
  refine ⟨?_, ?_, length⟩
  · unfold ring
    rw [length]
    congr 1
    refine List.ext_getElem? fun j => ?_
    rw [List.getElem?_map, arrive, List.getElem?_modify, List.getElem?_modify, List.getElem?_map]
    by_cases own : i = j
    · subst own
      cases here : cap.handles[i]? with
      | none => rfl
      | some h =>
        have named : ({ name := cap.names[i]?.getD "" } : WinHandle).packet = h.packet :=
          packet_congr (by simp [names, here])
        simp only [if_true, Option.map_eq_map, Option.map_some, named, List.map_append]
        rfl
    · simp [own]
  · refine List.ext_getElem? fun j => ?_
    unfold names arrive
    rw [List.getElem?_map, List.getElem?_map, List.getElem?_modify]
    cases cap.handles[j]? with
    | none => rfl
    | some h =>
      by_cases own : i = j
      · simp [own]
      · simp [own]

theorem run_ring (acts : List Act) {cap : WinCapture} (some' : 0 < cap.handles.length) :
    ∃ last, cap.run acts =
        .ok ((cap.ring.run (acts.map (Act.event cap.names))).1.map (Option.map Prod.snd), last) ∧
      last.ring = (cap.ring.run (acts.map (Act.event cap.names))).2 ∧ last.names = cap.names := by
  induction acts generalizing cap with
  | nil => exact ⟨cap, rfl, rfl, rfl⟩
  | cons act acts ih =>
    cases act with
    | arrive i waiting =>
      obtain ⟨ring, names, length⟩ := arrive_spec cap i waiting
      obtain ⟨last, went, ring', names'⟩ := ih (length.symm ▸ some')
      rw [names, ring] at went ring'
      exact ⟨last, went, ring', names'.trans names⟩
    | call =>
      obtain ⟨next, went, ring, names⟩ := poll_ring cap.handles.length some'
      have length : next.handles.length = cap.handles.length := by
        have same := congrArg List.length names
        rwa [WinCapture.names, WinCapture.names, List.length_map, List.length_map] at same
      obtain ⟨last, went', ring', names'⟩ := ih (length.symm ▸ some')
      have call : cap.ring.next = cap.ring.serve cap.handles.length := by
        rw [Rota.next, ring_length]
      rw [names, ring, ← call] at went' ring'
      rw [← call] at went
      refine ⟨last, ?_, ring', names'.trans names⟩
      rw [run, nextPacket, went]
      simp only [bind, Except.bind, went']
      rfl

theorem arrivals_event (names : List String) (i : Nat) (acts : List Act) :
    arrivals i (acts.map (Act.event names)) =
      (arrived i acts).map (WinHandle.packet { name := names[i]?.getD "" }) := by
  induction acts with
  | nil => rfl
  | cons act acts ih =>
    cases act with
    | call => exact ih
    | arrive j waiting =>
      rw [List.map_cons, Act.event, arrivals, arrived, ih, List.map_append]
      by_cases own : j = i
      · simp [own]
      · simp [own]

theorem reduceOption_packets (h : WinHandle) (waiting : List NextEx) :
    (waiting.map h.packet).reduceOption = waiting.filterMap h.packet := by
  rw [List.reduceOption, List.filterMap_map]
  rfl

theorem packet_iface {h : WinHandle} {e : NextEx} {p : CapturePacket} (made : h.packet e = some p) :
    p.iface = h.name := by
  cases e with
  | packet => cases made; rfl
  | nothing => cases made

/-- In whatever order packets come and the capture loop calls: from each interface the packets
are delivered in the order they came in, each once, what is not delivered is still there, and
what waits behind so many entries is taken after as many rounds of calls and one more, however
busy the other interfaces are. -/
theorem no_interface_starves {cap : WinCapture} (distinct : cap.names.Nodup) (acts : List Act)
    {i : Nat} {h : WinHandle} (here : cap.handles[i]? = some h) :
    ∃ found last, cap.run acts = .ok (found, last) ∧ ∃ c,
      deliveredFrom h.name found =
          ((h.waiting ++ arrived i acts).take c).filterMap h.packet ∧
        (last.handles[i]?.map fun h => h.waiting.filterMap h.packet) =
          some (((h.waiting ++ arrived i acts).drop c).filterMap h.packet) ∧
        ∀ p < h.waiting.length, (p + 1) * cap.handles.length ≤ found.length → p < c := by
  have inside := (List.getElem?_eq_some_iff.mp here).1
  have some' : 0 < cap.handles.length := Nat.zero_lt_of_lt inside
  have turn : cap.ring.turn < cap.ring.queues.length := by
    rw [ring_length]
    exact Nat.mod_lt _ some'
  obtain ⟨last, went, ring', -⟩ := run_ring acts some'
  have queue : ∀ j g, cap.handles[j]? = some g → ∃ c,
      (last.ring.queues[j]? = some (((g.waiting ++ arrived j acts).drop c).map g.packet)) ∧
        (cap.ring.run (acts.map (Act.event cap.names))).1.flatMap (foundIn j) =
          ((g.waiting ++ arrived j acts).take c).filterMap g.packet ∧
        ∀ p < g.waiting.length,
          p * cap.handles.length + wait cap.handles.length cap.ring.turn j <
            (cap.ring.run (acts.map (Act.event cap.names))).1.length → p < c := by
    intro j g there
    have inside' := (List.getElem?_eq_some_iff.mp there).1
    have named : ({ name := cap.names[j]?.getD "" } : WinHandle).packet = g.packet :=
      packet_congr (by simp [names, there])
    have queue : cap.ring.queues[j]? = some (g.waiting.map g.packet) := by
      simp [ring, there]
    obtain ⟨c, left, found, soon⟩ := run_queue (acts.map (Act.event cap.names))
      (by rwa [ring_length]) turn queue
    rw [arrivals_event, named, ← List.map_append] at left found
    refine ⟨c, ?_, ?_, ?_⟩
    · rw [ring', left, List.map_drop]
    · rw [found, ← List.map_take, reduceOption_packets]
    · intro p listed enough
      rw [run_length] at enough
      rw [ring_length, List.length_map] at soon
      exact soon p listed enough
  obtain ⟨c, left, found, soon⟩ := queue i h here
  have apart : ∀ j x, some (j, x) ∈ (cap.ring.run (acts.map (Act.event cap.names))).1 →
      (x.iface = h.name ↔ j = i) := by
    intro j x member
    have within := run_found _ turn member
    rw [ring_length] at within
    obtain ⟨_, -, made, -⟩ := queue j _ (List.getElem?_eq_getElem within)
    have listed : x ∈ (cap.ring.run (acts.map (Act.event cap.names))).1.flatMap (foundIn j) :=
      List.mem_flatMap.mpr ⟨_, member, by rw [foundIn_self]; exact List.mem_singleton_self x⟩
    rw [made] at listed
    obtain ⟨e, -, packet⟩ := List.mem_filterMap.mp listed
    rw [packet_iface packet]
    constructor
    · intro same
      refine (List.getElem?_inj (by simpa [names] using within) distinct).mp ?_
      rw [names, List.getElem?_map, List.getElem?_map, here, List.getElem?_eq_getElem within]
      exact congrArg some same
    · rintro rfl
      rw [List.getElem?_eq_getElem inside] at here
      cases here
      rfl
  refine ⟨_, last, went, c, ?_, ?_, fun p listed enough => soon p listed ?_⟩
  · rw [deliveredFrom, filter_found apart, found]
  · have there := congrArg (Option.map List.reduceOption) left
    rw [Option.map_some, reduceOption_packets] at there
    rw [← there, ring]
    rw [List.getElem?_map, Option.map_map]
    congr 1
    funext g
    exact (reduceOption_packets g g.waiting).symm
  · have near : wait cap.handles.length cap.ring.turn i < cap.handles.length :=
      wait_lt inside (ring_length cap ▸ turn)
    rw [List.length_map] at enough
    rw [Nat.add_one_mul] at enough
    omega

def busyAndQuiet : WinCapture where
  handles := [⟨"busy", List.replicate 5 (.packet [1] 1)⟩, ⟨"quiet", [.packet [2] 1]⟩]
  iface := "any"

/-- The one packet of a quiet interface is there after two calls. -/
theorem quiet_interface_served :
    ∃ found last, busyAndQuiet.run [.call, .call] = .ok (found, last) ∧ ∃ c, 0 < c ∧
      deliveredFrom "quiet" found =
        ([NextEx.packet [2] 1].take c).filterMap (WinHandle.packet ⟨"quiet", []⟩) := by
  obtain ⟨found, last, went, c, delivered, -, soon⟩ := no_interface_starves
    (show busyAndQuiet.names.Nodup by decide) [.call, .call]
    (show busyAndQuiet.handles[1]? = some _ from rfl)
  refine ⟨found, last, went, c, soon 0 (by decide) ?_, delivered⟩
  have ran : busyAndQuiet.run [.call, .call] =
      .ok ([some ⟨[1], .ethernet, "busy", 1⟩, some ⟨[2], .ethernet, "quiet", 1⟩],
        ⟨[⟨"busy", List.replicate 4 (.packet [1] 1)⟩, ⟨"quiet", []⟩], "any", 2⟩) := rfl
  cases went.symm.trans ran
  decide

end WinCapture

end BitBeak
