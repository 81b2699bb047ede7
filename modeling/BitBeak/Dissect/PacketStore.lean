import BitBeak.Dissect.Dissect
import BitBeak.Frame

/-! The ring of captured packets, and what this ring and that of the frames keep. -/
namespace BitBeak
open Wire Rings

/-- A packet as the capture list stores it. -/
structure StoredPacket extends PacketRecord where
  id : Nat := 0
  iface : String := ""
  expert : List ExpertInfo := []
  tree : Option ProtoTree := none
  fields : DisplayFields := []
  deriving DecidableEq, Repr

def StoredPacket.withId (id : Nat) (rec : StoredPacket) : StoredPacket := { rec with id := id }

structure PacketStore where
  packets : List StoredPacket
  max : Nat
  nextId : Nat
  dropped : Nat
  deriving DecidableEq, Repr

namespace PacketStore

def new (max : Nat) : PacketStore where
  packets := []
  max := Nat.max max 1
  nextId := 1
  dropped := 0

def len (store : PacketStore) : Nat := store.packets.length

def clear (store : PacketStore) : PacketStore := { store with packets := [], dropped := 0 }

/-- The store with the record, and the id that the record was given. -/
def push (store : PacketStore) (rec : StoredPacket) : PacketStore × Nat :=
  let store :=
    if store.max ≤ store.packets.length then
      { store with packets := store.packets.tail, dropped := (store.dropped + 1) % 2 ^ 64 }
    else store
  let id := store.nextId
  ({ store with nextId := saturatingSucc id, packets := store.packets ++ [{ rec with id := id }] },
    id)

/-- A frame from the wire, taken apart and pushed. A length of zero is that of the data. -/
def pushRaw (crates : Crates) (store : PacketStore) (data : Bytes) (linkType : LinkType)
    (iface : String) (origLen : UInt32) (wall : Int) : Except Fault (PacketStore × Nat) := do
  let d ← dissect crates data linkType
  return store.push
    { id := 0, wall := wall, iface := iface, linkType := linkType,
      origLen := if origLen = 0 then UInt32.ofNat data.length else origLen, data := data,
      summary := d.summary, flags := d.flags, expert := d.expert, tree := some d.tree,
      decrypted := d.decrypted, fields := d.fields }

def getById (store : PacketStore) (id : Nat) : Option StoredPacket :=
  store.packets.find? fun p => p.id == id

def apply (store : PacketStore) : Op StoredPacket → PacketStore
  | .push rec => (store.push rec).1
  | .clear => store.clear

def run (max : Nat) (ops : List (Op StoredPacket)) : PacketStore := ops.foldl apply (new max)

section
variable (store : PacketStore) (rec : StoredPacket)

theorem push_id : (store.push rec).2 = store.nextId := by
  rw [push]
  split <;> rfl

theorem push_max : (store.push rec).1.max = store.max := by
  rw [push]
  split <;> rfl

theorem push_nextId : (store.push rec).1.nextId = saturatingSucc store.nextId := by
  rw [push]
  split <;> rfl

theorem push_packets : (store.push rec).1.packets
    = Rings.push store.max store.packets (rec.withId store.nextId) := by
  rw [push, Rings.push]
  split <;> rfl

/-- A packet more is counted as kept or as dropped. -/
theorem push_counted (positive : 0 < store.max) (few : store.dropped + 1 < 2 ^ 64) :
    (store.push rec).1.dropped + (store.push rec).1.packets.length
      = store.dropped + store.packets.length + 1 := by
  rw [push]
  split
  · next full =>
    show (store.dropped + 1) % 2 ^ 64 + (store.packets.tail ++ [_]).length = _
    rw [List.length_append, List.length_tail, List.length_singleton, Nat.mod_eq_of_lt few]
    omega
  · show store.dropped + (store.packets ++ [_]).length = _
    rw [List.length_append, List.length_singleton, Nat.add_assoc]

end

/-- What a store holds after these pushes and clears. -/
structure Follows (asked : Nat) (ops : List (Op StoredPacket)) (store : PacketStore) : Prop where
  max : store.max = Nat.max asked 1
  nextId : store.nextId = min ((pushed ops).length + 1) (2 ^ 64 - 1)
  packets : store.packets = kept StoredPacket.withId (Nat.max asked 1) ops
  counted : store.dropped + store.packets.length = (sinceClear ops).length

namespace Follows

variable {asked : Nat} {ops : List (Op StoredPacket)} {store : PacketStore}

theorem given (now : Follows asked ops store) (few : (pushed ops).length + 1 < 2 ^ 64) :
    store.nextId = (pushed ops).length + 1 := by
  rw [now.nextId]
  omega

theorem pushOne (before : Follows asked ops store) (rec : StoredPacket)
    (few : (pushed ops).length + 1 < 2 ^ 64) :
    Follows asked (ops ++ [.push rec]) (store.push rec).1 := by
  have positive : 0 < Nat.max asked 1 := Nat.le_max_right _ _
  constructor
  · rw [push_max, before.max]
  · rw [push_nextId, before.given few, pushed_push, List.length_append]
    rfl
  · rw [push_packets, kept_push positive, ← before.given few, ← before.packets, before.max]
  · have below := length_sinceClear_le ops
    have counted := before.counted
    rw [push_counted store rec (before.max ▸ positive) (by omega), counted, sinceClear_push,
      List.length_append, List.length_singleton]

theorem clear (before : Follows asked ops store) : Follows asked (ops ++ [.clear]) store.clear := by
  constructor
  · exact before.max
  · rw [pushed_clear]
    exact before.nextId
  · rw [kept_clear]
    rfl
  · rw [sinceClear_clear]
    rfl

end Follows

theorem run_concat (asked : Nat) (ops : List (Op StoredPacket)) (op : Op StoredPacket) :
    run asked (ops ++ [op]) = (run asked ops).apply op := by
  simp only [run, List.foldl_append, List.foldl_cons, List.foldl_nil]

theorem follows_run (asked : Nat) (ops : List (Op StoredPacket))
    (few : (pushed ops).length < 2 ^ 64) : Follows asked ops (run asked ops) := by
  induction ops using List.reverseRecOn with
  | nil => exact ⟨rfl, rfl, (kept_nil _).symm, rfl⟩
  | append_singleton ops op ih =>
    rw [run_concat]
    cases op with
    | push rec =>
      rw [pushed_push, List.length_append, List.length_singleton] at few
      exact (ih (by omega)).pushOne rec few
    | clear =>
      rw [pushed_clear] at few
      exact (ih few).clear

/-- A capacity of zero counts as one. -/
theorem law_run (asked : Nat) (ops : List (Op StoredPacket)) (few : (pushed ops).length < 2 ^ 64) :
    Law StoredPacket.withId StoredPacket.id (Nat.max asked 1) ops (run asked ops).packets
      (run asked ops).getById := by
  have law := law_kept (fun _ _ => rfl : ∀ i p, StoredPacket.id (StoredPacket.withId i p) = i)
    (Nat.max asked 1) ops
  rw [← (follows_run asked ops few).packets] at law
  exact law

end PacketStore

/-- Stores and buffers keep the latest of what they were given, under the ids given out
last; a push gives out the next id, and what a store no longer keeps since the last clear
it has counted. -/
theorem rings_keep_the_latest (asked : Nat) :
    (∀ ops : List (Op StoredPacket), (pushed ops).length < 2 ^ 64 →
      Law StoredPacket.withId StoredPacket.id (Nat.max asked 1) ops
          (PacketStore.run asked ops).packets (PacketStore.run asked ops).getById ∧
        (PacketStore.run asked ops).dropped + (PacketStore.run asked ops).len
          = (sinceClear ops).length ∧
        ∀ rec, (pushed ops).length + 1 < 2 ^ 64 →
          ((PacketStore.run asked ops).push rec).2 = (pushed ops).length + 1) ∧
      ∀ frames : List Frame, frames.length < 2 ^ 64 →
        Law Frame.withId Frame.id (Nat.max asked 1) (frames.map .push)
          ((FrameBuffer.new asked).pushAll frames).frames
          ((FrameBuffer.new asked).pushAll frames).getById := by
  refine ⟨fun ops few => ⟨PacketStore.law_run asked ops few, ?_, fun rec more => ?_⟩,
    FrameBuffer.law_pushAll asked⟩
  · exact (PacketStore.follows_run asked ops few).counted
  · rw [PacketStore.push_id, (PacketStore.follows_run asked ops few).given more]

def demoStored (data : Bytes) : StoredPacket := { linkType := .ethernet, data := data }

def demoPushes : List (Op StoredPacket) :=
  [.push (demoStored [1]), .push (demoStored [2]), .clear, .push (demoStored [3]),
    .push (demoStored [4]), .push (demoStored [5])]

/-- Three packets behind a clear in a store of two. -/
theorem rings_keep_the_latest_two :
    (PacketStore.run 2 demoPushes).packets
        = [(demoStored [4]).withId 4, (demoStored [5]).withId 5] ∧
      (PacketStore.run 2 demoPushes).dropped = 1 ∧
      Law StoredPacket.withId StoredPacket.id 2 demoPushes
        (PacketStore.run 2 demoPushes).packets (PacketStore.run 2 demoPushes).getById ∧
      ((PacketStore.run 2 demoPushes).push (demoStored [6])).2 = 6 ∧
      Law Frame.withId Frame.id 2 [.push (.new 0 .inward [1])]
        ((FrameBuffer.new 2).pushAll [.new 0 .inward [1]]).frames
        ((FrameBuffer.new 2).pushAll [.new 0 .inward [1]]).getById := by
  obtain ⟨packets, frames⟩ := rings_keep_the_latest 2
  obtain ⟨law, _, given⟩ := packets demoPushes (by decide)
  exact ⟨by decide, by decide, law, given _ (by decide), frames [.new 0 .inward [1]] (by decide)⟩

/-- Rings that were asked to hold nothing hold one. -/
theorem empty_rings_keep_one :
    (PacketStore.run 0 [.push (demoStored [1])]).len = 1 ∧
      ¬ Law StoredPacket.withId StoredPacket.id 0 [.push (demoStored [1])]
        (PacketStore.run 0 [.push (demoStored [1])]).packets
        (PacketStore.run 0 [.push (demoStored [1])]).getById ∧
      ((FrameBuffer.new 0).push .inward [1]).len = 1 :=
  ⟨by decide, fun law => absurd law.bounded (by decide), by decide⟩

end BitBeak
