import BitBeak.Lib.Rows
import BitBeak.Session.CaptureTab

/-! Which packet is shown while packets arrive and the list is not followed. The selection is a
row among the packets that the display filter takes, so it stays with its packet only where the
rows in front of it stay. -/
namespace BitBeak
open DispFilter Rings

namespace PacketStore

def pushAll (store : PacketStore) (recs : List StoredPacket) : PacketStore :=
  recs.foldl (fun store rec => (store.push rec).1) store

/-- Records as a store numbers them. -/
def given (id : Nat) : List StoredPacket → List StoredPacket
  | [] => []
  | rec :: recs => rec.withId id :: given (saturatingSucc id) recs

theorem length_given (id : Nat) (recs : List StoredPacket) :
    (given id recs).length = recs.length := by
  induction recs generalizing id with
  | nil => rfl
  | cons rec recs ih => rw [given, List.length_cons, ih, List.length_cons]

theorem pushAll_eq_foldl (store : PacketStore) (recs : List StoredPacket) :
    (store.pushAll recs).packets
      = (given store.nextId recs).foldl (Rings.push store.max) store.packets := by
  induction recs generalizing store with
  | nil => rfl
  | cons rec recs ih =>
    have rest := ih (store.push rec).1
    rw [push_nextId, push_max, push_packets] at rest
    exact rest

/-- A store after some packets is the end of what it held and was given. -/
theorem pushAll_packets (store : PacketStore) (recs : List StoredPacket) :
    (store.pushAll recs).packets = (store.packets ++ given store.nextId recs).drop
      (evictions store.max store.packets.length recs.length) := by
  rw [pushAll_eq_foldl, foldl_push, length_given]

end PacketStore

section
variable {R : Type} (isMatch : R → String → Bool)

/-- A display filter does not look at the id. -/
theorem holds_withId (f : DisplayFilter R) (id : Nat) (rec : StoredPacket) :
    f.holds isMatch (rec.withId id) = f.holds isMatch rec := by
  induction f with
  | not f ih => simp [DisplayFilter.holds, ih]
  | and a b iha ihb => simp [DisplayFilter.holds, iha, ihb]
  | or a b iha ihb => simp [DisplayFilter.holds, iha, ihb]
  | _ => rfl

theorem countP_given (f : DisplayFilter R) (id : Nat) (recs : List StoredPacket) :
    (PacketStore.given id recs).countP (f.holds isMatch) = recs.countP (f.holds isMatch) := by
  induction recs generalizing id with
  | nil => rfl
  | cons rec recs ih =>
    rw [PacketStore.given, List.countP_cons, List.countP_cons, ih, holds_withId]

end

namespace CaptureTab

variable {R : Type} (isMatch : R → String → Bool) (blockSize : PcapNgBlock → Nat)

/-- The records of a batch. -/
def records (batch : List (DiskAnswers × TimedPacket)) : List StoredPacket :=
  batch.map fun received => received.2.toStoredPacket

/-- How many of the packets leave the store when these arrive. -/
def evicted (tab : CaptureTab R) (batch : List (DiskAnswers × TimedPacket)) : Nat :=
  evictions tab.store.max tab.store.packets.length batch.length

def taken (tab : CaptureTab R) (packets : List StoredPacket) : Nat :=
  packets.countP (tab.displayFilter.holds isMatch)

/-- The packet at place `i` is evicted, or it is shown at the place it has moved to. -/
def StillShown (tab : CaptureTab R) (batch : List (DiskAnswers × TimedPacket))
    (last : TryRecvError) (i : Nat) : Prop :=
  i < tab.evicted batch ∨
    (tab.drainPackets isMatch blockSize batch last).visibleIndex isMatch
      = some (i - tab.evicted batch)

/-- The filter takes none of the packets that go, and the selected row exists; or it takes none
of those that arrive, and the selected row is the last one or behind it. -/
def RowKept (tab : CaptureTab R) (batch : List (DiskAnswers × TimedPacket)) : Prop :=
  (tab.selected < tab.taken isMatch tab.store.packets ∧
      tab.taken isMatch (tab.store.packets.take (tab.evicted batch)) = 0) ∨
    (tab.taken isMatch tab.store.packets ≤ tab.selected + 1 ∧
      tab.taken isMatch (records batch) = 0)

/- What a batch changes. -/

variable (tab : CaptureTab R) (batch : List (DiskAnswers × TimedPacket)) (last : TryRecvError)

theorem visibleIndex_eq_shown :
    tab.visibleIndex isMatch
      = Rows.shown (tab.displayFilter.holds isMatch) tab.selected tab.store.packets := by
  unfold visibleIndex filteredIndices Rows.shown Rows.places
  dsimp only
  split
  · next none =>
    rw [List.isEmpty_iff.mp none]
    rfl
  · rfl

/-- Without follow, a packet goes to the ring, to the statistics and to the store. -/
theorem takeIn_unfollowed (received : DiskAnswers × TimedPacket) (off : tab.follow = false) :
    (tab.takeIn isMatch blockSize received).follow = false ∧
      (tab.takeIn isMatch blockSize received).displayFilter = tab.displayFilter ∧
        (tab.takeIn isMatch blockSize received).selected = tab.selected ∧
          (tab.takeIn isMatch blockSize received).store
            = (tab.store.push received.2.toStoredPacket).1 := by
  unfold takeIn
  simp [off]

theorem foldl_unfollowed (off : tab.follow = false) :
    (batch.foldl (takeIn isMatch blockSize) tab).displayFilter = tab.displayFilter ∧
      (batch.foldl (takeIn isMatch blockSize) tab).selected = tab.selected ∧
        (batch.foldl (takeIn isMatch blockSize) tab).store = tab.store.pushAll (records batch) := by
  induction batch generalizing tab with
  | nil => exact ⟨rfl, rfl, rfl⟩
  | cons received batch ih =>
    obtain ⟨still, filter, row, store⟩ := takeIn_unfollowed isMatch blockSize tab received off
    obtain ⟨filters, rows, stores⟩ := ih (tab.takeIn isMatch blockSize received) still
    exact ⟨filters.trans filter, rows.trans row, by rw [List.foldl_cons, stores, store]; rfl⟩

theorem drained_view (tab : CaptureTab R) :
    (tab.drained last).displayFilter = tab.displayFilter ∧
      (tab.drained last).selected = tab.selected ∧ (tab.drained last).store = tab.store := by
  cases last <;> exact ⟨rfl, rfl, rfl⟩

variable {tab batch}

/-- A batch changes the store, and neither the filter nor the selected row. -/
theorem drainPackets_view (off : tab.follow = false) (drains : tab.packetRx = none → batch = []) :
    (tab.drainPackets isMatch blockSize batch last).displayFilter = tab.displayFilter ∧
      (tab.drainPackets isMatch blockSize batch last).selected = tab.selected ∧
        (tab.drainPackets isMatch blockSize batch last).store
          = tab.store.pushAll (records batch) := by
  unfold drainPackets
  split
  · next closed =>
    rw [drains closed]
    exact ⟨rfl, rfl, rfl⟩
  · obtain ⟨filter, row, store⟩ :=
      drained_view last (batch.foldl (takeIn isMatch blockSize) tab)
    obtain ⟨filters, rows, stores⟩ := foldl_unfollowed isMatch blockSize tab batch off
    exact ⟨filter.trans filters, row.trans rows, store.trans stores⟩

theorem drainPackets_packets (off : tab.follow = false)
    (drains : tab.packetRx = none → batch = []) :
    (tab.drainPackets isMatch blockSize batch last).store.packets
      = (tab.store.packets ++ PacketStore.given tab.store.nextId (records batch)).drop
        (tab.evicted batch) := by
  rw [(drainPackets_view isMatch blockSize last off drains).2.2, PacketStore.pushAll_packets,
    records, List.length_map, evicted]

/-- A packet that stays has moved as far as packets are gone. -/
theorem drainPackets_moves (off : tab.follow = false) (drains : tab.packetRx = none → batch = [])
    {i : Nat} (inside : i < tab.store.packets.length) (stays : tab.evicted batch ≤ i) :
    (tab.drainPackets isMatch blockSize batch last).store.packets[i - tab.evicted batch]?
      = tab.store.packets[i]? := by
  rw [drainPackets_packets isMatch blockSize last off drains, List.getElem?_drop,
    Nat.add_sub_cancel' stays, List.getElem?_append_left inside]

theorem visibleIndex_lt {i : Nat} (here : tab.visibleIndex isMatch = some i) :
    i < tab.store.packets.length := by
  rw [visibleIndex_eq_shown] at here
  exact Rows.lt_of_mem_places _ (Rows.shown_mem here)

theorem stillShown_iff (off : tab.follow = false) (drains : tab.packetRx = none → batch = [])
    {i : Nat} (here : tab.visibleIndex isMatch = some i) :
    tab.StillShown isMatch blockSize batch last i ↔
      i < tab.evicted batch ∨ tab.RowKept isMatch batch := by
  unfold StillShown
  by_cases goes : i < tab.evicted batch
  · simp [goes]
  · have stays : tab.evicted batch ≤ i := Nat.le_of_not_lt goes
    rw [visibleIndex_eq_shown] at here
    have moved := Rows.shown_moved here stays (PacketStore.given tab.store.nextId (records batch))
    rw [countP_given] at moved
    obtain ⟨filter, row, _⟩ := drainPackets_view isMatch blockSize last off drains
    rw [visibleIndex_eq_shown, filter, row, drainPackets_packets isMatch blockSize last off drains,
      moved]
    simp only [goes, false_or]
    rfl

/-- Where ids differ, showing a packet again is showing it at the place it has moved to. -/
theorem visiblePacket_eq_iff (off : tab.follow = false)
    (drains : tab.packetRx = none → batch = []) {i : Nat}
    (here : tab.visibleIndex isMatch = some i) (stays : tab.evicted batch ≤ i)
    (distinct : ((tab.drainPackets isMatch blockSize batch last).store.packets.map
      StoredPacket.id).Nodup) :
    (tab.drainPackets isMatch blockSize batch last).visiblePacket isMatch
        = tab.visiblePacket isMatch ↔
      (tab.drainPackets isMatch blockSize batch last).visibleIndex isMatch
        = some (i - tab.evicted batch) := by
  have inside := visibleIndex_lt isMatch here
  have moves := drainPackets_moves isMatch blockSize last off drains inside stays
  unfold visiblePacket
  rw [here, Option.bind_some, ← moves]
  constructor
  · intro same
    have there : i - tab.evicted batch
        < (tab.drainPackets isMatch blockSize batch last).store.packets.length := by
      apply (List.getElem?_eq_some_iff.mp (moves.trans (List.getElem?_eq_getElem inside))).1
    rw [List.getElem?_eq_getElem there] at same
    obtain ⟨j, found, at'⟩ := Option.bind_eq_some_iff.mp same
    rw [found, (List.getElem?_inj there distinct.of_map).mp
      ((List.getElem?_eq_getElem there).trans at'.symm)]
  · intro found
    rw [found, Option.bind_some]

end CaptureTab

open CaptureTab in
/-- The packet that is shown stays where it is in the order of arrival. It is evicted or still
shown after a batch exactly when it is evicted or its row is kept. -/
theorem selected_packet_stays {R : Type} (isMatch : R → String → Bool)
    (blockSize : PcapNgBlock → Nat) (tab : CaptureTab R)
    (batch : List (DiskAnswers × TimedPacket)) (last : TryRecvError)
    (off : tab.follow = false) (drains : tab.packetRx = none → batch = [])
    (i : Nat) (here : tab.visibleIndex isMatch = some i) :
    (tab.evicted batch ≤ i →
        (tab.drainPackets isMatch blockSize batch last).store.packets[i - tab.evicted batch]?
          = tab.store.packets[i]?) ∧
      (tab.StillShown isMatch blockSize batch last i ↔
        i < tab.evicted batch ∨ tab.RowKept isMatch batch) :=
  ⟨drainPackets_moves isMatch blockSize last off drains (visibleIndex_lt isMatch here),
    stillShown_iff isMatch blockSize last off drains here⟩

/-- A full store of two packets with its second row selected. -/
def demoTab : CaptureTab Unit :=
  { CaptureTab.newLive "" "eth0" 2 0 with
    store := .run 2 [.push (demoStored [1]), .push (demoStored [2])]
    selected := 1
    follow := false
    packetRx := some 0 }

def demoArrival : List (DiskAnswers × TimedPacket) := [({}, { demoStored [3] with })]

/-- In a store of three, the second packet stays shown when a third arrives. -/
theorem selected_packet_stays_room :
    ({ demoTab with store := { demoTab.store with max := 3 } }).visibleIndex (fun _ _ => false)
        = some 1 ∧
      ({ demoTab with store := { demoTab.store with max := 3 } }).StillShown (fun _ _ => false)
        (fun _ => 0) demoArrival .empty 1 := by
  have here : ({ demoTab with store := { demoTab.store with max := 3 } }).visibleIndex
      (fun _ _ => false) = some 1 := by decide +kernel
  refine ⟨here, ?_⟩
  apply (selected_packet_stays (fun _ _ => false) (fun _ => 0) _ demoArrival .empty rfl
    (by intro closed; cases closed) 1 here).2.mpr
  exact .inr (.inl (by decide +kernel))

/-- The third packet evicts the first, and is shown where the second was; the second stays in
the store. -/
theorem eviction_moves_the_selection :
    (demoTab.visiblePacket fun _ _ => false) = some ((demoStored [2]).withId 2) ∧
      ((demoTab.drainPackets (fun _ _ => false) (fun _ => 0) demoArrival .empty).visiblePacket
        fun _ _ => false) = some ((demoStored [3]).withId 3) ∧
      (demoStored [2]).withId 2
        ∈ (demoTab.drainPackets (fun _ _ => false) (fun _ => 0) demoArrival .empty).store.packets ∧
      ¬ demoTab.StillShown (fun _ _ => false) (fun _ => 0) demoArrival .empty 1 := by
  refine ⟨by decide +kernel, by decide +kernel, by decide +kernel, ?_⟩
  rintro (gone | shown)
  · exact absurd gone (by decide +kernel)
  · exact absurd shown (by decide +kernel)

end BitBeak
