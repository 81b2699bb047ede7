import BitBeak.Lib.Rings
import BitBeak.Transport

/-! Frames and the ring that a session logs them in. -/
namespace BitBeak
open Wire Rings

structure Frame where
  id : Nat
  direction : Direction
  payload : Bytes
  peer : Option String
  metadata : Option String
  deriving DecidableEq, Repr

def Frame.new (id : Nat) (direction : Direction) (payload : Bytes) : Frame where
  id := id
  direction := direction
  payload := payload
  peer := none
  metadata := none

def Frame.withId (id : Nat) (frame : Frame) : Frame := { frame with id := id }

/-- `saturating_add(1)` of a 64-bit id. -/
def saturatingSucc (id : Nat) : Nat := min (id + 1) (2 ^ 64 - 1)

structure FrameBuffer where
  frames : List Frame
  capacity : Nat
  nextId : Nat
  deriving DecidableEq, Repr

namespace FrameBuffer

def new (capacity : Nat) : FrameBuffer where
  frames := []
  capacity := max capacity 1
  nextId := 1

def pushFull (buf : FrameBuffer) (direction : Direction) (payload : Bytes)
    (peer metadata : Option String) : FrameBuffer :=
  let id := buf.nextId
  let frame := { Frame.new id direction payload with peer := peer, metadata := metadata }
  let frames := if buf.capacity ≤ buf.frames.length then buf.frames.tail else buf.frames
  { buf with nextId := saturatingSucc id, frames := frames ++ [frame] }

def push (buf : FrameBuffer) (direction : Direction) (payload : Bytes) : FrameBuffer :=
  buf.pushFull direction payload none none

def len (buf : FrameBuffer) : Nat := buf.frames.length

def getById (buf : FrameBuffer) (id : Nat) : Option Frame := buf.frames.find? fun f => f.id == id

/-- The frames pushed one after the other; the ids they come with are not looked at. -/
def pushAll (buf : FrameBuffer) (frames : List Frame) : FrameBuffer :=
  frames.foldl (fun buf f => buf.pushFull f.direction f.payload f.peer f.metadata) buf

/-- What a buffer holds after these frames. -/
structure Follows (asked : Nat) (frames : List Frame) (buf : FrameBuffer) : Prop where
  capacity : buf.capacity = max asked 1
  nextId : buf.nextId = min (frames.length + 1) (2 ^ 64 - 1)
  frames : buf.frames = kept Frame.withId (max asked 1) (frames.map .push)

theorem follows_pushAll (asked : Nat) (frames : List Frame) (few : frames.length < 2 ^ 64) :
    Follows asked frames ((new asked).pushAll frames) := by
  induction frames using List.reverseRecOn with
  | nil => exact ⟨rfl, rfl, (kept_nil _).symm⟩
  | append_singleton frames f ih =>
    rw [List.length_append, List.length_singleton] at few
    have before := ih (by omega)
    have given : ((new asked).pushAll frames).nextId = frames.length + 1 := by
      rw [before.nextId]
      omega
    have positive : 0 < max asked 1 := by omega
    rw [pushAll, List.foldl_append]
    constructor
    · exact before.capacity
    · rw [List.length_append]
      exact congrArg saturatingSucc given
    · rw [List.map_append, List.map_singleton, kept_push positive, pushed_pushes, ← given,
        ← before.frames, ← before.capacity]
      rfl

/-- A capacity of zero counts as one. -/
theorem law_pushAll (capacity : Nat) (frames : List Frame) (few : frames.length < 2 ^ 64) :
    Law Frame.withId Frame.id (max capacity 1) (frames.map .push)
      ((new capacity).pushAll frames).frames ((new capacity).pushAll frames).getById := by
  have law := law_kept (fun _ _ => rfl : ∀ i f, Frame.id (Frame.withId i f) = i) (max capacity 1)
    (frames.map .push)
  rw [← (follows_pushAll capacity frames few).frames] at law
  exact law

end FrameBuffer

end BitBeak
