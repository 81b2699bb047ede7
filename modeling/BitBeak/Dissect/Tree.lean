import Mathlib.Tactic.Common

/-! The protocol tree: labelled byte ranges of a frame. The values shown beside the labels
are left out; nothing reads them. -/
namespace BitBeak

structure ProtoNode where
  label : String
  offset : Nat
  len : Nat
  children : List Nat := []
  expanded : Bool := true
  deriving DecidableEq, Repr

structure ProtoTree where
  nodes : List ProtoNode := []
  roots : List Nat := []
  deriving DecidableEq, Repr

namespace ProtoTree

def addRoot (tree : ProtoTree) (label : String) (offset len : Nat) : ProtoTree × Nat :=
  let idx := tree.nodes.length
  ({ nodes := tree.nodes ++ [{ label := label, offset := offset, len := len }],
     roots := tree.roots ++ [idx] }, idx)

def addChild (tree : ProtoTree) (parent : Nat) (label : String) (offset len : Nat) :
    ProtoTree × Nat :=
  let idx := tree.nodes.length
  let nodes := tree.nodes ++ [{ label := label, offset := offset, len := len }]
  ({ tree with nodes := nodes.modify parent fun p => { p with children := p.children ++ [idx] } },
    idx)

/-- Every node's bytes are among the first `size`. -/
def Inside (tree : ProtoTree) (size : Nat) : Prop :=
  ∀ node ∈ tree.nodes, node.offset + node.len ≤ size

theorem inside_empty (size : Nat) : ({} : ProtoTree).Inside size := by
  intro node member
  cases member

theorem Inside.addRoot {tree : ProtoTree} {label : String} {offset len size : Nat}
    (inside : tree.Inside size) (fits : offset + len ≤ size) :
    (tree.addRoot label offset len).1.Inside size := by
  intro node member
  rcases List.mem_append.mp member with old | new
  · exact inside node old
  · cases List.mem_singleton.mp new
    exact fits

theorem Inside.addChild {tree : ProtoTree} {parent : Nat} {label : String}
    {offset len size : Nat} (inside : tree.Inside size) (fits : offset + len ≤ size) :
    (tree.addChild parent label offset len).1.Inside size := by
  intro node member
  obtain ⟨i, at_i⟩ := List.mem_iff_getElem?.mp member
  rw [ProtoTree.addChild, List.getElem?_modify] at at_i
  obtain ⟨before, there, changed⟩ := Option.map_eq_some_iff.mp at_i
  have kept : before.offset + before.len ≤ size := by
    rcases List.mem_append.mp (List.mem_of_getElem? there) with old | new
    · exact inside before old
    · cases List.mem_singleton.mp new
      exact fits
  split at changed <;> subst changed <;> exact kept

end ProtoTree

end BitBeak
