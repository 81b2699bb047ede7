import BitBeak.Dissect.Tree
import BitBeak.Lib.Forest

/-! The rows of the protocol tree: the nodes that are shown, with their depths. The tree is an
arena, in which a child has a greater index than its parent. -/
namespace BitBeak
namespace ProtoTree

def addSection (tree : ProtoTree) (parent : Nat) (label : String) (offset len : Nat) :
    ProtoTree × Nat :=
  tree.addChild parent label offset len

def toggle (tree : ProtoTree) (idx : Nat) : ProtoTree :=
  { tree with nodes := tree.nodes.modify idx fun n =>
      if n.children ≠ [] then { n with expanded := !n.expanded } else n }

/-- The recursion is given fuel; without any left, there is no result. -/
def walkVisible (tree : ProtoTree) :
    Nat → Nat → Nat → List (Nat × Nat) → Option (List (Nat × Nat))
  | 0, _, _, _ => none
  | fuel + 1, idx, depth, out =>
    let out := out ++ [(depth, idx)]
    match tree.nodes[idx]? with
    | none => some out
    | some n =>
      if n.expanded then
        n.children.foldlM (fun out c => walkVisible tree fuel c (depth + 1) out) out
      else some out

/-- The rows, as depths and indices. -/
def visible (tree : ProtoTree) (fuel : Nat) : Option (List (Nat × Nat)) :=
  tree.roots.foldlM (fun out r => tree.walkVisible fuel r 0 out) []

/-- Trees that are built by the operations; a child is put under a node that exists. -/
inductive Built : ProtoTree → Prop
  | new : Built {}
  | addRoot {tree} (built : Built tree) (label : String) (offset len : Nat) :
      Built (tree.addRoot label offset len).1
  | addChild {tree} (built : Built tree) {parent : Nat} (exists_parent : parent < tree.nodes.length)
      (label : String) (offset len : Nat) : Built (tree.addChild parent label offset len).1
  | addSection {tree} (built : Built tree) {parent : Nat}
      (exists_parent : parent < tree.nodes.length) (label : String) (offset len : Nat) :
      Built (tree.addSection parent label offset len).1
  | toggle {tree} (built : Built tree) (idx : Nat) : Built (tree.toggle idx)

/- The forest of a tree. -/

def childrenOf (tree : ProtoTree) (idx : Nat) : List Nat :=
  (tree.nodes[idx]?.map (·.children)).getD []

def isExpanded (tree : ProtoTree) (idx : Nat) : Bool :=
  (tree.nodes[idx]?.map (·.expanded)).getD false

def shape (tree : ProtoTree) : Forest.Shape Nat := ⟨tree.roots, tree.childrenOf⟩

/-- Every node is a root or a child. -/
def Covered (tree : ProtoTree) : Prop :=
  ∀ i < tree.nodes.length, i ∈ tree.roots ∨ ∃ p, i ∈ tree.childrenOf p

/-- The nodes make a forest. -/
structure WellFormed (tree : ProtoTree) : Prop where
  sound : tree.shape.Sound id tree.nodes.length
  covered : tree.Covered

section
variable (tree : ProtoTree) (label : String) (offset len : Nat)

/-- A new node has no children. -/
theorem childrenOf_pushed (i : Nat) :
    (((tree.nodes ++ [{ label := label, offset := offset, len := len }])[i]?.map
      (·.children)).getD [] : List Nat) = tree.childrenOf i := by
  rw [childrenOf]
  rcases lt_trichotomy i tree.nodes.length with old | rfl | beyond
  · rw [List.getElem?_append_left old]
  · simp
  · rw [List.getElem?_eq_none (by simpa using beyond), List.getElem?_eq_none beyond.le]

theorem childrenOf_addRoot : (tree.addRoot label offset len).1.childrenOf = tree.childrenOf :=
  funext fun i => tree.childrenOf_pushed label offset len i

theorem childrenOf_addChild {parent : Nat} (exists_parent : parent < tree.nodes.length) (i : Nat) :
    (tree.addChild parent label offset len).1.childrenOf i =
      if i = parent then tree.childrenOf i ++ [tree.nodes.length] else tree.childrenOf i := by
  rw [← tree.childrenOf_pushed label offset len i]
  simp only [childrenOf, addChild, List.getElem?_modify]
  by_cases here : parent = i
  · subst here
    rw [List.getElem?_append_left exists_parent, List.getElem?_eq_getElem exists_parent]
    simp
  · simp [here, Ne.symm here]

theorem childrenOf_toggle (idx : Nat) : (tree.toggle idx).childrenOf = tree.childrenOf := by
  funext i
  simp only [childrenOf, toggle, List.getElem?_modify]
  cases tree.nodes[i]? with
  | none => rfl
  | some n =>
    by_cases here : idx = i
    · by_cases leaf : n.children = [] <;> simp [here, leaf]
    · simp [here]

end

/- Every operation keeps the forest. -/

namespace WellFormed

theorem new : WellFormed {} where
  sound := Forest.Shape.Sound.empty
  covered i known := absurd known (Nat.not_lt_zero i)

variable {tree : ProtoTree}

theorem addRoot (formed : tree.WellFormed) (label : String) (offset len : Nat) :
    (tree.addRoot label offset len).1.WellFormed where
  sound := by
    have grown := formed.sound.grow_root (c := tree.nodes.length) rfl
      (g := (tree.addRoot label offset len).1.shape) rfl
      (tree.childrenOf_addRoot label offset len)
    simpa [ProtoTree.addRoot] using grown
  covered := by
    intro i known
    rw [childrenOf_addRoot]
    simp only [ProtoTree.addRoot, List.length_append, List.length_singleton] at known
    simp only [ProtoTree.addRoot, List.mem_append, List.mem_singleton]
    rcases Nat.lt_succ_iff_lt_or_eq.mp known with old | new
    · exact (formed.covered i old).imp_left .inl
    · exact .inl (.inr new)

theorem addChild (formed : tree.WellFormed) {parent : Nat}
    (exists_parent : parent < tree.nodes.length) (label : String) (offset len : Nat) :
    (tree.addChild parent label offset len).1.WellFormed := by
  have kids := tree.childrenOf_addChild label offset len exists_parent
  have size : (tree.addChild parent label offset len).1.nodes.length = tree.nodes.length + 1 := by
    simp [ProtoTree.addChild]
  constructor
  · rw [size]
    refine formed.sound.grow_kid (p := parent) (c := tree.nodes.length) exists_parent rfl rfl ?_ ?_
    · exact (kids parent).trans (if_pos rfl)
    · exact fun i other => (kids i).trans (if_neg other)
  · intro i known
    rw [size] at known
    have kept : ∀ p, i ∈ tree.childrenOf p →
        i ∈ (tree.addChild parent label offset len).1.childrenOf p := by
      intro p old
      rw [kids p]
      split
      · exact List.mem_append_left _ old
      · exact old
    rcases Nat.lt_succ_iff_lt_or_eq.mp known with old | rfl
    · exact (formed.covered i old).imp_right (Exists.imp kept)
    · refine .inr ⟨parent, ?_⟩
      rw [kids parent, if_pos rfl]
      exact List.mem_append_right _ (List.mem_singleton_self _)

theorem toggle (formed : tree.WellFormed) (idx : Nat) : (tree.toggle idx).WellFormed := by
  have kids := tree.childrenOf_toggle idx
  have size : (tree.toggle idx).nodes.length = tree.nodes.length := List.length_modify _ _ _
  have same : (tree.toggle idx).shape = tree.shape := by
    rw [shape, kids]
    rfl
  constructor
  · rw [same, size]
    exact formed.sound
  · intro i known
    rw [kids]
    exact formed.covered i (size ▸ known)

/-- Every tree that is built is a forest. -/
theorem of_built (built : Built tree) : tree.WellFormed := by
  induction built with
  | new => exact .new
  | addRoot _ label offset len ih => exact ih.addRoot label offset len
  | addChild _ exists_parent label offset len ih => exact ih.addChild exists_parent label offset len
  | addSection _ exists_parent label offset len ih =>
    exact ih.addChild exists_parent label offset len
  | toggle _ idx ih => exact ih.toggle idx

end WellFormed

/- The walk makes the listing of the forest. -/

theorem foldlM_appends {α β : Type} {walk : List β → α → Option (List β)} {found : α → List β}
    {group : List α} (each : ∀ a ∈ group, ∀ out, walk out a = some (out ++ found a))
    (out : List β) : group.foldlM walk out = some (out ++ group.flatMap found) := by
  induction group generalizing out with
  | nil => simp
  | cons a group ih =>
    have rest := ih (fun b member => each b (List.mem_cons_of_mem a member)) (out ++ found a)
    simp [each a List.mem_cons_self, rest]

section
variable {tree : ProtoTree}

theorem walkVisible_rows (formed : tree.WellFormed) {fuel idx : Nat}
    (known : idx < tree.nodes.length) (enough : tree.nodes.length ≤ idx + fuel) (depth : Nat)
    (out : List (Nat × Nat)) :
    tree.walkVisible fuel idx depth out =
      some (out ++ Forest.rows tree.shape tree.isExpanded fuel depth idx) := by
  induction fuel generalizing idx depth out with
  | zero => omega
  | succ fuel ih =>
    have node := List.getElem?_eq_getElem known
    have children : (tree.nodes[idx]).children = tree.shape.kids idx := by
      simp [shape, childrenOf, node]
    have expanded : (tree.nodes[idx]).expanded = tree.isExpanded idx := by
      simp [isExpanded, node]
    have each : ∀ c ∈ tree.shape.kids idx, ∀ out,
        tree.walkVisible fuel c (depth + 1) out =
          some (out ++ Forest.rows tree.shape tree.isExpanded fuel (depth + 1) c) := by
      intro c kid out
      have deeper : idx < c := formed.sound.ascends kid
      have inside : c < tree.nodes.length := formed.sound.below (.inr ⟨idx, rfl⟩) kid
      exact ih inside (by omega) (depth + 1) out
    simp only [walkVisible, node, children, expanded, Forest.rows]
    split
    · rw [foldlM_appends each]
      simp
    · rfl

theorem visible_listing (formed : tree.WellFormed) {fuel : Nat}
    (enough : tree.nodes.length ≤ fuel) :
    tree.visible fuel = some (Forest.listing tree.shape tree.isExpanded fuel) := by
  have each : ∀ r ∈ tree.shape.roots, ∀ out, tree.walkVisible fuel r 0 out =
      some (out ++ Forest.rows tree.shape tree.isExpanded fuel 0 r) := by
    intro r root out
    exact walkVisible_rows formed (formed.sound.below (.inl rfl) root) (by omega) 0 out
  exact foldlM_appends each []

end

/- The rows. -/

/-- `a` is above `i`. -/
def Ancestor (tree : ProtoTree) (a i : Nat) : Prop := tree.shape.Ancestor a i

/-- `i` stands in front of `j` in preorder. -/
def Before (tree : ProtoTree) (i j : Nat) : Prop := tree.shape.Before i j

/-- The walk ends, with the nodes whose ancestors are all expanded, each once and at the depth
of the number of its ancestors, in preorder. -/
theorem visible_rows {tree : ProtoTree} (built : tree.Built) :
    ∃ rows, (∀ fuel, tree.nodes.length ≤ fuel → tree.visible fuel = some rows) ∧
      (∀ depth i, (depth, i) ∈ rows ↔ i < tree.nodes.length ∧
        (∀ a, tree.Ancestor a i → tree.isExpanded a = true) ∧
        depth = {a | tree.Ancestor a i}.ncard) ∧
      (rows.map Prod.snd).Nodup ∧
      ∀ (k l : Nat) (x y : Nat × Nat), rows[k]? = some x → rows[l]? = some y →
        (k < l ↔ tree.Before x.2 y.2) := by
  have formed := WellFormed.of_built built
  refine ⟨Forest.listing tree.shape tree.isExpanded tree.nodes.length, ?_, ?_, ?_, ?_⟩
  · intro fuel enough
    rw [visible_listing formed enough, formed.sound.listing_enough enough]
  · intro depth i
    rw [formed.sound.mem_listing le_rfl]
    have rooted : tree.shape.Rooted i ↔ i < tree.nodes.length :=
      ⟨formed.sound.rank_rooted, formed.sound.rooted formed.covered⟩
    rw [rooted]
    rfl
  · exact formed.sound.listing_nodup tree.nodes.length
  · intro k l x y at_k at_l
    exact formed.sound.listing_position at_k at_l

/-- Two roots; below the first a section with a field, collapsed. -/
def collapsedTree : ProtoTree :=
  let (tree, frame) := ({} : ProtoTree).addRoot "Frame" 0 4
  let (tree, ethernet) := tree.addSection frame "Ethernet II" 0 4
  let (tree, _) := tree.addChild ethernet "Type" 2 2
  let (tree, _) := tree.addRoot "Expert" 0 0
  tree.toggle ethernet

theorem visible_rows_collapsed :
    ∃ rows, (∀ fuel, 4 ≤ fuel → collapsedTree.visible fuel = some rows) ∧
      (rows.map Prod.snd).Nodup := by
  have built : collapsedTree.Built :=
    .toggle (.addRoot (.addChild (.addSection (.addRoot .new "Frame" 0 4) (by decide)
      "Ethernet II" 0 4) (by decide) "Type" 2 2) "Expert" 0 0) 1
  obtain ⟨rows, ends, _, once, _⟩ := visible_rows built
  exact ⟨rows, ends, once⟩

example : collapsedTree.visible 4 = some [(0, 0), (1, 1), (0, 3)] := by decide

end ProtoTree

end BitBeak
