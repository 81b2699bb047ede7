import Mathlib.Data.Set.Card
import Mathlib.Logic.Relation

/-! Forests given by their roots and by the children of each node. A node that is open shows its
children; the nodes that are shown are listed with their depths, each in front of what is below
it. -/
namespace Forest
open Relation

structure Shape (α : Type) where
  roots : List α
  kids : α → List α

variable {α : Type}

namespace Shape

variable (f : Shape α)

def Child (a b : α) : Prop := b ∈ f.kids a

def Ancestor : α → α → Prop := TransGen f.Child

/-- The node itself, or below it. -/
def Below : α → α → Prop := ReflTransGen f.Child

def Siblings (group : List α) : Prop := group = f.roots ∨ ∃ a, group = f.kids a

/-- Preorder: a node is in front of what is below it, and what is below a node is in front of
what is below its later siblings. -/
def Before (x y : α) : Prop :=
  f.Ancestor x y ∨
    ∃ group s t, f.Siblings group ∧ [s, t].Sublist group ∧ f.Below s x ∧ f.Below t y

def ancestors (b : α) : Set α := {a | f.Ancestor a b}

/-- Below a root. -/
def Rooted (b : α) : Prop := ∃ r ∈ f.roots, f.Below r b

/-- Nodes have one parent or are roots, and ranks grow from parents to children up to a limit. -/
structure Sound (rank : α → Nat) (limit : Nat) : Prop where
  ascends : ∀ {a b}, b ∈ f.kids a → rank a < rank b
  below : ∀ {group b}, f.Siblings group → b ∈ group → rank b < limit
  parent : ∀ {a a' b}, b ∈ f.kids a → b ∈ f.kids a' → a = a'
  free : ∀ {a b}, b ∈ f.kids a → b ∉ f.roots
  distinct : ∀ {group}, f.Siblings group → group.Nodup

end Shape

/- A listing: the rows of a node at a depth, and those of all roots. -/

section rows
variable (f : Shape α) (opened : α → Bool)

def rows : Nat → Nat → α → List (Nat × α)
  | 0, _, _ => []
  | n + 1, d, a => (d, a) :: if opened a then (f.kids a).flatMap (rows n (d + 1)) else []

def listing (n : Nat) : List (Nat × α) := f.roots.flatMap (rows f opened n 0)

end rows

namespace Shape.Sound

variable {f : Shape α} {rank : α → Nat} {limit : Nat}

/- Ancestors. -/

theorem rank_ancestor (sound : f.Sound rank limit) {a b : α} (above : f.Ancestor a b) :
    rank a < rank b := by
  induction above with
  | single kid => exact sound.ascends kid
  | tail _ kid ih => exact ih.trans (sound.ascends kid)

theorem rank_below (sound : f.Sound rank limit) {a b : α} (below : f.Below a b) :
    rank a ≤ rank b := by
  rcases reflTransGen_iff_eq_or_transGen.mp below with rfl | above
  · exact le_rfl
  · exact (sound.rank_ancestor above).le

theorem ancestor_kid (sound : f.Sound rank limit) {a b x : α} (kid : b ∈ f.kids a) :
    f.Ancestor x b ↔ f.Below x a := by
  constructor
  · intro above
    obtain ⟨c, below, last⟩ := TransGen.tail'_iff.mp above
    rwa [← sound.parent last kid]
  · exact fun below => TransGen.tail' below kid

theorem ancestors_root (sound : f.Sound rank limit) {r : α} (root : r ∈ f.roots) :
    f.ancestors r = ∅ := by
  rw [Set.eq_empty_iff_forall_notMem]
  intro x above
  obtain ⟨c, _, last⟩ := TransGen.tail'_iff.mp above
  exact sound.free last root

theorem ancestors_kid (sound : f.Sound rank limit) {a b : α} (kid : b ∈ f.kids a) :
    f.ancestors b = insert a (f.ancestors a) := by
  ext x
  refine (sound.ancestor_kid kid).trans ?_
  rw [Set.mem_insert_iff, Shape.Below, reflTransGen_iff_eq_or_transGen, eq_comm]
  rfl

theorem ancestors_finite (sound : f.Sound rank limit) (b : α) : (f.ancestors b).Finite := by
  induction h : rank b using Nat.strongRecOn generalizing b with
  | ind n ih =>
    by_cases child : ∃ a, b ∈ f.kids a
    · obtain ⟨a, kid⟩ := child
      rw [sound.ancestors_kid kid]
      exact (ih (rank a) (h ▸ sound.ascends kid) a rfl).insert a
    · have none : f.ancestors b = ∅ := by
        rw [Set.eq_empty_iff_forall_notMem]
        intro x above
        obtain ⟨a, _, last⟩ := TransGen.tail'_iff.mp above
        exact child ⟨a, last⟩
      rw [none]
      exact Set.finite_empty

/-- A child is one deeper than its parent. -/
theorem depth_kid (sound : f.Sound rank limit) {a b : α} (kid : b ∈ f.kids a) :
    (f.ancestors b).ncard = (f.ancestors a).ncard + 1 := by
  have outside : a ∉ f.ancestors a := fun above => lt_irrefl _ (sound.rank_ancestor above)
  rw [sound.ancestors_kid kid, Set.ncard_insert_of_notMem outside (sound.ancestors_finite a)]

/-- What is above one node is in a row. -/
theorem chain (sound : f.Sound rank limit) {x y b : α} (left : f.Below x b) (right : f.Below y b) :
    f.Below x y ∨ f.Below y x := by
  induction left with
  | refl => exact .inr right
  | @tail b c before kid ih =>
    rcases reflTransGen_iff_eq_or_transGen.mp right with rfl | above
    · exact .inl (before.tail kid)
    · exact ih ((sound.ancestor_kid kid).mp above)

/-- A sibling is not below another. -/
theorem sibling_below (sound : f.Sound rank limit) {group : List α} (siblings : f.Siblings group)
    {s t : α} (first : s ∈ group) (second : t ∈ group) (below : f.Below s t) : s = t := by
  rcases reflTransGen_iff_eq_or_transGen.mp below with same | above
  · exact same.symm
  · obtain ⟨c, upper, last⟩ := TransGen.tail'_iff.mp above
    rcases siblings with rfl | ⟨a, rfl⟩
    · exact absurd second (sound.free last)
    · cases sound.parent last second
      exact absurd (sound.ascends first) (not_lt.mpr (sound.rank_below upper))

theorem sibling_above (sound : f.Sound rank limit) {group : List α} (siblings : f.Siblings group)
    {s t b : α} (first : s ∈ group) (second : t ∈ group) (left : f.Below s b)
    (right : f.Below t b) : s = t := by
  rcases sound.chain left right with below | below
  · exact sound.sibling_below siblings first second below
  · exact (sound.sibling_below siblings second first below).symm

/- Preorder. -/

theorem not_sublist_swap {l : List α} (distinct : l.Nodup) {s t : α} (ahead : [s, t].Sublist l) :
    ¬ [t, s].Sublist l := by
  induction l with
  | nil => cases ahead
  | cons c l ih =>
    obtain ⟨outside, rest⟩ := List.nodup_cons.mp distinct
    intro behind
    rcases List.sublist_cons_iff.mp ahead with inner | ⟨r, same, tail⟩
    · rcases List.sublist_cons_iff.mp behind with inner' | ⟨r', same', _⟩
      · exact ih rest inner inner'
      · cases same'
        exact outside (inner.subset (by simp))
    · cases same
      rcases List.sublist_cons_iff.mp behind with inner' | ⟨r', same', _⟩
      · exact outside (inner'.subset (by simp))
      · cases same'
        exact outside (tail.subset (by simp))

theorem siblings_unique (sound : f.Sound rank limit) {group group' : List α} {s : α}
    (siblings : f.Siblings group) (siblings' : f.Siblings group') (member : s ∈ group)
    (member' : s ∈ group') : group = group' := by
  rcases siblings with rfl | ⟨a, rfl⟩ <;> rcases siblings' with rfl | ⟨a', rfl⟩
  · rfl
  · exact absurd member (sound.free member')
  · exact absurd member' (sound.free member)
  · rw [sound.parent member member']

/-- What is above a node is above its siblings. -/
theorem ancestor_sibling (sound : f.Sound rank limit) {group : List α} {x s t : α}
    (siblings : f.Siblings group) (first : s ∈ group) (second : t ∈ group)
    (above : f.Ancestor x s) : f.Ancestor x t := by
  obtain ⟨c, upper, last⟩ := TransGen.tail'_iff.mp above
  rcases siblings with rfl | ⟨a, rfl⟩
  · exact absurd first (sound.free last)
  · cases sound.parent last first
    exact TransGen.tail' upper second

theorem before_asymm (sound : f.Sound rank limit) {x y : α} (ahead : f.Before x y) :
    ¬ f.Before y x := by
  -- Siblings above one node are the same, and no list has two elements in both orders.
  have apart : ∀ {group s t b}, f.Siblings group → [s, t].Sublist group → f.Below s b →
      ¬ f.Below t b := by
    intro group s t b siblings pair left right
    have same := sound.sibling_above siblings (pair.subset (by simp)) (pair.subset (by simp)) left
      right
    subst same
    exact List.nodup_iff_sublist.mp (sound.distinct siblings) s pair
  rintro (back | ⟨group', s', t', siblings', pair', first', second'⟩)
  · rcases ahead with above | ⟨group, s, t, siblings, pair, first, second⟩
    · exact lt_asymm (sound.rank_ancestor above) (sound.rank_ancestor back)
    · exact apart siblings pair first (second.trans back.to_reflTransGen)
  · rcases ahead with above | ⟨group, s, t, siblings, pair, first, second⟩
    · exact apart siblings' pair' first' (second'.trans above.to_reflTransGen)
    · have in_s : s ∈ group := pair.subset (by simp)
      have in_t : t ∈ group := pair.subset (by simp)
      have in_s' : s' ∈ group' := pair'.subset (by simp)
      have in_t' : t' ∈ group' := pair'.subset (by simp)
      by_cases same : s = t'
      · subst same
        cases sound.siblings_unique siblings siblings' in_s in_t'
        cases sound.sibling_above siblings in_t in_s' second first'
        exact not_sublist_swap (sound.distinct siblings) pair pair'
      · -- One of the two groups is below a node of the other.
        rcases sound.chain first second' with lower | lower
        · have above := (reflTransGen_iff_eq_or_transGen.mp lower).resolve_left (Ne.symm same)
          have inner := sound.ancestor_sibling siblings' in_t' in_s' above
          exact apart siblings pair (inner.to_reflTransGen.trans first') second
        · have above := (reflTransGen_iff_eq_or_transGen.mp lower).resolve_left same
          have inner := sound.ancestor_sibling siblings in_s in_t above
          exact apart siblings' pair' first' (inner.to_reflTransGen.trans second)

/- Rows. -/

section
variable {opened : α → Bool}

theorem mem_rows (sound : f.Sound rank limit) {n : Nat} {a : α} (known : rank a < limit)
    (enough : limit ≤ rank a + n) {e : Nat} {b : α} :
    (e, b) ∈ rows f opened n (f.ancestors a).ncard a ↔
      f.Below a b ∧ (∀ x, f.Below a x → f.Ancestor x b → opened x = true) ∧
        e = (f.ancestors b).ncard := by
  induction n generalizing a with
  | zero => omega
  | succ n ih =>
    have kids : ∀ c ∈ f.kids a, (e, b) ∈ rows f opened n ((f.ancestors a).ncard + 1) c ↔
        f.Below c b ∧ (∀ x, f.Below c x → f.Ancestor x b → opened x = true) ∧
          e = (f.ancestors b).ncard := by
      intro c kid
      have deeper := sound.ascends kid
      rw [← sound.depth_kid kid]
      exact ih (sound.below (.inr ⟨a, rfl⟩) kid) (by omega)
    rw [rows, List.mem_cons]
    constructor
    · rintro (here | deeper)
      · cases here
        refine ⟨.refl, fun x below above => ?_, rfl⟩
        exact absurd (sound.rank_ancestor above) (not_lt.mpr (sound.rank_below below))
      · split at deeper
        · next shown =>
          obtain ⟨c, kid, inner⟩ := List.mem_flatMap.mp deeper
          obtain ⟨below, chain, depth⟩ := (kids c kid).mp inner
          refine ⟨.head kid below, fun x lower above => ?_, depth⟩
          rcases ReflTransGen.cases_head lower with rfl | ⟨c', kid', lower'⟩
          · exact shown
          · cases sound.sibling_above (.inr ⟨a, rfl⟩) kid' kid
              (lower'.trans above.to_reflTransGen) below
            exact chain x lower' above
        · cases deeper
    · rintro ⟨below, chain, depth⟩
      rcases ReflTransGen.cases_head below with rfl | ⟨c, kid, lower⟩
      · exact .inl (by rw [depth])
      · right
        rw [if_pos (chain a .refl (TransGen.head' kid lower)), List.mem_flatMap]
        refine ⟨c, kid, (kids c kid).mpr ⟨lower, fun x inner above => ?_, depth⟩⟩
        exact chain x (.head kid inner) above

theorem rows_below {n d : Nat} {a : α} : ∀ x ∈ rows f opened n d a, f.Below a x.2 := by
  induction n generalizing d a with
  | zero => simp [rows]
  | succ n ih =>
    intro x member
    rcases List.mem_cons.mp member with rfl | deeper
    · exact .refl
    · split at deeper
      · obtain ⟨c, kid, inner⟩ := List.mem_flatMap.mp deeper
        exact .head kid (ih x inner)
      · cases deeper

/-- Rows of siblings are in preorder if those of each are. -/
theorem siblings_ordered {group : List α} (siblings : f.Siblings group) {n d : Nat}
    (each : ∀ c ∈ group, (rows f opened n d c).Pairwise fun x y => f.Before x.2 y.2) :
    (group.flatMap (rows f opened n d)).Pairwise fun x y => f.Before x.2 y.2 := by
  refine List.pairwise_flatMap.mpr ⟨each, ?_⟩
  refine List.pairwise_iff_forall_sublist.mpr fun pair x first y second => ?_
  exact .inr ⟨group, _, _, siblings, pair, rows_below x first, rows_below y second⟩

theorem rows_ordered (n d : Nat) (a : α) :
    (rows f opened n d a).Pairwise fun x y => f.Before x.2 y.2 := by
  induction n generalizing d a with
  | zero => exact .nil
  | succ n ih =>
    rw [rows, List.pairwise_cons]
    constructor
    · intro x deeper
      split at deeper
      · obtain ⟨c, kid, inner⟩ := List.mem_flatMap.mp deeper
        exact .inl (TransGen.head' kid (rows_below x inner))
      · cases deeper
    · split
      · exact siblings_ordered (.inr ⟨a, rfl⟩) fun c _ => ih (d + 1) c
      · exact .nil

theorem listing_ordered (n : Nat) :
    (listing f opened n).Pairwise fun x y => f.Before x.2 y.2 :=
  siblings_ordered (.inl rfl) fun c _ => rows_ordered n 0 c

theorem listing_nodup (sound : f.Sound rank limit) (n : Nat) :
    ((listing f opened n).map Prod.snd).Nodup := by
  refine List.pairwise_map.mpr ((listing_ordered n).imp ?_)
  intro x y ahead same
  rw [same] at ahead
  exact sound.before_asymm ahead ahead

/-- The places in the listing are those of preorder. -/
theorem listing_position (sound : f.Sound rank limit) {n k l : Nat} {x y : Nat × α}
    (at_k : (listing f opened n)[k]? = some x) (at_l : (listing f opened n)[l]? = some y) :
    k < l ↔ f.Before x.2 y.2 := by
  have ordered : (listing f opened n).Pairwise fun x y => f.Before x.2 y.2 := listing_ordered n
  obtain ⟨inside, rfl⟩ := List.getElem?_eq_some_iff.mp at_k
  obtain ⟨inside', rfl⟩ := List.getElem?_eq_some_iff.mp at_l
  rw [List.pairwise_iff_getElem] at ordered
  constructor
  · exact fun less => ordered k l inside inside' less
  · intro ahead
    rcases Nat.lt_trichotomy k l with less | rfl | greater
    · exact less
    · exact absurd ahead (sound.before_asymm ahead)
    · exact absurd (ordered l k inside' inside greater) (sound.before_asymm ahead)

/-- More than enough gives no other rows. -/
theorem rows_enough (sound : f.Sound rank limit) {n m : Nat} (more : n ≤ m) {a : α}
    (known : rank a < limit) (enough : limit ≤ rank a + n) (d : Nat) :
    rows f opened m d a = rows f opened n d a := by
  induction n generalizing m d a with
  | zero => omega
  | succ n ih =>
    obtain ⟨m, rfl⟩ : ∃ m', m = m' + 1 := ⟨m - 1, by omega⟩
    have kids : (f.kids a).flatMap (rows f opened m (d + 1)) =
        (f.kids a).flatMap (rows f opened n (d + 1)) := by
      refine List.flatMap_congr fun c kid => ?_
      have deeper := sound.ascends kid
      exact ih (by omega) (sound.below (.inr ⟨a, rfl⟩) kid) (by omega) (d + 1)
    rw [rows, rows, kids]

theorem listing_enough (sound : f.Sound rank limit) {n : Nat} (enough : limit ≤ n) :
    listing f opened n = listing f opened limit := by
  refine List.flatMap_congr fun r root => ?_
  exact sound.rows_enough enough (sound.below (.inl rfl) root) (by omega) 0

/-- The listing has the nodes whose ancestors are open, each with the number of its ancestors. -/
theorem mem_listing (sound : f.Sound rank limit) {n : Nat} (enough : limit ≤ n) {e : Nat} {b : α} :
    (e, b) ∈ listing f opened n ↔
      f.Rooted b ∧ (∀ x, f.Ancestor x b → opened x = true) ∧ e = (f.ancestors b).ncard := by
  have each : ∀ r ∈ f.roots, (e, b) ∈ rows f opened n 0 r ↔
      f.Below r b ∧ (∀ x, f.Below r x → f.Ancestor x b → opened x = true) ∧
        e = (f.ancestors b).ncard := by
    intro r root
    have top : (f.ancestors r).ncard = 0 := by
      rw [sound.ancestors_root root, Set.ncard_empty]
    rw [← top]
    exact sound.mem_rows (sound.below (.inl rfl) root) (by omega)
  rw [listing, List.mem_flatMap]
  constructor
  · rintro ⟨r, root, member⟩
    obtain ⟨below, chain, depth⟩ := (each r root).mp member
    refine ⟨⟨r, root, below⟩, fun x above => ?_, depth⟩
    rcases sound.chain below above.to_reflTransGen with lower | upper
    · exact chain x lower above
    · rcases reflTransGen_iff_eq_or_transGen.mp upper with rfl | higher
      · exact chain r .refl above
      · have none : x ∈ f.ancestors r := higher
        rw [sound.ancestors_root root] at none
        exact absurd none (Set.notMem_empty x)
  · rintro ⟨⟨r, root, below⟩, chain, depth⟩
    exact ⟨r, root, (each r root).mpr ⟨below, fun x _ above => chain x above, depth⟩⟩

end

theorem empty : Shape.Sound (⟨[], fun _ => []⟩ : Shape α) rank limit := by
  have none : ∀ group, (⟨[], fun _ => []⟩ : Shape α).Siblings group → group = [] := by
    rintro group (rfl | ⟨a, rfl⟩) <;> rfl
  constructor
  · intro a b kid
    cases kid
  · intro group b siblings member
    rw [none group siblings] at member
    cases member
  · intro a a' b kid
    cases kid
  · intro a b kid
    cases kid
  · intro group siblings
    rw [none group siblings]
    exact .nil

/- Growth: the forest of a new root, or of a new child without children of its own. -/

section
variable {g : Shape α} {c : α}

theorem fresh_outside (sound : f.Sound rank limit) (fresh : rank c = limit) {group : List α}
    (siblings : f.Siblings group) : c ∉ group := fun member =>
  absurd (sound.below siblings member) (not_lt.mpr fresh.ge)

theorem nodup_grown (sound : f.Sound rank limit) (fresh : rank c = limit) {group : List α}
    (siblings : f.Siblings group) : (group ++ [c]).Nodup := by
  rw [← List.concat_eq_append, List.nodup_concat]
  exact ⟨sound.fresh_outside fresh siblings, sound.distinct siblings⟩

theorem grow_root (sound : f.Sound rank limit) (fresh : rank c = limit)
    (roots : g.roots = f.roots ++ [c]) (kids : g.kids = f.kids) : g.Sound rank (limit + 1) where
  ascends kid := sound.ascends (kids ▸ kid)
  below := by
    rintro group b (rfl | ⟨a, rfl⟩) member
    · rw [roots, List.mem_append, List.mem_singleton] at member
      rcases member with old | rfl
      · exact (sound.below (.inl rfl) old).trans (Nat.lt_succ_self limit)
      · omega
    · exact (sound.below (.inr ⟨a, congrFun kids a⟩) member).trans (Nat.lt_succ_self limit)
  parent kid kid' := sound.parent (kids ▸ kid) (kids ▸ kid')
  free := by
    intro a b kid root
    rw [kids] at kid
    rw [roots, List.mem_append, List.mem_singleton] at root
    rcases root with old | rfl
    · exact sound.free kid old
    · exact sound.fresh_outside fresh (.inr ⟨a, rfl⟩) kid
  distinct := by
    rintro group (rfl | ⟨a, rfl⟩)
    · rw [roots]
      exact sound.nodup_grown fresh (.inl rfl)
    · exact sound.distinct (.inr ⟨a, congrFun kids a⟩)

theorem grow_kid (sound : f.Sound rank limit) {p : α} (known : rank p < limit)
    (fresh : rank c = limit) (roots : g.roots = f.roots) (kids : g.kids p = f.kids p ++ [c])
    (others : ∀ a, a ≠ p → g.kids a = f.kids a) : g.Sound rank (limit + 1) := by
  -- A child of the new forest is one of the old forest, or the new node below its parent.
  have cases_kid : ∀ {a b}, b ∈ g.kids a → b ∈ f.kids a ∨ a = p ∧ b = c := by
    intro a b kid
    by_cases here : a = p
    · subst here
      rw [kids, List.mem_append, List.mem_singleton] at kid
      exact kid.imp_right fun same => ⟨rfl, same⟩
    · exact .inl (others a here ▸ kid)
  have outside : ∀ {a}, c ∉ f.kids a := fun {a} => sound.fresh_outside fresh (.inr ⟨a, rfl⟩)
  constructor
  · intro a b kid
    rcases cases_kid kid with old | ⟨rfl, rfl⟩
    · exact sound.ascends old
    · omega
  · rintro group b (rfl | ⟨a, rfl⟩) member
    · exact (sound.below (.inl roots) member).trans (Nat.lt_succ_self limit)
    · rcases cases_kid member with old | ⟨rfl, rfl⟩
      · exact (sound.below (.inr ⟨a, rfl⟩) old).trans (Nat.lt_succ_self limit)
      · omega
  · intro a a' b kid kid'
    rcases cases_kid kid with old | ⟨rfl, rfl⟩ <;> rcases cases_kid kid' with old' | ⟨rfl, new⟩
    · exact sound.parent old old'
    · exact absurd (new ▸ old) outside
    · exact absurd old' outside
    · rfl
  · intro a b kid root
    rw [roots] at root
    rcases cases_kid kid with old | ⟨rfl, rfl⟩
    · exact sound.free old root
    · exact sound.fresh_outside fresh (.inl rfl) root
  · rintro group (rfl | ⟨a, rfl⟩)
    · exact sound.distinct (.inl roots)
    · by_cases here : a = p
      · rw [here, kids]
        exact sound.nodup_grown fresh (.inr ⟨p, rfl⟩)
      · exact sound.distinct (.inr ⟨a, others a here⟩)

end

/- Nodes below a root. -/

theorem rank_rooted (sound : f.Sound rank limit) {b : α} (rooted : f.Rooted b) :
    rank b < limit := by
  obtain ⟨r, root, below⟩ := rooted
  rcases ReflTransGen.cases_tail below with rfl | ⟨a, _, kid⟩
  · exact sound.below (.inl rfl) root
  · exact sound.below (.inr ⟨a, rfl⟩) kid

theorem rooted (sound : f.Sound rank limit)
    (covered : ∀ b, rank b < limit → b ∈ f.roots ∨ ∃ a, b ∈ f.kids a) {b : α}
    (known : rank b < limit) : f.Rooted b := by
  induction h : rank b using Nat.strongRecOn generalizing b with
  | ind n ih =>
    rcases covered b known with root | ⟨a, kid⟩
    · exact ⟨b, root, .refl⟩
    · have lower := sound.ascends kid
      obtain ⟨r, root, below⟩ := ih (rank a) (h ▸ lower) (lower.trans known) rfl
      exact ⟨r, root, below.tail kid⟩

end Shape.Sound

end Forest
