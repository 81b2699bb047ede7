import Mathlib.Data.List.Infix

/-! Items taken off the front of a list that arrives in chunks. After each chunk all items that
are there are taken; the rest is kept and the next chunk goes behind it. Whether the cuts show in
what is taken depends on one thing: an item of what has arrived so far has to be an item of
everything. -/
namespace Peel

/-- What takes an item off the front of a list. An item is not empty, and it is one whatever stands
behind it or not. -/
structure Peeler (α β : Type) where
  pop : List α → Option (β × List α)
  front : ∀ {s : List α} {b : β} {t : List α}, pop s = some (b, t) → ∃ item, item ≠ [] ∧ s = item ++ t
  within : ∀ {u v : List α} {b : β} {t : List α}, pop (u ++ v) = some (b, t ++ v) → pop u = some (b, t)

variable {α β : Type} (p : Peeler α β)

namespace Peeler

/-- Items one behind the other, and the rest. -/
inductive Items : List α → List β → List α → Prop where
  | here (s : List α) : Items s [] s
  | next {s t r : List α} {b : β} {bs : List β} :
      p.pop s = some (b, t) → Items t bs r → Items s (b :: bs) r

/-- What is taken while chunks arrive behind what is kept, and what is kept in the end. -/
inductive Fed : List α → List (List α) → List β → List α → Prop where
  | nil (held : List α) : Fed held [] [] held
  | cons {held chunk left final : List α} {chunks : List (List α)} {bs cs : List β} :
      p.Items (held ++ chunk) bs left → p.pop left = none → Fed left chunks cs final →
        Fed held (chunk :: chunks) (bs ++ cs) final

/-- What is looked at while chunks arrive. -/
inductive Seen : List α → List (List α) → List α → Prop where
  | here {held chunk t : List α} {chunks : List (List α)} {bs : List β} :
      p.Items (held ++ chunk) bs t → Seen held (chunk :: chunks) t
  | later {held chunk left t : List α} {chunks : List (List α)} {bs : List β} :
      p.Items (held ++ chunk) bs left → p.pop left = none → Seen left chunks t →
        Seen held (chunk :: chunks) t

/-- What is an item at some time is one at the end. -/
def Calm (s : List α) : Prop :=
  ∀ u v b t, s = u ++ v → p.pop u = some (b, t) → p.pop s = some (b, t ++ v)

/-- Calm wherever an item may begin. -/
def Steady (s : List α) : Prop := ∀ bs t, p.Items s bs t → p.Calm t

/-- However the list is cut, the same items are taken and the same rest is kept. -/
def Independent (s : List α) : Prop :=
  ∀ chunks pieces bs cs left rest, chunks.flatten = s → pieces.flatten = s →
    p.Fed [] chunks bs left → p.Fed [] pieces cs rest → bs = cs ∧ left = rest

variable {p}

theorem pop_nil : p.pop [] = none := by
  cases popped : p.pop [] with
  | none => rfl
  | some x =>
    obtain ⟨item, some, whole⟩ := p.front popped
    exact absurd (List.append_eq_nil_iff.mp whole.symm).1 some

theorem shorter {s t : List α} {b : β} (popped : p.pop s = some (b, t)) : t.length < s.length := by
  obtain ⟨item, some, rfl⟩ := p.front popped
  have pos := List.length_pos_iff.mpr some
  rw [List.length_append]
  omega

namespace Items

variable {s t r : List α} {bs cs : List β}

theorem front (items : p.Items s bs t) : ∃ front, s = front ++ t := by
  induction items with
  | here s => exact ⟨[], rfl⟩
  | next popped _ ih =>
    obtain ⟨item, _, rfl⟩ := p.front popped
    obtain ⟨front, rfl⟩ := ih
    exact ⟨item ++ front, (List.append_assoc ..).symm⟩

theorem append (first : p.Items s bs t) (second : p.Items t cs r) : p.Items s (bs ++ cs) r := by
  induction first with
  | here => exact second
  | next popped _ ih => exact .next popped (ih second)

theorem of_nil (items : p.Items [] bs t) : bs = [] ∧ t = [] := by
  cases items with
  | here => exact ⟨rfl, rfl⟩
  | next popped => exact absurd (pop_nil.symm.trans popped) (by simp)

/-- Where nothing can be taken, everything has been. -/
theorem rest (items : p.Items s bs t) {more : List β} (all : p.Items s more r)
    (last : p.pop r = none) : ∃ others, more = bs ++ others ∧ p.Items t others r := by
  induction items generalizing more with
  | here => exact ⟨more, rfl, all⟩
  | next popped _ ih =>
    cases all with
    | here => exact absurd (last.symm.trans popped) (by simp)
    | next first behind =>
      cases popped.symm.trans first
      obtain ⟨others, rfl, tail⟩ := ih behind
      exact ⟨others, rfl, tail⟩

theorem unique (items : p.Items s bs t) (last : p.pop t = none) (others : p.Items s cs r)
    (final : p.pop r = none) : bs = cs ∧ t = r := by
  obtain ⟨more, rfl, tail⟩ := items.rest others final
  cases tail with
  | here => exact ⟨(List.append_nil _).symm, rfl⟩
  | next popped => exact absurd (last.symm.trans popped) (by simp)

/-- Items that do not reach into what stands behind are items without it. -/
theorem within {u v : List α} (items : p.Items (u ++ v) bs (r ++ v)) : p.Items u bs r := by
  generalize whole : u ++ v = s at items
  generalize behind : r ++ v = t at items
  induction items generalizing u with
  | here s =>
    rw [← behind] at whole
    rw [List.append_cancel_right whole]
    exact .here r
  | next popped later ih =>
    obtain ⟨front, inner⟩ := later.front
    rw [← behind, ← List.append_assoc] at inner
    rw [← whole, inner] at popped
    exact .next (p.within popped) (ih inner.symm behind)

end Items

theorem exists_items (s : List α) : ∃ bs t, p.Items s bs t ∧ p.pop t = none := by
  cases popped : p.pop s with
  | none => exact ⟨[], s, .here s, popped⟩
  | some x =>
    obtain ⟨b, t⟩ := x
    have := shorter popped
    obtain ⟨bs, r, items, last⟩ := exists_items t
    exact ⟨b :: bs, r, .next popped items, last⟩
termination_by s.length

theorem exists_fed (held : List α) (chunks : List (List α)) :
    ∃ bs left, p.Fed held chunks bs left := by
  induction chunks generalizing held with
  | nil => exact ⟨[], held, .nil held⟩
  | cons chunk chunks ih =>
    obtain ⟨bs, left, items, last⟩ := exists_items (p := p) (held ++ chunk)
    obtain ⟨cs, final, fed⟩ := ih left
    exact ⟨bs ++ cs, final, .cons items last fed⟩

namespace Steady

variable {s : List α}

theorem behind {t : List α} {bs : List β} (steady : p.Steady s) (items : p.Items s bs t) :
    p.Steady t := by
  intro cs r more
  exact steady (bs ++ cs) r (items.append more)

/-- The items at some time are items at the end. -/
theorem items {u v r : List α} {bs : List β} (steady : p.Steady (u ++ v)) (early : p.Items u bs r) :
    p.Items (u ++ v) bs (r ++ v) := by
  induction early with
  | here u => exact .here (u ++ v)
  | next popped _ ih =>
    have whole := steady [] _ (.here _) _ v _ _ rfl popped
    exact .next whole (ih (steady.behind (.next whole (.here _))))

theorem fed (held : List α) {v left : List α} {chunks : List (List α)} {bs : List β}
    (steady : p.Steady (held ++ (chunks.flatten ++ v))) (start : p.pop held = none)
    (fed : p.Fed held chunks bs left) :
    p.Items (held ++ (chunks.flatten ++ v)) bs (left ++ v) ∧ p.pop left = none := by
  induction fed with
  | nil held => exact ⟨.here _, start⟩
  | @cons held chunk left final chunks bs cs early last _ ih =>
    have whole : held ++ ((chunk :: chunks).flatten ++ v) =
        (held ++ chunk) ++ (chunks.flatten ++ v) := by simp
    rw [whole] at steady ⊢
    have first := steady.items early
    obtain ⟨second, final⟩ := ih (steady.behind first) last
    exact ⟨first.append second, final⟩

/-- What is looked at begins where an item of the whole may begin. -/
theorem seen (held : List α) {v t : List α} {chunks : List (List α)}
    (steady : p.Steady (held ++ (chunks.flatten ++ v))) (looked : p.Seen held chunks t) :
    ∃ bs w, p.Items (held ++ (chunks.flatten ++ v)) bs (t ++ w) := by
  induction looked with
  | @here held chunk t chunks bs early =>
    have whole : held ++ ((chunk :: chunks).flatten ++ v) =
        (held ++ chunk) ++ (chunks.flatten ++ v) := by simp
    rw [whole] at steady ⊢
    exact ⟨bs, _, steady.items early⟩
  | @later held chunk left t chunks bs early _ _ ih =>
    have whole : held ++ ((chunk :: chunks).flatten ++ v) =
        (held ++ chunk) ++ (chunks.flatten ++ v) := by simp
    rw [whole] at steady ⊢
    have first := steady.items early
    obtain ⟨cs, w, behind⟩ := ih (steady.behind first)
    exact ⟨bs ++ cs, w, first.append behind⟩

theorem independent {v : List α} (steady : p.Steady (s ++ v)) : p.Independent s := by
  intro chunks pieces bs cs left rest same same' fed fed'
  have first : p.Items s bs left ∧ p.pop left = none := by
    obtain ⟨items, last⟩ := Steady.fed [] (v := v) (same ▸ steady) pop_nil fed
    rw [List.nil_append, same] at items
    exact ⟨items.within, last⟩
  have second : p.Items s cs rest ∧ p.pop rest = none := by
    obtain ⟨items, last⟩ := Steady.fed [] (v := v) (same' ▸ steady) pop_nil fed'
    rw [List.nil_append, same'] at items
    exact ⟨items.within, last⟩
  exact first.1.unique first.2 second.1 second.2

end Steady

/-- A chunk of whole items leaves nothing behind. -/
theorem Fed.behind {front : List α} {bs cs : List β} {left : List α} {chunks : List (List α)}
    (items : p.Items front bs []) (fed : p.Fed [] chunks cs left) :
    p.Fed [] (front :: chunks) (bs ++ cs) left :=
  .cons items pop_nil fed

theorem Fed.unique {held left rest : List α} {chunks : List (List α)} {bs cs : List β}
    (fed : p.Fed held chunks bs left) (fed' : p.Fed held chunks cs rest) : bs = cs ∧ left = rest := by
  induction fed generalizing cs with
  | nil =>
    cases fed'
    exact ⟨rfl, rfl⟩
  | cons items last _ ih =>
    cases fed' with
    | cons items' last' later =>
      obtain ⟨rfl, rfl⟩ := items.unique last items' last'
      obtain ⟨rfl, rfl⟩ := ih later
      exact ⟨rfl, rfl⟩

theorem Fed.single {s t : List α} {bs : List β} (items : p.Items s bs t) (last : p.pop t = none) :
    p.Fed [] [s] bs t := by
  have fed : p.Fed [] [s] (bs ++ []) t := .cons items last (.nil t)
  rwa [List.append_nil] at fed

/-- An item is still one when one more element has arrived. -/
theorem Independent.next {front s r : List α} {e : α} {b : β} {bs : List β}
    (items : p.Items front bs []) (popped : p.pop s = some (b, r))
    (independent : p.Independent (front ++ (s ++ [e]))) :
    p.pop (s ++ [e]) = some (b, r ++ [e]) := by
  obtain ⟨cs, left, all, last⟩ := exists_items (p := p) (s ++ [e])
  obtain ⟨ds, kept, early, wait⟩ := exists_items (p := p) r
  obtain ⟨es, final, later, done⟩ := exists_items (p := p) (kept ++ [e])
  have once : p.Fed [] [front, s ++ [e]] (bs ++ cs) left := .behind items (.single all last)
  have twice : p.Fed [] [front, s, [e]] (bs ++ ((b :: ds) ++ (es ++ []))) final :=
    .behind items (.cons (.next popped early) wait (.cons later done (.nil final)))
  obtain ⟨same, rfl⟩ := independent _ _ _ _ _ _ (by simp) (by simp) once twice
  obtain rfl : cs = b :: (ds ++ es) := by simpa using List.append_cancel_left same
  cases all with
  | next first behind =>
    obtain ⟨item, some, whole⟩ := p.front first
    rename_i y
    cases y using List.reverseRecOn with
    | nil =>
      -- The item takes the new element too, so nothing is taken behind it, but it is there.
      obtain ⟨none, last⟩ := behind.of_nil
      obtain ⟨rfl, rfl⟩ := List.append_eq_nil_iff.mp none
      cases later with
      | here => exact absurd last (by simp)
    | append_singleton y d =>
      rw [← List.append_assoc] at whole
      obtain ⟨rfl, rfl⟩ := List.append_singleton_inj.mp whole
      cases popped.symm.trans (p.within first)
      exact first

/-- At every time the cuts do not show, exactly where items stay items. -/
theorem independent_iff {s : List α} : (∀ u, u <+: s → p.Independent u) ↔ p.Steady s := by
  constructor
  · intro independent bs t items
    obtain ⟨front, rfl⟩ := items.front
    have whole : p.Items front bs [] := Items.within (v := t) items
    intro u v b r same popped
    subst same
    have early : ∀ w, w <+: v → p.pop (u ++ w) = some (b, r ++ w) := by
      intro w
      induction w using List.reverseRecOn with
      | nil =>
        intro _
        rwa [List.append_nil, List.append_nil]
      | append_singleton w e ih =>
        intro inside
        have before := ih ((List.prefix_append w [e]).trans inside)
        rw [← List.append_assoc, ← List.append_assoc]
        apply Independent.next whole before
        apply independent
        rw [List.append_assoc]
        exact (List.prefix_append_right_inj _).mpr ((List.prefix_append_right_inj _).mpr inside)
    exact early v (List.prefix_refl v)
  · rintro steady u ⟨v, rfl⟩
    exact steady.independent

/- Streams of items that are told by themselves. -/

/-- An item that is taken when it is there and not before. -/
structure Frame (p : Peeler α β) (item : List α) (b : β) : Prop where
  whole : ∀ rest, p.pop (item ++ rest) = some (b, rest)
  early : ∀ u, u <+: item → u ≠ item → p.pop u = none

section

variable {μ : Type} {wire : μ → List α} {item : μ → β} {ms : List μ}
  (frames : ∀ m ∈ ms, p.Frame (wire m) (item m))

include frames

theorem Frame.items : p.Items (ms.flatMap wire) (ms.map item) [] := by
  induction ms with
  | nil => exact .here []
  | cons m ms ih =>
    rw [List.flatMap_cons]
    exact .next ((frames m List.mem_cons_self).whole _)
      (ih fun n member => frames n (List.mem_cons_of_mem m member))

/-- Items begin nowhere else. -/
theorem Frame.begins {t : List α} {bs : List β} (items : p.Items (ms.flatMap wire) bs t) :
    ∃ later, later <:+ ms ∧ t = later.flatMap wire := by
  induction ms generalizing bs with
  | nil =>
    obtain ⟨_, rfl⟩ := items.of_nil
    exact ⟨[], List.suffix_rfl, rfl⟩
  | cons m ms ih =>
    cases items with
    | here => exact ⟨m :: ms, List.suffix_rfl, rfl⟩
    | next popped behind =>
      rw [List.flatMap_cons] at popped
      cases ((frames m List.mem_cons_self).whole _).symm.trans popped
      obtain ⟨later, inside, rfl⟩ := ih (fun n member => frames n (List.mem_cons_of_mem m member)) behind
      exact ⟨later, inside.trans (List.suffix_cons m ms), rfl⟩

theorem Frame.steady : p.Steady (ms.flatMap wire) := by
  intro bs t items u v b r same popped
  obtain ⟨later, inside, rfl⟩ := Frame.begins frames items
  cases later with
  | nil =>
    obtain ⟨rfl, _⟩ := List.append_eq_nil_iff.mp same.symm
    exact absurd (pop_nil.symm.trans popped) (by simp)
  | cons m later =>
    have frame := frames m (inside.subset List.mem_cons_self)
    rw [List.flatMap_cons] at same ⊢
    have whole : wire m <+: u := by
      rcases List.prefix_or_prefix_of_prefix ⟨_, rfl⟩ ⟨v, same.symm⟩ with long | short
      · exact long
      · by_cases equal : u = wire m
        · rw [equal]
        · exact absurd ((frame.early u short equal).symm.trans popped) (by simp)
    obtain ⟨w, rfl⟩ := whole
    rw [List.append_assoc] at same
    cases (frame.whole w).symm.trans popped
    rw [frame.whole, List.append_cancel_left same]

/-- However their stream is cut, the items are taken, and nothing is left. -/
theorem Frame.fed {chunks : List (List α)} (same : chunks.flatten = ms.flatMap wire) :
    p.Fed [] chunks (ms.map item) [] := by
  obtain ⟨bs, left, fed⟩ := exists_fed (p := p) [] chunks
  have steady : p.Steady ([] ++ (chunks.flatten ++ [])) := by
    rw [List.nil_append, List.append_nil, same]
    exact Frame.steady frames
  obtain ⟨items, last⟩ := steady.fed [] pop_nil fed
  rw [List.nil_append, List.append_nil, List.append_nil, same] at items
  obtain ⟨rfl, rfl⟩ := items.unique last (Frame.items frames) pop_nil
  exact fed

end

end Peeler

end Peel
