import BitBeak.Dissect.Defrag

/-! Fragments of one datagram that arrive more than once. A second copy lies where the first
one ends, and the pieces are never end to end again. -/
namespace BitBeak
open Wire

section
variable {ps : List Bytes}

theorem piecesFrom_data {offset : Nat} {f : FragPiece} (member : f ∈ piecesFrom offset ps) :
    f.data ∈ ps := by
  induction ps generalizing offset with
  | nil => cases member
  | cons p ps ih =>
    rcases List.mem_cons.mp member with rfl | later
    · exact List.mem_cons_self
    · exact List.mem_cons_of_mem _ (ih later)

/-- Pieces that are not empty and lie end to end are at different offsets. -/
theorem joinPieces_increasing {expected : Nat} {s : List FragPiece} {out : Bytes}
    (room : ∀ f ∈ s, f.data ≠ [] ∧ f.offset + f.data.length ≤ u16Max)
    (joined : joinPieces expected s = some out) :
    (∀ f ∈ s, expected ≤ f.offset) ∧ s.Pairwise (fun a b => a.offset < b.offset) := by
  induction s generalizing expected out with
  | nil => exact ⟨fun f member => absurd member List.not_mem_nil, .nil⟩
  | cons x s ih =>
    obtain ⟨⟨filled, fits⟩, others⟩ := List.forall_mem_cons.mp room
    unfold joinPieces at joined
    split at joined
    · cases joined
    · next starts =>
      obtain ⟨rest, joined, -⟩ := Option.map_eq_some_iff.mp joined
      have here : x.offset = expected := not_not.mp starts
      have long := List.length_pos_iff.mpr filled
      have next : min (expected + x.data.length % 2 ^ 16) u16Max = x.offset + x.data.length := by
        unfold u16Max at fits ⊢
        omega
      rw [next] at joined
      obtain ⟨behind, increasing⟩ := ih others joined
      refine ⟨List.forall_mem_cons.mpr ⟨here.ge, fun f member => ?_⟩,
        List.pairwise_cons.mpr ⟨fun f member => ?_, increasing⟩⟩
      · have := behind f member
        omega
      · have := behind f member
        omega

theorem nodup_of_increasing {l : List FragPiece}
    (increasing : l.Pairwise (fun a b => a.offset < b.offset)) : l.Nodup := by
  refine List.Pairwise.imp ?_ increasing
  intro a b less same
  rw [same] at less
  exact Nat.lt_irrefl _ less

/-- Pieces of one payload with a copy among them make nothing. -/
theorem reassemble_repeated {l : List FragPiece} (filled : ∀ p ∈ ps, p ≠ [])
    (small : ps.flatten.length ≤ u16Max) (own : ∀ f ∈ l, f ∈ piecesFrom 0 ps)
    (repeated : ¬ l.Nodup) : reassemble l = none := by
  have sorting := List.perm_insertionSort (fun a b : FragPiece => a.offset ≤ b.offset) l
  have room : ∀ f ∈ l.insertionSort (fun a b => a.offset ≤ b.offset),
      f.data ≠ [] ∧ f.offset + f.data.length ≤ u16Max := by
    intro f member
    have there := own f (sorting.subset member)
    have bounds := piecesFrom_offset there
    exact ⟨filled _ (piecesFrom_data there), by omega⟩
  unfold reassemble
  split
  · rfl
  · dsimp only
    split
    · rfl
    · next out joined =>
      have increasing := (joinPieces_increasing room joined).2
      exact absurd (sorting.nodup_iff.mp (nodup_of_increasing increasing)) repeated

theorem piecesFrom_nodup {offset : Nat} (filled : ∀ p ∈ ps, p ≠ []) :
    (piecesFrom offset ps).Nodup :=
  nodup_of_increasing (piecesFrom_increasing filled)

/-- Some pieces of one payload, with or without copies, make nothing while one is missing. -/
theorem reassemble_missing {l : List FragPiece} (filled : ∀ p ∈ ps, p ≠ [])
    (small : ps.flatten.length ≤ u16Max) (own : ∀ f ∈ l, f ∈ piecesFrom 0 ps) {g : FragPiece}
    (known : g ∈ piecesFrom 0 ps) (missing : g ∉ l) : reassemble l = none := by
  by_cases once : l.Nodup
  · have more : (g :: l).Nodup := List.nodup_cons.mpr ⟨missing, once⟩
    have all := List.subperm_of_subset more (List.cons_subset.mpr ⟨known, own⟩)
    have count := all.length_le
    rw [length_piecesFrom, List.length_cons] at count
    exact reassemble_part filled small (List.subperm_of_subset once own) count
  · exact reassemble_repeated filled small own once

/-- All the pieces of one payload make it up if and only if none is there twice. -/
theorem reassemble_present_iff {l : List FragPiece} (nonempty : ps ≠ []) (filled : ∀ p ∈ ps, p ≠ [])
    (small : ps.flatten.length ≤ u16Max) (own : ∀ f ∈ l, f ∈ piecesFrom 0 ps)
    (present : ∀ f ∈ piecesFrom 0 ps, f ∈ l) : reassemble l = some ps.flatten ↔ l.Nodup := by
  constructor
  · intro made
    by_contra repeated
    rw [reassemble_repeated filled small own repeated] at made
    cases made
  · intro once
    exact reassemble_all nonempty filled small
      ((List.perm_ext_iff_of_nodup once (piecesFrom_nodup filled)).mpr fun f =>
        ⟨own f, present f⟩)

end

/- A run of fragments of one datagram. -/

namespace Ipv4Defrag

/-- The pieces that wait under a key. -/
def held (table : Ipv4Defrag) (k : FragKey) : List FragPiece := (table.lookup k).getD []

theorem ingestAll_cons (table : Ipv4Defrag) (x : PacketRecord) (xs : List PacketRecord) :
    table.ingestAll (x :: xs) = (do
      let step ← table.ingest x
      let final ← step.1.ingestAll xs
      return (final.1, step.2 :: final.2)) := rfl

theorem ingestAll_append {table middle : Ipv4Defrag} {xs ys : List PacketRecord}
    {outs : List (Option Bytes)} (front : table.ingestAll xs = .ok (middle, outs)) :
    table.ingestAll (xs ++ ys)
      = (middle.ingestAll ys).map (fun r => (r.1, outs ++ r.2)) := by
  induction xs generalizing table outs with
  | nil =>
    obtain ⟨rfl, rfl⟩ := Prod.mk.inj (Except.ok.inj front)
    rw [List.nil_append]
    cases table.ingestAll ys <;> rfl
  | cons x xs ih =>
    rw [ingestAll_cons] at front
    rw [List.cons_append, ingestAll_cons]
    cases first : table.ingest x with
    | error fault =>
      rw [first] at front
      cases front
    | ok step =>
      rw [first, ok_bind] at front
      rw [ok_bind]
      cases rest : step.1.ingestAll xs with
      | error fault =>
        rw [rest] at front
        cases front
      | ok final =>
        rw [rest] at front
        obtain ⟨rfl, rfl⟩ := Prod.mk.inj (Except.ok.inj front)
        rw [ih rest]
        cases final.1.ingestAll ys <;> rfl

end Ipv4Defrag

section
variable {d : Datagram} {table : Ipv4Defrag} {a : Arrival}

theorem Datagram.small_payload (d : Datagram) : d.pieces.flatten.length ≤ u16Max := by
  have bound := d.small
  unfold u16Max
  omega

theorem Datagram.piece_mem {f : Fragment} (own : f ∈ d.fragments) :
    f.piece ∈ piecesFrom 0 d.pieces := by
  obtain ⟨g, inside, rfl⟩ := List.mem_map.mp own
  exact inside

/-- A fragment is known by its piece among those of its datagram. -/
theorem Datagram.fragment_eq {f g : Fragment} (mine : f ∈ d.fragments) (other : g ∈ d.fragments)
    (same : f.piece = g.piece) : f = g := by
  obtain ⟨p, _, rfl⟩ := List.mem_map.mp mine
  obtain ⟨q, _, rfl⟩ := List.mem_map.mp other
  exact congrArg _ same

/-- One fragment of a datagram: it joins what is held, or it completes it. -/
theorem ingest_fragment (table : Ipv4Defrag) (own : a.fragment ∈ d.fragments) :
    table.ingest a.record = .ok (
      match reassemble (table.held d.key ++ [a.fragment.piece]) with
      | none => (table.insert d.key (table.held d.key ++ [a.fragment.piece]), none)
      | some out => (table.erase d.key, some out)) := by
  obtain ⟨key, room, aligned, fragment⟩ := Datagram.fragment_facts own
  have step := Ipv4Defrag.ingest_record table a.fits room aligned (key ▸ d.ranged) fragment
  rw [key] at step
  exact step

/-- While nothing can be made of what is held, fragments only pile up. -/
theorem ingestAll_waiting (table : Ipv4Defrag) {arrivals : List Arrival}
    (own : ∀ a ∈ arrivals, a.fragment ∈ d.fragments)
    (waits : ∀ seen, seen <+: arrivals.map (·.fragment.piece) →
      reassemble (table.held d.key ++ seen) = none) :
    ∃ final, table.ingestAll (arrivals.map (·.record))
        = .ok (final, List.replicate arrivals.length none) ∧
      final.held d.key = table.held d.key ++ arrivals.map (·.fragment.piece) := by
  induction arrivals generalizing table with
  | nil => exact ⟨table, rfl, (List.append_nil _).symm⟩
  | cons a arrivals ih =>
    obtain ⟨mine, others⟩ := List.forall_mem_cons.mp own
    have step := ingest_fragment table mine
    rw [waits [a.fragment.piece] (List.prefix_append _ _)] at step
    have now : Ipv4Defrag.held (table.insert d.key (table.held d.key ++ [a.fragment.piece])) d.key
        = table.held d.key ++ [a.fragment.piece] := by
      rw [Ipv4Defrag.held, AList.lookup_insert, Option.getD_some]
    obtain ⟨final, ran, after⟩ := ih (table.insert d.key _) others (by
      intro seen front
      rw [now, List.append_assoc]
      exact waits (a.fragment.piece :: seen) (List.cons_prefix_cons.mpr ⟨rfl, front⟩))
    refine ⟨final, ?_, ?_⟩
    · rw [List.map_cons, Ipv4Defrag.ingestAll_cons, step, ok_bind, ran]
      rfl
    · rw [after, now, List.append_assoc]
      rfl

/-- A copy among what is held keeps the datagram from ever coming out. -/
theorem repeated_never_completes {arrivals : List Arrival}
    (holds : ∀ f ∈ table.held d.key, f ∈ piecesFrom 0 d.pieces)
    (own : ∀ a ∈ arrivals, a.fragment ∈ d.fragments) (repeated : ¬ (table.held d.key).Nodup) :
    ∃ final, table.ingestAll (arrivals.map (·.record))
      = .ok (final, List.replicate arrivals.length none) := by
  obtain ⟨final, ran, -⟩ := ingestAll_waiting table own (by
    intro seen front
    apply reassemble_repeated d.filled d.small_payload
    · intro f member
      rcases List.mem_append.mp member with old | new
      · exact holds f old
      · obtain ⟨a, there, rfl⟩ := List.mem_map.mp (front.subset new)
        exact Datagram.piece_mem (own a there)
    · exact fun once => repeated (List.nodup_append.mp once).1)
  exact ⟨final, ran⟩

end

/-- The fragments of a datagram are told apart by their pieces. -/
theorem Datagram.nodup_pieces_iff {d : Datagram} {seen : List Arrival}
    (own : ∀ a ∈ seen, a.fragment ∈ d.fragments) :
    (seen.map (·.fragment.piece)).Nodup ↔ (seen.map (·.fragment)).Nodup := by
  constructor
  · intro distinct
    exact List.Nodup.of_map Fragment.piece (by rwa [List.map_map])
  · intro distinct
    rw [show seen.map (·.fragment.piece) = (seen.map (·.fragment)).map (·.piece) from
      (List.map_map).symm]
    refine List.Nodup.map_on ?_ distinct
    intro f mine g other same
    obtain ⟨a, there, rfl⟩ := List.mem_map.mp mine
    obtain ⟨b, here, rfl⟩ := List.mem_map.mp other
    exact Datagram.fragment_eq (own a there) (own b here) same

/-- The fragments of one datagram in any order, with copies of fragments already held: the
payload comes out with the fragment that makes them complete if and only if there was no
copy. -/
theorem redelivered_completes_iff (d : Datagram) (table : Ipv4Defrag) (seen : List Arrival)
    (last : Arrival) (fresh : table.lookup d.key = none)
    (own : ∀ a ∈ seen ++ [last], a.fragment ∈ d.fragments)
    (present : ∀ f ∈ d.fragments, f ∈ (seen ++ [last]).map (·.fragment))
    (completes : last.fragment ∉ seen.map (·.fragment)) :
    (∃ final, table.ingestAll ((seen ++ [last]).map (·.record))
      = .ok (final, List.replicate seen.length none ++ [some d.payload])) ↔
        (seen.map (·.fragment)).Nodup := by
  have ownSeen : ∀ a ∈ seen, a.fragment ∈ d.fragments :=
    fun a member => own a (List.mem_append_left _ member)
  have ownLast := own last (List.mem_append_right _ List.mem_cons_self)
  have empty : table.held d.key = [] := by rw [Ipv4Defrag.held, fresh]; rfl
  have pieces : ∀ f ∈ seen.map (·.fragment.piece) ++ [last.fragment.piece],
      f ∈ piecesFrom 0 d.pieces := by
    intro f member
    rcases List.mem_append.mp member with old | new
    · obtain ⟨a, there, rfl⟩ := List.mem_map.mp old
      exact Datagram.piece_mem (ownSeen a there)
    · rw [List.mem_singleton.mp new]
      exact Datagram.piece_mem ownLast
  have missing : last.fragment.piece ∉ seen.map (·.fragment.piece) := by
    intro there
    obtain ⟨a, member, same⟩ := List.mem_map.mp there
    apply completes
    rw [← Datagram.fragment_eq (ownSeen a member) ownLast same]
    exact List.mem_map_of_mem member
  obtain ⟨middle, ran, holds⟩ := ingestAll_waiting table ownSeen (by
    intro part front
    rw [empty, List.nil_append]
    exact reassemble_missing d.filled d.small_payload
      (fun f member => pieces f (List.mem_append_left _ (front.subset member)))
      (Datagram.piece_mem ownLast) (fun there => missing (front.subset there)))
  rw [empty, List.nil_append] at holds
  have all : reassemble (seen.map (·.fragment.piece) ++ [last.fragment.piece]) = some d.payload ↔
      (seen.map (·.fragment.piece) ++ [last.fragment.piece]).Nodup := by
    apply reassemble_present_iff d.pieces_ne_nil d.filled d.small_payload pieces
    intro f member
    have there := present ⟨d.key, f⟩ (List.mem_map_of_mem member)
    rw [List.map_append, List.mem_append] at there
    rcases there with old | new
    · obtain ⟨a, inside, same⟩ := List.mem_map.mp old
      exact List.mem_append_left _ (List.mem_map.mpr ⟨a, inside, congrArg Fragment.piece same⟩)
    · have same := List.mem_singleton.mp new
      exact List.mem_append_right _ (List.mem_singleton.mpr (congrArg Fragment.piece same))
  have once : (seen.map (·.fragment.piece) ++ [last.fragment.piece]).Nodup ↔
      (seen.map (·.fragment)).Nodup := by
    rw [List.nodup_append_comm, List.singleton_append, List.nodup_cons,
      and_iff_right missing]
    exact Datagram.nodup_pieces_iff ownSeen
  rw [List.map_append, Ipv4Defrag.ingestAll_append ran, List.map_singleton,
    Ipv4Defrag.ingestAll_cons, ingest_fragment _ ownLast, ok_bind, holds, ← once, ← all]
  cases made : reassemble (seen.map (·.fragment.piece) ++ [last.fragment.piece]) with
  | none => simp [Ipv4Defrag.ingestAll, Except.map, pure_ok]
  | some out => simp [Ipv4Defrag.ingestAll, Except.map, pure_ok]

/-- The two fragments of `twoFragments`, each in a bare record. -/
def firstHalf : Arrival :=
  ⟨⟨twoFragments.key, 0, true, [0, 1, 2, 3, 4, 5, 6, 7]⟩, bareIp, by decide⟩

def secondHalf : Arrival := ⟨⟨twoFragments.key, 8, false, [8]⟩, bareIp, by decide⟩

theorem halves_complete :
    (∃ final, Ipv4Defrag.ingestAll ∅ (([secondHalf] ++ [firstHalf]).map (·.record))
      = .ok (final, [none] ++ [some twoFragments.payload])) ↔
        ([secondHalf].map (·.fragment)).Nodup :=
  redelivered_completes_iff twoFragments ∅ [secondHalf] firstHalf rfl (by decide) (by decide)
    (by decide)

/-- The first half a second time, and the datagram never comes out. -/
theorem second_copy_blocks :
    (Ipv4Defrag.ingestAll ∅ [firstHalf.record, firstHalf.record, secondHalf.record]).map (·.2)
        = .ok [none, none, none] ∧
      (Ipv4Defrag.ingestAll ∅ [firstHalf.record, secondHalf.record]).map (·.2)
        = .ok [none, some twoFragments.payload] := by
  decide

end BitBeak
