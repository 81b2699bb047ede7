import BitBeak.Dissect.Reassembly
import Mathlib.Data.Nat.Bitwise

/-! Fragments of many datagrams, in any order. Each datagram comes out with the last of
its fragments to arrive, whichever that is, and leaves nothing behind. -/
namespace BitBeak
open Wire

/-- A payload divided into pieces, as the fragments that carry them. -/
def piecesFrom (offset : Nat) : List Bytes → List FragPiece
  | [] => []
  | p :: ps => ⟨offset, !ps.isEmpty, p⟩ :: piecesFrom (offset + p.length) ps

/- Pieces of one payload, and what `reassemble` makes of them. -/

section
variable {offset : Nat} {ps : List Bytes}

theorem length_piecesFrom : (piecesFrom offset ps).length = ps.length := by
  induction ps generalizing offset with
  | nil => rfl
  | cons p ps ih => simp only [piecesFrom, List.length_cons, ih]

theorem piecesFrom_offset {f : FragPiece} (member : f ∈ piecesFrom offset ps) :
    offset ≤ f.offset ∧ f.offset + f.data.length ≤ offset + ps.flatten.length := by
  induction ps generalizing offset with
  | nil => cases member
  | cons p ps ih =>
    simp only [piecesFrom, List.mem_cons] at member
    simp only [List.flatten_cons, List.length_append]
    rcases member with rfl | later
    · dsimp only
      omega
    · have bounds := ih later
      omega

theorem piecesFrom_increasing (filled : ∀ p ∈ ps, p ≠ []) :
    (piecesFrom offset ps).Pairwise (fun a b => a.offset < b.offset) := by
  induction ps generalizing offset with
  | nil => exact .nil
  | cons p ps ih =>
    simp only [List.forall_mem_cons] at filled
    refine List.pairwise_cons.mpr ⟨?_, ih filled.2⟩
    intro f member
    have bounds := piecesFrom_offset member
    have long := List.length_pos_iff.mpr filled.1
    dsimp only
    omega

theorem joinPieces_all (small : offset + ps.flatten.length ≤ u16Max) :
    joinPieces offset (piecesFrom offset ps) = some ps.flatten := by
  induction ps generalizing offset with
  | nil => rfl
  | cons p ps ih =>
    simp only [List.flatten_cons, List.length_append] at small
    have next : min (offset + p.length % 2 ^ 16) u16Max = offset + p.length := by
      unfold u16Max at small ⊢
      omega
    have rest : joinPieces (offset + p.length) (piecesFrom (offset + p.length) ps)
        = some ps.flatten := ih (by omega)
    simp only [piecesFrom, joinPieces, next, rest, ne_eq, not_true_eq_false, if_false,
      Option.map_some, List.flatten_cons]

theorem getLast_piecesFrom (nonempty : ps ≠ []) :
    ((piecesFrom offset ps).getLast?.map (·.more)) = some false := by
  induction ps generalizing offset with
  | nil => contradiction
  | cons p ps ih =>
    cases ps with
    | nil => rfl
    | cons q qs =>
      have later : (piecesFrom (offset + p.length) (q :: qs)).getLast?.map (·.more)
          = some false := ih (List.cons_ne_nil q qs)
      rw [piecesFrom]
      rwa [piecesFrom, List.getLast?_cons_cons]

/-- Only all of the pieces lie end to end from the start up to a last piece. -/
theorem joined_part_is_all {s : List FragPiece} {out : Bytes} (filled : ∀ p ∈ ps, p ≠ [])
    (small : offset + ps.flatten.length ≤ u16Max) (part : s.Sublist (piecesFrom offset ps))
    (joined : joinPieces offset s = some out) (ends : s.getLast?.map (·.more) = some false) :
    s = piecesFrom offset ps := by
  induction ps generalizing offset s out with
  | nil =>
    cases part
    contradiction
  | cons p ps ih =>
    simp only [List.forall_mem_cons] at filled
    simp only [List.flatten_cons, List.length_append] at small
    have long := List.length_pos_iff.mpr filled.1
    have next : min (offset + p.length % 2 ^ 16) u16Max = offset + p.length := by
      unfold u16Max at small ⊢
      omega
    cases s with
    | nil => contradiction
    | cons x s =>
      unfold joinPieces at joined
      split at joined
      · contradiction
      · next starts =>
        obtain ⟨rest, joined, -⟩ := Option.map_eq_some_iff.mp joined
        cases part with
        | cons _ later =>
          have bounds := piecesFrom_offset (later.subset (List.mem_cons_self ..))
          omega
        | cons_cons _ part =>
          dsimp only at joined
          rw [next] at joined
          cases s with
          | nil =>
            cases ps with
            | nil => rfl
            | cons q qs =>
              have wrong : true = false := Option.some.inj ends
              contradiction
          | cons y s =>
            rw [List.getLast?_cons_cons] at ends
            rw [ih filled.2 (by omega) part joined ends, piecesFrom]

theorem insertionSort_offset (l : List FragPiece) :
    (l.insertionSort (fun a b => a.offset ≤ b.offset)).Pairwise (fun a b => a.offset ≤ b.offset) := by
  have total : Std.Total (fun a b : FragPiece => a.offset ≤ b.offset) :=
    ⟨fun a b => Nat.le_total a.offset b.offset⟩
  have transitive : IsTrans FragPiece (fun a b => a.offset ≤ b.offset) :=
    ⟨fun _ _ _ => Nat.le_trans⟩
  exact List.pairwise_insertionSort _ l

/-- Sorting some of the pieces puts them in the order they have in the payload. -/
theorem insertionSort_part {l : List FragPiece} (filled : ∀ p ∈ ps, p ≠ [])
    (part : l.Subperm (piecesFrom offset ps)) :
    (l.insertionSort (fun a b => a.offset ≤ b.offset)).Sublist (piecesFrom offset ps) := by
  obtain ⟨l', same, inside⟩ := part
  have increasing : (piecesFrom offset ps).Pairwise _ := piecesFrom_increasing filled
  have distinct : ((piecesFrom offset ps).map (·.offset)).Nodup := by
    rw [List.Nodup, List.pairwise_map]
    exact increasing.imp Nat.ne_of_lt
  have ordered : l'.Pairwise (fun a b => a.offset ≤ b.offset) :=
    (increasing.sublist inside).imp Nat.le_of_lt
  have sorted : l.insertionSort (fun a b => a.offset ≤ b.offset) = l' := by
    have perm := (List.perm_insertionSort (fun a b => a.offset ≤ b.offset) l).trans same.symm
    refine perm.eq_of_pairwise ?_ (insertionSort_offset l) ordered
    intro a b left right ab ba
    exact List.inj_on_of_nodup_map distinct (inside.subset (perm.subset left))
      (inside.subset right) (Nat.le_antisymm ab ba)
  rwa [sorted]

theorem reassemble_all {l : List FragPiece} (nonempty : ps ≠ []) (filled : ∀ p ∈ ps, p ≠ [])
    (small : ps.flatten.length ≤ u16Max) (all : l.Perm (piecesFrom 0 ps)) :
    reassemble l = some ps.flatten := by
  have ends : (piecesFrom 0 ps).getLast?.map (·.more) = _ := getLast_piecesFrom nonempty
  have sorted : l.insertionSort (fun a b => a.offset ≤ b.offset) = piecesFrom 0 ps := by
    refine (insertionSort_part filled all.subperm).eq_of_length ?_
    rw [List.length_insertionSort, all.length_eq]
  have last : l.all (·.more) = false := by
    obtain ⟨f, final, done⟩ := Option.map_eq_some_iff.mp ends
    rw [List.all_eq_false]
    refine ⟨f, all.symm.subset (List.mem_of_getLast? final), ?_⟩
    rw [done]
    decide
  have joined : joinPieces 0 (piecesFrom 0 ps) = _ := joinPieces_all (by omega)
  simp only [reassemble, last, sorted, joined, ends, Option.getD_some, Bool.false_eq_true, if_false]

theorem reassemble_part {l : List FragPiece} (filled : ∀ p ∈ ps, p ≠ [])
    (small : ps.flatten.length ≤ u16Max) (part : l.Subperm (piecesFrom 0 ps))
    (missing : l.length < ps.length) : reassemble l = none := by
  unfold reassemble
  split
  · rfl
  · dsimp only
    split
    · rfl
    · next out joined =>
      split
      · rfl
      · next ends =>
        have last : (l.insertionSort (fun a b => a.offset ≤ b.offset)).getLast?.map (·.more)
            = some false := by
          cases more : (l.insertionSort (fun a b => a.offset ≤ b.offset)).getLast?.map (·.more) with
          | none => exact absurd (by rw [more]; rfl) ends
          | some b =>
            cases b
            · rfl
            · exact absurd (by rw [more]; rfl) ends
        have all := joined_part_is_all filled (by omega) (insertionSort_part filled part) joined last
        have lengths := congrArg List.length all
        rw [List.length_insertionSort, length_piecesFrom] at lengths
        omega

end

/- A fragment of a datagram, and the records it may arrive in. -/

/-- A datagram in two or more fragments at offsets that are multiples of 8. -/
structure Datagram where
  key : FragKey
  pieces : List Bytes
  fragmented : 2 ≤ pieces.length
  filled : ∀ p ∈ pieces, p ≠ []
  aligned : ∀ p ∈ pieces.dropLast, 8 ∣ p.length
  small : pieces.flatten.length ≤ 65515
  ranged : key.id < 2 ^ 16 ∧ key.src < 2 ^ 32 ∧ key.dst < 2 ^ 32

structure Fragment where
  key : FragKey
  piece : FragPiece
  deriving DecidableEq

def Datagram.payload (d : Datagram) : Bytes := d.pieces.flatten

def Datagram.fragments (d : Datagram) : List Fragment :=
  (piecesFrom 0 d.pieces).map (Fragment.mk d.key)

inductive LinkHead where
  | ethernet (macs : Bytes) (width : macs.length = 12)
  | linuxSll (head : Bytes) (width : head.length = 16)
  | raw

/-- What a record of a fragment is free to choose: the link header, the header length
with its options, the two flag bits beside MF, the other header fields, and padding. -/
structure Envelope where
  link : LinkHead
  ihl : Nat
  options : Bytes
  headerLength : 5 ≤ ihl ∧ ihl ≤ 15 ∧ options.length = 4 * (ihl - 5)
  tos : UInt8
  flags : Nat
  flagBits : flags < 4
  ttl : UInt8
  checksum : Bytes
  checksumWidth : checksum.length = 2
  padding : Bytes

namespace LinkHead

def linkType : LinkHead → LinkType
  | .ethernet _ _ => .ethernet
  | .linuxSll _ _ => .linuxSll
  | .raw => .raw

def bytes : LinkHead → Bytes
  | .ethernet macs _ => macs ++ [0x08, 0x00]
  | .linuxSll head _ => head
  | .raw => []

end LinkHead

namespace Envelope

def totalLength (e : Envelope) (f : Fragment) : Nat := 4 * e.ihl + f.piece.data.length

def flagsFrag (e : Envelope) (f : Fragment) : Nat :=
  e.flags * 0x4000 + (if f.piece.more then 0x2000 else 0) + f.piece.offset / 8

def header (e : Envelope) (f : Fragment) : Bytes :=
  [UInt8.ofNat (0x40 + e.ihl), e.tos] ++ (toBE 2 (e.totalLength f) ++ (toBE 2 f.key.id ++
    (toBE 2 (e.flagsFrag f) ++ ([e.ttl, f.key.proto] ++ (e.checksum ++ (toBE 4 f.key.src ++
      (toBE 4 f.key.dst ++ e.options)))))))

/-- The complete record of a fragment. -/
def record (e : Envelope) (f : Fragment) : PacketRecord :=
  { linkType := e.link.linkType
    data := e.link.bytes ++ (e.header f ++ (f.piece.data ++ e.padding)) }

/-- The total length has a 16-bit field. -/
def Fits (e : Envelope) (f : Fragment) : Prop := e.totalLength f < 2 ^ 16

instance (e : Envelope) (f : Fragment) : Decidable (e.Fits f) :=
  inferInstanceAs (Decidable (_ < _))

variable {e : Envelope} {f : Fragment}

theorem length_header : (e.header f).length = 4 * e.ihl := by
  obtain ⟨low, _, options⟩ := e.headerLength
  simp only [header, List.length_append, length_toBE, List.length_cons, List.length_nil,
    e.checksumWidth, options]
  omega

theorem ihl_nibble {ihl : Nat} (bound : ihl ≤ 15) :
    (UInt8.ofNat (0x40 + ihl) &&& 0x0f).toNat = ihl := by
  have all : ∀ n : Fin 16, (UInt8.ofNat (0x40 + n.val) &&& 0x0f).toNat = n.val := by decide
  exact all ⟨ihl, by omega⟩

theorem flagsFrag_more (room : f.piece.offset < 2 ^ 16) :
    decide (e.flagsFrag f &&& 0x2000 ≠ 0) = f.piece.more := by
  have bit : e.flagsFrag f &&& 0x2000 = ((e.flagsFrag f).testBit 13).toNat * 2 ^ 13 :=
    Nat.and_two_pow _ 13
  have set : (e.flagsFrag f).testBit 13 = f.piece.more := by
    rw [Nat.testBit_eq_decide_div_mod_eq, flagsFrag]
    cases f.piece.more
    · simp only [Bool.false_eq_true, if_false, decide_eq_false_iff_not]
      omega
    · simp only [if_true, decide_eq_true_eq]
      omega
  rw [bit, set]
  cases f.piece.more <;> rfl

theorem flagsFrag_offset (room : f.piece.offset < 2 ^ 16) (aligned : 8 ∣ f.piece.offset) :
    (e.flagsFrag f &&& 0x1fff) * 8 = f.piece.offset := by
  have low : e.flagsFrag f &&& 0x1fff = e.flagsFrag f % 2 ^ 13 :=
    Nat.and_two_pow_sub_one_eq_mod _ 13
  rw [low, flagsFrag]
  split <;> omega

theorem flagsFrag_lt (room : f.piece.offset < 2 ^ 16) : e.flagsFrag f < 256 ^ 2 := by
  have bits := e.flagBits
  unfold flagsFrag
  split <;> omega

/-- The header and what follows it, field by field. -/
theorem header_fields (rest : Bytes) :
    e.header f ++ rest = [UInt8.ofNat (0x40 + e.ihl), e.tos] ++ (toBE 2 (e.totalLength f) ++
      (toBE 2 f.key.id ++ (toBE 2 (e.flagsFrag f) ++ ([e.ttl, f.key.proto] ++ (e.checksum ++
        (toBE 4 f.key.src ++ (toBE 4 f.key.dst ++ (e.options ++ rest)))))))) := by
  simp only [header, List.append_assoc]

/-- What the fields of the header read. -/
theorem header_reads (rest : Bytes) (fits : e.Fits f) (room : f.piece.offset < 2 ^ 16)
    (ranged : f.key.id < 2 ^ 16 ∧ f.key.src < 2 ^ 32 ∧ f.key.dst < 2 ^ 32) :
    octet (e.header f ++ rest) 0 = UInt8.ofNat (0x40 + e.ihl) ∧
    beAt (e.header f ++ rest) 2 2 = e.totalLength f ∧
    beAt (e.header f ++ rest) 4 2 = f.key.id ∧
    beAt (e.header f ++ rest) 6 2 = e.flagsFrag f ∧
    octet (e.header f ++ rest) 9 = f.key.proto ∧
    beAt (e.header f ++ rest) 12 4 = f.key.src ∧
    beAt (e.header f ++ rest) 16 4 = f.key.dst := by
  have word := flagsFrag_lt (e := e) room
  have checksum := e.checksumWidth
  rw [header_fields]
  refine ⟨rfl, ?_, ?_, ?_, ?_, ?_, ?_⟩
  · rw [beAt_append_right (Nat.le_refl 2)]
    exact beAt_toBE fits
  · simp (disch := simp [checksum]) only [beAt_append_right, length_toBE, List.length_cons,
      List.length_nil]
    exact beAt_toBE ranged.1
  · simp (disch := simp [checksum]) only [beAt_append_right, length_toBE, List.length_cons,
      List.length_nil]
    exact beAt_toBE word
  · simp (disch := simp) only [octet_append_right, length_toBE, List.length_cons, List.length_nil]
    rfl
  · simp (disch := simp [checksum]) only [beAt_append_right, length_toBE, List.length_cons,
      List.length_nil, checksum]
    exact beAt_toBE ranged.2.1
  · simp (disch := simp [checksum]) only [beAt_append_right, length_toBE, List.length_cons,
      List.length_nil, checksum]
    exact beAt_toBE ranged.2.2

theorem length_record : (e.record f).data.length
    = e.link.bytes.length + (4 * e.ihl + (f.piece.data.length + e.padding.length)) := by
  simp only [record, List.length_append, length_header]

/-- Every record of a fragment has its IPv4 header right behind its link header. -/
theorem ipv4Start_record : ipv4Start (e.record f) = .ok (some e.link.bytes.length) := by
  obtain ⟨low, _, _⟩ := e.headerLength
  have long := length_record (e := e) (f := f)
  unfold ipv4Start
  cases link : e.link with
  | ethernet macs width =>
    have bytes : e.link.bytes = macs ++ [0x08, 0x00] := by rw [link]; rfl
    have size : e.link.bytes.length = 14 := by simp only [bytes, List.length_append, width]; rfl
    have ethertype : beAt (e.record f).data 12 2 = 0x0800 := by
      simp only [record, bytes, List.append_assoc]
      rw [beAt_append_right (by rw [width]), width]
      rfl
    have kind : (e.record f).linkType = .ethernet := by simp only [record, link]; rfl
    simp only [kind, readBE_ok (show 12 + 2 ≤ (e.record f).data.length by omega), ethertype]
    rw [if_neg (by omega), ok_bind, if_neg (by decide)]
    simp only [← link, size, pure_ok]
  | linuxSll head width =>
    have kind : (e.record f).linkType = .linuxSll := by simp only [record, link]; rfl
    simp only [kind, LinkHead.bytes, width, pure_ok]
  | raw =>
    have kind : (e.record f).linkType = .raw := by simp only [record, link]; rfl
    simp only [kind, LinkHead.bytes, List.length_nil, pure_ok]

theorem parseIpv4_record (fits : e.Fits f) (room : f.piece.offset < 2 ^ 16)
    (aligned : 8 ∣ f.piece.offset)
    (ranged : f.key.id < 2 ^ 16 ∧ f.key.src < 2 ^ 32 ∧ f.key.dst < 2 ^ 32) :
    parseIpv4 (e.record f) = .ok (some (
      { id := f.key.id
        src := f.key.src
        dst := f.key.dst
        proto := f.key.proto
        fragOffset := f.piece.offset
        moreFragments := f.piece.more }, f.piece.data)) := by
  obtain ⟨low, high, _⟩ := e.headerLength
  have long := length_record (e := e) (f := f)
  obtain ⟨first, total, id, word, proto, src, dst⟩ :=
    header_reads (f.piece.data ++ e.padding) fits room ranged
  have field : ∀ i k, beAt (e.record f).data (e.link.bytes.length + i) k
      = beAt (e.header f ++ (f.piece.data ++ e.padding)) i k := by
    intro i k
    rw [record, beAt_append_right (Nat.le_add_right _ _), Nat.add_sub_cancel_left]
  have single : ∀ i, octet (e.record f).data (e.link.bytes.length + i)
      = octet (e.header f ++ (f.piece.data ++ e.padding)) i := by
    intro i
    rw [record, octet_append_right (Nat.le_add_right _ _), Nat.add_sub_cancel_left]
  have ends : min (e.totalLength f) (e.record f).data.length = e.totalLength f := by
    rw [Nat.min_eq_left]
    unfold totalLength
    omega
  have payload : span (e.record f).data (e.link.bytes.length + e.ihl * 4)
      (e.link.bytes.length + e.totalLength f) = f.piece.data := by
    have parts : (e.record f).data
        = (e.link.bytes ++ e.header f) ++ (f.piece.data ++ e.padding) := by
      rw [record, List.append_assoc]
    rw [parts]
    apply span_middle
    · rw [List.length_append, length_header]
      omega
    · rw [List.length_append, length_header, totalLength]
      omega
  have inside : e.totalLength f = 4 * e.ihl + f.piece.data.length := rfl
  have start := single 0
  rw [Nat.add_zero] at start
  unfold parseIpv4
  rw [ipv4Start_record, ok_bind]
  dsimp only
  rw [if_neg (by omega), byteAt_ok (by omega), readBE_ok (by omega), readBE_ok (by omega),
    readBE_ok (by omega), byteAt_ok (by omega), readBE_ok (by omega), readBE_ok (by omega)]
  simp only [ok_bind, start, first, ihl_nibble high, field, single, total, id, word, proto, src,
    dst, ends]
  rw [slice_ok (by omega) (by omega), payload, flagsFrag_offset room aligned]
  simp only [ok_bind, pure_ok, flagsFrag_more room]

end Envelope

/- A table fed with records of fragments. -/

namespace Ipv4Defrag

variable {table : Ipv4Defrag}

/-- What ingesting the record of a fragment does: its piece joins those of its key. -/
theorem ingest_record (table : Ipv4Defrag) {e : Envelope} {f : Fragment} (fits : e.Fits f)
    (room : f.piece.offset < 2 ^ 16) (aligned : 8 ∣ f.piece.offset)
    (ranged : f.key.id < 2 ^ 16 ∧ f.key.src < 2 ^ 32 ∧ f.key.dst < 2 ^ 32)
    (fragment : ¬ (f.piece.offset = 0 ∧ (!f.piece.more) = true)) :
    table.ingest (e.record f) = .ok (
      match reassemble ((table.lookup f.key).getD [] ++ [f.piece]) with
      | none => (table.insert f.key ((table.lookup f.key).getD [] ++ [f.piece]), none)
      | some out => (table.erase f.key, some out)) := by
  unfold ingest
  rw [Envelope.parseIpv4_record fits room aligned ranged, ok_bind]
  obtain ⟨⟨id, src, dst, proto⟩, offset, more, data⟩ := f
  dsimp only at fragment ⊢
  rw [if_neg fragment]
  cases reassemble ((table.lookup ⟨id, src, dst, proto⟩).getD [] ++ [⟨offset, more, data⟩]) <;> rfl

end Ipv4Defrag

/- The fragments of several datagrams, mixed. -/

namespace Datagram

variable {d : Datagram} {f : Fragment}

theorem pieces_ne_nil (d : Datagram) : d.pieces ≠ [] := by
  intro empty
  have two := d.fragmented
  rw [empty] at two
  contradiction

theorem fragment_aligned {offset : Nat} {ps : List Bytes} {g : FragPiece} (start : 8 ∣ offset)
    (aligned : ∀ p ∈ ps.dropLast, 8 ∣ p.length) (member : g ∈ piecesFrom offset ps) :
    8 ∣ g.offset := by
  induction ps generalizing offset with
  | nil => cases member
  | cons p ps ih =>
    simp only [piecesFrom, List.mem_cons] at member
    rcases member with rfl | later
    · exact start
    · cases ps with
      | nil => cases later
      | cons q qs =>
        rw [List.dropLast_cons_cons, List.forall_mem_cons] at aligned
        exact ih (Nat.dvd_add start aligned.1) aligned.2 later

/-- Only a whole datagram in one piece would look unfragmented. -/
theorem piece_is_fragment {ps : List Bytes} {g : FragPiece} (fragmented : 2 ≤ ps.length)
    (filled : ∀ p ∈ ps, p ≠ []) (member : g ∈ piecesFrom 0 ps) :
    ¬ (g.offset = 0 ∧ (!g.more) = true) := by
  cases ps with
  | nil => cases member
  | cons p ps =>
    cases ps with
    | nil => contradiction
    | cons q qs =>
      simp only [piecesFrom, List.mem_cons] at member
      have long := List.length_pos_iff.mpr (filled p (List.mem_cons_self ..))
      rintro ⟨zero, last⟩
      rcases member with rfl | rfl | later
      · contradiction
      · dsimp only at zero
        omega
      · have bounds := piecesFrom_offset later
        omega

theorem fragment_facts (member : f ∈ d.fragments) :
    f.key = d.key ∧ f.piece.offset < 2 ^ 16 ∧ 8 ∣ f.piece.offset ∧
      ¬ (f.piece.offset = 0 ∧ (!f.piece.more) = true) := by
  obtain ⟨g, inside, rfl⟩ := List.mem_map.mp member
  have bounds := piecesFrom_offset inside
  have small := d.small
  exact ⟨rfl, by dsimp only; omega, fragment_aligned (Nat.dvd_zero 8) d.aligned inside,
    piece_is_fragment d.fragmented d.filled inside⟩

end Datagram

/-- A fragment in a record with room for it. -/
structure Arrival where
  fragment : Fragment
  envelope : Envelope
  fits : envelope.Fits fragment

def Arrival.record (a : Arrival) : PacketRecord := a.envelope.record a.fragment

/-- A payload with the last fragment of its datagram to arrive, nothing with the others. -/
def expectedOutputs (datagrams : List Datagram) : List Fragment → List (Option Bytes)
  | [] => []
  | f :: rest =>
    (if rest.any (·.key == f.key) then none
      else (datagrams.find? (·.key == f.key)).map (·.payload)) :: expectedOutputs datagrams rest

/-- The pieces of key `k` among some fragments, in the order of the fragments. -/
def piecesOf (k : FragKey) (fragments : List Fragment) : List FragPiece :=
  (fragments.filter (·.key == k)).map (·.piece)

theorem piecesOf_append (k : FragKey) (fs gs : List Fragment) :
    piecesOf k (fs ++ gs) = piecesOf k fs ++ piecesOf k gs := by
  simp only [piecesOf, List.filter_append, List.map_append]

theorem piecesOf_self (f : Fragment) : piecesOf f.key [f] = [f.piece] := by
  simp only [piecesOf, List.filter_cons, BEq.rfl, if_true, List.filter_nil, List.map_cons,
    List.map_nil]

theorem piecesOf_other {k : FragKey} {f : Fragment} (other : f.key ≠ k) :
    piecesOf k [f] = [] := by
  simp only [piecesOf, List.filter_cons, beq_eq_false_iff_ne.mpr other, Bool.false_eq_true, if_false,
    List.filter_nil, List.map_nil]

theorem piecesOf_eq_nil {k : FragKey} {fs : List Fragment} :
    piecesOf k fs = [] ↔ fs.any (·.key == k) = false := by
  rw [piecesOf, List.map_eq_nil_iff, List.filter_eq_nil_iff, List.any_eq_false]

theorem piecesOf_fragments {k : FragKey} {d : Datagram} :
    piecesOf k d.fragments = if d.key = k then piecesFrom 0 d.pieces else [] := by
  unfold piecesOf Datagram.fragments
  split
  · next same =>
    rw [List.filter_eq_self.mpr, List.map_map]
    · exact List.map_id _
    · intro f member
      obtain ⟨g, _, rfl⟩ := List.mem_map.mp member
      exact beq_iff_eq.mpr same
  · next other =>
    rw [List.filter_eq_nil_iff.mpr, List.map_nil]
    intro f member
    obtain ⟨g, _, rfl⟩ := List.mem_map.mp member
    exact fun same => other (beq_iff_eq.mp same)

/-- Among the fragments of all datagrams, the pieces of one key are those of its
datagram. -/
theorem piecesOf_datagrams {datagrams : List Datagram} {d : Datagram}
    (distinct : (datagrams.map (·.key)).Nodup) (member : d ∈ datagrams) :
    piecesOf d.key (datagrams.flatMap (·.fragments)) = piecesFrom 0 d.pieces := by
  induction datagrams with
  | nil => cases member
  | cons e rest ih =>
    rw [List.map_cons, List.nodup_cons] at distinct
    rw [List.flatMap_cons, piecesOf_append, piecesOf_fragments]
    rcases List.mem_cons.mp member with rfl | later
    · have others : piecesOf d.key (rest.flatMap (·.fragments)) = [] := by
        rw [piecesOf_eq_nil, List.any_eq_false]
        intro f inside same
        obtain ⟨e, there, piece⟩ := List.mem_flatMap.mp inside
        apply distinct.1
        rw [← beq_iff_eq.mp same, (Datagram.fragment_facts piece).1]
        exact List.mem_map_of_mem there
      rw [if_pos rfl, others, List.append_nil]
    · have apart : e.key ≠ d.key := by
        intro same
        exact distinct.1 (same ▸ List.mem_map_of_mem later)
      rw [if_neg apart, List.nil_append, ih distinct.2 later]

theorem find_key {datagrams : List Datagram} {d : Datagram}
    (distinct : (datagrams.map (·.key)).Nodup) (member : d ∈ datagrams) :
    datagrams.find? (·.key == d.key) = some d := by
  induction datagrams with
  | nil => cases member
  | cons e rest ih =>
    rw [List.map_cons, List.nodup_cons] at distinct
    rw [List.find?_cons]
    rcases List.mem_cons.mp member with rfl | later
    · rw [BEq.rfl]
    · have apart : (e.key == d.key) = false := by
        apply beq_eq_false_iff_ne.mpr
        intro same
        exact distinct.1 (same ▸ List.mem_map_of_mem later)
      rw [apart]
      exact ih distinct.2 later

/-- What the table holds between two records: for each key with fragments on both sides,
the pieces that have arrived. -/
def Pending (seen rest : List Fragment) (table : Ipv4Defrag) : Prop :=
  ∀ k, table.lookup k =
    if seen.any (·.key == k) && rest.any (·.key == k) then some (piecesOf k seen) else none

namespace Pending

variable {seen rest : List Fragment} {table : Ipv4Defrag} {f : Fragment}

theorem found (pending : Pending seen (f :: rest) table) :
    (table.lookup f.key).getD [] ++ [f.piece] = piecesOf f.key (seen ++ [f]) := by
  rw [piecesOf_append, piecesOf_self, pending f.key]
  simp only [List.any_cons, BEq.rfl, Bool.true_or, Bool.and_true]
  split
  · rfl
  · next unseen => rw [piecesOf_eq_nil.mpr (eq_false_of_ne_true unseen), Option.getD_none]

theorem other {k : FragKey} (pending : Pending seen (f :: rest) table) (apart : k ≠ f.key) :
    table.lookup k = if (seen ++ [f]).any (·.key == k) && rest.any (·.key == k) then
      some (piecesOf k (seen ++ [f])) else none := by
  have unlike : (f.key == k) = false := beq_eq_false_iff_ne.mpr apart.symm
  rw [pending k, piecesOf_append, piecesOf_other apart.symm, List.append_nil]
  simp only [List.any_append, List.any_cons, List.any_nil, unlike, Bool.false_or, Bool.or_false]

theorem keep (pending : Pending seen (f :: rest) table) (more : rest.any (·.key == f.key) = true) :
    Pending (seen ++ [f]) rest (table.insert f.key (piecesOf f.key (seen ++ [f]))) := by
  intro k
  by_cases same : k = f.key
  · subst same
    rw [AList.lookup_insert, more]
    simp only [List.any_append, List.any_cons, BEq.rfl, Bool.true_or, Bool.or_true, Bool.and_true,
      if_true]
  · rw [AList.lookup_insert_ne same, pending.other same]

theorem complete (pending : Pending seen (f :: rest) table)
    (last : rest.any (·.key == f.key) = false) :
    Pending (seen ++ [f]) rest (table.erase f.key) := by
  intro k
  by_cases same : k = f.key
  · subst same
    rw [AList.lookup_erase, last]
    simp only [Bool.and_false, Bool.false_eq_true, if_false]
  · rw [AList.lookup_erase_ne same, pending.other same]

theorem finished (pending : Pending seen [] table) : table = ∅ := by
  have keys : table.keys = [] := by
    apply List.eq_nil_iff_forall_not_mem.mpr
    intro k member
    have absent := pending k
    simp only [List.any_nil, Bool.and_false, Bool.false_eq_true, if_false] at absent
    exact AList.lookup_eq_none.mp absent (AList.mem_keys.mpr member)
  exact AList.ext (List.map_eq_nil_iff.mp keys)

end Pending

/-- What becomes of the pieces of a fragment's key with that fragment: nothing while
others are still to come, the payload once none is. -/
theorem reassemble_arrived {datagrams : List Datagram} {seen rest : List Fragment} {f : Fragment}
    (distinct : (datagrams.map (·.key)).Nodup)
    (once : (seen ++ f :: rest).Perm (datagrams.flatMap (·.fragments))) :
    reassemble (piecesOf f.key (seen ++ [f])) = if rest.any (·.key == f.key) then none
      else (datagrams.find? (·.key == f.key)).map (·.payload) := by
  obtain ⟨d, known, inside⟩ := List.mem_flatMap.mp
    (once.subset (List.mem_append_right seen (List.mem_cons_self ..)))
  have key := (Datagram.fragment_facts inside).1
  have all : (piecesOf f.key (seen ++ [f]) ++ piecesOf f.key rest).Perm (piecesFrom 0 d.pieces) := by
    rw [← piecesOf_append, List.append_assoc, List.singleton_append, key,
      ← piecesOf_datagrams distinct known]
    exact (once.filter _).map _
  have small : d.pieces.flatten.length ≤ u16Max := by
    have bound := d.small
    unfold u16Max
    omega
  split
  · next more =>
    apply reassemble_part d.filled small
    · exact (List.sublist_append_left _ _).subperm.trans all.subperm
    · have counted := all.length_eq
      rw [List.length_append, length_piecesFrom] at counted
      have left : 0 < (piecesOf f.key rest).length := by
        apply List.length_pos_iff.mpr
        intro none
        rw [piecesOf_eq_nil.mp none] at more
        contradiction
      omega
  · next last =>
    rw [piecesOf_eq_nil.mpr (eq_false_of_ne_true last), List.append_nil] at all
    rw [show datagrams.find? (·.key == f.key) = some d from key ▸ find_key distinct known]
    exact reassemble_all d.pieces_ne_nil d.filled small all

theorem ingestAll_pending {datagrams : List Datagram} (seen : List Fragment)
    {arrivals : List Arrival} {table : Ipv4Defrag} (distinct : (datagrams.map (·.key)).Nodup)
    (once : (seen ++ arrivals.map (·.fragment)).Perm (datagrams.flatMap (·.fragments)))
    (pending : Pending seen (arrivals.map (·.fragment)) table) :
    table.ingestAll (arrivals.map (·.record))
      = .ok (∅, expectedOutputs datagrams (arrivals.map (·.fragment))) := by
  induction arrivals generalizing seen table with
  | nil => rw [pending.finished]; rfl
  | cons a arrivals ih =>
    rw [List.map_cons] at once pending
    obtain ⟨d, known, inside⟩ := List.mem_flatMap.mp
      (once.subset (List.mem_append_right seen (List.mem_cons_self ..)))
    obtain ⟨key, room, aligned, fragment⟩ := Datagram.fragment_facts inside
    have onwards : ((seen ++ [a.fragment]) ++ arrivals.map (·.fragment)).Perm
        (datagrams.flatMap (·.fragments)) := by
      rwa [List.append_assoc, List.singleton_append]
    have first := Ipv4Defrag.ingest_record table a.fits room aligned (key ▸ d.ranged)
      fragment
    rw [pending.found, reassemble_arrived distinct once] at first
    rw [List.map_cons, List.map_cons, Ipv4Defrag.ingestAll, expectedOutputs]
    change (table.ingest (a.envelope.record a.fragment) >>= _) = _
    by_cases more : (arrivals.map (·.fragment)).any (·.key == a.fragment.key) = true
    · rw [if_pos more] at first ⊢
      rw [first, ok_bind]
      dsimp only
      rw [ih _ onwards (pending.keep more)]
      rfl
    · have last := eq_false_of_ne_true more
      have out : datagrams.find? (·.key == a.fragment.key) = some d := key ▸ find_key distinct known
      rw [if_neg more, out] at first
      rw [if_neg more, out, first, ok_bind]
      dsimp only [Option.map_some]
      rw [ih _ onwards (pending.complete last)]
      rfl

/-- Fragments of any datagrams with distinct keys, each fragment once, in any order and in
any records: every datagram's payload comes out with its last fragment, nothing else comes
out, and the table ends empty. -/
theorem defrag_any_order (datagrams : List Datagram) (arrivals : List Arrival)
    (distinct : (datagrams.map (·.key)).Nodup)
    (once : (arrivals.map (·.fragment)).Perm (datagrams.flatMap (·.fragments))) :
    Ipv4Defrag.ingestAll ∅ (arrivals.map (·.record))
      = .ok (∅, expectedOutputs datagrams (arrivals.map (·.fragment))) :=
  ingestAll_pending [] distinct once (fun _ => AList.lookup_empty _)

/-- Two fragments of one datagram in bare IP records. -/
def twoFragments : Datagram where
  key := ⟨7, 0x0a000001, 0x0a000002, 17⟩
  pieces := [[0, 1, 2, 3, 4, 5, 6, 7], [8]]
  fragmented := by decide
  filled := by decide
  aligned := by decide
  small := by decide
  ranged := by decide

def bareIp : Envelope where
  link := .raw
  ihl := 5
  options := []
  headerLength := by decide
  tos := 0
  flags := 0
  flagBits := by decide
  ttl := 64
  checksum := [0, 0]
  checksumWidth := by decide
  padding := []

theorem second_fragment_first :
    Ipv4Defrag.ingestAll ∅ [bareIp.record ⟨twoFragments.key, 8, false, [8]⟩,
      bareIp.record ⟨twoFragments.key, 0, true, [0, 1, 2, 3, 4, 5, 6, 7]⟩]
      = .ok (∅, [none, some [0, 1, 2, 3, 4, 5, 6, 7, 8]]) :=
  defrag_any_order [twoFragments]
    [⟨⟨twoFragments.key, 8, false, [8]⟩, bareIp, by decide⟩,
      ⟨⟨twoFragments.key, 0, true, [0, 1, 2, 3, 4, 5, 6, 7]⟩, bareIp, by decide⟩]
    (by decide) (List.Perm.swap _ _ [])

end BitBeak
