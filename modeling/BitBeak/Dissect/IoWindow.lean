import BitBeak.Dissect.Conserved

/-! The buckets of the arrival graph over whole captures. No bucket is ever cleared, so each
counts every second that falls to it, and the graph shows the last seconds as long as there
are no others. -/
namespace BitBeak
open Wire

def IoBucket.volume (bucket : IoBucket) : Nat × Nat := (bucket.packets, bucket.bytes)

namespace IoGraph

/-- A graph that has taken in these packets. -/
def run (start capacity : Nat) (packets : List TimedPacket) : IoGraph :=
  packets.foldl ingest (new start capacity)

/-- Each bucket holds the packets and octets of one second, the one of the last seconds that
falls to it. Seconds before the start have no packets. -/
def ShowsWindow (graph : IoGraph) (packets : List TimedPacket) (now : Nat) : Prop :=
  ∀ i : Fin graph.capacity, ∃ s : Int, now - graph.capacity < s ∧ s ≤ now ∧
    s % graph.capacity = i ∧
      (graph.buckets i).volume = volume (packets.filter fun p => (secs graph.start p : Int) = s)

/-- What the buckets hold: all the seconds that fall to them. -/
def Accumulates (graph : IoGraph) (packets : List TimedPacket) : Prop :=
  ∀ i : Fin graph.capacity, (graph.buckets i).volume
    = volume (packets.filter fun p => secs graph.start p % graph.capacity = i)

theorem volume_concat (packets : List TimedPacket) (p : TimedPacket) :
    volume (packets ++ [p]) = volume packets + p.size := by
  rw [volume_eq_sum, volume_eq_sum]
  simp

theorem ingest_accumulates {graph : IoGraph} {packets : List TimedPacket}
    (before : graph.Accumulates packets) (p : TimedPacket) :
    (graph.ingest p).Accumulates (packets ++ [p]) := by
  intro (i : Fin graph.capacity)
  have here := before i
  unfold ingest
  dsimp only
  rw [List.filter_append]
  by_cases mine : i = graph.slot (secs graph.start p)
  · have same : secs graph.start p % graph.capacity = i := by rw [mine]; rfl
    rw [mine, Function.update_self, ← mine]
    simp only [List.filter_cons, List.filter_nil, same, decide_true, if_true]
    rw [volume_concat, ← here]
    rfl
  · have other : secs graph.start p % graph.capacity ≠ i := fun same => mine (Fin.ext same.symm)
    rw [Function.update_of_ne mine, here]
    simp [other]

theorem run_spec (start capacity : Nat) (packets : List TimedPacket) :
    (run start capacity packets).start = start ∧
      (run start capacity packets).capacity = max capacity 1 ∧
        (run start capacity packets).Accumulates packets := by
  induction packets using List.reverseRecOn with
  | nil => exact ⟨rfl, rfl, fun i => rfl⟩
  | append_singleton packets p ih =>
    obtain ⟨started, sized, holds⟩ := ih
    unfold run at started sized holds ⊢
    rw [List.foldl_append]
    exact ⟨started, sized, ingest_accumulates holds p⟩

end IoGraph

/- The one second of a window that falls to a bucket. -/

section
variable {cap i : Nat}

theorem window_second (now : Nat) (inside : i < cap) : ∃ s : Int,
    (now : Int) - cap < s ∧ s ≤ now ∧ s % cap = i := by
  have positive : (0 : Int) < cap := by omega
  have low := Int.emod_nonneg ((now : Int) - i) positive.ne'
  have high := Int.emod_lt_of_pos ((now : Int) - i) positive
  refine ⟨now - ((now : Int) - i) % cap, by omega, by omega, ?_⟩
  have whole : (now : Int) - ((now : Int) - i) % cap = i + cap * (((now : Int) - i) / cap) := by
    have split := Int.emod_add_mul_ediv ((now : Int) - i) cap
    omega
  rw [whole, Int.add_mul_emod_self_left]
  exact Int.emod_eq_of_lt (by omega) (by omega)

theorem window_second_unique (now cap : Nat) {s t : Int} (sLow : (now : Int) - cap < s)
    (sHigh : s ≤ now)
    (tLow : (now : Int) - cap < t) (tHigh : t ≤ now) (same : s % cap = t % cap) : s = t := by
  have multiple : (cap : Int) ∣ s - t :=
    Int.dvd_of_emod_eq_zero (Int.emod_eq_emod_iff_emod_sub_eq_zero.mp same)
  have none := Int.eq_zero_of_dvd_of_natAbs_lt_natAbs multiple (by omega)
  omega

end

/- Captures in the order of their arrival. -/

namespace IoGraph

variable {start capacity : Nat} {packets seen rest : List TimedPacket} {p q : TimedPacket}

theorem secs_mono (start : Nat) (later : p.instant ≤ q.instant) : secs start p ≤ secs start q :=
  Nat.div_le_div_right (Nat.sub_le_sub_right later start)

/-- The packets are taken in as they arrive. -/
def InOrder (packets : List TimedPacket) : Prop :=
  packets.Pairwise fun p q => p.instant ≤ q.instant

instance (packets : List TimedPacket) : Decidable (InOrder packets) :=
  inferInstanceAs (Decidable (packets.Pairwise _))

theorem secs_le_last (ordered : InOrder (seen ++ q :: rest)) (start : Nat)
    (member : p ∈ seen ++ [q]) : secs start p ≤ secs start q := by
  rcases List.mem_append.mp member with before | last
  · exact secs_mono start ((List.pairwise_append.mp ordered).2.2 p before q List.mem_cons_self)
  · rw [List.mem_singleton.mp last]

/-- While all the packets lie in one window, each bucket has one second of them. -/
theorem shows_of_close {graph : IoGraph} (holds : graph.Accumulates packets) {now : Nat}
    (latest : ∀ p ∈ packets, secs graph.start p ≤ now)
    (close : ∀ p ∈ packets, now < secs graph.start p + graph.capacity) :
    graph.ShowsWindow packets now := by
  intro i
  obtain ⟨s, low, high, falls⟩ := window_second now i.isLt
  refine ⟨s, low, high, falls, ?_⟩
  rw [holds i]
  congr 1
  apply List.filter_congr
  intro p member
  have before := latest p member
  have recent := close p member
  apply decide_eq_decide.mpr
  constructor
  · intro same
    apply window_second_unique now graph.capacity (by omega) (by omega) low high
    rw [falls, ← same]
    exact (Int.natCast_mod _ _).symm
  · intro same
    have inBucket : ((secs graph.start p % graph.capacity : Nat) : Int) = i := by
      rw [Int.natCast_mod, same, falls]
    exact Int.ofNat.inj inBucket

/-- A packet from before the window is still in the bucket it fell to. -/
theorem stale_of_far {graph : IoGraph} (holds : graph.Accumulates packets) {now : Nat}
    (member : p ∈ packets) (far : secs graph.start p + graph.capacity ≤ now) :
    ¬ graph.ShowsWindow packets now := by
  intro shows
  obtain ⟨s, low, high, falls, same⟩ := shows (graph.slot (secs graph.start p))
  rw [holds] at same
  have counts : (packets.filter _).length = (packets.filter _).length := congrArg Prod.fst same
  have narrower : packets.filter (fun q => (secs graph.start q : Int) = s)
      = (packets.filter fun q => secs graph.start q % graph.capacity
          = graph.slot (secs graph.start p)).filter fun q => (secs graph.start q : Int) = s := by
    rw [List.filter_filter]
    apply List.filter_congr
    intro q _
    by_cases second : (secs graph.start q : Int) = s
    · rw [← second] at falls
      have inBucket := Int.ofNat.inj ((Int.natCast_mod _ _).trans falls)
      simp [second, inBucket]
    · simp [second]
  rw [narrower] at counts
  apply absurd counts.symm (Nat.ne_of_lt _)
  apply List.length_filter_lt_length_iff_exists.mpr
  refine ⟨p, by simp [member, slot], ?_⟩
  simp only [decide_eq_true_eq]
  omega

/-- The graph shows the last seconds after each packet if and only if all the packets of the
capture lie within as many seconds as it has buckets. -/
theorem shows_window_iff (start capacity : Nat) (packets : List TimedPacket)
    (ordered : InOrder packets) :
    (∀ seen last rest, packets = seen ++ last :: rest →
      (run start capacity (seen ++ [last])).ShowsWindow (seen ++ [last]) (secs start last)) ↔
        ∀ p ∈ packets, ∀ q ∈ packets, secs start p < secs start q + max capacity 1 := by
  constructor
  · intro shows p first q second
    by_contra far
    obtain ⟨seen, rest, rfl⟩ := List.append_of_mem first
    have before : q ∈ seen ++ [p] := by
      rcases List.mem_append.mp second with early | later
      · exact List.mem_append_left _ early
      · rcases List.mem_cons.mp later with rfl | behind
        · exact List.mem_append_right _ List.mem_cons_self
        · have order := (List.pairwise_cons.mp (List.pairwise_append.mp ordered).2.1).1 q behind
          have := secs_mono start order
          omega
    obtain ⟨started, sized, holds⟩ := run_spec start capacity (seen ++ [p])
    apply stale_of_far holds before _ (shows seen p rest rfl)
    rw [started, sized]
    omega
  · rintro close seen last rest rfl
    obtain ⟨started, sized, holds⟩ := run_spec start capacity (seen ++ [last])
    apply shows_of_close holds
    · intro p member
      rw [started]
      exact secs_le_last ordered start member
    · intro p member
      rw [started, sized]
      apply close last (by simp)
      rcases List.mem_append.mp member with before | here
      · exact List.mem_append_left _ before
      · exact List.mem_append_right _ (List.mem_cons.mpr (.inl (List.mem_singleton.mp here)))

/-- A packet of two octets that arrives in the second `n`. -/
def arrival (n : Nat) : TimedPacket :=
  { linkType := .raw, data := [0, 0], instant := n * 10 ^ 9 }

/-- Within two seconds, in a graph of two buckets. -/
theorem shows_window_two :
    (∀ seen last rest, [arrival 7, arrival 8] = seen ++ last :: rest →
      (run 0 2 (seen ++ [last])).ShowsWindow (seen ++ [last]) (secs 0 last)) ↔
        ∀ p ∈ [arrival 7, arrival 8], ∀ q ∈ [arrival 7, arrival 8],
          secs 0 p < secs 0 q + max 2 1 :=
  shows_window_iff 0 2 [arrival 7, arrival 8] (by decide)

/-- Two packets an hour apart are in one bucket. -/
theorem stale_second_kept :
    InOrder [arrival 0, arrival 3600] ∧
      (run 0 120 [arrival 0, arrival 3600]).packetSeries[0]? = some 2 ∧
      ¬ ∀ seen last rest, [arrival 0, arrival 3600] = seen ++ last :: rest →
        (run 0 120 (seen ++ [last])).ShowsWindow (seen ++ [last]) (secs 0 last) := by
  refine ⟨by decide, by decide +kernel, fun shows => ?_⟩
  obtain ⟨started, sized, holds⟩ := run_spec 0 120 [arrival 0, arrival 3600]
  apply stale_of_far holds List.mem_cons_self _ (shows [arrival 0] (arrival 3600) [] rfl)
  rw [started, sized]
  decide

end IoGraph

end BitBeak
