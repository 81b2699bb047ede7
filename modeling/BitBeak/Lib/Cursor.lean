import BitBeak.Lib.Bytes

/-! Fields written one behind the other, read at the place where they begin. The place is
what stands in front, so a reader that goes on by what it has read stays at the start of a
field. -/
namespace Wire

variable {front part rest bs : Bytes} {k n i : Nat}

theorem byteAt_here (b : UInt8) (at_i : i = front.length) : byteAt (front ++ b :: rest) i = .ok b := by
  subst at_i
  rw [byteAt, List.getElem?_append_right (Nat.le_refl _), Nat.sub_self]
  rfl

theorem beAt_here (small : n < 256 ^ k) (at_i : i = front.length) :
    beAt (front ++ (toBE k n ++ rest)) i k = n := by
  rw [beAt_append_right (by omega), at_i, Nat.sub_self, beAt_toBE small]

theorem readBE_here (small : n < 256 ^ k) (at_i : i = front.length) :
    readBE (front ++ (toBE k n ++ rest)) i k = .ok n := by
  have inside : i + k ≤ (front ++ (toBE k n ++ rest)).length := by
    simp only [List.length_append, length_toBE]
    omega
  rw [readBE_ok inside, beAt_here small at_i]

theorem slice_here (at_i : i = front.length) (width : n = i + part.length) :
    slice (front ++ (part ++ rest)) i n = .ok part := by
  have inside : n ≤ (front ++ (part ++ rest)).length := by
    simp only [List.length_append]
    omega
  rw [slice_ok (by omega) inside, span_middle at_i (by omega)]

end Wire
