import Mathlib.Algebra.Order.BigOperators.Group.Finset

/-! Pieces of a range.

    The range from 0 to below `total` is cut into pieces of `size`; the last one may be shorter, and the
    pieces behind the end are empty. Different pieces do not overlap, so together they are never longer than
    the range, and if they are as long as the range none is missing. -/

namespace Lib

/-- The length of the piece number `k`. -/
def pieceLen (size total k : Nat) : Nat := min size (total - k * size)

variable {size total : Nat}

theorem pieceLen_pos (hsize : 0 < size) {k : Nat} (hk : k * size < total) : 0 < pieceLen size total k := by
  rw [pieceLen]
  omega

/-- The first `m` pieces. -/
theorem sum_pieceLen (size total : Nat) : ∀ m : Nat,
    ∑ k ∈ Finset.range m, pieceLen size total k = min (m * size) total
  | 0 => by simp
  | m + 1 => by
    rw [Finset.sum_range_succ, sum_pieceLen size total m, pieceLen, Nat.succ_mul]
    omega

/-- How many pieces are not empty. -/
def pieceCount (size total : Nat) : Nat := (total + size - 1) / size

theorem lt_pieceCount (hsize : 0 < size) {k : Nat} : k < pieceCount size total ↔ k * size < total := by
  rw [pieceCount, Nat.lt_div_iff_mul_lt hsize]
  omega

/-- The first `m` pieces, laid side by side. -/
theorem flatMap_range' (a size total : Nat) : ∀ m : Nat,
    (List.range m).flatMap (fun k => List.range' (a + k * size) (pieceLen size total k)) =
      List.range' a (min (m * size) total)
  | 0 => by simp
  | m + 1 => by
    rw [List.range_succ, List.flatMap_append, flatMap_range' a size total m, List.flatMap_cons, List.flatMap_nil,
      List.append_nil, pieceLen]
    by_cases hend : m * size ≤ total
    · rw [min_eq_left hend, List.range'_append_1]
      congr 1
      rw [Nat.succ_mul]
      omega
    · have hnone : total - m * size = 0 := by omega
      rw [hnone, Nat.min_zero, List.range'_zero, List.append_nil, Nat.succ_mul]
      congr 1
      omega

theorem flatMap_pieces (a : Nat) (hsize : 0 < size) : (List.range (pieceCount size total)).flatMap (fun k =>
    List.range' (a + k * size) (pieceLen size total k)) = List.range' a total := by
  have hall : total ≤ pieceCount size total * size := by
    refine Nat.le_of_not_lt fun hlt => ?_
    exact absurd ((lt_pieceCount hsize).mpr hlt) (lt_irrefl _)
  rw [flatMap_range', min_eq_right hall]

section

variable {ι : Type} {held : Finset ι} {piece : ι → Nat}

/-- DIFFERENT PIECES together are not longer than the range. -/
theorem sum_pieces_le (hinj : Set.InjOn piece held) : ∑ j ∈ held, pieceLen size total (piece j) ≤ total := by
  obtain ⟨m, hm⟩ : ∃ m, held.image piece ⊆ Finset.range m := by
    refine ⟨(held.image piece).sup id + 1, fun k hk => ?_⟩
    rw [Finset.mem_range]
    exact Nat.lt_succ_of_le (Finset.le_sup (f := id) hk)
  calc ∑ j ∈ held, pieceLen size total (piece j)
      = ∑ k ∈ held.image piece, pieceLen size total k := (Finset.sum_image hinj).symm
    _ ≤ ∑ k ∈ Finset.range m, pieceLen size total k := Finset.sum_le_sum_of_subset hm
    _ = min (m * size) total := sum_pieceLen size total m
    _ ≤ total := min_le_right _ _

/-- AS LONG AS THE RANGE, different pieces are all of its pieces. -/
theorem exists_piece (hsize : 0 < size) (hinj : Set.InjOn piece held) (hsum : total ≤ ∑ j ∈ held, pieceLen size total
    (piece j)) {k : Nat} (hk : k * size < total) : ∃ j ∈ held, piece j = k := by
  by_contra hmissing
  -- with the missing piece added they would be longer than the range
  have hnew : k ∉ held.image piece := by
    rintro hmem
    obtain ⟨j, hj, rfl⟩ := Finset.mem_image.mp hmem
    exact hmissing ⟨j, hj, rfl⟩
  have hid : Set.InjOn (id : Nat → Nat) ↑(insert k (held.image piece)) := Set.injOn_id _
  have hall : ∑ n ∈ insert k (held.image piece), pieceLen size total n ≤ total := sum_pieces_le hid
  rw [Finset.sum_insert hnew, Finset.sum_image hinj] at hall
  have hpos := pieceLen_pos hsize hk
  omega

end

end Lib
