import Mathlib.Data.List.FinRange

/-! Counting the indices below `n` that meet a condition, when the condition changes at one index, and counters of
    eight bits. -/

namespace Lib

open List

/-- The number of indices with `p`. -/
def countFin {n : Nat} (p : Fin n → Bool) : Nat := (finRange n).countP p

variable {n : Nat} {p q : Fin n → Bool}

theorem countFin_congr (h : ∀ i, p i = q i) : countFin p = countFin q := countP_congr fun i _ => by rw [h i]

theorem countFin_eq_zero : countFin p = 0 ↔ ∀ i, p i = false := by
  rw [countFin, countP_eq_zero]
  constructor
  · exact fun h i => Bool.eq_false_iff.mpr (h i (mem_finRange i))
  · exact fun h i _ => Bool.eq_false_iff.mp (h i)

theorem countP_insert {α : Type} {p q : α → Bool} {x : α} (hx : p x = false) (hx' : q x = true)
    (h : ∀ y, y ≠ x → q y = p y) : ∀ {l : List α}, l.Nodup → x ∈ l → l.countP q = l.countP p + 1
  | y :: l, hnd, hmem => by
    obtain ⟨hy, hnd⟩ := nodup_cons.mp hnd
    by_cases hxy : y = x
    · subst hxy
      rw [countP_cons_of_pos hx', countP_cons_of_neg (by rw [hx]; decide)]
      rw [countP_congr fun z hz => by rw [h z fun hzy => hy (hzy ▸ hz)]]
    · have hin : x ∈ l := (mem_cons.mp hmem).resolve_left fun h => hxy h.symm
      have ih := countP_insert hx hx' h hnd hin
      rw [countP_cons, countP_cons, ih, h y hxy]
      omega

/-- One index more. -/
theorem countFin_insert {i : Fin n} (hi : p i = false) (hi' : q i = true) (h : ∀ j, j ≠ i → q j = p j) :
    countFin q = countFin p + 1 :=
  countP_insert hi hi' h (nodup_finRange n) (mem_finRange i)

theorem toNat_succ_uint8 {r : UInt8} (h : r.toNat < 255) : (r + 1).toNat = r.toNat + 1 := by
  rw [UInt8.toNat_add, UInt8.toNat_one]
  exact Nat.mod_eq_of_lt (Nat.succ_lt_succ h)

theorem toNat_pred_uint8 {r : UInt8} (h : 0 < r.toNat) : (r - 1).toNat = r.toNat - 1 :=
  UInt8.toNat_sub_of_le _ _ (UInt8.le_iff_toNat_le.mpr h)

end Lib
