import Mathlib.Algebra.Group.Nat.Defs
import Mathlib.Algebra.Ring.Int.Defs

/-! Unsigned words read as signed ones.

    A conversion to `Int32` keeps the bits, so a difference of two converted words is the difference of the words as
    long as that fits. -/

namespace Lib

theorem toInt_toInt32 (a : UInt32) : a.toInt32.toInt = (a.toNat : Int).bmod (2 ^ 32) := BitVec.toInt_eq_toNat_bmod _

theorem bmod_of_between {n : Int} (hlo : -2 ^ 31 ≤ n) (hhi : n < 2 ^ 31) : n.bmod (2 ^ 32) = n := by
  apply Int.bmod_eq_of_le_mul_two <;> omega

theorem toInt_of_small {a : UInt32} (h : a.toNat < 2 ^ 31) : a.toInt32.toInt = a.toNat := by
  rw [toInt_toInt32]
  exact bmod_of_between (by omega) (by omega)

/-- A difference that fits. -/
theorem toInt_sub_toInt32 {a b : UInt32} (hlo : -2 ^ 31 ≤ (a.toNat : Int) - b.toNat)
    (hhi : (a.toNat : Int) - b.toNat < 2 ^ 31) : (a.toInt32 - b.toInt32).toInt = a.toNat - b.toNat := by
  rw [Int32.toInt_sub, toInt_toInt32, toInt_toInt32, Int.sub_bmod_bmod, Int.bmod_sub_bmod]
  exact bmod_of_between hlo hhi

/-- The word of a signed one. -/
theorem toNat_toUInt32 (d : Int32) : (d.toUInt32.toNat : Int) = if 0 ≤ d.toInt then d.toInt else d.toInt + 2 ^ 32 := by
  have hcond : d.toInt = if 2 * d.toUInt32.toNat < 2 ^ 32 then (d.toUInt32.toNat : Int) else d.toUInt32.toNat - 2 ^ 32 :=
    BitVec.toInt_eq_toNat_cond _
  have hlt : d.toUInt32.toNat < 2 ^ 32 := d.toUInt32.toNat_lt
  split at hcond <;> split <;> omega

/-- A signed word is taken off an unsigned one, and the result wraps. -/
theorem toNat_sub_toUInt32 {a : UInt32} {d : Int32} (hhi : (a.toNat : Int) - d.toInt < 2 ^ 32) :
    ((a - d.toUInt32).toNat : Int) = if d.toInt ≤ a.toNat then a.toNat - d.toInt else a.toNat - d.toInt + 2 ^ 32 := by
  have hword := toNat_toUInt32 d
  have hd := Int32.toInt_lt d
  rw [UInt32.toNat_sub]
  split at hword <;> split <;> omega

theorem natAbs_toInt_le (a : Int32) : a.toInt.natAbs ≤ 2 ^ 31 := by
  have hlt := Int32.toInt_lt a
  have hle := Int32.le_toInt a
  omega

/-- Sums do not grow by wrapping. -/
theorem natAbs_toInt_add_le (a b : Int32) : (a + b).toInt.natAbs ≤ a.toInt.natAbs + b.toInt.natAbs := by
  by_cases hfit : -2 ^ 31 ≤ a.toInt + b.toInt ∧ a.toInt + b.toInt < 2 ^ 31
  · rw [Int32.toInt_add, bmod_of_between hfit.1 hfit.2]
    omega
  · have hle := natAbs_toInt_le (a + b)
    omega

/-- Nor do quotients. -/
theorem natAbs_toInt_div_le {a b : Int32} {m : Nat} (hb : 0 < b.toInt) (h : (a.toInt.natAbs : Int) ≤ b.toInt * m) :
    (a / b).toInt.natAbs ≤ m := by
  have hquot : (a.toInt.tdiv b.toInt).natAbs = a.toInt.natAbs / b.toInt.natAbs := Int.natAbs_tdiv ..
  have hle : a.toInt.natAbs / b.toInt.natAbs ≤ m := by
    refine Nat.div_le_of_le_mul ?_
    have habs : (b.toInt.natAbs : Int) = b.toInt := Int.natAbs_of_nonneg (Int.le_of_lt hb)
    have hcast : ((b.toInt.natAbs * m : Nat) : Int) = b.toInt * m := by rw [Int.natCast_mul, habs]
    omega
  have hsmall : (a.toInt.tdiv b.toInt).natAbs ≤ a.toInt.natAbs := hquot ▸ Nat.div_le_self _ _
  have hrange := natAbs_toInt_le a
  by_cases hfit : a.toInt.tdiv b.toInt < 2 ^ 31
  · rw [Int32.toInt_div, bmod_of_between (by omega) hfit, hquot]
    exact hle
  · have hrange' := natAbs_toInt_le (a / b)
    omega

end Lib
