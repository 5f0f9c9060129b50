import Mathlib.Data.List.Basic
import Mathlib.Tactic.Ring

/-! Big-endian numbers, and the words that they are shifted into byte by byte. -/

namespace Lib

/-- The number that bytes stand for, the highest one first. -/
def number : List UInt8 → Nat
  | [] => 0
  | b :: bs => b.toNat * 256 ^ bs.length + number bs

/-- STEP: a byte comes in behind the others. -/
theorem toNat_shiftIn (value : UInt32) (b : UInt8) :
    (value <<< 8 ||| b.toUInt32).toNat = (value.toNat * 256 + b.toNat) % 2 ^ 32 := by
  have hb := b.toNat_lt
  have hshift : (value <<< 8).toNat = (value.toNat % 2 ^ 24) <<< 8 := by
    rw [UInt32.toNat_shiftLeft, Nat.shiftLeft_eq, Nat.shiftLeft_eq]
    simp
    omega
  rw [UInt32.toNat_or, hshift, UInt8.toNat_toUInt32, ← Nat.shiftLeft_add_eq_or_of_lt hb, Nat.shiftLeft_eq]
  omega

/-- What bytes leave in a word: their number, cut off. -/
theorem toNat_foldl_shiftIn (bs : List UInt8) (value : UInt32) :
    (bs.foldl (fun (value : UInt32) b => value <<< 8 ||| b.toUInt32) value).toNat =
      (value.toNat * 256 ^ bs.length + number bs) % 2 ^ 32 := by
  induction bs generalizing value with
  | nil => simp [number, Nat.mod_eq_of_lt value.toNat_lt]
  | cons b bs ih =>
    rw [List.foldl_cons, ih, toNat_shiftIn, number, List.length_cons, pow_succ, ← Nat.mod_add_mod, Nat.mod_mul_mod,
      Nat.mod_add_mod]
    congr 1
    ring

theorem word16_bytes (value : UInt16) : (value >>> 8).toUInt8.toUInt16 <<< 8 ||| value.toUInt8.toUInt16 = value := by
  rw [← UInt16.toBitVec_inj]
  refine BitVec.eq_of_getLsbD_eq fun j hj => ?_
  simp only [UInt16.toBitVec_or, UInt16.toBitVec_shiftLeft, UInt8.toBitVec_toUInt16, UInt16.toBitVec_toUInt8,
    UInt16.toBitVec_shiftRight, BitVec.getLsbD_or, BitVec.getLsbD_setWidth]
  simp [hj]
  grind

theorem word32_bytes (value : UInt32) :
    (value >>> 24).toUInt8.toUInt32 <<< 24 ||| (value >>> 16).toUInt8.toUInt32 <<< 16 |||
      (value >>> 8).toUInt8.toUInt32 <<< 8 ||| value.toUInt8.toUInt32 =
      value := by
  rw [← UInt32.toBitVec_inj]
  refine BitVec.eq_of_getLsbD_eq fun j hj => ?_
  simp only [UInt32.toBitVec_or, UInt32.toBitVec_shiftLeft, UInt8.toBitVec_toUInt32, UInt32.toBitVec_toUInt8,
    UInt32.toBitVec_shiftRight, BitVec.getLsbD_or, BitVec.getLsbD_setWidth]
  simp [hj]
  grind

end Lib
