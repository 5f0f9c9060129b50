import Mathlib.Tactic.Common

/-! Sets of small numbers as the bits of a byte. -/

namespace Lib

/-- `1 << i`, in eight bits. -/
def bit (i : Nat) : UInt8 := ⟨1#8 <<< i⟩

def HasBit (map : UInt8) (i : Nat) : Prop := map &&& bit i ≠ 0

instance (map : UInt8) (i : Nat) : Decidable (HasBit map i) := inferInstanceAs (Decidable (_ ≠ _))

def setBit (map : UInt8) (i : Nat) : UInt8 := map ||| bit i

def clearBit (map : UInt8) (i : Nat) : UInt8 := map &&& ~~~bit i

theorem toBitVec_bit (i : Nat) : (bit i).toBitVec = BitVec.twoPow 8 i := (BitVec.twoPow_eq 8 i).symm

variable {i : Nat}

theorem hasBit_iff (map : UInt8) (hi : i < 8) : HasBit map i ↔ map.toBitVec.getLsbD i = true := by
  rw [HasBit, ← UInt8.toBitVec_inj.ne, UInt8.toBitVec_and, toBitVec_bit, BitVec.and_twoPow]
  constructor
  · intro h
    by_contra hno
    rw [if_neg hno] at h
    exact h rfl
  · intro h
    rw [if_pos h]
    intro hzero
    have hbit := congrArg (fun v : BitVec 8 => v.getLsbD i) hzero
    simp [hi] at hbit

theorem hasBit_setBit (map : UInt8) {j : Nat} (hi : i < 8) (hj : j < 8) :
    HasBit (setBit map i) j ↔ i = j ∨ HasBit map j := by
  rw [hasBit_iff _ hj, hasBit_iff _ hj, setBit, UInt8.toBitVec_or, toBitVec_bit, BitVec.getLsbD_or,
    BitVec.getLsbD_twoPow, Bool.or_eq_true, Bool.and_eq_true, decide_eq_true_eq, decide_eq_true_eq, or_comm]
  exact or_congr_left (and_iff_right hi)

theorem hasBit_clearBit (map : UInt8) {j : Nat} (hj : j < 8) : HasBit (clearBit map i) j ↔ i ≠ j ∧ HasBit map j := by
  rw [hasBit_iff _ hj, hasBit_iff _ hj, clearBit, UInt8.toBitVec_and, UInt8.toBitVec_not, toBitVec_bit,
    BitVec.getLsbD_and, BitVec.getLsbD_not, BitVec.getLsbD_twoPow]
  by_cases h : i = j
  · subst h
    simp [hj]
  · simp [h, hj]

theorem hasBit_or (map map' : UInt8) (hi : i < 8) : HasBit (map ||| map') i ↔ HasBit map i ∨ HasBit map' i := by
  rw [hasBit_iff _ hi, hasBit_iff _ hi, hasBit_iff _ hi, UInt8.toBitVec_or, BitVec.getLsbD_or, Bool.or_eq_true]

theorem hasBit_and (map map' : UInt8) (hi : i < 8) : HasBit (map &&& map') i ↔ HasBit map i ∧ HasBit map' i := by
  rw [hasBit_iff _ hi, hasBit_iff _ hi, hasBit_iff _ hi, UInt8.toBitVec_and, BitVec.getLsbD_and, Bool.and_eq_true]

theorem hasBit_not (map : UInt8) (hi : i < 8) : HasBit (~~~map) i ↔ ¬HasBit map i := by
  rw [hasBit_iff _ hi, hasBit_iff _ hi, UInt8.toBitVec_not, BitVec.getLsbD_not, decide_eq_true hi, Bool.true_and,
    Bool.not_eq_true', Bool.not_eq_true]

theorem not_hasBit_zero (i : Nat) : ¬ HasBit 0 i := fun h => h UInt8.zero_and

theorem HasBit.ne_zero {map : UInt8} (h : HasBit map i) : map ≠ 0 := by
  rintro rfl
  exact not_hasBit_zero i h

end Lib
