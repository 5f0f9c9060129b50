import Mathlib.Data.Nat.Bitwise
import Mathlib.Tactic.Ring

/-! Counting leading zeros with masks.

    A `w`-bit value is tested against the mask of its top `i` bits; where all of them are zero, `i` is
    added to the count and the value moves up by `i` places. Whatever widths `i` are tried, what has
    been counted can be shifted out without losing a bit: `Counts.narrow`. -/

namespace Lib.LeadingZeros

/-- The mask of the top `i` of `w` bits. -/
def top (w i : Nat) : Nat := (2 ^ i - 1) <<< (w - i)

/-- One test: `(zeros, value)` after trying the mask of `i` bits. -/
def narrow (w mask i : Nat) (s : Nat × Nat) : Nat × Nat :=
  if s.2 &&& mask = 0 then (s.1 + i, (s.2 <<< i) % 2 ^ w) else s

/-- The value has moved up by what was counted, and lost nothing. -/
def Counts (w v : Nat) (s : Nat × Nat) : Prop := s.2 = v * 2 ^ s.1 ∧ s.2 < 2 ^ w

variable {w i v : Nat} {s : Nat × Nat}

theorem and_top (hi : i ≤ w) (hv : v < 2 ^ w) : v &&& top w i = (v / 2 ^ (w - i)) * 2 ^ (w - i) := by
  apply Nat.eq_of_testBit_eq
  intro k
  rw [top, Nat.testBit_and, Nat.testBit_shiftLeft, Nat.testBit_two_pow_sub_one, Nat.testBit_mul_two_pow,
    Nat.testBit_div_two_pow]
  rcases lt_or_ge k (w - i) with hk | hk
  · have : ¬ w - i ≤ k := by omega
    simp [this]
  · rw [show k - (w - i) + (w - i) = k by omega]
    rcases lt_or_ge k w with hkw | hkw
    · have : k - (w - i) < i := by omega
      simp [hk, this]
    · have hbit : v.testBit k = false :=
        Nat.testBit_lt_two_pow (lt_of_lt_of_le hv (Nat.pow_le_pow_right (by decide) hkw))
      simp [hbit]

theorem and_top_eq_zero (hi : i ≤ w) (hv : v < 2 ^ w) : v &&& top w i = 0 ↔ v < 2 ^ (w - i) := by
  rw [and_top hi hv, Nat.mul_eq_zero, Nat.div_eq_zero_iff]
  simp

/-- STEP: a test counts only what is there. -/
theorem Counts.narrow (h : Counts w v s) (hi : i ≤ w) : Counts w v (narrow w (top w i) i s) := by
  unfold LeadingZeros.narrow
  split
  next hz =>
    have hlt : s.2 < 2 ^ (w - i) := (and_top_eq_zero hi h.2).mp hz
    have hup : s.2 * 2 ^ i < 2 ^ w := by
      calc s.2 * 2 ^ i < 2 ^ (w - i) * 2 ^ i := Nat.mul_lt_mul_of_pos_right hlt (Nat.two_pow_pos _)
        _ = 2 ^ w := by rw [← pow_add]; congr 1; omega
    refine ⟨?_, Nat.mod_lt _ (Nat.two_pow_pos _)⟩
    rw [Nat.shiftLeft_eq, Nat.mod_eq_of_lt hup, h.1, pow_add]
    ring
  · exact h

/-- The last test, of one bit, finds at least the zero that is there. -/
theorem narrow_one_pos (hw : 1 ≤ w) (h : Counts w v s) (hv : v < 2 ^ (w - 1)) : 1 ≤ (narrow w (top w 1) 1 s).1 := by
  unfold narrow
  split
  · exact Nat.le_add_left 1 s.1
  next hz =>
    rw [and_top_eq_zero hw h.2] at hz
    by_contra h0
    have hzero : s.1 = 0 := by omega
    rw [h.1, hzero, pow_zero, mul_one] at hz
    exact hz hv

/-- A positive value leaves less than `w` zeros to count. -/
theorem Counts.lt (h : Counts w v s) (hv : 1 ≤ v) : s.1 < w := by
  have hle : 2 ^ s.1 ≤ s.2 := by
    rw [h.1]; exact Nat.le_mul_of_pos_left _ hv
  exact (Nat.pow_lt_pow_iff_right (by decide)).mp (lt_of_le_of_lt hle h.2)

/-- What was counted can be shifted out of any value up to the one above. -/
theorem Counts.succ_mul_le (h : Counts w v s) (hs : s.1 ≤ w) : (v + 1) * 2 ^ s.1 ≤ 2 ^ w := by
  have hlt : v * 2 ^ s.1 < 2 ^ (w - s.1) * 2 ^ s.1 := by
    rw [← pow_add, Nat.sub_add_cancel hs, ← h.1]; exact h.2
  have hv : v < 2 ^ (w - s.1) := Nat.lt_of_mul_lt_mul_right hlt
  calc (v + 1) * 2 ^ s.1 ≤ 2 ^ (w - s.1) * 2 ^ s.1 := Nat.mul_le_mul_right _ hv
    _ = 2 ^ w := by rw [← pow_add, Nat.sub_add_cancel hs]

end Lib.LeadingZeros
