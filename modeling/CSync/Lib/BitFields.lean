import Mathlib.Data.Nat.Bitwise

/-! Fields of bits in a buffer.

    The bits of a buffer are counted from the high bit of its first byte on. `Written m m' o n w` says that a field
    of `n` bits at bit `o` was written, with the bits `w`, and nothing else. -/

namespace Lib

/-- A bit of a buffer, the high bit of a byte first. -/
def bitAt (m : Nat → UInt8) (i : Nat) : Bool := (m (i / 8)).toNat.testBit (7 - i % 8)

/-- `m'` is `m` with the bits `w` in the field of `n` bits at bit `o`. -/
def Written (m m' : Nat → UInt8) (o n : Nat) (w : Nat → Bool) : Prop :=
  ∀ i, bitAt m' i = if o ≤ i ∧ i < o + n then w (i - o) else bitAt m i

/-- The bits of a field are zero. -/
def ClearFrom (m : Nat → UInt8) (o n : Nat) : Prop := ∀ i, o ≤ i → i < o + n → bitAt m i = false

variable {m m' m'' : Nat → UInt8} {o n k : Nat} {v w : Nat → Bool}

theorem testBit_byte (b : UInt8) {j : Nat} (hj : 8 ≤ j) : b.toNat.testBit j = false :=
  Nat.testBit_lt_two_pow (lt_of_lt_of_le b.toNat_lt (Nat.pow_le_pow_right (by decide) hj))

theorem byte_ext {a b : UInt8} (h : ∀ j < 8, a.toNat.testBit j = b.toNat.testBit j) : a = b := by
  refine UInt8.toNat_inj.mp (Nat.eq_of_testBit_eq fun j => ?_)
  by_cases hj : j < 8
  · exact h j hj
  · rw [testBit_byte a (by omega), testBit_byte b (by omega)]

theorem written_nil (m : Nat → UInt8) (o : Nat) (w : Nat → Bool) : Written m m o 0 w := by
  intro i
  rw [if_neg (by omega)]

section
variable (h : Written m m' o n w)
include h

theorem Written.congr (hvw : ∀ t < n, w t = v t) : Written m m' o n v := by
  intro i
  rw [h i]
  split
  · exact hvw _ (by omega)
  · rfl

theorem Written.outside {i : Nat} (hi : i < o ∨ o + n ≤ i) : bitAt m' i = bitAt m i := by
  rw [h i, if_neg (by omega)]

theorem Written.inside {t : Nat} (ht : t < n) : bitAt m' (o + t) = w t := by
  rw [h (o + t), if_pos (by omega), Nat.add_sub_cancel_left]

/-- Two fields, one behind the other. -/
theorem Written.append (h' : Written m' m'' (o + n) k v) :
    Written m m'' o (n + k) fun t => if t < n then w t else v (t - n) := by
  intro i
  rw [h' i]
  by_cases hlo : o + n ≤ i ∧ i < o + n + k
  · rw [if_pos hlo, if_pos (by omega)]
    dsimp only
    rw [if_neg (by omega), Nat.sub_sub]
  · rw [if_neg hlo, h i]
    by_cases hin : o ≤ i ∧ i < o + n
    · rw [if_pos hin, if_pos (by omega)]
      dsimp only
      rw [if_pos (by omega)]
    · rw [if_neg hin, if_neg (by omega)]

theorem Written.clear {p q : Nat} (hp : o + n ≤ p) (hclear : ClearFrom m p q) :
    ClearFrom m' p q := by
  intro i hlo hhi
  rw [h.outside (.inr (by omega))]
  exact hclear i hlo hhi

end

/-- A byte is replaced. -/
theorem written_update (m : Nat → UInt8) (p : Nat) (b : UInt8) :
    Written m (Function.update m p b) (8 * p) 8 fun t => b.toNat.testBit (7 - t) := by
  intro i
  rw [bitAt]
  by_cases hi : 8 * p ≤ i ∧ i < 8 * p + 8
  · have hdiv : i / 8 = p := by omega
    have hmod : i % 8 = i - 8 * p := by omega
    rw [if_pos hi, hdiv, Function.update_self, hmod]
  · have hdiv : i / 8 ≠ p := by omega
    rw [if_neg hi, Function.update_of_ne hdiv]
    rfl

theorem bitAt_byte (m : Nat → UInt8) (p : Nat) {s : Nat} (hs : s < 8) :
    bitAt m (8 * p + s) = (m p).toNat.testBit (7 - s) := by
  have hdiv : (8 * p + s) / 8 = p := by omega
  have hmod : (8 * p + s) % 8 = s := by omega
  rw [bitAt, hdiv, hmod]

end Lib
