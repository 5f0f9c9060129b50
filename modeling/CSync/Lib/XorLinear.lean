/-! Maps of bit vectors that are linear over exclusive or.

    Such a map is known from what it makes of the words with a single bit. -/

namespace Lib

variable {k m n : Nat} {f g : BitVec m → BitVec n}

/-- Exclusive or goes through the map. -/
def XorLinear (f : BitVec m → BitVec n) : Prop := ∀ x y, f (x ^^^ y) = f x ^^^ f y

/-! ### Linear maps -/

theorem xorLinear_id : XorLinear fun x : BitVec m => x := fun _ _ => rfl

theorem XorLinear.comp {h : BitVec n → BitVec k} (hh : XorLinear h) (hf : XorLinear f) : XorLinear fun x => h (f x) := by
  intro x y
  dsimp only
  rw [hf, hh]

theorem XorLinear.xor (hf : XorLinear f) (hg : XorLinear g) : XorLinear fun x => f x ^^^ g x := by
  intro x y
  dsimp only
  rw [hf, hg]
  ac_rfl

theorem xorLinear_shiftLeft (i : Nat) : XorLinear fun x : BitVec m => x <<< i :=
  fun x y => BitVec.shiftLeft_xor_distrib x y i

theorem xorLinear_shiftRight (i : Nat) : XorLinear fun x : BitVec m => x >>> i :=
  fun x y => BitVec.ushiftRight_xor_distrib x y i

theorem xorLinear_setWidth : XorLinear fun x : BitVec m => x.setWidth n := fun _ _ => BitVec.setWidth_xor

theorem xorLinear_and (mask : BitVec m) : XorLinear fun x => x &&& mask := by
  intro x y
  apply BitVec.eq_of_getLsbD_eq
  intro i _
  simp only [BitVec.getLsbD_and, BitVec.getLsbD_xor]
  cases x.getLsbD i <;> cases y.getLsbD i <;> cases mask.getLsbD i <;> rfl

theorem xorLinear_select (i : Nat) (word : BitVec n) : XorLinear fun x : BitVec m => if x.getLsbD i then word else 0 := by
  intro x y
  dsimp only
  rw [BitVec.getLsbD_xor]
  cases x.getLsbD i <;> cases y.getLsbD i <;> simp

theorem XorLinear.zero (hf : XorLinear f) : f 0 = 0 := by
  have h := hf 0 0
  rwa [BitVec.xor_self, BitVec.xor_self] at h

theorem XorLinear.ext (hf : XorLinear f) (hg : XorLinear g)
    (h : ∀ i < m, f (BitVec.twoPow m i) = g (BitVec.twoPow m i)) (x : BitVec m) : f x = g x := by
  -- by the number of low bits beyond which there are none
  have hlow : ∀ (b : Nat) (x : BitVec m), (∀ i, b ≤ i → x.getLsbD i = false) → f x = g x := by
    intro b
    induction b with
    | zero =>
      intro x hx
      have hzero : x = 0 := BitVec.eq_of_getLsbD_eq fun i _ => by simpa using hx i (Nat.zero_le i)
      rw [hzero, hf.zero, hg.zero]
    | succ b ih =>
      intro x hx
      by_cases hbit : x.getLsbD b = true
      · have hb : b < m := Nat.lt_of_not_le fun hle => by simp [BitVec.getLsbD_of_ge x b hle] at hbit
        have hrest : f (x ^^^ BitVec.twoPow m b) = g (x ^^^ BitVec.twoPow m b) := by
          refine ih _ fun i hi => ?_
          rw [BitVec.getLsbD_xor, BitVec.getLsbD_twoPow]
          by_cases hib : b = i
          · rw [← hib, hbit]
            simp [hb]
          · rw [hx i (by omega)]
            simp [hib]
        have hsplit : x = (x ^^^ BitVec.twoPow m b) ^^^ BitVec.twoPow m b := by
          rw [BitVec.xor_assoc, BitVec.xor_self, BitVec.xor_zero]
        rw [hsplit, hf, hg, hrest, h b hb]
      · refine ih x fun i hi => ?_
        by_cases hib : i = b
        · rw [hib]
          exact Bool.eq_false_iff.mpr hbit
        · exact hx i (by omega)
  exact hlow m x fun i hi => BitVec.getLsbD_of_ge x i hi

end Lib
