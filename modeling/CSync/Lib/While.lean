import Mathlib.Tactic.Common

/-! While loops.

    A loop tests its condition and runs its body again and again, `fuel` times at most; `none` stands for a loop that
    is not over. A measure makes it end (`whileLoop_ends`), an invariant under which the condition always holds makes
    it go on for ever (`whileLoop_forever`), and what the body keeps holds of the result, where the condition does not
    (`whileLoop_result`). -/

namespace Lib

variable {σ : Type}

def whileLoop (cond : σ → Bool) (body : σ → σ) : Nat → σ → Option σ
  | 0, _ => none
  | fuel + 1, s => if cond s then whileLoop cond body fuel (body s) else some s

variable {cond : σ → Bool} {body : σ → σ} {I : σ → Prop}

/-- INVARIANT RULE: what the body keeps, the result has. -/
theorem whileLoop_result (hbody : ∀ s, I s → cond s = true → I (body s)) : ∀ {fuel : Nat} {s t : σ}, I s →
    whileLoop cond body fuel s = some t → I t ∧ cond t = false
  | 0, _, _, _, h => by cases h
  | fuel + 1, s, t, hs, h => by
    rw [whileLoop] at h
    split at h
    next hcond =>
      have ih : I t ∧ cond t = false := whileLoop_result hbody (hbody s hs hcond) h
      exact ih
    next hcond =>
      cases h
      exact ⟨hs, Bool.eq_false_iff.mpr hcond⟩

/-- TERMINATION: a measure that decreases. -/
theorem whileLoop_ends (μ : σ → Nat) (hbody : ∀ s, I s → cond s = true → I (body s) ∧ μ (body s) < μ s) :
    ∀ {fuel : Nat} {s : σ}, I s → μ s < fuel → (whileLoop cond body fuel s).isSome
  | 0, _, _, h => absurd h (Nat.not_lt_zero _)
  | fuel + 1, s, hs, h => by
    rw [whileLoop]
    split
    next hcond =>
      obtain ⟨hnext, hless⟩ := hbody s hs hcond
      exact whileLoop_ends μ hbody hnext (Nat.lt_of_lt_of_le hless (Nat.le_of_lt_succ h))
    · rfl

/-- DIVERGENCE: an invariant under which the condition holds. -/
theorem whileLoop_forever (hcond : ∀ s, I s → cond s = true) (hbody : ∀ s, I s → I (body s)) :
    ∀ (fuel : Nat) {s : σ}, I s → whileLoop cond body fuel s = none
  | 0, _, _ => rfl
  | fuel + 1, s, hs => by
    rw [whileLoop, if_pos (hcond s hs)]
    exact whileLoop_forever hcond hbody fuel (hbody s hs)

theorem whileLoop_mono : ∀ {fuel more : Nat} {s t : σ}, fuel ≤ more → whileLoop cond body fuel s = some t →
    whileLoop cond body more s = some t
  | 0, _, _, _, _, h => by cases h
  | fuel + 1, 0, _, _, hle, _ => absurd hle (Nat.not_succ_le_zero _)
  | fuel + 1, more + 1, s, t, hle, h => by
    rw [whileLoop] at h ⊢
    split at h
    next hcond =>
      rw [if_pos hcond]
      exact whileLoop_mono (Nat.le_of_succ_le_succ hle) h
    next hcond =>
      rw [if_neg hcond]
      exact h

/-- TRACE: the states of a loop, one after the other, up to the first where the condition does not hold. -/
theorem whileLoop_trace (s : Nat → σ) {n : Nat} (hcond : ∀ k < n, cond (s k) = true)
    (hbody : ∀ k < n, body (s k) = s (k + 1)) (hend : cond (s n) = false) {k : Nat} (hk : k ≤ n) :
    whileLoop cond body (n - k + 1) (s k) = some (s n) := by
  obtain ⟨d, rfl⟩ := Nat.exists_eq_add_of_le hk
  rw [Nat.add_sub_cancel_left]
  induction d generalizing k with
  | zero =>
    rw [Nat.add_zero] at hend ⊢
    rw [whileLoop, if_neg (by rw [hend]; decide), Nat.add_zero]
  | succ d ih =>
    have hlast : k + (d + 1) = k + 1 + d := by omega
    rw [whileLoop, if_pos (hcond k (by omega)), hbody k (by omega)]
    rw [hlast] at hcond hbody hend ⊢
    exact ih hcond hbody hend (by omega)

end Lib
