/-! Hops over the natural numbers.

    `next` leads from a place to one behind it. `Reached next n` are the places it leads to from 0 on, where it hops
    from places below `n` only. The hops cover what is below `n`, and do not overlap. -/

namespace Lib

/-- The places that are reached from 0. -/
inductive Reached (next : Nat → Nat) (n : Nat) : Nat → Prop
  | zero : Reached next n 0
  | hop {p : Nat} : Reached next n p → p < n → Reached next n (next p)

/-- Every hop goes forward. -/
def Forward (next : Nat → Nat) (n : Nat) : Prop := ∀ p, Reached next n p → p < n → p < next p

variable {next next' : Nat → Nat} {n p q : Nat}

theorem Reached.hop_le (hf : Forward next n) (hp : Reached next n p) (hpn : p < n) (hq : Reached next n q)
    (hlt : p < q) : next p ≤ q := by
  induction q using Nat.strongRecOn generalizing p with
  | ind q ih =>
    cases hq with
    | zero => exact absurd hlt (Nat.not_lt_zero p)
    | @hop r hr hrn =>
      have hforward := hf r hr hrn
      rcases Nat.lt_trichotomy p r with hpr | rfl | hrp
      · exact Nat.le_trans (ih r hforward hp hpn hr hpr) (Nat.le_of_lt hforward)
      · exact Nat.le_refl _
      · exact absurd (ih p hlt hr hrn hp hrp) (Nat.not_le.mpr hlt)

theorem exists_hop (hf : Forward next n) : ∀ a < n, ∃ p, Reached next n p ∧ p ≤ a ∧ a < next p := by
  intro a
  induction a with
  | zero => exact fun ha => ⟨0, .zero, Nat.le_refl 0, hf 0 .zero ha⟩
  | succ a ih =>
    intro ha
    obtain ⟨p, hp, hle, hlt⟩ := ih (by omega)
    by_cases hend : next p = a + 1
    · have hreached := hp.hop (by omega)
      rw [hend] at hreached
      exact ⟨a + 1, hreached, Nat.le_refl _, hf _ hreached ha⟩
    · exact ⟨p, hp, by omega, by omega⟩

/-- Hops that are the same up to a place lead to the same places up to it. -/
theorem Reached.upto (hf : Forward next n) {b : Nat} (hsame : ∀ p, Reached next n p → p < n → p < b → next' p = next
    p) (hp : Reached next n p) (hle : p ≤ b) : Reached next' n p := by
  induction hp with
  | zero => exact .zero
  | @hop p hp hpn ih =>
    have hforward := hf p hp hpn
    rw [← hsame p hp hpn (by omega)]
    exact (ih (by omega)).hop hpn

theorem reached_congr (hsame : ∀ p, Reached next n p → p < n → next' p = next p) :
    Reached next' n q ↔ Reached next n q := by
  constructor
  · intro hq
    induction hq with
    | zero => exact .zero
    | @hop p _ hpn ih =>
      rw [hsame p ih hpn]
      exact ih.hop hpn
  · intro hq
    induction hq with
    | zero => exact .zero
    | @hop p hp hpn ih =>
      rw [← hsame p hp hpn]
      exact ih.hop hpn

theorem Reached.invariant {P : Nat → Prop} (h0 : P 0) (hstep : ∀ p < n, P p → P (next p)) (hp : Reached next n p) :
    P p := by
  induction hp with
  | zero => exact h0
  | hop _ hpn ih => exact hstep _ hpn ih

theorem reached_of_not_over {P : Nat → Prop} (h0 : P 0) (hstep : ∀ p < n, P p → P (next p)) (hforward : ∀ p < n, P p →
    p < next p) (hqn : q < n) (hover : ∀ p < n, P p → p < q → next p ≤ q) : Reached next n q := by
  have hf : Forward next n := fun p hp hpn => hforward p hpn (hp.invariant h0 hstep)
  obtain ⟨p, hp, hle, hlt⟩ := exists_hop hf q hqn
  rcases Nat.lt_or_eq_of_le hle with hpq | rfl
  · exact absurd (hover p (by omega) (hp.invariant h0 hstep) hpq) (Nat.not_le.mpr hlt)
  · exact hp

end Lib
