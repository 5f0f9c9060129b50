import Mathlib.Data.Int.Order.Basic
import Mathlib.Order.Basic

/-! Choices with hysteresis.

    One of the values is kept as long as its cost is within a threshold of the least. Two values are compared at a
    time, which is not transitive, and yet what a whole set comes to does not depend on the order. -/

namespace Lib

variable {α : Type*} {cost : α → Int} {threshold : Int} {kept : Option α} {S : α → Prop} {a b : α}

def closeChoice [DecidableEq α] (cost : α → Int) (threshold : Int) (kept : Option α) (a b : α) : α :=
  if (some a = kept ∨ some b = kept) ∧ cost a < cost b + threshold ∧ cost b - threshold < cost a then kept.getD a
  else if cost a < cost b then a else b

/-- A value of the set is within the threshold of all of them. -/
def Close (cost : α → Int) (threshold : Int) (S : α → Prop) (k : α) : Prop :=
  S k ∧ ∀ q, S q → cost k < cost q + threshold

/-- The kept value is chosen where it is close, and one with the least cost where it is not. -/
structure Chosen (cost : α → Int) (threshold : Int) (kept : Option α) (S : α → Prop) (best : α) : Prop where
  mem : S best
  stays : ∀ k, kept = some k → Close cost threshold S k → best = k
  least : (∀ k, kept = some k → ¬ Close cost threshold S k) → ∀ q, S q → cost best ≤ cost q

/-- The set with one more value. -/
def More (S : α → Prop) (b : α) (q : α) : Prop := S q ∨ q = b

/-- A set of one value. -/
theorem Chosen.single (h : ∀ q, S q ↔ q = a) : Chosen cost threshold kept S a :=
  ⟨(h a).2 rfl, fun k _ hk => ((h k).1 hk.1).symm, fun _ q hq => by rw [(h q).1 hq]⟩

theorem Chosen.congr {S' : α → Prop} (hs : ∀ q, S q ↔ S' q) (h : Chosen cost threshold kept S a) :
    Chosen cost threshold kept S' a := by
  rwa [show S' = S from funext fun q => propext (hs q).symm]

section
variable (h : Chosen cost threshold kept S a)
include h

/-- Where the kept value is not close to a set that it belongs to, the chosen one has a cost lower by the threshold. -/
theorem Chosen.far {k q : α} (hkept : kept = some k)
    (hq : S q) (hfar : cost q + threshold ≤ cost k) : cost a ≤ cost q := by
  refine h.least (fun k' hk' hclose => ?_) q hq
  obtain rfl : k = k' := Option.some.inj (hkept.symm.trans hk')
  have := hclose.2 q hq
  omega

/-- STEP: the choice between the chosen one and another value is the chosen one of both. -/
theorem Chosen.closeChoice [DecidableEq α] :
    Chosen cost threshold kept (More S b) (closeChoice cost threshold kept a b) := by
  unfold Lib.closeChoice
  split
  · -- the kept value is one of the two, and they are close
    rename_i hcond
    obtain ⟨hkept, hab, hba⟩ := hcond
    obtain ⟨k, hk⟩ : ∃ k, kept = some k := by
      rcases hkept with h | h
      · exact ⟨a, h.symm⟩
      · exact ⟨b, h.symm⟩
    rw [hk, Option.some.injEq, Option.some.injEq] at hkept
    rw [hk, Option.getD_some]
    have hnear : cost k < cost a + threshold ∧ cost k < cost b + threshold := by
      rcases hkept with rfl | rfl <;> constructor <;> omega
    have hmem : More S b k := by
      rcases hkept with rfl | rfl
      · exact .inl h.mem
      · exact .inr rfl
    refine ⟨hmem, fun k' hk' _ => Option.some.inj hk', fun hnot => absurd ⟨hmem, fun q hq => ?_⟩ (hnot k rfl)⟩
    rcases hq with hq | rfl
    · by_contra hfar
      have := h.far hk hq (by omega)
      omega
    · exact hnear.2
  next hcond =>
    have hlower : ∀ r, r = (if cost a < cost b then a else b) → cost r ≤ cost a ∧ cost r ≤ cost b := by
      rintro r rfl
      split <;> omega
    refine ⟨?_, fun k hk hclose => ?_, fun hnot q hq => ?_⟩
    · split
      · exact .inl h.mem
      · exact .inr rfl
    · have hkb := hclose.2 b (.inr rfl)
      have hka := hclose.2 a (.inl h.mem)
      rcases hclose.1 with hkS | rfl
      · -- the kept value was chosen before
        obtain rfl := h.stays k hk ⟨hkS, fun q hq => hclose.2 q (.inl hq)⟩
        rw [if_pos]
        by_contra hle
        exact hcond ⟨.inl hk.symm, hkb, by omega⟩
      · rw [if_neg]
        intro hlt
        exact hcond ⟨.inr hk.symm, by omega, by omega⟩
    · have hr := hlower _ rfl
      rcases hq with hq | rfl
      · by_cases hold : ∀ k, kept = some k → ¬ Close cost threshold S k
        · exact le_trans hr.1 (h.least hold q hq)
        · -- the kept value was close before, and the new one is lower by the threshold
          push Not at hold
          obtain ⟨k, hk, hclose⟩ := hold
          have hfar : cost b + threshold ≤ cost k := by
            by_contra hlt
            refine hnot k hk ⟨.inl hclose.1, fun q hq => ?_⟩
            rcases hq with hq | rfl
            · exact hclose.2 q hq
            · omega
          have := hclose.2 q hq
          omega
      · exact hr.2

theorem Chosen.lt (ht : 0 < threshold) {q : α} (hq : S q) :
    cost a < cost q + threshold := by
  by_cases hnot : ∀ k, kept = some k → ¬ Close cost threshold S k
  · have := h.least hnot q hq
    omega
  · push Not at hnot
    obtain ⟨k, hk, hclose⟩ := hnot
    rw [h.stays k hk hclose]
    exact hclose.2 q hq

end

theorem Chosen.cost_eq (ha : Chosen cost threshold kept S a) (hb : Chosen cost threshold kept S b) :
    cost a = cost b := by
  by_cases hnot : ∀ k, kept = some k → ¬ Close cost threshold S k
  · exact le_antisymm (ha.least hnot b hb.mem) (hb.least hnot a ha.mem)
  · push Not at hnot
    obtain ⟨k, hk, hclose⟩ := hnot
    rw [ha.stays k hk hclose, hb.stays k hk hclose]

end Lib
