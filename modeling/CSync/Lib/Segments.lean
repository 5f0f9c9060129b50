import CSync.Lib.Count
import Mathlib.Algebra.Group.Nat.Defs

/-! Numbers given out one after the other, from segments that are used again when they are empty.

    There are `segs` segments of `per` numbers. A counter runs through all of them and begins anew; a holder keeps the
    number it got until it gives it back. A segment is counted, it is spare when its last number came back while the
    counter was elsewhere, and the counter enters a segment only when nobody holds a number of it. So no number is
    held twice. -/

namespace Lib

open Function

variable {N : Nat}

/-- The holder has a number of the segment. -/
def inSegment (per : Nat) (ids : Fin N → Option Nat) (f : Nat) (b : Fin N) : Bool :=
  (ids b).any fun n => n / per == f

variable {f n : Nat} {b : Fin N}

theorem inSegment_iff {per : Nat} {ids : Fin N → Option Nat} :
    inSegment per ids f b = true ↔ ∃ n, ids b = some n ∧ n / per = f := by
  rw [inSegment, Option.any_eq_true]
  simp only [beq_iff_eq]

/-- The counter, the counts, the spare segments and the holders fit each other. -/
structure Segmented (per segs next : Nat) (usage : Nat → Int) (spare : Nat → Bool) (ids : Fin N → Option Nat) :
    Prop where
  next_lt : next < per * segs
  id_lt : ∀ b n, ids b = some n → n < per * segs
  inj : ∀ b c n, ids b = some n → ids c = some n → b = c
  behind : ∀ b n, ids b = some n → n / per = next / per → next % per = 0 ∨ n < next
  usage_eq : ∀ f < segs, usage f = countFin (inSegment per ids f)
  spare_empty : ∀ f < segs, spare f = true → usage f = 0
  spare_next : spare (next / per) = true → next % per = 0

variable {per segs next : Nat} {usage : Nat → Int} {spare : Nat → Bool} {ids : Fin N → Option Nat}

/-- Nobody holds a number of a segment whose count is zero. -/
theorem Segmented.empty (h : Segmented per segs next usage spare ids) (hf : f < segs) (hzero : usage f = 0)
    (hb : ids b = some n) : n / per ≠ f := by
  intro heq
  have hcount : countFin (inSegment per ids f) = 0 := by
    have := h.usage_eq f hf
    omega
  have hno := countFin_eq_zero.mp hcount b
  rw [inSegment_iff.mpr ⟨n, hb, heq⟩] at hno
  cases hno

theorem segment_lt (hn : n < per * segs) : n / per < segs := Nat.div_lt_of_lt_mul hn

section
variable (h : Segmented per segs next usage spare ids)
include h

/-- A number comes back. -/
theorem Segmented.release (hb : ids b = some n) :
    Segmented per segs next (update usage (n / per) (usage (n / per) - 1))
      (if usage (n / per) - 1 = 0 ∧ n / per ≠ next / per then update spare (n / per) true else spare)
      (update ids b none) := by
  have hother : ∀ c k, update ids b none c = some k → ids c = some k ∧ c ≠ b := by
    intro c k hc
    by_cases hcb : c = b
    · rw [hcb, update_self] at hc
      cases hc
    · rw [update_of_ne hcb] at hc
      exact ⟨hc, hcb⟩
  have hcount : countFin (inSegment per ids (n / per)) =
      countFin (inSegment per (update ids b none) (n / per)) + 1 := by
    refine countFin_insert (i := b) ?_ (inSegment_iff.mpr ⟨n, hb, rfl⟩) fun c hc => ?_
    · rw [inSegment, update_self]
      rfl
    · rw [inSegment, inSegment, update_of_ne hc]
  have husage : ∀ f < segs, update usage (n / per) (usage (n / per) - 1) f =
      countFin (inSegment per (update ids b none) f) := by
    intro f hf
    by_cases hfn : f = n / per
    · rw [hfn, update_self, h.usage_eq _ (hfn ▸ hf), hcount]
      omega
    · rw [update_of_ne hfn, h.usage_eq f hf, countFin_congr]
      intro c
      by_cases hcb : c = b
      · rw [hcb, inSegment, inSegment, update_self, hb]
        exact beq_false_of_ne (Ne.symm hfn)
      · rw [inSegment, inSegment, update_of_ne hcb]
  refine ⟨h.next_lt, fun c k hc => h.id_lt c k (hother c k hc).1,
    fun c d k hc hd => h.inj c d k (hother c k hc).1 (hother d k hd).1,
    fun c k hc => h.behind c k (hother c k hc).1, husage, ?_, ?_⟩
  · intro f hf hspare
    by_cases hfn : f = n / per
    · rw [hfn, update_self]
      split at hspare
      next hlast => exact hlast.1
      · -- a spare segment has no number to give back
        rw [hfn] at hspare hf
        exact absurd rfl (h.empty hf (h.spare_empty _ hf hspare) hb)
    · rw [update_of_ne hfn]
      refine h.spare_empty f hf ?_
      split at hspare
      · rwa [update_of_ne hfn] at hspare
      · exact hspare
  · intro hspare
    split at hspare
    next hlast =>
      rw [update_of_ne (Ne.symm hlast.2)] at hspare
      exact h.spare_next hspare
    · exact h.spare_next hspare

theorem Segmented.renew (hf : f < segs)
    (hspare : spare f = true) : Segmented per segs next (update usage f 0) (update spare f false) ids := by
  have hsame : update usage f 0 = usage := by
    rw [← h.spare_empty f hf hspare]
    exact update_eq_self f usage
  have hless : ∀ g, update spare f false g = true → spare g = true := by
    intro g hg
    by_cases hgf : g = f
    · rw [hgf, update_self] at hg
      cases hg
    · rwa [update_of_ne hgf] at hg
  rw [hsame]
  exact ⟨h.next_lt, h.id_lt, h.inj, h.behind, h.usage_eq, fun g hg hs => h.spare_empty g hg (hless g hs),
    fun hs => h.spare_next (hless _ hs)⟩

theorem Segmented.fresh (hempty : next % per = 0 → usage (next / per) = 0)
    (b : Fin N) : ids b ≠ some next := by
  intro hb
  rcases h.behind b next hb rfl with hfirst | hlt
  · exact h.empty (segment_lt h.next_lt) (hempty hfirst) hb rfl
  · exact lt_irrefl _ hlt

theorem Segmented.acquire (hb : ids b = none)
    (hempty : next % per = 0 → usage (next / per) = 0) (hready : next % per = 0 → spare (next / per) = false) :
    Segmented per segs ((next + 1) % (per * segs)) (update usage (next / per) (usage (next / per) + 1)) spare
      (update ids b (some next)) := by
  have hnot : spare (next / per) = false := by
    cases hs : spare (next / per) with
    | false => rfl
    | true => rw [hready (h.spare_next hs)] at hs; cases hs
  have hcases : ∀ c k, update ids b (some next) c = some k → (c = b ∧ k = next) ∨ (c ≠ b ∧ ids c = some k) := by
    intro c k hc
    by_cases hcb : c = b
    · rw [hcb, update_self] at hc
      cases hc
      exact .inl ⟨hcb, rfl⟩
    · rw [update_of_ne hcb] at hc
      exact .inr ⟨hcb, hc⟩
  -- the counter stays in the segment, or begins one
  have hnext : (next + 1) % (per * segs) % per = 0 ∨
      (next + 1) % (per * segs) = next + 1 ∧ (next + 1) / per = next / per := by
    rw [Nat.mod_mul_right_mod]
    by_cases hdvd : per ∣ next + 1
    · exact .inl (Nat.mod_eq_zero_of_dvd hdvd)
    · refine .inr ⟨Nat.mod_eq_of_lt ?_, by rw [Nat.succ_div, if_neg hdvd, add_zero]⟩
      have hne : next + 1 ≠ per * segs := fun heq => hdvd (heq ▸ Nat.dvd_mul_right per segs)
      have := h.next_lt
      omega
  refine ⟨Nat.mod_lt _ (Nat.zero_lt_of_lt h.next_lt), ?_, ?_, ?_, ?_, ?_, ?_⟩
  · intro c k hc
    rcases hcases c k hc with ⟨-, rfl⟩ | ⟨-, hc⟩
    · exact h.next_lt
    · exact h.id_lt c k hc
  · intro c d k hc hd
    rcases hcases c k hc with ⟨rfl, rfl⟩ | ⟨-, hc⟩
    · rcases hcases d k hd with ⟨rfl, -⟩ | ⟨-, hd⟩
      · rfl
      · exact absurd hd (h.fresh hempty d)
    · rcases hcases d k hd with ⟨-, hk⟩ | ⟨-, hd⟩
      · exact absurd (hk ▸ hc) (h.fresh hempty c)
      · exact h.inj c d k hc hd
  · intro c k hc hseg
    rcases hnext with hfirst | ⟨hsucc, hdiv⟩
    · exact .inl hfirst
    · rw [hsucc] at hseg ⊢
      refine .inr ?_
      rcases hcases c k hc with ⟨-, rfl⟩ | ⟨-, hc⟩
      · exact Nat.lt_succ_self k
      · rcases h.behind c k hc (hseg.trans hdiv) with hzero | hlt
        · exact absurd (hseg.trans hdiv) (h.empty (segment_lt h.next_lt) (hempty hzero) hc)
        · exact Nat.lt_succ_of_lt hlt
  · intro f hf
    by_cases hfn : f = next / per
    · have hcount : countFin (inSegment per (update ids b (some next)) f) = countFin (inSegment per ids f) + 1 := by
        refine countFin_insert (i := b) ?_ ?_ fun c hc => ?_
        · rw [inSegment, hb]
          rfl
        · rw [inSegment_iff, update_self]
          exact ⟨next, rfl, hfn.symm⟩
        · rw [inSegment, inSegment, update_of_ne hc]
      rw [hcount, ← hfn, update_self, h.usage_eq f hf]
      omega
    · rw [update_of_ne hfn, h.usage_eq f hf, countFin_congr]
      intro c
      by_cases hcb : c = b
      · rw [hcb, inSegment, inSegment, update_self, hb]
        exact (beq_false_of_ne (Ne.symm hfn)).symm
      · rw [inSegment, inSegment, update_of_ne hcb]
  · intro f hf hspare
    have hfn : f ≠ next / per := by
      rintro rfl
      rw [hnot] at hspare
      cases hspare
    rw [update_of_ne hfn]
    exact h.spare_empty f hf hspare
  · intro hspare
    rcases hnext with hfirst | ⟨hsucc, hdiv⟩
    · exact hfirst
    · rw [hsucc, hdiv, hnot] at hspare
      cases hspare

end

theorem segmented_start (hper : 0 < per) (hsegs : 0 < segs) (spare : Nat → Bool) :
    Segmented per segs 0 (fun _ => 0) spare (fun _ : Fin N => none) := by
  refine ⟨Nat.mul_pos hper hsegs, nofun, nofun, nofun,
    ?_, fun _ _ _ => rfl, fun _ => Nat.zero_mod per⟩
  intro f _
  have hzero : countFin (inSegment per (fun _ : Fin N => none) f) = 0 := countFin_eq_zero.mpr fun _ => rfl
  rw [hzero]
  rfl

end Lib
