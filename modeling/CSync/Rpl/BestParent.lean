import CSync.Lib.Hysteresis
import CSync.Rpl.Dio

/-! The choice of a preferred parent with MRHOF.

    The objective function compares two parents at a time, with a threshold in favor of the preferred one. Over the
    whole table this is a choice with hysteresis, whatever the order of the table. -/

namespace CSync.RplDag
open Lib List

variable {c : Config} {d : c.DagIdx} {freshOnly : Bool} {s : State c}

/-- A parent in the table that `best_parent` considers and that MRHOF accepts. -/
def Choosable (d : c.DagIdx) (freshOnly : Bool) (s : State c) (p : c.Nbr) : Prop :=
  p ∈ s.keys ∧ candidate d freshOnly s p = true ∧ Of.mrhof.parentIsAcceptable s p = true

/-- `PARENT_SWITCH_THRESHOLD` holds the preferred parent: it may be chosen, and no other is better by as much. -/
def Stays (d : c.DagIdx) (freshOnly : Bool) (s : State c) (k : c.Nbr) : Prop :=
  (s.dag d).preferredParent = some k ∧ Choosable d freshOnly s k ∧
    ∀ q, Choosable d freshOnly s q → (pathCost s k).toNat < (pathCost s q).toNat + 96

/-- What a parent costs, as the comparison has it. -/
def costOf (s : State c) (p : c.Nbr) : Int := (pathCost s p).toNat

variable {p : c.Nbr}

theorem candidate_dag (h : candidate d freshOnly s p = true) : (s.parent p).dag = d := by
  simp only [candidate, Bool.and_eq_true, decide_eq_true_eq] at h
  exact h.1.1.1.1.2

theorem betterParent_eq {p₁ : c.Nbr} (h : (s.parent p₁).dag = d) (p₂ : c.Nbr) :
    Of.mrhof.betterParent s p₁ p₂ = closeChoice (costOf s) 96 (s.dag d).preferredParent p₁ p₂ := by
  subst h
  rfl

variable {best : Option c.Nbr}

theorem bestParent_skip (hbest : ∀ b, best = some b → Of.mrhof.parentIsAcceptable s
    b = true) (hp : Of.mrhof.parentIsAcceptable s p = false) : Of.mrhof.bestParent s best p = best := by
  cases best with
  | none => simp [Of.bestParent, hp]
  | some b => simp [Of.bestParent, hp, hbest b rfl]

/-- The best of the parents so far. -/
structure BestOf (d : c.DagIdx) (s : State c) (S : c.Nbr → Prop) (best : Option c.Nbr) : Prop where
  none : best = none → ∀ p, ¬ S p
  some : ∀ p, best = some p → Chosen (costOf s) 96 (s.dag d).preferredParent S p

/-- STEP: one more parent of the DAG. -/
theorem BestOf.bestParent {S : c.Nbr → Prop} (h : BestOf d s S best)
    (hS : ∀ q, S q → (s.parent q).dag = d ∧ Of.mrhof.parentIsAcceptable s q = true)
    (hp : Of.mrhof.parentIsAcceptable s p = true) : BestOf d s (More S p) (Of.mrhof.bestParent s best p) := by
  cases best with
  | none =>
    rw [Of.bestParent, if_pos hp]
    refine ⟨fun h => (nomatch h), fun q hq => ?_⟩
    cases hq
    exact Chosen.single fun q => ⟨fun hq => hq.resolve_left (h.none rfl q), .inr⟩
  | some b =>
    have hb := h.some b rfl
    obtain ⟨hdag, hok⟩ := hS b hb.mem
    rw [Of.bestParent, if_neg (by simp [hok]), if_neg (by simp [hp]), betterParent_eq hdag]
    refine ⟨fun h => (nomatch h), fun q hq => ?_⟩
    rw [← Option.some.inj hq]
    exact hb.closeChoice

theorem BestOf.congr {S S' : c.Nbr → Prop} (hs : ∀ q, S q ↔ S' q) (h : BestOf d s S best) :
    BestOf d s S' best :=
  ⟨fun hnone p hp => h.none hnone p ((hs p).2 hp), fun p hp => (h.some p hp).congr hs⟩

/-- RUN: the loop over the parents of the DAG. -/
theorem bestOf_foldl (l : List c.Nbr) (hl : ∀ p ∈ l, (s.parent p).dag = d) : BestOf d s (fun p => p ∈ l ∧
    Of.mrhof.parentIsAcceptable s p = true) (l.foldl (fun best p => Of.mrhof.bestParent s best p) none) := by
  induction l using reverseRecOn with
  | nil => exact ⟨fun _ p hp => not_mem_nil hp.1, fun p hp => nomatch hp⟩
  | append_singleton l p ih =>
    have hbest := ih fun q hq => hl q (mem_append_left _ hq)
    rw [foldl_append, foldl_cons, foldl_nil]
    cases hp : Of.mrhof.parentIsAcceptable s p with
    | true =>
      refine (hbest.bestParent (fun q hq => ⟨hl q (mem_append_left _ hq.1), hq.2⟩) hp).congr fun q => ?_
      rw [More, mem_append, mem_singleton]
      refine ⟨?_, fun h => h.1.imp (⟨·, h.2⟩) id⟩
      rintro (h | rfl)
      · exact ⟨.inl h.1, h.2⟩
      · exact ⟨.inr rfl, hp⟩
    | false =>
      rw [bestParent_skip (fun b hb => (hbest.some b hb).mem.2) hp]
      refine hbest.congr fun q => ?_
      rw [mem_append, mem_singleton]
      refine ⟨fun h => ⟨.inl h.1, h.2⟩, fun h => ⟨h.1.resolve_right ?_, h.2⟩⟩
      rintro rfl
      rw [h.2] at hp
      contradiction

theorem bestOf_bestParent (hof : s.inst.of = .mrhof) {keys : List c.Nbr} (hkeys : keys.Perm s.keys) :
    BestOf d s (Choosable d freshOnly s) (bestParent d freshOnly { s with keys := keys }) := by
  have h := bestOf_foldl (keys.filter (candidate d freshOnly s)) fun p hp => candidate_dag (mem_filter.1 hp).2
  rw [← hof] at h
  refine BestOf.congr (fun p => ?_) h
  rw [mem_filter, hkeys.mem_iff, hof, and_assoc]
  rfl

/-- EXACT: what `best_parent` finds with MRHOF. -/
theorem bestParent_mrhof (d : c.DagIdx) (freshOnly : Bool) (s : State c) (hof : s.inst.of = .mrhof) :
    (bestParent d freshOnly s = none ↔ ∀ p, ¬ Choosable d freshOnly s p) ∧
    (∀ p, bestParent d freshOnly s = some p → Choosable d freshOnly s p ∧
      (∀ q, Choosable d freshOnly s q → (pathCost s p).toNat < (pathCost s q).toNat + 96) ∧
      (∀ k, Stays d freshOnly s k → p = k) ∧
      ((∀ k, ¬ Stays d freshOnly s k) → ∀ q, Choosable d freshOnly s q → pathCost s p ≤ pathCost s q)) ∧
    ∀ keys, keys.Perm s.keys → (bestParent d freshOnly { s with keys := keys }).map (pathCost s) =
        (bestParent d freshOnly s).map (pathCost s) := by
  have hbest : BestOf d s (Choosable d freshOnly s) (bestParent d freshOnly s) :=
    bestOf_bestParent hof (List.Perm.refl _)
  have hclose : ∀ k, Stays d freshOnly s k ↔
      (s.dag d).preferredParent = some k ∧ Close (costOf s) 96 (Choosable d freshOnly s) k := by
    intro k
    refine and_congr_right fun _ => and_congr_right fun _ => forall₂_congr fun q _ => ?_
    simp only [costOf]
    omega
  refine ⟨⟨hbest.none, fun hnone => ?_⟩, fun p hp => ?_, fun keys hkeys => ?_⟩
  · cases hp : bestParent d freshOnly s with
    | none => rfl
    | some p => exact absurd (hbest.some p hp).mem (hnone p)
  · have h := hbest.some p hp
    refine ⟨h.mem, fun q hq => ?_, fun k hk => h.stays k ((hclose k).1 hk).1 ((hclose k).1 hk).2, fun hnot q hq => ?_⟩
    · have := h.lt (by decide) hq
      simp only [costOf] at this
      omega
    · have := h.least (fun k hk hc => hnot k ((hclose k).2 ⟨hk, hc⟩)) q hq
      simp only [costOf] at this
      rw [UInt16.le_iff_toNat_le]
      omega
  · have hother : BestOf d s (Choosable d freshOnly s) (bestParent d freshOnly { s with keys := keys }) :=
      bestOf_bestParent hof hkeys
    cases hp : bestParent d freshOnly s with
    | none =>
      cases hq : bestParent d freshOnly { s with keys := keys } with
      | none => rfl
      | some q => exact absurd (hother.some q hq).mem (hbest.none hp q)
    | some p =>
      cases hq : bestParent d freshOnly { s with keys := keys } with
      | none => exact absurd (hbest.some p hp).mem (hother.none hq p)
      | some q =>
        have := (hother.some q hq).cost_eq (hbest.some p hp)
        simp only [costOf] at this
        rw [Option.map_some, Option.map_some, Option.some.injEq, ← UInt16.toNat_inj]
        omega

/-- One DAG and three neighbors, of which the second is preferred. The third is better, but not by as much as the
    threshold. -/
def threeNeighbors : State ⟨1, 3, 128, 2, false, 3, fun _ => some .mrhof⟩ :=
  let s := init ⟨1, 3, 128, 2, false, 3, fun _ => some .mrhof⟩ ⟨0, by decide⟩ fun _ => 0
  { s with
    keys := finRange 3
    used := fun _ => true
    parent := fun p => ⟨⟨0, by decide⟩, ([512, 320, 256].getD p.val 0), 0, false⟩
    etx := fun _ => some 128
    dag := fun d => { s.dag d with preferredParent := some ⟨1, by decide⟩ } }

theorem bestParent_mrhof_threeNeighbors : bestParent ⟨0, by decide⟩ false threeNeighbors = some 1 ∧
    (∀ q, Choosable ⟨0, by decide⟩ false threeNeighbors q →
      (pathCost threeNeighbors 1).toNat < (pathCost threeNeighbors q).toNat + 96) :=
  have hbest : bestParent ⟨0, by decide⟩ false threeNeighbors = some 1 := by decide
  ⟨hbest, ((bestParent_mrhof ⟨0, by decide⟩ false threeNeighbors rfl).2.1 1 hbest).2.1⟩

end CSync.RplDag
