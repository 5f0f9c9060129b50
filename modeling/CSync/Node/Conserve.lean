import CSync.Node.GtspCursor
import CSync.Node.GtspDiffs
import CSync.Node.Process
import Mathlib.Data.List.MinMax

/-! What clock corrections conserve.

    A correction steps the own clock and takes the step off the stored differences, so that what a node knows of its
    neighbours' clocks stays. The fine offset is unsigned and carries into the coarse count when it leaves its range. -/

namespace CSync

open Lib List Function

variable {R : Type} [SoftDouble R]

/-- The estimate of a neighbour's clock: the own clock less the stored difference. -/
def estimate (tm : RtimerState R) (n : Neighbour R) : Int :=
  scaled tm.coarseCount tm.fineOffset - (n.coarseDiff.toInt * fineMax.toNat + n.fineDiff.toInt)

/-! ### The step of `gtsp_update_rtimer` -/

section

omit [SoftDouble R]

/-- The mean of the fine differences of some neighbours, whose sum is kept in 32 bits. -/
def meanDiff (l : List (Neighbour R)) (count : Nat) : Int32 := l.foldl (fun o n => o + n.fineDiff) 0 / Int32.ofNat count

/-- The neighbours of the own state that are within the jump threshold. -/
def nearEntries (myState : St) (ns : List (Neighbour R)) : List (Neighbour R) :=
  (ownEntries myState ns).filter fun n => inJumpThreshold n.fineDiff

/-- A neighbour of the own state is synced if it is within the jump threshold. -/
def flagged (myState : St) (n : Neighbour R) : Neighbour R :=
  if n.state ≠ myState.code then n else { n with synced := inJumpThreshold n.fineDiff }

/-- Each neighbour that is not synced, with the later ones that are within the jump threshold of it. -/
def groups : List (Neighbour R) → List (List (Neighbour R))
  | [] => []
  | n :: rest =>
      if n.synced then groups rest
      else (n :: rest.filter fun nn => inJumpThreshold (n.fineDiff - nn.fineDiff)) :: groups rest

/-- The step: the mean over the near neighbours and the node itself. In `DISCOVERY`, unless most neighbours are near, it
    is the mean of the largest group, of several the last, if that is not smaller than the number of near ones. -/
def updateStep (myState : St) (ns : List (Neighbour R)) : Int32 :=
  let near := nearEntries myState ns
  let mean := meanDiff near (near.length + 1)
  if 2 * near.length ≤ (ownEntries myState ns).length ∧ myState = .discovery then
    match (groups (ns.map (flagged myState))).reverse.argmax length with
    | some g => if near.length ≤ g.length then meanDiff g g.length else mean
    | none => mean
  else mean

end

/-- The rate: if most neighbours are near, the mean of the own rate and theirs. -/
def updateRate (rate : R) (myState : St) (ns : List (Neighbour R)) : R :=
  let near := nearEntries myState ns
  if (ownEntries myState ns).length < 2 * near.length then
    SoftDouble.div (near.foldl (fun r n => SoftDouble.add r n.relativeRate) rate)
      (SoftDouble.ofNat ((ownEntries myState ns).length + 1))
  else rate

/-- LOOP: where the majority scan is not entered, the entries are flagged, and those that are near are added up. -/
theorem firstLoop_sums (env : Env R) (myState : St) (all : List (Neighbour R)) :
    ∀ {l done : List (Neighbour R)} {k : Nat} {acc : GtspAcc R}, Counted done acc →
      (∀ p, p <+: ownEntries myState l → p ≠ [] → InStep (done ++ p)) →
        (firstLoop env myState all k l acc).entries = l.map (flagged myState) ∧
          (firstLoop env myState all k l acc).acc.fineSyncedOffset =
            (nearEntries myState l).foldl (fun o n => o + n.fineDiff) acc.fineSyncedOffset ∧
          (firstLoop env myState all k l acc).acc.avgRate =
            (nearEntries myState l).foldl (fun r n => SoftDouble.add r n.relativeRate) acc.avgRate
  | [], _, _, _, _, _ => ⟨rfl, rfl, rfl⟩
  | n :: l, done, k, acc, h, hin => by
    rw [firstLoop, map_cons, flagged, nearEntries]
    split
    next hstate =>
      have hown : ownEntries myState (n :: l) = ownEntries myState l := filter_cons_of_neg (by simpa using hstate)
      rw [hown] at hin ⊢
      obtain ⟨hentries, hsums⟩ := firstLoop_sums env myState all (k := k + 1) h hin
      exact ⟨congrArg (_ :: ·) hentries, hsums⟩
    next hstate =>
      have hown : ownEntries myState (n :: l) = n :: ownEntries myState l := filter_cons_of_pos (by simpa using hstate)
      rw [hown] at hin ⊢
      obtain ⟨hn, hrest⟩ := inStep_cons.mp hin
      obtain ⟨hsynced, hdiff, _⟩ := h.coarse n
      have hle : ¬ (countCoarse acc n).coarseSyncedCount < (countCoarse acc n).coarseDiffCount := by
        rw [hsynced, hdiff]
        exact UInt8.not_lt.mpr hn
      have hcoarse : (countCoarse acc n).fineSyncedOffset = acc.fineSyncedOffset ∧
          (countCoarse acc n).avgRate = acc.avgRate := by
        rw [countCoarse]
        split <;> exact ⟨rfl, rfl⟩
      obtain ⟨hentries, hoffset, hrate⟩ := firstLoop_sums env myState all (k := k + 1) (h.step n) hrest
      dsimp only
      rw [if_neg hle, hoffset, hrate, hentries, filter_cons, finePass]
      cases inJumpThreshold n.fineDiff with
      | true =>
        rw [if_pos rfl, if_pos rfl, foldl_cons, foldl_cons, ← hcoarse.1, ← hcoarse.2]
        exact ⟨rfl, rfl, rfl⟩
      | false =>
        rw [if_neg Bool.false_ne_true, if_neg Bool.false_ne_true, ← hcoarse.1, ← hcoarse.2]
        exact ⟨rfl, rfl, rfl⟩

theorem toInt32_count {c : Nat} (h : c < 256) : (UInt8.ofNat c).toUInt32.toInt32 = Int32.ofNat c := by
  have hnat : (UInt8.ofNat c).toUInt32.toNat = c := by
    rw [UInt8.toNat_toUInt32, UInt8.toNat_ofNat', Nat.mod_eq_of_lt h]
  rw [← Int32.toInt_inj, toInt_of_small (by omega), hnat, Int32.toInt_ofNat_of_lt (by omega)]

variable {m : Nat} {s : Node R}

section

omit [SoftDouble R]

theorem foldl_fineDiff_le : ∀ {l : List (Neighbour R)} {o : Int32} {k : Nat}, (∀ n ∈ l, n.fineDiff.toInt.natAbs ≤ m) →
    o.toInt.natAbs ≤ k * m → (l.foldl (fun o nn => o + nn.fineDiff) o).toInt.natAbs ≤ (k + l.length) * m
  | [], _, _, _, ho => ho
  | n :: l, o, k, hl, ho => by
    rw [forall_mem_cons] at hl
    have hadd := natAbs_toInt_add_le o n.fineDiff
    have hnext := foldl_fineDiff_le (o := o + n.fineDiff) (k := k + 1) hl.2 (by rw [Nat.succ_mul]; omega)
    rw [length_cons, add_comm l.length 1, ← add_assoc]
    exact hnext

theorem meanDiff_le {l : List (Neighbour R)} {count : Nat} (hl : ∀ n ∈ l, n.fineDiff.toInt.natAbs ≤ m)
    (hpos : 0 < count) (hle : l.length ≤ count) (hlt : count < 256) : (meanDiff l count).toInt.natAbs ≤ m := by
  have hcount : (Int32.ofNat count).toInt = count := Int32.toInt_ofNat_of_lt (by omega)
  have hzero : (0 : Int32).toInt.natAbs ≤ 0 * m := Nat.zero_le _
  have hsum := foldl_fineDiff_le hl hzero
  rw [zero_add] at hsum
  refine natAbs_toInt_div_le (by omega) ?_
  rw [hcount]
  exact_mod_cast hsum.trans (Nat.mul_le_mul_right m hle)

/-- A group has neighbours of the list only, and at least one. -/
theorem subset_of_mem_groups : ∀ {l g : List (Neighbour R)}, g ∈ groups l → g ⊆ l ∧ 0 < g.length ∧ g.length ≤ l.length
  | n :: l, g, hg => by
    rw [groups] at hg
    split at hg
    · obtain ⟨hsub, hpos, hle⟩ := subset_of_mem_groups hg
      exact ⟨Subset.trans hsub (subset_cons_self n l), hpos, hle.trans (Nat.le_succ _)⟩
    · rcases mem_cons.mp hg with rfl | hg
      · refine ⟨cons_subset_cons n (filter_subset_self l), Nat.succ_pos _, ?_⟩
        exact Nat.succ_le_succ (length_filter_le _ _)
      · obtain ⟨hsub, hpos, hle⟩ := subset_of_mem_groups hg
        exact ⟨Subset.trans hsub (subset_cons_self n l), hpos, hle.trans (Nat.le_succ _)⟩

/-- LOOP: the last of the largest groups is taken, unless it is smaller than the count before the loop. -/
theorem gtspGroups_eq : ∀ {l : List (Neighbour R)} {count : Nat} {offset : Int32}, l.length < 256 → count < 256 →
    (gtspGroups l (UInt8.ofNat count, offset)).2 = match (groups l).reverse.argmax length with
      | some g => if count ≤ g.length then meanDiff g g.length else offset
      | none => offset
  | [], _, _, _, _ => rfl
  | n :: l, count, offset, hlen, hcount => by
    rw [length_cons] at hlen
    rw [gtspGroups, groups]
    split
    · exact gtspGroups_eq (by omega) hcount
    · have hnear := length_filter_le (fun nn : Neighbour R => inJumpThreshold (n.fineDiff - nn.fineDiff)) l
      generalize l.filter (fun nn => inJumpThreshold (n.fineDiff - nn.fineDiff)) = near at hnear
      have hmean : near.foldl (fun o nn => o + nn.fineDiff) n.fineDiff /
          (UInt8.ofNat (near.length + 1)).toUInt32.toInt32 = meanDiff (n :: near) (near.length + 1) := by
        rw [meanDiff, foldl_cons, Int32.zero_add, toInt32_count (by omega)]
      have hle : UInt8.ofNat count ≤ UInt8.ofNat (near.length + 1) ↔ count ≤ (n :: near).length := by
        rw [UInt8.le_iff_toNat_le, UInt8.toNat_ofNat', UInt8.toNat_ofNat', Nat.mod_eq_of_lt hcount,
          Nat.mod_eq_of_lt (by omega), length_cons]
      rw [reverse_cons, argmax_concat]
      simp only [hmean, hle]
      split
      next htake =>
        rw [gtspGroups_eq (by omega) (by omega)]
        cases (groups l).reverse.argmax length with
        | none => exact (if_pos htake).symm
        | some g =>
          dsimp only
          by_cases hlt : g.length < (n :: near).length
          · rw [if_pos hlt, if_neg (by rw [length_cons] at hlt; omega)]
            exact (if_pos htake).symm
          · rw [if_neg hlt, if_pos (by rw [length_cons] at hlt; omega)]
            exact (if_pos (by omega)).symm
      next hkeep =>
        rw [gtspGroups_eq (by omega) hcount]
        cases (groups l).reverse.argmax length with
        | none => exact (if_neg hkeep).symm
        | some g =>
          dsimp only
          by_cases hlt : g.length < (n :: near).length
          · rw [if_pos hlt, if_neg (by omega)]
            exact (if_neg hkeep).symm
          · rw [if_neg hlt]

theorem updateStep_le (myState : St) {ns : List (Neighbour R)} (hlen : ns.length < 255)
    (hns : ∀ n ∈ ns, n.fineDiff.toInt.natAbs ≤ m) : (updateStep myState ns).toInt.natAbs ≤ m := by
  have hnear : (nearEntries myState ns).length ≤ ns.length :=
    (length_filter_le _ _).trans (length_filter_le _ _)
  have hmean := meanDiff_le (l := nearEntries myState ns) (m := m)
    (fun n hn => hns n (mem_of_mem_filter (mem_of_mem_filter hn))) (Nat.succ_pos _) (Nat.le_succ _) (by omega)
  rw [updateStep]
  split
  · split
    next g hg =>
      obtain ⟨hsub, hpos, hle⟩ := subset_of_mem_groups (mem_reverse.mp (argmax_mem hg))
      rw [length_map] at hle
      split
      · refine meanDiff_le (fun n hn => ?_) hpos (Nat.le_refl _) (by omega)
        obtain ⟨n', hn', rfl⟩ := mem_map.mp (hsub hn)
        rw [flagged]
        split <;> exact hns n' hn'
      · exact hmean
    · exact hmean
  · exact hmean

end

/-- The step and the rate, after the counting loops. -/
theorem gtspOffset_eq (myState : St) (tm : RtimerState R) {ns : List (Neighbour R)} {acc : GtspAcc R}
    (hlen : ns.length < 255) (hcounted : Counted (ownEntries myState ns) acc)
    (hsum : acc.fineSyncedOffset = (nearEntries myState ns).foldl (fun o n => o + n.fineDiff) 0)
    (hrate : acc.avgRate = (nearEntries myState ns).foldl (fun r n => SoftDouble.add r n.relativeRate) tm.avgRate) :
    gtspOffset myState tm (ns.map (flagged myState)) acc =
      (updateStep myState ns, { tm with avgRate := updateRate tm.avgRate myState ns }) := by
  have hown : (ownEntries myState ns).length ≤ ns.length := length_filter_le _ _
  have hnear : (nearEntries myState ns).length ≤ (ownEntries myState ns).length := length_filter_le _ _
  have hsynced : acc.fineSyncedCount = UInt8.ofNat (nearEntries myState ns).length := by
    rw [hcounted.fineSynced, countP_eq_length_filter, nearEntries]
  have hdiff : acc.fineDiffCount = UInt8.ofNat ((ownEntries myState ns).length - (nearEntries myState ns).length) := by
    have hsplit := length_eq_length_filter_add (l := ownEntries myState ns) fun n => inJumpThreshold n.fineDiff
    rw [hcounted.fineDiff, countP_eq_length_filter, hsplit, nearEntries, Nat.add_sub_cancel_left]
  have hmean : acc.fineSyncedOffset / (acc.fineSyncedCount.toUInt32.toInt32 + 1) =
      meanDiff (nearEntries myState ns) ((nearEntries myState ns).length + 1) := by
    rw [hsum, hsynced, toInt32_count (by omega), meanDiff, Int32.ofNat_add]
    rfl
  have hmost : acc.fineDiffCount < acc.fineSyncedCount ↔
      (ownEntries myState ns).length < 2 * (nearEntries myState ns).length := by
    rw [hsynced, hdiff, UInt8.lt_iff_toNat_lt, UInt8.toNat_ofNat', UInt8.toNat_ofNat', Nat.mod_eq_of_lt (by omega),
      Nat.mod_eq_of_lt (by omega)]
    omega
  have hcount : acc.fineSyncedCount.toNat + acc.fineDiffCount.toNat + 1 = (ownEntries myState ns).length + 1 := by
    rw [hsynced, hdiff, UInt8.toNat_ofNat', UInt8.toNat_ofNat', Nat.mod_eq_of_lt (by omega), Nat.mod_eq_of_lt (by omega)]
    omega
  rw [gtspOffset, updateStep, updateRate]
  simp only [hmean, hmost, hcount, hrate]
  split
  next hlt => rw [if_neg fun h => absurd h.1 (by omega)]
  next hge =>
    split
    next hstate =>
      rw [if_pos ⟨by omega, hstate⟩, hsynced, gtspGroups_eq (by rw [length_map]; omega) (by omega)]
    next hstate => rw [if_neg fun h => hstate h.2]

omit [SoftDouble R] in
theorem shiftDiffs_mem (coarse fine : Int32) : ∀ {l : List (Fin maxDegree)} (m : Pool maxDegree (Neighbour R)), l.Nodup →
    (∀ i ∈ l, ((shiftDiffs coarse fine l m).mem i).coarseDiff = (m.mem i).coarseDiff - coarse ∧
      ((shiftDiffs coarse fine l m).mem i).fineDiff = (m.mem i).fineDiff - fine) ∧
    ∀ i, i ∉ l → (shiftDiffs coarse fine l m).mem i = m.mem i
  | [], _, _ => ⟨nofun, fun _ _ => rfl⟩
  | j :: l, m, hnodup => by
    obtain ⟨hj, hnodup⟩ := nodup_cons.mp hnodup
    rw [shiftDiffs]
    obtain ⟨hin, hout⟩ := shiftDiffs_mem coarse fine (m.modify j fun n =>
      { n with
        coarseDiff := n.coarseDiff - coarse
        fineDiff := n.fineDiff - fine
        synced := inJumpThreshold (n.fineDiff - fine) }) hnodup
    refine ⟨fun i hi => ?_, fun i hi => ?_⟩
    · rcases mem_cons.mp hi with rfl | htail
      · rw [hout i hj]
        simp only [Pool.modify, update_self, and_self]
      · have hne : i ≠ j := by
          rintro rfl
          exact hj htail
        obtain ⟨hcoarse, hfine⟩ := hin i htail
        rw [hcoarse, hfine]
        simp only [Pool.modify, update_of_ne hne, and_self]
    · rw [mem_cons, not_or] at hi
      rw [hout i hi.2]
      exact update_of_ne hi.1 _ _

/-! ### Corrections -/

/-- The calls that correct the clock. -/
inductive Correction (R : Type) where
  | update
  | trusted (n : Neighbour R) (cAddr : UInt16) (consRate : R)

namespace Node

/-- `gtsp_update_rtimer(mod_neighbour_list)` on the node, or `csync_trusted_synchronization`. -/
def correct (s : Node R) : Correction R → Node R
  | .update =>
      let r := gtspUpdateRtimer s.env s.myState s.tm s.nb.modList s.nb.memb
      { s with tm := r.2, nb := { s.nb with memb := r.1 } }
  | .trusted n cAddr consRate => s.csyncTrustedSynchronization n cAddr consRate

/-- The rate that is set, if a node steps its clock by the difference to a trusted neighbour. -/
def trustedRate (s : Node R) (n : Neighbour R) (cAddr : UInt16) (consRate : R) : Option R :=
  let rate := SoftDouble.mul consRate n.relativeRate
  match s.cl.role with
  | .cm =>
      if n.addr ≠ headAddr s.env.nullAddr s.cl then none
      else some (if s.myConsSlot = s.thisSyncSlot then rate else s.tm.avgRate)
  | .cb =>
      if s.cl.hasBridge n.addr then none
      else some (if s.thisSyncSlot < s.myConsSlot then rate else s.tm.avgRate)
  | .ch =>
      if s.cl.bridges.any fun ch => n.addr != ch.addr then none
      else if s.myConsSlot = s.thisSyncSlot then some rate
      else if s.syncLcAddr ≠ s.myAddr ∧ s.syncLcAddr = cAddr then
        some (SoftDouble.div (SoftDouble.add rate s.tm.avgRate) (SoftDouble.ofNat 2))
      else none

/-- The rate that a correction sets and its step, from the state before it; none where the clock is left alone. -/
def stepOf (s : Node R) : Correction R → Option (R × Int32)
  | .update =>
      let ns := s.nb.modList.map s.nb.memb.mem
      some (updateRate s.tm.avgRate s.myState ns, updateStep s.myState ns)
  | .trusted n cAddr consRate => (s.trustedRate n cAddr consRate).map fun rate => (rate, n.fineDiff)

/-- The rate is set, and the step is taken off the clock and off the fine differences of the neighbours. -/
structure Stepped (s s' : Node R) (rate : R) (diff : Int32) : Prop where
  timers : s'.tm = rtimerAdjustFineOffset { s.tm with avgRate := rate } diff
  coarse : ∀ i ∈ s.nb.modList, (s'.nb.memb.mem i).coarseDiff = (s.nb.memb.mem i).coarseDiff
  fine : ∀ i ∈ s.nb.modList, (s'.nb.memb.mem i).fineDiff = (s.nb.memb.mem i).fineDiff - diff

omit [SoftDouble R] in
theorem foldl_fineDiff (diff : Int32) : ∀ {l : List (Fin maxDegree)} (m : Pool maxDegree (Neighbour R)), l.Nodup →
    (∀ i ∈ l, (l.foldl (fun m i => m.modify i fun n => { n with fineDiff := n.fineDiff - diff }) m).mem i =
      { m.mem i with fineDiff := (m.mem i).fineDiff - diff }) ∧
    ∀ i, i ∉ l → (l.foldl (fun m i => m.modify i fun n => { n with fineDiff := n.fineDiff - diff }) m).mem i = m.mem i
  | [], _, _ => ⟨nofun, fun _ _ => rfl⟩
  | j :: l, m, hnodup => by
    obtain ⟨hj, hnodup⟩ := nodup_cons.mp hnodup
    obtain ⟨hin, hout⟩ := foldl_fineDiff diff (m.modify j fun n => { n with fineDiff := n.fineDiff - diff }) hnodup
    rw [foldl_cons]
    refine ⟨fun i hi => ?_, fun i hi => ?_⟩
    · rcases mem_cons.mp hi with rfl | htail
      · rw [hout i hj]
        exact update_self _ _ _
      · have hne : i ≠ j := by
          rintro rfl
          exact hj htail
        rw [hin i htail]
        simp only [Pool.modify, update_of_ne hne]
    · rw [mem_cons, not_or] at hi
      rw [hout i hi.2]
      exact update_of_ne hi.1 _ _

variable {s t : Node R}

theorem stepClock_stepped {rate : R} (hnodup : s.nb.modList.Nodup) (htm : t.tm = { s.tm with avgRate := rate })
    (hnb : t.nb = s.nb) (diff : Int32) : Stepped s (t.stepClock diff) rate diff := by
  obtain ⟨hin, _⟩ := foldl_fineDiff diff s.nb.memb hnodup
  rw [stepClock, hnb, htm]
  refine ⟨rfl, fun i hi => ?_, fun i hi => ?_⟩
  · have hsame := congrArg Neighbour.coarseDiff (hin i hi)
    exact hsame
  · have hless := congrArg Neighbour.fineDiff (hin i hi)
    exact hless

/-- The clock is stepped, or it and the table are as they were. -/
def Outcome (s : Node R) (diff : Int32) : Option R → Node R → Prop
  | none, t => t.tm = s.tm ∧ t.nb = s.nb
  | some rate, t => Stepped s t rate diff

theorem Outcome.ite {p : Prop} [Decidable p] {u : Node R} {diff : Int32} {a b : Option R}
    (ht : p → Outcome s diff a t) (hu : ¬ p → Outcome s diff b u) :
    Outcome s diff (if p then a else b) (if p then t else u) := by
  by_cases h : p
  · rw [if_pos h, if_pos h]
    exact ht h
  · rw [if_neg h, if_neg h]
    exact hu h

omit [SoftDouble R] in
theorem tm_ite {p : Prop} [Decidable p] {t u : Node R} {tm : RtimerState R} {r r' : R}
    (ht : t.tm = { tm with avgRate := r }) (hu : u.tm = { tm with avgRate := r' }) :
    (if p then t else u).tm = { tm with avgRate := if p then r else r' } := by
  split
  · exact ht
  · exact hu

/-- TRUSTED SYNCHRONISATION: what it does is decided by the role and the slots. -/
theorem trustedSynchronization_outcome (s : Node R) (n : Neighbour R) (cAddr : UInt16) (consRate : R)
    (hnodup : s.nb.modList.Nodup) :
    Outcome s n.fineDiff (s.trustedRate n cAddr consRate) (s.csyncTrustedSynchronization n cAddr consRate) := by
  have hnone : ∀ t : Node R, t.tm = s.tm → t.nb = s.nb → Outcome s n.fineDiff none t := fun t htm hnb => ⟨htm, hnb⟩
  rw [trustedRate, csyncTrustedSynchronization]
  dsimp only [Node.emit]
  cases s.cl.role with
  | cm =>
    refine Outcome.ite (p := n.addr ≠ headAddr s.env.nullAddr s.cl) (fun _ => hnone _ rfl rfl) fun _ =>
      stepClock_stepped hnodup ?_ ?_ _
    · exact tm_ite rfl rfl
    · exact (apply_ite Node.nb _ _ _).trans (ite_self _)
  | cb =>
    refine Outcome.ite (p := s.cl.hasBridge n.addr = true) (fun _ => hnone _ rfl rfl) fun _ =>
      stepClock_stepped hnodup ?_ ?_ _
    · exact tm_ite rfl rfl
    · exact (apply_ite Node.nb _ _ _).trans (ite_self _)
  | ch =>
    refine Outcome.ite (p := (s.cl.bridges.any fun ch => n.addr != ch.addr) = true) (fun _ => hnone _ rfl rfl) fun _ => ?_
    refine Outcome.ite (p := s.myConsSlot = s.thisSyncSlot) (fun _ => ?_) fun _ => ?_
    · refine stepClock_stepped hnodup ?_ ?_ _
      · rfl
      · rfl
    · refine Outcome.ite (p := s.syncLcAddr ≠ s.myAddr ∧ s.syncLcAddr = cAddr) (fun _ => ?_) fun _ => ?_
      · refine stepClock_stepped hnodup ?_ ?_ _
        · rfl
        · rfl
      · exact hnone _ rfl rfl

end Node

/-- Every neighbour's clock is estimated as before. -/
def EstimatesKept (s s' : Node R) : Prop :=
  ∀ i ∈ s.nb.modList, estimate s'.tm (s'.nb.memb.mem i) = estimate s.tm (s.nb.memb.mem i)

/-- An update does not enter its majority scan, and a trusted neighbour's difference is at most a coarse unit. -/
def Correction.Proper (s : Node R) : Correction R → Prop
  | .update => ∀ l, l <+: ownEntries s.myState (s.nb.modList.map s.nb.memb.mem) → InStep l
  | .trusted n _ _ => n.fineDiff.toInt.natAbs ≤ fineMax.toNat

theorem toInt_sub_of_le {a b : Int32} (hm : 2 * m < 2 ^ 31) (ha : a.toInt.natAbs ≤ m)
    (hb : b.toInt.natAbs ≤ m) : (a - b).toInt = a.toInt - b.toInt := by
  rw [Int32.toInt_sub]
  exact bmod_of_between (by omega) (by omega)

theorem Node.Stepped.conserved_iff {s' : Node R} {rate : R} {diff : Int32} (h : s.Stepped s' rate diff)
    (hlo : fineMax.toNat ≤ 2 * s.tm.fineOffset.toNat) (hhi : 2 * s.tm.fineOffset.toNat ≤ 3 * fineMax.toNat)
    (hdiffs : ∀ i ∈ s.nb.modList, (s.nb.memb.mem i).fineDiff.toInt.natAbs ≤ fineMax.toNat)
    (hdiff : diff.toInt.natAbs ≤ fineMax.toNat) :
    EstimatesKept s s' ↔ (s.nb.modList ≠ [] → StepFits s.tm diff ∧ DriftFree s.tm rate diff) := by
  have hmax : fineMax.toNat = 67108863 := rfl
  let tm : RtimerState R := { s.tm with avgRate := rate }
  have htm : s'.tm = { armAnew (stepOffset tm diff) with
      schedulerFineOffsetRef := (armAnew (stepOffset tm diff)).fineOffset } :=
    h.timers.trans (rtimerAdjustFineOffset_eq tm diff)
  have hfits : StepFits tm diff ↔ StepFits s.tm diff :=
    ⟨fun h => ⟨h.1, h.2, h.3⟩, fun h => ⟨h.1, h.2, h.3⟩⟩
  have hfree : DriftFree tm rate diff ↔ DriftFree s.tm rate diff := Iff.rfl
  obtain ⟨hgood, hbad⟩ := stepOffset_spec (s := tm) hlo hhi hdiff
  have hword : scaled (stepOffset tm diff).coarseCount (armAnew (stepOffset tm diff)).fineOffset =
      scaled s.tm.coarseCount s.tm.fineOffset - diff.toInt ↔ StepFits s.tm diff ∧ DriftFree s.tm rate diff := by
    rw [← hfits, ← hfree]
    constructor
    · intro heq
      have hfit : StepFits tm diff := by
        by_contra hno
        exact hbad hno _ heq
      refine ⟨hfit, (armAnew_stepOffset (s := tm) hhi hdiff hfit.offset).mp (UInt32.toNat_inj.mp ?_)⟩
      have hstep : scaled (stepOffset tm diff).coarseCount (stepOffset tm diff).fineOffset =
          scaled s.tm.coarseCount s.tm.fineOffset - diff.toInt := hgood hfit
      rw [scaled] at heq hstep
      omega
    · rintro ⟨hfit, hdrift⟩
      rw [(armAnew_stepOffset (s := tm) hhi hdiff hfit.offset).mpr hdrift]
      exact hgood hfit
  obtain ⟨_, hcount, _⟩ := armAnew_spec (stepOffset tm diff)
  have hone : ∀ i ∈ s.nb.modList, (estimate s'.tm (s'.nb.memb.mem i) = estimate s.tm (s.nb.memb.mem i) ↔
      StepFits s.tm diff ∧ DriftFree s.tm rate diff) := by
    intro i hi
    have hsub := toInt_sub_of_le (by omega) (hdiffs i hi) hdiff
    rw [← hword, estimate, estimate, h.coarse i hi, h.fine i hi, hsub, htm]
    dsimp only
    rw [hcount]
    omega
  constructor
  · intro hall hne
    obtain ⟨i, hi⟩ := exists_mem_of_ne_nil _ hne
    exact (hone i hi).mp (hall i hi)
  · intro hfit i hi
    exact (hone i hi).mpr (hfit (ne_nil_of_mem hi))

/-! ### The corrections -/

/-- UPDATE: without a majority scan the coarse count stays, and the clock is stepped by what the list tells. -/
theorem gtspUpdateRtimer_stepped (hnodup : s.nb.modList.Nodup)
    (hstep : ∀ l, l <+: ownEntries s.myState (s.nb.modList.map s.nb.memb.mem) → InStep l) :
    s.Stepped (s.correct .update) (updateRate s.tm.avgRate s.myState (s.nb.modList.map s.nb.memb.mem))
      (updateStep s.myState (s.nb.modList.map s.nb.memb.mem)) := by
  have hlen : (s.nb.modList.map s.nb.memb.mem).length ≤ 64 := by
    rw [length_map]
    exact (hnodup.length_le_card).trans (Fintype.card_fin _).le
  let start : GtspAcc R := ⟨s.tm.avgRate, 0, 0, 0, 0, 0, 0⟩
  have hupdate : s.correct .update = (
      let g := gtspFirst s.env s.myState s.nb.modList s.nb.modList s.nb.memb start
      let o := gtspOffset s.myState (rtimerAdjustCoarseCount s.tm g.2.coarseSyncedOffset) (s.nb.modList.map g.1.mem) g.2
      { s with
        tm := rtimerAdjustFineOffset o.2 o.1
        nb := { s.nb with memb := shiftDiffs g.2.coarseSyncedOffset o.1 s.nb.modList g.1 } }) := rfl
  have hcounted : Counted [] start := ⟨rfl, rfl, rfl, rfl⟩
  obtain ⟨hacc, hentries, _⟩ := gtspFirst_eq s.env s.myState s.nb.modList (s.nb.modList.map s.nb.memb.mem)
    s.nb.modList 0 s.nb.memb start hnodup rfl
  obtain ⟨hgood, _⟩ := firstLoop_spec (s.nb.modList.map s.nb.memb.mem).length s.env s.myState
    (s.nb.modList.map s.nb.memb.mem) (l := s.nb.modList.map s.nb.memb.mem) (k := 0) (by omega) hcounted
  obtain ⟨_, hcoarse, hcounts⟩ := hgood fun p hp _ => hstep p hp
  obtain ⟨hflagged, hsum, hrate⟩ := firstLoop_sums s.env s.myState (s.nb.modList.map s.nb.memb.mem) (k := 0) hcounted
    fun p hp _ => hstep p hp
  rw [← hentries] at hflagged
  rw [← hacc] at hcoarse hcounts hsum hrate
  generalize gtspFirst s.env s.myState s.nb.modList s.nb.modList s.nb.memb start = g
    at hflagged hcoarse hcounts hsum hrate hupdate
  -- the records keep their differences in the first pass
  have hkept : ∀ i ∈ s.nb.modList, (g.1.mem i).coarseDiff = (s.nb.memb.mem i).coarseDiff ∧
      (g.1.mem i).fineDiff = (s.nb.memb.mem i).fineDiff := by
    intro i hi
    rw [map_map, map_inj_left] at hflagged
    rw [hflagged i hi, comp_apply, flagged]
    split <;> exact ⟨rfl, rfl⟩
  have hzero : g.2.coarseSyncedOffset = 0 := hcoarse
  have hcc : rtimerAdjustCoarseCount s.tm 0 = s.tm := by
    have hsub : s.tm.coarseCount - (0 : Int32).toUInt32 = s.tm.coarseCount := UInt32.sub_zero _
    rw [rtimerAdjustCoarseCount, hsub]
  dsimp only at hupdate
  rw [hzero, hcc, hflagged, gtspOffset_eq s.myState s.tm (by omega) hcounts hsum hrate] at hupdate
  rw [hupdate]
  obtain ⟨hin, _⟩ := shiftDiffs_mem 0 (updateStep s.myState (s.nb.modList.map s.nb.memb.mem)) g.1 hnodup
  refine ⟨rfl, fun i hi => ?_, fun i hi => ?_⟩
  · have hsame := (hin i hi).1
    rw [(hkept i hi).1, Int32.sub_zero] at hsame
    exact hsame
  · have hless := (hin i hi).2
    rw [(hkept i hi).2] at hless
    exact hless

/-- A correction conserves the estimates exactly where its step neither takes the unsigned offset below 0 nor the coarse
    count out of its range, and the timers, if they are armed anew at the new rate, add no drift. -/
theorem correct_conserves {s : Node R} {c : Correction R}
    (hnodup : s.nb.modList.Nodup)
    (hdiffs : ∀ i ∈ s.nb.modList, (s.nb.memb.mem i).fineDiff.toInt.natAbs ≤ fineMax.toNat)
    (hlo : fineMax.toNat ≤ 2 * s.tm.fineOffset.toNat) (hhi : 2 * s.tm.fineOffset.toNat ≤ 3 * fineMax.toNat)
    (hc : c.Proper s) :
    EstimatesKept s (s.correct c) ↔ ∀ rate diff, s.stepOf c = some (rate, diff) → s.nb.modList ≠ [] →
      StepFits s.tm diff ∧ DriftFree s.tm rate diff := by
  cases c with
  | update =>
    have hlen : (s.nb.modList.map s.nb.memb.mem).length ≤ 64 := by
      rw [length_map]
      exact (hnodup.length_le_card).trans (Fintype.card_fin _).le
    have hdiff := updateStep_le s.myState (hlen.trans_lt (by decide)) (forall_mem_map.mpr hdiffs)
    rw [(gtspUpdateRtimer_stepped hnodup hc).conserved_iff hlo hhi hdiffs hdiff, Node.stepOf]
    refine ⟨fun h rate diff heq => ?_, fun h => h _ _ rfl⟩
    obtain ⟨rfl, rfl⟩ := Prod.mk.inj (Option.some.inj heq)
    exact h
  | trusted n cAddr consRate =>
    have hspec := s.trustedSynchronization_outcome n cAddr consRate hnodup
    rw [Node.stepOf, Node.correct]
    cases hrate : s.trustedRate n cAddr consRate with
    | none =>
      rw [hrate] at hspec
      refine ⟨nofun, fun _ i _ => ?_⟩
      rw [hspec.1, hspec.2]
    | some rate =>
      rw [hrate] at hspec
      rw [Node.Stepped.conserved_iff hspec hlo hhi hdiffs hc]
      refine ⟨fun h rate' diff heq => ?_, fun h => h rate n.fineDiff rfl⟩
      obtain ⟨rfl, rfl⟩ := Prod.mk.inj (Option.some.inj heq)
      exact h

/-- A node in discovery, five coarse units after its start, that knows one neighbour. -/
def oneNeighbour (fineDiff : Int32) (fineOffset : UInt32) : Node Rat :=
  { Node.boot 44 with
    myState := .discovery
    tm := { rtimerInit with coarseCount := 5, fineOffset := fineOffset, schedulerFineOffsetRef := fineOffset }
    nb :=
      { memb := ⟨fun _ => 1, fun _ => { stranger with state := St.discovery.code, fineDiff := fineDiff }⟩
        modList := [⟨0, by decide⟩]
        list := []
        myDegree := 1 } }

omit [SoftDouble R] in
theorem inStep_of_zero {l : List (Neighbour R)} (h : ∀ n ∈ l, n.coarseDiff = 0) : InStep l := by
  have hnone : (l.countP fun n => n.coarseDiff != 0) = 0 := by
    refine countP_eq_zero.mpr fun n hn => ?_
    rw [h n hn]
    decide
  rw [InStep, hnone]
  exact UInt8.le_iff_toNat_le.mpr (Nat.zero_le _)

theorem oneNeighbour_proper (fineDiff : Int32) (fineOffset : UInt32) :
    Correction.update.Proper (oneNeighbour fineDiff fineOffset) := by
  intro l hl
  refine inStep_of_zero fun n hn => ?_
  have hmem := mem_of_mem_filter (hl.subset hn)
  obtain ⟨i, _, rfl⟩ := mem_map.mp hmem
  rfl

/-- A step of 1000 ticks is conserved. -/
theorem correct_conserves_near : EstimatesKept (oneNeighbour 1000 fineMax) ((oneNeighbour 1000 fineMax).correct .update) := by
  refine (correct_conserves (c := .update) (by decide) (by decide) (by decide)
    (by decide) (oneNeighbour_proper _ _)).mpr fun rate diff hstep _ => ?_
  have hsome : (oneNeighbour 1000 fineMax).stepOf .update = some (0, 1000) := by decide
  rw [hstep] at hsome
  obtain ⟨rfl, rfl⟩ := Prod.mk.inj (Option.some.inj hsome)
  exact ⟨⟨by decide, fun _ => by decide, fun _ => by decide⟩, fun _ => rfl⟩

/-- A neighbour is 60000000 ticks behind, and the offset is 40000000: it wraps, and is taken for a large one. -/
theorem step_below_zero : (oneNeighbour 60000000 40000000).tm.avgRate = 0 ∧
    Correction.update.Proper (oneNeighbour 60000000 40000000) ∧
    ¬ EstimatesKept (oneNeighbour 60000000 40000000) ((oneNeighbour 60000000 40000000).correct .update) := by
  refine ⟨rfl, oneNeighbour_proper _ _, fun h => ?_⟩
  have hfirst := h 0 (mem_singleton.mpr rfl)
  cases hfirst

end CSync
