import CSync.Node.Process

/-! The thread never reads the neighbours' entries.

    From one yield to the next `c_gtsp_process` works on the cluster lists, the slots, the timer and the
    announcements; of the neighbour table it reads the own degree only. So it does the same whatever
    the entries hold. -/

namespace CSync

open Lib

variable {R : Type} [SoftDouble R]

namespace Node

/-- The same node with another neighbour table. -/
def withTable (s : Node R) (nb : NeighbourTable R) : Node R := { s with nb := nb }

/-- `f` reads the own degree at most, and changes nothing in the table. -/
def OffTable (f : Node R → Node R) : Prop :=
  ∀ s nb, nb.myDegree = s.nb.myDegree → f (s.withTable nb) = (f s).withTable nb

variable {f g next : Node R → Node R}

section

omit [SoftDouble R]

theorem OffTable.nb_eq (hf : OffTable f) (s : Node R) : (f s).nb = s.nb := by
  have h : f s = (f s).withTable s.nb := hf s s.nb rfl
  rw [h]
  rfl

theorem OffTable.degree (hf : OffTable f) {s : Node R} {nb : NeighbourTable R} (h : nb.myDegree = s.nb.myDegree) :
    nb.myDegree = (f s).nb.myDegree := h.trans (congrArg NeighbourTable.myDegree (hf.nb_eq s).symm)

theorem OffTable.comp (hg : OffTable g) (hf : OffTable f) : OffTable fun s => g (f s) := by
  intro s nb h
  dsimp only
  rw [hf s nb h]
  exact hg (f s) nb (hf.degree h)

theorem OffTable.ite {p : Node R → Prop} [DecidablePred p]
    (hp : ∀ s nb, p (s.withTable nb) ↔ p s) (hf : OffTable f) (hg : OffTable g) :
    OffTable fun s => if p s then f s else g s := by
  intro s nb h
  dsimp only
  by_cases hs : p s
  · rw [if_pos hs, if_pos ((hp s nb).mpr hs)]
    exact hf s nb h
  · rw [if_neg hs, if_neg fun hs' => hs ((hp s nb).mp hs')]
    exact hg s nb h

theorem OffTable.role {k : Node R → Node R} (hf : OffTable f) (hg : OffTable g) (hk : OffTable k) :
    OffTable fun s => match s.cl.role with
      | .cb => f s
      | .ch => g s
      | .cm => k s := by
  intro s nb h
  dsimp only
  have hcl : (s.withTable nb).cl = s.cl := rfl
  rw [hcl]
  cases s.cl.role with
  | cb => exact hf s nb h
  | ch => exact hg s nb h
  | cm => exact hk s nb h

theorem OffTable.ofDegree {k : UInt8 → Node R → Node R} (hk : ∀ d, OffTable (k d)) :
    OffTable fun s => k s.nb.myDegree s := by
  intro s nb h
  have hdegree : (s.withTable nb).nb.myDegree = s.nb.myDegree := h
  dsimp only
  rw [hdegree]
  exact hk _ s nb h

end

theorem OffTable.ifScheduled {type : ScheduleType} {c d : Node R → UInt32} {func : Callback}
    {yes no : Node R → Node R} (hc : ∀ s nb, c (s.withTable nb) = c s) (hd : ∀ s nb, d (s.withTable nb) = d s)
    (hyes : OffTable yes) (hno : OffTable no) : OffTable fun s => s.ifScheduled type (c s) (d s) func yes no := by
  intro s nb h
  dsimp only
  rw [hc, hd, Node.ifScheduled, Node.ifScheduled]
  have hsched : (s.withTable nb).schedule type (c s) (d s) func =
      ((s.schedule type (c s) (d s) func).1, (s.schedule type (c s) (d s) func).2.withTable nb) := rfl
  rw [hsched]
  split
  · exact hyes _ nb h
  · exact hno _ nb h

theorem offTable_caseConnectionDeclaration : OffTable (caseConnectionDeclaration (R := R)) := by
  refine OffTable.ifScheduled (c := fun _ => 0) (d := fun _ => _) (fun _ _ => rfl) (fun _ _ => rfl) ?_ fun _ _ _ => rfl
  intro s nb h
  dsimp only [withTable]
  cases s.cl.role <;> rfl

theorem offTable_becomeBridge : OffTable (becomeBridge (R := R)) := by
  intro s nb h
  rw [becomeBridge, becomeBridge]
  dsimp only [withTable, radio, politeSetInterval, announce, noteDate, emit, mapAnn, Cluster.heads]
  rw [h]
  split <;> rfl

theorem offTable_caseConnectionRevelation : OffTable (caseConnectionRevelation (R := R)) := by
  have hswitch : OffTable fun s : Node R => s.ifScheduled .intervalRef 0 regularSlotInterval
      .enterConnectionDeclaration
      (fun s => if 1 < s.cl.chs.length ∧ s.cl.role = .cm then s.becomeBridge else s) id :=
    OffTable.ifScheduled (c := fun _ => 0) (d := fun _ => _) (fun _ _ => rfl) (fun _ _ => rfl)
      (OffTable.ite (fun _ _ => Iff.rfl) offTable_becomeBridge fun _ _ _ => rfl) fun _ _ _ => rfl
  have hkept : OffTable fun s : Node R => if s.tm.rt0.func = some .enterConvergence
      then (s.setRt0State .singlepass).caseConnectionDeclaration else s :=
    OffTable.ite (fun _ _ => Iff.rfl)
      (fun s nb h => offTable_caseConnectionDeclaration (s.setRt0State .singlepass) nb h) fun _ _ _ => rfl
  intro s nb h
  rw [caseConnectionRevelation, caseConnectionRevelation]
  have hs := hswitch s nb h
  dsimp only at hs ⊢
  rw [hs]
  exact hkept _ nb (hswitch.degree h)

theorem offTable_caseElectionDeclaration : OffTable (caseElectionDeclaration (R := R)) :=
  OffTable.ifScheduled (c := fun _ => 0) (d := fun _ => _) (fun _ _ => rfl) (fun _ _ => rfl)
    (.ofDegree (k := fun d s => ((s.announce .declaration d).mapAnn .declaration (·.setRefAddr s.myAddr)).addAndBump
      .declaration) fun _ _ _ _ => rfl) offTable_caseConnectionRevelation

theorem offTable_caseElectionRevelation : OffTable (caseElectionRevelation (R := R)) :=
  OffTable.ifScheduled (c := fun _ => 0) (d := fun _ => _) (fun _ _ => rfl) (fun _ _ => rfl)
    (.ofDegree (k := fun d s => (((s.politeInit 0).announce .revelation d).mapAnn .revelation
      (·.setRefAddr s.myAddr)).addAndBump .revelation) fun _ _ _ _ => rfl) offTable_caseElectionDeclaration

theorem offTable_phaseSwitch : OffTable (phaseSwitch (R := R)) := by
  intro s nb h
  rw [phaseSwitch, phaseSwitch]
  have hst : (s.withTable nb).myState = s.myState := rfl
  rw [hst]
  cases s.myState
  case electionRevelation => exact offTable_caseElectionRevelation s nb h
  case electionDeclaration => exact offTable_caseElectionDeclaration s nb h
  case connectionRevelation => exact offTable_caseConnectionRevelation s nb h
  case connectionDeclaration => exact offTable_caseConnectionDeclaration s nb h
  all_goals rfl

omit [SoftDouble R] in
theorem offTable_initConsensusSynchronization : OffTable (initConsensusSynchronization (R := R)) := by
  have hslot : OffTable fun s : Node R => if s.cl.role = .cb then
      { s with myConsSlot := s.cl.heads.foldl (fun slot ch =>
          if ch.addr ≠ s.refNChbAddr then ch.consSlot else slot) s.myConsSlot } else s :=
    OffTable.ite (fun _ _ => Iff.rfl) (fun _ _ _ => rfl) fun _ _ _ => rfl
  exact hslot.comp (f := fun s : Node R =>
    let s := { s with myConsSlot := numConsSlots + 1 - s.myConsSlot, cl := mirrorSlots s.cl }
    let acc := s.cl.heads.foldl earliestSlot
      (s.myAddr, if s.cl.role = .ch then s.myConsSlot else numConsSlots,
        if s.cl.role = .ch then 1 else s.mySyncBorder)
    { s with refNChbAddr := acc.1, refNChbDegree := acc.2.1, mySyncBorder := acc.2.2 })
    fun _ _ _ => rfl

theorem offTable_announceSynchronization : OffTable (announceSynchronization (R := R)) := by
  intro s nb h
  rw [announceSynchronization, announceSynchronization, offTable_initConsensusSynchronization s nb h]
  generalize s.initConsensusSynchronization = t
  have hprint : (t.withTable nb).printStatus = t.printStatus.withTable nb := rfl
  rw [hprint]
  generalize t.printStatus = u
  dsimp only [withTable]
  cases u.cl.role <;> rfl

omit [SoftDouble R] in
theorem offTable_beginIteration : OffTable (beginIteration (R := R)) := by
  refine OffTable.ite (p := fun s => 0 < s.consCtrlCounter) (fun _ _ => Iff.rfl) ?_ fun _ _ _ => rfl
  intro s nb h
  dsimp only [withTable]
  split <;> rfl

omit [SoftDouble R] in
theorem offTable_syncSlotsDone (hnext : OffTable next) : OffTable (syncSlotsDone next) :=
  OffTable.ite (p := fun s => s.refNChbDegree ≤ numConsSlots + 2) (fun _ _ => Iff.rfl)
    (f := fun s => { s with pc := .idleWait }) (fun _ _ _ => rfl) hnext

theorem offTable_syncSlotLoop (hnext : OffTable next) : ∀ k, OffTable (syncSlotLoop next k)
  | 0 => offTable_syncSlotsDone hnext
  | k + 1 => by
    have ih := (offTable_syncSlotLoop hnext k).comp
      (f := fun s => { s with refNChbDegree := s.refNChbDegree + 1 }) fun _ _ _ => rfl
    refine OffTable.ite (p := fun s => s.refNChbDegree ≤ numConsSlots + 1) (fun _ _ => Iff.rfl)
      ?_ (offTable_syncSlotsDone hnext)
    refine OffTable.ifScheduled (c := fun _ => 0) (d := syncSlotInterval) (fun _ _ => rfl)
      (fun _ _ => rfl) ?_ (ih.comp (f := (·.radio true)) fun _ _ _ => rfl)
    exact OffTable.ite (p := fun s => s.refNChbDegree ≤ numConsSlots) (fun _ _ => Iff.rfl) (fun _ _ _ => rfl) ih

theorem offTable_syncSlots (hnext : OffTable next) :
    OffTable (syncSlots next) := fun s nb h => offTable_syncSlotLoop hnext _ s nb h

theorem offTable_syncLoop : ∀ k, OffTable (syncLoop (R := R) k)
  | 0 => fun _ _ _ => rfl
  | k + 1 => by
    have hnext : OffTable fun s : Node R =>
        syncLoop k { s with consCtrlCounter := s.consCtrlCounter + 1 } :=
      fun s nb h => offTable_syncLoop k { s with consCtrlCounter := s.consCtrlCounter + 1 } nb h
    have hiterate : OffTable fun s : Node R => s.ifScheduled .intervalRef 0 (slotInterval 5)
        .enterIdle (fun s => s.announceSynchronization.syncSlots fun s =>
          syncLoop k { s with consCtrlCounter := s.consCtrlCounter + 1 })
        fun s => syncLoop k { s with consCtrlCounter := s.consCtrlCounter + 1 } := by
      refine OffTable.ifScheduled (c := fun _ => 0) (d := fun _ => _) (fun _ _ => rfl)
        (fun _ _ => rfl) (fun s nb h => ?_) hnext
      rw [offTable_announceSynchronization s nb h]
      exact offTable_syncSlots hnext _ nb (offTable_announceSynchronization.degree h)
    refine OffTable.ite (p := fun s => s.consCtrlCounter < numConsCtrlIterations)
      (fun _ _ => Iff.rfl) (fun s nb h => ?_) fun _ _ _ => rfl
    rw [offTable_beginIteration s nb h]
    exact hiterate _ nb (offTable_beginIteration.degree h)

theorem offTable_synchronization : OffTable (synchronization (R := R)) := fun s nb h => offTable_syncLoop _ s nb h

theorem offTable_endIteration : OffTable (endIteration (R := R)) :=
  fun s nb h => offTable_synchronization { s with consCtrlCounter := s.consCtrlCounter + 1 } nb h

theorem offTable_afterConvergence : OffTable (afterConvergence (R := R)) :=
  OffTable.ite (p := fun s => s.myConsSlot ≤ numConsSlots) (fun _ _ => Iff.rfl)
    (f := fun s => { s with pc := .revWait }) (fun _ _ _ => rfl) offTable_synchronization

omit [SoftDouble R] in
theorem offTable_convergenceActions (nCh : Nat) : OffTable fun s : Node R => s.convergenceActions nCh := by
  have hproactive : OffTable fun s : Node R => if 1 < nCh then
      (s.mapAnn .convergence (·.setInstr convergenceProactive)).politeSetInterval
        (4 * s.myPlacing.toUInt32 + 12) else s :=
    OffTable.ite (fun _ _ => Iff.rfl) (fun _ _ _ => rfl) fun _ _ _ => rfl
  refine OffTable.role (fun _ _ _ => rfl) ?_ fun _ _ _ => rfl
  exact OffTable.ite (p := fun s => s.mySlotAck = 0 ∧ (nCh ≤ 1 ∨ s.myConsSlot = s.myProactiveSlot))
    (fun _ _ => Iff.rfl) (OffTable.comp (g := fun s =>
      (s.mapAnn .convergence (·.setDegree s.myConsSlot)).bump .convergence) (fun _ _ _ => rfl)
      hproactive) fun _ _ _ => rfl

theorem offTable_convLoop : ∀ k, OffTable (convLoop (R := R) k)
  | 0 => offTable_afterConvergence
  | k + 1 => by
    have ih := (offTable_convLoop k).comp
      (f := fun s : Node R => { s with myConsSlot := s.myConsSlot + 1 }) fun _ _ _ => rfl
    refine OffTable.ite (p := fun s => s.myConsSlot ≤ numConsSlots) (fun _ _ => Iff.rfl) ?_ offTable_afterConvergence
    refine OffTable.ite (p := fun s => s.cl.role = .ch ∧ s.cl.chs.length = 0) (fun _ _ => Iff.rfl)
      (offTable_afterConvergence.comp (f := (·.radio false)) fun _ _ _ => rfl) ?_
    intro s nb h
    refine OffTable.ifScheduled (c := fun _ => 0) (d := fun s => slotInterval s.myConsSlot.toNat) (fun _ _ => rfl) (fun _ _ => rfl) ?_ ih s nb h
    exact (OffTable.ite (p := fun s => s.myConsSlot < numConsSlots) (fun _ _ => Iff.rfl)
      (f := fun s => { s with pc := .convSlot }) (fun _ _ _ => rfl) offTable_afterConvergence).comp
      (offTable_convergenceActions _)

theorem offTable_convergenceSlots : OffTable (convergenceSlots (R := R)) := fun s nb h => offTable_convLoop _ s nb h

theorem offTable_resumeConvSlot : OffTable (resumeConvSlot (R := R)) := by
  have hslots := (offTable_convergenceSlots (R := R)).comp
    (f := fun s => { s with myConsSlot := s.myConsSlot + 1 }) fun _ _ _ => rfl
  have hcall : OffTable fun s : Node R => s.ifScheduled .intervalRef 0 (slotInterval 5)
      .enterConsensusRevelation afterConvergence
      fun s => { s with myConsSlot := s.myConsSlot + 1 }.convergenceSlots :=
    OffTable.ifScheduled (c := fun _ => 0) (d := fun _ => _) (fun _ _ => rfl) (fun _ _ => rfl)
      offTable_afterConvergence hslots
  have hack : OffTable fun s : Node R => if s.cl.role = .cb then
      { s with mySlotAck := s.cl.heads.foldl (fun ack ch => ack * ch.consSlot) s.mySlotAck }
      else s :=
    OffTable.ite (fun _ _ => Iff.rfl) (fun _ _ _ => rfl) fun _ _ _ => rfl
  exact (OffTable.ite (p := fun s => s.mySlotAck ≠ 0) (fun _ _ => Iff.rfl)
    (hcall.comp (f := (·.radio false)) fun _ _ _ => rfl) hslots).comp hack

omit [SoftDouble R] in
theorem offTable_initConsensusConvergence : OffTable (initConsensusConvergence (R := R)) := by
  intro s nb h
  rw [initConsensusConvergence, initConsensusConvergence]
  dsimp only [withTable]
  split <;> rfl

omit [SoftDouble R] in
theorem offTable_repeatConvergence : OffTable (repeatConvergence (R := R)) := by
  refine OffTable.ite (p := fun s => 0 < s.consCtrlCounter) (fun _ _ => Iff.rfl) ?_ fun _ _ _ => rfl
  intro s nb h
  dsimp only [withTable]
  split <;> rfl

theorem offTable_prepareConvergence : OffTable (prepareConvergence (R := R)) := by
  have hplace : OffTable fun s : Node R =>
      { s with myPlacing := csyncChbPlacing s.cl s.myAddr s.nb.myDegree }.politeSetInterval
        (4 * (csyncChbPlacing s.cl s.myAddr s.nb.myDegree).toUInt32) :=
    .ofDegree (k := fun d s => { s with myPlacing := csyncChbPlacing s.cl s.myAddr d }.politeSetInterval
      (4 * (csyncChbPlacing s.cl s.myAddr d).toUInt32)) fun _ _ _ _ => rfl
  have hrole := (OffTable.role (f := fun s : Node R => s.politeSetInterval 0) (k := fun s => s)
    (fun _ _ _ => rfl) (hplace.comp offTable_initConsensusConvergence) fun _ _ _ => rfl).comp
    (f := fun s => (s.printStatus.mapAnn .convergence fun a =>
      (s.setArmedDate a).addValue).noteDate .convergence) fun _ _ _ => rfl
  intro s nb h
  have h := hrole s nb h
  rw [prepareConvergence, prepareConvergence]
  dsimp only at h ⊢
  have hcl : ((s.printStatus.mapAnn .convergence fun a =>
    (s.setArmedDate a).addValue).noteDate .convergence).cl = s.cl := rfl
  have hcl' : (((s.withTable nb).printStatus.mapAnn .convergence fun a =>
    ((s.withTable nb).setArmedDate a).addValue).noteDate .convergence).cl = s.cl := rfl
  rw [hcl, hcl'] at h ⊢
  cases hr : s.cl.role with
  | ch =>
    rw [hr] at h
    exact h
  | cb => rfl
  | cm => rfl

theorem offTable_startConvergence : OffTable (startConvergence (R := R)) := by
  have hslots : OffTable fun s : Node R =>
      if s.cl.role ≠ .cm then s.convergenceSlots else s.afterConvergence :=
    OffTable.ite (fun _ _ => Iff.rfl) offTable_convergenceSlots offTable_afterConvergence
  have hcall : OffTable fun s : Node R => s.ifScheduled .intervalRef 0 (slotInterval 5)
      .enterConsensusRevelation (fun s => if s.prepareConvergence.cl.role ≠ .cm
        then s.prepareConvergence.convergenceSlots else s.prepareConvergence.afterConvergence)
      afterConvergence :=
    OffTable.ifScheduled (c := fun _ => 0) (d := fun _ => _) (fun _ _ => rfl) (fun _ _ => rfl)
      (hslots.comp offTable_prepareConvergence) offTable_afterConvergence
  exact hcall.comp offTable_repeatConvergence

theorem offTable_resumePhase : OffTable (resumePhase (R := R)) := by
  refine OffTable.ite (p := fun s => s.myState.code < St.consensusConvergence.code)
    (fun _ _ => Iff.rfl) ?_ offTable_startConvergence
  exact OffTable.comp (g := fun s => { s with pc := .phase }) (fun _ _ _ => rfl) offTable_phaseSwitch

theorem offTable_resumeRevWait : OffTable (resumeRevWait (R := R)) := by
  refine OffTable.ifScheduled (c := fun _ => 0) (d := fun _ => _) (fun _ _ => rfl) (fun _ _ => rfl) ?_
    offTable_synchronization
  exact OffTable.comp (g := fun s => { s with pc := .revYield }) (fun _ _ _ => rfl)
    (OffTable.ite (p := fun s => s.cl.role = .ch) (fun _ _ => Iff.rfl) (fun _ _ _ => rfl) fun _ _ _ => rfl)

theorem offTable_resumeSyncSlot : OffTable (resumeSyncSlot (R := R)) := by
  have hslots := (offTable_syncSlots (offTable_endIteration (R := R))).comp
    (f := fun s => { s with refNChbDegree := s.refNChbDegree + 1 }) fun _ _ _ => rfl
  have hborder : OffTable fun s : Node R => if s.mySyncBorder ≠ 0 ∧ s.thisSyncSlot = s.myConsSlot then
      { (s.mapAnn .synchronization fun a =>
          (a.setDegree s.myConsSlot).setConsRate s.myConsRate).bump .synchronization with
        mySyncBorder := 0 }
      else s :=
    OffTable.ite (fun _ _ => Iff.rfl) (fun _ _ _ => rfl) fun _ _ _ => rfl
  exact (hslots.comp hborder).comp
    (f := fun s => { s.radio true with thisSyncSlot := s.refNChbDegree }) fun _ _ _ => rfl

theorem offTable_resumeIdleWait : OffTable (resumeIdleWait (R := R)) := by
  intro s nb h
  rw [resumeIdleWait, resumeIdleWait]
  exact OffTable.ifScheduled (c := fun s => s.an.synchronization.value.dateCoarse)
    (d := fun s => s.an.synchronization.value.dateFine + idleSlotInterval) (fun _ _ => rfl)
    (fun _ _ => rfl) (fun _ _ _ => rfl) offTable_endIteration s nb h

/-- THREAD: it neither reads nor changes the neighbours' entries. -/
theorem offTable_resume : OffTable (resume (R := R)) := by
  intro s nb h
  rw [resume, resume]
  have hpc : (s.withTable nb).pc = s.pc := rfl
  rw [hpc]
  cases s.pc with
  | phase => exact offTable_resumePhase s nb h
  | convSlot => exact offTable_resumeConvSlot s nb h
  | revWait => exact offTable_resumeRevWait s nb h
  | revYield => exact offTable_synchronization s nb h
  | syncSlot => exact offTable_resumeSyncSlot s nb h
  | idleWait => exact offTable_resumeIdleWait s nb h
  | idleYield => exact offTable_endIteration (s.broadcastStop.mapAnn .discovery (·.removeValue)) nb h

end Node

end CSync
