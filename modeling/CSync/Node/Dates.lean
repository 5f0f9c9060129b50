import CSync.Node.Answers
import CSync.Node.Rounds

/-! The dates that the process thread announces.

    The thread writes the date of `RTIMER_0` into an announcement right behind a call of `rtimer_schedule` that has
    succeeded. So the callback in the record is the one the call asked for, unless the timer was in single pass, which
    keeps the callback it was armed with. Past the phase loop the thread calls again and again; a timer in single pass
    is taken over by the first call, so that only this one matters. -/

namespace CSync

open Lib

namespace Node

variable {R : Type} [SoftDouble R]

section

omit [SoftDouble R]

/-- A date is written with the callback that belongs to the announcement. -/
def Dated : Out R → Prop
  | .armedDate id value rt0 => ∀ func, dateCall id value.instr = some func → rt0.func = some func
  | _ => True

/-- All dates so far are right, and a timer that is still in single pass is armed for the idle phase. -/
structure Punctual (out : List (Out R)) (rt0 : Rtimer) : Prop where
  dated : ∀ o ∈ out, Dated o
  single : rt0.state = .singlepass → rt0.func = some .enterIdle

theorem dated_append {out : List (Out R)} (h : ∀ o ∈ out, Dated o) {o : Out R} (ho : Dated o) :
    ∀ o' ∈ out ++ [o], Dated o' := by
  intro x hx
  rcases List.mem_append.mp hx with hx | hx
  · exact h x hx
  · rw [List.mem_singleton.mp hx]
    exact ho

theorem Punctual.emit {out : List (Out R)} {rt0 : Rtimer} (h : Punctual out rt0) {o : Out R}
    (ho : Dated o) : Punctual (out ++ [o]) rt0 := ⟨dated_append h.dated ho, h.single⟩

end

variable {s : Node R}

/-- A call of `rtimer_schedule`; behind an accepted one the timer has the new callback or is armed for
    the idle phase. -/
theorem ifScheduled_punctual {P : Node R → Prop} {type : ScheduleType}
    {c f : UInt32} {func : Callback} {yes no : Node R → Node R} (h : Punctual s.out s.tm.rt0)
    (hyes : ∀ tm out, Punctual out tm.rt0 → (tm.rt0.func = some func ∨ tm.rt0.func = some .enterIdle) →
      P (yes { s with tm := tm, out := out }))
    (hno : ∀ tm out, Punctual out tm.rt0 → P (no { s with tm := tm, out := out })) :
    P (s.ifScheduled type c f func yes no) := by
  refine ifScheduled_out (fun tm _ hst hfunc => ?_) fun tm hst hfunc => ?_
  · refine hyes tm _ ⟨dated_append h.dated trivial, fun hsp => ?_⟩ ?_
    · rw [hst] at hsp
      cases hsp
    · exact hfunc.imp_right fun hsp => hsp.2.trans (h.single hsp.1)
  · refine hno tm _ ⟨dated_append h.dated trivial, fun hsp => ?_⟩
    rcases hfunc with ⟨hne, -⟩ | ⟨-, -, rfl⟩
    · exact absurd (hst.symm.trans hsp) hne
    · exact h.single hsp

/-! ### Synchronization slots -/

/-- The dates that the thread has written when it waits. -/
def DatesOf (s : Node R) : Prop := ∀ o ∈ s.out, Dated o

theorem restart_dated (h : Punctual s.out s.tm.rt0) : DatesOf s.restart := by
  refine dated_append (dated_append h.dated ?_) ?_ <;> trivial

omit [SoftDouble R] in
theorem beginIteration_punctual (h : Punctual s.out s.tm.rt0) :
    Punctual s.beginIteration.out s.beginIteration.tm.rt0 := by
  rw [beginIteration]
  split
  · dsimp only
    split
    · refine Punctual.emit (Punctual.emit h ?_) ?_ <;> trivial
    · exact h.emit trivial
  · exact h

omit [SoftDouble R] in
theorem initConsensusSynchronization_frame (s : Node R) :
    s.initConsensusSynchronization.out = s.out ∧ s.initConsensusSynchronization.tm = s.tm := by
  rw [initConsensusSynchronization]
  dsimp only
  split <;> exact ⟨rfl, rfl⟩

theorem announceSynchronization_punctual (h : Punctual s.out s.tm.rt0) (hfunc : s.tm.rt0.func = some .enterIdle) :
    Punctual s.announceSynchronization.out s.announceSynchronization.tm.rt0 := by
  have hannounce : ∀ t : Node R, Punctual t.out t.tm.rt0 → t.tm.rt0.func = some .enterIdle →
      Punctual (((t.announce .synchronization t.myConsSlot).mapAnn .synchronization
        fun a => (a.setRefAddr t.myAddr).addValue).radio false).out t.tm.rt0 := by
    intro t ht hidle
    have hdate : Punctual (t.announce .synchronization t.myConsSlot).out t.tm.rt0 :=
      ht.emit fun func hcall => hidle.trans hcall
    exact hdate.emit trivial
  obtain ⟨hout, htm⟩ : s.initConsensusSynchronization.printStatus.out = s.out ∧
    s.initConsensusSynchronization.printStatus.tm = s.tm := s.initConsensusSynchronization_frame
  rw [announceSynchronization]
  generalize s.initConsensusSynchronization.printStatus = t at hout htm ⊢
  rw [← hout, ← htm] at h
  rw [← htm] at hfunc
  cases t.cl.role with
  | ch => exact hannounce (t.politeSetInterval 0) (h.emit trivial) hfunc
  | cb => exact hannounce (t.politeSetInterval _) (h.emit trivial) hfunc
  | cm => exact hannounce t h hfunc

/-! ### Convergence slots -/

omit [SoftDouble R] in
theorem convergenceActions_punctual (h : Punctual s.out s.tm.rt0) (nCh : Nat) :
    Punctual (s.convergenceActions nCh).out (s.convergenceActions nCh).tm.rt0 := by
  rw [convergenceActions]
  split
  · exact h
  · split
    · dsimp only
      split
      · refine Punctual.emit (Punctual.emit h ?_) ?_ <;> trivial
      · exact h.emit trivial
    · exact h
  · exact h

/-- Past the phase loop the dates are right. -/
theorem punctual_rule : ThreadRule (R := R) (fun s => Punctual s.out s.tm.rt0) DatesOf where
  schedule h _ hyes hno := ifScheduled_punctual h (fun _ _ hw _ => hyes _ hw) fun _ _ hw => hno _ hw
  waits h _ := h.dated
  radio h := h.emit trivial
  degree h := h
  iterate h hyes hno := ifScheduled_punctual (beginIteration_punctual h)
    (fun _ _ hw hfunc => hyes _ (announceSynchronization_punctual hw (or_self_iff.mp hfunc)))
    fun _ _ hw => hno _ hw
  parks h _ := h.dated
  restart h := restart_dated h
  counters h := h
  actions nCh h := convergenceActions_punctual h nCh

theorem prepareConvergence_punctual (h : ∀ o ∈ s.out, Dated o)
    (hst : s.tm.rt0.state = .scheduled) (hfunc : s.tm.rt0.func = some .enterConsensusRevelation) :
    Punctual s.prepareConvergence.out s.prepareConvergence.tm.rt0 := by
  have hdate : Punctual ((s.mapAnn .convergence fun a =>
      (s.setArmedDate a).addValue).noteDate .convergence).out s.tm.rt0 := by
    refine ⟨dated_append h fun func hcall => hfunc.trans hcall, fun hsp => ?_⟩
    rw [hst] at hsp
    cases hsp
  have hinit : ∀ t : Node R, t.initConsensusConvergence.out = t.out ∧ t.initConsensusConvergence.tm = t.tm := by
    intro t
    rw [initConsensusConvergence]
    rcases CSync.initConsensusConvergence t.cl with ⟨ok, cl⟩
    cases ok <;> exact ⟨rfl, rfl⟩
  rw [prepareConvergence]
  generalize ht : (s.printStatus.mapAnn .convergence fun a => (s.setArmedDate a).addValue).noteDate .convergence = t
  have hpunctual : Punctual t.out t.tm.rt0 := by
    rw [← ht]
    exact hdate
  cases t.cl.role with
  | ch =>
    obtain ⟨hout, htm⟩ := hinit t
    rw [← hout, ← htm] at hpunctual
    exact hpunctual.emit trivial
  | cb => exact hpunctual.emit trivial
  | cm => exact hpunctual

/-- The date of the convergence is that of the consensus revelation, if a timer in single pass is armed for it. -/
theorem startConvergence_dated (hout : s.out = []) (hsingle : s.tm.rt0.state = .singlepass → s.tm.rt0.func = some
    .enterConsensusRevelation) : DatesOf s.startConvergence := by
  have hrep : (∀ o ∈ s.repeatConvergence.out, Dated o) ∧ s.repeatConvergence.tm = s.tm := by
    rw [repeatConvergence]
    have hnil : ∀ o ∈ s.out, Dated o := fun o ho => by rw [hout] at ho; cases ho
    split
    · dsimp only
      split
      · refine ⟨dated_append (dated_append hnil ?_) ?_, rfl⟩ <;> trivial
      · exact ⟨dated_append hnil trivial, rfl⟩
    · exact ⟨hnil, rfl⟩
  rw [startConvergence]
  generalize s.repeatConvergence = t at hrep ⊢
  obtain ⟨hdated, htm⟩ := hrep
  rw [← htm] at hsingle
  refine ifScheduled_out (P := DatesOf) (fun tm _ hst hfunc => ?_) fun tm hst hfunc => ?_
  · -- the accepted call: the date is written with the callback asked for
    have hcall : tm.rt0.func = some .enterConsensusRevelation := hfunc.elim id fun hsp => hsp.2.trans (hsingle hsp.1)
    have hprep := prepareConvergence_punctual (s := { t with
      tm := tm, out := t.out ++ [.schedule .intervalRef 0 (slotInterval 5)
        .enterConsensusRevelation t.tm.rt0 true] }) (dated_append hdated trivial) hst hcall
    dsimp only
    split
    · exact punctual_rule.convergenceSlots hprep
    · exact punctual_rule.afterConvergence hprep
  · refine punctual_rule.afterConvergence ⟨dated_append hdated trivial, fun hsp => ?_⟩
    rcases hfunc with ⟨hne, -⟩ | ⟨-, hzero, -⟩
    · exact absurd (hst.symm.trans hsp) hne
    · cases hzero

/-! ### The phase loop -/

omit [SoftDouble R] in
theorem datesOf_nil (h : s.out = []) : DatesOf s := by
  intro o ho
  rw [h] at ho
  cases ho

theorem caseConnectionDeclaration_dated (h : DatesOf s)
    (hfunc : ∀ tm : RtimerState R, (tm.rt0.func = some .enterConvergence ∨
        s.tm.rt0.state = .singlepass ∧ tm.rt0.func = s.tm.rt0.func) → s.cl.role = .cb →
      ∀ v, v.instr = s.myState.code → Dated (R := R) (.armedDate .declaration v tm.rt0)) :
    DatesOf s.caseConnectionDeclaration := by
  refine ifScheduled_out (P := DatesOf) (fun tm _ _ hcall => ?_) fun tm _ _ => ?_
  · dsimp only
    split
    · refine dated_append (dated_append h ?_) ?_ <;> trivial
    next hcb => refine dated_append (dated_append (dated_append h ?_) (hfunc tm hcall hcb _ rfl)) ?_ <;> trivial
    · exact dated_append h trivial
  · exact dated_append h trivial

theorem dateCall_revelation {st : St} (h : st ≠ .consensusRevelation) : dateCall .revelation st.code = none := by
  revert h
  cases st <;> decide

theorem dateCall_declaration {st : St} (h : st ≠ .electionDeclaration)
    (h' : st ≠ .connectionDeclaration) : dateCall .declaration st.code = none := by
  revert h h'
  cases st <;> decide

omit [SoftDouble R] in
theorem dated_of_none {id : AnnId} {value : AnnouncementValue R} {rt0 : Rtimer}
    (h : dateCall id value.instr = none) : Dated (.armedDate id value rt0) := by
  intro func hcall
  rw [h] at hcall
  cases hcall

theorem becomeBridge_dated (h : DatesOf s) (hst : s.myState ≠ .consensusRevelation) : DatesOf s.becomeBridge := by
  have hdate : ∀ (v : AnnouncementValue R) (rt0 : Rtimer), v.instr = s.myState.code →
      Dated (.armedDate .revelation v rt0) := by
    intro v rt0 hv
    refine dated_of_none ?_
    rw [hv]
    exact dateCall_revelation hst
  rw [becomeBridge]
  split
  · refine dated_append (dated_append (dated_append (dated_append h ?_) ?_) (hdate _ _ rfl)) ?_ <;> trivial
  · refine dated_append (dated_append (dated_append (dated_append h ?_) ?_) (hdate _ _ rfl)) ?_ <;> trivial

/-- The connection revelation. A timer in single pass is kept through it, so in the election it must
    not be in single pass. -/
theorem caseConnectionRevelation_dated (h : DatesOf s) (hrev : s.myState ≠ .consensusRevelation)
    (hdecl : s.myState ≠ .connectionDeclaration)
    (hsingle : s.myState = .electionDeclaration → s.tm.rt0.state ≠ .singlepass) :
    DatesOf s.caseConnectionRevelation := by
  have hswitch : ∀ u : Node R, u = s.ifScheduled .intervalRef 0 regularSlotInterval .enterConnectionDeclaration
      (fun s => if 1 < s.cl.chs.length ∧ s.cl.role = .cm then s.becomeBridge else s) id →
      DatesOf u ∧ u.myState = s.myState ∧
        (s.myState = .electionDeclaration → u.tm.rt0.func = some .enterConnectionDeclaration) := by
    rintro _ rfl
    refine ifScheduled_out (P := fun u : Node R => DatesOf u ∧ u.myState = s.myState ∧
      (s.myState = .electionDeclaration → u.tm.rt0.func = some .enterConnectionDeclaration))
      (fun tm _ _ hcall => ?_) fun tm _ hcall => ⟨dated_append h trivial, rfl, fun _ => ?_⟩
    · have hfunc : s.myState = .electionDeclaration → tm.rt0.func = some .enterConnectionDeclaration := fun hst =>
        hcall.resolve_right fun hsp => hsingle hst hsp.1
      split
      · have hcore := core_becomeBridge { s with tm := tm, out := s.out ++ [.schedule .intervalRef 0
          regularSlotInterval .enterConnectionDeclaration s.tm.rt0 true] }
        refine ⟨becomeBridge_dated (dated_append h trivial) hrev, congrArg Core.st hcore,
          fun hst => (congrArg Core.func hcore).trans (hfunc hst)⟩
      · exact ⟨dated_append h trivial, rfl, hfunc⟩
    · exact (hcall.resolve_right fun h => absurd h.2.1 (by decide)).2
  rw [caseConnectionRevelation]
  obtain ⟨hu, hst, hfunc⟩ := hswitch _ rfl
  generalize s.ifScheduled .intervalRef 0 regularSlotInterval .enterConnectionDeclaration
    (fun s => if 1 < s.cl.chs.length ∧ s.cl.role = .cm then s.becomeBridge else s) id = u
    at hu hst hfunc ⊢
  split
  next hconv =>
    refine caseConnectionDeclaration_dated (s := u.setRt0State .singlepass) hu fun tm _ _ v hv => dated_of_none ?_
    have helection : s.myState ≠ .electionDeclaration := fun hed => by
      rw [hfunc hed] at hconv
      cases hconv
    rw [hv]
    change dateCall .declaration u.myState.code = none
    rw [hst]
    exact dateCall_declaration helection hdecl
  · exact hu

theorem caseElectionDeclaration_dated (h : DatesOf s)
    (hst : s.myState = .electionRevelation ∨ s.myState = .electionDeclaration)
    (hsingle : s.tm.rt0.state = .singlepass → s.myState = .electionDeclaration →
        s.tm.rt0.func = some .enterConnectionRevelation) : DatesOf s.caseElectionDeclaration := by
  refine ifScheduled_out (P := DatesOf) (fun tm _ _ hcall => ?_) fun tm hstate hcall => ?_
  · -- the declaration says the callback asked for, in the election revelation it says none
    have hdate : ∀ v : AnnouncementValue R, v.instr = s.myState.code → Dated (.armedDate .declaration v tm.rt0) := by
      intro v hv
      rcases hst with hst | hst
      · refine dated_of_none ?_
        rw [hv, hst]
        decide
      · have hfunc : tm.rt0.func = some .enterConnectionRevelation :=
          hcall.elim id fun hsp => hsp.2.trans (hsingle hsp.1 hst)
        intro func hdate
        rw [hv, hst] at hdate
        exact hfunc.trans hdate
    refine dated_append (dated_append (dated_append h ?_) (hdate _ rfl)) ?_ <;> trivial
  · -- the refused call: the timer is not in single pass
    have hne : tm.rt0.state ≠ .singlepass := by
      rw [hstate]
      exact (hcall.resolve_right fun h => absurd h.2.1 (by decide)).1
    refine caseConnectionRevelation_dated (dated_append h trivial) ?_ ?_ fun _ => hne
    · rcases hst with hst | hst <;> exact fun h => absurd (hst.symm.trans h) (by decide)
    · rcases hst with hst | hst <;> exact fun h => absurd (hst.symm.trans h) (by decide)

/-- PHASE LOOP: the dates it writes are right, if a timer in single pass is armed for the connection revelation in the
    election declaration, and only a commoner's is in single pass in the connection declaration. -/
theorem phaseSwitch_dated (hout : s.out = [])
    (helection : s.tm.rt0.state = .singlepass → s.myState = .electionDeclaration →
        s.tm.rt0.func = some .enterConnectionRevelation)
    (hconnection : s.tm.rt0.state = .singlepass → s.myState = .connectionDeclaration → s.cl.role = .cm) :
    DatesOf s.phaseSwitch := by
  have hnil := datesOf_nil hout
  rw [phaseSwitch]
  split
  next hst =>
    refine ifScheduled_out (P := DatesOf) (fun tm _ _ _ => ?_) fun tm _ _ => ?_
    · have hdate : ∀ v : AnnouncementValue R, v.instr = s.myState.code → Dated (.armedDate .revelation v tm.rt0) := by
        intro v hv
        refine dated_of_none ?_
        rw [hv, hst]
        decide
      refine dated_append (dated_append (dated_append (dated_append hnil ?_) ?_) (hdate _ rfl)) ?_ <;> trivial
    · exact caseElectionDeclaration_dated (dated_append hnil trivial) (.inl hst)
        fun _ h => absurd (hst.symm.trans h) (by decide)
  next hst => exact caseElectionDeclaration_dated hnil (.inr hst) helection
  next hst =>
    refine caseConnectionRevelation_dated hnil ?_ ?_ ?_ <;> exact fun h => absurd (hst.symm.trans h) (by decide)
  next hst =>
    refine caseConnectionDeclaration_dated hnil fun tm hcall hcb v hv func hdate => ?_
    rw [hv, hst] at hdate
    rcases hcall with hfunc | ⟨hsp, -⟩
    · exact hfunc.trans hdate
    · exact absurd ((hconnection hsp hst).symm.trans hcb) (by decide)
  · exact hnil

/-! ### The thread -/

/-- The callback that the thread counts on when it goes on with a timer in single pass: past the phase
    loop it is about to write the date into an announcement. -/
def SinglePass (s : Node R) : Prop :=
  match s.pc with
  | .phase => ¬ s.myState.code < St.consensusConvergence.code →
      s.tm.rt0.func = some .enterConsensusRevelation
  | .revWait => s.cl.role = .ch → s.myState = .consensusRevelation →
      s.tm.rt0.func = some .enterConsensusSynchronization
  | .idleWait => s.an.synchronization.value.dateCoarse = 0 →
      s.an.synchronization.value.dateFine + idleSlotInterval = 0 → s.tm.rt0.func = some .enterIdle
  | _ => s.tm.rt0.func = some .enterIdle

theorem resumeRevWait_dated (hout : s.out = []) (hsingle : s.tm.rt0.state = .singlepass → s.cl.role = .ch → s.myState
    = .consensusRevelation → s.tm.rt0.func = some .enterConsensusSynchronization) : DatesOf s.resumeRevWait := by
  have hnil := datesOf_nil hout
  refine ifScheduled_out (P := DatesOf) (fun tm _ _ hcall => ?_) fun tm hst hcall => ?_
  · dsimp only
    split
    next hch =>
      have hdate : ∀ v : AnnouncementValue R, v.instr = s.myState.code → Dated (.armedDate .revelation v tm.rt0) := by
        intro v hv func hdate
        rw [hv] at hdate
        by_cases hrev : s.myState = .consensusRevelation
        · have hfunc : tm.rt0.func = some .enterConsensusSynchronization :=
            hcall.elim id fun hsp => hsp.2.trans (hsingle hsp.1 hch hrev)
          rw [hrev] at hdate
          exact hfunc.trans hdate
        · rw [dateCall_revelation hrev] at hdate
          cases hdate
      refine dated_append (dated_append (dated_append hnil ?_) (hdate _ rfl)) ?_ <;> trivial
    · exact dated_append hnil trivial
  · refine punctual_rule.synchronization ⟨dated_append hnil trivial, fun hsp => ?_⟩
    obtain ⟨hne, -⟩ := hcall.resolve_right fun h => absurd h.2.1 (by decide)
    exact absurd (hst.symm.trans hsp) hne

theorem resumeSyncSlot_dated (h : Punctual s.out s.tm.rt0) : DatesOf s.resumeSyncSlot := by
  rw [resumeSyncSlot]
  split
  · refine punctual_rule.syncSlots (fun t => punctual_rule.endIteration) ?_
    refine Punctual.emit (Punctual.emit h ?_) ?_ <;> trivial
  · refine punctual_rule.syncSlots (fun t => punctual_rule.endIteration) ?_
    exact h.emit trivial

/-- The broadcasts of the idle phase say the phase of the node, which is not the instruction that
    starts an election. -/
theorem resumeIdleWait_dated (hout : s.out = []) (hsingle : s.tm.rt0.state = .singlepass →
    s.an.synchronization.value.dateCoarse = 0 → s.an.synchronization.value.dateFine + idleSlotInterval = 0 →
    s.tm.rt0.func = some .enterIdle) : DatesOf s.resumeIdleWait := by
  have hnil := datesOf_nil hout
  refine ifScheduled_out (P := DatesOf) (fun tm _ _ _ => ?_) fun tm hst hcall => ?_
  · have hdate : ∀ v : AnnouncementValue R, v.instr = s.myState.code → Dated (.armedDate .discovery v tm.rt0) := by
      intro v hv
      refine dated_of_none ?_
      rw [hv]
      cases s.myState <;> decide
    refine dated_append (dated_append (dated_append (dated_append hnil ?_) ?_) (hdate _ rfl)) ?_ <;> trivial
  · refine punctual_rule.endIteration ⟨dated_append hnil trivial, fun hsp => ?_⟩
    rcases hcall with ⟨hne, -⟩ | ⟨hc, hf, rfl⟩
    · exact absurd (hst.symm.trans hsp) hne
    · exact hsingle hsp hc hf

/-- THREAD: every date that the thread writes is written with the callback that belongs to it. -/
theorem resume_dated (hout : s.out = []) (hsingle : s.tm.rt0.state = .singlepass → s.SinglePass)
    (helection : s.tm.rt0.state = .singlepass → s.myState = .electionDeclaration →
        s.tm.rt0.func = some .enterConnectionRevelation)
    (hconnection : s.tm.rt0.state = .singlepass → s.myState = .connectionDeclaration → s.cl.role = .cm) :
    DatesOf s.resume := by
  have hpunctual : (s.tm.rt0.state = .singlepass → s.tm.rt0.func = some .enterIdle) →
      Punctual s.out s.tm.rt0 := fun h => ⟨datesOf_nil hout, h⟩
  rw [resume]
  cases hpc : s.pc with
  | phase =>
    simp only [SinglePass, hpc] at hsingle
    dsimp only
    rw [resumePhase]
    split
    · exact phaseSwitch_dated hout helection hconnection
    next hlate => exact startConvergence_dated hout fun hsp => hsingle hsp hlate
  | revWait =>
    simp only [SinglePass, hpc] at hsingle
    exact resumeRevWait_dated hout hsingle
  | idleWait =>
    simp only [SinglePass, hpc] at hsingle
    exact resumeIdleWait_dated hout hsingle
  | convSlot =>
    simp only [SinglePass, hpc] at hsingle
    exact punctual_rule.resumeConvSlot (hpunctual hsingle)
  | revYield =>
    simp only [SinglePass, hpc] at hsingle
    exact punctual_rule.synchronization (hpunctual hsingle)
  | syncSlot =>
    simp only [SinglePass, hpc] at hsingle
    exact resumeSyncSlot_dated (hpunctual hsingle)
  | idleYield =>
    simp only [SinglePass, hpc] at hsingle
    exact punctual_rule.endIteration ((hpunctual hsingle).emit trivial)

end Node

end CSync
