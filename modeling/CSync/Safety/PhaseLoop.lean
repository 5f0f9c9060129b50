import CSync.Node.Steps

/-! What the phase loop arms and announces.

    The thread arms `RTIMER_0` for the phase behind its own and fills the announcement of its own phase. Two
    mechanisms of the source stand in between. A timer that a handler has put in single pass keeps the callback of the
    handler. And a call of `rtimer_schedule` that fails falls through to the case of the next phase, which arms its
    own callback and fills its own announcement, still with the instruction of the phase the node is in. -/

namespace CSync

open Lib List

/-- The entry function of the phase behind one of the phase loop. -/
def follower : St → Option Callback
  | .electionRevelation => some .enterElectionDeclaration
  | .electionDeclaration => some .enterConnectionRevelation
  | .connectionRevelation => some .enterConnectionDeclaration
  | .connectionDeclaration => some .enterConvergence
  | _ => none

/-- The announcement of a phase: the revelation in the revelation phases, the declaration in the
    declaration phases. -/
def caseObject : St → AnnId
  | .electionRevelation => .revelation
  | .connectionRevelation => .revelation
  | _ => .declaration

/-- The cases that failed calls fall through to, from a phase on. -/
def fallsThrough : St → List St
  | .electionRevelation => [.electionDeclaration, .connectionRevelation]
  | .electionDeclaration => [.connectionRevelation]
  | _ => []

namespace Node

variable {R : Type} [SoftDouble R]

/-! ### Outputs -/

section
omit [SoftDouble R]

/-- A call of `rtimer_schedule` has succeeded. -/
def Arms (out : List (Out R)) : Prop :=
  ∃ type c f func before, .schedule type c f func before true ∈ out

/-- Everything that is bumped is on an announcement in `ids` and carries `instr`. -/
def Bumps (ids : List AnnId) (instr : UInt8) (out : List (Out R)) : Prop :=
  ∀ i v rt0, .bump i v rt0 ∈ out → i ∈ ids ∧ v.instr = instr

variable {ids : List AnnId} {instr : UInt8} {out : List (Out R)}

section
variable (h : Bumps ids instr out)
include h

theorem Bumps.append {o : Out R}
    (ho : ∀ i v rt0, o = .bump i v rt0 → i ∈ ids ∧ v.instr = instr) : Bumps ids instr (out ++ [o]) := by
  intro i v rt0 hmem
  rcases mem_append.mp hmem with hmem | hmem
  · exact h i v rt0 hmem
  · exact ho i v rt0 (mem_singleton.mp hmem).symm

theorem Bumps.emit
    {o : Out R} (ho : ∀ i v rt0, o ≠ .bump i v rt0) : Bumps ids instr (out ++ [o]) :=
  h.append fun i v rt0 heq => absurd heq (ho i v rt0)

theorem Bumps.bump {i : AnnId} {v : AnnouncementValue R} {rt0 : Rtimer} (hi : i ∈ ids) (hv :
    v.instr = instr) : Bumps ids instr (out ++ [.bump i v rt0]) := by
  refine h.append fun i' v' rt0' heq => ?_
  cases heq
  exact ⟨hi, hv⟩

end

theorem bumps_nil (ids : List AnnId) (instr : UInt8) : Bumps ids instr ([] : List (Out R)) :=
  fun _ _ _ hmem => absurd hmem not_mem_nil

/-- Nothing has been armed or bumped. -/
structure Idle (out : List (Out R)) : Prop where
  armed : ¬ Arms out
  bumps : ∀ ids instr, Bumps ids instr out

theorem idle_nil : Idle ([] : List (Out R)) :=
  ⟨fun ⟨_, _, _, _, _, hmem⟩ => absurd hmem not_mem_nil, fun ids instr => bumps_nil ids instr⟩

theorem Idle.refused (h : Idle out) (type : ScheduleType) (c f : UInt32)
    (func : Callback) (before : Rtimer) : Idle (out ++ [.schedule type c f func before false]) := by
  refine ⟨?_, fun ids instr => (h.bumps ids instr).emit fun _ _ _ heq => by cases heq⟩
  rintro ⟨type', c', f', func', before', hmem⟩
  rcases mem_append.mp hmem with hmem | hmem
  · exact h.armed ⟨_, _, _, _, _, hmem⟩
  · cases mem_singleton.mp hmem

end

variable {s : Node R}

/-- The rule for a call that succeeds. -/
theorem ifScheduled_accepted {P : Node R → Prop} {type : ScheduleType} {c f : UInt32}
    {func : Callback} {yes no : Node R → Node R} (hacc : (rtimerSchedule s.tm .rtimer0 type c f func).1 = true)
    (hyes : ∀ tm, tm.rt0.state = .scheduled → (tm.rt0.func = some func ∨ s.tm.rt0.state = .singlepass) →
      (s.tm.rt0.state = .singlepass → tm.rt0.func = s.tm.rt0.func) →
      P (yes { s with tm := tm, out := s.out ++ [.schedule type c f func s.tm.rt0 true] })) :
    P (s.ifScheduled type c f func yes no) := by
  refine ifScheduled_ends (fun tm _ hend => ?_) fun tm heq _ => ?_
  · cases hend with
    | singlepass hsp h => exact hyes _ (by rw [h]) (.inr hsp) fun _ => by rw [h]
    | armed hsp hf hs => exact hyes _ hs (.inl hf) fun h => absurd h hsp
  · rw [heq] at hacc
    cases hacc

/-! ### What the cases fill in -/

/-- The announcements a node bumps, with the phase `s` is in. -/
abbrev BumpsAt (s : Node R) (ids : List AnnId) (t : Node R) : Prop := Bumps ids s.myState.code t.out

theorem bumps_fillElectionRevelation (h : BumpsAt s [.revelation] s) : BumpsAt s [.revelation] ((((s.politeInit
    0).announce .revelation s.nb.myDegree).mapAnn .revelation (·.setRefAddr s.myAddr)).addAndBump .revelation) := by
  refine Bumps.bump (Bumps.emit (Bumps.emit h ?_) ?_) mem_cons_self rfl
  · exact fun _ _ _ heq => by cases heq
  · exact fun _ _ _ heq => by cases heq

theorem bumps_fillElectionDeclaration (h : BumpsAt s [.declaration] s) : BumpsAt s [.declaration] (((s.announce
    .declaration s.nb.myDegree).mapAnn .declaration (·.setRefAddr s.myAddr)).addAndBump .declaration) := by
  refine Bumps.bump (Bumps.emit h ?_) mem_cons_self rfl
  exact fun _ _ _ heq => by cases heq

theorem bumps_becomeBridge {ids : List AnnId} (hid : .revelation ∈ ids)
    (h : BumpsAt s ids s) : BumpsAt s ids s.becomeBridge := by
  rw [becomeBridge]
  split
  · refine Bumps.bump (Bumps.emit (Bumps.emit (Bumps.emit h ?_) ?_) ?_) hid rfl
    all_goals exact fun _ _ _ heq => by cases heq
  · refine Bumps.bump (Bumps.emit (Bumps.emit (Bumps.emit h ?_) ?_) ?_) hid rfl
    all_goals exact fun _ _ _ heq => by cases heq

theorem bumps_fillConnectionDeclaration {t : Node R} (hst : t.myState = s.myState)
    {ids : List AnnId} (hid : .declaration ∈ ids) (h : BumpsAt s ids t) : BumpsAt s ids (match t.cl.role with
      | .ch => t.radio true
      | .cb => ((t.announce .declaration t.refNChbDegree).mapAnn .declaration
          (·.setRefAddr t.refNChbAddr)).addAndBump .declaration
      | .cm => t) := by
  split
  · exact Bumps.emit h fun _ _ _ heq => by cases heq
  · refine Bumps.bump (Bumps.emit h ?_) hid (congrArg St.code hst)
    exact fun _ _ _ heq => by cases heq
  · exact h

/-! ### The ends of the switch -/

/-- The case of the phase `p` has armed the timer and filled its announcement. -/
structure ArmedBy (s : Node R) (p : St) (t : Node R) : Prop where
  state : t.tm.rt0.state = .scheduled
  func : t.tm.rt0.func = follower p
  bumps : BumpsAt s [caseObject p] t

/-- Nothing is armed, or a case in `ps` has armed the timer. -/
def CaseEnd (s : Node R) (ps : List St) (t : Node R) : Prop :=
  Idle t.out ∨ ∃ p ∈ ps, ArmedBy s p t

/-- The call of the phase's own case succeeds. -/
def ownCall (s : Node R) : Prop := ∃ func, follower s.myState = some func ∧
  (rtimerSchedule s.tm .rtimer0 .intervalRef 0 regularSlotInterval func).1 = true

section
variable {s t : Node R} (hst : t.myState = s.myState) (hidle : Idle t.out)
include hst hidle

theorem connectionRevelation_end (hsp : t.tm.rt0.state ≠ .singlepass) :
    CaseEnd s [.connectionRevelation] t.caseConnectionRevelation := by
  have hcall : CaseEnd s [.connectionRevelation] (t.ifScheduled .intervalRef 0 regularSlotInterval
      .enterConnectionDeclaration
      (fun s => if 1 < s.cl.chs.length ∧ s.cl.role = .cm then s.becomeBridge else s) id) ∧
      (t.ifScheduled .intervalRef 0 regularSlotInterval .enterConnectionDeclaration
        (fun s => if 1 < s.cl.chs.length ∧ s.cl.role = .cm then s.becomeBridge else s)
        id).tm.rt0.func = some .enterConnectionDeclaration := by
    refine ifScheduled_out (P := fun u : Node R => CaseEnd s [.connectionRevelation] u ∧
      u.tm.rt0.func = some .enterConnectionDeclaration) (fun tm _ hstate hfunc => ?_)
      fun tm _ hfunc => ?_
    · have hf := hfunc.resolve_right fun h => hsp h.1
      have hb : BumpsAt t [.revelation] { t with tm := tm, out := t.out ++ [.schedule .intervalRef 0
          regularSlotInterval .enterConnectionDeclaration t.tm.rt0 true] } :=
        (hidle.bumps _ _).emit fun _ _ _ heq => by cases heq
      split
      · have hcore := core_becomeBridge { t with tm := tm, out := t.out ++ [.schedule .intervalRef 0
          regularSlotInterval .enterConnectionDeclaration t.tm.rt0 true] }
        have hf' := (congrArg Core.func hcore).trans hf
        refine ⟨.inr ⟨_, mem_cons_self, (congrArg Core.status hcore).trans hstate, hf', ?_⟩, hf'⟩
        rw [BumpsAt, ← hst]
        exact bumps_becomeBridge mem_cons_self hb
      · refine ⟨.inr ⟨_, mem_cons_self, hstate, hf, ?_⟩, hf⟩
        rw [BumpsAt, ← hst]
        exact hb
    · refine ⟨.inl (hidle.refused _ _ _ _ _), ?_⟩
      exact (hfunc.resolve_right fun h => absurd h.2.1 (by decide)).2
  rw [caseConnectionRevelation]
  generalize t.ifScheduled .intervalRef 0 regularSlotInterval .enterConnectionDeclaration
    (fun s => if 1 < s.cl.chs.length ∧ s.cl.role = .cm then s.becomeBridge else s) id = u at hcall ⊢
  rw [if_neg (by rw [hcall.2]; decide)]
  exact hcall.1

theorem electionDeclaration_end (hsp : t.tm.rt0.state ≠ .singlepass) :
    CaseEnd s [.electionDeclaration, .connectionRevelation] t.caseElectionDeclaration := by
  refine ifScheduled_out (P := CaseEnd s _) (fun tm _ hstate hfunc => ?_) fun tm hstate _ => ?_
  · have hf := hfunc.resolve_right fun h => hsp h.1
    refine .inr ⟨_, mem_cons_self, hstate, hf, ?_⟩
    rw [BumpsAt, ← hst]
    refine bumps_fillElectionDeclaration (s := { t with tm := tm, out := _ }) ?_
    exact (hidle.bumps _ _).emit fun _ _ _ heq => by cases heq
  · rcases connectionRevelation_end (s := s) (t := { t with tm := tm, out := _ }) hst
      (hidle.refused _ _ _ _ _) (by rw [hstate]; exact hsp) with hend | ⟨p, hp, hend⟩
    · exact .inl hend
    · exact .inr ⟨p, mem_cons_of_mem _ hp, hend⟩

end

section

variable (hidle : Idle s.out) (hsp : s.tm.rt0.state ≠ .singlepass)
include hidle hsp

theorem election_own (hst : s.myState = .electionRevelation
    ∨ s.myState = .electionDeclaration) (hown : s.ownCall) : ArmedBy s s.myState s.phaseSwitch := by
  obtain ⟨func, hfollow, hacc⟩ := hown
  have hscheduled : ∀ (tm : RtimerState R) ids, BumpsAt s ids { s with tm := tm, out := s.out ++
      [.schedule .intervalRef 0 regularSlotInterval func s.tm.rt0 true] } := fun tm ids =>
    (hidle.bumps ids _).emit fun _ _ _ heq => by cases heq
  rcases hst with hst | hst
  · rw [hst] at hfollow ⊢
    cases hfollow
    rw [phaseSwitch, hst]
    refine ifScheduled_accepted (P := ArmedBy s .electionRevelation) hacc fun tm hstate hf _ => ?_
    refine ⟨hstate, hf.resolve_right hsp, ?_⟩
    exact bumps_fillElectionRevelation (s := { s with tm := tm, out := _ }) (hscheduled tm _)
  · rw [hst] at hfollow ⊢
    cases hfollow
    rw [phaseSwitch, hst]
    refine ifScheduled_accepted (P := ArmedBy s .electionDeclaration) hacc fun tm hstate hf _ => ?_
    refine ⟨hstate, hf.resolve_right hsp, ?_⟩
    exact bumps_fillElectionDeclaration (s := { s with tm := tm, out := _ }) (hscheduled tm _)

theorem connection_end (hst : s.myState =
    .connectionRevelation ∨ s.myState = .connectionDeclaration) : CaseEnd s [s.myState] s.phaseSwitch := by
  rcases hst with hst | hst
  · rw [phaseSwitch, hst]
    exact connectionRevelation_end rfl hidle hsp
  · rw [phaseSwitch, hst]
    refine ifScheduled_out (P := CaseEnd s _) (fun tm _ hstate hfunc => ?_) fun tm _ _ =>
      .inl (hidle.refused _ _ _ _ _)
    have hf := hfunc.resolve_right fun h => hsp h.1
    have hb := bumps_fillConnectionDeclaration (s := s) (t := { s with tm := tm, out := s.out ++
      [.schedule .intervalRef 0 regularSlotInterval .enterConvergence s.tm.rt0 true] }) rfl
      (show AnnId.declaration ∈ [AnnId.declaration] from mem_cons_self)
      ((hidle.bumps _ _).emit fun _ _ _ heq => by cases heq)
    refine .inr ⟨_, mem_cons_self, ?_, ?_, hb⟩
    · dsimp only
      split <;> exact hstate
    · dsimp only [follower]
      split <;> exact hf

theorem failed_end (hown : ¬ s.ownCall) : CaseEnd s (fallsThrough s.myState) s.phaseSwitch := by
  have hfail : ∀ func, follower s.myState = some func →
      (rtimerSchedule s.tm .rtimer0 .intervalRef 0 regularSlotInterval func).1 ≠ true :=
    fun func hf hacc => hown ⟨func, hf, hacc⟩
  rw [phaseSwitch]
  split
  next hst =>
    rw [hst] at hfail ⊢
    refine ifScheduled_out (P := CaseEnd s _) (fun tm hacc _ _ => absurd hacc (hfail _ rfl)) fun tm hstate _ => ?_
    exact electionDeclaration_end (s := s) (t := { s with tm := tm, out := _ }) rfl
      (hidle.refused _ _ _ _ _) (by rw [hstate]; exact hsp)
  next hst =>
    rw [hst] at hfail ⊢
    refine ifScheduled_out (P := CaseEnd s _) (fun tm hacc _ _ => absurd hacc (hfail _ rfl)) fun tm hstate _ => ?_
    exact connectionRevelation_end (s := s) (t := { s with tm := tm, out := _ }) rfl
      (hidle.refused _ _ _ _ _) (by rw [hstate]; exact hsp)
  next hst =>
    rw [hst] at hfail
    have hcall : ∀ u : Node R, u = s.ifScheduled .intervalRef 0 regularSlotInterval .enterConnectionDeclaration
        (fun s => if 1 < s.cl.chs.length ∧ s.cl.role = .cm then s.becomeBridge else s) id →
        Idle u.out ∧ u.tm.rt0.func ≠ some .enterConvergence := by
      rintro _ rfl
      refine ifScheduled_out (P := fun u : Node R => Idle u.out ∧
        u.tm.rt0.func ≠ some .enterConvergence) (fun tm hacc _ _ => absurd hacc (hfail _ rfl))
        fun tm _ hfunc => ⟨hidle.refused _ _ _ _ _, ?_⟩
      rw [id, (hfunc.resolve_right fun h => absurd h.2.1 (by decide)).2]
      decide
    obtain ⟨hu, hne⟩ := hcall _ rfl
    rw [caseConnectionRevelation, if_neg hne]
    exact .inl hu
  next hst =>
    rw [hst] at hfail
    exact ifScheduled_out (P := CaseEnd s _) (fun tm hacc _ _ => absurd hacc (hfail _ rfl))
      fun tm _ _ => .inl (hidle.refused _ _ _ _ _)
  · exact .inl hidle

end

/-! ### Single pass -/

/-- The announcements that a phase fills with a timer in single pass: its own, and in the connection
    revelation, with a timer armed for the convergence, that of the connection declaration too. -/
def keptObjects (s : Node R) : List AnnId :=
  if s.myState = .connectionRevelation ∧ s.tm.rt0.func = some .enterConvergence then
    [.revelation, .declaration]
  else [caseObject s.myState]

/-- The timer keeps its callback. -/
structure Kept (s t : Node R) : Prop where
  state : t.tm.rt0.state = .scheduled
  func : t.tm.rt0.func = s.tm.rt0.func
  bumps : BumpsAt s s.keptObjects t

/-- In single pass the first call succeeds. -/
theorem accepts_singlepass (hsp : s.tm.rt0.state = .singlepass) (func : Callback) :
    (rtimerSchedule s.tm .rtimer0 .intervalRef 0 regularSlotInterval func).1 = true := by
  rw [rtimerSchedule, if_neg (by decide), if_pos (by exact hsp)]

theorem connectionDeclaration_kept {t : Node R} (hst : t.myState = s.myState)
    (hsp : t.tm.rt0.state = .singlepass) (hfunc : t.tm.rt0.func = s.tm.rt0.func)
    (hid : .declaration ∈ s.keptObjects) (hb : BumpsAt s s.keptObjects t) : Kept s t.caseConnectionDeclaration := by
  refine ifScheduled_accepted (P := Kept s) (accepts_singlepass hsp _) fun tm hstate _ hf => ?_
  have hb' := bumps_fillConnectionDeclaration (s := s) (t := { t with tm := tm, out := t.out ++
    [.schedule .intervalRef 0 regularSlotInterval .enterConvergence t.tm.rt0 true] }) hst hid
    (hb.emit fun _ _ _ heq => by cases heq)
  refine ⟨?_, ?_, hb'⟩
  · dsimp only
    split <;> exact hstate
  · dsimp only
    split <;> exact (hf hsp).trans hfunc

theorem connectionRevelation_kept (hst : s.myState = .connectionRevelation)
    (hidle : Idle s.out) (hsp : s.tm.rt0.state = .singlepass) : Kept s s.caseConnectionRevelation := by
  have hid : .revelation ∈ s.keptObjects := by
    rw [keptObjects]
    split
    · exact mem_cons_self
    · rw [hst]
      exact mem_cons_self
  have hcall : Kept s (s.ifScheduled .intervalRef 0 regularSlotInterval .enterConnectionDeclaration
      (fun s => if 1 < s.cl.chs.length ∧ s.cl.role = .cm then s.becomeBridge else s) id) ∧
      (s.ifScheduled .intervalRef 0 regularSlotInterval .enterConnectionDeclaration
        (fun s => if 1 < s.cl.chs.length ∧ s.cl.role = .cm then s.becomeBridge else s)
        id).myState = s.myState := by
    refine ifScheduled_accepted (P := fun u : Node R => Kept s u ∧ u.myState = s.myState)
      (accepts_singlepass hsp _) fun tm hstate _ hf => ?_
    have hb : BumpsAt s s.keptObjects { s with tm := tm, out := s.out ++ [.schedule .intervalRef 0
        regularSlotInterval .enterConnectionDeclaration s.tm.rt0 true] } :=
      (hidle.bumps _ _).emit fun _ _ _ heq => by cases heq
    split
    · have hcore := core_becomeBridge { s with tm := tm, out := s.out ++ [.schedule .intervalRef 0
        regularSlotInterval .enterConnectionDeclaration s.tm.rt0 true] }
      exact ⟨⟨(congrArg Core.status hcore).trans hstate, (congrArg Core.func hcore).trans (hf hsp),
        bumps_becomeBridge hid hb⟩, congrArg Core.st hcore⟩
    · exact ⟨⟨hstate, hf hsp, hb⟩, rfl⟩
  rw [caseConnectionRevelation]
  generalize s.ifScheduled .intervalRef 0 regularSlotInterval .enterConnectionDeclaration
    (fun s => if 1 < s.cl.chs.length ∧ s.cl.role = .cm then s.becomeBridge else s) id = u at hcall ⊢
  obtain ⟨hkept, hust⟩ := hcall
  split
  next hconv =>
    have hdecl : .declaration ∈ s.keptObjects := by
      rw [keptObjects, if_pos ⟨hst, hkept.func.symm.trans hconv⟩]
      decide
    exact connectionDeclaration_kept (t := u.setRt0State .singlepass) hust rfl hkept.func hdecl hkept.bumps
  · exact hkept

theorem phaseSwitch_kept (hidle : Idle s.out) (hsp : s.tm.rt0.state = .singlepass)
    (hfollow : follower s.myState ≠ none) : Kept s s.phaseSwitch := by
  have hb : ∀ (tm : RtimerState R) func ids, BumpsAt s ids { s with tm := tm, out := s.out ++
      [.schedule .intervalRef 0 regularSlotInterval func s.tm.rt0 true] } := fun tm func ids =>
    (hidle.bumps ids _).emit fun _ _ _ heq => by cases heq
  rw [phaseSwitch]
  split
  next hst =>
    have hids : s.keptObjects = [.revelation] := by rw [keptObjects, hst]; rfl
    refine ifScheduled_accepted (P := Kept s) (accepts_singlepass hsp _) fun tm hstate _ hf => ?_
    refine ⟨hstate, hf hsp, ?_⟩
    rw [hids]
    exact bumps_fillElectionRevelation (s := { s with tm := tm, out := _ }) (hb tm _ _)
  next hst =>
    have hids : s.keptObjects = [.declaration] := by rw [keptObjects, hst]; rfl
    refine ifScheduled_accepted (P := Kept s) (accepts_singlepass hsp _) fun tm hstate _ hf => ?_
    refine ⟨hstate, hf hsp, ?_⟩
    rw [hids]
    exact bumps_fillElectionDeclaration (s := { s with tm := tm, out := _ }) (hb tm _ _)
  next hst => exact connectionRevelation_kept hst hidle hsp
  next hst =>
    have hids : s.keptObjects = [.declaration] := by rw [keptObjects, hst]; rfl
    exact connectionDeclaration_kept rfl hsp rfl (by rw [hids]; decide) (hidle.bumps _ _)
  next h₁ h₂ h₃ h₄ =>
    revert hfollow h₁ h₂ h₃ h₄
    cases s.myState <;> simp [follower]

/-- PHASE LOOP: when the thread has armed the timer in the phase loop and yields, a timer that was in
    single pass has kept its callback; otherwise the callback is the entry function of the phase
    behind the own one if the own call has succeeded, and that of the case fallen through to if it has
    not. What is bumped carries the own phase, on the announcement of the case. -/
theorem phase_loop_armed (s t : Node R) (e : Event R) (hstep : s.step e = some t) (hact : e.act = .process)
    (hpc : s.pc = .phase) (hloop : s.myState.code < St.consensusConvergence.code) (harmed : Arms t.out) :
    t.myState = s.myState ∧ t.pc = .phase ∧
      (s.tm.rt0.state = .singlepass → Kept s t) ∧
      (s.tm.rt0.state ≠ .singlepass → (s.prepare e).ownCall → ArmedBy s s.myState t) ∧
      (s.tm.rt0.state ≠ .singlepass → ¬ (s.prepare e).ownCall → ∃ p ∈ fallsThrough s.myState, ArmedBy s p t) := by
  have heq : t = { phaseSwitch { s.prepare e with polled := false } with pc := .phase } := by
    rw [step_process hact hstep, resume]
    dsimp only [prepare]
    rw [hpc]
    rw [resumePhase, if_pos hloop]
  have hst := (phaseSwitch_looped { s.prepare e with polled := false }).1
  have hidle : Idle (R := R) [] := idle_nil
  have hnot : ¬ Idle t.out := fun h => h.armed harmed
  subst heq
  refine ⟨hst, rfl, fun hsp => ?_, fun hsp hown => ?_, fun hsp hown => ?_⟩
  · have hfollow : follower s.myState ≠ none := by
      intro hnone
      refine hnot ?_
      have hstay : phaseSwitch { s.prepare e with polled := false } = { s.prepare e with polled := false } := by
        rw [phaseSwitch]
        dsimp only [prepare]
        revert hnone
        cases s.myState <;> simp [follower]
      rw [hstay]
      exact hidle
    obtain ⟨hstate, hfunc, hbumps⟩ := phaseSwitch_kept (s := { s.prepare e with polled := false }) hidle hsp hfollow
    exact ⟨hstate, hfunc, hbumps⟩
  · by_cases hel : s.myState = .electionRevelation ∨ s.myState = .electionDeclaration
    · obtain ⟨hstate, hfunc, hbumps⟩ := election_own (s := { s.prepare e with polled := false }) hidle hsp hel hown
      exact ⟨hstate, hfunc, hbumps⟩
    · have hcon : s.myState = .connectionRevelation ∨ s.myState = .connectionDeclaration := by
        obtain ⟨func, hfollow, -⟩ := hown
        revert hel hfollow
        change _ → follower s.myState = _ → _
        cases s.myState <;> simp [follower]
      rcases connection_end (s := { s.prepare e with polled := false }) hidle hsp hcon with
        hend | ⟨p, hp, hstate, hfunc, hbumps⟩
      · exact absurd hend hnot
      · cases mem_singleton.mp hp
        exact ⟨hstate, hfunc, hbumps⟩
  · rcases failed_end (s := { s.prepare e with polled := false }) hidle hsp hown with
      hend | ⟨p, hp, hstate, hfunc, hbumps⟩
    · exact absurd hend hnot
    · exact ⟨p, hp, hstate, hfunc, hbumps⟩

/-! ### Concrete runs -/

/-- A decidable condition for `Arms`. -/
def armsIn (out : List (Out Rat)) : Bool :=
  out.any fun o => match o with
    | .schedule _ _ _ _ _ true => true
    | _ => false

omit [SoftDouble R] in
theorem arms_of {out : List (Out Rat)} (h : armsIn out = true) : Arms out := by
  obtain ⟨o, ho, hs⟩ := any_eq_true.mp h
  split at hs
  · exact ⟨_, _, _, _, _, ho⟩
  · cases hs

/-- Node 44 enters the election. -/
def enterRun : List (Event Rat) :=
  oneNeighbourRun 48 3 ++ [eventAt 100000 .timer]

theorem phase_loop_armed_election :
    ∃ s t : Node Rat,
      Run step (fun _ _ => True) (boot 44) enterRun s ∧
      s.step (eventAt 100100 .process) = some t ∧
      Arms t.out ∧
      t.myState = .electionRevelation ∧
      t.tm.rt0.func = some .enterElectionDeclaration ∧
      Bumps [.revelation] 2 t.out := by
  obtain ⟨s, hrun, hs⟩ : ∃ s, Run step (fun _ _ => True) (boot 44) enterRun s ∧ _ :=
    exists_run (fun _ _ => true) (fun s => s.pc == .phase && s.myState == .electionRevelation &&
      s.tm.rt0.state != .singlepass && (rtimerSchedule (s.prepare (eventAt 100100 .process)).tm
        .rtimer0 .intervalRef 0 regularSlotInterval .enterElectionDeclaration).1 &&
      (s.step (eventAt 100100 .process)).any fun t => armsIn t.out)
      (fun _ _ _ => trivial) (by decide +kernel)
  simp only [Bool.and_eq_true, beq_iff_eq, bne_iff_ne] at hs
  obtain ⟨⟨⟨⟨hpc, hst⟩, hsp⟩, hacc⟩, harms⟩ := hs
  cases hstep : s.step (eventAt 100100 .process) with
  | none => rw [hstep] at harms; cases harms
  | some t =>
    rw [hstep] at harms
    have hown : (s.prepare (eventAt 100100 .process)).ownCall :=
      ⟨.enterElectionDeclaration, congrArg follower hst, hacc⟩
    obtain ⟨hst', -, -, harmed, -⟩ := phase_loop_armed s t _ hstep rfl hpc (by rw [hst]; decide) (arms_of harms)
    obtain ⟨-, hfunc, hbumps⟩ := harmed hsp hown
    rw [BumpsAt, hst] at hbumps
    rw [hst] at hfunc hst'
    exact ⟨s, t, hrun, hstep, arms_of harms, hst', hfunc, hbumps⟩

/-- Node 44 hears the connection declaration of 48 in the election declaration and joins it. -/
def joinRun : List (Event Rat) :=
  oneNeighbourRun 48 3 ++ tickAt 100000 ++ tickAt 257286 ++
  [hearsAt 260000 48 .declaration 8 3 1 600000 126]

/-- FAILS IN GENERAL: the node that has joined the connection yields in the connection revelation with a timer that is
    armed for the convergence, which the switch tests for. -/
theorem joined_timer_kept : ¬ ∀ (es : List (Event Rat)) (s t : Node Rat) (e : Event Rat),
    Run step (fun _ _ => True) (boot 44) es s → s.step e = some t → e.act = .process →
    s.pc = .phase → s.myState.code < St.consensusConvergence.code → Arms t.out →
    t.tm.rt0.func = follower t.myState ∧ Bumps [caseObject t.myState] t.myState.code t.out := by
  intro hall
  obtain ⟨s, hrun, hs⟩ : ∃ s, Run step (fun _ _ => True) (boot 44) joinRun s ∧ _ :=
    exists_run (fun _ _ => true) (fun s => s.pc == .phase && decide (s.myState.code < St.consensusConvergence.code) &&
      (s.step (eventAt 260100 .process)).any fun t => armsIn t.out && t.tm.rt0.func != follower t.myState)
      (fun _ _ _ => trivial) (by decide +kernel)
  simp only [Bool.and_eq_true, beq_iff_eq, decide_eq_true_eq] at hs
  obtain ⟨⟨hpc, hloop⟩, hany⟩ := hs
  cases hstep : s.step (eventAt 260100 .process) with
  | none => rw [hstep] at hany; cases hany
  | some t =>
    rw [hstep] at hany
    obtain ⟨harms, hne⟩ := Bool.and_eq_true_iff.mp hany
    exact (bne_iff_ne.mp hne) (hall joinRun s t _ hrun hstep rfl hpc hloop (arms_of harms)).1

end Node

end CSync
