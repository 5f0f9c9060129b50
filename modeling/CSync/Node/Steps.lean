import CSync.Lib.Run
import CSync.Node.Rounds

/-! The steps of a node, seen at its skeleton.

    A step is a sequence of moves, a firing of the timer, or work past the phase loop. That the thread
    waits past the phase loop in late phases only is an invariant of all runs; with it the three cases
    are all there is to know of a step. -/

namespace CSync

open Lib

/-- The callbacks into the phases before the convergence. -/
def earlyCalls : List Callback :=
  [.enterElectionRevelation, .enterElectionDeclaration, .enterConnectionRevelation,
    .enterConnectionDeclaration]

/-- The thread is past the phase loop in late phases only, and a timer that can still fire there does
    not lead back. -/
structure Timed (c : Core) : Prop where
  late : c.pc ≠ .phase → arms c.st = []
  scheduled : arms c.st = [] → c.status = .scheduled → ∀ f, c.func = some f → f ∉ earlyCalls
  singlepass : arms c.st = [] ∨ c.st = .discovery ∨ c.st = .connectionDeclaration →
    c.status = .singlepass → ∀ f, c.func = some f → f ∉ earlyCalls

variable {c c' : Core}

theorem Timed.lists (h : Timed c) (cl : Cluster) : Timed { c with cl := cl } := ⟨h.late, h.scheduled, h.singlepass⟩

/-- A handler leaves late phases for late phases only, and into them and into a phase without a joined
    predecessor it takes no early callback. -/
theorem mem_joins_late (st : St) : ∀ j ∈ joins st, (arms st = [] → arms j.2 = []) ∧
    (arms j.2 = [] ∨ j.2 = .discovery ∨ j.2 = .connectionDeclaration →
      j.1 ∉ earlyCalls ∧ (arms st = [] ∨ st = .discovery ∨ st = .connectionDeclaration)) := by
  cases st <;> decide

theorem mem_refuse_late (st : St) : arms st = [] → ∀ f ∈ arms st ++ (joins st).map Prod.fst, f ∉ earlyCalls := by
  cases st <;> decide

theorem Timed.move {D : Defect → Prop} (h : Timed c) (hm : Move D c c') : Timed c' := by
  cases hm with
  | arm hf =>
    have hne : arms c.st ≠ [] := List.ne_nil_of_mem hf
    exact ⟨h.late, fun hl => absurd hl hne, nofun⟩
  | wake hne => exact ⟨h.late, fun hl => absurd hl hne, nofun⟩
  | refuse hf hsp =>
    refine ⟨h.late, fun hl _ f hfn => ?_, fun _ hs => absurd hs hsp⟩
    cases hfn
    exact mem_refuse_late c.st hl _ hf
  | drop => exact ⟨h.late, nofun, nofun⟩
  | join hj =>
    have hlate := mem_joins_late c.st _ hj
    refine ⟨fun hpc => hlate.1 (h.late hpc), nofun, fun hst _ f hfn => ?_⟩
    cases hfn
    exact (hlate.2 hst).1
  | pass hj hsp =>
    have hlate := mem_joins_late c.st _ hj
    refine ⟨fun hpc => hlate.1 (h.late hpc), fun _ hs => ?_, fun hst => ?_⟩
    · exact absurd (hsp.symm.trans hs) (by decide)
    · exact h.singlepass (hlate.2 hst).2
  | keep hne => exact ⟨h.late, fun hl => absurd hl hne, nofun⟩
  | declare hst =>
    refine ⟨fun hpc => ?_, nofun, fun _ => h.singlepass (.inr (.inl hst))⟩
    have hl := h.late hpc
    rw [hst] at hl
    cases hl
  | commoner => exact h.lists _
  | bridge => exact h.lists _
  | lists => exact h.lists _
  | forget => exact h.lists _
  | resign => exact h.lists _
  | link => exact h.lists _
  | slot => exact h.lists _
  | assign => exact h.lists _
  | blacklist => exact h.lists _

theorem Timed.work (h : Timed c) (hl : arms c.st = []) (hw : Work c c') (hp : Parked c') : Timed c' := by
  rcases hp with ⟨-, hlate⟩ | ⟨hpc, -, hfunc, -⟩
  · have harmed : ∀ x, c'.status = x → (x = .scheduled ∨ x = .singlepass) →
        ∀ f, c'.func = some f → f ∉ earlyCalls := by
      intro x hx hx' f hf
      rcases hw.armed f hf with hf' | ⟨hc, hst⟩
      · revert hf'
        cases f <;> decide
      · rcases hst with hst | hst
        · rcases hx' with rfl | rfl
          · exact h.scheduled hl (hst.symm.trans hx) f hc
          · exact h.singlepass (.inl hl) (hst.symm.trans hx) f hc
        · exact h.singlepass (.inl hl) hst f hc
    exact ⟨fun _ => hlate, fun _ hs => harmed _ hs (.inl rfl), fun _ hs => harmed _ hs (.inr rfl)⟩
  · have hnone : ∀ f, c'.func ≠ some f := fun f hf => by rw [hfunc] at hf; cases hf
    exact ⟨fun hne => absurd hpc hne, fun _ _ f hf => absurd hf (hnone f), fun _ _ f hf => absurd hf (hnone f)⟩

theorem Moves.pc_eq {D : Defect → Prop} (h : Moves D c c') : c'.pc = c.pc := by
  refine Moves.keeps (P := fun x : Core => x.pc = c.pc) (fun x y hx hm => ?_) h rfl
  cases hm <;> exact hx

namespace Node

variable {R : Type} [SoftDouble R]

/-- The defects that a step reaches. -/
def defects (s : Node R) (e : Event R) : Defect → Prop :=
  match e.act with
  | .heard id value rx => (s.prepare e).reaches id value rx
  | .process => fun d => d = .bridge ∧ s.pc = .phase ∧ s.cl.role = .cm ∧
      (s.myState = .electionRevelation ∨ s.myState = .electionDeclaration) ∧
      { s.prepare e with polled := false }.phaseSwitch.cl.role = .cb
  | _ => fun _ => False

/-- What a step is: the handler of a message, the timer, the thread or the overflow of the clock. -/
inductive StepOf (s : Node R) (e : Event R) : Node R → Prop
  | heard {id : AnnId} {value : AnnouncementValue R} {rx : Reception R} :
      e.act = .heard id value rx → StepOf s e ((s.prepare e).heard id value rx)
  | fired : e.act = .timer → s.tm.rt0.state = .scheduled → StepOf s e (s.prepare e).fire
  | resumed : e.act = .process → s.polled = true →
      StepOf s e { s.prepare e with polled := false }.resume
  | overflowed : e.act = .overflow →
      StepOf s e { s.prepare e with tm := rtimerLfOverflow (s.prepare e).tm }

variable {s t : Node R} {e : Event R} {c : Core}

theorem step_of (h : s.step e = some t) : s.cl.chsForeign = false ∧ StepOf s e t := by
  rw [step] at h
  split at h
  · cases h
  next hown =>
    refine ⟨Bool.eq_false_iff.mpr hown, ?_⟩
    dsimp only at h
    split at h
    next hact =>
      cases h
      exact .heard hact
    next hact =>
      split at h
      next hst =>
        cases h
        exact .fired hact hst
      · cases h
    next hact =>
      split at h
      next hpoll =>
        cases h
        exact .resumed hact hpoll
      · cases h
    next hact =>
      cases h
      exact .overflowed hact

theorem step_eq (h : s.step e = some t) : t = match e.act with
    | .heard id value rx => (s.prepare e).heard id value rx
    | .timer => (s.prepare e).fire
    | .process => { s.prepare e with polled := false }.resume
    | .overflow => { s.prepare e with tm := rtimerLfOverflow (s.prepare e).tm } := by
  obtain ⟨-, hof⟩ := step_of h
  cases hof with
  | heard hact => rw [hact]
  | fired hact => rw [hact]
  | resumed hact => rw [hact]
  | overflowed hact => rw [hact]

theorem step_heard {id : AnnId} {value : AnnouncementValue R} {rx : Reception R} (hact : e.act = .heard id value rx)
    (h : s.step e = some t) : t = (s.prepare e).heard id value rx := by
  have heq := step_eq h
  rwa [hact] at heq

theorem step_process (hact : e.act = .process) (h : s.step e = some t) :
    t = { s.prepare e with polled := false }.resume := by
  have heq := step_eq h
  rwa [hact] at heq

/-- What a step does to the skeleton. -/
inductive StepCase (s : Node R) (e : Event R) (t : Node R) : Prop
  | moves : Moves (s.defects e) s.core t.core → StepCase s e t
  | fired : s.tm.rt0.state = .scheduled → t.core = { s.core with
      st := (s.tm.rt0.func.map s.entered).getD s.myState, status := .inactive } → StepCase s e t
  | worked : arms s.myState = [] → Work s.core t.core → Parked t.core → StepCase s e t

theorem resume_phase (hpc : s.pc = .phase) (hl : arms s.myState ≠ []) :
    s.resume = { s.phaseSwitch with pc := .phase } := by
  rw [resume, hpc]
  rw [resumePhase, if_pos]
  revert hl
  cases s.myState <;> decide

/-- Nothing differs but the timer and the role. -/
def Looped (c c' : Core) : Prop := c'.st = c.st ∧ c'.cl = { c.cl with role := c'.cl.role }

section
variable (h : Looped c s.core)
include h

theorem ifScheduled_looped {type : ScheduleType} {x y : UInt32} {func : Callback}
    {yes no : Node R → Node R} (hyes : ∀ t, Looped c t.core → Looped c (yes t).core)
    (hno : ∀ t, Looped c t.core → Looped c (no t).core) : Looped c (s.ifScheduled type x y func yes no).core := by
  rw [ifScheduled]
  split
  · exact hyes _ h
  · exact hno _ h

theorem caseConnectionDeclaration_looped : Looped c s.caseConnectionDeclaration.core := by
  have hfill : ∀ t : Node R, (((t.announce .declaration t.refNChbDegree).mapAnn .declaration
      (·.setRefAddr t.refNChbAddr)).addAndBump .declaration).core = t.core := fun t => by
    rw [core_addAndBump, core_mapAnn, core_announce]
  refine ifScheduled_looped h (fun t ht => ?_) fun t ht => ht
  split
  · exact ht
  · exact (hfill t).symm ▸ ht
  · exact ht

theorem caseConnectionRevelation_looped : Looped c s.caseConnectionRevelation.core := by
  have hcall : Looped c (s.ifScheduled .intervalRef 0 regularSlotInterval .enterConnectionDeclaration
      (fun s => if 1 < s.cl.chs.length ∧ s.cl.role = .cm then s.becomeBridge else s) id).core := by
    refine ifScheduled_looped h (fun t ht => ?_) fun t ht => ht
    split
    · rw [core_becomeBridge]
      have hcl : t.cl = { c.cl with role := t.cl.role } := ht.2
      exact ⟨ht.1, congrArg (fun cl : Cluster => { cl with role := .cb }) hcl⟩
    · exact ht
  rw [caseConnectionRevelation]
  generalize s.ifScheduled .intervalRef 0 regularSlotInterval .enterConnectionDeclaration
    (fun s => if 1 < s.cl.chs.length ∧ s.cl.role = .cm then s.becomeBridge else s) id = t at hcall ⊢
  split
  · exact caseConnectionDeclaration_looped (s := t.setRt0State .singlepass) hcall
  · exact hcall

theorem caseElectionDeclaration_looped : Looped c s.caseElectionDeclaration.core := by
  have hfill : ∀ t : Node R, (((t.announce .declaration t.nb.myDegree).mapAnn .declaration
      (·.setRefAddr t.myAddr)).addAndBump .declaration).core = t.core := fun t => by
    rw [core_addAndBump, core_mapAnn, core_announce]
  exact ifScheduled_looped h (fun t ht => (hfill t).symm ▸ ht) fun _ ht => caseConnectionRevelation_looped ht

theorem caseElectionRevelation_looped : Looped c s.caseElectionRevelation.core := by
  have hfill : ∀ t : Node R, ((((t.politeInit 0).announce .revelation t.nb.myDegree).mapAnn .revelation
      (·.setRefAddr t.myAddr)).addAndBump .revelation).core = t.core := fun t => by
    rw [core_addAndBump, core_mapAnn, core_announce]
    rfl
  exact ifScheduled_looped h (fun t ht => (hfill t).symm ▸ ht) fun _ ht => caseElectionDeclaration_looped ht

end

/-- PHASE LOOP: it stays in its phase and leaves the lists alone. -/
theorem phaseSwitch_looped (s : Node R) : Looped s.core s.phaseSwitch.core := by
  have h : Looped s.core s.core := ⟨rfl, rfl⟩
  rw [phaseSwitch]
  split
  · exact caseElectionRevelation_looped h
  · exact caseElectionDeclaration_looped h
  · exact caseConnectionRevelation_looped h
  · exact caseConnectionDeclaration_looped h
  · exact h

/-- STEPS: in a node whose thread is past the phase loop in late phases only, a step is one of the three. -/
theorem step_case (hlate : s.pc ≠ .phase → arms s.myState = []) (h : s.step e = some t) : StepCase s e t := by
  obtain ⟨-, hof⟩ := step_of h
  cases hof with
  | @heard id value rx hact =>
    have hm := heard_moves (s.prepare e) id value rx
    refine .moves ?_
    rw [defects, hact]
    exact hm
  | fired _ hst => exact .fired hst (s.prepare e).core_fire
  | resumed hact _ =>
    by_cases hl : arms s.myState = []
    · obtain ⟨hw, hp⟩ := resume_done (s := { s.prepare e with polled := false }) hl
      exact .worked hl hw hp
    · have hpc : s.pc = .phase := Classical.byContradiction fun h => hl (hlate h)
      have hm := phaseSwitch_swept (D := s.defects e) { s.prepare e with polled := false }
        fun hcb hcm hst => by rw [defects, hact]; exact ⟨rfl, hpc, hcm, hst, hcb⟩
      have hpc' := hm.pc_eq.trans hpc
      rw [resume_phase (s := { s.prepare e with polled := false }) hpc hl]
      refine .moves ?_
      rw [← hpc']
      exact hm
  | overflowed _ => exact .moves .refl

omit [SoftDouble R] in
theorem entered_late (s : Node R) {f : Callback} (hl : arms s.myState = []) (hf : f ∉ earlyCalls) :
    arms (s.entered f) = [] := by
  cases f
  case enterConvergenceSlot =>
    rw [entered]
    split
    · exact hl
    · rfl
  case enterSynchronizationSlot =>
    rw [entered]
    split
    · exact hl
    · rfl
  case enterDiscovery => exact hl
  all_goals first | rfl | exact absurd (by decide) hf

theorem timed_step (h : Timed s.core) (hstep : s.step e = some t) : Timed t.core := by
  cases step_case h.late hstep with
  | moves hm => exact Moves.keeps (fun _ _ hc hm => hc.move hm) hm h
  | worked hl hw hp => exact h.work hl hw hp
  | fired hst hcore =>
    rw [hcore]
    refine ⟨fun hpc => ?_, nofun, nofun⟩
    have hl := h.late hpc
    cases hf : s.tm.rt0.func with
    | none => exact hl
    | some f => exact s.entered_late hl (h.scheduled hl hst f hf)

theorem resume_discovery (h : Timed s.core) (hst : s.myState = .discovery) : s.resume = { s with pc := .phase } := by
  have hne : arms s.myState ≠ [] := by rw [hst]; decide
  have hpc : s.pc = .phase := Classical.byContradiction fun h' => hne (h.late h')
  have hstay : s.phaseSwitch = s := by rw [phaseSwitch, hst]
  rw [resume_phase hpc hne, hstay]

/-- The address of a node never changes. -/
theorem step_myAddr (h : Timed s.core) (hstep : s.step e = some t) : t.myAddr = s.myAddr := by
  cases step_case h.late hstep with
  | moves hm =>
    refine Moves.keeps (P := fun c : Core => c.addr = s.myAddr) (fun _ _ hc hm => ?_) hm rfl
    cases hm <;> exact hc
  | worked _ hw _ => exact hw.addr_eq
  | fired _ hcore => exact congrArg Core.addr hcore

theorem timed_boot (a : UInt16) : Timed (boot (R := R) a).core :=
  ⟨fun h => absurd rfl h, nofun, nofun⟩

end Node

/-! ### Concrete events

    For runs on fixed inputs: the fine clock reads the time of the event, and the sender's clock
    agrees with the receiver's. -/

def eventAt (t : UInt32) (act : Node.Act Rat) : Node.Event Rat := ⟨act, fun _ => t, ⟨0, 0, 0, 0⟩⟩

/-- A message, with its instruction, degree, date and reference address. -/
def hearsAt (t : UInt32) (sender : UInt16) (id : AnnId) (instr degree : UInt8) (coarse fine : UInt32)
    (refAddr : UInt16) : Node.Event Rat :=
  eventAt t (.heard id ⟨instr, degree, coarse, fine, refAddr, 1⟩
    ⟨sender, 65500, 0, t - 5, fineMax, 1, 0, 100, 101, 100, 101, 1⟩)

/-- The timer fires and the process runs soon after. -/
def tickAt (t : UInt32) : List (Node.Event Rat) :=
  [eventAt t .timer, eventAt (t + 100) .process]

/-- A node knows one neighbour, which starts the election. -/
def oneNeighbourRun (neighbour : UInt16) (degree : UInt8) : List (Node.Event Rat) :=
  [hearsAt 1000 neighbour .discovery 0 degree 0 0 0, hearsAt 2000 neighbour .discovery 0 degree 0 0 0,
    hearsAt 5000 neighbour .discovery 1 degree 1 100000 0]

/-- Node 44 knows 48, of some degree, and 78, and declares itself in the election. -/
def twoNeighboursRun (degree : UInt8) : List (Node.Event Rat) :=
  [hearsAt 1000 48 .discovery 0 degree 0 0 0, hearsAt 2000 48 .discovery 0 degree 0 0 0,
    hearsAt 3000 78 .discovery 0 3 0 0 0, hearsAt 4000 78 .discovery 0 3 0 0 0,
    hearsAt 5000 48 .discovery 1 degree 1 100000 0] ++ tickAt 100000 ++ tickAt 257286

/-- Node 78 knows 44, 45 and 72, and hears their declarations in the election. -/
def threeNeighboursRun : List (Node.Event Rat) :=
  [hearsAt 500 44 .discovery 0 5 0 0 0, hearsAt 1500 44 .discovery 0 5 0 0 0,
    hearsAt 2000 45 .discovery 0 5 0 0 0, hearsAt 2500 45 .discovery 0 5 0 0 0,
    hearsAt 3000 72 .discovery 0 5 0 0 0, hearsAt 3500 72 .discovery 0 5 0 0 0,
    hearsAt 5000 44 .discovery 1 5 1 100000 0] ++ tickAt 100000 ++ tickAt 257286 ++
  [hearsAt 260000 72 .declaration 4 5 0 0 72, hearsAt 265000 45 .declaration 4 5 0 0 45,
    hearsAt 270000 44 .declaration 4 5 0 0 44]

/-- Node 44 becomes a bridge of 48 and 78; the timer of the convergence has fired. -/
def bridgeRun : List (Node.Event Rat) :=
  twoNeighboursRun 3 ++
  [hearsAt 260000 78 .declaration 4 3 0 0 78, hearsAt 270000 48 .declaration 4 3 0 0 48] ++
  tickAt 414572 ++ tickAt 571858 ++ [eventAt 729144 .timer]

/-- Both heads get a slot, and the bridge enters the synchronization. -/
def bridgeSyncRun : List (Node.Event Rat) :=
  bridgeRun ++ [eventAt 729244 .process, hearsAt 740000 48 .convergence 10 1 0 0 44] ++
  tickAt 886430 ++ [hearsAt 900000 78 .convergence 10 2 0 0 44] ++
  [1043716, 1515576, 1672862].flatMap tickAt

end CSync
