import CSync.Node.Steps
import CSync.Node.Dates

/-! Phase agreement over whole runs.

    A node writes the date its timer is armed for into an announcement, and a neighbour that hears it arms its own
    timer for that date. The two agree on what begins then if the callback in the sender's record is the one that the
    announcement stands for, and the receiver takes it for the same phase. The receiver's side is a table of the
    handlers. The sender's side is an invariant: a timer in single pass keeps its callback through the next call of
    the thread, so the callback must be right already when a handler puts the timer there. -/

namespace CSync

open Lib

/-! ### Timers in single pass -/

/-- In the election a timer in single pass is armed for the connection revelation; in the connection
    declaration only a commoner's is in single pass. -/
structure Phased (c : Core) : Prop where
  election : c.status = .singlepass → c.st = .electionRevelation ∨ c.st = .electionDeclaration →
    c.func = some .enterConnectionRevelation
  connection : c.status = .singlepass → c.st = .connectionDeclaration → c.cl.role = .cm

variable {c : Core}

/-- The timer is not in single pass. -/
theorem Phased.awake (h : c.status ≠ .singlepass) : Phased c := ⟨fun hsp => absurd hsp h, fun hsp => absurd hsp h⟩

theorem Phased.lists (h : Phased c) {cl : Cluster}
    (hrole : cl.role = c.cl.role ∨ cl.role = .cm) : Phased { c with cl := cl } := by
  refine ⟨h.election, fun hsp hst => ?_⟩
  rcases hrole with hrole | hrole
  · exact hrole.trans (h.connection hsp hst)
  · exact hrole

theorem mem_joins_phased (st : St) : ∀ j ∈ joins st, (j.2 = .electionRevelation ∨ j.2 = .electionDeclaration → j.1 =
    .enterConnectionRevelation ∧ (st = .discovery ∨ st = .electionRevelation)) ∧ j.2 ≠ .connectionDeclaration := by
  cases st <;> decide

theorem linkMemb_role {R : Type} (value : AnnouncementValue R) (cl : Cluster) :
    (linkMemb value cl).role = cl.role := by
  rw [linkMemb]
  split <;> rfl

theorem blacklistAdd_role (addr : UInt16) (cl : Cluster) : (blacklistAdd addr cl).role = cl.role := by
  rw [blacklistAdd]
  split <;> rfl

/-- One move keeps it, unless the election is joined with a timer that is armed for another phase. -/
theorem Phased.move {D : Defect → Prop} (hD : ¬ D .pass) {c' : Core} (h : Phased c)
    (hm : Move D c c') : Phased c' := by
  cases hm with
  | arm => exact .awake (by simp)
  | wake => exact .awake (by simp)
  | refuse _ hsp => exact .awake hsp
  | drop => exact .awake (by simp)
  | keep => exact .awake (by simp)
  | join hj =>
    have hphased := mem_joins_phased c.st _ hj
    exact ⟨fun _ hst => congrArg some (hphased.1 hst).1, fun _ hst => absurd hst hphased.2⟩
  | pass hj hsp hpass =>
    have hphased := mem_joins_phased c.st _ hj
    refine ⟨fun _ hst => ?_, fun _ hst => absurd hst hphased.2⟩
    rcases (hphased.1 hst).2 with hdisc | hrev
    · exact absurd (hpass hdisc hst) hD
    · exact h.election hsp (.inl hrev)
  | declare _ hcm => exact ⟨fun _ hst => absurd hst (by simp), fun _ _ => hcm⟩
  | commoner => exact h.lists (.inr rfl)
  | bridge _ _ _ hmem =>
    refine ⟨h.election, fun _ hst => ?_⟩
    rw [show c.st = _ from hst] at hmem
    exact absurd hmem (by decide)
  | lists => exact h.lists (handleLists_role _ _ _ _ _ _)
  | forget => exact h.lists (.inl rfl)
  | resign => exact h.lists (.inr rfl)
  | link => exact h.lists (.inl (linkMemb_role _ _))
  | slot => exact h.lists (.inl rfl)
  | assign => exact h.lists (.inl rfl)
  | blacklist => exact h.lists (.inl (blacklistAdd_role _ _))

theorem Phased.parked (hp : Parked c) : Phased c := by
  rcases hp with ⟨-, hl⟩ | ⟨-, hdisc, -⟩
  · refine ⟨fun _ hst => ?_, fun _ hst => ?_⟩
    · rcases hst with hst | hst <;> (rw [hst] at hl; cases hl)
    · rw [hst] at hl; cases hl
  · refine ⟨fun _ hst => ?_, fun _ hst => ?_⟩
    · rw [hdisc] at hst
      exact absurd hst (by decide)
    · rw [hdisc] at hst
      cases hst

namespace Node

variable {R : Type} [SoftDouble R]

/-! ### Silence in discovery -/

/-- A node in discovery with a timer in single pass does not broadcast. -/
def Silent (s : Node R) : Prop :=
  s.myState = .discovery → s.tm.rt0.state = .singlepass → s.an.discovery.hasValue = false

/-- What a handler does in discovery: it gives the announcement no value, and takes the value away
    when it puts the timer in single pass. -/
structure Muted (s t : Node R) : Prop where
  value : t.an.discovery.hasValue = true → s.an.discovery.hasValue = true
  single : t.myState = .discovery → t.tm.rt0.state = .singlepass →
    s.tm.rt0.state = .singlepass ∨ t.an.discovery.hasValue = false

variable {s t : Node R} {value : AnnouncementValue R} {e : Event R} {id : AnnId}

omit [SoftDouble R] in
theorem Muted.same (hvalue : t.an.discovery.hasValue = s.an.discovery.hasValue)
    (hstate : t.tm.rt0.state = s.tm.rt0.state) : Muted s t :=
  ⟨fun h => hvalue.symm.trans h, fun _ h => .inl (hstate.symm.trans h)⟩

omit [SoftDouble R] in
theorem Muted.removed (h : t.an.discovery.hasValue = false) : Muted s t :=
  ⟨fun ht => absurd (h.symm.trans ht) (by decide), fun _ _ => .inr h⟩

theorem muted_joinAt {u : Node R} {func : Callback} {enter : Node R → Node R} (hs : Muted u s)
    (henter : ∀ t : Node R, (enter t).an.discovery.hasValue = false) : Muted u (s.joinAt value func enter) := by
  rw [joinAt, ifScheduledAt]
  refine ifScheduled_out (P := Muted u) (fun tm _ _ _ => .removed ?_) fun tm hst _ => ?_
  · exact henter _
  · exact ⟨hs.value, fun h hsp => hs.single h (hst.symm.trans hsp)⟩

section

variable (s : Node R) (value : AnnouncementValue R)

theorem muted_joinRevelation (n : Neighbour R) :
    Muted s (s.joinRevelation value n) := by
  rw [joinRevelation]
  split
  · dsimp only
    split
    · exact muted_joinAt (s := s.politeCancel) (.same rfl rfl) fun _ => rfl
    · exact .same rfl rfl
  · split
    · exact muted_joinAt (.same rfl rfl) fun _ => rfl
    · split
      · refine muted_joinAt (.same rfl rfl) fun t => ?_
        dsimp only
        split <;> rfl
      · exact .same rfl rfl

theorem removed_joinDeclaration (n : Neighbour R) :
    (s.joinDeclaration value n).an.discovery.hasValue = false := by
  rw [joinDeclaration]
  split
  · rfl
  · split
    · exact ifScheduled_out (P := fun t : Node R => t.an.discovery.hasValue = false)
        (fun tm _ _ _ => rfl) fun tm _ _ => rfl
    · rfl

theorem removed_joinSynchronization (n : Neighbour R) :
    (s.joinSynchronization value n).an.discovery.hasValue = false := by
  have hlink : ∀ t : Node R, t.an.discovery.hasValue = false →
      (t.linkSynchronization value n).an.discovery.hasValue = false := by
    intro t ht
    rw [linkSynchronization]
    split
    · obtain ⟨nb, tm, rate, out, -, heq⟩ := csyncTrustedSynchronization_spec { t with
        cl := linkMemb value t.cl, myConsSlot := value.degree } n value.refAddr value.consRate
      dsimp only
      rw [heq]
      exact ht
    · exact ht
  exact ifScheduled_out (P := fun t : Node R => t.an.discovery.hasValue = false)
    (fun tm _ _ _ => hlink _ rfl) fun tm _ _ => rfl

theorem muted_startElection : Muted s (s.startElection value) := by
  have harmed : ∀ t : Node R, t.an.discovery.hasValue = s.an.discovery.hasValue →
      t.tm.rt0.state ≠ .singlepass → Muted s t := fun t hvalue hne =>
    ⟨fun h => hvalue.symm.trans h, fun _ hsp => absurd hsp hne⟩
  have hscheduled : ∀ tm : RtimerState R, tm.rt0.state = .scheduled →
      tm.rt0.state ≠ .singlepass := fun tm h => by rw [h]; decide
  rw [startElection]
  split
  · exact ifScheduled_out (P := Muted s) (fun tm _ hst _ => harmed _ rfl (hscheduled tm hst))
      fun tm hst _ => .same rfl hst
  · split
    · split
      · exact ifScheduled_out (P := Muted s) (fun tm _ hst _ => harmed _ rfl (hscheduled tm hst))
          fun tm _ _ => harmed _ rfl (by simp [setRt0State, mapAnn])
      · exact .same rfl rfl
    · exact .same rfl rfl

end

omit [SoftDouble R] in
/-- Behind the reception of a packet. -/
theorem Muted.received {u : Node R} (h : s.Received t) (hu : Muted t u) : Muted s u := by
  obtain ⟨nb, tm, an, harm, hgrade, rfl⟩ := h
  have hvalue : an.discovery.hasValue = s.an.discovery.hasValue := by
    rcases hgrade with rfl | ⟨d, rfl⟩ <;> rfl
  refine ⟨fun h => hvalue.symm.trans (hu.value h), fun hst hsp => ?_⟩
  exact (hu.single hst hsp).imp_left harm.state_eq.symm.trans

theorem muted_whenSynced {rx : Reception R} {handle : Node R → Neighbour R → Node R}
    (h : ∀ t n, t.myState = s.myState → Muted t (handle t n)) : Muted s (s.whenSynced value rx handle) :=
  whenSynced_rule (P := Muted s) (fun _ ht => .received ht (.same rfl rfl))
    fun t n _ ht => .received ht (h t n (myState_of_received ht))

theorem heard_muted (s : Node R) (id : AnnId) (value : AnnouncementValue R) (rx : Reception R)
    (hst : s.myState = .discovery) : Muted s (s.heard id value rx) := by
  cases id with
  | discovery =>
    change Muted s (s.receivedDiscoveryAnnouncement value rx)
    refine whenReceived_rule (P := Muted s) (fun _ ht => .received ht (.same rfl rfl)) ?_
    intro t n ht
    refine .received ht ?_
    have hmsg : ∀ u : Node R, u.an = t.an → u.tm = t.tm → Muted t
        (if u.myState = .discovery then u.checkSynced.startElection value else u) := by
      intro u han htm
      have hsynced : u.checkSynced.an.discovery.hasValue = t.an.discovery.hasValue ∧ u.checkSynced.tm = t.tm := by
        rw [checkSynced, ← han, ← htm]
        split <;> exact ⟨rfl, rfl⟩
      split
      · obtain ⟨hvalue, hsingle⟩ := muted_startElection u.checkSynced value
        rw [hsynced.1] at hvalue
        rw [hsynced.2] at hsingle
        exact ⟨hvalue, hsingle⟩
      · exact .same (by rw [han]) (by rw [htm])
    split <;> exact hmsg _ rfl rfl
  | revelation =>
    change Muted s (s.receivedRevelationAnnouncement value rx)
    refine muted_whenSynced fun t n ht => ?_
    rw [revelationMessage, ht, hst]
    exact muted_joinRevelation t value n
  | declaration =>
    change Muted s (s.receivedDeclarationAnnouncement value rx)
    refine muted_whenSynced fun t n ht => ?_
    rw [declarationMessage, ht, hst]
    exact .removed (removed_joinDeclaration t value n)
  | convergence =>
    change Muted s (s.receivedConvergenceAnnouncement value rx)
    refine muted_whenSynced fun t n ht => ?_
    rw [convergenceMessage, ht, hst]
    exact .same rfl rfl
  | synchronization =>
    change Muted s (s.receivedSynchronizationAnnouncement value rx)
    rw [receivedSynchronizationAnnouncement]
    split
    · exact .same rfl rfl
    · refine muted_whenSynced fun t n ht => ?_
      rw [synchronizationMessage, ht, hst]
      exact .removed (removed_joinSynchronization t value n)

/-! ### Steps and runs -/

/-- No handler joins the election from discovery with a timer that is armed for another phase, and the thread does not
    go on with a timer in single pass that is armed for another phase than the one it is about to announce. -/
def KeepsPhases (s : Node R) (e : Event R) : Prop :=
  ¬ s.defects e .pass ∧
    match e.act with
    | .process => s.tm.rt0.state = .singlepass → s.SinglePass
    | _ => True

/-- Between two steps. -/
structure PhasedAt (s : Node R) : Prop where
  timed : Timed s.core
  phased : Phased s.core
  silent : Silent s

theorem Moves.leaves_discovery {D : Defect → Prop} {c c' : Core} (h : Moves D c c')
    (hst : c.st ≠ .discovery) : c'.st ≠ .discovery := by
  refine Moves.keeps (P := fun x : Core => x.st ≠ .discovery) (fun x y hx hm => ?_) h hst
  have hjoins : ∀ j ∈ joins x.st, j.2 ≠ .discovery := by
    revert hx
    cases x.st <;> decide
  cases hm with
  | join hj => exact hjoins _ hj
  | pass hj => exact hjoins _ hj
  | declare => simp
  | _ => exact hx

theorem silent_step (htimed : Timed s.core) (h : Silent s) (hstep : s.step e = some t) : Silent t := by
  intro hdisc hsp
  by_cases hst : s.myState = .discovery
  · obtain ⟨-, hof⟩ := step_of hstep
    cases hof with
    | @heard id value rx _ =>
      have hmuted := heard_muted (s.prepare e) id value rx hst
      rcases hmuted.single hdisc hsp with hsp' | hvalue
      · have hnone : s.an.discovery.hasValue = false := h hst hsp'
        exact Bool.eq_false_iff.mpr fun ht => Bool.eq_false_iff.mp hnone (hmuted.value ht)
      · exact hvalue
    | fired =>
      have hinactive : (s.prepare e).fire.tm.rt0.state = .inactive := congrArg Core.status (s.prepare e).core_fire
      exact absurd (hinactive.symm.trans hsp) (by decide)
    | resumed =>
      rw [resume_discovery (s := { s.prepare e with polled := false }) htimed hst] at hsp ⊢
      exact h hst hsp
    | overflowed => exact h hst hsp
  · cases step_case htimed.late hstep with
    | moves hm => exact absurd hdisc (Moves.leaves_discovery hm hst)
    | worked _ _ hp =>
      rcases hp with ⟨-, hl⟩ | ⟨-, -, -, hexpired⟩
      · rw [show t.core.st = .discovery from hdisc] at hl
        cases hl
      · exact absurd (hexpired.symm.trans hsp) (by decide)
    | fired _ hcore => exact absurd ((congrArg Core.status hcore).symm.trans hsp) (by simp)

theorem phased_step (h : PhasedAt s) (hok : s.KeepsPhases e) (hstep : s.step e = some t) : PhasedAt t := by
  refine ⟨timed_step h.timed hstep, ?_, silent_step h.timed h.silent hstep⟩
  cases step_case h.timed.late hstep with
  | moves hm => exact Moves.keeps (fun _ _ hc hm => hc.move hok.1 hm) hm h.phased
  | worked _ _ hp => exact .parked hp
  | fired _ hcore =>
    rw [hcore]
    exact .awake (by simp)

theorem phasedAt_boot (a : UInt16) : PhasedAt (boot (R := R) a) :=
  ⟨timed_boot a, ⟨nofun, nofun⟩, nofun⟩

theorem phased_run {a : UInt16} {es : List (Event R)} (hrun : Run step KeepsPhases (boot a) es s) : PhasedAt s :=
  hrun.invariant (fun _ _ _ hs hok hst => phased_step hs hok hst) (phasedAt_boot a)

/-! ### Agreement -/

section
omit [SoftDouble R]

theorem adds_enterIdle (s : Node R) : Adds s.out s.enterIdle.out := by
  refine ((Adds.refl _).emit ?_).emit ?_ <;> trivial

/-- No callback arms the timer or writes a date. -/
theorem adds_call (s : Node R) (f : Callback) : Adds s.out (s.call f).out := by
  have hcancel : Adds s.out s.politeCancel.out := (Adds.refl _).emit trivial
  cases f with
  | enterElectionRevelation => exact s.adds_enterElectionRevelation
  | enterElectionDeclaration => exact s.adds_enterElectionDeclaration
  | enterConnectionRevelation => exact s.adds_enterConnectionRevelation
  | enterConnectionDeclaration => exact hcancel
  | enterConvergence => exact s.adds_enterConvergence
  | enterConvergenceSlot =>
    rw [call, enterConvergenceSlot]
    split
    · exact hcancel
    · exact hcancel.trans s.politeCancel.adds_enterConsensusRevelation
  | enterConsensusRevelation => exact s.adds_enterConsensusRevelation
  | enterConsensusSynchronization => exact s.adds_enterConsensusSynchronization
  | enterSynchronizationSlot =>
    rw [call, enterSynchronizationSlot]
    split
    · exact hcancel
    · exact hcancel.trans s.politeCancel.adds_enterIdle
  | enterIdle => exact s.adds_enterIdle
  | enterDiscovery => exact s.adds_enterDiscovery

theorem adds_fire (s : Node R) : Adds s.out s.fire.out := by
  rw [fire]
  split
  · exact adds_call { s.setRt0State .justExpired with
      tm := rtimerLfUpdate (s.setRt0State .justExpired).tm } _
  · exact Adds.refl _

end

/-- The step has written the date that `RTIMER_0` is armed for into an announcement that is being
    sent; `value` is what the announcement said then, and `f` the callback in the record. -/
def Announces (t : Node R) (id : AnnId) (value : AnnouncementValue R) (f : Callback) : Prop :=
  (t.an.get id).hasValue = true ∧ ∃ rt0 : Rtimer, .armedDate id value rt0 ∈ t.out ∧
    rt0.func = some f ∧ value.dateCoarse = rt0.timeCoarseLg ∧ value.dateFine = rt0.timeFineLg

/-- A message with the instruction and the date announced. The instruction of a convergence
    announcement is set after its date. -/
def Carries (id : AnnId) (value msg : AnnouncementValue R) : Prop :=
  msg.dateCoarse = value.dateCoarse ∧ msg.dateFine = value.dateFine ∧
    (msg.instr = value.instr ∨ id = .convergence)

/-- A step of the receiver that handles a message and arms `RTIMER_0` for its date with `g`. In single
    pass the call succeeds without arming the timer. -/
structure ArmsFor (r : Node R) (e : Event R) (r' : Node R) (id : AnnId) (msg : AnnouncementValue R)
    (g : Callback) : Prop where
  step : r.step e = some r'
  act : ∃ rx, e.act = .heard id msg rx
  schedule : ∃ before : Rtimer, before.state ≠ .singlepass ∧
    .schedule .date msg.dateCoarse msg.dateFine g before true ∈ r'.out

/-- The receiver's side. -/
theorem ArmsFor.dateCall_eq {r r' : Node R} {msg : AnnouncementValue R} {g : Callback} (h : ArmsFor r e r' id msg g)
    (hlate : ¬ LateJoin r.myState id msg.instr) : dateCall id msg.instr = some g := by
  obtain ⟨hstep, ⟨rx, hact⟩, ⟨before, -, hmem⟩⟩ := h
  rw [step_heard hact hstep] at hmem
  have hanswer := heard_answers (r.prepare e) id msg rx rfl _ hmem
  exact hanswer.resolve_right hlate

/-- The sender's side: a date that is being sent is written with its callback. -/
theorem step_dated (h : PhasedAt s) (hok : s.KeepsPhases e) (hstep : s.step e = some t) {rt0 : Rtimer} (hsent :
    (t.an.get id).hasValue = true) (hmem : .armedDate id value rt0 ∈ t.out) : Dated (.armedDate id value rt0) := by
  have hplain : Adds [] t.out → Dated (.armedDate id value rt0) := by
    rintro ⟨k, hk, hall⟩
    rw [hk] at hmem
    exact (hall _ hmem).elim
  obtain ⟨-, hof⟩ := step_of hstep
  cases hof with
  | @heard i msg rx _ =>
    obtain ⟨rfl, hst, hfunc⟩ := heard_answers (s.prepare e) i msg rx rfl _ hmem
    rcases hfunc with hfunc | hsp
    · intro func hcall
      rw [hfunc]
      simp only [dateCall] at hcall
      split at hcall
      · exact hcall
      · cases hcall
    · -- a node in single pass does not broadcast
      have hnone : s.an.discovery.hasValue = false := h.silent hst hsp
      exact absurd ((heard_muted (s.prepare e) i msg rx hst).value hsent) (Bool.eq_false_iff.mp hnone)
  | fired => exact hplain (adds_fire _)
  | resumed hact =>
    have hsingle := hok.2
    rw [hact] at hsingle
    exact resume_dated (s := { s.prepare e with polled := false }) rfl hsingle
      (fun hsp hst => h.phased.election hsp (.inr hst)) h.phased.connection _ hmem
  | overflowed => cases hmem

omit [SoftDouble R] in
/-- The phases that the announced callbacks enter do not depend on the node. -/
theorem fire_myState {instr : UInt8} {f : Callback} (h : dateCall id instr = some f)
    (hs : s.tm.rt0.func = some f) (ht : t.tm.rt0.func = some f) : s.fire.myState = t.fire.myState := by
  have hentered : s.entered f = t.entered f := by
    cases id <;> simp only [dateCall] at h
    case discovery => split at h <;> cases h; rfl
    case revelation => split at h <;> cases h; rfl
    case declaration =>
      split at h
      · cases h; rfl
      · split at h <;> cases h; rfl
    case convergence => cases h; rfl
    case synchronization => cases h; rfl
  have hfire : ∀ u : Node R, u.tm.rt0.func = some f → u.fire.myState = u.entered f := by
    intro u hu
    refine (congrArg Core.st u.core_fire).trans ?_
    rw [hu]
    rfl
  rw [hfire s hs, hfire t ht, hentered]

/-- PHASE AGREEMENT: in every run whose steps keep the phases, a node that hears an announced date and arms its timer
    for it does so with the callback that the sender has armed for it, unless it is in discovery and hears of the
    election or the connection revelation; so both timers enter the same phase. -/
theorem phase_agreement (a : UInt16) (es : List (Event R)) (s t : Node R) (e : Event R) (id : AnnId)
    (value : AnnouncementValue R) (f : Callback) (hrun : Run step KeepsPhases (boot a) es s) (hok : s.KeepsPhases e)
    (hstep : s.step e = some t) (hannounce : Announces t id value f) (r r' : Node R) (e' : Event R)
    (msg : AnnouncementValue R) (g : Callback) (hcarry : Carries id value msg) (harm : ArmsFor r e' r' id msg g)
    (hlate : ¬ LateJoin r.myState id msg.instr) :
    g = f ∧
    ∀ s' r'' : Node R, s'.tm.rt0.func = some f → r''.tm.rt0.func = some g → s'.fire.myState = r''.fire.myState := by
  obtain ⟨hsent, rt0, hmem, hfunc, -, -⟩ := hannounce
  have hrecv := harm.dateCall_eq hlate
  have hcall : dateCall id value.instr = some g := by
    rcases hcarry.2.2 with hinstr | rfl
    · rw [← hinstr]
      exact hrecv
    · exact hrecv
  have hdated := step_dated (phased_run hrun) hok hstep hsent hmem g hcall
  have heq : g = f := Option.some.inj (hdated.symm.trans hfunc)
  subst heq
  exact ⟨rfl, fun s' r'' hs hr => fire_myState hrecv hs hr⟩

/-! ### Concrete runs -/

/-- A decidable condition for `KeepsPhases`. -/
def phased (s : Node R) (e : Event R) : Bool :=
  match e.act with
  | .heard id _ _ => id == .discovery
  | .process => s.tm.rt0.state != .singlepass
  | _ => true

theorem keepsPhases_of_phased (s : Node R) (e : Event R) (h : s.phased e = true) : s.KeepsPhases e := by
  obtain ⟨act, hw, env⟩ := e
  cases act with
  | heard id value rx =>
    have hid : id = .discovery := by simpa [phased] using h
    refine ⟨fun hd => ?_, trivial⟩
    obtain ⟨-, -, hid', -⟩ := hd
    rw [hid] at hid'
    simp at hid'
  | process =>
    have hne : s.tm.rt0.state ≠ .singlepass := by simpa [phased] using h
    exact ⟨fun hd => (by cases hd.1), fun hsp => absurd hsp hne⟩
  | timer => exact ⟨id, trivial⟩
  | overflow => exact ⟨id, trivial⟩

/-- A decidable condition for `Announces`. -/
def announces (id : AnnId) (value : AnnouncementValue Rat) (f : Callback) (t : Node Rat) : Bool :=
  (t.an.get id).hasValue && t.out.any fun o => match o with
    | .armedDate i v rt0 => i == id && v == value && rt0.func == some f &&
        v.dateCoarse == rt0.timeCoarseLg && v.dateFine == rt0.timeFineLg
    | _ => false

theorem announces_of {value : AnnouncementValue Rat} {f : Callback} {t : Node Rat}
    (h : announces id value f t = true) : Announces t id value f := by
  obtain ⟨hsent, hany⟩ := Bool.and_eq_true_iff.mp h
  obtain ⟨o, ho, hdate⟩ := List.any_eq_true.mp hany
  refine ⟨hsent, ?_⟩
  split at hdate
  · simp only [Bool.and_eq_true, beq_iff_eq] at hdate
    obtain ⟨⟨⟨⟨rfl, rfl⟩, hfunc⟩, hcoarse⟩, hfine⟩ := hdate
    exact ⟨_, ho, hfunc, hcoarse, hfine⟩
  · cases hdate

/-- A decidable condition for the call in `ArmsFor`. -/
def schedules (msg : AnnouncementValue Rat) (g : Callback) (t : Node Rat) : Bool :=
  t.out.any fun o => match o with
    | .schedule .date c f func before true =>
        c == msg.dateCoarse && f == msg.dateFine && func == g && before.state != .singlepass
    | _ => false

theorem schedules_of {msg : AnnouncementValue Rat} {g : Callback} {t : Node Rat}
    (h : schedules msg g t = true) : ∃ before : Rtimer, before.state ≠ .singlepass ∧
      .schedule .date msg.dateCoarse msg.dateFine g before true ∈ t.out := by
  obtain ⟨o, ho, hdate⟩ := List.any_eq_true.mp h
  split at hdate
  · simp only [Bool.and_eq_true, beq_iff_eq, bne_iff_ne] at hdate
    obtain ⟨⟨⟨rfl, rfl⟩, rfl⟩, hne⟩ := hdate
    exact ⟨_, hne, ho⟩
  · cases hdate

/-- Node 48 enters the election at a date that node 44 has announced. -/
def revelationRun : List (Event Rat) :=
  [hearsAt 1000 44 .discovery 0 3 0 0 0, hearsAt 2000 44 .discovery 0 3 0 0 0,
    hearsAt 5000 44 .discovery 1 3 1 100000 0, eventAt 100000 .timer]

/-- Its timer of the election declaration has fired. -/
def declarationRun : List (Event Rat) :=
  revelationRun ++ [eventAt 100100 .process, eventAt 257286 .timer]

/-- Node 44 synchronises to node 48. -/
def latecomerRun : List (Event Rat) :=
  [hearsAt 1000 48 .discovery 0 3 0 0 0, hearsAt 2000 48 .discovery 0 3 0 0 0]

theorem latecomer_arms (t : UInt32) (id : AnnId) (instr degree : UInt8) (coarse fine : UInt32) (refAddr : UInt16)
    (g : Callback) (st : St)
    (h : (exec step (fun _ _ => true) (boot 44) latecomerRun).any
        (fun r => r.myState == st && (r.step (hearsAt t 48 id instr degree coarse fine refAddr)).any
          (schedules ⟨instr, degree, coarse, fine, refAddr, 1⟩ g)) =
        true) :
    ∃ r r' : Node Rat,
      Run step (fun _ _ => True) (boot 44) latecomerRun r ∧
      r.myState = st ∧
      ArmsFor r (hearsAt t 48 id instr degree coarse fine refAddr) r' id ⟨instr, degree, coarse, fine, refAddr, 1⟩
        g := by
  obtain ⟨r, hrun, hr⟩ : ∃ r, Run step (fun _ _ => True) (boot 44) latecomerRun r ∧ _ :=
    exists_run (fun _ _ => true) _ (fun _ _ _ => trivial) h
  obtain ⟨hst, hany⟩ := Bool.and_eq_true_iff.mp hr
  cases hstep : r.step (hearsAt t 48 id instr degree coarse fine refAddr) with
  | none => rw [hstep] at hany; cases hany
  | some r' =>
    rw [hstep] at hany
    exact ⟨r, r', hrun, beq_iff_eq.mp hst, hstep, ⟨_, rfl⟩, schedules_of hany⟩

/-- The declaration of 48, heard in discovery by 44. -/
theorem phase_agreement_declaration :
    ∃ s t r r' : Node Rat,
      Run step KeepsPhases (boot 48) declarationRun s ∧
      s.step (eventAt 257386 .process) = some t ∧
      Announces t .declaration ⟨4, 1, 1, 414572, 0, 1⟩ .enterConnectionRevelation ∧
      Run step (fun _ _ => True) (boot 44) latecomerRun r ∧
      r.myState = .discovery ∧
      ArmsFor r (hearsAt 257500 48 .declaration 4 1 1 414572 48) r' .declaration ⟨4, 1, 1, 414572, 48, 1⟩
        .enterConnectionRevelation ∧
      ∀ s' r'' : Node Rat, s'.tm.rt0.func = some .enterConnectionRevelation →
        r''.tm.rt0.func = some .enterConnectionRevelation → s'.fire.myState = r''.fire.myState := by
  obtain ⟨s, hrun, hs⟩ : ∃ s, Run step KeepsPhases (boot 48) declarationRun s ∧ _ :=
    exists_run phased (fun s => s.phased (eventAt 257386 .process) && (s.step (eventAt 257386 .process)).any
        (announces .declaration ⟨4, 1, 1, 414572, 0, 1⟩ .enterConnectionRevelation))
      keepsPhases_of_phased (by decide +kernel)
  obtain ⟨hok, hany⟩ := Bool.and_eq_true_iff.mp hs
  obtain ⟨r, r', hrun', hst, harm⟩ := latecomer_arms 257500 .declaration 4 1 1 414572 48
    .enterConnectionRevelation .discovery (by decide +kernel)
  cases hstep : s.step (eventAt 257386 .process) with
  | none => rw [hstep] at hany; cases hany
  | some t =>
    rw [hstep] at hany
    have hann := announces_of hany
    exact ⟨s, t, r, r', hrun, hstep, hann, hrun', hst, harm,
      (phase_agreement 48 _ s t _ .declaration _ _ hrun (keepsPhases_of_phased _ _ hok) hstep hann
        r r' _ ⟨4, 1, 1, 414572, 48, 1⟩ _ ⟨rfl, rfl, .inl rfl⟩ harm
        fun h => absurd h.2.1 (by decide)).2⟩

/-- FAILS IN GENERAL: the election revelation of 48, heard in discovery by 44. Node 48 has armed its
    timer for the election declaration, node 44 arms its own for the connection revelation. -/
theorem late_join_skips_phase : ¬ ∀ (es : List (Event Rat)) (s t : Node Rat) (e : Event Rat)
    (id : AnnId) (value : AnnouncementValue Rat) (f : Callback) (fs : List (Event Rat))
    (r r' : Node Rat) (e' : Event Rat) (msg : AnnouncementValue Rat) (g : Callback),
    Run step (fun _ _ => True) (boot 48) es s → s.step e = some t → Announces t id value f →
    Run step (fun _ _ => True) (boot 44) fs r → Carries id value msg → ArmsFor r e' r' id msg g →
    g = f := by
  intro hall
  obtain ⟨s, hrun, hs⟩ : ∃ s, Run step (fun _ _ => True) (boot 48) revelationRun s ∧ _ :=
    exists_run (fun _ _ => true) (fun s => (s.step (eventAt 100100 .process)).any
      (announces .revelation ⟨2, 1, 1, 257286, 0, 1⟩ .enterElectionDeclaration))
      (fun _ _ _ => trivial) (by decide +kernel)
  obtain ⟨r, r', hrun', -, harm⟩ := latecomer_arms 100200 .revelation 2 1 1 257286 48
    .enterConnectionRevelation .discovery (by decide +kernel)
  cases hstep : s.step (eventAt 100100 .process) with
  | none => rw [hstep] at hs; cases hs
  | some t =>
    rw [hstep] at hs
    have heq := hall revelationRun s t _ .revelation _ _ latecomerRun r r' _
      ⟨2, 1, 1, 257286, 48, 1⟩ _ hrun hstep (announces_of hs) hrun' ⟨rfl, rfl, .inl rfl⟩ harm
    cases heq

end Node

end CSync
