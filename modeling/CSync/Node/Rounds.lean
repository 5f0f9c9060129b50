import CSync.Node.Distinct
import CSync.Node.Refine

/-! The thread past the phase loop.

    From the convergence on the thread works through its slots and iterations until it waits at a
    yield that is not the phase loop, or the round is over and the node is back in discovery. What it
    does on the way leaves the role and the bridges alone and arms the timer for late phases only. -/

namespace CSync

open Lib

/-- The callbacks that the thread arms past the phase loop. -/
def lateCalls : List Callback :=
  [.enterConvergenceSlot, .enterConsensusRevelation, .enterConsensusSynchronization,
    .enterSynchronizationSlot, .enterIdle, .enterDiscovery]

/-- What the thread can do to the skeleton past the phase loop. -/
structure Work (c c' : Core) : Prop where
  addr_eq : c'.addr = c.addr
  role_eq : c'.cl.role = c.cl.role
  cbsMemb_eq : c'.cl.cbsMemb = c.cl.cbsMemb
  cbs_eq : c'.cl.cbs = c.cl.cbs
  blMemb_eq : c'.cl.blMemb = c.cl.blMemb
  blacklist_eq : c'.cl.blacklist = c.cl.blacklist
  foreign_eq : c'.cl.chsForeign = c.cl.chsForeign
  owns : c.cl.chsMemb.Owns c.cl.chs → c'.cl.chsMemb.Owns c'.cl.chs
  distinct : DistinctHeads c.cl → DistinctHeads c'.cl
  heads : c.cl.role ≠ .ch → c'.cl.chs = c.cl.chs
  armed : ∀ f, c'.func = some f → f ∈ lateCalls ∨
    c.func = some f ∧ (c'.status = c.status ∨ c.status = .singlepass)

/-- The thread waits past the phase loop, or the round is over. -/
def Parked (c : Core) : Prop :=
  c.pc ≠ .phase ∧ arms c.st = [] ∨
    c.pc = .phase ∧ c.st = .discovery ∧ c.func = none ∧ c.status = .justExpired

/-- At work, in a phase past the phase loop. -/
structure Working (c c' : Core) : Prop where
  work : Work c c'
  late : arms c'.st = []

theorem Work.refl (c : Core) : Work c c :=
  ⟨rfl, rfl, rfl, rfl, rfl, rfl, rfl, id, id, fun _ => rfl, fun _ h => .inr ⟨h, .inl rfl⟩⟩

/-- The phase and the yield do not matter. -/
theorem Work.at {c c' : Core} (h : Work c c') (st : St) (pc : Pc) : Work c { c' with st := st, pc := pc } :=
  ⟨h.addr_eq, h.role_eq, h.cbsMemb_eq, h.cbs_eq, h.blMemb_eq, h.blacklist_eq, h.foreign_eq, h.owns,
    h.distinct, h.heads, h.armed⟩

theorem Working.heads {c c' : Core} (h : Working c c') {p : Pool numChMax Chb} {l : List (Fin numChMax)}
    (howns : c'.cl.chsMemb.Owns c'.cl.chs → p.Owns l) (hdistinct : DistinctHeads c'.cl → Distinct p l)
    (hl : c'.cl.role ≠ .ch → l = c'.cl.chs) :
    Working c { c' with cl := { c'.cl with chsMemb := p, chs := l } } :=
  ⟨⟨h.work.addr_eq, h.work.role_eq, h.work.cbsMemb_eq, h.work.cbs_eq, h.work.blMemb_eq, h.work.blacklist_eq,
    h.work.foreign_eq, fun hc => howns (h.work.owns hc), fun hc => hdistinct (h.work.distinct hc),
    fun hc => (hl (h.work.role_eq ▸ hc)).trans (h.work.heads hc), h.work.armed⟩, h.late⟩

namespace Node

variable {R : Type} [SoftDouble R]

/-! ### A traversal of the thread -/

/-- `W` holds of the thread at work in the synchronization slots, and `D` where it waits in them. -/
structure SlotRule (W D : Node R → Prop) : Prop where
  schedule : ∀ {s : Node R} {type : ScheduleType} {x y : UInt32} {func : Callback} {yes no : Node R → Node R},
    W s → func ∈ lateCalls → (∀ t, W t → D (yes t)) → (∀ t, W t → D (no t)) → D (s.ifScheduled type x y func yes no)
  waits : ∀ {s : Node R} {pc : Pc}, W s → pc = .syncSlot ∨ pc = .idleWait → D { s with pc := pc }
  radio : ∀ {s : Node R} {on : Bool}, W s → W (s.radio on)
  degree : ∀ {s : Node R} {degree : UInt8}, W s → W { s with refNChbDegree := degree }

/-- The same past the phase loop, up to the end of the round. -/
structure ThreadRule (W D : Node R → Prop) : Prop extends SlotRule W D where
  iterate : ∀ {s : Node R} {yes no : Node R → Node R}, W s → (∀ t, W t → D (yes t)) → (∀ t, W t → D (no t)) →
    D (s.beginIteration.ifScheduled .intervalRef 0 (slotInterval 5) .enterIdle
      (fun t => yes t.announceSynchronization) no)
  parks : ∀ {s : Node R} {pc : Pc}, W s → pc = .convSlot ∨ pc = .revWait → D { s with pc := pc }
  restart : ∀ {s : Node R}, W s → D s.restart
  counters : ∀ {s : Node R} {slot ack counter : UInt8}, W s →
    W { s with myConsSlot := slot, mySlotAck := ack, consCtrlCounter := counter }
  actions : ∀ {s : Node R} (nCh : Nat), W s → W (s.convergenceActions nCh)

section
variable {W D : Node R → Prop} {next : Node R → Node R}

theorem SlotRule.syncSlotsDone (hr : SlotRule W D) (hnext : ∀ t, W t → D (next t)) {s : Node R} (h : W s) :
    D (s.syncSlotsDone next) := by
  rw [Node.syncSlotsDone]
  split
  · exact hr.waits h (.inr rfl)
  · exact hnext s h

theorem SlotRule.syncSlotLoop (hr : SlotRule W D) (hnext : ∀ t, W t → D (next t)) :
    ∀ (k : Nat) (s : Node R), W s → D (syncSlotLoop next k s)
  | 0, _, h => hr.syncSlotsDone hnext h
  | k + 1, s, h => by
    rw [Node.syncSlotLoop]
    split
    · refine hr.schedule h (by decide) (fun t ht => ?_) fun t ht => hr.syncSlotLoop hnext k _ (hr.degree (hr.radio ht))
      split
      · exact hr.waits ht (.inl rfl)
      · exact hr.syncSlotLoop hnext k _ (hr.degree ht)
    · exact hr.syncSlotsDone hnext h

theorem SlotRule.syncSlots (hr : SlotRule W D) (hnext : ∀ t, W t → D (next t)) {s : Node R} (h : W s) :
    D (s.syncSlots next) :=
  hr.syncSlotLoop hnext _ s h

variable (hr : ThreadRule W D) {s : Node R}
include hr

theorem ThreadRule.syncLoop : ∀ (k : Nat) (s : Node R), W s → D (syncLoop k s)
  | 0, _, h => hr.restart h
  | k + 1, s, h => by
    have hnext : ∀ t, W t → D (Node.syncLoop k { t with consCtrlCounter := t.consCtrlCounter + 1 }) :=
      fun t ht => ThreadRule.syncLoop k _ (hr.counters ht)
    rw [Node.syncLoop]
    split
    · exact hr.iterate h (fun t ht => hr.syncSlots hnext ht) hnext
    · exact hr.restart h

theorem ThreadRule.synchronization (h : W s) : D s.synchronization := hr.syncLoop _ s h

theorem ThreadRule.endIteration (h : W s) : D s.endIteration := hr.synchronization (hr.counters h)

theorem ThreadRule.afterConvergence (h : W s) : D s.afterConvergence := by
  rw [Node.afterConvergence]
  split
  · exact hr.parks h (.inr rfl)
  · exact hr.synchronization h

theorem ThreadRule.convLoop : ∀ (k : Nat) (s : Node R), W s → D (convLoop k s)
  | 0, _, h => hr.afterConvergence h
  | k + 1, s, h => by
    rw [Node.convLoop]
    split
    · split
      · exact hr.afterConvergence (hr.radio h)
      · refine hr.schedule h (by decide) (fun t ht => ?_) fun t ht => ThreadRule.convLoop k _ (hr.counters ht)
        have hact := hr.actions (s.cl.heads.countP fun ch => ch.consSlot == 0) ht
        dsimp only
        split
        · exact hr.parks hact (.inl rfl)
        · exact hr.afterConvergence hact
    · exact hr.afterConvergence h

theorem ThreadRule.convergenceSlots (h : W s) : D s.convergenceSlots := hr.convLoop _ s h

theorem ThreadRule.resumeConvSlot (h : W s) : D s.resumeConvSlot := by
  have hslot : ∀ t : Node R, W t → D (if t.mySlotAck ≠ 0 then
        (t.radio false).ifScheduled .intervalRef 0 (slotInterval 5) .enterConsensusRevelation
          Node.afterConvergence (fun s => { s with myConsSlot := s.myConsSlot + 1 }.convergenceSlots)
      else { t with myConsSlot := t.myConsSlot + 1 }.convergenceSlots) := by
    intro t ht
    split
    · exact hr.schedule (hr.radio ht) (by decide) (fun u hu => hr.afterConvergence hu)
        fun u hu => hr.convergenceSlots (hr.counters hu)
    · exact hr.convergenceSlots (hr.counters ht)
  rw [Node.resumeConvSlot]
  refine hslot _ ?_
  split
  · exact hr.counters h
  · exact h

end

/-- The thread has worked its way from `c` to where it waits. -/
def Done (c : Core) (s : Node R) : Prop := Work c s.core ∧ Parked s.core

variable {s : Node R}

theorem ifScheduled_work {P : Node R → Prop} {c : Core} {type : ScheduleType}
    {x y : UInt32} {func : Callback} {yes no : Node R → Node R} (h : Working c s.core) (hf : func ∈ lateCalls)
    (hyes : ∀ tm out, Working c { s with tm := tm, out := out }.core → P (yes { s with tm := tm, out := out }))
    (hno : ∀ tm out, Working c { s with tm := tm, out := out }.core →
      P (no { s with tm := tm, out := out })) : P (s.ifScheduled type x y func yes no) := by
  obtain ⟨h, hl⟩ := h
  have hwork : ∀ (tm : RtimerState R) out, (∀ f, tm.rt0.func = some f → f ∈ lateCalls ∨
        c.func = some f ∧ (tm.rt0.state = c.status ∨ c.status = .singlepass)) →
      Working c { s with tm := tm, out := out }.core := fun tm out harmed =>
    ⟨⟨h.addr_eq, h.role_eq, h.cbsMemb_eq, h.cbs_eq, h.blMemb_eq, h.blacklist_eq, h.foreign_eq, h.owns,
      h.distinct, h.heads, harmed⟩, hl⟩
  refine ifScheduled_rule ?_ ?_
  · rintro _ - ⟨tm, out, rfl, hst, hfunc⟩
    refine hyes tm out (hwork tm out fun f hfn => ?_)
    rcases hfunc with hfunc | ⟨hsp, hfunc⟩
    · exact .inl (Option.some.inj (hfunc.symm.trans hfn) ▸ hf)
    · rcases h.armed f (hfunc.symm.trans hfn) with hl | ⟨hc, hst'⟩
      · exact .inl hl
      · refine .inr ⟨hc, .inr ?_⟩
        rcases hst' with hst' | hst'
        · exact hst'.symm.trans hsp
        · exact hst'
  · rintro _ ⟨tm, out, rfl, hst, hfunc⟩
    refine hno tm out (hwork tm out fun f hfn => ?_)
    rcases hfunc with ⟨-, hfunc⟩ | hfunc
    · exact .inl (Option.some.inj (hfunc.symm.trans hfn) ▸ hf)
    · rcases h.armed f (hfunc.symm.trans hfn) with hl | ⟨hc, hst'⟩
      · exact .inl hl
      · refine .inr ⟨hc, ?_⟩
        rw [hst]
        exact hst'

variable {c : Core}

theorem restart_done (h : Work c s.core) : Done c s.restart :=
  ⟨⟨h.addr_eq, h.role_eq, h.cbsMemb_eq, h.cbs_eq, h.blMemb_eq, h.blacklist_eq, h.foreign_eq, h.owns,
    h.distinct, h.heads, nofun⟩, .inr ⟨rfl, rfl, rfl, rfl⟩⟩

omit [SoftDouble R] in
theorem waits_done (h : Working c s.core) (pc : Pc) (hpc : pc ≠ .phase) : Done c { s with pc := pc } :=
  ⟨h.work.at s.myState pc, .inl ⟨hpc, h.late⟩⟩

section

omit [SoftDouble R]

theorem work_mapChs (h : Working c s.core) (f : Chb → Chb) (hf : ∀ ch, (f ch).addr = ch.addr) :
    Working c { s with cl := mapChs f s.cl }.core :=
  h.heads (owns_mapChs f) (fun hd => hd.mapChs hf) fun _ => rfl

theorem work_mirrorSlots (h : Working c s.core) :
    Working c { s with cl := mirrorSlots s.cl }.core := work_mapChs h _ fun _ => rfl

theorem beginIteration_work (h : Working c s.core) : Working c s.beginIteration.core := by
  rw [beginIteration]
  split
  · have hmirror : Working c { s with
        myState := .consensusSynchronization, cl := mirrorSlots s.cl }.core :=
      ⟨(work_mirrorSlots h).work.at .consensusSynchronization s.pc, rfl⟩
    dsimp only
    split <;> exact hmirror
  · exact h

theorem core_initConsensusSynchronization (s : Node R) :
    s.initConsensusSynchronization.core = { s.core with cl := mirrorSlots s.cl } := by
  rw [initConsensusSynchronization]
  dsimp only
  split <;> rfl

theorem core_mapAnn (s : Node R) (id : AnnId) (f : Announcement R → Announcement R) : (s.mapAnn id f).core = s.core := rfl

end

theorem core_announce (s : Node R) (id : AnnId) (degree : UInt8) : (s.announce id degree).core = s.core := rfl

omit [SoftDouble R] in
theorem core_addAndBump (s : Node R) (id : AnnId) : (s.addAndBump id).core = s.core := rfl

omit [SoftDouble R] in
theorem core_radio (s : Node R) (on : Bool) : (s.radio on).core = s.core := rfl

theorem core_announceSynchronization (s : Node R) :
    s.announceSynchronization.core = { s.core with cl := mirrorSlots s.cl } := by
  have hinit := s.core_initConsensusSynchronization
  have hannounce : ∀ t : Node R, (((t.announce .synchronization t.myConsSlot).mapAnn .synchronization
      fun a => (a.setRefAddr t.myAddr).addValue).radio false).core = t.core := fun t => by
    rw [core_radio, core_mapAnn, core_announce]
  refine (hannounce _).trans ?_
  rw [← hinit]
  split <;> rfl

omit [SoftDouble R] in
theorem core_convergenceActions (s : Node R) (nCh : Nat) : (s.convergenceActions nCh).core = s.core := by
  rw [convergenceActions]
  split
  · rfl
  · split
    · dsimp only
      split <;> rfl
    · rfl
  · rfl

/-- What the thread does past the phase loop leaves the role and the bridges alone. -/
theorem work_rule (c : Core) : ThreadRule (R := R) (fun s => Working c s.core) (Done c) where
  schedule h hf hyes hno := ifScheduled_work h hf (fun tm out hw => hyes _ hw) fun tm out hw => hno _ hw
  waits h hpc := waits_done h _ (by rcases hpc with rfl | rfl <;> decide)
  radio h := h
  degree h := h
  iterate h hyes hno := by
    refine ifScheduled_work (beginIteration_work h) (by decide) (fun tm out hw => hyes _ ?_) fun tm out hw => hno _ hw
    rw [core_announceSynchronization]
    exact work_mirrorSlots hw
  parks h hpc := waits_done h _ (by rcases hpc with rfl | rfl <;> decide)
  restart h := restart_done h.work
  counters h := h
  actions nCh h := by
    rw [core_convergenceActions]
    exact h

/-! ### Convergence slots -/

omit [SoftDouble R] in
theorem repeatConvergence_work (h : Working c s.core) : Working c s.repeatConvergence.core := by
  rw [repeatConvergence]
  split
  · have hclear : Working c { s with
        myState := .consensusConvergence
        cl := mapChs (fun ch => { ch with consSlot := 0 }) s.cl }.core :=
      ⟨(work_mapChs h (fun ch => { ch with consSlot := 0 }) fun _ => rfl).work.at .consensusConvergence s.pc, rfl⟩
    dsimp only
    split <;> exact hclear
  · exact h

omit [SoftDouble R] in
theorem core_initConsensusConvergence (s : Node R) : s.initConsensusConvergence.core =
    { s.core with cl := (CSync.initConsensusConvergence s.cl).2 } := by
  rw [initConsensusConvergence]
  rcases CSync.initConsensusConvergence s.cl with ⟨ok, cl⟩
  cases ok <;> rfl

section
variable (h : Working c s.core)
include h

theorem prepareConvergence_work : Working c s.prepareConvergence.core := by
  rw [prepareConvergence]
  split
  next hch =>
    have hcore := core_initConsensusConvergence
      ((s.printStatus.mapAnn .convergence fun a => (s.setArmedDate a).addValue).noteDate .convergence)
    have hinit : Working c (initConsensusConvergence
        ((s.printStatus.mapAnn .convergence fun a => (s.setArmedDate a).addValue).noteDate .convergence)).core := by
      rw [hcore]
      exact h.heads (fun _ => owns_initConsensusConvergence s.cl)
        (fun _ => distinctHeads_initConsensusConvergence s.cl) fun hne => absurd hch hne
    exact hinit
  · exact h
  · exact h

theorem startConvergence_done : Done c s.startConvergence := by
  refine ifScheduled_work (repeatConvergence_work h) (by decide) (fun tm out hw => ?_)
    fun tm out hw => (work_rule c).afterConvergence hw
  have hprep := prepareConvergence_work hw
  dsimp only
  split
  · exact (work_rule c).convergenceSlots hprep
  · exact (work_rule c).afterConvergence hprep

theorem resumeRevWait_done : Done c s.resumeRevWait := by
  refine ifScheduled_work h (by decide) (fun tm out hw => ?_) fun tm out hw => (work_rule c).synchronization hw
  dsimp only
  split <;> exact waits_done hw .revYield (by decide)

theorem resumeSyncSlot_done : Done c s.resumeSyncSlot := by
  refine (work_rule c).syncSlots (fun t ht => (work_rule c).endIteration ht) ?_
  split <;> exact h

theorem resumeIdleWait_done : Done c s.resumeIdleWait :=
  ifScheduled_work h (by decide) (fun tm out hw => waits_done hw .idleYield (by decide))
    fun tm out hw => (work_rule c).endIteration hw

end

/-- THREAD: past the phase loop it works until it is parked. -/
theorem resume_done (hl : arms s.myState = []) : Done s.core s.resume := by
  have h : Working s.core s.core := ⟨.refl _, hl⟩
  rw [resume]
  split
  · rw [resumePhase, if_neg]
    · exact startConvergence_done h
    · revert hl
      cases s.myState <;> decide
  · exact (work_rule _).resumeConvSlot h
  · exact resumeRevWait_done h
  · exact (work_rule _).synchronization h
  · exact resumeSyncSlot_done h
  · exact resumeIdleWait_done h
  · exact (work_rule _).endIteration (s := s.broadcastStop.mapAnn .discovery (·.removeValue)) h

end Node

end CSync
