import CSync.Node.Steps

/-! Fresh slot tables over whole runs.

    A bridge gives each of its heads a slot in the convergence, and gives none to a head that has one.
    So the slot loop must start with no slot given. A head builds its list anew right before the loop;
    a bridge takes the list as it is, and nothing clears it between two rounds: the clearing branch is
    guarded by the iteration counter, which `soft_reset` has set to zero. The invariant says that a
    list that has no slots in discovery has none until the thread leaves the phase loop. -/

namespace CSync

open Lib List

theorem noSlots_collectHeads : ∀ (bridges : List Chb) (p : Pool numChMax Chb) (l : List (Fin numChMax)), NoSlots p l →
    NoSlots (collectHeads bridges p l).2.1 (collectHeads bridges p l).2.2
  | [], _, _, h => h
  | cb :: rest, p, l, h => by
    rw [collectHeads]
    split
    · -- the head is listed already and gets a second bridge
      rename_i i _
      refine noSlots_collectHeads rest _ l fun j hj => ?_
      by_cases hji : j = i
      · subst hji
        simpa [Pool.modify] using h j hj
      · simpa [Pool.modify, hji] using h j hj
    · have hins := all_allocInsert (P := fun ch => ch.consSlot = 0) h
        (show (⟨cb.nChbAddrA, cb.degree, 0, cb.addr, 0⟩ : Chb).consSlot = 0 from rfl) 1
      rw [allocInsert, Pool.alloc] at hins
      rw [Pool.alloc]
      cases hfree : p.freeBlock with
      | none => exact h
      | some i =>
        rw [hfree] at hins
        exact noSlots_collectHeads rest _ _ hins

theorem mem_foldl_modify (f : Chb → Chb) {Q : Chb → Prop} (hf : ∀ ch, Q (f ch)) {N : Nat} :
    ∀ (l : List (Fin N)) (p : Pool N Chb) (i : Fin N), i ∈ l ∨ Q (p.mem i) →
      Q ((l.foldl (fun p i => p.modify i f) p).mem i)
  | [], _, _, h => h.resolve_left not_mem_nil
  | j :: l, p, i, h => by
    rw [foldl_cons]
    refine mem_foldl_modify f hf l _ i ?_
    by_cases hij : i = j
    · right
      subst hij
      simpa [Pool.modify] using hf _
    · rcases h with h | h
      · exact .inl ((mem_cons.mp h).resolve_left hij)
      · right
        simpa [Pool.modify, hij] using h

theorem noSlots_clear (cl : Cluster) : NoSlots (mapChs (fun ch => { ch with consSlot := 0 }) cl).chsMemb
      (mapChs (fun ch => { ch with consSlot := 0 }) cl).chs :=
  fun i hi => mem_foldl_modify (Q := fun ch => ch.consSlot = 0) _ (fun _ => rfl) _ _ i (.inl hi)

/-! ### The invariant -/

/-- Before the thread leaves the phase loop, the list has no slots in the phases up to the
    convergence, and at a bridge also in the later ones. -/
def Fresh (c : Core) : Prop :=
  c.pc = .phase → c.cl.chsForeign = false → arms c.st ≠ [] ∨ c.cl.role = .cb →
    NoSlots c.cl.chsMemb c.cl.chs

/-- One move keeps it, unless a bridge gives a slot before the slot loop. -/
theorem Fresh.move {D : Defect → Prop} (hD : ¬ D .assign) {c c' : Core} (h : Fresh c)
    (hm : Move D c c') : Fresh c' := by
  intro hpc hown hst
  cases hm with
  | arm => exact h hpc hown hst
  | wake => exact h hpc hown hst
  | refuse => exact h hpc hown hst
  | drop => exact h hpc hown hst
  | keep => exact h hpc hown hst
  | join hj => exact h hpc hown (hst.imp_left fun hne hl => hne ((mem_joins_late c.st _ hj).1 hl))
  | pass hj => exact h hpc hown (hst.imp_left fun hne hl => hne ((mem_joins_late c.st _ hj).1 hl))
  | declare hdisc => exact h hpc hown (.inl (by rw [hdisc]; decide))
  | commoner hdisc => exact h hpc hown (.inl (by rw [hdisc]; decide))
  | bridge _ _ _ hmem =>
    refine h hpc hown (.inl ?_)
    revert hmem
    cases c.st <;> decide
  | @lists _ value n a d hconv =>
    have hspec := handleLists_spec c.cl c.st a d value n
    generalize (handleLists c.cl c.st a d value n).2 = cl' at hspec hown hst ⊢
    cases hspec with
    | none => exact h hpc hown hst
    | bridges _ hr => exact h hpc hown (hst.imp_right (hr.stays (.inr rfl)).symm.trans)
    | heads hphase hr =>
      rcases hphase with hel | hcv
      · exact hr.lists.noSlots rfl (h hpc hown (.inl (by rw [hel]; decide)))
      · -- a head takes entries in the convergence, and is no bridge behind it
        rcases hst with hne | hcb
        · exact absurd (by rw [hcv]; rfl) hne
        · rcases hr.keeps with hk | hk
          · exact absurd (hk.symm.trans hcb |>.symm.trans (hconv hcv)) (by decide)
          · exact absurd (hk.symm.trans hcb) (by decide)
  | forget => exact nofun
  | resign => exact h hpc hown (hst.imp_right nofun)
  | link =>
    rw [linkMemb] at hown
    split at hown <;> cases hown
  | slot hrole hl => exact absurd hst (not_or.mpr ⟨not_not.mpr hl, hrole⟩)
  | assign _ hassign => exact absurd (hassign hpc) hD
  | blacklist =>
    revert hown hst
    rw [blacklistAdd]
    split <;> exact fun hown hst => h hpc hown hst

namespace Node

variable {R : Type} [SoftDouble R]

/-- In discovery no listed head has a slot, and a bridge gives none before the slot loop. -/
def KeepsSlots (s : Node R) (e : Event R) : Prop :=
  (s.myState = .discovery → NoSlots s.cl.chsMemb s.cl.chs) ∧ ¬ s.defects e .assign

/-- Between two steps; what a step finds in discovery its condition says. -/
def FreshAt (s : Node R) : Prop := s.myState ≠ .discovery → Fresh s.core

variable {s : Node R} {e : Event R}

theorem fresh_step {t : Node R} (h : Timed s.core ∧ FreshAt s)
    (hok : s.KeepsSlots e) (hstep : s.step e = some t) : Timed t.core ∧ FreshAt t := by
  refine ⟨timed_step h.1 hstep, fun hst => ?_⟩
  have hfresh : Fresh s.core := by
    by_cases hdisc : s.myState = .discovery
    · exact fun _ _ _ => hok.1 hdisc
    · exact h.2 hdisc
  cases step_case h.1.late hstep with
  | moves hm => exact Moves.keeps (fun _ _ hc hm => hc.move hok.2 hm) hm hfresh
  | worked _ _ hp =>
    -- the thread has left the phase loop, or the round is over
    rcases hp with ⟨hpc, -⟩ | ⟨-, hdisc, -⟩
    · exact fun hphase => absurd hphase hpc
    · exact absurd hdisc hst
  | fired hsched hcore =>
    rw [hcore]
    intro hpc hown hlate
    refine hfresh hpc hown ?_
    rcases hlate with hne | hcb
    · left
      intro hl
      cases hf : s.tm.rt0.func with
      | none =>
        rw [hf] at hne
        exact hne hl
      | some f =>
        rw [hf] at hne
        exact hne (s.entered_late hl (h.1.scheduled hl hsched f hf))
    · exact .inr hcb

/-! ### The start of the slot loop -/

/-- The thread, polled in the phase loop, reaches the slot loop in the state `u`. -/
structure StartsSlots (s : Node R) (e : Event R) (u : Node R) : Prop where
  act : e.act = .process
  phase : s.pc = .phase
  late : ¬ s.myState.code < St.consensusConvergence.code
  scheduled : ({ s.prepare e with polled := false }.repeatConvergence.schedule .intervalRef 0
    (slotInterval 5) .enterConsensusRevelation).1 = true
  prepared : u = ({ s.prepare e with polled := false }.repeatConvergence.schedule .intervalRef 0
    (slotInterval 5) .enterConsensusRevelation).2.prepareConvergence
  role : u.cl.role ≠ .cm

theorem resume_convergenceSlots (hpc : s.pc = .phase) (hlate : ¬ s.myState.code < St.consensusConvergence.code)
    {r : Bool × Node R}
    (hr : s.repeatConvergence.schedule .intervalRef 0 (slotInterval 5) .enterConsensusRevelation = r)
    (hsched : r.1 = true) (hrole : r.2.prepareConvergence.cl.role ≠ .cm) :
    s.resume = r.2.prepareConvergence.convergenceSlots := by
  rw [resume, hpc]
  rw [resumePhase, if_neg hlate, startConvergence, ifScheduled, hr, if_pos hsched]
  exact if_pos hrole

theorem StartsSlots.step_eq {t u : Node R} (h : StartsSlots s e u)
    (hstep : s.step e = some t) : t = u.convergenceSlots := by
  obtain ⟨hact, hpc, hlate, hsched, rfl, hrole⟩ := h
  rw [step_process hact hstep]
  exact resume_convergenceSlots (s := { s.prepare e with polled := false }) hpc hlate rfl hsched hrole

omit [SoftDouble R] in
theorem repeatConvergence_cl (s : Node R) : s.repeatConvergence.cl.role = s.cl.role ∧ (NoSlots s.cl.chsMemb s.cl.chs →
    NoSlots s.repeatConvergence.cl.chsMemb s.repeatConvergence.cl.chs) := by
  rw [repeatConvergence]
  split
  · have hclear := noSlots_clear s.cl
    dsimp only
    split <;> exact ⟨rfl, fun _ => hclear⟩
  · exact ⟨rfl, id⟩

/-- A head builds its list anew, the other roles keep theirs. -/
theorem prepareConvergence_cl (s : Node R) : s.prepareConvergence.cl =
    if s.cl.role = .ch then (CSync.initConsensusConvergence s.cl).2 else s.cl := by
  have hsame : ((s.printStatus.mapAnn .convergence fun a =>
    (s.setArmedDate a).addValue).noteDate .convergence).cl = s.cl := rfl
  rw [prepareConvergence]
  generalize (s.printStatus.mapAnn .convergence fun a =>
    (s.setArmedDate a).addValue).noteDate .convergence = t at hsame ⊢
  rw [← hsame]
  cases hrole : t.cl.role with
  | ch =>
    have hcl := congrArg Core.cl (core_initConsensusConvergence t)
    exact hcl
  | cb => rfl
  | cm => rfl

theorem StartsSlots.noSlots {u : Node R} (h : StartsSlots s e u)
    (hfresh : s.cl.role = .cb → NoSlots s.cl.chsMemb s.cl.chs) : NoSlots u.cl.chsMemb u.cl.chs := by
  obtain ⟨-, -, -, -, rfl, hrole⟩ := h
  have hrep := repeatConvergence_cl { s.prepare e with polled := false }
  generalize hv : repeatConvergence { s.prepare e with polled := false } = v at hrep hrole ⊢
  have hcl : (v.schedule .intervalRef 0 (slotInterval 5) .enterConsensusRevelation).2.cl = v.cl := rfl
  rw [prepareConvergence_cl, hcl] at hrole ⊢
  split
  · exact noSlots_collectHeads _ _ _ nofun
  next hch =>
    rw [if_neg hch] at hrole
    have hcb : v.cl.role = .cb := by
      revert hch hrole
      cases v.cl.role <;> decide
    exact hrep.2 (hfresh (hrep.1.symm.trans hcb))

omit [SoftDouble R] in
theorem assignSlot_gives (h : NoSlots s.cl.chsMemb s.cl.chs) (hack : s.mySlotAck = 0) {value : AnnouncementValue R}
    (hslot : s.myConsSlot = value.degree) {addr : UInt16} (hhead : s.cl.hasHead addr = true) :
    ∃ ch ∈ (s.assignSlot value addr).cl.heads, ch.addr = addr ∧ ch.consSlot = value.degree := by
  obtain ⟨ch, hch, haddr⟩ := any_eq_true.mp hhead
  obtain ⟨j, hj, rfl⟩ := mem_map.mp hch
  rw [assignSlot]
  split
  next i hi =>
    obtain ⟨hp, hmem⟩ := (find?_some hi), (mem_of_find?_eq_some hi)
    simp only [Bool.and_eq_true, beq_iff_eq] at hp
    rw [if_pos hack]
    refine ⟨{ s.cl.chsMemb.mem i with consSlot := value.degree }, ?_, hp.1.1, rfl⟩
    have hmod : (s.cl.chsMemb.modify i fun ch => { ch with consSlot := value.degree }).mem i =
        { s.cl.chsMemb.mem i with consSlot := value.degree } := by
      simp [Pool.modify]
    exact mem_map.mpr ⟨i, hmem, hmod⟩
  next hnone =>
    have hnot := find?_eq_none.mp hnone j hj
    simp [h j hj, hslot, beq_iff_eq.mp haddr] at hnot

/-- FRESH SLOTS: in every run whose steps find no slot in discovery and give none before the slot
    loop, a bridge or a head starts the slot loop with no slot given; so as long as its list stays as
    it is, a bridge can give the slot it is in to each of its heads. -/
theorem slot_tables_fresh (a : UInt16) (es : List (Event R)) (s t u : Node R) (e : Event R)
    (hrun : Run step KeepsSlots (boot a) es s) (hstep : s.step e = some t) (hstart : StartsSlots s e u) :
    t = u.convergenceSlots ∧
    (∀ ch ∈ u.cl.heads, ch.consSlot = 0) ∧
    ∀ (v : Node R) (value : AnnouncementValue R) (addr : UInt16), v.cl = u.cl → v.mySlotAck = 0 →
      v.myConsSlot = value.degree → v.cl.hasHead addr = true →
        ∃ ch ∈ (v.assignSlot value addr).cl.heads, ch.addr = addr ∧ ch.consSlot = value.degree := by
  have hinv := hrun.invariant (P := fun s => Timed s.core ∧ FreshAt s)
    (fun _ _ _ hs hok hst => fresh_step hs hok hst) ⟨timed_boot a, fun hst => absurd rfl hst⟩
  have hne : s.myState ≠ .discovery := fun hdisc => hstart.late (by rw [hdisc]; decide)
  have hno : NoSlots u.cl.chsMemb u.cl.chs := hstart.noSlots fun hcb =>
    hinv.2 hne hstart.phase (step_of hstep).1 (.inr hcb)
  refine ⟨hstart.step_eq hstep, fun ch hch => ?_, fun v value addr hcl hack hslot hhead => ?_⟩
  · obtain ⟨i, hi, rfl⟩ := mem_map.mp hch
    exact hno i hi
  · exact assignSlot_gives (hcl ▸ hno) hack hslot hhead

/-! ### Concrete runs -/

/-- A decidable condition for `KeepsSlots`. -/
def fresh (s : Node R) (e : Event R) : Bool :=
  (s.myState != .discovery || s.cl.chs.isEmpty) && match e.act with
    | .heard .convergence _ _ => s.pc != .phase
    | _ => true

theorem keepsSlots_of_fresh (s : Node R) (e : Event R) (h : s.fresh e = true) : s.KeepsSlots e := by
  obtain ⟨act, hw, env⟩ := e
  rw [fresh, Bool.and_eq_true] at h
  refine ⟨fun hst i hi => ?_, ?_⟩
  · have hnil : s.cl.chs = [] := by simpa [hst] using h.1
    rw [hnil] at hi
    cases hi
  · cases act with
    | process => exact fun hd => (by cases hd.1)
    | timer => exact id
    | overflow => exact id
    | heard id value rx =>
      rintro ⟨rfl, hpc, -⟩
      have hne : s.pc ≠ .phase := by simpa using h.2
      exact hne hpc

/-- A decidable condition for `StartsSlots` with a property of the state. -/
def starts (q : Node R → Bool) (e : Event R) (s : Node R) : Bool :=
  match e.act with
  | .process =>
      let r := { s.prepare e with polled := false }.repeatConvergence.schedule .intervalRef 0
        (slotInterval 5) .enterConsensusRevelation
      let u := r.2.prepareConvergence
      s.pc == .phase && !decide (s.myState.code < St.consensusConvergence.code) && r.1 &&
        u.cl.role != .cm && q u
  | _ => false

theorem startsSlots_of_starts {q : Node R → Bool}
    (he : e.act = .process) (h : starts q e s = true) : ∃ u, StartsSlots s e u ∧ q u = true := by
  simp only [starts, he, Bool.and_eq_true, beq_iff_eq, bne_iff_ne, Bool.not_eq_true', decide_eq_false_iff_not] at h
  obtain ⟨⟨⟨⟨hpc, hlate⟩, hsched⟩, hrole⟩, hq⟩ := h
  exact ⟨_, ⟨he, hpc, hlate, hsched, rfl, hrole⟩, hq⟩

theorem slot_tables_fresh_bridge :
    ∃ s t u : Node Rat,
      Run step KeepsSlots (boot 44) bridgeRun s ∧
      s.step (eventAt 729244 .process) = some t ∧
      StartsSlots s (eventAt 729244 .process) u ∧
      u.cl.role = .cb ∧
      u.cl.heads.map (·.addr) = [78, 48] ∧
      ∀ ch ∈ u.cl.heads, ch.consSlot = 0 := by
  obtain ⟨s, hrun, hs⟩ : ∃ s, Run step KeepsSlots (boot 44) bridgeRun s ∧ _ :=
    exists_run fresh (fun s => (s.step (eventAt 729244 .process)).isSome &&
      starts (fun u => u.cl.role == .cb && u.cl.heads.map (·.addr) == [78, 48])
        (eventAt 729244 .process) s) keepsSlots_of_fresh (by decide +kernel)
  obtain ⟨hsome, hstarts⟩ := Bool.and_eq_true_iff.mp hs
  obtain ⟨t, ht⟩ := Option.isSome_iff_exists.mp hsome
  obtain ⟨u, hu, hq⟩ := startsSlots_of_starts rfl hstarts
  rw [Bool.and_eq_true, beq_iff_eq, beq_iff_eq] at hq
  exact ⟨s, t, u, hrun, ht, hu, hq.1, hq.2, (slot_tables_fresh 44 bridgeRun s t u _ hrun ht hu).2.1⟩

/-- The round of the bridge ends, and the next round comes to its convergence. -/
def staleRun : List (Event Rat) :=
  bridgeSyncRun ++ [2144721, 2302007, 2459294, 4032158, 4504017, 4661303, 4818590, 6391454, 6863313,
    7020599, 7177886, 8750750].flatMap tickAt ++
  [hearsAt 8760000 48 .discovery 1 3 1 9000000 0] ++
  [9000000, 9157286, 9314572, 9471858].flatMap tickAt ++ [eventAt 9629144 .timer]

/-- FAILS IN GENERAL: the bridge starts its second convergence with the slots of the first. -/
theorem stale_slots_survive : ¬ ∀ es (s t u : Node Rat) e, Run step (fun _ _ => True) (boot 44) es s → s.step e = some
    t → StartsSlots s e u → ∀ ch ∈ u.cl.heads, ch.consSlot = 0 := by
  intro hall
  obtain ⟨s, hrun, hs⟩ : ∃ s, Run step (fun _ _ => True) (boot 44) staleRun s ∧ _ :=
    exists_run (fun _ _ => true) (fun s => (s.step (eventAt 9629244 .process)).isSome &&
      starts (fun u => u.cl.role == .cb && u.cl.heads.any fun ch => ch.consSlot != 0)
        (eventAt 9629244 .process) s) (fun _ _ _ => trivial) (by decide +kernel)
  obtain ⟨hsome, hstarts⟩ := Bool.and_eq_true_iff.mp hs
  obtain ⟨t, ht⟩ := Option.isSome_iff_exists.mp hsome
  obtain ⟨u, hu, hq⟩ := startsSlots_of_starts rfl hstarts
  obtain ⟨-, hany⟩ := Bool.and_eq_true_iff.mp hq
  obtain ⟨ch, hch, hslot⟩ := any_eq_true.mp hany
  have hzero := hall staleRun s t u _ hrun ht hu ch hch
  simp [hzero] at hslot

end Node

end CSync
