import CSync.Safety.Lists

/-! Heads with different addresses over whole runs.

    Two of the handlers search `CHs_list` for a sender that may be on it: that of a declaration in the election and that
    of a revelation that cuts the convergence short. `add_to_neighbour` has stored the degree of the message before, so
    the sender can rank higher than it did when it was put on the list. In a run in which each of these searches meets
    the sender, or the sender is new, the heads have different addresses in every state, and a commoner that becomes a
    bridge has two different heads. -/

namespace CSync

open Lib List

namespace Node

variable {R : Type} [SoftDouble R]

/-- The handler searches `CHs_list` for a sender that may be on it. -/
def Searches (s : Node R) (id : AnnId) (value : AnnouncementValue R) (n : Neighbour R) : Prop :=
  (id = .declaration ∧ s.myState = .electionDeclaration ∧ value.instr = St.electionDeclaration.code ∧
    s.outranks n = true) ∨
  (id = .revelation ∧ s.myState = .consensusConvergence ∧ value.instr = St.consensusRevelation.code ∧
    s.cl.role = .ch ∧ s.cl.cbs.length = 0 ∧ s.accepts value .enterConsensusSynchronization)

/-- A sender that is searched is not put on the list twice. -/
def PlacesOnce (s : Node R) (e : Event R) : Prop :=
  ∀ id value rx t n, e.act = .heard id value rx → (s.prepare e).hears value rx = some (t, n) →
    t.Searches id value n → PlacedOnce s.cl.chsMemb s.cl.chs n.addr n.degree

/-! ### The handlers -/

variable {s : Node R} {value : AnnouncementValue R} {n : Neighbour R}

/-- A call of `rtimer_schedule` for the announced date. -/
theorem distinct_ifScheduledAt {func : Callback} {yes no : Node R → Node R}
    (hyes : s.accepts value func → ∀ t, t.cl = s.cl → t.myState = s.myState → DistinctHeads (yes t).cl)
    (hno : ∀ t, t.cl = s.cl → DistinctHeads (no t).cl) : DistinctHeads (s.ifScheduledAt value func yes no).cl := by
  rw [ifScheduledAt, ifScheduled]
  split
  next hok => exact hyes hok _ rfl rfl
  · exact hno _ rfl

/-- Joining a phase whose entry leaves the lists alone. -/
theorem distinct_joinAt (h : DistinctHeads s.cl) (value : AnnouncementValue R) (func : Callback)
    {enter : Node R → Node R} (henter : ∀ t, DistinctHeads t.cl → DistinctHeads (enter t).cl) :
    DistinctHeads (s.joinAt value func enter).cl :=
  distinct_ifScheduledAt (fun _ t ht _ => henter _ (ht ▸ h : DistinctHeads t.cl)) fun _ ht => ht ▸ h

omit [SoftDouble R] in
theorem distinct_handleLists (h : DistinctHeads s.cl) (value : AnnouncementValue R) (n : Neighbour R)
    (honce : s.myState = .electionDeclaration ∨ s.myState = .consensusConvergence →
      PlacedOnce s.cl.chsMemb s.cl.chs n.addr n.degree) : DistinctHeads (s.handleLists value n).2.cl :=
  h.handleLists _ _ value honce

omit [SoftDouble R] in
theorem cl_checkSynced (s : Node R) : s.checkSynced.cl = s.cl := by
  rw [checkSynced]
  split <;> rfl

theorem cl_startElection (s : Node R) (value : AnnouncementValue R) : (s.startElection value).cl = s.cl := by
  have hcall : ∀ (t : Node R) (type : ScheduleType) c f func (yes no : Node R → Node R), (∀ u, (yes u).cl = u.cl) →
      (∀ u, (no u).cl = u.cl) → (t.ifScheduled type c f func yes no).cl = t.cl := by
    intro t type c f func yes no hyes hno
    rw [ifScheduled]
    split
    · exact hyes _
    · exact hno _
  rw [startElection]
  split
  · exact hcall s _ _ _ _ _ _ (fun _ => rfl) fun _ => rfl
  · split
    · split
      · exact hcall s _ _ _ _ _ _ (fun _ => rfl) fun _ => rfl
      · rfl
    · rfl

section
variable (h : DistinctHeads s.cl)
include h

theorem distinct_discovery (value : AnnouncementValue R) (rx : Reception R) :
    DistinctHeads (s.receivedDiscoveryAnnouncement value rx).cl := by
  have helect : ∀ t : Node R, DistinctHeads t.cl →
      DistinctHeads (if t.myState = .discovery then t.checkSynced.startElection value else t).cl := by
    intro t ht
    split
    · rw [cl_startElection, cl_checkSynced]
      exact ht
    · exact ht
  refine whenReceived_rule (P := fun t => DistinctHeads t.cl) ?_ ?_
  · rintro _ ⟨nb, tm, an, -, -, rfl⟩
    exact h
  · rintro _ n ⟨nb, tm, an, -, -, rfl⟩
    refine helect _ ?_
    split <;> exact h

omit [SoftDouble R] in
theorem distinct_takeSlot (addr : UInt16) (slot : UInt8) :
    DistinctHeads (s.takeSlot addr slot).cl := h.setConsSlot addr slot

theorem distinct_joinRevelation (value : AnnouncementValue R)
    (n : Neighbour R) : DistinctHeads (s.joinRevelation value n).cl := by
  have hcm : DistinctHeads { s with cl := { s.cl with role := .cm } }.cl := h
  rw [joinRevelation]
  split
  · dsimp only
    split
    · exact distinct_joinAt (s := s.politeCancel) h value _ fun _ ht => ht
    · exact h
  · split
    · exact distinct_joinAt hcm value _ fun _ ht => ht
    · split
      · refine distinct_joinAt hcm value _ fun t ht => ?_
        dsimp only
        split
        · exact distinct_takeSlot ht _ _
        · exact DistinctHeads.linkMemb ht value
      · exact h

theorem distinct_cutConvergence
    (honce : s.cl.role = .ch → s.cl.cbs.length = 0 → s.accepts value .enterConsensusSynchronization →
      PlacedOnce s.cl.chsMemb s.cl.chs n.addr n.degree) : DistinctHeads (s.cutConvergence value n).cl := by
  rw [cutConvergence, joinAt]
  refine distinct_ifScheduledAt (s := s.politeCancel) (fun hok t ht _ => ?_) fun t ht => ht ▸ h
  have hd : DistinctHeads t.cl := ht ▸ h
  split
  next hrole =>
    refine distinct_takeSlot (distinct_handleLists (s := t.setRt0State .singlepass) hd value n fun _ => ?_) _ _
    have hcl : t.cl = s.cl := ht
    change PlacedOnce t.cl.chsMemb t.cl.chs n.addr n.degree
    have hrole' : t.cl.role = .ch ∧ t.cl.cbs.length = 0 := hrole
    rw [hcl] at hrole' ⊢
    exact honce hrole'.1 hrole'.2 hok
  · exact hd

theorem distinct_revelationMessage (honce : s.Searches .revelation value n → PlacedOnce
    s.cl.chsMemb s.cl.chs n.addr n.degree) : DistinctHeads (s.revelationMessage value n).cl := by
  rw [revelationMessage]
  cases hst : s.myState with
  | discovery => exact distinct_joinRevelation h value n
  | electionRevelation =>
    dsimp only
    split <;> exact h
  | connectionRevelation =>
    dsimp only
    split
    · exact h.handleLists_elsewhere (by rw [hst]; decide) _ _ value n
    · exact h
  | consensusConvergence =>
    dsimp only
    split
    next hinstr =>
      exact distinct_cutConvergence h fun hch hnone hok => honce (.inr ⟨rfl, hst, hinstr, hch, hnone, hok⟩)
    · exact h
  | consensusRevelation =>
    dsimp only
    split
    · exact distinct_takeSlot h _ _
    · exact h
  | _ => exact h

theorem distinct_declarationMessage (honce : s.Searches .declaration value n → PlacedOnce
    s.cl.chsMemb s.cl.chs n.addr n.degree) : DistinctHeads (s.declarationMessage value n).cl := by
  rw [declarationMessage]
  cases hst : s.myState with
  | discovery =>
    dsimp only
    rw [joinDeclaration]
    split
    · exact h
    · split
      · refine distinct_ifScheduledAt (fun _ t ht hstate => ?_) fun t ht => (by rw [id, ht]; exact h)
        have hd : DistinctHeads t.cl := by
          rw [ht]
          exact h
        have hdisc : t.myState = .discovery := hstate.trans hst
        exact hd.handleLists_elsewhere (by rw [hdisc]; decide) _ _ value n
      · exact h
  | electionRevelation =>
    dsimp only
    split
    · exact distinct_joinAt (s := s.politeCancel) h value _ fun _ ht => ht
    · exact h
  | electionDeclaration =>
    dsimp only
    split
    next hinstr =>
      split
      next hout =>
        have hcall := distinct_handleLists (s := s.politeCancel) h value n fun _ =>
          honce (.inl ⟨rfl, hst, hinstr, hout⟩)
        rw [electHead]
        split <;> exact hcall
      · exact h
    · split
      · exact distinct_joinAt (s := s.politeCancel) h value _ fun t _ => distinct_nil t.cl.chsMemb
      · exact h
  | connectionDeclaration =>
    dsimp only
    split
    · exact h.handleLists_elsewhere (by rw [hst]; decide) _ _ value n
    · exact h
  | _ => exact h

end

section

omit [SoftDouble R]

theorem distinct_resignHead (h : DistinctHeads s.cl) (value : AnnouncementValue R) (n : Neighbour R) (hst : s.myState
    = .connectionDeclaration ∨ s.myState = .consensusSynchronization) : DistinctHeads (s.resignHead value n).cl := by
  rw [resignHead]
  split
  · have hcm : DistinctHeads { s.cl with role := .cm, cbs := [] } := h
    refine hcm.handleLists_elsewhere ?_ _ _ value n
    rcases hst with hst | hst <;> rw [hst] <;> decide
  · exact h

theorem cl_noteRole (s : Node R) (addr : UInt16) : (s.noteRole addr).cl = s.cl := by
  rw [noteRole]
  split <;> split <;> rfl

theorem distinct_assignSlot (h : DistinctHeads s.cl) (value : AnnouncementValue R) (addr : UInt16) :
    DistinctHeads (s.assignSlot value addr).cl := by
  rw [assignSlot]
  split
  · split
    · exact Distinct.modify h _ (f := fun ch => { ch with consSlot := value.degree }) fun _ => rfl
    · exact h
  · exact h

theorem not_mem_of_hasHead {cl : Cluster} {addr : UInt16} (h : cl.hasHead addr = false) :
    addr ∉ (entries cl.chsMemb cl.chs).map Chb.addr := by
  intro hmem
  obtain ⟨ch, hch, haddr⟩ := mem_map.mp hmem
  have hne := any_eq_false.mp h ch hch
  exact hne (beq_iff_eq.mpr haddr)

/-- A sender without an entry is put on `CHs_list`, or a slot is stored. -/
theorem distinct_slotMessage (h : DistinctHeads s.cl) (value : AnnouncementValue R) (n : Neighbour R) :
    DistinctHeads (s.slotMessage value n).cl := by
  have hcl := s.cl_noteRole n.addr
  rw [slotMessage]
  generalize s.noteRole n.addr = t at hcl
  have hd : DistinctHeads t.cl := hcl ▸ h
  split
  next hnew =>
    rw [Bool.and_eq_true, Bool.not_eq_true'] at hnew
    split
    · exact distinct_handleLists hd value n fun _ => .inl (not_mem_of_hasHead hnew.1)
    · exact hd
  · split
    · exact distinct_assignSlot hd value n.addr
    · split
      · exact hd
      · exact hd.setConsSlot _ _
    · exact hd

end

theorem distinct_convergenceMessage (h : DistinctHeads s.cl) (value : AnnouncementValue R)
    (n : Neighbour R) : DistinctHeads (s.convergenceMessage value n).cl := by
  rw [convergenceMessage]
  cases hst : s.myState with
  | connectionDeclaration =>
    dsimp only
    split
    · refine distinct_ifScheduledAt (fun _ t ht hstate => ?_) fun t ht => ht ▸ h
      exact distinct_resignHead (s := t.setRt0State .singlepass) (ht ▸ h) value n (.inl (hstate.trans hst))
    · exact h
  | consensusConvergence =>
    dsimp only
    split
    · exact distinct_slotMessage h value n
    · exact h
  | consensusSynchronization =>
    dsimp only
    split
    · refine distinct_ifScheduledAt (fun _ t ht hstate => ?_) fun t ht => ht ▸ h
      exact distinct_resignHead (s := { t.setRt0State .singlepass with refNChbDegree := numConsSlots + 3 }) (ht ▸ h)
        value n (.inr (hstate.trans hst))
    · exact h
  | _ => exact h

theorem cl_trustedSynchronization (s : Node R) (n : Neighbour R) (cAddr : UInt16) (consRate : R) :
    (s.csyncTrustedSynchronization n cAddr consRate).cl = s.cl :=
  congrArg Core.cl (core_trustedSynchronization s n cAddr consRate)

section
variable (h : DistinctHeads s.cl)
include h

section

variable (value : AnnouncementValue R) (n : Neighbour R)

theorem distinct_joinSynchronization : DistinctHeads (s.joinSynchronization value n).cl := by
  refine distinct_joinAt (s := { s with cl := { s.cl with role := .cm } }.leaveDiscovery) h value _ fun t ht => ?_
  rw [linkSynchronization]
  split
  · have hcl : ∀ u : Node R, ((u.setSyncBorder 0).forwardAll value).cl = u.cl := fun _ => rfl
    rw [hcl, cl_trustedSynchronization]
    exact DistinctHeads.linkMemb ht value
  · exact ht

theorem distinct_cutRevelation
    (hst : s.myState = .consensusRevelation) : DistinctHeads (s.cutRevelation value n).cl := by
  rw [cutRevelation, joinAt]
  refine distinct_ifScheduledAt (s := s.politeCancel) (fun _ t ht hstate => ?_) fun t ht => ht ▸ h
  have hd : DistinctHeads t.cl := ht ▸ h
  have hrev : t.myState = .consensusRevelation := hstate.trans hst
  split
  · refine DistinctHeads.setConsSlot (hd.handleLists_elsewhere ?_ _ _ value n) _ _
    change t.myState ≠ _ ∧ t.myState ≠ _
    rw [hrev]
    decide
  · exact hd

theorem distinct_slotSynchronization : DistinctHeads (s.slotSynchronization value n).cl := by
  have htrust : ∀ t : Node R, t.cl = s.cl →
      DistinctHeads (t.csyncTrustedSynchronization n value.refAddr value.consRate).cl := by
    intro t ht
    rw [cl_trustedSynchronization, ht]
    exact h
  have haccuse : DistinctHeads (s.accuse n).cl := by
    change DistinctHeads (blacklistAdd n.addr s.cl)
    rw [blacklistAdd]
    split <;> exact h
  rw [slotSynchronization]
  split
  · rw [bridgeSynchronization]
    split
    · split
      · exact htrust s rfl
      · exact haccuse
    · split
      · split
        · exact haccuse
        · exact h
      · exact h
  · dsimp only
    split
    · exact htrust _ rfl
    · exact htrust _ rfl
  · split
    · exact htrust _ rfl
    · exact h

theorem distinct_synchronizationMessage
    (threshold : Nat) (n : Neighbour R) : DistinctHeads (s.synchronizationMessage value threshold n).cl := by
  rw [synchronizationMessage]
  cases hst : s.myState with
  | discovery => exact distinct_joinSynchronization h value n
  | consensusRevelation =>
    dsimp only
    split
    · exact distinct_cutRevelation h value n hst
    · exact h
  | consensusSynchronization =>
    dsimp only
    split
    · split
      · exact h
      · exact distinct_slotSynchronization h value n
    · split
      · split
        · exact h
        · have hcl : (s.byzantineMessage value n threshold).cl = s.cl :=
            congrArg Core.cl (core_byzantineMessage s value n threshold)
          rw [hcl]
          exact h
      · exact h
  | _ => exact h

end

/-- A handler that ignores an unsynchronised sender. -/
theorem distinct_whenSynced {rx : Reception R} {handle : Node R → Neighbour R → Node R}
    (hhandle : ∀ t n, s.hears value rx = some (t, n) → t.cl = s.cl → DistinctHeads (handle t n).cl) :
    DistinctHeads (s.whenSynced value rx handle).cl := by
  refine whenSynced_rule (P := fun t => DistinctHeads t.cl) ?_ ?_
  · rintro _ ⟨nb, tm, an, -, -, rfl⟩
    exact h
  · rintro t n hears ⟨nb, tm, an, -, -, rfl⟩
    exact hhandle _ n hears rfl

theorem distinct_heard {id : AnnId}
    {rx : Reception R} (honce : ∀ t n, s.hears value rx = some (t, n) → t.Searches id value n →
      PlacedOnce s.cl.chsMemb s.cl.chs n.addr n.degree) : DistinctHeads (s.heard id value rx).cl := by
  cases id with
  | discovery => exact distinct_discovery h value rx
  | revelation =>
    refine distinct_whenSynced h fun t n hears ht => ?_
    have hd : DistinctHeads t.cl := ht ▸ h
    exact distinct_revelationMessage hd fun hsearch => (by rw [ht]; exact honce t n hears hsearch)
  | declaration =>
    refine distinct_whenSynced h fun t n hears ht => ?_
    have hd : DistinctHeads t.cl := ht ▸ h
    exact distinct_declarationMessage hd fun hsearch => (by rw [ht]; exact honce t n hears hsearch)
  | convergence => exact distinct_whenSynced h fun t n _ ht => distinct_convergenceMessage (ht ▸ h) value n
  | synchronization =>
    change DistinctHeads (s.receivedSynchronizationAnnouncement value rx).cl
    rw [receivedSynchronizationAnnouncement]
    split
    · exact h
    · exact distinct_whenSynced h fun t n _ ht => distinct_synchronizationMessage (ht ▸ h) value _ n

end

theorem distinct_step {t : Node R} {e : Event R} (h : Timed s.core ∧ DistinctHeads s.cl) (hok : s.PlacesOnce e)
    (hstep : s.step e = some t) : Timed t.core ∧ DistinctHeads t.cl := by
  refine ⟨timed_step h.1 hstep, ?_⟩
  obtain ⟨-, hof⟩ := step_of hstep
  cases hof with
  | heard hact => exact distinct_heard (s := s.prepare e) h.2 fun t n hears => hok _ _ _ t n hact hears
  | fired =>
    have hcl : (s.prepare e).fire.cl = s.cl := congrArg Core.cl (s.prepare e).core_fire
    rw [hcl]
    exact h.2
  | resumed =>
    by_cases hl : arms s.myState = []
    · exact (resume_done (s := { s.prepare e with polled := false }) hl).1.distinct h.2
    · have hpc : s.pc = .phase := Classical.byContradiction fun h' => hl (h.1.late h')
      rw [resume_phase (s := { s.prepare e with polled := false }) hpc hl]
      have hcl : _ = _ := (phaseSwitch_looped { s.prepare e with polled := false }).2
      change DistinctHeads (phaseSwitch _).core.cl
      rw [hcl]
      exact h.2
  | overflowed => exact h.2

/-- In every run whose searches give no sender a second entry, the heads have different addresses in every
    state, so that a list of more than one has two different heads. -/
theorem elected_heads_distinct (a : UInt16) {es : List (Event R)} {t : Node R}
    (hrun : Run step PlacesOnce (boot a) es t) : (t.cl.heads.map Chb.addr).Nodup ∧
      (1 < t.cl.chs.length → ∃ ch₁ ∈ t.cl.heads, ∃ ch₂ ∈ t.cl.heads, ch₁.addr ≠ ch₂.addr) := by
  have hboot : DistinctHeads (boot (R := R) a).cl := distinct_nil _
  have hdistinct : DistinctHeads t.cl := (hrun.invariant (P := fun s => Timed s.core ∧ DistinctHeads s.cl)
    (fun _ _ _ hs hok hst => distinct_step hs hok hst) ⟨timed_boot a, hboot⟩).2
  have haddrs : (t.cl.heads.map Chb.addr).Nodup := hdistinct.addrs
  refine ⟨haddrs, fun hlen => ?_⟩
  have hheads : t.cl.heads.length = t.cl.chs.length := length_map _
  generalize t.cl.heads = heads at haddrs hheads
  rcases heads with _ | ⟨ch₁, _ | ⟨ch₂, rest⟩⟩
  · simp only [length_nil] at hheads
    omega
  · simp only [length_cons, length_nil] at hheads
    omega
  · refine ⟨ch₁, mem_cons_self, ch₂, mem_cons_of_mem _ mem_cons_self, fun hsame => ?_⟩
    exact (nodup_cons.mp haddrs).1 (hsame ▸ mem_cons_self)

/-! ### Concrete runs -/

/-- The sender of a message has no entry. -/
def unlisted (s : Node R) (e : Event R) : Bool :=
  match e.act with
  | .heard _ _ rx => !s.cl.hasHead rx.sender
  | _ => true

theorem placesOnce_of_unlisted (s : Node R) (e : Event R) (h : s.unlisted e = true) : s.PlacesOnce e := by
  intro id value rx t n hact hears _
  rw [unlisted, hact, Bool.not_eq_true'] at h
  rw [(hears_entry hears).1]
  exact .inl (not_mem_of_hasHead h)

/-- Node 44 takes 48 and then 78 as its heads. -/
def twoHeadsRun : List (Event Rat) :=
  twoNeighboursRun 0 ++
  [hearsAt 260000 48 .declaration 4 9 0 0 48, hearsAt 260500 78 .declaration 4 7 0 0 78]

theorem elected_heads_distinct_two : ∃ t, Run step PlacesOnce (boot 44) twoHeadsRun t ∧ t.myState =
    .electionDeclaration ∧ 1 < t.cl.chs.length ∧ ∃ ch₁ ∈ t.cl.heads, ∃ ch₂ ∈ t.cl.heads, ch₁.addr ≠ ch₂.addr := by
  obtain ⟨t, hrun, ht⟩ : ∃ t, Run step PlacesOnce (boot 44) twoHeadsRun t ∧ _ :=
    exists_run unlisted (fun t : Node Rat => t.myState == .electionDeclaration && decide (1 < t.cl.chs.length))
      placesOnce_of_unlisted (by decide +kernel)
  rw [Bool.and_eq_true, beq_iff_eq, decide_eq_true_eq] at ht
  exact ⟨t, hrun, ht.1, ht.2, (elected_heads_distinct 44 hrun).2 ht.2⟩

/-- FAILS IN GENERAL: 78 declares itself again with more neighbours than 48, which stands in front of its entry. -/
theorem declared_again_listed_twice : ¬ ∀ (es : List (Event Rat)) (t : Node Rat),
    Run step (fun _ _ => True) (boot 44) es t → t.myState = .electionDeclaration → (t.cl.heads.map Chb.addr).Nodup := by
  intro hall
  obtain ⟨t, hrun, ht⟩ : ∃ t, Run step (fun _ _ => True) (boot 44)
      (twoHeadsRun ++ [hearsAt 261000 78 .declaration 4 12 0 0 78]) t ∧ _ :=
    exists_run (fun _ _ => true) (fun t : Node Rat => t.myState == .electionDeclaration &&
      t.cl.heads.map Chb.addr == [78, 48, 78]) (fun _ _ _ => trivial) (by decide +kernel)
  rw [Bool.and_eq_true, beq_iff_eq, beq_iff_eq] at ht
  have hnodup := hall _ t hrun ht.1
  rw [ht.2] at hnodup
  exact absurd hnodup (by decide)

end Node

end CSync
