import CSync.Node.OffTable
import CSync.Node.Steps

/-! The neighbour table over the runs of a node.

    Only `add_to_neighbour` links a block or counts a neighbour. The handlers behind it store the role of a sender or
    step the clock, which changes entries in place, and the thread does not touch the table at all. So the table
    invariant holds in every state that a node reaches. -/

namespace CSync

open Lib

namespace Node

variable {R : Type} [SoftDouble R] {nb : NeighbourTable R}

def HasTable (nb : NeighbourTable R) (s : Node R) : Prop := s.nb = nb

variable {s t : Node R} {func : Callback} {value : AnnouncementValue R}

/-! ### The handlers that leave the table and the clock alone -/

/-- The clock in the timers, and the readings to come. -/
def clockOf (tm : RtimerState R) : UInt32 × R × UInt32 × UInt32 × UInt32 × (Nat → UInt32) :=
  (tm.coarseCount, tm.avgRate, tm.coarseOffsetRef, tm.fineOffsetRef, tm.fineOffset, tm.hw)

/-- A property of the table and of the clock that a call of `rtimer_schedule` keeps. -/
structure Undisturbed (P : Node R → Prop) : Prop where
  frame : ∀ {s t : Node R}, P s → t.nb = s.nb → clockOf t.tm = clockOf s.tm → P t
  schedule : ∀ {s : Node R} type c f func, P s → P (s.schedule type c f func).2

theorem undisturbed_table (nb : NeighbourTable R) : Undisturbed (HasTable nb) :=
  ⟨fun h hnb _ => hnb.trans h, fun _ _ _ _ h => h⟩

variable {P : Node R → Prop}

section
variable (hP : Undisturbed P)
include hP

theorem Undisturbed.ifScheduled (h : P s) {type : ScheduleType} {c f : UInt32}
    {yes no : Node R → Node R} (hyes : ∀ t, P t → P (yes t)) (hno : ∀ t, P t → P (no t)) :
    P (s.ifScheduled type c f func yes no) := by
  rw [Node.ifScheduled]
  split
  · exact hyes _ (hP.schedule type c f func h)
  · exact hno _ (hP.schedule type c f func h)

variable {enter : Node R → Node R}

theorem Undisturbed.joinAt (h : P s)
    (henter : ∀ t, P t → P (enter t)) : P (s.joinAt value func enter) :=
  hP.ifScheduled h (fun t ht => henter (t.setRt0State .singlepass) (hP.frame ht rfl rfl)) fun _ ht => ht

theorem Undisturbed.startElection (h : P s) (value : AnnouncementValue R) :
    P (s.startElection value) := by
  rw [Node.startElection]
  split
  · refine hP.ifScheduled h (fun t ht => ?_) fun _ ht => ht
    exact hP.frame ht rfl rfl
  · split
    · split
      · refine hP.ifScheduled h (fun t ht => ?_) fun t ht => ?_
        · exact hP.frame ht rfl rfl
        · exact hP.frame ht rfl rfl
      · exact h
    · exact h

theorem Undisturbed.revelationMessage (h : P s) (value : AnnouncementValue R) (n : Neighbour R) :
    P (s.revelationMessage value n) := by
  have hleft : ∀ t : Node R, P t → P t.leaveDiscovery := fun _ ht => hP.frame ht rfl rfl
  rw [Node.revelationMessage]
  split
  · rw [joinRevelation]
    split
    · dsimp only
      split
      · refine hP.joinAt ?_ fun t ht => ?_
        · exact hP.frame h rfl rfl
        · exact hP.frame ht rfl rfl
      · exact hP.frame h rfl rfl
    · split
      · refine hP.joinAt ?_ fun t ht => ?_
        · exact hP.frame h rfl rfl
        · exact hP.frame (hleft t ht) rfl rfl
      · split
        · refine hP.joinAt ?_ fun t ht => ?_
          · exact hP.frame h rfl rfl
          · dsimp only
            split <;> exact hP.frame (hleft t ht) rfl rfl
        · exact h
  · split <;> exact hP.frame h rfl rfl
  · split <;> exact hP.frame h rfl rfl
  · split
    · refine hP.joinAt ?_ fun t ht => ?_
      · exact hP.frame h rfl rfl
      · split <;> exact hP.frame ht rfl rfl
    · exact h
  · split <;> exact hP.frame h rfl rfl
  · exact h

theorem Undisturbed.declarationMessage (h : P s) (value : AnnouncementValue R) (n : Neighbour R) :
    P (s.declarationMessage value n) := by
  rw [Node.declarationMessage]
  split
  · rw [joinDeclaration]
    split
    · exact hP.frame h rfl rfl
    · split
      · refine hP.ifScheduled ?_ (fun t ht => ?_) fun _ ht => ht
        · exact hP.frame h rfl rfl
        · exact hP.frame ht rfl rfl
      · exact hP.frame h rfl rfl
  · split
    · refine hP.joinAt ?_ fun t ht => ?_
      · exact hP.frame h rfl rfl
      · exact hP.frame ht rfl rfl
    · exact h
  · split
    · split
      · rw [electHead]
        split <;> exact hP.frame h rfl rfl
      · exact h
    · split
      · refine hP.joinAt ?_ fun t ht => ?_
        · exact hP.frame h rfl rfl
        · exact hP.frame ht rfl rfl
      · exact h
  · split <;> exact hP.frame h rfl rfl
  · exact h

end

/-! ### The handlers that change entries -/

variable {a : UInt16}

omit [SoftDouble R] in
theorem sameAddrs_foldl_modify {f : Pool maxDegree (Neighbour R) → Fin maxDegree → Pool maxDegree (Neighbour R)}
    (hf : ∀ m i, SameAddrs m (f m i)) : ∀ (l : List (Fin maxDegree)) (m : Pool maxDegree (Neighbour R)),
      SameAddrs m (l.foldl f m)
  | [], m => .refl m
  | i :: l, m => (hf m i).trans (sameAddrs_foldl_modify hf l _)

section
variable (h : TableInv a s.nb)
include h

theorem tableInv_trustedSynchronization (n : Neighbour R) (cAddr : UInt16)
    (consRate : R) : TableInv a (s.csyncTrustedSynchronization n cAddr consRate).nb := by
  have hstep : ∀ (t : Node R) (d : Int32), t.nb = s.nb → TableInv a (t.stepClock d).nb := by
    intro t d ht
    have htable : TableInv a t.nb := ht ▸ h
    exact htable.congr (sameAddrs_foldl_modify (fun m i => .modify m i rfl) _ _)
  rw [csyncTrustedSynchronization]
  dsimp only [emit]
  cases s.cl.role with
  | cm =>
    refine iteInduction (motive := fun t : Node R => TableInv a t.nb) (fun _ => h) fun _ => hstep _ _ ?_
    exact iteInduction (motive := fun t : Node R => t.nb = s.nb) (fun _ => rfl) fun _ => rfl
  | cb =>
    refine iteInduction (motive := fun t : Node R => TableInv a t.nb) (fun _ => h) fun _ => hstep _ _ ?_
    exact iteInduction (motive := fun t : Node R => t.nb = s.nb) (fun _ => rfl) fun _ => rfl
  | ch =>
    refine iteInduction (motive := fun t : Node R => TableInv a t.nb) (fun _ => h) fun _ => ?_
    refine iteInduction (motive := fun t : Node R => TableInv a t.nb) (fun _ => hstep _ _ rfl) fun _ => ?_
    exact iteInduction (motive := fun t : Node R => TableInv a t.nb) (fun _ => hstep _ _ rfl) fun _ => h

omit [SoftDouble R] in
theorem tableInv_noteRole (addr : UInt16) : TableInv a (s.noteRole addr).nb := by
  have hnote : ∀ (t : Node R) (role : Role), TableInv a t.nb →
      TableInv a (updateNeighbourRole t.myAddr t.nb addr role) := by
    intro t role ht
    refine ht.congr (sameAddrs_foldl_modify (fun m i => ?_) _ _)
    split
    · exact .modify m i rfl
    · exact .refl m
  have hhead : TableInv a (if s.cl.hasHead addr
      then { s with nb := updateNeighbourRole s.myAddr s.nb addr .ch } else s).nb := by
    split
    · exact hnote s .ch h
    · exact h
  rw [noteRole]
  generalize (if s.cl.hasHead addr
    then { s with nb := updateNeighbourRole s.myAddr s.nb addr .ch } else s) = t at hhead ⊢
  split
  · exact hnote t .cb hhead
  · exact hhead

omit [SoftDouble R] in
theorem tableInv_slotMessage (value : AnnouncementValue R) (n : Neighbour R) :
    TableInv a (s.slotMessage value n).nb := by
  have hnote := tableInv_noteRole h n.addr
  have hassign : ∀ t : Node R, (t.assignSlot value n.addr).nb = t.nb := by
    intro t
    rw [assignSlot]
    split
    · split <;> rfl
    · rfl
  rw [slotMessage]
  split
  · split <;> exact hnote
  · split
    · rw [hassign]
      exact hnote
    · split <;> exact hnote
    · exact hnote

theorem tableInv_joinAt
    (henter : ∀ t, TableInv a t.nb → TableInv a (enter t).nb) : TableInv a (s.joinAt value func enter).nb := by
  rw [joinAt, ifScheduledAt, ifScheduled]
  split
  · exact henter _ h
  · exact h

section

variable (value : AnnouncementValue R) (n : Neighbour R)

theorem tableInv_convergenceMessage : TableInv a (s.convergenceMessage value n).nb := by
  rw [convergenceMessage]
  split
  · split
    · refine tableInv_joinAt ?_ fun t ht => ?_
      · exact h
      · exact ht
    · exact h
  · split
    · exact tableInv_slotMessage h value n
    · exact h
  · split
    · refine tableInv_joinAt ?_ fun t ht => ?_
      · exact h
      · exact ht
    · exact h
  · exact h

/-- Behind a correction of the clock the border flag and the announcement change. -/
theorem tableInv_corrected {f : Node R → Node R} (hf : ∀ t, (f t).nb = t.nb) :
    TableInv a (f (s.csyncTrustedSynchronization n value.refAddr value.consRate)).nb := by
  rw [hf]
  exact tableInv_trustedSynchronization h n value.refAddr value.consRate

theorem tableInv_slotSynchronization : TableInv a (s.slotSynchronization value n).nb := by
  rw [slotSynchronization]
  split
  · rw [bridgeSynchronization]
    split
    · split
      · exact tableInv_corrected (f := fun t => (t.setSyncBorder 1).forwardAll value) h value n fun _ => rfl
      · exact h
    · split
      · split <;> exact h
      · exact h
  · have hforward : TableInv a (s.forwardDate value).nb := h
    dsimp only
    split
    · exact tableInv_corrected (f := fun t => (t.bump .synchronization).setSyncBorder 1) hforward value n fun _ => rfl
    · exact tableInv_corrected (f := id) hforward value n fun _ => rfl
  · split
    · exact tableInv_corrected (s := s.forwardDate value) (f := id) h value n fun _ => rfl
    · exact h

theorem tableInv_byzantineMessage (threshold : Nat) : TableInv a (s.byzantineMessage value n threshold).nb := by
  rw [byzantineMessage]
  split
  · split
    · have hcount := tableInv_corrected (s := { s with msgCount := s.msgCount + 1 }) (f := id) h value n fun _ => rfl
      dsimp only [id] at hcount ⊢
      generalize { s with msgCount := s.msgCount + 1 }.csyncTrustedSynchronization n value.refAddr
        value.consRate = t at hcount ⊢
      split <;> exact hcount
    · exact tableInv_corrected (f := fun t => (t.forwardAll value).setSyncBorder 1) h value n fun _ => rfl
  · exact h

theorem tableInv_synchronizationMessage
    (threshold : Nat) (n : Neighbour R) : TableInv a (s.synchronizationMessage value threshold n).nb := by
  rw [synchronizationMessage]
  split
  · rw [joinSynchronization]
    refine tableInv_joinAt (s := { s with cl := { s.cl with role := .cm } }.leaveDiscovery) h fun t ht => ?_
    rw [linkSynchronization]
    split
    · have hlinked : TableInv a { t with cl := linkMemb value t.cl, myConsSlot := value.degree }.nb := ht
      exact tableInv_corrected (f := fun t => (t.setSyncBorder 0).forwardAll value) hlinked value n fun _ => rfl
    · exact ht
  · split
    · rw [cutRevelation]
      refine tableInv_joinAt (s := s.politeCancel) h fun t ht => ?_
      split <;> exact ht
    · exact h
  · split
    · split
      · exact h
      · exact tableInv_slotSynchronization h value n
    · split
      · split
        · exact h
        · exact tableInv_byzantineMessage h value n threshold
      · exact h
  · exact h

end

end

/-- The sender's block is linked, and no neighbour of the topology is lost. -/
theorem addToNeighbour_modList (env : Env R) (a : UInt16) (st : St) (tm : RtimerState R) (nb : NeighbourTable R)
    (addr : UInt16) (state degree : UInt8) (rx : Reception R) :
    (∀ i, (addToNeighbour env a st tm nb addr state degree rx).1 = some i →
       i ∈ (addToNeighbour env a st tm nb addr state degree rx).2.1.modList) ∧
    nb.modList.length ≤ (addToNeighbour env a st tm nb addr state degree rx).2.1.modList.length := by
  rw [addToNeighbour]
  split
  next j hj =>
    obtain ⟨m, -, heq⟩ := sameAddrs_refreshNeighbour env st tm nb j state degree rx
    rw [heq]
    refine ⟨fun i hi => ?_, le_refl _⟩
    cases hi
    exact List.mem_of_find?_eq_some hj
  · split
    · exact ⟨by rintro _ ⟨⟩, le_refl _⟩
    · split
      · exact ⟨by rintro _ ⟨⟩, le_refl _⟩
      · dsimp only
        split
        · refine ⟨fun i hi => ?_, ?_⟩
          · cases hi
            simp
          · rw [List.length_append]
            omega
        · exact ⟨by rintro _ ⟨⟩, le_refl _⟩

theorem addNeighbour_myDegree (h : TableInv s.myAddr s.nb) (value : AnnouncementValue R)
    (rx : Reception R) : s.nb.myDegree ≤ (s.addNeighbour value rx).2.nb.myDegree := by
  have hpost : TableInv s.myAddr (s.addNeighbour value rx).2.nb := by
    rw [addNeighbour_nb]
    exact addToNeighbour_keeps h _ _ _ _ _ _ _
  rw [UInt8.le_iff_toNat_le, h.degree, hpost.degree, addNeighbour_nb]
  exact (addToNeighbour_modList _ _ _ _ _ _ _ _ _).2

/-- The entry with which a handler goes on is one of the topology. -/
theorem hears_mem {n : Neighbour R} {rx : Reception R}
    (h : s.hears value rx = some (t, n)) : ∃ i ∈ t.nb.modList, n = t.nb.memb.mem i := by
  obtain ⟨-, rfl, i, hi, rfl, -⟩ := hears_spec h
  refine ⟨i, ?_, rfl⟩
  rw [addNeighbour_nb]
  exact (addToNeighbour_modList s.env s.myAddr s.myState s.tm s.nb rx.sender value.instr value.degree rx).1 i hi

/-! ### Runs -/

section
variable (h : TableInv s.myAddr s.nb)
include h

theorem tableInv_addNeighbour (value : AnnouncementValue R)
    (rx : Reception R) : TableInv s.myAddr (s.addNeighbour value rx).2.nb := by
  rw [addNeighbour_nb]
  exact addToNeighbour_keeps h _ _ _ _ _ _ _

theorem tableInv_whenSynced {rx : Reception R} {handle : Node R → Neighbour R → Node R}
    (hhandle : ∀ t n, TableInv s.myAddr t.nb → TableInv s.myAddr (handle t n).nb) :
    TableInv s.myAddr (s.whenSynced value rx handle).nb := by
  have hadd := tableInv_addNeighbour h value rx
  rcases s.whenSynced_cases value rx handle with (heq | heq) | ⟨t, n, hears, heq⟩
  · rw [heq]
    exact h
  · rw [heq]
    exact hadd
  · obtain ⟨-, rfl, -⟩ := hears_spec hears
    rw [heq]
    exact hhandle _ n hadd

theorem tableInv_heard (id : AnnId) (value : AnnouncementValue R)
    (rx : Reception R) : TableInv s.myAddr (s.heard id value rx).nb := by
  cases id with
  | discovery =>
    have hadd := tableInv_addNeighbour h value rx
    have helect : ∀ t : Node R, TableInv s.myAddr t.nb →
        TableInv s.myAddr (if t.myState = .discovery then t.checkSynced.startElection value else t).nb := by
      intro t ht
      have hsynced : t.checkSynced.nb = t.nb := by
        rw [checkSynced]
        split <;> rfl
      split
      · have helected : (t.checkSynced.startElection value).nb = t.nb :=
          (undisturbed_table t.nb).startElection hsynced value
        rw [helected]
        exact ht
      · exact ht
    change TableInv s.myAddr (s.receivedDiscoveryAnnouncement value rx).nb
    rw [receivedDiscoveryAnnouncement, whenReceived]
    split
    · exact h
    · dsimp only
      split
      · refine helect _ ?_
        split <;> exact hadd
      · exact hadd
  | revelation =>
    exact tableInv_whenSynced h fun t n ht => Eq.symm ((undisturbed_table t.nb).revelationMessage rfl value n) ▸ ht
  | declaration =>
    exact tableInv_whenSynced h fun t n ht => Eq.symm ((undisturbed_table t.nb).declarationMessage rfl value n) ▸ ht
  | convergence => exact tableInv_whenSynced h fun _ n ht => tableInv_convergenceMessage ht value n
  | synchronization =>
    change TableInv s.myAddr (s.receivedSynchronizationAnnouncement value rx).nb
    rw [receivedSynchronizationAnnouncement]
    split
    · exact h
    · exact tableInv_whenSynced h fun _ n ht => tableInv_synchronizationMessage ht value _ n

end

omit [SoftDouble R] in
theorem nb_fire (s : Node R) : s.fire.nb = s.nb := by
  have hcall : ∀ (t : Node R) (f : Callback), (t.call f).nb = t.nb := by
    intro t f
    cases f
    case enterConvergenceSlot =>
      rw [call, enterConvergenceSlot]
      split <;> rfl
    case enterSynchronizationSlot =>
      rw [call, enterSynchronizationSlot]
      split <;> rfl
    all_goals rfl
  rw [fire]
  split
  · exact hcall _ _
  · rfl

theorem tableInv_step {e : Event R} (h : Timed s.core ∧ TableInv s.myAddr s.nb)
    (hstep : s.step e = some t) : Timed t.core ∧ TableInv t.myAddr t.nb := by
  refine ⟨timed_step h.1 hstep, ?_⟩
  rw [step_myAddr h.1 hstep]
  obtain ⟨-, hof⟩ := step_of hstep
  cases hof with
  | heard => exact tableInv_heard (s := s.prepare e) h.2 _ _ _
  | fired =>
    rw [nb_fire]
    exact h.2
  | resumed =>
    rw [offTable_resume.nb_eq]
    exact h.2
  | overflowed => exact h.2

/-- NEIGHBOUR TABLE: the table invariant holds in every state of every run. -/
theorem tableInv_run {D : Node R → Event R → Prop} {a : UInt16} {es : List (Event R)}
    (hrun : Run step D (boot a) es t) : TableInv t.myAddr t.nb :=
  (hrun.invariant (P := fun s => Timed s.core ∧ TableInv s.myAddr s.nb) (fun _ _ _ hs _ hst => tableInv_step hs hst)
    ⟨timed_boot a, tableInv_resetCGtsp blank a⟩).2

/-- Two neighbours of node 78 announce themselves, and so does a node that is none. -/
theorem tableInv_run_three : ∃ t : Node Rat, t.nb.modList.length = 2 ∧ t.nb.list.length = 1 ∧ TableInv t.myAddr t.nb := by
  obtain ⟨t, hrun, ht⟩ : ∃ t : Node Rat, Run step (fun _ _ => True) (boot 78) [hearsAt 500 44 .discovery 0 5 0 0 0,
      hearsAt 1500 45 .discovery 0 5 0 0 0, hearsAt 2000 12 .discovery 0 5 0 0 0] t ∧ _ :=
    exists_run (fun _ _ => true) (fun t : Node Rat => t.nb.modList.length == 2 && t.nb.list.length == 1)
      (fun _ _ _ => trivial) (by decide +kernel)
  rw [Bool.and_eq_true, beq_iff_eq, beq_iff_eq] at ht
  exact ⟨t, ht.1, ht.2, tableInv_run hrun⟩

end Node

end CSync
