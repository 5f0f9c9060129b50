import CSync.Node.Refine

/-! What a node arms for an announced date.

    An announcement that carries a date says by its id and instruction which phase begins then. This
    module reads off the outputs of the handlers that a node which schedules `RTIMER_0` at an announced
    date does so with the callback of that phase, in every phase of its own but one: a node in
    discovery that hears of the election or the connection takes the callback of a later phase. -/

namespace CSync

open Lib List

/-- The callback that begins the phase behind the date of an announcement. -/
def dateCall : AnnId → UInt8 → Option Callback
  | .discovery, instr => if instr = discToErev then some .enterElectionRevelation else none
  | .revelation, instr =>
      if instr = St.consensusRevelation.code then some .enterConsensusSynchronization else none
  | .declaration, instr =>
      if instr = St.electionDeclaration.code then some .enterConnectionRevelation
      else if instr = St.connectionDeclaration.code then some .enterConvergence
      else none
  | .convergence, _ => some .enterConsensusRevelation
  | .synchronization, _ => some .enterIdle

/-- The messages whose date a node in discovery takes for that of a later phase. -/
def LateJoin (st : St) (id : AnnId) (instr : UInt8) : Prop :=
  st = .discovery ∧ id = .revelation ∧
    (instr = St.electionRevelation.code ∨ instr = St.connectionRevelation.code)

namespace Node

variable {R : Type} [SoftDouble R]

/-! ### Outputs -/

section
omit [SoftDouble R]

/-- Outputs that neither arm the timer nor write a date. -/
def Plain : Out R → Prop
  | .schedule _ _ _ _ _ _ => False
  | .armedDate _ _ _ => False
  | _ => True

def Adds (l l' : List (Out R)) : Prop := ∃ k, l' = l ++ k ∧ ∀ o ∈ k, Plain o

theorem Adds.refl (l : List (Out R)) : Adds l l := ⟨[], (append_nil l).symm, fun _ h => absurd h not_mem_nil⟩

theorem Adds.emit {l l' : List (Out R)} (h : Adds l l') {o : Out R} (ho : Plain o) : Adds l (l' ++ [o]) := by
  obtain ⟨k, rfl, hk⟩ := h
  refine ⟨k ++ [o], append_assoc l k [o], fun x hx => ?_⟩
  rcases mem_append.mp hx with hx | hx
  · exact hk x hx
  · rw [mem_singleton.mp hx]
    exact ho

theorem Adds.trans {l₁ l₂ l₃ : List (Out R)} (h₁ : Adds l₁ l₂) (h₂ : Adds l₂ l₃) : Adds l₁ l₃ := by
  obtain ⟨k, rfl, hk⟩ := h₁
  obtain ⟨k', rfl, hk'⟩ := h₂
  refine ⟨k ++ k', append_assoc l₁ k k', fun x hx => ?_⟩
  rcases mem_append.mp hx with hx | hx
  · exact hk x hx
  · exact hk' x hx

end

theorem adds_trustedSynchronization (s : Node R) (n : Neighbour R) (cAddr : UInt16) (consRate : R) :
    Adds s.out (s.csyncTrustedSynchronization n cAddr consRate).out := by
  rw [trustedSynchronization_out]
  exact (Adds.refl _).emit trivial

/-- An output of the handler of a message heard in the phase `st` with the timer in the state `status`. -/
def Answer (st : St) (status : RtimerStatus) (id : AnnId) (value : AnnouncementValue R) :
    Out R → Prop
  | .schedule .date _ _ func _ _ => dateCall id value.instr = some func ∨ LateJoin st id value.instr
  | .armedDate i _ rt0 => i = .discovery ∧ st = .discovery ∧
      (rt0.func = some .enterElectionRevelation ∨ status = .singlepass)
  | _ => True

def Answers (st : St) (status : RtimerStatus) (id : AnnId) (value : AnnouncementValue R)
    (l : List (Out R)) : Prop := ∀ o ∈ l, Answer st status id value o

section
variable {st : St} {status : RtimerStatus} {id : AnnId} {value : AnnouncementValue R}

omit [SoftDouble R] in
theorem Answers.append {l : List (Out R)} (h : Answers st status id value l) {o : Out R}
    (ho : Answer st status id value o) : Answers st status id value (l ++ [o]) := by
  intro x hx
  rcases mem_append.mp hx with hx | hx
  · exact h x hx
  · rw [mem_singleton.mp hx]
    exact ho

omit [SoftDouble R] in
theorem Answers.adds {l l' : List (Out R)} (h : Answers st status id value l) (hl : Adds l l') :
    Answers st status id value l' := by
  obtain ⟨k, rfl, hk⟩ := hl
  intro x hx
  rcases mem_append.mp hx with hx | hx
  · exact h x hx
  · have hplain := hk x hx
    cases x with
    | schedule => exact hplain.elim
    | armedDate => exact hplain.elim
    | _ => trivial

theorem answers_ifScheduledAt {s : Node R} (h : Answers st status id value s.out) {func : Callback}
    (hf : dateCall id value.instr = some func ∨ LateJoin st id value.instr) {yes no : Node R → Node R}
    (hyes : ∀ t, Answers st status id value t.out → Answers st status id value (yes t).out)
    (hno : ∀ t, Answers st status id value t.out → Answers st status id value (no t).out) :
    Answers st status id value (s.ifScheduledAt value func yes no).out := by
  have hsched : Answers st status id value
      (s.schedule .date value.dateCoarse value.dateFine func).2.out := h.append hf
  rw [ifScheduledAt, ifScheduled]
  split
  · exact hyes _ hsched
  · exact hno _ hsched

theorem answers_joinAt {s : Node R} (h : Answers st status id value s.out) {func : Callback}
    (hf : dateCall id value.instr = some func ∨ LateJoin st id value.instr) {enter : Node R → Node R}
    (henter : ∀ t : Node R, Adds t.out (enter t).out) : Answers st status id value (s.joinAt value func enter).out :=
  answers_ifScheduledAt h hf (fun t ht => ht.adds (henter (t.setRt0State .singlepass))) fun _ ht => ht

end

/-! ### The handlers -/

section
omit [SoftDouble R]

section
variable (s : Node R)
include s

theorem adds_leaveDiscovery : Adds s.out s.leaveDiscovery.out := by
  refine ((Adds.refl _).emit ?_).emit ?_ <;> trivial

theorem adds_enterElectionRevelation : Adds s.out s.enterElectionRevelation.out :=
  (Adds.refl _).emit trivial

theorem adds_enterElectionDeclaration : Adds s.out s.enterElectionDeclaration.out := by
  refine ((Adds.refl _).emit ?_).emit ?_ <;> trivial

theorem adds_enterConnectionRevelation : Adds s.out s.enterConnectionRevelation.out := by
  refine ((Adds.refl _).emit ?_).emit ?_ <;> trivial

theorem adds_enterConvergence : Adds s.out s.enterConvergence.out := (Adds.refl _).emit trivial

theorem adds_enterConsensusRevelation : Adds s.out s.enterConsensusRevelation.out := by
  refine (((Adds.refl _).emit ?_).emit ?_).emit ?_ <;> trivial

theorem adds_enterConsensusSynchronization :
    Adds s.out s.enterConsensusSynchronization.out := (Adds.refl _).emit trivial

theorem adds_enterDiscovery : Adds s.out s.enterDiscovery.out := (Adds.refl _).emit trivial

theorem adds_slotMessage (value : AnnouncementValue R) (n : Neighbour R) :
    Adds s.out (s.slotMessage value n).out := by
  have hnote : (s.noteRole n.addr).out = s.out := by
    rw [noteRole]
    split <;> split <;> rfl
  rw [slotMessage]
  generalize s.noteRole n.addr = t at hnote ⊢
  rw [← hnote]
  split
  · split <;> exact Adds.refl _
  · split
    · rw [assignSlot]
      split
      · split
        · exact (Adds.refl _).emit trivial
        · exact Adds.refl _
      · exact Adds.refl _
    · split
      · exact Adds.refl _
      · exact (Adds.refl _).emit trivial
    · exact Adds.refl _

end

end

section
omit [SoftDouble R]

theorem out_forwardAll (s : Node R) (value : AnnouncementValue R) : (s.forwardAll value).out = s.out := rfl

theorem out_setSyncBorder (s : Node R) (x : UInt8) : (s.setSyncBorder x).out = s.out := rfl

theorem out_politeCancel (s : Node R) : s.politeCancel.out = s.out ++ [.politeCancel] := rfl

theorem out_enterByzantineConsensus (s : Node R) : s.enterByzantineConsensus.out = s.out := rfl

end

theorem adds_byzantineMessage (s : Node R) (value : AnnouncementValue R) (n : Neighbour R)
    (threshold : Nat) : Adds s.out (s.byzantineMessage value n threshold).out := by
  rw [byzantineMessage]
  split
  · split
    · have htrusted := adds_trustedSynchronization { s with msgCount := s.msgCount + 1 } n
        value.refAddr value.consRate
      dsimp only
      split
      · rw [out_setSyncBorder, out_politeCancel, out_setSyncBorder, out_forwardAll]
        exact htrusted.emit trivial
      · rw [out_enterByzantineConsensus, out_setSyncBorder, out_forwardAll]
        exact htrusted
    · rw [out_setSyncBorder, out_forwardAll]
      exact s.adds_trustedSynchronization n value.refAddr value.consRate
  · exact Adds.refl _

theorem adds_slotSynchronization (s : Node R) (value : AnnouncementValue R) (n : Neighbour R) :
    Adds s.out (s.slotSynchronization value n).out := by
  have htrusted := s.adds_trustedSynchronization n value.refAddr value.consRate
  have hforward := adds_trustedSynchronization (s.forwardDate value) n value.refAddr value.consRate
  rw [slotSynchronization]
  split
  · rw [bridgeSynchronization]
    split
    · split
      · exact htrusted
      · exact Adds.refl _
    · split
      · split
        · exact Adds.refl _
        · exact (Adds.refl _).emit trivial
      · exact Adds.refl _
  · dsimp only
    split
    · exact hforward.emit trivial
    · exact hforward
  · split
    · exact hforward
    · exact Adds.refl _

section
variable {status : RtimerStatus} {value : AnnouncementValue R}
variable {s : Node R}

section
variable (n : Neighbour R)
include n

theorem answers_joinRevelation (h : Answers .discovery status .revelation value s.out) :
    Answers .discovery status .revelation value (s.joinRevelation value n).out := by
  rw [joinRevelation]
  split
  next hinstr =>
    have hcancel : Answers .discovery status .revelation value s.politeCancel.out := h.append trivial
    dsimp only
    split
    · exact answers_joinAt hcancel (.inr ⟨rfl, rfl, .inl hinstr⟩) adds_enterElectionRevelation
    · exact hcancel
  · split
    next hinstr =>
      exact answers_joinAt (s := { s with cl := { s.cl with role := .cm } }) h (.inr ⟨rfl, rfl, .inr hinstr⟩)
        fun t => t.adds_leaveDiscovery.trans t.leaveDiscovery.adds_enterConnectionRevelation
    · split
      next hinstr =>
        refine answers_joinAt (s := { s with cl := { s.cl with role := .cm } }) h (.inl (if_pos hinstr)) fun t => ?_
        refine t.adds_leaveDiscovery.trans (Adds.trans ?_ (adds_enterConsensusRevelation _))
        split <;> exact Adds.refl _
      · exact h

theorem answers_revelationMessage (h : Answers s.myState status .revelation value s.out) :
    Answers s.myState status .revelation value (s.revelationMessage value n).out := by
  rw [revelationMessage]
  split
  next hst =>
    rw [hst] at h ⊢
    exact answers_joinRevelation n h
  · split
    · exact h.append trivial
    · exact h
  · split <;> exact h
  · split
    next hinstr =>
      have hcancel : Answers s.myState status .revelation value s.politeCancel.out := h.append trivial
      refine answers_joinAt hcancel (.inl (if_pos hinstr)) fun t => ?_
      refine Adds.trans ?_ (adds_enterConsensusRevelation _)
      split <;> exact Adds.refl _
    · exact h
  · split <;> exact h
  · exact h

theorem answers_declarationMessage (h : Answers s.myState status .declaration value s.out) :
    Answers s.myState status .declaration value (s.declarationMessage value n).out := by
  have hcancel : Answers s.myState status .declaration value s.politeCancel.out := h.append trivial
  rw [declarationMessage]
  split
  · have hleave : Answers s.myState status .declaration value
        { s with cl := { s.cl with role := .cm } }.leaveDiscovery.out :=
      h.adds (adds_leaveDiscovery { s with cl := { s.cl with role := .cm } })
    rw [joinDeclaration]
    split
    · exact hleave
    · split
      next hinstr =>
        have hcancel' : Answers s.myState status .declaration value
            { s with cl := { s.cl with role := .cm } }.leaveDiscovery.politeCancel.out :=
          hleave.append trivial
        refine answers_ifScheduledAt hcancel' (.inl (if_pos hinstr)) (fun t ht => ht.adds ?_) fun t ht => ht
        exact adds_enterElectionDeclaration (((t.handleLists value n).2).setRt0State .singlepass)
      · exact hleave
  · split
    next hinstr => exact answers_joinAt hcancel (.inl (if_pos hinstr)) adds_enterElectionDeclaration
    · exact h
  · split
    · split
      · rw [electHead]
        split
        · exact hcancel
        · exact hcancel.append trivial
      · exact h
    · split
      next hne hinstr =>
        have hcall : dateCall .declaration value.instr = some .enterConvergence := by
          rw [dateCall, if_neg hne, if_pos hinstr]
        exact answers_joinAt hcancel (.inl hcall) fun t =>
          adds_enterConnectionRevelation { t with cl := { t.cl with chs := [] } }
      · exact h
  · split <;> exact h
  · exact h

theorem answers_convergenceMessage (h : Answers s.myState status .convergence value s.out) :
    Answers s.myState status .convergence value (s.convergenceMessage value n).out := by
  have hcancel : Answers s.myState status .convergence value s.politeCancel.out := h.append trivial
  rw [convergenceMessage]
  split
  · split
    · exact answers_joinAt hcancel (.inl rfl) fun t =>
        adds_enterConvergence (t.resignHead value n)
    · exact h
  · split
    · exact h.adds (s.adds_slotMessage value n)
    · exact h
  · split
    · exact answers_joinAt (s := s.politeCancel.setSyncBorder 0) hcancel (.inl rfl) fun t =>
        adds_enterDiscovery ({ t with refNChbDegree := numConsSlots + 3 }.resignHead value n)
    · exact h
  · exact h

end

theorem answers_synchronizationMessage (threshold : Nat) (n : Neighbour R)
    (h : Answers s.myState status .synchronization value s.out) :
    Answers s.myState status .synchronization value (s.synchronizationMessage value threshold n).out := by
  have hcancel : Answers s.myState status .synchronization value s.politeCancel.out := h.append trivial
  rw [synchronizationMessage]
  split
  · have hleave : Answers s.myState status .synchronization value
        { s with cl := { s.cl with role := .cm } }.leaveDiscovery.out :=
      h.adds (adds_leaveDiscovery { s with cl := { s.cl with role := .cm } })
    refine answers_joinAt hleave (.inl rfl) fun t => ?_
    rw [linkSynchronization]
    split
    · dsimp only
      exact adds_trustedSynchronization { t with
        cl := linkMemb value t.cl, myConsSlot := value.degree } n value.refAddr value.consRate
    · exact Adds.refl _
  · split
    · refine answers_joinAt hcancel (.inl rfl) fun t => ?_
      refine Adds.trans ?_ (adds_enterConsensusSynchronization _)
      split <;> exact Adds.refl _
    · exact h
  · split
    · split
      · exact h
      · exact h.adds (s.adds_slotSynchronization value n)
    · split
      · split
        · exact h
        · exact h.adds (s.adds_byzantineMessage value n threshold)
      · exact h
  · exact h

/-- A discovery message: the date of the election is written with its callback, unless the timer was
    in single pass. -/
theorem answers_startElection (hstatus : s.tm.rt0.state = status) (h : Answers .discovery status .discovery value
    s.out) : Answers .discovery status .discovery value (s.startElection value).out := by
  have hdate : ∀ tm : RtimerState R, (tm.rt0.func = some .enterElectionRevelation ∨
      s.tm.rt0.state = .singlepass ∧ tm.rt0.func = s.tm.rt0.func) → ∀ v,
      Answer .discovery status .discovery value (.armedDate .discovery v tm.rt0) :=
    fun tm hfunc v => ⟨rfl, rfl, hfunc.imp_right fun hsp => hstatus.symm.trans hsp.1⟩
  rw [startElection]
  split
  · refine ifScheduled_out (P := fun t : Node R => Answers _ _ _ value t.out)
      (fun tm _ _ hfunc => ?_) fun tm _ _ => ?_
    · refine Answers.append (Answers.append h ?_) (hdate tm hfunc _)
      trivial
    · exact h.append trivial
  · split
    next hinstr =>
      split
      · refine ifScheduled_out (P := fun t : Node R => Answers _ _ _ value t.out)
          (fun tm _ _ hfunc => ?_) fun tm _ _ => ?_
        · refine Answers.append (Answers.append h ?_) (hdate tm hfunc _)
          exact .inl (if_pos hinstr)
        · exact h.append (.inl (if_pos hinstr))
      · exact h
    · exact h

end

variable {s : Node R}

omit [SoftDouble R] in
theorem out_of_received {t : Node R} (h : s.Received t) : t.out = s.out := by
  obtain ⟨nb, tm, an, -, -, rfl⟩ := h
  rfl

omit [SoftDouble R] in
theorem myState_of_received {t : Node R} (h : s.Received t) : t.myState = s.myState := by
  obtain ⟨nb, tm, an, -, -, rfl⟩ := h
  rfl

theorem answers_whenSynced {status : RtimerStatus} {id : AnnId} {value : AnnouncementValue R} {rx : Reception R}
    {handle : Node R → Neighbour R → Node R} (h : Answers s.myState status id value s.out)
    (hhandle :
      ∀ (t : Node R) n, Answers t.myState status id value t.out → Answers t.myState status id value (handle t n).out) :
    Answers s.myState status id value (s.whenSynced value rx handle).out := by
  refine whenSynced_rule (P := fun t : Node R => Answers _ _ _ value t.out) ?_ ?_
  · intro t ht
    rw [out_of_received ht]
    exact h
  · intro t n _ ht
    rw [← myState_of_received ht]
    refine hhandle t n ?_
    rw [out_of_received ht, myState_of_received ht]
    exact h

/-- HANDLERS: what a handler arms and what dates it writes. -/
theorem heard_answers (s : Node R) (id : AnnId) (value : AnnouncementValue R) (rx : Reception R)
    (h : s.out = []) : Answers s.myState s.tm.rt0.state id value (s.heard id value rx).out := by
  have hnil : ∀ i, Answers s.myState s.tm.rt0.state i value s.out := fun i o ho => by
    rw [h] at ho
    cases ho
  cases id with
  | discovery =>
    refine whenReceived_rule (P := fun t : Node R => Answers _ _ _ value t.out) ?_ ?_
    · intro t ht
      rw [out_of_received ht]
      exact hnil _
    · intro t n ht
      have hmsg : ∀ u : Node R, u.out = s.out → u.myState = s.myState →
          u.tm.rt0.state = s.tm.rt0.state → Answers s.myState s.tm.rt0.state .discovery value
            (if u.myState = .discovery then u.checkSynced.startElection value else u).out := by
        intro u hout hst htm
        have hsynced : u.checkSynced.out = u.out ∧ u.checkSynced.tm = u.tm := by
          rw [checkSynced]
          split <;> exact ⟨rfl, rfl⟩
        split
        next hdisc =>
          rw [← hst, hdisc]
          refine answers_startElection (by rw [hsynced.2]; exact htm) ?_
          rw [hsynced.1, hout, ← hdisc, hst]
          exact hnil _
        · rw [hout]
          exact hnil _
      obtain ⟨nb, tm, an, harm, -, rfl⟩ := ht
      dsimp only
      split
      · exact hmsg _ rfl rfl harm.state_eq
      · exact hmsg _ rfl rfl harm.state_eq
  | revelation => exact answers_whenSynced (hnil _) fun t n => answers_revelationMessage n
  | declaration => exact answers_whenSynced (hnil _) fun t n => answers_declarationMessage n
  | convergence => exact answers_whenSynced (hnil _) fun t n => answers_convergenceMessage n
  | synchronization =>
    change Answers _ _ _ value (s.receivedSynchronizationAnnouncement value rx).out
    rw [receivedSynchronizationAnnouncement]
    split
    · exact hnil _
    · exact answers_whenSynced (hnil _) fun t n => answers_synchronizationMessage _ n

end Node

end CSync
