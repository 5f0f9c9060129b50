import CSync.Node.Lists
import CSync.Node.Skeleton

/-! The node refines its skeleton: every handler and the phase loop is a sequence of moves, and a move with a defect
    is made only in the steps that `reaches` describes, in terms of the state before the step and the message. -/

namespace CSync

open Lib List

namespace Node

variable {R : Type} [SoftDouble R]

/-- The call of `rtimer_schedule` for the announced date succeeds. -/
def accepts (s : Node R) (value : AnnouncementValue R) (func : Callback) : Prop :=
  (rtimerSchedule s.tm .rtimer0 .date value.dateCoarse value.dateFine func).1 = true

/-- The handler goes on with the message, and its call of `rtimer_schedule` succeeds. -/
def joinsAt (s : Node R) (value : AnnouncementValue R) (rx : Reception R) (func : Callback) : Prop :=
  ∃ t n, s.hears value rx = some (t, n) ∧ t.accepts value func

/-- The tests under which a bridge blacklists the sender of a synchronization message. -/
def accuses (s : Node R) (n : Neighbour R) : Prop :=
  (s.thisSyncSlot < s.myConsSlot ∧
      ¬ (n.fineDiff < byzantineFineDiff ∧ n.coarseDiff < byzantineCoarseDiff)) ∨
    (s.myConsSlot = s.thisSyncSlot ∧
      (byzantineFineDiff < n.fineDiff ∨ byzantineCoarseDiff < n.coarseDiff))

/-- The defects that the handler of a message reaches. -/
def reaches (s : Node R) (id : AnnId) (value : AnnouncementValue R) (rx : Reception R) :
    Defect → Prop
  | .link => s.myState = .discovery ∧
      (id = .revelation ∧ value.instr = St.consensusRevelation.code ∧ s.cl.chs = [] ∧
          s.joinsAt value rx .enterConsensusSynchronization ∨
        id = .synchronization ∧ value.refAddr ≠ s.myAddr ∧ s.cl.chs ≠ [] ∧
          s.joinsAt value rx .enterIdle)
  | .forget => id = .declaration ∧ s.myState = .electionDeclaration ∧
      value.instr = St.connectionDeclaration.code ∧ s.cl.chs ≠ [] ∧
      s.joinsAt value rx .enterConvergence
  | .resign => id = .convergence ∧
      (s.myState = .connectionDeclaration ∨ s.myState = .consensusSynchronization) ∧
      value.instr = St.consensusConvergence.code ∧ s.cl.role = .ch ∧ s.cl.cbs ≠ [] ∧
      s.joinsAt value rx .enterConsensusRevelation
  | .blacklist => id = .synchronization ∧ s.myState = .consensusSynchronization ∧
      value.instr = St.consensusSynchronization.code ∧ value.refAddr ≠ s.myAddr ∧
      s.cl.role = .cb ∧ s.cl.blMemb.freeBlock = none ∧
      ∃ t n, s.hears value rx = some (t, n) ∧ s.cl.blacklisted n.addr = false ∧ t.accuses n
  | .assign => id = .convergence ∧ s.pc = .phase ∧ s.myState = .consensusConvergence ∧
      s.cl.role = .cb ∧
      (value.instr = St.consensusConvergence.code ∨ value.instr = convergenceProactive) ∧
      s.mySlotAck = 0 ∧ s.myConsSlot = value.degree ∧
      ∃ t n, s.hears value rx = some (t, n) ∧ ∃ ch ∈ s.cl.heads, ch.addr = n.addr ∧ ch.consSlot = 0
  | .bridge => False
  | .pass => s.myState = .discovery ∧ s.tm.rt0.state = .singlepass ∧
      (id = .revelation ∧ value.instr = St.electionRevelation.code ∨
        id = .declaration ∧ value.instr = St.electionDeclaration.code) ∧
      s.joinsAt value rx .enterConnectionRevelation
  | .headless =>
      (s.myState = .discovery ∧ s.cl.chs = [] ∧ (∃ t n, s.hears value rx = some (t, n)) ∧
        (id = .revelation ∧ (value.instr = St.connectionRevelation.code ∨
            value.instr = St.consensusRevelation.code) ∨
          id = .declaration ∨ id = .synchronization ∧ value.refAddr ≠ s.myAddr)) ∨
      (id = .declaration ∧ s.myState = .electionDeclaration ∧
        value.instr = St.connectionDeclaration.code ∧ s.cl.chs ≠ [] ∧ s.cl.role = .cm ∧
        s.joinsAt value rx .enterConvergence) ∨
      (id = .convergence ∧
        (s.myState = .connectionDeclaration ∨ s.myState = .consensusSynchronization) ∧
        value.instr = St.consensusConvergence.code ∧ s.cl.role = .ch ∧ s.cl.chs = [] ∧
        s.joinsAt value rx .enterConsensusRevelation)

/-! ### Calls of `rtimer_schedule` -/

variable {D : Defect → Prop} {s t : Node R}

omit [SoftDouble R] in
/-- Arming the timer for a phase to join, putting it in single pass, and entering the phase. -/
theorem accepted_moves {func : Callback} (h : s.Accepted func t) (st : St)
    (hj : (func, st) ∈ joins s.myState) (cl : Cluster)
    (hpass : s.tm.rt0.state = .singlepass → s.myState = .discovery →
      st = .electionRevelation ∨ st = .electionDeclaration → D .pass) :
    Moves D { s.core with cl := cl } { (t.setRt0State .singlepass).core with st := st, cl := cl } := by
  obtain ⟨tm, out, rfl, -, hfunc⟩ := h
  change Moves D _ ⟨st, cl, tm.rt0.func, .singlepass, s.pc, s.myAddr⟩
  rcases hfunc with hf | ⟨hsp, hf⟩
  · rw [hf]
    exact .one (.join hj)
  · rw [hf, ← hsp]
    exact .one (.pass hj hsp (hpass hsp))

omit [SoftDouble R] in
theorem refused_moves {func : Callback} (h : s.Refused func t)
    (hf : func ∈ arms s.myState ++ (joins s.myState).map Prod.fst) : Moves D s.core t.core := by
  obtain ⟨tm, out, rfl, hst, hfunc⟩ := h
  change Moves D s.core ⟨s.myState, s.cl, tm.rt0.func, tm.rt0.state, s.pc, s.myAddr⟩
  rw [hst]
  rcases hfunc with ⟨hsp, hfunc⟩ | hfunc
  · rw [hfunc]
    exact .one (.refuse hf hsp)
  · rw [hfunc]
    exact .refl

theorem mem_joins {st st' : St} {f : Callback × St} (h : st = st') (hf : f ∈ joins st') : f ∈ joins st := h ▸ hf

variable {value : AnnouncementValue R} {enter : Node R → Node R}

/-- A handler that joins a phase: the lists change before or behind the entry. -/
theorem joinAt_moves {s : Node R} {func : Callback} (st : St)
    (hj : (func, st) ∈ joins s.myState)
    (hpass : s.accepts value func → s.tm.rt0.state = .singlepass → s.myState = .discovery →
      st = .electionRevelation ∨ st = .electionDeclaration → D .pass)
    (henter : ∀ tm out, s.accepts value func →
        ∃ cl,
          Moves D s.core { s.core with cl := cl } ∧
          Moves D ⟨st, cl, tm.rt0.func, .singlepass, s.pc, s.myAddr⟩
            (enter ({ s with tm := tm, out := out }.setRt0State .singlepass)).core) :
    Moves D s.core (s.joinAt value func enter).core := by
  refine ifScheduled_rule (P := fun t : Node R => Moves D s.core t.core) ?_ ?_
  · intro t hacc ht
    have hjoin := fun cl => accepted_moves (D := D) ht st hj cl (hpass hacc)
    obtain ⟨tm, out, rfl, -, -⟩ := ht
    obtain ⟨cl, hbefore, hbehind⟩ := henter tm out hacc
    exact (hbefore.trans (hjoin cl)).trans hbehind
  · intro t ht
    exact refused_moves ht (mem_append_right _ (mem_map_of_mem hj))

theorem joinAt_enter {s : Node R} {func : Callback} (st : St)
    (hj : (func, st) ∈ joins s.myState)
    (hpass : s.accepts value func → s.tm.rt0.state = .singlepass → s.myState = .discovery →
      st = .electionRevelation ∨ st = .electionDeclaration → D .pass)
    (henter : ∀ tm out,
        (enter ({ s with tm := tm, out := out }.setRt0State .singlepass)).core =
          ⟨st, s.cl, tm.rt0.func, .singlepass, s.pc, s.myAddr⟩) : Moves D s.core (s.joinAt value func enter).core :=
  joinAt_moves st hj hpass fun tm out _ => ⟨s.cl, .refl, by rw [henter]⟩

/-- The discovery handler and the phase loop: behind either end of the call, the timer has made a move. -/
theorem ifScheduled_armed (D : Defect → Prop) {P : Node R → Prop} {s : Node R}
    {type : ScheduleType} {x y : UInt32} {func : Callback} {yes no : Node R → Node R} (ha : func ∈ arms s.myState)
    (hyes : ∀ tm out, Moves D s.core { s with tm := tm, out := out }.core → P (yes { s with tm := tm, out := out }))
    (hno : ∀ tm out, Moves D s.core { s with tm := tm, out := out }.core → P (no { s with tm := tm, out := out })) :
    P (s.ifScheduled type x y func yes no) := by
  refine ifScheduled_rule ?_ ?_
  · rintro _ - ⟨tm, out, rfl, hst, hfunc⟩
    refine hyes tm out ?_
    change Moves D s.core ⟨s.myState, s.cl, tm.rt0.func, tm.rt0.state, s.pc, s.myAddr⟩
    rw [hst]
    rcases hfunc with hf | ⟨hsp, hf⟩
    · rw [hf]
      exact .one (.arm ha)
    · rw [hf]
      exact .one (.wake (ne_nil_of_mem ha) hsp)
  · intro t ht
    have hmoves := refused_moves (D := D) ht (mem_append_left _ ha)
    obtain ⟨tm, out, rfl, -, -⟩ := ht
    exact hno tm out hmoves

/-! ### The handlers -/

omit [SoftDouble R] in
theorem core_of_received (h : s.Received t) : t.core = s.core := by
  obtain ⟨nb, tm, an, harm, -, rfl⟩ := h
  change Core.mk _ _ tm.rt0.func tm.rt0.state _ _ = _
  rw [harm.func_eq, harm.state_eq]
  rfl

omit [SoftDouble R] in
theorem core_of_aligned (h : s.Aligned t) : t.core = s.core := by
  obtain ⟨nb, tm, rate, out, harm, rfl⟩ := h
  change Core.mk _ _ tm.rt0.func tm.rt0.state _ _ = _
  rw [harm.func_eq, harm.state_eq]
  rfl

section

variable (s : Node R) (value : AnnouncementValue R) (n : Neighbour R)

theorem startElection_moves (hst : s.myState = .discovery) : Moves D s.core (s.startElection value).core := by
  have harm : .enterElectionRevelation ∈ arms s.myState := by simp [hst, arms]
  have hcall := @ifScheduled_armed R _ D (fun t => Moves D s.core t.core) s
  rw [startElection]
  split
  · exact hcall harm (fun tm out h => h) fun tm out h => h
  · split
    · split
      · exact hcall harm (fun tm out h => h) fun tm out h => h.tail (.drop hst)
      · exact .refl
    · exact .refl

theorem receivedDiscoveryAnnouncement_moves
    (rx : Reception R) : Moves D s.core (s.receivedDiscoveryAnnouncement value rx).core := by
  refine whenReceived_rule (P := fun t : Node R => Moves D s.core t.core) ?_ ?_
  · intro t ht
    rw [core_of_received ht]
  · intro t n ht
    rw [← core_of_received ht]
    have hsynced : ∀ u : Node R, u.checkSynced.core = u.core := fun u => by
      rw [checkSynced]; split <;> rfl
    have hmsg : ∀ u : Node R, u.core = t.core → Moves D t.core
        (if u.myState = .discovery then u.checkSynced.startElection value else u).core := by
      intro u hu
      split
      next hst =>
        rw [← hu, ← hsynced u]
        exact startElection_moves _ value ((congrArg Core.st (hsynced u)).trans hst)
      · rw [hu]
    cases hn : n.synced with
    | true => exact hmsg { t with syncedCounter := t.syncedCounter + 1 } rfl
    | false => exact hmsg t rfl

theorem joinRevelation_moves (hst : s.myState = .discovery)
    (hlink :
      value.instr = St.consensusRevelation.code → s.cl.chs = [] → s.accepts value .enterConsensusSynchronization →
        D .link)
    (hpass : value.instr = St.electionRevelation.code → s.tm.rt0.state = .singlepass →
      s.accepts value .enterConnectionRevelation → D .pass)
    (hhead : value.instr = St.connectionRevelation.code ∨ value.instr = St.consensusRevelation.code → s.cl.chs = [] →
        D .headless) : Moves D s.core (s.joinRevelation value n).core := by
  have hcm : value.instr = St.connectionRevelation.code ∨ value.instr = St.consensusRevelation.code →
      Moves D s.core { s with cl := { s.cl with role := .cm } }.core :=
    fun hinstr => .one (.commoner hst (hhead hinstr))
  rw [joinRevelation]
  split
  next hinstr =>
    dsimp only
    split
    · exact joinAt_enter (s := s.politeCancel) .electionRevelation
        (mem_joins hst (by decide)) (fun hacc hsp _ _ => hpass hinstr hsp hacc) fun _ _ => rfl
    · exact .refl
  · split
    next hinstr =>
      exact (hcm (.inl hinstr)).trans (joinAt_enter .connectionRevelation
        (mem_joins hst (by decide)) nofun fun _ _ => rfl)
    · split
      next hinstr =>
        refine (hcm (.inr hinstr)).trans (joinAt_moves .consensusRevelation
          (mem_joins hst (by decide)) nofun
          fun tm out hacc => ⟨_, .refl, ?_⟩)
        dsimp only
        split
        · exact .one (.slot (show Role.cm ≠ Role.cb by decide) rfl)
        next hlen =>
          have hnil : s.cl.chs = [] := eq_nil_of_length_eq_zero (by
            simpa [leaveDiscovery, broadcastStop, emit, mapAnn, politeInit, setRt0State] using hlen)
          exact .one (.link (hlink hinstr hnil hacc))
      · exact .refl

omit [SoftDouble R] in
theorem handleLists_moves (hrole : s.myState = .consensusConvergence → s.cl.role = .ch) :
    Moves D s.core (s.handleLists value n).2.core := .one (.lists hrole)

omit [SoftDouble R] in
theorem handleLists_slot_moves (hrole : s.cl.role = .ch) (hst : arms s.myState = []) (addr : UInt16) (slot : UInt8) :
    Moves D s.core { s.core with cl := setConsSlot addr slot (s.handleLists value n).2.cl } := by
  have hcb : (s.handleLists value n).2.cl.role ≠ .cb := by
    intro h
    rcases handleLists_role s.cl s.myState s.myAddr s.nb.myDegree value n with h' | h'
    · exact absurd ((h'.trans hrole).symm.trans h) (by decide)
    · exact absurd (h'.symm.trans h) (by decide)
  exact (handleLists_moves s value n fun _ => hrole).tail (.slot hcb hst)

theorem cutConvergence_moves (hst : s.myState =
    .consensusConvergence) : Moves D s.core (s.cutConvergence value n).core := by
  have hnone : arms s.myState = [] := by rw [hst]; rfl
  refine joinAt_moves (s := s.politeCancel) .consensusRevelation
    (mem_joins hst (by decide)) nofun fun tm out _ => ?_
  split
  next hch => exact ⟨_, handleLists_slot_moves s value n hch.1 hnone n.addr value.degree, .refl⟩
  · exact ⟨s.cl, .refl, .refl⟩

theorem revelationMessage_moves
    (hlink : s.myState = .discovery → value.instr = St.consensusRevelation.code → s.cl.chs = [] →
      s.accepts value .enterConsensusSynchronization → D .link)
    (hpass : s.myState = .discovery → value.instr = St.electionRevelation.code →
      s.tm.rt0.state = .singlepass → s.accepts value .enterConnectionRevelation → D .pass)
    (hhead : s.myState = .discovery → value.instr = St.connectionRevelation.code ∨
      value.instr = St.consensusRevelation.code → s.cl.chs = [] → D .headless) :
    Moves D s.core (s.revelationMessage value n).core := by
  rw [revelationMessage]
  split
  next hst => exact joinRevelation_moves s value n hst (hlink hst) (hpass hst) (hhead hst)
  · split <;> exact .refl
  next hst =>
    split
    · exact handleLists_moves s value n fun h => absurd (hst.symm.trans h) (by decide)
    · exact .refl
  next hst =>
    split
    · exact cutConvergence_moves s value n hst
    · exact .refl
  next hst =>
    split
    next h => exact .one (.slot (by simp [core, h.2]) (by simp [core, hst, arms]))
    · exact .refl
  · exact .refl

omit [SoftDouble R] in
theorem handleLists_discovery (hst : s.myState = .discovery) : (s.handleLists value n).2 = s := by
  have hcl : (CSync.handleLists s.cl s.myState s.myAddr s.nb.myDegree value n).2 = s.cl := by
    rw [hst]
    rfl
  change { s with cl := (CSync.handleLists s.cl s.myState s.myAddr s.nb.myDegree value n).2 } = s
  rw [hcl]

theorem joinDeclaration_moves (hst : s.myState = .discovery)
    (hpass : value.instr = St.electionDeclaration.code → s.tm.rt0.state = .singlepass →
      s.accepts value .enterConnectionRevelation → D .pass) (hhead : s.cl.chs = [] → D .headless) :
    Moves D s.core (s.joinDeclaration value n).core := by
  have hcm : Moves D s.core { s with cl := { s.cl with role := .cm } }.core := .one (.commoner hst hhead)
  rw [joinDeclaration]
  split
  · exact hcm.tail (.declare hst rfl)
  · split
    next hinstr =>
      refine hcm.trans ?_
      refine ifScheduled_rule (P := fun t : Node R => Moves D _ t.core) ?_ ?_
      · intro t hacc ht
        have hjoin := accepted_moves (D := D) ht .electionDeclaration
          (mem_joins hst (by decide)) { s.cl with role := .cm }
          fun hsp _ _ => hpass hinstr hsp hacc
        have hdisc : t.myState = .discovery := by
          obtain ⟨tm, out, rfl, -, -⟩ := ht
          exact hst
        rw [handleLists_discovery t value n hdisc]
        obtain ⟨tm, out, rfl, -, -⟩ := ht
        exact hjoin
      · intro t ht
        have hrefuse := refused_moves (D := D) ht (mem_append_right _
          (mem_map_of_mem (mem_joins (f := (_, .electionDeclaration)) hst (by decide))))
        exact hrefuse
    · exact hcm

theorem declarationMessage_moves
    (hforget : s.myState = .electionDeclaration → value.instr = St.connectionDeclaration.code →
      s.accepts value .enterConvergence → s.cl.chs ≠ [] → D .forget)
    (hpass : s.myState = .discovery → value.instr = St.electionDeclaration.code → s.tm.rt0.state = .singlepass →
      s.accepts value .enterConnectionRevelation → D .pass)
    (hhead : s.myState = .discovery → s.cl.chs = [] → D .headless)
    (hempty : s.myState = .electionDeclaration → value.instr = St.connectionDeclaration.code →
      s.accepts value .enterConvergence → s.cl.chs ≠ [] → s.cl.role = .cm → D .headless) :
    Moves D s.core (s.declarationMessage value n).core := by
  rw [declarationMessage]
  split
  next hst => exact joinDeclaration_moves s value n hst (hpass hst) (hhead hst)
  next hst =>
    split
    · exact joinAt_enter (s := s.politeCancel) .electionDeclaration
        (mem_joins hst (by decide)) (fun _ _ h _ => absurd (hst.symm.trans h) (by decide))
        fun _ _ => rfl
    · exact .refl
  next hst =>
    split
    · split
      · rw [electHead]
        have hl := handleLists_moves (D := D) s.politeCancel value n fun h => absurd (hst.symm.trans h) (by decide)
        split <;> exact hl
      · exact .refl
    · split
      next hinstr =>
        refine joinAt_moves (s := s.politeCancel) .connectionRevelation
          (mem_joins hst (by decide)) nofun fun tm out hacc => ?_
        exact ⟨_, .one (.forget hst (hforget hst hinstr hacc) (hempty hst hinstr hacc)), .refl⟩
      · exact .refl
  next hst =>
    split
    · exact handleLists_moves s value n fun h => absurd (hst.symm.trans h) (by decide)
    · exact .refl
  · exact .refl

omit [SoftDouble R] in
theorem resignHead_moves (hst : s.myState = .connectionDeclaration ∨ s.myState = .consensusSynchronization)
    (hresign : s.cl.role = .ch → s.cl.cbs ≠ [] → D .resign)
    (hhead : s.cl.role = .ch → s.cl.chs = [] → D .headless) :
    Moves D s.core (s.resignHead value n).core := by
  have hconv : s.myState ≠ .consensusConvergence := by
    rcases hst with hst | hst <;> rw [hst] <;> decide
  by_cases hch : s.cl.role = .ch
  · have hlists : Moves D { s with cl := { s.cl with role := .cm, cbs := [] } }.core _ :=
      handleLists_moves { s with cl := { s.cl with role := .cm, cbs := [] } } value n fun h => absurd h hconv
    have hcore : (s.resignHead value n).core =
        ({ s with cl := { s.cl with role := .cm, cbs := [] } }.handleLists value n).2.core := by
      rw [resignHead, if_pos hch]
      rfl
    rw [hcore]
    exact Relation.ReflTransGen.trans (.single (.resign hst hch (hresign hch) (hhead hch))) hlists
  · have hsame : s.resignHead value n = s := by rw [resignHead, if_neg hch]
    rw [hsame]

omit [SoftDouble R] in
theorem assignSlot_moves (addr : UInt16)
    (hst : s.myState = .consensusConvergence)
    (hassign : s.pc = .phase → s.mySlotAck = 0 → s.myConsSlot = value.degree →
      (∃ ch ∈ s.cl.heads, ch.addr = addr ∧ ch.consSlot = 0) → D .assign) :
    Moves D s.core (s.assignSlot value addr).core := by
  rw [assignSlot]
  split
  next i hfind =>
    split
    next hack =>
      have hi := find?_some hfind
      simp only [Bool.and_eq_true, beq_iff_eq] at hi
      refine .one (.assign hst fun hpc => hassign hpc hack hi.2 ?_)
      exact ⟨_, mem_map_of_mem (mem_of_find?_eq_some hfind), hi.1.1, hi.1.2⟩
    · exact .refl
  · exact .refl

omit [SoftDouble R] in
theorem slotMessage_moves (hst : s.myState = .consensusConvergence)
    (hassign : s.pc = .phase → s.cl.role = .cb → s.mySlotAck = 0 → s.myConsSlot = value.degree →
      (∃ ch ∈ s.cl.heads, ch.addr = n.addr ∧ ch.consSlot = 0) → D .assign) :
    Moves D s.core (s.slotMessage value n).core := by
  have hnote : ∃ nb, s.noteRole n.addr = { s with nb := nb } := by
    rw [noteRole]
    split <;> split <;> exact ⟨_, rfl⟩
  obtain ⟨nb, hnote⟩ := hnote
  rw [slotMessage, hnote]
  split
  · split
    next h => exact handleLists_moves { s with nb := nb } value n fun _ => h.1
    · exact .refl
  · split
    next hcb => exact assignSlot_moves { s with nb := nb } value n.addr hst fun hpc => hassign hpc hcb
    next hch =>
      split
      · exact .refl
      · refine .one (.slot (fun h => ?_) (by rw [core, hst]; rfl))
        exact absurd (hch.symm.trans h) (by decide)
    · exact .refl

theorem convergenceMessage_moves
    (hresign : s.myState = .connectionDeclaration ∨ s.myState = .consensusSynchronization →
      value.instr = St.consensusConvergence.code → s.accepts value .enterConsensusRevelation → s.cl.role = .ch →
      s.cl.cbs ≠ [] → D .resign)
    (hhead : s.myState = .connectionDeclaration ∨ s.myState = .consensusSynchronization →
      value.instr = St.consensusConvergence.code → s.accepts value .enterConsensusRevelation → s.cl.role = .ch →
      s.cl.chs = [] → D .headless)
    (hassign : s.pc = .phase → s.myState = .consensusConvergence → s.cl.role = .cb →
      (value.instr = St.consensusConvergence.code ∨ value.instr = convergenceProactive) → s.mySlotAck = 0 →
      s.myConsSlot = value.degree → (∃ ch ∈ s.cl.heads, ch.addr = n.addr ∧ ch.consSlot = 0) → D .assign) :
    Moves D s.core (s.convergenceMessage value n).core := by
  rw [convergenceMessage]
  split
  next hst =>
    split
    next hinstr =>
      refine joinAt_moves (s := s.politeCancel) .consensusConvergence
        (mem_joins hst (by decide)) nofun fun tm out hacc => ?_
      have hmoves := resignHead_moves s value n (.inl hst)
        (hresign (.inl hst) hinstr hacc) (hhead (.inl hst) hinstr hacc)
      exact ⟨(s.resignHead value n).cl, hmoves, .refl⟩
    · exact .refl
  next hst =>
    split
    next hinstr => exact slotMessage_moves s value n hst fun hpc hcb => hassign hpc hst hcb hinstr
    · exact .refl
  next hst =>
    split
    next hinstr =>
      refine joinAt_moves (s := s.politeCancel.setSyncBorder 0) .consensusSynchronization
        (mem_joins hst (by decide)) nofun fun tm out hacc => ?_
      have hmoves := resignHead_moves s value n (.inr hst)
        (hresign (.inr hst) hinstr hacc) (hhead (.inr hst) hinstr hacc)
      refine ⟨(s.resignHead value n).cl, hmoves, ?_⟩
      rw [← hst]
      exact .refl
    · exact .refl
  · exact .refl

theorem core_trustedSynchronization (cAddr : UInt16) (consRate : R) :
    (s.csyncTrustedSynchronization n cAddr consRate).core = s.core :=
  core_of_aligned (s.csyncTrustedSynchronization_spec n cAddr consRate)

section
omit [SoftDouble R]

theorem core_forwardDate : (s.forwardDate value).core = s.core := rfl

theorem core_forwardAll : (s.forwardAll value).core = s.core := rfl

theorem core_setSyncBorder (x : UInt8) : (s.setSyncBorder x).core = s.core := rfl

theorem core_bump (id : AnnId) : (s.bump id).core = s.core := rfl

theorem core_politeCancel : s.politeCancel.core = s.core := rfl

theorem core_enterByzantineConsensus : s.enterByzantineConsensus.core = s.core := rfl

end

theorem linkSynchronization_moves (hlink : s.cl.chs ≠ []
    → D .link) : Moves D s.core (s.linkSynchronization value n).core := by
  rw [linkSynchronization]
  split
  next hlen =>
    rw [core_forwardAll, core_setSyncBorder, core_trustedSynchronization]
    exact .one (.link (hlink (ne_nil_of_length_pos hlen)))
  · exact .refl

theorem joinSynchronization_moves
    (hst : s.myState = .discovery) (hlink : s.cl.chs ≠ [] → s.accepts value .enterIdle → D .link)
    (hhead : s.cl.chs = [] → D .headless) : Moves D s.core (s.joinSynchronization value n).core := by
  have hcm : Moves D s.core { s with cl := { s.cl with role := .cm } }.leaveDiscovery.core :=
    .one (.commoner hst hhead)
  refine hcm.trans (joinAt_moves .discovery (mem_joins hst (by decide))
    nofun fun tm out hacc => ⟨_, .refl, ?_⟩)
  rw [← hst]
  exact linkSynchronization_moves (setRt0State { leaveDiscovery { s with
    cl := { s.cl with role := .cm } } with tm := tm, out := out } .singlepass) value n
    fun hne => hlink hne hacc

theorem cutRevelation_moves (hst : s.myState =
    .consensusRevelation) : Moves D s.core (s.cutRevelation value n).core := by
  have hnone : arms s.myState = [] := by rw [hst]; rfl
  refine joinAt_moves (s := s.politeCancel) .consensusSynchronization
    (mem_joins hst (by decide)) nofun fun tm out _ => ?_
  split
  next hch => exact ⟨_, handleLists_slot_moves s value n hch.1 hnone n.addr value.degree, .refl⟩
  · exact ⟨s.cl, .refl, .refl⟩

theorem bridgeSynchronization_moves
    (hst : s.myState = .consensusSynchronization) (hfull : s.accuses n → s.cl.blMemb.freeBlock = none → D .blacklist) :
    Moves D s.core (s.bridgeSynchronization value n).core := by
  have haccuse : s.accuses n → Moves D s.core (s.accuse n).core := fun h =>
    .one (.blacklist hst (hfull h))
  rw [bridgeSynchronization]
  split
  next hslot =>
    split
    · rw [core_forwardAll, core_setSyncBorder, core_trustedSynchronization]
    next hdiff => exact haccuse (.inl ⟨hslot, hdiff⟩)
  · split
    next hslot =>
      split
      next hdiff => exact haccuse (.inr ⟨hslot, hdiff⟩)
      · exact .refl
    · exact .refl

theorem core_byzantineMessage (threshold : Nat) : (s.byzantineMessage value n threshold).core = s.core := by
  rw [byzantineMessage]
  split
  · split
    · dsimp only
      split
      · rw [core_setSyncBorder, core_politeCancel, core_setSyncBorder, core_forwardAll, core_trustedSynchronization]
        rfl
      · rw [core_enterByzantineConsensus, core_setSyncBorder, core_forwardAll, core_trustedSynchronization]
        rfl
    · rw [core_setSyncBorder, core_forwardAll, core_trustedSynchronization]
  · rfl

theorem slotSynchronization_moves (hst : s.myState = .consensusSynchronization)
    (hfull : s.cl.role = .cb → s.accuses n → s.cl.blMemb.freeBlock = none → D .blacklist) :
    Moves D s.core (s.slotSynchronization value n).core := by
  rw [slotSynchronization]
  split
  next hcb => exact bridgeSynchronization_moves s value n hst (hfull hcb)
  · dsimp only
    split
    · rw [core_setSyncBorder, core_bump, core_trustedSynchronization, core_forwardDate]
    · rw [core_trustedSynchronization, core_forwardDate]
  · split
    · rw [core_trustedSynchronization, core_forwardDate]
    · exact .refl

theorem synchronizationMessage_moves (threshold : Nat) (n : Neighbour R)
    (hlink : s.myState = .discovery → s.cl.chs ≠ [] → s.accepts value .enterIdle → D .link)
    (hfull : s.myState = .consensusSynchronization → value.instr = St.consensusSynchronization.code →
      s.cl.blacklisted n.addr = false → s.cl.role = .cb → s.accuses n → s.cl.blMemb.freeBlock = none → D .blacklist)
    (hhead : s.myState = .discovery → s.cl.chs = [] → D .headless) :
    Moves D s.core (s.synchronizationMessage value threshold n).core := by
  rw [synchronizationMessage]
  split
  next hst => exact joinSynchronization_moves s value n hst (hlink hst) (hhead hst)
  next hst =>
    split
    · exact cutRevelation_moves s value n hst
    · exact .refl
  next hst =>
    split
    next hinstr =>
      split
      · exact .refl
      next hbl => exact slotSynchronization_moves s value n hst (hfull hst hinstr (by simpa using hbl))
    · split
      · split
        · exact .refl
        · rw [core_byzantineMessage]
      · exact .refl
  · exact .refl

end

variable {s : Node R}

/-- The handlers that go on with a synchronised sender. -/
theorem whenSynced_moves {rx : Reception R} {handle : Node R → Neighbour R → Node R}
    (h : ∀ t n, s.hears value rx = some (t, n) → s.Received t → Moves D t.core (handle t n).core) :
    Moves D s.core (s.whenSynced value rx handle).core := by
  refine whenSynced_rule (P := fun t : Node R => Moves D s.core t.core) ?_ ?_
  · intro t ht
    rw [core_of_received ht]
  · intro t n hears ht
    rw [← core_of_received ht]
    exact h t n hears ht

/-- HANDLERS: what a handler does to the skeleton is a sequence of moves, with the defects that the
    message reaches. -/
theorem heard_moves (s : Node R) (id : AnnId) (value : AnnouncementValue R) (rx : Reception R) :
    Moves (s.reaches id value rx) s.core (s.heard id value rx).core := by
  cases id with
  | discovery => exact receivedDiscoveryAnnouncement_moves s value rx
  | revelation =>
    refine whenSynced_moves fun t n hears ht => revelationMessage_moves t value n ?_ ?_ ?_
    · intro hst hinstr hnil hacc
      obtain ⟨nb, tm, an, -, -, rfl⟩ := ht
      exact ⟨hst, .inl ⟨rfl, hinstr, hnil, _, n, hears, hacc⟩⟩
    · intro hst hinstr hsp hacc
      obtain ⟨nb, tm, an, harm, -, rfl⟩ := ht
      exact ⟨hst, harm.state_eq.symm.trans hsp, .inl ⟨rfl, hinstr⟩, _, n, hears, hacc⟩
    · intro hst hinstr hnil
      obtain ⟨nb, tm, an, -, -, rfl⟩ := ht
      exact .inl ⟨hst, hnil, ⟨_, n, hears⟩, .inl ⟨rfl, hinstr⟩⟩
  | declaration =>
    refine whenSynced_moves fun t n hears ht => declarationMessage_moves t value n ?_ ?_ ?_ ?_
    · intro hst hinstr hacc hne
      obtain ⟨nb, tm, an, -, -, rfl⟩ := ht
      exact ⟨rfl, hst, hinstr, hne, _, n, hears, hacc⟩
    · intro hst hinstr hsp hacc
      obtain ⟨nb, tm, an, harm, -, rfl⟩ := ht
      exact ⟨hst, harm.state_eq.symm.trans hsp, .inr ⟨rfl, hinstr⟩, _, n, hears, hacc⟩
    · intro hst hnil
      obtain ⟨nb, tm, an, -, -, rfl⟩ := ht
      exact .inl ⟨hst, hnil, ⟨_, n, hears⟩, .inr (.inl rfl)⟩
    · intro hst hinstr hacc hne hcm
      obtain ⟨nb, tm, an, -, -, rfl⟩ := ht
      exact .inr (.inl ⟨rfl, hst, hinstr, hne, hcm, _, n, hears, hacc⟩)
  | convergence =>
    refine whenSynced_moves fun t n hears ht => convergenceMessage_moves t value n ?_ ?_ ?_
    · intro hst hinstr hacc hch hne
      obtain ⟨nb, tm, an, -, -, rfl⟩ := ht
      exact ⟨rfl, hst, hinstr, hch, hne, _, n, hears, hacc⟩
    · intro hst hinstr hacc hch hnil
      obtain ⟨nb, tm, an, -, -, rfl⟩ := ht
      exact .inr (.inr ⟨rfl, hst, hinstr, hch, hnil, _, n, hears, hacc⟩)
    · intro hpc hst hcb hinstr hack hslot hhead
      obtain ⟨nb, tm, an, -, -, rfl⟩ := ht
      exact ⟨rfl, hpc, hst, hcb, hinstr, hack, hslot, _, n, hears, hhead⟩
  | synchronization =>
    change Moves _ s.core (s.receivedSynchronizationAnnouncement value rx).core
    rw [receivedSynchronizationAnnouncement]
    split
    · exact .refl
    next hown =>
      refine whenSynced_moves fun t n hears ht => ?_
      have hstrong : ¬ rx.rssi < rssiThreshold := fun h => by
        rw [Node.hears, if_pos h] at hears
        cases hears
      refine synchronizationMessage_moves t value _ n ?_ ?_ ?_
      · intro hst hne hacc
        obtain ⟨nb, tm, an, -, -, rfl⟩ := ht
        exact ⟨hst, .inr ⟨rfl, fun h => hown ⟨hstrong, h⟩, hne, _, n, hears, hacc⟩⟩
      · intro hst hinstr hbl hcb haccuse hfull
        obtain ⟨nb, tm, an, -, -, rfl⟩ := ht
        exact ⟨rfl, hst, hinstr, fun h => hown ⟨hstrong, h⟩, hcb, hfull, _, n, hears, hbl, haccuse⟩
      · intro hst hnil
        obtain ⟨nb, tm, an, -, -, rfl⟩ := ht
        exact .inl ⟨hst, hnil, ⟨_, n, hears⟩, .inr (.inr ⟨rfl, fun h => hown ⟨hstrong, h⟩⟩)⟩

/-! ### The timer -/

section

omit [SoftDouble R]

/-- The phase a callback enters. The slot callbacks enter one behind the last slot only, and
    `enter_discovery` none. -/
def entered (s : Node R) : Callback → St
  | .enterElectionRevelation => .electionRevelation
  | .enterElectionDeclaration => .electionDeclaration
  | .enterConnectionRevelation => .connectionRevelation
  | .enterConnectionDeclaration => .connectionDeclaration
  | .enterConvergence => .consensusConvergence
  | .enterConvergenceSlot =>
      if s.myConsSlot < numConsSlots then s.myState else .consensusRevelation
  | .enterConsensusRevelation => .consensusRevelation
  | .enterConsensusSynchronization => .consensusSynchronization
  | .enterSynchronizationSlot => if s.refNChbDegree ≤ numConsSlots then s.myState else .idle
  | .enterIdle => .idle
  | .enterDiscovery => s.myState

theorem core_enterConsensusRevelation (s : Node R) :
    s.enterConsensusRevelation.core = { s.core with st := .consensusRevelation } := rfl

theorem core_enterIdle (s : Node R) : s.enterIdle.core = { s.core with st := .idle } := rfl

theorem core_call (s : Node R) (f : Callback) : (s.call f).core = { s.core with st := s.entered f } := by
  have hslot : ∀ (p : Prop) [Decidable p] (a b : Node R) (x y : St),
      a.core = { s.core with st := x } → b.core = { s.core with st := y } →
      (if p then a else b).core = { s.core with st := if p then x else y } := by
    intro p _ a b x y ha hb
    split
    · exact ha
    · exact hb
  cases f
  case enterConvergenceSlot =>
    exact hslot (s.myConsSlot < numConsSlots) { s.politeCancel with convergenceComplete := 1 }.processPoll
      s.politeCancel.enterConsensusRevelation _ _ rfl (core_enterConsensusRevelation s.politeCancel)
  case enterSynchronizationSlot =>
    exact hslot (s.refNChbDegree ≤ numConsSlots) s.politeCancel.processPoll s.politeCancel.enterIdle _ _ rfl
      (core_enterIdle s.politeCancel)
  all_goals rfl

theorem core_setRt0State (s : Node R) (x : RtimerStatus) : (s.setRt0State x).core = { s.core with status := x } := rfl

/-- TIMER: the phase of the callback is entered and the timer is inactive. -/
theorem core_fire (s : Node R) : s.fire.core = { s.core with
      st := (s.tm.rt0.func.map s.entered).getD s.myState, status := .inactive } := by
  rw [fire]
  rw [core_setRt0State]
  have hfunc : ({ s.setRt0State .justExpired with
      tm := rtimerLfUpdate (s.setRt0State .justExpired).tm } : Node R).tm.rt0.func = s.tm.rt0.func := rfl
  rw [hfunc]
  cases s.tm.rt0.func with
  | none => rfl
  | some f =>
    rw [core_call]
    rfl

end

/-! ### The phase loop -/

/-- The moves of the phase loop from `s` to `t`; if the loop has made a bridge of a commoner in the
    election, that defect has to be possible. -/
def Swept (D : Defect → Prop) (s t : Node R) : Prop :=
  (t.cl.role = .cb → s.cl.role = .cm →
    s.myState = .electionRevelation ∨ s.myState = .electionDeclaration → D .bridge) →
  Moves D s.core t.core

omit [SoftDouble R] in
theorem Swept.refl (s : Node R) : Swept D s s := fun _ => .refl

omit [SoftDouble R] in
theorem Swept.tail {s t u : Node R} (h : Swept D s t) (hmoves : Moves D t.core u.core)
    (hrole : u.cl.role = t.cl.role) : Swept D s u := fun hb =>
  (h fun ht => hb (hrole.trans ht)).trans hmoves

variable {s t : Node R}

theorem Swept.caseConnectionDeclaration (h : Swept D s t)
    (ha : .enterConvergence ∈ arms t.myState) : Swept D s t.caseConnectionDeclaration := by
  refine ifScheduled_armed D (P := Swept D s) ha (fun tm out hm => ?_) fun tm out hm => ?_
  · have hcall := h.tail hm rfl
    split <;> exact hcall
  · exact h.tail hm rfl

theorem core_keptDeclaration (hsp : s.tm.rt0.state = .singlepass) :
    s.caseConnectionDeclaration.core = { s.core with status := .scheduled } := by
  have hcall : s.schedule .intervalRef 0 regularSlotInterval .enterConvergence =
      (true, (s.setRt0State .scheduled).emit
        (.schedule .intervalRef 0 regularSlotInterval .enterConvergence s.tm.rt0 true)) := by
    rw [schedule, rtimerSchedule, if_neg (by decide), if_pos (by exact hsp)]
    rfl
  rw [Node.caseConnectionDeclaration, ifScheduled, hcall]
  rw [if_pos rfl]
  split <;> rfl

theorem core_becomeBridge (s : Node R) : s.becomeBridge.core = { s.core with cl := { s.cl with role := .cb } } := by
  rw [becomeBridge]
  split <;> rfl

theorem Swept.caseConnectionRevelation (h : Swept D s t) (hst : t.myState = s.myState) (hrole : t.cl.role = s.cl.role)
    (hmem : s.myState ∈ [St.electionRevelation, .electionDeclaration, .connectionRevelation]) :
    Swept D s t.caseConnectionRevelation := by
  have harms : .enterConnectionDeclaration ∈ arms t.myState ∧ .enterConvergence ∈ arms t.myState := by
    rw [hst]
    revert hmem
    cases s.myState <;> decide
  have hswitch : Swept D s (t.ifScheduled .intervalRef 0 regularSlotInterval .enterConnectionDeclaration
      (fun s => if 1 < s.cl.chs.length ∧ s.cl.role = .cm then s.becomeBridge else s) id) ∧
      (t.ifScheduled .intervalRef 0 regularSlotInterval .enterConnectionDeclaration
        (fun s => if 1 < s.cl.chs.length ∧ s.cl.role = .cm then s.becomeBridge else s)
        id).myState = t.myState := by
    refine ifScheduled_armed D (P := fun u => Swept D s u ∧ u.myState = t.myState) harms.1
      (fun tm out hm => ?_) fun tm out hm => ⟨h.tail hm rfl, rfl⟩
    have hcall := h.tail hm rfl
    split
    next hcm =>
      refine ⟨fun hb => ?_, congrArg Core.st (core_becomeBridge _)⟩
      have hcb : (becomeBridge { t with tm := tm, out := out }).cl.role = .cb :=
        congrArg (fun c : Core => c.cl.role) (core_becomeBridge _)
      have hd := hb hcb (hrole.symm.trans hcm.2)
      rw [core_becomeBridge]
      refine (hcall fun h' => absurd (hcm.2.symm.trans h') (by decide)).tail ?_
      have hmem' : t.myState ∈ [St.electionRevelation, .electionDeclaration, .connectionRevelation] := hst ▸ hmem
      exact .bridge hcm.2 hcm.1 (fun h' : t.myState = _ ∨ t.myState = _ => hd (hst ▸ h')) hmem'
    · exact ⟨hcall, rfl⟩
  rw [Node.caseConnectionRevelation]
  generalize t.ifScheduled .intervalRef 0 regularSlotInterval .enterConnectionDeclaration
    (fun s => if 1 < s.cl.chs.length ∧ s.cl.role = .cm then s.becomeBridge else s) id = u
    at hswitch ⊢
  obtain ⟨hu, hust⟩ := hswitch
  split
  next hfunc =>
    have hconv : .enterConvergence ∈ arms u.myState := hust ▸ harms.2
    have hkept := core_keptDeclaration (s := u.setRt0State .singlepass) rfl
    refine hu.tail ?_ (congrArg (fun c : Core => c.cl.role) hkept)
    rw [hkept]
    exact .one (.keep (ne_nil_of_mem hconv) hfunc)
  · exact hu

theorem Swept.caseElectionDeclaration (h : Swept D s t) (hst : t.myState = s.myState) (hrole : t.cl.role = s.cl.role)
    (hmem : s.myState ∈ [St.electionRevelation, .electionDeclaration]) : Swept D s t.caseElectionDeclaration := by
  have harm : .enterConnectionRevelation ∈ arms t.myState := by
    rw [hst]
    revert hmem
    cases s.myState <;> decide
  refine ifScheduled_armed D (P := Swept D s) harm (fun tm out hm => h.tail hm rfl) fun tm out hm => ?_
  refine (h.tail hm rfl).caseConnectionRevelation hst hrole ?_
  simp only [mem_cons, not_mem_nil, or_false] at hmem ⊢
  tauto

theorem Swept.caseElectionRevelation (hst : s.myState = .electionRevelation) :
    Swept D s s.caseElectionRevelation := by
  have harm : .enterElectionDeclaration ∈ arms s.myState := by rw [hst]; decide
  refine ifScheduled_armed D (P := Swept D s) harm (fun tm out hm => (Swept.refl s).tail hm rfl) fun tm out hm => ?_
  refine ((Swept.refl s).tail hm rfl).caseElectionDeclaration rfl rfl ?_
  rw [hst]
  decide

/-- PHASE LOOP: what it does to the skeleton is a sequence of moves. -/
theorem phaseSwitch_swept (s : Node R) : Swept D s s.phaseSwitch := by
  rw [phaseSwitch]
  split
  next hst => exact Swept.caseElectionRevelation hst
  next hst => exact (Swept.refl s).caseElectionDeclaration rfl rfl (by rw [hst]; decide)
  next hst => exact (Swept.refl s).caseConnectionRevelation rfl rfl (by rw [hst]; decide)
  next hst => exact (Swept.refl s).caseConnectionDeclaration (by rw [hst]; decide)
  · exact Swept.refl s

end Node

end CSync
