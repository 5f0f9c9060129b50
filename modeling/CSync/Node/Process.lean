import CSync.Node.Handlers

/-! The process thread `c_gtsp_process` and the node as a transition system.

    The thread runs from one `PROCESS_YIELD` to the next; `pc` is the yield it waits at. The code between two yields
    is a chain of functions: each loop is a recursion whose fuel is the number of iterations its counter leaves, and
    what follows a loop is called from its exits. A node takes one of four steps: a handler runs, the timer `RTIMER_0`
    fires, the process is polled, the coarse clock overflows. -/

namespace CSync

open Lib

namespace Node

variable {R : Type} [SoftDouble R]

/-- `REGULAR_SLOT_INTERVAL`, and `CONS_CTRL_SLOT_INTERVAL * k`, truncated to an integer. -/
def regularSlotInterval : UInt32 := 157286
def slotInterval (k : Nat) : UInt32 := UInt32.ofNat (k * 1572864 / 10)

def idleSlotInterval : UInt32 := 1572864

/-- The date `RTIMER_0` is armed for, with the rate `TRUE`. -/
def setArmedDate (s : Node R) (a : Announcement R) : Announcement R :=
  (a.setDate s.tm.rt0.timeCoarseLg s.tm.rt0.timeFineLg).setConsRate (SoftDouble.ofNat 1)

/-- Fill an announcement with the phase, a degree and the armed date. -/
def announce (s : Node R) (id : AnnId) (degree : UInt8) : Node R :=
  (s.mapAnn id fun a => s.setArmedDate ((a.setInstr s.myState.code).setDegree degree)).noteDate id

/-- `announcement_add_value` and `announcement_bump`. -/
def addAndBump (s : Node R) (id : AnnId) : Node R := (s.mapAnn id (·.addValue)).bump id

/-! ### The phase loop -/

def caseConnectionDeclaration (s : Node R) : Node R :=
  s.ifScheduled .intervalRef 0 regularSlotInterval .enterConvergence
    (fun s => match s.cl.role with
      | .ch => s.radio true
      | .cb => ((s.announce .declaration s.refNChbDegree).mapAnn .declaration
          (·.setRefAddr s.refNChbAddr)).addAndBump .declaration
      | .cm => s) id

/-- A commoner with two or more heads becomes a bridge and announces the sums over the first two. -/
def becomeBridge (s : Node R) : Node R :=
  let s := s.radio true
  let s := { s with cl := { s.cl with role := .cb } }
  let s := { s with myPlacing := s.myPlacing - csyncChbPlacing s.cl s.myAddr s.nb.myDegree }
  let s := (s.politeSetInterval (4 * s.myPlacing.toUInt32)).announce .revelation s.nb.myDegree
  let s := match s.cl.heads with
    | h₁ :: h₂ :: _ =>
        { s with refNChbAddr := h₁.addr + h₂.addr, refNChbDegree := h₁.degree + h₂.degree }
    | _ => s
  (s.mapAnn .revelation (·.setRefAddr s.refNChbAddr)).addAndBump .revelation

/-- A callback armed for the convergence is kept through the connection declaration. -/
def caseConnectionRevelation (s : Node R) : Node R :=
  let s := s.ifScheduled .intervalRef 0 regularSlotInterval .enterConnectionDeclaration
    (fun s => if 1 < s.cl.chs.length ∧ s.cl.role = .cm then s.becomeBridge else s) id
  if s.tm.rt0.func = some .enterConvergence then
    (s.setRt0State .singlepass).caseConnectionDeclaration
  else s

def caseElectionDeclaration (s : Node R) : Node R :=
  s.ifScheduled .intervalRef 0 regularSlotInterval .enterConnectionRevelation
    (fun s => ((s.announce .declaration s.nb.myDegree).mapAnn .declaration
      (·.setRefAddr s.myAddr)).addAndBump .declaration)
    caseConnectionRevelation

def caseElectionRevelation (s : Node R) : Node R :=
  s.ifScheduled .intervalRef 0 regularSlotInterval .enterElectionDeclaration
    (fun s => (((s.politeInit 0).announce .revelation s.nb.myDegree).mapAnn .revelation
      (·.setRefAddr s.myAddr)).addAndBump .revelation)
    caseElectionDeclaration

/-- The `switch` of the phase loop: a failed schedule falls through to the next phase. -/
def phaseSwitch (s : Node R) : Node R :=
  match s.myState with
  | .electionRevelation => s.caseElectionRevelation
  | .electionDeclaration => s.caseElectionDeclaration
  | .connectionRevelation => s.caseConnectionRevelation
  | .connectionDeclaration => s.caseConnectionDeclaration
  | _ => s

def resetCGtsp (s : Node R) (myAddr : UInt16) : Node R :=
  { s with
    nb := {
      memb := Pool.init ⟨0, 0, .cm, 0, false, false, SoftDouble.ofNat 0, 0, 0, 0, 0, 0, 0⟩
      modList := []
      list := []
      myDegree := if checkModNeighbours myAddr myAddr then 1 else 0 }
    cl := {
      role := .ch
      chsMemb := Pool.init ⟨0, 0, 0, 0, 0⟩
      chs := []
      cbsMemb := Pool.init ⟨0, 0, 0, 0, 0⟩
      cbs := []
      blMemb := Pool.init 0
      blacklist := []
      chsForeign := false }
    tm := { s.tm with coarseScheduleRef := 0, fineScheduleRef := 0, rt0 := .zero, rt1 := .zero }
    refNChbDegree := 0
    refNChbAddr := 0
    syncedCounter := 0
    myAddr := myAddr
    myState := .discovery
    myPlacing := 0
    softResetCount := 0 }

/-- The announcements after registration; only the discovery announcement has a value. -/
def registered : Announcements R :=
  let one : R := SoftDouble.ofNat 1
  ⟨(Announcement.register 0 one).addValue, Announcement.register 1 one,
    Announcement.register 2 one, Announcement.register 3 one, Announcement.register 4 one⟩

/-- `soft_reset`. The neighbour table, the cluster lists and the role survive it. -/
def softReset (s : Node R) : Node R :=
  let s := { s with
    an := registered
    myState := .discovery
    tm := { s.tm with coarseScheduleRef := 0, fineScheduleRef := 0, rt0 := .zero, rt1 := .zero }
    syncedCounter := 0
    myProactiveSlot := 1
    myConsSlot := 1
    myConsRate := SoftDouble.ofNat 1
    mySlotAck := 0
    thisSyncSlot := 1
    mySyncBorder := 0
    consCtrlCounter := 0
    msgCount := 0
    softResetCount := s.softResetCount + 1 }
  (s.radio true).emit .broadcastInit

/-- The end of a round: reset and wait in the phase loop. -/
def restart (s : Node R) : Node R := { s.softReset with pc := .phase }

/-- What `csync_print_status` does besides printing: in `CONSENSUS_SYNCHRONIZATION` a head takes the last head whose slot
    is not before its own for the local centre. -/
def printStatus (s : Node R) : Node R :=
  { s with syncLcAddr := if s.myState = .consensusSynchronization ∧ s.cl.role = .ch then
      s.cl.heads.foldl (fun addr ch => if s.myConsSlot ≤ ch.consSlot then ch.addr else addr) s.syncLcAddr
    else s.syncLcAddr }

/-! ### Synchronization slots -/

/-- The loop of `init_consensus_synchronization` for the earliest slot: the reference address and
    degree, and the border flag. -/
def earliestSlot (acc : UInt16 × UInt8 × UInt8) (ch : Chb) : UInt16 × UInt8 × UInt8 :=
  if ch.consSlot < acc.2.1 then (ch.addr, ch.consSlot, 0)
  else if numConsSlots < ch.consSlot then (acc.1, acc.2.1, 0)
  else acc

def initConsensusSynchronization (s : Node R) : Node R :=
  let s := { s with myConsSlot := numConsSlots + 1 - s.myConsSlot, cl := mirrorSlots s.cl }
  let acc := s.cl.heads.foldl earliestSlot
    (s.myAddr, if s.cl.role = .ch then s.myConsSlot else numConsSlots,
      if s.cl.role = .ch then 1 else s.mySyncBorder)
  let s := { s with refNChbAddr := acc.1, refNChbDegree := acc.2.1, mySyncBorder := acc.2.2 }
  if s.cl.role = .cb then
    { s with myConsSlot := s.cl.heads.foldl (fun slot ch =>
        if ch.addr ≠ s.refNChbAddr then ch.consSlot else slot) s.myConsSlot }
  else s

/-- Past the synchronization slots: wait for the idle phase, unless the round was cut short. -/
def syncSlotsDone (next : Node R → Node R) (s : Node R) : Node R :=
  if s.refNChbDegree ≤ numConsSlots + 2 then { s with pc := .idleWait } else next s

/-- The interval to the end of the slot `ref_n_CHB_degree - 1`, which is −1 for a degree of 0. -/
def syncSlotInterval (s : Node R) : UInt32 :=
  if s.refNChbDegree = 0 then s.env.negInterval else slotInterval (s.refNChbDegree.toNat - 1)

def syncSlotLoop (next : Node R → Node R) : Nat → Node R → Node R
  | 0, s => s.syncSlotsDone next
  | k + 1, s =>
      if s.refNChbDegree ≤ numConsSlots + 1 then
        s.ifScheduled .intervalRef 0 s.syncSlotInterval .enterSynchronizationSlot
          (fun s =>
            if s.refNChbDegree ≤ numConsSlots then { s with pc := .syncSlot }
            else syncSlotLoop next k { s with refNChbDegree := s.refNChbDegree + 1 })
          (fun s =>
            syncSlotLoop next k ({ s with refNChbDegree := s.refNChbDegree + 1 }.radio true))
      else s.syncSlotsDone next

/-- The slot loop from the current slot on; it has at most `7 - ref_n_CHB_degree` iterations. -/
def syncSlots (next : Node R → Node R) (s : Node R) : Node R :=
  syncSlotLoop next (7 - s.refNChbDegree.toNat) s

/-- The head of an iteration of the control loop: later iterations repeat the slots of the first. -/
def beginIteration (s : Node R) : Node R :=
  if 0 < s.consCtrlCounter then
    let s := { s with myState := .consensusSynchronization }
    let s := if s.cl.role ≠ .cm then s.radio true else s
    { s with
      myProactiveSlot := s.savedProactiveSlot
      myConsSlot := s.savedConsSlot
      mySlotAck := s.savedSlotAck
      thisSyncSlot := 1
      mySyncBorder := s.savedSyncBorder
      cl := mirrorSlots s.cl }.politeInit s.myPlacing.toUInt32
  else
    { s with
      savedProactiveSlot := s.myProactiveSlot
      savedConsSlot := s.myConsSlot
      savedSlotAck := s.mySlotAck
      savedSyncBorder := s.mySyncBorder }

/-- The announcement of an iteration. -/
def announceSynchronization (s : Node R) : Node R :=
  let s := s.initConsensusSynchronization.printStatus
  let s := match s.cl.role with
    | .ch => s.politeSetInterval 0
    | .cb => s.politeSetInterval (4 * s.myPlacing.toUInt32)
    | .cm => s
  ((s.announce .synchronization s.myConsSlot).mapAnn .synchronization
    fun a => (a.setRefAddr s.myAddr).addValue).radio false

/-- The control loop, up to a yield; past it the round is over. -/
def syncLoop : Nat → Node R → Node R
  | 0, s => s.restart
  | k + 1, s =>
      if s.consCtrlCounter < numConsCtrlIterations then
        let next := fun s : Node R =>
          syncLoop k { s with consCtrlCounter := s.consCtrlCounter + 1 }
        s.beginIteration.ifScheduled .intervalRef 0 (slotInterval 5) .enterIdle
          (fun s => s.announceSynchronization.syncSlots next) next
      else s.restart

/-- The control loop from the current iteration on; it has at most `3 - cons_ctrl_counter` iterations. -/
def synchronization (s : Node R) : Node R := syncLoop (3 - s.consCtrlCounter.toNat) s

/-- `cons_ctrl_counter++` at the end of an iteration. -/
def endIteration (s : Node R) : Node R :=
  { s with consCtrlCounter := s.consCtrlCounter + 1 }.synchronization

/-! ### Convergence slots -/

/-- Past the convergence slots: wait for the consensus revelation, unless the slots are used up. -/
def afterConvergence (s : Node R) : Node R :=
  if s.myConsSlot ≤ numConsSlots then { s with pc := .revWait } else s.synchronization

/-- What a bridge and a head do in a slot; `nCh` heads have no slot yet. -/
def convergenceActions (s : Node R) (nCh : Nat) : Node R :=
  match s.cl.role with
  | .cb => { s with mySlotAck := 0 }
  | .ch =>
      if s.mySlotAck = 0 ∧ (nCh ≤ 1 ∨ s.myConsSlot = s.myProactiveSlot) then
        let s := if 1 < nCh then
            (s.mapAnn .convergence (·.setInstr convergenceProactive)).politeSetInterval
              (4 * s.myPlacing.toUInt32 + 12)
          else s
        (s.mapAnn .convergence (·.setDegree s.myConsSlot)).bump .convergence
      else s
  | .cm => s

/-- The convergence slot loop, up to its yield. -/
def convLoop : Nat → Node R → Node R
  | 0, s => s.afterConvergence
  | k + 1, s =>
      if s.myConsSlot ≤ numConsSlots then
        if s.cl.role = .ch ∧ s.cl.chs.length = 0 then (s.radio false).afterConvergence
        else
          let nCh := s.cl.heads.countP fun ch => ch.consSlot == 0
          s.ifScheduled .intervalRef 0 (slotInterval s.myConsSlot.toNat) .enterConvergenceSlot
            (fun s =>
              let s := s.convergenceActions nCh
              if s.myConsSlot < numConsSlots then { s with pc := .convSlot }
              else s.afterConvergence)
            (fun s => convLoop k { s with myConsSlot := s.myConsSlot + 1 })
      else s.afterConvergence

def convergenceSlots (s : Node R) : Node R := convLoop (6 - s.myConsSlot.toNat) s

/-- Resume in a convergence slot. A bridge has its slots when the product over its heads is not zero. -/
def resumeConvSlot (s : Node R) : Node R :=
  let s := if s.cl.role = .cb then
      { s with mySlotAck := s.cl.heads.foldl (fun ack ch => ack * ch.consSlot) s.mySlotAck }
    else s
  if s.mySlotAck ≠ 0 then
    (s.radio false).ifScheduled .intervalRef 0 (slotInterval 5) .enterConsensusRevelation
      afterConvergence
      (fun s => { s with myConsSlot := s.myConsSlot + 1 }.convergenceSlots)
  else { s with myConsSlot := s.myConsSlot + 1 }.convergenceSlots

/-- `init_consensus_convergence`; when it runs out of blocks it leaves the slot and the announcement as they are. -/
def initConsensusConvergence (s : Node R) : Node R :=
  match CSync.initConsensusConvergence s.cl with
  | (true, cl) =>
      { s with cl := cl, myProactiveSlot := proactiveSlot cl.chs.length }.mapAnn .convergence
        (·.setInstr s.myState.code)
  | (false, cl) => { s with cl := cl }

/-- The branch for a repeated convergence, guarded by `cons_ctrl_counter > 0`. -/
def repeatConvergence (s : Node R) : Node R :=
  if 0 < s.consCtrlCounter then
    let s := { s with myState := .consensusConvergence }
    let s := if s.cl.role ≠ .cm then s.radio true else s
    { s with
      myProactiveSlot := 1
      myConsSlot := 1
      mySlotAck := 0
      thisSyncSlot := 1
      mySyncBorder := 0
      cl := mapChs (fun ch => { ch with consSlot := 0 }) s.cl }.politeInit s.myPlacing.toUInt32
  else s

/-- What the roles prepare before the slot loop. -/
def prepareConvergence (s : Node R) : Node R :=
  let s := (s.printStatus.mapAnn .convergence fun a => (s.setArmedDate a).addValue).noteDate .convergence
  match s.cl.role with
  | .ch =>
      let s := s.initConsensusConvergence
      let s := { s with myPlacing := csyncChbPlacing s.cl s.myAddr s.nb.myDegree }
      s.politeSetInterval (4 * s.myPlacing.toUInt32)
  | .cb => s.politeSetInterval 0
  | .cm => s

/-- The convergence part of the thread, up to its first yield. -/
def startConvergence (s : Node R) : Node R :=
  s.repeatConvergence.ifScheduled .intervalRef 0 (slotInterval 5) .enterConsensusRevelation
    (fun s =>
      let s := s.prepareConvergence
      if s.cl.role ≠ .cm then s.convergenceSlots else s.afterConvergence)
    afterConvergence

/-! ### The thread -/

def resumePhase (s : Node R) : Node R :=
  if s.myState.code < St.consensusConvergence.code then { s.phaseSwitch with pc := .phase }
  else s.startConvergence

/-- Resume at the consensus revelation. -/
def resumeRevWait (s : Node R) : Node R :=
  s.ifScheduled .intervalRef 0 regularSlotInterval .enterConsensusSynchronization
    (fun s =>
      let s := s.printStatus
      { (if s.cl.role = .ch then (s.announce .revelation s.myConsSlot).addAndBump .revelation
          else s) with pc := .revYield })
    synchronization

/-- Resume in a synchronization slot: a border node whose slot it is passes the rate on. -/
def resumeSyncSlot (s : Node R) : Node R :=
  let s := { s.radio true with thisSyncSlot := s.refNChbDegree }
  let s := if s.mySyncBorder ≠ 0 ∧ s.thisSyncSlot = s.myConsSlot then
      { (s.mapAnn .synchronization fun a =>
          (a.setDegree s.myConsSlot).setConsRate s.myConsRate).bump .synchronization with
        mySyncBorder := 0 }
    else s
  { s with refNChbDegree := s.refNChbDegree + 1 }.syncSlots endIteration

/-- Resume for the idle phase: broadcast until the date of the next iteration. -/
def resumeIdleWait (s : Node R) : Node R :=
  let a := s.an.synchronization.value
  s.ifScheduled .date a.dateCoarse (a.dateFine + idleSlotInterval) .enterDiscovery
    (fun s =>
      let s := ((s.printStatus.radio true).announce .discovery s.consCtrlCounter).mapAnn .discovery
        fun a => (a.setRefAddr s.myAddr).addValue
      { s.emit .broadcastInit with pc := .idleYield })
    endIteration

/-- Run the thread from the yield it waits at. -/
def resume (s : Node R) : Node R :=
  match s.pc with
  | .phase => s.resumePhase
  | .convSlot => s.resumeConvSlot
  | .revWait => s.resumeRevWait
  | .revYield => s.synchronization
  | .syncSlot => s.resumeSyncSlot
  | .idleWait => s.resumeIdleWait
  | .idleYield => (s.broadcastStop.mapAnn .discovery (·.removeValue)).endIteration

/-- `RTIMER0_HF_CALLBACK`: the timer expires and its callback runs. -/
def fire (s : Node R) : Node R :=
  let s := s.setRt0State .justExpired
  let s := { s with tm := rtimerLfUpdate s.tm }
  (match s.tm.rt0.func with
    | some func => s.call func
    | none => s).setRt0State .inactive

/-- The callback registered for an announcement. -/
def heard (s : Node R) (id : AnnId) (value : AnnouncementValue R) (rx : Reception R) : Node R :=
  match id with
  | .discovery => s.receivedDiscoveryAnnouncement value rx
  | .revelation => s.receivedRevelationAnnouncement value rx
  | .declaration => s.receivedDeclarationAnnouncement value rx
  | .convergence => s.receivedConvergenceAnnouncement value rx
  | .synchronization => s.receivedSynchronizationAnnouncement value rx

/-- The steps of a node. -/
inductive Act (R : Type) where
  | heard (id : AnnId) (value : AnnouncementValue R) (rx : Reception R)
  | timer
  | process
  | overflow

/-- A step with what its surroundings supply: the readings of the fine clock and the values the code
    takes from undefined places. -/
structure Event (R : Type) where
  act : Act R
  hw : Nat → UInt32
  env : Env R

def prepare (s : Node R) (e : Event R) : Node R :=
  { s with tm := { s.tm with hw := e.hw }, env := e.env, out := [] }

/-- One step. The timer fires only when it is scheduled, the thread runs only when it is polled. Once
    a pool descriptor is linked as a list element the memory is no longer what the program takes it
    for, and the model ends. -/
def step (s : Node R) (e : Event R) : Option (Node R) :=
  if s.cl.chsForeign then none
  else
    let s := s.prepare e
    match e.act with
    | .heard id value rx => some (s.heard id value rx)
    | .timer => if s.tm.rt0.state = .scheduled then some s.fire else none
    | .process => if s.polled then some { s with polled := false }.resume else none
    | .overflow => some { s with tm := rtimerLfOverflow s.tm }

/-- The statics before the program runs. -/
def blank : Node R where
  tm := rtimerInit
  nb := ⟨Pool.init ⟨0, 0, .cm, 0, false, false, SoftDouble.ofNat 0, 0, 0, 0, 0, 0, 0⟩, [], [], 0⟩
  cl := ⟨.cm, Pool.init ⟨0, 0, 0, 0, 0⟩, [], Pool.init ⟨0, 0, 0, 0, 0⟩, [], Pool.init 0, [], false⟩
  an := registered
  myAddr := 0
  myState := .discovery
  myPlacing := 0
  myProactiveSlot := 0
  myConsSlot := 0
  thisSyncSlot := 0
  mySlotAck := 0
  mySyncBorder := 0
  consCtrlCounter := 0
  refNChbDegree := 0
  refNChbAddr := 0
  syncedCounter := 0
  msgCount := 0
  tempState := 0
  myConsRate := SoftDouble.ofNat 1
  syncLcAddr := 0
  savedProactiveSlot := 1
  savedConsSlot := 1
  savedSlotAck := 0
  savedSyncBorder := 0
  convergenceComplete := 0
  softResetCount := 0
  pc := .phase
  polled := false
  env := ⟨0, 0, SoftDouble.ofNat 0, 0⟩
  out := []

/-- The node at its first yield, after `reset_c_gtsp` and `soft_reset`. -/
def boot (myAddr : UInt16) : Node R := (blank.resetCGtsp myAddr).restart

end Node

end CSync
