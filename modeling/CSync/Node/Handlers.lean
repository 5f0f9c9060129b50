import CSync.Node.Gtsp
import CSync.Node.Cluster

/-! The `enter_*` callbacks and the five `received_*_announcement` handlers.

    A handler takes the node, the value heard and the packet it came in, enters the sender into the
    neighbour table, and then acts on its own phase and the one announced. -/

namespace CSync

open Lib

namespace Node

variable {R : Type} [SoftDouble R]

/-! ### Phase entries -/

section
omit [SoftDouble R]

/-- The references that every `enter_*` function takes from the record of `RTIMER_0`. -/
def setScheduleRef (s : Node R) : Node R :=
  { s with tm := { s.tm with
      coarseScheduleRef := s.tm.rt0.timeCoarseHw, fineScheduleRef := s.tm.rt0.timeFineHw } }

def enterElectionRevelation (s : Node R) : Node R :=
  let s := s.broadcastStop
  let s := (s.mapAnn .discovery (·.removeValue)).setScheduleRef
  { s with myState := .electionRevelation, syncLcAddr := s.myAddr }.processPoll

def enterElectionDeclaration (s : Node R) : Node R :=
  let s := s.politeCancel
  let s := s.mapAnn .revelation (·.removeValue)
  let s := { s with myPlacing := csyncUpdatePlacing s.myAddr s.nb }
  let s := (s.politeSetInterval (4 * s.myPlacing.toUInt32)).setScheduleRef
  { s with myState := .electionDeclaration }.processPoll

def enterConnectionRevelation (s : Node R) : Node R :=
  let s := s.politeCancel.radio false
  let s := (s.mapAnn .declaration (·.removeValue)).setScheduleRef
  { s with myState := .connectionRevelation }.processPoll

def enterConnectionDeclaration (s : Node R) : Node R :=
  let s := s.politeCancel
  let s := (s.mapAnn .revelation (·.removeValue)).setScheduleRef
  { s with myState := .connectionDeclaration }.processPoll

def enterConvergence (s : Node R) : Node R :=
  let s := s.politeCancel
  let s := (s.mapAnn .declaration (·.removeValue)).setScheduleRef
  { s with myState := .consensusConvergence }.processPoll

def enterConsensusRevelation (s : Node R) : Node R :=
  let s := s.politeCancel
  let s := s.mapAnn .convergence (·.removeValue)
  let s := ((s.politeSetInterval (4 * s.myPlacing.toUInt32)).radio true).setScheduleRef
  { s with myState := .consensusRevelation }.processPoll

/-- `enter_convergence_slot`: the last slot ends in the consensus revelation. -/
def enterConvergenceSlot (s : Node R) : Node R :=
  let s := s.politeCancel
  if s.myConsSlot < numConsSlots then { s with convergenceComplete := 1 }.processPoll
  else s.enterConsensusRevelation

def enterConsensusSynchronization (s : Node R) : Node R :=
  let s := s.politeCancel
  let s := (s.mapAnn .revelation (·.removeValue)).setScheduleRef
  { s with myState := .consensusSynchronization }.processPoll

def enterByzantineConsensus (s : Node R) : Node R :=
  { s with tempState := if s.mySyncBorder ≠ 0 then St.byzantineConsensus.code
                        else s.myState.code }.processPoll

def enterIdle (s : Node R) : Node R :=
  let s := s.emit .politeStop
  let s := s.mapAnn .synchronization (·.removeValue)
  let s := (s.radio false).setScheduleRef
  { s with myState := .idle }.processPoll

/-- `enter_synchronization_slot`: the last slot ends in the idle phase. The comparison is in `int`, so
    a degree of 0 gives −1. -/
def enterSynchronizationSlot (s : Node R) : Node R :=
  let s := s.politeCancel
  if s.refNChbDegree ≤ numConsSlots then s.processPoll else s.enterIdle

/-- `enter_discovery` only wakes the process. -/
def enterDiscovery (s : Node R) : Node R :=
  (s.emit .politeStop).setScheduleRef.processPoll

/-- Call the function stored in a timer record. -/
def call (s : Node R) : Callback → Node R
  | .enterElectionRevelation => s.enterElectionRevelation
  | .enterElectionDeclaration => s.enterElectionDeclaration
  | .enterConnectionRevelation => s.enterConnectionRevelation
  | .enterConnectionDeclaration => s.enterConnectionDeclaration
  | .enterConvergence => s.enterConvergence
  | .enterConvergenceSlot => s.enterConvergenceSlot
  | .enterConsensusRevelation => s.enterConsensusRevelation
  | .enterConsensusSynchronization => s.enterConsensusSynchronization
  | .enterSynchronizationSlot => s.enterSynchronizationSlot
  | .enterIdle => s.enterIdle
  | .enterDiscovery => s.enterDiscovery

end

/-- The part of `csync_trusted_synchronization` that steps the clock: by the difference to the
    neighbour, which is then subtracted from all differences. -/
def stepClock (s : Node R) (fineDiff : Int32) : Node R :=
  { s with
    tm := rtimerAdjustFineOffset s.tm fineDiff
    nb := { s.nb with memb := s.nb.modList.foldl (fun m i =>
      m.modify i fun n => { n with fineDiff := n.fineDiff - fineDiff }) s.nb.memb } }

/-- `my_cons_rate` for a neighbour's relative rate; a zero is replaced by one. -/
def consRateOf (relativeRate currRate consRate : R) : R :=
  let r := SoftDouble.mul (SoftDouble.div relativeRate currRate) consRate
  if SoftDouble.isZero r then SoftDouble.ofNat 1 else r

def csyncTrustedSynchronization (s : Node R) (n : Neighbour R) (cAddr : UInt16) (consRate : R) :
    Node R :=
  let s := s.emit (.trustedSynchronization n.addr n.fineDiff n.coarseDiff)
  let currRate := s.tm.avgRate
  let rate := SoftDouble.mul consRate n.relativeRate
  match s.cl.role with
  | .cm =>
      if n.addr ≠ headAddr s.env.nullAddr s.cl then s
      else
        let s := if s.myConsSlot = s.thisSyncSlot
          then { s with tm := { s.tm with avgRate := rate } } else s
        s.stepClock n.fineDiff
  | .cb =>
      if s.cl.hasBridge n.addr then s
      else
        let s := if s.thisSyncSlot < s.myConsSlot then
            { s with
              myConsRate := consRateOf n.relativeRate currRate consRate
              tm := { s.tm with avgRate := rate } }
          else s
        s.stepClock n.fineDiff
  | .ch =>
      -- the loop returns at the first bridge that is not the sender
      if s.cl.bridges.any fun ch => n.addr != ch.addr then s
      else
        let s := { s with myConsRate := consRateOf n.relativeRate currRate consRate }
        if s.myConsSlot = s.thisSyncSlot then
          { s with tm := { s.tm with avgRate := rate } }.stepClock n.fineDiff
        else if s.syncLcAddr ≠ s.myAddr ∧ s.syncLcAddr = cAddr then
          let update := SoftDouble.div (SoftDouble.add rate currRate) (SoftDouble.ofNat 2)
          { s with tm := { s.tm with avgRate := update } }.stepClock n.fineDiff
        else s

/-! ### Receiving -/

/-- `add_to_neighbour` on the node. A new neighbour of the topology is announced with the new degree. -/
def addNeighbour (s : Node R) (value : AnnouncementValue R) (rx : Reception R) :
    Option (Fin maxDegree) × Node R :=
  let (r, nb, tm, added) := CSync.addToNeighbour s.env s.myAddr s.myState s.tm s.nb rx.sender
    value.instr value.degree rx
  let s := { s with nb := nb, tm := tm }
  (r, if added then s.mapAnn .discovery (·.setDegree nb.myDegree) else s)

/-- A handler ignores a weak packet and a sender that is not a neighbour of the topology; with any
    other it goes on with the sender's entry, after `add_to_neighbour`. -/
def whenReceived (s : Node R) (value : AnnouncementValue R) (rx : Reception R)
    (handle : Node R → Neighbour R → Node R) : Node R :=
  if rx.rssi < rssiThreshold then s
  else
    let r := s.addNeighbour value rx
    match r.1 with
    | some i => handle r.2 (r.2.nb.memb.mem i)
    | none => r.2

/-- All handlers but that of the discovery announcement ignore a sender that is not synchronised. -/
def whenSynced (s : Node R) (value : AnnouncementValue R) (rx : Reception R)
    (handle : Node R → Neighbour R → Node R) : Node R :=
  s.whenReceived value rx fun s n => if n.synced then handle s n else s

section

omit [SoftDouble R]

/-- The election order: a higher degree, or an equal one and a higher address. -/
def outranks (s : Node R) (n : Neighbour R) : Bool :=
  s.nb.myDegree < n.degree || (n.degree == s.nb.myDegree && s.myAddr < n.addr)

def handleLists (s : Node R) (value : AnnouncementValue R) (n : Neighbour R) : Bool × Node R :=
  let (ok, cl) := CSync.handleLists s.cl s.myState s.myAddr s.nb.myDegree value n
  (ok, { s with cl := cl })

/-- Store the announced slot for a head, and take it as the own one, if the head is on the list. -/
def takeSlot (s : Node R) (addr : UInt16) (slot : UInt8) : Node R :=
  { s with
    cl := setConsSlot addr slot s.cl
    myConsSlot := if s.cl.hasHead addr then slot else s.myConsSlot }

/-- Leave the discovery broadcasts for polite announcements. -/
def leaveDiscovery (s : Node R) : Node R :=
  let s := s.broadcastStop
  (s.mapAnn .discovery (·.removeValue)).politeInit 0

end

/-- The handlers schedule `RTIMER_0` at the announced date. -/
def ifScheduledAt (s : Node R) (value : AnnouncementValue R) (func : Callback)
    (yes no : Node R → Node R) : Node R :=
  s.ifScheduled .date value.dateCoarse value.dateFine func yes no

/-- A handler that joins a phase late arms the timer for the phase's end, keeps it through the next
    arming of the process, and enters the phase. -/
def joinAt (s : Node R) (value : AnnouncementValue R) (func : Callback)
    (enter : Node R → Node R) : Node R :=
  s.ifScheduledAt value func (fun s => enter (s.setRt0State .singlepass)) id

/-- Unless all neighbours are synchronised, the count towards the election starts again. -/
def checkSynced (s : Node R) : Node R :=
  if csyncAllSynced s.nb then s
  else { s.mapAnn .discovery (·.setInstr St.discovery.code) with syncedCounter := 0 }

/-- Start the election, or take over the earlier date of a neighbour that has started it. -/
def startElection (s : Node R) (value : AnnouncementValue R) : Node R :=
  if value.instr = St.discovery.code ∧ s.an.discovery.value.instr = St.discovery.code ∧
      maxRxSyncDiscovery ≤ s.syncedCounter then
    s.ifScheduled .intervalNow 0 2621440 .enterElectionRevelation
      (fun s => (s.mapAnn .discovery fun a => (a.setInstr discToErev).setDate
        s.tm.rt0.timeCoarseLg s.tm.rt0.timeFineLg).noteDate .discovery) id
  else if value.instr = discToErev then
    if rtimerCompare s.tm .rtimer0 value.dateCoarse value.dateFine = 1 then
      s.ifScheduledAt value .enterElectionRevelation
        (fun s => (s.mapAnn .discovery fun a =>
          (a.setDate value.dateCoarse value.dateFine).setInstr discToErev).noteDate .discovery)
        (fun s => { (s.setRt0State .inactive).mapAnn .discovery
          (·.setInstr St.discovery.code) with syncedCounter := 0 })
    else s
  else s

def receivedDiscoveryAnnouncement (s : Node R) (value : AnnouncementValue R) (rx : Reception R) :
    Node R :=
  s.whenReceived value rx fun s n =>
    let s := if n.synced then { s with syncedCounter := s.syncedCounter + 1 } else s
    if s.myState = .discovery then s.checkSynced.startElection value else s

/-- A revelation heard in discovery: join the phase it announces. -/
def joinRevelation (s : Node R) (value : AnnouncementValue R) (n : Neighbour R) : Node R :=
  if value.instr = St.electionRevelation.code then
    let s := s.politeCancel
    if s.outranks n then s.joinAt value .enterConnectionRevelation enterElectionRevelation else s
  else if value.instr = St.connectionRevelation.code then
    { s with cl := { s.cl with role := .cm } }.joinAt value .enterConsensusSynchronization
      fun s => s.leaveDiscovery.enterConnectionRevelation
  else if value.instr = St.consensusRevelation.code then
    { s with cl := { s.cl with role := .cm } }.joinAt value .enterConsensusSynchronization
      fun s =>
        let s := s.leaveDiscovery
        (if 0 < s.cl.chs.length then s.takeSlot n.addr value.degree
          else { s with cl := linkMemb value s.cl, myConsSlot := value.degree
            }).enterConsensusRevelation
  else s

/-- A consensus revelation heard in convergence ends the convergence. -/
def cutConvergence (s : Node R) (value : AnnouncementValue R) (n : Neighbour R) : Node R :=
  s.politeCancel.joinAt value .enterConsensusSynchronization fun s =>
    let s := if s.cl.role = .ch ∧ s.cl.cbs.length = 0 then
        ((s.handleLists value n).2).takeSlot n.addr value.degree
      else s
    { s with myConsSlot := numConsSlots + 1, mySlotAck := 0 }.enterConsensusRevelation

def revelationMessage (s : Node R) (value : AnnouncementValue R) (n : Neighbour R) : Node R :=
  match s.myState with
  | .discovery => s.joinRevelation value n
  | .electionRevelation =>
      if value.instr = St.electionRevelation.code ∧ s.outranks n then s.politeCancel else s
  | .connectionRevelation =>
      if value.instr = St.connectionRevelation.code ∧ s.cl.role = .cb ∧ s.outranks n then
        (s.handleLists value n).2
      else s
  | .consensusConvergence =>
      if value.instr = St.consensusRevelation.code then s.cutConvergence value n else s
  | .consensusRevelation =>
      if value.instr = St.consensusRevelation.code ∧ s.cl.role = .cm then
        s.takeSlot n.addr value.degree
      else s
  | _ => s

def receivedRevelationAnnouncement (s : Node R) (value : AnnouncementValue R) (rx : Reception R) :
    Node R :=
  s.whenSynced value rx fun s n => s.revelationMessage value n

/-- A declaration heard in discovery: join the phase it announces. -/
def joinDeclaration (s : Node R) (value : AnnouncementValue R) (n : Neighbour R) : Node R :=
  let s := { s with cl := { s.cl with role := .cm } }.leaveDiscovery
  if value.instr = St.connectionDeclaration.code then
    { s with myState := .connectionDeclaration }.processPoll
  else if value.instr = St.electionDeclaration.code then
    s.politeCancel.ifScheduledAt value .enterConnectionRevelation
      (fun s => (((s.handleLists value n).2).setRt0State .singlepass).enterElectionDeclaration) id
  else s

/-- The declaration of a higher-ranked head in the election. -/
def electHead (s : Node R) (value : AnnouncementValue R) (n : Neighbour R) : Node R :=
  let r := s.politeCancel.handleLists value n
  if r.1 then r.2 else r.2.bump .declaration

def declarationMessage (s : Node R) (value : AnnouncementValue R) (n : Neighbour R) : Node R :=
  match s.myState with
  | .discovery => s.joinDeclaration value n
  | .electionRevelation =>
      if value.instr = St.electionDeclaration.code then
        s.politeCancel.joinAt value .enterConnectionRevelation enterElectionDeclaration
      else s
  | .electionDeclaration =>
      if value.instr = St.electionDeclaration.code then
        if s.outranks n then s.electHead value n else s
      else if value.instr = St.connectionDeclaration.code then
        s.politeCancel.joinAt value .enterConvergence fun s =>
          { s with cl := { s.cl with chs := [] } }.enterConnectionRevelation
      else s
  | .connectionDeclaration =>
      if value.instr = St.connectionDeclaration.code ∧ s.cl.role = .ch then
        (s.handleLists value n).2
      else s
  | _ => s

def receivedDeclarationAnnouncement (s : Node R) (value : AnnouncementValue R) (rx : Reception R) :
    Node R :=
  s.whenSynced value rx fun s n => s.declarationMessage value n

/-! ### Convergence -/

section

omit [SoftDouble R]

/-- A cluster head that hears a convergence it did not start gives up its role and its bridges. -/
def resignHead (s : Node R) (value : AnnouncementValue R) (n : Neighbour R) : Node R :=
  let cl := { s.cl with role := .cm, cbs := [] }
  { s with cl := if s.cl.role = .ch
      then (CSync.handleLists cl s.myState s.myAddr s.nb.myDegree value n).2 else s.cl }

/-- The sender's role, as the lists give it, is stored in its neighbour entry. -/
def noteRole (s : Node R) (addr : UInt16) : Node R :=
  let s := if s.cl.hasHead addr
    then { s with nb := updateNeighbourRole s.myAddr s.nb addr .ch } else s
  if s.cl.hasBridge addr then { s with nb := updateNeighbourRole s.myAddr s.nb addr .cb } else s

/-- A bridge gives the slot to the sending head, if the head has none and the slot is still free, and
    acknowledges it. Only the first such entry can take it: it sets the acknowledgement. -/
def assignSlot (s : Node R) (value : AnnouncementValue R) (addr : UInt16) : Node R :=
  match s.cl.chs.find? fun i => (s.cl.chsMemb.mem i).addr == addr &&
      (s.cl.chsMemb.mem i).consSlot == 0 && s.myConsSlot == value.degree with
  | some i =>
      if s.mySlotAck = 0 then
        let p := s.cl.chsMemb.modify i fun ch => { ch with consSlot := value.degree }
        let s := { s with mySlotAck := 1, cl := { s.cl with chsMemb := p } }
        (s.mapAnn .convergence fun a =>
          ((a.setInstr value.instr).setDegree value.degree).setRefAddr addr).bump .convergence
      else s
  | none => s

/-- The convergence message of a slot, at a node that is in the convergence phase. -/
def slotMessage (s : Node R) (value : AnnouncementValue R) (n : Neighbour R) : Node R :=
  let s := s.noteRole n.addr
  if !s.cl.hasHead n.addr && !s.cl.hasBridge n.addr then
    if s.cl.role = .ch ∧ s.cl.cbs.length = 0 then (s.handleLists value n).2 else s
  else match s.cl.role with
  | .cb => s.assignSlot value n.addr
  | .ch =>
      if value.refAddr = s.myAddr then { s with myConsSlot := value.degree, mySlotAck := 1 }
      else { s.politeCancel with cl := setConsSlot value.refAddr value.degree s.cl }
  | .cm => s

end

def convergenceMessage (s : Node R) (value : AnnouncementValue R) (n : Neighbour R) : Node R :=
  match s.myState with
  | .connectionDeclaration =>
      if value.instr = St.consensusConvergence.code then
        s.politeCancel.joinAt value .enterConsensusRevelation fun s =>
          (s.resignHead value n).enterConvergence
      else s
  | .consensusConvergence =>
      if value.instr = St.consensusConvergence.code ∨ value.instr = convergenceProactive then
        s.slotMessage value n
      else s
  | .consensusSynchronization =>
      if value.instr = St.consensusConvergence.code then
        (s.politeCancel.setSyncBorder 0).joinAt value .enterConsensusRevelation fun s =>
          ({ s with refNChbDegree := numConsSlots + 3 }.resignHead value n).enterDiscovery
      else s
  | _ => s

def receivedConvergenceAnnouncement (s : Node R) (value : AnnouncementValue R) (rx : Reception R) :
    Node R :=
  s.whenSynced value rx fun s n => s.convergenceMessage value n

/-! ### Synchronization -/

/-- Pass an announced date on in the own synchronization announcement. -/
def forwardDate (s : Node R) (value : AnnouncementValue R) : Node R :=
  s.mapAnn .synchronization fun a =>
    (a.setDate value.dateCoarse value.dateFine).setRefAddr value.refAddr

/-- Pass an announced date and degree on. -/
def forwardAll (s : Node R) (value : AnnouncementValue R) : Node R :=
  (s.mapAnn .synchronization (·.setDegree value.degree)).forwardDate value

/-- Blacklist a sender and start the byzantine consensus. -/
def accuse (s : Node R) (n : Neighbour R) : Node R :=
  ({ s with cl := blacklistAdd n.addr s.cl }.setSyncBorder 1).enterByzantineConsensus

def byzantineFineDiff : Int32 := 500
def byzantineCoarseDiff : Int32 := 3

def bridgeSynchronization (s : Node R) (value : AnnouncementValue R) (n : Neighbour R) : Node R :=
  if s.thisSyncSlot < s.myConsSlot then
    if n.fineDiff < byzantineFineDiff ∧ n.coarseDiff < byzantineCoarseDiff then
      ((s.csyncTrustedSynchronization n value.refAddr value.consRate).setSyncBorder 1).forwardAll
        value
    else s.accuse n
  else if s.myConsSlot = s.thisSyncSlot then
    if byzantineFineDiff < n.fineDiff ∨ byzantineCoarseDiff < n.coarseDiff then s.accuse n
    else (s.politeCancel.setSyncBorder 1).forwardAll value
  else s.forwardAll value

/-- A byzantine consensus message; `threshold` was computed when the packet came in. -/
def byzantineMessage (s : Node R) (value : AnnouncementValue R) (n : Neighbour R)
    (threshold : Nat) : Node R :=
  if byzantineFineDiff < n.fineDiff ∨ byzantineCoarseDiff < n.coarseDiff then
    if s.myConsSlot = s.thisSyncSlot then
      let s := { s with msgCount := s.msgCount + 1 }
      let s := (s.csyncTrustedSynchronization n value.refAddr value.consRate).forwardAll value
      let s := s.setSyncBorder 1
      if threshold < s.msgCount.toNat then s.politeCancel.setSyncBorder 0
      else s.enterByzantineConsensus
    else
      ((s.csyncTrustedSynchronization n value.refAddr value.consRate).forwardAll value).setSyncBorder
        1
  else s

/-- A node in discovery that knows a head synchronises to the sender at once. -/
def linkSynchronization (s : Node R) (value : AnnouncementValue R) (n : Neighbour R) : Node R :=
  if 0 < s.cl.chs.length then
    let s := { s with cl := linkMemb value s.cl, myConsSlot := value.degree }
    ((s.csyncTrustedSynchronization n value.refAddr value.consRate).setSyncBorder 0).forwardAll value
  else s

/-- A synchronization heard in discovery: wait for the idle phase. -/
def joinSynchronization (s : Node R) (value : AnnouncementValue R) (n : Neighbour R) : Node R :=
  { s with cl := { s.cl with role := .cm } }.leaveDiscovery.joinAt value .enterIdle fun s =>
    s.linkSynchronization value n

/-- A synchronization heard in the consensus revelation ends that phase. -/
def cutRevelation (s : Node R) (value : AnnouncementValue R) (n : Neighbour R) : Node R :=
  s.politeCancel.joinAt value .enterIdle fun s =>
    (if s.cl.role = .ch ∧ s.cl.cbs.length = 0 then
      let s := (s.handleLists value n).2
      { s with cl := setConsSlot n.addr value.degree s.cl }
    else s).enterConsensusSynchronization

/-- A synchronization message in the synchronization phase. -/
def slotSynchronization (s : Node R) (value : AnnouncementValue R) (n : Neighbour R) : Node R :=
  match s.cl.role with
  | .cb => s.bridgeSynchronization value n
  | .ch =>
      let s := s.forwardDate value
      if s.thisSyncSlot = s.myConsSlot ∧ s.mySyncBorder = 0 then
        ((s.csyncTrustedSynchronization n value.refAddr value.consRate).bump
          .synchronization).setSyncBorder 1
      else s.csyncTrustedSynchronization n value.refAddr value.consRate
  | .cm =>
      if s.thisSyncSlot = s.myConsSlot then
        (s.forwardDate value).csyncTrustedSynchronization n value.refAddr value.consRate
      else s

def synchronizationMessage (s : Node R) (value : AnnouncementValue R) (threshold : Nat)
    (n : Neighbour R) : Node R :=
  match s.myState with
  | .discovery => s.joinSynchronization value n
  | .consensusRevelation =>
      if value.instr = St.consensusSynchronization.code then s.cutRevelation value n else s
  | .consensusSynchronization =>
      if value.instr = St.consensusSynchronization.code then
        if s.cl.blacklisted n.addr then s else s.slotSynchronization value n
      else if value.instr = St.byzantineConsensus.code then
        if s.cl.blacklisted n.addr then s else s.byzantineMessage value n threshold
      else s
  | _ => s

/-- The message of a bridge that has come back to the head it names is ignored. -/
def receivedSynchronizationAnnouncement (s : Node R) (value : AnnouncementValue R)
    (rx : Reception R) : Node R :=
  let threshold := s.nb.myDegree.toNat / 2 + 1
  if ¬ rx.rssi < rssiThreshold ∧ value.refAddr = s.myAddr then s
  else s.whenSynced value rx fun s n => s.synchronizationMessage value threshold n

end Node

end CSync
