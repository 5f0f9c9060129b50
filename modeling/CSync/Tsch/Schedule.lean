import CSync.Tsch.Model

/-! The schedule of TSCH (`tsch-schedule.c`) and the neighbors that count its links (`tsch-queue.c`).

    Links and slotframes are blocks of two pools, and lists hold the blocks. What a function writes while it has the
    lock is a definition of its own, since slots may come in between; the functions are made of these. Here the lock
    is free whenever a function asks for it. The queue of a neighbor is the number of its packets. An
    `int` has 32 bits. -/

namespace CSync.TschSchedule
open Lib

/-- What the build configures. -/
structure Config (A : Type) where
  maxSlotframes : Nat
  maxLinks : Nat
  maxNeighborQueues : Nat
  queueNumPerNeighbor : Nat
  ebAddress : A
  broadcastAddress : A

/-- `struct tsch_asn_t`. -/
structure Asn where
  ls4b : UInt32
  ms1b : UInt8
  deriving DecidableEq

/-- `struct tsch_asn_divisor_t`. -/
structure AsnDivisor where
  val : Nat
  asnMs1bRemainder : Nat
  deriving DecidableEq

/-- `TSCH_ASN_DIVISOR_INIT`; `none` is a division by zero. -/
def asnDivisorInit (val : Nat) : Option AsnDivisor :=
  if val = 0 then none else some ⟨val, (0xffffffff % val + 1) % val⟩

def asnMod (asn : Asn) (div : AsnDivisor) : Nat :=
  (asn.ls4b.toNat % div.val + asn.ms1b.toNat * div.asnMs1bRemainder % div.val) % div.val

def asnInc (asn : Asn) (inc : Nat) : Asn :=
  let new := asn.ls4b + UInt32.ofNat inc
  ⟨new, if new < asn.ls4b then asn.ms1b + 1 else asn.ms1b⟩

/-- `struct tsch_link`. -/
structure Link (A : Type) where
  handle : UInt16
  addr : A
  slotframeHandle : UInt16
  timeslot : UInt16
  channelOffset : UInt16
  linkOptions : UInt8
  linkType : Tsch.LinkType
  deriving DecidableEq

/-- `LINK_OPTION_TX`, `LINK_OPTION_RX` and `LINK_OPTION_SHARED`. -/
def optionTx (options : UInt8) : Bool := options &&& 1 != 0
def optionRx (options : UInt8) : Bool := options &&& 2 != 0
def optionShared (options : UInt8) : Bool := options &&& 4 != 0

variable {A : Type}

/-- `struct tsch_slotframe`. -/
structure Slotframe (c : Config A) where
  handle : UInt16
  size : AsnDivisor
  linksList : List (Fin c.maxLinks)

/-- `struct tsch_neighbor`, without the backoff. -/
structure Neighbor (A : Type) where
  addr : A
  isBroadcast : Bool
  isTimeSource : Bool
  txLinksCount : UInt8
  dedicatedTxLinksCount : UInt8
  /-- The elements of `tx_ringbuf`. -/
  queue : Nat
  deriving DecidableEq

structure State (c : Config A) where
  linkMemb : Pool c.maxLinks (Link A)
  slotframeMemb : Pool c.maxSlotframes (Slotframe c)
  slotframeList : List (Fin c.maxSlotframes)
  currentLinkHandle : UInt16
  currentLink : Option (Fin c.maxLinks)
  neighborList : List (Neighbor A)
  isCoordinator : Bool

section
variable [DecidableEq A] {c : Config A}

/-- The contents of a link and of a slotframe. -/
def State.link (s : State c) (l : Fin c.maxLinks) : Link A := s.linkMemb.mem l
def State.slotframe (s : State c) (sf : Fin c.maxSlotframes) : Slotframe c := s.slotframeMemb.mem sf

/-! ### Neighbors -/

def queueGetNbr (s : State c) (addr : A) : Option (Neighbor A) :=
  s.neighborList.find? fun n => n.addr = addr

def updateNbr (addr : A) (f : Neighbor A → Neighbor A) (s : State c) : State c :=
  { s with neighborList := s.neighborList.map fun n => if n.addr = addr then f n else n }

/-- The entry that `tsch_queue_add_nbr` initializes. -/
def newNbr (c : Config A) (addr : A) : Neighbor A :=
  ⟨addr, decide (addr = c.ebAddress ∨ addr = c.broadcastAddress), false, 0, 0, 0⟩

/-- `tsch_queue_add_nbr`: the neighbor is there afterwards, unless the pool is used up. -/
def queueAddNbr (addr : A) (s : State c) : State c :=
  match queueGetNbr s addr with
  | some _ => s
  | none =>
    if s.neighborList.length < c.maxNeighborQueues then
      { s with neighborList := s.neighborList ++ [newNbr c addr] }
    else s

def queueGetTimeSource (s : State c) : Option (Neighbor A) := s.neighborList.find? Neighbor.isTimeSource

def queueUpdateTimeSource (newAddr : Option A) (s : State c) : State c :=
  if s.isCoordinator then s
  else
    let old := queueGetTimeSource s
    match newAddr with
    | some addr =>
      let s := queueAddNbr addr s
      match queueGetNbr s addr with
      | none => s
      | some _ =>
        if old.map Neighbor.addr = some addr then s
        else
          let s := updateNbr addr (fun n => { n with isTimeSource := true }) s
          match old with
          | none => s
          | some old => updateNbr old.addr (fun n => { n with isTimeSource := false }) s
    | none =>
      match old with
      | none => s
      | some old => updateNbr old.addr (fun n => { n with isTimeSource := false }) s

/-- `tsch_queue_add_packet`; `hasMemory` says whether there is a packet and a queue buffer. -/
def queueAddPacket (addr : A) (hasMemory : Bool) (s : State c) : State c :=
  let s := queueAddNbr addr s
  updateNbr addr
    (fun n => if n.queue ≠ c.queueNumPerNeighbor - 1 ∧ hasMemory then { n with queue := n.queue + 1 } else n) s

def queueRemovePacketFromQueue (addr : A) (s : State c) : State c :=
  updateNbr addr (fun n => { n with queue := n.queue - 1 }) s

/-- A neighbor that `tsch_queue_free_unused_neighbors` removes. -/
def Neighbor.unused (n : Neighbor A) : Bool :=
  !n.isBroadcast && !n.isTimeSource && n.txLinksCount == 0 && n.queue == 0

def queueFreeUnusedNeighbors (s : State c) : State c :=
  { s with neighborList := s.neighborList.filter fun n => !n.unused }

/-- The counters of a neighbor, after a link was added. -/
def countLink (options : UInt8) (addr : A) (s : State c) : State c :=
  if optionTx options then
    updateNbr addr (fun n => { n with
      txLinksCount := n.txLinksCount + 1
      dedicatedTxLinksCount := n.dedicatedTxLinksCount + if optionShared options then 0 else 1 })
      (queueAddNbr addr s)
  else s

/-- The counters of a neighbor, after a link was removed. -/
def uncountLink (options : UInt8) (addr : A) (s : State c) : State c :=
  if optionTx options then
    updateNbr addr (fun n => { n with
      txLinksCount := n.txLinksCount - 1
      dedicatedTxLinksCount := n.dedicatedTxLinksCount - if optionShared options then 0 else 1 })
      (queueAddNbr addr s)
  else s

/-! ### Links -/

def getLinkByTimeslot (s : State c) (sf : Fin c.maxSlotframes) (timeslot : UInt16) :
    Option (Fin c.maxLinks) :=
  (s.slotframe sf).linksList.find? fun l => (s.link l).timeslot = timeslot

/-- The link is not the next one any more. -/
def clearCurrent (l : Fin c.maxLinks) (s : State c) : State c :=
  if s.currentLink = some l then { s with currentLink := none } else s

/-- `list_remove` of a link. -/
def unlinkLink (sf : Fin c.maxSlotframes) (l : Fin c.maxLinks) (s : State c) : State c :=
  { s with slotframeMemb := s.slotframeMemb.modify sf fun f =>
      { f with linksList := f.linksList.erase l } }

def freeLink (l : Fin c.maxLinks) (s : State c) : State c := { s with linkMemb := s.linkMemb.free l }

/-- `tsch_schedule_remove_link`. -/
def removeLink (sf : Fin c.maxSlotframes) (l : Fin c.maxLinks) (s : State c) : State c :=
  if (s.link l).slotframeHandle = (s.slotframe sf).handle then
    uncountLink (s.link l).linkOptions (s.link l).addr (freeLink l (unlinkLink sf l (clearCurrent l s)))
  else s

def removeLinkByTimeslot (sf : Fin c.maxSlotframes) (timeslot : UInt16) (s : State c) : State c :=
  match getLinkByTimeslot s sf timeslot with
  | none => s
  | some l => removeLink sf l s

/-- The arguments of `tsch_schedule_add_link`; an address that is null is `linkaddr_null`. -/
structure LinkArgs (A : Type) where
  linkOptions : UInt8
  linkType : Tsch.LinkType
  addr : A
  timeslot : UInt16
  channelOffset : UInt16
  deriving DecidableEq

def listLink (sf : Fin c.maxSlotframes) (l : Fin c.maxLinks) (s : State c) : State c :=
  { s with slotframeMemb := s.slotframeMemb.modify sf fun f =>
      { f with linksList := f.linksList.erase l ++ [l] } }

/-- The initialization of a link. -/
def initLink (sf : Fin c.maxSlotframes) (l : Fin c.maxLinks) (args : LinkArgs A) (s : State c) : State c :=
  { s with
    currentLinkHandle := s.currentLinkHandle + 1
    linkMemb := s.linkMemb.modify l fun _ =>
      { handle := s.currentLinkHandle
        addr := args.addr
        slotframeHandle := (s.slotframe sf).handle
        timeslot := args.timeslot
        channelOffset := args.channelOffset
        linkOptions := args.linkOptions
        linkType := args.linkType } }

/-- `tsch_schedule_add_link`, behind the removal of the link at the timeslot. -/
def insertLink (sf : Fin c.maxSlotframes) (args : LinkArgs A) (s : State c) :
    Option (Fin c.maxLinks) × State c :=
  match s.linkMemb.alloc with
  | (none, _) => (none, s)
  | (some l, linkMemb) =>
    (some l, countLink args.linkOptions args.addr
      (initLink sf l args (listLink sf l { s with linkMemb := linkMemb })))

/-- `tsch_schedule_add_link`. -/
def addLink (sf : Fin c.maxSlotframes) (args : LinkArgs A) (s : State c) : Option (Fin c.maxLinks) × State c :=
  insertLink sf args (removeLinkByTimeslot sf args.timeslot s)

/-! ### Slotframes -/

def getSlotframeByHandle (s : State c) (handle : UInt16) : Option (Fin c.maxSlotframes) :=
  s.slotframeList.find? fun sf => (s.slotframe sf).handle = handle

/-- The initialization of a slotframe. -/
def initSlotframe (sf : Fin c.maxSlotframes) (handle : UInt16) (size : AsnDivisor) (s : State c) : State c :=
  { s with slotframeMemb := s.slotframeMemb.modify sf fun _ => ⟨handle, size, []⟩ }

def listSlotframe (sf : Fin c.maxSlotframes) (s : State c) : State c :=
  { s with slotframeList := s.slotframeList.erase sf ++ [sf] }

/-- `tsch_schedule_add_slotframe`. -/
def addSlotframe (handle size : UInt16) (s : State c) : Option (Fin c.maxSlotframes) × State c :=
  match asnDivisorInit size.toNat, getSlotframeByHandle s handle with
  | some div, none =>
    match s.slotframeMemb.alloc with
    | (none, _) => (none, s)
    | (some sf, slotframeMemb) =>
      (some sf, listSlotframe sf (initSlotframe sf handle div { s with slotframeMemb := slotframeMemb }))
  | _, _ => (none, s)

/-- The loop of `tsch_schedule_remove_slotframe`. -/
def removeLinks (sf : Fin c.maxSlotframes) : Nat → State c → State c
  | 0, s => s
  | fuel + 1, s =>
    match (s.slotframe sf).linksList with
    | [] => s
    | l :: _ => removeLinks sf fuel (removeLink sf l s)

/-- `memb_free` and `list_remove` of a slotframe. -/
def freeSlotframe (sf : Fin c.maxSlotframes) (s : State c) : State c :=
  { s with slotframeMemb := s.slotframeMemb.free sf }

def unlinkSlotframe (sf : Fin c.maxSlotframes) (s : State c) : State c :=
  { s with slotframeList := s.slotframeList.erase sf }

/-- `tsch_schedule_remove_slotframe`. -/
def removeSlotframe (sf : Fin c.maxSlotframes) (s : State c) : State c :=
  unlinkSlotframe sf (freeSlotframe sf (removeLinks sf (s.slotframe sf).linksList.length s))

/-- The loop of `tsch_schedule_remove_all_slotframes`. -/
def removeSlotframes : Nat → State c → State c
  | 0, s => s
  | fuel + 1, s =>
    match s.slotframeList with
    | [] => s
    | sf :: _ => removeSlotframes fuel (removeSlotframe sf s)

/-- `tsch_schedule_remove_all_slotframes`. -/
def removeAllSlotframes (s : State c) : State c := removeSlotframes s.slotframeList.length s

/-! ### The next link -/

/-- The variables of `tsch_schedule_get_next_active_link`. -/
structure Best (c : Config A) where
  timeToCurrBest : UInt16
  currBest : Option (Fin c.maxLinks)
  currBackup : Option (Fin c.maxLinks)
  deriving DecidableEq

/-- Of two links at the same time, `l` or `b` if it is to be the better one: transmit links first, then the
    one of the lower slotframe. -/
def newBest (s : State c) (b l : Fin c.maxLinks) : Option (Fin c.maxLinks) :=
  if optionTx (s.link b).linkOptions = optionTx (s.link l).linkOptions then
    if (s.link l).slotframeHandle < (s.link b).slotframeHandle then some l else none
  else if optionTx (s.link l).linkOptions then some l
  else none

def newBackup (s : State c) (b l : Fin c.maxLinks) : Option (Fin c.maxLinks) :=
  if newBest s b l ≠ some b ∧ optionRx (s.link b).linkOptions then some b
  else if newBest s b l ≠ some l ∧ optionRx (s.link l).linkOptions then some l
  else none

/-- The body of the loop over the links. -/
def considerLink (s : State c) (size : Nat) (timeslot : UInt16) (best : Best c) (l : Fin c.maxLinks) : Best c :=
  let timeToTimeslot :=
    if timeslot < (s.link l).timeslot then (s.link l).timeslot - timeslot
    else UInt16.ofNat size + (s.link l).timeslot - timeslot
  match best.currBest with
  | none => ⟨timeToTimeslot, some l, none⟩
  | some b =>
    if timeToTimeslot < best.timeToCurrBest then ⟨timeToTimeslot, some l, none⟩
    else if timeToTimeslot = best.timeToCurrBest then
      { best with
        currBest := some ((newBest s b l).getD b)
        currBackup := if best.currBackup = none then newBackup s b l else best.currBackup }
    else best

/-- `tsch_schedule_get_next_active_link`, when TSCH is not locked: the time offset, the link, its backup. -/
def getNextActiveLink (s : State c) (asn : Asn) : Best c :=
  s.slotframeList.foldl (fun best sf =>
    (s.slotframe sf).linksList.foldl
      (considerLink s (s.slotframe sf).size.val (UInt16.ofNat (asnMod asn (s.slotframe sf).size))) best)
    ⟨0, none, none⟩

/-- The calls. A pointer to a slotframe or a link is one that the schedule holds. -/
inductive Call (c : Config A) where
  | addSlotframe (handle size : UInt16)
  | removeSlotframe (sf : Fin c.maxSlotframes)
  | removeAllSlotframes
  | addLink (sf : Fin c.maxSlotframes) (args : LinkArgs A)
  | removeLink (sf : Fin c.maxSlotframes) (l : Fin c.maxLinks)
  | queueAddPacket (addr : A) (hasMemory : Bool)
  | queueRemovePacketFromQueue (addr : A)
  | queueUpdateTimeSource (newAddr : Option A)
  | queueFreeUnusedNeighbors
  | setCoordinator (enable : Bool)

def step (s : State c) : Call c → Option (State c)
  | .addSlotframe handle size => some (addSlotframe handle size s).2
  | .removeSlotframe sf => if sf ∈ s.slotframeList then some (removeSlotframe sf s) else none
  | .removeAllSlotframes => some (removeAllSlotframes s)
  | .addLink sf args => if sf ∈ s.slotframeList then some (addLink sf args s).2 else none
  | .removeLink sf l =>
    if sf ∈ s.slotframeList ∧ s.linkMemb.count l ≠ 0 then some (removeLink sf l s) else none
  | .queueAddPacket addr hasMemory => some (queueAddPacket addr hasMemory s)
  | .queueRemovePacketFromQueue addr => some (queueRemovePacketFromQueue addr s)
  | .queueUpdateTimeSource newAddr => some (queueUpdateTimeSource newAddr s)
  | .queueFreeUnusedNeighbors => some (queueFreeUnusedNeighbors s)
  | .setCoordinator enable => some { s with isCoordinator := enable }

/-- After `tsch_schedule_init` and `tsch_queue_init`. -/
def init (c : Config A) : State c :=
  queueAddNbr c.broadcastAddress (queueAddNbr c.ebAddress
    { linkMemb := Pool.init ⟨0, c.ebAddress, 0, 0, 0, 0, .normal⟩
      slotframeMemb := Pool.init ⟨0, ⟨0, 0⟩, []⟩
      slotframeList := []
      currentLinkHandle := 0
      currentLink := none
      neighborList := []
      isCoordinator := false })

end

end CSync.TschSchedule
