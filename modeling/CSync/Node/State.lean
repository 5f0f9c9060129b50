import CSync.Lib.Pool
import CSync.Rtimer.Model
import CSync.Announcement.Model

/-! The state of a node (`core/net/c-sync/c-sync.h`, `examples/c-sync/c-sync.c`) in the default configuration of
    `project-conf.h`: `MOD_NEIGHBOURS = 1`, `MOD_TYPE = 1`, `TEST_GTSP = 0`, `TEST_BYZ = 0`.

    The globals are grouped by the part of the program that works on them: the real-time timers, the neighbour table,
    the cluster lists, the five announcements, the scalars of the protocol, and the place where the process thread has
    yielded. A pointer to a pool block is the index of the block. -/

namespace CSync

open Lib

structure Neighbour (R : Type) where
  addr : UInt16
  degree : UInt8
  role : Role
  state : UInt8
  jumped : Bool
  synced : Bool
  relativeRate : R
  lastNCoarse : UInt32
  lastLgNFine : UInt32
  lastMyCoarse : UInt32
  lastHwMyFine : UInt32
  coarseDiff : Int32
  fineDiff : Int32
  deriving DecidableEq

structure Chb where
  addr : UInt16
  degree : UInt8
  consSlot : UInt8
  nChbAddrA : UInt16
  nChbAddrB : UInt16
  deriving DecidableEq

/-- `MAX_DEGREE`, `NUM_CH_MAX`, `NUM_CB_MAX`, `NUM_BL_MAX`. -/
abbrev maxDegree : Nat := 64
abbrev numChMax : Nat := 4
abbrev numCbMax : Nat := 8
abbrev numBlMax : Nat := 2

/-- `NUM_CONS_SLOTS`, `NUM_CONS_CTRL_ITERATIONS`, `MAX_RX_SYNC_DISCOVERY`. -/
def numConsSlots : UInt8 := 5
def numConsCtrlIterations : UInt8 := 3
def maxRxSyncDiscovery : UInt8 := 12

/-- `neighbour_memb` with the two lists that link its blocks, and the node's degree. -/
structure NeighbourTable (R : Type) where
  memb : Pool maxDegree (Neighbour R)
  modList : List (Fin maxDegree)
  list : List (Fin maxDegree)
  myDegree : UInt8

/-- `my_cluster` with its three lists and their pools. -/
structure Cluster where
  role : Role
  chsMemb : Pool numChMax Chb
  chs : List (Fin numChMax)
  cbsMemb : Pool numCbMax Chb
  cbs : List (Fin numCbMax)
  blMemb : Pool numBlMax UInt16
  blacklist : List (Fin numBlMax)
  /-- The descriptor of `CHs_memb` itself has been pushed in front of `CHs_list`. -/
  chsForeign : Bool

/-- The five registered announcements, in list order. -/
structure Announcements (R : Type) where
  discovery : Announcement R
  revelation : Announcement R
  declaration : Announcement R
  convergence : Announcement R
  synchronization : Announcement R
  deriving DecidableEq

/-- The announcement objects, by the id they are registered with. -/
inductive AnnId where | discovery | revelation | declaration | convergence | synchronization
  deriving DecidableEq

def Announcements.get {R : Type} (as : Announcements R) : AnnId → Announcement R
  | .discovery => as.discovery
  | .revelation => as.revelation
  | .declaration => as.declaration
  | .convergence => as.convergence
  | .synchronization => as.synchronization

def Announcements.modify {R : Type} (as : Announcements R) (f : Announcement R → Announcement R) :
    AnnId → Announcements R
  | .discovery => { as with discovery := f as.discovery }
  | .revelation => { as with revelation := f as.revelation }
  | .declaration => { as with declaration := f as.declaration }
  | .convergence => { as with convergence := f as.convergence }
  | .synchronization => { as with synchronization := f as.synchronization }

/-- The places at which `c_gtsp_process` yields: in the phase loop (its first yield, after
    `soft_reset`, resumes in the same way), in a convergence slot, before and after the consensus
    revelation, in a synchronization slot, before and after the idle broadcasts. -/
inductive Pc where | phase | convSlot | revWait | revYield | syncSlot | idleWait | idleYield
  deriving DecidableEq

/-- What a node does to its surroundings in one step. -/
inductive Out (R : Type) where
  /-- `announcement_bump`, with the announcement's value and the record of `RTIMER_0` at the call. -/
  | bump (id : AnnId) (value : AnnouncementValue R) (rt0 : Rtimer)
  /-- `rtimer_schedule` of `RTIMER_0`: its arguments, the record before it and its result. -/
  | schedule (type : ScheduleType) (coarse fine : UInt32) (func : Callback) (before : Rtimer)
      (result : Bool)
  /-- The date that `RTIMER_0` is armed for is written into an announcement: the announcement's value
      behind it, and the record. -/
  | armedDate (id : AnnId) (value : AnnouncementValue R) (rt0 : Rtimer)
  /-- `csync_trusted_synchronization`, with the sender and its differences. -/
  | trustedSynchronization (addr : UInt16) (fineDiff coarseDiff : Int32)
  | politeInit (interval : UInt32)
  | politeSetInterval (interval : UInt32)
  | politeCancel
  | politeStop
  | broadcastInit
  | broadcastStop
  | radio (on : Bool)
  deriving DecidableEq

/-- What the surroundings supply to a step where the C code has no value of its own: what is read
    through a null pointer, and the conversion of a negative `double` to an unsigned integer. -/
structure Env (R : Type) where
  nullAddr : UInt16
  nullFineDiff : Int32
  nullRate : R
  negInterval : UInt32
  deriving DecidableEq

structure Node (R : Type) where
  tm : RtimerState R
  nb : NeighbourTable R
  cl : Cluster
  an : Announcements R
  myAddr : UInt16
  myState : St
  myPlacing : UInt8
  myProactiveSlot : UInt8
  myConsSlot : UInt8
  thisSyncSlot : UInt8
  mySlotAck : UInt8
  mySyncBorder : UInt8
  consCtrlCounter : UInt8
  refNChbDegree : UInt8
  refNChbAddr : UInt16
  syncedCounter : UInt8
  msgCount : UInt8
  tempState : UInt8
  myConsRate : R
  syncLcAddr : UInt16
  savedProactiveSlot : UInt8
  savedConsSlot : UInt8
  savedSlotAck : UInt8
  savedSyncBorder : UInt8
  convergenceComplete : UInt8
  softResetCount : UInt8
  pc : Pc
  polled : Bool
  env : Env R
  /-- What the current step has done so far, in order. -/
  out : List (Out R)

namespace Node

variable {R : Type}

/-- Record an output. -/
def emit (s : Node R) (o : Out R) : Node R := { s with out := s.out ++ [o] }

def mapAnn (s : Node R) (id : AnnId) (f : Announcement R → Announcement R) : Node R :=
  { s with an := s.an.modify f id }

def processPoll (s : Node R) : Node R := { s with polled := true }

def setRt0State (s : Node R) (x : RtimerStatus) : Node R :=
  { s with tm := { s.tm with rt0 := { s.tm.rt0 with state := x } } }

def setSyncBorder (s : Node R) (x : UInt8) : Node R := { s with mySyncBorder := x }

def politeCancel (s : Node R) : Node R := s.emit .politeCancel
def politeInit (s : Node R) (interval : UInt32) : Node R := s.emit (.politeInit interval)
def politeSetInterval (s : Node R) (interval : UInt32) : Node R :=
  s.emit (.politeSetInterval interval)
def broadcastStop (s : Node R) : Node R := s.emit .broadcastStop
def radio (s : Node R) (on : Bool) : Node R := s.emit (.radio on)

/-- `announcement_bump` of one of the node's announcements. -/
def bump (s : Node R) (id : AnnId) : Node R := s.emit (.bump id (s.an.get id).value s.tm.rt0)

/-- Record that an announcement has got the armed date. -/
def noteDate (s : Node R) (id : AnnId) : Node R :=
  s.emit (.armedDate id (s.an.get id).value s.tm.rt0)

/-- `rtimer_schedule(RTIMER_0, ...)`. -/
def schedule [SoftDouble R] (s : Node R) (type : ScheduleType) (coarse fine : UInt32)
    (func : Callback) : Bool × Node R :=
  let r := rtimerSchedule s.tm .rtimer0 type coarse fine func
  (r.1, { s with tm := r.2 }.emit (.schedule type coarse fine func s.tm.rt0 r.1))

/-- `if(rtimer_schedule(RTIMER_0, ...)) yes else no`. -/
def ifScheduled [SoftDouble R] (s : Node R) (type : ScheduleType) (coarse fine : UInt32)
    (func : Callback) (yes no : Node R → Node R) : Node R :=
  let r := s.schedule type coarse fine func
  if r.1 then yes r.2 else no r.2

end Node

end CSync
