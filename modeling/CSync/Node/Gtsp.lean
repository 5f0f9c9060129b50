import CSync.Node.State

/-! Neighbours and their clocks (`core/net/c-sync/gtsp.c`, `add_to_neighbour`).

    Every received packet carries the sender's clock. `gtsp_recv` works out how far the two logical
    clocks are apart, `gtsp_update_rtimer` steps the own clock towards the neighbours'. The functions
    work on the timers and the neighbour table only. -/

namespace CSync

open Lib

variable {R : Type} [SoftDouble R]

/-- A received packet: who sent it, how strong it was, its time synchronisation frame (with the
    sender's fine clock already computed from its stamps) and the receiver's own stamps. -/
structure Reception (R : Type) where
  sender : UInt16
  rssi : UInt16
  coarseNow : UInt32
  fineNow : UInt32
  fineOffset : UInt32
  clockRate : R
  avgRate : R
  tb : UInt16
  hwMacTimestamp : UInt16
  timestamp : UInt16
  myTb : UInt16
  myClockRate : R
  deriving DecidableEq

/-- `RSSI_THRESHOLD`, −80 as the `uint16_t` that `packetbuf_attr` returns is compared with it. -/
def rssiThreshold : UInt16 := 65456

/-- `check_mod_neighbours` of `MOD_TYPE == 1`: the row of the hard-coded topology for `my_addr`. -/
def modNeighbours : UInt16 → List UInt16
  | 48 => [40, 42, 44, 45, 46, 47]
  | 40 => [48]
  | 42 => [48]
  | 44 => [48, 78]
  | 45 => [48, 78]
  | 46 => [48]
  | 47 => [48]
  | 78 => [44, 45, 72, 49]
  | 72 => [69, 78]
  | 69 => [62, 64, 66, 70, 71, 72, 75, 76]
  | 62 => [69]
  | 65 => [62]
  | 64 => [69, 56]
  | 66 => [69]
  | 70 => [69, 71]
  | 71 => [70]
  | 75 => [69]
  | 76 => [69]
  | 49 => [58, 78]
  | 53 => [58]
  | 54 => [58, 61]
  | 55 => [58]
  | 58 => [49, 53, 54, 55]
  | 61 => [54]
  | 60 => [51]
  | 51 => [57, 60]
  | 57 => [23, 56]
  | 56 => [51, 57, 64, 52]
  | 52 => [23]
  | 23 => [16, 19, 22, 24, 52, 57]
  | 24 => [23]
  | 22 => [23, 35]
  | 35 => [22, 30]
  | 30 => [35]
  | 19 => [17, 23]
  | 17 => [19, 23]
  | 16 => [23]
  | _ => []

def checkModNeighbours (myAddr nId : UInt16) : Bool := (modNeighbours myAddr).contains nId

/-! ### Clock differences -/

/-- `GTSP_JUMP_THRESHOLD` as an open interval around 0. -/
def inJumpThreshold (d : Int32) : Bool := -100 < d && d < 100

def getLgDeltaMacNetw (a b : UInt16) : UInt16 := if a < b then b - a else b + (65535 - a)

/-- The part of `gtsp_recv` that updates the relative rate of a known neighbour. -/
def gtspRate (n : Neighbour R) (myCoarse myFine nCoarse nFine : UInt32) : Neighbour R :=
  let deltaLgNFine := (rtimerLgdatesToLgInterval nCoarse nFine n.lastNCoarse n.lastLgNFine).2
  let deltaHwMyFine := (rtimerLgdatesToLgInterval myCoarse myFine n.lastMyCoarse n.lastHwMyFine).2
  let currentRate := SoftDouble.sub (SoftDouble.div (SoftDouble.ofNat deltaLgNFine.toNat)
    (SoftDouble.ofNat deltaHwMyFine.toNat)) (SoftDouble.ofNat 1 : R)
  let threshold : R := SoftDouble.dec 1 3
  if SoftDouble.lt (SoftDouble.sub (SoftDouble.ofNat 0) threshold) currentRate &&
      SoftDouble.lt currentRate threshold then
    { n with
      relativeRate := SoftDouble.add (SoftDouble.mul (SoftDouble.dec 9 1) n.relativeRate)
        (SoftDouble.mul (SoftDouble.sub (SoftDouble.ofNat 1) (SoftDouble.dec 9 1)) currentRate)
      jumped := false }
  else { n with jumped := true }

/-- The differences `gtsp_recv` stores, from the two logical clocks; around a coarse roll-over it
    takes the short way. -/
def clockDiff (myCoarse myFine nCoarse nFine : UInt32) : Int32 × Int32 :=
  let coarseDiff := myCoarse.toInt32 - nCoarse.toInt32
  if coarseDiff == -1 && fineMax - 1000 < myFine && nFine < 1000 then
    (0, (fineMax - myFine + nFine).toInt32)
  else if coarseDiff == 1 && myFine < 1000 && fineMax - 1000 < nFine then
    (0, (fineMax - nFine + myFine).toInt32)
  else (coarseDiff, myFine.toInt32 - nFine.toInt32)

def gtspRecv (tm : RtimerState R) (n : Neighbour R) (rx : Reception R) (newNeighbour : Bool) :
    Neighbour R × RtimerState R :=
  let myCoarse := tm.coarseCount
  let (myFine, tm) := tm.tick
  let n := if newNeighbour then
    { n with relativeRate := SoftDouble.ofNat 0, jumped := false, synced := false } else n
  let one : R := SoftDouble.ofNat 1
  let sendDelta : UInt16 := SoftDouble.toU16 (SoftDouble.mul
    (SoftDouble.mul (SoftDouble.ofNat (getLgDeltaMacNetw rx.tb rx.hwMacTimestamp).toNat)
      rx.clockRate) (SoftDouble.add rx.avgRate one))
  let recvDelta : UInt16 := SoftDouble.toU16 (SoftDouble.mul
    (SoftDouble.mul (SoftDouble.ofNat (getLgDeltaMacNetw rx.timestamp rx.myTb).toNat)
      rx.myClockRate) (SoftDouble.add n.relativeRate one))
  let deltaTransmission : UInt16 := SoftDouble.toU16 (SoftDouble.div
    (SoftDouble.mul (SoftDouble.ofNat 3) (SoftDouble.add one n.relativeRate))
    (SoftDouble.add one tm.avgRate))
  let totalOffset := rx.fineOffset + sendDelta.toUInt32 + recvDelta.toUInt32 +
    deltaTransmission.toUInt32
  let (nCoarse, nFine) := rtimerHwdateToLgdate rx.coarseNow rx.fineNow totalOffset
  let n := if newNeighbour then n else gtspRate n myCoarse myFine nCoarse nFine
  let n := { n with
    lastMyCoarse := myCoarse, lastHwMyFine := myFine, lastNCoarse := nCoarse
    lastLgNFine := nFine }
  let tm := rtimerUpdateOffset tm myCoarse myFine
  let (lgCoarse, lgFine) := rtimerHwdateToLgdate myCoarse myFine tm.fineOffset
  let (coarseDiff, fineDiff) := clockDiff lgCoarse lgFine nCoarse nFine
  ({ n with coarseDiff := coarseDiff, fineDiff := fineDiff }, tm)

/-! ### Stepping the own clock -/

/-- The counters of `gtsp_update_rtimer`. -/
structure GtspAcc (R : Type) where
  avgRate : R
  coarseDiffCount : UInt8
  coarseSyncedOffset : Int32
  coarseSyncedCount : UInt8
  fineDiffCount : UInt8
  fineSyncedOffset : Int32
  fineSyncedCount : UInt8

/-- The inner scan of `gtsp_update_rtimer` for the most frequent coarse difference. -/
def coarseMajority (ns : List (Neighbour R)) : List (Neighbour R) → UInt8 × UInt8 × Int32 →
    UInt8 × UInt8 × Int32
  | [], acc => acc
  | n :: rest, (_, syncedCount, offset) =>
      let diffCount := UInt8.ofNat (ns.countP fun nn => n.coarseDiff == nn.coarseDiff)
      coarseMajority ns rest
        (if syncedCount < diffCount then (diffCount, diffCount, n.coarseDiff)
         else (diffCount, syncedCount, offset))

/-- The fine part of the first loop, with the neighbour's flag. -/
def finePass (acc : GtspAcc R) (fineDiff : Int32) (relativeRate : R) : Bool × GtspAcc R :=
  if inJumpThreshold fineDiff then
    (true, { acc with
      fineSyncedOffset := acc.fineSyncedOffset + fineDiff
      avgRate := SoftDouble.add acc.avgRate relativeRate
      fineSyncedCount := acc.fineSyncedCount + 1 })
  else (false, { acc with fineDiffCount := acc.fineDiffCount + 1 })

def countCoarse (acc : GtspAcc R) (n : Neighbour R) : GtspAcc R :=
  if n.coarseDiff == 0 then { acc with coarseSyncedCount := acc.coarseSyncedCount + 1 }
  else { acc with coarseDiffCount := acc.coarseDiffCount + 1 }

/-- The majority scan and the rest of its iteration. The scan reuses the loop variable, so what
    follows it reads through a null pointer. -/
def majorityPass (env : Env R) (ns : List (Neighbour R)) (acc : GtspAcc R) : GtspAcc R :=
  let r := coarseMajority ns ns
    (acc.coarseDiffCount, acc.coarseSyncedCount, acc.coarseSyncedOffset)
  let acc := { acc with
    coarseDiffCount := r.1, coarseSyncedCount := r.2.1, coarseSyncedOffset := r.2.2 }
  (finePass acc env.nullFineDiff env.nullRate).2

/-- The first loop of `gtsp_update_rtimer`; it ends with the first majority scan. -/
def gtspFirst (env : Env R) (myState : St) (all : List (Fin maxDegree)) :
    List (Fin maxDegree) → Pool maxDegree (Neighbour R) → GtspAcc R →
      Pool maxDegree (Neighbour R) × GtspAcc R
  | [], m, acc => (m, acc)
  | i :: rest, m, acc =>
      if (m.mem i).state ≠ myState.code then gtspFirst env myState all rest m acc
      else
        let acc := countCoarse acc (m.mem i)
        if acc.coarseSyncedCount < acc.coarseDiffCount then
          (m, majorityPass env (all.map m.mem) acc)
        else
          let r := finePass acc (m.mem i).fineDiff (m.mem i).relativeRate
          gtspFirst env myState all rest (m.modify i fun n => { n with synced := r.1 }) r.2

/-- The second loop, in `DISCOVERY`: the largest group of unsynced neighbours with near fine differences. -/
def gtspGroups : List (Neighbour R) → UInt8 × Int32 → UInt8 × Int32
  | [], acc => acc
  | n :: rest, (count, offset) =>
      if n.synced then gtspGroups rest (count, offset)
      else
        let near := rest.filter fun nn => inJumpThreshold (n.fineDiff - nn.fineDiff)
        let diffCount := UInt8.ofNat (near.length + 1)
        let diffOffset := near.foldl (fun o nn => o + nn.fineDiff) n.fineDiff
        gtspGroups rest
          (if count ≤ diffCount then (diffCount, diffOffset / diffCount.toUInt32.toInt32)
           else (count, offset))

/-- The last loop: subtract what the own clock was stepped by. -/
def shiftDiffs (coarse fine : Int32) : List (Fin maxDegree) → Pool maxDegree (Neighbour R) →
    Pool maxDegree (Neighbour R)
  | [], m => m
  | i :: rest, m =>
      shiftDiffs coarse fine rest (m.modify i fun n =>
        { n with
          coarseDiff := n.coarseDiff - coarse
          fineDiff := n.fineDiff - fine
          synced := inJumpThreshold (n.fineDiff - fine) })

/-- The fine offset and the timers after the counting loops of `gtsp_update_rtimer`. -/
def gtspOffset (myState : St) (tm : RtimerState R) (ns : List (Neighbour R)) (acc : GtspAcc R) :
    Int32 × RtimerState R :=
  let offset := acc.fineSyncedOffset / (acc.fineSyncedCount.toUInt32.toInt32 + 1)
  if acc.fineDiffCount < acc.fineSyncedCount then
    let count := acc.fineSyncedCount.toNat + acc.fineDiffCount.toNat + 1
    (offset, { tm with avgRate := SoftDouble.div acc.avgRate (SoftDouble.ofNat count) })
  else if myState = .discovery then ((gtspGroups ns (acc.fineSyncedCount, offset)).2, tm)
  else (offset, tm)

/-- `gtsp_update_rtimer(mod_neighbour_list)`. -/
def gtspUpdateRtimer (env : Env R) (myState : St) (tm : RtimerState R) (all : List (Fin maxDegree))
    (m : Pool maxDegree (Neighbour R)) : Pool maxDegree (Neighbour R) × RtimerState R :=
  let r := gtspFirst env myState all all m ⟨tm.avgRate, 0, 0, 0, 0, 0, 0⟩
  let tm := rtimerAdjustCoarseCount tm r.2.coarseSyncedOffset
  let o := gtspOffset myState tm (all.map r.1.mem) r.2
  (shiftDiffs r.2.coarseSyncedOffset o.1 all r.1, rtimerAdjustFineOffset o.2 o.1)

/-! ### The neighbour table -/

/-- A message from a known neighbour of the topology: its clock, its state, in some phases the own
    clock, and before the connection declaration its degree. -/
def refreshNeighbour (env : Env R) (myState : St) (tm : RtimerState R) (nb : NeighbourTable R)
    (i : Fin maxDegree) (state degree : UInt8) (rx : Reception R) :
    NeighbourTable R × RtimerState R :=
  let r := gtspRecv tm (nb.memb.mem i) rx false
  let m := nb.memb.modify i fun _ => r.1
  if myState = .idle then ({ nb with memb := m }, r.2)
  else
    let state := if state = discToErev ∨ state = convergenceProactive then state - 1 else state
    let m := m.modify i fun n => { n with state := state }
    let u := if (myState.code < St.consensusSynchronization.code ∧ state = myState.code) ∨
        myState = .discovery then gtspUpdateRtimer env myState r.2 nb.modList m else (m, r.2)
    let m := if myState.code < St.connectionDeclaration.code
      then u.1.modify i fun n => { n with degree := degree } else u.1
    ({ nb with memb := m }, u.2)

/-- The entry of a new neighbour in a block that held `n`. -/
def newNeighbour (myState : St) (tm : RtimerState R) (n : Neighbour R) (addr : UInt16)
    (state degree : UInt8) (rx : Reception R) : Neighbour R × RtimerState R :=
  gtspRecv tm { n with
    addr := addr
    degree := if myState.code < St.connectionDeclaration.code then degree else n.degree
    role := .cm
    state := state } rx true

/-- `add_to_neighbour`: the block of the neighbour if it is one of the topology, the new table and
    timers, and whether a neighbour of the topology was added. -/
def addToNeighbour (env : Env R) (myAddr : UInt16) (myState : St) (tm : RtimerState R)
    (nb : NeighbourTable R) (addr : UInt16) (state degree : UInt8) (rx : Reception R) :
    Option (Fin maxDegree) × NeighbourTable R × RtimerState R × Bool :=
  match nb.modList.find? fun i =>
      (nb.memb.mem i).addr == addr && checkModNeighbours myAddr (nb.memb.mem i).addr with
  | some i =>
      let r := refreshNeighbour env myState tm nb i state degree rx
      (some i, r.1, r.2, false)
  | none =>
      match nb.list.find? fun i => (nb.memb.mem i).addr == addr with
      | some i =>
          let r := gtspRecv tm (nb.memb.mem i) rx false
          (none, { nb with memb := nb.memb.modify i fun _ => r.1 }, r.2, false)
      | none =>
          match nb.memb.freeBlock with
          | none => (none, nb, tm, false)
          | some i =>
              let r := newNeighbour myState tm (nb.memb.mem i) addr state degree rx
              let m := (nb.memb.take i).modify i fun _ => r.1
              if checkModNeighbours myAddr addr then
                (some i, { nb with
                  memb := m, myDegree := nb.myDegree + 1, modList := nb.modList ++ [i] }, r.2, true)
              else (none, { nb with memb := m, list := nb.list ++ [i] }, r.2, false)

def updateNeighbourRole (myAddr : UInt16) (nb : NeighbourTable R) (addr : UInt16) (role : Role) :
    NeighbourTable R :=
  { nb with memb := nb.modList.foldl (fun m i =>
      if (m.mem i).addr == addr && checkModNeighbours myAddr (m.mem i).addr
      then m.modify i fun n => { n with role := role } else m) nb.memb }

def csyncAllSynced (nb : NeighbourTable R) : Bool :=
  nb.modList.all fun i => (nb.memb.mem i).synced && (nb.memb.mem i).state ≤ 1

def csyncUpdatePlacing (myAddr : UInt16) (nb : NeighbourTable R) : UInt8 :=
  nb.modList.foldl (fun placing i =>
    let n := nb.memb.mem i
    if nb.myDegree < n.degree then placing + (n.degree - nb.myDegree)
    else if n.degree = nb.myDegree ∧ myAddr < n.addr then placing + 1
    else placing) 0

end CSync
