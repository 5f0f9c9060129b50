import CSync.Rpl.Graph
import Mathlib.Algebra.Group.Nat.Defs

/-! The DAGs of a node and its parents (`rpl-dag.c`, `rpl-timers.c`, `rpl-mrhof.c`, `rpl-of0.c`).

    There is one instance (`RPL_MAX_INSTANCES`), with a table of DAGs. Neighbors have an index in the neighbor table;
    an entry of `rpl_parents` belongs to each that sent a DIO. Memory that was given back keeps what it held. An `int`
    has 32 bits. -/

namespace CSync.RplDag

/-- `rpl_mrhof` and `rpl_of0`. -/
inductive Of where
  | mrhof
  | of0
deriving DecidableEq

/-- `RPL_MAX_DAG_PER_INSTANCE`, `NBR_TABLE_MAX_NEIGHBORS`, `CLOCK_SECOND`, `RPL_MOP_DEFAULT`, `RPL_WITH_PROBING`,
    `RPL_DAG_LIFETIME` and `RPL_SUPPORTED_OFS`, with the objective code points. -/
structure Config where
  maxDags : Nat
  maxNeighbors : Nat
  clockSecond : UInt32
  mopDefault : UInt8
  withProbing : Bool
  dagLifetime : UInt32
  findOf : UInt16 → Option Of

abbrev Config.DagIdx (c : Config) := Fin c.maxDags
abbrev Config.Nbr (c : Config) := Fin c.maxNeighbors

def infiniteRank : UInt16 := 0xffff

def infiniteLifetime : UInt8 := 0xff

/-- `UIP_ND6_RA_FLAG_AUTONOMOUS`. -/
def autonomous : UInt8 := 0x40

/-- `rpl_prefix_t`. -/
structure Prefix where
  prefixAddr : IpAddr
  length : UInt8
  flags : UInt8

/-- `rpl_parent_t`; `updated` is `RPL_PARENT_FLAG_UPDATED`. -/
structure Parent (c : Config) where
  dag : c.DagIdx
  rank : UInt16
  dtsn : UInt8
  updated : Bool

/-- `rpl_dag_t`. -/
structure Dag (c : Config) where
  dagId : IpAddr
  minRank : UInt16
  version : UInt8
  grounded : UInt8
  preference : UInt8
  used : Bool
  joined : Bool
  preferredParent : Option c.Nbr
  rank : UInt16
  prefixInfo : Prefix
  lifetime : UInt32

/-- `rpl_instance_t`; the last two are whether the timers for DAOs run. -/
structure Instance (c : Config) where
  used : Bool
  instanceId : UInt8
  of : Of
  currentDag : c.DagIdx
  mop : UInt8
  dioIntdoubl : UInt8
  dioIntmin : UInt8
  dioRedundancy : UInt8
  defaultLifetime : UInt8
  dioIntcurrent : UInt8
  dioSend : Bool
  maxRankinc : UInt16
  minHoprankinc : UInt16
  lifetimeUnit : UInt16
  dtsnOut : UInt8
  dioNextDelay : UInt32
  daoTimer : Bool
  daoLifetimeTimer : Bool

/-- GHOST: an operation that is not defined for all operands, a copy of bytes into an address or a comparison of the
    bytes of two addresses, and the two parts of a DIO interval. -/
inductive Op where
  | divide (divisor : Nat)
  | shift (amount : Nat)
  | interval (intcurrent : UInt8) (delay nextDelay : UInt32)
  | copy (length : Nat)
  | compare (length : Nat)
deriving DecidableEq

/-- The neighbors in the order of their keys, which of them are in `rpl_parents` and with what, their link
    statistics, and whether they are fresh and reachable; the instance and its DAGs; whether the node is in feather
    mode, and whether it may send DIOs; what `random_rand` returns from now on. -/
structure State (c : Config) where
  keys : List c.Nbr
  used : c.Nbr → Bool
  parent : c.Nbr → Parent c
  etx : c.Nbr → Option UInt16
  fresh : c.Nbr → Bool
  reachable : c.Nbr → Bool
  inst : Instance c
  dag : c.DagIdx → Dag c
  feather : Bool
  dioSendOk : Bool
  random : Nat → UInt16
  ops : List Op

variable {c : Config}

namespace State

def modifyDag (d : c.DagIdx) (f : Dag c → Dag c) (s : State c) : State c :=
  { s with dag := Function.update s.dag d (f (s.dag d)) }

def modifyParent (p : c.Nbr) (f : Parent c → Parent c) (s : State c) : State c :=
  { s with parent := Function.update s.parent p (f (s.parent p)) }

def op (o : Op) (s : State c) : State c := { s with ops := s.ops ++ [o] }

def current (s : State c) : Dag c := s.dag s.inst.currentDag

def rootRank (s : State c) : UInt16 := s.inst.minHoprankinc

/-- `RPL_IS_STORING`, where it changes the instance. -/
def isStoring (s : State c) : Bool := decide (1 < s.inst.mop)

end State

/-! ### Objective functions -/

def linkMetric (s : State c) (p : c.Nbr) : UInt16 := (s.etx p).getD 0xffff

def pathCost (s : State c) (p : c.Nbr) : UInt16 :=
  UInt16.ofNat (min ((s.parent p).rank.toNat + (linkMetric s p).toNat) 0xffff)

def stepOfRank (s : State c) (p : c.Nbr) : Int := ((3 * (linkMetric s p).toNat / 128 : Nat) : Int) - 2

def parentRankIncrease (s : State c) (p : c.Nbr) : UInt16 :=
  UInt16.ofInt (stepOfRank s p * s.inst.minHoprankinc.toNat)

def Of.rankViaParent (s : State c) (p : c.Nbr) : Of → UInt16
  | .mrhof => max (UInt16.ofNat (min ((s.parent p).rank.toNat + s.inst.minHoprankinc.toNat) 0xffff)) (pathCost s p)
  | .of0 => UInt16.ofNat (min ((s.parent p).rank.toNat + (parentRankIncrease s p).toNat) 0xffff)

/-- `parent_is_acceptable`; the bounds are `MAX_LINK_METRIC`, `MAX_PATH_COST`, `MIN_STEP_OF_RANK` and
    `MAX_STEP_OF_RANK`. -/
def Of.parentIsAcceptable (s : State c) (p : c.Nbr) : Of → Bool
  | .mrhof => decide (linkMetric s p ≤ 1024) && decide (pathCost s p ≤ 32768)
  | .of0 => decide (1 ≤ stepOfRank s p) && decide (stepOfRank s p ≤ 9)

/-- The end of `best_parent`, for two acceptable parents. MRHOF stays with the preferred parent within a threshold,
    OF0 on a tie. -/
def Of.betterParent (s : State c) (p₁ p₂ : c.Nbr) (of : Of) : c.Nbr :=
  let cost₁ : Int := (pathCost s p₁).toNat
  let cost₂ : Int := (pathCost s p₂).toNat
  let preferred := (s.dag (s.parent p₁).dag).preferredParent
  match of with
  | .mrhof =>
    if (some p₁ = preferred ∨ some p₂ = preferred) ∧ cost₁ < cost₂ + 96 ∧ cost₂ - 96 < cost₁ then
      preferred.getD p₁
    else if cost₁ < cost₂ then p₁ else p₂
  | .of0 =>
    if cost₁ ≠ cost₂ then if cost₁ < cost₂ then p₁ else p₂
    else if some p₁ = preferred ∨ some p₂ = preferred then preferred.getD p₁
    else if linkMetric s p₁ < linkMetric s p₂ then p₁ else p₂

/-- `best_parent` of an objective function. -/
def Of.bestParent (s : State c) (best : Option c.Nbr) (p : c.Nbr) (of : Of) : Option c.Nbr :=
  match best with
  | none => if of.parentIsAcceptable s p then some p else none
  | some b =>
    if of.parentIsAcceptable s b = false then if of.parentIsAcceptable s p then some p else none
    else if of.parentIsAcceptable s p = false then some b
    else some (of.betterParent s b p)

def bestDag (s : State c) (d₁ d₂ : c.DagIdx) : c.DagIdx :=
  if (s.dag d₁).grounded ≠ (s.dag d₂).grounded then if (s.dag d₁).grounded ≠ 0 then d₁ else d₂
  else if (s.dag d₁).preference ≠ (s.dag d₂).preference then
    if (s.dag d₂).preference < (s.dag d₁).preference then d₁ else d₂
  else if (s.dag d₁).rank < (s.dag d₂).rank then d₁ else d₂

def rankViaParent (s : State c) : Option c.Nbr → UInt16
  | none => infiniteRank
  | some p => s.inst.of.rankViaParent s p

/-! ### Timers -/

def randomRand (s : State c) : UInt16 × State c :=
  (s.random 0, { s with random := fun n => s.random (n + 1) })

def newDioInterval (s : State c) : State c :=
  let time : UInt32 := if s.inst.dioIntcurrent < 32 then UInt32.ofNat (2 ^ s.inst.dioIntcurrent.toNat) else 0
  let ticks := time * c.clockSecond / 1000
  let (random, t) := randomRand (s.op (.shift s.inst.dioIntcurrent.toNat))
  let delay := ticks / 2 + ticks / 2 * random.toUInt32 / 65535
  { t.op (.interval s.inst.dioIntcurrent delay (ticks - delay)) with
    inst := { t.inst with dioNextDelay := ticks - delay, dioSend := true } }

def resetDioTimer (s : State c) : State c :=
  if s.inst.dioIntmin < s.inst.dioIntcurrent then
    newDioInterval { s with inst := { s.inst with dioIntcurrent := s.inst.dioIntmin } }
  else s

/-- `handle_dio_timer`; `linkLocal` is whether the link-local address may be used. -/
def handleDioTimer (linkLocal : Bool) (s : State c) : State c :=
  if s.dioSendOk = false ∧ linkLocal = false then s
  else
    let s := { s with dioSendOk := true }
    if s.inst.dioSend then { s with inst := { s.inst with dioSend := false } }
    else if s.inst.dioIntcurrent.toNat < s.inst.dioIntmin.toNat + s.inst.dioIntdoubl.toNat then
      newDioInterval { s with inst := { s.inst with dioIntcurrent := s.inst.dioIntcurrent + 1 } }
    else newDioInterval s

def setDaoLifetimeTimer (s : State c) : State c :=
  if s.feather then s
  else if s.inst.defaultLifetime = infiniteLifetime then s
  else
    let expiration := s.inst.defaultLifetime.toUInt32 * s.inst.lifetimeUnit.toUInt32 * c.clockSecond / 2
    let (_, t) := randomRand (s.op (.divide (expiration / 2).toNat))
    { t with inst := { t.inst with daoLifetimeTimer := true } }

/-- `schedule_dao`; `rpl_schedule_dao` draws a delay. -/
def scheduleDao (delayed : Bool) (s : State c) : State c :=
  if s.feather then s
  else if s.inst.daoTimer then s
  else
    let s := if delayed then (randomRand s).2 else s
    setDaoLifetimeTimer { s with inst := { s.inst with daoTimer := true } }

def handleDaoTimer (linkLocal lifetime : Bool) (s : State c) : State c :=
  let s := if lifetime then { s with inst := { s.inst with daoLifetimeTimer := false } }
    else { s with inst := { s.inst with daoTimer := false } }
  if s.dioSendOk = false ∧ linkLocal = false then { s with inst := { s.inst with daoTimer := true } }
  else
    let s := { s with inst := { s.inst with daoTimer := false } }
    if s.inst.daoLifetimeTimer then s else setDaoLifetimeTimer s

def setIpFromPrefix (p : Prefix) (s : State c) : State c := s.op (.copy ((p.length.toNat + 7) / 8))

def checkPrefix (last new : Option Prefix) (s : State c) : State c :=
  match last, new with
  | none, none => s
  | some last, none => setIpFromPrefix last s
  | none, some new => setIpFromPrefix new s
  | some last, some new =>
    if last.length = new.length then
      let s := s.op (.compare (new.length.toNat / 8))
      if (List.ofFn last.prefixAddr).take (new.length.toNat / 8) =
          (List.ofFn new.prefixAddr).take (new.length.toNat / 8) ∧ last.flags = new.flags then s
      else setIpFromPrefix new (setIpFromPrefix last s)
    else setIpFromPrefix new (setIpFromPrefix last s)

def setPrefix (d : c.DagIdx) (prefixAddr : IpAddr) (len : UInt8) (s : State c) : State c :=
  let last := (s.dag d).prefixInfo
  if 128 < len then s
  else
    let new : Prefix := ⟨fun i => if i.val < (len.toNat + 7) / 8 then prefixAddr i else 0, len, autonomous⟩
    let s := (s.op (.copy ((len.toNat + 7) / 8))).modifyDag d fun dag => { dag with prefixInfo := new }
    if last.length = 0 then checkPrefix none (some new) s else checkPrefix (some last) (some new) s

/-! ### Parents -/

def setPreferredParent (d : c.DagIdx) (p : Option c.Nbr) (s : State c) : State c :=
  s.modifyDag d fun dag => { dag with preferredParent := p }

/-- `rpl_nullify_parent`. Only a DAG that is joined lets go of it. -/
def nullifyParent (p : c.Nbr) (s : State c) : State c :=
  let d := (s.parent p).dag
  let preferred := (s.dag d).preferredParent
  if preferred = some p ∨ preferred = none then
    let s := s.modifyDag d fun dag => { dag with rank := infiniteRank }
    if (s.dag d).joined ∧ preferred = some p then setPreferredParent d none s else s
  else s

def removeParent (p : c.Nbr) (s : State c) : State c :=
  let s := nullifyParent p s
  { s with used := Function.update s.used p false }

/-- The loops over `rpl_parents`. -/
def forParents (f : c.Nbr → State c → State c) (s : State c) : State c :=
  s.keys.foldl (fun s p => if s.used p then f p s else s) s

def removeParents (d : c.DagIdx) (minimumRank : UInt16) : State c → State c :=
  forParents fun p s => if d = (s.parent p).dag ∧ minimumRank ≤ (s.parent p).rank then removeParent p s else s

def nullifyParents (d : c.DagIdx) (minimumRank : UInt16) : State c → State c :=
  forParents fun p s => if d = (s.parent p).dag ∧ minimumRank ≤ (s.parent p).rank then nullifyParent p s else s

def moveParent (src dst : c.DagIdx) (p : c.Nbr) (s : State c) : State c :=
  let s := if (s.dag src).preferredParent = some p then
    (setPreferredParent src none s).modifyDag src fun dag => { dag with rank := infiniteRank } else s
  s.modifyParent p fun parent => { parent with dag := dst }

/-- `rpl_add_parent` for a neighbor with a link-layer address; the entry is cleared. -/
def addParent (d : c.DagIdx) (rank : UInt16) (dtsn : UInt8) (p : c.Nbr) (s : State c) : State c :=
  { s.modifyParent p fun _ => ⟨d, rank, dtsn, false⟩ with used := Function.update s.used p true }

/-- The parents that `best_parent` of `rpl-dag.c` compares. -/
def candidate (d : c.DagIdx) (freshOnly : Bool) (s : State c) (p : c.Nbr) : Bool :=
  s.used p && decide ((s.parent p).dag = d) && decide ((s.parent p).rank ≠ infiniteRank) &&
    decide (s.rootRank ≤ (s.parent p).rank) && (!freshOnly || s.fresh p) && s.reachable p

def bestParent (d : c.DagIdx) (freshOnly : Bool) (s : State c) : Option c.Nbr :=
  (s.keys.filter (candidate d freshOnly s)).foldl (fun best p => s.inst.of.bestParent s best p) none

/-- The choice of `rpl_select_parent`: with probing, a fresh parent if there is one. -/
def chooseParent (d : c.DagIdx) (s : State c) : Option c.Nbr :=
  match bestParent d false s with
  | none => none
  | some best =>
    if c.withProbing && !s.fresh best then
      match bestParent d true s with
      | none => some best
      | some bestFresh => some bestFresh
    else some best

def selectParent (d : c.DagIdx) (s : State c) : Option c.Nbr × State c :=
  let p := chooseParent d s
  let s := setPreferredParent d p s
  (p, s.modifyDag d fun dag => { dag with rank := rankViaParent s p })

def acceptableRank (d : c.DagIdx) (rank : UInt16) (s : State c) : Bool × State c :=
  let inc := s.inst.minHoprankinc.toNat
  if rank = infiniteRank then (false, s)
  else if s.inst.maxRankinc = 0 then (true, s)
  else
    (decide (rank.toNat / inc ≤ ((s.dag d).minRank.toNat + s.inst.maxRankinc.toNat) / inc),
      (s.op (.divide inc)).op (.divide inc))

end CSync.RplDag
