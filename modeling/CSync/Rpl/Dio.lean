import CSync.Rpl.Dag

/-! DIOs, and what else moves a node in its DAGs (`rpl-dag.c`, `rpl.c`). -/

namespace CSync.RplDag
open Function

/-- `rpl_dio_t`. -/
structure Dio where
  dagId : IpAddr
  ocp : UInt16
  rank : UInt16
  grounded : UInt8
  mop : UInt8
  preference : UInt8
  version : UInt8
  instanceId : UInt8
  dtsn : UInt8
  dagIntdoubl : UInt8
  dagIntmin : UInt8
  dagRedund : UInt8
  defaultLifetime : UInt8
  lifetimeUnit : UInt16
  dagMaxRankinc : UInt16
  dagMinHoprankinc : UInt16
  prefixInfo : Prefix

variable {c : Config}

def lollipopGreaterThan (a b : UInt8) : Bool :=
  let a := a.toNat
  let b := b.toNat
  if 127 < a ∧ b ≤ 127 then decide (16 < 256 + b - a)
  else decide (b < a ∧ a - b < 16) || decide (a < b ∧ 112 < b - a)

/-- `RPL_LOLLIPOP_INIT` and `RPL_LOLLIPOP_INCREMENT`. -/
def lollipopInit : UInt8 := 240
def lollipopIncrement (counter : UInt8) : UInt8 :=
  if 127 < counter then (counter + 1) &&& 255 else (counter + 1) &&& 127

/-- `RPL_LOLLIPOP_INCREMENT` of `dtsn_out`. -/
def incrementDtsn (s : State c) : State c :=
  { s with inst := { s.inst with dtsnOut := lollipopIncrement s.inst.dtsnOut } }

/-! ### The preferred DAG -/

/-- The DAGs of the table, in its order. -/
def dags (c : Config) : List c.DagIdx := List.finRange c.maxDags

/-- The DAG that `rpl_select_dag` falls back to. -/
def fallbackDag (s : State c) : Option c.DagIdx :=
  ((dags c).filter fun d => (s.dag d).used && (match (s.dag d).preferredParent with
    | none => false
    | some p => decide ((s.parent p).rank ≠ infiniteRank))).foldl (fun best d => match best with
      | none => some d
      | some b => some (bestDag s b d)) none

/-- The choice of `rpl_select_dag`. -/
def chooseDag (p : c.Nbr) (s : State c) : Option c.DagIdx × State c :=
  let best := s.inst.currentDag
  if (s.dag best).rank ≠ s.rootRank then
    let d := (s.parent p).dag
    match selectParent d s with
    | (some _, s) => (some (if d ≠ best then bestDag s best d else best), s)
    | (none, s) => (if d = best then fallbackDag s else some best, s)
  else (some best, s)

/-- The move to another DAG. -/
def switchDag (best : c.DagIdx) (s : State c) : State c :=
  if s.inst.currentDag ≠ best then
    let last := s.current.prefixInfo
    let new := (s.dag best).prefixInfo
    let s := if new.flags &&& autonomous ≠ 0 then checkPrefix (some last) (some new) s
      else if last.flags &&& autonomous ≠ 0 then checkPrefix (some last) none s else s
    let s := s.modifyDag best fun dag => { dag with joined := true }
    let s := s.modifyDag s.inst.currentDag fun dag => { dag with joined := false }
    { s with inst := { s.inst with currentDag := best } }
  else s

def updateRank (best : c.DagIdx) (last : Option c.Nbr) (s : State c) : State c :=
  let rank := rankViaParent s (s.dag best).preferredParent
  s.modifyDag best fun dag => { dag with
    rank := rank, minRank := if last = none ∨ rank < dag.minRank then rank else dag.minRank }

def selectDag (p : c.Nbr) (s : State c) : Option c.DagIdx × State c :=
  let last := s.current.preferredParent
  match chooseDag p s with
  | (none, s) => (none, s)
  | (some best, s) =>
    let s := updateRank best last (switchDag best s)
    match acceptableRank best (s.dag best).rank s with
    | (false, s) => (none, setPreferredParent s.inst.currentDag none s)
    | (true, s) =>
      if (s.dag best).preferredParent ≠ last then
        (some best, resetDioTimer (scheduleDao true (if s.isStoring then incrementDtsn s else s)))
      else (some best, s)

/-! ### Repairs -/

def localRepair (s : State c) : State c :=
  let s := (dags c).foldl (fun s d => if (s.dag d).used then
    nullifyParents d 0 (s.modifyDag d fun dag => { dag with rank := infiniteRank }) else s) s
  let s := resetDioTimer s
  if s.isStoring then incrementDtsn s else s

def processParentEvent (p : c.Nbr) (s : State c) : Bool × State c :=
  let last := s.current.preferredParent
  let select (result : Bool) (s : State c) : Bool × State c :=
    match selectDag p s with
    | (some _, s) => (result, s)
    | (none, s) => if last ≠ none then (false, localRepair s) else (result, s)
  match acceptableRank (s.parent p).dag (s.parent p).rank s with
  | (true, s) => select true s
  | (false, s) =>
    let s := nullifyParent p s
    if some p ≠ s.current.preferredParent then (false, s) else select false s

/-- The end of `rpl_process_parent_event`, behind `rpl_select_dag`. -/
def afterSelect (last : Option c.Nbr) (result : Bool) : Option c.DagIdx × State c → Bool × State c
  | (some _, s) => (result, s)
  | (none, s) => if last ≠ none then (false, localRepair s) else (result, s)

theorem processParentEvent_eq (p : c.Nbr) (s : State c) : processParentEvent p s =
    if (acceptableRank (s.parent p).dag (s.parent p).rank s).1 then
      afterSelect s.current.preferredParent true (selectDag p (acceptableRank (s.parent p).dag (s.parent p).rank s).2)
    else
      let t := nullifyParent p (acceptableRank (s.parent p).dag (s.parent p).rank s).2
      if some p ≠ t.current.preferredParent then (false, t)
      else afterSelect s.current.preferredParent false (selectDag p t) := by
  rw [processParentEvent]
  generalize acceptableRank (s.parent p).dag (s.parent p).rank s = accepted
  rcases accepted with ⟨_ | _, t⟩
  · rfl
  · rfl

def recalculateRanks : State c → State c :=
  forParents fun p s =>
    if (s.parent p).updated then
      (processParentEvent p (s.modifyParent p fun parent => { parent with updated := false })).2
    else s

/-- What `global_repair` takes over from the DIO. -/
def repairConfiguration (dio : Dio) (s : State c) : State c :=
  { s with inst := { s.inst with
    dioIntdoubl := dio.dagIntdoubl
    dioIntmin := dio.dagIntmin
    dioRedundancy := dio.dagRedund
    defaultLifetime := dio.defaultLifetime
    lifetimeUnit := dio.lifetimeUnit } }

/-- `global_repair`; `known` is whether the sender has a link-layer address. -/
def globalRepair (src : c.Nbr) (known : Bool) (d : c.DagIdx) (dio : Dio) (s : State c) : State c :=
  let s := repairConfiguration dio ((removeParents d 0 s).modifyDag d fun dag => { dag with version := dio.version })
  let s := incrementDtsn (s.modifyDag d fun dag => { dag with minRank := infiniteRank })
  if known then
    let s := addParent d dio.rank dio.dtsn src s
    let rank := rankViaParent s (some src)
    (processParentEvent src (s.modifyDag d fun dag => { dag with rank := rank, minRank := rank })).2
  else s.modifyDag d fun dag => { dag with rank := infiniteRank }

/-! ### New DAGs -/

/-- The first block of the table that is not used. -/
def freeDag (s : State c) : Option c.DagIdx := (dags c).find? fun d => !(s.dag d).used

def emptyPrefix : Prefix := ⟨fun _ => 0, 0, 0⟩

/-- `rpl_alloc_dag` for an instance that there is. -/
def allocDag (s : State c) : Option c.DagIdx × State c :=
  match freeDag s with
  | none => (none, s)
  | some d => (some d, s.modifyDag d fun _ =>
      ⟨fun _ => 0, infiniteRank, 0, 0, 0, true, false, none, infiniteRank, emptyPrefix, 0⟩)

/-- `rpl_alloc_instance`; with the instance, its table of DAGs is cleared. -/
def allocInstance (instanceId : UInt8) (s : State c) : State c :=
  { s with
    inst := ⟨true, instanceId, s.inst.of, s.inst.currentDag, 0, 0, 0, 0, 0, 0, false, 0, 0, 0, 0, 0, false, false⟩
    dag := fun _ => ⟨fun _ => 0, 0, 0, 0, 0, false, false, none, 0, emptyPrefix, 0⟩ }

/-- The rank and the lowest rank of a DAG that is new, with its first parent. -/
def firstParent (d : c.DagIdx) (p : c.Nbr) (s : State c) : State c :=
  let s := setPreferredParent d (some p) s
  let rank := rankViaParent s (some p)
  s.modifyDag d fun dag => { dag with rank := rank, minRank := rank }

/-- What `rpl_join_instance` takes over from the DIO. -/
def joinConfiguration (of : Of) (d : c.DagIdx) (dio : Dio) (s : State c) : State c :=
  { s with inst := { s.inst with
    of := of
    mop := dio.mop
    currentDag := d
    dtsnOut := lollipopInit
    maxRankinc := dio.dagMaxRankinc
    minHoprankinc := dio.dagMinHoprankinc
    dioIntdoubl := dio.dagIntdoubl
    dioIntmin := dio.dagIntmin
    dioIntcurrent := dio.dagIntmin + dio.dagIntdoubl
    dioRedundancy := dio.dagRedund
    defaultLifetime := dio.defaultLifetime
    lifetimeUnit := dio.lifetimeUnit } }

/-- `rpl_join_instance`, behind the neighbor cache. -/
def joinInstance (src : c.Nbr) (dio : Dio) (s : State c) : State c :=
  match c.findOf dio.ocp with
  | none => s
  | some of =>
    match allocDag (allocInstance dio.instanceId s) with
    | (none, s) => s
    | (some d, s) =>
      let s := addParent d dio.rank dio.dtsn src s
      let s := if dio.prefixInfo.flags &&& autonomous ≠ 0 then checkPrefix none (some dio.prefixInfo) s else s
      let s := s.modifyDag d fun dag => { dag with
        joined := true
        preference := dio.preference
        grounded := dio.grounded
        version := dio.version
        dagId := dio.dagId
        prefixInfo := dio.prefixInfo }
      let s := joinConfiguration of d dio s
      let s := resetDioTimer (firstParent d src s)
      if dio.mop ≠ 0 then scheduleDao true s else s

/-- Whether the configuration in a DIO is that of the instance. -/
def sameConfiguration (dio : Dio) (s : State c) : Bool :=
  decide (c.findOf dio.ocp = some s.inst.of) && decide (s.inst.mop = dio.mop) &&
    decide (s.inst.maxRankinc = dio.dagMaxRankinc) && decide (s.inst.minHoprankinc = dio.dagMinHoprankinc) &&
    decide (s.inst.dioIntdoubl = dio.dagIntdoubl) && decide (s.inst.dioIntmin = dio.dagIntmin) &&
    decide (s.inst.dioRedundancy = dio.dagRedund) && decide (s.inst.defaultLifetime = dio.defaultLifetime) &&
    decide (s.inst.lifetimeUnit = dio.lifetimeUnit)

/-- The sender becomes a parent in a DAG: a new one, or one that comes from another DAG. -/
def adoptParent (d : c.DagIdx) (src : c.Nbr) (dio : Dio) (s : State c) : State c :=
  if s.used src then moveParent (s.parent src).dag d src s else addParent d dio.rank dio.dtsn src s

def addDag (src : c.Nbr) (dio : Dio) (s : State c) : Option c.DagIdx × State c :=
  match allocDag s with
  | (none, s) => (none, s)
  | (some d, s) =>
    let s := (adoptParent d src dio s).modifyParent src fun parent => { parent with rank := dio.rank }
    if sameConfiguration dio s then
      let s := s.modifyDag d fun dag => { dag with
        used := true
        grounded := dio.grounded
        preference := dio.preference
        version := dio.version
        dagId := dio.dagId
        prefixInfo := dio.prefixInfo }
      let s := (processParentEvent src (firstParent d src s)).2
      (some d, s.modifyParent src fun parent => { parent with dtsn := dio.dtsn })
    else (none, (removeParent src s).modifyDag d fun dag => { dag with used := false })

/-! ### DIOs -/

def getDag (dio : Dio) (s : State c) : Option c.DagIdx :=
  if s.inst.used && s.inst.instanceId == dio.instanceId then
    (dags c).find? fun d => (s.dag d).used && decide ((s.dag d).dagId = dio.dagId)
  else none

/-- What the neighbor cache does with the sender: it has it, it takes it up, maybe in place of another neighbor, or it
    has no room. -/
inductive Cached where
  | known
  | added
  | replaced
  | full
deriving DecidableEq

/-- `nbr_callback`, and the end of the key. -/
def removeNeighbor (p : c.Nbr) (s : State c) : State c :=
  let s := if s.used p then removeParent p s else s
  { s with
    keys := s.keys.erase p
    used := update s.used p false
    etx := update s.etx p none
    fresh := update s.fresh p false }

def addNbrFromDio (src : c.Nbr) : Cached → State c → State c
  | .known, s => s
  | .added, s => { s with keys := s.keys ++ [src] }
  | .replaced, s => { removeNeighbor src s with keys := (removeNeighbor src s).keys ++ [src] }
  | .full, s => s

def refreshLifetime (d : c.DagIdx) (s : State c) : State c :=
  let amount := s.inst.dioIntmin.toNat + s.inst.dioIntdoubl.toNat
  let time : UInt32 := if amount < 32 then UInt32.ofNat (2 ^ amount) else 0
  (s.op (.shift amount)).modifyDag d fun dag => { dag with lifetime := time * c.dagLifetime / 1000 }

/-- The part of `rpl_process_dio` for a DAG that the node is part of. -/
def processCandidate (src : c.Nbr) (d : c.DagIdx) (dio : Dio) (s : State c) : State c :=
  let s := refreshLifetime d s
  let s := if s.used src ∧ (s.parent src).dag = d then s else adoptParent d src dio s
  let s := s.modifyParent src fun parent => { parent with rank := dio.rank }
  let s := if dio.rank = infiniteRank ∧ (s.dag d).preferredParent = some src then resetDioTimer s else s
  let s := s.modifyParent src fun parent => { parent with updated := true }
  match processParentEvent src s with
  | (false, s) => s
  | (true, s) =>
    let refresh := (s.dag d).joined ∧ (s.dag d).preferredParent = some src ∧ s.inst.mop ≠ 0 ∧
      s.current.preferredParent = some src ∧ lollipopGreaterThan dio.dtsn (s.parent src).dtsn
    let s := if refresh then scheduleDao true (incrementDtsn s) else s
    s.modifyParent src fun parent => { parent with dtsn := dio.dtsn }

def announcePrefix (d : c.DagIdx) (dio : Dio) (s : State c) : State c :=
  if dio.prefixInfo.length ≠ 0 ∧ dio.prefixInfo.flags &&& autonomous ≠ 0 then
    setPrefix d dio.prefixInfo.prefixAddr dio.prefixInfo.length s
  else s

/-- The part of `rpl_process_dio` behind the lookup of the DAG; `cached` is what the neighbor cache does now. -/
def processKnownDag (src : c.Nbr) (cached : Cached) (d : c.DagIdx) (dio : Dio) (s : State c) : State c :=
  if dio.rank < s.rootRank then s
  else
    let s := announcePrefix d dio s
    if cached = .full then s
    else
      let s := addNbrFromDio src cached s
      if (s.dag d).rank = s.rootRank then s else processCandidate src d dio s

/-- The part of `rpl_process_dio` for versions that agree, or for a DAG that is not known. -/
def processVersion (src : c.Nbr) (cached : Cached) (dag : Option c.DagIdx) (dio : Dio) (s : State c) : State c :=
  if s.inst.used = false ∨ s.inst.instanceId ≠ dio.instanceId then
    -- an instance that is not known has no room beside another one
    if cached = .full then s
    else
      let s := addNbrFromDio src cached s
      if s.inst.used then s else joinInstance src dio s
  else if s.current.rank = s.rootRank ∧ some s.inst.currentDag ≠ dag then s
  else
    match dag with
    | some d => processKnownDag src cached d dio s
    | none =>
      if c.maxDags ≤ 1 then s
      else if cached = .full then s
      else
        match addDag src dio (addNbrFromDio src cached s) with
        | (none, s) => s
        | (some d, s) => processKnownDag src .known d dio s

def processDio (src : c.Nbr) (cached : Cached) (dio : Dio) (s : State c) : State c :=
  if dio.mop ≠ c.mopDefault then s
  else
    match getDag dio s with
    | none => processVersion src cached none dio s
    | some d =>
      if lollipopGreaterThan dio.version (s.dag d).version then
        if (s.dag d).rank = s.rootRank then
          resetDioTimer (s.modifyDag d fun dag => { dag with version := lollipopIncrement dio.version })
        else globalRepair src (decide (cached = .known)) d dio (announcePrefix d dio s)
      else if lollipopGreaterThan (s.dag d).version dio.version && (s.dag d).joined then resetDioTimer s
      else processVersion src cached (some d) dio s

/-! ### Runs -/

/-- `rpl_purge_dags`. A DAG that is not joined leaves its parents behind. -/
def purgeDags (s : State c) : State c :=
  { s with dag := fun d =>
      if (s.dag d).used then
        if (s.dag d).lifetime = 0 then if (s.dag d).joined then s.dag d else { s.dag d with used := false }
        else { s.dag d with lifetime := (s.dag d).lifetime - 1 }
      else s.dag d }

def loopParent (p : c.Nbr) : State c → State c :=
  State.modifyParent p fun parent => { parent with rank := infiniteRank, updated := true }

/-- A DAO from a parent of a lower rank, or from the preferred one, shows a loop. -/
def daoLoop (src : c.Nbr) (s : State c) : Bool :=
  let inc := s.inst.minHoprankinc.toNat
  decide ((s.parent src).rank.toNat / inc < s.current.rank.toNat / inc) ||
    decide (s.current.preferredParent = some src)

/-- The check for a loop in `dao_input_storing`. -/
def checkDaoLoop (src : c.Nbr) (s : State c) : State c :=
  if s.used src ∧ (s.parent src).dag = s.inst.currentDag then
    let inc := s.inst.minHoprankinc.toNat
    let t := (s.op (.divide inc)).op (.divide inc)
    if daoLoop src s then loopParent src t else t
  else s

/-- `rpl_link_neighbor_callback`; link statistics also change without it. -/
def linkNeighborCallback (p : c.Nbr) (s : State c) : State c :=
  if s.used p then s.modifyParent p fun parent => { parent with updated := true } else s

def ipv6NeighborCallback (p : c.Nbr) (s : State c) : State c := if s.used p then loopParent p s else s

/-- What happens to a node: a DIO comes in; a neighbor goes; link statistics or the state of a neighbor change;
    ranks are calculated again; the instance is repaired; old DAGs are removed; a DAO comes in; the DIO timer is reset
    because of a DIS or an inconsistency; timers fire; DAOs are scheduled; the mode changes. -/
inductive Event (c : Config) where
  | dio (src : c.Nbr) (cached : Cached) (dio : Dio)
  | removeNeighbor (p : c.Nbr)
  | linkStats (p : c.Nbr) (etx : Option UInt16) (fresh callback : Bool)
  | neighborState (p : c.Nbr) (reachable : Bool)
  | recalculateRanks
  | localRepair
  | purgeDags
  | dao (src : c.Nbr)
  | resetDioTimer
  | dioTimer (linkLocal : Bool)
  | daoTimer (linkLocal lifetime : Bool)
  | scheduleDao (delayed : Bool)
  | setMode (feather : Bool)

/-- A sender is known to the neighbor table, or takes a key that is free, or one of another neighbor. -/
def Cached.fits (cached : Cached) (src : c.Nbr) (s : State c) : Bool :=
  match cached with
  | .known | .replaced => decide (src ∈ s.keys)
  | .added => decide (src ∉ s.keys)
  | .full => true

/-- All but DIOs and what concerns neighbors needs an instance. -/
def step (s : State c) : Event c → Option (State c)
  | .dio src cached dio => if cached.fits src s then some (processDio src cached dio s) else none
  | .removeNeighbor p => if p ∈ s.keys then some (removeNeighbor p s) else none
  | .linkStats p etx fresh callback =>
    if p ∈ s.keys then
      let t := { s with etx := update s.etx p etx, fresh := update s.fresh p fresh }
      some (if callback then linkNeighborCallback p t else t)
    else none
  | .neighborState p reachable =>
    some (ipv6NeighborCallback p { s with reachable := update s.reachable p reachable })
  | .setMode feather => some { s with feather := feather }
  | .recalculateRanks => if s.inst.used then some (recalculateRanks s) else none
  | .localRepair => if s.inst.used then some (localRepair s) else none
  | .purgeDags => if s.inst.used then some (purgeDags s) else none
  | .dao src => if s.inst.used ∧ s.isStoring then some (checkDaoLoop src s) else none
  | .resetDioTimer => if s.inst.used then some (resetDioTimer s) else none
  | .dioTimer linkLocal => if s.inst.used then some (handleDioTimer linkLocal s) else none
  | .daoTimer linkLocal lifetime => if s.inst.used then some (handleDaoTimer linkLocal lifetime s) else none
  | .scheduleDao delayed => if s.inst.used then some (scheduleDao delayed s) else none

/-- The start; `d` stands in memory that was not used yet. -/
def init (c : Config) (d : c.DagIdx) (random : Nat → UInt16) : State c where
  keys := []
  used _ := false
  parent _ := ⟨d, 0, 0, false⟩
  etx _ := none
  fresh _ := false
  reachable _ := true
  inst := ⟨false, 0, .mrhof, d, 0, 0, 0, 0, 0, 0, false, 0, 0, 0, 0, 0, false, false⟩
  dag _ := ⟨fun _ => 0, 0, 0, 0, 0, false, false, none, 0, emptyPrefix, 0⟩
  feather := false
  dioSendOk := false
  random := random
  ops := []

end CSync.RplDag
