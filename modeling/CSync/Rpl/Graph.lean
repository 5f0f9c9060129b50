import CSync.Lib.Parents
import CSync.Lib.Pool
import CSync.Lib.Run

/-! The topology that a root of non-storing mode keeps (`rpl-ns.c`).

    Nodes are blocks of a pool on a list. A node stores the identifier of its link, the prefix is that of the
    DAG. Updates come with the addresses of a child and a parent, and create the nodes that are not there. -/

namespace CSync

/-- `uip_ipaddr_t`. -/
abbrev IpAddr := Fin 16 → UInt8

/-- The prefix of an address, and the identifier of its link. -/
def IpAddr.prefix64 (a : IpAddr) : Fin 8 → UInt8 := fun i => a (i.castLE (by decide))
def IpAddr.linkIdentifier (a : IpAddr) : Fin 8 → UInt8 := fun i => a (i.natAdd 8)

namespace RplNs

/-- The DAGs and their ids, and `RPL_NS_LINK_NUM`. -/
structure Config where
  Dag : Type
  decEq : DecidableEq Dag
  dagId : Dag → IpAddr
  linkNum : Nat

instance (c : Config) : DecidableEq c.Dag := c.decEq

/-- `rpl_ns_node_t`. -/
structure Node (c : Config) where
  lifetime : UInt32
  dag : c.Dag
  linkIdentifier : Fin 8 → UInt8
  parent : Option (Fin c.linkNum)

/-- `nodememb`, `nodelist` and `num_nodes`. -/
structure State (c : Config) where
  nodememb : Lib.Pool c.linkNum (Node c)
  nodelist : List (Fin c.linkNum)
  numNodes : Int

variable {c : Config}

def State.node (s : State c) (l : Fin c.linkNum) : Node c := s.nodememb.mem l
def State.parent (s : State c) (l : Fin c.linkNum) : Option (Fin c.linkNum) := (s.node l).parent

/-- The parts of a node that its address is compared with. -/
def State.key (s : State c) (l : Fin c.linkNum) : c.Dag × (Fin 8 → UInt8) :=
  ((s.node l).dag, (s.node l).linkIdentifier)

def nodeMatchesAddress (s : State c) (dag : c.Dag) (l : Fin c.linkNum) (addr : IpAddr) : Bool :=
  decide (dag = (s.node l).dag) && decide (addr.prefix64 = (c.dagId (s.node l).dag).prefix64) &&
    decide (addr.linkIdentifier = (s.node l).linkIdentifier)

/-- `rpl_ns_get_node`. -/
def getNode (s : State c) (dag : c.Dag) (addr : IpAddr) : Option (Fin c.linkNum) :=
  s.nodelist.find? fun l => nodeMatchesAddress s dag l addr

/-- `rpl_ns_is_node_reachable`. -/
def isNodeReachable (s : State c) (dag : c.Dag) (addr : IpAddr) : Bool :=
  match getNode s dag (c.dagId dag) with
  | none => false
  | some root => Lib.climbs s.parent root c.linkNum (getNode s dag addr)

/-! ### Updates -/

def modifyNode (l : Fin c.linkNum) (f : Node c → Node c) (s : State c) : State c :=
  { s with nodememb := s.nodememb.modify l f }

def setParent (l : Fin c.linkNum) (parent : Option (Fin c.linkNum)) (s : State c) : State c :=
  modifyNode l (fun n => { n with parent := parent }) s

/-- `rpl_ns_expire_parent`; the delay is `RPL_NOPATH_REMOVAL_DELAY`. -/
def expireParent (dag : c.Dag) (child parent : IpAddr) (s : State c) : State c :=
  match getNode s dag child with
  | none => s
  | some l =>
    match s.parent l with
    | none => s
    | some p =>
      if nodeMatchesAddress s dag p parent then modifyNode l (fun n => { n with lifetime := 60 }) s else s

/-- The node of a child that has none: `memb_alloc`, `list_add`. -/
def addNode (s : State c) : Option (Fin c.linkNum) × State c :=
  match s.nodememb.alloc with
  | (none, _) => (none, s)
  | (some l, nodememb) =>
    (some l, { setParent l none { s with nodememb := nodememb } with
      nodelist := s.nodelist.erase l ++ [l]
      numNodes := s.numNodes + 1 })

/-- The end of `rpl_ns_update_node`: the new parent, unless it cuts off a node that is reachable. -/
def linkNode (dag : c.Dag) (child : IpAddr) (l : Fin c.linkNum) (parentNode : Option (Fin c.linkNum))
    (s : State c) : State c :=
  if isNodeReachable s dag child then
    if isNodeReachable (setParent l parentNode s) dag child then setParent l parentNode s
    else setParent l (s.parent l) (setParent l parentNode s)
  else setParent l parentNode s

/-- The initialization of a node, and its parent. -/
def initNode (dag : c.Dag) (child : IpAddr) (l : Fin c.linkNum) (parentNode : Option (Fin c.linkNum))
    (lifetime : UInt32) (s : State c) : State c :=
  linkNode dag child l parentNode (modifyNode l
    (fun n => { n with dag := dag, lifetime := lifetime, linkIdentifier := child.linkIdentifier }) s)

/-- `rpl_ns_update_node` behind the lookups. -/
def updateFound (dag : c.Dag) (child : IpAddr) (childNode parentNode : Option (Fin c.linkNum))
    (lifetime : UInt32) (s : State c) : Option (Fin c.linkNum) × State c :=
  match childNode with
  | some l => (some l, initNode dag child l parentNode lifetime s)
  | none =>
    match addNode s with
    | (none, s) => (none, s)
    | (some l, s) => (some l, initNode dag child l parentNode lifetime s)

/-- `rpl_ns_update_node`. The child is looked up before a node for the parent is added. -/
def updateNode (dag : c.Dag) (child : IpAddr) (parent : Option IpAddr) (lifetime : UInt32) (s : State c) :
    Option (Fin c.linkNum) × State c :=
  match parent with
  | none => updateFound dag child (getNode s dag child) none lifetime s
  | some p =>
    match getNode s dag p with
    | some parentNode => updateFound dag child (getNode s dag child) (some parentNode) lifetime s
    | none =>
      match updateFound dag p none none 0xffffffff s with
      | (none, s') => (none, s')
      | (some parentNode, s') => updateFound dag child (getNode s dag child) (some parentNode) lifetime s'

/-- The first pass of `rpl_ns_periodic`. -/
def age (s : State c) : State c :=
  { s with nodememb := { s.nodememb with mem := fun l =>
      if l ∈ s.nodelist ∧ (s.node l).lifetime ≠ 0xffffffff ∧ 0 < (s.node l).lifetime
      then { s.node l with lifetime := (s.node l).lifetime - 1 } else s.node l } }

/-- The node that the second pass removes. `list_remove` clears its link, so that the pass ends there. -/
def expired (s : State c) : Option (Fin c.linkNum) :=
  s.nodelist.find? fun l => ((age s).node l).lifetime = 0

/-- `rpl_ns_periodic`. -/
def periodic (s : State c) : State c :=
  match expired s with
  | none => age s
  | some l =>
    { age s with
      nodelist := s.nodelist.erase l
      nodememb := (age s).nodememb.free l
      numNodes := s.numNodes - 1 }

inductive Event (c : Config) where
  | updateNode (dag : c.Dag) (child : IpAddr) (parent : Option IpAddr) (lifetime : UInt32)
  | expireParent (dag : c.Dag) (child parent : IpAddr)
  | periodic

def step (s : State c) : Event c → Option (State c)
  | .updateNode dag child parent lifetime => some (updateNode dag child parent lifetime s).2
  | .expireParent dag child parent => some (expireParent dag child parent s)
  | .periodic => some (periodic s)

/-- `rpl_ns_init`; `dag` stands in blocks that were not used yet. -/
def init (c : Config) (dag : c.Dag) : State c := ⟨Lib.Pool.init ⟨0, dag, fun _ => 0, none⟩, [], 0⟩

end RplNs

end CSync
