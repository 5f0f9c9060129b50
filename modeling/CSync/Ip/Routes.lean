import CSync.Rpl.DaoAck

/-! The route table of IPv6 (`core/net/ipv6/uip-ds6-route.c`).

    A route is a block of `routememb` on `routelist`. It belongs to a neighbour, its next hop: the neighbour's entry in
    the table `nbr_routes` has a list of blocks of `neighborroutememb`, one for each of its routes. Of the neighbour
    tables (`nbr-table.c`) this is what `nbr_routes` sees: a slot for each neighbour, with an address, and the bits
    that say whether the table uses and locks it. Which slot a new neighbour gets is decided there. -/

namespace CSync.Routes
open RplDao (prefixcmp)

/-- `uip_ds6_route_t`, one of `M`, for `N` neighbours. -/
structure Route (N : Nat) where
  neighborRoutes : Option (Fin N)
  ipaddr : IpAddr
  length : UInt8

/-- A neighbour in the tables, and its entry in `nbr_routes`. -/
structure Neighbor (A : Type) (M : Nat) where
  present : Bool
  lladdr : A
  used : Bool
  locked : Bool
  routeList : List (Fin M)

/-- The neighbour cache: `uip_ds6_nbr_lladdr_from_ipaddr` and `uip_ds6_nbr_ipaddr_from_lladdr`, which look at the same
    entries. -/
structure Cache (A : Type) where
  lladdr : IpAddr → Option A
  ipaddr : A → Option IpAddr
  consistent : ∀ {h : IpAddr} {a : A}, lladdr h = some a → ipaddr a = some h

/-- The pools and lists; a block of `neighborroutememb` holds its route. -/
structure State (A : Type) (N M : Nat) where
  routememb : Lib.Pool M (Route N)
  routelist : List (Fin M)
  neighborroutememb : Lib.Pool M (Option (Fin M))
  numRoutes : Int
  nbr : Fin N → Neighbor A M

section Functions

variable {A : Type} {N M : Nat} [DecidableEq A]

/-- The entry of a neighbour changes. -/
def State.setNbr (s : State A N M) (i : Fin N) (f : Neighbor A M → Neighbor A M) : State A N M :=
  { s with nbr := Function.update s.nbr i (f (s.nbr i)) }

/-- The loop of `uip_ds6_route_lookup`. -/
def lookupLoop (s : State A N M) (addr : IpAddr) : List (Fin M) → UInt8 → Option (Fin M) → Option (Fin M)
  | [], _, found => found
  | r :: rs, longestmatch, found =>
    let route := s.routememb.mem r
    if longestmatch ≤ route.length ∧ prefixcmp addr route.ipaddr route.length = true then
      if route.length = 128 then some r else lookupLoop s addr rs route.length (some r)
    else lookupLoop s addr rs longestmatch found

/-- `uip_ds6_route_lookup`. What is found comes to the front of the list. -/
def lookup (s : State A N M) (addr : IpAddr) : Option (Fin M) × State A N M :=
  match lookupLoop s addr s.routelist 0 none with
  | none => (none, s)
  | some r => (some r, if s.routelist.head? = some r then s else { s with routelist := r :: s.routelist.erase r })

/-- `uip_ds6_route_nexthop`; without a neighbour it is asked for `linkaddr_null`. -/
def nexthop (null : A) (cache : Cache A) (s : State A N M) (r : Fin M) : Option IpAddr :=
  cache.ipaddr (((s.routememb.mem r).neighborRoutes.map fun i => (s.nbr i).lladdr).getD null)

def nbrTableRemove (s : State A N M) (i : Fin N) : State A N M :=
  s.setNbr i fun n => { n with used := false, locked := false }

def indexFromLladdr (s : State A N M) (a : A) : Option (Fin N) :=
  (List.finRange N).find? fun i => (s.nbr i).present && decide ((s.nbr i).lladdr = a)

def nbrTableGetFromLladdr (s : State A N M) (a : A) : Option (Fin N) :=
  (indexFromLladdr s a).filter fun i => (s.nbr i).used

/-! ### Removal -/

/-- A neighbour loses the entry for a route; without routes it is removed from the table. -/
def detach (s : State A N M) (i : Fin N) (nr : Option (Fin M)) : State A N M :=
  let list := match nr with
    | none => (s.nbr i).routeList
    | some nr => (s.nbr i).routeList.erase nr
  let s := s.setNbr i fun n => { n with routeList := list }
  if list = [] then nbrTableRemove s i else s

def routeRm (s : State A N M) (r : Fin M) : State A N M :=
  match (s.routememb.mem r).neighborRoutes with
  | none => s
  | some i =>
    let nr := (s.nbr i).routeList.find? fun nr => decide (s.neighborroutememb.mem nr = some r)
    let s := detach { s with routelist := s.routelist.erase r } i nr
    { s with
      routememb := s.routememb.free r
      neighborroutememb := match nr with
        | none => s.neighborroutememb
        | some nr => s.neighborroutememb.free nr
      numRoutes := s.numRoutes - 1 }

/-- The loop of `rm_routelist`, as long as there is fuel. -/
def rmRoutelist : Nat → State A N M → Fin N → Option (State A N M)
  | 0, _, _ => none
  | fuel + 1, s, i =>
    match (s.nbr i).routeList with
    | [] => some (nbrTableRemove s i)
    | nr :: _ =>
      match s.neighborroutememb.mem nr with
      | none => rmRoutelist fuel s i
      | some r => rmRoutelist fuel (routeRm s r) i

/-- `uip_ds6_route_rm_by_nexthop`. -/
def rmByNexthop (null : A) (cache : Cache A) (s : State A N M) (h : IpAddr) : Option (State A N M) :=
  match nbrTableGetFromLladdr s ((cache.lladdr h).getD null) with
  | none => some s
  | some i => rmRoutelist (M + 1) s i

/-- `remove_key`, with the callback of `nbr_routes`. -/
def removeKey (s : State A N M) (i : Fin N) : Option (State A N M) :=
  (if (s.nbr i).used then rmRoutelist (M + 1) s i else some s).map fun s =>
    s.setNbr i fun n => { n with present := false, used := false }

/-! ### Addition -/

/-- `nbr_table_allocate`: the slot for a new neighbour, which may be that of another one, but never of a locked one. -/
def nbrTableAllocate (s : State A N M) (place : Option (Fin N)) : Option (Fin N) :=
  place.filter fun k => !((s.nbr k).present && (s.nbr k).locked)

/-- `nbr_table_add_lladdr`, for `nbr_routes`, with an empty list of routes. -/
def nbrTableAddLladdr (s : State A N M) (a : A) (place : Option (Fin N)) : Option (Option (Fin N) × State A N M) :=
  match indexFromLladdr s a with
  | some i => some (some i, s.setNbr i fun n => { n with used := true, routeList := [] })
  | none =>
    match nbrTableAllocate s place with
    | none => some (none, s)
    | some k =>
      (if (s.nbr k).present then removeKey s k else some s).map fun s =>
        (some k, s.setNbr k fun n => { n with present := true, lladdr := a, used := true, routeList := [] })

/-- A new route of the neighbour: the end of `uip_ds6_route_add`. -/
def attach (s : State A N M) (i : Fin N) (ipaddr : IpAddr) (length : UInt8) : Option (Fin M) × State A N M :=
  match s.routememb.alloc with
  | (none, _) => (none, s)
  | (some r, mem) =>
    let s := { s with routememb := mem, routelist := r :: s.routelist.erase r }
    match s.neighborroutememb.alloc with
    | (none, _) => (none, { s with routememb := s.routememb.free r })
    | (some nr, nbrMem) =>
      let s := { s with
        routememb := s.routememb.modify r fun _ => ⟨some i, ipaddr, length⟩
        neighborroutememb := nbrMem.modify nr fun _ => some r
        numRoutes := s.numRoutes + 1 }
      (some r, s.setNbr i fun n => { n with routeList := n.routeList.erase nr ++ [nr], locked := true })

/-- The entry of the next hop, and the new route. -/
def insert (s : State A N M) (a : A) (ipaddr : IpAddr) (length : UInt8) (place : Option (Fin N)) :
    Option (Option (Fin M) × State A N M) :=
  match nbrTableGetFromLladdr s a with
  | some i => some (attach s i ipaddr length)
  | none => (nbrTableAddLladdr s a place).map fun x =>
      match x.1 with
      | none => (none, x.2)
      | some i => attach x.2 i ipaddr length

/-- Room for the new route: with `UIP_DS6_ROUTE_REMOVE_LEAST_RECENTLY_USED` the last route of the list goes. -/
def makeRoom (removeLru : Bool) (s : State A N M) : Option (State A N M) :=
  if s.numRoutes = M then
    if removeLru then s.routelist.getLast?.map (routeRm s) else none
  else some s

/-- `uip_ds6_route_add` behind the lookup. -/
def addRoute (removeLru : Bool) (s : State A N M) (a : A) (ipaddr : IpAddr) (length : UInt8) (place : Option (Fin N)) :
    Option (Option (Fin M) × State A N M) :=
  match makeRoom removeLru s with
  | none => some (none, s)
  | some s => insert s a ipaddr length place

/-- `uip_ds6_route_add`: what it returns, with the table. -/
def routeAdd (removeLru : Bool) (null : A) (cache : Cache A) (s : State A N M) (ipaddr : IpAddr) (length : UInt8)
    (h : IpAddr) (place : Option (Fin N)) : Option (Option (Fin M) × State A N M) :=
  match cache.lladdr h with
  | none => some (none, s)
  | some a =>
    match lookup s ipaddr with
    | (none, s) => addRoute removeLru s a ipaddr length place
    | (some r, s) =>
      if nexthop null cache s r = some h then some (some r, s)
      else addRoute removeLru (routeRm s r) a ipaddr length place

end Functions

/-- The calls, with the neighbour cache at their time. The neighbour tables evict a neighbour, get a new one, or change
    the address of one. -/
inductive Event (A : Type) (N M : Nat)
  | add (cache : Cache A) (ipaddr : IpAddr) (length : UInt8) (h : IpAddr) (place : Option (Fin N))
  | rm (r : Fin M)
  | rmByNexthop (cache : Cache A) (h : IpAddr)
  | lookup (addr : IpAddr)
  | evict (i : Fin N)
  | appear (i : Fin N) (a : A)
  | rename (i : Fin N) (a : A)

section Steps

variable {A : Type} {N M : Nat} [DecidableEq A]

/-- Prefixes have 128 bits at most; routes that are removed are stored. -/
def Event.Proper (s : State A N M) : Event A N M → Prop
  | .add _ _ length _ _ => length ≤ 128
  | .rm r => r ∈ s.routelist
  | .rmByNexthop _ _ => True
  | .lookup _ => True
  | .evict i => (s.nbr i).present = true
  | .appear i _ => (s.nbr i).present = false
  | .rename i _ => (s.nbr i).present = true

def step (removeLru : Bool) (null : A) (s : State A N M) : Event A N M → Option (State A N M)
  | .add cache ipaddr length h place => (routeAdd removeLru null cache s ipaddr length h place).map Prod.snd
  | .rm r => some (routeRm s r)
  | .rmByNexthop cache h => Routes.rmByNexthop null cache s h
  | .lookup addr => some (Routes.lookup s addr).2
  | .evict i => removeKey s i
  | .appear i a => some (s.setNbr i fun n => { n with present := true, lladdr := a })
  | .rename i a => some (s.setNbr i fun n => { n with lladdr := a })

/-- Before the first route. -/
def init (a : A) : State A N M :=
  ⟨.init ⟨none, fun _ => 0, 0⟩, [], .init none, 0, fun _ => ⟨false, a, false, false, []⟩⟩

end Steps

end CSync.Routes
