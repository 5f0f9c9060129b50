import CSync.Lib.Bytes
import CSync.Rpl.Graph

/-! Acknowledgements of DAOs in storing mode (`rpl-icmp6.c`, `uip-ds6-route.c`).

    A node draws its own sequence numbers for the DAOs that it forwards, and remembers in the route which number
    the child had used. The parent acknowledges the number that was drawn; the acknowledgement goes on to the
    next hop of the route with the child's number. -/

namespace CSync.RplDao

/-- `uip_ds6_route_t` with its `rpl_route_entry_t`; `nexthop` is the neighbor that the route belongs to.
    GHOST: `number` counts the draws up to `daoSeqnoOut`. -/
structure Route where
  ipaddr : IpAddr
  length : UInt8
  nexthop : IpAddr
  lifetime : UInt32
  nopathReceived : Bool
  daoPending : Bool
  daoSeqnoOut : UInt8
  daoSeqnoIn : UInt8
  number : Nat

/-- What is sent: a DAO of a child to the parent (GHOST: the draw, the child and its number), a DAO of the node,
    an acknowledgement. -/
inductive Message where
  | forwarded (dest : IpAddr) (seq : UInt8) (number : Nat) (child : IpAddr) (childSeq : UInt8)
  | dao (seq lifetime : UInt8)
  | daoAck (dest : IpAddr) (seq status : UInt8)

/-- `UIP_DS6_ROUTE_NB` and `UIP_DS6_ROUTE_REMOVE_LEAST_RECENTLY_USED`; `default_lifetime` and `lifetime_unit` of the
    instance. -/
structure Config where
  routeNb : Nat
  removeLeastRecentlyUsed : Bool
  defaultLifetime : UInt8
  lifetimeUnit : UInt16

/-- `routelist`, `dao_sequence`, the fields of the instance, the address of the preferred parent, whether the node
    is the root, and the neighbors that have an address. GHOST: what was sent, how many numbers were drawn, and
    whether one was drawn for a registration of the node itself. -/
structure State where
  routes : List Route
  daoSequence : UInt8
  myDaoSeqno : UInt8
  myDaoTransmissions : UInt8
  hasDownwardRoute : Bool
  preferredParent : Option IpAddr
  isRoot : Bool
  neighbors : List IpAddr
  sent : List Message
  drawn : Nat
  ownSent : Bool

/-- `RPL_LOLLIPOP_INIT` and `RPL_LOLLIPOP_INCREMENT`. -/
def lollipopInit : UInt8 := 240

def lollipopIncrement (counter : UInt8) : UInt8 :=
  if 127 < counter then (counter + 1) &&& 255 else (counter + 1) &&& 127

/-- `RPL_DAO_ACK_UNCONDITIONAL_ACCEPT`, `RPL_DAO_ACK_UNABLE_TO_ACCEPT`, `RPL_DAO_ACK_UNABLE_TO_ADD_ROUTE_AT_ROOT`. -/
def unconditionalAccept : UInt8 := 0
def unableToAccept : UInt8 := 128
def unableToAddRouteAtRoot : UInt8 := 255

/-- `RPL_LIFETIME`. -/
def Config.lifetime (c : Config) (lifetime : UInt8) : UInt32 :=
  if lifetime = 0xff then 0xffffffff else c.lifetimeUnit.toUInt32 * lifetime.toUInt32

/-! ### The routing table -/

/-- `uip_ipaddr_prefixcmp`. -/
def prefixcmp (a b : IpAddr) (length : UInt8) : Bool :=
  (List.ofFn a).take (length.toNat / 8) == (List.ofFn b).take (length.toNat / 8)

/-- The loop of `uip_ds6_route_lookup`: the place of the last longest match, or of the first full one. -/
def lookupIndex (addr : IpAddr) : List Route → Nat → UInt8 → Option Nat → Option Nat
  | [], _, _, found => found
  | r :: rs, i, longestmatch, found =>
    if longestmatch ≤ r.length && prefixcmp addr r.ipaddr r.length then
      if r.length = 128 then some i else lookupIndex addr rs (i + 1) r.length (some i)
    else lookupIndex addr rs (i + 1) longestmatch found

/-- `uip_ds6_route_lookup`: the route that is found, which comes to the front, and those behind it. -/
def lookup (addr : IpAddr) (routes : List Route) : Option Route × List Route :=
  match (lookupIndex addr routes 0 0 none).bind fun i => routes[i]?.map fun r => (r, routes.eraseIdx i) with
  | none => (none, routes)
  | some (r, rest) => (some r, rest)

/-- `uip_ds6_route_nexthop`. -/
def State.nexthop (s : State) (r : Route) : Option IpAddr := if r.nexthop ∈ s.neighbors then some r.nexthop else none

/-- The end of `uip_ds6_route_add`: a new route, maybe in place of the one that was used least recently. -/
def pushRoute (c : Config) (ipaddr : IpAddr) (length : UInt8) (nexthop : IpAddr) (routes : List Route) :
    Option Route × List Route :=
  if routes.length = c.routeNb then
    if c.removeLeastRecentlyUsed && !routes.isEmpty then
      (some ⟨ipaddr, length, nexthop, 0, false, false, 0, 0, 0⟩, routes.dropLast)
    else (none, routes)
  else (some ⟨ipaddr, length, nexthop, 0, false, false, 0, 0, 0⟩, routes)

/-- `uip_ds6_route_add`: the route, which stands at the front, and those behind it. -/
def routeAdd (c : Config) (ipaddr : IpAddr) (length : UInt8) (nexthop : IpAddr) (s : State) :
    Option Route × List Route :=
  if nexthop ∈ s.neighbors then
    match lookup ipaddr s.routes with
    | (none, routes) => pushRoute c ipaddr length nexthop routes
    | (some r, rest) =>
      if s.nexthop r = some nexthop then (some r, rest) else pushRoute c ipaddr length nexthop rest
  else (none, s.routes)

/-! ### DAOs -/

def send (m : Message) (s : State) : State := { s with sent := s.sent ++ [m] }

def daoAckOutput (kFlag : Bool) (dest : IpAddr) (seq status : UInt8) (s : State) : State :=
  if kFlag then send (.daoAck dest seq status) s else s

/-- The next number. -/
def draw (s : State) : State := { s with daoSequence := lollipopIncrement s.daoSequence, drawn := s.drawn + 1 }

def prepareForDaoFwd (sequence : UInt8) (r : Route) (rest : List Route) (s : State) : Route × State :=
  let s := draw s
  let r := { r with
    daoPending := true, daoSeqnoIn := sequence, daoSeqnoOut := s.daoSequence, number := s.drawn }
  (r, { s with routes := r :: rest })

/-- The DAO goes on to the preferred parent, under the number that the route notes. -/
def forward (dest : IpAddr) (sequence : UInt8) (sender : IpAddr) (rs : Route × State) : State :=
  send (.forwarded dest rs.1.daoSeqnoOut rs.1.number sender sequence) rs.2

/-- The part of `dao_input_storing` for a lifetime of zero. -/
def noPath (sender : IpAddr) (kFlag : Bool) (sequence : UInt8) (length : UInt8) (found : Option Route × List Route)
    (s : State) : State :=
  let s :=
    match found with
    | (none, routes) => { s with routes := routes }
    | (some r, rest) =>
      if r.nopathReceived = false ∧ r.length = length ∧ s.nexthop r = some sender then
        let r := { r with nopathReceived := true, lifetime := 60 }
        match s.preferredParent with
        | none => { s with routes := r :: rest }
        | some parent => forward parent sequence sender (prepareForDaoFwd sequence r rest s)
      else { s with routes := r :: rest }
  daoAckOutput kFlag sender sequence unconditionalAccept s

/-- The end of `dao_input_storing`: the DAO is acknowledged if it is known, and forwarded. -/
def forwardDao (sender : IpAddr) (kFlag : Bool) (sequence : UInt8) (r : Route) (rest : List Route) (s : State) :
    State :=
  let shouldAck := kFlag && (!r.daoPending && decide (r.daoSeqnoIn = sequence) || s.isRoot)
  let s :=
    match s.preferredParent with
    | none => { s with routes := r :: rest }
    | some parent =>
      -- a retransmission keeps its number
      if r.daoPending = true ∧ r.daoSeqnoIn = sequence then
        forward parent sequence sender (r, { s with routes := r :: rest })
      else forward parent sequence sender (prepareForDaoFwd sequence r rest s)
  daoAckOutput shouldAck sender sequence unconditionalAccept s

/-- A DAO behind the parser. -/
structure Dao where
  sender : IpAddr
  kFlag : Bool
  sequence : UInt8
  target : IpAddr
  length : UInt8
  lifetime : UInt8

/-- `dao_input_storing` for a unicast DAO behind the checks for a loop; `room` is whether the neighbor cache has room
    for the sender. -/
def daoInputStoring (c : Config) (dao : Dao) (room : Bool) (s : State) : State :=
  let nack := if s.isRoot then unableToAddRouteAtRoot else unableToAccept
  let found := lookup dao.target s.routes
  if dao.lifetime = 0 then noPath dao.sender dao.kFlag dao.sequence dao.length found s
  else
    let s := { s with routes := found.1.toList ++ found.2 }
    if dao.sender ∈ s.neighbors ∨ room then
      let s := { s with neighbors := if dao.sender ∈ s.neighbors then s.neighbors else dao.sender :: s.neighbors }
      match routeAdd c dao.target dao.length dao.sender s with
      | (none, routes) => daoAckOutput dao.kFlag dao.sender dao.sequence nack { s with routes := routes }
      | (some r, rest) =>
        forwardDao dao.sender dao.kFlag dao.sequence
          { r with lifetime := c.lifetime dao.lifetime, nopathReceived := false } rest s
    else daoAckOutput dao.kFlag dao.sender dao.sequence nack s

def daoOutput (lifetime : UInt8) (s : State) : State :=
  let s := draw s
  let s := if lifetime ≠ 0 then
    { s with myDaoSeqno := s.daoSequence, myDaoTransmissions := 1, ownSent := true } else s
  send (.dao s.daoSequence lifetime) s

def findRouteEntryByDaoAck (seq : UInt8) (routes : List Route) : Option Nat :=
  routes.findIdx? fun r => r.daoSeqnoOut == seq && r.daoPending

/-- `dao_ack_input` behind the lookups; a failure removes the route. -/
def daoAckInput (seq status : UInt8) (s : State) : State :=
  if seq = s.myDaoSeqno then { s with hasDownwardRoute := decide (status < unableToAccept) }
  else
    match (findRouteEntryByDaoAck seq s.routes).bind fun i => s.routes[i]?.map fun r => (i, r) with
    | none => s
    | some (i, r) =>
      let t := match s.nexthop r with
        | none => s
        | some nexthop => send (.daoAck nexthop r.daoSeqnoIn status) s
      { t with routes := if status < unableToAccept then s.routes.set i { r with daoPending := false }
        else s.routes.eraseIdx i }

/-- `rpl_purge_routes`. Behind a removal, a node that is not the root sends a No-Path DAO, under the last number. -/
def purgeRoutes (s : State) : State :=
  let aged := s.routes.map fun r =>
    if 1 ≤ r.lifetime ∧ r.lifetime ≠ 0xffffffff then { r with lifetime := r.lifetime - 1 } else r
  if s.isRoot then { s with routes := aged.filter fun r => 1 ≤ r.lifetime }
  else if aged.all fun r => 1 ≤ r.lifetime then { s with routes := aged }
  else
    let t := { s with routes := aged.eraseP fun r => decide (r.lifetime < 1) }
    if s.preferredParent = none then t else send (.dao s.daoSequence 0) t

/-- What happens to a node: a DAO or an acknowledgement comes in; it sends a DAO of its own, or sends it again; time
    passes; routes are used, expire with their next hop, or are removed with their DAG or neighbor; the parent
    changes; neighbors leave the cache; the instance is set up anew. -/
inductive Event where
  | dao (dao : Dao) (room : Bool)
  | daoAck (seq status : UInt8)
  | daoOutput (lifetime : UInt8)
  | retransmission (lifetime : UInt8)
  | purgeRoutes
  | lookup (addr : IpAddr)
  | removeRoutesByNexthop (nexthop : IpAddr)
  | removeRoutes (keep : Route → Bool)
  | parent (preferredParent : Option IpAddr) (isRoot : Bool)
  | neighbors (neighbors : List IpAddr)
  | allocInstance

def step (c : Config) (s : State) : Event → Option State
  | .dao dao room => some (daoInputStoring c dao room s)
  | .daoAck seq status => some (daoAckInput seq status s)
  | .daoOutput lifetime => some (daoOutput lifetime s)
  | .retransmission lifetime => some (send (.dao s.myDaoSeqno lifetime)
      { s with myDaoTransmissions := s.myDaoTransmissions + 1 })
  | .purgeRoutes => some (purgeRoutes s)
  | .lookup addr => some { s with routes := (RplDao.lookup addr s.routes).1.toList ++ (RplDao.lookup addr s.routes).2 }
  | .removeRoutesByNexthop nexthop => some { s with
      routes := s.routes.map fun r => if s.nexthop r = some nexthop then { r with lifetime := 0 } else r }
  | .removeRoutes keep => some { s with routes := s.routes.filter keep }
  | .parent preferredParent isRoot => some { s with preferredParent := preferredParent, isRoot := isRoot }
  | .neighbors neighbors => some { s with neighbors := neighbors }
  | .allocInstance => some { s with
      myDaoSeqno := 0, myDaoTransmissions := 0, hasDownwardRoute := false, ownSent := false }

def init : State := ⟨[], lollipopInit, 0, 0, false, none, false, [], [], 0, false⟩

end CSync.RplDao
