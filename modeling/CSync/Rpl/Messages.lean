import CSync.Lib.Walk
import CSync.Rpl.Dio

/-! DIOs and DAOs as they come in (`rpl-icmp6.c`).

    The buffer goes on behind the payload; what a function reads of it is logged. A message that goes out in reply
    is built in place, where `uip_ext_len` is still that of the message that came in. -/

namespace CSync.RplDag
open Lib

/-- What stands from `UIP_ICMP_PAYLOAD` on, `uip_len` and `uip_ext_len`. -/
structure Packet where
  buffer : Nat → UInt8
  uipLen : UInt16
  extLen : UInt8

/-- `uip_l3_icmp_hdr_len`. -/
def Packet.hdrLen (p : Packet) : UInt16 := 44 + p.extLen.toUInt16

/-- The number of bytes that were received. -/
def Packet.payloadLength (p : Packet) : Nat := p.uipLen.toNat - p.hdrLen.toNat

def Packet.bufferLength (p : Packet) : UInt8 := (p.uipLen - p.hdrLen).toUInt8

/-- GHOST: bytes of the payload are read, or copied into an address or a prefix; or the checksum of a message that
    goes out takes them from its start on, where `written` bytes of that message stand. -/
inductive Access where
  | read (index count : Nat)
  | copy (index count : Nat)
  | checksum (written count : Nat)
deriving DecidableEq

/-- `upper_layer_chksum` in `uip_icmp6_send`: the length is that of the new payload behind a header of four bytes,
    less that of the extension headers, in 16 bits. -/
def uipIcmp6Send (extLen : UInt8) (payloadLen written : Nat) : List Access :=
  let upperLayerLen := UInt16.ofNat (4 + payloadLen) - extLen.toUInt16
  [.checksum written (upperLayerLen.toNat - 4)]

def get16 (buffer : Nat → UInt8) (pos : Nat) : UInt16 :=
  (buffer pos).toUInt16 <<< 8 ||| (buffer (pos + 1)).toUInt16
def get32 (buffer : Nat → UInt8) (pos : Nat) : UInt32 :=
  (buffer pos).toUInt32 <<< 24 ||| (buffer (pos + 1)).toUInt32 <<< 16 ||| (buffer (pos + 2)).toUInt32 <<< 8 |||
    (buffer (pos + 3)).toUInt32

/-- An address of which `count` bytes were copied from the buffer. -/
def getAddr (buffer : Nat → UInt8) (pos count : Nat) : IpAddr := fun j => if j.val < count then buffer (pos + j.val) else 0

def optionPad1 : UInt8 := 0
def optionDagMetricContainer : UInt8 := 2
def optionRouteInfo : UInt8 := 3
def optionDagConf : UInt8 := 4
def optionTarget : UInt8 := 5
def optionTransit : UInt8 := 6
def optionPrefixInfo : UInt8 := 8

/-- `RPL_DAG_MC_NONE`, `RPL_DAG_MC_ENERGY` and `RPL_DAG_MC_ETX`. -/
def dagMcNone : UInt8 := 0
def dagMcEnergy : UInt8 := 2
def dagMcEtx : UInt8 := 7

/-! ### DIOs -/

/-- The metric of a container. -/
inductive MetricObject where
  | etx (etx : UInt16)
  | energy (flags energyEst : UInt8)

structure MetricContainer where
  type : UInt8
  flags : UInt8
  aggr : UInt8
  prec : UInt8
  length : UInt8
  obj : Option MetricObject

/-- All of a DIO: what the DAGs take of it, its metric container, and its prefixes with their lifetimes. -/
structure DioMessage extends Dio where
  mc : MetricContainer
  prefixLifetime : UInt32
  destinationPrefix : Prefix
  destinationLifetime : UInt32

/-- `RPL_DIO_INTERVAL_DOUBLINGS`, `RPL_DIO_INTERVAL_MIN`, `RPL_DIO_REDUNDANCY`, `RPL_MIN_HOPRANKINC`, `RPL_MAX_RANKINC`,
    `RPL_OF_OCP`, `RPL_DEFAULT_LIFETIME` and `RPL_DEFAULT_LIFETIME_UNIT`. -/
structure DioDefaults where
  dagIntdoubl : UInt8
  dagIntmin : UInt8
  dagRedund : UInt8
  dagMinHoprankinc : UInt16
  dagMaxRankinc : UInt16
  ocp : UInt16
  defaultLifetime : UInt8
  lifetimeUnit : UInt16

/-- A metric container, of which there are at least six bytes. -/
def dioMetricContainer (b : Nat → UInt8) (i length : Nat) (header : List Access) (dio : DioMessage) :
    Next DioMessage × List Access :=
  let mc : MetricContainer := {
    type := b (i + 2)
    flags := b (i + 3) <<< 1 ||| b (i + 4) >>> 7
    aggr := b (i + 4) >>> 4 &&& 0x3
    prec := b (i + 4) &&& 0xf
    length := b (i + 5)
    obj := dio.mc.obj }
  let reads := header ++ [.read (i + 2) 4]
  if mc.type = dagMcNone then (.advance length { dio with mc := mc }, reads)
  else if mc.type = dagMcEtx then
    (.advance length { dio with mc := { mc with obj := some (.etx (get16 b (i + 6))) } }, reads ++ [.read (i + 6) 2])
  else if mc.type = dagMcEnergy then
    (.advance length { dio with mc := { mc with obj := some (.energy (b (i + 6)) (b (i + 7))) } },
      reads ++ [.read (i + 6) 2])
  else (.discard, reads)

/-- An option of a DIO, in the loop of `dio_input`. -/
def dioOption (p : Packet) (i : Nat) (dio : DioMessage) : Next DioMessage × List Access :=
  let b := p.buffer
  if b i = optionPad1 then (.advance 1 dio, [.read i 1])
  else
    let len := 2 + (b (i + 1)).toNat
    let header : List Access := [.read i 1, .read (i + 1) 1]
    if p.bufferLength.toNat < len + i then (.discard, header)
    else if b i = optionDagMetricContainer then
      if len < 6 then (.discard, header) else dioMetricContainer b i len header dio
    else if b i = optionRouteInfo then
      if len < 9 then (.discard, header)
      else
        let reads := header ++ [.read (i + 2) 2, .read (i + 4) 4]
        let count := ((b (i + 2)).toNat + 7) / 8
        if count + 8 ≤ len ∧ b (i + 2) ≤ 128 then
          (.advance len { dio with
            destinationPrefix := ⟨getAddr b (i + 8) count, b (i + 2), b (i + 3)⟩
            destinationLifetime := get32 b (i + 4) }, reads ++ [.copy (i + 8) count])
        else (.discard, reads)
    else if b i = optionDagConf then
      if len ≠ 16 then (.discard, header)
      else
        (.advance len { dio with
          dagIntdoubl := b (i + 3)
          dagIntmin := b (i + 4)
          dagRedund := b (i + 5)
          dagMaxRankinc := get16 b (i + 6)
          dagMinHoprankinc := get16 b (i + 8)
          ocp := get16 b (i + 10)
          defaultLifetime := b (i + 13)
          lifetimeUnit := get16 b (i + 14) }, header ++ [.read (i + 3) 9, .read (i + 13) 3])
    else if b i = optionPrefixInfo then
      if len ≠ 32 then (.discard, header)
      else
        (.advance len { dio with
          prefixInfo := ⟨getAddr b (i + 16) 16, b (i + 2), b (i + 3)⟩
          prefixLifetime := get32 b (i + 8) },
          header ++ [.read (i + 2) 2, .read (i + 8) 4, .copy (i + 16) 16])
    else (.advance len dio, header)

def dioBase (defaults : DioDefaults) (b : Nat → UInt8) : DioMessage where
  instanceId := b 0
  version := b 1
  rank := get16 b 2
  grounded := b 4 &&& 0x80
  mop := (b 4 &&& 0x38) >>> 3
  preference := b 4 &&& 0x07
  dtsn := b 5
  dagId := getAddr b 8 16
  dagIntdoubl := defaults.dagIntdoubl
  dagIntmin := defaults.dagIntmin
  dagRedund := defaults.dagRedund
  dagMinHoprankinc := defaults.dagMinHoprankinc
  dagMaxRankinc := defaults.dagMaxRankinc
  ocp := defaults.ocp
  defaultLifetime := defaults.defaultLifetime
  lifetimeUnit := defaults.lifetimeUnit
  prefixInfo := emptyPrefix
  mc := ⟨0, 0, 0, 0, 0, none⟩
  prefixLifetime := 0
  destinationPrefix := emptyPrefix
  destinationLifetime := 0

/-- `dio_input` up to `rpl_process_dio`. -/
def dioParse (defaults : DioDefaults) (p : Packet) : Option (Option DioMessage × List Access) :=
  (walkOptions (dioOption p) p.bufferLength.toNat 256 24 (dioBase defaults p.buffer)).map fun r =>
    (r.1, [.read 0 6, .copy 8 16] ++ r.2)

/-! ### DAOs -/

/-- What `dao_input_storing` and `dao_input_nonstoring` take of a DAO. -/
structure DaoMessage where
  flags : UInt8
  sequence : UInt8
  lifetime : UInt8
  prefixlen : UInt8
  prefixAddr : IpAddr
  parentAddr : IpAddr

/-- An option of a DAO; only without storing, the address of the parent is taken. -/
def daoOption (storing : Bool) (b : Nat → UInt8) (i : Nat) (dao : DaoMessage) : Next DaoMessage × List Access :=
  if b i = optionPad1 then (.advance 1 dao, [.read i 1])
  else
    let len := 2 + (b (i + 1)).toNat
    let header : List Access := [.read i 1, .read (i + 1) 1]
    if b i = optionTarget then
      let count := ((b (i + 3)).toNat + 7) / 8
      (.advance len { dao with prefixlen := b (i + 3), prefixAddr := getAddr b (i + 4) count },
        header ++ [.read (i + 3) 1, .copy (i + 4) count])
    else if b i = optionTransit then
      if storing = false ∧ 20 ≤ len then
        (.advance len { dao with lifetime := b (i + 5), parentAddr := getAddr b (i + 6) 16 },
          header ++ [.read (i + 5) 1, .copy (i + 6) 16])
      else (.advance len { dao with lifetime := b (i + 5) }, header ++ [.read (i + 5) 1])
    else (.advance len dao, header)

/-- `RPL_DAO_D_FLAG` and `RPL_DAO_K_FLAG`. -/
def daoDFlag : UInt8 := 0x40
def daoKFlag : UInt8 := 0x80

/-- What a DAO meets: `RPL_WITH_DAO_ACK`; whether it came by unicast; whether its target is a multicast group, which
    `RPL_WITH_MULTICAST` keeps apart; whether its route is purged now (a route of that length, through the sender,
    for which no No-Path DAO came yet); whether sender and route, or node, are there or find room; whether the route
    was installed before, or the node is the root; and whether there is a preferred parent with an address. -/
structure DaoContext where
  withDaoAck : Bool
  unicast : Bool
  multicastGroup : Bool
  purged : Bool
  room : Bool
  installed : Bool
  parentAddr : Bool

/-- `dao_ack_output`. -/
def daoAckOutput (t : DaoContext) (dao : DaoMessage) (extLen : UInt8) : List Access :=
  if t.withDaoAck ∧ dao.flags &&& daoKFlag ≠ 0 then uipIcmp6Send extLen 4 4 else []

/-- The DAO goes on to the preferred parent. -/
def forwardDao (p : Packet) (t : DaoContext) : List Access :=
  if t.parentAddr then uipIcmp6Send p.extLen p.bufferLength.toNat 0 else []

/-- `dao_input_storing` from the route lookup on. Before a DAO is acknowledged, `uip_clear_buf` sets `uip_ext_len` to
    zero; before one is refused it does not. -/
def replyStoring (p : Packet) (t : DaoContext) (dao : DaoMessage) : List Access :=
  if t.multicastGroup then if t.unicast then forwardDao p t else []
  else if dao.lifetime = 0 then (if t.purged then forwardDao p t else []) ++ daoAckOutput t dao 0
  else if t.room = false then daoAckOutput t dao p.extLen
  else if t.unicast then forwardDao p t ++ if t.installed then daoAckOutput t dao 0 else []
  else []

/-- `dao_input_nonstoring` from the update of the topology on. -/
def replyNonstoring (t : DaoContext) (dao : DaoMessage) : List Access :=
  if dao.lifetime ≠ 0 ∧ t.room = false then [] else daoAckOutput t dao 0

variable {c : Config}

/-- The base of a DAO, with the default lifetime. -/
def daoBase (b : Nat → UInt8) (s : State c) : DaoMessage :=
  ⟨b 1, b 3, s.inst.defaultLifetime, 0, fun _ => 0, fun _ => 0⟩

def daoOptions (b : Nat → UInt8) : Nat := if b 1 &&& daoDFlag ≠ 0 then 20 else 4

/-- What is read before that, the DAG id included. -/
def daoHeader (b : Nat → UInt8) : List Access :=
  [.read 0 2, .read 3 1] ++ if b 1 &&& daoDFlag ≠ 0 then [.read 4 16] else []

/-- A DAO for another DAG is not for this node. -/
def otherDag (b : Nat → UInt8) (s : State c) : Bool :=
  decide (b 1 &&& daoDFlag ≠ 0) && decide (s.current.dagId ≠ getAddr b 4 16)

def daoReply (storing : Bool) (p : Packet) (t : DaoContext) (dao : DaoMessage) : List Access :=
  if storing then replyStoring p t dao else replyNonstoring t dao

/-- The loop over the options, and the reply. -/
def daoWalk (storing : Bool) (p : Packet) (t : DaoContext) (s : State c) : Option (Option DaoMessage × List Access) :=
  (walkOptions (daoOption storing p.buffer) p.bufferLength.toNat 256 (daoOptions p.buffer) (daoBase p.buffer s)).map
    fun r => (r.1, daoHeader p.buffer ++ r.2 ++ (r.1.map (daoReply storing p t)).getD [])

/-- The parent that sent a DAO by unicast. -/
def daoSender (sender : Option c.Nbr) (s : State c) : Option c.Nbr :=
  sender.filter fun src => s.used src && decide ((s.parent src).dag = s.inst.currentDag)

/-- `dao_input_storing`; `sender` is the neighbor that sent the DAO by unicast, if it is one. -/
def daoInputStoring (p : Packet) (sender : Option c.Nbr) (t : DaoContext) (s : State c) :
    Option (State c × Option DaoMessage × List Access) :=
  if otherDag p.buffer s then some (s, none, daoHeader p.buffer)
  else
    match daoSender sender s with
    | none => (daoWalk true p t s).map fun r => (s, r)
    | some src =>
      if daoLoop src s then some (checkDaoLoop src s, none, daoHeader p.buffer)
      else (daoWalk true p t s).map fun r => (checkDaoLoop src s, r)

def daoInputNonstoring (p : Packet) (t : DaoContext) (s : State c) : Option (State c × Option DaoMessage × List Access) :=
  if otherDag p.buffer s then some (s, none, daoHeader p.buffer)
  else (daoWalk false p t s).map fun r => (s, r)

def daoInput (p : Packet) (sender : Option c.Nbr) (t : DaoContext) (s : State c) :
    Option (State c × Option DaoMessage × List Access) :=
  let result :=
    if s.inst.used = false ∨ s.inst.instanceId ≠ p.buffer 0 then some (s, none, [])
    else if s.isStoring then daoInputStoring p sender t s
    else if s.inst.mop = 1 then daoInputNonstoring p t s
    else some (s, none, [])
  result.map fun r => (r.1, r.2.1, .read 0 1 :: r.2.2)

/-! ### Runs -/

/-- A node, and what was read of each packet. -/
structure MessageState (c : Config) where
  node : State c
  accesses : List (Packet × Access)

/-- A DIO or a DAO comes in, or something else happens to the DAGs. A DIO may make the node send a No-Path DAO to the
    parent that it gives up; `noPath` is the length of its payload. -/
inductive MessageEvent (c : Config) where
  | dio (src : c.Nbr) (cached : Cached) (noPath : Option UInt8) (p : Packet)
  | dao (sender : Option c.Nbr) (t : DaoContext) (p : Packet)
  | other (e : Event c)

def logged (p : Packet) (log : List Access) (s : MessageState c) : MessageState c :=
  { s with accesses := s.accesses ++ log.map fun a => (p, a) }

/-- The checksum of a No-Path DAO. -/
def noPathOutput (p : Packet) : Option UInt8 → List Access
  | some payloadLen => uipIcmp6Send p.extLen payloadLen.toNat payloadLen.toNat
  | none => []

def dioInput (defaults : DioDefaults) (src : c.Nbr) (cached : Cached) (noPath : Option UInt8) (p : Packet)
    (s : MessageState c) : Option (MessageState c) :=
  (dioParse defaults p).map fun
    | (none, log) => logged p log s
    | (some dio, log) =>
      logged p (log ++ noPathOutput p noPath) { s with node := processDio src cached dio.toDio s.node }

/-- DIOs and DAOs come in as packets. -/
def Event.isMessage : Event c → Bool
  | .dio .. | .dao _ => true
  | _ => false

def messageStep (defaults : DioDefaults) (s : MessageState c) : MessageEvent c → Option (MessageState c)
  | .dio src cached noPath p => if cached.fits src s.node then dioInput defaults src cached noPath p s else none
  | .dao sender t p => (daoInput p sender t s.node).map fun r => logged p r.2.2 { s with node := r.1 }
  | .other e => if e.isMessage then none else (step s.node e).map fun t => { s with node := t }

def messageInit (c : Config) (d : c.DagIdx) (random : Nat → UInt16) : MessageState c := ⟨init c d random, []⟩

end CSync.RplDag
