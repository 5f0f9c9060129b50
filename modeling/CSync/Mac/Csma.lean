import CSync.Lib.Pool
import CSync.Lib.Run

/-! The packet queues of the CSMA layer (`csma.c`).

    A queued packet is three blocks of three pools: the list element, its metadata and a queue buffer.
    They hang on the queue of a neighbor, a block of a fourth pool that is in `neighbor_list`. Lists of blocks
    are lists of block numbers; a block that was freed keeps its contents.

    A sent callback is the last thing that `send_packet` and `packet_sent` do, so a call that is made from
    inside it is a further step of the run. The radio duty cycling layer reports a result by the neighbor it
    was given and a sequence number; the neighbor may be freed or in use for another address by then. Every
    call of `send_packet` has a number, and a log says when its callback ran. -/

namespace CSync.Csma
open Lib

/-- The return codes of the MAC layer. -/
inductive MacTx where | ok | collision | noack | deferred | err | errFatal
  deriving DecidableEq

/-- What the build configures. A queue has room for a packet. -/
structure Config where
  maxNeighborQueues : Nat
  maxQueuedPackets : Nat
  queuebufNum : Nat
  maxPacketPerNeighbor : Nat
  minBe : UInt8
  maxBackoff : Nat
  maxMaxFrameRetries : Nat
  maxPacketPerNeighbor_pos : 0 < maxPacketPerNeighbor

/-- `struct qbuf_metadata`; `id` is the call that the callback belongs to. -/
structure QbufMetadata where
  id : Nat
  maxTransmissions : UInt8

/-- `struct rdc_buf_list`, without its link. -/
structure RdcBufList (c : Config) where
  buf : Option (Fin c.queuebufNum)
  ptr : Option (Fin c.maxQueuedPackets)

/-- `struct neighbor_queue`; `transmitTimer` says whether the timer is set. -/
structure NeighborQueue (A : Type) (c : Config) where
  addr : Option A
  transmitTimer : Bool
  transmissions : UInt8
  collisions : UInt8
  queuedPacketList : List (Fin c.maxQueuedPackets)

/-- The log. -/
inductive Entry (c : Config) where
  /-- The packets of a neighbor are given to the radio duty cycling layer. -/
  | given (n : Fin c.maxNeighborQueues) (packets : List (Fin c.maxQueuedPackets))
  | callback (id : Nat) (status : MacTx) (transmissions : Nat)
  deriving DecidableEq

structure State (A : Type) (c : Config) where
  neighborMemb : Pool c.maxNeighborQueues (NeighborQueue A c)
  packetMemb : Pool c.maxQueuedPackets (RdcBufList c)
  metadataMemb : Pool c.maxQueuedPackets QbufMetadata
  /-- The queue buffers, of which the sequence number matters. -/
  queuebufMemb : Pool c.queuebufNum UInt16
  neighborList : List (Fin c.maxNeighborQueues)
  seqno : UInt16
  nextId : Nat
  log : List (Entry c)

section
variable {A : Type} {c : Config}

/-- Change a neighbor. -/
def updateNeighbor (n : Fin c.maxNeighborQueues) (f : NeighborQueue A c → NeighborQueue A c)
    (s : State A c) : State A c :=
  { s with neighborMemb := s.neighborMemb.modify n f }

def scheduleTransmission (n : Fin c.maxNeighborQueues) : State A c → State A c :=
  updateNeighbor n fun q => { q with transmitTimer := true }

def callSent (id : Nat) (status : MacTx) (transmissions : Nat) (s : State A c) : State A c :=
  { s with log := s.log ++ [.callback id status transmissions] }

/-- Take the neighbor off the list and free it. -/
def removeNeighbor (n : Fin c.maxNeighborQueues) (s : State A c) : State A c :=
  { s with
    neighborList := s.neighborList.erase n
    neighborMemb := s.neighborMemb.free n }

def freeBlocks (p : Fin c.maxQueuedPackets) (s : State A c) : State A c :=
  let packet := s.packetMemb.mem p
  { s with
    queuebufMemb := packet.buf.elim s.queuebufMemb s.queuebufMemb.free
    metadataMemb := packet.ptr.elim s.metadataMemb s.metadataMemb.free
    packetMemb := s.packetMemb.free p }

def freePacket (n : Fin c.maxNeighborQueues) (p : Fin c.maxQueuedPackets) (s : State A c) : State A c :=
  let s := updateNeighbor n (fun q => { q with queuedPacketList := q.queuedPacketList.erase p }) s
  let s := freeBlocks p s
  if (s.neighborMemb.mem n).queuedPacketList ≠ [] then
    scheduleTransmission n
      (updateNeighbor n (fun q => { q with transmissions := 0, collisions := c.minBe }) s)
  else
    -- This was the last packet in the queue.
    removeNeighbor n (updateNeighbor n (fun q => { q with transmitTimer := false }) s)

def txDone (status : MacTx) (p ptr : Fin c.maxQueuedPackets) (n : Fin c.maxNeighborQueues)
    (s : State A c) : State A c :=
  callSent (s.metadataMemb.mem ptr).id status (s.neighborMemb.mem n).transmissions.toNat (freePacket n p s)

/-- Retry, or give up with `status` after the last transmission. -/
def rexmitOrDone (status : MacTx) (p ptr : Fin c.maxQueuedPackets) (n : Fin c.maxNeighborQueues)
    (s : State A c) : State A c :=
  if (s.metadataMemb.mem ptr).maxTransmissions ≤ (s.neighborMemb.mem n).transmissions then
    txDone status p ptr n s
  else scheduleTransmission n s

def collision (p ptr : Fin c.maxQueuedPackets) (n : Fin c.maxNeighborQueues) (numTransmissions : UInt8)
    (s : State A c) : State A c :=
  rexmitOrDone .collision p ptr n (updateNeighbor n (fun q =>
    let collisions := q.collisions + numTransmissions
    if c.maxBackoff < collisions.toNat then
      { q with collisions := c.minBe, transmissions := q.transmissions + 1 }
    else { q with collisions := collisions }) s)

def noack (p ptr : Fin c.maxQueuedPackets) (n : Fin c.maxNeighborQueues) (numTransmissions : UInt8)
    (s : State A c) : State A c :=
  rexmitOrDone .noack p ptr n (updateNeighbor n (fun q =>
    { q with collisions := c.minBe, transmissions := q.transmissions + numTransmissions }) s)

def txOk (p ptr : Fin c.maxQueuedPackets) (n : Fin c.maxNeighborQueues) (numTransmissions : UInt8)
    (s : State A c) : State A c :=
  txDone .ok p ptr n (updateNeighbor n (fun q =>
    { q with collisions := c.minBe, transmissions := q.transmissions + numTransmissions }) s)

/-- Whether a packet has a sequence number in its queue buffer. -/
def hasSeqno (s : State A c) (seqno : UInt16) (p : Fin c.maxQueuedPackets) : Bool :=
  (s.packetMemb.mem p).buf.any fun b => s.queuebufMemb.mem b == seqno

def packetSent (n : Fin c.maxNeighborQueues) (seqno : UInt16) (status : MacTx) (numTransmissions : UInt8)
    (s : State A c) : State A c :=
  match (s.neighborMemb.mem n).queuedPacketList.find? (hasSeqno s seqno) with
  | none => s
  | some p =>
    match (s.packetMemb.mem p).ptr with
    | none => s
    | some ptr =>
      match status with
      | .ok => txOk p ptr n numTransmissions s
      | .noack => noack p ptr n numTransmissions s
      | .collision => collision p ptr n numTransmissions s
      | .deferred => s
      | status => txDone status p ptr n s

/-- `transmit_packet_list`, when the timer fires. -/
def transmitPacketList (n : Fin c.maxNeighborQueues) (s : State A c) : Option (State A c) :=
  if (s.neighborMemb.mem n).transmitTimer then
    let s := updateNeighbor n (fun q => { q with transmitTimer := false }) s
    let packets := (s.neighborMemb.mem n).queuedPacketList
    some (if packets = [] then s else { s with log := s.log ++ [.given n packets] })
  else none

/-- What `send_packet` reads of the packetbuf, and whether a queue buffer can be had for reasons of its
    other users. -/
structure Packetbuf (A : Type) where
  receiver : A
  maxMacTransmissions : Nat
  isAck : Bool
  noQueuebuf : Bool

variable [DecidableEq A]

def neighborQueueFromAddr (s : State A c) (addr : A) : Option (Fin c.maxNeighborQueues) :=
  s.neighborList.find? fun n => (s.neighborMemb.mem n).addr = some addr

/-- The entry of a neighbor, a new one if there is none. -/
def neighborEntry (addr : A) (s : State A c) : Option (Fin c.maxNeighborQueues) × State A c :=
  match neighborQueueFromAddr s addr with
  | some n => (some n, s)
  | none =>
    match s.neighborMemb.alloc with
    | (none, _) => (none, s)
    | (some n, neighborMemb) =>
      (some n, { s with
        neighborMemb := neighborMemb.modify n fun q =>
          { q with addr := some addr, transmissions := 0, collisions := c.minBe, queuedPacketList := [] }
        neighborList := s.neighborList ++ [n] })

/-- The allocations for a packet: the three blocks, or those that could be had freed again. -/
def allocPacket (seqno : UInt16) (id : Nat) (packetbuf : Packetbuf A) (s : State A c) :
    Option (Fin c.maxQueuedPackets) × State A c :=
  match s.packetMemb.alloc with
  | (none, _) => (none, s)
  | (some q, packetMemb) =>
    match s.metadataMemb.alloc with
    | (none, _) => (none, { s with
        packetMemb := (packetMemb.modify q fun p => { p with ptr := none }).free q })
    | (some m, metadataMemb) =>
      match packetbuf.noQueuebuf, s.queuebufMemb.alloc with
      | false, (some b, queuebufMemb) =>
        let maxTransmissions := if packetbuf.maxMacTransmissions = 0 then c.maxMaxFrameRetries + 1
          else packetbuf.maxMacTransmissions
        (some q, { s with
          packetMemb := packetMemb.modify q fun _ => ⟨some b, some m⟩
          metadataMemb := metadataMemb.modify m fun _ => ⟨id, .ofNat maxTransmissions⟩
          queuebufMemb := queuebufMemb.modify b fun _ => seqno })
      | _, _ => (none, { s with
          metadataMemb := metadataMemb.free m
          packetMemb := (packetMemb.modify q fun _ => ⟨none, some m⟩).free q })

/-- Link a packet into a queue, an ACK first; the head of the queue is sent as soon as possible. -/
def linkPacket (n : Fin c.maxNeighborQueues) (q : Fin c.maxQueuedPackets) (isAck : Bool)
    (s : State A c) : State A c :=
  let s := updateNeighbor n (fun nq => { nq with
    queuedPacketList := if isAck then q :: nq.queuedPacketList else nq.queuedPacketList ++ [q] }) s
  if (s.neighborMemb.mem n).queuedPacketList.head? = some q then scheduleTransmission n s else s

def sendPacket (packetbuf : Packetbuf A) (s : State A c) : State A c :=
  let id := s.nextId
  let seqno := if s.seqno = 0 then 1 else s.seqno
  let s := { s with seqno := seqno + 1, nextId := s.nextId + 1 }
  match neighborEntry packetbuf.receiver s with
  | (none, s) => callSent id .err 1 s
  | (some n, s) =>
    if (s.neighborMemb.mem n).queuedPacketList.length < c.maxPacketPerNeighbor then
      match allocPacket seqno id packetbuf s with
      | (some q, s) => linkPacket n q packetbuf.isAck s
      | (none, s) =>
        -- Remove and free the neighbor entry if it is empty.
        let s := if (s.neighborMemb.mem n).queuedPacketList.length = 0 then removeNeighbor n s else s
        callSent id .err 1 s
    else callSent id .err 1 s

inductive Event (A : Type) (c : Config) where
  | sendPacket (packetbuf : Packetbuf A)
  | packetSent (n : Fin c.maxNeighborQueues) (seqno : UInt16) (status : MacTx) (numTransmissions : UInt8)
  | transmitTimer (n : Fin c.maxNeighborQueues)

def step (s : State A c) : Event A c → Option (State A c)
  | .sendPacket packetbuf => some (sendPacket packetbuf s)
  | .packetSent n seqno status numTransmissions => some (packetSent n seqno status numTransmissions s)
  | .transmitTimer n => transmitPacketList n s

/-- `init`; the sequence numbers start anywhere. -/
def init (seqno : UInt16) : State A c where
  neighborMemb := Pool.init ⟨none, false, 0, 0, []⟩
  packetMemb := Pool.init ⟨none, none⟩
  metadataMemb := Pool.init ⟨0, 0⟩
  queuebufMemb := Pool.init 0
  neighborList := []
  seqno := seqno
  nextId := 0
  log := []

end

end CSync.Csma
