import CSync.Lib.Pool
import CSync.Lib.Ring
import CSync.Lib.Run

/-! The transmit queues of TSCH (`tsch-queue.c`) and the slots that empty them (`tsch_tx_slot` of
    `tsch-slot-operation.c`, `tsch_tx_process_pending` of `tsch.c`).

    Slots run in interrupts and yield twice: before the frame goes out and before the ACK comes in. All else
    runs in a process and may come in between, so a slot is up to three steps of the model, and an iteration
    of `tsch_tx_process_pending` is four. What takes the lock waits for the end of the slot: it is no step
    while a slot is under way. The status of a slot, `mac_tx_status`, is a static variable that is zero, that
    is `MAC_TX_OK`, in the beginning and keeps its value from slot to slot.

    Every call of `tsch_queue_add_packet` that queues a packet has a number, and a log says what became of
    it; the program has neither. -/

namespace CSync.Tsch
open Lib

/-- The return codes of the MAC layer. -/
inductive MacTx where | ok | collision | noack | deferred | err | errFatal
  deriving DecidableEq

/-- The results of a transmission by the radio. -/
inductive RadioTx where | ok | err | collision | noack
  deriving DecidableEq

/-- What the build configures. The sizes of the rings are powers of two, as the source checks, so that its
    masks are remainders. -/
structure Config (A : Type) where
  queueNumPerNeighbor : Nat
  dequeuedArraySize : Nat
  queuebufNum : Nat
  maxNeighborQueues : Nat
  macMinBe : Nat
  macMaxBe : Nat
  maxFrameRetries : Nat
  ebAddress : A
  broadcastAddress : A
  queueNum_pow : ∃ k, queueNumPerNeighbor = 2 ^ k
  dequeuedSize_pow : ∃ k, dequeuedArraySize = 2 ^ k

variable {A : Type}

/-- `struct tsch_packet`; `id` numbers the calls. The callback goes with the number. -/
structure Packet where
  id : Nat
  seqno : UInt8
  transmissions : UInt8
  ret : MacTx
  deriving DecidableEq

/-- `struct tsch_neighbor`. -/
structure Neighbor (c : Config A) where
  addr : A
  isBroadcast : Bool
  isTimeSource : Bool
  backoffExponent : Nat
  backoffWindow : Nat
  txLinksCount : Nat
  txRingbuf : Ring c.queueNumPerNeighbor (Fin c.queuebufNum)

inductive LinkType where | normal | advertising | advertisingOnly
  deriving DecidableEq

/-- `struct tsch_link`: the options that the slots look at. -/
structure Link (A : Type) where
  tx : Bool
  rx : Bool
  shared : Bool
  linkType : LinkType
  addr : A

/-- Where a transmit slot has yielded. -/
inductive Phase where | beforeTx | beforeAck
  deriving DecidableEq

/-- The static variables of a transmit slot that is under way. -/
structure Slot (c : Config A) where
  link : Link A
  neighbor : A
  packet : Fin c.queuebufNum
  dequeuedIndex : Fin c.dequeuedArraySize
  isBroadcast : Bool
  seqno : UInt8
  phase : Phase

/-- How far an iteration of `tsch_tx_process_pending` is. -/
inductive Pending where | idle | called | freed | pruned
  deriving DecidableEq

/-- What a slot achieved. -/
structure Attempt where
  prepared : Bool
  transmitted : Bool
  acked : Bool
  deriving DecidableEq

/-- The log. -/
inductive Entry (A : Type) where
  | queued (addr : A) (id : Nat)
  | attempt (id : Nat) (a : Attempt)
  | left (addr : A) (id : Nat)
  | sent (id : Nat) (status : MacTx) (transmissions : UInt8)
  | freed (id : Nat)
  deriving DecidableEq

structure State (c : Config A) where
  packetMemb : Pool c.queuebufNum Packet
  neighborList : List (Neighbor c)
  dequeued : Ring c.dequeuedArraySize (Fin c.queuebufNum)
  macTxStatus : MacTx
  slot : Option (Slot c)
  pending : Pending
  nextId : Nat
  log : List (Entry A)

section
variable [DecidableEq A] {c : Config A}

/-! ### Queues -/

/-- The virtual neighbors, for beacons and broadcasts. -/
def Config.Virtual (c : Config A) (a : A) : Prop := a = c.ebAddress ∨ a = c.broadcastAddress

instance (c : Config A) (a : A) : Decidable (c.Virtual a) := inferInstanceAs (Decidable (_ ∨ _))

/-- `ringbufindex_init`. -/
def emptyRing {n : Nat} {α : Type} [Inhabited α] (h : ∃ k, n = 2 ^ k) : Ring n α :=
  have hpos : 0 < n := by
    obtain ⟨k, hk⟩ := h
    rw [hk]
    exact Nat.two_pow_pos k
  ⟨⟨0, hpos⟩, ⟨0, hpos⟩, fun _ => default⟩

def queueBackoffReset (n : Neighbor c) : Neighbor c :=
  { n with backoffWindow := 0, backoffExponent := c.macMinBe }

/-- `tsch_queue_backoff_inc`, with the number that `random_rand` gives. -/
def queueBackoffInc (rand : Nat) (n : Neighbor c) : Neighbor c :=
  let backoffExponent := min (n.backoffExponent + 1) c.macMaxBe
  { n with
    backoffExponent := backoffExponent
    backoffWindow := ((rand / 2 ^ 6) % 2 ^ backoffExponent + 1) % 256 }

def queueGetNbr (s : State c) (addr : A) : Option (Neighbor c) :=
  s.neighborList.find? fun n => n.addr = addr

/-- Change the neighbor with an address. -/
def updateNbr (addr : A) (f : Neighbor c → Neighbor c) (l : List (Neighbor c)) : List (Neighbor c) :=
  l.map fun n => if n.addr = addr then f n else n

/-- The entry that `tsch_queue_add_nbr` initializes. -/
def newNbr [Inhabited (Fin c.queuebufNum)] (addr : A) : Neighbor c := queueBackoffReset
  { addr := addr
    isBroadcast := decide (c.Virtual addr)
    isTimeSource := false
    backoffExponent := 0
    backoffWindow := 0
    txLinksCount := 0
    txRingbuf := emptyRing c.queueNum_pow }

/-- `tsch_queue_add_nbr`: no step while it waits for the lock; the neighbor is there or it is not. -/
def queueAddNbr [Inhabited (Fin c.queuebufNum)] (s : State c) (addr : A) : Option (State c) :=
  match queueGetNbr s addr with
  | some _ => some s
  | none =>
    if s.slot.isSome then none
    else if s.neighborList.length < c.maxNeighborQueues then
      some { s with neighborList := s.neighborList ++ [newNbr addr] }
    else some s

/-- `tsch_queue_add_packet`; `newQueuebuf` says whether `queuebuf_new_from_packetbuf` gives a buffer. -/
def queueAddPacket [Inhabited (Fin c.queuebufNum)] (s : State c) (addr : A) (seqno : UInt8)
    (newQueuebuf : Bool) : Option (State c) := do
  let s ← queueAddNbr s addr
  match queueGetNbr s addr with
  | none => some s
  | some n =>
    match n.txRingbuf.peekPut with
    | none => some s
    | some putIndex =>
      match s.packetMemb.alloc with
      | (none, _) => some s
      | (some p, packetMemb) =>
        if newQueuebuf then
          some { s with
            packetMemb := packetMemb.modify p fun _ => ⟨s.nextId, seqno, 0, .deferred⟩
            neighborList := updateNbr addr
              (fun n => { n with txRingbuf := (n.txRingbuf.store putIndex p).advance }) s.neighborList
            nextId := s.nextId + 1
            log := s.log ++ [.queued addr s.nextId] }
        else some { s with packetMemb := packetMemb.free p }

/-- `tsch_queue_get_packet_for_nbr`: the head of the queue, unless the neighbor backs off. -/
def queueGetPacketForNbr (n : Neighbor c) (link : Link A) : Option (Fin c.queuebufNum) :=
  if link.shared ∧ n.backoffWindow ≠ 0 then none
  else n.txRingbuf.peekGet.map n.txRingbuf.array

def packetFor (link : Link A) (n : Neighbor c) : Option (A × Fin c.queuebufNum) :=
  (queueGetPacketForNbr n link).map fun p => (n.addr, p)

def queueGetUnicastPacketForAny (s : State c) (link : Link A) : Option (A × Fin c.queuebufNum) :=
  s.neighborList.findSome? fun n =>
    if ¬n.isBroadcast ∧ n.txLinksCount = 0 then packetFor link n else none

def getPacketAndNeighborForLink (s : State c) (link : Link A) : Option (A × Fin c.queuebufNum) :=
  if ¬link.tx then none
  else
    let eb := if link.linkType = .normal then none
      else (queueGetNbr s c.ebAddress).bind (packetFor link)
    match eb with
    | some p => some p
    | none =>
      if link.linkType = .advertisingOnly then none
      else match (queueGetNbr s link.addr).bind (packetFor link) with
        | some p => some p
        | none =>
          -- `n == n_broadcast`
          if (queueGetNbr s link.addr).map Neighbor.addr =
              (queueGetNbr s c.broadcastAddress).map Neighbor.addr then
            queueGetUnicastPacketForAny s link
          else none

/-- The packet of a slot and the link it is for: the backup link stands in for a link without a packet that
    cannot receive. -/
def slotPacket (s : State c) (link : Link A) (backup : Option (Link A)) :
    Link A × Option (A × Fin c.queuebufNum) :=
  match getPacketAndNeighborForLink s link, backup with
  | none, some backup =>
    if link.rx then (link, none) else (backup, getPacketAndNeighborForLink s backup)
  | p, _ => (link, p)

def queueUpdateAllBackoffWindows (destAddr : A) (l : List (Neighbor c)) : List (Neighbor c) :=
  l.map fun n =>
    if n.backoffWindow ≠ 0 ∧ ((n.txLinksCount = 0 ∧ destAddr = c.broadcastAddress) ∨
        (0 < n.txLinksCount ∧ destAddr = n.addr)) then
      { n with backoffWindow := n.backoffWindow - 1 }
    else n

def endSlot (link : Link A) (s : State c) : State c :=
  { s with
    slot := none
    neighborList := if link.tx ∧ link.shared then
      queueUpdateAllBackoffWindows link.addr s.neighborList else s.neighborList }

/-! ### Slots -/

/-- What `update_neighbor_state` does to the neighbor, where `dequeue` says whether the packet leaves the queue. -/
def updateNeighborState (link : Link A) (status : MacTx) (dequeue : Bool) (rand : Nat) (n : Neighbor c) :
    Neighbor c :=
  let n := if dequeue then { n with txRingbuf := n.txRingbuf.drop } else n
  if n.isBroadcast then n
  else if status = .ok then
    if link.shared ∨ n.txRingbuf.elements = 0 then queueBackoffReset n else n
  else if link.shared then queueBackoffInc rand n
  else n

/-- The end of `tsch_tx_slot`, with the status that `mac_tx_status` has by then. -/
def finishTx (s : State c) (slot : Slot c) (attempt : Attempt) (rand : Nat) : State c :=
  let packet := s.packetMemb.mem slot.packet
  let transmissions := packet.transmissions + 1
  let dequeue := decide (s.macTxStatus = .ok ∨ c.maxFrameRetries + 1 ≤ transmissions.toNat)
  endSlot slot.link { s with
    packetMemb := s.packetMemb.modify slot.packet fun packet =>
      { packet with transmissions := transmissions, ret := s.macTxStatus }
    neighborList := updateNbr slot.neighbor
      (updateNeighborState slot.link s.macTxStatus dequeue rand) s.neighborList
    dequeued := if dequeue then (s.dequeued.store slot.dequeuedIndex slot.packet).advance
      else s.dequeued
    log := s.log ++ .attempt packet.id attempt ::
      if dequeue then [.left slot.neighbor packet.id] else [] }

/-- The first part of a slot: `packetReady` is the result of `tsch_packet_update_eb`, `prepare` that of the
    radio. Where the packet is not prepared, the slot ends with the status as it is. -/
def slotStart (s : State c) (link : Link A) (backup : Option (Link A)) (packetReady prepare : Bool)
    (rand : Nat) : Option (State c) :=
  if s.slot.isSome then none
  else match slotPacket s link backup with
    | (link, none) => some (endSlot link s)
    | (link, some (addr, p)) =>
      match s.dequeued.peekPut with
      | none => some (endSlot link s)
      | some dequeuedIndex =>
        let slot : Slot c :=
          { link := link
            neighbor := addr
            packet := p
            dequeuedIndex := dequeuedIndex
            isBroadcast := (queueGetNbr s addr).any Neighbor.isBroadcast
            seqno := (s.packetMemb.mem p).seqno
            phase := .beforeTx }
        if (addr = c.ebAddress → packetReady) ∧ prepare then some { s with slot := some slot }
        else some (finishTx s slot ⟨false, false, false⟩ rand)

/-- The transmission. -/
def slotTransmit (s : State c) (status : RadioTx) (rand : Nat) : Option (State c) :=
  match s.slot with
  | none => none
  | some slot =>
    if slot.phase ≠ .beforeTx then none
    else if status = .ok then
      if slot.isBroadcast then
        some (finishTx { s with macTxStatus := .ok } slot ⟨true, true, false⟩ rand)
      else some { s with slot := some { slot with phase := .beforeAck } }
    else some (finishTx { s with macTxStatus := .err } slot ⟨true, false, false⟩ rand)

/-- The ACK, if any was read; `parseEack` is `tsch_packet_parse_eack`. -/
def slotAck (parseEack : List UInt8 → UInt8 → Nat) (s : State c) (ackbuf : List UInt8) (rand : Nat) :
    Option (State c) :=
  match s.slot with
  | none => none
  | some slot =>
    if slot.phase ≠ .beforeAck then none
    else
      let acked := decide (ackbuf ≠ [] ∧ parseEack ackbuf slot.seqno ≠ 0)
      some (finishTx { s with macTxStatus := if acked then .ok else .noack } slot ⟨true, true, acked⟩ rand)

/-! ### Pending callbacks -/

/-- A neighbor that `tsch_queue_free_unused_neighbors` removes. -/
def Neighbor.unused (n : Neighbor c) : Bool :=
  !n.isBroadcast && !n.isTimeSource && n.txLinksCount == 0 && n.txRingbuf.elements == 0

/-- The callback of the first dequeued packet. -/
def pendingCall (s : State c) : Option (State c) :=
  if s.pending ≠ .idle then none
  else s.dequeued.peekGet.map fun i =>
    let p := s.packetMemb.mem (s.dequeued.array i)
    { s with pending := .called, log := s.log ++ [.sent p.id p.ret p.transmissions] }

/-- `tsch_queue_free_packet` of that packet. -/
def pendingFree (s : State c) : Option (State c) :=
  if s.pending ≠ .called then none
  else
    let p := s.dequeued.array s.dequeued.get
    some { s with
      pending := .freed
      packetMemb := s.packetMemb.free p
      log := s.log ++ [.freed (s.packetMemb.mem p).id] }

/-- `tsch_queue_free_unused_neighbors`, which takes the lock if there is one to free. -/
def pendingPrune (s : State c) : Option (State c) :=
  if s.pending ≠ .freed then none
  else if s.slot.isSome ∧ s.neighborList.any Neighbor.unused then none
  else some { s with
    pending := .pruned
    neighborList := s.neighborList.filter fun n => !n.unused }

/-- The packet leaves the ring. -/
def pendingGet (s : State c) : Option (State c) :=
  if s.pending ≠ .pruned then none
  else some { s with pending := .idle, dequeued := s.dequeued.drop }

inductive Event (A : Type) where
  | addPacket (addr : A) (seqno : UInt8) (newQueuebuf : Bool)
  | slotStart (link : Link A) (backup : Option (Link A)) (packetReady prepare : Bool) (rand : Nat)
  | slotTransmit (status : RadioTx) (rand : Nat)
  | slotAck (ackbuf : List UInt8) (rand : Nat)
  /-- A slot whose deadline was missed. -/
  | missedSlot (link : Link A)
  /-- The schedule or the choice of the time source changes. -/
  | configure (addr : A) (txLinksCount : Nat) (isTimeSource : Bool)
  | pendingCall
  | pendingFree
  | pendingPrune
  | pendingGet

def step [Inhabited (Fin c.queuebufNum)] (parseEack : List UInt8 → UInt8 → Nat) (s : State c) :
    Event A → Option (State c)
  | .addPacket addr seqno newQueuebuf => queueAddPacket s addr seqno newQueuebuf
  | .slotStart link backup packetReady prepare rand => slotStart s link backup packetReady prepare rand
  | .slotTransmit status rand => slotTransmit s status rand
  | .slotAck ackbuf rand => slotAck parseEack s ackbuf rand
  | .missedSlot link => if s.slot.isSome then none else some (endSlot link s)
  | .configure addr txLinksCount isTimeSource =>
    let change := fun n : Neighbor c => { n with txLinksCount := txLinksCount, isTimeSource := isTimeSource }
    some { s with neighborList := updateNbr addr change s.neighborList }
  | .pendingCall => pendingCall s
  | .pendingFree => pendingFree s
  | .pendingPrune => pendingPrune s
  | .pendingGet => pendingGet s

/-- The variables as they are declared. -/
def reset [Inhabited (Fin c.queuebufNum)] : State c where
  packetMemb := Pool.init ⟨0, 0, 0, .ok⟩
  neighborList := []
  dequeued := emptyRing c.dequeuedSize_pow
  macTxStatus := .ok
  slot := none
  pending := .idle
  nextId := 0
  log := []

/-- `tsch_queue_init` adds the virtual neighbors. -/
def init [Inhabited (Fin c.queuebufNum)] : State c :=
  ((queueAddNbr reset c.ebAddress).bind fun s => queueAddNbr s c.broadcastAddress).getD reset

end

end CSync.Tsch
