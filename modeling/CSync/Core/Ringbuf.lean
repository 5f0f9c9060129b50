import CSync.Lib.Ring
import CSync.Lib.Run

/-! Ring buffers (`core/lib/ringbuf.c`, `core/lib/ringbufindex.c`).

    One producer and one consumer share a ring without a lock. Each of their calls is cut here into its single accesses
    to the two pointers and to the array, and the accesses of the two sides alternate in any order. A ring is used by
    the bytes that `ringbuf_put` and `ringbuf_get` carry, or by the indices of `ringbufindex`, whose users write and
    read the array themselves between a peek and the call behind it. -/

namespace CSync.Rings
open Lib

variable {α : Type}

/-- `struct ringbuf` with the array behind `data`, or `struct ringbufindex` with the array that its indices are for. -/
structure Ringbuf (α : Type) where
  data : UInt8 → α
  mask : UInt8
  putPtr : UInt8
  getPtr : UInt8

def init (data : UInt8 → α) (size : UInt8) : Ringbuf α := ⟨data, size - 1, 0, 0⟩

/-- `(put_ptr - get_ptr) & mask`; the mask has eight bits, so the borrow of the `int` difference is masked out. -/
def difference (mask putPtr getPtr : UInt8) : UInt8 := (putPtr - getPtr) &&& mask

def following (mask ptr : UInt8) : UInt8 := (ptr + 1) &&& mask

/-- What is between the pointers, the oldest first. -/
def Ringbuf.contents (r : Ringbuf α) : List α :=
  (List.range (difference r.mask r.putPtr r.getPtr).toNat).map fun i => r.data ((r.getPtr + UInt8.ofNat i) &&& r.mask)

/-- The calls of the producer: `ringbuf_put`, `ringbufindex_put`, `ringbufindex_peek_put`, and `ringbuf_elements` or
    `ringbufindex_elements`. -/
inductive PutCall (α : Type) where
  | put (c : α)
  | indexPut
  | peekPut
  | elements
  deriving DecidableEq

/-- The calls of the consumer: `ringbuf_get`, `ringbufindex_get`, `ringbufindex_peek_get` and the same. -/
inductive GetCall where | get | indexGet | peekGet | elements
  deriving DecidableEq

/-- Where the producer is. A call reads the pointers first, in either order; with the value of the other side's pointer
    goes the number of elements that were held then. -/
inductive Producer (α : Type) where
  | idle
  | check (call : PutCall α) (putPtr : Option UInt8) (getPtr : Option (UInt8 × Nat))
  /-- Before `put_ptr` is read for the store, and before the store. -/
  | store (c : α) (seen : Nat)
  | storeAt (c : α) (putPtr : UInt8) (seen : Nat)
  /-- Before `put_ptr` is read to be counted up, and before it is written. -/
  | bump (c : Option α) (seen : Nat)
  | bumpTo (c : Option α) (putPtr : UInt8) (seen : Nat)
  /-- Before `put_ptr` is read to be returned. -/
  | peek (seen : Nat)

/-- What a call has taken: the byte, or the index. -/
inductive Taken (α : Type) where
  | byte (c : α)
  | index (i : UInt8)
  deriving DecidableEq

inductive Consumer (α : Type) where
  | idle
  | check (call : GetCall) (putPtr : Option (UInt8 × Nat)) (getPtr : Option UInt8)
  /-- Before `get_ptr` is read for the load, and before the load. -/
  | load (seen : Nat)
  | loadAt (getPtr : UInt8) (seen : Nat)
  /-- Before `get_ptr` is read into the variable that is returned. -/
  | index (seen : Nat)
  /-- Before `get_ptr` is read to be counted up, and before it is written. -/
  | bump (taken : Taken α) (seen : Nat)
  | bumpTo (taken : Taken α) (getPtr : UInt8) (seen : Nat)
  /-- Before `get_ptr` is read to be returned. -/
  | peek (seen : Nat)

/-- What the calls return, with the number of elements that were held when the other side's pointer was read; and what
    is read from the array at an index, with the number of the element that it is. -/
inductive Answer (α : Type) where
  | accept (ok : Bool) (held : Nat)
  | supply (ok : Bool) (held : Nat)
  | elements (n : UInt8) (held : Nat)
  | read (a : α) (number : Nat)
  deriving DecidableEq

/-- The ring and its two sides: the index that a peek returned, until the call behind it, and the index that
    `ringbufindex_get` returned, until the next. Then what was accepted and delivered, and what the calls returned. -/
structure State (α : Type) where
  ring : Ringbuf α
  producer : Producer α
  consumer : Consumer α
  peekedPut : Option UInt8
  peekedGet : Option UInt8
  gotten : Option UInt8
  initial : List α
  accepted : List α
  delivered : List α
  answers : List (Answer α)

def start (r : Ringbuf α) : State α := ⟨r, .idle, .idle, none, none, none, r.contents, [], [], []⟩

/-- The number of elements held: those that were there and the accepted ones, less the delivered. -/
def State.held (s : State α) : Nat := s.initial.length + s.accepted.length - s.delivered.length

def State.answer (s : State α) (a : Answer α) : State α := { s with answers := s.answers ++ [a] }

/-- Behind the comparison of a producer's call. -/
def State.decidePut (s : State α) (call : PutCall α) (putPtr getPtr : UInt8) (seen : Nat) : State α :=
  let n := difference s.ring.mask putPtr getPtr
  match call with
  | .put c =>
      if n = s.ring.mask then { s with producer := .idle }.answer (.accept false seen)
      else { s with producer := .store c seen }
  | .indexPut =>
      if n = s.ring.mask then { s with producer := .idle }.answer (.accept false seen)
      else { s with producer := .bump none seen }
  | .peekPut =>
      if n = s.ring.mask then { s with producer := .idle, peekedPut := none }.answer (.accept false seen)
      else { s with producer := .peek seen }
  | .elements => { s with producer := .idle }.answer (.elements n seen)

/-- The next access of the producer; `getFirst` says which pointer of a comparison is read first. -/
def State.produce (s : State α) (getFirst : Bool) : Option (State α) :=
  match s.producer with
  | .idle => none
  | .check call (some p) (some g) => some (s.decidePut call p g.1 g.2)
  | .check call (some p) none => some { s with producer := .check call (some p) (some (s.ring.getPtr, s.held)) }
  | .check call none (some g) => some { s with producer := .check call (some s.ring.putPtr) (some g) }
  | .check call none none =>
      some { s with producer :=
        if getFirst then .check call none (some (s.ring.getPtr, s.held)) else .check call (some s.ring.putPtr) none }
  | .store c seen => some { s with producer := .storeAt c s.ring.putPtr seen }
  | .storeAt c p seen =>
      some { s with
        producer := .bump (some c) seen
        ring := { s.ring with data := Function.update s.ring.data p c } }
  | .bump c seen => some { s with producer := .bumpTo c s.ring.putPtr seen }
  | .bumpTo c p seen =>
      some ({ s with
        producer := .idle
        peekedPut := none
        ring := { s.ring with putPtr := following s.ring.mask p }
        accepted := s.accepted ++ [c.getD (s.ring.data p)] }.answer (.accept true seen))
  | .peek seen => some ({ s with producer := .idle, peekedPut := some s.ring.putPtr }.answer (.accept true seen))

/-- Behind the comparison of a consumer's call. -/
def State.decideGet (s : State α) (call : GetCall) (putPtr getPtr : UInt8) (seen : Nat) : State α :=
  let n := difference s.ring.mask putPtr getPtr
  match call with
  | .get =>
      if 0 < n then { s with consumer := .load seen } else { s with consumer := .idle }.answer (.supply false seen)
  | .indexGet =>
      if 0 < n then { s with consumer := .index seen } else { s with consumer := .idle }.answer (.supply false seen)
  | .peekGet =>
      if 0 < n then { s with consumer := .peek seen }
      else { s with consumer := .idle, peekedGet := none }.answer (.supply false seen)
  | .elements => { s with consumer := .idle }.answer (.elements n seen)

/-- The element that was taken. -/
def Ringbuf.taken (r : Ringbuf α) : Taken α → α
  | .byte c => c
  | .index i => r.data i

/-- The index that is returned. -/
def Taken.gotten : Taken α → Option UInt8
  | .byte _ => none
  | .index i => some i

/-- The next access of the consumer; `putFirst` says which pointer of a comparison is read first. -/
def State.consume (s : State α) (putFirst : Bool) : Option (State α) :=
  match s.consumer with
  | .idle => none
  | .check call (some p) (some g) => some (s.decideGet call p.1 g p.2)
  | .check call (some p) none => some { s with consumer := .check call (some p) (some s.ring.getPtr) }
  | .check call none (some g) => some { s with consumer := .check call (some (s.ring.putPtr, s.held)) (some g) }
  | .check call none none =>
      some { s with consumer :=
        if putFirst then .check call (some (s.ring.putPtr, s.held)) none else .check call none (some s.ring.getPtr) }
  | .load seen => some { s with consumer := .loadAt s.ring.getPtr seen }
  | .loadAt g seen => some { s with consumer := .bump (.byte (s.ring.data g)) seen }
  | .index seen => some { s with consumer := .bump (.index s.ring.getPtr) seen }
  | .bump taken seen => some { s with consumer := .bumpTo taken s.ring.getPtr seen }
  | .bumpTo taken g seen =>
      some ({ s with
        consumer := .idle
        peekedGet := none
        gotten := taken.gotten
        ring := { s.ring with getPtr := following s.ring.mask g }
        delivered := s.delivered ++ [s.ring.taken taken] }.answer (.supply true seen))
  | .peek seen => some ({ s with consumer := .idle, peekedGet := some s.ring.getPtr }.answer (.supply true seen))

/-- The calls and the accesses of the two sides, and between their calls the accesses to the array. -/
inductive Event (α : Type) where
  | call (c : PutCall α)
  | produce (getFirst : Bool)
  /-- The element is written at the index that `ringbufindex_peek_put` returned. -/
  | write (a : α)
  | ask (c : GetCall)
  | consume (putFirst : Bool)
  /-- The element is read at the index that `ringbufindex_peek_get` or `ringbufindex_get` returned. -/
  | read
  | readGotten

def step (s : State α) : Event α → Option (State α)
  | .call c =>
      match s.producer with
      | .idle => some { s with producer := .check c none none }
      | _ => none
  | .produce getFirst => s.produce getFirst
  | .write a =>
      match s.producer, s.peekedPut with
      | .idle, some p => some { s with ring := { s.ring with data := Function.update s.ring.data p a } }
      | _, _ => none
  | .ask c =>
      match s.consumer with
      | .idle => some { s with consumer := .check c none none }
      | _ => none
  | .consume putFirst => s.consume putFirst
  | .read =>
      match s.consumer, s.peekedGet with
      | .idle, some g => some (s.answer (.read (s.ring.data g) s.delivered.length))
      | _, _ => none
  | .readGotten =>
      match s.consumer, s.gotten with
      | .idle, some i => some (s.answer (.read (s.ring.data i) (s.delivered.length - 1)))
      | _, _ => none

end CSync.Rings
