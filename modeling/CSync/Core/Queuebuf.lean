import CSync.Lib.Bytes
import CSync.Lib.Pool
import CSync.Lib.Segments

/-! Queue buffers with swapping (`core/net/queuebuf.c`, `WITH_SWAP`).

    A queuebuf keeps its packet in a block of RAM or, when no block is left, in a record of one of four files. One
    static record, `tmpdata`, is what the swapped packets pass through, and `tmpdata_qbuf` points to the queuebuf
    whose packet it is. The pointer to a block and the number of a record share their storage. A file is an array of
    records of `sizeof(struct queuebuf_data)` bytes, because every seek is to a multiple of that.

    Beside what the code keeps there is the packet stored last for every queuebuf, and what was touched: `deref` for
    every `tmpdata_qbuf->swap_id`, `renew` for every file that is emptied, `copied` for every packet that is read back. -/

namespace CSync.Swap
open Lib

def nqbufFiles : Nat := 4

def nqbufPerFile : Nat := 256

def nqbufId : Nat := nqbufPerFile * nqbufFiles

/-- `PACKETBUF_SIZE`, and what a pointer to a block of RAM is when it is read as an `int`. -/
structure Platform (R : Nat) where
  packetbufSize : Nat
  addr : Fin R → Int
  /-- The length of a packet is a `uint16_t`. -/
  size_lt : packetbufSize < 65536

/-! ### Packets

    `A` and `B` are the tables of attributes and of addresses, which are only ever copied as a whole. -/

/-- What a packet is to a reader: its bytes, its attributes and its addresses. -/
structure Packet (A B : Type) where
  bytes : List UInt8
  attrs : A
  addrs : B
  deriving DecidableEq

/-- The packetbuf that is stored from: the header at its pointer, the data at its pointer. -/
structure Packetbuf (A B : Type) where
  hdr : List UInt8
  data : List UInt8
  attrs : A
  addrs : B

structure QueuebufData (A B : Type) where
  data : Nat → UInt8
  len : Nat
  attrs : A
  addrs : B

variable {A B : Type} {N R : Nat}

def packetbufCopyto (m : Platform R) (p : Packetbuf A B) (d : QueuebufData A B) : QueuebufData A B :=
  if m.packetbufSize < p.hdr.length + p.data.length then { d with len := 0 }
  else
    { d with
      data := store (store d.data 0 p.hdr) p.hdr.length p.data
      len := p.hdr.length + p.data.length }

def packetbufAttrCopyto (p : Packetbuf A B) (d : QueuebufData A B) : QueuebufData A B :=
  { d with attrs := p.attrs, addrs := p.addrs }

/-- `packetbuf_copyfrom` and `packetbuf_attr_copyfrom`: what the packetbuf is afterwards. -/
def packetbufCopyfrom (m : Platform R) (d : QueuebufData A B) : Packet A B :=
  ⟨slice d.data 0 (min m.packetbufSize d.len), d.attrs, d.addrs⟩

/-- The packet in a packetbuf. One that is too long is none. -/
def Packetbuf.packet (m : Platform R) (p : Packetbuf A B) : Packet A B :=
  ⟨if m.packetbufSize < p.hdr.length + p.data.length then [] else p.hdr ++ p.data, p.attrs, p.addrs⟩

/-! ### State -/

/-- The union in `struct queuebuf`: `ram_ptr` or `swap_id`. -/
inductive Word (R : Nat)
  | ramPtr (j : Fin R)
  | swapId (n : Int)

/-- `struct queuebuf`: whether its location is `IN_CFS`, and the union. -/
structure Queuebuf (R : Nat) where
  inCfs : Bool
  word : Word R

/-- `struct qbuf_file`, and the file: where it is read and written next, and its records. -/
structure QbufFile (A B : Type) where
  usage : Int
  renewable : Bool
  pos : Int
  records : Int → Option (QueuebufData A B)

/-- Something that was touched. -/
inductive Access (A B : Type)
  /-- `tmpdata_qbuf->swap_id`, and whether `tmpdata_qbuf` is an allocated queuebuf. -/
  | deref (allocated : Bool)
  /-- A file was emptied, and whether a live queuebuf had its packet there. -/
  | renew (held : Bool)
  /-- A packet was read back, and the one that was stored. -/
  | copied (got stored : Packet A B)
  /-- A swap id was used as the pointer to a block. -/
  | wild

/-- The static variables, the packets stored last, and what was touched. -/
structure State (A B : Type) (N R : Nat) where
  bufmem : Pool N (Queuebuf R)
  buframmem : Pool R (QueuebufData A B)
  tmpdata : QueuebufData A B
  tmpdataQbuf : Option (Fin N)
  nextSwapId : Nat
  files : Int → QbufFile A B
  /-- `renew_timer` is set. -/
  renewTimer : Bool
  stored : Fin N → Packet A B
  log : List (Access A B)

/-- The queuebuf is allocated. -/
def State.live (s : State A B N R) (b : Fin N) : Bool := s.bufmem.count b != 0

/-- The swap id of a live queuebuf that has one. -/
def State.idOf (s : State A B N R) (b : Fin N) : Option Nat :=
  if s.live b && (s.bufmem.mem b).inCfs then
    match (s.bufmem.mem b).word with
    | .swapId n => if 0 ≤ n then some n.toNat else none
    | .ramPtr _ => none
  else none

/-- A live queuebuf has its packet in file `f`. -/
def State.inFile (s : State A B N R) (f : Nat) (b : Fin N) : Bool := inSegment nqbufPerFile s.idOf f b

def State.access (s : State A B N R) (a : Access A B) : State A B N R := { s with log := a :: s.log }

def State.setFile (s : State A B N R) (f : Int) (file : QbufFile A B) : State A B N R :=
  { s with files := Function.update s.files f file }

def Word.asSwapId (m : Platform R) : Word R → Int
  | .ramPtr j => m.addr j
  | .swapId n => n

/-! ### Files -/

def qbufRenewFile (f : Nat) (s : State A B N R) : State A B N R :=
  let file := s.files f
  (s.access (.renew ((List.finRange N).any (s.inFile f)))).setFile f
    { usage := 0, renewable := false, pos := 0, records := if file.renewable then fun _ => none else file.records }

def qbufRenewAll : List Nat → State A B N R → State A B N R
  | [], s => s
  | f :: fs, s => qbufRenewAll fs (if (s.files f).renewable then qbufRenewFile f s else s)

/-- The first half of `queuebuf_remove_from_file`: the count, and the flag and the timer behind a file that became
    empty. -/
def countDown (fileid : Int) (s : State A B N R) : State A B N R :=
  let file := s.files fileid
  let usage := file.usage - 1
  if usage = 0 ∧ fileid ≠ (s.nextSwapId : Int).tdiv nqbufPerFile then
    { s.setFile fileid { file with usage := usage, renewable := true } with renewTimer := true }
  else s.setFile fileid { file with usage := usage }

def queuebufRemoveFromFile (m : Platform R) (swapId : Int) (s : State A B N R) : State A B N R :=
  if swapId = -1 then s
  else
    let s := countDown (swapId.tdiv nqbufPerFile) s
    match s.tmpdataQbuf with
    | none => s.access (.deref false)
    | some q =>
      let s := s.access (.deref (s.live q))
      if (s.bufmem.mem q).word.asSwapId m = swapId then
        { s with bufmem := s.bufmem.modify q fun b => { b with word := .swapId (-1) } }
      else s

/-- The last lines of `get_new_swap_id`: the next number is given out. -/
def takeSwapId (s : State A B N R) : State A B N R :=
  let fileid := s.nextSwapId / nqbufPerFile
  let file := s.files fileid
  { s.setFile fileid { file with usage := file.usage + 1 } with nextSwapId := (s.nextSwapId + 1) % nqbufId }

def getNewSwapId (s : State A B N R) : Int × State A B N R :=
  let swapId := s.nextSwapId
  let fileid := swapId / nqbufPerFile
  let first : Bool := swapId % nqbufPerFile == 0
  let s := if first && (s.files fileid).renewable then qbufRenewFile fileid s else s
  if first && decide (0 < (s.files fileid).usage) then (-1, s) else (swapId, takeSwapId s)

/-- `cfs_seek` and `cfs_write` of `tmpdata`; a negative offset is refused. -/
def writeTmpdata (swapId : Int) (s : State A B N R) : Int × State A B N R :=
  let fileid := swapId.tdiv nqbufPerFile
  let offset := swapId.tmod nqbufPerFile
  let file := s.files fileid
  if offset < 0 then (-1, s)
  else
    (0, s.setFile fileid
      { file with pos := offset + 1, records := Function.update file.records offset (some s.tmpdata) })

/-- The second half of `queuebuf_flush_tmpdata`: a new swap id, and the record. -/
def storeTmpdata (q : Fin N) (s : State A B N R) : Int × State A B N R :=
  let r := getNewSwapId s
  let s := { r.2 with bufmem := r.2.bufmem.modify q fun b => { b with word := .swapId r.1 } }
  if r.1 = -1 then (-1, s) else writeTmpdata r.1 s

def queuebufFlushTmpdata (m : Platform R) (s : State A B N R) : Int × State A B N R :=
  match s.tmpdataQbuf with
  | none => (0, s)
  | some q =>
    let s := s.access (.deref (s.live q))
    storeTmpdata q (queuebufRemoveFromFile m ((s.bufmem.mem q).word.asSwapId m) s)

/-- `cfs_seek` and `cfs_read` into `tmpdata`; behind the end of the file nothing is read. -/
def readTmpdata (swapId : Int) (s : State A B N R) : State A B N R :=
  let fileid := swapId.tdiv nqbufPerFile
  let offset := swapId.tmod nqbufPerFile
  let file := s.files fileid
  let pos := if offset < 0 then file.pos else offset
  match file.records pos with
  | none => s.setFile fileid { file with pos := pos }
  | some d => { s.setFile fileid { file with pos := pos + 1 } with tmpdata := d }

/-- What `queuebuf_load_to_ram` returns a pointer to. -/
inductive Place (R : Nat)
  | ram (j : Fin R)
  | tmpdata
  | wild

def queuebufLoadToRam (m : Platform R) (b : Fin N) (s : State A B N R) : Place R × State A B N R :=
  if (s.bufmem.mem b).inCfs then
    let swapId := (s.bufmem.mem b).word.asSwapId m
    match s.tmpdataQbuf with
    | none => (.tmpdata, readTmpdata swapId { s with tmpdataQbuf := some b })
    | some q =>
      let s := s.access (.deref (s.live q))
      if (s.bufmem.mem q).word.asSwapId m = swapId then (.tmpdata, s)
      else (.tmpdata, readTmpdata swapId { s with tmpdataQbuf := some b })
  else
    match (s.bufmem.mem b).word with
    | .ramPtr j => (.ram j, s)
    | .swapId _ => (.wild, s)

/-- The record at a pointer changes. -/
def Place.modify (f : QueuebufData A B → QueuebufData A B) : Place R → State A B N R → State A B N R
  | .ram j, s => { s with buframmem := s.buframmem.modify j f }
  | .tmpdata, s => { s with tmpdata := f s.tmpdata }
  | .wild, s => s.access .wild

/-! ### The functions that are called -/

def queuebufNewFromPacketbuf (m : Platform R) (p : Packetbuf A B) (s : State A B N R) : State A B N R :=
  match s.bufmem.alloc with
  | (none, _) => s
  | (some b, bufmem) =>
    let stored := Function.update s.stored b (p.packet m)
    match s.buframmem.alloc with
    | (some j, buframmem) =>
      { s with
        bufmem := bufmem.modify b fun _ => ⟨false, .ramPtr j⟩
        buframmem := buframmem.modify j fun d => packetbufAttrCopyto p (packetbufCopyto m p d)
        stored := stored }
    | (none, _) =>
      let r := queuebufFlushTmpdata m
        { s with
          bufmem := bufmem.modify b fun _ => ⟨true, .swapId (-1)⟩
          tmpdataQbuf := some b
          tmpdata := packetbufAttrCopyto p (packetbufCopyto m p s.tmpdata)
          stored := stored }
      if r.1 = -1 then { r.2 with bufmem := r.2.bufmem.free b } else r.2

/-- What `queuebuf_update_attr_from_packetbuf` and `queuebuf_update_from_packetbuf` have in common: `f` changes the
    record, and `stored` is the packet it then stands for. -/
def queuebufUpdate (m : Platform R) (f : QueuebufData A B → QueuebufData A B) (stored : Packet A B) (b : Fin N)
    (s : State A B N R) : State A B N R :=
  let r := queuebufLoadToRam m b s
  let s := r.1.modify f { r.2 with stored := Function.update r.2.stored b stored }
  if (s.bufmem.mem b).inCfs then (queuebufFlushTmpdata m s).2 else s

def queuebufUpdateAttrFromPacketbuf (m : Platform R) (b : Fin N) (p : Packetbuf A B) (s : State A B N R) :
    State A B N R :=
  queuebufUpdate m (packetbufAttrCopyto p) { s.stored b with attrs := p.attrs, addrs := p.addrs } b s

def queuebufUpdateFromPacketbuf (m : Platform R) (b : Fin N) (p : Packetbuf A B) (s : State A B N R) : State A B N R :=
  queuebufUpdate m (fun d => packetbufCopyto m p (packetbufAttrCopyto p d)) (p.packet m) b s

def queuebufFree (m : Platform R) (b : Fin N) (s : State A B N R) : State A B N R :=
  let s :=
    if (s.bufmem.mem b).inCfs then queuebufRemoveFromFile m ((s.bufmem.mem b).word.asSwapId m) s
    else
      match (s.bufmem.mem b).word with
      | .ramPtr j => { s with buframmem := s.buframmem.free j }
      | .swapId _ => s.access .wild
  { s with bufmem := s.bufmem.free b }

def queuebufToPacketbuf (m : Platform R) (b : Fin N) (s : State A B N R) : State A B N R :=
  let r := queuebufLoadToRam m b s
  match r.1 with
  | .ram j => r.2.access (.copied (packetbufCopyfrom m (r.2.buframmem.mem j)) (r.2.stored b))
  | .tmpdata => r.2.access (.copied (packetbufCopyfrom m r.2.tmpdata) (r.2.stored b))
  | .wild => r.2.access .wild

/-- What is called, in any order. -/
inductive Call (A B : Type) (N : Nat)
  | new (p : Packetbuf A B)
  | update (b : Fin N) (p : Packetbuf A B)
  | updateAttr (b : Fin N) (p : Packetbuf A B)
  | toPacketbuf (b : Fin N)
  | free (b : Fin N)
  /-- `renew_timer` fires. -/
  | renewTimer

/-- One call; a queuebuf is only named while it is live. -/
def call (m : Platform R) (s : State A B N R) : Call A B N → Option (State A B N R)
  | .new p => some (queuebufNewFromPacketbuf m p s)
  | .update b p => if s.live b then some (queuebufUpdateFromPacketbuf m b p s) else none
  | .updateAttr b p => if s.live b then some (queuebufUpdateAttrFromPacketbuf m b p s) else none
  | .toPacketbuf b => if s.live b then some (queuebufToPacketbuf m b s) else none
  | .free b => if s.live b then some (queuebufFree m b s) else none
  | .renewTimer =>
    if s.renewTimer then some (qbufRenewAll (List.range nqbufFiles) { s with renewTimer := false }) else none

def queuebufInit (zero : QueuebufData A B) (blank : Packet A B) : State A B N R :=
  qbufRenewAll (List.range nqbufFiles)
    { bufmem := .init ⟨false, .swapId 0⟩, buframmem := .init zero, tmpdata := zero, tmpdataQbuf := none,
      nextSwapId := 0, files := fun _ => ⟨0, true, 0, fun _ => none⟩, renewTimer := false,
      stored := fun _ => blank, log := [] }

end CSync.Swap
