import CSync.Lib.Run
import CSync.Sicslowpan.Iphc

/-! Reassembly (`sicslowpan.c`, `input`).

    A received packet is whole, a first fragment or a later one. The first fragment of a datagram takes a
    context, which keeps its bytes with the headers written out; the later ones go into a pool of buffers
    that all contexts share. A count of bytes says when a datagram is complete; its pieces are then copied
    into `uip_buf`. The buffers are regions, so the model remembers every write that went astray. -/

namespace CSync

open Lib

namespace Sicslowpan

/-! ### Static data -/

/-- The build: `SICSLOWPAN_FRAGMENT_BUFFERS`, `SICSLOWPAN_REASS_CONTEXTS`, `SICSLOWPAN_FRAGMENT_SIZE`, `UIP_BUFSIZE`,
    `UIP_LLH_LEN`, `PACKETBUF_SIZE`, and whether headers are compressed with HC06. A context has a number in `int8_t`,
    the headers fit where they are written out, and `uip_buf` is no larger than uIP asks for. -/
structure LowpanConfig where
  fragmentBuffers : Nat
  reassContexts : Nat
  fragmentSize : Nat
  uipBufsize : Nat
  llhLen : Nat
  packetbufSize : Nat
  hc06 : Bool
  contexts_pos : 0 < reassContexts
  contexts_le : reassContexts ≤ 128
  first_headers : iphLen + udphLen ≤ fragmentSize + 38
  uip_headers : llhLen + (iphLen + udphLen) ≤ uipBufsize
  uip_limit : uipBufsize ≤ 1514

def LowpanConfig.firstFragmentSize (c : LowpanConfig) : Nat := c.fragmentSize + 38

/-- The bytes of `uip_buf` from `UIP_IP_BUF` on. -/
def LowpanConfig.uipSize (c : LowpanConfig) : Nat := c.uipBufsize - c.llhLen

/-- `struct sicslowpan_frag_info`, the timer aside. -/
structure FragInfo where
  sender : LinkAddr
  tag : UInt16
  len : Nat
  reassembledLen : Nat
  firstFragLen : Nat
  firstFrag : Region

/-- `struct sicslowpan_frag_buf`. -/
structure FragBuf (c : LowpanConfig) where
  index : Fin c.reassContexts
  offset : Nat
  len : Nat
  data : Region

/-- `frag_info`, `frag_buf` and `uip_buf`. -/
structure Lowpan (c : LowpanConfig) where
  fragInfo : Fin c.reassContexts → FragInfo
  fragBuf : Fin c.fragmentBuffers → FragBuf c
  uip : Region

/-- A reception: the packet with its link-layer addresses, what of it stands in `packetbuf` (the bytes
    behind `datalen` are whatever stood there), which reassembly timers have expired, and what the rest of
    the stack has left in `uip_buf`. -/
structure Packetbuf (c : LowpanConfig) where
  sender : LinkAddr
  receiver : LinkAddr
  data : Nat → UInt8
  datalen : Nat
  expired : Fin c.reassContexts → Bool
  left : Nat → UInt8
  datalen_le : datalen ≤ c.packetbufSize

variable {c : LowpanConfig}

/-- All memory is zero at the start. -/
def Lowpan.init (c : LowpanConfig) : Lowpan c where
  fragInfo _ := ⟨Vector.replicate 8 0, 0, 0, 0, 0, ⟨c.firstFragmentSize, fun _ => 0, true⟩⟩
  fragBuf _ := ⟨⟨0, c.contexts_pos⟩, 0, 0, ⟨c.fragmentSize, fun _ => 0, true⟩⟩
  uip := ⟨c.uipSize, fun _ => 0, true⟩

/-- An update of the context `i`. -/
def Lowpan.onInfo (s : Lowpan c) (i : Fin c.reassContexts) (f : FragInfo → FragInfo) : Lowpan c :=
  { s with fragInfo := fun j => if j = i then f (s.fragInfo j) else s.fragInfo j }

/-! ### Contexts and buffers -/

/-- `clear_fragments`: the context and its buffers are free again; gives the number of buffers. -/
def clearFragments (s : Lowpan c) (i : Fin c.reassContexts) : Lowpan c × Nat :=
  ({ s.onInfo i fun f => { f with len := 0 } with
      fragBuf := fun j => if 0 < (s.fragBuf j).len ∧ (s.fragBuf j).index = i
        then { s.fragBuf j with len := 0 } else s.fragBuf j },
    (List.finRange c.fragmentBuffers).countP fun j => 0 < (s.fragBuf j).len ∧ (s.fragBuf j).index = i)

/-- One turn of the loop of `timeout_fragments`. -/
def timeoutTurn (p : Packetbuf c) (notContext : Fin c.reassContexts) (a : Lowpan c × Nat)
    (i : Fin c.reassContexts) : Lowpan c × Nat :=
  if 0 < (a.1.fragInfo i).len ∧ i ≠ notContext ∧ p.expired i then
    ((clearFragments a.1 i).1, a.2 + (clearFragments a.1 i).2)
  else a

def timeoutFragments (s : Lowpan c) (p : Packetbuf c) (notContext : Fin c.reassContexts) :
    Lowpan c × Nat :=
  (List.finRange c.reassContexts).foldl (timeoutTurn p notContext) (s, 0)

/-- The first buffer that is not allocated. -/
def freeBuffer (s : Lowpan c) : Option (Fin c.fragmentBuffers) :=
  (List.finRange c.fragmentBuffers).find? fun j => (s.fragBuf j).len == 0

/-- A fragment as it is stored: the count of bytes is signed, the length kept of it has eight bits. -/
def fragmentOf (p : Packetbuf c) (hdrLen : Nat) (index : Fin c.reassContexts) (offset : Nat)
    (b : FragBuf c) : FragBuf c :=
  let count : Int := p.datalen - hdrLen
  ⟨index, offset, (count % 256).toNat, b.data.copy 0 count (dataFrom p.data hdrLen)⟩

/-- `store_fragment`; no value where it fails. -/
def storeFragment (s : Lowpan c) (p : Packetbuf c) (hdrLen : Nat) (index : Fin c.reassContexts)
    (offset : Nat) : Lowpan c × Option Nat :=
  match freeBuffer s with
  | some j =>
    ({ s with fragBuf := fun k => if k = j then fragmentOf p hdrLen index offset (s.fragBuf k)
        else s.fragBuf k },
      some (fragmentOf p hdrLen index offset (s.fragBuf j)).len)
  | none => (s, none)

/-- One turn of the loop that looks for a free context and frees the expired ones. -/
def firstTurn (p : Packetbuf c) (a : Lowpan c × Option (Fin c.reassContexts))
    (i : Fin c.reassContexts) : Lowpan c × Option (Fin c.reassContexts) :=
  let s := if 0 < (a.1.fragInfo i).len ∧ p.expired i then (clearFragments a.1 i).1 else a.1
  (s, if a.2 = none ∧ (s.fragInfo i).len = 0 then some i else a.2)

/-- The loop: the memory with the expired contexts freed, and the first context that is free. -/
def freeContext (s : Lowpan c) (p : Packetbuf c) : Lowpan c × Option (Fin c.reassContexts) :=
  (List.finRange c.reassContexts).foldl (firstTurn p) (s, none)

/-- The context of a later fragment. -/
def findContext (s : Lowpan c) (tag : UInt16) (sender : LinkAddr) : Option (Fin c.reassContexts) :=
  (List.finRange c.reassContexts).find? fun i =>
    (s.fragInfo i).tag == tag && decide (0 < (s.fragInfo i).len) && (s.fragInfo i).sender == sender

/-- `add_fragment`; no value for its `-1`. A first fragment is not stored here, only its context set up;
    what the context had counted before stays. -/
def addFragment (s : Lowpan c) (p : Packetbuf c) (hdrLen : Nat) (tag : UInt16) (fragSize offset : Nat) :
    Lowpan c × Option (Fin c.reassContexts) :=
  if offset = 0 then
    match freeContext s p with
    | (s, none) => (s, none)
    | (s, some i) =>
      (s.onInfo i fun f => { f with len := fragSize, tag := tag, sender := p.sender }, some i)
  else
    match findContext s tag p.sender with
    | none => (s, none)
    | some i =>
      let r := match storeFragment s p hdrLen i offset with
        | (s, some len) => (s, some len)
        | (s, none) =>
          -- a second try once the buffers of other, expired contexts are free
          let a := timeoutFragments s p i
          if 0 < a.2 then storeFragment a.1 p hdrLen i offset else (a.1, none)
      match r.2 with
      | some (len + 1) =>
        (r.1.onInfo i fun f => { f with reassembledLen := (f.reassembledLen + (len + 1)) % 65536 }, some i)
      | _ => (r.1, none)

/-- One turn of the loop of `copy_frags2uip`. -/
def copyTurn (s : Lowpan c) (i : Fin c.reassContexts) (uip : Region) (j : Fin c.fragmentBuffers) : Region :=
  if 0 < (s.fragBuf j).len ∧ (s.fragBuf j).index = i then
    uip.copy ((s.fragBuf j).offset * 8) (s.fragBuf j).len (s.fragBuf j).data.bytes
  else uip

def copyFrags2uip (s : Lowpan c) (i : Fin c.reassContexts) : Lowpan c :=
  let uip := s.uip.copy 0 (s.fragInfo i).firstFragLen (s.fragInfo i).firstFrag.bytes
  (clearFragments { s with uip := (List.finRange c.fragmentBuffers).foldl (copyTurn s i) uip } i).1

/-! ### Input -/

def get16 (data : Nat → UInt8) (i : Nat) : UInt16 := (data i).toUInt16 <<< 8 ||| (data (i + 1)).toUInt16

def dispatchIpv6 : UInt8 := 0x41
def dispatchFrag1 : UInt16 := 0xc0
def dispatchFragn : UInt16 := 0xe0
def ipv6HdrLen : Nat := 1
def frag1HdrLen : Nat := 4
def fragnHdrLen : Nat := 5

namespace Packetbuf

/-- The dispatch, size and tag of a fragment, and the offset of a later one. -/
def dispatch (p : Packetbuf c) : UInt16 := (get16 p.data 0 &&& 0xf800) >>> 8
def fragSize (p : Packetbuf c) : Nat := (get16 p.data 0 &&& 0x07ff).toNat
def fragTag (p : Packetbuf c) : UInt16 := get16 p.data 2
def fragOffset (p : Packetbuf c) : Nat := (p.data 4).toNat

end Packetbuf

/-- The header behind the fragmentation header, written out; no value for an unknown dispatch. -/
def uncompressHeader (t : AddrContexts) (p : Packetbuf c) (hdrLen fragSize : Nat) (buf : Region) :
    Option Uncompressed :=
  if c.hc06 ∧ p.data hdrLen &&& 0xe0 = dispatchIphc then
    some (uncompressHdrIphc t p.sender p.receiver p.data p.datalen hdrLen fragSize buf)
  else if p.data hdrLen = dispatchIpv6 then
    some ⟨buf.copy 0 iphLen (dataFrom p.data (hdrLen + ipv6HdrLen)), hdrLen + ipv6HdrLen + iphLen, iphLen⟩
  else none

/-- The checks behind `copypayload`: the headers are not longer than the packet, and what it asks for is
    not larger than `uip_buf`. -/
def accepts (p : Packetbuf c) (hdrLen uncompHdrLen fragOffset : Nat) : Prop :=
  hdrLen ≤ p.datalen ∧
    c.llhLen + uncompHdrLen + fragOffset * 8 + (p.datalen - hdrLen) ≤ c.uipBufsize

instance (p : Packetbuf c) (hdrLen uncompHdrLen fragOffset : Nat) :
    Decidable (accepts p hdrLen uncompHdrLen fragOffset) :=
  inferInstanceAs (Decidable (_ ∧ _))

/-- The rest of a packet behind its headers, copied behind the headers written out. -/
def copyPayload (p : Packetbuf c) (u : Uncompressed) : Region :=
  u.buf.copy u.uncompHdrLen (p.datalen - u.hdrLen : Nat) (dataFrom p.data u.hdrLen)

/-- A packet that is not a fragment goes into `uip_buf` at once. -/
def inputWhole (t : AddrContexts) (s : Lowpan c) (p : Packetbuf c) : Lowpan c × Option Nat :=
  match uncompressHeader t p 0 0 s.uip with
  | none => (s, none)
  | some u =>
    if accepts p u.hdrLen u.uncompHdrLen 0 then
      ({ s with uip := copyPayload p u }, some (p.datalen - u.hdrLen + u.uncompHdrLen))
    else ({ s with uip := u.buf }, none)

/-- A first fragment goes into its context. -/
def inputFirst (t : AddrContexts) (s : Lowpan c) (p : Packetbuf c) (i : Fin c.reassContexts) : Lowpan c :=
  match uncompressHeader t p frag1HdrLen p.fragSize (s.fragInfo i).firstFrag with
  | none => s
  | some u =>
    if accepts p u.hdrLen u.uncompHdrLen 0 then
      let len := u.uncompHdrLen + (p.datalen - u.hdrLen)
      s.onInfo i fun f =>
        if 0 < p.fragSize then
          { f with firstFrag := copyPayload p u, reassembledLen := len, firstFragLen := len }
        else { f with firstFrag := copyPayload p u }
    else s.onInfo i fun f => { f with firstFrag := u.buf }

/-- A later fragment is stored already. It is the last one if the count of the context has reached the size
    that this fragment states. -/
def inputNext (s : Lowpan c) (p : Packetbuf c) (i : Fin c.reassContexts) : Lowpan c × Option Nat :=
  if accepts p fragnHdrLen 0 p.fragOffset ∧ p.fragSize ≤ (s.fragInfo i).reassembledLen then
    if 0 < p.fragSize then
      (copyFrags2uip (s.onInfo i fun f => { f with reassembledLen := p.fragSize }) i, some p.fragSize)
    else (s, some p.fragSize)
  else (s, none)

/-- `uip_buf` as the rest of the stack has left it; only what follows `add_fragment` looks at it. -/
def Lowpan.leave (s : Lowpan c) (p : Packetbuf c) : Lowpan c :=
  { s with uip := { s.uip with bytes := p.left } }

/-- `input`, with `uip_len` where a packet is handed to the IP layer; it stands in `uip_buf`. -/
def input (t : AddrContexts) (s : Lowpan c) (p : Packetbuf c) : Lowpan c × Option Nat :=
  if p.dispatch = dispatchFrag1 then
    match addFragment s p frag1HdrLen p.fragTag p.fragSize 0 with
    | (s, none) => (s, none)
    | (s, some i) => (inputFirst t s p i, none)
  else if p.dispatch = dispatchFragn then
    match addFragment s p fragnHdrLen p.fragTag p.fragSize p.fragOffset with
    | (s, none) => (s, none)
    | (s, some i) => inputNext (s.leave p) p i
  else inputWhole t (s.leave p) p

/-- A reception as a step of the node. -/
def receive (t : AddrContexts) (s : Lowpan c) (p : Packetbuf c) : Option (Lowpan c) := some (input t s p).1

end Sicslowpan

end CSync
