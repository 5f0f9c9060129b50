import CSync.Lib.BitFields
import CSync.Lib.Bytes

/-! The bit-optimised packet headers of Rime (`chameleon-bitopt.c`, `packetbuf.c`, `channel.c`).

    A header is the number of a channel and the attributes of the channel's list, each in as many bits as the list
    says. The packet buffer is a function from offsets to bytes, as what is written and read is not checked against
    its size; an attribute has 16 bits, an address `LINKADDR_SIZE` bytes. The size of the attributes of a channel,
    in bits, is kept in a `uint8_t`. -/

namespace CSync.Chameleon

open Lib Function

/-- The types of `packetbuf.h`, `LINKADDR_SIZE` and `CHAMELEON_WITH_MAC_LINK_ADDRESSES`. -/
structure Config where
  /-- `PACKETBUF_ADDR_FIRST`, which is `PACKETBUF_ADDR_SENDER`; `PACKETBUF_ADDR_RECEIVER` is the next one. -/
  addrFirst : Nat
  linkaddrSize : Nat
  withMacLinkAddresses : Bool

def packetbufSize : Nat := 128

def bitoptHdrSize : Nat := 2

/-- `struct packetbuf_attrlist`. -/
structure Attr where
  type : Nat
  len : Nat
  deriving DecidableEq

structure Channel where
  channelno : UInt16
  attrlist : List Attr
  hdrsize : UInt8

/-! ### The packet buffer -/

/-- The packet buffer, whose header and data fit into it. -/
structure Packetbuf where
  bytes : Nat → UInt8
  bufptr : Nat
  hdrlen : Nat
  buflen : Nat
  attrs : Nat → UInt16
  addrs : Nat → Nat → UInt8
  fits : bufptr + hdrlen + buflen ≤ packetbufSize

namespace Packetbuf

def totlen (b : Packetbuf) : Nat := b.bufptr + b.hdrlen + b.buflen

def dataptr (b : Packetbuf) : Nat := b.bufptr + b.hdrlen

def hdralloc (size : Nat) (b : Packetbuf) : Option Packetbuf :=
  if h : packetbufSize < size + b.totlen then none
  else
    some { b with
      bytes := fun i => if size ≤ i ∧ i < size + b.totlen then b.bytes (i - size) else b.bytes i
      hdrlen := b.hdrlen + size
      fits := by
        rw [totlen] at h
        omega }

def hdrreduce (size : Nat) (b : Packetbuf) : Option Packetbuf :=
  if h : b.buflen < size then none
  else
    some { b with
      bufptr := b.bufptr + size
      buflen := b.buflen - size
      fits := by
        have := b.fits
        omega }

def sent (b : Packetbuf) : List UInt8 := slice b.bytes 0 b.hdrlen ++ slice b.bytes b.dataptr b.buflen

/-- `packetbuf_copyfrom`, into a buffer of any content. -/
def copyfrom (from_ : List UInt8) (stale : Nat → UInt8) : Packetbuf where
  bytes := store stale 0 (from_.take packetbufSize)
  bufptr := 0
  hdrlen := 0
  buflen := min packetbufSize from_.length
  attrs _ := 0
  addrs _ _ := 0
  fits := by omega

end Packetbuf

/-! ### Bits -/

def bitmask : List Nat := [0x00, 0x80, 0xc0, 0xe0, 0xf0, 0xf8, 0xfc, 0xfe, 0xff]

def getBitsInByte (m : Nat → UInt8) (from_ bitpos vallen : Nat) : UInt8 :=
  let shiftedVal := (m from_).toNat <<< 8 ||| (m (from_ + 1)).toNat
  UInt8.ofNat (((shiftedVal <<< bitpos % 65536) >>> 8 &&& bitmask.getD vallen 0) >>> (8 - vallen))

def getBits (into : Nat → UInt8) (m : Nat → UInt8) (from_ bitpos vallen : Nat) : Nat → UInt8 :=
  if vallen < 8 then update into 0 (getBitsInByte m from_ bitpos vallen)
  else
    let n := vallen / 8
    let into : Nat → UInt8 := fun i =>
      if i < n then if bitpos = 0 then m (from_ + i) else getBitsInByte m (from_ + i) bitpos 8 else into i
    let bits := vallen % 8
    if bits = 0 then into else update into n (getBitsInByte m (from_ + n) bitpos bits)

def setBitsInByte (m : Nat → UInt8) (target bitpos val vallen : Nat) : Nat → UInt8 :=
  let shiftedVal := val <<< (8 - bitpos + 8 - vallen) % 65536
  let m := update m target (m target ||| UInt8.ofNat (shiftedVal >>> 8))
  update m (target + 1) (m (target + 1) ||| UInt8.ofNat (shiftedVal &&& 0xff))

/-- The loop over the whole bytes of a value. -/
def setWhole (m : Nat → UInt8) (ptr bitpos : Nat) (val : Nat → UInt8) : Nat → Nat → UInt8
  | 0 => m
  | n + 1 =>
    let m := setWhole m ptr bitpos val n
    if bitpos = 0 then update m (ptr + n) (val n)
    else setBitsInByte m (ptr + n) bitpos (val n).toNat 8

/-- `set_bits`; behind the whole bytes the position in the byte is left out. -/
def setBits (m : Nat → UInt8) (ptr bitpos : Nat) (val : Nat → UInt8) (vallen : Nat) : Nat → UInt8 :=
  if vallen < 8 then setBitsInByte m ptr bitpos (val 0).toNat vallen
  else
    let n := vallen / 8
    let m := setWhole m ptr bitpos val n
    let bits := vallen % 8
    if bits = 0 then m
    else if bitpos = 0 then setBitsInByte m (ptr + n) 0 ((val n).toNat >>> (8 - bits)) bits
    else setBitsInByte m (ptr + n) 0 ((val n).toNat >>> (8 - bits + bitpos)) bits

/-! ### Headers -/

section
variable (cfg : Config)

/-- `PACKETBUF_IS_ADDR`. -/
def isAddr (type : Nat) : Bool := decide (cfg.addrFirst ≤ type)

/-- Sender and receiver are left to the link layer. -/
def leftToLinkLayer (a : Attr) : Bool :=
  cfg.withMacLinkAddresses && (a.type == cfg.addrFirst || a.type == cfg.addrFirst + 1)

def headerSize : List Attr → Nat
  | [] => 0
  | a :: as => if leftToLinkLayer cfg a then headerSize as else a.len + headerSize as

def channelSetAttributes (c : Channel) (attrlist : List Attr) : Channel :=
  { c with attrlist := attrlist, hdrsize := UInt8.ofNat (headerSize cfg attrlist) }

/-- The size of the attributes in bytes. -/
def hdrByteSize (c : Channel) : Nat := c.hdrsize.toNat / 8 + if c.hdrsize.toNat % 8 = 0 then 0 else 1

def le16Write (v : UInt16) : Nat → UInt8 := fun i =>
  if i = 0 then UInt8.ofNat (v.toNat % 256) else if i = 1 then UInt8.ofNat (v.toNat / 256) else 0

def le16Read (p : Nat → UInt8) : UInt16 := UInt16.ofNat ((p 1).toNat <<< 8 ||| (p 0).toNat)

def valueBytes (attrs : Nat → UInt16) (addrs : Nat → Nat → UInt8) (type : Nat) : Nat → UInt8 :=
  if isAddr cfg type then addrs type else le16Write (attrs type)

/-- The loop of `pack_header` over the attributes, from bit `bitptr` of the header at `hdrptr` on. -/
def packLoop (attrs : Nat → UInt16) (addrs : Nat → Nat → UInt8) (hdrptr : Nat) :
    List Attr → Nat → (Nat → UInt8) → Nat → UInt8
  | [], _, m => m
  | a :: as, bitptr, m =>
    if leftToLinkLayer cfg a then packLoop attrs addrs hdrptr as bitptr m
    else packLoop attrs addrs hdrptr as (bitptr + a.len)
      (setBits m (hdrptr + bitptr / 8) (bitptr % 8) (valueBytes cfg attrs addrs a.type) a.len)

/-- `pack_header`; `none` where there is no space. -/
def packHeader (c : Channel) (b : Packetbuf) : Option Packetbuf :=
  match b.hdralloc (hdrByteSize c + bitoptHdrSize) with
  | none => none
  | some b =>
    let m := update (update b.bytes 0 (UInt8.ofNat (c.channelno.toNat % 256)))
      1 (UInt8.ofNat (c.channelno.toNat / 256))
    let m : Nat → UInt8 := fun i =>
      if bitoptHdrSize ≤ i ∧ i < bitoptHdrSize + hdrByteSize c then 0 else m i
    some { b with bytes := packLoop cfg b.attrs b.addrs bitoptHdrSize c.attrlist 0 m }

/-- The loop of `unpack_header`; the `linkaddr_t` on the stack is not initialised. -/
def unpackLoop (m : Nat → UInt8) (stack : Nat → UInt8) (hdrptr : Nat) :
    List Attr → Nat → (Nat → UInt16) × (Nat → Nat → UInt8) → (Nat → UInt16) × (Nat → Nat → UInt8)
  | [], _, s => s
  | a :: as, bitptr, (attrs, addrs) =>
    if leftToLinkLayer cfg a then unpackLoop m stack hdrptr as bitptr (attrs, addrs)
    else if isAddr cfg a.type then
      unpackLoop m stack hdrptr as (bitptr + a.len)
        (attrs, update addrs a.type (getBits stack m (hdrptr + bitptr / 8) (bitptr % 8) a.len))
    else
      let buffer := getBits (fun _ => 0) m (hdrptr + bitptr / 8) (bitptr % 8) a.len
      unpackLoop m stack hdrptr as (bitptr + a.len) (update attrs a.type (le16Read buffer), addrs)

def unpackHeader (channelLookup : UInt16 → Option Channel) (stack : Nat → UInt8) (b : Packetbuf) :
    Option (Channel × Packetbuf) :=
  let hdr := b.dataptr
  match b.hdrreduce bitoptHdrSize with
  | none => none
  | some b =>
    match channelLookup (UInt16.ofNat ((b.bytes (hdr + 1)).toNat <<< 8 + (b.bytes hdr).toNat)) with
    | none => none
    | some c =>
      let hdrptr := b.dataptr
      match b.hdrreduce (hdrByteSize c) with
      | none => none
      | some b =>
        let (attrs, addrs) := unpackLoop cfg b.bytes stack hdrptr c.attrlist 0 (b.attrs, b.addrs)
        some (c, { b with attrs := attrs, addrs := addrs })

end

end CSync.Chameleon
