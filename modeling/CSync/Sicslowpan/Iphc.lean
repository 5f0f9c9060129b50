import CSync.Lib.Region

/-! Header compression (`sicslowpan.c`, IPHC).

    A packet is its bytes from the IPv6 header on: the version and traffic class at 0 and 1, the flow label
    behind, the length at 4, the next header at 6, the hop limit at 7, the addresses at 8 and 24, and a
    UDP header at 40. The encoder gives two bytes of flags, a byte of context numbers if there is one,
    and the fields that stand inline. The decoder walks over these and writes the fields it finds. -/

namespace CSync

open Lib

namespace Sicslowpan

/-! ### Addresses and contexts -/

/-- `linkaddr_t` and `uip_lladdr_t`, eight bytes. -/
abbrev LinkAddr := Vector UInt8 8

/-- The byte at index `i`. -/
def LinkAddr.u8 (a : LinkAddr) (i : Nat) : UInt8 := a.toList.getD i 0

/-- `struct sicslowpan_addr_context`. -/
structure AddrContext where
  used : UInt8
  number : UInt8
  pre : LinkAddr
  deriving DecidableEq

/-- `addr_contexts` as `sicslowpan_init` leaves it: the context in use at index `i` has the number `i`,
    which fits in four bits. -/
structure AddrContexts where
  contexts : List AddrContext
  numbered : ∀ (i : Nat) (c : AddrContext), contexts[i]? = some c → c.used = 1 →
    c.number.toNat = i ∧ i < 16

/-- `uip_ipaddr_prefixcmp` over 64 bits, with the address at offset `a`. -/
def prefixcmp (pre : LinkAddr) (ip : Nat → UInt8) (a : Nat) : Bool :=
  (List.range 8).all fun i => pre.u8 i == ip (a + i)

def addrContextLookupByPrefix (t : AddrContexts) (ip : Nat → UInt8) (a : Nat) : Option AddrContext :=
  t.contexts.find? fun c => c.used == 1 && prefixcmp c.pre ip a

def addrContextLookupByNumber (t : AddrContexts) (number : UInt8) : Option AddrContext :=
  t.contexts.find? fun c => c.used == 1 && c.number == number

/-- The bytes from `lo` to below `hi` of the address at `a` are zero. -/
def zeros (ip : Nat → UInt8) (a lo hi : Nat) : Bool :=
  (List.range (hi - lo)).all fun i => ip (a + lo + i) == 0

/-- `uip_is_addr_unspecified`, `uip_is_addr_linklocal` and `uip_is_addr_mcast`. -/
def isAddrUnspecified (ip : Nat → UInt8) (a : Nat) : Bool := zeros ip a 0 16
def isAddrLinklocal (ip : Nat → UInt8) (a : Nat) : Bool := ip a == 0xfe && ip (a + 1) == 0x80
def isAddrMcast (ip : Nat → UInt8) (a : Nat) : Bool := ip a == 0xff

/-- The interface identifier of a link-layer address. -/
def iidOf (lladdr : LinkAddr) (i : Nat) : UInt8 :=
  if i = 0 then lladdr.u8 0 ^^^ 2 else lladdr.u8 i

def isAddrMacAddrBased (ip : Nat → UInt8) (a : Nat) (lladdr : LinkAddr) : Bool :=
  (List.range 8).all fun i => ip (a + 8 + i) == iidOf lladdr i

def isIid16BitCompressable (ip : Nat → UInt8) (a : Nat) : Bool :=
  zeros ip a 8 11 && ip (a + 11) == 0xff && ip (a + 12) == 0xfe && ip (a + 13) == 0

def isMcastAddrCompressable8 (ip : Nat → UInt8) (a : Nat) : Bool :=
  ip (a + 1) == 2 && zeros ip a 2 15
def isMcastAddrCompressable32 (ip : Nat → UInt8) (a : Nat) : Bool := zeros ip a 2 13
def isMcastAddrCompressable48 (ip : Nat → UInt8) (a : Nat) : Bool := zeros ip a 2 11

/-! ### Flags -/

def dispatchIphc : UInt8 := 0x60
def iphcFlC : UInt8 := 0x10
def iphcTcC : UInt8 := 0x08
def iphcNhC : UInt8 := 0x04
def iphcCid : UInt8 := 0x80
def iphcSac : UInt8 := 0x40
def iphcM : UInt8 := 0x08
def iphcDac : UInt8 := 0x04
def protoUdp : UInt8 := 17

/-- `SICSLOWPAN_NHC_UDP_CS_P_00`, to which the port mode is added. -/
def nhcUdp : UInt8 := 0xf0

def udp4BitPortMin : UInt8 := 0xb0
def udp8BitPortMin : UInt8 := 0xf0

/-- `SICSLOWPAN_FRAG1_HDR_LEN` and the other header lengths. -/
def iphLen : Nat := 40
def udphLen : Nat := 8

/-! ### Encoder -/

/-- What a field becomes: flags and the bytes inline. -/
structure Enc where
  flags : UInt8
  bytes : List UInt8
  deriving DecidableEq

def compressAddr64 (bitpos : UInt8) (ip : Nat → UInt8) (a : Nat) (lladdr : LinkAddr) : Enc :=
  if isAddrMacAddrBased ip a lladdr then ⟨3 <<< bitpos, []⟩
  else if isIid16BitCompressable ip a then ⟨2 <<< bitpos, slice ip (a + 14) 2⟩
  else ⟨1 <<< bitpos, slice ip (a + 8) 8⟩

/-- The traffic class with its parts exchanged: ECN and then DSCP. -/
def trafficClass (ip : Nat → UInt8) : UInt8 :=
  let tmp := (ip 0 <<< 4) ||| (ip 1 >>> 4)
  ((tmp &&& 3) <<< 6) ||| (tmp >>> 2)

/-- Traffic class and flow label. -/
def compressTraffic (ip : Nat → UInt8) : Enc :=
  let tmp := trafficClass ip
  if ip 1 &&& 0x0f = 0 ∧ ip 2 = 0 ∧ ip 3 = 0 then
    if ip 0 &&& 0x0f = 0 ∧ ip 1 &&& 0xf0 = 0 then ⟨iphcFlC ||| iphcTcC, []⟩
    else ⟨iphcFlC, [tmp]⟩
  else if ip 0 &&& 0x0f = 0 ∧ ip 1 &&& 0xf0 = 0 then
    ⟨iphcTcC, [(tmp &&& 0xc0) ||| (ip 1 &&& 0x0f), ip 2, ip 3]⟩
  else ⟨0, [tmp, ip 1, ip 2, ip 3]⟩

def compressNextHeader (ip : Nat → UInt8) : Enc :=
  if ip 6 = protoUdp then ⟨iphcNhC, []⟩ else ⟨0, [ip 6]⟩

def compressHopLimit (ip : Nat → UInt8) : Enc :=
  if ip 7 = 1 then ⟨1, []⟩
  else if ip 7 = 64 then ⟨2, []⟩
  else if ip 7 = 255 then ⟨3, []⟩
  else ⟨0, [ip 7]⟩

/-- Source address, with the number of its context. Whether the bytes behind a link-local prefix are zero
    is asked of the destination. -/
def compressSource (t : AddrContexts) (lladdr : LinkAddr) (ip : Nat → UInt8) : Enc × UInt8 :=
  if isAddrUnspecified ip 8 then (⟨iphcSac, []⟩, 0)
  else match addrContextLookupByPrefix t ip 8 with
    | some context =>
      let r := compressAddr64 4 ip 8 lladdr
      (⟨iphcCid ||| iphcSac ||| r.flags, r.bytes⟩, context.number <<< 4)
    | none =>
      if isAddrLinklocal ip 8 && zeros ip 24 2 8 then (compressAddr64 4 ip 8 lladdr, 0)
      else (⟨0, slice ip 8 16⟩, 0)

/-- A multicast destination. -/
def compressMcast (ip : Nat → UInt8) : Enc :=
  if isMcastAddrCompressable8 ip 24 then ⟨iphcM ||| 3, [ip 39]⟩
  else if isMcastAddrCompressable32 ip 24 then ⟨iphcM ||| 2, ip 25 :: slice ip 37 3⟩
  else if isMcastAddrCompressable48 ip 24 then ⟨iphcM ||| 1, ip 25 :: slice ip 35 5⟩
  else ⟨iphcM, slice ip 24 16⟩

/-- Destination address, with the number of its context. -/
def compressDest (t : AddrContexts) (lladdr : LinkAddr) (ip : Nat → UInt8) : Enc × UInt8 :=
  if isAddrMcast ip 24 then (compressMcast ip, 0)
  else match addrContextLookupByPrefix t ip 24 with
    | some context =>
      let r := compressAddr64 0 ip 24 lladdr
      (⟨iphcDac ||| r.flags, r.bytes⟩, context.number)
    | none =>
      if isAddrLinklocal ip 24 && zeros ip 24 2 8 then (compressAddr64 0 ip 24 lladdr, 0)
      else (⟨0, slice ip 24 16⟩, 0)

/-- UDP ports: both with four bits, one of them with eight, or none. -/
def compressPorts (ip : Nat → UInt8) : List UInt8 :=
  if ip 40 = 0xf0 ∧ ip 41 &&& 0xf0 = udp4BitPortMin ∧ ip 42 = 0xf0 ∧ ip 43 &&& 0xf0 = udp4BitPortMin then
    [nhcUdp + 3, ((ip 41 - udp4BitPortMin) <<< 4) + (ip 43 - udp4BitPortMin)]
  else if ip 42 = udp8BitPortMin then [nhcUdp + 1, ip 40, ip 41, ip 43]
  else if ip 40 = udp8BitPortMin then [nhcUdp + 2, ip 41, ip 42, ip 43]
  else [nhcUdp, ip 40, ip 41, ip 42, ip 43]

/-- The UDP header; the checksum is always inline. -/
def compressUdp (ip : Nat → UInt8) : List UInt8 :=
  if ip 6 = protoUdp then compressPorts ip ++ slice ip 46 2 else []

/-- The length of the headers that are compressed. -/
def compressedHdrLen (ip : Nat → UInt8) : Nat :=
  iphLen + (if ip 6 = protoUdp then udphLen else 0)

/-- A context is found for one of the addresses. -/
def hasContext (t : AddrContexts) (ip : Nat → UInt8) : Bool :=
  (addrContextLookupByPrefix t ip 24).isSome || (addrContextLookupByPrefix t ip 8).isSome

/-- The two bytes of flags, `iphc0` and `iphc1`. -/
def encodeIphc0 (ip : Nat → UInt8) : UInt8 :=
  dispatchIphc ||| (compressTraffic ip).flags ||| (compressNextHeader ip).flags |||
    (compressHopLimit ip).flags

def encodeIphc1 (t : AddrContexts) (lladdr destaddr : LinkAddr) (ip : Nat → UInt8) : UInt8 :=
  (if hasContext t ip then iphcCid else 0) ||| (compressSource t lladdr ip).1.flags |||
    (compressDest t destaddr ip).1.flags

/-- The byte of context numbers. -/
def encodeContexts (t : AddrContexts) (lladdr destaddr : LinkAddr) (ip : Nat → UInt8) : List UInt8 :=
  if hasContext t ip then [(compressSource t lladdr ip).2 ||| (compressDest t destaddr ip).2] else []

/-- `compress_hdr_iphc`: the bytes that replace the headers of `ip`. -/
def compressHdrIphc (t : AddrContexts) (lladdr destaddr : LinkAddr) (ip : Nat → UInt8) :
    List UInt8 :=
  [encodeIphc0 ip, encodeIphc1 t lladdr destaddr ip] ++ encodeContexts t lladdr destaddr ip ++
    (compressTraffic ip).bytes ++ (compressNextHeader ip).bytes ++ (compressHopLimit ip).bytes ++
    (compressSource t lladdr ip).1.bytes ++ (compressDest t destaddr ip).1.bytes ++ compressUdp ip

/-! ### Decoder -/

/-- The buffer that is written, and `hc06_ptr` as an offset into the packet. -/
structure Dec where
  buf : Region
  ptr : Nat

def dataFrom (data : Nat → UInt8) (o : Nat) : Nat → UInt8 := fun i => data (o + i)

def setAddrIid (buf : Region) (a : Nat) (lladdr : LinkAddr) : Region :=
  let buf := buf.copy (a + 8) 8 lladdr.u8
  buf.put (a + 8) (buf.bytes (a + 8) ^^^ 2)

/-- The counts of `pref_post_count`: a full nibble stands for sixteen. -/
def nibble (n : Nat) : Nat := if n = 15 then 16 else n

/-- `uncompress_addr`, to the address at offset `a`. -/
def uncompressAddr (data : Nat → UInt8) (a : Nat) (pre : Nat → UInt8) (prefPostCount : Nat)
    (lladdr : LinkAddr) (d : Dec) : Dec :=
  let prefcount := nibble (prefPostCount / 16)
  let postcount := nibble (prefPostCount % 16)
  let buf := if 0 < prefcount then d.buf.copy a prefcount pre else d.buf
  let buf := if prefcount + postcount < 16
    then buf.copy (a + prefcount) (16 - (prefcount + postcount) : Nat) fun _ => 0 else buf
  if 0 < postcount then
    let buf := buf.copy (a + (16 - postcount)) postcount (dataFrom data d.ptr)
    let buf := if postcount = 2 ∧ prefcount < 11 then (buf.put (a + 11) 0xff).put (a + 12) 0xfe
      else buf
    ⟨buf, d.ptr + postcount⟩
  else if 0 < prefcount then ⟨setAddrIid buf a lladdr, d.ptr⟩
  else ⟨buf, d.ptr⟩

/-- `unc_llconf`, `unc_ctxconf` and `unc_mxconf`. -/
def uncLlconf (mode : UInt8) : Nat := [0x0f, 0x28, 0x22, 0x20].getD mode.toNat 0
def uncCtxconf (mode : UInt8) : Nat := [0x00, 0x88, 0x82, 0x80].getD mode.toNat 0
def uncMxconf (mode : UInt8) : Nat := [0x0f, 0x25, 0x23, 0x21].getD mode.toNat 0

def llprefix (i : Nat) : UInt8 := [0xfe, 0x80].getD i 0

/-- Traffic class and flow label. -/
def uncompressTraffic (data : Nat → UInt8) (iphc0 : UInt8) (d : Dec) : Dec :=
  let tmp := data d.ptr
  let vtc : UInt8 := (0x60 : UInt8) ||| ((tmp >>> 2) &&& (0x0f : UInt8))
  let ecn : UInt8 := (tmp >>> 2) &&& (0x30 : UInt8)
  if iphc0 &&& iphcFlC = 0 then
    if iphc0 &&& iphcTcC = 0 then
      let buf := d.buf.copy 1 3 (dataFrom data (d.ptr + 1))
      let buf := buf.put 0 vtc
      let buf := buf.put 1 (ecn ||| (tmp <<< 6) ||| (buf.bytes 1 &&& (0x0f : UInt8)))
      ⟨buf, d.ptr + 4⟩
    else
      let buf := d.buf.put 0 0x60
      let buf := buf.put 1 ((tmp &&& (0x0f : UInt8)) ||| ecn)
      ⟨buf.copy 2 2 (dataFrom data (d.ptr + 1)), d.ptr + 3⟩
  else if iphc0 &&& iphcTcC = 0 then
    let buf := d.buf.put 0 vtc
    let buf := buf.put 1 (((tmp <<< 6) &&& (0xc0 : UInt8)) ||| ecn)
    ⟨buf.copy 2 2 fun _ => 0, d.ptr + 1⟩
  else ⟨((d.buf.put 0 0x60).put 1 0).copy 2 2 fun _ => 0, d.ptr⟩

def uncompressNextHeader (data : Nat → UInt8) (iphc0 : UInt8) (d : Dec) : Dec :=
  if iphc0 &&& iphcNhC = 0 then ⟨d.buf.put 6 (data d.ptr), d.ptr + 1⟩ else d

def uncompressHopLimit (data : Nat → UInt8) (iphc0 : UInt8) (d : Dec) : Dec :=
  if iphc0 &&& 3 ≠ 0 then ⟨d.buf.put 7 ([0, 1, 64, 255].getD (iphc0 &&& 3).toNat 0), d.ptr⟩
  else ⟨d.buf.put 7 (data d.ptr), d.ptr + 1⟩

/-- `((iphc1 & SAM_11) >> SAM_BIT) & 0x03`. -/
def sourceMode (iphc1 : UInt8) : UInt8 := ((iphc1 &&& (0x30 : UInt8)) >>> 4) &&& (3 : UInt8)

/-- Source address; no value where its context is not found. `cids` is the byte of context numbers. -/
def uncompressSource (t : AddrContexts) (sender : LinkAddr) (data : Nat → UInt8) (iphc1 cids : UInt8)
    (d : Dec) : Option Dec :=
  let tmp := sourceMode iphc1
  if iphc1 &&& iphcSac ≠ 0 then
    let sci := if iphc1 &&& iphcCid ≠ 0 then cids >>> 4 else 0
    if tmp ≠ 0 then
      (addrContextLookupByNumber t sci).map fun context =>
        uncompressAddr data 8 context.pre.u8 (uncCtxconf tmp) sender d
    else some (uncompressAddr data 8 (fun _ => 0) (uncCtxconf tmp) sender d)
  else some (uncompressAddr data 8 llprefix (uncLlconf tmp) sender d)

/-- Destination address; a multicast address with a context is left as it was. -/
def uncompressDest (t : AddrContexts) (receiver : LinkAddr) (data : Nat → UInt8)
    (iphc1 cids : UInt8) (d : Dec) : Option Dec :=
  let tmp := iphc1 &&& 3
  if iphc1 &&& iphcM ≠ 0 then
    if iphc1 &&& iphcDac ≠ 0 then some d
    else if 0 < tmp ∧ tmp < 3 then
      some (uncompressAddr data 24 (fun i => [0xff, data d.ptr].getD i 0) (uncMxconf tmp) receiver
        ⟨d.buf, d.ptr + 1⟩)
    else some (uncompressAddr data 24 (fun i => [0xff, 0x02].getD i 0) (uncMxconf tmp) receiver d)
  else if iphc1 &&& iphcDac ≠ 0 then
    let dci := if iphc1 &&& iphcCid ≠ 0 then cids &&& 0x0f else 0
    (addrContextLookupByNumber t dci).map fun context =>
      uncompressAddr data 24 context.pre.u8 (uncCtxconf tmp) receiver d
  else some (uncompressAddr data 24 llprefix (uncLlconf tmp) receiver d)

/-- The ports of a UDP header by their mode. -/
def uncompressPorts (data : Nat → UInt8) (mode : UInt8) (d : Dec) : Dec :=
  let p := d.ptr
  if mode = 0 then ⟨(d.buf.copy 40 2 (dataFrom data (p + 1))).copy 42 2 (dataFrom data (p + 3)), p + 5⟩
  else if mode = 1 then
    ⟨((d.buf.copy 40 2 (dataFrom data (p + 1))).put 42 udp8BitPortMin).put 43 (data (p + 3)), p + 4⟩
  else if mode = 2 then
    ⟨((d.buf.put 40 udp8BitPortMin).put 41 (data (p + 1))).copy 42 2 (dataFrom data (p + 2)), p + 4⟩
  else
    ⟨(((d.buf.put 40 0xf0).put 41 (udp4BitPortMin + (data (p + 1) >>> 4))).put 42 0xf0).put 43
      (udp4BitPortMin + (data (p + 1) &&& 0x0f)), p + 2⟩

/-- Next header, continued: a UDP header, if there is one, and the length of the headers. -/
def uncompressUdp (data : Nat → UInt8) (iphc0 : UInt8) (d : Dec) : Dec × Nat :=
  let nhc := data d.ptr
  if iphc0 &&& iphcNhC ≠ 0 ∧ nhc &&& 0xf8 = nhcUdp then
    let d := uncompressPorts data (nhc &&& 3) ⟨d.buf.put 6 protoUdp, d.ptr⟩
    let d := if nhc &&& 4 = 0 then ⟨d.buf.copy 46 2 (dataFrom data d.ptr), d.ptr + 2⟩ else d
    (d, iphLen + udphLen)
  else (d, iphLen)

/-- The two bytes of a length. -/
def lenBytes (len : Int) (i : Nat) : UInt8 :=
  if i = 0 then .ofNat (len / 256 % 256).toNat else .ofNat (len % 256).toNat

/-- The length fields of the two headers. -/
def writeLengths (len : Int) (buf : Region) : Region :=
  let buf := buf.copy 4 2 (lenBytes len)
  if buf.bytes 6 = protoUdp then buf.copy 44 2 (dataFrom buf.bytes 4) else buf

/-- What the decoder leaves: the buffer, `packetbuf_hdr_len` and `uncomp_hdr_len`. -/
structure Uncompressed where
  buf : Region
  hdrLen : Nat
  uncompHdrLen : Nat

/-- `uncompress_hdr_iphc`, of a packet of `datalen` bytes whose first `hdrLen` are done. Where a context is
    missing it returns with the buffer half written and the lengths as they were. -/
def uncompressHdrIphc (t : AddrContexts) (sender receiver : LinkAddr) (data : Nat → UInt8)
    (datalen hdrLen ipLen : Nat) (buf : Region) : Uncompressed :=
  let iphc0 := data hdrLen
  let iphc1 := data (hdrLen + 1)
  let cids := data (hdrLen + 2)
  let d : Dec := ⟨buf, hdrLen + 2 + (if iphc1 &&& iphcCid ≠ 0 then 1 else 0)⟩
  let d := uncompressHopLimit data iphc0 (uncompressNextHeader data iphc0
    (uncompressTraffic data iphc0 d))
  match uncompressSource t sender data iphc1 cids d with
  | none => ⟨d.buf, hdrLen, 0⟩
  | some d =>
    match uncompressDest t receiver data iphc1 cids d with
    | none => ⟨d.buf, hdrLen, 0⟩
    | some d =>
      let (d, uncomp) := uncompressUdp data iphc0 d
      let hdrLen := d.ptr % 256
      let len : Int := if ipLen = 0 then (datalen : Int) - hdrLen + uncomp - iphLen else ipLen - iphLen
      ⟨writeLengths len d.buf, hdrLen, uncomp⟩

end Sicslowpan

end CSync
