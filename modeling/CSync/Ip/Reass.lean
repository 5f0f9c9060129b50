import CSync.Lib.Blocks
import CSync.Rpl.SourceRoute

/-! Reassembly of IPv6 fragments (`uip_reass` of `uip6.c`, with `UIP_CONF_IPV6_REASSEMBLY`).

    One datagram at a time is put together in `uip_reassbuf`: the headers in front of the fragment header at offset 0,
    and the payload behind them. `uip_reassbitmap` has a bit for every 8 bytes of payload, and `UIP_REASS_BUFSIZE /
    64` bytes. The two arrays are regions, which know whether a write left them. An `int` has 32 bits. -/

namespace CSync.Reass
open Lib SourceRoute

/-- `UIP_FRAGH_LEN`. -/
def fragHLen : Nat := 8

/-- `UIP_REASS_FLAG_LASTFRAG`, `UIP_REASS_FLAG_FIRSTFRAG` and `UIP_REASS_FLAG_ERROR_MSG`. -/
def flagLastFrag : UInt8 := 0x01
def flagFirstFrag : UInt8 := 0x02
def flagErrorMsg : UInt8 := 0x04

def ipMf : UInt16 := 0x0001

def bitmapBits (k : Nat) : UInt8 := [0xff, 0x7f, 0x3f, 0x1f, 0x0f, 0x07, 0x03, 0x01].getD k 0

/-- The statics of `uip_reass`; `id` is in the byte order of the packet. -/
structure State where
  on : Bool
  buf : Region
  bitmap : Region
  len : UInt16
  flags : UInt8
  id : List UInt8

/-- A received fragment: the packet with its lengths, and the index that `uip_next_hdr` points to. -/
structure Packet where
  uip : Uip
  nextHdr : Nat

/-- What `uip_reass` returns: 0, the length of the error message for a parameter problem, or a whole packet, which is in
    `uip_buf`, with its length. -/
inductive Outcome
  | drop
  | problem
  | whole (buf : Nat → UInt8) (len : UInt16)

/-! ### The fragment header -/

def fragNext (u : Uip) : UInt8 := u.buf u.ext

/-- `uip_ntohs(UIP_FRAG_BUF->offsetresmore)`. -/
def offsetResMore (u : Uip) : UInt16 := (u.buf (u.ext + 2)).toUInt16 <<< 8 ||| (u.buf (u.ext + 3)).toUInt16

def fragId (u : Uip) : List UInt8 := slice u.buf (u.ext + 4) 4

/-- `offset` and `len`. -/
def fragOffset (u : Uip) : UInt16 := offsetResMore u &&& 0xfff8
def fragLen (u : Uip) : UInt16 := u.len - u.extLen.toUInt16 - UInt16.ofNat iphLen - UInt16.ofNat fragHLen

def fragEnd (u : Uip) : Nat := (fragOffset u).toNat + (fragLen u).toNat

/-- The More Fragments flag. -/
def moreFrags (u : Uip) : Bool := offsetResMore u &&& ipMf ≠ 0

/-! ### The reassembly buffer -/

/-- Where `srcipaddr` and `destipaddr` stand in the IPv6 header. -/
def srcOffset : Nat := 8

/-- The headers in front of the fragment header: `memcpy(FBUF, UIP_IP_BUF, uip_ext_len + UIP_IPH_LEN)`. -/
def copyHeaders (s : State) (u : Uip) : State := { s with buf := s.buf.copy 0 u.ext u.buf }

/-- A fragment that comes when no datagram is being reassembled starts with an empty bitmap. -/
def startReass (s : State) (u : Uip) : State :=
  if s.on then s
  else
    let s := copyHeaders s u
    { s with on := true, flags := 0, id := fragId u, bitmap := s.bitmap.copy 0 s.bitmap.size fun _ => 0 }

/-- The fragment is one of the datagram in the buffer. -/
def matching (s : State) (u : Uip) : Bool :=
  slice s.buf.bytes srcOffset 16 = slice u.buf srcOffset 16 ∧
    slice s.buf.bytes destOffset 16 = slice u.buf destOffset 16 ∧ fragId u = s.id

/-- The update of the bitmap for the bytes from `offset` to below `stop`. -/
def updateBitmap (r : Region) (offset stop : Nat) : Region :=
  if offset / 64 = stop / 64 then
    r.put (offset / 64) (r.bytes (offset / 64) ||| bitmapBits (offset / 8 % 8) &&& ~~~bitmapBits (stop / 8 % 8))
  else
    let r := r.put (offset / 64) (r.bytes (offset / 64) ||| bitmapBits (offset / 8 % 8))
    let r := r.fill 0xff (1 + offset / 64) (stop / 64 - (1 + offset / 64))
    r.put (stop / 64) (r.bytes (stop / 64) ||| ~~~bitmapBits (stop / 8 % 8))

/-- `uip_buf`, where the first fragment's next header takes the place of the fragment header's number. -/
def Packet.patched (p : Packet) : Uip :=
  if fragOffset p.uip = 0 then p.uip.put p.nextHdr [fragNext p.uip] else p.uip

/-- The headers of the first fragment are the ones of the packet. -/
def firstFrag (s : State) (p : Packet) : State :=
  if fragOffset p.uip = 0 then copyHeaders { s with flags := s.flags ||| flagFirstFrag } p.patched else s

/-- The last fragment gives the size of the payload. -/
def lastFrag (s : State) (u : Uip) (stop : Nat) : State :=
  if moreFrags u then s else { s with flags := s.flags ||| flagLastFrag, len := UInt16.ofNat stop }

/-- The payload of the fragment goes to its place, and into the bitmap. -/
def placeFrag (s : State) (u : Uip) (offset len stop : Nat) : State :=
  { s with buf := s.buf.copy (u.ext + offset) len fun i => u.buf (u.ext + fragHLen + i),
           bitmap := updateBitmap s.bitmap offset stop }

/-- The last fragment is there, and all bits up to the end are set. -/
def complete (s : State) : Bool :=
  s.flags &&& flagLastFrag ≠ 0 ∧ (∀ i < s.len.toNat / 64, s.bitmap.bytes i = 0xff) ∧
    s.bitmap.bytes (s.len.toNat / 64) = ~~~bitmapBits (s.len.toNat / 8 % 8)

/-- The packet is copied to `uip_buf` and gets its length. -/
def deliver (s : State) (u : Uip) : State × Outcome :=
  let len := s.len + (UInt16.ofNat iphLen + u.extLen.toUInt16)
  let u := u.put 0 (slice s.buf.bytes 0 len.toNat)
  let payload := len - UInt16.ofNat iphLen
  let u := u.put lenHi [(payload >>> 8).toUInt8, payload.toUInt8]
  ({ s with on := false, len := len }, .whole u.buf len)

/-- `uip_reass` of a fragment of the datagram in the buffer. The flag is read after `*uip_next_hdr` was written. -/
def takeFrag (bufsize : Nat) (s : State) (p : Packet) : State × Outcome :=
  let offset := (fragOffset p.uip).toNat
  let len := (fragLen p.uip).toNat
  let stop := fragEnd p.uip
  let s := firstFrag s p
  let u := p.patched
  if offset > bufsize ∨ stop > bufsize then ({ s with on := false }, .drop)
  else if moreFrags u ∧ len % 8 ≠ 0 then ({ s with on := false, flags := s.flags ||| flagErrorMsg }, .problem)
  else
    let s := placeFrag (lastFrag s u stop) u offset len stop
    if complete s then deliver s u else (s, .drop)

def uipReass (bufsize : Nat) (s : State) (p : Packet) : State × Outcome :=
  let s := startReass s p.uip
  if matching s p.uip then takeFrag bufsize s p else (s, .drop)

/-- The reassembly timer expires: `uip_reass_over`. -/
def uipReassOver (s : State) : State := { s with on := false }

end CSync.Reass
