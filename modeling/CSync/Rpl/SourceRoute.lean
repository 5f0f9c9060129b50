import CSync.Lib.Bytes
import CSync.Rpl.Graph

/-! Source routing headers of non-storing mode (`rpl-ext-header.c`).

    The buffer is the memory from the IPv6 header on, with nothing in front of it that may be written
    (`UIP_LLH_LEN` is 0); what writes in front of it has no value. The root inserts a routing header with the
    addresses from the second hop to the destination, without the bytes that all hops have in common. Forwarders
    swap the destination with the next address, and the destination removes the header. -/

namespace CSync.SourceRoute
open Lib (store slice)

/-- `uip_buf`, `uip_len` and `uip_ext_len`. -/
structure Uip where
  buf : Nat → UInt8
  len : UInt16
  extLen : UInt8

/-- `UIP_IPH_LEN`, `RPL_RH_LEN` and `RPL_SRH_LEN`. -/
def iphLen : Nat := 40
def rhLen : Nat := 4
def srhLen : Nat := 4

/-- `UIP_PROTO_HBHO`, `UIP_PROTO_ROUTING` and `UIP_PROTO_DESTO`. -/
def protoHbho : UInt8 := 0
def protoRouting : UInt8 := 43
def protoDesto : UInt8 := 60

/-- `RPL_RH_TYPE_SRH`. -/
def typeSrh : UInt8 := 3

/-- Where the fields of the IPv6 header stand: `len[0]` and `len[1]`, `proto`, `destipaddr`. -/
def lenHi : Nat := 4
def lenLo : Nat := 5
def proto : Nat := 6
def destOffset : Nat := 24

/-- `UIP_EXT_BUF` and `UIP_RH_BUF`. -/
def Uip.ext (u : Uip) : Nat := iphLen + u.extLen.toNat

def Uip.put (o : Nat) (bs : List UInt8) (u : Uip) : Uip := { u with buf := store u.buf o bs }

/-- `destipaddr`. -/
def Uip.dest (u : Uip) : IpAddr := fun i => u.buf (destOffset + i)

/-- The length fields, with a carry from `len[1]` to `len[0]`. -/
def addLen (n : UInt8) (u : Uip) : Uip :=
  u.put lenHi [if u.buf lenLo + n < u.buf lenLo then u.buf lenHi + 1 else u.buf lenHi, u.buf lenLo + n]

def subLen (n : UInt8) (u : Uip) : Uip :=
  u.put lenHi [if u.buf lenLo < u.buf lenLo - n then u.buf lenHi - 1 else u.buf lenHi, u.buf lenLo - n]

/-! ### At the root -/

variable {c : RplNs.Config}

def globalAddr (s : RplNs.State c) (l : Fin c.linkNum) : IpAddr := fun i =>
  if h : i.val < 8 then (c.dagId (s.node l).dag).prefix64 ⟨i, h⟩
  else (s.node l).linkIdentifier ⟨i - 8, by omega⟩

def countMatchingBytes : List UInt8 → List UInt8 → Nat
  | a :: as, b :: bs => if a = b then countMatchingBytes as bs + 1 else 0
  | _, _ => 0

/-- The loop over the path, as long as the topology is deep: how many nodes there are between the root and the
    destination, and how many bytes they have in common with it. -/
def measure (s : RplNs.State c) (root : Fin c.linkNum) (dest : IpAddr) :
    Nat → Option (Fin c.linkNum) → UInt8 × Nat → UInt8 × Nat
  | 0, _, acc => acc
  | _ + 1, none, acc => acc
  | n + 1, some node, (pathLen, cmpri) =>
    if node = root then (pathLen, cmpri)
    else measure s root dest n (s.parent node)
      (pathLen + 1, min cmpri (countMatchingBytes (List.ofFn (globalAddr s node)) (List.ofFn dest)))

/-- An address without the first `cmpri` bytes. -/
def compressed (cmpri : Nat) (addr : IpAddr) : List UInt8 := (List.ofFn addr).drop cmpri

/-- The loop that writes the addresses, from last to first; it ends with the first hop. -/
def writeHops (s : RplNs.State c) (root : Fin c.linkNum) (cmpri : Nat) :
    Nat → Option (Fin c.linkNum) → Int → (Nat → UInt8) → Option (Fin c.linkNum × (Nat → UInt8))
  | 0, _, _, _ => none
  | _ + 1, none, _, _ => none
  | n + 1, some node, hopPtr, buf =>
    if s.parent node = some root then some (node, buf)
    else if hopPtr - (16 - cmpri : Nat) < 0 then none
    else writeHops s root cmpri n (s.parent node) (hopPtr - (16 - cmpri : Nat))
      (store buf (hopPtr - (16 - cmpri : Nat)).toNat (compressed cmpri (globalAddr s node)))

/-- The length of the extension header, and its padding. -/
def extLenOf (pathLen : UInt8) (cmpri : Nat) : UInt8 :=
  UInt8.ofInt (rhLen + srhLen + (pathLen.toNat - 1) * (16 - cmpri) + (16 - cmpri))

def paddingOf (extLen : UInt8) : UInt8 := if extLen % 8 = 0 then 0 else 8 - extLen % 8

/-- `insert_srh_header` behind the choice of the path. -/
def insertPath (s : RplNs.State c) (root destNode : Fin c.linkNum) (pathLen : UInt8) (cmpri : Nat) (u : Uip) :
    Option (Bool × Uip) :=
  let padding := paddingOf (extLenOf pathLen cmpri)
  let extLen := extLenOf pathLen cmpri + padding
  let moved := u.put (u.ext + extLen.toNat) (slice u.buf u.ext (u.len.toNat - iphLen))
  let cleared := moved.put u.ext (List.replicate extLen.toNat 0)
  let headed := (cleared.put u.ext [u.buf proto, UInt8.ofInt (((extLen.toNat : Int) - 8).tdiv 8), typeSrh, pathLen,
    UInt8.ofNat (cmpri * 16 + cmpri), padding * 16]).put proto [protoRouting]
  match writeHops s root cmpri (c.linkNum + 1) (some destNode) (u.ext + extLen.toNat - padding.toNat) headed.buf with
  | none => none
  | some (node, buf) =>
    let u := addLen extLen { headed with buf := store buf destOffset (List.ofFn (globalAddr s node)) }
    some (true, { u with extLen := u.extLen + extLen, len := u.len + extLen.toUInt16 })

/-- `insert_srh_header`; `dag` is what `rpl_get_dag` finds for the destination. -/
def insertSrhHeader (bufSize : Nat) (dag : Option c.Dag) (s : RplNs.State c) (u : Uip) : Option (Bool × Uip) :=
  match dag with
  | none => some (false, u)
  | some dag =>
    match RplNs.getNode s dag u.dest with
    | none => some (true, u)
    | some destNode =>
      match RplNs.getNode s dag (c.dagId dag) with
      | none => some (false, u)
      | some root =>
        if RplNs.isNodeReachable s dag u.dest = false then some (false, u)
        else if s.parent destNode = some root then some (true, u)
        else
          let (pathLen, cmpri) := measure s root u.dest (c.linkNum + 1) (s.parent destNode) (0, 15)
          let extLen := extLenOf pathLen cmpri + paddingOf (extLenOf pathLen cmpri)
          if bufSize < u.len.toNat + extLen.toNat then some (true, u)
          else insertPath s root destNode pathLen cmpri u

/-- The search for the routing header; `o` is where its predecessor names it. -/
def findRouting (buf : Nat → UInt8) : Nat → Nat → UInt8 → Option (Option UInt8)
  | 0, _, _ => none
  | n + 1, o, extLen =>
    if buf o = protoRouting then some (some extLen)
    else if buf o = protoHbho ∨ buf o = protoDesto then
      let ext := iphLen + extLen.toNat
      findRouting buf n ext (extLen + (buf (ext + 1) <<< 3) + 8)
    else some none

/-- The swap of the destination with the next address; `rh` is where the routing header stands. -/
def swapNext (rh : Nat) (u : Uip) : Uip :=
  let segmentsLeft := u.buf (rh + 3)
  let extLen := u.buf (rh + 1) * 8 + 8
  let cmpri := (u.buf (rh + 4) >>> 4).toNat
  let cmpre := (u.buf (rh + 4) &&& 0x0f).toNat
  let padding := u.buf (rh + 5) >>> 4
  let pathLen := UInt8.ofInt (((extLen.toNat : Int) - padding.toNat - rhLen - srhLen - (16 - cmpre)).tdiv
    (16 - cmpri) + 1)
  if segmentsLeft = 0 then u
  else
    let addrPtr := rh + rhLen + srhLen + (pathLen - segmentsLeft).toNat * (16 - cmpri)
    let cmpr := if segmentsLeft = 1 then cmpre else cmpri
    let dest := slice u.buf destOffset 16
    let u := u.put (destOffset + cmpr) (slice u.buf addrPtr (16 - cmpr))
    let u := u.put addrPtr (dest.drop cmpr)
    u.put (rh + 3) [segmentsLeft - 1]

/-- `rpl_process_srh_header`; `n` bounds the search. -/
def processSrhHeader (n : Nat) (u : Uip) : Option (Bool × Uip) :=
  match findRouting u.buf n proto 0 with
  | none => none
  | some none => some (false, u)
  | some (some extLen) =>
    let rh := iphLen + extLen.toNat
    if u.buf (rh + 2) = typeSrh then some (true, swapNext rh u) else some (false, u)

/-- A header leaves the packet; `o` is where its predecessor names it. -/
def removeExt (o : Nat) (u : Uip) : Uip :=
  let extHdrLen := u.buf (u.ext + 1) * 8 + 8
  let u' := subLen extHdrLen (u.put o [u.buf u.ext])
  let len := u.len - extHdrLen.toUInt16
  { u'.put u.ext (slice u'.buf (u.ext + extHdrLen.toNat) (len.toNat - iphLen)) with len := len }

/-- The loop of `rpl_remove_header`. Behind a destination options header it ends. -/
def removeLoop : Nat → Uip → Option Uip
  | 0, _ => none
  | n + 1, u =>
    if u.buf proto = protoHbho ∨ u.buf proto = protoRouting then removeLoop n (removeExt proto u)
    else if u.buf proto = protoDesto then
      some { u with extLen := u.extLen + (u.buf (u.ext + 1) <<< 3) + 8 }
    else some u

/-- `rpl_remove_header`; `n` bounds the loop. -/
def removeHeader (n : Nat) (u : Uip) : Option Uip := removeLoop n { u with extLen := 0 }

end CSync.SourceRoute
