import CSync.Lib.Loop
import CSync.Rpl.SourceRoute

/-! Extension headers of received packets (`uip6.c`, `rpl-ext-header.c`), with the bytes of `uip_buf` that are accessed.

    All offsets are counted from the IPv6 header on. The lengths of the headers and of their options come from the
    network, and `uip_ext_len` and `uip_ext_opt_offset`, which they are added to, have eight bits. The error message
    for an unknown option is a packet of its own, and not part of these walks. -/

namespace CSync.ExtHeaders
open SourceRoute Lib

/-- An access of `count` bytes from `index` on. -/
inductive Access
  | read (index count : Nat)
  | write (index count : Nat)
  deriving DecidableEq

/-! ### Options -/

/-- `UIP_EXT_HDR_OPT_PAD1`, `UIP_EXT_HDR_OPT_PADN` and `UIP_EXT_HDR_OPT_RPL`. -/
def optPad1 : UInt8 := 0
def optPadN : UInt8 := 1
def optRpl : UInt8 := 0x63

/-- `RPL_HDR_OPT_LEN`, and the length field of a hop-by-hop header with an RPL option only. -/
def hdrOptLen : UInt8 := 4
def hopByHopUnits : UInt8 := 0

/-- `RPL_HDR_OPT_DOWN`, `RPL_HDR_OPT_RANK_ERR` and `RPL_HDR_OPT_FWD_ERR`. -/
def optDown : UInt8 := 0x80
def optRankErr : UInt8 := 0x40
def optFwdErr : UInt8 := 0x20

/-- What `rpl_verify_hbh_header` sees of an instance: its mode, and its current DAG, with the rank at the time of the
    comparison. -/
structure Instance where
  storing : Bool
  joined : Bool
  rank : UInt16

/-- The instances, and whether the sender is a parent. -/
structure View where
  getInstance : UInt8 → Option Instance
  sender : Bool

/-- What `ext_hdr_options_process` returns: 0, 1, or 2 with the pointer of the parameter problem. -/
inductive Verdict
  | continue
  | discard
  | problem (pointer : UInt32)
  deriving DecidableEq

def senderRank (b : Nat → UInt8) (opt : Nat) : UInt16 := (b (opt + 4)).toUInt16 <<< 8 ||| (b (opt + 5)).toUInt16

/-- `rpl_verify_hbh_header` of the option at `opt` in the header at `ext`: whether the packet may go on, the buffer,
    and the accesses. -/
def rplVerifyHbhHeader (v : View) (b : Nat → UInt8) (ext opt : Nat) : (Bool × (Nat → UInt8)) × List Access :=
  if b (ext + 1) ≠ hopByHopUnits then ((false, b), [.read (ext + 1) 1])
  else if b opt ≠ optRpl then ((false, b), [.read (ext + 1) 1, .read opt 1])
  else if b (opt + 1) ≠ hdrOptLen then ((false, b), [.read (ext + 1) 1, .read opt 2])
  else
    let head : List Access := [.read (ext + 1) 1, .read opt 2, .read (opt + 3) 1]
    match v.getInstance (b (opt + 3)) with
    | none => ((false, b), head)
    | some i =>
      let head := head ++ [.read (opt + 2) 1]
      let flags := b (opt + 2)
      if flags &&& optFwdErr ≠ 0 then ((false, b), if i.storing then head ++ [.read destOffset 16] else head)
      else if i.joined = false then ((false, b), head)
      else
        let head := head ++ [.read (opt + 4) 2]
        let closer : Bool := senderRank b opt < i.rank
        if decide (flags &&& optDown ≠ 0) = closer then ((true, b), head)
        else if flags &&& optRankErr ≠ 0 then ((false, b), head)
        else ((true, Function.update b (opt + 2) (flags ||| optRankErr)), head ++ [.write (opt + 2) 1])

/-- The bytes of the header at `ext`, as `(UIP_EXT_BUF->len << 3) + 8` counts them. -/
def headerBytes (b : Nat → UInt8) (ext : Nat) : Nat := (b (ext + 1)).toNat * 8 + 8

/-- A round of the loop of `ext_hdr_options_process`; its state is `uip_ext_opt_offset`. -/
def processOption (v : View) (u : Uip) (offset : UInt8) : (UInt8 ⊕ Verdict × (Nat → UInt8)) × List Access :=
  let b := u.buf
  let opt := u.ext + offset.toNat
  let len : Access := .read (u.ext + 1) 1
  let type : Access := .read opt 1
  if offset.toNat < headerBytes b u.ext then
    if b opt = optPad1 then (.inl (offset + 1), [len, type])
    else if b opt = optPadN then (.inl (offset + (b (opt + 1) + 2)), [len, type, .read (opt + 1) 1])
    else if b opt = optRpl then
      let r := rplVerifyHbhHeader v b u.ext opt
      if r.1.1 = false then (.inr (.discard, r.1.2), [len, type] ++ r.2)
      else (.inr (.continue, r.1.2), [len, type] ++ r.2 ++ [.read (opt + 1) 1])
    else if b opt &&& 0xC0 = 0 then (.inl (offset + (b (opt + 1) + 2)), [len, type, .read (opt + 1) 1])
    else if b opt &&& 0xC0 = 0x40 then (.inr (.discard, b), [len, type])
    else
      let problem : Verdict := .problem (UInt32.ofNat iphLen + u.extLen.toUInt32 + offset.toUInt32)
      if b opt &&& 0xC0 = 0xC0 then
        (.inr (if b destOffset = 0xFF then .discard else problem, b), [len, type, .read destOffset 1])
      else (.inr (problem, b), [len, type])
  else (.inr (.continue, b), [len])

/-- `ext_hdr_options_process`, with a bound for its rounds. -/
def extHdrOptionsProcess (v : View) (u : Uip) (fuel : Nat) : Option ((Verdict × (Nat → UInt8)) × List Access) :=
  loop (processOption v u) fuel 2

/-! ### The routing header -/

/-- A round of the search for the routing header. The state is the index `uip_next_hdr` points to, with `uip_ext_len`;
    `after` is the code behind the loop, given where a routing header is found. -/
def seekRouting {ρ : Type} (b : Nat → UInt8) (after : Option UInt8 → ρ × List Access) (s : Nat × UInt8) :
    (Nat × UInt8 ⊕ ρ) × List Access :=
  if b s.1 = protoRouting then
    let r := after (some s.2)
    (.inr r.1, .read s.1 1 :: r.2)
  else if b s.1 = protoHbho ∨ b s.1 = protoDesto then
    let ext := iphLen + s.2.toNat
    (.inl (ext, s.2 + (b (ext + 1) <<< 3) + 8), [.read s.1 1, .read (ext + 1) 1])
  else
    let r := after none
    (.inr r.1, .read s.1 1 :: r.2)

section NextHop

variable {c : RplNs.Config}

/-- The destination is a child of the root, in the DAG that `rpl_get_dag` finds for it. -/
def childOfRoot (dag : Option c.Dag) (s : RplNs.State c) (dest : IpAddr) : Bool :=
  match dag with
  | none => false
  | some dag =>
    match RplNs.getNode s dag (c.dagId dag), RplNs.getNode s dag dest with
    | some root, some node => s.parent node = some root
    | _, _ => false

/-- `uip_create_linklocal_prefix`. -/
def linklocal (addr : IpAddr) : IpAddr := fun i =>
  if i.val = 0 then 0xfe else if i.val = 1 then 0x80 else if i.val < 8 then 0 else addr i

/-- `rpl_srh_get_next_hop` behind its loop. -/
def nextHopAfter (dag : Option c.Dag) (s : RplNs.State c) (u : Uip) :
    Option UInt8 → Option IpAddr × List Access
  | none =>
    if childOfRoot dag s u.dest then (some (linklocal u.dest), [.read destOffset 16])
    else (none, [.read destOffset 16])
  | some e =>
    if u.buf (iphLen + e.toNat + 2) = typeSrh ∨ childOfRoot dag s u.dest then
      (some (linklocal u.dest), [.read destOffset 16, .read (iphLen + e.toNat + 2) 1])
    else (none, [.read destOffset 16, .read (iphLen + e.toNat + 2) 1])

def srhGetNextHop (dag : Option c.Dag) (s : RplNs.State c) (u : Uip) (fuel : Nat) :
    Option (Option IpAddr × List Access) :=
  loop (seekRouting u.buf (nextHopAfter dag s u)) fuel (proto, 0)

end NextHop

/-- The address that comes next in the routing header at `rh`: its index and how many bytes of it are given. -/
def addressSlot (b : Nat → UInt8) (rh : Nat) : Nat × Nat :=
  let cmpri := (b (rh + 4) >>> 4).toNat
  let cmpre := (b (rh + 4) &&& 0x0f).toNat
  let extLen := b (rh + 1) * 8 + 8
  let padding := b (rh + 5) >>> 4
  let pathLen := UInt8.ofInt (((extLen.toNat : Int) - padding.toNat - rhLen - srhLen - (16 - cmpre)).tdiv
    (16 - cmpri) + 1)
  let cmpr := if b (rh + 3) = 1 then cmpre else cmpri
  (rh + rhLen + srhLen + (pathLen - b (rh + 3)).toNat * (16 - cmpri), 16 - cmpr)

/-- The accesses of the swap of the destination with the next address. -/
def swapAccesses (b : Nat → UInt8) (rh : Nat) : List Access :=
  let head : List Access := [.read (rh + 3) 1, .read (rh + 1) 1, .read (rh + 4) 2]
  if b (rh + 3) = 0 then head
  else
    let slot := addressSlot b rh
    head ++ [.read destOffset 16, .read slot.1 slot.2, .write (destOffset + (16 - slot.2)) slot.2,
      .write slot.1 slot.2, .read (rh + 3) 1, .write (rh + 3) 1]

/-- `rpl_process_srh_header` behind its loop. -/
def processSrhAfter (u : Uip) : Option UInt8 → (Bool × Uip) × List Access
  | none => ((false, u), [])
  | some e =>
    let rh := iphLen + e.toNat
    if u.buf (rh + 2) = typeSrh then ((true, swapNext rh u), .read (rh + 2) 1 :: swapAccesses u.buf rh)
    else ((false, u), [.read (rh + 2) 1])

/-- `rpl_process_srh_header`, with a bound for its rounds. -/
def rplProcessSrhHeader (u : Uip) (fuel : Nat) : Option ((Bool × Uip) × List Access) :=
  loop (seekRouting u.buf (processSrhAfter u)) fuel (proto, 0)

/-! ### The removal -/

/-- An access, with the length of the packet at that time. -/
abbrev Timed := UInt16 × Access

/-- The count that `memmove` gets, from a length without `UIP_IPH_LEN`: a `size_t`, here of 32 bits. -/
def moveCount (len : UInt16) : Nat := (UInt32.ofInt ((len.toNat : Int) - iphLen)).toNat

/-- The length of the extension header, in the eight bits of `rpl_ext_hdr_len`. -/
def extHdrLen (u : Uip) : UInt8 := u.buf (u.ext + 1) * 8 + 8

/-- A header leaves the packet, and what is behind it moves down. -/
def cutHeader (u : Uip) : Uip :=
  let u' := subLen (extHdrLen u) (u.put proto [u.buf u.ext])
  let len := u.len - (extHdrLen u).toUInt16
  { u'.put u.ext (slice u'.buf (u.ext + (extHdrLen u).toNat) (moveCount len)) with len := len }

def cutAccesses (u : Uip) : List Access :=
  let count := moveCount (u.len - (extHdrLen u).toUInt16)
  [.read proto 1, .read u.ext 1, .write proto 1, .read (u.ext + 1) 1, .read lenLo 1, .write lenLo 1] ++
    (if u.buf lenLo < u.buf lenLo - extHdrLen u then [.read lenHi 1, .write lenHi 1] else []) ++
    [.read (u.ext + (extHdrLen u).toNat) count, .write u.ext count]

/-- A round of the loop of `rpl_remove_header`. Behind a destination options header it ends. -/
def removeRound (u : Uip) : (Uip ⊕ Uip) × List Timed :=
  if u.buf proto = protoHbho ∨ u.buf proto = protoRouting then
    (.inl (cutHeader u), (cutAccesses u).map fun a => (u.len, a))
  else if u.buf proto = protoDesto then
    (.inr { u with extLen := u.extLen + (u.buf (u.ext + 1) <<< 3) + 8 },
      [(u.len, .read proto 1), (u.len, .read (u.ext + 1) 1)])
  else (.inr u, [(u.len, .read proto 1)])

/-- `rpl_remove_header`, with a bound for its rounds. -/
def rplRemoveHeader (u : Uip) (fuel : Nat) : Option (Uip × List Timed) :=
  loop removeRound fuel { u with extLen := 0 }

end CSync.ExtHeaders
