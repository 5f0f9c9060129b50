import CSync.Lib.Bytes

/-! The header of a frame (`frame802154.c`).

    The frame control field tells which of the other fields stand in the header: the sequence number, a
    PAN id and an address for either end, and the auxiliary security header with its own control byte.
    The length of the header, the encoder and the decoder each evaluate this. Arrays are functions of
    the index; a buffer may be read past what was stored. -/

namespace CSync

open Lib

namespace Frame802154

/-- What the build configures: `LLSEC802154_USES_AUX_HEADER`, `LLSEC802154_USES_EXPLICIT_KEYS` and `LINKADDR_SIZE`. -/
structure Config where
  usesAuxHeader : Bool
  usesExplicitKeys : Bool
  linkaddrSize : Nat
  deriving DecidableEq

/-- `frame802154_fcf_t`. -/
structure Fcf where
  frameType : UInt8
  securityEnabled : UInt8
  framePending : UInt8
  ackRequired : UInt8
  panidCompression : UInt8
  sequenceNumberSuppression : UInt8
  ieListPresent : UInt8
  destAddrMode : UInt8
  frameVersion : UInt8
  srcAddrMode : UInt8
  deriving DecidableEq

/-- `frame802154_scf_t`. -/
structure Scf where
  securityLevel : UInt8
  keyIdMode : UInt8
  frameCounterSuppression : UInt8
  frameCounterSize : UInt8
  deriving DecidableEq

structure AuxHdr where
  securityControl : Scf
  frameCounter : Nat → UInt8
  keySource : Nat → UInt8
  keyIndex : UInt8

/-- `frame802154_t`; the payload is the offset it starts at. -/
structure Frame where
  destAddr : Nat → UInt8
  srcAddr : Nat → UInt8
  fcf : Fcf
  seq : UInt8
  destPid : UInt16
  srcPid : UInt16
  auxHdr : AuxHdr
  payload : Nat
  payloadLen : Int

/-- `FRAME802154_ACKFRAME`, the addressing modes and `FRAME802154_IEEE802154E_2012`. -/
def ackFrame : UInt8 := 2
def noAddr : UInt8 := 0
def shortAddrMode : UInt8 := 2
def longAddrMode : UInt8 := 3
def ieee802154e2012 : UInt8 := 2

def addrLen (mode : UInt8) : Nat :=
  if mode = shortAddrMode then 2 else if mode = longAddrMode then 8 else 0

def getKeyIdLen (keyIdMode : UInt8) : Nat :=
  if keyIdMode = 1 then 1 else if keyIdMode = 2 then 5 else if keyIdMode = 3 then 9 else 0

/-- The source PAN id of `frame802154_has_panid`. -/
def hasSrcPanid (fcf : Fcf) : Bool :=
  if fcf.frameVersion = ieee802154e2012 then
    fcf.panidCompression == 0 &&
      ((fcf.destAddrMode == noAddr && fcf.srcAddrMode == longAddrMode) ||
        (fcf.destAddrMode == noAddr && fcf.srcAddrMode == shortAddrMode) ||
        (fcf.destAddrMode == shortAddrMode && fcf.srcAddrMode == shortAddrMode) ||
        (fcf.destAddrMode == shortAddrMode && fcf.srcAddrMode == longAddrMode) ||
        (fcf.destAddrMode == longAddrMode && fcf.srcAddrMode == shortAddrMode))
  else fcf.frameType != ackFrame && fcf.panidCompression == 0 && fcf.srcAddrMode &&& 3 != 0

/-- The destination PAN id of `frame802154_has_panid`. -/
def hasDestPanid (fcf : Fcf) : Bool :=
  if fcf.frameVersion = ieee802154e2012 then
    (fcf.destAddrMode == noAddr && fcf.srcAddrMode == noAddr && fcf.panidCompression == 1) ||
      (fcf.destAddrMode != noAddr && fcf.srcAddrMode == noAddr && fcf.panidCompression == 0) ||
      (fcf.destAddrMode == longAddrMode && fcf.srcAddrMode == longAddrMode &&
        fcf.panidCompression == 0) ||
      ((fcf.destAddrMode == shortAddrMode && fcf.srcAddrMode != noAddr) ||
        (fcf.destAddrMode != noAddr && fcf.srcAddrMode == shortAddrMode))
  else fcf.frameType != ackFrame && fcf.destAddrMode &&& 3 != 0

/-! ### Lengths -/

structure FieldLength where
  seqnoLen : Nat
  destPidLen : Nat
  destAddrLen : Nat
  srcPidLen : Nat
  srcAddrLen : Nat
  auxSecLen : Nat
  deriving DecidableEq

/-- What `field_len` does to the frame: before the 2012 version it sets the compression bit. -/
def setCompression (p : Frame) : Frame :=
  if p.fcf.frameVersion < ieee802154e2012 then
    { p with fcf := { p.fcf with panidCompression :=
        if p.fcf.destAddrMode &&& 3 ≠ 0 ∧ p.fcf.srcAddrMode &&& 3 ≠ 0 ∧ p.srcPid = p.destPid
        then 1 else 0 } }
  else p

/-- The length of the auxiliary security header. -/
def auxSecLen (cfg : Config) (p : Frame) : Nat :=
  if cfg.usesAuxHeader ∧ p.fcf.securityEnabled &&& 1 ≠ 0 then
    1 + (if p.auxHdr.securityControl.frameCounterSuppression = 0
          then (if p.auxHdr.securityControl.frameCounterSize = 1 then 5 else 4) else 0) +
      (if cfg.usesExplicitKeys then getKeyIdLen p.auxHdr.securityControl.keyIdMode else 0)
  else 0

/-- `field_len`: the frame with its compression bit, and the lengths. -/
def fieldLen (cfg : Config) (p : Frame) : Frame × FieldLength :=
  let p := setCompression p
  (p, {
    seqnoLen := if p.fcf.sequenceNumberSuppression &&& 1 = 0 then 1 else 0
    destPidLen := if hasDestPanid p.fcf then 2 else 0
    destAddrLen := addrLen (p.fcf.destAddrMode &&& 3)
    srcPidLen := if hasSrcPanid p.fcf then 2 else 0
    srcAddrLen := addrLen (p.fcf.srcAddrMode &&& 3)
    auxSecLen := auxSecLen cfg p })

def hdrlen (cfg : Config) (p : Frame) : Nat :=
  let flen := (fieldLen cfg p).2
  2 + flen.seqnoLen + flen.destPidLen + flen.destAddrLen + flen.srcPidLen + flen.srcAddrLen +
    flen.auxSecLen

/-! ### Encoder -/

def field (x mask shift : UInt8) : UInt8 := (x &&& mask) <<< shift

def createFcf (fcf : Fcf) : List UInt8 :=
  [field fcf.frameType 7 0 ||| field fcf.securityEnabled 1 3 ||| field fcf.framePending 1 4 |||
      field fcf.ackRequired 1 5 ||| field fcf.panidCompression 1 6,
    field fcf.sequenceNumberSuppression 1 0 ||| field fcf.ieListPresent 1 1 |||
      field fcf.destAddrMode 3 2 ||| field fcf.frameVersion 3 4 ||| field fcf.srcAddrMode 3 6]

/-- A PAN id, the low byte first. -/
def pidBytes (pid : UInt16) : List UInt8 := [pid.toUInt8, (pid >>> 8).toUInt8]

/-- The loops that write an address, the last byte first. -/
def addrBytes (addr : Nat → UInt8) : Nat → List UInt8
  | 0 => []
  | c + 1 => addr c :: addrBytes addr c

/-- The security control byte. -/
def scfByte (cfg : Config) (scf : Scf) : UInt8 :=
  scf.securityLevel ||| (if cfg.usesExplicitKeys then scf.keyIdMode <<< 3 else 0) |||
    (scf.frameCounterSuppression <<< 5) ||| (scf.frameCounterSize <<< 6)

/-- The frame counter. Only four bytes are written; the fifth is skipped, so that `stale`, what the
    buffer held there, stays. -/
def counterBytes (aux : AuxHdr) (stale : UInt8) : List UInt8 :=
  if aux.securityControl.frameCounterSuppression = 0 then
    slice aux.frameCounter 0 4 ++ (if aux.securityControl.frameCounterSize = 1 then [stale] else [])
  else []

/-- The explicit key identifier. -/
def keyBytes (cfg : Config) (aux : AuxHdr) : List UInt8 :=
  if cfg.usesExplicitKeys ∧ aux.securityControl.keyIdMode ≠ 0 then
    slice aux.keySource 0 ((aux.securityControl.keyIdMode.toNat - 1) * 4) ++ [aux.keyIndex]
  else []

/-- `frame802154_create`: the frame with its compression bit, and the header as it stands in the buffer
    `buf` behind the call. -/
def create (cfg : Config) (p : Frame) (buf : Nat → UInt8) : Frame × List UInt8 :=
  let (p, flen) := fieldLen cfg p
  let bytes := createFcf p.fcf
  let bytes := bytes ++ (if flen.seqnoLen = 1 then [p.seq] else [])
  let bytes := bytes ++ (if flen.destPidLen = 2 then pidBytes p.destPid else [])
  let bytes := bytes ++ addrBytes p.destAddr flen.destAddrLen
  let bytes := bytes ++ (if flen.srcPidLen = 2 then pidBytes p.srcPid else [])
  let bytes := bytes ++ addrBytes p.srcAddr flen.srcAddrLen
  (p, if flen.auxSecLen = 0 then bytes
    else bytes ++ ([scfByte cfg p.auxHdr.securityControl] ++
      counterBytes p.auxHdr (buf (bytes.length + 5)) ++ keyBytes cfg p.auxHdr))

/-! ### Decoder -/

def parseFcf (data : Nat → UInt8) : Fcf where
  frameType := data 0 &&& 7
  securityEnabled := (data 0 >>> 3) &&& 1
  framePending := (data 0 >>> 4) &&& 1
  ackRequired := (data 0 >>> 5) &&& 1
  panidCompression := (data 0 >>> 6) &&& 1
  sequenceNumberSuppression := data 1 &&& 1
  ieListPresent := (data 1 >>> 1) &&& 1
  destAddrMode := (data 1 >>> 2) &&& 3
  frameVersion := (data 1 >>> 4) &&& 3
  srcAddrMode := (data 1 >>> 6) &&& 3

/-- `p[0] + (p[1] << 8)`. -/
def readPid (data : Nat → UInt8) (p : Nat) : UInt16 :=
  (data p).toUInt16 + ((data (p + 1)).toUInt16 <<< 8)

/-- `linkaddr_copy(addr, &linkaddr_null)`. -/
def nullAddr (cfg : Config) (addr : Nat → UInt8) : Nat → UInt8 :=
  fun i => if i < cfg.linkaddrSize then 0 else addr i

/-- Read an address by its mode; a reserved mode reads nothing. -/
def readAddr (cfg : Config) (data : Nat → UInt8) (mode : UInt8) (p : Nat) (addr : Nat → UInt8) :
    Nat × (Nat → UInt8) :=
  if mode = shortAddrMode then
    (p + 2, fun i => if i = 0 then data (p + 1) else if i = 1 then data p else nullAddr cfg addr i)
  else if mode = longAddrMode then
    (p + 8, fun i => if i < 8 then data (p + (7 - i)) else addr i)
  else (p, addr)

/-- The destination; a PAN id is read only with an address. -/
def parseDest (cfg : Config) (data : Nat → UInt8) (p : Nat) (pf : Frame) : Nat × Frame :=
  if pf.fcf.destAddrMode ≠ 0 then
    let (p, pf) := if hasDestPanid pf.fcf then (p + 2, { pf with destPid := readPid data p })
      else (p, { pf with destPid := 0 })
    let r := readAddr cfg data pf.fcf.destAddrMode p pf.destAddr
    (r.1, { pf with destAddr := r.2 })
  else (p, { pf with destAddr := nullAddr cfg pf.destAddr, destPid := 0 })

/-- The source. -/
def parseSrc (cfg : Config) (data : Nat → UInt8) (p : Nat) (pf : Frame) : Nat × Frame :=
  if pf.fcf.srcAddrMode ≠ 0 then
    let (p, pf) := if hasSrcPanid pf.fcf then
        (p + 2, { pf with
          srcPid := readPid data p
          destPid := if hasDestPanid pf.fcf then pf.destPid else readPid data p })
      else (p, { pf with srcPid := pf.destPid })
    let r := readAddr cfg data pf.fcf.srcAddrMode p pf.srcAddr
    (r.1, { pf with srcAddr := r.2 })
  else (p, { pf with srcAddr := nullAddr cfg pf.srcAddr, srcPid := 0 })

/-- The frame counter; the fifth byte is skipped. -/
def parseCounter (data : Nat → UInt8) (p : Nat) (aux : AuxHdr) : Nat × AuxHdr :=
  if aux.securityControl.frameCounterSuppression = 0 then
    let aux := { aux with frameCounter := fun i => if i < 4 then data (p + i) else aux.frameCounter i }
    if aux.securityControl.frameCounterSize = 1 then (p + 5, aux) else (p + 4, aux)
  else (p, aux)

/-- The explicit key identifier. -/
def parseKey (cfg : Config) (data : Nat → UInt8) (p : Nat) (aux : AuxHdr) : Nat × AuxHdr :=
  if cfg.usesExplicitKeys ∧ aux.securityControl.keyIdMode ≠ 0 then
    let c := (aux.securityControl.keyIdMode.toNat - 1) * 4
    (p + c + 1, { aux with
      keySource := fun i => if i < c then data (p + i) else aux.keySource i
      keyIndex := data (p + c) })
  else (p, aux)

/-- The fields of the security control byte. The shifts of the last two are not masked. -/
def parseScf (cfg : Config) (b : UInt8) (scf : Scf) : Scf where
  securityLevel := b &&& 7
  keyIdMode := if cfg.usesExplicitKeys then (b >>> 3) &&& 3 else scf.keyIdMode
  frameCounterSuppression := b >>> 5
  frameCounterSize := b >>> 6

/-- The auxiliary security header. -/
def parseAux (cfg : Config) (data : Nat → UInt8) (p : Nat) (aux : AuxHdr) : Nat × AuxHdr :=
  let aux := { aux with securityControl := parseScf cfg (data p) aux.securityControl }
  let r := parseCounter data (p + 1) aux
  parseKey cfg data r.1 r.2

/-- `frame802154_parse`: the result and the frame, of which `pf` is what it held before. -/
def parse (cfg : Config) (data : Nat → UInt8) (len : Int) (pf : Frame) : Int × Frame :=
  if len < 2 then (0, pf)
  else
    let pf := { pf with fcf := parseFcf data }
    let (p, pf) := if pf.fcf.sequenceNumberSuppression = 0 then (3, { pf with seq := data 2 })
      else (2, pf)
    let (p, pf) := parseDest cfg data p pf
    let (p, pf) := parseSrc cfg data p pf
    let (p, aux) := if cfg.usesAuxHeader ∧ pf.fcf.securityEnabled ≠ 0
      then parseAux cfg data p pf.auxHdr else (p, pf.auxHdr)
    (if len < p then 0 else p, { pf with auxHdr := aux, payload := p, payloadLen := len - p })

end Frame802154

end CSync
