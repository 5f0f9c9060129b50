import Mathlib.Data.List.Basic
import Mathlib.Tactic.Ring

/-! Information elements (`frame802154e-ie.c`).

    A buffer is the list of the bytes that may still be read; a read behind its end has no value, and neither has a
    parser that makes one. The loop over the elements takes a descriptor of two bytes, and its state says how to take
    it apart: header elements, payload elements, or the elements nested in an MLME element. -/

namespace CSync.InformationElements

/-! ### Data -/

/-- `struct tsch_slotframe_and_links_link`. -/
structure Link where
  timeslot : UInt16
  channelOffset : UInt16
  linkOptions : UInt8
  deriving DecidableEq

/-- `struct tsch_slotframe_and_links`. -/
structure SlotframeAndLinks where
  numSlotframes : UInt8
  slotframeHandle : UInt8
  slotframeSize : UInt16
  numLinks : UInt8
  links : Nat → Link

/-- `struct ieee802154_ies`, without the two fields that only the encoders read. -/
structure Ies where
  timeCorrection : Int
  isNack : UInt8
  payloadIeOffset : UInt8
  asnLs4b : UInt32
  asnMs1b : UInt8
  joinPriority : UInt8
  tschTimeslotId : UInt8
  tschTimeslot : Nat → UInt16
  tschSlotframeAndLink : SlotframeAndLinks
  channelHoppingSequenceId : UInt8
  hoppingSequenceLen : UInt16
  hoppingSequenceList : Nat → UInt8

/-- `FRAME802154E_IE_MAX_LINKS` and `tsch_ts_elements_count`. -/
def maxLinks : Nat := 4
def tsElementsCount : Nat := 12

/-- The element ids. -/
def headerIeAckNackTimeCorrection : Nat := 0x1e
def headerIeListTermination1 : Nat := 0x7e
def headerIeListTermination2 : Nat := 0x7f
def payloadIeMlme : Nat := 1
def payloadIeListTermination : Nat := 0xf
def mlmeShortIeTschSynchronization : Nat := 0x1a
def mlmeShortIeTschSlotframeAndLink : Nat := 0x1b
def mlmeShortIeTschTimeslot : Nat := 0x1c
def mlmeLongIeTschChannelHoppingSequence : Nat := 0x9

/-! ### Element parsers -/

def read16 (buf : List UInt8) (i : Nat) : Option UInt16 := do
  let lo ← buf[i]?
  let hi ← buf[i + 1]?
  some (lo.toUInt16 ||| (hi.toUInt16 <<< 8))

/-- The drift in microseconds: twelve bits, of which the last is the sign. -/
def driftUs (timeSyncField : UInt16) : Int :=
  if timeSyncField &&& 0x0800 ≠ 0 then (timeSyncField ||| 0xf000).toNat - 65536
  else (timeSyncField &&& 0x0fff).toNat

def parseHeaderIe (buf : List UInt8) (len id : Nat) (ies : Ies) : Option (Int × Ies) :=
  if id = headerIeAckNackTimeCorrection ∧ len = 2 then do
    let timeSyncField ← read16 buf 0
    some (len, { ies with
      isNack := if timeSyncField &&& 0x8000 ≠ 0 then 1 else 0
      timeCorrection := driftUs timeSyncField })
  else some (-1, ies)

/-- The loop over the links. -/
def readLinks (buf : List UInt8) : Nat → (Nat → Link) → Option (Nat → Link)
  | 0, links => some links
  | n + 1, links => do
    let links ← readLinks buf n links
    let timeslot ← read16 buf (5 + n * 5)
    let channelOffset ← read16 buf (5 + n * 5 + 2)
    let linkOptions ← buf[5 + n * 5 + 4]?
    some fun i => if i = n then ⟨timeslot, channelOffset, linkOptions⟩ else links i

/-- The loop over the timeslot timings. -/
def readTimeslot (buf : List UInt8) : Nat → (Nat → UInt16) → Option (Nat → UInt16)
  | 0, timings => some timings
  | n + 1, timings => do
    let timings ← readTimeslot buf n timings
    let timing ← read16 buf (1 + 2 * n)
    some fun i => if i = n then timing else timings i

/-- The slotframe and link element. The number of links is read before the number of slotframes is looked at. -/
def parseSlotframeAndLink (buf : List UInt8) (len : Nat) (ies : Ies) : Option (Int × Ies) :=
  if 1 ≤ len then do
    let numSlotframes ← buf[0]?
    let numLinks ← buf[4]?
    if numSlotframes = 0 then some (len, ies)
    else if numSlotframes.toNat ≤ 1 ∧ numLinks.toNat ≤ maxLinks ∧
        len = 1 + numSlotframes.toNat * (4 + 5 * numLinks.toNat) then do
      let slotframeHandle ← buf[1]?
      let slotframeSize ← read16 buf 2
      let links ← readLinks buf numLinks.toNat ies.tschSlotframeAndLink.links
      some (len, { ies with tschSlotframeAndLink :=
        ⟨numSlotframes, slotframeHandle, slotframeSize, numLinks, links⟩ })
    else some (-1, ies)
  else some (-1, ies)

/-- The synchronization element. -/
def parseSynchronization (buf : List UInt8) (len : Nat) (ies : Ies) : Option (Int × Ies) :=
  if len = 6 then do
    let b0 ← buf[0]?
    let b1 ← buf[1]?
    let b2 ← buf[2]?
    let b3 ← buf[3]?
    let b4 ← buf[4]?
    let b5 ← buf[5]?
    let ls4b : UInt32 := b0.toUInt32 ||| (b1.toUInt32 <<< 8) ||| (b2.toUInt32 <<< 16) |||
      (b3.toUInt32 <<< 24)
    some (len, { ies with asnLs4b := ls4b, asnMs1b := b4, joinPriority := b5 })
  else some (-1, ies)

/-- The timeslot element. -/
def parseTimeslot (buf : List UInt8) (len : Nat) (ies : Ies) : Option (Int × Ies) :=
  if len = 1 ∨ len = 25 then do
    let id ← buf[0]?
    if len = 25 then do
      let timings ← readTimeslot buf tsElementsCount ies.tschTimeslot
      some (len, { ies with tschTimeslotId := id, tschTimeslot := timings })
    else some (len, { ies with tschTimeslotId := id })
  else some (-1, ies)

def parseMlmeShortIe (buf : List UInt8) (len id : Nat) (ies : Ies) : Option (Int × Ies) :=
  if id = mlmeShortIeTschSlotframeAndLink then parseSlotframeAndLink buf len ies
  else if id = mlmeShortIeTschSynchronization then parseSynchronization buf len ies
  else if id = mlmeShortIeTschTimeslot then parseTimeslot buf len ies
  else some (-1, ies)

/-- `memcpy` out of the buffer: all the bytes, or no value. -/
def copyOut (buf : List UInt8) (o len : Nat) (list : Nat → UInt8) : Option (Nat → UInt8) :=
  if o + len ≤ buf.length then some fun i => if i < len then buf.getD (o + i) 0 else list i
  else none

/-- `frame802154e_parse_mlme_long_ie`, where the list of the hopping sequence has `maxLen` places. The
    length of the sequence is kept also where the list is not. -/
def parseMlmeLongIe (maxLen : Nat) (buf : List UInt8) (len id : Nat) (ies : Ies) :
    Option (Int × Ies) :=
  if id = mlmeLongIeTschChannelHoppingSequence ∧ 0 < len then do
    let sequenceId ← buf[0]?
    let ies := { ies with channelHoppingSequenceId := sequenceId }
    if 1 < len then do
      let sequenceLen ← read16 buf 8
      let ies := { ies with hoppingSequenceLen := sequenceLen }
      if sequenceLen.toNat ≤ maxLen ∧ len = 12 + sequenceLen.toNat then do
        let list ← copyOut buf 10 sequenceLen.toNat ies.hoppingSequenceList
        some (len, { ies with hoppingSequenceList := list })
      else some (len, ies)
    else some (len, ies)
  else some (-1, ies)

/-! ### The loop over the elements -/

inductive ParsingState where | headerIe | payloadIe | mlmeSubie
  deriving DecidableEq

/-- What one element leads to: the parser returns, or skips `len` bytes and goes on. -/
inductive Next where
  | ret (value : Int)
  | more (parsingState : ParsingState) (nestedMlmeLen : Int) (len : Nat)

/-- The fields of a descriptor: `b0..b(w-1)` is the length, what is above up to `b14` the id. -/
def descLen (desc : UInt16) (w : Nat) : Nat := desc.toNat % 2 ^ w
def descId (desc : UInt16) (w : Nat) : Nat := desc.toNat % 2 ^ 15 / 2 ^ w
def descType (desc : UInt16) : Bool := 2 ^ 15 ≤ desc.toNat

def headerElement (offset : Nat) (nested : Int) (desc : UInt16) (buf : List UInt8) (ies : Ies) :
    Option (Next × Ies) :=
  let len := descLen desc 7
  let id := descId desc 7
  if descType desc then some (.ret (-1), ies)
  else if id = headerIeListTermination1 then
    if len = 0 then
      some (.more .payloadIe nested len, { ies with payloadIeOffset := .ofNat offset })
    else some (.ret (-1), ies)
  else if id = headerIeListTermination2 then
    if len = 0 then some (.ret (offset + len), { ies with payloadIeOffset := .ofNat offset })
    else some (.ret (-1), ies)
  else if buf.length < len then some (.ret (-1), ies)
  else do
    let (r, ies) ← parseHeaderIe buf len id ies
    some (if r = -1 then .ret (-1) else .more .headerIe nested len, ies)

def payloadElement (offset : Nat) (desc : UInt16) (ies : Ies) : Option (Next × Ies) :=
  let len := descLen desc 11
  let id := descId desc 11
  if ¬descType desc then some (.ret (-1), ies)
  else if id = payloadIeMlme then some (.more .mlmeSubie len 0, ies)
  else if id = payloadIeListTermination then
    some (.ret (if len = 0 then offset + len else -1), ies)
  else some (.ret (-1), ies)

/-- What is left of the MLME element behind a nested element of `len` bytes. -/
def nestedNext (nested : Int) (len : Nat) : Next :=
  let nested := nested - (2 + len)
  if nested < 0 then .ret (-1)
  else .more (if nested = 0 then .payloadIe else .mlmeSubie) nested len

/-- A nested element, short or long. -/
def nestedElement (maxLen : Nat) (nested : Int) (desc : UInt16) (buf : List UInt8) (ies : Ies) :
    Option (Next × Ies) :=
  let w := if descType desc then 11 else 8
  let len := descLen desc w
  let id := descId desc w
  if buf.length < len then some (.ret (-1), ies)
  else do
    let (r, ies) ← if descType desc then parseMlmeLongIe maxLen buf len id ies
      else parseMlmeShortIe buf len id ies
    some (if r = -1 then .ret (-1) else nestedNext nested len, ies)

def parseElement (maxLen offset : Nat) (parsingState : ParsingState) (nested : Int) (desc : UInt16)
    (buf : List UInt8) (ies : Ies) : Option (Next × Ies) :=
  match parsingState with
  | .headerIe => headerElement offset nested desc buf ies
  | .payloadIe => payloadElement offset desc ies
  | .mlmeSubie => nestedElement maxLen nested desc buf ies

/-- A descriptor, the low byte first. -/
def descOf (lo hi : UInt8) : UInt16 := lo.toUInt16 ||| (hi.toUInt16 <<< 8)

/-- The `while` loop of `frame802154e_parse_information_elements`, over a buffer of `size` bytes. -/
def loop (maxLen size : Nat) (parsingState : ParsingState) (nested : Int) (ies : Ies) :
    List UInt8 → Option (Int × Ies)
  | [] => some (size, if parsingState = .headerIe then { ies with payloadIeOffset := .ofNat size }
      else ies)
  | [_] => some (-1, ies)
  | lo :: hi :: buf =>
    match parseElement maxLen (size - buf.length) parsingState nested (descOf lo hi) buf ies with
    | none => none
    | some (.ret value, ies) => some (value, ies)
    | some (.more parsingState nested len, ies) =>
      loop maxLen size parsingState nested ies (buf.drop len)
  termination_by buf => buf.length
  decreasing_by
    simp only [List.length_drop, List.length_cons]
    omega

def parseInformationElements (maxLen : Nat) (buf : List UInt8) (ies : Ies) : Option (Int × Ies) :=
  loop maxLen buf.length .headerIe 0 { ies with payloadIeOffset := 0 } buf

end CSync.InformationElements
