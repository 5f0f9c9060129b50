import CSync.Mac.Frame
import CSync.Mac.ElementBounds
import CSync.Tsch.LinkRuns

/-! Joining a network (`tsch_associate` of `tsch.c`, `tsch_packet_parse_eb` of `tsch-packet.c`).

    A beacon is the memory from its first byte on, and its length. The parsers of nested elements read up
    to eight bytes behind the part that they are given; these are the bytes that follow. The node takes over
    the timing, the hopping sequence and the schedule of the beacon, and falls back on its own defaults.
    What has no value has divided by zero. -/

namespace CSync

open InformationElements (Ies Next ParsingState descLen descId descType descOf parseMlmeLongIe
  parseMlmeShortIe headerElement payloadElement nestedNext tsElementsCount)

namespace TschAssociation

/-- `nestedElement` with the bytes behind the buffer. -/
def nestedElement (maxLen : Nat) (behind : List UInt8) (nested : Int) (desc : UInt16) (buf : List UInt8)
    (ies : Ies) : Option (Next × Ies) :=
  let w := if descType desc then 11 else 8
  let len := descLen desc w
  let id := descId desc w
  if buf.length < len then some (.ret (-1), ies)
  else do
    let (r, ies) ← if descType desc then parseMlmeLongIe maxLen (buf ++ behind) len id ies
      else parseMlmeShortIe (buf ++ behind) len id ies
    some (if r = -1 then .ret (-1) else nestedNext nested len, ies)

/-- The switch over the parsing state; header elements are read within the buffer. -/
def parseElement (maxLen : Nat) (behind : List UInt8) (offset : Nat) (parsingState : ParsingState)
    (nested : Int) (desc : UInt16) (buf : List UInt8) (ies : Ies) : Option (Next × Ies) :=
  match parsingState with
  | .headerIe => headerElement offset nested desc buf ies
  | .payloadIe => payloadElement offset desc ies
  | .mlmeSubie => nestedElement maxLen behind nested desc buf ies

/-- The `while` loop of `frame802154e_parse_information_elements`. -/
def loop (maxLen : Nat) (behind : List UInt8) (size : Nat) (parsingState : ParsingState) (nested : Int)
    (ies : Ies) : List UInt8 → Option (Int × Ies)
  | [] => some (size, if parsingState = .headerIe then { ies with payloadIeOffset := .ofNat size } else ies)
  | [_] => some (-1, ies)
  | lo :: hi :: buf =>
    match parseElement maxLen behind (size - buf.length) parsingState nested (descOf lo hi) buf ies with
    | none => none
    | some (.ret value, ies) => some (value, ies)
    | some (.more parsingState nested len, ies) =>
      loop maxLen behind size parsingState nested ies (buf.drop len)
  termination_by buf => buf.length
  decreasing_by
    simp only [List.length_drop, List.length_cons]
    omega

/-- `frame802154e_parse_information_elements`, of which the size has eight bits. -/
def parseInformationElements (maxLen : Nat) (data : Nat → UInt8) (size : UInt8) (ies : Ies) :
    Option (Int × Ies) :=
  loop maxLen ((List.range 8).map fun i => data (size.toNat + i)) size.toNat .headerIe 0
    { ies with payloadIeOffset := 0 } ((List.range size.toNat).map data)

/-! ### Beacons -/

/-- What the build configures. -/
structure Build where
  frame : Frame802154.Config
  /-- `LLSEC802154_ENABLED`, `TSCH_JOIN_SECURED_ONLY`, and the PAN id of `TSCH_JOIN_MY_PANID_ONLY`. -/
  llsecEnabled : Bool
  joinSecuredOnly : Bool
  joinMyPanidOnly : Option UInt16
  /-- `US_TO_RTIMERTICKS`. -/
  usToRtimerTicks : UInt16 → Nat
  defaultTimingUs : Nat → UInt16
  /-- The default hopping sequence, which is not empty and fits in `tsch_hopping_sequence`. -/
  defaultHoppingSequence : List UInt8
  hoppingSequenceMaxLen : Nat
  default_pos : 0 < defaultHoppingSequence.length
  default_le : defaultHoppingSequence.length ≤ hoppingSequenceMaxLen
  initScheduleFromEb : Bool
  scheduleWith6tischMinimal : Bool
  scheduleDefaultLength : UInt16
  maxJoinPriority : Nat
  keepaliveTimeout : Nat

/-- `FRAME802154_BEACONFRAME`. -/
def beaconFrame : UInt8 := 0

/-- The elements before they are parsed. -/
def noIes : Ies where
  timeCorrection := 0
  isNack := 0
  payloadIeOffset := 0
  asnLs4b := 0
  asnMs1b := 0
  joinPriority := 0xff
  tschTimeslotId := 0
  tschTimeslot := fun _ => 0
  tschSlotframeAndLink := ⟨0, 0, 0, 0, fun _ => ⟨0, 0, 0⟩⟩
  channelHoppingSequenceId := 0
  hoppingSequenceLen := 0
  hoppingSequenceList := fun _ => 0

/-- `tsch_security_mic_len`. -/
def micLen (frame : Frame802154.Frame) : Nat :=
  if frame.fcf.securityEnabled ≠ 0 then 2 <<< (frame.auxHdr.securityControl.securityLevel &&& 3).toNat else 0

/-- `tsch_packet_parse_eb`: the frame and its elements, or nothing if it fails; `frame₀` is what the frame
    held before. -/
def parseEb (b : Build) (data : Nat → UInt8) (len : Int) (frame₀ : Frame802154.Frame)
    (frameWithoutMic : Bool) : Option (Option (Frame802154.Frame × Ies)) :=
  let (hdrlen, frame) := Frame802154.parse b.frame data len frame₀
  let currLen := UInt8.ofNat hdrlen.toNat
  if len < 0 ∨ hdrlen = 0 ∨ frame.fcf.frameVersion < Frame802154.ieee802154e2012 ∨
      frame.fcf.frameType ≠ beaconFrame then some none
  else if frame.fcf.ieListPresent = 0 then
    some (if currLen = 0 then none else some (frame, noIes))
  else
    let mic := if b.llsecEnabled && !frameWithoutMic then micLen frame else 0
    if len < currLen.toNat + mic then some none
    else do
      let (r, ies) ← parseInformationElements b.hoppingSequenceMaxLen (fun i => data (currLen.toNat + i))
        (UInt8.ofNat (len - currLen.toNat - mic).toNat) noIes
      some (if r = -1 ∨ currLen + UInt8.ofNat r.toNat = 0 then none else some (frame, ies))

abbrev ScheduleConfig := TschSchedule.Config (List UInt8)

/-- The schedule, and the other variables of `tsch.c`. -/
structure State (c : ScheduleConfig) where
  sched : TschSchedule.State c
  currentAsn : TschSchedule.Asn
  lastSyncAsn : TschSchedule.Asn
  currentSlotStart : Int
  joinPriority : UInt8
  timing : Nat → Nat
  hoppingSequence : Nat → UInt8
  hoppingSequenceLength : TschSchedule.AsnDivisor
  isAssociated : Bool
  isPanSecured : UInt8
  panId : UInt16
  kaTimeout : Nat
  /-- The delay of the last keep-alive that was scheduled. -/
  keepaliveDelay : Option Nat

variable {c : ScheduleConfig}

/-- `tsch_ts_tx_offset` and `tsch_ts_timeslot_length`. -/
def tsTxOffset : Nat := 2
def tsTimeslotLength : Nat := 11

/-! ### Taking over the configuration -/

/-- The refusals in front of any change. -/
def refused (b : Build) (authentic : Bool) (frame : Frame802154.Frame) (ies : Ies) : Bool :=
  (b.joinSecuredOnly && frame.fcf.securityEnabled == 0) ||
    (b.llsecEnabled && !authentic) ||
    (!b.llsecEnabled && frame.fcf.securityEnabled == 1) ||
    b.joinMyPanidOnly.any (fun pid => frame.srcPid != pid) ||
    ies.joinPriority == 0xff

/-- One timing of the timeslot. -/
def timingOf (b : Build) (ies : Ies) (i : Nat) : Nat :=
  b.usToRtimerTicks (if ies.tschTimeslotId = 0 then b.defaultTimingUs i else ies.tschTimeslot i)

def setTiming (b : Build) (ies : Ies) (s : State c) : State c :=
  { s with timing := fun i => if i < tsElementsCount then timingOf b ies i else s.timing i }

/-- The hopping sequence is one of the beacon, and does not fit. -/
def hoppingTooLong (b : Build) (ies : Ies) : Bool :=
  ies.channelHoppingSequenceId != 0 && decide (b.hoppingSequenceMaxLen < ies.hoppingSequenceLen.toNat)

/-- `memcpy` to `tsch_hopping_sequence`, and `TSCH_ASN_DIVISOR_INIT` of its length. -/
def copyHopping (list : Nat → UInt8) (len : Nat) (s : State c) : Option (State c) :=
  (TschSchedule.asnDivisorInit len).map fun div =>
    { s with
      hoppingSequence := fun i => if i < len then list i else s.hoppingSequence i
      hoppingSequenceLength := div }

def setHopping (b : Build) (ies : Ies) (s : State c) : Option (State c) :=
  if ies.channelHoppingSequenceId = 0 then
    copyHopping (fun i => b.defaultHoppingSequence.getD i 0) b.defaultHoppingSequence.length s
  else copyHopping ies.hoppingSequenceList ies.hoppingSequenceLen.toNat s

/-- `tsch_schedule_add_link` does nothing without a slotframe. -/
def addLinkTo (sf : Option (Fin c.maxSlotframes)) (args : TschSchedule.LinkArgs (List UInt8))
    (sched : TschSchedule.State c) : TschSchedule.State c :=
  match sf with
  | none => sched
  | some sf => (TschSchedule.addLink sf args sched).2

def createMinimal (b : Build) (sched : TschSchedule.State c) : TschSchedule.State c :=
  let (sf, sched) := TschSchedule.addSlotframe 0 b.scheduleDefaultLength (TschSchedule.removeAllSlotframes sched)
  addLinkTo sf ⟨15, .advertising, c.broadcastAddress, 0, 0⟩ sched

def ebLink (c : ScheduleConfig) (k : InformationElements.Link) : TschSchedule.LinkArgs (List UInt8) :=
  ⟨k.linkOptions, .advertising, c.broadcastAddress, k.timeslot, k.channelOffset⟩

/-- The loop over the links of the beacon. -/
def addEbLinks (sf : Option (Fin c.maxSlotframes)) (links : Nat → InformationElements.Link) :
    Nat → TschSchedule.State c → TschSchedule.State c
  | 0, sched => sched
  | n + 1, sched => addLinkTo sf (ebLink c (links n)) (addEbLinks sf links n sched)

/-- The beacon has more links than the node keeps. -/
def tooManyLinks (b : Build) (ies : Ies) : Bool :=
  b.initScheduleFromEb && ies.tschSlotframeAndLink.numSlotframes != 0 &&
    decide (InformationElements.maxLinks < ies.tschSlotframeAndLink.numLinks.toNat)

/-- The schedule of the beacon. -/
def setSchedule (b : Build) (ies : Ies) (sched : TschSchedule.State c) : TschSchedule.State c :=
  let eb := ies.tschSlotframeAndLink
  if b.initScheduleFromEb = false then sched
  else if eb.numSlotframes = 0 then if b.scheduleWith6tischMinimal then createMinimal b sched else sched
  else if tooManyLinks b ies then TschSchedule.removeAllSlotframes sched
  else
    let (sf, sched) := TschSchedule.addSlotframe eb.slotframeHandle.toUInt16 eb.slotframeSize
      (TschSchedule.removeAllSlotframes sched)
    addEbLinks sf eb.links eb.numLinks.toNat sched

/-! ### Joining -/

def scheduleKeepalive (random : Nat) (s : State c) : Option (State c) :=
  if s.sched.isCoordinator = false ∧ s.isAssociated ∧ 0 < s.kaTimeout then
    if s.kaTimeout / 10 = 0 then none
    else some { s with
      keepaliveDelay := some (s.kaTimeout - s.kaTimeout / 10 + random % (s.kaTimeout / 10)) }
  else some s

/-- `tsch_queue_update_time_source` finds another time source. -/
def newTimeSource (addr : List UInt8) (sched : TschSchedule.State c) : Bool :=
  !sched.isCoordinator && (TschSchedule.queueGetNbr (TschSchedule.queueAddNbr addr sched) addr).isSome &&
    decide ((TschSchedule.queueGetTimeSource sched).map TschSchedule.Neighbor.addr ≠ some addr)

def updateTimeSource (b : Build) (random : Nat) (addr : List UInt8) (s : State c) : Option (State c) :=
  let s' := { s with sched := TschSchedule.queueUpdateTimeSource (some addr) s.sched }
  if newTimeSource addr s.sched then scheduleKeepalive random { s' with kaTimeout := b.keepaliveTimeout }
  else some s'

/-- `linkaddr_t` of an address field. -/
def linkaddr (b : Build) (addr : Nat → UInt8) : List UInt8 := (List.range b.frame.linkaddrSize).map addr

/-- The end of `tsch_associate`. -/
def join (b : Build) (frame : Frame802154.Frame) (timestamp : Int) (random₁ random₂ : Nat) (s : State c) :
    Option (Bool × State c) :=
  let addr := linkaddr b frame.srcAddr
  let s := { s with sched := TschSchedule.queueAddNbr addr s.sched }
  if (TschSchedule.queueGetNbr s.sched addr).isNone then some (false, s)
  else do
    let s ← updateTimeSource b random₁ addr s
    let s ← scheduleKeepalive random₂
      { s with
        panId := frame.srcPid
        currentSlotStart := timestamp - s.timing tsTxOffset
        lastSyncAsn := s.currentAsn
        sched := { s.sched with currentLink := none }
        isAssociated := true
        isPanSecured := frame.fcf.securityEnabled }
    some (true, s)

/-- `tsch_associate`: the result and the variables. `authentic` is what `tsch_security_parse_frame` says. -/
def associate (b : Build) (data : Nat → UInt8) (len : Int) (frame₀ : Frame802154.Frame) (authentic : Bool)
    (timestamp : Int) (random₁ random₂ : Nat) (s : State c) : Option (Bool × State c) := do
  match ← parseEb b data len frame₀ false with
  | none => some (false, s)
  | some (frame, ies) =>
    let s := { s with currentAsn := ⟨ies.asnLs4b, ies.asnMs1b⟩, joinPriority := ies.joinPriority + 1 }
    if refused b authentic frame ies then some (false, s)
    else
      let s := setTiming b ies s
      if hoppingTooLong b ies then some (false, s)
      else do
        let s ← setHopping b ies s
        let s := { s with sched := setSchedule b ies s.sched }
        if tooManyLinks b ies then some (false, s)
        else if s.joinPriority.toNat < b.maxJoinPriority then join b frame timestamp random₁ random₂ s
        else some (false, s)

end TschAssociation

end CSync
