import CSync.Types

/-! The real-time timers (`cpu/msp430/f1xxx/rtimer.c`).

    Time is a pair of 32-bit counters: a coarse part, and a fine part that carries into the coarse one past
    `RTIMER_FINE_MAX`. The hardware clock is `coarse_count` and the fine reading of timers A and B; the logical clock
    is the hardware clock plus `fine_offset`. Every call that reads the fine clock takes the next value of the stream
    `hw`, so a run may let any time pass between two readings of one call. -/

namespace CSync

/-- `rtimer_state_t`. -/
inductive RtimerStatus where | justExpired | inactive | scheduled | singlepass
  deriving DecidableEq

/-- `rtimer_id_t`; the two values below `NUM_OF_RTIMERS`. -/
inductive RtimerId where | rtimer0 | rtimer1
  deriving DecidableEq

/-- `rtimer_scheduletype_t`. -/
inductive ScheduleType where | date | intervalNow | intervalRef
  deriving DecidableEq

/-- One timer record, `rtimer_t`. -/
structure Rtimer where
  timeCoarseLg : UInt32
  timeFineLg : UInt32
  timeCoarseHw : UInt32
  timeFineHw : UInt32
  ta : UInt16
  tb : UInt16
  func : Option Callback
  state : RtimerStatus
  deriving DecidableEq

/-- A record cleared by `memset`. -/
def Rtimer.zero : Rtimer := ⟨0, 0, 0, 0, 0, 0, none, .justExpired⟩

/-- The statics of `rtimer.c`. -/
structure RtimerState (R : Type) where
  coarseCount : UInt32
  avgRate : R
  coarseOffsetRef : UInt32
  fineOffsetRef : UInt32
  fineOffset : UInt32
  schedulerFineOffsetRef : UInt32
  coarseScheduleRef : UInt32
  fineScheduleRef : UInt32
  rt0 : Rtimer
  rt1 : Rtimer
  /-- The timer loaded into the low-frequency compare register; `none` with the interrupt off. -/
  lf : Option RtimerId
  /-- The values the next readings of the fine clock return. -/
  hw : Nat → UInt32

def fineMax : UInt32 := 67108863

def coarseFineShift : UInt32 := 26

def scheduleSafetyMargin : UInt32 := 2000

namespace RtimerState

variable {R : Type}

def rt (s : RtimerState R) : RtimerId → Rtimer
  | .rtimer0 => s.rt0
  | .rtimer1 => s.rt1

def setRt (s : RtimerState R) : RtimerId → Rtimer → RtimerState R
  | .rtimer0, r => { s with rt0 := r }
  | .rtimer1, r => { s with rt1 := r }

/-- Read the fine clock. -/
def tick (s : RtimerState R) : UInt32 × RtimerState R :=
  (s.hw 0, { s with hw := fun i => s.hw (i + 1) })

end RtimerState

variable {R : Type} [SoftDouble R]

def rtimerInit : RtimerState R where
  coarseCount := 0
  avgRate := SoftDouble.ofNat 0
  coarseOffsetRef := 0
  fineOffsetRef := 0
  fineOffset := fineMax
  schedulerFineOffsetRef := fineMax
  coarseScheduleRef := 0
  fineScheduleRef := 0
  rt0 := .zero
  rt1 := .zero
  lf := none
  hw := fun _ => 1

/-- One iteration of the scan in `rtimer_lf_update`. -/
def lfScan (acc : UInt32 × UInt32 × Option RtimerId) (timer : RtimerId) (r : Rtimer) :
    UInt32 × UInt32 × Option RtimerId :=
  let (timeCoarse, timeFine, timerUse) := acc
  if r.state = .scheduled then
    if r.timeCoarseHw ≤ timeCoarse then
      if r.timeFineHw ≤ timeFine then (r.timeCoarseHw, r.timeFineHw, some timer)
      else (r.timeCoarseHw, timeFine, timerUse)
    else acc
  else acc

/-- `rtimer_lf_update`: choose the timer for the next low-frequency compare. -/
def rtimerLfUpdate (s : RtimerState R) : RtimerState R :=
  let acc := lfScan (0xFFFFFFFF, 0xFFFFFFFF, none) .rtimer0 s.rt0
  { s with lf := (lfScan acc .rtimer1 s.rt1).2.2 }

/-- `rtimer_lf_overflow`: timer A wrapped around. -/
def rtimerLfOverflow (s : RtimerState R) : RtimerState R :=
  rtimerLfUpdate { s with coarseCount := s.coarseCount + 1 }

/-- The 32-bit distance used by `rtimer_update_offset`, `rtimer_estimate_offset` and
    `rtimer_lgdates_to_lg_interval`: coarse difference shifted, fine difference with a borrow. -/
def lgInterval (timeCoarse timeFine coarseThen fineThen : UInt32) : UInt32 :=
  if fineThen < timeFine then
    ((timeCoarse - coarseThen) <<< coarseFineShift) + (timeFine - fineThen)
  else
    ((timeCoarse - coarseThen - 1) <<< coarseFineShift) + (timeFine + (fineMax - fineThen))

def rtimerUpdateOffset (s : RtimerState R) (timeCoarse timeFine : UInt32) : RtimerState R :=
  let interval := lgInterval timeCoarse timeFine s.coarseOffsetRef s.fineOffsetRef
  { s with
    fineOffset := s.fineOffset +
      SoftDouble.toU32 (SoftDouble.mul (SoftDouble.ofNat interval.toNat) s.avgRate)
    coarseOffsetRef := timeCoarse
    fineOffsetRef := timeFine }

def rtimerEstimateOffset (s : RtimerState R) (timeCoarse timeFine : UInt32) : UInt32 :=
  let interval := lgInterval timeCoarse timeFine s.coarseOffsetRef s.fineOffsetRef
  SoftDouble.toU32 (SoftDouble.add (SoftDouble.ofNat s.fineOffset.toNat)
    (SoftDouble.mul (SoftDouble.ofNat interval.toNat) s.avgRate))

def rtimerHwdateToLgdate (timeCoarse timeFine offset : UInt32) : UInt32 × UInt32 :=
  let (timeCoarse, offset) :=
    if fineMax < offset then (timeCoarse + 1, offset - fineMax) else (timeCoarse, offset)
  let timeFine := timeFine + offset
  if fineMax < timeFine then (timeCoarse + 1, timeFine - fineMax) else (timeCoarse, timeFine)

/-- `rtimer_lgdates_to_lg_interval`: the interval is left in the fine part, the coarse part is 0. -/
def rtimerLgdatesToLgInterval (timeCoarse timeFine coarseThen fineThen : UInt32) :
    UInt32 × UInt32 :=
  (0, lgInterval timeCoarse timeFine coarseThen fineThen)

/-- The part of `rtimer_lginterval_to_hwdate` that adds an interval to a hardware date. -/
def addInterval (fine coarseThen fineThen : UInt32) : UInt32 × UInt32 :=
  let (timeCoarse, timeFine) :=
    if fineMax < fine then (fine / fineMax, fine % fineMax) else (0, fine)
  let timeFine := timeFine + fineThen
  let (timeCoarse, timeFine) :=
    if fineMax < timeFine then (timeCoarse + 1, timeFine - fineMax) else (timeCoarse, timeFine)
  (timeCoarse + coarseThen, timeFine)

/-- `rtimer_lginterval_to_hwdate`: the hardware date, and the fine reading the caller checks it against. -/
def rtimerLgintervalToHwdate (s : RtimerState R) (timeFine : UInt32) (interval : ScheduleType) :
    UInt32 × UInt32 × UInt32 × RtimerState R :=
  let fine := SoftDouble.toU32 (SoftDouble.mul (SoftDouble.ofNat timeFine.toNat)
    (SoftDouble.add (SoftDouble.ofNat 1) s.avgRate))
  if interval = .intervalRef then
    let (c, f) := addInterval fine s.coarseScheduleRef s.fineScheduleRef
    let (fineThen, s) := s.tick
    (c, f, fineThen, s)
  else
    let (fineThen, s) := s.tick
    let (c, f) := addInterval fine s.coarseCount fineThen
    (c, f, fineThen, s)

def rtimerLgdateToHwdate (s : RtimerState R) (timeCoarse timeFine : UInt32) :
    UInt32 × UInt32 × UInt32 × RtimerState R :=
  let coarseNow := s.coarseCount
  let (fineNow, s) := s.tick
  let s := { s with coarseScheduleRef := coarseNow, fineScheduleRef := fineNow }
  let s := rtimerUpdateOffset s coarseNow fineNow
  let (lgCoarse, lgFine) := rtimerHwdateToLgdate coarseNow fineNow s.fineOffset
  let (_, interval) := rtimerLgdatesToLgInterval timeCoarse timeFine lgCoarse lgFine
  rtimerLgintervalToHwdate s interval .intervalRef

/-- `rtimer_compare`: the order of the armed logical date and the given one. -/
def rtimerCompare (s : RtimerState R) (timer : RtimerId) (timeCoarseLg timeFineLg : UInt32) : Int :=
  let r := s.rt timer
  if r.state = .justExpired ∨ r.state = .inactive then 1
  else if r.timeCoarseLg = timeCoarseLg then
    if timeFineLg < r.timeFineLg then -1 else if r.timeFineLg < timeFineLg then 1 else 0
  else if timeCoarseLg < r.timeCoarseLg then -1 else 1

/-- The values of the compare registers for a fine hardware date. -/
def taOf (timeFine : UInt32) : UInt16 := ((timeFine >>> 12) <<< 2).toUInt16
def tbOf (timeFine : UInt32) : UInt16 := (timeFine.toUInt16 <<< 4) >>> 4

/-- The test by which `rtimer_schedule` refuses a date that has passed or is too near. -/
def tooLate (s : RtimerState R) (timeCoarse timeFine quickRef : UInt32) : Bool :=
  timeCoarse < s.coarseCount ||
    (timeCoarse == s.coarseCount && timeFine < quickRef + scheduleSafetyMargin)

/-- `rtimer_schedule`: the returned flag and the new state. The callback is stored before the date is checked. -/
def rtimerSchedule (s : RtimerState R) (timer : RtimerId) (interval : ScheduleType)
    (timeCoarse timeFine : UInt32) (func : Callback) : Bool × RtimerState R :=
  if timeCoarse = 0 ∧ timeFine = 0 then (false, s)
  else if (s.rt timer).state = .singlepass then
    (true, s.setRt timer { s.rt timer with state := .scheduled })
  else
    let s := s.setRt timer { s.rt timer with func := some func }
    if interval = .date then
      let (c, f, quickRef, s) := rtimerLgdateToHwdate s timeCoarse timeFine
      if tooLate s c f quickRef then (false, s)
      else
        (true, rtimerLfUpdate (s.setRt timer { s.rt timer with
          timeCoarseLg := timeCoarse, timeFineLg := timeFine, timeCoarseHw := c, timeFineHw := f,
          ta := taOf f, tb := tbOf f, state := .scheduled }))
    else
      let (c, f, quickRef, s) := rtimerLgintervalToHwdate s timeFine interval
      if tooLate s c f quickRef then (false, s)
      else
        let (lgCoarse, lgFine) := rtimerHwdateToLgdate c f (rtimerEstimateOffset s c f)
        (true, rtimerLfUpdate (s.setRt timer { s.rt timer with
          timeCoarseLg := lgCoarse, timeFineLg := lgFine, timeCoarseHw := c, timeFineHw := f,
          ta := taOf f, tb := tbOf f, state := .scheduled }))

def rtimerAdjustCoarseCount (s : RtimerState R) (diff : Int32) : RtimerState R :=
  { s with coarseCount := s.coarseCount - diff.toUInt32 }

/-- Re-arm a scheduled timer at its own logical date. -/
def rescheduleSame (s : RtimerState R) (timer : RtimerId) : RtimerState R :=
  let r := s.rt timer
  match r.state, r.func with
  | .scheduled, some func =>
      (rtimerSchedule s timer .date r.timeCoarseLg r.timeFineLg func).2
  | _, _ => s

/-- `rtimer_adjust_fine_offset`. The bounds `RTIMER_OFFSET_MIN` and `RTIMER_OFFSET_MAX` are half and
    one and a half times `RTIMER_FINE_MAX`. -/
def rtimerAdjustFineOffset (s : RtimerState R) (diff : Int32) : RtimerState R :=
  let s := { s with fineOffset := s.fineOffset - diff.toUInt32 }
  let s :=
    if 2 * s.fineOffset.toNat < fineMax.toNat then
      { s with coarseCount := s.coarseCount - 1, fineOffset := s.fineOffset + fineMax }
    else if 3 * fineMax.toNat < 2 * s.fineOffset.toNat then
      { s with coarseCount := s.coarseCount + 1, fineOffset := s.fineOffset - fineMax }
    else s
  let diff := s.schedulerFineOffsetRef.toInt32 - s.fineOffset.toInt32
  let s := if diff < -200 ∨ 200 < diff then rescheduleSame (rescheduleSame s .rtimer0) .rtimer1 else s
  { s with schedulerFineOffsetRef := s.fineOffset }

end CSync
