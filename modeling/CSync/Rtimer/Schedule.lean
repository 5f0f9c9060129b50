import CSync.Rtimer.Model

/-! Scheduling a timer at a logical date (`rtimer_schedule` with `RTIMER_DATE`).

    The date goes through four 32-bit conversions: the hardware time becomes a logical one, the two logical dates
    become an interval, the interval is added to the hardware time, and the result is compared with the clock. The
    interval is formed by a shift, so a coarse unit counts `2 ^ 26` fine ticks and only six bits of the coarse
    distance survive, while everywhere else a coarse unit is `RTIMER_FINE_MAX = 2 ^ 26 - 1` ticks. `schedule_date_iff`
    says exactly for which dates the call still does its job. -/

namespace CSync

variable {R : Type} [SoftDouble R]

/-- Multiplying by 0 gives 0. -/
structure ExactZero (R : Type) [SoftDouble R] : Prop where
  mul_zero : ∀ x : UInt32, SoftDouble.toU32
    (SoftDouble.mul (SoftDouble.ofNat x.toNat) (SoftDouble.ofNat 0 : R)) = 0

/-- A zero rate stretches nothing: multiplying by 1 is exact as well. -/
structure ExactUnit (R : Type) [SoftDouble R] : Prop extends ExactZero R where
  mul_one : ∀ x : UInt32, SoftDouble.toU32 (SoftDouble.mul (SoftDouble.ofNat x.toNat)
    (SoftDouble.add (SoftDouble.ofNat 1) (SoftDouble.ofNat 0 : R))) = x

/-- A date in fine ticks; a coarse unit is `RTIMER_FINE_MAX` ticks. -/
def ticks (d : UInt32 × UInt32) : Int := (d.1.toNat : Int) * 67108863 + d.2.toNat

/-- The current hardware time: the coarse counter and the first reading of the fine clock. -/
def hwNow (s : RtimerState R) : UInt32 × UInt32 := (s.coarseCount, s.hw 0)

/-- The current logical time. -/
def lgNow (s : RtimerState R) : UInt32 × UInt32 :=
  rtimerHwdateToLgdate s.coarseCount (s.hw 0) s.fineOffset

/-- No timer is armed by going from `s` to `s'`: every record keeps its dates, registers and state. -/
def ArmsNothing (s s' : RtimerState R) : Prop :=
  s'.lf = s.lf ∧ ∀ t, s'.rt t = { s.rt t with func := (s'.rt t).func }

/-- What scheduling at the logical date `(c, f)` is for: a date that is not later than now is refused
    and arms nothing; an accepted one arms the timer as far ahead of the hardware clock as the date
    is ahead of the logical clock. -/
def DateSpec (s : RtimerState R) (timer : RtimerId) (c f : UInt32) (func : Callback) : Prop :=
  let r := rtimerSchedule s timer .date c f func
  (ticks (c, f) ≤ ticks (lgNow s) → r.1 = false ∧ ArmsNothing s r.2) ∧
  (r.1 = true →
    ticks ((r.2.rt timer).timeCoarseHw, (r.2.rt timer).timeFineHw) - ticks (hwNow s)
      = ticks (c, f) - ticks (lgNow s))

/-- Whole coarse units from `now` to the date, after the borrow of the fine parts. -/
def coarseGap (now d : UInt32 × UInt32) : Int :=
  (d.1.toNat : Int) - now.1.toNat - if now.2 < d.2 then 0 else 1

/-- Fine ticks from `now` to the date beyond the whole coarse units. -/
def fineGap (now d : UInt32 × UInt32) : Int :=
  if now.2 < d.2 then (d.2.toNat : Int) - now.2.toNat
  else (d.2.toNat : Int) + 67108863 - now.2.toNat

/-- The distance that the 32-bit shift leaves: six bits of the coarse gap, each worth `2 ^ 26`. -/
def shiftedGap (now d : UInt32 × UInt32) : Int :=
  coarseGap now d % 64 * 67108864 + fineGap now d

/-- When scheduling at a date does its job: the date lies in the coarse unit that starts now, or the call is refused
    because the shifted distance overflows the coarse counter or ends inside the safety margin. -/
def DateOk (s : RtimerState R) (c f : UInt32) : Prop :=
  let target := (s.hw 0).toNat + shiftedGap (lgNow s) (c, f)
  (coarseGap (lgNow s) (c, f) = 0 ∧ 0 < fineGap (lgNow s) (c, f)) ∨
  4294967296 ≤ (s.coarseCount.toNat : Int) + (target - 1) / 67108863 ∨
  (target ≤ 67108863 ∧ target < (s.hw 1 + scheduleSafetyMargin).toNat)

theorem lgInterval_toNat (c f lc lf : UInt32) (hf : f.toNat ≤ 67108863) (hlf : lf.toNat ≤ 67108863) : ((lgInterval c f
    lc lf).toNat : Int) = shiftedGap (lc, lf) (c, f) := by
  have hlc := lc.toNat_lt
  unfold lgInterval shiftedGap coarseGap fineGap
  by_cases h : lf < f
  · have h' := UInt32.lt_iff_toNat_lt.mp h
    simp only [h, if_true, coarseFineShift, UInt32.toNat_add, UInt32.toNat_shiftLeft,
      UInt32.toNat_sub, UInt32.reduceToNat, Nat.shiftLeft_eq, Nat.reduceMod, Nat.reducePow]
    omega
  · have h' : f.toNat ≤ lf.toNat := by
      rw [UInt32.lt_iff_toNat_lt] at h; omega
    simp only [h, if_false, coarseFineShift, fineMax, UInt32.toNat_add, UInt32.toNat_shiftLeft,
      UInt32.toNat_sub, UInt32.reduceToNat, Nat.shiftLeft_eq, Nat.reduceMod, Nat.reducePow]
    omega

theorem addInterval_toNat (i c fn : UInt32) (hpos : 0 < fn.toNat) (hfn : fn.toNat ≤ 67108863) :
    (addInterval i c fn).1.toNat = (c.toNat + (fn.toNat + i.toNat - 1) / 67108863) % 4294967296 ∧
    (addInterval i c fn).2.toNat = (fn.toNat + i.toNat - 1) % 67108863 + 1 := by
  unfold addInterval
  by_cases h : fineMax < i <;> simp only [h, if_true, if_false] <;> split_ifs with h2 <;>
    rw [UInt32.lt_iff_toNat_lt] at h h2 <;>
    simp only [fineMax, UInt32.toNat_add, UInt32.toNat_sub, UInt32.toNat_div, UInt32.toNat_mod,
      UInt32.reduceToNat, Nat.reducePow] at h h2 ⊢ <;> omega

omit [SoftDouble R] in
theorem lgNow_fine_le (s : RtimerState R) (hfn : (s.hw 0).toNat ≤ 67108863)
    (hmax : 2 * s.fineOffset.toNat ≤ 3 * 67108863) : (lgNow s).2.toNat ≤ 67108863 := by
  unfold lgNow rtimerHwdateToLgdate
  by_cases h : fineMax < s.fineOffset <;> simp only [h, if_true, if_false] <;>
    split_ifs with h2 <;> rw [UInt32.lt_iff_toNat_lt] at h h2 <;>
    simp only [fineMax, UInt32.toNat_add, UInt32.toNat_sub, UInt32.reduceToNat, Nat.reducePow] at h h2 ⊢ <;> omega

/-! ### Round trip -/

/-- The carries into the coarse part when an offset is added. -/
def carries (f o : UInt32) : Nat :=
  if fineMax < o then if fineMax < f + (o - fineMax) then 2 else 1 else if fineMax < f + o then 1 else 0

variable {f c : UInt32} {s : RtimerState R}

theorem rtimerHwdateToLgdate_toNat (c : UInt32) {o : UInt32} (hf : f.toNat ≤ 67108863) (ho : o.toNat ≤ 2 * 67108863) :
    (rtimerHwdateToLgdate c f o).1.toNat = (c.toNat + carries f o) % 4294967296 ∧
    (rtimerHwdateToLgdate c f o).2.toNat + 67108863 * carries f o = f.toNat + o.toNat ∧
    (rtimerHwdateToLgdate c f o).2.toNat ≤ 67108863 ∧
    (0 < carries f o → 0 < (rtimerHwdateToLgdate c f o).2.toNat) := by
  have hc := c.toNat_lt
  unfold rtimerHwdateToLgdate carries
  by_cases h : fineMax < o <;> simp only [h, if_true, if_false] <;> split_ifs with h2 <;>
    rw [UInt32.lt_iff_toNat_lt] at h h2 <;>
    simp only [fineMax, UInt32.toNat_add, UInt32.toNat_sub, UInt32.reduceToNat, Nat.reducePow, true_and]
      at h h2 ⊢ <;> omega

/-- To the logical date and back: the fine part is in its range, and the interval is the offset. -/
def RoundTrip (c f o : UInt32) : Prop :=
  (rtimerHwdateToLgdate c f o).2 ≤ fineMax ∧
  rtimerLgdatesToLgInterval (rtimerHwdateToLgdate c f o).1 (rtimerHwdateToLgdate c f o).2 c f = (0, o)

/-- The interval that comes back: an offset of 0 is taken for a full turn, and a carry in the coarse part counts one
    tick more than it was worth. -/
theorem lgInterval_hwdateToLgdate (c : UInt32) {o : UInt32} (hf : f.toNat ≤ 67108863) (ho : o.toNat ≤ 2 * 67108863) :
    (lgInterval (rtimerHwdateToLgdate c f o).1 (rtimerHwdateToLgdate c f o).2 c f).toNat =
      if o.toNat = 0 then 4294967295 else if o.toNat ≤ 67108863 then o.toNat else o.toNat + 1 := by
  obtain ⟨hcoarse, hfine, hle, hpos⟩ := rtimerHwdateToLgdate_toNat c hf ho
  have hgap := lgInterval_toNat (rtimerHwdateToLgdate c f o).1 (rtimerHwdateToLgdate c f o).2 c f hle hf
  rw [shiftedGap, coarseGap, fineGap] at hgap
  simp only [UInt32.lt_iff_toNat_lt] at hgap
  all_goals split at hgap <;> split_ifs <;> omega

/-- The conversions are inverse to each other for the offsets from 1 to a full coarse unit. -/
theorem roundTrip_iff (c f o : UInt32) (hf : f ≤ fineMax) (ho : o.toNat ≤ 2 * fineMax.toNat) :
    RoundTrip c f o ↔ 0 < o ∧ o ≤ fineMax := by
  have hmax : fineMax.toNat = 67108863 := rfl
  obtain ⟨-, -, hle, -⟩ := rtimerHwdateToLgdate_toNat c hf ho
  have hback := lgInterval_hwdateToLgdate c hf ho
  rw [RoundTrip, rtimerLgdatesToLgInterval, Prod.mk.injEq, ← UInt32.toNat_inj (b := o), hback,
    UInt32.le_iff_toNat_le, UInt32.le_iff_toNat_le, UInt32.lt_iff_toNat_lt, hmax, UInt32.toNat_zero]
  constructor
  · rintro ⟨-, -, h⟩
    split_ifs at h <;> omega
  · rintro ⟨hpos, hunit⟩
    refine ⟨hle, rfl, ?_⟩
    rw [if_neg (by omega), if_pos hunit]

/-- An offset that makes the fine part carry. -/
theorem roundTrip_carry : RoundTrip 7 67108000 1000 :=
  (roundTrip_iff 7 67108000 1000 (by decide) (by decide)).mpr (by decide)

/-- No offset comes back as the largest interval, and an offset past a coarse unit as one more. -/
theorem roundTrip_fails : ¬ RoundTrip 7 1000 0 ∧ ¬ RoundTrip 7 1000 67108864 :=
  ⟨fun h => absurd h.2 (by decide), fun h => absurd h.2 (by decide)⟩

/-! ### What the call computes -/

/-- The hardware date the call works out for the logical date `(c, f)`. -/
def hwTarget (s : RtimerState R) (c f : UInt32) : UInt32 × UInt32 :=
  addInterval (lgInterval c f (lgNow s).1 (lgNow s).2) s.coarseCount (s.hw 0)

theorem schedule_date_cases (hx : ExactUnit R) (timer : RtimerId) (func : Callback)
    (hrate : s.avgRate = SoftDouble.ofNat 0) (hsp : (s.rt timer).state ≠ .singlepass) (hne : ¬(c = 0 ∧ f = 0)) :
    (tooLate s (hwTarget s c f).1 (hwTarget s c f).2 (s.hw 1) = true ∧
     (rtimerSchedule s timer .date c f func).1 = false ∧
     ArmsNothing s (rtimerSchedule s timer .date c f func).2) ∨
    (tooLate s (hwTarget s c f).1 (hwTarget s c f).2 (s.hw 1) = false ∧
     (rtimerSchedule s timer .date c f func).1 = true ∧
     (((rtimerSchedule s timer .date c f func).2.rt timer).timeCoarseHw,
       ((rtimerSchedule s timer .date c f func).2.rt timer).timeFineHw) =
       hwTarget s c f) := by
  have hlg : rtimerLgdateToHwdate (s.setRt timer { s.rt timer with func := some func }) c f =
      ((hwTarget s c f).1, (hwTarget s c f).2, s.hw 1, { s.setRt timer { s.rt timer with func := some func } with
          coarseScheduleRef := s.coarseCount, fineScheduleRef := s.hw 0,
          coarseOffsetRef := s.coarseCount, fineOffsetRef := s.hw 0,
          hw := fun i => s.hw (i + 2) }) := by
    cases timer <;>
      simp [rtimerLgdateToHwdate, rtimerLgintervalToHwdate, rtimerUpdateOffset,
        rtimerLgdatesToLgInterval, RtimerState.tick, RtimerState.setRt, hrate, hx.mul_zero,
        hx.mul_one, hwTarget, lgNow]
  have hset : ∀ t, ((s.setRt timer { s.rt timer with func := some func }).rt t) =
      { s.rt t with func := ((s.setRt timer { s.rt timer with func := some func }).rt t).func } := by
    intro t; cases timer <;> cases t <;> rfl
  unfold rtimerSchedule
  rw [if_neg hne, if_neg hsp]
  simp only [if_true, hlg]
  cases hl : tooLate s (hwTarget s c f).1 (hwTarget s c f).2 (s.hw 1) with
  | true =>
    left
    have hl' : ∀ u : RtimerState R, u.coarseCount = s.coarseCount →
        tooLate u (hwTarget s c f).1 (hwTarget s c f).2 (s.hw 1) = true := by
      intro u hu; rw [← hl, tooLate, tooLate, hu]
    rw [if_pos (hl' _ (by cases timer <;> rfl))]
    refine ⟨rfl, rfl, by cases timer <;> rfl, fun t => ?_⟩
    have := hset t
    cases timer <;> cases t <;> exact this
  | false =>
    right
    have hl' : ∀ u : RtimerState R, u.coarseCount = s.coarseCount →
        tooLate u (hwTarget s c f).1 (hwTarget s c f).2 (s.hw 1) = false := by
      intro u hu; rw [← hl, tooLate, tooLate, hu]
    rw [hl' _ (by cases timer <;> rfl)]
    refine ⟨rfl, rfl, ?_⟩
    cases timer <;> rfl

omit [SoftDouble R] in
/-- The target in ticks: the shifted distance ahead of the hardware time, unless it overflows. -/
theorem hwTarget_toNat (hpos : 0 < (s.hw 0).toNat) (hfn : (s.hw 0).toNat ≤ 67108863)
    (hmax : 2 * s.fineOffset.toNat ≤ 3 * 67108863) (hf : f.toNat ≤ 67108863) :
    ((hwTarget s c f).1.toNat : Int) =
      (s.coarseCount.toNat + ((s.hw 0).toNat + shiftedGap (lgNow s) (c, f) - 1) / 67108863) % 4294967296 ∧
    ((hwTarget s c f).2.toNat : Int) = ((s.hw 0).toNat + shiftedGap (lgNow s) (c, f) - 1) % 67108863 + 1 := by
  have hi := lgInterval_toNat c f (lgNow s).1 (lgNow s).2 hf (lgNow_fine_le s hfn hmax)
  obtain ⟨h1, h2⟩ := addInterval_toNat (lgInterval c f (lgNow s).1 (lgNow s).2) s.coarseCount (s.hw 0) hpos hfn
  rw [hwTarget, ← hi, h1, h2]
  omega

omit [SoftDouble R] in
theorem tooLate_iff (s : RtimerState R) (c f q : UInt32) : tooLate s c f q = true ↔ c.toNat < s.coarseCount.toNat ∨
    (c.toNat = s.coarseCount.toNat ∧ f.toNat < (q + scheduleSafetyMargin).toNat) := by
  simp [tooLate, UInt32.lt_iff_toNat_lt, ← UInt32.toNat_inj]

theorem gap_ticks (now d : UInt32 × UInt32) : ticks d - ticks now = coarseGap now d * 67108863 + fineGap now d := by
  unfold ticks coarseGap fineGap
  split_ifs <;> omega

theorem fineGap_bounds (now d : UInt32 × UInt32) (hn : now.2.toNat ≤ 67108863)
    (hd : d.2.toNat ≤ 67108863) : 0 ≤ fineGap now d ∧ fineGap now d ≤ 67108863 := by
  unfold fineGap
  split_ifs with h <;> rw [UInt32.lt_iff_toNat_lt] at h <;> omega

omit [SoftDouble R] in
theorem target_late_iff (hpos : 0 < (s.hw 0).toNat) (hfn : (s.hw 0).toNat ≤ 67108863)
    (hmax : 2 * s.fineOffset.toNat ≤ 3 * 67108863) (hf : f.toNat ≤ 67108863) :
    tooLate s (hwTarget s c f).1 (hwTarget s c f).2 (s.hw 1) = true ↔
      4294967296 ≤ (s.coarseCount.toNat : Int) + ((s.hw 0).toNat + shiftedGap (lgNow s) (c, f) - 1) / 67108863 ∨
      ((s.hw 0).toNat + shiftedGap (lgNow s) (c, f) ≤ 67108863 ∧
       (s.hw 0).toNat + shiftedGap (lgNow s) (c, f) < (s.hw 1 + scheduleSafetyMargin).toNat) := by
  obtain ⟨h1, h2⟩ := hwTarget_toNat (c := c) hpos hfn hmax hf
  obtain ⟨h3, h4⟩ := fineGap_bounds (lgNow s) (c, f) (lgNow_fine_le s hfn hmax) hf
  have hspan : shiftedGap (lgNow s) (c, f) =
    coarseGap (lgNow s) (c, f) % 64 * 67108864 + fineGap (lgNow s) (c, f) := rfl
  rw [tooLate_iff]
  omega

/-- SCHEDULING AT A DATE: with a zero rate, for every timer that is not in single pass, every hardware
    time and every normalised offset, `rtimer_schedule` does its job exactly on the dates in the
    coarse unit that starts now and on those it refuses. -/
theorem schedule_date_iff (hx : ExactUnit R) (s : RtimerState R) (timer : RtimerId) (c f : UInt32) (func : Callback)
    (hrate : s.avgRate = SoftDouble.ofNat 0) (hsp : (s.rt timer).state ≠ .singlepass) (hne : ¬(c = 0 ∧ f = 0))
    (hpos : 0 < (s.hw 0).toNat) (hfn : (s.hw 0).toNat ≤ 67108863) (_hmin : 67108863 ≤ 2 * s.fineOffset.toNat)
    (hmax : 2 * s.fineOffset.toNat ≤ 3 * 67108863) (hf : f.toNat ≤ 67108863) :
    DateSpec s timer c f func ↔ DateOk s c f := by
  have hlate := target_late_iff (c := c) hpos hfn hmax hf
  unfold DateSpec DateOk
  rcases schedule_date_cases hx timer func hrate hsp hne with ⟨hl, hr, ha⟩ | ⟨hl, hr, ht⟩
  · -- refused: the call meets its purpose, and the condition holds through its last two cases
    refine ⟨fun _ => .inr (hlate.mp hl), fun _ => ⟨fun _ => ⟨hr, ha⟩, fun h => ?_⟩⟩
    rw [hr] at h; cases h
  · -- accepted: the armed distance is the shifted gap, and it must be the real one
    have hnl : ¬ tooLate s (hwTarget s c f).1 (hwTarget s c f).2 (s.hw 1) = true := by simp [hl]
    rw [hlate] at hnl
    obtain ⟨h1, h2⟩ := hwTarget_toNat (c := c) hpos hfn hmax hf
    obtain ⟨h3, h4⟩ := fineGap_bounds (lgNow s) (c, f) (lgNow_fine_le s hfn hmax) hf
    have hd := gap_ticks (lgNow s) (c, f)
    have hspan : shiftedGap (lgNow s) (c, f) =
      coarseGap (lgNow s) (c, f) % 64 * 67108864 + fineGap (lgNow s) (c, f) := rfl
    have harm : ticks (hwTarget s c f) - ticks (hwNow s) = shiftedGap (lgNow s) (c, f) := by
      rw [ticks, ticks, hwNow]
      dsimp only; omega
    simp only [hr, ht, harm, hd]
    constructor
    · rintro ⟨hpast, harmed⟩
      have hgt : ¬ ticks (c, f) ≤ ticks (lgNow s) := fun h => absurd (hpast h).1 (by decide)
      have hadv := harmed trivial
      exact .inl (by omega)
    · rintro (⟨hg, hr0⟩ | h)
      · refine ⟨fun h => ?_, fun _ => by rw [hspan, hg]; omega⟩
        rw [hg] at hd; omega
      · exact absurd h hnl

theorem exactUnit_rat : ExactUnit Rat where
  mul_zero x := by
    change UInt32.ofNat ((x.toNat : Rat) * ((0 : Nat) : Rat)).floor.toNat = 0
    rw [show ((0 : Nat) : Rat) = 0 from rfl, Rat.mul_zero]; rfl
  mul_one x := by
    change UInt32.ofNat ((x.toNat : Rat) * (((1 : Nat) : Rat) + ((0 : Nat) : Rat))).floor.toNat = x
    rw [show ((1 : Nat) : Rat) + ((0 : Nat) : Rat) = 1 by decide +kernel, Rat.mul_one,
      show (x.toNat : Rat) = ((x.toNat : Int) : Rat) from rfl, Rat.floor_intCast,
      Int.toNat_natCast, UInt32.ofNat_toNat]

/-- A clock that reads `(10, 1000)` in hardware time and `(11, 1000)` in logical time. -/
def clockAt1000 : RtimerState Rat :=
  { rtimerInit with coarseCount := 10, hw := fun _ => 1000 }

/-- A date 4000 ticks ahead is armed 4000 ticks ahead. -/
theorem schedule_next_ticks : DateOk clockAt1000 11 5000 ∧ DateSpec clockAt1000 .rtimer0 11 5000 .enterIdle := by
  have h : DateOk clockAt1000 11 5000 := .inl (by decide)
  exact ⟨h, (schedule_date_iff exactUnit_rat clockAt1000 .rtimer0 11 5000 .enterIdle rfl
    (by decide) (by decide) (by decide) (by decide) (by decide) (by decide) (by decide)).mpr h⟩

/-- SCHEME FAILS: a date 500 ticks in the past is accepted and armed 64 coarse units ahead. -/
theorem schedule_past_date_accepted : ticks (11, 500) ≤ ticks (lgNow clockAt1000) ∧ ¬ DateSpec clockAt1000 .rtimer0 11
    500 .enterIdle := by
  have hpast : ticks (11, 500) ≤ ticks (lgNow clockAt1000) := by decide
  refine ⟨hpast, ?_⟩
  rintro ⟨h, -⟩
  exact absurd (h hpast).1 (by decide +kernel)

end CSync
