import CSync.Rtimer.Offset

/-! Pending timers: what a refused call of `rtimer_schedule` leaves of them, and which one `rtimer_lf_update` arms.

    `rtimer_schedule` stores the callback before it looks at the date, and the conversion of a logical date takes the
    hardware time for the reference of later intervals, so a call that returns 0 is not without effect.
    `rtimer_lf_update` scans the records for the earliest date, and keeps one minimum for the coarse parts and one for
    the fine parts. -/

namespace CSync

variable {R : Type} [SoftDouble R]

/-! ### What a call asks for -/

/-- An interval in ticks of the hardware clock, at the average rate. -/
def stretched (s : RtimerState R) (interval : UInt32) : UInt32 :=
  SoftDouble.toU32 (SoftDouble.mul (SoftDouble.ofNat interval.toNat) (SoftDouble.add (SoftDouble.ofNat 1) s.avgRate))

/-- The hardware date that a call asks for. -/
def askedDate (s : RtimerState R) (c f : UInt32) : ScheduleType → UInt32 × UInt32
  | .date => addInterval (stretched s (lgInterval c f (ownDate s).1 (ownDate s).2)) s.coarseCount (s.hw 0)
  | .intervalNow => addInterval (stretched s f) s.coarseCount (s.hw 0)
  | .intervalRef => addInterval (stretched s f) s.coarseScheduleRef s.fineScheduleRef

/-- The clock reading that the date is checked against. -/
def askedAt (s : RtimerState R) : ScheduleType → UInt32
  | .date => s.hw 1
  | .intervalNow => s.hw 0
  | .intervalRef => s.hw 0

/-- The date that a call asks for has passed, or is too near. -/
def Passed (s : RtimerState R) (interval : ScheduleType) (c f : UInt32) : Prop :=
  tooLate s (askedDate s c f interval).1 (askedDate s c f interval).2 (askedAt s interval) = true

/-- The reference of `RTIMER_INTERVAL_REF`. -/
def scheduleRef (s : RtimerState R) : UInt32 × UInt32 := (s.coarseScheduleRef, s.fineScheduleRef)

/-! ### Refused calls -/

/-- A date is converted by way of an interval from now, and now becomes the reference. -/
theorem rtimerLgdateToHwdate_eq (s : RtimerState R) (timer : RtimerId) (r : Rtimer) (c f : UInt32) :
    ∃ t,
      rtimerLgdateToHwdate (s.setRt timer r) c f =
        ((askedDate s c f .date).1, (askedDate s c f .date).2, askedAt s .date, t) ∧
      t.coarseCount = s.coarseCount ∧
      t.rt timer = r ∧
      scheduleRef t = hwNow s := by
  cases timer <;> exact ⟨_, rfl, rfl, rfl, rfl⟩

/-- An interval is converted without an effect but on the clock. -/
theorem rtimerLgintervalToHwdate_eq (s : RtimerState R) (timer : RtimerId) (r : Rtimer) (c f : UInt32)
    {interval : ScheduleType} (h : interval ≠ .date) :
    ∃ t,
      rtimerLgintervalToHwdate (s.setRt timer r) f interval =
        ((askedDate s c f interval).1, (askedDate s c f interval).2, askedAt s interval, t) ∧
      t.coarseCount = s.coarseCount ∧
      t.rt timer = r ∧
      scheduleRef t = scheduleRef s := by
  cases interval with
  | date => exact absurd rfl h
  | intervalNow => cases timer <;> exact ⟨_, rfl, rfl, rfl, rfl⟩
  | intervalRef => cases timer <;> exact ⟨_, rfl, rfl, rfl, rfl⟩

/-- REFUSED CALLS: a date that has passed is refused, the new callback stays in the record, and a call for a logical
    date moves the reference. Any other date is accepted. -/
theorem rtimerSchedule_refused (s : RtimerState R) (timer : RtimerId) (interval : ScheduleType) (c f : UInt32)
    (func : Callback) (hdate : ¬ (c = 0 ∧ f = 0)) (hpass : (s.rt timer).state ≠ .singlepass) :
    (¬ Passed s interval c f → (rtimerSchedule s timer interval c f func).1 = true) ∧
    (Passed s interval c f →
       (rtimerSchedule s timer interval c f func).1 = false ∧
       (rtimerSchedule s timer interval c f func).2.rt timer = { s.rt timer with func := some func } ∧
       scheduleRef (rtimerSchedule s timer interval c f func).2 =
         if interval = .date then hwNow s else scheduleRef s) := by
  have hlate : ∀ t : RtimerState R, t.coarseCount = s.coarseCount →
      (tooLate t (askedDate s c f interval).1 (askedDate s c f interval).2 (askedAt s interval) = true ↔
        Passed s interval c f) := by
    intro t ht
    rw [Passed, tooLate, tooLate, ht]
  rw [rtimerSchedule, if_neg hdate, if_neg hpass]
  dsimp only
  by_cases h : interval = .date
  · subst h
    obtain ⟨t, hconv, hcount, hrt, href⟩ := rtimerLgdateToHwdate_eq s timer { s.rt timer with func := some func } c f
    rw [if_pos rfl, if_pos rfl, hconv]
    constructor
    · intro hin
      rw [if_neg ((hlate t hcount).not.mpr hin)]
    · intro hpassed
      rw [if_pos ((hlate t hcount).mpr hpassed)]
      exact ⟨rfl, hrt, href⟩
  · obtain ⟨t, hconv, hcount, hrt, href⟩ :=
      rtimerLgintervalToHwdate_eq s timer { s.rt timer with func := some func } c f h
    rw [if_neg h, if_neg h, hconv]
    constructor
    · intro hin
      rw [if_neg ((hlate t hcount).not.mpr hin)]
    · intro hpassed
      rw [if_pos ((hlate t hcount).mpr hpassed)]
      exact ⟨rfl, hrt, href⟩

/-- A call that returns 0 leaves the record of its timer and the reference as they were. -/
def RefusedWithoutEffect (s : RtimerState R) (timer : RtimerId) (interval : ScheduleType) (c f : UInt32)
    (func : Callback) : Prop :=
  (rtimerSchedule s timer interval c f func).1 = false →
    (rtimerSchedule s timer interval c f func).2.rt timer = s.rt timer ∧
    scheduleRef (rtimerSchedule s timer interval c f func).2 = scheduleRef s

/-- A refused call is without effect only if it is refused for the date `(0, 0)`, or brings the callback that
    is stored already and, for a logical date, comes at the very time of the reference. -/
theorem schedule_refused_iff (s : RtimerState R) (timer : RtimerId) (interval : ScheduleType) (c f : UInt32)
    (func : Callback) :
    RefusedWithoutEffect s timer interval c f func ↔
      (c = 0 ∧ f = 0) ∨
      (s.rt timer).state = .singlepass ∨
      ¬ Passed s interval c f ∨
      ((s.rt timer).func = some func ∧ (interval = .date → hwNow s = scheduleRef s)) := by
  rw [RefusedWithoutEffect]
  by_cases hdate : c = 0 ∧ f = 0
  · rw [rtimerSchedule, if_pos hdate]
    exact ⟨fun _ => .inl hdate, fun _ _ => ⟨rfl, rfl⟩⟩
  by_cases hpass : (s.rt timer).state = .singlepass
  · rw [rtimerSchedule, if_neg hdate, if_pos hpass]
    exact ⟨fun _ => .inr (.inl hpass), by rintro _ ⟨⟩⟩
  obtain ⟨haccept, hrefuse⟩ := rtimerSchedule_refused s timer interval c f func hdate hpass
  by_cases hin : Passed s interval c f
  · obtain ⟨hflag, hrt, href⟩ := hrefuse hin
    have hfunc : { s.rt timer with func := some func } = s.rt timer ↔ (s.rt timer).func = some func := by
      constructor
      · intro h
        rw [← h]
      · intro h
        rw [← h]
    have hmoved : (if interval = .date then hwNow s else scheduleRef s) = scheduleRef s ↔
        (interval = .date → hwNow s = scheduleRef s) := by
      split
      next h => exact ⟨fun heq _ => heq, fun heq => heq h⟩
      next h => exact ⟨fun _ hd => absurd hd h, fun _ => rfl⟩
    rw [hflag, hrt, href, hfunc, hmoved]
    constructor
    · intro h
      exact .inr (.inr (.inr (h rfl)))
    · rintro (h | h | h | h) _
      · exact absurd h hdate
      · exact absurd h hpass
      · exact absurd hin h
      · exact h
  · rw [haccept hin]
    exact ⟨fun _ => .inr (.inr (.inl hin)), by rintro _ ⟨⟩⟩

/-- A timer is pending for an idle phase. -/
def pendingIdle : RtimerState Rat :=
  { clockAt1000 with
    rt0 := { Rtimer.zero with timeCoarseLg := 12, timeCoarseHw := 11, func := some .enterIdle, state := .scheduled } }

/-- A call for a date 500 ticks ahead is refused: the timer will fire with the callback of the refused call, and later
    intervals count from its time. -/
theorem refused_date_replaces_callback :
    (rtimerSchedule pendingIdle .rtimer0 .date 11 1500 .enterDiscovery).1 = false ∧
    ((rtimerSchedule pendingIdle .rtimer0 .date 11 1500 .enterDiscovery).2.rt .rtimer0).func = some .enterDiscovery ∧
    ((rtimerSchedule pendingIdle .rtimer0 .date 11 1500 .enterDiscovery).2.rt .rtimer0).state = .scheduled ∧
    scheduleRef (rtimerSchedule pendingIdle .rtimer0 .date 11 1500 .enterDiscovery).2 = (10, 1000) ∧
    ¬ RefusedWithoutEffect pendingIdle .rtimer0 .date 11 1500 .enterDiscovery := by
  have hflag : (rtimerSchedule pendingIdle .rtimer0 .date 11 1500 .enterDiscovery).1 = false := by decide +kernel
  have hfunc : ((rtimerSchedule pendingIdle .rtimer0 .date 11 1500 .enterDiscovery).2.rt .rtimer0).func =
      some .enterDiscovery := by decide +kernel
  refine ⟨hflag, hfunc, by decide +kernel, by decide +kernel, fun h => ?_⟩
  have hkept := congrArg Rtimer.func (h hflag).1
  rw [hfunc] at hkept
  cases hkept

/-! ### The earliest timer -/

omit [SoftDouble R] in
/-- Which timer is armed: `RTIMER_1` has to be first in both parts of the date, or alone. -/
theorem rtimerLfUpdate_lf (s : RtimerState R) :
    (rtimerLfUpdate s).lf =
      if s.rt1.state = .scheduled ∧ (s.rt0.state = .scheduled → s.rt1.timeCoarseHw ≤ s.rt0.timeCoarseHw ∧
        s.rt1.timeFineHw ≤ s.rt0.timeFineHw) then some .rtimer1 else if s.rt0.state = .scheduled then some .rtimer0
          else none := by
  have hall : ∀ x : UInt32, x ≤ 0xFFFFFFFF := fun x => UInt32.le_iff_toNat_le.mpr (Nat.le_of_lt_succ x.toNat_lt)
  rw [rtimerLfUpdate]
  dsimp only [lfScan]
  by_cases h0 : s.rt0.state = .scheduled <;> by_cases h1 : s.rt1.state = .scheduled
  · simp only [h0, h1, hall, if_true, true_and, true_implies]
    by_cases hc : s.rt1.timeCoarseHw ≤ s.rt0.timeCoarseHw <;> by_cases hf : s.rt1.timeFineHw ≤ s.rt0.timeFineHw <;>
      simp only [hc, hf, if_true, if_false, and_self, and_false, false_and]
  · simp only [h0, h1, hall, if_true, if_false, false_and]
  · simp only [h0, h1, hall, if_true, if_false, true_and, false_implies]
  · simp only [h0, h1, if_false, false_and]

/-- The date of `r` is not after the one of `q`. -/
def NoLater (r q : Rtimer) : Prop :=
  r.timeCoarseHw < q.timeCoarseHw ∨ (r.timeCoarseHw = q.timeCoarseHw ∧ r.timeFineHw ≤ q.timeFineHw)

instance (r q : Rtimer) : Decidable (NoLater r q) := inferInstanceAs (Decidable (_ ∨ _))

section

omit [SoftDouble R]

/-- A scheduled timer that no other one precedes. -/
def Earliest (s : RtimerState R) (timer : RtimerId) : Prop :=
  (s.rt timer).state = .scheduled ∧ ∀ other, (s.rt other).state = .scheduled → NoLater (s.rt timer) (s.rt other)

theorem earliest_rtimer0_iff (s : RtimerState R) : Earliest s .rtimer0 ↔ s.rt0.state = .scheduled ∧
    (s.rt1.state = .scheduled → NoLater s.rt0 s.rt1) := by
  refine ⟨fun h => ⟨h.1, h.2 .rtimer1⟩, fun h => ⟨h.1, fun other ho => ?_⟩⟩
  cases other with
  | rtimer0 => exact .inr ⟨rfl, UInt32.le_refl _⟩
  | rtimer1 => exact h.2 ho

theorem earliest_rtimer1_iff (s : RtimerState R) : Earliest s .rtimer1 ↔ s.rt1.state = .scheduled ∧
    (s.rt0.state = .scheduled → NoLater s.rt1 s.rt0) := by
  refine ⟨fun h => ⟨h.1, h.2 .rtimer0⟩, fun h => ⟨h.1, fun other ho => ?_⟩⟩
  cases other with
  | rtimer0 => exact h.2 ho
  | rtimer1 => exact .inr ⟨rfl, UInt32.le_refl _⟩

/-- With a timer scheduled, `rtimer_lf_update` arms an earliest one, unless `RTIMER_1` is earlier by its
    coarse part and has the larger fine part: the minimum of the fine parts is not taken anew. -/
theorem lf_update_earliest_iff (s : RtimerState R) (h : ∃ timer, (s.rt timer).state = .scheduled) : (∃ timer,
    (rtimerLfUpdate s).lf = some timer ∧ Earliest s timer) ↔ ¬ (s.rt0.state = .scheduled ∧ s.rt1.state = .scheduled ∧
    s.rt1.timeCoarseHw < s.rt0.timeCoarseHw ∧ s.rt0.timeFineHw < s.rt1.timeFineHw) := by
  have hsome : s.rt0.state = .scheduled ∨ s.rt1.state = .scheduled := by
    obtain ⟨timer, htimer⟩ := h
    cases timer with
    | rtimer0 => exact .inl htimer
    | rtimer1 => exact .inr htimer
  have hone : ∀ t : RtimerId, (∃ timer, some t = some timer ∧ Earliest s timer) ↔ Earliest s t := fun t =>
    ⟨fun ⟨_, heq, he⟩ => Option.some.inj heq ▸ he, fun he => ⟨t, rfl, he⟩⟩
  rw [rtimerLfUpdate_lf]
  split
  next hlast =>
    rw [hone, earliest_rtimer1_iff, NoLater]
    simp only [UInt32.lt_iff_toNat_lt, UInt32.le_iff_toNat_le, ← UInt32.toNat_inj] at hlast ⊢
    refine ⟨fun _ hbad => ?_, fun _ => ⟨hlast.1, fun h0 => ?_⟩⟩
    · have hboth := hlast.2 hbad.1
      omega
    · have hboth := hlast.2 h0
      omega
  next hlast =>
    have h0 : s.rt0.state = .scheduled := by
      rcases hsome with h0 | h1
      · exact h0
      · by_contra h0
        exact hlast ⟨h1, fun h => absurd h h0⟩
    rw [if_pos h0, hone, earliest_rtimer0_iff, NoLater]
    simp only [h0, true_and, true_implies, UInt32.lt_iff_toNat_lt, UInt32.le_iff_toNat_le, ← UInt32.toNat_inj]
      at hlast ⊢
    constructor
    · rintro hno ⟨h1, hc, hf⟩
      have hlater := hno h1
      omega
    · intro hgood h1
      by_contra hlater
      by_cases hc : s.rt1.timeCoarseHw.toNat < s.rt0.timeCoarseHw.toNat
      · exact hgood ⟨h1, hc, by_contra fun hf => hlast ⟨h1, by omega⟩⟩
      · exact hlast ⟨h1, by omega⟩

end

/-- Two scheduled timers, the date of the second being `(c, f)` and that of the first `(11, 1000)`. -/
def twoTimers (c f : UInt32) : RtimerState Rat :=
  { clockAt1000 with
    rt0 := { Rtimer.zero with timeCoarseHw := 11, timeFineHw := 1000, state := .scheduled }
    rt1 := { Rtimer.zero with timeCoarseHw := c, timeFineHw := f, state := .scheduled } }

/-- The second timer is earlier in both parts and is armed. -/
theorem lf_update_both_parts : ∃ timer, (rtimerLfUpdate (twoTimers 10 900)).lf = some timer ∧
    Earliest (twoTimers 10 900) timer :=
  (lf_update_earliest_iff (twoTimers 10 900) ⟨.rtimer0, rfl⟩).mpr (by decide)

/-- The second timer is a coarse unit earlier, and the first one is armed. -/
theorem lf_update_later_timer : (∃ timer, ((twoTimers 10 2000).rt timer).state = .scheduled) ∧
    ¬ ∃ timer, (rtimerLfUpdate (twoTimers 10 2000)).lf = some timer ∧ Earliest (twoTimers 10 2000) timer := by
  refine ⟨⟨.rtimer0, rfl⟩, ?_⟩
  rintro ⟨timer, hlf, -, hfirst⟩
  cases hlf
  exact absurd (hfirst .rtimer1 rfl) (by decide)

end CSync
