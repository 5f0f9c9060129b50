import CSync.Rtimer.Model

/-! What the timer functions do to the record of `RTIMER_0`.

    Between two calls of `rtimer_schedule` by the protocol the clock is stepped many times, and each
    step may arm the timer anew at its own logical date. None of that changes what the record says in
    logical terms: its callback, its state and its logical date. -/

namespace CSync

variable {R : Type}

/-- Two states of the timers in which `RTIMER_0` is armed for the same call at the same logical date. -/
structure SameArming (s s' : RtimerState R) : Prop where
  func_eq : s'.rt0.func = s.rt0.func
  state_eq : s'.rt0.state = s.rt0.state
  coarse_eq : s'.rt0.timeCoarseLg = s.rt0.timeCoarseLg
  fine_eq : s'.rt0.timeFineLg = s.rt0.timeFineLg

theorem SameArming.refl (s : RtimerState R) : SameArming s s := ⟨rfl, rfl, rfl, rfl⟩

theorem SameArming.of_rt0 {s s' : RtimerState R} (h : s'.rt0 = s.rt0) : SameArming s s' := by
  constructor <;> rw [h]

theorem SameArming.trans {s₁ s₂ s₃ : RtimerState R} (h₁ : SameArming s₁ s₂)
    (h₂ : SameArming s₂ s₃) : SameArming s₁ s₃ :=
  ⟨h₂.func_eq.trans h₁.func_eq, h₂.state_eq.trans h₁.state_eq, h₂.coarse_eq.trans h₁.coarse_eq,
    h₂.fine_eq.trans h₁.fine_eq⟩

variable [SoftDouble R]

theorem rtimerLgintervalToHwdate_rt0 (s : RtimerState R) (f : UInt32) (i : ScheduleType) :
    (rtimerLgintervalToHwdate s f i).2.2.2.rt0 = s.rt0 := by
  rw [rtimerLgintervalToHwdate]
  split <;> rfl

theorem rtimerLgdateToHwdate_rt0 (s : RtimerState R) (c f : UInt32) :
    (rtimerLgdateToHwdate s c f).2.2.2.rt0 = s.rt0 :=
  rtimerLgintervalToHwdate_rt0 _ _ _

theorem rtimerSchedule_other (s : RtimerState R) (type : ScheduleType) (c f : UInt32)
    (func : Callback) : (rtimerSchedule s .rtimer1 type c f func).2.rt0 = s.rt0 := by
  rw [rtimerSchedule]
  split
  · rfl
  · split
    · rfl
    · dsimp only
      split
      · have h := rtimerLgdateToHwdate_rt0 (s.setRt .rtimer1 { s.rt .rtimer1 with func := some func }) c f
        split <;> exact h
      · have h := rtimerLgintervalToHwdate_rt0 (s.setRt .rtimer1 { s.rt .rtimer1 with func := some func }) f type
        split <;> exact h

/-- How `rtimer_schedule` of `RTIMER_0` can end. Accepted: a timer in single pass is scheduled as it
    is, any other is armed with the new callback, for a date at that date. Refused: nothing happens
    for the date `(0, 0)`, and for any other the new callback is left in the record. -/
inductive ScheduleEnd (s : RtimerState R) (type : ScheduleType) (c f : UInt32) (func : Callback) :
    Bool × RtimerState R → Prop
  | singlepass {s'} : s.rt0.state = .singlepass → s'.rt0 = { s.rt0 with state := .scheduled } →
      ScheduleEnd s type c f func (true, s')
  | armed {s'} : s.rt0.state ≠ .singlepass → s'.rt0.func = some func →
      s'.rt0.state = .scheduled →
      (type = .date → s'.rt0.timeCoarseLg = c ∧ s'.rt0.timeFineLg = f) →
      ScheduleEnd s type c f func (true, s')
  | nodate : c = 0 → f = 0 → ScheduleEnd s type c f func (false, s)
  | refused {s'} : s.rt0.state ≠ .singlepass → s'.rt0 = { s.rt0 with func := some func } →
      ScheduleEnd s type c f func (false, s')

theorem rtimerSchedule_end (s : RtimerState R) (type : ScheduleType) (c f : UInt32) (func : Callback) : ScheduleEnd s
    type c f func (rtimerSchedule s .rtimer0 type c f func) := by
  rw [rtimerSchedule]
  split
  next h0 => exact .nodate h0.1 h0.2
  · split
    next hsp => exact .singlepass hsp rfl
    next hsp =>
      dsimp only
      split
      · have h := rtimerLgdateToHwdate_rt0 (s.setRt .rtimer0 { s.rt .rtimer0 with func := some func }) c f
        split
        · exact .refused hsp h
        · exact .armed hsp (congrArg Rtimer.func h) rfl fun _ => ⟨rfl, rfl⟩
      next htype =>
        have h := rtimerLgintervalToHwdate_rt0 (s.setRt .rtimer0 { s.rt .rtimer0 with func := some func }) f type
        split
        · exact .refused hsp h
        · exact .armed hsp (congrArg Rtimer.func h) rfl fun hd => absurd hd htype

/-- Arming a timer anew at its own date leaves the record of `RTIMER_0` logically as it is. -/
theorem sameArming_rescheduleSame (s : RtimerState R) (timer : RtimerId) : SameArming s (rescheduleSame s timer) := by
  rw [rescheduleSame]
  split
  next func hstate hfunc =>
    cases timer with
    | rtimer1 => exact .of_rt0 (rtimerSchedule_other _ _ _ _ _)
    | rtimer0 =>
      have hst : s.rt0.state = .scheduled := hstate
      have hfn : s.rt0.func = some func := hfunc
      have hend := rtimerSchedule_end s .date s.rt0.timeCoarseLg s.rt0.timeFineLg func
      change SameArming s (rtimerSchedule s .rtimer0 .date s.rt0.timeCoarseLg s.rt0.timeFineLg func).2
      generalize rtimerSchedule s .rtimer0 .date s.rt0.timeCoarseLg s.rt0.timeFineLg func = r at hend
      cases hend with
      | singlepass hsp => rw [hst] at hsp; cases hsp
      | armed _ hf hs hd =>
        exact ⟨hf.trans hfn.symm, hs.trans hst.symm, (hd rfl).1, (hd rfl).2⟩
      | nodate => exact .refl s
      | refused _ h =>
        refine ⟨?_, ?_, ?_, ?_⟩ <;> rw [h]
        exact hfn.symm
  · exact .refl s

theorem sameArming_rtimerAdjustFineOffset (s : RtimerState R) (diff : Int32) :
    SameArming s (rtimerAdjustFineOffset s diff) := by
  have hbound : ∀ u : RtimerState R, u.rt0 = s.rt0 → ∀ (p : Prop) [Decidable p] (x : UInt32),
      SameArming s { (if p then rescheduleSame (rescheduleSame u .rtimer0) .rtimer1 else u) with
        schedulerFineOffsetRef := x } := by
    intro u hu p _ x
    have hu' := SameArming.of_rt0 hu
    have harm : SameArming s (if p then rescheduleSame (rescheduleSame u .rtimer0) .rtimer1 else u) := by
      split
      · exact hu'.trans ((sameArming_rescheduleSame u .rtimer0).trans (sameArming_rescheduleSame _ .rtimer1))
      · exact hu'
    exact harm.trans (.of_rt0 rfl)
  apply hbound
  split
  · rfl
  · split <;> rfl

end CSync
