import CSync.Lib.Run
import CSync.Lib.Signed
import CSync.Rtimer.Schedule

/-! The correction of the fine offset (`rtimer_adjust_fine_offset`).

    The logical clock is the hardware clock plus the fine offset. A correction is taken off the offset, which then
    carries into the coarse count or borrows from it to stay between a half and one and a half coarse units. The offset
    is unsigned: a correction larger than it wraps, is taken for a large offset, and carries where it had to borrow. -/

namespace CSync

open Lib

variable {R : Type} [SoftDouble R]

/-- A date on one scale. -/
def scaled (coarse fine : UInt32) : Int := coarse.toNat * fineMax.toNat + fine.toNat

/-- The own logical date, once the offset is brought up to date. -/
def ownDate (tm : RtimerState R) : UInt32 × UInt32 :=
  rtimerHwdateToLgdate tm.coarseCount (tm.hw 0) (rtimerUpdateOffset tm tm.coarseCount (tm.hw 0)).fineOffset

/-! ### One step -/

/-- The step of `rtimer_adjust_fine_offset`, before the timers are armed anew. -/
def stepOffset (s : RtimerState R) (diff : Int32) : RtimerState R :=
  let s := { s with fineOffset := s.fineOffset - diff.toUInt32 }
  if 2 * s.fineOffset.toNat < fineMax.toNat then
    { s with coarseCount := s.coarseCount - 1, fineOffset := s.fineOffset + fineMax }
  else if 3 * fineMax.toNat < 2 * s.fineOffset.toNat then
    { s with coarseCount := s.coarseCount + 1, fineOffset := s.fineOffset - fineMax }
  else s

/-- The timers are armed anew when the offset is far from what they were armed for. -/
def armAnew (s : RtimerState R) : RtimerState R :=
  let diff := s.schedulerFineOffsetRef.toInt32 - s.fineOffset.toInt32
  if diff < -200 ∨ 200 < diff then rescheduleSame (rescheduleSame s .rtimer0) .rtimer1 else s

theorem rtimerAdjustFineOffset_eq (s : RtimerState R) (diff : Int32) : rtimerAdjustFineOffset s diff =
    { armAnew (stepOffset s diff) with schedulerFineOffsetRef := (armAnew (stepOffset s diff)).fineOffset } := rfl

theorem toNat_carryUp (offset : UInt32) (h : offset.toNat < 67108863) :
    (offset + fineMax).toNat = offset.toNat + 67108863 := by
  have hmax : fineMax.toNat = 67108863 := rfl
  rw [UInt32.toNat_add, hmax, Nat.mod_eq_of_lt (by omega)]

theorem toNat_carryDown (offset : UInt32) (h : 67108863 ≤ offset.toNat) :
    (offset - fineMax).toNat = offset.toNat - 67108863 := by
  have hmax : fineMax.toNat = 67108863 := rfl
  exact UInt32.toNat_sub_of_le _ _ (UInt32.le_iff_toNat_le.mpr (hmax.symm ▸ h))

/-- The step does not take the offset below 0, nor the coarse count out of its 32 bits. -/
structure StepFits (s : RtimerState R) (diff : Int32) : Prop where
  offset : diff.toInt ≤ s.fineOffset.toNat
  borrow : 2 * (s.fineOffset.toNat - diff.toInt) < fineMax.toNat → s.coarseCount ≠ 0
  carry : 3 * fineMax.toNat < 2 * (s.fineOffset.toNat - diff.toInt) → s.coarseCount ≠ 0xFFFFFFFF

variable {s : RtimerState R} {diff : Int32}

omit [SoftDouble R] in
/-- STEP: one that fits is taken off exactly, and after any other no offset is right. -/
theorem stepOffset_spec (hlo : fineMax.toNat ≤ 2 * s.fineOffset.toNat)
    (hhi : 2 * s.fineOffset.toNat ≤ 3 * fineMax.toNat) (hdiff : diff.toInt.natAbs ≤ fineMax.toNat) :
    (StepFits s diff →
       scaled (stepOffset s diff).coarseCount (stepOffset s diff).fineOffset =
         scaled s.coarseCount s.fineOffset - diff.toInt) ∧
    (¬ StepFits s diff →
       ∀ f, scaled (stepOffset s diff).coarseCount f ≠ scaled s.coarseCount s.fineOffset - diff.toInt) := by
  have hmax : fineMax.toNat = 67108863 := rfl
  have hzero : s.coarseCount = 0 ↔ s.coarseCount.toNat = 0 := UInt32.toNat_inj.symm
  have hfull : s.coarseCount = 0xFFFFFFFF ↔ s.coarseCount.toNat = 4294967295 := UInt32.toNat_inj.symm
  have hcount : s.coarseCount.toNat < 2 ^ 32 := s.coarseCount.toNat_lt
  have hsub := toNat_sub_toUInt32 (a := s.fineOffset) (d := diff) (by omega)
  have hfits : StepFits s diff ↔ diff.toInt ≤ s.fineOffset.toNat ∧
      (2 * (s.fineOffset.toNat - diff.toInt) < fineMax.toNat → s.coarseCount ≠ 0) ∧
      (3 * fineMax.toNat < 2 * (s.fineOffset.toNat - diff.toInt) → s.coarseCount ≠ 0xFFFFFFFF) :=
    ⟨fun h => ⟨h.1, h.2, h.3⟩, fun h => ⟨h.1, h.2.1, h.2.2⟩⟩
  have hlow : (s.coarseCount - 1).toNat = if s.coarseCount.toNat = 0 then 4294967295 else s.coarseCount.toNat - 1 := by
    rw [UInt32.toNat_sub, UInt32.toNat_one]
    split <;> omega
  have hhigh : (s.coarseCount + 1).toNat = if s.coarseCount.toNat = 4294967295 then 0 else s.coarseCount.toNat + 1 := by
    rw [UInt32.toNat_add, UInt32.toNat_one]
    split <;> omega
  have hword : ∀ f : UInt32, f.toNat < 2 ^ 32 := UInt32.toNat_lt
  rw [hfits, Ne, Ne, hzero, hfull, stepOffset]
  simp only [scaled, hmax] at hlo hhi hdiff ⊢
  generalize s.fineOffset - diff.toUInt32 = offset at hsub ⊢
  split at hsub
  next hle =>
    split
    next hsmall =>
      -- the step borrows from the coarse count
      refine ⟨fun h => ?_, fun h f => ?_⟩
      · have hpos := h.2.1 (by omega)
        rw [if_neg hpos] at hlow
        rw [hlow, toNat_carryUp offset (by omega)]
        omega
      · have hnone : s.coarseCount.toNat = 0 := by
          by_contra hpos
          exact h ⟨hle, fun _ => hpos, fun hlarge => by omega⟩
        rw [if_pos hnone] at hlow
        rw [hlow, hnone]
        omega
    · split
      next hsmall hlarge =>
        -- the step carries into the coarse count
        refine ⟨fun h => ?_, fun h f => ?_⟩
        · have hroom := h.2.2 (by omega)
          rw [if_neg hroom] at hhigh
          rw [hhigh, toNat_carryDown offset (by omega)]
          omega
        · have hnone : s.coarseCount.toNat = 4294967295 := by
            by_contra hroom
            exact h ⟨hle, fun hneg => by omega, fun _ => hroom⟩
          have hf := hword f
          rw [if_pos hnone] at hhigh
          rw [hhigh, hnone]
          omega
      next hsmall hlarge =>
        refine ⟨fun _ => (by dsimp only; omega), fun h => absurd ⟨hle, fun hneg => ?_, fun hneg => ?_⟩ h⟩
        · omega
        · omega
  next hgt =>
    -- the offset wraps, which looks like a large one
    rw [if_neg (by omega), if_pos (by omega)]
    refine ⟨fun h => absurd h.1 hgt, fun _ f => ?_⟩
    have hf := hword f
    split at hhigh
    next hnone =>
      rw [hhigh, hnone]
      omega
    · rw [hhigh]
      omega

/-- The coarse count and the offset after a step that fits. -/
def stepped (s : RtimerState R) (diff : Int32) : UInt32 × Int :=
  let offset := (s.fineOffset.toNat : Int) - diff.toInt
  if 2 * offset < fineMax.toNat then (s.coarseCount - 1, offset + fineMax.toNat)
  else if 3 * fineMax.toNat < 2 * offset then (s.coarseCount + 1, offset - fineMax.toNat)
  else (s.coarseCount, offset)

omit [SoftDouble R] in
theorem stepOffset_stepped (hhi : 2 * s.fineOffset.toNat ≤ 3 * fineMax.toNat)
    (hdiff : diff.toInt.natAbs ≤ fineMax.toNat) (hle : diff.toInt ≤ s.fineOffset.toNat) :
    (stepOffset s diff).coarseCount = (stepped s diff).1 ∧ (stepOffset s diff).fineOffset.toNat = (stepped s diff).2 := by
  have hmax : fineMax.toNat = 67108863 := rfl
  have hsub := toNat_sub_toUInt32 (a := s.fineOffset) (d := diff) (by omega)
  rw [if_pos hle] at hsub
  rw [stepOffset, stepped, ← hsub]
  dsimp only
  generalize s.fineOffset - diff.toUInt32 = offset at hsub ⊢
  by_cases hsmall : 2 * offset.toNat < fineMax.toNat
  · rw [if_pos hsmall, if_pos (by omega)]
    exact ⟨rfl, by rw [toNat_carryUp offset (by omega), hmax]; rfl⟩
  · have hsmall' : ¬ 2 * (offset.toNat : Int) < fineMax.toNat := by omega
    rw [if_neg hsmall, if_neg hsmall']
    by_cases hlarge : 3 * fineMax.toNat < 2 * offset.toNat
    · have hlarge' : 3 * (fineMax.toNat : Int) < 2 * offset.toNat := by omega
      rw [if_pos hlarge, if_pos hlarge']
      exact ⟨rfl, by rw [toNat_carryDown offset (by omega), hmax, Int.ofNat_sub (by omega)]⟩
    · have hlarge' : ¬ 3 * (fineMax.toNat : Int) < 2 * offset.toNat := by omega
      rw [if_neg hlarge, if_neg hlarge']
      exact ⟨rfl, rfl⟩

/-! ### Arming the timers anew -/

/-- A timer that is armed anew: it is scheduled, and its date is not 0. -/
def Rtimer.armed (r : Rtimer) : Bool :=
  r.state == .scheduled && r.func.isSome && !(r.timeCoarseLg == 0 && r.timeFineLg == 0)

/-- The drift at a rate from one reading of the clock to another. -/
def drift (rate : R) (coarse fine coarseThen fineThen : UInt32) : UInt32 :=
  SoftDouble.toU32 (SoftDouble.mul (SoftDouble.ofNat (lgInterval coarse fine coarseThen fineThen).toNat) rate)

/-- What arming the timers anew adds to the offset: one timer the drift since the reference, and a second one the drift
    since the first. Each reads the clock twice. -/
def armDrift (s : RtimerState R) (rate : R) (coarse : UInt32) : UInt32 :=
  let first := drift rate coarse (s.hw 0) s.coarseOffsetRef s.fineOffsetRef
  if s.rt0.armed && s.rt1.armed then first + drift rate coarse (s.hw 2) coarse (s.hw 0)
  else if s.rt0.armed || s.rt1.armed then first
  else 0

/-- The stepped offset is near the one that the timers were armed for, or arming them anew adds nothing to it. -/
def DriftFree (s : RtimerState R) (rate : R) (diff : Int32) : Prop :=
  200 < ((s.schedulerFineOffsetRef.toNat - (stepped s diff).2).bmod (2 ^ 32)).natAbs →
    armDrift s rate (stepped s diff).1 = 0

/-- What arming one timer anew does to the offset and its reference. -/
structure Drifted (s s' : RtimerState R) : Prop where
  offset : s'.fineOffset =
    s.fineOffset + drift s.avgRate s.coarseCount (s.hw 0) s.coarseOffsetRef s.fineOffsetRef
  coarseRef : s'.coarseOffsetRef = s.coarseCount
  fineRef : s'.fineOffsetRef = s.hw 0
  reading : s'.hw 0 = s.hw 2
  count : s'.coarseCount = s.coarseCount
  rate : s'.avgRate = s.avgRate

theorem lgdateToHwdate_drifted (s : RtimerState R) (c f : UInt32) : Drifted s (rtimerLgdateToHwdate s c f).2.2.2 :=
  ⟨rfl, rfl, rfl, rfl, rfl, rfl⟩

theorem rescheduleSame_drifted (s : RtimerState R) (timer : RtimerId) :
    if (s.rt timer).armed then Drifted s (rescheduleSame s timer) else rescheduleSame s timer = s := by
  rw [rescheduleSame, Rtimer.armed]
  cases hstate : (s.rt timer).state with
  | scheduled =>
    cases hfunc : (s.rt timer).func with
    | none => rfl
    | some func =>
      have hdate : (!((s.rt timer).timeCoarseLg == 0 && (s.rt timer).timeFineLg == 0)) = true ↔
          ¬ ((s.rt timer).timeCoarseLg = 0 ∧ (s.rt timer).timeFineLg = 0) := by
        simp only [Bool.not_eq_true', Bool.and_eq_false_iff, beq_eq_false_iff_ne, not_and_or]
      have hany : (RtimerStatus.scheduled == .scheduled && (some func).isSome && !((s.rt timer).timeCoarseLg == 0 &&
          (s.rt timer).timeFineLg == 0)) = true ↔ _ := hdate
      have hset : ∀ (t : RtimerState R) (r : Rtimer), Drifted s t → Drifted s (t.setRt timer r) := by
        intro t r ht
        cases timer <;> exact ⟨ht.1, ht.2, ht.3, ht.4, ht.5, ht.6⟩
      have hfrom : ∀ (r : Rtimer) (t : RtimerState R), Drifted (s.setRt timer r) t → Drifted s t := by
        intro r t ht
        cases timer <;> exact ⟨ht.1, ht.2, ht.3, ht.4, ht.5, ht.6⟩
      have hlf : ∀ t : RtimerState R, Drifted s t → Drifted s (rtimerLfUpdate t) :=
        fun t ht => ⟨ht.1, ht.2, ht.3, ht.4, ht.5, ht.6⟩
      simp only [hany]
      rw [rtimerSchedule]
      split
      · rw [if_neg (by rw [hstate]; decide), if_pos rfl]
        have hdrifted := hfrom _ _ (lgdateToHwdate_drifted (s.setRt timer { s.rt timer with func := some func })
          (s.rt timer).timeCoarseLg (s.rt timer).timeFineLg)
        dsimp only
        split
        · exact hdrifted
        · exact hlf _ (hset _ _ hdrifted)
      next hzero => rw [if_pos (not_not.mp hzero)]
  | _ => rfl

theorem rt1_rescheduleSame (s : RtimerState R) : (rescheduleSame s .rtimer0).rt1 = s.rt1 := by
  rw [rescheduleSame]
  split
  · rw [rtimerSchedule]
    split
    · rfl
    · split
      · rfl
      · rw [if_pos rfl]
        dsimp only
        split <;> rfl
  · rfl

theorem far_iff (a b : UInt32) : (a.toInt32 - b.toInt32 < -200 ∨ 200 < a.toInt32 - b.toInt32) ↔
    200 < ((a.toNat - b.toNat : Int).bmod (2 ^ 32)).natAbs := by
  have hdiff : (a.toInt32 - b.toInt32).toInt = (a.toNat - b.toNat : Int).bmod (2 ^ 32) := by
    rw [Int32.toInt_sub, toInt_toInt32, toInt_toInt32, Int.sub_bmod_bmod, Int.bmod_sub_bmod]
  have hneg : (-200 : Int32).toInt = -200 := rfl
  have hpos : (200 : Int32).toInt = 200 := rfl
  rw [Int32.lt_iff_toInt_lt, Int32.lt_iff_toInt_lt, hdiff, hneg, hpos]
  omega

/-- ARMING ANEW: far from what the timers were armed for, the drift is added to the offset. -/
theorem armAnew_spec (s : RtimerState R) :
    (armAnew s).fineOffset =
      s.fineOffset +
        (if 200 < ((s.schedulerFineOffsetRef.toNat - s.fineOffset.toNat : Int).bmod (2 ^ 32)).natAbs then armDrift s
           s.avgRate s.coarseCount else 0) ∧
    (armAnew s).coarseCount = s.coarseCount ∧
    (armAnew s).avgRate = s.avgRate := by
  rw [armAnew]
  simp only [far_iff]
  split
  · have hfirst := rescheduleSame_drifted s .rtimer0
    have hsecond := rescheduleSame_drifted (rescheduleSame s .rtimer0) .rtimer1
    have hrt0 : s.rt .rtimer0 = s.rt0 := rfl
    have hrt1 : (rescheduleSame s .rtimer0).rt .rtimer1 = s.rt1 := rt1_rescheduleSame s
    rw [hrt0] at hfirst
    rw [hrt1] at hsecond
    generalize rescheduleSame s .rtimer0 = t at hfirst hsecond ⊢
    generalize rescheduleSame t .rtimer1 = u at hsecond ⊢
    rw [armDrift]
    cases harmed0 : s.rt0.armed with
    | true =>
      rw [harmed0, if_pos rfl] at hfirst
      cases harmed1 : s.rt1.armed with
      | true =>
        rw [harmed1, if_pos rfl] at hsecond
        rw [hsecond.offset, hsecond.count, hsecond.rate, hfirst.offset, hfirst.count, hfirst.rate, hfirst.coarseRef,
          hfirst.fineRef, hfirst.reading]
        exact ⟨UInt32.add_assoc _ _ _, rfl, rfl⟩
      | false =>
        rw [harmed1, if_neg Bool.false_ne_true] at hsecond
        rw [hsecond]
        exact ⟨hfirst.offset, hfirst.count, hfirst.rate⟩
    | false =>
      rw [harmed0, if_neg Bool.false_ne_true] at hfirst
      rw [hfirst] at hsecond
      cases harmed1 : s.rt1.armed with
      | true =>
        rw [harmed1, if_pos rfl] at hsecond
        exact ⟨hsecond.offset, hsecond.count, hsecond.rate⟩
      | false =>
        rw [harmed1, if_neg Bool.false_ne_true] at hsecond
        rw [hsecond]
        exact ⟨(UInt32.add_zero _).symm, rfl, rfl⟩
  · exact ⟨(UInt32.add_zero _).symm, rfl, rfl⟩

theorem armDrift_zero (hx : ExactZero R) (s : RtimerState R) (coarse : UInt32) :
    armDrift s (SoftDouble.ofNat 0 : R) coarse = 0 := by
  have hzero : ∀ c f ct ft, drift (SoftDouble.ofNat 0 : R) c f ct ft = 0 := fun _ _ _ _ => hx.mul_zero _
  rw [armDrift]
  simp only [hzero, UInt32.add_zero, ite_self]

theorem fineOffset_armAnew (hx : ExactZero R) (hrate : s.avgRate = SoftDouble.ofNat 0) :
    (armAnew s).fineOffset = s.fineOffset := by
  rw [(armAnew_spec s).1, hrate, armDrift_zero hx, ite_self, UInt32.add_zero]

omit [SoftDouble R] in
/-- The step leaves what the drift depends on. -/
theorem stepOffset_kept (s : RtimerState R) (diff : Int32) : (stepOffset s diff).avgRate = s.avgRate ∧
    (stepOffset s diff).schedulerFineOffsetRef = s.schedulerFineOffsetRef ∧
    ∃ coarse fine, stepOffset s diff = { s with coarseCount := coarse, fineOffset := fine } := by
  rw [stepOffset]
  split
  · exact ⟨rfl, rfl, _, _, rfl⟩
  · split <;> exact ⟨rfl, rfl, _, _, rfl⟩

/-- After a step that fits, the offset stays as it is stepped exactly where there is no drift. -/
theorem armAnew_stepOffset (hhi : 2 * s.fineOffset.toNat ≤ 3 * fineMax.toNat)
    (hdiff : diff.toInt.natAbs ≤ fineMax.toNat) (hle : diff.toInt ≤ s.fineOffset.toNat) :
    (armAnew (stepOffset s diff)).fineOffset = (stepOffset s diff).fineOffset ↔ DriftFree s s.avgRate diff := by
  obtain ⟨hcount, hoffset⟩ := stepOffset_stepped hhi hdiff hle
  obtain ⟨hrate, href, coarse, fine, hstep⟩ := stepOffset_kept s diff
  have hdrift : ∀ c, armDrift (stepOffset s diff) s.avgRate c = armDrift s s.avgRate c := by
    intro c
    rw [hstep]
    rfl
  rw [(armAnew_spec _).1, hrate, href, hoffset, hcount, hdrift, DriftFree, UInt32.add_eq_left]
  split
  next hfar => exact ⟨fun h _ => h, fun h => h hfar⟩
  next hnear => exact ⟨fun _ h => absurd h hnear, fun _ => rfl⟩

/-! ### Sequences of corrections -/

/-- The offset is between `RTIMER_OFFSET_MIN` and `RTIMER_OFFSET_MAX`. -/
def Normalised (s : RtimerState R) : Prop :=
  fineMax.toNat ≤ 2 * s.fineOffset.toNat ∧ 2 * s.fineOffset.toNat ≤ 3 * fineMax.toNat

instance (s : RtimerState R) : Decidable (Normalised s) := inferInstanceAs (Decidable (_ ∧ _))

/-- A correction of a coarse unit at most, with the sum of the corrections so far. -/
def correctOffset (c : RtimerState R × Int) (diff : Int32) : Option (RtimerState R × Int) :=
  if diff.toInt.natAbs ≤ fineMax.toNat then some (rtimerAdjustFineOffset c.1 diff, c.2 + diff.toInt) else none

/-- Since `s` the clock was set back by just what it was corrected by, and its offset is normalised. -/
structure Corrected (s : RtimerState R) (c : RtimerState R × Int) : Prop where
  rate : c.1.avgRate = SoftDouble.ofNat 0
  normal : Normalised c.1
  clock : scaled c.1.coarseCount c.1.fineOffset = scaled s.coarseCount s.fineOffset - c.2

omit [SoftDouble R] in
/-- One carry is enough. -/
theorem stepOffset_normalised (hs : Normalised s) (hdiff : diff.toInt.natAbs ≤ fineMax.toNat) (hle : diff.toInt ≤
    s.fineOffset.toNat) : Normalised (stepOffset s diff) := by
  have hmax : fineMax.toNat = 67108863 := rfl
  obtain ⟨hlo, hhi⟩ := hs
  have hsub := toNat_sub_toUInt32 (a := s.fineOffset) (d := diff) (by omega)
  rw [stepOffset, Normalised]
  dsimp only
  generalize s.fineOffset - diff.toUInt32 = offset at hsub ⊢
  split
  · have hup := toNat_carryUp offset (by omega)
    dsimp only
    omega
  · split
    · have hdown := toNat_carryDown offset (by omega)
      dsimp only
      omega
    · dsimp only
      omega

/-- STEP: the clock stays corrected exactly where the step fits. -/
theorem Corrected.step_iff (hx : ExactZero R) {c d : RtimerState R × Int}
    (h : Corrected s c) (hstep : correctOffset c diff = some d) : Corrected s d ↔ StepFits c.1 diff := by
  rw [correctOffset] at hstep
  split at hstep
  next hdiff =>
    cases hstep
    obtain ⟨hrate, hnormal, hclock⟩ := h
    obtain ⟨hgood, hbad⟩ := stepOffset_spec hnormal.1 hnormal.2 hdiff
    obtain ⟨hsame, _⟩ := stepOffset_kept c.1 diff
    have hfine := fineOffset_armAnew hx (hsame.trans hrate)
    obtain ⟨_, hcount, havg⟩ := armAnew_spec (stepOffset c.1 diff)
    have hto : rtimerAdjustFineOffset c.1 diff = { armAnew (stepOffset c.1 diff) with
      schedulerFineOffsetRef := (armAnew (stepOffset c.1 diff)).fineOffset } := rtimerAdjustFineOffset_eq c.1 diff
    constructor
    · rintro ⟨-, -, hkept⟩
      by_contra hno
      rw [hto] at hkept
      rw [hcount] at hkept
      exact hbad hno _ (by rw [hkept]; omega)
    · intro hfit
      have hstepped := hgood hfit
      have hnormal' := stepOffset_normalised hnormal hdiff hfit.offset
      rw [hto]
      refine ⟨havg.trans (hsame.trans hrate), ?_, ?_⟩
      · rw [Normalised] at hnormal' ⊢
        rw [hfine]
        exact hnormal'
      · dsimp only
        rw [hcount, hfine, hstepped]
        omega
  · cases hstep

/-- A sequence of corrections at the rate 0 keeps the offset normalised and sets the clock back by its sum
    exactly where no correction takes the unsigned offset below 0, nor the coarse count out of its range. -/
theorem corrections_exact (hx : ExactZero R) {s : RtimerState R} (hrate : s.avgRate = SoftDouble.ofNat 0)
    (hs : Normalised s) {diffs : List Int32} {c : RtimerState R × Int}
    (hrun : Run correctOffset (fun _ _ => True) (s, 0) diffs c) :
    (∀ ds d, ds <+: diffs → Run correctOffset (fun _ _ => True) (s, 0) ds d → Corrected s d) ↔
      Run correctOffset (fun d diff => StepFits d.1 diff) (s, 0) diffs c :=
  Run.holds_iff (fun _ _ _ h hstep => h.step_iff hx hstep) hrun ⟨hrate, hs, (Int.sub_zero _).symm⟩

theorem rtimerInit_normalised (hw : Nat → UInt32) : Normalised { (rtimerInit : RtimerState R) with hw := hw } := by
  have hinit : fineMax.toNat ≤ 2 * fineMax.toNat ∧ 2 * fineMax.toNat ≤ 3 * fineMax.toNat := by decide
  exact hinit

/-- Two small corrections after `rtimer_init` are taken off exactly. -/
theorem corrections_exact_small : ∃ c, Run correctOffset (fun _ _ => True) (rtimerInit (R := Rat), 0) [1000, -500] c ∧
    ∀ ds d, ds <+: [1000, -500] → Run correctOffset (fun _ _ => True) (rtimerInit (R := Rat), 0) ds d →
      Corrected rtimerInit d := by
  have hfirst : correctOffset (rtimerInit (R := Rat), 0) 1000 = some (rtimerAdjustFineOffset rtimerInit 1000, 1000) :=
    if_pos (by decide)
  have hsecond : correctOffset (rtimerAdjustFineOffset (rtimerInit (R := Rat)) 1000, 1000) (-500) =
      some (rtimerAdjustFineOffset (rtimerAdjustFineOffset rtimerInit 1000) (-500), 500) := if_pos (by decide)
  have hfit : StepFits (rtimerInit (R := Rat)) 1000 := ⟨by decide, by decide, by decide⟩
  have hfit' : StepFits (rtimerAdjustFineOffset (rtimerInit (R := Rat)) 1000) (-500) :=
    ⟨by decide, by decide, by decide⟩
  have hrun : Run correctOffset (fun _ _ => True) (rtimerInit (R := Rat), 0) [1000, -500]
      (rtimerAdjustFineOffset (rtimerAdjustFineOffset rtimerInit 1000) (-500), 500) :=
    .cons trivial hfirst (.cons trivial hsecond (.nil _))
  exact ⟨_, hrun, (corrections_exact exactUnit_rat.toExactZero rfl (rtimerInit_normalised fun _ => 1) hrun).mpr
    (.cons hfit hfirst (.cons hfit' hsecond (.nil _)))⟩

/-- The offset goes down to its minimum, and then by a little more than that: it wraps, and is taken for a large one. -/
theorem correction_wraps : Normalised ([-67108863, 33554431].foldl rtimerAdjustFineOffset (rtimerInit (R := Rat))) ∧
      ¬ Normalised ([-67108863, 33554431, 33554433].foldl rtimerAdjustFineOffset (rtimerInit (R := Rat))) := by
  decide

end CSync
