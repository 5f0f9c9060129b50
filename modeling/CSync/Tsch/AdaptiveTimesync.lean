import CSync.Lib.Run
import Mathlib.Tactic.Linarith

/-! Drift compensation (`tsch-adaptive-timesync.c`).

    What a division leaves and what the conversion to ticks leaves is carried to the next call. The accounts balance
    as long as the second of the two fits its 16 bits. -/

namespace CSync.TschTimesync
open Lib

def int16 (n : Int) : Int := (n + 2 ^ 15) % 2 ^ 16 - 2 ^ 15
def int32 (n : Int) : Int := (n + 2 ^ 31) % 2 ^ 32 - 2 ^ 31
def int64 (n : Int) : Int := (n + 2 ^ 63) % 2 ^ 64 - 2 ^ 63

def driftUnit : Int := 1000 * 1000 * 256

/-- `US_TO_RTIMERTICKS`, `RTIMERTICKS_TO_US` and `RTIMER_ARCH_SECOND`. -/
structure Clock where
  usToRtimerticks : Int → Int
  rtimerticksToUs : Int → Int
  archSecond : Nat

/-- `remainder` and `tick_conversion_error`. -/
structure Carried where
  remainder : Int
  tickConversionError : Int

variable (k : Clock) (driftPpm : Int32)

/-- `d`, which a call divides. -/
def drifted (timeDeltaUsec : UInt32) (c : Carried) : Int :=
  int64 (int64 (timeDeltaUsec.toNat * driftPpm.toInt) + c.remainder)

/-- `amount`, in microseconds, with the error carried. -/
def amountOf (timeDeltaUsec : UInt32) (c : Carried) : Int :=
  int32 (int32 ((drifted driftPpm timeDeltaUsec c).tdiv driftUnit) + c.tickConversionError)

def amountTicksOf (timeDeltaUsec : UInt32) (c : Carried) : Int :=
  int32 (k.usToRtimerticks (amountOf driftPpm timeDeltaUsec c))

def compensateInternal (timeDeltaUsec : UInt32) (c : Carried) : Int × Carried :=
  let d := drifted driftPpm timeDeltaUsec c
  let amount := int32 (d.tdiv driftUnit)
  let remainder := int32 (d - int32 (amount * driftUnit))
  let amount := amountOf driftPpm timeDeltaUsec c
  let amountTicks := amountTicksOf k driftPpm timeDeltaUsec c
  let tickConversionError := int16 (amount - k.rtimerticksToUs amountTicks)
  let amountTicks :=
    if ((k.archSecond / 128 : Nat) : Int) < |amountTicks| then
      (if 0 < amountTicks then (k.archSecond : Int) else -k.archSecond).tdiv 128
    else amountTicks
  (amountTicks, ⟨remainder, tickConversionError⟩)

/-! ### Sequences of calls -/

/-- The sums of the microseconds of the returned ticks and of the time that drifted, and what is carried. -/
structure Account where
  ticksUs : Int
  total : Int
  carried : Carried

/-- A call whose tick amount is within the limit. -/
def step (a : Account) (timeDeltaUsec : UInt32) : Option Account :=
  if |amountTicksOf k driftPpm timeDeltaUsec a.carried| ≤ ((k.archSecond / 128 : Nat) : Int) then
    let r := compensateInternal k driftPpm timeDeltaUsec a.carried
    some ⟨a.ticksUs + k.rtimerticksToUs r.1, a.total + timeDeltaUsec.toNat * driftPpm.toInt, r.2⟩
  else none

/-- Before the first call. -/
def start : Account := ⟨0, 0, ⟨0, 0⟩⟩

/-- INVARIANT: nothing is lost. -/
def Account.Balanced (a : Account) : Prop :=
  (a.ticksUs + a.carried.tickConversionError) * driftUnit + a.carried.remainder = a.total ∧
    |a.carried.remainder| < driftUnit

/-- What is to be compensated, and what its conversion to ticks leaves of it. -/
def compensated (timeDeltaUsec : UInt32) (c : Carried) : Int :=
  (timeDeltaUsec.toNat * driftPpm.toInt + c.remainder).tdiv driftUnit + c.tickConversionError

def left (timeDeltaUsec : UInt32) (c : Carried) : Int :=
  compensated driftPpm timeDeltaUsec c -
    k.rtimerticksToUs (int32 (k.usToRtimerticks (int32 (compensated driftPpm timeDeltaUsec c))))

/-- The rest fits the 16 bits of `tick_conversion_error`. -/
def Fits (a : Account) (timeDeltaUsec : UInt32) : Prop :=
  -2 ^ 15 ≤ left k driftPpm timeDeltaUsec a.carried ∧ left k driftPpm timeDeltaUsec a.carried < 2 ^ 15

instance (a : Account) (timeDeltaUsec : UInt32) : Decidable (Fits k driftPpm a timeDeltaUsec) :=
  inferInstanceAs (Decidable (_ ∧ _))

/-! ### What a call computes -/

variable {k driftPpm} {timeDeltaUsec : UInt32} {c : Carried}

theorem int16_eq_self_iff {n : Int} : int16 n = n ↔ -2 ^ 15 ≤ n ∧ n < 2 ^ 15 := by
  rw [int16]
  omega

section
variable (h : |c.remainder| < driftUnit)
include h

theorem drifted_eq :
    drifted driftPpm timeDeltaUsec c = timeDeltaUsec.toNat * driftPpm.toInt + c.remainder := by
  obtain ⟨hlo, hhi⟩ := abs_lt.1 h
  have ht : (timeDeltaUsec.toNat : Int) ≤ 2 ^ 32 - 1 := by
    have := timeDeltaUsec.toNat_lt
    omega
  have hd := Int32.toInt_lt driftPpm
  have hd' := Int32.le_toInt driftPpm
  have hup : timeDeltaUsec.toNat * driftPpm.toInt ≤ (2 ^ 32 - 1) * 2 ^ 31 := by nlinarith
  have hdown : -((2 ^ 32 - 1) * 2 ^ 31) ≤ timeDeltaUsec.toNat * driftPpm.toInt := by nlinarith
  rw [drifted]
  simp only [driftUnit, int64] at *
  omega

theorem amountOf_eq :
    amountOf driftPpm timeDeltaUsec c = int32 (compensated driftPpm timeDeltaUsec c) := by
  rw [amountOf, compensated, drifted_eq h]
  simp only [int32]
  omega

/-- STEP: the quotient and the new remainder make up what was divided. -/
theorem compensateInternal_remainder : (compensateInternal k driftPpm timeDeltaUsec
    c).2.remainder = (timeDeltaUsec.toNat * driftPpm.toInt + c.remainder).tmod driftUnit := by
  simp only [compensateInternal, drifted_eq h]
  generalize timeDeltaUsec.toNat * driftPpm.toInt + c.remainder = d
  have hsplit := Int.mul_tdiv_add_tmod d driftUnit
  have hlo := Int.lt_tmod_of_pos d (by decide : 0 < driftUnit)
  have hhi := Int.tmod_lt_of_pos d (by decide : 0 < driftUnit)
  simp only [driftUnit, int32] at *
  omega

theorem compensateInternal_error : (compensateInternal k driftPpm timeDeltaUsec
    c).2.tickConversionError = int16 (left k driftPpm timeDeltaUsec c) := by
  simp only [compensateInternal, amountTicksOf, amountOf_eq h, left, int16]
  simp only [int32]
  omega

end

/-- STEP: the account stays balanced precisely when the rest fits. -/
theorem balanced_step (a : Account) (timeDeltaUsec : UInt32) (b : Account) (h : a.Balanced)
    (hstep : step k driftPpm a timeDeltaUsec = some b) : b.Balanced ↔ Fits k driftPpm a timeDeltaUsec := by
  obtain ⟨hbalance, hrem⟩ := h
  rw [step] at hstep
  split at hstep
  next hlimit =>
    cases hstep
    have hticks : (compensateInternal k driftPpm timeDeltaUsec a.carried).1 =
        int32 (k.usToRtimerticks (int32 (compensated driftPpm timeDeltaUsec a.carried))) := by
      rw [amountTicksOf, amountOf_eq hrem] at hlimit
      simp only [compensateInternal, amountTicksOf, amountOf_eq hrem]
      exact if_neg (not_lt.2 hlimit)
    rw [Fits, ← int16_eq_self_iff, Account.Balanced]
    rw [compensateInternal_remainder hrem, compensateInternal_error hrem, hticks]
    have hleft : left k driftPpm timeDeltaUsec a.carried =
        compensated driftPpm timeDeltaUsec a.carried - k.rtimerticksToUs
          (int32 (k.usToRtimerticks (int32 (compensated driftPpm timeDeltaUsec a.carried)))) := rfl
    generalize k.rtimerticksToUs (int32 _) = u at hleft ⊢
    rw [compensated] at hleft
    have hsplit := Int.mul_tdiv_add_tmod (timeDeltaUsec.toNat * driftPpm.toInt + a.carried.remainder) driftUnit
    have hlo := Int.lt_tmod_of_pos (timeDeltaUsec.toNat * driftPpm.toInt + a.carried.remainder)
      (by decide : 0 < driftUnit)
    have hhi := Int.tmod_lt_of_pos (timeDeltaUsec.toNat * driftPpm.toInt + a.carried.remainder)
      (by decide : 0 < driftUnit)
    rw [and_iff_left (abs_lt.2 ⟨hlo, hhi⟩)]
    simp only [driftUnit] at *
    constructor <;> intro h <;> omega
  · contradiction

/-- EXACT: in a run of calls the accounts balance all along precisely when the rest fits at each call. -/
theorem compensation_exact_iff {k : Clock} {driftPpm : Int32} {timeDeltas : List UInt32} {a : Account}
    (hrun : Run (step k driftPpm) (fun _ _ => True) start timeDeltas a) :
    (∀ ds b, ds <+: timeDeltas → Run (step k driftPpm) (fun _ _ => True) start ds b → b.Balanced) ↔
      Run (step k driftPpm) (Fits k driftPpm) start timeDeltas a :=
  Run.holds_iff (fun a t b h hst => balanced_step a t b h hst) hrun ⟨rfl, by decide⟩

/-- The conversions of `rtimer.h` with 32768 ticks a second. -/
def rtimerClock : Clock where
  usToRtimerticks us := if 0 ≤ us then (int32 (int32 (us * 32768) + 500000)).tdiv 1000000
    else (int32 (int32 (us * 32768) - 500000)).tdiv 1000000
  rtimerticksToUs t := if 0 ≤ t then (int32 (int32 (t * 1000000) + 16384)).tdiv 32768
    else (int32 (int32 (t * 1000000) - 16384)).tdiv 32768
  archSecond := 32768

/-- Three seconds at 40 ppm, in steps of half a second. -/
def halfSeconds : List UInt32 := List.replicate 6 500000

theorem compensation_exact_halfSeconds : ∃ a, Run (step rtimerClock 10240) (fun _ _ => True) start halfSeconds a ∧
    ∀ ds b, ds <+: halfSeconds → Run (step rtimerClock 10240) (fun _ _ => True) start ds b → b.Balanced := by
  obtain ⟨a, hfits, -⟩ : ∃ a, Run (step rtimerClock 10240) (Fits rtimerClock 10240) start halfSeconds a ∧ true = true :=
    exists_run (fun a t => decide (Fits rtimerClock 10240 a t)) (fun _ => true) (fun _ _ => of_decide_eq_true)
      (by decide)
  have hrun : Run (step rtimerClock 10240) (fun _ _ => True) start halfSeconds a := hfits.weaken fun _ _ _ => trivial
  exact ⟨a, hrun, (compensation_exact_iff hrun).2 hfits⟩

/-- 131 seconds at 1000 ppm: the product of the conversion wraps to no ticks at all, and the rest to no error. -/
theorem compensation_lost : ∃ a, Run (step rtimerClock 256000) (fun _ _ => True) start [131072000] a ∧
    ¬ a.Balanced := by
  obtain ⟨a, hrun, ha⟩ : ∃ a, Run (step rtimerClock 256000) (fun _ _ => True) start [131072000] a ∧
      decide (a.ticksUs + a.carried.tickConversionError = 0 ∧ a.carried.remainder = 0 ∧ a.total ≠ 0) = true :=
    exists_run (fun _ _ => true) _ (fun _ _ _ => trivial) (by decide)
  obtain ⟨hsum, hremainder, htotal⟩ := of_decide_eq_true ha
  refine ⟨a, hrun, fun h => htotal ?_⟩
  rw [← h.1, hsum, hremainder]
  rfl

end CSync.TschTimesync
