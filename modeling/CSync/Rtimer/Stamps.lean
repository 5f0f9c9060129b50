import CSync.Lib.While
import CSync.Rtimer.Model

/-! From the stamps of timers A and B to a fine date (`rtimer_stamps_to_now`).

    Timer A counts low-frequency ticks of `RTIMER_AB_RESOLUTION` high-frequency ones, and timer B runs freely; each is
    stamped together with the compare value of its last update. The first loop raises both stamps of timer B until they
    are in order, the second takes the ticks that timer A went on since the update off their distance, and what is left
    is decoded from its 16 bits. The stamps of a received frame come from the radio, and nobody checks them. -/

namespace CSync

open Lib

variable {R : Type} [SoftDouble R]

def abResolution : UInt16 := 1024

/-- The loop that brings the stamps of timer B, `tb` and `tb_compare`, in order. -/
def raiseStamps (fuel : Nat) (tb tbCompare : UInt16) : Option (UInt16 × UInt16) :=
  whileLoop (fun s => decide (s.1 < s.2)) (fun s => (s.1 + abResolution, s.2 + abResolution)) fuel (tb, tbCompare)

/-- The loop that takes the ticks of timer A off; its state is `ta_compare` and `tb`. -/
def lowerStamp (fuel : Nat) (ta taCompare tb : UInt16) : Option (UInt16 × UInt16) :=
  whileLoop (fun s => decide (s.1 < ta)) (fun s => (s.1 + 1, s.2 - abResolution)) fuel (taCompare, tb)

/-- The end of `rtimer_stamps_to_now`: the three ranges of `tb`. -/
def decodeStamps (tOut : UInt32) (tb : UInt16) : UInt32 :=
  if 65535 - abResolution < tb then tOut - (65535 - tb).toUInt32
  else if abResolution ≤ tb then 0 else tOut + tb.toUInt32

/-- `rtimer_stamps_to_now`; `none` stands for a loop that `fuel` rounds do not end. -/
def rtimerStampsToNow (fuel : Nat) (ta tb taCompare tbCompare : UInt16) (clockRate : R) : Option UInt32 :=
  let tOut := ta.toUInt32 <<< 10
  (raiseStamps fuel tb tbCompare).bind fun raised =>
    let tb := SoftDouble.toU16 (SoftDouble.mul (SoftDouble.ofNat (raised.1 - raised.2).toNat) clockRate)
    (lowerStamp fuel ta taCompare tb).map fun lowered => decodeStamps tOut lowered.2

/-! ### Termination -/

variable {tb tbCompare : UInt16}

/-- In one block of `RTIMER_AB_RESOLUTION` values two stamps stay in one block, and in their order. -/
theorem raiseStamps_forever (hlt : tb < tbCompare)
    (hblock : tbCompare.toNat / 1024 = tb.toNat / 1024) (fuel : Nat) : raiseStamps fuel tb tbCompare = none := by
  have hres : abResolution.toNat = 1024 := rfl
  refine whileLoop_forever (I := fun s : UInt16 × UInt16 => s.1 < s.2 ∧ s.2.toNat / 1024 = s.1.toNat / 1024)
    (fun s hs => decide_eq_true hs.1) (fun s hs => ?_) fuel ⟨hlt, hblock⟩
  rw [UInt16.lt_iff_toNat_lt] at hs ⊢
  simp only [UInt16.toNat_add, hres]
  omega

/-- In different blocks the later stamp comes to wrap first. -/
theorem raiseStamps_ends (hblock : tbCompare.toNat / 1024 ≠ tb.toNat / 1024) :
    (raiseStamps 65 tb tbCompare).isSome := by
  have hres : abResolution.toNat = 1024 := rfl
  refine whileLoop_ends (I := fun s : UInt16 × UInt16 => s.2.toNat / 1024 ≠ s.1.toNat / 1024)
    (fun s => if s.1.toNat < s.2.toNat then 64 - s.2.toNat / 1024 else 0) (fun s hs hcond => ?_) hblock ?_
  · have hlt := of_decide_eq_true hcond
    have h2 := s.2.toNat_lt
    rw [UInt16.lt_iff_toNat_lt] at hlt
    simp only [UInt16.toNat_add, hres]
    refine ⟨by omega, ?_⟩
    split_ifs <;> omega
  · split_ifs <;> omega

theorem raiseStamps_isSome_iff (tb tbCompare : UInt16) : (∃ fuel, (raiseStamps fuel tb tbCompare).isSome) ↔
    tbCompare ≤ tb ∨ tbCompare.toNat / 1024 ≠ tb.toNat / 1024 := by
  constructor
  · rintro ⟨fuel, hends⟩
    by_contra hno
    rw [not_or, not_not] at hno
    rw [raiseStamps_forever (UInt16.not_le.mp hno.1) hno.2] at hends
    cases hends
  · rintro (hle | hblock)
    · refine ⟨1, ?_⟩
      rw [raiseStamps, whileLoop, if_neg]
      · rfl
      · rw [decide_eq_true_iff]
        exact UInt16.not_lt.mpr hle
    · exact ⟨65, raiseStamps_ends hblock⟩

theorem lowerStamp_ends (ta taCompare tb : UInt16) : (lowerStamp 65536 ta taCompare tb).isSome := by
  refine whileLoop_ends (I := fun _ : UInt16 × UInt16 => True) (fun s => ta.toNat - s.1.toNat) (fun s _ hcond => ?_)
    trivial ?_
  · have hlt := of_decide_eq_true hcond
    have hta := ta.toNat_lt
    rw [UInt16.lt_iff_toNat_lt] at hlt
    refine ⟨trivial, ?_⟩
    simp only [UInt16.toNat_add, UInt16.toNat_one]
    omega
  · have hta := ta.toNat_lt
    omega

/-- Both loops end exactly for the stamps of timer B that are in order or in different blocks. -/
theorem stampsToNow_ends_iff (ta tb taCompare tbCompare : UInt16) (clockRate : R) : (∃ fuel, (rtimerStampsToNow fuel
    ta tb taCompare tbCompare clockRate).isSome) ↔ tbCompare ≤ tb ∨ tbCompare.toNat / 1024 ≠ tb.toNat / 1024 := by
  rw [← raiseStamps_isSome_iff]
  constructor
  · rintro ⟨fuel, hends⟩
    refine ⟨fuel, ?_⟩
    rw [rtimerStampsToNow] at hends
    cases hraised : raiseStamps fuel tb tbCompare with
    | none =>
      rw [hraised] at hends
      cases hends
    | some raised => rfl
  · rintro ⟨fuel, hends⟩
    obtain ⟨raised, hraised⟩ := Option.isSome_iff_exists.mp hends
    have hfirst : raiseStamps (max fuel 65536) tb tbCompare = some raised :=
      whileLoop_mono (Nat.le_max_left _ _) hraised
    refine ⟨max fuel 65536, ?_⟩
    rw [rtimerStampsToNow, hfirst, Option.bind_some]
    dsimp only
    generalize SoftDouble.toU16 (SoftDouble.mul (SoftDouble.ofNat (raised.1 - raised.2).toNat) clockRate) = tb'
    obtain ⟨lowered, hlowered⟩ := Option.isSome_iff_exists.mp (lowerStamp_ends ta taCompare tb')
    have hsecond : lowerStamp (max fuel 65536) ta taCompare tb' = some lowered :=
      whileLoop_mono (Nat.le_max_right _ _) hlowered
    rw [hsecond]
    rfl

/-- The stamps of a frame hang the receiver if the second one of timer B is the next after the first. -/
theorem stampsToNow_hangs : ¬ ∃ fuel, (rtimerStampsToNow fuel 0 0 0 1 (1 : Rat)).isSome := by
  rintro ⟨fuel, hends⟩
  rw [rtimerStampsToNow, raiseStamps_forever (by decide) (by decide)] at hends
  cases hends

/-! ### The value -/

/-- The signed 16-bit distance of the stamps of timer B, less the ticks of timer A. -/
def residual (ta tb taCompare tbCompare : UInt16) : Int :=
  ((tb.toNat : Int) - tbCompare.toNat - 1024 * max 0 ((ta.toNat : Int) - taCompare.toNat)).bmod 65536

variable {fuel : Nat}

theorem raiseStamps_sub {raised : UInt16 × UInt16}
    (h : raiseStamps fuel tb tbCompare = some raised) : raised.1 - raised.2 = tb - tbCompare := by
  refine (whileLoop_result (I := fun s : UInt16 × UInt16 => s.1 - s.2 = tb - tbCompare) (fun s hs _ => ?_) rfl h).1
  have h2 := s.2.toNat_lt
  rw [← hs, ← UInt16.toNat_inj]
  simp only [UInt16.toNat_sub, UInt16.toNat_add]
  omega

/-- The second loop is between `ta_compare` and `ta`, and has taken `RTIMER_AB_RESOLUTION` off for each tick so far. -/
structure Lowered (ta taCompare tb : UInt16) (s : UInt16 × UInt16) : Prop where
  from_compare : taCompare.toNat ≤ s.1.toNat
  to_ta : s.1.toNat ≤ ta.toNat ∨ s.1 = taCompare
  taken : (s.2.toNat : Int) = ((tb.toNat : Int) - 1024 * ((s.1.toNat : Int) - taCompare.toNat)) % 65536

theorem Lowered.step {ta taCompare : UInt16} {s : UInt16 × UInt16} (h : Lowered ta taCompare tb s) (hlt : s.1 < ta) :
    Lowered ta taCompare tb (s.1 + 1, s.2 - abResolution) := by
  have hres : abResolution.toNat = 1024 := rfl
  have hta := ta.toNat_lt
  rw [UInt16.lt_iff_toNat_lt] at hlt
  obtain ⟨hlo, -, hval⟩ := h
  have hup : (s.1 + 1).toNat = s.1.toNat + 1 := by
    rw [UInt16.toNat_add, UInt16.toNat_one, Nat.mod_eq_of_lt (by omega)]
  refine ⟨?_, .inl ?_, ?_⟩
  · rw [hup]
    omega
  · rw [hup]
    omega
  · rw [hup, UInt16.toNat_sub, hres]
    omega

/-- The second loop takes `RTIMER_AB_RESOLUTION` off for each tick from `ta_compare` to `ta`. -/
theorem lowerStamp_toNat {ta taCompare : UInt16} {lowered : UInt16 × UInt16}
    (h : lowerStamp fuel ta taCompare tb = some lowered) : (lowered.2.toNat : Int) =
      ((tb.toNat : Int) - 1024 * max 0 ((ta.toNat : Int) - taCompare.toNat)) % 65536 := by
  have htb := tb.toNat_lt
  have hstart : Lowered ta taCompare tb (taCompare, tb) := ⟨Nat.le_refl _, Or.inr rfl, by dsimp only; omega⟩
  obtain ⟨⟨hlo, hhi, hval⟩, hend⟩ := whileLoop_result (I := Lowered ta taCompare tb)
    (fun s hs hcond => hs.step (of_decide_eq_true hcond)) hstart h
  have hnot := of_decide_eq_false hend
  rw [UInt16.lt_iff_toNat_lt] at hnot
  rcases hhi with hhi | rfl
  · omega
  · omega

/-- The date of the last 16 bits: one tick too much where they are below 0. -/
theorem decodeStamps_toNat (ta tb : UInt16) :
    ((decodeStamps (ta.toUInt32 <<< 10) tb).toNat : Int) =
      if 64512 ≤ tb.toNat then ((ta.toNat : Int) * 1024 + tb.toNat - 65535) % 4294967296 else if 1024 ≤ tb.toNat then
        0 else ta.toNat * 1024 + tb.toNat := by
  have hta := ta.toNat_lt
  have htb := tb.toNat_lt
  have hout : (ta.toUInt32 <<< 10).toNat = ta.toNat * 1024 := by
    rw [UInt32.toNat_shiftLeft, UInt16.toNat_toUInt32]
    simp only [UInt32.reduceToNat, Nat.shiftLeft_eq, Nat.reduceMod, Nat.reducePow]
    omega
  have hneg : 65535 - abResolution < tb ↔ 64512 ≤ tb.toNat := UInt16.lt_iff_toNat_lt
  have hmid : abResolution ≤ tb ↔ 1024 ≤ tb.toNat := UInt16.le_iff_toNat_le
  rw [decodeStamps]
  simp only [hneg, hmid]
  split_ifs
  · rw [UInt32.toNat_sub, hout, UInt16.toNat_toUInt32, UInt16.toNat_sub]
    simp only [UInt16.reduceToNat]
    omega
  · rfl
  · rw [UInt32.toNat_add, hout, UInt16.toNat_toUInt32]
    omega

/-- The fine date that the stamps stand for, in the range up to `RTIMER_FINE_MAX`. -/
def stampDate (ta : UInt16) (d : Int) : Int :=
  if -1024 ≤ d ∧ d < 1024 then (ta.toNat * 1024 + d) % (fineMax.toNat + 1) else 0

/-- At the clock rate 1 the result is the date that the stamps stand for, unless timer B is behind its update
    by up to one tick of timer A: there it is one too large, and out of the range if timer A has just wrapped. -/
theorem stampsToNow_date_iff
    (hone : ∀ x : UInt16, SoftDouble.toU16 (SoftDouble.mul (SoftDouble.ofNat x.toNat) (SoftDouble.ofNat 1 : R)) = x)
    {ta tb taCompare tbCompare : UInt16} {now : UInt32}
    (h : rtimerStampsToNow fuel ta tb taCompare tbCompare (SoftDouble.ofNat 1 : R) = some now) :
    ((now.toNat : Int) = stampDate ta (residual ta tb taCompare tbCompare) ∧ now ≤ fineMax) ↔
      ¬ (-1024 ≤ residual ta tb taCompare tbCompare ∧ residual ta tb taCompare tbCompare < 0) := by
  have hmax : fineMax.toNat = 67108863 := rfl
  have hta := ta.toNat_lt
  obtain ⟨raised, hraised, h⟩ := Option.bind_eq_some_iff.mp h
  rw [hone, raiseStamps_sub hraised] at h
  obtain ⟨lowered, hlowered, rfl⟩ := Option.map_eq_some_iff.mp h
  have hlow := lowerStamp_toNat hlowered
  have hdate := decodeStamps_toNat ta lowered.2
  -- the 16 bits that are decoded are those of the residual
  have hbits : (lowered.2.toNat : Int) = residual ta tb taCompare tbCompare % 65536 := by
    have hmod : ((tb.toNat : Int) - tbCompare.toNat - 1024 * max 0 ((ta.toNat : Int) - taCompare.toNat)).bmod 65536 %
        65536 = ((tb.toNat : Int) - tbCompare.toNat - 1024 * max 0 ((ta.toNat : Int) - taCompare.toNat)) % 65536 :=
      Int.bmod_emod
    have hcompare := tbCompare.toNat_lt
    rw [hlow, residual, hmod, UInt16.toNat_sub]
    omega
  have hsigned : -32768 ≤ residual ta tb taCompare tbCompare ∧ residual ta tb taCompare tbCompare < 32768 := by
    exact ⟨Int.le_bmod (by decide), Int.bmod_lt (by decide)⟩
  rw [UInt32.le_iff_toNat_le, stampDate, hmax]
  split_ifs at hdate ⊢ <;> omega

/-- Timer B is 50 ticks past its update. -/
theorem stampsToNow_date_past : ∃ now, rtimerStampsToNow 2 5 100 5 50 (1 : Rat) = some now ∧
    (now.toNat : Int) = stampDate 5 (residual 5 100 5 50) ∧ now ≤ fineMax := by
  have hone : ∀ x : UInt16, SoftDouble.toU16 (SoftDouble.mul (SoftDouble.ofNat x.toNat) (SoftDouble.ofNat 1 : Rat)) = x := by
    intro x
    change UInt16.ofNat ((x.toNat : Rat) * ((1 : Nat) : Rat)).floor.toNat = x
    rw [show ((1 : Nat) : Rat) = 1 from rfl, Rat.mul_one, show (x.toNat : Rat) = ((x.toNat : Int) : Rat) from rfl,
      Rat.floor_intCast, Int.toNat_natCast, UInt16.ofNat_toNat]
  have hnow : rtimerStampsToNow 2 5 100 5 50 (1 : Rat) = some 5170 := by decide +kernel
  exact ⟨5170, hnow, (stampsToNow_date_iff hone hnow).mpr (by decide)⟩

/-- Timer B is one tick behind its update: the result is one too large. It is two behind, at the wrap of timer A: the
    result is out of range. -/
theorem stampsToNow_date_behind :
    rtimerStampsToNow 2 5 1124 4 101 (1 : Rat) = some 5120 ∧ stampDate 5 (residual 5 1124 4 101) = 5119 ∧
    rtimerStampsToNow 64 0 1023 0 1025 (1 : Rat) = some 4294967295 ∧ ¬ (4294967295 : UInt32) ≤ fineMax := by
  decide +kernel

end CSync
