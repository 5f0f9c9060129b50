import CSync.Node.Gtsp
import CSync.Rtimer.Offset

/-! The differences that `gtsp_recv` stores.

    On one scale the coarse part of a date counts `RTIMER_FINE_MAX`. The two stored differences are how far the own
    clock is ahead on this scale, except where the neighbour is just past a roll-over of the fine part: there the fine
    difference has the sign of the neighbour's lead. -/

namespace CSync

variable {R : Type} [SoftDouble R]

/-- The logical date of the sender, after the time that the packet took. -/
def senderDate (tm : RtimerState R) (relativeRate : R) (rx : Reception R) : UInt32 × UInt32 :=
  let one : R := SoftDouble.ofNat 1
  let sendDelta : UInt16 := SoftDouble.toU16 (SoftDouble.mul
    (SoftDouble.mul (SoftDouble.ofNat (getLgDeltaMacNetw rx.tb rx.hwMacTimestamp).toNat)
      rx.clockRate) (SoftDouble.add rx.avgRate one))
  let recvDelta : UInt16 := SoftDouble.toU16 (SoftDouble.mul
    (SoftDouble.mul (SoftDouble.ofNat (getLgDeltaMacNetw rx.timestamp rx.myTb).toNat)
      rx.myClockRate) (SoftDouble.add relativeRate one))
  let deltaTransmission : UInt16 := SoftDouble.toU16 (SoftDouble.div
    (SoftDouble.mul (SoftDouble.ofNat 3) (SoftDouble.add one relativeRate))
    (SoftDouble.add one tm.avgRate))
  rtimerHwdateToLgdate rx.coarseNow rx.fineNow
    (rx.fineOffset + sendDelta.toUInt32 + recvDelta.toUInt32 + deltaTransmission.toUInt32)

/-- The neighbour's logical date; a new neighbour has no relative rate yet. -/
def neighbourDate (tm : RtimerState R) (n : Neighbour R) (rx : Reception R) (newNeighbour : Bool) : UInt32 × UInt32 :=
  senderDate tm (if newNeighbour then SoftDouble.ofNat 0 else n.relativeRate) rx

/-- The differences that are stored, from the two dates. -/
theorem gtspRecv_diffs (tm : RtimerState R) (n : Neighbour R) (rx : Reception R) (newNeighbour : Bool) :
    ((gtspRecv tm n rx newNeighbour).1.coarseDiff, (gtspRecv tm n rx newNeighbour).1.fineDiff) =
      clockDiff (ownDate tm).1 (ownDate tm).2 (neighbourDate tm n rx newNeighbour).1
        (neighbourDate tm n rx newNeighbour).2 := by
  cases newNeighbour <;> (dsimp only [gtspRecv, ownDate, neighbourDate, senderDate]; rfl)

/-- The differences tell how far `my` is ahead of `other`, and around a roll-over the fine one has the sign of it. -/
structure Tells (d : Int32 × Int32) (my other : Int) : Prop where
  law : d.1.toInt * fineMax.toNat + d.2.toInt = my - other
  sign : d.1 = 0 → d.2.toInt.sign = (my - other).sign

theorem Tells.of_law {d : Int32 × Int32} {my other : Int}
    (h : d.1.toInt * fineMax.toNat + d.2.toInt = my - other) : Tells d my other := by
  refine ⟨h, fun hzero => ?_⟩
  rw [hzero, Int32.toInt_zero, Int.zero_mul, Int.zero_add] at h
  rw [h]

/-- The neighbour is just past a roll-over, and the own clock just before it. -/
def JustPast (my n : UInt32 × UInt32) : Prop :=
  (my.1.toNat : Int) - n.1.toNat = -1 ∧ fineMax - 1000 < my.2 ∧ n.2 < 1000

/-- The three branches: what they store where the dates are `my` and `n`. -/
theorem clockDiff_cases {my n : UInt32 × UInt32} (hmy : my.2 ≤ fineMax) (hn : n.2 ≤ fineMax)
    (hlo : -2 ^ 31 ≤ (my.1.toNat : Int) - n.1.toNat) (hhi : (my.1.toNat : Int) - n.1.toNat < 2 ^ 31) :
    (JustPast my n →
       (clockDiff my.1 my.2 n.1 n.2).1 = 0 ∧
       (clockDiff my.1 my.2 n.1 n.2).2.toInt = scaled n.1 n.2 - scaled my.1 my.2) ∧
    (¬ JustPast my n →
       (clockDiff my.1 my.2 n.1 n.2).1.toInt * fineMax.toNat + (clockDiff my.1 my.2 n.1 n.2).2.toInt =
         scaled my.1 my.2 - scaled n.1 n.2) := by
  have hmax : fineMax.toNat = 67108863 := rfl
  have hcoarse := Lib.toInt_sub_toInt32 hlo hhi
  rw [UInt32.le_iff_toNat_le] at hmy hn
  have hminus : (my.1.toInt32 - n.1.toInt32 == -1) = true ↔ (my.1.toNat : Int) - n.1.toNat = -1 := by
    rw [beq_iff_eq, ← Int32.toInt_inj, hcoarse]
    rfl
  have hone : (my.1.toInt32 - n.1.toInt32 == 1) = true ↔ (my.1.toNat : Int) - n.1.toNat = 1 := by
    rw [beq_iff_eq, ← Int32.toInt_inj, hcoarse]
    rfl
  have hround : ∀ a b : UInt32, a.toNat ≤ fineMax.toNat → b.toNat < 1000 → fineMax - 1000 < a →
      (fineMax - a + b).toInt32.toInt = fineMax.toNat - a.toNat + b.toNat := by
    intro a b ha hb hnear
    have hsub : (fineMax - a).toNat = fineMax.toNat - a.toNat := UInt32.toNat_sub_of_le _ _ (UInt32.le_iff_toNat_le.mpr ha)
    have hsum : (fineMax - a + b).toNat = fineMax.toNat - a.toNat + b.toNat := by
      rw [UInt32.toNat_add, hsub, Nat.mod_eq_of_lt (by omega)]
    rw [Lib.toInt_of_small (by omega), hsum]
    omega
  have hlt : ∀ a : UInt32, a < 1000 ↔ a.toNat < 1000 := fun a => UInt32.lt_iff_toNat_lt
  rw [JustPast, scaled, scaled, clockDiff]
  simp only [Bool.and_eq_true, decide_eq_true_eq, hminus, hone]
  constructor
  · rintro ⟨hc, hnear, hsmall⟩
    rw [if_pos ⟨⟨hc, hnear⟩, hsmall⟩]
    refine ⟨rfl, ?_⟩
    rw [hround _ _ hmy ((hlt _).mp hsmall) hnear, hmax]
    omega
  · intro hno
    rw [if_neg fun h => hno ⟨h.1.1, h.1.2, h.2⟩]
    split
    next hroll =>
      obtain ⟨⟨hc, hsmall⟩, hnear⟩ := hroll
      rw [hround _ _ hn ((hlt _).mp hsmall) hnear, Int32.toInt_zero, hmax]
      omega
    · rw [hcoarse, Lib.toInt_sub_toInt32 (by omega) (by omega), hmax]
      omega

/-- The stored differences of a reception tell how far the clocks are apart. -/
def TellsAt (tm : RtimerState R) (n : Neighbour R) (rx : Reception R) (newNeighbour : Bool) : Prop :=
  let my := ownDate tm
  let other := neighbourDate tm n rx newNeighbour
  let r := (gtspRecv tm n rx newNeighbour).1
  Tells (r.coarseDiff, r.fineDiff) (scaled my.1 my.2) (scaled other.1 other.2)

/-- The stored differences are right except where the neighbour, and not the own clock, is just past a
    roll-over. There they are right only for dates that are the same on the scale. -/
theorem gtspRecv_tells (tm : RtimerState R) (n : Neighbour R) (rx : Reception R) (newNeighbour : Bool)
    (hmy : (ownDate tm).2 ≤ fineMax) (hn : (neighbourDate tm n rx newNeighbour).2 ≤ fineMax)
    (hlo : -2 ^ 31 ≤ ((ownDate tm).1.toNat : Int) - (neighbourDate tm n rx newNeighbour).1.toNat)
    (hhi : ((ownDate tm).1.toNat : Int) - (neighbourDate tm n rx newNeighbour).1.toNat < 2 ^ 31) :
    TellsAt tm n rx newNeighbour ↔
      ¬ (JustPast (ownDate tm) (neighbourDate tm n rx newNeighbour) ∧
         ((ownDate tm).2 ≠ fineMax ∨ (neighbourDate tm n rx newNeighbour).2 ≠ 0)) := by
  obtain ⟨hpast, hother⟩ := clockDiff_cases hmy hn hlo hhi
  rw [TellsAt, gtspRecv_diffs]
  generalize ownDate tm = my at *
  generalize neighbourDate tm n rx newNeighbour = date at *
  by_cases hj : JustPast my date
  · obtain ⟨hzero, hfine⟩ := hpast hj
    have hsame : scaled my.1 my.2 = scaled date.1 date.2 ↔ my.2 = fineMax ∧ date.2 = 0 := by
      have hmax : fineMax.toNat = 67108863 := rfl
      have hc := hj.1
      rw [UInt32.le_iff_toNat_le] at hmy
      rw [scaled, scaled, ← UInt32.toNat_inj, ← UInt32.toNat_inj, hmax, UInt32.toNat_zero]
      omega
    constructor
    · rintro ⟨hlaw, _⟩ ⟨_, hne⟩
      rw [hzero, hfine, Int32.toInt_zero] at hlaw
      have heq := hsame.mp (by omega)
      rcases hne with hne | hne
      · exact hne heq.1
      · exact hne heq.2
    · intro hno
      refine Tells.of_law ?_
      have heq : scaled my.1 my.2 = scaled date.1 date.2 := by
        refine hsame.mpr ⟨?_, ?_⟩
        · by_contra hne
          exact hno ⟨hj, .inl hne⟩
        · by_contra hne
          exact hno ⟨hj, .inr hne⟩
      rw [hzero, hfine, Int32.toInt_zero]
      omega
  · exact ⟨fun _ h => hj h.1, fun _ => Tells.of_law (hother hj)⟩

/-- The timers of a node whose hardware clock stands at the given time. -/
def timersAt (coarse fine : UInt32) : RtimerState Rat := { rtimerInit with coarseCount := coarse, hw := fun _ => fine }

/-- A neighbour that was never heard of. -/
def stranger : Neighbour Rat := ⟨1, 0, .cm, 0, false, false, 0, 0, 0, 0, 0, 0, 0⟩

/-- A packet that was sent at the given time, by a node whose offset is one roll-over. -/
def packetFrom (coarse fine : UInt32) : Reception Rat := ⟨1, 0, coarse, fine, fineMax, 1, 0, 0, 1, 0, 1, 1⟩

/-- Two clocks a second apart. -/
theorem gtspRecv_tells_apart : TellsAt (timersAt 5 1000) stranger (packetFrom 6 5) true :=
  (gtspRecv_tells (timersAt 5 1000) stranger (packetFrom 6 5) true (by decide +kernel) (by decide +kernel)
    (by decide +kernel) (by decide +kernel)).mpr fun h => absurd h.1.2.1 (by decide +kernel)

/-- The neighbour is 510 ahead, and the stored difference says that the own clock is. -/
theorem ahead_taken_for_behind :
    (ownDate (timersAt 5 67108363)).2 ≤ fineMax ∧
    (neighbourDate (timersAt 5 67108363) stranger (packetFrom 6 5) true).2 ≤ fineMax ∧
    ((gtspRecv (timersAt 5 67108363) stranger (packetFrom 6 5) true).1.fineDiff = 510) ∧
    ¬ TellsAt (timersAt 5 67108363) stranger (packetFrom 6 5) true := by
  refine ⟨by decide +kernel, by decide +kernel, by decide +kernel, fun h => ?_⟩
  have hsign := h.sign (by decide +kernel)
  exact absurd hsign (by decide +kernel)

end CSync
