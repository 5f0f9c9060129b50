import CSync.Tsch.Schedule
import Mathlib.Data.Nat.ModEq

/-! Arithmetic on absolute slot numbers (`tsch-asn.h`).

    The modulo is split, and its parts are multiplied and added in the type that 16-bit values are promoted to. Where
    `int` has 16 bits that type has no room for the product or for the sum. -/

namespace CSync.TschSchedule

/-- The 40 bits of an ASN. -/
def Asn.value (asn : Asn) : Nat := asn.ms1b.toNat * 2 ^ 32 + asn.ls4b.toNat

def asnDec (asn : Asn) (dec : Nat) : Asn :=
  let new := asn.ls4b - UInt32.ofNat dec
  ⟨new, if asn.ls4b < new then asn.ms1b - 1 else asn.ms1b⟩

/-- `TSCH_ASN_MOD`, where `int` has so many bits. A 16-bit operand becomes an `int`, or unsigned where that is no
    wider. -/
def asnModWord (intBits : Nat) (asn : Asn) (div : AsnDivisor) : Nat :=
  (asn.ls4b.toNat % div.val % 2 ^ 16 + asn.ms1b.toNat * div.asnMs1bRemainder % 2 ^ intBits % div.val % 2 ^ 16)
    % 2 ^ intBits % div.val

def hoppingSequenceMaxLen : Nat := 16

/-- `tsch_calculate_channel`; `tsch_hopping_sequence_length` is set up for the length of the sequence. -/
def calculateChannel (intBits : Nat) (hoppingSequence : List UInt8) (asn : Asn) (channelOffset : UInt8) :
    Option UInt8 :=
  (asnDivisorInit hoppingSequence.length).bind fun length =>
    let indexOf0 := asnModWord intBits asn length % 2 ^ 16
    let indexOfOffset := (indexOf0 + channelOffset.toNat) % 2 ^ intBits % length.val
    hoppingSequence[indexOfOffset]?

variable (asn : Asn)

theorem value_asnInc (inc : UInt32) : (asnInc asn inc.toNat).value = (asn.value + inc.toNat) % 2 ^ 40 := by
  have hl := asn.ls4b.toNat_lt
  have hm := asn.ms1b.toNat_lt
  have hi := inc.toNat_lt
  have hnew : (asn.ls4b + UInt32.ofNat inc.toNat).toNat = (asn.ls4b.toNat + inc.toNat) % 2 ^ 32 := by
    rw [UInt32.ofNat_toNat, UInt32.toNat_add]
  simp only [asnInc, Asn.value, hnew]
  split
  next hlt =>
    rw [UInt32.lt_iff_toNat_lt, hnew] at hlt
    rw [UInt8.toNat_add, UInt8.toNat_one]
    omega
  next hle =>
    rw [UInt32.lt_iff_toNat_lt, hnew] at hle
    omega

theorem value_asnDec (dec : UInt32) : (asnDec asn dec.toNat).value = (asn.value + 2 ^ 40 - dec.toNat) % 2 ^ 40 := by
  have hl := asn.ls4b.toNat_lt
  have hm := asn.ms1b.toNat_lt
  have hd := dec.toNat_lt
  have hnew : (asn.ls4b - UInt32.ofNat dec.toNat).toNat = (2 ^ 32 - dec.toNat + asn.ls4b.toNat) % 2 ^ 32 := by
    rw [UInt32.ofNat_toNat, UInt32.toNat_sub]
  simp only [asnDec, Asn.value, hnew]
  split
  next hlt =>
    rw [UInt32.lt_iff_toNat_lt, hnew] at hlt
    rw [UInt8.toNat_sub, UInt8.toNat_one]
    omega
  next hle =>
    rw [UInt32.lt_iff_toNat_lt, hnew] at hle
    omega

/-! ### The modulo -/

def highProduct (v : Nat) : Nat := asn.ms1b.toNat * (2 ^ 32 % v)

/-- What the product and the sum lose where `int` has 16 bits. -/
def lost (v : Nat) : Nat :=
  2 ^ 16 * (highProduct asn v / 2 ^ 16 + (asn.ls4b.toNat % v + highProduct asn v % 2 ^ 16 % v) / 2 ^ 16)

variable {asn} {v : Nat} {div : AsnDivisor}

theorem asnDivisorInit_eq (h : asnDivisorInit v = some div) : 0 < v ∧ div = ⟨v, 2 ^ 32 % v⟩ := by
  rw [asnDivisorInit] at h
  split at h
  · contradiction
  next hv =>
    refine ⟨Nat.pos_of_ne_zero hv, ?_⟩
    have hrem : (0xffffffff % v + 1) % v = 2 ^ 32 % v := Nat.mod_add_mod 0xffffffff v 1
    rw [← Option.some.inj h, hrem]

theorem asnModWord_eq (intBits : Nat) (asn : Asn) (v : Nat) : asnModWord intBits asn ⟨v, 2 ^ 32 % v⟩ =
    (asn.ls4b.toNat % v % 2 ^ 16 + highProduct asn v % 2 ^ intBits % v % 2 ^ 16) % 2 ^ intBits % v := rfl

theorem value_mod (asn : Asn) (v : Nat) : asn.value % v = (asn.ls4b.toNat % v + highProduct asn v) % v := by
  have hhigh : highProduct asn v ≡ asn.ms1b.toNat * 2 ^ 32 [MOD v] := (Nat.mod_modEq _ _).mul_left _
  rw [Asn.value, add_comm]
  exact ((Nat.mod_modEq _ _).add hhigh).symm

/-- Where `int` has 32 bits nothing is lost. -/
theorem asnModWord_32 (hv : v < 2 ^ 16) (h : asnDivisorInit v = some div) : asnModWord 32 asn div = asn.value % v := by
  obtain ⟨hpos, rfl⟩ := asnDivisorInit_eq h
  have hl := Nat.mod_lt asn.ls4b.toNat hpos
  have hp := Nat.mod_lt (highProduct asn v) hpos
  have hprod : highProduct asn v < 2 ^ 32 := by
    have hrem := Nat.mod_lt (2 ^ 32) hpos
    have hm := asn.ms1b.toNat_lt
    calc highProduct asn v ≤ 2 ^ 8 * 2 ^ 16 := Nat.mul_le_mul hm.le (by omega)
      _ < 2 ^ 32 := by decide
  rw [value_mod, asnModWord_eq, Nat.mod_eq_of_lt hprod, Nat.mod_eq_of_lt (by omega : asn.ls4b.toNat % v < 2 ^ 16),
    Nat.mod_eq_of_lt (by omega : highProduct asn v % v < 2 ^ 16), 
    Nat.mod_eq_of_lt (by omega : asn.ls4b.toNat % v + highProduct asn v % v < 2 ^ 32), Nat.add_mod_mod]

theorem asnModWord_16 (hv : v < 2 ^ 16) (h : asnDivisorInit v = some div) :
    asnModWord 16 asn div = asn.value % v ↔ v ∣ lost asn v := by
  obtain ⟨hpos, rfl⟩ := asnDivisorInit_eq h
  have hl := Nat.mod_lt asn.ls4b.toNat hpos
  have hp := Nat.mod_lt (highProduct asn v % 2 ^ 16) hpos
  -- the sum that is left, beside the sum that should be
  have hsplit : asn.ls4b.toNat % v + highProduct asn v ≡
      (asn.ls4b.toNat % v + highProduct asn v % 2 ^ 16 % v) % 2 ^ 16 + lost asn v [MOD v] := by
    have hproduct : highProduct asn v = highProduct asn v % 2 ^ 16 + 2 ^ 16 * (highProduct asn v / 2 ^ 16) :=
      (Nat.mod_add_div _ _).symm
    calc asn.ls4b.toNat % v + highProduct asn v
        = asn.ls4b.toNat % v + (highProduct asn v % 2 ^ 16 + 2 ^ 16 * (highProduct asn v / 2 ^ 16)) := by
          rw [← hproduct]
      _ ≡ asn.ls4b.toNat % v + (highProduct asn v % 2 ^ 16 % v + 2 ^ 16 * (highProduct asn v / 2 ^ 16)) [MOD v] :=
          ((Nat.mod_modEq _ _).symm.add_right _).add_left _
      _ = _ := by rw [lost]; omega
  have hword : asnModWord 16 asn ⟨v, 2 ^ 32 % v⟩ =
      (asn.ls4b.toNat % v + highProduct asn v % 2 ^ 16 % v) % 2 ^ 16 % v := by
    rw [asnModWord_eq, Nat.mod_eq_of_lt (by omega : asn.ls4b.toNat % v < 2 ^ 16),
      Nat.mod_eq_of_lt (by omega : highProduct asn v % 2 ^ 16 % v < 2 ^ 16)]
  rw [value_mod, hword, hsplit]
  constructor
  · intro h
    have hcancel : 0 ≡ lost asn v [MOD v] := Nat.ModEq.add_left_cancel' _ h
    exact Nat.modEq_zero_iff_dvd.1 hcancel.symm
  · intro h
    exact (Nat.modEq_zero_iff_dvd.2 h).symm.add_left _

/-- A short divisor loses nothing. -/
theorem lost_eq_zero (hpos : 0 < v) (hv : v ≤ hoppingSequenceMaxLen) : lost asn v = 0 := by
  have hm := asn.ms1b.toNat_lt
  have hl := Nat.mod_lt asn.ls4b.toNat hpos
  have hp := Nat.mod_lt (highProduct asn v % 2 ^ 16) hpos
  rw [hoppingSequenceMaxLen] at hv
  have hproduct : highProduct asn v < 2 ^ 16 := by
    have hrem := Nat.mod_lt (2 ^ 32) hpos
    calc highProduct asn v ≤ 2 ^ 8 * 16 := Nat.mul_le_mul hm.le (by omega)
      _ < 2 ^ 16 := by decide
  rw [lost, Nat.div_eq_of_lt hproduct, Nat.div_eq_of_lt (by omega), add_zero, mul_zero]

/-! ### What the macros promise -/

/-- The modulo, increments and decrements of an ASN, and the channel, which depends on its value alone. -/
structure AsnArithmetic (asn : Asn) (v : UInt16) (inc : UInt32) : Prop where
  mod : ∀ intBits ∈ [16, 32], ∀ div, asnDivisorInit v.toNat = some div →
    asnModWord intBits asn div = asn.value % v.toNat
  add : (asnInc asn inc.toNat).value = (asn.value + inc.toNat) % 2 ^ 40
  sub : (asnDec asn inc.toNat).value = (asn.value + 2 ^ 40 - inc.toNat) % 2 ^ 40
  channel : ∀ intBits ∈ [16, 32], ∀ seq : List UInt8, seq ≠ [] → seq.length ≤ hoppingSequenceMaxLen →
    ∀ channelOffset : UInt8,
    calculateChannel intBits seq asn channelOffset = seq[(asn.value + channelOffset.toNat) % seq.length]?

theorem calculateChannel_eq (asn : Asn) (channelOffset : UInt8) {seq : List UInt8} (hseq : seq ≠ [])
    (hlen : seq.length ≤ hoppingSequenceMaxLen) : ∀ intBits ∈ [16, 32],
    calculateChannel intBits seq asn channelOffset = seq[(asn.value + channelOffset.toNat) % seq.length]? := by
  intro intBits hbits
  have hpos : 0 < seq.length := List.length_pos_iff.2 hseq
  obtain ⟨div, hdiv⟩ : ∃ div, asnDivisorInit seq.length = some div := ⟨_, if_neg (by omega)⟩
  have hmax : seq.length < 2 ^ 16 := lt_of_le_of_lt hlen (by decide)
  have hoff := channelOffset.toNat_lt
  have hmod : asnModWord intBits asn div = asn.value % seq.length := by
    rcases List.mem_pair.1 hbits with rfl | rfl
    · rw [asnModWord_16 hmax hdiv, lost_eq_zero hpos hlen]
      exact Nat.dvd_zero _
    · exact asnModWord_32 hmax hdiv
  have hlt := Nat.mod_lt asn.value hpos
  have hwide : 2 ^ 16 ≤ 2 ^ intBits := by
    rcases List.mem_pair.1 hbits with rfl | rfl <;> decide
  rw [hoppingSequenceMaxLen] at hlen
  rw [calculateChannel, hdiv, Option.bind_some]
  dsimp only
  rw [hmod, (asnDivisorInit_eq hdiv).2, Nat.mod_eq_of_lt (by omega : asn.value % seq.length < 2 ^ 16),
    Nat.mod_eq_of_lt (by omega : asn.value % seq.length + channelOffset.toNat < 2 ^ intBits), Nat.mod_add_mod]

/-- EXACT: all of it holds if what 16 bits lose is a multiple of the slotframe size. -/
theorem asnArithmetic_iff (asn : Asn) (v : UInt16) (inc : UInt32) (hv : v ≠ 0) :
    AsnArithmetic asn v inc ↔ v.toNat ∣ lost asn v.toNat := by
  obtain ⟨div, hdiv⟩ : ∃ div, asnDivisorInit v.toNat = some div := ⟨_, if_neg fun h => hv (UInt16.toNat_inj.1 h)⟩
  constructor
  · intro h
    exact (asnModWord_16 v.toNat_lt hdiv).1 (h.mod 16 (by decide) div hdiv)
  · intro h
    refine ⟨fun intBits hbits div hdiv => ?_, value_asnInc asn inc, value_asnDec asn inc,
      fun intBits hbits seq hseq hlen channelOffset => calculateChannel_eq asn channelOffset hseq hlen intBits hbits⟩
    rcases List.mem_pair.1 hbits with rfl | rfl
    · exact (asnModWord_16 v.toNat_lt hdiv).2 h
    · exact asnModWord_32 v.toNat_lt hdiv

/-- An ASN above 2^32 in a slotframe of 101 slots. -/
theorem asnArithmetic_minimal : AsnArithmetic ⟨65520, 1⟩ 101 7 :=
  (asnArithmetic_iff ⟨65520, 1⟩ 101 7 (by decide)).2 (by decide)

/-- A sum that 16 bits have no room for. -/
theorem asnArithmetic_longSlotframe : ¬ AsnArithmetic ⟨65520, 1⟩ 65521 1 := by
  intro h
  have := h.mod 16 (by decide) ⟨65521, 225⟩ (by decide)
  revert this
  decide

end CSync.TschSchedule
