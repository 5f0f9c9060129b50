import CSync.Rime.ChameleonBitopt

/-! What the bit-optimised headers carry.

    `setBits` writes a field and nothing else, and `getBits` reads one. Between them a value comes back unless it has
    whole bytes and a rest: the rest is written from the high bits of its byte, shifted once more by the position in
    the byte, and read as low bits. -/

namespace CSync.Chameleon

open Lib Function

variable {m r val : Nat → UInt8}

/-! ### A field is written -/

theorem toNat_or_byte (a : UInt8) (n : Nat) : (a ||| UInt8.ofNat n).toNat = a.toNat ||| n % 256 := by
  rw [UInt8.toNat_or, UInt8.toNat_ofNat']

variable {n i : Nat} {into : Nat → UInt8}

theorem bitAt_setBitsInByte (m : Nat → UInt8) (p : Nat) {bp v : Nat} (hbp : bp < 8) (hn : n ≤ 8) (hv : v < 2 ^ n)
    (i : Nat) : bitAt (setBitsInByte m p bp v n) i =
      (bitAt m i || decide (8 * p ≤ i ∧ i < 8 * p + bp + n) && v.testBit (bp + n - 1 - (i - 8 * p))) := by
  have hshift : v <<< (8 - bp + 8 - n) % 65536 = v <<< (8 - bp + 8 - n) := by
    refine Nat.mod_eq_of_lt ?_
    rw [Nat.shiftLeft_eq]
    calc v * 2 ^ (8 - bp + 8 - n) < 2 ^ n * 2 ^ (8 - bp + 8 - n) :=
          Nat.mul_lt_mul_of_pos_right hv (Nat.two_pow_pos _)
      _ = 2 ^ (n + (8 - bp + 8 - n)) := (pow_add ..).symm
      _ ≤ 2 ^ 16 := Nat.pow_le_pow_right (by decide) (by omega)
  rw [setBitsInByte, hshift, bitAt, bitAt]
  -- the bit is in the first byte, in the second, or elsewhere
  by_cases h0 : i / 8 = p
  · have hne : i / 8 ≠ p + 1 := by omega
    rw [update_of_ne hne, h0, update_self, toNat_or_byte, Nat.testBit_or]
    refine congrArg (or _) ?_
    rw [show (256 : Nat) = 2 ^ 8 from rfl, Nat.testBit_mod_two_pow, Nat.testBit_shiftRight, Nat.testBit_shiftLeft]
    by_cases hin : i < 8 * p + bp + n
    · have hix : 8 + (7 - i % 8) - (8 - bp + 8 - n) = bp + n - 1 - (i - 8 * p) := by omega
      rw [hix, decide_eq_true (by omega), decide_eq_true (by omega), decide_eq_true (by omega), Bool.true_and]
    · have hout : decide (8 + (7 - i % 8) ≥ 8 - bp + 8 - n) = false := decide_eq_false (by omega)
      have hin' : decide (8 * p ≤ i ∧ i < 8 * p + bp + n) = false := decide_eq_false (by omega)
      rw [hout, hin', Bool.false_and, Bool.and_false, Bool.false_and]
  · by_cases h1 : i / 8 = p + 1
    · rw [h1, update_self, update_of_ne (by omega), toNat_or_byte, Nat.testBit_or]
      refine congrArg (or _) ?_
      rw [show (0xff : Nat) = 2 ^ 8 - 1 from rfl, Nat.and_two_pow_sub_one_eq_mod, show (256 : Nat) = 2 ^ 8 from rfl,
        Nat.mod_mod, Nat.testBit_mod_two_pow, Nat.testBit_shiftLeft]
      by_cases hin : i < 8 * p + bp + n
      · have hix : 7 - i % 8 - (8 - bp + 8 - n) = bp + n - 1 - (i - 8 * p) := by omega
        rw [hix, decide_eq_true (by omega), decide_eq_true (by omega), decide_eq_true (by omega), Bool.true_and]
      · have hout : decide (7 - i % 8 ≥ 8 - bp + 8 - n) = false := decide_eq_false (by omega)
        have hin' : decide (8 * p ≤ i ∧ i < 8 * p + bp + n) = false := decide_eq_false (by omega)
        rw [hout, hin', Bool.false_and, Bool.and_false, Bool.false_and]
    · have hin : decide (8 * p ≤ i ∧ i < 8 * p + bp + n) = false := decide_eq_false (by omega)
      rw [update_of_ne h1, update_of_ne h0, hin, Bool.false_and, Bool.or_false]

theorem written_setBitsInByte {p bp v : Nat} (hbp : bp < 8) (hn : n ≤ 8) (hv : v < 2 ^ n) (hclear : ClearFrom m (8 * p
    + bp) n) : Written m (setBitsInByte m p bp v n) (8 * p + bp) n fun t => v.testBit (n - 1 - t) := by
  intro i
  rw [bitAt_setBitsInByte m p hbp hn hv i]
  by_cases hin : 8 * p + bp ≤ i ∧ i < 8 * p + bp + n
  · have hix : bp + n - 1 - (i - 8 * p) = n - 1 - (i - (8 * p + bp)) := by omega
    rw [if_pos hin, hclear i hin.1 hin.2, Bool.false_or, decide_eq_true (by omega), Bool.true_and, hix]
  · rw [if_neg hin]
    by_cases hlo : 8 * p ≤ i ∧ i < 8 * p + bp + n
    · -- in front of the field the value has no bits
      have hbit : v.testBit (bp + n - 1 - (i - 8 * p)) = false :=
        Nat.testBit_lt_two_pow (lt_of_lt_of_le hv (Nat.pow_le_pow_right (by decide) (by omega)))
      rw [hbit, Bool.and_false, Bool.or_false]
    · rw [decide_eq_false hlo, Bool.false_and, Bool.or_false]

theorem written_setWhole {p bp : Nat} (hbp : bp < 8) (n : Nat) (hclear : ClearFrom m (8 * p + bp) (8 * n)) :
    Written m (setWhole m p bp val n) (8 * p + bp) (8 * n) fun t => (val (t / 8)).toNat.testBit (7 - t % 8) := by
  induction n with
  | zero => exact written_nil m _ _
  | succ n ih =>
    have hstart : ClearFrom m (8 * p + bp) (8 * n) := fun i hlo hhi => hclear i hlo (by omega)
    have hrest : ClearFrom m (8 * p + bp + 8 * n) 8 := fun i hlo hhi => hclear i (by omega) (by omega)
    have hwhole := ih hstart
    have hnext : Written (setWhole m p bp val n) (setWhole m p bp val (n + 1)) (8 * p + bp + 8 * n) 8
        fun t => (val n).toNat.testBit (7 - t) := by
      have hplace : 8 * p + bp + 8 * n = 8 * (p + n) + bp := by omega
      have hclear' := hwhole.clear le_rfl hrest
      rw [hplace] at hclear' ⊢
      rw [setWhole]
      by_cases h0 : bp = 0
      · subst h0
        exact written_update _ _ _
      · rw [if_neg h0]
        exact written_setBitsInByte hbp (le_refl 8) (val n).toNat_lt hclear'
    refine (hwhole.append hnext).congr fun t ht => ?_
    by_cases hlt : t < 8 * n
    · rw [if_pos hlt]
    · have hdiv : t / 8 = n := by omega
      have hmod : t % 8 = t - 8 * n := by omega
      rw [if_neg hlt, hdiv, hmod]

/-- The rest of a value: it is written from the start of its byte on, but its first bits are zero, so that nothing in
    front of the field is touched. -/
theorem written_rest {p bp bits : Nat} (b : UInt8) (hbits : 0 < bits) (hbits' : bits < 8)
    (hclear : ClearFrom m (8 * p + bp) bits) :
    Written m (setBitsInByte m p 0 (b.toNat >>> (8 - bits + bp)) bits) (8 * p + bp) bits fun s => decide
      (bp + s < bits) && b.toNat.testBit (7 - s) := by
  have hsmall : b.toNat >>> (8 - bits + bp) < 2 ^ bits := by
    rw [Nat.shiftRight_eq_div_pow, Nat.div_lt_iff_lt_mul (Nat.two_pow_pos _), ← pow_add]
    exact lt_of_lt_of_le b.toNat_lt (Nat.pow_le_pow_right (by decide) (by omega))
  intro i
  rw [bitAt_setBitsInByte m p (by decide) (by omega) hsmall i, Nat.testBit_shiftRight]
  by_cases hin : 8 * p + bp ≤ i ∧ i < 8 * p + bp + bits
  · rw [if_pos hin, hclear i hin.1 hin.2, Bool.false_or]
    dsimp only
    by_cases hhi : i < 8 * p + 0 + bits
    · have hix : 8 - bits + bp + (0 + bits - 1 - (i - 8 * p)) = 7 - (i - (8 * p + bp)) := by omega
      rw [hix, decide_eq_true ⟨by omega, hhi⟩, decide_eq_true (by omega)]
    · rw [decide_eq_false (fun h => hhi h.2), decide_eq_false (by omega), Bool.false_and, Bool.false_and]
  · rw [if_neg hin]
    by_cases hlo : 8 * p ≤ i ∧ i < 8 * p + 0 + bits
    · have hbit : b.toNat.testBit (8 - bits + bp + (0 + bits - 1 - (i - 8 * p))) = false := testBit_byte _ (by omega)
      rw [hbit, Bool.and_false, Bool.or_false]
    · rw [decide_eq_false hlo, Bool.false_and, Bool.or_false]

/-- The bits that `set_bits` writes for a value. -/
def fieldBits (val : Nat → UInt8) (bp len t : Nat) : Bool :=
  if len < 8 then (val 0).toNat.testBit (len - 1 - t)
  else decide (t < 8 * (len / 8) ∨ bp + t % 8 < len % 8) && (val (t / 8)).toNat.testBit (7 - t % 8)

variable {p bp len : Nat}

theorem written_setBits (hbp : bp < 8) (hval : len < 8 → (val 0).toNat < 2 ^ len) (hclear : ClearFrom
    m (8 * p + bp) len) : Written m (setBits m p bp val len) (8 * p + bp) len (fieldBits val bp len) := by
  rw [setBits]
  by_cases hshort : len < 8
  · rw [if_pos hshort]
    refine (written_setBitsInByte hbp (by omega) (hval hshort) hclear).congr fun t _ => ?_
    rw [fieldBits, if_pos hshort]
  rw [if_neg hshort]
  have hwhole : Written m (setWhole m p bp val (len / 8)) (8 * p + bp) (8 * (len / 8))
      fun t => (val (t / 8)).toNat.testBit (7 - t % 8) :=
    written_setWhole hbp (len / 8) fun i hlo hhi => hclear i hlo (by omega)
  by_cases hbits : len % 8 = 0
  · rw [if_pos hbits]
    have hlen : 8 * (len / 8) = len := by omega
    rw [hlen] at hwhole
    refine hwhole.congr fun t ht => ?_
    rw [fieldBits, if_neg hshort, decide_eq_true (.inl (by omega)), Bool.true_and]
  rw [if_neg hbits]
  have hplace : 8 * p + bp + 8 * (len / 8) = 8 * (p + len / 8) + bp := by omega
  have hrest : ClearFrom m (8 * p + bp + 8 * (len / 8)) (len % 8) := fun i hlo hhi => hclear i (by omega) (by omega)
  have hclear' := hwhole.clear le_rfl hrest
  rw [hplace] at hclear'
  have hall := hwhole.append (hplace ▸ written_rest (val (len / 8)) (Nat.pos_of_ne_zero hbits) (by omega) hclear')
  have hlen : 8 * (len / 8) + len % 8 = len := by omega
  rw [hlen] at hall
  have hboth : (if bp = 0 then setBitsInByte (setWhole m p bp val (len / 8)) (p + len / 8) 0
        ((val (len / 8)).toNat >>> (8 - len % 8)) (len % 8)
      else setBitsInByte (setWhole m p bp val (len / 8)) (p + len / 8) 0
        ((val (len / 8)).toNat >>> (8 - len % 8 + bp)) (len % 8)) =
      setBitsInByte (setWhole m p bp val (len / 8)) (p + len / 8) 0
        ((val (len / 8)).toNat >>> (8 - len % 8 + bp)) (len % 8) := by
    by_cases h0 : bp = 0
    · rw [if_pos h0, h0, add_zero]
    · rw [if_neg h0]
  rw [hboth]
  refine hall.congr fun t ht => ?_
  rw [fieldBits, if_neg hshort]
  by_cases hlt : t < 8 * (len / 8)
  · rw [if_pos hlt, decide_eq_true (.inl hlt), Bool.true_and]
  · have hdiv : t / 8 = len / 8 := by omega
    have hmod : t % 8 = t - 8 * (len / 8) := by omega
    rw [if_neg hlt, hdiv, hmod]
    refine congrArg (· && _) (decide_eq_decide.mpr ?_)
    omega

/-! ### A field is read -/

theorem testBit_bitmask : ∀ n ≤ 8, ∀ k < 8, (bitmask.getD n 0).testBit k = decide (8 - n ≤ k) := by decide

theorem testBit_getBitsInByte (m : Nat → UInt8) (p : Nat) {bp : Nat} (hbp : bp < 8) (hn : n ≤ 8) (j : Nat) :
    (getBitsInByte m p bp n).toNat.testBit j = (decide (j < n) && bitAt m (8 * p + (bp + n - 1 - j))) := by
  by_cases hj : j < 8
  · rw [getBitsInByte]
    rw [UInt8.toNat_ofNat', Nat.testBit_mod_two_pow, decide_eq_true hj, Bool.true_and, Nat.testBit_shiftRight,
      Nat.testBit_and, Nat.testBit_shiftRight, show (65536 : Nat) = 2 ^ 16 from rfl, Nat.testBit_mod_two_pow,
      Nat.testBit_shiftLeft, Nat.testBit_or, Nat.testBit_shiftLeft]
    by_cases hjn : j < n
    · have hmask := testBit_bitmask n hn (8 - n + j) (by omega)
      rw [decide_eq_true (Nat.le_add_right ..)] at hmask
      rw [hmask, decide_eq_true hjn, decide_eq_true (by omega), decide_eq_true (by omega), Bool.true_and, Bool.true_and,
        Bool.true_and, Bool.and_true]
      by_cases hfirst : bp + n - 1 - j < 8
      · have hix : 8 + (8 - n + j) - bp - 8 = 7 - (bp + n - 1 - j) := by omega
        have hnext : (m (p + 1)).toNat.testBit (8 + (8 - n + j) - bp) = false := testBit_byte _ (by omega)
        rw [hnext, Bool.or_false, decide_eq_true (by omega), Bool.true_and, bitAt_byte m p hfirst, hix]
      · have hplace : 8 * p + (bp + n - 1 - j) = 8 * (p + 1) + (bp + n - 1 - j - 8) := by omega
        have hix : 8 + (8 - n + j) - bp = 7 - (bp + n - 1 - j - 8) := by omega
        rw [decide_eq_false (by omega), Bool.false_and, Bool.false_or, hplace, bitAt_byte m (p + 1) (by omega), hix]
    · rw [decide_eq_false hjn, Bool.false_and]
      by_cases hk : 8 - n + j < 8
      · omega
      · have hwide : (bitmask.getD n 0).testBit (8 - n + j) = false := by
          have hbyte : bitmask.getD n 0 < 2 ^ 8 := by
            have : ∀ n ≤ 8, bitmask.getD n 0 < 2 ^ 8 := by decide
            exact this n hn
          exact Nat.testBit_lt_two_pow (lt_of_lt_of_le hbyte (Nat.pow_le_pow_right (by decide) (by omega)))
        rw [hwide, Bool.and_false]
  · rw [testBit_byte _ (by omega), decide_eq_false (by omega), Bool.false_and]

theorem testBit_getWhole (m : Nat → UInt8) (p : Nat) {bp j : Nat} (hbp : bp < 8) (hj : j < 8) :
    (if bp = 0 then m p else getBitsInByte m p bp 8).toNat.testBit j = bitAt m (8 * p + (bp + 7 - j)) := by
  by_cases h0 : bp = 0
  · rw [if_pos h0, h0, zero_add, bitAt_byte m p (by omega)]
    have hix : 7 - (7 - j) = j := by omega
    rw [hix]
  · rw [if_neg h0, testBit_getBitsInByte m p hbp (le_refl 8) j, decide_eq_true hj, Bool.true_and]
    rfl

theorem testBit_getBits_short (hbp : bp < 8) (hlen : len < 8) (j : Nat) :
    (getBits into m p bp len 0).toNat.testBit j = (decide (j < len) && bitAt m (8 * p + (bp + len - 1 - j))) := by
  rw [getBits, if_pos hlen, update_self, testBit_getBitsInByte m p hbp (by omega)]

theorem testBit_getBits_whole {p bp len j : Nat} (hbp : bp < 8) (hi : i < len / 8) (hj : j < 8) :
    (getBits into m p bp len i).toNat.testBit j = bitAt m (8 * p + bp + (8 * i + (7 - j))) := by
  have hlen : ¬len < 8 := by omega
  have hplace : 8 * (p + i) + (bp + 7 - j) = 8 * p + bp + (8 * i + (7 - j)) := by omega
  have hbyte : getBits into m p bp len i = if bp = 0 then m (p + i) else getBitsInByte m (p + i) bp 8 := by
    rw [getBits, if_neg hlen]
    by_cases hbits : len % 8 = 0
    · rw [if_pos hbits, if_pos hi]
    · rw [if_neg hbits, update_of_ne (by omega), if_pos hi]
  rw [hbyte, testBit_getWhole m (p + i) hbp hj, hplace]

theorem testBit_getBits_rest (hbp : bp < 8) (hlen : 8 ≤ len) (hbits : len % 8 ≠ 0) (j : Nat) :
    (getBits into m p bp len (len / 8)).toNat.testBit j =
      (decide (j < len % 8) && bitAt m (8 * p + bp + (len - 1 - j))) := by
  rw [getBits, if_neg (by omega)]
  rw [if_neg hbits, update_self, testBit_getBitsInByte m _ hbp (by omega)]
  by_cases hj : j < len % 8
  · have hplace : 8 * (p + len / 8) + (bp + len % 8 - 1 - j) = 8 * p + bp + (len - 1 - j) := by omega
    rw [hplace]
  · rw [decide_eq_false hj, Bool.false_and, Bool.false_and]

/-- Bytes that a field does not have. -/
theorem getBits_outside (hlen : len ≤ 8 * i) (h0 : 0 < i) : getBits into m p bp len i = into i := by
  rw [getBits]
  by_cases hshort : len < 8
  · rw [if_pos hshort, update_of_ne (by omega)]
  · rw [if_neg hshort]
    by_cases hbits : len % 8 = 0
    · rw [if_pos hbits, if_neg (by omega)]
    · rw [if_neg hbits, update_of_ne (by omega), if_neg (by omega)]

theorem testBit_getBits_last (hbp : bp < 8) (hlen : 0 < len) :
    (getBits into m p bp len ((len - 1) / 8)).toNat.testBit 0 = bitAt m (8 * p + bp + (len - 1)) := by
  by_cases hshort : len < 8
  · have hbyte : (len - 1) / 8 = 0 := by omega
    have hplace : 8 * p + (bp + len - 1 - 0) = 8 * p + bp + (len - 1) := by omega
    rw [hbyte, testBit_getBits_short hbp hshort, decide_eq_true hlen, Bool.true_and, hplace]
  · by_cases hbits : len % 8 = 0
    · have hplace : 8 * ((len - 1) / 8) + (7 - 0) = len - 1 := by omega
      rw [testBit_getBits_whole hbp (by omega) (by decide), hplace]
    · have hbyte : (len - 1) / 8 = len / 8 := by omega
      rw [hbyte, testBit_getBits_rest hbp (by omega) hbits, decide_eq_true (by omega), Bool.true_and, Nat.sub_zero]

/-! ### One value -/

/-- The bits of a value stand in a buffer as `set_bits` writes them. -/
def FieldAt (r : Nat → UInt8) (val : Nat → UInt8) (p bp len : Nat) : Prop :=
  ∀ t < len, bitAt r (8 * p + bp + t) = fieldBits val bp len t

section
variable (h : FieldAt r val p bp len)
include h

/-- A value of less than eight bits comes back. -/
theorem FieldAt.short (hbp : bp < 8)
    (hlen : len < 8) (hval : (val 0).toNat < 2 ^ len) : getBits into r p bp len 0 = val 0 := by
  refine byte_ext fun j _ => ?_
  rw [testBit_getBits_short hbp hlen]
  by_cases hj : j < len
  · have hplace : 8 * p + (bp + len - 1 - j) = 8 * p + bp + (len - 1 - j) := by omega
    have hix : len - 1 - (len - 1 - j) = j := by omega
    rw [decide_eq_true hj, Bool.true_and, hplace, h _ (by omega), fieldBits, if_pos hlen, hix]
  · have hbit : (val 0).toNat.testBit j = false :=
      Nat.testBit_lt_two_pow (lt_of_lt_of_le hval (Nat.pow_le_pow_right (by decide) (by omega)))
    rw [decide_eq_false hj, Bool.false_and, hbit]

/-- The whole bytes of a value come back. -/
theorem FieldAt.whole (hbp : bp < 8)
    (hi : i < len / 8) : getBits into r p bp len i = val i := by
  refine byte_ext fun j hj => ?_
  have hdiv : (8 * i + (7 - j)) / 8 = i := by omega
  have hmod : 7 - (8 * i + (7 - j)) % 8 = j := by omega
  rw [testBit_getBits_whole hbp hi hj, h _ (by omega), fieldBits, if_neg (by omega), hdiv, hmod,
    decide_eq_true (.inl (by omega)), Bool.true_and]

/-- The rest of a value does not come back, unless it is zero: its top bit is lost. -/
theorem FieldAt.rest (hbp : bp < 8)
    (hlen : 8 ≤ len) (hbits : len % 8 ≠ 0) (hval : (val (len / 8)).toNat < 2 ^ (len % 8)) :
    getBits into r p bp len (len / 8) = val (len / 8) ↔ val (len / 8) = 0 := by
  -- the bit that is read at a place is a higher one of the value
  have hread : ∀ j < len % 8, (getBits into r p bp len (len / 8)).toNat.testBit j =
      (decide (bp ≤ j) && (val (len / 8)).toNat.testBit (j + (8 - len % 8))) := by
    intro j hj
    have hdiv : (len - 1 - j) / 8 = len / 8 := by omega
    have hix : 7 - (len - 1 - j) % 8 = j + (8 - len % 8) := by omega
    rw [testBit_getBits_rest hbp hlen hbits, decide_eq_true hj, Bool.true_and, h _ (by omega), fieldBits,
      if_neg (by omega), hdiv, hix]
    refine congrArg (· && _) (decide_eq_decide.mpr ?_)
    omega
  have hhigh : ∀ j, len % 8 ≤ j → (val (len / 8)).toNat.testBit j = false := fun j hj =>
    Nat.testBit_lt_two_pow (lt_of_lt_of_le hval (Nat.pow_le_pow_right (by decide) hj))
  constructor
  · intro hback
    -- from the highest bit down, every bit is a higher one and so zero
    have hzero : ∀ k j, len % 8 ≤ j + k → (val (len / 8)).toNat.testBit j = false := by
      intro k
      induction k with
      | zero => exact fun j hj => hhigh j hj
      | succ k ih =>
        intro j hj
        by_cases hlt : j < len % 8
        · rw [← hback, hread j hlt, ih (j + (8 - len % 8)) (by omega), Bool.and_false]
        · exact hhigh j (by omega)
    refine byte_ext fun j _ => ?_
    rw [hzero (len % 8) j (by omega)]
    exact (Nat.zero_testBit j).symm
  · intro hzero
    refine byte_ext fun j hj => ?_
    by_cases hlt : j < len % 8
    · rw [hread j hlt, hzero]
      simp
    · rw [testBit_getBits_rest hbp hlen hbits, decide_eq_false hlt, Bool.false_and, hzero]
      exact (Nat.zero_testBit j).symm

end

/-- A 16-bit value is its two bytes. -/
theorem le16Read_eq (p : Nat → UInt8) (v : UInt16) : le16Read p = v ↔ p 0 = le16Write v 0 ∧ p 1 = le16Write v 1 := by
  have hsum : (p 1).toNat <<< 8 ||| (p 0).toNat = 256 * (p 1).toNat + (p 0).toNat := by
    rw [Nat.shiftLeft_eq, mul_comm]
    exact (Nat.two_pow_add_eq_or_of_lt (i := 8) (p 0).toNat_lt (p 1).toNat).symm
  have h0 := (p 0).toNat_lt
  have h1 := (p 1).toNat_lt
  have hv := v.toNat_lt
  rw [le16Read, hsum, ← UInt16.toNat_inj, ← UInt8.toNat_inj, ← UInt8.toNat_inj]
  simp only [le16Write, UInt16.toNat_ofNat', UInt8.toNat_ofNat', ↓reduceIte, one_ne_zero]
  omega

/-- An attribute comes back if and only if it has no rest, or its high byte is zero. -/
theorem attr_read {v : UInt16} (h : FieldAt r (le16Write v) p bp len) (hbp : bp < 8) (h1 : 1 ≤ len)
    (h16 : len ≤ 16) (hv : v.toNat < 2 ^ len) :
    le16Read (getBits (fun _ => 0) r p bp len) = v ↔ len ≤ 8 ∨ len = 16 ∨ v.toNat < 256 := by
  have hlow : (le16Write v 0).toNat = v.toNat % 256 := by simp [le16Write]
  have hhigh : (le16Write v 1).toNat = v.toNat / 256 := by
    have := v.toNat_lt
    simp only [le16Write, one_ne_zero, ↓reduceIte, UInt8.toNat_ofNat']
    omega
  have hzero : v.toNat < 256 → le16Write v 1 = 0 := fun hv => UInt8.toNat_inj.mp (by rw [hhigh]; exact Nat.div_eq_of_lt hv)
  have hpow : len ≤ 8 → v.toNat < 256 := fun hle =>
    lt_of_lt_of_le hv (Nat.pow_le_pow_right (by decide) hle)
  rw [le16Read_eq]
  by_cases hshort : len < 8
  · have hbyte : (le16Write v 0).toNat < 2 ^ len := by
      rw [hlow, Nat.mod_eq_of_lt (hpow (by omega))]
      exact hv
    rw [h.short hbp hshort hbyte, getBits_outside (by omega) (by decide), hzero (hpow (by omega))]
    exact ⟨fun _ => .inl (by omega), fun _ => ⟨rfl, rfl⟩⟩
  have hfirst : getBits (fun _ => 0) r p bp len 0 = le16Write v 0 := h.whole hbp (by omega)
  by_cases h8 : len = 8
  · rw [hfirst, getBits_outside (by omega) (by decide), hzero (hpow (by omega))]
    exact ⟨fun _ => .inl (by omega), fun _ => ⟨rfl, rfl⟩⟩
  by_cases hfull : len = 16
  · exact ⟨fun _ => .inr (.inl hfull), fun _ => ⟨hfirst, h.whole hbp (by omega)⟩⟩
  · have hone : len / 8 = 1 := by omega
    have hsmall : v.toNat / 256 < 2 ^ (len % 8) := by
      rw [Nat.div_lt_iff_lt_mul (by decide), show (256 : Nat) = 2 ^ 8 from rfl, ← pow_add]
      have hlen : len % 8 + 8 = len := by omega
      rwa [hlen]
    have hrest : getBits (fun _ => 0) r p bp len 1 = le16Write v 1 ↔ le16Write v 1 = 0 := by
      have := @FieldAt.rest r (le16Write v) (fun _ => 0) p bp len h hbp (by omega) (by omega)
      rw [hone, hhigh] at this
      exact this hsmall
    rw [hrest]
    constructor
    · rintro ⟨-, hnone⟩
      have hdiv : v.toNat / 256 = 0 := by
        rw [← hhigh, hnone]
        rfl
      omega
    · rintro (hle | heq | hlt)
      · omega
      · omega
      · exact ⟨hfirst, hzero hlt⟩

end CSync.Chameleon
