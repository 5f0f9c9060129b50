import Mathlib.Algebra.Ring.Nat
import CSync.Lib.XorLinear

/-! The checksum (`core/lib/crc16.c`).

    `crc16_add` takes a byte at a time with a few shifts, where the reflected CRC-CCITT takes a bit at a time. Both
    are linear over exclusive or in the byte and the accumulator, so that 24 words show that they are the same. -/

namespace CSync.Crc16
open Lib List

def crc16Add (b : UInt8) (acc : UInt16) : UInt16 :=
  let acc := acc ^^^ b.toUInt16
  let acc := acc >>> 8 ||| acc <<< 8
  let acc := acc ^^^ (acc &&& 0xff00) <<< 4
  let acc := acc ^^^ acc >>> 8 >>> 4
  acc ^^^ (acc &&& 0xff00) >>> 5

def crc16Data (data : List UInt8) (acc : UInt16) : UInt16 := data.foldl (fun acc b => crc16Add b acc) acc

/-- A bit goes into the register. The polynomial is 0x8408, its bits in reverse. -/
def shiftIn (acc : UInt16) (bit : Bool) : UInt16 :=
  if (acc.toBitVec.getLsbD 0 ^^ bit) = true then acc >>> 1 ^^^ 0x8408 else acc >>> 1

/-- The bits of a byte, the lowest one first. -/
def bitsOf (b : UInt8) : List Bool := (range 8).map fun i => b.toBitVec.getLsbD i

/-- The reflected CRC-CCITT of a byte string, without a last exclusive or. -/
def crcCcitt (data : List UInt8) (acc : UInt16) : UInt16 := (data.flatMap bitsOf).foldl shiftIn acc

/-! ### Both are linear -/

/-- The byte and the accumulator in a word. -/
def byteOf (v : BitVec 24) : BitVec 8 := v.setWidth 8
def accOf (v : BitVec 24) : BitVec 16 := (v >>> 8).setWidth 16

theorem xorLinear_accOf : XorLinear accOf := xorLinear_setWidth.comp (xorLinear_shiftRight 8)

/-- The two bytes of a word change places. -/
theorem xorLinear_swap : XorLinear fun x : BitVec 16 => x >>> 8 ||| x <<< 8 := by
  intro x y
  apply BitVec.eq_of_getLsbD_eq
  intro i hi
  simp only [BitVec.getLsbD_or, BitVec.getLsbD_xor, BitVec.getLsbD_ushiftRight, BitVec.getLsbD_shiftLeft]
  by_cases h8 : i < 8
  · simp [h8]
  · rw [BitVec.getLsbD_of_ge _ (8 + i) (by omega), BitVec.getLsbD_of_ge _ (8 + i) (by omega)]
    simp [h8, hi]

/-- The shifts of `crc16_add`. -/
def mixed (x : BitVec 16) : BitVec 16 :=
  let x := x >>> 8 ||| x <<< 8
  let x := x ^^^ (x &&& 0xff00) <<< 4
  let x := x ^^^ x >>> 8 >>> 4
  x ^^^ (x &&& 0xff00) >>> 5

theorem xorLinear_mixed : XorLinear mixed := by
  have hhigh : XorLinear fun x : BitVec 16 => x ^^^ (x &&& 0xff00) <<< 4 :=
    xorLinear_id.xor ((xorLinear_shiftLeft 4).comp (xorLinear_and 0xff00))
  have hlow : XorLinear fun x : BitVec 16 => x ^^^ x >>> 8 >>> 4 :=
    xorLinear_id.xor ((xorLinear_shiftRight 4).comp (xorLinear_shiftRight 8))
  have hlast : XorLinear fun x : BitVec 16 => x ^^^ (x &&& 0xff00) >>> 5 :=
    xorLinear_id.xor ((xorLinear_shiftRight 5).comp (xorLinear_and 0xff00))
  exact hlast.comp (hlow.comp (hhigh.comp xorLinear_swap))

theorem crc16Add_eq (b : UInt8) (acc : UInt16) :
    (crc16Add b acc).toBitVec = mixed (acc.toBitVec ^^^ b.toBitVec.setWidth 16) := rfl

/-- The register behind the first `k` bits of the byte. -/
def register (v : BitVec 24) : Nat → BitVec 16
  | 0 => accOf v
  | k + 1 =>
    register v k >>> 1 ^^^ (if (register v k).getLsbD 0 then 0x8408 else 0) ^^^
      if (byteOf v).getLsbD k then 0x8408 else 0

/-- STEP: the register stays linear. -/
theorem xorLinear_register : ∀ k, XorLinear fun v => register v k
  | 0 => xorLinear_accOf
  | k + 1 => by
    have hshift := (xorLinear_shiftRight 1).comp (xorLinear_register k)
    have hself := (xorLinear_select 0 (0x8408 : BitVec 16)).comp (xorLinear_register k)
    have hbit := (xorLinear_select k (0x8408 : BitVec 16)).comp (xorLinear_setWidth (m := 24) (n := 8))
    exact (hshift.xor hself).xor hbit

theorem shiftIn_eq (acc : UInt16) (bit : Bool) : (shiftIn acc bit).toBitVec =
    acc.toBitVec >>> 1 ^^^ (if acc.toBitVec.getLsbD 0 then 0x8408 else 0) ^^^ if bit then 0x8408 else 0 := by
  have hshift : (acc >>> 1).toBitVec = acc.toBitVec >>> 1 := rfl
  have hcancel : acc.toBitVec >>> 1 ^^^ 0x8408#16 ^^^ 0x8408#16 = acc.toBitVec >>> 1 := by
    rw [BitVec.xor_assoc, BitVec.xor_self, BitVec.xor_zero]
  rw [shiftIn]
  cases acc.toBitVec.getLsbD 0 <;> cases bit <;> simp [hshift, hcancel]

variable {b : UInt8} {acc : UInt16} {v : BitVec 24}

theorem foldl_shiftIn (hb : byteOf v = b.toBitVec) (hacc : accOf v = acc.toBitVec) : ∀ k,
    (((range k).map fun i => b.toBitVec.getLsbD i).foldl shiftIn acc).toBitVec = register v k
  | 0 => hacc.symm
  | k + 1 => by
    rw [range_succ, map_append, foldl_append, map_singleton, foldl_cons, foldl_nil,
      shiftIn_eq, foldl_shiftIn hb hacc k, register, hb]

theorem register_twoPow : ∀ i < 24,
    mixed (accOf (BitVec.twoPow 24 i) ^^^ (byteOf (BitVec.twoPow 24 i)).setWidth 16) = register (BitVec.twoPow 24 i) 8 := by
  decide

/-- BYTE: `crc16_add` takes the eight bits of a byte. -/
theorem crc16Add_eq_bits (b : UInt8) (acc : UInt16) : crc16Add b acc = (bitsOf b).foldl shiftIn acc := by
  have hb : byteOf (acc.toBitVec ++ b.toBitVec) = b.toBitVec := BitVec.setWidth_append_eq_right
  have hacc : accOf (acc.toBitVec ++ b.toBitVec) = acc.toBitVec := by
    apply BitVec.eq_of_getLsbD_eq
    intro i hi
    have hshift : (acc.toBitVec ++ b.toBitVec).getLsbD (8 + i) = acc.toBitVec.getLsbD i := by
      rw [BitVec.getLsbD_append, if_neg (by omega), Nat.add_sub_cancel_left]
    rw [accOf, BitVec.getLsbD_setWidth, BitVec.getLsbD_ushiftRight, hshift, decide_eq_true hi, Bool.true_and]
  have hinput : XorLinear fun v => accOf v ^^^ (byteOf v).setWidth 16 :=
    xorLinear_accOf.xor (xorLinear_setWidth.comp xorLinear_setWidth)
  have hsame := (xorLinear_mixed.comp hinput).ext (xorLinear_register 8) register_twoPow (acc.toBitVec ++ b.toBitVec)
  rw [← UInt16.toBitVec_inj, crc16Add_eq, bitsOf, foldl_shiftIn hb hacc, ← hsame, hb, hacc]

theorem crc16Data_bits (data : List UInt8) (acc : UInt16) : crc16Data data acc = crcCcitt data acc := by
  induction data generalizing acc with
  | nil => rfl
  | cons b data ih =>
    rw [crcCcitt, flatMap_cons, foldl_append, ← crc16Add_eq_bits]
    exact ih (crc16Add b acc)

/-- EXACT: `crc16_data` is the reflected CRC-CCITT, and a message may be taken in two parts. -/
theorem crc16Data_eq (data rest : List UInt8) (acc : UInt16) : crc16Data data acc = crcCcitt data acc ∧
    crc16Data (data ++ rest) acc = crc16Data rest (crc16Data data acc) := ⟨crc16Data_bits data acc, foldl_append⟩

/-! ### Errors within sixteen places -/

variable {acc' : UInt16} {bit bit' : Bool}

/-- The registers of two messages differ by the register of their difference. -/
theorem shiftIn_xor : shiftIn acc bit ^^^ shiftIn acc' bit' = shiftIn (acc ^^^ acc') (bit ^^ bit') := by
  have hselect : ∀ x y : Bool, (if (x ^^ y) then (0x8408 : BitVec 16) else 0) =
      (if x then 0x8408 else 0) ^^^ if y then 0x8408 else 0 := by
    decide
  rw [← UInt16.toBitVec_inj, UInt16.toBitVec_xor, shiftIn_eq, shiftIn_eq, shiftIn_eq, UInt16.toBitVec_xor,
    BitVec.ushiftRight_xor_distrib, BitVec.getLsbD_xor, hselect, hselect]
  ac_rfl

theorem foldl_shiftIn_xor : ∀ {l l' : List Bool} {acc acc' : UInt16}, l.length = l'.length →
    l.foldl shiftIn acc ^^^ l'.foldl shiftIn acc' = (zipWith xor l l').foldl shiftIn (acc ^^^ acc')
  | [], [], _, _, _ => rfl
  | _ :: l, _ :: l', acc, acc', h => by
    rw [foldl_cons, foldl_cons, zipWith_cons_cons, foldl_cons, ← shiftIn_xor]
    exact foldl_shiftIn_xor (Nat.succ.inj h)

/-- STEP: the highest bit of the register moves down a place, or is set. -/
theorem le_shiftIn {k : Nat} (hk : k ≤ 15) (h : 2 ^ (k + 1) ≤ acc.toNat) : 2 ^ k ≤ (shiftIn acc bit).toNat := by
  have hhalf : (acc >>> 1).toNat = acc.toNat / 2 := by
    rw [UInt16.toNat_shiftRight]
    exact Nat.shiftRight_eq_div_pow _ 1
  have hlt := acc.toNat_lt
  rw [shiftIn]
  split
  · have htop : ((acc >>> 1 ^^^ 0x8408).toNat).testBit 15 = true := by
      rw [UInt16.toNat_xor, Nat.testBit_xor, hhalf, Nat.testBit_lt_two_pow (by omega)]
      rfl
    exact Nat.le_trans (Nat.pow_le_pow_right Nat.two_pos hk) (Nat.ge_two_pow_of_testBit htop)
  · rw [hhalf]
    omega

theorem le_foldl_shiftIn : ∀ {l : List Bool} {k : Nat} {acc : UInt16}, k + l.length ≤ 15 → 2 ^ (k + l.length) ≤ acc.toNat →
    2 ^ k ≤ (l.foldl shiftIn acc).toNat
  | [], _, _, _, h => h
  | bit :: l, k, acc, hk, h => by
    rw [length_cons] at hk h
    rw [foldl_cons]
    exact le_foldl_shiftIn (by omega) (le_shiftIn (k := k + l.length) (by omega) h)

/-- Zeros keep a register that is not zero. -/
theorem foldl_shiftIn_false : ∀ {n : Nat} {acc : UInt16}, acc ≠ 0 → (replicate n false).foldl shiftIn acc ≠ 0
  | 0, _, hacc => hacc
  | n + 1, acc, hacc => by
    have hstep : shiftIn acc false ≠ 0 := by
      intro hzero
      have hpos : 0 < acc.toNat := Nat.pos_of_ne_zero fun h => hacc (UInt16.toNat_inj.mp h)
      by_cases hone : acc = 1
      · rw [hone] at hzero
        cases hzero
      · have htwo : 2 ^ (0 + 1) ≤ acc.toNat := by
          have : acc.toNat ≠ 1 := fun h => hone (UInt16.toNat_inj.mp h)
          omega
        have hle : 2 ^ 0 ≤ (shiftIn acc false).toNat := le_shiftIn (Nat.zero_le 15) htwo
        rw [hzero] at hle
        cases hle
    rw [replicate_succ, foldl_cons]
    exact foldl_shiftIn_false hstep

/-- A burst of at most sixteen bits leaves something in an empty register. -/
theorem foldl_shiftIn_burst : ∀ {l : List Bool}, l.length ≤ 16 → true ∈ l → l.foldl shiftIn 0 ≠ 0
  | true :: l, hlen, _ => by
    have hrest : 0 + l.length ≤ 15 := by
      rw [length_cons] at hlen
      omega
    have htop : 2 ^ (0 + l.length) ≤ (shiftIn 0 true).toNat :=
      Nat.le_trans (Nat.pow_le_pow_right Nat.two_pos hrest) (by decide)
    have hle := le_foldl_shiftIn hrest htop
    intro hzero
    rw [foldl_cons] at hzero
    rw [hzero] at hle
    cases hle
  | false :: l, hlen, hmem => by
    have hrest : true ∈ l := (mem_cons.mp hmem).resolve_left (by decide)
    rw [foldl_cons]
    exact foldl_shiftIn_burst (Nat.le_of_succ_le hlen) hrest

/-- The places at which the two differ are within `n` of one another. -/
def Burst (n : Nat) (l l' : List Bool) : Prop :=
  l.length = l'.length ∧ ∃ i, ∀ j, l[j]? ≠ l'[j]? → i ≤ j ∧ j < i + n

theorem Burst.left {n : Nat} {l l' r r' : List Bool} (h : Burst n (l ++ r) (l' ++ r')) (hlen : l.length = l'.length) :
    Burst n l l' := by
  obtain ⟨-, i, hi⟩ := h
  refine ⟨hlen, i, fun j hj => ?_⟩
  have hlt : j < l.length := Nat.lt_of_not_le fun hge =>
    hj (by rw [getElem?_eq_none hge, getElem?_eq_none (hlen ▸ hge)])
  refine hi j ?_
  rw [getElem?_append_left hlt, getElem?_append_left (hlen ▸ hlt)]
  exact hj

/-- An error whose bits are within sixteen places leaves something in an empty register. -/
theorem foldl_shiftIn_error : ∀ {i : Nat} {l : List Bool}, (∀ j, l[j]? = some true → i ≤ j ∧ j < i + 16) → true ∈ l →
    l.foldl shiftIn 0 ≠ 0
  | 0, l, hin, hmem => by
    have hzeros : l.drop 16 = replicate (l.drop 16).length false := by
      refine eq_replicate_of_mem fun b hb => ?_
      obtain ⟨j, hj⟩ := mem_iff_getElem?.mp hb
      rw [getElem?_drop] at hj
      cases b with
      | false => rfl
      | true =>
        have := hin _ hj
        omega
    have hfirst : true ∈ l.take 16 := by
      rw [← take_append_drop 16 l, mem_append] at hmem
      refine hmem.resolve_right fun h => ?_
      rw [hzeros] at h
      exact absurd (eq_of_mem_replicate h) (by decide)
    rw [← take_append_drop 16 l, foldl_append, hzeros]
    exact foldl_shiftIn_false (foldl_shiftIn_burst (length_take_le 16 l) hfirst)
  | i + 1, [], _, hmem => by cases hmem
  | i + 1, true :: l, hin, _ => absurd (hin 0 rfl).1 (Nat.not_succ_le_zero i)
  | i + 1, false :: l, hin, hmem => by
    rw [foldl_cons]
    refine foldl_shiftIn_error (i := i) (fun j hj => ?_) ((mem_cons.mp hmem).resolve_left (by decide))
    have := hin (j + 1) hj
    omega

theorem true_mem_zipWith_xor : ∀ {l l' : List Bool}, l.length = l'.length → l ≠ l' → true ∈ zipWith xor l l'
  | [], [], _, hne => absurd rfl hne
  | b :: l, b' :: l', hlen, hne => by
    rw [zipWith_cons_cons, mem_cons]
    by_cases hb : b = b'
    · exact .inr (true_mem_zipWith_xor (Nat.succ.inj hlen) fun hl => hne (by rw [hb, hl]))
    · refine .inl ?_
      cases b <;> cases b' <;> first | rfl | exact absurd rfl hb

theorem foldl_shiftIn_ne {l l' : List Bool} (h : Burst 16 l l') (hne : l ≠ l') (acc : UInt16) :
    l.foldl shiftIn acc ≠ l'.foldl shiftIn acc := by
  obtain ⟨hlen, i, hi⟩ := h
  have herror : (zipWith xor l l').foldl shiftIn 0 ≠ 0 := by
    refine foldl_shiftIn_error (i := i) (fun j hj => hi j fun heq => ?_) (true_mem_zipWith_xor hlen hne)
    rw [getElem?_zipWith, heq] at hj
    generalize l'[j]? = b at hj
    rcases b with _ | _ | _ <;> cases hj
  intro heq
  have hdiff : l.foldl shiftIn acc ^^^ l'.foldl shiftIn acc = (zipWith xor l l').foldl shiftIn (acc ^^^ acc) :=
    foldl_shiftIn_xor hlen
  rw [heq, UInt16.xor_self, UInt16.xor_self] at hdiff
  exact herror hdiff.symm

theorem flatMap_bitsOf_length (data : List UInt8) : (data.flatMap bitsOf).length = 8 * data.length := by
  induction data with
  | nil => rfl
  | cons b data ih =>
    rw [flatMap_cons, length_append, ih, length_cons, bitsOf, length_map, length_range]
    omega

theorem bitsOf_inj {b b' : UInt8} (h : bitsOf b = bitsOf b') : b = b' := by
  rw [← UInt8.toBitVec_inj]
  refine BitVec.eq_of_getLsbD_eq fun i hi => ?_
  exact (map_inj_left.mp h) i (mem_range.mpr hi)

theorem flatMap_bitsOf_inj : ∀ {data data' : List UInt8}, data.length = data'.length →
    data.flatMap bitsOf = data'.flatMap bitsOf → data = data'
  | [], [], _, _ => rfl
  | b :: data, b' :: data', hlen, h => by
    rw [flatMap_cons, flatMap_cons] at h
    obtain ⟨hb, hdata⟩ := append_inj h (by rw [bitsOf, bitsOf, length_map, length_map])
    rw [bitsOf_inj hb, flatMap_bitsOf_inj (Nat.succ.inj hlen) hdata]

theorem Burst.length_eq {n : Nat} {data data' : List UInt8} (h : Burst n (data.flatMap bitsOf) (data'.flatMap bitsOf)) :
    data.length = data'.length := by
  have hlen := h.1
  rw [flatMap_bitsOf_length, flatMap_bitsOf_length] at hlen
  omega

/-- The checksum tells two messages apart whose bits differ within sixteen places. -/
theorem crc16Data_ne {data data' : List UInt8} (h : Burst 16 (data.flatMap bitsOf) (data'.flatMap bitsOf))
    (hne : data ≠ data') (acc : UInt16) : crc16Data data acc ≠ crc16Data data' acc := by
  rw [crc16Data_bits, crc16Data_bits]
  exact foldl_shiftIn_ne h (fun heq => hne (flatMap_bitsOf_inj h.length_eq heq)) acc

end CSync.Crc16
