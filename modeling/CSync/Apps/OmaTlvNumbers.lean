import CSync.Apps.OmaTlv
import CSync.Lib.BigEndian
import CSync.Lib.Signed

/-! Numbers in the TLVs of LWM2M (`apps/oma-lwm2m/oma-tlv.c`).

    A number loses its leading zero bytes, and a fixed-point number becomes a float of 32 bits. The writer of
    numbers stops at a negative rest, and to the writer of floats 0 is what 1 is. An `int` has 32 bits. -/

namespace CSync.Lwm2m
open Lib

/-- `OMA_TLV_TYPE_RESOURCE`. -/
def typeResource : UInt8 := 3

/-- A record with these bytes as its value. -/
def resourceTlv (id : Int16) (bytes : List UInt8) : OmaTlv :=
  ⟨typeResource, id.toUInt16, UInt32.ofNat bytes.length, fun i => bytes.getD i 0⟩

/-- The loop of `oma_tlv_write_int32`, with this many places left in front of the bytes in `buf`. -/
def int32Bytes : Nat → Int → List UInt8 → List UInt8
  | 0, _, buf => buf
  | places + 1, value, buf =>
    if 0 < value then int32Bytes places (value >>> (8 : Nat)) (UInt8.ofInt value :: buf) else buf

def omaTlvWriteInt32 (id : Int16) (value : Int32) (len : Nat) : Nat × List (Nat × UInt8) :=
  omaTlvWrite (resourceTlv id (int32Bytes 3 (value.toInt >>> (8 : Nat)) [UInt8.ofInt value.toInt])) len

def omaTlvGetInt32 (tlv : OmaTlv) : Int32 :=
  ((slice tlv.value 0 tlv.length.toNat).foldl (fun (value : UInt32) b => value <<< 8 ||| b.toUInt32) 0).toInt32

/-- The loop of `oma_tlv_write_float32`: `val` and `e` behind it. -/
def floatLoop : Nat → Nat → Nat → Nat → Nat × Nat
  | 0, _, val, e => (val, e)
  | fuel + 1, v, val, e =>
    if 1 < v then floatLoop fuel (v >>> 1) (if v &&& 1 ≠ 0 then val >>> 1 ||| 1 <<< 22 else val >>> 1) (e + 1)
    else (val, e)

def floatBytes (negative : Bool) (val : Nat) (e : Int) : List UInt8 :=
  [(if negative then (0x80 : UInt8) else 0) ||| UInt8.ofInt (e >>> (1 : Nat)),
    UInt8.ofInt (e % 2) <<< 7 ||| UInt8.ofNat (val >>> 16) &&& 0x7f, UInt8.ofNat (val >>> 8), UInt8.ofNat val]

def omaTlvWriteFloat32 (id : Int16) (value : Int32) (bits : Int) (len : Nat) : Nat × List (Nat × UInt8) :=
  let r := floatLoop 31 value.toInt.natAbs 0 0
  omaTlvWrite (resourceTlv id (floatBytes (value < 0) r.1 (r.2 - bits + 127))) len

def omaTlvFloat32ToFix (tlv : OmaTlv) (bits : Int) : Int32 :=
  let e : Nat := (tlv.value 0 <<< 1).toNat ||| (tlv.value 1 >>> 7).toNat
  let val := (tlv.value 1 &&& 0x7f).toNat <<< 16 ||| (tlv.value 2).toNat <<< 8 ||| (tlv.value 3).toNat ||| 1 <<< 23
  let e := (e : Int) - 127 + bits - 23
  let val := Int32.ofNat (if 0 < e then val <<< e.toNat else val >>> (-e).toNat)
  if tlv.value 0 &&& 0x80 ≠ 0 then -val else val

/-- An integer that was written is read again. -/
def Int32ComesBack (id : Int16) (v : Int32) (len : Nat) (buffer : Nat → UInt8) : Prop :=
  omaTlvGetInt32 (omaTlvRead (stored buffer (omaTlvWriteInt32 id v len).2)).1 = v

/-- A fixed-point number that was written as a float is read again. -/
def FloatComesBack (id : Int16) (v : Int32) (bits : Int) (len : Nat) (buffer : Nat → UInt8) : Prop :=
  omaTlvFloat32ToFix (omaTlvRead (stored buffer (omaTlvWriteFloat32 id v bits len).2)).1 bits = v

variable {id : Int16} {bytes : List UInt8} {len : Nat} {buffer : Nat → UInt8}

theorem length_resourceTlv (hbytes : bytes.length ≤ 4) : (resourceTlv id bytes).length.toNat = bytes.length :=
  UInt32.toNat_ofNat_of_lt' (show bytes.length < 2 ^ 32 by omega)

theorem recovers_resource (hbytes : bytes.length ≤ 4) (h : (omaTlvWrite (resourceTlv id bytes) len).1 ≠ 0) :
    Recovers (resourceTlv id bytes) (omaTlvRead (stored buffer (omaTlvWrite (resourceTlv id bytes) len).2)) := by
  have hlength : (resourceTlv id bytes).length.toNat = bytes.length := length_resourceTlv hbytes
  exact recovers_stored (show typeResource < 4 by decide) (by omega) h

/-- What is read of such a record. -/
theorem slice_recovers {r : OmaTlv × Nat} (h : Recovers (resourceTlv id bytes) r) (hbytes : bytes.length ≤ 4) :
    slice r.1.value 0 r.1.length.toNat = bytes := by
  have hlength : (resourceTlv id bytes).length.toNat = bytes.length := length_resourceTlv hbytes
  have hbuffer : slice (bufferOf bytes) 0 bytes.length = bytes := holds_bufferOf bytes
  rw [h.length, hlength]
  refine Eq.trans (slice_congr fun i _ hi => ?_) hbuffer
  rw [h.value i (by omega)]
  rfl

theorem toNat_ofInt (n : Nat) : (UInt8.ofInt (n : Int)).toNat = n % 256 := by
  have hmod : ((n : Int) % 2 ^ 8).toNat = n % 256 := by omega
  rw [UInt8.ofInt, hmod, UInt8.toNat_ofNat', Nat.mod_mod]

theorem shiftRight_natCast (n : Nat) : (n : Int) >>> (8 : Nat) = ((n / 256 : Nat) : Int) := by
  rw [Int.shiftRight_eq_div_pow]
  rfl

theorem int32Bytes_spec : ∀ (places : Nat) (value : Nat) (buf : List UInt8), value < 256 ^ places →
    number (int32Bytes places value buf) = value * 256 ^ buf.length + number buf ∧
      (int32Bytes places value buf).length ≤ places + buf.length
  | 0, value, buf, h => by
    have hzero : value = 0 := by simpa using h
    simp [int32Bytes, hzero]
  | places + 1, value, buf, h => by
    rw [int32Bytes]
    split
    · have hlt : value / 256 < 256 ^ places := by
        rw [Nat.div_lt_iff_lt_mul (by decide), ← pow_succ]
        exact h
      have hbyte : (UInt8.ofInt (value : Int)).toNat = value % 256 := toNat_ofInt value
      rw [shiftRight_natCast]
      obtain ⟨hnumber, hlength⟩ := int32Bytes_spec places (value / 256) (UInt8.ofInt (value : Int) :: buf) hlt
      rw [List.length_cons] at hnumber hlength
      refine ⟨?_, by omega⟩
      have hsplit := Nat.div_add_mod value 256
      rw [hnumber, number, hbyte, pow_succ]
      calc value / 256 * (256 ^ buf.length * 256) + (value % 256 * 256 ^ buf.length + number buf)
          = (256 * (value / 256) + value % 256) * 256 ^ buf.length + number buf := by ring
        _ = _ := by rw [hsplit]
    · have hzero : value = 0 := by omega
      rw [hzero, zero_mul, zero_add]
      exact ⟨rfl, by omega⟩

/-- INTEGERS: they come back if they are not negative. -/
theorem int32_comes_back_iff (v : Int32) (hwritten : (omaTlvWriteInt32 id v len).1 ≠ 0) :
    Int32ComesBack id v len buffer ↔ 0 ≤ v.toInt := by
  have hlt := Int32.toInt_lt v
  rw [omaTlvWriteInt32] at hwritten
  rw [Int32ComesBack, omaTlvGetInt32, omaTlvWriteInt32]
  by_cases hv : 0 ≤ v.toInt
  · obtain ⟨n, hn⟩ : ∃ n : Nat, v.toInt = n := ⟨v.toInt.toNat, by omega⟩
    obtain ⟨hnumber, hlength⟩ := int32Bytes_spec 3 (n / 256) [UInt8.ofInt (n : Int)] (by omega)
    rw [← shiftRight_natCast, ← hn] at hnumber hlength
    have hvalue : number (int32Bytes 3 (v.toInt >>> (8 : Nat)) [UInt8.ofInt v.toInt]) = n := by
      rw [hnumber, number, number, hn, toNat_ofInt]
      simp only [List.length_nil, List.length_singleton]
      omega
    refine iff_of_true ?_ hv
    have hword := toNat_foldl_shiftIn (int32Bytes 3 (v.toInt >>> (8 : Nat)) [UInt8.ofInt v.toInt]) 0
    rw [hvalue, UInt32.toNat_zero, zero_mul, zero_add, Nat.mod_eq_of_lt (by omega)] at hword
    rw [slice_recovers (recovers_resource hlength hwritten) hlength, ← Int32.toInt_inj, toInt_of_small (by omega),
      hword, hn]
  · have hrest : ¬ (0 : Int) < v.toInt >>> (8 : Nat) := by
      rw [Int.shiftRight_eq_div_pow]
      omega
    refine iff_of_false (fun h => hv ?_) hv
    rw [int32Bytes, if_neg hrest] at hwritten h
    rw [slice_recovers (recovers_resource (by simp) hwritten) (by simp)] at h
    have hword := toNat_foldl_shiftIn [UInt8.ofInt v.toInt] 0
    have hbyte := (UInt8.ofInt v.toInt).toNat_lt
    rw [UInt32.toNat_zero, zero_mul, zero_add, number, number, List.length_nil] at hword
    rw [← h, toInt_of_small (by omega)]
    omega

/-! ### Floats -/

/-- INVARIANT: behind `e` turns of the loop the low bits stand at the top of the 23 bits. -/
theorem floatLoop_spec (n : Nat) (hn : n < 2 ^ 24) : ∀ fuel e : Nat, n < 2 ^ (e + fuel) → 2 ^ e ≤ n →
    ∃ k, floatLoop fuel (n / 2 ^ e) (n % 2 ^ e * 2 ^ (23 - e)) e = ((n - 2 ^ k) * 2 ^ (23 - k), k) ∧
      2 ^ k ≤ n ∧ n < 2 ^ (k + 1)
  | 0, e, hfuel, he => absurd hfuel (not_lt.2 he)
  | fuel + 1, e, hfuel, he => by
    have hpos : 0 < 2 ^ e := Nat.two_pow_pos e
    rw [floatLoop]
    split
    next hmore =>
      have hnext : 2 ^ (e + 1) ≤ n := by
        rw [pow_succ, mul_comm]
        exact (Nat.le_div_iff_mul_le hpos).1 hmore
      have he23 : e + 1 < 24 := (Nat.pow_lt_pow_iff_right (by decide : 1 < 2)).1 (lt_of_le_of_lt hnext hn)
      obtain ⟨j, hj⟩ : ∃ j, 22 - e = j ∧ 23 - e = j + 1 ∧ 2 ^ e * 2 ^ j = 2 ^ 22 :=
        ⟨22 - e, rfl, by omega, by rw [← pow_add]; congr 1; omega⟩
      have hlow : n % 2 ^ e * 2 ^ j < 2 ^ 22 := by
        rw [← hj.2.2]
        exact Nat.mul_lt_mul_of_pos_right (Nat.mod_lt _ hpos) (Nat.two_pow_pos j)
      have hval : (n % 2 ^ e * 2 ^ (23 - e)) >>> 1 = n % 2 ^ e * 2 ^ j := by
        rw [hj.2.1, pow_succ, ← mul_assoc, Nat.shiftRight_eq_div_pow, pow_one, Nat.mul_div_cancel _ (by decide)]
      have hv : (n / 2 ^ e) >>> 1 = n / 2 ^ (e + 1) := by
        rw [Nat.shiftRight_eq_div_pow, pow_one, Nat.div_div_eq_div_mul, pow_succ]
      have hbit : (if n / 2 ^ e &&& 1 ≠ 0 then n % 2 ^ e * 2 ^ j ||| 1 <<< 22 else n % 2 ^ e * 2 ^ j) =
          n % 2 ^ (e + 1) * 2 ^ (23 - (e + 1)) := by
        have htop : 23 - (e + 1) = j := by omega
        rw [htop, Nat.mod_pow_succ, add_mul, Nat.and_one_is_mod]
        rcases Nat.mod_two_eq_zero_or_one (n / 2 ^ e) with hzero | hone
        · rw [hzero, if_neg (by simp)]
          ring
        · rw [hone, if_pos (by decide), Nat.or_comm, ← Nat.shiftLeft_add_eq_or_of_lt hlow, mul_one, hj.2.2]
          exact add_comm _ _
      rw [hval, hv, hbit]
      exact floatLoop_spec n hn fuel (e + 1) (by rwa [Nat.add_right_comm, add_assoc]) hnext
    next hdone =>
      have hlt : n < 2 ^ (e + 1) := by
        rw [pow_succ, mul_comm]
        exact (Nat.div_lt_iff_lt_mul hpos).1 (by omega)
      have hmod : n % 2 ^ e = n - 2 ^ e := by
        rw [Nat.mod_eq_sub_mod he, Nat.mod_eq_of_lt (by rw [pow_succ] at hlt; omega)]
      exact ⟨e, by rw [hmod], he, hlt⟩

/-- The first two bytes of a float are taken apart again. -/
theorem signByte_fields : ∀ (negative : Bool) (high : Fin 128),
    let b := (if negative then (0x80 : UInt8) else 0) ||| UInt8.ofNat high
    (b <<< 1).toNat = high.val <<< 1 ∧ (b &&& 0x80 ≠ 0 ↔ negative = true) := by
  decide

set_option maxRecDepth 4096 in
theorem exponentByte_fields : ∀ (low : Fin 2) (top : Fin 128),
    let b := UInt8.ofNat low <<< 7 ||| UInt8.ofNat top &&& 0x7f
    (b >>> 7).toNat = low ∧ (b &&& 0x7f).toNat = top := by
  decide

/-- The bytes of a value, with the leading one that a float leaves out. -/
theorem bytes_or (val : Nat) : (val / 65536) <<< 16 ||| (val / 256 % 256) <<< 8 ||| val % 256 = val := by
  have hhigh : (val / 256 % 256) <<< 8 < 2 ^ 16 := by
    omega
  have hlow : val % 256 < 2 ^ 8 := Nat.mod_lt _ (by decide)
  have hjoin : (val / 65536) <<< 16 + (val / 256 % 256) <<< 8 = (val / 256) <<< 8 := by
    omega
  rw [← Nat.shiftLeft_add_eq_or_of_lt hhigh, hjoin, ← Nat.shiftLeft_add_eq_or_of_lt hlow, Nat.shiftLeft_eq]
  omega

theorem float_read {tlv : OmaTlv} {negative : Bool} {val k bits : Nat} (hval : val < 2 ^ 23) (hk : k ≤ 23)
    (hbits : bits ≤ 16) (h : ∀ i < 4, tlv.value i = (floatBytes negative val (k - bits + 127)).getD i 0) :
    omaTlvFloat32ToFix tlv bits =
      if negative then -Int32.ofNat ((2 ^ 23 + val) >>> (23 - k)) else Int32.ofNat ((2 ^ 23 + val) >>> (23 - k)) := by
  have he : (k : Int) - bits + 127 = ((k + 127 - bits : Nat) : Int) := by omega
  generalize hE : k + 127 - bits = E at he
  have hE256 : E / 2 < 128 := by omega
  have hhigh : UInt8.ofInt ((E : Int) >>> (1 : Nat)) = UInt8.ofNat (⟨E / 2, hE256⟩ : Fin 128) := by
    rw [← UInt8.toNat_inj, Int.shiftRight_eq_div_pow]
    exact (toNat_ofInt (E / 2)).trans (UInt8.toNat_ofNat').symm
  have hlow : UInt8.ofInt ((E : Int) % 2) = UInt8.ofNat (⟨E % 2, Nat.mod_lt _ (by decide)⟩ : Fin 2) := by
    rw [← UInt8.toNat_inj]
    exact (toNat_ofInt (E % 2)).trans (UInt8.toNat_ofNat').symm
  have htop : val >>> 16 < 128 := by
    omega
  rw [he] at h
  have h0 : tlv.value 0 = (if negative then (0x80 : UInt8) else 0) ||| UInt8.ofNat (⟨E / 2, hE256⟩ : Fin 128) := by
    rw [h 0 (by decide), ← hhigh]
    rfl
  have h1 : tlv.value 1 = UInt8.ofNat (⟨E % 2, Nat.mod_lt _ (by decide)⟩ : Fin 2) <<< 7 |||
      UInt8.ofNat (⟨val >>> 16, htop⟩ : Fin 128) &&& 0x7f := by
    rw [h 1 (by decide), ← hlow]
    rfl
  have h2 : (tlv.value 2).toNat = val / 256 % 256 := by
    rw [h 2 (by decide)]
    exact UInt8.toNat_ofNat'.trans (by rw [Nat.shiftRight_eq_div_pow])
  have h3 : (tlv.value 3).toNat = val % 256 := by
    rw [h 3 (by decide)]
    exact UInt8.toNat_ofNat'
  obtain ⟨hexp, hsign⟩ := signByte_fields negative ⟨E / 2, hE256⟩
  obtain ⟨hbit, hvalue⟩ := exponentByte_fields ⟨E % 2, Nat.mod_lt _ (by decide)⟩ ⟨val >>> 16, htop⟩
  have hexponent : (E / 2) <<< 1 ||| E % 2 = E := by
    rw [← Nat.shiftLeft_add_eq_or_of_lt (Nat.mod_lt _ (by decide) : E % 2 < 2 ^ 1), Nat.shiftLeft_eq]
    omega
  have hmantissa : val ||| 1 <<< 23 = 2 ^ 23 + val := by
    rw [Nat.or_comm, ← Nat.shiftLeft_add_eq_or_of_lt hval]
    rfl
  have hshift : ¬ (0 : Int) < (E : Int) - 127 + bits - 23 := by omega
  have hamount : (-((E : Int) - 127 + bits - 23)).toNat = 23 - k := by omega
  simp only [omaTlvFloat32ToFix, h0, h1, h2, h3, hexp, hbit, hvalue, hsign, hexponent]
  rw [show val >>> 16 = val / 65536 from Nat.shiftRight_eq_div_pow _ _, bytes_or, hmantissa, if_neg hshift, hamount]

theorem ofNat_natAbs (v : Int32) :
    (if v < 0 then -Int32.ofNat v.toInt.natAbs else Int32.ofNat v.toInt.natAbs) = v := by
  rw [← Int32.ofInt_eq_ofNat, ← Int32.ofInt_neg]
  split
  next hneg =>
    rw [Int32.lt_iff_toInt_lt, Int32.toInt_zero] at hneg
    rw [show -(v.toInt.natAbs : Int) = v.toInt by omega, Int32.ofInt_toInt]
  next hpos =>
    rw [Int32.lt_iff_toInt_lt, Int32.toInt_zero] at hpos
    rw [show (v.toInt.natAbs : Int) = v.toInt by omega, Int32.ofInt_toInt]

theorem length_floatBytes (negative : Bool) (val : Nat) (e : Int) : (floatBytes negative val e).length = 4 := rfl

theorem float_written {v : Int32} {val k bits : Nat} (hloop : floatLoop 31 v.toInt.natAbs 0 0 = (val, k))
    (hval : val < 2 ^ 23) (hk : k ≤ 23) (hbits : bits ≤ 16) (hwritten : (omaTlvWriteFloat32 id v bits len).1 ≠ 0) :
    omaTlvFloat32ToFix (omaTlvRead (stored buffer (omaTlvWriteFloat32 id v bits len).2)).1 bits =
      if v < 0 then -Int32.ofNat ((2 ^ 23 + val) >>> (23 - k)) else Int32.ofNat ((2 ^ 23 + val) >>> (23 - k)) := by
  rw [omaTlvWriteFloat32, hloop] at hwritten ⊢
  refine (float_read hval hk hbits fun i hi => ?_).trans (if_congr decide_eq_true_iff rfl rfl)
  exact (recovers_resource (length_floatBytes _ _ _).le hwritten).value i hi

/-- FLOATS: those that are not 0 come back. -/
theorem float_comes_back_iff (v : Int32) (bits : Nat) (hv : v.toInt.natAbs < 2 ^ 24) (hbits : bits ≤ 16)
    (hwritten : (omaTlvWriteFloat32 id v bits len).1 ≠ 0) : FloatComesBack id v bits len buffer ↔ v ≠ 0 := by
  rw [FloatComesBack]
  rcases Nat.eq_zero_or_pos v.toInt.natAbs with hzero | hpos
  · have hv0 : v = 0 := by
      rw [← Int32.toInt_inj, Int32.toInt_zero]
      omega
    have hloop : floatLoop 31 v.toInt.natAbs 0 0 = (0, 0) := by
      rw [hzero]
      rfl
    rw [float_written hloop (by decide) (by decide) hbits hwritten, hv0]
    decide
  · have hne : v ≠ 0 := fun h => by
      rw [h] at hpos
      cases hpos
    obtain ⟨k, hloop, hle, hlt⟩ := floatLoop_spec v.toInt.natAbs hv 31 0 (by omega) hpos
    have hk : k < 24 := (Nat.pow_lt_pow_iff_right (by decide : 1 < 2)).1 (lt_of_le_of_lt hle hv)
    have hsplit : 2 ^ k * 2 ^ (23 - k) = 2 ^ 23 := by
      rw [← pow_add]
      congr 1
      omega
    have hval : (v.toInt.natAbs - 2 ^ k) * 2 ^ (23 - k) < 2 ^ 23 := by
      rw [← hsplit]
      exact Nat.mul_lt_mul_of_pos_right (by rw [pow_succ] at hlt; omega) (Nat.two_pow_pos _)
    have hwhole : (2 ^ 23 + (v.toInt.natAbs - 2 ^ k) * 2 ^ (23 - k)) >>> (23 - k) = v.toInt.natAbs := by
      rw [← hsplit, ← add_mul, Nat.add_sub_cancel' hle, Nat.shiftRight_eq_div_pow,
        Nat.mul_div_cancel _ (Nat.two_pow_pos _)]
    rw [pow_zero, Nat.div_one, Nat.mod_one, zero_mul] at hloop
    rw [float_written hloop hval (by omega) hbits hwritten, hwhole, ofNat_natAbs]
    exact iff_of_true rfl hne

/-- Of a negative integer only one byte is written, and no sign is read. To the writer of floats 0 is
    what 1 is. All other numbers that are written come back. -/
theorem numbers_come_back_iff (id : Int16) (v : Int32) (len : Nat) (buffer : Nat → UInt8) :
    ((omaTlvWriteInt32 id v len).1 ≠ 0 → (Int32ComesBack id v len buffer ↔ 0 ≤ v.toInt)) ∧
    ∀ bits : Nat, bits ≤ 16 → v.toInt.natAbs < 2 ^ 24 → (omaTlvWriteFloat32 id v bits len).1 ≠ 0 →
      (FloatComesBack id v bits len buffer ↔ v ≠ 0) :=
  ⟨int32_comes_back_iff v, fun bits hbits hv hwritten => float_comes_back_iff v bits hv hbits hwritten⟩

/-- 300 comes back, as an integer and as a number with ten fractional bits. -/
theorem numbers_come_back_threeHundred : Int32ComesBack 5 300 16 (fun _ => 0) ∧
    FloatComesBack 5 300 10 16 fun _ => 0 :=
  ⟨((numbers_come_back_iff 5 300 16 fun _ => 0).1 (by decide)).2 (by decide),
    ((numbers_come_back_iff 5 300 16 fun _ => 0).2 10 (by decide) (by decide) (by decide)).2 (by decide)⟩

/-- Of -1 as an integer 255 is read, and of 0 as a float 1. -/
theorem numbers_lost : ¬ Int32ComesBack 5 (-1) 16 (fun _ => 0) ∧ ¬ FloatComesBack 5 0 0 16 fun _ => 0 := by
  unfold Int32ComesBack FloatComesBack
  decide

end CSync.Lwm2m
