import CSync.Lib.Regroup

/-! The GCR coder (`lib/gcr.c`): a byte is coded as two groups of five bits.

    The variables of the coder hold the bits between what goes in and what comes out. The streams are those of the
    test in the source: after each byte everything that is complete is taken out, and while decoding the check is
    made in front of that. -/

namespace CSync.Gcr

open Lib List

/-- `gcr_bits` and `gcr_val`. -/
structure Coder where
  bits : Nat
  val : Nat
  deriving DecidableEq

def gcrEncodeTable : List Nat :=
  [0x0a, 0x0b, 0x12, 0x13,
   0x0e, 0x0f, 0x16, 0x17,
   0x09, 0x19, 0x1a, 0x1b,
   0x0d, 0x1d, 0x1e, 0x15]

/-- `GCR_decode`; 0xff is invalid. -/
def gcrDecodeTable : List Nat :=
  [0xff, 0xff, 0xff, 0xff,
   0xff, 0xff, 0xff, 0xff,
   0xff, 0x08, 0x00, 0x01,
   0xff, 0x0c, 0x04, 0x05,
   0xff, 0xff, 0x02, 0x03,
   0xff, 0x0f, 0x06, 0x07,
   0xff, 0x09, 0x0a, 0x0b,
   0xff, 0x0d, 0x0e, 0xff]

def gcrInit : Coder := ⟨0, 0⟩

def gcrFinished (s : Coder) : Bool := s.bits == 0

/-- The ten bits of a byte. -/
def codeOf (rawData : Nat) : Nat :=
  (gcrEncodeTable.getD (rawData >>> 4) 0 <<< 5) ||| gcrEncodeTable.getD (rawData &&& 0xf) 0

/-- `gcr_encode`; `gcr_val` has 16 bits, `gcr_bits` has eight. -/
def gcrEncode (rawData : UInt8) (s : Coder) : Coder :=
  ⟨(s.bits + 10) % 256, (s.val ||| codeOf rawData.toNat <<< s.bits) % 65536⟩

def gcrGetEncoded (s : Coder) : Option (UInt8 × Coder) :=
  if 8 ≤ s.bits then some (UInt8.ofNat (s.val &&& 0xff), ⟨s.bits - 8, s.val >>> 8⟩) else none

def gcrDecode (gcrData : UInt8) (s : Coder) : Coder :=
  ⟨(s.bits + 8) % 256, (s.val ||| gcrData.toNat <<< s.bits) % 65536⟩

def gcrValid (s : Coder) : Bool :=
  if 10 ≤ s.bits then
    let val := s.val &&& 0x3ff
    !(gcrDecodeTable.getD (val >>> 5) 0 <<< 4 == 0xff || gcrDecodeTable.getD (val &&& 0x1f) 0 == 0xff)
  else true

/-- The byte of ten bits. -/
def byteOf (val : Nat) : UInt8 :=
  UInt8.ofNat ((gcrDecodeTable.getD (val >>> 5) 0 <<< 4) ||| gcrDecodeTable.getD (val &&& 0x1f) 0)

def gcrGetDecoded (s : Coder) : Option (UInt8 × Coder) :=
  if 10 ≤ s.bits then some (byteOf (s.val &&& 0x3ff), ⟨s.bits - 10, s.val >>> 10⟩) else none

/-- The loop that takes out what is complete. -/
def drain (get : Coder → Option (UInt8 × Coder)) : Nat → Coder → List UInt8 × Coder
  | 0, s => ([], s)
  | fuel + 1, s =>
    match get s with
    | none => ([], s)
    | some (b, s) =>
      let (bs, s) := drain get fuel s
      (b :: bs, s)

/-- A byte string is encoded. -/
def encodeStream : List UInt8 → Coder → List UInt8 × Coder
  | [], s => ([], s)
  | b :: bs, s =>
    let s := gcrEncode b s
    let (es, s) := drain gcrGetEncoded s.bits s
    let (es', s) := encodeStream bs s
    (es ++ es', s)

/-- A stream is decoded: the bytes, what the checks said, and the coder. -/
def decodeStream : List UInt8 → Coder → List UInt8 × List Bool × Coder
  | [], s => ([], [], s)
  | e :: es, s =>
    let s := gcrDecode e s
    let valid := gcrValid s
    let (bs, s) := drain gcrGetDecoded s.bits s
    let (bs', valids, s) := decodeStream es s
    (bs ++ bs', valid :: valids, s)

/-! ### The tables -/

/-- The upper and the lower five bits are a code. -/
def UpperCode (group : Nat) : Prop := gcrDecodeTable.getD (group / 32) 0 ≠ 0xff

def LowerCode (group : Nat) : Prop := gcrDecodeTable.getD (group % 32) 0 ≠ 0xff

instance : DecidablePred UpperCode := fun _ => inferInstanceAs (Decidable (_ ≠ _))

instance : DecidablePred LowerCode := fun _ => inferInstanceAs (Decidable (_ ≠ _))

theorem codeOf_spec (b : UInt8) : codeOf b.toNat < 1024 ∧ UpperCode (codeOf b.toNat) ∧ LowerCode (codeOf b.toNat) ∧
    byteOf (codeOf b.toNat) = b := by
  have hall : ∀ n : Fin 256, codeOf n < 1024 ∧ UpperCode (codeOf n) ∧ LowerCode (codeOf n) ∧
      byteOf (codeOf n) = UInt8.ofNat n := by decide +kernel
  have hb := hall ⟨b.toNat, b.toNat_lt⟩
  rwa [UInt8.ofNat_toNat] at hb

theorem codeOf_byteOf {group : Nat} (hlt : group < 1024) (hupper : UpperCode group) (hlower : LowerCode group) :
    codeOf (byteOf group).toNat = group := by
  have hall : ∀ n : Fin 1024, UpperCode n → LowerCode n → codeOf (byteOf n).toNat = n := by decide +kernel
  exact hall ⟨group, hlt⟩ hupper hlower

/-- The check looks at the lower half only: no byte times 16 is 0xff. -/
theorem gcrValid_eq (s : Coder) : gcrValid s = true ↔ (10 ≤ s.bits → LowerCode (s.val % 1024)) := by
  have hand : s.val &&& 0x3ff = s.val % 1024 := Nat.and_two_pow_sub_one_eq_mod s.val 10
  have hlow : s.val % 1024 &&& 0x1f = s.val % 1024 % 32 := Nat.and_two_pow_sub_one_eq_mod _ 5
  rw [gcrValid]
  split
  next hbits =>
    have hshift : ∀ n : Nat, n <<< 4 ≠ 0xff := by
      intro n
      omega
    simp [hand, hlow, hbits, hshift, LowerCode]
  next hbits => simp [hbits]

/-! ### Streams as regrouping -/

/-- A getter takes `v` bits out, once there are as many. -/
def Takes (get : Coder → Option (UInt8 × Coder)) (v : Nat) (out : Nat → UInt8) : Prop :=
  ∀ s, get s = if v ≤ s.bits then some (out (s.val % 2 ^ v), ⟨s.bits - v, s.val / 2 ^ v⟩) else none

theorem takes_encoded : Takes gcrGetEncoded 8 UInt8.ofNat := by
  intro s
  have hand : s.val &&& 0xff = s.val % 2 ^ 8 := Nat.and_two_pow_sub_one_eq_mod s.val 8
  rw [gcrGetEncoded, hand, Nat.shiftRight_eq_div_pow]

theorem takes_decoded : Takes gcrGetDecoded 10 byteOf := by
  intro s
  have hand : s.val &&& 0x3ff = s.val % 2 ^ 10 := Nat.and_two_pow_sub_one_eq_mod s.val 10
  rw [gcrGetDecoded, hand, Nat.shiftRight_eq_div_pow]

theorem Takes.drain {get : Coder → Option (UInt8 × Coder)} {w v : Nat} {out : Nat → UInt8} (h : Takes get v out)
    (hv : 0 < v) : ∀ {fuel : Nat} {s : Coder} {xs ys : List Nat}, Regroups w v xs ys s.val s.bits → s.bits ≤ fuel →
    ∃ zs, (drain get fuel s).1 = zs.map out ∧
      Regroups w v xs (ys ++ zs) (drain get fuel s).2.val (drain get fuel s).2.bits ∧
      (drain get fuel s).2.bits < v ∧ zs.head? = if v ≤ s.bits then some (s.val % 2 ^ v) else none
  | 0, s, xs, ys, hreg, hfuel => by
    refine ⟨[], rfl, by rw [append_nil]; exact hreg, ?_, ?_⟩
    · show s.bits < v
      omega
    · rw [if_neg (by omega)]
      rfl
  | fuel + 1, s, xs, ys, hreg, hfuel => by
    rw [Gcr.drain, h s]
    by_cases hle : v ≤ s.bits
    · have hnext := hreg.pull hle
      obtain ⟨zs, hout, hregs, hbits, -⟩ := Takes.drain h hv (s := ⟨s.bits - v, s.val / 2 ^ v⟩) hnext
        (show s.bits - v ≤ fuel by omega)
      rw [if_pos hle, if_pos hle]
      dsimp only
      refine ⟨s.val % 2 ^ v :: zs, by rw [hout, map_cons], ?_, hbits, rfl⟩
      rw [← append_cons] at hregs
      exact hregs
    · rw [if_neg hle, if_neg hle]
      exact ⟨[], rfl, by rw [append_nil]; exact hreg, by dsimp only; omega, rfl⟩

theorem or_shiftLeft_eq {val bits x : Nat} (h : val < 2 ^ bits) : val ||| x <<< bits = val + x * 2 ^ bits := by
  rw [Nat.or_comm, ← Nat.shiftLeft_add_eq_or_of_lt h, Nat.shiftLeft_eq, add_comm]

theorem push_coder {w v : Nat} {xs ys : List Nat} {s : Coder} (h : Regroups w v xs ys s.val s.bits) {x : Nat}
    (hx : x < 2 ^ w) (hroom : s.bits + w ≤ 16) :
    Regroups w v (xs ++ [x]) ys ((s.val ||| x <<< s.bits) % 65536) ((s.bits + w) % 256) := by
  have hpush := h.push hx
  have hlt : s.val + x * 2 ^ s.bits < 65536 :=
    lt_of_lt_of_le hpush.val_lt (Nat.pow_le_pow_right (by decide) hroom)
  rw [or_shiftLeft_eq h.val_lt, Nat.mod_eq_of_lt hlt, Nat.mod_eq_of_lt (by omega)]
  exact hpush

theorem encodeStream_cons (b : UInt8) (bs : List UInt8) (s : Coder) :
    encodeStream (b :: bs) s =
      ((drain gcrGetEncoded (gcrEncode b s).bits (gcrEncode b s)).1 ++
         (encodeStream bs (drain gcrGetEncoded (gcrEncode b s).bits (gcrEncode b s)).2).1,
           (encodeStream bs (drain gcrGetEncoded (gcrEncode b s).bits (gcrEncode b s)).2).2) := rfl

theorem decodeStream_cons (e : UInt8) (es : List UInt8) (s : Coder) :
    decodeStream (e :: es) s =
      ((drain gcrGetDecoded (gcrDecode e s).bits (gcrDecode e s)).1 ++
         (decodeStream es (drain gcrGetDecoded (gcrDecode e s).bits (gcrDecode e s)).2).1, gcrValid (gcrDecode e s) ::
           (decodeStream es (drain gcrGetDecoded (gcrDecode e s).bits (gcrDecode e s)).2).2.1,
             (decodeStream es (drain gcrGetDecoded (gcrDecode e s).bits (gcrDecode e s)).2).2.2) := rfl

theorem encodeStream_spec : ∀ (bs : List UInt8) {s : Coder} {xs ys : List Nat}, Regroups 10 8 xs ys s.val s.bits →
    s.bits < 8 → ∃ zs, (encodeStream bs s).1 = zs.map UInt8.ofNat ∧
      Regroups 10 8 (xs ++ bs.map fun b => codeOf b.toNat) (ys ++ zs) (encodeStream bs s).2.val
        (encodeStream bs s).2.bits ∧ (encodeStream bs s).2.bits < 8
  | [], s, xs, ys, h, hbits => ⟨[], rfl, by simpa [encodeStream] using h, hbits⟩
  | b :: bs, s, xs, ys, h, hbits => by
    -- The number of bits is even.
    have hroom : s.bits + 10 ≤ 16 := by
      have := h.count
      omega
    have hpush := push_coder h (codeOf_spec b).1 hroom
    obtain ⟨zs, hout, hregs, hlt, -⟩ := takes_encoded.drain (s := gcrEncode b s) (by decide) hpush le_rfl
    obtain ⟨zs', hout', hregs', hlt'⟩ := encodeStream_spec bs hregs hlt
    rw [encodeStream_cons]
    refine ⟨zs ++ zs', by rw [hout, hout', map_append], ?_, hlt'⟩
    rw [append_assoc, append_assoc] at hregs'
    exact hregs'

/-- DECODING regroups eight bits to ten, and each group is checked once. -/
theorem decodeStream_spec : ∀ (es : List UInt8) {s : Coder} {xs ys : List Nat}, Regroups 8 10 xs ys s.val s.bits →
    s.bits < 10 → ∃ zs, (decodeStream es s).1 = zs.map byteOf ∧
      ((∀ valid ∈ (decodeStream es s).2.1, valid = true) ↔ ∀ z ∈ zs, LowerCode z) ∧
      Regroups 8 10 (xs ++ es.map UInt8.toNat) (ys ++ zs) (decodeStream es s).2.2.val (decodeStream es s).2.2.bits ∧
      (decodeStream es s).2.2.bits < 10
  | [], s, xs, ys, h, hbits => ⟨[], rfl, by simp [decodeStream], by simpa [decodeStream] using h, hbits⟩
  | e :: es, s, xs, ys, h, hbits => by
    have hroom : s.bits + 8 ≤ 16 := by
      have := h.count
      omega
    have hpush := push_coder h e.toNat_lt hroom
    obtain ⟨zs, hout, hregs, hlt, hhead⟩ := takes_decoded.drain (s := gcrDecode e s) (by decide) hpush le_rfl
    obtain ⟨zs', hout', hvalid', hregs', hlt'⟩ := decodeStream_spec es hregs hlt
    -- At most one group is complete, the one that is checked.
    have hvalid : gcrValid (gcrDecode e s) = true ↔ ∀ z ∈ zs, LowerCode z := by
      have hbits' : (gcrDecode e s).bits = s.bits + 8 := Nat.mod_eq_of_lt (by omega)
      have hcount := hregs.count
      have hcount' := hpush.count
      simp only [length_append, length_cons, length_nil] at hcount hcount'
      rw [gcrValid_eq]
      rcases zs with - | ⟨z, - | ⟨z', zs⟩⟩
      · rw [head?_nil] at hhead
        split at hhead
        · cases hhead
        next hno => exact ⟨nofun, fun _ hle => absurd hle hno⟩
      · rw [head?_cons] at hhead
        split at hhead
        next hle =>
          rw [Option.some.injEq] at hhead
          rw [hhead]
          simp [hle]
        · cases hhead
      · simp only [length_cons] at hcount
        have : (gcrDecode e s).bits = (s.bits + 8) % 256 := rfl
        omega
    rw [decodeStream_cons]
    refine ⟨zs ++ zs', by rw [hout, hout', map_append], ?_, ?_, hlt'⟩
    · rw [forall_mem_cons, hvalid, hvalid', forall_mem_append]
    · rw [append_assoc, append_assoc] at hregs'
      exact hregs'

/-! ### There and back -/

/-- The complete groups of ten bits of an encoded stream. -/
def tenBits (es : List UInt8) : List Nat :=
  groupsOf 10 (8 * es.length / 10) (Nat.ofDigits (2 ^ 8) (es.map UInt8.toNat))

theorem toNat_map_ofNat {ys : List Nat} (h : ∀ y ∈ ys, y < 2 ^ 8) : (ys.map UInt8.ofNat).map UInt8.toNat = ys := by
  rw [map_map]
  conv_rhs => rw [← map_id ys]
  exact map_congr_left fun y hy => UInt8.toNat_ofNat_of_lt' (h y hy)

theorem ofNat_map_toNat (es : List UInt8) : (es.map UInt8.toNat).map UInt8.ofNat = es := by
  rw [map_map]
  conv_rhs => rw [← map_id es]
  exact map_congr_left fun e _ => UInt8.ofNat_toNat

/-- The bytes of a string come back from their codes. -/
theorem byteOf_map_codeOf (bs : List UInt8) : (bs.map fun b => codeOf b.toNat).map byteOf = bs := by
  rw [map_map]
  conv_rhs => rw [← map_id bs]
  exact map_congr_left fun b _ => (codeOf_spec b).2.2.2

/-- A byte string and its stream: the round trip, and the checks on the way. -/
theorem decode_encode (bs : List UInt8) : ((decodeStream (encodeStream bs gcrInit).1 gcrInit).1 = bs ↔ 4 ∣ bs.length)
    ∧ ∀ valid ∈ (decodeStream (encodeStream bs gcrInit).1 gcrInit).2.1, valid = true := by
  obtain ⟨ys, hout, hreg, hbits⟩ := encodeStream_spec bs (regroups_nil 10 8) (s := gcrInit) (by decide)
  rw [nil_append, nil_append] at hreg
  rw [hout]
  obtain ⟨zs, hback, hvalid, hreg', hbits'⟩ :=
    decodeStream_spec (ys.map UInt8.ofNat) (regroups_nil 8 10) (s := gcrInit) (by decide)
  rw [nil_append, nil_append, toNat_map_ofNat hreg.groups] at hreg'
  have hcodes : ∀ x ∈ bs.map fun b => codeOf b.toNat, x < 2 ^ 10 := by
    intro x hx
    obtain ⟨b, -, rfl⟩ := mem_map.mp hx
    exact (codeOf_spec b).1
  have htake := hreg.back_prefix hcodes hreg' (by decide)
  have hiff := hreg.back_iff hcodes hreg' hbits'
  have hcount := hreg.count
  rw [length_map] at hcount
  refine ⟨?_, hvalid.mpr fun z hz => ?_⟩
  · rw [hback]
    constructor
    · intro heq
      have hlen : zs.length = (bs.map fun b => codeOf b.toNat).length := by
        rw [length_map, ← heq, length_map]
      rw [hlen, take_length] at htake
      have := hiff.mp htake
      omega
    · intro hdvd
      rw [hiff.mpr (by omega)]
      exact byteOf_map_codeOf bs
  · rw [htake] at hz
    obtain ⟨b, -, rfl⟩ := mem_map.mp (mem_of_mem_take hz)
    exact (codeOf_spec b).2.2.1

/-- A stream and its bytes: what the checks look at, and when the stream comes back. -/
theorem encode_decode (es : List UInt8) :
    ((∀ valid ∈ (decodeStream es gcrInit).2.1, valid = true) ↔ ∀ g ∈ tenBits es, LowerCode g) ∧
    ((∀ g ∈ tenBits es, LowerCode g) →
       ((encodeStream (decodeStream es gcrInit).1 gcrInit).1 = es ↔
          5 ∣ es.length ∧ ∀ g ∈ tenBits es, UpperCode g)) := by
  obtain ⟨zs, hout, hvalid, hreg, hbits⟩ := decodeStream_spec es (regroups_nil 8 10) (s := gcrInit) (by decide)
  rw [nil_append, nil_append] at hreg
  have hgroups : zs = tenBits es := by
    have := hreg.eq_groupsOf hbits
    rwa [length_map] at this
  rw [← hgroups]
  refine ⟨hvalid, fun hlower => ?_⟩
  obtain ⟨ys, hback, hreg', hbits'⟩ :=
    encodeStream_spec (decodeStream es gcrInit).1 (regroups_nil 10 8) (s := gcrInit) (by decide)
  rw [hout] at hreg' hbits'
  rw [nil_append, nil_append, map_map] at hreg'
  have hbytes : ∀ e ∈ es.map UInt8.toNat, e < 2 ^ 8 := by
    intro e he
    obtain ⟨b, -, rfl⟩ := mem_map.mp he
    exact b.toNat_lt
  have hcount := hreg.count
  have hcount' := hreg'.count
  rw [length_map] at hcount hcount'
  have heq : (encodeStream (decodeStream es gcrInit).1 gcrInit).1 = es ↔ ys = es.map UInt8.toNat := by
    rw [hback]
    constructor
    · rintro rfl
      exact (toNat_map_ofNat hreg'.groups).symm
    · rintro rfl
      exact ofNat_map_toNat es
  rw [heq]
  constructor
  · rintro rfl
    rw [length_map] at hcount'
    have hsame := (hreg'.back_iff (fun x hx => ?_) hreg hbits).mpr (by omega)
    · have hwhole : 4 * es.length = 5 * zs.length := by omega
      refine ⟨by omega, fun z hz => ?_⟩
      rw [hsame] at hz
      obtain ⟨x, -, rfl⟩ := mem_map.mp hz
      exact (codeOf_spec (byteOf x)).2.1
    · obtain ⟨z, -, rfl⟩ := mem_map.mp hx
      exact (codeOf_spec (byteOf z)).1
  · rintro ⟨hlen, hupper⟩
    have hsame : zs.map ((fun b => codeOf b.toNat) ∘ byteOf) = zs := by
      conv_rhs => rw [← map_id zs]
      exact map_congr_left fun z hz => codeOf_byteOf (hreg.groups z hz) (hupper z hz) (hlower z hz)
    rw [hsame] at hreg'
    exact (hreg.back_iff hbytes hreg' hbits').mpr (by omega)

/-- What the coder is for, of a byte string and an encoded stream. -/
structure CodecRight (bs es : List UInt8) : Prop where
  roundTrip : (decodeStream (encodeStream bs gcrInit).1 gcrInit).1 = bs
  valid : ∀ valid ∈ (decodeStream (encodeStream bs gcrInit).1 gcrInit).2.1, valid = true
  unique : (∀ valid ∈ (decodeStream es gcrInit).2.1, valid = true) →
    (encodeStream (decodeStream es gcrInit).1 gcrInit).1 = es

/-- EXACT: the bits of the byte string fill whole bytes, and the encoded stream has an invalid lower half, or it
    consists of whole groups with valid upper halves. -/
theorem codecRight_iff (bs es : List UInt8) : CodecRight bs es ↔
    4 ∣ bs.length ∧ ((∀ g ∈ tenBits es, LowerCode g) → 5 ∣ es.length ∧ ∀ g ∈ tenBits es, UpperCode g) := by
  obtain ⟨htrip, hvalid⟩ := decode_encode bs
  obtain ⟨hchecks, hunique⟩ := encode_decode es
  constructor
  · rintro ⟨h1, -, h3⟩
    exact ⟨htrip.mp h1, fun hlower => (hunique hlower).mp (h3 (hchecks.mpr hlower))⟩
  · rintro ⟨h1, h3⟩
    exact ⟨htrip.mpr h1, hvalid, fun hall => (hunique (hchecks.mp hall)).mpr (h3 (hchecks.mp hall))⟩

/-- Encoding is complete if and only if the coder says that it is finished. -/
theorem gcrFinished_iff (bs : List UInt8) : gcrFinished (encodeStream bs gcrInit).2 = true ↔ 4 ∣ bs.length := by
  obtain ⟨ys, -, hreg, hbits⟩ := encodeStream_spec bs (regroups_nil 10 8) (s := gcrInit) (by decide)
  have hcount := hreg.count
  rw [nil_append, length_map] at hcount
  rw [gcrFinished, beq_iff_eq]
  omega

/-- A stream of zeroes but for a valid lower half in each group: all checks succeed, and another stream comes back. -/
theorem invalid_upper_half : ¬CodecRight [] [0x0a, 0x28, 0xa0, 0x80, 0x02] := by
  intro h
  exact absurd (h.unique (by decide)) (by decide)

end CSync.Gcr
