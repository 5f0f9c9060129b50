import CSync.Lib.Stores

/-! The TLV codec of LWM2M (`apps/oma-lwm2m/oma-tlv.c`).

    A record is a header byte, an identifier of one or two bytes, up to three bytes of length, and the value.
    The size, the check for space, the writer and the reader each work out these widths for themselves; the
    check for space forgets the identifier. A `size_t` has 32 bits or more. -/

namespace CSync.Lwm2m
open Lib List

/-- `oma_tlv_t`; `value` is what stands from the pointer on. -/
structure OmaTlv where
  type : UInt8
  id : UInt16
  length : UInt32
  value : Nat → UInt8

def getLenType (tlv : OmaTlv) : UInt8 :=
  if tlv.length < 8 then 0
  else if tlv.length < 256 then 1
  else if tlv.length < 0x10000 then 2
  else 3

/-- `1 << 5`: there are two bytes of identifier. -/
def wideBit : UInt8 := (1 : UInt8) <<< 5

/-- The loop of `oma_tlv_read` over the bytes of the length: `len_pos` and `tlv_len` behind it. -/
def readLength (buffer : Nat → UInt8) : Nat → Nat → Nat → Nat × Nat
  | 0, lenPos, tlvLen => (lenPos, tlvLen)
  | lenType + 1, lenPos, tlvLen => readLength buffer lenType (lenPos + 1) (tlvLen <<< 8 ||| (buffer lenPos).toNat)

/-- `oma_tlv_read`: the record and what is returned. -/
def omaTlvRead (buffer : Nat → UInt8) : OmaTlv × Nat :=
  let lenType := buffer 0 >>> 3 &&& 3
  let lenPos := 1 + if buffer 0 &&& wideBit ≠ 0 then 2 else 1
  let id := if 2 < lenPos then (buffer 1).toUInt16 <<< 8 + (buffer 2).toUInt16 else (buffer 1).toUInt16
  let len := if lenType = 0 then (lenPos, (buffer 0 &&& 7).toNat) else readLength buffer lenType.toNat lenPos 0
  ({ type := buffer 0 >>> 6 &&& 3
     id := id
     length := UInt32.ofNat len.2
     value := fun i => buffer (len.1 + i) }, len.1 + len.2)

def omaTlvGetSize (tlv : OmaTlv) : Nat :=
  1 + (getLenType tlv).toNat + (if 255 < tlv.id then 2 else 1) + tlv.length.toNat

/-- The parts of a header byte put together. -/
def packHeader (type : UInt8) (wide : Bool) (lenType low : UInt8) : UInt8 :=
  type <<< 6 ||| (if wide then wideBit else 0) ||| lenType <<< 3 ||| low

def headerByte (tlv : OmaTlv) : UInt8 :=
  packHeader tlv.type (255 < tlv.id) (getLenType tlv) (if getLenType tlv = 0 then tlv.length.toUInt8 else 0)

def writeHeader (tlv : OmaTlv) : Writer :=
  let lenType := getLenType tlv
  let w : Writer := ⟨1, [(0, headerByte tlv)]⟩
  let w := if 255 < tlv.id then w.put (tlv.id >>> 8).toUInt8 else w
  let w := w.put tlv.id.toUInt8
  let w := if 2 < lenType then w.put (tlv.length >>> 16).toUInt8 else w
  let w := if 1 < lenType then w.put (tlv.length >>> 8).toUInt8 else w
  if 0 < lenType then w.put tlv.length.toUInt8 else w

/-- `oma_tlv_write`: what is returned, and the stores into `buffer`. -/
def omaTlvWrite (tlv : OmaTlv) (len : Nat) : Nat × List (Nat × UInt8) :=
  let pos := 1 + (getLenType tlv).toNat
  if len < tlv.length.toNat + pos then (0, [])
  else
    let w := writeHeader tlv
    (w.pos + tlv.length.toNat, (w.copy tlv.value tlv.length.toNat).stores)

/-! ### The bytes of a record -/

/-- The bytes of the identifier and those of the length. -/
def idBytes (tlv : OmaTlv) : List UInt8 :=
  (if 255 < tlv.id then [(tlv.id >>> 8).toUInt8] else []) ++ [tlv.id.toUInt8]
def lengthBytes (tlv : OmaTlv) : List UInt8 :=
  (if 2 < getLenType tlv then [(tlv.length >>> 16).toUInt8] else []) ++
    (if 1 < getLenType tlv then [(tlv.length >>> 8).toUInt8] else []) ++
    (if 0 < getLenType tlv then [tlv.length.toUInt8] else [])

/-- The bytes in front of the value. -/
def headerBytes (tlv : OmaTlv) : List UInt8 := headerByte tlv :: (idBytes tlv ++ lengthBytes tlv)

/-- A byte that is stored or not. -/
theorem packed_ite {w : Writer} {bs : List UInt8} (h : w.Packed bs ∧ w.pos = bs.length) (c : Prop) [Decidable c]
    (b : UInt8) : (if c then w.put b else w).Packed (bs ++ if c then [b] else []) ∧
      (if c then w.put b else w).pos = (bs ++ if c then [b] else []).length := by
  split
  · exact Writer.packed_put h.1 h.2 b
  · rw [append_nil]
    exact h

theorem packed_writeHeader (tlv : OmaTlv) :
    (writeHeader tlv).Packed (headerBytes tlv) ∧ (writeHeader tlv).pos = (headerBytes tlv).length := by
  have hfirst : Writer.Packed ⟨1, [(0, headerByte tlv)]⟩ [headerByte tlv] ∧
      (⟨1, [(0, headerByte tlv)]⟩ : Writer).pos = [headerByte tlv].length := ⟨rfl, rfl⟩
  have hhigh := packed_ite hfirst (255 < tlv.id) (tlv.id >>> 8).toUInt8
  have hid := Writer.packed_put hhigh.1 hhigh.2 tlv.id.toUInt8
  have hlen2 := packed_ite hid (2 < getLenType tlv) (tlv.length >>> 16).toUInt8
  have hlen1 := packed_ite hlen2 (1 < getLenType tlv) (tlv.length >>> 8).toUInt8
  have hall := packed_ite hlen1 (0 < getLenType tlv) tlv.length.toUInt8
  simp only [append_assoc, cons_append, nil_append] at hall
  simp only [headerBytes, idBytes, lengthBytes, append_assoc]
  exact hall

variable {tlv : OmaTlv} {m : Nat → UInt8}

theorem lenType_cases (h : tlv.length.toNat < 2 ^ 24) :
    (getLenType tlv = 0 ∧ tlv.length.toNat < 8) ∨ (getLenType tlv = 1 ∧ tlv.length.toNat < 256) ∨
      (getLenType tlv = 2 ∧ tlv.length.toNat < 256 ^ 2) ∨ (getLenType tlv = 3 ∧ tlv.length.toNat < 256 ^ 3) := by
  rw [getLenType]
  split
  · exact .inl ⟨rfl, UInt32.lt_iff_toNat_lt.mp ‹_›⟩
  · split
    · exact .inr (.inl ⟨rfl, UInt32.lt_iff_toNat_lt.mp ‹_›⟩)
    · split
      · exact .inr (.inr (.inl ⟨rfl, UInt32.lt_iff_toNat_lt.mp ‹_›⟩))
      · exact .inr (.inr (.inr ⟨rfl, h⟩))

theorem length_idBytes (tlv : OmaTlv) : (idBytes tlv).length = if 255 < tlv.id then 2 else 1 := by
  rw [idBytes]
  split <;> rfl

theorem length_lengthBytes (h : tlv.length.toNat < 2 ^ 24) : (lengthBytes tlv).length = (getLenType tlv).toNat := by
  rw [lengthBytes]
  rcases lenType_cases h with ⟨ht, _⟩ | ⟨ht, _⟩ | ⟨ht, _⟩ | ⟨ht, _⟩ <;> rw [ht] <;> rfl

theorem size_eq (h : tlv.length.toNat < 2 ^ 24) :
    omaTlvGetSize tlv = (headerBytes tlv).length + tlv.length.toNat := by
  rw [omaTlvGetSize, headerBytes, length_cons, length_append, length_idBytes, length_lengthBytes h]
  omega

theorem packHeader_fields : ∀ (type lenType : Fin 4) (wide : Bool) (low : Fin 8),
    let b := packHeader (UInt8.ofNat type) wide (UInt8.ofNat lenType) (UInt8.ofNat low)
    b >>> 6 &&& 3 = UInt8.ofNat type ∧ b >>> 3 &&& 3 = UInt8.ofNat lenType ∧
      (b &&& wideBit ≠ 0 ↔ wide = true) ∧ b &&& 7 = UInt8.ofNat low := by
  decide

theorem low_cases (hlen : tlv.length.toNat < 2 ^ 24) : ∃ low : Fin 8,
    (if getLenType tlv = 0 then tlv.length.toUInt8 else 0) = UInt8.ofNat low ∧
      (getLenType tlv = 0 → low.val = tlv.length.toNat) := by
  split
  next hzero =>
    have hsmall : tlv.length.toNat < 8 := by
      rcases lenType_cases hlen with ⟨_, h⟩ | ⟨h, _⟩ | ⟨h, _⟩ | ⟨h, _⟩
      · exact h
      all_goals
        rw [h] at hzero
        cases hzero
    refine ⟨⟨tlv.length.toNat, hsmall⟩, ?_, fun _ => rfl⟩
    rw [← UInt8.toNat_inj, UInt32.toNat_toUInt8, UInt8.toNat_ofNat']
  · exact ⟨0, rfl, fun h => absurd h ‹_›⟩

theorem headerByte_fields (htype : tlv.type < 4) (hlen : tlv.length.toNat < 2 ^ 24) : headerByte tlv >>> 6 &&& 3 =
    tlv.type ∧ headerByte tlv >>> 3 &&& 3 = getLenType tlv ∧ (headerByte tlv &&& wideBit ≠ 0 ↔ 255 < tlv.id) ∧
    (getLenType tlv = 0 → (headerByte tlv &&& 7).toNat = tlv.length.toNat) := by
  obtain ⟨type, htype⟩ := exists_fin (n := 4) rfl htype
  have hlt : getLenType tlv < 4 := by
    rcases lenType_cases hlen with ⟨h, _⟩ | ⟨h, _⟩ | ⟨h, _⟩ | ⟨h, _⟩ <;> rw [h] <;> decide
  obtain ⟨lenType, hlt⟩ := exists_fin (n := 4) rfl hlt
  obtain ⟨low, hlow, hvalue⟩ := low_cases hlen
  obtain ⟨hfirst, hsecond, hthird, hfourth⟩ := packHeader_fields type lenType (255 < tlv.id) low
  have hbyte : headerByte tlv = packHeader (UInt8.ofNat type) (255 < tlv.id) (UInt8.ofNat lenType) (UInt8.ofNat low) := by
    rw [headerByte, hlow, htype, hlt]
  rw [hbyte, htype, hlt]
  refine ⟨hfirst, hsecond, hthird.trans decide_eq_true_iff, fun hzero => ?_⟩
  rw [hfourth, ← hvalue (hlt.trans hzero), UInt8.toNat_ofNat']
  omega

/-! ### Reading back -/

theorem shiftLeft_or (n : Nat) (b : UInt8) : n <<< 8 ||| b.toNat = n * 256 + b.toNat := by
  rw [← Nat.shiftLeft_add_eq_or_of_lt b.toNat_lt, Nat.shiftLeft_eq]

/-- The identifier is read back. -/
theorem id_of_holds (h : Holds m 1 (idBytes tlv)) :
    (if 255 < tlv.id then (m 1).toUInt16 <<< 8 + (m 2).toUInt16 else (m 1).toUInt16) = tlv.id := by
  have hid := tlv.id.toNat_lt
  rw [idBytes] at h
  split
  next hwide =>
    rw [if_pos hwide, singleton_append, holds_cons, holds_cons] at h
    rw [h.1, h.2.1, ← UInt16.toNat_inj]
    simp [Nat.shiftRight_eq_div_pow, Nat.shiftLeft_eq]
    omega
  next hnarrow =>
    rw [if_neg hnarrow, nil_append, holds_cons] at h
    rw [h.1, ← UInt16.toNat_inj]
    rw [UInt16.lt_iff_toNat_lt] at hnarrow
    simp at hnarrow ⊢
    omega

theorem readLength_of_holds {p : Nat} (hlen : tlv.length.toNat < 2 ^ 24)
    (hpos : getLenType tlv ≠ 0) (h : Holds m p (lengthBytes tlv)) :
    readLength m (getLenType tlv).toNat p 0 = (p + (getLenType tlv).toNat, tlv.length.toNat) := by
  rw [lengthBytes] at h
  rcases lenType_cases hlen with ⟨ht, _⟩ | ⟨ht, hlt⟩ | ⟨ht, hlt⟩ | ⟨ht, hlt⟩
  · exact absurd ht hpos
  all_goals
    rw [ht] at h ⊢
    simp only [UInt8.reduceLT, if_true, if_false, nil_append, cons_append, holds_cons] at h
    simp only [UInt8.reduceToNat, readLength, shiftLeft_or, h.1, h.2, add_assoc, Nat.reduceAdd,
      Prod.mk.injEq, true_and]
    simp [Nat.shiftRight_eq_div_pow] at *
    omega

/-- `r` is what reading `tlv` gives. -/
structure Recovers (tlv : OmaTlv) (r : OmaTlv × Nat) : Prop where
  size : r.2 = omaTlvGetSize tlv
  type : r.1.type = tlv.type
  id : r.1.id = tlv.id
  length : r.1.length = tlv.length
  value : ∀ i < tlv.length.toNat, r.1.value i = tlv.value i

/-- A record that stands in a buffer is read back. -/
theorem recovers_read (htype : tlv.type < 4) (hlen : tlv.length.toNat < 2 ^ 24) (h : Holds m 0 (headerBytes tlv ++
    slice tlv.value 0 tlv.length.toNat)) : Recovers tlv (omaTlvRead m) := by
  rw [holds_append, headerBytes, holds_cons, holds_append, zero_add, zero_add,
    length_cons, length_append, length_lengthBytes hlen] at h
  obtain ⟨⟨hfirst, hid, hlength⟩, hvalue⟩ := h
  obtain ⟨hftype, hflen, hfwide, hflow⟩ := headerByte_fields htype hlen
  have hlenPos : 1 + (if m 0 &&& wideBit ≠ 0 then 2 else 1) = 1 + (idBytes tlv).length := by
    rw [length_idBytes, hfirst]
    simp only [hfwide]
  have hwide : 2 < 1 + (idBytes tlv).length ↔ 255 < tlv.id := by
    rw [length_idBytes]
    split <;> simp [*]
  have hlenRead : (if m 0 >>> 3 &&& 3 = 0 then (1 + (idBytes tlv).length, (m 0 &&& 7).toNat)
      else readLength m (m 0 >>> 3 &&& 3).toNat (1 + (idBytes tlv).length) 0) =
      (1 + (idBytes tlv).length + (getLenType tlv).toNat, tlv.length.toNat) := by
    rw [hfirst, hflen]
    split
    next hzero =>
      rw [hflow hzero, hzero]
      rfl
    · exact readLength_of_holds hlen ‹_› hlength
  have hread : omaTlvRead m = (⟨tlv.type, tlv.id, tlv.length,
      fun i => m (1 + (idBytes tlv).length + (getLenType tlv).toNat + i)⟩,
      1 + (idBytes tlv).length + (getLenType tlv).toNat + tlv.length.toNat) := by
    rw [omaTlvRead]
    simp only [hlenPos, hlenRead, hwide, id_of_holds hid]
    rw [hfirst, hftype]
    simp
  rw [hread]
  refine ⟨?_, rfl, rfl, rfl, fun i hi => ?_⟩
  · rw [omaTlvGetSize, length_idBytes]
    omega
  · have hbyte := holds_slice hvalue i hi
    rw [zero_add, add_comm _ 1, ← add_assoc] at hbyte
    exact hbyte

theorem omaTlvWrite_of_room {len : Nat} (h : ¬ len < tlv.length.toNat + (1 + (getLenType tlv).toNat))
    (hlen : tlv.length.toNat < 2 ^ 24) : omaTlvWrite tlv len =
      (omaTlvGetSize tlv, (headerBytes tlv ++ slice tlv.value 0 tlv.length.toNat).mapIdx Prod.mk) := by
  obtain ⟨hpacked, hpos⟩ := packed_writeHeader tlv
  have hstores := Writer.packed_copy hpacked hpos tlv.value tlv.length.toNat
  rw [omaTlvWrite, if_neg h, size_eq hlen, ← hpos]
  exact congrArg _ hstores

theorem recovers_stored {len : Nat} {buffer : Nat → UInt8} (htype : tlv.type < 4) (hlen : tlv.length.toNat < 2 ^ 24)
    (hwritten : (omaTlvWrite tlv len).1 ≠ 0) :
    Recovers tlv (omaTlvRead (stored buffer (omaTlvWrite tlv len).2)) := by
  have hroom : ¬ len < tlv.length.toNat + (1 + (getLenType tlv).toNat) := fun h => hwritten (by
    rw [omaTlvWrite, if_pos h])
  rw [omaTlvWrite_of_room hroom hlen, stored_mapIdx]
  exact recovers_read htype hlen (holds_store buffer 0 _)

/-- What the codec promises of a record and a buffer of `len` bytes. -/
def RoundTrips (tlv : OmaTlv) (len : Nat) (buffer : Nat → UInt8) : Prop :=
  if len < omaTlvGetSize tlv then omaTlvWrite tlv len = (0, [])
  else (omaTlvWrite tlv len).1 = omaTlvGetSize tlv ∧
    (omaTlvWrite tlv len).2.map Prod.fst = range (omaTlvGetSize tlv) ∧
    (∀ s ∈ (omaTlvWrite tlv len).2, s.1 < len) ∧
    Recovers tlv (omaTlvRead (stored buffer (omaTlvWrite tlv len).2))

/-- The check for space leaves out the identifier. The codec keeps its promise just when the buffer
    holds the record, or is too small for the record even without its identifier. -/
theorem roundTrips_iff (tlv : OmaTlv) (len : Nat) (buffer : Nat → UInt8) (htype : tlv.type < 4)
    (hlen : tlv.length.toNat < 2 ^ 24) : RoundTrips tlv len buffer ↔
      omaTlvGetSize tlv ≤ len ∨ len < tlv.length.toNat + 1 + (getLenType tlv).toNat := by
  have hbig : tlv.length.toNat + 1 + (getLenType tlv).toNat < omaTlvGetSize tlv := by
    rw [omaTlvGetSize]
    split <;> omega
  rw [RoundTrips]
  rcases lt_or_ge len (tlv.length.toNat + (1 + (getLenType tlv).toNat)) with hsmall | hroom
  · have hnothing : omaTlvWrite tlv len = (0, []) := if_pos hsmall
    rw [if_pos (by omega), hnothing]
    exact iff_of_true rfl (.inr (by omega))
  · have hwrite := omaTlvWrite_of_room (not_lt.mpr hroom) hlen
    split
    · -- the record does not fit, and is written all the same
      refine iff_of_false (fun h => ?_) (by omega)
      have hzero := congrArg Prod.fst (hwrite.symm.trans h)
      omega
    · refine iff_of_true ?_ (.inl (by omega))
      have hindices : (omaTlvWrite tlv len).2.map Prod.fst = range (omaTlvGetSize tlv) := by
        rw [hwrite, map_fst_mapIdx, length_append, length_slice, size_eq hlen]
      refine ⟨congrArg Prod.fst hwrite, hindices, fun s hs => ?_, recovers_stored htype hlen ?_⟩
      · have hmem := mem_map_of_mem (f := Prod.fst) hs
        rw [hindices, mem_range] at hmem
        omega
      · rw [hwrite]
        omega

/-- A resource 5 of one byte. -/
def oneByte : OmaTlv := ⟨3, 5, 1, fun _ => 0x61⟩

/-- A record of one byte is written into a buffer that has room for it, and comes back. -/
theorem roundTrips_oneByte : RoundTrips oneByte 3 fun _ => 0 :=
  (roundTrips_iff oneByte 3 (fun _ => 0) (by decide) (by decide)).mpr (.inl (by decide))

/-- The record takes three bytes; all three are written into a buffer of two. -/
theorem not_roundTrips_oneByte : omaTlvGetSize oneByte = 3 ∧
    omaTlvWrite oneByte 2 = (3, [(0, 0xc1), (1, 5), (2, 0x61)]) ∧ ¬ RoundTrips oneByte 2 fun _ => 0 := by
  refine ⟨by decide, by decide, fun h => ?_⟩
  rw [RoundTrips, if_pos (by decide)] at h
  revert h
  decide

end CSync.Lwm2m
