import CSync.Coffee.Pages

/-! File headers on the flash: what is written is read back, and a write in one page does not show in the
    header of another. -/

namespace CSync.Coffee

open Lib

theorem HdrFlags.ofByte_toByte (h : HdrFlags) : HdrFlags.ofByte h.toByte = h := by
  obtain ⟨valid, allocated, obsolete, modified, log, isolated⟩ := h
  cases valid <;> cases allocated <;> cases obsolete <;> cases modified <;> cases log <;>
    cases isolated <;> rfl

variable {c : Config}

/-- The numbers of a header fit into their fields. -/
structure FileHeader.Fits (c : Config) (h : FileHeader) : Prop where
  logPage : h.logPage < 65536
  logRecords : h.logRecords < 65536
  logRecordSize : h.logRecordSize < 65536
  maxPages : h.maxPages < 65536
  name : h.name.length = c.nameLength

/-- The header that `write_header` writes. -/
def FileHeader.written (h : FileHeader) : FileHeader := { h with flags := { h.flags with valid := true } }

theorem FileHeader.length_bytes {h : FileHeader} (hfits : h.Fits c) : h.bytes.length = c.headerSize := by
  simp [FileHeader.bytes, hfits.name, Config.headerSize]
  omega

theorem headerSize_le (c : Config) : c.headerSize ≤ c.pageSize := c.header_le

theorem pageSize_pos (c : Config) : 0 < c.pageSize := lt_of_lt_of_le (by omega) c.header_le

theorem ofLe_two_lt (f : Nat → UInt8) (o : Nat) : ofLe (slice f o 2) < 65536 := by
  have h0 := (f o).toNat_lt
  have h1 := (f (o + 1)).toNat_lt
  simp only [slice, ofLe]
  omega

variable {f : Nat → UInt8} {page : Nat} {hdr : FileHeader}

theorem readHeader_congr {g : Nat → UInt8} (h : ∀ a, page * c.pageSize ≤ a → a < page * c.pageSize + c.headerSize → f
    a = g a) : readHeader c f page = readHeader c g page := by
  have hs : c.headerSize = 10 + c.nameLength := rfl
  have hslice : ∀ i len, i + len ≤ c.headerSize →
      slice f (page * c.pageSize + i) len = slice g (page * c.pageSize + i) len :=
    fun i len hle => slice_congr fun a hlo hhi => h a (by omega) (by omega)
  simp only [readHeader]
  rw [← add_zero (page * c.pageSize), hslice 0 2 (by omega), add_zero, hslice 2 2 (by omega),
    hslice 4 2 (by omega), hslice 6 2 (by omega), hslice 10 c.nameLength (by omega),
    h (page * c.pageSize + 8) (by omega) (by omega), h (page * c.pageSize + 9) (by omega) (by omega)]

theorem readHeader_of_holds {h : FileHeader} (hfits : h.Fits c)
    (hholds : Holds f (page * c.pageSize) h.bytes) : readHeader c f page = h := by
  simp only [FileHeader.bytes, holds_append, length_toLe, List.length_append, List.length_cons,
    List.length_nil, holds_cons] at hholds
  obtain ⟨⟨⟨⟨⟨hlogPage, hlogRecords⟩, hlogRecordSize⟩, hmaxPages⟩, hhint, hflags, -⟩, hname⟩ := hholds
  obtain ⟨logPage, logRecords, logRecordSize, maxPages, hint, flags, name⟩ := h
  obtain ⟨h1, h2, h3, h4, hlen⟩ := hfits
  simp only [Holds, length_toLe] at hlogPage hlogRecords hlogRecordSize hmaxPages hname
  rw [hlen] at hname
  simp only [readHeader, FileHeader.mk.injEq]
  refine ⟨?_, ?_, ?_, ?_, hhint, ?_, ?_⟩
  · rw [hlogPage, ofLe_toLe h1]
  · rw [hlogRecords, ofLe_toLe h2]
  · rw [hlogRecordSize, ofLe_toLe h3]
  · rw [hmaxPages, ofLe_toLe h4]
  · rw [hflags, HdrFlags.ofByte_toByte]
  · exact hname

/-! ### Writes of headers -/

theorem writeHeader_bytes (hfits : hdr.Fits c) : hdr.written.bytes.length = c.headerSize :=
  FileHeader.length_bytes ⟨hfits.logPage, hfits.logRecords, hfits.logRecordSize, hfits.maxPages, hfits.name⟩

theorem readHeader_writeHeader (hfits : hdr.Fits c) (page : Nat) (f : Nat → UInt8) :
    readHeader c (writeHeader c hdr page f) page = hdr.written :=
  readHeader_of_holds ⟨hfits.logPage, hfits.logRecords, hfits.logRecordSize, hfits.maxPages, hfits.name⟩
    (holds_store f _ _)

/-- The page of an address. -/
def InPage (c : Config) (page a : Nat) : Prop := page * c.pageSize ≤ a ∧ a < (page + 1) * c.pageSize

theorem writeHeader_outside (hfits : hdr.Fits c) {a : Nat}
    (ha : ¬InPage c page a) : writeHeader c hdr page f a = f a := by
  refine store_outside ?_
  have hlen := writeHeader_bytes hfits
  have hle := headerSize_le c
  rw [InPage, add_mul, one_mul] at ha
  rw [FileHeader.written] at hlen
  omega

/-- Pages do not overlap. -/
theorem InPage.unique {p q a : Nat} (hp : InPage c p a) (hq : InPage c q a) : p = q := by
  have h1 : p * c.pageSize < (q + 1) * c.pageSize := by have := hp.1; have := hq.2; omega
  have h2 : q * c.pageSize < (p + 1) * c.pageSize := by have := hq.1; have := hp.2; omega
  have h1 := Nat.lt_of_mul_lt_mul_right h1
  have h2 := Nat.lt_of_mul_lt_mul_right h2
  omega

theorem readHeader_page {g : Nat → UInt8} (h : ∀ a, InPage c page a → f a = g a) :
    readHeader c f page = readHeader c g page := by
  refine readHeader_congr fun a hlo hhi => h a ⟨hlo, ?_⟩
  have := headerSize_le c
  rw [add_mul, one_mul]
  omega

theorem readHeader_writeHeader_of_ne (hfits : hdr.Fits c) {q : Nat} (hne : q ≠ page) (f : Nat → UInt8) :
    readHeader c (writeHeader c hdr page f) q = readHeader c f q :=
  readHeader_page fun _ ha => writeHeader_outside hfits fun hp => hne (ha.unique hp)

theorem free_of_zero (h : ∀ a, InPage c page a → f a = 0) : (readHeader c f page).free = true := by
  rw [readHeader_page (g := fun _ => 0) h]
  show (!(HdrFlags.ofByte 0).allocated) = true
  decide

end CSync.Coffee
