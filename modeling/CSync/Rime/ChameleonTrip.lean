import CSync.Rime.ChameleonCodec

/-! The round trip of a bit-optimised header: what the receiver has of the attributes that the sender packed. -/

namespace CSync.Chameleon

open Lib List

variable {m r stack : Nat → UInt8}

/-! ### The attributes of a header -/

section
variable {cfg : Config} {attrs attrs' : Nat → UInt16} {addrs addrs' : Nat → Nat → UInt8} {hdrptr bitptr : Nat}
  {l : List Attr}

/-- The attributes that a header has. -/
def carried (cfg : Config) (l : List Attr) : List Attr := l.filter fun a => !leftToLinkLayer cfg a

def bitsOf (l : List Attr) : Nat := (l.map Attr.len).sum

@[simp] theorem bitsOf_cons (a : Attr) (l : List Attr) : bitsOf (a :: l) = a.len + bitsOf l := sum_cons

variable {a : Attr}

theorem carried_cons (ha : leftToLinkLayer cfg a = false) : carried cfg (a :: l) = a :: carried cfg l :=
  filter_cons_of_pos (by simp [ha])

theorem carried_skip (ha : leftToLinkLayer cfg a = true) : carried cfg (a :: l) = carried cfg l :=
  filter_cons_of_neg (by simp [ha])

theorem headerSize_eq (cfg : Config) (l : List Attr) : headerSize cfg l = bitsOf (carried cfg l) := by
  induction l with
  | nil => rfl
  | cons a as ih =>
    rw [headerSize]
    cases ha : leftToLinkLayer cfg a
    · rw [carried_cons ha, bitsOf_cons, ← ih]
      rfl
    · rw [carried_skip ha, ← ih]
      rfl

theorem packLoop_cons (ha : leftToLinkLayer cfg a = false) (m : Nat → UInt8) :
    packLoop cfg attrs addrs hdrptr (a :: l) bitptr m = packLoop cfg attrs addrs hdrptr l (bitptr + a.len)
      (setBits m (hdrptr + bitptr / 8) (bitptr % 8) (valueBytes cfg attrs addrs a.type) a.len) := by
  rw [packLoop, ha]
  rfl

theorem packLoop_carried (m : Nat → UInt8) :
    packLoop cfg attrs addrs hdrptr l bitptr m = packLoop cfg attrs addrs hdrptr (carried cfg l) bitptr m := by
  induction l generalizing bitptr m with
  | nil => rfl
  | cons a as ih =>
    cases ha : leftToLinkLayer cfg a
    · rw [carried_cons ha, packLoop_cons ha, packLoop_cons ha]
      exact ih _
    · rw [carried_skip ha, packLoop, ha]
      exact ih _

/-- The attributes behind an entry that is read. -/
def unpacked (cfg : Config) (r stack : Nat → UInt8) (hdrptr bitptr : Nat) (a : Attr)
    (s : (Nat → UInt16) × (Nat → Nat → UInt8)) : (Nat → UInt16) × (Nat → Nat → UInt8) :=
  if isAddr cfg a.type then
    (s.1, Function.update s.2 a.type (getBits stack r (hdrptr + bitptr / 8) (bitptr % 8) a.len))
  else
    (Function.update s.1 a.type (le16Read (getBits (fun _ => 0) r (hdrptr + bitptr / 8) (bitptr % 8) a.len)), s.2)

theorem unpackLoop_cons (ha : leftToLinkLayer cfg a = false) (s : (Nat → UInt16) × (Nat → Nat → UInt8)) :
    unpackLoop cfg r stack hdrptr (a :: l) bitptr s =
      unpackLoop cfg r stack hdrptr l (bitptr + a.len) (unpacked cfg r stack hdrptr bitptr a s) := by
  rw [unpackLoop, ha, unpacked]
  cases isAddr cfg a.type
  · rfl
  · rfl

theorem unpackLoop_carried (s : (Nat → UInt16) × (Nat → Nat → UInt8)) :
    unpackLoop cfg r stack hdrptr l bitptr s = unpackLoop cfg r stack hdrptr (carried cfg l) bitptr s := by
  induction l generalizing bitptr s with
  | nil => rfl
  | cons a as ih =>
    cases ha : leftToLinkLayer cfg a
    · rw [carried_cons ha, unpackLoop_cons ha, unpackLoop_cons ha]
      exact ih _
    · rw [carried_skip ha, unpackLoop, ha]
      exact ih _

def AllCarried (cfg : Config) (l : List Attr) : Prop := ∀ a ∈ l, leftToLinkLayer cfg a = false

theorem allCarried_carried (cfg : Config) (l : List Attr) : AllCarried cfg (carried cfg l) := by
  intro a ha
  have := (mem_filter.mp ha).2
  rwa [Bool.not_eq_true'] at this

/-- The lengths of the entries, and the values of the attributes. -/
structure InDomain (cfg : Config) (attrs : Nat → UInt16) (l : List Attr) : Prop where
  attr : ∀ a ∈ l, isAddr cfg a.type = false → 1 ≤ a.len ∧ a.len ≤ 16 ∧ (attrs a.type).toNat < 2 ^ a.len
  addr : ∀ a ∈ l, isAddr cfg a.type = true → ∃ k, a.len = 8 * k ∧ 1 ≤ k ∧ k ≤ cfg.linkaddrSize

theorem InDomain.sub {l' : List Attr} (h : InDomain cfg attrs l) (hsub : ∀ a ∈ l', a ∈ l) : InDomain cfg attrs l' :=
  ⟨fun a ha => h.attr a (hsub a ha), fun a ha => h.addr a (hsub a ha)⟩

theorem InDomain.pos (h : InDomain cfg attrs l) (ha : a ∈ l) : 1 ≤ a.len := by
  cases htype : isAddr cfg a.type
  · exact (h.attr a ha htype).1
  · obtain ⟨k, hk, hpos, -⟩ := h.addr a ha htype
    omega

theorem InDomain.short (addrs : Nat → Nat → UInt8) (h : InDomain cfg attrs l) (ha : a ∈ l) (hlen : a.len < 8) :
    (valueBytes cfg attrs addrs a.type 0).toNat < 2 ^ a.len := by
  cases htype : isAddr cfg a.type
  · have hv := (h.attr a ha htype).2.2
    simp only [valueBytes, htype, Bool.false_eq_true, ↓reduceIte, le16Write, UInt8.toNat_ofNat']
    exact lt_of_le_of_lt ((Nat.mod_le _ _).trans (Nat.mod_le _ _)) hv
  · obtain ⟨k, hk, hpos, -⟩ := h.addr a ha htype
    omega

/-- The attributes stand in a header one behind the other. -/
def FieldsAt (cfg : Config) (r : Nat → UInt8) (attrs : Nat → UInt16) (addrs : Nat → Nat → UInt8) (hdrptr : Nat) :
    List Attr → Nat → Prop
  | [], _ => True
  | a :: as, bitptr =>
    FieldAt r (valueBytes cfg attrs addrs a.type) (hdrptr + bitptr / 8) (bitptr % 8) a.len ∧
      FieldsAt cfg r attrs addrs hdrptr as (bitptr + a.len)

theorem FieldsAt.congr (h : FieldsAt cfg m attrs addrs hdrptr l bitptr) (hsame : ∀ i, 8 * hdrptr + bitptr ≤ i → i < 8
    * hdrptr + bitptr + bitsOf l → bitAt r i = bitAt m i) : FieldsAt cfg r attrs addrs hdrptr l bitptr := by
  induction l generalizing bitptr with
  | nil => trivial
  | cons a as ih =>
    rw [bitsOf_cons] at hsame
    refine ⟨fun t ht => ?_, ih h.2 fun i hlo hhi => hsame i (by omega) (by omega)⟩
    rw [hsame _ (by omega) (by omega)]
    exact h.1 t ht

/-- PACKED: the loop leaves the attributes in the header, and what is in front of it alone. -/
theorem packLoop_fields (attrs : Nat → UInt16) (addrs : Nat → Nat → UInt8) (hall : AllCarried cfg l) (hdom : InDomain cfg attrs l) {m : Nat → UInt8}
    (hclear : ClearFrom m (8 * hdrptr + bitptr) (bitsOf l)) :
    FieldsAt cfg (packLoop cfg attrs addrs hdrptr l bitptr m) attrs addrs hdrptr l bitptr ∧
      ∀ i < 8 * hdrptr + bitptr, bitAt (packLoop cfg attrs addrs hdrptr l bitptr m) i = bitAt m i := by
  induction l generalizing bitptr m with
  | nil => exact ⟨trivial, fun _ _ => rfl⟩
  | cons a as ih =>
    rw [bitsOf_cons] at hclear
    have hfield : ClearFrom m (8 * (hdrptr + bitptr / 8) + bitptr % 8) a.len :=
      fun i hlo hhi => hclear i (by omega) (by omega)
    have hset : Written m _ _ a.len _ := written_setBits (Nat.mod_lt bitptr (by decide))
      (fun hlen => hdom.short addrs mem_cons_self hlen) hfield
    have hbehind : ClearFrom (setBits m (hdrptr + bitptr / 8) (bitptr % 8) (valueBytes cfg attrs addrs a.type) a.len)
        (8 * hdrptr + (bitptr + a.len)) (bitsOf as) :=
      hset.clear (by omega) fun i hlo hhi => hclear i (by omega) (by omega)
    obtain ⟨hrest, hfront⟩ := ih (fun b hb => hall b (mem_cons_of_mem a hb))
      (hdom.sub fun b hb => mem_cons_of_mem a hb) hbehind
    rw [packLoop_cons (hall a mem_cons_self)]
    refine ⟨⟨fun t ht => ?_, hrest⟩, fun i hi => ?_⟩
    · rw [hfront _ (by omega)]
      exact hset.inside ht
    · rw [hfront i (by omega)]
      exact hset.outside (.inl (by omega))

/-- What is read of an attribute is what it is. -/
def FieldRead (cfg : Config) (r stack : Nat → UInt8) (attrs : Nat → UInt16) (addrs : Nat → Nat → UInt8)
    (hdrptr bitptr : Nat) (a : Attr) : Prop :=
  if isAddr cfg a.type then
    ∀ i < cfg.linkaddrSize, getBits stack r (hdrptr + bitptr / 8) (bitptr % 8) a.len i = addrs a.type i
  else le16Read (getBits (fun _ => 0) r (hdrptr + bitptr / 8) (bitptr % 8) a.len) = attrs a.type

/-- The last entry of every type is read. -/
def AllRead (cfg : Config) (r stack : Nat → UInt8) (attrs : Nat → UInt16) (addrs : Nat → Nat → UInt8)
    (hdrptr : Nat) : List Attr → Nat → Prop
  | [], _ => True
  | a :: as, bitptr =>
    ((∀ b ∈ as, b.type ≠ a.type) → FieldRead cfg r stack attrs addrs hdrptr bitptr a) ∧
      AllRead cfg r stack attrs addrs hdrptr as (bitptr + a.len)

/-- The receiver has of a type what the sender had. -/
def Restored (cfg : Config) (attrs : Nat → UInt16) (addrs : Nat → Nat → UInt8) (attrs' : Nat → UInt16)
    (addrs' : Nat → Nat → UInt8) (type : Nat) : Prop :=
  if isAddr cfg type then ∀ i < cfg.linkaddrSize, addrs' type i = addrs type i else attrs' type = attrs type

theorem unpacked_other {type : Nat} (hne : type ≠ a.type) (s : (Nat → UInt16) × (Nat → Nat → UInt8)) : (unpacked cfg r
    stack hdrptr bitptr a s).1 type = s.1 type ∧ (unpacked cfg r stack hdrptr bitptr a s).2 type = s.2 type := by
  rw [unpacked]
  split
  · exact ⟨rfl, Function.update_of_ne hne _ _⟩
  · exact ⟨Function.update_of_ne hne _ _, rfl⟩

theorem restored_unpacked (a : Attr) (s : (Nat → UInt16) × (Nat → Nat → UInt8)) :
    Restored cfg attrs addrs (unpacked cfg r stack hdrptr bitptr a s).1 (unpacked cfg r stack hdrptr bitptr a s).2
      a.type ↔
      FieldRead cfg r stack attrs addrs hdrptr bitptr a := by
  rw [Restored, FieldRead, unpacked]
  cases isAddr cfg a.type
  · simp
  · simp

theorem unpackLoop_other (hall : AllCarried cfg l) {type : Nat} (hno : ∀ b ∈ l, b.type ≠ type)
    (s : (Nat → UInt16) × (Nat → Nat → UInt8)) :
    (unpackLoop cfg r stack hdrptr l bitptr s).1 type = s.1 type ∧
    (unpackLoop cfg r stack hdrptr l bitptr s).2 type = s.2 type := by
  induction l generalizing bitptr s with
  | nil => exact ⟨rfl, rfl⟩
  | cons a as ih =>
    have hne : type ≠ a.type := fun heq => hno a mem_cons_self heq.symm
    rw [unpackLoop_cons (hall a mem_cons_self)]
    obtain ⟨h1, h2⟩ := ih (fun b hb => hall b (mem_cons_of_mem a hb))
      (fun b hb => hno b (mem_cons_of_mem a hb)) (unpacked cfg r stack hdrptr bitptr a s)
    exact ⟨h1.trans (unpacked_other hne s).1, h2.trans (unpacked_other hne s).2⟩

/-- UNPACKED: the receiver has all attributes if and only if the last entry of every type is read. -/
theorem unpackLoop_restored (hall : AllCarried cfg l) (s : (Nat → UInt16) × (Nat → Nat → UInt8)) :
    (∀ a ∈ l,
       Restored cfg attrs addrs (unpackLoop cfg r stack hdrptr l bitptr s).1
         (unpackLoop cfg r stack hdrptr l bitptr s).2 a.type) ↔
      AllRead cfg r stack attrs addrs hdrptr l bitptr := by
  induction l generalizing bitptr s with
  | nil => exact iff_of_true nofun trivial
  | cons a as ih =>
    have hall' : AllCarried cfg as := fun b hb => hall b (mem_cons_of_mem a hb)
    rw [unpackLoop_cons (hall a mem_cons_self), forall_mem_cons, ih hall', AllRead]
    refine and_congr_left fun hread => ?_
    by_cases hno : ∀ b ∈ as, b.type ≠ a.type
    · rw [Restored, (unpackLoop_other hall' hno _).1, (unpackLoop_other hall' hno _).2, ← Restored,
        restored_unpacked, imp_iff_right hno]
    · -- the type comes again
      refine iff_of_true ?_ fun h => absurd h hno
      have hlater := (ih hall' (unpacked cfg r stack hdrptr bitptr a s)).mpr hread
      simp only [ne_eq, not_forall, not_not] at hno
      obtain ⟨b, hb, htype⟩ := hno
      exact htype ▸ hlater b hb

/-! ### When they come back -/

/-- Of an address there are all bytes; an attribute has no rest behind whole bytes, or its high byte is zero. -/
def EntryRight (cfg : Config) (attrs : Nat → UInt16) (a : Attr) : Prop :=
  if isAddr cfg a.type then a.len = 8 * cfg.linkaddrSize
  else a.len ≤ 8 ∨ a.len = 16 ∨ (attrs a.type).toNat < 256

/-- The last entry of every type is right. -/
def ListRight (cfg : Config) (attrs : Nat → UInt16) : List Attr → Prop
  | [] => True
  | a :: as => ((∀ b ∈ as, b.type ≠ a.type) → EntryRight cfg attrs a) ∧ ListRight cfg attrs as

section
variable (hdom : InDomain cfg attrs l)
include hdom

theorem fieldRead_iff (ha : a ∈ l)
    (h : FieldAt r (valueBytes cfg attrs addrs a.type) (hdrptr + bitptr / 8) (bitptr % 8) a.len) :
    (∀ stack, FieldRead cfg r stack attrs addrs hdrptr bitptr a) ↔ EntryRight cfg attrs a := by
  have hbp : bitptr % 8 < 8 := Nat.mod_lt _ (by decide)
  cases htype : isAddr cfg a.type
  · obtain ⟨h1, h16, hv⟩ := hdom.attr a ha htype
    simp only [valueBytes, FieldRead, EntryRight, htype, Bool.false_eq_true, ↓reduceIte] at h ⊢
    rw [forall_const, attr_read h hbp h1 h16 hv]
  · obtain ⟨k, hk, hpos, hle⟩ := hdom.addr a ha htype
    simp only [valueBytes, FieldRead, EntryRight, htype, ↓reduceIte] at h ⊢
    constructor
    · intro hread
      by_contra hlen
      -- a byte of the address that is not in the header is what is on the stack
      have hbyte := hread (fun _ => addrs a.type k + 1) k (by omega)
      rw [getBits_outside (by omega) hpos] at hbyte
      have := congrArg UInt8.toNat hbyte
      rw [UInt8.toNat_add] at this
      simp only [UInt8.toNat_one] at this
      omega
    · exact fun hlen stack i hi => h.whole hbp (by omega)

theorem allRead_iff (h : FieldsAt cfg r attrs addrs hdrptr l bitptr) :
    (∀ stack, AllRead cfg r stack attrs addrs hdrptr l bitptr) ↔ ListRight cfg attrs l := by
  induction l generalizing bitptr with
  | nil => exact iff_of_true (fun _ => trivial) trivial
  | cons a as ih =>
    have hrest := ih (hdom.sub fun b hb => mem_cons_of_mem a hb) h.2
    simp only [AllRead, ListRight]
    rw [forall_and, hrest, forall_comm, fieldRead_iff hdom mem_cons_self h.1]

theorem FieldRead.last (ha : a ∈ l)
    (h : FieldRead cfg r stack attrs addrs hdrptr bitptr a) : bitAt r (8 * hdrptr + bitptr + (a.len - 1)) =
      (valueBytes cfg attrs addrs a.type ((a.len - 1) / 8)).toNat.testBit 0 := by
  have hbp : bitptr % 8 < 8 := Nat.mod_lt _ (by decide)
  have hplace : 8 * hdrptr + bitptr + (a.len - 1) = 8 * (hdrptr + bitptr / 8) + bitptr % 8 + (a.len - 1) := by omega
  have hlen := hdom.pos ha
  rw [FieldRead] at h
  cases htype : isAddr cfg a.type
  · obtain ⟨-, h16, -⟩ := hdom.attr a ha htype
    rw [htype, if_neg (by decide), le16Read_eq] at h
    rw [hplace, ← testBit_getBits_last hbp hlen, valueBytes, htype, if_neg (by decide)]
    rcases lt_or_ge (a.len - 1) 8 with hlt | hge
    · rw [Nat.div_eq_of_lt hlt, h.1]
    · have hone : (a.len - 1) / 8 = 1 := by omega
      rw [hone, h.2]
  · obtain ⟨k, hk, hpos, hle⟩ := hdom.addr a ha htype
    rw [htype, if_pos rfl] at h
    rw [hplace, ← testBit_getBits_last hbp hlen, valueBytes, htype, if_pos rfl, h _ (by omega)]

end

theorem AllRead.last (addrs : Nat → Nat → UInt8) (hdrptr bitptr : Nat) (hdom : InDomain cfg attrs l) (hne : l ≠ []) :
    ∃ bit, ∀ r stack,
      AllRead cfg r stack attrs addrs hdrptr l bitptr → bitAt r (8 * hdrptr + bitptr + bitsOf l - 1) = bit := by
  induction l generalizing bitptr with
  | nil => exact absurd rfl hne
  | cons a as ih =>
    have hlen := hdom.pos mem_cons_self
    rw [bitsOf_cons]
    cases as with
    | nil =>
      refine ⟨(valueBytes cfg attrs addrs a.type ((a.len - 1) / 8)).toNat.testBit 0, fun r stack h => ?_⟩
      have hplace : 8 * hdrptr + bitptr + (a.len + bitsOf []) - 1 = 8 * hdrptr + bitptr + (a.len - 1) := by
        have hnil : bitsOf [] = 0 := rfl
        omega
      rw [hplace]
      exact (h.1 nofun).last hdom mem_cons_self
    | cons b bs =>
      obtain ⟨bit, hbit⟩ := ih (bitptr + a.len) (hdom.sub fun x hx => mem_cons_of_mem a hx) (cons_ne_nil b bs)
      refine ⟨bit, fun r stack h => ?_⟩
      rw [← hbit r stack h.2]
      refine congrArg (bitAt r) ?_
      omega

/-! ### From the sender to the receiver -/

variable {b b' rb : Packetbuf} {c : Channel} {stale : Nat → UInt8}

theorem packHeader_eq (h : packHeader cfg c b = some b') :
    b'.hdrlen = b.hdrlen + (hdrByteSize c + bitoptHdrSize) ∧
    b'.buflen = b.buflen ∧
    ∃ m : Nat → UInt8,
      m 0 = UInt8.ofNat (c.channelno.toNat % 256) ∧
      m 1 = UInt8.ofNat (c.channelno.toNat / 256) ∧
      (∀ i, bitoptHdrSize ≤ i → i < bitoptHdrSize + hdrByteSize c → m i = 0) ∧
      b'.bytes = packLoop cfg b.attrs b.addrs bitoptHdrSize c.attrlist 0 m := by
  rw [packHeader, Packetbuf.hdralloc] at h
  split at h
  · cases h
  next b₁ halloc =>
    split at halloc
    · cases halloc
    · cases halloc
      cases h
      exact ⟨rfl, rfl, _, rfl, rfl, fun i hlo hhi => if_pos ⟨hlo, hhi⟩, rfl⟩

theorem length_sent (b : Packetbuf) : b.sent.length = b.hdrlen + b.buflen := by
  rw [Packetbuf.sent, length_append, length_slice, length_slice]

/-- The receiver has the header that was sent, and behind the packet what was there. -/
theorem copyfrom_bytes (b : Packetbuf) (stale : Nat → UInt8) :
    (∀ i < b.hdrlen, (Packetbuf.copyfrom b.sent stale).bytes i = b.bytes i) ∧
    (∀ i, b.hdrlen + b.buflen ≤ i → (Packetbuf.copyfrom b.sent stale).bytes i = stale i) ∧
    (Packetbuf.copyfrom b.sent stale).buflen = b.hdrlen + b.buflen := by
  have hlen := length_sent b
  have hfits := b.fits
  have hall : b.sent.take packetbufSize = b.sent := take_of_length_le (by omega)
  refine ⟨fun i hi => ?_, fun i hi => ?_, ?_⟩
  · rw [Packetbuf.copyfrom, hall]
    dsimp only
    have hin := store_inside (m := stale) (o := 0) (show i < b.sent.length by omega)
    rw [zero_add] at hin
    rw [hin, Packetbuf.sent, getD_append _ _ _ _ (by rw [length_slice]; exact hi), getD_slice _ hi, zero_add]
  · rw [Packetbuf.copyfrom, hall]
    exact store_outside (.inr (by omega))
  · rw [Packetbuf.copyfrom]
    dsimp only
    omega

/-- The packet that `unpack_header` leaves, where the channel is found and the packet long enough. -/
theorem unpackHeader_eq (cfg : Config) (rb : Packetbuf) (stack : Nat → UInt8) {lookup : UInt16 → Option Channel}
    (hlookup : lookup (UInt16.ofNat ((rb.bytes (rb.dataptr + 1)).toNat <<< 8 + (rb.bytes rb.dataptr).toNat)) = some c)
    (hlen : bitoptHdrSize + hdrByteSize c ≤ rb.buflen) :
    ∃ rb',
      unpackHeader cfg lookup stack rb = some (c, rb') ∧
      rb'.bufptr = rb.bufptr + bitoptHdrSize + hdrByteSize c ∧
      (rb'.attrs, rb'.addrs) =
        unpackLoop cfg rb.bytes stack (rb.dataptr + bitoptHdrSize) c.attrlist 0 (rb.attrs, rb.addrs) := by
  have hptr : rb.bufptr + bitoptHdrSize + rb.hdrlen = rb.dataptr + bitoptHdrSize := by
    rw [Packetbuf.dataptr]
    omega
  rw [unpackHeader, Packetbuf.hdrreduce, dif_neg (by omega)]
  dsimp only
  rw [hlookup]
  dsimp only
  rw [Packetbuf.hdrreduce, dif_neg (by dsimp only; omega)]
  exact ⟨_, rfl, rfl, by rw [Packetbuf.dataptr, hptr]⟩

/-- `channel_open` and `channel_set_attributes`. -/
def channelOpen (cfg : Config) (channelno : UInt16) (attrlist : List Attr) : Channel :=
  channelSetAttributes cfg ⟨channelno, [], 0⟩ attrlist

/-- Whatever a packet holds, `unpack_header` has of what `pack_header` wrote all attributes that the header has, and
    takes as many bytes as there were produced. -/
def BitoptRight (cfg : Config) (attrlist : List Attr) (attrs : Nat → UInt16) (addrs : Nat → Nat → UInt8) : Prop :=
  ∀ (channelno : UInt16) (b b' : Packetbuf), b.attrs = attrs → b.addrs = addrs →
    packHeader cfg (channelOpen cfg channelno attrlist) b = some b' →
    ∀ (lookup : UInt16 → Option Channel) (stale stack : Nat → UInt8),
      lookup channelno = some (channelOpen cfg channelno attrlist) →
      ∃ rb, unpackHeader cfg lookup stack (.copyfrom b'.sent stale) = some (channelOpen cfg channelno attrlist, rb) ∧
        (∀ a ∈ carried cfg attrlist, Restored cfg attrs addrs rb.attrs rb.addrs a.type) ∧
        b'.hdrlen = b.hdrlen + rb.bufptr

variable {channelno : UInt16} {lookup : UInt16 → Option Channel} {attrlist : List Attr}

theorem trip (attrs : Nat → UInt16) (addrs : Nat → Nat → UInt8) (stale stack : Nat → UInt8)
    (h : packHeader cfg (channelOpen cfg channelno attrlist) b = some b')
    (hlookup : lookup (UInt16.ofNat (((Packetbuf.copyfrom b'.sent stale).bytes 1).toNat <<< 8 +
        ((Packetbuf.copyfrom b'.sent stale).bytes 0).toNat)) =
        some (channelOpen cfg channelno attrlist)) :
    ∃ rb,
      unpackHeader cfg lookup stack (.copyfrom b'.sent stale) = some (channelOpen cfg channelno attrlist, rb) ∧
      b'.hdrlen = b.hdrlen + rb.bufptr ∧
      ((∀ a ∈ carried cfg attrlist, Restored cfg attrs addrs rb.attrs rb.addrs a.type) ↔
         AllRead cfg (Packetbuf.copyfrom b'.sent stale).bytes stack attrs addrs bitoptHdrSize (carried cfg attrlist)
           0) := by
  obtain ⟨hhdr, hbuf, -⟩ := packHeader_eq h
  obtain ⟨-, -, hlen⟩ := copyfrom_bytes b' stale
  obtain ⟨rb, hunpack, hptr, hattrs⟩ := unpackHeader_eq cfg (.copyfrom b'.sent stale) stack hlookup (by omega)
  refine ⟨rb, hunpack, ?_, ?_⟩
  · rw [hhdr, hptr]
    simp only [Packetbuf.copyfrom]
    omega
  · rw [unpackLoop_carried] at hattrs
    rw [← unpackLoop_restored (allCarried_carried cfg attrlist)
      ((Packetbuf.copyfrom b'.sent stale).attrs, (Packetbuf.copyfrom b'.sent stale).addrs)]
    have h1 := congrArg Prod.fst hattrs
    have h2 := congrArg Prod.snd hattrs
    dsimp only at h1 h2
    rw [h1, h2]
    rfl

theorem hdrsize_channelOpen (cfg : Config) (channelno : UInt16) (attrlist : List Attr) :
    (channelOpen cfg channelno attrlist).hdrsize.toNat = bitsOf (carried cfg attrlist) % 256 := by
  rw [channelOpen, channelSetAttributes, headerSize_eq]
  exact UInt8.toNat_ofNat'

theorem packed_fields (hdom : InDomain cfg b.attrs attrlist) (hsize : bitsOf (carried cfg attrlist) < 256)
    (h : packHeader cfg (channelOpen cfg channelno attrlist) b = some b') (stale : Nat → UInt8) :
    FieldsAt cfg (Packetbuf.copyfrom b'.sent stale).bytes b.attrs b.addrs bitoptHdrSize (carried cfg attrlist) 0 ∧
    UInt16.ofNat (((Packetbuf.copyfrom b'.sent stale).bytes 1).toNat <<< 8 +
      ((Packetbuf.copyfrom b'.sent stale).bytes 0).toNat) =
      channelno := by
  obtain ⟨hhdr, -, m, hlow, hhigh, hzero, hbytes⟩ := packHeader_eq h
  obtain ⟨hsame, -, -⟩ := copyfrom_bytes b' stale
  have hsum := hdrsize_channelOpen cfg channelno attrlist
  have hfit : bitsOf (carried cfg attrlist) ≤ 8 * hdrByteSize (channelOpen cfg channelno attrlist) := by
    rw [hdrByteSize, hsum]
    split <;> omega
  have hclear : ClearFrom m (8 * bitoptHdrSize + 0) (bitsOf (carried cfg attrlist)) := by
    intro i hlo hhi
    rw [bitAt, hzero (i / 8) (by omega) (by omega)]
    exact Nat.zero_testBit _
  have hcarried : (channelOpen cfg channelno attrlist).attrlist = attrlist := rfl
  rw [hcarried, packLoop_carried] at hbytes
  obtain ⟨hfields, hfront⟩ := packLoop_fields b.attrs b.addrs (allCarried_carried cfg attrlist)
    (hdom.sub fun a ha => (mem_filter.mp ha).1) hclear
  rw [← hbytes] at hfields hfront
  refine ⟨hfields.congr fun i _ hhi => ?_, ?_⟩
  · rw [bitAt, bitAt, hsame (i / 8) (by omega)]
  · -- the two bytes in front of the attributes
    have hnumber : ∀ i < 2, (Packetbuf.copyfrom b'.sent stale).bytes i = m i := by
      intro i hi
      rw [hsame i (by rw [hhdr, bitoptHdrSize]; omega)]
      refine byte_ext fun j hj => ?_
      have hbit := hfront (8 * i + (7 - j)) (by rw [bitoptHdrSize]; omega)
      have hix : 7 - (7 - j) = j := by omega
      rwa [bitAt_byte _ _ (by omega), bitAt_byte _ _ (by omega), hix] at hbit
    rw [hnumber 0 (by decide), hnumber 1 (by decide), hlow, hhigh, ← UInt16.toNat_inj, Nat.shiftLeft_eq,
      UInt16.toNat_ofNat', UInt8.toNat_ofNat', UInt8.toNat_ofNat']
    have hlt : (channelOpen cfg channelno attrlist).channelno.toNat < 65536 := UInt16.toNat_lt _
    have hno : (channelOpen cfg channelno attrlist).channelno = channelno := rfl
    rw [hno] at hlt ⊢
    omega

/-- A packet without payload, for which there is space with every header. -/
def emptyPacket (attrs : Nat → UInt16) (addrs : Nat → Nat → UInt8) : Packetbuf :=
  ⟨fun _ => 0, 0, 0, 0, attrs, addrs, by decide⟩

theorem packHeader_emptyPacket (cfg : Config) (c : Channel) (attrs : Nat → UInt16) (addrs : Nat → Nat → UInt8) :
    ∃ b', packHeader cfg c (emptyPacket attrs addrs) = some b' := by
  have hsize := c.hdrsize.toNat_lt
  have hspace : hdrByteSize c + bitoptHdrSize + (emptyPacket attrs addrs).totlen ≤ packetbufSize := by
    have htot : (emptyPacket attrs addrs).totlen = 0 := rfl
    rw [htot, hdrByteSize, bitoptHdrSize, packetbufSize]
    split <;> omega
  rw [packHeader, Packetbuf.hdralloc, dif_neg (by omega)]
  exact ⟨_, rfl⟩

theorem BitoptRight.read (h : BitoptRight cfg attrlist b.attrs b.addrs)
    (hpack : packHeader cfg (channelOpen cfg channelno attrlist) b = some b') (stale stack : Nat → UInt8) :
    AllRead cfg (Packetbuf.copyfrom b'.sent stale).bytes stack b.attrs b.addrs bitoptHdrSize (carried cfg attrlist) 0 := by
  obtain ⟨rb, hunpack, hrestored, -⟩ :=
    h channelno b b' rfl rfl hpack (fun _ => some (channelOpen cfg channelno attrlist)) stale stack rfl
  obtain ⟨rb', hunpack', -, hiff⟩ := @trip cfg b b' channelno (fun _ => some (channelOpen cfg channelno attrlist))
    attrlist b.attrs b.addrs stale stack hpack rfl
  rw [hunpack'] at hunpack
  cases hunpack
  exact hiff.mp hrestored

theorem bitoptRight_of (hdom : InDomain cfg attrs attrlist) (hsize : bitsOf (carried cfg attrlist) < 256)
    (hright : ListRight cfg attrs (carried cfg attrlist)) : BitoptRight cfg attrlist attrs addrs := by
  rintro channelno b b' rfl rfl hpack lookup stale stack hlookup
  obtain ⟨hfields, hnumber⟩ := packed_fields hdom hsize hpack stale
  obtain ⟨rb, hunpack, hlen, hiff⟩ := trip b.attrs b.addrs stale stack hpack ((congrArg lookup hnumber).trans hlookup)
  refine ⟨rb, hunpack, hiff.mpr ?_, hlen⟩
  exact (allRead_iff (hdom.sub fun a ha => (mem_filter.mp ha).1) hfields).mpr hright stack

theorem of_bitoptRight (hdom : InDomain cfg attrs attrlist) (h : BitoptRight cfg attrlist attrs addrs) :
    bitsOf (carried cfg attrlist) < 256 ∧ ListRight cfg attrs (carried cfg attrlist) := by
  have hsub : InDomain cfg attrs (carried cfg attrlist) := hdom.sub fun a ha => (mem_filter.mp ha).1
  obtain ⟨b', hpack⟩ := packHeader_emptyPacket cfg (channelOpen cfg 0 attrlist) attrs addrs
  have hread := BitoptRight.read (b := emptyPacket attrs addrs) h hpack
  have hsize : bitsOf (carried cfg attrlist) < 256 := by
    by_contra hlong
    have hne : carried cfg attrlist ≠ [] := by
      intro hnil
      rw [hnil] at hlong
      exact hlong (by decide)
    -- the last bit of the header is behind the packet
    obtain ⟨bit, hbit⟩ := AllRead.last addrs bitoptHdrSize 0 hsub hne
    have hlast : ∀ stale : Nat → UInt8,
        bitAt stale (8 * bitoptHdrSize + 0 + bitsOf (carried cfg attrlist) - 1) = bit := by
      intro stale
      obtain ⟨hhdr, hbuf, -⟩ := packHeader_eq hpack
      obtain ⟨-, hbehind, -⟩ := copyfrom_bytes b' stale
      have hempty : (emptyPacket attrs addrs).hdrlen = 0 ∧ (emptyPacket attrs addrs).buflen = 0 := ⟨rfl, rfl⟩
      have hsum := hdrsize_channelOpen cfg 0 attrlist
      have hbytes : hdrByteSize (channelOpen cfg 0 attrlist) + bitoptHdrSize ≤
          (8 * bitoptHdrSize + 0 + bitsOf (carried cfg attrlist) - 1) / 8 := by
        rw [hdrByteSize, hsum, bitoptHdrSize]
        split <;> omega
      rw [← hbit _ _ (hread stale fun _ => 0), bitAt, bitAt, hbehind _ (by omega)]
    have hzero := hlast fun _ => 0
    have hones := hlast fun _ => 255
    rw [bitAt] at hzero hones
    have hset : ∀ k < 8, (255 : UInt8).toNat.testBit (7 - k) = true := by decide
    rw [hset _ (Nat.mod_lt _ (by decide))] at hones
    rw [← hones] at hzero
    exact absurd hzero (by simp)
  exact ⟨hsize, (allRead_iff hsub (packed_fields hdom hsize hpack fun _ => 0).1).mp (hread fun _ => 0)⟩

/-- EXACT: the round trip is right for every packet and every receiver if and only if the attributes of the header
    have less than 256 bits, of every address there are all bytes, and every attribute of 9 to 15 bits has a value
    below 256. -/
theorem bitoptRight_iff (addrs : Nat → Nat → UInt8) (hdom : InDomain cfg attrs attrlist) : BitoptRight cfg attrlist
    attrs addrs ↔ bitsOf (carried cfg attrlist) < 256 ∧ ListRight cfg attrs (carried cfg attrlist) :=
  ⟨of_bitoptRight hdom, fun h => bitoptRight_of hdom h.1 h.2⟩

/-- The sender of Rime on an address of two bytes, an attribute of three bits and one of ten below 256. -/
theorem trip_of_small_values : BitoptRight ⟨27, 2, false⟩ [⟨27, 16⟩, ⟨3, 3⟩, ⟨5, 10⟩] (fun _ => 5) (fun _ _ => 7) := by
  refine (bitoptRight_iff _ ⟨fun a ha htype => ?_, fun a ha htype => ?_⟩).mpr ⟨by decide, ?_⟩
  · simp only [mem_cons, not_mem_nil, or_false] at ha
    rcases ha with rfl | rfl | rfl
    · cases htype
    · decide
    · decide
  · simp only [mem_cons, not_mem_nil, or_false] at ha
    rcases ha with rfl | rfl | rfl
    · exact ⟨2, by decide⟩
    · cases htype
    · cases htype
  · exact ⟨fun _ => rfl, fun _ => .inl (by decide), fun _ => .inr (.inr (by decide)), trivial⟩

/-- An attribute of ten bits whose value is 512 does not come back. -/
theorem lost_rest : ¬BitoptRight ⟨27, 2, false⟩ [⟨5, 10⟩] (fun _ => 512) (fun _ _ => 0) := by
  intro h
  have hdom : InDomain ⟨27, 2, false⟩ (fun _ => 512) [⟨5, 10⟩] := by
    refine ⟨fun a ha _ => ?_, fun a ha htype => ?_⟩
    · rw [mem_singleton.mp ha]
      decide
    · rw [mem_singleton.mp ha] at htype
      cases htype
  obtain ⟨hright, -⟩ := (of_bitoptRight hdom h).2
  rcases hright nofun with hle | heq | hlt
  · exact absurd hle (by decide)
  · exact absurd heq (by decide)
  · exact absurd hlt (by decide)

end

end CSync.Chameleon
