import CSync.Store.Settings
import Mathlib.Data.Nat.Bitwise

/-! The settings store refines a list of items.

    `Chain l m a its b` says that the iterators `its` lead from `a` down to `b`, every item of them valid and above
    `SETTINGS_BOTTOM_ADDR`; the store ends at the first `b` that is not valid. An operation writes below the chain, or
    inside the value of one item of it, and what the other items say depends on their own bytes only.

    Two kinds of calls break the list. Deleting the last item wipes its header and reports a failure. And a large
    value takes a byte more than `settings_add` asks for, so that an item that fits exactly is written over the
    bottom. The runs here make neither call. -/

namespace CSync.Settings

open Lib List

variable {l : Layout}

/-- The largest length a header can hold. -/
def maxLength (l : Layout) : Nat := if l.large then 0x3FFF else 0xFF

/-- No sum of the range checks overflows `size_t`; on a 32-bit `size_t` none can. -/
def NoWrap (l : Layout) : Prop := l.bottom + headerSize l + maxLength l < 2 ^ l.sizeBits

/-- Every item of the store lies above the bottom, as it does in an EEPROM without items. -/
def Inside (l : Layout) (m : Nat → UInt8) : Prop :=
  ∀ iter ∈ iters l m, l.bottom + itemSize l m iter ≤ iter

/-- The value would fit up to the last byte, but takes one byte more. -/
def Boundary (l : Layout) (m : Nat → UInt8) (value : List UInt8) : Prop :=
  l.large ∧ 128 ≤ value.length ∧ value.length ≤ maxValueSize l ∧
    addPosition l m = l.bottom + headerSize l + value.length

/-- The calls that do what they should: no value that ends one byte below the bottom, no deletion of the last item. -/
def Allowed (l : Layout) (e : Eeprom) (ev : Op × Answer) : Prop :=
  match ev.1 with
  | .add _ value _ => ¬ Boundary l e.bytes value
  | .set key value _ =>
    findKey l e.bytes key 0 (iters l e.bytes) = 0 → ¬ Boundary l e.bytes value
  | .delete key index =>
    findKey l e.bytes key index (iters l e.bytes) ≠ 0 →
      iterNext l e.bytes (findKey l e.bytes key index (iters l e.bytes)) ≠ 0
  | _ => True

theorem headerSize_pos (l : Layout) : 4 ≤ headerSize l := by
  unfold headerSize
  split
  · split <;> decide
  · exact le_refl 4

variable {a b : Nat} {m : Nat → UInt8}

theorem minus_eq (h : b ≤ a) (ha : a < 65536) : minus a b = a - b := by
  rw [minus, show a + 65536 - b = a - b + 65536 by omega, Nat.add_mod_right, Nat.mod_eq_of_lt (by omega)]

theorem iterGetValueLength_le (l : Layout) (m : Nat → UInt8) (a : Nat) : iterGetValueLength l m a ≤ maxLength l := by
  have hlow := (sizeLow l m a).toNat_lt
  have hextra := (sizeExtra l m a).toNat_lt
  unfold iterGetValueLength
  split
  · dsimp only
    split
    next hlarge =>
      rw [maxLength, if_pos hlarge.1]
      have hshift : ((sizeLow l m a).toNat - 128) <<< 7 < 2 ^ 14 := by
        rw [Nat.shiftLeft_eq]; omega
      have hor := Nat.or_lt_two_pow hshift (show (sizeExtra l m a).toNat < 2 ^ 14 by omega)
      omega
    · rw [maxLength]
      split <;> omega
  · exact Nat.zero_le _

/-- VALIDITY, with no overflow: the check byte fits and the value ends above the bottom. -/
theorem iterIsValid_iff (hw : NoWrap l) (m : Nat → UInt8) (a : Nat) : iterIsValid l m a = true ↔ a ≠ 0 ∧ checked l m a
    = true ∧ l.bottom + headerSize l + iterGetValueLength l m a ≤ a := by
  have hle := iterGetValueLength_le l m a
  unfold NoWrap at hw
  have h1 : inSize l (l.bottom + headerSize l) = l.bottom + headerSize l := Nat.mod_eq_of_lt (by omega)
  have h2 : inSize l (l.bottom + headerSize l + iterGetValueLength l m a) =
      l.bottom + headerSize l + iterGetValueLength l m a := Nat.mod_eq_of_lt (by omega)
  unfold iterIsValid
  cases hc : checked l m a with
  | false => simp
  | true => simp; omega

/-! ### What an item depends on -/

/-- The two memories agree on the header in front of `a`. -/
def SameHeader (l : Layout) (m m' : Nat → UInt8) (a : Nat) : Prop :=
  ∀ i, a - headerSize l ≤ i → i < a → m' i = m i

section Congruence

variable {m m' : Nat → UInt8} {a : Nat}

section
variable (h : SameHeader l m m' a)
include h

section

variable (hH : headerSize l ≤ a) (ha : a < 65536)
include hH ha

theorem SameHeader.fields :
    sizeExtra l m' a = sizeExtra l m a ∧ sizeLow l m' a = sizeLow l m a ∧
      sizeCheck l m' a = sizeCheck l m a ∧ headerKey m' a = headerKey m a := by
  have hlow : lowAt l + 1 < headerSize l := by
    unfold lowAt headerSize
    split <;> try split
    all_goals omega
  unfold sizeExtra sizeLow sizeCheck headerKey
  rw [minus_eq hH ha, minus_eq (by omega : 2 ≤ a) ha]
  refine ⟨h _ (by omega) (by omega), h _ (by omega) (by omega), h _ (by omega) (by omega), ?_⟩
  rw [slice_congr fun i hlo hhi => h i (by omega) (by omega)]

theorem SameHeader.checked :
    checked l m' a = checked l m a := by
  obtain ⟨-, hlow, hcheck, -⟩ := h.fields hH ha
  rw [Settings.checked, Settings.checked, hlow, hcheck]

theorem SameHeader.length :
    iterGetValueLength l m' a = iterGetValueLength l m a := by
  obtain ⟨hextra, hlow, -, -⟩ := h.fields hH ha
  rw [iterGetValueLength, iterGetValueLength, h.checked hH ha, hextra, hlow]

theorem SameHeader.key :
    iterGetKey l m' a = iterGetKey l m a := by
  obtain ⟨-, -, -, hkey⟩ := h.fields hH ha
  rw [iterGetKey, iterGetKey, h.checked hH ha, hkey]

theorem SameHeader.itemSize :
    itemSize l m' a = itemSize l m a := by
  rw [Settings.itemSize, Settings.itemSize, h.length hH ha]

end

end

theorem SameHeader.valid (hw : NoWrap l) (h : SameHeader l m m' a) (hH : headerSize l ≤ a)
    (ha : a < 65536) : iterIsValid l m' a = iterIsValid l m a := by
  rw [Bool.eq_iff_iff, iterIsValid_iff hw, iterIsValid_iff hw, h.checked hH ha, h.length hH ha]

end Congruence

/-! ### Chains of items -/

/-- The iterators lead from `a` to `b` over valid items above the bottom. -/
inductive Chain (l : Layout) (m : Nat → UInt8) : Nat → List Nat → Nat → Prop
  | nil (a : Nat) : Chain l m a [] a
  | cons {a b : Nat} {its : List Nat} : iterIsValid l m a = true →
      l.bottom + itemSize l m a ≤ a → Chain l m (a - itemSize l m a) its b →
      Chain l m a (a :: its) b

section Chains

variable {m m' : Nat → UInt8} {a b c : Nat} {its its' : List Nat}

theorem headerSize_le_itemSize (l : Layout) (m : Nat → UInt8) (a : Nat) :
    headerSize l + iterGetValueLength l m a ≤ itemSize l m a := Nat.le_add_right _ _

theorem Chain.bounds (h : Chain l m a its b) : b ≤ a ∧ ∀ it ∈ its, it ≤ a ∧ b + itemSize l m it ≤ it ∧ l.bottom +
    itemSize l m it ≤ it ∧ iterIsValid l m it = true := by
  induction h with
  | nil a => exact ⟨le_refl a, by simp⟩
  | cons hv hin _ ih =>
    refine ⟨by omega, ?_⟩
    intro it hit
    rcases mem_cons.mp hit with rfl | hit
    · exact ⟨le_refl _, by omega, hin, hv⟩
    · obtain ⟨h1, h2, h3, h4⟩ := ih.2 it hit
      exact ⟨by omega, h2, h3, h4⟩

theorem Chain.append (h : Chain l m a its b) (h' : Chain l m b its' c) : Chain l m a (its ++ its') c := by
  induction h with
  | nil a => exact h'
  | cons hv hin _ ih => exact .cons hv hin (ih h')

theorem Chain.split : ∀ {its : List Nat} {a : Nat}, Chain l m a (its ++ its') c →
    ∃ b, Chain l m a its b ∧ Chain l m b its' c
  | [], a, h => ⟨a, .nil a, h⟩
  | _ :: _, _, .cons hv hin h => by
    obtain ⟨b, h1, h2⟩ := Chain.split h
    exact ⟨b, .cons hv hin h1, h2⟩

/-- FRAME: a chain depends on the headers of its items only. -/
theorem Chain.congr (hw : NoWrap l) (h : Chain l m a its b) (ha : a < 65536)
    (hsame : ∀ it ∈ its, SameHeader l m m' it) : Chain l m' a its b := by
  induction h with
  | nil a => exact .nil a
  | @cons a b its hv hin _ ih =>
    have hle := headerSize_le_itemSize l m a
    have hH : headerSize l ≤ a := by omega
    have hself := hsame a (mem_cons_self ..)
    have hsize := hself.itemSize hH ha
    refine .cons (by rw [hself.valid hw hH ha]; exact hv) (by rw [hsize]; exact hin) ?_
    rw [hsize]
    exact ih (by omega) fun it hit => hsame it (mem_cons_of_mem _ hit)

theorem valueAddr_eq (hin : l.bottom + itemSize l m a ≤ a) (ha : a < 65536) :
    iterGetValueAddr l m a = a - itemSize l m a := minus_eq (by omega) ha

theorem Chain.last (h : Chain l m a its b) (ha : a < 65536) :
    its = [] ∧ b = a ∨ its.getLastD 0 ≠ 0 ∧ iterGetValueAddr l m (its.getLastD 0) = b := by
  induction h with
  | nil a => exact .inl ⟨rfl, rfl⟩
  | @cons a b its hv hin _ ih =>
    right
    rcases ih (by omega) with ⟨rfl, rfl⟩ | ⟨hne, heq⟩
    · have hpos : 4 ≤ itemSize l m a :=
        le_trans (headerSize_pos l) (le_trans (Nat.le_add_right _ _) (headerSize_le_itemSize l m a))
      exact ⟨by simp only [getLastD_cons, getLastD_nil]; omega, by rw [getLastD_cons]; exact valueAddr_eq hin ha⟩
    · cases its with
      | nil => exact absurd rfl hne
      | cons x xs => exact ⟨hne, heq⟩

theorem itersFrom_succ (hw : NoWrap l) (fuel : Nat) (hin : l.bottom + itemSize l m a ≤ a)
    (hv : iterIsValid l m a = true) (ha : a < 65536) :
    itersFrom l m (fuel + 1) (if iterIsValid l m a then a else 0) =
      a :: itersFrom l m fuel (if iterIsValid l m (a - itemSize l m a) then a - itemSize l m a else 0) := by
  have hne : a ≠ 0 := ((iterIsValid_iff hw m a).mp hv).1
  rw [if_pos hv, itersFrom, if_neg hne, iterNext, if_neg hne, valueAddr_eq hin ha]

theorem Chain.itersFrom (hw : NoWrap l) (h : Chain l m a its b) (hb : iterIsValid l m b = false) :
    ∀ {fuel : Nat}, a < fuel → a < 65536 → itersFrom l m fuel (if iterIsValid l m a then a else 0) = its := by
  induction h with
  | nil a =>
    intro fuel hfuel _
    rw [hb]
    cases fuel <;> rfl
  | @cons a b its hv hin _ ih =>
    intro fuel hfuel ha
    obtain ⟨fuel, rfl⟩ : ∃ n, fuel = n + 1 := ⟨fuel - 1, by omega⟩
    have hpos := headerSize_pos l
    have hle := headerSize_le_itemSize l m a
    rw [itersFrom_succ hw fuel hin hv ha, ih hb (by omega) (by omega)]

theorem exists_chain (hw : NoWrap l) : ∀ (fuel a : Nat), a < fuel → a < 65536 →
    (∀ it ∈ itersFrom l m fuel (if iterIsValid l m a then a else 0), l.bottom + itemSize l m it ≤ it) →
    ∃ b, Chain l m a (itersFrom l m fuel (if iterIsValid l m a then a else 0)) b ∧
      iterIsValid l m b = false
  | 0, _, h, _, _ => absurd h (Nat.not_lt_zero _)
  | fuel + 1, a, hfuel, ha, hin => by
    cases hv : iterIsValid l m a with
    | false => exact ⟨a, .nil a, hv⟩
    | true =>
      have hself : l.bottom + itemSize l m a ≤ a := by
        apply hin
        rw [if_pos hv, Settings.itersFrom, if_neg ((iterIsValid_iff hw m a).mp hv).1]
        exact mem_cons_self ..
      have hturn := itersFrom_succ hw fuel hself hv ha
      rw [hturn] at hin
      rw [hv] at hturn
      rw [hturn]
      have hpos := headerSize_pos l
      have hle := headerSize_le_itemSize l m a
      obtain ⟨b, hchain, hb⟩ := exists_chain hw fuel (a - itemSize l m a) (by omega) (by omega)
        fun it hit => hin it (mem_cons_of_mem _ hit)
      exact ⟨b, .cons hv hself hchain, hb⟩

/-- THE STORE: a chain from the top, down to where no item is. -/
structure Stored (l : Layout) (m : Nat → UInt8) (its : List Nat) (b : Nat) : Prop where
  chain : Chain l m l.top its b
  ends : iterIsValid l m b = false

theorem Stored.iters_eq (hw : NoWrap l) (h : Stored l m its b) {fuel : Nat} (hf : 65536 ≤ fuel) :
    Settings.itersFrom l m fuel (iterBegin l m) = its :=
  h.chain.itersFrom hw h.ends (lt_of_lt_of_le l.top_lt hf) l.top_lt

theorem exists_stored (hw : NoWrap l) (h : Inside l m) : ∃ b, Stored l m (iters l m) b := by
  obtain ⟨b, hchain, hb⟩ := exists_chain hw 65536 l.top l.top_lt l.top_lt h
  exact ⟨b, hchain, hb⟩

theorem Stored.itemsOf_eq (hw : NoWrap l) (h : Stored l m its b) :
    itemsOf l m = its.map fun it => (iterGetKey l m it, valueBytes l m it) := by
  rw [itemsOf, iters, h.iters_eq hw le_rfl]

/-- `settings_add` finds the end of the chain. -/
theorem Stored.addPosition (hw : NoWrap l) (h : Stored l m its b) : addPosition l m = b := by
  rw [Settings.addPosition, iters, h.iters_eq hw le_rfl]
  rcases h.chain.last l.top_lt with ⟨rfl, rfl⟩ | ⟨hne, heq⟩
  · rfl
  · rw [if_pos hne, heq]

end Chains

/-! ### Headers -/

theorem Header.length_bytes (l : Layout) (h : Header) : (h.bytes l).length = headerSize l := by
  unfold Header.bytes headerSize
  cases l.large <;> cases l.aligned <;> rfl

theorem fields_of_holds {h : Header} (hH : headerSize l ≤ a) (ha : a < 65536)
    (hm : Holds m (a - headerSize l) (h.bytes l)) :
    (l.large = true → sizeExtra l m a = h.sizeExtra) ∧
    sizeLow l m a = h.sizeLow ∧
    sizeCheck l m a = h.sizeCheck ∧
    headerKey m a = h.key := by
  have hkey : ∀ p : Nat, p + 2 = a → Holds m p (toLe 2 h.key.toNat) → headerKey m a = h.key := by
    intro p hp hslice
    rw [headerKey, minus_eq (by omega) ha, show a - 2 = p by omega]
    rw [Holds, length_toLe] at hslice
    rw [hslice, ofLe_toLe (by have := h.key.toNat_lt; omega), UInt16.ofNat_toNat]
  unfold sizeExtra sizeLow sizeCheck
  rw [minus_eq hH ha]
  unfold Header.bytes at hm
  simp only [lowAt]
  rcases hl : l.large with _ | _
  · have hsize : headerSize l = 4 := by simp [headerSize, hl]
    simp only [hl, Bool.false_and, Bool.false_eq_true, if_false, nil_append, append_nil,
      cons_append, holds_cons] at hm
    refine ⟨by rintro ⟨⟩, ?_, ?_, hkey _ (by omega) hm.2.2⟩
    · simpa using hm.1
    · simpa using hm.2.1
  · rcases hal : l.aligned with _ | _
    · have hsize : headerSize l = 5 := by simp [headerSize, hl, hal]
      simp only [hl, hal, Bool.and_false, Bool.false_eq_true, if_false, if_true, append_nil,
        cons_append, nil_append, holds_cons] at hm
      exact ⟨fun _ => hm.1, hm.2.1, hm.2.2.1, hkey _ (by omega) hm.2.2.2⟩
    · have hsize : headerSize l = 6 := by simp [headerSize, hl, hal]
      simp only [hl, hal, Bool.and_true, if_true, cons_append, nil_append, holds_cons] at hm
      exact ⟨fun _ => hm.1, hm.2.1, hm.2.2.1, hkey _ (by omega) hm.2.2.2.2⟩

theorem sizeLow_large {n : Nat} (hn : n ≤ 0x3FFF) : (UInt8.ofNat (n >>> 7 ||| 0x80)).toNat = n / 128 + 128 := by
  have hq : n / 128 < 2 ^ 7 := by omega
  have hor : n >>> 7 ||| 0x80 = n / 128 + 128 := by
    rw [Nat.shiftRight_eq_div_pow, Nat.lor_comm, show (0x80 : Nat) = 2 ^ 7 * 1 by rfl,
      ← Nat.two_pow_add_eq_or_of_lt hq]
    omega
  rw [hor, UInt8.toNat_ofNat']
  omega

/-- THE TWO FORMATS: the header `settings_add` writes is read back with the length it was written for. -/
theorem length_of_holds {n : Nat} {key : UInt16} {junk : UInt8 × UInt8} (hH : headerSize l ≤ a) (ha : a < 65536)
    (hn : n ≤ maxValueSize l) (hm : Holds m (a - headerSize l) ((newHeader key n junk).bytes l)) :
    checked l m a = true ∧ iterGetValueLength l m a = n ∧ iterGetKey l m a = key := by
  obtain ⟨hextra, hlow, hcheck, hkey⟩ := fields_of_holds hH ha hm
  have hch : checked l m a = true := by
    rw [checked, hlow, hcheck, beq_iff_eq]
    unfold newHeader
    split <;> rfl
  refine ⟨hch, ?_, ?_⟩
  · rw [iterGetValueLength, if_pos hch, hlow]
    unfold newHeader at hextra ⊢
    split
    next hsmall => rw [UInt8.toNat_ofNat', Nat.mod_eq_of_lt (by omega), if_neg (by omega)]
    next hbig =>
      have hlarge : l.large = true := by
        by_contra hl
        rw [maxValueSize, if_neg hl] at hn
        omega
      have hmax : n ≤ 0x3FFF := by rw [maxValueSize, if_pos hlarge] at hn; exact hn
      rw [if_neg hbig] at hextra
      rw [sizeLow_large hmax, if_pos ⟨hlarge, by omega⟩, hextra hlarge, UInt8.toNat_ofNat',
        Nat.add_sub_cancel, Nat.shiftLeft_eq, Nat.mod_eq_of_lt (by omega : n % 128 < 2 ^ 8),
        mul_comm, ← Nat.two_pow_add_eq_or_of_lt (by omega : n % 128 < 2 ^ 7)]
      omega
  · rw [iterGetKey, if_pos hch, hkey]
    unfold newHeader
    split <;> rfl

theorem wiped_invalid (hw : NoWrap l) (hH : headerSize l ≤ a)
    (ha : a < 65536) (hm : Holds m (a - headerSize l) (wiped l)) : iterIsValid l m a = false := by
  have hbytes : wiped l = Header.bytes l ⟨0xFF, 0xFF, 0xFF, 0xFF, 0xFFFF⟩ := by
    unfold wiped Header.bytes headerSize
    cases l.large <;> cases l.aligned <;> rfl
  rw [hbytes] at hm
  obtain ⟨-, hlow, hcheck, -⟩ := fields_of_holds hH ha hm
  rw [Bool.eq_false_iff]
  intro hv
  have hch := ((iterIsValid_iff hw m a).mp hv).2.1
  rw [checked, hlow, hcheck] at hch
  cases hch

section Frames

variable {m : Nat → UInt8} {its : List Nat} {b : Nat}

/-- FRAME: an item depends on its own bytes only. -/
theorem item_congr {a : Nat} (hin : l.bottom + itemSize l m a ≤ a) (ha : a < 65536) (m' : Nat → UInt8)
    (h : ∀ i, a - itemSize l m a ≤ i → i < a → m' i = m i) :
    SameHeader l m m' a ∧ iterGetKey l m' a = iterGetKey l m a ∧ valueBytes l m' a = valueBytes l m a := by
  have hle := headerSize_le_itemSize l m a
  have hH : headerSize l ≤ a := by omega
  have hsame : SameHeader l m m' a := fun i hlo hhi => h i (by omega) hhi
  have hsize := hsame.itemSize hH ha
  refine ⟨hsame, hsame.key hH ha, ?_⟩
  rw [valueBytes, valueBytes, valueAddr_eq hin ha, valueAddr_eq (by rw [hsize]; exact hin) ha, hsize,
    hsame.length hH ha]
  exact slice_congr fun i hlo hhi => h i hlo (by omega)

theorem Chain.items_congr {a : Nat} (h : Chain l m a its b) (ha : a < 65536) (m' : Nat → UInt8)
    (hsame : ∀ i, b ≤ i → i < a → m' i = m i) :
    (∀ it ∈ its, SameHeader l m m' it) ∧
    its.map (fun it => (iterGetKey l m' it, valueBytes l m' it)) =
      its.map fun it => (iterGetKey l m it, valueBytes l m it) := by
  have hitem : ∀ it ∈ its, SameHeader l m m' it ∧ iterGetKey l m' it = iterGetKey l m it ∧
      valueBytes l m' it = valueBytes l m it := by
    intro it hit
    obtain ⟨hle, hsz, hin, -⟩ := h.bounds.2 it hit
    exact item_congr hin (by omega) m' fun i hlo hhi => hsame i (by omega) (by omega)
  refine ⟨fun it hit => (hitem it hit).1, map_congr_left fun it hit => ?_⟩
  rw [(hitem it hit).2.1, (hitem it hit).2.2]

theorem Stored.push (hw : NoWrap l) (h : Stored l m its b) (m' : Nat → UInt8) (hsame : ∀ i, b ≤ i → m' i = m i)
    (hv : iterIsValid l m' b = true) (hin : l.bottom + itemSize l m' b ≤ b)
    (hend : iterIsValid l m' (b - itemSize l m' b) = false) :
    Stored l m' (its ++ [b]) (b - itemSize l m' b) ∧
    itemsOf l m' = itemsOf l m ++ [(iterGetKey l m' b, valueBytes l m' b)] := by
  obtain ⟨hheaders, hitems⟩ := h.chain.items_congr l.top_lt m' fun i hlo _ => hsame i hlo
  have hchain := (h.chain.congr hw l.top_lt hheaders).append (.cons hv hin (.nil _))
  have hst : Stored l m' (its ++ [b]) (b - itemSize l m' b) := ⟨hchain, hend⟩
  refine ⟨hst, ?_⟩
  rw [hst.itemsOf_eq hw, h.itemsOf_eq hw, map_append, hitems]
  rfl

end Frames

/-! ### Adding an item -/

/-- The bytes an item with a value of `n` bytes takes. -/
def roomFor (l : Layout) (n : Nat) : Nat := headerSize l + n + if l.large ∧ 128 ≤ n then 1 else 0

theorem le_roomFor (l : Layout) (n : Nat) : headerSize l + n ≤ roomFor l n := Nat.le_add_right _ _

theorem itemSize_eq_roomFor (l : Layout) (m : Nat → UInt8) (a : Nat) :
    itemSize l m a = roomFor l (iterGetValueLength l m a) := rfl

/-- The memory with a header in front of `b` and a value below it. -/
def withItem (l : Layout) (m : Nat → UInt8) (b : Nat) (hdr : Header) (value : List UInt8) :
    Nat → UInt8 :=
  store (store m (b - headerSize l) (hdr.bytes l)) (b - roomFor l value.length) value

section NewItem

variable {m : Nat → UInt8} {b : Nat} {key : UInt16} {value : List UInt8} {junk : UInt8 × UInt8}

theorem withItem_above {hdr : Header} (hroom : roomFor l value.length ≤ b) {i : Nat} (hi : b ≤ i) :
    withItem l m b hdr value i = m i := by
  have hlen := hdr.length_bytes l
  have hle := le_roomFor l value.length
  rw [withItem, store_outside (.inr (by omega)), store_outside (.inr (by omega))]

/-- The header is read back behind the first write and behind the second. -/
theorem withItem_header (hdr : Header) (hroom : roomFor l value.length ≤ b) :
    SameHeader l (store m (b - headerSize l) (hdr.bytes l)) (withItem l m b hdr value) b := by
  intro i hlo hhi
  have hle := le_roomFor l value.length
  exact store_outside (.inr (by omega))

theorem withItem_item (hw : NoWrap l) (hb : b < 65536) (hn : value.length ≤ maxValueSize l)
    (hroom : l.bottom + roomFor l value.length ≤ b) :
    let m₂ := withItem l m b (newHeader key value.length junk) value
    iterIsValid l m₂ b = true ∧ itemSize l m₂ b = roomFor l value.length ∧
      iterGetKey l m₂ b = key ∧ valueBytes l m₂ b = value := by
  intro m₂
  have hle := le_roomFor l value.length
  have hH : headerSize l ≤ b := by omega
  have hhead := @withItem_header l m b value (newHeader key value.length junk) (by omega)
  obtain ⟨hch, hlength, hkey⟩ := length_of_holds hH hb hn
    (holds_store m (b - headerSize l) ((newHeader key value.length junk).bytes l))
  have hlen₂ : iterGetValueLength l m₂ b = value.length := (hhead.length hH hb).trans hlength
  have hsize : itemSize l m₂ b = roomFor l value.length := by rw [itemSize_eq_roomFor, hlen₂]
  refine ⟨?_, hsize, (hhead.key hH hb).trans hkey, ?_⟩
  · rw [hhead.valid hw hH hb, iterIsValid_iff hw, hlength]
    exact ⟨by have := headerSize_pos l; omega, hch, by omega⟩
  · rw [valueBytes, hlen₂, iterGetValueAddr, hsize, minus_eq (by omega) hb]
    exact holds_store _ _ value

end NewItem

theorem settingsAdd_spec (hw : NoWrap l) {e : Eeprom} {its : List Nat} {key : UInt16} {value : List UInt8}
    {junk : UInt8 × UInt8} (h : Stored l e.bytes its b) (hnb : ¬ Boundary l e.bytes value) :
    ((settingsAdd l e key value junk).1 ≠ .ok ∧ (settingsAdd l e key value junk).2 = e) ∨
    ((settingsAdd l e key value junk).1 = .ok ∧
     (∃ its c, Stored l (settingsAdd l e key value junk).2.bytes its c) ∧
     itemsOf l (settingsAdd l e key value junk).2.bytes = itemsOf l e.bytes ++ [(key, value)] ∧
     ∀ w ∈ (settingsAdd l e key value junk).2.writes, w ∈ e.writes ∨ l.bottom ≤ w.1) := by
  have hpos := h.addPosition hw
  have hb : b < 65536 := lt_of_le_of_lt h.chain.bounds.1 l.top_lt
  unfold settingsAdd
  rw [hpos]
  dsimp only
  split
  · exact .inl ⟨by simp, rfl⟩
  rename_i hspace
  split
  · exact .inl ⟨by simp, rfl⟩
  rename_i hmax
  have hn : value.length ≤ maxValueSize l := Nat.not_lt.mp hmax
  have hfits : l.bottom + value.length + headerSize l ≤ b := by
    have hml : maxValueSize l ≤ maxLength l := by
      unfold maxValueSize maxLength
      split <;> decide
    unfold NoWrap at hw
    rw [inSize, Nat.mod_eq_of_lt (by omega)] at hspace
    omega
  have hroom : l.bottom + roomFor l value.length ≤ b := by
    unfold roomFor
    split
    next hlarge =>
      have hne : b ≠ l.bottom + headerSize l + value.length := by
        intro he
        exact hnb ⟨hlarge.1, hlarge.2, hn, by rw [hpos, he]⟩
      omega
    · omega
  have hH : headerSize l ≤ b := by omega
  obtain ⟨hv, hsize, hkey, hvalue⟩ := @withItem_item l e.bytes b key value junk hw hb hn hroom
  obtain ⟨-, hlength, -⟩ := length_of_holds hH hb hn
    (holds_store e.bytes (b - headerSize l) ((newHeader key value.length junk).bytes l))
  set c := b - roomFor l value.length with hc
  have hb0 : b ≠ 0 := by have := headerSize_pos l; omega
  have haddr : iterGetValueAddr l
      (store e.bytes (b - headerSize l) ((newHeader key value.length junk).bytes l)) b = c := by
    rw [iterGetValueAddr, itemSize_eq_roomFor, hlength, minus_eq (by omega) hb]
  set hdr := newHeader key value.length junk with hhdr
  have hbytes : (e.write (b - headerSize l) (hdr.bytes l)).bytes =
      store e.bytes (b - headerSize l) (hdr.bytes l) := rfl
  have hbytes₂ : ((e.write (b - headerSize l) (hdr.bytes l)).write c value).bytes =
      withItem l e.bytes b hdr value := rfl
  rw [minus_eq hH hb, hbytes, if_neg (by rw [hlength]; exact not_not.mpr rfl), haddr, hbytes₂]
  set m₂ := withItem l e.bytes b hdr value with hm₂
  -- a memory `m₃` that agrees with `m₂` above the new item's end and has no item there
  have hdone : ∀ m₃ : Nat → UInt8, (∀ i, c ≤ i → m₃ i = m₂ i) → iterIsValid l m₃ c = false →
      (∃ its c, Stored l m₃ its c) ∧ itemsOf l m₃ = itemsOf l e.bytes ++ [(key, value)] := by
    intro m₃ h₃ hend
    obtain ⟨hhead₃, hkey₃, hvalue₃⟩ := item_congr (by rw [hsize]; exact hroom) hb m₃
      fun i hlo hhi => h₃ i (by rw [hsize] at hlo; exact hlo)
    have hsz₃ : itemSize l m₃ b = roomFor l value.length := (hhead₃.itemSize hH hb).trans hsize
    have hpush := h.push hw m₃ (fun i hi => (h₃ i (by omega)).trans (withItem_above (by omega) hi))
      (by rw [hhead₃.valid hw hH hb]; exact hv) (by rw [hsz₃]; exact hroom)
      (by rw [hsz₃]; exact hend)
    refine ⟨⟨_, _, hpush.1⟩, ?_⟩
    rw [hpush.2, hkey₃, hvalue₃, hvalue, hkey]
  have hnext : iterNext l m₂ b = if iterIsValid l m₂ c then c else 0 := by
    rw [iterNext, if_neg hb0, valueAddr_eq (by rw [hsize]; exact hroom) hb, hsize]
  rw [hnext]
  right
  cases hvc : iterIsValid l m₂ c with
  | true =>
    obtain ⟨hc0, -, hcbot⟩ := (iterIsValid_iff hw m₂ c).mp hvc
    have hHc : headerSize l ≤ c := by omega
    have hwlen : (wiped l).length = headerSize l := length_replicate
    rw [if_pos rfl, if_pos hc0, minus_eq hHc (by omega)]
    obtain ⟨hst, hitems⟩ := hdone (store m₂ (c - headerSize l) (wiped l))
      (fun i hi => store_outside (.inr (by omega)))
      (wiped_invalid hw hHc (by omega) (holds_store _ _ _))
    refine ⟨rfl, hst, hitems, ?_⟩
    intro w hmem
    simp only [Eeprom.write, mem_cons] at hmem
    rcases hmem with rfl | rfl | rfl | hmem
    · exact .inr (by dsimp only; omega)
    · exact .inr (by dsimp only; omega)
    · exact .inr (by dsimp only; omega)
    · exact .inl hmem
  | false =>
    rw [if_neg Bool.false_ne_true, if_neg (not_not.mpr rfl)]
    obtain ⟨hst, hitems⟩ := hdone m₂ (fun _ _ => rfl) hvc
    refine ⟨rfl, hst, hitems, ?_⟩
    intro w hmem
    simp only [Eeprom.write, mem_cons] at hmem
    rcases hmem with rfl | rfl | hmem
    · exact .inr (by dsimp only; omega)
    · exact .inr (by dsimp only; omega)
    · exact .inl hmem

/-! ### Looking up an item -/

section Lookup

variable {m : Nat → UInt8} {its : List Nat} {key : UInt16}

/-- The item an iterator stands for. -/
def itemAt (l : Layout) (m : Nat → UInt8) (iter : Nat) : Item :=
  (iterGetKey l m iter, valueBytes l m iter)

/-- LOOKUP: the loop with an index finds the value with that number under the key, or nothing. -/
theorem findKey_spec (hne : ∀ it ∈ its, it ≠ 0) (index : Nat) :
    (findKey l m key index its = 0 ∧ (valuesOf (its.map (itemAt l m)) key)[index]? = none) ∨
    (findKey l m key index its ≠ 0 ∧
     findKey l m key index its ∈ its ∧
     (valuesOf (its.map (itemAt l m)) key)[index]? = some (valueBytes l m (findKey l m key index its))) := by
  induction its generalizing index with
  | nil => exact .inl ⟨rfl, rfl⟩
  | cons it rest ih =>
    have hrest : ∀ x ∈ rest, x ≠ 0 := fun x hx => hne x (mem_cons_of_mem _ hx)
    rw [findKey, map_cons]
    by_cases hkey : iterGetKey l m it = key
    · have hvalues : valuesOf (itemAt l m it :: rest.map (itemAt l m)) key =
          valueBytes l m it :: valuesOf (rest.map (itemAt l m)) key := by
        simp [valuesOf, itemAt, hkey]
      rw [if_pos hkey, hvalues]
      cases index with
      | zero => exact .inr ⟨hne it (mem_cons_self ..), mem_cons_self .., rfl⟩
      | succ index =>
        rcases ih hrest index with h | ⟨h1, h2, h3⟩
        · exact .inl h
        · exact .inr ⟨h1, mem_cons_of_mem _ h2, h3⟩
    · have hvalues : valuesOf (itemAt l m it :: rest.map (itemAt l m)) key =
          valuesOf (rest.map (itemAt l m)) key := by
        simp [valuesOf, itemAt, hkey]
      rw [if_neg hkey, hvalues]
      rcases ih hrest index with h | ⟨h1, h2, h3⟩
      · exact .inl h
      · exact .inr ⟨h1, mem_cons_of_mem _ h2, h3⟩

theorem findKey_first (hfound : findKey l m key 0 its ≠ 0) : ∃ front back, its = front ++ findKey l m key 0 its ::
    back ∧ iterGetKey l m (findKey l m key 0 its) = key ∧ ∀ x ∈ front, iterGetKey l m x ≠ key := by
  induction its with
  | nil => exact absurd rfl hfound
  | cons it rest ih =>
    rw [findKey] at hfound ⊢
    by_cases hkey : iterGetKey l m it = key
    · rw [if_pos hkey, if_pos rfl]
      exact ⟨[], rest, rfl, hkey, by simp⟩
    · rw [if_neg hkey] at hfound ⊢
      obtain ⟨front, back, heq, hk, hfront⟩ := ih hfound
      refine ⟨it :: front, back, by rw [cons_append, ← heq], hk, ?_⟩
      intro x hx
      rcases mem_cons.mp hx with rfl | hx
      · exact hkey
      · exact hfront x hx

theorem replaceFirst_append {front back : List Item} {it : Item} (value : List UInt8) (hit : it.1 = key) (hfront : ∀ x
    ∈ front, x.1 ≠ key) : replaceFirst key value (front ++ it :: back) = front ++ (key, value) :: back := by
  induction front with
  | nil => rw [nil_append, replaceFirst, if_pos hit, nil_append]
  | cons x xs ih =>
    rw [cons_append, replaceFirst, if_neg (hfront x (mem_cons_self ..)),
      ih fun y hy => hfront y (mem_cons_of_mem _ hy), cons_append]

end Lookup

theorem Stored.ne_zero (hw : NoWrap l) {its : List Nat} (h : Stored l m its b) : ∀ it ∈ its, it ≠ 0 := by
  intro it hit
  exact ((iterIsValid_iff hw m it).mp (h.chain.bounds.2 it hit).2.2.2).1

theorem Stored.replace (hw : NoWrap l) {front back : List Nat} {it : Nat}
    (h : Stored l m (front ++ it :: back) b) {value : List UInt8} (hlen : value.length = iterGetValueLength l m it) :
    let m' := store m (iterGetValueAddr l m it) value
    Stored l m' (front ++ it :: back) b ∧ itemsOf l m' =
        front.map (itemAt l m) ++ (iterGetKey l m it, value) :: back.map (itemAt l m) := by
  intro m'
  obtain ⟨-, hsz, hin, hv⟩ := h.chain.bounds.2 it (by simp)
  obtain ⟨c, hfront, hrest⟩ := h.chain.split
  obtain ⟨rfl, hback⟩ : c = it ∧ Chain l m (it - itemSize l m it) back b := by
    cases hrest with
    | cons _ _ hback => exact ⟨rfl, hback⟩
  have hit : c < 65536 := lt_of_le_of_lt hfront.bounds.1 l.top_lt
  have hle := headerSize_le_itemSize l m c
  have hH : headerSize l ≤ c := by omega
  have haddr := valueAddr_eq hin hit
  -- the items in front lie above the item, the items behind it below its value
  have hhead : SameHeader l m m' c := fun i hlo hhi => store_outside (.inr (by omega))
  obtain ⟨hsf, hif⟩ := hfront.items_congr l.top_lt m' fun i hlo _ => store_outside (.inr (by omega))
  obtain ⟨hsb, hib⟩ := hback.items_congr (by omega) m' fun i _ hhi => store_outside (.inl (by omega))
  have hsame : ∀ x ∈ front ++ c :: back, SameHeader l m m' x := by
    intro x hx
    rcases mem_append.mp hx with hx | hx
    · exact hsf x hx
    · rcases mem_cons.mp hx with rfl | hx
      · exact hhead
      · exact hsb x hx
  have hends : iterIsValid l m' b = false := by
    rcases lt_or_ge b (headerSize l) with hlt | hge
    · rw [Bool.eq_false_iff]
      intro hvb
      have := ((iterIsValid_iff hw m' b).mp hvb).2.2
      omega
    · have hsb : SameHeader l m m' b := fun i _ hhi => store_outside (.inl (by omega))
      rw [hsb.valid hw hge (by omega)]
      exact h.ends
  have hst : Stored l m' (front ++ c :: back) b := ⟨h.chain.congr hw l.top_lt hsame, hends⟩
  refine ⟨hst, ?_⟩
  have hvalue : valueBytes l m' c = value := by
    rw [valueBytes, hhead.length hH hit, ← hlen, iterGetValueAddr, hhead.itemSize hH hit, ← iterGetValueAddr]
    exact holds_store m _ value
  rw [hst.itemsOf_eq hw, map_append, map_cons, hif, hib, hhead.key hH hit, hvalue]
  rfl

/-! ### The refinement -/

/-- The store is there again behind an operation, and nothing was written below the bottom. -/
def Kept (l : Layout) (e e' : Eeprom) : Prop :=
  (∃ its b, Stored l e'.bytes its b) ∧ ∀ w ∈ e'.writes, w ∈ e.writes ∨ l.bottom ≤ w.1

section Steps

variable {e : Eeprom} {its : List Nat} {b : Nat} {key : UInt16} {value : List UInt8}
  {junk : UInt8 × UInt8}

theorem Stored.kept (h : Stored l e.bytes its b) : Kept l e e := ⟨⟨its, b, h⟩, fun _ hw => .inl hw⟩

theorem settingsAdd_refines (hw : NoWrap l) (h : Stored l e.bytes its b) (hnb : ¬ Boundary l e.bytes value) :
    let r := settingsAdd l e key value junk
    Kept l e r.2 ∧ itemsOf l r.2.bytes =
      if r.1 = .ok then itemsOf l e.bytes ++ [(key, value)] else itemsOf l e.bytes := by
  intro r
  rcases settingsAdd_spec hw h hnb with ⟨hne, heq⟩ | ⟨hok, hst, hitems, hwr⟩
  · exact ⟨heq ▸ h.kept, by rw [if_neg hne, heq]⟩
  · exact ⟨⟨hst, hwr⟩, by rw [if_pos hok, hitems]⟩

theorem settingsSet_refines (hw : NoWrap l) (h : Stored l e.bytes its b)
    (hnb : findKey l e.bytes key 0 (iters l e.bytes) = 0 → ¬ Boundary l e.bytes value) :
    let r := settingsSet l e key value junk
    Kept l e r.2 ∧ itemsOf l r.2.bytes =
      if r.1 = .ok then
        if valuesOf (itemsOf l e.bytes) key = [] then itemsOf l e.bytes ++ [(key, value)]
        else replaceFirst key value (itemsOf l e.bytes)
      else itemsOf l e.bytes := by
  intro r
  have hiters : iters l e.bytes = its := h.iters_eq hw le_rfl
  have hitems : itemsOf l e.bytes = its.map (itemAt l e.bytes) := h.itemsOf_eq hw
  rw [hiters] at hnb
  have hr : r = settingsSet l e key value junk := rfl
  clear_value r
  unfold settingsSet at hr
  rw [hiters] at hr
  rcases findKey_spec (h.ne_zero hw) 0 with ⟨h0, hnone⟩ | ⟨hne, hmem, hsome⟩
  · rw [if_pos (.inl h0)] at hr
    have hvalues : valuesOf (itemsOf l e.bytes) key = [] := by
      rw [hitems]
      exact getElem?_eq_none_iff.mp hnone |> Nat.le_zero.mp |> eq_nil_of_length_eq_zero
    rw [if_pos hvalues, hr]
    exact settingsAdd_refines hw h (hnb h0)
  · have hvalid := (h.chain.bounds.2 _ hmem).2.2.2
    rw [if_neg (by rw [hvalid]; simp [hne])] at hr
    split at hr
    · subst hr
      exact ⟨h.kept, by simp⟩
    next hlen =>
      subst hr
      obtain ⟨front, back, hsplit, hkey, hfront⟩ := findKey_first hne
      obtain ⟨-, -, hin, -⟩ := h.chain.bounds.2 _ hmem
      have hlt : findKey l e.bytes key 0 its < 65536 := lt_of_le_of_lt (h.chain.bounds.2 _ hmem).1 l.top_lt
      have hvalues : valuesOf (itemsOf l e.bytes) key ≠ [] := by
        intro hnil
        rw [← hitems, hnil] at hsome
        cases hsome
      generalize findKey l e.bytes key 0 its = it at *
      subst hsplit
      obtain ⟨hst, hnew⟩ := h.replace hw (not_not.mp hlen)
      refine ⟨⟨⟨_, _, hst⟩, ?_⟩, ?_⟩
      · intro w hmem
        rcases mem_cons.mp hmem with rfl | hmem
        · right
          rw [valueAddr_eq hin hlt]
          omega
        · exact .inl hmem
      · rw [if_pos rfl, if_neg hvalues, hitems, map_append, map_cons, replaceFirst_append value hkey ?_]
        · rw [← hkey]; exact hnew
        · intro x hx
          obtain ⟨y, hy, rfl⟩ := mem_map.mp hx
          exact hfront y hy

/-- STEP: an allowed call answers as the list does, and leaves the store as the list. -/
theorem step_refines (hw : NoWrap l) {e' : Eeprom} {ev : Op × Answer} (h : Stored l e.bytes its b) (hok : Allowed l e
    ev) (hs : step l e ev = some e') : Kept l e e' ∧ listStep (itemsOf l e.bytes) ev = some (itemsOf l e'.bytes) := by
  have hiters : iters l e.bytes = its := h.iters_eq hw le_rfl
  have hitems : itemsOf l e.bytes = its.map (itemAt l e.bytes) := h.itemsOf_eq hw
  obtain ⟨op, answer⟩ := ev
  rw [step] at hs
  split at hs
  next ha =>
    rw [Option.some.injEq] at hs
    dsimp only at ha hs
    cases op with
    | add key value junk =>
      obtain ⟨hkept, hnew⟩ := @settingsAdd_refines l e its b key value junk hw h hok
      subst ha hs
      refine ⟨hkept, ?_⟩
      show listStep _ (_, Answer.status (settingsAdd l e key value junk).1) =
        some (itemsOf l (settingsAdd l e key value junk).2.bytes)
      rw [hnew]
      cases (settingsAdd l e key value junk).1 <;> rfl
    | set key value junk =>
      obtain ⟨hkept, hnew⟩ := @settingsSet_refines l e its b key value junk hw h hok
      subst ha hs
      refine ⟨hkept, ?_⟩
      show listStep _ (_, Answer.status (settingsSet l e key value junk).1) =
        some (itemsOf l (settingsSet l e key value junk).2.bytes)
      rw [hnew]
      cases (settingsSet l e key value junk).1 <;> rfl
    | get key index size =>
      subst ha hs
      refine ⟨h.kept, ?_⟩
      simp only [perform, settingsGet, hiters]
      rcases findKey_spec (h.ne_zero hw) index with ⟨h0, hnone⟩ | ⟨hne, hmem, hsome⟩
      · rw [if_pos h0]
        simp only [listStep, hitems, hnone]
        rfl
      · rw [if_neg hne]
        simp only [listStep, hitems, hsome]
        rw [if_pos]
        simp only [Option.map_some, iterGetValueBytes, valueBytes, slice_take]
    | check key index =>
      subst ha hs
      refine ⟨h.kept, ?_⟩
      simp only [perform, settingsCheck, hiters, listStep]
      rw [hitems]
      rcases findKey_spec (h.ne_zero hw) index with ⟨h0, hnone⟩ | ⟨hne, hmem, hsome⟩
      · rw [h0, hnone]; rfl
      · rw [hsome]; simpa using hne
    | delete key index =>
      subst ha hs
      have hunchanged : (settingsDelete l e key index).2 = e ∧ (settingsDelete l e key index).1 ≠ .ok := by
        unfold settingsDelete iterDelete
        dsimp only
        split
        · exact ⟨rfl, by simp⟩
        next hne =>
          rw [if_neg (hok hne)]
          exact ⟨rfl, by simp⟩
      refine ⟨?_, ?_⟩
      · show Kept l e (settingsDelete l e key index).2
        rw [hunchanged.1]; exact h.kept
      · show listStep _ (_, Answer.status (settingsDelete l e key index).1) =
          some (itemsOf l (settingsDelete l e key index).2.bytes)
        rw [hunchanged.1]
        cases hst : (settingsDelete l e key index).1 <;> first | rfl | exact absurd hst hunchanged.2
  · cases hs

end Steps

/-- RUN: the calls of a run and their answers are a run of the list store. -/
theorem run_refines (hw : NoWrap l) {e e' : Eeprom} {evs : List (Op × Answer)}
    (hrun : Run (step l) (Allowed l) e evs e') (h : ∃ its b, Stored l e.bytes its b) :
    Kept l e e' ∧ Run listStep (fun _ _ => True) (itemsOf l e.bytes) evs (itemsOf l e'.bytes) := by
  induction hrun with
  | nil e => exact ⟨⟨h, fun _ hw => .inl hw⟩, .nil _⟩
  | cons hok hst _ ih =>
    obtain ⟨its, b, hs⟩ := h
    obtain ⟨hkept, hlist⟩ := step_refines hw hs hok hst
    obtain ⟨⟨hstored, hwrites⟩, hrest⟩ := ih hkept.1
    refine ⟨⟨hstored, fun w hmem => ?_⟩, .cons trivial hlist hrest⟩
    rcases hwrites w hmem with hmem | hlow
    · exact hkept.2 w hmem
    · exact .inr hlow

/-- THE STORE IS A LIST OF ITEMS: every run of allowed calls is, answer for answer, a run of the list
    store, its loops come to an end, and no byte below `SETTINGS_BOTTOM_ADDR` is written. -/
theorem settings_refine_list (l : Layout) (hw : NoWrap l) {e e' : Eeprom} {evs : List (Op × Answer)}
    (hstart : Inside l e.bytes) (hfresh : e.writes = []) (hrun : Run (step l) (Allowed l) e evs e') :
    Run listStep (fun _ _ => True) (itemsOf l e.bytes) evs (itemsOf l e'.bytes) ∧
    (∀ fuel, 65536 ≤ fuel → itersFrom l e'.bytes fuel (iterBegin l e'.bytes) = iters l e'.bytes) ∧
    ∀ w ∈ e'.writes, l.bottom ≤ w.1 := by
  obtain ⟨b, hst⟩ := exists_stored hw hstart
  obtain ⟨⟨⟨its, c, hstored⟩, hwrites⟩, hlist⟩ := run_refines hw hrun ⟨_, b, hst⟩
  refine ⟨hlist, fun fuel hf => ?_, fun w hmem => ?_⟩
  · rw [iters, hstored.iters_eq hw hf, hstored.iters_eq hw le_rfl]
  · rcases hwrites w hmem with hmem | hlow
    · rw [hfresh] at hmem
      cases hmem
    · exact hlow

/-- An erased EEPROM of 256 bytes with 127 of them for settings. -/
def erased : Eeprom := ⟨fun _ => 0xFF, []⟩

def small : Layout := ⟨false, false, 16, 255, 129, .inl rfl, by decide⟩

/-- Two values under one key, a replaced value, lookups and the deletion of a first item. -/
def calls : List (Op × Answer) :=
  [(.add 7 [1, 2] (0, 0), .status .ok), (.set 8 [3] (0, 0), .status .ok),
    (.add 7 [4, 5, 6] (0, 0), .status .ok), (.set 7 [9, 9] (0, 0), .status .ok),
    (.get 7 1 8, .found [4, 5, 6]), (.check 7 2, .present false),
    (.delete 7 0, .status .unimplemented), (.add 9 (replicate 127 0) (0, 0), .status .outOfSpace)]

theorem settings_refine_list_at_calls : ∃ e', Run (step small) (Allowed small) erased calls e' ∧ Run listStep (fun _ _
    => True) [] calls [(7, [9, 9]), (8, [3]), (7, [4, 5, 6])] ∧ ∀ w ∈ e'.writes, 129 ≤ w.1 := by
  have hcheck : ∀ e ev, (match ev.1 with
      | .delete key index => iterNext small e.bytes (findKey small e.bytes key index
          (iters small e.bytes)) != 0
      | _ => true) = true → Allowed small e ev := by
    rintro e ⟨op, answer⟩ h
    cases op with
    | add | set => simp [Allowed, Boundary, small]
    | get | check => trivial
    | delete key index => exact fun _ => by simpa using h
  obtain ⟨e', hrun, hitems⟩ : ∃ e', Run (step small) (Allowed small) erased calls e' ∧ _ :=
    exists_run _ (fun e => itemsOf small e.bytes == [(7, [9, 9]), (8, [3]), (7, [4, 5, 6])]) hcheck
      (by decide +kernel)
  have hinside : Inside small erased.bytes := by
    intro it hit
    cases hit
  obtain ⟨hlist, -, hwrites⟩ := settings_refine_list small (by unfold NoWrap; decide) hinside rfl hrun
  have hempty : itemsOf small erased.bytes = [] := by decide
  rw [hempty, beq_iff_eq.mp hitems] at hlist
  exact ⟨e', hrun, hlist, hwrites⟩

/-- A store for large values in which 128 bytes fit exactly. -/
def exactFit : Layout := ⟨true, false, 32, 255, 122, .inr rfl, by decide⟩

/-- The deletion of the last item reports a failure and takes the item away; and a large value that
    fits exactly is written over the bottom. -/
theorem failed_delete_takes_item :
    (∃ e,
       Run (step small) (fun _ _ => True) erased [(.add 7 [1, 2] (0, 0), .status .ok)] e ∧
       itemsOf small e.bytes = [(7, [1, 2])] ∧
       (perform small e (.delete 7 0)).1 = .status .unimplemented ∧
       itemsOf small (perform small e (.delete 7 0)).2.bytes = []) ∧
    (perform exactFit erased (.add 7 (replicate 128 0) (0, 0))).1 = .status .ok ∧
    (121, 128) ∈ (perform exactFit erased (.add 7 (replicate 128 0) (0, 0))).2.writes := by
  refine ⟨?_, by decide +kernel, by decide +kernel⟩
  obtain ⟨e, hrun, h⟩ : ∃ e, Run (step small) (fun _ _ => True) erased [(.add 7 [1, 2] (0, 0), .status .ok)] e ∧ _ :=
    exists_run (fun _ _ => true) (fun e => decide (itemsOf small e.bytes = [(7, [1, 2])] ∧
      (perform small e (.delete 7 0)).1 = .status .unimplemented ∧
      itemsOf small (perform small e (.delete 7 0)).2.bytes = [])) (fun _ _ _ => trivial)
      (by decide)
  exact ⟨e, hrun, of_decide_eq_true h⟩

end CSync.Settings
