import CSync.Mac.ElementBounds
import CSync.Mac.ElementCreators
import Mathlib.Data.Nat.Bitwise

/-! What the parser makes of the elements that the creators leave.

    A layout says which elements stand one after the other: header elements, a list termination, MLME elements with
    nested elements and the length that these have, a payload list termination. Each creator is called with the room
    that is left. The parser then gives the fields of every element back, with two exceptions. A slotframe element
    with no slotframe is skipped without a trace, and an MLME element with nothing in it makes the parser take the
    next element, if there is one, for a nested one. -/

namespace CSync.InformationElements
open List Lib Option

/-! ### Layouts -/

/-- The field values fit their encodings: twelve signed bits of drift, one bit of NACK. -/
structure Within (ies : Ies) : Prop where
  timeCorrection : -2048 ≤ ies.timeCorrection ∧ ies.timeCorrection < 2048
  isNack : ies.isNack = 0 ∨ ies.isNack = 1

instance (ies : Ies) : Decidable (Within ies) :=
  decidable_of_iff ((-2048 ≤ ies.timeCorrection ∧ ies.timeCorrection < 2048) ∧
    (ies.isNack = 0 ∨ ies.isNack = 1)) ⟨fun h => ⟨h.1, h.2⟩, fun h => ⟨h.1, h.2⟩⟩

/-- The elements that nest in an MLME element. -/
inductive SubIe where
  | tschSynchronization | tschSlotframeAndLink | tschTimeslot | tschChannelHoppingSequence
  deriving DecidableEq

def SubIe.ie : SubIe → Ie
  | .tschSynchronization => .tschSynchronization
  | .tschSlotframeAndLink => .tschSlotframeAndLink
  | .tschTimeslot => .tschTimeslot
  | .tschChannelHoppingSequence => .tschChannelHoppingSequence

/-- What follows the header elements. -/
inductive Tail where
  | none
  | listTermination2
  | payload (mlmes : List (List SubIe)) (terminated : Bool)

/-- A number of ACK/NACK elements, the one header element with a creator, and what follows. -/
structure Layout where
  headers : Nat
  tail : Tail

/-- The total length of nested elements. -/
def subsLen (ies : Ies) (subs : List SubIe) : Nat := (subs.map fun s => 2 + s.ie.ieLen ies).sum

/-- An MLME element whose length is that of its nested elements. -/
def mlmeElements (ies : Ies) (subs : List SubIe) : List Ie :=
  .mlme (.ofNat (subsLen ies subs)) :: subs.map SubIe.ie

def Tail.elements (ies : Ies) : Tail → List Ie
  | .none => []
  | .listTermination2 => [.headerListTermination2]
  | .payload mlmes terminated => .headerListTermination1 ::
      (mlmes.flatMap (mlmeElements ies) ++ if terminated then [.payloadListTermination] else [])

def Layout.elements (ies : Ies) (layout : Layout) : List Ie :=
  replicate layout.headers .headerAckNackTimeCorrection ++ layout.tail.elements ies

/-- The bytes of elements created one after the other in a buffer of `len` bytes, unless a creator fails. -/
def concatenation (maxLen : Nat) (ies : Ies) : Int → List Ie → Option (List UInt8)
  | _, [] => some []
  | len, e :: es =>
    let c := e.create maxLen len (some ies)
    if c.ret < 0 then none
    else (concatenation maxLen ies (len - c.ret) es).map (c.bytes ++ ·)

/-- The fields that an element carries have in `parsed` the values of `ies`. A timeslot and a hopping
    sequence with id 0 carry the id only. -/
def GivenBack (ies parsed : Ies) : Ie → Prop
  | .headerAckNackTimeCorrection =>
    parsed.isNack = ies.isNack ∧ parsed.timeCorrection = ies.timeCorrection
  | .tschSynchronization =>
    parsed.asnLs4b = ies.asnLs4b ∧ parsed.asnMs1b = ies.asnMs1b ∧ parsed.joinPriority = ies.joinPriority
  | .tschSlotframeAndLink =>
    let slotframe := ies.tschSlotframeAndLink
    let parsed := parsed.tschSlotframeAndLink
    parsed.numSlotframes = slotframe.numSlotframes ∧ (slotframe.numSlotframes = 1 →
      parsed.slotframeHandle = slotframe.slotframeHandle ∧
      parsed.slotframeSize = slotframe.slotframeSize ∧ parsed.numLinks = slotframe.numLinks ∧
      ∀ i < slotframe.numLinks.toNat, parsed.links i = slotframe.links i)
  | .tschTimeslot =>
    parsed.tschTimeslotId = ies.tschTimeslotId ∧ (ies.tschTimeslotId ≠ 0 →
      ∀ i < tsElementsCount, parsed.tschTimeslot i = ies.tschTimeslot i)
  | .tschChannelHoppingSequence =>
    parsed.channelHoppingSequenceId = ies.channelHoppingSequenceId ∧
      (ies.channelHoppingSequenceId ≠ 0 → parsed.hoppingSequenceLen = ies.hoppingSequenceLen ∧
        ∀ i < ies.hoppingSequenceLen.toNat,
          parsed.hoppingSequenceList i = ies.hoppingSequenceList i)
  | _ => True

/-- The parser takes the whole of the bytes, whatever the record held before, and gives the fields of
    every element back. -/
def Parsed (maxLen : Nat) (ies : Ies) (es : List Ie) (bytes : List UInt8) : Prop :=
  ∀ before : Ies, ∃ parsed : Ies,
    parseInformationElements maxLen bytes before = some ((bytes.length : Int), parsed) ∧
      ∀ e ∈ es, GivenBack ies parsed e

/-- No MLME element is empty, unless it is the last element of all. -/
def Tail.Filled : Tail → Prop
  | .payload mlmes terminated => ∀ subs ∈ if terminated then mlmes else mlmes.dropLast, subs ≠ []
  | _ => True

instance : DecidablePred Tail.Filled
  | .none => isTrue trivial
  | .listTermination2 => isTrue trivial
  | .payload mlmes terminated =>
    inferInstanceAs (Decidable (∀ subs ∈ if terminated then mlmes else mlmes.dropLast, subs ≠ []))

/-! ### The bytes of a layout -/

/-- The bytes of one element. -/
def Ie.encoded (ies : Ies) (e : Ie) : List UInt8 :=
  toLe 2 (e.desc ies) ++ (e.content ies).take (e.ieLen ies)

variable {ies : Ies} {maxLen : Nat}

theorem length_encoded {e : Ie} (h : e.Allowed maxLen ies) :
    (e.encoded ies).length = 2 + e.ieLen ies := by
  rw [Ie.encoded, length_append, length_toLe, length_take, min_eq_left (ieLen_le_content h)]

theorem concatenation_eq : ∀ {es : List Ie} {len : Int} {bytes : List UInt8},
    concatenation maxLen ies len es = some bytes →
      bytes = es.flatMap (Ie.encoded ies) ∧ ∀ e ∈ es, e.Allowed maxLen ies
  | [], _, _, h => by
    cases h
    exact ⟨rfl, nofun⟩
  | e :: es, len, bytes, h => by
    simp only [concatenation] at h
    split at h
    · cases h
    next hret =>
      obtain ⟨rest, hrest, rfl⟩ := map_eq_some_iff.mp h
      obtain ⟨rfl, hall⟩ := concatenation_eq hrest
      have hnn := Int.not_lt.mp hret
      refine ⟨?_, ?_⟩
      · rw [bytes_create hnn, flatMap_cons, Ie.encoded]
      · intro e' he'
        rcases mem_cons.mp he' with rfl | he'
        · exact (create_of_nonneg hnn).1
        · exact hall e' he'

/-- The descriptor of an element is read as it was written. -/
theorem descOf_ieDesc (w n type id len : Nat)
    (hw : w = 7 ∧ n = 8 ∨ w = 8 ∧ n = 7 ∨ w = 11 ∧ n = 4) (htype : type ≤ 1) (hid : id < 2 ^ n)
    (hlen : len < 2 ^ w) :
    let d := ieDesc w n type id len
    let desc := descOf (.ofNat d) (.ofNat (d / 256))
    descLen desc w = len ∧ descId desc w = id ∧ (descType desc = true ↔ type = 1) := by
  intro d desc
  have hd : d < 2 ^ 16 := Nat.mod_lt _ (by decide)
  have hdesc : desc.toNat = d := by
    rw [descOf_toNat, UInt8.toNat_ofNat', UInt8.toNat_ofNat']
    omega
  have hsum : d = len + id * 2 ^ w + type * 2 ^ 15 := by
    simp only [d, ieDesc]
    rw [Nat.mod_eq_of_lt hlen, Nat.mod_eq_of_lt hid]
    refine Nat.mod_eq_of_lt ?_
    rcases hw with ⟨rfl, rfl⟩ | ⟨rfl, rfl⟩ | ⟨rfl, rfl⟩ <;> omega
  rw [descLen, descId, descType, hdesc, hsum, decide_eq_true_iff]
  rcases hw with ⟨rfl, rfl⟩ | ⟨rfl, rfl⟩ | ⟨rfl, rfl⟩ <;> omega

theorem toLe_two (d : Nat) : toLe 2 d = [.ofNat d, .ofNat (d / 256)] := rfl

/-- A number of sixteen bits is read as it was written. -/
theorem descOf_toNat_bytes (v : UInt16) : descOf (.ofNat v.toNat) (.ofNat (v.toNat / 256)) = v := by
  have hv := v.toNat_lt
  rw [← UInt16.toNat_inj, descOf_toNat, UInt8.toNat_ofNat', UInt8.toNat_ofNat']
  omega

/-! ### Reads of what was written -/

theorem getElem?_at {as : List UInt8} {b : UInt8} {bs : List UInt8} {i : Nat} (h : i = as.length) :
    (as ++ b :: bs)[i]? = some b := by
  rw [h, getElem?_append_right (Nat.le_refl _), Nat.sub_self, getElem?_cons_zero]

theorem read16_at {as : List UInt8} {v : UInt16} {bs : List UInt8} {i : Nat} (h : i = as.length) :
    read16 (as ++ (toLe 2 v.toNat ++ bs)) i = some v := by
  have hlo : (as ++ (toLe 2 v.toNat ++ bs))[i]? = some (.ofNat v.toNat) := getElem?_at h
  have hhi : (as ++ (toLe 2 v.toNat ++ bs))[i + 1]? = some (.ofNat (v.toNat / 256)) := by
    rw [h, getElem?_append_right (Nat.le_succ _), Nat.succ_sub (Nat.le_refl _), Nat.sub_self]
    rfl
  rw [read16, hlo, hhi]
  exact congrArg some (descOf_toNat_bytes v)

theorem ite_lt_succ {α : Type} {f g : Nat → α} {n i : Nat} :
    (if i = n then f n else if i < n then f i else g i) = if i < n + 1 then f i else g i := by
  rcases lt_trichotomy i n with hlt | rfl | hgt
  · rw [if_neg (by omega), if_pos hlt, if_pos (by omega)]
  · rw [if_pos rfl, if_pos (by omega)]
  · rw [if_neg (by omega), if_neg (by omega), if_neg (by omega)]

theorem readLinks_bytes {links before : Nat → Link} {as : List UInt8} (has : as.length = 5) :
    ∀ (n : Nat) (bs : List UInt8), readLinks (as ++ (linksBytes links n ++ bs)) n before =
      some fun i => if i < n then links i else before i
  | 0, _ => by simp [readLinks]
  | n + 1, bs => by
    have ih := @readLinks_bytes links before as has n (linkBytes (links n) ++ bs)
    have hsplit : as ++ (linksBytes links (n + 1) ++ bs) =
        as ++ (linksBytes links n ++ (linkBytes (links n) ++ bs)) := by
      rw [linksBytes_succ, append_assoc]
    have hat : 5 + n * 5 = (as ++ linksBytes links n).length := by
      rw [length_append, length_linksBytes, has]
      omega
    have hlink : as ++ (linksBytes links n ++ (linkBytes (links n) ++ bs)) =
        (as ++ linksBytes links n) ++ (toLe 2 (links n).timeslot.toNat ++
          (toLe 2 (links n).channelOffset.toNat ++ (links n).linkOptions :: bs)) := by
      simp [linkBytes]
    have htimeslot := @read16_at (as ++ linksBytes links n) (links n).timeslot
      (toLe 2 (links n).channelOffset.toNat ++ (links n).linkOptions :: bs) _ hat
    have hchannel : read16 (as ++ (linksBytes links n ++ (linkBytes (links n) ++ bs)))
        (5 + n * 5 + 2) = some (links n).channelOffset := by
      rw [hlink, ← append_assoc]
      exact read16_at (by simp [has]; omega)
    have hoptions : (as ++ (linksBytes links n ++ (linkBytes (links n) ++ bs)))[5 + n * 5 + 4]? =
        some (links n).linkOptions := by
      rw [hlink, ← append_assoc, ← append_assoc]
      exact getElem?_at (by simp [has]; omega)
    rw [← hlink] at htimeslot
    rw [hsplit, readLinks, ih, htimeslot, hchannel, hoptions]
    exact congrArg some (funext fun _ => ite_lt_succ)

theorem readTimeslot_bytes {timings before : Nat → UInt16} {as : List UInt8} (has : as.length = 1) :
    ∀ (n : Nat) (bs : List UInt8), readTimeslot (as ++ (timingsBytes timings n ++ bs)) n before =
      some fun i => if i < n then timings i else before i
  | 0, _ => by simp [readTimeslot]
  | n + 1, bs => by
    have ih := @readTimeslot_bytes timings before as has n (toLe 2 (timings n).toNat ++ bs)
    have hat : 1 + 2 * n = (as ++ timingsBytes timings n).length := by
      rw [length_append, length_timingsBytes, has]
    have htiming : read16 (as ++ (timingsBytes timings n ++ (toLe 2 (timings n).toNat ++ bs)))
        (1 + 2 * n) = some (timings n) := by
      rw [← append_assoc]
      exact read16_at hat
    rw [timingsBytes_succ, append_assoc, readTimeslot, ih, htiming]
    exact congrArg some (funext fun _ => ite_lt_succ)

/-- The list of the hopping sequence is copied back. -/
theorem copyOut_bytes {list before : Nat → UInt8} {as bs : List UInt8} {o n : Nat} (ho : o = as.length) :
    copyOut (as ++ ((range n).map list ++ bs)) o n before =
      some fun i => if i < n then list i else before i := by
  rw [copyOut, if_pos (by simp [ho])]
  refine congrArg some (funext fun i => ?_)
  split
  next hi =>
    rw [List.getD, getElem?_append_right (by omega), ho, Nat.add_sub_cancel_left,
      getElem?_append_left (by simpa using hi), getElem?_map, getElem?_range hi]
    rfl
  · rfl

/-- Bytes that are or-ed together above each other are added. -/
theorem or_shiftLeft {a b k : Nat} (h : a < 2 ^ k) : a ||| b <<< k = a + b * 2 ^ k := by
  rw [Nat.or_comm, ← Nat.shiftLeft_add_eq_or_of_lt h, Nat.shiftLeft_eq, add_comm]

/-- The four bytes of the sequence number are put together again. -/
theorem asn_bytes (v : UInt32) : v.toUInt8.toUInt32 ||| ((v >>> 8).toUInt8.toUInt32 <<< 8) ||| ((v >>>
    16).toUInt8.toUInt32 <<< 16) ||| ((v >>> 24).toUInt8.toUInt32 <<< 24) = v := by
  have hv := v.toNat_lt
  rw [← UInt32.toNat_inj]
  simp only [UInt32.toNat_or, UInt32.toNat_shiftLeft, UInt8.toNat_toUInt32, UInt32.toNat_toUInt8,
    UInt32.toNat_shiftRight, UInt32.toNat_ofNat, Nat.reducePow, Nat.reduceMod, Nat.shiftRight_eq_div_pow]
  have hshift : ∀ b < 256, ∀ k ≤ 24, b <<< k % 4294967296 = b <<< k := by
    intro b hb k hk
    refine Nat.mod_eq_of_lt ?_
    rw [Nat.shiftLeft_eq]
    calc b * 2 ^ k ≤ 255 * 2 ^ 24 :=
          Nat.mul_le_mul (by omega) (Nat.pow_le_pow_right (by decide) hk)
      _ < 4294967296 := by decide
  have hbyte : ∀ x : Nat, x % 256 < 256 := fun x => Nat.mod_lt x (by decide)
  rw [hshift _ (hbyte _) 8 (by decide), hshift _ (hbyte _) 16 (by decide),
    hshift _ (hbyte _) 24 (by decide), or_shiftLeft (k := 8) (hbyte _),
    or_shiftLeft (k := 16) (by omega), or_shiftLeft (k := 24) (by omega)]
  omega

theorem and_bit_ne_zero {v : UInt16} {k : Nat} (hk : k < 16) :
    v &&& UInt16.ofNat (2 ^ k) ≠ 0 ↔ v.toNat / 2 ^ k % 2 = 1 := by
  rw [Ne, ← UInt16.toNat_inj, UInt16.toNat_and, UInt16.toNat_ofNat',
    Nat.mod_eq_of_lt (Nat.pow_lt_pow_right (by decide) hk), Nat.and_two_pow,
    Nat.testBit_eq_decide_div_mod_eq]
  by_cases hbit : v.toNat / 2 ^ k % 2 = 1
  · simp [hbit]
  · simp [hbit]

theorem timeSync_bits {low nack : Nat} {v : UInt16} (hlow : low < 4096) (hnack : nack < 2)
    (hv : v.toNat = low + nack * 32768) :
    (v &&& 0x8000 ≠ 0 ↔ nack = 1) ∧ driftUs v = if low < 2048 then (low : Int) else low - 4096 := by
  have hnackBit : v &&& 0x8000 ≠ 0 ↔ v.toNat / 2 ^ 15 % 2 = 1 := and_bit_ne_zero (k := 15) (by decide)
  have hsignBit : v &&& 0x0800 ≠ 0 ↔ v.toNat / 2 ^ 11 % 2 = 1 := and_bit_ne_zero (k := 11) (by decide)
  refine ⟨by rw [hnackBit, hv]; omega, ?_⟩
  rw [driftUs]
  by_cases hsign : low < 2048
  · rw [if_neg (by rw [hsignBit, hv]; omega), if_pos hsign, UInt16.toNat_and]
    have hmask : v.toNat &&& 2 ^ 12 - 1 = v.toNat % 2 ^ 12 := Nat.and_two_pow_sub_one_eq_mod _ 12
    have hmod : v.toNat % 2 ^ 12 = low := by omega
    exact congrArg Int.ofNat (hmask.trans hmod)
  · rw [if_pos (by rw [hsignBit, hv]; omega), if_neg hsign, UInt16.toNat_or]
    have hhigh : v.toNat = low ||| (8 * nack) <<< 12 := by
      rw [or_shiftLeft (by omega), hv]
      omega
    have hor : v.toNat ||| 15 <<< 12 = low + 15 * 2 ^ 12 := by
      rw [hhigh, Nat.or_assoc, ← Nat.shiftLeft_or_distrib, ← or_shiftLeft (by omega)]
      have hnibble : 8 * nack ||| 15 = 15 := by
        rcases (show nack = 0 ∨ nack = 1 by omega) with rfl | rfl <;> rfl
      rw [hnibble]
    have hconst : UInt16.toNat 0xf000 = 15 <<< 12 := rfl
    rw [hconst, hor]
    omega

/-! ### One element -/

/-- The record behind an element that was created from `ies`. -/
def Ie.readInto (ies before : Ies) : Ie → Ies
  | .headerAckNackTimeCorrection =>
    { before with isNack := ies.isNack, timeCorrection := ies.timeCorrection }
  | .tschSynchronization => { before with
      asnLs4b := ies.asnLs4b, asnMs1b := ies.asnMs1b, joinPriority := ies.joinPriority }
  | .tschSlotframeAndLink => { before with
      tschSlotframeAndLink := { ies.tschSlotframeAndLink with
        links := fun i => if i < ies.tschSlotframeAndLink.numLinks.toNat then
          ies.tschSlotframeAndLink.links i else before.tschSlotframeAndLink.links i } }
  | .tschTimeslot => { before with
      tschTimeslotId := ies.tschTimeslotId
      tschTimeslot := fun i => if ies.tschTimeslotId ≠ 0 ∧ i < tsElementsCount then
        ies.tschTimeslot i else before.tschTimeslot i }
  | .tschChannelHoppingSequence => { before with
      channelHoppingSequenceId := ies.channelHoppingSequenceId
      hoppingSequenceLen := if ies.channelHoppingSequenceId ≠ 0 then ies.hoppingSequenceLen
        else before.hoppingSequenceLen
      hoppingSequenceList := fun i => if ies.channelHoppingSequenceId ≠ 0 ∧
        i < ies.hoppingSequenceLen.toNat then ies.hoppingSequenceList i
        else before.hoppingSequenceList i }
  | _ => before

/-- An element gives its own fields back and keeps those of the others. -/
theorem givenBack_readInto {ies before : Ies} {e e' : Ie} (h : e' = e ∨ GivenBack ies before e') :
    GivenBack ies (e.readInto ies before) e' := by
  rcases h with rfl | h
  · cases e' <;> simp +contextual [GivenBack, Ie.readInto]
  · cases e <;> cases e' <;> first | exact h | simp +contextual [GivenBack, Ie.readInto]

theorem parseHeaderIe_bytes (hwithin : Within ies) (before : Ies) (bs : List UInt8) :
    parseHeaderIe (toLe 2 (timeSyncField ies) ++ bs) 2 headerIeAckNackTimeCorrection before =
      some (2, Ie.headerAckNackTimeCorrection.readInto ies before) := by
  have hlow : (ies.timeCorrection % 4096).toNat < 4096 := by omega
  obtain ⟨hmin, hmax⟩ := hwithin.timeCorrection
  have hfield : timeSyncField ies = (ies.timeCorrection % 4096).toNat + ies.isNack.toNat * 32768 := by
    rw [timeSyncField]
    rcases hwithin.isNack with h | h
    · simp [h]
    · rw [h]
      exact or_shiftLeft (b := 1) (k := 15) (by omega)
  have hnack : ies.isNack.toNat < 2 := by rcases hwithin.isNack with h | h <;> rw [h] <;> decide
  have hv : (UInt16.ofNat (timeSyncField ies)).toNat = timeSyncField ies := by
    rw [UInt16.toNat_ofNat']
    omega
  obtain ⟨hnackBit, hdrift⟩ := timeSync_bits hlow hnack (hv.trans hfield)
  have hread := @read16_at [] (.ofNat (timeSyncField ies)) bs 0 rfl
  rw [hv, nil_append] at hread
  rw [parseHeaderIe, if_pos ⟨rfl, rfl⟩, hread]
  refine congrArg some (Prod.ext rfl ?_)
  have hisNack : (if UInt16.ofNat (timeSyncField ies) &&& 0x8000 ≠ 0 then 1 else 0) = ies.isNack := by
    rcases hwithin.isNack with h | h
    · rw [if_neg (by rw [hnackBit, h]; decide), h]
    · rw [if_pos (by rw [hnackBit, h]; decide), h]
  have hcorrection : driftUs (UInt16.ofNat (timeSyncField ies)) = ies.timeCorrection := by
    rw [hdrift]
    split <;> omega
  simp only [Ie.readInto, hisNack, hcorrection]

theorem parseSynchronization_bytes (ies before : Ies) (bs : List UInt8) : parseSynchronization
    (Ie.tschSynchronization.content ies ++ bs) 6 before = some (6, Ie.tschSynchronization.readInto ies before) := by
  refine congrArg some (Prod.ext rfl ?_)
  simp only [Ie.readInto, asn_bytes]

theorem parseSlotframeAndLink_bytes (hallowed : Ie.tschSlotframeAndLink.Allowed maxLen ies)
    (hone : ies.tschSlotframeAndLink.numSlotframes = 1) (before : Ies) (bs : List UInt8) :
    parseSlotframeAndLink (Ie.tschSlotframeAndLink.content ies ++ bs) (Ie.tschSlotframeAndLink.ieLen ies) before =
      some ((Ie.tschSlotframeAndLink.ieLen ies : Int), Ie.tschSlotframeAndLink.readInto ies before) := by
  have hlen : Ie.tschSlotframeAndLink.ieLen ies = 1 + (4 + 5 * ies.tschSlotframeAndLink.numLinks.toNat) := by
    rw [Ie.ieLen, hone, UInt8.toNat_one, one_mul]
  have hcontent : Ie.tschSlotframeAndLink.content ies ++ bs = ([1, ies.tschSlotframeAndLink.slotframeHandle] ++
        toLe 2 ies.tschSlotframeAndLink.slotframeSize.toNat ++
        [ies.tschSlotframeAndLink.numLinks]) ++
      (linksBytes ies.tschSlotframeAndLink.links ies.tschSlotframeAndLink.numLinks.toNat ++ bs) := by
    simp [Ie.content, hone]
  have hlinks := @readLinks_bytes ies.tschSlotframeAndLink.links before.tschSlotframeAndLink.links
    ([1, ies.tschSlotframeAndLink.slotframeHandle] ++ toLe 2 ies.tschSlotframeAndLink.slotframeSize.toNat ++
        [ies.tschSlotframeAndLink.numLinks]) rfl ies.tschSlotframeAndLink.numLinks.toNat bs
  have hsize : read16 (Ie.tschSlotframeAndLink.content ies ++ bs) 2 =
      some ies.tschSlotframeAndLink.slotframeSize := by
    rw [hcontent, append_assoc, append_assoc]
    exact read16_at rfl
  rw [← hcontent] at hlinks
  have hzero : (Ie.tschSlotframeAndLink.content ies ++ bs)[0]? = some 1 := by rw [hcontent]; rfl
  have hhandle : (Ie.tschSlotframeAndLink.content ies ++ bs)[1]? =
      some ies.tschSlotframeAndLink.slotframeHandle := by rw [hcontent]; rfl
  have hnum : (Ie.tschSlotframeAndLink.content ies ++ bs)[4]? =
      some ies.tschSlotframeAndLink.numLinks := by rw [hcontent]; rfl
  rw [parseSlotframeAndLink, if_pos (by omega), hzero, hnum]
  have hfits : (1 : UInt8).toNat ≤ 1 ∧ ies.tschSlotframeAndLink.numLinks.toNat ≤ maxLinks ∧
      Ie.tschSlotframeAndLink.ieLen ies = 1 + (1 : UInt8).toNat * (4 + 5 * ies.tschSlotframeAndLink.numLinks.toNat) :=
    ⟨by decide, hallowed.2, by rw [hlen, UInt8.toNat_one, one_mul]⟩
  simp only [bind_eq_bind, bind_some]
  rw [if_neg (by decide), if_pos hfits, hhandle, hsize, hlinks]
  simp only [bind_some, Ie.readInto, hone]

theorem parseTimeslot_bytes (ies before : Ies) (bs : List UInt8) : parseTimeslot (Ie.tschTimeslot.content ies ++ bs)
    (timeslotLen ies) before = some ((timeslotLen ies : Int), Ie.tschTimeslot.readInto ies before) := by
  by_cases hid : ies.tschTimeslotId = 0
  · have hlen : timeslotLen ies = 1 := if_pos hid
    rw [hlen, parseTimeslot, if_pos (.inl rfl)]
    simp [Ie.content, Ie.readInto, hid]
  · have hlen : timeslotLen ies = 25 := if_neg hid
    have hcontent : Ie.tschTimeslot.content ies ++ bs =
        [ies.tschTimeslotId] ++ (timingsBytes ies.tschTimeslot tsElementsCount ++ bs) := by
      simp [Ie.content, hid]
    have htimings := @readTimeslot_bytes ies.tschTimeslot before.tschTimeslot
      [ies.tschTimeslotId] rfl tsElementsCount bs
    rw [hlen, parseTimeslot, if_pos (.inr rfl), hcontent]
    simp only [bind_eq_bind, if_true, htimings]
    simp [Ie.readInto, hid]

theorem parseMlmeLongIe_bytes (hallowed : Ie.tschChannelHoppingSequence.Allowed maxLen ies) (before : Ies)
    (bs : List UInt8) :
    parseMlmeLongIe maxLen ((Ie.tschChannelHoppingSequence.content ies).take (channelHoppingSequenceLen ies) ++ bs)
      (channelHoppingSequenceLen ies) mlmeLongIeTschChannelHoppingSequence before =
      some ((channelHoppingSequenceLen ies : Int), Ie.tschChannelHoppingSequence.readInto ies before) := by
  by_cases hid : ies.channelHoppingSequenceId = 0
  · have hlen : channelHoppingSequenceLen ies = 1 := if_pos hid
    rw [hlen, parseMlmeLongIe, if_pos ⟨rfl, by decide⟩]
    simp [Ie.content, Ie.readInto, hid]
  · have hlen : channelHoppingSequenceLen ies = 12 + ies.hoppingSequenceLen.toNat := if_neg hid
    have htake : (Ie.tschChannelHoppingSequence.content ies).take (channelHoppingSequenceLen ies) =
        Ie.tschChannelHoppingSequence.content ies := by
      refine take_of_length_le ?_
      rw [length_content hallowed, if_pos rfl, hlen]
    have hcontent : Ie.tschChannelHoppingSequence.content ies ++ bs =
        [ies.channelHoppingSequenceId, 0, 0, 0, 0, 0, 0, 0] ++ (toLe 2 ies.hoppingSequenceLen.toNat ++
            ((range ies.hoppingSequenceLen.toNat).map ies.hoppingSequenceList ++ ([0, 0] ++ bs))) := by
      simp [Ie.content]
    have hseq : read16 (Ie.tschChannelHoppingSequence.content ies ++ bs) 8 = some ies.hoppingSequenceLen := by
      rw [hcontent]
      exact read16_at rfl
    have hlist : copyOut (Ie.tschChannelHoppingSequence.content ies ++ bs) 10
        ies.hoppingSequenceLen.toNat before.hoppingSequenceList =
        some fun i => if i < ies.hoppingSequenceLen.toNat then ies.hoppingSequenceList i
          else before.hoppingSequenceList i := by
      rw [hcontent, ← append_assoc]
      exact copyOut_bytes rfl
    have hzero : (Ie.tschChannelHoppingSequence.content ies ++ bs)[0]? =
        some ies.channelHoppingSequenceId := by rw [hcontent]; rfl
    rw [htake, hlen, parseMlmeLongIe, if_pos ⟨rfl, by omega⟩, hzero]
    simp only [bind_eq_bind, bind_some]
    rw [if_pos (by omega), hseq]
    simp only [bind_some]
    rw [if_pos ⟨hallowed, trivial⟩, hlist]
    simp [Ie.readInto, hid]

/-! ### The loop over created elements -/

section
variable {maxLen size : Nat} {ies : Ies}

theorem loop_encoded (parsingState : ParsingState) (nested : Int) (before : Ies) (e : Ie) (bs : List UInt8) :
    loop maxLen size parsingState nested before (e.encoded ies ++ bs) =
      continueWith maxLen size ((e.content ies).take (e.ieLen ies) ++ bs)
        (parseElement maxLen (size - ((e.content ies).take (e.ieLen ies) ++ bs).length) parsingState nested
          (descOf (.ofNat (e.desc ies)) (.ofNat (e.desc ies / 256))) ((e.content ies).take (e.ieLen ies) ++ bs)
            before) := by
  rw [Ie.encoded, toLe_two, append_assoc, ← loop_cons]
  rfl

theorem drop_encoded {e : Ie} (h : e.Allowed maxLen ies) (bs : List UInt8) :
    ((e.content ies).take (e.ieLen ies) ++ bs).drop (e.ieLen ies) = bs := by
  have hlen : ((e.content ies).take (e.ieLen ies)).length = e.ieLen ies := by
    rw [length_take, min_eq_left (ieLen_le_content h)]
  rw [drop_append, drop_of_length_le (Nat.le_of_eq hlen), hlen, Nat.sub_self, drop_zero, nil_append]

theorem loop_header (hwithin : Within ies) (nested : Int) (before : Ies) (bs : List UInt8) :
    loop maxLen size .headerIe nested before (Ie.headerAckNackTimeCorrection.encoded ies ++ bs) =
      loop maxLen size .headerIe nested (Ie.headerAckNackTimeCorrection.readInto ies before) bs := by
  obtain ⟨hlen, hid, htype⟩ := descOf_ieDesc 7 8 0 headerIeAckNackTimeCorrection 2 (.inl ⟨rfl, rfl⟩)
    (by decide) (by decide) (by decide)
  have hparse := parseHeaderIe_bytes hwithin before bs
  rw [loop_encoded]
  simp only [parseElement, headerElement, Ie.desc, Ie.ieLen, hlen, hid]
  have htake : (Ie.headerAckNackTimeCorrection.content ies).take 2 = toLe 2 (timeSyncField ies) := rfl
  have hlong : ¬(toLe 2 (timeSyncField ies) ++ bs).length < 2 := by
    rw [length_append, length_toLe]
    omega
  rw [if_neg (fun h => absurd (htype.mp h) (by decide)), if_neg (by decide), if_neg (by decide), htake, if_neg hlong,
    hparse]
  rfl

theorem loop_listTermination1 (nested : Int) (before : Ies) (bs : List UInt8) : ∃ offset,
    loop maxLen size .headerIe nested before (Ie.headerListTermination1.encoded ies ++ bs) =
      loop maxLen size .payloadIe nested { before with payloadIeOffset := offset } bs := by
  obtain ⟨hlen, hid, htype⟩ := descOf_ieDesc 7 8 0 headerIeListTermination1 0 (.inl ⟨rfl, rfl⟩)
    (by decide) (by decide) (by decide)
  rw [loop_encoded]
  simp only [parseElement, headerElement, Ie.desc, Ie.ieLen, hlen, hid]
  exact ⟨_, rfl⟩

theorem loop_listTermination2 (nested : Int) (before : Ies) : ∃ offset,
    loop maxLen size .headerIe nested before (Ie.headerListTermination2.encoded ies) =
      some ((size : Int), { before with payloadIeOffset := offset }) := by
  obtain ⟨hlen, hid, htype⟩ := descOf_ieDesc 7 8 0 headerIeListTermination2 0 (.inl ⟨rfl, rfl⟩)
    (by decide) (by decide) (by decide)
  have hloop := @loop_encoded maxLen size ies .headerIe nested before .headerListTermination2 []
  rw [append_nil] at hloop
  rw [hloop]
  simp only [parseElement, headerElement, Ie.desc, Ie.ieLen, hlen, hid]
  rw [if_neg (fun h => absurd (htype.mp h) (by decide)), if_neg (by decide), if_pos trivial, if_pos trivial]
  exact ⟨_, rfl⟩

theorem loop_payloadListTermination (nested : Int) (before : Ies) : loop maxLen size .payloadIe nested before
    (Ie.payloadListTermination.encoded ies) = some ((size : Int), before) := by
  obtain ⟨hlen, hid, htype⟩ := descOf_ieDesc 11 4 1 payloadIeListTermination 0 (.inr (.inr ⟨rfl, rfl⟩))
    (by decide) (by decide) (by decide)
  have hloop := @loop_encoded maxLen size ies .payloadIe nested before .payloadListTermination []
  rw [append_nil] at hloop
  rw [hloop]
  simp only [parseElement, payloadElement, Ie.desc, hlen, hid]
  rfl

theorem loop_mlme {mlmeLen : UInt16} (hlen : mlmeLen.toNat < 2048) (nested : Int) (before : Ies) (bs : List UInt8) :
    loop maxLen size .payloadIe nested before ((Ie.mlme mlmeLen).encoded ies ++ bs) =
      loop maxLen size .mlmeSubie mlmeLen.toNat before bs := by
  obtain ⟨hdesc, hid, htype⟩ := descOf_ieDesc 11 4 1 payloadIeMlme mlmeLen.toNat
    (.inr (.inr ⟨rfl, rfl⟩)) (by decide) (by decide) hlen
  rw [loop_encoded]
  simp only [parseElement, payloadElement, Ie.desc, hdesc, hid]
  rw [if_neg (not_not.mpr (htype.mpr rfl)), if_pos trivial]
  rfl

variable {before after : Ies} {buf : List UInt8}

theorem nestedElement_of_parse {desc : UInt16} {id len : Nat} (w : Nat) (hw : w = if descType desc then 11 else 8)
    (hlen : descLen desc w = len) (hid : descId desc w = id) (hfits : len ≤ buf.length)
    (hparse :
      (if descType desc then parseMlmeLongIe maxLen buf len id before else parseMlmeShortIe buf len id before) =
        some ((len : Int), after)) (nested : Int) :
    nestedElement maxLen nested desc buf before = some (nestedNext nested len, after) := by
  simp only [nestedElement]
  rw [← hw, hlen, hid, if_neg (Nat.not_lt.mpr hfits)]
  have hret : ¬(len : Int) = -1 := by omega
  split at hparse
  next htype =>
    rw [if_pos htype, hparse]
    simp [hret]
  next htype =>
    rw [if_neg htype, hparse]
    simp [hret]

theorem nestedElement_sub {s : SubIe} (hallowed : s.ie.Allowed maxLen ies) (hlen : s.ie.ieLen ies < 256)
    (hslot : s.ie = .tschSlotframeAndLink → ies.tschSlotframeAndLink.numSlotframes = 1) (nested : Int) (before : Ies)
    (bs : List UInt8) :
    nestedElement maxLen nested (descOf (.ofNat (s.ie.desc ies)) (.ofNat (s.ie.desc ies / 256)))
      ((s.ie.content ies).take (s.ie.ieLen ies) ++ bs) before =
      some (nestedNext nested (s.ie.ieLen ies), s.ie.readInto ies before) := by
  have hfits : s.ie.ieLen ies ≤ ((s.ie.content ies).take (s.ie.ieLen ies) ++ bs).length := by
    rw [length_append, length_take, min_eq_left (ieLen_le_content hallowed)]
    exact Nat.le_add_right _ _
  have hwhole : s.ie ≠ .tschChannelHoppingSequence → (s.ie.content ies).take (s.ie.ieLen ies) = s.ie.content ies := by
    intro hs
    refine take_of_length_le (le_of_eq ?_)
    rw [length_content hallowed, if_neg hs]
  -- A short element is one whose descriptor has type 0.
  have hshort : ∀ id < 128, s.ie.desc ies = ieDesc 8 7 0 id (s.ie.ieLen ies) →
      parseMlmeShortIe ((s.ie.content ies).take (s.ie.ieLen ies) ++ bs) (s.ie.ieLen ies) id before =
        some ((s.ie.ieLen ies : Int), s.ie.readInto ies before) →
      nestedElement maxLen nested (descOf (.ofNat (s.ie.desc ies)) (.ofNat (s.ie.desc ies / 256)))
        ((s.ie.content ies).take (s.ie.ieLen ies) ++ bs) before =
      some (nestedNext nested (s.ie.ieLen ies), s.ie.readInto ies before) := by
    intro id hid hdesc hparse
    obtain ⟨hdlen, hdid, htype⟩ := descOf_ieDesc 8 7 0 id (s.ie.ieLen ies)
      (.inr (.inl ⟨rfl, rfl⟩)) (by decide) hid hlen
    rw [← hdesc] at hdlen hdid htype
    have hnot : ¬descType (descOf (.ofNat (s.ie.desc ies)) (.ofNat (s.ie.desc ies / 256))) = true :=
      fun h => absurd (htype.mp h) (by decide)
    exact nestedElement_of_parse 8 (if_neg hnot).symm hdlen hdid hfits (by rw [if_neg hnot]; exact hparse) nested
  cases s with
  | tschSynchronization =>
    refine hshort mlmeShortIeTschSynchronization (by decide) rfl ?_
    exact parseSynchronization_bytes ies before bs
  | tschSlotframeAndLink =>
    refine hshort mlmeShortIeTschSlotframeAndLink (by decide) rfl ?_
    rw [hwhole Ie.noConfusion]
    exact parseSlotframeAndLink_bytes hallowed (hslot rfl) before bs
  | tschTimeslot =>
    refine hshort mlmeShortIeTschTimeslot (by decide) rfl ?_
    rw [hwhole Ie.noConfusion]
    exact parseTimeslot_bytes ies before bs
  | tschChannelHoppingSequence =>
    obtain ⟨hdlen, hdid, htype⟩ := descOf_ieDesc 11 4 1 mlmeLongIeTschChannelHoppingSequence
      (Ie.tschChannelHoppingSequence.ieLen ies) (.inr (.inr ⟨rfl, rfl⟩)) (by decide) (by decide)
      (lt_trans hlen (by decide))
    exact nestedElement_of_parse 11 (if_pos (htype.mpr rfl)).symm hdlen hdid hfits
      (by rw [if_pos (htype.mpr rfl)]; exact parseMlmeLongIe_bytes hallowed before bs) nested

theorem nestedNext_add (len m : Nat) : nestedNext ((2 + len + m : Nat) : Int) len =
    .more (if m = 0 then .payloadIe else .mlmeSubie) m len := by
  have hleft : ((2 + len + m : Nat) : Int) - (2 + len) = m := by omega
  rw [nestedNext, hleft, if_neg (by omega)]
  by_cases hm : m = 0
  · rw [if_pos hm, if_pos (by omega)]
  · rw [if_neg hm, if_neg (by omega)]

/-- The elements can be created and no slotframe is missing. -/
def Sound (maxLen : Nat) (ies : Ies) (es : List Ie) : Prop :=
  ∀ e ∈ es, e.Allowed maxLen ies ∧
    (e = .tschSlotframeAndLink → ies.tschSlotframeAndLink.numSlotframes = 1)

/-- The fields of the elements `es` are given back, and those of others that were before. -/
def Gathers (ies : Ies) (es : List Ie) (before after : Ies) : Prop :=
  ∀ e, e ∈ es ∨ GivenBack ies before e → GivenBack ies after e

theorem Gathers.append {es es' : List Ie} {a b c : Ies} (h : Gathers ies es a b)
    (h' : Gathers ies es' b c) : Gathers ies (es ++ es') a c := by
  intro e he
  refine h' e ?_
  rcases he with he | he
  · rcases mem_append.mp he with he | he
    · exact .inr (h e (.inl he))
    · exact .inl he
  · exact .inr (h e (.inr he))

theorem Gathers.readInto (e : Ie) (before : Ies) : Gathers ies [e] before (e.readInto ies before) := by
  intro e' he'
  rcases he' with he' | he'
  · exact givenBack_readInto (.inl (mem_singleton.mp he'))
  · exact givenBack_readInto (.inr he')

theorem givenBack_offset {parsed : Ies} {offset : UInt8} : ∀ {e : Ie},
    GivenBack ies { parsed with payloadIeOffset := offset } e ↔ GivenBack ies parsed e
  | .headerAckNackTimeCorrection | .headerListTermination1 | .headerListTermination2
  | .payloadListTermination | .mlme _ | .tschSynchronization | .tschSlotframeAndLink | .tschTimeslot
  | .tschChannelHoppingSequence => Iff.rfl

theorem Gathers.bare {e : Ie} {before : Ies} (h : GivenBack ies before e) : Gathers ies [e] before before := by
  rintro e' (he' | he')
  · rw [mem_singleton.mp he']
    exact h
  · exact he'

/-- The bytes of a list of elements. -/
def encodedAll (ies : Ies) (es : List Ie) : List UInt8 := es.flatMap (Ie.encoded ies)

theorem encodedAll_nil : encodedAll ies [] = [] := rfl

theorem encodedAll_cons (e : Ie) (es : List Ie) :
    encodedAll ies (e :: es) = e.encoded ies ++ encodedAll ies es := flatMap_cons

theorem encodedAll_append (es es' : List Ie) :
    encodedAll ies (es ++ es') = encodedAll ies es ++ encodedAll ies es' := flatMap_append

theorem length_encodedAll_subs {subs : List SubIe} (h : Sound maxLen ies (subs.map SubIe.ie)) :
    (encodedAll ies (subs.map SubIe.ie)).length = subsLen ies subs := by
  induction subs with
  | nil => rfl
  | cons s subs ih =>
    rw [map_cons, encodedAll_cons, length_append, length_encoded (h s.ie mem_cons_self).1,
      ih fun e he => h e (mem_cons_of_mem _ he), subsLen, subsLen, map_cons, sum_cons]

theorem loop_subs : ∀ {subs : List SubIe}, subs ≠ [] → Sound maxLen ies (subs.map SubIe.ie) →
    subsLen ies subs < 256 → ∀ (before : Ies) (bs : List UInt8), ∃ after,
      loop maxLen size .mlmeSubie (subsLen ies subs) before
        (encodedAll ies (subs.map SubIe.ie) ++ bs) = loop maxLen size .payloadIe 0 after bs ∧
      Gathers ies (subs.map SubIe.ie) before after
  | [], hne, _, _, _, _ => absurd rfl hne
  | s :: subs, _, hsound, hlen, before, bs => by
    obtain ⟨hallowed, hslot⟩ := hsound s.ie mem_cons_self
    have hsum : subsLen ies (s :: subs) = 2 + s.ie.ieLen ies + subsLen ies subs := rfl
    have hstep : loop maxLen size .mlmeSubie (subsLen ies (s :: subs)) before
        (encodedAll ies ((s :: subs).map SubIe.ie) ++ bs) =
        loop maxLen size (if subsLen ies subs = 0 then .payloadIe else .mlmeSubie) (subsLen ies subs)
          (s.ie.readInto ies before) (encodedAll ies (subs.map SubIe.ie) ++ bs) := by
      rw [map_cons, encodedAll_cons, append_assoc, loop_encoded, parseElement,
        nestedElement_sub hallowed (by omega) hslot, hsum, nestedNext_add, continueWith,
        drop_encoded hallowed]
    have hgather := @Gathers.readInto ies s.ie before
    rw [hstep]
    cases subs with
    | nil => exact ⟨_, rfl, hgather⟩
    | cons t subs =>
      have hpos : ¬subsLen ies (t :: subs) = 0 := by
        have : subsLen ies (t :: subs) = 2 + t.ie.ieLen ies + subsLen ies subs := rfl
        omega
      obtain ⟨after, hloop, hafter⟩ := loop_subs (cons_ne_nil t subs)
        (fun e he => hsound e (mem_cons_of_mem _ he)) (by omega) (s.ie.readInto ies before) bs
      rw [if_neg hpos]
      exact ⟨after, hloop, hgather.append hafter⟩

theorem loop_mlmes : ∀ {mlmes : List (List SubIe)}, (∀ subs ∈ mlmes, subs ≠ []) →
    Sound maxLen ies (mlmes.flatMap (mlmeElements ies)) →
    (encodedAll ies (mlmes.flatMap (mlmeElements ies))).length < 256 →
    ∀ (before : Ies) (bs : List UInt8), ∃ after, loop maxLen size .payloadIe 0 before
        (encodedAll ies (mlmes.flatMap (mlmeElements ies)) ++ bs) = loop maxLen size .payloadIe 0 after bs ∧
      Gathers ies (mlmes.flatMap (mlmeElements ies)) before after
  | [], _, _, _, before, bs => ⟨before, rfl, fun _ he => he.elim nofun id⟩
  | subs :: mlmes, hne, hsound, hlen, before, bs => by
    rw [flatMap_cons] at hsound hlen ⊢
    rw [encodedAll_append, length_append, mlmeElements, encodedAll_cons, length_append] at hlen
    have hsubs : Sound maxLen ies (subs.map SubIe.ie) := fun e he =>
      hsound e (mem_append_left _ (mem_cons_of_mem _ he))
    have hsubsLen : subsLen ies subs < 256 := by
      rw [← length_encodedAll_subs hsubs]
      omega
    have hmlme : (UInt16.ofNat (subsLen ies subs)).toNat = subsLen ies subs := by
      rw [UInt16.toNat_ofNat']
      omega
    obtain ⟨middle, hinner, hmiddle⟩ := @loop_subs maxLen size ies subs (hne subs mem_cons_self) hsubs hsubsLen before
      (encodedAll ies (mlmes.flatMap (mlmeElements ies)) ++ bs)
    obtain ⟨after, houter, hafter⟩ := loop_mlmes (fun s hs => hne s (mem_cons_of_mem _ hs))
      (fun e he => hsound e (mem_append_right _ he)) (by omega) middle bs
    refine ⟨after, ?_, ?_⟩
    · rw [encodedAll_append, mlmeElements, encodedAll_cons, append_assoc, append_assoc,
        loop_mlme (by omega), hmlme, hinner, houter]
    · exact ((Gathers.bare (e := .mlme _) trivial).append hmiddle).append hafter

theorem loop_headers (hwithin : Within ies) : ∀ (n : Nat) (before : Ies) (bs : List UInt8), ∃ after,
    loop maxLen size .headerIe 0 before (encodedAll ies (replicate n .headerAckNackTimeCorrection) ++ bs) =
        loop maxLen size .headerIe 0 after bs ∧
    Gathers ies (replicate n .headerAckNackTimeCorrection) before after
  | 0, before, _ => ⟨before, rfl, fun _ he => he.elim nofun id⟩
  | n + 1, before, bs => by
    obtain ⟨after, hloop, hafter⟩ := loop_headers hwithin n (Ie.headerAckNackTimeCorrection.readInto ies before) bs
    refine ⟨after, ?_, (Gathers.readInto _ before).append hafter⟩
    rw [replicate_succ, encodedAll_cons, append_assoc, loop_header hwithin, hloop]

/-- A payload element behind an empty MLME element is taken for a nested one, which has another id. -/
theorem loop_empty_mlme {e : Ie} (id len : Nat) (hdesc : e.desc ies = ieDesc 11 4 1 id len) (hid : id < 16)
    (hne : id ≠ mlmeLongIeTschChannelHoppingSequence) (hlen : len < 2048) (before : Ies) (bs : List UInt8) :
    loop maxLen size .mlmeSubie 0 before (e.encoded ies ++ bs) = some (-1, before) := by
  obtain ⟨hdlen, hdid, htype⟩ := descOf_ieDesc 11 4 1 id len (.inr (.inr ⟨rfl, rfl⟩)) (by decide) hid hlen
  rw [← hdesc] at hdlen hdid htype
  rw [loop_encoded, parseElement]
  simp only [nestedElement]
  rw [htype.mpr rfl]
  simp only [if_true, hdlen, hdid]
  split
  · rfl
  · rw [parseMlmeLongIe, if_neg fun h => hne h.1]
    rfl

theorem filled_cons {subs : List SubIe} {mlmes : List (List SubIe)} {terminated : Bool} (hsubs : subs ≠ []) (h :
    (Tail.payload mlmes terminated).Filled) : (Tail.payload (subs :: mlmes) terminated).Filled := by
  cases terminated with
  | true =>
    rintro s (_ | ⟨_, hs⟩)
    · exact hsubs
    · exact h s hs
  | false =>
    cases mlmes with
    | nil => exact nofun
    | cons t mlmes =>
      rintro s (_ | ⟨_, hs⟩)
      · exact hsubs
      · exact h s hs

theorem loop_not_filled : ∀ {mlmes : List (List SubIe)} {terminated : Bool},
    ¬(Tail.payload mlmes terminated).Filled → Sound maxLen ies (mlmes.flatMap (mlmeElements ies)) →
    (encodedAll ies (mlmes.flatMap (mlmeElements ies))).length < 256 → ∀ before : Ies, ∃ after,
      loop maxLen size .payloadIe 0 before (encodedAll ies (mlmes.flatMap (mlmeElements ies) ++
        if terminated then [.payloadListTermination] else [])) = some (-1, after)
  | [], terminated, hnot, _, _, _ => absurd (by cases terminated <;> simp [Tail.Filled]) hnot
  | subs :: mlmes, terminated, hnot, hsound, hlen, before => by
    rw [flatMap_cons] at hsound hlen ⊢
    have hlenRest := hlen
    rw [encodedAll_append, length_append] at hlenRest
    rw [append_assoc, encodedAll_append]
    rcases eq_or_ne subs [] with rfl | hsubs
    · rw [mlmeElements, map_nil, encodedAll_cons]
      have hzero : (UInt16.ofNat (subsLen ies [])).toNat = 0 := rfl
      rw [encodedAll_nil, append_nil, loop_mlme (by rw [hzero]; decide), hzero]
      cases mlmes with
      | cons subs mlmes =>
        rw [flatMap_cons, mlmeElements, cons_append, cons_append, encodedAll_cons]
        have hsubsLen : (UInt16.ofNat (subsLen ies subs)).toNat < 2048 := by
          have hinner : Sound maxLen ies (subs.map SubIe.ie) := fun e he =>
            hsound e (by simp [mlmeElements, mem_map.mp he])
          have hlenSubs := length_encodedAll_subs hinner
          simp only [flatMap_cons, encodedAll_append, mlmeElements, encodedAll_cons, length_append] at hlenRest
          rw [UInt16.toNat_ofNat']
          omega
        have hdesc : (Ie.mlme (.ofNat (subsLen ies subs))).desc ies =
            ieDesc 11 4 1 payloadIeMlme (UInt16.ofNat (subsLen ies subs)).toNat := by rw [Ie.desc]
        exact ⟨before, loop_empty_mlme _ _ hdesc (by decide) (by decide) hsubsLen before _⟩
      | nil =>
        cases terminated with
        | true =>
          have hend := @loop_empty_mlme maxLen size ies .payloadListTermination
            payloadIeListTermination 0 rfl (by decide) (by decide) (by decide) before []
          exact ⟨before, by simpa [encodedAll] using hend⟩
        | false => exact absurd (by simp [Tail.Filled]) hnot
    · obtain ⟨middle, hloop, -⟩ := @loop_mlmes maxLen size ies [subs]
        (fun s hs => by rw [mem_singleton.mp hs]; exact hsubs)
        (fun e he => hsound e (mem_append_left _ (by simpa using he)))
        (by rw [flatMap_singleton]; omega) before
        (encodedAll ies (mlmes.flatMap (mlmeElements ies) ++
          if terminated then [.payloadListTermination] else []))
      rw [flatMap_singleton] at hloop
      rw [hloop]
      refine loop_not_filled ?_ (fun e he => hsound e (mem_append_right _ he)) (by omega) middle
      exact fun hfilled => hnot (filled_cons hsubs hfilled)

/-! ### The number of slotframes -/

variable {len id : Nat}

theorem parseHeaderIe_slotframe {r : Int} (h : parseHeaderIe
    buf len id before = some (r, after)) : after.tschSlotframeAndLink = before.tschSlotframeAndLink := by
  rw [parseHeaderIe] at h
  split at h
  · obtain ⟨_, -, h⟩ := bind_eq_some_iff.mp h
    cases h
    rfl
  · cases h
    rfl

theorem parseMlmeLongIe_slotframe {r : Int} (h : parseMlmeLongIe maxLen buf len id before = some (r, after)) :
    after.tschSlotframeAndLink = before.tschSlotframeAndLink := by
  rw [parseMlmeLongIe] at h
  split at h
  · obtain ⟨_, -, h⟩ := bind_eq_some_iff.mp h
    split at h
    · obtain ⟨_, -, h⟩ := bind_eq_some_iff.mp h
      split at h
      · obtain ⟨_, -, h⟩ := bind_eq_some_iff.mp h
        cases h
        rfl
      · cases h
        rfl
    · cases h
      rfl
  · cases h
    rfl

theorem parseMlmeShortIe_slotframe {r : Int} (h : parseMlmeShortIe buf len id before = some (r, after)) :
    after.tschSlotframeAndLink = before.tschSlotframeAndLink ∨ after.tschSlotframeAndLink.numSlotframes ≠ 0 := by
  rw [parseMlmeShortIe] at h
  split at h
  · rw [parseSlotframeAndLink] at h
    split at h
    · obtain ⟨numSlotframes, -, h⟩ := bind_eq_some_iff.mp h
      obtain ⟨numLinks, -, h⟩ := bind_eq_some_iff.mp h
      split at h
      · cases h
        exact .inl rfl
      next hne =>
        split at h
        · obtain ⟨_, -, h⟩ := bind_eq_some_iff.mp h
          obtain ⟨_, -, h⟩ := bind_eq_some_iff.mp h
          obtain ⟨_, -, h⟩ := bind_eq_some_iff.mp h
          cases h
          exact .inr hne
        · cases h
          exact .inl rfl
    · cases h
      exact .inl rfl
  split at h
  · rw [parseSynchronization] at h
    split at h
    · simp only [bind_eq_bind, bind_eq_some_iff] at h
      obtain ⟨_, -, _, -, _, -, _, -, _, -, _, -, h⟩ := h
      cases h
      exact .inl rfl
    · cases h
      exact .inl rfl
  split at h
  · rw [parseTimeslot] at h
    split at h
    · obtain ⟨_, -, h⟩ := bind_eq_some_iff.mp h
      split at h
      · obtain ⟨_, -, h⟩ := bind_eq_some_iff.mp h
        cases h
        exact .inl rfl
      · cases h
        exact .inl rfl
    · cases h
      exact .inl rfl
  · cases h
    exact .inl rfl

theorem parseElement_numSlotframes {offset : Nat} {parsingState : ParsingState} {nested : Int} {desc : UInt16}
    {next : Next} (h : parseElement maxLen offset parsingState nested desc buf before = some (next, after))
    (hbefore : before.tschSlotframeAndLink.numSlotframes ≠ 0) : after.tschSlotframeAndLink.numSlotframes ≠ 0 := by
  cases parsingState with
  | headerIe =>
    simp only [parseElement, headerElement] at h
    split at h
    · cases h; exact hbefore
    split at h
    · split at h <;> cases h <;> exact hbefore
    split at h
    · split at h <;> cases h <;> exact hbefore
    split at h
    · cases h; exact hbefore
    · obtain ⟨⟨r, ies'⟩, hparse, h⟩ := bind_eq_some_iff.mp h
      cases h
      rw [parseHeaderIe_slotframe hparse]
      exact hbefore
  | payloadIe =>
    simp only [parseElement, payloadElement] at h
    split at h
    · cases h; exact hbefore
    split at h
    · cases h; exact hbefore
    split at h <;> cases h <;> exact hbefore
  | mlmeSubie =>
    simp only [parseElement, nestedElement] at h
    by_cases htype : descType desc = true
    · simp only [htype, if_true] at h
      split at h
      · cases h; exact hbefore
      · obtain ⟨⟨r, ies'⟩, hparse, h⟩ := bind_eq_some_iff.mp h
        cases h
        rw [parseMlmeLongIe_slotframe hparse]
        exact hbefore
    · rw [Bool.not_eq_true] at htype
      simp only [htype, Bool.false_eq_true, if_false] at h
      split at h
      · cases h; exact hbefore
      · obtain ⟨⟨r, ies'⟩, hparse, h⟩ := bind_eq_some_iff.mp h
        cases h
        rcases parseMlmeShortIe_slotframe hparse with hsame | hne
        · rw [hsame]
          exact hbefore
        · exact hne

/-- The parser never makes the number of slotframes zero. -/
theorem loop_numSlotframes (parsingState : ParsingState) (nested : Int) (before : Ies) :
    ∀ (buf : List UInt8) {r : Int} {after : Ies}, loop maxLen size parsingState nested before buf = some (r, after) →
      before.tschSlotframeAndLink.numSlotframes ≠ 0 → after.tschSlotframeAndLink.numSlotframes ≠ 0
  | [], r, after, h, hbefore => by
    rw [loop] at h
    cases h
    split <;> exact hbefore
  | [_], r, after, h, hbefore => by
    rw [loop] at h
    cases h
    exact hbefore
  | lo :: hi :: buf, r, after, h, hbefore => by
    rw [loop_cons] at h
    rcases hparse : parseElement maxLen (size - buf.length) parsingState nested (descOf lo hi) buf before
      with _ | ⟨value | ⟨parsingState', nested', len⟩, middle⟩
    · rw [hparse] at h
      cases h
    · rw [hparse] at h
      cases h
      exact parseElement_numSlotframes hparse hbefore
    · rw [hparse, continueWith] at h
      exact loop_numSlotframes parsingState' nested' middle (buf.drop len) h
        (parseElement_numSlotframes hparse hbefore)
  termination_by buf => buf.length
  decreasing_by
    simp only [length_drop, length_cons]
    omega

theorem loop_nil {parsingState : ParsingState} (h : parsingState ≠ .headerIe) (nested : Int)
    (before : Ies) : loop maxLen size parsingState nested before [] = some ((size : Int), before) := by
  rw [loop, if_neg h]

theorem loop_payload {mlmes : List (List SubIe)} {terminated : Bool}
    (hfilled : (Tail.payload mlmes terminated).Filled)
    (hsound :
      Sound maxLen ies (mlmes.flatMap (mlmeElements ies) ++ if terminated then [.payloadListTermination] else []))
    (hlen : (encodedAll ies (mlmes.flatMap (mlmeElements ies) ++ if terminated then [.payloadListTermination] else
        [])).length <
        256) (before : Ies) :
    ∃ after,
      loop maxLen size .payloadIe 0 before (encodedAll ies
        (mlmes.flatMap (mlmeElements ies) ++ if terminated then [.payloadListTermination] else [])) =
        some ((size : Int), after) ∧
      Gathers ies (mlmes.flatMap (mlmeElements ies) ++ if terminated then [.payloadListTermination] else []) before
        after := by
  rw [encodedAll_append, length_append] at hlen
  have hinner : Sound maxLen ies (mlmes.flatMap (mlmeElements ies)) := fun e he =>
    hsound e (mem_append_left _ he)
  cases terminated with
  | true =>
    obtain ⟨after, hloop, hafter⟩ := @loop_mlmes maxLen size ies mlmes hfilled hinner
      (by omega) before (Ie.payloadListTermination.encoded ies)
    refine ⟨after, ?_, hafter.append (Gathers.bare trivial)⟩
    rw [encodedAll_append, if_pos rfl, encodedAll_cons, encodedAll_nil,
      append_nil, hloop, loop_payloadListTermination]
  | false =>
    rw [if_neg Bool.false_ne_true, append_nil]
    rcases eq_nil_or_concat mlmes with rfl | ⟨front, last, rfl⟩
    · exact ⟨before, loop_nil ParsingState.noConfusion 0 before, fun e he => he.resolve_left not_mem_nil⟩
    have hfront : ∀ subs ∈ front, subs ≠ [] := by
      intro subs hsubs
      refine hfilled subs ?_
      rw [if_neg Bool.false_ne_true, concat_eq_append, dropLast_concat]
      exact hsubs
    rw [concat_eq_append] at hinner hlen ⊢
    by_cases hlast : last = []
    · rw [flatMap_append, flatMap_singleton] at hinner hlen ⊢
      rw [encodedAll_append, length_append] at hlen
      obtain ⟨after, hloop, hafter⟩ := @loop_mlmes maxLen size ies front hfront
        (fun e he => hinner e (mem_append_left _ he)) (by omega) before
        (encodedAll ies (mlmeElements ies last))
      have hmlme : mlmeElements ies last = [.mlme 0] := by rw [hlast]; rfl
      refine ⟨after, ?_, ?_⟩
      · rw [encodedAll_append, hloop, hmlme, encodedAll_cons, loop_mlme (by decide), encodedAll_nil,
          loop_nil ParsingState.noConfusion]
      · rw [hmlme]
        exact hafter.append (Gathers.bare trivial)
    · have hall : ∀ subs ∈ front ++ [last], subs ≠ [] := by
        intro subs hsubs
        rcases mem_append.mp hsubs with hsubs | hsubs
        · exact hfront subs hsubs
        · rw [mem_singleton.mp hsubs]
          exact hlast
      obtain ⟨after, hloop, hafter⟩ := @loop_mlmes maxLen size ies (front ++ [last]) hall hinner (by omega) before []
      rw [append_nil, loop_nil ParsingState.noConfusion] at hloop
      exact ⟨after, hloop, hafter⟩

theorem loop_tail {t : Tail} (hfilled : t.Filled) (hsound : Sound maxLen ies (t.elements ies))
    (hlen : (encodedAll ies (t.elements ies)).length < 256) (before : Ies) :
    ∃ after,
      loop maxLen size .headerIe 0 before (encodedAll ies (t.elements ies)) = some ((size : Int), after) ∧
      Gathers ies (t.elements ies) before after := by
  cases t with
  | none =>
    refine ⟨{ before with payloadIeOffset := .ofNat size }, ?_, ?_⟩
    · rw [Tail.elements, encodedAll_nil, loop, if_pos rfl]
    · exact fun e he => givenBack_offset.mpr (he.resolve_left not_mem_nil)
  | listTermination2 =>
    obtain ⟨offset, hloop⟩ := @loop_listTermination2 maxLen size ies 0 before
    refine ⟨{ before with payloadIeOffset := offset }, ?_, ?_⟩
    · rw [Tail.elements, encodedAll_cons, encodedAll_nil, append_nil, hloop]
    · exact fun e he => givenBack_offset.mpr (Gathers.bare (e := .headerListTermination2) trivial e he)
  | payload mlmes terminated =>
    rw [Tail.elements] at hsound hlen ⊢
    rw [encodedAll_cons] at hlen ⊢
    obtain ⟨offset, hstart⟩ := @loop_listTermination1 maxLen size ies 0 before
      (encodedAll ies (mlmes.flatMap (mlmeElements ies) ++
        if terminated then [.payloadListTermination] else []))
    have hpayload : ∃ after, loop maxLen size .payloadIe 0 { before with payloadIeOffset := offset }
        (encodedAll ies (mlmes.flatMap (mlmeElements ies) ++
          if terminated then [.payloadListTermination] else [])) = some ((size : Int), after) ∧
        Gathers ies (mlmes.flatMap (mlmeElements ies) ++
          if terminated then [.payloadListTermination] else [])
          { before with payloadIeOffset := offset } after :=
      loop_payload hfilled (fun e he => hsound e (mem_cons_of_mem _ he)) (by rw [length_append] at hlen; omega) _
    obtain ⟨after, hloop, hafter⟩ := hpayload
    refine ⟨after, hstart.trans hloop, ?_⟩
    have hbare : Gathers ies [.headerListTermination1] before { before with payloadIeOffset := offset } :=
      fun e he => givenBack_offset.mpr (Gathers.bare (e := .headerListTermination1) trivial e he)
    exact hbare.append hafter

end

/-! ### Codec -/

theorem sound_iff {maxLen : Nat} {ies : Ies} {es : List Ie} (h : ∀ e ∈ es, e.Allowed maxLen ies) (hslot :
    .tschSlotframeAndLink ∈ es → ies.tschSlotframeAndLink.numSlotframes = 1) : Sound maxLen ies es := by
  intro e he
  refine ⟨h e he, ?_⟩
  rintro rfl
  exact hslot he

theorem parsed_iff {maxLen : Nat} {ies : Ies} (hwithin : Within ies) {layout : Layout}
    (hallowed : ∀ e ∈ layout.elements ies, e.Allowed maxLen ies)
    (hlen : (encodedAll ies (layout.elements ies)).length < 256) :
    Parsed maxLen ies (layout.elements ies) (encodedAll ies (layout.elements ies)) ↔
      (.tschSlotframeAndLink ∈ layout.elements ies → ies.tschSlotframeAndLink.numSlotframes = 1) ∧
      layout.tail.Filled := by
  have hsplit : encodedAll ies (layout.elements ies) =
      encodedAll ies (replicate layout.headers .headerAckNackTimeCorrection) ++
        encodedAll ies (layout.tail.elements ies) := encodedAll_append _ _
  have hlenTail : (encodedAll ies (layout.tail.elements ies)).length < 256 := by
    rw [hsplit, length_append] at hlen
    omega
  constructor
  · intro hparsed
    have hslot : .tschSlotframeAndLink ∈ layout.elements ies → ies.tschSlotframeAndLink.numSlotframes = 1 := by
      intro hmem
      -- A record whose number of slotframes is not zero keeps one that is not.
      obtain ⟨parsed, hparse, hback⟩ := hparsed { clearedIes with
        tschSlotframeAndLink := ⟨1, 0, 0, 0, fun _ => ⟨0, 0, 0⟩⟩ }
      have hne := loop_numSlotframes _ _ _ _ hparse (by decide)
      have heq := (hback _ hmem).1
      have hle := (hallowed _ hmem).1
      rw [heq] at hne
      have hpos : ies.tschSlotframeAndLink.numSlotframes.toNat ≠ 0 := fun h =>
        hne (UInt8.toNat_inj.mp h)
      exact UInt8.toNat_inj.mp (by rw [UInt8.toNat_one]; omega)
    refine ⟨hslot, ?_⟩
    have hsound := sound_iff hallowed hslot
    obtain ⟨headers, tail⟩ := layout
    cases tail with
    | none => trivial
    | listTermination2 => trivial
    | payload mlmes terminated =>
      by_contra hnot
      have hsoundTail : Sound maxLen ies (mlmes.flatMap (mlmeElements ies)) := fun e he =>
        hsound e (mem_append_right _ (mem_cons_of_mem _ (mem_append_left _ he)))
      have hlenMlmes : (encodedAll ies (mlmes.flatMap (mlmeElements ies))).length < 256 := by
        rw [Tail.elements, encodedAll_cons, encodedAll_append] at hlenTail
        simp only [length_append] at hlenTail
        omega
      obtain ⟨parsed, hparse, -⟩ := hparsed clearedIes
      generalize hsize : (encodedAll ies (Layout.elements ies ⟨headers, .payload mlmes terminated⟩)).length =
        size at hparse
      obtain ⟨middle, hheaders, -⟩ := @loop_headers maxLen size ies hwithin headers
        { clearedIes with payloadIeOffset := 0 }
        (encodedAll ies ((Tail.payload mlmes terminated).elements ies))
      obtain ⟨offset, hstart⟩ := @loop_listTermination1 maxLen size ies 0 middle
        (encodedAll ies (mlmes.flatMap (mlmeElements ies) ++
          if terminated then [.payloadListTermination] else []))
      obtain ⟨after, hfail⟩ := @loop_not_filled maxLen size ies mlmes terminated hnot hsoundTail hlenMlmes
        { middle with payloadIeOffset := offset }
      rw [parseInformationElements, hsize, hsplit, hheaders, Tail.elements, encodedAll_cons, hstart, hfail] at hparse
      have hret : (-1 : Int) = size := congrArg Prod.fst (some.inj hparse)
      omega
  · rintro ⟨hslot, hfilled⟩ before
    have hsound := sound_iff hallowed hslot
    obtain ⟨middle, hheaders, hmiddle⟩ := @loop_headers maxLen
      (encodedAll ies (layout.elements ies)).length ies hwithin layout.headers
      { before with payloadIeOffset := 0 } (encodedAll ies (layout.tail.elements ies))
    obtain ⟨parsed, htail, hparsed⟩ := @loop_tail maxLen (encodedAll ies (layout.elements ies)).length
      ies layout.tail hfilled (fun e he => hsound e (mem_append_right _ he)) hlenTail middle
    refine ⟨parsed, ?_, fun e he => hmiddle.append hparsed e (.inl he)⟩
    rw [parseInformationElements, ← htail, ← hheaders, ← hsplit]

/-- THE CODEC OF INFORMATION ELEMENTS. A creator that succeeds writes exactly the bytes it returns, but for a hopping
    sequence with id 0. The bytes of a layout are parsed back, with the fields of every element in them, exactly where
    a slotframe element has a slotframe and no MLME element before the last element is empty. -/
theorem created_elements_parse_back (maxLen : Nat) (ies : Ies) (hwithin : Within ies) :
    (∀ (e : Ie) (len : Int), 0 ≤ (e.create maxLen len (some ies)).ret → ((e.create maxLen len (some ies)).Exact ↔
        (e = .tschChannelHoppingSequence → ies.channelHoppingSequenceId ≠ 0))) ∧
    ∀ (layout : Layout) (len : Int) (bytes : List UInt8),
      concatenation maxLen ies len (layout.elements ies) = some bytes → bytes.length < 256 →
      (Parsed maxLen ies (layout.elements ies) bytes ↔ (.tschSlotframeAndLink ∈ layout.elements ies →
          ies.tschSlotframeAndLink.numSlotframes = 1) ∧ layout.tail.Filled) := by
  refine ⟨fun e len h => create_exact_iff h, ?_⟩
  intro layout len bytes hbytes hlen
  obtain ⟨rfl, hallowed⟩ := concatenation_eq hbytes
  exact parsed_iff hwithin hallowed hlen

/-- A record of a beacon: a slotframe with one link, a hopping sequence of two channels. -/
def beaconIes : Ies := { clearedIes with
  timeCorrection := -5
  isNack := 1
  asnLs4b := 0x04030201
  joinPriority := 6
  tschTimeslotId := 1
  tschTimeslot := fun i => .ofNat (1000 + i)
  tschSlotframeAndLink := ⟨1, 0, 7, 1, fun _ => ⟨3, 1, 2⟩⟩
  channelHoppingSequenceId := 1
  hoppingSequenceLen := 2
  hoppingSequenceList := fun i => if i = 0 then 15 else 20 }

/-- A layout with every element. -/
def beaconLayout : Layout :=
  ⟨1, .payload [[.tschSynchronization, .tschSlotframeAndLink],
    [.tschTimeslot, .tschChannelHoppingSequence]] true⟩

theorem created_elements_parse_back_at_beacon : ∃ bytes : List UInt8,
    concatenation 16 beaconIes 127 (beaconLayout.elements beaconIes) = some bytes ∧
      bytes.length = 75 ∧ Parsed 16 beaconIes (beaconLayout.elements beaconIes) bytes := by
  have hwithin : Within beaconIes := by decide
  obtain ⟨bytes, hbytes, hlen⟩ : ∃ bytes : List UInt8,
      concatenation 16 beaconIes 127 (beaconLayout.elements beaconIes) = some bytes ∧ bytes.length = 75 := by
    refine map_eq_some_iff.mp (?_ : (concatenation 16 beaconIes 127
      (beaconLayout.elements beaconIes)).map length = some 75)
    decide
  refine ⟨bytes, hbytes, hlen, ?_⟩
  exact ((created_elements_parse_back 16 beaconIes hwithin).2 beaconLayout 127 bytes hbytes
    (by omega)).mpr ⟨fun _ => rfl, by decide⟩

/-- The record with the default hopping sequence, and the one without a slotframe. -/
def defaultSequenceIes : Ies := { beaconIes with channelHoppingSequenceId := 0 }
def noSlotframeIes : Ies := { beaconIes with tschSlotframeAndLink := ⟨0, 0, 7, 1, fun _ => ⟨3, 1, 2⟩⟩ }

/-- A hopping sequence with id 0 is three bytes long and sixteen are written. A slotframe element without a slotframe
    is read behind its end; an empty MLME element lets the parser fail on the list termination behind it. -/
theorem created_elements_not_parsed : (Within defaultSequenceIes ∧
      let c := Ie.tschChannelHoppingSequence.create 16 3 (some defaultSequenceIes)
      c.ret = 3 ∧ c.writes.length = 16 ∧ ¬c.Exact) ∧
    (Within noSlotframeIes ∧ ∃ bytes : List UInt8, concatenation 16 noSlotframeIes 127
        (Layout.elements noSlotframeIes ⟨0, .payload [[.tschSlotframeAndLink]] false⟩) = some bytes ∧
      parseInformationElements 16 bytes clearedIes = none) ∧
    (∃ bytes : List UInt8, concatenation 16 beaconIes 127
        (Layout.elements beaconIes ⟨0, .payload [[]] true⟩) = some bytes ∧
      (parseInformationElements 16 bytes clearedIes).map Prod.fst = some (-1)) := by
  refine ⟨⟨by decide, by decide, by decide, ?_⟩, ⟨by decide, ?_⟩, ?_⟩
  · intro hexact
    exact absurd ((hexact 3).mp (by decide)) (by decide)
  · refine ⟨[0x00, 0x3f, 0x03, 0x88, 0x01, 0x1b, 0x00], by decide, ?_⟩
    exact isNone_iff_eq_none.mp (by decide +kernel)
  · exact ⟨[0x00, 0x3f, 0x00, 0x88, 0x00, 0xf8], by decide +kernel, by decide +kernel⟩

end CSync.InformationElements
