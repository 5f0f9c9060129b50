import CSync.Lib.Bytes
import CSync.Mac.InformationElements

/-! The creators of information elements (`frame80215e_create_ie_*` of `frame802154e-ie.c`).

    A creator returns a length or `-1` and writes bytes at offsets of the buffer; its model keeps the
    writes in their order. Every creator writes the bytes of the element one after the other from offset 2
    on and the descriptor in front of them last, so that what it leaves in the buffer is a list
    (`lastAt_element`). The hopping sequence is the one element whose creator may write more than it
    returns: with sequence id 0 the length is that of the id alone, and all the rest is still written. -/

namespace CSync.InformationElements
open Lib List

/-! ### Writes -/

/-- What a creator does: the value it returns, and its writes. -/
structure Created where
  ret : Int
  writes : List (Nat × UInt8)
  deriving DecidableEq

def Created.failed : Created := ⟨-1, []⟩

/-- The bytes `bs` written from offset `o` on. -/
def placed : Nat → List UInt8 → List (Nat × UInt8)
  | _, [] => []
  | o, b :: bs => (o, b) :: placed (o + 1) bs

def write16 (o val : Nat) : List (Nat × UInt8) := [(o, .ofNat val), (o + 1, .ofNat (val / 256))]

/-- The byte that the writes leave at an offset. -/
def lastAt : List (Nat × UInt8) → Nat → Option UInt8
  | [], _ => none
  | (o, b) :: ws, i => lastAt ws i <|> if o = i then some b else none

/-- The bytes of the buffer that a creator says are the element. -/
def Created.bytes (c : Created) : List UInt8 :=
  (range c.ret.toNat).map fun i => (lastAt c.writes i).getD 0

/-- The creator writes the bytes below the length it returns, each of them, and no other. -/
def Created.Exact (c : Created) : Prop := ∀ i : Nat, i ∈ c.writes.map Prod.fst ↔ (i : Int) < c.ret

/-! ### Descriptors -/

/-- A descriptor: `w` bits of length, `n` bits of id, one of type. -/
def ieDesc (w n type id ieLen : Nat) : Nat :=
  (ieLen % 2 ^ w + id % 2 ^ n * 2 ^ w + type * 2 ^ 15) % 2 ^ 16

def createHeaderIeDescriptor (elementId ieLen : Nat) : List (Nat × UInt8) :=
  write16 0 (ieDesc 7 8 0 elementId ieLen)

def createPayloadIeDescriptor (groupId ieLen : Nat) : List (Nat × UInt8) :=
  write16 0 (ieDesc 11 4 1 groupId ieLen)

def createMlmeShortIeDescriptor (subId ieLen : Nat) : List (Nat × UInt8) :=
  write16 0 (ieDesc 8 7 0 subId ieLen)

def createMlmeLongIeDescriptor (subId ieLen : Nat) : List (Nat × UInt8) :=
  write16 0 (ieDesc 11 4 1 subId ieLen)

/-! ### Creators -/

/-- The check that all creators make before they write: `ieLen` bytes behind the descriptor fit. -/
def insertIe (len : Int) (ieLen : Nat) (writes : List (Nat × UInt8)) : Created :=
  if (2 + ieLen : Nat) ≤ len then ⟨(2 + ieLen : Nat), writes⟩ else .failed

/-- The field of the ACK/NACK element. -/
def timeSyncField (ies : Ies) : Nat :=
  (ies.timeCorrection % 4096).toNat ||| (if ies.isNack ≠ 0 then 0x8000 else 0)

def createIeHeaderAckNackTimeCorrection (len : Int) : Option Ies → Created
  | none => .failed
  | some ies => insertIe len 2 (write16 2 (timeSyncField ies) ++
      createHeaderIeDescriptor headerIeAckNackTimeCorrection 2)

/-- A creator of an element without content. -/
def createIeBare (writes : List (Nat × UInt8)) (len : Int) : Option Ies → Created
  | none => .failed
  | some _ => insertIe len 0 writes

def createIeHeaderListTermination1 : Int → Option Ies → Created :=
  createIeBare (createHeaderIeDescriptor headerIeListTermination1 0)

def createIeHeaderListTermination2 : Int → Option Ies → Created :=
  createIeBare (createHeaderIeDescriptor headerIeListTermination2 0)

def createIePayloadListTermination : Int → Option Ies → Created :=
  createIeBare (createPayloadIeDescriptor payloadIeListTermination 0)

def createIeMlme (mlmeLen : UInt16) : Int → Option Ies → Created :=
  createIeBare (createPayloadIeDescriptor payloadIeMlme mlmeLen.toNat)

def createIeTschSynchronization (len : Int) : Option Ies → Created
  | none => .failed
  | some ies => insertIe len 6
      ([(2, ies.asnLs4b.toUInt8), (3, (ies.asnLs4b >>> 8).toUInt8),
        (4, (ies.asnLs4b >>> 16).toUInt8), (5, (ies.asnLs4b >>> 24).toUInt8),
        (6, ies.asnMs1b), (7, ies.joinPriority)] ++
      createMlmeShortIeDescriptor mlmeShortIeTschSynchronization 6)

/-- The loop over the links. -/
def writeLinks (links : Nat → Link) (numLinks : Nat) : List (Nat × UInt8) :=
  (range numLinks).flatMap fun i =>
    write16 (2 + 5 + i * 5) (links i).timeslot.toNat ++
    write16 (2 + 5 + i * 5 + 2) (links i).channelOffset.toNat ++
    [(2 + 5 + i * 5 + 4, (links i).linkOptions)]

def createIeTschSlotframeAndLink (len : Int) : Option Ies → Created
  | none => .failed
  | some ies =>
    let slotframe := ies.tschSlotframeAndLink
    let numSlotframes := slotframe.numSlotframes.toNat
    let numLinks := slotframe.numLinks.toNat
    let ieLen := 1 + numSlotframes * (4 + 5 * numLinks)
    if 1 < numSlotframes ∨ maxLinks < numLinks then .failed
    else insertIe len ieLen
      ([(2, slotframe.numSlotframes)] ++
      (if numSlotframes = 1 then
        [(2 + 1, slotframe.slotframeHandle)] ++ write16 (2 + 2) slotframe.slotframeSize.toNat ++
        [(2 + 4, slotframe.numLinks)] ++ writeLinks slotframe.links numLinks
      else []) ++
      createMlmeShortIeDescriptor mlmeShortIeTschSlotframeAndLink ieLen)

/-- The length of a timeslot element: only the id if it is 0. -/
def timeslotLen (ies : Ies) : Nat := if ies.tschTimeslotId = 0 then 1 else 25

def createIeTschTimeslot (len : Int) : Option Ies → Created
  | none => .failed
  | some ies => insertIe len (timeslotLen ies)
      ([(2, ies.tschTimeslotId)] ++
      (if ies.tschTimeslotId ≠ 0 then
        (range tsElementsCount).flatMap fun i => write16 (3 + 2 * i) (ies.tschTimeslot i).toNat
      else []) ++
      createMlmeShortIeDescriptor mlmeShortIeTschTimeslot (timeslotLen ies))

/-- The length of a hopping sequence element: only the id if it is 0. -/
def channelHoppingSequenceLen (ies : Ies) : Nat :=
  if ies.channelHoppingSequenceId = 0 then 1 else 12 + ies.hoppingSequenceLen.toNat

/-- `frame80215e_create_ie_tsch_channel_hopping_sequence`. What is written does not depend on the id. -/
def createIeTschChannelHoppingSequence (maxLen : Nat) (len : Int) : Option Ies → Created
  | none => .failed
  | some ies =>
    let sequenceLen := ies.hoppingSequenceLen.toNat
    if maxLen < sequenceLen then .failed
    else insertIe len (channelHoppingSequenceLen ies)
      ([(2, ies.channelHoppingSequenceId), (3, 0)] ++ write16 4 0 ++ write16 6 0 ++ write16 8 0 ++
      write16 10 sequenceLen ++
      placed 12 ((range sequenceLen).map ies.hoppingSequenceList) ++
      write16 (12 + sequenceLen) 0 ++
      createMlmeLongIeDescriptor mlmeLongIeTschChannelHoppingSequence (channelHoppingSequenceLen ies))

/-- The elements that have a creator. -/
inductive Ie where
  | headerAckNackTimeCorrection
  | headerListTermination1
  | headerListTermination2
  | payloadListTermination
  | mlme (mlmeLen : UInt16)
  | tschSynchronization
  | tschSlotframeAndLink
  | tschTimeslot
  | tschChannelHoppingSequence
  deriving DecidableEq

/-- The creator of an element. -/
def Ie.create (maxLen : Nat) : Ie → Int → Option Ies → Created
  | .headerAckNackTimeCorrection => createIeHeaderAckNackTimeCorrection
  | .headerListTermination1 => createIeHeaderListTermination1
  | .headerListTermination2 => createIeHeaderListTermination2
  | .payloadListTermination => createIePayloadListTermination
  | .mlme mlmeLen => createIeMlme mlmeLen
  | .tschSynchronization => createIeTschSynchronization
  | .tschSlotframeAndLink => createIeTschSlotframeAndLink
  | .tschTimeslot => createIeTschTimeslot
  | .tschChannelHoppingSequence => createIeTschChannelHoppingSequence maxLen

/-! ### What the writes leave -/

theorem placed_append : ∀ (as bs : List UInt8) (o : Nat),
    placed o (as ++ bs) = placed o as ++ placed (o + as.length) bs
  | [], _, _ => rfl
  | a :: as, bs, o => by
    rw [cons_append, placed, placed, placed_append as bs (o + 1), cons_append, length_cons, Nat.add_right_comm o 1]
    rfl

theorem write16_eq (o val : Nat) : write16 o val = placed o (toLe 2 val) := rfl

theorem fst_mem_placed : ∀ (bs : List UInt8) (o i : Nat), i ∈ (placed o bs).map Prod.fst ↔ o ≤ i ∧ i < o + bs.length
  | [], o, i => by simp [placed]
  | b :: bs, o, i => by
    rw [placed, map_cons, mem_cons, fst_mem_placed bs (o + 1) i, length_cons]
    omega

theorem lastAt_append : ∀ (ws vs : List (Nat × UInt8)) (i : Nat), lastAt (ws ++ vs) i = (lastAt vs i <|> lastAt ws i)
  | [], vs, i => by
    rw [nil_append, lastAt]
    cases lastAt vs i <;> rfl
  | (o, b) :: ws, vs, i => by
    rw [cons_append, lastAt, lastAt_append ws vs i, lastAt]
    cases lastAt vs i <;> rfl

theorem lastAt_placed : ∀ (bs : List UInt8) (o i : Nat), lastAt (placed o bs) i = if i < o then none else bs[i - o]?
  | [], o, i => by simp [placed, lastAt]
  | b :: bs, o, i => by
    rw [placed, lastAt, lastAt_placed bs (o + 1) i]
    rcases lt_trichotomy i o with hlt | heq | hgt
    · rw [if_pos (by omega), if_pos hlt, if_neg (by omega)]
      rfl
    · rw [if_pos (by omega), if_pos heq.symm, if_neg (by omega), heq, Nat.sub_self]
      rfl
    · rw [if_neg (by omega), if_neg (by omega), if_neg (by omega),
        show i - o = i - (o + 1) + 1 by omega, getElem?_cons_succ]
      cases bs[i - (o + 1)]? <;> rfl

def elementWrites (desc : Nat) (content : List UInt8) : List (Nat × UInt8) :=
  placed 2 content ++ placed 0 (toLe 2 desc)

theorem lastAt_element (desc : Nat) (content : List UInt8) (i : Nat) :
    lastAt (elementWrites desc content) i = (toLe 2 desc ++ content)[i]? := by
  rw [elementWrites, lastAt_append, lastAt_placed, lastAt_placed, if_neg (Nat.not_lt_zero i), Nat.sub_zero]
  by_cases hi : i < 2
  · rw [getElem?_append_left (by rw [length_toLe]; exact hi), if_pos hi]
    cases (toLe 2 desc)[i]? <;> rfl
  · have hnone : (toLe 2 desc)[i]? = none := getElem?_eq_none (by rw [length_toLe]; omega)
    rw [if_neg hi, hnone, getElem?_append_right (by rw [length_toLe]; omega), length_toLe]
    rfl

theorem fst_mem_element (desc : Nat) (content : List UInt8) (i : Nat) :
    i ∈ (elementWrites desc content).map Prod.fst ↔ i < 2 + content.length := by
  rw [elementWrites, map_append, mem_append, fst_mem_placed, fst_mem_placed, length_toLe]
  omega

/-- The bytes a creator says are the element, where it has written at least as many. -/
theorem bytes_element {desc r : Nat} {content : List UInt8} (h : r ≤ 2 + content.length) :
    Created.bytes ⟨r, elementWrites desc content⟩ = (toLe 2 desc ++ content).take r := by
  refine ext_getElem? fun i => ?_
  rw [Created.bytes, Int.toNat_natCast, getElem?_map, getElem?_take]
  by_cases hi : i < r
  · have hlen : i < (toLe 2 desc ++ content).length := by
      rw [length_append, length_toLe]
      omega
    rw [if_pos hi, getElem?_range hi, Option.map_some, lastAt_element, getElem?_eq_getElem hlen]
    rfl
  · rw [if_neg hi, getElem?_eq_none (by rw [length_range]; omega)]
    rfl

/-! ### The content of an element -/

def linkBytes (link : Link) : List UInt8 :=
  toLe 2 link.timeslot.toNat ++ toLe 2 link.channelOffset.toNat ++ [link.linkOptions]

def linksBytes (links : Nat → Link) (n : Nat) : List UInt8 :=
  (range n).flatMap fun i => linkBytes (links i)

def timingsBytes (timings : Nat → UInt16) (n : Nat) : List UInt8 :=
  (range n).flatMap fun i => toLe 2 (timings i).toNat

/-- The bytes behind the descriptor that the creator writes. -/
def Ie.content (ies : Ies) : Ie → List UInt8
  | .headerAckNackTimeCorrection => toLe 2 (timeSyncField ies)
  | .tschSynchronization =>
    [ies.asnLs4b.toUInt8, (ies.asnLs4b >>> 8).toUInt8, (ies.asnLs4b >>> 16).toUInt8,
      (ies.asnLs4b >>> 24).toUInt8, ies.asnMs1b, ies.joinPriority]
  | .tschSlotframeAndLink =>
    let slotframe := ies.tschSlotframeAndLink
    slotframe.numSlotframes :: if slotframe.numSlotframes.toNat = 1 then
      slotframe.slotframeHandle :: (toLe 2 slotframe.slotframeSize.toNat ++
        slotframe.numLinks :: linksBytes slotframe.links slotframe.numLinks.toNat)
    else []
  | .tschTimeslot =>
    ies.tschTimeslotId :: if ies.tschTimeslotId ≠ 0 then timingsBytes ies.tschTimeslot tsElementsCount
      else []
  | .tschChannelHoppingSequence =>
    [ies.channelHoppingSequenceId, 0, 0, 0, 0, 0, 0, 0] ++ toLe 2 ies.hoppingSequenceLen.toNat ++
      (range ies.hoppingSequenceLen.toNat).map ies.hoppingSequenceList ++ [0, 0]
  | _ => []

def Ie.ieLen (ies : Ies) : Ie → Nat
  | .headerAckNackTimeCorrection => 2
  | .tschSynchronization => 6
  | .tschSlotframeAndLink => 1 + ies.tschSlotframeAndLink.numSlotframes.toNat *
      (4 + 5 * ies.tschSlotframeAndLink.numLinks.toNat)
  | .tschTimeslot => timeslotLen ies
  | .tschChannelHoppingSequence => channelHoppingSequenceLen ies
  | _ => 0

/-- The descriptor. -/
def Ie.desc (ies : Ies) (e : Ie) : Nat :=
  match e with
  | .headerAckNackTimeCorrection => ieDesc 7 8 0 headerIeAckNackTimeCorrection (e.ieLen ies)
  | .headerListTermination1 => ieDesc 7 8 0 headerIeListTermination1 0
  | .headerListTermination2 => ieDesc 7 8 0 headerIeListTermination2 0
  | .payloadListTermination => ieDesc 11 4 1 payloadIeListTermination 0
  | .mlme mlmeLen => ieDesc 11 4 1 payloadIeMlme mlmeLen.toNat
  | .tschSynchronization => ieDesc 8 7 0 mlmeShortIeTschSynchronization (e.ieLen ies)
  | .tschSlotframeAndLink => ieDesc 8 7 0 mlmeShortIeTschSlotframeAndLink (e.ieLen ies)
  | .tschTimeslot => ieDesc 8 7 0 mlmeShortIeTschTimeslot (e.ieLen ies)
  | .tschChannelHoppingSequence =>
    ieDesc 11 4 1 mlmeLongIeTschChannelHoppingSequence (e.ieLen ies)

/-- What a creator asks of the fields. -/
def Ie.Allowed (maxLen : Nat) (ies : Ies) : Ie → Prop
  | .tschSlotframeAndLink => ies.tschSlotframeAndLink.numSlotframes.toNat ≤ 1 ∧
      ies.tschSlotframeAndLink.numLinks.toNat ≤ maxLinks
  | .tschChannelHoppingSequence => ies.hoppingSequenceLen.toNat ≤ maxLen
  | _ => True

theorem linksBytes_succ (links : Nat → Link) (n : Nat) :
    linksBytes links (n + 1) = linksBytes links n ++ linkBytes (links n) := by
  rw [linksBytes, range_succ, flatMap_append, flatMap_singleton]
  rfl

theorem timingsBytes_succ (timings : Nat → UInt16) (n : Nat) :
    timingsBytes timings (n + 1) = timingsBytes timings n ++ toLe 2 (timings n).toNat := by
  rw [timingsBytes, range_succ, flatMap_append, flatMap_singleton]
  rfl

@[simp] theorem length_linksBytes (links : Nat → Link) : ∀ n, (linksBytes links n).length = 5 * n
  | 0 => rfl
  | n + 1 => by
    rw [linksBytes_succ, length_append, length_linksBytes links n]
    simp [linkBytes]
    omega

@[simp] theorem length_timingsBytes (timings : Nat → UInt16) : ∀ n, (timingsBytes timings n).length = 2 * n
  | 0 => rfl
  | n + 1 => by
    rw [timingsBytes_succ, length_append, length_timingsBytes timings n, length_toLe]
    omega

theorem writeLinks_eq (links : Nat → Link) : ∀ n, writeLinks links n = placed 7 (linksBytes links n)
  | 0 => rfl
  | n + 1 => by
    have ih := writeLinks_eq links n
    rw [writeLinks] at ih ⊢
    rw [range_succ, flatMap_append, ih, linksBytes_succ, placed_append, length_linksBytes,
      flatMap_singleton, linkBytes, placed_append, placed_append]
    simp only [write16_eq, placed, length_append, length_toLe, mul_comm n]

theorem writeTimings_eq (timings : Nat → UInt16) : ∀ n,
    (range n).flatMap (fun i => write16 (3 + 2 * i) (timings i).toNat) = placed 3 (timingsBytes timings n)
  | 0 => rfl
  | n + 1 => by
    rw [range_succ, flatMap_append, writeTimings_eq timings n, timingsBytes_succ,
      placed_append, length_timingsBytes, flatMap_singleton, write16_eq]

/-! ### One law for all creators -/

variable {len : Int} {maxLen : Nat} {e : Ie} {ies : Ies}

/-- A creator either fails or, its fields being allowed, writes content and descriptor and returns the
    length that the descriptor has. -/
theorem insertIe_of_nonneg {ieLen : Nat} {writes : List (Nat × UInt8)} (h : 0 ≤ (insertIe len ieLen writes).ret) :
    insertIe len ieLen writes = ⟨(2 + ieLen : Nat), writes⟩ := by
  rw [insertIe] at h ⊢
  split at h
  next hlen => rw [if_pos hlen]
  · cases h

theorem create_of_nonneg (h : 0 ≤ (e.create maxLen len (some ies)).ret) : e.Allowed maxLen ies ∧ e.create maxLen len
    (some ies) = ⟨(2 + e.ieLen ies : Nat), elementWrites (e.desc ies) (e.content ies)⟩ := by
  cases e with
  | headerAckNackTimeCorrection => exact ⟨trivial, insertIe_of_nonneg h⟩
  | headerListTermination1 => exact ⟨trivial, insertIe_of_nonneg h⟩
  | headerListTermination2 => exact ⟨trivial, insertIe_of_nonneg h⟩
  | payloadListTermination => exact ⟨trivial, insertIe_of_nonneg h⟩
  | mlme mlmeLen => exact ⟨trivial, insertIe_of_nonneg h⟩
  | tschSynchronization => exact ⟨trivial, insertIe_of_nonneg h⟩
  | tschSlotframeAndLink =>
    simp only [Ie.create, createIeTschSlotframeAndLink] at h ⊢
    split at h
    · cases h
    next hfits =>
      rw [if_neg hfits, insertIe_of_nonneg h]
      refine ⟨⟨by omega, by omega⟩, ?_⟩
      rw [elementWrites, Ie.content, writeLinks_eq]
      split <;> rfl
  | tschTimeslot =>
    refine ⟨trivial, ?_⟩
    refine (insertIe_of_nonneg h).trans ?_
    rw [elementWrites, Ie.content, writeTimings_eq]
    split <;> rfl
  | tschChannelHoppingSequence =>
    simp only [Ie.create, createIeTschChannelHoppingSequence] at h ⊢
    split at h
    · cases h
    next hfits =>
      rw [if_neg hfits, insertIe_of_nonneg h]
      refine ⟨Nat.le_of_not_lt hfits, ?_⟩
      rw [elementWrites, Ie.content, placed_append, placed_append, placed_append]
      simp [placed, write16, toLe, createMlmeLongIeDescriptor, Ie.ieLen, Ie.desc]
      omega

theorem length_content : ∀ {e : Ie}, e.Allowed maxLen ies →
    (e.content ies).length = if e = .tschChannelHoppingSequence then
      12 + ies.hoppingSequenceLen.toNat else e.ieLen ies
  | .headerAckNackTimeCorrection, _ | .headerListTermination1, _ | .headerListTermination2, _
  | .payloadListTermination, _ | .mlme _, _ | .tschSynchronization, _ => rfl
  | .tschSlotframeAndLink, hallowed => by
    have hns := hallowed.1
    rw [if_neg Ie.noConfusion, Ie.content, Ie.ieLen]
    by_cases hone : ies.tschSlotframeAndLink.numSlotframes.toNat = 1
    · simp [hone]
      omega
    · have hzero : ies.tschSlotframeAndLink.numSlotframes.toNat = 0 := by omega
      simp [hzero]
  | .tschTimeslot, _ => by
    rw [if_neg Ie.noConfusion, Ie.content, Ie.ieLen, timeslotLen]
    by_cases hid : ies.tschTimeslotId = 0
    · simp [hid]
    · simp [hid, tsElementsCount]
  | .tschChannelHoppingSequence, _ => by
    rw [if_pos rfl, Ie.content]
    simp
    omega

theorem ieLen_le_content (h : e.Allowed maxLen ies) : e.ieLen ies ≤ (e.content ies).length := by
  rw [length_content h]
  split
  next heq =>
    rw [heq, Ie.ieLen, channelHoppingSequenceLen]
    split <;> omega
  · exact le_refl _

/-- The bytes of a created element: what it returns, of what it writes. -/
theorem bytes_create (h : 0 ≤ (e.create maxLen len (some ies)).ret) : (e.create maxLen len (some ies)).bytes =
      toLe 2 (e.desc ies) ++ (e.content ies).take (e.ieLen ies) := by
  obtain ⟨hallowed, heq⟩ := create_of_nonneg h
  have hle := ieLen_le_content hallowed
  rw [heq, bytes_element (by omega), take_append, take_of_length_le, length_toLe, Nat.add_sub_cancel_left]
  rw [length_toLe]
  omega

theorem create_exact_iff (h : 0 ≤ (e.create maxLen len (some ies)).ret) : (e.create maxLen len (some ies)).Exact ↔
      (e = .tschChannelHoppingSequence → ies.channelHoppingSequenceId ≠ 0) := by
  obtain ⟨hallowed, heq⟩ := create_of_nonneg h
  have hlen := length_content hallowed
  have hexact : (e.create maxLen len (some ies)).Exact ↔ (e.content ies).length = e.ieLen ies := by
    rw [heq]
    constructor
    · intro hex
      have hlast := hex (e.content ies).length
      have hnext := hex (2 + e.ieLen ies)
      have hfirst := hex (2 + (e.content ies).length)
      simp only [fst_mem_element] at hlast hnext hfirst
      omega
    · intro hlen i
      simp only [fst_mem_element]
      omega
  rw [hexact, hlen]
  by_cases hhop : e = .tschChannelHoppingSequence
  · rw [if_pos hhop, hhop, Ie.ieLen, channelHoppingSequenceLen]
    by_cases hid : ies.channelHoppingSequenceId = 0
    · rw [if_pos hid]
      exact ⟨fun h => by omega, fun h => absurd hid (h rfl)⟩
    · rw [if_neg hid]
      exact ⟨fun _ _ => hid, fun _ => rfl⟩
  · rw [if_neg hhop]
    exact ⟨fun _ h => absurd h hhop, fun _ => rfl⟩

end CSync.InformationElements
