import CSync.Mac.InformationElements

/-! Which reads the element parsers make.

    The descriptors alone cut a buffer into elements (`elements`). The parsers then run over these one by one, up to
    the first they reject. Two of them read at a fixed offset that their own length does not cover: the number of
    links, and the length of the hopping sequence; and the latter is kept whatever it is. With these three excluded
    every read is inside the buffer and the counts are within their arrays; without, one of them is not. -/

namespace CSync.InformationElements
open List

/-! ### Elements -/

inductive Kind where | header | short | long
  deriving DecidableEq

/-- An element and the bytes from it to the end of the buffer, or a place where no element can be. -/
inductive Element where
  | ie (kind : Kind) (id len : Nat) (bytes : List UInt8)
  | malformed

/-- The elements of a buffer, as far as the descriptors tell. -/
def elements (parsingState : ParsingState) (nested : Int) : List UInt8 → List Element
  | [] => []
  | [_] => [.malformed]
  | lo :: hi :: buf =>
    let desc := descOf lo hi
    match parsingState with
    | .headerIe =>
      if descType desc then [.malformed]
      else if descId desc 7 = headerIeListTermination1 then
        if descLen desc 7 = 0 then elements .payloadIe nested buf else [.malformed]
      else if descId desc 7 = headerIeListTermination2 then
        if descLen desc 7 = 0 then [] else [.malformed]
      else if buf.length < descLen desc 7 then [.malformed]
      else .ie .header (descId desc 7) (descLen desc 7) buf ::
        elements .headerIe nested (buf.drop (descLen desc 7))
    | .payloadIe =>
      if ¬descType desc then [.malformed]
      else if descId desc 11 = payloadIeMlme then elements .mlmeSubie (descLen desc 11) buf
      else if descId desc 11 = payloadIeListTermination ∧ descLen desc 11 = 0 then []
      else [.malformed]
    | .mlmeSubie =>
      let w := if descType desc then 11 else 8
      if buf.length < descLen desc w then [.malformed]
      else .ie (if descType desc then .long else .short) (descId desc w) (descLen desc w) buf ::
        match nestedNext nested (descLen desc w) with
        | .ret _ => [.malformed]
        | .more parsingState nested len => elements parsingState nested (buf.drop len)
  termination_by buf => buf.length
  decreasing_by all_goals simp only [length_drop, length_cons]; omega

/-- An element the parsers take. -/
def Element.Accepted : Element → Prop
  | .malformed => False
  | .ie .header id len _ => id = headerIeAckNackTimeCorrection ∧ len = 2
  | .ie .short id len bytes =>
    (id = mlmeShortIeTschSlotframeAndLink ∧ 1 ≤ len ∧ (bytes.getD 0 0 = 0 ∨
      (bytes.getD 0 0 = 1 ∧ (bytes.getD 4 0).toNat ≤ maxLinks ∧
        len = 5 + 5 * (bytes.getD 4 0).toNat))) ∨
    (id = mlmeShortIeTschSynchronization ∧ len = 6) ∨
    (id = mlmeShortIeTschTimeslot ∧ (len = 1 ∨ len = 25))
  | .ie .long id len _ => id = mlmeLongIeTschChannelHoppingSequence ∧ 1 ≤ len

/-- An element whose parser reads behind the end of the buffer. -/
def Element.Overruns : Element → Prop
  | .ie .short id len bytes =>
    id = mlmeShortIeTschSlotframeAndLink ∧ 1 ≤ len ∧ bytes.length < 5
  | .ie .long id len bytes =>
    id = mlmeLongIeTschChannelHoppingSequence ∧ 2 ≤ len ∧ bytes.length < 10
  | _ => False

instance : DecidablePred Element.Accepted
  | .malformed => inferInstanceAs (Decidable False)
  | .ie .header _ _ _ => inferInstanceAs (Decidable (_ ∧ _))
  | .ie .short _ _ _ => inferInstanceAs (Decidable (_ ∨ _))
  | .ie .long _ _ _ => inferInstanceAs (Decidable (_ ∧ _))

instance : DecidablePred Element.Overruns
  | .malformed => inferInstanceAs (Decidable False)
  | .ie .header _ _ _ => inferInstanceAs (Decidable False)
  | .ie .short _ _ _ => inferInstanceAs (Decidable (_ ∧ _))
  | .ie .long _ _ _ => inferInstanceAs (Decidable (_ ∧ _))

/-- The length of the hopping sequence behind an element, `n` before it. -/
def Element.announced (n : Nat) : Element → Nat
  | .ie .long _ len bytes =>
    if 2 ≤ len then (bytes.getD 8 0).toNat + 256 * (bytes.getD 9 0).toNat else n
  | _ => n

/-- Up to the first element that is not accepted, none overruns the buffer. -/
def Clear : List Element → Prop
  | [] => True
  | e :: es => ¬e.Overruns ∧ (e.Accepted → Clear es)

instance decidableClear : DecidablePred Clear
  | [] => isTrue trivial
  | e :: es =>
    have := decidableClear es
    inferInstanceAs (Decidable (¬e.Overruns ∧ (e.Accepted → Clear es)))

/-- The length that the last hopping sequence announces, `n` without one. -/
def lastAnnounced (n : Nat) (es : List Element) : Nat := es.foldl Element.announced n

/-! ### Reads -/

variable {buf bytes : List UInt8} {i len : Nat} {ies ies' : Ies} {es : List Element} {r : Option (Int × Ies)}

theorem getElem?_eq_getD (h : i < buf.length) : buf[i]? = some (buf.getD i 0) := by
  rw [getD, getElem?_eq_getElem h]
  rfl

theorem read16_eq (h : i + 1 < buf.length) : read16 buf i = some (descOf (buf.getD i 0) (buf.getD (i + 1) 0)) := by
  rw [read16, getElem?_eq_getD (Nat.lt_of_succ_lt h), getElem?_eq_getD h]
  rfl

theorem read16_eq_none (h : buf.length ≤ i + 1) : read16 buf i = none := by
  rw [read16, getElem?_eq_none h]
  cases buf[i]? <;> rfl

theorem descOf_toNat (lo hi : UInt8) : (descOf lo hi).toNat = lo.toNat + 256 * hi.toNat := by
  rw [descOf, UInt16.toNat_or, UInt16.toNat_shiftLeft]
  have hlo := lo.toNat_lt
  have hhi := hi.toNat_lt
  have hmod : hi.toNat <<< 8 % 2 ^ 16 = hi.toNat <<< 8 := by
    omega
  simp only [UInt8.toNat_toUInt16, UInt16.toNat_ofNat, Nat.reducePow, Nat.reduceMod] at hmod ⊢
  rw [hmod, Nat.or_comm, ← Nat.shiftLeft_add_eq_or_of_lt (i := 8) hlo, Nat.shiftLeft_eq]
  omega

theorem readLinks_isSome (buf : List UInt8) : ∀ (n : Nat) (links : Nat → Link),
    5 + 5 * n ≤ buf.length → ∃ links', readLinks buf n links = some links'
  | 0, links, _ => ⟨links, rfl⟩
  | n + 1, links, h => by
    obtain ⟨links', ih⟩ := readLinks_isSome buf n links (by omega)
    have h0 : 5 + n * 5 + 1 < buf.length := by omega
    have h2 : 5 + n * 5 + 2 + 1 < buf.length := by omega
    have h4 : 5 + n * 5 + 4 < buf.length := by omega
    rw [readLinks, ih, read16_eq h0, read16_eq h2, getElem?_eq_getD h4]
    exact ⟨_, rfl⟩

theorem readTimeslot_isSome (buf : List UInt8) : ∀ (n : Nat) (timings : Nat → UInt16),
    1 + 2 * n ≤ buf.length → ∃ timings', readTimeslot buf n timings = some timings'
  | 0, timings, _ => ⟨timings, rfl⟩
  | n + 1, timings, h => by
    obtain ⟨timings', ih⟩ := readTimeslot_isSome buf n timings (by omega)
    have hn : 1 + 2 * n + 1 < buf.length := by omega
    rw [readTimeslot, ih, read16_eq hn]
    exact ⟨_, rfl⟩

/-! ### One element -/

/-- The counts are within their arrays. -/
structure Bounded (maxLen : Nat) (ies : Ies) : Prop where
  numLinks : ies.tschSlotframeAndLink.numLinks.toNat ≤ maxLinks
  hoppingSequenceLen : ies.hoppingSequenceLen.toNat ≤ maxLen

/-- What the parser of an element does: it reads behind the buffer, it takes the element, or it rejects it. -/
inductive Outcome (e : Element) (len : Nat) (ies : Ies) : Option (Int × Ies) → Prop where
  | overrun (h : e.Overruns) : Outcome e len ies none
  | accepted (ies' : Ies) (hno : ¬e.Overruns) (h : e.Accepted)
      (hlinks : ies.tschSlotframeAndLink.numLinks.toNat ≤ maxLinks →
        ies'.tschSlotframeAndLink.numLinks.toNat ≤ maxLinks)
      (hhop : ies'.hoppingSequenceLen.toNat = e.announced ies.hoppingSequenceLen.toNat) :
      Outcome e len ies (some (len, ies'))
  | rejected (ies' : Ies) (hno : ¬e.Overruns) (h : ¬e.Accepted) : Outcome e len ies (some (-1, ies'))

theorem parseHeaderIe_outcome (id : Nat) (ies : Ies) (h : len ≤ bytes.length) :
    Outcome (.ie .header id len bytes) len ies (parseHeaderIe bytes len id ies) := by
  rw [parseHeaderIe]
  split
  next hacc =>
    rw [read16_eq (by omega)]
    exact .accepted _ (fun hn => hn) hacc (fun hl => hl) rfl
  next hacc => exact .rejected _ (fun hn => hn) hacc

theorem parseSlotframeAndLink_outcome (ies : Ies) (h : len ≤ bytes.length) : Outcome (.ie .short
    mlmeShortIeTschSlotframeAndLink len bytes) len ies (parseSlotframeAndLink bytes len ies) := by
  rw [parseSlotframeAndLink]
  by_cases hlen : 1 ≤ len
  · rw [if_pos hlen, getElem?_eq_getD (show 0 < bytes.length by omega)]
    by_cases hfive : bytes.length < 5
    · rw [getElem?_eq_none (show bytes.length ≤ 4 by omega)]
      exact .overrun ⟨rfl, hlen, hfive⟩
    · have hno : ¬Element.Overruns (.ie .short mlmeShortIeTschSlotframeAndLink len bytes) :=
        fun hover => hfive hover.2.2
      rw [getElem?_eq_getD (show 4 < bytes.length by omega)]
      change Outcome _ _ _ (if _ then _ else if _ then _ else _)
      split
      next hzero => exact .accepted _ hno (.inl ⟨rfl, hlen, .inl hzero⟩) (fun hl => hl) rfl
      next hzero =>
        have hone : bytes.getD 0 0 = 1 ↔ (bytes.getD 0 0).toNat ≤ 1 := by
          rw [← UInt8.toNat_inj] at hzero ⊢
          simp only [UInt8.toNat_ofNat, Nat.reducePow, Nat.reduceMod] at hzero ⊢
          omega
        split
        next hfits =>
          obtain ⟨hns, hnl, heq⟩ := hfits
          have hns' := hone.mpr hns
          rw [hns'] at heq
          have heq' : len = 5 + 5 * (bytes.getD 4 0).toNat := by
            rw [heq]
            simp only [UInt8.toNat_ofNat, Nat.reducePow, Nat.reduceMod]
            omega
          obtain ⟨links, hlinks⟩ := readLinks_isSome bytes (bytes.getD 4 0).toNat
            ies.tschSlotframeAndLink.links (by omega)
          rw [getElem?_eq_getD (show 1 < bytes.length by omega), read16_eq (by omega), hlinks]
          exact .accepted _ hno (.inl ⟨rfl, hlen, .inr ⟨hns', hnl, heq'⟩⟩) (fun _ => hnl) rfl
        next hfits =>
          refine .rejected _ hno ?_
          rintro (hs | hs | hs)
          · rcases hs.2.2 with hz | ⟨hns, hnl, heq⟩
            · exact hzero hz
            · refine hfits ⟨hone.mp hns, hnl, ?_⟩
              rw [heq, hns]
              simp only [UInt8.toNat_ofNat, Nat.reducePow, Nat.reduceMod]
              omega
          · exact absurd hs.1 (by decide)
          · exact absurd hs.1 (by decide)
  · rw [if_neg hlen]
    refine .rejected _ (fun hover => hlen hover.2.1) ?_
    rintro (hs | hs | hs)
    · exact hlen hs.2.1
    · exact absurd hs.1 (by decide)
    · exact absurd hs.1 (by decide)

theorem parseSynchronization_outcome (ies : Ies) (h : len ≤ bytes.length) : Outcome (.ie .short
    mlmeShortIeTschSynchronization len bytes) len ies (parseSynchronization bytes len ies) := by
  have hno : ¬Element.Overruns (.ie .short mlmeShortIeTschSynchronization len bytes) :=
    fun hover => absurd hover.1 (by decide)
  rw [parseSynchronization]
  split
  next hsix =>
    rw [getElem?_eq_getD (show 0 < bytes.length by omega), getElem?_eq_getD (show 1 < bytes.length by omega),
      getElem?_eq_getD (show 2 < bytes.length by omega),
      getElem?_eq_getD (show 3 < bytes.length by omega),
      getElem?_eq_getD (show 4 < bytes.length by omega),
      getElem?_eq_getD (show 5 < bytes.length by omega)]
    exact .accepted _ hno (.inr (.inl ⟨rfl, hsix⟩)) (fun hl => hl) rfl
  next hsix =>
    refine .rejected _ hno ?_
    rintro (hs | hs | hs)
    · exact absurd hs.1 (by decide)
    · exact hsix hs.2
    · exact absurd hs.1 (by decide)

theorem parseTimeslot_outcome (ies : Ies) (h : len ≤ bytes.length) :
    Outcome (.ie .short mlmeShortIeTschTimeslot len bytes) len ies (parseTimeslot bytes len ies) := by
  have hno : ¬Element.Overruns (.ie .short mlmeShortIeTschTimeslot len bytes) :=
    fun hover => absurd hover.1 (by decide)
  rw [parseTimeslot]
  split
  next hlen =>
    rw [getElem?_eq_getD (show 0 < bytes.length by omega)]
    split
    · obtain ⟨timings, ht⟩ := readTimeslot_isSome bytes tsElementsCount ies.tschTimeslot
        (by rw [tsElementsCount]; omega)
      rw [ht]
      exact .accepted _ hno (.inr (.inr ⟨rfl, hlen⟩)) (fun hl => hl) rfl
    · exact .accepted _ hno (.inr (.inr ⟨rfl, hlen⟩)) (fun hl => hl) rfl
  next hlen =>
    refine .rejected _ hno ?_
    rintro (hs | hs | hs)
    · exact absurd hs.1 (by decide)
    · exact absurd hs.1 (by decide)
    · exact hlen hs.2

theorem parseMlmeShortIe_outcome (id : Nat) (ies : Ies) (h : len ≤ bytes.length) :
    Outcome (.ie .short id len bytes) len ies (parseMlmeShortIe bytes len id ies) := by
  rw [parseMlmeShortIe]
  split
  next hid =>
    rw [hid]
    exact parseSlotframeAndLink_outcome ies h
  next hslot =>
    split
    next hid =>
      rw [hid]
      exact parseSynchronization_outcome ies h
    next hsync =>
      split
      next hid =>
        rw [hid]
        exact parseTimeslot_outcome ies h
      next htime =>
        refine .rejected _ (fun hover => hslot hover.1) ?_
        rintro (hs | hs | hs)
        · exact hslot hs.1
        · exact hsync hs.1
        · exact htime hs.1

theorem parseMlmeLongIe_outcome (maxLen : Nat) (id : Nat) (ies : Ies) (h : len ≤ bytes.length) :
    Outcome (.ie .long id len bytes) len ies (parseMlmeLongIe maxLen bytes len id ies) := by
  rw [parseMlmeLongIe]
  split
  next hacc =>
    rw [getElem?_eq_getD (show 0 < bytes.length by omega)]
    split
    next htwo =>
      by_cases hten : bytes.length < 10
      · rw [read16_eq_none (by omega)]
        exact .overrun ⟨hacc.1, htwo, hten⟩
      · have hno : ¬Element.Overruns (.ie .long id len bytes) := fun hover => hten hover.2.2
        have hann : (descOf (bytes.getD 8 0) (bytes.getD 9 0)).toNat =
            Element.announced ies.hoppingSequenceLen.toNat (.ie .long id len bytes) := by
          rw [descOf_toNat, Element.announced, if_pos (show 2 ≤ len from htwo)]
        rw [read16_eq (by omega)]
        change Outcome _ _ _ (if _ then _ else _)
        split
        next hfits =>
          rw [copyOut, if_pos (by omega)]
          exact .accepted _ hno hacc (fun hl => hl) hann
        · exact .accepted _ hno hacc (fun hl => hl) hann
    next hone =>
      refine .accepted _ (fun hover => hone hover.2.1) hacc (fun hl => hl) ?_
      rw [Element.announced, if_neg (show ¬2 ≤ len from hone)]
  next hacc => exact .rejected _ (fun hover => hacc ⟨hover.1, Nat.lt_of_succ_lt hover.2.1⟩) hacc

/-! ### All elements -/

structure Leaves (es : List Element) (ies ies' : Ies) : Prop where
  numLinks : ies.tschSlotframeAndLink.numLinks.toNat ≤ maxLinks →
    ies'.tschSlotframeAndLink.numLinks.toNat ≤ maxLinks
  hoppingSequenceLen : ies'.hoppingSequenceLen.toNat = lastAnnounced ies.hoppingSequenceLen.toNat es

/-- What the loop does with the elements before it: a read behind the buffer, a failure, or a length. -/
inductive Result (es : List Element) (ies : Ies) : Option (Int × Ies) → Prop where
  | overrun (h : ¬Clear es) : Result es ies none
  | failed (ies' : Ies) (hclear : Clear es) (h : ¬∀ e ∈ es, e.Accepted) :
      Result es ies (some (-1, ies'))
  | parsed (n : Nat) (ies' : Ies) (hclear : Clear es) (h : ∀ e ∈ es, e.Accepted)
      (hleaves : Leaves es ies ies') : Result es ies (some (n, ies'))

theorem result_malformed (ies ies' : Ies) : Result [.malformed] ies (some (-1, ies')) :=
  .failed ies' ⟨fun h => h, fun h => absurd h (fun h => h)⟩ (fun h => h .malformed (mem_singleton.mpr rfl))

theorem result_nil (n : Nat) (h : Leaves [] ies ies') : Result [] ies (some (n, ies')) :=
  .parsed n ies' trivial nofun h

theorem Result.cons {e : Element} (hno : ¬e.Overruns) (hacc : e.Accepted) (hleaves : Leaves [e] ies ies') (h : Result
    es ies' r) : Result (e :: es) ies r := by
  cases h with
  | overrun h => exact .overrun fun hclear => h (hclear.2 hacc)
  | failed ies'' hclear h =>
    exact .failed ies'' ⟨hno, fun _ => hclear⟩ fun hall =>
      h fun x hx => hall x (mem_cons_of_mem e hx)
  | parsed n ies'' hclear h hl =>
    refine .parsed n ies'' ⟨hno, fun _ => hclear⟩ ?_ ?_
    · intro x hx
      rcases mem_cons.mp hx with rfl | hx
      · exact hacc
      · exact h x hx
    · refine ⟨fun hn => hl.numLinks (hleaves.numLinks hn), ?_⟩
      rw [hl.hoppingSequenceLen, hleaves.hoppingSequenceLen]
      rfl

/-- What the elements see of a record before them. -/
theorem Result.of_leaves (h : Result es ies' r) (hleaves : Leaves [] ies ies') : Result es ies r := by
  cases h with
  | overrun h => exact .overrun h
  | failed ies'' hclear h => exact .failed ies'' hclear h
  | parsed n ies'' hclear h hl =>
    refine .parsed n ies'' hclear h ⟨fun hn => hl.numLinks (hleaves.numLinks hn), ?_⟩
    rw [hl.hoppingSequenceLen, hleaves.hoppingSequenceLen]
    rfl

/-- The run on `r` behind one element of the buffer. -/
def continueWith (maxLen size : Nat) (buf : List UInt8) :
    Option (Next × Ies) → Option (Int × Ies)
  | none => none
  | some (.ret value, ies) => some (value, ies)
  | some (.more parsingState nested len, ies) =>
    loop maxLen size parsingState nested ies (buf.drop len)

theorem loop_cons (maxLen size : Nat) (parsingState : ParsingState) (nested : Int) (ies : Ies) (lo hi : UInt8)
    (buf : List UInt8) :
    loop maxLen size parsingState nested ies (lo :: hi :: buf) =
      continueWith maxLen size buf (parseElement maxLen (size - buf.length) parsingState nested (descOf lo hi) buf
        ies) := by
  rw [loop]
  rcases parseElement maxLen (size - buf.length) parsingState nested (descOf lo hi) buf ies with
    _ | ⟨_ | _, _⟩ <;> rfl

/-- An element that the parsers reject ends the loop; one they take leads on. -/
theorem Outcome.result {e : Element} {maxLen size : Nat} (next : Next) (ho : Outcome e len ies r)
    (hnext : ∀ ies', Result es ies' (continueWith maxLen size buf (some (next, ies')))) :
    Result (e :: es) ies (continueWith maxLen size buf (r.bind fun r =>
      some (if r.1 = -1 then .ret (-1) else next, r.2))) := by
  cases ho with
  | overrun h => exact .overrun fun hclear => hclear.1 h
  | accepted ies' hno h hlinks hhop =>
    refine .cons hno h ⟨hlinks, hhop⟩ ?_
    exact hnext ies'
  | rejected ies' hno h =>
    exact .failed ies' ⟨hno, fun hacc => absurd hacc h⟩ fun hall =>
      h (hall e mem_cons_self)

section

variable {maxLen size offset : Nat} {nested : Int} {lo hi : UInt8} {buf : List UInt8} {ies : Ies}

/-- The hypothesis of the induction: the loop behind this descriptor. -/
def Hyp (maxLen size : Nat) (buf : List UInt8) : Prop :=
  ∀ (parsingState : ParsingState) (nested : Int) (ies : Ies) (len : Nat),
    Result (elements parsingState nested (buf.drop len)) ies
      (loop maxLen size parsingState nested ies (buf.drop len))

section
variable (ih : Hyp maxLen size buf)
include ih

theorem headerElement_result : Result (elements .headerIe nested (lo :: hi :: buf)) ies
    (continueWith maxLen size buf (headerElement offset nested (descOf lo hi) buf ies)) := by
  rw [elements, headerElement]
  split
  · exact result_malformed _ _
  split
  · split
    next hzero =>
      rw [hzero]
      have hrest := ih .payloadIe nested { ies with payloadIeOffset := .ofNat offset } 0
      exact hrest.of_leaves ⟨fun h => h, rfl⟩
    · exact result_malformed _ _
  split
  · split
    next hzero =>
      rw [hzero]
      exact result_nil offset ⟨fun h => h, rfl⟩
    · exact result_malformed _ _
  split
  · exact result_malformed _ _
  next hlen =>
    exact (parseHeaderIe_outcome _ ies (Nat.le_of_not_lt hlen)).result _ fun ies' =>
      ih .headerIe nested ies' _

theorem payloadElement_result : Result (elements .payloadIe nested (lo :: hi :: buf)) ies
    (continueWith maxLen size buf (payloadElement offset (descOf lo hi) ies)) := by
  rw [elements, payloadElement]
  split
  · exact result_malformed _ _
  split
  · exact ih .mlmeSubie _ ies 0
  split
  next hterm =>
    rw [if_pos hterm.1, hterm.2]
    exact result_nil offset ⟨fun h => h, rfl⟩
  next hterm =>
    split
    next hid =>
      rw [if_neg fun hzero => hterm ⟨hid, hzero⟩]
      exact result_malformed _ _
    · exact result_malformed _ _

theorem nestedElement_result : Result (elements .mlmeSubie nested (lo :: hi :: buf)) ies
    (continueWith maxLen size buf (nestedElement maxLen nested (descOf lo hi) buf ies)) := by
  have hnext : ∀ (len : Nat) (ies' : Ies), Result (match nestedNext nested len with
        | .ret _ => [.malformed]
        | .more parsingState nested len => elements parsingState nested (buf.drop len)) ies'
      (continueWith maxLen size buf (some (nestedNext nested len, ies'))) := by
    intro len ies'
    cases h : nestedNext nested len with
    | ret value =>
      have hvalue : value = -1 := by
        rw [nestedNext] at h
        split at h
        · exact (Next.ret.inj h).symm
        · cases h
      rw [hvalue]
      exact result_malformed _ _
    | more parsingState nested len => exact ih parsingState nested ies' len
  rw [elements, nestedElement]
  by_cases htype : descType (descOf lo hi) = true
  · rw [if_pos htype, if_pos htype, if_pos htype]
    split
    · exact result_malformed _ _
    next hlen => exact (parseMlmeLongIe_outcome maxLen _ ies (Nat.le_of_not_lt hlen)).result _ (hnext _)
  · rw [if_neg htype, if_neg htype, if_neg htype]
    split
    · exact result_malformed _ _
    next hlen => exact (parseMlmeShortIe_outcome _ ies (Nat.le_of_not_lt hlen)).result _ (hnext _)

end

end

theorem loop_result (maxLen size : Nat) (parsingState : ParsingState) (nested : Int) (ies : Ies) (bytes : List UInt8)
    : Result (elements parsingState nested bytes) ies (loop maxLen size parsingState nested ies bytes) := by
  match bytes with
  | [] =>
    rw [elements, loop]
    refine result_nil size ?_
    split
    · exact ⟨fun h => h, rfl⟩
    · exact ⟨fun h => h, rfl⟩
  | [_] =>
    rw [elements, loop]
    exact result_malformed _ _
  | lo :: hi :: buf =>
    have ih : Hyp maxLen size buf := fun parsingState nested ies len =>
      loop_result maxLen size parsingState nested ies (buf.drop len)
    rw [loop_cons]
    cases parsingState with
    | headerIe => exact headerElement_result ih
    | payloadIe => exact payloadElement_result ih
    | mlmeSubie => exact nestedElement_result ih
  termination_by bytes.length
  decreasing_by
    simp only [length_drop, length_cons]
    omega

/-! ### Bounds -/

/-- THE BOUNDS. From a record within its bounds (both callers clear it), the parser reads inside the
    buffer and leaves the record within its bounds where it returns a length, exactly when no element it
    reaches overruns and, with all of them accepted, the last hopping sequence announced fits. -/
theorem information_elements_in_bounds (maxLen : Nat) (buf : List UInt8) (ies : Ies) (h : Bounded maxLen ies) :
    (∃ n ies', parseInformationElements maxLen buf ies = some (n, ies') ∧ (0 ≤ n → Bounded maxLen ies')) ↔
      Clear (elements .headerIe 0 buf) ∧
      ((∀ e ∈ elements .headerIe 0 buf, e.Accepted) →
         lastAnnounced ies.hoppingSequenceLen.toNat (elements .headerIe 0 buf) ≤ maxLen) := by
  have hresult : Result (elements .headerIe 0 buf) ies (parseInformationElements maxLen buf ies) :=
    (loop_result maxLen buf.length .headerIe 0 { ies with payloadIeOffset := 0 } buf).of_leaves ⟨fun hl => hl, rfl⟩
  revert hresult
  generalize parseInformationElements maxLen buf ies = r
  intro hresult
  cases hresult with
  | overrun hover =>
    constructor
    · rintro ⟨n, ies', hnone, -⟩
      cases hnone
    · exact fun hclear => absurd hclear.1 hover
  | failed ies' hclear hrej =>
    constructor
    · exact fun _ => ⟨hclear, fun hall => absurd hall hrej⟩
    · exact fun _ => ⟨-1, ies', rfl, nofun⟩
  | parsed n ies' hclear hall hleaves =>
    constructor
    · rintro ⟨n', ies'', heq, hbounded⟩
      obtain ⟨rfl, rfl⟩ := Prod.mk.inj (Option.some.inj heq)
      refine ⟨hclear, fun _ => ?_⟩
      rw [← hleaves.hoppingSequenceLen]
      exact (hbounded (Int.natCast_nonneg n)).hoppingSequenceLen
    · rintro ⟨-, hfits⟩
      refine ⟨n, ies', rfl, fun _ => ⟨hleaves.numLinks h.numLinks, ?_⟩⟩
      rw [hleaves.hoppingSequenceLen]
      exact hfits hall

/-- The record as the callers clear it. -/
def clearedIes : Ies where
  timeCorrection := 0
  isNack := 0
  payloadIeOffset := 0
  asnLs4b := 0
  asnMs1b := 0
  joinPriority := 0
  tschTimeslotId := 0
  tschTimeslot _ := 0
  tschSlotframeAndLink := ⟨0, 0, 0, 0, fun _ => ⟨0, 0, 0⟩⟩
  channelHoppingSequenceId := 0
  hoppingSequenceLen := 0
  hoppingSequenceList _ := 0

/-- A buffer with an MLME element whose nested elements are `bytes`. -/
def mlmeBuffer (bytes : List UInt8) : List UInt8 :=
  [0x00, 0x3f, .ofNat bytes.length, 0x88] ++ bytes

/-- A synchronization element, a slotframe with one link and a hopping sequence of two channels. -/
theorem information_elements_beacon :
    let buf := mlmeBuffer ([0x06, 0x1a, 1, 2, 3, 4, 5, 6] ++ [0x0a, 0x1b, 1, 0, 7, 0, 1, 3, 0, 1, 0, 2] ++
      [0x0e, 0xc8, 1, 0, 0, 0, 0, 0, 0, 0, 2, 0, 15, 20, 0, 0])
    Bounded 16 clearedIes ∧ ∃ n ies', parseInformationElements 16 buf clearedIes = some (n, ies') ∧
      (0 ≤ n → Bounded 16 ies') :=
  ⟨⟨by decide, by decide⟩, (information_elements_in_bounds 16 _ clearedIes
    ⟨by decide, by decide⟩).mpr ⟨by decide +kernel, fun _ => (by decide +kernel)⟩⟩

/-- A slotframe element of one byte and a hopping element of two make the parser read behind the buffer;
    a hopping element of twelve is taken with a sequence of 65535 for a list of 16. -/
theorem short_elements_overrun :
    parseInformationElements 16 (mlmeBuffer [0x01, 0x1b, 0]) clearedIes = none ∧
    parseInformationElements 16 (mlmeBuffer [0x02, 0xc8, 1, 0]) clearedIes = none ∧
    (parseInformationElements 16 (mlmeBuffer [0x0c, 0xc8, 1, 0, 0, 0, 0, 0, 0, 0, 0xff, 0xff, 0, 0]) clearedIes).map
      (fun r => (r.1, r.2.hoppingSequenceLen)) =
      some (18, 65535) := by
  refine ⟨?_, ?_, ?_⟩
  · exact Option.isNone_iff_eq_none.mp (by decide +kernel)
  · exact Option.isNone_iff_eq_none.mp (by decide +kernel)
  · decide +kernel

end CSync.InformationElements
