import CSync.Lib.Count
import CSync.Tsch.Links

/-! The schedule over sequences of calls. Neighbors count the links to them as long as every Tx link that is
    added finds an entry for its neighbor and room in an eight-bit counter (`Countable`). -/

namespace CSync.TschSchedule
open Lib List

variable {A : Type} [DecidableEq A] {c : Config A}

/-- Links that transmit to an address, and those of them that are not shared. -/
def txTo (a : A) (k : Link A) : Bool := optionTx k.linkOptions && decide (k.addr = a)
def dedicatedTo (a : A) (k : Link A) : Bool := txTo a k && !optionShared k.linkOptions

/-! ### Neighbors that count -/

/-- The neighbors and the numbers of links they should count. -/
structure Counted (l : List (Neighbor A)) (tx dedicated : A → Nat) : Prop where
  addrs : (l.map Neighbor.addr).Nodup
  source : ∀ n ∈ l, ∀ n' ∈ l, n.isTimeSource = true → n'.isTimeSource = true → n.addr = n'.addr
  counts : ∀ n ∈ l, n.txLinksCount.toNat = tx n.addr ∧ n.dedicatedTxLinksCount.toNat = dedicated n.addr
  present : ∀ a, 0 < tx a → ∃ n ∈ l, n.addr = a
  le : ∀ a, dedicated a ≤ tx a
  lt : ∀ a, tx a < 256

variable {l : List (Neighbor A)} {tx dedicated tx' dedicated' : A → Nat}

omit [DecidableEq A] in
theorem Counted.map (h : Counted l tx dedicated) (f : Neighbor A → Neighbor A) (haddr : ∀ n, (f n).addr = n.addr)
    (hsource : ∀ n ∈ l, ∀ n' ∈ l, (f n).isTimeSource = true → (f n').isTimeSource = true → n.addr = n'.addr)
    (hcounts : ∀ n ∈ l, (f n).txLinksCount.toNat = tx' n.addr ∧ (f n).dedicatedTxLinksCount.toNat = dedicated' n.addr)
    (hpresent : ∀ a, 0 < tx' a → ∃ n ∈ l, n.addr = a) (hle : ∀ a, dedicated' a ≤ tx' a)
    (hlt : ∀ a, tx' a < 256) : Counted (l.map f) tx' dedicated' where
  addrs := by
    rw [map_map, map_congr_left fun n _ => show (Neighbor.addr ∘ f) n = n.addr from haddr n]
    exact h.addrs
  source := by
    intro n hn n' hn' hs hs'
    obtain ⟨m, hm, rfl⟩ := mem_map.mp hn
    obtain ⟨m', hm', rfl⟩ := mem_map.mp hn'
    rw [haddr, haddr]
    exact hsource m hm m' hm' hs hs'
  counts := by
    intro n hn
    obtain ⟨m, hm, rfl⟩ := mem_map.mp hn
    rw [haddr]
    exact hcounts m hm
  present a ha := by
    obtain ⟨n, hn, hna⟩ := hpresent a ha
    exact ⟨f n, mem_map_of_mem hn, (haddr n).trans hna⟩
  le := hle
  lt := hlt

omit [DecidableEq A] in
/-- A change that neither counters nor time sources take part in. -/
theorem Counted.map_same (h : Counted l tx dedicated) (f : Neighbor A → Neighbor A)
    (hf : ∀ n,
        (f n).addr = n.addr ∧
        (f n).isTimeSource = n.isTimeSource ∧
        (f n).txLinksCount = n.txLinksCount ∧
        (f n).dedicatedTxLinksCount = n.dedicatedTxLinksCount) : Counted (l.map f) tx dedicated := by
  refine h.map f (fun n => (hf n).1) (fun n hn n' hn' hs hs' => ?_) (fun n hn => ?_) h.present h.le h.lt
  · rw [(hf n).2.1] at hs
    rw [(hf n').2.1] at hs'
    exact h.source n hn n' hn' hs hs'
  · rw [(hf n).2.2.1, (hf n).2.2.2]
    exact h.counts n hn

variable {s t : State c} {a : A} {sf : Fin c.maxSlotframes} {l : Fin c.maxLinks}

theorem queueGetNbr_none (h : queueGetNbr s a = none) : ∀ n ∈ s.neighborList, n.addr ≠ a := by
  intro n hn
  simpa using find?_eq_none.mp h n hn

theorem queueGetNbr_some {n : Neighbor A} (h : queueGetNbr s a = some n) : n ∈ s.neighborList ∧ n.addr = a :=
  ⟨mem_of_find?_eq_some h, by simpa using find?_some h⟩

theorem Counted.queueAddNbr (h : Counted s.neighborList tx dedicated) (a : A) :
    Counted (queueAddNbr a s).neighborList tx dedicated := by
  rw [TschSchedule.queueAddNbr]
  split
  · exact h
  next hnone =>
    have hno := queueGetNbr_none hnone
    split
    · have htx : tx a = 0 := by
        by_contra hne
        obtain ⟨n, hn, hna⟩ := h.present a (Nat.pos_of_ne_zero hne)
        exact hno n hn hna
      have hcases : ∀ n ∈ s.neighborList ++ [newNbr c a], n ∈ s.neighborList ∨ n = newNbr c a := by
        intro n hn
        rw [mem_append, mem_singleton] at hn
        exact hn
      refine ⟨?_, fun n hn n' hn' hs hs' => ?_, fun n hn => ?_, fun b hb => ?_, h.le, h.lt⟩
      · rw [map_append, map_singleton]
        refine nodup_append.mpr ⟨h.addrs, nodup_singleton _, ?_⟩
        rintro x hx y hy rfl
        obtain ⟨n, hn, hnx⟩ := mem_map.mp hx
        exact hno n hn (hnx.trans (mem_singleton.mp hy))
      · rcases hcases n hn with hn | rfl
        · rcases hcases n' hn' with hn' | rfl
          · exact h.source n hn n' hn' hs hs'
          · cases hs'
        · cases hs
      · rcases hcases n hn with hn | rfl
        · exact h.counts n hn
        · have hle := h.le a
          refine ⟨?_, ?_⟩
          · show 0 = tx a
            omega
          · show 0 = dedicated a
            omega
      · obtain ⟨n, hn, hnb⟩ := h.present b hb
        exact ⟨n, mem_append_left _ hn, hnb⟩
    · exact h

/-- There is a neighbor with the address. -/
def HasNbr (a : A) (s : State c) : Prop := ∃ n ∈ s.neighborList, n.addr = a

instance (a : A) (s : State c) : Decidable (HasNbr a s) :=
  inferInstanceAs (Decidable (∃ n ∈ s.neighborList, n.addr = a))

theorem hasNbr_queueAddNbr
    (h : HasNbr a s ∨ s.neighborList.length < c.maxNeighborQueues) : HasNbr a (queueAddNbr a s) := by
  rw [queueAddNbr]
  split
  next n hn => exact ⟨n, queueGetNbr_some hn⟩
  next hnone =>
    have hno := queueGetNbr_none hnone
    rcases h with ⟨n, hn, hna⟩ | hroom
    · exact absurd hna (hno n hn)
    · rw [if_pos hroom]
      exact ⟨newNbr c a, mem_append_right _ (mem_singleton_self _), rfl⟩

theorem Counted.add (h : Counted s.neighborList tx dedicated) (hnbr : HasNbr a s)
    {shared : Bool} (hlt : tx a < 255) (htx : ∀ b, tx' b = tx b + if b = a then 1 else 0)
    (hded : ∀ b, dedicated' b = dedicated b + if b = a ∧ shared = false then 1 else 0) :
    Counted (updateNbr a (fun n => { n with
      txLinksCount := n.txLinksCount + 1
      dedicatedTxLinksCount := n.dedicatedTxLinksCount + if shared then 0 else 1 }) s).neighborList
      tx' dedicated' := by
  refine h.map _ (fun n => ?_) (fun n hn n' hn' hs hs' => ?_) (fun n hn => ?_) (fun b hb => ?_)
    (fun b => ?_) (fun b => ?_)
  · split <;> rfl
  · refine h.source n hn n' hn' ?_ ?_
    · split at hs <;> exact hs
    · split at hs' <;> exact hs'
  · obtain ⟨h1, h2⟩ := h.counts n hn
    rw [htx, hded]
    split
    next hna =>
      have hle := h.le a
      rw [hna] at h1 h2 ⊢
      refine ⟨?_, ?_⟩
      · rw [toNat_succ_uint8 (by omega), h1]
      · cases shared with
        | true => simp [h2]
        | false =>
          rw [if_neg Bool.false_ne_true, toNat_succ_uint8 (by omega), h2, if_pos ⟨rfl, rfl⟩]
    next hna =>
      rw [if_neg fun h => hna h.1]
      exact ⟨h1, h2⟩
  · by_cases hba : b = a
    · subst hba
      exact hnbr
    · rw [htx, if_neg hba] at hb
      exact h.present b hb
  · have hle := h.le b
    rw [htx, hded]
    by_cases hba : b = a
    · rw [if_pos hba]
      split <;> omega
    · rw [if_neg hba, if_neg fun h => hba h.1]
      omega
  · have hb := h.lt b
    rw [htx]
    split
    next hba =>
      rw [hba]
      omega
    · omega

theorem Counted.remove (h : Counted s.neighborList tx dedicated) {shared : Bool}
    (htx : ∀ b, tx b = tx' b + if b = a then 1 else 0)
    (hded : ∀ b, dedicated b = dedicated' b + if b = a ∧ shared = false then 1 else 0)
    (hle : ∀ b, dedicated' b ≤ tx' b) : Counted (updateNbr a (fun n => { n with
      txLinksCount := n.txLinksCount - 1
      dedicatedTxLinksCount := n.dedicatedTxLinksCount - if shared then 0 else 1 }) s).neighborList
      tx' dedicated' := by
  refine h.map _ (fun n => ?_) (fun n hn n' hn' hs hs' => ?_) (fun n hn => ?_) (fun b hb => ?_) hle (fun b => ?_)
  · split <;> rfl
  · refine h.source n hn n' hn' ?_ ?_
    · split at hs <;> exact hs
    · split at hs' <;> exact hs'
  · obtain ⟨h1, h2⟩ := h.counts n hn
    have htx := htx n.addr
    have hded := hded n.addr
    split
    next hna =>
      rw [hna] at h1 h2 htx hded ⊢
      rw [if_pos rfl] at htx
      refine ⟨?_, ?_⟩
      · rw [toNat_pred_uint8 (by omega)]
        omega
      · cases shared with
        | true =>
          rw [if_neg (by simp)] at hded
          simp only [if_true, UInt8.sub_zero]
          omega
        | false =>
          rw [if_pos ⟨rfl, rfl⟩] at hded
          rw [if_neg Bool.false_ne_true, toNat_pred_uint8 (by omega)]
          omega
    next hna =>
      rw [if_neg hna] at htx
      rw [if_neg fun h => hna h.1] at hded
      omega
  · refine h.present b ?_
    rw [htx]
    omega
  · have := h.lt b
    rw [htx] at this
    omega

/-! ### The invariant -/

structure Inv (s : State c) : Prop where
  linked : Linked s
  counted : Counted s.neighborList (fun a => countLinks (txTo a) s) (fun a => countLinks (dedicatedTo a) s)

omit [DecidableEq A] in
theorem countLinks_le {p q : Link A → Bool} (h : ∀ k, p k = true → q k = true) (s : State c) :
    countLinks p s ≤ countLinks q s := countP_mono_left fun l _ => h (s.link l)

theorem dedicated_le (a : A) (s : State c) : countLinks (dedicatedTo a) s ≤ countLinks (txTo a) s := by
  refine countLinks_le (fun k hk => ?_) s
  rw [dedicatedTo, Bool.and_eq_true] at hk
  exact hk.1

omit [DecidableEq A] in
theorem clearCurrent_neighborList (l : Fin c.maxLinks) (s : State c) :
    (clearCurrent l s).neighborList = s.neighborList := by
  rw [clearCurrent]
  split <;> rfl

theorem txTo_ite (a : A) (k : Link A) (h : optionTx k.linkOptions = true) :
    (if txTo a k then 1 else 0) = if a = k.addr then 1 else 0 := by
  by_cases ha : a = k.addr
  · simp [txTo, h, ha]
  · simp [txTo, ha, Ne.symm ha]

theorem dedicatedTo_ite (a : A) (k : Link A) (h : optionTx k.linkOptions = true) :
    (if dedicatedTo a k then 1 else 0) =
      if a = k.addr ∧ optionShared k.linkOptions = false then 1 else 0 := by
  by_cases ha : a = k.addr
  · simp [dedicatedTo, txTo, h, ha]
  · simp [dedicatedTo, txTo, ha, Ne.symm ha]

theorem Inv.uncountLink (h : Inv s) (hlinked : Linked t) {k : Link A} (hnbrs : t.neighborList = s.neighborList)
    (hcount : ∀ p, countLinks p s = countLinks p t + if p k then 1 else 0) :
    Inv (uncountLink k.linkOptions k.addr t) := by
  have hsame := sameSchedule_uncountLink k.linkOptions k.addr t
  refine ⟨hsame.linked hlinked, ?_⟩
  simp only [hsame.countLinks]
  rw [TschSchedule.uncountLink]
  split
  next htx =>
    have hold : Counted t.neighborList (fun a => countLinks (txTo a) s) (fun a => countLinks (dedicatedTo a) s) := by
      rw [hnbrs]
      exact h.counted
    refine (hold.queueAddNbr k.addr).remove (fun b => ?_) (fun b => ?_) fun b => dedicated_le b t
    · rw [hcount, txTo_ite b k htx]
    · rw [hcount, dedicatedTo_ite b k htx]
  next htx =>
    have hzero : ∀ p : Link A → Bool, p k = false → countLinks p t = countLinks p s := by
      intro p hp
      rw [hcount, hp]
      rfl
    have h1 : ∀ a, countLinks (txTo a) t = countLinks (txTo a) s :=
      fun a => hzero _ (by rw [txTo, Bool.eq_false_iff.mpr htx, Bool.false_and])
    have h2 : ∀ a, countLinks (dedicatedTo a) t = countLinks (dedicatedTo a) s :=
      fun a => hzero _ (by rw [dedicatedTo, txTo, Bool.eq_false_iff.mpr htx, Bool.false_and, Bool.false_and])
    simp only [h1, h2]
    rw [hnbrs]
    exact h.counted

theorem Linked.removeLink (h : Linked s) (hsf : sf ∈ s.slotframeList) (hl : s.linkMemb.count l ≠ 0) :
    Linked (removeLink sf l s) := by
  rw [TschSchedule.removeLink]
  split
  next hhandle =>
    have hmem := h.mem_of_handle hsf hl hhandle
    have hclear := sameSchedule_clearCurrent l s
    refine (sameSchedule_uncountLink _ _ _).linked ((hclear.linked h).unlinked ?_ ?_)
    · rw [hclear.slotframeList]
      exact hsf
    · rw [hclear.slotframe]
      exact hmem
  · exact h

theorem Inv.removeLink (h : Inv s)
    (hsf : sf ∈ s.slotframeList) (hl : s.linkMemb.count l ≠ 0) : Inv (removeLink sf l s) := by
  rw [TschSchedule.removeLink]
  split
  next hhandle =>
    have hmem := h.linked.mem_of_handle hsf hl hhandle
    have hclear := sameSchedule_clearCurrent l s
    have hlinked := hclear.linked h.linked
    have hsf' : sf ∈ (clearCurrent l s).slotframeList := by
      rw [hclear.slotframeList]
      exact hsf
    have hmem' : l ∈ ((clearCurrent l s).slotframe sf).linksList := by
      rw [hclear.slotframe]
      exact hmem
    refine h.uncountLink (hlinked.unlinked hsf' hmem') (clearCurrent_neighborList l s) fun p => ?_
    have := hlinked.countLinks_unlinked hsf' hmem' p
    rw [hclear.countLinks, hclear.link] at this
    exact this
  · exact h

omit [DecidableEq A] in
theorem getLinkByTimeslot_some {timeslot : UInt16} (h : getLinkByTimeslot s sf timeslot = some l) :
    l ∈ (s.slotframe sf).linksList ∧ (s.link l).timeslot = timeslot :=
  ⟨mem_of_find?_eq_some h, by simpa using find?_some h⟩

theorem slotframeList_removeLink (sf : Fin c.maxSlotframes) (l : Fin c.maxLinks) (s : State c) :
    (TschSchedule.removeLink sf l s).slotframeList = s.slotframeList := by
  rw [TschSchedule.removeLink]
  split
  · rw [(sameSchedule_uncountLink _ _ _).slotframeList]
    exact (sameSchedule_clearCurrent l s).slotframeList
  · rfl

theorem linksList_removeLink (hhandle : (s.link l).slotframeHandle = (s.slotframe sf).handle) :
    ((TschSchedule.removeLink sf l s).slotframe sf).linksList = (s.slotframe sf).linksList.erase l := by
  rw [TschSchedule.removeLink, if_pos hhandle, (sameSchedule_uncountLink _ _ _).slotframe]
  show ((unlinkLink sf l (clearCurrent l s)).slotframe sf).linksList = _
  rw [slotframe_unlinkLink_self, (sameSchedule_clearCurrent l s).slotframe]

theorem link_removeLink (sf : Fin c.maxSlotframes) (l : Fin c.maxLinks) (s : State c) :
    (TschSchedule.removeLink sf l s).link = s.link := by
  rw [TschSchedule.removeLink]
  split
  · rw [(sameSchedule_uncountLink _ _ _).link]
    exact (sameSchedule_clearCurrent l s).link
  · rfl

/-- What a removal keeps besides `Linked` does not matter to the walks over links. -/
structure Removable (P : State c → Prop) : Prop where
  linked : ∀ {s}, P s → Linked s
  removeLink : ∀ {s sf l}, P s → sf ∈ s.slotframeList → s.linkMemb.count l ≠ 0 → P (removeLink sf l s)

theorem removable_linked : Removable (Linked (c := c)) := ⟨id, Linked.removeLink⟩

theorem removable_inv : Removable (Inv (c := c)) := ⟨Inv.linked, Inv.removeLink⟩

section
variable {P : State c → Prop} (hP : Removable P)
include hP

theorem Removable.removeLinkByTimeslot (h : P s) (hsf : sf ∈ s.slotframeList) (timeslot : UInt16) :
    P (removeLinkByTimeslot sf timeslot s) ∧
    (TschSchedule.removeLinkByTimeslot sf timeslot s).slotframeList = s.slotframeList ∧
    ∀ k ∈ ((TschSchedule.removeLinkByTimeslot sf timeslot s).slotframe sf).linksList,
      ((TschSchedule.removeLinkByTimeslot sf timeslot s).link k).timeslot ≠ timeslot := by
  have hlinked := hP.linked h
  rw [TschSchedule.removeLinkByTimeslot]
  split
  next hnone => exact ⟨h, rfl, fun k hk => by simpa using find?_eq_none.mp hnone k hk⟩
  next l hl =>
    obtain ⟨hmem, htimeslot⟩ := getLinkByTimeslot_some hl
    have hcount := hlinked.count_of_mem (mem_allLinks.mpr ⟨sf, hsf, hmem⟩)
    refine ⟨hP.removeLink h hsf hcount, slotframeList_removeLink sf l s, fun k hk => ?_⟩
    rw [linksList_removeLink (hlinked.linkHandles sf hsf l hmem)] at hk
    rw [link_removeLink, ← htimeslot]
    exact hlinked.timeslot_ne hsf hmem hk

theorem Removable.removeLinks : ∀ {fuel : Nat} {s : State c}, P s →
    sf ∈ s.slotframeList → (s.slotframe sf).linksList.length ≤ fuel →
      P (removeLinks sf fuel s) ∧ (TschSchedule.removeLinks sf fuel s).slotframeList = s.slotframeList ∧
        ((TschSchedule.removeLinks sf fuel s).slotframe sf).linksList = []
  | 0, s, h, _, hlen => ⟨h, rfl, eq_nil_of_length_eq_zero (Nat.le_zero.mp hlen)⟩
  | fuel + 1, s, h, hsf, hlen => by
    rw [TschSchedule.removeLinks]
    split
    next hnil => exact ⟨h, rfl, hnil⟩
    next l ls hcons =>
      have hlinked := hP.linked h
      have hmem : l ∈ (s.slotframe sf).linksList := by
        rw [hcons]
        exact mem_cons_self
      have hcount := hlinked.count_of_mem (mem_allLinks.mpr ⟨sf, hsf, hmem⟩)
      have hlist := slotframeList_removeLink sf l s
      have hless : ((TschSchedule.removeLink sf l s).slotframe sf).linksList.length ≤ fuel := by
        rw [linksList_removeLink (hlinked.linkHandles sf hsf l hmem), length_erase_of_mem hmem]
        omega
      obtain ⟨hkept, hsame, hempty⟩ :=
        Removable.removeLinks (hP.removeLink h hsf hcount) (by rw [hlist]; exact hsf) hless
      exact ⟨hkept, hsame.trans hlist, hempty⟩

end

/-! ### The calls -/

/-- A Tx link that is added can be counted: if there is a link to be had, there is a neighbor for it or room
    for one, and the counter has room. -/
def Countable (s : State c) : Call c → Prop
  | .addLink sf args => optionTx args.linkOptions = true →
      (removeLinkByTimeslot sf args.timeslot s).linkMemb.freeBlock.isSome = true →
      countLinks (txTo args.addr) (removeLinkByTimeslot sf args.timeslot s) < 255 ∧
      (HasNbr args.addr (removeLinkByTimeslot sf args.timeslot s) ∨
        (removeLinkByTimeslot sf args.timeslot s).neighborList.length < c.maxNeighborQueues)
  | _ => True

instance (s : State c) : (e : Call c) → Decidable (Countable s e)
  | .addLink sf args => inferInstanceAs (Decidable (optionTx args.linkOptions = true →
      (removeLinkByTimeslot sf args.timeslot s).linkMemb.freeBlock.isSome = true → _ ∧ (_ ∨ _)))
  | .addSlotframe _ _ => .isTrue trivial
  | .removeSlotframe _ => .isTrue trivial
  | .removeAllSlotframes => .isTrue trivial
  | .removeLink _ _ => .isTrue trivial
  | .queueAddPacket _ _ => .isTrue trivial
  | .queueRemovePacketFromQueue _ => .isTrue trivial
  | .queueUpdateTimeSource _ => .isTrue trivial
  | .queueFreeUnusedNeighbors => .isTrue trivial
  | .setCoordinator _ => .isTrue trivial

theorem Inv.insertLink (h : Inv s) {args : LinkArgs A} (hsf : sf ∈ s.slotframeList)
    (htimeslot : ∀ k ∈ (s.slotframe sf).linksList, (s.link k).timeslot ≠ args.timeslot)
    (hok : optionTx args.linkOptions = true → s.linkMemb.freeBlock.isSome = true →
        countLinks (txTo args.addr) s < 255 ∧ (HasNbr args.addr s ∨ s.neighborList.length < c.maxNeighborQueues)) :
    Inv (insertLink sf args s).2 := by
  rw [TschSchedule.insertLink, Pool.alloc]
  cases hfree : s.linkMemb.freeBlock with
  | none => exact h
  | some l =>
    show Inv (countLink args.linkOptions args.addr (insertedLink sf l args s))
    have hlinked := h.linked.inserted hsf hfree htimeslot
    have hcount : ∀ p, countLinks p (insertedLink sf l args s) = _ :=
      fun p => h.linked.countLinks_inserted hsf hfree p
    have hlink := link_insertedLink_self sf l args s
    have hsame := sameSchedule_countLink args.linkOptions args.addr (insertedLink sf l args s)
    refine ⟨hsame.linked hlinked, ?_⟩
    simp only [hsame.countLinks]
    rw [countLink]
    split
    next htx =>
      obtain ⟨hlt, hnbr⟩ := hok htx (by rw [hfree]; rfl)
      have hold : Counted (insertedLink sf l args s).neighborList (fun a => countLinks (txTo a) s)
        (fun a => countLinks (dedicatedTo a) s) := h.counted
      have htx' : optionTx ((insertedLink sf l args s).link l).linkOptions = true := by
        rw [hlink]
        exact htx
      refine (hold.queueAddNbr args.addr).add (hasNbr_queueAddNbr hnbr) hlt (fun b => ?_) fun b => ?_
      · rw [hcount, txTo_ite b _ htx', hlink]
      · rw [hcount, dedicatedTo_ite b _ htx', hlink]
    next htx =>
      have hno : ∀ a, txTo a ((insertedLink sf l args s).link l) = false := by
        intro a
        rw [hlink, txTo, Bool.eq_false_iff.mpr htx, Bool.false_and]
      have hno' : ∀ a, dedicatedTo a ((insertedLink sf l args s).link l) = false := by
        intro a
        rw [dedicatedTo, hno, Bool.false_and]
      simp only [hcount, hno, hno', Bool.false_eq_true, if_false, add_zero]
      exact h.counted

theorem Inv.addSlotframe (h : Inv s) (handle size : UInt16) : Inv (addSlotframe handle size s).2 := by
  rw [TschSchedule.addSlotframe]
  split
  next div _ hnone =>
    rw [Pool.alloc]
    cases hfree : s.slotframeMemb.freeBlock with
    | none => exact h
    | some sf =>
      have hhandle : ∀ a ∈ s.slotframeList, (s.slotframe a).handle ≠ handle := by
        intro a ha
        simpa using find?_eq_none.mp hnone a ha
      obtain ⟨hlinked, hall⟩ := h.linked.insertedSlotframe hfree hhandle
      refine ⟨hlinked, ?_⟩
      have hcount : ∀ p, countLinks p (insertedSlotframe sf handle div s) = countLinks p s := by
        intro p
        rw [countLinks, hall]
        rfl
      show Counted s.neighborList (fun a => countLinks _ (insertedSlotframe sf handle div s))
        (fun a => countLinks _ (insertedSlotframe sf handle div s))
      simp only [hcount]
      exact h.counted
  · exact h

theorem Inv.removeSlotframe (h : Inv s) (hsf : sf ∈ s.slotframeList) : Inv (removeSlotframe sf s) ∧
      (TschSchedule.removeSlotframe sf s).slotframeList = s.slotframeList.erase sf := by
  rw [TschSchedule.removeSlotframe]
  obtain ⟨hinv, hsame, hempty⟩ := removable_inv.removeLinks h hsf le_rfl
  set u := TschSchedule.removeLinks sf (s.slotframe sf).linksList.length s with hu
  obtain ⟨hlinked, hall⟩ := hinv.linked.removedSlotframe (by rw [hsame]; exact hsf) hempty
  refine ⟨⟨hlinked, ?_⟩, by rw [← hsame]; rfl⟩
  have hcount : ∀ p, countLinks p (unlinkSlotframe sf (freeSlotframe sf u)) = countLinks p u :=
    fun p => hall.countP_eq _
  simp only [hcount]
  exact hinv.counted

theorem Inv.removeSlotframes : ∀ {fuel : Nat} {s : State c}, Inv s → Inv (removeSlotframes fuel s)
  | 0, _, h => h
  | fuel + 1, s, h => by
    rw [TschSchedule.removeSlotframes]
    split
    · exact h
    next sf _ hcons => exact Inv.removeSlotframes (h.removeSlotframe (by rw [hcons]; exact mem_cons_self)).1

theorem Inv.nbrs (h : Inv s) (hsame : SameSchedule s t) (hcounted : Counted t.neighborList (fun a => countLinks (txTo
    a) s) (fun a => countLinks (dedicatedTo a) s)) : Inv t := by
  refine ⟨hsame.linked h.linked, ?_⟩
  simp only [hsame.countLinks]
  exact hcounted

theorem Inv.queueAddPacket (h : Inv s) (a : A) (hasMemory : Bool) : Inv (queueAddPacket a hasMemory s) := by
  refine h.nbrs ((sameSchedule_queueAddNbr a s).trans (sameSchedule_updateNbr a _ _)) ?_
  refine (h.counted.queueAddNbr a).map_same _ fun n => ?_
  split
  · dsimp only
    split <;> exact ⟨rfl, rfl, rfl, rfl⟩
  · exact ⟨rfl, rfl, rfl, rfl⟩

theorem Inv.queueFreeUnusedNeighbors (h : Inv s) : Inv (queueFreeUnusedNeighbors s) := by
  refine h.nbrs ⟨rfl, rfl, rfl⟩ ?_
  have hmem : ∀ n ∈ s.neighborList.filter (fun n => !n.unused), n ∈ s.neighborList := fun n hn => (mem_filter.mp hn).1
  refine ⟨h.counted.addrs.sublist (filter_sublist.map _), ?_, ?_, fun a ha => ?_, h.counted.le, h.counted.lt⟩
  · exact fun n hn n' hn' => h.counted.source n (hmem n hn) n' (hmem n' hn')
  · exact fun n hn => h.counted.counts n (hmem n hn)
  · obtain ⟨n, hn, hna⟩ := h.counted.present a ha
    refine ⟨n, mem_filter.mpr ⟨hn, ?_⟩, hna⟩
    have hcount := (h.counted.counts n hn).1
    rw [hna] at hcount
    -- It has a link.
    have hne : n.txLinksCount ≠ 0 := by
      intro hzero
      rw [hzero] at hcount
      have hcount : 0 = countLinks (txTo a) s := hcount
      omega
    simp [Neighbor.unused, hne]

theorem Inv.setTimeSource (h : Inv s) (old new : Option A)
    (hold : ∀ n ∈ s.neighborList, n.isTimeSource = true → some n.addr = old) (f : Neighbor A → Neighbor A)
    (haddr : ∀ n, (f n).addr = n.addr) (hcounts : ∀ n, (f n).txLinksCount = n.txLinksCount ∧
      (f n).dedicatedTxLinksCount = n.dedicatedTxLinksCount) (hsource : ∀ n, (f n).isTimeSource = true →
      some n.addr = new ∨ some n.addr ≠ old ∧ n.isTimeSource = true) :
    Inv { s with neighborList := s.neighborList.map f } := by
  have hnew : ∀ n ∈ s.neighborList, (f n).isTimeSource = true → some n.addr = new := by
    intro n hn hs
    rcases hsource n hs with hn' | ⟨hne, hs'⟩
    · exact hn'
    · exact absurd (hold n hn hs') hne
  refine h.nbrs ⟨rfl, rfl, rfl⟩ (h.counted.map f haddr (fun n hn n' hn' hs hs' => ?_) (fun n hn => ?_)
    h.counted.present h.counted.le h.counted.lt)
  · exact Option.some.inj ((hnew n hn hs).trans (hnew n' hn' hs').symm)
  · rw [(hcounts n).1, (hcounts n).2]
    exact h.counted.counts n hn

theorem queueGetTimeSource_some (h : Inv s) :
    ∀ n ∈ s.neighborList, n.isTimeSource = true → some n.addr = (queueGetTimeSource s).map Neighbor.addr := by
  intro n hn hs
  rw [queueGetTimeSource]
  cases hfind : s.neighborList.find? Neighbor.isTimeSource with
  | none => exact absurd hs (by simpa using find?_eq_none.mp hfind n hn)
  | some o =>
    have ho := mem_of_find?_eq_some hfind
    exact congrArg some (h.counted.source n hn o ho hs (find?_some hfind))

theorem queueGetTimeSource_queueAddNbr (a : A) (s : State c) :
    queueGetTimeSource (queueAddNbr a s) = queueGetTimeSource s := by
  rw [queueAddNbr]
  split
  · rfl
  · split
    · rw [queueGetTimeSource, queueGetTimeSource, find?_append]
      cases s.neighborList.find? Neighbor.isTimeSource <;> rfl
    · rfl

theorem Inv.queueUpdateTimeSource (h : Inv s) (newAddr : Option A) : Inv (queueUpdateTimeSource newAddr s) := by
  rw [TschSchedule.queueUpdateTimeSource]
  split
  · exact h
  dsimp only
  cases newAddr with
  | none =>
    dsimp only
    cases hold : queueGetTimeSource s with
    | none => exact h
    | some o =>
      dsimp only
      refine h.setTimeSource (some o.addr) none (fun n hn hs => ?_) _ (fun n => ?_) (fun n => ?_) fun n hs => ?_
      · have := queueGetTimeSource_some h n hn hs
        rwa [hold] at this
      · split <;> rfl
      · split <;> exact ⟨rfl, rfl⟩
      · split at hs
        · cases hs
        next hne => exact .inr ⟨fun heq => hne (Option.some.inj heq), hs⟩
  | some a =>
    have hadd : Inv (queueAddNbr a s) := h.nbrs (sameSchedule_queueAddNbr a s) (h.counted.queueAddNbr a)
    have hsource := queueGetTimeSource_some hadd
    rw [queueGetTimeSource_queueAddNbr] at hsource
    dsimp only
    split
    · exact hadd
    · split
      · exact hadd
      next hne =>
        cases hold : queueGetTimeSource s with
        | none =>
          rw [hold] at hsource
          refine hadd.setTimeSource none (some a) hsource _ (fun n => ?_) (fun n => ?_) fun n hs => ?_
          · split <;> rfl
          · split <;> exact ⟨rfl, rfl⟩
          · split at hs
            next hna => exact .inl (congrArg some hna)
            · exact .inr ⟨nofun, hs⟩
        | some o =>
          rw [hold] at hsource hne
          dsimp only
          rw [updateNbr, updateNbr]
          rw [map_map]
          refine hadd.setTimeSource (some o.addr) (some a) hsource _ (fun n => ?_) (fun n => ?_) fun n hs => ?_
          · simp only [Function.comp]
            split <;> split <;> rfl
          · simp only [Function.comp]
            split <;> split <;> exact ⟨rfl, rfl⟩
          · simp only [Function.comp] at hs
            by_cases hna : n.addr = a
            · exact .inl (congrArg some hna)
            · rw [if_neg hna] at hs
              split at hs
              · cases hs
              next hno => exact .inr ⟨fun heq => hno (Option.some.inj heq), hs⟩

/-- Every call keeps the invariant, as long as new Tx links can be counted. -/
theorem Inv.step {e : Call c} (h : Inv s) (hok : Countable s e) (hstep : step s e = some t) : Inv t := by
  cases e with
  | addSlotframe handle size =>
    cases hstep
    exact h.addSlotframe handle size
  | removeSlotframe sf =>
    rw [TschSchedule.step] at hstep
    split at hstep
    next hsf =>
      cases hstep
      exact (h.removeSlotframe hsf).1
    · cases hstep
  | removeAllSlotframes =>
    cases hstep
    exact h.removeSlotframes
  | addLink sf args =>
    rw [TschSchedule.step] at hstep
    split at hstep
    next hsf =>
      cases hstep
      obtain ⟨hinv, hlist, htimeslot⟩ := removable_inv.removeLinkByTimeslot h hsf args.timeslot
      exact hinv.insertLink (by rw [hlist]; exact hsf) htimeslot hok
    · cases hstep
  | removeLink sf l =>
    rw [TschSchedule.step] at hstep
    split at hstep
    next hptr =>
      cases hstep
      exact h.removeLink hptr.1 hptr.2
    · cases hstep
  | queueAddPacket a hasMemory =>
    cases hstep
    exact h.queueAddPacket a hasMemory
  | queueRemovePacketFromQueue a =>
    cases hstep
    refine h.nbrs (sameSchedule_updateNbr a _ s) (h.counted.map_same _ fun n => ?_)
    split <;> exact ⟨rfl, rfl, rfl, rfl⟩
  | queueUpdateTimeSource newAddr =>
    cases hstep
    exact h.queueUpdateTimeSource newAddr
  | queueFreeUnusedNeighbors =>
    cases hstep
    exact h.queueFreeUnusedNeighbors
  | setCoordinator enable =>
    cases hstep
    exact h.nbrs ⟨rfl, rfl, rfl⟩ h.counted

theorem inv_init : Inv (init c) := by
  set s : State c :=
    { linkMemb := Pool.init ⟨0, c.ebAddress, 0, 0, 0, 0, .normal⟩
      slotframeMemb := Pool.init ⟨0, ⟨0, 0⟩, []⟩
      slotframeList := []
      currentLinkHandle := 0
      currentLink := none
      neighborList := []
      isCoordinator := false } with hs
  have h : Inv s :=
    ⟨⟨Pool.owns_init _, Pool.owns_init _, nofun, nofun,
      nofun⟩,
      ⟨nodup_nil, nofun, nofun, fun a ha => absurd ha (lt_irrefl 0),
        fun _ => le_refl 0, fun _ => Nat.succ_pos _⟩⟩
  have heb : Inv (queueAddNbr c.ebAddress s) :=
    h.nbrs (sameSchedule_queueAddNbr _ s) (h.counted.queueAddNbr _)
  exact heb.nbrs (sameSchedule_queueAddNbr _ _) (heb.counted.queueAddNbr _)

/-! ### Over every run -/

/-- What is to hold of the schedule between calls. -/
structure Consistent (s : State c) : Prop where
  handles : (s.slotframeList.map fun sf => (s.slotframe sf).handle).Nodup
  timeslots : ∀ sf ∈ s.slotframeList, ((s.slotframe sf).linksList.map fun l => (s.link l).timeslot).Nodup
  owned : ∀ l, s.linkMemb.count l ≠ 0 → ∃ sf ∈ s.slotframeList, l ∈ (s.slotframe sf).linksList ∧
    ∀ sf' ∈ s.slotframeList, l ∈ (s.slotframe sf').linksList → sf' = sf
  timeSource : (s.neighborList.filter Neighbor.isTimeSource).length ≤ 1
  counts : ∀ n ∈ s.neighborList, n.txLinksCount.toNat = countLinks (txTo n.addr) s ∧
    n.dedicatedTxLinksCount.toNat = countLinks (dedicatedTo n.addr) s

theorem Inv.consistent (h : Inv s) : Consistent s where
  handles := List.Nodup.map_on (fun a ha b hb => h.linked.handles a ha b hb) h.linked.slotframes.nodup
  timeslots := h.linked.timeslots
  owned l hl := by
    obtain ⟨sf, hsf, hmem⟩ := mem_allLinks.mp (h.linked.mem_of_count hl)
    exact ⟨sf, hsf, hmem, fun sf' hsf' hmem' => h.linked.slotframe_unique hsf' hsf hmem' hmem⟩
  timeSource := by
    have hnodup : ((s.neighborList.filter Neighbor.isTimeSource).map Neighbor.addr).Nodup :=
      h.counted.addrs.sublist (filter_sublist.map _)
    rcases hl : s.neighborList.filter Neighbor.isTimeSource with _ | ⟨n, _ | ⟨n', ns⟩⟩
    · exact Nat.zero_le 1
    · exact le_refl 1
    · have hn : n ∈ s.neighborList.filter Neighbor.isTimeSource := by rw [hl]; simp
      have hn' : n' ∈ s.neighborList.filter Neighbor.isTimeSource := by rw [hl]; simp
      rw [mem_filter] at hn hn'
      have heq := h.counted.source n hn.1 n' hn'.1 hn.2 hn'.2
      rw [hl, map_cons, map_cons, nodup_cons, heq] at hnodup
      exact absurd (mem_cons_self ..) hnodup.1
  counts := h.counted.counts

/-- Over every sequence of calls in which new Tx links can be counted. -/
theorem schedule_consistent {es : List (Call c)} {s : State c}
    (hrun : Run step Countable (init c) es s) : Consistent s :=
  (hrun.invariant (P := Inv) (fun _ _ _ h hok hstep => h.step hok hstep) inv_init).consistent

/-- Room for one neighbor beside the two virtual ones. -/
def threeNbrs : Config Nat := ⟨2, 4, 3, 4, 0, 255⟩

/-- Its first slotframe. -/
def slotframe0 : Fin threeNbrs.maxSlotframes := ⟨0, by decide⟩

/-- A Tx link that can be counted, and its removal by another at its timeslot. -/
def twoTxLinks : List (Call threeNbrs) :=
  [.addSlotframe 0 10, .addLink slotframe0 ⟨1, .normal, 7, 3, 0⟩,
    .addLink slotframe0 ⟨5, .normal, 7, 4, 0⟩, .addLink slotframe0 ⟨2, .normal, 7, 3, 0⟩, .queueUpdateTimeSource (some 7)]

theorem schedule_consistent_twoTxLinks : ∃ s : State threeNbrs, Run step Countable (init threeNbrs) twoTxLinks s ∧
    s.neighborList.map (fun n => (n.addr, n.txLinksCount, n.dedicatedTxLinksCount)) = [(0, 0, 0), (255, 0, 0), (7, 1,
    0)] ∧ Consistent s := by
  obtain ⟨s, hrun, hs⟩ : ∃ s : State threeNbrs, Run step Countable (init threeNbrs) twoTxLinks s ∧ _ :=
    exists_run (fun s e => decide (Countable s e)) (fun s : State threeNbrs =>
      decide (s.neighborList.map (fun n => (n.addr, n.txLinksCount, n.dedicatedTxLinksCount)) =
        [(0, 0, 0), (255, 0, 0), (7, 1, 0)])) (fun _ _ => of_decide_eq_true) (by decide)
  exact ⟨s, hrun, of_decide_eq_true hs, schedule_consistent hrun⟩

/-- The link is added while the pool of neighbors is full, its neighbor comes later. -/
def lateNbr : List (Call threeNbrs) :=
  [.addSlotframe 0 10, .queueUpdateTimeSource (some 1),
    .addLink slotframe0 ⟨1, .normal, 2, 3, 0⟩, .queueUpdateTimeSource none, .queueFreeUnusedNeighbors, .queueAddPacket 2 true]

theorem late_neighbor_uncounted : ∃ s : State threeNbrs, Run step (fun _ _ => True) (init threeNbrs) lateNbr s ∧
    (∃ n ∈ s.neighborList, n.addr = 2 ∧ n.txLinksCount = 0) ∧ countLinks (txTo 2) s = 1 ∧ ¬Consistent s := by
  obtain ⟨s, hrun, hs⟩ : ∃ s : State threeNbrs, Run step (fun _ _ => True) (init threeNbrs) lateNbr s ∧ _ :=
    exists_run (fun _ _ => true) (fun s : State threeNbrs =>
      decide ((∃ n ∈ s.neighborList, n.addr = 2 ∧ n.txLinksCount = 0) ∧ countLinks (txTo 2) s = 1))
      (fun _ _ _ => trivial) (by decide)
  obtain ⟨⟨n, hn, hna, hzero⟩, hcount⟩ := of_decide_eq_true hs
  refine ⟨s, hrun, ⟨n, hn, hna, hzero⟩, hcount, fun h => ?_⟩
  have := (h.counts n hn).1
  rw [hzero, hna, hcount] at this
  cases this

end CSync.TschSchedule
