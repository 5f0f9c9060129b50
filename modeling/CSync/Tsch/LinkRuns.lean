import CSync.Tsch.LinkCounts

/-! The lists of the schedule over every sequence of calls, whether new links can be counted or not. The
    removals end with the lists empty, and a link that is added takes its place among the timeslots. -/

namespace CSync.TschSchedule
open Lib List Option

section
variable {A : Type} [DecidableEq A] {c : Config A}

/-! ### Removals -/

variable {s : State c} {sf : Fin c.maxSlotframes}

theorem Linked.removeSlotframe (h : Linked s) (hsf : sf ∈ s.slotframeList) : Linked (removeSlotframe sf s) ∧
      (TschSchedule.removeSlotframe sf s).slotframeList = s.slotframeList.erase sf := by
  obtain ⟨hlinked, hsame, hempty⟩ := removable_linked.removeLinks h hsf le_rfl
  refine ⟨(hlinked.removedSlotframe (by rw [hsame]; exact hsf) hempty).1, ?_⟩
  rw [← hsame]
  rfl

/-- The loop over the slotframes ends with none left. -/
theorem Linked.removeSlotframes : ∀ {n : Nat} {s : State c}, Linked s → s.slotframeList.length ≤ n →
    Linked (removeSlotframes n s) ∧ (TschSchedule.removeSlotframes n s).slotframeList = []
  | 0, s, h, hlen => ⟨h, eq_nil_of_length_eq_zero (Nat.le_zero.mp hlen)⟩
  | n + 1, s, h, hlen => by
    rw [TschSchedule.removeSlotframes]
    split
    next hnil => exact ⟨h, hnil⟩
    next sf sfs hcons =>
      obtain ⟨hlinked, hlist⟩ := h.removeSlotframe (by rw [hcons]; exact mem_cons_self)
      refine Linked.removeSlotframes hlinked ?_
      rw [hlist, hcons, erase_cons_head]
      rw [hcons, length_cons] at hlen
      omega

section
variable (h : Linked s)
include h

theorem Linked.removeAllSlotframes : Linked (removeAllSlotframes s) ∧
    (TschSchedule.removeAllSlotframes s).slotframeList = [] := h.removeSlotframes le_rfl

theorem Linked.insertLink {args : LinkArgs A} (hsf : sf ∈ s.slotframeList) (htimeslot : ∀ k ∈
    (s.slotframe sf).linksList, (s.link k).timeslot ≠ args.timeslot) : Linked (insertLink sf args s).2 := by
  rw [TschSchedule.insertLink, Pool.alloc]
  cases hfree : s.linkMemb.freeBlock with
  | none => exact h
  | some l => exact (sameSchedule_countLink _ _ _).linked (h.inserted hsf hfree htimeslot)

theorem Linked.addLink (hsf : sf ∈ s.slotframeList)
    (args : LinkArgs A) : Linked (addLink sf args s).2 := by
  obtain ⟨hlinked, hlist, hfree⟩ := removable_linked.removeLinkByTimeslot h hsf args.timeslot
  exact hlinked.insertLink (by rw [hlist]; exact hsf) hfree

omit [DecidableEq A] in
theorem Linked.addSlotframe (handle size : UInt16) : Linked (addSlotframe handle size s).2 := by
  rw [TschSchedule.addSlotframe]
  split
  next div _ hnone =>
    rw [Pool.alloc]
    cases hfree : s.slotframeMemb.freeBlock with
    | none => exact h
    | some sf =>
      have hhandle : ∀ a ∈ s.slotframeList, (s.slotframe a).handle ≠ handle := by
        intro a ha
        simpa using find?_eq_none.mp hnone a ha
      exact (h.insertedSlotframe hfree hhandle).1
  · exact h

end

/-! ### Timeslots -/

/-- The timeslots of a slotframe. -/
def timeslotsOf (s : State c) (sf : Fin c.maxSlotframes) : List UInt16 :=
  (s.slotframe sf).linksList.map fun l => (s.link l).timeslot

/-- A timeslot takes the place of its own, or one that is left of `room`. -/
def placeTimeslot (room : Nat) (ts : List UInt16) (t : UInt16) : List UInt16 :=
  if t ∈ ts ∨ ts.length < room then ts.erase t ++ [t] else ts

omit [DecidableEq A] in
theorem allLinks_single (hlist : s.slotframeList = [sf]) : allLinks s = (s.slotframe sf).linksList := by
  rw [allLinks, hlist, flatMap_singleton]

omit [DecidableEq A] in
theorem Linked.timeslots_length_le (h : Linked s)
    (hlist : s.slotframeList = [sf]) : (timeslotsOf s sf).length ≤ c.maxLinks := by
  have hlen := h.links.length_le
  rw [allLinks_single hlist] at hlen
  rw [timeslotsOf, length_map]
  exact hlen

/-- Erasing a link erases its timeslot. -/
theorem map_erase_of_nodup {α β : Type} [DecidableEq α] [DecidableEq β] {f : α → β} {a : α} :
    ∀ {l : List α}, (l.map f).Nodup → a ∈ l → (l.erase a).map f = (l.map f).erase (f a)
  | [], _, hmem => by cases hmem
  | b :: l, hnodup, hmem => by
    rw [map_cons, nodup_cons] at hnodup
    by_cases hba : b = a
    · subst hba
      rw [erase_cons_head, map_cons, erase_cons_head]
    · have hmem : a ∈ l := by simpa [Ne.symm hba] using hmem
      have hne : f b ≠ f a := by
        intro heq
        exact hnodup.1 (heq ▸ mem_map_of_mem hmem)
      rw [erase_cons_tail (by simpa using hba), map_cons, map_cons,
        erase_cons_tail (by simpa using hne), map_erase_of_nodup hnodup.2 hmem]

theorem Linked.timeslots_insertLink (h : Linked s) (hlist : s.slotframeList = [sf]) {args : LinkArgs A} :
    timeslotsOf (TschSchedule.insertLink sf args s).2 sf =
      (if (timeslotsOf s sf).length < c.maxLinks then timeslotsOf s sf ++ [args.timeslot] else timeslotsOf s sf) ∧
    ((TschSchedule.insertLink sf args s).2.slotframe sf).size = (s.slotframe sf).size ∧
    (TschSchedule.insertLink sf args s).2.slotframeList = s.slotframeList := by
  have hall := allLinks_single hlist
  rw [TschSchedule.insertLink, Pool.alloc]
  cases hfree : s.linkMemb.freeBlock with
  | none =>
    have hfull : ¬(timeslotsOf s sf).length < c.maxLinks := by
      intro hlt
      rw [timeslotsOf, length_map, ← hall] at hlt
      obtain ⟨l, hl⟩ := h.links.exists_free hlt
      rw [hfree] at hl
      cases hl
    rw [if_neg hfull]
    exact ⟨rfl, rfl, rfl⟩
  | some l =>
    have hnew : l ∉ (s.slotframe sf).linksList := by
      rw [← hall]
      exact h.links.not_mem_of_free hfree
    have hroom : (timeslotsOf s sf).length < c.maxLinks := by
      have hlen := (h.links.take_insert hfree (List.Perm.refl (l :: allLinks s))).length_le
      rw [length_cons, hall] at hlen
      rw [timeslotsOf, length_map]
      omega
    have hsame := sameSchedule_countLink args.linkOptions args.addr (insertedLink sf l args s)
    have hself : (insertedLink sf l args s).slotframe sf =
        { s.slotframe sf with linksList := (s.slotframe sf).linksList ++ [l] } := by
      rw [slotframe_insertedLink, slotframe_listLink_self, erase_of_not_mem hnew]
    show timeslotsOf (countLink args.linkOptions args.addr (insertedLink sf l args s)) sf = _ ∧
      ((countLink args.linkOptions args.addr (insertedLink sf l args s)).slotframe sf).size = _ ∧
      (countLink args.linkOptions args.addr (insertedLink sf l args s)).slotframeList = _
    rw [if_pos hroom, timeslotsOf, hsame.slotframe, hsame.link, hsame.slotframeList, hself]
    refine ⟨?_, rfl, rfl⟩
    rw [map_append, map_singleton, link_insertedLink_self, timeslotsOf]
    congr 1
    refine map_congr_left fun k hk => ?_
    rw [link_insertedLink_of_ne]
    rintro rfl
    exact hnew hk

theorem Linked.timeslots_removeLinkByTimeslot (h : Linked s) (hsf : sf ∈ s.slotframeList) (timeslot : UInt16) :
    timeslotsOf (TschSchedule.removeLinkByTimeslot sf timeslot s) sf = (timeslotsOf s sf).erase timeslot ∧
      ((TschSchedule.removeLinkByTimeslot sf timeslot s).slotframe sf).size = (s.slotframe sf).size := by
  rw [TschSchedule.removeLinkByTimeslot]
  split
  next hnone =>
    refine ⟨(erase_of_not_mem fun hin => ?_).symm, rfl⟩
    obtain ⟨l, hl, hlt⟩ := mem_map.mp hin
    simpa [hlt] using find?_eq_none.mp hnone l hl
  next l hl =>
    obtain ⟨hmem, htimeslot⟩ := getLinkByTimeslot_some hl
    have hhandle := h.linkHandles sf hsf l hmem
    constructor
    · rw [timeslotsOf, linksList_removeLink hhandle, link_removeLink, map_erase_of_nodup (h.timeslots sf hsf) hmem,
        htimeslot]
      rfl
    · rw [TschSchedule.removeLink, if_pos hhandle, (sameSchedule_uncountLink _ _ _).slotframe]
      show ((unlinkLink sf l (clearCurrent l s)).slotframe sf).size = _
      rw [slotframe_unlinkLink_self, (sameSchedule_clearCurrent l s).slotframe]

theorem Linked.timeslots_addLink (h : Linked s) (hlist : s.slotframeList = [sf]) (args : LinkArgs A) :
    timeslotsOf (TschSchedule.addLink sf args s).2 sf = placeTimeslot c.maxLinks (timeslotsOf s sf) args.timeslot ∧
      ((TschSchedule.addLink sf args s).2.slotframe sf).size = (s.slotframe sf).size ∧
      (TschSchedule.addLink sf args s).2.slotframeList = [sf] := by
  have hsf : sf ∈ s.slotframeList := by
    rw [hlist]
    exact mem_singleton_self sf
  obtain ⟨hlinked, hlist', -⟩ := removable_linked.removeLinkByTimeslot h hsf args.timeslot
  obtain ⟨hts, hsize⟩ := h.timeslots_removeLinkByTimeslot hsf args.timeslot
  obtain ⟨hins, hsize', hlist''⟩ := hlinked.timeslots_insertLink (hlist'.trans hlist)
  refine ⟨hins.trans ?_, hsize'.trans hsize, hlist''.trans (hlist'.trans hlist)⟩
  have hle := h.timeslots_length_le hlist
  rw [hts, placeTimeslot]
  by_cases hmem : args.timeslot ∈ timeslotsOf s sf
  · have hpos := length_pos_of_mem hmem
    rw [length_erase_of_mem hmem, if_pos (by omega), if_pos (.inl hmem)]
  · rw [erase_of_not_mem hmem]
    by_cases hroom : (timeslotsOf s sf).length < c.maxLinks
    · rw [if_pos hroom, if_pos (.inr hroom)]
    · rw [if_neg hroom, if_neg]
      rintro (hin | hlt)
      · exact hmem hin
      · exact hroom hlt

theorem sameSchedule_queueUpdateTimeSource (newAddr : Option A) (s : State c) :
    SameSchedule s (queueUpdateTimeSource newAddr s) := by
  rw [queueUpdateTimeSource]
  split
  · exact .refl s
  · cases newAddr with
    | none =>
      dsimp only
      split
      · exact .refl s
      · exact ⟨rfl, rfl, rfl⟩
    | some a =>
      dsimp only
      have hadd := sameSchedule_queueAddNbr a s
      split
      · exact hadd
      · split
        · exact hadd
        · split
          · exact hadd.trans ⟨rfl, rfl, rfl⟩
          · exact hadd.trans ⟨rfl, rfl, rfl⟩

theorem Linked.step {t : State c} {e : Call c} (h : Linked s) (hstep : step s e = some t) : Linked t := by
  cases e with
  | addSlotframe handle size =>
    cases hstep
    exact h.addSlotframe handle size
  | removeSlotframe sf =>
    simp only [TschSchedule.step, ite_none_right_eq_some, some.injEq] at hstep
    obtain ⟨hsf, rfl⟩ := hstep
    exact (h.removeSlotframe hsf).1
  | removeAllSlotframes =>
    cases hstep
    exact h.removeAllSlotframes.1
  | addLink sf args =>
    simp only [TschSchedule.step, ite_none_right_eq_some, some.injEq] at hstep
    obtain ⟨hsf, rfl⟩ := hstep
    exact h.addLink hsf args
  | removeLink sf l =>
    simp only [TschSchedule.step, ite_none_right_eq_some, some.injEq] at hstep
    obtain ⟨⟨hsf, hl⟩, rfl⟩ := hstep
    exact h.removeLink hsf hl
  | queueAddPacket a hasMemory =>
    cases hstep
    exact ((sameSchedule_queueAddNbr a s).trans (sameSchedule_updateNbr a _ _)).linked h
  | queueRemovePacketFromQueue a =>
    cases hstep
    exact (sameSchedule_updateNbr a _ s).linked h
  | queueUpdateTimeSource newAddr =>
    cases hstep
    exact (sameSchedule_queueUpdateTimeSource newAddr s).linked h
  | queueFreeUnusedNeighbors =>
    cases hstep
    exact SameSchedule.linked (s := s) ⟨rfl, rfl, rfl⟩ h
  | setCoordinator enable =>
    cases hstep
    exact SameSchedule.linked (s := s) ⟨rfl, rfl, rfl⟩ h

theorem linked_of_run {es : List (Call c)} (hrun : Run step (fun _ _ => True) (init c) es s) : Linked s :=
  hrun.invariant (P := Linked) (fun _ _ _ h _ hstep => h.step hstep) inv_init.linked

end

end CSync.TschSchedule
