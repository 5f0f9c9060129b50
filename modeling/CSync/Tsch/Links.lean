import CSync.Tsch.Schedule

/-! What holds of the schedule between calls: every link that is allocated is linked in one slotframe, which
    has its handle, and handles and timeslots do not repeat (`Linked`). Neighbors count their links as long
    as the pool of neighbors has room for them (`Counted`). -/

namespace CSync.TschSchedule
open List Function

variable {A : Type} {c : Config A}

/-- The links of the schedule. -/
def allLinks (s : State c) : List (Fin c.maxLinks) :=
  s.slotframeList.flatMap fun sf => (s.slotframe sf).linksList

structure Linked (s : State c) : Prop where
  slotframes : s.slotframeMemb.Owns s.slotframeList
  links : s.linkMemb.Owns (allLinks s)
  handles : ∀ sf ∈ s.slotframeList, ∀ sf' ∈ s.slotframeList,
    (s.slotframe sf).handle = (s.slotframe sf').handle → sf = sf'
  linkHandles : ∀ sf ∈ s.slotframeList, ∀ l ∈ (s.slotframe sf).linksList,
    (s.link l).slotframeHandle = (s.slotframe sf).handle
  timeslots : ∀ sf ∈ s.slotframeList, ((s.slotframe sf).linksList.map fun l => (s.link l).timeslot).Nodup

/-- The number of links with a property. -/
def countLinks (p : Link A → Bool) (s : State c) : Nat := (allLinks s).countP fun l => p (s.link l)

/-! ### Frames -/

/-- The schedule is the same, neighbors and the next link aside. -/
structure SameSchedule (s t : State c) : Prop where
  linkMemb : t.linkMemb = s.linkMemb
  slotframeMemb : t.slotframeMemb = s.slotframeMemb
  slotframeList : t.slotframeList = s.slotframeList

theorem SameSchedule.refl (s : State c) : SameSchedule s s := ⟨rfl, rfl, rfl⟩

variable {s t : State c} {l : Fin c.maxLinks} {sf sf' : Fin c.maxSlotframes}

section
variable (h : SameSchedule s t)
include h

theorem SameSchedule.trans {u : State c} (h' : SameSchedule t u) : SameSchedule s u :=
  ⟨h'.linkMemb.trans h.linkMemb, h'.slotframeMemb.trans h.slotframeMemb, h'.slotframeList.trans h.slotframeList⟩

theorem SameSchedule.slotframe : t.slotframe = s.slotframe := by
  funext sf
  rw [State.slotframe, State.slotframe, h.slotframeMemb]

theorem SameSchedule.link : t.link = s.link := by
  funext l
  rw [State.link, State.link, h.linkMemb]

theorem SameSchedule.allLinks : allLinks t = allLinks s := by
  rw [TschSchedule.allLinks, TschSchedule.allLinks, h.slotframeList, h.slotframe]

theorem SameSchedule.linked (hs : Linked s) : Linked t where
  slotframes := by
    rw [h.slotframeMemb, h.slotframeList]
    exact hs.slotframes
  links := by
    rw [h.linkMemb, h.allLinks]
    exact hs.links
  handles := by
    rw [h.slotframeList, h.slotframe]
    exact hs.handles
  linkHandles := by
    rw [h.slotframeList, h.slotframe, h.link]
    exact hs.linkHandles
  timeslots := by
    rw [h.slotframeList, h.slotframe, h.link]
    exact hs.timeslots

theorem SameSchedule.countLinks (p : Link A → Bool) : countLinks p t = countLinks p s := by
  rw [TschSchedule.countLinks, TschSchedule.countLinks, h.allLinks, h.link]

end

theorem sameSchedule_clearCurrent (l : Fin c.maxLinks) (s : State c) : SameSchedule s (clearCurrent l s) := by
  rw [clearCurrent]
  split <;> exact ⟨rfl, rfl, rfl⟩

section
variable [DecidableEq A]

theorem sameSchedule_updateNbr (a : A) (f : Neighbor A → Neighbor A) (s : State c) :
    SameSchedule s (updateNbr a f s) := ⟨rfl, rfl, rfl⟩

theorem sameSchedule_queueAddNbr (a : A) (s : State c) : SameSchedule s (queueAddNbr a s) := by
  rw [queueAddNbr]
  split
  · exact .refl s
  · split
    · exact ⟨rfl, rfl, rfl⟩
    · exact .refl s

theorem sameSchedule_countLink (options : UInt8) (a : A) (s : State c) : SameSchedule s (countLink options a s) := by
  rw [countLink]
  split
  · exact (sameSchedule_queueAddNbr a s).trans (sameSchedule_updateNbr a _ _)
  · exact .refl s

theorem sameSchedule_uncountLink (options : UInt8) (a : A) (s : State c) :
    SameSchedule s (uncountLink options a s) := by
  rw [uncountLink]
  split
  · exact (sameSchedule_queueAddNbr a s).trans (sameSchedule_updateNbr a _ _)
  · exact .refl s

end

/-! ### Reading the invariant -/

theorem mem_allLinks : l ∈ allLinks s ↔ ∃ sf ∈ s.slotframeList, l ∈ (s.slotframe sf).linksList := mem_flatMap

section
variable (h : Linked s)
include h

theorem Linked.mem_of_count (hl : s.linkMemb.count l ≠ 0) : l ∈ allLinks s := by
  rw [h.links.count_eq] at hl
  by_contra hno
  exact hl (if_neg hno)

theorem Linked.count_of_mem (hl : l ∈ allLinks s) : s.linkMemb.count l ≠ 0 := by
  rw [h.links.count_eq, if_pos hl]
  exact Nat.one_ne_zero

theorem Linked.mem_of_handle (hsf : sf ∈ s.slotframeList) (hl : s.linkMemb.count l ≠ 0)
    (hhandle : (s.link l).slotframeHandle = (s.slotframe sf).handle) : l ∈ (s.slotframe sf).linksList := by
  obtain ⟨sf', hsf', hl'⟩ := mem_allLinks.mp (h.mem_of_count hl)
  have hsame := h.linkHandles sf' hsf' l hl'
  rw [hhandle] at hsame
  rw [h.handles sf hsf sf' hsf' hsame]
  exact hl'

theorem Linked.nodup (hsf : sf ∈ s.slotframeList) : (s.slotframe sf).linksList.Nodup :=
  List.Nodup.of_map _ (h.timeslots sf hsf)

theorem Linked.slotframe_unique (hsf : sf ∈ s.slotframeList) (hsf' : sf' ∈ s.slotframeList)
    (hl : l ∈ (s.slotframe sf).linksList) (hl' : l ∈ (s.slotframe sf').linksList) : sf = sf' := by
  refine h.handles sf hsf sf' hsf' ?_
  rw [← h.linkHandles sf hsf l hl, ← h.linkHandles sf' hsf' l hl']

theorem Linked.timeslot_ne {k : Fin c.maxLinks} (hsf : sf ∈ s.slotframeList) (hl : l ∈ (s.slotframe
    sf).linksList) (hk : k ∈ (s.slotframe sf).linksList.erase l) : (s.link k).timeslot ≠ (s.link l).timeslot := by
  intro heq
  have hinj := inj_on_of_nodup_map (h.timeslots sf hsf)
  obtain ⟨hne, hk⟩ := (List.Nodup.mem_erase_iff (h.nodup hsf)).mp hk
  exact hne (hinj hk hl heq)

end

/-! ### Removing a link -/

@[simp] theorem slotframe_unlinkLink_self (sf : Fin c.maxSlotframes) (l : Fin c.maxLinks) (s : State c) :
    (unlinkLink sf l s).slotframe sf =
      { s.slotframe sf with linksList := (s.slotframe sf).linksList.erase l } := update_self ..

theorem slotframe_unlinkLink_of_ne (h : sf' ≠ sf) (l : Fin c.maxLinks)
    (s : State c) : (unlinkLink sf l s).slotframe sf' = s.slotframe sf' := update_of_ne h ..

theorem handle_unlinkLink (sf sf' : Fin c.maxSlotframes) (l : Fin c.maxLinks) (s : State c) :
    ((unlinkLink sf l s).slotframe sf').handle = (s.slotframe sf').handle := by
  by_cases h : sf' = sf
  · subst h
    rw [slotframe_unlinkLink_self]
  · rw [slotframe_unlinkLink_of_ne h]

section

variable (h : Linked s) (hsf : sf ∈ s.slotframeList) (hl : l ∈ (s.slotframe sf).linksList)
include h hsf hl

theorem Linked.allLinks_unlink :
    (allLinks s).Perm (l :: allLinks (unlinkLink sf l s)) := by
  have hself : (s.slotframe sf).linksList.Perm ([l] ++ ((unlinkLink sf l s).slotframe sf).linksList) := by
    rw [slotframe_unlinkLink_self]
    exact perm_cons_erase hl
  have hother : ∀ sf', sf' ≠ sf → (s.slotframe sf').linksList = ((unlinkLink sf l s).slotframe sf').linksList := by
    intro sf' hne
    rw [slotframe_unlinkLink_of_ne hne]
  exact @Lib.Pool.flatMap_perm _ _ (fun a => (s.slotframe a).linksList)
    (fun a => ((unlinkLink sf l s).slotframe a).linksList) sf [l] hself hother _ h.slotframes.nodup hsf

theorem Linked.unlinked :
    Linked (freeLink l (unlinkLink sf l s)) where
  slotframes := ⟨h.slotframes.nodup, h.slotframes.count_eq⟩
  links := h.links.free_erase (h.allLinks_unlink hsf hl)
  handles a ha b hb hab := by
    refine h.handles a ha b hb ?_
    rw [← handle_unlinkLink sf a l s, ← handle_unlinkLink sf b l s]
    exact hab
  linkHandles a ha k hk := by
    have hk' : k ∈ (s.slotframe a).linksList := by
      by_cases hne : a = sf
      · subst hne
        have hk : k ∈ ((unlinkLink a l s).slotframe a).linksList := hk
        rw [slotframe_unlinkLink_self] at hk
        exact mem_of_mem_erase hk
      · have hk : k ∈ ((unlinkLink sf l s).slotframe a).linksList := hk
        rwa [slotframe_unlinkLink_of_ne hne] at hk
    have := h.linkHandles a ha k hk'
    rw [← handle_unlinkLink sf a l s] at this
    exact this
  timeslots a ha := by
    show (((unlinkLink sf l s).slotframe a).linksList.map fun l => (s.link l).timeslot).Nodup
    by_cases hne : a = sf
    · subst hne
      rw [slotframe_unlinkLink_self]
      exact (h.timeslots a ha).sublist (erase_sublist.map _)
    · rw [slotframe_unlinkLink_of_ne hne]
      exact h.timeslots a ha

theorem Linked.countLinks_unlinked (p : Link A → Bool) : countLinks p s =
      countLinks p (freeLink l (unlinkLink sf l s)) + if p (s.link l) then 1 else 0 := by
  rw [countLinks, (h.allLinks_unlink hsf hl).countP_eq, countP_cons]
  rfl

end

/-! ### Adding a link -/

@[simp] theorem slotframe_listLink_self (sf : Fin c.maxSlotframes) (l : Fin c.maxLinks) (s : State c) :
    (listLink sf l s).slotframe sf = { s.slotframe sf with linksList := (s.slotframe sf).linksList.erase l ++ [l] } :=
  update_self ..

theorem slotframe_listLink_of_ne (h : sf' ≠ sf) (l : Fin c.maxLinks)
    (s : State c) : (listLink sf l s).slotframe sf' = s.slotframe sf' := update_of_ne h ..

theorem handle_listLink (sf sf' : Fin c.maxSlotframes) (l : Fin c.maxLinks) (s : State c) :
    ((listLink sf l s).slotframe sf').handle = (s.slotframe sf').handle := by
  by_cases h : sf' = sf
  · subst h
    rw [slotframe_listLink_self]
  · rw [slotframe_listLink_of_ne h]

/-- The schedule in front of the counting in `insertLink`. -/
def insertedLink (sf : Fin c.maxSlotframes) (l : Fin c.maxLinks) (args : LinkArgs A) (s : State c) : State c :=
  initLink sf l args (listLink sf l { s with linkMemb := s.linkMemb.take l })

theorem link_insertedLink_self (sf : Fin c.maxSlotframes) (l : Fin c.maxLinks) (args : LinkArgs A)
    (s : State c) : (insertedLink sf l args s).link l =
      { handle := s.currentLinkHandle
        addr := args.addr
        slotframeHandle := (s.slotframe sf).handle
        timeslot := args.timeslot
        channelOffset := args.channelOffset
        linkOptions := args.linkOptions
        linkType := args.linkType } := by
  rw [← handle_listLink sf sf l s]
  exact update_self ..

theorem link_insertedLink_of_ne {k : Fin c.maxLinks} (h : k ≠ l) (sf : Fin c.maxSlotframes)
    (args : LinkArgs A) (s : State c) : (insertedLink sf l args s).link k = s.link k :=
  update_of_ne h ..

theorem slotframe_insertedLink (sf : Fin c.maxSlotframes) (l : Fin c.maxLinks) (args : LinkArgs A)
    (s : State c) (a : Fin c.maxSlotframes) :
    (insertedLink sf l args s).slotframe a = (listLink sf l s).slotframe a := rfl

theorem Linked.allLinks_inserted (h : Linked s) (hsf : sf ∈ s.slotframeList) (hl : l ∉ allLinks s) (args : LinkArgs A)
    : (allLinks (insertedLink sf l args s)).Perm (l :: allLinks s) := by
  have hno : l ∉ (s.slotframe sf).linksList := fun hin => hl (mem_allLinks.mpr ⟨sf, hsf, hin⟩)
  have hself : ((insertedLink sf l args s).slotframe sf).linksList.Perm ([l] ++ (s.slotframe sf).linksList) := by
    rw [slotframe_insertedLink, slotframe_listLink_self, erase_of_not_mem hno]
    exact perm_append_comm
  have hother : ∀ sf', sf' ≠ sf → ((insertedLink sf l args s).slotframe sf').linksList =
      (s.slotframe sf').linksList := by
    intro sf' hne
    rw [slotframe_insertedLink, slotframe_listLink_of_ne hne]
  exact @Lib.Pool.flatMap_perm _ _ (fun a => ((insertedLink sf l args s).slotframe a).linksList)
    (fun a => (s.slotframe a).linksList) sf [l] hself hother _ h.slotframes.nodup hsf

theorem Linked.inserted (h : Linked s) {args : LinkArgs A} (hsf : sf ∈ s.slotframeList)
    (hl : s.linkMemb.freeBlock = some l)
    (htimeslot : ∀ k ∈ (s.slotframe sf).linksList, (s.link k).timeslot ≠ args.timeslot) :
    Linked (insertedLink sf l args s) := by
  have hnew : l ∉ allLinks s := h.links.not_mem_of_free hl
  have hno : ∀ a ∈ s.slotframeList, l ∉ (s.slotframe a).linksList :=
    fun a ha hin => hnew (mem_allLinks.mpr ⟨a, ha, hin⟩)
  have hlink : ∀ a ∈ s.slotframeList, ∀ k ∈ (s.slotframe a).linksList,
      (insertedLink sf l args s).link k = s.link k := by
    intro a ha k hk
    refine link_insertedLink_of_ne ?_ sf args s
    rintro rfl
    exact hno a ha hk
  have hlist : ∀ a ∈ s.slotframeList, a ≠ sf →
      ((insertedLink sf l args s).slotframe a) = s.slotframe a := by
    intro a _ hne
    rw [slotframe_insertedLink, slotframe_listLink_of_ne hne]
  have hself : ((insertedLink sf l args s).slotframe sf).linksList = (s.slotframe sf).linksList ++ [l] := by
    rw [slotframe_insertedLink, slotframe_listLink_self, erase_of_not_mem (hno sf hsf)]
  have hhandle : ∀ a, ((insertedLink sf l args s).slotframe a).handle = (s.slotframe a).handle :=
    fun a => handle_listLink sf a l s
  refine ⟨⟨h.slotframes.nodup, h.slotframes.count_eq⟩, ?_, ?_, ?_, ?_⟩
  · have howns := h.links.take_insert hl (h.allLinks_inserted hsf hnew args)
    exact ⟨howns.nodup, howns.count_eq⟩
  · intro a ha b hb hab
    rw [hhandle, hhandle] at hab
    exact h.handles a ha b hb hab
  · intro a ha k hk
    rw [hhandle]
    by_cases hne : a = sf
    · subst hne
      rw [hself, mem_append, mem_singleton] at hk
      rcases hk with hk | rfl
      · rw [hlink a ha k hk]
        exact h.linkHandles a ha k hk
      · rw [link_insertedLink_self]
    · rw [hlist a ha hne] at hk
      rw [hlink a ha k hk]
      exact h.linkHandles a ha k hk
  · intro a ha
    by_cases hne : a = sf
    · subst hne
      rw [hself, map_append, map_singleton, link_insertedLink_self,
        map_congr_left fun k hk => by rw [hlink a ha k hk]]
      refine nodup_append.mpr ⟨h.timeslots a ha, nodup_singleton _, ?_⟩
      rintro x hx y hy rfl
      obtain ⟨k, hk, hkx⟩ := mem_map.mp hx
      exact htimeslot k hk (hkx.trans (mem_singleton.mp hy))
    · rw [hlist a ha hne, map_congr_left fun k hk => by rw [hlink a ha k hk]]
      exact h.timeslots a ha

theorem Linked.countLinks_inserted (h : Linked s) {args : LinkArgs A} (hsf : sf ∈ s.slotframeList)
    (hl : s.linkMemb.freeBlock = some l) (p : Link A → Bool) : countLinks p (insertedLink sf l args s) =
      countLinks p s + if p ((insertedLink sf l args s).link l) then 1 else 0 := by
  have hnew : l ∉ allLinks s := h.links.not_mem_of_free hl
  rw [countLinks, (h.allLinks_inserted hsf hnew args).countP_eq, countP_cons, countLinks]
  congr 1
  refine countP_congr fun k hk => ?_
  rw [link_insertedLink_of_ne]
  rintro rfl
  exact hnew hk

/-! ### Slotframes -/

/-- A fresh slotframe has no links. -/
def insertedSlotframe (sf : Fin c.maxSlotframes) (handle : UInt16) (size : AsnDivisor) (s : State c) :
    State c :=
  listSlotframe sf (initSlotframe sf handle size { s with slotframeMemb := s.slotframeMemb.take sf })

theorem slotframe_insertedSlotframe_self (sf : Fin c.maxSlotframes) (handle : UInt16) (size : AsnDivisor)
    (s : State c) : (insertedSlotframe sf handle size s).slotframe sf = ⟨handle, size, []⟩ :=
  update_self ..

theorem slotframe_insertedSlotframe_of_ne {a : Fin c.maxSlotframes} (h : a ≠ sf) (handle : UInt16)
    (size : AsnDivisor) (s : State c) : (insertedSlotframe sf handle size s).slotframe a = s.slotframe a :=
  update_of_ne h ..

theorem Linked.insertedSlotframe (h : Linked s) {handle : UInt16} {size : AsnDivisor}
    (hsf : s.slotframeMemb.freeBlock = some sf) (hhandle : ∀ a ∈ s.slotframeList, (s.slotframe a).handle ≠ handle) :
    Linked (insertedSlotframe sf handle size s) ∧
    allLinks (TschSchedule.insertedSlotframe sf handle size s) = allLinks s := by
  set t := TschSchedule.insertedSlotframe sf handle size s with ht
  have hnew : sf ∉ s.slotframeList := h.slotframes.not_mem_of_free hsf
  have hlist : t.slotframeList = s.slotframeList ++ [sf] := by
    show s.slotframeList.erase sf ++ [sf] = _
    rw [erase_of_not_mem hnew]
  have hself : t.slotframe sf = ⟨handle, size, []⟩ := slotframe_insertedSlotframe_self sf handle size s
  have hold : ∀ a ∈ s.slotframeList, t.slotframe a = s.slotframe a := by
    intro a ha
    refine slotframe_insertedSlotframe_of_ne ?_ handle size s
    rintro rfl
    exact hnew ha
  have hall : allLinks t = allLinks s := by
    rw [allLinks, hlist, flatMap_append, flatMap_singleton, hself, append_nil, allLinks, flatMap, flatMap]
    congr 1
    exact map_congr_left fun a ha => by rw [hold a ha]
  have hcases : ∀ a ∈ t.slotframeList, a ∈ s.slotframeList ∨ a = sf := by
    intro a ha
    rw [hlist, mem_append, mem_singleton] at ha
    exact ha
  refine ⟨⟨?_, ?_, ?_, ?_, ?_⟩, hall⟩
  · have hsub : t.slotframeList.Perm (sf :: s.slotframeList) := by
      rw [hlist]
      exact perm_append_comm
    have howns := h.slotframes.take_insert hsf hsub
    exact ⟨howns.nodup, howns.count_eq⟩
  · rw [hall]
    exact h.links
  · intro a ha b hb hab
    rcases hcases a ha with ha | heqa
    · rcases hcases b hb with hb | heqb
      · rw [hold a ha, hold b hb] at hab
        exact h.handles a ha b hb hab
      · rw [hold a ha, heqb, hself] at hab
        exact absurd hab (hhandle a ha)
    · rcases hcases b hb with hb | heqb
      · rw [hold b hb, heqa, hself] at hab
        exact absurd hab.symm (hhandle b hb)
      · rw [heqa, heqb]
  · intro a ha k hk
    rcases hcases a ha with ha | heqa
    · rw [hold a ha] at hk ⊢
      exact h.linkHandles a ha k hk
    · rw [heqa, hself] at hk
      cases hk
  · intro a ha
    rcases hcases a ha with ha | heqa
    · rw [hold a ha]
      exact h.timeslots a ha
    · rw [heqa, hself]
      exact nodup_nil

theorem Linked.removedSlotframe (h : Linked s) (hsf : sf ∈ s.slotframeList) (hempty : (s.slotframe sf).linksList = []) :
    Linked (unlinkSlotframe sf (freeSlotframe sf s)) ∧
    (allLinks (unlinkSlotframe sf (freeSlotframe sf s))).Perm (allLinks s) := by
  have hperm : s.slotframeList.Perm (sf :: s.slotframeList.erase sf) := perm_cons_erase hsf
  have hall : (allLinks s).Perm (allLinks (unlinkSlotframe sf (freeSlotframe sf s))) := by
    have := hperm.flatMap_right fun sf => (s.slotframe sf).linksList
    rwa [flatMap_cons, hempty, nil_append] at this
  have hmem : ∀ a ∈ s.slotframeList.erase sf, a ∈ s.slotframeList := fun a => mem_of_mem_erase
  refine ⟨⟨h.slotframes.free_erase hperm, h.links.perm hall.symm, ?_, ?_, ?_⟩, hall.symm⟩
  · exact fun a ha b hb hab => h.handles a (hmem a ha) b (hmem b hb) hab
  · exact fun a ha => h.linkHandles a (hmem a ha)
  · exact fun a ha => h.timeslots a (hmem a ha)

end CSync.TschSchedule
