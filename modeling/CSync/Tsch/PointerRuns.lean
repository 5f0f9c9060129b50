import CSync.Tsch.Pointers

/-! Pointers of slots do not dangle, unless an edit removes the backup that the next slot may take.

    An edit is seen together with what it will have done when it gives the lock back (`complete`): that
    schedule is linked throughout. In between only the two pointers matter, and an edit clears one of them. -/

namespace CSync.TschSchedule
open List Function Lib Option

variable {A : Type} {c : Config A}

/-! ### Pointers of slots -/

/-- What the rest of an edit relies on. -/
def ContOk (s : State c) : Cont c → Prop
  | .addLink sf _ => sf ∈ s.slotframeList
  | .insertLink sf args => sf ∈ s.slotframeList ∧
      ∀ k ∈ (s.slotframe sf).linksList, (s.link k).timeslot ≠ args.timeslot
  | .removeLink sf l => sf ∈ s.slotframeList ∧ s.linkMemb.count l ≠ 0
  | .removeThenInsert sf l args => sf ∈ s.slotframeList ∧ l ∈ (s.slotframe sf).linksList ∧
      (s.link l).timeslot = args.timeslot
  | .removeSlotframe sf _ => sf ∈ s.slotframeList
  | .removeThenSlotframe sf l _ => sf ∈ s.slotframeList ∧ l ∈ (s.slotframe sf).linksList
  | _ => True

/-- The lock is held, or asked for. -/
def Pc.holds : Pc c → Bool
  | .idle => false
  | .requested _ => false
  | .waited _ => false
  | _ => true

def Pc.asks : Pc c → Bool
  | .requested _ => true
  | .waited _ => true
  | _ => false

/-- A slot that transmits may be under way. -/
def Pc.early : Pc c → Bool
  | .idle => true
  | .requested _ => true
  | _ => false

theorem Pc.holds_of_early {pc : Pc c} (hearly : pc.early = true) : pc.holds = false := by
  cases pc <;> first | rfl | cases hearly

/-- The schedule is as it was before the edit. -/
def Pc.before : Pc c → Bool
  | .requested _ => true
  | .waited _ => true
  | .entered _ => true
  | _ => false

/-- The slotframe that is about to be removed. -/
def Pc.removes : Pc c → Option (Fin c.maxSlotframes)
  | .requested (.removeSlotframe sf) => some sf
  | .waited (.removeSlotframe sf) => some sf
  | .entered (.removeSlotframe sf) => some sf
  | .sfFreed sf => some sf
  | _ => none

/-- The link that is being removed, once `current_link` was cleared, or that is being added. -/
def Pc.writes : Pc c → Option (Fin c.maxLinks)
  | .cleared _ l => some l
  | .unlinked _ l => some l
  | .allocated _ l _ => some l
  | .listed _ l _ => some l
  | _ => none

theorem not_mayTakeBackup {s : State c} (hcurrent : s.currentLink = none) : ¬mayTakeBackup s = true := by
  rw [mayTakeBackup, hcurrent]
  exact nofun

/-- Slots may read through their pointers. -/
structure Cached (m : Machine c) : Prop where
  current : ∀ l, m.sched.currentLink = some l → InSchedule m.sched l
  backup : mayTakeBackup m.sched = true → ∀ l, m.backupLink = some l → InSchedule m.sched l
  writes : ∀ l, m.pc.writes = some l → m.sched.currentLink ≠ some l ∧
    (mayTakeBackup m.sched = true → m.backupLink ≠ some l)

/-- A slot moves the two pointers and nothing that an edit uses. -/
structure SlotStep (m m' : Machine c) : Prop where
  sched : ∃ p, m'.sched = { m.sched with currentLink := p }
  pc : m'.pc = m.pc
  cont : m'.cont = m.cont
  locked : m'.locked = m.locked
  lockRequested : m'.lockRequested = m.lockRequested

theorem SlotStep.refl (m : Machine c) : SlotStep m m := ⟨⟨_, rfl⟩, rfl, rfl, rfl, rfl⟩

variable {m : Machine c} {s : State c}

theorem SlotStep.trans {m' m'' : Machine c} (h : SlotStep m m') (h' : SlotStep m' m'') : SlotStep m m'' := by
  obtain ⟨p, hp⟩ := h.sched
  obtain ⟨p', hp'⟩ := h'.sched
  refine ⟨⟨p', ?_⟩, h'.pc.trans h.pc, h'.cont.trans h.cont, h'.locked.trans h.locked,
    h'.lockRequested.trans h.lockRequested⟩
  rw [hp', hp]

theorem SlotStep.sameSchedule {m' : Machine c} (h : SlotStep m m') : SameSchedule m.sched m'.sched := by
  obtain ⟨p, hp⟩ := h.sched
  rw [hp]
  exact ⟨rfl, rfl, rfl⟩

theorem SameSchedule.inSchedule {t : State c} (h : SameSchedule s t) (l : Fin c.maxLinks) :
    InSchedule t l ↔ InSchedule s l := by
  rw [InSchedule, InSchedule, h.allLinks, h.linkMemb]

theorem SameSchedule.contOk {t : State c} (h : SameSchedule s t) {k : Cont c} (hk : ContOk s k) : ContOk t k := by
  cases k <;> simp only [ContOk, h.slotframeList, h.slotframe, h.link, h.linkMemb] at hk ⊢ <;> exact hk

/-! ### The next link -/

variable {P : Fin c.maxLinks → Prop}

theorem mem_considerLink {size : Nat} {timeslot : UInt16} {best : Best c}
    {l : Fin c.maxLinks} (hl : P l) (hbest : ∀ k, best.currBest = some k → P k)
    (hbackup : ∀ k, best.currBackup = some k → P k) :
    (∀ k, (considerLink s size timeslot best l).currBest = some k → P k) ∧
    ∀ k, (considerLink s size timeslot best l).currBackup = some k → P k := by
  rw [considerLink]
  generalize (if timeslot < (s.link l).timeslot then (s.link l).timeslot - timeslot
    else UInt16.ofNat size + (s.link l).timeslot - timeslot) = time
  split
  · refine ⟨fun k hk => ?_, nofun⟩
    cases hk
    exact hl
  next b hb =>
    have hPb := hbest b hb
    split
    · refine ⟨fun k hk => ?_, nofun⟩
      cases hk
      exact hl
    · split
      · refine ⟨fun k hk => ?_, fun k hk => ?_⟩
        · dsimp only at hk
          rw [newBest] at hk
          split at hk
          · split at hk <;> cases hk
            · exact hl
            · exact hPb
          · split at hk <;> cases hk
            · exact hl
            · exact hPb
        · dsimp only at hk
          split at hk
          · rw [newBackup] at hk
            split at hk
            · cases hk
              exact hPb
            · split at hk <;> cases hk
              exact hl
          · exact hbackup k hk
      · exact ⟨hbest, hbackup⟩

theorem foldl_finds {ι : Type} {f : Best c → ι → Best c} {xs : List ι}
    (hf : ∀ best, ∀ x ∈ xs, ((∀ k, best.currBest = some k → P k) ∧ ∀ k, best.currBackup = some k → P k) →
      (∀ k, (f best x).currBest = some k → P k) ∧ ∀ k, (f best x).currBackup = some k → P k)
    {best : Best c} (h : (∀ k, best.currBest = some k → P k) ∧ ∀ k, best.currBackup = some k → P k) :
    (∀ k, (xs.foldl f best).currBest = some k → P k) ∧ ∀ k, (xs.foldl f best).currBackup = some k → P k := by
  induction xs generalizing best with
  | nil => exact h
  | cons x xs ih =>
    exact ih (fun best y hy => hf best y (mem_cons_of_mem _ hy)) (hf best x mem_cons_self h)

theorem getNextActiveLink_mem (s : State c) (asn : Asn) : (∀ k, (getNextActiveLink s asn).currBest = some k → k ∈
    allLinks s) ∧ ∀ k, (getNextActiveLink s asn).currBackup = some k → k ∈ allLinks s := by
  refine foldl_finds (fun best sf hsf hb => ?_) ⟨nofun, nofun⟩
  refine foldl_finds (fun best l hl hb => ?_) hb
  exact mem_considerLink (mem_allLinks.mpr ⟨sf, hsf, hl⟩) hb.1 hb.2

theorem readLink_clean (hclean : m.danglingRead = false) {l : Fin c.maxLinks}
    (hl : InSchedule m.sched l) : readLink (some l) m = m := by
  rw [readLink, any_some, decide_eq_true hl, hclean]
  simp [← hclean]

theorem readLinkIf_clean (hclean : m.danglingRead = false)
    (hcurrent : ∀ l, m.sched.currentLink = some l → InSchedule m.sched l) : readLinkIf m.sched.currentLink m = m := by
  cases hl : m.sched.currentLink with
  | none => rfl
  | some l =>
    exact readLink_clean hclean (hcurrent l hl)

theorem Cached.nextSlot : ∀ {n : Nat} {m : Machine c}, Cached m → m.danglingRead = false →
    (m.locked = false → Linked m.sched) → (∀ l, m.pc.writes = some l → m.locked = true) →
      Cached (nextSlot n m) ∧ (TschSchedule.nextSlot n m).danglingRead = false ∧
        SlotStep m (TschSchedule.nextSlot n m) ∧ (TschSchedule.nextSlot n m).associated = m.associated
  | 0, m, h, hclean, _, _ => ⟨h, hclean, .refl m, rfl⟩
  | n + 1, m, h, hclean, hlinked, hremoving => by
    rw [TschSchedule.nextSlot, readLinkIf_clean hclean h.current]
    dsimp only
    set m' : Machine c := { setCurrent (nextActiveLink m).currBest m with
      backupLink := (nextActiveLink m).currBackup
      asn := asnInc m.asn (if (nextActiveLink m).currBest = none then 1
        else (nextActiveLink m).timeToCurrBest.toNat) } with hm'
    have hstep : SlotStep m m' := ⟨⟨_, rfl⟩, rfl, rfl, rfl, rfl⟩
    have hcached : Cached m' := by
      cases hlocked : m.locked with
      | true =>
        have hnone : nextActiveLink m = ⟨0, none, none⟩ := by rw [nextActiveLink, hlocked, if_pos rfl]
        have hcur : m'.sched.currentLink = none := by
          show (nextActiveLink m).currBest = none
          rw [hnone]
        have hno := not_mayTakeBackup hcur
        refine ⟨fun l hl => ?_, fun hmay => absurd hmay hno, fun l _ => ⟨?_, fun hmay => absurd hmay hno⟩⟩
        · rw [hcur] at hl
          cases hl
        · rw [hcur]
          exact nofun
      | false =>
        have hlk := hlinked hlocked
        have hnext : nextActiveLink m = getNextActiveLink m.sched m.asn := by
          rw [nextActiveLink, hlocked, if_neg Bool.false_ne_true]
        obtain ⟨hbest, hbackup⟩ := getNextActiveLink_mem m.sched m.asn
        have hin : ∀ l ∈ allLinks m.sched, InSchedule m'.sched l := by
          intro l hl
          exact ⟨hl, hlk.count_of_mem hl⟩
        refine ⟨fun l hl => hin l (hbest l ?_), fun _ l hl => hin l (hbackup l ?_), fun l hl => ?_⟩
        · rw [← hnext]
          exact hl
        · rw [← hnext]
          exact hl
        · have := hremoving l hl
          rw [hlocked] at this
          cases this
    obtain ⟨h1, h2, h3, h4⟩ := Cached.nextSlot (n := n) hcached hclean
      (fun hlocked => hstep.sameSchedule.linked (hlinked hlocked)) hremoving
    exact ⟨h1, h2, hstep.trans h3, h4⟩

section
variable [DecidableEq A]

/-- All that is done with the lock. -/
def applyCritical (k : Critical c) (s : State c) : State c :=
  match k with
  | .removeLink sf l => freeLink l (unlinkLink sf l (clearCurrent l s))
  | .insertLink sf args =>
    match s.linkMemb.alloc with
    | (none, _) => s
    | (some l, linkMemb) => initLink sf l args (listLink sf l { s with linkMemb := linkMemb })
  | .addSlotframe handle size =>
    match s.slotframeMemb.alloc with
    | (none, _) => s
    | (some sf, slotframeMemb) =>
      listSlotframe sf (initSlotframe sf handle size { s with slotframeMemb := slotframeMemb })
  | .removeSlotframe sf => unlinkSlotframe sf (freeSlotframe sf s)
  | .addNbr addr => queueAddNbr addr s

/-- The schedule when the lock is given back. -/
def complete (pc : Pc c) (s : State c) : State c :=
  match pc with
  | .idle => s
  | .requested k => applyCritical k s
  | .waited k => applyCritical k s
  | .entered k => applyCritical k s
  | .cleared sf l => freeLink l (unlinkLink sf l s)
  | .unlinked _ l => freeLink l s
  | .allocated sf l args => initLink sf l args (listLink sf l s)
  | .listed sf l args => initLink sf l args s
  | .sfAllocated sf handle size => listSlotframe sf (initSlotframe sf handle size s)
  | .sfInitialized sf => listSlotframe sf s
  | .sfFreed sf => unlinkSlotframe sf s
  | .leaving => s

/-- The edit does not depend on the next link. -/
theorem sameSchedule_applyCritical (k : Critical c) (s : State c) (p : Option (Fin c.maxLinks)) :
    SameSchedule (applyCritical k s) (applyCritical k { s with currentLink := p }) := by
  cases k with
  | removeLink sf l =>
    have h := sameSchedule_clearCurrent l s
    have h' := sameSchedule_clearCurrent l { s with currentLink := p }
    refine ⟨?_, ?_, ?_⟩
    · show ((clearCurrent l _).linkMemb).free l = ((clearCurrent l s).linkMemb).free l
      rw [h.linkMemb, h'.linkMemb]
    · simp only [applyCritical, freeLink, unlinkLink, h.slotframeMemb, h'.slotframeMemb]
    · exact h'.slotframeList.trans h.slotframeList.symm
  | insertLink sf args =>
    simp only [applyCritical]
    split <;> exact ⟨rfl, rfl, rfl⟩
  | addSlotframe handle size =>
    simp only [applyCritical]
    split <;> exact ⟨rfl, rfl, rfl⟩
  | removeSlotframe sf => exact ⟨rfl, rfl, rfl⟩
  | addNbr addr =>
    have h := sameSchedule_queueAddNbr addr s
    have h' := sameSchedule_queueAddNbr addr { s with currentLink := p }
    exact ⟨h'.linkMemb.trans h.linkMemb.symm, h'.slotframeMemb.trans h.slotframeMemb.symm,
      h'.slotframeList.trans h.slotframeList.symm⟩

theorem sameSchedule_complete (pc : Pc c) (s : State c) (p : Option (Fin c.maxLinks)) :
    SameSchedule (complete pc s) (complete pc { s with currentLink := p }) := by
  cases pc with
  | requested k | waited k | entered k => exact sameSchedule_applyCritical k s p
  | _ => exact ⟨rfl, rfl, rfl⟩

structure MInv (m : Machine c) : Prop where
  linked : Linked (complete m.pc m.sched)
  before : m.pc.before = true → Linked m.sched
  cont : ContOk (complete m.pc m.sched) m.cont
  empty : ∀ sf, m.pc.removes = some sf → (m.sched.slotframe sf).linksList = []
  fresh : ∀ sf handle size, m.pc = .sfAllocated sf handle size → sf ∉ m.sched.slotframeList
  locked : m.locked = m.pc.holds
  lockRequested : m.lockRequested = m.pc.asks
  cached : m.associated = true → Cached m
  slot : ∀ tx, m.inSlot = some tx → m.associated = true
  transmits : m.inSlot = some true → m.sched.currentLink ≠ none ∧ m.pc.early = true
  clean : m.danglingRead = false

variable {m m' : Machine c} {l : Fin c.maxLinks} {s' : State c}

/-- Slots find a schedule that is linked, or find nothing. -/
theorem MInv.linked_of_unlocked (h : MInv m) (hlocked : m.locked = false) : Linked m.sched := by
  have hholds := h.locked
  rw [hlocked] at hholds
  have hl := h.linked
  have hb := h.before
  cases hpc : m.pc with
  | idle =>
    rw [hpc] at hl
    exact hl
  | requested k => exact hb (by rw [hpc]; rfl)
  | waited k => exact hb (by rw [hpc]; rfl)
  | _ =>
    rw [hpc] at hholds
    cases hholds

theorem MInv.linked_idle (h : MInv m) (hpc : m.pc = .idle) : Linked m.sched := by
  have hl := h.linked
  rwa [hpc] at hl

theorem MInv.cont_idle (h : MInv m) (hpc : m.pc = .idle) : ContOk m.sched m.cont := by
  have hc := h.cont
  rwa [hpc] at hc

/-! ### Steps of a slot -/

section
variable (h : MInv m)
include h

theorem MInv.slotStep (hstep : SlotStep m m') (hcached : m'.associated = true → Cached m') (hslot : ∀ tx,
    m'.inSlot = some tx → m'.associated = true) (htransmits : m'.inSlot = some true → m'.sched.currentLink ≠ none ∧
    m'.pc.early = true) (hclean : m'.danglingRead = false) : MInv m' := by
  obtain ⟨p, hp⟩ := hstep.sched
  have hsame := hstep.sameSchedule
  have hcomplete : SameSchedule (complete m.pc m.sched) (complete m'.pc m'.sched) := by
    rw [hp, hstep.pc]
    exact sameSchedule_complete m.pc m.sched p
  refine ⟨hcomplete.linked h.linked, fun hb => ?_, ?_, fun sf hsf => ?_, fun sf handle size hpc => ?_, ?_, ?_,
    hcached, hslot, htransmits, hclean⟩
  · rw [hstep.pc] at hb
    exact hsame.linked (h.before hb)
  · rw [hstep.cont]
    exact hcomplete.contOk h.cont
  · rw [hstep.pc] at hsf
    rw [hsame.slotframe]
    exact h.empty sf hsf
  · rw [hstep.pc] at hpc
    rw [hsame.slotframeList]
    exact h.fresh sf handle size hpc
  · rw [hstep.locked, hstep.pc]
    exact h.locked
  · rw [hstep.lockRequested, hstep.pc]
    exact h.lockRequested

theorem MInv.writes_locked (l : Fin c.maxLinks) (hl : m.pc.writes = some l) : m.locked = true := by
  rw [h.locked]
  cases hpc : m.pc with
  | cleared _ _ | unlinked _ _ | allocated _ _ _ | listed _ _ _ => rfl
  | _ =>
    rw [hpc] at hl
    cases hl

theorem MInv.endSlot (hstep : SlotStep m m') (hcached : Cached m') (hclean : m'.danglingRead = false)
    (desync : Bool) (missed : Nat) : MInv (endSlot desync missed m') := by
  rw [TschSchedule.endSlot]
  split
  · refine h.slotStep (hstep.trans ⟨⟨_, rfl⟩, rfl, rfl, rfl, rfl⟩) nofun
      nofun nofun hclean
  · obtain ⟨h1, h2, h3, h4⟩ := hcached.nextSlot (n := missed + 1) hclean
      (fun hlocked => hstep.sameSchedule.linked (h.linked_of_unlocked (by rw [← hstep.locked]; exact hlocked)))
      (fun l hl => by
        rw [hstep.pc] at hl
        rw [hstep.locked]
        exact h.writes_locked l hl)
    exact h.slotStep (hstep.trans (h3.trans ⟨⟨_, rfl⟩, rfl, rfl, rfl, rfl⟩))
      (fun _ => ⟨h1.current, h1.backup, h1.writes⟩)
      nofun nofun h2

theorem MInv.runSlot (hstep : SlotStep m m') (hassoc : m'.associated = true) (hcached : Cached m')
    (hclean : m'.danglingRead = false) (hl : m'.sched.currentLink = some l) (hasks : m.lockRequested = false)
    (packet desync : Bool) (missed : Nat) : MInv (runSlot packet l desync missed m') := by
  rw [TschSchedule.runSlot]
  split
  · refine h.slotStep (hstep.trans ⟨⟨_, rfl⟩, rfl, rfl, rfl, rfl⟩)
      (fun _ => ⟨hcached.current, hcached.backup, hcached.writes⟩) (fun _ _ => hassoc) (fun htx => ?_) hclean
    refine ⟨?_, ?_⟩
    · show m'.sched.currentLink ≠ none
      rw [hl]
      exact some_ne_none l
    · -- It transmits, so TSCH is not locked, and the lock was not asked for either.
      have htx : packetFor packet l m' = true := some.inj htx
      simp only [packetFor, Bool.and_eq_true, Bool.not_eq_true'] at htx
      have hlocked := htx.1.2
      rw [hstep.locked, h.locked] at hlocked
      rw [h.lockRequested] at hasks
      rw [hstep.pc]
      cases hpc : m.pc with
      | idle => rfl
      | requested k => rfl
      | waited k =>
        rw [hpc] at hasks
        cases hasks
      | _ =>
        rw [hpc] at hlocked
        cases hlocked
  · exact h.endSlot hstep hcached hclean desync missed

theorem MInv.slotStart {packet backupPacket desync : Bool} {missed : Nat}
    (hstep : slotStart packet backupPacket desync missed m = some m') : MInv m' := by
  rw [TschSchedule.slotStart] at hstep
  split at hstep
  · cases hstep
  next hguard =>
    have hassoc : m.associated = true := by simpa using (not_or.mp hguard).1
    have hcached := h.cached hassoc
    split at hstep
    · cases hstep
      exact h.endSlot (.refl m) hcached h.clean desync missed
    next l hl =>
      split at hstep
      · cases hstep
        exact h.endSlot (.refl m) hcached h.clean desync missed
      next hasks =>
        have hasks : m.lockRequested = false := by simpa using hasks
        rw [readLink_clean h.clean (hcached.current l hl)] at hstep
        dsimp only at hstep
        split at hstep
        · cases hstep
          exact h.runSlot (.refl m) hassoc hcached h.clean hl hasks packet desync missed
        next hpass =>
          split at hstep
          · cases hstep
            exact h.runSlot (.refl m) hassoc hcached h.clean hl hasks packet desync missed
          next b hb =>
            cases hstep
            have hmay : mayTakeBackup m.sched = true := by
              rw [mayTakeBackup, hl, any_some, (Bool.or_eq_false_iff.mp (Bool.eq_false_of_not_eq_true hpass)).2]
              rfl
            have hin := hcached.backup hmay b hb
            have hset : SlotStep m (setCurrent (some b) m) := ⟨⟨_, rfl⟩, rfl, rfl, rfl, rfl⟩
            have hin' : InSchedule (setCurrent (some b) m).sched b := (hset.sameSchedule.inSchedule b).mpr hin
            have hcached' : Cached (setCurrent (some b) m) := by
              refine ⟨fun k hk => ?_, fun _ k hk => ?_, fun k hk => ⟨fun hbk => ?_, fun _ => ?_⟩⟩
              · cases hk
                exact hin'
              · exact (hset.sameSchedule.inSchedule k).mpr (hcached.backup hmay k hk)
              · cases hbk
                exact (hcached.writes b hk).2 hmay hb
              · exact (hcached.writes k hk).2 hmay
            rw [readLink_clean (m := setCurrent (some b) m) h.clean hin']
            exact h.runSlot hset hassoc hcached' h.clean rfl hasks backupPacket desync missed

theorem MInv.slotResume (hstep : slotResume m = some m') : MInv m' := by
  obtain ⟨tx, htx, rfl⟩ := map_eq_some_iff.mp hstep
  cases tx with
  | false => exact h
  | true =>
    obtain ⟨hne, -⟩ := h.transmits htx
    obtain ⟨l, hl⟩ := ne_none_iff_exists'.mp hne
    rw [if_pos rfl, hl, readLink_clean h.clean ((h.cached (h.slot true htx)).current l hl)]
    exact h

theorem MInv.slotFinish {desync : Bool} {missed : Nat}
    (hstep : slotFinish desync missed m = some m') : MInv m' := by
  rw [TschSchedule.slotFinish] at hstep
  split at hstep
  next hin =>
    obtain ⟨tx, htx⟩ := isSome_iff_exists.mp hin
    have hassoc := h.slot tx htx
    cases hstep
    exact h.endSlot (.refl m) (h.cached hassoc) h.clean desync missed
  · cases hstep

end

/-! ### Steps of an edit -/

omit [DecidableEq A] in
theorem Cached.same (h : Cached m) (hsched : m'.sched = m.sched) (hbackup : m'.backupLink = m.backupLink) (hpc : ∀ l,
    m'.pc.writes = some l → m.pc.writes = some l) : Cached m' := by
  refine ⟨fun l hl => ?_, fun hmay l hl => ?_, fun l hl => ?_⟩
  · rw [hsched] at hl ⊢
    exact h.current l hl
  · rw [hsched] at hmay ⊢
    rw [hbackup] at hl
    exact h.backup hmay l hl
  · rw [hsched, hbackup]
    exact h.writes l (hpc l hl)

/-- The edit goes on without the lock. -/
theorem MInv.setCont (h : MInv m) (hpc : m.pc = .idle) {k : Cont c}
    (hk : ContOk m.sched k) : MInv { m with cont := k } := by
  refine ⟨h.linked, h.before, ?_, h.empty, h.fresh, h.locked, h.lockRequested, fun hassoc => ?_, h.slot,
    h.transmits, h.clean⟩
  · show ContOk (complete m.pc m.sched) k
    rw [hpc]
    exact hk
  · exact (h.cached hassoc).same rfl rfl fun _ hl => hl

/-- The edit asks for the lock. -/
theorem MInv.request (h : MInv m) (hpc : m.pc = .idle) {k : Critical c} {next : Cont c}
    (adjust : Option (Adjust A)) (hlinked : Linked (applyCritical k m.sched))
    (hcont : ContOk (applyCritical k m.sched) next)
    (hempty : ∀ sf, (Pc.requested k).removes = some sf → (m.sched.slotframe sf).linksList = []) :
    MInv (request k next { m with adjust := adjust }) := by
  have hold := h.linked_idle hpc
  have hlocked := h.locked
  rw [hpc] at hlocked
  refine ⟨hlinked, fun _ => hold, hcont, hempty, nofun, hlocked, rfl,
    fun hassoc => ?_, h.slot, fun htx => ⟨(h.transmits htx).1, rfl⟩, h.clean⟩
  exact (h.cached hassoc).same rfl rfl nofun

variable {sf : Fin c.maxSlotframes}

theorem Linked.removedLink {s : State c} (h : Linked s) (hsf : sf ∈ s.slotframeList)
    (hl : l ∈ (s.slotframe sf).linksList) :
    Linked (applyCritical (.removeLink sf l) s) ∧
    (applyCritical (.removeLink sf l) s).slotframeList = s.slotframeList ∧
    ((applyCritical (.removeLink sf l) s).slotframe sf).linksList = (s.slotframe sf).linksList.erase l ∧
    (applyCritical (.removeLink sf l) s).link = s.link := by
  have hsame := sameSchedule_clearCurrent l s
  refine ⟨?_, hsame.slotframeList, ?_, hsame.link⟩
  · refine (hsame.linked h).unlinked ?_ ?_
    · rw [hsame.slotframeList]
      exact hsf
    · rw [hsame.slotframe]
      exact hl
  · show ((unlinkLink sf l (clearCurrent l s)).slotframe sf).linksList = _
    rw [slotframe_unlinkLink_self, hsame.slotframe]

theorem MInv.startRemove (h : MInv m) (hpc : m.pc = .idle) {next : Cont c}
    (hsf : sf ∈ m.sched.slotframeList) (hcount : m.sched.linkMemb.count l ≠ 0)
    (hnext : l ∈ (m.sched.slotframe sf).linksList → ContOk (applyCritical (.removeLink sf l) m.sched) next)
    (hskip : (m.sched.link l).slotframeHandle ≠ (m.sched.slotframe sf).handle → ContOk m.sched next) :
    MInv (startRemove sf l next m) := by
  have hold := h.linked_idle hpc
  rw [TschSchedule.startRemove]
  split
  next hhandle =>
    have hl := hold.mem_of_handle hsf hcount hhandle
    exact h.request hpc m.adjust (hold.removedLink hsf hl).1 (hnext hl) nofun
  next hhandle => exact h.setCont hpc (hskip hhandle)

theorem MInv.resume (h : MInv m) (hpc : m.pc = .idle) : MInv (resume m) := by
  have hold := h.linked_idle hpc
  have hcont := h.cont_idle hpc
  rw [TschSchedule.resume]
  cases hk : m.cont with
  | done => exact h
  | addSlotframe handle size =>
    dsimp only
    split
    next div _ hnone =>
      refine h.request hpc m.adjust ?_ trivial nofun
      rw [applyCritical, Pool.alloc]
      cases hfree : m.sched.slotframeMemb.freeBlock with
      | none => exact hold
      | some sf =>
        refine (hold.insertedSlotframe hfree fun a ha => ?_).1
        simpa using find?_eq_none.mp hnone a ha
    · exact h.setCont hpc trivial
  | addLink sf args =>
    rw [hk] at hcont
    dsimp only
    split
    next hnone => exact h.setCont hpc ⟨hcont, fun k hk => by simpa using find?_eq_none.mp hnone k hk⟩
    next l hl => exact h.setCont hpc ⟨hcont, mem_of_find?_eq_some hl, by simpa using find?_some hl⟩
  | insertLink sf args =>
    rw [hk] at hcont
    obtain ⟨hsf, htimeslot⟩ := hcont
    refine h.request hpc m.adjust ?_ trivial nofun
    rw [applyCritical, Pool.alloc]
    cases hfree : m.sched.linkMemb.freeBlock with
    | none => exact hold
    | some l => exact hold.inserted hsf hfree htimeslot
  | removeLink sf l =>
    rw [hk] at hcont
    exact h.startRemove hpc hcont.1 hcont.2 (fun _ => trivial) fun _ => trivial
  | removeThenInsert sf l args =>
    rw [hk] at hcont
    obtain ⟨hsf, hl, htimeslot⟩ := hcont
    have hcount := hold.count_of_mem (mem_allLinks.mpr ⟨sf, hsf, hl⟩)
    refine h.startRemove hpc hsf hcount (fun _ => ?_) fun hne => absurd (hold.linkHandles sf hsf l hl) hne
    obtain ⟨-, hlist, hlinks, hlink⟩ := hold.removedLink hsf hl
    refine ⟨by rw [hlist]; exact hsf, fun k hk => ?_⟩
    rw [hlinks] at hk
    rw [hlink, ← htimeslot]
    exact hold.timeslot_ne hsf hl hk
  | removeSlotframe sf all =>
    rw [hk] at hcont
    have hsf : sf ∈ m.sched.slotframeList := hcont
    dsimp only
    split
    next l ls hcons =>
      refine h.setCont hpc ⟨hsf, ?_⟩
      rw [hcons]
      exact mem_cons_self
    next hnil =>
      refine h.request hpc m.adjust (hold.removedSlotframe hsf hnil).1 ?_ fun sf' hsf' => ?_
      · cases all <;> exact trivial
      · cases hsf'
        exact hnil
  | removeThenSlotframe sf l all =>
    rw [hk] at hcont
    obtain ⟨hsf, hl⟩ := hcont
    have hcount := hold.count_of_mem (mem_allLinks.mpr ⟨sf, hsf, hl⟩)
    refine h.startRemove hpc hsf hcount (fun _ => ?_) fun _ => hsf
    show sf ∈ (applyCritical (.removeLink sf l) m.sched).slotframeList
    rw [(hold.removedLink hsf hl).2.1]
    exact hsf
  | removeAllSlotframes =>
    dsimp only
    split
    · exact h.setCont hpc trivial
    next sf _ hcons =>
      refine h.setCont hpc ?_
      show sf ∈ m.sched.slotframeList
      rw [hcons]
      exact mem_cons_self

theorem currentLink_queueAddNbr (a : A) (s : State c) : (queueAddNbr a s).currentLink = s.currentLink := by
  rw [queueAddNbr]
  split
  · rfl
  · split <;> rfl

theorem MInv.adjustCounter (h : MInv m) (hpc : m.pc = .idle) (a : Adjust A) : MInv (adjustCounter a m) := by
  have hold := h.linked_idle hpc
  have hcont := h.cont_idle hpc
  rw [TschSchedule.adjustCounter]
  split
  · have hsame := sameSchedule_queueAddNbr a.addr m.sched
    exact h.request hpc _ (hsame.linked hold) (hsame.contOk hcont) nofun
  · have hsame : SameSchedule m.sched (if a.add then countLink a.options a.addr m.sched
        else uncountLink a.options a.addr m.sched) := by
      split
      · exact sameSchedule_countLink _ _ _
      · exact sameSchedule_uncountLink _ _ _
    have hcurrent : (if a.add then countLink a.options a.addr m.sched
        else uncountLink a.options a.addr m.sched).currentLink = m.sched.currentLink := by
      split
      · rw [countLink]
        split
        · exact currentLink_queueAddNbr _ _
        · rfl
      · rw [uncountLink]
        split
        · exact currentLink_queueAddNbr _ _
        · rfl
    set s' := if a.add then countLink a.options a.addr m.sched else uncountLink a.options a.addr m.sched
    refine ⟨?_, ?_, ?_, ?_, ?_, h.locked, h.lockRequested, fun hassoc => ?_, h.slot, fun htx => ?_, h.clean⟩
    · show Linked (complete m.pc s')
      rw [hpc]
      exact hsame.linked hold
    · intro hb
      exact hsame.linked hold
    · show ContOk (complete m.pc s') m.cont
      rw [hpc]
      exact hsame.contOk hcont
    · intro sf hsf
      rw [hpc] at hsf
      cases hsf
    · intro sf handle size hno
      rw [hpc] at hno
      cases hno
    · have hc := h.cached hassoc
      have hmay : mayTakeBackup s' = mayTakeBackup m.sched := by
        rw [mayTakeBackup, mayTakeBackup, hcurrent, hsame.link]
      refine ⟨fun l hl => ?_, fun hs l hl => ?_, fun l hl => ?_⟩
      · exact (hsame.inSchedule l).mpr (hc.current l (hcurrent ▸ hl))
      · exact (hsame.inSchedule l).mpr (hc.backup (hmay ▸ hs) l hl)
      · have hl : m.pc.writes = some l := hl
        rw [hpc] at hl
        cases hl
    · refine ⟨?_, (h.transmits htx).2⟩
      rw [hcurrent]
      exact (h.transmits htx).1

/-- A step with the lock: what the edit will have done stays the same. -/
theorem MInv.held (h : MInv m) (hheld : m.pc.holds = true) {pc' : Pc c}
    (adjust : Option (Adjust A)) (hcomplete : complete pc' s' = complete m.pc m.sched)
    (hholds : pc'.holds = true) (hbefore : pc'.before = false)
    (hcached : m.associated = true → Cached { m with sched := s', pc := pc', adjust := adjust })
    (hempty : ∀ sf, pc'.removes = some sf → (s'.slotframe sf).linksList = [] := by rintro _ ⟨⟩)
    (hfresh : ∀ sf handle size, pc' = .sfAllocated sf handle size → sf ∉ s'.slotframeList := by rintro _ _ _ ⟨⟩) :
    MInv { m with sched := s', pc := pc', adjust := adjust } := by
  refine ⟨?_, fun hb => ?_, ?_, hempty, hfresh, ?_, ?_, hcached, h.slot, fun htx => ?_, h.clean⟩
  · rw [hcomplete]
    exact h.linked
  · rw [hbefore] at hb
    cases hb
  · rw [hcomplete]
    exact h.cont
  · rw [hholds, h.locked, hheld]
  · have hasks : ∀ pc : Pc c, pc.holds = true → pc.asks = false := by
      intro pc hpc
      cases pc <;> first | rfl | cases hpc
    rw [hasks pc' hholds, h.lockRequested, hasks m.pc hheld]
  · rw [Pc.holds_of_early (h.transmits htx).2] at hheld
    cases hheld

omit [DecidableEq A] in
theorem Cached.held (h : Cached m) {pc' : Pc c} (adjust : Option (Adjust A))
    (hcurrent : s'.currentLink = m.sched.currentLink)
    (hlink : ∀ l, m.pc.writes ≠ some l → s'.link l = m.sched.link l)
    (hin : ∀ l, m.pc.writes ≠ some l → InSchedule m.sched l → InSchedule s' l)
    (hwrites : ∀ l, pc'.writes = some l → m.pc.writes = some l ∨ ¬InSchedule m.sched l) :
    Cached { m with sched := s', pc := pc', adjust := adjust } := by
  have hmay : mayTakeBackup s' = mayTakeBackup m.sched := by
    rw [mayTakeBackup, mayTakeBackup, hcurrent]
    cases hl : m.sched.currentLink with
    | none => rfl
    | some l => rw [any_some, any_some, hlink l fun hno => (h.writes l hno).1 hl]
  refine ⟨fun l hl => ?_, fun hs l hl => ?_, fun l hl => ?_⟩
  · have hl : m.sched.currentLink = some l := hcurrent ▸ hl
    exact hin l (fun hno => (h.writes l hno).1 hl) (h.current l hl)
  · have hs : mayTakeBackup m.sched = true := hmay ▸ hs
    exact hin l (fun hno => (h.writes l hno).2 hs hl) (h.backup hs l hl)
  · show s'.currentLink ≠ some l ∧ (mayTakeBackup s' = true → m.backupLink ≠ some l)
    rw [hcurrent, hmay]
    obtain hold | hnew := hwrites l hl
    · exact h.writes l hold
    · exact ⟨fun hl => hnew (h.current l hl), fun hs hl => hnew (h.backup hs l hl)⟩

/-- A write with the lock: the links that the edit does not remove stay in the schedule. -/
theorem MInv.written (h : MInv m) {pc pc' : Pc c} (hpc : m.pc = pc) {adjust : Option (Adjust A)}
    (hcomplete : complete pc' s' = complete pc m.sched) (hcurrent : s'.currentLink = m.sched.currentLink)
    (hin : ∀ l, pc.writes ≠ some l → InSchedule m.sched l → InSchedule s' l)
    (hlink : ∀ l, pc.writes ≠ some l → s'.link l = m.sched.link l := by exact fun _ _ => rfl)
    (hwrites : ∀ l, pc'.writes = some l → pc.writes = some l ∨ ¬InSchedule m.sched l := by rintro _ ⟨⟩)
    (hempty : ∀ sf, pc'.removes = some sf → (s'.slotframe sf).linksList = [] := by rintro _ ⟨⟩)
    (hfresh : ∀ sf handle size, pc' = .sfAllocated sf handle size → sf ∉ s'.slotframeList := by rintro _ _ _ ⟨⟩)
    (hheld : pc.holds = true := by rfl) (hholds : pc'.holds = true := by rfl) (hbefore : pc'.before = false := by rfl) :
    MInv { m with sched := s', pc := pc', adjust := adjust } := by
  subst hpc
  exact h.held hheld adjust hcomplete hholds hbefore
    (fun hassoc => (h.cached hassoc).held adjust hcurrent hlink hin hwrites) hempty hfresh

omit [DecidableEq A] in
theorem InSchedule.of_links {s : State c} (h : InSchedule s l) (hlist : s'.slotframeList = s.slotframeList)
    (hlinks : ∀ sf ∈ s.slotframeList, l ∈ (s.slotframe sf).linksList → l ∈ (s'.slotframe sf).linksList)
    (hcount : s.linkMemb.count l ≠ 0 → s'.linkMemb.count l ≠ 0) : InSchedule s' l := by
  obtain ⟨sf, hsf, hl⟩ := mem_allLinks.mp h.1
  refine ⟨mem_allLinks.mpr ⟨sf, ?_, hlinks sf hsf hl⟩, hcount h.2⟩
  rw [hlist]
  exact hsf

omit [DecidableEq A] in
theorem currentLink_clearCurrent (l : Fin c.maxLinks) (s : State c) :
    (clearCurrent l s).currentLink = if s.currentLink = some l then none else s.currentLink := by
  rw [clearCurrent]
  split <;> rfl

theorem MInv.enter (h : MInv m) {k : Critical c} (hpc : m.pc = .entered k)
    (hok : Spares m .edit) : MInv (enter k m) := by
  have hcomplete : complete (.entered k) m.sched = applyCritical k m.sched := rfl
  have hold : Linked m.sched := h.before (by rw [hpc]; rfl)
  cases k with
  | removeLink sf l =>
    refine h.held (by rw [hpc]; rfl) _ (by rw [hpc]; rfl) rfl rfl fun hassoc => ?_
    have hc := h.cached hassoc
    have hsame := sameSchedule_clearCurrent l m.sched
    have hspares : mayTakeBackup m.sched = true → m.sched.currentLink ≠ some l → m.backupLink ≠ some l := by
      simp only [Spares, hpc] at hok
      exact hok hassoc
    have hcases : ∀ k, (clearCurrent l m.sched).currentLink = some k → k ≠ l ∧ m.sched.currentLink = some k := by
      intro k hk
      rw [currentLink_clearCurrent] at hk
      split at hk
      · cases hk
      next hne =>
        refine ⟨?_, hk⟩
        rintro rfl
        exact hne hk
    have hmay : mayTakeBackup (clearCurrent l m.sched) = true →
        mayTakeBackup m.sched = true ∧ m.sched.currentLink ≠ some l := by
      intro hs
      rw [mayTakeBackup, hsame.link] at hs
      obtain ⟨a, ha, hrx⟩ := (any_eq_true _ _).mp hs
      obtain ⟨hal, hcur⟩ := hcases a ha
      rw [mayTakeBackup, hcur]
      exact ⟨hrx, fun hno => hal (some.inj hno)⟩
    refine ⟨fun k hk => ?_, fun hs k hk => ?_, fun k hk => ?_⟩
    · exact (hsame.inSchedule k).mpr (hc.current k (hcases k hk).2)
    · exact (hsame.inSchedule k).mpr (hc.backup (hmay hs).1 k hk)
    · cases hk
      exact ⟨fun hno => (hcases l hno).1 rfl, fun hs => hspares (hmay hs).1 (hmay hs).2⟩
  | insertLink sf args =>
    rw [TschSchedule.enter]
    rw [applyCritical] at hcomplete
    simp only [Pool.alloc] at hcomplete ⊢
    cases hfree : m.sched.linkMemb.freeBlock with
    | none =>
      rw [hfree] at hcomplete
      exact h.written hpc hcomplete.symm rfl fun _ _ hin => hin
    | some l =>
      rw [hfree] at hcomplete
      refine h.written hpc hcomplete.symm rfl (fun k _ hin => ?_) (fun _ _ => rfl) fun k hk => ?_
      · refine hin.of_links rfl (fun _ _ hk => hk) (fun hk => ?_)
        show update m.sched.linkMemb.count l _ k ≠ 0
        by_cases hkl : k = l
        · subst hkl
          rw [update_self]
          exact Nat.succ_ne_zero _
        · rw [update_of_ne hkl]
          exact hk
      · cases hk
        exact .inr fun hin => hin.2 (Pool.freeBlock_some hfree)
  | addSlotframe handle size =>
    rw [TschSchedule.enter]
    rw [applyCritical] at hcomplete
    simp only [Pool.alloc] at hcomplete ⊢
    cases hfree : m.sched.slotframeMemb.freeBlock with
    | none =>
      rw [hfree] at hcomplete
      exact h.written hpc hcomplete.symm rfl fun _ _ hin => hin
    | some sf =>
      rw [hfree] at hcomplete
      refine h.written hpc hcomplete.symm rfl (fun _ _ hin => hin) (fun _ _ => rfl) (by rintro _ ⟨⟩)
        (by rintro _ ⟨⟩) fun a _ _ ha => ?_
      cases ha
      exact hold.slotframes.not_mem_of_free hfree
  | removeSlotframe sf =>
    refine h.written hpc hcomplete.symm rfl (fun _ _ hin => hin) (fun _ _ => rfl) (by rintro _ ⟨⟩)
      fun a ha => ?_
    cases ha
    exact h.empty sf (by rw [hpc]; rfl)
  | addNbr addr =>
    have hsame := sameSchedule_queueAddNbr addr m.sched
    exact h.written hpc hcomplete.symm (currentLink_queueAddNbr addr _)
      (fun l _ hin => (hsame.inSchedule l).mpr hin) fun l _ => congrFun hsame.link l

/-- Every step of an edit keeps the invariant, as long as it spares the backup. -/
theorem MInv.edit (h : MInv m) (hok : Spares m .edit) (hstep : edit m = some m') : MInv m' := by
  rw [TschSchedule.edit] at hstep
  generalize hpc : m.pc = pc at hstep
  cases pc with
  | idle =>
    dsimp only at hstep
    split at hstep <;> cases hstep
    · exact h.adjustCounter hpc _
    · exact h.resume hpc
  | requested k =>
    dsimp only at hstep
    split at hstep
    · cases hstep
    next hslot =>
      cases hstep
      have h1 := h.linked
      have h2 := h.before
      have h3 := h.cont
      have h4 := h.empty
      have h6 := h.locked
      have h7 := h.lockRequested
      rw [hpc] at h1 h2 h3 h4 h6 h7
      have hnone : m.inSlot = none := by simpa using hslot
      refine ⟨h1, h2, h3, fun sf hsf => h4 sf ?_, nofun, h6, h7, fun hassoc => ?_,
        h.slot, fun htx => ?_, h.clean⟩
      · cases k <;> exact hsf
      · exact (h.cached hassoc).same rfl rfl nofun
      · have htx : m.inSlot = some true := htx
        rw [hnone] at htx
        cases htx
  | waited k =>
    cases hstep
    have h1 := h.linked
    have h2 := h.before
    have h3 := h.cont
    have h4 := h.empty
    rw [hpc] at h1 h2 h3 h4
    refine ⟨h1, h2, h3, fun sf hsf => h4 sf ?_, nofun, rfl, rfl, fun hassoc => ?_,
      h.slot, fun htx => ?_, h.clean⟩
    · cases k <;> exact hsf
    · exact (h.cached hassoc).same rfl rfl nofun
    · have hearly := (h.transmits htx).2
      rw [hpc] at hearly
      cases hearly
  | entered k =>
    cases hstep
    exact h.enter hpc hok
  | cleared sf l =>
    cases hstep
    refine h.written hpc rfl rfl (fun k hk hin => ?_) (fun _ _ => rfl) fun _ hk => .inl hk
    refine hin.of_links rfl (fun a _ hka => ?_) id
    have hkl : k ≠ l := by
      rintro rfl
      exact hk rfl
    by_cases hasf : a = sf
    · subst hasf
      rw [slotframe_unlinkLink_self]
      exact (mem_erase_of_ne hkl).mpr hka
    · rw [slotframe_unlinkLink_of_ne hasf]
      exact hka
  | unlinked sf l =>
    cases hstep
    refine h.written hpc rfl rfl fun k hk hin => ?_
    refine hin.of_links rfl (fun _ _ hka => hka) (fun hcount => ?_)
    have hkl : k ≠ l := by
      rintro rfl
      exact hk rfl
    show update m.sched.linkMemb.count l _ k ≠ 0
    rw [update_of_ne hkl]
    exact hcount
  | allocated sf l args =>
    cases hstep
    refine h.written hpc rfl rfl (fun k _ hin => ?_) (fun _ _ => rfl) fun _ hk => .inl hk
    refine hin.of_links rfl (fun a _ hka => ?_) id
    by_cases hasf : a = sf
    · subst hasf
      rw [slotframe_listLink_self]
      by_cases hkl : k = l
      · rw [hkl]
        exact mem_append_right _ (mem_singleton_self _)
      · exact mem_append_left _ ((mem_erase_of_ne hkl).mpr hka)
    · rw [slotframe_listLink_of_ne hasf]
      exact hka
  | listed sf l args =>
    cases hstep
    refine h.written hpc rfl rfl
      (fun k _ hin => hin.of_links rfl (fun _ _ hka => hka) id) fun k hk => ?_
    refine update_of_ne ?_ _ _
    rintro rfl
    exact hk rfl
  | sfAllocated sf handle size =>
    cases hstep
    have hno := h.fresh sf handle size hpc
    refine h.written hpc rfl rfl fun k _ hin => ?_
    refine hin.of_links rfl (fun a ha hka => ?_) id
    have hasf : a ≠ sf := by
      rintro rfl
      exact hno ha
    show k ∈ (update m.sched.slotframeMemb.mem sf _ a).linksList
    rw [update_of_ne hasf]
    exact hka
  | sfInitialized sf =>
    cases hstep
    refine h.written hpc rfl rfl fun k _ hin => ?_
    obtain ⟨a, ha, hka⟩ := mem_allLinks.mp hin.1
    refine ⟨mem_allLinks.mpr ⟨a, ?_, hka⟩, hin.2⟩
    by_cases hasf : a = sf
    · rw [hasf]
      exact mem_append_right _ (mem_singleton_self _)
    · exact mem_append_left _ ((mem_erase_of_ne hasf).mpr ha)
  | sfFreed sf =>
    cases hstep
    have hnil := h.empty sf (by rw [hpc]; rfl)
    refine h.written hpc rfl rfl fun k _ hin => ?_
    obtain ⟨a, ha, hka⟩ := mem_allLinks.mp hin.1
    refine ⟨mem_allLinks.mpr ⟨a, ?_, hka⟩, hin.2⟩
    refine (mem_erase_of_ne ?_).mpr ha
    rintro rfl
    rw [hnil] at hka
    cases hka
  | leaving =>
    cases hstep
    have h1 := h.linked
    have h3 := h.cont
    have h7 := h.lockRequested
    rw [hpc] at h1 h3 h7
    refine ⟨h1, nofun, h3, nofun, nofun, rfl,
      h7, fun hassoc => ?_, h.slot, fun htx => ?_, h.clean⟩
    · exact (h.cached hassoc).same rfl rfl nofun
    · have hearly := (h.transmits htx).2
      rw [hpc] at hearly
      cases hearly

omit [DecidableEq A] in
theorem call_cases {e : Cont c} (hstep : call e m = some m') :
    m.pc = .idle ∧ m' = { m with cont := e } ∧ ContOk m.sched e := by
  cases hpc : m.pc <;> cases hadjust : m.adjust <;> cases hcont : m.cont <;>
    simp only [call, hpc, hadjust, hcont] at hstep <;> try cases hstep
  cases e with
  | addSlotframe handle size =>
    cases hstep
    exact ⟨rfl, rfl, trivial⟩
  | removeAllSlotframes =>
    cases hstep
    exact ⟨rfl, rfl, trivial⟩
  | removeSlotframe sf all =>
    cases all with
    | false =>
      simp only [ite_none_right_eq_some, some.injEq] at hstep
      exact ⟨rfl, hstep.2.symm, hstep.1⟩
    | true => cases hstep
  | addLink sf args =>
    simp only [ite_none_right_eq_some, some.injEq] at hstep
    exact ⟨rfl, hstep.2.symm, hstep.1⟩
  | removeLink sf l =>
    simp only [ite_none_right_eq_some, some.injEq] at hstep
    exact ⟨rfl, hstep.2.symm, hstep.1⟩
  | _ => cases hstep

theorem MInv.call {e : Cont c} (h : MInv m) (hstep : call e m = some m') : MInv m' := by
  obtain ⟨hpc, rfl, hok⟩ := call_cases hstep
  exact h.setCont hpc hok

theorem minv_init : MInv (machineInit c) := by
  have hlinked : Linked (init c) := by
    refine ((sameSchedule_queueAddNbr _ _).trans (sameSchedule_queueAddNbr _ _)).linked ?_
    exact ⟨Pool.owns_init _, Pool.owns_init _, nofun, nofun,
      nofun⟩
  have hcurrent : (machineInit c).sched.currentLink = none := by
    show (init c).currentLink = none
    rw [init, currentLink_queueAddNbr, currentLink_queueAddNbr]
  refine ⟨hlinked, nofun, trivial, nofun,
    nofun, rfl, rfl, fun _ => ?_, nofun,
    nofun, rfl⟩
  refine ⟨fun l hl => ?_, fun hmay => absurd hmay (not_mayTakeBackup hcurrent), nofun⟩
  rw [hcurrent] at hl
  cases hl

theorem minv_run {es : List (Event c)} (hrun : Run machineStep Spares (machineInit c) es m) : MInv m := by
  refine hrun.invariant (fun m e m' h hok hstep => ?_) minv_init
  cases e with
  | call e => exact h.call hstep
  | edit => exact h.edit hok hstep
  | slotStart packet backupPacket desync missed => exact h.slotStart hstep
  | slotResume => exact h.slotResume hstep
  | slotFinish desync missed => exact h.slotFinish hstep

/-- Over every interleaving of edits and slots in which no edit removes the backup that the slot of another link may
    take, slots read through pointers into the schedule only. -/
theorem pointers_into_schedule {es : List (Event c)} {m : Machine c}
    (hrun : Run machineStep Spares (machineInit c) es m) : m.danglingRead = false :=
  (minv_run hrun).clean

/-- SLOTS AND EDITS: while the lock is free the schedule is sound, and while a slot transmits the lock is free and the
    slot's link is one of the schedule. -/
theorem schedule_between_edits {es : List (Event c)} {m : Machine c} (hrun : Run machineStep Spares (machineInit c) es m) :
    (m.locked = false → Linked m.sched) ∧ (m.inSlot = some true → m.locked = false ∧
      ∃ l, m.sched.currentLink = some l ∧ InSchedule m.sched l) := by
  have h := minv_run hrun
  refine ⟨h.linked_of_unlocked, fun hslot => ?_⟩
  obtain ⟨hcurrent, hearly⟩ := h.transmits hslot
  obtain ⟨l, hl⟩ := ne_none_iff_exists'.mp hcurrent
  exact ⟨h.locked.trans (Pc.holds_of_early hearly), l, hl, (h.cached (h.slot true hslot)).current l hl⟩

/-! ### A backup link that is removed -/

instance (m : Machine c) (pc : Pc c) : Decidable (SparesAt m pc) :=
  match pc with
  | .entered (.removeLink _ l) => inferInstanceAs (Decidable (m.associated = true →
      mayTakeBackup m.sched = true → m.sched.currentLink ≠ some l → m.backupLink ≠ some l))
  | .idle | .requested _ | .waited _ | .cleared _ _ | .unlinked _ _ | .allocated _ _ _ | .listed _ _ _
  | .sfAllocated _ _ _ | .sfInitialized _ | .sfFreed _ | .leaving
  | .entered (.addSlotframe _ _) | .entered (.removeSlotframe _) | .entered (.insertLink _ _)
  | .entered (.addNbr _) => isTrue trivial

instance (m : Machine c) (e : Event c) : Decidable (Spares m e) :=
  match e with
  | .edit => inferInstanceAs (Decidable (SparesAt m m.pc))
  | .call _ | .slotStart _ _ _ _ | .slotResume | .slotFinish _ _ => isTrue trivial

end

/-- Two slotframes, and a link for each. -/
def twoFrames : Config Nat := ⟨2, 2, 4, 4, 0, 255⟩

def frameA : Fin twoFrames.maxSlotframes := ⟨0, by decide⟩
def frameB : Fin twoFrames.maxSlotframes := ⟨1, by decide⟩
def linkA : Fin twoFrames.maxLinks := ⟨0, by decide⟩
def linkB : Fin twoFrames.maxLinks := ⟨1, by decide⟩

def edited (e : Cont twoFrames) : List (Event twoFrames) := .call e :: replicate 16 .edit

/-- A slot in which nothing is sent. -/
def quietSlot : Event twoFrames := .slotStart false false false 0

/-- A Tx link with an Rx link at the same time as its backup, and the slot that caches both. -/
def cachedLinks : List (Event twoFrames) :=
  edited (.addSlotframe 0 10) ++ edited (.addSlotframe 1 10) ++
    edited (.addLink frameA ⟨1, .normal, 7, 0, 0⟩) ++ edited (.addLink frameB ⟨2, .normal, 7, 0, 0⟩) ++
    [quietSlot]

/-- The link that is next may be removed: the slot in between finds no link, and caches the other. -/
theorem pointers_into_schedule_removeNext :
    ∃ m : Machine twoFrames,
      Run machineStep Spares (machineInit twoFrames)
        (cachedLinks ++ edited (.removeLink frameA linkA) ++ [quietSlot, quietSlot, .slotResume]) m ∧
      m.sched.currentLink = some linkB ∧
      m.inSlot = some false ∧
      m.danglingRead = false := by
  obtain ⟨m, hrun, hm⟩ : ∃ m : Machine twoFrames, Run machineStep Spares (machineInit twoFrames)
      (cachedLinks ++ edited (.removeLink frameA linkA) ++ [quietSlot, quietSlot, .slotResume]) m ∧ _ :=
    exists_run (fun m e => decide (Spares m e)) (fun m : Machine twoFrames =>
      decide (m.sched.currentLink = some linkB ∧ m.inSlot = some false))
      (fun _ _ => of_decide_eq_true) (by decide)
  have hm := of_decide_eq_true hm
  exact ⟨m, hrun, hm.1, hm.2, pointers_into_schedule hrun⟩

/-- A slot that transmits on the link that the slot before it has found. -/
theorem schedule_between_edits_sending : ∃ m : Machine twoFrames, m.inSlot = some true ∧ m.locked = false ∧
    ∃ l, m.sched.currentLink = some l ∧ InSchedule m.sched l := by
  obtain ⟨m, hrun, hm⟩ : ∃ m : Machine twoFrames, Run machineStep Spares (machineInit twoFrames)
      (cachedLinks ++ [.slotStart true false false 0]) m ∧ _ :=
    exists_run (fun m e => decide (Spares m e)) (fun m : Machine twoFrames => decide (m.inSlot = some true))
      (fun _ _ => of_decide_eq_true) (by decide)
  have hm := of_decide_eq_true hm
  exact ⟨m, hm, (schedule_between_edits hrun).2 hm⟩

/-- The backup of the link that is next is removed, and the next slot reads through the pointer to it. -/
theorem removed_backup_read :
    ∃ m : Machine twoFrames,
      Run machineStep (fun _ _ => True) (machineInit twoFrames)
        (cachedLinks ++ edited (.removeLink frameB linkB) ++ [quietSlot]) m ∧
      m.backupLink = some linkB ∧
      ¬InSchedule m.sched linkB ∧
      m.danglingRead = true := by
  obtain ⟨m, hrun, hm⟩ : ∃ m : Machine twoFrames, Run machineStep (fun _ _ => True) (machineInit twoFrames)
        (cachedLinks ++ edited (.removeLink frameB linkB) ++ [quietSlot]) m ∧ _ :=
    exists_run (fun _ _ => true) (fun m : Machine twoFrames =>
      decide (m.backupLink = some linkB ∧ ¬InSchedule m.sched linkB ∧ m.danglingRead = true))
      (fun _ _ _ => trivial) (by decide)
  exact ⟨m, hrun, of_decide_eq_true hm⟩

end CSync.TschSchedule
