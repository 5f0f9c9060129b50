import CSync.Tsch.Association

/-! When a beacon leaves a node with a configuration that it can work with. The parts of `tsch_associate` are
    looked at one by one: the elements always parse or fail, a hopping sequence divides by its length, the
    schedule keeps the timeslots that find a place, and keep-alives divide by a tenth of their timeout. -/

namespace CSync

open InformationElements (Ies Element descLen descId descType)

namespace TschAssociation

/-! ### The elements -/

theorem outcome_value {e : Element} {len : Nat} {ies : Ies} {r : Option (Int × Ies)}
    (h : InformationElements.Outcome e len ies r) (hno : ¬e.Overruns) : ∃ v, r = some v := by
  cases h with
  | overrun hover => exact absurd hover hno
  | accepted ies' _ _ _ _ => exact ⟨_, rfl⟩
  | rejected ies' _ _ => exact ⟨_, rfl⟩

section
variable (maxLen : Nat) {behind : List UInt8} (hbehind : behind.length = 8)
include hbehind

theorem nestedElement_value (nested : Int) (desc : UInt16) (buf : List UInt8) (ies : Ies) :
    ∃ v, nestedElement maxLen behind nested desc buf ies = some v := by
  rw [nestedElement]
  have hlength : (buf ++ behind).length = buf.length + 8 := by rw [List.length_append, hbehind]
  by_cases htype : descType desc = true
  · simp only [htype, if_true]
    split
    · exact ⟨_, rfl⟩
    next hlen =>
      have hno : ¬Element.Overruns (.ie .long (descId desc 11) (descLen desc 11) (buf ++ behind)) := by
        rintro ⟨-, htwo, hten⟩
        omega
      obtain ⟨v, hv⟩ := outcome_value (InformationElements.parseMlmeLongIe_outcome maxLen (descId desc 11) ies
        (by omega)) hno
      rw [hv]
      exact ⟨_, rfl⟩
  · simp only [htype, if_false, Bool.false_eq_true]
    split
    · exact ⟨_, rfl⟩
    next hlen =>
      have hno : ¬Element.Overruns (.ie .short (descId desc 8) (descLen desc 8) (buf ++ behind)) := by
        rintro ⟨-, hone, hfive⟩
        omega
      obtain ⟨v, hv⟩ := outcome_value (InformationElements.parseMlmeShortIe_outcome (descId desc 8) ies
        (by omega)) hno
      rw [hv]
      exact ⟨_, rfl⟩

omit hbehind in
theorem headerElement_value (offset : Nat) (nested : Int) (desc : UInt16) (buf : List UInt8) (ies : Ies) :
    ∃ v, InformationElements.headerElement offset nested desc buf ies = some v := by
  rw [InformationElements.headerElement]
  split
  · exact ⟨_, rfl⟩
  · split
    · split
      · exact ⟨_, rfl⟩
      · exact ⟨_, rfl⟩
    · split
      · split
        · exact ⟨_, rfl⟩
        · exact ⟨_, rfl⟩
      · split
        · exact ⟨_, rfl⟩
        next hlen =>
          obtain ⟨v, hv⟩ := outcome_value (InformationElements.parseHeaderIe_outcome (descId desc 7) ies
            (show descLen desc 7 ≤ buf.length by omega)) (fun hover => hover)
          rw [hv]
          exact ⟨_, rfl⟩

omit hbehind in
theorem payloadElement_value (offset : Nat) (desc : UInt16) (ies : Ies) :
    ∃ v, InformationElements.payloadElement offset desc ies = some v := by
  rw [InformationElements.payloadElement]
  split
  · exact ⟨_, rfl⟩
  · split
    · exact ⟨_, rfl⟩
    · split
      · exact ⟨_, rfl⟩
      · exact ⟨_, rfl⟩

theorem loop_value (size : Nat) (parsingState : InformationElements.ParsingState) (nested : Int) (ies : Ies)
    (buf : List UInt8) : ∃ v, loop maxLen behind size parsingState nested ies buf = some v := by
  fun_induction loop maxLen behind size parsingState nested ies buf with
  | case1 => exact ⟨_, rfl⟩
  | case2 => exact ⟨_, rfl⟩
  | case3 parsingState nested ies lo hi buf hnone =>
    have hvalue : ∃ v, parseElement maxLen behind (size - buf.length) parsingState nested
        (InformationElements.descOf lo hi) buf ies = some v := by
      cases parsingState with
      | headerIe => exact headerElement_value _ _ _ _ _
      | payloadIe => exact payloadElement_value _ _ _
      | mlmeSubie => exact nestedElement_value maxLen hbehind _ _ _ _
    obtain ⟨v, hv⟩ := hvalue
    rw [hv] at hnone
    cases hnone
  | case4 => exact ⟨_, rfl⟩
  | case5 _ _ _ _ _ _ _ _ _ _ _ ih => exact ih

end

/-- Every packet is a beacon or none. -/
theorem parseEb_value (b : Build) (data : Nat → UInt8) (len : Int) (frame₀ : Frame802154.Frame)
    (frameWithoutMic : Bool) : ∃ v, parseEb b data len frame₀ frameWithoutMic = some v := by
  have hbehind : ∀ f : Nat → UInt8, ((List.range 8).map f).length = 8 := by simp
  rw [parseEb]
  dsimp only
  split
  · exact ⟨_, rfl⟩
  · split
    · exact ⟨_, rfl⟩
    · obtain ⟨mic, hmic⟩ : ∃ mic : Nat, (if (b.llsecEnabled && !frameWithoutMic) = true then
          micLen (Frame802154.parse b.frame data len frame₀).2 else 0) = mic := ⟨_, rfl⟩
      rw [hmic]
      split
      · exact ⟨_, rfl⟩
      · rw [parseInformationElements]
        obtain ⟨v, hv⟩ := loop_value b.hoppingSequenceMaxLen (hbehind _) _ _ _ _ _
        rw [hv]
        exact ⟨_, rfl⟩

/-! ### The schedule -/

open TschSchedule (Linked SameSchedule timeslotsOf placeTimeslot)

variable {c : ScheduleConfig}

/-- Every link is at a timeslot of its slotframe. -/
def Fits (sched : TschSchedule.State c) : Prop :=
  ∀ sf ∈ sched.slotframeList, ∀ t ∈ timeslotsOf sched sf, t.toNat < (sched.slotframe sf).size.val

variable {s : TschSchedule.State c}

theorem SameSchedule.fits {t : TschSchedule.State c} (h : SameSchedule s t) : Fits t ↔ Fits s := by
  rw [Fits, Fits, h.slotframeList, h.slotframe]
  simp only [timeslotsOf, h.slotframe, h.link]

variable {sf : Fin c.maxSlotframes}

theorem fits_single (hlist : s.slotframeList = [sf]) :
    Fits s ↔ ∀ t ∈ timeslotsOf s sf, t.toNat < (s.slotframe sf).size.val := by
  rw [Fits, hlist, List.forall_mem_singleton]

theorem addSlotframe_empty (h : Linked s) (hlist : s.slotframeList = []) (handle size : UInt16) : ((size = 0 ∨
    c.maxSlotframes = 0) ∧ TschSchedule.addSlotframe handle size s = (none, s)) ∨ (¬(size = 0 ∨ c.maxSlotframes = 0) ∧
    ∃ sf s', TschSchedule.addSlotframe handle size s = (some sf, s') ∧ Linked s' ∧ s'.slotframeList = [sf] ∧
    timeslotsOf s' sf = [] ∧ (s'.slotframe sf).size.val = size.toNat) := by
  have hlinked := h.addSlotframe handle size
  have hnone : TschSchedule.getSlotframeByHandle s handle = none := by
    rw [TschSchedule.getSlotframeByHandle, hlist]
    rfl
  by_cases hsize : size = 0
  · refine .inl ⟨.inl hsize, ?_⟩
    rw [TschSchedule.addSlotframe, hsize]
    rfl
  · have hdiv : TschSchedule.asnDivisorInit size.toNat =
        some ⟨size.toNat, (0xffffffff % size.toNat + 1) % size.toNat⟩ := by
      rw [TschSchedule.asnDivisorInit, if_neg]
      intro hzero
      exact hsize (UInt16.toNat_inj.mp hzero)
    rw [TschSchedule.addSlotframe, hdiv, hnone] at hlinked ⊢
    rw [Lib.Pool.alloc] at hlinked ⊢
    by_cases hroom : c.maxSlotframes = 0
    · refine .inl ⟨.inr hroom, ?_⟩
      cases hfree : s.slotframeMemb.freeBlock with
      | none => rfl
      | some sf =>
        have hlt := sf.isLt
        omega
    · have howns := h.slotframes
      rw [hlist] at howns
      obtain ⟨sf, hsf⟩ := howns.exists_free (Nat.pos_of_ne_zero hroom)
      rw [hsf] at hlinked ⊢
      refine .inr ⟨by rintro (hno | hno); exacts [hsize hno, hroom hno], sf, _, rfl, hlinked, ?_, ?_, ?_⟩
      · show s.slotframeList.erase sf ++ [sf] = [sf]
        rw [hlist]
        rfl
      · show ((TschSchedule.insertedSlotframe sf handle _ s).slotframe sf).linksList.map _ = []
        rw [TschSchedule.slotframe_insertedSlotframe_self]
        rfl
      · show ((TschSchedule.insertedSlotframe sf handle _ s).slotframe sf).size.val = size.toNat
        rw [TschSchedule.slotframe_insertedSlotframe_self]

theorem addEbLinks_timeslots (links : Nat → InformationElements.Link) :
    ∀ (n : Nat) {s : TschSchedule.State c}, Linked s → s.slotframeList = [sf] →
      Linked (addEbLinks (some sf) links n s) ∧ (addEbLinks (some sf) links n s).slotframeList = [sf] ∧
      ((addEbLinks (some sf) links n s).slotframe sf).size = (s.slotframe sf).size ∧
      timeslotsOf (addEbLinks (some sf) links n s) sf =
        ((List.range n).map fun i => (links i).timeslot).foldl (placeTimeslot c.maxLinks) (timeslotsOf s sf)
  | 0, _, h, hlist => ⟨h, hlist, rfl, rfl⟩
  | n + 1, s, h, hlist => by
    obtain ⟨hlinked, hlist', hsize, hts⟩ := addEbLinks_timeslots links n h hlist
    obtain ⟨hts', hsize', hlist''⟩ := hlinked.timeslots_addLink hlist' (ebLink c (links n))
    refine ⟨hlinked.addLink (by rw [hlist']; exact List.mem_singleton_self sf) _, hlist'', hsize'.trans hsize, ?_⟩
    rw [List.range_succ, List.map_append, List.foldl_append, ← hts]
    exact hts'

theorem addEbLinks_none (links : Nat → InformationElements.Link) (s : TschSchedule.State c) :
    ∀ n, addEbLinks none links n s = s
  | 0 => rfl
  | n + 1 => addEbLinks_none links s n

theorem fits_empty (hlist : s.slotframeList = []) : Fits s := by
  intro sf hsf
  rw [hlist] at hsf
  cases hsf

theorem fits_createMinimal (b : Build) (h : Linked s) : Fits (createMinimal b s) := by
  obtain ⟨hlinked, hnil⟩ := h.removeAllSlotframes
  rw [createMinimal]
  rcases addSlotframe_empty hlinked hnil 0 b.scheduleDefaultLength with ⟨-, hadd⟩ | ⟨hno, sf, s', hadd, hl, hlist, hts, hsize⟩
  · rw [hadd]
    exact fits_empty hnil
  · rw [hadd]
    obtain ⟨hts', hsize', hlist'⟩ := hl.timeslots_addLink hlist ⟨15, .advertising, c.broadcastAddress, 0, 0⟩
    refine (fits_single hlist').mpr fun t ht => ?_
    have hpos : 0 < b.scheduleDefaultLength.toNat := by
      rcases Nat.eq_zero_or_pos b.scheduleDefaultLength.toNat with hzero | hpos
      · exact absurd (.inl (UInt16.toNat_inj.mp hzero)) hno
      · exact hpos
    rw [hts', hts, placeTimeslot] at ht
    have hzero : t = 0 := by
      split at ht
      · simpa using ht
      · cases ht
    rw [hzero, hsize', hsize]
    exact hpos

/-- The beacon brings a schedule, or there is one for beacons without. -/
def replacesSchedule (b : Build) (ies : Ies) : Bool :=
  b.initScheduleFromEb && (ies.tschSlotframeAndLink.numSlotframes != 0 || b.scheduleWith6tischMinimal)

/-- The timeslots of the links of a beacon that find a place. -/
def ebTimeslots (c : ScheduleConfig) (ies : Ies) : List UInt16 :=
  if ies.tschSlotframeAndLink.numSlotframes = 0 ∨ ies.tschSlotframeAndLink.slotframeSize = 0 ∨
      c.maxSlotframes = 0 then []
  else ((List.range ies.tschSlotframeAndLink.numLinks.toNat).map fun i =>
    (ies.tschSlotframeAndLink.links i).timeslot).foldl (placeTimeslot c.maxLinks) []

variable {ies : Ies}

theorem fits_setSchedule {b : Build} (h : Linked s)
    (hreplaces : replacesSchedule b ies = true) (hfew : tooManyLinks b ies = false) : Fits (setSchedule b ies s) ↔
      ∀ t ∈ ebTimeslots c ies, t.toNat < ies.tschSlotframeAndLink.slotframeSize.toNat := by
  rw [replacesSchedule, Bool.and_eq_true] at hreplaces
  obtain ⟨hinit, hreplaces⟩ := hreplaces
  rw [setSchedule, if_neg (by rw [hinit]; decide)]
  by_cases hzero : ies.tschSlotframeAndLink.numSlotframes = 0
  · have hminimal : b.scheduleWith6tischMinimal = true := by simpa [hzero] using hreplaces
    rw [if_pos hzero, if_pos hminimal, ebTimeslots, if_pos (.inl hzero)]
    exact iff_of_true (fits_createMinimal b h) nofun
  · rw [if_neg hzero, if_neg (by rw [hfew]; decide)]
    obtain ⟨hlinked, hnil⟩ := h.removeAllSlotframes
    rcases addSlotframe_empty hlinked hnil ies.tschSlotframeAndLink.slotframeHandle.toUInt16
      ies.tschSlotframeAndLink.slotframeSize with ⟨hno, hadd⟩ | ⟨hok, sf, s', hadd, hl, hlist, hts, hsize⟩
    · rw [hadd, ebTimeslots, if_pos (.inr hno)]
      refine iff_of_true ?_ nofun
      show Fits (addEbLinks none _ _ _)
      rw [addEbLinks_none]
      exact fits_empty hnil
    · rw [hadd, ebTimeslots, if_neg (by rintro (hno | hno); exacts [hzero hno, hok hno])]
      obtain ⟨-, hlist', hsize', hts'⟩ := addEbLinks_timeslots ies.tschSlotframeAndLink.links
        ies.tschSlotframeAndLink.numLinks.toNat hl hlist
      rw [fits_single hlist', hts', hsize', hsize, hts]

/-! ### Joining -/

/-- A keep-alive that can be scheduled. -/
def Alive (s : State c) : Prop :=
  s.sched.isCoordinator = false → s.isAssociated = true → 0 < s.kaTimeout → 10 ≤ s.kaTimeout

theorem scheduleKeepalive_cases (random : Nat) (s : State c) : (¬Alive s ∧ scheduleKeepalive random s = none) ∨
    (Alive s ∧ ∃ delay, scheduleKeepalive random s = some { s with keepaliveDelay := delay }) := by
  rw [scheduleKeepalive]
  by_cases hsends : s.sched.isCoordinator = false ∧ s.isAssociated = true ∧ 0 < s.kaTimeout
  · rw [if_pos hsends]
    obtain ⟨hcoordinator, hassoc, hpos⟩ := hsends
    by_cases hzero : s.kaTimeout / 10 = 0
    · refine .inl ⟨fun halive => ?_, if_pos hzero⟩
      have := halive hcoordinator hassoc hpos
      omega
    · refine .inr ⟨fun _ _ _ => by omega, _, if_neg hzero⟩
  · rw [if_neg hsends]
    exact .inr ⟨fun hc ha hp => absurd ⟨hc, ha, hp⟩ hsends, s.keepaliveDelay, rfl⟩

theorem isCoordinator_queueAddNbr (addr : List UInt8) (s : TschSchedule.State c) :
    (TschSchedule.queueAddNbr addr s).isCoordinator = s.isCoordinator := by
  rw [TschSchedule.queueAddNbr]
  split
  · rfl
  · split <;> rfl

theorem isCoordinator_queueUpdateTimeSource (newAddr : Option (List UInt8)) (s : TschSchedule.State c) :
    (TschSchedule.queueUpdateTimeSource newAddr s).isCoordinator = s.isCoordinator := by
  rw [TschSchedule.queueUpdateTimeSource]
  split
  · rfl
  · cases newAddr with
    | none =>
      dsimp only
      split <;> rfl
    | some a =>
      dsimp only
      have hadd := isCoordinator_queueAddNbr a s
      split
      · exact hadd
      · split
        · exact hadd
        · split <;> exact hadd

/-- The timeout of the keep-alives of a node that joins. -/
def joinTimeout (b : Build) (addr : List UInt8) (s : State c) : Nat :=
  if newTimeSource addr s.sched then b.keepaliveTimeout else s.kaTimeout

/-- The keep-alives of a node that joins can be scheduled. -/
def JoinAlive (b : Build) (addr : List UInt8) (s : State c) : Prop :=
  s.sched.isCoordinator = false → 0 < joinTimeout b addr s → 10 ≤ joinTimeout b addr s

theorem updateTimeSource_cases (b : Build) (random : Nat) (addr : List UInt8) (s : State c) :
    (¬JoinAlive b addr s ∧ updateTimeSource b random addr s = none) ∨
    ∃ delay, updateTimeSource b random addr s = some { s with
      sched := TschSchedule.queueUpdateTimeSource (some addr) s.sched
      kaTimeout := joinTimeout b addr s
      keepaliveDelay := delay } := by
  rw [updateTimeSource, joinTimeout]
  by_cases hnew : newTimeSource addr s.sched = true
  · simp only [hnew, if_true]
    rcases scheduleKeepalive_cases random { s with
        sched := TschSchedule.queueUpdateTimeSource (some addr) s.sched
        kaTimeout := b.keepaliveTimeout } with ⟨hno, hnone⟩ | ⟨-, delay, hsome⟩
    · refine .inl ⟨fun halive => hno fun hc _ hp => ?_, hnone⟩
      rw [JoinAlive, joinTimeout, if_pos hnew] at halive
      exact halive ((isCoordinator_queueUpdateTimeSource _ _).symm.trans hc) hp
    · exact .inr ⟨delay, hsome⟩
  · simp only [hnew, if_false, Bool.false_eq_true]
    exact .inr ⟨s.keepaliveDelay, rfl⟩

/-- A node that finds a place for its neighbor joins unless a keep-alive divides by zero. -/
theorem join_cases (b : Build) (frame : Frame802154.Frame) (timestamp : Int) (random₁ random₂ : Nat)
    {s t : State c} (ht : t = { s with sched := TschSchedule.queueAddNbr (linkaddr b frame.srcAddr) s.sched }) :
    ((TschSchedule.queueGetNbr t.sched (linkaddr b frame.srcAddr)).isNone = true ∧
      join b frame timestamp random₁ random₂ s = some (false, t)) ∨
    ((TschSchedule.queueGetNbr t.sched (linkaddr b frame.srcAddr)).isNone = false ∧
      ((¬JoinAlive b (linkaddr b frame.srcAddr) t ∧ join b frame timestamp random₁ random₂ s = none) ∨
      (JoinAlive b (linkaddr b frame.srcAddr) t ∧ ∃ s', join b frame timestamp random₁ random₂ s = some (true, s') ∧
        SameSchedule s.sched s'.sched ∧ s'.hoppingSequenceLength = s.hoppingSequenceLength ∧
        s'.timing = s.timing))) := by
  set addr := linkaddr b frame.srcAddr with haddr
  have hjoin : join b frame timestamp random₁ random₂ s =
      if (TschSchedule.queueGetNbr t.sched addr).isNone = true then some (false, t)
      else (updateTimeSource b random₁ addr t).bind fun s =>
        (scheduleKeepalive random₂ { s with
          panId := frame.srcPid
          currentSlotStart := timestamp - s.timing tsTxOffset
          lastSyncAsn := s.currentAsn
          sched := { s.sched with currentLink := none }
          isAssociated := true
          isPanSecured := frame.fcf.securityEnabled }).bind fun s => some (true, s) := by
    rw [ht]
    rfl
  rw [hjoin]
  by_cases hnone : (TschSchedule.queueGetNbr t.sched addr).isNone = true
  · exact .inl ⟨hnone, if_pos hnone⟩
  · refine .inr ⟨Bool.eq_false_iff.mpr hnone, ?_⟩
    rw [if_neg hnone]
    rcases updateTimeSource_cases b random₁ addr t with ⟨hno, heq⟩ | ⟨delay, heq⟩
    · exact .inl ⟨hno, by rw [heq]; rfl⟩
    · rw [heq, Option.bind_some]
      have hcoordinator := isCoordinator_queueUpdateTimeSource (some addr) t.sched
      have hsame : SameSchedule s.sched (TschSchedule.queueUpdateTimeSource (some addr) t.sched) := by
        have hadd := TschSchedule.sameSchedule_queueAddNbr addr s.sched
        have hsched : t.sched = TschSchedule.queueAddNbr addr s.sched := by rw [ht]
        rw [← hsched] at hadd
        exact hadd.trans (TschSchedule.sameSchedule_queueUpdateTimeSource _ _)
      rcases scheduleKeepalive_cases random₂ { t with
          sched := { TschSchedule.queueUpdateTimeSource (some addr) t.sched with currentLink := none }
          kaTimeout := joinTimeout b addr t
          keepaliveDelay := delay
          panId := frame.srcPid
          currentSlotStart := timestamp - t.timing tsTxOffset
          lastSyncAsn := t.currentAsn
          isAssociated := true
          isPanSecured := frame.fcf.securityEnabled } with ⟨hno, hdiv⟩ | ⟨halive, delay', hsome⟩
      · refine .inl ⟨fun hjoin => hno fun hc _ hp => hjoin (hcoordinator.symm.trans hc) hp, ?_⟩
        rw [hdiv]
        rfl
      · refine .inr ⟨fun hc hp => halive (hcoordinator.trans hc) rfl hp, ?_⟩
        rw [hsome]
        exact ⟨_, rfl, hsame.trans ⟨rfl, rfl, rfl⟩, by rw [ht], by rw [ht]⟩

/-! ### The call -/

/-- What a node that joins works with: channels, a timeslot, and links within their slotframes if it has
    replaced its schedule. -/
structure Usable (b : Build) (ies : Ies) (s : State c) : Prop where
  hopping_pos : 0 < s.hoppingSequenceLength.val
  hopping_le : s.hoppingSequenceLength.val ≤ b.hoppingSequenceMaxLen
  timeslot : s.timing tsTimeslotLength ≠ 0
  links : replacesSchedule b ies = true → Fits s.sched

/-- The call has not divided by zero, and a node that joins has what it works with. -/
def JoinsUsable (b : Build) (data : Nat → UInt8) (len : Int) (frame₀ : Frame802154.Frame)
    (r : Option (Bool × State c)) : Prop :=
  ∃ joined s, r = some (joined, s) ∧ (joined = true →
    ∃ frame ies, parseEb b data len frame₀ false = some (some (frame, ies)) ∧ Usable b ies s)

/-- The schedule with the neighbor that sent the beacon. -/
def joinSchedule (b : Build) (frame : Frame802154.Frame) (ies : Ies) (s : State c) : TschSchedule.State c :=
  TschSchedule.queueAddNbr (linkaddr b frame.srcAddr) (setSchedule b ies s.sched)

/-- The node takes the beacon, and has a place for the neighbor that sent it. -/
def joins (b : Build) (authentic : Bool) (frame : Frame802154.Frame) (ies : Ies) (s : State c) : Bool :=
  !refused b authentic frame ies && !hoppingTooLong b ies && !tooManyLinks b ies &&
    decide ((ies.joinPriority + 1).toNat < b.maxJoinPriority) &&
    (TschSchedule.queueGetNbr (joinSchedule b frame ies s) (linkaddr b frame.srcAddr)).isSome

/-- The beacon configures a node: a hopping sequence of its own has channels, and for a node that joins, its
    timeslots last, its links are within the slotframe, and keep-alives can be scheduled. -/
structure Configures (b : Build) (authentic : Bool) (frame : Frame802154.Frame) (ies : Ies) (s : State c) :
    Prop where
  hopping : refused b authentic frame ies = false → ies.channelHoppingSequenceId ≠ 0 →
    ies.hoppingSequenceLen ≠ 0
  timeslot : joins b authentic frame ies s = true → timingOf b ies tsTimeslotLength ≠ 0
  links : joins b authentic frame ies s = true → b.initScheduleFromEb = true →
    ∀ t ∈ ebTimeslots c ies, t.toNat < ies.tschSlotframeAndLink.slotframeSize.toNat
  keepalive : joins b authentic frame ies s = true → (joinSchedule b frame ies s).isCoordinator = false →
    let timeout := if newTimeSource (linkaddr b frame.srcAddr) (joinSchedule b frame ies s)
      then b.keepaliveTimeout else s.kaTimeout
    0 < timeout → 10 ≤ timeout

theorem setHopping_cases (b : Build) (ies : Ies) (s : State c) :
    ((ies.channelHoppingSequenceId ≠ 0 ∧ ies.hoppingSequenceLen = 0) ∧ setHopping b ies s = none) ∨
    (¬(ies.channelHoppingSequenceId ≠ 0 ∧ ies.hoppingSequenceLen = 0) ∧ ∃ sequence div,
      setHopping b ies s = some { s with hoppingSequence := sequence, hoppingSequenceLength := div } ∧
      0 < div.val ∧ (hoppingTooLong b ies = false → div.val ≤ b.hoppingSequenceMaxLen)) := by
  rw [setHopping]
  by_cases hid : ies.channelHoppingSequenceId = 0
  · rw [if_pos hid, copyHopping, TschSchedule.asnDivisorInit, if_neg (ne_of_gt b.default_pos)]
    exact .inr ⟨fun h => h.1 hid, _, _, rfl, b.default_pos, fun _ => b.default_le⟩
  · rw [if_neg hid, copyHopping, TschSchedule.asnDivisorInit]
    by_cases hzero : ies.hoppingSequenceLen.toNat = 0
    · exact .inl ⟨⟨hid, UInt16.toNat_inj.mp hzero⟩, by rw [if_pos hzero]; rfl⟩
    · rw [if_neg hzero]
      refine .inr ⟨fun h => hzero (by rw [h.2]; rfl), _, _, rfl, Nat.pos_of_ne_zero hzero, fun hfits => ?_⟩
      rw [hoppingTooLong, Bool.and_eq_false_iff] at hfits
      rcases hfits with hno | hle
      · exact absurd (by simpa using hno) hid
      · exact Nat.le_of_not_lt (by simpa using hle)

variable (b : Build) (data : Nat → UInt8) (len : Int) (frame₀ : Frame802154.Frame) (authentic : Bool)
  (timestamp : Int) (random₁ random₂ : Nat)

/-- A call that does not join keeps the promise. -/
theorem joinsUsable_false (s : State c) : JoinsUsable b data len frame₀ (some (false, s)) :=
  ⟨false, s, rfl, nofun⟩

variable {frame : Frame802154.Frame}

/-- The variables in front of the part that joins. -/
theorem associate_configured {s t : State c}
    (hparse : parseEb b data len frame₀ false = some (some (frame, ies)))
    (hrefused : refused b authentic frame ies = false) (hfits : hoppingTooLong b ies = false)
    (hset : setHopping b ies (setTiming b ies { s with
      currentAsn := ⟨ies.asnLs4b, ies.asnMs1b⟩, joinPriority := ies.joinPriority + 1 }) = some t) :
    associate b data len frame₀ authentic timestamp random₁ random₂ s =
      if tooManyLinks b ies then some (false, { t with sched := setSchedule b ies t.sched })
      else if t.joinPriority.toNat < b.maxJoinPriority then
        join b frame timestamp random₁ random₂ { t with sched := setSchedule b ies t.sched }
      else some (false, { t with sched := setSchedule b ies t.sched }) := by
  rw [associate, hparse]
  show (if _ then _ else if _ then _ else _) = _
  rw [hrefused, hfits, if_neg Bool.false_ne_true, if_neg Bool.false_ne_true, hset]
  rfl

theorem joinsUsable_of_hopping {s : State c} (hs : Linked s.sched)
    (hparse : parseEb b data len frame₀ false = some (some (frame, ies)))
    (hrefused : refused b authentic frame ies = false) (hfits : hoppingTooLong b ies = false)
    (hhopping : ¬(ies.channelHoppingSequenceId ≠ 0 ∧ ies.hoppingSequenceLen = 0)) :
    JoinsUsable b data len frame₀ (associate b data len frame₀ authentic timestamp random₁ random₂ s) ↔
      Configures b authentic frame ies s := by
  rcases setHopping_cases b ies (setTiming b ies { s with
      currentAsn := ⟨ies.asnLs4b, ies.asnMs1b⟩, joinPriority := ies.joinPriority + 1 }) with
    ⟨hno, -⟩ | ⟨-, sequence, div, hset, hpos, hle⟩
  · exact absurd hno hhopping
  rw [associate_configured b data len frame₀ authentic timestamp random₁ random₂ hparse hrefused hfits hset]
  have hchannels : refused b authentic frame ies = false → ies.channelHoppingSequenceId ≠ 0 →
      ies.hoppingSequenceLen ≠ 0 := fun _ hid hzero => hhopping ⟨hid, hzero⟩
  -- without a place for the node, there is nothing to promise
  have hnone : ∀ s' : State c, joins b authentic frame ies s = false →
      (JoinsUsable b data len frame₀ (some (false, s')) ↔ Configures b authentic frame ies s) := by
    intro s' hno
    refine iff_of_true (joinsUsable_false b data len frame₀ s') ⟨hchannels, ?_, ?_, ?_⟩
    · exact fun h => by rw [hno] at h; cases h
    · exact fun h => by rw [hno] at h; cases h
    · exact fun h => by rw [hno] at h; cases h
  split
  next hmany => exact hnone _ (by simp [joins, hmany])
  next hfew =>
    have hfew : tooManyLinks b ies = false := Bool.eq_false_iff.mpr hfew
    split
    next hpriority =>
      have hpriority : (ies.joinPriority + 1).toNat < b.maxJoinPriority := hpriority
      rcases join_cases b frame timestamp random₁ random₂ rfl with ⟨hno, hjoin⟩ | ⟨hnbr, hjoin⟩
      · rw [hjoin]
        refine hnone _ ?_
        have hno : (TschSchedule.queueGetNbr (joinSchedule b frame ies s)
          (linkaddr b frame.srcAddr)).isNone = true := hno
        rw [joins, Option.isSome_eq_false_iff.mpr hno, Bool.and_false]
      · have hjoins : joins b authentic frame ies s = true := by
          have hnbr : (TschSchedule.queueGetNbr (joinSchedule b frame ies s)
            (linkaddr b frame.srcAddr)).isNone = false := hnbr
          rw [joins, hrefused, hfits, hfew, decide_eq_true hpriority, Option.isNone_eq_false_iff.mp hnbr]
          rfl
        rcases hjoin with ⟨hdead, hdiv⟩ | ⟨halive, s', hsome, hsame, hlength, htiming⟩
        · rw [hdiv]
          refine iff_of_false ?_ fun h => hdead fun hc hp => ?_
          · rintro ⟨_, _, hno, -⟩
            cases hno
          · exact h.keepalive hjoins hc hp
        · rw [hsome]
          have htime : s'.timing tsTimeslotLength = timingOf b ies tsTimeslotLength := by
            rw [htiming]
            rfl
          have hlinks : replacesSchedule b ies = true → (Fits s'.sched ↔ ∀ t ∈ ebTimeslots c ies,
              t.toNat < ies.tschSlotframeAndLink.slotframeSize.toNat) :=
            fun hreplaces => (SameSchedule.fits hsame).trans (fits_setSchedule hs hreplaces hfew)
          constructor
          · rintro ⟨joined, s'', heq, husable⟩
            cases heq
            obtain ⟨frame', ies', hparse', husable⟩ := husable rfl
            rw [hparse] at hparse'
            cases hparse'
            refine ⟨hchannels, fun _ => htime ▸ husable.timeslot, fun _ hinit => ?_, fun _ hc hp => halive hc hp⟩
            by_cases hreplaces : replacesSchedule b ies = true
            · exact (hlinks hreplaces).mp (husable.links hreplaces)
            · have hzero : ies.tschSlotframeAndLink.numSlotframes = 0 := by
                rw [replacesSchedule, hinit, Bool.true_and, Bool.or_eq_true, not_or] at hreplaces
                simpa using hreplaces.1
              intro t ht
              rw [ebTimeslots, if_pos (.inl hzero)] at ht
              cases ht
          · intro h
            refine ⟨true, s', rfl, fun _ => ⟨frame, ies, hparse, ?_, ?_, ?_, fun hreplaces => ?_⟩⟩
            · rw [hlength]
              exact hpos
            · rw [hlength]
              exact hle hfits
            · rw [htime]
              exact h.timeslot hjoins
            · rw [hlinks hreplaces]
              rw [replacesSchedule, Bool.and_eq_true] at hreplaces
              exact h.links hjoins hreplaces.1
    next hpriority =>
      refine hnone _ ?_
      have hpriority : ¬(ies.joinPriority + 1).toNat < b.maxJoinPriority := hpriority
      rw [joins, decide_eq_false hpriority, Bool.and_false, Bool.false_and]

/-- A call meets its promise on every packet that is no beacon, and on those beacons that configure the node. -/
theorem associate_usable_iff {es : List (TschSchedule.Call c)} {s : State c}
    (hrun : Lib.Run TschSchedule.step (fun _ _ => True) (TschSchedule.init c) es s.sched) :
    JoinsUsable b data len frame₀ (associate b data len frame₀ authentic timestamp random₁ random₂ s) ↔
      ∀ frame ies, parseEb b data len frame₀ false = some (some (frame, ies)) →
        Configures b authentic frame ies s := by
  have hs := TschSchedule.linked_of_run hrun
  obtain ⟨v, hparse⟩ := parseEb_value b data len frame₀ false
  rcases v with _ | ⟨frame, ies⟩
  · rw [hparse]
    refine iff_of_true ?_ nofun
    rw [associate, hparse]
    exact joinsUsable_false b data len frame₀ s
  · have hall : (∀ frame' ies', parseEb b data len frame₀ false = some (some (frame', ies')) →
        Configures b authentic frame' ies' s) ↔ Configures b authentic frame ies s := by
      refine ⟨fun h => h frame ies hparse, fun h frame' ies' hparse' => ?_⟩
      rw [hparse] at hparse'
      cases hparse'
      exact h
    rw [hall]
    by_cases hrefused : refused b authentic frame ies = true
    · have hno : joins b authentic frame ies s = false := by simp [joins, hrefused]
      refine iff_of_true ?_ ⟨fun h => ?_, fun h => ?_, fun h => ?_, fun h => ?_⟩
      · rw [associate, hparse]
        show JoinsUsable b data len frame₀ (if _ then _ else _)
        rw [if_pos hrefused]
        exact joinsUsable_false b data len frame₀ _
      · rw [hrefused] at h
        cases h
      all_goals
        rw [hno] at h
        cases h
    · have hrefused : refused b authentic frame ies = false := Bool.eq_false_iff.mpr hrefused
      by_cases hlong : hoppingTooLong b ies = true
      · have hno : joins b authentic frame ies s = false := by simp [joins, hlong]
        refine iff_of_true ?_ ⟨fun _ _ hzero => ?_, fun h => ?_, fun h => ?_, fun h => ?_⟩
        · rw [associate, hparse]
          show JoinsUsable b data len frame₀ (if _ then _ else if _ then _ else _)
          rw [hrefused, if_neg Bool.false_ne_true, if_pos hlong]
          exact joinsUsable_false b data len frame₀ _
        · rw [hoppingTooLong, Bool.and_eq_true, hzero] at hlong
          exact absurd (of_decide_eq_true hlong.2) (Nat.not_lt_zero _)
        all_goals
          rw [hno] at h
          cases h
      · have hfits : hoppingTooLong b ies = false := Bool.eq_false_iff.mpr hlong
        by_cases hhopping : ies.channelHoppingSequenceId ≠ 0 ∧ ies.hoppingSequenceLen = 0
        · refine iff_of_false ?_ fun h => h.hopping hrefused hhopping.1 hhopping.2
          rcases setHopping_cases b ies (setTiming b ies { s with
              currentAsn := ⟨ies.asnLs4b, ies.asnMs1b⟩, joinPriority := ies.joinPriority + 1 }) with
            ⟨-, hset⟩ | ⟨hno, -⟩
          · rw [associate, hparse]
            show ¬JoinsUsable b data len frame₀ (if _ then _ else if _ then _ else _)
            rw [hrefused, hfits, if_neg Bool.false_ne_true, if_neg Bool.false_ne_true, hset]
            rintro ⟨_, _, hno, -⟩
            cases hno
          · exact absurd hhopping hno
        · exact joinsUsable_of_hopping b data len frame₀ authentic timestamp random₁ random₂ hs hparse hrefused
            hfits hhopping

/-! ### Beacons -/

instance (s : State c) (frame : Frame802154.Frame) (ies : Ies) :
    Decidable (Configures b authentic frame ies s) :=
  have : Decidable (∀ t ∈ ebTimeslots c ies, t.toNat < ies.tschSlotframeAndLink.slotframeSize.toNat) :=
    List.decidableBAll _ _
  decidable_of_iff
    ((refused b authentic frame ies = false → ies.channelHoppingSequenceId ≠ 0 → ies.hoppingSequenceLen ≠ 0) ∧
      (joins b authentic frame ies s = true → timingOf b ies tsTimeslotLength ≠ 0) ∧
      (joins b authentic frame ies s = true → b.initScheduleFromEb = true →
        ∀ t ∈ ebTimeslots c ies, t.toNat < ies.tschSlotframeAndLink.slotframeSize.toNat) ∧
      (joins b authentic frame ies s = true → (joinSchedule b frame ies s).isCoordinator = false →
        0 < (if newTimeSource (linkaddr b frame.srcAddr) (joinSchedule b frame ies s)
          then b.keepaliveTimeout else s.kaTimeout) →
        10 ≤ (if newTimeSource (linkaddr b frame.srcAddr) (joinSchedule b frame ies s)
          then b.keepaliveTimeout else s.kaTimeout)))
    ⟨fun h => ⟨h.1, h.2.1, h.2.2.1, h.2.2.2⟩, fun h => ⟨h.1, h.2, h.3, h.4⟩⟩

/-- A build with the defaults of the repository, on a clock of 32768 Hz. -/
def defaults : Build where
  frame := ⟨false, false, 8⟩
  llsecEnabled := false
  joinSecuredOnly := false
  joinMyPanidOnly := none
  usToRtimerTicks us := (us.toNat * 32768 + 500000) / 1000000
  defaultTimingUs _ := 10000
  defaultHoppingSequence := [15, 25, 26, 20]
  hoppingSequenceMaxLen := 16
  default_pos := by decide
  default_le := by decide
  initScheduleFromEb := true
  scheduleWith6tischMinimal := true
  scheduleDefaultLength := 7
  maxJoinPriority := 32
  keepaliveTimeout := 1536

/-- Pools of four, and the two virtual neighbors. -/
def fourLinks : ScheduleConfig := ⟨4, 4, 4, 8, List.replicate 8 0, List.replicate 8 0xff⟩

/-- A node that scans. -/
def scanning : State fourLinks where
  sched := TschSchedule.init fourLinks
  currentAsn := ⟨0, 0⟩
  lastSyncAsn := ⟨0, 0⟩
  currentSlotStart := 0
  joinPriority := 0xff
  timing _ := 0
  hoppingSequence _ := 0
  hoppingSequenceLength := ⟨0, 0⟩
  isAssociated := false
  isPanSecured := 0
  panId := 0xffff
  kaTimeout := 0
  keepaliveDelay := none

def noFrame : Frame802154.Frame :=
  ⟨fun _ => 0, fun _ => 0, ⟨0, 0, 0, 0, 0, 0, 0, 0, 0, 0⟩, 0, 0, 0, ⟨⟨0, 0, 0, 0⟩, fun _ => 0, fun _ => 0, 0⟩, 0, 0⟩

/-- A beacon with join priority 0, and more nested elements. -/
def beacon (elements : List UInt8) : List UInt8 :=
  [0x00, 0xea, 1, 0xcd, 0xab, 0xff, 0xff, 0xcd, 0xab, 1, 2, 3, 4, 5, 6, 7, 8] ++
    [0x00, 0x3f, .ofNat (8 + elements.length), 0x88] ++ [0x06, 0x1a, 1, 0, 0, 0, 0, 0] ++ elements

/-- A scanning node gets a packet, with zeros behind it. -/
def received (bytes : List UInt8) : Option (Bool × State fourLinks) :=
  associate defaults (fun i => bytes.getD i 0) bytes.length noFrame true 1000 0 0 scanning

/-- A hopping sequence element of one byte, with an id of its own. -/
def hoppingIdOnly : List UInt8 := [0x01, 0xc8, 1]
/-- Timings of its own, which are 0. -/
def zeroTimeslot : List UInt8 := [0x19, 0x1c, 1] ++ List.replicate 24 0
/-- A slotframe of seven timeslots, with one link at `t`. -/
def oneLink (t : UInt8) : List UInt8 := [0x0a, 0x1b, 1, 0, 7, 0, 1, t, 0, 0, 0, 0x0f]

/-- A beacon with a schedule, which the node joins. -/
theorem associate_usable_beacon : (received (beacon (oneLink 3))).any Prod.fst = true ∧ JoinsUsable defaults (fun i =>
    (beacon (oneLink 3)).getD i 0) (beacon (oneLink 3)).length noFrame (received (beacon (oneLink 3))) := by
  refine ⟨by decide +kernel, (associate_usable_iff defaults _ _ noFrame true 1000 0 0
    (s := scanning) (.nil _)).mpr fun frame ies hparse => ?_⟩
  have hcheck : (parseEb defaults (fun i => (beacon (oneLink 3)).getD i 0) (beacon (oneLink 3)).length
      noFrame false).any (fun eb => eb.all fun eb => decide (Configures defaults true eb.1 eb.2 scanning)) =
      true := by decide +kernel
  rw [hparse] at hcheck
  exact of_decide_eq_true hcheck

/-- A hopping sequence without channels is divided by; a timeslot of no length and a link at timeslot 9 of
    seven are taken over. -/
theorem unusable_beacons :
    ¬JoinsUsable defaults (fun i => (beacon hoppingIdOnly).getD i 0) (beacon hoppingIdOnly).length noFrame
      (received (beacon hoppingIdOnly)) ∧
    ¬JoinsUsable defaults (fun i => (beacon zeroTimeslot).getD i 0) (beacon zeroTimeslot).length noFrame
      (received (beacon zeroTimeslot)) ∧
    (received (beacon (oneLink 9))).any (fun r => r.1 && r.2.sched.slotframeList.any fun sf =>
      (timeslotsOf r.2.sched sf).any fun t => !decide (t.toNat < (r.2.sched.slotframe sf).size.val)) =
      true := by
  refine ⟨?_, ?_, by decide +kernel⟩
  · have hnone : (received (beacon hoppingIdOnly)).isNone = true := by decide +kernel
    rintro ⟨_, _, heq, -⟩
    rw [heq] at hnone
    cases hnone
  · have hzero : (received (beacon zeroTimeslot)).any
        (fun r => r.1 && r.2.timing tsTimeslotLength == 0) = true := by decide +kernel
    rintro ⟨joined, s', heq, husable⟩
    rw [heq, Option.any_some, Bool.and_eq_true] at hzero
    obtain ⟨_, _, -, husable⟩ := husable hzero.1
    exact husable.timeslot (by simpa using hzero.2)

end TschAssociation

end CSync
