import CSync.Node.Blind
import CSync.Safety.Trust

/-! The isolation of a blacklisted sender.

    A synchronization announcement is entered into the neighbour table and the own clock is brought up to the present
    before the blacklist is read, and two branches read it. The result is about one run and about two: in the
    synchronization phase no message of a blacklisted sender changes what the consensus rests on; and two runs whose
    messages differ only in what that sender says agree on it throughout. It needs two things of the steps.
    Blacklisting without a free block empties the blacklist. And a message that names the node itself is dropped
    before the clock is brought up to the present, so it must do so in both runs. -/

namespace CSync

open Lib Option

namespace Node

variable {R : Type} [SoftDouble R]

/-! ### Steps -/

/-- A message is heard in the synchronization phase only, and blacklisting finds a free block. -/
structure InSync (s : Node R) (e : Event R) : Prop where
  phase : ∀ id value rx, e.act = .heard id value rx → s.myState = .consensusSynchronization
  blacklist : ¬ s.defects e .blacklist

/-- Blacklisting finds a free block. -/
def KeepsBlacklist (s : Node R) (e : Event R) : Prop := ¬ s.defects e .blacklist

/-- The events of two runs that differ only in what `x` says: the same event, or two synchronization
    announcements of `x` received with the same strength. -/
inductive Differ (x : UInt16) : Event R → Event R → Prop
  | same (e : Event R) : Differ x e e
  | payload {value value' : AnnouncementValue R} {rx rx' : Reception R} (hw : Nat → UInt32)
      (env : Env R) : rx.sender = x → rx'.sender = x → rx'.rssi = rx.rssi →
      Differ x ⟨.heard .synchronization value rx, hw, env⟩
        ⟨.heard .synchronization value' rx', hw, env⟩

/-- The announcement names the node `a`. -/
def names (a : UInt16) (e : Event R) : Bool :=
  match e.act with
  | .heard .synchronization value _ => value.refAddr == a
  | _ => false

/-- The events differ in what `x` says, and name the node `a` both or not at all. -/
def Veiled (x a : UInt16) (e e' : Event R) : Prop := Differ x e e' ∧ names a e' = names a e

variable {x : UInt16} {s t : Node R}

theorem blind_step {s' t' : Node R} {e e' : Event R} (h : Blind x s s')
    (hlisted : s.cl.blacklisted x = true) (hd : Veiled x s.myAddr e e') (hok : s.InSync e)
    (hstep : s.step e = some t) (hstep' : s'.step e' = some t') : Blind x t t' := by
  have hprepare : ∀ e : Event R, Blind x (s.prepare e) (s'.prepare e) := fun e =>
    OffTable.keeps (f := fun s : Node R => s.prepare e) (fun _ _ _ => rfl) s s' h
  obtain ⟨hd, hnames⟩ := hd
  cases hd with
  | @payload value value' rx rx' hw env hx hx' hrssi =>
    have hst := hok.phase _ _ _ rfl
    have href : value'.refAddr = s.myAddr ↔ value.refAddr = s.myAddr := by
      change (value'.refAddr == s.myAddr) = (value.refAddr == s.myAddr) at hnames
      rw [← beq_iff_eq, hnames, beq_iff_eq]
    rw [step_heard rfl hstep, step_heard rfl hstep']
    exact blind_synchronization (hprepare ⟨.timer, hw, env⟩) hst hlisted
      ⟨hx'.trans hx.symm, hrssi, fun hne => absurd hx hne⟩ href
  | same =>
    have hunpoll : Blind x { s.prepare e with polled := false } { s'.prepare e with polled := false } :=
      OffTable.keeps (f := fun s : Node R => { s with polled := false }) (fun _ _ _ => rfl) _ _ (hprepare e)
    rw [step_eq hstep, step_eq hstep']
    cases hact : e.act with
    | heard id value rx => exact blind_heard (hprepare e) (hok.phase _ _ _ hact) hlisted _ _ _
    | timer => exact keeps_fire _ _ (hprepare e)
    | process => exact offTable_resume.keeps _ _ hunpoll
    | overflow =>
      exact OffTable.keeps (f := fun s : Node R => { s with tm := rtimerLfOverflow s.tm })
        (fun _ _ _ => rfl) _ _ (hprepare e)

/-! ### Runs -/

theorem blind_run {es : List (Event R)} (hrun : Run step InSync s es t) :
    ∀ {s' t' : Node R} {es' : List (Event R)}, Blind x s s' → Timed s.core ∧ Listed x s.cl →
      List.Forall₂ (Veiled x s.myAddr) es es' → Run step InSync s' es' t' → Blind x t t' := by
  induction hrun with
  | nil s =>
    intro s' t' es' h _ hes hrun'
    cases hes
    cases hrun'
    exact h
  | @cons s u t e es hok hstep _ ih =>
    intro s' t' es' h hl hes hrun'
    cases hes with
    | cons hd hes =>
      cases hrun' with
      | cons _ hstep' hrun' =>
        have haddr : u.myAddr = s.myAddr := step_myAddr hl.1 hstep
        exact ih (blind_step h hl.2.listed hd hok hstep hstep') (listed_step hl hok.blacklist hstep)
          (haddr ▸ hes) hrun'

/-- What the message in a step from `s` to `t` leaves alone. The clock is as it was or brought up to
    the present at the own rate: `rtimer_adjust_fine_offset` is not called. -/
structure Isolated (s : Node R) (e : Event R) (t : Node R) : Prop where
  avgRate : t.tm.avgRate = s.tm.avgRate
  myConsSlot : t.myConsSlot = s.myConsSlot
  msgCount : t.msgCount = s.msgCount
  mySyncBorder : t.mySyncBorder = s.mySyncBorder
  synchronization : t.an.synchronization = s.an.synchronization
  unmoved : s.Unmoved e t

/-- What two runs agree on. -/
structure Agree (t t' : Node R) : Prop where
  clock : t'.tm = t.tm
  myConsSlot : t'.myConsSlot = t.myConsSlot
  msgCount : t'.msgCount = t.msgCount
  mySyncBorder : t'.mySyncBorder = t.mySyncBorder
  synchronization : t'.an.synchronization = t.an.synchronization
  out : t'.out = t.out

omit [SoftDouble R] in
theorem Blind.agree {t' : Node R} (h : Blind x t t') : Agree t t' := by
  obtain ⟨m, -, rfl⟩ := h
  exact ⟨rfl, rfl, rfl, rfl, rfl, rfl⟩

variable {value : AnnouncementValue R}

theorem ignored_message {rx : Reception R} (hst : s.myState = .consensusSynchronization)
    (hlisted : s.cl.blacklisted rx.sender = true) : s.Received (s.receivedSynchronizationAnnouncement value rx) := by
  have hrefl : s.Received s := ⟨s.nb, s.tm, s.an, .refl _, .inl rfl, rfl⟩
  rw [receivedSynchronizationAnnouncement]
  split
  · exact hrefl
  · rcases s.whenSynced_cases value rx _ with (heq | heq) | ⟨t, n, hears, heq⟩
    · rw [heq]
      exact hrefl
    · rw [heq]
      exact s.addNeighbour_spec value rx
    · have haddr := (hears_entry hears).1
      have hrecv := received_of_hears hears
      obtain ⟨nb, tm, an, -, -, ht⟩ := received_of_hears hears
      have hst' : t.myState = .consensusSynchronization := by rw [ht]; exact hst
      have hlisted' : t.cl.blacklisted n.addr = true := by rw [ht, haddr]; exact hlisted
      rw [heq, synchronizationMessage, hst']
      dsimp only
      split
      · exact hrecv
      · split <;> exact hrecv

theorem isolated_step {e : Event R} {rx : Reception R}
    (hst : s.myState = .consensusSynchronization) (hlisted : s.cl.blacklisted rx.sender = true)
    (hact : e.act = .heard .synchronization value rx) (hstep : s.step e = some t) : s.Isolated e t := by
  have hlink : ¬ s.defects e .link := by
    rw [defects, hact]
    exact fun hd => absurd (hst.symm.trans hd.1) (by decide)
  have hmoved := (blacklisted_step hlisted hact hlink hstep).2 hst
  have hrecv : (s.prepare e).Received t := by
    rw [step_heard hact hstep]
    exact ignored_message hst hlisted
  obtain ⟨nb, tm, an, -, han, rfl⟩ := hrecv
  refine ⟨?_, rfl, rfl, rfl, ?_, hmoved⟩
  · have hrate : tm.avgRate = (s.prepare e).tm.avgRate := by
      rcases hmoved with htm | htm
      · exact congrArg RtimerState.avgRate htm
      · exact (congrArg RtimerState.avgRate htm).trans rfl
    exact hrate
  · rcases han with rfl | ⟨d, rfl⟩ <;> rfl

/-- ISOLATION: in every run in which blacklisting finds a free block, once `x` is blacklisted none of
    its synchronization announcements in the synchronization phase changes what the consensus rests
    on; and two continuations whose events differ only in what `x` says agree on it. -/
theorem blacklist_isolation (a x : UInt16) (es₀ : List (Event R)) (s : Node R)
    (hrun : Run step KeepsBlacklist (boot a) es₀ s) (hlisted : s.cl.blacklisted x = true) :
    (∀ es t e value rx u, Run step InSync s es t → t.InSync e →
       rx.sender = x → e.act = .heard .synchronization value rx → t.step e = some u → t.Isolated e u) ∧
    (∀ es es' t t', Run step InSync s es t → Run step InSync s es' t' →
       List.Forall₂ (Veiled x a) es es' → Agree t t') := by
  have hs := hrun.invariant (P := fun s => (Timed s.core ∧ s.cl.blMemb.Owns s.cl.blacklist) ∧ s.myAddr = a)
    (fun _ _ _ hs hok hst => ⟨owns_step hs.1 hok hst, (step_myAddr hs.1.1 hst).trans hs.2⟩)
    ⟨⟨timed_boot a, Pool.owns_init _⟩, rfl⟩
  have hl : Timed s.core ∧ Listed x s.cl := ⟨hs.1.1, hs.1.2, hlisted⟩
  refine ⟨fun es t e value rx u hes hok hx hact hstep => ?_, fun es es' t t' hes hes' hd => ?_⟩
  · have ht := hes.invariant (P := fun s => Timed s.core ∧ Listed x s.cl)
      (fun _ _ _ hs hok hst => listed_step hs hok.blacklist hst) hl
    exact isolated_step (hok.phase _ _ _ hact) (hx ▸ ht.2.listed) hact hstep
  · exact (blind_run hes (Blind.refl s) hl (hs.2.symm ▸ hd) hes').agree

/-! ### Concrete runs -/

/-- A synchronization announcement of a sender whose clock reads `fine`. -/
def syncOf (t : UInt32) (sender refAddr : UInt16) (fine : UInt32) (consRate : Rat) : Event Rat :=
  eventAt t (.heard .synchronization ⟨14, 4, 0, 0, refAddr, consRate⟩
    ⟨sender, 65500, 0, fine - 5, fineMax, 1, 0, 100, 101, 100, 101, 1⟩)

/-- Node 78, the bridge of 72, 45 and 44, enters the synchronization, hears 72, whose clock is 1000
    behind, and blacklists it. -/
def accusedRun : List (Event Rat) :=
  threeNeighboursRun ++ [414572, 571858, 729144].flatMap tickAt ++
  [hearsAt 740000 72 .convergence 10 1 0 0 78] ++ tickAt 886430 ++
  [hearsAt 900000 45 .convergence 10 2 0 0 78] ++ tickAt 1043716 ++
  [hearsAt 1050000 44 .convergence 10 3 0 0 78] ++ [1201002, 1515576, 1672862].flatMap tickAt ++
  [syncOf 1700000 72 72 1699000 1]

/-- A decidable condition under which blacklisting finds a free block. -/
def spared (s : Node R) (e : Event R) : Bool :=
  match e.act with
  | .heard .synchronization _ _ => s.cl.blMemb.freeBlock.isSome
  | _ => true

theorem keepsBlacklist_of_spared (s : Node R) (e : Event R) (h : s.spared e = true) : s.KeepsBlacklist e := by
  obtain ⟨act, hw, env⟩ := e
  cases act with
  | timer => exact id
  | overflow => exact id
  | process =>
    rintro ⟨hbridge, -⟩
    cases hbridge
  | heard id value rx =>
    rintro ⟨hid, -, -, -, -, hnone, -⟩
    subst hid
    change s.cl.blMemb.freeBlock = none at hnone
    change s.cl.blMemb.freeBlock.isSome = true at h
    rw [hnone] at h
    cases h

/-- A decidable condition for `InSync`. -/
def sparedInSync (s : Node R) (e : Event R) : Bool :=
  s.spared e && (s.myState == .consensusSynchronization)

theorem inSync_of_spared (s : Node R) (e : Event R) (h : s.sparedInSync e = true) : s.InSync e := by
  obtain ⟨hspared, hst⟩ := Bool.and_eq_true_iff.mp h
  exact ⟨fun _ _ _ _ => beq_iff_eq.mp hst, keepsBlacklist_of_spared s e hspared⟩

/-- 72 is blacklisted; it says two different things before 45 is heard. -/
theorem blacklist_isolation_accused :
    ∃ s t t' : Node Rat,
      Run step KeepsBlacklist (boot 78) accusedRun s ∧
      s.cl.blacklisted 72 = true ∧
      Run step InSync s [syncOf 1700050 72 72 1650000 1, syncOf 1700100 45 45 1699800 1] t ∧
      Run step InSync s [syncOf 1700050 72 44 1700050 7, syncOf 1700100 45 45 1699800 1] t' ∧
      Agree t t' := by
  obtain ⟨s, hrun, hs⟩ : ∃ s, Run step KeepsBlacklist (boot 78) accusedRun s ∧ _ :=
    exists_run spared (fun s => s.cl.blacklisted 72 && ((exec step sparedInSync s
        [syncOf 1700050 72 72 1650000 1, syncOf 1700100 45 45 1699800 1]).isSome &&
      (exec step sparedInSync s [syncOf 1700050 72 44 1700050 7, syncOf 1700100 45 45 1699800 1]).isSome))
      keepsBlacklist_of_spared (by decide +kernel)
  simp only [Bool.and_eq_true] at hs
  obtain ⟨hlisted, hsome, hsome'⟩ := hs
  obtain ⟨t, ht⟩ := isSome_iff_exists.mp hsome
  obtain ⟨t', ht'⟩ := isSome_iff_exists.mp hsome'
  have hes := run_of_exec inSync_of_spared _ ht
  have hes' := run_of_exec inSync_of_spared _ ht'
  refine ⟨s, t, t', hrun, hlisted, hes, hes', ?_⟩
  refine (blacklist_isolation 78 72 accusedRun s hrun hlisted).2 _ _ t t' hes hes' ?_
  exact .cons ⟨.payload _ _ rfl rfl rfl, rfl⟩ (.cons ⟨.same _, rfl⟩ .nil)

/-- Two more senders are accused, which empties the blacklist, and 72 is followed. -/
theorem full_blacklist_readmits :
    ¬ ∀ (es₀ es : List (Event Rat)) (s t u : Node Rat) e value rx, Run step (fun _ _ => True) (boot 78) es₀ s →
      s.cl.blacklisted rx.sender = true → Run step (fun s _ => s.myState = .consensusSynchronization) s es t →
        t.myState = .consensusSynchronization → e.act = .heard .synchronization value rx → t.step e = some u →
          t.Isolated e u := by
  intro hall
  obtain ⟨s, hrun, hs⟩ : ∃ s, Run step (fun _ _ => True) (boot 78) accusedRun s ∧ _ :=
    exists_run (fun _ _ => true) (fun s => s.cl.blacklisted 72 &&
      (exec step (fun s _ => s.myState == .consensusSynchronization) s
        [syncOf 1701000 45 45 1700000 1, syncOf 1702000 44 44 1701000 1]).any fun t =>
      t.myState == .consensusSynchronization && t.an.synchronization.value.dateCoarse == 1 &&
      (t.step (syncOf 1702500 72 72 1702500 1)).any fun u =>
        u.an.synchronization.value.dateCoarse == 0) (fun _ _ _ => trivial) (by decide +kernel)
  obtain ⟨hlisted, hany⟩ := Bool.and_eq_true_iff.mp hs
  obtain ⟨t, ht, hany⟩ := (any_eq_true _ _).mp hany
  simp only [Bool.and_eq_true, beq_iff_eq] at hany
  obtain ⟨⟨hst, hdate⟩, hany⟩ := hany
  obtain ⟨u, hu, hdate'⟩ := (any_eq_true _ _).mp hany
  have hes : Run step (fun s _ => s.myState = .consensusSynchronization) s _ t :=
    run_of_exec (fun _ _ h => beq_iff_eq.mp h) _ ht
  have hiso := (hall accusedRun _ s t u _ _ _ hrun hlisted hes hst rfl hu).synchronization
  rw [beq_iff_eq, hiso, hdate] at hdate'
  cases hdate'

/-- What 72 says names node 78 in one run only; the clocks of the two runs come to differ by a tick,
    and with them the treatment of 44. -/
theorem own_address_skews_clock :
    ¬ ∀ (es₀ es es' : List (Event Rat)) (s t t' : Node Rat), Run step KeepsBlacklist (boot 78) es₀ s →
      s.cl.blacklisted 72 = true → Run step InSync s es t → Run step InSync s es' t' → List.Forall₂ (Differ 72) es es'
        → t'.tm.avgRate = t.tm.avgRate := by
  intro hall
  obtain ⟨s, hrun, hs⟩ : ∃ s, Run step KeepsBlacklist (boot 78) accusedRun s ∧ _ :=
    exists_run spared (fun s => s.cl.blacklisted 72 &&
      ((exec step sparedInSync s [syncOf 1700100 45 45 1699800 (-500),
        syncOf 1700140 72 72 1699000 1, syncOf 1700180 44 44 15111090 1]).any (fun t =>
          t.tm.avgRate == 0) &&
      (exec step sparedInSync s [syncOf 1700100 45 45 1699800 (-500),
        syncOf 1700140 72 78 1699000 1, syncOf 1700180 44 44 15111090 1]).any fun t =>
          t.tm.avgRate != 0)) keepsBlacklist_of_spared (by decide +kernel)
  simp only [Bool.and_eq_true] at hs
  obtain ⟨hlisted, hsome, hsome'⟩ := hs
  obtain ⟨t, ht, hzero⟩ := (any_eq_true _ _).mp hsome
  obtain ⟨t', ht', hrate⟩ := (any_eq_true _ _).mp hsome'
  have heq := hall accusedRun _ _ s t t' hrun hlisted (run_of_exec inSync_of_spared _ ht)
    (run_of_exec inSync_of_spared _ ht')
    (.cons (.same _) (.cons (.payload _ _ rfl rfl rfl) (.cons (.same _) .nil)))
  rw [beq_iff_eq] at hzero
  rw [bne_iff_ne] at hrate
  exact hrate (heq.trans hzero)

end Node

end CSync
