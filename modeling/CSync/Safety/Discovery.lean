import Mathlib.Data.Prod.Lex
import Mathlib.Order.Bounds.Basic
import CSync.Safety.Phases

/-! The date of the election.

    Every node that has started the election announces the date of its timer in the discovery
    announcements, and a node that hears a later date than its own takes it over. So the date a node
    is armed for is the latest of those it has heard, in whatever order and however often. -/

namespace CSync

open Lib

/-! ### Dates -/

/-- A logical date; the coarse part counts first. -/
def lgDate (coarse fine : UInt32) : ℕ ×ₗ ℕ := toLex (coarse.toNat, fine.toNat)

variable {R : Type}

def AnnouncementValue.date (value : AnnouncementValue R) : ℕ ×ₗ ℕ :=
  lgDate value.dateCoarse value.dateFine

/-- The date a timer is armed for. -/
def Rtimer.date (r : Rtimer) : ℕ ×ₗ ℕ := lgDate r.timeCoarseLg r.timeFineLg

theorem lgDate_lt {c f c' f' : UInt32} : lgDate c f < lgDate c' f' ↔ c < c' ∨ c = c' ∧ f < f' := by
  rw [lgDate, lgDate, Prod.Lex.toLex_lt_toLex, UInt32.lt_iff_toNat_lt, UInt32.lt_iff_toNat_lt, UInt32.toNat_inj]

theorem rtimerCompare_one {tm : RtimerState R} (h : tm.rt0.state = .scheduled) (c f : UInt32) :
    rtimerCompare tm .rtimer0 c f = 1 ↔ tm.rt0.date < lgDate c f := by
  have hstate : ¬ ((tm.rt .rtimer0).state = .justExpired ∨ (tm.rt .rtimer0).state = .inactive) := by
    change ¬ (tm.rt0.state = _ ∨ tm.rt0.state = _)
    rw [h]
    decide
  rw [Rtimer.date, lgDate_lt, rtimerCompare, if_neg hstate]
  change (if tm.rt0.timeCoarseLg = c then
      if f < tm.rt0.timeFineLg then (-1 : Int) else if tm.rt0.timeFineLg < f then 1 else 0
    else if c < tm.rt0.timeCoarseLg then -1 else 1) = 1 ↔ _
  have hlt : ∀ x y : UInt32, x < y ↔ x.toNat < y.toNat := fun x y => UInt32.lt_iff_toNat_lt
  have heq : ∀ x y : UInt32, x = y ↔ x.toNat = y.toNat := fun x y => UInt32.toNat_inj.symm
  simp only [hlt, heq]
  split_ifs <;> simp <;> omega

namespace Node

variable [SoftDouble R]

/-! ### The announced date -/

/-- A node in discovery that broadcasts with its timer scheduled announces the date of the timer. -/
def DateKept (s : Node R) : Prop :=
  s.myState = .discovery → s.tm.rt0.state = .scheduled → s.an.discovery.hasValue = true →
    s.an.discovery.value.date = s.tm.rt0.date

variable {s t : Node R}

section

omit [SoftDouble R]

/-- The timer and the announcement are as in `s`, as far as they matter. -/
theorem DateKept.same (h : DateKept s) (hst : s.myState = .discovery)
    (hvalue : t.an.discovery.hasValue = s.an.discovery.hasValue)
    (hdate : t.an.discovery.value.date = s.an.discovery.value.date) (hstate : t.tm.rt0.state = s.tm.rt0.state)
    (hlg : t.tm.rt0.date = s.tm.rt0.date) : DateKept t := by
  intro _ hsched hval
  rw [hdate, hlg]
  exact h hst (hstate.symm.trans hsched) (hvalue.symm.trans hval)

theorem DateKept.removed (h : t.an.discovery.hasValue = false) : DateKept t :=
  fun _ _ hval => absurd (h.symm.trans hval) (by decide)

theorem DateKept.left (h : t.myState ≠ .discovery) : DateKept t := fun hst => absurd hst h

theorem refused_date {tm tm' : RtimerState R} {type : ScheduleType} {c f : UInt32} {func : Callback} (h : ScheduleEnd
    tm type c f func (false, tm')) : tm'.rt0.state = tm.rt0.state ∧ tm'.rt0.date = tm.rt0.date := by
  cases h with
  | nodate => exact ⟨rfl, rfl⟩
  | refused _ hr => rw [hr]; exact ⟨rfl, rfl⟩

end

theorem dateKept_startElection (value : AnnouncementValue R) (hst : s.myState = .discovery) (h : DateKept s) (hsilent
    : s.tm.rt0.state = .singlepass → s.an.discovery.hasValue = false) : DateKept (s.startElection value) := by
  rw [startElection]
  split
  · refine ifScheduled_ends (P := DateKept) (fun tm _ _ _ _ _ => rfl) fun tm _ hend => ?_
    obtain ⟨hstate, hdate⟩ := refused_date hend
    exact h.same hst rfl rfl hstate hdate
  · split
    · split
      · refine ifScheduled_ends (P := DateKept) (fun tm _ hend => ?_) fun tm _ _ => ?_
        · cases hend with
          | singlepass hsp _ => exact .removed (hsilent hsp)
          | armed _ _ _ hdate =>
            obtain ⟨hc, hf⟩ := hdate rfl
            intro _ _ _
            change lgDate value.dateCoarse value.dateFine = lgDate tm.rt0.timeCoarseLg tm.rt0.timeFineLg
            rw [hc, hf]
        · -- the timer is given up
          exact fun _ hsched => absurd hsched (by simp [setRt0State, mapAnn])
      · exact h
    · exact h

variable {value : AnnouncementValue R}

theorem dateKept_joinAt {func : Callback}
    {enter : Node R → Node R} (hst : s.myState = .discovery) (h : DateKept s)
    (henter : ∀ t : Node R, (enter t).an.discovery.hasValue = false) : DateKept (s.joinAt value func enter) := by
  refine ifScheduled_ends (P := DateKept) (fun tm _ _ => .removed ?_) fun tm _ hend => ?_
  · exact henter _
  · obtain ⟨hstate, hdate⟩ := refused_date hend
    exact h.same hst rfl rfl hstate hdate

theorem dateKept_joinRevelation (value : AnnouncementValue R) (n : Neighbour R)
    (hst : s.myState = .discovery) (h : DateKept s) : DateKept (s.joinRevelation value n) := by
  rw [joinRevelation]
  split
  · dsimp only
    split
    · exact dateKept_joinAt (s := s.politeCancel) hst h fun _ => rfl
    · exact h
  · split
    · exact dateKept_joinAt (s := { s with cl := { s.cl with role := .cm } }) hst h fun _ => rfl
    · split
      · refine dateKept_joinAt (s := { s with cl := { s.cl with role := .cm } }) hst h fun t => ?_
        dsimp only
        split <;> rfl
      · exact h

theorem dateKept_heard (id : AnnId) (value : AnnouncementValue R) (rx : Reception R)
    (hst : s.myState = .discovery) (h : DateKept s) (hsilent : Silent s) : DateKept (s.heard id value rx) := by
  -- what the reception of the packet leaves of the node
  have hrecv : ∀ t : Node R, s.Received t → DateKept t ∧ t.myState = .discovery ∧ Silent t := by
    rintro _ ⟨nb, tm, an, harm, hgrade, rfl⟩
    have hvalue : an.discovery.hasValue = s.an.discovery.hasValue ∧
        an.discovery.value.date = s.an.discovery.value.date := by
      rcases hgrade with rfl | ⟨d, rfl⟩ <;> exact ⟨rfl, rfl⟩
    have hdate : tm.rt0.date = s.tm.rt0.date := by
      rw [Rtimer.date, Rtimer.date, harm.coarse_eq, harm.fine_eq]
    refine ⟨h.same hst hvalue.1 hvalue.2 harm.state_eq hdate, hst, fun _ hsp => ?_⟩
    exact hvalue.1.trans (hsilent hst (harm.state_eq.symm.trans hsp))
  cases id with
  | discovery =>
    refine whenReceived_rule (P := DateKept) (fun t ht => (hrecv t ht).1) fun t n ht => ?_
    obtain ⟨hkept, hdisc, hsil⟩ := hrecv t ht
    have hmsg : ∀ u : Node R, u.an = t.an → u.tm = t.tm → u.myState = t.myState → DateKept
        (if u.myState = .discovery then u.checkSynced.startElection value else u) := by
      intro u han htm hust
      have hsynced : u.checkSynced.an.discovery.hasValue = t.an.discovery.hasValue ∧
          u.checkSynced.an.discovery.value.date = t.an.discovery.value.date ∧
          u.checkSynced.tm = t.tm ∧ u.checkSynced.myState = u.myState := by
        rw [checkSynced, ← han, ← htm]
        split <;> exact ⟨rfl, rfl, rfl, rfl⟩
      obtain ⟨hvalue, hdate, htm', hst'⟩ := hsynced
      have hdisc' : u.checkSynced.myState = .discovery := hst'.trans (hust.trans hdisc)
      rw [if_pos (hust.trans hdisc)]
      refine dateKept_startElection value hdisc' ?_ fun hsp => ?_
      · exact hkept.same hdisc hvalue hdate (by rw [htm']) (by rw [htm'])
      · rw [htm'] at hsp
        exact hvalue.trans (hsil hdisc hsp)
    cases n.synced with
    | true => exact hmsg { t with syncedCounter := t.syncedCounter + 1 } rfl rfl rfl
    | false => exact hmsg t rfl rfl rfl
  | revelation =>
    refine whenSynced_rule (P := DateKept) (fun t ht => (hrecv t ht).1) fun t n _ ht => ?_
    obtain ⟨hkept, hdisc, -⟩ := hrecv t ht
    rw [revelationMessage, hdisc]
    exact dateKept_joinRevelation value n hdisc hkept
  | declaration =>
    refine whenSynced_rule (P := DateKept) (fun t ht => (hrecv t ht).1) fun t n _ ht => ?_
    obtain ⟨-, hdisc, -⟩ := hrecv t ht
    rw [declarationMessage, hdisc]
    exact .removed (removed_joinDeclaration t value n)
  | convergence =>
    refine whenSynced_rule (P := DateKept) (fun t ht => (hrecv t ht).1) fun t n _ ht => ?_
    obtain ⟨hkept, hdisc, -⟩ := hrecv t ht
    rw [convergenceMessage, hdisc]
    exact hkept
  | synchronization =>
    change DateKept (s.receivedSynchronizationAnnouncement value rx)
    rw [receivedSynchronizationAnnouncement]
    split
    · exact h
    · refine whenSynced_rule (P := DateKept) (fun t ht => (hrecv t ht).1) fun t n _ ht => ?_
      obtain ⟨-, hdisc, -⟩ := hrecv t ht
      rw [synchronizationMessage, hdisc]
      exact .removed (removed_joinSynchronization t value n)

theorem dateKept_step {e : Event R} (htimed : Timed s.core) (hsilent : Silent s)
    (h : DateKept s) (hstep : s.step e = some t) : DateKept t := by
  by_cases hst : s.myState = .discovery
  · obtain ⟨-, hof⟩ := step_of hstep
    cases hof with
    | @heard id value rx _ => exact dateKept_heard (s := s.prepare e) id value rx hst h hsilent
    | fired =>
      have hinactive : (s.prepare e).fire.tm.rt0.state = .inactive := congrArg Core.status (s.prepare e).core_fire
      exact fun _ hsched => absurd (hinactive.symm.trans hsched) (by decide)
    | resumed =>
      rw [resume_discovery (s := { s.prepare e with polled := false }) htimed hst]
      exact h
    | overflowed => exact h
  · cases step_case htimed.late hstep with
    | moves hm => exact .left (Moves.leaves_discovery hm hst)
    | worked _ _ hp =>
      rcases hp with ⟨-, hl⟩ | ⟨-, -, -, hexpired⟩
      · refine .left fun hdisc => ?_
        rw [show t.core.st = .discovery from hdisc] at hl
        cases hl
      · exact fun _ hsched => absurd (hexpired.symm.trans hsched) (by decide)
    | fired _ hcore =>
      exact fun _ hsched => absurd ((congrArg Core.status hcore).symm.trans hsched) (by simp)

theorem dateKept_run {a : UInt16} {es : List (Event R)}
    (hrun : Run step (fun _ _ => True) (boot a) es s) : DateKept s := by
  have hinv := hrun.invariant (P := fun s => Timed s.core ∧ Silent s ∧ DateKept s)
    (fun _ _ _ hs _ hst => ⟨timed_step hs.1 hst, silent_step hs.1 hs.2.1 hst, dateKept_step hs.1 hs.2.1 hs.2.2 hst⟩)
    ⟨timed_boot a, (phasedAt_boot a).silent, nofun⟩
  exact hinv.2.2

/-! ### Taking over dates -/

/-- A message that announces the election is handled, and if its date is later than the armed one the
    call of `rtimer_schedule` for it succeeds. -/
def Delivered (s : Node R) (e : Event R) : Prop :=
  ∃ value rx, e.act = .heard .discovery value rx ∧ value.instr = discToErev ∧
    ¬ rx.rssi < rssiThreshold ∧ ((s.prepare e).addNeighbour value rx).1.isSome = true ∧
    (s.tm.rt0.date < value.date →
      (rtimerSchedule ((s.prepare e).addNeighbour value rx).2.tm .rtimer0 .date value.dateCoarse
        value.dateFine .enterElectionRevelation).1 = true)

/-- The date of a message. -/
def eventDate (e : Event R) : Option (ℕ ×ₗ ℕ) :=
  match e.act with
  | .heard _ value _ => some value.date
  | _ => none

/-- The dates of a sequence of messages. -/
def dates (es : List (Event R)) : List (ℕ ×ₗ ℕ) := es.filterMap eventDate

/-- In discovery, with the timer scheduled. -/
structure Waiting (s : Node R) : Prop where
  phase : s.myState = .discovery
  scheduled : s.tm.rt0.state = .scheduled

theorem startElection_date (h : Waiting s) (hinstr : value.instr = discToErev)
    (hacc : s.tm.rt0.date < value.date →
        (rtimerSchedule s.tm .rtimer0 .date value.dateCoarse value.dateFine .enterElectionRevelation).1 = true) :
    Waiting (s.startElection value) ∧ (s.startElection value).tm.rt0.date = max s.tm.rt0.date value.date := by
  have hfirst : ¬ (value.instr = St.discovery.code ∧ s.an.discovery.value.instr = St.discovery.code ∧
      maxRxSyncDiscovery ≤ s.syncedCounter) := by
    rw [hinstr]
    exact fun h => absurd h.1 (by decide)
  rw [startElection, if_neg hfirst, if_pos hinstr]
  have hcompare := rtimerCompare_one h.scheduled value.dateCoarse value.dateFine
  by_cases hlt : s.tm.rt0.date < value.date
  · rw [if_pos (hcompare.mpr hlt), max_eq_right hlt.le, ifScheduledAt]
    refine ifScheduled_ends (P := fun t : Node R => Waiting t ∧ t.tm.rt0.date = value.date)
      (fun tm _ hend => ?_) fun tm heq _ => ?_
    · cases hend with
      | singlepass hsp _ => exact absurd (h.scheduled.symm.trans hsp) (by decide)
      | armed _ _ hstate hdate =>
        obtain ⟨hc, hf⟩ := hdate rfl
        refine ⟨⟨h.phase, hstate⟩, ?_⟩
        change lgDate tm.rt0.timeCoarseLg tm.rt0.timeFineLg = value.date
        rw [hc, hf]
        rfl
    · have hok := hacc hlt
      rw [heq] at hok
      cases hok
  · rw [if_neg fun hone => hlt (hcompare.mp hone), max_eq_left (not_lt.mp hlt)]
    exact ⟨h, rfl⟩

/-- STEP: a message leaves the node waiting for the later of the two dates. -/
theorem delivered_step {e : Event R} (h : Waiting s) (hok : s.Delivered e) (hstep : s.step e = some t) :
    Waiting t ∧ ∃ d, eventDate e = some d ∧ t.tm.rt0.date = max s.tm.rt0.date d := by
  obtain ⟨value, rx, hact, hinstr, hrssi, hsome, hacc⟩ := hok
  obtain ⟨i, hi⟩ := Option.isSome_iff_exists.mp hsome
  obtain ⟨nb, tm, an, harm, -, hrecv⟩ := (s.prepare e).addNeighbour_spec value rx
  rw [hrecv] at hacc
  have hdate : tm.rt0.date = s.tm.rt0.date := by
    rw [Rtimer.date, Rtimer.date, harm.coarse_eq, harm.fine_eq]
    rfl
  have hmsg : ∀ u : Node R, u.tm = tm → u.myState = .discovery →
      Waiting (if u.myState = .discovery then u.checkSynced.startElection value else u) ∧
      (if u.myState = .discovery then u.checkSynced.startElection value else u).tm.rt0.date =
        max s.tm.rt0.date value.date := by
    intro u htm hst
    have hsynced : u.checkSynced.tm = tm ∧ u.checkSynced.myState = u.myState := by
      rw [checkSynced, ← htm]
      split <;> exact ⟨rfl, rfl⟩
    have hwait : Waiting u.checkSynced :=
      ⟨hsynced.2.trans hst, by rw [hsynced.1]; exact harm.state_eq.trans h.scheduled⟩
    rw [if_pos hst]
    have hstart := startElection_date hwait hinstr (by rw [hsynced.1, hdate]; exact hacc)
    rw [hsynced.1, hdate] at hstart
    exact hstart
  have hresult : Waiting t ∧ t.tm.rt0.date = max s.tm.rt0.date value.date := by
    rw [step_heard hact hstep, heard, receivedDiscoveryAnnouncement, whenReceived, if_neg hrssi]
    dsimp only
    rw [hi, hrecv]
    dsimp only
    cases (nb.memb.mem i).synced with
    | true => exact hmsg { s.prepare e with
        nb := nb, tm := tm, an := an, syncedCounter := s.syncedCounter + 1 } rfl h.phase
    | false => exact hmsg { s.prepare e with nb := nb, tm := tm, an := an } rfl h.phase
  exact ⟨hresult.1, value.date, by rw [eventDate, hact], hresult.2⟩

/-- RUN: the date behind a sequence of messages is the greatest of the armed one and theirs. -/
theorem delivered_run {es : List (Event R)} (hrun : Run step Delivered s es t)
    (h : Waiting s) : Waiting t ∧ IsGreatest (insert s.tm.rt0.date {d | d ∈ dates es}) t.tm.rt0.date := by
  induction hrun with
  | nil s => exact ⟨h, by simp [dates]⟩
  | @cons s u t e es hok hstep _ ih =>
    obtain ⟨hu, d, hd, hmax⟩ := delivered_step h hok hstep
    obtain ⟨ht, hmem, hbound⟩ := ih hu
    have hdates : dates (e :: es) = d :: dates es := by rw [dates, List.filterMap_cons, hd]; rfl
    refine ⟨ht, ?_, ?_⟩
    · rw [hdates]
      rcases hmem with heq | hmem
      · rw [heq, hmax]
        rcases max_choice s.tm.rt0.date d with hm | hm
        · exact .inl hm
        · exact .inr (by rw [hm]; exact List.mem_cons_self)
      · exact .inr (List.mem_cons_of_mem _ hmem)
    · have hle : max s.tm.rt0.date d ≤ t.tm.rt0.date := by
        rw [← hmax]
        exact hbound (.inl rfl)
      rintro x (rfl | hx)
      · exact (le_max_left _ _).trans hle
      · rw [hdates] at hx
        rcases List.mem_cons.mp hx with rfl | hx
        · exact (le_max_right _ _).trans hle
        · exact hbound (.inr hx)

/-- ELECTION DATE: at a node in discovery with its timer scheduled, the date behind any sequence of
    election announcements is the latest of the armed one and theirs; so it does not depend on their
    order and number, and it is the date that the node announces. -/
theorem discovery_date_agreement (a : UInt16) (fs : List (Event R)) (s : Node R)
    (hreach : Run step (fun _ _ => True) (boot a) fs s) (hst : s.myState = .discovery)
    (hsched : s.tm.rt0.state = .scheduled) (es : List (Event R)) (t : Node R) (hrun : Run step Delivered s es t) :
    t.myState = .discovery ∧
    t.tm.rt0.state = .scheduled ∧
    IsGreatest (insert s.tm.rt0.date {d | d ∈ dates es}) t.tm.rt0.date ∧
    (∀ (es' : List (Event R)) (t' : Node R), Run step Delivered s es' t' → (∀ d, d ∈ dates es' ↔ d ∈ dates es) →
       t'.tm.rt0.date = t.tm.rt0.date) ∧
    (t.an.discovery.hasValue = true → t.an.discovery.value.date = t.tm.rt0.date) := by
  obtain ⟨hwait, hgreatest⟩ := delivered_run hrun ⟨hst, hsched⟩
  refine ⟨hwait.phase, hwait.scheduled, hgreatest, fun es' t' hrun' hdates => ?_, fun hvalue => ?_⟩
  · obtain ⟨-, hgreatest'⟩ := delivered_run hrun' ⟨hst, hsched⟩
    have hset : {d | d ∈ dates es'} = {d | d ∈ dates es} := Set.ext hdates
    rw [hset] at hgreatest'
    exact hgreatest'.unique hgreatest
  · have hall : Run step (fun _ _ => True) (boot a) (fs ++ es) t := hreach.append (hrun.weaken fun _ _ _ => trivial)
    exact dateKept_run hall hwait.phase hwait.scheduled hvalue

/-! ### Concrete runs -/

/-- A decidable condition for `Delivered`. -/
def delivers (s : Node R) (e : Event R) : Bool :=
  match e.act with
  | .heard .discovery value rx => value.instr == discToErev && !decide (rx.rssi < rssiThreshold) &&
      ((s.prepare e).addNeighbour value rx).1.isSome &&
      (rtimerSchedule ((s.prepare e).addNeighbour value rx).2.tm .rtimer0 .date value.dateCoarse
        value.dateFine .enterElectionRevelation).1
  | _ => false

theorem delivered_of_delivers (s : Node R) (e : Event R) (h : s.delivers e = true) : s.Delivered e := by
  rw [delivers] at h
  split at h
  next value rx hact =>
    simp only [Bool.and_eq_true, beq_iff_eq, Bool.not_eq_true', decide_eq_false_iff_not] at h
    exact ⟨value, rx, hact, h.1.1.1, h.1.1.2, h.1.2, fun _ => h.2⟩
  · cases h

/-- Node 44 waits for an election that 48 has announced. -/
def waitingRun : List (Event Rat) := oneNeighbourRun 48 3

def laterDates : List (Event Rat) :=
  [hearsAt 6000 48 .discovery 1 3 1 200000 0, hearsAt 7000 48 .discovery 1 3 1 150000 0]

theorem discovery_date_agreement_later : ∃ s t : Node Rat, Run step (fun _ _ => True) (boot 44) waitingRun s ∧
    s.tm.rt0.date = lgDate 1 100000 ∧ Run step Delivered s laterDates t ∧ t.tm.rt0.date = lgDate 1 200000 ∧
    t.an.discovery.value.date = lgDate 1 200000 := by
  obtain ⟨s, hreach, hs⟩ : ∃ s, Run step (fun _ _ => True) (boot 44) waitingRun s ∧ _ :=
    exists_run (fun _ _ => true) (fun s => s.myState == .discovery &&
      s.tm.rt0.state == .scheduled && s.tm.rt0.timeCoarseLg == 1 && s.tm.rt0.timeFineLg == 100000 &&
      (exec step delivers s laterDates).any fun t => t.an.discovery.hasValue)
      (fun _ _ _ => trivial) (by decide +kernel)
  simp only [Bool.and_eq_true, beq_iff_eq] at hs
  obtain ⟨⟨⟨⟨hst, hsched⟩, hc⟩, hf⟩, hexec⟩ := hs
  obtain ⟨t, hrun, hvalue⟩ : ∃ t, Run step Delivered s laterDates t ∧ _ :=
    exists_run delivers _ delivered_of_delivers hexec
  obtain ⟨-, -, hgreatest, -, hann⟩ := discovery_date_agreement 44 waitingRun s hreach hst hsched laterDates t hrun
  have hdate : s.tm.rt0.date = lgDate 1 100000 := by rw [Rtimer.date, hc, hf]
  have hlatest : t.tm.rt0.date = lgDate 1 200000 := by
    refine hgreatest.unique ⟨.inr List.mem_cons_self, ?_⟩
    rintro d (rfl | hd)
    · rw [hdate]
      decide
    · rcases List.mem_cons.mp hd with rfl | hd
      · exact le_refl _
      · rw [List.mem_singleton.mp hd]
        decide
  exact ⟨s, t, hreach, hdate, hrun, hlatest, (hann hvalue).trans hlatest⟩

end Node

end CSync
