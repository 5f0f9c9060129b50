import CSync.Timers.EtimerRuns

/-! Callback timers (`core/sys/ctimer.c`) over the event timers and the event queue.

    The etimer of a ctimer has the ctimer's number. Between the expiry of a ctimer and its callback stands the event
    queue: a poll of `etimer_process` posts a `PROCESS_EVENT_TIMER` with the address of the etimer, and
    `ctimer_process` looks that address up in `ctimer_list` when it is delivered. What the callback itself calls are
    events of their own, behind the delivery.

    An event that is still queued when its ctimer is set again is taken for an expiry of the new setting. -/

namespace CSync.Ctimer

open Lib Etimer List Function Option

/-- The platform, the process `ctimer_process` and which of the etimers belong to ctimers. -/
structure System (N : Nat) (P : Type) where
  platform : Platform
  ctimerProcess : P
  isCtimer : Fin N → Bool

/-- A run of a callback: when, whether its timer was stopped then, and the time its latest
    `ctimer_set` asked to wait for. -/
structure Firing (N : Nat) where
  timer : Fin N
  time : Nat
  stopped : Bool
  dueBy : Nat
  deriving DecidableEq

/-- The ctimers and what they run on. `stopped`, `dueBy` and `firings` are a history: stopped and not
    armed since, the end of the interval of the latest `ctimer_set`, and the callbacks run. -/
structure State (N : Nat) (P F : Type) where
  et : Etimer.State N P
  p : Fin N → Option P
  f : Fin N → Option F
  ctimerList : List (Fin N)
  initialized : Bool
  stopped : Fin N → Bool
  dueBy : Fin N → Nat
  firings : List (Firing N)

variable {N : Nat} {P F : Type} (sys : System N P)

def listAdd (l : List (Fin N)) (c : Fin N) : List (Fin N) := l.erase c ++ [c]

def ctimerSet (s : State N P F) (c : Fin N) (t : Nat) (f : Option F) (p : Option P) : State N P F :=
  let t := t % 2 ^ sys.platform.width
  let et :=
    if s.initialized then etimerArm sys.platform s.et (some sys.ctimerProcess) c (.set t)
    else { s.et with
      interval := update s.et.interval c t
      due := update s.et.due c (s.et.due c - s.et.interval c + t) }
  { s with
    et := et
    p := update s.p c p
    f := update s.f c f
    ctimerList := listAdd s.ctimerList c
    stopped := update s.stopped c false
    dueBy := update s.dueBy c (s.et.now + t) }

/-- `ctimer_reset` and `ctimer_restart`, with the call on the etimer they make. -/
def ctimerAgain (s : State N P F) (c : Fin N) (a : Arming) : State N P F :=
  let et :=
    if s.initialized then etimerArm sys.platform s.et (some sys.ctimerProcess) c a else s.et
  { s with
    et := et
    ctimerList := listAdd s.ctimerList c
    stopped := update s.stopped c false }

def ctimerReset (s : State N P F) (c : Fin N) : State N P F := ctimerAgain sys s c .reset

def ctimerRestart (s : State N P F) (c : Fin N) : State N P F := ctimerAgain sys s c .restart

def ctimerStop (s : State N P F) (c : Fin N) : State N P F :=
  let et :=
    if s.initialized then etimerStop sys.platform s.et c
    else { s.et with
      next := update s.et.next c none
      p := update s.et.p c none
      waiting := update s.et.waiting c false }
  { s with
    et := et
    ctimerList := s.ctimerList.erase c
    stopped := update s.stopped c true }

/-- The loop with which `ctimer_process` starts. -/
def armAll (et : Etimer.State N P) (l : List (Fin N)) : Etimer.State N P :=
  l.foldl (fun et c => etimerArm sys.platform et (some sys.ctimerProcess) c (.set (et.interval c))) et

theorem contains_ctimer (t : Fin N) (l : List (Fin N)) : l.contains t = true ↔ t ∈ l := contains_iff_mem

local instance decidableMemCtimer (t : Fin N) (l : List (Fin N)) : Decidable (t ∈ l) :=
  decidable_of_iff _ (contains_ctimer t l)

/-- `ctimer_process` with a `PROCESS_EVENT_TIMER` for `t`. -/
def ctimerEvent (s : State N P F) (t : Fin N) : State N P F :=
  if s.initialized ∧ t ∈ s.ctimerList then
    { s with
      ctimerList := s.ctimerList.erase t
      firings :=
        if s.f t = none then s.firings
        else ⟨t, s.et.now, s.stopped t, s.dueBy t⟩ :: s.firings }
  else s

/-- `do_event`: the first event of the queue goes to its receiver. -/
def doEvent [DecidableEq P] (s : State N P F) : State N P F :=
  match s.et.queue with
  | [] => s
  | .timer r t :: rest =>
    let s := { s with et := { s.et with queue := rest } }
    if r = none ∨ r = some sys.ctimerProcess then ctimerEvent s t else s
  | .other :: rest => { s with et := { s.et with queue := rest } }

/-- What happens to the ctimers. -/
inductive Event (N : Nat) (P F : Type) where
  | start
  | set (c : Fin N) (t : Nat) (f : Option F) (p : Option P)
  | reset (c : Fin N)
  | restart (c : Fin N)
  | stop (c : Fin N)
  | deliver
  | etimers (e : Etimer.Event N P)
  deriving DecidableEq

/-- An event of the etimers that is none of `ctimer.c`: expiries, time, other events, and calls for
    the etimers that belong to no ctimer. -/
def foreign [DecidableEq P] : Etimer.Event N P → Bool
  | .arm _ t _ | .adjust t _ | .stop t => !sys.isCtimer t
  | .exited q => q ≠ sys.ctimerProcess
  | .deliver => false
  | .poll | .tick _ | .post => true

/-- One event. `ctimer_process` starts once; the calls are made on ctimers. -/
def step [DecidableEq P] (s : State N P F) : Event N P F → Option (State N P F)
  | .start =>
    if s.initialized then none
    else some { s with et := armAll sys s.et s.ctimerList, initialized := true }
  | .set c t f p => if sys.isCtimer c then some (ctimerSet sys s c t f p) else none
  | .reset c => if sys.isCtimer c then some (ctimerReset sys s c) else none
  | .restart c => if sys.isCtimer c then some (ctimerRestart sys s c) else none
  | .stop c => if sys.isCtimer c then some (ctimerStop sys s c) else none
  | .deliver => some (doEvent sys s)
  | .etimers e =>
    if foreign sys e then (Etimer.step sys.platform s.et e).map fun et => { s with et := et }
    else none

/-- Behind `ctimer_init`: nothing is listed, nothing has run, the etimers are fresh. -/
structure Fresh (s : State N P F) : Prop where
  et : Etimer.Fresh s.et
  intervals : ∀ t, s.et.interval t < 2 ^ sys.platform.width
  ctimerList : s.ctimerList = []
  initialized : s.initialized = false
  dueBy : ∀ t, s.dueBy t = 0
  firings : s.firings = []

/-- A ctimer is set while no event for it is queued, and reset only when the interval of its latest
    setting is over; other etimers are armed from inside a process. -/
def Allowed (s : State N P F) : Event N P F → Prop
  | .set c _ _ _ => ∀ r, Queued.timer r c ∉ s.et.queue
  | .reset c => s.dueBy c ≤ s.et.now
  | .etimers e => InProcess s.et e
  | _ => True

section Fields

variable {c : Platform} {s : Etimer.State N P} {t : Fin N}

theorem etimerArm_fields (s : Etimer.State N P) (cur : Option P) (t : Fin N) (a : Arming) :
    let s' := etimerArm c s cur t a
    s'.now = s.now ∧ s'.queue = s.queue ∧ s'.due = update s.due t (rearm c s t a).2.2 ∧
      s'.interval = update s.interval t (rearm c s t a).2.1 := by
  unfold etimerArm addTimer
  dsimp only
  split <;> (rw [updateTime_eq]; exact ⟨rfl, rfl, rfl, rfl⟩)

theorem etimerStop_fields (s : Etimer.State N P) (t : Fin N) :
    let s' := etimerStop c s t
    s'.now = s.now ∧ s'.queue = s.queue ∧ s'.due = s.due ∧ s'.interval = s.interval := by
  unfold etimerStop
  split
  · rw [updateTime_eq]; exact ⟨rfl, rfl, rfl, rfl⟩
  · split
    · rw [updateTime_eq]; exact ⟨rfl, rfl, rfl, rfl⟩
    · exact ⟨rfl, rfl, rfl, rfl⟩

theorem due_le_of_expired (hsync : s.due t % (2 ^ c.width : Nat) = (s.start t + s.interval t : Int) % (2 ^ c.width :
    Nat)) (hstart : s.due t - s.interval t ≤ s.now) (hx : timerExpired c s t = true) : s.due t ≤ s.now := by
  have hpos : 0 < 2 ^ c.width := Nat.two_pow_pos _
  unfold timerExpired at hx
  rw [decide_eq_true_eq] at hx
  set x := clockTime c s + (2 ^ c.width - s.start t % 2 ^ c.width) with hxdef
  have hmod : s.start t % 2 ^ c.width < 2 ^ c.width := Nat.mod_lt _ hpos
  -- the elapsed time modulo the width
  have helapsed : ((x % 2 ^ c.width : Nat) : Int) =
      ((s.now : Int) - (s.due t - s.interval t)) % (2 ^ c.width : Nat) := by
    have hback : (s.due t - s.interval t) % (2 ^ c.width : Nat) = (s.start t : Int) % (2 ^ c.width : Nat) := by
      rw [Int.sub_emod, hsync, ← Int.sub_emod]
      congr 1
      ring
    rw [Int.natCast_mod, hxdef, Int.natCast_add, Nat.cast_sub hmod.le, clockTime, Int.natCast_mod,
      Int.natCast_mod, Int.sub_emod (s.now : Int), hback]
    have hshift : (s.now : Int) % (2 ^ c.width : Nat) +
        ((2 ^ c.width : Nat) - (s.start t : Int) % (2 ^ c.width : Nat)) =
        (s.now : Int) % (2 ^ c.width : Nat) - (s.start t : Int) % (2 ^ c.width : Nat) + (2 ^ c.width : Nat) := by ring
    rw [hshift, Int.add_emod_right]
  have hge : s.interval t ≤ x % 2 ^ c.width := by
    rw [← Nat.mod_add_mod] at hx
    rcases lt_or_ge (x % 2 ^ c.width + 1) (2 ^ c.width) with h | h
    · rw [Nat.mod_eq_of_lt h] at hx
      omega
    · rw [show x % 2 ^ c.width + 1 = 2 ^ c.width by omega, Nat.mod_self] at hx
      omega
  have hle : ((s.now : Int) - (s.due t - s.interval t)) % (2 ^ c.width : Nat) ≤
      (s.now : Int) - (s.due t - s.interval t) := by
    obtain ⟨n, hn⟩ := Int.eq_ofNat_of_zero_le (show 0 ≤ (s.now : Int) - (s.due t - s.interval t) by omega)
    rw [hn, ← Int.natCast_mod]
    exact_mod_cast Nat.mod_le n _
  omega

end Fields

/-! ### Timely etimers -/

/-- TIMELY: as long as the interval of its latest setting is not over, a ctimer has no event in the
    queue, and its etimer, if pending, did not start in the future and waits at least that long. Before
    `ctimer_process` has started (`ini` is false) none is pending. -/
structure Timely (sys : System N P) (ini : Bool) (et : Etimer.State N P) (dueBy : Fin N → Nat) :
    Prop where
  good : ∃ l, Good sys.platform et l
  small : ∀ c, sys.isCtimer c = true → et.interval c < 2 ^ sys.platform.width
  reach : ∀ c, sys.isCtimer c = true → dueBy c ≤ et.now + et.interval c
  unqueued : ∀ c, sys.isCtimer c = true → et.now < dueBy c → ∀ r, Queued.timer r c ∉ et.queue
  pending : ∀ c, sys.isCtimer c = true → et.now < dueBy c → c ∈ nodes et →
    et.due c - et.interval c ≤ et.now ∧ (dueBy c : Int) ≤ et.due c
  idle : ini = false → ∀ c, sys.isCtimer c = true → c ∉ nodes et

section Timely

variable {sys : System N P} {ini : Bool} {et : Etimer.State N P} {dueBy dueBy' : Fin N → Nat} {t : Fin N}

section
variable (h : Timely sys ini et dueBy)
include h

theorem Timely.arm {cur : Option P} (hcur : cur ≠ none) (a : Arming)
    (hothers : ∀ u, u ≠ t → dueBy' u = dueBy u) (hini : sys.isCtimer t = true → ini = true)
    (hself : sys.isCtimer t = true →
        (rearm sys.platform et t a).2.1 < 2 ^ sys.platform.width ∧
        dueBy' t ≤ et.now + (rearm sys.platform et t a).2.1 ∧
        (et.now < dueBy' t →
           (∀ r, Queued.timer r t ∉ et.queue) ∧
           (rearm sys.platform et t a).2.2 - (rearm sys.platform et t a).2.1 ≤ et.now ∧
           (dueBy' t : Int) ≤ (rearm sys.platform et t a).2.2)) :
    Timely sys ini (etimerArm sys.platform et cur t a) dueBy' := by
  obtain ⟨l, hl⟩ := h.good
  obtain ⟨l', hgood, hmem, -⟩ := etimerArm_good hl hcur t a
  obtain ⟨hnow, hqueue, hdue, hinterval⟩ := @etimerArm_fields N P sys.platform et cur t a
  have hnodes := Good.nodes_eq hgood.linked
  refine ⟨⟨l', hgood⟩, ?_, ?_, ?_, ?_, ?_⟩
  · intro u hu
    by_cases hut : u = t
    · subst hut; rw [hinterval, update_self]; exact (hself hu).1
    · rw [hinterval, update_of_ne hut]; exact h.small u hu
  · intro u hu
    by_cases hut : u = t
    · subst hut; rw [hnow, hinterval, update_self]; exact (hself hu).2.1
    · rw [hnow, hinterval, update_of_ne hut, hothers u hut]; exact h.reach u hu
  · intro u hu
    rw [hnow, hqueue]
    by_cases hut : u = t
    · subst hut; exact fun hlt => ((hself hu).2.2 hlt).1
    · rw [hothers u hut]; exact h.unqueued u hu
  · intro u hu
    rw [hnow, hdue, hinterval, hnodes]
    by_cases hut : u = t
    · subst hut
      rw [update_self, update_self]
      exact fun hlt _ => ((hself hu).2.2 hlt).2
    · rw [hothers u hut, update_of_ne hut, update_of_ne hut]
      intro hlt hin
      refine h.pending u hu hlt ?_
      rw [Good.nodes_eq hl.linked]
      exact ((hmem u).mp hin).resolve_left hut
  · intro hfalse u hu hin
    rw [hnodes] at hin
    rcases (hmem u).mp hin with rfl | hin
    · rw [hini hu] at hfalse; cases hfalse
    · exact h.idle hfalse u hu (by rw [Good.nodes_eq hl.linked]; exact hin)

/-- Nothing that leaves times, intervals and due times alone and adds no event and no pending timer matters. -/
theorem Timely.shrink {et' : Etimer.State N P} (hgood : ∃ l, Good sys.platform et' l)
    (hnow : et'.now = et.now) (hinterval : et'.interval = et.interval) (hdue : et'.due = et.due)
    (hqueue : ∀ c, sys.isCtimer c = true → ∀ r, Queued.timer r c ∈ et'.queue → Queued.timer r c ∈ et.queue)
    (hnodes : ∀ u ∈ nodes et', u ∈ nodes et) : Timely sys ini et' dueBy := by
  refine ⟨hgood, ?_, ?_, ?_, ?_, ?_⟩
  · rw [hinterval]; exact h.small
  · rw [hnow, hinterval]; exact h.reach
  · intro c hc hlt r hmem
    rw [hnow] at hlt
    exact h.unqueued c hc hlt r (hqueue c hc r hmem)
  · intro c hc hlt hmem
    rw [hnow] at hlt
    rw [hnow, hdue, hinterval]
    exact h.pending c hc hlt (hnodes c hmem)
  · exact fun hfalse c hc hmem => h.idle hfalse c hc (hnodes c hmem)

theorem Timely.poll : Timely sys ini (Etimer.poll sys.platform et) dueBy := by
  obtain ⟨l, hl⟩ := h.good
  have hpolled := poll_spec hl
  obtain ⟨hnow, hdue, -, hinterval⟩ := hpolled.times
  obtain ⟨ts, hqueue, hexpired, -⟩ := hpolled.posted
  have hsub : ∀ u ∈ nodes (Etimer.poll sys.platform et), u ∈ nodes et := by
    intro u hu
    rw [Good.nodes_eq hpolled.good.linked] at hu
    rw [Good.nodes_eq hl.linked]
    exact leftOver_subset _ _ _ hu
  refine ⟨⟨_, hpolled.good⟩, ?_, ?_, ?_, ?_, ?_⟩
  · rw [hinterval]; exact h.small
  · rw [hnow, hinterval]; exact h.reach
  · intro c hc hlt r hmem
    rw [hnow] at hlt
    rw [hqueue, mem_append] at hmem
    rcases hmem with hmem | hmem
    · exact h.unqueued c hc hlt r hmem
    · obtain ⟨t, ht, heq⟩ := mem_map.mp hmem
      obtain rfl : t = c := by injection heq
      obtain ⟨hin, hx⟩ := hexpired t ht
      obtain ⟨hstart, hle⟩ := h.pending t hc hlt (by rw [Good.nodes_eq hl.linked]; exact hin)
      have hover := due_le_of_expired (hl.sync t) hstart hx
      omega
  · intro c hc hlt hmem
    rw [hnow] at hlt
    rw [hnow, hdue, hinterval]
    exact h.pending c hc hlt (hsub c hmem)
  · exact fun hfalse c hc hmem => h.idle hfalse c hc (hsub c hmem)

theorem Timely.foreign [DecidableEq P] {e : Etimer.Event N P} {et' : Etimer.State N P}
    (hf : Ctimer.foreign sys e = true) (hin : InProcess et e)
    (hs : Etimer.step sys.platform et e = some et') : Timely sys ini et' dueBy := by
  obtain ⟨l, hl⟩ := h.good
  obtain ⟨l', hl', -⟩ := step_good hl hin hs
  have hgood : ∃ l, Good sys.platform et' l := ⟨l', hl'⟩
  cases e with
  | arm cur t a =>
    rw [Etimer.step] at hs
    cases hs
    have hnot : sys.isCtimer t = false := by simpa [Ctimer.foreign] using hf
    refine h.arm hin a (fun _ _ => rfl) (fun hc => ?_) fun hc => ?_ <;> (rw [hnot] at hc; cases hc)
  | adjust t d =>
    rw [Etimer.step] at hs
    cases hs
    have hnot : sys.isCtimer t = false := by simpa [Ctimer.foreign] using hf
    have hne : ∀ u, sys.isCtimer u = true → u ≠ t := by
      rintro u hu rfl
      rw [hnot] at hu
      cases hu
    have hnodes : nodes (etimerAdjust sys.platform et t d) = nodes et := by
      rw [Good.nodes_eq (etimerAdjust_good hl t d).1.linked, Good.nodes_eq hl.linked]
    have hfields : (etimerAdjust sys.platform et t d).now = et.now ∧
        (etimerAdjust sys.platform et t d).queue = et.queue ∧
        (etimerAdjust sys.platform et t d).interval = et.interval ∧
        (etimerAdjust sys.platform et t d).due = update et.due t (et.due t + d) := by
      unfold etimerAdjust
      rw [updateTime_eq]
      exact ⟨rfl, rfl, rfl, rfl⟩
    obtain ⟨hnow, hqueue, hinterval, hdue⟩ := hfields
    refine ⟨hgood, ?_, ?_, ?_, ?_, by rw [hnodes]; exact h.idle⟩
    · rw [hinterval]; exact h.small
    · rw [hnow, hinterval]; exact h.reach
    · rw [hnow, hqueue]; exact h.unqueued
    · intro u hu
      rw [hnow, hnodes, hinterval, hdue, update_of_ne (hne u hu)]
      exact h.pending u hu
  | stop t =>
    rw [Etimer.step] at hs
    cases hs
    obtain ⟨l₂, hl₂, hmem, -⟩ := etimerStop_good hl t
    obtain ⟨hnow, hqueue, hdue, hinterval⟩ := @etimerStop_fields N P sys.platform et t
    refine h.shrink hgood hnow hinterval hdue (fun _ _ r hr => by rw [hqueue] at hr; exact hr) ?_
    intro u hu
    rw [Good.nodes_eq hl₂.linked] at hu
    rw [Good.nodes_eq hl.linked]
    exact ((hmem u).mp hu).1
  | poll =>
    rw [Etimer.step] at hs
    cases hs
    exact h.poll
  | exited q =>
    rw [Etimer.step] at hs
    cases hs
    obtain ⟨hl₂, -, hdue⟩ := exited_good hl q
    have hfields : (exited et q).now = et.now ∧ (exited et q).queue = et.queue ∧
        (exited et q).interval = et.interval := by
      unfold exited
      dsimp only
      split <;> exact ⟨rfl, rfl, rfl⟩
    obtain ⟨hnow, hqueue, hinterval⟩ := hfields
    refine h.shrink hgood hnow hinterval hdue (fun _ _ r hr => by rw [hqueue] at hr; exact hr) ?_
    intro u hu
    rw [Good.nodes_eq hl₂.linked] at hu
    rw [Good.nodes_eq hl.linked]
    exact mem_of_mem_filter hu
  | tick d =>
    rw [Etimer.step] at hs
    cases hs
    refine ⟨hgood, h.small, ?_, ?_, ?_, h.idle⟩
    · intro c hc
      have := h.reach c hc
      dsimp only
      omega
    · intro c hc hlt
      exact h.unqueued c hc (by dsimp only at hlt; omega)
    · intro c hc hlt hmem
      obtain ⟨h1, h2⟩ := h.pending c hc (by dsimp only at hlt; omega) hmem
      exact ⟨by dsimp only; push_cast; omega, h2⟩
  | post =>
    rw [Etimer.step] at hs
    cases hs
    refine h.shrink hgood ?_ ?_ ?_ ?_ ?_ <;> split
    all_goals first | rfl | skip
    · intro c hc r hr
      simpa using hr
    · exact fun _ _ _ hr => hr
    · exact fun u hu => hu
    · exact fun u hu => hu
  | deliver => simp [Ctimer.foreign] at hf

end

end Timely

/-! ### Ctimers -/

/-- The invariant: what is listed is not stopped, the etimers are timely, and every callback so far
    ran when it might. -/
structure Inv (sys : System N P) (s : State N P F) : Prop where
  timely : Timely sys s.initialized s.et s.dueBy
  nodup : s.ctimerList.Nodup
  listed : ∀ c ∈ s.ctimerList, sys.isCtimer c = true ∧ s.stopped c = false
  fired : ∀ x ∈ s.firings, x.stopped = false ∧ x.dueBy ≤ x.time

section Steps

variable {sys : System N P} {s : State N P F} {c : Fin N}

theorem listAdd_nodup {l : List (Fin N)} (h : l.Nodup) (c : Fin N) : (listAdd l c).Nodup := by
  rw [listAdd, nodup_append]
  refine ⟨h.erase c, by simp, ?_⟩
  intro a ha b hb hab
  rw [mem_singleton] at hb
  subst hab hb
  exact (h.mem_erase_iff.mp ha).1 rfl

theorem listAdd_listed (h : ∀ c ∈ s.ctimerList, sys.isCtimer c = true ∧ s.stopped c = false) (hc : sys.isCtimer c =
    true) : ∀ d ∈ listAdd s.ctimerList c, sys.isCtimer d = true ∧ update s.stopped c false d = false := by
  intro d hd
  by_cases hdc : d = c
  · subst hdc; exact ⟨hc, update_self ..⟩
  · rw [update_of_ne hdc]
    rcases mem_append.mp hd with hd | hd
    · exact h d (mem_of_mem_erase hd)
    · exact absurd (mem_singleton.mp hd) hdc

theorem Timely.armAll {dueBy : Fin N → Nat} : ∀ {l : List (Fin N)} {et : Etimer.State N P},
    Timely sys true et dueBy → (∀ c ∈ l, sys.isCtimer c = true) → Timely sys true (armAll sys et l) dueBy
  | [], _, h, _ => h
  | c :: l, et, h, hl => by
    have hsmall := h.small c (hl c (mem_cons_self ..))
    have hmod : et.interval c % 2 ^ sys.platform.width = et.interval c := Nat.mod_eq_of_lt hsmall
    rw [Ctimer.armAll, foldl_cons]
    refine Timely.armAll (l := l) ?_ fun d hd => hl d (mem_cons_of_mem _ hd)
    refine h.arm (by simp) _ (fun _ _ => rfl) (fun _ => rfl) fun hc => ?_
    have hreach := h.reach c hc
    simp only [rearm, hmod]
    refine ⟨hsmall, hreach, fun hlt => ⟨h.unqueued c hc hlt, by omega, by exact_mod_cast hreach⟩⟩

section
variable (h : Inv sys s)
include h

theorem Inv.set (hc : sys.isCtimer c = true) (hnone : ∀ r, Queued.timer r c ∉ s.et.queue) (t : Nat) (f
    : Option F) (p : Option P) : Inv sys (ctimerSet sys s c t f p) := by
  refine ⟨?_, listAdd_nodup h.nodup c, listAdd_listed h.listed hc, h.fired⟩
  have hlt : t % 2 ^ sys.platform.width < 2 ^ sys.platform.width := Nat.mod_lt _ (Nat.two_pow_pos _)
  unfold ctimerSet
  dsimp only
  cases hini : s.initialized with
  | true =>
    have ht := h.timely
    rw [hini] at ht
    refine ht.arm (by simp) _ (fun u hu => update_of_ne hu _ _) (fun _ => rfl) fun _ => ?_
    simp only [rearm, Nat.mod_mod, update_self]
    exact ⟨hlt, le_refl _, fun _ => ⟨hnone, by omega, by push_cast; exact le_refl _⟩⟩
  | false =>
    have ht := h.timely
    obtain ⟨l, hl⟩ := ht.good
    have hidle := ht.idle hini
    rw [if_neg Bool.false_ne_true]
    refine ⟨⟨l, hl.linked, hl.owned, hl.fresh, hl.waits, hl.once, hl.kept, ?_⟩, ?_, ?_, ?_, ?_, ?_⟩
    · intro u
      by_cases huc : u = c
      · subst huc
        simp only [update_self]
        rw [Int.add_emod, Int.sub_emod, hl.sync u, ← Int.sub_emod, ← Int.add_emod]
        congr 1
        ring
      · simp only [update_of_ne huc]
        exact hl.sync u
    · intro u hu
      by_cases huc : u = c
      · subst huc; simp only [update_self]; exact hlt
      · simp only [update_of_ne huc]; exact ht.small u hu
    · intro u hu
      by_cases huc : u = c
      · subst huc; simp only [update_self]; exact le_refl _
      · simp only [update_of_ne huc]; exact ht.reach u hu
    · intro u hu
      by_cases huc : u = c
      · subst huc; exact fun _ => hnone
      · simp only [update_of_ne huc]; exact ht.unqueued u hu
    · intro u hu _ hmem
      exact absurd hmem (hidle u hu)
    · exact fun _ u hu hmem => hidle u hu hmem

theorem Inv.again (hc : sys.isCtimer c = true) (a : Arming)
    (ha : a = .restart ∨ a = .reset ∧ s.dueBy c ≤ s.et.now) : Inv sys (ctimerAgain sys s c a) := by
  refine ⟨?_, listAdd_nodup h.nodup c, listAdd_listed h.listed hc, h.fired⟩
  have ht := h.timely
  unfold ctimerAgain
  dsimp only
  cases hini : s.initialized with
  | true =>
    rw [hini] at ht
    refine ht.arm (by simp) a (fun _ _ => rfl) (fun _ => rfl) fun _ => ?_
    have hsmall := ht.small c hc
    have hreach := ht.reach c hc
    rcases ha with rfl | ⟨rfl, hover⟩
    · simp only [rearm]
      exact ⟨hsmall, hreach, fun hlt => ⟨ht.unqueued c hc hlt, by omega, by exact_mod_cast hreach⟩⟩
    · exact ⟨hsmall, hreach, fun hlt => absurd hlt (by omega)⟩
  | false =>
    rw [hini] at ht
    exact ht

theorem Inv.stop (hc : sys.isCtimer c = true) : Inv sys (ctimerStop sys s c) := by
  have ht := h.timely
  obtain ⟨l, hl⟩ := ht.good
  refine ⟨?_, h.nodup.erase c, ?_, h.fired⟩
  · unfold ctimerStop
    cases hini : s.initialized with
    | true =>
      rw [hini] at ht
      rw [if_pos rfl]
      obtain ⟨l₂, hl₂, hmem, -⟩ := etimerStop_good hl c
      obtain ⟨hnow, hqueue, hdue, hinterval⟩ := @etimerStop_fields N P sys.platform s.et c
      refine ht.shrink ⟨l₂, hl₂⟩ hnow hinterval hdue (fun _ _ r hr => by rw [hqueue] at hr; exact hr) ?_
      intro u hu
      rw [Good.nodes_eq hl₂.linked] at hu
      rw [Good.nodes_eq hl.linked]
      exact ((hmem u).mp hu).1
    | false =>
      have hout : c ∉ l := by rw [← Good.nodes_eq hl.linked]; exact ht.idle hini c hc
      rw [hini] at ht
      rw [if_neg Bool.false_ne_true]
      have hlink := hl.linked.update_off hout none
      have hgood : Good sys.platform { s.et with
          next := update s.et.next c none
          p := update s.et.p c none
          waiting := update s.et.waiting c false } l := by
        refine hl.drop (t := c) hlink (fun u => ⟨fun hu => ⟨hu, fun he => hout (he ▸ hu)⟩, And.left⟩) ?_
          (hl.once c) ?_ ⟨rfl, rfl, rfl⟩
        · exact fun u hu => ⟨update_of_ne hu _ _, rfl, update_of_ne hu _ _⟩
        · intro hw
          simp at hw
      refine ht.shrink ⟨l, hgood⟩ rfl rfl rfl (fun _ _ _ hr => hr) ?_
      intro u hu
      rw [Good.nodes_eq hgood.linked] at hu
      rw [Good.nodes_eq hl.linked]
      exact hu
  · intro d hd
    have hne := (h.nodup.mem_erase_iff.mp hd).1
    refine ⟨(h.listed d (mem_of_mem_erase hd)).1, ?_⟩
    show update s.stopped c true d = false
    rw [update_of_ne hne]
    exact (h.listed d (mem_of_mem_erase hd)).2

/-- A delivery: the callback runs for a ctimer that is listed, and an event of it was queued. -/
theorem Inv.doEvent [DecidableEq P] : Inv sys (doEvent sys s) := by
  have hrest : ∀ (e : Queued N P) (rest : List (Queued N P)), s.et.queue = e :: rest →
      Inv sys { s with et := { s.et with queue := rest } } := by
    intro e rest hq
    obtain ⟨l, hl⟩ := h.timely.good
    refine ⟨?_, h.nodup, h.listed, h.fired⟩
    refine h.timely.shrink ⟨l, hl.linked, hl.owned, hl.fresh, hl.waits, hl.once, hl.kept, hl.sync⟩
      rfl rfl rfl (fun c _ r hr => ?_) fun _ hu => hu
    rw [hq]
    exact mem_cons_of_mem _ hr
  unfold Ctimer.doEvent
  cases hq : s.et.queue with
  | nil => exact h
  | cons e rest =>
    cases e with
    | other => exact hrest _ rest hq
    | timer r t =>
      have hnext := hrest _ rest hq
      dsimp only
      split
      · unfold ctimerEvent
        split
        next hmem =>
          refine ⟨hnext.timely, hnext.nodup.erase t, fun c hc => hnext.listed c (mem_of_mem_erase hc), ?_⟩
          split
          · exact hnext.fired
          · intro x hx
            rcases mem_cons.mp hx with rfl | hx
            · obtain ⟨hct, hstopped⟩ := h.listed t hmem.2
              refine ⟨hstopped, ?_⟩
              -- the event was in the queue, so the interval is over
              by_contra hearly
              exact h.timely.unqueued t hct (Nat.not_le.mp hearly) r (by rw [hq]; exact mem_cons_self ..)
            · exact hnext.fired x hx
        · exact hnext
      · exact hnext

/-- STEP: an allowed event keeps the invariant. -/
theorem Inv.step [DecidableEq P] {e : Event N P F} {s' : State N P F}
    (hok : Allowed s e) (hs : step sys s e = some s') : Inv sys s' := by
  cases e with
  | start =>
    rw [Ctimer.step] at hs
    split at hs
    · cases hs
    next hini =>
      cases hs
      have ht := h.timely
      have hrunning : Timely sys true s.et s.dueBy :=
        ⟨ht.good, ht.small, ht.reach, ht.unqueued, ht.pending, nofun⟩
      exact ⟨hrunning.armAll fun c hc => (h.listed c hc).1, h.nodup, h.listed, h.fired⟩
  | set c t f p =>
    rw [Ctimer.step] at hs
    split at hs
    next hc =>
      rw [some.injEq] at hs
      exact hs ▸ h.set hc hok t f p
    · cases hs
  | reset c =>
    rw [Ctimer.step] at hs
    split at hs
    next hc =>
      rw [some.injEq] at hs
      exact hs ▸ h.again hc .reset (.inr ⟨rfl, hok⟩)
    · cases hs
  | restart c =>
    rw [Ctimer.step] at hs
    split at hs
    next hc =>
      rw [some.injEq] at hs
      exact hs ▸ h.again hc .restart (.inl rfl)
    · cases hs
  | stop c =>
    rw [Ctimer.step] at hs
    split at hs
    next hc =>
      rw [some.injEq] at hs
      exact hs ▸ h.stop hc
    · cases hs
  | deliver =>
    rw [Ctimer.step, some.injEq] at hs
    exact hs ▸ h.doEvent
  | etimers e =>
    rw [Ctimer.step] at hs
    split at hs
    next hf =>
      obtain ⟨et', het, rfl⟩ := map_eq_some_iff.mp hs
      exact ⟨h.timely.foreign hf hok het, h.nodup, h.listed, h.fired⟩
    · cases hs

end

theorem Fresh.inv (h : Fresh sys s) : Inv sys s := by
  have hgood : Good sys.platform s.et [] := h.et.good
  refine ⟨⟨⟨[], hgood⟩, fun c _ => h.intervals c, ?_, ?_, ?_, ?_⟩, ?_, ?_, ?_⟩
  · intro c _; rw [h.dueBy c]; exact Nat.zero_le _
  · intro c _ hlt; rw [h.dueBy c] at hlt; exact absurd hlt (Nat.not_lt_zero _)
  · intro c _ hlt; rw [h.dueBy c] at hlt; exact absurd hlt (Nat.not_lt_zero _)
  · intro _ c _ hmem; rw [Good.nodes_eq hgood.linked] at hmem; cases hmem
  · rw [h.ctimerList]; exact nodup_nil
  · rw [h.ctimerList]; exact nofun
  · rw [h.firings]; exact nofun

end Steps

/-- CALLBACKS NEVER RUN WRONGLY: in every run that sets a ctimer only while no event for it is
    queued, and resets it only behind its interval, no callback runs for a stopped ctimer, or before
    the interval of the latest `ctimer_set` is over. -/
theorem ctimers_fire_rightly [DecidableEq P] (sys : System N P) {s₀ s : State N P F}
    {es : List (Event N P F)} (hfresh : Fresh sys s₀) (hrun : Run (step sys) Allowed s₀ es s) :
    ∀ x ∈ s.firings, x.stopped = false ∧ x.dueBy ≤ x.time := by
  have hinv : Inv sys s := by
    refine hrun.invariant (P := Inv sys) ?_ hfresh.inv
    intro s e t h hok hst
    exact h.step hok hst
  exact hinv.fired

/-- One ctimer, and a queue of four events. -/
def oneCtimer : System 1 Bool := ⟨⟨16, 4⟩, true, fun _ => true⟩

def boot : State 1 Bool Unit where
  et := ⟨0, fun _ => 0, fun _ => 0, fun _ => none, fun _ => none, none, 0, false, [], fun _ => 0,
    fun _ => 0, fun _ => false⟩
  p _ := none
  f _ := none
  ctimerList := []
  initialized := false
  stopped _ := false
  dueBy _ := 0
  firings := []

theorem boot_fresh : Fresh oneCtimer boot :=
  ⟨⟨rfl, rfl, fun _ => rfl, fun _ => rfl, fun _ => rfl⟩, fun _ => Nat.two_pow_pos _, rfl, rfl, fun _ => rfl, rfl⟩

/-- A periodic ctimer that fires once and is stopped while its next event is queued. -/
def periodic : List (Event 1 Bool Unit) :=
  [.set 0 10 (some ()) (some false), .start, .etimers (.tick 10), .etimers .poll, .deliver, .reset 0,
    .etimers (.tick 10), .etimers .poll, .stop 0, .deliver]

/-- Steps that are allowed for a simple reason. -/
def harmless (s : State 1 Bool Unit) : Event 1 Bool Unit → Bool
  | .set _ _ _ _ => decide (s.et.queue = [])
  | .reset c => decide (s.dueBy c ≤ s.et.now)
  | .etimers (.arm ..) => false
  | _ => true

theorem ctimers_fire_rightly_at_periodic : ∃ s, Run (step oneCtimer) Allowed boot periodic s ∧ s.firings = [⟨0, 10,
    false, 10⟩] ∧ ∀ x ∈ s.firings, x.stopped = false ∧ x.dueBy ≤ x.time := by
  have hcheck : ∀ (s : State 1 Bool Unit) (e : Event 1 Bool Unit), harmless s e = true → Allowed s e := by
    intro s e h
    cases e with
    | set c t f p =>
      intro r
      rw [(of_decide_eq_true h : s.et.queue = [])]
      exact not_mem_nil
    | reset c => exact (of_decide_eq_true h : s.dueBy c ≤ s.et.now)
    | etimers e =>
      cases e with
      | arm => cases h
      | _ => trivial
    | _ => trivial
  obtain ⟨s, hrun, hs⟩ : ∃ s, Run (step oneCtimer) Allowed boot periodic s ∧ _ :=
    exists_run _ (fun s : State 1 Bool Unit => decide (s.firings = [⟨0, 10, false, 10⟩])) hcheck (by decide)
  exact ⟨s, hrun, of_decide_eq_true hs, ctimers_fire_rightly oneCtimer boot_fresh hrun⟩

/-- A ctimer expires, and is set for a hundred ticks before the event is delivered: the callback runs at once. -/
theorem stale_event_fires_early :
    ∃ s,
      Run (step oneCtimer) (fun _ _ => True) boot
        [.start, .set 0 10 (some ()) (some false), .etimers (.tick 10), .etimers .poll, .set 0 100 (some ())
          (some false), .deliver] s ∧
      s.firings = [⟨0, 10, false, 110⟩] ∧
      ¬ ∀ x ∈ s.firings, x.stopped = false ∧ x.dueBy ≤ x.time := by
  obtain ⟨s, hrun, hs⟩ : ∃ s, Run (step oneCtimer) (fun _ _ => True) boot
      [.start, .set 0 10 (some ()) (some false), .etimers (.tick 10), .etimers .poll,
        .set 0 100 (some ()) (some false), .deliver] s ∧ _ :=
    exists_run (fun _ _ => true) (fun s : State 1 Bool Unit => decide (s.firings = [⟨0, 10, false, 110⟩]))
      (fun _ _ _ => trivial) (by decide)
  have hfirings : s.firings = [⟨0, 10, false, 110⟩] := of_decide_eq_true hs
  refine ⟨s, hrun, hfirings, fun hall => ?_⟩
  have hbad := hall ⟨0, 10, false, 110⟩ (by rw [hfirings]; exact mem_singleton.mpr rfl)
  exact absurd hbad.2 (by decide)

end CSync.Ctimer
