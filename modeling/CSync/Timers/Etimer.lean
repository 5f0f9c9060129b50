import CSync.Lib.Linked
import CSync.Lib.Run
import Mathlib.Data.Fintype.Card
import Mathlib.Data.Int.ModEq

/-! Event timers (`core/sys/etimer.c`, `core/sys/timer.c`) and the event queue they post to.

    The etimers of a system are numbered; `timerlist` and the `next` fields link the pending ones by hand. The clock
    is a counter of `width` bits; `now` is the time it counts, without wrapping. `process_post` fails when the queue
    of `PROCESS_CONF_NUMEVENTS` events is full. `due`, `posts` and `waiting` are a history the code does not keep:
    when the timer expires, without wrapping, how often it was posted since it was armed, and whether it was armed and
    neither stopped nor dropped with its process since. -/

namespace CSync.Etimer

open Lib Function

/-- The width of `clock_time_t` and `PROCESS_CONF_NUMEVENTS`. -/
structure Platform where
  width : Nat
  numEvents : Nat

/-- An event in the queue: a `PROCESS_EVENT_TIMER` with its receiver and its etimer, or another. -/
inductive Queued (N : Nat) (P : Type) where
  | timer (receiver : Option P) (t : Fin N)
  | other
  deriving DecidableEq

/-- The etimers, the list of the pending ones and the event queue. -/
structure State (N : Nat) (P : Type) where
  now : Nat
  start : Fin N → Nat
  interval : Fin N → Nat
  next : Fin N → Option (Fin N)
  /-- The process to post to; `none` is `PROCESS_NONE`. -/
  p : Fin N → Option P
  timerlist : Option (Fin N)
  nextExpiration : Nat
  needspoll : Bool
  queue : List (Queued N P)
  due : Fin N → Int
  posts : Fin N → Nat
  waiting : Fin N → Bool

variable {N : Nat} {P : Type} [DecidableEq P] (c : Platform)

def clockTime (s : State N P) : Nat := s.now % 2 ^ c.width

def timerExpired (s : State N P) (t : Fin N) : Bool :=
  s.interval t < (clockTime c s + (2 ^ c.width - s.start t % 2 ^ c.width) + 1) % 2 ^ c.width

/-- The timers the pointers run through. No timer comes twice, so `N` steps reach the end. -/
def nodes (s : State N P) : List (Fin N) := walk s.next N s.timerlist

/-- `t->timer.start + t->timer.interval - now`. -/
def tdist (s : State N P) (t : Fin N) : Nat :=
  (s.start t + s.interval t + (2 ^ c.width - clockTime c s)) % 2 ^ c.width

def updateTime (s : State N P) : State N P :=
  match nodes s with
  | [] => { s with nextExpiration := 0 }
  | t :: rest =>
    let d := rest.foldl (fun d u => if tdist c s u < d then tdist c s u else d) (tdist c s t)
    { s with nextExpiration := (clockTime c s + d) % 2 ^ c.width }

def requestPoll (s : State N P) : State N P := { s with needspoll := true }

/-- `add_timer`; `cur` is `PROCESS_CURRENT()`. -/
def addTimer (s : State N P) (cur : Option P) (t : Fin N) : State N P :=
  let s := requestPoll s
  if s.p t ≠ none ∧ t ∈ nodes s then
    updateTime c { s with p := update s.p t cur }
  else
    updateTime c { s with
      p := update s.p t cur
      next := update s.next t s.timerlist
      timerlist := some t }

/-- The calls that arm a timer. -/
inductive Arming where
  | set (interval : Nat)
  | resetWithNewInterval (interval : Nat)
  | reset
  | restart
  deriving DecidableEq

/-- `timer_set`, `timer_reset`, `timer_restart`: the new `start` and `interval` of a timer, and when it is due. -/
def rearm (s : State N P) (t : Fin N) : Arming → Nat × Nat × Int
  | .set i => (clockTime c s, i % 2 ^ c.width, s.now + (i % 2 ^ c.width : Nat))
  | .resetWithNewInterval i =>
    ((s.start t + s.interval t) % 2 ^ c.width, i % 2 ^ c.width, s.due t + (i % 2 ^ c.width : Nat))
  | .reset => ((s.start t + s.interval t) % 2 ^ c.width, s.interval t, s.due t + s.interval t)
  | .restart => (clockTime c s, s.interval t, s.now + s.interval t)

/-- The timer with its new fields, not on the list yet. -/
def timerArm (s : State N P) (t : Fin N) (a : Arming) : State N P :=
  { s with
    start := update s.start t (rearm c s t a).1
    interval := update s.interval t (rearm c s t a).2.1
    due := update s.due t (rearm c s t a).2.2
    posts := update s.posts t 0
    waiting := update s.waiting t true }

/-- `etimer_set`, `etimer_reset_with_new_interval`, `etimer_reset`, `etimer_restart`. -/
def etimerArm (s : State N P) (cur : Option P) (t : Fin N) (a : Arming) : State N P :=
  addTimer c (timerArm c s t a) cur t

def etimerAdjust (s : State N P) (t : Fin N) (timediff : Int) : State N P :=
  updateTime c { s with
    start := update s.start t ((s.start t + timediff) % (2 ^ c.width : Nat)).toNat
    due := update s.due t (s.due t + timediff) }

def etimerStop (s : State N P) (t : Fin N) : State N P :=
  let s :=
    if s.timerlist = some t then updateTime c { s with timerlist := s.next t }
    else
      match (nodes s).find? fun u => s.next u == some t with
      | some u => updateTime c { s with next := update s.next u (s.next t) }
      | none => s
  { s with
    next := update s.next t none
    p := update s.p t none
    waiting := update s.waiting t false }

/-- `process_post` has room for an event. -/
def room (s : State N P) : Bool := s.queue.length < c.numEvents

/-- The scan of a poll over the timers from `u`'s successor on: whether a post failed, and the first
    timer that was posted with its predecessor. -/
def scan (s : State N P) : Option (Fin N) → List (Fin N) → Bool × Option (Option (Fin N) × Fin N)
  | _, [] => (false, none)
  | u, t :: rest =>
    if timerExpired c s t then
      if room c s then (false, some (u, t)) else (true, (scan s (some t) rest).2)
    else scan s (some t) rest

/-- Post an expired timer and take it off the list. -/
def postAndUnlink (s : State N P) (u : Option (Fin N)) (t : Fin N) : State N P :=
  let s := { s with
    queue := s.queue ++ [Queued.timer (s.p t) t]
    p := update s.p t none
    posts := update s.posts t (s.posts t + 1) }
  let s :=
    match u with
    | some u => { s with next := update s.next u (s.next t) }
    | none => { s with timerlist := s.next t }
  updateTime c { s with next := update s.next t none }

/-- The loop of a poll: every timer that was posted starts it again. -/
def pollLoop : Nat → State N P → State N P
  | 0, s => s
  | fuel + 1, s =>
    match scan c s none (nodes s) with
    | (_, some (u, t)) => pollLoop fuel (postAndUnlink c s u t)
    | (failed, none) => if failed then requestPoll s else s

/-- `etimer_process` with a `PROCESS_EVENT_POLL`. -/
def poll (s : State N P) : State N P := pollLoop c (N + 1) { s with needspoll := false }

/-- `etimer_process` with a `PROCESS_EVENT_EXITED` of the process `q`. -/
def exited (s : State N P) (q : P) : State N P :=
  let gone := fun t => decide (s.p t = some q)
  let waiting := fun t => s.waiting t && !gone t
  match dropHead s.next gone N s.timerlist with
  | none => { s with timerlist := none, waiting := waiting }
  | some t =>
    { s with timerlist := some t, next := skipGone gone N s.next t, waiting := waiting }

/-- What happens to the timers. -/
inductive Event (N : Nat) (P : Type) where
  | arm (cur : Option P) (t : Fin N) (a : Arming)
  | adjust (t : Fin N) (timediff : Int)
  | stop (t : Fin N)
  | poll
  | exited (q : P)
  | tick (d : Nat)
  | post
  | deliver
  deriving DecidableEq

def step (s : State N P) : Event N P → Option (State N P)
  | .arm cur t a => some (etimerArm c s cur t a)
  | .adjust t d => some (etimerAdjust c s t d)
  | .stop t => some (etimerStop c s t)
  | .poll => some (poll c s)
  | .exited q => some (exited s q)
  | .tick d => some { s with now := s.now + d }
  | .post => some (if room c s then { s with queue := s.queue ++ [Queued.other] } else s)
  | .deliver => some { s with queue := s.queue.tail }

/-- `etimer_process` has just started: no timer is pending, whatever the structures hold. -/
structure Fresh (s : State N P) : Prop where
  timerlist : s.timerlist = none
  nextExpiration : s.nextExpiration = 0
  posts : ∀ t, s.posts t = 0
  waiting : ∀ t, s.waiting t = false
  due : ∀ t, s.due t = s.start t + s.interval t

/-! ### Conditions on the calls -/

/-- A timer is armed from inside a process. -/
def InProcess : State N P → Event N P → Prop
  | _, .arm cur _ _ => cur ≠ none
  | _, _ => True

/-- The times lie in one turn of the clock from now on, or all in the last one. -/
def SameSide (now : Nat) (due : Fin N → Int) (l : List (Fin N)) : Prop :=
  (∀ t ∈ l, (now : Int) ≤ due t ∧ due t < now + (2 ^ c.width : Nat)) ∨
    ∀ t ∈ l, (now : Int) - (2 ^ c.width : Nat) ≤ due t ∧ due t < now

/-- The timers that stay when the first `k` expired ones go. -/
def leftOver (expired : Fin N → Bool) : Nat → List (Fin N) → List (Fin N)
  | _, [] => []
  | 0, t :: l => t :: l
  | k + 1, t :: l => if expired t then leftOver expired k l else t :: leftOver expired (k + 1) l

/-- The timers pending behind the call all lie on one side of now, so no expired timer is left among
    timers still to come; and no process exits with the only timer that expires first. -/
def OneSide (s : State N P) : Event N P → Prop
  | .arm cur t a =>
    cur ≠ none ∧ SameSide c s.now (update s.due t (rearm c s t a).2.2) (t :: nodes s)
  | .adjust t d => SameSide c s.now (update s.due t (s.due t + d)) (nodes s)
  | .stop t => t ∈ nodes s → SameSide c s.now s.due ((nodes s).erase t)
  | .poll =>
    let left := leftOver (timerExpired c s) (c.numEvents - s.queue.length) (nodes s)
    left = nodes s ∨ SameSide c s.now s.due left
  | .exited q =>
    (∀ t ∈ nodes s, s.p t ≠ some q) ∨
      ∃ t ∈ nodes s, s.p t ≠ some q ∧ ∀ u ∈ nodes s, s.due t ≤ s.due u
  | _ => True

/-- THE NEXT EXPIRATION is the earliest of the pending timers', `0` if there are none. -/
def Earliest (s : State N P) (l : List (Fin N)) : Prop :=
  (l = [] → s.nextExpiration = 0) ∧
    (l ≠ [] → ∃ t ∈ l, (∀ u ∈ l, s.due t ≤ s.due u) ∧
      (s.nextExpiration : Int) = s.due t % (2 ^ c.width : Nat))

end CSync.Etimer
