import CSync.Lib.Circular
import CSync.Lib.Run

/-! The event queue of the kernel (`core/sys/process.c`).

    `process_post` puts an event into a circular buffer and `do_event` takes the first one and calls its receiver, or,
    for a broadcast, every process on the list. What `do_event` has still to do is a stack of frames, so that a process
    that is being called may post, and the processes that are told of another's end may post or end themselves. -/

namespace CSync.Kernel
open Lib Function

variable {P D : Type} [DecidableEq P]

/-- `PROCESS_EVENT_INIT`, `PROCESS_EVENT_POLL`, `PROCESS_EVENT_EXIT` and `PROCESS_EVENT_EXITED`. -/
def eventInit : UInt8 := 0x81
def eventPoll : UInt8 := 0x82
def eventExit : UInt8 := 0x83
def eventExited : UInt8 := 0x87

/-- `struct event_data`; without a process it is a broadcast. -/
structure EventData (P D : Type) where
  ev : UInt8
  data : D
  p : Option P
  deriving DecidableEq

inductive ProcessState where | none | running | called
  deriving DecidableEq

/-- What is still to be done. The walks go over the list as it is when they begin: a process that is unlinked keeps its
    own `next`, and one that is unlinked ahead of a walk does not run, so `call_process` passes over it. -/
inductive Frame (P D : Type) where
  /-- The broadcast loop of `do_event`, before its next process. -/
  | broadcast (e : EventData P D) (rest : List P)
  /-- The same, behind `do_poll`. -/
  | broadcastCall (e : EventData P D) (p : P) (rest : List P)
  /-- The loop of `do_poll`. -/
  | poll (rest : List P)
  /-- The thread of a process runs. -/
  | thread (p : P) (ev : UInt8)
  /-- `exit_process` tells the other processes. -/
  | exited (p : P) (rest : List P)

/-- The kernel. What the calls return and do is kept: the accepted posts, the events that `do_event` took, with the list
    of processes at the time, its calls of `call_process`, and for each post whether it was accepted and how many events
    were pending. -/
structure State (P D : Type) where
  nevents : UInt8
  fevent : UInt8
  events : Nat → EventData P D
  processList : List P
  state : P → ProcessState
  thread : P → Bool
  needspoll : P → Bool
  pollRequested : Bool
  stack : List (Frame P D)
  accepted : List (EventData P D)
  taken : List (EventData P D × List P)
  calls : List (EventData P D × P)
  posts : List (Bool × Nat)

/-- The number of pending events. -/
def State.pending (s : State P D) : Nat := s.accepted.length - s.taken.length

def State.callProcess (s : State P D) (p : P) (ev : UInt8) : State P D :=
  if s.state p = .running ∧ s.thread p then
    { s with state := update s.state p .called, stack := .thread p ev :: s.stack }
  else s

/-- `process_post` with `n` for `PROCESS_CONF_NUMEVENTS`: `false` is `PROCESS_ERR_FULL`. -/
def State.processPost (s : State P D) (n : Nat) (e : EventData P D) : Bool × State P D :=
  if s.nevents.toNat = n then (false, s)
  else
    -- the sum is cut down to eight bits before it is reduced
    let snum := (s.fevent + s.nevents).toNat % n
    (true, { s with
      events := update s.events snum e
      nevents := s.nevents + 1
      accepted := s.accepted ++ [e] })

/-- `do_event`, up to its first call. -/
def State.doEvent (s : State P D) (n : Nat) : State P D :=
  if 0 < s.nevents then
    let e := s.events s.fevent.toNat
    let s := { s with
      fevent := UInt8.ofNat ((s.fevent.toNat + 1) % n)
      nevents := s.nevents - 1
      taken := s.taken ++ [(e, s.processList)] }
    match e.p with
    | none => { s with stack := [.broadcast e s.processList] }
    | some receiver =>
        let s := if e.ev = eventInit then { s with state := update s.state receiver .running } else s
        { s with calls := s.calls ++ [(e, receiver)] }.callProcess receiver e.ev
  else s

/-- The loops go on. A process that is taken off the list ahead of the polls is polled here, which the code does not do;
    there are only more runs. -/
def State.advance (s : State P D) : Option (State P D) :=
  match s.stack with
  | .broadcast _ [] :: stack => some { s with stack := stack }
  | .broadcast e (p :: rest) :: stack =>
      if s.pollRequested then
        some { s with pollRequested := false, stack := .poll s.processList :: .broadcastCall e p rest :: stack }
      else some { s with stack := .broadcastCall e p rest :: stack }
  | .broadcastCall e p rest :: stack =>
      some ({ s with stack := .broadcast e rest :: stack, calls := s.calls ++ [(e, p)] }.callProcess p e.ev)
  | .poll [] :: stack => some { s with stack := stack }
  | .poll (p :: rest) :: stack =>
      let s := { s with stack := .poll rest :: stack }
      if s.needspoll p then
        some ({ s with
          state := update s.state p .running
          needspoll := update s.needspoll p false }.callProcess p eventPoll)
      else some s
  | .exited p [] :: stack => some { s with stack := stack, processList := s.processList.erase p }
  | .exited p (q :: rest) :: stack =>
      let s := { s with stack := .exited p rest :: stack }
      if p ≠ q then some (s.callProcess q eventExited) else some s
  | .thread _ _ :: _ => none
  | [] => none

/-- The thread returns, with `PT_EXITED` or `PT_ENDED` if it has ended; then `exit_process` is called. -/
def State.return (s : State P D) (ended : Bool) : Option (State P D) :=
  match s.stack with
  | .thread p ev :: stack =>
      if ended ∨ ev = eventExit then
        if p ∉ s.processList then some { s with stack := stack }
        else if s.state p ≠ .none then
          some { s with state := update s.state p .none, stack := .exited p s.processList :: stack }
        else some { s with stack := stack, processList := s.processList.erase p }
      else some { s with state := update s.state p .running, stack := stack }
  | _ => none

def State.processPoll (s : State P D) (p : P) : State P D :=
  if s.state p = .running ∨ s.state p = .called then
    { s with needspoll := update s.needspoll p true, pollRequested := true }
  else s

/-- A post or a poll request, by the process that is being called or from outside; `do_event`, when nothing is left to do;
    the next step of its loops; the return of the process that is being called. -/
inductive Event (P D : Type) where
  | post (e : EventData P D)
  | poll (p : P)
  | doEvent
  | advance
  | return (ended : Bool)

def step (n : Nat) (s : State P D) : Event P D → Option (State P D)
  | .post e =>
      let r := s.processPost n e
      some { r.2 with posts := r.2.posts ++ [(r.1, s.pending)] }
  | .poll p => some (s.processPoll p)
  | .doEvent => if s.stack.isEmpty then some (s.doEvent n) else none
  | .advance => s.advance
  | .return ended => s.return ended

/-- Behind `process_init`, with the given processes, and whatever the slots hold. -/
def init (events : Nat → EventData P D) (processList : List P) (state : P → ProcessState) (thread : P → Bool) :
    State P D where
  nevents := 0
  fevent := 0
  events := events
  processList := processList
  state := state
  thread := thread
  needspoll _ := false
  pollRequested := false
  stack := []
  accepted := []
  taken := []
  calls := []
  posts := []

end CSync.Kernel
