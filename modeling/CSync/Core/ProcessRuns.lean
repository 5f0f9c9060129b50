import CSync.Core.Process
import CSync.Lib.Count

/-! Events are delivered in the order of posting.

    The events that were taken and those in the buffer are the accepted posts, and the calls that were made and those
    that the loops have still to make are the ones that the taken events ask for. The buffer's part of this rests on the
    index of a post, which is cut down to eight bits before it is reduced. -/

namespace CSync.Kernel
open Lib List

variable {P D : Type} [DecidableEq P] {n : Nat}

section

omit [DecidableEq P]

/-- Who an event is for, with the list of processes at the time that it is taken. -/
def targets (t : EventData P D × List P) : List P := t.1.p.elim t.2 fun receiver => [receiver]

/-- The calls that the taken events ask for: one for its receiver, or one for every process. -/
def deliveries (taken : List (EventData P D × List P)) : List (EventData P D × P) :=
  taken.flatMap fun t => (targets t).map (t.1, ·)

/-- The calls that a frame has still to make for an event. -/
def Frame.todo : Frame P D → List (EventData P D × P)
  | .broadcast e rest => rest.map (e, ·)
  | .broadcastCall e p rest => (e, p) :: rest.map (e, ·)
  | _ => []

def todo (stack : List (Frame P D)) : List (EventData P D × P) := stack.flatMap Frame.todo

end

/-- INVARIANT: the buffer and the calls. -/
structure Inv (n : Nat) (s : State P D) : Prop where
  first : s.fevent.toNat < n
  count : s.nevents.toNat ≤ n
  queue : s.taken.map (·.1) ++ circular n s.events s.fevent.toNat s.nevents.toNat = s.accepted
  calls : s.calls ++ todo s.stack = deliveries s.taken
  nodup : s.processList.Nodup
  once : ∀ t ∈ s.taken, t.2.Nodup
  posts : ∀ r ∈ s.posts, (r.1 = false ↔ r.2 = n)

namespace Inv

variable {s : State P D}

omit [DecidableEq P] in
theorem pending_eq (h : Inv n s) : s.pending = s.nevents.toNat := by
  have hlen := congrArg length h.queue
  rw [length_append, length_map, length_circular] at hlen
  rw [State.pending]
  omega

variable {t : State P D}

omit [DecidableEq P] in
theorem frame (h : Inv n s) (hnevents : t.nevents = s.nevents) (hfevent : t.fevent = s.fevent)
    (hevents : t.events = s.events) (haccepted : t.accepted = s.accepted) (htaken : t.taken = s.taken)
    (hposts : t.posts = s.posts) (hnodup : t.processList.Nodup)
    (hcalls : t.calls ++ todo t.stack = s.calls ++ todo s.stack) : Inv n t := by
  refine ⟨?_, ?_, ?_, ?_, hnodup, ?_, ?_⟩
  · rw [hfevent]
    exact h.first
  · rw [hnevents]
    exact h.count
  · rw [hnevents, hfevent, hevents, haccepted, htaken]
    exact h.queue
  · rw [hcalls, htaken]
    exact h.calls
  · rw [htaken]
    exact h.once
  · rw [hposts]
    exact h.posts

theorem callProcess (h : Inv n s) (p : P) (ev : UInt8) : Inv n (s.callProcess p ev) := by
  rw [State.callProcess]
  split
  · exact h.frame rfl rfl rfl rfl rfl rfl h.nodup rfl
  · exact h

omit [DecidableEq P] in
/-- A post that is accepted goes behind the pending events, as long as the sum of the index and the count fits. -/
theorem push (h : Inv n s) (hroom : s.nevents.toNat ≠ n) (hfit : s.fevent.toNat + s.nevents.toNat < 256) (hn : n < 256)
    (e : EventData P D) : Inv n { s with
      events := Function.update s.events ((s.fevent + s.nevents).toNat % n) e
      nevents := s.nevents + 1
      accepted := s.accepted ++ [e] } := by
  have hlt : s.nevents.toNat < n := lt_of_le_of_ne h.count hroom
  have hmore : (s.nevents + 1).toNat = s.nevents.toNat + 1 := toNat_succ_uint8 (by omega)
  have hsum : (s.fevent + s.nevents).toNat = s.fevent.toNat + s.nevents.toNat := by
    rw [UInt8.toNat_add, Nat.mod_eq_of_lt hfit]
  refine ⟨h.first, ?_, ?_, h.calls, h.nodup, h.once, h.posts⟩
  · dsimp only
    omega
  · dsimp only
    rw [hmore, hsum, circular_push hlt, ← append_assoc, h.queue]

omit [DecidableEq P] in
/-- STEP: a post. -/
theorem post (h : Inv n s) (hn : n < 256) (hfit : 128 < n → s.pending < n → s.fevent.toNat + s.nevents.toNat < 256)
    (e : EventData P D) : Inv n { (s.processPost n e).2 with
      posts := (s.processPost n e).2.posts ++ [((s.processPost n e).1, s.pending)] } := by
  have hpending := h.pending_eq
  have hadd : ∀ {t : State P D} (b : Bool), Inv n t → (b = false ↔ s.pending = n) → Inv n { t with
      posts := t.posts ++ [(b, s.pending)] } := by
    intro t b ht hb
    refine ⟨ht.first, ht.count, ht.queue, ht.calls, ht.nodup, ht.once, fun r hr => ?_⟩
    rcases mem_append.mp hr with hold | hnew
    · exact ht.posts r hold
    · obtain rfl := mem_singleton.mp hnew
      exact hb
  rw [State.processPost]
  split
  next hfull => exact hadd _ h ⟨fun _ => hpending.trans hfull, fun _ => rfl⟩
  next hroom =>
    refine hadd _ (h.push hroom ?_ hn e) ⟨nofun, fun heq => absurd (hpending ▸ heq) hroom⟩
    have hlt : s.nevents.toNat < n := lt_of_le_of_ne h.count hroom
    have hfirst := h.first
    by_cases hlarge : 128 < n
    · exact hfit hlarge (hpending.symm ▸ hlt)
    · omega

omit [DecidableEq P] in
theorem deliveries_append (taken : List (EventData P D × List P)) (t : EventData P D × List P) :
    deliveries (taken ++ [t]) = deliveries taken ++ (targets t).map (t.1, ·) := by
  rw [deliveries, flatMap_append, flatMap_singleton, deliveries]

/-- STEP: the first event is taken. -/
theorem doEvent (h : Inv n s) (hn : n < 256) (hstack : s.stack = []) : Inv n (s.doEvent n) := by
  have hcalls := h.calls
  rw [hstack] at hcalls
  rw [State.doEvent]
  split
  next hsome =>
    have hpos : 0 < s.nevents.toNat := UInt8.lt_iff_toNat_lt.mp hsome
    have hless : (s.nevents - 1).toNat = s.nevents.toNat - 1 := toNat_pred_uint8 hpos
    have hmod : (UInt8.ofNat ((s.fevent.toNat + 1) % n)).toNat = (s.fevent.toNat + 1) % n := by
      have hlt := Nat.mod_lt (s.fevent.toNat + 1) (Nat.zero_lt_of_lt h.first)
      rw [UInt8.toNat_ofNat', Nat.mod_eq_of_lt (by omega)]
    have hcount := h.count
    have hqueue : s.taken.map (·.1) ++ (s.events s.fevent.toNat ::
        circular n s.events ((s.fevent.toNat + 1) % n) (s.nevents.toNat - 1)) = s.accepted := by
      rw [← circular_pop h.first, Nat.sub_add_cancel hpos]
      exact h.queue
    have htake : ∀ t : State P D, t.fevent = UInt8.ofNat ((s.fevent.toNat + 1) % n) → t.nevents = s.nevents - 1 →
        t.events = s.events → t.accepted = s.accepted →
        t.taken = s.taken ++ [(s.events s.fevent.toNat, s.processList)] → t.processList = s.processList →
        t.posts = s.posts → t.calls ++ todo t.stack = deliveries t.taken → Inv n t := by
      intro t hfevent hnevents hevents haccepted htaken hlist hposts ht
      refine ⟨?_, ?_, ?_, ht, ?_, ?_, ?_⟩
      · rw [hfevent, hmod]
        exact Nat.mod_lt _ (Nat.zero_lt_of_lt h.first)
      · rw [hnevents, hless]
        omega
      · rw [hfevent, hnevents, hevents, haccepted, htaken, hmod, hless, map_append, append_assoc]
        exact hqueue
      · rw [hlist]
        exact h.nodup
      · rw [htaken]
        exact forall_mem_append.mpr ⟨h.once, forall_mem_singleton.mpr h.nodup⟩
      · rw [hposts]
        exact h.posts
    dsimp only
    split
    next hnone =>
      refine htake _ rfl rfl rfl rfl rfl rfl rfl ?_
      rw [deliveries_append, ← hcalls, targets, hnone, todo, todo, flatMap_singleton, flatMap_nil, append_nil]
      rfl
    next receiver hreceiver =>
      have hone : s.calls ++ [(s.events s.fevent.toNat, receiver)] ++ todo s.stack =
          deliveries (s.taken ++ [(s.events s.fevent.toNat, s.processList)]) := by
        rw [deliveries_append, ← hcalls, targets, hreceiver, hstack, todo, flatMap_nil, append_nil, append_nil]
        rfl
      split
      · refine callProcess ?_ _ _
        exact htake _ rfl rfl rfl rfl rfl rfl rfl hone
      · refine callProcess ?_ _ _
        exact htake _ rfl rfl rfl rfl rfl rfl rfl hone
  · exact h

omit [DecidableEq P] in
theorem todo_cons (f : Frame P D) (stack : List (Frame P D)) : todo (f :: stack) = f.todo ++ todo stack :=
  flatMap_cons

/-- STEP: the loops go on. -/
theorem advance (h : Inv n s) (ht : s.advance = some t) : Inv n t := by
  rw [State.advance] at ht
  split at ht
  next e stack hstack =>
    cases ht
    refine h.frame rfl rfl rfl rfl rfl rfl h.nodup ?_
    rw [hstack, todo_cons]
    rfl
  next e p rest stack hstack =>
    split at ht
    · cases ht
      refine h.frame rfl rfl rfl rfl rfl rfl h.nodup ?_
      rw [hstack, todo_cons, todo_cons, todo_cons]
      rfl
    · cases ht
      refine h.frame rfl rfl rfl rfl rfl rfl h.nodup ?_
      rw [hstack, todo_cons, todo_cons]
      rfl
  next e p rest stack hstack =>
    cases ht
    refine callProcess ?_ _ _
    refine h.frame rfl rfl rfl rfl rfl rfl h.nodup ?_
    rw [hstack, todo_cons, todo_cons, append_assoc]
    rfl
  next stack hstack =>
    cases ht
    refine h.frame rfl rfl rfl rfl rfl rfl h.nodup ?_
    rw [hstack, todo_cons]
    rfl
  next p rest stack hstack =>
    have hnext : s.calls ++ todo (.poll rest :: stack) = s.calls ++ todo s.stack := by
      rw [hstack, todo_cons, todo_cons]
      rfl
    dsimp only at ht
    split at ht
    · cases ht
      refine callProcess ?_ _ _
      exact h.frame rfl rfl rfl rfl rfl rfl h.nodup hnext
    · cases ht
      exact h.frame rfl rfl rfl rfl rfl rfl h.nodup hnext
  next p stack hstack =>
    cases ht
    refine h.frame rfl rfl rfl rfl rfl rfl (h.nodup.erase p) ?_
    rw [hstack, todo_cons]
    rfl
  next p q rest stack hstack =>
    have hnext : s.calls ++ todo (.exited p rest :: stack) = s.calls ++ todo s.stack := by
      rw [hstack, todo_cons, todo_cons]
      rfl
    split at ht
    · cases ht
      refine callProcess ?_ _ _
      exact h.frame rfl rfl rfl rfl rfl rfl h.nodup hnext
    · cases ht
      exact h.frame rfl rfl rfl rfl rfl rfl h.nodup hnext
  · cases ht
  · cases ht

/-- STEP: the process that is being called returns. -/
theorem «return» (h : Inv n s) {ended : Bool} (ht : s.return ended = some t) : Inv n t := by
  rw [State.return] at ht
  split at ht
  next p ev stack hstack =>
    have hnext : s.calls ++ todo stack = s.calls ++ todo s.stack := by
      rw [hstack, todo_cons]
      rfl
    split at ht
    · split at ht
      · cases ht
        exact h.frame rfl rfl rfl rfl rfl rfl h.nodup hnext
      · split at ht
        · cases ht
          refine h.frame rfl rfl rfl rfl rfl rfl h.nodup ?_
          rw [← hnext, todo_cons]
          rfl
        · cases ht
          exact h.frame rfl rfl rfl rfl rfl rfl (h.nodup.erase p) hnext
    · cases ht
      exact h.frame rfl rfl rfl rfl rfl rfl h.nodup hnext
  · cases ht

end Inv

/-! ### Runs -/

/-- Above 128 slots: the sum of the index and the count fits in eight bits when a post is accepted. -/
def Meets (n : Nat) (s : State P D) : Event P D → Prop
  | .post _ => 128 < n → s.pending < n → s.fevent.toNat + s.nevents.toNat < 256
  | _ => True

theorem Inv.step {s t : State P D} {e : Event P D} (h : Inv n s) (hn : n < 256) (he : Meets n s e)
    (ht : Kernel.step n s e = some t) : Inv n t := by
  cases e with
  | post e =>
    cases ht
    exact h.post hn he e
  | poll p =>
    cases ht
    rw [State.processPoll]
    split
    · exact h.frame rfl rfl rfl rfl rfl rfl h.nodup rfl
    · exact h
  | doEvent =>
    rw [Kernel.step] at ht
    split at ht
    next hempty =>
      cases ht
      exact h.doEvent hn (isEmpty_iff.mp hempty)
    · cases ht
  | advance => exact h.advance ht
  | «return» ended => exact h.return ht

/-- Events are taken in the order of posting, each once; the calls made and those to be made are the ones that they ask
    for, a broadcast's one for each process; a post is rejected where the buffer is full, and then changes nothing. -/
structure InOrder (n : Nat) (s : State P D) : Prop where
  order : s.taken.map (·.1) <+: s.accepted
  pending : s.nevents.toNat = s.pending
  calls : s.calls ++ todo s.stack = deliveries s.taken
  once : ∀ t ∈ s.taken, (targets t).Nodup
  full : ∀ r ∈ s.posts, (r.1 = false ↔ r.2 = n)
  rejected : ∀ e, s.pending = n → s.processPost n e = (false, s)

omit [DecidableEq P] in
theorem Inv.inOrder {s : State P D} (h : Inv n s) : InOrder n s := by
  refine ⟨⟨_, h.queue⟩, h.pending_eq.symm, h.calls, fun t ht => ?_, h.posts, fun e hfull => ?_⟩
  · rw [targets]
    cases t.1.p with
    | none => exact h.once t ht
    | some receiver => exact pairwise_singleton _ receiver
  · rw [State.processPost, if_pos (h.pending_eq ▸ hfull)]

/-- Above 128 slots the index of a post may be cut off. In every run in which it is not, events are delivered
    in the order of posting. -/
theorem events_in_order (hpos : 0 < n) (hn : n < 256) {events : Nat → EventData P D} {processList : List P}
    (hnodup : processList.Nodup) {state : P → ProcessState} {thread : P → Bool} {es : List (Event P D)} {s : State P D}
    (hrun : Run (step n) (Meets n) (init events processList state thread) es s) : InOrder n s := by
  have hinit : Inv n (init events processList state thread) := by
    refine ⟨hpos, Nat.zero_le _, rfl, rfl, hnodup, nofun, nofun⟩
  have hinv := hrun.invariant (fun s e t hs he ht => hs.step hn he ht) hinit
  exact hinv.inOrder

/-- A kernel with one process, which runs. -/
def oneProcess : State Unit Nat := init (fun _ => ⟨0, 0, none⟩) [()] (fun _ => .running) (fun _ => true)

/-- A broadcast is posted and delivered, and the process posts while it is called. -/
theorem events_in_order_broadcast : ∃ s : State Unit Nat, s.calls = [(⟨0x88, 1, none⟩, ())] ∧ InOrder 8 s := by
  have hmeets : ∀ (s : State Unit Nat) (e : Event Unit Nat), true = true → Meets 8 s e := by
    rintro s e -
    cases e with
    | post e => exact nofun
    | _ => trivial
  have hexists : ∃ s, Run (step 8) (Meets 8) oneProcess
      [.post ⟨0x88, 1, none⟩, .doEvent, .advance, .advance, .post ⟨0x88, 2, some ()⟩, .return false, .advance] s ∧
        (s.calls == [(⟨0x88, 1, none⟩, ())]) = true :=
    exists_run (fun _ _ => true) (fun s => s.calls == [(⟨0x88, 1, none⟩, ())]) hmeets (by decide)
  obtain ⟨s, hrun, hs⟩ := hexists
  exact ⟨s, beq_iff_eq.mp hs, events_in_order (by decide) (by decide) (by decide) hrun⟩

/-- 128 events are posted and delivered one by one; then, with 128 pending, a post goes to the slot of the second. -/
def lateRun : List (Event Unit Nat) :=
  (range 128).flatMap (fun i => [.post ⟨0x88, i, some ()⟩, .doEvent, .return false]) ++
    (range 129).map (fun i => .post ⟨0x88, 128 + i, some ()⟩) ++ [.doEvent, .return false, .doEvent]

/-- With 129 slots an event is lost, and the post that took its slot is delivered in its place. -/
theorem post_overwrites : ∃ s : State Unit Nat, Run (step 129) (fun _ _ => True) oneProcess lateRun s ∧
    ¬ InOrder 129 s := by
  have hexists : ∃ s, Run (step 129) (fun _ _ => True) oneProcess lateRun s ∧
      (!(s.taken.map (·.1)).isPrefixOf s.accepted) = true :=
    exists_run (fun _ _ => true) (fun s : State Unit Nat => !(s.taken.map (·.1)).isPrefixOf s.accepted) (fun _ _ _ => trivial)
      (by decide +kernel)
  obtain ⟨s, hrun, hs⟩ := hexists
  refine ⟨s, hrun, fun h => ?_⟩
  have horder := isPrefixOf_iff_prefix.mpr h.order
  rw [horder] at hs
  cases hs

end CSync.Kernel
