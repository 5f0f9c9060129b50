import CSync.Tsch.Model

/-! What becomes of queued packets.

    The log of a run is read off in lists: the packets queued to a neighbor, those that left its queue, the
    callbacks and the frees. At any time the queue of a neighbor is what was queued and has not left, the ring
    of dequeued packets is what has left and was not called back, and packets are freed in the order of their
    callbacks (`Inv`). Here this is shown of queueing. -/

namespace CSync.Tsch
open Lib List

variable {A : Type} [DecidableEq A]

/-! ### Reading the log -/

def queuedTo (a : A) (log : List (Entry A)) : List Nat := log.filterMap fun
  | .queued b id => if b = a then some id else none
  | _ => none

def queuedIds (log : List (Entry A)) : List Nat := log.filterMap fun
  | .queued _ id => some id
  | _ => none

def leftFrom (a : A) (log : List (Entry A)) : List Nat := log.filterMap fun
  | .left b id => if b = a then some id else none
  | _ => none

def leftIds (log : List (Entry A)) : List Nat := log.filterMap fun
  | .left _ id => some id
  | _ => none

def sentIds (log : List (Entry A)) : List Nat := log.filterMap fun
  | .sent id _ _ => some id
  | _ => none

def freedIds (log : List (Entry A)) : List Nat := log.filterMap fun
  | .freed id => some id
  | _ => none

/-- The slots of a packet. -/
def attemptsOf (id : Nat) (log : List (Entry A)) : List Attempt := log.filterMap fun
  | .attempt j a => if j = id then some a else none
  | _ => none

/-- If the packet is for a real neighbor, its last slot prepared it, transmitted it and read an ACK. -/
def LastAcked (c : Config A) (log : List (Entry A)) (id : Nat) : Prop :=
  ∀ a, .queued a id ∈ log → ¬c.Virtual a → (attemptsOf id log).getLast? = some ⟨true, true, true⟩

variable {log : List (Entry A)} {id : Nat}

omit [DecidableEq A] in
theorem mem_queuedIds : id ∈ queuedIds log ↔ ∃ a, .queued a id ∈ log := by
  rw [queuedIds, mem_filterMap]
  constructor
  · rintro ⟨e, he, hid⟩
    cases e <;> cases hid
    exact ⟨_, he⟩
  · rintro ⟨a, ha⟩
    exact ⟨_, ha, rfl⟩

theorem mem_queuedTo {a : A} (h : id ∈ queuedTo a log) : .queued a id ∈ log := by
  obtain ⟨e, he, hid⟩ := mem_filterMap.mp h
  cases e with
  | queued b j =>
    dsimp only at hid
    split at hid
    next hb =>
      cases hid
      rw [← hb]
      exact he
    · cases hid
  | _ => cases hid

omit [DecidableEq A] in
theorem queued_addr_unique (hnodup : (queuedIds log).Nodup) {a b : A}
    (ha : .queued a id ∈ log) (hb : .queued b id ∈ log) : a = b := by
  induction log with
  | nil => cases ha
  | cons e log ih =>
    have hcons : queuedIds (e :: log) = queuedIds [e] ++ queuedIds log := filterMap_append (l := [e])
    rw [hcons, nodup_append] at hnodup
    rcases mem_cons.mp ha with rfl | ha'
    · rcases mem_cons.mp hb with heq | hb'
      · cases heq
        rfl
      · exact absurd rfl (hnodup.2.2 id (mem_singleton.mpr rfl) id (mem_queuedIds.mpr ⟨b, hb'⟩))
    · rcases mem_cons.mp hb with rfl | hb'
      · exact absurd rfl (hnodup.2.2 id (mem_singleton.mpr rfl) id (mem_queuedIds.mpr ⟨a, ha'⟩))
      · exact ih hnodup.2.1 ha' hb'

omit [DecidableEq A] in
theorem mem_sentIds {status : MacTx} {transmissions : UInt8}
    (h : .sent id status transmissions ∈ log) : id ∈ sentIds log := mem_filterMap.mpr ⟨_, h, rfl⟩

section
variable {c : Config A}

/-! ### Views of a state -/

/-- What matters of a neighbor: its address, whether it is virtual, and its queue. -/
def Neighbor.view (n : Neighbor c) : A × Bool × List (Fin c.queuebufNum) :=
  (n.addr, n.isBroadcast, n.txRingbuf.toList)

def views (s : State c) : List (A × Bool × List (Fin c.queuebufNum)) := s.neighborList.map Neighbor.view

/-- All queued packets. -/
def ptrs (v : List (A × Bool × List (Fin c.queuebufNum))) : List (Fin c.queuebufNum) :=
  v.flatMap fun q => q.2.2

/-- The packets queued to an address. -/
def queueAt (v : List (A × Bool × List (Fin c.queuebufNum))) (a : A) : List (Fin c.queuebufNum) :=
  v.flatMap fun q => if q.1 = a then q.2.2 else []

/-- The dequeued packets that are not freed. -/
def waiting (s : State c) : List (Fin c.queuebufNum) :=
  match s.pending with
  | .idle | .called => s.dequeued.toList
  | .freed | .pruned => s.dequeued.toList.tail

/-- The dequeued packets that were not called back. -/
def uncalled (s : State c) : List (Fin c.queuebufNum) :=
  match s.pending with
  | .idle => s.dequeued.toList
  | _ => s.dequeued.toList.tail

/-- The packet that was called back and is not freed. -/
def calling (s : State c) : List (Fin c.queuebufNum) :=
  match s.pending with
  | .called => s.dequeued.toList.take 1
  | _ => []

def ids (mem : Fin c.queuebufNum → Packet) (l : List (Fin c.queuebufNum)) : List Nat :=
  l.map fun p => (mem p).id

/-- A slot of the packet at the head of a queue, with a place for it in the ring. -/
structure SlotOk (s : State c) (slot : Slot c) : Prop where
  head : ∃ q, (slot.neighbor, slot.isBroadcast, slot.packet :: q) ∈ views s
  index : slot.dequeuedIndex = s.dequeued.put
  room : s.dequeued.elements ≠ c.dequeuedArraySize - 1

/-- The invariant. -/
structure Inv (s : State c) : Prop where
  addrs : ((views s).map Prod.fst).Nodup
  isBroadcast : ∀ v ∈ views s, v.2.1 = decide (c.Virtual v.1)
  owns : s.packetMemb.Owns (ptrs (views s) ++ waiting s)
  slot : ∀ slot, s.slot = some slot → SlotOk s slot
  busy : s.pending ≠ .idle → s.dequeued.toList ≠ []
  range : queuedIds s.log = range s.nextId
  fifo : ∀ a, queuedTo a s.log = leftFrom a s.log ++ ids s.packetMemb.mem (queueAt (views s) a)
  all : (leftIds s.log ++ ids s.packetMemb.mem (ptrs (views s))).Perm (List.range s.nextId)
  sent : leftIds s.log = sentIds s.log ++ ids s.packetMemb.mem (uncalled s)
  freed : sentIds s.log = freedIds s.log ++ ids s.packetMemb.mem (calling s)
  tries : ∀ p ∈ ptrs (views s),
    (attemptsOf (s.packetMemb.mem p).id s.log).length = (s.packetMemb.mem p).transmissions.toNat ∧
      (s.packetMemb.mem p).transmissions.toNat ≤ c.maxFrameRetries
  bound : ∀ id, (attemptsOf id s.log).length ≤ c.maxFrameRetries + 1
  fresh : ∀ id, s.nextId ≤ id → attemptsOf id s.log = []
  acked : ∀ p ∈ uncalled s, (s.packetMemb.mem p).ret = .ok →
    LastAcked c s.log (s.packetMemb.mem p).id
  ackedSent : ∀ id transmissions, .sent id .ok transmissions ∈ s.log → LastAcked c s.log id

/-! ### Changes of the neighbors -/

theorem view_updateNbr (a : A) (f : Neighbor c → Neighbor c) (l : List (Neighbor c)) :
    (updateNbr a f l).map Neighbor.view = l.map fun n => if n.addr = a then (f n).view else n.view := by
  rw [updateNbr, map_map]
  refine map_congr_left fun n _ => ?_
  simp only [Function.comp_apply]
  split <;> rfl

variable {a : A} {v v₁ v₂ : List (A × Bool × List (Fin c.queuebufNum))} {q : A × Bool × List (Fin c.queuebufNum)}
variable {p : Fin c.queuebufNum} {s : State c} {id : Nat}

/-- A change that keeps what matters. -/
theorem view_updateNbr_same {f : Neighbor c → Neighbor c} (hf : ∀ n, (f n).view = n.view)
    (l : List (Neighbor c)) : (updateNbr a f l).map Neighbor.view = l.map Neighbor.view := by
  rw [view_updateNbr]
  refine map_congr_left fun n _ => ?_
  rw [hf, ite_self]

theorem view_backoff (a : A) (l : List (Neighbor c)) :
    (queueUpdateAllBackoffWindows a l).map Neighbor.view = l.map Neighbor.view := by
  rw [queueUpdateAllBackoffWindows, map_map]
  refine map_congr_left fun n _ => ?_
  simp only [Function.comp_apply]
  split <;> rfl

theorem views_endSlot (link : Link A) (s : State c) : views (endSlot link s) = views s := by
  rw [views, endSlot]
  split
  · exact view_backoff _ _
  · rfl

omit [DecidableEq A] in
theorem view_updateNeighborState (link : Link A) (status : MacTx) (dequeue : Bool) (rand : Nat)
    (n : Neighbor c) : (updateNeighborState link status dequeue rand n).view =
      if dequeue then (n.addr, n.isBroadcast, n.txRingbuf.toList.tail) else n.view := by
  have hdrop : (if dequeue then { n with txRingbuf := n.txRingbuf.drop } else n).view =
      if dequeue then (n.addr, n.isBroadcast, n.txRingbuf.toList.tail) else n.view := by
    cases dequeue with
    | false => rfl
    | true =>
      rw [if_pos rfl, if_pos rfl, Neighbor.view]
      rw [Ring.toList_drop]
  rw [← hdrop, updateNeighborState]
  split_ifs <;> rfl

theorem view_updateNbr_at {l : List (Neighbor c)} (hnodup : ((l.map Neighbor.view).map Prod.fst).Nodup)
    {n : Neighbor c} (hn : n ∈ l) (f : Neighbor c → Neighbor c) :
    ∃ v₁ v₂,
      l.map Neighbor.view = v₁ ++ n.view :: v₂ ∧
      (updateNbr n.addr f l).map Neighbor.view = v₁ ++ (f n).view :: v₂ := by
  obtain ⟨l₁, l₂, rfl⟩ := append_of_mem hn
  refine ⟨l₁.map Neighbor.view, l₂.map Neighbor.view, by rw [map_append, map_cons], ?_⟩
  rw [map_append, map_cons, map_append, map_cons, nodup_append, nodup_cons] at hnodup
  obtain ⟨-, ⟨hn₂, -⟩, hn₁⟩ := hnodup
  have hsame : ∀ l : List (Neighbor c), n.addr ∉ (l.map Neighbor.view).map Prod.fst →
      (l.map fun m => if m.addr = n.addr then (f m).view else m.view) = l.map Neighbor.view := by
    intro l hl
    refine map_congr_left fun m hm => if_neg ?_
    intro heq
    exact hl (heq ▸ mem_map_of_mem (mem_map_of_mem hm))
  rw [view_updateNbr, map_append, map_cons, if_pos rfl, hsame l₁ fun h => hn₁ _ h _ mem_cons_self rfl, hsame l₂ hn₂]

omit [DecidableEq A] in
theorem ptrs_append (v w : List (A × Bool × List (Fin c.queuebufNum))) :
    ptrs (v ++ w) = ptrs v ++ ptrs w := flatMap_append

omit [DecidableEq A] in
theorem ptrs_cons (q : A × Bool × List (Fin c.queuebufNum))
    (v : List (A × Bool × List (Fin c.queuebufNum))) : ptrs (q :: v) = q.2.2 ++ ptrs v :=
  flatMap_cons

theorem queueAt_append (v w : List (A × Bool × List (Fin c.queuebufNum))) (a : A) :
    queueAt (v ++ w) a = queueAt v a ++ queueAt w a := flatMap_append

theorem queueAt_cons (q : A × Bool × List (Fin c.queuebufNum))
    (v : List (A × Bool × List (Fin c.queuebufNum))) (a : A) :
    queueAt (q :: v) a = (if q.1 = a then q.2.2 else []) ++ queueAt v a := flatMap_cons

theorem queueAt_eq_nil (h : a ∉ v.map Prod.fst) : queueAt v a = [] := by
  rw [queueAt, flatMap_eq_nil_iff]
  intro q hq
  rw [if_neg]
  intro heq
  exact h (heq ▸ mem_map_of_mem hq)

theorem queueAt_split (hnodup : ((v₁ ++ q :: v₂).map Prod.fst).Nodup) : queueAt (v₁ ++ q :: v₂) q.1 = q.2.2 := by
  rw [map_append, map_cons, nodup_append, nodup_cons] at hnodup
  obtain ⟨-, ⟨hq₂, -⟩, hq₁⟩ := hnodup
  rw [queueAt_append, queueAt_cons, if_pos rfl,
    queueAt_eq_nil fun h => hq₁ _ h _ mem_cons_self rfl, queueAt_eq_nil hq₂, nil_append,
    append_nil]

theorem queueAt_other (h : q.1 ≠ a) : queueAt (v₁ ++ q :: v₂) a = queueAt (v₁ ++ v₂) a := by
  rw [queueAt_append, queueAt_cons, if_neg h, nil_append, queueAt_append]

theorem mem_ptrs_of_queueAt (h : p ∈ queueAt v a) : p ∈ ptrs v := by
  rw [queueAt, mem_flatMap] at h
  obtain ⟨q, hq, hp⟩ := h
  split at hp
  · exact mem_flatMap.mpr ⟨q, hq, hp⟩
  · cases hp

omit [DecidableEq A] in
theorem ids_append (mem : Fin c.queuebufNum → Packet) (l l' : List (Fin c.queuebufNum)) :
    ids mem (l ++ l') = ids mem l ++ ids mem l' := map_append

omit [DecidableEq A] in
theorem ids_congr {mem mem' : Fin c.queuebufNum → Packet} {l : List (Fin c.queuebufNum)}
    (h : ∀ p ∈ l, (mem' p).id = (mem p).id) : ids mem' l = ids mem l := map_congr_left h

/-! ### Entries behind a log -/

section

omit [DecidableEq A]

theorem queuedIds_append (log log' : List (Entry A)) :
    queuedIds (log ++ log') = queuedIds log ++ queuedIds log' := filterMap_append

theorem leftIds_append (log log' : List (Entry A)) :
    leftIds (log ++ log') = leftIds log ++ leftIds log' := filterMap_append

theorem sentIds_append (log log' : List (Entry A)) :
    sentIds (log ++ log') = sentIds log ++ sentIds log' := filterMap_append

theorem freedIds_append (log log' : List (Entry A)) :
    freedIds (log ++ log') = freedIds log ++ freedIds log' := filterMap_append

end

theorem queuedTo_append (a : A) (log log' : List (Entry A)) :
    queuedTo a (log ++ log') = queuedTo a log ++ queuedTo a log' := filterMap_append

theorem leftFrom_append (a : A) (log log' : List (Entry A)) :
    leftFrom a (log ++ log') = leftFrom a log ++ leftFrom a log' := filterMap_append

omit [DecidableEq A] in
theorem attemptsOf_append (id : Nat) (log log' : List (Entry A)) :
    attemptsOf id (log ++ log') = attemptsOf id log ++ attemptsOf id log' := filterMap_append

omit [DecidableEq A] in
/-- Entries that neither queue nor try a packet do not matter to its last slot. -/
theorem LastAcked.append {log log' : List (Entry A)} (h : LastAcked c log id)
    (hqueued : ∀ a, .queued a id ∉ log') (hattempts : attemptsOf id log' = []) : LastAcked c (log ++ log') id := by
  intro a ha hv
  rw [attemptsOf_append, hattempts, append_nil]
  rcases mem_append.mp ha with ha | ha
  · exact h a ha hv
  · exact absurd ha (hqueued a)

/-- An entry that the process makes: a callback or a free. -/
def Entry.Late : Entry A → Prop
  | .sent .. => True
  | .freed _ => True
  | _ => False

omit [DecidableEq A] in
theorem read_late {β : Type} {f : Entry A → Option β} (hsent : ∀ id status transmissions,
    f (.sent id status transmissions) = none) (hfreed : ∀ id, f (.freed id) = none) {late : List (Entry A)}
    (hlate : ∀ e ∈ late, e.Late) (log : List (Entry A)) : (log ++ late).filterMap f = log.filterMap f := by
  have hnone : late.filterMap f = [] := by
    refine filterMap_eq_nil_iff.mpr fun e he => ?_
    cases e with
    | sent id status transmissions => exact hsent id status transmissions
    | freed id => exact hfreed id
    | _ => exact (hlate _ he).elim
  rw [filterMap_append, hnone, append_nil]

/-! ### Facts from the invariant -/

omit [DecidableEq A] in
theorem uncalled_sublist_waiting (s : State c) : ∀ p ∈ uncalled s, p ∈ waiting s := by
  intro p hp
  rw [uncalled] at hp
  rw [waiting]
  generalize s.pending = pending at hp ⊢
  cases pending with
  | idle => exact hp
  | called => exact mem_of_mem_tail hp
  | freed => exact hp
  | pruned => exact hp

omit [DecidableEq A] in
theorem calling_sublist_waiting (s : State c) : ∀ p ∈ calling s, p ∈ waiting s := by
  intro p hp
  rw [calling] at hp
  rw [waiting]
  generalize s.pending = pending at hp ⊢
  cases pending with
  | called => exact mem_of_mem_take hp
  | idle => cases hp
  | freed => cases hp
  | pruned => cases hp

section
variable (h : Inv s)
include h

theorem Inv.id_lt (hid : id ∈ leftIds s.log ++ ids s.packetMemb.mem (ptrs (views s))) : id < s.nextId :=
  mem_range.mp (h.all.mem_iff.mp hid)

theorem Inv.nodup_ids : (leftIds s.log ++ ids s.packetMemb.mem (ptrs (views s))).Nodup :=
  h.all.nodup_iff.mpr nodup_range

theorem Inv.sent_left (hid : id ∈ sentIds s.log) : id ∈ leftIds s.log := by
  rw [h.sent]
  exact mem_append_left _ hid

theorem Inv.uncalled_left (hp : p ∈ uncalled s) : (s.packetMemb.mem p).id ∈ leftIds s.log := by
  rw [h.sent]
  exact mem_append_right _ (mem_map_of_mem hp)

theorem Inv.left_ne_queued
    (hid : id ∈ leftIds s.log) (hp : p ∈ ptrs (views s)) : id ≠ (s.packetMemb.mem p).id :=
  (nodup_append.mp h.nodup_ids).2.2 id hid _ (mem_map_of_mem hp)

/-- The queues are the same, whatever neighbors with an empty one came or went. -/
structure SameQueues (s s' : State c) : Prop where
  packets : ptrs (views s') = ptrs (views s)
  queues : ∀ a, queueAt (views s') a = queueAt (views s) a
  addrs : ((views s').map Prod.fst).Nodup
  isBroadcast : ∀ v ∈ views s', v.2.1 = decide (c.Virtual v.1)

variable {s' : State c}

theorem Inv.sameQueues (hviews : views s' = views s) : SameQueues s s' where
  packets := by rw [hviews]
  queues _ := by rw [hviews]
  addrs := by rw [hviews]; exact h.addrs
  isBroadcast := by rw [hviews]; exact h.isBroadcast

/-- Another queue at the same neighbor. -/
theorem Inv.requeued {q q' : List (Fin c.queuebufNum)} {b : Bool} (hold : views s = v₁ ++ (a, b, q) :: v₂)
    (hnew : views s' = v₁ ++ (a, b, q') :: v₂) :
    ((views s').map Prod.fst).Nodup ∧ ∀ v ∈ views s', v.2.1 = decide (c.Virtual v.1) := by
  have haddrs := h.addrs
  have hbroadcast := h.isBroadcast
  rw [hold] at haddrs hbroadcast
  rw [hnew]
  refine ⟨by simpa using haddrs, fun v hv => ?_⟩
  rcases mem_append.mp hv with hv | hv
  · exact hbroadcast v (mem_append_left _ hv)
  · rcases mem_cons.mp hv with rfl | hv
    · exact hbroadcast (a, b, q) (mem_append_right _ mem_cons_self)
    · exact hbroadcast v (mem_append_right _ (mem_cons_of_mem _ hv))

/-- A step that leaves packets and queues as they are and moves the process, which tells of it in the log. -/
theorem Inv.served (late : List (Entry A)) (hlate : ∀ e ∈ late, e.Late) (hlog : s'.log = s.log ++ late)
    (hqueues : SameQueues s s') (hmem : s'.packetMemb.mem = s.packetMemb.mem) (hnext : s'.nextId = s.nextId)
    (howns : s'.packetMemb.Owns (ptrs (views s) ++ waiting s')) (hslot : ∀ slot, s'.slot = some slot → SlotOk s' slot)
    (hbusy : s'.pending ≠ .idle → s'.dequeued.toList ≠ []) (huncalled : ∀ p ∈ uncalled s', p ∈ uncalled s)
    (hsent : ids s.packetMemb.mem (uncalled s) = sentIds late ++ ids s.packetMemb.mem (uncalled s'))
    (hfreed : ids s.packetMemb.mem (calling s) ++ sentIds late = freedIds late ++ ids s.packetMemb.mem (calling s'))
    (hacked : ∀ id transmissions, .sent id .ok transmissions ∈ late → LastAcked c s.log id) : Inv s' := by
  have hleft : leftIds s'.log = leftIds s.log := by
    rw [hlog]
    exact read_late (fun _ _ _ => rfl) (fun _ => rfl) hlate _
  have hattempts : ∀ id, attemptsOf id s'.log = attemptsOf id s.log := fun id => by
    rw [hlog]
    exact read_late (fun _ _ _ => rfl) (fun _ => rfl) hlate _
  have hlast : ∀ id, LastAcked c s.log id → LastAcked c s'.log id := fun id hacked => by
    rw [hlog]
    refine hacked.append (fun a ha => hlate _ ha) ?_
    exact read_late (fun _ _ _ => rfl) (fun _ => rfl) hlate []
  exact
    { addrs := hqueues.addrs
      isBroadcast := hqueues.isBroadcast
      owns := by rw [hqueues.packets]; exact howns
      slot := hslot
      busy := hbusy
      range := by
        rw [hlog, hnext, ← h.range]
        exact read_late (fun _ _ _ => rfl) (fun _ => rfl) hlate _
      fifo := fun a => by
        rw [hlog, hmem, hqueues.queues]
        refine (read_late (fun _ _ _ => rfl) (fun _ => rfl) hlate _).trans ((h.fifo a).trans ?_)
        exact congrArg (· ++ _) (read_late (fun _ _ _ => rfl) (fun _ => rfl) hlate _).symm
      all := by rw [hleft, hmem, hqueues.packets, hnext]; exact h.all
      sent := by rw [hleft, hlog, hmem, sentIds_append, append_assoc, ← hsent]; exact h.sent
      freed := by rw [hlog, hmem, sentIds_append, freedIds_append, h.freed, append_assoc, append_assoc, hfreed]
      tries := by
        rw [hmem, hqueues.packets]
        intro p hp
        rw [hattempts]
        exact h.tries p hp
      bound := fun id => by rw [hattempts]; exact h.bound id
      fresh := fun id hid => by
        rw [hattempts]
        exact h.fresh id (hnext ▸ hid)
      acked := by
        rw [hmem]
        exact fun p hp hret => hlast _ (h.acked p (huncalled p hp) hret)
      ackedSent := by
        intro id transmissions hmem
        rw [hlog] at hmem
        rcases mem_append.mp hmem with hmem | hmem
        · exact hlast _ (h.ackedSent id transmissions hmem)
        · exact hlast _ (hacked id transmissions hmem) }

/-- A step that says nothing and calls nobody back. -/
theorem Inv.quiet (hlog : s'.log = s.log) (hqueues : SameQueues s s') (hmemb : s'.packetMemb = s.packetMemb)
    (hnext : s'.nextId = s.nextId) (hslot : ∀ slot, s'.slot = some slot → SlotOk s' slot)
    (hbusy : s'.pending ≠ .idle → s'.dequeued.toList ≠ []) (hwaiting : waiting s' = waiting s)
    (huncalled : uncalled s' = uncalled s) (hcalling : calling s' = calling s) : Inv s' := by
  refine h.served [] nofun (hlog.trans (append_nil _).symm) hqueues
    (congrArg Pool.mem hmemb) hnext ?_ hslot hbusy ?_ ?_ ?_ nofun
  · rw [hmemb, hwaiting]
    exact h.owns
  · rw [huncalled]
    exact fun _ => id
  · rw [huncalled]
    rfl
  · rw [hcalling]
    exact append_nil _

/-- A step that changes none of what the invariant speaks of but the slot. -/
theorem Inv.same (hmemb : s'.packetMemb.mem = s.packetMemb.mem)
    (hcount : s'.packetMemb.count = s.packetMemb.count) (hviews : views s' = views s)
    (hring : s'.dequeued = s.dequeued) (hpending : s'.pending = s.pending) (hnext : s'.nextId = s.nextId)
    (hlog : s'.log = s.log) (hslot : ∀ slot, s'.slot = some slot → SlotOk s slot) : Inv s' := by
  have hpool : s'.packetMemb = s.packetMemb := by
    rcases s' with ⟨⟨_, _⟩, _⟩
    rcases s with ⟨⟨_, _⟩, _⟩
    cases hmemb
    cases hcount
    rfl
  refine h.quiet hlog (h.sameQueues hviews) hpool hnext (fun slot hs => ?_) (by rw [hpending, hring]; exact h.busy)
    (by rw [waiting, waiting, hpending, hring]) (by rw [uncalled, uncalled, hpending, hring])
    (by rw [calling, calling, hpending, hring])
  obtain ⟨hhead, hindex, hroom⟩ := hslot slot hs
  exact ⟨by rw [hviews]; exact hhead, by rw [hring]; exact hindex, by rw [hring]; exact hroom⟩

end

/-! ### Queueing -/

theorem Inv.addNbr [Inhabited (Fin c.queuebufNum)] (h : Inv s)
    (hslot : s.slot = none) (ha : a ∉ (views s).map Prod.fst) :
    Inv { s with neighborList := s.neighborList ++ [newNbr a] } := by
  have hnew : (newNbr a : Neighbor c).view = (a, decide (c.Virtual a), []) := by
    rw [Neighbor.view, Ring.toList_eq_nil]
    · rfl
    · simp [newNbr, queueBackoffReset, emptyRing, Ring.elements]
  have hviews : views { s with neighborList := s.neighborList ++ [newNbr a] } =
      views s ++ [(a, decide (c.Virtual a), [])] := by
    rw [views, map_append, map_singleton, hnew]
    rfl
  have hptrs : ptrs (views s ++ [(a, decide (c.Virtual a), [])]) = ptrs (views s) := by
    rw [ptrs_append, ptrs_cons]
    exact append_nil _
  have hqueue : ∀ b, queueAt (views s ++ [(a, decide (c.Virtual a), [])]) b = queueAt (views s) b := by
    intro b
    rw [queueAt_append, queueAt_cons, ite_self]
    exact append_nil _
  refine h.quiet rfl ⟨by rw [hviews, hptrs], fun b => by rw [hviews, hqueue], ?_, ?_⟩ rfl rfl (fun slot hs => ?_) h.busy
    rfl rfl rfl
  · rw [hviews, map_append, nodup_append]
    refine ⟨h.addrs, nodup_singleton _, ?_⟩
    intro x hx y hy
    rw [mem_singleton.mp hy]
    rintro rfl
    exact ha hx
  · rw [hviews]
    intro v hv
    rcases mem_append.mp hv with hv | hv
    · exact h.isBroadcast v hv
    · rw [mem_singleton.mp hv]
  · rw [hslot] at hs
    cases hs

theorem Inv.push (h : Inv s) {n : Neighbor c} (hn : n ∈ s.neighborList)
    {i : Fin c.queueNumPerNeighbor} (hi : n.txRingbuf.peekPut = some i)
    (hp : s.packetMemb.freeBlock = some p) (seqno : UInt8) : Inv { s with
      packetMemb := (s.packetMemb.take p).modify p fun _ => ⟨s.nextId, seqno, 0, .deferred⟩
      neighborList := updateNbr n.addr
        (fun n => { n with txRingbuf := (n.txRingbuf.store i p).advance }) s.neighborList
      nextId := s.nextId + 1
      log := s.log ++ [.queued n.addr s.nextId] } := by
  obtain ⟨v₁, v₂, hviews, hviews'⟩ := view_updateNbr_at h.addrs hn
    fun n => { n with txRingbuf := (n.txRingbuf.store i p).advance }
  have hpush : ({ n with txRingbuf := (n.txRingbuf.store i p).advance } : Neighbor c).view =
      (n.addr, n.isBroadcast, n.txRingbuf.toList ++ [p]) := by
    rw [Ring.peekPut] at hi
    split at hi
    · cases hi
    next hroom =>
      cases hi
      rw [Neighbor.view]
      dsimp only
      rw [Ring.toList_put hroom]
  rw [hpush] at hviews'
  set s' : State c := { s with
    packetMemb := (s.packetMemb.take p).modify p fun _ => ⟨s.nextId, seqno, 0, .deferred⟩
    neighborList := updateNbr n.addr
      (fun n => { n with txRingbuf := (n.txRingbuf.store i p).advance }) s.neighborList
    nextId := s.nextId + 1
    log := s.log ++ [.queued n.addr s.nextId] } with hs'
  have hold : views s = v₁ ++ (n.addr, n.isBroadcast, n.txRingbuf.toList) :: v₂ := hviews
  have hnew : views s' = v₁ ++ (n.addr, n.isBroadcast, n.txRingbuf.toList ++ [p]) :: v₂ := hviews'
  obtain ⟨haddrs, hbroadcast⟩ := h.requeued hold hnew
  have hfree := h.owns.not_mem_of_free hp
  have hmem : ∀ x, x ≠ p → s'.packetMemb.mem x = s.packetMemb.mem x := fun x hx =>
    Function.update_of_ne hx _ _
  have hmemp : s'.packetMemb.mem p = ⟨s.nextId, seqno, 0, .deferred⟩ := Function.update_self _ _ _
  have hids : ∀ l : List (Fin c.queuebufNum), p ∉ l → ids s'.packetMemb.mem l = ids s.packetMemb.mem l :=
    fun l hl => ids_congr fun x hx => by rw [hmem x fun heq => hl (heq ▸ hx)]
  have hptrs : (ptrs (views s')).Perm (p :: ptrs (views s)) := by
    rw [hold, hnew, ptrs_append, ptrs_cons, ptrs_append, ptrs_cons]
    calc (ptrs v₁ ++ (n.txRingbuf.toList ++ [p] ++ ptrs v₂)).Perm
          (ptrs v₁ ++ (p :: (n.txRingbuf.toList ++ ptrs v₂))) := by
          rw [append_assoc]
          exact perm_middle.append_left _
      _ |>.Perm (p :: (ptrs v₁ ++ (n.txRingbuf.toList ++ ptrs v₂))) := perm_middle
  have hnotPtrs : p ∉ ptrs (views s) := fun hx => hfree (mem_append_left _ hx)
  have hnotWaiting : p ∉ waiting s := fun hx => hfree (mem_append_right _ hx)
  have hnotUncalled : p ∉ uncalled s := fun hx => hnotWaiting (uncalled_sublist_waiting s p hx)
  have hnotCalling : p ∉ calling s := fun hx => hnotWaiting (calling_sublist_waiting s p hx)
  have hleft : leftIds s'.log = leftIds s.log := (leftIds_append _ _).trans (append_nil _)
  have hleftFrom : ∀ a, leftFrom a s'.log = leftFrom a s.log := fun a =>
    (leftFrom_append a _ _).trans (append_nil _)
  have hsent : sentIds s'.log = sentIds s.log := (sentIds_append _ _).trans (append_nil _)
  have hfreed : freedIds s'.log = freedIds s.log := (freedIds_append _ _).trans (append_nil _)
  have hattempts : ∀ id, attemptsOf id s'.log = attemptsOf id s.log := fun id =>
    (attemptsOf_append id _ _).trans (append_nil _)
  have hold_lt : ∀ id, id ∈ leftIds s.log → id ≠ s.nextId := fun id hid =>
    ne_of_lt (h.id_lt (mem_append_left _ hid))
  have hlast : ∀ id, id ∈ leftIds s.log → LastAcked c s.log id → LastAcked c s'.log id := by
    intro id hid hacked
    refine hacked.append ?_ rfl
    intro a ha
    have heq := mem_singleton.mp ha
    cases heq
    exact hold_lt _ hid rfl
  exact
    { addrs := haddrs
      isBroadcast := hbroadcast
      owns := by
        have hperm : (ptrs (views s') ++ waiting s).Perm (p :: (ptrs (views s) ++ waiting s)) :=
          hptrs.append_right (waiting s)
        exact Pool.Owns.modify (l := ptrs (views s') ++ waiting s) (h.owns.take_insert hp hperm) p
          fun _ => ⟨s.nextId, seqno, 0, .deferred⟩
      slot := by
        intro slot hslot
        obtain ⟨⟨q, hq⟩, hindex, hroom⟩ := h.slot slot hslot
        refine ⟨?_, hindex, hroom⟩
        rw [hold] at hq
        rw [hnew]
        rcases mem_append.mp hq with hq | hq
        · exact ⟨q, mem_append_left _ hq⟩
        · rcases mem_cons.mp hq with heq | hq
          · obtain ⟨haddr, hbroadcast, hhead⟩ := Prod.ext_iff.mp heq |>.imp id Prod.ext_iff.mp
            refine ⟨q ++ [p], mem_append_right _ (mem_cons.mpr (.inl ?_))⟩
            exact Prod.ext haddr (Prod.ext hbroadcast (congrArg (· ++ [p]) hhead))
          · exact ⟨q, mem_append_right _ (mem_cons_of_mem _ hq)⟩
      busy := h.busy
      range := by
        rw [queuedIds_append, h.range, range_succ]
        rfl
      fifo := by
        intro a
        have haddrs := h.addrs
        have hqueued : queuedTo a s'.log = queuedTo a s.log ++ queuedTo a [.queued n.addr s.nextId] :=
          queuedTo_append a _ _
        rw [hold] at haddrs
        rw [hqueued, hleftFrom, h.fifo a, append_assoc]
        refine congrArg _ ?_
        by_cases ha : n.addr = a
        · subst ha
          have hnewQueue : queueAt (views s') n.addr = queueAt (views s) n.addr ++ [p] := by
            rw [hold, hnew, queueAt_split haddrs]
            refine queueAt_split (q := (n.addr, n.isBroadcast, n.txRingbuf.toList ++ [p])) ?_
            simpa using haddrs
          have hnotQueue : p ∉ queueAt (views s) n.addr := fun hx => hnotPtrs (mem_ptrs_of_queueAt hx)
          rw [hnewQueue, ids_append, hids _ hnotQueue]
          simp [queuedTo, ids, hmemp]
        · have hsame : queueAt (views s') a = queueAt (views s) a := by
            rw [hold, hnew, queueAt_other ha, queueAt_other ha]
          have hnotQueue : p ∉ queueAt (views s) a := fun hx => hnotPtrs (mem_ptrs_of_queueAt hx)
          rw [hsame, hids _ hnotQueue]
          simp [queuedTo, ha]
      all := by
        have hidsPerm : (ids s'.packetMemb.mem (ptrs (views s'))).Perm
            (s.nextId :: ids s.packetMemb.mem (ptrs (views s))) := by
          refine (hptrs.map _).trans ?_
          rw [map_cons, hmemp]
          exact .of_eq (congrArg _ (hids _ hnotPtrs))
        rw [hleft]
        calc (leftIds s.log ++ ids s'.packetMemb.mem (ptrs (views s'))).Perm
              (leftIds s.log ++ s.nextId :: ids s.packetMemb.mem (ptrs (views s))) :=
              hidsPerm.append_left _
          _ |>.Perm (s.nextId :: (leftIds s.log ++ ids s.packetMemb.mem (ptrs (views s)))) :=
              perm_middle
          _ |>.Perm (s.nextId :: List.range s.nextId) := h.all.cons _
          _ |>.Perm (List.range (s.nextId + 1)) := by
              rw [range_succ]
              exact (perm_append_singleton _ _).symm
      sent := by
        have huncalled : uncalled s' = uncalled s := rfl
        rw [hleft, hsent, huncalled, hids _ hnotUncalled]
        exact h.sent
      freed := by
        have hcalling : calling s' = calling s := rfl
        rw [hsent, hfreed, hcalling, hids _ hnotCalling]
        exact h.freed
      tries := by
        intro x hx
        rw [hattempts]
        rcases mem_cons.mp (hptrs.mem_iff.mp hx) with rfl | hx
        · rw [hmemp]
          exact ⟨by rw [h.fresh _ (Nat.le_refl _)]; rfl, Nat.zero_le _⟩
        · rw [hmem x fun heq => hnotPtrs (heq ▸ hx)]
          exact h.tries x hx
      bound := fun id => by rw [hattempts]; exact h.bound id
      fresh := fun id hid => by
        rw [hattempts]
        exact h.fresh id (Nat.le_of_succ_le hid)
      acked := by
        intro x hx hret
        have hne : x ≠ p := fun heq => hnotUncalled (heq ▸ hx)
        rw [hmem x hne] at hret ⊢
        exact hlast _ (h.uncalled_left hx) (h.acked x hx hret)
      ackedSent := by
        intro id transmissions hsent
        have hsent' : .sent id .ok transmissions ∈ s.log := by
          rcases mem_append.mp hsent with hsent | hsent
          · exact hsent
          · cases mem_singleton.mp hsent
        exact hlast _ (h.sent_left (mem_sentIds hsent')) (h.ackedSent id transmissions hsent') }

end

end CSync.Tsch
