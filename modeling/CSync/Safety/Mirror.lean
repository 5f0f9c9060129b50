import Mathlib.Data.Bool.Count
import CSync.Node.Steps

/-! Mirrored slots over the iterations of the control loop.

    An iteration after the first begins by mirroring the slots of `CHs_list`, whatever became of the one before; it mirrors
    them again in `init_consensus_synchronization`, but only if the timer could be armed. So an iteration whose schedule
    fails mirrors once and not twice, and the later iterations find the slots the other way round. The own slot has no such
    history: it is saved in the first iteration and restored in each later one.

    `Iterates s os t` says that the loop begun in `s` is at the head of an iteration in `t`, the schedules of the iterations
    before it having ended as `os` says. Every run goes along it. -/

namespace CSync

open Lib List

variable {N : Nat}

/-! ### The mirror -/

def Chb.mirror (ch : Chb) : Chb := { ch with consSlot := numConsSlots + 1 - ch.consSlot }

theorem mirror_involutive : Function.Involutive Chb.mirror := by
  intro ch
  have hslot : numConsSlots + 1 - (numConsSlots + 1 - ch.consSlot) = ch.consSlot := by grind
  rw [Chb.mirror, Chb.mirror, hslot]

/-- A slot that is its own mirror: the middle one, or the same half a turn of the 8-bit number further. -/
theorem mirror_eq_self (ch : Chb) : ch.mirror = ch ↔ ch.consSlot = 3 ∨ ch.consSlot = 131 := by
  have hslot : ∀ x : UInt8, numConsSlots + 1 - x = x ↔ x = 3 ∨ x = 131 := by
    intro x
    have hsix : numConsSlots + 1 = 6 := rfl
    simp only [← UInt8.toNat_inj, UInt8.toNat_sub, hsix, UInt8.reduceToNat]
    omega
  rw [← hslot]
  constructor
  · intro h
    exact congrArg Chb.consSlot h
  · intro h
    rw [Chb.mirror, h]

/-- Every linked block is changed once. -/
theorem foldl_modify_mem (f : Chb → Chb) : ∀ (l : List (Fin N)) (p : Pool N Chb), l.Nodup → ∀ i,
    (l.foldl (fun p i => p.modify i f) p).mem i = if i ∈ l then f (p.mem i) else p.mem i
  | [], _, _, i => by simp
  | j :: l, p, hnd, i => by
    obtain ⟨hj, hnd⟩ := nodup_cons.mp hnd
    rw [foldl_cons, foldl_modify_mem f l _ hnd i]
    by_cases hij : i = j
    · subst hij
      simp [hj, Pool.modify]
    · simp [hij, Pool.modify]

theorem heads_mapChs {cl : Cluster} (hnd : cl.chs.Nodup) (f : Chb → Chb) : (mapChs f cl).heads = cl.heads.map f := by
  rw [Cluster.heads, Cluster.heads, map_map]
  refine map_congr_left fun i hi => ?_
  have hmem := foldl_modify_mem f cl.chs cl.chsMemb hnd i
  exact hmem.trans (if_pos hi)

theorem heads_mirrorSlots {cl : Cluster} (hnd : cl.chs.Nodup) : (mirrorSlots cl).heads = cl.heads.map Chb.mirror :=
  heads_mapChs hnd Chb.mirror

/-- The same list of heads with the same entries. -/
structure SameHeads (cl cl' : Cluster) : Prop where
  chs : cl'.chs = cl.chs
  memb : cl'.chsMemb = cl.chsMemb

theorem SameHeads.refl (cl : Cluster) : SameHeads cl cl := ⟨rfl, rfl⟩

theorem SameHeads.trans {a b c : Cluster} (h : SameHeads a b) (h' : SameHeads b c) : SameHeads a c :=
  ⟨h'.chs.trans h.chs, h'.memb.trans h.memb⟩

theorem SameHeads.heads {a b : Cluster} (h : SameHeads a b) : b.heads = a.heads := by
  rw [Cluster.heads, Cluster.heads, h.chs, h.memb]

namespace Node

variable {R : Type} [SoftDouble R]

/-! ### Iterations -/

/-- The head of an iteration, up to the result of its `rtimer_schedule`. -/
def tryIteration (s : Node R) : Bool × Node R :=
  s.beginIteration.schedule .intervalRef 0 (slotInterval 5) .enterIdle

/-- From the slots of an iteration to the head of the next one: the counter has gone up, the heads are as they were. -/
structure NextHead (s t : Node R) : Prop where
  counter : t.consCtrlCounter = s.consCtrlCounter + 1
  heads : SameHeads s.cl t.cl

/-- The control loop begun in `s` is at the head of an iteration, after iterations whose schedules ended so. -/
inductive Iterates (s : Node R) : List Bool → Node R → Prop
  | first : Iterates s [] s
  | refused {os : List Bool} {t u : Node R} : Iterates s os t → t.consCtrlCounter < numConsCtrlIterations →
      t.tryIteration.1 = false → NextHead t.tryIteration.2 u → Iterates s (os ++ [false]) u
  | accepted {os : List Bool} {t u : Node R} : Iterates s os t → t.consCtrlCounter < numConsCtrlIterations →
      t.tryIteration.1 = true → NextHead t.tryIteration.2.announceSynchronization u → Iterates s (os ++ [true]) u

/-- In an iteration behind `init_consensus_synchronization`. -/
structure Synchronizes (s : Node R) (os : List Bool) (t : Node R) : Prop where
  reached : Iterates s os t
  counter : t.consCtrlCounter < numConsCtrlIterations
  scheduled : t.tryIteration.1 = true

section
variable (s : Node R)
include s

omit [SoftDouble R] in
theorem beginIteration_cl :
    s.beginIteration.cl = if 0 < s.consCtrlCounter then mirrorSlots s.cl else s.cl := by
  rw [beginIteration]
  split
  · dsimp only
    split <;> rfl
  · rfl

theorem tryIteration_cl :
    s.tryIteration.2.cl = if 0 < s.consCtrlCounter then mirrorSlots s.cl else s.cl := s.beginIteration_cl

omit [SoftDouble R] in
theorem beginIteration_counter : s.beginIteration.consCtrlCounter = s.consCtrlCounter := by
  rw [beginIteration]
  split
  · dsimp only
    split <;> rfl
  · rfl

theorem tryIteration_counter : s.tryIteration.2.consCtrlCounter = s.consCtrlCounter :=
  s.beginIteration_counter

omit [SoftDouble R] in
theorem initConsensusSynchronization_cl : s.initConsensusSynchronization.cl = mirrorSlots s.cl :=
  congrArg Core.cl s.core_initConsensusSynchronization

theorem announceSynchronization_cl : s.announceSynchronization.cl = mirrorSlots s.cl :=
  congrArg Core.cl s.core_announceSynchronization

theorem announceSynchronization_counter : s.announceSynchronization.consCtrlCounter = s.consCtrlCounter := by
  have hinit : s.initConsensusSynchronization.consCtrlCounter = s.consCtrlCounter := by
    rw [initConsensusSynchronization]
    dsimp only
    split <;> rfl
  rw [← hinit, announceSynchronization]
  generalize s.initConsensusSynchronization = t
  split <;> rfl

end

/-- How often the slots have been mirrored at the head of an iteration: once by each iteration but the first, and once more
    by each that was scheduled. -/
def mirrorings (os : List Bool) : Nat := (os.length - 1) + os.count true

/-- What the head of an iteration finds. -/
structure Turned (s : Node R) (os : List Bool) (t : Node R) : Prop where
  counter : t.consCtrlCounter.toNat = os.length
  nodup : t.cl.chs.Nodup
  heads : t.cl.heads = s.cl.heads.map Chb.mirror^[mirrorings os]

omit [SoftDouble R] in
theorem map_mirror_iterate (l : List Chb) (n : Nat) :
    (l.map Chb.mirror^[n]).map Chb.mirror = l.map Chb.mirror^[n + 1] := by
  rw [map_map, Function.iterate_succ']

variable {s t u : Node R} {os : List Bool}

/-- The schedule of the next iteration finds the slots mirrored once more, unless it is the first. -/
theorem Turned.tried (h : Turned s os t) : t.tryIteration.2.cl.chs.Nodup ∧
    t.tryIteration.2.cl.heads = s.cl.heads.map Chb.mirror^[os.length + os.count true] := by
  have hcounter := h.counter
  rw [tryIteration_cl]
  split
  next hpos =>
    have hpos : 0 < os.length := by
      have := UInt8.lt_iff_toNat_lt.mp hpos
      rw [← hcounter]
      exact this
    refine ⟨h.nodup, ?_⟩
    rw [heads_mirrorSlots h.nodup, h.heads, map_mirror_iterate, mirrorings]
    congr 2
    omega
  next hzero =>
    have hnil : os = [] := by
      have hle := Nat.le_of_not_lt fun hlt => hzero (UInt8.lt_iff_toNat_lt.mpr hlt)
      exact eq_nil_of_length_eq_zero (by rw [← hcounter]; simpa using hle)
    subst hnil
    exact ⟨h.nodup, h.heads⟩

omit [SoftDouble R] in
theorem Turned.next {o : Bool} (hcounter : t.consCtrlCounter.toNat = os.length)
    (hlt : t.consCtrlCounter < numConsCtrlIterations) (hnd : t.cl.chs.Nodup)
    (hheads : t.cl.heads = s.cl.heads.map Chb.mirror^[os.length + (os ++ [o]).count true]) (hnext : NextHead t u) :
    Turned s (os ++ [o]) u := by
  have hbound := UInt8.lt_iff_toNat_lt.mp hlt
  have hthree : numConsCtrlIterations.toNat = 3 := rfl
  refine ⟨?_, hnext.heads.chs ▸ hnd, ?_⟩
  · rw [hnext.counter, UInt8.toNat_add, hcounter, length_append]
    have hone : (1 : UInt8).toNat = 1 := rfl
    rw [hone, length_singleton]
    omega
  · rw [hnext.heads.heads, hheads, mirrorings, length_append, length_singleton, Nat.add_sub_cancel]

/-- HEADS of the iterations: how often the slots are mirrored depends on the schedules so far. -/
theorem Iterates.turned (hcounter : s.consCtrlCounter = 0) (hnd : s.cl.chs.Nodup)
    (h : Iterates s os t) : Turned s os t := by
  induction h with
  | first => exact ⟨by rw [hcounter]; rfl, hnd, by simp [mirrorings]⟩
  | @refused os t u _ hlt _ hnext ih =>
    obtain ⟨hnd', hheads⟩ := ih.tried
    refine Turned.next ?_ ?_ hnd' ?_ hnext
    · rw [tryIteration_counter]
      exact ih.counter
    · rw [tryIteration_counter]
      exact hlt
    · rw [hheads, count_append]
      rfl
  | @accepted os t u _ hlt _ hnext ih =>
    obtain ⟨hnd', hheads⟩ := ih.tried
    have hcl := t.tryIteration.2.announceSynchronization_cl
    have hsame := (announceSynchronization_counter t.tryIteration.2).trans t.tryIteration_counter
    refine Turned.next ?_ ?_ ?_ ?_ hnext
    · rw [hsame]
      exact ih.counter
    · rw [hsame]
      exact hlt
    · rw [hcl]
      exact hnd'
    · rw [hcl, heads_mirrorSlots hnd', hheads, map_mirror_iterate, count_append]
      rfl

/-- The parity of the mirrorings is that of the schedules that failed. -/
theorem even_mirrorings (os : List Bool) : Even (os.length + os.count true) ↔ Even (os.count false) := by
  rw [← count_true_add_count_false os]
  simp only [Nat.even_iff]
  omega

/-- INIT: it leaves the slots mirrored behind an even number of failures, and as they were behind an odd one. -/
theorem Synchronizes.heads (hcounter : s.consCtrlCounter = 0) (hnd : s.cl.chs.Nodup)
    (h : Synchronizes s os t) : t.tryIteration.2.initConsensusSynchronization.cl.heads =
      if Even (os.count false) then s.cl.heads.map Chb.mirror else s.cl.heads := by
  obtain ⟨hnd', hheads⟩ := (h.reached.turned hcounter hnd).tried
  rw [initConsensusSynchronization_cl, heads_mirrorSlots hnd', hheads, map_mirror_iterate]
  split
  next heven =>
    have hodd : Odd (os.length + os.count true + 1) := ((even_mirrorings os).mpr heven).add_one
    rw [mirror_involutive.iterate_odd hodd]
  next hodd =>
    have heven : Even (os.length + os.count true + 1) :=
      (Nat.not_even_iff_odd.mp fun h => hodd ((even_mirrorings os).mp h)).add_one
    rw [mirror_involutive.iterate_even heven, map_id]

/-! ### Runs through the loop -/

/-- What happens beside the thread: the yield, the counter and the heads stay. -/
structure Aside (s t : Node R) : Prop where
  pc : t.pc = s.pc
  counter : t.consCtrlCounter = s.consCtrlCounter
  heads : SameHeads s.cl t.cl

section

omit [SoftDouble R]

theorem Aside.refl (s : Node R) : Aside s s := ⟨rfl, rfl, .refl _⟩

theorem Aside.trans (h : Aside s t) (h' : Aside t u) : Aside s u :=
  ⟨h'.pc.trans h.pc, h'.counter.trans h.counter, h.heads.trans h'.heads⟩

theorem Received.aside (h : s.Received t) : Aside s t := by
  obtain ⟨nb, tm, an, -, -, rfl⟩ := h
  exact ⟨rfl, rfl, .refl _⟩

theorem Aligned.aside (h : s.Aligned t) : Aside s t := by
  obtain ⟨nb, tm, rate, out, -, rfl⟩ := h
  exact ⟨rfl, rfl, .refl _⟩

end

theorem joinAt_aside {value : AnnouncementValue R} {func : Callback} {enter : Node R → Node R}
    (h : ∀ t, Aside s t → t.myState = s.myState → Aside s (enter t)) : Aside s (s.joinAt value func enter) := by
  rw [joinAt, ifScheduledAt]
  refine ifScheduled_rule (P := fun t => Aside s t) (fun t _ ht => ?_) fun t ht => ?_
  · obtain ⟨tm, out, rfl, -⟩ := ht
    exact h _ ⟨rfl, rfl, .refl _⟩ rfl
  · obtain ⟨tm, out, rfl, -⟩ := ht
    exact ⟨rfl, rfl, .refl _⟩

omit [SoftDouble R] in
theorem call_counter (s : Node R) (f : Callback) : (s.call f).consCtrlCounter = s.consCtrlCounter := by
  cases f
  case enterConvergenceSlot =>
    rw [call, enterConvergenceSlot]
    split <;> rfl
  case enterSynchronizationSlot =>
    rw [call, enterSynchronizationSlot]
    split <;> rfl
  all_goals rfl

omit [SoftDouble R] in
theorem fire_aside (s : Node R) : Aside s s.fire := by
  have hcore := s.core_fire
  have hcounter : s.fire.consCtrlCounter = s.consCtrlCounter := by
    rw [fire]
    split
    · exact call_counter _ _
    · rfl
  have hcl : s.fire.cl = s.cl := congrArg Core.cl hcore
  exact ⟨congrArg Core.pc hcore, hcounter, by rw [hcl]; exact .refl _⟩

theorem bridgeSynchronization_aside (s : Node R) (value : AnnouncementValue R) (n : Neighbour R) :
    Aside s (s.bridgeSynchronization value n) := by
  have haccuse : Aside s (s.accuse n) := by
    refine ⟨rfl, rfl, ?_⟩
    change SameHeads s.cl (blacklistAdd n.addr s.cl)
    rw [blacklistAdd]
    split <;> exact ⟨rfl, rfl⟩
  have htrusted : Aside s (((s.csyncTrustedSynchronization n value.refAddr value.consRate).setSyncBorder 1).forwardAll
      value) := by
    have h := (s.csyncTrustedSynchronization_spec n value.refAddr value.consRate).aside
    exact ⟨h.pc, h.counter, h.heads⟩
  rw [bridgeSynchronization]
  split
  · split
    · exact htrusted
    · exact haccuse
  · split
    · split
      · exact haccuse
      · exact ⟨rfl, rfl, .refl _⟩
    · exact ⟨rfl, rfl, .refl _⟩

theorem byzantineMessage_aside (s : Node R) (value : AnnouncementValue R) (n : Neighbour R) (threshold : Nat) :
    Aside s (s.byzantineMessage value n threshold) := by
  rw [byzantineMessage]
  split
  · split
    · have hcount : Aside s { s with msgCount := s.msgCount + 1 } := ⟨rfl, rfl, .refl _⟩
      have h := hcount.trans ({ s with msgCount := s.msgCount + 1 }.csyncTrustedSynchronization_spec n value.refAddr
        value.consRate).aside
      dsimp only
      generalize { s with msgCount := s.msgCount + 1 }.csyncTrustedSynchronization n value.refAddr value.consRate = t at h ⊢
      split <;> exact ⟨h.pc, h.counter, h.heads⟩
    · have h := (s.csyncTrustedSynchronization_spec n value.refAddr value.consRate).aside
      exact ⟨h.pc, h.counter, h.heads⟩
  · exact .refl s

theorem slotSynchronization_aside (s : Node R) (value : AnnouncementValue R) (n : Neighbour R) :
    Aside s (s.slotSynchronization value n) := by
  have htrusted : Aside s ((s.forwardDate value).csyncTrustedSynchronization n value.refAddr value.consRate) := by
    have h := ((s.forwardDate value).csyncTrustedSynchronization_spec n value.refAddr value.consRate).aside
    exact ⟨h.pc, h.counter, h.heads⟩
  rw [slotSynchronization]
  split
  · exact s.bridgeSynchronization_aside value n
  · dsimp only
    split
    · exact ⟨htrusted.pc, htrusted.counter, htrusted.heads⟩
    · exact htrusted
  · split
    · exact htrusted
    · exact .refl s

section
variable (hst : s.myState = .consensusSynchronization ∨ s.myState = .idle)
include hst

/-- A resigning head changes its role and its bridges; `handle_lists` has nothing to do in the synchronization. -/
theorem convergenceMessage_aside
    (value : AnnouncementValue R) (n : Neighbour R) : Aside s (s.convergenceMessage value n) := by
  rw [convergenceMessage]
  rcases hst with hst | hst
  · rw [hst]
    dsimp only
    split
    · have hbegin : Aside s (s.politeCancel.setSyncBorder 0) := ⟨rfl, rfl, .refl _⟩
      refine hbegin.trans (joinAt_aside fun t ht hstate => ?_)
      have hlists : (resignHead { t with refNChbDegree := numConsSlots + 3 } value n).cl =
          if t.cl.role = .ch then { t.cl with role := .cm, cbs := [] } else t.cl := by
        rw [resignHead]
        have hsync : t.myState = .consensusSynchronization := hstate.trans hst
        simp only [hsync, CSync.handleLists]
      refine ht.trans ⟨rfl, rfl, ?_⟩
      change SameHeads t.cl (resignHead { t with refNChbDegree := numConsSlots + 3 } value n).cl
      rw [hlists]
      split <;> exact ⟨rfl, rfl⟩
    · exact .refl s
  · rw [hst]
    exact .refl s

/-- HANDLERS: in the phases of the control loop no message changes a slot. -/
theorem heard_aside (id : AnnId)
    (value : AnnouncementValue R) (rx : Reception R) : Aside s (s.heard id value rx) := by
  have hphase : ∀ t, s.Received t → t.myState = .consensusSynchronization ∨ t.myState = .idle := by
    rintro _ ⟨nb, tm, an, -, -, rfl⟩
    exact hst
  cases id with
  | discovery =>
    rw [heard, receivedDiscoveryAnnouncement]
    refine whenReceived_rule (fun t ht => ht.aside) fun t n ht => ?_
    have hne : t.myState ≠ .discovery := by
      intro hd
      rcases hphase t ht with h | h <;> rw [hd] at h <;> cases h
    refine ht.aside.trans ?_
    dsimp only
    split
    · exact ⟨rfl, rfl, .refl _⟩
    · exact .refl t
  | revelation =>
    rw [heard, receivedRevelationAnnouncement]
    refine whenSynced_rule (fun t ht => ht.aside) fun t n _ ht => ?_
    have heq : t.revelationMessage value n = t := by
      rw [revelationMessage]
      rcases hphase t ht with h | h <;> rw [h]
    rw [heq]
    exact ht.aside
  | declaration =>
    rw [heard, receivedDeclarationAnnouncement]
    refine whenSynced_rule (fun t ht => ht.aside) fun t n _ ht => ?_
    have heq : t.declarationMessage value n = t := by
      rw [declarationMessage]
      rcases hphase t ht with h | h <;> rw [h]
    rw [heq]
    exact ht.aside
  | convergence =>
    exact whenSynced_rule (fun t ht => ht.aside) fun t n _ ht =>
      ht.aside.trans (convergenceMessage_aside (hphase t ht) value n)
  | synchronization =>
    rw [heard, receivedSynchronizationAnnouncement]
    split
    · exact .refl s
    · refine whenSynced_rule (fun t ht => ht.aside) fun t n _ ht => ht.aside.trans ?_
      rw [synchronizationMessage]
      rcases hphase t ht with h | h
      · rw [h]
        dsimp only
        split
        · split
          · exact .refl t
          · exact t.slotSynchronization_aside value n
        · split
          · split
            · exact .refl t
            · exact t.byzantineMessage_aside value n _
          · exact .refl t
      · rw [h]
        exact .refl t

end

/-- The thread waits in an iteration behind `init_consensus_synchronization`. -/
def InIteration (s t : Node R) : Prop := ∃ os u, Synchronizes s os u ∧
  t.consCtrlCounter = u.consCtrlCounter ∧ SameHeads u.tryIteration.2.announceSynchronization.cl t.cl

def loopYields : List Pc := [.syncSlot, .idleWait, .idleYield]

/-- Where the thread comes to rest: in an iteration, or behind the loop. -/
def Rests (s t : Node R) : Prop := t.pc ≠ .phase → InIteration s t ∧ t.pc ∈ loopYields

theorem InIteration.aside (h : InIteration s t) (hcounter : u.consCtrlCounter = t.consCtrlCounter)
    (hheads : SameHeads t.cl u.cl) : InIteration s u := by
  obtain ⟨os, v, hv, hc, hh⟩ := h
  exact ⟨os, v, hv, hcounter.trans hc, hh.trans hheads⟩

theorem InIteration.next (h : InIteration s t) :
    ∃ os, Iterates s os { t with consCtrlCounter := t.consCtrlCounter + 1 } := by
  obtain ⟨os, u, hu, hc, hh⟩ := h
  refine ⟨os ++ [true], .accepted hu.reached hu.counter hu.scheduled ⟨?_, hh⟩⟩
  rw [announceSynchronization_counter, tryIteration_counter]
  exact congrArg (· + 1) hc

theorem rests_rule (s : Node R) : SlotRule (InIteration s) (Rests s) where
  schedule h _ hyes hno := by
    refine ifScheduled_rule (fun u _ hu => ?_) fun u hu => ?_
    · obtain ⟨tm, out, rfl, -⟩ := hu
      exact hyes _ (h.aside rfl (.refl _))
    · obtain ⟨tm, out, rfl, -⟩ := hu
      exact hno _ (h.aside rfl (.refl _))
  waits h hpc := fun _ => ⟨h.aside rfl (.refl _), by rcases hpc with rfl | rfl <;> simp [loopYields]⟩
  radio h := h.aside rfl (.refl _)
  degree h := h.aside rfl (.refl _)

theorem syncLoop_rests : ∀ (k : Nat) (os : List Bool) (t : Node R), Iterates s os t → Rests s (syncLoop k t)
  | 0, _, t, _ => fun hpc => absurd rfl hpc
  | k + 1, os, t, h => by
    have hnext : ∀ u : Node R, InIteration s u →
        Rests s (syncLoop k { u with consCtrlCounter := u.consCtrlCounter + 1 }) := by
      intro u hu
      obtain ⟨os', h'⟩ := hu.next
      exact syncLoop_rests k os' _ h'
    rw [syncLoop]
    split
    next hlt =>
      rw [ifScheduled]
      split
      next hsched =>
        exact (rests_rule s).syncSlots hnext ⟨os, t, ⟨h, hlt, hsched⟩,
          (announceSynchronization_counter _).trans t.tryIteration_counter, .refl _⟩
      next hfail =>
        refine syncLoop_rests k (os ++ [false]) _ (.refused h hlt (Bool.eq_false_iff.mpr hfail) ⟨rfl, .refl _⟩)
    · exact fun hpc => absurd rfl hpc

theorem endIteration_rests (h : InIteration s t) : Rests s t.endIteration := by
  obtain ⟨os, h'⟩ := h.next
  exact syncLoop_rests _ os _ h'

/-- THREAD: polled in an iteration it comes to rest in one, or ends the round. -/
theorem resume_rests (h : InIteration s t) (hpc : t.pc ∈ loopYields) : Rests s t.resume := by
  simp only [loopYields, mem_cons, not_mem_nil, or_false] at hpc
  rw [resume]
  rcases hpc with hpc | hpc | hpc
  · rw [hpc]
    have hslot : ∀ u : Node R, InIteration s u →
        Rests s ({ u with refNChbDegree := u.refNChbDegree + 1 }.syncSlots endIteration) := fun u hu =>
      (rests_rule s).syncSlots (fun v hv => endIteration_rests hv) (hu.aside rfl (.refl _))
    apply hslot
    split <;> exact h.aside rfl (.refl _)
  · rw [hpc]
    refine ifScheduled_rule (P := Rests s) (fun u _ hu => ?_) fun u hu => ?_
    · obtain ⟨tm, out, rfl, -⟩ := hu
      exact fun _ => ⟨h.aside rfl (.refl _), by simp [loopYields]⟩
    · obtain ⟨tm, out, rfl, -⟩ := hu
      exact endIteration_rests (h.aside rfl (.refl _))
  · rw [hpc]
    exact endIteration_rests (h.aside rfl (.refl _))

/-- The thread is in the control loop, and messages come in the phases of the loop only. -/
def InLoop (s : Node R) (e : Event R) : Prop :=
  s.pc ≠ .phase ∧ ∀ id value rx, e.act = .heard id value rx →
    s.myState = .consensusSynchronization ∨ s.myState = .idle

theorem rests_step {e : Event R} (h : Rests s t) (hok : t.InLoop e) (hstep : t.step e = some u) : Rests s u := by
  obtain ⟨hin, hyield⟩ := h hok.1
  obtain ⟨-, hof⟩ := step_of hstep
  have haside : ∀ v, Aside (t.prepare e) v → Rests s v := fun v hv _ =>
    ⟨hin.aside hv.counter hv.heads, hv.pc ▸ hyield⟩
  cases hof with
  | @heard id value rx hact =>
    exact haside _ (heard_aside (s := t.prepare e) (hok.2 id value rx hact) id value rx)
  | fired _ _ => exact haside _ (fire_aside _)
  | resumed _ _ => exact resume_rests (hin.aside rfl (.refl _)) hyield
  | overflowed _ => exact haside _ ⟨rfl, rfl, .refl _⟩

/-- MIRRORING: behind `init_consensus_synchronization` the slots are the mirrored ones of the convergence exactly where the
    timer could not be armed in an even number of the earlier iterations, unless every slot is its own mirror; and wherever
    a run through the loop stands in an iteration, the heads are as that call has left them. -/
theorem slots_mirrored_iff (s : Node R) (hcounter : s.consCtrlCounter = 0) (hnd : s.cl.chs.Nodup) :
    (∀ os t, Synchronizes s os t →
       (t.tryIteration.2.initConsensusSynchronization.cl.heads = s.cl.heads.map Chb.mirror ↔
          Even (os.count false) ∨ ∀ ch ∈ s.cl.heads, ch.consSlot = 3 ∨ ch.consSlot = 131)) ∧
    ∀ es t, Run step InLoop s.synchronization es t → t.pc ≠ .phase →
      ∃ os u,
        Synchronizes s os u ∧
        t.consCtrlCounter = u.consCtrlCounter ∧
        t.cl.heads = u.tryIteration.2.initConsensusSynchronization.cl.heads := by
  constructor
  · intro os t h
    rw [h.heads hcounter hnd]
    have hself : s.cl.heads = s.cl.heads.map Chb.mirror ↔ ∀ ch ∈ s.cl.heads, ch.consSlot = 3 ∨ ch.consSlot = 131 := by
      have hid := map_inj_left (l := s.cl.heads) (f := Chb.mirror) (g := id)
      rw [map_id] at hid
      rw [eq_comm, hid]
      exact forall₂_congr fun ch _ => mirror_eq_self ch
    split
    next heven => exact ⟨fun _ => .inl heven, fun _ => rfl⟩
    next hodd =>
      rw [hself]
      exact ⟨.inr, fun h => h.resolve_left hodd⟩
  · intro es t hrun hpc
    have hstart : Rests s s.synchronization := syncLoop_rests _ [] s .first
    obtain ⟨⟨os, u, hu, hc, hh⟩, -⟩ := (hrun.invariant (P := Rests s) (fun _ _ _ h hok hst => rests_step h hok hst)
      hstart) hpc
    refine ⟨os, u, hu, hc, ?_⟩
    rw [hh.heads, Cluster.heads, Cluster.heads, announceSynchronization_cl, initConsensusSynchronization_cl]

/-- A bridge with the slots 1 and 2 at its loop. The date of the idle phase lies at the end of the fine clock's period, and
    the clock wraps around between the schedules of the first two iterations, before the overflow is counted. -/
def wrapping : Node Rat :=
  { boot 44 with
    cl := {
      role := .cb
      chsMemb := ⟨fun i => if i.val < 2 then 1 else 0,
        fun i => if i.val = 0 then ⟨78, 3, 1, 78, 0⟩ else ⟨48, 3, 2, 48, 0⟩⟩
      chs := [0, 1]
      cbsMemb := Pool.init ⟨0, 0, 0, 0, 0⟩
      cbs := []
      blMemb := Pool.init 0
      blacklist := []
      chsForeign := false }
    tm := { (boot 44 : Node Rat).tm with
      fineScheduleRef := 66320932
      hw := fun i => if i = 0 then 67106000 else 40 }
    myState := .consensusSynchronization
    myConsSlot := 3
    pc := .revYield }

/-- The head of the second iteration. -/
def refusedOnce : Node Rat := { wrapping.tryIteration.2 with consCtrlCounter := 1 }

/-- Two heads with other slots than the middle one: only the parity counts. -/
theorem slots_mirrored_two : refusedOnce.tryIteration.2.initConsensusSynchronization.cl.heads =
    wrapping.cl.heads.map Chb.mirror ↔ Even ([false].count false) := by
  have hrefused : Iterates wrapping [false] refusedOnce :=
    .refused .first (by decide) (by decide +kernel) ⟨rfl, .refl _⟩
  rw [(slots_mirrored_iff wrapping rfl (by decide)).1 _ _ ⟨hrefused, by decide +kernel, by decide +kernel⟩]
  exact or_iff_left (by decide)

/-- FAILS IN GENERAL: the first schedule fails, the second one does not, and the slots are the unmirrored ones. -/
theorem mirrored_twice : ¬ ∀ (s t : Node Rat) (es : List (Event Rat)), s.consCtrlCounter = 0 → s.cl.chs.Nodup →
    Run step InLoop s.synchronization es t → t.pc ≠ .phase → t.cl.heads = s.cl.heads.map Chb.mirror := by
  intro hall
  have hslots := hall wrapping wrapping.synchronization [] rfl (by decide) (.nil _) (by decide +kernel)
  exact absurd hslots (by decide +kernel)

end Node

end CSync
