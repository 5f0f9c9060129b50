import CSync.Rtimer.Arming
import CSync.Node.Table

/-! Rules for reasoning about a step of a node.

    Every handler receives a packet and then branches on calls of `rtimer_schedule`; the process thread is a chain of
    such branches. Each rule says what the node looks like behind one of these operations, so that a property of all
    outcomes is proved branch by branch, without unfolding the timers or the neighbour table. -/

namespace CSync

open Lib

variable {R : Type} [SoftDouble R]

/-! ### The clock work of a packet -/

theorem sameArming_gtspRecv (tm : RtimerState R) (n : Neighbour R) (rx : Reception R) (new : Bool) :
    SameArming tm (gtspRecv tm n rx new).2 := .of_rt0 rfl

theorem sameArming_gtspOffset (st : St) (tm : RtimerState R) (ns : List (Neighbour R))
    (acc : GtspAcc R) : SameArming tm (gtspOffset st tm ns acc).2 := by
  rw [gtspOffset]
  split
  · exact .of_rt0 rfl
  · split <;> exact .refl tm

theorem sameArming_gtspUpdateRtimer (env : Env R) (st : St) (tm : RtimerState R) (all : List (Fin maxDegree)) (m :
    Pool maxDegree (Neighbour R)) : SameArming tm (gtspUpdateRtimer env st tm all m).2 := by
  have hcoarse : ∀ d, SameArming tm (rtimerAdjustCoarseCount tm d) := fun d => .of_rt0 rfl
  exact ((hcoarse _).trans (sameArming_gtspOffset st _ _ _)).trans (sameArming_rtimerAdjustFineOffset _ _)

theorem sameArming_refreshNeighbour (env : Env R) (st : St) (tm : RtimerState R)
    (nb : NeighbourTable R) (i : Fin maxDegree) (state degree : UInt8) (rx : Reception R) :
    SameArming tm (refreshNeighbour env st tm nb i state degree rx).2 := by
  have hrecv := sameArming_gtspRecv tm (nb.memb.mem i) rx false
  have hupdate : ∀ (p : Prop) [Decidable p] (tm : RtimerState R) m,
      SameArming tm (if p then gtspUpdateRtimer env st tm nb.modList m else (m, tm)).2 := by
    intro p _ tm m
    split
    · exact sameArming_gtspUpdateRtimer env st tm nb.modList m
    · exact .refl tm
  rw [refreshNeighbour]
  by_cases hidle : st = .idle
  · rw [if_pos hidle]
    exact hrecv
  · rw [if_neg hidle]
    exact hrecv.trans (hupdate _ _ _)

theorem sameArming_addToNeighbour (env : Env R) (a : UInt16) (st : St) (tm : RtimerState R)
    (nb : NeighbourTable R) (addr : UInt16) (state degree : UInt8) (rx : Reception R) :
    SameArming tm (addToNeighbour env a st tm nb addr state degree rx).2.2.1 := by
  rw [addToNeighbour]
  split
  · exact sameArming_refreshNeighbour env st tm nb _ state degree rx
  · split
    next i _ => exact sameArming_gtspRecv tm (nb.memb.mem i) rx false
    · split
      · exact .refl tm
      · dsimp only [newNeighbour]
        split <;> exact .of_rt0 rfl

namespace Node

/-! ### Receiving -/

/-- The announcements after `add_to_neighbour`: unchanged, or the discovery announcement with a new degree. -/
def Regraded (s : Node R) (an : Announcements R) : Prop :=
  an = s.an ∨ ∃ d, an = s.an.modify (·.setDegree d) .discovery

/-- What `add_to_neighbour` can change: the table, the timers but not the arming of `RTIMER_0`, and
    the degree in the discovery announcement. -/
theorem addNeighbour_spec (s : Node R) (value : AnnouncementValue R) (rx : Reception R) :
    ∃ nb tm an, SameArming s.tm tm ∧ s.Regraded an ∧
      (s.addNeighbour value rx).2 = { s with nb := nb, tm := tm, an := an } := by
  have harm := sameArming_addToNeighbour s.env s.myAddr s.myState s.tm s.nb rx.sender value.instr value.degree rx
  rw [addNeighbour]
  dsimp only
  split
  · exact ⟨_, _, _, harm, .inr ⟨_, rfl⟩, rfl⟩
  · exact ⟨_, _, _, harm, .inl rfl, rfl⟩

/-- The node and the sender's entry with which a handler goes on, unless the packet is weak, the
    sender is not a neighbour of the topology or it is not synchronised. -/
def hears (s : Node R) (value : AnnouncementValue R) (rx : Reception R) :
    Option (Node R × Neighbour R) :=
  if rx.rssi < rssiThreshold then none
  else match (s.addNeighbour value rx).1 with
    | some i =>
        let t := (s.addNeighbour value rx).2
        if (t.nb.memb.mem i).synced then some (t, t.nb.memb.mem i) else none
    | none => none

/-- What a packet changes before the handler's own part. -/
def Received (s t : Node R) : Prop :=
  ∃ nb tm an, SameArming s.tm tm ∧ s.Regraded an ∧ t = { s with nb := nb, tm := tm, an := an }

variable {P : Node R → Prop} {s t : Node R} {value : AnnouncementValue R} {rx : Reception R}
variable {handle : Node R → Neighbour R → Node R} {n : Neighbour R} {type : ScheduleType} {c f : UInt32}
variable {func : Callback} {yes no : Node R → Node R}

/-- RECEPTION RULE: a property holds behind a handler if it holds behind the reception alone and
    behind the handler's own part. -/
theorem whenReceived_rule (hnone : ∀ t, s.Received t → P t) (hsome : ∀ t n, s.Received t → P (handle t n)) :
    P (s.whenReceived value rx handle) := by
  have hrecv : s.Received (s.addNeighbour value rx).2 := s.addNeighbour_spec value rx
  rw [whenReceived]
  split
  · exact hnone s ⟨_, _, _, .refl _, .inl rfl, rfl⟩
  · dsimp only
    split
    · exact hsome _ _ hrecv
    · exact hnone _ hrecv

section
variable (h : s.hears value rx = some (t, n))
include h

/-- A handler that goes on is its own part. -/
theorem whenSynced_of_hears : s.whenSynced value rx handle = handle t n := by
  rw [hears] at h
  rw [whenSynced, whenReceived]
  by_cases hrssi : rx.rssi < rssiThreshold
  · rw [if_pos hrssi] at h; cases h
  · rw [if_neg hrssi] at h ⊢
    dsimp only at h ⊢
    cases hi : (s.addNeighbour value rx).1 with
    | none =>
      rw [hi] at h
      cases h
    | some i =>
      rw [hi] at h
      dsimp only at h ⊢
      split at h
      next hsync =>
        cases h
        exact if_pos hsync
      · cases h

/-- What a handler goes on with: the node behind `add_to_neighbour`, and a synchronised entry. -/
theorem hears_spec : ¬ rx.rssi < rssiThreshold ∧ t = (s.addNeighbour value rx).2
    ∧ ∃ i, (s.addNeighbour value rx).1 = some i ∧ n = t.nb.memb.mem i ∧ n.synced = true := by
  rw [hears] at h
  split at h
  · cases h
  next hrssi =>
    split at h
    next i hi =>
      dsimp only at h
      split at h
      next hsync =>
        cases h
        exact ⟨hrssi, rfl, i, hi, rfl, hsync⟩
      · cases h
    · cases h

theorem received_of_hears : s.Received t := by
  obtain ⟨-, rfl, -⟩ := hears_spec h
  exact s.addNeighbour_spec value rx

theorem hears_entry : n.addr = rx.sender ∧
      (s.myState.code < St.connectionDeclaration.code → n.degree = value.degree) := by
  obtain ⟨-, rfl, i, hi, rfl, hsync⟩ := hears_spec h
  rw [addNeighbour_nb] at hsync ⊢
  exact addToNeighbour_entry s.env s.myAddr s.myState s.tm s.nb rx.sender value.instr value.degree rx i hi hsync

end

/-- A handler that ignores an unsynchronised sender does nothing but receive, or goes on. -/
theorem whenSynced_cases (s : Node R) (value : AnnouncementValue R) (rx : Reception R)
    (handle : Node R → Neighbour R → Node R) :
    (s.whenSynced value rx handle = s ∨ s.whenSynced value rx handle = (s.addNeighbour value rx).2) ∨
    ∃ t n, s.hears value rx = some (t, n) ∧ s.whenSynced value rx handle = handle t n := by
  rw [whenSynced, whenReceived, hears]
  by_cases hrssi : rx.rssi < rssiThreshold
  · rw [if_pos hrssi]
    exact .inl (.inl rfl)
  · rw [if_neg hrssi, if_neg hrssi]
    dsimp only
    cases (s.addNeighbour value rx).1 with
    | none => exact .inl (.inr rfl)
    | some i =>
      dsimp only
      by_cases hsync : ((s.addNeighbour value rx).2.nb.memb.mem i).synced = true
      · rw [if_pos hsync, if_pos hsync]
        exact .inr ⟨_, _, rfl, rfl⟩
      · rw [if_neg hsync]
        exact .inl (.inr rfl)

/-- The same rule for the handlers that ignore an unsynchronised sender. -/
theorem whenSynced_rule (hnone : ∀ t, s.Received t → P t) (hsome : ∀ t n, s.hears value rx = some (t, n) → s.Received
    t → P (handle t n)) : P (s.whenSynced value rx handle) := by
  rcases s.whenSynced_cases value rx handle with (heq | heq) | ⟨t, n, hears, heq⟩
  · rw [heq]
    exact hnone s ⟨_, _, _, .refl _, .inl rfl, rfl⟩
  · rw [heq]
    exact hnone _ (s.addNeighbour_spec value rx)
  · rw [heq]
    exact hsome t n hears (received_of_hears hears)

/-! ### Scheduling -/

/-- The node behind an accepted call: only the timers and the outputs have changed, and `RTIMER_0` is
    scheduled, with the new callback unless it was in single pass. -/
def Accepted (s : Node R) (func : Callback) (s' : Node R) : Prop :=
  ∃ tm out, s' = { s with tm := tm, out := out } ∧ tm.rt0.state = .scheduled ∧
    (tm.rt0.func = some func ∨ s.tm.rt0.state = .singlepass ∧ tm.rt0.func = s.tm.rt0.func)

/-- The node behind a refused call: the record keeps its state, and has the new callback or, in
    single pass always, the old one. -/
def Refused (s : Node R) (func : Callback) (s' : Node R) : Prop :=
  ∃ tm out, s' = { s with tm := tm, out := out } ∧ tm.rt0.state = s.tm.rt0.state ∧
    (s.tm.rt0.state ≠ .singlepass ∧ tm.rt0.func = some func ∨ tm.rt0.func = s.tm.rt0.func)

/-- SCHEDULING RULE: a property holds behind a call of `rtimer_schedule` if it holds behind either of its ends. -/
theorem ifScheduled_ends (hyes : ∀ tm, rtimerSchedule s.tm .rtimer0 type c f func = (true, tm) →
      ScheduleEnd s.tm type c f func (true, tm) →
      P (yes { s with tm := tm, out := s.out ++ [.schedule type c f func s.tm.rt0 true] }))
    (hno : ∀ tm, rtimerSchedule s.tm .rtimer0 type c f func = (false, tm) →
      ScheduleEnd s.tm type c f func (false, tm) →
      P (no { s with tm := tm, out := s.out ++ [.schedule type c f func s.tm.rt0 false] })) :
    P (s.ifScheduled type c f func yes no) := by
  have hend := rtimerSchedule_end s.tm type c f func
  rw [ifScheduled, schedule]
  generalize rtimerSchedule s.tm .rtimer0 type c f func = r at hend hyes hno
  obtain ⟨ok, tm⟩ := r
  cases ok with
  | true => exact hyes tm rfl hend
  | false => exact hno tm rfl hend

/-- The same with what the ends say of the record. A call in single pass is refused for the date
    `(0, 0)` only, and then leaves the timers as they are. -/
theorem ifScheduled_out (hyes : ∀ tm, (rtimerSchedule s.tm .rtimer0 type c f func).1 = true →
      tm.rt0.state = .scheduled →
      (tm.rt0.func = some func ∨ s.tm.rt0.state = .singlepass ∧ tm.rt0.func = s.tm.rt0.func) →
      P (yes { s with tm := tm, out := s.out ++ [.schedule type c f func s.tm.rt0 true] }))
    (hno : ∀ tm, tm.rt0.state = s.tm.rt0.state →
      (s.tm.rt0.state ≠ .singlepass ∧ tm.rt0.func = some func ∨ c = 0 ∧ f = 0 ∧ tm = s.tm) →
      P (no { s with tm := tm, out := s.out ++ [.schedule type c f func s.tm.rt0 false] })) :
    P (s.ifScheduled type c f func yes no) := by
  refine ifScheduled_ends (fun tm heq hend => ?_) fun tm _ hend => ?_
  · have hacc : (rtimerSchedule s.tm .rtimer0 type c f func).1 = true := by rw [heq]
    cases hend with
    | singlepass hsp h => exact hyes tm hacc (by rw [h]) (.inr ⟨hsp, by rw [h]⟩)
    | armed _ hf hs => exact hyes tm hacc hs (.inl hf)
  · cases hend with
    | nodate hc hf => exact hno _ rfl (.inr ⟨hc, hf, rfl⟩)
    | refused hsp h => exact hno _ (by rw [h]) (.inl ⟨hsp, by rw [h]⟩)

/-- The same without the output. -/
theorem ifScheduled_rule (hyes : ∀ s', (rtimerSchedule s.tm .rtimer0 type c f func).1 = true → s.Accepted func s' →
      P (yes s')) (hno : ∀ s', s.Refused func s' → P (no s')) : P (s.ifScheduled type c f func yes no) := by
  refine ifScheduled_out (fun tm hacc hst hfunc => ?_) fun tm hst hfunc => ?_
  · exact hyes _ hacc ⟨tm, _, rfl, hst, hfunc⟩
  · refine hno _ ⟨tm, _, rfl, hst, ?_⟩
    rcases hfunc with hfunc | ⟨-, -, rfl⟩
    · exact .inl hfunc
    · exact .inr rfl

/-! ### Synchronising to a neighbour -/

/-- What synchronising to a neighbour can change: the differences in the table, the timers but not
    the arming of `RTIMER_0`, the consensus rate and the outputs. -/
def Aligned (s s' : Node R) : Prop :=
  ∃ nb tm rate out, SameArming s.tm tm ∧
    s' = { s with nb := nb, tm := tm, myConsRate := rate, out := out }

theorem Aligned.stepClock {u : Node R} (h : s.Aligned u) (d : Int32) : s.Aligned (u.stepClock d) := by
  obtain ⟨nb, tm, rate, out, harm, rfl⟩ := h
  exact ⟨_, _, _, _, harm.trans (sameArming_rtimerAdjustFineOffset tm d), rfl⟩

omit [SoftDouble R] in
theorem aligned_rates (s : Node R) (avgRate rate : R) (out : List (Out R)) : s.Aligned { s with
      tm := { s.tm with avgRate := avgRate }, myConsRate := rate, out := out } :=
  ⟨s.nb, { s.tm with avgRate := avgRate }, rate, out, .of_rt0 rfl, rfl⟩

theorem csyncTrustedSynchronization_spec (s : Node R) (n : Neighbour R) (cAddr : UInt16)
    (consRate : R) : s.Aligned (s.csyncTrustedSynchronization n cAddr consRate) := by
  have hstay : ∀ rate out, s.Aligned { s with myConsRate := rate, out := out } :=
    fun rate out => s.aligned_rates s.tm.avgRate rate out
  rw [csyncTrustedSynchronization]
  dsimp only [emit]
  cases s.cl.role with
  | cm =>
    refine iteInduction (fun _ => hstay _ _) fun _ => Aligned.stepClock ?_ _
    exact iteInduction (fun _ => s.aligned_rates _ _ _) fun _ => hstay _ _
  | cb =>
    refine iteInduction (fun _ => hstay _ _) fun _ => Aligned.stepClock ?_ _
    exact iteInduction (fun _ => s.aligned_rates _ _ _) fun _ => hstay _ _
  | ch =>
    refine iteInduction (fun _ => hstay _ _) fun _ => ?_
    refine iteInduction (fun _ => (s.aligned_rates _ _ _).stepClock _) fun _ => ?_
    exact iteInduction (fun _ => (s.aligned_rates _ _ _).stepClock _) fun _ => hstay _ _

theorem trustedSynchronization_out (s : Node R) (n : Neighbour R) (cAddr : UInt16) (consRate : R) :
    (s.csyncTrustedSynchronization n cAddr consRate).out =
      s.out ++ [.trustedSynchronization n.addr n.fineDiff n.coarseDiff] := by
  rw [csyncTrustedSynchronization]
  dsimp only [emit]
  cases s.cl.role with
  | cm =>
    refine iteInduction (motive := fun u : Node R => u.out = _) (fun _ => rfl) fun _ => ?_
    rw [stepClock]
    exact iteInduction (motive := fun u : Node R => u.out = _) (fun _ => rfl) fun _ => rfl
  | cb =>
    refine iteInduction (motive := fun u : Node R => u.out = _) (fun _ => rfl) fun _ => ?_
    exact iteInduction (motive := fun u : Node R => u.out = _) (fun _ => rfl) fun _ => rfl
  | ch =>
    refine iteInduction (motive := fun u : Node R => u.out = _) (fun _ => rfl) fun _ => ?_
    refine iteInduction (motive := fun u : Node R => u.out = _) (fun _ => rfl) fun _ => ?_
    exact iteInduction (motive := fun u : Node R => u.out = _) (fun _ => rfl) fun _ => rfl

end Node

end CSync
