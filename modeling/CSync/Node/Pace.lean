import CSync.Node.TableRuns

/-! The pace of a node's clock.

    The clock goes on at the node's own rate as long as it is only brought up to the present. A packet changes more
    where `gtsp_update_rtimer` averages the differences, or where the node follows the sender; everywhere else the
    handlers leave the pace alone. -/

namespace CSync

open Lib

variable {R : Type} [SoftDouble R]

/-- The clock brought up to the present at the node's own rate, whatever the packet says. -/
def Node.ownClock (tm : RtimerState R) : RtimerState R :=
  rtimerUpdateOffset tm.tick.2 tm.coarseCount tm.tick.1

/-- Timers whose clock was read, and brought up to the present at its own rate, any number of times. -/
inductive OwnPace (tm : RtimerState R) : RtimerState R → Prop
  | start : OwnPace tm tm
  | other {u v : RtimerState R} : OwnPace tm u → Node.clockOf v = Node.clockOf u → OwnPace tm v
  | read {u : RtimerState R} : OwnPace tm u → OwnPace tm u.tick.2
  | update {u : RtimerState R} : OwnPace tm u → OwnPace tm (Node.ownClock u)

variable {tm u : RtimerState R}

section
variable (h : OwnPace tm u)
include h

theorem OwnPace.lfUpdate : OwnPace tm (rtimerLfUpdate u) := h.other rfl

theorem OwnPace.interval (timeFine : UInt32) (type : ScheduleType) :
    OwnPace tm (rtimerLgintervalToHwdate u timeFine type).2.2.2 := by
  rw [rtimerLgintervalToHwdate]
  split <;> exact h.read

theorem OwnPace.date (timeCoarse timeFine : UInt32) :
    OwnPace tm (rtimerLgdateToHwdate u timeCoarse timeFine).2.2.2 := by
  have hupdate : OwnPace tm (rtimerUpdateOffset { u.tick.2 with
      coarseScheduleRef := u.coarseCount, fineScheduleRef := u.tick.1 } u.coarseCount u.tick.1) := h.update.other rfl
  exact hupdate.interval _ _

theorem OwnPace.schedule (timer : RtimerId) (type : ScheduleType) (c f : UInt32) (func : Callback) :
    OwnPace tm (rtimerSchedule u timer type c f func).2 := by
  have hset : ∀ {v}, OwnPace tm v → ∀ r, OwnPace tm (v.setRt timer r) := by
    intro v hv r
    cases timer <;> exact hv.other rfl
  rw [rtimerSchedule]
  split
  · exact h
  · split
    · exact hset h _
    · dsimp only
      split
      · have hdate := (hset h { u.rt timer with func := some func }).date c f
        split
        · exact hdate
        · exact (hset hdate _).lfUpdate
      · have hinterval := (hset h { u.rt timer with func := some func }).interval f type
        split
        · exact hinterval
        · exact (hset hinterval _).lfUpdate

end

/-! ### The neighbour table -/

section

omit [SoftDouble R]

/-- The table has an entry for this neighbour of the topology. -/
def Known (myAddr : UInt16) (nb : NeighbourTable R) (addr : UInt16) : Prop :=
  ∃ i ∈ nb.modList, (nb.memb.mem i).addr = addr ∧ checkModNeighbours myAddr (nb.memb.mem i).addr = true

/-- A message of this neighbour makes `add_to_neighbour` call `gtsp_update_rtimer`. -/
def Averages (myAddr : UInt16) (st : St) (nb : NeighbourTable R) (addr : UInt16) (state : UInt8) : Prop :=
  Known myAddr nb addr ∧ st ≠ .idle ∧ (st = .discovery ∨ st.code < St.consensusSynchronization.code ∧
    (if state = discToErev ∨ state = convergenceProactive then state - 1 else state) = st.code)

end

omit [SoftDouble R] in
theorem not_averages (a : UInt16) (nb : NeighbourTable R) (addr : UInt16) (state : UInt8) :
    ¬ Averages a .consensusSynchronization nb addr state := by
  rintro ⟨-, -, h | ⟨hlt, -⟩⟩
  · cases h
  · exact absurd hlt (by decide)

namespace Node

variable {s t : Node R} {value : AnnouncementValue R} {rx : Reception R} {n : Neighbour R}

theorem addToNeighbour_ownClock {a : UInt16} {st : St} {nb : NeighbourTable R} {addr : UInt16} {state : UInt8}
    (env : Env R) (tm : RtimerState R) (degree : UInt8) (rx : Reception R) (hno : ¬ Averages a st nb addr state) :
    ∀ r, r = addToNeighbour env a st tm nb addr state degree rx →
      (r.2.2.1 = tm ∨ r.2.2.1 = ownClock tm) ∧ (r.1.isSome → r.2.2.1 = ownClock tm) := by
  rintro r rfl
  rw [addToNeighbour]
  split
  next i hfind =>
    have hclock : (refreshNeighbour env st tm nb i state degree rx).2 = ownClock tm := by
      rw [refreshNeighbour]
      by_cases hidle : st = .idle
      · rw [if_pos hidle]
        rfl
      · have hkept : ¬ ((st.code < St.consensusSynchronization.code ∧
            (if state = discToErev ∨ state = convergenceProactive then state - 1 else state) = st.code) ∨
            st = .discovery) := by
          intro h
          have hi := List.find?_some hfind
          rw [Bool.and_eq_true, beq_iff_eq] at hi
          exact hno ⟨⟨i, List.mem_of_find?_eq_some hfind, hi⟩, hidle, h.symm⟩
        rw [if_neg hidle]
        dsimp only
        rw [if_neg hkept]
        rfl
    exact ⟨.inr hclock, fun _ => hclock⟩
  · split
    · exact ⟨.inr rfl, by rintro ⟨⟩⟩
    · split
      · exact ⟨.inl rfl, by rintro ⟨⟩⟩
      · dsimp only
        split <;> exact ⟨.inr rfl, fun _ => rfl⟩

theorem addNeighbour_tm (s : Node R) (value : AnnouncementValue R) (rx : Reception R) : (s.addNeighbour value rx).2.tm
    = (addToNeighbour s.env s.myAddr s.myState s.tm s.nb rx.sender value.instr value.degree rx).2.2.1 := by
  rw [addNeighbour]
  dsimp only
  split <;> rfl

/-! ### The handlers -/

end Node

end CSync
