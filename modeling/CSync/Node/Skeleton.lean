import CSync.Node.Rules

/-! The skeleton of a node: its phase, its cluster lists, the callback and the state of `RTIMER_0`, the yield the
    thread waits at and its address.

    The safety of the protocol is about these alone. This module says once what a step can do to them. A handler and
    the phase loop are a sequence of small moves, each with the guard under which the code makes it; the timer enters
    the phase of its callback; the thread past the phase loop works until it waits at another yield or the round is
    over. A move the code should not make carries the name of its defect, so that an invariant of runs without the
    defect is proved from the same moves. -/

namespace CSync

open Lib

/-- The skeleton. -/
structure Core where
  st : St
  cl : Cluster
  func : Option Callback
  status : RtimerStatus
  pc : Pc
  addr : UInt16

def Node.core {R : Type} (s : Node R) : Core :=
  ⟨s.myState, s.cl, s.tm.rt0.func, s.tm.rt0.state, s.pc, s.myAddr⟩

/-! ### Moves -/

/-- The steps of the code that the moves below name: linking the pool descriptor, emptying `CHs_list` or `CBs_list`
    without freeing its blocks, blacklisting without a free block, giving a slot before the slot loop, becoming a
    bridge in the election, joining the election from discovery with a timer that is armed for another phase, being or
    becoming a commoner with an empty `CHs_list`. -/
inductive Defect where | link | forget | resign | blacklist | assign | bridge | pass | headless
  deriving DecidableEq

/-- The callbacks that the discovery handler and the phase loop arm in a phase, with those that a
    failed schedule falls through to. -/
def arms : St → List Callback
  | .discovery => [.enterElectionRevelation]
  | .electionRevelation => [.enterElectionDeclaration, .enterConnectionRevelation,
      .enterConnectionDeclaration, .enterConvergence]
  | .electionDeclaration =>
      [.enterConnectionRevelation, .enterConnectionDeclaration, .enterConvergence]
  | .connectionRevelation => [.enterConnectionDeclaration, .enterConvergence]
  | .connectionDeclaration => [.enterConvergence]
  | _ => []

/-- The callbacks that the handlers arm when they join a phase, with the phase they enter. -/
def joins : St → List (Callback × St)
  | .discovery => [(.enterConnectionRevelation, .electionRevelation),
      (.enterConnectionRevelation, .electionDeclaration),
      (.enterConsensusSynchronization, .connectionRevelation),
      (.enterConsensusSynchronization, .consensusRevelation), (.enterIdle, .discovery)]
  | .electionRevelation => [(.enterConnectionRevelation, .electionDeclaration)]
  | .electionDeclaration => [(.enterConvergence, .connectionRevelation)]
  | .connectionDeclaration => [(.enterConsensusRevelation, .consensusConvergence)]
  | .consensusConvergence => [(.enterConsensusSynchronization, .consensusRevelation)]
  | .consensusRevelation => [(.enterIdle, .consensusSynchronization)]
  | .consensusSynchronization => [(.enterConsensusRevelation, .consensusSynchronization)]
  | _ => []

/-- One move; a defect is possible where `D` holds of it. -/
inductive Move (D : Defect → Prop) (c : Core) : Core → Prop
  /-- `rtimer_schedule` arms the timer. -/
  | arm {f} : f ∈ arms c.st → Move D c { c with func := some f, status := .scheduled }
  /-- `rtimer_schedule` finds the timer in single pass. -/
  | wake : arms c.st ≠ [] → c.status = .singlepass → Move D c { c with status := .scheduled }
  /-- `rtimer_schedule` fails. -/
  | refuse {f} : f ∈ arms c.st ++ (joins c.st).map Prod.fst → c.status ≠ .singlepass →
      Move D c { c with func := some f }
  /-- The discovery handler gives up an election. -/
  | drop : c.st = .discovery → Move D c { c with status := .inactive }
  /-- A handler arms the timer, puts it in single pass and enters a phase. -/
  | join {f st} : (f, st) ∈ joins c.st →
      Move D c { c with st := st, func := some f, status := .singlepass }
  /-- The same with a timer that was in single pass. -/
  | pass {f st} : (f, st) ∈ joins c.st → c.status = .singlepass →
      (c.st = .discovery → st = .electionRevelation ∨ st = .electionDeclaration → D .pass) →
      Move D c { c with st := st }
  /-- The connection revelation keeps a timer armed for the convergence. -/
  | keep : arms c.st ≠ [] → c.func = some .enterConvergence →
      Move D c { c with status := .scheduled }
  /-- A connection declaration heard in discovery. -/
  | declare : c.st = .discovery → c.cl.role = .cm →
      Move D c { c with st := .connectionDeclaration }
  | commoner : c.st = .discovery → (c.cl.chs = [] → D .headless) →
      Move D c { c with cl := { c.cl with role := .cm } }
  | bridge : c.cl.role = .cm → 1 < c.cl.chs.length →
      (c.st = .electionRevelation ∨ c.st = .electionDeclaration → D .bridge) →
      c.st ∈ [.electionRevelation, .electionDeclaration, .connectionRevelation] →
      Move D c { c with cl := { c.cl with role := .cb } }
  /-- `handle_lists` where it changes a list. -/
  | lists {R : Type} {value : AnnouncementValue R} {n : Neighbour R} {a : UInt16} {d : UInt8} :
      (c.st = .consensusConvergence → c.cl.role = .ch) →
      Move D c { c with cl := (handleLists c.cl c.st a d value n).2 }
  /-- A connection declaration heard in the election empties `CHs_list`. -/
  | forget : c.st = .electionDeclaration → (c.cl.chs ≠ [] → D .forget) →
      (c.cl.chs ≠ [] → c.cl.role = .cm → D .headless) →
      Move D c { c with cl := { c.cl with chs := [] } }
  /-- A cluster head gives up its role and empties `CBs_list`. -/
  | resign : c.st = .connectionDeclaration ∨ c.st = .consensusSynchronization →
      c.cl.role = .ch → (c.cl.cbs ≠ [] → D .resign) → (c.cl.chs = [] → D .headless) →
      Move D c { c with cl := { c.cl with role := .cm, cbs := [] } }
  /-- A late message in discovery links the pool descriptor. -/
  | link {R : Type} {value : AnnouncementValue R} : D .link →
      Move D c { c with cl := linkMemb value c.cl }
  /-- A commoner or a head stores a slot of the round. -/
  | slot {addr slot} : c.cl.role ≠ .cb → arms c.st = [] →
      Move D c { c with cl := setConsSlot addr slot c.cl }
  /-- A bridge gives a slot to a head. -/
  | assign {i slot} : c.st = .consensusConvergence → (c.pc = .phase → D .assign) →
      Move D c { c with cl := { c.cl with
        chsMemb := c.cl.chsMemb.modify i fun ch => { ch with consSlot := slot } } }
  | blacklist {addr} : c.st = .consensusSynchronization →
      (c.cl.blMemb.freeBlock = none → D .blacklist) →
      Move D c { c with cl := blacklistAdd addr c.cl }

/-- A sequence of moves. -/
abbrev Moves (D : Defect → Prop) : Core → Core → Prop := Relation.ReflTransGen (Move D)

theorem Moves.one {D : Defect → Prop} {c c' : Core} (h : Move D c c') : Moves D c c' := .single h

theorem Moves.keeps {D : Defect → Prop} {P : Core → Prop} (hmove : ∀ c c', P c → Move D c c' → P c') {c c' : Core} (h
    : Moves D c c') (hc : P c) : P c' := by
  induction h with
  | refl => exact hc
  | tail _ hm ih => exact hmove _ _ ih hm

end CSync
