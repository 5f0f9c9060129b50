import Mathlib.Algebra.Group.Nat.Defs
import Mathlib.Tactic.Common

/-! The enumerations of the clustering protocol (`core/net/c-sync/c-sync.h`, `core/sys/rtimer.h`) and the arithmetic
    of `double`, which the compiler's run-time library supplies and which the model therefore takes as a parameter. -/

namespace CSync

/-- The phases of a node, `state_t`. -/
inductive St where
  | discovery | electionRevelation | electionDeclaration | connectionRevelation
  | connectionDeclaration | consensusConvergence | consensusRevelation
  | consensusSynchronization | idle | byzantineConsensus
  deriving DecidableEq

/-- The numbers of `state_t`, as they travel in the `instr` field of an announcement. -/
def St.code : St → UInt8
  | .discovery => 0
  | .electionRevelation => 2
  | .electionDeclaration => 4
  | .connectionRevelation => 6
  | .connectionDeclaration => 8
  | .consensusConvergence => 10
  | .consensusRevelation => 12
  | .consensusSynchronization => 14
  | .idle => 16
  | .byzantineConsensus => 18

/-- `DISC_TO_EREV` and `CONVERGENCE_PROACTIVE` of `instr_t`. -/
def discToErev : UInt8 := 1
def convergenceProactive : UInt8 := 11

/-- `role_t`: commoner, cluster head, cluster bridge. -/
inductive Role where | cm | ch | cb
  deriving DecidableEq

/-- The `enter_*` functions, the only callbacks the protocol arms a real-time timer with. -/
inductive Callback where
  | enterElectionRevelation | enterElectionDeclaration | enterConnectionRevelation
  | enterConnectionDeclaration | enterConvergence | enterConvergenceSlot
  | enterConsensusRevelation | enterConsensusSynchronization | enterSynchronizationSlot
  | enterIdle | enterDiscovery
  deriving DecidableEq

/-- The operations on `double` that the code uses. Nothing is assumed of them here; a result that
    needs a law of them says so in a hypothesis. -/
class SoftDouble (R : Type) where
  /-- Conversion of an integer. -/
  ofNat : Nat → R
  /-- The literal `m / 10 ^ e`. -/
  dec : Nat → Nat → R
  add : R → R → R
  sub : R → R → R
  mul : R → R → R
  div : R → R → R
  lt : R → R → Bool
  isZero : R → Bool
  toU16 : R → UInt16
  toU32 : R → UInt32

/-- Exact arithmetic, for concrete runs in which every `double` is a small integer. -/
instance : SoftDouble Rat where
  ofNat n := n
  dec m e := mkRat m (10 ^ e)
  add a b := a + b
  sub a b := a - b
  mul a b := a * b
  div a b := a / b
  lt a b := decide (a < b)
  isZero a := a == 0
  toU16 a := UInt16.ofNat a.floor.toNat
  toU32 a := UInt32.ofNat a.floor.toNat

end CSync
