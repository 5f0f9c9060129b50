import Mathlib.Logic.Function.Basic

/-! The logic engine of Antelope (`apps/antelope/lvm.c`).

    A predicate is code in prefix notation, which one function runs for a tuple and another one reads to derive
    ranges of the variables. The code is the list of what the instance still has to read: a node type, an
    operator or an operand at a time. A `long` has `w` bits; a variable takes the first byte of the value of its
    operand as its identifier, on a little-endian machine. -/

namespace CSync.Lvm

/-- `lvm_status_t`. -/
abbrev Status := Nat
def statusFalse : Status := 0
def statusTrue : Status := 1
def invalidIdentifier : Status := 2
def semanticError : Status := 3
def mathError : Status := 4
def executionError : Status := 8
def derivationError : Status := 9

def lvmError (status : Status) : Bool := 2 ≤ status

inductive NodeType where
  | arithOp | operand | cmpOp
deriving DecidableEq

/-- `operator_t`: arithmetic, comparisons and connectives. -/
inductive Operator where
  | add | sub | mul | div
  | eq | neq | ge | geq | le | leq
  | and | or | not
deriving DecidableEq

def Operator.isConnective : Operator → Bool
  | .and | .or | .not => true
  | _ => false

inductive OperandType where
  | variable | long
deriving DecidableEq

/-- `operand_t`; `value` is the whole of the union. -/
structure Operand (w : Nat) where
  type : OperandType
  value : BitVec w
deriving DecidableEq

def Operand.id {w : Nat} (o : Operand w) : Nat := o.value.toNat % 256

/-- What the functions that read code find. -/
inductive Token (w : Nat) where
  | nodeType (type : NodeType)
  | operator (op : Operator)
  | operand (o : Operand w)
deriving DecidableEq

structure Variable (w : Nat) where
  name : List UInt8
  value : BitVec w

structure Derivation (w : Nat) where
  max : BitVec w
  min : BitVec w
  derived : Bool

variable {w : Nat}

def getType : List (Token w) → Option (NodeType × List (Token w))
  | .nodeType type :: code => some (type, code)
  | _ => none

def getOperator : List (Token w) → Option (Operator × List (Token w))
  | .operator op :: code => some (op, code)
  | _ => none

def getOperand : List (Token w) → Option (Operand w × List (Token w))
  | .operand o :: code => some (o, code)
  | _ => none

def operandToLong (vars : Nat → Variable w) (o : Operand w) : BitVec w :=
  if o.type = .long then o.value else (vars o.id).value

/-! ### Execution -/

/-- The switch over an arithmetic operator in `eval_expr`. -/
def arithmetic (op : Operator) (l1 l2 : BitVec w) : Status × BitVec w :=
  match op with
  | .add => (statusTrue, l1 + l2)
  | .sub => (statusTrue, l1 - l2)
  | .mul => (statusTrue, l1 * l2)
  | .div => if l2 = 0 then (mathError, 0) else (statusTrue, l1.sdiv l2)
  | _ => (executionError, 0)

/-- The switch over a comparison in `eval_logic`. -/
def comparison (op : Operator) (l1 l2 : BitVec w) : Status :=
  match op with
  | .eq => if l1 = l2 then statusTrue else statusFalse
  | .neq => if l1 ≠ l2 then statusTrue else statusFalse
  | .ge => if l2.slt l1 then statusTrue else statusFalse
  | .geq => if l2.sle l1 then statusTrue else statusFalse
  | .le => if l1.slt l2 then statusTrue else statusFalse
  | .leq => if l1.sle l2 then statusTrue else statusFalse
  | _ => executionError

/-- An argument of an arithmetic operator or of a comparison: its status, its value, and the code behind it. -/
def argument (evalExpr : Operator → List (Token w) → Option (Status × BitVec w × List (Token w)))
    (vars : Nat → Variable w) (code : List (Token w)) : Option (Status × BitVec w × List (Token w)) := do
  let (type, code) ← getType code
  match type with
  | .arithOp =>
    let (op, code) ← getOperator code
    evalExpr op code
  | .operand =>
    let (o, code) ← getOperand code
    some (statusTrue, operandToLong vars o, code)
  | .cmpOp => some (semanticError, 0, code)

/-- `eval_expr`; the fuel bounds the depth of the code. -/
def evalExpr (vars : Nat → Variable w) : Nat → Operator → List (Token w) →
    Option (Status × BitVec w × List (Token w))
  | 0, _, _ => none
  | fuel + 1, op, code => do
    let (r1, l1, code) ← argument (evalExpr vars fuel) vars code
    if lvmError r1 then return (r1, 0, code)
    let (r2, l2, code) ← argument (evalExpr vars fuel) vars code
    if lvmError r2 then return (r2, 0, code)
    let (status, result) := arithmetic op l1 l2
    return (status, result, code)

/-- An argument of a connective. -/
def logicArgument (evalLogic : Operator → List (Token w) → Option (Status × List (Token w)))
    (code : List (Token w)) : Option (Status × List (Token w)) := do
  let (type, code) ← getType code
  if type ≠ .cmpOp then return (semanticError, code)
  let (op, code) ← getOperator code
  evalLogic op code

def evalLogic (vars : Nat → Variable w) : Nat → Operator → List (Token w) → Option (Status × List (Token w))
  | 0, _, _ => none
  | fuel + 1, op, code =>
    if op.isConnective then do
      let (r1, code) ← logicArgument (evalLogic vars fuel) code
      if lvmError r1 then return (r1, code)
      if op = .not then return (if r1 = statusFalse then statusTrue else statusFalse, code)
      let (r2, code) ← logicArgument (evalLogic vars fuel) code
      if lvmError r2 then return (r2, code)
      if op = .and then return (if r1 = statusTrue ∧ r2 = statusTrue then statusTrue else statusFalse, code)
      return (if r1 = statusTrue ∨ r2 = statusTrue then statusTrue else statusFalse, code)
    else do
      let (r1, l1, code) ← argument (evalExpr vars fuel) vars code
      if lvmError r1 then return (r1, code)
      let (r2, l2, code) ← argument (evalExpr vars fuel) vars code
      if lvmError r2 then return (r2, code)
      return (comparison op l1 l2, code)

def lvmExecute (vars : Nat → Variable w) (code : List (Token w)) : Option Status := do
  let (type, rest) ← getType code
  if type = .cmpOp then
    let (op, rest) ← getOperator rest
    let (status, _) ← evalLogic vars code.length op rest
    return status
  else return executionError

def lvmSetType (code : List (Token w)) (type : NodeType) : List (Token w) := code ++ [.nodeType type]

def lvmSetOp (code : List (Token w)) (op : Operator) : List (Token w) := lvmSetType code .arithOp ++ [.operator op]
def lvmSetRelation (code : List (Token w)) (op : Operator) : List (Token w) := lvmSetType code .cmpOp ++ [.operator op]
def lvmSetOperand (code : List (Token w)) (o : Operand w) : List (Token w) := lvmSetType code .operand ++ [.operand o]

/-! ### Derivation -/

/-- A derivation array after `memset`. -/
def cleared : Nat → Derivation w := fun _ => ⟨0, 0, false⟩

/-- `create_intersection`, for one variable. -/
def intersectionOf (result d1 d2 : Derivation w) : Derivation w :=
  if !d1.derived && !d2.derived then result
  else if d1.derived && !d2.derived then ⟨d1.max, d1.min, true⟩
  else if !d1.derived && d2.derived then ⟨d2.max, d2.min, true⟩
  else ⟨if d1.max.slt d2.max then d1.max else d2.max, if d2.min.slt d1.min then d1.min else d2.min, true⟩

/-- `create_union`, for one variable. -/
def unionOf (result d1 d2 : Derivation w) : Derivation w :=
  if !d1.derived && !d2.derived then result
  else if d1.derived && !d2.derived then ⟨d1.max, d1.min, true⟩
  else if !d1.derived && d2.derived then ⟨d2.max, d2.min, true⟩
  else ⟨if d1.max.slt d2.max then d2.max else d1.max, if d2.min.slt d1.min then d2.min else d1.min, true⟩

/-- `create_intersection` and `create_union`, for the variables below `LVM_MAX_VARIABLE_ID`. -/
def createIntersection (maxId : Nat) (result d1 d2 : Nat → Derivation w) : Nat → Derivation w := fun i =>
  if i < maxId then intersectionOf (result i) (d1 i) (d2 i) else result i
def createUnion (maxId : Nat) (result d1 d2 : Nat → Derivation w) : Nat → Derivation w := fun i =>
  if i < maxId then unionOf (result i) (d1 i) (d2 i) else result i

/-- The switch over a comparison in `derive_relation`. -/
def rangeOf (op : Operator) (value : BitVec w) : Status × Derivation w :=
  match op with
  | .eq => (statusTrue, ⟨value, value, true⟩)
  | .ge => (statusTrue, ⟨BitVec.intMax w, value + 1, true⟩)
  | .geq => (statusTrue, ⟨BitVec.intMax w, value, true⟩)
  | .le => (statusTrue, ⟨value - 1, BitVec.intMin w, true⟩)
  | .leq => (statusTrue, ⟨value, BitVec.intMin w, true⟩)
  | _ => (derivationError, ⟨BitVec.intMax w, BitVec.intMin w, false⟩)

def deriveComparison (maxId : Nat) (op : Operator) (o1 o2 : Operand w) (derivations : Nat → Derivation w) :
    Status × (Nat → Derivation w) :=
  if o1.type = .variable ∧ o2.type = .variable then (derivationError, derivations)
  else
    -- which of the operands is the variable
    let id := if o1.type = .variable then o1.id else o2.id
    let value := if o1.type = .variable then o2.value else o1.value
    if maxId ≤ id then (derivationError, derivations)
    else
      let (status, derivation) := rangeOf op value
      (status, Function.update derivations id
        { derivation with derived := derivation.derived || (derivations id).derived })

/-- An operand of a comparison in `derive_relation`. -/
def deriveOperand (code : List (Token w)) : Option (Option (Operand w) × List (Token w)) := do
  let (type, code) ← getType code
  if type = .operand then
    let (o, code) ← getOperand code
    return (some o, code)
  else return (none, code)

/-- `derive_relation`: the status, the derivations, and the code behind. -/
def deriveRelation (maxId : Nat) : Nat → List (Token w) → (Nat → Derivation w) →
    Option (Status × (Nat → Derivation w) × List (Token w))
  | 0, _, _ => none
  | fuel + 1, code, derivations => do
    let (_, code) ← getType code
    let (op, code) ← getOperator code
    if op.isConnective then
      if op = .not then return (derivationError, derivations, code)
      let (r1, d1, code) ← deriveRelation maxId fuel code cleared
      if lvmError r1 then return (derivationError, derivations, code)
      let (r2, d2, code) ← deriveRelation maxId fuel code cleared
      if lvmError r2 then return (derivationError, derivations, code)
      if op = .and then return (statusTrue, createIntersection maxId derivations d1 d2, code)
      return (statusTrue, createUnion maxId derivations d1 d2, code)
    else
      let (o1, code) ← deriveOperand code
      let some o1 := o1 | return (derivationError, derivations, code)
      let (o2, code) ← deriveOperand code
      let some o2 := o2 | return (derivationError, derivations, code)
      let (status, derivations) := deriveComparison maxId op o1 o2 derivations
      return (status, derivations, code)

def lvmDerive (maxId : Nat) (code : List (Token w)) (derivations : Nat → Derivation w) :
    Option (Status × (Nat → Derivation w)) :=
  (deriveRelation maxId code.length code derivations).map fun r => (r.1, r.2.1)

/-- The loop of `lvm_get_derived_range` over the names, from `i` on. -/
def findName (vars : Nat → Variable w) (name : List UInt8) : Nat → Nat → Option Nat
  | 0, _ => none
  | n + 1, i => if (vars i).name = name then some i else findName vars name n (i + 1)

/-- `lvm_get_derived_range`: the status, and `min` and `max` if it is `TRUE`. -/
def lvmGetDerivedRange (maxId : Nat) (vars : Nat → Variable w) (derivations : Nat → Derivation w)
    (name : List UInt8) : Status × Option (BitVec w × BitVec w) :=
  match findName vars name maxId 0 with
  | some i =>
    if (derivations i).derived then (statusTrue, some ((derivations i).min, (derivations i).max)) else (derivationError, none)
  | none => (invalidIdentifier, none)

end CSync.Lvm
