import CSync.Apps.Lvm
import Mathlib.Algebra.Group.Nat.Defs
import Mathlib.Algebra.Ring.Int.Defs

/-! The building functions of the logic engine (`apps/antelope/lvm.c`), with every place they touch.

    The parser of a query edits the code in front of and behind what it wrote last, and the variables that the
    query names take the slots of a table. An instance is its size, its end and its error; the writes into the code
    and the indices of `variables` and `derivations` are kept beside it. What the code reads as when ranges are
    derived is brought by the call, so it can be anything. -/

namespace CSync.Lvm

/-- What the compiler and the options fix: the sizes of the types that code consists of, the bits of `int` and of
    `size_t`, `LVM_MAX_VARIABLE_ID`, and `LVM_MAX_NAME_LENGTH`. -/
structure Platform where
  nodeSize : Nat
  opSize : Nat
  operandSize : Nat
  intBits : Nat
  sizeBits : Nat
  maxId : Nat
  maxName : Nat
  nodeSize_pos : 0 < nodeSize
  opSize_pos : 0 < opSize
  operandSize_pos : 0 < operandSize
  int_le_size : intBits ≤ sizeBits
  maxId_pos : 0 < maxId
  /-- A `variable_id_t` is a byte. -/
  maxId_lt : maxId < 256

/-- The declared number of elements of `variables` and of `derivations`. -/
def Platform.elements (m : Platform) : Nat := m.maxId - 1

/-- What does not fit an `int` wraps around. -/
def Platform.int (m : Platform) (x : Int) : Int := x.bmod (2 ^ m.intBits)

/-- A conversion to `size_t`. -/
def Platform.sizeT (m : Platform) (x : Int) : Int := x % 2 ^ m.sizeBits

/-- `len` bytes at `code + off`, while `code` has `size` bytes. -/
structure Write where
  off : Int
  len : Nat
  size : Nat

/-- An instance, the tables, and the places touched so far. -/
structure State (w : Nat) where
  size : Nat
  codeEnd : Int
  error : Nat
  vars : Nat → Variable w
  derivations : Nat → Derivation w
  writes : List Write
  indices : List Nat

variable {w : Nat}

/-- A write into the code. -/
def State.write (s : State w) (off : Int) (len : Nat) : State w := { s with writes := ⟨off, len, s.size⟩ :: s.writes }

/-- The tables are indexed. -/
def State.index (s : State w) (is : List Nat) : State w := { s with indices := is ++ s.indices }

/-! ### Code -/

def lvmReset (m : Platform) (size : Nat) (s : State w) : State w :=
  { s with
    size := size, codeEnd := 0, error := 0,
    vars := fun i => if i < m.elements then ⟨[], 0⟩ else s.vars i,
    derivations := fun i => if i < m.elements then ⟨0, 0, false⟩ else s.derivations i,
    writes := ⟨0, size, size⟩ :: s.writes }

def lvmJumpToOperand (m : Platform) (s : State w) : Int × State w :=
  let codeEnd := m.int (s.codeEnd + m.opSize + m.nodeSize)
  if s.size ≤ codeEnd then (s.codeEnd, { s with error := 322 }) else (s.codeEnd, { s with codeEnd := codeEnd })

/-- The test of `lvm_shift_for_operator`; the sum and the size are compared as `size_t`. -/
def shiftRefused (m : Platform) (s : State w) (e : Int) : Prop :=
  m.sizeT s.size < m.sizeT (s.codeEnd + m.opSize) ∨ s.codeEnd ≤ e

instance (m : Platform) (s : State w) (e : Int) : Decidable (shiftRefused m s e) := inferInstanceAs (Decidable (_ ∨ _))

def lvmShiftForOperator (m : Platform) (s : State w) (e : Int) : Int × State w :=
  if shiftRefused m s e then (0, { s with error := 338 })
  else
    (m.int (s.codeEnd + m.opSize + m.nodeSize),
      { s.write (e + m.opSize + m.nodeSize) (s.codeEnd - e).toNat with codeEnd := e })

def lvmSetEnd (s : State w) (e : Int) : Int × State w :=
  if s.size ≤ e then (s.codeEnd, { s with error := 362 }) else (s.codeEnd, { s with codeEnd := e })

/-- `len` bytes are stored at the end of the code, which moves behind them. -/
def State.store (m : Platform) (s : State w) (len : Nat) : State w :=
  { s.write s.codeEnd len with codeEnd := m.int (s.codeEnd + len) }

def setType (m : Platform) (s : State w) : State w := s.store m m.nodeSize

/-- `lvm_set_op`, `lvm_set_relation` and `lvm_set_operand`; `lvm_set_long` makes an operand of its argument. -/
def setOp (m : Platform) (s : State w) : State w := (setType m s).store m m.opSize
def setRelation (m : Platform) (s : State w) : State w := (setType m s).store m m.opSize
def setOperand (m : Platform) (s : State w) : State w := (setType m s).store m m.operandSize
def setLong (m : Platform) (s : State w) : State w := setOperand m s

/-! ### Variables -/

def variableLimitReached : Status := 7

/-- The loop of `lookup` over the slots from `i` on. -/
def lookupFrom (vars : Nat → Variable w) (name : List UInt8) : Nat → Nat → Nat
  | 0, i => i
  | n + 1, i => if (vars i).name = [] ∨ (vars i).name = name then i else lookupFrom vars name n (i + 1)

/-- `lookup`: the identifier, and the slots that are read. -/
def lookup (m : Platform) (vars : Nat → Variable w) (name : List UInt8) : Nat := lookupFrom vars name m.maxId 0
def lookupReads (m : Platform) (vars : Nat → Variable w) (name : List UInt8) : List Nat :=
  List.range (min (lookup m vars name + 1) m.maxId)

/-- `lvm_register_variable`; the name is cut to the length of its field. -/
def lvmRegisterVariable (m : Platform) (s : State w) (name : List UInt8) : Status × State w :=
  let id := lookup m s.vars name
  let s := s.index (lookupReads m s.vars name)
  if id = m.maxId then (variableLimitReached, s)
  else
    let s := s.index [id]
    if (s.vars id).name = [] then
      (statusTrue, { s with
        vars := Function.update s.vars id { s.vars id with name := name.take m.maxName } })
    else (statusTrue, s)

def lvmSetVariableValue (m : Platform) (s : State w) (name : List UInt8) (value : BitVec w) : Status × State w :=
  let id := lookup m s.vars name
  let s := s.index (lookupReads m s.vars name)
  if id = m.maxId then (invalidIdentifier, s)
  else
    (statusTrue, { s.index [id] with
      vars := Function.update s.vars id { s.vars id with value := value } })

def lvmSetVariable (m : Platform) (s : State w) (name : List UInt8) : State w :=
  let id := lookup m s.vars name
  let s := s.index (lookupReads m s.vars name)
  if id < m.maxId then setOperand m s else s

/-! ### Derivations -/

/-- The elements of its array that `derive_relation` touches itself, for a comparison. -/
def comparisonIndices (maxId : Nat) (o1 o2 : Operand w) : List Nat :=
  if o1.type = .variable ∧ o2.type = .variable then []
  else
    let id := if o1.type = .variable then o1.id else o2.id
    if maxId ≤ id then [] else [id]

/-- The elements of the result that `create_intersection` and `create_union` touch: the loop passes over those that
    neither side derived. -/
def connectiveIndices (maxId : Nat) (d1 d2 : Nat → Derivation w) : List Nat :=
  (List.range maxId).filter fun i => (d1 i).derived || (d2 i).derived

/-- The elements of the array given to `derive_relation` that it touches, along the lines of `deriveRelation`. -/
def relationIndices (maxId : Nat) (fuel : Nat) (code : List (Token w)) : Option (List Nat) := do
  let (_, code) ← getType code
  let (op, code) ← getOperator code
  if op.isConnective then
    if op = .not then return []
    let (r1, d1, code) ← deriveRelation maxId fuel code cleared
    if lvmError r1 then return []
    let (r2, d2, _) ← deriveRelation maxId fuel code cleared
    if lvmError r2 then return []
    return connectiveIndices maxId d1 d2
  else
    let (o1, code) ← deriveOperand code
    let some o1 := o1 | return []
    let (o2, _) ← deriveOperand code
    let some o2 := o2 | return []
    return comparisonIndices maxId o1 o2

/-- The elements of `derivations` that `lvm_derive` touches. -/
def deriveIndices (m : Platform) (code : List (Token w)) : Option (List Nat) :=
  relationIndices m.maxId (code.length - 1) code

/-- `lvm_derive`, for code that reads as `code`. -/
def derive (m : Platform) (s : State w) (code : List (Token w)) : Option (State w) := do
  let (_, derivations) ← lvmDerive m.maxId code s.derivations
  let is ← deriveIndices m code
  return { s.index is with derivations := derivations }

/-- The elements that `lvm_get_derived_range` touches: the names it compares, and the range of the one it finds. -/
def rangeIndices (m : Platform) (vars : Nat → Variable w) (name : List UInt8) : List Nat :=
  match findName vars name m.maxId 0 with
  | some i => i :: List.range (i + 1)
  | none => List.range m.maxId

def getDerivedRange (m : Platform) (s : State w) (name : List UInt8) : State w :=
  s.index (rangeIndices m s.vars name)

/-- The calls of a client. -/
inductive Call (w : Nat) where
  | reset (size : Nat)
  | jumpToOperand
  | shiftForOperator (e : Int)
  | setEnd (e : Int)
  | setType
  | setOp
  | setRelation
  | setOperand
  | setLong
  | setVariable (name : List UInt8)
  | registerVariable (name : List UInt8)
  | setVariableValue (name : List UInt8) (value : BitVec w)
  | derive (code : List (Token w))
  | getDerivedRange (name : List UInt8)

def Platform.isInt (m : Platform) (x : Int) : Prop := m.int x = x

instance (m : Platform) (x : Int) : Decidable (m.isInt x) := inferInstanceAs (Decidable (_ = _))

/-- A call; its numbers are `int`s, and derivation reads no further than the code. -/
def call (m : Platform) (s : State w) : Call w → Option (State w)
  | .reset size => if m.isInt size then some (lvmReset m size s) else none
  | .jumpToOperand => some (lvmJumpToOperand m s).2
  | .shiftForOperator e => if m.isInt e then some (lvmShiftForOperator m s e).2 else none
  | .setEnd e => if m.isInt e then some (lvmSetEnd s e).2 else none
  | .setType => some (setType m s)
  | .setOp => some (setOp m s)
  | .setRelation => some (setRelation m s)
  | .setOperand => some (setOperand m s)
  | .setLong => some (setLong m s)
  | .setVariable name => some (lvmSetVariable m s name)
  | .registerVariable name => some (lvmRegisterVariable m s name).2
  | .setVariableValue name value => some (lvmSetVariableValue m s name value).2
  | .derive code => derive m s code
  | .getDerivedRange name => some (getDerivedRange m s name)

end CSync.Lvm
