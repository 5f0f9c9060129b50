import CSync.Apps.Lvm
import CSync.Lib.Ranges
import Mathlib.Tactic.Ring

/-! Ranges derived from predicates of Antelope are sound, up to two slips.

    `Pred` is the syntax of predicates, with what they mean (`status`) and which ranges they give (`ranges`); the
    engine does on the code of a predicate what these say of its tree. A range loses tuples in two ways: where the
    constant stands on the left of an inequality, or both operands are constants, `derive_relation` takes the wrong
    bound or the wrong variable; and `create_union` keeps the range of a variable that only one side constrains. -/

namespace CSync.Lvm
open Lib List Function Option

variable {w : Nat}

inductive Comparison where
  | eq | neq | ge | geq | le | leq
deriving DecidableEq

def Comparison.toOperator : Comparison → Operator
  | .eq => .eq
  | .neq => .neq
  | .ge => .ge
  | .geq => .geq
  | .le => .le
  | .leq => .leq

/-- The connectives of two arguments. -/
inductive Connective where
  | and | or
deriving DecidableEq

def Connective.toOperator : Connective → Operator
  | .and => .and
  | .or => .or

/-- What a comparison compares. -/
inductive Expr (w : Nat) where
  | operand (o : Operand w)
  | operation (op : Operator) (e1 e2 : Expr w)

/-- Predicates. -/
inductive Pred (w : Nat) where
  | compare (c : Comparison) (e1 e2 : Expr w)
  | connect (c : Connective) (p q : Pred w)
  | not (p : Pred w)

/-! ### Code -/

/-- A program is written from the front, with the functions the parser of queries uses. -/
def Expr.write : Expr w → List (Token w) → List (Token w)
  | .operand o, code => lvmSetOperand code o
  | .operation op e1 e2, code => e2.write (e1.write (lvmSetOp code op))

def Pred.write : Pred w → List (Token w) → List (Token w)
  | .compare c e1 e2, code => e2.write (e1.write (lvmSetRelation code c.toOperator))
  | .connect c p q, code => q.write (p.write (lvmSetRelation code c.toOperator))
  | .not p, code => p.write (lvmSetRelation code .not)

/-- The tokens of an expression and of a predicate. -/
def Expr.tokens : Expr w → List (Token w)
  | .operand o => [.nodeType .operand, .operand o]
  | .operation op e1 e2 => .nodeType .arithOp :: .operator op :: (e1.tokens ++ e2.tokens)

def Pred.tokens : Pred w → List (Token w)
  | .compare c e1 e2 => .nodeType .cmpOp :: .operator c.toOperator :: (e1.tokens ++ e2.tokens)
  | .connect c p q => .nodeType .cmpOp :: .operator c.toOperator :: (p.tokens ++ q.tokens)
  | .not p => .nodeType .cmpOp :: .operator .not :: p.tokens

theorem Expr.write_eq (e : Expr w) : ∀ code, e.write code = code ++ e.tokens := by
  induction e with
  | operand o =>
    intro code
    simp [Expr.write, Expr.tokens, lvmSetOperand, lvmSetType]
  | operation op e1 e2 ih1 ih2 =>
    intro code
    rw [Expr.write, ih2, ih1]
    simp [Expr.tokens, lvmSetOp, lvmSetType]

theorem Pred.write_eq (p : Pred w) : ∀ code, p.write code = code ++ p.tokens := by
  induction p with
  | compare c e1 e2 =>
    intro code
    rw [Pred.write, Expr.write_eq, Expr.write_eq]
    simp [Pred.tokens, lvmSetRelation, lvmSetType]
  | connect c p q ihp ihq =>
    intro code
    rw [Pred.write, ihq, ihp]
    simp [Pred.tokens, lvmSetRelation, lvmSetType]
  | not p ih =>
    intro code
    rw [Pred.write, ih]
    simp [Pred.tokens, lvmSetRelation, lvmSetType]

/-! ### What a predicate means -/

/-- The status and the value of an expression. -/
def Expr.value (vars : Nat → Variable w) : Expr w → Status × BitVec w
  | .operand o => (statusTrue, operandToLong vars o)
  | .operation op e1 e2 =>
    if lvmError (e1.value vars).1 then ((e1.value vars).1, 0)
    else if lvmError (e2.value vars).1 then ((e2.value vars).1, 0)
    else arithmetic op (e1.value vars).2 (e2.value vars).2

/-- The status of a connective whose arguments are no errors. -/
def connectiveStatus (c : Connective) (r1 r2 : Status) : Status :=
  match c with
  | .and => if r1 = statusTrue ∧ r2 = statusTrue then statusTrue else statusFalse
  | .or => if r1 = statusTrue ∨ r2 = statusTrue then statusTrue else statusFalse

/-- The status of a predicate. -/
def Pred.status (vars : Nat → Variable w) : Pred w → Status
  | .compare c e1 e2 =>
    if lvmError (e1.value vars).1 then (e1.value vars).1
    else if lvmError (e2.value vars).1 then (e2.value vars).1
    else comparison c.toOperator (e1.value vars).2 (e2.value vars).2
  | .connect c p q =>
    if lvmError (p.status vars) then p.status vars
    else if lvmError (q.status vars) then q.status vars
    else connectiveStatus c (p.status vars) (q.status vars)
  | .not p =>
    if lvmError (p.status vars) then p.status vars
    else if p.status vars = statusFalse then statusTrue else statusFalse

theorem argument_tokens (vars : Nat → Variable w) (e : Expr w) : ∀ (fuel : Nat) (rest : List (Token w)),
    e.tokens.length ≤ fuel → ∃ code, argument (evalExpr vars fuel) vars (e.tokens ++ rest) =
      some ((e.value vars).1, (e.value vars).2, code) ∧ (lvmError (e.value vars).1 = false → code = rest) := by
  induction e with
  | operand o =>
    intro fuel rest _
    exact ⟨rest, rfl, fun _ => rfl⟩
  | operation op e1 e2 ih1 ih2 =>
    intro fuel rest hfuel
    rw [Expr.tokens, length_cons, length_cons, length_append] at hfuel
    obtain ⟨fuel, rfl⟩ : ∃ n, fuel = n + 1 := ⟨fuel - 1, by omega⟩
    obtain ⟨code1, harg1, hcode1⟩ := ih1 fuel (e2.tokens ++ rest) (by omega)
    have hread : argument (evalExpr vars (fuel + 1)) vars ((Expr.operation op e1 e2).tokens ++ rest) =
        evalExpr vars (fuel + 1) op (e1.tokens ++ (e2.tokens ++ rest)) := by
      rw [Expr.tokens, cons_append, cons_append, append_assoc]
      rfl
    rw [hread, evalExpr, harg1, Expr.value]
    by_cases herror1 : lvmError (e1.value vars).1
    · exact ⟨code1, by simp [herror1], fun h => by simp [herror1] at h⟩
    · obtain rfl := hcode1 (by simpa using herror1)
      obtain ⟨code2, harg2, hcode2⟩ := ih2 fuel rest (by omega)
      by_cases herror2 : lvmError (e2.value vars).1
      · exact ⟨code2, by simp [herror1, herror2, harg2], fun h => by simp [herror1, herror2] at h⟩
      · obtain rfl := hcode2 (by simpa using herror2)
        exact ⟨code2, by simp [herror1, herror2, harg2], fun _ => rfl⟩

theorem isConnective_comparison (c : Comparison) : c.toOperator.isConnective = false := by cases c <;> rfl

theorem isConnective_connective (c : Connective) : c.toOperator.isConnective = true := by cases c <;> rfl

theorem logicArgument_tokens (vars : Nat → Variable w) (p : Pred w) : ∀ (fuel : Nat) (rest : List (Token w)),
    p.tokens.length ≤ fuel → ∃ code, logicArgument (evalLogic vars fuel) (p.tokens ++ rest) =
      some (p.status vars, code) ∧ (lvmError (p.status vars) = false → code = rest) := by
  induction p with
  | compare c e1 e2 =>
    intro fuel rest hfuel
    rw [Pred.tokens, length_cons, length_cons, length_append] at hfuel
    obtain ⟨fuel, rfl⟩ : ∃ n, fuel = n + 1 := ⟨fuel - 1, by omega⟩
    have hread : logicArgument (evalLogic vars (fuel + 1)) ((Pred.compare c e1 e2).tokens ++ rest) =
        evalLogic vars (fuel + 1) c.toOperator (e1.tokens ++ (e2.tokens ++ rest)) := by
      rw [Pred.tokens, cons_append, cons_append, append_assoc]
      rfl
    obtain ⟨code1, harg1, hcode1⟩ := argument_tokens vars e1 fuel (e2.tokens ++ rest) (by omega)
    rw [hread, evalLogic, isConnective_comparison, if_neg Bool.false_ne_true, harg1, Pred.status]
    by_cases herror1 : lvmError (e1.value vars).1
    · exact ⟨code1, by simp [herror1], fun h => by simp [herror1] at h⟩
    · obtain rfl := hcode1 (by simpa using herror1)
      obtain ⟨code2, harg2, hcode2⟩ := argument_tokens vars e2 fuel rest (by omega)
      by_cases herror2 : lvmError (e2.value vars).1
      · exact ⟨code2, by simp [herror1, herror2, harg2], fun h => by simp [herror1, herror2] at h⟩
      · obtain rfl := hcode2 (by simpa using herror2)
        exact ⟨code2, by simp [herror1, herror2, harg2], fun _ => rfl⟩
  | connect c p q ihp ihq =>
    intro fuel rest hfuel
    rw [Pred.tokens, length_cons, length_cons, length_append] at hfuel
    obtain ⟨fuel, rfl⟩ : ∃ n, fuel = n + 1 := ⟨fuel - 1, by omega⟩
    have hread : logicArgument (evalLogic vars (fuel + 1)) ((Pred.connect c p q).tokens ++ rest) =
        evalLogic vars (fuel + 1) c.toOperator (p.tokens ++ (q.tokens ++ rest)) := by
      rw [Pred.tokens, cons_append, cons_append, append_assoc]
      rfl
    obtain ⟨code1, harg1, hcode1⟩ := ihp fuel (q.tokens ++ rest) (by omega)
    rw [hread, evalLogic, if_pos (isConnective_connective c), harg1, Pred.status]
    by_cases herror1 : lvmError (p.status vars)
    · exact ⟨code1, by simp [herror1], fun h => by simp [herror1] at h⟩
    · obtain rfl := hcode1 (by simpa using herror1)
      obtain ⟨code2, harg2, hcode2⟩ := ihq fuel rest (by omega)
      by_cases herror2 : lvmError (q.status vars)
      · refine ⟨code2, ?_, fun h => by simp [herror1, herror2] at h⟩
        cases c <;> simp [herror1, herror2, harg2, Connective.toOperator]
      · obtain rfl := hcode2 (by simpa using herror2)
        refine ⟨code2, ?_, fun _ => rfl⟩
        cases c <;> simp [herror1, herror2, harg2, Connective.toOperator, connectiveStatus]
  | not p ih =>
    intro fuel rest hfuel
    rw [Pred.tokens, length_cons, length_cons] at hfuel
    obtain ⟨fuel, rfl⟩ : ∃ n, fuel = n + 1 := ⟨fuel - 1, by omega⟩
    have hread : logicArgument (evalLogic vars (fuel + 1)) (p.not.tokens ++ rest) =
        evalLogic vars (fuel + 1) .not (p.tokens ++ rest) := by
      rfl
    obtain ⟨code1, harg1, hcode1⟩ := ih fuel rest (by omega)
    rw [hread, evalLogic, if_pos (by rfl), harg1, Pred.status]
    by_cases herror1 : lvmError (p.status vars)
    · exact ⟨code1, by simp [herror1], fun h => by simp [herror1] at h⟩
    · obtain rfl := hcode1 (by simpa using herror1)
      exact ⟨code1, by simp [herror1], fun _ => rfl⟩

theorem tokens_eq (p : Pred w) : ∃ op code, p.tokens = .nodeType .cmpOp :: .operator op :: code := by
  cases p <;> exact ⟨_, _, rfl⟩

theorem lvmExecute_write (vars : Nat → Variable w) (p : Pred w) :
    lvmExecute vars (p.write []) = some (p.status vars) := by
  obtain ⟨rest, hrun, _⟩ := logicArgument_tokens vars p _ [] le_rfl
  obtain ⟨op, code, htokens⟩ := tokens_eq p
  rw [p.write_eq, nil_append]
  rw [append_nil] at hrun
  generalize hfuel : p.tokens.length = fuel at hrun
  rw [htokens] at hrun hfuel ⊢
  have hlogic : evalLogic vars fuel op code = some (p.status vars, rest) := hrun
  simp [lvmExecute, getType, getOperator, hfuel, hlogic]

/-! ### The ranges of a predicate -/

def rangesIn (maxId : Nat) (d : Nat → Derivation w) (i : Nat) : Option (Range Int) :=
  if i < maxId ∧ (d i).derived then some ⟨(d i).min.toInt, (d i).max.toInt⟩ else none

/-- The range of the variable of a comparison, as `derive_relation` finds it. -/
def comparisonRanges (maxId : Nat) (c : Comparison) : Expr w → Expr w → Option (Nat → Option (Range Int))
  | .operand o1, .operand o2 =>
    let r := deriveComparison maxId c.toOperator o1 o2 cleared
    if lvmError r.1 then none else some (rangesIn maxId r.2)
  | _, _ => none

/-- Both sides of a conjunction hold, one of a disjunction. -/
def connectRanges : Connective → Option (Range Int) → Option (Range Int) → Option (Range Int)
  | .and => meetRange
  | .or => joinRange

/-- The ranges of a predicate, if there are any to be derived. -/
def Pred.ranges (maxId : Nat) : Pred w → Option (Nat → Option (Range Int))
  | .compare c e1 e2 => comparisonRanges maxId c e1 e2
  | .connect c p q =>
    (p.ranges maxId).bind fun D => (q.ranges maxId).map fun E => fun i => connectRanges c (D i) (E i)
  | .not _ => none

theorem toInt_min (a b : BitVec w) : (if a.slt b then a else b).toInt = min a.toInt b.toInt := by
  split
  next h => exact (min_eq_left (BitVec.slt_iff_toInt_lt.mp h).le).symm
  next h => exact (min_eq_right (not_lt.mp fun hlt => h (BitVec.slt_iff_toInt_lt.mpr hlt))).symm

theorem toInt_max (a b : BitVec w) : (if b.slt a then a else b).toInt = max a.toInt b.toInt := by
  split
  next h => exact (max_eq_left (BitVec.slt_iff_toInt_lt.mp h).le).symm
  next h => exact (max_eq_right (not_lt.mp fun hlt => h (BitVec.slt_iff_toInt_lt.mpr hlt))).symm

variable {maxId : Nat} {op : Operator} {c : Comparison} {x : BitVec w} {D : Nat → Option (Range Int)}
variable {vars : Nat → Variable w}

theorem rangesIn_intersection (d1 d2 : Nat → Derivation w) (i : Nat) : rangesIn maxId (createIntersection maxId
    cleared d1 d2) i = meetRange (rangesIn maxId d1 i) (rangesIn maxId d2 i) := by
  by_cases hi : i < maxId
  · simp only [rangesIn, createIntersection, hi, if_true, true_and, intersectionOf]
    cases h1 : (d1 i).derived <;> cases h2 : (d2 i).derived <;> simp [meetRange, cleared]
    exact ⟨toInt_max .., toInt_min ..⟩
  · simp [rangesIn, hi, meetRange]

theorem rangesIn_union (d1 d2 : Nat → Derivation w) (i : Nat) : rangesIn maxId (createUnion maxId cleared d1 d2) i =
      joinRange (rangesIn maxId d1 i) (rangesIn maxId d2 i) := by
  by_cases hi : i < maxId
  · simp only [rangesIn, createUnion, hi, if_true, true_and, unionOf]
    cases h1 : (d1 i).derived <;> cases h2 : (d2 i).derived <;> simp [joinRange, cleared]
    exact ⟨(toInt_min ..).trans (min_comm ..), (toInt_max ..).trans (max_comm ..)⟩
  · simp [rangesIn, hi, joinRange]

theorem deriveRelation_connective (maxId fuel : Nat) (hop : op.isConnective = true) (hnot : op ≠ .not)
    (code : List (Token w)) (d : Nat → Derivation w) :
    deriveRelation maxId (fuel + 1) (.nodeType .cmpOp :: .operator op :: code) d =
      (deriveRelation maxId fuel code cleared).bind fun r1 => if lvmError r1.1 then some (derivationError, d, r1.2.2)
        else (deriveRelation maxId fuel r1.2.2 cleared).bind fun r2 => if lvmError r2.1 then some
          (derivationError, d, r2.2.2) else some
            (statusTrue, if op = .and then createIntersection maxId d r1.2.1 r2.2.1 else createUnion maxId d r1.2.1
              r2.2.1, r2.2.2) := by
  rw [deriveRelation]
  simp only [getType, getOperator, bind_eq_bind, bind_some, hop, if_true, if_neg hnot]
  by_cases hand : op = .and
  · simp only [if_pos hand, Option.pure_def]
  · simp only [if_neg hand, Option.pure_def]

theorem deriveRelation_comparison (maxId fuel : Nat) (hop : op.isConnective = false) (code : List (Token w))
    (d : Nat → Derivation w) :
    deriveRelation maxId (fuel + 1) (.nodeType .cmpOp :: .operator op :: code) d =
      (deriveOperand code).bind fun r1 => r1.1.elim (some (derivationError, d, r1.2)) fun o1 =>
        (deriveOperand r1.2).bind fun r2 => r2.1.elim (some (derivationError, d, r2.2)) fun o2 => some
          ((deriveComparison maxId op o1 o2 d).1, (deriveComparison maxId op o1 o2 d).2, r2.2) := by
  rw [deriveRelation]
  simp only [getType, getOperator, bind_eq_bind, bind_some, hop, if_neg Bool.false_ne_true]
  refine bind_congr fun r1 _ => ?_
  obtain ⟨o1, code⟩ := r1
  cases o1 with
  | none => rfl
  | some o1 =>
    refine bind_congr fun r2 _ => ?_
    obtain ⟨o2, code⟩ := r2
    cases o2 <;> rfl

theorem deriveRelation_tokens (maxId : Nat) (p : Pred w) : ∀ (fuel : Nat) (rest : List (Token w)),
    p.tokens.length ≤ fuel → ∃ status d code, deriveRelation maxId fuel (p.tokens ++ rest) cleared =
      some (status, d, code) ∧ p.ranges maxId = (if lvmError status then none else some (rangesIn maxId d)) ∧
      (lvmError status = false → code = rest) := by
  induction p with
  | compare c e1 e2 =>
    intro fuel rest hfuel
    rw [Pred.tokens, length_cons, length_cons, length_append] at hfuel
    obtain ⟨fuel, rfl⟩ : ∃ n, fuel = n + 1 := ⟨fuel - 1, by omega⟩
    rw [Pred.tokens, cons_append, cons_append, append_assoc,
      deriveRelation_comparison maxId fuel (isConnective_comparison c), Pred.ranges]
    cases e1 with
    | operation op e11 e12 =>
      exact ⟨derivationError, cleared, .operator op :: ((e11.tokens ++ e12.tokens) ++ (e2.tokens ++ rest)), rfl, rfl,
        nofun⟩
    | operand o1 =>
      cases e2 with
      | operation op e21 e22 =>
        exact ⟨derivationError, cleared, .operator op :: ((e21.tokens ++ e22.tokens) ++ rest), rfl, rfl,
          nofun⟩
      | operand o2 =>
        exact ⟨(deriveComparison maxId c.toOperator o1 o2 cleared).1, (deriveComparison maxId c.toOperator o1 o2 cleared).2,
          rest, rfl, rfl, fun _ => rfl⟩
  | connect c p q ihp ihq =>
    intro fuel rest hfuel
    rw [Pred.tokens, length_cons, length_cons, length_append] at hfuel
    obtain ⟨fuel, rfl⟩ : ∃ n, fuel = n + 1 := ⟨fuel - 1, by omega⟩
    obtain ⟨r1, d1, code1, hrun1, hranges1, hcode1⟩ := ihp fuel (q.tokens ++ rest) (by omega)
    have hnot : c.toOperator ≠ .not := by cases c <;> decide
    rw [Pred.tokens, cons_append, cons_append, append_assoc,
      deriveRelation_connective maxId fuel (isConnective_connective c) hnot, hrun1, bind_some, Pred.ranges]
    by_cases herror1 : lvmError r1
    · refine ⟨derivationError, cleared, code1, ?_, ?_, nofun⟩
      · rw [if_pos herror1]
      · rw [hranges1, if_pos herror1]
        rfl
    · obtain rfl := hcode1 (by simpa using herror1)
      obtain ⟨r2, d2, code2, hrun2, hranges2, hcode2⟩ := ihq fuel rest (by omega)
      rw [if_neg herror1, hrun2, bind_some]
      by_cases herror2 : lvmError r2
      · refine ⟨derivationError, cleared, code2, ?_, ?_, nofun⟩
        · rw [if_pos herror2]
        · rw [hranges2, if_pos herror2, hranges1, if_neg herror1]
          rfl
      · obtain rfl := hcode2 (by simpa using herror2)
        rw [hranges1, if_neg herror1, hranges2, if_neg herror2, if_neg herror2]
        cases c with
        | and =>
          refine ⟨statusTrue, createIntersection maxId cleared d1 d2, code2, ?_, ?_, fun _ => rfl⟩
          · rw [if_pos (by rfl)]
          · exact congrArg some (funext fun i => (rangesIn_intersection d1 d2 i).symm)
        | or =>
          refine ⟨statusTrue, createUnion maxId cleared d1 d2, code2, ?_, ?_, fun _ => rfl⟩
          · rw [if_neg (by decide)]
          · exact congrArg some (funext fun i => (rangesIn_union d1 d2 i).symm)
  | not p ih =>
    intro fuel rest hfuel
    obtain ⟨fuel, rfl⟩ : ∃ n, fuel = n + 1 := ⟨fuel - 1, by rw [Pred.tokens, length_cons] at hfuel; omega⟩
    exact ⟨derivationError, cleared, _, by
      rw [Pred.tokens, deriveRelation]; simp [getType, getOperator, Operator.isConnective]; rfl, rfl, nofun⟩

/-- `derive_relation` takes the constant for a variable, or the wrong bound: the left operand is a constant and the
    right one too, or the operator is an inequality. -/
def Misread (c : Comparison) : Expr w → Expr w → Prop
  | .operand o1, .operand o2 => o1.type = .long ∧ c ≠ .neq ∧ (c ≠ .eq ∨ o2.type = .long)
  | _, _ => False

/-- The variable of a comparison. -/
def variableOf : Expr w → Expr w → Nat
  | .operand o1, .operand o2 => if o1.type = .variable then o1.id else o2.id
  | _, _ => 0

/-- The variables a predicate constrains. -/
def Pred.Constrains (i : Nat) : Pred w → Prop
  | .compare _ e1 e2 => variableOf e1 e2 = i
  | .connect _ p q => p.Constrains i ∨ q.Constrains i
  | .not _ => False

/-- No comparison is misread, and the sides of a disjunction constrain the same variables. -/
def Pred.Regular : Pred w → Prop
  | .compare c e1 e2 => ¬ Misread c e1 e2
  | .connect .and p q => p.Regular ∧ q.Regular
  | .connect .or p q => p.Regular ∧ q.Regular ∧ ∀ i, p.Constrains i ↔ q.Constrains i
  | .not _ => True

/-! ### Soundness -/

/-- A number between two values is not wrapped. -/
theorem bmod_between {n : Int} {a b : BitVec w} (hlo : a.toInt ≤ n) (hhi : n ≤ b.toInt) : n.bmod (2 ^ w) = n := by
  have hmin := a.le_two_mul_toInt
  have hmax := b.two_mul_toInt_lt
  apply Int.bmod_eq_of_le_mul_two <;> push_cast <;> omega

theorem toInt_add_one {c : BitVec w} (h : c.toInt < x.toInt) : (c + 1).toInt = c.toInt + 1 := by
  have hone : (1 : BitVec w).toInt = (1 : Int).bmod (2 ^ w) := BitVec.toInt_ofNat ..
  rw [BitVec.toInt_add, hone, Int.add_bmod_bmod]
  exact bmod_between (a := c) (b := x) (by omega) (by omega)

theorem toInt_sub_one {c : BitVec w} (h : x.toInt < c.toInt) : (c - 1).toInt = c.toInt - 1 := by
  have hone : (1 : BitVec w).toInt = (1 : Int).bmod (2 ^ w) := BitVec.toInt_ofNat ..
  rw [BitVec.toInt_sub, hone, Int.sub_bmod_bmod]
  exact bmod_between (a := x) (b := c) (by omega) (by omega)

theorem intMin_le (x : BitVec w) : (BitVec.intMin w).toInt ≤ x.toInt := BitVec.toInt_intMin_le x

theorem le_intMax (x : BitVec w) : x.toInt ≤ (BitVec.intMax w).toInt := by
  rw [BitVec.toInt_intMax]
  exact BitVec.toInt_le

theorem eq_true_of_ite {c : Prop} [Decidable c] (h : (if c then statusTrue else statusFalse) = statusTrue) : c := by
  split at h
  · assumption
  · cases h

theorem rangeOf_sound {value : BitVec w} (hok : lvmError (rangeOf c.toOperator value).1 = false)
    (htrue : comparison c.toOperator x value = statusTrue) : (rangeOf c.toOperator value).2.min.toInt ≤ x.toInt ∧
      x.toInt ≤ (rangeOf c.toOperator value).2.max.toInt := by
  cases c with
  | neq => cases hok
  | eq =>
    obtain rfl := eq_true_of_ite htrue
    exact ⟨le_refl _, le_refl _⟩
  | ge =>
    have hlt := BitVec.slt_iff_toInt_lt.mp (eq_true_of_ite htrue)
    refine ⟨?_, le_intMax x⟩
    change (value + 1).toInt ≤ _
    rw [toInt_add_one hlt]
    exact hlt
  | geq => exact ⟨BitVec.sle_iff_toInt_le.mp (eq_true_of_ite htrue), le_intMax x⟩
  | le =>
    have hlt := BitVec.slt_iff_toInt_lt.mp (eq_true_of_ite htrue)
    refine ⟨intMin_le x, ?_⟩
    change _ ≤ (value - 1).toInt
    rw [toInt_sub_one hlt]
    exact Int.le_sub_one_of_lt hlt
  | leq => exact ⟨intMin_le x, BitVec.sle_iff_toInt_le.mp (eq_true_of_ite htrue)⟩

/-- The values of the variables. -/
def valuesOf (vars : Nat → Variable w) (i : Nat) : Int := (vars i).value.toInt

theorem rangesIn_update {id : Nat} {d : Derivation w} {i : Nat} {r : Range Int}
    (h : rangesIn maxId (update cleared id d) i = some r) : i = id ∧ r = ⟨d.min.toInt, d.max.toInt⟩ := by
  rw [rangesIn] at h
  split at h
  next hd =>
    by_cases hi : i = id
    · subst hi
      rw [update_self] at h
      cases h
      exact ⟨rfl, rfl⟩
    · rw [update_of_ne hi] at hd
      cases hd.2
  · cases h

/-- Of two operands whose comparison gives a range one is a constant, and the range is that of the other one,
    whichever that is. -/
theorem deriveComparison_cases {o1 o2 : Operand w}
    (hok : lvmError (deriveComparison maxId op o1 o2 cleared).1 = false) :
    ∃ id value,
      ((o1.type = .variable ∧ o2.type = .long ∧ id = o1.id ∧ value = o2.value) ∨
       (o1.type = .long ∧ id = o2.id ∧ value = o1.value)) ∧
      id < maxId ∧
      lvmError (rangeOf op value).1 = false ∧
      (deriveComparison maxId op o1 o2 cleared).2 = update cleared id (rangeOf op value).2 := by
  have hpick : ∀ {id : Nat} {value : BitVec w}, deriveComparison maxId op o1 o2 cleared =
      (if maxId ≤ id then (derivationError, cleared)
        else ((rangeOf op value).1, update cleared id (rangeOf op value).2)) →
      id < maxId ∧ lvmError (rangeOf op value).1 = false ∧
        (deriveComparison maxId op o1 o2 cleared).2 = update cleared id (rangeOf op value).2 := by
    intro id value heq
    rw [heq] at hok ⊢
    split at hok
    · cases hok
    next hid =>
      rw [if_neg hid]
      exact ⟨Nat.lt_of_not_le hid, hok, rfl⟩
  rcases h1 : o1.type with _ | _ <;> rcases h2 : o2.type with _ | _
  · rw [deriveComparison, h1, h2] at hok
    cases hok
  · refine ⟨o1.id, o2.value, .inl ⟨rfl, rfl, rfl, rfl⟩, hpick ?_⟩
    rw [deriveComparison, h1, h2]
    simp [cleared]
  · refine ⟨o2.id, o1.value, .inr ⟨rfl, rfl, rfl⟩, hpick ?_⟩
    rw [deriveComparison, h1, h2]
    simp [cleared]
  · refine ⟨o2.id, o1.value, .inr ⟨rfl, rfl, rfl⟩, hpick ?_⟩
    rw [deriveComparison, h1, h2]
    simp [cleared]

theorem comparisonRanges_some {o1 o2 : Operand w} (h : comparisonRanges maxId c (.operand o1) (.operand o2) = some D) :
    lvmError (deriveComparison maxId c.toOperator o1 o2 cleared).1 = false ∧
    D = rangesIn maxId (deriveComparison maxId c.toOperator o1 o2 cleared).2 := by
  rw [comparisonRanges] at h
  split at h
  · cases h
  next hok =>
    cases h
    exact ⟨by simpa using hok, rfl⟩

theorem admits_comparison {e1 e2 : Expr w} (hread : ¬ Misread c e1 e2) (hranges : comparisonRanges maxId c e1 e2 =
    some D) (htrue : (Pred.compare c e1 e2).status vars = statusTrue) : Admits D (valuesOf vars) := by
  rcases e1 with o1 | _ <;> rcases e2 with o2 | _
  · obtain ⟨hderived, rfl⟩ := comparisonRanges_some hranges
    obtain ⟨id, value, hwhich, hid, hok, hd⟩ := deriveComparison_cases hderived
    have hcompared : comparison c.toOperator (operandToLong vars o1) (operandToLong vars o2) = statusTrue := htrue
    have hinside : (rangeOf c.toOperator value).2.min.toInt ≤ valuesOf vars id ∧
        valuesOf vars id ≤ (rangeOf c.toOperator value).2.max.toInt := by
      rcases hwhich with ⟨h1, h2, rfl, rfl⟩ | ⟨h1, rfl, rfl⟩
      · rw [operandToLong, operandToLong, h1, h2, if_neg (by decide), if_pos rfl] at hcompared
        exact rangeOf_sound hok hcompared
      · -- with the constant on the left it is an equation with a variable
        have hneq : c ≠ .neq := by
          rintro rfl
          cases hok
        rw [Misread, not_and, not_and, not_or, not_not] at hread
        obtain ⟨rfl, h2⟩ := hread h1 hneq
        rw [operandToLong, operandToLong, h1, if_pos rfl, if_neg h2] at hcompared
        have heq : o1.value = (vars o2.id).value := eq_true_of_ite hcompared
        rw [valuesOf, ← heq]
        exact ⟨le_refl _, le_refl _⟩
    rw [hd]
    intro i r hr
    obtain ⟨rfl, rfl⟩ := rangesIn_update hr
    exact hinside
  all_goals cases hranges

variable {p : Pred w}

theorem isSome_ranges : ∀ {D : Nat → Option (Range Int)}, p.ranges maxId = some D →
    ∀ i, (D i).isSome = true ↔ p.Constrains i := by
  induction p with
  | compare c e1 e2 =>
    intro D h i
    rcases e1 with o1 | _ <;> rcases e2 with o2 | _
    · obtain ⟨hderived, rfl⟩ := comparisonRanges_some h
      obtain ⟨id, value, hwhich, hid, hok, hd⟩ := deriveComparison_cases hderived
      have hvariable : variableOf (.operand o1) (.operand o2) = id := by
        rcases hwhich with ⟨h1, _, rfl, _⟩ | ⟨h1, rfl, _⟩ <;> rw [variableOf, h1] <;> rfl
      have hmade : (rangeOf c.toOperator value).2.derived = true := by
        cases c with
        | neq => cases hok
        | _ => rfl
      rw [Pred.Constrains, hvariable, hd, rangesIn]
      by_cases hi : i = id
      · subst hi
        rw [update_self, if_pos ⟨hid, hmade⟩]
        exact iff_of_true rfl rfl
      · rw [update_of_ne hi, if_neg (fun h => by cases h.2)]
        exact iff_of_false Bool.false_ne_true fun h => hi h.symm
    all_goals cases h
  | connect c p q ihp ihq =>
    intro D h i
    obtain ⟨Dp, hp, h⟩ := bind_eq_some_iff.mp h
    obtain ⟨Dq, hq, rfl⟩ := map_eq_some_iff.mp h
    rw [Pred.Constrains, ← ihp hp i, ← ihq hq i]
    cases c with
    | and => exact isSome_meetRange (Dp i) (Dq i)
    | or => exact isSome_joinRange (Dp i) (Dq i)
  | not p _ =>
    intro D h
    cases h

/-- SOUNDNESS: the ranges of a regular predicate hold the values of every tuple that satisfies it. -/
theorem admits_ranges (hregular : p.Regular) : ∀ {D : Nat → Option (Range Int)}, p.ranges maxId =
    some D → p.status vars = statusTrue → Admits D (valuesOf vars) := by
  induction p with
  | compare c e1 e2 => exact fun h htrue => admits_comparison hregular h htrue
  | connect c p q ihp ihq =>
    intro D h htrue
    obtain ⟨Dp, hp, h⟩ := bind_eq_some_iff.mp h
    obtain ⟨Dq, hq, rfl⟩ := map_eq_some_iff.mp h
    have hboth : connectiveStatus c (p.status vars) (q.status vars) = statusTrue := by
      rw [Pred.status] at htrue
      split at htrue
      next herror =>
        rw [htrue] at herror
        cases herror
      · split at htrue
        next herror =>
          rw [htrue] at herror
          cases herror
        · exact htrue
    cases c with
    | and =>
      obtain ⟨htp, htq⟩ := eq_true_of_ite hboth
      exact admits_meet (ihp hregular.1 hp htp) (ihq hregular.2 hq htq)
    | or =>
      have hsame : ∀ i, (Dp i).isSome = (Dq i).isSome := fun i => by
        rw [Bool.eq_iff_iff, isSome_ranges hp i, isSome_ranges hq i]
        exact hregular.2.2 i
      rcases eq_true_of_ite hboth with htp | htq
      · exact admits_join_left (ihp hregular.1 hp htp) hsame
      · exact admits_join_right (ihq hregular.2.1 hq htq) hsame
  | not p _ =>
    intro D h
    cases h

variable {name : List UInt8}

theorem getDerivedRange_some {d : Nat → Derivation w} {status : Status} {min max : BitVec w} (h : lvmGetDerivedRange maxId vars d name = (status, some (min, max))) :
    ∃ i, findName vars name maxId 0 = some i ∧ (d i).derived = true ∧ (d i).min = min ∧ (d i).max = max := by
  rw [lvmGetDerivedRange] at h
  split at h
  next i hi =>
    split at h
    next hd =>
      cases h
      exact ⟨i, hi, hd, rfl, rfl⟩
    · cases h
  · cases h

theorem findName_lt : ∀ {n i j : Nat}, findName vars name n i = some j → j < i + n
  | 0, _, _, h => by cases h
  | n + 1, i, j, h => by
    rw [findName] at h
    split at h
    · cases h
      omega
    · have := findName_lt h
      omega

/-- A derived range holds the value of its variable in every tuple that satisfies the predicate, if no
    comparison is misread and the sides of each disjunction constrain the same variables. -/
theorem derived_range_sound {maxId : Nat} (hregular : p.Regular) {status : Status} {d : Nat → Derivation w}
    (hderive : lvmDerive maxId (p.write []) cleared = some (status, d)) (hok : lvmError status = false)
    {vars : Nat → Variable w} (htrue : lvmExecute vars (p.write []) = some statusTrue) {found : Status}
    {min max : BitVec w} (hrange : lvmGetDerivedRange maxId vars d name = (found, some (min, max))) :
    ∃ i,
      findName vars name maxId 0 = some i ∧ min.toInt ≤ (vars i).value.toInt ∧ (vars i).value.toInt ≤ max.toInt := by
  obtain ⟨i, hi, hderived, rfl, rfl⟩ := getDerivedRange_some hrange
  obtain ⟨status', d', code, hrun, hranges, _⟩ := deriveRelation_tokens maxId p _ [] le_rfl
  rw [append_nil] at hrun
  rw [lvmDerive, p.write_eq, nil_append, hrun] at hderive
  cases hderive
  rw [if_neg (by simpa using hok)] at hranges
  rw [lvmExecute_write] at htrue
  have hadmits := admits_ranges hregular hranges (some.inj htrue)
  have hlt := findName_lt hi
  rw [zero_add] at hlt
  exact ⟨i, hi, hadmits i _ (if_pos (c := i < maxId ∧ _) ⟨hlt, hderived⟩)⟩

/-! ### Concrete predicates -/

def var (id : Nat) : Expr 32 := .operand ⟨.variable, BitVec.ofNat 32 id⟩
def const (l : Nat) : Expr 32 := .operand ⟨.long, BitVec.ofNat 32 l⟩

/-- Variables `a` and `b` with their values. -/
def tuple (a b : Nat) : Nat → Variable 32
  | 0 => ⟨[0x61], BitVec.ofNat 32 a⟩
  | 1 => ⟨[0x62], BitVec.ofNat 32 b⟩
  | _ => ⟨[], 0⟩

/-- The engine derives a range for `name` and finds the tuple true. -/
def Derives (p : Pred 32) (vars : Nat → Variable 32) (name : List UInt8) (min max : BitVec 32) : Prop :=
  ∃ d, lvmDerive 8 (p.write []) cleared = some (statusTrue, d) ∧ lvmExecute vars (p.write []) = some statusTrue ∧
    lvmGetDerivedRange 8 vars d name = (statusTrue, some (min, max))

/-- `(a < 10 AND b >= 3) OR (a > 2 AND b = 7)`. -/
def boxes : Pred 32 :=
  .connect .or (.connect .and (.compare .le (var 0) (const 10)) (.compare .geq (var 1) (const 3)))
    (.connect .and (.compare .ge (var 0) (const 2)) (.compare .eq (var 1) (const 7)))

theorem regular_boxes : boxes.Regular := by
  have hread : ∀ (c : Comparison) (id l : Nat), ¬ Misread c (var id) (const l) := fun c id l h => by cases h.1
  refine ⟨⟨hread _ _ _, hread _ _ _⟩, ⟨hread _ _ _, hread _ _ _⟩, fun i => Iff.rfl⟩

/-- In the tuple (5, 9) `b` is between 3 and the largest number. -/
theorem derived_range_sound_boxes : ∃ min max, Derives boxes (tuple 5 9) [0x62] min max ∧
    min.toInt ≤ (tuple 5 9 1).value.toInt ∧ (tuple 5 9 1).value.toInt ≤ max.toInt := by
  have hderives : Derives boxes (tuple 5 9) [0x62] 3 (BitVec.intMax 32) := ⟨_, rfl, rfl, rfl⟩
  obtain ⟨d, hderive, htrue, hrange⟩ := hderives
  obtain ⟨i, hi, hinside⟩ := derived_range_sound regular_boxes hderive (by decide) htrue hrange
  cases hi
  exact ⟨_, _, ⟨d, hderive, htrue, hrange⟩, hinside⟩

/-- A tuple is true, and its `a` is outside the range that was derived for it. -/
def Loses (p : Pred 32) (vars : Nat → Variable 32) : Prop :=
  ∃ min max, Derives p vars [0x61] min max ∧ findName vars [0x61] 8 0 = some 0 ∧
    ¬ (min.toInt ≤ (vars 0).value.toInt ∧ (vars 0).value.toInt ≤ max.toInt)

/-- `3 > a`, `a < 100 OR b < 5` and `0 = 0` lose tuples. -/
theorem derived_range_unsound :
    Loses (.compare .ge (const 3) (var 0)) (tuple 2 0) ∧
    Loses (.connect .or (.compare .le (var 0) (const 100)) (.compare .le (var 1) (const 5))) (tuple 200 1) ∧
    Loses (.compare .eq (const 0) (const 0)) (tuple 8 0) :=
  ⟨⟨_, _, ⟨_, rfl, rfl, rfl⟩, rfl, by decide⟩, ⟨_, _, ⟨_, rfl, rfl, rfl⟩, rfl, by decide⟩,
    ⟨_, _, ⟨_, rfl, rfl, rfl⟩, rfl, by decide⟩⟩

end CSync.Lvm
