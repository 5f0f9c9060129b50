import CSync.Apps.LvmCode
import CSync.Lib.Run
import Mathlib.Data.List.Range

/-! The logic engine stays inside its code and its tables.

    Three of the functions compare the end with the size; the ones that write do not. The loops over the tables end
    at `LVM_MAX_VARIABLE_ID`, and the tables have one element less. So a call keeps the bounds precisely when there
    is room for what it stores, and when the slots below the last one already answer what it looks up. -/

namespace CSync.Lvm
open List Lib Option

variable {m : Platform} {w : Nat}

/-- What is promised of a state: the end is no further than the size, what was written lies in the code, and no
    index is beyond the tables. -/
structure InBounds (m : Platform) (s : State w) : Prop where
  codeEnd : s.codeEnd ≤ s.size
  writes : ∀ x ∈ s.writes, x.len = 0 ∨ (0 ≤ x.off ∧ x.off + x.len ≤ x.size)
  indices : ∀ i ∈ s.indices, i < m.elements

def Room (s : State w) (len : Nat) : Prop := 0 ≤ s.codeEnd ∧ s.codeEnd + len ≤ s.size

/-- A slot that the table has is free or has the name. -/
def HasSlot (m : Platform) (s : State w) (name : List UInt8) : Prop :=
  ∃ i < m.elements, (s.vars i).name = [] ∨ (s.vars i).name = name

/-- A slot that the table has has the name. -/
def HasName (m : Platform) (s : State w) (name : List UInt8) : Prop :=
  ∃ i < m.elements, (s.vars i).name = name

theorem elements_lt (m : Platform) : m.elements < m.maxId := by
  have := m.maxId_pos
  rw [Platform.elements]
  omega

theorem int_bounds (h : m.isInt a) : -((2 ^ m.intBits : Nat) / 2 : Int) ≤ a ∧ a < ((2 ^ m.intBits : Nat) + 1) / 2 := by
  have hpos : 0 < 2 ^ m.intBits := Nat.two_pow_pos _
  rw [Platform.isInt, Platform.int] at h
  have hlow := Int.le_bmod (x := a) hpos
  have hhigh := Int.bmod_lt (x := a) hpos
  rw [h] at hlow hhigh
  exact ⟨hlow, hhigh⟩

theorem int_of_le {a b : Int} (hb : m.isInt b) (h0 : 0 ≤ a) (hab : a ≤ b) : m.int a = a := by
  have hbounds := int_bounds hb
  exact Int.bmod_eq_of_le (by omega) (by omega)

/-! ### Writes -/

variable {s s' : State w} {name : List UInt8} {maxId : Nat}

theorem store_inBounds (hsize : m.isInt s.size) {len : Nat} (hlen : 0 < len) :
    InBounds m (s.store m len) ↔ InBounds m s ∧ Room s len := by
  constructor
  · rintro ⟨-, hwrites, hindices⟩
    have hroom : Room s len := by
      rcases hwrites ⟨s.codeEnd, len, s.size⟩ (mem_cons_self ..) with h | h
      · exact absurd h (ne_of_gt hlen)
      · exact h
    refine ⟨⟨?_, fun x hx => hwrites x (mem_cons_of_mem _ hx), hindices⟩, hroom⟩
    have := hroom.2
    omega
  · rintro ⟨⟨-, hwrites, hindices⟩, hroom⟩
    have hint : m.int (s.codeEnd + len) = s.codeEnd + len :=
      int_of_le hsize (Int.add_nonneg hroom.1 (Int.natCast_nonneg len)) hroom.2
    refine ⟨?_, ?_, hindices⟩
    · rw [State.store, hint]
      exact hroom.2
    · intro x hx
      rcases mem_cons.mp hx with rfl | hx
      · exact .inr hroom
      · exact hwrites x hx

theorem store_store_inBounds (hsize : m.isInt s.size) {a b : Nat} (ha : 0 < a) (hb : 0 < b) :
    InBounds m ((s.store m a).store m b) ↔ InBounds m s ∧ Room s (a + b) := by
  rw [store_inBounds (s := s.store m a) hsize hb, store_inBounds hsize ha, and_assoc, and_congr_right_iff]
  intro _
  have hint : Room s a → (s.store m a).codeEnd = s.codeEnd + a := fun h =>
    int_of_le hsize (Int.add_nonneg h.1 (Int.natCast_nonneg a)) h.2
  constructor
  · rintro ⟨hroom, hroom'⟩
    rw [Room, hint hroom] at hroom'
    exact ⟨hroom.1, by rw [Nat.cast_add, ← Int.add_assoc]; exact hroom'.2⟩
  · rintro ⟨h0, hle⟩
    have hroom : Room s a := ⟨h0, by omega⟩
    refine ⟨hroom, ?_⟩
    rw [Room, hint hroom]
    exact ⟨by omega, by rw [Int.add_assoc, ← Nat.cast_add]; exact hle⟩

theorem shift_inBounds (h : InBounds m s) (e : Int) : InBounds m (lvmShiftForOperator m s e).2 ↔
      (¬ shiftRefused m s e → 0 ≤ e + m.opSize + m.nodeSize ∧ s.codeEnd + m.opSize + m.nodeSize ≤ s.size) := by
  rw [lvmShiftForOperator]
  split
  next hrefused => exact iff_of_true ⟨h.codeEnd, h.writes, h.indices⟩ (absurd hrefused)
  next haccepted =>
    have he : e < s.codeEnd := by
      rw [shiftRefused, not_or] at haccepted
      exact Int.not_le.mp haccepted.2
    constructor
    · rintro ⟨-, hwrites, -⟩ _
      rcases hwrites _ (mem_cons_self ..) with hzero | hwrite
      · simp only at hzero
        omega
      · obtain ⟨hoff, hend⟩ := hwrite
        simp only at hoff hend
        exact ⟨hoff, by omega⟩
    · intro hmeets
      obtain ⟨hoff, hend⟩ := hmeets haccepted
      refine ⟨?_, ?_, h.indices⟩
      · show e ≤ s.size
        omega
      · intro x hx
        rcases mem_cons.mp hx with rfl | hx
        · exact .inr ⟨hoff, by simp only; omega⟩
        · exact h.writes x hx

theorem jump_inBounds (h : InBounds m s) : InBounds m (lvmJumpToOperand m s).2 := by
  rw [lvmJumpToOperand]
  split
  · exact ⟨h.codeEnd, h.writes, h.indices⟩
  next hlt => exact ⟨Int.le_of_lt (Int.not_le.mp hlt), h.writes, h.indices⟩

theorem setEnd_inBounds (h : InBounds m s) (e : Int) : InBounds m (lvmSetEnd s e).2 := by
  rw [lvmSetEnd]
  split
  · exact ⟨h.codeEnd, h.writes, h.indices⟩
  next hlt => exact ⟨Int.le_of_lt (Int.not_le.mp hlt), h.writes, h.indices⟩

theorem reset_inBounds (hwrites : ∀ x ∈ s.writes, x.len = 0 ∨ (0 ≤ x.off ∧ x.off + x.len ≤ x.size))
    (hindices : ∀ i ∈ s.indices, i < m.elements) (size : Nat) : InBounds m (lvmReset m size s) := by
  refine ⟨Int.natCast_nonneg size, ?_, hindices⟩
  intro x hx
  rcases mem_cons.mp hx with rfl | hx
  · exact .inr ⟨Int.le_refl 0, by simp⟩
  · exact hwrites x hx

/-! ### Indices -/

theorem index_inBounds {is : List Nat} : InBounds m (s.index is) ↔ InBounds m s ∧ ∀ i ∈ is, i < m.elements := by
  constructor
  · rintro ⟨hend, hwrites, hindices⟩
    exact ⟨⟨hend, hwrites, fun i hi => hindices i (mem_append_right _ hi)⟩,
      fun i hi => hindices i (mem_append_left _ hi)⟩
  · rintro ⟨h, his⟩
    refine ⟨h.codeEnd, h.writes, fun i hi => ?_⟩
    rcases mem_append.mp hi with hi | hi
    · exact his i hi
    · exact h.indices i hi

variable {vars : Nat → Variable w}

/-- The loop of `lookup` ends below `k` where a slot below `k` is free or has the name. -/
theorem lookupFrom_lt {k : Nat} : ∀ {n i : Nat}, k ≤ i + n →
    (lookupFrom vars name n i < k ↔ ∃ j, i ≤ j ∧ j < k ∧ ((vars j).name = [] ∨ (vars j).name = name))
  | 0, i, hk => by
    refine iff_of_false (by rw [lookupFrom]; omega) ?_
    rintro ⟨j, hij, hjk, -⟩
    omega
  | n + 1, i, hk => by
    rw [lookupFrom]
    split
    next hfound =>
      constructor
      · intro hik
        exact ⟨i, le_refl i, hik, hfound⟩
      · rintro ⟨j, hij, hjk, -⟩
        omega
    next hpass =>
      rw [lookupFrom_lt (n := n) (by omega)]
      constructor
      · rintro ⟨j, hij, hjk, hj⟩
        exact ⟨j, by omega, hjk, hj⟩
      · rintro ⟨j, hij, hjk, hj⟩
        refine ⟨j, ?_, hjk, hj⟩
        rcases Nat.eq_or_lt_of_le hij with rfl | hlt
        · exact absurd hj hpass
        · exact hlt

theorem lookup_lt : lookup m s.vars name < m.elements ↔ HasSlot m s name := by
  have hle := elements_lt m
  rw [lookup, lookupFrom_lt (by omega), HasSlot]
  constructor
  · rintro ⟨j, -, hj⟩
    exact ⟨j, hj⟩
  · rintro ⟨j, hj⟩
    exact ⟨j, Nat.zero_le j, hj⟩

theorem lookupReads_lt : (∀ i ∈ lookupReads m s.vars name, i < m.elements) ↔ HasSlot m s name := by
  have hlt := elements_lt m
  rw [← lookup_lt]
  constructor
  · intro h
    by_contra hge
    have := h m.elements (mem_range.mpr (by omega))
    omega
  · intro h i hi
    have := mem_range.mp hi
    omega

section
variable (h : InBounds m s)
include h

theorem reads_inBounds (name : List UInt8) :
    InBounds m (s.index (lookupReads m s.vars name)) ↔ HasSlot m s name := by
  rw [index_inBounds, and_iff_right h, lookupReads_lt]

theorem slot_inBounds (name : List UInt8) :
    InBounds m ((s.index (lookupReads m s.vars name)).index [lookup m s.vars name]) ↔ HasSlot m s name := by
  rw [index_inBounds, reads_inBounds h, forall_mem_singleton, lookup_lt, and_self_iff]

theorem register_inBounds (name : List UInt8) :
    InBounds m (lvmRegisterVariable m s name).2 ↔ HasSlot m s name := by
  rw [lvmRegisterVariable]
  simp only
  split
  · exact reads_inBounds h name
  · split
    · rw [← slot_inBounds h]
      exact ⟨fun h => ⟨h.codeEnd, h.writes, h.indices⟩, fun h => ⟨h.codeEnd, h.writes, h.indices⟩⟩
    · exact slot_inBounds h name

theorem setVariableValue_inBounds (name : List UInt8) (value : BitVec w) :
    InBounds m (lvmSetVariableValue m s name value).2 ↔ HasSlot m s name := by
  rw [lvmSetVariableValue]
  split
  · exact reads_inBounds h name
  · rw [← slot_inBounds h]
    exact ⟨fun h => ⟨h.codeEnd, h.writes, h.indices⟩, fun h => ⟨h.codeEnd, h.writes, h.indices⟩⟩

end

theorem setOperand_inBounds (hsize : m.isInt s.size) :
    InBounds m (setOperand m s) ↔ InBounds m s ∧ Room s (m.nodeSize + m.operandSize) :=
  store_store_inBounds hsize m.nodeSize_pos m.operandSize_pos

theorem setVariable_inBounds (h : InBounds m s) (hsize : m.isInt s.size) (name : List UInt8) :
    InBounds m (lvmSetVariable m s name) ↔ HasSlot m s name ∧ Room s (m.nodeSize + m.operandSize) := by
  have hlt := elements_lt m
  rw [lvmSetVariable]
  split
  · rw [setOperand_inBounds (s := s.index _) hsize, reads_inBounds h]
    exact Iff.rfl
  next hid =>
    rw [reads_inBounds h]
    refine iff_of_false ?_ ?_
    · rw [← lookup_lt]
      omega
    · rintro ⟨hslot, -⟩
      rw [← lookup_lt] at hslot
      omega

/-- The loop over the names ends at the first that is the name. -/
theorem findName_spec {k : Nat} : ∀ {n i : Nat}, k ≤ i + n →
    ((∃ j, i ≤ j ∧ j < k ∧ (vars j).name = name) ↔ ∃ j < k, findName vars name n i = some j)
  | 0, i, hk => by
    refine iff_of_false ?_ ?_
    · rintro ⟨j, hij, hjk, -⟩
      omega
    · rintro ⟨j, -, hj⟩
      cases hj
  | n + 1, i, hk => by
    rw [findName]
    split
    next hfound =>
      constructor
      · rintro ⟨j, hij, hjk, -⟩
        exact ⟨i, by omega, rfl⟩
      · rintro ⟨j, hjk, hj⟩
        cases hj
        exact ⟨i, le_refl i, hjk, hfound⟩
    next hpass =>
      rw [← findName_spec (n := n) (by omega)]
      constructor
      · rintro ⟨j, hij, hjk, hj⟩
        rcases Nat.eq_or_lt_of_le hij with rfl | hlt
        · exact absurd hj hpass
        · exact ⟨j, hlt, hjk, hj⟩
      · rintro ⟨j, hij, hjk, hj⟩
        exact ⟨j, by omega, hjk, hj⟩

theorem getDerivedRange_inBounds (h : InBounds m s) (name : List UInt8) :
    InBounds m (getDerivedRange m s name) ↔ HasName m s name := by
  have hlt := elements_lt m
  have hname : HasName m s name ↔ ∃ j < m.elements, findName s.vars name m.maxId 0 = some j := by
    rw [← findName_spec (by omega), HasName]
    constructor
    · rintro ⟨j, hj⟩
      exact ⟨j, Nat.zero_le j, hj⟩
    · rintro ⟨j, -, hj⟩
      exact ⟨j, hj⟩
  rw [getDerivedRange, index_inBounds, and_iff_right h, hname, rangeIndices]
  split
  next i hi =>
    constructor
    · intro hall
      exact ⟨i, hall i (mem_cons_self ..), hi⟩
    · rintro ⟨j, hj, hsome⟩ k hk
      obtain rfl : i = j := some.inj (hi.symm.trans hsome)
      rcases mem_cons.mp hk with rfl | hk
      · exact hj
      · have := mem_range.mp hk
        omega
  next hnone =>
    refine iff_of_false ?_ ?_
    · intro hall
      exact lt_irrefl _ (hall m.elements (mem_range.mpr hlt))
    · rintro ⟨j, -, hj⟩
      cases hnone.symm.trans hj

/-! ### Derivations -/

/-- A comparison of this operator gives a range. -/
def HasRange (op : Operator) : Prop := op = .eq ∨ op = .ge ∨ op = .geq ∨ op = .le ∨ op = .leq

instance (op : Operator) : Decidable (HasRange op) := inferInstanceAs (Decidable (_ ∨ _))

/-- The variable that a comparison constrains: the first operand, or else the second, whatever it is. -/
def subjectOf (maxId : Nat) (o1 o2 : Operand w) : List Nat :=
  if o1.type = .variable ∧ o2.type = .variable then []
  else
    let id := if o1.type = .variable then o1.id else o2.id
    if id < maxId then [id] else []

/-- What a relation constrains: whether ranges come out of it, its variables, and the code behind it. A connective
    constrains what both of its sides do, unless one of them fails. -/
def subjects (maxId : Nat) : Nat → List (Token w) → Option (Bool × List Nat × List (Token w))
  | 0, _ => none
  | fuel + 1, code => do
    let (_, code) ← getType code
    let (op, code) ← getOperator code
    if op.isConnective then
      if op = .not then return (false, [], code)
      let (ok1, ids1, code) ← subjects maxId fuel code
      if !ok1 then return (false, [], code)
      let (ok2, ids2, code) ← subjects maxId fuel code
      if !ok2 then return (false, [], code)
      return (true, ids1 ++ ids2, code)
    else
      let (o1, code) ← deriveOperand code
      let some o1 := o1 | return (false, [], code)
      let (o2, code) ← deriveOperand code
      let some o2 := o2 | return (false, [], code)
      let ids := subjectOf maxId o1 o2
      return (decide (HasRange op ∧ ids ≠ []), ids, code)

theorem subjectOf_lt {o1 o2 : Operand w} {i : Nat} (h : i ∈ subjectOf maxId o1 o2) : i < maxId := by
  rw [subjectOf] at h
  generalize (if o1.type = .variable then o1.id else o2.id) = id at h
  split at h
  · cases h
  · by_cases hid : id < maxId
    · rw [if_pos hid] at h
      rw [mem_singleton.mp h]
      exact hid
    · rw [if_neg hid] at h
      cases h

theorem comparisonIndices_eq (maxId : Nat) (o1 o2 : Operand w) :
    comparisonIndices maxId o1 o2 = subjectOf maxId o1 o2 := by
  rw [comparisonIndices, subjectOf]
  generalize (if o1.type = .variable then o1.id else o2.id) = id
  split
  · rfl
  · by_cases hid : id < maxId
    · rw [if_pos hid, if_neg (Nat.not_le.mpr hid)]
    · rw [if_neg hid, if_pos (Nat.not_lt.mp hid)]

theorem deriveComparison_subject (maxId : Nat) (op : Operator) (o1 o2 : Operand w) (d : Nat → Derivation w) :
    (!lvmError (deriveComparison maxId op o1 o2 d).1) = decide (HasRange op ∧ subjectOf maxId o1 o2 ≠ []) ∧
    (lvmError (deriveComparison maxId op o1 o2 d).1 = false →
       ∀ i,
         ((deriveComparison maxId op o1 o2 d).2 i).derived =
           ((d i).derived || decide (i ∈ subjectOf maxId o1 o2))) := by
  rw [deriveComparison, subjectOf]
  split
  · exact ⟨by simp [lvmError, derivationError], nofun⟩
  · simp only
    generalize (if o1.type = .variable then o1.id else o2.id) = id
    generalize (if o1.type = .variable then o2.value else o1.value) = value
    by_cases hid : id < maxId
    · rw [if_neg (Nat.not_le.mpr hid), if_pos hid]
      have hrange : (rangeOf op value).2.derived = decide (HasRange op) ∧
          (!lvmError (rangeOf op value).1) = decide (HasRange op) := by
        cases op <;> exact ⟨rfl, rfl⟩
      refine ⟨by simpa using hrange.2, fun hok i => ?_⟩
      have hderived : (rangeOf op value).2.derived = true := by
        rw [hrange.1, ← hrange.2]
        simpa using hok
      by_cases hi : i = id
      · simp [hi, hderived]
      · simp [hi]
    · rw [if_pos (Nat.not_lt.mp hid), if_neg hid]
      exact ⟨by simp [lvmError, derivationError], nofun⟩

theorem derived_intersection (maxId : Nat) (d d1 d2 : Nat → Derivation w) (i : Nat) : (createIntersection maxId d d1
    d2 i).derived = ((d i).derived || decide (i < maxId) && ((d1 i).derived || (d2 i).derived)) := by
  rw [createIntersection]
  split
  next hi =>
    rw [intersectionOf]
    cases h1 : (d1 i).derived <;> cases h2 : (d2 i).derived <;> simp [hi]
  next hi => simp [hi]

theorem derived_union (maxId : Nat) (d d1 d2 : Nat → Derivation w) (i : Nat) : (createUnion maxId d d1 d2 i).derived =
    ((d i).derived || decide (i < maxId) && ((d1 i).derived || (d2 i).derived)) := by
  rw [createUnion]
  split
  next hi =>
    rw [unionOf]
    cases h1 : (d1 i).derived <;> cases h2 : (d2 i).derived <;> simp [hi]
  next hi => simp [hi]

variable {d1 d2 : Nat → Derivation w}

theorem derived_connective {ids1 ids2 : List Nat} (d : Nat → Derivation w)
    (hlt1 : ∀ i ∈ ids1, i < maxId) (hlt2 : ∀ i ∈ ids2, i < maxId)
    (hd1 : ∀ i, (d1 i).derived = ((cleared i : Derivation w).derived || decide (i ∈ ids1)))
    (hd2 : ∀ i, (d2 i).derived = ((cleared i : Derivation w).derived || decide (i ∈ ids2))) :
    (∀ i ∈ ids1 ++ ids2, i < maxId) ∧
    ∀ i,
      ((d i).derived || decide (i < maxId) && ((d1 i).derived || (d2 i).derived)) =
        ((d i).derived || decide (i ∈ ids1 ++ ids2)) := by
  have hlt : ∀ i ∈ ids1 ++ ids2, i < maxId := by
    intro i hi
    rcases mem_append.mp hi with hi | hi
    · exact hlt1 i hi
    · exact hlt2 i hi
  refine ⟨hlt, fun i => ?_⟩
  have hboth : ((d1 i).derived || (d2 i).derived) = decide (i ∈ ids1 ++ ids2) := by
    rw [hd1, hd2]
    simp [cleared, mem_append]
  rw [hboth]
  by_cases hi : i ∈ ids1 ++ ids2
  · simp only [hi, hlt i hi, decide_true, Bool.and_self]
  · simp only [hi, decide_false, Bool.and_false]

theorem deriveRelation_subjects (maxId : Nat) : ∀ {fuel : Nat} {code rest : List (Token w)}
    {d d' : Nat → Derivation w} {status : Status}, deriveRelation maxId fuel code d = some (status, d', rest) →
    ∃ ids, subjects maxId fuel code = some (!lvmError status, ids, rest) ∧ (∀ i ∈ ids, i < maxId) ∧
      (lvmError status = false → ∀ i, (d' i).derived = ((d i).derived || decide (i ∈ ids)))
  | 0, _, _, _, _, _, h => by cases h
  | fuel + 1, code, rest, d, d', status, h => by
    rw [deriveRelation] at h
    obtain ⟨⟨type, c1⟩, htype, h⟩ := bind_eq_some_iff.mp h
    obtain ⟨⟨op, c2⟩, hop, h⟩ := bind_eq_some_iff.mp h
    rw [subjects, htype]
    simp only [bind_eq_bind, bind_some, hop]
    simp only at h
    -- every failure leaves the derivations as they were
    have hfail : ∀ c : List (Token w), (derivationError, d, c) = (status, d', rest) →
        ∃ ids : List Nat, some (false, ([] : List Nat), c) = some (!lvmError status, ids, rest) ∧
          (∀ i ∈ ids, i < maxId) ∧
          (lvmError status = false → ∀ i, (d' i).derived = ((d i).derived || decide (i ∈ ids))) := by
      rintro c heq
      cases heq
      exact ⟨[], rfl, by simp, nofun⟩
    split at h
    next hcon =>
      rw [if_pos hcon]
      split at h
      next hnot =>
        rw [if_pos hnot]
        exact hfail _ (some.inj h)
      rename_i hnot
      rw [if_neg hnot]
      obtain ⟨⟨r1, d1, c3⟩, h1, h⟩ := bind_eq_some_iff.mp h
      obtain ⟨ids1, hs1, hlt1, hd1⟩ := deriveRelation_subjects maxId h1
      rw [hs1]
      simp only [bind_some]
      split at h
      next hr1 =>
        rw [if_pos (by simp [hr1])]
        exact hfail _ (some.inj h)
      rename_i hr1
      rw [if_neg (by simp [hr1])]
      obtain ⟨⟨r2, d2, c4⟩, h2, h⟩ := bind_eq_some_iff.mp h
      obtain ⟨ids2, hs2, hlt2, hd2⟩ := deriveRelation_subjects maxId h2
      rw [hs2]
      simp only [bind_some]
      split at h
      next hr2 =>
        rw [if_pos (by simp [hr2])]
        exact hfail _ (some.inj h)
      rename_i hr2
      rw [if_neg (by simp [hr2])]
      obtain ⟨hlt, hwhole⟩ := derived_connective d hlt1 hlt2 (hd1 (Bool.eq_false_iff.mpr hr1))
        (hd2 (Bool.eq_false_iff.mpr hr2))
      split at h
      · cases h
        exact ⟨_, rfl, hlt, fun _ i => (derived_intersection ..).trans (hwhole i)⟩
      · cases h
        exact ⟨_, rfl, hlt, fun _ i => (derived_union ..).trans (hwhole i)⟩
    next hcon =>
      rw [if_neg hcon]
      obtain ⟨⟨o1, c3⟩, h1, h⟩ := bind_eq_some_iff.mp h
      rw [h1]
      rcases o1 with _ | o1
      · exact hfail _ (some.inj h)
      obtain ⟨⟨o2, c4⟩, h2, h⟩ := bind_eq_some_iff.mp h
      simp only [h2, bind_some]
      rcases o2 with _ | o2
      · exact hfail _ (some.inj h)
      obtain ⟨hok, hderived⟩ := deriveComparison_subject maxId op o1 o2 d
      cases h
      exact ⟨subjectOf maxId o1 o2, by rw [hok]; rfl, fun i => subjectOf_lt, hderived⟩

/-- The elements of the result that a connective touches are those of the variables of its sides. -/
theorem mem_connectiveIndices {fuel : Nat} {c1 c2 c3 : List (Token w)}
    {r1 r2 : Status} (h1 : deriveRelation maxId fuel c1 cleared = some (r1, d1, c2)) (hr1 : lvmError r1 = false)
    (h2 : deriveRelation maxId fuel c2 cleared = some (r2, d2, c3)) (hr2 : lvmError r2 = false) :
    ∃ ids1 ids2, subjects maxId fuel c1 = some (true, ids1, c2) ∧ subjects maxId fuel c2 = some (true, ids2, c3) ∧
      ∀ i, i ∈ connectiveIndices maxId d1 d2 ↔ i ∈ ids1 ++ ids2 := by
  obtain ⟨ids1, hs1, hlt1, hd1⟩ := deriveRelation_subjects maxId h1
  obtain ⟨ids2, hs2, hlt2, hd2⟩ := deriveRelation_subjects maxId h2
  rw [hr1] at hs1
  rw [hr2] at hs2
  refine ⟨ids1, ids2, hs1, hs2, fun i => ?_⟩
  have hder1 : (d1 i).derived = decide (i ∈ ids1) := by rw [hd1 hr1 i]; rfl
  have hder2 : (d2 i).derived = decide (i ∈ ids2) := by rw [hd2 hr2 i]; rfl
  rw [connectiveIndices, mem_filter, mem_range, hder1, hder2, mem_append]
  simp only [Bool.or_eq_true, decide_eq_true_eq]
  constructor
  · rintro ⟨-, hi⟩
    exact hi
  · rintro (hi | hi)
    · exact ⟨hlt1 i hi, .inl hi⟩
    · exact ⟨hlt2 i hi, .inr hi⟩

/-- `derive_relation` touches the elements of the variables that the relation constrains. -/
theorem relationIndices_subjects {fuel : Nat} {code : List (Token w)} {is : List Nat}
    (h : relationIndices maxId fuel code = some is) :
    ∃ ok ids rest, subjects maxId (fuel + 1) code = some (ok, ids, rest) ∧ ∀ i, i ∈ is ↔ i ∈ ids := by
  rw [relationIndices] at h
  obtain ⟨⟨type, c1⟩, htype, h⟩ := bind_eq_some_iff.mp h
  obtain ⟨⟨op, c2⟩, hop, h⟩ := bind_eq_some_iff.mp h
  rw [subjects, htype]
  simp only [bind_eq_bind, bind_some, hop]
  simp only at h
  have hnone : ∀ c : List (Token w), some [] = some is →
      ∃ ok ids rest, some (false, ([] : List Nat), c) = some (ok, ids, rest) ∧ ∀ i, i ∈ is ↔ i ∈ ids := by
    rintro c heq
    cases heq
    exact ⟨_, _, _, rfl, fun i => Iff.rfl⟩
  split at h
  next hcon =>
    rw [if_pos hcon]
    split at h
    next hnot =>
      rw [if_pos hnot]
      exact hnone _ h
    rename_i hnot
    rw [if_neg hnot]
    obtain ⟨⟨r1, d1, c3⟩, h1, h⟩ := bind_eq_some_iff.mp h
    split at h
    next hr1 =>
      obtain ⟨ids1, hs1, -⟩ := deriveRelation_subjects maxId h1
      rw [hs1]
      simp only [bind_some]
      rw [if_pos (by simp [hr1])]
      exact hnone _ h
    rename_i hr1
    obtain ⟨⟨r2, d2, c4⟩, h2, h⟩ := bind_eq_some_iff.mp h
    split at h
    next hr2 =>
      obtain ⟨ids1, hs1, -⟩ := deriveRelation_subjects maxId h1
      obtain ⟨ids2, hs2, -⟩ := deriveRelation_subjects maxId h2
      rw [hs1]
      simp only [bind_some]
      rw [if_neg (by simp [hr1]), hs2]
      simp only [bind_some]
      rw [if_pos (by simp [hr2])]
      exact hnone _ h
    rename_i hr2
    obtain ⟨ids1, ids2, hs1, hs2, hmem⟩ :=
      mem_connectiveIndices h1 (Bool.eq_false_iff.mpr hr1) h2 (Bool.eq_false_iff.mpr hr2)
    cases h
    rw [hs1]
    simp only [bind_some]
    rw [if_neg (by simp), hs2]
    exact ⟨_, _, _, rfl, hmem⟩
  next hcon =>
    rw [if_neg hcon]
    obtain ⟨⟨o1, c3⟩, h1, h⟩ := bind_eq_some_iff.mp h
    rw [h1]
    rcases o1 with _ | o1
    · exact hnone _ h
    obtain ⟨⟨o2, c4⟩, h2, h⟩ := bind_eq_some_iff.mp h
    simp only [h2, bind_some]
    rcases o2 with _ | o2
    · exact hnone _ h
    cases h
    rw [comparisonIndices_eq]
    exact ⟨_, _, _, rfl, fun i => Iff.rfl⟩

/-- The code constrains a variable that the table of ranges has no element for. -/
def ConstrainsBeyond (m : Platform) (code : List (Token w)) : Prop :=
  ∃ r, subjects m.maxId code.length code = some r ∧ m.elements ∈ r.2.1

theorem derive_inBounds (h : InBounds m s) {code : List (Token w)}
    (hderive : derive m s code = some s') : InBounds m s' ↔ ¬ ConstrainsBeyond m code := by
  obtain ⟨⟨status, d⟩, hrun, hderive⟩ := bind_eq_some_iff.mp hderive
  obtain ⟨is, his, hderive⟩ := bind_eq_some_iff.mp hderive
  cases hderive
  obtain ⟨⟨status', d', rest⟩, hrelation, -⟩ := map_eq_some_iff.mp hrun
  obtain ⟨ids, hsubjects, hlt, -⟩ := deriveRelation_subjects m.maxId hrelation
  have hfuel : code.length - 1 + 1 = code.length := by
    rcases code with _ | ⟨token, code⟩
    · cases hsubjects
    · rfl
  obtain ⟨ok, ids', rest', hsubjects', hmem⟩ := relationIndices_subjects his
  rw [hfuel, hsubjects] at hsubjects'
  cases hsubjects'
  have hbounds : InBounds m { s.index is with derivations := d } ↔ ∀ i ∈ is, i < m.elements := by
    rw [← (index_inBounds (s := s)).trans (and_iff_right h)]
    exact ⟨fun h => ⟨h.codeEnd, h.writes, h.indices⟩, fun h => ⟨h.codeEnd, h.writes, h.indices⟩⟩
  rw [hbounds]
  constructor
  · rintro hall ⟨r, hr, hlast⟩
    rw [hsubjects] at hr
    cases hr
    exact lt_irrefl _ (hall _ ((hmem _).mpr hlast))
  · intro hnot i hi
    have hmax := hlt i ((hmem i).mp hi)
    have hne : i ≠ m.elements := by
      rintro rfl
      exact hnot ⟨_, hsubjects, (hmem _).mp hi⟩
    rw [Platform.elements] at hne ⊢
    omega

/-! ### Runs -/

/-- What keeps a call in bounds. -/
def Meets (m : Platform) (s : State w) : Call w → Prop
  | .reset _ | .jumpToOperand | .setEnd _ => True
  | .shiftForOperator e =>
    ¬ shiftRefused m s e → 0 ≤ e + m.opSize + m.nodeSize ∧ s.codeEnd + m.opSize + m.nodeSize ≤ s.size
  | .setType => Room s m.nodeSize
  | .setOp | .setRelation => Room s (m.nodeSize + m.opSize)
  | .setOperand | .setLong => Room s (m.nodeSize + m.operandSize)
  | .setVariable name => HasSlot m s name ∧ Room s (m.nodeSize + m.operandSize)
  | .registerVariable name | .setVariableValue name _ => HasSlot m s name
  | .derive code => ¬ ConstrainsBeyond m code
  | .getDerivedRange name => HasName m s name

theorem call_inBounds {c : Call w} (h : InBounds m s) (hsize : m.isInt s.size)
    (hcall : call m s c = some s') : InBounds m s' ↔ Meets m s c := by
  cases c with
  | reset size =>
    obtain ⟨-, hcall⟩ := ite_none_right_eq_some.mp hcall
    cases hcall
    exact iff_of_true (reset_inBounds h.writes h.indices size) trivial
  | jumpToOperand =>
    cases hcall
    exact iff_of_true (jump_inBounds h) trivial
  | shiftForOperator e =>
    obtain ⟨-, hcall⟩ := ite_none_right_eq_some.mp hcall
    cases hcall
    exact shift_inBounds h e
  | setEnd e =>
    obtain ⟨-, hcall⟩ := ite_none_right_eq_some.mp hcall
    cases hcall
    exact iff_of_true (setEnd_inBounds h e) trivial
  | setType =>
    cases hcall
    exact (store_inBounds hsize m.nodeSize_pos).trans (and_iff_right h)
  | setOp =>
    cases hcall
    exact (store_store_inBounds hsize m.nodeSize_pos m.opSize_pos).trans (and_iff_right h)
  | setRelation =>
    cases hcall
    exact (store_store_inBounds hsize m.nodeSize_pos m.opSize_pos).trans (and_iff_right h)
  | setOperand =>
    cases hcall
    exact (setOperand_inBounds hsize).trans (and_iff_right h)
  | setLong =>
    cases hcall
    exact (setOperand_inBounds hsize).trans (and_iff_right h)
  | setVariable name =>
    cases hcall
    exact setVariable_inBounds h hsize name
  | registerVariable name =>
    cases hcall
    exact register_inBounds h name
  | setVariableValue name value =>
    cases hcall
    exact setVariableValue_inBounds h name value
  | derive code => exact derive_inBounds h hcall
  | getDerivedRange name =>
    cases hcall
    exact getDerivedRange_inBounds h name

theorem call_isInt {c : Call w} (hsize : m.isInt s.size) (hcall : call m s c = some s') : m.isInt s'.size := by
  cases c with
  | reset size =>
    obtain ⟨hint, hcall⟩ := ite_none_right_eq_some.mp hcall
    cases hcall
    exact hint
  | jumpToOperand =>
    cases hcall
    rw [lvmJumpToOperand]
    split <;> exact hsize
  | shiftForOperator e =>
    obtain ⟨-, hcall⟩ := ite_none_right_eq_some.mp hcall
    cases hcall
    rw [lvmShiftForOperator]
    split <;> exact hsize
  | setEnd e =>
    obtain ⟨-, hcall⟩ := ite_none_right_eq_some.mp hcall
    cases hcall
    rw [lvmSetEnd]
    split <;> exact hsize
  | setVariable name =>
    cases hcall
    rw [lvmSetVariable]
    split <;> exact hsize
  | registerVariable name =>
    cases hcall
    rw [lvmRegisterVariable]
    simp only
    split
    · exact hsize
    · split <;> exact hsize
  | setVariableValue name value =>
    cases hcall
    rw [lvmSetVariableValue]
    split <;> exact hsize
  | derive code =>
    obtain ⟨_, -, hcall⟩ := bind_eq_some_iff.mp hcall
    obtain ⟨_, -, hcall⟩ := bind_eq_some_iff.mp hcall
    cases hcall
    exact hsize
  | setType | setOp | setRelation | setOperand | setLong | getDerivedRange =>
    cases hcall
    exact hsize

/-- The state after the first `lvm_reset`, whatever was in memory before. -/
def start (m : Platform) (size : Nat) (old : State w) : State w :=
  lvmReset m size { old with writes := [], indices := [] }

/-- The engine is in bounds all along a sequence of calls precisely when every call finds room for what it
    stores, and answers what it looks up in the slots that the tables have. -/
theorem lvm_in_bounds {size : Nat} (hsize : m.isInt size) (old : State w) {calls : List (Call w)} {s : State w}
    (hrun : Run (call m) (fun _ _ => True) (start m size old) calls s) :
    (∀ before t, before <+: calls → Run (call m) (fun _ _ => True) (start m size old) before t → InBounds m t) ↔
      Run (call m) (Meets m) (start m size old) calls s := by
  have hstart : InBounds m (start m size old) := reset_inBounds (by simp) (by simp) size
  have hint : ∀ {before : List (Call w)} {t : State w},
      Run (call m) (fun _ _ => True) (start m size old) before t → m.isInt t.size := fun h =>
    h.invariant (fun _ _ _ hs _ hcall => call_isInt hs hcall) hsize
  rw [← Run.holds_iff (P := fun t : State w => InBounds m t ∧ m.isInt t.size) ?_ hrun ⟨hstart, hsize⟩]
  · constructor
    · intro h before t hprefix ht
      exact ⟨h before t hprefix ht, hint ht⟩
    · intro h before t hprefix ht
      exact (h before t hprefix ht).1
  · rintro s c t ⟨hs, hint⟩ hcall
    rw [and_iff_left (call_isInt hint hcall)]
    exact call_inBounds hs hint hcall

/-! ### Concrete code -/

instance (s : State w) (len : Nat) : Decidable (Room s len) := inferInstanceAs (Decidable (_ ∧ _))

instance (m : Platform) (s : State w) (name : List UInt8) : Decidable (HasSlot m s name) :=
  inferInstanceAs (Decidable (∃ i, i < m.elements ∧ _))

instance (m : Platform) (s : State w) (name : List UInt8) : Decidable (HasName m s name) :=
  inferInstanceAs (Decidable (∃ i, i < m.elements ∧ _))

instance (m : Platform) (code : List (Token w)) : Decidable (ConstrainsBeyond m code) :=
  decidable_of_iff ((subjects m.maxId code.length code).any (fun r => decide (m.elements ∈ r.2.1)) = true) (by
    rw [Option.any_eq_true, ConstrainsBeyond]
    simp only [decide_eq_true_eq])

instance (m : Platform) (s : State w) : ∀ c : Call w, Decidable (Meets m s c)
  | .reset _ | .jumpToOperand | .setEnd _ => isTrue trivial
  | .shiftForOperator _ => inferInstanceAs (Decidable (¬ _ → _ ∧ _))
  | .setType => inferInstanceAs (Decidable (Room ..))
  | .setOp | .setRelation => inferInstanceAs (Decidable (Room ..))
  | .setOperand | .setLong => inferInstanceAs (Decidable (Room ..))
  | .setVariable _ => inferInstanceAs (Decidable (_ ∧ _))
  | .registerVariable _ | .setVariableValue _ _ => inferInstanceAs (Decidable (HasSlot ..))
  | .derive _ => inferInstanceAs (Decidable (¬ _))
  | .getDerivedRange _ => inferInstanceAs (Decidable (HasName ..))

/-- A platform of 32 bits, with the options of `db-options.h`. -/
def platform32 : Platform where
  nodeSize := 4
  opSize := 4
  operandSize := 8
  intBits := 32
  sizeBits := 32
  maxId := 4
  maxName := 16
  nodeSize_pos := Nat.succ_pos _
  opSize_pos := Nat.succ_pos _
  operandSize_pos := by decide
  int_le_size := by decide
  maxId_pos := Nat.succ_pos _
  maxId_lt := by decide

/-- Memory before `lvm_reset`. -/
def zeroed : State 32 := ⟨0, 0, 0, fun _ => ⟨[], 0⟩, fun _ => ⟨0, 0, false⟩, [], []⟩

/-- The calls for `WHERE a < 5`, and the derivation of a range. -/
def smallClause : List (Call 32) :=
  [.jumpToOperand, .registerVariable [0x61], .setVariable [0x61], .setEnd 0, .setRelation, .setEnd 20, .setLong,
    .derive [.nodeType .cmpOp, .operator .le, .nodeType .operand, .operand ⟨.variable, 0⟩, .nodeType .operand,
      .operand ⟨.long, 5⟩], .getDerivedRange [0x61], .setVariableValue [0x61] 3]

/-- A small clause in 128 bytes stays in bounds. -/
theorem lvm_in_bounds_clause : ∃ s, Run (call platform32) (Meets platform32) (start platform32 128 zeroed)
    smallClause s ∧ InBounds platform32 s := by
  obtain ⟨s, hrun, -⟩ : ∃ s, Run (call platform32) (Meets platform32) (start platform32 128 zeroed) smallClause s ∧
      true = true :=
    exists_run (fun s c => decide (Meets platform32 s c)) (fun _ => true) (fun _ _ => of_decide_eq_true) (by decide)
  have hall : Run (call platform32) (fun _ _ => True) (start platform32 128 zeroed) smallClause s :=
    hrun.weaken fun _ _ _ => trivial
  exact ⟨s, hrun, (lvm_in_bounds (by decide) zeroed hall).mpr hrun _ s prefix_rfl hall⟩

def LeavesBounds (size : Nat) (calls : List (Call 32)) : Prop :=
  ∃ s, Run (call platform32) (fun _ _ => True) (start platform32 size zeroed) calls s ∧ ¬ InBounds platform32 s

theorem leavesBounds_of_exec {size : Nat} {calls : List (Call 32)} (p : State 32 → Bool)
    (hbad : ∀ s, p s = true → ¬ InBounds platform32 s)
    (h : (exec (call platform32) (fun _ _ => true) (start platform32 size zeroed) calls).any p = true) :
    LeavesBounds size calls := by
  obtain ⟨s, hrun, hp⟩ : ∃ s, Run (call platform32) (fun _ _ => True) (start platform32 size zeroed) calls s ∧
      p s = true := exists_run _ p (fun _ _ _ => trivial) h
  exact ⟨s, hrun, hbad s hp⟩

/-- The first comparison of a clause in code of 16 bytes, and the fourth variable of a clause. -/
theorem lvm_out_of_bounds : LeavesBounds 16 [.jumpToOperand, .setOperand] ∧ LeavesBounds 128 [.registerVariable
    [0x61], .registerVariable [0x62], .registerVariable [0x63], .registerVariable [0x64]] := by
  constructor
  · refine leavesBounds_of_exec (fun s => decide ((s.size : Int) < s.codeEnd)) (fun s hp h => ?_) (by decide)
    exact Int.not_lt.mpr h.codeEnd (of_decide_eq_true hp)
  · refine leavesBounds_of_exec (fun s => decide (3 ∈ s.indices)) (fun s hp h => ?_) (by decide)
    exact absurd (h.indices 3 (of_decide_eq_true hp)) (by decide)

end CSync.Lvm
