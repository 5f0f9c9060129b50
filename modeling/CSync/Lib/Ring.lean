import Mathlib.Data.Fin.Basic
import Mathlib.Data.List.Basic
import Mathlib.Tactic.Ring

/-! Ring buffers.

    A ring of `n` places holds up to `n - 1` elements between two indices: elements are put where `put`
    stands and taken where `get` stands. Indices wrap around at `n`. `toList` is what the ring holds, the
    oldest first; `put` appends to it and `get` drops its head. -/

namespace Lib

open List Function

/-- A ring of `n` places. -/
structure Ring (n : Nat) (α : Type) where
  put : Fin n
  get : Fin n
  array : Fin n → α

namespace Ring

variable {n : Nat} {α : Type}

/-- The index behind `i`. -/
def next (i : Fin n) : Fin n := ⟨(i + 1) % n, Nat.mod_lt _ i.pos⟩

/-- The number of elements. -/
def elements (r : Ring n α) : Nat := (r.put + n - r.get) % n

/-- The index for the next element, if there is room for it. -/
def peekPut (r : Ring n α) : Option (Fin n) := if r.elements = n - 1 then none else some r.put

/-- Write a place. -/
def store (r : Ring n α) (i : Fin n) (a : α) : Ring n α :=
  { r with array := update r.array i a }

/-- Count the place at `put` as an element, if there is room. -/
def advance (r : Ring n α) : Ring n α :=
  if r.elements = n - 1 then r else { r with put := next r.put }

/-- The index of the oldest element. -/
def peekGet (r : Ring n α) : Option (Fin n) := if 0 < r.elements then some r.get else none

def drop (r : Ring n α) : Ring n α := if 0 < r.elements then { r with get := next r.get } else r

/-- The place of the element `i`. -/
def place (r : Ring n α) (i : Nat) : Fin n := ⟨(r.get + i) % n, Nat.mod_lt _ r.get.pos⟩

/-- The elements, the oldest first. -/
def toList (r : Ring n α) : List α := (range r.elements).map fun i => r.array (r.place i)

/-! ### Arithmetic of the indices -/

theorem elements_eq (r : Ring n α) : r.elements =
    if r.get.val ≤ r.put.val then r.put.val - r.get.val else r.put.val + n - r.get.val := by
  rw [elements]
  split
  · rw [Nat.sub_add_comm ‹_›, Nat.add_mod_right, Nat.mod_eq_of_lt (by omega)]
  · exact Nat.mod_eq_of_lt (by omega)

theorem elements_lt (r : Ring n α) : r.elements < n := Nat.mod_lt _ r.put.pos

variable {r : Ring n α}

theorem place_val {i : Nat} (h : i < n) :
    (r.place i).val = if r.get.val + i < n then r.get.val + i else r.get.val + i - n := by
  split
  · exact Nat.mod_eq_of_lt ‹_›
  · show (r.get.val + i) % n = _
    rw [Nat.mod_eq_sub_mod (by omega), Nat.mod_eq_of_lt (by omega)]

theorem next_val (i : Fin n) : (next i).val = if i.val + 1 < n then i.val + 1 else 0 := by
  split
  · exact Nat.mod_eq_of_lt ‹_›
  · show (i.val + 1) % n = 0
    rw [show i.val + 1 = n by omega, Nat.mod_self]

@[simp] theorem length_toList (r : Ring n α) : r.toList.length = r.elements := by simp [toList]

@[simp] theorem elements_store (r : Ring n α) (i : Fin n) (a : α) : (r.store i a).elements = r.elements := rfl

/-! ### What the operations do to the list -/

theorem place_ne_put {i : Nat} (h : i < r.elements) : r.place i ≠ r.put := by
  have hlt := r.elements_lt
  intro heq
  have hval := congrArg Fin.val heq
  rw [place_val (by omega)] at hval
  rw [elements_eq] at h
  split_ifs at * <;> omega

theorem toList_put (h : r.elements ≠ n - 1) (a : α) : (r.store r.put a).advance.toList = r.toList ++ [a] := by
  have hlt := r.elements_lt
  have hcount : (r.store r.put a).advance.elements = r.elements + 1 := by
    rw [advance, elements_store, if_neg h, elements_eq, elements_eq]
    rw [elements_eq] at h hlt
    have hnext := next_val r.put
    simp only [store, hnext] at h hlt ⊢
    split_ifs at * <;> omega
  have hget' : (r.store r.put a).advance.get = r.get := by
    rw [advance, elements_store, if_neg h]
    rfl
  have harray : (r.store r.put a).advance.array = update r.array r.put a := by
    rw [advance, elements_store, if_neg h]
    rfl
  have hplace : ∀ i, (r.store r.put a).advance.place i = r.place i := by
    intro i
    rw [place, place]
    simp only [hget']
  have hlast : r.place r.elements = r.put := by
    refine Fin.ext ?_
    rw [place_val hlt, elements_eq]
    split_ifs <;> omega
  rw [toList, hcount, range_succ, map_append, toList, harray]
  refine congrArg₂ _ (map_congr_left ?_) ?_
  · intro i hi
    rw [hplace, update_of_ne (place_ne_put (mem_range.mp hi))]
  · rw [map_singleton, hplace, hlast, update_self]

theorem toList_store_put (r : Ring n α) (a : α) : (r.store r.put a).toList = r.toList := by
  rw [toList, toList, elements_store]
  refine map_congr_left fun i hi => ?_
  show update r.array r.put a (r.place i) = _
  rw [update_of_ne (place_ne_put (mem_range.mp hi))]

/-- The place in front of `get` is not at `put` while there is room: a taken element stays until the next
    one is taken. -/
theorem ne_put_of_next {i : Fin n} (hi : next i = r.get) (h : r.elements ≠ n - 1) : i ≠ r.put := by
  rintro rfl
  have hnext := next_val r.put
  rw [elements_eq] at h
  split_ifs at * <;> omega

theorem toList_eq_cons (h : 0 < r.elements) : r.toList = r.array r.get :: r.drop.toList := by
  have hlt := r.elements_lt
  have hdrop : r.drop = { r with get := next r.get } := if_pos h
  have hcount : r.elements = r.drop.elements + 1 := by
    rw [hdrop, elements_eq, elements_eq]
    rw [elements_eq] at h
    have hnext := next_val r.get
    simp only [hnext] at h ⊢
    split_ifs at * <;> omega
  have hfirst : r.place 0 = r.get := Fin.ext (by rw [place_val (by omega)]; split_ifs <;> omega)
  rw [toList, hcount, range_succ_eq_map, map_cons, hfirst, toList, map_map]
  refine congrArg _ (map_congr_left ?_)
  intro i hi
  rw [mem_range] at hi
  have hplace : r.place (i + 1) = r.drop.place i := by
    refine Fin.ext ?_
    have hnext := next_val r.get
    rw [place_val (by omega), place_val (by omega), hdrop]
    simp only [hnext]
    split_ifs <;> omega
  show r.array (r.place (i + 1)) = r.drop.array (r.drop.place i)
  rw [hplace, hdrop]

theorem toList_eq_nil (h : ¬0 < r.elements) : r.toList = [] := by
  rw [toList, show r.elements = 0 by omega]
  rfl

theorem toList_drop (r : Ring n α) : r.drop.toList = r.toList.tail := by
  by_cases h : 0 < r.elements
  · rw [toList_eq_cons h, tail_cons]
  · rw [drop, if_neg h, toList_eq_nil h, tail_nil]

theorem put_drop (r : Ring n α) : r.drop.put = r.put := by
  rw [drop]
  split <;> rfl

theorem peekGet_eq (r : Ring n α) : r.peekGet.map r.array = r.toList.head? := by
  rw [peekGet]
  split
  next h =>
    rw [toList_eq_cons h]
    rfl
  next h =>
    rw [toList_eq_nil h]
    rfl

theorem elements_drop (r : Ring n α) : r.drop.elements = r.elements - 1 := by
  rw [← length_toList, ← length_toList, toList_drop, length_tail]

end Ring

end Lib
