import Mathlib.Data.List.Basic
import Mathlib.Data.Nat.ModEq

/-! Circular buffers with a count.

    A buffer of `n` slots holds `count` elements from the slot `first` on, wrapping around at `n`. An element is put
    behind the last one and taken at the first. -/

namespace Lib

open List

variable {α : Type}

def circular (n : Nat) (slots : Nat → α) (first count : Nat) : List α :=
  (range count).map fun i => slots ((first + i) % n)

@[simp] theorem length_circular (n : Nat) (slots : Nat → α) (first count : Nat) :
    (circular n slots first count).length = count := by simp [circular]

theorem slot_ne {n first i j : Nat} (hij : i < j) (hj : j < i + n) : (first + i) % n ≠ (first + j) % n := by
  intro heq
  have hdvd : n ∣ first + j - (first + i) := (Nat.modEq_iff_dvd' (by omega)).mp heq
  have hle := Nat.le_of_dvd (by omega) hdvd
  omega

/-- An element is put behind the last one. -/
theorem circular_push {n first count : Nat} (hcount : count < n) (slots : Nat → α) (a : α) : circular n
    (Function.update slots ((first + count) % n) a) first (count + 1) = circular n slots first count ++ [a] := by
  rw [circular, range_succ, map_append, map_singleton, Function.update_self, circular]
  refine congrArg (· ++ [a]) (map_congr_left fun i hi => ?_)
  have hi := mem_range.mp hi
  exact Function.update_of_ne (slot_ne hi (by omega)) ..

theorem circular_pop {n first count : Nat} (hfirst : first < n) (slots : Nat → α) :
    circular n slots first (count + 1) = slots first :: circular n slots ((first + 1) % n) count := by
  rw [circular, range_succ_eq_map, map_cons, add_zero, Nat.mod_eq_of_lt hfirst, map_map, circular]
  refine congrArg (slots first :: ·) (map_congr_left fun i _ => ?_)
  have hsum : (first + (i + 1)) % n = ((first + 1) % n + i) % n := by
    rw [Nat.mod_add_mod]
    congr 1
    omega
  exact congrArg slots hsum

end Lib
