import CSync.Lib.Bytes

/-! Regions of memory.

    A region is an array of `size` bytes that a program writes with copies. `clean` remembers whether
    every copy so far had a count that is not negative and stayed inside the array. `Within lo hi` says of
    a piece of code that it wrote between `lo` and `hi` only; pieces are put together with `trans`. -/

namespace Lib

structure Region where
  size : Nat
  bytes : Nat → UInt8
  clean : Bool

namespace Region

/-- `memcpy` of `count` bytes to offset `o`. -/
def copy (r : Region) (o : Nat) (count : Int) (src : Nat → UInt8) : Region where
  size := r.size
  bytes i := if o ≤ i ∧ (i : Int) < o + count then src (i - o) else r.bytes i
  clean := r.clean && decide (0 ≤ count ∧ o + count ≤ r.size)

/-- A store of one byte. -/
def put (r : Region) (o : Nat) (b : UInt8) : Region := r.copy o 1 fun _ => b

@[simp] theorem copy_size (r : Region) (o : Nat) (count : Int) (src : Nat → UInt8) :
    (r.copy o count src).size = r.size := rfl

@[simp] theorem put_size (r : Region) (o : Nat) (b : UInt8) : (r.put o b).size = r.size := rfl

variable {o i lo hi : Nat} {count : Int} {r r' : Region}

theorem copy_inside (r : Region) (src : Nat → UInt8) (h : i < count) :
    (r.copy o count src).bytes (o + i) = src i := by
  rw [copy]
  dsimp only
  rw [if_pos (by omega), Nat.add_sub_cancel_left]

theorem copy_outside (r : Region) (src : Nat → UInt8)
    (h : i < o ∨ o + count ≤ i) : (r.copy o count src).bytes i = r.bytes i := by
  rw [copy]
  dsimp only
  rw [if_neg (by omega)]

theorem put_same (r : Region) (o : Nat) (b : UInt8) : (r.put o b).bytes o = b := copy_inside r (i := 0) _ Int.one_pos

theorem put_other (r : Region) (b : UInt8) (h : i ≠ o) : (r.put o b).bytes i = r.bytes i :=
  copy_outside r _ (by omega)

theorem copy_clean (r : Region) (o : Nat) (count : Int) (src : Nat → UInt8) :
    (r.copy o count src).clean = true ↔ r.clean = true ∧ 0 ≤ count ∧ o + count ≤ r.size := by
  rw [copy]
  rw [Bool.and_eq_true, decide_eq_true_iff]

/-- From `r` to `r'` only the bytes from `lo` to below `hi` were written. -/
structure Within (lo hi : Nat) (r r' : Region) : Prop where
  size : r'.size = r.size
  outside : ∀ i, i < lo ∨ hi ≤ i → r'.bytes i = r.bytes i
  clean : hi ≤ r.size → r.clean = true → r'.clean = true

theorem Within.refl (lo hi : Nat) (r : Region) : Within lo hi r r := ⟨rfl, fun _ _ => rfl, fun _ h => h⟩

section
variable (h : Within lo hi r r')
include h

theorem Within.trans {r'' : Region} (h' : Within lo hi r' r'') : Within lo hi r r'' := by
  refine ⟨h'.size.trans h.size, fun i hi => (h'.outside i hi).trans (h.outside i hi), ?_⟩
  intro hsize hclean
  exact h'.clean (by rw [h.size]; exact hsize) (h.clean hsize hclean)

theorem Within.mono {lo' hi' : Nat} (hlo : lo' ≤ lo) (hhi : hi ≤ hi') : Within lo' hi' r r' :=
  ⟨h.size, fun i hi => h.outside i (by omega), fun hs hc => h.clean (hhi.trans hs) hc⟩

theorem Within.copy {src : Nat → UInt8} (hcopy : lo ≤ o ∧ 0 ≤ count ∧ o + count ≤ hi) :
    Within lo hi r (r'.copy o count src) := by
  refine ⟨h.size, fun i hi => ?_, fun hsize hclean => ?_⟩
  · rw [copy_outside r' src (by omega)]
    exact h.outside i hi
  · rw [copy_clean, h.size]
    exact ⟨h.clean hsize hclean, by omega, by omega⟩

theorem Within.put {b : UInt8} (hput : lo ≤ o ∧ o + 1 ≤ hi) : Within lo hi r (r'.put o b) :=
  h.copy (by omega)

end

end Region

end Lib
