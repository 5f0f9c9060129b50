import CSync.Lib.Bytes
import Mathlib.Data.List.Induction

/-! Stores of single bytes, in the order in which a program makes them.

    `stored m s` is the buffer `m` after the stores `s`. A writer fills a buffer from offset 0 on; when its
    stores are `Packed` as the list `bs`, they are one store of `bs` at offset 0. -/

namespace Lib

open List Function

/-- A buffer after stores of single bytes. -/
def stored : (Nat → UInt8) → List (Nat × UInt8) → Nat → UInt8
  | m, [] => m
  | m, (i, b) :: s => stored (update m i b) s

theorem stored_append : ∀ (m : Nat → UInt8) (s t : List (Nat × UInt8)), stored m (s ++ t) = stored (stored m s) t
  | _, [], _ => rfl
  | m, (i, b) :: s, t => stored_append (update m i b) s t

/-- The index `pos` of the next byte, and the stores so far. -/
structure Writer where
  pos : Nat
  stores : List (Nat × UInt8)

namespace Writer

/-- `buffer[pos++] = b`. -/
def put (w : Writer) (b : UInt8) : Writer := ⟨w.pos + 1, w.stores ++ [(w.pos, b)]⟩

/-- `memcpy(&buffer[pos], src, n)`, byte by byte; `pos` stays. -/
def copy (w : Writer) (src : Nat → UInt8) : Nat → Writer
  | 0 => w
  | n + 1 => ⟨w.pos, (w.copy src n).stores ++ [(w.pos + n, src n)]⟩

/-- The stores are the bytes `bs`, one behind the other from index 0 on. -/
def Packed (w : Writer) (bs : List UInt8) : Prop := w.stores = bs.mapIdx Prod.mk

theorem packed_put {w : Writer} {bs : List UInt8} (h : w.Packed bs) (hpos : w.pos = bs.length) (b : UInt8) :
    (w.put b).Packed (bs ++ [b]) ∧ (w.put b).pos = (bs ++ [b]).length := by
  refine ⟨?_, ?_⟩
  · rw [Packed, mapIdx_concat, ← h, ← hpos]
    rfl
  · rw [length_append, length_singleton, ← hpos]
    rfl

theorem packed_copy {w : Writer} {bs : List UInt8} (h : w.Packed bs) (hpos : w.pos = bs.length)
    (src : Nat → UInt8) : ∀ n, (w.copy src n).Packed (bs ++ slice src 0 n)
  | 0 => by
    rw [slice, append_nil]
    exact h
  | n + 1 => by
    have ih := packed_copy h hpos src n
    have hlast : slice src 0 (n + 1) = slice src 0 n ++ [src n] := by
      rw [slice_append, zero_add]
      rfl
    rw [Packed, hlast, ← append_assoc, mapIdx_concat, ← ih, length_append, length_slice, ← hpos]
    rfl

end Writer

/-- The indices of packed stores are 0, 1, 2 and so on. -/
theorem map_fst_mapIdx (bs : List UInt8) : (bs.mapIdx Prod.mk).map Prod.fst = range bs.length := by
  apply ext_getElem
  · simp
  · intro i _ _
    simp

theorem stored_mapIdx (m : Nat → UInt8) (bs : List UInt8) : stored m (bs.mapIdx Prod.mk) = store m 0 bs := by
  induction bs using reverseRecOn with
  | nil =>
    funext i
    exact (store_outside (by simp)).symm
  | append_singleton bs b ih =>
    rw [mapIdx_concat, stored_append, ih, ← store_append, zero_add]
    funext i
    rw [stored, stored]
    rcases lt_trichotomy i bs.length with hlt | rfl | hgt
    · have hlast := store_inside (m := store m bs.length [b]) (o := 0) hlt
      have hfirst := store_inside (m := m) (o := 0) hlt
      rw [zero_add] at hlast hfirst
      rw [update_of_ne (ne_of_lt hlt), hlast, hfirst]
    · have hhit : store m bs.length [b] (bs.length + 0) = b := store_inside Nat.one_pos
      rw [add_zero] at hhit
      rw [update_self, store_outside (by omega), hhit]
    · rw [update_of_ne (ne_of_gt hgt), store_outside (by omega), store_outside (by omega),
        store_outside (by rw [length_singleton]; omega)]

end Lib
