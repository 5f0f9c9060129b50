import Mathlib.Algebra.Ring.Nat
import Mathlib.Data.List.Nodup

/-! Blocks one right behind the other.

    `Stacked ptr size p l` says that the blocks of the list start at `p`, in order, without a gap. The blocks in front
    of a block end where it starts or before, those behind it start where it ends or later, and if one is taken out and
    the ones behind it are lowered by its size the others are stacked again. -/

namespace Lib

open List

variable {ι : Type} {ptr ptr' size size' : ι → Nat}

def Stacked (ptr size : ι → Nat) : Nat → List ι → Prop
  | _, [] => True
  | p, a :: l => ptr a = p ∧ Stacked ptr size (p + size a) l

/-- The sizes of the blocks together. -/
def totalSize (size : ι → Nat) (l : List ι) : Nat := (l.map size).sum

@[simp] theorem totalSize_nil : totalSize size [] = 0 := rfl

@[simp] theorem totalSize_cons (a : ι) (l : List ι) : totalSize size (a :: l) = size a + totalSize size l := sum_cons

@[simp] theorem totalSize_append (l r : List ι) : totalSize size (l ++ r) = totalSize size l + totalSize size r := by
  rw [totalSize, map_append, sum_append]
  rfl

theorem totalSize_congr {l : List ι} (h : ∀ a ∈ l, size' a = size a) : totalSize size' l = totalSize size l :=
  congrArg sum (map_congr_left h)

theorem stacked_append : ∀ {l r : List ι} {p : Nat}, Stacked ptr size p (l ++ r) ↔
    Stacked ptr size p l ∧ Stacked ptr size (p + totalSize size l) r
  | [], r, p => by simp [Stacked]
  | a :: l, r, p => by
    rw [cons_append, Stacked, Stacked, stacked_append, totalSize_cons, Nat.add_assoc, and_assoc]

theorem Stacked.congr : ∀ {l : List ι} {p : Nat}, (∀ a ∈ l, ptr' a = ptr a ∧ size' a = size a) →
    Stacked ptr size p l → Stacked ptr' size' p l
  | [], _, _, _ => trivial
  | a :: l, p, hsame, h => by
    obtain ⟨hptr, hsize⟩ := hsame a mem_cons_self
    refine ⟨hptr.trans h.1, ?_⟩
    rw [hsize]
    exact h.2.congr fun b hb => hsame b (mem_cons_of_mem _ hb)

theorem Stacked.lower {d : Nat} : ∀ {l : List ι} {p : Nat}, d ≤ p → (∀ a ∈ l, ptr' a = ptr a - d) →
    Stacked ptr size p l → Stacked ptr' size (p - d) l
  | [], _, _, _, _ => trivial
  | a :: l, p, hd, hlow, h => by
    have ha := hlow a mem_cons_self
    refine ⟨by rw [ha, h.1], ?_⟩
    have hstart : p - d + size a = p + size a - d := by omega
    rw [hstart]
    exact h.2.lower (Nat.le_add_right_of_le hd) fun b hb => hlow b (mem_cons_of_mem _ hb)

/-- A block lies between the start of the first and the end of the last one. -/
theorem Stacked.bounds : ∀ {l : List ι} {p : Nat} {a : ι}, Stacked ptr size p l → a ∈ l →
    p ≤ ptr a ∧ ptr a + size a ≤ p + totalSize size l
  | b :: l, p, a, h, ha => by
    rw [totalSize_cons]
    rcases mem_cons.mp ha with rfl | ha
    · have hptr := h.1
      omega
    · have hrest := h.2.bounds ha
      omega

theorem Stacked.around {l r : List ι} {p : Nat} {a b : ι} (h : Stacked ptr size p (l ++ a :: r)) :
    ptr a = p + totalSize size l ∧ Stacked ptr size p l ∧ Stacked ptr size (ptr a + size a) r ∧
      (b ∈ l → ptr b + size b ≤ ptr a) ∧ (b ∈ r → ptr a + size a ≤ ptr b) := by
  obtain ⟨hl, hptr, hr⟩ := stacked_append.mp h
  rw [← hptr] at hr
  refine ⟨hptr, hl, hr, fun hb => ?_, fun hb => (hr.bounds hb).1⟩
  rw [hptr]
  exact (hl.bounds hb).2

/-- One block is taken out, and those behind it are lowered by its size. -/
theorem Stacked.take_out {l r : List ι} {p : Nat} {a : ι} (h : Stacked ptr size p (l ++ a :: r))
    (hl : ∀ b ∈ l, ptr' b = ptr b) (hr : ∀ b ∈ r, ptr' b = ptr b - size a) : Stacked ptr' size p (l ++ r) := by
  obtain ⟨hptr, hfront, hback, -⟩ := h.around (b := a)
  refine stacked_append.mpr ⟨hfront.congr fun b hb => ⟨hl b hb, rfl⟩, ?_⟩
  have hlow := hback.lower (Nat.le_add_left _ _) hr
  rw [Nat.add_sub_cancel] at hlow
  rw [← hptr]
  exact hlow

end Lib
