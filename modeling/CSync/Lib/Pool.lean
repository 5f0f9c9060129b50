import Mathlib.Data.Fintype.Card

/-! Fixed pools of memory blocks, and lists that link their blocks.

    A pool has `N` blocks of type `α`, each with a reference count; `alloc` hands out the first block
    whose count is zero, `free` lowers a count. `Owns p l` is the conservation invariant of a pool
    whose blocks are linked in a list `l`: every block is counted exactly as often as it is linked,
    at most once, so nothing leaks and nothing foreign is linked. -/

namespace Lib

open List

/-- A pool of `N` blocks: their reference counts and their contents. -/
structure Pool (N : Nat) (α : Type) where
  count : Fin N → Nat
  mem : Fin N → α

namespace Pool

variable {N : Nat} {α : Type}

/-- All counts zero, all blocks cleared. -/
def init (a : α) : Pool N α := ⟨fun _ => 0, fun _ => a⟩

/-- The first block whose count is zero. -/
def freeBlock (p : Pool N α) : Option (Fin N) := (finRange N).find? fun i => p.count i == 0

/-- Count the block `i` once more. -/
def take (p : Pool N α) (i : Fin N) : Pool N α :=
  { p with count := Function.update p.count i (p.count i + 1) }

/-- Hand out the first free block, if there is one. -/
def alloc (p : Pool N α) : Option (Fin N) × Pool N α :=
  match p.freeBlock with
  | some i => (some i, p.take i)
  | none => (none, p)

/-- Lower the count of block `i`, never below zero. -/
def free (p : Pool N α) (i : Fin N) : Pool N α :=
  { p with count := Function.update p.count i (p.count i - 1) }

/-- Change the contents of block `i`. -/
def modify (p : Pool N α) (i : Fin N) (f : α → α) : Pool N α :=
  { p with mem := Function.update p.mem i (f (p.mem i)) }

/-- Conservation: the linked blocks are the counted ones, each linked and counted once. -/
structure Owns (p : Pool N α) (l : List (Fin N)) : Prop where
  nodup : l.Nodup
  count_eq : ∀ i, p.count i = if i ∈ l then 1 else 0

@[simp] theorem modify_count (p : Pool N α) (i : Fin N) (f : α → α) : (p.modify i f).count = p.count := rfl

@[simp] theorem take_mem (p : Pool N α) (i : Fin N) : (p.take i).mem = p.mem := rfl

@[simp] theorem free_mem (p : Pool N α) (i : Fin N) : (p.free i).mem = p.mem := rfl

theorem take_free_count (p : Pool N α) (i : Fin N) : ((p.take i).free i).count = p.count := by
  simp [take, free]

variable {p : Pool N α} {i : Fin N} {l l' : List (Fin N)}

theorem freeBlock_some (h : p.freeBlock = some i) : p.count i = 0 := by
  have := find?_some h
  simpa using this

theorem freeBlock_none (h : p.freeBlock = none) (i : Fin N) : p.count i ≠ 0 := by
  have := find?_eq_none.mp h i (mem_finRange i)
  simpa using this

theorem freeBlock_eq_some : p.freeBlock = some i ↔ p.count i = 0 ∧ ∀ j < i, p.count j ≠ 0 := by
  rw [freeBlock, find?_eq_some_iff_getElem]
  constructor
  · rintro ⟨hi, k, hk, rfl, hbefore⟩
    refine ⟨by simpa using hi, fun j hj => ?_⟩
    rw [getElem_finRange] at hj
    simpa using hbefore j.val hj
  · rintro ⟨hi, hbefore⟩
    refine ⟨by simpa using hi, i.val, by simp, by simp, fun j hj => ?_⟩
    simpa using hbefore ⟨j, lt_trans hj i.isLt⟩ hj

theorem owns_init (a : α) : Owns (init a : Pool N α) [] := ⟨nodup_nil, fun i => by simp [init]⟩

section
variable (h : Owns p l)
include h

/-- Contents do not matter to conservation. -/
theorem Owns.modify (i : Fin N) (f : α → α) : Owns (p.modify i f) l := ⟨h.nodup, h.count_eq⟩

/-- Nor does the order of the list. -/
theorem Owns.perm (hperm : l'.Perm l) : Owns p l' :=
  ⟨hperm.nodup_iff.mpr h.nodup, fun i => by simp only [h.count_eq i, hperm.mem_iff]⟩

theorem Owns.not_mem_of_free (hi : p.freeBlock = some i) : i ∉ l := by
  intro hmem
  have h0 := freeBlock_some hi
  rw [h.count_eq i, if_pos hmem] at h0
  cases h0

/-- Linking a freshly allocated block anywhere keeps conservation. -/
theorem Owns.take_insert
    (hi : p.freeBlock = some i) (hperm : l'.Perm (i :: l)) : Owns (p.take i) l' := by
  have hni := h.not_mem_of_free hi
  refine ⟨hperm.nodup_iff.mpr (nodup_cons.mpr ⟨hni, h.nodup⟩), fun j => ?_⟩
  by_cases hj : j = i
  · subst hj
    simp [take, freeBlock_some hi, hperm.mem_iff]
  · simp [take, h.count_eq j, hj, hperm.mem_iff]

/-- Unlinking a block and freeing it keeps conservation. -/
theorem Owns.free_erase (hperm : l.Perm (i :: l')) : Owns (p.free i) l' := by
  have hnd := hperm.nodup_iff.mp h.nodup
  obtain ⟨hni, hnd'⟩ := nodup_cons.mp hnd
  refine ⟨hnd', fun j => ?_⟩
  by_cases hj : j = i
  · subst hj
    have : p.count j = 1 := by rw [h.count_eq j, if_pos (hperm.mem_iff.mpr (by simp))]
    simp [free, this, hni]
  · have : p.count j = if j ∈ l' then 1 else 0 := by
      simp [h.count_eq j, hperm.mem_iff, hj]
    simp [free, Function.update_of_ne hj, this]

/-- A pool whose blocks are all counted has as many linked blocks as blocks. -/
theorem Owns.length_le : l.length ≤ N := by
  simpa using List.Nodup.length_le_card h.nodup

theorem Owns.countP_eq : (finRange N).countP (fun i => decide (p.count i ≠ 0)) = l.length := by
  have hmem : ∀ i, i ∈ (finRange N).filter (fun i => decide (p.count i ≠ 0)) ↔ i ∈ l := by
    intro i
    rw [mem_filter, decide_eq_true_iff, h.count_eq i]
    by_cases hi : i ∈ l
    · simp [hi]
    · simp [hi]
  rw [countP_eq_length_filter]
  exact ((perm_ext_iff_of_nodup ((nodup_finRange N).filter _) h.nodup).mpr hmem).length_eq

theorem Owns.exists_free (hlt : l.length < N) : ∃ i, p.freeBlock = some i := by
  cases hf : p.freeBlock with
  | some i => exact ⟨i, rfl⟩
  | none =>
    exfalso
    have hall : ∀ i, i ∈ l := fun i => by
      by_contra hni
      exact freeBlock_none hf i (by rw [h.count_eq i, if_neg hni])
    have hsub : (finRange N).Subperm l := List.Nodup.subperm (nodup_finRange N) fun i _ => hall i
    have := hsub.length_le
    rw [length_finRange] at this
    omega

theorem Owns.free_iff : p.freeBlock ≠ none ↔ l.length < N := by
  constructor
  · intro hfree
    obtain ⟨i, hi⟩ := Option.ne_none_iff_exists'.mp hfree
    have hnodup : (i :: l).Nodup := nodup_cons.mpr ⟨h.not_mem_of_free hi, h.nodup⟩
    have hlen : (i :: l).length ≤ N := by simpa using List.Nodup.length_le_card hnodup
    exact hlen
  · intro hlt
    obtain ⟨i, hi⟩ := h.exists_free hlt
    rw [hi]
    exact Option.some_ne_none i

end

/-- Lists hang off the nodes of a list, and what hangs off one node changes: `xs` leaves it. -/
theorem flatMap_perm {ι : Type} {f g : ι → List α} {a : ι} {xs : List α} (ha : (f a).Perm (xs ++ g a))
    (hother : ∀ b, b ≠ a → f b = g b) : ∀ {l : List ι}, l.Nodup → a ∈ l → (l.flatMap f).Perm (xs ++ l.flatMap g)
  | b :: l, hnd, hmem => by
    obtain ⟨hb, hnd⟩ := nodup_cons.mp hnd
    rw [flatMap_cons, flatMap_cons]
    by_cases hab : b = a
    · subst hab
      have hrest : l.flatMap f = l.flatMap g := by
        rw [flatMap, flatMap, map_congr_left fun d hd => hother d ?_]
        rintro rfl
        exact hb hd
      rw [hrest, ← append_assoc]
      exact ha.append_right _
    · have hmem : a ∈ l := (mem_cons.mp hmem).resolve_left (Ne.symm hab)
      rw [hother b hab]
      calc (g b ++ l.flatMap f).Perm (g b ++ (xs ++ l.flatMap g)) :=
            (flatMap_perm ha hother hnd hmem).append_left _
        _ = (g b ++ xs) ++ l.flatMap g := (append_assoc ..).symm
        List.Perm _ ((xs ++ g b) ++ l.flatMap g) := perm_append_comm.append_right _
        _ = xs ++ (g b ++ l.flatMap g) := append_assoc ..

end Pool

end Lib
