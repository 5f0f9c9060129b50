import Mathlib.Data.List.Nodup
import Mathlib.Data.List.Perm.Subperm

/-! The greatest few of a set, in order.

    `r x y` says that `x` outranks `y`. `IsTop r k s l` says that the list `l` has the `k` highest ranked elements of
    `s`, or all of them if there are fewer, each once and the higher ranked first. There is one such list only
    (`IsTop.unique`), so how it came about does not matter. A further element is on the list already, is put in its
    place, is put there for the last one of a full list, or is outranked by a full list. -/

namespace Lib

open List

variable {α : Type} {r : α → α → Prop} {k : Nat} {s : α → Prop} {l : List α}

/-- The `k` highest ranked elements of `s` in order. -/
structure IsTop (r : α → α → Prop) (k : Nat) (s : α → Prop) (l : List α) : Prop where
  sorted : l.Pairwise r
  mem : ∀ x ∈ l, s x
  length_le : l.length ≤ k
  best : ∀ x, s x → x ∈ l ∨ (l.length = k ∧ ∀ y ∈ l, r y x)

theorem isTop_nil : IsTop r k (fun _ => False) [] :=
  ⟨List.Pairwise.nil, nofun, Nat.zero_le k, fun _ h => h.elim⟩

theorem IsTop.congr {s' : α → Prop} (h : IsTop r k s l) (hs : ∀ x, s' x ↔ s x) : IsTop r k s' l :=
  ⟨h.sorted, fun x hx => (hs x).mpr (h.mem x hx), h.length_le, fun x hx => h.best x ((hs x).mp hx)⟩

theorem nodup_of_ranked (hirrefl : ∀ x, ¬ r x x) (h : l.Pairwise r) : l.Nodup := by
  refine h.imp fun {x y} hxy => ?_
  rintro rfl
  exact hirrefl x hxy

/-- A full list leaves out only what another one leaves out too. -/
theorem IsTop.subset (htrans : ∀ x y z, r x y → r y z → r x z) (hirrefl : ∀ x, ¬ r x x) {l' : List α}
    (h : IsTop r k s l) (h' : IsTop r k s l') : l ⊆ l' := by
  intro x hx
  rcases h'.best x (h.mem x hx) with hin | ⟨hfull, hall⟩
  · exact hin
  exfalso
  have hback : l' ⊆ l := by
    intro y hy
    rcases h.best y (h'.mem y hy) with hin | ⟨_, habove⟩
    · exact hin
    · exact absurd (htrans _ _ _ (habove x hx) (hall y hy)) (hirrefl x)
  have hout : x ∉ l' := fun hin => hirrefl x (hall x hin)
  have hnodup : (x :: l').Nodup := nodup_cons.mpr ⟨hout, nodup_of_ranked hirrefl h'.sorted⟩
  have hsub : (x :: l').Subperm l := hnodup.subperm (cons_subset.mpr ⟨hx, hback⟩)
  have hlen := hsub.length_le
  have hle := h.length_le
  rw [length_cons] at hlen
  omega

/-- UNIQUENESS: the list depends on the set alone. -/
theorem IsTop.unique (htrans : ∀ x y z, r x y → r y z → r x z) (hirrefl : ∀ x, ¬ r x x) {l' : List α}
    (h : IsTop r k s l) (h' : IsTop r k s l') : l = l' := by
  have hperm : l.Perm l' := (perm_ext_iff_of_nodup (nodup_of_ranked hirrefl h.sorted)
    (nodup_of_ranked hirrefl h'.sorted)).mpr fun x =>
      ⟨fun hx => h.subset htrans hirrefl h' hx, fun hx => h'.subset htrans hirrefl h hx⟩
  refine hperm.eq_of_pairwise (fun x y _ _ hxy hyx => ?_) h.sorted h'.sorted
  exact absurd (htrans _ _ _ hxy hyx) (hirrefl x)

/-! ### One more element -/

variable {a : α} {l₁ l₂ : List α}

/-- It is on the list. -/
theorem IsTop.add_mem (h : IsTop r k s l) (ha : a ∈ l) : IsTop r k (fun x => s x ∨ x = a) l := by
  refine ⟨h.sorted, fun x hx => .inl (h.mem x hx), h.length_le, fun x hx => ?_⟩
  rcases hx with hx | rfl
  · exact h.best x hx
  · exact .inl ha

/-- A full list outranks it. -/
theorem IsTop.add_low (h : IsTop r k s l) (hfull : l.length = k) (ha : ∀ y ∈ l, r y a) :
    IsTop r k (fun x => s x ∨ x = a) l := by
  refine ⟨h.sorted, fun x hx => .inl (h.mem x hx), h.length_le, fun x hx => ?_⟩
  rcases hx with hx | rfl
  · exact h.best x hx
  · exact .inr ⟨hfull, ha⟩

theorem pairwise_insert (h : (l₁ ++ l₂).Pairwise r) (h₁ : ∀ y ∈ l₁, r y a)
    (h₂ : ∀ y ∈ l₂, r a y) : (l₁ ++ a :: l₂).Pairwise r := by
  obtain ⟨hl₁, hl₂, hcross⟩ := pairwise_append.mp h
  refine pairwise_append.mpr ⟨hl₁, pairwise_cons.mpr ⟨h₂, hl₂⟩, fun x hx y hy => ?_⟩
  rcases mem_cons.mp hy with rfl | hy
  · exact h₁ x hx
  · exact hcross x hx y hy

/-- There is room for it. -/
theorem IsTop.add_insert (h : IsTop r k s (l₁ ++ l₂)) (hroom : (l₁ ++ l₂).length < k)
    (h₁ : ∀ y ∈ l₁, r y a) (h₂ : ∀ y ∈ l₂, r a y) : IsTop r k (fun x => s x ∨ x = a) (l₁ ++ a :: l₂) := by
  refine ⟨pairwise_insert h.sorted h₁ h₂, fun x hx => ?_, ?_, fun x hx => .inl ?_⟩
  · rcases mem_append.mp hx with hx | hx
    · exact .inl (h.mem x (mem_append_left _ hx))
    · rcases mem_cons.mp hx with rfl | hx
      · exact .inr rfl
      · exact .inl (h.mem x (mem_append_right _ hx))
  · rw [length_append] at hroom
    rw [length_append, length_cons]
    omega
  · rw [mem_append, mem_cons]
    rcases hx with hx | rfl
    · rcases h.best x hx with hin | ⟨hfull, _⟩
      · rcases mem_append.mp hin with hin | hin
        · exact .inl hin
        · exact .inr (.inr hin)
      · omega
    · exact .inr (.inl rfl)

/-- The list is full, and the last one makes room for it. -/
theorem IsTop.add_replace (htrans : ∀ x y z, r x y → r y z → r x z) {b : α}
    (h : IsTop r k s (l₁ ++ (l₂ ++ [b]))) (hfull : (l₁ ++ (l₂ ++ [b])).length = k) (h₁ : ∀ y ∈ l₁, r y a)
    (h₂ : ∀ y ∈ l₂ ++ [b], r a y) : IsTop r k (fun x => s x ∨ x = a) (l₁ ++ a :: l₂) := by
  have hsplit : (l₁ ++ l₂ ++ [b]).Pairwise r := by
    rw [append_assoc]
    exact h.sorted
  obtain ⟨hrest, -, hlast⟩ := pairwise_append.mp hsplit
  have hab : r a b := h₂ b (mem_append_right _ (mem_singleton.mpr rfl))
  have habove : ∀ y ∈ l₁ ++ a :: l₂, r y b := by
    intro y hy
    rcases mem_append.mp hy with hy | hy
    · exact hlast y (mem_append_left _ hy) b (mem_singleton.mpr rfl)
    · rcases mem_cons.mp hy with rfl | hy
      · exact hab
      · exact hlast y (mem_append_right _ hy) b (mem_singleton.mpr rfl)
  have hlen : (l₁ ++ a :: l₂).length = k := by
    simp only [length_append, length_cons, length_nil] at hfull ⊢
    omega
  refine ⟨pairwise_insert hrest h₁ fun y hy => h₂ y (mem_append_left _ hy), fun x hx => ?_, Nat.le_of_eq hlen,
    fun x hx => ?_⟩
  · rcases mem_append.mp hx with hx | hx
    · exact .inl (h.mem x (mem_append_left _ hx))
    · rcases mem_cons.mp hx with rfl | hx
      · exact .inr rfl
      · exact .inl (h.mem x (mem_append_right _ (mem_append_left _ hx)))
  · rcases hx with hx | rfl
    · rcases h.best x hx with hin | ⟨_, hbelow⟩
      · simp only [mem_append, mem_cons, not_mem_nil, or_false] at hin ⊢
        rcases hin with hin | hin | rfl
        · exact .inl (.inl hin)
        · exact .inl (.inr (.inr hin))
        · exact .inr ⟨hlen, fun y hy => habove y (by
            rw [mem_append, mem_cons]
            exact hy)⟩
      · -- what the last one outranked is outranked by what the last one is outranked by
        have hbx := hbelow b (mem_append_right _ (mem_append_right _ (mem_singleton.mpr rfl)))
        exact .inr ⟨hlen, fun y hy => htrans _ _ _ (habove y hy) hbx⟩
    · exact .inl (mem_append_right _ mem_cons_self)

end Lib
