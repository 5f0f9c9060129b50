import Mathlib.Data.List.Pairwise
import CSync.Coffee.Headers

/-! The page map: how the flash is divided into extents.

    A layout says which pages are which: the extents of active files, those of removed ones, isolated pages,
    and, in the middle of garbage collection, a gap of pages whose header is already erased. All other pages
    are free. `PageMap` says that the headers on the flash agree with a layout, that extents do not overlap,
    that free pages are zero, and that no used page follows a free one in its sector.

    A seam is a page number where no extent is cut and no free run is entered in its middle. The walk over
    `next_file` runs through the seams, all of them. -/

namespace CSync.Coffee

open Lib

def Extent.stop (e : Extent) : Nat := e.page + e.size

def Extent.Covers (e : Extent) (p : Nat) : Prop := e.page ≤ p ∧ p < e.stop

def Extent.Apart (a b : Extent) : Prop := a.stop ≤ b.page ∨ b.stop ≤ a.page

structure Layout where
  live : List Extent
  dead : List Extent
  iso : Nat → Prop
  gap : Nat → Prop

namespace Layout

def extents (l : Layout) : List Extent := l.live ++ l.dead

def Used (l : Layout) (p : Nat) : Prop := (∃ e ∈ l.extents, e.Covers p) ∨ l.iso p ∨ l.gap p

def Boundary (l : Layout) (p : Nat) : Prop := ∀ e ∈ l.extents, ¬(e.page < p ∧ p < e.stop)

/-- A free run that reaches the page begins with it. -/
def Start (c : Config) (l : Layout) (p : Nat) : Prop :=
  p % c.pagesPerSector = 0 ∨ 0 < p ∧ l.Used (p - 1)

structure Seam (c : Config) (l : Layout) (p : Nat) : Prop where
  le : p ≤ c.pageCount
  boundary : l.Boundary p
  start : l.Start c p

end Layout

structure PageMap (c : Config) (f : Nat → UInt8) (l : Layout) : Prop where
  live_header : ∀ e ∈ l.live,
    (readHeader c f e.page).active = true ∧ (readHeader c f e.page).maxPages = e.size
  dead_header : ∀ e ∈ l.dead,
    (readHeader c f e.page).flags.allocated = true ∧ (readHeader c f e.page).flags.obsolete = true ∧
      (readHeader c f e.page).flags.isolated = false ∧ (readHeader c f e.page).maxPages = e.size
  iso_header : ∀ p, l.iso p →
    (readHeader c f p).flags.allocated = true ∧ (readHeader c f p).flags.isolated = true
  inside : ∀ e ∈ l.extents, 0 < e.size ∧ e.stop ≤ c.pageCount
  iso_lt : ∀ p, l.iso p → p < c.pageCount
  disjoint : l.extents.Pairwise Extent.Apart
  iso_apart : ∀ p, l.iso p → ∀ e ∈ l.extents, ¬e.Covers p
  gap_apart : ∀ p, l.gap p → ¬l.iso p ∧ ∀ e ∈ l.extents, ¬e.Covers p
  free_zero : ∀ p < c.pageCount, ¬l.Used p → ∀ a, InPage c p a → f a = 0
  tight : ∀ p, ¬l.Used p → (p + 1) % c.pagesPerSector ≠ 0 → ¬l.Used (p + 1)

variable {c : Config} {f : Nat → UInt8} {l : Layout}

instance : Std.Symm Extent.Apart := ⟨fun _ _ h => Or.symm h⟩

variable {p : Nat} {e : Extent}

theorem PageMap.eq_of_covers (h : PageMap c f l) {a b : Extent} (ha : a ∈ l.extents) (hb : b ∈ l.extents)
    (hpa : a.Covers p) (hpb : b.Covers p) : a = b := by
  by_contra hne
  have hapart : a.Apart b := h.disjoint.forall ha hb hne
  obtain ⟨h1, h2⟩ := hpa
  obtain ⟨h3, h4⟩ := hpb
  rcases hapart with h' | h' <;> omega

theorem Layout.mem_extents_of_live (he : e ∈ l.live) : e ∈ l.extents := List.mem_append_left _ he

theorem Layout.mem_extents_of_dead (he : e ∈ l.dead) : e ∈ l.extents := List.mem_append_right _ he

/-! ### Sectors -/

/-- The first page of the next sector. -/
def sectorEnd (c : Config) (p : Nat) : Nat := (p + c.pagesPerSector) / c.pagesPerSector * c.pagesPerSector

theorem sectorEnd_eq (c : Config) (p : Nat) : sectorEnd c p = (p / c.pagesPerSector + 1) * c.pagesPerSector := by
  rw [sectorEnd, Nat.add_div_right p c.pagesPerSector_pos]

theorem lt_sectorEnd (c : Config) (p : Nat) : p < sectorEnd c p := by
  rw [sectorEnd_eq]
  exact Nat.lt_mul_of_div_lt (Nat.lt_succ_self _) c.pagesPerSector_pos

theorem sectorEnd_mod (c : Config) (p : Nat) : sectorEnd c p % c.pagesPerSector = 0 := Nat.mul_mod_left _ _

theorem sectorEnd_le (hp : p < c.pageCount) : sectorEnd c p ≤ c.pageCount := by
  rw [sectorEnd_eq, Config.pageCount]
  refine Nat.mul_le_mul_right _ ?_
  exact (Nat.div_lt_iff_lt_mul c.pagesPerSector_pos).mpr hp

theorem mod_ne_of_lt_sectorEnd {q : Nat} (hlt : p < q) (hq : q < sectorEnd c p) : q % c.pagesPerSector ≠ 0 := by
  intro hmod
  rw [sectorEnd_eq] at hq
  have hdiv : q / c.pagesPerSector < p / c.pagesPerSector + 1 := (Nat.div_lt_iff_lt_mul c.pagesPerSector_pos).mpr hq
  have hqe := Nat.div_add_mod q c.pagesPerSector
  have hpe := Nat.div_mul_le_self p c.pagesPerSector
  have hle : c.pagesPerSector * (q / c.pagesPerSector) ≤ p / c.pagesPerSector * c.pagesPerSector := by
    rw [mul_comm]
    exact Nat.mul_le_mul_right _ (by omega)
  omega

theorem PageMap.free_run (h : PageMap c f l) (hp : ¬l.Used p) : ∀ q, p ≤ q → q < sectorEnd c p → ¬l.Used q := by
  intro q hle
  induction q, hle using Nat.le_induction with
  | base => exact fun _ => hp
  | succ q hle ih =>
    intro hlt
    exact h.tight q (ih (by omega)) (mod_ne_of_lt_sectorEnd (by omega) hlt)

/-! ### Headers at boundaries -/

theorem Layout.Boundary.cases (hb : l.Boundary p) :
    (∃ e ∈ l.live, e.page = p) ∨ (∃ e ∈ l.dead, e.page = p) ∨ l.iso p ∨ l.gap p ∨ ¬l.Used p := by
  by_cases hu : l.Used p
  · rcases hu with ⟨e, he, hlo, hhi⟩ | hu | hu
    · have hpage : e.page = p := by
        by_contra hne
        exact hb e he ⟨by omega, hhi⟩
      rcases List.mem_append.mp he with he | he
      · exact .inl ⟨e, he, hpage⟩
      · exact .inr (.inl ⟨e, he, hpage⟩)
    · exact .inr (.inr (.inl hu))
    · exact .inr (.inr (.inr (.inl hu)))
  · exact .inr (.inr (.inr (.inr hu)))

section
variable (h : PageMap c f l)
include h

theorem PageMap.nextFile_live (he : e ∈ l.live) :
    (readHeader c f e.page).free = false ∧ nextFile c e.page (readHeader c f e.page) = e.stop := by
  obtain ⟨hact, hmax⟩ := h.live_header e he
  simp only [FileHeader.active, Bool.and_eq_true, Bool.not_eq_true'] at hact
  simp [FileHeader.free, nextFile, hact.1.1, hact.2, hmax, Extent.stop]

theorem PageMap.nextFile_dead (he : e ∈ l.dead) :
    (readHeader c f e.page).free = false ∧ nextFile c e.page (readHeader c f e.page) = e.stop := by
  obtain ⟨hall, -, hiso, hmax⟩ := h.dead_header e he
  simp [FileHeader.free, nextFile, hall, hiso, hmax, Extent.stop]

theorem PageMap.nextFile_iso (hp : l.iso p) :
    (readHeader c f p).free = false ∧ nextFile c p (readHeader c f p) = p + 1 := by
  obtain ⟨hall, hiso⟩ := h.iso_header p hp
  simp [FileHeader.free, nextFile, hall, hiso]

theorem PageMap.nextFile_free (hlt : p < c.pageCount) (hp : ¬l.Used p) :
    (readHeader c f p).free = true ∧ nextFile c p (readHeader c f p) = sectorEnd c p := by
  have hfree := free_of_zero (h.free_zero p hlt hp)
  exact ⟨hfree, by rw [nextFile, if_pos hfree, sectorEnd]⟩

end

/-! ### Seams -/

section
variable (h : PageMap c f l)
include h

theorem PageMap.seam_stop (he : e ∈ l.extents) : l.Seam c e.stop := by
  obtain ⟨hpos, hle⟩ := h.inside e he
  have hstop : e.stop = e.page + e.size := rfl
  refine ⟨hle, fun e' he' hin => ?_, .inr ⟨by omega, .inl ⟨e, he, by omega, by omega⟩⟩⟩
  have heq : e = e' := h.eq_of_covers he he' (p := e.stop - 1) ⟨by omega, by omega⟩ ⟨by omega, by omega⟩
  rw [← heq] at hin
  omega

theorem PageMap.seam_iso (hp : l.iso p) : l.Seam c (p + 1) := by
  refine ⟨h.iso_lt p hp, fun e he hin => ?_, .inr ⟨Nat.succ_pos p, .inr (.inl hp)⟩⟩
  exact h.iso_apart p hp e he ⟨by omega, by omega⟩

theorem PageMap.seam_free (hlt : p < c.pageCount) (hp : ¬l.Used p) :
    l.Seam c (sectorEnd c p) := by
  refine ⟨sectorEnd_le hlt, fun e he hin => ?_, .inl (sectorEnd_mod c p)⟩
  have hlast := h.free_run hp (sectorEnd c p - 1) (by have := lt_sectorEnd c p; omega)
    (by have := lt_sectorEnd c p; omega)
  exact hlast (.inl ⟨e, he, by omega, by omega⟩)

theorem PageMap.next_seam (hgap : ∀ p, ¬l.gap p) (hp : l.Seam c p) (hlt : p < c.pageCount) :
    p < nextFile c p (readHeader c f p) ∧ l.Seam c (nextFile c p (readHeader c f p)) ∧
      ∀ q, l.Seam c q → p < q → nextFile c p (readHeader c f p) ≤ q := by
  have hextent : ∀ e ∈ l.extents, e.page = p → nextFile c p (readHeader c f p) = e.stop →
      p < nextFile c p (readHeader c f p) ∧ l.Seam c (nextFile c p (readHeader c f p)) ∧
        ∀ q, l.Seam c q → p < q → nextFile c p (readHeader c f p) ≤ q := by
    intro e he hpage hnext
    rw [hnext]
    refine ⟨?_, h.seam_stop he, fun q hq hpq => ?_⟩
    · have := (h.inside e he).1
      rw [Extent.stop]
      omega
    · by_contra hlt
      exact hq.boundary e he ⟨by omega, by omega⟩
  rcases hp.boundary.cases with ⟨e, he, hpage⟩ | ⟨e, he, hpage⟩ | hiso | hg | hfree
  · refine hextent e (l.mem_extents_of_live he) hpage ?_
    rw [← hpage]
    exact (h.nextFile_live he).2
  · refine hextent e (l.mem_extents_of_dead he) hpage ?_
    rw [← hpage]
    exact (h.nextFile_dead he).2
  · rw [(h.nextFile_iso hiso).2]
    exact ⟨Nat.lt_succ_self p, h.seam_iso hiso, fun q _ hpq => hpq⟩
  · exact absurd hg (hgap p)
  · rw [(h.nextFile_free hlt hfree).2]
    refine ⟨lt_sectorEnd c p, h.seam_free hlt hfree, fun q hq hpq => ?_⟩
    -- A seam inside the free run would have to follow a used page.
    by_contra hlt'
    rcases hq.start with hmod | ⟨hpos, hused⟩
    · exact mod_ne_of_lt_sectorEnd hpq (by omega) hmod
    · exact h.free_run hfree (q - 1) (by omega) (by omega) hused

end

end CSync.Coffee
