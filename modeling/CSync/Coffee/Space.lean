import CSync.Coffee.PageMap

/-! Space on the flash: `find_contiguous_pages` finds free pages behind a seam. -/

namespace CSync.Coffee

open Lib

variable {c : Config} {f : Nat → UInt8} {l : Layout}

/-! ### The search -/

/-- A place for `amount` pages. -/
structure Room (c : Config) (l : Layout) (lo amount s : Nat) : Prop where
  seam : l.Seam c s
  le : lo ≤ s
  lt : s + amount < c.pageCount
  free : ∀ p, s ≤ p → p < s + amount → ¬l.Used p

theorem PageMap.unused_of_free (h : PageMap c f l) (hgap : ∀ p, ¬l.gap p) {page : Nat}
    (hpage : l.Boundary page) (hfree : (readHeader c f page).free = true) : ¬l.Used page := by
  intro hused
  rcases hpage.cases with ⟨e, he, rfl⟩ | ⟨e, he, rfl⟩ | hiso | hg | hun
  · rw [(h.nextFile_live he).1] at hfree; cases hfree
  · rw [(h.nextFile_dead he).1] at hfree; cases hfree
  · rw [(h.nextFile_iso hiso).1] at hfree; cases hfree
  · exact hgap page hg
  · exact hun hused

variable {lo amount s p : Nat} {e : Extent}

end CSync.Coffee
