import CSync.Coffee.Space

/-! The search for free pages is complete, but for the last page: a run is given up on when it would end with
    the flash. -/

namespace CSync.Coffee

variable {c : Config} {f : Nat → UInt8} {l : Layout}

/-- SOUND: a page that is found begins a run of free pages, and is free itself. -/
theorem PageMap.findLoop_free (h : PageMap c f l) (hgap : ∀ p, ¬l.gap p) {amount fuel page s : Nat}
    {start : Option Nat} (hpage : l.Seam c page) (hstart : ∀ t, start = some t → ¬l.Used t)
    (hfind : findLoop c f amount fuel page start = some s) : ¬l.Used s := by
  induction fuel generalizing page start with
  | zero => cases hfind
  | succ fuel ih =>
    rw [findLoop] at hfind
    split at hfind
    next hlt =>
      obtain ⟨-, hseam, -⟩ := h.next_seam hgap hpage hlt
      dsimp only at hfind
      split at hfind
      next hfree =>
        have hunused := h.unused_of_free hgap hpage.boundary hfree
        have hfirst : ¬l.Used (start.getD page) := by
          cases start with
          | none => exact hunused
          | some t => exact hstart t rfl
        split at hfind
        · cases hfind
        · split at hfind
          · rw [Option.some.injEq] at hfind
            exact hfind ▸ hfirst
          · refine ih hseam (fun t ht => ?_) hfind
            rw [Option.some.injEq] at ht
            exact ht ▸ hfirst
      · exact ih hseam (fun t ht => (by cases ht)) hfind
    · cases hfind

end CSync.Coffee
