import CSync.Coffee.Headers
import CSync.Lib.Hops

/-! Garbage collection and the walk over the flash.

    Whatever else is on the flash, a greedy collection does not show on the walk: what it erases are sectors that no
    active extent of the walk has a page in, and what it isolates are pages of an obsolete extent. The walk over the
    new flash is compared with that over the old one: it is on a place of the old walk, in an erased sector, or on an
    isolated page, and from none of them it goes over the head of an active extent. -/

namespace CSync.Coffee

open Lib

variable {c : Config} {f g : Nat → UInt8}

/-- The page behind what a header says of its pages. -/
def nextAt (c : Config) (f : Nat → UInt8) (p : Nat) : Nat := nextFile c p (readHeader c f p)

/-- A page that the walk reads the header of. -/
def OnWalk (c : Config) (f : Nat → UInt8) (p : Nat) : Prop := Reached (nextAt c f) c.pageCount p ∧ p < c.pageCount

/-- The head of an active extent. -/
def ActiveAt (c : Config) (f : Nat → UInt8) (p : Nat) : Prop := OnWalk c f p ∧ (readHeader c f p).active = true

/-- What the walk comes to are free pages, without flags, isolated pages, and extents that have pages. -/
structure Walkable (c : Config) (f : Nat → UInt8) : Prop where
  clean : ∀ p, OnWalk c f p → (readHeader c f p).free = true →
    (readHeader c f p).flags.isolated = false ∧ (readHeader c f p).flags.obsolete = false
  pages : ∀ p, OnWalk c f p → (readHeader c f p).free = false → (readHeader c f p).flags.isolated = false →
    0 < (readHeader c f p).maxPages

/-! ### The walk -/

/-- The first page of a sector. -/
def sectorStart (c : Config) (k : Nat) : Nat := k * c.pagesPerSector

theorem sectorStart_succ (c : Config) (k : Nat) : sectorStart c (k + 1) = sectorStart c k + c.pagesPerSector :=
  Nat.succ_mul _ _

variable {k p n a : Nat} {skip : Skip}

theorem sectorStart_le (hk : k ≤ c.sectorCount) : sectorStart c k ≤ c.pageCount := Nat.mul_le_mul_right _ hk

theorem nextAt_free (h : (readHeader c f p).free = true) :
    nextAt c f p = sectorStart c (p / c.pagesPerSector + 1) := by
  rw [nextAt, nextFile, if_pos h, Nat.add_div_right p c.pagesPerSector_pos]
  rfl

theorem nextAt_isolated (h : (readHeader c f p).free = false)
    (hiso : (readHeader c f p).flags.isolated = true) : nextAt c f p = p + 1 := by
  rw [nextAt, nextFile, if_neg (by rw [h]; decide), if_pos hiso]

theorem nextAt_extent (h : (readHeader c f p).free = false)
    (hiso : (readHeader c f p).flags.isolated = false) : nextAt c f p = p + (readHeader c f p).maxPages := by
  rw [nextAt, nextFile, if_neg (by rw [h]; decide), if_neg (by rw [hiso]; decide)]

theorem lt_sectorStart (c : Config) (p : Nat) : p < sectorStart c (p / c.pagesPerSector + 1) :=
  Nat.lt_mul_of_div_lt (Nat.lt_succ_self _) c.pagesPerSector_pos

theorem FileHeader.active_iff (h : FileHeader) :
    h.active = true ↔ h.free = false ∧ h.flags.obsolete = false ∧ h.flags.isolated = false := by
  simp [FileHeader.active, FileHeader.free, and_assoc]

theorem Walkable.forward (hw : Walkable c f) : Forward (nextAt c f) c.pageCount := by
  intro p hp hpn
  cases hfree : (readHeader c f p).free
  · cases hiso : (readHeader c f p).flags.isolated
    · rw [nextAt_extent hfree hiso]
      exact Nat.lt_add_of_pos_right (hw.pages p ⟨hp, hpn⟩ hfree hiso)
    · rw [nextAt_isolated hfree hiso]
      exact Nat.lt_succ_self p
  · rw [nextAt_free hfree]
    exact lt_sectorStart c p

/-! ### The status of a sector -/

/-- What `get_sector_status` remembers when it comes to a sector: how far the last extent reaches into it. -/
structure Skipped (c : Config) (f : Nat → UInt8) (k : Nat) (skip : Skip) : Prop where
  reached : Reached (nextAt c f) c.pageCount (sectorStart c k + skip.skipPages)
  across : 0 < skip.skipPages → ∃ q, OnWalk c f q ∧ q < sectorStart c k ∧
    nextAt c f q = sectorStart c k + skip.skipPages ∧ (readHeader c f q).active = skip.lastPagesAreActive

/-- No active extent has a page in the sector. -/
def Inactive (c : Config) (f : Nat → UInt8) (k : Nat) : Prop :=
  ∀ q, ActiveAt c f q → nextAt c f q ≤ sectorStart c k ∨ sectorStart c (k + 1) ≤ q

theorem Skipped.le (hw : Walkable c f) (h : Skipped c f k skip)
    (hp : Reached (nextAt c f) c.pageCount p) (hle : sectorStart c k ≤ p) : sectorStart c k + skip.skipPages ≤ p := by
  by_contra hlt
  obtain ⟨q, hq, hqk, hnext, -⟩ := h.across (by omega)
  have := hq.1.hop_le hw.forward hq.2 hp (by omega)
  omega

/-- What the loop over a sector finds, from a place of the walk on. -/
structure Scanned (c : Config) (f : Nat → UInt8) (k page : Nat) (stats : SectorStatus)
    (r : SectorStatus × Bool) : Prop where
  reached : Reached (nextAt c f) c.pageCount (sectorStart c k + r.1.active + r.1.obsolete + r.1.free)
  end_le : sectorStart c (k + 1) ≤ sectorStart c k + r.1.active + r.1.obsolete + r.1.free
  across : sectorStart c (k + 1) < sectorStart c k + r.1.active + r.1.obsolete + r.1.free → ∃ q, OnWalk c f q ∧
    q < sectorStart c (k + 1) ∧ nextAt c f q = sectorStart c k + r.1.active + r.1.obsolete + r.1.free ∧
      (readHeader c f q).active = r.2 ∧ (r.2 = true → sectorStart c k + r.1.obsolete ≤ q)
  none : r.1.active = 0 → stats.active = 0 ∧ ∀ p, ActiveAt c f p → page ≤ p → sectorStart c (k + 1) ≤ p

/-- LOOP: every header of the sector, on a flash that has the headers of the walk there. -/
theorem sectorLoop_scanned (hw : Walkable c f) (hk : k < c.sectorCount) {fuel page : Nat} {stats : SectorStatus}
    {last : Bool} (hpage : Reached (nextAt c f) c.pageCount page)
    (hsame : ∀ p, OnWalk c f p → page ≤ p → p < sectorStart c (k + 1) → readHeader c g p = readHeader c f p)
    (hcount : sectorStart c k + stats.active + stats.obsolete = page) (hfree : stats.free = 0)
    (hfuel : sectorStart c (k + 1) ≤ page + fuel)
    (hover : sectorStart c (k + 1) ≤ page →
        ∃ q,
          OnWalk c f q ∧
          q < sectorStart c (k + 1) ∧
          nextAt c f q = page ∧
          (readHeader c f q).active = last ∧
          (last = true → sectorStart c k + stats.obsolete ≤ q)) :
    Scanned c f k page stats (sectorLoop c g (sectorStart c (k + 1)) fuel page stats last) := by
  have hcount' : sectorStart c k + stats.active + stats.obsolete + stats.free = page := by omega
  have hdone : sectorStart c (k + 1) ≤ page → Scanned c f k page stats (stats, last) := by
    intro hend
    refine ⟨by rw [hcount']; exact hpage, by rw [hcount']; exact hend, fun _ => ?_, fun h => ⟨h, fun p _ hle => by omega⟩⟩
    rw [hcount']
    exact hover hend
  induction fuel generalizing page stats last with
  | zero => exact hdone hfuel
  | succ fuel ih =>
    rw [sectorLoop]
    by_cases hlt : page < sectorStart c (k + 1)
    · have hn : page < c.pageCount := lt_of_lt_of_le hlt (sectorStart_le hk)
      have hon : OnWalk c f page := ⟨hpage, hn⟩
      have hbehind : ∀ p, ActiveAt c f p → page ≤ p → p ≠ page → nextAt c f page ≤ p := fun p hp hle hne =>
        hpage.hop_le hw.forward hn hp.1.1 (by omega)
      have hforward := hw.forward page hpage hn
      rw [if_pos hlt, hsame page hon le_rfl hlt]
      -- the rest of the loop, behind a header that is not free
      have hrest : ∀ (stats' : SectorStatus) (last' : Bool), (readHeader c f page).active = last' →
          sectorStart c k + stats'.active + stats'.obsolete = nextAt c f page → stats'.free = 0 →
          (last' = true → sectorStart c k + stats'.obsolete ≤ page) → (stats'.active = 0 → stats.active = 0) →
          (last' = true → stats'.active ≠ 0) →
          Scanned c f k page stats (sectorLoop c g (sectorStart c (k + 1)) fuel (nextAt c f page) stats' last') := by
        intro stats' last' hactive hsum hfree' hobs hzero hpos
        have hnow : sectorStart c (k + 1) ≤ nextAt c f page → ∃ q, OnWalk c f q ∧ q < sectorStart c (k + 1) ∧
            nextAt c f q = nextAt c f page ∧ (readHeader c f q).active = last' ∧
            (last' = true → sectorStart c k + stats'.obsolete ≤ q) :=
          fun _ => ⟨page, hon, hlt, rfl, hactive, hobs⟩
        have hsum' : sectorStart c k + stats'.active + stats'.obsolete + stats'.free = nextAt c f page := by omega
        obtain ⟨hr, he, ho, hz⟩ := @ih (nextAt c f page) stats' last' (hpage.hop hn)
          (fun p hp hle => hsame p hp (by omega)) hsum hfree' (by omega) hnow hsum' fun hend =>
            ⟨by rw [hsum']; exact hpage.hop hn, by rw [hsum']; exact hend, fun _ => by rw [hsum']; exact hnow hend,
              fun h => ⟨h, fun p _ hle => by omega⟩⟩
        refine ⟨hr, he, ho, fun h => ?_⟩
        obtain ⟨hstats, hall⟩ := hz h
        refine ⟨hzero hstats, fun p hp hle => ?_⟩
        by_cases hpp : p = page
        · rw [hpp] at hp
          exact absurd hstats (hpos (hactive.symm.trans hp.2))
        · exact hall p hp (hbehind p hp hle hpp)
      cases hfr : (readHeader c f page).free
      · cases hiso : (readHeader c f page).flags.isolated
        · have hnext := nextAt_extent hfr hiso
          cases hobs : (readHeader c f page).flags.obsolete
          · have hact : (readHeader c f page).active = true := (FileHeader.active_iff _).mpr ⟨hfr, hobs, hiso⟩
            rw [if_pos hact, ← hnext]
            refine hrest _ true hact ?_ hfree ?_ ?_ ?_
            · rw [hnext]
              dsimp only
              omega
            · intro _
              dsimp only
              omega
            · intro h
              dsimp only at h
              omega
            · intro _ h
              dsimp only at h
              omega
          · have hact : (readHeader c f page).active = false := by simp [FileHeader.active, hobs]
            rw [if_neg (by rw [hact]; decide), if_neg (by rw [hiso]; decide), if_pos hobs, ← hnext]
            refine hrest _ false hact ?_ hfree nofun (fun h => h) nofun
            dsimp only
            omega
        · have hact : (readHeader c f page).active = false := by simp [FileHeader.active, hiso]
          have hnext := nextAt_isolated hfr hiso
          rw [if_neg (by rw [hact]; decide), if_pos hiso, ← hnext]
          refine hrest _ false hact ?_ hfree nofun (fun h => h) nofun
          dsimp only
          omega
      · obtain ⟨hiso, hobs⟩ := hw.clean page hon hfr
        have hact : (readHeader c f page).active = false := by
          have : (readHeader c f page).flags.allocated = false := by simpa [FileHeader.free] using hfr
          simp [FileHeader.active, this]
        have hsector : page / c.pagesPerSector = k := by
          exact Nat.div_eq_of_lt_le (by rw [sectorStart] at *; omega) hlt
        have hnext := nextAt_free hfr
        rw [hsector] at hnext
        have hsum : sectorStart c k + stats.active + stats.obsolete + (sectorStart c (k + 1) - page) =
            sectorStart c (k + 1) := by omega
        rw [if_neg (by rw [hact]; decide), if_neg (by rw [hiso]; decide), if_neg (by rw [hobs]; decide)]
        refine ⟨?_, le_of_eq hsum.symm, fun h => absurd hsum (ne_of_gt h), fun h => ⟨h, fun p hp hle => ?_⟩⟩
        · dsimp only
          rw [hsum, ← hnext]
          exact hpage.hop hn
        · by_cases hpp : p = page
          · rw [hpp] at hp
            rw [hp.2] at hact
            cases hact
          · rw [← hnext]
            exact hbehind p hp hle hpp
    · rw [if_neg hlt]
      exact hdone (Nat.not_lt.mp hlt)

/-- What `get_sector_status` says of a sector. -/
structure Status (c : Config) (f : Nat → UInt8) (k : Nat) (r : SectorStatus × Nat × Skip) : Prop where
  skipped : Skipped c f (k + 1) r.2.2
  inactive : r.1.active = 0 → Inactive c f k
  isolation : r.1.active = 0 → r.2.1 = if c.pagesPerSector ≤ r.2.2.skipPages then 0 else r.2.2.skipPages

theorem Skipped.next (h : Skipped c f k skip) (hall : c.pagesPerSector ≤ skip.skipPages) :
    Skipped c f (k + 1) ⟨skip.skipPages - c.pagesPerSector, skip.lastPagesAreActive⟩ := by
  have hsucc := sectorStart_succ c k
  have hend : sectorStart c (k + 1) + (skip.skipPages - c.pagesPerSector) = sectorStart c k + skip.skipPages := by omega
  have hpos := c.pagesPerSector_pos
  obtain ⟨q, hq, hlt, hnext, hact⟩ := h.across (by omega)
  exact ⟨by rw [hend]; exact h.reached, fun _ => ⟨q, hq, by omega, by rw [hend]; exact hnext, hact⟩⟩

theorem getSectorStatus_status (hw : Walkable c f) (hk : k < c.sectorCount) (h : Skipped c f k skip)
    (hzero : k = 0 → skip = ⟨0, false⟩)
    (hsame :
      ∀ p, OnWalk c f p → sectorStart c k ≤ p → p < sectorStart c (k + 1) → readHeader c g p = readHeader c f p) :
    Status c f k (getSectorStatus c g k skip) := by
  have hsucc := sectorStart_succ c k
  have hskip : (if k = 0 then ⟨0, false⟩ else skip) = skip := by
    split
    next h0 => exact (hzero h0).symm
    · rfl
  have hover := h.across
  rw [getSectorStatus, hskip]
  dsimp only
  by_cases hall : c.pagesPerSector ≤ skip.skipPages
  · have hnext := h.next hall
    have hpos := c.pagesPerSector_pos
    rw [if_pos hall]
    cases hact : skip.lastPagesAreActive
    · -- the extent over the sector is not active
      rw [hact] at hnext
      refine ⟨hnext, fun _ q hq => ?_, fun _ => rfl⟩
      obtain ⟨r, hr, hrlt, hrnext, hract⟩ := hover (by omega)
      rcases lt_trichotomy q r with hqr | rfl | hrq
      · exact .inl (le_trans (hq.1.1.hop_le hw.forward hq.1.2 hr.1 hqr) (le_of_lt hrlt))
      · rw [hq.2, hact] at hract
        cases hract
      · have := hr.1.hop_le hw.forward hr.2 hq.1.1 hrq
        exact .inr (by omega)
    · rw [hact] at hnext
      exact ⟨hnext, fun h0 => absurd h0 (ne_of_gt hpos), fun h0 => absurd h0 (ne_of_gt hpos)⟩
  · rw [if_neg hall]
    have hstart : k * c.pagesPerSector = sectorStart c k := rfl
    rw [hstart, ← hsucc]
    have hscan : Scanned c f k (sectorStart c k + skip.skipPages)
        (if skip.lastPagesAreActive then ⟨skip.skipPages, 0, 0⟩ else ⟨0, skip.skipPages, 0⟩)
        (sectorLoop c g (sectorStart c (k + 1)) c.pagesPerSector (sectorStart c k + skip.skipPages)
          (if skip.lastPagesAreActive then ⟨skip.skipPages, 0, 0⟩ else ⟨0, skip.skipPages, 0⟩)
          skip.lastPagesAreActive) := by
      refine sectorLoop_scanned hw hk h.reached (fun p hp hle hlt => hsame p hp (by omega) hlt) ?_ ?_ (by omega)
        fun hend => by omega
      · split <;> simp only <;> omega
      · split <;> rfl
    generalize sectorLoop c g (sectorStart c (k + 1)) c.pagesPerSector (sectorStart c k + skip.skipPages)
      (if skip.lastPagesAreActive then ⟨skip.skipPages, 0, 0⟩ else ⟨0, skip.skipPages, 0⟩)
      skip.lastPagesAreActive = r at hscan ⊢
    obtain ⟨⟨active, obsolete, free⟩, last⟩ := r
    obtain ⟨hreached, hend, hlast, hnone⟩ := hscan
    dsimp only at hreached hend hlast hnone ⊢
    have hrest : sectorStart c (k + 1) + (active + obsolete + free - c.pagesPerSector) =
        sectorStart c k + active + obsolete + free := by omega
    -- without active pages in the sector, there were none to skip and none are met
    have hinactive : active = 0 → Inactive c f k := by
      intro h0 q hq
      obtain ⟨hstart, hall'⟩ := hnone h0
      rcases lt_or_ge q (sectorStart c k + skip.skipPages) with hlt | hge
      · have hle := hq.1.1.hop_le hw.forward hq.1.2 h.reached hlt
        by_cases hz : skip.skipPages = 0
        · exact .inl (by omega)
        · obtain ⟨r, hr, hrlt, hrnext, hract⟩ := hover (Nat.pos_of_ne_zero hz)
          rcases lt_trichotomy q r with hqr | rfl | hrq
          · exact .inl (le_trans (hq.1.1.hop_le hw.forward hq.1.2 hr.1 hqr) (le_of_lt hrlt))
          · rw [← hract, hq.2, if_pos rfl] at hstart
            exact absurd hstart hz
          · have := hr.1.hop_le hw.forward hr.2 hq.1.1 hrq
            omega
      · exact .inr (hall' q hq hge)
    have hskipped : Skipped c f (k + 1) ⟨active + obsolete + free - c.pagesPerSector, last⟩ := by
      refine ⟨by rw [hrest]; exact hreached, fun hpos => ?_⟩
      dsimp only at hpos
      obtain ⟨q, hq, hlt, hnext, hact, -⟩ := hlast (by omega)
      exact ⟨q, hq, hlt, by rw [hrest]; exact hnext, hact⟩
    by_cases hpos : 0 < active + obsolete + free - c.pagesPerSector
    · obtain ⟨q, -, hlt, -, -, hobs⟩ := hlast (by omega)
      rw [if_pos hpos]
      cases last
      · rw [if_neg (by decide)]
        refine ⟨hskipped, hinactive, fun _ => ?_⟩
        simp
      · -- the last extent is active, and the obsolete ones end before it
        have := hobs rfl
        rw [if_pos rfl]
        exact ⟨hskipped, fun h0 => absurd h0 (by dsimp only; omega), fun h0 => absurd h0 (by dsimp only; omega)⟩
    · rw [if_neg hpos]
      refine ⟨hskipped, hinactive, fun _ => ?_⟩
      dsimp only
      split <;> split <;> omega

/-! ### What is erased -/

theorem isolatedHeader_fits (c : Config) : (isolatedHeader c).Fits c where
  logPage := Nat.succ_pos 65535
  logRecords := Nat.succ_pos 65535
  logRecordSize := Nat.succ_pos 65535
  maxPages := Nat.succ_pos 65535
  name := List.length_replicate

theorem isolatePages_outside {start : Nat} (ha : ∀ p, start ≤ p → p < start + n → ¬InPage c p a) :
    isolatePages c start n f a = f a := by
  induction n with
  | zero => rfl
  | succ n ih =>
    rw [isolatePages, writeHeader_outside (isolatedHeader_fits c) (ha (start + n) (by omega) (by omega))]
    exact ih fun p hlo hhi => ha p hlo (by omega)

theorem isolatePages_header {start : Nat} (hlo : start ≤ p) (hhi : p < start + n) :
    readHeader c (isolatePages c start n f) p = (isolatedHeader c).written := by
  induction n with
  | zero => omega
  | succ n ih =>
    rw [isolatePages]
    by_cases heq : p = start + n
    · rw [heq, readHeader_writeHeader (isolatedHeader_fits c)]
    · rw [readHeader_writeHeader_of_ne (isolatedHeader_fits c) heq]
      exact ih (by omega)

theorem InPage.sector (ha : InPage c p a) :
    k * c.sectorSize ≤ a ∧ a < (k + 1) * c.sectorSize ↔ sectorStart c k ≤ p ∧ p < sectorStart c (k + 1) := by
  have hstart : ∀ j, j * c.sectorSize = sectorStart c j * c.pageSize := fun j => (mul_assoc _ _ _).symm
  obtain ⟨hlo, hhi⟩ := ha
  rw [hstart, hstart]
  constructor
  · rintro ⟨h1, h2⟩
    have h3 := Nat.lt_of_mul_lt_mul_right (lt_of_le_of_lt h1 hhi)
    have h4 := Nat.lt_of_mul_lt_mul_right (lt_of_le_of_lt hlo h2)
    omega
  · rintro ⟨h1, h2⟩
    have h3 := Nat.mul_le_mul_right c.pageSize h1
    have h4 := Nat.mul_le_mul_right c.pageSize (Nat.succ_le_of_lt h2)
    rw [Nat.succ_eq_add_one] at h4
    omega

/-- The flash behind `isolate_pages` and `COFFEE_ERASE`. -/
def erasedFlash (c : Config) (k n : Nat) (f : Nat → UInt8) : Nat → UInt8 :=
  coffeeErase c k (isolatePages c (sectorStart c (k + 1)) n f)

theorem erasedFlash_outside (ha : InPage c p a)
    (hp : p < sectorStart c k ∨ sectorStart c (k + 1) + n ≤ p) : erasedFlash c k n f a = f a := by
  have hsucc := sectorStart_succ c k
  rw [erasedFlash, coffeeErase, if_neg (by rw [ha.sector]; omega)]
  refine isolatePages_outside fun q hlo hhi hq => ?_
  rw [hq.unique ha] at hlo hhi
  omega

theorem erasedFlash_flags (hlo : sectorStart c k ≤ p) (hhi : p < sectorStart c (k + 1)) :
    (readHeader c (erasedFlash c k n f) p).flags = HdrFlags.none := by
  have hzero : readHeader c (erasedFlash c k n f) p = readHeader c (fun _ => 0) p :=
    readHeader_page fun _ ha => if_pos (ha.sector.mpr ⟨hlo, hhi⟩)
  rw [hzero]
  show HdrFlags.ofByte 0 = HdrFlags.none
  decide

theorem erasedFlash_isolated (hlo : sectorStart c (k + 1) ≤ p) (hhi : p < sectorStart c (k + 1) + n) :
    readHeader c (erasedFlash c k n f) p = (isolatedHeader c).written := by
  rw [← isolatePages_header (f := f) hlo hhi]
  exact readHeader_page fun a ha => if_neg (by rw [ha.sector]; omega)

/-! ### The sweep -/

/-- Isolated pages from `p` on, up to a place of the old walk. -/
def Isolated (c : Config) (f g : Nat → UInt8) (p : Nat) : Prop :=
  ∃ e, Reached (nextAt c f) c.pageCount e ∧ p ≤ e ∧ e ≤ p + c.pagesPerSector ∧
    ∀ x, p ≤ x → x < e → readHeader c g x = (isolatedHeader c).written

/-- The flash `g` when the sectors below `k` are done and those of `E` were erased. -/
structure Swept (c : Config) (f g : Nat → UInt8) (k : Nat) (skip : Skip) (E : Nat → Prop) : Prop where
  erased : ∀ j, E j → j < k ∧ Inactive c f j ∧
    ∀ p, sectorStart c j ≤ p → p < sectorStart c (j + 1) → (readHeader c g p).flags = HdrFlags.none
  skipped : Skipped c f k skip
  ahead : ∀ p, sectorStart c k + skip.skipPages ≤ p → ∀ a, InPage c p a → g a = f a
  kept : ∀ p, OnWalk c f p → p < sectorStart c k → ¬E (p / c.pagesPerSector) → readHeader c g p = readHeader c f p
  behind : ∀ j, E j → j + 1 < k → E (j + 1) ∨ Isolated c f g (sectorStart c (j + 1))
  border : ∀ j, E j → j + 1 = k → skip.skipPages < c.pagesPerSector → Isolated c f g (sectorStart c k)
  bytes : ∀ q, ActiveAt c f q → ∀ p, q ≤ p → p < nextAt c f q → ∀ a, InPage c p a → g a = f a

theorem sectorStart_mono {j : Nat} (h : j ≤ k) : sectorStart c j ≤ sectorStart c k := Nat.mul_le_mul_right _ h

theorem Isolated.congr {g' : Nat → UInt8} (h : Isolated c f g p)
    (hsame : ∀ x, p ≤ x → x < p + c.pagesPerSector → readHeader c g' x = readHeader c g x) : Isolated c f g' p := by
  obtain ⟨e, he, hle, hend, hall⟩ := h
  exact ⟨e, he, hle, hend, fun x hlo hhi => (hsame x hlo (by omega)).trans (hall x hlo hhi)⟩

section
variable {k : Nat} {skip : Skip} {E : Nat → Prop}

theorem Swept.status (hw : Walkable c f) (h : Swept c f g k skip E) (hk : k < c.sectorCount)
    (hzero : k = 0 → skip = ⟨0, false⟩) : Status c f k (getSectorStatus c g k skip) :=
  getSectorStatus_status hw hk h.skipped hzero fun p hp hle _ =>
    readHeader_page (h.ahead p (h.skipped.le hw hp.1 hle))

theorem Skipped.mono (hw : Walkable c f) {skip' : Skip} (h : Skipped c f k skip) (h' : Skipped c f (k + 1) skip') :
    sectorStart c k + skip.skipPages ≤ sectorStart c (k + 1) + skip'.skipPages :=
  h.le hw h'.reached (by rw [sectorStart_succ]; omega)

variable {r : SectorStatus × Nat × Skip}

/-- STEP: a sector is erased. -/
theorem Swept.erase (hw : Walkable c f) (h : Swept c f g k skip E) (hr : Status c f k
    r) (hactive : r.1.active = 0) : Swept c f (erasedFlash c k r.2.1 g) (k + 1) r.2.2 fun j => j = k ∨ E j := by
  have hmono := h.skipped.mono hw hr.skipped
  have hiso := hr.isolation hactive
  have hinactive := hr.inactive hactive
  have hle : r.2.1 ≤ r.2.2.skipPages := by
    rw [hiso]
    split <;> omega
  have hfront : ∀ p, p < sectorStart c k → readHeader c (erasedFlash c k r.2.1 g) p = readHeader c g p :=
    fun p hp => readHeader_page fun a ha => erasedFlash_outside ha (.inl hp)
  refine ⟨?_, hr.skipped, fun p hp a ha => ?_, fun p hp hlt hno => ?_, ?_, ?_, fun q hq p hqp hpq a ha => ?_⟩
  · rintro j (rfl | hj)
    · exact ⟨Nat.lt_succ_self j, hinactive, fun p hlo hhi => erasedFlash_flags hlo hhi⟩
    · obtain ⟨hjk, hin, hfree⟩ := h.erased j hj
      refine ⟨by omega, hin, fun p hlo hhi => ?_⟩
      have := sectorStart_mono (c := c) (show j + 1 ≤ k from hjk)
      rw [hfront p (by omega)]
      exact hfree p hlo hhi
  · rw [erasedFlash_outside ha (.inr (by omega))]
    exact h.ahead p (by omega) a ha
  · rw [not_or] at hno
    have hpk : p < sectorStart c k := by
      by_contra hge
      exact hno.1 (Nat.div_eq_of_lt_le (Nat.not_lt.mp hge) hlt)
    rw [hfront p hpk]
    exact h.kept p hp hpk hno.2
  · rintro j (rfl | hj) hlt
    · omega
    · by_cases hjk : j + 1 = k
      · exact .inl (.inl hjk)
      · rcases h.behind j hj (by omega) with hE | hmarked
        · exact .inl (.inr hE)
        · have := sectorStart_succ c (j + 1)
          have := sectorStart_mono (c := c) (show j + 1 + 1 ≤ k by omega)
          exact .inr (hmarked.congr fun x _ hhi => hfront x (by omega))
  · rintro j - - hlt
    rw [hiso, if_neg (by omega)]
    exact ⟨_, hr.skipped.reached, by omega, by omega, fun x hlo hhi => erasedFlash_isolated hlo hhi⟩
  · have hpages := h.bytes q hq p hqp hpq a ha
    rcases hinactive q hq with hbefore | hbehind
    · rw [erasedFlash_outside ha (.inl (by omega))]
      exact hpages
    · have := hr.skipped.le hw hq.1.1 hbehind
      rw [erasedFlash_outside ha (.inr (by omega))]
      exact hpages

/-- STEP: a sector stays. One that an inactive extent covers does not, so that a sector behind one that was erased
    begins with isolated pages. -/
theorem Swept.stay (hw : Walkable c f) (h : Swept c f g k skip E) (hzero : k = 0 → skip = ⟨0, false⟩)
    (hg : getSectorStatus c g k skip = r) (hr : Status c f k r)
    (hstay : r.1.erasable .greedy = false) : Swept c f g (k + 1) r.2.2 E := by
  have hmono := h.skipped.mono hw hr.skipped
  refine ⟨fun j hj => ?_, hr.skipped, fun p hp => h.ahead p (by omega), fun p hp hlt hno => ?_, fun j hj hlt => ?_,
    fun j hj hjk => ?_, h.bytes⟩
  · obtain ⟨hjk, hrest⟩ := h.erased j hj
    exact ⟨by omega, hrest⟩
  · rcases lt_or_ge p (sectorStart c k) with hpk | hpk
    · exact h.kept p hp hpk hno
    · exact readHeader_page (h.ahead p (h.skipped.le hw hp.1 hpk))
  · by_cases hjk : j + 1 = k
    · refine .inr (hjk ▸ h.border j hj hjk ?_)
      by_contra hall
      -- the extent over the sector reaches into the erased one, so it is not active
      have hpos := c.pagesPerSector_pos
      obtain ⟨q, hq, hqk, hnext, hact⟩ := h.skipped.across (by omega)
      have hlast : skip.lastPagesAreActive = false := by
        cases hlast : skip.lastPagesAreActive
        · rfl
        · rw [hlast] at hact
          rcases (h.erased j hj).2.1 q ⟨hq, hact⟩ with hle | hge
          · have := sectorStart_mono (c := c) (show j ≤ k by omega)
            omega
          · rw [hjk] at hge
            omega
      rw [← hg, getSectorStatus, show (if k = 0 then ⟨0, false⟩ else skip) = skip by
        split
        next h0 => exact (hzero h0).symm
        · rfl] at hstay
      rw [if_pos (Nat.not_lt.mp hall), hlast, if_neg (by decide)] at hstay
      simp [SectorStatus.erasable] at hstay
      omega
    · exact h.behind j hj (by omega)
  · have := (h.erased j hj).1
    omega

/-- LOOP: over the sectors that are left. -/
theorem Swept.collectLoop (hw : Walkable c f) : ∀ {n k : Nat} {skip : Skip} {E : Nat → Prop} {m : Medium},
    Swept c f m.flash k skip E → (k = 0 → skip = ⟨0, false⟩) → k + n = c.sectorCount →
    ∃ skip' E', Swept c f (collectLoop c .greedy (List.range' k n) skip m).flash c.sectorCount skip' E'
  | 0, k, skip, E, m, h, _, hk => ⟨skip, E, by rw [← hk]; exact h⟩
  | n + 1, k, skip, E, m, h, hzero, hk => by
    have hr := h.status hw (by omega) hzero
    rw [List.range'_succ, Coffee.collectLoop]
    dsimp only
    obtain ⟨r, hg⟩ : ∃ r, getSectorStatus c m.flash k skip = r := ⟨_, rfl⟩
    rw [hg] at hr ⊢
    by_cases herase : r.1.erasable .greedy = true
    · have hactive : r.1.active = 0 := by
        rw [SectorStatus.erasable, Bool.and_eq_true, beq_iff_eq] at herase
        exact herase.1
      have hnext := h.erase hw hr hactive
      rw [if_pos herase, if_neg (fun hmode => by cases hmode.1)]
      exact Swept.collectLoop hw hnext (fun h0 => by omega) (by omega)
    · rw [if_neg herase]
      exact Swept.collectLoop hw (h.stay hw hzero hg hr (Bool.eq_false_of_not_eq_true herase)) (fun h0 => by omega)
        (by omega)

theorem Swept.start (f : Nat → UInt8) : Swept c f f 0 ⟨0, false⟩ fun _ => False where
  erased _ h := h.elim
  skipped := by
    refine ⟨?_, fun h => absurd h (lt_irrefl 0)⟩
    rw [sectorStart, zero_mul]
    exact .zero
  ahead _ _ _ _ := rfl
  kept _ _ _ _ := rfl
  behind _ h := h.elim
  border _ h := h.elim
  bytes _ _ _ _ _ _ _ := rfl

end

/-! ### The walk over the new flash -/

/-- The active extents of the walk are the same, and so are their bytes. -/
structure Untouched (c : Config) (f g : Nat → UInt8) : Prop where
  active : ∀ p, ActiveAt c g p ↔ ActiveAt c f p
  bytes : ∀ q, ActiveAt c f q → ∀ p, q ≤ p → p < nextAt c f q → ∀ a, InPage c p a → g a = f a

theorem Untouched.refl (c : Config) (f : Nat → UInt8) : Untouched c f f := ⟨fun _ => .rfl, fun _ _ _ _ _ _ _ => rfl⟩

/-- A page that the walk over the new flash may come to. -/
inductive Met (c : Config) (f g : Nat → UInt8) (E : Nat → Prop) (p : Nat) : Prop
  | behind : c.pageCount ≤ p → Met c f g E p
  | erased : E (p / c.pagesPerSector) → Met c f g E p
  | kept : OnWalk c f p → readHeader c g p = readHeader c f p → Met c f g E p
  | isolated {e : Nat} : Reached (nextAt c f) c.pageCount e → p < e →
      (∀ x, p ≤ x → x < e → readHeader c g x = (isolatedHeader c).written) → Met c f g E p

section
variable {skip : Skip} {E : Nat → Prop} {p : Nat}

theorem isolated_page (h : readHeader c g p = (isolatedHeader c).written) :
    (readHeader c g p).free = false ∧ (readHeader c g p).flags.isolated = true := by
  rw [h]
  exact ⟨rfl, rfl⟩

theorem free_of_flags (h : (readHeader c g p).flags = HdrFlags.none) : (readHeader c g p).free = true ∧ (readHeader c
    g p).flags.isolated = false ∧ (readHeader c g p).flags.obsolete = false := by
  rw [FileHeader.free, h]
  exact ⟨rfl, rfl, rfl⟩

theorem Swept.met_reached (h : Swept c f g c.sectorCount skip E) (hp : Reached (nextAt c f) c.pageCount p) :
    Met c f g E p := by
  by_cases hpn : p < c.pageCount
  · by_cases hE : E (p / c.pagesPerSector)
    · exact .erased hE
    · exact .kept ⟨hp, hpn⟩ (h.kept p ⟨hp, hpn⟩ hpn hE)
  · exact .behind (Nat.not_lt.mp hpn)

theorem Swept.flags (h : Swept c f g c.sectorCount skip E) (hE : E (p / c.pagesPerSector)) :
    (readHeader c g p).flags = HdrFlags.none :=
  (h.erased _ hE).2.2 p (Nat.div_mul_le_self _ _) (lt_sectorStart c p)

section
variable (hw : Walkable c f)
include hw

section

variable (h : Swept c f g c.sectorCount skip E)
include h

/-- A hop of the new walk: forward, to a page that it may come to, and over no head of an active extent. -/
theorem Swept.hop (hpn : p < c.pageCount) (hp : Met c f g E
    p) : Met c f g E (nextAt c g p) ∧ p < nextAt c g p ∧ ∀ q, ActiveAt c f q → p < q → nextAt c g p ≤ q := by
  cases hp with
  | behind hle => omega
  | erased hE =>
    obtain ⟨hj, hinactive, -⟩ := h.erased _ hE
    have hlt := lt_sectorStart c p
    rw [nextAt_free (free_of_flags (h.flags hE)).1]
    refine ⟨?_, hlt, fun q hq hpq => ?_⟩
    · by_cases hlast : p / c.pagesPerSector + 1 < c.sectorCount
      · rcases h.behind _ hE hlast with hnext | ⟨e, he, hle, -, hall⟩
        · refine .erased ?_
          rwa [sectorStart, Nat.mul_div_cancel _ c.pagesPerSector_pos]
        · rcases Nat.lt_or_eq_of_le hle with hlt' | heq
          · exact .isolated he hlt' hall
          · rw [heq]
            exact h.met_reached he
      · exact .behind (Nat.mul_le_mul_right _ (Nat.not_lt.mp hlast))
    · rcases hinactive q hq with hle | hge
      · have hforward := hw.forward q hq.1.1 hq.1.2
        have hstart : sectorStart c (p / c.pagesPerSector) ≤ p := Nat.div_mul_le_self _ _
        omega
      · exact hge
  | kept hon hsame =>
    have hnext : nextAt c g p = nextAt c f p := by rw [nextAt, nextAt, hsame]
    rw [hnext]
    exact ⟨h.met_reached (hon.1.hop hpn), hw.forward p hon.1 hpn, fun q hq hpq => hon.1.hop_le hw.forward hpn hq.1.1 hpq⟩
  | @isolated e he hlt hall =>
    obtain ⟨hfree, hiso⟩ := isolated_page (hall p (le_refl p) hlt)
    rw [nextAt_isolated hfree hiso]
    refine ⟨?_, Nat.lt_succ_self p, fun q _ hpq => hpq⟩
    by_cases hend : p + 1 = e
    · rw [hend]
      exact h.met_reached he
    · exact .isolated he (by omega) fun x hlo hhi => hall x (by omega) hhi

theorem Swept.met (hp : OnWalk c g p) : Met c f g E p :=
  hp.1.invariant (h.met_reached .zero) fun _ hq hmet => (h.hop hw hq hmet).1

theorem Swept.walkable : Walkable c g where
  clean p hp hfree := by
    cases h.met hw hp with
    | behind hle => exact absurd hp.2 (Nat.not_lt.mpr hle)
    | erased hE => exact (free_of_flags (h.flags hE)).2
    | kept hon hsame =>
      rw [hsame] at hfree ⊢
      exact hw.clean p hon hfree
    | isolated he hlt hall =>
      rw [(isolated_page (hall p (le_refl p) hlt)).1] at hfree
      cases hfree
  pages p hp hfree hiso := by
    cases h.met hw hp with
    | behind hle => exact absurd hp.2 (Nat.not_lt.mpr hle)
    | erased hE =>
      rw [(free_of_flags (h.flags hE)).1] at hfree
      cases hfree
    | kept hon hsame =>
      rw [hsame] at hfree hiso ⊢
      exact hw.pages p hon hfree hiso
    | isolated he hlt hall =>
      rw [(isolated_page (hall p (le_refl p) hlt)).2] at hiso
      cases hiso

theorem Swept.untouched : Untouched c f g := by
  refine ⟨fun p => ⟨fun hp => ?_, fun hp => ?_⟩, h.bytes⟩
  · cases h.met hw hp.1 with
    | behind hle => exact absurd hp.1.2 (Nat.not_lt.mpr hle)
    | erased hE =>
      have hact := hp.2
      rw [FileHeader.active, h.flags hE] at hact
      cases hact
    | kept hon hsame => exact ⟨hon, hsame ▸ hp.2⟩
    | isolated he hlt hall =>
      have hact := hp.2
      rw [hall p (le_refl p) hlt] at hact
      cases hact
  · have hreached : Reached (nextAt c g) c.pageCount p :=
      reached_of_not_over (h.met_reached .zero) (fun q hq hmet => (h.hop hw hq hmet).1)
        (fun q hq hmet => (h.hop hw hq hmet).2.1) hp.1.2 fun q hq hmet hqp => (h.hop hw hq hmet).2.2 p hp hqp
    refine ⟨⟨hreached, hp.1.2⟩, ?_⟩
    have hsame : readHeader c g p = readHeader c f p :=
      readHeader_page (h.bytes p hp p (le_refl p) (hw.forward p hp.1.1 hp.1.2))
    rw [hsame]
    exact hp.2

end

end

end

/-- GARBAGE COLLECTION is not seen: the walk finds the same active extents, with the same bytes. -/
theorem collectGarbage_untouched {m : Medium} (hw : Walkable c m.flash) :
    Untouched c m.flash (collectGarbage c .greedy m).flash ∧ Walkable c (collectGarbage c .greedy m).flash := by
  rw [collectGarbage, List.range_eq_range']
  obtain ⟨skip, E, h⟩ := Swept.collectLoop (m := { m with collections := m.collections ++ [(m.flash, m.live)] }) hw
    (Swept.start m.flash) (fun _ => rfl) (zero_add _)
  exact ⟨h.untouched hw, h.walkable hw⟩

end CSync.Coffee
