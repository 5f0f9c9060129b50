import CSync.Coffee.Files
import CSync.Coffee.Sweep

/-! What `reserve`, `create_log` and `cfs_open` leave on the flash when they fail.

    The header of a new extent is written before the file object is taken. So a call that has found pages for the
    extent and then has no file object fails with the extent on the flash, unless the pages are hidden from the
    walk. Nothing else that a failing call does is seen on the walk. -/

namespace CSync.Coffee

open Lib

variable {c : Config} {f g h : Nat → UInt8} {page : Nat}

/-- A page behind the head of what the walk takes for an obsolete extent or for free pages. -/
def Hidden (c : Config) (f : Nat → UInt8) (page : Nat) : Prop :=
  ∃ p, OnWalk c f p ∧ (readHeader c f p).active = false ∧ p < page ∧ page < nextAt c f p

theorem Untouched.header (hw : Walkable c f) (hfg : Untouched c f g) {p : Nat} (hp : ActiveAt c f p) :
    readHeader c g p = readHeader c f p :=
  readHeader_page (hfg.bytes p hp p (le_refl p) (hw.forward p hp.1.1 hp.1.2))

/-- What is compared with a flash can be compared with one whose active extents are the same. -/
theorem Untouched.congr (hw : Walkable c f) (hfg : Untouched c f g) : Untouched c f h ↔ Untouched c g h := by
  have hnext : ∀ q, ActiveAt c f q → nextAt c g q = nextAt c f q := fun q hq => by
    rw [nextAt, nextAt, hfg.header hw hq]
  constructor
  · intro hfh
    refine ⟨fun p => (hfh.active p).trans (hfg.active p).symm, fun q hq p hle hlt a ha => ?_⟩
    have hq' := (hfg.active q).mp hq
    rw [hnext q hq'] at hlt
    rw [hfh.bytes q hq' p hle hlt a ha, hfg.bytes q hq' p hle hlt a ha]
  · intro hgh
    refine ⟨fun p => (hgh.active p).trans (hfg.active p), fun q hq p hle hlt a ha => ?_⟩
    rw [hgh.bytes q ((hfg.active q).mpr hq) p hle (by rw [hnext q hq]; exact hlt) a ha, hfg.bytes q hq p hle hlt a ha]

theorem writeHeader_untouched_iff (hw : Walkable c f) (hpage : page < c.pageCount)
    (hfree : (readHeader c f page).free = true) {hdr : FileHeader} (hfits : hdr.Fits c) (hact : hdr.active = true) :
    Untouched c f (writeHeader c hdr page f) ↔ Hidden c f page := by
  have hself : readHeader c (writeHeader c hdr page f) page = hdr.written := readHeader_writeHeader hfits page f
  have hother : ∀ p, p ≠ page → nextAt c (writeHeader c hdr page f) p = nextAt c f p := fun p hp => by
    rw [nextAt, nextAt, readHeader_writeHeader_of_ne hfits hp]
  have hnot : ¬ActiveAt c f page := by
    intro hp
    have := ((FileHeader.active_iff _).mp hp.2).1
    rw [hfree] at this
    cases this
  constructor
  · intro hsame
    obtain ⟨p, hp, hle, hlt⟩ := exists_hop hw.forward page hpage
    rcases Nat.lt_or_eq_of_le hle with hpp | rfl
    · have hon : OnWalk c f p := ⟨hp, by omega⟩
      refine ⟨p, hon, ?_, hpp, hlt⟩
      cases hactive : (readHeader c f p).active
      · rfl
      · -- the page is one of an active extent, whose bytes are the same
        have hheader : readHeader c (writeHeader c hdr page f) page = readHeader c f page :=
          readHeader_page (hsame.bytes p ⟨hon, hactive⟩ page hle hlt)
        rw [hself] at hheader
        rw [← hheader, FileHeader.free] at hfree
        have hall : hdr.written.active = true := hact
        rw [FileHeader.active] at hall
        simp only [Bool.and_eq_true] at hall
        rw [hall.1.1] at hfree
        cases hfree
    · have hreached : Reached (nextAt c (writeHeader c hdr p f)) c.pageCount p :=
        hp.upto hw.forward (fun q _ _ hq => hother q (ne_of_lt hq)) (le_refl p)
      refine absurd ((hsame.active p).mp ⟨⟨hreached, hpage⟩, ?_⟩) hnot
      rw [hself]
      exact hact
  · rintro ⟨p, hp, hinactive, hlt, hin⟩
    have hout : ∀ q, Reached (nextAt c f) c.pageCount q → q ≠ page := by
      rintro q hq rfl
      exact absurd (hp.1.hop_le hw.forward hp.2 hq hlt) (Nat.not_le.mpr hin)
    have hreached : ∀ q, Reached (nextAt c (writeHeader c hdr page f)) c.pageCount q ↔
        Reached (nextAt c f) c.pageCount q := fun q => reached_congr fun q hq _ => hother q (hout q hq)
    have hheader : ∀ q, OnWalk c f q → readHeader c (writeHeader c hdr page f) q = readHeader c f q :=
      fun q hq => readHeader_writeHeader_of_ne hfits (hout q hq.1) f
    refine ⟨fun q => ?_, fun q hq x hle hx a ha => ?_⟩
    · rw [ActiveAt, OnWalk, hreached, ← OnWalk, ActiveAt]
      exact and_congr_right fun hq => by rw [hheader q hq]
    · refine writeHeader_outside hfits fun hin' => ?_
      rw [ha.unique hin'] at hle hx
      rcases lt_trichotomy q p with hqp | rfl | hpq
      · have := hq.1.1.hop_le hw.forward hq.1.2 hp.1 hqp
        omega
      · rw [hq.2] at hinactive
        cases hinactive
      · have := hp.1.hop_le hw.forward hp.2 hq.1.1 hpq
        omega

/-! ### The pages that are found -/

theorem findLoop_free {amount fuel s : Nat} {start : Option Nat}
    (hstart : ∀ t, start = some t → t < c.pageCount ∧ (readHeader c f t).free = true)
    (h : findLoop c f amount fuel page start = some s) : s < c.pageCount ∧ (readHeader c f s).free = true := by
  induction fuel generalizing page start with
  | zero => cases h
  | succ fuel ih =>
    rw [findLoop] at h
    split at h
    next hlt =>
      dsimp only at h
      split at h
      next hfree =>
        have hfirst : start.getD page < c.pageCount ∧ (readHeader c f (start.getD page)).free = true := by
          cases start with
          | none => exact ⟨hlt, hfree⟩
          | some t => exact hstart t rfl
        split at h
        · cases h
        · split at h
          · cases h
            exact hfirst
          · exact ih (fun t ht => by cases ht; exact hfirst) h
      · exact ih (fun t ht => by cases ht) h
    · cases h

theorem findContiguousPages_free {amount : Nat} {m m' : Medium} (h : findContiguousPages c amount m = (some page, m'))
    : m'.flash = m.flash ∧ page < c.pageCount ∧ (readHeader c m.flash page).free = true := by
  rw [findContiguousPages] at h
  split at h
  · cases h
  next start hfind =>
    obtain ⟨rfl, rfl⟩ := Prod.mk.inj h |>.imp_left Option.some.inj
    refine ⟨by split <;> rfl, findLoop_free (fun t ht => by cases ht) hfind⟩

/-- The pages that `reserve` finds, and the medium then: garbage may have been collected. -/
def roomFor (pages : Nat) (s : State c) : Option (Nat × Medium) :=
  match findContiguousPages c pages s.toMedium with
  | (some page, m) => some (page, m)
  | (none, _) =>
    if s.gcWait then none
    else
      match findContiguousPages c pages (collectGarbage c .greedy s.toMedium) with
      | (some page, m) => some (page, m)
      | (none, _) => none

/-- Where there is room there is a file object too, or the room is hidden. -/
def Placeable (pages : Nat) (s : State c) : Prop :=
  ∀ page m, roomFor pages s = some (page, m) → slotFor s ≠ none ∨ Hidden c m.flash page

theorem newHeader_fits (c : Config) (name : List UInt8) {pages : Nat} (hpages : pages < 65536) (log : Bool) :
    (newHeader c name pages log).Fits c := by
  refine ⟨Nat.succ_pos 65535, Nat.succ_pos 65535, Nat.succ_pos 65535, hpages, ?_⟩
  simp only [newHeader, List.length_append, List.length_take, List.length_replicate]
  omega

theorem writeHeader_newHeader (name : List UInt8) (pages : Nat) (log : Bool) :
    writeHeader c (newHeader c name pages log) page f = writeHeader c (newHeader c name (pages % 65536) log) page f := by
  have hle : toLe 2 pages = toLe 2 (pages % 65536) := by
    simp only [toLe, List.cons.injEq, and_true, ← UInt8.toNat_inj, UInt8.toNat_ofNat']
    omega
  simp only [writeHeader, newHeader, FileHeader.bytes, hle]

/-! ### Calls that fail -/

/-- A call that fails leaves the active extents of the walk and their bytes. -/
def NoTrace {α : Type} (s : State c) (r : Option α × State c) : Prop := r.1 = none → Untouched c s.flash r.2.flash

theorem placeFile_noTrace (s s' : State c) (hw : Walkable c f) (hs : Untouched c f s.flash) (hw' : Walkable c s.flash)
    (hpage : page < c.pageCount) (hfree : (readHeader c s.flash page).free = true) (hslot : slotFor s' = slotFor s)
    (name : List UInt8) (pages : Nat) (log : Bool) :
    ((placeFile name pages log page s).1 = none → Untouched c f (placeFile name pages log page s).2.flash) ↔
      slotFor s' ≠ none ∨ Hidden c s.flash page := by
  have hiff : Untouched c f (writeHeader c (newHeader c name pages log) page s.flash) ↔ Hidden c s.flash page := by
    rw [writeHeader_newHeader, hs.congr hw]
    exact writeHeader_untouched_iff hw' hpage hfree (newHeader_fits c name (Nat.mod_lt _ (by decide)) log) rfl
  have hsame : slotFor { s with
      flash := writeHeader c (newHeader c name pages log) page s.flash
      live := ⟨page, pages⟩ :: s.live } = slotFor s := rfl
  rw [placeFile, loadFile, hsame, hslot]
  cases slotFor s with
  | none =>
    rw [imp_iff_right rfl, hiff]
    simp
  | some i => simp

variable {s : State c}

theorem reserve_room_noTrace (hw : Walkable c s.flash) (name : List UInt8) (pages : Nat) (log : Bool) :
    NoTrace s (reserve name pages true log s) ↔ Placeable pages s := by
  rw [NoTrace, Placeable, reserve, if_pos rfl, roomFor]
  dsimp only
  rw [Option.isSome_none, if_neg Bool.false_ne_true]
  rcases hfind : findContiguousPages c pages s.toMedium with ⟨_ | page, m⟩
  · dsimp only
    by_cases hwait : s.gcWait = true
    · rw [if_pos hwait, if_pos hwait]
      exact iff_of_true (fun _ => .refl c _) nofun
    · rw [if_neg hwait, if_neg hwait]
      obtain ⟨hgc, hw'⟩ := collectGarbage_untouched hw
      rcases hfind' : findContiguousPages c pages (collectGarbage c .greedy s.toMedium) with ⟨_ | page, m'⟩
      · exact iff_of_true (fun _ => hgc) nofun
      · obtain ⟨hflash, hpage, hfree⟩ := findContiguousPages_free hfind'
        rw [← hflash] at hgc hw' hfree
        rw [placeFile_noTrace { s with toMedium := m' } s hw hgc hw' hpage hfree rfl]
        simp
  · obtain ⟨hflash, hpage, hfree⟩ := findContiguousPages_free hfind
    have hsame : Untouched c s.flash m.flash := by
      rw [hflash]
      exact .refl c _
    rw [← hflash] at hfree
    rw [placeFile_noTrace { s with toMedium := m } s hw hsame (by rw [hflash]; exact hw) hpage hfree rfl]
    simp

theorem findFile_flash (name : List UInt8) (s : State c) :
    (findFile name s).2.flash = s.flash ∧ ((findFile name s).1 = none → (findFile name s).2 = s) := by
  rw [findFile]
  split
  · exact ⟨rfl, fun _ => rfl⟩
  · split
    · rw [loadFile]
      split
      · exact ⟨rfl, fun _ => rfl⟩
      · exact ⟨rfl, nofun⟩
    · exact ⟨rfl, fun _ => rfl⟩

theorem reserve_noTrace (hw : Walkable c s.flash) (name : List UInt8) (pages : Nat) (allowDuplicates log : Bool) :
    NoTrace s (reserve name pages allowDuplicates log s) ↔
      (allowDuplicates = false ∧ (findFile name s).1.isSome = true) ∨ Placeable pages s := by
  have hroom := reserve_room_noTrace hw name pages log
  cases allowDuplicates
  · obtain ⟨hflash, hstate⟩ := findFile_flash name s
    cases hfound : (findFile name s).1 with
    | none =>
      have hsame : reserve name pages false log s = reserve name pages true log s := by
        rw [reserve, reserve, if_neg Bool.false_ne_true, if_pos rfl]
        dsimp only
        rw [hfound, hstate hfound]
      rw [hsame, hroom]
      simp
    | some i =>
      refine iff_of_true (fun _ => ?_) (.inl ⟨rfl, rfl⟩)
      rw [reserve, if_neg Bool.false_ne_true]
      dsimp only
      rw [hfound, Option.isSome_some, if_pos rfl]
      rw [hflash]
      exact .refl c _
  · rw [hroom]
    simp

theorem createLog_noTrace (hw : Walkable c s.flash) (i : Fin c.maxOpenFiles) (hdr : FileHeader) : NoTrace s (createLog
    i hdr s) ↔ Placeable (pageCountOf c ((logConfig c hdr).2 * (2 + (logConfig c hdr).1) % 65536)) s := by
  rw [← reserve_room_noTrace hw hdr.nameOf _ true, NoTrace, NoTrace, createLog]
  dsimp only
  rcases reserve hdr.nameOf (pageCountOf c ((logConfig c hdr).2 * (2 + (logConfig c hdr).1) % 65536)) true true s
    with ⟨_ | j, t⟩
  · exact ⟨fun h _ => h rfl, fun h _ => h rfl⟩
  · simp

theorem cfsOpen_noTrace (hw : Walkable c s.flash) (name : List UInt8) (flags : OpenFlags) :
    NoTrace s (cfsOpen name flags s) ↔ getAvailableFd s = none ∨ (findFile name s).1.isSome = true ∨
      (flags.read && !flags.write) = true ∨ Placeable (pageCountOf c c.dynSize) s := by
  rw [NoTrace, cfsOpen]
  cases hfd : getAvailableFd s with
  | none => exact iff_of_true (fun _ => .refl c _) (.inl rfl)
  | some fd =>
    obtain ⟨t, ht⟩ : ∃ t : State c,
        t = setFd fd (fun d => { d with flags := .free, ioFlags := ⟨false, false, false⟩ }) s := ⟨_, rfl⟩
    -- a descriptor is none of what the search for the file looks at
    have hfind : (findFile name t).1 = (findFile name s).1 := by
      rw [ht]
      simp only [findFile, loadFile, setFd, slotFor]
      split
      · rfl
      · split
        · split <;> rfl
        · rfl
    obtain ⟨hflash, hstate⟩ := findFile_flash name t
    dsimp only
    rw [← ht]
    rcases hr : findFile name t with ⟨_ | i, u⟩
    · rw [hr] at hfind hstate
      rw [← hfind]
      have hu : u = t := hstate rfl
      dsimp only
      by_cases hread : (flags.read && !flags.write) = true
      · rw [if_pos hread]
        refine iff_of_true (fun _ => ?_) (.inr (.inr (.inl hread)))
        rw [hu, ht]
        exact .refl c _
      · have hplace : Placeable (pageCountOf c c.dynSize) (setFd fd (fun d => { d with file := none }) u) ↔
            Placeable (pageCountOf c c.dynSize) s := by
          rw [hu, ht]
          rfl
        have hwu : Walkable c (setFd fd (fun d => { d with file := none }) u).flash := by
          rw [hu, ht]
          exact hw
        have hreserve := reserve_room_noTrace hwu name (pageCountOf c c.dynSize) false
        have hsame : (setFd fd (fun d => { d with file := none }) u).flash = s.flash := by
          rw [hu, ht]
          rfl
        rw [hplace, NoTrace, hsame] at hreserve
        rw [if_neg hread, ← hreserve]
        rcases reserve name (pageCountOf c c.dynSize) true false (setFd fd (fun d => { d with file := none }) u)
          with ⟨_ | i, v⟩
        · simp [hread]
        · simp
    · rw [hr] at hfind
      rw [← hfind]
      exact iff_of_true nofun (.inr (.inl rfl))

/-- EXACT: on a flash that can be walked, a call of `reserve`, `create_log` or `cfs_open` that fails leaves the active
    extents and their bytes if and only if it does not come to the search for pages, finds none, finds some and a file
    object too, or finds some that the walk does not come to. -/
theorem failures_noTrace_iff {s : State c} (hw : Walkable c s.flash) :
    (∀ name pages allowDuplicates log, NoTrace s (reserve name pages allowDuplicates log s) ↔
      (allowDuplicates = false ∧ (findFile name s).1.isSome = true) ∨ Placeable pages s) ∧
    (∀ i hdr, NoTrace s (createLog i hdr s) ↔
      Placeable (pageCountOf c ((logConfig c hdr).2 * (2 + (logConfig c hdr).1) % 65536)) s) ∧
    (∀ name flags, NoTrace s (cfsOpen name flags s) ↔
      getAvailableFd s = none ∨ (findFile name s).1.isSome = true ∨ (flags.read && !flags.write) = true ∨
        Placeable (pageCountOf c c.dynSize) s) :=
  ⟨reserve_noTrace hw, createLog_noTrace hw, cfsOpen_noTrace hw⟩

theorem formatted_free (c : Config) (p : Nat) : (readHeader c Medium.formatted.flash p).free = true ∧
    (readHeader c Medium.formatted.flash p).flags.isolated = false ∧
      (readHeader c Medium.formatted.flash p).flags.obsolete = false :=
  free_of_flags (show HdrFlags.ofByte 0 = HdrFlags.none by decide)

theorem walkable_formatted (c : Config) : Walkable c Medium.formatted.flash where
  clean p _ _ := (formatted_free c p).2
  pages p _ hfree _ := by
    rw [(formatted_free c p).1] at hfree
    cases hfree

/-- A flash of eight pages, and a single file object. -/
def smallConfig : Config where
  pageSize := 16
  pagesPerSector := 4
  sectorCount := 2
  nameLength := 4
  maxOpenFiles := 1
  fdSetSize := 2
  dynSize := 16
  logSize := 16
  logTableLimit := 16
  extendedWearLevelling := true
  pagesPerSector_pos := by decide
  nameLength_pos := by decide
  header_le := by decide
  pageCount_lt := by decide
  fdSetSize_lt := by decide
  logSize_ge := by decide
  logSize_lt := by decide

/-- The eight pages of a formatted flash are no room for a file of eight pages, also not behind a collection. -/
theorem reserve_without_room :
    (reserve (c := smallConfig) [97] 8 false false formatted).1 = none ∧
      NoTrace (c := smallConfig) formatted (reserve [97] 8 false false formatted) := by
  have hnone : (roomFor 8 (formatted : State smallConfig)).isNone = true := by decide
  refine ⟨by decide, ((failures_noTrace_iff (walkable_formatted smallConfig)).1 [97] 8 false false).mpr ?_⟩
  exact .inr fun page m h => by rw [h] at hnone; cases hnone

/-- One file is open. -/
def oneOpen : State smallConfig := (cfsOpen [97] ⟨false, true, false⟩ formatted).2

/-- With the one file object in use a new file is not opened, and its extent is on the flash. -/
theorem open_leaves_extent : ¬NoTrace oneOpen (cfsOpen [98] ⟨false, true, false⟩ oneOpen) := by
  intro h
  have hsame := h (by decide)
  have hon : Reached (nextAt smallConfig (cfsOpen [98] ⟨false, true, false⟩ oneOpen).2.flash) smallConfig.pageCount 2 := by
    exact .hop .zero (by decide)
  have hold : (readHeader smallConfig oneOpen.flash 2).active = true :=
    ((hsame.active 2).mp ⟨⟨hon, by decide⟩, by decide⟩).2
  revert hold
  decide

end CSync.Coffee
