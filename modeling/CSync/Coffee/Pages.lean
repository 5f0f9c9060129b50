import CSync.Lib.Bytes

/-! The page level of the Coffee file system (`cfs-coffee.c`): file headers, the sector statistics, garbage
    collection, the walk from header to header and the search for free pages.

    The flash is a function from addresses to bytes, since offsets are computed and nothing checks them.
    `COFFEE_ERASE` sets the bytes of a sector to zero. The static variables of `get_sector_status` are passed
    along. Page numbers are natural numbers; `coffee_page_t` has room for all pages of the flash. Three fields
    are history: which extents were reserved and not removed, which sectors were erased while which extents
    were live, and what every garbage collection found. -/

namespace CSync.Coffee

open Lib

/-- `cfs-coffee-arch.h`, and the options of `cfs-coffee.c`. -/
structure Config where
  pageSize : Nat
  pagesPerSector : Nat
  sectorCount : Nat
  nameLength : Nat
  maxOpenFiles : Nat
  fdSetSize : Nat
  dynSize : Nat
  logSize : Nat
  logTableLimit : Nat
  extendedWearLevelling : Bool
  pagesPerSector_pos : 0 < pagesPerSector
  nameLength_pos : 0 < nameLength
  /-- A header fits into a page. -/
  header_le : 10 + nameLength ≤ pageSize
  /-- Twice a number of pages is a `coffee_page_t`. -/
  pageCount_lt : sectorCount * pagesPerSector < 2 ^ 14
  /-- A reference count has eight bits. -/
  fdSetSize_lt : fdSetSize < 256
  /-- The default log has a record, and its size has 16 bits. -/
  logSize_ge : pageSize ≤ logSize
  logSize_lt : logSize / pageSize * (2 + pageSize) < 65536

namespace Config

variable (c : Config)

/-- `sizeof(struct file_header)`. -/
def headerSize : Nat := 10 + c.nameLength

def pageCount : Nat := c.sectorCount * c.pagesPerSector

def sectorSize : Nat := c.pagesPerSector * c.pageSize

end Config

/-- `cfs-coffee-arch.h` of the platform sky. -/
def skyConfig : Config where
  pageSize := 256
  pagesPerSector := 256
  sectorCount := 15
  nameLength := 16
  maxOpenFiles := 6
  fdSetSize := 8
  dynSize := 4096
  logSize := 1024
  logTableLimit := 256
  extendedWearLevelling := true
  pagesPerSector_pos := by decide
  nameLength_pos := by decide
  header_le := by decide
  pageCount_lt := by decide
  fdSetSize_lt := by decide
  logSize_ge := by decide
  logSize_lt := by decide

/-! ### Headers -/

/-- The flags of a file header. -/
structure HdrFlags where
  valid : Bool
  allocated : Bool
  obsolete : Bool
  modified : Bool
  log : Bool
  isolated : Bool
  deriving DecidableEq

def HdrFlags.none : HdrFlags := ⟨false, false, false, false, false, false⟩

/-- The flag byte: `HDR_FLAG_VALID` is bit 0, `HDR_FLAG_ISOLATED` is bit 5. -/
def HdrFlags.toByte (h : HdrFlags) : UInt8 :=
  UInt8.ofNat (h.valid.toNat + 2 * h.allocated.toNat + 4 * h.obsolete.toNat + 8 * h.modified.toNat +
    16 * h.log.toNat + 32 * h.isolated.toNat)

def HdrFlags.ofByte (b : UInt8) : HdrFlags where
  valid := b.toNat.testBit 0
  allocated := b.toNat.testBit 1
  obsolete := b.toNat.testBit 2
  modified := b.toNat.testBit 3
  log := b.toNat.testBit 4
  isolated := b.toNat.testBit 5

structure FileHeader where
  logPage : Nat
  logRecords : Nat
  logRecordSize : Nat
  maxPages : Nat
  deprecatedEofHint : UInt8
  flags : HdrFlags
  name : List UInt8
  deriving DecidableEq

namespace FileHeader

def bytes (h : FileHeader) : List UInt8 :=
  toLe 2 h.logPage ++ toLe 2 h.logRecords ++ toLe 2 h.logRecordSize ++ toLe 2 h.maxPages ++
    [h.deprecatedEofHint, h.flags.toByte] ++ h.name

/-- `HDR_FREE`. -/
def free (h : FileHeader) : Bool := !h.flags.allocated

/-- `HDR_ACTIVE`. -/
def active (h : FileHeader) : Bool := h.flags.allocated && !h.flags.obsolete && !h.flags.isolated

end FileHeader

/-- A run of pages. -/
structure Extent where
  page : Nat
  size : Nat
  deriving DecidableEq

/-- What the functions of the page level share. -/
structure Medium where
  flash : Nat → UInt8
  nextFree : Nat
  /-- History: the extents that are reserved and not removed. -/
  live : List Extent
  /-- History: the sectors that were erased, with the extents live then. -/
  erasures : List (Nat × List Extent)
  /-- History: the flash and the live extents at the start of every garbage collection. -/
  collections : List ((Nat → UInt8) × List Extent)

section
variable (c : Config)

def readHeader (f : Nat → UInt8) (page : Nat) : FileHeader :=
  let o := page * c.pageSize
  { logPage := ofLe (slice f o 2)
    logRecords := ofLe (slice f (o + 2) 2)
    logRecordSize := ofLe (slice f (o + 4) 2)
    maxPages := ofLe (slice f (o + 6) 2)
    deprecatedEofHint := f (o + 8)
    flags := .ofByte (f (o + 9))
    name := slice f (o + 10) c.nameLength }

def writeHeader (hdr : FileHeader) (page : Nat) (f : Nat → UInt8) : Nat → UInt8 :=
  store f (page * c.pageSize) { hdr with flags := { hdr.flags with valid := true } }.bytes

def absoluteOffset (page offset : Nat) : Nat := page * c.pageSize + c.headerSize + offset

def coffeeErase (sector : Nat) (f : Nat → UInt8) : Nat → UInt8 := fun a =>
  if sector * c.sectorSize ≤ a ∧ a < (sector + 1) * c.sectorSize then 0 else f a

/-! ### Sector status and garbage collection -/

structure SectorStatus where
  active : Nat
  obsolete : Nat
  free : Nat
  deriving DecidableEq

/-- The static variables of `get_sector_status`. -/
structure Skip where
  skipPages : Nat
  lastPagesAreActive : Bool
  deriving DecidableEq

/-- The loop over the headers of a sector: the pages of each kind, and whether the last extent is active. -/
def sectorLoop (f : Nat → UInt8) (sectorEnd : Nat) :
    Nat → Nat → SectorStatus → Bool → SectorStatus × Bool
  | 0, _, stats, last => (stats, last)
  | fuel + 1, page, stats, last =>
    if page < sectorEnd then
      let hdr := readHeader c f page
      if hdr.active then
        sectorLoop f sectorEnd fuel (page + hdr.maxPages)
          { stats with active := stats.active + hdr.maxPages } true
      else if hdr.flags.isolated then
        sectorLoop f sectorEnd fuel (page + 1) { stats with obsolete := stats.obsolete + 1 } false
      else if hdr.flags.obsolete then
        sectorLoop f sectorEnd fuel (page + hdr.maxPages)
          { stats with obsolete := stats.obsolete + hdr.maxPages } false
      else ({ stats with free := sectorEnd - page }, false)
    else (stats, last)

/-- `get_sector_status`: the statistics, the pages of the next sector to isolate, the static variables. -/
def getSectorStatus (f : Nat → UInt8) (sector : Nat) (skip : Skip) : SectorStatus × Nat × Skip :=
  let skip := if sector = 0 then ⟨0, false⟩ else skip
  let sectorStart := sector * c.pagesPerSector
  if c.pagesPerSector ≤ skip.skipPages then
    let rest := skip.skipPages - c.pagesPerSector
    if skip.lastPagesAreActive then (⟨c.pagesPerSector, 0, 0⟩, 0, ⟨rest, true⟩)
    else (⟨0, c.pagesPerSector, 0⟩, if c.pagesPerSector ≤ rest then 0 else rest, ⟨rest, false⟩)
  else
    let stats := if skip.lastPagesAreActive then ⟨skip.skipPages, 0, 0⟩ else ⟨0, skip.skipPages, 0⟩
    let (stats, last) := sectorLoop c f (sectorStart + c.pagesPerSector) c.pagesPerSector
      (sectorStart + skip.skipPages) stats skip.lastPagesAreActive
    let rest := stats.active + stats.obsolete + stats.free - c.pagesPerSector
    let stats :=
      if 0 < rest then
        if last then { stats with active := c.pagesPerSector - stats.obsolete }
        else { stats with obsolete := c.pagesPerSector - stats.active }
      else stats
    (stats, if last || decide (c.pagesPerSector ≤ rest) then 0 else rest, ⟨rest, last⟩)

def isolatedHeader : FileHeader :=
  ⟨0, 0, 0, 0, 0, { HdrFlags.none with allocated := true, isolated := true },
    List.replicate c.nameLength 0⟩

def isolatePages (start : Nat) : Nat → (Nat → UInt8) → Nat → UInt8
  | 0, f => f
  | skipPages + 1, f => writeHeader c (isolatedHeader c) (start + skipPages) (isolatePages start skipPages f)

/-- The modes of the garbage collector. -/
inductive GcMode where | greedy | reluctant
  deriving DecidableEq

/-- Whether a sector is erased. -/
def SectorStatus.erasable (mode : GcMode) (stats : SectorStatus) : Bool :=
  stats.active == 0 &&
    match mode with
    | .reluctant => stats.free == 0
    | .greedy => decide (0 < stats.obsolete)

/-- Erase a sector, with the pages of an obsolete file in the next sector isolated. -/
def eraseSector (sector isolationCount : Nat) (m : Medium) : Medium :=
  { m with
    flash := coffeeErase c sector (isolatePages c ((sector + 1) * c.pagesPerSector) isolationCount m.flash)
    nextFree := min m.nextFree (sector * c.pagesPerSector)
    erasures := m.erasures ++ [(sector, m.live)] }

/-- The loop of `collect_garbage`, over the sectors that are left. -/
def collectLoop (mode : GcMode) : List Nat → Skip → Medium → Medium
  | [], _, m => m
  | sector :: sectors, skip, m =>
    let (stats, isolationCount, skip) := getSectorStatus c m.flash sector skip
    if stats.erasable mode then
      let m := eraseSector c sector isolationCount m
      if mode = .reluctant ∧ 0 < isolationCount then m else collectLoop mode sectors skip m
    else collectLoop mode sectors skip m

def collectGarbage (mode : GcMode) (m : Medium) : Medium :=
  collectLoop c mode (List.range c.sectorCount) ⟨0, false⟩
    { m with collections := m.collections ++ [(m.flash, m.live)] }

/-! ### The walk and the search for free pages -/

/-- `next_file`; `COFFEE_PAGES_PER_SECTOR` is a power of two. -/
def nextFile (page : Nat) (hdr : FileHeader) : Nat :=
  if hdr.free then (page + c.pagesPerSector) / c.pagesPerSector * c.pagesPerSector
  else if hdr.flags.isolated then page + 1
  else page + hdr.maxPages

/-- The pages that a loop over `next_file` reads the headers of. -/
def walkFrom (f : Nat → UInt8) : Nat → Nat → List Nat
  | 0, _ => []
  | fuel + 1, page =>
    if page < c.pageCount then page :: walkFrom f fuel (nextFile c page (readHeader c f page)) else []

def walk (f : Nat → UInt8) : List Nat := walkFrom c f c.pageCount 0

/-- The loop of `find_contiguous_pages`; `coffee_page_t` has room for `start + amount`. -/
def findLoop (f : Nat → UInt8) (amount : Nat) : Nat → Nat → Option Nat → Option Nat
  | 0, _, _ => none
  | fuel + 1, page, start =>
    if page < c.pageCount then
      let hdr := readHeader c f page
      if hdr.free then
        -- The remaining pages may be too few for a run that starts here.
        if start = none ∧ c.pageCount ≤ page + amount then none
        else
          let first := start.getD page
          let next := nextFile c page hdr
          if first + amount ≤ next then some first else findLoop f amount fuel next (some first)
      else findLoop f amount fuel (nextFile c page hdr) none
    else none

def findContiguousPages (amount : Nat) (m : Medium) : Option Nat × Medium :=
  match findLoop c m.flash amount c.pageCount m.nextFree none with
  | none => (none, m)
  | some start => (some start, if start = m.nextFree then { m with nextFree := start + amount } else m)

end

/-- The flash after `cfs_coffee_format`. -/
def Medium.formatted : Medium := ⟨fun _ => 0, 0, [], [], []⟩

end CSync.Coffee
