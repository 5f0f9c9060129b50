import Mathlib.Data.List.FinRange
import CSync.Coffee.Pages

/-! The files of Coffee (`cfs-coffee.c`): cached file objects, descriptors, micro logs and the operations.

    A name is the bytes of a C string without the zero at its end. `unsigned` has 16 bits and `cfs_offset_t`
    has room for every offset, as on the platform the repository configures Coffee for. A loop that ends only
    when its work is done has fuel for that work. -/

namespace CSync.Coffee

open Lib

/-- `struct file`: `UNKNOWN_OFFSET`, `INVALID_PAGE` and a record count of -1 are `none`. -/
structure File where
  endOffset : Option Nat
  page : Option Nat
  maxPages : Nat
  recordCount : Option Nat
  references : UInt8
  /-- `COFFEE_FILE_MODIFIED`. -/
  modified : Bool
  deriving DecidableEq

structure OpenFlags where
  read : Bool
  write : Bool
  append : Bool
  deriving DecidableEq

/-- `COFFEE_FD_FREE`. -/
def OpenFlags.free : OpenFlags := ⟨false, false, false⟩

/-- The flags of `cfs_coffee_set_io_semantics`. -/
structure IoFlags where
  flashAware : Bool
  firmSize : Bool
  ensureReadLength : Bool
  deriving DecidableEq

structure FileDesc (c : Config) where
  offset : Nat
  file : Option (Fin c.maxOpenFiles)
  flags : OpenFlags
  ioFlags : IoFlags
  deriving DecidableEq

structure State (c : Config) extends Medium where
  /-- `coffee_files`. -/
  files : Fin c.maxOpenFiles → File
  /-- `coffee_fd_set`. -/
  fds : Fin c.fdSetSize → FileDesc c
  gcWait : Bool

section
variable {c : Config}

def setFile (i : Fin c.maxOpenFiles) (f : File → File) (s : State c) : State c :=
  { s with files := Function.update s.files i (f (s.files i)) }

def setFd (fd : Fin c.fdSetSize) (f : FileDesc c → FileDesc c) (s : State c) : State c :=
  { s with fds := Function.update s.fds fd (f (s.fds fd)) }

def FileHeader.nameOf (hdr : FileHeader) : List UInt8 := hdr.name.takeWhile fun b => b != 0

/-! ### File objects -/

/-- The slot that `load_file` takes: a free one, or else one without references. -/
def slotFor (s : State c) : Option (Fin c.maxOpenFiles) :=
  match (List.finRange c.maxOpenFiles).find? fun i => (s.files i).maxPages == 0 with
  | some i => some i
  | none => (List.finRange c.maxOpenFiles).reverse.find? fun i => (s.files i).references == 0

def loadFile (start : Nat) (hdr : FileHeader) (s : State c) : Option (Fin c.maxOpenFiles) × State c :=
  match slotFor s with
  | none => (none, s)
  | some i =>
    (some i, setFile i (fun file =>
      { file with
        page := some start
        endOffset := none
        maxPages := hdr.maxPages
        modified := hdr.flags.modified
        recordCount := none }) s)

/-- Whether the header of a page is that of the active file `name`. -/
def isNamed (f : Nat → UInt8) (name : List UInt8) (page : Nat) : Bool :=
  let hdr := readHeader c f page
  hdr.active && !hdr.flags.log && hdr.nameOf == name

/-- `find_file`: in the cache, then on the flash. -/
def findFile (name : List UInt8) (s : State c) : Option (Fin c.maxOpenFiles) × State c :=
  match (List.finRange c.maxOpenFiles).find? fun i =>
      (s.files i).maxPages != 0 && (s.files i).page.any (isNamed (c := c) s.flash name) with
  | some i => (some i, s)
  | none =>
    match (walk c s.flash).find? (isNamed (c := c) s.flash name) with
    | some page => loadFile page (readHeader c s.flash page) s
    | none => (none, s)

/-- The number of bytes, out of `n`, up to the last one that is not zero. -/
def lastWritten (f : Nat → UInt8) (base : Nat) : Nat → Nat
  | 0 => 0
  | n + 1 => if f (base + n) ≠ 0 then n + 1 else lastWritten f base n

def fileEnd (f : Nat → UInt8) (start : Nat) : Nat :=
  lastWritten f (start * c.pageSize) ((readHeader c f start).maxPages * c.pageSize) - c.headerSize

def markObsolete (hdr : FileHeader) (page : Nat) (closeFds gcAllowed : Bool) (s : State c) : State c :=
  let s : State c :=
    { s with
      flash := writeHeader c { hdr with flags := { hdr.flags with obsolete := true } } page s.flash
      live := s.live.filter fun e => e.page != page
      gcWait := false
      fds := fun i =>
        if closeFds ∧ (s.fds i).file.any (fun j => (s.files j).page == some page) then
          { s.fds i with flags := .free }
        else s.fds i
      files := fun j =>
        if (s.files j).page = some page then { s.files j with page := none, references := 0, maxPages := 0 }
        else s.files j }
  if !c.extendedWearLevelling && gcAllowed then
    { s with toMedium := collectGarbage c .reluctant s.toMedium }
  else s

def removeByPage (page : Nat) (removeLog closeFds gcAllowed : Bool) (s : State c) : Bool × State c :=
  let hdr := readHeader c s.flash page
  if !hdr.active then (false, s)
  else if removeLog && hdr.flags.modified then
    let logHdr := readHeader c s.flash hdr.logPage
    if !logHdr.active then (false, s)
    else (true, markObsolete hdr page closeFds gcAllowed (markObsolete logHdr hdr.logPage false false s))
  else (true, markObsolete hdr page closeFds gcAllowed s)

def pageCountOf (c : Config) (size : Nat) : Nat := (size + c.headerSize + c.pageSize - 1) / c.pageSize

/-- The header that `reserve` writes. -/
def newHeader (c : Config) (name : List UInt8) (pages : Nat) (log : Bool) : FileHeader where
  logPage := 0
  logRecords := 0
  logRecordSize := 0
  maxPages := pages
  deprecatedEofHint := 0
  flags := { HdrFlags.none with allocated := true, log := log }
  name := name.take (c.nameLength - 1) ++
    List.replicate (c.nameLength - (name.take (c.nameLength - 1)).length) 0

/-- The header on its page, and the file object. -/
def placeFile (name : List UInt8) (pages : Nat) (log : Bool) (page : Nat) (s : State c) :
    Option (Fin c.maxOpenFiles) × State c :=
  let hdr := newHeader c name pages log
  let s : State c := { s with
    flash := writeHeader c hdr page s.flash
    live := ⟨page, pages⟩ :: s.live }
  match loadFile page hdr s with
  | (none, s) => (none, s)
  | (some i, s) => (some i, setFile i (fun file => { file with endOffset := some 0 }) s)

def reserve (name : List UInt8) (pages : Nat) (allowDuplicates log : Bool) (s : State c) :
    Option (Fin c.maxOpenFiles) × State c :=
  let (found, s) := if allowDuplicates then (none, s) else findFile name s
  if found.isSome then (none, s)
  else
    match findContiguousPages c pages s.toMedium with
    | (some page, m) => placeFile name pages log page { s with toMedium := m }
    | (none, _) =>
      if s.gcWait then (none, s)
      else
        let m := collectGarbage c .greedy s.toMedium
        match findContiguousPages c pages m with
        | (some page, m) => placeFile name pages log page { s with toMedium := m }
        | (none, _) => (none, { s with toMedium := m, gcWait := true })

/-! ### Descriptors -/

def getAvailableFd (s : State c) : Option (Fin c.fdSetSize) :=
  (List.finRange c.fdSetSize).find? fun fd => (s.fds fd).flags == .free

/-- `FD_VALID`, for a descriptor of the table. -/
def FileDesc.valid (d : FileDesc c) : Bool := d.flags != .free

/-- The descriptor refers to the file from here on. -/
def attach (fd : Fin c.fdSetSize) (flags : OpenFlags) (i : Fin c.maxOpenFiles) (s : State c) : State c :=
  setFile i (fun file => { file with references := file.references + 1 })
    (setFd fd (fun d => { d with
      file := some i
      flags := flags
      offset := if flags.append then (s.files i).endOffset.getD 0 else 0 }) s)

def cfsOpen (name : List UInt8) (flags : OpenFlags) (s : State c) :
    Option (Fin c.fdSetSize) × State c :=
  match getAvailableFd s with
  | none => (none, s)
  | some fd =>
    let s := setFd fd (fun d => { d with flags := .free, ioFlags := ⟨false, false, false⟩ }) s
    match findFile name s with
    | (some i, s) =>
      let s := setFile i (fun file =>
        { file with endOffset := some (file.endOffset.getD (fileEnd (c := c) s.flash (file.page.getD 0))) }) s
      (some fd, attach fd flags i s)
    | (none, s) =>
      let s := setFd fd (fun d => { d with file := none }) s
      if flags.read && !flags.write then (none, s)
      else
        match reserve name (pageCountOf c c.dynSize) true false s with
        | (none, s) => (none, s)
        | (some i, s) => (some fd, attach fd flags i s)

def cfsClose (fd : Fin c.fdSetSize) (s : State c) : State c :=
  match (s.fds fd).valid, (s.fds fd).file with
  | true, some i =>
    setFile i (fun file => { file with references := file.references - 1 })
      (setFd fd (fun d => { d with flags := .free, file := none }) s)
  | _, _ => s

inductive Whence where | set | cur | fromEnd
  deriving DecidableEq

/-! ### Micro logs -/

/-- `adjust_log_config`: the record size and the number of records. -/
def logConfig (c : Config) (hdr : FileHeader) : Nat × Nat :=
  let logRecordSize := if hdr.logRecordSize = 0 then c.pageSize else hdr.logRecordSize
  (logRecordSize, if hdr.logRecords = 0 then c.logSize / logRecordSize else hdr.logRecords)

/-- An entry of the index table of a log. -/
def logIndex (c : Config) (f : Nat → UInt8) (logPage i : Nat) : Nat :=
  ofLe (slice f (absoluteOffset c logPage (2 * i)) 2)

/-- The last entry for a region in a batch of the table at `base`; numbers have 16 bits. -/
def findInBatch (f : Nat → UInt8) (base batchSize region : Nat) : Option Nat :=
  (List.range batchSize).reverse.find? fun i => (ofLe (slice f (base + 2 * i) 2) + 65535) % 65536 == region

/-- The loop of `get_record_index` over the batches, from the last one back. An index from 2^15 on is
    negative as an `int16_t`. -/
def recordIndexLoop (f : Nat → UInt8) (searchRecords region : Nat) :
    Nat → (batchSize base processed : Nat) → Option Nat
  | 0, _, _, _ => none
  | fuel + 1, batchSize, base, processed =>
    if processed < searchRecords then
      let batchSize := if searchRecords < (batchSize + processed) % 65536 then searchRecords - processed else batchSize
      let base := base - batchSize * 2
      match (findInBatch f base batchSize region).map fun i => searchRecords - processed - (batchSize - i) with
      | some index =>
        if index < 32768 then some index
        else recordIndexLoop f searchRecords region fuel batchSize base (processed + batchSize)
      | none => recordIndexLoop f searchRecords region fuel batchSize base (processed + batchSize)
    else none

def getRecordIndex (c : Config) (f : Nat → UInt8) (logPage region searchRecords : Nat) : Option Nat :=
  recordIndexLoop f searchRecords region searchRecords (min searchRecords c.logTableLimit)
    (absoluteOffset c logPage (2 * searchRecords % 65536)) 0

def modifyLogBuffer (logRecordSize offset size : Nat) : Nat × Nat × Nat :=
  (offset / logRecordSize % 65536, offset % logRecordSize, min size (logRecordSize - offset % logRecordSize))

/-- `read_log_page`: what the log has, and the size that was asked for in the record. -/
def readLogPage (c : Config) (f : Nat → UInt8) (hdr : FileHeader) (recordCount : Option Nat)
    (offset size : Nat) : Option (List UInt8) × Nat :=
  let (logRecordSize, logRecords) := logConfig c hdr
  let (region, inRecord, size) := modifyLogBuffer logRecordSize offset size
  match getRecordIndex c f hdr.logPage region (recordCount.getD logRecords) with
  | none => (none, size)
  | some i =>
    (some (slice f (absoluteOffset c hdr.logPage (logRecords * 2) + i * logRecordSize + inRecord) size), size)

/-- The loop of `cfs_read` over a modified file. -/
def readLoop (c : Config) (f : Nat → UInt8) (hdr : FileHeader) (page : Nat) (recordCount : Option Nat) :
    Nat → Nat → Nat → List UInt8
  | 0, _, _ => []
  | fuel + 1, offset, bytesLeft =>
    if bytesLeft = 0 then []
    else
      let (found, size) := readLogPage c f hdr recordCount offset bytesLeft
      -- From the original file if the log does not have it.
      let bs := found.getD (slice f (absoluteOffset c page offset) size)
      bs ++ readLoop c f hdr page recordCount fuel (offset + size) (bytesLeft - size)

def cfsRead (fd : Fin c.fdSetSize) (size : Nat) (s : State c) : Option (List UInt8) × State c :=
  match (s.fds fd).valid && (s.fds fd).flags.read, (s.fds fd).file with
  | true, some i =>
    let file := s.files i
    let offset := (s.fds fd).offset
    -- Both ways to limit the size leave what is up to the end of the file.
    let size := min size (file.endOffset.getD 0 - offset)
    let page := file.page.getD 0
    let bs :=
      if file.modified then
        readLoop c s.flash (readHeader c s.flash page) page file.recordCount size offset size
      else slice s.flash (absoluteOffset c page offset) size
    (some bs, setFd fd (fun d => { d with offset := offset + size }) s)
  | _, _ => (none, s)

def createLog (i : Fin c.maxOpenFiles) (hdr : FileHeader) (s : State c) : Option Nat × State c :=
  let (logRecordSize, logRecords) := logConfig c hdr
  let size := logRecords * (2 + logRecordSize) % 65536
  match reserve hdr.nameOf (pageCountOf c size) true true s with
  | (none, s) => (none, s)
  | (some j, s) =>
    let logPage := (s.files j).page.getD 0
    let hdr := { hdr with logPage := logPage, flags := { hdr.flags with modified := true } }
    let s : State c := { s with flash := writeHeader c hdr ((s.files i).page.getD 0) s.flash }
    (some logPage, setFile i (fun file => { file with modified := true }) s)

/-- The copy loop of `merge_log`, through a descriptor of its own: the bytes copied. -/
def copyLoop (fd : Fin c.fdSetSize) (page bufSize : Nat) : Nat → Nat → State c → Option Nat × State c
  | 0, _, s => (none, s)
  | fuel + 1, offset, s =>
    match cfsRead fd bufSize s with
    | (none, s) => (none, s)
    | (some [], s) => (some offset, s)
    | (some (b :: bs), s) =>
      copyLoop fd page bufSize fuel (offset + (b :: bs).length)
        { s with flash := store s.flash (absoluteOffset c page offset) (b :: bs) }

/-- All descriptors of one file refer to another. -/
def moveFds (filePage : Nat) (new : Fin c.maxOpenFiles) (s : State c) : State c :=
  let moved := fun fd => (s.fds fd).valid && (s.fds fd).file.any fun i => (s.files i).page == some filePage
  setFile new (fun file =>
      { file with references := file.references + UInt8.ofNat ((List.finRange c.fdSetSize).countP moved) })
    { s with fds := fun fd => if moved fd then { s.fds fd with file := some new } else s.fds fd }

def mergeLog (filePage extend : Nat) (s : State c) : Bool × State c :=
  let hdr := readHeader c s.flash filePage
  match cfsOpen hdr.nameOf ⟨true, false, false⟩ s with
  | (none, s) => (false, s)
  | (some fd, s) =>
    match reserve hdr.nameOf (hdr.maxPages * 2 ^ extend) true false s with
    | (none, s) => (false, cfsClose fd s)
    | (some new, s) =>
      let newPage := (s.files new).page.getD 0
      let bufSize := if hdr.logRecordSize = 0 then c.pageSize else hdr.logRecordSize
      match copyLoop fd newPage bufSize (c.pageCount * c.pageSize + 1) 0 s with
      | (none, s) => (false, cfsClose fd (removeByPage newPage false false true s).2)
      | (some copied, s) =>
        let s := moveFds filePage new s
        match removeByPage filePage true false false s with
        | (false, s) => (false, cfsClose fd (removeByPage newPage false false false s).2)
        | (true, s) =>
          -- Copy the log configuration.
          let hdr2 := { readHeader c s.flash newPage with
            logRecordSize := hdr.logRecordSize
            logRecords := hdr.logRecords }
          let s : State c := { s with flash := writeHeader c hdr2 newPage s.flash }
          let s := setFile new (fun file => { file with modified := false, endOffset := some copied }) s
          (true, cfsClose fd s)

/-- The batches of `find_next_record`; a free entry ends the search in its batch only. -/
def nextRecordLoop (c : Config) (f : Nat → UInt8) (logPage logRecords : Nat) : Nat → Nat → Nat → Nat
  | 0, _, logRecord => logRecord
  | fuel + 1, processed, logRecord =>
    if processed < logRecords then
      let batchSize := min (min logRecords c.logTableLimit) (logRecords - processed)
      let logRecord :=
        match (List.range batchSize).find? fun i => logIndex c f logPage (processed + i) == 0 with
        | some i => i + processed
        | none => batchSize
      nextRecordLoop c f logPage logRecords fuel (processed + batchSize) logRecord
    else logRecord

def findNextRecord (c : Config) (f : Nat → UInt8) (recordCount : Option Nat) (logPage logRecords : Nat) :
    Nat :=
  recordCount.getD (nextRecordLoop c f logPage logRecords logRecords 0 logRecords)

/-- A record of a region: its old bytes, from the log or the file, with the new ones in place. -/
def newRecord (c : Config) (f : Nat → UInt8) (hdr : FileHeader) (page logRecord region inRecord : Nat)
    (data : List UInt8) : List UInt8 :=
  let (logRecordSize, _) := logConfig c hdr
  let offset := region * logRecordSize % 65536
  let old :=
    if 0 < inRecord ∨ data.length ≠ logRecordSize then
      ((readLogPage c f hdr (some logRecord) offset logRecordSize).1).getD
        (slice f (absoluteOffset c page offset) logRecordSize)
    else List.replicate logRecordSize 0
  -- A copy that is cut short leaves the rest of the buffer as it was.
  let old := old ++ List.replicate (logRecordSize - old.length) 0
  old.take inRecord ++ data ++ old.drop (inRecord + data.length)

/-- A record, and its region in the index table. -/
def appendRecord (c : Config) (f : Nat → UInt8) (logPage logRecords logRecordSize logRecord region : Nat)
    (record : List UInt8) : Nat → UInt8 :=
  let f := store f (absoluteOffset c logPage 0 + logRecord * 2) (toLe 2 (region + 1))
  store f (absoluteOffset c logPage 0 + logRecords * 2 + logRecord * logRecordSize % 65536) record

/-- What `write_log_page` did. -/
inductive LogWrite where
  | failed
  /-- The log was full and is merged. -/
  | merged
  | wrote (size : Nat)
  deriving DecidableEq

/-- The log to write to and its next record; `none` in front of the pair if the log is full. -/
def logForWrite (i : Fin c.maxOpenFiles) (hdr : FileHeader) (s : State c) :
    Option (Option (Nat × Nat)) × State c :=
  let file := s.files i
  let (_, logRecords) := logConfig c hdr
  if hdr.flags.modified then
    let logRecord := findNextRecord c s.flash file.recordCount hdr.logPage logRecords
    (some (if logRecords ≤ logRecord then none else some (hdr.logPage, logRecord)), s)
  else
    match createLog i hdr s with
    | (none, s) => (none, s)
    | (some logPage, s) => (some (some (logPage, 0)), s)

def writeLogPage (i : Fin c.maxOpenFiles) (offset : Nat) (data : List UInt8) (s : State c) :
    LogWrite × State c :=
  let page := (s.files i).page.getD 0
  let hdr := readHeader c s.flash page
  let (logRecordSize, logRecords) := logConfig c hdr
  let (region, inRecord, size) := modifyLogBuffer logRecordSize offset data.length
  match logForWrite i hdr s with
  | (none, s) => (.failed, s)
  | (some none, s) =>
    match mergeLog page 0 s with
    | (false, s) => (.failed, s)
    | (true, s) => (.merged, s)
  | (some (some (logPage, logRecord)), s) =>
    let record := newRecord c s.flash { hdr with logPage := logPage } page logRecord region inRecord
      (data.take size)
    let s : State c := { s with
      flash := appendRecord c s.flash logPage logRecords logRecordSize logRecord region record }
    (.wrote size, setFile i (fun file => { file with recordCount := some (logRecord + 1) }) s)

/-- `cfs_coffee_format`. -/
def formatted : State c where
  toMedium := .formatted
  files _ := ⟨some 0, some 0, 0, some 0, 0, false⟩
  fds _ := ⟨0, none, .free, ⟨false, false, false⟩⟩
  gcWait := true

end

end CSync.Coffee
