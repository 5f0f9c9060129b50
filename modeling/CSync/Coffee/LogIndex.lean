import CSync.Coffee.Files
import CSync.Coffee.Headers

/-! The index of a log: finding the next free record and the latest record of a region.

    An entry of the index table is a region plus one, or zero for a record that is still free. The search for
    a free record goes up in batches, and what a batch finds is forgotten in the next one; the search for a
    region goes down and stops where it finds it. So the first search is right when the first free record is
    in the last batch, or when there is one batch only. -/

namespace CSync.Coffee

open Lib List

variable {c : Config} {f : Nat → UInt8} {logPage n k region : Nat}

/-- The table is filled without gaps: its first `k` of `n` entries. -/
structure Gapless (c : Config) (f : Nat → UInt8) (logPage n k : Nat) : Prop where
  le : k ≤ n
  filled : ∀ i < k, logIndex c f logPage i ≠ 0
  free : ∀ i, k ≤ i → i < n → logIndex c f logPage i = 0

/-- The highest index, out of `n`, of an entry. -/
def Latest (c : Config) (f : Nat → UInt8) (logPage n entry : Nat) : Option Nat → Prop
  | some i => i < n ∧ logIndex c f logPage i = entry ∧ ∀ j, i < j → j < n → logIndex c f logPage j ≠ entry
  | none => ∀ j < n, logIndex c f logPage j ≠ entry

theorem logIndex_lt (c : Config) (f : Nat → UInt8) (logPage i : Nat) : logIndex c f logPage i < 65536 :=
  ofLe_two_lt f _

/-- There is one highest index at most. -/
theorem Latest.unique {entry : Nat} : ∀ {o o' : Option Nat}, Latest c f logPage n entry o →
    Latest c f logPage n entry o' → o = o'
  | none, none, _, _ => rfl
  | none, some i, h, h' => absurd h'.2.1 (h i h'.1)
  | some i, none, h, h' => absurd h.2.1 (h' i h.1)
  | some i, some j, ⟨hi, hie, hlast⟩, ⟨hj, hje, hlast'⟩ => by
    rcases lt_trichotomy i j with hlt | rfl | hgt
    · exact absurd hje (hlast j hlt hj)
    · rfl
    · exact absurd hie (hlast' i hgt hi)

/-! ### The search for a region -/

theorem entry_pred_eq {entry region : Nat} (hentry : entry < 65536) (hregion : region < 65536) :
    (entry + 65535) % 65536 = region ↔ entry = (region + 1) % 65536 := by
  omega

theorem find_last_cases (p : Nat → Bool) : ∀ size : Nat,
    (∃ i, (range size).reverse.find? p = some i ∧ i < size ∧ p i = true ∧ ∀ j, i < j → j < size → p j = false) ∨
    ((range size).reverse.find? p = none ∧ ∀ j < size, p j = false)
  | 0 => .inr ⟨rfl, nofun⟩
  | size + 1 => by
    rw [range_succ, reverse_append, reverse_singleton, singleton_append, find?_cons]
    cases hlast : p size with
    | true => exact .inl ⟨size, rfl, Nat.lt_succ_self size, hlast, fun j h1 h2 => by omega⟩
    | false =>
      have hstep : ∀ j < size + 1, (j < size → p j = false) → p j = false := by
        intro j hj h
        rcases Nat.lt_succ_iff_lt_or_eq.mp hj with hj | rfl
        · exact h hj
        · exact hlast
      rcases find_last_cases p size with ⟨i, hfind, hi, hp, hlater⟩ | ⟨hfind, hnone⟩
      · exact .inl ⟨i, hfind, by omega, hp, fun j h1 h2 => hstep j h2 (hlater j h1)⟩
      · exact .inr ⟨hfind, fun j hj => hstep j hj (hnone j)⟩

theorem hit_iff {base i : Nat} (hregion : region < 65536) (hbase : base + 2 * i = absoluteOffset c logPage (2 * k)) :
    ((ofLe (slice f (base + 2 * i) 2) + 65535) % 65536 == region) = true ↔
      logIndex c f logPage k = (region + 1) % 65536 := by
  rw [beq_iff_eq, hbase]
  exact entry_pred_eq (logIndex_lt c f logPage k) hregion

variable {processed size inRecord : Nat} {data : List UInt8}

theorem recordIndexLoop_latest (hn : n < 32768) (hregion : region < 65536) {fuel batchSize : Nat}
    (hbatch : 0 < batchSize) (hbatch' : batchSize ≤ n) (hfuel : n - processed ≤ fuel) (hle : processed ≤ n)
    (hrest : ∀ j, n - processed ≤ j → j < n → logIndex c f logPage j ≠ (region + 1) % 65536) :
    Latest c f logPage n ((region + 1) % 65536)
      (recordIndexLoop f n region fuel batchSize (absoluteOffset c logPage (2 * (n - processed))) processed) := by
  induction fuel generalizing batchSize processed with
  | zero => exact fun j hj => hrest j (by omega) hj
  | succ fuel ih =>
    rw [recordIndexLoop]
    split
    next hlt =>
      set size := if n < (batchSize + processed) % 65536 then n - processed else batchSize with hsize
      have hsize' : size = min batchSize (n - processed) := by
        rw [hsize, Nat.mod_eq_of_lt (by omega)]
        split <;> omega
      have hbase : absoluteOffset c logPage (2 * (n - processed)) - size * 2 =
          absoluteOffset c logPage (2 * (n - (processed + size))) := by
        simp only [absoluteOffset]
        omega
      have hhit : ∀ i, ((ofLe (slice f (absoluteOffset c logPage (2 * (n - (processed + size))) + 2 * i) 2)
          + 65535) % 65536 == region) = true ↔
          logIndex c f logPage (n - (processed + size) + i) = (region + 1) % 65536 := by
        refine fun i => hit_iff hregion ?_
        simp only [absoluteOffset]
        omega
      -- What the batch does not have, the table does not have from the batch on.
      have hbehind : ∀ i, (∀ j, i ≤ j → j < size →
          ((ofLe (slice f (absoluteOffset c logPage (2 * (n - (processed + size))) + 2 * j) 2) + 65535) % 65536
            == region) = false) → ∀ j, n - (processed + size) + i ≤ j → j < n →
          logIndex c f logPage j ≠ (region + 1) % 65536 := by
        intro i hi j h1 h2
        by_cases hj : n - processed ≤ j
        · exact hrest j hj h2
        · have hmiss := hi (j - (n - (processed + size))) (by omega) (by omega)
          rw [Bool.eq_false_iff, Ne, hhit, Nat.add_sub_cancel' (by omega)] at hmiss
          exact hmiss
      dsimp only
      rw [hbase, findInBatch]
      rcases find_last_cases (fun i => (ofLe (slice f (absoluteOffset c logPage
        (2 * (n - (processed + size))) + 2 * i) 2) + 65535) % 65536 == region) size with
        ⟨i, hfind, hi, hfound, hlater⟩ | ⟨hfind, hnone⟩
      · have hindex : n - processed - (size - i) = n - (processed + size) + i := by omega
        rw [hfind, Option.map_some, hindex]
        dsimp only
        rw [if_pos (by omega)]
        exact ⟨by omega, (hhit i).mp hfound, fun j h1 h2 => hbehind (i + 1) (fun j hj => hlater j hj) j (by omega) h2⟩
      · rw [hfind, Option.map_none]
        exact ih (by omega) (by omega) (by omega) (by omega) fun j h1 h2 =>
          hbehind 0 (fun j _ hj => hnone j hj) j (by omega) h2
    · exact fun j hj => hrest j (by omega) hj

theorem getRecordIndex_latest (hn : n < 32768) (hregion : region < 65536) (hlimit : 0 < c.logTableLimit) :
    Latest c f logPage n ((region + 1) % 65536) (getRecordIndex c f logPage region n) := by
  rcases Nat.eq_zero_or_pos n with rfl | hpos
  · exact fun j hj => absurd hj (Nat.not_lt_zero j)
  · have hloop : Latest c f logPage n ((region + 1) % 65536)
        (recordIndexLoop f n region n (min n c.logTableLimit) (absoluteOffset c logPage (2 * (n - 0))) 0) :=
      recordIndexLoop_latest hn hregion (Nat.lt_min.mpr ⟨hpos, hlimit⟩) (min_le_left _ _) (Nat.sub_le n 0)
        (Nat.zero_le n) fun j h1 h2 => absurd h2 (by omega)
    rwa [Nat.sub_zero, ← Nat.mod_eq_of_lt (show 2 * n < 65536 by omega)] at hloop

/-! ### The search for a free record -/

/-- What a batch leaves in `log_record`: its first free entry, or else its size. -/
def batchResult (c : Config) (f : Nat → UInt8) (logPage processed size : Nat) : Nat :=
  match (range size).find? fun i => logIndex c f logPage (processed + i) == 0 with
  | some i => i + processed
  | none => size

/-- In a table without gaps. -/
theorem batchResult_eq (h : Gapless c f logPage n k) (hsize : processed + size = n)
    (hpos : 0 < size) : batchResult c f logPage processed size = if k < n then max k processed else size := by
  have hfree : ∀ i < size, (logIndex c f logPage (processed + i) == 0) = decide (k ≤ processed + i) := by
    intro i hi
    by_cases hk : k ≤ processed + i
    · rw [h.free _ hk (by omega), decide_eq_true hk]
      rfl
    · rw [decide_eq_false hk]
      exact beq_eq_false_iff_ne.mpr (h.filled _ (by omega))
  rw [batchResult]
  split
  next i hi =>
    obtain ⟨hsat, hlt, hfirst⟩ := find?_range_eq_some.mp hi
    rw [mem_range] at hlt
    rw [hfree i hlt, decide_eq_true_eq] at hsat
    rw [if_pos (by omega)]
    -- The entry in front of it, if there is one, is filled.
    by_cases hi0 : i = 0
    · omega
    · have := hfirst (i - 1) (by omega)
      rw [hfree (i - 1) (by omega), Bool.not_eq_true', decide_eq_false_iff_not] at this
      omega
  next hnone =>
    have := find?_range_eq_none.mp hnone (size - 1) (by omega)
    rw [hfree (size - 1) (by omega), Bool.not_eq_true', decide_eq_false_iff_not] at this
    rw [if_neg (by omega)]

theorem nextRecordLoop_eq {fuel logRecord m : Nat} (hpos : 0 < size) (hsize : min n c.logTableLimit = size)
    (hm : processed = m * size) (hlt : processed < n) (hfuel : n ≤ processed + fuel) :
    nextRecordLoop c f logPage n fuel processed logRecord =
      batchResult c f logPage ((n - 1) / size * size) (n - (n - 1) / size * size) := by
  induction fuel generalizing processed logRecord m with
  | zero => omega
  | succ fuel ih =>
    rw [nextRecordLoop, if_pos hlt, hsize]
    by_cases hmore : processed + size < n
    · rw [min_eq_left (by omega)]
      exact ih (by rw [hm, Nat.succ_mul]) hmore (by omega)
    · have hlast : (n - 1) / size * size = processed := by
        rw [hm]
        refine congrArg (· * size) (Nat.div_eq_of_lt_le ?_ ?_)
        · omega
        · rw [Nat.succ_mul]
          omega
      rw [min_eq_right (by omega), hlast]
      cases fuel with
      | zero => rfl
      | succ fuel =>
        rw [nextRecordLoop, if_neg (by omega)]
        rfl

theorem findNextRecord_eq (h : Gapless c f logPage n k) (hlimit : 0 < c.logTableLimit) (hpos : 0 < n) :
    findNextRecord c f none logPage n =
      if k < n then max k ((n - 1) / min n c.logTableLimit * min n c.logTableLimit)
      else n - (n - 1) / min n c.logTableLimit * min n c.logTableLimit := by
  have hbatch : 0 < min n c.logTableLimit := Nat.lt_min.mpr ⟨hpos, hlimit⟩
  have hle := Nat.div_mul_le_self (n - 1) (min n c.logTableLimit)
  rw [findNextRecord, Option.getD_none, nextRecordLoop_eq hbatch rfl (zero_mul _).symm hpos (Nat.le_add_left _ _)]
  exact batchResult_eq h (by omega) (by omega)

/-- The first free entry is in the last batch, or there is one batch only. -/
def LastBatch (c : Config) (n k : Nat) : Prop :=
  n ≤ c.logTableLimit ∨ (n - 1) / c.logTableLimit * c.logTableLimit ≤ k ∧ k < n

theorem findNextRecord_eq_iff (h : Gapless c f logPage n k) (hlimit : 0 < c.logTableLimit) :
    findNextRecord c f none logPage n = k ↔ LastBatch c n k := by
  have hk := h.le
  rcases Nat.eq_zero_or_pos n with rfl | hpos
  · have hzero : k = 0 := by omega
    subst hzero
    exact ⟨fun _ => .inl (Nat.zero_le _), fun _ => rfl⟩
  · rw [findNextRecord_eq h hlimit hpos, LastBatch]
    by_cases hone : n ≤ c.logTableLimit
    · rw [min_eq_left hone, Nat.div_eq_of_lt (by omega), zero_mul]
      refine ⟨fun _ => .inl hone, fun _ => ?_⟩
      split <;> omega
    · rw [min_eq_right (by omega)]
      have hlast : c.logTableLimit ≤ (n - 1) / c.logTableLimit * c.logTableLimit := by
        have := Nat.mul_le_mul_right c.logTableLimit
          ((Nat.one_le_div_iff hlimit).mpr (show c.logTableLimit ≤ n - 1 by omega))
        rwa [one_mul] at this
      split <;> omega

/-! ### Appending a record -/

def fileHeader (s : State c) (i : Fin c.maxOpenFiles) : FileHeader := readHeader c s.flash ((s.files i).page.getD 0)

/-- The file has a log of `n` records, of which nothing is cached. `cfs_coffee_configure_log` gives it no more
    records than a size with 16 bits has room for. -/
structure HasLog (s : State c) (i : Fin c.maxOpenFiles) (logPage n : Nat) : Prop where
  modified : (fileHeader s i).flags.modified = true
  logPage : (fileHeader s i).logPage = logPage
  records : (logConfig c (fileHeader s i)).2 = n
  size : n * (logConfig c (fileHeader s i)).1 < 65536
  count : (s.files i).recordCount = none

theorem recordSize_pos (c : Config) (hdr : FileHeader) : 0 < (logConfig c hdr).1 := by
  have := pageSize_pos c
  rw [logConfig]
  split <;> omega

theorem newRecord_eq (c : Config) (f : Nat → UInt8) {hdr : FileHeader} (page logRecord region : Nat)
    (data : List UInt8) (hin : inRecord ≤ (logConfig c hdr).1) : ∃ front back, front.length = inRecord ∧
      newRecord c f hdr page logRecord region inRecord data = front ++ data ++ back := by
  have hpad : ∀ old : List UInt8,
      ((old ++ replicate ((logConfig c hdr).1 - old.length) 0).take inRecord).length = inRecord := by
    intro old
    rw [length_take, length_append, length_replicate]
    omega
  exact ⟨_, _, hpad _, rfl⟩

/-- The table with one more entry. -/
theorem logIndex_appendRecord {record : List UInt8} {i : Nat} (hi : i < n) :
    logIndex c (appendRecord c f logPage n size k region record) logPage i =
      if i = k then ofLe (toLe 2 (region + 1)) else logIndex c f logPage i := by
  have hoff : ∀ o, absoluteOffset c logPage o = absoluteOffset c logPage 0 + o := fun o => rfl
  rw [logIndex, appendRecord, slice_store_outside (by rw [hoff]; omega)]
  split
  next hik =>
    subst hik
    rw [hoff, mul_comm 2]
    exact congrArg ofLe (holds_store f _ (toLe 2 (region + 1)))
  · rw [slice_store_outside]
    · rfl
    · rw [hoff, length_toLe]
      omega

theorem getRecordIndex_appendRecord (h : Gapless c f logPage n k) (hk : k < n) (hn : n < 32768)
    (hlimit : 0 < c.logTableLimit) (hregion : region < 65535) {record : List UInt8} {m : Nat} (hm : k < m)
    (hmn : m ≤ n) : getRecordIndex c (appendRecord c f logPage n size k region record) logPage region m = some k := by
  refine (getRecordIndex_latest (by omega) (by omega) hlimit).unique ⟨hm, ?_, fun j h1 h2 => ?_⟩
  · rw [logIndex_appendRecord hk, if_pos rfl, ofLe_toLe (by omega), Nat.mod_eq_of_lt (by omega)]
  · rw [logIndex_appendRecord (by omega), if_neg (by omega), h.free j (by omega) (by omega),
      Nat.mod_eq_of_lt (by omega)]
    exact (Nat.succ_ne_zero region).symm

theorem slice_appendRecord {front back : List UInt8} (hsize : n * size < 65536) (hk : k < n) :
    slice (appendRecord c f logPage n size k region (front ++ data ++ back))
      (absoluteOffset c logPage (n * 2) + k * size + front.length) data.length = data := by
  have hle : k * size < 65536 := lt_of_le_of_lt (Nat.mul_le_mul_right size (le_of_lt hk)) hsize
  have hheld := holds_store (store f (absoluteOffset c logPage 0 + k * 2) (toLe 2 (region + 1)))
    (absoluteOffset c logPage 0 + n * 2 + k * size % 65536) (front ++ data ++ back)
  rw [Nat.mod_eq_of_lt hle, holds_append, holds_append] at hheld
  rw [appendRecord, Nat.mod_eq_of_lt hle]
  exact hheld.1.2

theorem writeLogPage_eq {s : State c} {i : Fin c.maxOpenFiles} (h : HasLog s i logPage n)
    (hnext : findNextRecord c s.flash none logPage n = k) (hk : k < n) {offset : Nat}
    (hbuf : modifyLogBuffer (logConfig c (fileHeader s i)).1 offset data.length = (region, inRecord, size)) :
    ∃ front back,
      front.length = inRecord ∧
      writeLogPage i offset data s =
        (.wrote size, setFile i (fun file => { file with recordCount := some (k + 1) })
           { s with flash := (appendRecord c s.flash logPage n (logConfig c (fileHeader s i)).1 k region
             (front ++ data.take size ++ back)) }) := by
  have hin : inRecord ≤ (logConfig c (fileHeader s i)).1 := by
    simp only [modifyLogBuffer, Prod.mk.injEq] at hbuf
    rw [← hbuf.2.1]
    exact le_of_lt (Nat.mod_lt _ (recordSize_pos c _))
  obtain ⟨front, back, hlen, hrecord⟩ := newRecord_eq c s.flash ((s.files i).page.getD 0) k region (data.take size)
    (show inRecord ≤ (logConfig c { fileHeader s i with logPage := logPage }).1 from hin)
  have hlog : logForWrite i (fileHeader s i) s = (some (some (logPage, k)), s) := by
    rw [logForWrite]
    simp only [h.modified, if_true, h.count, h.logPage, h.records, hnext]
    rw [if_neg (by omega)]
  have hheader : readHeader c s.flash ((s.files i).page.getD 0) = fileHeader s i := rfl
  refine ⟨front, back, hlen, ?_⟩
  rw [← hrecord, writeLogPage]
  simp only [hheader, hbuf, hlog, h.records]

theorem readLogPage_appendRecord (h : Gapless c f logPage n k) (hk : k < n) (hn : n < 32768)
    (hlimit : 0 < c.logTableLimit) (hregion : region < 65535) {hdr : FileHeader} (hpage : hdr.logPage = logPage)
    (hrecords : (logConfig c hdr).2 = n) (hsize : n * (logConfig c hdr).1 < 65536) {count : Option Nat}
    (hcount : count = none ∨ count = some (k + 1)) {offset asked : Nat} {front : List UInt8} (back : List UInt8)
    (hbuf : modifyLogBuffer (logConfig c hdr).1 offset asked = (region, inRecord, data.length))
    (hfront : front.length = inRecord) :
    readLogPage c (appendRecord c f logPage n (logConfig c hdr).1 k region (front ++ data ++ back)) hdr count offset
      asked =
      (some data, data.length) := by
  have hindex : getRecordIndex c
      (appendRecord c f logPage n (logConfig c hdr).1 k region (front ++ data ++ back)) logPage region
      (count.getD n) = some k := by
    rcases hcount with rfl | rfl
    · exact getRecordIndex_appendRecord h hk hn hlimit hregion hk (le_refl n)
    · exact getRecordIndex_appendRecord h hk hn hlimit hregion (Nat.lt_succ_self k) hk
  rw [readLogPage]
  simp only [hbuf, hrecords, hpage, hindex]
  rw [← hfront, slice_appendRecord hsize hk]

/-! ### The index as a whole -/

/-- `find_next_record` with nothing cached; the number of records is passed as an `int` with 16 bits, and the
    size of an array is not negative. -/
def findNextRecordInt (c : Config) (f : Nat → UInt8) (logPage logRecords : Nat) : Option Nat :=
  if logRecords < 32768 then some (findNextRecord c f none logPage logRecords) else none

/-- What the index is for: the next record is the first free one, the latest record of a region is found, and
    a record that is written is the one that the next read finds, whether the number of records is cached or not. -/
structure IndexRight (c : Config) (f : Nat → UInt8) (logPage n k region : Nat) : Prop where
  next : findNextRecordInt c f logPage n = some k
  latest : Latest c f logPage n (region + 1) (getRecordIndex c f logPage region n)
  appended : k < n → ∀ (s : State c) (i : Fin c.maxOpenFiles) (offset inRecord size : Nat) (data : List UInt8),
    s.flash = f → HasLog s i logPage n →
    modifyLogBuffer (logConfig c (fileHeader s i)).1 offset data.length = (region, inRecord, size) →
    ∃ t, writeLogPage i offset data s = (.wrote size, t) ∧
      ∀ count ∈ [none, (t.files i).recordCount],
        readLogPage c t.flash (fileHeader s i) count offset data.length = (some (data.take size), size)

/-- EXACT: in a table without gaps the index does what it is for as long as the number of records fits an `int`,
    the first free record is in the last batch or there is one batch only, and the region has an entry. -/
theorem indexRight_iff (h : Gapless c f logPage n k) (hlimit : 0 < c.logTableLimit) (hregion : region < 65536) :
    IndexRight c f logPage n k region ↔ n < 32768 ∧ LastBatch c n k ∧ (region = 65535 → k = n) := by
  constructor
  · rintro ⟨hnext, hlatest, -⟩
    rw [findNextRecordInt] at hnext
    split at hnext
    next hn =>
      rw [Option.some.injEq, findNextRecord_eq_iff h hlimit] at hnext
      refine ⟨hn, hnext, ?_⟩
      rintro rfl
      -- Otherwise a free record is taken for one of the region.
      by_contra hne
      have hk := h.le
      have hfound : Latest c f logPage n ((65535 + 1) % 65536) (getRecordIndex c f logPage 65535 n) :=
        getRecordIndex_latest hn hregion hlimit
      cases hindex : getRecordIndex c f logPage 65535 n with
      | none =>
        rw [hindex] at hfound
        exact hfound k (by omega) (h.free k (le_refl k) (by omega))
      | some i =>
        rw [hindex] at hlatest
        have := logIndex_lt c f logPage i
        rw [hlatest.2.1] at this
        exact lt_irrefl _ this
    · cases hnext
  · rintro ⟨hn, hlast, hfull⟩
    have hnext := (findNextRecord_eq_iff h hlimit).mpr hlast
    have hfound : Latest c f logPage n ((region + 1) % 65536) (getRecordIndex c f logPage region n) :=
      getRecordIndex_latest hn hregion hlimit
    refine ⟨by rw [findNextRecordInt, if_pos hn, hnext], ?_, fun hk s i offset inRecord size data hf hlog hbuf => ?_⟩
    · by_cases htop : region = 65535
      · subst htop
        have hkn := hfull rfl
        subst hkn
        rw [hfound.unique (show Latest c f logPage k ((65535 + 1) % 65536) none from h.filled)]
        intro j _ heq
        have := logIndex_lt c f logPage j
        omega
      · rwa [Nat.mod_eq_of_lt (by omega)] at hfound
    · subst hf
      have htop : region < 65535 := by
        by_contra hge
        omega
      obtain ⟨front, back, hlen, hwrite⟩ := writeLogPage_eq hlog hnext hk hbuf
      have hsize : (data.take size).length = size := by
        simp only [modifyLogBuffer, Prod.mk.injEq] at hbuf
        rw [length_take]
        omega
      refine ⟨_, hwrite, fun count hcount => ?_⟩
      have hcount' : count = none ∨ count = some (k + 1) := by simpa [setFile] using hcount
      have hread := readLogPage_appendRecord h hk hn hlimit htop hlog.logPage hlog.records hlog.size hcount' back
        (hsize.symm ▸ hbuf) hlen
      rw [hsize] at hread
      exact hread

/-- The log at page 1 of an otherwise empty flash, with one record, of region 0. -/
def oneRecord : Nat → UInt8 := store (fun _ => 0) (absoluteOffset skyConfig 1 0) (toLe 2 1)

theorem oneRecord_gapless (n : Nat) (hn : 0 < n) : Gapless skyConfig oneRecord 1 n 1 where
  le := hn
  filled i hi := by
    have hzero : i = 0 := by omega
    subst hzero
    decide
  free i hi _ := by
    rw [logIndex, oneRecord, slice_store_outside]
    · rfl
    · rw [length_toLe, absoluteOffset, absoluteOffset]
      omega

/-- A log of 300 records on sky, of which one is in use: the next record is taken to be 256. -/
theorem index_second_batch : Gapless skyConfig oneRecord 1 300 1 ∧ ¬IndexRight skyConfig oneRecord 1 300 1 0 := by
  refine ⟨oneRecord_gapless 300 (by decide), fun h => ?_⟩
  have hnext := h.next
  rw [findNextRecordInt, if_pos (by decide), Option.some.injEq,
    findNextRecord_eq (oneRecord_gapless 300 (by decide)) (by decide) (by decide)] at hnext
  cases hnext

/-- The log of four records that a file has by default. -/
theorem index_default_log : IndexRight skyConfig oneRecord 1 4 1 0 :=
  (indexRight_iff (oneRecord_gapless 4 (by decide)) (by decide) (by decide)).mpr
    ⟨by decide, .inl (by decide), nofun⟩

end CSync.Coffee
