import CSync.Ftsp.Table
import CSync.Lib.Mean

/-! The averages of FTSP (`linear_regression` in `core/net/c-sync_ftsp_changes/ftsp.c`).

    The local times and the offsets of the full slots are averaged relative to slot 0, which may be full or not. The
    difference of two local times is unsigned, so one that is older than slot 0 counts as one far ahead of it; the
    difference of two offsets is signed. Both averages are right up to less than one, unless some of the differences
    wrap and others do not. -/

namespace CSync.Ftsp

open Lib List

/-- `local_sum`, `local_average`, `offset_sum` and `offset_average`. -/
structure Sums where
  localSum : Int32
  localAverage : Int32
  offsetSum : Int32
  offsetAverage : Int32
  deriving DecidableEq

/-- The body of the first loop of `linear_regression`: an unsigned difference is divided without sign, and the quotient
    and the remainder are added to signed sums. -/
def addSlot (entries : UInt8) (refLocal refOffset : Int32) (acc : Sums) (e : Entry) : Sums :=
  if e.state = .full then
    { localSum := (acc.localSum.toUInt32 + (e.localTime - refLocal.toUInt32) / entries.toUInt32).toInt32
      localAverage := (acc.localAverage.toUInt32 + (e.localTime - refLocal.toUInt32) % entries.toUInt32).toInt32
      offsetSum := acc.offsetSum + (e.offset - refOffset) / entries.toUInt32.toInt32
      offsetAverage := acc.offsetAverage + (e.offset - refOffset) % entries.toUInt32.toInt32 }
  else acc

/-- The first loop; slot 0 is the reference. -/
def sums (s : Table) : Sums :=
  (finRange maxEntries).foldl (fun acc i =>
    addSlot s.tableEntries (s.table 0).localTime.toInt32 (s.table 0).offset acc (s.table i)) ⟨0, 0, 0, 0⟩

/-- `new_local_average` and `new_offset_average` behind the first loop. -/
def newLocalAverage (s : Table) : Int32 :=
  (s.table 0).localTime.toInt32 + ((sums s).localSum + (sums s).localAverage / s.tableEntries.toUInt32.toInt32)

def newOffsetAverage (s : Table) : Int32 :=
  (s.table 0).offset + ((sums s).offsetSum + (sums s).offsetAverage / s.tableEntries.toUInt32.toInt32)

section

variable {R : Type} [SoftDouble R]

/-- The table with `offset`, `skew` and the clock that the regression sets. -/
structure Regression (R : Type) where
  table : Table
  offset : Int32
  skew : R
  tm : RtimerState R

/-- Conversion of a signed integer. -/
def ofInt32 (x : Int32) : R :=
  if x < 0 then SoftDouble.sub (SoftDouble.ofNat 0) (SoftDouble.ofNat x.toInt.natAbs)
  else SoftDouble.ofNat x.toInt.natAbs

/-- The body of the second loop: `a * a` and `a * b`. -/
def addProducts (refLocal refOffset : Int32) (acc : Int32 × Int32) (e : Entry) : Int32 × Int32 :=
  if e.state = .full then
    let a := (e.localTime - refLocal.toUInt32).toInt32
    let b := e.offset - refOffset
    (acc.1 + a * a, acc.2 + a * b)
  else acc

def linearRegression (s : Regression R) : Regression R :=
  if s.table.tableEntries = 0 then s
  else
    let products := (finRange maxEntries).foldl (fun acc i =>
      addProducts (newLocalAverage s.table) (newOffsetAverage s.table) acc (s.table.table i)) (0, 0)
    let newSkew := if products.1 ≠ 0 then SoftDouble.div (ofInt32 products.2) (ofInt32 products.1) else s.skew
    { s with
      skew := newSkew
      offset := newOffsetAverage s.table
      tm := rtimerAdjustFineOffset { s.tm with avgRate := newSkew } (newOffsetAverage s.table) }

end

/-! ### What the first loop sums up -/

theorem toInt_entries (n : UInt8) : n.toUInt32.toInt32.toInt = n.toNat := by
  have hn : n.toNat < 2 ^ 8 := n.toNat_lt
  rw [toInt_of_small] <;> rw [UInt8.toNat_toUInt32]
  omega

theorem toInt_add_word (x : Int32) (u : UInt32) : (x.toUInt32 + u).toInt32.toInt = (x.toInt + u.toNat).bmod (2 ^ 32) := by
  have hadd : (x.toBitVec + u.toBitVec).toInt = (x.toBitVec.toInt + u.toBitVec.toInt).bmod (2 ^ 32) :=
    BitVec.toInt_add ..
  rw [BitVec.toInt_eq_toNat_bmod (x := u.toBitVec), Int.add_bmod_bmod] at hadd
  exact hadd

theorem dvd_sub_bmod (a : Int) : (2 : Int) ^ 32 ∣ a - a.bmod (2 ^ 32) := by
  have hdvd : ((2 ^ 32 : Nat) : Int) ∣ a - a.bmod (2 ^ 32) := Int.dvd_self_sub_bmod
  exact_mod_cast hdvd

/-- The unsigned difference of a local time to that of slot 0, and the signed one of the offsets. -/
def localDiff (refLocal : UInt32) (e : Entry) : Int := ((e.localTime - refLocal).toNat : Int)
def offsetDiff (refOffset : Int32) (e : Entry) : Int := (e.offset - refOffset).toInt

/-- The sums `r` are those of `acc` and of the quotients and remainders of these entries. -/
structure SumsOf (n : Int) (refLocal : UInt32) (refOffset : Int32) (acc r : Sums) (l : List Entry) : Prop where
  localSum : (2 : Int) ^ 32 ∣ acc.localSum.toInt + (l.map fun e => (localDiff refLocal e).tdiv n).sum - r.localSum.toInt
  localAverage : r.localAverage.toInt = acc.localAverage.toInt + (l.map fun e => (localDiff refLocal e).tmod n).sum
  offsetSum : (2 : Int) ^ 32 ∣
    acc.offsetSum.toInt + (l.map fun e => (offsetDiff refOffset e).tdiv n).sum - r.offsetSum.toInt
  offsetAverage : r.offsetAverage.toInt = acc.offsetAverage.toInt +
    (l.map fun e => (offsetDiff refOffset e).tmod n).sum

variable {refLocal : UInt32} {refOffset : Int32}

theorem SumsOf.trans {n : Int} {acc mid r : Sums} {e : Entry} {l : List Entry} (h : SumsOf n refLocal refOffset acc
    mid [e]) (h' : SumsOf n refLocal refOffset mid r l) : SumsOf n refLocal refOffset acc r (e :: l) := by
  obtain ⟨h₁, h₂, h₃, h₄⟩ := h
  obtain ⟨h₁', h₂', h₃', h₄'⟩ := h'
  simp only [map_cons, map_nil, sum_cons, sum_nil] at h₁ h₂ h₃ h₄
  constructor
  · rw [map_cons, sum_cons]
    have hboth := Int.dvd_add h₁ h₁'
    ring_nf at hboth ⊢
    exact hboth
  · rw [map_cons, sum_cons, h₂', h₂]
    ring
  · rw [map_cons, sum_cons]
    have hboth := Int.dvd_add h₃ h₃'
    ring_nf at hboth ⊢
    exact hboth
  · rw [map_cons, sum_cons, h₄', h₄]
    ring

theorem addSlot_sums {entries : UInt8} {acc : Sums} {e : Entry} (hpos : 0 < entries.toNat) (he : e.state = .full)
    (hlocal : acc.localAverage.toInt.natAbs ≤ 2 ^ 20) (hoffset : acc.offsetAverage.toInt.natAbs ≤ 2 ^ 20) :
    SumsOf entries.toNat refLocal refOffset acc (addSlot entries refLocal.toInt32 refOffset acc e) [e] := by
  have hn : entries.toNat < 2 ^ 8 := entries.toNat_lt
  have hword : entries.toUInt32.toNat = entries.toNat := UInt8.toNat_toUInt32 ..
  have hback : refLocal.toInt32.toUInt32 = refLocal := rfl
  have hdiv : (((e.localTime - refLocal) / entries.toUInt32).toNat : Int) = (localDiff refLocal e).tdiv entries.toNat := by
    rw [UInt32.toNat_div, hword, localDiff, Int.natCast_ediv, Int.tdiv_eq_ediv_of_nonneg (Int.natCast_nonneg _)]
  have hmod : (((e.localTime - refLocal) % entries.toUInt32).toNat : Int) = (localDiff refLocal e).tmod entries.toNat := by
    rw [UInt32.toNat_mod, hword, localDiff, Int.natCast_emod, Int.tmod_eq_emod_of_nonneg (Int.natCast_nonneg _)]
  have hlow : -(entries.toNat : Int) < (offsetDiff refOffset e).tmod entries.toNat := Int.lt_tmod_of_pos _ (by omega)
  have hhigh : (offsetDiff refOffset e).tmod entries.toNat < entries.toNat := Int.tmod_lt_of_pos _ (by omega)
  have hhigh' : (localDiff refLocal e).tmod entries.toNat < entries.toNat := Int.tmod_lt_of_pos _ (by omega)
  rw [addSlot, if_pos he, hback]
  constructor <;> simp only [map_cons, map_nil, sum_cons, sum_nil, add_zero]
  · rw [toInt_add_word, hdiv]
    exact dvd_sub_bmod _
  · rw [toInt_add_word, hmod]
    exact bmod_of_between (by omega) (by omega)
  · rw [Int32.toInt_add, Int32.toInt_div, toInt_entries, Int.add_bmod_bmod]
    exact dvd_sub_bmod _
  · rw [Int32.toInt_add, Int32.toInt_mod, toInt_entries]
    exact bmod_of_between (by rw [← offsetDiff]; omega) (by rw [← offsetDiff]; omega)

theorem natAbs_add_tmod (a d : Int) {n : Nat} (hpos : 0 < n) (hn : n < 2 ^ 8) :
    (a + d.tmod n).natAbs ≤ a.natAbs + 2 ^ 8 := by
  have hlow : -(n : Int) < d.tmod n := Int.lt_tmod_of_pos _ (by omega)
  have hhigh : d.tmod n < n := Int.tmod_lt_of_pos _ (by omega)
  omega

/-- LOOP: the sums are those of the full slots. -/
theorem foldl_sums {entries : UInt8} (hpos : 0 < entries.toNat) :
    ∀ (l : List Entry) (acc : Sums), (∀ e ∈ l, e.state = .full) →
      acc.localAverage.toInt.natAbs + 2 ^ 8 * l.length ≤ 2 ^ 20 →
      acc.offsetAverage.toInt.natAbs + 2 ^ 8 * l.length ≤ 2 ^ 20 →
        SumsOf entries.toNat refLocal refOffset acc (l.foldl (addSlot entries refLocal.toInt32 refOffset) acc) l
  | [], acc, _, _, _ => by
    constructor <;> simp
  | e :: l, acc, hfull, hlocal, hoffset => by
    rw [length_cons] at hlocal hoffset
    have hone : SumsOf entries.toNat refLocal refOffset acc (addSlot entries refLocal.toInt32 refOffset acc e) [e] :=
      addSlot_sums hpos (hfull e mem_cons_self) (by omega) (by omega)
    have hlocal' := hone.localAverage
    have hoffset' := hone.offsetAverage
    simp only [map_cons, map_nil, sum_cons, sum_nil, add_zero] at hlocal' hoffset'
    have hstep := natAbs_add_tmod acc.localAverage.toInt (localDiff refLocal e) hpos entries.toNat_lt
    have hstep' := natAbs_add_tmod acc.offsetAverage.toInt (offsetDiff refOffset e) hpos entries.toNat_lt
    rw [← hlocal'] at hstep
    rw [← hoffset'] at hstep'
    exact hone.trans (foldl_sums hpos l _ (fun b hb => hfull b (mem_cons_of_mem _ hb)) (by omega) (by omega))

def fullEntries (s : Table) : List Entry := (fullSlots s).map s.table

theorem fullEntries_length (s : Table) : (fullEntries s).length = (fullSlots s).length := length_map ..

theorem sums_eq (s : Table) : sums s =
    (fullEntries s).foldl (addSlot s.tableEntries (s.table 0).localTime.toInt32 (s.table 0).offset) ⟨0, 0, 0, 0⟩ := by
  rw [fullEntries, fullSlots, foldl_map, foldl_filter, sums]
  congr 1
  funext acc i
  by_cases hi : (s.table i).state = .full
  · rw [decide_eq_true hi, if_pos rfl]
  · rw [decide_eq_false hi, if_neg Bool.false_ne_true, addSlot, if_neg hi]

theorem sums_spec (s : Table) (hpos : 0 < s.tableEntries.toNat) :
    SumsOf s.tableEntries.toNat (s.table 0).localTime (s.table 0).offset ⟨0, 0, 0, 0⟩ (sums s) (fullEntries s) := by
  have hle := fullSlots_length_le s
  rw [sums_eq]
  refine foldl_sums hpos _ _ (fun e he => ?_) ?_ ?_
  · obtain ⟨i, hi, rfl⟩ := mem_map.mp he
    exact mem_fullSlots.mp hi
  · rw [fullEntries_length]
    have hzero : (⟨0, 0, 0, 0⟩ : Sums).localAverage.toInt.natAbs = 0 := rfl
    have h8 : (fullSlots s).length ≤ 8 := hle
    omega
  · rw [fullEntries_length]
    have hzero : (⟨0, 0, 0, 0⟩ : Sums).offsetAverage.toInt.natAbs = 0 := rfl
    have h8 : (fullSlots s).length ≤ 8 := hle
    omega

theorem dvd_average {x sum average n : Int32} {r q : Int} (hsum : (2 : Int) ^ 32 ∣ 0 + q - sum.toInt) (haverage :
    average.toInt = 0 + r) : (2 : Int) ^ 32 ∣ x.toInt + (q + r.tdiv n.toInt) - (x + (sum + average / n)).toInt := by
  have hvalue : (x + (sum + average / n)).toInt = (x.toInt + (sum.toInt + r.tdiv n.toInt)).bmod (2 ^ 32) := by
    rw [Int32.toInt_add, Int32.toInt_add, Int32.toInt_div, haverage, zero_add, Int.add_bmod_bmod,
      ← add_assoc, Int.add_bmod_bmod, add_assoc]
  rw [hvalue]
  have hwrap := dvd_sub_bmod (x.toInt + (sum.toInt + r.tdiv n.toInt))
  have hboth := Int.dvd_add hsum hwrap
  ring_nf at hboth ⊢
  exact hboth

theorem localDiff_eq (refLocal : UInt32) (e : Entry) : localDiff refLocal e =
    (e.localTime.toNat : Int) - refLocal.toNat + 2 ^ 32 * if decide (e.localTime < refLocal) then 1 else 0 := by
  have he := e.localTime.toNat_lt
  have hr := refLocal.toNat_lt
  rw [localDiff, UInt32.toNat_sub]
  by_cases hless : e.localTime < refLocal
  · have hnat := UInt32.lt_iff_toNat_lt.mp hless
    rw [decide_eq_true hless, if_pos rfl]
    omega
  · have hnat := mt UInt32.lt_iff_toNat_lt.mpr hless
    rw [decide_eq_false hless, if_neg Bool.false_ne_true]
    omega

theorem sum_bounds {m k : Int} : ∀ {l : List Int}, (∀ a ∈ l, m ≤ a ∧ a ≤ k) →
    (l.length : Int) * m ≤ l.sum ∧ l.sum ≤ l.length * k
  | [], _ => by simp
  | a :: l, h => by
    obtain ⟨hlo, hhi⟩ := h a mem_cons_self
    obtain ⟨ihlo, ihhi⟩ := sum_bounds (l := l) fun b hb => h b (mem_cons_of_mem _ hb)
    rw [sum_cons, length_cons]
    push_cast
    constructor <;> linarith

variable {s : Table}

/-- The average of the local times is right just if none or all of the full slots are older than slot 0. -/
theorem localAverage_close_iff (hcount : s.tableEntries.toNat = (fullEntries s).length)
    (hpos : 0 < s.tableEntries.toNat) :
    |(s.tableEntries.toNat : Int) * ((newLocalAverage s).toUInt32.toNat : Int) -
      ((fullEntries s).map fun e => (e.localTime.toNat : Int)).sum| <
      s.tableEntries.toNat * s.tableEntries.toNat ↔
      (∀ e ∈ fullEntries s, decide (e.localTime < (s.table 0).localTime) = false) ∨
      ∀ e ∈ fullEntries s, decide (e.localTime < (s.table 0).localTime) = true := by
  have hn : s.tableEntries.toNat < 2 ^ 8 := s.tableEntries.toNat_lt
  have hsums := sums_spec s hpos
  have hdvd := dvd_average (x := (s.table 0).localTime.toInt32) (n := s.tableEntries.toUInt32.toInt32)
    hsums.localSum hsums.localAverage
  rw [toInt_entries] at hdvd
  have hword : (2 : Int) ^ 32 ∣ (newLocalAverage s).toInt - ((newLocalAverage s).toUInt32.toNat : Int) := by
    rw [toNat_toUInt32]
    split
    · rw [sub_self]
      exact Int.dvd_zero _
    · exact ⟨-1, by ring⟩
  have href : (2 : Int) ^ 32 ∣ ((s.table 0).localTime.toNat : Int) - (s.table 0).localTime.toInt32.toInt := by
    rw [toInt_toInt32]
    exact dvd_sub_bmod _
  have hv := Int.dvd_add (Int.dvd_add href hdvd) hword
  have hwrap := sum_wrapped (W := 2 ^ 32) (t := 1) (r := (s.table 0).localTime.toNat)
    (d := localDiff (s.table 0).localTime) (f := fun e => (e.localTime.toNat : Int))
    (p := fun e => decide (e.localTime < (s.table 0).localTime)) (l := fullEntries s)
    fun e _ => localDiff_eq _ e
  have hquot := quotients_close (n := s.tableEntries.toNat) (by omega)
    ((fullEntries s).map (localDiff (s.table 0).localTime))
  rw [map_map, map_map, hwrap, ← hcount] at hquot
  have hbounds := sum_bounds (m := 0) (k := 2 ^ 32 - 1) (l := (fullEntries s).map fun e => (e.localTime.toNat : Int))
    fun a ha => by
      obtain ⟨e, -, rfl⟩ := mem_map.mp ha
      have he := e.localTime.toNat_lt
      omega
  rw [length_map, ← hcount] at hbounds
  have hvalue := (newLocalAverage s).toUInt32.toNat_lt
  rw [← dvd_countP_iff (t := 1) (.inl rfl), ← hcount]
  refine close_iff_dvd (W := 2 ^ 32) (y := (s.table 0).localTime.toNat +
    (((fullEntries s).map fun e => (localDiff (s.table 0).localTime e).tdiv s.tableEntries.toNat).sum +
      ((fullEntries s).map fun e => (localDiff (s.table 0).localTime e).tmod s.tableEntries.toNat).sum.tdiv
        s.tableEntries.toNat)) (a := 0) (b := 2 ^ 32 - 1) (by omega) (by nlinarith) ?_ ?_ hbounds.1 hbounds.2
    (by omega) (by omega) (by omega)
  · rw [newLocalAverage] at hv ⊢
    ring_nf at hv ⊢
    exact hv
  · refine lt_of_eq_of_lt (congrArg abs ?_) hquot
    simp only [Function.comp_def]
    ring

/-! ### The offsets -/

/-- The difference of the offsets does not fit in 32 bits. -/
def Wraps (refOffset : Int32) (e : Entry) : Prop :=
  ¬ (-2 ^ 31 ≤ e.offset.toInt - refOffset.toInt ∧ e.offset.toInt - refOffset.toInt < 2 ^ 31)

instance (refOffset : Int32) (e : Entry) : Decidable (Wraps refOffset e) := inferInstanceAs (Decidable (¬ _))

/-- The direction in which differences to a reference wrap. -/
def wrapSign (refOffset : Int32) : Int := if 0 ≤ refOffset.toInt then 1 else -1

theorem offsetDiff_eq (refOffset : Int32) (e : Entry) : offsetDiff refOffset e =
    e.offset.toInt - refOffset.toInt + 2 ^ 32 * if decide (Wraps refOffset e) then wrapSign refOffset else 0 := by
  have hlo := Int32.le_toInt e.offset
  have hhi := Int32.toInt_lt e.offset
  have hlo' := Int32.le_toInt refOffset
  have hhi' := Int32.toInt_lt refOffset
  rw [offsetDiff, Int32.toInt_sub]
  by_cases hwraps : Wraps refOffset e
  · rw [decide_eq_true hwraps, if_pos rfl, wrapSign]
    rw [Wraps] at hwraps
    split
    · have hshift := bmod_of_between (n := e.offset.toInt - refOffset.toInt + 2 ^ 32) (by omega) (by omega)
      have hsame : (e.offset.toInt - refOffset.toInt + 2 ^ 32).bmod (2 ^ 32) =
          (e.offset.toInt - refOffset.toInt).bmod (2 ^ 32) := by
        exact_mod_cast Int.add_bmod_right (e.offset.toInt - refOffset.toInt) (2 ^ 32)
      omega
    · have hshift := bmod_of_between (n := e.offset.toInt - refOffset.toInt - 2 ^ 32) (by omega) (by omega)
      have hsame : (e.offset.toInt - refOffset.toInt - 2 ^ 32).bmod (2 ^ 32) =
          (e.offset.toInt - refOffset.toInt).bmod (2 ^ 32) := by
        exact_mod_cast Int.sub_bmod_right (e.offset.toInt - refOffset.toInt) (2 ^ 32)
      omega
  · rw [decide_eq_false hwraps, if_neg Bool.false_ne_true, mul_zero, add_zero]
    rw [Wraps, not_not] at hwraps
    exact bmod_of_between hwraps.1 hwraps.2

theorem offsetAverage_close_iff (hcount : s.tableEntries.toNat = (fullEntries s).length)
    (hpos : 0 < s.tableEntries.toNat) :
    |(s.tableEntries.toNat : Int) * (newOffsetAverage s).toInt - ((fullEntries s).map fun e => e.offset.toInt).sum| <
      s.tableEntries.toNat * s.tableEntries.toNat ↔
      (∀ e ∈ fullEntries s, decide (Wraps (s.table 0).offset e) = false) ∨
      ∀ e ∈ fullEntries s, decide (Wraps (s.table 0).offset e) = true := by
  have hn : s.tableEntries.toNat < 2 ^ 8 := s.tableEntries.toNat_lt
  have hsums := sums_spec s hpos
  have hdvd := dvd_average (x := (s.table 0).offset) (n := s.tableEntries.toUInt32.toInt32)
    hsums.offsetSum hsums.offsetAverage
  rw [toInt_entries] at hdvd
  have hsign : wrapSign (s.table 0).offset = 1 ∨ wrapSign (s.table 0).offset = -1 := by
    rw [wrapSign]
    split
    · exact .inl rfl
    · exact .inr rfl
  have hwrap := sum_wrapped (W := 2 ^ 32) (t := wrapSign (s.table 0).offset) (r := (s.table 0).offset.toInt)
    (d := offsetDiff (s.table 0).offset) (f := fun e => e.offset.toInt)
    (p := fun e => decide (Wraps (s.table 0).offset e)) (l := fullEntries s) fun e _ => offsetDiff_eq _ e
  have hquot := quotients_close (n := s.tableEntries.toNat) (by omega)
    ((fullEntries s).map (offsetDiff (s.table 0).offset))
  rw [map_map, map_map, hwrap, ← hcount] at hquot
  have hbounds := sum_bounds (m := -2 ^ 31) (k := 2 ^ 31 - 1) (l := (fullEntries s).map fun e => e.offset.toInt)
    fun a ha => by
      obtain ⟨e, -, rfl⟩ := mem_map.mp ha
      have hlo := Int32.le_toInt e.offset
      have hhi := Int32.toInt_lt e.offset
      omega
  rw [length_map, ← hcount] at hbounds
  have hlo := Int32.le_toInt (newOffsetAverage s)
  have hhi := Int32.toInt_lt (newOffsetAverage s)
  rw [← dvd_countP_iff hsign, ← hcount]
  refine close_iff_dvd (W := 2 ^ 32) (y := (s.table 0).offset.toInt +
    (((fullEntries s).map fun e => (offsetDiff (s.table 0).offset e).tdiv s.tableEntries.toNat).sum +
      ((fullEntries s).map fun e => (offsetDiff (s.table 0).offset e).tmod s.tableEntries.toNat).sum.tdiv
        s.tableEntries.toNat)) (a := -2 ^ 31) (b := 2 ^ 31 - 1) (by omega) (by nlinarith) ?_ ?_ hbounds.1 hbounds.2
    (by omega) (by omega) (by omega)
  · exact hdvd
  · refine lt_of_eq_of_lt (congrArg abs ?_) hquot
    simp only [Function.comp_def]
    ring

/-- AVERAGES: with as many entries as full slots, at least one, both averages are less than that number off the exact
    means just if the local times of the full slots are all before that of slot 0 or none is, and the differences of
    their offsets to that of slot 0 all wrap or none does. -/
theorem averages_close_iff (s : Table) (hcount : s.tableEntries.toNat = (fullSlots s).length)
    (hpos : 0 < s.tableEntries.toNat) :
    (|((newLocalAverage s).toUInt32.toNat : ℚ) -
       (((fullSlots s).map fun i => ((s.table i).localTime.toNat : Int)).sum : ℚ) / s.tableEntries.toNat| <
       s.tableEntries.toNat ∧
     |((newOffsetAverage s).toInt : ℚ) -
       (((fullSlots s).map fun i => (s.table i).offset.toInt).sum : ℚ) / s.tableEntries.toNat| <
       s.tableEntries.toNat) ↔
      ((∀ i ∈ fullSlots s, ¬ (s.table i).localTime < (s.table 0).localTime) ∨
       ∀ i ∈ fullSlots s, (s.table i).localTime < (s.table 0).localTime) ∧
      ((∀ i ∈ fullSlots s, ¬ Wraps (s.table 0).offset (s.table i)) ∨
       ∀ i ∈ fullSlots s, Wraps (s.table 0).offset (s.table i)) := by
  have hcount' : s.tableEntries.toNat = (fullEntries s).length := hcount.trans (fullEntries_length s).symm
  have hlocal := localAverage_close_iff hcount' hpos
  have hoffset := offsetAverage_close_iff hcount' hpos
  rw [← abs_sub_mean_lt hpos] at hlocal hoffset
  simp only [fullEntries, map_map, forall_mem_map, decide_eq_true_eq, decide_eq_false_iff_not] at hlocal hoffset
  exact and_congr hlocal hoffset

/-- Three samples, each older than the one before. -/
theorem averages_close_three :
    |((newLocalAverage (after [⟨-7, 15⟩, ⟨-3, 9⟩, ⟨2, 5⟩]).table).toUInt32.toNat : ℚ) -
      (((fullSlots (after [⟨-7, 15⟩, ⟨-3, 9⟩, ⟨2, 5⟩]).table).map fun i =>
        (((after [⟨-7, 15⟩, ⟨-3, 9⟩, ⟨2, 5⟩]).table.table i).localTime.toNat : Int)).sum : ℚ) /
      (after [⟨-7, 15⟩, ⟨-3, 9⟩, ⟨2, 5⟩]).table.tableEntries.toNat| <
    (after [⟨-7, 15⟩, ⟨-3, 9⟩, ⟨2, 5⟩]).table.tableEntries.toNat :=
  ((averages_close_iff (after [⟨-7, 15⟩, ⟨-3, 9⟩, ⟨2, 5⟩]).table (by decide) (by decide)).mpr (by decide)).1

/-- FAILS IN GENERAL: eight samples, 100 ticks apart. Slot 0 has the newest, and the average of the local times, 450, is
    computed as 3758096834. -/
theorem older_than_reference :
    ¬ ∀ es : List Sample, (after es).table.tableEntries.toNat = (fullSlots (after es).table).length → 0 <
      (after es).table.tableEntries.toNat → (∀ i ∈ fullSlots (after es).table, ∀ j ∈ fullSlots (after es).table,
        ((after es).table.table i).localTime.toNat < ((after es).table.table j).localTime.toNat + 2 ^ 27 ∧
          ((after es).table.table i).offset.toInt < ((after es).table.table j).offset.toInt + 2 ^ 27) →
            |((newLocalAverage (after es).table).toUInt32.toNat : ℚ) -
              (((fullSlots (after es).table).map fun i => (((after es).table.table i).localTime.toNat : Int)).sum : ℚ)
                / (after es).table.tableEntries.toNat| < (after es).table.tableEntries.toNat := by
  intro hall
  have hclose := hall [⟨0, 100⟩, ⟨0, 200⟩, ⟨0, 300⟩, ⟨0, 400⟩, ⟨0, 500⟩, ⟨0, 600⟩, ⟨0, 700⟩, ⟨0, 800⟩] (by decide)
    (by decide) (by decide)
  exact absurd hclose (by decide +kernel)

end CSync.Ftsp
