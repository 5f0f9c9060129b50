import CSync.Rtimer.Offset
import Mathlib.Data.List.Induction

/-! The regression table of FTSP (`core/net/c-sync_ftsp_changes/ftsp.c`).

    The table keeps the local time and the offset of the last samples. The number of entries, the slot the next sample
    goes to and the states of the slots are kept apart. A search gives the slot as long as there is an empty one, the
    last of them; with none left the slots are overwritten one after the other. -/

namespace CSync.Ftsp

open Lib List

/-- `FTSP_MAX_ENTRIES`, `FTSP_ENTRY_VALID_LIMIT`, `FTSP_ENTRY_THROWOUT_LIMIT`. -/
abbrev maxEntries : Nat := 8
def entryValidLimit : UInt8 := 4
def entryThrowoutLimit : Int32 := 1000

/-- `FTSP_ENTRY_EMPTY` and `FTSP_ENTRY_FULL`. -/
inductive EntryState where | empty | full
  deriving DecidableEq

/-- `struct ftsp_table_t`. -/
structure Entry where
  state : EntryState
  localTime : UInt32
  offset : Int32
  deriving DecidableEq

/-- `table`, `table_entries`, `free_item` and `num_errors`. -/
structure Table where
  table : Fin maxEntries → Entry
  tableEntries : UInt8
  freeItem : Fin maxEntries
  numErrors : UInt8

/-- The statics before the first call. -/
def blank : Table := ⟨fun _ => ⟨.empty, 0, 0⟩, 0, ⟨0, by decide⟩, 0⟩

def isSynced (s : Table) : Bool := entryValidLimit ≤ s.tableEntries

def clearTable (s : Table) : Table :=
  { s with table := fun i => { s.table i with state := .empty }, tableEntries := 0 }

/-- A sample that is too far off is not taken into the table of a node that is synchronised. -/
def refused (s : Table) (fineDiff : Int32) : Bool :=
  isSynced s && (entryThrowoutLimit < fineDiff || fineDiff < -entryThrowoutLimit)

/-- The loop of `add_to_regression_table`: the last empty slot, or the one that `free_item` is at. -/
def findItem (s : Table) : Fin maxEntries :=
  (finRange maxEntries).foldl (fun item i => if (s.table i).state = .empty then i else item) s.freeItem

def addToRegressionTable (s : Table) (fineDiff : Int32) (localTime : UInt32) : Table :=
  if refused s fineDiff then
    let s := { s with numErrors := s.numErrors + 1 }
    if 5 < s.numErrors then clearTable s else s
  else
    let item := findItem s
    { table := Function.update s.table item ⟨.full, localTime, fineDiff⟩
      tableEntries := s.tableEntries + 1
      freeItem := item + ⟨1, by decide⟩
      numErrors := 0 }

/-- A call: the difference to the neighbour and the local time. -/
structure Sample where
  fineDiff : Int32
  localTime : UInt32
  deriving DecidableEq

def fullSlots (s : Table) : List (Fin maxEntries) :=
  (finRange maxEntries).filter fun i => (s.table i).state = .full

/-- A table with the slots that have been filled since it was cleared, the one with the oldest entry first. -/
structure Aged where
  table : Table
  order : List (Fin maxEntries)

/-- A call, and what it does to the ages of the entries. -/
def add (s : Aged) (e : Sample) : Aged where
  table := addToRegressionTable s.table e.fineDiff e.localTime
  order :=
    if refused s.table e.fineDiff then (if 5 < s.table.numErrors + 1 then [] else s.order)
    else s.order.erase (findItem s.table) ++ [findItem s.table]

/-- The table after a sequence of calls. -/
def after (es : List Sample) : Aged := es.foldl add ⟨blank, []⟩

/-! ### The search -/

theorem foldl_keeps {α : Type} {p : α → Prop} [DecidablePred p] : ∀ (l : List α) (a : α), (∀ i ∈ l, ¬ p i) →
    l.foldl (fun item i => if p i then i else item) a = a
  | [], _, _ => rfl
  | i :: l, a, h => by
    rw [foldl_cons, if_neg (h i mem_cons_self)]
    exact foldl_keeps l a fun j hj => h j (mem_cons_of_mem _ hj)

theorem foldl_last {α : Type} {p : α → Prop} [DecidablePred p] : ∀ (l : List α) (a : α),
    (∃ i ∈ l, p i) → p (l.foldl (fun item i => if p i then i else item) a)
  | [], _, h => by
    obtain ⟨i, hi, -⟩ := h
    cases hi
  | i :: l, a, h => by
    rw [foldl_cons]
    by_cases hrest : ∃ j ∈ l, p j
    · exact foldl_last l _ hrest
    · obtain ⟨j, hj, hp⟩ := h
      have hji : j = i := by
        rcases mem_cons.mp hj with rfl | hj
        · rfl
        · exact absurd ⟨j, hj, hp⟩ hrest
      subst hji
      rw [if_pos hp, foldl_keeps l j fun k hk hpk => hrest ⟨k, hk, hpk⟩]
      exact hp

variable {s : Table}

theorem findItem_empty (h : ∃ i, (s.table i).state = .empty) : (s.table (findItem s)).state = .empty := by
  obtain ⟨i, hi⟩ := h
  exact foldl_last (p := fun i => (s.table i).state = .empty) _ _ ⟨i, mem_finRange i, hi⟩

theorem mem_fullSlots {i : Fin maxEntries} : i ∈ fullSlots s ↔ (s.table i).state = .full := by
  simp [fullSlots]

theorem fullSlots_length_le (s : Table) : (fullSlots s).length ≤ maxEntries := by
  have hle := length_filter_le (fun i => decide ((s.table i).state = .full)) (finRange maxEntries)
  rwa [length_finRange] at hle

theorem empty_slot (h : (fullSlots s).length < maxEntries) : ∃ i, (s.table i).state = .empty := by
  by_contra hno
  have hall : ∀ i, (s.table i).state = .full := fun i => by
    rcases hstate : (s.table i).state with _ | _
    · exact absurd ⟨i, hstate⟩ hno
    · rfl
  have heq : fullSlots s = finRange maxEntries := filter_eq_self.mpr fun i _ => decide_eq_true (hall i)
  rw [heq, length_finRange] at h
  exact absurd h (lt_irrefl _)

theorem fullSlots_fill {i : Fin maxEntries} (hi : (s.table i).state = .empty) (e : Entry) (he : e.state = .full) (t :
    Table) (ht : t.table = Function.update s.table i e) : (fullSlots t).length = (fullSlots s).length + 1 := by
  have hnot : i ∉ fullSlots s := fun hmem => by
    rw [mem_fullSlots, hi] at hmem
    cases hmem
  have hperm : (fullSlots t).Perm (i :: fullSlots s) := by
    refine (perm_ext_iff_of_nodup ((nodup_finRange _).filter _)
      (nodup_cons.mpr ⟨hnot, (nodup_finRange _).filter _⟩)).mpr fun j => ?_
    rw [mem_cons]
    refine mem_fullSlots.trans (Iff.trans ?_ (or_congr_right mem_fullSlots.symm))
    rw [ht]
    by_cases hji : j = i
    · subst hji
      simp [he]
    · simp [hji]
  rw [hperm.length_eq, length_cons]

/-! ### Runs -/

def Counted (s : Table) : Prop := s.tableEntries.toNat = (fullSlots s).length

theorem after_snoc (es : List Sample) (e : Sample) : after (es ++ [e]) = add (after es) e := by
  rw [after, after, foldl_append]
  rfl

theorem counted_blank : Counted blank := by
  rw [Counted]
  decide

theorem fullSlots_clear (s : Table) : fullSlots (clearTable s) = [] :=
  filter_eq_nil_iff.mpr fun _ _ => by simp [clearTable]

/-- STEP: a call that stores no sample in a full table keeps the count. -/
theorem Counted.add {s : Aged} (h : Counted s.table) {e : Sample}
    (hok : (fullSlots s.table).length = maxEntries → refused s.table e.fineDiff = true) : Counted (add s e).table := by
  rw [Ftsp.add, addToRegressionTable]
  split
  · dsimp only
    split
    · rw [Counted, fullSlots_clear]
      rfl
    · exact h
  next hrefused =>
    have hless : (fullSlots s.table).length < maxEntries :=
      lt_of_le_of_ne (fullSlots_length_le _) fun heq => hrefused (hok heq)
    have hless' : (fullSlots s.table).length < 8 := hless
    have hfill := fullSlots_fill (findItem_empty (empty_slot hless)) ⟨.full, e.localTime, e.fineDiff⟩ rfl
      { table := Function.update s.table.table (findItem s.table) ⟨.full, e.localTime, e.fineDiff⟩
        tableEntries := s.table.tableEntries + 1
        freeItem := findItem s.table + ⟨1, by decide⟩
        numErrors := 0 } rfl
    rw [Counted] at h ⊢
    rw [hfill, UInt8.toNat_add, h]
    exact Nat.mod_eq_of_lt (by
      have hone : (1 : UInt8).toNat = 1 := rfl
      omega)

theorem Counted.overflows {s : Aged} (h : Counted s.table) {e : Sample} (hfull : (fullSlots s.table).length =
    maxEntries) (hstored : refused s.table e.fineDiff ≠ true) : ¬ Counted (Ftsp.add s e).table := by
  rw [Ftsp.add, addToRegressionTable, if_neg hstored]
  intro hcounted
  have hle := fullSlots_length_le
    { table := Function.update s.table.table (findItem s.table) ⟨.full, e.localTime, e.fineDiff⟩
      tableEntries := s.table.tableEntries + 1
      freeItem := findItem s.table + ⟨1, by decide⟩
      numErrors := 0 }
  rw [← hcounted, UInt8.toNat_add, h, hfull] at hle
  exact absurd hle (by decide)

/-- REGRESSION TABLE: over a sequence of calls the number of entries is always that of the full slots, and a sample
    stored in a full table always overwrites the oldest entry, if and only if no sample is stored in a full table. -/
theorem regression_table_iff (es : List Sample) :
    ((∀ ds, ds <+: es → (after ds).table.tableEntries.toNat = (fullSlots (after ds).table).length) ∧
     ∀ ds e, ds ++ [e] <+: es → refused (after ds).table e.fineDiff = false →
       (fullSlots (after ds).table).length = maxEntries → (after ds).order.head? = some (findItem (after ds).table)) ↔
      ∀ ds e, ds ++ [e] <+: es → (fullSlots (after ds).table).length = maxEntries →
        refused (after ds).table e.fineDiff = true := by
  constructor
  · rintro ⟨hcounted, -⟩ ds e hds hfull
    by_contra hstored
    have hbefore : Counted (after ds).table := hcounted ds ((prefix_append ds [e]).trans hds)
    have hbehind : Counted (after (ds ++ [e])).table := hcounted _ hds
    rw [after_snoc] at hbehind
    exact hbefore.overflows hfull hstored hbehind
  · intro hok
    refine ⟨fun ds => ?_, fun ds e hds hstored hfull => ?_⟩
    · induction ds using reverseRecOn with
      | nil => exact fun _ => counted_blank
      | append_singleton ds e ih =>
        intro hds
        have hbefore : Counted (after ds).table := ih ((prefix_append ds [e]).trans hds)
        rw [after_snoc]
        exact hbefore.add (hok ds e hds)
    · rw [hok ds e hds hfull] at hstored
      cases hstored

/-- FAILS IN GENERAL: the ninth sample is counted beside the eight slots, and it overwrites the seventh one. -/
theorem ninth_sample :
    (¬ ∀ es : List Sample, (after es).table.tableEntries.toNat = (fullSlots (after es).table).length) ∧
    ¬ ∀ (es : List Sample) (e : Sample), refused (after es).table e.fineDiff = false →
      (fullSlots (after es).table).length = maxEntries → (after es).order.head? = some
        (findItem (after es).table) := by
  constructor
  · intro hall
    exact absurd (hall ((range 9).map fun k => ⟨0, UInt32.ofNat k⟩)) (by decide)
  · intro hall
    exact absurd (hall ((range 8).map fun k => ⟨0, UInt32.ofNat k⟩) ⟨0, 8⟩ (by decide) (by decide)) (by decide)

end CSync.Ftsp
