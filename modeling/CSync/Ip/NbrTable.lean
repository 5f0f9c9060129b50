import CSync.Lib.Bits
import CSync.Lib.Pool
import CSync.Lib.Run

/-! Neighbour tables (`core/net/nbr-table.c`), with the default policy: `NBR_TABLE_FIND_REMOVABLE` is not defined.

    A neighbour is a block of `neighbor_addr_mem`, its key: the block holds its address and is linked in
    `nbr_table_keys`, oldest first. Every table has one item for each block, and two maps say which tables use and
    which tables lock a neighbour. An item is named by the index of its block; `none` is the null pointer. -/

namespace CSync.NbrTable
open Lib Function

def maxNumTables : Nat := 8

/-- The tables `T` have items with data `D` for neighbours with addresses `A`; there are `N` blocks for neighbours. -/
structure State (T A D : Type) (N : Nat) where
  /-- `neighbor_addr_mem`; a block holds its address. -/
  keysMem : Pool N A
  /-- `nbr_table_keys`. -/
  keys : List (Fin N)
  usedMap : Fin N → UInt8
  lockedMap : Fin N → UInt8
  /-- `all_tables`, as many as `num_tables`. -/
  allTables : List T
  index : T → Nat
  /-- The table has a callback. -/
  callback : T → Bool
  data : T → Fin N → D

/-- What happens to an item or an address, as the owner of a table sees it. -/
inductive Event (T A : Type) (N : Nat)
  | added (table : T) (addr : A) (item : Fin N)
  | removed (table : T) (item : Fin N)
  | dropped (addr : A)
  | renamed (old new : A)

/-- The calls of `nbr_table_remove` by the callbacks, for each place in `all_tables`. -/
abbrev Calls (T : Type) (N : Nat) := Nat → List (T × Option (Fin N))

section Functions

variable {T A D : Type} {N : Nat} [DecidableEq T] [DecidableEq A]

/-- `index_from_lladdr`; the address `null` is `linkaddr_null`. -/
def indexFromLladdr (null : A) (s : State T A D N) (lladdr : Option A) : Option (Fin N) :=
  s.keys.find? fun key => decide (s.keysMem.mem key = lladdr.getD null)

def nbrGetBit (map : Fin N → UInt8) (s : State T A D N) (table : T) : Option (Fin N) → Bool
  | none => false
  | some item => decide (HasBit (map item) (s.index table))

def nbrSetBit (map : Fin N → UInt8) (s : State T A D N) (table : T) (value : Bool) :
    Option (Fin N) → Bool × (Fin N → UInt8)
  | none => (false, map)
  | some item =>
    (true, update map item
      (if value then setBit (map item) (s.index table) else clearBit (map item) (s.index table)))

def nbrTableRemove (s : State T A D N) (table : T) (item : Option (Fin N)) : Bool × State T A D N :=
  let used := nbrSetBit s.usedMap s table false item
  let locked := nbrSetBit s.lockedMap s table false item
  (used.1, { s with usedMap := used.2, lockedMap := locked.2 })

def removal (table : T) (item : Option (Fin N)) : List (Event T A N) := (item.map (Event.removed table)).toList

/-- The calls of a callback. -/
def runCalls : List (T × Option (Fin N)) → State T A D N → State T A D N × List (Event T A N)
  | [], s => (s, [])
  | (table, item) :: calls, s =>
    let r := runCalls calls (nbrTableRemove s table item).2
    (r.1, removal table item ++ r.2)

/-- The loop of `remove_key` over `all_tables`, from place `i` on: callbacks for the tables that use the neighbour. -/
def runCallbacks (calls : Calls T N) (key : Fin N) : Nat → List T → State T A D N → State T A D N × List (Event T A N)
  | _, [], s => (s, [])
  | i, table :: tables, s =>
    if s.callback table ∧ nbrGetBit s.usedMap s table (some key) then
      let called := runCalls (calls i) s
      let r := runCallbacks calls key (i + 1) tables called.1
      (r.1, called.2 ++ r.2)
    else runCallbacks calls key (i + 1) tables s

/-- `remove_key`. The block is not freed. -/
def removeKey (calls : Calls T N) (s : State T A D N) (key : Fin N) : State T A D N × List (Event T A N) :=
  let r := runCallbacks calls key 0 s.allTables s
  ({ r.1 with usedMap := update r.1.usedMap key 0, keys := r.1.keys.erase key },
    r.2 ++ [.dropped (s.keysMem.mem key)])

/-- The loop that counts the tables in a map, of eight bits. -/
def countTables : Nat → UInt8 → Nat
  | 0, _ => 0
  | n + 1, used => (if used &&& 1 = 1 then 1 else 0) + countTables n (used >>> 1)

/-- The search for the neighbour to be replaced: not locked, used by the fewest tables, the oldest of these. -/
def leastUsed (s : State T A D N) : List (Fin N) → Option (Fin N × Nat) → Option (Fin N)
  | [], least => least.map Prod.fst
  | key :: keys, least =>
    if s.lockedMap key ≠ 0 then leastUsed s keys least
    else
      let count := countTables 8 (s.usedMap key)
      if least.all fun l => decide (count < l.2) then
        if count = 0 then some key else leastUsed s keys (some (key, count))
      else leastUsed s keys least

def nbrTableAllocate (calls : Calls T N) (s : State T A D N) : Option (Fin N) × State T A D N × List (Event T A N) :=
  match s.keysMem.alloc with
  | (some key, mem) => (some key, { s with keysMem := mem }, [])
  | (none, _) =>
    match leastUsed s s.keys none with
    | none => (none, s, [])
    | some key => (some key, removeKey calls s key)

def nbrTableRegister (s : State T A D N) (table : T) (callback : Bool) : Bool × State T A D N :=
  if s.allTables.length < maxNumTables then
    (true, { s with
      allTables := s.allTables ++ [table]
      index := update s.index table s.allTables.length
      callback := update s.callback table callback })
  else (false, s)

/-- The item of a table is cleared, and used. -/
def initItem (zero : D) (s : State T A D N) (table : T) (item : Fin N) : State T A D N :=
  { s with
    data := update s.data table (update (s.data table) item zero)
    usedMap := (nbrSetBit s.usedMap s table true (some item)).2 }

def nbrTableAddLladdr (null : A) (zero : D) (calls : Calls T N) (s : State T A D N) (table : T) (lladdr : Option A) :
    Option (Fin N) × State T A D N × List (Event T A N) :=
  match indexFromLladdr null s lladdr with
  | some item => (some item, initItem zero s table item, [.added table (lladdr.getD null) item])
  | none =>
    match nbrTableAllocate calls s with
    | (none, s, events) => (none, s, events)
    | (some key, s, events) =>
      let s := { s with
        keys := s.keys.erase key ++ [key]
        keysMem := s.keysMem.modify key fun _ => lladdr.getD null }
      (some key, initItem zero s table key, events ++ [.added table (lladdr.getD null) key])

def nbrTableGetFromLladdr (null : A) (s : State T A D N) (table : T) (lladdr : Option A) : Option (Fin N) :=
  let item := indexFromLladdr null s lladdr
  if nbrGetBit s.usedMap s table item then item else none

def nbrTableLock (s : State T A D N) (table : T) (item : Option (Fin N)) : Bool × State T A D N :=
  let locked := nbrSetBit s.lockedMap s table true item
  (locked.1, { s with lockedMap := locked.2 })

def nbrTableUnlock (s : State T A D N) (table : T) (item : Option (Fin N)) : Bool × State T A D N :=
  let locked := nbrSetBit s.lockedMap s table false item
  (locked.1, { s with lockedMap := locked.2 })

def nbrTableUpdateLladdr (null : A) (calls : Calls T N) (s : State T A D N) (old : Option A) (new : A)
    (removeIfDuplicate : Bool) : Bool × State T A D N × List (Event T A N) :=
  match indexFromLladdr null s old with
  | none => (false, s, [])
  | some index =>
    match indexFromLladdr null s (some new) with
    | some newIndex =>
      if newIndex = index then (true, s, [])
      else (false, if removeIfDuplicate then removeKey calls s index else (s, []))
    | none =>
      (true, { s with keysMem := s.keysMem.modify index fun _ => new }, [.renamed (old.getD null) new])

end Functions

/-! ### Runs -/

/-- The calls of the users of the tables. They also write to their items. -/
inductive Op (T A D : Type) (N : Nat)
  | register (table : T) (callback : Bool)
  | add (table : T) (lladdr : Option A) (calls : Calls T N)
  | get (table : T) (lladdr : Option A)
  | remove (table : T) (item : Option (Fin N))
  | lock (table : T) (item : Option (Fin N))
  | unlock (table : T) (item : Option (Fin N))
  | update (old : Option A) (new : A) (removeIfDuplicate : Bool) (calls : Calls T N)
  | write (table : T) (item : Fin N) (value : D)

/-- The tables, and what has happened. -/
structure World (T A D : Type) (N : Nat) where
  tables : State T A D N
  events : List (Event T A N)

section Steps

variable {T A D : Type} {N : Nat} [DecidableEq T] [DecidableEq A]

def Calls.Registered (calls : Calls T N) (s : State T A D N) : Prop := ∀ i, ∀ c ∈ calls i, c.1 ∈ s.allTables

/-- A table is registered once, by its owner, before it is used. -/
def Op.Proper (s : State T A D N) : Op T A D N → Prop
  | .register table _ => table ∉ s.allTables
  | .add table _ calls => table ∈ s.allTables ∧ calls.Registered s
  | .get table _ => table ∈ s.allTables
  | .remove table _ => table ∈ s.allTables
  | .lock table _ => table ∈ s.allTables
  | .unlock table _ => table ∈ s.allTables
  | .update _ _ _ calls => calls.Registered s
  | .write table _ _ => table ∈ s.allTables

/-- A step, with what happens in it. -/
def step (null : A) (zero : D) (w : World T A D N) : Op T A D N → Option (World T A D N)
  | .register table callback => some { w with tables := (nbrTableRegister w.tables table callback).2 }
  | .add table lladdr calls =>
    let r := nbrTableAddLladdr null zero calls w.tables table lladdr
    some ⟨r.2.1, w.events ++ r.2.2⟩
  | .get _ _ => some w
  | .remove table item => some ⟨(nbrTableRemove w.tables table item).2, w.events ++ removal table item⟩
  | .lock table item => some { w with tables := (nbrTableLock w.tables table item).2 }
  | .unlock table item => some { w with tables := (nbrTableUnlock w.tables table item).2 }
  | .update old new removeIfDuplicate calls =>
    let r := nbrTableUpdateLladdr null calls w.tables old new removeIfDuplicate
    some ⟨r.2.1, w.events ++ r.2.2⟩
  | .write table item value =>
    some { w with tables := { w.tables with
      data := update w.tables.data table (update (w.tables.data table) item value) } }

/-- Before the first call. -/
def start (a : A) (data : T → Fin N → D) : World T A D N where
  tables := ⟨Pool.init a, [], fun _ => 0, fun _ => 0, [], fun _ => 0, fun _ => false, data⟩
  events := []

end Steps

end CSync.NbrTable
