import CSync.Ip.NbrTableRuns

/-! A table among others (`core/net/nbr-table.c`).

    Its owner locks every item that it adds. Then it keeps its items, with their data, whatever the owners of the other
    tables do, as long as no address of an item changes: an item is taken away only with its neighbour, to make room for
    another one, and no neighbour is that a table locks. -/

namespace CSync.NbrTable
open Lib List Function

variable {T A D : Type} {N : Nat} [DecidableEq T] [DecidableEq A]

/-- The owner of an item writes to it. -/
def setItem (table : T) (item : Fin N) (value : D) (s : State T A D N) : State T A D N :=
  { s with data := update s.data table (update (s.data table) item value) }

/-- The callbacks of other tables leave the table alone. -/
def Avoids (table : T) (s : State T A D N) (calls : Calls T N) : Prop :=
  ∀ i, ∀ call ∈ calls i, call.1 ∈ s.allTables ∧ call.1 ≠ table

/-- A call of the owner of another table. -/
def Foreign (null : A) (own : T) (w : World T A D N) : Op T A D N → Prop
  | .add table _ calls => table ≠ own ∧ Avoids own w.tables calls
  | .remove table _ | .lock table _ | .unlock table _ | .write table _ _ => table ≠ own
  | .update old new _ _ =>
    indexFromLladdr null w.tables (some new) = none → last w.events own (old.getD null) = none
  | _ => True

variable {own table : T} {s s' s'' : State T A D N} {l : T → A → Option (Fin N)} {evs evs' : List (Event T A N)}
variable {calls : Calls T N} {i : Fin N}

/-- Items, data and locks of the table `own` are as before. -/
structure Keeps (own : T) (l : T → A → Option (Fin N)) (s s' : State T A D N)
    (evs : List (Event T A N)) : Prop where
  mem : own ∈ s'.allTables
  last : evs.foldl Event.apply l own = l own
  data : s'.data own = s.data own
  locked : ∀ i, HasBit (s.lockedMap i) (s.index own) → HasBit (s'.lockedMap i) (s'.index own)

theorem Keeps.refl (hown : own ∈ s.allTables) : Keeps own l s s [] := ⟨hown, rfl, rfl, fun _ => id⟩

theorem Keeps.trans (h : Keeps own l s s' evs) (h' : Keeps own (evs.foldl Event.apply l) s' s'' evs') :
    Keeps own l s s'' (evs ++ evs') :=
  ⟨h'.mem, by rw [foldl_append, h'.last, h.last], h'.data.trans h.data, fun i hi => h'.locked i (h.locked i hi)⟩

section

variable (h : Good s l) (hown : own ∈ s.allTables) (ht : table ∈ s.allTables) (hne : table ≠ own)
include h hown ht hne

omit [DecidableEq T] [DecidableEq A] in
/-- Another table sets or clears another bit. -/
theorem bit_other (value : Bool) (item : Option (Fin N)) (hbit : HasBit (s.lockedMap i) (s.index own)) :
    HasBit ((nbrSetBit s.lockedMap s table value item).2 i) (s.index own) := by
  have hidx : s.index table ≠ s.index own := fun heq => hne (h.indexInj _ ht _ hown heq)
  cases item with
  | none => exact hbit
  | some j =>
    rw [nbrSetBit]
    dsimp only
    by_cases hij : i = j
    · subst hij
      rw [update_self]
      cases value
      · exact (hasBit_clearBit _ (h.index_lt hown)).mpr ⟨hidx, hbit⟩
      · exact (hasBit_setBit _ (h.index_lt ht) (h.index_lt hown)).mpr (.inr hbit)
    · rw [update_of_ne hij]
      exact hbit

theorem remove_keeps
    (item : Option (Fin N)) : Keeps own l s (nbrTableRemove s table item).2 (removal table item) := by
  refine ⟨hown, ?_, rfl, fun i hi => bit_other h hown ht hne false item hi⟩
  cases item with
  | none => rfl
  | some j => exact funext fun a => if_neg fun hno => hne hno.1.symm

end

theorem runCalls_keeps : ∀ {cs : List (T × Option (Fin N))} {s : State T A D N}
    {l : T → A → Option (Fin N)}, Good s l → own ∈ s.allTables → (∀ call ∈ cs, call.1 ∈ s.allTables ∧ call.1 ≠ own) →
    Keeps own l s (runCalls cs s).1 (runCalls cs s).2
  | [], _, _, _, hown, _ => .refl hown
  | (t, item) :: cs, s, l, h, hown, hcs => by
    obtain ⟨ht, hne⟩ := hcs _ mem_cons_self
    exact (remove_keeps h hown ht hne item).trans
      (runCalls_keeps (h.remove ht item) hown fun call hcall => hcs call (mem_cons_of_mem _ hcall))

theorem runCallbacks_keeps (key : Fin N) : ∀ (tables : List T) (i : Nat) {s : State T A D N}
    {l : T → A → Option (Fin N)}, Good s l → own ∈ s.allTables → Avoids own s calls →
    Keeps own l s (runCallbacks calls key i tables s).1 (runCallbacks calls key i tables s).2
  | [], _, _, _, _, hown, _ => .refl hown
  | t :: tables, i, s, l, h, hown, hcalls => by
    rw [runCallbacks]
    split
    · have hkeeps := runCalls_keeps h hown (hcalls i)
      refine hkeeps.trans (runCallbacks_keeps key tables (i + 1) (h.runCalls fun call hcall => (hcalls i call hcall).1) hkeeps.mem ?_)
      rw [Avoids, (runCalls_same (calls i) s).allTables]
      exact hcalls
    · exact runCallbacks_keeps key tables (i + 1) h hown hcalls

/-- ADDITION: the neighbour that makes room has no item in the table. -/
theorem add_keeps (h : Good s l) (hown : own ∈ s.allTables) (hcalls : Avoids own s calls)
    (hlocked : ∀ a i, l own a = some i → HasBit (s.lockedMap i) (s.index own)) (null : A) (zero : D) (table : T)
    (lladdr : Option A) :
    ∃ s₁ evs,
      Keeps own l s s₁ evs ∧
      (nbrTableAddLladdr null zero calls s table lladdr = (none, s₁, evs) ∨
       ∃ i,
         nbrTableAddLladdr null zero calls s table lladdr =
           (some i, initItem zero s₁ table i, evs ++ [.added table (lladdr.getD null) i])) := by
  rw [nbrTableAddLladdr]
  rcases indexFromLladdr null s lladdr with _ | i
  · dsimp only
    rw [nbrTableAllocate, Pool.alloc]
    rcases s.keysMem.freeBlock with _ | key
    · dsimp only
      rcases hleast : leastUsed s s.keys none with _ | key
      · exact ⟨s, [], .refl hown, .inl rfl⟩
      · obtain ⟨hkey, hlock⟩ := (leastUsed_unlocked hleast).resolve_right (by simp)
        have hkeeps := runCallbacks_keeps key s.allTables 0 h hown hcalls
        refine ⟨_, _, ?_, .inr ⟨key, rfl⟩⟩
        refine ⟨hkeeps.mem, ?_, hkeeps.data, hkeeps.locked⟩
        rw [foldl_append, foldl_cons, foldl_nil, Event.apply]
        funext b
        dsimp only
        split
        next haddr =>
          cases hb : l own b with
          | none => rfl
          | some j =>
            obtain ⟨-, hj, hmem, -⟩ := (h.agrees own b j).mp hb
            have hbit := hlocked b j hb
            rw [h.addrs j hj key hkey (hmem.trans haddr)] at hbit
            exact absurd hlock hbit.ne_zero
        · rw [hkeeps.last]
    · refine ⟨_, [], ?_, .inr ⟨key, rfl⟩⟩
      exact ⟨hown, rfl, rfl, fun _ => id⟩
  · exact ⟨s, [], .refl hown, .inr ⟨i, rfl⟩⟩

variable {null : A} {zero : D} {w w' : World T A D N}

/-- The data of an address, if it has an item. -/
def entryOf (table : T) (w : World T A D N) (a : A) : Option D :=
  (last w.events table a).map (w.tables.data table)

/-- The tables are sound, and the items of the table are locked. -/
structure Shared (own : T) (w : World T A D N) : Prop where
  inv : Inv w
  mem : own ∈ w.tables.allTables
  locked : ∀ a i, last w.events own a = some i → HasBit (w.tables.lockedMap i) (w.tables.index own)

section
variable (h : Shared own w)
include h

theorem Shared.keeps (hk : Keeps own (last w.events) w.tables s' evs)
    (hinv : Inv ⟨s', w.events ++ evs⟩) :
    Shared own ⟨s', w.events ++ evs⟩ ∧ entryOf own ⟨s', w.events ++ evs⟩ = entryOf own w := by
  have hlast : last (w.events ++ evs) own = last w.events own := by rw [last_append, hk.last]
  refine ⟨⟨hinv, hk.mem, fun a i hi => hk.locked i (h.locked a i ?_)⟩, ?_⟩
  · rw [← hlast]
    exact hi
  · funext a
    rw [entryOf, entryOf, hlast, hk.data]

/-- STEP: the owner of another table leaves the items alone. -/
theorem Shared.foreign {op : Op T A D N} (hmeets : Meets null w op)
    (hop : Foreign null own w op) (hstep : NbrTable.step null zero w op = some w') :
    Shared own w' ∧ entryOf own w' = entryOf own w := by
  have hinv := h.inv.step hmeets hstep
  have hgood := h.inv.good
  -- a call that leaves the history as it is
  have hquiet : ∀ {s'}, Inv ⟨s', w.events⟩ → Keeps own (last w.events) w.tables s' [] →
      Shared own ⟨s', w.events⟩ ∧ entryOf own ⟨s', w.events⟩ = entryOf own w := by
    intro s' hinv hk
    have := h.keeps hk (by rw [append_nil]; exact hinv)
    rwa [append_nil] at this
  obtain ⟨hproper, hdup⟩ := hmeets
  cases op with
  | register table callback =>
    cases hstep
    refine hquiet hinv ?_
    rw [nbrTableRegister]
    split
    · have hne : own ≠ table := fun heq => hproper (heq ▸ h.mem)
      refine ⟨mem_append_left _ h.mem, rfl, rfl, fun i hi => ?_⟩
      dsimp only
      rw [update_of_ne hne]
      exact hi
    · exact .refl h.mem
  | add table lladdr calls =>
    cases hstep
    obtain ⟨s₁, evs, hk, hadd | ⟨i, hadd⟩⟩ := add_keeps hgood h.mem hop.2 h.locked null zero table lladdr
    · rw [hadd] at hinv ⊢
      exact h.keeps hk hinv
    · rw [hadd] at hinv ⊢
      refine h.keeps (hk.trans ⟨hk.mem, ?_, update_of_ne (Ne.symm hop.1) .., fun _ => id⟩) hinv
      exact funext fun a => if_neg fun hno => hop.1 hno.1.symm
  | get table lladdr =>
    cases hstep
    exact ⟨h, rfl⟩
  | remove table item =>
    cases hstep
    exact h.keeps (remove_keeps hgood h.mem hproper hop item) hinv
  | lock table item =>
    cases hstep
    exact hquiet hinv ⟨h.mem, rfl, rfl, fun i hi => bit_other hgood h.mem hproper hop true item hi⟩
  | unlock table item =>
    cases hstep
    exact hquiet hinv ⟨h.mem, rfl, rfl, fun i hi => bit_other hgood h.mem hproper hop false item hi⟩
  | update old new removeIfDuplicate calls =>
    cases hstep
    refine h.keeps ?_ hinv
    rw [nbrTableUpdateLladdr]
    rcases hold : indexFromLladdr null w.tables old with _ | i
    · exact .refl h.mem
    · dsimp only
      rcases hnew : indexFromLladdr null w.tables (some new) with _ | j
      · refine ⟨h.mem, funext fun a => ?_, rfl, fun _ => id⟩
        have hfresh : last w.events own new = none := by
          cases hlast : last w.events own new with
          | none => rfl
          | some k =>
            obtain ⟨-, hk, hmem, -⟩ := (hgood.agrees _ _ k).mp hlast
            exact absurd hmem (index_none.mp hnew k hk)
        rw [foldl_cons, foldl_nil, Event.apply]
        dsimp only
        split
        next ha => rw [ha, hfresh, hop hnew]
        · split
          next ha => rw [ha, hop hnew]
          · rfl
      · dsimp only
        split
        · exact .refl h.mem
        next hne =>
          have hkeep : removeIfDuplicate = false := by
            refine Bool.eq_false_iff.mpr fun hremove => hdup ?_
            rw [RemovesDuplicate, hold, hnew]
            exact ⟨hremove, by simp, by simp, fun heq => hne (Option.some.inj heq).symm⟩
          rw [hkeep]
          exact .refl h.mem
  | write table item value =>
    cases hstep
    exact hquiet hinv ⟨h.mem, rfl, update_of_ne (Ne.symm hop) .., fun _ => id⟩

theorem Shared.write {a : A} (hi : last w.events own a = some i) (value : D) :
    Shared own { w with tables := setItem own i value w.tables } ∧
      entryOf own { w with tables := setItem own i value w.tables } = update (entryOf own w) a (some value) := by
  have hmeets : Meets a w (.write own i value) := ⟨h.mem, id⟩
  have hstep : step a value w (.write own i value) = some { w with tables := setItem own i value w.tables } := rfl
  refine ⟨⟨h.inv.step hmeets hstep, h.mem, h.locked⟩, funext fun b => ?_⟩
  rw [entryOf, setItem]
  dsimp only
  rw [update_self]
  by_cases hb : b = a
  · rw [hb, hi, Option.map_some, update_self, update_self]
  · rw [update_of_ne hb, entryOf]
    cases hj : last w.events own b with
    | none => rfl
    | some j =>
      have hne : j ≠ i := by
        rintro rfl
        exact hb (((h.inv.good.agrees _ _ _).mp hj).2.2.1.symm.trans ((h.inv.good.agrees _ _ _).mp hi).2.2.1)
      rw [Option.map_some, Option.map_some, update_of_ne hne]

/-- A sender is added: no block is left for it, or it gets an item, which is then locked. -/
theorem Shared.addLocked (hcalls : Avoids own w.tables calls) (null a : A) (zero : D) :
    (∃ s₁ evs, nbrTableAddLladdr null zero calls w.tables own (some a) = (none, s₁, evs) ∧
      (Shared own ⟨s₁, w.events ++ evs⟩ ∧ entryOf own ⟨s₁, w.events ++ evs⟩ = entryOf own w) ∧
      w.tables.keysMem.freeBlock = none) ∨
    ∃ i s₁ evs, nbrTableAddLladdr null zero calls w.tables own (some a) = (some i, s₁, evs) ∧
      Shared own ⟨(nbrTableLock s₁ own (some i)).2, w.events ++ evs⟩ ∧ last (w.events ++ evs) own a = some i ∧
      ∀ b, b ≠ a → entryOf own ⟨(nbrTableLock s₁ own (some i)).2, w.events ++ evs⟩ b = entryOf own w b := by
  have hregistered : calls.Registered w.tables := fun i call hcall => (hcalls i call hcall).1
  have hadded := add_spec null zero h.inv.good h.inv.owns h.mem hregistered (some a)
  have hmeets : Meets null w (.add own (some a) calls) := ⟨⟨h.mem, hregistered⟩, id⟩
  have hinv := h.inv.step hmeets (rfl : step null zero w (.add own (some a) calls) = _)
  obtain ⟨s₁, evs, hk, hadd | ⟨i, hadd⟩⟩ := add_keeps h.inv.good h.mem hcalls h.locked null zero own (some a)
  · rw [hadd] at hadded hinv
    exact .inl ⟨s₁, evs, hadd, h.keeps hk hinv, hadded.room rfl⟩
  · rw [Option.getD_some] at hadd
    rw [hadd] at hinv
    refine .inr ⟨i, _, _, hadd, ?_⟩
    have hlast : last (w.events ++ (evs ++ [.added own a i])) own = update (last w.events own) a (some i) := by
      funext b
      rw [last_append, foldl_append, foldl_cons, foldl_nil, Event.apply]
      dsimp only
      by_cases hb : b = a
      · rw [if_pos ⟨rfl, hb⟩, hb, update_self]
      · rw [if_neg fun hab => hb hab.2, update_of_ne hb, hk.last]
    have hitem : last (w.events ++ (evs ++ [.added own a i])) own a = some i := by rw [hlast, update_self]
    have hlt := hinv.good.index_lt hk.mem
    have hlock : Meets null ⟨initItem zero s₁ own i, w.events ++ (evs ++ [.added own a i])⟩ (.lock own (some i)) :=
      ⟨hk.mem, id⟩
    refine ⟨⟨hinv.step hlock (Eq.refl (step null zero _ _)), hk.mem, fun b j hj => ?_⟩, hitem, fun b hb => ?_⟩
    · change HasBit (update s₁.lockedMap i (setBit (s₁.lockedMap i) (s₁.index own)) j) (s₁.index own)
      by_cases hji : j = i
      · rw [hji, update_self]
        exact (hasBit_setBit _ hlt hlt).mpr (.inl rfl)
      · rw [update_of_ne hji]
        refine hk.locked j (h.locked b j ?_)
        rw [hlast] at hj
        by_cases hb : b = a
        · rw [hb, update_self] at hj
          exact absurd (Option.some.inj hj).symm hji
        · rwa [update_of_ne hb] at hj
    · rw [entryOf, entryOf]
      rw [hlast, update_of_ne hb]
      cases hj : last w.events own b with
      | none => rfl
      | some j =>
        have hji : j ≠ i := by
          rintro rfl
          have hj' : last (w.events ++ (evs ++ [.added own a j])) own b = some j := by rw [hlast, update_of_ne hb, hj]
          exact hb (((hinv.good.agrees _ _ _).mp hj').2.2.1.symm.trans ((hinv.good.agrees _ _ _).mp hitem).2.2.1)
        change some (update s₁.data own (update (s₁.data own) i zero) own j) = some (w.tables.data own j)
        rw [update_self, update_of_ne hji, hk.data]

end

end CSync.NbrTable
