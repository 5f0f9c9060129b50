import CSync.Ip.NbrTable

/-! What the users of neighbour tables may rely on.

    The history of a run says which item was last added for a table and an address and not removed since (`last`);
    `Good` says that the tables agree with it. Every part of an operation keeps this. A neighbour that is removed as a
    duplicate leaves its block counted, so there is room for a new neighbour only in runs without such a removal. -/

namespace CSync.NbrTable
open Lib List Function

variable {T A D : Type} {N : Nat}

section Histories

variable [DecidableEq T] [DecidableEq A]

/-- What is last added and not removed, after an event. -/
def Event.apply (last : T → A → Option (Fin N)) : Event T A N → T → A → Option (Fin N)
  | .added table addr item => fun t a => if t = table ∧ a = addr then some item else last t a
  | .removed table item => fun t a => if t = table ∧ last t a = some item then none else last t a
  | .dropped addr => fun t a => if a = addr then none else last t a
  | .renamed old new => fun t a => if a = new then last t old else if a = old then none else last t a

/-- The item last added for a table and an address and not removed since. -/
def last (events : List (Event T A N)) : T → A → Option (Fin N) := events.foldl Event.apply fun _ _ => none

end Histories

/-- The tables agree with `l`. -/
structure Good (s : State T A D N) (l : T → A → Option (Fin N)) : Prop where
  nodup : s.keys.Nodup
  addrs : ∀ i ∈ s.keys, ∀ j ∈ s.keys, s.keysMem.mem i = s.keysMem.mem j → i = j
  tables : s.allTables.length ≤ 8
  indexLt : ∀ t ∈ s.allTables, s.index t < s.allTables.length
  indexInj : ∀ t ∈ s.allTables, ∀ t' ∈ s.allTables, s.index t = s.index t' → t = t'
  usedBy : ∀ i j, j < 8 → HasBit (s.usedMap i) j → i ∈ s.keys ∧ j < s.allTables.length
  agrees : ∀ t a i, l t a = some i ↔
    t ∈ s.allTables ∧ i ∈ s.keys ∧ s.keysMem.mem i = a ∧ HasBit (s.usedMap i) (s.index t)

variable {null : A} {zero : D} {s : State T A D N} {l : T → A → Option (Fin N)} {calls : Calls T N}
variable {t : T} {lladdr : Option A} {i : Fin N} {w : World T A D N}

theorem Good.index_lt (h : Good s l) (ht : t ∈ s.allTables) : s.index t < 8 :=
  lt_of_lt_of_le (h.indexLt t ht) h.tables

/-! ### What callbacks leave alone -/

/-- The neighbours, the tables and the data are the same. -/
structure SameKeys (s s' : State T A D N) : Prop where
  keysMem : s'.keysMem = s.keysMem
  keys : s'.keys = s.keys
  allTables : s'.allTables = s.allTables
  data : s'.data = s.data

theorem SameKeys.refl (s : State T A D N) : SameKeys s s := ⟨rfl, rfl, rfl, rfl⟩

theorem SameKeys.trans {s s' s'' : State T A D N} (h : SameKeys s s') (h' : SameKeys s' s'') : SameKeys s s'' :=
  ⟨h'.keysMem.trans h.keysMem, h'.keys.trans h.keys, h'.allTables.trans h.allTables, h'.data.trans h.data⟩

theorem remove_same (s : State T A D N) (t : T) (item : Option (Fin N)) : SameKeys s (nbrTableRemove s t item).2 :=
  ⟨rfl, rfl, rfl, rfl⟩

theorem runCalls_same : ∀ (cs : List (T × Option (Fin N))) (s : State T A D N), SameKeys s (runCalls cs s).1
  | [], s => .refl s
  | (t, item) :: cs, s => (remove_same s t item).trans (runCalls_same cs _)

theorem runCallbacks_same (calls : Calls T N) (key : Fin N) : ∀ (tables : List T) (i : Nat) (s : State T A D N),
    SameKeys s (runCallbacks calls key i tables s).1
  | [], _, s => .refl s
  | t :: tables, i, s => by
    rw [runCallbacks]
    split
    · exact (runCalls_same (calls i) s).trans (runCallbacks_same calls key tables (i + 1) _)
    · exact runCallbacks_same calls key tables (i + 1) s

variable [DecidableEq A]

theorem index_some (h : Good s l) :
    indexFromLladdr null s lladdr = some i ↔ i ∈ s.keys ∧ s.keysMem.mem i = lladdr.getD null := by
  constructor
  · intro hi
    have haddr := find?_some hi
    exact ⟨mem_of_find?_eq_some hi, of_decide_eq_true haddr⟩
  · rintro ⟨hi, haddr⟩
    rcases hfound : indexFromLladdr null s lladdr with _ | j
    · have hno := find?_eq_none.mp hfound i hi
      exact absurd (decide_eq_true haddr) hno
    · have hj := mem_of_find?_eq_some hfound
      have haddr' := find?_some hfound
      rw [h.addrs i hi j hj (haddr.trans (of_decide_eq_true haddr').symm)]

theorem index_none : indexFromLladdr null s lladdr = none ↔ ∀ i ∈ s.keys, s.keysMem.mem i ≠ lladdr.getD null := by
  rw [indexFromLladdr, find?_eq_none]
  exact forall₂_congr fun i _ => not_congr (decide_eq_true_iff)

theorem get_some (h : Good s l) : nbrTableGetFromLladdr null s t lladdr = some i ↔
      i ∈ s.keys ∧ s.keysMem.mem i = lladdr.getD null ∧ HasBit (s.usedMap i) (s.index t) := by
  rw [← and_assoc, ← index_some h, nbrTableGetFromLladdr]
  rcases hfound : indexFromLladdr null s lladdr with _ | j
  · exact iff_of_false (by simp [nbrGetBit]) (by simp)
  · rw [nbrGetBit]
    constructor
    · intro hi
      split at hi
      next hbit =>
        cases hi
        exact ⟨rfl, of_decide_eq_true hbit⟩
      · cases hi
    · rintro ⟨hi, hbit⟩
      cases hi
      exact if_pos (decide_eq_true hbit)

theorem Good.found (h : Good s l) (ht : t ∈ s.allTables) (lladdr : Option A) :
    nbrTableGetFromLladdr null s t lladdr = l t (lladdr.getD null) := by
  refine Option.ext fun i => ?_
  rw [get_some h, h.agrees, and_iff_right ht]

variable [DecidableEq T]

/-- REMOVAL: of an item of a table. -/
theorem Good.remove (h : Good s l) (ht : t ∈ s.allTables) (item : Option (Fin N)) :
    Good (nbrTableRemove s t item).2 ((removal t item).foldl Event.apply l) := by
  cases item with
  | none => exact ⟨h.nodup, h.addrs, h.tables, h.indexLt, h.indexInj, h.usedBy, h.agrees⟩
  | some i =>
    have hbits : ∀ j k, k < 8 → (HasBit ((nbrTableRemove s t (some i)).2.usedMap j) k ↔
        ¬ (j = i ∧ k = s.index t) ∧ HasBit (s.usedMap j) k) := by
      intro j k hk
      rw [nbrTableRemove, nbrSetBit]
      dsimp only
      by_cases hj : j = i
      · subst hj
        rw [update_self, if_neg Bool.false_ne_true, hasBit_clearBit _ hk, ne_comm (a := s.index t)]
        exact and_congr_left fun _ => not_congr (and_iff_right rfl).symm
      · rw [update_of_ne hj, and_iff_right fun hno => hj hno.1]
    refine ⟨h.nodup, h.addrs, h.tables, h.indexLt, h.indexInj, fun j k hk hbit => ?_, fun t' a j => ?_⟩
    · exact h.usedBy j k hk ((hbits j k hk).mp hbit).2
    · have hleft : (removal t (some i)).foldl Event.apply l t' a = some j ↔ ¬ (j = i ∧ t' = t) ∧ l t' a = some j := by
        rw [removal, Option.map_some, Option.toList_some, foldl_cons, foldl_nil, Event.apply]
        dsimp only
        split
        next hthis =>
          refine iff_of_false (by simp) ?_
          rintro ⟨hno, hj⟩
          exact hno ⟨Option.some.inj (hj.symm.trans hthis.2), hthis.1⟩
        next hother =>
          refine (and_iff_right_of_imp fun hj hno => hother ⟨hno.2, ?_⟩).symm
          rw [hj, hno.1]
      rw [hleft, h.agrees]
      constructor
      · rintro ⟨hno, ht', hj, ha, hbit⟩
        refine ⟨ht', hj, ha, (hbits j _ (h.index_lt ht')).mpr ⟨?_, hbit⟩⟩
        rintro ⟨hji, hidx⟩
        exact hno ⟨hji, h.indexInj t' ht' t ht hidx⟩
      · rintro ⟨ht', hj, ha, hbit⟩
        obtain ⟨hno, hbit⟩ := (hbits j _ (h.index_lt ht')).mp hbit
        refine ⟨?_, ht', hj, ha, hbit⟩
        rintro ⟨hji, rfl⟩
        exact hno ⟨hji, rfl⟩

theorem Good.runCalls : ∀ {cs : List (T × Option (Fin N))} {s : State T A D N} {l : T → A → Option (Fin N)},
    Good s l → (∀ c ∈ cs, c.1 ∈ s.allTables) → Good (runCalls cs s).1 ((NbrTable.runCalls cs s).2.foldl Event.apply l)
  | [], _, _, h, _ => h
  | (t, item) :: cs, s, l, h, hcs => by
    rw [NbrTable.runCalls, foldl_append]
    exact (h.remove (hcs _ mem_cons_self) item).runCalls fun c hc => hcs c (mem_cons_of_mem _ hc)

theorem Good.runCallbacks (key : Fin N) : ∀ {tables : List T} {i : Nat} {s : State T A D N}
    {l : T → A → Option (Fin N)}, Good s l → calls.Registered s →
      Good (runCallbacks calls key i tables s).1 ((NbrTable.runCallbacks calls key i tables s).2.foldl Event.apply l)
  | [], _, _, _, h, _ => h
  | t :: tables, i, s, l, h, hcalls => by
    rw [NbrTable.runCallbacks]
    split
    · rw [foldl_append]
      refine (h.runCalls (hcalls i)).runCallbacks key fun j c hc => ?_
      rw [(runCalls_same (calls i) s).allTables]
      exact hcalls j c hc
    · exact h.runCallbacks key hcalls

/-- REMOVAL: of a neighbour. -/
theorem Good.removeKey (h : Good s l) (hcalls : calls.Registered s) {key : Fin N} (hkey : key ∈ s.keys) :
    Good (removeKey calls s key).1 ((NbrTable.removeKey calls s key).2.foldl Event.apply l) := by
  have hsame := runCallbacks_same calls key s.allTables 0 s
  have hgood : Good (NbrTable.runCallbacks calls key 0 s.allTables s).1
      ((NbrTable.runCallbacks calls key 0 s.allTables s).2.foldl Event.apply l) := h.runCallbacks key hcalls
  rw [NbrTable.removeKey, foldl_append]
  generalize NbrTable.runCallbacks calls key 0 s.allTables s = r at hsame hgood ⊢
  obtain ⟨r, events⟩ := r
  rw [← hsame.keysMem]
  rw [← hsame.keys] at hkey
  generalize events.foldl Event.apply l = l' at hgood ⊢
  have hmem : ∀ j, j ∈ r.keys.erase key ↔ j ≠ key ∧ j ∈ r.keys := fun j => hgood.nodup.mem_erase_iff
  have hbits : ∀ j k, HasBit (update r.usedMap key 0 j) k ↔ j ≠ key ∧ HasBit (r.usedMap j) k := by
    intro j k
    by_cases hj : j = key
    · subst hj
      rw [update_self]
      exact iff_of_false (not_hasBit_zero k) fun hno => hno.1 rfl
    · rw [update_of_ne hj, and_iff_right hj]
  refine ⟨hgood.nodup.erase key, fun i hi j hj => ?_, hgood.tables, hgood.indexLt, hgood.indexInj,
    fun j k hk hbit => ?_, fun t a j => ?_⟩
  · exact hgood.addrs i ((hmem i).mp hi).2 j ((hmem j).mp hj).2
  · obtain ⟨hj, hbit⟩ := (hbits j k).mp hbit
    obtain ⟨hin, hlt⟩ := hgood.usedBy j k hk hbit
    exact ⟨(hmem j).mpr ⟨hj, hin⟩, hlt⟩
  · have hleft : [Event.dropped (r.keysMem.mem key)].foldl Event.apply l' t a = some j ↔
        a ≠ r.keysMem.mem key ∧ l' t a = some j := by
      rw [foldl_cons, foldl_nil, Event.apply]
      dsimp only
      split
      next ha => exact iff_of_false (by simp) fun hno => hno.1 ha
      next ha => exact (and_iff_right ha).symm
    rw [hleft, hgood.agrees, hmem, hbits]
    constructor
    · rintro ⟨hne, ht, hj, rfl, hbit⟩
      have hjk : j ≠ key := fun hno => hne (congrArg r.keysMem.mem hno)
      exact ⟨ht, ⟨hjk, hj⟩, rfl, hjk, hbit⟩
    · rintro ⟨ht, ⟨hjk, hj⟩, rfl, _, hbit⟩
      exact ⟨fun hno => hjk (hgood.addrs j hj key hkey hno), ht, hj, rfl, hbit⟩

omit [DecidableEq A] [DecidableEq T] in
/-- ADDITION: a new neighbour, at the end of the list. -/
theorem Good.addKey (h : Good s l) {key : Fin N} (hkey : key ∉ s.keys) {a : A}
    (ha : ∀ i ∈ s.keys, s.keysMem.mem i ≠ a) :
    Good { s with keys := s.keys.erase key ++ [key], keysMem := s.keysMem.modify key fun _ => a } l := by
  have hmem : ∀ j, j ∈ s.keys.erase key ++ [key] ↔ j ∈ s.keys ∨ j = key := by
    intro j
    rw [erase_of_not_mem hkey, mem_append, mem_singleton]
  have hold : ∀ j ∈ s.keys, update s.keysMem.mem key a j = s.keysMem.mem j := by
    intro j hj
    refine update_of_ne ?_ _ _
    rintro rfl
    exact hkey hj
  have hnew : update s.keysMem.mem key a key = a := update_self ..
  refine ⟨?_, fun i hi j hj heq => ?_, h.tables, h.indexLt, h.indexInj, fun j k hk hbit => ?_, fun t b j => ?_⟩
  · rw [erase_of_not_mem hkey]
    exact (perm_append_singleton key s.keys).nodup_iff.mpr (nodup_cons.mpr ⟨hkey, h.nodup⟩)
  · dsimp only [Pool.modify] at heq
    rcases (hmem i).mp hi with hin | hik <;> rcases (hmem j).mp hj with hjn | hjk
    · rw [hold i hin, hold j hjn] at heq
      exact h.addrs i hin j hjn heq
    · rw [hold i hin, hjk, hnew] at heq
      exact absurd heq (ha i hin)
    · rw [hik, hnew, hold j hjn] at heq
      exact absurd heq.symm (ha j hjn)
    · rw [hik, hjk]
  · obtain ⟨hin, hlt⟩ := h.usedBy j k hk hbit
    exact ⟨(hmem j).mpr (.inl hin), hlt⟩
  · rw [h.agrees]
    dsimp only [Pool.modify]
    constructor
    · rintro ⟨ht, hj, hb, hbit⟩
      exact ⟨ht, (hmem j).mpr (.inl hj), (hold j hj).trans hb, hbit⟩
    · rintro ⟨ht, hj, hb, hbit⟩
      have hin := (h.usedBy j _ (h.index_lt ht) hbit).1
      rw [hold j hin] at hb
      exact ⟨ht, hin, hb, hbit⟩

variable (zero) in
/-- ADDITION: an item of a neighbour. -/
theorem Good.initItem (h : Good s l) (ht : t ∈ s.allTables) (hi : i ∈ s.keys) :
    Good (initItem zero s t i) ((Event.added t (s.keysMem.mem i) i).apply l) := by
  have hbits : ∀ j k, k < 8 → (HasBit ((NbrTable.initItem zero s t i).usedMap j) k ↔
      (j = i ∧ k = s.index t) ∨ HasBit (s.usedMap j) k) := by
    intro j k hk
    rw [NbrTable.initItem, nbrSetBit]
    dsimp only
    by_cases hj : j = i
    · subst hj
      rw [update_self, if_pos rfl, hasBit_setBit _ (h.index_lt ht) hk, eq_comm (a := s.index t), and_iff_right rfl]
    · rw [update_of_ne hj]
      exact (or_iff_right fun hno => hj hno.1).symm
  refine ⟨h.nodup, h.addrs, h.tables, h.indexLt, h.indexInj, fun j k hk hbit => ?_, fun t' a j => ?_⟩
  · rcases (hbits j k hk).mp hbit with ⟨rfl, rfl⟩ | hold
    · exact ⟨hi, h.indexLt t ht⟩
    · exact h.usedBy j k hk hold
  · rw [Event.apply]
    dsimp only
    split
    next hthis =>
      obtain ⟨rfl, rfl⟩ := hthis
      constructor
      · intro hj
        cases hj
        exact ⟨ht, hi, rfl, (hbits i _ (h.index_lt ht)).mpr (.inl ⟨rfl, rfl⟩)⟩
      · rintro ⟨_, hj, haddr, _⟩
        rw [h.addrs j hj i hi haddr]
    next hother =>
      rw [h.agrees]
      constructor
      · rintro ⟨ht', hj, haddr, hbit⟩
        exact ⟨ht', hj, haddr, (hbits j _ (h.index_lt ht')).mpr (.inr hbit)⟩
      · rintro ⟨ht', hj, haddr, hbit⟩
        refine ⟨ht', hj, haddr, ((hbits j _ (h.index_lt ht')).mp hbit).resolve_left ?_⟩
        rintro ⟨rfl, hidx⟩
        exact hother ⟨h.indexInj t' ht' t ht hidx, haddr.symm⟩

/-- RENAMING: of a neighbour, to an address that no other one has. -/
theorem Good.rename (h : Good s l) (hi : i ∈ s.keys) {b : A} (hb : ∀ j ∈ s.keys, s.keysMem.mem j ≠ b) :
    Good { s with keysMem := s.keysMem.modify i fun _ => b } ((Event.renamed (s.keysMem.mem i) b).apply l) := by
  have hnew : update s.keysMem.mem i b i = b := update_self ..
  have hold : ∀ j, j ≠ i → update s.keysMem.mem i b j = s.keysMem.mem j := fun j hj =>
    update_of_ne hj _ _
  refine ⟨h.nodup, fun j hj k hk heq => ?_, h.tables, h.indexLt, h.indexInj, h.usedBy, fun t a j => ?_⟩
  · dsimp only [Pool.modify] at heq
    by_cases hji : j = i <;> by_cases hki : k = i
    · rw [hji, hki]
    · rw [hji, hnew, hold k hki] at heq
      exact absurd heq.symm (hb k hk)
    · rw [hki, hnew, hold j hji] at heq
      exact absurd heq (hb j hj)
    · rw [hold j hji, hold k hki] at heq
      exact h.addrs j hj k hk heq
  · rw [Event.apply]
    dsimp only [Pool.modify]
    by_cases hji : j = i
    · subst hji
      rw [hnew]
      split
      next hab =>
        subst hab
        rw [h.agrees]
        simp only [true_and]
      next hab =>
        refine iff_of_false ?_ fun hno => hab hno.2.2.1.symm
        split
        · simp
        next hai =>
          rw [h.agrees]
          exact fun hno => hai hno.2.2.1.symm
    · rw [hold j hji]
      split
      next hab =>
        subst hab
        rw [h.agrees]
        refine iff_of_false ?_ fun hno => hb j hno.2.1 hno.2.2.1
        exact fun hno => hji (h.addrs j hno.2.1 i hi hno.2.2.1)
      · split
        next hai =>
          subst hai
          exact iff_of_false (by simp) fun hno => hji (h.addrs j hno.2.1 i hi hno.2.2.1)
        · exact h.agrees t a j

omit [DecidableEq A] in
/-- REGISTRATION: of a table that is not registered. -/
theorem Good.register (h : Good s l) (ht : t ∉ s.allTables) (callback : Bool) :
    Good (nbrTableRegister s t callback).2 l := by
  rw [nbrTableRegister]
  split
  next hlt =>
    have hold : ∀ t' ∈ s.allTables, update s.index t s.allTables.length t' = s.index t' := by
      intro t' ht'
      refine update_of_ne ?_ _ _
      rintro rfl
      exact ht ht'
    have hnew : update s.index t s.allTables.length t = s.allTables.length := update_self ..
    have hmem : ∀ t', t' ∈ s.allTables ++ [t] ↔ t' ∈ s.allTables ∨ t' = t := fun t' => by
      rw [mem_append, mem_singleton]
    have hlen : (s.allTables ++ [t]).length = s.allTables.length + 1 := length_append
    refine ⟨h.nodup, h.addrs, ?_, fun t' ht' => ?_, fun t' ht' t'' ht'' heq => ?_, fun j k hk hbit => ?_,
      fun t' a j => ?_⟩
    · dsimp only
      rw [hlen]
      exact hlt
    · dsimp only
      rw [hlen]
      rcases (hmem t').mp ht' with hin | rfl
      · rw [hold t' hin]
        exact Nat.lt_succ_of_lt (h.indexLt t' hin)
      · rw [hnew]
        exact Nat.lt_succ_self _
    · dsimp only at heq
      rcases (hmem t').mp ht' with hin | rfl <;> rcases (hmem t'').mp ht'' with hin' | rfl
      · rw [hold t' hin, hold t'' hin'] at heq
        exact h.indexInj t' hin t'' hin' heq
      · rw [hold t' hin, hnew] at heq
        exact absurd heq (ne_of_lt (h.indexLt t' hin))
      · rw [hnew, hold t'' hin'] at heq
        exact absurd heq.symm (ne_of_lt (h.indexLt t'' hin'))
      · rfl
    · obtain ⟨hin, hlt'⟩ := h.usedBy j k hk hbit
      refine ⟨hin, ?_⟩
      rw [hlen]
      exact Nat.lt_succ_of_lt hlt'
    · rw [h.agrees]
      dsimp only
      constructor
      · rintro ⟨ht', hj, haddr, hbit⟩
        rw [hold t' ht']
        exact ⟨(hmem t').mpr (.inl ht'), hj, haddr, hbit⟩
      · rintro ⟨ht', hj, haddr, hbit⟩
        rcases (hmem t').mp ht' with hin | rfl
        · rw [hold t' hin] at hbit
          exact ⟨hin, hj, haddr, hbit⟩
        · rw [hnew] at hbit
          exact absurd (h.usedBy j _ hlt hbit).2 (lt_irrefl _)
  · exact h

omit [DecidableEq A] [DecidableEq T] in
theorem leastUsed_unlocked {k : Fin N} : ∀ {keys : List (Fin N)} {least : Option (Fin N × Nat)},
    leastUsed s keys least = some k → (k ∈ keys ∧ s.lockedMap k = 0) ∨ least.map Prod.fst = some k
  | [], _, h => .inr h
  | key :: keys, least, h => by
    have hrest : ∀ {best}, leastUsed s keys best = some k →
        (k ∈ key :: keys ∧ s.lockedMap k = 0) ∨ best.map Prod.fst = some k := fun hk =>
      (leastUsed_unlocked hk).imp_left fun hin => ⟨mem_cons_of_mem _ hin.1, hin.2⟩
    rw [leastUsed] at h
    split at h
    · exact hrest h
    next hlock =>
      rw [not_not] at hlock
      dsimp only at h
      split at h
      · split at h
        · cases h
          exact .inl ⟨mem_cons_self, hlock⟩
        · rcases hrest h with hin | hnew
          · exact .inl hin
          · cases hnew
            exact .inl ⟨mem_cons_self, hlock⟩
      · exact hrest h

/-- A block for a new neighbour. -/
structure Allocated (s : State T A D N) (l : T → A → Option (Fin N)) (key : Fin N) (s' : State T A D N)
    (events : List (Event T A N)) : Prop where
  good : Good s' (events.foldl Event.apply l)
  notMem : key ∉ s'.keys
  owns : Pool.Owns s'.keysMem (key :: s'.keys)
  mem : s'.keysMem.mem = s.keysMem.mem
  data : s'.data = s.data
  allTables : s'.allTables = s.allTables
  sub : ∀ i ∈ s'.keys, i ∈ s.keys
  kept : ∀ i ∈ s.keys, s.lockedMap i ≠ 0 → i ∈ s'.keys

omit [DecidableEq A] [DecidableEq T] in
theorem removeKey_same (calls : Calls T N) (s : State T A D N) (key : Fin N) :
    (removeKey calls s key).1.keysMem = s.keysMem ∧ (removeKey calls s key).1.keys = s.keys.erase key ∧
      (removeKey calls s key).1.allTables = s.allTables ∧ (removeKey calls s key).1.data = s.data := by
  have hsame := runCallbacks_same calls key s.allTables 0 s
  exact ⟨hsame.keysMem, congrArg (List.erase · key) hsame.keys, hsame.allTables, hsame.data⟩

/-- ALLOCATION: a free block, or that of a neighbour that no table locks. -/
theorem allocate_spec (h : Good s l) (howns : Pool.Owns s.keysMem s.keys) (hcalls : calls.Registered s) :
    (∃ key s' events, nbrTableAllocate calls s = (some key, s', events) ∧ Allocated s l key s' events) ∨
      (nbrTableAllocate calls s = (none, s, []) ∧ s.keysMem.freeBlock = none) := by
  rw [nbrTableAllocate, Pool.alloc]
  rcases hfree : s.keysMem.freeBlock with _ | key
  · dsimp only
    rcases hleast : leastUsed s s.keys none with _ | key
    · exact .inr ⟨rfl, rfl⟩
    · obtain ⟨hkey, hlock⟩ := (leastUsed_unlocked hleast).resolve_right (by simp)
      obtain ⟨hmem, hkeys, htables, hdata⟩ := removeKey_same calls s key
      refine .inl ⟨key, (removeKey calls s key).1, (removeKey calls s key).2, rfl, ?_⟩
      have hnot : key ∉ s.keys.erase key := h.nodup.not_mem_erase
      refine ⟨h.removeKey hcalls hkey, ?_, ?_, congrArg _ hmem, hdata, htables, ?_, ?_⟩
      · rw [hkeys]
        exact hnot
      · rw [hmem, hkeys]
        exact howns.perm (perm_cons_erase hkey).symm
      · rw [hkeys]
        exact fun i hi => mem_of_mem_erase hi
      · intro i hi hlocked
        rw [hkeys]
        refine (mem_erase_of_ne ?_).mpr hi
        rintro rfl
        exact hlocked hlock
  · refine .inl ⟨key, _, _, rfl, ?_⟩
    have hnot := howns.not_mem_of_free hfree
    exact ⟨⟨h.nodup, h.addrs, h.tables, h.indexLt, h.indexInj, h.usedBy, h.agrees⟩, hnot,
      howns.take_insert hfree (List.Perm.refl _), rfl, rfl, rfl, fun _ hi => hi, fun _ hi _ => hi⟩

/-! ### Steps -/

/-- What holds between two calls. -/
structure Inv (w : World T A D N) : Prop where
  good : Good w.tables (last w.events)
  owns : Pool.Owns w.tables.keysMem w.tables.keys

/-- What an addition does. -/
structure Added (null : A) (s : State T A D N) (l : T → A → Option (Fin N)) (t : T) (lladdr : Option A)
    (r : Option (Fin N) × State T A D N × List (Event T A N)) : Prop where
  good : Good r.2.1 (r.2.2.foldl Event.apply l)
  owns : Pool.Owns r.2.1.keysMem r.2.1.keys
  data : ∀ t' i, r.2.1.keysMem.mem i ≠ lladdr.getD null ∨ t' ≠ t → r.2.1.data t' i = s.data t' i
  kept : ∀ i ∈ s.keys, s.lockedMap i ≠ 0 → i ∈ r.2.1.keys ∧ r.2.1.keysMem.mem i = s.keysMem.mem i
  room : r.1 = none → s.keysMem.freeBlock = none

omit [DecidableEq A] in
theorem initItem_data (s : State T A D N) {t' : T} {j : Fin N} (h : i ≠ j ∨ t' ≠ t) :
    (initItem zero s t j).data t' i = s.data t' i := by
  rw [initItem]
  dsimp only
  by_cases ht : t' = t
  · subst ht
    rw [update_self, update_of_ne (h.resolve_right (not_not.mpr rfl))]
  · rw [update_of_ne ht]

variable (null zero) in
theorem add_spec (h : Good s l) (howns : Pool.Owns s.keysMem s.keys) (ht : t ∈ s.allTables)
    (hcalls : calls.Registered s) (lladdr : Option A) :
    Added null s l t lladdr (nbrTableAddLladdr null zero calls s t lladdr) := by
  rw [nbrTableAddLladdr]
  rcases hindex : indexFromLladdr null s lladdr with _ | i
  · have hfresh := index_none.mp hindex
    rcases allocate_spec h howns hcalls with ⟨key, s', events, hall, hs'⟩ | ⟨hall, hfull⟩
    · rw [hall]
      dsimp only
      have haddr : ∀ i ∈ s'.keys, s'.keysMem.mem i ≠ lladdr.getD null := fun i hi => by
        rw [hs'.mem]
        exact hfresh i (hs'.sub i hi)
      have hplaced := hs'.good.addKey hs'.notMem haddr
      have hself : (s'.keysMem.modify key fun _ => lladdr.getD null).mem key = lladdr.getD null := update_self ..
      have hin : key ∈ s'.keys.erase key ++ [key] := mem_append_right _ (mem_singleton.mpr rfl)
      have hother : ∀ i, i ≠ key → (s'.keysMem.modify key fun _ => lladdr.getD null).mem i = s.keysMem.mem i :=
        fun i hi => (update_of_ne hi _ _).trans (congrFun hs'.mem i)
      have hadded := hplaced.initItem zero (hs'.allTables ▸ ht) hin
      refine ⟨?_, ?_, fun t' i hi => ?_, fun i hi hlock => ?_, nofun⟩
      · rw [foldl_append]
        rw [hself] at hadded
        exact hadded
      · refine (hs'.owns.modify key fun _ => lladdr.getD null).perm ?_
        rw [initItem, erase_of_not_mem hs'.notMem]
        exact perm_append_singleton key s'.keys
      · rw [← hs'.data]
        refine initItem_data _ (hi.imp_left fun hne hno => hne ?_)
        rw [hno]
        exact hself
      · have hkept := hs'.kept i hi hlock
        refine ⟨mem_append_left _ ?_, hother i ?_⟩
        · rw [erase_of_not_mem hs'.notMem]
          exact hkept
        · rintro rfl
          exact hs'.notMem hkept
    · rw [hall]
      refine ⟨h, howns, fun _ _ _ => rfl, fun i hi _ => ⟨hi, rfl⟩, fun _ => hfull⟩
  · obtain ⟨hi, haddr⟩ := (index_some h).mp hindex
    have hadded := h.initItem zero ht hi
    rw [haddr] at hadded
    refine ⟨hadded, howns, fun t' j hj => initItem_data s (hj.imp_left fun hne hno => hne ?_),
      fun j hj _ => ⟨hj, rfl⟩, nofun⟩
    rw [hno]
    exact haddr

/-- The call removes a neighbour because its new address is that of another one. -/
def RemovesDuplicate (null : A) (s : State T A D N) : Op T A D N → Prop
  | .update old new removeIfDuplicate _ =>
    removeIfDuplicate = true ∧ indexFromLladdr null s old ≠ none ∧ indexFromLladdr null s (some new) ≠ none ∧
      indexFromLladdr null s old ≠ indexFromLladdr null s (some new)
  | _ => False

/-- The calls of a run. -/
def Meets (null : A) (w : World T A D N) (op : Op T A D N) : Prop :=
  op.Proper w.tables ∧ ¬ RemovesDuplicate null w.tables op

variable (null) in
/-- An address that changes. -/
theorem update_spec (h : Good s l) (howns : Pool.Owns s.keysMem s.keys) (hcalls : calls.Registered s) (old : Option A)
    (new : A) (removeIfDuplicate : Bool) :
    Good (nbrTableUpdateLladdr null calls s old new removeIfDuplicate).2.1
      ((nbrTableUpdateLladdr null calls s old new removeIfDuplicate).2.2.foldl Event.apply l) ∧
    (nbrTableUpdateLladdr null calls s old new removeIfDuplicate).2.1.data = s.data ∧
    (¬ RemovesDuplicate (D := D) null s (.update old new removeIfDuplicate calls) →
       Pool.Owns (nbrTableUpdateLladdr null calls s old new removeIfDuplicate).2.1.keysMem
         (nbrTableUpdateLladdr null calls s old new removeIfDuplicate).2.1.keys) := by
  rw [nbrTableUpdateLladdr]
  rcases hold : indexFromLladdr null s old with _ | i
  · exact ⟨h, rfl, fun _ => howns⟩
  · dsimp only
    obtain ⟨hi, haddr⟩ := (index_some h).mp hold
    rcases hnew : indexFromLladdr null s (some new) with _ | j
    · have hfresh := index_none.mp hnew
      have hrenamed := h.rename hi hfresh
      rw [haddr] at hrenamed
      exact ⟨hrenamed, rfl, fun _ => howns.modify i fun _ => new⟩
    · dsimp only
      split
      · exact ⟨h, rfl, fun _ => howns⟩
      next hne =>
        split
        next hremove =>
          refine ⟨h.removeKey hcalls hi, (removeKey_same calls s i).2.2.2, fun hno => absurd ?_ hno⟩
          rw [RemovesDuplicate, hold, hnew]
          exact ⟨hremove, by simp, by simp, fun heq => hne (Option.some.inj heq).symm⟩
        · exact ⟨h, rfl, fun _ => howns⟩

theorem last_append (events events' : List (Event T A N)) :
    last (events ++ events') = events'.foldl Event.apply (last events) := foldl_append

/-- INVARIANT: kept by every call that removes no duplicate. -/
theorem Inv.step {w' : World T A D N} {op : Op T A D N} (h : Inv w) (hmeets : Meets null w op)
    (hstep : step null zero w op = some w') : Inv w' := by
  obtain ⟨hproper, hdup⟩ := hmeets
  obtain ⟨hgood, howns⟩ := h
  cases op with
  | register t callback =>
    cases hstep
    refine ⟨hgood.register hproper callback, ?_⟩
    rw [nbrTableRegister]
    split <;> exact howns
  | add t lladdr calls =>
    cases hstep
    have hadded := add_spec null zero hgood howns hproper.1 hproper.2 lladdr
    exact ⟨last_append (A := A) w.events _ ▸ hadded.good, hadded.owns⟩
  | get t lladdr =>
    cases hstep
    exact ⟨hgood, howns⟩
  | remove t item =>
    cases hstep
    exact ⟨last_append (A := A) w.events _ ▸ hgood.remove hproper item, howns⟩
  | lock t item =>
    cases hstep
    exact ⟨⟨hgood.nodup, hgood.addrs, hgood.tables, hgood.indexLt, hgood.indexInj, hgood.usedBy, hgood.agrees⟩, howns⟩
  | unlock t item =>
    cases hstep
    exact ⟨⟨hgood.nodup, hgood.addrs, hgood.tables, hgood.indexLt, hgood.indexInj, hgood.usedBy, hgood.agrees⟩, howns⟩
  | update old new removeIfDuplicate calls =>
    cases hstep
    obtain ⟨hnew, _, hpool⟩ := update_spec null hgood howns hproper old new removeIfDuplicate
    exact ⟨last_append (A := A) w.events _ ▸ hnew, hpool hdup⟩
  | write t item value =>
    cases hstep
    exact ⟨⟨hgood.nodup, hgood.addrs, hgood.tables, hgood.indexLt, hgood.indexInj, hgood.usedBy, hgood.agrees⟩, howns⟩

theorem inv_start (a : A) (data : T → Fin N → D) : Inv (start a data : World T A D N) := by
  refine ⟨⟨nodup_nil, fun i hi => ?_, Nat.zero_le 8, fun t ht => ?_, fun t ht => ?_, fun i j hj hbit => ?_,
    fun t b i => iff_of_false (by simp [start, last]) fun hno => ?_⟩, Pool.owns_init a⟩
  · cases hi
  · cases ht
  · cases ht
  · exact absurd hbit (not_hasBit_zero j)
  · exact absurd hno.1 not_mem_nil

/-! ### The service -/

/-- The call is about this item: it is added, or its owner writes to it. -/
def Op.Touches (null : A) (t : T) (a : A) (i : Fin N) : Op T A D N → Prop
  | .add table lladdr _ => t = table ∧ a = lladdr.getD null
  | .write table item _ => t = table ∧ i = item
  | _ => False

/-- What the tables promise in a state. -/
structure Served (null : A) (zero : D) (w : World T A D N) : Prop where
  distinct : (w.tables.keys.map w.tables.keysMem.mem).Nodup
  found : ∀ t ∈ w.tables.allTables, ∀ lladdr,
    nbrTableGetFromLladdr null w.tables t lladdr = last w.events t (lladdr.getD null)
  untouched : ∀ op w', op.Proper w.tables → step null zero w op = some w' → ∀ t lladdr i,
    nbrTableGetFromLladdr null w.tables t lladdr = some i → nbrTableGetFromLladdr null w'.tables t lladdr = some i →
      ¬ op.Touches null t (lladdr.getD null) i → w'.tables.data t i = w.tables.data t i
  locked : ∀ t lladdr calls w', Op.Proper w.tables (.add t lladdr calls) →
    step null zero w (.add t lladdr calls) = some w' → ∀ i ∈ w.tables.keys,
      (∃ t' ∈ w.tables.allTables, nbrGetBit w.tables.lockedMap w.tables t' (some i) = true) →
        i ∈ w'.tables.keys ∧ w'.tables.keysMem.mem i = w.tables.keysMem.mem i
  room : w.tables.keys.length < N → ∀ t lladdr calls, Op.Proper w.tables (.add t lladdr calls) →
    (nbrTableAddLladdr null zero calls w.tables t lladdr).1 ≠ none

theorem Inv.untouched {w' : World T A D N} {op : Op T A D N} (h : Inv w) (hproper : op.Proper w.tables)
    (hstep : NbrTable.step null zero w op = some w') (hkept : indexFromLladdr null w'.tables lladdr = some i)
    (hnot : ¬ op.Touches null t (lladdr.getD null) i) : w'.tables.data t i = w.tables.data t i := by
  cases op with
  | register table callback =>
    cases hstep
    rw [nbrTableRegister]
    split <;> rfl
  | add table addr calls =>
    cases hstep
    have hadded := add_spec null zero h.good h.owns hproper.1 hproper.2 addr
    refine hadded.data t i ?_
    by_contra hno
    rw [not_or, not_not, not_not] at hno
    have haddr := ((index_some hadded.good).mp hkept).2
    exact hnot ⟨hno.2, haddr.symm.trans hno.1⟩
  | get table addr =>
    cases hstep
    rfl
  | remove table item =>
    cases hstep
    rfl
  | lock table item =>
    cases hstep
    rfl
  | unlock table item =>
    cases hstep
    rfl
  | update old new removeIfDuplicate calls =>
    cases hstep
    exact congrFun (congrFun (update_spec null h.good h.owns hproper old new removeIfDuplicate).2.1 t) i
  | write table item value =>
    cases hstep
    dsimp only
    by_cases ht : t = table
    · subst ht
      rw [update_self, update_of_ne fun hi => hnot ⟨rfl, hi⟩]
    · rw [update_of_ne ht]

theorem Inv.served (h : Inv w) : Served null zero w := by
  refine ⟨?_, fun t ht lladdr => h.good.found ht lladdr, fun op w' hproper hstep t lladdr i _ hkept hnot => ?_,
    fun t lladdr calls w' hproper hstep i hi hlock => ?_, fun hlt t lladdr calls hproper hno => ?_⟩
  · exact (nodup_map_iff_inj_on h.good.nodup).mpr h.good.addrs
  · refine h.untouched hproper hstep (?_ : indexFromLladdr null _ lladdr = some i) hnot
    rw [nbrTableGetFromLladdr] at hkept
    split at hkept
    · exact hkept
    · cases hkept
  · obtain ⟨t', _, hbit⟩ := hlock
    cases hstep
    have hadded := add_spec null zero h.good h.owns hproper.1 hproper.2 lladdr
    exact hadded.kept i hi (of_decide_eq_true hbit).ne_zero
  · have hadded := add_spec null zero h.good h.owns hproper.1 hproper.2 lladdr
    obtain ⟨key, hkey⟩ := h.owns.exists_free hlt
    rw [hadded.room hno] at hkey
    cases hkey

/-- The tables keep their promises in every run that removes no neighbour as a duplicate; the block of such a
    neighbour is never freed. -/
theorem nbr_tables_served {a : A} {data : T → Fin N → D} {ops : List (Op T A D N)} {w : World T A D N}
    (hrun : Run (step null zero) (Meets null) (start a data) ops w) : Served null zero w :=
  (hrun.invariant (fun _ _ _ h hmeets hstep => h.step hmeets hstep) (inv_start a data)).served

/-- Two neighbours, and a third one in the place of the first. -/
theorem nbr_tables_served_run : ∃ w : World Unit Nat Nat 2, w.tables.keys = [1, 0] ∧ Served 0 0 w := by
  have hno : ∀ s : State Unit Nat Nat 2, Calls.Registered (fun _ => []) s := nofun
  have hrun : Run (step 0 0) (Meets 0) (start 0 fun _ _ => 0 : World Unit Nat Nat 2)
      [.register () false, .add () (some 1) fun _ => [], .add () (some 2) fun _ => [], .add () (some 3) fun _ => []] _ :=
    .cons ⟨not_mem_nil, id⟩ rfl (.cons ⟨⟨mem_singleton.mpr rfl, hno _⟩, id⟩ rfl
      (.cons ⟨⟨mem_singleton.mpr rfl, hno _⟩, id⟩ rfl (.cons ⟨⟨mem_singleton.mpr rfl, hno _⟩, id⟩ rfl (.nil _))))
  exact ⟨_, by decide, nbr_tables_served hrun⟩

/-- A run of proper calls comes to a state where a promise is broken. -/
def PromiseBroken : Prop :=
  ∃ (ops : List (Op Unit Nat Nat 2)) (w : World Unit Nat Nat 2),
    Run (step 0 0) (fun w op => op.Proper w.tables) (start 0 fun _ _ => 0) ops w ∧ ¬ Served 0 0 w

/-- Two neighbours, the first of which is removed as a duplicate of the second; that one is locked, and there is no room
    for another one. -/
theorem room_is_lost : PromiseBroken := by
  have hno : ∀ s : State Unit Nat Nat 2, Calls.Registered (fun _ => []) s := nofun
  have hrun : Run (step 0 0) (fun w op => op.Proper w.tables) (start 0 fun _ _ => 0 : World Unit Nat Nat 2)
      [.register () false, .add () (some 1) fun _ => [], .add () (some 2) fun _ => [],
        .update (some 1) 2 true fun _ => [], .lock () (some 1)] _ :=
    .cons not_mem_nil rfl (.cons ⟨mem_singleton.mpr rfl, hno _⟩ rfl
      (.cons ⟨mem_singleton.mpr rfl, hno _⟩ rfl (.cons (hno _) rfl (.cons (mem_singleton.mpr rfl) rfl (.nil _)))))
  refine ⟨_, _, hrun, fun hserved => ?_⟩
  exact hserved.room (by decide) () (some 3) (fun _ => []) ⟨mem_singleton.mpr rfl, hno _⟩ (by decide)

end CSync.NbrTable
