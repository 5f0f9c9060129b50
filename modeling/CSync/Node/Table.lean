import CSync.Node.Process

/-! The neighbour table over whole runs.

    `add_to_neighbour` finds a sender in one of two lists or allocates a block for it. Whatever the
    protocol does between two calls, no address is stored twice, the topology list holds neighbours
    of the topology only, the degree counts that list, and the two lists together own the pool. -/

namespace CSync

open Lib

variable {R : Type}

/-- The table invariant of the node `myAddr`. -/
structure TableInv (myAddr : UInt16) (nb : NeighbourTable R) : Prop where
  distinct : ((nb.modList ++ nb.list).map fun i => (nb.memb.mem i).addr).Nodup
  topology : ∀ i ∈ nb.modList, checkModNeighbours myAddr (nb.memb.mem i).addr = true
  degree : nb.myDegree.toNat = nb.modList.length
  owns : nb.memb.Owns (nb.modList ++ nb.list)

/-! ### What leaves the addresses alone -/

/-- `m'` has the same blocks allocated as `m`, with the same addresses in all blocks. -/
structure SameAddrs (m m' : Pool maxDegree (Neighbour R)) : Prop where
  count_eq : m'.count = m.count
  addr_eq : ∀ i, (m'.mem i).addr = (m.mem i).addr

theorem SameAddrs.refl (m : Pool maxDegree (Neighbour R)) : SameAddrs m m := ⟨rfl, fun _ => rfl⟩

theorem SameAddrs.trans {m₁ m₂ m₃ : Pool maxDegree (Neighbour R)} (h₁ : SameAddrs m₁ m₂)
    (h₂ : SameAddrs m₂ m₃) : SameAddrs m₁ m₃ :=
  ⟨h₂.count_eq.trans h₁.count_eq, fun i => (h₂.addr_eq i).trans (h₁.addr_eq i)⟩

/-- Changing a block without touching its address. -/
theorem SameAddrs.modify (m : Pool maxDegree (Neighbour R)) (i : Fin maxDegree) {f : Neighbour R → Neighbour R} (hf :
    (f (m.mem i)).addr = (m.mem i).addr) : SameAddrs m (m.modify i f) := by
  refine ⟨rfl, fun j => ?_⟩
  by_cases hj : j = i
  · subst hj; simpa [Pool.modify] using hf
  · simp [Pool.modify, hj]

theorem sameAddrs_shiftDiffs (c f : Int32) : ∀ (l : List (Fin maxDegree))
    (m : Pool maxDegree (Neighbour R)), SameAddrs m (shiftDiffs c f l m)
  | [], m => .refl m
  | i :: l, m => by
    rw [shiftDiffs]
    exact (SameAddrs.modify m i rfl).trans (sameAddrs_shiftDiffs c f l _)

variable [SoftDouble R]

theorem sameAddrs_gtspFirst (env : Env R) (st : St) (all : List (Fin maxDegree)) :
    ∀ (l : List (Fin maxDegree)) (m : Pool maxDegree (Neighbour R)) (acc : GtspAcc R),
      SameAddrs m (gtspFirst env st all l m acc).1
  | [], m, _ => .refl m
  | i :: l, m, acc => by
    rw [gtspFirst]
    split
    · exact sameAddrs_gtspFirst env st all l m acc
    · dsimp only
      split
      · exact .refl m
      · exact (SameAddrs.modify m i rfl).trans (sameAddrs_gtspFirst env st all l _ _)

theorem sameAddrs_gtspUpdateRtimer (env : Env R) (st : St) (tm : RtimerState R) (all : List (Fin maxDegree)) (m : Pool
    maxDegree (Neighbour R)) : SameAddrs m (gtspUpdateRtimer env st tm all m).1 :=
  (sameAddrs_gtspFirst env st all all m _).trans (sameAddrs_shiftDiffs _ _ all _)

theorem gtspRate_addr (n : Neighbour R) (a b c d : UInt32) : (gtspRate n a b c d).addr = n.addr := by
  rw [gtspRate]
  split <;> rfl

theorem gtspRecv_addr (tm : RtimerState R) (n : Neighbour R) (rx : Reception R) (new : Bool) :
    (gtspRecv tm n rx new).1.addr = n.addr := by
  cases new
  · exact gtspRate_addr n _ _ _ _
  · rfl

/-! ### `add_to_neighbour` keeps the invariant -/

variable {a : UInt16} {nb : NeighbourTable R}

omit [SoftDouble R] in
/-- The invariant reads of the pool only what is allocated and the addresses. -/
theorem TableInv.congr (h : TableInv a nb) {m : Pool maxDegree (Neighbour R)} (hm : SameAddrs nb.memb m) :
    TableInv a { nb with memb := m } := by
  refine ⟨?_, fun i hi => ?_, h.degree, ⟨h.owns.nodup, fun i => ?_⟩⟩
  · simp only [hm.addr_eq]; exact h.distinct
  · rw [hm.addr_eq]; exact h.topology i hi
  · rw [hm.count_eq]; exact h.owns.count_eq i

omit [SoftDouble R] in
theorem TableInv.addr_new {addr : UInt16} (h : TableInv a nb)
    (hmod :
      nb.modList.find? (fun i => (nb.memb.mem i).addr == addr && checkModNeighbours a (nb.memb.mem i).addr) = none)
    (hlist : nb.list.find? (fun i => (nb.memb.mem i).addr == addr) = none) :
    addr ∉ (nb.modList ++ nb.list).map fun i => (nb.memb.mem i).addr := by
  rw [List.mem_map]
  rintro ⟨i, hi, rfl⟩
  rcases List.mem_append.mp hi with hi | hi
  · have := List.find?_eq_none.mp hmod i hi
    simp [h.topology i hi] at this
  · have := List.find?_eq_none.mp hlist i hi
    simp at this

omit [SoftDouble R] in
/-- Linking a fresh block that holds a new address. -/
theorem TableInv.insert (h : TableInv a nb) {i : Fin maxDegree} (hi : nb.memb.freeBlock = some i) {n : Neighbour R}
    (hnew : n.addr ∉ (nb.modList ++ nb.list).map fun j => (nb.memb.mem j).addr) {l : List (Fin maxDegree)}
    (hperm : l.Perm (i :: (nb.modList ++ nb.list))) :
    (l.map fun j => (((nb.memb.take i).modify i fun _ => n).mem j).addr).Nodup ∧
    ((nb.memb.take i).modify i fun _ => n).Owns l := by
  have hni := h.owns.not_mem_of_free hi
  have hsame : ∀ j ∈ nb.modList ++ nb.list,
      (((nb.memb.take i).modify i fun _ => n).mem j).addr = (nb.memb.mem j).addr := by
    intro j hj
    have hne : j ≠ i := fun e => hni (e ▸ hj)
    simp [Pool.modify, hne]
  refine ⟨?_, (h.owns.take_insert hi hperm).modify i _⟩
  rw [(hperm.map _).nodup_iff, List.map_cons, List.nodup_cons, List.map_congr_left (fun j hj => hsame j hj)]
  refine ⟨?_, h.distinct⟩
  simpa [Pool.modify] using hnew

theorem sameAddrs_refreshNeighbour (env : Env R) (st : St) (tm : RtimerState R)
    (nb : NeighbourTable R) (i : Fin maxDegree) (state degree : UInt8) (rx : Reception R) :
    ∃ m, SameAddrs nb.memb m ∧ (refreshNeighbour env st tm nb i state degree rx).1 = { nb with memb := m } := by
  have hrecv : SameAddrs nb.memb (nb.memb.modify i fun _ => (gtspRecv tm (nb.memb.mem i) rx false).1) :=
    .modify _ _ (gtspRecv_addr _ _ _ _)
  rw [refreshNeighbour]
  by_cases hidle : st = .idle
  · rw [if_pos hidle]
    exact ⟨_, hrecv, rfl⟩
  · rw [if_neg hidle]
    have hupdate : ∀ (p : Prop) [Decidable p] (tm : RtimerState R) m,
        SameAddrs m (if p then gtspUpdateRtimer env st tm nb.modList m else (m, tm)).1 := by
      intro p _ tm m
      split
      · exact sameAddrs_gtspUpdateRtimer env st tm nb.modList m
      · exact .refl m
    have hstate : ∀ (m : Pool maxDegree (Neighbour R)) (x : UInt8),
        SameAddrs m (m.modify i fun n => { n with state := x }) := fun m x => .modify m i rfl
    refine ⟨_, ?_, rfl⟩
    split
    · exact ((hrecv.trans (hstate _ _)).trans (hupdate _ _ _)).trans (.modify _ i rfl)
    · exact (hrecv.trans (hstate _ _)).trans (hupdate _ _ _)

theorem addToNeighbour_keeps (h : TableInv a nb) (env : Env R) (st : St) (tm : RtimerState R) (addr : UInt16) (state
    degree : UInt8) (rx : Reception R) : TableInv a (addToNeighbour env a st tm nb addr state degree rx).2.1 := by
  rw [addToNeighbour]
  split
  · -- a known neighbour of the topology: only its clock, state and degree change
    obtain ⟨m, hm, heq⟩ := sameAddrs_refreshNeighbour env st tm nb _ state degree rx
    rw [heq]; exact h.congr hm
  next hmod =>
    split
    · -- a known stranger
      exact h.congr (.modify _ _ (gtspRecv_addr _ _ _ _))
    next hlist =>
      have hnew := h.addr_new hmod hlist
      split
      · exact h
      · -- a fresh block, linked in the list the topology says
        rename_i i hi
        have haddr : (newNeighbour st tm (nb.memb.mem i) addr state degree rx).1.addr = addr := gtspRecv_addr _ _ _ _
        rw [← haddr] at hnew
        split
        next hcheck =>
          obtain ⟨hnd, hown⟩ := h.insert hi hnew (l := (nb.modList ++ [i]) ++ nb.list) (by simp [List.perm_middle])
          refine ⟨hnd, fun j hj => ?_, ?_, hown⟩
          · rcases List.mem_append.mp hj with hj | hj
            · have hne : j ≠ i := fun e =>
                h.owns.not_mem_of_free hi (e ▸ List.mem_append_left _ hj)
              simpa [Pool.modify, hne] using h.topology j hj
            · rw [List.mem_singleton.mp hj]
              simpa [Pool.modify, haddr] using hcheck
          · have hlen := hown.length_le
            have hdeg := h.degree
            simp only [List.length_append, List.length_singleton, maxDegree] at hlen ⊢
            rw [UInt8.toNat_add, UInt8.toNat_one, hdeg]
            omega
        · obtain ⟨hnd, hown⟩ := h.insert hi hnew (l := nb.modList ++ (nb.list ++ [i]))
            (by rw [← List.append_assoc]; exact List.perm_append_singleton _ _)
          refine ⟨hnd, fun j hj => ?_, h.degree, hown⟩
          have hne : j ≠ i := fun e => h.owns.not_mem_of_free hi (e ▸ List.mem_append_left _ hj)
          simpa [Pool.modify, hne] using h.topology j hj

theorem refreshNeighbour_degree (env : Env R) {st : St} (tm : RtimerState R) (nb : NeighbourTable R)
    (i : Fin maxDegree) (state degree : UInt8) (rx : Reception R) (hst : st.code < St.connectionDeclaration.code) :
    ((refreshNeighbour env st tm nb i state degree rx).1.memb.mem i).degree = degree := by
  have hidle : st ≠ .idle := by
    rintro rfl
    exact absurd hst (by decide)
  rw [refreshNeighbour, if_neg hidle]
  dsimp only
  rw [if_pos hst]
  simp [Pool.modify]

theorem newNeighbour_synced (st : St) (tm : RtimerState R) (n : Neighbour R) (addr : UInt16) (state degree : UInt8)
    (rx : Reception R) : (newNeighbour st tm n addr state degree rx).1.synced = false := rfl

/-- The entry that `add_to_neighbour` returns for a synchronised sender has the sender's address
    and, before the connection declaration, the degree that the sender announces. -/
def EntryOf (st : St) (addr : UInt16) (degree : UInt8)
    (r : Option (Fin maxDegree) × NeighbourTable R × RtimerState R × Bool) : Prop :=
  ∀ i, r.1 = some i → (r.2.1.memb.mem i).synced = true →
    (r.2.1.memb.mem i).addr = addr ∧
      (st.code < St.connectionDeclaration.code → (r.2.1.memb.mem i).degree = degree)

theorem addToNeighbour_entry (env : Env R) (a : UInt16) (st : St) (tm : RtimerState R)
    (nb : NeighbourTable R) (addr : UInt16) (state degree : UInt8) (rx : Reception R) :
    EntryOf st addr degree (addToNeighbour env a st tm nb addr state degree rx) := by
  rw [addToNeighbour]
  split
  next j hj =>
    rintro i hi -
    cases hi
    have hfound := List.find?_some hj
    simp only [Bool.and_eq_true, beq_iff_eq] at hfound
    obtain ⟨m, hm, heq⟩ := sameAddrs_refreshNeighbour env st tm nb j state degree rx
    refine ⟨?_, refreshNeighbour_degree env tm nb j state degree rx⟩
    rw [heq]
    exact (hm.addr_eq j).trans hfound.1
  · split
    · rintro i hi
      cases hi
    · split
      · rintro i hi
        cases hi
      · dsimp only
        split
        · -- a new neighbour is not synchronised
          rintro i hi hsync
          cases hi
          simp [Pool.modify, newNeighbour_synced] at hsync
        · rintro i hi
          cases hi

/-! ### Whole runs -/

/-- A call of `add_to_neighbour`, at any phase and with any timers, or a `soft_reset`. -/
inductive TableOp (R : Type) where
  | add (myState : St) (tm : RtimerState R) (env : Env R) (value : AnnouncementValue R)
      (rx : Reception R)
  | softReset

/-- What the operation does to the node. -/
def TableOp.apply (s : Node R) : TableOp R → Node R
  | .add myState tm env value rx =>
      ({ s with myState := myState, tm := tm, env := env }.addNeighbour value rx).2
  | .softReset => s.softReset

omit [SoftDouble R] in
/-- No row of the topology holds its own address. -/
theorem checkModNeighbours_self (a : UInt16) : checkModNeighbours a a = false := by
  rw [checkModNeighbours, modNeighbours.eq_def]
  split <;> rfl

theorem addNeighbour_nb (s : Node R) (value : AnnouncementValue R) (rx : Reception R) : (s.addNeighbour value rx).2.nb
    = (addToNeighbour s.env s.myAddr s.myState s.tm s.nb rx.sender value.instr value.degree rx).2.1 := by
  rw [Node.addNeighbour]
  dsimp only
  split <;> rfl

theorem addNeighbour_myAddr (s : Node R) (value : AnnouncementValue R) (rx : Reception R) :
    (s.addNeighbour value rx).2.myAddr = s.myAddr := by
  rw [Node.addNeighbour]
  dsimp only
  split <;> rfl

theorem TableOp.apply_keeps {s : Node R} (hs : s.myAddr = a ∧ TableInv a s.nb)
    (op : TableOp R) : (op.apply s).myAddr = a ∧ TableInv a (op.apply s).nb := by
  obtain ⟨haddr, hinv⟩ := hs
  cases op with
  | add myState tm env value rx =>
    rw [TableOp.apply, addNeighbour_myAddr, addNeighbour_nb]
    refine ⟨haddr, ?_⟩
    rw [haddr]
    exact addToNeighbour_keeps hinv env myState tm _ _ _ rx
  | softReset => exact ⟨haddr, hinv⟩

theorem tableInv_resetCGtsp (s : Node R) (a : UInt16) : TableInv a (s.resetCGtsp a).nb := by
  refine ⟨List.nodup_nil, fun i hi => ?_, ?_, Pool.owns_init _⟩
  · cases hi
  · simp [Node.resetCGtsp, checkModNeighbours_self]

/-- NEIGHBOUR TABLE: after `reset_c_gtsp`, over any sequence of `add_to_neighbour` calls and soft
    resets, the table invariant holds and the lists fit in the pool. -/
theorem neighbour_table_invariant (s₀ : Node R) (myAddr : UInt16) (ops : List (TableOp R)) :
    let t := ops.foldl TableOp.apply (s₀.resetCGtsp myAddr)
    TableInv myAddr t.nb ∧ t.nb.modList.length + t.nb.list.length ≤ maxDegree := by
  have hrun : ∀ (ops : List (TableOp R)) (s : Node R), s.myAddr = myAddr ∧ TableInv myAddr s.nb →
      (ops.foldl TableOp.apply s).myAddr = myAddr ∧ TableInv myAddr (ops.foldl TableOp.apply s).nb := by
    intro ops
    induction ops with
    | nil => exact fun s hs => hs
    | cons op ops ih => exact fun s hs => ih (op.apply s) (op.apply_keeps hs)
  have hinv := (hrun ops (s₀.resetCGtsp myAddr) ⟨rfl, tableInv_resetCGtsp s₀ myAddr⟩).2
  refine ⟨hinv, ?_⟩
  have := hinv.owns.length_le
  rwa [List.length_append] at this

end CSync
