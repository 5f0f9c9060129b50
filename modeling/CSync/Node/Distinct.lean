import CSync.Node.Ranking

/-! Heads with different addresses.

    The search for a sender's place in `CHs_list` looks for the sender on the way, and stops at the first entry that it
    outranks. A sender whose rank rose since it was put on the list is outranked no more by entries in front of its own,
    so it is not found and gets a second entry. `PlacedOnce` says of one call that this does not happen; everything else
    that is done to the list keeps the addresses different. -/

namespace CSync

open Lib List Function

variable {N : Nat} {R : Type}

/-- The list links allocated blocks, each once, and their entries have different addresses. -/
structure Distinct (p : Pool N Chb) (l : List (Fin N)) : Prop where
  nodup : l.Nodup
  counted : ∀ i ∈ l, p.count i ≠ 0
  addrs : ((entries p l).map Chb.addr).Nodup

/-- `CHs_list` of a node. -/
def DistinctHeads (cl : Cluster) : Prop := Distinct cl.chsMemb cl.chs

theorem distinct_nil (p : Pool N Chb) : Distinct p [] := ⟨nodup_nil, nofun, nodup_nil⟩

variable {p : Pool N Chb} {l : List (Fin N)} {i : Fin N} {addr : UInt16} {degree : UInt8} {cl : Cluster}

section
variable (h : Distinct p l)
include h

/-- Entries change in place and keep their addresses. -/
theorem Distinct.of_addr {q : Pool N Chb} (hcount : ∀ i ∈ l, q.count i = p.count i)
    (haddr : ∀ i ∈ l, (q.mem i).addr = (p.mem i).addr) : Distinct q l := by
  have haddrs : (entries q l).map Chb.addr = (entries p l).map Chb.addr := by
    rw [entries, entries, map_map, map_map]
    exact map_congr_left haddr
  refine ⟨h.nodup, fun i hi => ?_, ?_⟩
  · rw [hcount i hi]
    exact h.counted i hi
  · rw [haddrs]
    exact h.addrs

theorem Distinct.modify (i : Fin N) {f : Chb → Chb}
    (hf : ∀ ch, (f ch).addr = ch.addr) : Distinct (p.modify i f) l := by
  refine h.of_addr (fun _ _ => rfl) fun j _ => ?_
  by_cases hji : j = i
  · subst hji
    simp only [Pool.modify, update_self, hf]
  · simp only [Pool.modify, update_of_ne hji]

theorem Distinct.free_of_not_mem
    (hi : p.freeBlock = some i) : i ∉ l := fun hmem => h.counted i hmem (Pool.freeBlock_some hi)

theorem Distinct.take (hi : p.freeBlock = some i)
    (f : Chb → Chb) : Distinct ((p.take i).modify i f) l := by
  have hne : ∀ j ∈ l, j ≠ i := by
    rintro j hj rfl
    exact h.free_of_not_mem hi hj
  refine h.of_addr (fun j hj => ?_) fun j hj => ?_
  · simp only [Pool.modify_count, Pool.take, update_of_ne (hne j hj)]
  · simp only [Pool.modify, Pool.take_mem, update_of_ne (hne j hj)]

theorem Distinct.link {l' : List (Fin N)} (hi : p.freeBlock = some i) {ch : Chb} (hch : ch.addr ∉
    (entries p l).map Chb.addr) (hperm : l'.Perm (i :: l)) : Distinct ((p.take i).modify i fun _ => ch) l' := by
  have hout := h.free_of_not_mem hi
  have hrest := h.take hi fun _ => ch
  have hentries : entries ((p.take i).modify i fun _ => ch) l = entries p l := entries_modify hout _
  have hself : ((p.take i).modify i fun _ => ch).mem i = ch := update_self _ _ _
  refine ⟨hperm.nodup_iff.mpr (nodup_cons.mpr ⟨hout, h.nodup⟩), fun j hj => ?_, ?_⟩
  · rcases mem_cons.mp (hperm.mem_iff.mp hj) with rfl | hj
    · simp only [Pool.modify_count, Pool.take, update_self]
      omega
    · exact hrest.counted j hj
  · have haddrs : ((entries ((p.take i).modify i fun _ => ch) l').map Chb.addr).Perm
        (ch.addr :: (entries p l).map Chb.addr) := by
      have hmap := (hperm.map ((p.take i).modify i fun _ => ch).mem).map Chb.addr
      rw [map_cons, map_cons, hself] at hmap
      rw [← hentries]
      exact hmap
    exact haddrs.nodup_iff.mpr (nodup_cons.mpr ⟨hch, h.addrs⟩)

end

/-! ### `handle_lists` -/

theorem Distinct.allocInsert (h : Distinct p l) {ch : Chb}
    (hch : ch.addr ∉ (entries p l).map Chb.addr ∨ p.freeBlock = none) {position : Nat} (h1 : 1 ≤ position)
    (hle : position ≤ l.length + 1) : Distinct (allocInsert p l ch position).1 (allocInsert p l ch position).2 := by
  rw [CSync.allocInsert, Pool.alloc]
  cases hfree : p.freeBlock with
  | none => exact h
  | some i =>
    rcases hch with hch | hnone
    · exact h.link hfree hch (insertAt_perm (h.free_of_not_mem hfree) h1 hle)
    · rw [hfree] at hnone
      cases hnone

theorem chopFree_snd (p : Pool N Chb) (l : List (Fin N)) : (chopFree p l).2 = l.dropLast := by
  rw [chopFree]
  cases hlast : l.getLast? with
  | none =>
    rw [getLast?_eq_none_iff.mp hlast]
    rfl
  | some i => rfl

theorem Distinct.chopFree (h : Distinct p l) : Distinct (chopFree p l).1 (chopFree p l).2 := by
  rcases eq_nil_or_concat l with rfl | ⟨l', i, rfl⟩
  · exact h
  · rw [concat_eq_append] at h ⊢
    rw [chopFree_concat]
    obtain ⟨hnodup, -, hout⟩ := nodup_append.mp h.nodup
    have haddrs := h.addrs
    rw [addrs_append] at haddrs
    refine ⟨hnodup, fun j hj => ?_, (nodup_append.mp haddrs).1⟩
    have hne : j ≠ i := hout j hj i (mem_singleton.mpr rfl)
    simp only [Pool.free, update_of_ne hne]
    exact h.counted j (mem_append_left _ hj)

/-- The sender has an entry that no entry in front of it ranks below the sender. -/
def Sheltered (p : Pool N Chb) (l : List (Fin N)) (addr : UInt16) (degree : UInt8) : Prop :=
  ∃ l₁ i l₂, l = l₁ ++ i :: l₂ ∧ (p.mem i).addr = addr ∧
    ∀ ch ∈ entries p l₁, ¬ (ch.degree < degree ∨ degree = ch.degree ∧ ch.addr < addr)

/-- The call for a sender of this address and degree does not give it a second entry: it has none, or it has one that
    none in front of it ranks below the sender, or its only one is the last of a full list, which goes, or no block is
    free. -/
def PlacedOnce (p : Pool N Chb) (l : List (Fin N)) (addr : UInt16) (degree : UInt8) : Prop :=
  addr ∉ (entries p l).map Chb.addr ∨ Sheltered p l addr degree ∨
    (l.length = numChMax ∧ addr ∉ (entries p l.dropLast).map Chb.addr) ∨ (l.length < numChMax ∧ p.freeBlock = none)

theorem findPlace_append (l₂ : List (Fin N)) (hi : (p.mem i).addr = addr) : ∀ (l₁ : List (Fin N)) (k : Nat),
    (∀ ch ∈ entries p l₁, ¬ (ch.degree < degree ∨ degree = ch.degree ∧ ch.addr < addr)) →
      findPlace p addr degree (l₁ ++ i :: l₂) k = .present
  | [], k, _ => by rw [nil_append, findPlace, if_pos hi]
  | j :: l₁, k, h => by
    obtain ⟨hj, hrest⟩ := forall_mem_cons.mp h
    rw [cons_append, findPlace]
    split
    · rfl
    · exact findPlace_append l₂ hi l₁ (k + 1) hrest

theorem Sheltered.present (h : Sheltered p l addr degree) (k : Nat) : findPlace p addr degree l k = .present := by
  obtain ⟨l₁, i, l₂, rfl, hi, habove⟩ := h
  exact findPlace_append l₂ hi l₁ k habove

/-- Where the search does not meet the sender, one of the other three holds. -/
theorem PlacedOnce.unmet (h : PlacedOnce p l addr degree) {k : Nat} (hplace : findPlace p addr degree l k ≠ .present)
    : addr ∉ (entries p l).map Chb.addr ∨ (l.length = numChMax ∧ addr ∉ (entries p l.dropLast).map Chb.addr) ∨
    (l.length < numChMax ∧ p.freeBlock = none) := by
  rcases h with hnew | hshelter | hrest
  · exact .inl hnew
  · exact absurd (hshelter.present k) hplace
  · exact .inr hrest

theorem entries_chopFree (p : Pool N Chb) (l : List (Fin N)) :
    entries (chopFree p l).1 (chopFree p l).2 = entries p l.dropLast := by
  rw [chopFree_snd, chopFree]
  split <;> rfl

theorem entries_dropLast_subset (p : Pool N Chb) (l : List (Fin N)) :
    (entries p l.dropLast).map Chb.addr ⊆ (entries p l).map Chb.addr :=
  (((dropLast_sublist l).map p.mem).map Chb.addr).subset

theorem Distinct.handleOn (h : Distinct p l) (flip : Bool) (mk : Role → Chb)
    (role : Role) (honce : PlacedOnce p l addr degree) (hmk : ∀ role, (mk role).addr = addr) :
    Distinct (handleOn flip mk addr degree role p l).2.2.1 (handleOn flip mk addr degree role p l).2.2.2 := by
  rw [CSync.handleOn]
  split
  next hlen =>
    have hnil : l = [] := eq_nil_of_length_eq_zero hlen
    subst hnil
    rw [Pool.alloc]
    cases hfree : p.freeBlock with
    | none => exact h
    | some i => exact h.link hfree (by simp [entries]) (List.Perm.refl _)
  · have hwithin := findPlace_within p addr degree l 0
    have hunmet := honce.unmet (k := 1)
    rw [zero_add, zero_add] at hwithin
    cases hplace : findPlace p addr degree l 1 with
    | present => exact h
    | before position =>
      rw [hplace] at hwithin hunmet
      have hcases := hunmet (by simp)
      dsimp only
      split
      next hroom =>
        refine h.allocInsert ?_ hwithin.1 (Nat.le_succ_of_le hwithin.2)
        rw [hmk]
        rcases hcases with hnew | ⟨hfull, -⟩ | ⟨-, hnone⟩
        · exact .inl hnew
        · omega
        · exact .inr hnone
      · split
        next hroom hfull =>
          refine h.chopFree.allocInsert (.inl ?_) hwithin.1 (hwithin.2.trans (length_chopFree p l))
          rw [hmk, entries_chopFree]
          rcases hcases with hnew | ⟨-, hlast⟩ | ⟨hlt, -⟩
          · exact fun hmem => hnew (entries_dropLast_subset p l hmem)
          · exact hlast
          · omega
        · exact h
    | behind position =>
      rw [hplace] at hwithin hunmet
      have hcases := hunmet (by simp)
      dsimp only
      split
      next hroom =>
        refine h.allocInsert ?_ hwithin.1 hwithin.2
        rw [hmk]
        rcases hcases with hnew | ⟨hfull, -⟩ | ⟨-, hnone⟩
        · exact .inl hnew
        · omega
        · exact .inr hnone
      · exact h

theorem DistinctHeads.handleLists (h : DistinctHeads cl) {st : St} (a : UInt16) (d : UInt8)
    (value : AnnouncementValue R) {n : Neighbour R} (honce : st = .electionDeclaration ∨ st = .consensusConvergence →
      PlacedOnce cl.chsMemb cl.chs n.addr n.degree) : DistinctHeads (handleLists cl st a d value n).2 := by
  cases st
  case electionDeclaration =>
    exact Distinct.handleOn h true (fun role => newChb role a d value n) cl.role (honce (.inl rfl)) fun _ => rfl
  case consensusConvergence =>
    exact Distinct.handleOn h true (fun role => newChb role a d value n) cl.role (honce (.inr rfl)) fun _ => rfl
  all_goals exact h

/-- A call in any other phase. -/
theorem DistinctHeads.handleLists_elsewhere (h : DistinctHeads cl) {st : St}
    (hst : st ≠ .electionDeclaration ∧ st ≠ .consensusConvergence) (a : UInt16) (d : UInt8) (value : AnnouncementValue R)
    (n : Neighbour R) : DistinctHeads (CSync.handleLists cl st a d value n).2 := by
  refine h.handleLists a d value fun hcall => ?_
  rcases hcall with hcall | hcall
  · exact absurd hcall hst.1
  · exact absurd hcall hst.2

/-! ### The other operations -/

/-- A change of the slots. -/
theorem DistinctHeads.mapChs (h : DistinctHeads cl) {f : Chb → Chb}
    (hf : ∀ ch, (f ch).addr = ch.addr) : DistinctHeads (mapChs f cl) := by
  have hfold : ∀ (l : List (Fin numChMax)) (p : Pool numChMax Chb), Distinct p cl.chs →
      Distinct (l.foldl (fun p i => p.modify i f) p) cl.chs := by
    intro l
    induction l with
    | nil => exact fun _ hp => hp
    | cons i l ih => exact fun p hp => ih _ (hp.modify i hf)
  exact hfold cl.chs cl.chsMemb h

theorem DistinctHeads.setConsSlot (h : DistinctHeads cl) (addr : UInt16) (slot : UInt8) :
    DistinctHeads (setConsSlot addr slot cl) := by
  refine h.mapChs fun ch => ?_
  split <;> rfl

theorem Distinct.collectHeads : ∀ (bridges : List Chb) {p : Pool numChMax Chb} {l : List (Fin numChMax)}, Distinct p l →
    Distinct (collectHeads bridges p l).2.1 (collectHeads bridges p l).2.2
  | [], _, _, h => h
  | cb :: rest, p, l, h => by
    rw [CSync.collectHeads]
    split
    · exact Distinct.collectHeads rest (h.modify _ fun _ => rfl)
    next hnone =>
      rw [Pool.alloc]
      cases hfree : p.freeBlock with
      | none => exact h
      | some i =>
        refine Distinct.collectHeads rest (h.link hfree ?_ ?_)
        · rw [entries, map_map, mem_map]
          rintro ⟨j, hj, haddr⟩
          have hne := find?_eq_none.mp hnone j hj
          exact hne (beq_iff_eq.mpr haddr.symm)
        · rw [listPush, erase_of_not_mem (h.free_of_not_mem hfree)]

theorem distinctHeads_initConsensusConvergence (cl : Cluster) : DistinctHeads (initConsensusConvergence cl).2 :=
  Distinct.collectHeads _ (distinct_nil _)

/-- The block that a late message takes is written, but not linked. -/
theorem DistinctHeads.linkMemb (h : DistinctHeads cl) (value : AnnouncementValue R) :
    DistinctHeads (linkMemb value cl) := by
  rw [CSync.linkMemb, Pool.alloc]
  cases hfree : cl.chsMemb.freeBlock with
  | none => exact h
  | some i => exact Distinct.take h hfree fun ch => { ch with nChbAddrA := value.refAddr, consSlot := value.degree }

end CSync
