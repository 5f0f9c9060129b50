import CSync.Node.Cluster

/-! What the operations on the cluster lists keep.

    `handle_lists` leaves a list as it is, inserts a new entry at a position inside it, or does so
    after it has freed the last entry of a full list. Each property of the lists is proved of these
    three, and then holds of `handle_lists` in every phase. -/

namespace CSync

open Lib List

variable {N : Nat} {R : Type}

theorem insertWalk_perm (i : Fin N) : ∀ (l : List (Fin N)) (position : Nat), 2 ≤ position →
    position ≤ l.length + 1 → (insertWalk i position l).Perm (i :: l)
  | [], position, h2, hle => by simp at hle; omega
  | x :: xs, position, h2, hle => by
    rw [insertWalk]
    split
    · exact List.Perm.swap i x xs
    next hgt =>
      rw [length_cons] at hle
      have ih := insertWalk_perm i xs (position - 1) (by omega) (by omega)
      exact (ih.cons x).trans (List.Perm.swap i x xs)

variable {l : List (Fin N)} {p : Pool N Chb} {ch : Chb} {r : Pool N Chb × List (Fin N)} {P : Chb → Prop}

theorem insertAt_perm {i : Fin N} (hi : i ∉ l) {position : Nat}
    (h1 : 1 ≤ position) (hle : position ≤ l.length + 1) : (insertAt i position l).Perm (i :: l) := by
  rw [insertAt]
  split
  · rw [listPush, erase_of_not_mem hi]
  · exact insertWalk_perm i l position (by omega) hle

theorem insertWalk_subset (i : Fin N) : ∀ (l : List (Fin N)) (position : Nat), insertWalk i position l ⊆ i :: l
  | [], _ => by simp [insertWalk]
  | x :: xs, position => by
    rw [insertWalk]
    split
    · intro j hj
      simp only [mem_cons] at hj ⊢
      tauto
    · intro j hj
      have ih := @insertWalk_subset i xs (position - 1) j
      simp only [mem_cons] at hj ih ⊢
      tauto

theorem insertAt_subset (i : Fin N) (position : Nat) (l : List (Fin N)) : insertAt i position l ⊆ i :: l := by
  rw [insertAt]
  split
  · intro j hj
    rcases mem_cons.mp hj with rfl | hj
    · exact mem_cons_self
    · exact mem_cons_of_mem _ (mem_of_mem_erase hj)
  · exact insertWalk_subset i l position

/-! ### The three outcomes -/

/-- What `handle_lists` does to a pool and its list for a new entry `ch`. -/
inductive Handled (p : Pool N Chb) (l : List (Fin N)) (ch : Chb) :
    Pool N Chb × List (Fin N) → Prop
  | same : Handled p l ch (p, l)
  | insert {position} : 1 ≤ position → position ≤ l.length + 1 →
      Handled p l ch (allocInsert p l ch position)
  | replace {position} : 1 ≤ position → position ≤ l.length →
      Handled p l ch (allocInsert (chopFree p l).1 (chopFree p l).2 ch position)

/-- A position from 1 up to the end of the list, or right behind it. -/
def Place.Within (len : Nat) : Place → Prop
  | .present => True
  | .before position => 1 ≤ position ∧ position ≤ len
  | .behind position => 1 ≤ position ∧ position ≤ len + 1

theorem findPlace_within (p : Pool N Chb) (addr : UInt16) (degree : UInt8) :
    ∀ (l : List (Fin N)) (k : Nat), (findPlace p addr degree l (k + 1)).Within (k + l.length)
  | [], k => ⟨Nat.succ_pos k, le_refl _⟩
  | i :: l, k => by
    rw [findPlace]
    by_cases haddr : (p.mem i).addr = addr
    · rw [if_pos haddr]; trivial
    · rw [if_neg haddr]
      split
      · exact ⟨Nat.succ_pos k, by rw [length_cons]; omega⟩
      · have ih := findPlace_within p addr degree l (k + 1)
        rwa [length_cons, add_comm l.length 1, ← add_assoc]

/-- `handle_lists` on one list: the outcome, and the role. Only a first entry changes it, to a
    commoner, and only where `flip` says so. -/
structure HandledOn (flip : Bool) (mk : Role → Chb) (role : Role) (p : Pool N Chb)
    (l : List (Fin N)) (r : Bool × Role × Pool N Chb × List (Fin N)) : Prop where
  lists : Handled p l (mk r.2.1) r.2.2
  stays : l ≠ [] ∨ flip = false → r.2.1 = role
  keeps : r.2.1 = role ∨ r.2.1 = .cm
  first : l = [] → flip = true → r.2.1 = .cm ∨ p.freeBlock = none ∧ r.2.2.2 = []

theorem handleOn_spec (flip : Bool) (mk : Role → Chb) (addr : UInt16) (degree : UInt8) (role : Role) (p : Pool N Chb)
    (l : List (Fin N)) : HandledOn flip mk role p l (handleOn flip mk addr degree role p l) := by
  rw [handleOn]
  split
  next hlen =>
    have hnil : l = [] := eq_nil_of_length_eq_zero hlen
    subst hnil
    rw [Pool.alloc]
    cases hfree : p.freeBlock with
    | none => exact ⟨.same, fun _ => rfl, .inl rfl, fun _ _ => .inr ⟨hfree, rfl⟩⟩
    | some i =>
      have hins : ∀ ch, Handled p [] ch ((p.take i).modify i fun _ => ch, listPush i []) := by
        intro ch
        have h : Handled p [] ch (allocInsert p [] ch 1) := .insert (le_refl 1) (by simp)
        rw [allocInsert, Pool.alloc, hfree] at h
        exact h
      cases flip with
      | true => exact ⟨hins _, fun h => by simp at h, .inr rfl, fun _ _ => .inl rfl⟩
      | false => exact ⟨hins _, fun _ => rfl, .inl rfl, fun _ h => by simp at h⟩
  next hlen =>
    have hne : l ≠ [] := fun h => hlen (by rw [h]; rfl)
    have hb := findPlace_within p addr degree l 0
    rw [zero_add, zero_add] at hb
    have hrest : ∀ r, Handled p l (mk role) r → HandledOn flip mk role p l (true, role, r) :=
      fun r hr => ⟨hr, fun _ => rfl, .inl rfl, fun h => absurd h hne⟩
    split
    · exact hrest _ .same
    next position hpos =>
      rw [hpos] at hb
      split
      · exact hrest _ (.insert hb.1 (hb.2.trans (by omega)))
      · split
        · exact hrest _ (.replace hb.1 hb.2)
        · exact hrest _ .same
    next position hpos =>
      rw [hpos] at hb
      split
      · exact hrest _ (.insert hb.1 (hb.2.trans (by omega)))
      · exact hrest _ .same

/-! ### Conservation -/

theorem owns_allocInsert (h : p.Owns l) (ch : Chb) {position : Nat} (h1 : 1 ≤ position) (hle : position ≤ l.length +
    1) : (allocInsert p l ch position).1.Owns (allocInsert p l ch position).2 := by
  rw [allocInsert, Pool.alloc]
  cases hfree : p.freeBlock with
  | none => exact h
  | some i =>
    have hperm := insertAt_perm (h.not_mem_of_free hfree) h1 hle
    exact (h.take_insert hfree hperm).modify i fun _ => ch

theorem owns_chopFree (h : p.Owns l) : (chopFree p l).1.Owns (chopFree p l).2 := by
  rw [chopFree]
  cases hlast : l.getLast? with
  | none => exact h
  | some i =>
    refine h.free_erase ?_
    have hl := dropLast_append_getLast? i (by rw [hlast]; rfl)
    nth_rewrite 1 [← hl]
    exact perm_append_singleton i l.dropLast

theorem length_chopFree (p : Pool N Chb) (l : List (Fin N)) : l.length ≤ (chopFree p l).2.length + 1 := by
  rw [chopFree]
  cases l.getLast? with
  | none => exact Nat.le_succ _
  | some i =>
    rw [length_dropLast]
    omega

theorem Handled.owns (hr : Handled p l ch r) (h : p.Owns l) : r.1.Owns r.2 := by
  cases hr with
  | same => exact h
  | insert h1 hle => exact owns_allocInsert h ch h1 hle
  | replace h1 hle =>
    exact owns_allocInsert (owns_chopFree h) ch h1 (hle.trans (length_chopFree p l))

theorem count_foldl_modify (f : Chb → Chb) : ∀ (l : List (Fin N)) (p : Pool N Chb),
    (l.foldl (fun p i => p.modify i f) p).count = p.count
  | [], _ => rfl
  | i :: l, p => by
    rw [foldl_cons, count_foldl_modify f l]
    rfl

/-- Changing entries in place keeps conservation. -/
theorem owns_mapChs {cl : Cluster} (f : Chb → Chb) (h : cl.chsMemb.Owns cl.chs) :
    (mapChs f cl).chsMemb.Owns (mapChs f cl).chs := by
  refine ⟨h.nodup, fun i => ?_⟩
  rw [mapChs, count_foldl_modify]
  exact h.count_eq i

theorem owns_collectHeads : ∀ (bridges : List Chb) (p : Pool numChMax Chb) (l : List (Fin numChMax)), p.Owns l →
    (collectHeads bridges p l).2.1.Owns (collectHeads bridges p l).2.2
  | [], _, _, h => h
  | cb :: rest, p, l, h => by
    rw [collectHeads]
    split
    · exact owns_collectHeads rest _ l (h.modify _ _)
    · rw [Pool.alloc]
      cases hfree : p.freeBlock with
      | none => exact h
      | some i =>
        have hi := h.not_mem_of_free hfree
        refine owns_collectHeads rest _ _ ((h.take_insert hfree ?_).modify i _)
        rw [listPush, erase_of_not_mem hi]

theorem owns_initConsensusConvergence (cl : Cluster) :
    (initConsensusConvergence cl).2.chsMemb.Owns (initConsensusConvergence cl).2.chs :=
  owns_collectHeads _ _ _ (Pool.owns_init _)

theorem owns_blacklistAdd {cl : Cluster} (h : cl.blMemb.Owns cl.blacklist) (addr : UInt16) (hfree :
    cl.blMemb.freeBlock ≠ none) : (blacklistAdd addr cl).blMemb.Owns (blacklistAdd addr cl).blacklist := by
  obtain ⟨i, hi⟩ := Option.ne_none_iff_exists'.mp hfree
  have hlink : ((cl.blMemb.take i).modify i fun _ => addr).Owns (listPush i cl.blacklist) := by
    rw [listPush, erase_of_not_mem (h.not_mem_of_free hi)]
    exact (h.take_insert hi (List.Perm.refl _)).modify i _
  rw [blacklistAdd, Pool.alloc, hi]
  exact hlink

/-! ### Properties of all entries -/

theorem all_allocInsert (h : ∀ i ∈ l, P (p.mem i)) (hch : P ch) (position : Nat) :
    ∀ i ∈ (allocInsert p l ch position).2, P ((allocInsert p l ch position).1.mem i) := by
  rw [allocInsert, Pool.alloc]
  cases hfree : p.freeBlock with
  | none => exact h
  | some i =>
    intro j hj
    by_cases hji : j = i
    · subst hji
      simpa [Pool.modify] using hch
    · have hmem := (mem_cons.mp (insertAt_subset i position l hj)).resolve_left hji
      simpa [Pool.modify, hji] using h j hmem

theorem all_chopFree (h : ∀ i ∈ l, P (p.mem i)) : ∀ i ∈ (chopFree p l).2, P ((chopFree p l).1.mem i) := by
  rw [chopFree]
  cases l.getLast? with
  | none => exact h
  | some i => exact fun j hj => h j (mem_of_mem_dropLast hj)

/-- What all entries have and the new one has, all entries have behind the call. -/
theorem Handled.all (hr : Handled p l ch r) (hch : P ch) (h : ∀ i ∈ l, P (p.mem i)) : ∀ i ∈ r.2, P (r.1.mem i) := by
  cases hr with
  | same => exact h
  | insert => exact all_allocInsert h hch _
  | replace => exact all_allocInsert (all_chopFree h) hch _

def NoSlots (p : Pool N Chb) (l : List (Fin N)) : Prop := ∀ i ∈ l, (p.mem i).consSlot = 0

theorem Handled.noSlots (hr : Handled p l ch r) (hch : ch.consSlot = 0) (h : NoSlots p l) : NoSlots r.1 r.2 :=
  hr.all (P := fun ch => ch.consSlot = 0) hch h

theorem insertWalk_ne_nil (i : Fin N) (position : Nat) (h : l ≠ []) : insertWalk i position l ≠ [] := by
  cases l with
  | nil => exact absurd rfl h
  | cons x xs =>
    rw [insertWalk]
    split <;> exact cons_ne_nil _ _

theorem allocInsert_ne_nil (p : Pool N Chb) (ch : Chb) (position : Nat)
    (h : l ≠ []) : (allocInsert p l ch position).2 ≠ [] := by
  rw [allocInsert]
  split
  · exact h
  · dsimp only
    rw [insertAt]
    split
    · exact cons_ne_nil _ _
    · exact insertWalk_ne_nil _ _ h

/-- `handle_lists` never empties a list: a full list of four that loses its last entry keeps three. -/
theorem handleOn_ne_nil (flip : Bool) (mk : Role → Chb) (addr : UInt16) (degree : UInt8) (role : Role)
    (p : Pool N Chb) (h : l ≠ []) : (handleOn flip mk addr degree role p l).2.2.2 ≠ [] := by
  rw [handleOn, if_neg fun hlen => h (eq_nil_of_length_eq_zero hlen)]
  split
  · exact h
  · split
    · exact allocInsert_ne_nil p _ _ h
    · split
      next hfull =>
        refine allocInsert_ne_nil _ _ _ (ne_nil_of_length_pos ?_)
        have hchop := length_chopFree p l
        rw [hfull, numChMax] at hchop
        omega
      · exact h
  · split
    · exact allocInsert_ne_nil p _ _ h
    · exact h

/-- `handle_lists` makes a commoner only with its first entry. -/
theorem handleOn_headed (flip : Bool) (mk : Role → Chb) (addr : UInt16) (degree : UInt8) (role : Role)
    (p : Pool N Chb) (h : role = .cm → l ≠ []) (hcm : (handleOn flip mk addr degree role p l).2.1 = .cm) :
    (handleOn flip mk addr degree role p l).2.2.2 ≠ [] := by
  by_cases hnil : l = []
  · subst hnil
    rw [handleOn] at hcm ⊢
    rw [if_pos length_nil] at hcm ⊢
    split
    next halloc =>
      rw [halloc] at hcm
      exact h hcm
    · exact cons_ne_nil _ _
  · exact handleOn_ne_nil flip mk addr degree role p hnil

/-- What `handle_lists` can change in a cluster: `CHs_list` in the election and the convergence,
    `CBs_list` in the connection declaration, nothing elsewhere. -/
inductive HandledIn (cl : Cluster) (mk : Role → Chb) : St → Cluster → Prop
  | heads {st r} : st = .electionDeclaration ∨ st = .consensusConvergence →
      HandledOn true mk cl.role cl.chsMemb cl.chs r →
      HandledIn cl mk st { cl with role := r.2.1, chsMemb := r.2.2.1, chs := r.2.2.2 }
  | bridges {st r} : st = .connectionDeclaration →
      HandledOn false mk cl.role cl.cbsMemb cl.cbs r →
      HandledIn cl mk st { cl with role := r.2.1, cbsMemb := r.2.2.1, cbs := r.2.2.2 }
  | none {st} : HandledIn cl mk st cl

theorem handleLists_spec (cl : Cluster) (st : St) (a : UInt16) (d : UInt8) (value : AnnouncementValue R) (n :
    Neighbour R) : HandledIn cl (fun role => newChb role a d value n) st (handleLists cl st a d value n).2 := by
  cases st
  case electionDeclaration => exact .heads (.inl rfl) (handleOn_spec _ _ _ _ _ _ _)
  case consensusConvergence => exact .heads (.inr rfl) (handleOn_spec _ _ _ _ _ _ _)
  case connectionDeclaration => exact .bridges rfl (handleOn_spec _ _ _ _ _ _ _)
  all_goals exact .none

theorem handleLists_role (cl : Cluster) (st : St) (a : UInt16) (d : UInt8)
    (value : AnnouncementValue R) (n : Neighbour R) :
    (handleLists cl st a d value n).2.role = cl.role ∨ (handleLists cl st a d value n).2.role = .cm := by
  have h := handleLists_spec cl st a d value n
  generalize (handleLists cl st a d value n).2 = cl' at h
  cases h with
  | heads _ hr => exact hr.keeps
  | bridges _ hr => exact hr.keeps
  | none => exact .inl rfl

end CSync
