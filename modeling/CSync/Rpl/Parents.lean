import CSync.Rpl.DagSteps

/-! The preferred parents of a node.

    A DAG points at a live parent of its own, and in the joined DAG the rank grows from the parent to the node. A DIO
    with which the node joins is not checked, a DAG that is not joined keeps its pointer when the parent goes, and a
    global repair takes a parent away from another DAG. Elsewhere the pointers and the ranks stay sound; while a
    function works on one parent, this parent is left out. -/

namespace CSync.RplDag

variable {c : Config}

/-- What the preferred parents are to be after every event. -/
def Sound (s : State c) : Prop :=
  ∀ d, (s.dag d).used = true → ∀ p, (s.dag d).preferredParent = some p →
    s.used p = true ∧ (s.parent p).dag = d ∧
      ((s.dag d).joined = true → s.rootRank ≤ (s.parent p).rank ∧ (s.parent p).rank < (s.dag d).rank)

/-- The rank grows over a link with this metric: the rank increase is not zero, in 16 bits. -/
def Rises (inc metric : UInt16) : Of → Prop
  | .mrhof => inc ≠ 0 ∨ metric ≠ 0
  | .of0 => UInt16.ofInt ((((3 * metric.toNat / 128 : Nat) : Int) - 2) * inc.toNat) ≠ 0

/-- The preferred parent of a DAG that is not joined. -/
def Dangles (s : State c) (p : c.Nbr) : Prop :=
  s.used p = true ∧ (s.dag (s.parent p).dag).joined = false ∧ (s.dag (s.parent p).dag).preferredParent = some p

/-- The link metric of the sender of a DIO, which is not known yet for a neighbor that comes in place of another. -/
def senderMetric (s : State c) (src : c.Nbr) (cached : Cached) : UInt16 :=
  if cached = .replaced then 0xffff else linkMetric s src

/-- The sender of a DIO is looked up in the neighbor cache. -/
def ReachesCache (s : State c) (dio : Dio) : Prop :=
  dio.mop = c.mopDefault ∧ match getDag dio s with
    | none => s.inst.instanceId ≠ dio.instanceId ∨ 1 < c.maxDags
    | some d => lollipopGreaterThan dio.version (s.dag d).version = false ∧
        ¬(lollipopGreaterThan (s.dag d).version dio.version = true ∧ (s.dag d).joined = true) ∧ s.rootRank ≤ dio.rank

/-- A DIO, for a node that has joined. -/
structure HeardOk (s : State c) (src : c.Nbr) (cached : Cached) (dio : Dio) : Prop where
  replaced : cached = .replaced → ¬Dangles s src
  rises : s.inst.instanceId = dio.instanceId → Rises s.inst.minHoprankinc (senderMetric s src cached) s.inst.of

/-- A DIO that repairs a DAG globally. -/
structure RepairOk (s : State c) (src : c.Nbr) (cached : Cached) (d : c.DagIdx) : Prop where
  joined : (s.dag d).joined = true ∨ (s.dag d).preferredParent = none
  others : cached = .known → ∀ e, (s.dag e).used = true → e ≠ d → (s.dag e).preferredParent ≠ some src
  rises : cached = .known → Rises s.inst.minHoprankinc (linkMetric s src) s.inst.of

/-- A DIO with which the node joins has a rank between `ROOT_RANK` and `INFINITE_RANK`, the rank grows over the links
    of parents, no parent goes that a DAG still points at; and there are only DIOs, changes to neighbors and links,
    repairs and timers. -/
def ParentsOk (s : State c) : Event c → Prop
  | .dio src cached dio =>
    (Joins s cached dio → ∀ of ∈ c.findOf dio.ocp, dio.dagMinHoprankinc ≤ dio.rank ∧ dio.rank ≠ infiniteRank ∧
      Rises dio.dagMinHoprankinc (senderMetric s src cached) of) ∧
    (s.inst.used = true → ReachesCache s dio → cached ≠ .full → HeardOk s src cached dio) ∧
    ∀ d, Repairs s dio d → RepairOk s src cached d
  | .removeNeighbor p => ¬Dangles s p
  | .linkStats p etx _ _ => s.used p = true → Rises s.inst.minHoprankinc (etx.getD 0xffff) s.inst.of
  | .dao _ | .neighborState .. | .purgeDags => False
  | .recalculateRanks | .localRepair | .resetDioTimer | .dioTimer _ | .daoTimer .. | .scheduleDao _ | .setMode _ => True

variable {s : State c}

/-! ### Objective functions -/

theorem lt_saturated {rank increase : Nat} (hrank : rank < 0xffff) (hpos : 0 < increase) :
    rank < (UInt16.ofNat (min (rank + increase) 0xffff)).toNat := by
  have hle : min (rank + increase) 0xffff < UInt16.size := Nat.lt_succ_of_le (min_le_right _ _)
  rw [UInt16.toNat_ofNat_of_lt' hle]
  omega

theorem toNat_lt_infinite {rank : UInt16} (h : rank ≠ infiniteRank) : rank.toNat < 0xffff := by
  have hlt := rank.toNat_lt
  have hne : rank.toNat ≠ 0xffff := fun heq => h (UInt16.toNat_inj.mp heq)
  omega

theorem toNat_pos {x : UInt16} (h : x ≠ 0) : 0 < x.toNat := Nat.pos_of_ne_zero fun heq => h (UInt16.toNat_inj.mp heq)

variable {p : c.Nbr} {d : c.DagIdx}

theorem rank_lt_rankViaParent (hrises : Rises s.inst.minHoprankinc (linkMetric s p) s.inst.of)
    (hrank : (s.parent p).rank ≠ infiniteRank) : (s.parent p).rank < rankViaParent s (some p) := by
  have hlt := toNat_lt_infinite hrank
  rw [rankViaParent, UInt16.lt_iff_toNat_lt]
  cases hof : s.inst.of with
  | mrhof =>
    rw [hof] at hrises
    have hmax : ∀ a b : UInt16, (s.parent p).rank.toNat < a.toNat ∨ (s.parent p).rank.toNat < b.toNat →
        (s.parent p).rank.toNat < (max a b).toNat := by
      intro a b h
      have heq : max a b = if a ≤ b then b else a := rfl
      rw [heq]
      split
      next hab =>
        rw [UInt16.le_iff_toNat_le] at hab
        omega
      next hab =>
        rw [UInt16.le_iff_toNat_le] at hab
        omega
    refine hmax _ _ ?_
    rcases hrises with hinc | hmetric
    · exact .inl (lt_saturated hlt (toNat_pos hinc))
    · exact .inr (lt_saturated hlt (toNat_pos hmetric))
  | of0 =>
    rw [hof] at hrises
    exact lt_saturated hlt (toNat_pos hrises)

theorem Of.betterParent_eq (of : Of) (s : State c) (p₁ p₂ : c.Nbr) :
    of.betterParent s p₁ p₂ = p₁ ∨ of.betterParent s p₁ p₂ = p₂ := by
  have hpreferred : ∀ preferred : Option c.Nbr, some p₁ = preferred ∨ some p₂ = preferred →
      preferred.getD p₁ = p₁ ∨ preferred.getD p₁ = p₂ := by
    rintro preferred (rfl | rfl)
    · exact .inl rfl
    · exact .inr rfl
  cases of with
  | mrhof =>
    rw [Of.betterParent]
    split
    next h => exact hpreferred _ h.1
    · split
      · exact .inl rfl
      · exact .inr rfl
  | of0 =>
    rw [Of.betterParent]
    split
    · split
      · exact .inl rfl
      · exact .inr rfl
    · split
      next h => exact hpreferred _ h
      · split
        · exact .inl rfl
        · exact .inr rfl

theorem mem_of_foldl_bestParent (of : Of) (s : State c) (l : List c.Nbr) (best : Option c.Nbr) (p : c.Nbr)
    (h : l.foldl (fun best p => of.bestParent s best p) best = some p) : p ∈ l ∨ best = some p := by
  induction l generalizing best with
  | nil => exact .inr h
  | cons q l ih =>
    rw [List.foldl_cons] at h
    rcases ih _ h with hmem | hbest
    · exact .inl (List.mem_cons_of_mem q hmem)
    · have hcases : p = q ∨ best = some p := by
        rw [Of.bestParent.eq_def] at hbest
        split at hbest
        · split at hbest
          · cases hbest
            exact .inl rfl
          · cases hbest
        next b =>
          split at hbest
          · split at hbest
            · cases hbest
              exact .inl rfl
            · cases hbest
          · split at hbest
            · cases hbest
              exact .inr rfl
            · cases hbest
              rcases of.betterParent_eq s b q with heq | heq
              · rw [heq]
                exact .inr rfl
              · exact .inl heq
      rcases hcases with rfl | hbest
      · exact .inl List.mem_cons_self
      · exact .inr hbest

theorem candidate_of_chooseParent (h : chooseParent d s = some p) :
    s.used p = true ∧ (s.parent p).dag = d ∧ (s.parent p).rank ≠ infiniteRank ∧ s.rootRank ≤ (s.parent p).rank := by
  have hcandidate : ∀ {fresh : Bool}, bestParent d fresh s = some p → candidate d fresh s p = true := by
    intro fresh hbest
    rcases mem_of_foldl_bestParent _ s _ none p hbest with hmem | hnone
    · exact (List.mem_filter.mp hmem).2
    · cases hnone
  have hparts : ∀ {fresh : Bool}, candidate d fresh s p = true → s.used p = true ∧ (s.parent p).dag = d ∧
      (s.parent p).rank ≠ infiniteRank ∧ s.rootRank ≤ (s.parent p).rank := by
    intro fresh hcand
    rw [candidate] at hcand
    simp only [Bool.and_eq_true, decide_eq_true_eq] at hcand
    obtain ⟨⟨⟨⟨⟨hused, hdag⟩, hne⟩, hle⟩, _⟩, _⟩ := hcand
    exact ⟨hused, hdag, hne, hle⟩
  rw [chooseParent] at h
  split at h
  · cases h
  next best hbest =>
    split at h
    · split at h
      · cases h
        exact hparts (hcandidate hbest)
      next hfresh =>
        cases h
        exact hparts (hcandidate hfresh)
    · cases h
      exact hparts (hcandidate hbest)

/-! ### Invariant -/

/-- INVARIANT: the pointers. -/
structure Linked (s : State c) : Prop where
  inst : s.inst.used = true
  keys : ∀ p, s.used p = true → p ∈ s.keys
  live : ∀ d p, (s.dag d).used = true → (s.dag d).preferredParent = some p → s.used p = true ∧ (s.parent p).dag = d
  parents : ∀ p, s.used p = true → (s.dag (s.parent p).dag).used = true
  current : s.current.used = true
  joined : ∀ d, (s.dag d).joined = true ↔ d = s.inst.currentDag
  rises : ∀ p, s.used p = true → Rises s.inst.minHoprankinc (linkMetric s p) s.inst.of
  rootRank : s.rootRank ≠ infiniteRank

/-- INVARIANT: the ranks, but for a parent `x` that is being worked on. -/
structure Ranked (x : Option c.Nbr) (s : State c) : Prop where
  current : ∀ p, s.current.preferredParent = some p → some p ≠ x →
    s.rootRank ≤ (s.parent p).rank ∧ (s.parent p).rank < s.current.rank
  others : ∀ d p, (s.dag d).used = true → (s.dag d).preferredParent = some p → some p ≠ x →
    (s.parent p).rank = infiniteRank ∨ s.rootRank ≤ (s.parent p).rank
  notRoot : s.current.rank = s.rootRank →
    s.current.preferredParent = none ∧ ∃ p, x = some p ∧ (s.parent p).dag = s.inst.currentDag

structure Inv (x : Option c.Nbr) (s : State c) : Prop where
  linked : Linked s
  ranked : Ranked x s

theorem Inv.sound (h : Inv none s) : Sound s := by
  intro d hused p hp
  obtain ⟨hlive, hdag⟩ := h.linked.live d p hused hp
  refine ⟨hlive, hdag, fun hjoined => ?_⟩
  cases (h.linked.joined d).mp hjoined
  exact h.ranked.current p hp (Option.some_ne_none p)

theorem Linked.lt (h : Linked s) (hused : s.used p = true) (hrank : (s.parent p).rank ≠ infiniteRank) :
    (s.parent p).rank < rankViaParent s (some p) := rank_lt_rankViaParent (h.rises p hused) hrank

theorem ne_of_rootRank_le {a b r : UInt16} (h : r ≤ a) (hlt : a < b) : b ≠ r := by
  rintro rfl
  exact UInt16.not_le.mpr hlt h

/-! ### Changes -/

/-- The two states have the same parents and DAGs, but for what no rank depends on. -/
structure SameTree (s t : State c) : Prop where
  inst : t.inst.used = s.inst.used
  currentDag : t.inst.currentDag = s.inst.currentDag
  minHoprankinc : t.inst.minHoprankinc = s.inst.minHoprankinc
  of : t.inst.of = s.inst.of
  keys : t.keys = s.keys
  used : t.used = s.used
  etx : t.etx = s.etx
  parent : ∀ p, (t.parent p).dag = (s.parent p).dag ∧ (t.parent p).rank = (s.parent p).rank
  dag : ∀ d, (t.dag d).used = (s.dag d).used ∧ (t.dag d).joined = (s.dag d).joined ∧
    (t.dag d).preferredParent = (s.dag d).preferredParent ∧ (t.dag d).rank = (s.dag d).rank

theorem SameTree.refl (s : State c) : SameTree s s :=
  ⟨rfl, rfl, rfl, rfl, rfl, rfl, rfl, fun _ => ⟨rfl, rfl⟩, fun _ => ⟨rfl, rfl, rfl, rfl⟩⟩

theorem SameTree.trans {t u : State c} (h : SameTree s t) (h' : SameTree t u) : SameTree s u where
  inst := h'.inst.trans h.inst
  currentDag := h'.currentDag.trans h.currentDag
  minHoprankinc := h'.minHoprankinc.trans h.minHoprankinc
  of := h'.of.trans h.of
  keys := h'.keys.trans h.keys
  used := h'.used.trans h.used
  etx := h'.etx.trans h.etx
  parent p := ⟨(h'.parent p).1.trans (h.parent p).1, (h'.parent p).2.trans (h.parent p).2⟩
  dag d := ⟨(h'.dag d).1.trans (h.dag d).1, (h'.dag d).2.1.trans (h.dag d).2.1,
    (h'.dag d).2.2.1.trans (h.dag d).2.2.1, (h'.dag d).2.2.2.trans (h.dag d).2.2.2⟩

theorem SameTree.inv {t : State c} (hsame : SameTree s t) {x : Option c.Nbr} (h : Inv x s) : Inv x t := by
  have hcur : t.current.used = s.current.used ∧ t.current.joined = s.current.joined ∧
      t.current.preferredParent = s.current.preferredParent ∧ t.current.rank = s.current.rank := by
    rw [State.current, hsame.currentDag]
    exact hsame.dag _
  have hroot : t.rootRank = s.rootRank := hsame.minHoprankinc
  constructor
  · constructor
    · rw [hsame.inst]
      exact h.linked.inst
    · rw [hsame.used, hsame.keys]
      exact h.linked.keys
    · intro d p hd hp
      rw [(hsame.dag d).1] at hd
      rw [(hsame.dag d).2.2.1] at hp
      rw [hsame.used, (hsame.parent p).1]
      exact h.linked.live d p hd hp
    · intro p hp
      rw [hsame.used] at hp
      rw [(hsame.parent p).1, (hsame.dag _).1]
      exact h.linked.parents p hp
    · rw [hcur.1]
      exact h.linked.current
    · intro d
      rw [(hsame.dag d).2.1, hsame.currentDag]
      exact h.linked.joined d
    · intro p hp
      rw [hsame.used] at hp
      rw [hsame.minHoprankinc, hsame.of, linkMetric, hsame.etx]
      exact h.linked.rises p hp
    · rw [hroot]
      exact h.linked.rootRank
  · constructor
    · intro p hp hx
      rw [hcur.2.2.1] at hp
      rw [hroot, (hsame.parent p).2, hcur.2.2.2]
      exact h.ranked.current p hp hx
    · intro d p hd hp hx
      rw [(hsame.dag d).1] at hd
      rw [(hsame.dag d).2.2.1] at hp
      rw [hroot, (hsame.parent p).2]
      exact h.ranked.others d p hd hp hx
    · intro hrank
      rw [hcur.2.2.2, hroot] at hrank
      obtain ⟨hnone, p, hx, hp⟩ := h.ranked.notRoot hrank
      refine ⟨hcur.2.2.1.trans hnone, p, hx, ?_⟩
      rw [(hsame.parent p).1, hsame.currentDag]
      exact hp

theorem dag_modifyDag_self (s : State c) (d : c.DagIdx) (f : Dag c → Dag c) :
    (s.modifyDag d f).dag d = f (s.dag d) := Function.update_self ..

theorem dag_modifyDag_of_ne (s : State c) {e : c.DagIdx} (f : Dag c → Dag c) (h : e ≠ d) :
    (s.modifyDag d f).dag e = s.dag e := Function.update_of_ne h ..

theorem parent_modifyParent_self (s : State c) (p : c.Nbr) (f : Parent c → Parent c) :
    (s.modifyParent p f).parent p = f (s.parent p) := Function.update_self ..

theorem parent_modifyParent_of_ne (s : State c) {q : c.Nbr} (f : Parent c → Parent c) (h : q ≠ p) :
    (s.modifyParent p f).parent q = s.parent q := Function.update_of_ne h ..

theorem sameTree_modifyDag (d : c.DagIdx) (f : Dag c → Dag c)
    (hf : ∀ dag, (f dag).used = dag.used ∧ (f dag).joined = dag.joined ∧
      (f dag).preferredParent = dag.preferredParent ∧ (f dag).rank = dag.rank) : SameTree s (s.modifyDag d f) := by
  refine ⟨rfl, rfl, rfl, rfl, rfl, rfl, rfl, fun _ => ⟨rfl, rfl⟩, fun e => ?_⟩
  by_cases he : e = d
  · rw [he, dag_modifyDag_self]
    exact hf _
  · rw [dag_modifyDag_of_ne s f he]
    exact ⟨rfl, rfl, rfl, rfl⟩

theorem sameTree_modifyParent (p : c.Nbr) (f : Parent c → Parent c) (hf : ∀ parent, (f parent).dag = parent.dag ∧ (f
    parent).rank = parent.rank) : SameTree s (s.modifyParent p f) := by
  refine ⟨rfl, rfl, rfl, rfl, rfl, rfl, rfl, fun q => ?_, fun _ => ⟨rfl, rfl, rfl, rfl⟩⟩
  by_cases hq : q = p
  · rw [hq, parent_modifyParent_self]
    exact hf _
  · rw [parent_modifyParent_of_ne s f hq]
    exact ⟨rfl, rfl⟩

theorem Linked.put (h : Linked s) (d : c.DagIdx) (f : Dag c → Dag c) (hused : (f (s.dag d)).used = (s.dag d).used)
    (hjoined : (f (s.dag d)).joined = (s.dag d).joined)
    (hlive : ∀ p, (f (s.dag d)).preferredParent = some p → s.used p = true ∧ (s.parent p).dag = d) :
    Linked (s.modifyDag d f) := by
  have hself := dag_modifyDag_self s d f
  have hne : ∀ {e}, e ≠ d → (s.modifyDag d f).dag e = s.dag e := fun he => dag_modifyDag_of_ne s f he
  constructor
  · exact h.inst
  · exact h.keys
  · intro e p he hp
    by_cases hd : e = d
    · rw [hd, hself] at hp
      rw [hd]
      exact hlive p hp
    · rw [hne hd] at he hp
      exact h.live e p he hp
  · intro p hp
    have hparent := h.parents p hp
    change ((s.modifyDag d f).dag (s.parent p).dag).used = true
    by_cases hd : (s.parent p).dag = d
    · rw [hd] at hparent ⊢
      rw [hself, hused, hparent]
    · rw [hne hd, hparent]
  · change ((s.modifyDag d f).dag s.inst.currentDag).used = true
    by_cases hd : s.inst.currentDag = d
    · rw [hd, hself, hused, ← hd]
      exact h.current
    · rw [hne hd]
      exact h.current
  · intro e
    change ((s.modifyDag d f).dag e).joined = true ↔ e = s.inst.currentDag
    rw [← h.joined e]
    by_cases hd : e = d
    · rw [hd, hself, hjoined]
    · rw [hne hd]
  · exact h.rises
  · exact h.rootRank

theorem Inv.put {x x' : Option c.Nbr} (h : Inv x s) (d : c.DagIdx) (f : Dag c → Dag c)
    (hused : (f (s.dag d)).used = (s.dag d).used) (hjoined : (f (s.dag d)).joined = (s.dag d).joined)
    (hlive : ∀ p, (f (s.dag d)).preferredParent = some p → s.used p = true ∧ (s.parent p).dag = d)
    (hcurrent : d = s.inst.currentDag →
        ∀ p, (f (s.dag d)).preferredParent = some p → some p ≠ x' →
          s.rootRank ≤ (s.parent p).rank ∧ (s.parent p).rank < (f (s.dag d)).rank)
    (hother : ∀ p, (f (s.dag d)).preferredParent = some p → some p ≠ x' →
        (s.parent p).rank = infiniteRank ∨ s.rootRank ≤ (s.parent p).rank)
    (hroot : d = s.inst.currentDag → (f (s.dag d)).rank = s.rootRank →
        (f (s.dag d)).preferredParent = none ∧ ∃ p, x' = some p ∧ (s.parent p).dag = s.inst.currentDag)
    (hrest : ∀ e p, e ≠ d → (s.dag e).used = true → (s.dag e).preferredParent = some p → some p = x → some p = x')
    (hroot' :
      d ≠ s.inst.currentDag → s.current.rank = s.rootRank → ∃ p, x' = some p ∧ (s.parent p).dag = s.inst.currentDag) :
    Inv x' (s.modifyDag d f) := by
  have hself := dag_modifyDag_self s d f
  have hne : ∀ {e}, e ≠ d → (s.modifyDag d f).dag e = s.dag e := fun he => dag_modifyDag_of_ne s f he
  refine ⟨h.linked.put d f hused hjoined hlive, ?_⟩
  constructor
  · intro p hp hx
    change ((s.modifyDag d f).dag s.inst.currentDag).preferredParent = some p at hp
    change s.rootRank ≤ (s.parent p).rank ∧ (s.parent p).rank < ((s.modifyDag d f).dag s.inst.currentDag).rank
    by_cases hd : s.inst.currentDag = d
    · rw [hd, hself] at hp ⊢
      exact hcurrent hd.symm p hp hx
    · rw [hne hd] at hp ⊢
      exact h.ranked.current p hp fun heq => hx (hrest _ p hd h.linked.current hp heq)
  · intro e p he hp hx
    by_cases hd : e = d
    · rw [hd, hself] at hp
      exact hother p hp hx
    · rw [hne hd] at he hp
      exact h.ranked.others e p he hp fun heq => hx (hrest e p hd he hp heq)
  · intro hrank
    change ((s.modifyDag d f).dag s.inst.currentDag).rank = s.rootRank at hrank
    change ((s.modifyDag d f).dag s.inst.currentDag).preferredParent = none ∧ _
    by_cases hd : s.inst.currentDag = d
    · rw [hd, hself] at hrank ⊢
      exact hroot hd.symm hrank
    · rw [hne hd] at hrank ⊢
      exact ⟨(h.ranked.notRoot hrank).1, hroot' (Ne.symm hd) hrank⟩

/-! ### What no rank depends on -/

theorem sameTree_op (o : Op) : SameTree s (s.op o) :=
  ⟨rfl, rfl, rfl, rfl, rfl, rfl, rfl, fun _ => ⟨rfl, rfl⟩, fun _ => ⟨rfl, rfl, rfl, rfl⟩⟩

theorem sameTree_inst (s : State c) (inst : Instance c) (hinst : inst.used = s.inst.used ∧
    inst.currentDag = s.inst.currentDag ∧ inst.minHoprankinc = s.inst.minHoprankinc ∧ inst.of = s.inst.of) :
    SameTree s { s with inst := inst } :=
  ⟨hinst.1, hinst.2.1, hinst.2.2.1, hinst.2.2.2, rfl, rfl, rfl, fun _ => ⟨rfl, rfl⟩, fun _ => ⟨rfl, rfl, rfl, rfl⟩⟩

theorem sameTree_resetDioTimer (s : State c) : SameTree s (resetDioTimer s) := by
  rw [resetDioTimer]
  split
  · exact ⟨rfl, rfl, rfl, rfl, rfl, rfl, rfl, fun _ => ⟨rfl, rfl⟩, fun _ => ⟨rfl, rfl, rfl, rfl⟩⟩
  · exact .refl s

theorem sameTree_incrementDtsn (s : State c) : SameTree s (incrementDtsn s) := sameTree_inst s _ ⟨rfl, rfl, rfl, rfl⟩

theorem sameTree_setDaoLifetimeTimer (s : State c) : SameTree s (setDaoLifetimeTimer s) := by
  rw [setDaoLifetimeTimer]
  split
  · exact .refl s
  · split
    · exact .refl s
    · exact ⟨rfl, rfl, rfl, rfl, rfl, rfl, rfl, fun _ => ⟨rfl, rfl⟩, fun _ => ⟨rfl, rfl, rfl, rfl⟩⟩

theorem sameTree_scheduleDao (delayed : Bool) (s : State c) : SameTree s (scheduleDao delayed s) := by
  rw [scheduleDao]
  split
  · exact .refl s
  · split
    · exact .refl s
    · have hdrawn : SameTree s (if delayed then (randomRand s).2 else s) := by
        split
        · exact ⟨rfl, rfl, rfl, rfl, rfl, rfl, rfl, fun _ => ⟨rfl, rfl⟩, fun _ => ⟨rfl, rfl, rfl, rfl⟩⟩
        · exact .refl s
      generalize (if delayed then (randomRand s).2 else s) = t at hdrawn ⊢
      have hset := hdrawn.trans (sameTree_inst t { t.inst with daoTimer := true } ⟨rfl, rfl, rfl, rfl⟩)
      exact hset.trans (sameTree_setDaoLifetimeTimer _)

theorem sameTree_handleDioTimer (linkLocal : Bool) (s : State c) : SameTree s (handleDioTimer linkLocal s) := by
  rw [handleDioTimer]
  split
  · exact .refl s
  · dsimp only
    split
    · exact ⟨rfl, rfl, rfl, rfl, rfl, rfl, rfl, fun _ => ⟨rfl, rfl⟩, fun _ => ⟨rfl, rfl, rfl, rfl⟩⟩
    · split
      · exact ⟨rfl, rfl, rfl, rfl, rfl, rfl, rfl, fun _ => ⟨rfl, rfl⟩, fun _ => ⟨rfl, rfl, rfl, rfl⟩⟩
      · exact ⟨rfl, rfl, rfl, rfl, rfl, rfl, rfl, fun _ => ⟨rfl, rfl⟩, fun _ => ⟨rfl, rfl, rfl, rfl⟩⟩

theorem sameTree_handleDaoTimer (linkLocal lifetime : Bool) (s : State c) :
    SameTree s (handleDaoTimer linkLocal lifetime s) := by
  have hfired : SameTree s (if lifetime then { s with inst := { s.inst with daoLifetimeTimer := false } }
      else { s with inst := { s.inst with daoTimer := false } }) := by
    split
    · exact sameTree_inst s _ ⟨rfl, rfl, rfl, rfl⟩
    · exact sameTree_inst s _ ⟨rfl, rfl, rfl, rfl⟩
  rw [handleDaoTimer]
  dsimp only
  generalize (if lifetime then { s with inst := { s.inst with daoLifetimeTimer := false } }
    else { s with inst := { s.inst with daoTimer := false } }) = t at hfired ⊢
  split
  · exact hfired.trans (sameTree_inst t _ ⟨rfl, rfl, rfl, rfl⟩)
  · have hcleared := hfired.trans (sameTree_inst t { t.inst with daoTimer := false } ⟨rfl, rfl, rfl, rfl⟩)
    split
    · exact hcleared
    · exact hcleared.trans (sameTree_setDaoLifetimeTimer _)

theorem sameTree_checkPrefix (last new : Option Prefix) (s : State c) : SameTree s (checkPrefix last new s) := by
  have hcopy : ∀ (p : Prefix) (t : State c), SameTree s t → SameTree s (setIpFromPrefix p t) :=
    fun p t ht => ht.trans (sameTree_op _)
  rw [checkPrefix.eq_def]
  split
  · exact .refl s
  · exact hcopy _ s (.refl s)
  · exact hcopy _ s (.refl s)
  · split
    · dsimp only
      split
      · exact sameTree_op _
      · exact hcopy _ _ (hcopy _ _ (sameTree_op _))
    · exact hcopy _ _ (hcopy _ _ (.refl s))

theorem sameTree_announcePrefix (d : c.DagIdx) (dio : Dio) (s : State c) : SameTree s (announcePrefix d dio s) := by
  rw [announcePrefix]
  split
  · rw [setPrefix]
    split
    · exact .refl s
    · have hset := (sameTree_op (s := s) (.copy ((dio.prefixInfo.length.toNat + 7) / 8))).trans
        (sameTree_modifyDag d (fun dag => { dag with prefixInfo := ⟨fun i =>
          if i.val < (dio.prefixInfo.length.toNat + 7) / 8 then dio.prefixInfo.prefixAddr i else 0,
          dio.prefixInfo.length, autonomous⟩ }) fun _ => ⟨rfl, rfl, rfl, rfl⟩)
      split
      · exact hset.trans (sameTree_checkPrefix _ _ _)
      · exact hset.trans (sameTree_checkPrefix _ _ _)
  · exact .refl s

theorem sameTree_refreshLifetime (d : c.DagIdx) (s : State c) : SameTree s (refreshLifetime d s) := by
  rw [refreshLifetime]
  exact (sameTree_op _).trans (sameTree_modifyDag d _ fun _ => ⟨rfl, rfl, rfl, rfl⟩)

theorem sameTree_acceptableRank (d : c.DagIdx) (rank : UInt16) (s : State c) :
    SameTree s (acceptableRank d rank s).2 := by
  rw [acceptableRank]
  split
  · exact .refl s
  · split
    · exact .refl s
    · exact (sameTree_op _).trans (sameTree_op _)

theorem rank_of_not_acceptable {rank : UInt16} (h : (acceptableRank d rank s).1 = false) :
    rank = infiniteRank ∨ s.rootRank ≤ rank := by
  rw [acceptableRank] at h
  split at h
  next hinf => exact .inl hinf
  · split at h
    · cases h
    · have hlt := of_decide_eq_false h
      refine .inr (UInt16.le_iff_toNat_le.mpr (Nat.le_of_not_lt fun hsmall => hlt ?_))
      change rank.toNat < s.inst.minHoprankinc.toNat at hsmall
      rw [Nat.div_eq_of_lt hsmall]
      exact Nat.zero_le _

end CSync.RplDag
