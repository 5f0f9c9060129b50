import CSync.Rpl.Parents

/-! The preferred parents over runs.

    Each function that touches parents keeps the invariant; `rpl_process_parent_event` restores it for the parent it is
    called for. -/

namespace CSync.RplDag
open Function Option

variable {c : Config} {s : State c}

/-! ### Parents that go -/

theorem modifyDag_modifyDag (d : c.DagIdx) (f g : Dag c → Dag c) (s : State c) :
    (s.modifyDag d f).modifyDag d g = s.modifyDag d fun dag => g (f dag) := by
  simp [State.modifyDag]

/-- A DAG without a parent that is no longer valid. -/
def nullified (p : c.Nbr) (dag : Dag c) : Dag c :=
  { dag with
    rank := infiniteRank
    preferredParent := if dag.joined = true ∧ dag.preferredParent = some p then none else dag.preferredParent }

theorem nullifyParent_eq (p : c.Nbr) (s : State c) :
    nullifyParent p s =
      if (s.dag (s.parent p).dag).preferredParent = some p ∨ (s.dag (s.parent p).dag).preferredParent = none then
        s.modifyDag (s.parent p).dag (nullified p) else s := by
  have hnullified : ∀ {dag : Dag c}, (¬(dag.joined = true ∧ dag.preferredParent = some p)) →
      { dag with rank := infiniteRank } = nullified p dag := by
    intro dag hno
    rw [nullified, if_neg hno]
  rw [nullifyParent]
  dsimp only
  refine if_congr Iff.rfl ?_ rfl
  rw [dag_modifyDag_self]
  split
  next hyes => rw [setPreferredParent, modifyDag_modifyDag, State.modifyDag, State.modifyDag, nullified, if_pos hyes]
  next hno =>
    rw [State.modifyDag, State.modifyDag, hnullified hno]
    rfl

variable {p src : c.Nbr} {x : Option c.Nbr} {t u : State c} {best d : c.DagIdx}

theorem Inv.all (h : Inv (some p) s) (hcurrent : s.current.preferredParent ≠ some p)
    (hrank : ∀ d, (s.dag d).used = true → (s.dag d).preferredParent = some p →
        (s.parent p).rank = infiniteRank ∨ s.rootRank ≤ (s.parent p).rank) (hroot : s.current.rank ≠ s.rootRank) :
    Inv none s := by
  refine ⟨h.linked, ⟨fun q hq _ => h.ranked.current q hq ?_, fun d q hd hq _ => ?_, fun hrank => absurd hrank hroot⟩⟩
  · rintro ⟨⟩
    exact hcurrent hq
  · by_cases hqp : q = p
    · rw [hqp] at hq ⊢
      exact hrank d hd hq
    · exact h.ranked.others d q hd hq fun heq => hqp (some.inj heq)

theorem Inv.nullifyParent (h : Inv x s) (hp : s.used p = true) : Inv x (nullifyParent p s) := by
  have hd := h.linked.parents p hp
  rw [nullifyParent_eq]
  split
  next hpref =>
    have hold : ∀ q, (nullified p (s.dag (s.parent p).dag)).preferredParent = some q →
        (s.dag (s.parent p).dag).preferredParent = some q ∧ (s.dag (s.parent p).dag).joined = false := by
      intro q hq
      rw [nullified] at hq
      split at hq
      · cases hq
      next hno =>
        rcases hpref with hpref | hpref
        · exact ⟨hq, Bool.eq_false_of_not_eq_true fun hj => hno ⟨hj, hpref⟩⟩
        · rw [hpref] at hq
          cases hq
    refine h.put _ _ rfl rfl (fun q hq => h.linked.live _ q hd (hold q hq).1) (fun hcur q hq => ?_)
      (fun q hq => h.ranked.others _ q hd (hold q hq).1) (fun _ hrank => ?_) (fun _ _ _ _ _ hx => hx)
      fun _ hrank => (h.ranked.notRoot hrank).2
    · have hjoined := (h.linked.joined _).mpr hcur
      rw [(hold q hq).2] at hjoined
      cases hjoined
    · exact absurd hrank.symm h.linked.rootRank
  · exact h

theorem parent_nullifyParent (p : c.Nbr) (s : State c) : (RplDag.nullifyParent p s).parent = s.parent ∧
    (RplDag.nullifyParent p s).inst = s.inst ∧ (RplDag.nullifyParent p s).used = s.used := by
  rw [nullifyParent_eq]
  split
  · exact ⟨rfl, rfl, rfl⟩
  · exact ⟨rfl, rfl, rfl⟩

/-- The DAG of a parent that is no longer valid has another parent, or has no rank; and the joined one has let go. -/
theorem dag_nullifyParent (p : c.Nbr) (s : State c) :
    let dag := (RplDag.nullifyParent p s).dag (s.parent p).dag
    (dag.preferredParent = none ∨ dag.preferredParent = some p → dag.rank = infiniteRank) ∧
      (dag.preferredParent = some p → dag.joined = false ∧ (s.dag (s.parent p).dag).joined = false ∧
        (s.dag (s.parent p).dag).preferredParent = some p) := by
  rw [nullifyParent_eq]
  split
  · rw [dag_modifyDag_self]
    refine ⟨fun _ => rfl, fun hpref => ?_⟩
    rw [nullified] at hpref ⊢
    split at hpref
    · cases hpref
    next hno =>
      have hjoined := Bool.eq_false_of_not_eq_true fun hj => hno ⟨hj, hpref⟩
      exact ⟨hjoined, hjoined, hpref⟩
  next hpref =>
    rw [not_or] at hpref
    refine ⟨fun h => ?_, fun hsome => absurd hsome hpref.1⟩
    rcases h with hnone | hsome
    · exact absurd hnone hpref.2
    · exact absurd hsome hpref.1

theorem Inv.nullifyParent_done (h : Inv (some p) s) (hp : s.used p = true) (hrank : (s.parent p).rank = infiniteRank ∨
    s.rootRank ≤ (s.parent p).rank) : Inv none (RplDag.nullifyParent p s) := by
  have hnull := h.nullifyParent hp
  obtain ⟨hparent, hinst, _⟩ := parent_nullifyParent p s
  obtain ⟨hinfinite, hjoined⟩ := dag_nullifyParent p s
  refine hnull.all (fun hpref => ?_) (fun d hd hpref => ?_) fun hroot => ?_
  · obtain ⟨_, hdag⟩ := hnull.linked.live _ p hnull.linked.current hpref
    rw [hparent] at hdag
    rw [hdag] at hjoined
    have hyes := (hnull.linked.joined _).mpr rfl
    rw [(hjoined hpref).1] at hyes
    cases hyes
  · rw [hparent, State.rootRank, hinst]
    exact hrank
  · obtain ⟨hnone, q, hq, hdag⟩ := hnull.ranked.notRoot hroot
    cases hq
    rw [hparent] at hdag
    rw [hdag] at hinfinite
    exact hnull.linked.rootRank (hroot.symm.trans (hinfinite (.inl hnone)))

theorem Inv.unuse (h : Inv x s) (hno : ∀ d, (s.dag d).used = true → (s.dag d).preferredParent ≠ some p) :
    Inv x { s with used := update s.used p false } := by
  have hused : ∀ q, update s.used p false q = true → q ≠ p ∧ s.used q = true := by
    intro q hq
    by_cases hqp : q = p
    · rw [hqp, update_self] at hq
      cases hq
    · rw [update_of_ne hqp] at hq
      exact ⟨hqp, hq⟩
  refine ⟨⟨h.linked.inst, fun q hq => h.linked.keys q (hused q hq).2, fun d q hd hq => ?_, fun q hq => h.linked.parents q (hused q hq).2, h.linked.current,
    h.linked.joined, fun q hq => h.linked.rises q (hused q hq).2, h.linked.rootRank⟩,
    ⟨h.ranked.current, h.ranked.others, h.ranked.notRoot⟩⟩
  obtain ⟨hlive, hdag⟩ := h.linked.live d q hd hq
  refine ⟨?_, hdag⟩
  change update s.used p false q = true
  rw [update_of_ne]
  · exact hlive
  · rintro rfl
    exact hno d hd hq

theorem Inv.removeParent (h : Inv x s) (hp : s.used p = true) (hok : ¬Dangles s p) : Inv x (removeParent p s) := by
  have hnull := h.nullifyParent hp
  refine hnull.unuse fun d hd hpref => hok ?_
  obtain ⟨_, hdag⟩ := hnull.linked.live d p hd hpref
  rw [(parent_nullifyParent p s).1] at hdag
  rw [← hdag] at hpref
  obtain ⟨_, hjoined, hold⟩ := (dag_nullifyParent p s).2 hpref
  exact ⟨hp, hjoined, hold⟩

theorem rankViaParent_congr (hparent : ∀ p, (t.parent p).rank = (s.parent p).rank) (hof : t.inst.of = s.inst.of)
    (hinc : t.inst.minHoprankinc = s.inst.minHoprankinc) (hetx : t.etx = s.etx) (r : Option c.Nbr) :
    rankViaParent t r = rankViaParent s r := by
  cases r with
  | none => rfl
  | some p =>
    rw [rankViaParent, rankViaParent, hof]
    cases s.inst.of with
    | mrhof => simp only [Of.rankViaParent, pathCost, linkMetric, hparent, hinc, hetx]
    | of0 => simp only [Of.rankViaParent, parentRankIncrease, stepOfRank, linkMetric, hparent, hinc, hetx]

theorem Linked.rankViaParent_ne (h : Linked s) {r : Option c.Nbr} (hr : ∀ q ∈ r, s.used q = true ∧ (s.parent q).rank ≠
    infiniteRank ∧ s.rootRank ≤ (s.parent q).rank) : rankViaParent s r ≠ s.rootRank := by
  cases r with
  | none => exact fun heq => h.rootRank heq.symm
  | some q =>
    obtain ⟨hused, hne, hle⟩ := hr q rfl
    exact ne_of_rootRank_le hle (h.lt hused hne)

theorem selectParent_eq (d : c.DagIdx) (s : State c) : selectParent d s = (chooseParent d s,
    s.modifyDag d fun dag => { dag with
      preferredParent := chooseParent d s
      rank := rankViaParent s (chooseParent d s) }) := by
  rw [selectParent]
  rw [rankViaParent_congr (s := s) (t := setPreferredParent d (chooseParent d s) s) (fun _ => rfl) rfl rfl rfl,
    setPreferredParent, modifyDag_modifyDag]

theorem Inv.selectParent (h : Inv (some p) s) (hroot : s.current.rank ≠ s.rootRank) :
    Inv none (selectParent (s.parent p).dag s).2 := by
  have hchosen : ∀ q, chooseParent (s.parent p).dag s = some q → s.used q = true ∧ (s.parent q).dag = (s.parent p).dag ∧
      (s.parent q).rank ≠ infiniteRank ∧ s.rootRank ≤ (s.parent q).rank := fun q hq => candidate_of_chooseParent hq
  rw [selectParent_eq]
  dsimp only
  refine h.put _ _ rfl rfl (fun q hq => ?_) (fun _ q hq _ => ?_) (fun q hq _ => ?_)
    (fun _ hrank => ?_) (fun e q he hused hq hx => ?_) fun _ hrank => absurd hrank hroot
  · obtain ⟨hused, hdag, _⟩ := hchosen q hq
    exact ⟨hused, hdag⟩
  · obtain ⟨hused, _, hne, hle⟩ := hchosen q hq
    refine ⟨hle, ?_⟩
    change chooseParent (s.parent p).dag s = some q at hq
    rw [hq]
    exact h.linked.lt hused hne
  · exact .inr (hchosen q hq).2.2.2
  · refine absurd hrank (h.linked.rankViaParent_ne fun q hq => ?_)
    obtain ⟨hused, _, hne, hle⟩ := hchosen q hq
    exact ⟨hused, hne, hle⟩
  · cases hx
    exact absurd (h.linked.live e p hused hq).2.symm he

/-! ### The choice of a DAG -/

/-- A DAG that the node may move to: its preferred parent has a rank, which is not below that of a root. -/
structure Chosen (best : c.DagIdx) (s : State c) : Prop where
  linked : Linked s
  used : (s.dag best).used = true
  others : ∀ d p, (s.dag d).used = true → (s.dag d).preferredParent = some p →
    (s.parent p).rank = infiniteRank ∨ s.rootRank ≤ (s.parent p).rank
  best : ∀ p, (s.dag best).preferredParent = some p →
    (s.parent p).rank ≠ infiniteRank ∧ s.rootRank ≤ (s.parent p).rank

theorem bestDag_eq (s : State c) (d e : c.DagIdx) : bestDag s d e = d ∨ bestDag s d e = e := by
  rw [bestDag]
  split
  · split
    · exact .inl rfl
    · exact .inr rfl
  · split
    · split
      · exact .inl rfl
      · exact .inr rfl
    · split
      · exact .inl rfl
      · exact .inr rfl

theorem mem_of_foldl_bestDag (s : State c) (l : List c.DagIdx) (best : Option c.DagIdx) (d : c.DagIdx)
    (h : l.foldl (fun best d => match best with
      | none => some d
      | some b => some (bestDag s b d)) best = some d) : d ∈ l ∨ best = some d := by
  induction l generalizing best with
  | nil => exact .inr h
  | cons e l ih =>
    rcases ih _ h with hmem | hbest
    · exact .inl (List.mem_cons_of_mem e hmem)
    · cases best with
      | none =>
        cases hbest
        exact .inl List.mem_cons_self
      | some b =>
        have hbest := some.inj hbest
        rcases bestDag_eq s b e with heq | heq
        · rw [heq] at hbest
          exact .inr (congrArg some hbest)
        · rw [heq] at hbest
          rw [hbest]
          exact .inl List.mem_cons_self

theorem Inv.chosen_current (h : Inv none s) : Chosen s.inst.currentDag s := by
  refine ⟨h.linked, h.linked.current, fun d p hd hp => h.ranked.others d p hd hp (some_ne_none p), fun p hp => ?_⟩
  obtain ⟨hle, hlt⟩ := h.ranked.current p hp (some_ne_none p)
  refine ⟨fun hinf => ?_, hle⟩
  rw [hinf, UInt16.lt_iff_toNat_lt] at hlt
  have hmax := s.current.rank.toNat_lt
  change 65535 < s.current.rank.toNat at hlt
  omega

theorem Inv.chosen_fallback (h : Inv none s) (hbest : fallbackDag s = some best) : Chosen best s := by
  rcases mem_of_foldl_bestDag s _ none best hbest with hmem | hnone
  · obtain ⟨_, hfilter⟩ := List.mem_filter.mp hmem
    obtain ⟨hused, hpref⟩ := Bool.and_eq_true_iff.mp hfilter
    refine ⟨h.linked, hused, fun d p hd hp => h.ranked.others d p hd hp (some_ne_none p), fun p hp => ?_⟩
    rw [hp] at hpref
    have hne : (s.parent p).rank ≠ infiniteRank := of_decide_eq_true hpref
    exact ⟨hne, (h.ranked.others best p hused hp (some_ne_none p)).resolve_left hne⟩
  · cases hnone

theorem Inv.chooseDag (h : Inv (some p) s) (hp : s.used p = true) : (∀ best ∈ (chooseDag p s).1, Chosen best
    (chooseDag p s).2) ∧ ((chooseDag p s).1 = none → Inv none (chooseDag p s).2) := by
  rw [RplDag.chooseDag]
  dsimp only
  split
  next hroot =>
    have hselect := h.selectParent hroot
    have hd := h.linked.parents p hp
    have hcandidate : ∀ q, chooseParent (s.parent p).dag s = some q → (s.parent q).rank ≠ infiniteRank ∧
        s.rootRank ≤ (s.parent q).rank := fun q hq => (candidate_of_chooseParent hq).2.2
    rw [selectParent_eq] at hselect ⊢
    have hself := dag_modifyDag_self s (s.parent p).dag fun dag => { dag with
      preferredParent := chooseParent (s.parent p).dag s
      rank := rankViaParent s (chooseParent (s.parent p).dag s) }
    generalize hchosen : chooseParent (s.parent p).dag s = chosen at hselect hcandidate hself ⊢
    cases chosen with
    | none =>
      dsimp only
      split
      · exact ⟨fun best hbest => hselect.chosen_fallback hbest, fun _ => hselect⟩
      · refine ⟨?_, by rintro ⟨⟩⟩
        rintro best ⟨⟩
        exact hselect.chosen_current
    | some q =>
      refine ⟨?_, by rintro ⟨⟩⟩
      rintro best ⟨⟩
      split
      · rcases bestDag_eq _ s.inst.currentDag (s.parent p).dag with heq | heq
        · rw [heq]
          exact hselect.chosen_current
        · rw [heq]
          refine ⟨hselect.linked, ?_, fun d r hd hr => hselect.ranked.others d r hd hr (some_ne_none r), ?_⟩
          · rw [hself]
            exact hd
          · intro r hr
            rw [hself] at hr
            cases hr
            exact hcandidate q rfl
      · exact hselect.chosen_current
  next hroot =>
    obtain ⟨hnone, r, hr, hdag⟩ := h.ranked.notRoot (not_not.mp hroot)
    cases hr
    refine ⟨?_, by rintro ⟨⟩⟩
    rintro best ⟨⟩
    refine ⟨h.linked, h.linked.current, fun d q hd hq => h.ranked.others d q hd hq ?_, fun q hq => ?_⟩
    · rintro ⟨⟩
      rw [← (h.linked.live d p hd hq).2, hdag] at hq
      cases hnone.symm.trans hq
    · cases hnone.symm.trans hq

/-- The node is in another DAG; the DAGs and the parents are the same. -/
structure Moved (best : c.DagIdx) (s u : State c) : Prop where
  inst : u.inst.used = s.inst.used
  currentDag : u.inst.currentDag = best
  minHoprankinc : u.inst.minHoprankinc = s.inst.minHoprankinc
  of : u.inst.of = s.inst.of
  keys : u.keys = s.keys
  used : u.used = s.used
  etx : u.etx = s.etx
  parent : ∀ p, (u.parent p).dag = (s.parent p).dag ∧ (u.parent p).rank = (s.parent p).rank
  dag : ∀ d, (u.dag d).used = (s.dag d).used ∧ (u.dag d).preferredParent = (s.dag d).preferredParent
  joined : ∀ d, (u.dag d).joined = true ↔ d = best

theorem Linked.switchDag (h : Linked s) (best : c.DagIdx) : Moved best s (switchDag best s) := by
  rw [RplDag.switchDag]
  split
  next hne =>
    have hcheck : SameTree s (if (s.dag best).prefixInfo.flags &&& autonomous ≠ 0 then
        checkPrefix (some s.current.prefixInfo) (some (s.dag best).prefixInfo) s
        else if s.current.prefixInfo.flags &&& autonomous ≠ 0 then checkPrefix (some s.current.prefixInfo) none s
        else s) := by
      split
      · exact sameTree_checkPrefix _ _ s
      · split
        · exact sameTree_checkPrefix _ _ s
        · exact .refl s
    dsimp only
    generalize (if (s.dag best).prefixInfo.flags &&& autonomous ≠ 0 then
        checkPrefix (some s.current.prefixInfo) (some (s.dag best).prefixInfo) s
        else if s.current.prefixInfo.flags &&& autonomous ≠ 0 then checkPrefix (some s.current.prefixInfo) none s
        else s) = t at hcheck ⊢
    have hdag : ∀ d, ((t.modifyDag best fun dag => { dag with joined := true }).modifyDag t.inst.currentDag
        fun dag => { dag with joined := false }).dag d = { t.dag d with joined := decide (d = best) } := by
      intro d
      by_cases hcur : d = t.inst.currentDag
      · rw [hcur, dag_modifyDag_self, hcheck.currentDag, dag_modifyDag_of_ne _ _ hne, decide_eq_false hne]
      · rw [dag_modifyDag_of_ne _ _ hcur]
        by_cases hbest : d = best
        · rw [hbest, dag_modifyDag_self, decide_eq_true rfl]
        · rw [dag_modifyDag_of_ne _ _ hbest, decide_eq_false hbest]
          have hjoined : (t.dag d).joined = false := by
            rw [(hcheck.dag d).2.1]
            refine Bool.eq_false_of_not_eq_true fun hyes => hcur ?_
            rw [hcheck.currentDag]
            exact (h.joined d).mp hyes
          rw [← hjoined]
    refine ⟨hcheck.inst, rfl, hcheck.minHoprankinc, hcheck.of, hcheck.keys, hcheck.used, hcheck.etx, hcheck.parent,
      fun d => ?_, fun d => ?_⟩
    · exact ⟨(congrArg Dag.used (hdag d)).trans (hcheck.dag d).1,
        (congrArg Dag.preferredParent (hdag d)).trans (hcheck.dag d).2.2.1⟩
    · exact (congrArg (· = true) (congrArg Dag.joined (hdag d))).to_iff.trans decide_eq_true_iff
  next heq =>
    have heq := not_not.mp heq
    rw [← heq]
    exact ⟨rfl, rfl, rfl, rfl, rfl, rfl, rfl, fun _ => ⟨rfl, rfl⟩, fun _ => ⟨rfl, rfl⟩, h.joined⟩

theorem Moved.linked (h : Moved best s u) (hs : Chosen best s) : Linked u := by
  constructor
  · rw [h.inst]
    exact hs.linked.inst
  · rw [h.used, h.keys]
    exact hs.linked.keys
  · intro d p hd hp
    rw [(h.dag d).1] at hd
    rw [(h.dag d).2] at hp
    rw [h.used, (h.parent p).1]
    exact hs.linked.live d p hd hp
  · intro p hp
    rw [h.used] at hp
    rw [(h.parent p).1, (h.dag _).1]
    exact hs.linked.parents p hp
  · rw [State.current, h.currentDag, (h.dag _).1]
    exact hs.used
  · intro d
    rw [h.currentDag]
    exact h.joined d
  · intro p hp
    rw [h.used] at hp
    rw [h.minHoprankinc, h.of, linkMetric, h.etx]
    exact hs.linked.rises p hp
  · rw [State.rootRank, h.minHoprankinc]
    exact hs.linked.rootRank

theorem Chosen.move (h : Chosen best s) (last : Option c.Nbr) :
    Inv none (updateRank best last (switchDag best s)) := by
  have hmoved := h.linked.switchDag best
  generalize RplDag.switchDag best s = u at hmoved ⊢
  have hlinked := hmoved.linked h
  have hroot : u.rootRank = s.rootRank := hmoved.minHoprankinc
  have hbest : ∀ p ∈ (u.dag best).preferredParent, u.used p = true ∧ (u.parent p).rank ≠ infiniteRank ∧
      u.rootRank ≤ (u.parent p).rank := by
    intro p hp
    have hused := hlinked.live best p ((hmoved.dag best).1.trans h.used) hp
    rw [hroot, (hmoved.parent p).2]
    exact ⟨hused.1, h.best p ((hmoved.dag best).2.symm.trans hp)⟩
  rw [updateRank]
  refine ⟨hlinked.put best _ rfl rfl fun p hp => hlinked.live best p ((hmoved.dag best).1.trans h.used) hp, ?_⟩
  have hcurrent : ∀ f : Dag c → Dag c, (u.modifyDag best f).current = f (u.dag best) := by
    intro f
    change (u.modifyDag best f).dag u.inst.currentDag = _
    rw [hmoved.currentDag, dag_modifyDag_self]
  constructor
  · intro p hp _
    rw [hcurrent] at hp ⊢
    obtain ⟨hused, hne, hle⟩ := hbest p hp
    refine ⟨hle, ?_⟩
    rw [hp]
    exact hlinked.lt hused hne
  · intro d p hd hp _
    change (u.parent p).rank = infiniteRank ∨ u.rootRank ≤ (u.parent p).rank
    rw [hroot, (hmoved.parent p).2]
    by_cases hdb : d = best
    · rw [hdb, dag_modifyDag_self] at hd hp
      exact h.others best p h.used ((hmoved.dag best).2.symm.trans hp)
    · rw [dag_modifyDag_of_ne _ _ hdb] at hd hp
      exact h.others d p ((hmoved.dag d).1.symm.trans hd) ((hmoved.dag d).2.symm.trans hp)
  · intro hrank
    rw [hcurrent] at hrank
    exact absurd hrank (hlinked.rankViaParent_ne hbest)

theorem Inv.unrank (h : Inv x s) (d : c.DagIdx) (hd : (s.dag d).used = true) :
    Inv x (s.modifyDag d fun dag => { dag with rank := infiniteRank }) := by
  refine h.put d _ rfl rfl (fun p hp => h.linked.live d p hd hp) (fun hcur p hp hx => ?_)
    (fun p hp hx => h.ranked.others d p hd hp hx) (fun _ hrank => absurd hrank.symm h.linked.rootRank)
    (fun _ _ _ _ _ hx => hx) fun _ hrank => (h.ranked.notRoot hrank).2
  subst hcur
  obtain ⟨hle, hlt⟩ := h.ranked.current p hp hx
  refine ⟨hle, ?_⟩
  rw [UInt16.lt_iff_toNat_lt] at hlt ⊢
  have hmax := s.current.rank.toNat_lt
  change (s.parent p).rank.toNat < 65535
  omega

theorem Inv.unprefer (h : Inv none s) : Inv none (setPreferredParent s.inst.currentDag none s) := by
  have hroot : s.current.rank ≠ s.rootRank := by
    intro hrank
    obtain ⟨_, p, hp, _⟩ := h.ranked.notRoot hrank
    cases hp
  exact h.put _ _ rfl rfl nofun nofun nofun
    (fun _ hrank => absurd hrank hroot) (fun _ _ _ _ _ hx => hx) fun _ hrank => absurd hrank hroot

theorem Inv.selectDag (h : Inv (some p) s) (hp : s.used p = true) : Inv none (selectDag p s).2 := by
  obtain ⟨hchosen, hnone⟩ := h.chooseDag hp
  rw [RplDag.selectDag]
  generalize RplDag.chooseDag p s = chosen at hchosen hnone ⊢
  rcases chosen with ⟨_ | best, t⟩
  · exact hnone rfl
  · have hmove := (hchosen best rfl).move s.current.preferredParent
    dsimp only
    have hacc := (sameTree_acceptableRank best
      ((updateRank best s.current.preferredParent (RplDag.switchDag best t)).dag best).rank
      (updateRank best s.current.preferredParent (RplDag.switchDag best t))).inv hmove
    generalize acceptableRank best _ _ = accepted at hacc ⊢
    rcases accepted with ⟨_ | _, u⟩
    · exact hacc.unprefer
    · dsimp only at hacc ⊢
      split
      · have hdtsn : Inv none (if u.isStoring then incrementDtsn u else u) := by
          split
          · exact (sameTree_incrementDtsn u).inv hacc
          · exact hacc
        exact (sameTree_resetDioTimer _).inv ((sameTree_scheduleDao true _).inv hdtsn)
      · exact hacc

theorem Inv.localRepair (h : Inv none s) : Inv none (localRepair s) := by
  have hdags : Inv none ((dags c).foldl (fun s d => if (s.dag d).used then RplDag.nullifyParents d 0
      (s.modifyDag d fun dag => { dag with rank := infiniteRank }) else s) s) := by
    refine foldl_keeps (fun s d hs => ?_) _ h
    split
    next hd =>
      refine forParents_keeps (fun p s hp hs => ?_) (hs.unrank d hd)
      split
      · exact hs.nullifyParent hp
      · exact hs
    · exact hs
  have hreset := (sameTree_resetDioTimer _).inv hdags
  rw [RplDag.localRepair]
  split
  · exact (sameTree_incrementDtsn _).inv hreset
  · exact hreset

theorem Inv.leaveOut (h : Inv none s) (p : c.Nbr) : Inv (some p) s := by
  refine ⟨h.linked, ⟨fun q hq _ => h.ranked.current q hq (some_ne_none q),
    fun d q hd hq _ => h.ranked.others d q hd hq (some_ne_none q), fun hrank => ?_⟩⟩
  obtain ⟨_, q, hq, _⟩ := h.ranked.notRoot hrank
  cases hq

/-- EVENT: a parent that was left out is taken care of. -/
theorem Inv.processParentEvent (h : Inv (some p) s) (hp : s.used p = true) : Inv none (processParentEvent p s).2 := by
  have hselect : ∀ (result : Bool) (t : State c), Inv (some p) t → t.used p = true →
      Inv none (afterSelect s.current.preferredParent result (RplDag.selectDag p t)).2 := by
    intro result t ht hused
    have hsel := ht.selectDag hused
    generalize RplDag.selectDag p t = selected at hsel ⊢
    rcases selected with ⟨_ | d, u⟩
    · rw [afterSelect]
      split
      · exact hsel.localRepair
      · exact hsel
    · exact hsel
  have hsame := sameTree_acceptableRank (s.parent p).dag (s.parent p).rank s
  have hno : (acceptableRank (s.parent p).dag (s.parent p).rank s).1 = false →
      (s.parent p).rank = infiniteRank ∨ s.rootRank ≤ (s.parent p).rank := rank_of_not_acceptable
  rw [processParentEvent_eq]
  generalize acceptableRank (s.parent p).dag (s.parent p).rank s = accepted at hsame hno ⊢
  rcases accepted with ⟨acceptable, t⟩
  dsimp only at hsame hno ⊢
  have hused : t.used p = true := by
    rw [hsame.used]
    exact hp
  split
  · exact hselect true t (hsame.inv h) hused
  next hbad =>
    have hdone : Inv none (RplDag.nullifyParent p t) := by
      refine (hsame.inv h).nullifyParent_done hused ?_
      rw [(hsame.parent p).2, State.rootRank, hsame.minHoprankinc]
      exact hno (Bool.eq_false_of_not_eq_true hbad)
    split
    · exact hdone
    · refine hselect false _ (hdone.leaveOut p) ?_
      rw [(parent_nullifyParent p t).2.2]
      exact hused

/-- The same parents and the same DAGs are used. -/
structure SameUsed (s t : State c) : Prop where
  used : t.used = s.used
  keys : t.keys = s.keys
  dag : ∀ d, (t.dag d).used = (s.dag d).used

theorem SameUsed.refl (s : State c) : SameUsed s s := ⟨rfl, rfl, fun _ => rfl⟩

theorem SameUsed.trans (h : SameUsed s t) (h' : SameUsed t u) : SameUsed s u :=
  ⟨h'.used.trans h.used, h'.keys.trans h.keys, fun d => (h'.dag d).trans (h.dag d)⟩

theorem SameTree.sameUsed (h : SameTree s t) : SameUsed s t := ⟨h.used, h.keys, fun d => (h.dag d).1⟩

theorem sameUsed_modifyDag (d : c.DagIdx) (f : Dag c → Dag c) (hf : ∀ dag, (f dag).used = dag.used) :
    SameUsed s (s.modifyDag d f) := by
  refine ⟨rfl, rfl, fun e => ?_⟩
  by_cases he : e = d
  · rw [he, dag_modifyDag_self, hf]
  · rw [dag_modifyDag_of_ne s f he]

theorem sameUsed_nullifyParent (p : c.Nbr) (s : State c) : SameUsed s (nullifyParent p s) := by
  rw [nullifyParent_eq]
  split
  · exact sameUsed_modifyDag _ _ fun _ => rfl
  · exact .refl s

theorem sameUsed_localRepair (s : State c) : SameUsed s (localRepair s) := by
  have hdags : SameUsed s ((dags c).foldl (fun s d => if (s.dag d).used then nullifyParents d 0
      (s.modifyDag d fun dag => { dag with rank := infiniteRank }) else s) s) := by
    refine foldl_keeps (fun t d ht => ?_) _ (SameUsed.refl s)
    split
    · refine forParents_keeps (fun p t _ ht => ?_)
        (ht.trans (sameUsed_modifyDag d (fun dag => { dag with rank := infiniteRank }) fun _ => rfl))
      split
      · exact ht.trans (sameUsed_nullifyParent p t)
      · exact ht
    · exact ht
  have hreset := hdags.trans (sameTree_resetDioTimer _).sameUsed
  rw [localRepair]
  split
  · exact hreset.trans (sameTree_incrementDtsn _).sameUsed
  · exact hreset

theorem sameUsed_chooseDag (p : c.Nbr) (s : State c) : SameUsed s (chooseDag p s).2 := by
  rw [chooseDag]
  dsimp only
  split
  · rw [selectParent_eq]
    have hselect := sameUsed_modifyDag (s := s) (s.parent p).dag (fun dag => { dag with
      preferredParent := chooseParent (s.parent p).dag s
      rank := rankViaParent s (chooseParent (s.parent p).dag s) }) fun _ => rfl
    generalize chooseParent (s.parent p).dag s = chosen at hselect ⊢
    cases chosen with
    | none => exact hselect
    | some q => exact hselect
  · exact .refl s

theorem sameUsed_updateRank (best : c.DagIdx) (last : Option c.Nbr) (s : State c) :
    SameUsed s (updateRank best last s) := by
  rw [updateRank]
  exact sameUsed_modifyDag best _ fun _ => rfl

theorem sameUsed_selectDag (h : Inv (some p) s) (hp : s.used p = true) : SameUsed s (selectDag p s).2 := by
  have hchoose := sameUsed_chooseDag p s
  obtain ⟨hchosen, _⟩ := h.chooseDag hp
  rw [selectDag]
  generalize chooseDag p s = chosen at hchoose hchosen ⊢
  rcases chosen with ⟨_ | best, t⟩
  · exact hchoose
  · have hmoved := (hchosen best rfl).linked.switchDag best
    have hswitch : SameUsed t (switchDag best t) := ⟨hmoved.used, hmoved.keys, fun d => (hmoved.dag d).1⟩
    have hupdate : SameUsed s (updateRank best s.current.preferredParent (switchDag best t)) :=
      (hchoose.trans hswitch).trans (sameUsed_updateRank best _ _)
    dsimp only
    have hacc := hupdate.trans (sameTree_acceptableRank best
      ((updateRank best s.current.preferredParent (switchDag best t)).dag best).rank
      (updateRank best s.current.preferredParent (switchDag best t))).sameUsed
    generalize acceptableRank best _ _ = accepted at hacc ⊢
    rcases accepted with ⟨_ | _, u⟩
    · exact hacc.trans (sameUsed_modifyDag u.inst.currentDag (fun dag => { dag with preferredParent := none })
        fun _ => rfl)
    · dsimp only at hacc ⊢
      split
      · have hdtsn : SameUsed s (if u.isStoring then incrementDtsn u else u) := by
          split
          · exact hacc.trans (sameTree_incrementDtsn u).sameUsed
          · exact hacc
        exact hdtsn.trans ((sameTree_scheduleDao true _).trans (sameTree_resetDioTimer _)).sameUsed
      · exact hacc

theorem sameUsed_processParentEvent (h : Inv (some p) s) (hp : s.used p = true) :
    SameUsed s (processParentEvent p s).2 := by
  have hselect : ∀ (result : Bool) (t : State c), SameUsed s t → Inv (some p) t →
      SameUsed s (afterSelect s.current.preferredParent result (selectDag p t)).2 := by
    intro result t hst ht
    have hused : t.used p = true := by
      rw [hst.used]
      exact hp
    have hsel := hst.trans (sameUsed_selectDag ht hused)
    generalize selectDag p t = selected at hsel ⊢
    rcases selected with ⟨_ | d, u⟩
    · rw [afterSelect]
      split
      · exact hsel.trans (sameUsed_localRepair u)
      · exact hsel
    · exact hsel
  have hsame := sameTree_acceptableRank (s.parent p).dag (s.parent p).rank s
  rw [processParentEvent_eq]
  generalize acceptableRank (s.parent p).dag (s.parent p).rank s = accepted at hsame ⊢
  rcases accepted with ⟨acceptable, t⟩
  dsimp only at hsame ⊢
  split
  · exact hselect true t hsame.sameUsed (hsame.inv h)
  · have hnull := hsame.sameUsed.trans (sameUsed_nullifyParent p t)
    split
    · exact hnull
    · refine hselect false _ hnull ((hsame.inv h).nullifyParent ?_)
      rw [hsame.used]
      exact hp

theorem Inv.recalculateRanks (h : Inv none s) : Inv none (recalculateRanks s) := by
  refine forParents_keeps (fun p s hp hs => ?_) h
  split
  · have hclear := (sameTree_modifyParent (s := s) p (fun parent => { parent with updated := false })
      fun _ => ⟨rfl, rfl⟩).inv hs
    exact (hclear.leaveOut p).processParentEvent hp
  · exact hs

/-! ### Parents that come -/

theorem Inv.setRank (h : Inv (some p) s) (f : Parent c → Parent c)
    (hf : ∀ parent, (f parent).dag = parent.dag) : Inv (some p) (s.modifyParent p f) := by
  have hdag : ∀ q, ((s.modifyParent p f).parent q).dag = (s.parent q).dag := by
    intro q
    by_cases hq : q = p
    · rw [hq, parent_modifyParent_self, hf]
    · rw [parent_modifyParent_of_ne s f hq]
  have hother : ∀ q, some q ≠ some p → (s.modifyParent p f).parent q = s.parent q := by
    intro q hq
    exact parent_modifyParent_of_ne s f fun heq => hq (congrArg some heq)
  refine ⟨⟨h.linked.inst, h.linked.keys, fun d q hd hq => ?_, fun q hq => ?_, h.linked.current, h.linked.joined,
    h.linked.rises, h.linked.rootRank⟩, ⟨fun q hq hx => ?_, fun d q hd hq hx => ?_, fun hrank => ?_⟩⟩
  · rw [hdag]
    exact h.linked.live d q hd hq
  · rw [hdag]
    exact h.linked.parents q hq
  · rw [hother q hx]
    exact h.ranked.current q hq hx
  · rw [hother q hx]
    exact h.ranked.others d q hd hq hx
  · obtain ⟨hnone, q, hq, hdq⟩ := h.ranked.notRoot hrank
    refine ⟨hnone, q, hq, ?_⟩
    rw [hdag]
    exact hdq

section

variable (h : Inv none s)
  (hno : ∀ e, (s.dag e).used = true → (s.dag e).preferredParent ≠ some src)
  (hd : (s.dag d).used = true)
  (hrises : Rises s.inst.minHoprankinc (linkMetric s src) s.inst.of)
  (hkey : src ∈ s.keys)
include h hno hd hrises hkey

theorem Inv.takeParent (hinst : u.inst = s.inst) (hdag : u.dag = s.dag) (hetx : u.etx = s.etx)
    (hkeys : u.keys = s.keys) (hother : ∀ q, q ≠ src → u.parent q = s.parent q ∧ u.used q = s.used q)
    (hsrc : (u.parent src).dag = d) : Inv none u := by
  have hcurrent : u.current = s.current := by rw [State.current, hinst, hdag]; rfl
  have hroot : u.rootRank = s.rootRank := congrArg Instance.minHoprankinc hinst
  have hne : ∀ e q, (u.dag e).used = true → (u.dag e).preferredParent = some q → q ≠ src := by
    rintro e q he hq rfl
    rw [hdag] at he hq
    exact hno e he hq
  refine ⟨⟨?_, fun q hq => ?_, fun e q he hq => ?_, fun q hq => ?_, ?_, fun e => ?_, fun q hq => ?_, ?_⟩,
    ⟨fun q hq _ => ?_, fun e q he hq _ => ?_, fun hrank => ?_⟩⟩
  · rw [hinst]
    exact h.linked.inst
  · rw [hkeys]
    by_cases hqs : q = src
    · rw [hqs]
      exact hkey
    · rw [(hother q hqs).2] at hq
      exact h.linked.keys q hq
  · have hqs := hne e q he hq
    rw [hdag] at he hq
    rw [(hother q hqs).1, (hother q hqs).2]
    exact h.linked.live e q he hq
  · rw [hdag]
    by_cases hqs : q = src
    · rw [hqs, hsrc]
      exact hd
    · rw [(hother q hqs).2] at hq
      rw [(hother q hqs).1]
      exact h.linked.parents q hq
  · rw [hcurrent]
    exact h.linked.current
  · rw [hdag, hinst]
    exact h.linked.joined e
  · rw [hinst, linkMetric, hetx]
    by_cases hqs : q = src
    · rw [hqs]
      exact hrises
    · rw [(hother q hqs).2] at hq
      exact h.linked.rises q hq
  · rw [hroot]
    exact h.linked.rootRank
  · have hused : (u.dag u.inst.currentDag).used = true := by
      rw [hdag, hinst]
      exact h.linked.current
    have hqs := hne u.inst.currentDag q hused hq
    rw [hcurrent] at hq ⊢
    rw [hroot, (hother q hqs).1]
    exact h.ranked.current q hq (some_ne_none q)
  · have hqs := hne e q he hq
    rw [hdag] at he hq
    rw [hroot, (hother q hqs).1]
    exact h.ranked.others e q he hq (some_ne_none q)
  · rw [hcurrent, hroot] at hrank
    obtain ⟨_, q, hq, _⟩ := h.ranked.notRoot hrank
    cases hq

theorem Inv.addParent (rank : UInt16) (dtsn : UInt8) : Inv none (addParent d rank dtsn src s) := by
  refine h.takeParent hno hd hrises hkey rfl rfl rfl rfl (fun q hq => ⟨?_, ?_⟩) ?_
  · exact update_of_ne hq ..
  · exact update_of_ne hq ..
  · change ((s.modifyParent src fun _ => ⟨d, rank, dtsn, false⟩).parent src).dag = d
    rw [parent_modifyParent_self]

end

def letGo (d : c.DagIdx) (p : c.Nbr) (s : State c) : State c :=
  if (s.dag d).preferredParent = some p then
    s.modifyDag d fun dag => { dag with preferredParent := none, rank := infiniteRank }
  else s

theorem moveParent_eq (src dst : c.DagIdx) (p : c.Nbr) (s : State c) :
    moveParent src dst p s = (letGo src p s).modifyParent p fun parent => { parent with dag := dst } := by
  rw [moveParent, letGo, setPreferredParent, modifyDag_modifyDag]

theorem Inv.letGo (h : Inv none s) (p : c.Nbr) : Inv none (letGo (s.parent p).dag p s) ∧ ∀ e, ((letGo (s.parent p).dag
    p s).dag e).used = true → ((letGo (s.parent p).dag p s).dag e).preferredParent ≠ some p := by
  rw [RplDag.letGo]
  split
  · constructor
    · exact h.put _ _ rfl rfl nofun nofun nofun
        (fun _ hrank => absurd hrank.symm h.linked.rootRank) (fun _ _ _ _ _ hx => hx)
        fun _ hrank => (h.ranked.notRoot hrank).2
    · intro e hlive hpref
      by_cases he : e = (s.parent p).dag
      · rw [he, dag_modifyDag_self] at hpref
        cases hpref
      · rw [dag_modifyDag_of_ne _ _ he] at hlive hpref
        exact he (h.linked.live e p hlive hpref).2.symm
  next hno =>
    refine ⟨h, fun e hused hpref => hno ?_⟩
    rw [(h.linked.live e p hused hpref).2]
    exact hpref

theorem frame_letGo (d : c.DagIdx) (p : c.Nbr) (s : State c) :
    (letGo d p s).keys = s.keys ∧
    (letGo d p s).used = s.used ∧
    (letGo d p s).parent = s.parent ∧
    (letGo d p s).etx = s.etx ∧
    (letGo d p s).inst = s.inst ∧
    ∀ e,
      ((letGo d p s).dag e).used = (s.dag e).used ∧
      ((s.dag e).preferredParent = none → ((letGo d p s).dag e).preferredParent = none) := by
  rw [letGo]
  split
  · refine ⟨rfl, rfl, rfl, rfl, rfl, fun e => ?_⟩
    by_cases he : e = d
    · rw [he, dag_modifyDag_self]
      exact ⟨rfl, fun _ => rfl⟩
    · rw [dag_modifyDag_of_ne _ _ he]
      exact ⟨rfl, id⟩
  · exact ⟨rfl, rfl, rfl, rfl, rfl, fun _ => ⟨rfl, id⟩⟩

theorem Inv.moveParent (h : Inv none s) (hused : s.used src = true)
    (hd : (s.dag d).used = true) : Inv none (moveParent (s.parent src).dag d src s) := by
  obtain ⟨hlet, hno⟩ := h.letGo src
  obtain ⟨hkeys, hu, _, hetx, hinst, hdag⟩ := frame_letGo (s.parent src).dag src s
  rw [moveParent_eq]
  refine hlet.takeParent (u := (RplDag.letGo (s.parent src).dag src s).modifyParent src _) hno
    ((hdag d).1.trans hd) ?_ ?_ rfl rfl rfl rfl (fun q hq => ⟨parent_modifyParent_of_ne _ _ hq, rfl⟩) ?_
  · rw [hinst, linkMetric, hetx]
    exact h.linked.rises src hused
  · rw [hkeys]
    exact h.linked.keys src hused
  · rw [parent_modifyParent_self]

theorem Inv.adoptParent (h : Inv none s) (hd : (s.dag d).used = true) (hrises : Rises s.inst.minHoprankinc (linkMetric
    s src) s.inst.of) (hkey : src ∈ s.keys) (dio : Dio) : Inv none (adoptParent d src dio s) := by
  rw [RplDag.adoptParent]
  split
  next hused => exact h.moveParent hused hd
  next hused =>
    refine h.addParent (fun e he hpref => hused ?_) hd hrises hkey _ _
    exact (h.linked.live e src he hpref).1

theorem frame_adoptParent (d : c.DagIdx) (src : c.Nbr) (dio : Dio) (s : State c) :
    let t := adoptParent d src dio s
    t.used src = true ∧ (t.parent src).dag = d ∧ (∀ q, q ≠ src → t.used q = s.used q ∧ t.parent q = s.parent q) ∧
      t.inst = s.inst ∧ t.keys = s.keys ∧ t.etx = s.etx ∧
      ∀ e, (t.dag e).used = (s.dag e).used ∧ ((s.dag e).preferredParent = none → (t.dag e).preferredParent = none) := by
  rw [adoptParent]
  split
  next hused =>
    obtain ⟨hkeys, hu, hparent, hetx, hinst, hdag⟩ := frame_letGo (s.parent src).dag src s
    rw [moveParent_eq]
    refine ⟨?_, ?_, fun q hq => ⟨?_, ?_⟩, hinst, hkeys, hetx, hdag⟩
    · exact (congrFun hu src).trans hused
    · rw [parent_modifyParent_self]
    · exact congrFun hu q
    · rw [parent_modifyParent_of_ne _ _ hq, hparent]
  · refine ⟨update_self .., ?_, fun q hq => ⟨update_of_ne hq .., ?_⟩, rfl, rfl, rfl, fun _ => ⟨rfl, id⟩⟩
    · change ((s.modifyParent src fun _ => ⟨d, dio.rank, dio.dtsn, false⟩).parent src).dag = d
      rw [parent_modifyParent_self]
    · exact update_of_ne hq ..

theorem Inv.firstParent (h : Inv (some src) s) (hsrc : s.used src = true)
    (hdag : (s.parent src).dag = d) (hcurrent : d ≠ s.inst.currentDag) : Inv (some src) (firstParent d src s) := by
  rw [RplDag.firstParent, setPreferredParent, modifyDag_modifyDag]
  refine h.put d _ rfl rfl ?_ (fun heq => absurd heq hcurrent) ?_ (fun heq => absurd heq hcurrent)
    (fun _ _ _ _ _ hx => hx) fun _ hrank => (h.ranked.notRoot hrank).2
  · rintro q ⟨⟩
    exact ⟨hsrc, hdag⟩
  · rintro q ⟨⟩ hx
    exact absurd rfl hx

/-! ### New DAGs -/

theorem freeDag_unused (h : freeDag s = some d) : (s.dag d).used = false := by
  have hfree := List.find?_some (p := fun d => !(s.dag d).used) h
  simpa using hfree

/-- A DAG that is taken up, without a parent. -/
def freshDag : Dag c := ⟨fun _ => 0, infiniteRank, 0, 0, 0, true, false, none, infiniteRank, emptyPrefix, 0⟩

theorem allocDag_eq (s : State c) : allocDag s = match freeDag s with
    | none => (none, s)
    | some d => (some d, s.modifyDag d fun _ => freshDag) := rfl

theorem Inv.takeUp (h : Inv none s) (hfree : (s.dag d).used = false) :
    Inv none (s.modifyDag d fun _ => freshDag) := by
  have hcurrent : s.inst.currentDag ≠ d := by
    intro heq
    have hused := h.linked.current
    rw [State.current, heq, hfree] at hused
    cases hused
  have hcur : (s.modifyDag d fun _ => freshDag).current = s.current := dag_modifyDag_of_ne _ _ hcurrent
  refine ⟨⟨h.linked.inst, h.linked.keys, fun e p he hp => ?_, fun p hp => ?_, ?_, fun e => ?_, h.linked.rises,
    h.linked.rootRank⟩, ⟨fun p hp _ => ?_, fun e p he hp _ => ?_, fun hrank => ?_⟩⟩
  · by_cases hd : e = d
    · rw [hd, dag_modifyDag_self] at hp
      cases hp
    · rw [dag_modifyDag_of_ne _ _ hd] at he hp
      exact h.linked.live e p he hp
  · have hne : (s.parent p).dag ≠ d := by
      intro heq
      have hused := h.linked.parents p hp
      rw [heq, hfree] at hused
      cases hused
    change ((s.modifyDag d fun _ => freshDag).dag (s.parent p).dag).used = true
    rw [dag_modifyDag_of_ne _ _ hne]
    exact h.linked.parents p hp
  · rw [hcur]
    exact h.linked.current
  · change ((s.modifyDag d fun _ => freshDag).dag e).joined = true ↔ e = s.inst.currentDag
    by_cases hd : e = d
    · rw [hd, dag_modifyDag_self]
      exact ⟨by rintro ⟨⟩, fun heq => absurd heq.symm hcurrent⟩
    · rw [dag_modifyDag_of_ne _ _ hd]
      exact h.linked.joined e
  · rw [hcur] at hp ⊢
    exact h.ranked.current p hp (some_ne_none p)
  · by_cases hd : e = d
    · rw [hd, dag_modifyDag_self] at hp
      cases hp
    · rw [dag_modifyDag_of_ne _ _ hd] at he hp
      exact h.ranked.others e p he hp (some_ne_none p)
  · rw [hcur] at hrank ⊢
    exact h.ranked.notRoot hrank

theorem Inv.giveBack (h : Inv none s) (hcurrent : d ≠ s.inst.currentDag)
    (hno : ∀ p, s.used p = true → (s.parent p).dag ≠ d) :
    Inv none (s.modifyDag d fun dag => { dag with used := false }) := by
  have hcur : (s.modifyDag d fun dag => { dag with used := false }).current = s.current :=
    dag_modifyDag_of_ne _ _ hcurrent.symm
  have hdag : ∀ e, ((s.modifyDag d fun dag => { dag with used := false }).dag e).used = true →
      e ≠ d ∧ (s.modifyDag d fun dag => { dag with used := false }).dag e = s.dag e := by
    intro e he
    have hd : e ≠ d := by
      rintro rfl
      rw [dag_modifyDag_self] at he
      cases he
    exact ⟨hd, dag_modifyDag_of_ne _ _ hd⟩
  refine ⟨⟨h.linked.inst, h.linked.keys, fun e p he hp => ?_, fun p hp => ?_, ?_, fun e => ?_, h.linked.rises,
    h.linked.rootRank⟩, ⟨fun p hp _ => ?_, fun e p he hp _ => ?_, fun hrank => ?_⟩⟩
  · obtain ⟨_, heq⟩ := hdag e he
    rw [heq] at he hp
    exact h.linked.live e p he hp
  · change ((s.modifyDag d fun dag => { dag with used := false }).dag (s.parent p).dag).used = true
    rw [dag_modifyDag_of_ne _ _ (hno p hp)]
    exact h.linked.parents p hp
  · rw [hcur]
    exact h.linked.current
  · change ((s.modifyDag d fun dag => { dag with used := false }).dag e).joined = true ↔ e = s.inst.currentDag
    rw [← h.linked.joined e]
    by_cases hd : e = d
    · rw [hd, dag_modifyDag_self]
    · rw [dag_modifyDag_of_ne _ _ hd]
  · rw [hcur] at hp ⊢
    exact h.ranked.current p hp (some_ne_none p)
  · obtain ⟨_, heq⟩ := hdag e he
    rw [heq] at he hp
    exact h.ranked.others e p he hp (some_ne_none p)
  · rw [hcur] at hrank ⊢
    exact h.ranked.notRoot hrank

theorem Inv.addDag (h : Inv none s) (hrises : Rises s.inst.minHoprankinc (linkMetric s src) s.inst.of)
    (hkey : src ∈ s.keys) (dio : Dio) :
    Inv none (addDag src dio s).2 ∧
    ∀ d ∈ (addDag src dio s).1, ((addDag src dio s).2.dag d).used = true ∧ (addDag src dio s).2.used src = true := by
  rw [RplDag.addDag, allocDag_eq]
  cases hfree : freeDag s with
  | none => exact ⟨h, by rintro _ ⟨⟩⟩
  | some d =>
    have hunused := freeDag_unused hfree
    have hcurrent : d ≠ s.inst.currentDag := by
      rintro rfl
      exact Bool.false_ne_true (hunused.symm.trans h.linked.current)
    have hfresh := h.takeUp hunused
    have hself := dag_modifyDag_self s d fun _ => freshDag
    have hother : ∀ p, s.used p = true → (s.parent p).dag ≠ d := by
      intro p hp heq
      have hused := h.linked.parents p hp
      rw [heq, hunused] at hused
      cases hused
    dsimp only
    have hadopt := hfresh.adoptParent (d := d) (by rw [hself]; rfl) hrises hkey dio
    obtain ⟨hsrc, hdag, hrest, hinst, hkeys, hetx, hdags⟩ :=
      frame_adoptParent d src dio (s.modifyDag d fun _ => freshDag)
    generalize RplDag.adoptParent d src dio (s.modifyDag d fun _ => freshDag) = u at *
    have hrank := (hadopt.leaveOut src).setRank (fun parent => { parent with rank := dio.rank }) fun _ => rfl
    have hdagv : ((u.modifyParent src fun parent => { parent with rank := dio.rank }).parent src).dag = d := by
      rw [parent_modifyParent_self]
      exact hdag
    have hnone : (u.dag d).preferredParent = none := (hdags d).2 (by rw [hself]; rfl)
    have husedv : (u.dag d).used = true := (hdags d).1.trans (by rw [hself]; rfl)
    have hcurrentv : d ≠ u.inst.currentDag := by
      rw [hinst]
      exact hcurrent
    generalize hv : (u.modifyParent src fun parent => { parent with rank := dio.rank }) = v at *
    have hvdag : v.dag = u.dag := by rw [← hv]; rfl
    have hvused : v.used = u.used := by rw [← hv]; rfl
    have hvinst : v.inst = u.inst := by rw [← hv]; rfl
    split
    · -- the same configuration
      have hput : Inv (some src) (v.modifyDag d fun dag => { dag with
          used := true
          grounded := dio.grounded
          preference := dio.preference
          version := dio.version
          dagId := dio.dagId
          prefixInfo := dio.prefixInfo }) := by
        have hpref : ∀ p, (v.dag d).preferredParent ≠ some p := by
          intro p hp
          rw [hvdag, hnone] at hp
          cases hp
        refine hrank.put d _ ?_ rfl (fun p hp => absurd hp (hpref p)) (fun _ p hp => absurd hp (hpref p))
          (fun p hp => absurd hp (hpref p)) (fun heq => ?_) (fun _ _ _ _ _ hx => hx)
          fun _ hroot => (hrank.ranked.notRoot hroot).2
        · rw [hvdag]
          exact husedv.symm
        · rw [hvinst] at heq
          exact absurd heq hcurrentv
      generalize hw : (v.modifyDag d fun dag => { dag with
          used := true
          grounded := dio.grounded
          preference := dio.preference
          version := dio.version
          dagId := dio.dagId
          prefixInfo := dio.prefixInfo }) = w at hput ⊢
      have hwsrc : w.used src = true := by
        rw [← hw]
        exact (congrFun hvused src).trans hsrc
      have hwdag : (w.parent src).dag = d := by
        rw [← hw]
        exact hdagv
      have hwcurrent : d ≠ w.inst.currentDag := by
        rw [← hw]
        exact fun heq => hcurrentv (heq.trans (congrArg Instance.currentDag hvinst))
      have hwused : (w.dag d).used = true := by
        rw [← hw, dag_modifyDag_self]
      have hfirst := hput.firstParent hwsrc hwdag hwcurrent
      have hfirstUsed : SameUsed w (RplDag.firstParent d src w) := by
        rw [RplDag.firstParent, setPreferredParent, modifyDag_modifyDag]
        exact sameUsed_modifyDag d _ fun _ => rfl
      have hsrcFirst : (RplDag.firstParent d src w).used src = true := by
        exact hwsrc
      have hsame := hfirstUsed.trans (sameUsed_processParentEvent hfirst hsrcFirst)
      have hevent := hfirst.processParentEvent hsrcFirst
      refine ⟨(sameTree_modifyParent src (fun parent => { parent with dtsn := dio.dtsn })
        fun _ => ⟨rfl, rfl⟩).inv hevent, ?_⟩
      rintro e ⟨⟩
      exact ⟨(hsame.dag d).trans hwused, (congrFun hsame.used src).trans hwsrc⟩
    · -- another one: the DAG is given back
      have hvsrc : v.used src = true := (congrFun hvused src).trans hsrc
      have hremove : Inv (some src) (RplDag.removeParent src v) := by
        refine hrank.removeParent hvsrc fun hdangles => ?_
        obtain ⟨_, _, hpref⟩ := hdangles
        rw [hdagv, hvdag, hnone] at hpref
        cases hpref
      have hgone : (RplDag.removeParent src v).used src = false := update_self ..
      have hparent : (RplDag.removeParent src v).parent = v.parent := (parent_nullifyParent src v).1
      have hinstr : (RplDag.removeParent src v).inst = v.inst := (parent_nullifyParent src v).2.1
      have hlives : ∀ e, ((RplDag.removeParent src v).dag e).used = true →
          ((RplDag.removeParent src v).dag e).preferredParent ≠ some src := by
        intro e he hpref
        exact Bool.false_ne_true (hgone.symm.trans (hremove.linked.live e src he hpref).1)
      refine ⟨(hremove.all (hlives _ hremove.linked.current) (fun e he hpref => absurd hpref (hlives e he))
        fun hroot => ?_).giveBack ?_ fun p hp => ?_, by rintro _ ⟨⟩⟩
      · obtain ⟨_, p, hp, hdagp⟩ := hremove.ranked.notRoot hroot
        cases hp
        rw [hparent, hdagv, hinstr, hvinst] at hdagp
        exact hcurrentv hdagp
      · rw [hinstr, hvinst]
        exact hcurrentv
      · have hps : p ≠ src := by
          rintro rfl
          exact Bool.false_ne_true (hgone.symm.trans hp)
        have hpused : v.used p = true := by
          have hold : (RplDag.removeParent src v).used p = v.used p :=
            (update_of_ne hps ..).trans (congrFun (parent_nullifyParent src v).2.2 p)
          rw [← hold]
          exact hp
        rw [hvused, (hrest p hps).1] at hpused
        rw [hparent, ← hv, parent_modifyParent_of_ne _ _ hps, (hrest p hps).2]
        exact hother p hpused

end CSync.RplDag
