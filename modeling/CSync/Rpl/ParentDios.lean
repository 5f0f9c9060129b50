import CSync.Rpl.ConfigRuns
import CSync.Rpl.ParentRuns

/-! DIOs and the preferred parents.

    Over runs of DIOs, of neighbors that go and links that change, of repairs and timers the preferred parents stay
    sound, if every step meets `ParentsOk`. -/

namespace CSync.RplDag
open Function Lib List

variable {c : Config} {s : State c}

/-! ### The neighbor cache -/

variable {p : c.Nbr}

/-- A neighbor that goes, when it is not a parent. -/
theorem Inv.forget (h : Inv none s) (hp : s.used p = false) : Inv none { s with
    keys := s.keys.erase p
    used := update s.used p false
    etx := update s.etx p none
    fresh := update s.fresh p false } := by
  have hsame : update s.used p false = s.used := by
    rw [← hp]
    exact update_eq_self ..
  have hne : ∀ q, s.used q = true → q ≠ p := by
    rintro q hq rfl
    exact Bool.false_ne_true (hp.symm.trans hq)
  rw [hsame]
  refine ⟨⟨h.linked.inst, fun q hq => ?_, h.linked.live, h.linked.parents, h.linked.current, h.linked.joined,
    fun q hq => ?_, h.linked.rootRank⟩, ⟨h.ranked.current, h.ranked.others, h.ranked.notRoot⟩⟩
  · exact (mem_erase_of_ne (hne q hq)).mpr (h.linked.keys q hq)
  · change Rises s.inst.minHoprankinc ((update s.etx p none q).getD 0xffff) s.inst.of
    rw [update_of_ne (hne q hq)]
    exact h.linked.rises q hq

theorem Inv.removeNeighbor (h : Inv none s) (hok : ¬Dangles s p) : Inv none (removeNeighbor p s) := by
  rw [RplDag.removeNeighbor]
  split
  next hp => exact (h.removeParent hp hok).forget (update_self ..)
  next hp => exact h.forget (Bool.eq_false_of_not_eq_true hp)

theorem Inv.addKey (h : Inv none s) (p : c.Nbr) : Inv none { s with keys := s.keys ++ [p] } :=
  ⟨⟨h.linked.inst, fun q hq => mem_append_left _ (h.linked.keys q hq), h.linked.live, h.linked.parents,
    h.linked.current, h.linked.joined, h.linked.rises, h.linked.rootRank⟩,
    ⟨h.ranked.current, h.ranked.others, h.ranked.notRoot⟩⟩

theorem inst_removeNeighbor (p : c.Nbr) (s : State c) : (RplDag.removeNeighbor p s).inst = s.inst := by
  rw [RplDag.removeNeighbor]
  split
  · exact (parent_nullifyParent p s).2.1
  · rfl

variable {src : c.Nbr} {cached : Cached} {d : c.DagIdx} {t : State c} {dio : Dio}

theorem frame_addNbrFromDio (hfits : cached.fits src s = true) (hroom : cached ≠ .full) :
    src ∈ (addNbrFromDio src cached s).keys ∧ linkMetric (addNbrFromDio src cached s) src = senderMetric s src cached ∧
      (addNbrFromDio src cached s).inst = s.inst := by
  cases cached with
  | known => exact ⟨of_decide_eq_true hfits, rfl, rfl⟩
  | added => exact ⟨mem_append_right _ mem_cons_self, rfl, rfl⟩
  | full => exact absurd rfl hroom
  | replaced =>
    refine ⟨mem_append_right _ mem_cons_self, ?_, inst_removeNeighbor src s⟩
    change (update (if s.used src then removeParent src s else s).etx src none src).getD 0xffff = 0xffff
    rw [update_self]
    rfl

theorem Inv.addNbrFromDio (h : Inv none s)
    (hok : cached = .replaced → ¬Dangles s src) : Inv none (addNbrFromDio src cached s) := by
  cases cached with
  | known => exact h
  | added => exact h.addKey src
  | replaced => exact (h.removeNeighbor (hok rfl)).addKey src
  | full => exact h

theorem Inv.setLinkStats {x : Option c.Nbr} (h : Inv x s) (p : c.Nbr) (etx : Option UInt16) (fresh : Bool)
    (hok : s.used p = true → Rises s.inst.minHoprankinc (etx.getD 0xffff) s.inst.of) : Inv x { s with
      etx := update s.etx p etx
      fresh := update s.fresh p fresh } := by
  refine ⟨⟨h.linked.inst, h.linked.keys, h.linked.live, h.linked.parents, h.linked.current, h.linked.joined,
    fun q hq => ?_, h.linked.rootRank⟩, ⟨h.ranked.current, h.ranked.others, h.ranked.notRoot⟩⟩
  change Rises s.inst.minHoprankinc ((update s.etx p etx q).getD 0xffff) s.inst.of
  by_cases hqp : q = p
  · subst hqp
    rw [update_self]
    exact hok hq
  · rw [update_of_ne hqp]
    exact h.linked.rises q hq

/-- The parents of the DAG that are removed so far; the rest of the tree is as it was. -/
structure Cleared (d : c.DagIdx) (s t : State c) : Prop where
  inv : Inv none t
  inst : t.inst = s.inst
  keys : t.keys = s.keys
  etx : t.etx = s.etx
  parent : t.parent = s.parent
  dag : ∀ e, e ≠ d → t.dag e = s.dag e
  used : (t.dag d).used = (s.dag d).used
  safe : (t.dag d).joined = true ∨ (t.dag d).preferredParent = none

theorem Cleared.removeParent (h : Cleared d s t) (hp : t.used p = true)
    (hd : (t.parent p).dag = d) : Cleared d s (removeParent p t) := by
  have hok : ¬Dangles t p := by
    rintro ⟨_, hjoined, hpref⟩
    rw [hd] at hjoined hpref
    rcases h.safe with hsafe | hsafe
    · exact Bool.false_ne_true (hjoined.symm.trans hsafe)
    · cases hsafe.symm.trans hpref
  obtain ⟨hparent, hinst, _⟩ := parent_nullifyParent p t
  have hsame := sameUsed_nullifyParent p t
  have hdag : ∀ e, e ≠ d → (nullifyParent p t).dag e = t.dag e := by
    intro e he
    rw [nullifyParent_eq]
    split
    · rw [hd, dag_modifyDag_of_ne _ _ he]
    · rfl
  have hetx : (nullifyParent p t).etx = t.etx := by
    rw [nullifyParent_eq]
    split
    · rfl
    · rfl
  refine ⟨h.inv.removeParent hp hok, hinst.trans h.inst, hsame.keys.trans h.keys, hetx.trans h.etx,
    hparent.trans h.parent, fun e he => (hdag e he).trans (h.dag e he), (hsame.dag d).trans h.used, ?_⟩
  change ((nullifyParent p t).dag d).joined = true ∨ ((nullifyParent p t).dag d).preferredParent = none
  rw [nullifyParent_eq]
  split
  · rw [hd, dag_modifyDag_self, nullified]
    rcases h.safe with hsafe | hsafe
    · exact .inl hsafe
    · rw [hsafe]
      exact .inr (if_neg (fun hno => by cases hno.2))
  · exact h.safe

theorem Cleared.removeAll (l : List c.Nbr) (h : Cleared d s t) : let u := l.foldl (fun s p => if s.used p then
      if d = (s.parent p).dag ∧ (0 : UInt16) ≤ (s.parent p).rank then RplDag.removeParent p s else s else s) t
    Cleared d s u ∧ (∀ p, u.used p = true → t.used p = true) ∧ ∀ p ∈ l, u.used p = true → (s.parent p).dag ≠ d := by
  induction l generalizing t with
  | nil => exact ⟨h, fun _ hp => hp, nofun⟩
  | cons p l ih =>
    rw [foldl_cons]
    have hkeep : ∀ (t' : State c), Cleared d s t' → (∀ q, t'.used q = true → t.used q = true) →
        (t'.used p = true → (s.parent p).dag ≠ d) →
        let u := l.foldl (fun s p => if s.used p then
          if d = (s.parent p).dag ∧ (0 : UInt16) ≤ (s.parent p).rank then RplDag.removeParent p s else s else s) t'
        Cleared d s u ∧ (∀ p, u.used p = true → t.used p = true) ∧
          ∀ q ∈ p :: l, u.used q = true → (s.parent q).dag ≠ d := by
      intro t' ht' hless hgone
      obtain ⟨hclear, hmono, hall⟩ := ih ht'
      refine ⟨hclear, fun q hq => hless q (hmono q hq), fun q hq hused => ?_⟩
      rcases mem_cons.mp hq with rfl | hmem
      · exact hgone (hmono q hused)
      · exact hall q hmem hused
    split
    next hp =>
      split
      next hd =>
        refine hkeep _ (h.removeParent hp hd.1.symm) (fun q hq => ?_) fun hq => ?_
        · have hne : q ≠ p := by
            rintro rfl
            exact Bool.false_ne_true ((update_self ..).symm.trans hq)
          rw [← congrFun (parent_nullifyParent p t).2.2 q]
          exact (update_of_ne hne ..).symm.trans hq
        · exact absurd ((update_self ..).symm.trans hq) Bool.false_ne_true
      next hd =>
        refine hkeep t h (fun _ hq => hq) fun _ heq => hd ⟨?_, ?_⟩
        · rw [h.parent]
          exact heq.symm
        · exact UInt16.le_iff_toNat_le.mpr (Nat.zero_le _)
    next hp => exact hkeep t h (fun _ hq => hq) fun hq => absurd hq hp

/-- REPAIR: the DAG keeps no parent, and takes the sender. -/
theorem Inv.globalRepair (h : Inv none s) (hd : (s.dag d).used = true) (hfits : cached.fits src s = true) (hok :
    RepairOk s src cached d) (dio : Dio) : Inv none (globalRepair src (decide (cached = .known)) d dio s) := by
  obtain ⟨hclear, _, hgone⟩ := Cleared.removeAll (s := s) (d := d) s.keys
    ⟨h, rfl, rfl, rfl, rfl, fun _ _ => rfl, rfl, hok.joined⟩
  have hused : ∀ p, (removeParents d 0 s).used p = true → p ∈ s.keys := by
    intro p hp
    rw [← hclear.keys]
    exact hclear.inv.linked.keys p hp
  have hnone : ((removeParents d 0 s).dag d).preferredParent = none := by
    cases hpref : ((removeParents d 0 s).dag d).preferredParent with
    | none => rfl
    | some p =>
      obtain ⟨hlive, hdag⟩ := hclear.inv.linked.live d p (hclear.used.trans hd) hpref
      refine absurd ?_ (hgone p (hused p hlive) hlive)
      rw [← hclear.parent]
      exact hdag
  have hclear : Cleared d s (removeParents d 0 s) := hclear
  rw [RplDag.globalRepair]
  generalize RplDag.removeParents d 0 s = t at hclear hnone hused ⊢
  have hsame : SameTree t (incrementDtsn ((repairConfiguration dio (t.modifyDag d fun dag =>
      { dag with version := dio.version })).modifyDag d fun dag => { dag with minRank := infiniteRank })) := by
    have hversion := sameTree_modifyDag (s := t) d (fun dag => { dag with version := dio.version })
      fun _ => ⟨rfl, rfl, rfl, rfl⟩
    have hconf : SameTree t (repairConfiguration dio (t.modifyDag d fun dag => { dag with version := dio.version })) :=
      hversion.trans (sameTree_inst _ _ ⟨rfl, rfl, rfl, rfl⟩)
    exact (hconf.trans (sameTree_modifyDag d (fun dag => { dag with minRank := infiniteRank })
      fun _ => ⟨rfl, rfl, rfl, rfl⟩)).trans (sameTree_incrementDtsn _)
  generalize incrementDtsn ((repairConfiguration dio (t.modifyDag d fun dag =>
      { dag with version := dio.version })).modifyDag d fun dag => { dag with minRank := infiniteRank }) = u at hsame ⊢
  have hu := hsame.inv hclear.inv
  have hud : (u.dag d).used = true := by
    rw [(hsame.dag d).1, hclear.used]
    exact hd
  have hunone : (u.dag d).preferredParent = none := (hsame.dag d).2.2.1.trans hnone
  split
  next hknown =>
    have hknown : cached = .known := of_decide_eq_true hknown
    rw [hknown] at hfits
    have hno : ∀ e, (u.dag e).used = true → (u.dag e).preferredParent ≠ some src := by
      intro e he hpref
      by_cases hed : e = d
      · rw [hed, hunone] at hpref
        cases hpref
      · rw [(hsame.dag e).1, hclear.dag e hed] at he
        rw [(hsame.dag e).2.2.1, hclear.dag e hed] at hpref
        exact hok.others hknown e he hed hpref
    have hrises : Rises u.inst.minHoprankinc (linkMetric u src) u.inst.of := by
      rw [hsame.minHoprankinc, hsame.of, linkMetric, hsame.etx, hclear.inst, hclear.etx]
      exact hok.rises hknown
    have hkey : src ∈ u.keys := by
      rw [hsame.keys, hclear.keys]
      exact of_decide_eq_true hfits
    have hadd := hu.addParent hno hud hrises hkey dio.rank dio.dtsn
    have hdag : ((RplDag.addParent d dio.rank dio.dtsn src u).parent src).dag = d := by
      change ((u.modifyParent src fun _ => ⟨d, dio.rank, dio.dtsn, false⟩).parent src).dag = d
      rw [parent_modifyParent_self]
    have hsrc : (RplDag.addParent d dio.rank dio.dtsn src u).used src = true := update_self ..
    have hempty : ∀ p, ((RplDag.addParent d dio.rank dio.dtsn src u).dag d).preferredParent ≠ some p := by
      intro p hp
      cases hunone.symm.trans hp
    generalize RplDag.addParent d dio.rank dio.dtsn src u = v at hadd hdag hsrc hempty ⊢
    refine Inv.processParentEvent (p := src) ?_ hsrc
    refine hadd.put d _ rfl rfl (fun p hp => absurd hp (hempty p)) (fun _ p hp => absurd hp (hempty p))
      (fun p hp => absurd hp (hempty p)) (fun hcur _ => ?_) (fun _ p _ _ _ hx => absurd hx (Option.some_ne_none p))
      fun _ hrank => ?_
    · refine ⟨?_, src, rfl, hdag.trans hcur⟩
      cases hpref : (v.dag d).preferredParent with
      | none => rfl
      | some p => exact absurd hpref (hempty p)
    · obtain ⟨_, p, hp, _⟩ := hadd.ranked.notRoot hrank
      cases hp
  · exact hu.unrank d hud

/-! ### The first DAG -/

/-- No parent and no DAG is used. -/
structure Idle (s : State c) : Prop where
  inst : s.inst.used = false
  parents : ∀ p, s.used p = false
  dags : ∀ d, (s.dag d).used = false

/-- The node joins, with the sender as its only parent. -/
structure Fresh (src : c.Nbr) (d : c.DagIdx) (s : State c) : Prop where
  inst : s.inst.used = true
  currentDag : s.inst.currentDag = d
  key : src ∈ s.keys
  used : ∀ p, s.used p = true ↔ p = src
  parent : (s.parent src).dag = d
  dags : ∀ e, (s.dag e).used = true ↔ e = d
  joined : ∀ e, (s.dag e).joined = true ↔ e = d
  preferred : (s.dag d).preferredParent = none
  rank : (s.dag d).rank = infiniteRank
  rises : Rises s.inst.minHoprankinc (linkMetric s src) s.inst.of
  least : s.rootRank ≤ (s.parent src).rank
  finite : (s.parent src).rank ≠ infiniteRank

theorem Fresh.inv (h : Fresh src d s) : Inv none s := by
  have hroot : s.rootRank ≠ infiniteRank := by
    intro heq
    have hlt := toNat_lt_infinite h.finite
    have hle := UInt16.le_iff_toNat_le.mp h.least
    rw [heq] at hle
    change 65535 ≤ (s.parent src).rank.toNat at hle
    omega
  have hno : ∀ e p, (s.dag e).used = true → (s.dag e).preferredParent ≠ some p := by
    intro e p he hp
    rw [(h.dags e).mp he, h.preferred] at hp
    cases hp
  have hcurrent : s.current = s.dag d := congrArg s.dag h.currentDag
  have hcurUsed : (s.dag s.inst.currentDag).used = true := by
    rw [h.currentDag]
    exact (h.dags d).mpr rfl
  refine ⟨⟨h.inst, fun p hp => ?_, fun e p he hp => absurd hp (hno e p he), fun p hp => ?_, hcurUsed, fun e => ?_,
    fun p hp => ?_, hroot⟩, ⟨fun p hp => absurd hp (hno _ p hcurUsed), fun e p he hp => absurd hp (hno e p he),
    fun hrank => ?_⟩⟩
  · rw [(h.used p).mp hp]
    exact h.key
  · rw [(h.used p).mp hp, h.parent]
    exact (h.dags d).mpr rfl
  · rw [h.currentDag]
    exact h.joined e
  · rw [(h.used p).mp hp]
    exact h.rises
  · rw [hcurrent, h.rank] at hrank
    exact absurd hrank.symm hroot

theorem Fresh.firstParent (h : Fresh src d s) : Inv none (firstParent d src s) := by
  have hinv := h.inv
  have hsrc := (h.used src).mpr rfl
  have hlt : (s.parent src).rank < rankViaParent s (some src) := hinv.linked.lt hsrc h.finite
  have hvia : rankViaParent (setPreferredParent d (some src) s) (some src) = rankViaParent s (some src) :=
    rankViaParent_congr (fun _ => rfl) rfl rfl rfl _
  rw [RplDag.firstParent, hvia, setPreferredParent, modifyDag_modifyDag]
  refine hinv.put d _ rfl rfl ?_ ?_ ?_ (fun _ hrank => absurd hrank (ne_of_rootRank_le h.least hlt))
    (fun _ _ _ _ _ hx => hx) fun _ hrank => (hinv.ranked.notRoot hrank).2
  · rintro p ⟨⟩
    exact ⟨hsrc, h.parent⟩
  · rintro - p ⟨⟩ -
    exact ⟨h.least, hlt⟩
  · rintro p ⟨⟩ -
    exact .inr h.least

theorem dag_addParent (d : c.DagIdx) (rank : UInt16) (dtsn : UInt8) (p : c.Nbr) (s : State c) :
    (addParent d rank dtsn p s).dag = s.dag := rfl

theorem dag_joinConfiguration (of : Of) (d : c.DagIdx) (dio : Dio) (s : State c) :
    (joinConfiguration of d dio s).dag = s.dag := rfl

theorem Idle.joinInstance {of : Of} (h : Idle s) (hkey : src ∈ s.keys)
    (hof : c.findOf dio.ocp = some of) (hrank : dio.dagMinHoprankinc ≤ dio.rank) (hfinite : dio.rank ≠ infiniteRank)
    (hrises : Rises dio.dagMinHoprankinc (linkMetric s src) of) : Inv none (joinInstance src dio s) := by
  rw [RplDag.joinInstance, hof, allocDag_eq]
  cases hfree : freeDag (allocInstance dio.instanceId s) with
  | none => exact absurd hfree (freeDag_allocInstance _ _)
  | some d =>
    dsimp only
    generalize ht : addParent d dio.rank dio.dtsn src ((allocInstance dio.instanceId s).modifyDag d fun _ => freshDag) = t
    have hfirst : Inv none (RplDag.firstParent d src (joinConfiguration of d dio
        ((if dio.prefixInfo.flags &&& autonomous ≠ 0 then checkPrefix none (some dio.prefixInfo) t else t).modifyDag d
          fun dag => { dag with
            joined := true
            preference := dio.preference
            grounded := dio.grounded
            version := dio.version
            dagId := dio.dagId
            prefixInfo := dio.prefixInfo }))) := by
      have hcheck : SameTree t (if dio.prefixInfo.flags &&& autonomous ≠ 0 then
          checkPrefix none (some dio.prefixInfo) t else t) := by
        split
        · exact sameTree_checkPrefix _ _ t
        · exact .refl t
      generalize (if dio.prefixInfo.flags &&& autonomous ≠ 0 then
          checkPrefix none (some dio.prefixInfo) t else t) = u at hcheck ⊢
      have hparent : t.parent src = ⟨d, dio.rank, dio.dtsn, false⟩ := by
        rw [← ht]
        exact update_self ..
      have hused : ∀ p, t.used p = true ↔ p = src := by
        intro p
        rw [← ht]
        change update s.used src true p = true ↔ p = src
        by_cases hp : p = src
        · rw [hp, update_self]
          exact ⟨fun _ => rfl, fun _ => rfl⟩
        · rw [update_of_ne hp, h.parents p]
          exact ⟨by rintro ⟨⟩, fun heq => absurd heq hp⟩
      have hdag : t.dag d = freshDag := by
        rw [← ht, dag_addParent, dag_modifyDag_self]
      have hcleared : ∀ e, e ≠ d → (t.dag e).used = false ∧ (t.dag e).joined = false := by
        intro e he
        have heq : t.dag e = (allocInstance dio.instanceId s).dag e := by
          rw [← ht, dag_addParent, dag_modifyDag_of_ne _ _ he]
        rw [heq]
        exact ⟨rfl, rfl⟩
      have hinst : t.inst.used = true := by rw [← ht]; rfl
      have hkeys : t.keys = s.keys := by rw [← ht]; rfl
      have hetx : t.etx = s.etx := by rw [← ht]; rfl
      refine Fresh.firstParent ⟨hcheck.inst.trans hinst, rfl, ?_, fun p => ?_, ?_, fun e => ?_, fun e => ?_, ?_, ?_, ?_,
        ?_, ?_⟩
      · change src ∈ u.keys
        rw [hcheck.keys, hkeys]
        exact hkey
      · change u.used p = true ↔ p = src
        rw [hcheck.used]
        exact hused p
      · change (u.parent src).dag = d
        rw [(hcheck.parent src).1, hparent]
      · rw [dag_joinConfiguration]
        by_cases he : e = d
        · rw [he, dag_modifyDag_self, (hcheck.dag d).1, hdag]
          exact ⟨fun _ => rfl, fun _ => rfl⟩
        · rw [dag_modifyDag_of_ne _ _ he, (hcheck.dag e).1, (hcleared e he).1]
          exact ⟨by rintro ⟨⟩, fun heq => absurd heq he⟩
      · rw [dag_joinConfiguration]
        by_cases he : e = d
        · rw [he, dag_modifyDag_self]
          exact ⟨fun _ => rfl, fun _ => rfl⟩
        · rw [dag_modifyDag_of_ne _ _ he, (hcheck.dag e).2.1, (hcleared e he).2]
          exact ⟨by rintro ⟨⟩, fun heq => absurd heq he⟩
      · rw [dag_joinConfiguration, dag_modifyDag_self, (hcheck.dag d).2.2.1, hdag]
        rfl
      · rw [dag_joinConfiguration, dag_modifyDag_self, (hcheck.dag d).2.2.2, hdag]
        rfl
      · change Rises dio.dagMinHoprankinc ((u.etx src).getD 0xffff) of
        rw [hcheck.etx, hetx]
        exact hrises
      · change dio.dagMinHoprankinc ≤ (u.parent src).rank
        rw [(hcheck.parent src).2, hparent]
        exact hrank
      · change (u.parent src).rank ≠ infiniteRank
        rw [(hcheck.parent src).2, hparent]
        exact hfinite
    have hreset := (sameTree_resetDioTimer _).inv hfirst
    split
    · exact (sameTree_scheduleDao true _).inv hreset
    · exact hreset

/-! ### DIOs -/

theorem Inv.processCandidate (h : Inv none s) (hd : (s.dag d).used = true) (hkey : src ∈ s.keys) (hrises : Rises
    s.inst.minHoprankinc (linkMetric s src) s.inst.of) (dio : Dio) : Inv none (processCandidate src d dio s) := by
  have hlife := sameTree_refreshLifetime d s
  have hadopt : ∀ t : State c, SameTree s t →
      Inv none (if t.used src ∧ (t.parent src).dag = d then t else RplDag.adoptParent d src dio t) ∧
        (if t.used src ∧ (t.parent src).dag = d then t else RplDag.adoptParent d src dio t).used src = true := by
    intro t ht
    split
    next hknown => exact ⟨ht.inv h, hknown.1⟩
    · refine ⟨(ht.inv h).adoptParent ?_ ?_ ?_ dio, (frame_adoptParent d src dio t).1⟩
      · rw [(ht.dag d).1]
        exact hd
      · rw [ht.minHoprankinc, ht.of, linkMetric, ht.etx]
        exact hrises
      · rw [ht.keys]
        exact hkey
  obtain ⟨hinv, hused⟩ := hadopt _ hlife
  rw [RplDag.processCandidate]
  generalize (if (refreshLifetime d s).used src ∧ ((refreshLifetime d s).parent src).dag = d then refreshLifetime d s
    else RplDag.adoptParent d src dio (refreshLifetime d s)) = t at hinv hused ⊢
  have hrank := (hinv.leaveOut src).setRank (fun parent => { parent with rank := dio.rank }) fun _ => rfl
  generalize hu : (t.modifyParent src fun parent => { parent with rank := dio.rank }) = u at hrank ⊢
  have husrc : u.used src = true := by
    rw [← hu]
    exact hused
  have hreset : SameTree u (if dio.rank = infiniteRank ∧ (u.dag d).preferredParent = some src
      then resetDioTimer u else u) := by
    split
    · exact sameTree_resetDioTimer u
    · exact .refl u
  generalize (if dio.rank = infiniteRank ∧ (u.dag d).preferredParent = some src
      then resetDioTimer u else u) = v at hreset ⊢
  have hmark := hreset.trans (sameTree_modifyParent src (fun parent => { parent with updated := true })
    fun _ => ⟨rfl, rfl⟩)
  have hevent := (hmark.inv hrank).processParentEvent (p := src) (by rw [hmark.used]; exact husrc)
  generalize RplDag.processParentEvent src _ = done at hevent ⊢
  rcases done with ⟨_ | _, w⟩
  · exact hevent
  · dsimp only at hevent ⊢
    have hsched : SameTree w (if (w.dag d).joined ∧ (w.dag d).preferredParent = some src ∧ w.inst.mop ≠ 0 ∧
        w.current.preferredParent = some src ∧ lollipopGreaterThan dio.dtsn (w.parent src).dtsn
        then scheduleDao true (incrementDtsn w) else w) := by
      split
      · exact (sameTree_incrementDtsn w).trans (sameTree_scheduleDao true _)
      · exact .refl w
    exact (hsched.trans (sameTree_modifyParent src (fun parent => { parent with dtsn := dio.dtsn })
      fun _ => ⟨rfl, rfl⟩)).inv hevent

/-- What a DIO for a DAG of the node may do to the neighbor cache. -/
structure Welcome (s : State c) (src : c.Nbr) (cached : Cached) : Prop where
  replaced : cached = .replaced → ¬Dangles s src
  rises : Rises s.inst.minHoprankinc (senderMetric s src cached) s.inst.of

theorem SameTree.welcome (hsame : SameTree s t) (h : Welcome s src cached) : Welcome t src cached := by
  refine ⟨fun hcached hdangles => h.replaced hcached ?_, ?_⟩
  · obtain ⟨hused, hjoined, hpref⟩ := hdangles
    rw [hsame.used] at hused
    rw [(hsame.parent src).1, (hsame.dag _).2.1] at hjoined
    rw [(hsame.parent src).1, (hsame.dag _).2.2.1] at hpref
    exact ⟨hused, hjoined, hpref⟩
  · rw [hsame.minHoprankinc, hsame.of, senderMetric, linkMetric, hsame.etx]
    exact h.rises

theorem Cached.fits_congr (hkeys : t.keys = s.keys) : cached.fits src t = cached.fits src s := by
  cases cached with
  | known => rw [Cached.fits, Cached.fits, hkeys]
  | added => rw [Cached.fits, Cached.fits, hkeys]
  | replaced => rw [Cached.fits, Cached.fits, hkeys]
  | full => rfl

theorem Inv.processKnownDag (h : Inv none s) (hd : (s.dag d).used = true) (hfits : cached.fits src s = true)
    (hok : s.rootRank ≤ dio.rank → cached ≠ .full → Welcome s src cached) :
    Inv none (processKnownDag src cached d dio s) := by
  rw [RplDag.processKnownDag]
  split
  · exact h
  next hrank =>
    have hsame := sameTree_announcePrefix d dio s
    dsimp only
    generalize RplDag.announcePrefix d dio s = t at hsame ⊢
    have ht := hsame.inv h
    split
    · exact ht
    next hroom =>
      have hwelcome := hsame.welcome (hok (UInt16.not_lt.mp hrank) hroom)
      rw [← Cached.fits_congr hsame.keys] at hfits
      obtain ⟨hkey, hmetric, hinst⟩ := frame_addNbrFromDio hfits hroom
      have hadd := ht.addNbrFromDio hwelcome.replaced
      have hused := used_addNbrFromDio src cached t d
      split
      · exact hadd
      · refine hadd.processCandidate ?_ hkey ?_ dio
        · rw [hused, (hsame.dag d).1]
          exact hd
        · rw [hinst, hmetric]
          exact hwelcome.rises

theorem Idle.removeNeighbor (h : Idle s) (p : c.Nbr) : Idle (removeNeighbor p s) := by
  have hused : (if s.used p then removeParent p s else s) = s := by
    rw [h.parents p]
    exact if_neg Bool.false_ne_true
  rw [RplDag.removeNeighbor, hused]
  refine ⟨h.inst, fun q => ?_, h.dags⟩
  change update s.used p false q = false
  by_cases hq : q = p
  · rw [hq, update_self]
  · rw [update_of_ne hq]
    exact h.parents q

theorem Idle.addNbrFromDio (h : Idle s) (src : c.Nbr) (cached : Cached) : Idle (addNbrFromDio src cached s) := by
  cases cached with
  | known => exact h
  | added => exact ⟨h.inst, h.parents, h.dags⟩
  | full => exact h
  | replaced =>
    have hgone := h.removeNeighbor src
    exact ⟨hgone.inst, hgone.parents, hgone.dags⟩

theorem used_of_getDag_some (h : getDag dio s = some d) :
    (s.dag d).used = true ∧ s.inst.instanceId = dio.instanceId := by
  rw [getDag] at h
  split at h
  next hinst =>
    obtain ⟨_, hid⟩ := Bool.and_eq_true_iff.mp hinst
    have hfind := find?_some (p := fun d => (s.dag d).used && decide ((s.dag d).dagId = dio.dagId)) h
    exact ⟨(Bool.and_eq_true_iff.mp hfind).1, eq_of_beq hid⟩
  · cases h

theorem getDag_of_unused (h : s.inst.used = false) : getDag dio s = none := by
  rw [getDag, h]
  rfl

theorem Idle.processDio (h : Idle s) (hfits : cached.fits src s = true)
    (hok : Joins s cached dio →
        ∀ of ∈ c.findOf dio.ocp,
          dio.dagMinHoprankinc ≤ dio.rank ∧
          dio.rank ≠ infiniteRank ∧
          Rises dio.dagMinHoprankinc (senderMetric s src cached) of) :
    Idle (processDio src cached dio s) ∨ Inv none (processDio src cached dio s) := by
  rw [RplDag.processDio]
  split
  · exact .inl h
  next hmop =>
    rw [getDag_of_unused h.inst]
    dsimp only
    rw [RplDag.processVersion.eq_def, if_pos (.inl h.inst)]
    split
    · exact .inl h
    next hroom =>
      have hadd := h.addNbrFromDio src cached
      obtain ⟨hkey, hmetric, _⟩ := frame_addNbrFromDio hfits hroom
      rw [if_neg (by rw [hadd.inst]; exact Bool.false_ne_true)]
      cases hof : c.findOf dio.ocp with
      | none =>
        rw [RplDag.joinInstance, hof]
        exact .inl hadd
      | some of =>
        have hsome : (c.findOf dio.ocp).isSome := by rw [hof]; rfl
        obtain ⟨hrank, hfinite, hrises⟩ := hok ⟨not_not.mp hmop, h.inst, hroom, hsome⟩ of hof
        rw [← hmetric] at hrises
        exact .inr (hadd.joinInstance hkey hof hrank hfinite hrises)

theorem Inv.processVersion {dag : Option c.DagIdx} (h : Inv none s)
    (hfits : cached.fits src s = true) (hmop : dio.mop = c.mopDefault) (hdag : getDag dio s = dag)
    (hversion : ∀ d ∈ dag, lollipopGreaterThan dio.version (s.dag d).version = false ∧
      ¬(lollipopGreaterThan (s.dag d).version dio.version = true ∧ (s.dag d).joined = true))
    (hok : ReachesCache s dio → cached ≠ .full → HeardOk s src cached dio) :
    Inv none (processVersion src cached dag dio s) := by
  have hreach : ∀ d ∈ dag, s.rootRank ≤ dio.rank → ReachesCache s dio := by
    rintro d ⟨⟩ hrank
    refine ⟨hmop, ?_⟩
    rw [hdag]
    exact ⟨(hversion d rfl).1, (hversion d rfl).2, hrank⟩
  have hreachNew : dag = none → s.inst.instanceId ≠ dio.instanceId ∨ 1 < c.maxDags → ReachesCache s dio := by
    rintro rfl hnew
    refine ⟨hmop, ?_⟩
    rw [hdag]
    exact hnew
  rw [RplDag.processVersion.eq_def]
  split
  next hother =>
    split
    · exact h
    next hroom =>
      have hid : s.inst.instanceId ≠ dio.instanceId := by
        rcases hother with hunused | hid
        · exact absurd (hunused.symm.trans h.linked.inst) Bool.false_ne_true
        · exact hid
      have hnone : dag = none := by
        cases dag with
        | none => rfl
        | some d => exact absurd (used_of_getDag_some hdag).2 hid
      have hadd := h.addNbrFromDio (hok (hreachNew hnone (.inl hid)) hroom).replaced
      rw [if_pos hadd.linked.inst]
      exact hadd
  next hinst =>
    rw [not_or, not_not] at hinst
    split
    · exact h
    · cases dag with
      | some d =>
        refine h.processKnownDag (used_of_getDag_some hdag).1 hfits fun hrank hroom => ?_
        have hheard := hok (hreach d rfl hrank) hroom
        exact ⟨hheard.replaced, hheard.rises hinst.2⟩
      | none =>
        dsimp only
        split
        · exact h
        next hmax =>
          split
          · exact h
          next hroom =>
            have hheard := hok (hreachNew rfl (.inr (Nat.not_le.mp hmax))) hroom
            have hadd := h.addNbrFromDio hheard.replaced
            obtain ⟨hkey, hmetric, hinst'⟩ := frame_addNbrFromDio hfits hroom
            have hrises := hheard.rises hinst.2
            rw [← hmetric, ← hinst'] at hrises
            obtain ⟨hnew, hlive⟩ := hadd.addDag hrises hkey dio
            generalize RplDag.addDag src dio (RplDag.addNbrFromDio src cached s) = added at hnew hlive ⊢
            rcases added with ⟨_ | d, t⟩
            · exact hnew
            · obtain ⟨hused, hsrc⟩ := hlive d rfl
              refine hnew.processKnownDag hused (decide_eq_true (hnew.linked.keys src hsrc)) fun _ _ => ?_
              exact ⟨by rintro ⟨⟩, hnew.linked.rises src hsrc⟩

theorem Inv.processDio (h : Inv none s)
    (hfits : cached.fits src s = true) (hok : ReachesCache s dio → cached ≠ .full → HeardOk s src cached dio)
    (hrepair : ∀ d, Repairs s dio d → RepairOk s src cached d) : Inv none (processDio src cached dio s) := by
  rw [RplDag.processDio]
  split
  · exact h
  next hmop =>
    have hmop := not_not.mp hmop
    cases hdag : getDag dio s with
    | none => exact h.processVersion hfits hmop hdag (by rintro _ ⟨⟩) hok
    | some d =>
      have hd := (used_of_getDag_some hdag).1
      dsimp only
      split
      next hnewer =>
        split
        · have hset := sameTree_modifyDag (s := s) d (fun dag => { dag with
            version := lollipopIncrement dio.version }) fun _ => ⟨rfl, rfl, rfl, rfl⟩
          exact (hset.trans (sameTree_resetDioTimer _)).inv h
        next hrank =>
          have hok := hrepair d ⟨hmop, hdag, hnewer, hrank⟩
          have hsame := sameTree_announcePrefix d dio s
          refine (hsame.inv h).globalRepair ?_ ?_ ⟨?_, fun hknown e he hed => ?_, fun hknown => ?_⟩ dio
          · rw [(hsame.dag d).1]
            exact hd
          · rw [Cached.fits_congr hsame.keys]
            exact hfits
          · rw [(hsame.dag d).2.1, (hsame.dag d).2.2.1]
            exact hok.joined
          · rw [(hsame.dag e).1] at he
            rw [(hsame.dag e).2.2.1]
            exact hok.others hknown e he hed
          · rw [hsame.minHoprankinc, hsame.of, linkMetric, hsame.etx]
            exact hok.rises hknown
      next hnewer =>
        split
        · exact (sameTree_resetDioTimer s).inv h
        next holder =>
          refine h.processVersion hfits hmop hdag ?_ hok
          rintro e ⟨⟩
          exact ⟨Bool.eq_false_of_not_eq_true hnewer, fun hboth => holder (Bool.and_eq_true_iff.mpr hboth)⟩

/-- STEP: every step keeps it, before the node joins and after. -/
theorem step_sound {e : Event c} (hs : Idle s ∨ Inv none s) (hok : ParentsOk s e)
    (hstep : step s e = some t) : Idle t ∨ Inv none t := by
  have hwhen : ∀ {u : State c}, (Inv none s → Inv none u) → (if s.inst.used then some u else none) = some t →
      Idle t ∨ Inv none t := by
    intro u hu ht
    split at ht
    next hused =>
      cases ht
      rcases hs with hidle | hinv
      · exact absurd (hidle.inst.symm.trans hused) Bool.false_ne_true
      · exact .inr (hu hinv)
    · cases ht
  cases e with
  | dio src cached dio =>
    obtain ⟨hjoin, hheard, hrepair⟩ := hok
    rw [step] at hstep
    split at hstep
    next hfits =>
      cases hstep
      rcases hs with hidle | hinv
      · exact hidle.processDio hfits hjoin
      · exact .inr (hinv.processDio hfits (hheard hinv.linked.inst) hrepair)
    · cases hstep
  | removeNeighbor p =>
    rw [step] at hstep
    split at hstep
    · cases hstep
      rcases hs with hidle | hinv
      · exact .inl (hidle.removeNeighbor p)
      · exact .inr (hinv.removeNeighbor hok)
    · cases hstep
  | linkStats p etx fresh callback =>
    rw [step] at hstep
    split at hstep
    · cases hstep
      have hcallback : ∀ t : State c, Idle t ∨ Inv none t → Idle (if callback then linkNeighborCallback p t else t) ∨
          Inv none (if callback then linkNeighborCallback p t else t) := by
        intro t ht
        split
        · rw [linkNeighborCallback]
          split
          · rcases ht with hidle | hinv
            · exact .inl ⟨hidle.inst, hidle.parents, hidle.dags⟩
            · exact .inr ((sameTree_modifyParent p (fun parent => { parent with updated := true })
                fun _ => ⟨rfl, rfl⟩).inv hinv)
          · exact ht
        · exact ht
      refine hcallback _ ?_
      rcases hs with hidle | hinv
      · exact .inl ⟨hidle.inst, hidle.parents, hidle.dags⟩
      · exact .inr (hinv.setLinkStats p etx fresh hok)
    · cases hstep
  | setMode feather =>
    cases hstep
    rcases hs with hidle | hinv
    · exact .inl ⟨hidle.inst, hidle.parents, hidle.dags⟩
    · have hsame : SameTree s { s with feather := feather } :=
        ⟨rfl, rfl, rfl, rfl, rfl, rfl, rfl, fun _ => ⟨rfl, rfl⟩, fun _ => ⟨rfl, rfl, rfl, rfl⟩⟩
      exact .inr (hsame.inv hinv)
  | neighborState => exact absurd hok id
  | purgeDags => exact absurd hok id
  | dao => exact absurd hok id
  | recalculateRanks => exact hwhen (fun h => h.recalculateRanks) hstep
  | localRepair => exact hwhen (fun h => h.localRepair) hstep
  | resetDioTimer => exact hwhen (sameTree_resetDioTimer s).inv hstep
  | dioTimer linkLocal => exact hwhen (sameTree_handleDioTimer linkLocal s).inv hstep
  | daoTimer linkLocal lifetime => exact hwhen (sameTree_handleDaoTimer linkLocal lifetime s).inv hstep
  | scheduleDao delayed => exact hwhen (sameTree_scheduleDao delayed s).inv hstep

theorem Idle.sound (h : Idle s) : Sound s := by
  intro d hused
  rw [h.dags d] at hused
  cases hused

/-- Over every run whose steps all meet the condition, the preferred parent of every DAG is a live parent of it, and in
    the joined DAG the rank grows from the parent to the node. -/
theorem preferredParents_sound {d : c.DagIdx} {random : Nat → UInt16} {es : List (Event c)} {s : State c}
    (hrun : Run step ParentsOk (init c d random) es s) : Sound s := by
  have hinit : Idle (init c d random) := ⟨rfl, fun _ => rfl, fun _ => rfl⟩
  have hend := hrun.invariant (P := fun s => Idle s ∨ Inv none s) (fun _ _ _ hs hok hstep => step_sound hs hok hstep)
    (.inl hinit)
  rcases hend with hidle | hinv
  · exact hidle.sound
  · exact hinv.sound

/-! ### Two DAGs -/

instance (inc metric : UInt16) : (of : Of) → Decidable (Rises inc metric of)
  | .mrhof => inferInstanceAs (Decidable (_ ∨ _))
  | .of0 => inferInstanceAs (Decidable (_ ≠ _))

instance (s : State c) (p : c.Nbr) : Decidable (Dangles s p) := inferInstanceAs (Decidable (_ ∧ _ ∧ _))

instance (s : State c) (dio : Dio) : Decidable (ReachesCache s dio) :=
  match h : getDag dio s with
  | none => decidable_of_iff (dio.mop = c.mopDefault ∧ (s.inst.instanceId ≠ dio.instanceId ∨ 1 < c.maxDags))
      (by rw [ReachesCache, h])
  | some d => decidable_of_iff (dio.mop = c.mopDefault ∧
      lollipopGreaterThan dio.version (s.dag d).version = false ∧
        ¬(lollipopGreaterThan (s.dag d).version dio.version = true ∧ (s.dag d).joined = true) ∧ s.rootRank ≤ dio.rank)
      (by rw [ReachesCache, h])

instance (s : State c) (src : c.Nbr) (cached : Cached) (dio : Dio) : Decidable (HeardOk s src cached dio) :=
  decidable_of_iff ((cached = .replaced → ¬Dangles s src) ∧ (s.inst.instanceId = dio.instanceId →
    Rises s.inst.minHoprankinc (senderMetric s src cached) s.inst.of)) ⟨fun h => ⟨h.1, h.2⟩, fun h => ⟨h.1, h.2⟩⟩

instance (s : State c) (src : c.Nbr) (cached : Cached) (d : c.DagIdx) : Decidable (RepairOk s src cached d) :=
  decidable_of_iff (((s.dag d).joined = true ∨ (s.dag d).preferredParent = none) ∧
    (cached = .known → ∀ e, (s.dag e).used = true → e ≠ d → (s.dag e).preferredParent ≠ some src) ∧
    (cached = .known → Rises s.inst.minHoprankinc (linkMetric s src) s.inst.of))
    ⟨fun h => ⟨h.1, h.2.1, h.2.2⟩, fun h => ⟨h.1, h.2, h.3⟩⟩

instance (s : State c) : (e : Event c) → Decidable (ParentsOk s e)
  | .dio src cached dio => inferInstanceAs (Decidable ((Joins s cached dio → ∀ of ∈ c.findOf dio.ocp,
      dio.dagMinHoprankinc ≤ dio.rank ∧ dio.rank ≠ infiniteRank ∧
        Rises dio.dagMinHoprankinc (senderMetric s src cached) of) ∧
      (s.inst.used = true → ReachesCache s dio → cached ≠ .full → HeardOk s src cached dio) ∧
      ∀ d, Repairs s dio d → RepairOk s src cached d))
  | .removeNeighbor _ => inferInstanceAs (Decidable (¬_))
  | .linkStats .. => inferInstanceAs (Decidable (_ → _))
  | .dao _ | .neighborState .. | .purgeDags => .isFalse id
  | .recalculateRanks | .localRepair | .resetDioTimer | .dioTimer _ | .daoTimer .. | .scheduleDao _ | .setMode _ =>
    .isTrue trivial

instance (s : State c) : Decidable (Sound s) :=
  inferInstanceAs (Decidable (∀ d, (s.dag d).used = true → ∀ p, (s.dag d).preferredParent = some p →
    _ ∧ _ ∧ (_ → _ ∧ _)))

def secondNbr : twoNeighbors.Nbr := ⟨1, by decide⟩

/-- The DIOs of two roots; the DAG of the second one is not grounded. -/
def firstDio (version : UInt8) (rank : UInt16) : Dio := { rootDio version 8 12 30 256 with rank := rank }
def secondDio (version : UInt8) : Dio := { firstDio version 256 with dagId := fun _ => 2, grounded := 0 }

/-- The node is in the first DAG, and knows the second one. -/
def twoDags : List (Event twoNeighbors) :=
  [.dio firstNbr .added (firstDio 240 256), .linkStats firstNbr (some 128) true true,
    .dio secondNbr .added (secondDio 240), .linkStats secondNbr (some 128) true true, .recalculateRanks]

/-- The first DAG is repaired, and the link to the second root becomes worse. -/
def repairedRun : List (Event twoNeighbors) :=
  twoDags ++ [.dio firstNbr .known (firstDio 241 256), .linkStats secondNbr (some 700) true true, .recalculateRanks]

theorem preferredParents_sound_repaired : ∃ s : State twoNeighbors, Run step ParentsOk start repairedRun s ∧
    (finRange 2).map (fun d => (s.dag d).preferredParent) = [some firstNbr, some secondNbr] ∧ Sound s := by
  obtain ⟨s, hrun, hs⟩ : ∃ s : State twoNeighbors, Run step ParentsOk start repairedRun s ∧ _ :=
    exists_run (fun s e => decide (ParentsOk s e)) (fun s : State twoNeighbors =>
      decide ((finRange 2).map (fun d => (s.dag d).preferredParent) = [some firstNbr, some secondNbr]))
      (fun _ _ => of_decide_eq_true) (by decide +kernel)
  exact ⟨s, hrun, of_decide_eq_true hs, preferredParents_sound hrun⟩

def withOf0 : Config := { twoNeighbors with findOf := fun ocp => if ocp = 0 then some .of0 else none }

/-- A rank increase of twice 0x8000. -/
def wrappedRun : List (Event withOf0) :=
  [.dio ⟨0, by decide⟩ .added { rootDio 240 8 12 30 0x8000 with ocp := 0, rank := 0x8000 },
    .linkStats ⟨0, by decide⟩ (some 171) true true, .recalculateRanks]

/-- The node joins with a rank of zero; the parent of a DAG that is not joined goes; a repair takes the parent of
    another DAG; the rank increase of OF0 is zero in 16 bits. -/
theorem preferredParents_unsound :
    (∀ run ∈ [[.dio firstNbr .added (firstDio 240 0)], twoDags ++ [.removeNeighbor secondNbr],
        twoDags ++ [.dio secondNbr .known (firstDio 241 256)], twoDags ++ [.dio firstNbr .known (secondDio 241)]],
      ∃ s : State twoNeighbors, Run step (fun _ _ => True) start run s ∧ ¬Sound s) ∧
    ∃ s : State withOf0, Run step (fun _ _ => True) (init withOf0 ⟨0, by decide⟩ fun _ => 0) wrappedRun s ∧
      ¬Sound s := by
  constructor
  · have hunsound : ∀ run ∈ [[.dio firstNbr .added (firstDio 240 0)], twoDags ++ [.removeNeighbor secondNbr],
        twoDags ++ [.dio secondNbr .known (firstDio 241 256)], twoDags ++ [.dio firstNbr .known (secondDio 241)]],
        (exec step (fun _ _ => true) start run).any (fun s => decide (¬Sound s)) = true := by
      decide +kernel
    intro run hmem
    obtain ⟨s, hrun, hs⟩ := exists_run (fun _ _ => true) _ (fun _ _ _ => trivial) (hunsound run hmem)
    exact ⟨s, hrun, of_decide_eq_true hs⟩
  · have hunsound : (exec step (fun _ _ => true) (init withOf0 ⟨0, by decide⟩ fun _ => 0) wrappedRun).any
        (fun s => decide (¬Sound s)) = true := by
      decide
    obtain ⟨s, hrun, hs⟩ := exists_run (fun _ _ => true) _ (fun _ _ _ => trivial) hunsound
    exact ⟨s, hrun, of_decide_eq_true hs⟩

end CSync.RplDag
