import CSync.Rpl.DagFrame

/-! What a step of a node in its DAGs keeps.

    A DIO configures the node when it lets it join, when it adds a DAG, and when it is of a newer version. -/

namespace CSync.RplDag
open Function

variable {c : Config}

/-- The node joins with this DIO. -/
structure Joins (s : State c) (cached : Cached) (dio : Dio) : Prop where
  mop : dio.mop = c.mopDefault
  unused : s.inst.used = false
  cached : cached ≠ .full
  findOf : (c.findOf dio.ocp).isSome

/-- The node adds the DAG of this DIO. -/
structure Adds (s : State c) (cached : Cached) (dio : Dio) : Prop where
  mop : dio.mop = c.mopDefault
  used : s.inst.used = true
  instanceId : s.inst.instanceId = dio.instanceId
  unknown : getDag dio s = none
  rank : s.current.rank ≠ s.rootRank
  cached : cached ≠ .full
  maxDags : 1 < c.maxDags
  free : freeDag s ≠ none
  same : sameConfiguration dio s = true

/-- The node takes over the configuration of a newer version. -/
structure Repairs (s : State c) (dio : Dio) (d : c.DagIdx) : Prop where
  mop : dio.mop = c.mopDefault
  known : getDag dio s = some d
  newer : lollipopGreaterThan dio.version (s.dag d).version = true
  rank : (s.dag d).rank ≠ s.rootRank

/-- `L` holds, and `G` of a node with an instance. -/
def Holds (L G : State c → Prop) (s : State c) : Prop := L s ∧ (s.inst.used = true → G s)

variable {Q : Prefix → Prop} {L G : State c → Prop} {s : State c}

/-- Whether there is an instance. -/
theorem framed_used (b : Bool) : Framed (fun _ => True) fun t : State c => t.inst.used = b where
  same := by
    intro s t hs hsame
    rw [hsame.inst]
    exact hs
  prefixes _ _ := trivial
  store _ _ _ hs := hs
  copy _ hs := hs
  compare _ hs := hs
  short _ _ := trivial

theorem Framed.holds (hL : Framed Q L) (hG : Framed Q G) : Framed Q (Holds L G) where
  same := by
    intro s t hs hsame
    refine ⟨hL.same hs.1 hsame, fun hused => hG.same (hs.2 ?_) hsame⟩
    rw [hsame.inst] at hused
    exact hused
  prefixes hs d := hL.prefixes hs.1 d
  store d _ hq hs := ⟨hL.store d hq hs.1, fun hused => hG.store d hq (hs.2 hused)⟩
  copy hq hs := ⟨hL.copy hq hs.1, fun hused => hG.copy hq (hs.2 hused)⟩
  compare hq hs := ⟨hL.compare hq hs.1, fun hused => hG.compare hq (hs.2 hused)⟩
  short := hL.short

theorem used_nullifyParent (p : c.Nbr) (s : State c) (d : c.DagIdx) :
    ((nullifyParent p s).dag d).used = (s.dag d).used := by
  have hput : ∀ (t : State c) (k : c.DagIdx) (f : Dag c → Dag c), (f (t.dag k)).used = (t.dag k).used →
      ((t.modifyDag k f).dag d).used = (t.dag d).used := by
    intro t k f hf
    change (update t.dag k (f (t.dag k)) d).used = (t.dag d).used
    by_cases hd : d = k
    · rw [hd, update_self, hf]
    · rw [update_of_ne hd]
  rw [nullifyParent]
  dsimp only
  split
  · split
    · rw [setPreferredParent, hput _ _ _ rfl, hput _ _ _ rfl]
    · rw [hput _ _ _ rfl]
  · rfl

theorem used_addNbrFromDio (src : c.Nbr) (cached : Cached) (s : State c) (d : c.DagIdx) :
    ((addNbrFromDio src cached s).dag d).used = (s.dag d).used := by
  cases cached with
  | known => rfl
  | added => rfl
  | full => rfl
  | replaced =>
    change ((if s.used src then removeParent src s else s).dag d).used = (s.dag d).used
    split
    · exact used_nullifyParent src s d
    · rfl

theorem freeDag_addNbrFromDio (src : c.Nbr) (cached : Cached) (s : State c) :
    freeDag (addNbrFromDio src cached s) = freeDag s := by
  exact congrArg (fun f => List.find? f (dags c)) (funext fun d => by rw [used_addNbrFromDio])

theorem used_of_getDag {dio : Dio} {d : c.DagIdx} (h : getDag dio s = some d) : s.inst.used = true := by
  rw [getDag] at h
  split at h
  next hused => exact (Bool.and_eq_true_iff.mp hused).1
  · cases h

/-- What `dio` configures may be. -/
structure MayConfigure (Q : Prefix → Prop) (L G : State c → Prop) (s : State c) (cached : Cached) (dio : Dio) :
    Prop where
  join : Joins s cached dio → Q dio.prefixInfo ∧ ∀ of d t, L t → G (joinConfiguration of d dio t)
  add : Adds s cached dio → Q dio.prefixInfo
  repair : ∀ d, Repairs s dio d → ∀ t, G t → G (repairConfiguration dio t)

section
variable (hL : Framed Q L) (hG : Stable Q G) (hloose : ∀ t, G t → L t)
  (halloc : ∀ instanceId t, L t → L (allocInstance instanceId t))
include hL hG hloose halloc

theorem Holds.processVersion {cached : Cached} {dio : Dio} (hok : MayConfigure Q L G s cached dio)
    (hmop : dio.mop = c.mopDefault) (src : c.Nbr) {dag : Option c.DagIdx} (hdag : getDag dio s = dag)
    (hs : Holds L G s) : Holds L G (processVersion src cached dag dio s) := by
  have hall : ∀ t, G t → Holds L G t := fun t ht => ⟨hloose t ht, fun _ => ht⟩
  have hadded := (hL.holds hG.toFramed).addNbrFromDio src cached hs
  have hkept := (framed_used (c := c) s.inst.used).addNbrFromDio src cached (s := s) rfl
  rw [RplDag.processVersion.eq_def]
  split
  · -- no instance, or another one
    split
    · exact hs
    next hroom =>
      dsimp only
      split
      · exact hadded
      next hunused =>
        have hunused : s.inst.used = false := by
          rw [← hkept]
          exact Bool.eq_false_of_not_eq_true hunused
        cases hof : c.findOf dio.ocp with
        | none =>
          rw [joinInstance, hof]
          exact hadded
        | some of =>
          have hsome : (c.findOf dio.ocp).isSome := by rw [hof]; rfl
          obtain ⟨hq, hconf⟩ := hok.join ⟨hmop, hunused, hroom, hsome⟩
          exact hall _ (hG.joinInstance hL hq (halloc _) hconf src hsome hadded.1)
  next hinst =>
    rw [not_or, Bool.not_eq_false, not_not] at hinst
    obtain ⟨hused, hid⟩ := hinst
    have hsG := hs.2 hused
    refine hall _ ?_
    split
    · exact hsG
    next hroot =>
      cases dag with
      | some d => exact hG.processKnownDag src cached d dio hsG
      | none =>
        dsimp only
        split
        · exact hsG
        next hmax =>
          split
          · exact hsG
          next hroom =>
            have hq : freeDag (addNbrFromDio src cached s) ≠ none →
                sameConfiguration dio (addNbrFromDio src cached s) → Q dio.prefixInfo := by
              intro hfree hconf
              rw [freeDag_addNbrFromDio] at hfree
              rw [(framed_sameConfiguration dio (sameConfiguration dio s)).addNbrFromDio src cached (s := s) rfl]
                at hconf
              exact hok.add ⟨hmop, hused, hid, hdag, fun hrank => hroot ⟨hrank, Option.some_ne_none _⟩, hroom,
                Nat.not_le.mp hmax, hfree, hconf⟩
            have hdagAdded := hG.addDag hq src (hG.addNbrFromDio src cached hsG)
            generalize addDag src dio (addNbrFromDio src cached s) = added at hdagAdded ⊢
            rcases added with ⟨_ | d, t⟩
            · exact hdagAdded
            · exact hG.processKnownDag src .known d dio hdagAdded

theorem Holds.processDio {cached : Cached} {dio : Dio} (hok : MayConfigure Q L G s cached dio) (src : c.Nbr)
    (hs : Holds L G s) : Holds L G (processDio src cached dio s) := by
  have hall : ∀ t, G t → Holds L G t := fun t ht => ⟨hloose t ht, fun _ => ht⟩
  rw [RplDag.processDio]
  split
  · exact hs
  next hmop =>
    rw [not_not] at hmop
    cases hdag : getDag dio s with
    | none => exact Holds.processVersion hL hG hloose halloc hok hmop src hdag hs
    | some d =>
      have hsG := hs.2 (used_of_getDag hdag)
      dsimp only
      split
      next hnewer =>
        split
        · exact hall _ (hG.resetDioTimer (hG.modifyDag hsG fun _ => rfl))
        next hrank =>
          exact hall _ (hG.globalRepair (hok.repair d ⟨hmop, hdag, hnewer, hrank⟩) src _ d
            (hG.announcePrefix d dio hsG))
      · split
        · exact hall _ (hG.resetDioTimer hsG)
        · exact Holds.processVersion hL hG hloose halloc hok hmop src hdag hs

/-- STEP: every step keeps it, if a DIO that configures the node may. -/
theorem Holds.step {e : Event c} {t : State c} (hs : Holds L G s) (hok : ∀ src cached dio, e = .dio src cached dio →
    MayConfigure Q L G s cached dio) (hstep : step s e = some t) : Holds L G t := by
  have hall : ∀ t, G t → Holds L G t := fun t ht => ⟨hloose t ht, fun _ => ht⟩
  have hJ := hL.holds hG.toFramed
  have hwhen : ∀ {u : State c}, (G s → G u) → (if s.inst.used then some u else none) = some t → Holds L G t := by
    intro u hu ht
    split at ht
    next hused =>
      cases ht
      exact hall _ (hu (hs.2 hused))
    · cases ht
  cases e with
  | dio src cached dio =>
    rw [RplDag.step] at hstep
    split at hstep
    · cases hstep
      exact Holds.processDio hL hG hloose halloc (hok src cached dio rfl) src hs
    · cases hstep
  | removeNeighbor p =>
    rw [RplDag.step] at hstep
    split at hstep
    · cases hstep
      exact hJ.removeNeighbor p hs
    · cases hstep
  | linkStats p etx fresh callback =>
    rw [RplDag.step] at hstep
    split at hstep
    · have hstats : Holds L G { s with
          etx := update s.etx p etx, fresh := update s.fresh p fresh } :=
        hJ.same hs ⟨rfl, fun _ => rfl, rfl⟩
      cases hstep
      split
      · exact hJ.linkNeighborCallback p hstats
      · exact hstats
    · cases hstep
  | neighborState p reachable =>
    cases hstep
    exact hJ.ipv6NeighborCallback p (hJ.same hs ⟨rfl, fun _ => rfl, rfl⟩)
  | setMode feather =>
    cases hstep
    exact hJ.same hs ⟨rfl, fun _ => rfl, rfl⟩
  | recalculateRanks => exact hwhen hG.recalculateRanks hstep
  | localRepair => exact hwhen hG.localRepair hstep
  | purgeDags => exact hwhen hG.purgeDags hstep
  | dao src =>
    rw [RplDag.step] at hstep
    split at hstep
    next hused =>
      cases hstep
      exact hall _ (hG.checkDaoLoop src (hs.2 hused.1))
    · cases hstep
  | resetDioTimer => exact hwhen hG.resetDioTimer hstep
  | dioTimer linkLocal => exact hwhen (hG.handleDioTimer linkLocal) hstep
  | daoTimer linkLocal lifetime => exact hwhen (hG.handleDaoTimer linkLocal lifetime) hstep
  | scheduleDao delayed => exact hwhen (hG.scheduleDao delayed) hstep

end

end CSync.RplDag
