import CSync.Rpl.Dio

/-! What the functions of a DAG leave alone.

    Most of them touch ranks and parents only; few execute operations, and few change the configuration. A property
    that is `Framed` looks at the configuration, the prefixes and the operations only, and lets prefixes with `Q` be
    stored and copied; one that is `Stable` also survives divisions and timers. Then every function that takes no
    configuration from a DIO keeps it. -/

namespace CSync.RplDag
open Function

variable {c : Config}

/-- The instance is the same but for the current DAG, the DTSN and the timers; so are the prefixes and the
    operations. -/
structure Same (s t : State c) : Prop where
  inst : t.inst = { s.inst with
    currentDag := t.inst.currentDag
    dioSend := t.inst.dioSend
    dtsnOut := t.inst.dtsnOut
    dioNextDelay := t.inst.dioNextDelay
    daoTimer := t.inst.daoTimer
    daoLifetimeTimer := t.inst.daoLifetimeTimer }
  prefixInfo : ∀ d, (t.dag d).prefixInfo = (s.dag d).prefixInfo
  ops : t.ops = s.ops

/-- A property of the configuration, the prefixes and the operations, for prefixes with `Q`. -/
structure Framed (Q : Prefix → Prop) (G : State c → Prop) : Prop where
  same : ∀ {s t}, G s → Same s t → G t
  prefixes : ∀ {s}, G s → ∀ d, Q (s.dag d).prefixInfo
  store : ∀ {s} (d : c.DagIdx) {p}, Q p → G s → G (s.modifyDag d fun dag => { dag with prefixInfo := p })
  copy : ∀ {s p}, Q p → G s → G (setIpFromPrefix p s)
  compare : ∀ {s p}, Q p → G s → G (s.op (.compare (p.length.toNat / 8)))
  short : ∀ p, p.length ≤ 128 → Q p

/-- It survives the arithmetic, too. -/
structure Stable (Q : Prefix → Prop) (G : State c → Prop) : Prop extends Framed Q G where
  divide : ∀ {s}, G s → G (s.op (.divide s.inst.minHoprankinc.toNat))
  restart : ∀ {s}, s.inst.dioIntmin < s.inst.dioIntcurrent → G s →
    G { s with inst := { s.inst with dioIntcurrent := s.inst.dioIntmin } }
  double : ∀ {s}, s.inst.dioIntcurrent.toNat < s.inst.dioIntmin.toNat + s.inst.dioIntdoubl.toNat → G s →
    G { s with inst := { s.inst with dioIntcurrent := s.inst.dioIntcurrent + 1 } }
  newDioInterval : ∀ {s}, G s → G (newDioInterval s)
  setDaoLifetimeTimer : ∀ {s}, G s → G (setDaoLifetimeTimer s)
  refreshLifetime : ∀ {s} (d : c.DagIdx), G s → G (refreshLifetime d s)

variable {Q : Prefix → Prop} {G : State c → Prop} {s : State c}

/-! ### Parents and ranks -/

section
variable (h : Framed Q G)
include h

theorem Framed.putDag {d : c.DagIdx} {f : Dag c → Dag c} (hq : Q (f (s.dag d)).prefixInfo) (hs : G s) :
    G (s.modifyDag d f) := by
  refine h.same (h.store d hq hs) ⟨rfl, fun k => ?_, rfl⟩
  change (update s.dag d (f (s.dag d)) k).prefixInfo =
    (update s.dag d { s.dag d with prefixInfo := (f (s.dag d)).prefixInfo } k).prefixInfo
  by_cases hk : k = d
  · rw [hk, update_self, update_self]
  · rw [update_of_ne hk, update_of_ne hk]

theorem Framed.modifyDag {d : c.DagIdx} {f : Dag c → Dag c} (hs : G s)
    (hf : ∀ dag, (f dag).prefixInfo = dag.prefixInfo) : G (s.modifyDag d f) := by
  refine h.putDag ?_ hs
  rw [hf]
  exact h.prefixes hs d

theorem Framed.modifyParent (p : c.Nbr) (f : Parent c → Parent c) (hs : G s) : G (s.modifyParent p f) :=
  h.same hs ⟨rfl, fun _ => rfl, rfl⟩

theorem Framed.randomRand (hs : G s) : G (randomRand s).2 := h.same hs ⟨rfl, fun _ => rfl, rfl⟩

theorem Framed.incrementDtsn (hs : G s) : G (incrementDtsn s) := h.same hs ⟨rfl, fun _ => rfl, rfl⟩

section

variable (d : c.DagIdx)

theorem Framed.setPreferredParent (p : Option c.Nbr) (hs : G s) : G (setPreferredParent d p s) :=
  h.modifyDag hs fun _ => rfl

theorem Framed.nullifyParent (p : c.Nbr) (hs : G s) : G (nullifyParent p s) := by
  rw [RplDag.nullifyParent]
  dsimp only
  split
  · split
    · exact h.setPreferredParent _ _ (h.modifyDag hs fun _ => rfl)
    · exact h.modifyDag hs fun _ => rfl
  · exact hs

theorem Framed.removeParent (p : c.Nbr) (hs : G s) : G (removeParent p s) :=
  h.same (h.nullifyParent p hs) ⟨rfl, fun _ => rfl, rfl⟩

omit h in
theorem foldl_keeps {α : Type} {f : State c → α → State c} (hf : ∀ s a, G s → G (f s a)) (l : List α) (hs : G s) :
    G (l.foldl f s) := by
  induction l generalizing s with
  | nil => exact hs
  | cons a l ih => exact ih (hf s a hs)

omit h in
/-- LOOP: what each parent keeps, all keep. -/
theorem forParents_keeps {f : c.Nbr → State c → State c} (hf : ∀ p s, s.used p = true → G s → G (f p s))
    (hs : G s) : G (forParents f s) := by
  refine foldl_keeps (fun s p hs => ?_) _ hs
  split
  next hused => exact hf p s hused hs
  · exact hs

theorem Framed.removeParents (minimumRank : UInt16) (hs : G s) :
    G (removeParents d minimumRank s) := by
  refine forParents_keeps (fun p s _ hs => ?_) hs
  split
  · exact h.removeParent p hs
  · exact hs

theorem Framed.nullifyParents (minimumRank : UInt16) (hs : G s) :
    G (nullifyParents d minimumRank s) := by
  refine forParents_keeps (fun p s _ hs => ?_) hs
  split
  · exact h.nullifyParent p hs
  · exact hs

theorem Framed.moveParent (src dst : c.DagIdx) (p : c.Nbr) (hs : G s) : G (moveParent src dst p s) := by
  rw [RplDag.moveParent]
  refine h.modifyParent _ _ ?_
  split
  · exact h.modifyDag (h.setPreferredParent _ _ hs) fun _ => rfl
  · exact hs

theorem Framed.addParent (rank : UInt16) (dtsn : UInt8) (p : c.Nbr) (hs : G s) :
    G (addParent d rank dtsn p s) := h.same hs ⟨rfl, fun _ => rfl, rfl⟩

theorem Framed.adoptParent (src : c.Nbr) (dio : Dio) (hs : G s) : G (adoptParent d src dio s) := by
  rw [RplDag.adoptParent]
  split
  · exact h.moveParent _ _ _ hs
  · exact h.addParent _ _ _ _ hs

theorem Framed.firstParent (p : c.Nbr) (hs : G s) : G (firstParent d p s) := by
  rw [RplDag.firstParent]
  exact h.modifyDag (h.setPreferredParent _ _ hs) fun _ => rfl

theorem Framed.selectParent (hs : G s) : G (selectParent d s).2 := by
  rw [RplDag.selectParent]
  dsimp only
  exact h.modifyDag (h.setPreferredParent _ _ hs) fun _ => rfl

theorem Framed.updateRank (best : c.DagIdx) (last : Option c.Nbr) (hs : G s) : G (updateRank best last s) := by
  rw [RplDag.updateRank]
  exact h.modifyDag hs fun _ => rfl

theorem Framed.chooseDag (p : c.Nbr) (hs : G s) : G (chooseDag p s).2 := by
  rw [RplDag.chooseDag]
  dsimp only
  split
  · have hselect := h.selectParent (s.parent p).dag hs
    split
    next heq =>
      rw [heq] at hselect
      exact hselect
    next heq =>
      rw [heq] at hselect
      exact hselect
  · exact hs

/-! ### Neighbors -/

theorem Framed.removeNeighbor (p : c.Nbr) (hs : G s) : G (removeNeighbor p s) := by
  have hremove : G (if s.used p then RplDag.removeParent p s else s) := by
    split
    · exact h.removeParent p hs
    · exact hs
  exact h.same hremove ⟨rfl, fun _ => rfl, rfl⟩

theorem Framed.addNbrFromDio (src : c.Nbr) (cached : Cached) (hs : G s) : G (addNbrFromDio src cached s) := by
  cases cached with
  | known => exact hs
  | added => exact h.same hs ⟨rfl, fun _ => rfl, rfl⟩
  | replaced => exact h.same (h.removeNeighbor src hs) ⟨rfl, fun _ => rfl, rfl⟩
  | full => exact hs

theorem Framed.loopParent (p : c.Nbr) (hs : G s) : G (loopParent p s) := h.modifyParent p _ hs

theorem Framed.linkNeighborCallback (p : c.Nbr) (hs : G s) : G (linkNeighborCallback p s) := by
  rw [RplDag.linkNeighborCallback]
  split
  · exact h.modifyParent p _ hs
  · exact hs

theorem Framed.ipv6NeighborCallback (p : c.Nbr) (hs : G s) : G (ipv6NeighborCallback p s) := by
  rw [RplDag.ipv6NeighborCallback]
  split
  · exact h.loopParent p hs
  · exact hs

theorem Framed.purgeDags (hs : G s) : G (purgeDags s) := by
  refine h.same hs ⟨rfl, fun d => ?_, rfl⟩
  rw [RplDag.purgeDags]
  dsimp only
  split
  · split
    · split
      · rfl
      · rfl
    · rfl
  · rfl

/-! ### Prefixes -/

theorem Framed.checkPrefix {last new : Option Prefix} (hlast : ∀ p ∈ last, Q p) (hnew : ∀ p ∈ new, Q p) (hs : G s) :
    G (checkPrefix last new s) := by
  rcases last with _ | last
  · rcases new with _ | new
    · exact hs
    · exact h.copy (hnew new rfl) hs
  · rcases new with _ | new
    · exact h.copy (hlast last rfl) hs
    · have hcopies : ∀ t, G t → G (setIpFromPrefix new (setIpFromPrefix last t)) :=
        fun t ht => h.copy (hnew new rfl) (h.copy (hlast last rfl) ht)
      rw [RplDag.checkPrefix]
      split
      · have hcompare := h.compare (hnew new rfl) hs
        split
        · exact hcompare
        · exact hcopies _ hcompare
      · exact hcopies _ hs

theorem Framed.switchDag (best : c.DagIdx) (hs : G s) : G (switchDag best s) := by
  have hlast : ∀ p ∈ some s.current.prefixInfo, Q p := by
    rintro p ⟨⟩
    exact h.prefixes hs _
  have hnew : ∀ p ∈ some (s.dag best).prefixInfo, Q p := by
    rintro p ⟨⟩
    exact h.prefixes hs _
  rw [RplDag.switchDag]
  split
  · have hcheck : G (if (s.dag best).prefixInfo.flags &&& autonomous ≠ 0 then
        RplDag.checkPrefix (some s.current.prefixInfo) (some (s.dag best).prefixInfo) s
        else if s.current.prefixInfo.flags &&& autonomous ≠ 0 then
          RplDag.checkPrefix (some s.current.prefixInfo) none s
        else s) := by
      split
      · exact h.checkPrefix hlast hnew hs
      · split
        · exact h.checkPrefix hlast nofun hs
        · exact hs
    dsimp only
    generalize (if (s.dag best).prefixInfo.flags &&& autonomous ≠ 0 then
        RplDag.checkPrefix (some s.current.prefixInfo) (some (s.dag best).prefixInfo) s
        else if s.current.prefixInfo.flags &&& autonomous ≠ 0 then
          RplDag.checkPrefix (some s.current.prefixInfo) none s
        else s) = t at hcheck ⊢
    have hbest := h.modifyDag (d := best) (f := fun dag => { dag with joined := true }) hcheck fun _ => rfl
    have hlast := h.modifyDag (d := t.inst.currentDag) (f := fun dag => { dag with joined := false }) hbest
      fun _ => rfl
    exact h.same hlast ⟨rfl, fun _ => rfl, rfl⟩
  · exact hs

theorem Framed.setPrefix (prefixAddr : IpAddr) (len : UInt8) (hs : G s) :
    G (setPrefix d prefixAddr len s) := by
  rw [RplDag.setPrefix]
  split
  · exact hs
  next hlen =>
    have hnew : Q ⟨fun i => if i.val < (len.toNat + 7) / 8 then prefixAddr i else 0, len, autonomous⟩ :=
      h.short _ (UInt8.not_lt.mp hlen)
    have hset := h.putDag (d := d) (f := fun dag => { dag with prefixInfo := _ }) hnew (h.copy hnew hs)
    have hold : ∀ p ∈ some (s.dag d).prefixInfo, Q p := by
      rintro p ⟨⟩
      exact h.prefixes hs d
    split
    · exact h.checkPrefix nofun (by rintro p ⟨⟩; exact hnew) hset
    · exact h.checkPrefix hold (by rintro p ⟨⟩; exact hnew) hset

theorem Framed.announcePrefix (dio : Dio) (hs : G s) : G (announcePrefix d dio s) := by
  rw [RplDag.announcePrefix]
  split
  · exact h.setPrefix _ _ _ hs
  · exact hs

end

theorem Framed.allocDag (hs : G s) : G (allocDag s).2 := by
  rw [RplDag.allocDag]
  split
  · exact hs
  · dsimp only
    refine h.putDag ?_ hs
    exact h.short emptyPrefix (by decide)

end

theorem framed_sameConfiguration (dio : Dio) (b : Bool) :
    Framed (fun _ => True) fun t : State c => sameConfiguration dio t = b where
  same := by
    intro s t hs hsame
    rw [sameConfiguration, hsame.inst]
    exact hs
  prefixes _ _ := trivial
  store _ _ _ hs := hs
  copy _ hs := hs
  compare _ hs := hs
  short _ _ := trivial

section
variable (h : Stable Q G)
include h

theorem Stable.resetDioTimer (hs : G s) : G (resetDioTimer s) := by
  rw [RplDag.resetDioTimer]
  split
  next hlt => exact h.newDioInterval (h.restart hlt hs)
  · exact hs

theorem Stable.handleDioTimer (linkLocal : Bool) (hs : G s) : G (handleDioTimer linkLocal s) := by
  rw [RplDag.handleDioTimer]
  split
  · exact hs
  · have hok : G { s with dioSendOk := true } := h.same hs ⟨rfl, fun _ => rfl, rfl⟩
    dsimp only
    split
    · exact h.same hs ⟨rfl, fun _ => rfl, rfl⟩
    · split
      next hlt => exact h.newDioInterval (h.double (s := { s with dioSendOk := true }) hlt hok)
      · exact h.newDioInterval hok

theorem Stable.scheduleDao (delayed : Bool) (hs : G s) : G (scheduleDao delayed s) := by
  rw [RplDag.scheduleDao]
  split
  · exact hs
  · split
    · exact hs
    · refine h.setDaoLifetimeTimer (h.same (?_ : G (if delayed then (RplDag.randomRand s).2 else s))
        ⟨rfl, fun _ => rfl, rfl⟩)
      split
      · exact h.randomRand hs
      · exact hs

theorem Stable.handleDaoTimer (linkLocal lifetime : Bool) (hs : G s) : G (handleDaoTimer linkLocal lifetime s) := by
  rw [RplDag.handleDaoTimer]
  have hfired : G (if lifetime then { s with inst := { s.inst with daoLifetimeTimer := false } }
      else { s with inst := { s.inst with daoTimer := false } }) := by
    split
    · exact h.same hs ⟨rfl, fun _ => rfl, rfl⟩
    · exact h.same hs ⟨rfl, fun _ => rfl, rfl⟩
  dsimp only
  generalize (if lifetime then { s with inst := { s.inst with daoLifetimeTimer := false } }
    else { s with inst := { s.inst with daoTimer := false } }) = t at hfired ⊢
  split
  · exact h.same hfired ⟨rfl, fun _ => rfl, rfl⟩
  · split
    · exact h.same hfired ⟨rfl, fun _ => rfl, rfl⟩
    · exact h.setDaoLifetimeTimer (h.same hfired ⟨rfl, fun _ => rfl, rfl⟩)

theorem Stable.acceptableRank (d : c.DagIdx) (rank : UInt16) (hs : G s) : G (acceptableRank d rank s).2 := by
  rw [RplDag.acceptableRank]
  split
  · exact hs
  · split
    · exact hs
    · exact h.divide (h.divide hs)

/-! ### Ranks -/

theorem Stable.selectDag (p : c.Nbr) (hs : G s) : G (selectDag p s).2 := by
  rw [RplDag.selectDag]
  have hchoose := h.chooseDag p hs
  generalize RplDag.chooseDag p s = chosen at hchoose ⊢
  rcases chosen with ⟨_ | best, t⟩
  · exact hchoose
  · dsimp only at hchoose ⊢
    have hupdate := h.updateRank best s.current.preferredParent (h.switchDag best hchoose)
    have hacc := h.acceptableRank best
      ((RplDag.updateRank best s.current.preferredParent (RplDag.switchDag best t)).dag best).rank hupdate
    generalize RplDag.acceptableRank best _ _ = accepted at hacc ⊢
    rcases accepted with ⟨_ | _, u⟩
    · exact h.setPreferredParent _ _ hacc
    · dsimp only at hacc ⊢
      split
      · refine h.resetDioTimer (h.scheduleDao true ?_)
        split
        · exact h.incrementDtsn hacc
        · exact hacc
      · exact hacc

theorem Stable.localRepair (hs : G s) : G (localRepair s) := by
  have hdags : G ((dags c).foldl (fun s d => if (s.dag d).used then RplDag.nullifyParents d 0
      (s.modifyDag d fun dag => { dag with rank := infiniteRank }) else s) s) := by
    refine foldl_keeps (fun s d hs => ?_) _ hs
    split
    · exact h.nullifyParents d 0 (h.modifyDag hs fun _ => rfl)
    · exact hs
  rw [RplDag.localRepair]
  split
  · exact h.incrementDtsn (h.resetDioTimer hdags)
  · exact h.resetDioTimer hdags

theorem Stable.processParentEvent (p : c.Nbr) (hs : G s) : G (processParentEvent p s).2 := by
  rw [processParentEvent_eq]
  have hselect : ∀ (result : Bool) (t : State c), G t →
      G (afterSelect s.current.preferredParent result (RplDag.selectDag p t)).2 := by
    intro result t ht
    have hsel := h.selectDag p ht
    generalize RplDag.selectDag p t = selected at hsel ⊢
    rcases selected with ⟨_ | d, u⟩
    · rw [afterSelect]
      split
      · exact h.localRepair hsel
      · exact hsel
    · exact hsel
  have hacc := h.acceptableRank (s.parent p).dag (s.parent p).rank hs
  split
  · exact hselect true _ hacc
  · dsimp only
    split
    · exact h.nullifyParent p hacc
    · exact hselect false _ (h.nullifyParent p hacc)

theorem Stable.recalculateRanks (hs : G s) : G (recalculateRanks s) := by
  refine forParents_keeps (fun p s _ hs => ?_) hs
  split
  · exact h.processParentEvent p (h.modifyParent p _ hs)
  · exact hs

theorem Stable.checkDaoLoop (src : c.Nbr) (hs : G s) : G (checkDaoLoop src s) := by
  rw [RplDag.checkDaoLoop]
  split
  · have hdivide := h.divide (h.divide hs)
    split
    · exact h.loopParent src hdivide
    · exact hdivide
  · exact hs

theorem Stable.globalRepair {dio : Dio} (hrepair : ∀ t, G t → G (repairConfiguration dio t)) (src : c.Nbr)
    (known : Bool) (d : c.DagIdx) (hs : G s) : G (globalRepair src known d dio s) := by
  have hremoved := h.modifyDag (d := d) (f := fun dag => { dag with version := dio.version })
    (h.removeParents d 0 hs) fun _ => rfl
  have hcounted := h.incrementDtsn (h.modifyDag (d := d) (f := fun dag => { dag with minRank := infiniteRank })
    (hrepair _ hremoved) fun _ => rfl)
  rw [RplDag.globalRepair]
  split
  · exact h.processParentEvent src (h.modifyDag (h.addParent d dio.rank dio.dtsn src hcounted) fun _ => rfl)
  · exact h.modifyDag hcounted fun _ => rfl

theorem Stable.processCandidate (src : c.Nbr) (d : c.DagIdx) (dio : Dio) (hs : G s) :
    G (processCandidate src d dio s) := by
  rw [RplDag.processCandidate]
  have hrefresh := h.refreshLifetime d hs
  generalize RplDag.refreshLifetime d s = t at hrefresh ⊢
  have hparent : G (if t.used src = true ∧ (t.parent src).dag = d then t else RplDag.adoptParent d src dio t) := by
    split
    · exact hrefresh
    · exact h.adoptParent d src dio hrefresh
  generalize (if t.used src = true ∧ (t.parent src).dag = d then t else RplDag.adoptParent d src dio t) = u
    at hparent ⊢
  have hrank := h.modifyParent src (fun parent => { parent with rank := dio.rank }) hparent
  generalize u.modifyParent src (fun parent => { parent with rank := dio.rank }) = v at hrank ⊢
  have hreset : G (if dio.rank = infiniteRank ∧ (v.dag d).preferredParent = some src then RplDag.resetDioTimer v
      else v) := by
    split
    · exact h.resetDioTimer hrank
    · exact hrank
  have hevent := h.processParentEvent src (h.modifyParent src (fun parent => { parent with updated := true }) hreset)
  generalize RplDag.processParentEvent src _ = event at hevent ⊢
  rcases event with ⟨_ | _, w⟩
  · exact hevent
  · refine h.modifyParent src _ ?_
    split
    · exact h.scheduleDao true (h.incrementDtsn hevent)
    · exact hevent

theorem Stable.processKnownDag (src : c.Nbr) (cached : Cached) (d : c.DagIdx) (dio : Dio) (hs : G s) :
    G (processKnownDag src cached d dio s) := by
  have hannounce := h.announcePrefix d dio hs
  have hadd := h.addNbrFromDio src cached hannounce
  rw [RplDag.processKnownDag]
  split
  · exact hs
  · dsimp only
    split
    · exact hannounce
    · split
      · exact hadd
      · exact h.processCandidate src d dio hadd

theorem Stable.addDag {dio : Dio} (hq : freeDag s ≠ none → sameConfiguration dio s → Q dio.prefixInfo) (src : c.Nbr)
    (hs : G s) : G (addDag src dio s).2 := by
  have hsame := framed_sameConfiguration (c := c) dio (sameConfiguration dio s)
  have hconf := hsame.allocDag (s := s) rfl
  have halloc := h.allocDag hs
  have hfree : (RplDag.allocDag s).1 ≠ none → freeDag s ≠ none := by
    rw [RplDag.allocDag]
    intro hsome hnone
    rw [hnone] at hsome
    exact hsome rfl
  rw [RplDag.addDag]
  generalize RplDag.allocDag s = alloc at hconf halloc hfree ⊢
  rcases alloc with ⟨_ | d, t⟩
  · exact halloc
  · have hconf := hsame.modifyParent src (fun parent => { parent with rank := dio.rank })
      (hsame.adoptParent d src dio hconf)
    have hadopt := h.modifyParent src (fun parent => { parent with rank := dio.rank })
      (h.adoptParent d src dio halloc)
    dsimp only
    generalize (RplDag.adoptParent d src dio t).modifyParent src (fun parent => { parent with rank := dio.rank }) = u
      at hconf hadopt ⊢
    split
    next hyes =>
      rw [hconf] at hyes
      have hput := h.putDag (d := d) (f := fun dag => { dag with
        used := true
        grounded := dio.grounded
        preference := dio.preference
        version := dio.version
        dagId := dio.dagId
        prefixInfo := dio.prefixInfo }) (hq (hfree (Option.some_ne_none d)) hyes) hadopt
      dsimp only
      exact h.modifyParent src _ (h.processParentEvent src (h.firstParent d src hput))
    · dsimp only
      exact h.modifyDag (h.removeParent src hadopt) fun _ => rfl

end

section
variable {L : State c → Prop} (h : Stable Q G) (hL : Framed Q L)
include h hL

omit h hL in
/-- A table that was cleared has a block. -/
theorem freeDag_allocInstance (instanceId : UInt8) (s : State c) : freeDag (allocInstance instanceId s) ≠ none := by
  intro hnone
  have hused := List.find?_eq_none.mp hnone s.inst.currentDag (List.mem_finRange _)
  exact hused rfl

theorem Stable.joinInstance {dio : Dio} (hq : Q dio.prefixInfo)
    (halloc : ∀ t, L t → L (allocInstance dio.instanceId t))
    (hjoin : ∀ of d t, L t → G (joinConfiguration of d dio t)) (src : c.Nbr) (hof : (c.findOf dio.ocp).isSome)
    (hs : L s) : G (joinInstance src dio s) := by
  obtain ⟨of, hof⟩ := Option.isSome_iff_exists.mp hof
  have hdag := hL.allocDag (halloc s hs)
  have hsome : (RplDag.allocDag (allocInstance dio.instanceId s)).1 ≠ none := by
    have hfree := freeDag_allocInstance dio.instanceId s
    rw [RplDag.allocDag]
    split
    next hnone => exact absurd hnone hfree
    · exact Option.some_ne_none _
  rw [RplDag.joinInstance, hof]
  generalize RplDag.allocDag (allocInstance dio.instanceId s) = alloc at hdag hsome ⊢
  rcases alloc with ⟨_ | d, t⟩
  · exact absurd rfl hsome
  · have hadd := hL.addParent d dio.rank dio.dtsn src hdag
    dsimp only
    generalize RplDag.addParent d dio.rank dio.dtsn src t = u at hadd ⊢
    have hcheck : L (if dio.prefixInfo.flags &&& autonomous ≠ 0 then
        RplDag.checkPrefix none (some dio.prefixInfo) u else u) := by
      split
      · exact hL.checkPrefix nofun (by rintro p ⟨⟩; exact hq) hadd
      · exact hadd
    generalize (if dio.prefixInfo.flags &&& autonomous ≠ 0 then
        RplDag.checkPrefix none (some dio.prefixInfo) u else u) = v at hcheck ⊢
    have hput := hL.putDag (d := d) (f := fun dag => { dag with
      joined := true
      preference := dio.preference
      grounded := dio.grounded
      version := dio.version
      dagId := dio.dagId
      prefixInfo := dio.prefixInfo }) hq hcheck
    have hreset := h.resetDioTimer (h.firstParent d src (hjoin of d _ hput))
    split
    · exact h.scheduleDao true hreset
    · exact hreset

end

end CSync.RplDag
