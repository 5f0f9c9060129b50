import CSync.Rpl.DaoAck

/-! The numbers of forwarded DAOs over a run.

    A mark is what a route remembers of a pending DAO. Marks come from the log of forwarded DAOs, each with a draw
    of its own (`Inv`). As long as the marks are from the last 128 draws, their numbers are different, so that an
    acknowledgement finds the one route that it is for. -/

namespace CSync.RplDao
open Lib List

/-- The number of a draw. -/
def numberOf : Nat → UInt8
  | 0 => lollipopInit
  | n + 1 => lollipopIncrement (numberOf n)

theorem lollipopIncrement_toNat (counter : UInt8) : (lollipopIncrement counter).toNat =
    if 127 < counter.toNat then (counter.toNat + 1) % 256 else (counter.toNat + 1) % 128 := by
  have hall : ∀ t : Fin 256, (lollipopIncrement (UInt8.ofNat t)).toNat =
      if 127 < (UInt8.ofNat t).toNat then ((UInt8.ofNat t).toNat + 1) % 256 else ((UInt8.ofNat t).toNat + 1) % 128 := by
    decide +kernel
  obtain ⟨t, rfl⟩ := exists_byte counter
  exact hall t

theorem numberOf_toNat : ∀ n : Nat, (numberOf n).toNat = if n < 16 then 240 + n else (n - 16) % 128
  | 0 => rfl
  | n + 1 => by
    rw [numberOf, lollipopIncrement_toNat, numberOf_toNat n]
    split <;> split <;> split <;> omega

/-- Fewer than 128 draws apart, numbers are different. -/
theorem numberOf_inj {m n : Nat} (hm : m < n + 128) (hn : n < m + 128) (h : numberOf m = numberOf n) : m = n := by
  have hnat := congrArg UInt8.toNat h
  rw [numberOf_toNat, numberOf_toNat] at hnat
  split at hnat <;> split at hnat <;> omega

/-! ### Marks -/

/-- A pending DAO: its draw and number, the child that sent it, and the child's number. -/
structure Mark where
  number : Nat
  seq : UInt8
  child : IpAddr
  childSeq : UInt8

def Route.mark (r : Route) : Option Mark :=
  if r.daoPending then some ⟨r.number, r.daoSeqnoOut, r.nexthop, r.daoSeqnoIn⟩ else none

def marks (routes : List Route) : List Mark := routes.filterMap Route.mark

def Message.mark : Message → Option Mark
  | .forwarded _ seq number child childSeq => some ⟨number, seq, child, childSeq⟩
  | _ => none

/-- The DAOs that were forwarded. -/
def log (s : State) : List Mark := s.sent.filterMap Message.mark

variable {rs rest : List Route} {r : Route} {s t u : State} {c : Config} {length sequence : UInt8} {sender : IpAddr}

theorem marks_perm {rs' : List Route} (h : rs.Perm rs') : (marks rs).Perm (marks rs') := h.filterMap _

theorem marks_sublist {rs' : List Route} (h : rs.Sublist rs') : (marks rs).Sublist (marks rs') := h.filterMap _

theorem marks_map {f : Route → Route} (hf : ∀ r, (f r).mark = r.mark) (rs : List Route) :
    marks (rs.map f) = marks rs := by
  rw [marks, filterMap_map]
  exact filterMap_congr fun r _ => hf r

theorem marks_cons_congr {r' : Route} (h : r'.mark = r.mark) (rs : List Route) :
    marks (r' :: rs) = marks (r :: rs) := by
  rw [marks, marks, filterMap_cons, filterMap_cons, h]

theorem marks_subperm_cons (r : Route) (rs : List Route) : (marks rs).Subperm (marks (r :: rs)) :=
  (marks_sublist (sublist_cons_self r rs)).subperm

theorem mem_marks {m : Mark} : m ∈ marks rs ↔ ∃ r ∈ rs, r.daoPending = true ∧
    m = ⟨r.number, r.daoSeqnoOut, r.nexthop, r.daoSeqnoIn⟩ := by
  rw [marks, mem_filterMap]
  refine exists_congr fun r => and_congr_right fun _ => ?_
  rw [Route.mark]
  split
  next hp =>
    rw [Option.some.injEq, eq_comm]
    exact ⟨fun h => ⟨hp, h⟩, fun h => h.2⟩
  next hp => exact iff_of_false nofun (fun h => hp h.1)

/-! ### What a step can do -/

/-- Marks may go; nothing is drawn or forwarded. -/
structure Quiet (s t : State) : Prop where
  marks : (marks t.routes).Subperm (marks s.routes)
  log : log t = log s
  drawn : t.drawn = s.drawn
  daoSequence : t.daoSequence = s.daoSequence

theorem Quiet.refl (s : State) : Quiet s s := ⟨List.Subperm.refl _, rfl, rfl, rfl⟩

theorem Quiet.trans (h : Quiet s t) (h' : Quiet t u) : Quiet s u :=
  ⟨h'.marks.trans h.marks, h'.log.trans h.log, h'.drawn.trans h.drawn, h'.daoSequence.trans h.daoSequence⟩

/-- Nothing, a number is drawn, a DAO is forwarded again, or one is forwarded under a number of its own. -/
inductive Effect (s t : State) : Prop
  | quiet (h : Quiet s t)
  | drawn (marks : (marks t.routes).Subperm (marks s.routes)) (log : log t = log s) (drawn : t.drawn = s.drawn + 1)
      (daoSequence : t.daoSequence = lollipopIncrement s.daoSequence)
  | again {m : Mark} (mem : m ∈ marks s.routes) (marks : (marks t.routes).Subperm (marks s.routes))
      (log : log t = log s ++ [m]) (drawn : t.drawn = s.drawn) (daoSequence : t.daoSequence = s.daoSequence)
  | fresh {m : Mark} (number : m.number = s.drawn + 1) (seq : m.seq = lollipopIncrement s.daoSequence)
      (marks : (marks t.routes).Subperm (m :: marks s.routes)) (log : log t = log s ++ [m])
      (drawn : t.drawn = s.drawn + 1) (daoSequence : t.daoSequence = lollipopIncrement s.daoSequence)

theorem Effect.before (h : Quiet s t) (h' : Effect t u) : Effect s u := by
  cases h' with
  | quiet h' => exact .quiet (h.trans h')
  | drawn hm hl hd hq =>
    exact .drawn (hm.trans h.marks) (hl.trans h.log) (hd.trans (congrArg (· + 1) h.drawn))
      (hq.trans (congrArg _ h.daoSequence))
  | again hmem hm hl hd hq =>
    exact .again (h.marks.subset hmem) (hm.trans h.marks) (by rw [hl, h.log]) (hd.trans h.drawn)
      (hq.trans h.daoSequence)
  | fresh hn hs hm hl hd hq =>
    exact .fresh (hn.trans (congrArg (· + 1) h.drawn)) (hs.trans (congrArg _ h.daoSequence))
      (hm.trans ((subperm_cons _).mpr h.marks)) (by rw [hl, h.log]) (hd.trans (congrArg (· + 1) h.drawn))
      (hq.trans (congrArg _ h.daoSequence))

theorem Effect.after (h : Effect s t) (h' : Quiet t u) : Effect s u := by
  cases h with
  | quiet h => exact .quiet (h.trans h')
  | drawn hm hl hd hq =>
    exact .drawn (h'.marks.trans hm) (h'.log.trans hl) (h'.drawn.trans hd) (h'.daoSequence.trans hq)
  | again hmem hm hl hd hq =>
    exact .again hmem (h'.marks.trans hm) (h'.log.trans hl) (h'.drawn.trans hd) (h'.daoSequence.trans hq)
  | fresh hn hs hm hl hd hq =>
    exact .fresh hn hs (h'.marks.trans hm) (h'.log.trans hl) (h'.drawn.trans hd) (h'.daoSequence.trans hq)

theorem quiet_routes (h : (marks rs).Subperm (marks s.routes)) : Quiet s { s with routes := rs } := ⟨h, rfl, rfl, rfl⟩

theorem quiet_send {m : Message} (h : m.mark = none) (s : State) : Quiet s (send m s) := by
  refine ⟨List.Subperm.refl _, ?_, rfl, rfl⟩
  rw [log, send, filterMap_append, filterMap_cons, h, filterMap_nil, append_nil]
  rfl

theorem quiet_daoAckOutput (kFlag : Bool) (dest : IpAddr) (seq status : UInt8) (s : State) :
    Quiet s (daoAckOutput kFlag dest seq status s) := by
  cases kFlag with
  | false => exact .refl s
  | true => exact quiet_send rfl s

theorem lookup_perm (addr : IpAddr) (routes : List Route) :
    ((lookup addr routes).1.toList ++ (lookup addr routes).2).Perm routes := by
  rw [lookup]
  cases hi : lookupIndex addr routes 0 0 none with
  | none => exact List.Perm.refl _
  | some i =>
    rw [Option.bind_some]
    cases hr : routes[i]? with
    | none => exact List.Perm.refl _
    | some r =>
      obtain ⟨hlt, rfl⟩ := List.getElem?_eq_some_iff.mp hr
      exact getElem_cons_eraseIdx_perm hlt

theorem pushRoute_marks {ipaddr : IpAddr} {nexthop : IpAddr} (routes : List Route) :
    (marks ((pushRoute c ipaddr length nexthop routes).1.toList ++
      (pushRoute c ipaddr length nexthop routes).2)).Subperm (marks routes) ∧
    ∀ r ∈ (pushRoute c ipaddr length nexthop routes).1, r.nexthop = nexthop := by
  rw [pushRoute]
  split
  · split
    · refine ⟨(marks_sublist (dropLast_sublist routes)).subperm, ?_⟩
      rintro r ⟨⟩
      rfl
    · exact ⟨List.Subperm.refl _, nofun⟩
  · refine ⟨List.Subperm.refl _, ?_⟩
    rintro r ⟨⟩
    rfl

theorem nexthop_eq {addr : IpAddr} (h : s.nexthop r = some addr) : r.nexthop = addr := by
  rw [State.nexthop] at h
  split at h
  · exact Option.some.inj h
  · cases h

theorem routeAdd_marks {ipaddr : IpAddr} {nexthop : IpAddr} (s : State) :
    (marks ((routeAdd c ipaddr length nexthop s).1.toList ++ (routeAdd c ipaddr length nexthop s).2)).Subperm
      (marks s.routes) ∧
    ∀ r ∈ (routeAdd c ipaddr length nexthop s).1, r.nexthop = nexthop := by
  rw [routeAdd]
  split
  · have hperm := marks_perm (lookup_perm ipaddr s.routes)
    rcases hl : lookup ipaddr s.routes with ⟨_ | r, rest⟩
    · rw [hl] at hperm
      obtain ⟨hpush, hnext⟩ := pushRoute_marks (c := c) rest
      exact ⟨hpush.trans hperm.subperm, hnext⟩
    · rw [hl] at hperm
      dsimp only
      split
      next heq =>
        refine ⟨hperm.subperm, ?_⟩
        rintro r' ⟨⟩
        exact nexthop_eq heq
      · obtain ⟨hpush, hnext⟩ := pushRoute_marks (c := c) rest
        exact ⟨hpush.trans ((marks_subperm_cons r rest).trans hperm.subperm), hnext⟩
  · exact ⟨List.Subperm.refl _, nofun⟩

/-! ### DAOs -/

theorem effect_fresh {parent : IpAddr} (hrest : (marks rest).Subperm (marks s.routes)) (hr : r.nexthop = sender) :
    Effect s (forward parent sequence sender (prepareForDaoFwd sequence r rest s)) := by
  have hlog : log (forward parent sequence sender (prepareForDaoFwd sequence r rest s)) = log s ++
      [⟨s.drawn + 1, lollipopIncrement s.daoSequence, sender, sequence⟩] := by
    rw [log, forward, send, filterMap_append]
    rfl
  refine .fresh rfl rfl ?_ hlog rfl rfl
  have hmark : marks (forward parent sequence sender (prepareForDaoFwd sequence r rest s)).routes =
      ⟨s.drawn + 1, lollipopIncrement s.daoSequence, r.nexthop, sequence⟩ :: marks rest := rfl
  rw [hmark, hr]
  exact (subperm_cons _).mpr hrest

theorem effect_again {parent : IpAddr}
    (hmarks : (marks (r :: rest)).Subperm (marks s.routes)) (hr : r.nexthop = sender)
    (hp : r.daoPending = true ∧ r.daoSeqnoIn = sequence) :
    Effect s (forward parent sequence sender (r, { s with routes := r :: rest })) := by
  have hmem : (⟨r.number, r.daoSeqnoOut, sender, sequence⟩ : Mark) ∈ marks s.routes :=
    hmarks.subset (mem_marks.mpr ⟨r, mem_cons_self, hp.1, by rw [hr, hp.2]⟩)
  have hlog : log (forward parent sequence sender (r, { s with routes := r :: rest })) = log s ++
      [⟨r.number, r.daoSeqnoOut, sender, sequence⟩] := by
    rw [log, forward, send, filterMap_append]
    rfl
  exact .again hmem hmarks hlog rfl rfl

theorem effect_noPath {kFlag : Bool} {found : Option Route × List Route} (hfound : (marks (found.1.toList ++
    found.2)).Subperm (marks s.routes)) : Effect s (noPath sender kFlag sequence length found s) := by
  rcases found with ⟨_ | r, rest⟩
  · rw [noPath]
    exact (Effect.quiet (quiet_routes hfound)).after (quiet_daoAckOutput kFlag sender sequence unconditionalAccept _)
  · rw [noPath]
    refine Effect.after ?_ (quiet_daoAckOutput kFlag sender sequence unconditionalAccept _)
    split
    next hcond =>
      have hmark : marks ({ r with nopathReceived := true, lifetime := 60 } :: rest) = marks (r :: rest) :=
        marks_cons_congr rfl rest
      split
      · exact .quiet (quiet_routes (hmark ▸ hfound))
      · exact effect_fresh ((marks_subperm_cons r rest).trans hfound) (nexthop_eq hcond.2.2)
    · exact .quiet (quiet_routes hfound)

theorem effect_forwardDao {kFlag : Bool} (hmarks : (marks (r :: rest)).Subperm (marks s.routes)) (hr : r.nexthop =
    sender) : Effect s (forwardDao sender kFlag sequence r rest s) := by
  refine Effect.after ?_ (quiet_daoAckOutput _ sender sequence unconditionalAccept _)
  split
  · exact .quiet (quiet_routes hmarks)
  · split
    next hp => exact effect_again hmarks hr hp
    · exact effect_fresh ((marks_subperm_cons r rest).trans hmarks) hr

theorem effect_daoInputStoring (c : Config) (dao : Dao) (room : Bool) (s : State) :
    Effect s (daoInputStoring c dao room s) := by
  have hfound := (marks_perm (lookup_perm dao.target s.routes)).subperm
  rw [daoInputStoring]
  dsimp only
  split
  · exact effect_noPath hfound
  · split
    · -- the route is looked up a second time, behind the update of the cache
      let t : State := { s with
        routes := (lookup dao.target s.routes).1.toList ++ (lookup dao.target s.routes).2
        neighbors := if dao.sender ∈ s.neighbors then s.neighbors else dao.sender :: s.neighbors }
      have hquiet : Quiet s t := ⟨hfound, rfl, rfl, rfl⟩
      refine Effect.before hquiet ?_
      obtain ⟨hmarks, hnext⟩ := routeAdd_marks (c := c) t
      rcases hadd : routeAdd c dao.target dao.length dao.sender t with ⟨_ | r, rest⟩
      · rw [hadd] at hmarks
        exact (Effect.quiet (quiet_routes hmarks)).after (quiet_daoAckOutput _ _ _ _ _)
      · rw [hadd] at hmarks hnext
        have hmark : marks ({ r with lifetime := c.lifetime dao.lifetime, nopathReceived := false } :: rest) =
            marks (r :: rest) := marks_cons_congr rfl rest
        exact effect_forwardDao (hmark ▸ hmarks) (hnext r rfl)
    · exact (Effect.quiet (quiet_routes hfound)).after (quiet_daoAckOutput _ _ _ _ _)

theorem marks_set_subperm {i : Nat} (h : r.mark = none) : (marks (rs.set i r)).Subperm (marks rs) := by
  rcases lt_or_ge i rs.length with hi | hi
  · rw [set_eq_take_append_cons_drop, if_pos hi, marks, filterMap_append, filterMap_cons, h,
      ← filterMap_append, ← eraseIdx_eq_take_drop_succ]
    exact (marks_sublist (eraseIdx_sublist rs i)).subperm
  · rw [set_eq_of_length_le hi]

theorem quiet_daoAckInput (seq status : UInt8) (s : State) : Quiet s (daoAckInput seq status s) := by
  rw [daoAckInput]
  split
  · exact ⟨List.Subperm.refl _, rfl, rfl, rfl⟩
  · split
    · exact .refl s
    next i r _ =>
      have hsend : ∀ t, Quiet s t → Quiet s { t with
          routes := if status < unableToAccept then s.routes.set i { r with daoPending := false }
            else s.routes.eraseIdx i } := by
        intro t ht
        refine ⟨?_, ht.log, ht.drawn, ht.daoSequence⟩
        split
        · exact marks_set_subperm rfl
        · exact (marks_sublist (eraseIdx_sublist s.routes i)).subperm
      refine hsend _ ?_
      split
      · exact .refl s
      · exact quiet_send rfl s

theorem marks_aged (rs : List Route) : marks (rs.map fun r =>
    if 1 ≤ r.lifetime ∧ r.lifetime ≠ 0xffffffff then { r with lifetime := r.lifetime - 1 } else r) = marks rs := by
  refine marks_map (fun r => ?_) rs
  split <;> rfl

theorem quiet_sublist {aged : List Route} (haged : marks aged = marks s.routes)
    (h : rs.Sublist aged) : Quiet s { s with routes := rs } :=
  quiet_routes (haged ▸ (marks_sublist h).subperm)

theorem quiet_purgeRoutes (s : State) : Quiet s (purgeRoutes s) := by
  have haged := marks_aged s.routes
  rw [purgeRoutes]
  split
  · exact quiet_sublist haged filter_sublist
  · split
    · exact quiet_sublist haged (List.Sublist.refl _)
    · split
      · exact quiet_sublist haged eraseP_sublist
      · exact (quiet_sublist haged eraseP_sublist).trans (quiet_send rfl _)

theorem effect_step {e : Event} (h : step c s e = some t) : Effect s t := by
  cases e with
  | dao dao room =>
    cases h
    exact effect_daoInputStoring c dao room s
  | daoAck seq status =>
    cases h
    exact .quiet (quiet_daoAckInput seq status s)
  | daoOutput lifetime =>
    cases h
    refine Effect.after ?_ (quiet_send rfl _)
    split
    · exact .drawn (List.Subperm.refl _) rfl rfl rfl
    · exact .drawn (List.Subperm.refl _) rfl rfl rfl
  | retransmission lifetime =>
    cases h
    exact .quiet ((⟨List.Subperm.refl _, rfl, rfl, rfl⟩ : Quiet s { s with
      myDaoTransmissions := s.myDaoTransmissions + 1 }).trans (quiet_send rfl _))
  | purgeRoutes =>
    cases h
    exact .quiet (quiet_purgeRoutes s)
  | lookup addr =>
    cases h
    exact .quiet (quiet_routes (marks_perm (lookup_perm addr s.routes)).subperm)
  | removeRoutesByNexthop nexthop =>
    cases h
    refine .quiet (quiet_sublist (marks_map (fun r => ?_) s.routes) (List.Sublist.refl _))
    split <;> rfl
  | removeRoutes keep =>
    cases h
    exact .quiet (quiet_routes (marks_sublist filter_sublist).subperm)
  | parent preferredParent isRoot =>
    cases h
    exact .quiet ⟨List.Subperm.refl _, rfl, rfl, rfl⟩
  | neighbors neighbors =>
    cases h
    exact .quiet ⟨List.Subperm.refl _, rfl, rfl, rfl⟩
  | allocInstance =>
    cases h
    exact .quiet ⟨List.Subperm.refl _, rfl, rfl, rfl⟩

/-! ### Over a run -/

/-- The log holds draws that happened, each for one DAO; the marks are from the log, and no two from one draw. -/
structure Inv (s : State) : Prop where
  daoSequence : s.daoSequence = numberOf s.drawn
  drawn : ∀ m ∈ log s, m.number ≤ s.drawn ∧ m.seq = numberOf m.number
  single : ∀ m ∈ log s, ∀ m' ∈ log s, m.number = m'.number → m = m'
  logged : ∀ m ∈ marks s.routes, m ∈ log s
  nodup : ((marks s.routes).map Mark.number).Nodup

theorem numbers_subperm {ms ms' : List Mark} (h : ms.Subperm ms') :
    (ms.map Mark.number).Subperm (ms'.map Mark.number) := by
  obtain ⟨l, hperm, hsub⟩ := h
  exact ⟨l.map Mark.number, hperm.map _, hsub.map _⟩

theorem nodup_of_subperm {α : Type} {l l' : List α} (h : l.Subperm l') (h' : l'.Nodup) : l.Nodup := by
  obtain ⟨l₁, hperm, hsub⟩ := h
  exact hperm.nodup_iff.mp (h'.sublist hsub)

theorem inv_init : Inv init where
  daoSequence := rfl
  drawn _ hm := absurd hm not_mem_nil
  single _ hm := absurd hm not_mem_nil
  logged _ hm := absurd hm not_mem_nil
  nodup := nodup_nil

/-- STEP: a mark that is new to the log has a draw of its own. -/
theorem Inv.effect (h : Inv s) (he : Effect s t) : Inv t := by
  have hnodup : ∀ {ms : List Mark}, ms.Subperm (marks s.routes) → (ms.map Mark.number).Nodup := fun hsub =>
    nodup_of_subperm (numbers_subperm hsub) h.nodup
  cases he with
  | quiet hq =>
    refine ⟨?_, ?_, ?_, fun m hm => ?_, hnodup hq.marks⟩
    · rw [hq.daoSequence, hq.drawn, h.daoSequence]
    · rw [hq.log, hq.drawn]
      exact h.drawn
    · rw [hq.log]
      exact h.single
    · rw [hq.log]
      exact h.logged m (hq.marks.subset hm)
  | drawn hm hl hd hseq =>
    refine ⟨?_, fun m hmem => ?_, ?_, fun m hmem => ?_, hnodup hm⟩
    · rw [hseq, hd, h.daoSequence]
      rfl
    · rw [hl] at hmem
      obtain ⟨hle, heq⟩ := h.drawn m hmem
      exact ⟨by omega, heq⟩
    · rw [hl]
      exact h.single
    · rw [hl]
      exact h.logged m (hm.subset hmem)
  | @again m hmem hm hl hd hseq =>
    have hold : ∀ {m'}, m' ∈ log t → m' ∈ log s := by
      intro m' hm'
      rw [hl, mem_append, mem_singleton] at hm'
      rcases hm' with hm' | rfl
      · exact hm'
      · exact h.logged m' hmem
    refine ⟨?_, fun m' hm' => ?_, fun m₁ h₁ m₂ h₂ => h.single m₁ (hold h₁) m₂ (hold h₂), fun m' hm' => ?_, hnodup hm⟩
    · rw [hseq, hd, h.daoSequence]
    · rw [hd]
      exact h.drawn m' (hold hm')
    · rw [hl]
      exact mem_append_left _ (h.logged m' (hm.subset hm'))
  | @fresh m hn hs hm hl hd hseq =>
    have hcases : ∀ {m'}, m' ∈ log t → m' ∈ log s ∧ m'.number ≤ s.drawn ∨ m' = m := by
      intro m' hm'
      rw [hl, mem_append, mem_singleton] at hm'
      rcases hm' with hm' | rfl
      · exact .inl ⟨hm', (h.drawn m' hm').1⟩
      · exact .inr rfl
    refine ⟨?_, fun m' hm' => ?_, fun m₁ h₁ m₂ h₂ heq => ?_, fun m' hm' => ?_, ?_⟩
    · rw [hseq, hd, h.daoSequence]
      rfl
    · rcases hcases hm' with ⟨hold, hle⟩ | rfl
      · exact ⟨by omega, (h.drawn m' hold).2⟩
      · refine ⟨by omega, ?_⟩
        rw [hs, hn, h.daoSequence]
        rfl
    · rcases hcases h₁ with ⟨h₁, hle₁⟩ | rfl <;> rcases hcases h₂ with ⟨h₂, hle₂⟩ | rfl
      · exact h.single m₁ h₁ m₂ h₂ heq
      · omega
      · omega
      · rfl
    · rw [hl]
      rcases mem_cons.mp (hm.subset hm') with rfl | hm'
      · exact mem_append_right _ (mem_singleton.mpr rfl)
      · exact mem_append_left _ (h.logged m' hm')
    · refine nodup_of_subperm (numbers_subperm hm) (nodup_cons.mpr ⟨fun hmem => ?_, h.nodup⟩)
      obtain ⟨m', hm', heq⟩ := mem_map.mp hmem
      have := (h.drawn m' (h.logged m' hm')).1
      omega

variable {es : List Event}

theorem inv_of_run (hrun : Run (step c) (fun _ _ => True) init es s) : Inv s :=
  hrun.invariant (P := Inv) (fun _ _ _ h _ hstep => h.effect (effect_step hstep)) inv_init

theorem unmarked_of_run {n : Nat} (hrun : Run (step c) (fun _ _ => True) s es t)
    (hs : n ≤ s.drawn ∧ n ∉ (marks s.routes).map Mark.number) : n ∉ (marks t.routes).map Mark.number := by
  refine (hrun.invariant (P := fun t => n ≤ t.drawn ∧ n ∉ (marks t.routes).map Mark.number)
    (fun u e v hu _ hstep => ?_) hs).2
  obtain ⟨hle, hno⟩ := hu
  cases effect_step hstep with
  | quiet hq => exact ⟨by rw [hq.drawn]; exact hle, fun hmem => hno ((numbers_subperm hq.marks).subset hmem)⟩
  | drawn hm hl hd hseq => exact ⟨by omega, fun hmem => hno ((numbers_subperm hm).subset hmem)⟩
  | again hmem hm hl hd hseq => exact ⟨by omega, fun hmem => hno ((numbers_subperm hm).subset hmem)⟩
  | fresh hn hs hm hl hd hseq =>
    refine ⟨by omega, fun hmem => ?_⟩
    rcases mem_cons.mp ((numbers_subperm hm).subset hmem) with heq | hmem
    · omega
    · exact hno hmem

/-! ### Acknowledgements find their way -/

/-- Fewer than 128 numbers were drawn since the DAOs that are pending were forwarded. -/
def Window (s : State) : Prop := ∀ m ∈ marks s.routes, s.drawn < m.number + 128

def NonePending (seq : UInt8) (routes : List Route) : Prop := ∀ r ∈ routes, r.daoPending = true → r.daoSeqnoOut ≠ seq

/-- The acknowledgement is for the last DAO of the node itself. -/
structure Own (s t : State) (seq : UInt8) : Prop where
  ownSent : s.ownSent = true
  last : seq = s.myDaoSeqno
  routes : t.routes = s.routes
  sent : t.sent = s.sent

/-- The route `r` is the one whose pending DAO went up under the number. It alone loses its mark, and its next hop
    gets the acknowledgement under the number of its own. -/
structure Forwarded (s t : State) (seq status : UInt8) (l₁ : List Route) (r : Route) (l₂ : List Route) : Prop where
  place : s.routes = l₁ ++ r :: l₂
  pending : r.daoPending = true
  found : r.daoSeqnoOut = seq
  others : NonePending seq (l₁ ++ l₂)
  logged : (⟨r.number, seq, r.nexthop, r.daoSeqnoIn⟩ : Mark) ∈ log s
  only : ∀ m ∈ log s, m.seq = seq → s.drawn < m.number + 128 → m.child = r.nexthop ∧ m.childSeq = r.daoSeqnoIn
  routes : t.routes = if status < unableToAccept then l₁ ++ { r with daoPending := false } :: l₂ else l₁ ++ l₂
  sent : t.sent = s.sent ++ (s.nexthop r).toList.map fun nexthop => .daoAck nexthop r.daoSeqnoIn status

/-- The acknowledgement is the node's own, or goes to the route that it is for, if there is one. -/
def Routed (s t : State) (seq status : UInt8) : Prop :=
  Own s t seq ∨ (NonePending seq s.routes ∧ t.routes = s.routes ∧ t.sent = s.sent) ∨
    ∃ l₁ r l₂, Forwarded s t seq status l₁ r l₂

theorem Inv.others (h : Inv s) (hwindow : Window s) {l₁ l₂ : List Route}
    (hplace : s.routes = l₁ ++ r :: l₂) (hp : r.daoPending = true) : NonePending r.daoSeqnoOut (l₁ ++ l₂) := by
  intro r' hr' hp' hseq
  have hmem : (⟨r.number, r.daoSeqnoOut, r.nexthop, r.daoSeqnoIn⟩ : Mark) ∈ marks s.routes :=
    mem_marks.mpr ⟨r, by rw [hplace]; simp, hp, rfl⟩
  have hmem' : (⟨r'.number, r'.daoSeqnoOut, r'.nexthop, r'.daoSeqnoIn⟩ : Mark) ∈ marks s.routes :=
    mem_marks.mpr ⟨r', by rw [hplace]; simpa using Or.elim (mem_append.mp hr') .inl (.inr ∘ .inr), hp', rfl⟩
  obtain ⟨hle, heq⟩ := h.drawn _ (h.logged _ hmem)
  obtain ⟨hle', heq'⟩ := h.drawn _ (h.logged _ hmem')
  have hw := hwindow _ hmem
  have hw' := hwindow _ hmem'
  dsimp only at hle heq hle' heq' hw hw'
  have hnumber : r'.number = r.number := numberOf_inj (by omega) (by omega) (by rw [← heq, ← heq', hseq])
  -- but the two marks are two draws
  have hperm : (marks s.routes).Perm (⟨r.number, r.daoSeqnoOut, r.nexthop, r.daoSeqnoIn⟩ :: marks (l₁ ++ l₂)) := by
    have hmark : marks (r :: (l₁ ++ l₂)) = ⟨r.number, r.daoSeqnoOut, r.nexthop, r.daoSeqnoIn⟩ :: marks (l₁ ++ l₂) := by
      rw [marks, filterMap_cons, Route.mark, if_pos hp]
      rfl
    rw [hplace, ← hmark]
    exact marks_perm perm_middle
  have hnodup := (hperm.map Mark.number).nodup_iff.mp h.nodup
  rw [map_cons, nodup_cons] at hnodup
  exact hnodup.1 (mem_map.mpr ⟨_, mem_marks.mpr ⟨r', hr', hp', rfl⟩, hnumber⟩)

variable {seq status : UInt8}

/-- The acknowledgement that is not the node's own. -/
theorem Inv.forwarded (h : Inv s) (hwindow : Window s) (hseq : seq ≠ s.myDaoSeqno) :
    Routed s (daoAckInput seq status s) seq status := by
  rw [daoAckInput, if_neg hseq]
  cases hfind : findRouteEntryByDaoAck seq s.routes with
  | none =>
    refine .inr (.inl ⟨fun r hr hp heq => ?_, rfl, rfl⟩)
    have hno := findIdx?_eq_none_iff.mp hfind r hr
    rw [heq, hp] at hno
    simp at hno
  | some i =>
    obtain ⟨hlt, hfound, -⟩ := findIdx?_eq_some_iff_getElem.mp hfind
    rw [Bool.and_eq_true, beq_iff_eq] at hfound
    have hplace : s.routes = s.routes.take i ++ s.routes[i] :: s.routes.drop (i + 1) := by
      rw [getElem_cons_drop, take_append_drop]
    have hmem : (⟨s.routes[i].number, s.routes[i].daoSeqnoOut, s.routes[i].nexthop, s.routes[i].daoSeqnoIn⟩ : Mark) ∈
        marks s.routes := mem_marks.mpr ⟨_, getElem_mem hlt, hfound.2, rfl⟩
    have hlogged := h.logged _ hmem
    rw [hfound.1] at hlogged
    rw [Option.bind_some, getElem?_eq_getElem hlt, Option.map_some]
    refine .inr (.inr ⟨s.routes.take i, s.routes[i], s.routes.drop (i + 1), hplace, hfound.2, hfound.1, ?_, hlogged,
      fun m hm hms hmw => ?_, ?_, ?_⟩)
    · rw [← hfound.1]
      exact h.others hwindow hplace hfound.2
    · have hw := hwindow _ hmem
      obtain ⟨hle, heq⟩ := h.drawn _ hlogged
      obtain ⟨hle', heq'⟩ := h.drawn _ hm
      dsimp only at hw hle heq
      have hsame := h.single m hm _ hlogged
        (numberOf_inj (by dsimp only; omega) (by dsimp only; omega) (by dsimp only; rw [← heq, ← heq', hms]))
      rw [hsame]
      exact ⟨rfl, rfl⟩
    · dsimp only
      rw [set_eq_take_append_cons_drop, if_pos hlt, eraseIdx_eq_take_drop_succ]
    · dsimp only
      cases s.nexthop s.routes[i] with
      | none => exact (append_nil _).symm
      | some nexthop => rfl

/-- An acknowledgement that is taken for the node's own leaves the marks alone. -/
theorem routed_own_iff (hseq : seq = s.myDaoSeqno) :
    Routed s (daoAckInput seq status s) seq status ↔ s.ownSent = true ∨ NonePending seq s.routes := by
  rw [daoAckInput, if_pos hseq]
  constructor
  · rintro (hown | ⟨hnone, -, -⟩ | ⟨l₁, r, l₂, hf⟩)
    · exact .inl hown.ownSent
    · exact .inr hnone
    · have hroutes := hf.routes
      rw [hf.place] at hroutes
      split at hroutes
      · have heq := (cons.inj (append_cancel_left hroutes)).1
        have hp := hf.pending
        rw [heq] at hp
        cases hp
      · have hlen := congrArg length hroutes
        rw [length_append, length_append, length_cons] at hlen
        omega
  · rintro (hown | hnone)
    · exact .inl ⟨hown, hseq, rfl, rfl⟩
    · exact .inr (.inl ⟨hnone, rfl, rfl⟩)

/-- Over every run: as long as fewer than 128 numbers were drawn since, an acknowledgement finds its way if and only
    if it is not taken for one of the node's own that was never asked for, while a DAO is pending under its number.
    A mark that goes with an acknowledgement does not come back. -/
theorem dao_ack_routed {c : Config} {s t : State} (hrun : Run (step c) (fun _ _ => True) init es s)
    (hwindow : Window s) (hack : step c s (.daoAck seq status) = some t) :
    (Routed s t seq status ↔ (seq = s.myDaoSeqno → s.ownSent = true ∨ NonePending seq s.routes)) ∧
    ∀ n ∈ (marks s.routes).map Mark.number, n ∉ (marks t.routes).map Mark.number →
      ∀ fs u, Run (step c) (fun _ _ => True) t fs u → n ∉ (marks u.routes).map Mark.number := by
  have hinv := inv_of_run hrun
  cases hack
  constructor
  · by_cases hseq : seq = s.myDaoSeqno
    · rw [routed_own_iff hseq]
      exact ⟨fun h _ => h, fun h => h hseq⟩
    · exact ⟨fun _ hno => absurd hno hseq, fun _ => hinv.forwarded hwindow hseq⟩
  · intro n hn hno fs u hrun'
    obtain ⟨m, hm, rfl⟩ := mem_map.mp hn
    refine unmarked_of_run hrun' ⟨?_, hno⟩
    rw [(quiet_daoAckInput seq status s).drawn]
    exact (hinv.drawn m (hinv.logged m hm)).1

/-! ### Children -/

instance (s : State) : Decidable (Window s) := inferInstanceAs (Decidable (∀ m ∈ marks s.routes, _))

def smallTable : Config := ⟨4, true, 30, 60⟩
def nodeAddr (i : UInt8) : IpAddr := fun j => if j.val = 15 then i else 0

/-- The DAO of a child for its own address. -/
def childDao (child sequence : UInt8) : Event := .dao ⟨nodeAddr child, true, sequence, nodeAddr child, 128, 30⟩ true

/-- Two children register, and the first sends its DAO again; then the node itself. -/
def twoChildren : List Event :=
  [.parent (some (nodeAddr 1)) false, childDao 7 5, childDao 8 5, childDao 7 5, .daoOutput 30]

theorem dao_ack_routed_twoChildren : ∃ s t : State, Run (step smallTable) (fun _ _ => True) init twoChildren s ∧
    step smallTable s (.daoAck 241 0) = some t ∧ s.myDaoSeqno = 243 ∧ Routed s t 241 0 := by
  obtain ⟨s, hrun, hs⟩ : ∃ s : State, Run (step smallTable) (fun _ _ => True) init twoChildren s ∧ _ :=
    exists_run (fun _ _ => true) (fun s : State => decide (Window s ∧ s.myDaoSeqno = 243)) (fun _ _ _ => trivial)
      (by decide)
  obtain ⟨hwindow, hmy⟩ := of_decide_eq_true hs
  refine ⟨s, daoAckInput 241 0 s, hrun, rfl, hmy, (dao_ack_routed hrun hwindow rfl).1.mpr fun hno => ?_⟩
  rw [hmy] at hno
  cases hno

/-- A node without an address of its own forwards sixteen DAOs, the last under the number 0. -/
def sixteenDaos : List Event :=
  .parent (some (nodeAddr 1)) false :: (range 16).map fun k => childDao 7 (UInt8.ofNat k)

theorem dao_ack_swallowed : ∃ s t : State, Run (step smallTable) (fun _ _ => True) init sixteenDaos s ∧ Window s ∧
    step smallTable s (.daoAck 0 0) = some t ∧ ¬Routed s t 0 0 := by
  obtain ⟨s, hrun, hs⟩ : ∃ s : State, Run (step smallTable) (fun _ _ => True) init sixteenDaos s ∧ _ :=
    exists_run (fun _ _ => true) (fun s : State => decide (Window s ∧ s.myDaoSeqno = 0 ∧ s.ownSent = false ∧
      ∃ r ∈ s.routes, r.daoPending = true ∧ r.daoSeqnoOut = 0)) (fun _ _ _ => trivial) (by decide)
  obtain ⟨hwindow, hmy, hown, r, hr, hp, hseq⟩ := of_decide_eq_true hs
  refine ⟨s, daoAckInput 0 0 s, hrun, hwindow, rfl, fun hno => ?_⟩
  rcases (routed_own_iff hmy.symm).mp hno with hyes | hnone
  · rw [hown] at hyes
    cases hyes
  · exact hnone r hr hp hseq

end CSync.RplDao
