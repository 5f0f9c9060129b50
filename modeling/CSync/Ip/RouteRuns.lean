import CSync.Ip.Routes

/-! The routes that are stored.

    The two kinds of lists and the two pools agree in every run (`Sane`): each part of an operation keeps this. A new
    route takes the place of the route that a lookup of its prefix finds, whatever the length of that one, and prefixes
    are compared in whole bytes; where neither makes a difference, the table does what it is for. -/

namespace CSync.Routes
open List Function Lib Option

open RplDao (prefixcmp)

variable {A : Type} {N M : Nat}

/-! ### Agreement -/

/-- The lists and pools agree. -/
structure Sane (s : State A N M) : Prop where
  owns : s.routememb.Owns s.routelist
  nbrOwns : s.neighborroutememb.Owns ((finRange N).flatMap fun i => (s.nbr i).routeList)
  count : s.numRoutes = s.routelist.length
  linked : ∀ i, ∀ nr ∈ (s.nbr i).routeList, ∃ r ∈ s.routelist,
    s.neighborroutememb.mem nr = some r ∧ (s.routememb.mem r).neighborRoutes = some i
  listed : ∀ r ∈ s.routelist, ∃ i, (s.routememb.mem r).neighborRoutes = some i ∧
    ∃ nr ∈ (s.nbr i).routeList, s.neighborroutememb.mem nr = some r
  once : ∀ i j nr nr', nr ∈ (s.nbr i).routeList → nr' ∈ (s.nbr j).routeList →
    s.neighborroutememb.mem nr = s.neighborroutememb.mem nr' → nr = nr'
  entry : ∀ i, (s.nbr i).routeList ≠ [] → (s.nbr i).present = true ∧ (s.nbr i).used = true ∧ (s.nbr i).locked = true

/-- The route is stored as before, with the same next hop. -/
structure Still (s s' : State A N M) (r : Fin M) : Prop where
  mem : r ∈ s'.routelist
  same : s'.routememb.mem r = s.routememb.mem r
  hop : ∀ i, (s.routememb.mem r).neighborRoutes = some i → (s'.nbr i).lladdr = (s.nbr i).lladdr

variable {s s' s'' : State A N M} {r : Fin M}

theorem Still.refl (h : r ∈ s.routelist) : Still s s r := ⟨h, rfl, fun _ _ => rfl⟩

theorem Still.trans (h : Still s s' r) (h' : Still s' s'' r) : Still s s'' r := by
  refine ⟨h'.mem, h'.same.trans h.same, fun i hi => ?_⟩
  rw [h'.hop i (h.same ▸ hi), h.hop i hi]

variable {nbr : Fin N → Neighbor A M}

/-- Only the lists of the neighbours matter, and the bits of those that have routes. -/
theorem Sane.withNbr (h : Sane s) (hlist : ∀ i, (nbr i).routeList = (s.nbr i).routeList)
    (hbits : ∀ i, (s.nbr i).routeList ≠ [] → (nbr i).present = true ∧ (nbr i).used = true ∧ (nbr i).locked = true) :
    Sane { s with nbr := nbr } := by
  have hsame : (fun i => (nbr i).routeList) = fun i => (s.nbr i).routeList := funext hlist
  refine ⟨h.owns, ?_, h.count, fun i nr hnr => ?_, fun r hr => ?_, fun i j nr nr' hnr hnr' heq => ?_, fun i hi => ?_⟩
  · dsimp only
    rw [hsame]
    exact h.nbrOwns
  · exact h.linked i nr (hlist i ▸ hnr)
  · obtain ⟨i, hi, nr, hnr, hmem⟩ := h.listed r hr
    exact ⟨i, hi, nr, (hlist i).symm ▸ hnr, hmem⟩
  · exact h.once i j nr nr' (hlist i ▸ hnr) (hlist j ▸ hnr') heq
  · exact hbits i (hlist i ▸ hi)

variable {i : Fin N} {f : Neighbor A M → Neighbor A M}

section
variable (h : Sane s)
include h

/-- A neighbour without routes may change. -/
theorem Sane.setNbr (hempty : (s.nbr i).routeList = [])
    (hf : (f (s.nbr i)).routeList = []) : Sane (s.setNbr i f) := by
  refine h.withNbr (fun j => ?_) fun j hj => ?_
  · by_cases hji : j = i
    · rw [hji, update_self, hf, hempty]
    · rw [update_of_ne hji]
  · have hji : j ≠ i := fun hno => hj (hno ▸ hempty)
    rw [update_of_ne hji]
    exact h.entry j hj

/-- A neighbour with routes may change its address. -/
theorem Sane.readdress (i : Fin N) (hf : ∀ n, (f n).routeList = n.routeList ∧ (n.present = true → (f
    n).present = true) ∧ (f n).used = n.used ∧ (f n).locked = n.locked) : Sane (s.setNbr i f) := by
  refine h.withNbr (fun j => ?_) fun j hj => ?_
  · by_cases hji : j = i
    · rw [hji, update_self, (hf _).1]
    · rw [update_of_ne hji]
  · obtain ⟨hp, hu, hl⟩ := h.entry j hj
    by_cases hji : j = i
    · subst hji
      rw [update_self]
      exact ⟨(hf _).2.1 hp, (hf _).2.2.1.trans hu, (hf _).2.2.2.trans hl⟩
    · rw [update_of_ne hji]
      exact ⟨hp, hu, hl⟩

theorem Sane.perm {l : List (Fin M)} (hperm : l.Perm s.routelist) : Sane { s with routelist := l } := by
  refine ⟨h.owns.perm hperm, h.nbrOwns, ?_, fun i nr hnr => ?_, fun r hr => ?_, h.once, h.entry⟩
  · rw [h.count, hperm.length_eq]
  · obtain ⟨r, hr, hmem⟩ := h.linked i nr hnr
    exact ⟨r, hperm.mem_iff.mpr hr, hmem⟩
  · exact h.listed r (hperm.mem_iff.mp hr)

theorem Sane.nodup_routeList (i : Fin N) : (s.nbr i).routeList.Nodup :=
  (nodup_flatMap.mp h.nbrOwns.nodup).1 i (mem_finRange i)

theorem Sane.length_routeList (i : Fin N) : (s.nbr i).routeList.length < M + 1 := by
  have hle := List.Nodup.length_le_card (h.nodup_routeList i)
  rw [Fintype.card_fin] at hle
  exact Nat.lt_succ_of_le hle

end

/-! ### Removal -/

theorem nbr_setNbr (s : State A N M) (i : Fin N) (f : Neighbor A M → Neighbor A M) (j : Fin N) :
    (s.setNbr i f).nbr j = if j = i then f (s.nbr i) else s.nbr j := update_apply ..

/-- What `detach` changes. -/
structure Detached (s : State A N M) (i : Fin N) (nr : Fin M) (s' : State A N M) : Prop where
  routememb : s'.routememb = s.routememb
  routelist : s'.routelist = s.routelist
  neighborroutememb : s'.neighborroutememb = s.neighborroutememb
  numRoutes : s'.numRoutes = s.numRoutes
  fixed : ∀ j, (s'.nbr j).present = (s.nbr j).present ∧ (s'.nbr j).lladdr = (s.nbr j).lladdr
  list : ∀ j, (s'.nbr j).routeList = if j = i then (s.nbr i).routeList.erase nr else (s.nbr j).routeList
  bits : ∀ j, (s'.nbr j).routeList ≠ [] → (s'.nbr j).used = (s.nbr j).used ∧ (s'.nbr j).locked = (s.nbr j).locked

theorem detach_spec (s : State A N M) (i : Fin N) (nr : Fin M) : Detached s i nr (detach s i (some nr)) := by
  rw [detach]
  split
  next hempty =>
    have hboth : ∀ j, (nbrTableRemove (s.setNbr i fun n => { n with routeList := (s.nbr i).routeList.erase nr }) i).nbr j =
        if j = i then { s.nbr i with routeList := (s.nbr i).routeList.erase nr, used := false, locked := false }
        else s.nbr j := by
      intro j
      rw [nbrTableRemove, nbr_setNbr]
      split
      · rw [nbr_setNbr, if_pos rfl]
      next hj => rw [nbr_setNbr, if_neg hj]
    refine ⟨rfl, rfl, rfl, rfl, fun j => ?_, fun j => ?_, fun j hj => ?_⟩
    · rw [hboth]
      split
      next hji =>
        exact ⟨congrArg (fun k => (s.nbr k).present) hji.symm, congrArg (fun k => (s.nbr k).lladdr) hji.symm⟩
      · exact ⟨rfl, rfl⟩
    · rw [hboth]
      split <;> rfl
    · rw [hboth] at hj ⊢
      split at hj
      · exact absurd hempty hj
      next hji =>
        rw [if_neg hji]
        exact ⟨rfl, rfl⟩
  · refine ⟨rfl, rfl, rfl, rfl, fun j => ?_, fun j => ?_, fun j _ => ?_⟩
    · rw [nbr_setNbr]
      split
      next hji =>
        exact ⟨congrArg (fun k => (s.nbr k).present) hji.symm, congrArg (fun k => (s.nbr k).lladdr) hji.symm⟩
      · exact ⟨rfl, rfl⟩
    · rw [nbr_setNbr]
      split <;> rfl
    · rw [nbr_setNbr]
      split
      next hji => exact ⟨congrArg (fun k => (s.nbr k).used) hji.symm, congrArg (fun k => (s.nbr k).locked) hji.symm⟩
      · exact ⟨rfl, rfl⟩

/-- What a removal does to the table. -/
structure Removed (s : State A N M) (r : Fin M) (s' : State A N M) : Prop where
  sane : Sane s'
  routelist : s'.routelist = s.routelist.erase r
  mem : s'.routememb.mem = s.routememb.mem
  nbrMem : s'.neighborroutememb.mem = s.neighborroutememb.mem
  fixed : ∀ j, (s'.nbr j).present = (s.nbr j).present ∧ (s'.nbr j).lladdr = (s.nbr j).lladdr
  list : ∃ i nr, (s.routememb.mem r).neighborRoutes = some i ∧ nr ∈ (s.nbr i).routeList ∧
    s.neighborroutememb.mem nr = some r ∧
    ∀ j, (s'.nbr j).routeList = if j = i then (s.nbr i).routeList.erase nr else (s.nbr j).routeList

/-- REMOVAL: of a stored route. -/
theorem routeRm_spec (h : Sane s) (hr : r ∈ s.routelist) : Removed s r (routeRm s r) := by
  obtain ⟨i, hi, nr, hnr, hmem⟩ := h.listed r hr
  have hfind : (s.nbr i).routeList.find? (fun nr => decide (s.neighborroutememb.mem nr = some r)) = some nr := by
    rcases hfound : (s.nbr i).routeList.find? (fun nr => decide (s.neighborroutememb.mem nr = some r)) with _ | nr'
    · exact absurd (decide_eq_true hmem) (find?_eq_none.mp hfound nr hnr)
    · have hmem' := find?_some hfound
      rw [h.once i i nr' nr (mem_of_find?_eq_some hfound) hnr ((of_decide_eq_true hmem').trans hmem.symm)]
  have hd := detach_spec { s with routelist := s.routelist.erase r } i nr
  rw [routeRm, hi]
  dsimp only
  rw [hfind]
  generalize detach { s with routelist := s.routelist.erase r } i (some nr) = d at hd ⊢
  obtain ⟨hroutes, hlist, hnbrMem, hnum, hfixed, hlists, hbits⟩ := hd
  -- the block of a route that stays is another one
  have hother : ∀ j, ∀ nr' ∈ (d.nbr j).routeList, nr' ∈ (s.nbr j).routeList ∧ nr' ≠ nr := by
    intro j nr' hnr'
    rw [hlists] at hnr'
    split at hnr'
    next hji =>
      have herase := (h.nodup_routeList i).mem_erase_iff.mp hnr'
      exact ⟨hji ▸ herase.2, herase.1⟩
    next hji =>
      refine ⟨hnr', ?_⟩
      rintro rfl
      obtain ⟨r', _, hmem', hnext⟩ := h.linked j nr' hnr'
      rw [hmem] at hmem'
      cases hmem'
      rw [hi] at hnext
      cases hnext
      exact hji rfl
  have hstays : ∀ j, ∀ nr' ∈ (s.nbr j).routeList, nr' ≠ nr → nr' ∈ (d.nbr j).routeList := by
    intro j nr' hnr' hne
    rw [hlists]
    split
    next hji => exact (h.nodup_routeList i).mem_erase_iff.mpr ⟨hne, hji ▸ hnr'⟩
    · exact hnr'
  have hflat : ((finRange N).flatMap fun j => (s.nbr j).routeList).Perm
      (nr :: (finRange N).flatMap fun j => (d.nbr j).routeList) := by
    refine Pool.flatMap_perm (f := fun j => (s.nbr j).routeList) (g := fun j => (d.nbr j).routeList) (a := i)
      (?_ : List.Perm _ ([nr] ++ _)) (fun j hj => ?_) (nodup_finRange N) (mem_finRange i)
    · rw [hlists, if_pos rfl]
      exact perm_cons_erase hnr
    · rw [hlists, if_neg hj]
  refine ⟨⟨?_, ?_, ?_, fun j nr' hnr' => ?_, fun r' hr' => ?_, fun j k nr' nr'' hj hk heq => ?_, fun j hj => ?_⟩,
    hlist, congrArg (fun p => p.mem) hroutes, congrArg (fun p => p.mem) hnbrMem, hfixed, i, nr, hi, hnr, hmem, hlists⟩
  · dsimp only
    rw [hlist, hroutes]
    exact h.owns.free_erase (perm_cons_erase hr)
  · dsimp only
    rw [hnbrMem]
    exact h.nbrOwns.free_erase hflat
  · dsimp only
    rw [hlist, hnum, h.count, length_erase_of_mem hr]
    have hpos := length_pos_of_mem hr
    omega
  · obtain ⟨hold, hne⟩ := hother j nr' hnr'
    obtain ⟨r', hr', hmem', hnext⟩ := h.linked j nr' hold
    rw [hlist, hroutes, hnbrMem]
    refine ⟨r', (mem_erase_of_ne ?_).mpr hr', hmem', hnext⟩
    rintro rfl
    exact hne (h.once j i nr' nr hold hnr (hmem'.trans hmem.symm))
  · dsimp only at hr' ⊢
    rw [hlist] at hr'
    obtain ⟨hne, hin⟩ := h.owns.nodup.mem_erase_iff.mp hr'
    obtain ⟨j, hj, nr', hnr', hmem'⟩ := h.listed r' hin
    rw [hroutes, hnbrMem]
    refine ⟨j, hj, nr', hstays j nr' hnr' ?_, hmem'⟩
    rintro rfl
    rw [hmem] at hmem'
    exact hne (some.inj hmem').symm
  · dsimp only at heq
    rw [hnbrMem] at heq
    exact h.once j k nr' nr'' (hother j nr' hj).1 (hother k nr'' hk).1 heq
  · have hsome : (s.nbr j).routeList ≠ [] := by
      intro hempty
      obtain ⟨nr', hnr'⟩ := exists_mem_of_ne_nil _ hj
      exact ne_nil_of_mem (hother j nr' hnr').1 hempty
    obtain ⟨hp, hu, hl⟩ := h.entry j hsome
    exact ⟨(hfixed j).1.trans hp, (hbits j hj).1.trans hu, (hbits j hj).2.trans hl⟩

/-- Other routes stay. -/
theorem Removed.still (h : Removed s r s') {q : Fin M} (hq : q ∈ s.routelist) (hne : q ≠ r) : Still s s' q := by
  refine ⟨?_, congrFun h.mem q, fun i _ => (h.fixed i).2⟩
  rw [h.routelist]
  exact (mem_erase_of_ne hne).mpr hq

/-- What is left when a neighbour loses its routes. -/
structure Cleared (s : State A N M) (i : Fin N) (s' : State A N M) : Prop where
  sane : Sane s'
  empty : (s'.nbr i).routeList = []
  sub : ∀ r ∈ s'.routelist, r ∈ s.routelist
  mem : s'.routememb.mem = s.routememb.mem
  lladdr : ∀ j, (s'.nbr j).lladdr = (s.nbr j).lladdr
  still : ∀ r ∈ s.routelist, (s.routememb.mem r).neighborRoutes ≠ some i → Still s s' r

/-- REMOVAL: of all routes of a neighbour; the loop ends. -/
theorem rmRoutelist_spec (i : Fin N) : ∀ {fuel : Nat} {s : State A N M}, Sane s → (s.nbr i).routeList.length < fuel →
    ∃ s', rmRoutelist fuel s i = some s' ∧ Cleared s i s'
  | 0, _, _, hlt => absurd hlt (Nat.not_lt_zero _)
  | fuel + 1, s, h, hlt => by
    rw [rmRoutelist]
    rcases hlist : (s.nbr i).routeList with _ | ⟨nr, rest⟩
    · refine ⟨nbrTableRemove s i, rfl, h.setNbr hlist hlist, ?_, fun r hr => hr, rfl, fun j => ?_, fun r hr _ => ?_⟩
      · rw [nbrTableRemove, nbr_setNbr, if_pos rfl]
        exact hlist
      · rw [nbrTableRemove, nbr_setNbr]
        split
        next hji => rw [hji]
        · rfl
      · refine ⟨hr, rfl, fun j _ => ?_⟩
        rw [nbrTableRemove, nbr_setNbr]
        split
        next hji => rw [hji]
        · rfl
    · have hnr : nr ∈ (s.nbr i).routeList := hlist ▸ mem_cons_self
      obtain ⟨r, hr, hmem, hnext⟩ := h.linked i nr hnr
      dsimp only
      rw [hmem]
      have hrm := routeRm_spec h hr
      obtain ⟨j, nr', hj, hnr', hmem', hlists⟩ := hrm.list
      rw [hnext] at hj
      cases hj
      have hless : ((routeRm s r).nbr i).routeList.length < fuel := by
        rw [hlists, if_pos rfl, length_erase_of_mem hnr']
        have hpos := length_pos_of_mem hnr'
        omega
      obtain ⟨s', hs', hc⟩ := rmRoutelist_spec i hrm.sane hless
      refine ⟨s', hs', hc.sane, hc.empty, fun q hq => ?_, hc.mem.trans hrm.mem,
        fun k => (hc.lladdr k).trans (hrm.fixed k).2, fun q hq hne => ?_⟩
      · have hin := hc.sub q hq
        rw [hrm.routelist] at hin
        exact mem_of_mem_erase hin
      · have hqr : q ≠ r := fun hno => hne (hno ▸ hnext)
        have hstill := hrm.still hq hqr
        refine hstill.trans (hc.still q hstill.mem ?_)
        rw [hstill.same]
        exact hne

/-- REMOVAL: of a neighbour. -/
theorem removeKey_spec (h : Sane s) (i : Fin N) : ∃ s', removeKey s i = some s' ∧ Cleared s i s' := by
  have hcleared : ∀ {t}, Cleared s i t → Cleared s i (t.setNbr i fun n => { n with present := false, used := false }) := by
    intro t ht
    refine ⟨ht.sane.setNbr ht.empty ht.empty, ?_, ht.sub, ht.mem, fun j => ?_, fun r hr hne => ?_⟩
    · rw [nbr_setNbr, if_pos rfl]
      exact ht.empty
    · rw [← ht.lladdr j, nbr_setNbr]
      split
      next hji => rw [hji]
      · rfl
    · have hstill := ht.still r hr hne
      refine ⟨hstill.mem, hstill.same, fun j hj => ?_⟩
      rw [← hstill.hop j hj, nbr_setNbr]
      split
      next hji => rw [hji]
      · rfl
  rw [removeKey]
  split
  · obtain ⟨t, ht, hc⟩ := rmRoutelist_spec i h (h.length_routeList i)
    exact ⟨_, by rw [ht]; rfl, hcleared hc⟩
  next hused =>
    have hempty : (s.nbr i).routeList = [] := by
      by_contra hno
      exact hused (h.entry i hno).2.1
    exact ⟨_, rfl, hcleared ⟨h, hempty, fun _ hr => hr, rfl, fun _ => rfl, fun r hr _ => .refl hr⟩⟩

theorem rmByNexthop_spec [DecidableEq A] (null : A) (cache : Cache A) (h : Sane s) (hop : IpAddr) :
    ∃ s', rmByNexthop null cache s hop = some s' ∧ Sane s' ∧ (∀ r ∈ s'.routelist, r ∈ s.routelist) ∧
      s'.routememb.mem = s.routememb.mem := by
  rw [rmByNexthop]
  rcases nbrTableGetFromLladdr s ((cache.lladdr hop).getD null) with _ | i
  · exact ⟨s, rfl, h, fun _ hr => hr, rfl⟩
  · obtain ⟨s', hs', hc⟩ := rmRoutelist_spec i h (h.length_routeList i)
    exact ⟨s', hs', hc.sane, hc.sub, hc.mem⟩

/-! ### Lookup -/

/-- The prefix of a route is that of the address, in whole bytes. -/
def Fits (s : State A N M) (addr : IpAddr) (r : Fin M) : Prop :=
  prefixcmp addr (s.routememb.mem r).ipaddr (s.routememb.mem r).length = true

/-- The longest of the routes of a list that fit, or none if none fits. -/
def Longest (s : State A N M) (addr : IpAddr) (rs : List (Fin M)) (found : Option (Fin M)) : Prop :=
  (found = none ∧ ∀ r ∈ rs, ¬ Fits s addr r) ∨
    ∃ f, found = some f ∧ f ∈ rs ∧ Fits s addr f ∧
      ∀ r ∈ rs, Fits s addr r → (s.routememb.mem r).length ≤ (s.routememb.mem f).length

variable {addr : IpAddr}

/-- LOOKUP: the scan, behind the routes `done`. -/
theorem lookupLoop_spec : ∀ {rs : List (Fin M)} (done : List (Fin M)) {longestmatch : UInt8}
      {found : Option (Fin M)},
    (∀ r ∈ done ++ rs, (s.routememb.mem r).length ≤ 128) → Longest s addr done found →
      (found = none → longestmatch = 0) → (∀ f, found = some f → longestmatch = (s.routememb.mem f).length) →
        Longest s addr (done ++ rs) (lookupLoop s addr rs longestmatch found)
  | [], done, longestmatch, found, _, h, _, _ => by
    rw [append_nil]
    exact h
  | r :: rs, done, longestmatch, found, hlen, h, hnone, hsome => by
    have hsplit : done ++ r :: rs = (done ++ [r]) ++ rs := by rw [append_assoc, singleton_append]
    rw [lookupLoop]
    split
    next hmatch =>
      -- the route is the longest so far
      have hnew : Longest s addr (done ++ [r]) (some r) := by
        refine .inr ⟨r, rfl, mem_append_right _ mem_cons_self, hmatch.2, fun q hq hfits => ?_⟩
        rcases mem_append.mp hq with hin | hin
        · rcases h with ⟨_, hno⟩ | ⟨f, hf, _, _, hmax⟩
          · exact absurd hfits (hno q hin)
          · exact UInt8.le_trans (hmax q hin hfits) (hsome f hf ▸ hmatch.1)
        · rw [mem_singleton.mp hin]
          exact UInt8.le_refl _
      split
      next hfull =>
        refine .inr ⟨r, rfl, mem_append_right _ mem_cons_self, hmatch.2, fun q hq _ => ?_⟩
        rw [hfull]
        exact hlen q hq
      · rw [hsplit]
        refine lookupLoop_spec (done ++ [r]) (hsplit ▸ hlen) hnew nofun fun f hf => ?_
        cases hf
        rfl
    next hmatch =>
      rw [hsplit]
      refine lookupLoop_spec (done ++ [r]) (hsplit ▸ hlen) ?_ hnone hsome
      rcases h with ⟨hfound, hno⟩ | ⟨f, hf, hin, hfits, hmax⟩
      · refine .inl ⟨hfound, fun q hq hfits => ?_⟩
        rcases mem_append.mp hq with hin | hin
        · exact hno q hin hfits
        · rw [mem_singleton.mp hin] at hfits
          refine hmatch ⟨?_, hfits⟩
          rw [hnone hfound, UInt8.le_iff_toNat_le]
          exact Nat.zero_le _
      · refine .inr ⟨f, hf, mem_append_left _ hin, hfits, fun q hq hq' => ?_⟩
        rcases mem_append.mp hq with hin | hin
        · exact hmax q hin hq'
        · rw [mem_singleton.mp hin] at hq' ⊢
          rw [hsome f hf, not_and] at hmatch
          rcases UInt8.le_total (s.routememb.mem f).length (s.routememb.mem r).length with hle | hle
          · exact absurd hq' (hmatch hle)
          · exact hle

/-- What a lookup leaves. -/
structure LookedUp (s : State A N M) (addr : IpAddr) (x : Option (Fin M) × State A N M) : Prop where
  sane : Sane x.2
  perm : x.2.routelist.Perm s.routelist
  mem : x.2.routememb = s.routememb
  nbr : x.2.nbr = s.nbr
  numRoutes : x.2.numRoutes = s.numRoutes
  longest : Longest s addr s.routelist x.1

theorem lookup_spec (h : Sane s) (hlen : ∀ r ∈ s.routelist, (s.routememb.mem r).length ≤ 128) (addr : IpAddr) :
    LookedUp s addr (lookup s addr) := by
  have hlongest : Longest s addr s.routelist (lookupLoop s addr s.routelist 0 none) :=
    lookupLoop_spec [] hlen (.inl ⟨rfl, nofun⟩) (fun _ => rfl) nofun
  rw [lookup]
  generalize lookupLoop s addr s.routelist 0 none = found at hlongest
  rcases found with _ | r
  · exact ⟨h, List.Perm.refl _, rfl, rfl, rfl, hlongest⟩
  · have hr : r ∈ s.routelist := by
      rcases hlongest with ⟨hno, _⟩ | ⟨f, hf, hin, _⟩
      · cases hno
      · cases hf
        exact hin
    dsimp only
    split
    · exact ⟨h, List.Perm.refl _, rfl, rfl, rfl, hlongest⟩
    · have hperm := (perm_cons_erase hr).symm
      exact ⟨h.perm hperm, hperm, rfl, rfl, rfl, hlongest⟩

variable {x : Option (Fin M) × State A N M}

theorem LookedUp.still (h : LookedUp s addr x)
    (hr : r ∈ s.routelist) : Still s x.2 r :=
  ⟨h.perm.mem_iff.mpr hr, by rw [h.mem], fun i _ => by rw [h.nbr]⟩

/-! ### Addition -/

/-- A new route of a neighbour. -/
structure Attached (s : State A N M) (i : Fin N) (ipaddr : IpAddr) (length : UInt8) (r : Fin M) (s' : State A N M) :
    Prop where
  sane : Sane s'
  routelist : s'.routelist = r :: s.routelist
  new : s'.routememb.mem r = ⟨some i, ipaddr, length⟩
  lladdr : ∀ j, (s'.nbr j).lladdr = (s.nbr j).lladdr
  still : ∀ q ∈ s.routelist, Still s s' q

/-- Every entry belongs to a route of its own, so there are no more entries than routes. -/
theorem Sane.entries_le (h : Sane s) :
    ((finRange N).flatMap fun i => (s.nbr i).routeList).length ≤ s.routelist.length := by
  have hinj : (((finRange N).flatMap fun i => (s.nbr i).routeList).map s.neighborroutememb.mem).Nodup := by
    refine (nodup_map_iff_inj_on h.nbrOwns.nodup).mpr fun nr hnr nr' hnr' heq => ?_
    obtain ⟨j, _, hj⟩ := mem_flatMap.mp hnr
    obtain ⟨k, _, hk⟩ := mem_flatMap.mp hnr'
    exact h.once j k nr nr' hj hk heq
  have hsub : (((finRange N).flatMap fun i => (s.nbr i).routeList).map s.neighborroutememb.mem) ⊆
      s.routelist.map some := by
    intro x hx
    obtain ⟨nr, hnr, rfl⟩ := mem_map.mp hx
    obtain ⟨j, _, hj⟩ := mem_flatMap.mp hnr
    obtain ⟨q, hq, hmem, _⟩ := h.linked j nr hj
    rw [hmem]
    exact mem_map_of_mem hq
  have hle := (hinj.subperm hsub).length_le
  rwa [length_map, length_map] at hle

/-- ADDITION: a free block becomes a route of the neighbour `i`, and another one its entry there. -/
theorem Sane.link (h : Sane s) {nr : Fin M} (hfree : s.routememb.freeBlock = some r)
    (hnrFree : s.neighborroutememb.freeBlock = some nr)
    (hlist : ∀ j, (nbr j).routeList = if j = i then (s.nbr i).routeList ++ [nr] else (s.nbr j).routeList)
    (hentry : ∀ j, (nbr j).routeList ≠ [] → (nbr j).present = true ∧ (nbr j).used = true ∧ (nbr j).locked = true)
    {route : Route N} (hroute : route.neighborRoutes = some i) :
    Sane ⟨(s.routememb.take r).modify r fun _ => route, r :: s.routelist,
      (s.neighborroutememb.take nr).modify nr fun _ => some r, s.numRoutes + 1, nbr⟩ := by
  have hr : r ∉ s.routelist := h.owns.not_mem_of_free hfree
  have hnr : ∀ j, nr ∉ (s.nbr j).routeList := fun j hno =>
    h.nbrOwns.not_mem_of_free hnrFree (mem_flatMap.mpr ⟨j, mem_finRange j, hno⟩)
  have hnew : update s.routememb.mem r route r = route := update_self ..
  have hold : ∀ q ∈ s.routelist, update s.routememb.mem r route q = s.routememb.mem q := by
    intro q hq
    refine update_of_ne ?_ _ _
    rintro rfl
    exact hr hq
  have hnbrNew : update s.neighborroutememb.mem nr (some r) nr = some r := update_self ..
  have hnbrOld : ∀ j, ∀ n ∈ (s.nbr j).routeList,
      update s.neighborroutememb.mem nr (some r) n = s.neighborroutememb.mem n := by
    intro j n hn
    refine update_of_ne ?_ _ _
    rintro rfl
    exact hnr j hn
  have hmember : ∀ j n, n ∈ (nbr j).routeList → n ∈ (s.nbr j).routeList ∨ (n = nr ∧ j = i) := by
    intro j n hn
    rw [hlist] at hn
    split at hn
    next hji =>
      rcases mem_append.mp hn with hin | hin
      · exact .inl (hji ▸ hin)
      · exact .inr ⟨mem_singleton.mp hin, hji⟩
    · exact .inl hn
  refine ⟨?_, ?_, ?_, fun j n hn => ?_, fun q hq => ?_, fun j k n n' hn hn' heq => ?_, hentry⟩
  · exact (h.owns.take_insert hfree (List.Perm.refl _)).modify r fun _ => route
  · refine (h.nbrOwns.take_insert hnrFree ?_).modify nr fun _ => some r
    refine Pool.flatMap_perm (f := fun j => (nbr j).routeList) (g := fun j => (s.nbr j).routeList) (a := i)
      (?_ : List.Perm _ ([nr] ++ _)) (fun j hj => ?_) (nodup_finRange N) (mem_finRange i)
    · rw [hlist, if_pos rfl]
      exact perm_append_comm
    · rw [hlist, if_neg hj]
  · dsimp only
    rw [h.count, length_cons, Nat.cast_add, Nat.cast_one]
  · dsimp only [Pool.modify, Pool.take]
    rcases hmember j n hn with hin | ⟨rfl, rfl⟩
    · obtain ⟨q, hq, hmem, hnext⟩ := h.linked j n hin
      refine ⟨q, mem_cons_of_mem _ hq, (hnbrOld j n hin).trans hmem, ?_⟩
      rw [hold q hq]
      exact hnext
    · refine ⟨r, mem_cons_self, hnbrNew, ?_⟩
      rw [hnew]
      exact hroute
  · dsimp only [Pool.modify, Pool.take] at hq ⊢
    rcases mem_cons.mp hq with rfl | hin
    · refine ⟨i, ?_, nr, ?_, hnbrNew⟩
      · rw [hnew]
        exact hroute
      · rw [hlist, if_pos rfl]
        exact mem_append_right _ mem_cons_self
    · obtain ⟨j, hj, n, hn, hmem⟩ := h.listed q hin
      refine ⟨j, ?_, n, ?_, (hnbrOld j n hn).trans hmem⟩
      · rw [hold q hin]
        exact hj
      · rw [hlist]
        split
        next hji => exact mem_append_left _ (hji ▸ hn)
        · exact hn
  · dsimp only [Pool.modify, Pool.take] at heq
    have hother : ∀ k, ∀ m ∈ (s.nbr k).routeList, s.neighborroutememb.mem m ≠ some r := by
      intro k m hm hno
      obtain ⟨q, hq, hmem, _⟩ := h.linked k m hm
      rw [hno] at hmem
      cases hmem
      exact hr hq
    rcases hmember j n hn with hin | ⟨hnn, _⟩ <;> rcases hmember k n' hn' with hin' | ⟨hnn', _⟩
    · rw [hnbrOld j n hin, hnbrOld k n' hin'] at heq
      exact h.once j k n n' hin hin' heq
    · rw [hnbrOld j n hin, hnn', hnbrNew] at heq
      exact absurd heq (hother j n hin)
    · rw [hnn, hnbrNew, hnbrOld k n' hin'] at heq
      exact absurd heq.symm (hother k n' hin')
    · rw [hnn, hnn']

/-- ADDITION: as long as the table is not full there are blocks for a route and for its entry. -/
theorem attach_spec (h : Sane s) (hused : (s.nbr i).present = true ∧ (s.nbr i).used = true)
    (hroom : s.routelist.length < M) (ipaddr : IpAddr) (length : UInt8) :
    ∃ r s', attach s i ipaddr length = (some r, s') ∧ Attached s i ipaddr length r s' := by
  obtain ⟨r, hfree⟩ := h.owns.exists_free hroom
  obtain ⟨nr, hnrFree⟩ := h.nbrOwns.exists_free (lt_of_le_of_lt h.entries_le hroom)
  have hr : r ∉ s.routelist := h.owns.not_mem_of_free hfree
  have hnr : nr ∉ (s.nbr i).routeList := fun hno =>
    h.nbrOwns.not_mem_of_free hnrFree (mem_flatMap.mpr ⟨i, mem_finRange i, hno⟩)
  have hnbr : ∀ j, (s.setNbr i fun n => { n with routeList := n.routeList ++ [nr], locked := true }).nbr j =
      if j = i then { s.nbr i with routeList := (s.nbr i).routeList ++ [nr], locked := true } else s.nbr j :=
    fun j => nbr_setNbr s i _ j
  have hresult : attach s i ipaddr length = (some r, ⟨(s.routememb.take r).modify r fun _ => ⟨some i, ipaddr, length⟩,
      r :: s.routelist, (s.neighborroutememb.take nr).modify nr fun _ => some r, s.numRoutes + 1,
      (s.setNbr i fun n => { n with routeList := n.routeList ++ [nr], locked := true }).nbr⟩) := by
    rw [attach, Pool.alloc, hfree]
    dsimp only
    rw [Pool.alloc, hnrFree, erase_of_not_mem hr]
    dsimp only [State.setNbr]
    rw [erase_of_not_mem hnr]
  have hlladdr : ∀ j, ((s.setNbr i fun n => { n with routeList := n.routeList ++ [nr], locked := true }).nbr j).lladdr =
      (s.nbr j).lladdr := by
    intro j
    rw [hnbr]
    split
    next hji => rw [hji]
    · rfl
  refine ⟨r, _, hresult, h.link hfree hnrFree (fun j => ?_) (fun j hj => ?_) rfl, rfl, update_self .., hlladdr,
    fun q hq => ⟨mem_cons_of_mem _ hq, update_of_ne ?_ _ _, fun j _ => hlladdr j⟩⟩
  · rw [hnbr]
    split <;> rfl
  · rw [hnbr] at hj ⊢
    split
    · exact ⟨hused.1, hused.2, rfl⟩
    next hji =>
      rw [if_neg hji] at hj
      exact h.entry j hj
  · rintro rfl
    exact hr hq

section Add

variable [DecidableEq A] {a : A} {i : Fin N}

theorem indexFromLladdr_some (hi : indexFromLladdr s a = some i) :
    (s.nbr i).present = true ∧ (s.nbr i).lladdr = a := by
  have hfound := find?_some hi
  rw [Bool.and_eq_true, decide_eq_true_iff] at hfound
  exact hfound

theorem get_some_iff : nbrTableGetFromLladdr s a = some i ↔ indexFromLladdr s a = some i ∧ (s.nbr i).used = true := by
  rw [nbrTableGetFromLladdr, filter_eq_some_iff]

/-- What the entry of a next hop is like. -/
structure Entered (s : State A N M) (a : A) (x : Option (Fin N) × State A N M) : Prop where
  sane : Sane x.2
  sub : ∀ r ∈ x.2.routelist, r ∈ s.routelist
  mem : x.2.routememb.mem = s.routememb.mem
  entry : ∀ i, x.1 = some i → (x.2.nbr i).present = true ∧ (x.2.nbr i).used = true ∧ (x.2.nbr i).lladdr = a
  still : ∀ r ∈ s.routelist, Still s x.2 r

/-- ADDITION: of a neighbour to the table, in a slot that is free or not locked. -/
theorem nbrTableAddLladdr_spec (h : Sane s) (hget : nbrTableGetFromLladdr s a = none) (place : Option (Fin N)) :
    ∃ x, nbrTableAddLladdr s a place = some x ∧ Entered s a x := by
  unfold nbrTableAddLladdr
  rcases hindex : indexFromLladdr s a with _ | i
  · dsimp only
    rcases hplace : nbrTableAllocate s place with _ | k
    · exact ⟨_, rfl, h, fun _ hr => hr, rfl, nofun, fun r hr => .refl hr⟩
    · dsimp only
      have hempty : (s.nbr k).routeList = [] := by
        by_contra hno
        obtain ⟨hpresent, _, hlocked⟩ := h.entry k hno
        rw [nbrTableAllocate, filter_eq_some_iff, hpresent, hlocked] at hplace
        exact absurd hplace.2 (by decide)
      have hno : ∀ r ∈ s.routelist, (s.routememb.mem r).neighborRoutes ≠ some k := by
        intro r hr hk
        obtain ⟨j, hj, nr, hnr, _⟩ := h.listed r hr
        rw [hk] at hj
        cases hj
        rw [hempty] at hnr
        cases hnr
      obtain ⟨t, ht, htspec⟩ : ∃ t, (if (s.nbr k).present then removeKey s k else some s) = some t ∧ Cleared s k t := by
        split
        · exact removeKey_spec h k
        · exact ⟨s, rfl, h, hempty, fun _ hr => hr, rfl, fun _ => rfl, fun r hr _ => .refl hr⟩
      have hsane : Sane (t.setNbr k fun n => { n with present := true, lladdr := a, used := true, routeList := [] }) :=
        htspec.sane.setNbr htspec.empty rfl
      rw [ht]
      refine ⟨(some k, t.setNbr k fun n => { n with present := true, lladdr := a, used := true, routeList := [] }), rfl,
        hsane, htspec.sub, htspec.mem, fun i hi => ?_, fun r hr => ?_⟩
      · cases hi
        rw [nbr_setNbr, if_pos rfl]
        exact ⟨rfl, rfl, rfl⟩
      · have hstill := htspec.still r hr (hno r hr)
        refine ⟨hstill.mem, hstill.same, fun j hj => ?_⟩
        have hjk : j ≠ k := by
          rintro rfl
          exact hno r hr hj
        rw [← hstill.hop j hj, nbr_setNbr, if_neg hjk]
  · obtain ⟨hpresent, haddr⟩ := indexFromLladdr_some hindex
    have hempty : (s.nbr i).routeList = [] := by
      by_contra hne
      rw [get_some_iff.mpr ⟨hindex, (h.entry i hne).2.1⟩] at hget
      cases hget
    have hsane : Sane (s.setNbr i fun n => { n with used := true, routeList := [] }) := h.setNbr hempty rfl
    refine ⟨(some i, s.setNbr i fun n => { n with used := true, routeList := [] }), rfl, hsane,
      fun _ hr => hr, rfl, fun j hj => ?_, fun r hr => ⟨hr, rfl, fun j _ => ?_⟩⟩
    · cases hj
      rw [nbr_setNbr, if_pos rfl]
      exact ⟨hpresent, rfl, haddr⟩
    · rw [nbr_setNbr]
      split
      next hji => rw [hji]
      · rfl

/-- What the end of an addition does. -/
structure Inserted (s : State A N M) (a : A) (ipaddr : IpAddr) (length : UInt8) (x : Option (Fin M) × State A N M) :
    Prop where
  sane : Sane x.2
  sub : ∀ r ∈ x.2.routelist, (r ∈ s.routelist ∧ x.2.routememb.mem r = s.routememb.mem r) ∨
    ((x.2.routememb.mem r).ipaddr = ipaddr ∧ (x.2.routememb.mem r).length = length)
  new : ∀ r, x.1 = some r → r ∈ x.2.routelist ∧ ∃ i, x.2.routememb.mem r = ⟨some i, ipaddr, length⟩ ∧
    (x.2.nbr i).lladdr = a
  still : ∀ r ∈ s.routelist, Still s x.2 r

theorem insert_spec (h : Sane s) (hroom : s.routelist.length < M) (ipaddr : IpAddr) (length : UInt8)
    (place : Option (Fin N)) : ∃ x, insert s a ipaddr length place = some x ∧ Inserted s a ipaddr length x := by
  -- the route comes to an entry that is there, or to a new one
  have hattach : ∀ {t : State A N M} {i : Fin N}, Sane t → (∀ r ∈ t.routelist, r ∈ s.routelist) →
      t.routememb.mem = s.routememb.mem → (t.nbr i).present = true ∧ (t.nbr i).used = true ∧ (t.nbr i).lladdr = a →
      (∀ r ∈ s.routelist, Still s t r) → Inserted s a ipaddr length (attach t i ipaddr length) := by
    intro t i ht hsub hmem hentry hstill
    have hle : t.routelist.length ≤ s.routelist.length := (ht.owns.nodup.subperm hsub).length_le
    obtain ⟨r, t', hresult, hatt⟩ := attach_spec ht ⟨hentry.1, hentry.2.1⟩ (lt_of_le_of_lt hle hroom) ipaddr length
    rw [hresult]
    refine ⟨hatt.sane, fun q hq => ?_, fun q hq => ?_, fun q hq => (hstill q hq).trans (hatt.still q (hstill q hq).mem)⟩
    · dsimp only at hq ⊢
      rw [hatt.routelist] at hq
      rcases mem_cons.mp hq with rfl | hin
      · rw [hatt.new]
        exact .inr ⟨rfl, rfl⟩
      · exact .inl ⟨hsub q hin, (hatt.still q hin).same.trans (congrFun hmem q)⟩
    · cases hq
      refine ⟨?_, i, hatt.new, (hatt.lladdr i).trans hentry.2.2⟩
      rw [hatt.routelist]
      exact mem_cons_self
  unfold insert
  rcases hget : nbrTableGetFromLladdr s a with _ | i
  · obtain ⟨x, hx, hentered⟩ := nbrTableAddLladdr_spec h hget place
    rw [hx]
    rcases hfirst : x.1 with _ | i
    · refine ⟨(none, x.2), by rw [map_some, hfirst], hentered.sane, fun r hr => ?_, nofun,
        hentered.still⟩
      exact .inl ⟨hentered.sub r hr, congrFun hentered.mem r⟩
    · exact ⟨attach x.2 i ipaddr length, by rw [map_some, hfirst],
        hattach hentered.sane hentered.sub hentered.mem (hentered.entry i hfirst) hentered.still⟩
  · obtain ⟨hindex, hused⟩ := get_some_iff.mp hget
    obtain ⟨hpresent, haddr⟩ := indexFromLladdr_some hindex
    exact ⟨_, rfl, hattach h (fun _ hr => hr) rfl ⟨hpresent, hused, haddr⟩ fun r hr => .refl hr⟩

/-- ROOM: the table is not full, or it loses one route. -/
structure Roomy (s s' : State A N M) : Prop where
  sane : Sane s'
  room : s'.routelist.length < M
  sub : ∀ r ∈ s'.routelist, r ∈ s.routelist
  mem : s'.routememb.mem = s.routememb.mem
  evicted : ∃ e : Option (Fin M), (e ≠ none → s.numRoutes = M) ∧ ∀ r ∈ s.routelist, e ≠ some r → Still s s' r

omit [DecidableEq A] in
theorem makeRoom_spec {removeLru : Bool} (h : Sane s) (hs' : makeRoom removeLru s = some s') : Roomy s s' := by
  rw [makeRoom] at hs'
  split at hs'
  next hfull =>
    split at hs'
    · obtain ⟨oldest, hlast, rfl⟩ := map_eq_some_iff.mp hs'
      have hin := mem_of_getLast? hlast
      have hrm := routeRm_spec h hin
      refine ⟨hrm.sane, ?_, fun q hq => ?_, hrm.mem, some oldest, fun _ => hfull, fun q hq hne => hrm.still hq ?_⟩
      · rw [hrm.routelist, length_erase_of_mem hin]
        have hlen := h.owns.length_le
        have hpos := length_pos_of_mem hin
        omega
      · rw [hrm.routelist] at hq
        exact mem_of_mem_erase hq
      · rintro rfl
        exact hne rfl
    · cases hs'
  next hnot =>
    cases hs'
    refine ⟨h, ?_, fun _ hq => hq, rfl, none, fun hno => absurd rfl hno, fun q hq _ => .refl hq⟩
    have hlen := h.owns.length_le
    rw [h.count] at hnot
    omega

omit [DecidableEq A] in
/-! ### `uip_ds6_route_add` -/

/-- What an addition leaves: a sane table, with routes from before or of the new prefix. -/
structure Grown (s : State A N M) (ipaddr : IpAddr) (length : UInt8) (s' : State A N M) : Prop where
  sane : Sane s'
  sub : ∀ r ∈ s'.routelist, (r ∈ s.routelist ∧ s'.routememb.mem r = s.routememb.mem r) ∨
    ((s'.routememb.mem r).ipaddr = ipaddr ∧ (s'.routememb.mem r).length = length)

/-- The end of an addition, with what it promises if it is successful. -/
structure Ended (s : State A N M) (a : A) (ipaddr : IpAddr) (length : UInt8) (x : Option (Fin M) × State A N M) : Prop
    extends Grown s ipaddr length x.2 where
  new : ∀ r, x.1 = some r → r ∈ x.2.routelist ∧ ∃ i, x.2.routememb.mem r = ⟨some i, ipaddr, length⟩ ∧
    (x.2.nbr i).lladdr = a
  evicted : x.1 ≠ none → ∃ e : Option (Fin M), (e ≠ none → s.numRoutes = M) ∧
    ∀ r ∈ s.routelist, e ≠ some r → Still s x.2 r

theorem addRoute_spec (removeLru : Bool) (h : Sane s) (ipaddr : IpAddr) (length : UInt8) (place : Option (Fin N)) :
    ∃ x, addRoute removeLru s a ipaddr length place = some x ∧ Ended s a ipaddr length x := by
  rw [addRoute]
  rcases hroom : makeRoom removeLru s with _ | t
  · exact ⟨_, rfl, ⟨h, fun r hr => .inl ⟨hr, rfl⟩⟩, nofun, fun hno => absurd rfl hno⟩
  · have ht := makeRoom_spec h hroom
    obtain ⟨x, hx, hins⟩ := insert_spec ht.sane ht.room ipaddr length place
    obtain ⟨e, hfull, hstill⟩ := ht.evicted
    refine ⟨x, hx, ⟨hins.sane, fun r hr => ?_⟩, hins.new, fun _ => ⟨e, hfull, fun r hr hne => ?_⟩⟩
    · rcases hins.sub r hr with ⟨hin, hmem⟩ | hnew
      · exact .inl ⟨ht.sub r hin, hmem.trans (congrFun ht.mem r)⟩
      · exact .inr hnew
    · have hold := hstill r hr hne
      exact hold.trans (hins.still r hold.mem)

end Add

/-! ### Prefixes -/

/-- Bit `k` of an address, the first one being the highest. -/
def addrBit (a : IpAddr) (k : Nat) : Bool := (a (Fin.ofNat 16 (k / 8))).toBitVec.getLsbD (7 - k % 8)

/-- The addresses have the same first `length` bits. -/
def SameBits (length : Nat) (a b : IpAddr) : Prop := ∀ k < length, addrBit a k = addrBit b k

theorem byte_ext {x y : UInt8} (h : ∀ k < 8, x.toBitVec.getLsbD (7 - k) = y.toBitVec.getLsbD (7 - k)) : x = y := by
  refine UInt8.toBitVec_inj.mp (BitVec.eq_of_getLsbD_eq fun i hi => ?_)
  have hk := h (7 - i) (by omega)
  rwa [show 7 - (7 - i) = i by omega] at hk

variable {length : UInt8}

/-- Prefixes of whole bytes are compared as they should be. -/
theorem prefixcmp_iff {a b : IpAddr} (hle : length ≤ 128) (hbytes : length.toNat % 8 = 0) :
    prefixcmp a b length = true ↔ SameBits length.toNat a b := by
  have hlen : length.toNat ≤ 128 := UInt8.le_iff_toNat_le.mp hle
  have hbyte : prefixcmp a b length = true ↔ ∀ i : Fin 16, i.val < length.toNat / 8 → a i = b i := by
    rw [prefixcmp, beq_iff_eq]
    constructor
    · intro heq i hi
      have hget := congrArg (fun l : List UInt8 => l[i.val]?) heq
      simp only [List.getElem?_take, hi, if_true, List.getElem?_ofFn, i.isLt, dite_true] at hget
      exact Option.some.inj hget
    · intro h
      refine ext_getElem (by simp) fun i hi hi' => ?_
      rw [length_take, length_ofFn] at hi
      rw [List.getElem_take, List.getElem_take, List.getElem_ofFn, List.getElem_ofFn]
      exact h ⟨i, by omega⟩ (by dsimp only; omega)
  rw [hbyte]
  constructor
  · intro h k hk
    rw [addrBit, addrBit, h _ (by rw [Fin.val_ofNat]; omega)]
  · intro h i hi
    refine byte_ext fun k hk => ?_
    have hbit := h (i.val * 8 + k) (by omega)
    have hdiv : (i.val * 8 + k) / 8 = i.val := by omega
    have hmod : (i.val * 8 + k) % 8 = k := by omega
    have hfin : Fin.ofNat 16 i.val = i := Fin.ofNat_val_eq_self i
    rw [addrBit, addrBit, hdiv, hmod, hfin] at hbit
    exact hbit

def HasPrefix (route : Route N) (ipaddr : IpAddr) (length : UInt8) : Prop :=
  route.length = length ∧ SameBits length.toNat route.ipaddr ipaddr

/-- The address has the prefix of the route. -/
def Matches (addr : IpAddr) (route : Route N) : Prop := SameBits route.length.toNat addr route.ipaddr

/-! ### Runs -/

section Runs

variable [DecidableEq A] {null : A} {cache : Cache A} {removeLru : Bool}

/-- A route with this prefix and next hop is stored. -/
def Stored (null : A) (cache : Cache A) (s : State A N M) (ipaddr : IpAddr) (length : UInt8) (h : IpAddr) : Prop :=
  ∃ r ∈ s.routelist, HasPrefix (s.routememb.mem r) ipaddr length ∧ nexthop null cache s r = some h

/-- A successful addition: the route is stored, and so are the others, except one evicted from a full table. -/
def AddsRight (null : A) (cache : Cache A) (s : State A N M) (ipaddr : IpAddr) (length : UInt8) (h : IpAddr)
    (s' : State A N M) : Prop :=
  Stored null cache s' ipaddr length h ∧ ∃ e : Option (Fin M), (e ≠ none → s.numRoutes = M) ∧
    ∀ r ∈ s.routelist, ¬ HasPrefix (s.routememb.mem r) ipaddr length → e ≠ some r → Still s s' r

/-- What a lookup is for: the longest stored prefix of an address. -/
def LooksUpRight (s : State A N M) (addr : IpAddr) (found : Option (Fin M)) : Prop :=
  (found = none ∧ ∀ r ∈ s.routelist, ¬ Matches addr (s.routememb.mem r)) ∨
    ∃ f, found = some f ∧ f ∈ s.routelist ∧ Matches addr (s.routememb.mem f) ∧
      ∀ r ∈ s.routelist, Matches addr (s.routememb.mem r) → (s.routememb.mem r).length ≤ (s.routememb.mem f).length

/-- The prefix ends with a byte, and what the lookup of it finds is a route with a prefix of this length, or else the
    next hop is that of the new route, which is stored already. -/
def Replaces (null : A) (s : State A N M) : Event A N M → Prop
  | .add cache ipaddr length h _ => length.toNat % 8 = 0 ∧ ∀ r, (lookup s ipaddr).1 = some r →
      (s.routememb.mem r).length = length ∨ (nexthop null cache s r = some h ∧ Stored null cache s ipaddr length h)
  | _ => True

/-- The steps of a run. -/
def Meets (null : A) (s : State A N M) (e : Event A N M) : Prop := e.Proper s ∧ Replaces null s e

/-- The prefixes of the stored routes. -/
def Whole (s : State A N M) : Prop :=
  ∀ r ∈ s.routelist, (s.routememb.mem r).length ≤ 128 ∧ (s.routememb.mem r).length.toNat % 8 = 0

omit [DecidableEq A] in
theorem Whole.fits_iff (h : Whole s) (hr : r ∈ s.routelist) (addr : IpAddr) :
    Fits s addr r ↔ Matches addr (s.routememb.mem r) := prefixcmp_iff (h r hr).1 (h r hr).2

omit [DecidableEq A] in
theorem LookedUp.right (h : LookedUp s addr x) (hwhole : Whole s) :
    LooksUpRight s addr x.1 := by
  rcases h.longest with ⟨hnone, hno⟩ | ⟨f, hf, hin, hfits, hmax⟩
  · exact .inl ⟨hnone, fun r hr hm => hno r hr ((hwhole.fits_iff hr addr).mpr hm)⟩
  · exact .inr ⟨f, hf, hin, (hwhole.fits_iff hin addr).mp hfits,
      fun r hr hm => hmax r hr ((hwhole.fits_iff hr addr).mpr hm)⟩

variable {s' : State A N M}

variable (null cache) in
omit [DecidableEq A] in
theorem nexthop_still (h : Still s s' r) : nexthop null cache s' r = nexthop null cache s r := by
  rw [nexthop, nexthop, h.same]
  rcases hn : (s.routememb.mem r).neighborRoutes with _ | i
  · rfl
  · rw [map_some, map_some, h.hop i hn]

omit [DecidableEq A] in
theorem Stored.still {ipaddr hop : IpAddr} (h : Stored null cache s ipaddr length hop) (hstill : ∀ r
    ∈ s.routelist, Still s s' r) : Stored null cache s' ipaddr length hop := by
  obtain ⟨r, hr, hp, hn⟩ := h
  have hs := hstill r hr
  refine ⟨r, hs.mem, ?_, (nexthop_still null cache hs).trans hn⟩
  rw [hs.same]
  exact hp

omit [DecidableEq A] in
theorem stored_new {ipaddr hop : IpAddr} {a : A} (hcache : cache.lladdr hop = some a)
    (hr : r ∈ s.routelist) {i : Fin N} (hmem : s.routememb.mem r = ⟨some i, ipaddr, length⟩)
    (haddr : (s.nbr i).lladdr = a) : Stored null cache s ipaddr length hop := by
  refine ⟨r, hr, ?_, ?_⟩
  · rw [hmem]
    exact ⟨rfl, fun _ _ => rfl⟩
  · rw [nexthop, hmem, map_some, getD_some, haddr]
    exact cache.consistent hcache

variable (removeLru) in
/-- ADDITION: it ends and keeps the table sane; where it replaces what it should, it does what it is for. -/
theorem routeAdd_spec (h : Sane s) (hwhole : Whole s) (cache : Cache A) (ipaddr : IpAddr) (length : UInt8) (hop : IpAddr)
    (place : Option (Fin N)) (hreplaces : Replaces null s (.add cache ipaddr length hop place)) :
    ∃ x, routeAdd removeLru null cache s ipaddr length hop place = some x ∧ Grown s ipaddr length x.2 ∧
      (x.1 ≠ none → AddsRight null cache s ipaddr length hop x.2) := by
  have hlookup := lookup_spec h (fun r hr => (hwhole r hr).1) ipaddr
  obtain ⟨hbytes, hfound⟩ := hreplaces
  rw [routeAdd]
  rcases hcache : cache.lladdr hop with _ | a
  · exact ⟨_, rfl, ⟨h, fun r hr => .inl ⟨hr, rfl⟩⟩, fun hno => absurd rfl hno⟩
  · dsimp only
    generalize lookup s ipaddr = y at hlookup hfound
    obtain ⟨found, t⟩ := y
    have hin : ∀ q, q ∈ t.routelist ↔ q ∈ s.routelist := fun q => hlookup.perm.mem_iff
    have hmem : t.routememb.mem = s.routememb.mem := congrArg (fun p => p.mem) hlookup.mem
    have hadded : ∀ {u : State A N M} {x : Option (Fin M) × State A N M}, Ended u a ipaddr length x →
        (∀ q ∈ u.routelist, q ∈ s.routelist) → u.routememb.mem = s.routememb.mem → Grown s ipaddr length x.2 := by
      intro u x hx hsub hu
      refine ⟨hx.sane, fun q hq => ?_⟩
      rcases hx.sub q hq with ⟨hqu, hqm⟩ | hnew
      · exact .inl ⟨hsub q hqu, hqm.trans (congrFun hu q)⟩
      · exact .inr hnew
    rcases found with _ | r
    · obtain ⟨x, hx, hended⟩ := addRoute_spec (a := a) removeLru hlookup.sane ipaddr length place
      refine ⟨x, hx, hadded hended (fun q hq => (hin q).mp hq) hmem, fun hsome => ?_⟩
      obtain ⟨r, hr⟩ := ne_none_iff_exists'.mp hsome
      obtain ⟨hrin, i, hnew, haddr⟩ := hended.new r hr
      obtain ⟨e, hfull, hstill⟩ := hended.evicted hsome
      refine ⟨stored_new hcache hrin hnew haddr, e, fun he => hlookup.numRoutes ▸ hfull he, fun q hq _ hne => ?_⟩
      exact (hlookup.still hq).trans (hstill q ((hin q).mpr hq) hne)
    · have hrs : r ∈ s.routelist := by
        rcases hlookup.longest with ⟨hno, _⟩ | ⟨f, hf, hfin, _⟩
        · cases hno
        · cases hf
          exact hfin
      have hsame := nexthop_still null cache (hlookup.still hrs)
      dsimp only at hsame hfound ⊢
      split
      next hhop =>
        refine ⟨_, rfl, ⟨hlookup.sane, fun q hq => .inl ⟨(hin q).mp hq, congrFun hmem q⟩⟩, fun _ => ⟨?_, none,
          fun hno => absurd rfl hno, fun q hq _ _ => hlookup.still hq⟩⟩
        rcases hfound r rfl with hlen | ⟨_, hstored⟩
        · refine ⟨r, (hin r).mpr hrs, ?_, hhop⟩
          rw [congrFun hmem r]
          refine ⟨hlen, fun k hk => ?_⟩
          rcases hlookup.right hwhole with ⟨hno, _⟩ | ⟨f, hf, _, hmatch, _⟩
          · cases hno
          · cases hf
            exact (hmatch k (hlen ▸ hk)).symm
        · exact hstored.still fun q hq => hlookup.still hq
      next hhop =>
        rw [hsame] at hhop
        have hlen : (s.routememb.mem r).length = length := (hfound r rfl).resolve_right fun hno => hhop hno.1
        have hrm := routeRm_spec hlookup.sane ((hin r).mpr hrs)
        obtain ⟨x, hx, hended⟩ := addRoute_spec (a := a) removeLru hrm.sane ipaddr length place
        have hsub : ∀ q ∈ (routeRm t r).routelist, q ∈ s.routelist := by
          intro q hq
          rw [hrm.routelist] at hq
          exact (hin q).mp (mem_of_mem_erase hq)
        refine ⟨x, hx, hadded hended hsub (hrm.mem.trans hmem), fun hsome => ?_⟩
        obtain ⟨r', hr'⟩ := ne_none_iff_exists'.mp hsome
        obtain ⟨hrin, i, hnew, haddr⟩ := hended.new r' hr'
        obtain ⟨e, hfull, hstill⟩ := hended.evicted hsome
        -- without the old route the table is not full
        have hroom : (routeRm t r).numRoutes ≠ M := by
          rw [hrm.sane.count, hrm.routelist, length_erase_of_mem ((hin r).mpr hrs)]
          have hle := hlookup.sane.owns.length_le
          have hpos := length_pos_of_mem ((hin r).mpr hrs)
          dsimp only at hle
          omega
        have hnone : e = none := by
          by_contra hno
          exact hroom (hfull hno)
        refine ⟨stored_new hcache hrin hnew haddr, none, fun hno => absurd rfl hno, fun q hq hother _ => ?_⟩
        have hqr : q ≠ r := by
          rintro rfl
          refine hother ⟨hlen, fun k hk => ?_⟩
          rcases hlookup.right hwhole with ⟨hno, _⟩ | ⟨f, hf, _, hmatch, _⟩
          · cases hno
          · cases hf
            exact (hmatch k (hlen ▸ hk)).symm
        have hold := hlookup.still hq
        have hrest := hrm.still hold.mem hqr
        refine (hold.trans hrest).trans (hstill q hrest.mem ?_)
        rw [hnone]
        exact some_ne_none q |>.symm

/-- What holds between two calls. -/
structure Inv (s : State A N M) : Prop where
  sane : Sane s
  whole : Whole s

omit [DecidableEq A] in
theorem inv_init (a : A) : Inv (init a : State A N M) := by
  have hflat : ((finRange N).flatMap fun _ => ([] : List (Fin M))) = [] := flatMap_eq_nil_iff.mpr fun _ _ => rfl
  refine ⟨⟨Pool.owns_init _, ?_, rfl, fun i nr hnr => ?_, fun r hr => ?_, fun i j nr nr' hnr => ?_,
    fun i hi => absurd rfl hi⟩, fun r hr => ?_⟩
  · rw [init]
    rw [hflat]
    exact Pool.owns_init _
  · cases hnr
  · cases hr
  · cases hnr
  · cases hr

omit [DecidableEq A] in
/-- Fewer routes, of the same prefixes. -/
theorem Whole.sub (h : Whole s) (hsub : ∀ r ∈ s'.routelist, r ∈ s.routelist)
    (hmem : s'.routememb.mem = s.routememb.mem) : Whole s' := by
  intro r hr
  rw [hmem]
  exact h r (hsub r hr)

variable (removeLru) in
/-- INVARIANT: every call returns, and keeps what holds. -/
theorem Inv.step (h : Inv s) {e : Event A N M} (hmeets : Meets null s e) :
    ∃ t, step removeLru null s e = some t ∧ Inv t := by
  obtain ⟨hproper, hreplaces⟩ := hmeets
  cases e with
  | add cache ipaddr length hop place =>
    obtain ⟨x, hx, hgrown, _⟩ := routeAdd_spec removeLru h.sane h.whole cache ipaddr length hop place hreplaces
    refine ⟨x.2, congrArg (Option.map Prod.snd) hx, hgrown.sane, fun r hr => ?_⟩
    rcases hgrown.sub r hr with ⟨hin, hmem⟩ | ⟨_, hlen⟩
    · rw [hmem]
      exact h.whole r hin
    · rw [hlen]
      exact ⟨hproper, hreplaces.1⟩
  | rm r =>
    have hrm := routeRm_spec h.sane hproper
    refine ⟨_, rfl, hrm.sane, h.whole.sub (fun q hq => ?_) hrm.mem⟩
    rw [hrm.routelist] at hq
    exact mem_of_mem_erase hq
  | rmByNexthop cache hop =>
    obtain ⟨t, ht, hsane, hsub, hmem⟩ := rmByNexthop_spec null cache h.sane hop
    exact ⟨t, ht, hsane, h.whole.sub hsub hmem⟩
  | lookup addr =>
    have hl := lookup_spec h.sane (fun r hr => (h.whole r hr).1) addr
    exact ⟨_, rfl, hl.sane, h.whole.sub (fun q hq => hl.perm.mem_iff.mp hq) (congrArg (fun p => p.mem) hl.mem)⟩
  | evict i =>
    obtain ⟨t, ht, hc⟩ := removeKey_spec h.sane i
    exact ⟨t, ht, hc.sane, h.whole.sub hc.sub hc.mem⟩
  | appear i a => exact ⟨_, rfl, h.sane.readdress i fun n => ⟨rfl, fun _ => rfl, rfl, rfl⟩, h.whole⟩
  | rename i a => exact ⟨_, rfl, h.sane.readdress i fun n => ⟨rfl, id, rfl, rfl⟩, h.whole⟩

/-- What the table promises in a state. -/
structure Served (removeLru : Bool) (null : A) (s : State A N M) : Prop where
  count : s.numRoutes = s.routelist.length
  allocated : (finRange M).countP (fun r => decide (s.routememb.count r ≠ 0)) = s.routelist.length
  linked : ∀ r ∈ s.routelist, ∃ i, (s.routememb.mem r).neighborRoutes = some i ∧ (s.nbr i).present = true ∧
    (s.nbr i).used = true ∧ ∀ j, (∃ nr ∈ (s.nbr j).routeList, s.neighborroutememb.mem nr = some r) ↔ j = i
  lookup : ∀ addr, LooksUpRight s addr (lookup s addr).1
  add : ∀ cache ipaddr length hop place, Meets null s (.add cache ipaddr length hop place) → ∀ r s',
    routeAdd removeLru null cache s ipaddr length hop place = some (some r, s') →
      AddsRight null cache s ipaddr length hop s'
  returns : ∀ e, Meets null s e → (step removeLru null s e).isSome

theorem Inv.served (h : Inv s) : Served removeLru null s := by
  refine ⟨h.sane.count, h.sane.owns.countP_eq, fun r hr => ?_, fun addr => ?_,
    fun cache ipaddr length hop place hmeets r s' hadd => ?_, fun e hmeets => ?_⟩
  · obtain ⟨i, hi, nr, hnr, hmem⟩ := h.sane.listed r hr
    obtain ⟨hpresent, hused, _⟩ := h.sane.entry i (ne_nil_of_mem hnr)
    refine ⟨i, hi, hpresent, hused, fun j => ⟨?_, ?_⟩⟩
    · rintro ⟨nr', hnr', hmem'⟩
      obtain ⟨q, _, hq, hnext⟩ := h.sane.linked j nr' hnr'
      rw [hmem'] at hq
      cases hq
      rw [hi] at hnext
      exact (some.inj hnext).symm
    · rintro rfl
      exact ⟨nr, hnr, hmem⟩
  · exact (lookup_spec h.sane (fun r hr => (h.whole r hr).1) addr).right h.whole
  · obtain ⟨x, hx, _, hright⟩ := routeAdd_spec removeLru h.sane h.whole cache ipaddr length hop place hmeets.2
    rw [hadd] at hx
    cases hx
    exact hright (some_ne_none r)
  · obtain ⟨t, ht, _⟩ := h.step removeLru hmeets
    rw [ht]
    rfl

/-- The table keeps its promises in every run whose prefixes end with a byte, and where what a lookup of a new
    prefix finds has the same length. -/
theorem routes_served {a : A} {es : List (Event A N M)}
    (hrun : Run (step removeLru null) (Meets null) (init a) es s) : Served removeLru null s := by
  refine (hrun.invariant (P := Inv) (fun s e t h hmeets hstep => ?_) (inv_init a)).served
  obtain ⟨t', ht', hinv⟩ := h.step removeLru hmeets
  rw [hstep] at ht'
  cases ht'
  exact hinv

end Runs

/-- A neighbour with an address and a link-layer address. -/
def oneNeighbor (h : IpAddr) (a : Nat) : Cache Nat where
  lladdr h' := if h' = h then some a else none
  ipaddr a' := if a' = a then some h else none
  consistent := by
    intro h' a' heq
    split at heq
    next hh =>
      cases heq
      rw [hh, if_pos rfl]
    · cases heq

/-- A route of 64 bits, which gets another next hop. -/
theorem routes_served_run : ∃ s : State Nat 2 4, s.routelist = [0] ∧ Served false 0 s := by
  have hrun : Run (step false 0) (Meets 0) (init 0 : State Nat 2 4)
      [.appear 0 1, .appear 1 2, .add (oneNeighbor (fun _ => 9) 1) (fun _ => 7) 64 (fun _ => 9) none,
        .add (oneNeighbor (fun _ => 8) 2) (fun _ => 7) 64 (fun _ => 8) none] _ :=
    .cons ⟨rfl, trivial⟩ rfl (.cons ⟨rfl, trivial⟩ rfl (.cons
      ⟨(show (64 : UInt8) ≤ 128 by decide), rfl, nofun⟩ rfl (.cons
        ⟨(show (64 : UInt8) ≤ 128 by decide), rfl, fun r hr => .inl (by cases hr; rfl)⟩ rfl (.nil _))))
  exact ⟨_, by decide, routes_served hrun⟩

/-- After a run of proper calls, an addition is successful but not right. -/
def AddsWrong : Prop :=
  ∃ (es : List (Event Nat 2 4)) (s : State Nat 2 4), Run (step false 0) (fun s e => e.Proper s) (init 0) es s ∧
    ∃ cache ipaddr length hop place r s', Event.Proper s (.add cache ipaddr length hop place) ∧
      routeAdd false 0 cache s ipaddr length hop place = some (some r, s') ∧ ¬ AddsRight 0 cache s ipaddr length hop s'

/-- A route of 128 bits makes one of 64 bits go. -/
theorem host_route_replaces_prefix : AddsWrong := by
  have hrun : Run (step false 0) (fun s e => e.Proper s) (init 0 : State Nat 2 4)
      [.appear 0 1, .appear 1 2, .add (oneNeighbor (fun _ => 9) 1) (fun _ => 7) 64 (fun _ => 9) none] _ :=
    .cons rfl rfl (.cons rfl rfl (.cons (show (64 : UInt8) ≤ 128 by decide) rfl (.nil _)))
  refine ⟨_, _, hrun, oneNeighbor (fun _ => 8) 2, fun _ => 7, 128, fun _ => 8, none, 0, _,
    show (128 : UInt8) ≤ 128 by decide, rfl, ?_⟩
  rintro ⟨_, e, hfull, hstill⟩
  have hnone : e = none := by
    by_contra hno
    exact absurd (hfull hno) (by decide)
  have hother := hstill 0 (by decide) (fun hp => absurd hp.1 (by decide)) (by rw [hnone]; decide)
  exact absurd (congrArg Route.length hother.same) (by decide)

end CSync.Routes
