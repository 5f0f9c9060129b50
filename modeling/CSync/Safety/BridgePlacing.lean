import CSync.Node.Answers
import CSync.Node.Placing
import CSync.Node.TableRuns
import CSync.Safety.Duplicates

/-! The placing of a commoner that becomes a bridge.

    `enter_election_declaration` sums over the neighbours of the topology; a commoner with several heads later takes from
    the sum what the heads add. Two sums over two lists at two times: the second is no more than the first as long as
    every head adds no more than its address did at the beginning, and no address is listed twice. In between degrees
    and the own degree change, and neighbours are found; a rise of an address breaks the bound, and so does a list of
    heads that is older than the table. -/

namespace CSync

open Lib List

namespace Node

variable {R : Type} [SoftDouble R]

/-! ### The phase loop -/

/-- Nothing that the placing is about has changed. -/
structure SamePlace (s t : Node R) : Prop where
  state : t.myState = s.myState
  addr : t.myAddr = s.myAddr
  nb : t.nb = s.nb
  cl : t.cl = s.cl
  placing : t.myPlacing = s.myPlacing

omit [SoftDouble R] in
theorem SamePlace.refl (s : Node R) : SamePlace s s := ⟨rfl, rfl, rfl, rfl, rfl⟩

variable {s t : Node R} {n : Neighbour R} {value : AnnouncementValue R} {rx : Reception R}

omit [SoftDouble R] in
theorem SamePlace.trans {u : Node R} (h : SamePlace s t) (h' : SamePlace t u) : SamePlace s u :=
  ⟨h'.state.trans h.state, h'.addr.trans h.addr, h'.nb.trans h.nb, h'.cl.trans h.cl, h'.placing.trans h.placing⟩

/-- A commoner with several heads has become a bridge, and its placing is less by what the heads add. -/
structure Bridged (s t : Node R) : Prop where
  commoner : s.cl.role = .cm
  several : 1 < s.cl.chs.length
  cl : t.cl = { s.cl with role := .cb }
  placing : t.myPlacing = s.myPlacing - csyncChbPlacing { s.cl with role := .cb } s.myAddr s.nb.myDegree

/-- Everything is in its place, or the node has become a bridge. -/
def Switched (s t : Node R) : Prop := SamePlace s t ∨ Bridged s t

omit [SoftDouble R] in
theorem Switched.trans {u : Node R} (h : Switched s t) (h' : SamePlace t u) : Switched s u := by
  rcases h with h | h
  · exact .inl (h.trans h')
  · exact .inr ⟨h.commoner, h.several, h'.cl.trans h.cl, h'.placing.trans h.placing⟩

variable {yes no : Node R → Node R}

theorem place_ifScheduled {P : Node R → Prop} {type : ScheduleType} {c f : UInt32} {func : Callback}
    (h : SamePlace s t) (hyes : ∀ u, SamePlace s u → P (yes u))
    (hno : ∀ u, SamePlace s u → P (no u)) : P (t.ifScheduled type c f func yes no) := by
  have hcall : SamePlace s (t.schedule type c f func).2 := ⟨h.state, h.addr, h.nb, h.cl, h.placing⟩
  rw [ifScheduled]
  split
  · exact hyes _ hcall
  · exact hno _ hcall

theorem place_announce (s : Node R) (id : AnnId) (degree : UInt8) : SamePlace s (s.announce id degree) :=
  ⟨rfl, rfl, rfl, rfl, rfl⟩

omit [SoftDouble R] in
theorem place_send (s : Node R) (id : AnnId) (refAddr : UInt16) :
    SamePlace s ((s.mapAnn id (·.setRefAddr refAddr)).addAndBump id) := ⟨rfl, rfl, rfl, rfl, rfl⟩

theorem place_filled (h : SamePlace s t) (id : AnnId) (degree : UInt8) (refAddr : UInt16) :
    SamePlace s (((t.announce id degree).mapAnn id (·.setRefAddr refAddr)).addAndBump id) :=
  (h.trans (t.place_announce id degree)).trans ((t.announce id degree).place_send id refAddr)

theorem place_caseConnectionDeclaration (s : Node R) : SamePlace s s.caseConnectionDeclaration := by
  refine place_ifScheduled (.refl s) (fun t ht => ?_) fun t ht => ht
  split
  · exact ⟨ht.state, ht.addr, ht.nb, ht.cl, ht.placing⟩
  · exact place_filled ht .declaration _ _
  · exact ht

theorem becomeBridge_bridged (h : SamePlace s t) (hcm : t.cl.role = .cm) (hlen : 1 < t.cl.chs.length) :
    Bridged s t.becomeBridge := by
  have hcl : t.becomeBridge.cl = { t.cl with role := .cb } := congrArg Core.cl t.core_becomeBridge
  have hplacing : t.becomeBridge.myPlacing =
      t.myPlacing - csyncChbPlacing { t.cl with role := .cb } t.myAddr t.nb.myDegree := by
    rw [becomeBridge]
    split <;> rfl
  rw [h.cl] at hcl hcm hlen
  rw [h.cl, h.addr, h.nb, h.placing] at hplacing
  exact ⟨hcm, hlen, hcl, hplacing⟩

theorem switched_caseConnectionRevelation (h : SamePlace s t) : Switched s t.caseConnectionRevelation := by
  have hcall : Switched s (t.ifScheduled .intervalRef 0 regularSlotInterval .enterConnectionDeclaration
      (fun s => if 1 < s.cl.chs.length ∧ s.cl.role = .cm then s.becomeBridge else s) id) := by
    refine place_ifScheduled h (fun u hu => ?_) fun u hu => .inl hu
    split
    next hbridge => exact .inr (becomeBridge_bridged hu hbridge.2 hbridge.1)
    · exact .inl hu
  rw [caseConnectionRevelation]
  generalize t.ifScheduled .intervalRef 0 regularSlotInterval .enterConnectionDeclaration
    (fun s => if 1 < s.cl.chs.length ∧ s.cl.role = .cm then s.becomeBridge else s) id = u at hcall ⊢
  split
  · have hkept : SamePlace u (u.setRt0State .singlepass) := ⟨rfl, rfl, rfl, rfl, rfl⟩
    exact (hcall.trans hkept).trans (place_caseConnectionDeclaration _)
  · exact hcall

theorem switched_caseElectionDeclaration (h : SamePlace s t) : Switched s t.caseElectionDeclaration :=
  place_ifScheduled h (fun _ hu => .inl (place_filled hu .declaration _ _))
    fun _ hu => switched_caseConnectionRevelation hu

/-- PHASE LOOP: it leaves everything in its place, or a commoner becomes a bridge. -/
theorem phaseSwitch_switched (s : Node R) : Switched s s.phaseSwitch := by
  have hinit : ∀ t : Node R, SamePlace t (t.politeInit 0) := fun _ => ⟨rfl, rfl, rfl, rfl, rfl⟩
  rw [phaseSwitch]
  split
  · exact place_ifScheduled (.refl s) (fun u hu => .inl (place_filled (hu.trans (hinit u)) .revelation _ _))
      fun u hu => switched_caseElectionDeclaration hu
  · exact switched_caseElectionDeclaration (.refl s)
  · exact switched_caseConnectionRevelation (.refl s)
  · exact .inl s.place_caseConnectionDeclaration
  · exact .inl (.refl s)

/-! ### The bound -/

/-- In the election declaration: what each address can add, different addresses together no more than the placing. The
    table is within it, and so are the heads of a commoner. -/
structure Elected (s : Node R) (g : UInt16 → Nat) : Prop where
  covers : ∀ addrs : List UInt16, addrs.Nodup → (addrs.map g).sum ≤ s.myPlacing.toNat
  table : ∀ addr, rankGapsOf s.myAddr s.nb addr ≤ g addr
  heads : s.cl.role = .cm → ∀ ch ∈ s.cl.heads, rankGap s.myAddr s.nb.myDegree ch.addr ch.degree ≤ g ch.addr

/-- The heads are covered by the placing: in the election declaration by their addresses, unless the node has become a
    bridge already, and in the connection revelation altogether. -/
structure Placed (s : Node R) : Prop where
  election : s.myState = .electionDeclaration → (s.cl.role = .cb ∧ s.cl.chs ≠ []) ∨ ∃ g, Elected s g
  connection : s.myState = .connectionRevelation → s.cl.role = .cm → 1 < s.cl.chs.length →
    headGaps s.myAddr s.nb.myDegree s.cl ≤ s.myPlacing.toNat

section
omit [SoftDouble R]

variable {s : Node R}

theorem Elected.headGaps_le {g : UInt16 → Nat} (h : Elected s g) (hcm : s.cl.role = .cm)
    (hdistinct : DistinctHeads s.cl) : headGaps s.myAddr s.nb.myDegree s.cl ≤ s.myPlacing.toNat := by
  have haddrs : (s.cl.heads.map Chb.addr).Nodup := hdistinct.addrs
  calc headGaps s.myAddr s.nb.myDegree s.cl
      ≤ (s.cl.heads.map fun ch => g ch.addr).sum := sum_le_sum (h.heads hcm)
    _ = ((s.cl.heads.map Chb.addr).map g).sum := by rw [map_map, Function.comp_def]
    _ ≤ s.myPlacing.toNat := h.covers _ haddrs

/-- In other phases there is nothing to show. -/
theorem Placed.elsewhere (st : St) (hst : s.myState = st)
    (hne : st ≠ .electionDeclaration ∧ st ≠ .connectionRevelation) : Placed s :=
  ⟨fun h => absurd (hst.symm.trans h) hne.1, fun h => absurd (hst.symm.trans h) hne.2⟩

theorem Placed.same {t : Node R} (h : Placed s) (hsame : SamePlace s t) : Placed t := by
  refine ⟨fun hst => ?_, fun hst hcm hlen => ?_⟩
  · rcases h.election (hsame.state.symm.trans hst) with hbridge | ⟨g, hg⟩
    · exact .inl (hsame.cl.symm ▸ hbridge)
    · refine .inr ⟨g, ?_, ?_, ?_⟩
      · rw [hsame.placing]
        exact hg.covers
      · rw [hsame.addr, hsame.nb]
        exact hg.table
      · rw [hsame.addr, hsame.nb, hsame.cl]
        exact hg.heads
  · rw [hsame.cl] at hcm hlen
    rw [hsame.addr, hsame.nb, hsame.cl, hsame.placing]
    exact h.connection (hsame.state.symm.trans hst) hcm hlen

theorem headGaps_antitone {d e : UInt8} (h : d ≤ e) (a : UInt16) (cl : Cluster) : headGaps a e cl ≤ headGaps a d cl :=
  sum_le_sum fun _ _ => rankGap_antitone h

/-- The heads that a commoner takes into the election: the exact placing fits in its 8 bits, and no head adds more than
    the table has of its address. -/
structure EntersPlaced (role : Role) (cl : Cluster) (a : UInt16) (nb : NeighbourTable R) : Prop where
  fits : rankGaps a nb < 256
  recorded : role = .cm → ∀ ch ∈ cl.heads, rankGap a nb.myDegree ch.addr ch.degree ≤ rankGapsOf a nb ch.addr

theorem placed_enterElectionDeclaration (h : EntersPlaced s.cl.role s.cl s.myAddr s.nb) :
    Placed s.enterElectionDeclaration := by
  have hplacing : (csyncUpdatePlacing s.myAddr s.nb).toNat = rankGaps s.myAddr s.nb := by
    rw [csyncUpdatePlacing_toNat, Nat.mod_eq_of_lt h.fits]
  refine ⟨fun _ => .inr ⟨rankGapsOf s.myAddr s.nb, fun addrs hnd => ?_, fun addr => le_refl _, h.recorded⟩,
    nofun⟩
  exact (rankGapsOf_sum_le s.myAddr s.nb hnd).trans hplacing.symm.le

theorem placed_enterConnectionRevelation (h : s.cl.role = .cm → 1 < s.cl.chs.length →
    headGaps s.myAddr s.nb.myDegree s.cl ≤ s.myPlacing.toNat) : Placed s.enterConnectionRevelation :=
  ⟨nofun, fun _ => h⟩

end

omit [SoftDouble R] in
/-- The sender is put on `CHs_list` with what the table has of it. -/
theorem Elected.electHead {g : UInt16 → Nat} (h : Elected s g) (hst : s.myState = .electionDeclaration)
    (value : AnnouncementValue R) (hn : rankGap s.myAddr s.nb.myDegree n.addr n.degree ≤ g n.addr) :
    ∃ cl, (s.handleLists value n).2 = { s with cl := cl } ∧ Elected { s with cl := cl } g := by
  have hspec := handleLists_spec s.cl s.myState s.myAddr s.nb.myDegree value n
  refine ⟨_, rfl, h.covers, h.table, ?_⟩
  change (CSync.handleLists s.cl s.myState s.myAddr s.nb.myDegree value n).2.role = .cm → ∀ ch ∈
    (CSync.handleLists s.cl s.myState s.myAddr s.nb.myDegree value n).2.heads,
      rankGap s.myAddr s.nb.myDegree ch.addr ch.degree ≤ g ch.addr
  generalize (CSync.handleLists s.cl s.myState s.myAddr s.nb.myDegree value n).2 = cl at hspec ⊢
  cases hspec with
  | none => exact h.heads
  | bridges hst' =>
    rw [hst] at hst'
    cases hst'
  | @heads r _ hr =>
    intro hcm
    have hold : ∀ i ∈ s.cl.chs, rankGap s.myAddr s.nb.myDegree (s.cl.chsMemb.mem i).addr (s.cl.chsMemb.mem i).degree ≤
        g (s.cl.chsMemb.mem i).addr := by
      intro i hi
      have hrole := (hr.stays (.inl (ne_nil_of_mem hi))).symm.trans hcm
      exact h.heads hrole _ (mem_map_of_mem hi)
    have hdegree : (newChb r.2.1 s.myAddr s.nb.myDegree value n).degree = n.degree := by
      have hcm' : r.2.1 = .cm := hcm
      rw [hcm']
      rfl
    have hnew : rankGap s.myAddr s.nb.myDegree (newChb r.2.1 s.myAddr s.nb.myDegree value n).addr
        (newChb r.2.1 s.myAddr s.nb.myDegree value n).degree ≤ g (newChb r.2.1 s.myAddr s.nb.myDegree value n).addr := by
      rw [hdegree]
      exact hn
    exact forall_mem_map.mpr
      (hr.lists.all (P := fun ch => rankGap s.myAddr s.nb.myDegree ch.addr ch.degree ≤ g ch.addr) hnew hold)

omit [SoftDouble R] in
theorem placed_electHead (h : Placed s) (hst : s.myState = .electionDeclaration)
    (value : AnnouncementValue R) (hn : ∃ i ∈ s.nb.modList, n = s.nb.memb.mem i) : Placed (s.electHead value n) := by
  have hcall : Placed (s.handleLists value n).2 := by
    refine ⟨fun _ => ?_, fun hst' => ?_⟩
    · rcases h.election hst with ⟨hcb, hne⟩ | ⟨g, hg⟩
      · have hspec := handleOn_spec true (fun role => newChb role s.myAddr s.nb.myDegree value n) n.addr n.degree
          s.cl.role s.cl.chsMemb s.cl.chs
        have hlists : (s.handleLists value n).2.cl = (CSync.handleLists s.cl .electionDeclaration s.myAddr s.nb.myDegree
            value n).2 := by
          rw [← hst]
          rfl
        have hfull := handleOn_ne_nil true (fun role => newChb role s.myAddr s.nb.myDegree value n) n.addr n.degree
          s.cl.role s.cl.chsMemb hne
        rw [hlists]
        exact .inl ⟨(hspec.stays (.inl hne)).trans hcb, hfull⟩
      · obtain ⟨i, hi, rfl⟩ := hn
        obtain ⟨cl, heq, hcl⟩ := hg.electHead hst value ((le_rankGapsOf s.myAddr hi).trans (hg.table _))
        rw [heq]
        exact .inr ⟨g, hcl⟩
    · have hsame : (s.handleLists value n).2.myState = s.myState := rfl
      rw [hsame, hst] at hst'
      cases hst'
  have hbump : ∀ t : Node R, SamePlace t (t.bump .declaration) := fun _ => ⟨rfl, rfl, rfl, rfl, rfl⟩
  have helect : s.electHead value n = if (s.handleLists value n).1 then (s.politeCancel.handleLists value n).2
      else (s.politeCancel.handleLists value n).2.bump .declaration := rfl
  have hcancel : SamePlace (s.handleLists value n).2 (s.politeCancel.handleLists value n).2 := ⟨rfl, rfl, rfl, rfl, rfl⟩
  rw [helect]
  split
  · exact hcall.same hcancel
  · exact hcall.same (hcancel.trans (hbump _))

/-- No address adds more to the placing than before. -/
def NoneRises (a : UInt16) (nb nb' : NeighbourTable R) : Prop :=
  ∀ i ∈ nb'.modList, rankGapsOf a nb' (nb'.memb.mem i).addr ≤ rankGapsOf a nb (nb'.memb.mem i).addr

omit [SoftDouble R] in
theorem NoneRises.le {a : UInt16} {nb nb' : NeighbourTable R} (h : NoneRises a nb nb') (addr : UInt16) :
    rankGapsOf a nb' addr ≤ rankGapsOf a nb addr := by
  by_cases hin : ∃ i ∈ nb'.modList, (nb'.memb.mem i).addr = addr
  · obtain ⟨i, hi, rfl⟩ := hin
    exact h i hi
  · have hnone : ∀ i ∈ nb'.modList, (nb'.memb.mem i).addr ≠ addr := fun i hi haddr => hin ⟨i, hi, haddr⟩
    rw [rankGapsOf_eq_zero a hnone]
    exact Nat.zero_le _

omit [SoftDouble R] in
/-- A greater degree of the node and a table in which no address rises keep the bound. -/
theorem Placed.received (h : Placed s) {nb : NeighbourTable R} (hdegree : s.nb.myDegree ≤ nb.myDegree)
    (hrise : s.myState = .electionDeclaration → NoneRises s.myAddr s.nb nb) (tm : RtimerState R) (an : Announcements R) :
    Placed { s with nb := nb, tm := tm, an := an } := by
  refine ⟨fun hst => ?_, fun hst hcm hlen => ?_⟩
  · refine (h.election hst).imp_right fun ⟨g, hg⟩ => ⟨g, hg.covers, fun addr => ?_, fun hcm ch hch => ?_⟩
    · exact ((hrise hst).le addr).trans (hg.table addr)
    · exact (rankGap_antitone hdegree).trans (hg.heads hcm ch hch)
  · exact (headGaps_antitone hdegree s.myAddr s.cl).trans (h.connection hst hcm hlen)

theorem placed_addNeighbour (h : Placed s) (htable : TableInv s.myAddr s.nb) (hrise : s.myState = .electionDeclaration
    → NoneRises s.myAddr s.nb (s.addNeighbour value rx).2.nb) : Placed (s.addNeighbour value rx).2 := by
  have hdegree := addNeighbour_myDegree htable value rx
  obtain ⟨nb, tm, an, -, -, heq⟩ := s.addNeighbour_spec value rx
  rw [heq] at hdegree hrise ⊢
  exact h.received hdegree hrise tm an

/-! ### The handlers -/

theorem place_ifScheduledAt {P : Node R → Prop} {func : Callback}
    (hyes : s.accepts value func → ∀ t, SamePlace s t → P (yes t))
    (hno : ∀ t, SamePlace s t → P (no t)) : P (s.ifScheduledAt value func yes no) := by
  have hcall : SamePlace s (s.schedule .date value.dateCoarse value.dateFine func).2 := ⟨rfl, rfl, rfl, rfl, rfl⟩
  rw [ifScheduledAt, ifScheduled]
  split
  next hok => exact hyes hok _ hcall
  · exact hno _ hcall

theorem place_startElection (s : Node R) (value : AnnouncementValue R) : SamePlace s (s.startElection value) := by
  have hfill : ∀ (t : Node R) (f : Announcement R → Announcement R), SamePlace t ((t.mapAnn .discovery f).noteDate
      .discovery) := fun _ _ => ⟨rfl, rfl, rfl, rfl, rfl⟩
  have hdrop : ∀ (t : Node R) (f : Announcement R → Announcement R), SamePlace t { (t.setRt0State .inactive).mapAnn
      .discovery f with syncedCounter := 0 } := fun _ _ => ⟨rfl, rfl, rfl, rfl, rfl⟩
  rw [startElection]
  split
  · exact place_ifScheduled (.refl s) (fun t ht => ht.trans (hfill t _)) fun t ht => ht
  · split
    · split
      · exact place_ifScheduledAt (fun _ t ht => ht.trans (hfill t _)) fun t ht => ht.trans (hdrop t _)
      · exact .refl s
    · exact .refl s

theorem placed_discovery (h : Placed s) (hadd : ¬ rx.rssi < rssiThreshold → Placed (s.addNeighbour value rx).2) :
    Placed (s.receivedDiscoveryAnnouncement value rx) := by
  have hsynced : ∀ t : Node R, SamePlace t t.checkSynced := by
    intro t
    rw [checkSynced]
    split
    · exact .refl t
    · exact ⟨rfl, rfl, rfl, rfl, rfl⟩
  have helect : ∀ t : Node R, SamePlace t
      (if t.myState = .discovery then t.checkSynced.startElection value else t) := by
    intro t
    split
    · exact (hsynced t).trans (t.checkSynced.place_startElection value)
    · exact .refl t
  rw [receivedDiscoveryAnnouncement, whenReceived]
  split
  · exact h
  next hrssi =>
    have hadd := hadd hrssi
    dsimp only
    generalize (s.addNeighbour value rx).2 = t at hadd ⊢
    split
    · refine hadd.same (.trans ?_ (helect _))
      split
      · exact ⟨rfl, rfl, rfl, rfl, rfl⟩
      · exact .refl t
    · exact hadd

theorem placed_joinRevelation (hst : s.myState = .discovery) (n : Neighbour R)
    (hskip : value.instr = St.connectionRevelation.code → s.accepts value .enterConsensusSynchronization →
      s.cl.chs.length ≤ 1) : Placed (s.joinRevelation value n) := by
  rw [joinRevelation]
  split
  · dsimp only
    split
    · exact place_ifScheduledAt (s := s.politeCancel) (fun _ _ _ => .elsewhere .electionRevelation rfl (by decide))
        fun t ht => .elsewhere .discovery (ht.state.trans hst) (by decide)
    · exact .elsewhere .discovery hst (by decide)
  · split
    next hinstr =>
      refine place_ifScheduledAt (fun hok t ht => ?_) fun t ht => .elsewhere .discovery (ht.state.trans hst) (by decide)
      refine placed_enterConnectionRevelation fun _ hlen => ?_
      have hcl : t.cl = { s.cl with role := .cm } := ht.cl
      have hone := hskip hinstr hok
      change 1 < t.cl.chs.length at hlen
      rw [hcl] at hlen
      exact absurd hone (Nat.not_le_of_lt hlen)
    · split
      · exact place_ifScheduledAt (fun _ _ _ => .elsewhere .consensusRevelation rfl (by decide))
          fun t ht => .elsewhere .discovery (ht.state.trans hst) (by decide)
      · exact .elsewhere .discovery hst (by decide)

theorem placed_revelationMessage (h : Placed s) (n : Neighbour R)
    (hskip : s.myState = .discovery → value.instr = St.connectionRevelation.code →
      s.accepts value .enterConsensusSynchronization → s.cl.chs.length ≤ 1) : Placed (s.revelationMessage value n) := by
  rw [revelationMessage]
  cases hst : s.myState with
  | discovery => exact placed_joinRevelation hst n (hskip hst)
  | electionRevelation =>
    dsimp only
    split
    · exact h.same ⟨rfl, rfl, rfl, rfl, rfl⟩
    · exact h
  | connectionRevelation =>
    have hlists : (s.handleLists value n).2.cl = s.cl := by
      have hspec := handleLists_spec s.cl s.myState s.myAddr s.nb.myDegree value n
      change (CSync.handleLists s.cl s.myState s.myAddr s.nb.myDegree value n).2 = s.cl
      rw [hst] at hspec ⊢
      rfl
    dsimp only
    split
    · exact h.same ⟨rfl, rfl, rfl, hlists, rfl⟩
    · exact h
  | consensusConvergence =>
    dsimp only
    split
    · rw [cutConvergence, joinAt]
      exact place_ifScheduledAt (fun _ _ _ => .elsewhere .consensusRevelation rfl (by decide)) fun t ht =>
        .elsewhere .consensusConvergence (ht.state.trans hst) (by decide)
    · exact h
  | consensusRevelation =>
    dsimp only
    split
    · exact .elsewhere .consensusRevelation hst (by decide)
    · exact h
  | _ => exact h

theorem placed_joinDeclaration (hst : s.myState = .discovery)
    (n : Neighbour R) (henter : value.instr = St.electionDeclaration.code → s.accepts value .enterConnectionRevelation →
      EntersPlaced .cm s.cl s.myAddr s.nb) : Placed (s.joinDeclaration value n) := by
  rw [joinDeclaration]
  split
  · exact .elsewhere .connectionDeclaration rfl (by decide)
  · split
    next hinstr =>
      refine place_ifScheduledAt (fun hok t ht => ?_) fun t ht => .elsewhere .discovery (ht.state.trans hst) (by decide)
      have hcl : (t.handleLists value n).2.cl = { s.cl with role := .cm } := by
        have hdisc : t.myState = .discovery := ht.state.trans hst
        change (CSync.handleLists t.cl t.myState t.myAddr t.nb.myDegree value n).2 = _
        rw [hdisc]
        exact ht.cl
      have haddr : t.myAddr = s.myAddr := ht.addr
      have hnb : t.nb = s.nb := ht.nb
      refine placed_enterElectionDeclaration (s := (t.handleLists value n).2.setRt0State .singlepass) ?_
      change EntersPlaced (t.handleLists value n).2.cl.role (t.handleLists value n).2.cl t.myAddr t.nb
      rw [hcl, haddr, hnb]
      obtain ⟨hfits, hrecorded⟩ := henter hinstr hok
      exact ⟨hfits, hrecorded⟩
    · exact .elsewhere .discovery hst (by decide)

theorem placed_declarationMessage (h : Placed s) (hn : ∃ i ∈ s.nb.modList, n = s.nb.memb.mem i)
    (henter : value.instr = St.electionDeclaration.code → s.accepts value .enterConnectionRevelation →
        (s.myState = .discovery → EntersPlaced .cm s.cl s.myAddr s.nb) ∧
        (s.myState = .electionRevelation → EntersPlaced s.cl.role s.cl s.myAddr s.nb)) :
    Placed (s.declarationMessage value n) := by
  rw [declarationMessage]
  cases hst : s.myState with
  | discovery => exact placed_joinDeclaration hst n fun hinstr hok => (henter hinstr hok).1 hst
  | electionRevelation =>
    dsimp only
    split
    next hinstr =>
      refine place_ifScheduledAt (s := s.politeCancel) (fun hok t ht => ?_)
        fun t ht => .elsewhere .electionRevelation (ht.state.trans hst) (by decide)
      have hplaced := (henter hinstr hok).2 hst
      have hcl : t.cl = s.cl := ht.cl
      have haddr : t.myAddr = s.myAddr := ht.addr
      have hnb : t.nb = s.nb := ht.nb
      rw [← hcl, ← haddr, ← hnb] at hplaced
      exact placed_enterElectionDeclaration (s := t.setRt0State .singlepass) hplaced
    · exact h
  | electionDeclaration =>
    dsimp only
    split
    · split
      · exact placed_electHead h hst value hn
      · exact h
    · split
      · have hcancel : SamePlace s s.politeCancel := ⟨rfl, rfl, rfl, rfl, rfl⟩
        refine place_ifScheduledAt (s := s.politeCancel) (fun _ t _ => ?_) fun t ht => h.same (hcancel.trans ht)
        exact placed_enterConnectionRevelation fun _ hlen => absurd hlen (by simp)
      · exact h
  | connectionDeclaration =>
    dsimp only
    split
    · exact .elsewhere .connectionDeclaration hst (by decide)
    · exact h
  | _ => exact h

/-! ### Messages -/

/-- What a message may do. In the election declaration no address rises; an election declaration that is joined finds the
    heads recorded; a connection revelation that is joined finds at most one head. -/
structure HearsPlaced (s : Node R) (id : AnnId) (value : AnnouncementValue R) (rx : Reception R) : Prop where
  steady : s.myState = .electionDeclaration → ¬ rx.rssi < rssiThreshold →
    NoneRises s.myAddr s.nb (s.addNeighbour value rx).2.nb
  entered : id = .declaration → value.instr = St.electionDeclaration.code → ∀ t n, s.hears value rx = some (t, n) →
    t.accepts value .enterConnectionRevelation →
      (s.myState = .discovery → EntersPlaced .cm s.cl s.myAddr t.nb) ∧
      (s.myState = .electionRevelation → EntersPlaced s.cl.role s.cl s.myAddr t.nb)
  skipped : id = .revelation → s.myState = .discovery → value.instr = St.connectionRevelation.code →
    s.joinsAt value rx .enterConsensusSynchronization → s.cl.chs.length ≤ 1

def electionPhases : List St := [.discovery, .electionRevelation, .electionDeclaration, .connectionRevelation]

/-- No handler leads back to them. -/
theorem moves_late {D : Defect → Prop} {c c' : Core} (h : Moves D c c') (hst : c.st ∉ electionPhases) :
    c'.st ∉ electionPhases := by
  refine Moves.keeps (P := fun x : Core => x.st ∉ electionPhases) (fun x y hx hm => ?_) h hst
  have hjoins : ∀ j ∈ joins x.st, j.2 ∉ electionPhases := by
    revert hx
    cases x.st <;> decide
  cases hm with
  | join hj => exact hjoins _ hj
  | pass hj => exact hjoins _ hj
  | declare => exact (by decide : St.connectionDeclaration ∉ electionPhases)
  | _ => exact hx

theorem placed_whenSynced (h : Placed s) {handle : Node R → Neighbour R → Node R}
    (hadd : ¬ rx.rssi < rssiThreshold → Placed (s.addNeighbour value rx).2)
    (hhandle : ∀ t n, s.hears value rx = some (t, n) → Placed t → Placed (handle t n)) :
    Placed (s.whenSynced value rx handle) := by
  by_cases hrssi : rx.rssi < rssiThreshold
  · rw [whenSynced, whenReceived, if_pos hrssi]
    exact h
  · rcases s.whenSynced_cases value rx handle with (heq | heq) | ⟨t, n, hears, heq⟩
    · rw [heq]
      exact h
    · rw [heq]
      exact hadd hrssi
    · obtain ⟨-, ht, -⟩ := hears_spec hears
      rw [heq]
      exact hhandle t n hears (ht ▸ hadd hrssi)

theorem placed_synchronizationMessage (h : Placed s) (hst : s.myState ∈ electionPhases) (value : AnnouncementValue R)
    (threshold : Nat) (n : Neighbour R) : Placed (s.synchronizationMessage value threshold n) := by
  have hlink : ∀ t : Node R, t.myState = .discovery → (t.linkSynchronization value n).myState = .discovery := by
    intro t ht
    rw [linkSynchronization]
    split
    · exact (congrArg Core.st (core_trustedSynchronization { t with cl := linkMemb value t.cl, myConsSlot := value.degree }
        n value.refAddr value.consRate)).trans ht
    · exact ht
  rw [synchronizationMessage]
  cases hdisc : s.myState with
  | discovery =>
    rw [joinSynchronization, joinAt]
    exact place_ifScheduledAt (fun _ t ht => .elsewhere .discovery (hlink _ (ht.state.trans hdisc)) (by decide))
      fun t ht => .elsewhere .discovery (ht.state.trans hdisc) (by decide)
  | consensusRevelation =>
    rw [hdisc] at hst
    exact absurd hst (by decide)
  | consensusSynchronization =>
    rw [hdisc] at hst
    exact absurd hst (by decide)
  | _ => exact h

theorem placed_heard (h : Placed s) (htable : TableInv s.myAddr s.nb) {id : AnnId} (hok : s.HearsPlaced id value rx) :
    Placed (s.heard id value rx) := by
  have hadd : ¬ rx.rssi < rssiThreshold → Placed (s.addNeighbour value rx).2 := fun hrssi =>
    placed_addNeighbour h htable fun hst => hok.steady hst hrssi
  by_cases hst : s.myState ∈ electionPhases
  · cases id with
    | discovery => exact placed_discovery h hadd
    | revelation =>
      refine placed_whenSynced h hadd fun t n hears ht => placed_revelationMessage ht n fun hdisc hinstr hacc => ?_
      obtain ⟨nb, tm, an, -, -, heq⟩ := received_of_hears hears
      have hone := hok.skipped rfl (by rw [heq] at hdisc; exact hdisc) hinstr ⟨t, n, hears, hacc⟩
      rw [heq]
      exact hone
    | declaration =>
      refine placed_whenSynced h hadd fun t n hears ht =>
        placed_declarationMessage ht (hears_mem hears) fun hinstr hacc => ?_
      have hentered := hok.entered rfl hinstr t n hears hacc
      obtain ⟨nb, tm, an, -, -, rfl⟩ := received_of_hears hears
      exact hentered
    | convergence =>
      change Placed (s.receivedConvergenceAnnouncement value rx)
      refine placed_whenSynced h hadd fun t n hears ht => ?_
      have hphase := myState_of_received (received_of_hears hears)
      rw [← hphase] at hst
      rw [convergenceMessage]
      split
      next hlate =>
        rw [hlate] at hst
        exact absurd hst (by decide)
      next hlate =>
        rw [hlate] at hst
        exact absurd hst (by decide)
      next hlate =>
        rw [hlate] at hst
        exact absurd hst (by decide)
      · exact ht
    | synchronization =>
      change Placed (s.receivedSynchronizationAnnouncement value rx)
      rw [receivedSynchronizationAnnouncement]
      split
      · exact h
      · refine placed_whenSynced h hadd fun t n hears ht => placed_synchronizationMessage ht ?_ value _ n
        rw [myState_of_received (received_of_hears hears)]
        exact hst
  · have hlate : (s.heard id value rx).core.st ∉ electionPhases := moves_late (heard_moves s id value rx) hst
    change (s.heard id value rx).myState ∉ electionPhases at hlate
    refine .elsewhere _ rfl ⟨fun heq => hlate ?_, fun heq => hlate ?_⟩ <;> rw [heq] <;> decide

/-- What the timer may do. The election declaration begins with recorded heads; the connection revelation begins behind
    the election declaration, or with one head at most. -/
structure FiresPlaced (s : Node R) : Prop where
  entered : s.tm.rt0.func = some .enterElectionDeclaration → EntersPlaced s.cl.role s.cl s.myAddr s.nb
  skipped : s.tm.rt0.func = some .enterConnectionRevelation → s.myState ≠ .electionDeclaration →
    s.myState ≠ .connectionRevelation → s.cl.role = .cm → s.cl.chs.length ≤ 1

section
omit [SoftDouble R]

variable {s : Node R}

theorem Placed.covered (h : Placed s) (hdistinct : DistinctHeads s.cl)
    (hst : s.myState = .electionDeclaration ∨ s.myState = .connectionRevelation) (hcm : s.cl.role = .cm)
    (hlen : 1 < s.cl.chs.length) : headGaps s.myAddr s.nb.myDegree s.cl ≤ s.myPlacing.toNat := by
  rcases hst with hst | hst
  · rcases h.election hst with ⟨hcb, -⟩ | ⟨g, hg⟩
    · rw [hcm] at hcb
      cases hcb
    · exact hg.headGaps_le hcm hdistinct
  · exact h.connection hst hcm hlen

theorem placed_call (h : Placed s) (hdistinct : DistinctHeads s.cl) {f : Callback}
    (hfunc : s.tm.rt0.func = some f) (hok : s.FiresPlaced) : Placed (s.call f) := by
  cases f with
  | enterElectionRevelation => exact .elsewhere .electionRevelation rfl (by decide)
  | enterElectionDeclaration => exact placed_enterElectionDeclaration (hok.entered hfunc)
  | enterConnectionRevelation =>
    refine placed_enterConnectionRevelation fun hcm hlen => ?_
    by_cases hst : s.myState = .electionDeclaration ∨ s.myState = .connectionRevelation
    · exact h.covered hdistinct hst hcm hlen
    · obtain ⟨hdecl, hconn⟩ := not_or.mp hst
      exact absurd (hok.skipped hfunc hdecl hconn hcm) (Nat.not_le_of_lt hlen)
  | enterConnectionDeclaration => exact .elsewhere .connectionDeclaration rfl (by decide)
  | enterConvergence => exact .elsewhere .consensusConvergence rfl (by decide)
  | enterConvergenceSlot =>
    rw [call, enterConvergenceSlot]
    split
    · exact h.same ⟨rfl, rfl, rfl, rfl, rfl⟩
    · exact .elsewhere .consensusRevelation rfl (by decide)
  | enterConsensusRevelation => exact .elsewhere .consensusRevelation rfl (by decide)
  | enterConsensusSynchronization => exact .elsewhere .consensusSynchronization rfl (by decide)
  | enterSynchronizationSlot =>
    rw [call, enterSynchronizationSlot]
    split
    · exact h.same ⟨rfl, rfl, rfl, rfl, rfl⟩
    · exact .elsewhere .idle rfl (by decide)
  | enterIdle => exact .elsewhere .idle rfl (by decide)
  | enterDiscovery => exact h.same ⟨rfl, rfl, rfl, rfl, rfl⟩

theorem placed_fire (h : Placed s) (hdistinct : DistinctHeads s.cl) (hok : s.FiresPlaced) : Placed s.fire := by
  have hinactive : ∀ t : Node R, Placed t → Placed (t.setRt0State .inactive) := fun _ ht =>
    ht.same ⟨rfl, rfl, rfl, rfl, rfl⟩
  have hexpired : Placed { s.setRt0State .justExpired with tm := rtimerLfUpdate (s.setRt0State .justExpired).tm } :=
    h.same ⟨rfl, rfl, rfl, rfl, rfl⟩
  refine hinactive _ ?_
  split
  next f hfunc => exact placed_call hexpired hdistinct hfunc ⟨hok.entered, hok.skipped⟩
  · exact hexpired

end

/-! ### Steps and runs -/

/-- A sender that is searched is not listed twice, a message and the timer do what they may, and the thread does not fall
    through from the election revelation to the branch that makes a bridge. -/
def PlacesWell (s : Node R) (e : Event R) : Prop :=
  s.PlacesOnce e ∧ match e.act with
    | .heard id value rx => (s.prepare e).HearsPlaced id value rx
    | .timer => s.FiresPlaced
    | .process => s.myState = .electionRevelation → ¬ Bridged s { s.prepare e with polled := false }.phaseSwitch
    | .overflow => True

/-- Between two steps. -/
structure PlacedAt (s : Node R) : Prop where
  timed : Timed s.core
  table : TableInv s.myAddr s.nb
  distinct : DistinctHeads s.cl
  placed : Placed s

/-- The thread in the phase loop, or in late phases. -/
theorem placed_resume (h : PlacedAt s) : Placed s.resume := by
  by_cases hl : arms s.myState = []
  · obtain ⟨-, hparked⟩ := resume_done hl
    rcases hparked with ⟨-, hlate⟩ | ⟨-, hdisc, -⟩
    · refine .elsewhere s.resume.core.st rfl ⟨fun heq => ?_, fun heq => ?_⟩ <;> (rw [heq] at hlate; cases hlate)
    · exact .elsewhere .discovery hdisc (by decide)
  · have hpc : s.pc = .phase := Classical.byContradiction fun h' => hl (h.timed.late h')
    have hparked : SamePlace s.phaseSwitch { s.phaseSwitch with pc := .phase } := ⟨rfl, rfl, rfl, rfl, rfl⟩
    rw [resume_phase hpc hl]
    rcases s.phaseSwitch_switched with hsame | hbridged
    · exact h.placed.same (hsame.trans hparked)
    · have hcl : { s.phaseSwitch with pc := .phase }.cl = { s.cl with role := .cb } := hbridged.cl
      refine ⟨fun _ => .inl ?_, fun _ hcm => ?_⟩
      · rw [hcl]
        exact ⟨rfl, ne_nil_of_length_pos (lt_trans Nat.zero_lt_one hbridged.several)⟩
      · rw [hcl] at hcm
        cases hcm

theorem placed_step {e : Event R} (h : PlacedAt s) (hok : s.PlacesWell e) (hstep : s.step e = some t) :
    PlacedAt t := by
  obtain ⟨honce, hact⟩ := hok
  have hprepared : SamePlace s (s.prepare e) := ⟨rfl, rfl, rfl, rfl, rfl⟩
  refine ⟨timed_step h.timed hstep, (tableInv_step ⟨h.timed, h.table⟩ hstep).2,
    (distinct_step ⟨h.timed, h.distinct⟩ honce hstep).2, ?_⟩
  obtain ⟨-, hof⟩ := step_of hstep
  cases hof with
  | heard heq =>
    rw [heq] at hact
    exact placed_heard (h.placed.same hprepared) h.table hact
  | fired heq =>
    rw [heq] at hact
    exact placed_fire (h.placed.same hprepared) h.distinct ⟨hact.entered, hact.skipped⟩
  | resumed =>
    exact placed_resume (s := { s.prepare e with polled := false })
      ⟨h.timed, h.table, h.distinct, h.placed.same ⟨rfl, rfl, rfl, rfl, rfl⟩⟩
  | overflowed => exact h.placed.same ⟨rfl, rfl, rfl, rfl, rfl⟩

theorem placedAt_boot (a : UInt16) : PlacedAt (boot (R := R) a) :=
  ⟨timed_boot a, tableInv_resetCGtsp blank a, distinct_nil _, .elsewhere .discovery rfl (by decide)⟩

/-- Only the three phases that reach the branch make a bridge. -/
theorem Bridged.state (h : Bridged s s.phaseSwitch) :
    s.myState ∈ [.electionRevelation, .electionDeclaration, .connectionRevelation] := by
  have hrole : s.phaseSwitch.cl.role = .cb := by rw [h.cl]
  have hother : ¬ SamePlace s s.phaseSwitch := by
    intro hsame
    rw [hsame.cl, h.commoner] at hrole
    cases hrole
  cases hst : s.myState with
  | electionRevelation => decide
  | electionDeclaration => decide
  | connectionRevelation => decide
  | connectionDeclaration =>
    refine absurd ?_ hother
    rw [phaseSwitch, hst]
    exact s.place_caseConnectionDeclaration
  | _ =>
    refine absurd ?_ hother
    rw [phaseSwitch, hst]
    exact .refl s

/-- In every run whose steps meet the condition, a commoner that becomes a bridge has at least the placing that
    it takes away. -/
theorem bridge_placing_covered (a : UInt16) {es : List (Event R)} {s t : Node R} {e : Event R}
    (hrun : Run step PlacesWell (boot a) es s) (hok : s.PlacesWell e) (hact : e.act = .process)
    (hstep : s.step e = some t) (hcm : s.cl.role = .cm) (hcb : t.cl.role = .cb) :
    csyncChbPlacing { s.cl with role := .cb } s.myAddr s.nb.myDegree ≤ s.myPlacing ∧
      t.myPlacing = s.myPlacing - csyncChbPlacing { s.cl with role := .cb } s.myAddr s.nb.myDegree := by
  have h : PlacedAt s := hrun.invariant (fun _ _ _ hs hok hst => placed_step hs hok hst) (placedAt_boot a)
  obtain ⟨-, hnot⟩ := hok
  rw [hact] at hnot
  obtain ⟨-, hof⟩ := step_of hstep
  cases hof with
  | heard heq => rw [hact] at heq; cases heq
  | fired heq => rw [hact] at heq; cases heq
  | overflowed heq => rw [hact] at heq; cases heq
  | resumed =>
    by_cases hl : arms s.myState = []
    · have hrole : _ = s.cl.role := (resume_done (s := { s.prepare e with polled := false }) hl).1.role_eq
      rw [hcm] at hrole
      exact absurd (hrole.symm.trans hcb) (by decide)
    · have hpc : s.pc = .phase := Classical.byContradiction fun h' => hl (h.timed.late h')
      rw [resume_phase (s := { s.prepare e with polled := false }) hpc hl] at hcb ⊢
      rcases phaseSwitch_switched { s.prepare e with polled := false } with hsame | hbridged
      · have hcl : (phaseSwitch { s.prepare e with polled := false }).cl = s.cl := hsame.cl
        rw [hcl, hcm] at hcb
        cases hcb
      · have hphase : s.myState = .electionDeclaration ∨ s.myState = .connectionRevelation := by
          have hmem : s.myState ∈ _ := hbridged.state
          rcases mem_cons.mp hmem with hst | hmem
          · exact absurd ⟨hbridged.commoner, hbridged.several, hbridged.cl, hbridged.placing⟩ (hnot hst)
          · simpa using hmem
        have hcovered := h.placed.covered h.distinct hphase hcm hbridged.several
        refine ⟨?_, hbridged.placing⟩
        rw [UInt8.le_iff_toNat_le, csyncChbPlacing_toNat rfl]
        exact (Nat.mod_le _ _).trans hcovered

/-! ### Concrete runs -/

/-- Nothing that is asked about entering the phases comes up, but that the placing fits and no heads are listed yet. -/
def placesWell (s : Node R) (e : Event R) : Bool :=
  s.unlisted e && match e.act with
    | .heard id value rx =>
        let t := ((s.prepare e).addNeighbour value rx).2
        (decide (s.myState ≠ .electionDeclaration) || t.nb.modList.all fun i =>
          decide (rankGapsOf s.myAddr t.nb (t.nb.memb.mem i).addr ≤ rankGapsOf s.myAddr s.nb (t.nb.memb.mem i).addr)) &&
        decide (s.myState = .discovery ∨ s.myState = .electionRevelation → id = .discovery)
    | .timer => decide ((s.tm.rt0.func = some .enterElectionDeclaration → rankGaps s.myAddr s.nb < 256 ∧ s.cl.chs = []) ∧
        (s.tm.rt0.func = some .enterConnectionRevelation → s.myState = .electionDeclaration))
    | .process => decide (s.myState = .electionRevelation → s.cl.role ≠ .cm)
    | .overflow => true

theorem placesWell_of (s : Node R) (e : Event R) (h : s.placesWell e = true) : s.PlacesWell e := by
  rw [placesWell, Bool.and_eq_true] at h
  obtain ⟨hunlisted, hact⟩ := h
  refine ⟨placesOnce_of_unlisted s e hunlisted, ?_⟩
  cases heq : e.act with
  | heard id value rx =>
    rw [heq] at hact
    simp only [Bool.and_eq_true, Bool.or_eq_true, decide_eq_true_eq, all_eq_true] at hact
    obtain ⟨hsteady, hjoin⟩ := hact
    refine ⟨fun hst _ => hsteady.resolve_left fun hne => hne hst, fun hid _ _ _ _ _ => ⟨fun hst => ?_, fun hst => ?_⟩,
      fun hid hst => ?_⟩
    · exact absurd (hid.symm.trans (hjoin (.inl hst))) (by decide)
    · exact absurd (hid.symm.trans (hjoin (.inr hst))) (by decide)
    · exact absurd (hid.symm.trans (hjoin (.inl hst))) (by decide)
  | timer =>
    rw [heq, decide_eq_true_eq] at hact
    refine ⟨fun hfunc => ?_, fun hfunc hne => absurd (hact.2 hfunc) hne⟩
    obtain ⟨hfits, hnil⟩ := hact.1 hfunc
    refine ⟨hfits, fun _ ch hch => ?_⟩
    rw [Cluster.heads, hnil] at hch
    cases hch
  | process =>
    rw [heq, decide_eq_true_eq] at hact
    exact fun hst hbridged => hact hst hbridged.commoner
  | overflow => trivial

/-- Node 44 takes 78 and 48 as its heads. With `degree` 48 declares itself, in discovery it has announced 3. -/
def bridgingRun (degree : UInt8) : List (Event Rat) :=
  twoNeighboursRun 3 ++
  [hearsAt 260000 78 .declaration 4 3 0 0 78, hearsAt 270000 48 .declaration 4 degree 0 0 48, eventAt 414572 .timer]

theorem bridge_placing_covered_two : ∃ s t : Node Rat, Run step PlacesWell (boot 44) (bridgingRun 3) s ∧
    s.step (eventAt 414672 .process) = some t ∧ s.cl.role = .cm ∧ t.cl.role = .cb ∧
    csyncChbPlacing { s.cl with role := .cb } s.myAddr s.nb.myDegree ≤ s.myPlacing := by
  obtain ⟨s, hrun, hs⟩ : ∃ s, Run step PlacesWell (boot 44) (bridgingRun 3) s ∧ _ :=
    exists_run placesWell (fun s : Node Rat => decide (s.cl.role = .cm) && s.placesWell (eventAt 414672 .process) &&
      (s.step (eventAt 414672 .process)).any fun t : Node Rat => t.cl.role == .cb) placesWell_of (by decide +kernel)
  simp only [Bool.and_eq_true, decide_eq_true_eq, Option.any_eq_true, beq_iff_eq] at hs
  obtain ⟨⟨hcm, hok⟩, t, hstep, hcb⟩ := hs
  exact ⟨s, t, hrun, hstep, hcm, hcb, (bridge_placing_covered 44 hrun (placesWell_of _ _ hok) rfl hstep hcm hcb).1⟩

/-- FAILS IN GENERAL: 48 declares itself with six neighbours more than it had when the placing was summed up, and 44
    takes 8 away from 2. -/
theorem risen_head_underflows : ¬ ∀ (es : List (Event Rat)) (s t : Node Rat) (e : Event Rat),
    Run step (fun _ _ => True) (boot 44) es s → e.act = .process → s.step e = some t → s.cl.role = .cm →
    t.cl.role = .cb → csyncChbPlacing { s.cl with role := .cb } s.myAddr s.nb.myDegree ≤ s.myPlacing := by
  intro hall
  obtain ⟨s, hrun, hs⟩ : ∃ s, Run step (fun _ _ => True) (boot 44) (bridgingRun 9) s ∧ _ :=
    exists_run (fun _ _ => true) (fun s : Node Rat => decide (s.cl.role = .cm) && decide (s.myPlacing = 2) &&
      decide (csyncChbPlacing { s.cl with role := .cb } s.myAddr s.nb.myDegree = 8) &&
      (s.step (eventAt 414672 .process)).any fun t : Node Rat => t.cl.role == .cb) (fun _ _ _ => trivial) (by decide +kernel)
  simp only [Bool.and_eq_true, decide_eq_true_eq, Option.any_eq_true, beq_iff_eq] at hs
  obtain ⟨⟨⟨hcm, hplacing⟩, hheads⟩, t, hstep, hcb⟩ := hs
  have hle := hall _ s t _ hrun rfl hstep hcm hcb
  rw [hplacing, hheads] at hle
  exact absurd hle (by decide)

end Node

end CSync
