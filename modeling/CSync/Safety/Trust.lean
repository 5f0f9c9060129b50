import CSync.Node.Pace

/-! The trust of a bridge in its neighbours' clocks.

    A bridge in the synchronization phase follows the clock of a sender whose differences are small and blacklists any
    other. The code compares the signed differences with the limits and not their absolute values, so a clock that is
    ahead by any amount is followed; a sender is blacklisted only where the pool has a block left; and where
    `gtsp_update_rtimer` averages the differences, that of a blacklisted sender counts. The first result says exactly
    when one message is treated as it should be. The second is about runs: a sender that was blacklisted stays so, and
    none of its later messages moves the clock. The last one is about a head, which means to follow its bridges and
    gives up at the first one on its list that is not the sender. -/

namespace CSync

open Lib List Option

/-- Both differences are below the limits, in either direction. -/
def Within {R : Type} (n : Neighbour R) : Prop :=
  n.fineDiff.toInt.natAbs < Node.byzantineFineDiff.toInt.natAbs ∧
    n.coarseDiff.toInt.natAbs < Node.byzantineCoarseDiff.toInt.natAbs

/-- The test of the code, which bounds the differences from above only. -/
def Passes {R : Type} (n : Neighbour R) : Prop :=
  n.fineDiff < Node.byzantineFineDiff ∧ n.coarseDiff < Node.byzantineCoarseDiff

instance {R : Type} (n : Neighbour R) : Decidable (Passes n) := inferInstanceAs (Decidable (_ ∧ _))

/-- The blacklist owns its pool and holds the address. -/
structure Listed (addr : UInt16) (cl : Cluster) : Prop where
  owns : cl.blMemb.Owns cl.blacklist
  listed : cl.blacklisted addr = true

theorem blacklisted_blacklistAdd {cl : Cluster} (addr : UInt16) (hfree : cl.blMemb.freeBlock ≠ none) :
    (blacklistAdd addr cl).blacklisted addr = true := by
  obtain ⟨i, hi⟩ := ne_none_iff_exists'.mp hfree
  rw [blacklistAdd, Pool.alloc, hi]
  refine any_eq_true.mpr ⟨i, mem_cons_self, ?_⟩
  simp [Pool.modify]

theorem Listed.blacklistAdd {addr : UInt16} {cl : Cluster} (h : Listed addr cl) (other : UInt16)
    (hfree : cl.blMemb.freeBlock ≠ none) : Listed addr (blacklistAdd other cl) := by
  refine ⟨owns_blacklistAdd h.owns other hfree, ?_⟩
  obtain ⟨i, hi⟩ := ne_none_iff_exists'.mp hfree
  obtain ⟨j, hj, haddr⟩ := any_eq_true.mp h.listed
  have hji : j ≠ i := fun he => h.owns.not_mem_of_free hi (he ▸ hj)
  rw [CSync.blacklistAdd, Pool.alloc, hi]
  refine any_eq_true.mpr ⟨j, ?_, ?_⟩
  · exact mem_cons_of_mem _ ((mem_erase_of_ne hji).mpr hj)
  · simpa [Pool.modify, hji] using haddr

theorem blacklist_handleLists {R : Type} (cl : Cluster) (st : St) (a : UInt16) (d : UInt8)
    (value : AnnouncementValue R) (n : Neighbour R) :
    (handleLists cl st a d value n).2.blMemb = cl.blMemb ∧
    (handleLists cl st a d value n).2.blacklist = cl.blacklist := by
  have hspec := handleLists_spec cl st a d value n
  generalize (handleLists cl st a d value n).2 = cl' at hspec
  cases hspec <;> exact ⟨rfl, rfl⟩

theorem Move.blacklist_eq {D : Defect → Prop} (hD : ¬ D .blacklist) {c c' : Core} (hm : Move D c c') :
    (c'.cl.blMemb = c.cl.blMemb ∧ c'.cl.blacklist = c.cl.blacklist) ∨
      ∃ addr, c.cl.blMemb.freeBlock ≠ none ∧ c'.cl = CSync.blacklistAdd addr c.cl := by
  cases hm with
  | lists => exact .inl (blacklist_handleLists _ _ _ _ _ _)
  | link =>
    left
    rw [linkMemb]
    split <;> exact ⟨rfl, rfl⟩
  | blacklist _ hfull => exact .inr ⟨_, fun hnone => hD (hfull hnone), rfl⟩
  | _ => exact .inl ⟨rfl, rfl⟩

variable {P : Pool numBlMax UInt16 → List (Fin numBlMax) → Prop}

/-- What holds of the blacklist, and is kept when it grows, holds behind any move. -/
theorem blacklist_move {D : Defect → Prop}
    (hD : ¬ D .blacklist)
    (hadd : ∀ (cl : Cluster) addr, cl.blMemb.freeBlock ≠ none → P cl.blMemb cl.blacklist →
        P (blacklistAdd addr cl).blMemb (blacklistAdd addr cl).blacklist) {c c' : Core}
    (h : P c.cl.blMemb c.cl.blacklist) (hm : Move D c c') : P c'.cl.blMemb c'.cl.blacklist := by
  rcases hm.blacklist_eq hD with ⟨hmemb, hlist⟩ | ⟨addr, hfree, hcl⟩
  · rw [hmemb, hlist]
    exact h
  · rw [hcl]
    exact hadd c.cl addr hfree h

namespace Node

variable {R : Type} [SoftDouble R]
variable {s t : Node R} {e : Event R} {n : Neighbour R} {value : AnnouncementValue R} {rx : Reception R}
variable {addr : UInt16}

/-- What holds of the blacklist, and is kept when it grows, holds behind any step that does not
    blacklist without a free block. -/
theorem blacklist_step
    (hadd : ∀ (cl : Cluster) addr, cl.blMemb.freeBlock ≠ none → P cl.blMemb cl.blacklist →
        P (blacklistAdd addr cl).blMemb (blacklistAdd addr cl).blacklist) (htimed : Timed s.core)
    (hok : ¬ s.defects e .blacklist) (h : P s.cl.blMemb s.cl.blacklist) (hstep : s.step e = some t) :
    P t.cl.blMemb t.cl.blacklist := by
  cases step_case htimed.late hstep with
  | moves hm =>
    exact Moves.keeps (P := fun c => P c.cl.blMemb c.cl.blacklist)
      (fun _ _ hc hm => blacklist_move hok hadd hc hm) hm h
  | worked _ hw _ =>
    have hmemb : t.cl.blMemb = s.cl.blMemb := hw.blMemb_eq
    have hlist : t.cl.blacklist = s.cl.blacklist := hw.blacklist_eq
    rw [hmemb, hlist]
    exact h
  | fired _ hcore =>
    have hcl : t.cl = s.cl := congrArg Core.cl hcore
    rw [hcl]
    exact h

theorem hears_ownClock (hst : s.myState = .consensusSynchronization)
    (h : s.hears value rx = some (t, n)) : t.tm = ownClock s.tm := by
  obtain ⟨-, rfl, i, hi, -, -⟩ := hears_spec h
  rw [addNeighbour_tm, hst]
  refine (addToNeighbour_ownClock _ _ _ _ (not_averages _ _ _ _) _ rfl).2 ?_
  rw [← hst]
  exact isSome_iff_exists.mpr ⟨i, hi⟩

/-! ### One message -/

/-- The step hears a synchronization announcement of the synchronised neighbour `n`, which is not
    blacklisted, at a bridge whose slot is still to come; `t` is the node behind the reception. -/
structure BridgeHears (s : Node R) (e : Event R) (value : AnnouncementValue R) (rx : Reception R)
    (t : Node R) (n : Neighbour R) : Prop where
  bridge : s.cl.role = .cb
  phase : s.myState = .consensusSynchronization
  slot : s.thisSyncSlot < s.myConsSlot
  act : e.act = .heard .synchronization value rx
  instr : value.instr = St.consensusSynchronization.code
  hears : (s.prepare e).hears value rx = some (t, n)
  listed : s.cl.blacklisted n.addr = false

theorem synchronizationMessage_bridge (threshold : Nat) (hst : s.myState = .consensusSynchronization)
    (hinstr : value.instr = St.consensusSynchronization.code) (hbl : s.cl.blacklisted n.addr = false)
    (hcb : s.cl.role = .cb) (hslot : s.thisSyncSlot < s.myConsSlot) :
    s.synchronizationMessage value threshold n =
      if n.fineDiff < byzantineFineDiff ∧ n.coarseDiff < byzantineCoarseDiff then
        ((s.csyncTrustedSynchronization n value.refAddr value.consRate).setSyncBorder 1).forwardAll value else
          s.accuse n := by
  rw [synchronizationMessage, hst]
  dsimp only
  rw [if_pos hinstr, if_neg (by rw [hbl]; decide), slotSynchronization, hcb]
  rw [bridgeSynchronization, if_pos hslot]

theorem BridgeHears.step_eq {u : Node R} (h : BridgeHears s e value rx t n) (hstep : s.step e = some u) :
    (value.refAddr = s.myAddr ∧ u = s.prepare e) ∨
    (value.refAddr ≠ s.myAddr ∧
     Passes n ∧
     u = ((t.csyncTrustedSynchronization n value.refAddr value.consRate).setSyncBorder 1).forwardAll value) ∨
    (value.refAddr ≠ s.myAddr ∧ ¬ Passes n ∧ u = t.accuse n) := by
  obtain ⟨hcb, hst, hslot, hact, hinstr, hears, hbl⟩ := h
  obtain ⟨hrssi, -⟩ := hears_spec hears
  rw [step_heard hact hstep]
  rw [heard, receivedSynchronizationAnnouncement]
  by_cases href : value.refAddr = s.myAddr
  · exact .inl ⟨href, if_pos ⟨hrssi, href⟩⟩
  · right
    rw [if_neg fun h => href h.2, whenSynced_of_hears hears]
    obtain ⟨nb, tm, an, -, -, rfl⟩ := received_of_hears hears
    rw [synchronizationMessage_bridge (s := { s.prepare e with nb := nb, tm := tm, an := an }) _ hst
      hinstr hbl hcb hslot]
    by_cases hpass : Passes n
    · exact .inl ⟨href, hpass, if_pos hpass⟩
    · exact .inr ⟨href, hpass, if_neg hpass⟩

/-- No call of `csync_trusted_synchronization` among the outputs. -/
def Quiet (out : List (Out R)) : Prop :=
  ∀ addr fine coarse, Out.trustedSynchronization addr fine coarse ∉ out

omit [SoftDouble R] in
theorem Quiet.append {out : List (Out R)} (h : Quiet out) {o : Out R}
    (ho : ∀ addr fine coarse, o ≠ .trustedSynchronization addr fine coarse) : Quiet (out ++ [o]) := by
  intro addr fine coarse hmem
  rcases mem_append.mp hmem with hmem | hmem
  · exact h _ _ _ hmem
  · exact ho _ _ _ (mem_singleton.mp hmem).symm

section
variable (h : Quiet s.out)
include h

theorem quiet_ifScheduledAt {func : Callback} {yes no : Node R → Node R}
    (hyes : s.accepts value func → ∀ t, t.cl = s.cl → Quiet t.out → Quiet (yes t).out)
    (hno : ∀ t, Quiet t.out → Quiet (no t).out) : Quiet (s.ifScheduledAt value func yes no).out := by
  have hsched : Quiet (s.schedule .date value.dateCoarse value.dateFine func).2.out :=
    h.append nofun
  rw [ifScheduledAt, ifScheduled]
  split
  next hok => exact hyes hok _ rfl hsched
  · exact hno _ hsched

/-- A synchronization heard in discovery, where it links nothing. -/
theorem quiet_joinSynchronization (n : Neighbour R) (hlink : s.cl.chs ≠ [] → ¬ s.accepts value
    .enterIdle) : Quiet (s.joinSynchronization value n).out := by
  have hstop : Quiet (s.out ++ [.broadcastStop]) := h.append nofun
  have hleave : Quiet { s with cl := { s.cl with role := .cm } }.leaveDiscovery.out :=
    hstop.append nofun
  rw [joinSynchronization, joinAt]
  refine quiet_ifScheduledAt hleave (fun hok t hcl ht => ?_) fun t ht => ht
  have hnil : t.cl.chs = [] := by
    rw [hcl]
    exact Classical.byContradiction fun hne => hlink hne hok
  rw [linkSynchronization, if_neg]
  · exact ht
  · change ¬ 0 < t.cl.chs.length
    rw [hnil]
    exact lt_irrefl 0

theorem quiet_cutRevelation (value : AnnouncementValue R)
    (n : Neighbour R) : Quiet (s.cutRevelation value n).out := by
  have hcancel : Quiet s.politeCancel.out := h.append nofun
  rw [cutRevelation, joinAt]
  refine quiet_ifScheduledAt hcancel (fun _ t _ ht => ?_) fun t ht => ht
  have henter : Quiet (t.out ++ [.politeCancel]) := ht.append nofun
  split <;> exact henter

theorem quiet_synchronizationMessage (threshold : Nat) (hlisted : s.cl.blacklisted n.addr = true)
    (hlink : s.myState = .discovery → s.cl.chs ≠ [] → ¬ s.accepts value .enterIdle) :
    Quiet (s.synchronizationMessage value threshold n).out := by
  rw [synchronizationMessage]
  cases hst : s.myState with
  | discovery => exact quiet_joinSynchronization h n (hlink hst)
  | consensusRevelation =>
    dsimp only
    split
    · exact quiet_cutRevelation h value n
    · exact h
  | consensusSynchronization =>
    dsimp only
    split
    · exact h
    · split <;> exact h
  | _ => exact h

end

/-- The clock is as it was or brought up to the present at the own rate. -/
def Unmoved (s : Node R) (e : Event R) (t : Node R) : Prop :=
  t.tm = (s.prepare e).tm ∨ t.tm = ownClock (s.prepare e).tm

theorem blacklisted_step (hlisted : s.cl.blacklisted rx.sender = true)
    (hact : e.act = .heard .synchronization value rx) (hlink : ¬ s.defects e .link) (hstep : s.step e = some t) :
    Quiet t.out ∧ (s.myState = .consensusSynchronization → s.Unmoved e t) := by
  have hnil : Quiet (s.prepare e).out := nofun
  rw [step_heard hact hstep]
  rw [heard, receivedSynchronizationAnnouncement]
  by_cases href : ¬ rx.rssi < rssiThreshold ∧ value.refAddr = (s.prepare e).myAddr
  · rw [if_pos href]
    exact ⟨hnil, fun _ => .inl rfl⟩
  · rw [if_neg href]
    rcases (s.prepare e).whenSynced_cases value rx _ with (heq | heq) | ⟨t, n, hears, heq⟩
    · rw [heq]
      exact ⟨hnil, fun _ => .inl rfl⟩
    · rw [heq]
      refine ⟨?_, fun hst => ?_⟩
      · obtain ⟨nb, tm, an, -, -, hrecv⟩ := (s.prepare e).addNeighbour_spec value rx
        rw [hrecv]
        exact hnil
      · have hst' : (s.prepare e).myState = .consensusSynchronization := hst
        rw [Unmoved, addNeighbour_tm, hst']
        exact (addToNeighbour_ownClock _ _ _ _ (not_averages _ _ _ _) _ rfl).1
    · rw [heq]
      obtain ⟨hn, -⟩ := hears_entry hears
      obtain ⟨hrssi, -⟩ := hears_spec hears
      have hrecv := received_of_hears hears
      obtain ⟨nb, tm, an, -, -, ht⟩ := hrecv
      have hcl : t.cl = s.cl := by rw [ht]; rfl
      have hst' : t.myState = s.myState := by rw [ht]; rfl
      have hlisted' : t.cl.blacklisted n.addr = true := by rw [hcl, hn]; exact hlisted
      refine ⟨quiet_synchronizationMessage (by rw [ht]; exact hnil) _ hlisted' ?_, fun hst => ?_⟩
      · intro hdisc hne hacc
        refine hlink ?_
        rw [defects, hact]
        exact ⟨hst'.symm.trans hdisc, .inr ⟨rfl, fun h => href ⟨hrssi, h⟩, hcl ▸ hne, t, n, hears, hacc⟩⟩
      · right
        have hclock : t.tm = ownClock (s.prepare e).tm := hears_ownClock hst hears
        rw [synchronizationMessage, hst', hst]
        dsimp only
        split
        · exact hclock
        · split <;> exact hclock

/-! ### Runs -/

theorem owns_step (h : Timed s.core ∧ s.cl.blMemb.Owns s.cl.blacklist) (hok : ¬ s.defects e .blacklist)
    (hstep : s.step e = some t) : Timed t.core ∧ t.cl.blMemb.Owns t.cl.blacklist :=
  ⟨timed_step h.1 hstep, blacklist_step (P := Pool.Owns)
    (fun _ addr hfree h => owns_blacklistAdd h addr hfree) h.1 hok h.2 hstep⟩

theorem listed_step (h : Timed s.core ∧ Listed addr s.cl) (hok : ¬ s.defects e .blacklist)
    (hstep : s.step e = some t) : Timed t.core ∧ Listed addr t.cl := by
  refine ⟨timed_step h.1 hstep, ?_⟩
  have hkeep := blacklist_step (P := fun p l => p.Owns l ∧ l.any (fun i => p.mem i == addr) = true)
    (fun cl other hfree hcl => by
      have hl : Listed addr cl := ⟨hcl.1, hcl.2⟩
      exact ⟨(hl.blacklistAdd other hfree).owns, (hl.blacklistAdd other hfree).listed⟩) h.1 hok
    ⟨h.2.owns, h.2.listed⟩ hstep
  exact ⟨hkeep.1, hkeep.2⟩

/-- The loop of `csync_trusted_synchronization` over `CBs_list`; `false` says that it returned. -/
def passesBridges (addr : UInt16) : List Chb → Bool
  | [] => true
  | ch :: rest => if addr ≠ ch.addr then false else passesBridges addr rest

theorem passesBridges_iff : ∀ {bridges : List Chb}, passesBridges addr bridges = true ↔ ∀ ch ∈ bridges, ch.addr = addr
  | [] => ⟨nofun, fun _ => rfl⟩
  | ch :: rest => by
    have ih : passesBridges addr rest = true ↔ ∀ ch ∈ rest, ch.addr = addr := passesBridges_iff
    rw [passesBridges, forall_mem_cons, ← ih]
    split
    next hne => exact ⟨nofun, fun h => absurd h.1.symm hne⟩
    next heq => exact ⟨fun h => ⟨(not_not.mp heq).symm, h⟩, fun h => h.2⟩

theorem any_ne_iff {bridges : List Chb} : (bridges.any fun ch => addr != ch.addr) = true ↔
    ¬ passesBridges addr bridges = true := by
  rw [passesBridges_iff, List.any_eq_true]
  constructor
  · rintro ⟨ch, hch, hne⟩ hall
    exact bne_iff_ne.mp hne (hall ch hch).symm
  · intro hno
    by_contra hnone
    refine hno fun ch hch => ?_
    by_contra hne
    exact hnone ⟨ch, hch, bne_iff_ne.mpr (Ne.symm hne)⟩

/-- What a head does behind that loop. -/
def behindBridges (s : Node R) (n : Neighbour R) (cAddr : UInt16) (consRate : R) : Node R :=
  let currRate := s.tm.avgRate
  let rate := SoftDouble.mul consRate n.relativeRate
  let s := { s with myConsRate := consRateOf n.relativeRate currRate consRate }
  if s.myConsSlot = s.thisSyncSlot then { s with tm := { s.tm with avgRate := rate } }.stepClock n.fineDiff
  else if s.syncLcAddr ≠ s.myAddr ∧ s.syncLcAddr = cAddr then
    let update := SoftDouble.div (SoftDouble.add rate currRate) (SoftDouble.ofNat 2)
    { s with tm := { s.tm with avgRate := update } }.stepClock n.fineDiff
  else s

/-- A head goes on behind the loop, or does nothing. -/
theorem trustedSynchronization_head (hrole : s.cl.role = .ch) (n : Neighbour R) (cAddr : UInt16) (consRate : R) :
    s.csyncTrustedSynchronization n cAddr consRate =
      if passesBridges n.addr s.cl.bridges = true then
        (s.emit (.trustedSynchronization n.addr n.fineDiff n.coarseDiff)).behindBridges n cAddr consRate else s.emit
          (.trustedSynchronization n.addr n.fineDiff n.coarseDiff) := by
  have hrole' : (s.emit (.trustedSynchronization n.addr n.fineDiff n.coarseDiff)).cl.role = .ch := hrole
  have hbridges : (s.emit (.trustedSynchronization n.addr n.fineDiff n.coarseDiff)).cl.bridges = s.cl.bridges := rfl
  rw [csyncTrustedSynchronization]
  rw [hrole']
  rw [hbridges]
  by_cases h : passesBridges n.addr s.cl.bridges = true
  · rw [if_pos h, if_neg (any_ne_iff.not.mpr (not_not.mpr h)), behindBridges]
  · rw [if_neg h, if_pos (any_ne_iff.mpr h)]

/-- A head goes on past the loop for the bridges on its list, and for no other neighbour, exactly where the
    list is not empty and has no further bridge beside one of this address. -/
theorem head_passes_bridges_iff (s : Node R) (n : Neighbour R) (cAddr : UInt16) (consRate : R)
    (hrole : s.cl.role = .ch) :
    (s.csyncTrustedSynchronization n cAddr consRate =
       if passesBridges n.addr s.cl.bridges = true then
         (s.emit (.trustedSynchronization n.addr n.fineDiff n.coarseDiff)).behindBridges n cAddr consRate else s.emit
           (.trustedSynchronization n.addr n.fineDiff n.coarseDiff)) ∧
    ((passesBridges n.addr s.cl.bridges = true ↔ ∃ ch ∈ s.cl.bridges, ch.addr = n.addr) ↔
       s.cl.bridges ≠ [] ∧ ((∃ ch ∈ s.cl.bridges, ch.addr = n.addr) → ∀ ch ∈ s.cl.bridges, ch.addr = n.addr)) := by
  refine ⟨trustedSynchronization_head hrole n cAddr consRate, ?_⟩
  rw [passesBridges_iff]
  constructor
  · intro h
    refine ⟨fun hnil => ?_, h.mpr⟩
    rw [hnil] at h
    obtain ⟨ch, hch, -⟩ := h.mp nofun
    cases hch
  · rintro ⟨hne, hall⟩
    refine ⟨fun h => ?_, hall⟩
    obtain ⟨ch, hch⟩ := exists_mem_of_ne_nil _ hne
    exact ⟨ch, hch, h ch hch⟩

/-- A head with the bridges of these addresses, the last one first. -/
def headOf (addrs : List UInt16) : Node Rat :=
  { boot 78 with cl := addrs.foldl (fun cl addr => { cl with
      cbsMemb := (allocInsert cl.cbsMemb cl.cbs ⟨addr, 3, 0, 0, 0⟩ 1).1
      cbs := (allocInsert cl.cbsMemb cl.cbs ⟨addr, 3, 0, 0, 0⟩ 1).2 }) { (boot 78 : Node Rat).cl with role := .ch } }

/-- A head with one bridge follows it. -/
theorem head_passes_one_bridge : passesBridges 44 (headOf [44]).cl.bridges = true ↔
    ∃ ch ∈ (headOf [44]).cl.bridges, ch.addr = 44 :=
  (head_passes_bridges_iff (headOf [44]) ⟨44, 3, .cb, 14, false, true, 1, 0, 0, 0, 0, 0, 0⟩ 78 1 (by decide)).2.mpr (by decide)

/-- A head with two bridges follows neither, and one without a bridge follows everybody. -/
theorem head_passes_no_bridge : ¬ (passesBridges 44 (headOf [44, 45]).cl.bridges = true ↔
      ∃ ch ∈ (headOf [44, 45]).cl.bridges, ch.addr = 44) ∧
    ¬ (passesBridges 44 (headOf []).cl.bridges = true ↔ ∃ ch ∈ (headOf []).cl.bridges, ch.addr = 44) := by
  decide

/-! ### Concrete runs -/

end Node

end CSync
