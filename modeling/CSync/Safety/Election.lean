import CSync.Node.Steps

/-! Safety of the cluster-head election over whole runs.

    A node gives up the role of a head only when the head it takes is the first entry of its `CHs_list`. So the
    election is safe as long as a node that can hear a declaration has an empty list or is a commoner already. A node
    that is in discovery with a stale list is not: the list survives `soft_reset`. The invariant follows the timer,
    which can take a node back into the election from where it was armed. -/

namespace CSync

open Lib

/-- A declaration can make the node a commoner. -/
def Free (cl : Cluster) : Prop := cl.chs = [] ∨ cl.role = .cm

def electionCalls : List Callback := [.enterElectionRevelation, .enterElectionDeclaration]

/-- In the election the node is free, and a timer that leads into the election can fire only where the
    node is free. -/
structure Electing (c : Core) : Prop where
  election : c.st = .electionRevelation ∨ c.st = .electionDeclaration → Free c.cl
  singlepass : c.status = .singlepass → ∀ f ∈ electionCalls, c.func ≠ some f
  scheduled : c.status = .scheduled → ∀ f ∈ electionCalls, c.func = some f →
    c.st ∈ [.discovery, .electionRevelation, .electionDeclaration] ∨
      c.st = .connectionDeclaration ∧ c.cl.role = .cm

variable {R : Type} {cl : Cluster} {c c' : Core}

theorem free_handleLists (h : Free cl) (st : St) (a : UInt16)
    (d : UInt8) (value : AnnouncementValue R) (n : Neighbour R) : Free (handleLists cl st a d value n).2 := by
  have hspec := handleLists_spec cl st a d value n
  generalize (CSync.handleLists cl st a d value n).2 = cl' at hspec
  cases hspec with
  | none => exact h
  | bridges _ hr =>
    rcases h with hnil | hcm
    · exact .inl hnil
    · exact .inr ((hr.stays (.inr rfl)).trans hcm)
  | heads _ hr =>
    by_cases hnil : cl.chs = []
    · rcases hr.first hnil rfl with hcm | ⟨-, hnil'⟩
      · exact .inr hcm
      · exact .inl hnil'
    · exact .inr ((hr.stays (.inl hnil)).trans (h.resolve_left hnil))

theorem elected_role (h : Free cl) (hblock : cl.chsMemb.freeBlock ≠ none) (a : UInt16) (d : UInt8) (value :
    AnnouncementValue R) (n : Neighbour R) : (handleLists cl .electionDeclaration a d value n).2.role = .cm := by
  have hr := handleOn_spec true (fun role => newChb role a d value n) n.addr n.degree cl.role cl.chsMemb cl.chs
  by_cases hnil : cl.chs = []
  · rcases hr.first hnil rfl with hcm | ⟨hnone, -⟩
    · exact hcm
    · exact absurd hnone hblock
  · exact (hr.stays (.inl hnil)).trans (h.resolve_left hnil)

theorem commoner_handleLists (h : cl.role = .cm) (st : St) (a : UInt16)
    (d : UInt8) (value : AnnouncementValue R) (n : Neighbour R) : (handleLists cl st a d value n).2.role = .cm := by
  rcases handleLists_role cl st a d value n with hr | hr
  · exact hr.trans h
  · exact hr

theorem mem_arms_election (st : St) : ∀ f ∈ arms st ++ (joins st).map Prod.fst,
    f ∈ electionCalls → st ∈ [.discovery, .electionRevelation, .electionDeclaration] := by
  cases st <;> decide

theorem mem_joins_election (st : St) :
    ∀ j ∈ joins st,
      j.1 ∉ electionCalls ∧
      (j.2 = .electionRevelation ∨ j.2 = .electionDeclaration →
         st = .discovery ∨ st = .electionRevelation ∨ st = .electionDeclaration) ∧
      (j.2 = .discovery → st = .discovery) := by
  cases st <;> decide

/-- Only the lists change, the node stays free and a commoner stays one. -/
theorem Electing.lists (h : Electing c) (hfree : Free c.cl → Free cl)
    (hcm : c.cl.role = .cm → cl.role = .cm) : Electing { c with cl := cl } :=
  ⟨fun hst => hfree (h.election hst), h.singlepass, fun hs f hf hfn =>
    (h.scheduled hs f hf hfn).imp_right fun hcd => ⟨hcd.1, hcm hcd.2⟩⟩

/-- Electing, and free in discovery. -/
structure Ready (c : Core) : Prop extends Electing c where
  discovery : c.st = .discovery → Free c.cl

theorem Ready.lists (h : Ready c) (hfree : Free c.cl → Free cl)
    (hcm : c.cl.role = .cm → cl.role = .cm) : Ready { c with cl := cl } :=
  ⟨h.toElecting.lists hfree hcm, fun hst => hfree (h.discovery hst)⟩

theorem Ready.move {D : Defect → Prop} (hD : ¬ D .bridge) (h : Ready c) (hm : Move D c c') : Ready c' := by
  cases hm with
  | arm hf =>
    refine ⟨⟨h.election, nofun, fun _ f hfe hfn => ?_⟩, h.discovery⟩
    cases hfn
    exact .inl (mem_arms_election c.st _ (List.mem_append_left _ hf) hfe)
  | wake _ hsp =>
    refine ⟨⟨h.election, nofun, fun _ f hfe hfn => ?_⟩, h.discovery⟩
    exact absurd hfn (h.singlepass hsp f hfe)
  | refuse hf hsp =>
    refine ⟨⟨h.election, fun hs => absurd hs hsp, fun _ f hfe hfn => ?_⟩, h.discovery⟩
    cases hfn
    exact .inl (mem_arms_election c.st _ hf hfe)
  | drop =>
    exact ⟨⟨h.election, nofun, nofun⟩, h.discovery⟩
  | join hj =>
    obtain ⟨hcall, hst, hdisc⟩ := mem_joins_election c.st _ hj
    refine ⟨⟨fun hst' => ?_, fun _ f hfe hfn => ?_, nofun⟩, fun hst' => ?_⟩
    · rcases hst hst' with h' | h'
      · exact h.discovery h'
      · exact h.election h'
    · cases hfn
      exact hcall hfe
    · exact h.discovery (hdisc hst')
  | pass hj hsp =>
    obtain ⟨-, hst, hdisc⟩ := mem_joins_election c.st _ hj
    refine ⟨⟨fun hst' => ?_, h.singlepass, fun hs => ?_⟩, fun hst' => ?_⟩
    · rcases hst hst' with h' | h'
      · exact h.discovery h'
      · exact h.election h'
    · exact absurd (hsp.symm.trans hs) (by decide)
    · exact h.discovery (hdisc hst')
  | keep _ hf =>
    refine ⟨⟨h.election, nofun, fun _ f hfe hfn => ?_⟩, h.discovery⟩
    cases hf.symm.trans hfn
    exact absurd hfe (by decide)
  | declare _ hcm =>
    refine ⟨⟨fun hst => ?_, h.singlepass, fun _ _ _ _ => .inr ⟨rfl, hcm⟩⟩, fun hst => ?_⟩
    · rcases hst with hst | hst <;> cases hst
    · cases hst
  | commoner => exact h.lists (fun _ => .inr rfl) fun _ => rfl
  | bridge hcm _ hdefect hst =>
    have hcr : c.st = .connectionRevelation := by
      simp only [List.mem_cons, List.not_mem_nil, or_false] at hst
      rcases hst with hst | hst | hst
      · exact absurd (hdefect (.inl hst)) hD
      · exact absurd (hdefect (.inr hst)) hD
      · exact hst
    refine ⟨⟨fun hst' => ?_, h.singlepass, fun hs f hfe hfn => ?_⟩, fun hst' => ?_⟩
    · rcases hst' with hst' | hst' <;> exact absurd (hcr.symm.trans hst') (by decide)
    · rcases h.scheduled hs f hfe hfn with hmem | hcd
      · exact .inl hmem
      · exact absurd (hcr.symm.trans hcd.1) (by decide)
    · exact absurd (hcr.symm.trans hst') (by decide)
  | lists =>
    exact h.lists (fun hf => free_handleLists hf _ _ _ _ _) fun hcm => commoner_handleLists hcm _ _ _ _ _
  | forget => exact h.lists (fun _ => .inl rfl) id
  | resign => exact h.lists (fun _ => .inr rfl) fun _ => rfl
  | link =>
    refine h.lists (fun hf => ?_) fun hcm => ?_
    · rw [Free, linkMemb]
      split <;> exact hf
    · rw [linkMemb]
      split <;> exact hcm
  | slot => exact h.lists id id
  | assign => exact h.lists id id
  | blacklist =>
    refine h.lists (fun hf => ?_) fun hcm => ?_
    · rw [Free, blacklistAdd]
      split <;> exact hf
    · rw [blacklistAdd]
      split <;> exact hcm

theorem Electing.work (h : Electing c) (hl : arms c.st = []) (hw : Work c c') (hp : Parked c') : Electing c' := by
  have hlate : c.st ∉ [St.discovery, .electionRevelation, .electionDeclaration] ∧ c.st ≠ .connectionDeclaration := by
    revert hl
    cases c.st <;> decide
  -- a callback into the election is kept from before, where it could not fire
  have harmed : c'.status = .scheduled ∨ c'.status = .singlepass → ∀ f ∈ electionCalls, c'.func ≠ some f := by
    intro hs f hfe hfn
    rcases hw.armed f hfn with hf | ⟨hc, hst⟩
    · revert hfe hf
      cases f <;> decide
    · rcases hst with hst | hst
      · rcases hs with hs | hs
        · rcases h.scheduled (hst.symm.trans hs) f hfe hc with hmem | hcd
          · exact hlate.1 hmem
          · exact hlate.2 hcd.1
        · exact h.singlepass (hst.symm.trans hs) f hfe hc
      · exact h.singlepass hst f hfe hc
  refine ⟨fun hst => ?_, fun hs => harmed (.inr hs), fun hs f hfe hfn => ?_⟩
  · rcases hp with ⟨-, hl'⟩ | ⟨-, hdisc, -⟩
    · rcases hst with hst | hst <;> rw [hst] at hl' <;> cases hl'
    · rcases hst with hst | hst <;> exact absurd (hdisc.symm.trans hst) (by decide)
  · exact absurd hfn (harmed (.inl hs) f hfe)

theorem move_role_ne_ch {D : Defect → Prop} (h : c.cl.role ≠ .ch) (hm : Move D c c') : c'.cl.role ≠ .ch := by
  cases hm with
  | lists =>
    intro hch
    rcases handleLists_role c.cl c.st _ _ _ _ with hr | hr
    · exact h (hr.symm.trans hch)
    · exact absurd (hr.symm.trans hch) (by decide)
  | link =>
    rw [linkMemb]
    split <;> exact h
  | blacklist =>
    rw [blacklistAdd]
    split <;> exact h
  | commoner => exact (by decide : Role.cm ≠ .ch)
  | bridge => exact (by decide : Role.cb ≠ .ch)
  | resign => exact (by decide : Role.cm ≠ .ch)
  | _ => exact h

namespace Node

variable {R : Type} [SoftDouble R]
variable {s t : Node R} {e : Event R} {value : AnnouncementValue R} {rx : Reception R} {n : Neighbour R}

theorem step_role_ne_ch (hs : Timed s.core ∧ s.cl.role ≠ .ch)
    (hstep : s.step e = some t) : Timed t.core ∧ t.cl.role ≠ .ch := by
  refine ⟨timed_step hs.1 hstep, ?_⟩
  cases step_case hs.1.late hstep with
  | moves hm =>
    exact Moves.keeps (P := fun c => c.cl.role ≠ .ch) (fun _ _ hc hm => move_role_ne_ch hc hm) hm hs.2
  | worked _ hw _ =>
    intro h
    exact hs.2 (hw.role_eq.symm.trans h)
  | fired _ hcore =>
    have hcl : t.cl = s.cl := congrArg Core.cl hcore
    rw [hcl]
    exact hs.2

/-! ### Runs -/

/-- In discovery the node is free, and the phase loop does not make a bridge of it in the election. -/
def KeepsElection (s : Node R) (e : Event R) : Prop :=
  (s.myState = .discovery → Free s.cl) ∧ ¬ s.defects e .bridge

omit [SoftDouble R] in
theorem entered_election (s : Node R) (f : Callback) (h : s.entered f = .electionRevelation ∨ s.entered f =
    .electionDeclaration) : f ∈ electionCalls ∨ s.entered f = s.myState := by
  cases f
  case enterConvergenceSlot =>
    right
    rw [entered] at h ⊢
    split at h
    next hslot => rw [if_pos hslot]
    · rcases h with h | h <;> cases h
  case enterSynchronizationSlot =>
    right
    rw [entered] at h ⊢
    split at h
    next hslot => rw [if_pos hslot]
    · rcases h with h | h <;> cases h
  case enterDiscovery => exact .inr rfl
  case enterElectionRevelation => exact .inl (by decide)
  case enterElectionDeclaration => exact .inl (by decide)
  all_goals rcases h with h | h <;> cases h

theorem electing_step (h : Timed s.core ∧ Electing s.core)
    (hok : s.KeepsElection e) (hstep : s.step e = some t) : Timed t.core ∧ Electing t.core := by
  refine ⟨timed_step h.1 hstep, ?_⟩
  have hready : Ready s.core := ⟨h.2, hok.1⟩
  cases step_case h.1.late hstep with
  | moves hm => exact (Moves.keeps (fun _ _ hc hm => hc.move hok.2 hm) hm hready).toElecting
  | worked hl hw hp => exact h.2.work hl hw hp
  | fired hst hcore =>
    rw [hcore]
    refine ⟨fun hel => ?_, nofun, nofun⟩
    cases hf : s.tm.rt0.func with
    | none =>
      rw [hf] at hel
      exact h.2.election hel
    | some f =>
      rw [hf] at hel
      rcases s.entered_election f hel with hfe | hsame
      · -- the timer fires where the node is free
        rcases h.2.scheduled hst f hfe hf with hmem | hcd
        · simp only [List.mem_cons, List.not_mem_nil, or_false] at hmem
          rcases hmem with hst' | hst'
          · exact hok.1 hst'
          · exact h.2.election hst'
        · exact .inr hcd.2
      · exact h.2.election (hel.imp hsame.symm.trans hsame.symm.trans)

theorem electing_boot (a : UInt16) : Electing (boot (R := R) a).core :=
  ⟨fun _ => .inl rfl, nofun, nofun⟩

/-- The step handles the election declaration of the synchronised neighbour `n`, whose entry stands
    in `t`, and `CHs_memb` has a free block. -/
structure HandlesDeclaration (s : Node R) (e : Event R) (value : AnnouncementValue R)
    (rx : Reception R) (t : Node R) (n : Neighbour R) : Prop where
  election : s.myState = .electionDeclaration
  act : e.act = .heard .declaration value rx
  instr : value.instr = St.electionDeclaration.code
  hears : (s.prepare e).hears value rx = some (t, n)
  free : s.cl.chsMemb.freeBlock ≠ none

theorem HandlesDeclaration.entry (h : HandlesDeclaration s e value rx t n) :
    n.addr = rx.sender ∧ n.degree = value.degree := by
  obtain ⟨haddr, hdegree⟩ := hears_entry h.hears
  refine ⟨haddr, hdegree ?_⟩
  change s.myState.code < _
  rw [h.election]
  decide

theorem declarationMessage_cl (hst : s.myState = .electionDeclaration)
    (hinstr : value.instr = St.electionDeclaration.code) (hout : s.outranks n = true) :
    (s.declarationMessage value n).cl =
      (CSync.handleLists s.cl .electionDeclaration s.myAddr s.nb.myDegree value n).2 := by
  rw [declarationMessage, hst]
  dsimp only
  rw [if_pos hinstr, if_pos hout, electHead]
  have hcl : (s.politeCancel.handleLists value n).2.cl =
      (CSync.handleLists s.cl .electionDeclaration s.myAddr s.nb.myDegree value n).2 := by
    rw [← hst]
    rfl
  split <;> exact hcl

theorem HandlesDeclaration.elects {u : Node R} (h : HandlesDeclaration s e value rx t n)
    (hfree : Free s.cl) (hout : t.outranks n = true) (hstep : s.step e = some u) : u.cl.role = .cm := by
  obtain ⟨hst, hact, hinstr, hears, hblock⟩ := h
  rw [step_heard hact hstep]
  change (receivedDeclarationAnnouncement _ value rx).cl.role = .cm
  rw [receivedDeclarationAnnouncement, whenSynced_of_hears hears]
  obtain ⟨nb, tm, an, -, -, rfl⟩ := received_of_hears hears
  rw [declarationMessage_cl (s := { s.prepare e with nb := nb, tm := tm, an := an }) hst hinstr hout]
  exact elected_role hfree hblock s.myAddr nb.myDegree value n

variable {a : UInt16}

theorem electing_run {es : List (Event R)} (hrun : Run step KeepsElection (boot a) es s) :
    (Timed s.core ∧ Electing s.core) ∧ s.myAddr = a :=
  hrun.invariant (P := fun s => (Timed s.core ∧ Electing s.core) ∧ s.myAddr = a)
    (fun _ _ _ hs hok hst => ⟨electing_step hs.1 hok hst, (step_myAddr hs.1.1 hst).trans hs.2⟩)
    ⟨⟨timed_boot a, electing_boot a⟩, rfl⟩

theorem role_ne_ch_run {u v : Node R} {fs : List (Event R)} (hu : Timed u.core)
    (hcm : u.cl.role = .cm) (hrun : Run step (fun _ _ => True) u fs v) : v.cl.role ≠ .ch :=
  (hrun.invariant (P := fun s => Timed s.core ∧ s.cl.role ≠ .ch)
    (fun _ _ _ hs _ hst => step_role_ne_ch hs hst) ⟨hu, by rw [hcm]; decide⟩).2

/-- A run of node `a` that handles the declaration of `b` and ends in `v`: the degree of `a` is `own`
    when it handles the declaration, the degree announced for `b` is `other`. -/
def Campaign (a b : UInt16) (own other : UInt8) (v : Node R) : Prop :=
  ∃ es s e value rx t n u fs, Run step KeepsElection (boot a) es s ∧
    HandlesDeclaration s e value rx t n ∧ rx.sender = b ∧ t.nb.myDegree = own ∧
    value.degree = other ∧ s.step e = some u ∧ Run step (fun _ _ => True) u fs v

theorem Campaign.resigns {a b : UInt16} {own other : UInt8} {v : Node R} (h : Campaign a b own other v) (hout : own <
    other ∨ own = other ∧ a < b) : v.cl.role ≠ .ch := by
  obtain ⟨es, s, e, value, rx, t, n, u, fs, hrun, hh, rfl, rfl, rfl, hstep, hfs⟩ := h
  obtain ⟨⟨htimed, helecting⟩, haddr⟩ := electing_run hrun
  obtain ⟨hn, hdeg⟩ := hh.entry
  have houtranks : t.outranks n = true := by
    have ht : t.myAddr = a := by
      obtain ⟨nb, tm, an, -, -, rfl⟩ := received_of_hears hh.hears
      exact haddr
    rw [outranks, hn, hdeg, ht]
    rcases hout with hlt | ⟨heq, hlt⟩
    · simp [hlt]
    · simp [heq, hlt]
  exact role_ne_ch_run (timed_step htimed hstep)
    (hh.elects (helecting.election (.inr hh.election)) houtranks hstep) hfs

/-- ELECTION SAFETY: in every run in which the node is free in discovery and the phase loop makes no
    bridge of it in the election, a node that handles the declaration of a neighbour that outranks it
    is a commoner; so of two neighbours that have handled each other's declaration, each with the
    degree that it has announced, not both are heads at any later time. -/
theorem election_safety :
    (∀ (a : UInt16) es (s : Node R) e value rx t n u, Run step KeepsElection (boot a) es s →
      HandlesDeclaration s e value rx t n → t.outranks n = true → s.step e = some u → u.cl.role = .cm) ∧
    ∀ (a b : UInt16) (da db : UInt8) (v w : Node R), a ≠ b → Campaign a b da db v → Campaign b a db da w →
      ¬ (v.cl.role = .ch ∧ w.cl.role = .ch) := by
  constructor
  · intro a es s e value rx t n u hrun hh hout hstep
    have hinv := (electing_run hrun).1.2
    exact hh.elects (hinv.election (.inr hh.election)) hout hstep
  · rintro a b da db v w hab hv hw ⟨hva, hwb⟩
    -- one of the two outranks the other
    have hrank : (da < db ∨ da = db ∧ a < b) ∨ (db < da ∨ db = da ∧ b < a) := by
      have hne : a.toNat ≠ b.toNat := fun h => hab (UInt16.toNat_inj.mp h)
      simp only [UInt8.lt_iff_toNat_lt, UInt16.lt_iff_toNat_lt, ← UInt8.toNat_inj]
      omega
    rcases hrank with h | h
    · exact hv.resigns h hva
    · exact hw.resigns h hwb

/-! ### Concrete runs -/

/-- A decidable condition for `KeepsElection`. -/
def fair (s : Node R) (e : Event R) : Bool :=
  (s.myState != .discovery || s.cl.chs.isEmpty) && match e.act with
    | .process => s.cl.role != .cm
    | _ => true

theorem keepsElection_of_fair (s : Node R) (e : Event R) (h : s.fair e = true) : s.KeepsElection e := by
  obtain ⟨act, hw, env⟩ := e
  rw [fair, Bool.and_eq_true] at h
  refine ⟨fun hst => .inl ?_, ?_⟩
  · simpa [hst] using h.1
  · cases act with
    | process =>
      rintro ⟨-, -, hcm, -⟩
      simp [hcm] at h
    | heard _ _ _ => exact fun h => h
    | timer => exact fun h => h
    | overflow => exact fun h => h

/-- A decidable condition for `HandlesDeclaration` with a property of the entry. -/
def handles (q : Node R → Neighbour R → Bool) (e : Event R) (s : Node R) : Bool :=
  match e.act with
  | .heard .declaration value rx => s.myState == .electionDeclaration &&
      value.instr == St.electionDeclaration.code && s.cl.chsMemb.freeBlock.isSome &&
      ((s.prepare e).hears value rx).any fun r => q r.1 r.2
  | _ => false

theorem handlesDeclaration_of_handles {q : Node R → Neighbour R → Bool} (he : e.act = .heard .declaration value rx)
    (h : handles q e s = true) : ∃ t n, HandlesDeclaration s e value rx t n ∧ q t n = true := by
  simp only [handles, he, Bool.and_eq_true, beq_iff_eq] at h
  obtain ⟨⟨⟨hst, hinstr⟩, hfree⟩, hhears⟩ := h
  obtain ⟨⟨t, n⟩, htn, hq⟩ := (Option.any_eq_true _ _).mp hhears
  exact ⟨t, n, ⟨hst, he, hinstr, htn, fun h => by rw [h] at hfree; cases hfree⟩, hq⟩

theorem campaign_of_handles (own : UInt8) (es : List (Event R)) (e : Event R) {b : UInt16}
    (he : e.act = .heard .declaration value rx)
    (h :
      (exec step fair (boot b) es).any (fun s => handles (fun t _ => t.nb.myDegree == own) e s && (s.step e).isSome) =
        true) : ∃ v : Node R, Campaign b rx.sender own value.degree v := by
  obtain ⟨s, hrun, hs⟩ : ∃ s, Run step KeepsElection (boot b) es s ∧ _ := exists_run fair _ keepsElection_of_fair h
  obtain ⟨hhandles, hsome⟩ := Bool.and_eq_true_iff.mp hs
  obtain ⟨t, n, hh, hown⟩ := handlesDeclaration_of_handles he hhandles
  obtain ⟨u, hu⟩ := Option.isSome_iff_exists.mp hsome
  exact ⟨u, es, s, e, value, rx, t, n, u, [], hrun, hh, rfl, by simpa using hown, rfl, hu, .nil u⟩

def electionRun (neighbour : UInt16) : List (Event Rat) :=
  oneNeighbourRun neighbour 1 ++ tickAt 100000 ++ tickAt 257286

/-- Nodes 44 and 78, each with the other as its only neighbour. -/
theorem election_safety_pair : ∃ v w : Node Rat, Campaign 44 78 1 1 v ∧ Campaign 78 44 1 1 w ∧
    ¬ (v.cl.role = .ch ∧ w.cl.role = .ch) := by
  obtain ⟨v, hv⟩ : ∃ v : Node Rat, Campaign 44 78 1 1 v :=
    campaign_of_handles 1 (electionRun 78) (hearsAt 260000 78 .declaration 4 1 0 0 78) rfl (by decide +kernel)
  obtain ⟨w, hw⟩ : ∃ w : Node Rat, Campaign 78 44 1 1 w :=
    campaign_of_handles 1 (electionRun 44) (hearsAt 260000 44 .declaration 4 1 0 0 44) rfl (by decide +kernel)
  exact ⟨v, w, hv, hw, election_safety.2 44 78 1 1 v w (by decide) hv hw⟩

/-- Node 44 is a head with the bridge 48, through which it knows another head, takes a slot from the
    bridge, ends the round late, and is in the next election with that head still on its list. -/
def secondRound : List (Event Rat) :=
  twoNeighboursRun 0 ++ tickAt 414572 ++ tickAt 571858 ++
  [hearsAt 600000 48 .declaration 8 5 0 0 126] ++ tickAt 729144 ++
  [hearsAt 730000 48 .convergence 10 1 0 0 44] ++ tickAt 886430 ++ tickAt 1515576 ++
  [eventAt 1672862 .timer, eventAt 3000000 .process] ++
  [hearsAt 3001000 48 .discovery 1 0 1 3100000 0] ++ tickAt 3100000 ++ tickAt 3257286

/-- FAILS IN GENERAL: in the second round node 44 hears the declaration of 78, which outranks it, and stays a head. -/
theorem stale_list_keeps_head : ¬ ∀ es (s : Node Rat) e value rx t n u, Run step (fun _ _ => True) (boot 44) es s →
    HandlesDeclaration s e value rx t n → t.outranks n = true → s.step e = some u → u.cl.role = .cm := by
  intro hall
  obtain ⟨s, hrun, hs⟩ : ∃ s, Run step (fun _ _ => True) (boot 44) secondRound s ∧ _ :=
    exists_run (fun _ _ => true) (fun s => handles outranks (hearsAt 3260000 78 .declaration 4 9 0 0 78) s &&
      (s.step (hearsAt 3260000 78 .declaration 4 9 0 0 78)).any (fun u => u.cl.role == .ch))
      (fun _ _ _ => trivial) (by decide +kernel)
  obtain ⟨hhandles, hch⟩ := Bool.and_eq_true_iff.mp hs
  obtain ⟨t, n, hh, hout⟩ := handlesDeclaration_of_handles rfl hhandles
  obtain ⟨u, hu, hrole⟩ := (Option.any_eq_true _ _).mp hch
  have hcm := hall secondRound s _ _ _ t n u hrun hh hout hu
  rw [hcm] at hrole
  cases hrole

/-! ### Behind the election -/

/-- In the convergence or behind it, or the round is over. -/
def RoundOn (s : Node R) : Prop := St.consensusConvergence.code ≤ s.myState.code ∨
  s.myState = .discovery ∧ s.pc = .phase ∧ s.tm.rt0.func = none

theorem arms_nil_iff (st : St) : arms st = [] ↔ St.consensusConvergence.code ≤ st.code := by cases st <;> decide

/-- STEP: no message and no timer leads back. -/
theorem roundOn_step (h : Timed s.core) (hlate : St.consensusConvergence.code ≤ s.myState.code)
    (hstep : s.step e = some t) : RoundOn t := by
  rw [← arms_nil_iff] at hlate
  rw [RoundOn, ← arms_nil_iff]
  cases step_case h.late hstep with
  | moves hm =>
    refine .inl (Moves.keeps (P := fun c : Core => arms c.st = []) (fun c c' hc hm => ?_) hm hlate)
    cases hm with
    | join hj => exact (mem_joins_late c.st _ hj).1 hc
    | pass hj => exact (mem_joins_late c.st _ hj).1 hc
    | declare hst =>
      rw [hst] at hc
      cases hc
    | _ => exact hc
  | fired hst hcore =>
    left
    rw [show t.myState = _ from congrArg Core.st hcore]
    cases hf : s.tm.rt0.func with
    | none => exact hlate
    | some f => exact s.entered_late hlate (h.scheduled hlate hst f hf)
  | worked _ _ hp => exact hp.imp And.right fun ⟨hpc, hst, hfunc, _⟩ => ⟨hst, hpc, hfunc⟩

theorem timed_run {es : List (Event R)} (hrun : Run step (fun _ _ => True) (boot a) es s) : Timed s.core :=
  hrun.invariant (P := fun u => Timed u.core) (fun _ _ _ hu _ hst => timed_step hu hst) (timed_boot a)

/-- NO WAY BACK: from the convergence on a round goes on to its end, whatever is heard and fires; behind it the thread is
    in the phase loop and no callback is left. -/
theorem round_goes_on {a : UInt16} {es fs : List (Event R)} (hrun : Run step (fun _ _ => True) (boot a) es s)
    (hlate : St.consensusConvergence.code ≤ s.myState.code)
    (hround : Run step (fun u _ => u.myState ≠ .discovery) s fs t) : RoundOn t := by
  refine (hround.invariant (P := fun u => Timed u.core ∧ RoundOn u) (fun u e v hu hok hst => ?_)
    ⟨timed_run hrun, .inl hlate⟩).2
  rcases hu.2 with hlate' | ⟨hdisc, -⟩
  · exact ⟨timed_step hu.1 hst, roundOn_step hu.1 hlate' hst⟩
  · exact absurd hdisc hok

/-- Node 44 hears a declaration of the election in the convergence. -/
theorem round_goes_on_declared : ∃ s t : Node Rat, s.myState = .consensusConvergence ∧
    s.step (hearsAt 729200 48 .declaration 4 9 0 0 48) = some t ∧ RoundOn t := by
  obtain ⟨s, hrun, hs⟩ : ∃ s, Run step (fun _ _ => True) (boot 44) bridgeRun s ∧ _ :=
    exists_run (fun _ _ => true) (fun s => s.myState == .consensusConvergence &&
      (s.step (hearsAt 729200 48 .declaration 4 9 0 0 48)).isSome) (fun _ _ _ => trivial) (by decide +kernel)
  obtain ⟨hst, hsome⟩ := Bool.and_eq_true_iff.mp hs
  rw [beq_iff_eq] at hst
  obtain ⟨t, ht⟩ := Option.isSome_iff_exists.mp hsome
  exact ⟨s, t, hst, ht, round_goes_on hrun (by rw [hst]; decide) (.cons (by rw [hst]; decide) ht (.nil t))⟩

/-- NO HEAD AGAIN: no round gives a node the role of a head back. -/
theorem never_head_again {a : UInt16} {es fs : List (Event R)} (hrun : Run step (fun _ _ => True) (boot a) es s)
    (hrole : s.cl.role ≠ .ch) (hmore : Run step (fun _ _ => True) s fs t) : t.cl.role ≠ .ch :=
  (hmore.invariant (P := fun u => Timed u.core ∧ u.cl.role ≠ .ch) (fun _ _ _ hu _ hst => step_role_ne_ch hu hst)
    ⟨timed_run hrun, hrole⟩).2

/-- Node 44, a bridge, enters the convergence. -/
theorem never_head_again_bridge : ∃ s t : Node Rat, s.cl.role = .cb ∧ s.step (eventAt 729244 .process) = some t ∧
    t.cl.role ≠ .ch := by
  obtain ⟨s, hrun, hs⟩ : ∃ s, Run step (fun _ _ => True) (boot 44) bridgeRun s ∧ _ := exists_run (fun _ _ => true)
    (fun s => s.cl.role == .cb && (s.step (eventAt 729244 .process)).isSome) (fun _ _ _ => trivial) (by decide +kernel)
  obtain ⟨hrole, hsome⟩ := Bool.and_eq_true_iff.mp hs
  rw [beq_iff_eq] at hrole
  obtain ⟨t, ht⟩ := Option.isSome_iff_exists.mp hsome
  exact ⟨s, t, hrole, ht, never_head_again hrun (by rw [hrole]; decide) (.cons trivial ht (.nil t))⟩

end Node

end CSync
