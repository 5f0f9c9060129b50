import CSync.Node.Steps

/-! The heads of a commoner over whole runs.

    `csync_print_status` and `csync_trusted_synchronization` read the first entry of `CHs_list` of a
    commoner without a test. `handle_lists` makes a commoner only together with its first head and never
    empties the list, so it cannot break this. The paths that set the role or the list by hand do: the
    late joins in discovery, the declaration that empties the list of a commoner in the election, and
    the head that gives up its role. In a run without these three every commoner has a head. -/

namespace CSync

open Lib

/-- A commoner has a head. -/
def Headed (cl : Cluster) : Prop := cl.role = .cm → cl.chs ≠ []

theorem Headed.handleLists {R : Type} {cl : Cluster} (h : Headed cl) (st : St) (a : UInt16) (d : UInt8)
    (value : AnnouncementValue R) (n : Neighbour R) : Headed (handleLists cl st a d value n).2 := by
  have hheads := handleOn_headed true (fun role => newChb role a d value n) n.addr n.degree cl.role cl.chsMemb h
  cases st
  case electionDeclaration => exact hheads
  case consensusConvergence => exact hheads
  case connectionDeclaration =>
    -- the bridges change, and a first bridge does not change the role
    have hstays := (handleOn_spec false (fun role => newChb role a d value n) n.addr n.degree cl.role
      cl.cbsMemb cl.cbs).stays (.inr rfl)
    exact fun hcm => h (hstays.symm.trans hcm)
  all_goals exact h

/-- One move keeps it, unless it makes or leaves a commoner without a head. -/
theorem Headed.move {D : Defect → Prop} (hD : ¬ D .headless) {c c' : Core} (h : Headed c.cl)
    (hm : Move D c c') : Headed c'.cl := by
  cases hm with
  | arm => exact h
  | wake => exact h
  | refuse => exact h
  | drop => exact h
  | join => exact h
  | pass => exact h
  | keep => exact h
  | declare => exact h
  | commoner _ hbad => exact fun _ hnil => hD (hbad hnil)
  | bridge => exact nofun
  | lists => exact h.handleLists _ _ _ _ _
  | forget _ _ hbad => exact fun hcm => absurd (hbad (h hcm) hcm) hD
  | resign _ _ _ hbad => exact fun _ hnil => hD (hbad hnil)
  | link =>
    rw [linkMemb]
    split <;> exact h
  | slot => exact h
  | assign => exact h
  | blacklist =>
    rw [blacklistAdd]
    split <;> exact h

theorem Headed.work {c c' : Core} (h : Headed c.cl) (hw : Work c c') : Headed c'.cl := by
  intro hcm
  have hrole : c.cl.role = .cm := hw.role_eq.symm.trans hcm
  rw [hw.heads (by rw [hrole]; decide)]
  exact h hrole

namespace Node

variable {R : Type} [SoftDouble R]

/-- The thread calls `csync_print_status` in the connection revelation of a commoner. -/
structure PrintsHead (s : Node R) (e : Event R) : Prop where
  process : e.act = .process
  phase : s.pc = .phase
  state : s.myState = .connectionRevelation
  commoner : s.cl.role = .cm
  scheduled : ({ s.prepare e with polled := false }.schedule .intervalRef 0 regularSlotInterval
    .enterConnectionDeclaration).1 = true

/-- The step has called `csync_trusted_synchronization` in a commoner. The lists are those of the
    call: neither the call nor what the handlers do behind it changes them. -/
def TrustsHead (t : Node R) : Prop :=
  (∃ addr fine coarse, .trustedSynchronization addr fine coarse ∈ t.out) ∧ t.cl.role = .cm

/-- The step neither makes a commoner without a head nor empties the list of a commoner. -/
def KeepsHead (s : Node R) (e : Event R) : Prop := ¬ s.defects e .headless

theorem headed_step {s t : Node R} {e : Event R} (h : Timed s.core ∧ Headed s.cl)
    (hok : s.KeepsHead e) (hstep : s.step e = some t) : Timed t.core ∧ Headed t.cl := by
  refine ⟨timed_step h.1 hstep, ?_⟩
  cases step_case h.1.late hstep with
  | moves hm =>
    exact Moves.keeps (P := fun c => Headed c.cl) (fun _ _ hc hm => hc.move hok hm) hm h.2
  | worked _ hw _ => exact Headed.work (c := s.core) h.2 hw
  | fired _ hcore =>
    have hcl : t.cl = s.cl := congrArg Core.cl hcore
    rw [hcl]
    exact h.2

theorem headed_boot (a : UInt16) : Headed (boot (R := R) a).cl := nofun

/-- HEADS: in every run whose steps keep the heads of commoners, `CHs_list` is not empty wherever its
    first entry is read for a commoner. -/
theorem commoner_head_read (a : UInt16) (es : List (Event R)) (s t : Node R) (e : Event R)
    (hrun : Run step KeepsHead (boot a) es s) (hok : s.KeepsHead e) (hstep : s.step e = some t) :
    (s.PrintsHead e → s.cl.chs ≠ []) ∧ (t.TrustsHead → t.cl.chs ≠ []) := by
  have hs : Timed s.core ∧ Headed s.cl := hrun.invariant (P := fun s => Timed s.core ∧ Headed s.cl)
      (fun _ _ _ hs hok hst => headed_step hs hok hst) ⟨timed_boot a, headed_boot a⟩
  have ht := headed_step hs hok hstep
  exact ⟨fun hprint => hs.2 hprint.commoner, fun htrust => ht.2 htrust.2⟩

/-! ### Concrete runs -/

/-- A decidable condition under which a step keeps the heads of commoners. -/
def seated (s : Node R) (e : Event R) : Bool :=
  match e.act with
  | .heard .revelation _ _ => s.myState != .discovery
  | .heard .declaration value _ =>
      s.myState != .discovery && value.instr != St.connectionDeclaration.code
  | .heard .convergence _ _ => s.cl.role != .ch
  | .heard .synchronization _ _ => s.myState != .discovery
  | _ => true

theorem keepsHead_of_seated (s : Node R) (e : Event R) (h : s.seated e = true) : s.KeepsHead e := by
  obtain ⟨act, hw, env⟩ := e
  cases act with
  | timer => exact id
  | overflow => exact id
  | process =>
    rintro ⟨hbridge, -⟩
    cases hbridge
  | heard id value rx =>
    change ¬ reaches _ id value rx .headless
    cases id <;> simp only [seated] at h <;> simp_all [reaches, prepare]

/-- Node 44 takes 78 as its head and enters the connection revelation. -/
def commonerRun : List (Event Rat) :=
  oneNeighbourRun 78 3 ++ tickAt 100000 ++ tickAt 257286 ++
  [hearsAt 260000 78 .declaration 4 3 0 0 78, eventAt 414572 .timer]

/-- Node 44 in discovery hears the connection revelation of 48. -/
def headlessRun : List (Event Rat) :=
  [hearsAt 1000 48 .discovery 0 3 0 0 0, hearsAt 2000 48 .discovery 0 3 0 0 0,
    hearsAt 3000 48 .revelation 6 3 1 200000 48]

theorem printsHead_of_exec (ok : Node Rat → Event Rat → Prop) (check : Node Rat → Event Rat → Bool)
    (hcheck : ∀ s e, check s e = true → ok s e) (es : List (Event Rat)) (time : UInt32) (p : Node Rat → Bool)
    (h : (exec step check (boot 44) es).any (fun s => p s &&
        (s.pc == .phase && (s.myState == .connectionRevelation &&
          (s.cl.role == .cm && (({ s.prepare (eventAt time .process) with polled := false }.schedule .intervalRef 0
            regularSlotInterval .enterConnectionDeclaration).1 && (s.step (eventAt time .process)).isSome))))) =
        true) :
    ∃ s t,
      Run step ok (boot 44) es s ∧
      p s = true ∧
      s.PrintsHead (eventAt time .process) ∧
      s.step (eventAt time .process) = some t := by
  obtain ⟨s, hrun, hs⟩ := exists_run check _ hcheck h
  simp only [Bool.and_eq_true, beq_iff_eq] at hs
  obtain ⟨hp, hpc, hst, hcm, hsched, hsome⟩ := hs
  obtain ⟨t, hstep⟩ := Option.isSome_iff_exists.mp hsome
  exact ⟨s, t, hrun, hp, ⟨rfl, hpc, hst, hcm, hsched⟩, hstep⟩

theorem commoner_head_read_elected : ∃ s t : Node Rat, Run step KeepsHead (boot 44) commonerRun s ∧ s.PrintsHead
    (eventAt 414672 .process) ∧ s.step (eventAt 414672 .process) = some t ∧ s.cl.chs ≠ [] := by
  obtain ⟨s, t, hrun, -, hprint, hstep⟩ := printsHead_of_exec _ seated keepsHead_of_seated
    commonerRun 414672 (fun _ => true) (by decide +kernel)
  have hok : s.KeepsHead (eventAt 414672 .process) := keepsHead_of_seated s _ rfl
  exact ⟨s, t, hrun, hprint, hstep, (commoner_head_read 44 commonerRun s t _ hrun hok hstep).1 hprint⟩

/-- FAILS IN GENERAL: a late join makes a commoner without a head, and its status is printed. -/
theorem late_join_without_head : ¬ ∀ (es : List (Event Rat)) (s t : Node Rat) (e : Event Rat), Run step (fun _ _ =>
    True) (boot 44) es s → s.step e = some t → (s.PrintsHead e → s.cl.chs ≠ []) ∧ (t.TrustsHead → t.cl.chs ≠ []) := by
  intro hall
  obtain ⟨s, t, hrun, hnil, hprint, hstep⟩ := printsHead_of_exec (fun _ _ => True)
    (fun _ _ => true) (fun _ _ _ => trivial) headlessRun 3100 (fun s => s.cl.chs.isEmpty)
    (by decide +kernel)
  exact (hall headlessRun s t _ hrun hstep).1 hprint (List.isEmpty_iff.mp hnil)

end Node

end CSync
