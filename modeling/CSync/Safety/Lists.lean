import CSync.Node.Steps

/-! Conservation of the cluster lists over whole runs.

    `CHs_list`, `CBs_list` and the blacklist each link blocks of a pool of their own. Conservation
    says of all three that the linked blocks are the allocated ones, each linked once. Every move
    keeps it but four: the late-join paths link the pool descriptor, two paths empty a list without
    freeing its blocks, and blacklisting without a free block pushes the null pointer. -/

namespace CSync

open Lib

/-- Nothing leaks from the three lists and nothing foreign is linked. -/
structure Conserved (cl : Cluster) : Prop where
  heads : cl.chsMemb.Owns cl.chs
  bridges : cl.cbsMemb.Owns cl.cbs
  blacklist : cl.blMemb.Owns cl.blacklist
  own : cl.chsForeign = false

/-- The defects that break conservation. -/
def leaks : List Defect := [.link, .forget, .resign, .blacklist]

theorem Conserved.handleLists {R : Type} {cl : Cluster} (h : Conserved cl) (st : St) (a : UInt16) (d : UInt8) (value :
    AnnouncementValue R) (n : Neighbour R) : Conserved (handleLists cl st a d value n).2 := by
  have hspec := handleLists_spec cl st a d value n
  generalize (CSync.handleLists cl st a d value n).2 = cl' at hspec
  cases hspec with
  | heads _ hr => exact ⟨hr.lists.owns h.heads, h.bridges, h.blacklist, h.own⟩
  | bridges _ hr => exact ⟨h.heads, hr.lists.owns h.bridges, h.blacklist, h.own⟩
  | none => exact h

theorem Conserved.blacklistAdd {cl : Cluster} (h : Conserved cl) (addr : UInt16)
    (hfree : cl.blMemb.freeBlock ≠ none) : Conserved (blacklistAdd addr cl) := by
  have howns := owns_blacklistAdd h.blacklist addr hfree
  rw [CSync.blacklistAdd] at howns ⊢
  split at howns <;> exact ⟨h.heads, h.bridges, howns, h.own⟩

theorem Conserved.move {D : Defect → Prop} (hD : ∀ d ∈ leaks, ¬ D d) {c c' : Core}
    (h : Conserved c.cl) (hm : Move D c c') : Conserved c'.cl := by
  cases hm with
  | arm => exact h
  | wake => exact h
  | refuse => exact h
  | drop => exact h
  | join => exact h
  | pass => exact h
  | keep => exact h
  | declare => exact h
  | commoner => exact ⟨h.heads, h.bridges, h.blacklist, h.own⟩
  | bridge => exact ⟨h.heads, h.bridges, h.blacklist, h.own⟩
  | lists => exact h.handleLists _ _ _ _ _
  | forget _ hleak =>
    -- the list was empty before
    have hnil : c.cl.chs = [] := Classical.byContradiction fun hne =>
      hD .forget (by decide) (hleak hne)
    exact ⟨hnil ▸ h.heads, h.bridges, h.blacklist, h.own⟩
  | resign _ _ hleak =>
    have hnil : c.cl.cbs = [] := Classical.byContradiction fun hne =>
      hD .resign (by decide) (hleak hne)
    exact ⟨h.heads, hnil ▸ h.bridges, h.blacklist, h.own⟩
  | link hleak => exact absurd hleak (hD .link (by decide))
  | slot => exact ⟨owns_mapChs _ h.heads, h.bridges, h.blacklist, h.own⟩
  | assign => exact ⟨⟨h.heads.nodup, h.heads.count_eq⟩, h.bridges, h.blacklist, h.own⟩
  | blacklist _ hleak =>
    exact h.blacklistAdd _ fun hnone => hD .blacklist (by decide) (hleak hnone)

theorem Conserved.work {c c' : Core} (h : Conserved c.cl) (hw : Work c c') : Conserved c'.cl := by
  refine ⟨hw.owns h.heads, ?_, ?_, hw.foreign_eq.trans h.own⟩
  · rw [hw.cbsMemb_eq, hw.cbs_eq]
    exact h.bridges
  · rw [hw.blMemb_eq, hw.blacklist_eq]
    exact h.blacklist

namespace Node

variable {R : Type} [SoftDouble R]

/-- The step reaches none of the four defects. -/
def KeepsBlocks (s : Node R) (e : Event R) : Prop := ∀ d ∈ leaks, ¬ s.defects e d

theorem conserved_step {s t : Node R} {e : Event R} (h : Timed s.core ∧ Conserved s.cl)
    (hok : s.KeepsBlocks e) (hstep : s.step e = some t) : Timed t.core ∧ Conserved t.cl := by
  refine ⟨timed_step h.1 hstep, ?_⟩
  cases step_case h.1.late hstep with
  | moves hm =>
    exact Moves.keeps (P := fun c => Conserved c.cl) (fun _ _ hc hm => hc.move hok hm) hm h.2
  | worked _ hw _ => exact Conserved.work (c := s.core) h.2 hw
  | fired _ hcore =>
    have hcl : t.cl = s.cl := congrArg Core.cl hcore
    rw [hcl]
    exact h.2

theorem conserved_boot (a : UInt16) : Conserved (boot (R := R) a).cl :=
  ⟨Pool.owns_init _, Pool.owns_init _, Pool.owns_init _, rfl⟩

/-- CONSERVATION: in every run whose steps reach none of the four defects, the three lists own their
    pools in every state. -/
theorem cluster_lists_conserved (a : UInt16) (es : List (Event R)) (t : Node R)
    (hrun : Run step KeepsBlocks (boot a) es t) : Conserved t.cl :=
  (hrun.invariant (P := fun s => Timed s.core ∧ Conserved s.cl)
    (fun _ _ _ hs hok hst => conserved_step hs hok hst) ⟨timed_boot a, conserved_boot a⟩).2

/-! ### Concrete runs -/

/-- A decidable condition under which no message reaches one of the four. -/
def calm (s : Node R) (e : Event R) : Bool :=
  match e.act with
  | .heard .revelation _ _ => s.myState != .discovery
  | .heard .declaration _ _ => s.cl.chs.isEmpty
  | .heard .convergence _ _ => s.cl.cbs.isEmpty
  | .heard .synchronization _ _ => s.myState != .discovery && s.myState != .consensusSynchronization
  | _ => true

theorem keepsBlocks_of_calm (s : Node R) (e : Event R) (h : s.calm e = true) : s.KeepsBlocks e := by
  obtain ⟨act, hw, env⟩ := e
  intro d hd
  cases act with
  | timer => exact id
  | overflow => exact id
  | process =>
    rintro ⟨rfl, -⟩
    exact absurd hd (by decide)
  | heard id value rx =>
    change ¬ reaches _ id value rx d
    cases id <;> simp only [calm] at h <;> cases d <;>
      simp_all [reaches, prepare, leaks]

/-- Node 44 hears 48 and 78, and takes 78, which outranks it, as its head. -/
def electedRun : List (Event Rat) :=
  twoNeighboursRun 0 ++ [hearsAt 260000 78 .declaration 4 3 0 0 78]

theorem cluster_lists_conserved_elected : ∃ t, Run step KeepsBlocks (boot 44) electedRun t ∧
    t.cl.chs ≠ [] ∧ Conserved t.cl := by
  obtain ⟨t, hrun, hne⟩ : ∃ t, Run step KeepsBlocks (boot 44) electedRun t ∧ (!t.cl.chs.isEmpty) = true :=
    exists_run calm (fun t => !t.cl.chs.isEmpty) keepsBlocks_of_calm (by decide +kernel)
  exact ⟨t, hrun, by simpa using hne, cluster_lists_conserved 44 electedRun t hrun⟩

/-- Node 44 in discovery hears the consensus revelation of 48. -/
def lateRun : List (Event Rat) :=
  [hearsAt 1000 48 .discovery 0 0 0 0 0, hearsAt 2000 48 .discovery 0 0 0 0 0,
    hearsAt 3000 48 .revelation 12 1 1 200000 48]

/-- FAILS IN GENERAL: the pool descriptor is linked as a cluster head. -/
theorem late_join_links_descriptor : ¬ ∀ (es : List (Event Rat)) (t : Node Rat),
    Run step (fun _ _ => True) (boot 44) es t → Conserved t.cl := by
  intro hall
  obtain ⟨t, hrun, hlinked⟩ : ∃ t, Run step (fun _ _ => True) (boot 44) lateRun t ∧ t.cl.chsForeign = true :=
    exists_run (fun _ _ => true) (fun t : Node Rat => t.cl.chsForeign) (fun _ _ _ => trivial) (by decide +kernel)
  have hown := (hall lateRun t hrun).own
  rw [hown] at hlinked
  cases hlinked

end Node

end CSync
