import CSync.Rpl.Graph
import Mathlib.Data.List.Find

/-! The topology over every sequence of calls. Updates keep the pointers within the list and within a DAG,
    and no update cuts off a node. Nodes stay different as long as an address that is not found has a new
    identifier, and pointers stay valid as long as no node with children expires. -/

namespace CSync.RplNs
open Lib List Function

open Lib (Reaches)

variable {c : Config}

structure Closed (s : State c) : Prop where
  owns : s.nodememb.Owns s.nodelist
  parents : ∀ l ∈ s.nodelist, ∀ p, s.parent l = some p → p ∈ s.nodelist
  dags : ∀ l ∈ s.nodelist, ∀ p, s.parent l = some p → (s.node p).dag = (s.node l).dag
  numNodes : s.numNodes = s.nodelist.length

/-- The parts of the nodes that addresses are compared with. -/
def keys (s : State c) : List (c.Dag × (Fin 8 → UInt8)) := s.nodelist.map s.key

structure Inv (s : State c) : Prop where
  closed : Closed s
  unique : (keys s).Nodup

variable {s t : State c} {l : Fin c.linkNum} {dag : c.Dag} {addr child : IpAddr}

theorem nodeMatchesAddress_congr (h : t.key l = s.key l) (dag : c.Dag)
    (addr : IpAddr) : nodeMatchesAddress t dag l addr = nodeMatchesAddress s dag l addr := by
  obtain ⟨hdag, hlink⟩ := Prod.mk.inj h
  rw [nodeMatchesAddress, nodeMatchesAddress, hdag, hlink]

theorem getNode_some (h : getNode s dag addr = some l) :
    l ∈ s.nodelist ∧ (s.node l).dag = dag ∧ (s.node l).linkIdentifier = addr.linkIdentifier := by
  have hmatch := find?_some h
  rw [nodeMatchesAddress, Bool.and_eq_true, Bool.and_eq_true] at hmatch
  exact ⟨mem_of_find?_eq_some h, (of_decide_eq_true hmatch.1.1).symm, (of_decide_eq_true hmatch.2).symm⟩

/-- Nodes behind the list and other pointers do not change what is found. -/
theorem getNode_append {more : List (Fin c.linkNum)} (hlist : t.nodelist = s.nodelist ++ more)
    (hkey : ∀ l ∈ s.nodelist, t.key l = s.key l) (h : getNode s dag addr = some l) : getNode t dag addr = some l := by
  rw [getNode] at h ⊢
  rw [hlist, find?_append]
  have heq : s.nodelist.find? (fun l => nodeMatchesAddress t dag l addr) =
      s.nodelist.find? fun l => nodeMatchesAddress s dag l addr := by
    refine find?_congr fun k hk => ?_
    rw [nodeMatchesAddress_congr (hkey k hk)]
  rw [heq, h]
  rfl

theorem isNodeReachable_iff : isNodeReachable s dag addr = true ↔ ∃ root l, getNode s dag (c.dagId dag) = some root ∧
      getNode s dag addr = some l ∧ Reaches s.parent root l := by
  rw [isNodeReachable]
  cases hroot : getNode s dag (c.dagId dag) with
  | none => exact iff_of_false Bool.false_ne_true fun ⟨_, _, hno, _⟩ => (by cases hno)
  | some root =>
    dsimp only
    cases hl : getNode s dag addr with
    | none =>
      refine iff_of_false ?_ fun ⟨_, _, _, hno, _⟩ => (by cases hno)
      rw [climbs_none]
      exact Bool.false_ne_true
    | some l =>
      have hclimbs : climbs s.parent root c.linkNum (some l) = true ↔ Reaches s.parent root l := by
        have hcard : climbs s.parent root (Fintype.card (Fin c.linkNum)) (some l) = true ↔
            Reaches s.parent root l := climbs_iff
        rwa [Fintype.card_fin] at hcard
      rw [hclimbs]
      constructor
      · exact fun h => ⟨root, l, rfl, rfl, h⟩
      · rintro ⟨root', l', hroot', hl', h⟩
        cases hroot'
        cases hl'
        exact h

/-! ### Frames -/

/-- What an update keeps: the nodes that there are, what is found, and who reaches the root. -/
structure Keeps (s t : State c) : Prop where
  list : ∃ more, t.nodelist = s.nodelist ++ more
  key : ∀ l ∈ s.nodelist, t.key l = s.key l
  reaches : ∀ dag root l, getNode s dag (c.dagId dag) = some root → l ∈ s.nodelist →
    Reaches s.parent root l → Reaches t.parent root l

theorem Keeps.getNode (h : Keeps s t) (hl : getNode s dag addr = some l) : getNode t dag addr = some l := by
  obtain ⟨more, hlist⟩ := h.list
  exact getNode_append hlist h.key hl

theorem Keeps.refl (s : State c) : Keeps s s := ⟨⟨[], (append_nil _).symm⟩, fun _ _ => rfl, fun _ _ _ _ _ h => h⟩

theorem Keeps.mem (h : Keeps s t) (hl : l ∈ s.nodelist) : l ∈ t.nodelist := by
  obtain ⟨more, hlist⟩ := h.list
  rw [hlist]
  exact mem_append_left _ hl

theorem Keeps.trans {u : State c} (h : Keeps s t) (h' : Keeps t u) : Keeps s u := by
  refine ⟨?_, fun l hl => (h'.key l (h.mem hl)).trans (h.key l hl), fun dag root l hroot hl hr => ?_⟩
  · obtain ⟨more, hlist⟩ := h.list
    obtain ⟨more', hlist'⟩ := h'.list
    exact ⟨more ++ more', by rw [hlist', hlist, append_assoc]⟩
  · exact h'.reaches dag root l (h.getNode hroot) (h.mem hl) (h.reaches dag root l hroot hl hr)

theorem Keeps.isNodeReachable (h : Keeps s t)
    (hs : isNodeReachable s dag addr = true) : isNodeReachable t dag addr = true := by
  obtain ⟨root, l, hroot, hl, hr⟩ := isNodeReachable_iff.mp hs
  exact isNodeReachable_iff.mpr ⟨root, l, h.getNode hroot, h.getNode hl,
    h.reaches dag root l hroot (getNode_some hl).1 hr⟩

/-! ### Pointers -/

section

variable (l : Fin c.linkNum) (p : Option (Fin c.linkNum)) (s : State c)

theorem key_setParent :
    (setParent l p s).key = s.key := by
  funext k
  by_cases hk : k = l
  · subst hk
    show ((update s.nodememb.mem k _ k).dag, (update s.nodememb.mem k _ k).linkIdentifier) = _
    rw [update_self]
    rfl
  · show ((update s.nodememb.mem l _ k).dag, (update s.nodememb.mem l _ k).linkIdentifier) = _
    rw [update_of_ne hk]
    rfl

theorem parent_setParent :
    (setParent l p s).parent = update s.parent l p := by
  funext k
  by_cases hk : k = l
  · subst hk
    show (update s.nodememb.mem k _ k).parent = _
    rw [update_self, update_self]
  · show (update s.nodememb.mem l _ k).parent = _
    rw [update_of_ne hk, update_of_ne hk]
    rfl

theorem dag_setParent (k : Fin c.linkNum) :
    ((setParent l p s).node k).dag = (s.node k).dag :=
  congrArg Prod.fst (congrFun (key_setParent l p s) k)

end

variable {p : Option (Fin c.linkNum)}

theorem Closed.setParent (h : Closed s)
    (hp : ∀ q, p = some q → q ∈ s.nodelist ∧ (s.node q).dag = (s.node l).dag) : Closed (setParent l p s) := by
  have howns := h.owns.modify l fun n => { n with parent := p }
  refine ⟨howns, fun k hk q hq => ?_, fun k hk q hq => ?_, h.numNodes⟩
  · rw [parent_setParent] at hq
    by_cases hkl : k = l
    · rw [hkl, update_self] at hq
      exact (hp q hq).1
    · rw [update_of_ne hkl] at hq
      exact h.parents k hk q hq
  · rw [parent_setParent] at hq
    rw [dag_setParent, dag_setParent]
    by_cases hkl : k = l
    · rw [hkl, update_self] at hq
      rw [hkl]
      exact (hp q hq).2
    · rw [update_of_ne hkl] at hq
      exact h.dags k hk q hq

theorem Closed.dag_of_reaches (h : Closed s) {root : Fin c.linkNum} (hl : l ∈ s.nodelist)
    (hr : Reaches s.parent root l) : (s.node l).dag = (s.node root).dag := by
  induction hr with
  | root => rfl
  | @step n p hnext _ ih => rw [← h.dags n hl p hnext, ih (h.parents n hl p hnext)]

theorem keeps_linkNode (h : Closed s) (hl : getNode s dag child = some l) (p : Option (Fin c.linkNum)) :
    Keeps s (linkNode dag child l p s) := by
  have hlmem := getNode_some hl
  -- nodes of other DAGs do not meet the pointer
  have hother : ∀ q root k, k ∈ s.nodelist → (s.node k).dag ≠ dag → Reaches s.parent root k →
      Reaches (setParent l q s).parent root k := by
    intro q root k hk hdag hr
    rw [parent_setParent]
    refine hr.congr (P := fun m => m ∈ s.nodelist ∧ (s.node m).dag ≠ dag) ⟨hk, hdag⟩ ?_ ?_
    · rintro m n ⟨hm, hmdag⟩ hnext
      exact ⟨h.parents m hm n hnext, by rw [h.dags m hm n hnext]; exact hmdag⟩
    · rintro m ⟨hm, hmdag⟩
      refine update_of_ne ?_ _ _
      rintro rfl
      exact hmdag hlmem.2.1
  have hkeeps : ∀ q, (∀ root, getNode s dag (c.dagId dag) = some root → ∀ k, Reaches s.parent root k →
      Reaches (setParent l q s).parent root k) → Keeps s (setParent l q s) := by
    intro q hq
    refine ⟨⟨[], (append_nil _).symm⟩, fun k _ => by rw [key_setParent], fun dag' root k hroot hk hr => ?_⟩
    have hroot' := getNode_some hroot
    by_cases hdag : (s.node k).dag = dag
    · have heq := h.dag_of_reaches hk hr
      rw [hdag, hroot'.2.1] at heq
      rw [← heq] at hroot
      exact hq root hroot k hr
    · exact hother q root k hk hdag hr
  rw [linkNode]
  by_cases hbefore : isNodeReachable s dag child = true
  · rw [if_pos hbefore]
    by_cases hafter : isNodeReachable (setParent l p s) dag child = true
    · rw [if_pos hafter]
      refine hkeeps p fun root hroot k hr => ?_
      obtain ⟨root', l', hroot', hl', hr'⟩ := isNodeReachable_iff.mp hafter
      have hsame : ∀ addr, getNode (setParent l p s) dag addr = getNode s dag addr := by
        intro addr
        refine find?_congr fun k _ => ?_
        rw [nodeMatchesAddress_congr (congrFun (key_setParent l p s) k)]
      rw [hsame, hroot] at hroot'
      rw [hsame, hl] at hl'
      cases hroot'
      cases hl'
      rw [parent_setParent] at hr' ⊢
      exact hr.change hr'
    · rw [if_neg hafter]
      have hback : (setParent l (s.parent l) (setParent l p s)).parent = s.parent := by
        rw [parent_setParent, parent_setParent, update_idem, update_eq_self]
      refine ⟨⟨[], (append_nil _).symm⟩, fun k _ => ?_, fun dag' root k _ _ hr => ?_⟩
      · rw [key_setParent, key_setParent]
      · rw [hback]
        exact hr
  · rw [if_neg hbefore]
    refine hkeeps p fun root hroot k hr => ?_
    rw [parent_setParent]
    refine hr.change_other fun hno => hbefore ?_
    exact isNodeReachable_iff.mpr ⟨root, l, hroot, hl, hno⟩

theorem Closed.linkNode (h : Closed s) (hl : l ∈ s.nodelist) (hp : ∀ q, p = some q → q ∈
    s.nodelist ∧ (s.node q).dag = (s.node l).dag) : Closed (linkNode dag child l p s) := by
  have hset := h.setParent hp
  rw [RplNs.linkNode]
  split
  · split
    · exact hset
    · refine hset.setParent fun q hq => ⟨h.parents l hl q hq, ?_⟩
      rw [dag_setParent, dag_setParent]
      exact h.dags l hl q hq
  · exact hset

theorem key_linkNode (dag : c.Dag) (child : IpAddr) (l : Fin c.linkNum) (p : Option (Fin c.linkNum))
    (s : State c) : (linkNode dag child l p s).key = s.key := by
  rw [linkNode]
  split
  · split
    · exact key_setParent l p s
    · rw [key_setParent, key_setParent]
  · exact key_setParent l p s

theorem nodelist_linkNode (dag : c.Dag) (child : IpAddr) (l : Fin c.linkNum) (p : Option (Fin c.linkNum))
    (s : State c) : (linkNode dag child l p s).nodelist = s.nodelist := by
  rw [linkNode]
  split
  · split <;> rfl
  · rfl

/-! ### Updates -/

/-- The initialization of a node, in front of its pointer. -/
def writeNode (dag : c.Dag) (child : IpAddr) (l : Fin c.linkNum) (lifetime : UInt32) (s : State c) : State c :=
  modifyNode l (fun n => { n with dag := dag, lifetime := lifetime, linkIdentifier := child.linkIdentifier }) s

theorem node_writeNode_of_ne {k : Fin c.linkNum} (h : k ≠ l) (dag : c.Dag) (child : IpAddr)
    (lifetime : UInt32) (s : State c) : (writeNode dag child l lifetime s).node k = s.node k :=
  update_of_ne h ..

theorem key_writeNode_self (dag : c.Dag) (child : IpAddr) (l : Fin c.linkNum) (lifetime : UInt32)
    (s : State c) : (writeNode dag child l lifetime s).key l = (dag, child.linkIdentifier) := by
  show ((update s.nodememb.mem l _ l).dag, (update s.nodememb.mem l _ l).linkIdentifier) = _
  rw [update_self]

theorem parent_writeNode (dag : c.Dag) (child : IpAddr) (l : Fin c.linkNum) (lifetime : UInt32)
    (s : State c) : (writeNode dag child l lifetime s).parent = s.parent := by
  funext k
  by_cases hk : k = l
  · subst hk
    show (update s.nodememb.mem k _ k).parent = _
    rw [update_self]
    rfl
  · rw [State.parent, node_writeNode_of_ne hk]
    rfl

theorem key_writeNode_found
    (hl : getNode s dag child = some l) (lifetime : UInt32) : (writeNode dag child l lifetime s).key = s.key := by
  funext k
  by_cases hk : k = l
  · obtain ⟨-, hdag, hlink⟩ := getNode_some hl
    rw [hk, key_writeNode_self]
    exact Prod.ext hdag.symm hlink.symm
  · rw [State.key, node_writeNode_of_ne hk]
    rfl

/-- What `rpl_ns_update_node` leads to: a closed state with all that was kept, and a node of the DAG. -/
structure Updates (dag : c.Dag) (s : State c) (r : Option (Fin c.linkNum) × State c) : Prop where
  closed : Closed r.2
  keeps : Keeps s r.2
  node : ∀ l, r.1 = some l → l ∈ r.2.nodelist ∧ (r.2.node l).dag = dag

variable {s : State c} {dag : c.Dag} {child : IpAddr} {lifetime : UInt32} {parentNode : Option (Fin c.linkNum)}

theorem Closed.updates_found (h : Closed s) (hl : getNode s dag child = some l)
    (hp : ∀ q, parentNode = some q → q ∈ s.nodelist ∧ (s.node q).dag = dag) :
    Updates dag s (updateFound dag child (some l) parentNode lifetime s) ∧
    keys (updateFound dag child (some l) parentNode lifetime s).2 = keys s := by
  obtain ⟨hmem, hdag, -⟩ := getNode_some hl
  set t := writeNode dag child l lifetime s with ht
  have hkey : t.key = s.key := key_writeNode_found hl lifetime
  have hdags : ∀ k, (t.node k).dag = (s.node k).dag := fun k => congrArg Prod.fst (congrFun hkey k)
  have hparent : t.parent = s.parent := parent_writeNode dag child l lifetime s
  have hclosed : Closed t := by
    have howns := h.owns.modify l fun n =>
      { n with dag := dag, lifetime := lifetime, linkIdentifier := child.linkIdentifier }
    refine ⟨howns, fun k hk p hkp => ?_, fun k hk p hkp => ?_, h.numNodes⟩
    · rw [hparent] at hkp
      exact h.parents k hk p hkp
    · rw [hparent] at hkp
      rw [hdags, hdags]
      exact h.dags k hk p hkp
  have hkeeps : Keeps s t := by
    refine ⟨⟨[], (append_nil _).symm⟩, fun k _ => congrFun hkey k, fun _ root k _ _ hr => ?_⟩
    rw [hparent]
    exact hr
  have hfound : getNode t dag child = some l := hkeeps.getNode hl
  have hresult : updateFound dag child (some l) parentNode lifetime s =
    (some l, RplNs.linkNode dag child l parentNode t) := rfl
  rw [hresult]
  refine ⟨⟨?_, ?_, ?_⟩, ?_⟩
  · refine hclosed.linkNode hmem fun q hq => ⟨(hp q hq).1, ?_⟩
    rw [hdags, hdags, hdag]
    exact (hp q hq).2
  · exact hkeeps.trans (keeps_linkNode hclosed hfound parentNode)
  · intro k hk
    cases hk
    refine ⟨?_, ?_⟩
    · show l ∈ (RplNs.linkNode dag child l parentNode t).nodelist
      rw [nodelist_linkNode]
      exact hmem
    · have := congrArg Prod.fst (congrFun (key_linkNode dag child l parentNode t) l)
      exact this.trans ((hdags l).trans hdag)
  · rw [keys, nodelist_linkNode, key_linkNode, hkey]
    rfl

/-- A node is added at the end of the list, and no pointer leads to it. -/
theorem Closed.updates_new (h : Closed s) (hp : ∀ q, parentNode = some q → q ∈ s.nodelist ∧ (s.node q).dag = dag) :
    Updates dag s (updateFound dag child none parentNode lifetime s) ∧
    (keys (updateFound dag child none parentNode lifetime s).2 = keys s ∨
     keys (updateFound dag child none parentNode lifetime s).2 = keys s ++ [(dag, child.linkIdentifier)]) := by
  rw [updateFound, addNode, Pool.alloc]
  cases hfree : s.nodememb.freeBlock with
  | none => exact ⟨⟨h, .refl s, nofun⟩, .inl rfl⟩
  | some l =>
    have hnew : l ∉ s.nodelist := h.owns.not_mem_of_free hfree
    set u : State c := { RplNs.setParent l none { s with nodememb := s.nodememb.take l } with
      nodelist := s.nodelist.erase l ++ [l]
      numNodes := s.numNodes + 1 } with hu
    set t := writeNode dag child l lifetime u with ht
    have hlist : t.nodelist = s.nodelist ++ [l] := by
      show s.nodelist.erase l ++ [l] = _
      rw [erase_of_not_mem hnew]
    have hold : ∀ k ∈ s.nodelist, t.node k = s.node k := by
      intro k hk
      have hkl : k ≠ l := by
        rintro rfl
        exact hnew hk
      rw [ht, node_writeNode_of_ne hkl]
      exact update_of_ne hkl ..
    have hparentNew : t.parent l = none := by
      rw [ht, parent_writeNode]
      show (update s.nodememb.mem l _ l).parent = none
      rw [update_self]
    have hkeyNew : t.key l = (dag, child.linkIdentifier) := key_writeNode_self dag child l lifetime u
    have hkeyOld : ∀ k ∈ s.nodelist, t.key k = s.key k := by
      intro k hk
      rw [State.key, hold k hk]
      rfl
    have hcases : ∀ k ∈ t.nodelist, k ∈ s.nodelist ∨ k = l := by
      intro k hk
      rw [hlist, mem_append, mem_singleton] at hk
      exact hk
    have hmem : ∀ k ∈ s.nodelist, k ∈ t.nodelist := by
      intro k hk
      rw [hlist]
      exact mem_append_left _ hk
    have hlmem : l ∈ t.nodelist := by
      exact mem_append_right _ (mem_singleton_self l)
    have hclosed : Closed t := by
      refine ⟨?_, fun k hk p hkp => ?_, fun k hk p hkp => ?_, ?_⟩
      · have hperm : t.nodelist.Perm (l :: s.nodelist) := by
          rw [hlist]
          exact perm_append_comm
        have howns := h.owns.take_insert hfree hperm
        exact ⟨howns.nodup, howns.count_eq⟩
      · rcases hcases k hk with hk | rfl
        · rw [State.parent, hold k hk] at hkp
          exact hmem p (h.parents k hk p hkp)
        · rw [hparentNew] at hkp
          cases hkp
      · rcases hcases k hk with hk | rfl
        · rw [State.parent, hold k hk] at hkp
          rw [hold k hk, hold p (h.parents k hk p hkp)]
          exact h.dags k hk p hkp
        · rw [hparentNew] at hkp
          cases hkp
      · rw [hlist, length_append, length_singleton]
        show s.numNodes + 1 = _
        rw [h.numNodes]
        rfl
    have hlinked : ∀ k ∈ s.nodelist, (RplNs.linkNode dag child l parentNode t).parent k = s.parent k := by
      intro k hk
      have hkl : k ≠ l := by
        rintro rfl
        exact hnew hk
      have hset : ∀ q, (RplNs.setParent l q t).parent k = s.parent k := by
        intro q
        rw [parent_setParent, update_of_ne hkl, State.parent, hold k hk]
        rfl
      rw [RplNs.linkNode]
      split
      · split
        · exact hset parentNode
        · rw [parent_setParent, update_of_ne hkl]
          exact hset parentNode
      · exact hset parentNode
    show Updates dag s (some l, RplNs.linkNode dag child l parentNode t) ∧ (keys (RplNs.linkNode dag child l parentNode t) = _ ∨
      keys (RplNs.linkNode dag child l parentNode t) = _)
    refine ⟨⟨?_, ⟨?_, fun k hk => ?_, fun _ root k _ hk hr => ?_⟩, ?_⟩, .inr ?_⟩
    · refine hclosed.linkNode hlmem fun q hq => ⟨hmem q (hp q hq).1, ?_⟩
      rw [hold q (hp q hq).1, (hp q hq).2]
      exact (congrArg Prod.fst hkeyNew).symm
    · exact ⟨[l], by rw [nodelist_linkNode, hlist]⟩
    · rw [key_linkNode]
      exact hkeyOld k hk
    · exact hr.congr (P := (· ∈ s.nodelist)) hk (fun m p hm hmp => h.parents m hm p hmp) hlinked
    · intro k hk
      cases hk
      refine ⟨?_, ?_⟩
      · show l ∈ (RplNs.linkNode dag child l parentNode t).nodelist
        rw [nodelist_linkNode]
        exact hlmem
      · have := congrArg Prod.fst (congrFun (key_linkNode dag child l parentNode t) l)
        exact this.trans (congrArg Prod.fst hkeyNew)
    · rw [keys, nodelist_linkNode, key_linkNode, hlist, map_append, map_singleton, hkeyNew, keys,
        map_congr_left hkeyOld]

variable {childNode : Option (Fin c.linkNum)}

theorem Closed.updates_child (h : Closed s) (hp : ∀ q, parentNode = some q → q ∈ s.nodelist ∧ (s.node q).dag = dag)
    (hchild : ∀ l, childNode = some l → getNode s dag child = some l) :
    Updates dag s (updateFound dag child childNode parentNode lifetime s) := by
  cases childNode with
  | none => exact (h.updates_new hp).1
  | some l => exact (h.updates_found (hchild l rfl) hp).1

theorem Closed.updates (h : Closed s) (parent : Option IpAddr) :
    Closed (updateNode dag child parent lifetime s).2 ∧ Keeps s (updateNode dag child parent lifetime s).2 := by
  unfold updateNode
  cases parent with
  | none =>
    have hu : Updates dag s (updateFound dag child (getNode s dag child) none lifetime s) :=
      h.updates_child nofun (fun _ hl => hl)
    exact ⟨hu.closed, hu.keeps⟩
  | some p =>
    dsimp only
    cases hparent : getNode s dag p with
    | some q =>
      obtain ⟨hmem, hdag, -⟩ := getNode_some hparent
      have hu : Updates dag s (updateFound dag child (getNode s dag child) (some q) lifetime s) :=
        h.updates_child (fun k hk => by cases hk; exact ⟨hmem, hdag⟩) (fun _ hl => hl)
      exact ⟨hu.closed, hu.keeps⟩
    | none =>
      have hnew : Updates dag s (updateFound dag p none none 0xffffffff s) :=
        (h.updates_new fun _ hno => by cases hno).1
      cases hadd : updateFound dag p none none 0xffffffff s with
      | mk q t =>
        rw [hadd] at hnew
        cases q with
        | none => exact ⟨hnew.closed, hnew.keeps⟩
        | some q =>
          have hu : Updates dag t (updateFound dag child (getNode s dag child) (some q) lifetime t) :=
            hnew.closed.updates_child (fun k hk => by cases hk; exact hnew.node q rfl)
              fun l hl => hnew.keeps.getNode hl
          exact ⟨hu.closed, hnew.keeps.trans hu.keeps⟩

/-! ### Different nodes -/

/-- No node has the identifier of the address. -/
def NewKey (s : State c) (dag : c.Dag) (addr : IpAddr) : Prop := (dag, addr.linkIdentifier) ∉ keys s

/-- Which calls keep the nodes different and the pointers valid: an address that is not found has a new
    identifier, a child that is not found is not its own parent, and no node expires that has children. -/
def Allowed (s : State c) : Event c → Prop
  | .updateNode dag child parent _ =>
    (getNode s dag child = none → NewKey s dag child) ∧
      ∀ p ∈ parent, getNode s dag p = none → NewKey s dag p ∧
        (getNode s dag child = none → child.linkIdentifier ≠ p.linkIdentifier)
  | .expireParent _ _ _ => True
  | .periodic => ∀ l ∈ expired s, ∀ k ∈ s.nodelist, k ≠ l → s.parent k ≠ some l

theorem nodup_concat {α : Type} {l : List α} {a : α} (h : l.Nodup) (ha : a ∉ l) : (l ++ [a]).Nodup := by
  refine nodup_append.mpr ⟨h, nodup_singleton a, ?_⟩
  rintro x hx y hy rfl
  rw [mem_singleton] at hy
  exact ha (hy ▸ hx)

theorem Closed.nodup_child (h : Closed t) (hunique : (keys t).Nodup)
    (hp : ∀ q, parentNode = some q → q ∈ t.nodelist ∧ (t.node q).dag = dag)
    (hchild : ∀ l, childNode = some l → getNode t dag child = some l) (hnew : childNode = none → NewKey t dag child) :
    (keys (updateFound dag child childNode parentNode lifetime t).2).Nodup := by
  cases childNode with
  | some l =>
    rw [(h.updates_found (hchild l rfl) hp).2]
    exact hunique
  | none =>
    rcases (h.updates_new hp).2 with heq | heq
    · rw [heq]
      exact hunique
    · rw [heq]
      exact nodup_concat hunique (hnew rfl)

theorem Inv.updateNode (h : Inv s) {parent : Option IpAddr} (hok : Allowed s (.updateNode dag child parent lifetime))
    : Inv (updateNode dag child parent lifetime s).2 := by
  refine ⟨(h.closed.updates parent).1, ?_⟩
  obtain ⟨hchild, hparents⟩ := hok
  unfold RplNs.updateNode
  cases parent with
  | none => exact h.closed.nodup_child h.unique nofun (fun _ hl => hl) hchild
  | some p =>
    dsimp only
    cases hparent : getNode s dag p with
    | some q =>
      obtain ⟨hmem, hdag, -⟩ := getNode_some hparent
      exact h.closed.nodup_child h.unique (fun k hk => by cases hk; exact ⟨hmem, hdag⟩) (fun _ hl => hl) hchild
    | none =>
      obtain ⟨hnewp, hdiffer⟩ := hparents p rfl hparent
      have hnone : ∀ q : Fin c.linkNum, none = some q → q ∈ s.nodelist ∧ (s.node q).dag = dag :=
        nofun
      obtain ⟨hnew, hkeys⟩ := h.closed.updates_new hnone
      have hnodup : (keys (updateFound dag p none none 0xffffffff s).2).Nodup :=
        h.closed.nodup_child h.unique hnone nofun fun _ => hnewp
      cases hadd : updateFound dag p none none 0xffffffff s with
      | mk q t =>
        rw [hadd] at hnew hkeys hnodup
        cases q with
        | none => exact hnodup
        | some q =>
          refine hnew.closed.nodup_child hnodup (fun k hk => by cases hk; exact hnew.node q rfl)
            (fun l hl => hnew.keeps.getNode hl) fun hnot hin => ?_
          rcases hkeys with heq | heq
          · rw [heq] at hin
            exact hchild hnot hin
          · rw [heq, mem_append, mem_singleton] at hin
            rcases hin with hin | heq
            · exact hchild hnot hin
            · exact hdiffer hnot (Prod.mk.inj heq).2

/-! ### Expiry -/

/-- Only lifetimes differ. -/
structure SameNodes (s t : State c) : Prop where
  count : t.nodememb.count = s.nodememb.count
  nodelist : t.nodelist = s.nodelist
  numNodes : t.numNodes = s.numNodes
  parent : t.parent = s.parent
  key : t.key = s.key

theorem SameNodes.inv (hsame : SameNodes s t) (h : Inv s) : Inv t := by
  have hdag : ∀ l, (t.node l).dag = (s.node l).dag := fun l => congrArg Prod.fst (congrFun hsame.key l)
  refine ⟨⟨⟨?_, fun i => ?_⟩, fun l hl p hp => ?_, fun l hl p hp => ?_, ?_⟩, ?_⟩
  · rw [hsame.nodelist]
    exact h.closed.owns.nodup
  · rw [hsame.count, hsame.nodelist]
    exact h.closed.owns.count_eq i
  · rw [hsame.nodelist] at hl ⊢
    rw [hsame.parent] at hp
    exact h.closed.parents l hl p hp
  · rw [hsame.nodelist] at hl
    rw [hsame.parent] at hp
    rw [hdag, hdag]
    exact h.closed.dags l hl p hp
  · rw [hsame.numNodes, hsame.nodelist]
    exact h.closed.numNodes
  · rw [keys, hsame.nodelist, hsame.key]
    exact h.unique

theorem sameNodes_lifetime (l : Fin c.linkNum) (lifetime : UInt32) (s : State c) :
    SameNodes s (modifyNode l (fun n => { n with lifetime := lifetime }) s) := by
  have hnode : ∀ k, ((modifyNode l (fun n => { n with lifetime := lifetime }) s).node k).parent =
      (s.node k).parent ∧ (modifyNode l (fun n => { n with lifetime := lifetime }) s).key k = s.key k := by
    intro k
    by_cases hk : k = l
    · subst hk
      have hself : (modifyNode k (fun n => { n with lifetime := lifetime }) s).node k =
        { s.node k with lifetime := lifetime } := update_self ..
      rw [State.key, hself]
      exact ⟨rfl, rfl⟩
    · have hother : (modifyNode l (fun n => { n with lifetime := lifetime }) s).node k = s.node k :=
        update_of_ne hk ..
      rw [State.key, hother]
      exact ⟨rfl, rfl⟩
  exact ⟨rfl, rfl, rfl, funext fun k => (hnode k).1, funext fun k => (hnode k).2⟩

theorem sameNodes_expireParent (dag : c.Dag) (child parent : IpAddr) (s : State c) :
    SameNodes s (expireParent dag child parent s) := by
  have hsame : SameNodes s s := ⟨rfl, rfl, rfl, rfl, rfl⟩
  rw [expireParent]
  split
  · exact hsame
  · split
    · exact hsame
    · split
      · exact sameNodes_lifetime _ _ s
      · exact hsame

theorem sameNodes_age (s : State c) : SameNodes s (age s) := by
  have hnode : ∀ k, ((age s).node k).parent = (s.node k).parent ∧ (age s).key k = s.key k := by
    intro k
    have hk : (age s).node k = if k ∈ s.nodelist ∧ (s.node k).lifetime ≠ 0xffffffff ∧ 0 < (s.node k).lifetime
      then { s.node k with lifetime := (s.node k).lifetime - 1 } else s.node k := rfl
    rw [State.key, hk]
    split
    · exact ⟨rfl, rfl⟩
    · exact ⟨rfl, rfl⟩
  exact ⟨rfl, rfl, rfl, funext fun k => (hnode k).1, funext fun k => (hnode k).2⟩

theorem Inv.periodic (h : Inv s) (hok : Allowed s .periodic) : Inv (periodic s) := by
  have hage := (sameNodes_age s).inv h
  have hsame := sameNodes_age s
  rw [RplNs.periodic]
  cases hexp : expired s with
  | none => exact hage
  | some l =>
    have hl : l ∈ s.nodelist := mem_of_find?_eq_some hexp
    have hfree := hok l hexp
    have hpos := length_pos_of_mem hl
    refine ⟨⟨?_, fun k hk p hp => ?_, fun k hk p hp => ?_, ?_⟩, ?_⟩
    · exact hage.closed.owns.free_erase (perm_cons_erase hl)
    · have hparent : (age s).parent k = some p := hp
      rw [hsame.parent] at hparent
      obtain ⟨hne, hmem⟩ := (List.Nodup.mem_erase_iff h.closed.owns.nodup).mp hk
      refine (mem_erase_of_ne ?_).mpr (h.closed.parents k hmem p hparent)
      rintro rfl
      exact hfree k hmem hne hparent
    · exact hage.closed.dags k (mem_of_mem_erase hk) p hp
    · show s.numNodes - 1 = ((s.nodelist.erase l).length : Int)
      rw [h.closed.numNodes, length_erase_of_mem hl]
      omega
    · exact hage.unique.sublist (erase_sublist.map _)

/-! ### Runs -/

theorem Inv.step {e : Event c} (h : Inv s) (hok : Allowed s e) (hstep : step s e = some t) : Inv t := by
  cases e with
  | updateNode dag child parent lifetime =>
    cases hstep
    exact h.updateNode hok
  | expireParent dag child parent =>
    cases hstep
    exact (sameNodes_expireParent dag child parent s).inv h
  | periodic =>
    cases hstep
    exact h.periodic hok

theorem inv_init (dag : c.Dag) : Inv (init c dag) :=
  ⟨⟨Pool.owns_init _, nofun, nofun, rfl⟩, nodup_nil⟩

/-- What the topology is to have in every state. -/
structure Consistent (s : State c) : Prop where
  parents : ∀ l ∈ s.nodelist, ∀ p, s.parent l = some p → p ∈ s.nodelist
  unique : ∀ l ∈ s.nodelist, ∀ k ∈ s.nodelist, s.key l = s.key k → l = k
  length : s.numNodes = s.nodelist.length
  allocated : s.numNodes = (Finset.univ.filter fun l => s.nodememb.count l ≠ 0).card

theorem Inv.consistent (h : Inv s) : Consistent s where
  parents := h.closed.parents
  unique l hl k hk heq := inj_on_of_nodup_map h.unique hl hk heq
  length := h.closed.numNodes
  allocated := by
    have hset : (Finset.univ.filter fun l => s.nodememb.count l ≠ 0) = s.nodelist.toFinset := by
      ext l
      rw [Finset.mem_filter, h.closed.owns.count_eq, mem_toFinset]
      by_cases hl : l ∈ s.nodelist <;> simp [hl]
    rw [hset, toFinset_card_of_nodup h.closed.owns.nodup]
    exact h.closed.numNodes

/-- Over every sequence of allowed calls the topology is consistent, and no update at all cuts off a node. -/
theorem graph_consistent {dag₀ : c.Dag} {es : List (Event c)} {s : State c}
    (hrun : Run step Allowed (init c dag₀) es s) :
    Consistent s ∧
    ∀ dag child parent lifetime dag' addr, isNodeReachable s dag' addr = true →
      isNodeReachable (updateNode dag child parent lifetime s).2 dag' addr = true := by
  have hinv := hrun.invariant (P := Inv) (fun _ _ _ h hok hstep => h.step hok hstep) (inv_init dag₀)
  exact ⟨hinv.consistent, fun dag child parent lifetime dag' addr hr =>
    (hinv.closed.updates parent).2.isNodeReachable hr⟩

/-! ### Topologies -/

instance (s : State c) (dag : c.Dag) (addr : IpAddr) : Decidable (NewKey s dag addr) :=
  inferInstanceAs (Decidable (_ ∉ _))

instance (s : State c) : (e : Event c) → Decidable (Allowed s e)
  | .updateNode _ _ parent _ => @instDecidableAnd _ _ inferInstance (Option.decidableForallMem parent)
  | .expireParent _ _ _ => .isTrue trivial
  | .periodic => inferInstanceAs (Decidable (∀ l ∈ expired s, ∀ k ∈ s.nodelist, k ≠ l → s.parent k ≠ some l))

/-- One DAG, with addresses that end in different bytes. -/
def addrEnding (i : UInt8) : IpAddr := fun j => if j.val = 15 then i else 0
def oneDag : Config := ⟨Unit, inferInstance, fun _ => addrEnding 1, 4⟩

/-- A line of three nodes, whose middle expires when its child has moved to the root. -/
def movedChild : List (Event oneDag) :=
  [.updateNode () (addrEnding 2) (some (addrEnding 1)) 2, .updateNode () (addrEnding 3) (some (addrEnding 2)) 9,
    .periodic, .updateNode () (addrEnding 3) (some (addrEnding 1)) 9, .periodic]

theorem graph_consistent_movedChild : ∃ s : State oneDag, Run step Allowed (init oneDag ()) movedChild s ∧
    s.nodelist.length = 2 ∧ isNodeReachable s () (addrEnding 3) = true ∧ Consistent s := by
  obtain ⟨s, hrun, hs⟩ : ∃ s : State oneDag, Run step Allowed (init oneDag ()) movedChild s ∧ _ :=
    exists_run (fun s e => decide (Allowed s e)) (fun s : State oneDag =>
      decide (s.nodelist.length = 2 ∧ isNodeReachable s () (addrEnding 3) = true))
      (fun _ _ => of_decide_eq_true) (by decide)
  have hs := of_decide_eq_true hs
  exact ⟨s, hrun, hs.1, hs.2, (graph_consistent hrun).1⟩

/-- A node expires while it is the parent of another. -/
def expiredParent : List (Event oneDag) :=
  [.updateNode () (addrEnding 2) (some (addrEnding 1)) 1, .updateNode () (addrEnding 3) (some (addrEnding 2)) 9,
    .periodic]

/-- A child that is its own parent, and is not known. -/
def ownParent : List (Event oneDag) := [.updateNode () (addrEnding 2) (some (addrEnding 2)) 9]

theorem expired_parent_dangles :
    (∃ s : State oneDag,
       Run step (fun _ _ => True) (init oneDag ()) expiredParent s ∧
       (∃ l ∈ s.nodelist, ∃ p, s.parent l = some p ∧ p ∉ s.nodelist) ∧
       ¬Consistent s) ∧
    ∃ s : State oneDag,
      Run step (fun _ _ => True) (init oneDag ()) ownParent s ∧
      (∃ l ∈ s.nodelist, ∃ k ∈ s.nodelist, l ≠ k ∧ s.key l = s.key k) ∧
      ¬Consistent s := by
  constructor
  · obtain ⟨s, hrun, hs⟩ : ∃ s : State oneDag, Run step (fun _ _ => True) (init oneDag ()) expiredParent s ∧ _ :=
      exists_run (fun _ _ => true) (fun s : State oneDag =>
        decide (∃ l ∈ s.nodelist, ∃ p, s.parent l = some p ∧ p ∉ s.nodelist)) (fun _ _ _ => trivial)
        (by decide)
    obtain ⟨l, hl, p, hp, hno⟩ := of_decide_eq_true hs
    exact ⟨s, hrun, ⟨l, hl, p, hp, hno⟩, fun h => hno (h.parents l hl p hp)⟩
  · obtain ⟨s, hrun, hs⟩ : ∃ s : State oneDag, Run step (fun _ _ => True) (init oneDag ()) ownParent s ∧ _ :=
      exists_run (fun _ _ => true) (fun s : State oneDag =>
        decide (∃ l ∈ s.nodelist, ∃ k ∈ s.nodelist, l ≠ k ∧ s.key l = s.key k)) (fun _ _ _ => trivial)
        (by decide)
    obtain ⟨l, hl, k, hk, hne, heq⟩ := of_decide_eq_true hs
    exact ⟨s, hrun, ⟨l, hl, k, hk, hne, heq⟩, fun h => hne (h.unique l hl k hk heq)⟩

end CSync.RplNs
