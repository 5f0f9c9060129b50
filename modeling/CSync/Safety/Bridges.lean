import CSync.Node.Steps

/-! How a cluster head reads the declaration of a bridge.

    A bridge announces the sum of the addresses of its first two heads, and a head that hears it takes
    its own address out of the sum. For the first two heads of the bridge that leaves the address of
    the other one. A bridge can have up to `NUM_CH_MAX` heads, and all of them hear it. -/

namespace CSync

open Lib List

section
variable {N : Nat} {p : Pool N Chb} {l : List (Fin N)} {ch : Chb}

theorem allocInsert_entry (position : Nat) {j : Fin N} (hj : j ∈ (allocInsert p l ch position).2) : (allocInsert p l
    ch position).1.mem j = ch ∨ j ∈ l ∧ (allocInsert p l ch position).1.mem j = p.mem j := by
  rw [allocInsert, Pool.alloc] at hj ⊢
  cases hfree : p.freeBlock with
  | none =>
    rw [hfree] at hj
    exact .inr ⟨hj, rfl⟩
  | some i =>
    rw [hfree] at hj
    by_cases hji : j = i
    · left
      subst hji
      simp [Pool.modify]
    · right
      refine ⟨(mem_cons.mp (insertAt_subset i position l hj)).resolve_left hji, ?_⟩
      simp [Pool.modify, hji]

theorem Handled.entry {r : Pool N Chb × List (Fin N)} (hr : Handled p l ch r) {j : Fin N}
    (hj : j ∈ r.2) : r.1.mem j = ch ∨ j ∈ l ∧ r.1.mem j = p.mem j := by
  cases hr with
  | same => exact .inr ⟨hj, rfl⟩
  | insert => exact allocInsert_entry _ hj
  | replace =>
    have hchop : ∀ k, (chopFree p l).1.mem k = p.mem k ∧ (k ∈ (chopFree p l).2 → k ∈ l) := by
      intro k
      rw [chopFree]
      cases l.getLast? with
      | none => exact ⟨rfl, id⟩
      | some i => exact ⟨rfl, mem_of_mem_dropLast⟩
    rcases allocInsert_entry _ hj with hnew | ⟨hmem, hold⟩
    · exact .inl hnew
    · exact .inr ⟨(hchop j).2 hmem, hold.trans (hchop j).1⟩

end

/-- A head that enters a bridge in the connection declaration stores the announced address less its own. -/
theorem handleLists_bridge {R : Type} {cl : Cluster} {a : UInt16} {d : UInt8} {value : AnnouncementValue R}
    {n : Neighbour R} (hrole : cl.role = .ch) (hnew : cl.hasBridge n.addr = false) {cb : Chb}
    (hcb : cb ∈ (handleLists cl .connectionDeclaration a d value n).2.bridges) (haddr : cb.addr = n.addr) :
    cb.nChbAddrA = value.refAddr - a := by
  have hspec := handleLists_spec cl .connectionDeclaration a d value n
  generalize (handleLists cl .connectionDeclaration a d value n).2 = cl' at hspec hcb
  have hold : ∀ x ∈ cl.bridges, x.addr ≠ n.addr := by
    intro x hx heq
    refine absurd hnew ?_
    rw [Cluster.hasBridge, Bool.not_eq_false]
    exact any_eq_true.mpr ⟨x, hx, beq_iff_eq.mpr heq⟩
  cases hspec with
  | heads hst => exact absurd hst (by decide)
  | none => exact absurd haddr (hold cb hcb)
  | bridges _ hr =>
    obtain ⟨j, hj, rfl⟩ := mem_map.mp hcb
    rcases hr.lists.entry hj with hentry | ⟨hmem, hentry⟩
    · -- the entry is made with the role of a head
      rw [hentry, hr.stays (.inr rfl), hrole]
      rfl
    · refine absurd haddr (hold _ ?_)
      rw [hentry]
      exact mem_map_of_mem hmem

/-! ### Decoding -/

/-- The head at address `a` of a bridge with the heads `h₁ :: h₂ :: rest` finds another of its heads:
    it is one of the first two, or the sum of their addresses is that of its own and a further one. -/
def Decodes (h₁ h₂ : Chb) (rest : List Chb) (a : UInt16) : Prop :=
  h₁.addr ≠ h₂.addr ∧ (a = h₁.addr ∨ a = h₂.addr) ∨
    ∃ m ∈ rest, m.addr ≠ a ∧ h₁.addr + h₂.addr = a + m.addr

theorem decodes_iff (h₁ h₂ : Chb) (rest : List Chb) (a : UInt16) : (∃ m ∈ h₁ :: h₂ :: rest, m.addr = h₁.addr + h₂.addr
    - a ∧ m.addr ≠ a) ↔ Decodes h₁ h₂ rest a := by
  constructor
  · rintro ⟨m, hm, heq, hne⟩
    rcases mem_cons.mp hm with rfl | hm
    · exact .inl ⟨by grind, .inr (by grind)⟩
    · rcases mem_cons.mp hm with rfl | hm
      · exact .inl ⟨by grind, .inl (by grind)⟩
      · exact .inr ⟨m, hm, hne, by grind⟩
  · rintro (⟨hne, rfl | rfl⟩ | ⟨m, hm, hne, heq⟩)
    · exact ⟨h₂, mem_cons_of_mem _ mem_cons_self, by grind, hne.symm⟩
    · exact ⟨h₁, mem_cons_self, by grind, hne⟩
    · exact ⟨m, mem_cons_of_mem _ (mem_cons_of_mem _ hm), by grind, hne⟩

namespace Node

variable {R : Type} [SoftDouble R]
variable {s : Node R} {v : AnnouncementValue R}

/-- What a bridge declares in the connection declaration: the sums it has stored. -/
theorem connectionDeclaration_value (hout : s.out = [])
    {rt0 : Rtimer} (h : .bump .declaration v rt0 ∈ s.caseConnectionDeclaration.out) :
    v.instr = s.myState.code ∧ v.degree = s.refNChbDegree ∧ v.refAddr = s.refNChbAddr := by
  revert h
  refine ifScheduled_out (P := fun t : Node R => .bump .declaration v rt0 ∈ t.out → _)
    (fun tm _ _ _ => ?_) fun tm _ _ h => ?_
  · dsimp only
    split
    · intro h
      simp [radio, emit, hout] at h
    · intro h
      simp [announce, addAndBump, bump, noteDate, emit, mapAnn, hout] at h
      obtain ⟨rfl, -⟩ := h
      exact ⟨rfl, rfl, rfl⟩
    · intro h
      simp [hout] at h
  · simp [hout] at h

/-- A step in which a bridge bumps its connection declaration `v`, with the sums over its first two heads stored. -/
structure Declares (b : Node R) (e : Event R) (v : AnnouncementValue R) (h₁ h₂ : Chb)
    (rest : List Chb) : Prop where
  role : b.cl.role = .cb
  phase : b.myState = .connectionDeclaration
  pc : b.pc = .phase
  heads : b.cl.heads = h₁ :: h₂ :: rest
  addr : b.refNChbAddr = h₁.addr + h₂.addr
  degree : b.refNChbDegree = h₁.degree + h₂.degree
  act : e.act = .process
  bumps : ∃ b' rt0, b.step e = some b' ∧ .bump .declaration v rt0 ∈ b'.out

theorem Declares.value {b : Node R} {e : Event R} {h₁ h₂ : Chb} {rest : List Chb} (h : Declares b e v h₁ h₂ rest) :
    v.instr = St.connectionDeclaration.code ∧ v.degree = h₁.degree + h₂.degree ∧ v.refAddr = h₁.addr + h₂.addr := by
  obtain ⟨b', rt0, hstep, hmem⟩ := h.bumps
  have hne : arms b.myState ≠ [] := by rw [h.phase]; decide
  rw [step_process h.act hstep, resume_phase (s := { b.prepare e with polled := false }) h.pc hne, phaseSwitch] at hmem
  dsimp only [prepare] at hmem
  rw [h.phase] at hmem
  have hvalue := connectionDeclaration_value rfl hmem
  refine ⟨hvalue.1, hvalue.2.1.trans h.degree, hvalue.2.2.trans h.addr⟩

/-- A step in which a cluster head hears the declaration `v` of the bridge `b` and enters it in `CBs_list`. -/
structure EntersBridge (b : Node R) (v : AnnouncementValue R) (r : Node R) (e : Event R)
    (r' : Node R) : Prop where
  role : r.cl.role = .ch
  phase : r.myState = .connectionDeclaration
  hears : ∃ rx t n, e.act = .heard .declaration v rx ∧ rx.sender = b.myAddr ∧
    (r.prepare e).hears v rx = some (t, n)
  step : r.step e = some r'
  before : r.cl.hasBridge b.myAddr = false
  behind : r'.cl.hasBridge b.myAddr = true

theorem declarationMessage_bridges {value : AnnouncementValue R} {n : Neighbour R}
    (hst : s.myState = .connectionDeclaration) (hinstr : value.instr = St.connectionDeclaration.code)
    (hrole : s.cl.role = .ch) :
    (s.declarationMessage value n).cl =
      (CSync.handleLists s.cl .connectionDeclaration s.myAddr s.nb.myDegree value n).2 := by
  rw [declarationMessage, hst]
  dsimp only
  rw [if_pos ⟨hinstr, hrole⟩, ← hst]
  rfl

theorem EntersBridge.entry {b r r' : Node R} {e : Event R}
    (h : EntersBridge b v r e r') (hinstr : v.instr = St.connectionDeclaration.code) :
    ∀ cb ∈ r'.cl.bridges, cb.addr = b.myAddr → cb.nChbAddrA = v.refAddr - r.myAddr := by
  obtain ⟨rx, t, n, hact, hsender, hears⟩ := h.hears
  have hn : n.addr = b.myAddr := (hears_entry hears).1.trans hsender
  intro cb hcb haddr
  rw [step_heard hact h.step, heard, receivedDeclarationAnnouncement, whenSynced_of_hears hears] at hcb
  obtain ⟨nb, tm, an, -, -, rfl⟩ := received_of_hears hears
  rw [declarationMessage_bridges (s := { r.prepare e with nb := nb, tm := tm, an := an }) h.phase
    hinstr h.role] at hcb
  exact handleLists_bridge h.role (hn ▸ h.before) hcb (haddr.trans hn.symm)

/-- BRIDGES: a head of a bridge that enters it finds another head of the bridge in the declaration
    exactly if it is one of the first two or the sums happen to agree. -/
theorem bridge_declaration_decoded (b : Node R) (e : Event R) (v : AnnouncementValue R) (h₁ h₂ : Chb)
    (rest : List Chb) (r : Node R) (e' : Event R) (r' : Node R) (hdecl : Declares b e v h₁ h₂ rest)
    (henter : EntersBridge b v r e' r') :
    (∀ cb ∈ r'.cl.bridges, cb.addr = b.myAddr → ∃ m ∈ b.cl.heads, m.addr = cb.nChbAddrA ∧ m.addr ≠ r.myAddr) ↔
      Decodes h₁ h₂ rest r.myAddr := by
  obtain ⟨hinstr, -, href⟩ := hdecl.value
  have hentry := henter.entry hinstr
  rw [← decodes_iff, ← hdecl.heads]
  constructor
  · intro hall
    obtain ⟨cb, hcb, haddr⟩ := any_eq_true.mp henter.behind
    have haddr' := beq_iff_eq.mp haddr
    obtain ⟨m, hm, heq, hne⟩ := hall cb hcb haddr'
    refine ⟨m, hm, ?_, hne⟩
    rw [heq, hentry cb hcb haddr', href]
  · rintro ⟨m, hm, heq, hne⟩ cb hcb haddr
    refine ⟨m, hm, ?_, hne⟩
    rw [heq, hentry cb hcb haddr, href]

/-! ### Concrete runs -/

/-- Node 78 is a bridge of 72, 45 and 44; its timer of the connection declaration has fired. -/
def threeHeadsRun : List (Event Rat) :=
  threeNeighboursRun ++ tickAt 414572 ++ [eventAt 571858 .timer]

/-- A head that knows node 78, up to the connection declaration. -/
def headRun : List (Event Rat) :=
  oneNeighbourRun 78 3 ++ [100000, 257286, 414572, 571858].flatMap tickAt

def declaration78 : AnnouncementValue Rat := ⟨8, 10, 1, 729144, 117, 1⟩

/-- Its heads, in the order of its list. -/
def head72 : Chb := ⟨72, 5, 0, 72, 0⟩
def head45 : Chb := ⟨45, 5, 0, 45, 0⟩
def head44 : Chb := ⟨44, 5, 0, 44, 0⟩

theorem threeHeads_declares : ∃ b : Node Rat, Run step (fun _ _ => True) (boot 78) threeHeadsRun b ∧ b.myAddr = 78 ∧
    Declares b (eventAt 571958 .process) declaration78 head72 head45 [head44] := by
  obtain ⟨b, hrun, hb⟩ : ∃ b, Run step (fun _ _ => True) (boot 78) threeHeadsRun b ∧ _ :=
    exists_run (fun _ _ => true) (fun b => b.myAddr == 78 && b.cl.role == .cb &&
      b.myState == .connectionDeclaration && b.pc == .phase &&
      b.cl.heads == [head72, head45, head44] && b.refNChbAddr == 117 && b.refNChbDegree == 10 &&
      (b.step (eventAt 571958 .process)).any fun b' => b'.out.any fun o => match o with
        | .bump .declaration v _ => v == declaration78
        | _ => false) (fun _ _ _ => trivial) (by decide +kernel)
  simp only [Bool.and_eq_true, beq_iff_eq] at hb
  obtain ⟨⟨⟨⟨⟨⟨⟨haddr, hrole⟩, hst⟩, hpc⟩, hheads⟩, href⟩, hdeg⟩, hany⟩ := hb
  refine ⟨b, hrun, haddr, hrole, hst, hpc, hheads, href, hdeg, rfl, ?_⟩
  cases hstep : b.step (eventAt 571958 .process) with
  | none => rw [hstep] at hany; cases hany
  | some b' =>
    rw [hstep] at hany
    obtain ⟨o, ho, hv⟩ := any_eq_true.mp hany
    split at hv
    next v rt0 =>
      rw [beq_iff_eq] at hv
      subst hv
      exact ⟨b', rt0, rfl, ho⟩
    · cases hv

/-- The step in which a head hears it. -/
def hearsDeclaration78 : Event Rat := hearsAt 580000 78 .declaration 8 10 1 729144 117

theorem headRun_enters {b : Node Rat} (hb : b.myAddr = 78) (a x : UInt16)
    (h : (exec step (fun _ _ => true) (boot a) headRun).any
        (fun r => r.myAddr == a && r.cl.role == .ch && r.myState == .connectionDeclaration && !r.cl.hasBridge 78 &&
          ((r.prepare hearsDeclaration78).hears declaration78
            ⟨78, 65500, 0, 579995, fineMax, 1, 0, 100, 101, 100, 101, 1⟩).isSome && (r.step hearsDeclaration78).any
              fun r' => r'.cl.hasBridge 78 && r'.cl.bridges.any fun cb => cb.addr == 78 && cb.nChbAddrA == x) =
        true) :
    ∃ r r' : Node Rat,
      Run step (fun _ _ => True) (boot a) headRun r ∧
      r.myAddr = a ∧
      EntersBridge b declaration78 r hearsDeclaration78 r' ∧
      ∃ cb ∈ r'.cl.bridges, cb.addr = b.myAddr ∧ cb.nChbAddrA = x := by
  obtain ⟨r, hrun, hr⟩ : ∃ r, Run step (fun _ _ => True) (boot a) headRun r ∧ _ :=
    exists_run (fun _ _ => true) _ (fun _ _ _ => trivial) h
  simp only [Bool.and_eq_true, beq_iff_eq, Bool.not_eq_true'] at hr
  obtain ⟨⟨⟨⟨⟨haddr, hrole⟩, hst⟩, hbefore⟩, hsome⟩, hany⟩ := hr
  obtain ⟨⟨t, n⟩, hears⟩ := Option.isSome_iff_exists.mp hsome
  cases hstep : r.step hearsDeclaration78 with
  | none => rw [hstep] at hany; cases hany
  | some r' =>
    rw [hstep] at hany
    obtain ⟨hbehind, hentry⟩ := Bool.and_eq_true_iff.mp hany
    obtain ⟨cb, hcb, hx⟩ := any_eq_true.mp hentry
    rw [Bool.and_eq_true, beq_iff_eq, beq_iff_eq] at hx
    refine ⟨r, r', hrun, haddr, ⟨hrole, hst, ⟨_, t, n, rfl, hb.symm, hears⟩, hstep, ?_, ?_⟩, cb, hcb, ?_, hx.2⟩
    · rw [hb]
      exact hbefore
    · rw [hb]
      exact hbehind
    · rw [hb]
      exact hx.1

/-- Head 45, the second on the list of 78, finds head 72. -/
theorem bridge_declaration_decoded_second :
    ∃ b r r' : Node Rat,
      Declares b (eventAt 571958 .process) declaration78 head72 head45 [head44] ∧
      EntersBridge b declaration78 r hearsDeclaration78 r' ∧
      r.myAddr = 45 ∧
      ∀ cb ∈ r'.cl.bridges, cb.addr = b.myAddr → ∃ m ∈ b.cl.heads, m.addr = cb.nChbAddrA ∧ m.addr ≠ r.myAddr := by
  obtain ⟨b, -, hb, hdecl⟩ := threeHeads_declares
  obtain ⟨r, r', -, haddr, henter, -⟩ := headRun_enters hb 45 72 (by decide +kernel)
  refine ⟨b, r, r', hdecl, henter, haddr, ?_⟩
  refine (bridge_declaration_decoded b _ _ head72 head45 [head44] r _ r' hdecl henter).mpr ?_
  rw [haddr]
  exact .inl ⟨by decide, .inr rfl⟩

/-- FAILS IN GENERAL: head 44, the third on the list of 78, stores 73, which is no head of 78. -/
theorem third_head_misreads : ¬ ∀ (b r r' : Node Rat) (fs gs : List (Event Rat)) (e e' : Event Rat)
    (v : AnnouncementValue Rat) (h₁ h₂ : Chb) (rest : List Chb),
    Run step (fun _ _ => True) (boot 78) fs b → Run step (fun _ _ => True) (boot 44) gs r →
    Declares b e v h₁ h₂ rest → EntersBridge b v r e' r' →
    (∃ h ∈ b.cl.heads, h.addr = r.myAddr) → ∀ cb ∈ r'.cl.bridges, cb.addr = b.myAddr →
      ∃ m ∈ b.cl.heads, m.addr = cb.nChbAddrA ∧ m.addr ≠ r.myAddr := by
  intro hall
  obtain ⟨b, hrun, hb, hdecl⟩ := threeHeads_declares
  obtain ⟨r, r', hrun', haddr, henter, cb, hcb, hcaddr, hx⟩ := headRun_enters hb 44 73 (by decide +kernel)
  have hheads : ∃ h ∈ b.cl.heads, h.addr = r.myAddr := by
    rw [hdecl.heads, haddr]
    exact ⟨head44, by simp, rfl⟩
  obtain ⟨m, hm, heq, -⟩ := hall b r r' _ _ _ _ _ _ _ _ hrun hrun' hdecl henter hheads cb hcb hcaddr
  rw [hdecl.heads] at hm
  rw [hx] at heq
  simp only [mem_cons, not_mem_nil, or_false] at hm
  rcases hm with rfl | rfl | rfl <;> cases heq

end Node

end CSync
