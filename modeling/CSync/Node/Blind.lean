import CSync.Node.Rules
import CSync.Node.OffTable

/-! Two runs of a node that differ in what one sender says.

    What a message of the sender `x` carries ends up in the clock fields of the entry of `x`, and in
    the synchronization phase nothing reads these but the treatment of the sender's own messages. Two
    nodes are alike but for `x` if they differ in these fields only. The thread and the timer never
    read the clock fields of an entry, so they keep two nodes alike; a message keeps them alike in the
    synchronization phase, if its sender is another or is ignored. -/

namespace CSync

open Lib

variable {R : Type}

/-! ### Entries -/

/-- Two entries that differ at most in the clock fields and the state, and there only if they are those of `x`. -/
structure Alike (x : UInt16) (n n' : Neighbour R) : Prop where
  addr_eq : n'.addr = n.addr
  degree_eq : n'.degree = n.degree
  role_eq : n'.role = n.role
  synced_eq : n'.synced = n.synced
  same : n.addr ≠ x → n' = n

theorem Alike.refl (x : UInt16) (n : Neighbour R) : Alike x n n := ⟨rfl, rfl, rfl, rfl, fun _ => rfl⟩

structure AlikeMemb (x : UInt16) (m m' : Pool maxDegree (Neighbour R)) : Prop where
  count_eq : m'.count = m.count
  mem : ∀ i, Alike x (m.mem i) (m'.mem i)

theorem AlikeMemb.refl (x : UInt16) (m : Pool maxDegree (Neighbour R)) : AlikeMemb x m m :=
  ⟨rfl, fun i => Alike.refl x (m.mem i)⟩

variable {x : UInt16} {m m' : Pool maxDegree (Neighbour R)} {n n' : Neighbour R} {rx rx' : Reception R}
variable {state state' : UInt8}

theorem AlikeMemb.modify (h : AlikeMemb x m m') (i : Fin maxDegree) (f f' : Neighbour R → Neighbour R)
    (hf : Alike x (f (m.mem i)) (f' (m'.mem i))) : AlikeMemb x (m.modify i f) (m'.modify i f') := by
  refine ⟨h.count_eq, fun j => ?_⟩
  by_cases hj : j = i
  · subst hj
    simpa [Pool.modify] using hf
  · simpa [Pool.modify, hj] using h.mem j

theorem AlikeMemb.take (h : AlikeMemb x m m') (i : Fin maxDegree) : AlikeMemb x (m.take i) (m'.take i) := by
  refine ⟨?_, h.mem⟩
  rw [Pool.take, Pool.take, h.count_eq]

theorem AlikeMemb.freeBlock_eq (h : AlikeMemb x m m') : m'.freeBlock = m.freeBlock := by
  rw [Pool.freeBlock, Pool.freeBlock, h.count_eq]

variable [SoftDouble R]

section
omit [SoftDouble R]

theorem AlikeMemb.placing_eq {x : UInt16} {nb : NeighbourTable R}
    {m : Pool maxDegree (Neighbour R)} (h : AlikeMemb x nb.memb m) (a : UInt16) :
    csyncUpdatePlacing a { nb with memb := m } = csyncUpdatePlacing a nb := by
  simp only [csyncUpdatePlacing, (h.mem _).degree_eq, (h.mem _).addr_eq]

end

/-! ### Reception -/

theorem gtspRate_kept (n : Neighbour R) (a b c d : UInt32) : (gtspRate n a b c d).addr = n.addr ∧ (gtspRate n a b c
    d).degree = n.degree ∧ (gtspRate n a b c d).role = n.role ∧ (gtspRate n a b c d).synced = n.synced := by
  rw [gtspRate]
  split <;> exact ⟨rfl, rfl, rfl, rfl⟩

/-- `gtsp_recv` brings the own clock up to the present whatever the packet says, and writes what the
    packet says into the clock fields. -/
theorem gtspRecv_alike (h : Alike x n n') (tm : RtimerState R) (hrx : n.addr ≠ x → rx' = rx) : Alike x (gtspRecv tm n
    rx false).1 (gtspRecv tm n' rx' false).1 ∧ (gtspRecv tm n' rx' false).2 = (gtspRecv tm n rx false).2 := by
  have hkept : ∀ (k : Neighbour R) (r : Reception R), ∃ a b c d,
      (gtspRecv tm k r false).1.addr = (gtspRate k a b c d).addr ∧
      (gtspRecv tm k r false).1.degree = (gtspRate k a b c d).degree ∧
      (gtspRecv tm k r false).1.role = (gtspRate k a b c d).role ∧
      (gtspRecv tm k r false).1.synced = (gtspRate k a b c d).synced :=
    fun k r => ⟨_, _, _, _, rfl, rfl, rfl, rfl⟩
  obtain ⟨a, b, c, d, haddr, hdegree, hrole, hsynced⟩ := hkept n rx
  obtain ⟨a', b', c', d', haddr', hdegree', hrole', hsynced'⟩ := hkept n' rx'
  obtain ⟨ka, kd, kr, ks⟩ := gtspRate_kept n a b c d
  obtain ⟨ka', kd', kr', ks'⟩ := gtspRate_kept n' a' b' c' d'
  refine ⟨⟨?_, ?_, ?_, ?_, fun hne => ?_⟩, rfl⟩
  · rw [haddr, haddr', ka, ka', h.addr_eq]
  · rw [hdegree, hdegree', kd, kd', h.degree_eq]
  · rw [hrole, hrole', kr, kr', h.role_eq]
  · rw [hsynced, hsynced', ks, ks', h.synced_eq]
  · rw [haddr, ka] at hne
    rw [h.same hne, hrx hne]

/-- Two tables that are alike but for `x`. -/
def AlikeTable (x : UInt16) (nb nb' : NeighbourTable R) : Prop :=
  ∃ m, AlikeMemb x nb.memb m ∧ nb' = { nb with memb := m }

theorem gtspRecv_new (tm : RtimerState R) (rx : Reception R)
    (haddr : n'.addr = n.addr) (hdegree : n'.degree = n.degree) (hrole : n'.role = n.role)
    (hstate : n'.state = n.state) : gtspRecv tm n' rx true = gtspRecv tm n rx true := by
  obtain ⟨_, _, _, _, _, _, _, _, _, _, _, _, _⟩ := n
  obtain ⟨_, _, _, _, _, _, _, _, _, _, _, _, _⟩ := n'
  subst haddr hdegree hrole hstate
  simp only [gtspRecv, if_true]

theorem gtspRecv_new_kept (tm : RtimerState R) (n : Neighbour R) (rx : Reception R) :
    (gtspRecv tm n rx true).1.addr = n.addr ∧ (gtspRecv tm n rx true).1.degree = n.degree ∧
      (gtspRecv tm n rx true).1.role = n.role ∧ (gtspRecv tm n rx true).1.synced = false := by
  exact ⟨rfl, rfl, rfl, rfl⟩

theorem newNeighbour_alike (h : n'.degree = n.degree) (st : St) (hst : ¬ st.code < St.connectionDeclaration.code)
    (tm : RtimerState R) (addr : UInt16) (degree degree' : UInt8) (hsame : addr ≠ x → state' = state ∧ rx' = rx) :
    Alike x (newNeighbour st tm n addr state degree rx).1 (newNeighbour st tm n' addr state' degree' rx').1 ∧
    (newNeighbour st tm n' addr state' degree' rx').2 = (newNeighbour st tm n addr state degree rx).2 := by
  rw [newNeighbour, newNeighbour, if_neg hst, if_neg hst]
  obtain ⟨haddr, hdegree, hrole, hsynced⟩ := gtspRecv_new_kept tm
    { n with addr := addr, degree := n.degree, role := .cm, state := state } rx
  obtain ⟨haddr', hdegree', hrole', hsynced'⟩ := gtspRecv_new_kept tm
    { n' with addr := addr, degree := n'.degree, role := .cm, state := state' } rx'
  refine ⟨⟨?_, ?_, ?_, ?_, fun hne => ?_⟩, rfl⟩
  · exact haddr'.trans haddr.symm
  · exact hdegree'.trans (h.trans hdegree.symm)
  · exact hrole'.trans hrole.symm
  · exact hsynced'.trans hsynced.symm
  · obtain ⟨hstate, hrx⟩ := hsame fun he => hne (haddr.trans he)
    rw [hrx]
    exact congrArg Prod.fst (gtspRecv_new tm rx rfl h rfl hstate)

/-- In the synchronization phase a known neighbour's message changes its entry and the own clock. -/
theorem refreshNeighbour_sync (env : Env R) (tm : RtimerState R) (nb : NeighbourTable R)
    (i : Fin maxDegree) (state degree : UInt8) (rx : Reception R) :
    refreshNeighbour env .consensusSynchronization tm nb i state degree rx = ({ nb with
          memb := (nb.memb.modify i fun _ => (gtspRecv tm (nb.memb.mem i) rx false).1).modify i
            fun n => { n with state :=
              if state = discToErev ∨ state = convergenceProactive then state - 1 else state } },
        (gtspRecv tm (nb.memb.mem i) rx false).2) := by
  rw [refreshNeighbour, if_neg (by decide)]
  dsimp only
  rw [if_neg (by decide), if_neg (by rintro (⟨h, -⟩ | h) <;> exact absurd h (by decide))]

omit [SoftDouble R] in
theorem Alike.setState (h : Alike x n n') (hs : n.addr ≠ x → state' = state) :
    Alike x { n with state := state } { n' with state := state' } :=
  ⟨h.addr_eq, h.degree_eq, h.role_eq, h.synced_eq, fun hne => by rw [h.same hne, hs hne]⟩

variable {nb nb' : NeighbourTable R}

theorem refreshNeighbour_alike (h : AlikeTable x nb nb') (env : Env R)
    (tm : RtimerState R) (i : Fin maxDegree) (degree degree' : UInt8)
    (hsame : (nb.memb.mem i).addr ≠ x → state' = state ∧ rx' = rx) :
    AlikeTable x (refreshNeighbour env .consensusSynchronization tm nb i state degree rx).1
      (refreshNeighbour env .consensusSynchronization tm nb' i state' degree' rx').1 ∧
    (refreshNeighbour env .consensusSynchronization tm nb' i state' degree' rx').2 =
      (refreshNeighbour env .consensusSynchronization tm nb i state degree rx).2 := by
  obtain ⟨m, hm, rfl⟩ := h
  rw [refreshNeighbour_sync, refreshNeighbour_sync]
  obtain ⟨hrecv, hclock⟩ := gtspRecv_alike (hm.mem i) tm fun hne => (hsame hne).2
  have haddr : (gtspRecv tm (nb.memb.mem i) rx false).1.addr = (nb.memb.mem i).addr :=
    (gtspRate_kept (nb.memb.mem i) _ _ _ _).1
  have hentry := hm.modify i (fun _ => (gtspRecv tm (nb.memb.mem i) rx false).1)
    (fun _ => (gtspRecv tm (m.mem i) rx' false).1) hrecv
  refine ⟨⟨_, hentry.modify i (fun n => { n with state := _ }) (fun n => { n with state := _ })
    ((hentry.mem i).setState fun hne => ?_), rfl⟩, hclock⟩
  have hne' : (nb.memb.mem i).addr ≠ x := by
    rw [← haddr]
    simpa [Pool.modify] using hne
  rw [(hsame hne').1]

/-- The packets of two alike runs: the same, or both of `x`. -/
structure AlikePacket (x : UInt16) (value value' : AnnouncementValue R) (rx rx' : Reception R) :
    Prop where
  sender_eq : rx'.sender = rx.sender
  rssi_eq : rx'.rssi = rx.rssi
  same : rx.sender ≠ x → value' = value ∧ rx' = rx

/-- What `add_to_neighbour` gives in two alike runs. -/
def AlikeAdded (x : UInt16)
    (r r' : Option (Fin maxDegree) × NeighbourTable R × RtimerState R × Bool) : Prop :=
  r'.1 = r.1 ∧ AlikeTable x r.2.1 r'.2.1 ∧ r'.2.2 = r.2.2

theorem addToNeighbour_alike (h : AlikeTable x nb nb') (env : Env R) (a : UInt16)
    (tm : RtimerState R) {value value' : AnnouncementValue R} (hp : AlikePacket x value value' rx rx') :
    AlikeAdded x (addToNeighbour env a .consensusSynchronization tm nb rx.sender value.instr value.degree rx)
      (addToNeighbour env a .consensusSynchronization tm nb' rx'.sender value'.instr value'.degree rx') := by
  obtain ⟨m, hm, rfl⟩ := h
  have hlookup : ∀ (l : List (Fin maxDegree)) (q : UInt16 → Bool),
      l.find? (fun i => q (m.mem i).addr) = l.find? fun i => q (nb.memb.mem i).addr := by
    intro l q
    simp only [(hm.mem _).addr_eq]
  have hsame : ∀ addr, addr = rx.sender → addr ≠ x → value'.instr = value.instr ∧ rx' = rx := by
    rintro _ rfl hne
    obtain ⟨rfl, rfl⟩ := hp.same hne
    exact ⟨rfl, rfl⟩
  rw [addToNeighbour, addToNeighbour, hp.sender_eq]
  rw [hlookup nb.modList fun addr => addr == rx.sender && checkModNeighbours a addr,
    hlookup nb.list fun addr => addr == rx.sender, hm.freeBlock_eq]
  cases hmod : nb.modList.find? fun i =>
      (nb.memb.mem i).addr == rx.sender && checkModNeighbours a (nb.memb.mem i).addr with
  | some i =>
    have hi := List.find?_some hmod
    rw [Bool.and_eq_true, beq_iff_eq] at hi
    obtain ⟨htable, hclock⟩ := refreshNeighbour_alike ⟨m, hm, rfl⟩ env tm i value.degree value'.degree (hsame _ hi.1)
    rw [AlikeAdded]
    exact ⟨rfl, htable, Prod.ext hclock rfl⟩
  | none =>
    cases hlist : nb.list.find? fun i => (nb.memb.mem i).addr == rx.sender with
    | some i =>
      have hi : (nb.memb.mem i).addr = rx.sender := by simpa using List.find?_some hlist
      obtain ⟨hrecv, hclock⟩ := gtspRecv_alike (hm.mem i) tm fun hne => (hsame _ hi hne).2
      exact ⟨rfl, ⟨_, hm.modify i (fun _ => _) (fun _ => _) hrecv, rfl⟩, Prod.ext hclock rfl⟩
    | none =>
      cases nb.memb.freeBlock with
      | none => exact ⟨rfl, ⟨m, hm, rfl⟩, rfl⟩
      | some i =>
        obtain ⟨hnew, hclock⟩ := newNeighbour_alike (hm.mem i).degree_eq
          .consensusSynchronization (by decide) tm rx.sender value.degree value'.degree (hsame _ rfl)
        have hmemb := (hm.take i).modify i (fun _ => _) (fun _ => _) hnew
        dsimp only
        split
        · exact ⟨rfl, ⟨_, hmemb, rfl⟩, Prod.ext hclock rfl⟩
        · exact ⟨rfl, ⟨_, hmemb, rfl⟩, Prod.ext hclock rfl⟩

/-! ### The timer -/

namespace Node

/-- The same node with another pool of entries. -/
def withMemb (s : Node R) (m : Pool maxDegree (Neighbour R)) : Node R :=
  { s with nb := { s.nb with memb := m } }

/-- Two nodes that are alike but for `x`. -/
def Blind (x : UInt16) (s s' : Node R) : Prop :=
  ∃ m, AlikeMemb x s.nb.memb m ∧ s' = s.withMemb m

/-- `f` keeps two nodes alike. -/
def Keeps (x : UInt16) (f : Node R → Node R) : Prop := ∀ s s', Blind x s s' → Blind x (f s) (f s')

section
omit [SoftDouble R]
variable {x : UInt16}

theorem Blind.refl (s : Node R) : Blind x s s := ⟨s.nb.memb, AlikeMemb.refl x _, rfl⟩

variable {f g : Node R → Node R}

theorem OffTable.keeps (hf : OffTable f) : Keeps x f := by
  rintro s _ ⟨m, hm, rfl⟩
  have htable : f (s.withMemb m) = (f s).withTable { s.nb with memb := m } := hf s _ rfl
  rw [← hf.nb_eq s] at htable
  exact ⟨m, (hf.nb_eq s).symm ▸ hm, htable⟩

theorem Keeps.comp (hg : Keeps x g) (hf : Keeps x f) :
    Keeps x fun s => g (f s) := fun s s' h => hg (f s) (f s') (hf s s' h)

theorem Keeps.ite {p : Node R → Prop} [DecidablePred p]
    (hp : ∀ s m, p (s.withMemb m) ↔ p s) (hf : Keeps x f) (hg : Keeps x g) :
    Keeps x fun s => if p s then f s else g s := by
  intro s s' hs
  have hs' : p s' ↔ p s := by
    obtain ⟨m, -, rfl⟩ := hs
    exact hp s m
  dsimp only
  by_cases h : p s
  · rw [if_pos h, if_pos (hs'.mpr h)]
    exact hf s s' hs
  · rw [if_neg h, if_neg fun h' => h (hs'.mp h')]
    exact hg s s' hs

theorem Keeps.role {k : Node R → Node R} (hf : Keeps x f) (hg : Keeps x g) (hk : Keeps x k) :
    Keeps x fun s => match s.cl.role with
      | .cb => f s
      | .ch => g s
      | .cm => k s := by
  intro s s' hs
  have hcl : s'.cl = s.cl := by
    obtain ⟨m, -, rfl⟩ := hs
    rfl
  dsimp only
  rw [hcl]
  cases s.cl.role with
  | cb => exact hf s s' hs
  | ch => exact hg s s' hs
  | cm => exact hk s s' hs

theorem keeps_enterElectionDeclaration : Keeps x (enterElectionDeclaration (R := R)) := by
  rintro s _ ⟨m, hm, rfl⟩
  have hplacing : csyncUpdatePlacing s.myAddr (s.withMemb m).nb = csyncUpdatePlacing s.myAddr s.nb :=
    hm.placing_eq s.myAddr
  refine ⟨m, hm, ?_⟩
  change processPoll { setScheduleRef (politeSetInterval { mapAnn (politeCancel (withMemb s m))
    .revelation (·.removeValue) with myPlacing := csyncUpdatePlacing s.myAddr (s.withMemb m).nb }
    (4 * (csyncUpdatePlacing s.myAddr (s.withMemb m).nb).toUInt32)) with
      myState := .electionDeclaration } = _
  rw [hplacing]
  rfl

theorem offTable_enterConvergenceSlot : OffTable (enterConvergenceSlot (R := R)) := by
  intro s nb h
  rw [enterConvergenceSlot, enterConvergenceSlot]
  by_cases hs : s.politeCancel.myConsSlot < numConsSlots
  · rw [if_pos hs, if_pos (show (s.withTable nb).politeCancel.myConsSlot < numConsSlots from hs)]
    rfl
  · rw [if_neg hs, if_neg (show ¬ (s.withTable nb).politeCancel.myConsSlot < numConsSlots from hs)]
    rfl

theorem offTable_enterSynchronizationSlot : OffTable (enterSynchronizationSlot (R := R)) := by
  intro s nb h
  rw [enterSynchronizationSlot, enterSynchronizationSlot]
  by_cases hs : s.politeCancel.refNChbDegree ≤ numConsSlots
  · rw [if_pos hs, if_pos (show (s.withTable nb).politeCancel.refNChbDegree ≤ numConsSlots from hs)]
    rfl
  · rw [if_neg hs, if_neg (show ¬ (s.withTable nb).politeCancel.refNChbDegree ≤ numConsSlots from hs)]
    rfl

theorem keeps_call (f : Callback) : Keeps x fun s : Node R => s.call f := by
  cases f
  case enterElectionDeclaration => exact keeps_enterElectionDeclaration
  case enterConvergenceSlot => exact offTable_enterConvergenceSlot.keeps
  case enterSynchronizationSlot => exact offTable_enterSynchronizationSlot.keeps
  all_goals exact OffTable.keeps fun _ _ _ => rfl

/-- TIMER: it reads degrees and addresses only. -/
theorem keeps_fire : Keeps x (fire (R := R)) := by
  have hupdate : OffTable fun s : Node R => { s.setRt0State .justExpired with
    tm := rtimerLfUpdate (s.setRt0State .justExpired).tm } := fun _ _ _ => rfl
  have hinactive : OffTable fun s : Node R => s.setRt0State .inactive := fun _ _ _ => rfl
  have hcall : Keeps x fun s : Node R => s.tm.rt0.func.elim s fun func => s.call func := by
    intro s s' hs
    have htm : s'.tm = s.tm := by
      obtain ⟨m, -, rfl⟩ := hs
      rfl
    dsimp only
    rw [htm]
    cases s.tm.rt0.func with
    | none => exact hs
    | some f => exact keeps_call f s s' hs
  have heq : ∀ s : Node R, s.fire =
      (({ s.setRt0State .justExpired with tm := rtimerLfUpdate (s.setRt0State .justExpired).tm } : Node R).tm.rt0.func.elim
        { s.setRt0State .justExpired with tm := rtimerLfUpdate (s.setRt0State .justExpired).tm } fun func =>
          Node.call { s.setRt0State .justExpired with tm := rtimerLfUpdate (s.setRt0State .justExpired).tm } func
        ).setRt0State .inactive := by
    intro s
    rw [fire]
    cases (rtimerLfUpdate (s.setRt0State .justExpired).tm).rt0.func with
    | none => rfl
    | some f => rfl
  intro s s' hs
  rw [heq, heq]
  exact hinactive.keeps _ _ (hcall _ _ (hupdate.keeps s s' hs))

end

/-! ### Handlers in the synchronization phase -/

variable {x : UInt16}

omit [SoftDouble R] in
theorem AlikeMemb.shift {m m' : Pool maxDegree (Neighbour R)} (h : AlikeMemb x m m') (d : Int32) :
    ∀ l : List (Fin maxDegree),
      AlikeMemb x (l.foldl (fun m i => m.modify i fun n => { n with fineDiff := n.fineDiff - d }) m)
        (l.foldl (fun m i => m.modify i fun n => { n with fineDiff := n.fineDiff - d }) m') := by
  intro l
  induction l generalizing m m' with
  | nil => exact h
  | cons i l ih =>
    have hi := h.mem i
    exact ih (h.modify i _ _ ⟨hi.addr_eq, hi.degree_eq, hi.role_eq, hi.synced_eq, fun hne => by rw [hi.same hne]⟩)

theorem keeps_stepClock (d : Int32) : Keeps x fun s : Node R => s.stepClock d := by
  rintro s _ ⟨m, hm, rfl⟩
  exact ⟨_, AlikeMemb.shift hm d s.nb.modList, rfl⟩

theorem keeps_trustedSynchronization (n : Neighbour R) (cAddr : UInt16) (consRate : R) :
    Keeps x fun s : Node R => s.csyncTrustedSynchronization n cAddr consRate := by
  have hid : Keeps x fun s : Node R => s := fun _ _ h => h
  have hstep := keeps_stepClock (R := R) (x := x) n.fineDiff
  have hcm : Keeps x fun s : Node R => if n.addr ≠ headAddr s.env.nullAddr s.cl then s else
      (if s.myConsSlot = s.thisSyncSlot
        then { s with tm := { s.tm with avgRate := SoftDouble.mul consRate n.relativeRate } }
        else s).stepClock n.fineDiff :=
    Keeps.ite (fun _ _ => Iff.rfl) hid (hstep.comp
      (Keeps.ite (fun _ _ => Iff.rfl) (OffTable.keeps fun _ _ _ => rfl) hid))
  have hcb : Keeps x fun s : Node R => if s.cl.hasBridge n.addr then s else
      (if s.thisSyncSlot < s.myConsSlot then
        { s with
          myConsRate := consRateOf n.relativeRate s.tm.avgRate consRate
          tm := { s.tm with avgRate := SoftDouble.mul consRate n.relativeRate } }
        else s).stepClock n.fineDiff :=
    Keeps.ite (fun _ _ => Iff.rfl) hid (hstep.comp
      (Keeps.ite (fun _ _ => Iff.rfl) (OffTable.keeps fun _ _ _ => rfl) hid))
  have hslot : Keeps x fun s : Node R => if s.myConsSlot = s.thisSyncSlot then
      { s with tm := { s.tm with avgRate := SoftDouble.mul consRate n.relativeRate } }.stepClock n.fineDiff
      else if s.syncLcAddr ≠ s.myAddr ∧ s.syncLcAddr = cAddr then
        { s with tm := { s.tm with avgRate := SoftDouble.div (SoftDouble.add
          (SoftDouble.mul consRate n.relativeRate) s.tm.avgRate) (SoftDouble.ofNat 2) }
          }.stepClock n.fineDiff
      else s :=
    Keeps.ite (fun _ _ => Iff.rfl) (hstep.comp (OffTable.keeps fun _ _ _ => rfl))
      (Keeps.ite (fun _ _ => Iff.rfl) (hstep.comp (OffTable.keeps fun _ _ _ => rfl)) hid)
  have hrate : Keeps x fun s : Node R =>
      { s with myConsRate := consRateOf n.relativeRate s.tm.avgRate consRate } :=
    OffTable.keeps fun _ _ _ => rfl
  have hch : Keeps x fun s : Node R => if s.cl.bridges.any fun ch => n.addr != ch.addr then s else _ :=
    Keeps.ite (fun _ _ => Iff.rfl) hid (hslot.comp hrate)
  have hemit : Keeps x fun s : Node R =>
    s.emit (.trustedSynchronization n.addr n.fineDiff n.coarseDiff) := OffTable.keeps fun _ _ _ => rfl
  intro s s' hs
  have hs := hemit s s' hs
  dsimp only at hs ⊢
  rw [csyncTrustedSynchronization, csyncTrustedSynchronization]
  generalize s.emit (.trustedSynchronization n.addr n.fineDiff n.coarseDiff) = t at hs ⊢
  generalize s'.emit (.trustedSynchronization n.addr n.fineDiff n.coarseDiff) = t' at hs ⊢
  have hcl : t'.cl = t.cl := by
    obtain ⟨m, -, rfl⟩ := hs
    rfl
  rw [show t'.cl.role = t.cl.role from congrArg Cluster.role hcl]
  cases t.cl.role with
  | cm => exact hcm t t' hs
  | cb => exact hcb t t' hs
  | ch => exact hch t t' hs

omit [SoftDouble R] in
theorem keeps_accuse (n : Neighbour R) : Keeps x fun s : Node R => s.accuse n := OffTable.keeps fun _ _ _ => rfl

omit [SoftDouble R] in
theorem keeps_forwardAll (value : AnnouncementValue R) : Keeps x fun s : Node R => s.forwardAll value :=
  OffTable.keeps fun _ _ _ => rfl

omit [SoftDouble R] in
theorem keeps_setSyncBorder (b : UInt8) : Keeps x fun s : Node R => s.setSyncBorder b := OffTable.keeps fun _ _ _ => rfl

section
variable (value : AnnouncementValue R)
include value

theorem keeps_bridgeSynchronization (n : Neighbour R) :
    Keeps x fun s : Node R => s.bridgeSynchronization value n := by
  have htrust := (keeps_forwardAll value).comp ((keeps_setSyncBorder 1).comp
    (keeps_trustedSynchronization (x := x) n value.refAddr value.consRate))
  have hcancel : Keeps x fun s : Node R => (s.politeCancel.setSyncBorder 1).forwardAll value :=
    OffTable.keeps fun _ _ _ => rfl
  exact Keeps.ite (p := fun s => s.thisSyncSlot < s.myConsSlot) (fun _ _ => Iff.rfl)
    (Keeps.ite (p := fun _ => n.fineDiff < byzantineFineDiff ∧ n.coarseDiff < byzantineCoarseDiff)
      (fun _ _ => Iff.rfl) htrust (keeps_accuse n))
    (Keeps.ite (p := fun s => s.myConsSlot = s.thisSyncSlot) (fun _ _ => Iff.rfl)
      (Keeps.ite (p := fun _ => byzantineFineDiff < n.fineDiff ∨ byzantineCoarseDiff < n.coarseDiff)
        (fun _ _ => Iff.rfl) (keeps_accuse n) hcancel) (keeps_forwardAll value))

theorem keeps_byzantineMessage (n : Neighbour R) (threshold : Nat) :
    Keeps x fun s : Node R => s.byzantineMessage value n threshold := by
  have htrust := (keeps_forwardAll value).comp (keeps_trustedSynchronization (x := x) n value.refAddr value.consRate)
  have hcount : Keeps x fun s : Node R => { s with msgCount := s.msgCount + 1 } := OffTable.keeps fun _ _ _ => rfl
  have hend : Keeps x fun s : Node R => if threshold < s.msgCount.toNat
      then s.politeCancel.setSyncBorder 0 else s.enterByzantineConsensus :=
    Keeps.ite (fun _ _ => Iff.rfl) (OffTable.keeps fun _ _ _ => rfl) (OffTable.keeps fun _ _ _ => rfl)
  exact Keeps.ite (p := fun _ => byzantineFineDiff < n.fineDiff ∨ byzantineCoarseDiff < n.coarseDiff)
    (fun _ _ => Iff.rfl)
    (Keeps.ite (p := fun s => s.myConsSlot = s.thisSyncSlot) (fun _ _ => Iff.rfl)
      (hend.comp ((keeps_setSyncBorder 1).comp (htrust.comp hcount)))
      ((keeps_setSyncBorder 1).comp htrust)) fun _ _ h => h

theorem keeps_slotSynchronization (n : Neighbour R) :
    Keeps x fun s : Node R => s.slotSynchronization value n := by
  have htrust := keeps_trustedSynchronization (x := x) n value.refAddr value.consRate
  have hforward : Keeps x fun s : Node R => s.forwardDate value := OffTable.keeps fun _ _ _ => rfl
  have hbump : Keeps x fun s : Node R => (s.bump .synchronization).setSyncBorder 1 := OffTable.keeps fun _ _ _ => rfl
  have hch : Keeps x fun s : Node R => if s.thisSyncSlot = s.myConsSlot ∧ s.mySyncBorder = 0 then
      ((s.csyncTrustedSynchronization n value.refAddr value.consRate).bump .synchronization).setSyncBorder 1
      else s.csyncTrustedSynchronization n value.refAddr value.consRate :=
    Keeps.ite (fun _ _ => Iff.rfl) (hbump.comp htrust) htrust
  exact Keeps.role (keeps_bridgeSynchronization value n) (hch.comp hforward)
    (Keeps.ite (p := fun s => s.thisSyncSlot = s.myConsSlot) (fun _ _ => Iff.rfl)
      (htrust.comp hforward) fun _ _ h => h)

end

variable {value value' : AnnouncementValue R} {s s' : Node R} {rx rx' : Reception R}
variable {handle handle' : Node R → Neighbour R → Node R}

/-- The handler's part behind the reception, for an ignored sender or the same message of another. -/
theorem blind_synchronizationMessage {t t' : Node R} {n n' : Neighbour R} (h : Blind x t t') (hn : Alike x n n')
    (hst : t.myState = .consensusSynchronization) (hlisted : t.cl.blacklisted x = true) (threshold : Nat)
    (hsame : n.addr ≠ x → value' = value) :
    Blind x (t.synchronizationMessage value threshold n) (t'.synchronizationMessage value' threshold n') := by
  have heq : t'.myState = t.myState ∧ t'.cl = t.cl := by
    obtain ⟨m, -, rfl⟩ := h
    exact ⟨rfl, rfl⟩
  by_cases hx : n.addr = x
  · have hignored : ∀ (u : Node R) (k : Neighbour R) v, u.myState = .consensusSynchronization →
        u.cl.blacklisted k.addr = true → u.synchronizationMessage v threshold k = u := by
      intro u k v hu hk
      rw [synchronizationMessage, hu]
      dsimp only
      split
      · rfl
      · split <;> rfl
    rw [hignored t n value hst (hx ▸ hlisted),
      hignored t' n' value' (heq.1.trans hst) (by rw [hn.addr_eq, heq.2, hx]; exact hlisted)]
    exact h
  · rw [hn.same hx, hsame hx, synchronizationMessage, synchronizationMessage, heq.1, hst]
    have hunlisted : ∀ f : Node R → Node R, Keeps x f →
        Keeps x fun s => if s.cl.blacklisted n.addr then s else f s := fun f hf =>
      Keeps.ite (p := fun s => s.cl.blacklisted n.addr = true) (fun _ _ => Iff.rfl) (fun _ _ h => h) hf
    exact Keeps.ite (p := fun _ => value.instr = St.consensusSynchronization.code)
      (fun _ _ => Iff.rfl) (hunlisted _ (keeps_slotSynchronization value n))
      (Keeps.ite (p := fun _ => value.instr = St.byzantineConsensus.code) (fun _ _ => Iff.rfl)
        (hunlisted _ (keeps_byzantineMessage value n threshold)) fun _ _ h => h) t t' h

section
variable (h : Blind x s s')
include h

section

variable (hst : s.myState = .consensusSynchronization)
include hst

theorem blind_addNeighbour
    (hp : AlikePacket x value value' rx rx') : (s'.addNeighbour value' rx').1 = (s.addNeighbour value rx).1 ∧
      Blind x (s.addNeighbour value rx).2 (s'.addNeighbour value' rx').2 := by
  obtain ⟨m, hm, rfl⟩ := h
  have hadd := addToNeighbour_alike ⟨m, hm, rfl⟩ s.env s.myAddr s.tm hp
  rw [addNeighbour, addNeighbour]
  rw [← hst] at hadd
  change AlikeAdded x _ (CSync.addToNeighbour (s.withMemb m).env (s.withMemb m).myAddr
    (s.withMemb m).myState (s.withMemb m).tm (s.withMemb m).nb rx'.sender value'.instr value'.degree
    rx') at hadd
  generalize CSync.addToNeighbour s.env s.myAddr s.myState s.tm s.nb rx.sender value.instr
    value.degree rx = r at hadd ⊢
  generalize CSync.addToNeighbour (s.withMemb m).env (s.withMemb m).myAddr (s.withMemb m).myState
    (s.withMemb m).tm (s.withMemb m).nb rx'.sender value'.instr value'.degree rx' = r' at hadd ⊢
  obtain ⟨i, nb, tm, added⟩ := r
  obtain ⟨i', nb', tm', added'⟩ := r'
  obtain ⟨hi, ⟨m', hm', hnb⟩, hrest⟩ := hadd
  cases hi
  cases hrest
  cases hnb
  refine ⟨rfl, ?_⟩
  cases added <;> exact ⟨m', hm', rfl⟩

theorem blind_whenReceived (hp : AlikePacket x value value' rx rx')
    (hmsg : ∀ i t', ¬ rx.rssi < rssiThreshold → (s.addNeighbour value rx).1 = some i →
        Blind x (s.addNeighbour value rx).2 t' →
        Alike x ((s.addNeighbour value rx).2.nb.memb.mem i) (t'.nb.memb.mem i) →
          Blind x (handle (s.addNeighbour value rx).2 ((s.addNeighbour value rx).2.nb.memb.mem i))
            (handle' t' (t'.nb.memb.mem i))) :
    Blind x (s.whenReceived value rx handle) (s'.whenReceived value' rx' handle') := by
  obtain ⟨hi, hblind⟩ := blind_addNeighbour h hst hp
  rw [whenReceived, whenReceived, hp.rssi_eq]
  split
  · exact h
  next hrssi =>
    dsimp only
    rw [hi]
    cases hadd : (s.addNeighbour value rx).1 with
    | none => exact hblind
    | some i =>
      refine hmsg i _ hrssi hadd hblind ?_
      obtain ⟨m, hm, heq⟩ := hblind
      rw [heq]
      exact hm.mem i

/-- The handlers of a synchronised sender on two alike nodes. -/
theorem blind_whenSynced (hp : AlikePacket x value value' rx rx')
    (hmsg : ∀ t t' n n', s.hears value rx = some (t, n) → Blind x t t' →
        Alike x n n' → Blind x (handle t n) (handle' t' n')) :
    Blind x (s.whenSynced value rx handle) (s'.whenSynced value' rx' handle') := by
  refine blind_whenReceived h hst hp fun i t' hrssi hadd hblind hentry => ?_
  rw [hentry.synced_eq]
  split
  next hsynced =>
    refine hmsg _ t' _ _ ?_ hblind hentry
    rw [Node.hears, if_neg hrssi, hadd]
    exact if_pos hsynced
  · exact hblind

/-- MESSAGES of the synchronization announcement: alike if the sender is `x`, which is blacklisted, or
    says the same. The reference address may differ only where it does not name the node. -/
theorem blind_synchronization (hlisted : s.cl.blacklisted x = true) (hp : AlikePacket x value value' rx rx')
    (href : value'.refAddr = s.myAddr ↔ value.refAddr = s.myAddr) :
    Blind x (s.receivedSynchronizationAnnouncement value rx) (s'.receivedSynchronizationAnnouncement value' rx') := by
  have heq : s'.myAddr = s.myAddr ∧ s'.nb.myDegree = s.nb.myDegree := by
    obtain ⟨m, -, rfl⟩ := h
    exact ⟨rfl, rfl⟩
  rw [receivedSynchronizationAnnouncement, receivedSynchronizationAnnouncement, hp.rssi_eq, heq.1, heq.2]
  by_cases hown : ¬ rx.rssi < rssiThreshold ∧ value.refAddr = s.myAddr
  · rw [if_pos hown, if_pos ⟨hown.1, href.mpr hown.2⟩]
    exact h
  · rw [if_neg hown, if_neg fun h' => hown ⟨h'.1, href.mp h'.2⟩]
    refine blind_whenSynced h hst hp fun t t' n n' hears ht hn => ?_
    have haddr := (hears_entry hears).1
    obtain ⟨nb, tm, an, -, -, rfl⟩ := received_of_hears hears
    exact blind_synchronizationMessage ht hn hst hlisted _ fun hne => (hp.same (haddr ▸ hne)).1

end

end

omit [SoftDouble R] in
/-- A head that gives up its role reads the sender's address and degree only. -/
theorem resignHead_alike (s : Node R) (value : AnnouncementValue R) {n n' : Neighbour R}
    (hn : Alike x n n') : s.resignHead value n' = s.resignHead value n := by
  rw [resignHead, resignHead]
  simp only [CSync.handleLists, newChb, hn.addr_eq, hn.degree_eq]

theorem keeps_convergenceMessage (value : AnnouncementValue R) (n : Neighbour R) (h : Blind x s s') (hst : s.myState =
    .consensusSynchronization) : Blind x (s.convergenceMessage value n) (s'.convergenceMessage value n) := by
  have hst' : s'.myState = .consensusSynchronization := by
    obtain ⟨m, -, rfl⟩ := h
    exact hst
  have hjoin : OffTable fun s : Node R => s.ifScheduled .date value.dateCoarse value.dateFine
      .enterConsensusRevelation (fun s => ({ s.setRt0State .singlepass with
        refNChbDegree := numConsSlots + 3 }.resignHead value n).enterDiscovery) id :=
    OffTable.ifScheduled (c := fun _ => value.dateCoarse) (d := fun _ => value.dateFine)
      (fun _ _ => rfl) (fun _ _ => rfl) (fun _ _ _ => rfl) fun _ _ _ => rfl
  have hcancel : OffTable fun s : Node R => s.politeCancel.setSyncBorder 0 := fun _ _ _ => rfl
  rw [convergenceMessage, convergenceMessage, hst, hst']
  dsimp only
  split
  · exact (hjoin.comp hcancel).keeps s s' h
  · exact h

/-- MESSAGES: the same message keeps two nodes alike. -/
theorem blind_heard (h : Blind x s s')
    (hst : s.myState = .consensusSynchronization) (hlisted : s.cl.blacklisted x = true) (id : AnnId)
    (value : AnnouncementValue R) (rx : Reception R) : Blind x (s.heard id value rx) (s'.heard id value rx) := by
  have hp : AlikePacket x value value rx rx := ⟨rfl, rfl, fun _ => ⟨rfl, rfl⟩⟩
  have hignore : ∀ handle : Node R → Neighbour R → Node R,
      (∀ t n, t.myState = .consensusSynchronization → handle t n = t) →
      Blind x (s.whenSynced value rx handle) (s'.whenSynced value rx handle) := by
    intro handle hhandle
    refine blind_whenSynced h hst hp fun t t' n n' hears ht hn => ?_
    have hst' : t.myState = .consensusSynchronization := by
      obtain ⟨nb, tm, an, -, -, rfl⟩ := received_of_hears hears
      exact hst
    have hst'' : t'.myState = .consensusSynchronization := by
      obtain ⟨m, -, rfl⟩ := ht
      exact hst'
    rw [hhandle t n hst', hhandle t' n' hst'']
    exact ht
  cases id with
  | discovery =>
    change Blind x (s.receivedDiscoveryAnnouncement value rx) (s'.receivedDiscoveryAnnouncement value rx)
    refine blind_whenReceived h hst hp fun i t' _ _ hblind hentry => ?_
    have hst' : (s.addNeighbour value rx).2.myState = .consensusSynchronization := by
      obtain ⟨nb, tm, an, -, -, hrecv⟩ := s.addNeighbour_spec value rx
      rw [hrecv]
      exact hst
    generalize (s.addNeighbour value rx).2 = t at hblind hentry hst' ⊢
    obtain ⟨m, hm, rfl⟩ := hblind
    have hskip : ∀ u : Node R, u.myState = .consensusSynchronization →
        (if u.myState = .discovery then u.checkSynced.startElection value else u) = u :=
      fun u hu => if_neg (by rw [hu]; decide)
    rw [hentry.synced_eq]
    cases (t.nb.memb.mem i).synced with
    | true =>
      have hleft := hskip { t with syncedCounter := t.syncedCounter + 1 } hst'
      have hright := hskip { t.withMemb m with syncedCounter := t.syncedCounter + 1 } hst'
      exact hleft.symm ▸ hright.symm ▸ ⟨m, hm, rfl⟩
    | false => exact (hskip t hst').symm ▸ (hskip (t.withMemb m) hst').symm ▸ ⟨m, hm, rfl⟩
  | revelation => exact hignore _ fun t n ht => by rw [revelationMessage, ht]
  | declaration => exact hignore _ fun t n ht => by rw [declarationMessage, ht]
  | convergence =>
    change Blind x (s.receivedConvergenceAnnouncement value rx) (s'.receivedConvergenceAnnouncement value rx)
    refine blind_whenSynced h hst hp fun t t' n n' hears ht hn => ?_
    have hst' : t.myState = .consensusSynchronization := by
      obtain ⟨nb, tm, an, -, -, rfl⟩ := received_of_hears hears
      exact hst
    have hsender : t'.convergenceMessage value n' = t'.convergenceMessage value n := by
      have hst'' : t'.myState = .consensusSynchronization := by
        obtain ⟨m, -, rfl⟩ := ht
        exact hst'
      rw [convergenceMessage, convergenceMessage, hst'']
      simp only [resignHead_alike _ value hn]
    rw [hsender]
    exact keeps_convergenceMessage value n ht hst'
  | synchronization => exact blind_synchronization h hst hlisted hp Iff.rfl

end Node

end CSync
