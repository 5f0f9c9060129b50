import Mathlib.Algebra.BigOperators.Group.List.Lemmas
import Mathlib.Algebra.BigOperators.Ring.List
import CSync.Safety.Mirror
import CSync.Safety.Slots

/-! The slots that a bridge gives to its heads.

    In the convergence a bridge gives the current slot to the first head that asks for it and acknowledges it; nobody else
    gets that slot, since `my_slot_ack` is set until the thread goes on to the next slot. At the end of a slot the thread
    multiplies the acknowledgement by all slots: a factor of zero is a head without a slot, or a slot that nobody got. The
    product is one of 8 bits, but the slots are different numbers up to five, so it divides 120. -/

namespace CSync

open Lib List

/-- An 8-bit product is the exact one modulo 256. -/
theorem foldl_mul_toNat {α : Type} (f : α → UInt8) : ∀ (l : List α) (ack : UInt8),
    (l.foldl (fun ack x => ack * f x) ack).toNat = (ack.toNat * (l.map fun x => (f x).toNat).prod) % 256
  | [], ack => by
    have := ack.toNat_lt
    simp
  | x :: l, ack => by
    rw [foldl_cons, foldl_mul_toNat f l, UInt8.toNat_mul, map_cons, prod_cons, Nat.mod_mul_mod, mul_assoc]

/-- Different numbers up to five. -/
theorem prod_dvd_of_nodup {l : List Nat} (hnd : l.Nodup) (hrange : ∀ x ∈ l, 1 ≤ x ∧ x ≤ 5) : l.prod ∣ 120 := by
  have hsub : l ⊆ [1, 2, 3, 4, 5] := by
    intro x hx
    have := hrange x hx
    simp only [mem_cons, not_mem_nil, or_false]
    omega
  obtain ⟨l', hperm, hsublist⟩ := hnd.subperm hsub
  rw [← hperm.prod_eq]
  exact hsublist.prod_dvd_prod

/-- An acknowledgement of at most one and different slots up to five: the product does not wrap to zero. -/
theorem foldl_slots_ne_zero {l : List UInt8} {ack : UInt8} (hack : ack = 0 ∨ ack = 1) (hnd : (l.filter (· ≠ 0)).Nodup)
    (hrange : ∀ x ∈ l, x ≤ numConsSlots) : l.foldl (fun ack x => ack * x) ack ≠ 0 ↔ ack ≠ 0 ∧ ∀ x ∈ l, x ≠ 0 := by
  have hprod := foldl_mul_toNat (fun x => x) l ack
  have hzero : (l.foldl (fun ack x => ack * x) ack ≠ 0) ↔ (ack.toNat * (l.map fun x => x.toNat).prod) % 256 ≠ 0 := by
    rw [← hprod, ne_eq, ne_eq, ← UInt8.toNat_inj]
    rfl
  rw [hzero]
  rcases hack with rfl | rfl
  · simp
  · have hone : (1 : UInt8).toNat = 1 := rfl
    rw [hone, one_mul]
    constructor
    · intro hne
      refine ⟨by decide, fun x hx hx0 => hne ?_⟩
      have hmem : 0 ∈ l.map fun x => x.toNat := mem_map.mpr ⟨x, hx, by rw [hx0]; rfl⟩
      rw [prod_eq_zero hmem, Nat.zero_mod]
    · rintro ⟨-, hall⟩
      have hfilter : l.filter (· ≠ 0) = l := filter_eq_self.mpr fun x hx => by simpa using hall x hx
      rw [hfilter] at hnd
      have hdvd : (l.map fun x => x.toNat).prod ∣ 120 := by
        refine prod_dvd_of_nodup (hnd.map fun a b hab => UInt8.toNat_inj.mp hab) fun x hx => ?_
        obtain ⟨y, hy, rfl⟩ := mem_map.mp hx
        have hle := UInt8.le_iff_toNat_le.mp (hrange y hy)
        have hne : y.toNat ≠ 0 := fun h => hall y hy (UInt8.toNat_inj.mp h)
        have hfive : numConsSlots.toNat = 5 := rfl
        omega
      have hpos := Nat.pos_of_dvd_of_pos hdvd (by decide)
      have hle := Nat.le_of_dvd (by decide) hdvd
      omega

/-! ### The phase -/

/-- The slot of a block. -/
def Cluster.slot (cl : Cluster) (i : Fin numChMax) : UInt8 := (cl.chsMemb.mem i).consSlot

/-- The list stays, and what has a slot keeps it. -/
structure KeepsGiven (cl cl' : Cluster) : Prop where
  chs : cl'.chs = cl.chs
  addr : ∀ i, (cl'.chsMemb.mem i).addr = (cl.chsMemb.mem i).addr
  slot : ∀ i, cl.slot i ≠ 0 → cl'.slot i = cl.slot i

theorem KeepsGiven.refl (cl : Cluster) : KeepsGiven cl cl := ⟨rfl, fun _ => rfl, fun _ _ => rfl⟩

theorem KeepsGiven.trans {a b c : Cluster} (h : KeepsGiven a b) (h' : KeepsGiven b c) : KeepsGiven a c := by
  refine ⟨h'.chs.trans h.chs, fun i => (h'.addr i).trans (h.addr i), fun i hi => ?_⟩
  have hb := h.slot i hi
  rw [h'.slot i (by rw [hb]; exact hi), hb]

theorem SameHeads.keepsGiven {a b : Cluster} (h : SameHeads a b) : KeepsGiven a b := by
  refine ⟨h.chs, fun i => ?_, fun i _ => ?_⟩
  · rw [h.memb]
  · rw [Cluster.slot, Cluster.slot, h.memb]

namespace Node

variable {R : Type} [SoftDouble R]

/-- A bridge between the start of its slot loop and the consensus revelation. -/
def Converging (s : Node R) : Prop :=
  s.cl.role = .cb ∧ s.myState = .consensusConvergence ∧ (s.pc = .convSlot ∨ s.pc = .revWait)

/-- The slots given so far: different ones up to the current slot, which is given only if it is acknowledged. -/
structure Assigned (s : Node R) : Prop where
  le : ∀ i ∈ s.cl.chs, s.cl.slot i ≤ s.myConsSlot
  inj : ∀ i ∈ s.cl.chs, ∀ j ∈ s.cl.chs, s.cl.slot i ≠ 0 → s.cl.slot i = s.cl.slot j → i = j
  free : s.mySlotAck = 0 → ∀ i ∈ s.cl.chs, s.cl.slot i ≠ 0 → s.cl.slot i < s.myConsSlot
  last : s.myConsSlot ≤ numConsSlots
  inSlot : s.pc = .convSlot → s.myConsSlot < numConsSlots ∧ (s.mySlotAck = 0 ∨ s.mySlotAck = 1)

/-- The current slot is given to the head `i`. -/
structure Gives (s t : Node R) (i : Fin numChMax) : Prop where
  listed : i ∈ s.cl.chs
  unset : s.cl.slot i = 0
  unacked : s.mySlotAck = 0
  chs : t.cl.chs = s.cl.chs
  memb : t.cl.chsMemb = s.cl.chsMemb.modify i fun ch => { ch with consSlot := s.myConsSlot }
  acked : t.mySlotAck = 1

/-- What happens in a slot beside the thread: nothing to the slots, or one head gets the current one. -/
structure Beside (s t : Node R) : Prop where
  pc : t.pc = s.pc
  consSlot : t.myConsSlot = s.myConsSlot
  slots : SameHeads s.cl t.cl ∧ t.mySlotAck = s.mySlotAck ∨ ∃ i, Gives s t i

/-- What the thread does when it is polled in a slot and waits in the phase again. -/
structure Advances (s t : Node R) : Prop where
  heads : SameHeads s.cl t.cl
  last : t.myConsSlot ≤ numConsSlots
  inSlot : t.pc = .convSlot → t.myConsSlot < numConsSlots ∧ t.mySlotAck = 0
  next : s.myConsSlot < t.myConsSlot ∨ t.myConsSlot = s.myConsSlot ∧ t.mySlotAck ≠ 0

section
omit [SoftDouble R]

variable {s t u : Node R}

theorem Beside.refl (s : Node R) : Beside s s := ⟨rfl, rfl, .inl ⟨.refl _, rfl⟩⟩

theorem Beside.of_eq (h : Beside s t) (hcl : u.cl = s.cl) (hpc : u.pc = s.pc) (hslot : u.myConsSlot = s.myConsSlot)
    (hack : u.mySlotAck = s.mySlotAck) : Beside u t := by
  refine ⟨h.pc.trans hpc.symm, h.consSlot.trans hslot.symm, ?_⟩
  rw [hcl, hack]
  rcases h.slots with hsame | ⟨i, hi⟩
  · exact .inl hsame
  · refine .inr ⟨i, ?_, ?_, hack.trans hi.unacked, ?_, ?_, hi.acked⟩
    · rw [hcl]
      exact hi.listed
    · rw [hcl]
      exact hi.unset
    · rw [hcl]
      exact hi.chs
    · rw [hcl, hslot]
      exact hi.memb

theorem Gives.slot {i : Fin numChMax} (h : Gives s t i) (j : Fin numChMax) :
    t.cl.slot j = if j = i then s.myConsSlot else s.cl.slot j := by
  rw [Cluster.slot, h.memb]
  by_cases hji : j = i
  · subst hji
    simp [Pool.modify]
  · simp [Pool.modify, hji, Cluster.slot]

theorem Beside.keepsGiven (h : Beside s t) : KeepsGiven s.cl t.cl := by
  rcases h.slots with ⟨hsame, -⟩ | ⟨i, hi⟩
  · exact hsame.keepsGiven
  · refine ⟨hi.chs, fun j => ?_, fun j hj => ?_⟩
    · rw [hi.memb]
      by_cases hji : j = i
      · subst hji
        simp [Pool.modify]
      · simp [Pool.modify, hji]
    · rw [hi.slot, if_neg]
      rintro rfl
      exact hj hi.unset

/-- A slot is given once: behind an acknowledgement nothing changes. -/
theorem Beside.trans (hack : s.mySlotAck = 0) (h : Beside s t) (h' : Beside t u) : Beside s u := by
  refine ⟨h'.pc.trans h.pc, h'.consSlot.trans h.consSlot, ?_⟩
  rcases h.slots with ⟨hsame, hack'⟩ | ⟨i, hi⟩
  · rcases h'.slots with ⟨hsame', hack''⟩ | ⟨i, hi⟩
    · exact .inl ⟨hsame.trans hsame', hack''.trans hack'⟩
    · refine .inr ⟨i, hsame.chs ▸ hi.listed, ?_, hack, hi.chs.trans hsame.chs, ?_, hi.acked⟩
      · rw [← hi.unset, Cluster.slot, Cluster.slot, hsame.memb]
      · rw [hi.memb, hsame.memb, h.consSlot]
  · rcases h'.slots with ⟨hsame', hack''⟩ | ⟨j, hj⟩
    · exact .inr ⟨i, hi.listed, hi.unset, hi.unacked, hsame'.chs.trans hi.chs, hsame'.memb.trans hi.memb,
        hack''.trans hi.acked⟩
    · have hone := hi.acked.symm.trans hj.unacked
      cases hone

/-- MESSAGES keep the slots different. -/
theorem Assigned.beside (h : Assigned s) (hb : Beside s t) : Assigned t := by
  have hconv : t.pc = .convSlot → s.pc = .convSlot := fun hpc => hb.pc.symm.trans hpc
  rcases hb.slots with ⟨hsame, hack⟩ | ⟨i, hi⟩
  · have hslot : ∀ j, t.cl.slot j = s.cl.slot j := fun j => by rw [Cluster.slot, Cluster.slot, hsame.memb]
    refine ⟨?_, ?_, ?_, ?_, ?_⟩
    · simpa only [hsame.chs, hslot, hb.consSlot] using h.le
    · simpa only [hsame.chs, hslot] using h.inj
    · simpa only [hsame.chs, hslot, hb.consSlot, hack] using h.free
    · rw [hb.consSlot]
      exact h.last
    · intro hpc
      rw [hb.consSlot, hack]
      exact h.inSlot (hconv hpc)
  · -- the others have smaller slots
    have hless := h.free hi.unacked
    have hpre : ∀ a b, a ∈ s.cl.chs → a ≠ i → b = i → t.cl.slot a ≠ 0 → t.cl.slot a ≠ t.cl.slot b := by
      intro a b ha hai hbi hne heq
      rw [hi.slot a, if_neg hai] at hne heq
      rw [hi.slot b, if_pos hbi] at heq
      exact absurd (heq ▸ hless a ha hne) (UInt8.lt_irrefl _)
    refine ⟨fun a ha => ?_, fun a ha b hb' hne heq => ?_, fun hack => ?_, ?_, fun hpc => ?_⟩
    · rw [hi.chs] at ha
      rw [hi.slot, hb.consSlot]
      split
      · exact UInt8.le_refl _
      · exact h.le a ha
    · rw [hi.chs] at ha hb'
      by_cases hai : a = i
      · by_cases hbi : b = i
        · exact hai.trans hbi.symm
        · exact absurd heq.symm (hpre b a hb' hbi hai (heq ▸ hne))
      · by_cases hbi : b = i
        · exact absurd heq (hpre a b ha hai hbi hne)
        · rw [hi.slot a, if_neg hai] at hne heq
          rw [hi.slot b, if_neg hbi] at heq
          exact h.inj a ha b hb' hne heq
    · rw [hi.acked] at hack
      cases hack
    · rw [hb.consSlot]
      exact h.last
    · rw [hb.consSlot]
      exact ⟨(h.inSlot (hconv hpc)).1, .inr hi.acked⟩

/-- The THREAD goes on to a slot that nobody has, or stops giving slots. -/
theorem Assigned.advances (h : Assigned s) (ha : Advances s t) : Assigned t := by
  have hslot : ∀ j, t.cl.slot j = s.cl.slot j := fun j => by rw [Cluster.slot, Cluster.slot, ha.heads.memb]
  have hle : s.myConsSlot ≤ t.myConsSlot := by
    rcases ha.next with hlt | ⟨heq, -⟩
    · exact UInt8.le_of_lt hlt
    · rw [heq]
      exact UInt8.le_refl _
  refine ⟨fun i hi => ?_, ?_, fun hack i hi hne => ?_, ha.last, fun hpc => ?_⟩
  · rw [ha.heads.chs] at hi
    rw [hslot]
    exact UInt8.le_trans (h.le i hi) hle
  · simpa only [ha.heads.chs, hslot] using h.inj
  · rw [ha.heads.chs] at hi
    rw [hslot]
    rcases ha.next with hlt | ⟨-, hne'⟩
    · exact UInt8.lt_of_le_of_lt (h.le i hi) hlt
    · exact absurd hack hne'
  · exact ⟨(ha.inSlot hpc).1, .inl (ha.inSlot hpc).2⟩

end

/-! ### Messages and the timer -/

variable {s t a : Node R} {e : Event R}

section

omit [SoftDouble R]

theorem Received.beside (h : s.Received t) : Beside s t := by
  obtain ⟨nb, tm, an, -, -, rfl⟩ := h
  exact ⟨rfl, rfl, .inl ⟨.refl _, rfl⟩⟩

/-- What follows a reception that changed nothing else. -/
theorem Received.beside_trans {u : Node R} (h : s.Received t) (h' : Beside t u) : Beside s u := by
  obtain ⟨nb, tm, an, -, -, rfl⟩ := h
  exact h'.of_eq rfl rfl rfl rfl

theorem assignSlot_beside (s : Node R) (value : AnnouncementValue R) (addr : UInt16) :
    Beside s (s.assignSlot value addr) := by
  rw [assignSlot]
  split
  next i hi =>
    have hmem := mem_of_find?_eq_some hi
    have hfound := find?_some hi
    simp only [Bool.and_eq_true, beq_iff_eq] at hfound
    split
    next hack =>
      refine ⟨rfl, rfl, .inr ⟨i, hmem, hfound.1.2, hack, rfl, ?_, rfl⟩⟩
      rw [hfound.2]
      rfl
    · exact .refl s
  · exact .refl s

theorem noteRole_eq (s : Node R) (addr : UInt16) : ∃ nb, s.noteRole addr = { s with nb := nb } := by
  rw [noteRole]
  split
  · dsimp only
    split <;> exact ⟨_, rfl⟩
  · split <;> exact ⟨_, rfl⟩

theorem slotMessage_beside (hrole : s.cl.role = .cb) (value : AnnouncementValue R) (n : Neighbour R) :
    Beside s (s.slotMessage value n) := by
  obtain ⟨nb, hnote⟩ := s.noteRole_eq n.addr
  rw [slotMessage, hnote]
  split
  · rw [if_neg fun h => absurd (hrole.symm.trans h.1) (by decide)]
    exact ⟨rfl, rfl, .inl ⟨.refl _, rfl⟩⟩
  · have h := assignSlot_beside { s with nb := nb } value n.addr
    rw [hrole]
    exact h.of_eq rfl rfl rfl rfl

end

/-- A consensus revelation that is followed ends the phase. -/
theorem cutConvergence_beside (value : AnnouncementValue R) (n : Neighbour R)
    (hst : (s.cutConvergence value n).myState = .consensusConvergence) : Beside s (s.cutConvergence value n) := by
  revert hst
  refine ifScheduled_rule (P := fun t => t.myState = .consensusConvergence → Beside s t) (fun t _ _ hst => ?_)
    fun t ht _ => ?_
  · cases hst
  · obtain ⟨tm, out, rfl, -⟩ := ht
    exact ⟨rfl, rfl, .inl ⟨.refl _, rfl⟩⟩

/-- HANDLERS: as long as the phase lasts, a message gives the current slot or changes nothing. -/
theorem heard_beside (hrole : s.cl.role = .cb) (hst : s.myState = .consensusConvergence) (id : AnnId)
    (value : AnnouncementValue R) (rx : Reception R) (hlast : (s.heard id value rx).myState = .consensusConvergence) :
    Beside s (s.heard id value rx) := by
  have hphase : ∀ t, s.Received t → t.myState = .consensusConvergence ∧ t.cl.role = .cb := by
    rintro _ ⟨nb, tm, an, -, -, rfl⟩
    exact ⟨hst, hrole⟩
  revert hlast
  cases id with
  | discovery =>
    refine whenReceived_rule (P := fun t => t.myState = .consensusConvergence → Beside s t) (fun t ht _ => ht.beside)
      fun t n ht _ => ht.beside_trans ?_
    have hne : t.myState ≠ .discovery := fun hd => absurd ((hphase t ht).1.symm.trans hd) (by decide)
    dsimp only
    split
    · exact ⟨rfl, rfl, .inl ⟨.refl _, rfl⟩⟩
    · exact .refl t
  | revelation =>
    refine whenSynced_rule (P := fun t => t.myState = .consensusConvergence → Beside s t) (fun t ht _ => ht.beside)
      fun t n _ ht hlast => ht.beside_trans ?_
    rw [revelationMessage, (hphase t ht).1] at hlast ⊢
    dsimp only at hlast ⊢
    split at hlast
    next hinstr =>
      rw [if_pos hinstr]
      exact cutConvergence_beside value n hlast
    next hinstr =>
      rw [if_neg hinstr]
      exact .refl t
  | declaration =>
    refine whenSynced_rule (P := fun t => t.myState = .consensusConvergence → Beside s t) (fun t ht _ => ht.beside)
      fun t n _ ht _ => ht.beside_trans ?_
    rw [declarationMessage, (hphase t ht).1]
    exact .refl t
  | convergence =>
    refine whenSynced_rule (P := fun t => t.myState = .consensusConvergence → Beside s t) (fun t ht _ => ht.beside)
      fun t n _ ht _ => ht.beside_trans ?_
    rw [convergenceMessage, (hphase t ht).1]
    dsimp only
    split
    · exact slotMessage_beside (hphase t ht).2 value n
    · exact .refl t
  | synchronization =>
    rw [heard, receivedSynchronizationAnnouncement]
    split
    · exact fun _ => .refl s
    · refine whenSynced_rule (P := fun t => t.myState = .consensusConvergence → Beside s t) (fun t ht _ => ht.beside)
        fun t n _ ht _ => ht.beside_trans ?_
      rw [synchronizationMessage, (hphase t ht).1]
      exact .refl t

omit [SoftDouble R] in
theorem call_slots (s : Node R) (f : Callback) :
    (s.call f).myConsSlot = s.myConsSlot ∧ (s.call f).mySlotAck = s.mySlotAck := by
  cases f
  case enterConvergenceSlot =>
    rw [call, enterConvergenceSlot]
    split <;> exact ⟨rfl, rfl⟩
  case enterSynchronizationSlot =>
    rw [call, enterSynchronizationSlot]
    split <;> exact ⟨rfl, rfl⟩
  all_goals exact ⟨rfl, rfl⟩

omit [SoftDouble R] in
theorem fire_beside (s : Node R) : Beside s s.fire := by
  have haside := s.fire_aside
  have hslots : s.fire.myConsSlot = s.myConsSlot ∧ s.fire.mySlotAck = s.mySlotAck := by
    rw [fire]
    split
    · exact call_slots _ _
    · exact ⟨rfl, rfl⟩
  exact ⟨haside.pc, hslots.1, .inl ⟨haside.heads, hslots.2⟩⟩

/-! ### The thread -/

/-- The control loop waits at yields of its own. -/
theorem not_converging_synchronization (s : Node R) : ¬ s.synchronization.Converging := by
  rintro ⟨-, -, hpc⟩
  have hrests : Rests s s.synchronization := syncLoop_rests _ [] s .first
  have hne : s.synchronization.pc ≠ .phase := by rcases hpc with h | h <;> rw [h] <;> decide
  have hyield := (hrests hne).2
  rcases hpc with h | h <;> rw [h] at hyield <;> simp [loopYields] at hyield

theorem afterConvergence_converging (h : s.afterConvergence.Converging) :
    s.myConsSlot ≤ numConsSlots ∧ s.afterConvergence = { s with pc := .revWait } := by
  rw [afterConvergence] at h ⊢
  split at h
  next hle => exact ⟨hle, if_pos hle⟩
  · exact absurd h (not_converging_synchronization s)

/-- Where a bridge waits behind the slot loop begun in `s`: in a later slot, or in the current one, that nobody has yet. -/
structure Waits (s t : Node R) : Prop where
  heads : SameHeads s.cl t.cl
  le : s.myConsSlot ≤ t.myConsSlot
  last : t.myConsSlot ≤ numConsSlots
  inSlot : t.pc = .convSlot → t.myConsSlot < numConsSlots
  unacked : t.mySlotAck = 0

theorem succ_le_five {x : UInt8} (h : x ≤ numConsSlots) : (x + 1).toNat = x.toNat + 1 ∧ x ≤ x + 1 := by
  have hle := UInt8.le_iff_toNat_le.mp h
  have hfive : numConsSlots.toNat = 5 := rfl
  have hone : (1 : UInt8).toNat = 1 := rfl
  have hsucc : (x + 1).toNat = x.toNat + 1 := by
    rw [UInt8.toNat_add, hone]
    omega
  exact ⟨hsucc, UInt8.le_iff_toNat_le.mpr (by omega)⟩

theorem convLoop_waits : ∀ (k : Nat) (s : Node R), s.cl.role = .cb → 6 ≤ s.myConsSlot.toNat + k →
    (convLoop k s).Converging → Waits s (convLoop k s)
  | 0, s, _, hk, h => by
    have hle := UInt8.le_iff_toNat_le.mp (afterConvergence_converging (s := s) h).1
    have hfive : numConsSlots.toNat = 5 := rfl
    omega
  | k + 1, s, hrole, hk, h => by
    revert h
    rw [convLoop]
    split
    next hle =>
      rw [if_neg fun h => absurd (hrole.symm.trans h.1) (by decide)]
      refine ifScheduled_rule (P := fun t => t.Converging → Waits s t) (fun t _ ht => ?_) fun t ht => ?_
      · obtain ⟨tm, out, rfl, -⟩ := ht
        have hact : ∀ nCh, convergenceActions { s with tm := tm, out := out } nCh =
            { s with tm := tm, out := out, mySlotAck := 0 } := fun nCh => by
          rw [convergenceActions]
          dsimp only
          rw [hrole]
        dsimp only
        rw [hact]
        split
        next hlt => exact fun _ => ⟨.refl _, UInt8.le_refl _, hle, fun _ => hlt, rfl⟩
        · intro h
          rw [(afterConvergence_converging h).2]
          exact ⟨.refl _, UInt8.le_refl _, hle, by rintro ⟨⟩, rfl⟩
      · obtain ⟨tm, out, rfl, -⟩ := ht
        intro h
        obtain ⟨hsucc, hsle⟩ := succ_le_five hle
        have ih := convLoop_waits k { s with tm := tm, out := out, myConsSlot := s.myConsSlot + 1 } hrole
          (by dsimp only; omega) h
        exact ⟨ih.heads, UInt8.le_trans hsle ih.le, ih.last, ih.inSlot, ih.unacked⟩
    next hgt =>
      intro h
      exact absurd (afterConvergence_converging h).1 hgt

theorem convergenceSlots_waits (hrole : s.cl.role = .cb) (h : s.convergenceSlots.Converging) :
    Waits s s.convergenceSlots :=
  convLoop_waits _ s hrole (by omega) h

omit [SoftDouble R] in
theorem Waits.assigned (h : Waits s t) (hzero : ∀ i ∈ s.cl.chs, s.cl.slot i = 0) : Assigned t := by
  have hslot : ∀ i ∈ t.cl.chs, t.cl.slot i = 0 := by
    intro i hi
    rw [Cluster.slot, h.heads.memb]
    exact hzero i (h.heads.chs ▸ hi)
  refine ⟨fun i hi => ?_, fun i hi _ _ hne => absurd (hslot i hi) hne, fun _ i hi hne => absurd (hslot i hi) hne,
    h.last, fun hpc => ⟨h.inSlot hpc, .inl h.unacked⟩⟩
  rw [hslot i hi]
  exact UInt8.le_iff_toNat_le.mpr (Nat.zero_le _)

/-- The test at the end of a slot. -/
def slotProduct (s : Node R) : UInt8 := s.cl.heads.foldl (fun ack ch => ack * ch.consSlot) s.mySlotAck

theorem resumeConvSlot_bridge (hrole : s.cl.role = .cb) :
    s.resumeConvSlot =
      if s.slotProduct ≠ 0 then ({ s with mySlotAck := s.slotProduct }.radio false).ifScheduled .intervalRef 0
        (slotInterval 5) .enterConsensusRevelation afterConvergence
          (fun s => { s with myConsSlot := s.myConsSlot + 1 }.convergenceSlots) else
            { s with mySlotAck := s.slotProduct, myConsSlot := s.myConsSlot + 1 }.convergenceSlots := by
  rw [resumeConvSlot, if_pos hrole]
  rfl

/-- THREAD: polled in a slot, it goes on to the next one or stops giving slots. -/
theorem resume_advances (h : s.Converging) (ha : Assigned s) (hlast : s.resume.Converging) : Advances s s.resume := by
  obtain ⟨hrole, -, hpc⟩ := h
  rcases hpc with hpc | hpc
  · have hresume : s.resume = s.resumeConvSlot := by rw [resume, hpc]
    rw [hresume] at hlast ⊢
    obtain ⟨hsucc, -⟩ := succ_le_five ha.last
    have hnext : ∀ t : Node R, SameHeads s.cl t.cl → t.cl.role = .cb → t.myConsSlot = s.myConsSlot →
        { t with myConsSlot := t.myConsSlot + 1 }.convergenceSlots.Converging →
        Advances s { t with myConsSlot := t.myConsSlot + 1 }.convergenceSlots := by
      intro t hsame hcb hslot hconv
      have hw := convergenceSlots_waits (s := { t with myConsSlot := t.myConsSlot + 1 }) hcb hconv
      have hlt : s.myConsSlot < t.myConsSlot + 1 := by
        rw [hslot]
        exact UInt8.lt_iff_toNat_lt.mpr (by omega)
      exact ⟨hsame.trans hw.heads, hw.last, fun hpc => ⟨hw.inSlot hpc, hw.unacked⟩,
        .inl (UInt8.lt_of_lt_of_le hlt hw.le)⟩
    revert hlast
    rw [resumeConvSlot_bridge hrole]
    split
    next hne =>
      refine ifScheduled_rule (P := fun t => t.Converging → Advances s t) (fun t _ ht => ?_) fun t ht => ?_
      · obtain ⟨tm, out, rfl, -⟩ := ht
        intro hlast
        rw [(afterConvergence_converging hlast).2]
        exact ⟨.refl _, ha.last, by rintro ⟨⟩, .inr ⟨rfl, hne⟩⟩
      · obtain ⟨tm, out, rfl, -⟩ := ht
        exact hnext _ (.refl _) hrole rfl
    · exact hnext { s with mySlotAck := s.slotProduct } (.refl _) hrole rfl
  · -- from the consensus revelation the thread does not come back
    exfalso
    have hresume : s.resume = s.resumeRevWait := by rw [resume, hpc]
    rw [hresume] at hlast
    revert hlast
    refine ifScheduled_rule (P := fun t => ¬ t.Converging) (fun t _ _ => ?_) fun t _ =>
      not_converging_synchronization t
    rintro ⟨-, -, hyield⟩
    rcases hyield with h | h <;> cases h

/-! ### Runs -/

theorem step_beside (h : s.Converging) (ht : t.Converging) (hact : e.act ≠ .process)
    (hstep : s.step e = some t) : Beside s t := by
  obtain ⟨-, hof⟩ := step_of hstep
  cases hof with
  | @heard id value rx _ =>
    exact (heard_beside (s := s.prepare e) h.1 h.2.1 id value rx ht.2.1).of_eq rfl rfl rfl rfl
  | fired _ _ =>
    exact (s.prepare e).fire_beside.of_eq rfl rfl rfl rfl
  | resumed hproc _ => exact absurd hproc hact
  | overflowed _ => exact ⟨rfl, rfl, .inl ⟨.refl _, rfl⟩⟩

theorem step_advances (h : s.Converging) (ha : Assigned s) (ht : t.Converging)
    (hact : e.act = .process) (hstep : s.step e = some t) : Advances s t := by
  rw [step_process hact hstep] at ht ⊢
  have hadv := resume_advances (s := { s.prepare e with polled := false }) h
    ⟨ha.le, ha.inj, ha.free, ha.last, ha.inSlot⟩ ht
  exact ⟨hadv.heads, hadv.last, hadv.inSlot, hadv.next⟩

/-- Steps of the phase. -/
def InPhase (s : Node R) (_ : Event R) : Prop := s.Converging

/-- From `a` on, and as long as the phase lasts: the slots given in `a` stay and all slots are different. -/
def Holds (a s : Node R) : Prop := s.Converging → Assigned s ∧ KeepsGiven a.cl s.cl

theorem holds_step (h : Holds a s) (hok : s.InPhase e) (hstep : s.step e = some t) : Holds a t := by
  intro ht
  obtain ⟨ha, hkeeps⟩ := h hok
  by_cases hact : e.act = .process
  · have hadv := step_advances hok ha ht hact hstep
    exact ⟨ha.advances hadv, hkeeps.trans hadv.heads.keepsGiven⟩
  · have hb := step_beside hok ht hact hstep
    exact ⟨ha.beside hb, hkeeps.trans hb.keepsGiven⟩

/-- The end of a run in which the thread has just come to wait: the slot begins here. -/
def AtBegin (es : List (Event R)) : Prop := ∀ e ∈ es.getLast?, e.act = .process

theorem begin_unacked {u : Node R} {fs : List (Event R)} (hrole : u.cl.role = .cb)
    (hstart : Holds u u.convergenceSlots) (hrun : Run step InPhase u.convergenceSlots fs a) (ha : a.Converging)
    (hpc : a.pc = .convSlot) (hbegin : AtBegin fs) : a.mySlotAck = 0 := by
  rcases eq_nil_or_concat fs with rfl | ⟨ds, e, rfl⟩
  · cases hrun
    exact (convergenceSlots_waits hrole ha).unacked
  · rw [concat_eq_append] at hrun hbegin
    obtain ⟨s, hs, hlast⟩ := hrun.split
    have hact : e.act = .process := hbegin e (by simp)
    cases hlast with
    | cons hok hst hnil =>
      cases hnil
      have hassigned := (hs.invariant (P := Holds u) (fun _ _ _ h hok hst => holds_step h hok hst) hstart hok).1
      exact ((step_advances hok hassigned ha hact hst).inSlot hpc).2

theorem run_beside {b : Node R} {gs : List (Event R)} (hrun : Run step InPhase a gs b) (hack : a.mySlotAck = 0)
    (hb : b.Converging) (hact : ∀ e ∈ gs, e.act ≠ .process) : Beside a b := by
  induction gs using reverseRecOn generalizing b with
  | nil =>
    cases hrun
    exact .refl a
  | append_singleton gs e ih =>
    obtain ⟨s, hs, hlast⟩ := hrun.split
    cases hlast with
    | cons hok hst hnil =>
      cases hnil
      have hbefore := ih hs hok fun e' he' => hact e' (mem_append_left _ he')
      exact hbefore.trans hack (step_beside hok hb (hact e (by simp)) hst)

omit [SoftDouble R] in
theorem Assigned.nodup (h : Assigned s) (hnd : s.cl.chs.Nodup) :
    ((s.cl.heads.map (·.consSlot)).filter (· ≠ 0)).Nodup := by
  have hmap : (s.cl.heads.map (·.consSlot)).filter (· ≠ 0) =
      (s.cl.chs.filter fun i => s.cl.slot i ≠ 0).map s.cl.slot := by
    rw [Cluster.heads, map_map, filter_map]
    rfl
  rw [hmap]
  refine (hnd.filter _).map_on fun i hi j hj heq => ?_
  obtain ⟨hi, hne⟩ := mem_filter.mp hi
  exact h.inj i hi j (mem_of_mem_filter hj) (by simpa using hne) heq

omit [SoftDouble R] in
theorem Assigned.range (h : Assigned s) : ∀ x ∈ s.cl.heads.map (·.consSlot), x ≤ numConsSlots := by
  rintro x hx
  obtain ⟨ch, hch, rfl⟩ := mem_map.mp hx
  obtain ⟨i, hi, rfl⟩ := mem_map.mp hch
  exact UInt8.le_trans (h.le i hi) h.last

omit [SoftDouble R] in
/-- TEST: at the end of a slot the product is not zero where the slot was acknowledged and no head is without one. -/
theorem Assigned.product (h : Assigned s) (hnd : s.cl.chs.Nodup) (hpc : s.pc = .convSlot) :
    s.slotProduct ≠ 0 ↔ s.mySlotAck ≠ 0 ∧ ∀ ch ∈ s.cl.heads, ch.consSlot ≠ 0 := by
  have htest := foldl_slots_ne_zero (h.inSlot hpc).2 (h.nodup hnd) h.range
  rw [foldl_map] at htest
  rw [slotProduct, htest]
  simp only [forall_mem_map]

/-- BRIDGE SLOTS: in every convergence of a bridge that starts with no slot given, the slots given are different numbers
    from one to five; a head that has a slot keeps it; and at the end of a slot, whatever has been heard in it, the 8-bit
    product of the acknowledgement and the slots is not zero precisely where a head got its slot in it and all have one. -/
theorem bridge_slots_assigned (u : Node R) (hrole : u.cl.role = .cb) (hzero : ∀ ch ∈ u.cl.heads, ch.consSlot = 0)
    (haddr : (u.cl.heads.map (·.addr)).Nodup) (fs : List (Event R)) (a : Node R)
    (hrun : Run step InPhase u.convergenceSlots fs a) (ha : a.Converging) :
    ((a.cl.heads.map (·.consSlot)).filter (· ≠ 0)).Nodup ∧
    (∀ ch ∈ a.cl.heads, ch.consSlot ≠ 0 → 1 ≤ ch.consSlot ∧ ch.consSlot ≤ numConsSlots) ∧
    ∀ (gs : List (Event R)) (b : Node R), Run step InPhase a gs b → b.Converging →
      b.cl.chs = a.cl.chs ∧
      (∀ i, (b.cl.chsMemb.mem i).addr = (a.cl.chsMemb.mem i).addr) ∧
      (∀ i, a.cl.slot i ≠ 0 → b.cl.slot i = a.cl.slot i) ∧
      (a.pc = .convSlot → AtBegin fs → (∀ e ∈ gs, e.act ≠ .process) →
         (b.cl.heads.foldl (fun ack ch => ack * ch.consSlot) b.mySlotAck ≠ 0 ↔
            (∃ i ∈ a.cl.chs, a.cl.slot i = 0 ∧ b.cl.slot i ≠ 0) ∧ ∀ i ∈ b.cl.chs, b.cl.slot i ≠ 0)) := by
  have hnd : u.cl.chs.Nodup := by
    rw [Cluster.heads, map_map] at haddr
    exact .of_map _ haddr
  have hstart : Holds u u.convergenceSlots := fun hconv => by
    have hw := convergenceSlots_waits hrole hconv
    exact ⟨hw.assigned fun i hi => hzero _ (mem_map_of_mem hi), hw.heads.keepsGiven⟩
  have hsteps : ∀ {c s t : Node R} {e : Event R}, Holds c s → s.InPhase e → s.step e = some t → Holds c t :=
    fun h hok hst => holds_step h hok hst
  obtain ⟨hassigned, hkeeps⟩ := hrun.invariant (P := Holds u) (fun _ _ _ => hsteps) hstart ha
  refine ⟨hassigned.nodup (hkeeps.chs ▸ hnd), fun ch hch hne => ⟨?_, ?_⟩, fun gs b hgs hb => ?_⟩
  · have hpos : ch.consSlot.toNat ≠ 0 := fun h => hne (UInt8.toNat_inj.mp h)
    exact UInt8.le_iff_toNat_le.mpr (Nat.one_le_iff_ne_zero.mpr hpos)
  · exact hassigned.range _ (mem_map_of_mem hch)
  · have hself : Holds a a := fun _ => ⟨hassigned, .refl _⟩
    obtain ⟨hb', hab⟩ := hgs.invariant (P := Holds a) (fun _ _ _ => hsteps) hself hb
    refine ⟨hab.chs, hab.addr, hab.slot, fun hpc hbegin hact => ?_⟩
    have hack := begin_unacked hrole hstart hrun ha hpc hbegin
    have hbeside := run_beside hgs hack hb hact
    have hproduct := hb'.product (by rw [hab.chs, hkeeps.chs]; exact hnd) (hbeside.pc.trans hpc)
    have hheads : (∀ ch ∈ b.cl.heads, ch.consSlot ≠ 0) ↔ ∀ i ∈ b.cl.chs, b.cl.slot i ≠ 0 := by
      rw [Cluster.heads, forall_mem_map]
      rfl
    rw [slotProduct, hheads] at hproduct
    rw [hproduct]
    refine and_congr_left fun hall => ?_
    rcases hbeside.slots with ⟨hsame, hack'⟩ | ⟨i, hi⟩
    · -- nothing was given
      constructor
      · intro hne
        exact absurd (hack'.trans hack) hne
      · rintro ⟨i, -, hunset, hset⟩
        rw [Cluster.slot, hsame.memb] at hset
        exact absurd hunset hset
    · constructor
      · intro _
        exact ⟨i, hi.listed, hi.unset, hall i (hi.chs ▸ hi.listed)⟩
      · intro _
        rw [hi.acked]
        decide

/-- Bridge 44 of the heads 48 and 78 at the start of its slot loop. -/
def slotBridge : Node Rat :=
  let s := ((exec step (fun _ _ => true) (boot 44) bridgeRun).getD (boot 44)).prepare (eventAt 729244 .process)
  ({ s with polled := false }.repeatConvergence.schedule .intervalRef 0 (slotInterval 5)
    .enterConsensusRevelation).2.prepareConvergence

/-- A decidable condition for `Converging`. -/
def converges (s : Node R) : Bool :=
  s.cl.role == .cb && s.myState == .consensusConvergence && (s.pc == .convSlot || s.pc == .revWait)

omit [SoftDouble R] in
theorem converging_of_converges (h : s.converges = true) : s.Converging := by
  simpa [converges, Converging, and_assoc] using h

/-- The head 48 gets slot 1 and the head 78 slot 2, with which the product is not zero. -/
theorem bridge_slots_assigned_two :
    ∃ a b : Node Rat,
      Run step InPhase slotBridge.convergenceSlots (hearsAt 740000 48 .convergence 10 1 0 0 44 :: tickAt 886430) a ∧
      Run step InPhase a [hearsAt 900000 78 .convergence 10 2 0 0 44] b ∧
      b.cl.heads.foldl (fun ack ch => ack * ch.consSlot) b.mySlotAck ≠ 0 := by
  obtain ⟨a, ha, hp⟩ : ∃ a, Run step InPhase slotBridge.convergenceSlots
      (hearsAt 740000 48 .convergence 10 1 0 0 44 :: tickAt 886430) a ∧ _ := exists_run (fun s _ => s.converges)
    (fun a => a.converges && a.pc == .convSlot &&
      (exec step (fun s _ => s.converges) a [hearsAt 900000 78 .convergence 10 2 0 0 44]).any fun b =>
        b.converges && (b.cl.chs.all fun i => b.cl.slot i != 0) &&
          a.cl.chs.any fun i => a.cl.slot i == 0 && b.cl.slot i != 0)
    (fun _ _ h => converging_of_converges h)
    (show (exec step (fun s _ => s.converges) slotBridge.convergenceSlots
      (hearsAt 740000 48 .convergence 10 1 0 0 44 :: tickAt 886430)).any _ = true by decide +kernel)
  simp only [Bool.and_eq_true, beq_iff_eq, Option.any_eq_true_iff_get] at hp
  obtain ⟨⟨hconv, hpc⟩, hsome, ⟨hbconv, hall⟩, hany⟩ := hp
  have hcheck : ∀ (s : Node Rat) (e : Event Rat), s.converges = true → InPhase s e := fun _ _ h =>
    converging_of_converges h
  have hb := run_of_exec hcheck _ (Option.some_get hsome).symm
  refine ⟨a, _, ha, hb, ?_⟩
  have hmain := bridge_slots_assigned slotBridge (by decide +kernel) (by decide +kernel) (by decide +kernel) _ a ha
    (converging_of_converges hconv)
  refine ((hmain.2.2 _ _ hb (converging_of_converges hbconv)).2.2.2 hpc ?_ ?_).mpr ⟨?_, ?_⟩
  · simp [AtBegin, tickAt, eventAt]
  · simp [hearsAt, eventAt]
  · obtain ⟨i, hi, hslot⟩ := any_eq_true.mp hany
    exact ⟨i, hi, by simpa using hslot⟩
  · simpa using hall

end Node

end CSync
