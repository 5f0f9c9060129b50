import CSync.Safety.Isolation

/-! The room on the blacklist.

    A bridge that detects a misbehaving neighbour takes a block of the pool and writes the address into it without
    looking at the pointer. The pool has `NUM_BL_MAX` blocks and gets none of them back, so the write is good as long
    as fewer addresses are on the list; the next detection writes through the null pointer, and pushing that pointer
    empties the list. -/

namespace CSync

open Lib

namespace Node

variable {R : Type} [SoftDouble R]

/-- The step detects the neighbour `n`: a bridge in the synchronization phase hears a synchronization announcement of
    it, finds it not yet blacklisted and past a limit; `t` is the node behind the reception. -/
structure Detects (s : Node R) (e : Event R) (value : AnnouncementValue R) (rx : Reception R) (t : Node R)
    (n : Neighbour R) : Prop where
  bridge : s.cl.role = .cb
  phase : s.myState = .consensusSynchronization
  act : e.act = .heard .synchronization value rx
  instr : value.instr = St.consensusSynchronization.code
  other : value.refAddr ≠ s.myAddr
  hears : (s.prepare e).hears value rx = some (t, n)
  unlisted : s.cl.blacklisted n.addr = false
  accuses : t.accuses n

/-- Fewer than `NUM_BL_MAX` addresses are on the blacklist wherever a neighbour is detected. -/
def Roomy (s : Node R) (e : Event R) : Prop :=
  ∀ value rx t n, Detects s e value rx t n → s.cl.blacklist.length < numBlMax

variable {s : Node R} {value : AnnouncementValue R} {e : Event R} {n : Neighbour R}

theorem synchronizationMessage_accused (threshold : Nat)
    (hst : s.myState = .consensusSynchronization) (hinstr : value.instr = St.consensusSynchronization.code)
    (hbl : s.cl.blacklisted n.addr = false) (hcb : s.cl.role = .cb) (hacc : s.accuses n) :
    s.synchronizationMessage value threshold n = s.accuse n := by
  rw [synchronizationMessage, hst]
  dsimp only
  rw [if_pos hinstr, if_neg (by rw [hbl]; decide), slotSynchronization, hcb]
  rw [bridgeSynchronization]
  rcases hacc with ⟨hslot, hno⟩ | ⟨hslot, hpast⟩
  · rw [if_pos hslot, if_neg hno]
  · rw [if_neg (by rw [hslot]; exact UInt8.lt_irrefl _), if_pos hslot, if_pos hpast]

variable {rx : Reception R}

theorem Detects.step_eq {t u : Node R} (h : Detects s e value rx t n) (hstep :
    s.step e = some u) : t.cl = s.cl ∧ u.cl = blacklistAdd n.addr s.cl := by
  obtain ⟨hcb, hst, hact, hinstr, hother, hears, hbl, hacc⟩ := h
  obtain ⟨nb, tm, an, -, -, rfl⟩ := received_of_hears hears
  refine ⟨rfl, ?_⟩
  rw [step_heard hact hstep, heard, receivedSynchronizationAnnouncement]
  rw [if_neg fun h => hother h.2, whenSynced_of_hears hears]
  rw [synchronizationMessage_accused (s := { s.prepare e with nb := nb, tm := tm, an := an }) _ hst hinstr hbl hcb hacc]
  rfl

/-- Where there is room, no step blacklists without a block. -/
theorem Roomy.not_defect (howns : s.cl.blMemb.Owns s.cl.blacklist) (h : s.Roomy e) : ¬ s.defects e .blacklist := by
  obtain ⟨act, hw, env⟩ := e
  cases act with
  | timer => exact id
  | overflow => exact id
  | process =>
    rintro ⟨hbridge, -⟩
    cases hbridge
  | heard id value rx =>
    rintro ⟨hid, hst, hinstr, hother, hcb, hnone, t, n, hears, hbl, hacc⟩
    subst hid
    have hroom := h value rx t n ⟨hcb, hst, rfl, hinstr, hother, hears, hbl, hacc⟩
    exact howns.free_iff.mpr hroom hnone

theorem roomy_owns_step {t : Node R} (h : Timed s.core ∧ s.cl.blMemb.Owns s.cl.blacklist)
    (hok : s.Roomy e) (hstep : s.step e = some t) : Timed t.core ∧ t.cl.blMemb.Owns t.cl.blacklist :=
  owns_step h (hok.not_defect h.2) hstep

/-- At a detection the block is there and the neighbour is on the blacklist behind it exactly where fewer than
    `NUM_BL_MAX` addresses were on the list; and in a run all whose detections find room it stays on the list. -/
theorem detected_blacklisted (a : UInt16) {es fs : List (Event R)} {s t u v : Node R} {e : Event R}
    {value : AnnouncementValue R} (hrun : Run step Roomy (boot a) es s)
    (hd : Detects s e value rx t n) (hstep : s.step e = some u) (hfs : Run step Roomy u fs v) :
    ((s.cl.blMemb.freeBlock ≠ none ∧ u.cl.blacklisted n.addr = true) ↔ s.cl.blacklist.length < numBlMax) ∧
      (s.cl.blacklist.length < numBlMax → v.cl.blacklisted n.addr = true) := by
  have hs := hrun.invariant (P := fun s => Timed s.core ∧ s.cl.blMemb.Owns s.cl.blacklist)
    (fun _ _ _ hs hok hst => roomy_owns_step hs hok hst) ⟨timed_boot a, Pool.owns_init _⟩
  obtain ⟨-, hcl⟩ := hd.step_eq hstep
  have hlisted : s.cl.blMemb.freeBlock ≠ none → u.cl.blacklisted n.addr = true := by
    intro hfree
    rw [hcl]
    exact blacklisted_blacklistAdd n.addr hfree
  refine ⟨⟨fun h => hs.2.free_iff.mp h.1, fun h => ⟨hs.2.free_iff.mpr h, hlisted (hs.2.free_iff.mpr h)⟩⟩, fun h => ?_⟩
  have hroomy : s.Roomy e := fun _ _ _ _ _ => h
  have hu : Timed u.core ∧ Listed n.addr u.cl :=
    ⟨timed_step hs.1 hstep, (roomy_owns_step hs hroomy hstep).2, hlisted (hs.2.free_iff.mpr h)⟩
  exact (hfs.invariant (P := fun s => Timed s.core ∧ Listed n.addr s.cl)
    (fun _ _ _ hs hok hst => listed_step hs (hok.not_defect hs.2.owns) hst) hu).2.listed

/-! ### Concrete runs -/

instance (s : Node R) (n : Neighbour R) : Decidable (s.accuses n) := inferInstanceAs (Decidable (_ ∨ _))

/-- A decidable condition for `Detects`. -/
def detects (addr : UInt16) (e : Event R) (s : Node R) : Bool :=
  match e.act with
  | .heard .synchronization value rx => s.cl.role == .cb && s.myState == .consensusSynchronization &&
      value.instr == St.consensusSynchronization.code && value.refAddr != s.myAddr &&
      ((s.prepare e).hears value rx).any fun r => r.2.addr == addr && !s.cl.blacklisted r.2.addr && decide (r.1.accuses r.2)
  | _ => false

theorem detects_spec {addr : UInt16} (he : e.act = .heard .synchronization value rx) (h : detects
    addr e s = true) : ∃ t n, Detects s e value rx t n ∧ n.addr = addr := by
  simp only [detects, he, Bool.and_eq_true, beq_iff_eq, bne_iff_ne] at h
  obtain ⟨⟨⟨⟨hcb, hst⟩, hinstr⟩, hother⟩, hhears⟩ := h
  obtain ⟨⟨t, n⟩, htn, hn⟩ := (Option.any_eq_true _ _).mp hhears
  simp only [Bool.and_eq_true, beq_iff_eq, Bool.not_eq_true', decide_eq_true_eq] at hn
  exact ⟨t, n, ⟨hcb, hst, he, hinstr, hother, htn, hn.1.2, hn.2⟩, hn.1.1⟩

/-- The blacklist has room, whatever the step. -/
def hasRoom (s : Node R) (_ : Event R) : Bool := decide (s.cl.blacklist.length < numBlMax)

theorem roomy_of_hasRoom (s : Node R) (e : Event R) (h : s.hasRoom e = true) : s.Roomy e :=
  fun _ _ _ _ _ => of_decide_eq_true h

/-- Behind 72 the bridge 78 detects 45, and then hears 44. -/
theorem detected_blacklisted_second : ∃ (s t u v : Node Rat) (value : AnnouncementValue Rat) (rx : Reception Rat)
    (n : Neighbour Rat), Run step Roomy (boot 78) accusedRun s ∧
    Detects s (syncOf 1701000 45 45 1700000 1) value rx t n ∧ n.addr = 45 ∧
    s.step (syncOf 1701000 45 45 1700000 1) = some u ∧ Run step Roomy u [] v ∧ v.cl.blacklisted n.addr = true := by
  obtain ⟨s, hrun, hs⟩ : ∃ s, Run step Roomy (boot 78) accusedRun s ∧ _ :=
    exists_run hasRoom (fun s => detects 45 (syncOf 1701000 45 45 1700000 1) s &&
      s.hasRoom (syncOf 1701000 45 45 1700000 1) && (s.step (syncOf 1701000 45 45 1700000 1)).isSome)
      roomy_of_hasRoom (by decide +kernel)
  simp only [Bool.and_eq_true] at hs
  obtain ⟨⟨hdet, hroom⟩, hsome⟩ := hs
  obtain ⟨t, n, hd, hn⟩ := detects_spec rfl hdet
  obtain ⟨u, hu⟩ := Option.isSome_iff_exists.mp hsome
  have hnil : Run step Roomy u [] u := .nil u
  exact ⟨s, t, u, u, _, _, n, hrun, hd, hn, hu, hnil,
    (detected_blacklisted 78 hrun hd hu hnil).2 (of_decide_eq_true hroom)⟩

/-- FAILS IN GENERAL: the bridge 78 detects 72, 45 and 44. For the third there is no block, and none of the three is on
    the blacklist afterwards. -/
theorem third_detection_empties : ¬ ∀ (es : List (Event Rat)) (s t u : Node Rat) e value rx n,
    Run step (fun _ _ => True) (boot 78) es s → Detects s e value rx t n → s.step e = some u →
      s.cl.blMemb.freeBlock ≠ none ∧ u.cl.blacklisted n.addr = true := by
  intro hall
  obtain ⟨s, hrun, hs⟩ : ∃ s, Run step (fun _ _ => True) (boot 78)
      (accusedRun ++ [syncOf 1701000 45 45 1700000 1]) s ∧ _ :=
    exists_run (fun _ _ => true) (fun s => detects 44 (syncOf 1702000 44 44 1701000 1) s &&
      (s.step (syncOf 1702000 44 44 1701000 1)).any fun u => !u.cl.blacklisted 72 && !u.cl.blacklisted 45 &&
        !u.cl.blacklisted 44) (fun _ _ _ => trivial) (by decide +kernel)
  obtain ⟨hdet, hany⟩ := Bool.and_eq_true_iff.mp hs
  obtain ⟨t, n, hd, hn⟩ := detects_spec rfl hdet
  obtain ⟨u, hu, hout⟩ := (Option.any_eq_true _ _).mp hany
  have hlisted := (hall _ s t u _ _ _ n hrun hd hu).2
  simp only [Bool.and_eq_true, Bool.not_eq_true'] at hout
  rw [hn, hout.2] at hlisted
  cases hlisted

end Node

end CSync
