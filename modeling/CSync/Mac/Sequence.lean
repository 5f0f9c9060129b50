import Mathlib.Data.Nat.ModEq
import CSync.Lib.Recency

/-! The history of sequence numbers that filters duplicates (`mac-sequence.c`).

    A sequence number is a packet attribute with 16 bits, and an entry of the table has room for eight of them.
    The parser of the framer sets the attribute to 0xffff where a frame has no number. The clock is a counter
    that wraps. The history of registrations, with the ticks that a clock without an end would show, is what the
    table stands for. -/

namespace CSync.MacSequence

open Lib List

variable {α : Type} [DecidableEq α]

structure Config (α : Type) where
  /-- `linkaddr_null`, which the table holds at first. -/
  null : α
  /-- `MAX_SEQNOS`. -/
  maxSeqnos : Nat
  maxSeqnos_pos : 0 < maxSeqnos
  /-- `SEQNO_MAX_AGE`; zero turns ageing off. -/
  maxAge : Nat
  /-- The width of `clock_time_t`. -/
  clockBits : Nat

structure Seqno (α : Type) where
  sender : α
  timestamp : Nat
  seqno : UInt8

/-- `received_seqnos`. -/
abbrev Table (α : Type) := Nat → Seqno α

variable (cfg : Config α)

def clockTime (ticks : Nat) : Nat := ticks % 2 ^ cfg.clockBits

/-- The first entry of a sender. -/
def findSender (t : Table α) (sender : α) : Option Nat :=
  (range cfg.maxSeqnos).find? fun i => (t i).sender == sender

/-- `mac_sequence_is_duplicate`. -/
def isDuplicate (t : Table α) (ticks : Nat) (sender : α) (number : UInt16) : Bool :=
  let now := clockTime cfg ticks
  match findSender cfg t sender with
  | none => false
  | some i =>
    number.toNat == (t i).seqno.toNat &&
      (cfg.maxAge == 0 || decide ((now + 2 ^ cfg.clockBits - (t i).timestamp) % 2 ^ cfg.clockBits ≤ cfg.maxAge))

/-- The loop of `mac_sequence_register_seqno` that moves entries, from `j` down to 1. -/
def shiftLoop : Nat → Table α → Table α
  | 0, t => t
  | j + 1, t => shiftLoop j fun i => if i = j + 1 then t j else t i

/-- `mac_sequence_register_seqno`. -/
def registerSeqno (t : Table α) (ticks : Nat) (sender : α) (number : UInt16) : Table α :=
  let i := match findSender cfg t sender with
    | some i => i + 1
    | none => cfg.maxSeqnos
  let t := shiftLoop (i - 1) t
  fun j => if j = 0 then ⟨sender, clockTime cfg ticks, number.toUInt8⟩ else t j

/-! ### What the table stands for -/

structure Registration (α : Type) where
  sender : α
  ticks : Nat
  number : UInt16

/-- The senders that registered last, the latest first. -/
def recent (history : List (Registration α)) : List (Registration α) :=
  (latest Registration.sender history).take cfg.maxSeqnos

def entryOf : Option (Registration α) → Seqno α
  | some r => ⟨r.sender, clockTime cfg r.ticks, r.number.toUInt8⟩
  | none => ⟨cfg.null, 0, 0⟩

structure Mirrors (t : Table α) (history : List (Registration α)) : Prop where
  entries : ∀ j < cfg.maxSeqnos, t j = entryOf cfg (latest Registration.sender history)[j]?
  sender : ∀ r ∈ history, r.sender ≠ cfg.null

variable {cfg} {t : Table α} {history : List (Registration α)}

omit [DecidableEq α] in
theorem shiftLoop_eq : ∀ (j : Nat) (t : Table α) (i : Nat), shiftLoop j t i = if 0 < i ∧ i ≤ j then t (i - 1) else t i
  | 0, t, i => by rw [shiftLoop, if_neg (by omega)]
  | j + 1, t, i => by
    rw [shiftLoop, shiftLoop_eq j]
    by_cases hi : i = j + 1
    · subst hi
      rw [if_neg (by omega), if_pos rfl, if_pos (by omega), Nat.add_sub_cancel]
    · by_cases hle : 0 < i ∧ i ≤ j
      · rw [if_pos hle, if_neg (by omega), if_pos (by omega)]
      · rw [if_neg hle, if_neg hi, if_neg (by omega)]

variable {sender : α}

theorem Mirrors.findSender_cases (h : Mirrors cfg t history) (hsender : sender ≠ cfg.null) :
    (∃ i r,
       findSender cfg t sender = some i ∧
       i < cfg.maxSeqnos ∧
       (latest Registration.sender history)[i]? = some r ∧
       r.sender = sender) ∨
    (findSender cfg t sender = none ∧ ∀ r ∈ recent cfg history, r.sender ≠ sender) := by
  cases hfind : findSender cfg t sender with
  | some i =>
    obtain ⟨hsat, hlt, -⟩ := find?_range_eq_some.mp hfind
    rw [mem_range] at hlt
    rw [beq_iff_eq, h.entries i hlt] at hsat
    cases hr : (latest Registration.sender history)[i]? with
    | some r =>
      rw [hr] at hsat
      exact .inl ⟨i, r, rfl, hlt, hr, hsat⟩
    | none =>
      rw [hr] at hsat
      exact absurd hsat.symm hsender
  | none =>
    refine .inr ⟨rfl, fun r hr heq => ?_⟩
    obtain ⟨i, hlt, hi⟩ := mem_take_iff_getElem.mp hr
    have hmiss := find?_range_eq_none.mp hfind i (by omega)
    rw [h.entries i (by omega), getElem?_eq_getElem (by omega), hi] at hmiss
    simp [entryOf, heq] at hmiss

/-- A registration goes to the front. -/
theorem Mirrors.register (h : Mirrors cfg t history) (hsender : sender ≠ cfg.null) (ticks : Nat) (number : UInt16) :
    Mirrors cfg (registerSeqno cfg t ticks sender number) (⟨sender, ticks, number⟩ :: history) := by
  refine ⟨fun j hj => ?_, fun r hr => ?_⟩
  · rw [registerSeqno, latest]
    dsimp only
    cases j with
    | zero => rfl
    | succ j =>
      rw [if_neg (Nat.succ_ne_zero j), shiftLoop_eq, getElem?_cons_succ]
      rcases h.findSender_cases hsender with ⟨i, r, hfind, hi, hr, heq⟩ | ⟨hfind, hnone⟩
      · -- The entries in front of the old one move up.
        have herase := filter_eq_eraseIdx (nodup_latest history) hr
        rw [heq] at herase
        rw [herase, getElem?_eraseIdx]
        simp only [hfind, Nat.add_sub_cancel]
        by_cases hji : j < i
        · rw [if_pos (by omega), if_pos hji]
          exact h.entries j (by omega)
        · rw [if_neg (by omega), if_neg hji]
          exact h.entries (j + 1) hj
      · rw [getElem?_filter_of_notMem hnone (by omega)]
        simp only [hfind, Nat.add_sub_cancel]
        rw [if_pos (by omega)]
        exact h.entries j (by omega)
  · rcases mem_cons.mp hr with rfl | hr
    · exact hsender
    · exact h.sender r hr

omit [DecidableEq α] in
theorem clockTime_sub (cfg : Config α) {ticks ticks' : Nat} (h : ticks' ≤ ticks) : (clockTime cfg ticks + 2 ^
    cfg.clockBits - clockTime cfg ticks') % 2 ^ cfg.clockBits = (ticks - ticks') % 2 ^ cfg.clockBits := by
  have hlt : clockTime cfg ticks' < 2 ^ cfg.clockBits := Nat.mod_lt _ (Nat.two_pow_pos _)
  have h1 : Nat.ModEq (2 ^ cfg.clockBits) (clockTime cfg ticks + 2 ^ cfg.clockBits) ticks := by
    rw [Nat.ModEq, Nat.add_mod_right, clockTime, Nat.mod_mod]
  have h2 : Nat.ModEq (2 ^ cfg.clockBits) (ticks - ticks' + clockTime cfg ticks') (ticks - ticks' + ticks') :=
    Nat.ModEq.add_left _ (Nat.mod_modEq _ _)
  rw [Nat.sub_add_cancel h] at h2
  refine Nat.ModEq.add_right_cancel' (clockTime cfg ticks') ?_
  rw [Nat.sub_add_cancel (by omega)]
  exact h1.trans h2.symm

/-- Where there is an entry, the clock tells its age unless it wrapped around. -/
theorem Mirrors.isDuplicate_iff (h : Mirrors cfg t history) (hsender : sender ≠ cfg.null) {ticks : Nat}
    (hlater : ∀ r ∈ history, r.ticks ≤ ticks) (number : UInt16) : isDuplicate cfg t ticks sender number = true ↔
      ∃ r ∈ recent cfg history, r.sender = sender ∧ number.toNat = r.number.toNat % 256 ∧
        (cfg.maxAge = 0 ∨ (ticks - r.ticks) % 2 ^ cfg.clockBits ≤ cfg.maxAge) := by
  rcases h.findSender_cases hsender with ⟨i, r, hfind, hi, hr, heq⟩ | ⟨hfind, hnone⟩
  · have hat : (recent cfg history)[i]? = some r := by rw [recent, getElem?_take_of_lt hi, hr]
    have hmem : r ∈ recent cfg history := mem_of_getElem? hat
    have hunique : ∀ q ∈ recent cfg history, q.sender = sender → q = r := fun q hq hqs =>
      inj_on_of_nodup_map (nodup_latest history) (mem_of_mem_take hq) (mem_of_getElem? hr) (hqs.trans heq.symm)
    have hage := clockTime_sub cfg (hlater r (mem_of_mem_latest (mem_of_getElem? hr)))
    rw [isDuplicate]
    simp only [hfind, h.entries i hi, hr, entryOf, hage, Bool.and_eq_true, Bool.or_eq_true, beq_iff_eq, decide_eq_true_eq]
    constructor
    · exact fun hdup => ⟨r, hmem, heq, hdup⟩
    · rintro ⟨q, hq, hqs, hdup⟩
      rw [hunique q hq hqs] at hdup
      exact hdup
  · rw [isDuplicate, hfind]
    constructor
    · rintro ⟨⟩
    · rintro ⟨r, hr, heq, -⟩
      exact absurd heq (hnone r hr)

/-! ### Runs -/

/-- The calls, with the sender and the sequence number of the packet in the packet buffer. -/
inductive Call (α : Type) where
  | isDuplicate (ticks : Nat) (sender : α) (number : UInt16)
  | register (ticks : Nat) (sender : α) (number : UInt16)

structure State (α : Type) where
  table : Table α
  /-- History: the registrations, the last one first. -/
  history : List (Registration α)
  /-- The ticks at the last call. -/
  now : Nat

variable (cfg)

/-- The table is zero at first. -/
def State.start : State α := ⟨fun _ => ⟨cfg.null, 0, 0⟩, [], 0⟩

def State.step (s : State α) : Call α → State α
  | .isDuplicate ticks _ _ => { s with now := ticks }
  | .register ticks sender number =>
    ⟨registerSeqno cfg s.table ticks sender number, ⟨sender, ticks, number⟩ :: s.history, ticks⟩

def State.run (s : State α) (calls : List (Call α)) : State α := calls.foldl (State.step cfg) s

/-- The sender is a node, and time goes on. -/
def Call.Legal (s : State α) : Call α → Prop
  | .isDuplicate ticks sender _ => sender ≠ cfg.null ∧ s.now ≤ ticks
  | .register ticks sender _ => sender ≠ cfg.null ∧ s.now ≤ ticks

/-- The clock has not wrapped around so far that an old entry looks recent. -/
def AgeShows (s : State α) (ticks : Nat) (sender : α) : Prop :=
  ∀ r ∈ recent cfg s.history, r.sender = sender → cfg.maxAge ≠ 0 →
    (ticks - r.ticks) % 2 ^ cfg.clockBits ≤ cfg.maxAge → ticks - r.ticks ≤ cfg.maxAge

/-- A number that is registered has eight bits, and the clock shows the age of what is looked up. -/
def Call.Fits (s : State α) : Call α → Prop
  | .isDuplicate ticks sender _ => AgeShows cfg s ticks sender
  | .register _ _ number => number.toNat < 256

/-- All calls of a run are legal and fit. -/
def Fitting : State α → List (Call α) → Prop
  | _, [] => True
  | s, call :: calls => call.Legal cfg s ∧ call.Fits cfg s ∧ Fitting (s.step cfg call) calls

/-- What the filter is for: the table has the senders that registered last, once each and in order, with their
    last number; a packet is a duplicate if its sender is among them, with its number, not too long ago. -/
structure Right (s : State α) : Prop where
  entries : ∀ j < cfg.maxSeqnos, match (recent cfg s.history)[j]? with
    | some r => (s.table j).sender = r.sender ∧ (s.table j).seqno.toNat = r.number.toNat
    | none => (s.table j).sender = cfg.null
  duplicate : ∀ ticks sender number, Call.Legal cfg s (.isDuplicate ticks sender number) →
    Call.Fits cfg s (.isDuplicate ticks sender number) →
    (isDuplicate cfg s.table ticks sender number = true ↔
      ∃ r ∈ recent cfg s.history, r.sender = sender ∧ number = r.number ∧
        (cfg.maxAge = 0 ∨ ticks - r.ticks ≤ cfg.maxAge))

/-- What holds between two calls. -/
structure Inv (s : State α) : Prop where
  mirrors : Mirrors cfg s.table s.history
  earlier : ∀ r ∈ s.history, r.ticks ≤ s.now
  numbers : ∀ r ∈ s.history, r.number.toNat < 256

variable {cfg}

theorem inv_start : Inv cfg (State.start cfg) :=
  ⟨⟨fun _ _ => rfl, nofun⟩, nofun,
    nofun⟩

variable {s : State α}

theorem Inv.step (h : Inv cfg s) {call : Call α} (hlegal : call.Legal cfg s) (hfits : call.Fits cfg s) :
    Inv cfg (s.step cfg call) := by
  cases call with
  | isDuplicate ticks sender number =>
    exact ⟨h.mirrors, fun r hr => le_trans (h.earlier r hr) hlegal.2, h.numbers⟩
  | register ticks sender number =>
    refine ⟨h.mirrors.register hlegal.1 ticks number, fun r hr => ?_, fun r hr => ?_⟩
    · rcases mem_cons.mp hr with rfl | hr
      · exact le_refl _
      · exact le_trans (h.earlier r hr) hlegal.2
    · rcases mem_cons.mp hr with rfl | hr
      · exact hfits
      · exact h.numbers r hr

theorem Inv.run (h : Inv cfg s) {calls : List (Call α)} (hfit : Fitting cfg s calls) :
    Inv cfg (s.run cfg calls) := by
  induction calls generalizing s with
  | nil => exact h
  | cons call calls ih => exact ih (h.step hfit.1 hfit.2.1) hfit.2.2

theorem Inv.right (h : Inv cfg s) : Right cfg s where
  entries j hj := by
    rw [recent, getElem?_take_of_lt hj, h.mirrors.entries j hj]
    cases hr : (latest Registration.sender s.history)[j]? with
    | none => rfl
    | some r =>
      have hlt := h.numbers r (mem_of_mem_latest (mem_of_getElem? hr))
      refine ⟨rfl, ?_⟩
      exact Nat.mod_eq_of_lt hlt
  duplicate ticks sender number hlegal hfits := by
    rw [h.mirrors.isDuplicate_iff hlegal.1 fun r hr => le_trans (h.earlier r hr) hlegal.2]
    refine exists_congr fun r => and_congr_right fun hr => and_congr_right fun heq => and_congr ?_ ?_
    · have hlt := h.numbers r (mem_of_mem_latest (mem_of_mem_take hr))
      rw [Nat.mod_eq_of_lt hlt, UInt16.toNat_inj]
    · by_cases hage : cfg.maxAge = 0
      · simp only [hage, true_or]
      · refine or_congr_right ⟨hfits r hr heq hage, fun hle => ?_⟩
        exact le_trans (Nat.mod_le _ _) hle

/-- DUPLICATES: in a run in which every number that is registered has eight bits and the clock shows the age of
    what is looked up, the filter is right in every state. -/
theorem run_right {calls : List (Call α)} (hfit : Fitting cfg (State.start cfg) calls) :
    Right cfg ((State.start cfg).run cfg calls) := (inv_start.run hfit).right

/-- Two packets of one sender. -/
def skyFilter : Config Nat := ⟨0, 16, Nat.succ_pos _, 20 * 128, 32⟩

theorem run_right_twice : Right skyFilter
    ((State.start skyFilter).run skyFilter [.register 5 7 1, .isDuplicate 6 7 1, .register 7 7 2]) := by
  have hone : (1 : UInt16).toNat < 256 := by decide
  have htwo : (2 : UInt16).toNat < 256 := by decide
  refine run_right ⟨⟨by decide, by decide⟩, hone, ⟨by decide, by decide⟩, fun r hr _ _ hmod => ?_,
    ⟨by decide, by decide⟩, htwo, trivial⟩
  rcases mem_cons.mp hr with rfl | hr
  · exact hmod
  · cases hr

/-- A frame without a number is registered: the table has 255, and the sender's next frame with that number
    is taken for a duplicate. -/
theorem suppressed_number : Call.Legal skyFilter (State.start skyFilter) (.register 5 7 0xffff) ∧
    ¬Right skyFilter ((State.start skyFilter).run skyFilter [.register 5 7 0xffff]) := by
  refine ⟨⟨by decide, by decide⟩, fun h => ?_⟩
  have hentry := (h.entries 0 (by decide)).2
  cases hentry

end CSync.MacSequence
