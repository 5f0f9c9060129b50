import CSync.Lib.Count
import CSync.Rpl.DagSteps

/-! The arithmetic of the configuration.

    A DIO configures divisors, shift amounts and intervals, and nothing checks them. If those that configure the node
    are within bounds, no later step divides by zero or shifts too far, and each interval is divided as it should. -/

namespace CSync.RplDag
open Lib

variable {c : Config}

/-- An operation with a result, and an interval `I` with a point between `I / 2` and `I`. -/
def Op.Sound (c : Config) : Op → Prop
  | .divide divisor => divisor ≠ 0
  | .shift amount => amount < 32
  | .interval intcurrent delay nextDelay =>
    let ticks := 2 ^ intcurrent.toNat * c.clockSecond.toNat / 1000
    ticks / 2 ≤ delay.toNat ∧ delay.toNat ≤ ticks ∧ delay.toNat + nextDelay.toNat = ticks
  | .copy _ => True
  | .compare _ => True

/-- An interval in range: its ticks fit before they are divided. -/
def IntervalFits (c : Config) (exponent : Nat) : Prop := exponent < 32 ∧ 2 ^ exponent * c.clockSecond.toNat < 2 ^ 32

/-- A lifetime that does not end at once, where it ends. -/
def LifetimeFits (c : Config) (lifetime : UInt8) (unit : UInt16) : Prop :=
  lifetime = infiniteLifetime ∨ 4 ≤ lifetime.toUInt32 * unit.toUInt32 * c.clockSecond

/-- The timers that a DIO configures are in range. -/
structure TimersFit (c : Config) (dio : Dio) : Prop where
  interval : IntervalFits c (dio.dagIntmin.toNat + dio.dagIntdoubl.toNat)
  lifetime : LifetimeFits c dio.defaultLifetime dio.lifetimeUnit

/-- A DIO with which the node joins has a rank increase and timers in range, one that repairs it has timers in range. -/
def Configurable (s : State c) : Event c → Prop
  | .dio _ cached dio =>
    (Joins s cached dio → dio.dagMinHoprankinc ≠ 0 ∧ TimersFit c dio) ∧ ∀ d, Repairs s dio d → TimersFit c dio
  | _ => True

/-- INVARIANT: the configuration is in range. -/
structure InRange (inst : Instance c) : Prop where
  minHoprankinc : inst.minHoprankinc ≠ 0
  widest : IntervalFits c (inst.dioIntmin.toNat + inst.dioIntdoubl.toNat)
  current : IntervalFits c inst.dioIntcurrent.toNat
  lifetime : LifetimeFits c inst.defaultLifetime inst.lifetimeUnit

def OpsSound (s : State c) : Prop := ∀ o ∈ s.ops, o.Sound c

variable {s : State c}

theorem OpsSound.op {o : Op} (h : OpsSound s) (ho : o.Sound c) : OpsSound (s.op o) := by
  intro o' ho'
  rcases List.mem_append.mp ho' with hold | hnew
  · exact h o' hold
  · rw [List.mem_singleton.mp hnew]
    exact ho

theorem IntervalFits.mono {a b : Nat} (h : IntervalFits c b) (hab : a ≤ b) : IntervalFits c a :=
  ⟨hab.trans_lt h.1, (Nat.mul_le_mul_right _ (Nat.pow_le_pow_right Nat.two_pos hab)).trans_lt h.2⟩

theorem toNat_ticks {exponent : Nat} (h : IntervalFits c exponent) :
    (UInt32.ofNat (2 ^ exponent) * c.clockSecond / 1000).toNat = 2 ^ exponent * c.clockSecond.toNat / 1000 := by
  have htime : (UInt32.ofNat (2 ^ exponent)).toNat = 2 ^ exponent :=
    UInt32.toNat_ofNat_of_lt' (Nat.pow_lt_pow_right Nat.one_lt_two h.1)
  rw [UInt32.toNat_div, UInt32.toNat_mul, htime, Nat.mod_eq_of_lt h.2]
  rfl

theorem randomPart_le (half random : Nat) (hr : random ≤ 65535) : half * random % 2 ^ 32 / 65535 ≤ half := by
  refine Nat.div_le_of_le_mul ?_
  calc half * random % 2 ^ 32 ≤ half * random := Nat.mod_le _ _
    _ ≤ half * 65535 := Nat.mul_le_mul_left half hr
    _ = 65535 * half := mul_comm _ _

theorem sound_interval {ticks : UInt32} {intcurrent : UInt8} (random : UInt16)
    (hticks : ticks.toNat = 2 ^ intcurrent.toNat * c.clockSecond.toNat / 1000) :
    let delay := ticks / 2 + ticks / 2 * random.toUInt32 / 65535
    (Op.interval intcurrent delay (ticks - delay)).Sound c := by
  intro delay
  have hlt := ticks.toNat_lt
  have hhalf : (ticks / 2).toNat = ticks.toNat / 2 := UInt32.toNat_div ..
  have hpart : (ticks / 2 * random.toUInt32 / 65535).toNat ≤ ticks.toNat / 2 := by
    exact randomPart_le _ _ (Nat.le_of_lt_succ random.toNat_lt)
  have hdelay : delay.toNat = ticks.toNat / 2 + (ticks / 2 * random.toUInt32 / 65535).toNat := by
    rw [UInt32.toNat_add, hhalf, Nat.mod_eq_of_lt (by omega)]
  have hle : delay ≤ ticks := by
    rw [UInt32.le_iff_toNat_le, hdelay]
    omega
  have hnext : (ticks - delay).toNat = ticks.toNat - delay.toNat := UInt32.toNat_sub_of_le _ _ hle
  rw [Op.Sound, ← hticks, hnext]
  omega

/-! ### Stability -/

theorem framed_opsSound : Framed (fun _ => True) (OpsSound (c := c)) where
  same := by
    intro s t hs hsame
    rw [OpsSound, hsame.ops]
    exact hs
  prefixes _ _ := trivial
  store _ _ _ hs := hs
  copy _ hs := hs.op trivial
  compare _ hs := hs.op trivial
  short _ _ := trivial

/-- The invariant of a node with an instance. -/
structure Configured (s : State c) : Prop where
  ops : OpsSound s
  inRange : InRange s.inst

theorem framed_configured : Framed (fun _ => True) (Configured (c := c)) where
  same := by
    intro s t hs hsame
    refine ⟨framed_opsSound.same hs.ops hsame, ?_⟩
    rw [hsame.inst]
    exact ⟨hs.inRange.minHoprankinc, hs.inRange.widest, hs.inRange.current, hs.inRange.lifetime⟩
  prefixes _ _ := trivial
  store _ _ _ hs := ⟨hs.ops, hs.inRange⟩
  copy _ hs := ⟨hs.ops.op trivial, hs.inRange⟩
  compare _ hs := ⟨hs.ops.op trivial, hs.inRange⟩
  short _ _ := trivial

theorem Configured.newDioInterval (h : Configured s) : Configured (newDioInterval s) := by
  have hlt := h.inRange.current.1
  have htime : s.inst.dioIntcurrent < 32 := UInt8.lt_iff_toNat_lt.mpr hlt
  refine ⟨?_, ⟨h.inRange.minHoprankinc, h.inRange.widest, h.inRange.current, h.inRange.lifetime⟩⟩
  rw [RplDag.newDioInterval, if_pos htime]
  refine (h.ops.op (o := .shift s.inst.dioIntcurrent.toNat) hlt).op ?_
  exact sound_interval (s.random 0) (toNat_ticks h.inRange.current)

theorem Configured.setDaoLifetimeTimer (h : Configured s) : Configured (setDaoLifetimeTimer s) := by
  rw [RplDag.setDaoLifetimeTimer]
  split
  · exact h
  · split
    · exact h
    next hlifetime =>
      have hfits := h.inRange.lifetime.resolve_left hlifetime
      have hdivisor : (s.inst.defaultLifetime.toUInt32 * s.inst.lifetimeUnit.toUInt32 * c.clockSecond / 2 / 2).toNat
          ≠ 0 := by
        change 4 ≤ (s.inst.defaultLifetime.toUInt32 * s.inst.lifetimeUnit.toUInt32 * c.clockSecond).toNat at hfits
        change (s.inst.defaultLifetime.toUInt32 * s.inst.lifetimeUnit.toUInt32 * c.clockSecond).toNat / 2 / 2 ≠ 0
        omega
      exact framed_configured.same (s := s.op (.divide _)) ⟨h.ops.op hdivisor, h.inRange⟩ ⟨rfl, fun _ => rfl, rfl⟩

theorem stable_configured : Stable (fun _ => True) (Configured (c := c)) where
  toFramed := framed_configured
  divide := by
    intro s hs
    refine ⟨hs.ops.op fun hzero => hs.inRange.minHoprankinc ?_, hs.inRange⟩
    exact UInt16.toNat_inj.mp hzero
  restart := by
    intro s _ hs
    exact ⟨hs.ops, ⟨hs.inRange.minHoprankinc, hs.inRange.widest,
      hs.inRange.widest.mono (Nat.le_add_right _ _), hs.inRange.lifetime⟩⟩
  double := by
    intro s hlt hs
    have hsmall := hs.inRange.widest.1
    have hnext : (s.inst.dioIntcurrent + 1).toNat = s.inst.dioIntcurrent.toNat + 1 := toNat_succ_uint8 (by omega)
    refine ⟨hs.ops, ⟨hs.inRange.minHoprankinc, hs.inRange.widest, ?_, hs.inRange.lifetime⟩⟩
    rw [hnext]
    exact hs.inRange.widest.mono hlt
  newDioInterval hs := hs.newDioInterval
  setDaoLifetimeTimer hs := hs.setDaoLifetimeTimer
  refreshLifetime d hs := ⟨hs.ops.op hs.inRange.widest.1, hs.inRange⟩

theorem mayConfigure {src : c.Nbr} {cached : Cached} {dio : Dio} (hok : Configurable s (.dio src cached dio)) :
    MayConfigure (fun _ => True) OpsSound Configured s cached dio where
  join hjoins := by
    obtain ⟨hinc, hfit⟩ := hok.1 hjoins
    refine ⟨trivial, fun of d t ht => ⟨ht, ⟨hinc, hfit.interval, ?_, hfit.lifetime⟩⟩⟩
    have hsum : (dio.dagIntmin + dio.dagIntdoubl).toNat = dio.dagIntmin.toNat + dio.dagIntdoubl.toNat := by
      have hlt := hfit.interval.1
      rw [UInt8.toNat_add]
      omega
    change IntervalFits c (dio.dagIntmin + dio.dagIntdoubl).toNat
    rw [hsum]
    exact hfit.interval
  add _ := trivial
  repair d hrepairs t ht := by
    have hfit := hok.2 d hrepairs
    exact ⟨ht.ops, ⟨ht.inRange.minHoprankinc, hfit.interval, ht.inRange.current, hfit.lifetime⟩⟩

/-- Over every run in which no DIO configures the node out of range, every division and every shift has a result,
    and every DIO interval is divided between its middle and its end. -/
theorem configuration_sound {d : c.DagIdx} {random : Nat → UInt16} {es : List (Event c)} {s : State c}
    (hrun : Run step Configurable (init c d random) es s) : ∀ o ∈ s.ops, o.Sound c := by
  have hinit : Holds OpsSound Configured (init c d random) := by
    refine ⟨fun o ho => ?_, fun hused => ?_⟩
    · cases ho
    · cases hused
  refine (hrun.invariant (P := Holds OpsSound Configured) (fun s e t hs hok hstep => ?_) hinit).1
  refine Holds.step framed_opsSound stable_configured (fun _ ht => ht.ops) (fun _ _ ht => ht) hs ?_ hstep
  rintro src cached dio rfl
  exact mayConfigure hok

/-! ### DIOs -/

instance (o : Op) : Decidable (o.Sound c) :=
  match o with
  | .divide divisor => inferInstanceAs (Decidable (divisor ≠ 0))
  | .shift amount => inferInstanceAs (Decidable (amount < 32))
  | .interval _ _ _ => inferInstanceAs (Decidable (_ ∧ _ ∧ _))
  | .copy _ => .isTrue trivial
  | .compare _ => .isTrue trivial

instance (exponent : Nat) : Decidable (IntervalFits c exponent) := inferInstanceAs (Decidable (_ ∧ _))

instance (lifetime : UInt8) (unit : UInt16) : Decidable (LifetimeFits c lifetime unit) :=
  inferInstanceAs (Decidable (_ ∨ _))

instance (dio : Dio) : Decidable (TimersFit c dio) :=
  decidable_of_iff (IntervalFits c (dio.dagIntmin.toNat + dio.dagIntdoubl.toNat) ∧
    LifetimeFits c dio.defaultLifetime dio.lifetimeUnit) ⟨fun h => ⟨h.1, h.2⟩, fun h => ⟨h.1, h.2⟩⟩

instance (s : State c) (cached : Cached) (dio : Dio) : Decidable (Joins s cached dio) :=
  decidable_of_iff (dio.mop = c.mopDefault ∧ s.inst.used = false ∧ cached ≠ .full ∧ (c.findOf dio.ocp).isSome)
    ⟨fun h => ⟨h.1, h.2.1, h.2.2.1, h.2.2.2⟩, fun h => ⟨h.1, h.2, h.3, h.4⟩⟩

instance (s : State c) (dio : Dio) (d : c.DagIdx) : Decidable (Repairs s dio d) :=
  decidable_of_iff (dio.mop = c.mopDefault ∧ getDag dio s = some d ∧
    lollipopGreaterThan dio.version (s.dag d).version = true ∧ (s.dag d).rank ≠ s.rootRank)
    ⟨fun h => ⟨h.1, h.2.1, h.2.2.1, h.2.2.2⟩, fun h => ⟨h.1, h.2, h.3, h.4⟩⟩

instance (s : State c) : (e : Event c) → Decidable (Configurable s e)
  | .dio _ cached dio => inferInstanceAs (Decidable ((Joins s cached dio → dio.dagMinHoprankinc ≠ 0 ∧
      TimersFit c dio) ∧ ∀ d, Repairs s dio d → TimersFit c dio))
  | .removeNeighbor _ | .linkStats .. | .neighborState .. | .recalculateRanks | .localRepair | .purgeDags | .dao _
  | .resetDioTimer | .dioTimer _ | .daoTimer .. | .scheduleDao _ | .setMode _ => .isTrue trivial

/-- Storing mode with two neighbors and two DAGs, for MRHOF. -/
def twoNeighbors : Config := ⟨2, 2, 128, 2, false, 3, fun ocp => if ocp = 1 then some .mrhof else none⟩

def firstNbr : twoNeighbors.Nbr := ⟨0, by decide⟩

/-- What a root announces, with its configuration. -/
def rootDio (version dagIntdoubl dagIntmin defaultLifetime : UInt8) (dagMinHoprankinc : UInt16) : Dio :=
  ⟨fun _ => 1, 1, 256, 1, 2, 0, version, 30, 240, dagIntdoubl, dagIntmin, 10, defaultLifetime, 60, 1792,
    dagMinHoprankinc, emptyPrefix⟩

/-- The node joins, hears the root again, and its timers fire. -/
def joinedRun (dagIntdoubl dagIntmin defaultLifetime : UInt8) (dagMinHoprankinc : UInt16) :
    List (Event twoNeighbors) :=
  let dio := rootDio 240 dagIntdoubl dagIntmin defaultLifetime dagMinHoprankinc
  [.dio firstNbr .added dio, .linkStats firstNbr (some 128) true true, .dio firstNbr .known dio, .dioTimer true,
    .daoTimer true false]

/-- Nothing was random yet. -/
def start : State twoNeighbors := init twoNeighbors ⟨0, by decide⟩ fun n => UInt16.ofNat (n * 4711)

theorem configuration_sound_joined : ∃ s : State twoNeighbors,
    Run step Configurable start (joinedRun 8 12 30 256) s ∧ s.ops.length = 8 ∧ ∀ o ∈ s.ops, o.Sound twoNeighbors := by
  obtain ⟨s, hrun, hs⟩ : ∃ s : State twoNeighbors, Run step Configurable start (joinedRun 8 12 30 256) s ∧ _ :=
    exists_run (fun s e => decide (Configurable s e)) (fun s : State twoNeighbors => decide (s.ops.length = 8))
      (fun _ _ => of_decide_eq_true) (by decide)
  exact ⟨s, hrun, of_decide_eq_true hs, configuration_sound hrun⟩

/-- A run with an operation that has no result. -/
def Fails (run : List (Event twoNeighbors)) : Prop :=
  ∃ s : State twoNeighbors, Run step (fun _ _ => True) start run s ∧ ¬∀ o ∈ s.ops, o.Sound twoNeighbors

theorem fails_of_exec {run : List (Event twoNeighbors)} (h : (exec step (fun _ _ => true) start run).any
    (fun s => decide (¬∀ o ∈ s.ops, o.Sound twoNeighbors)) = true) : Fails run := by
  obtain ⟨s, hrun, hs⟩ := exists_run (fun _ _ => true) _ (fun _ _ _ => trivial) h
  exact ⟨s, hrun, of_decide_eq_true hs⟩

/-- A rank increase of zero, a shift that is too far, an interval that does not fit, and a lifetime that ends at
    once. -/
theorem configuration_unsound : Fails (joinedRun 8 12 30 0) ∧ Fails (joinedRun 8 32 30 256) ∧ Fails (joinedRun 1 25 30
    256) ∧ Fails (joinedRun 8 12 0 256) :=
  ⟨fails_of_exec (by decide), fails_of_exec (by decide), fails_of_exec (by decide), fails_of_exec (by decide)⟩

end CSync.RplDag
