import CSync.Lib.LeadingZeros
import CSync.Lib.Run

/-! The trickle timer (`core/lib/trickle-timer.c`), built with `TRICKLE_TIMER_ERROR_CHECKING`.

    Times are `clock_time_t` values, natural numbers below `2 ^ width` with every operation of the source reduced at
    that width. What C leaves open, a shift by the width of its operand or more, is a parameter of the machine. A
    random draw is any natural number: the source reduces it with `%` before it is used. What the protocol's callback
    calls from inside `fire` are events of their own, ahead of that `fire`. -/

namespace CSync.Trickle

open Lib Lib.LeadingZeros Option

/-- `TRICKLE_TIMER_MAX_IMAX_WIDTH`. -/
inductive Flavour where | generic | bits16 | bits32
  deriving DecidableEq

/-- The platform: the width of `clock_time_t`, the build options, and what its shift instructions
    make of a distance that C does not define. -/
structure Machine where
  width : Nat
  flavour : Flavour
  compensateDrift : Bool
  farRight : Nat → Nat → Nat
  farLeft : Nat → Nat → Nat
  width_ok : width = 16 ∨ width = 32
  flavour_ok : (flavour = .bits16 → width = 16) ∧ (flavour = .bits32 → width = 32)

namespace Machine

variable (m : Machine)

/-- `TRICKLE_TIMER_CLOCK_MAX`. -/
def clockMax : Nat := 2 ^ m.width - 1

/-- Reduce to the width of the clock. -/
def clip (v : Nat) : Nat := v % 2 ^ m.width

def shr (v n : Nat) : Nat := if n < m.width then v >>> n else m.clip (m.farRight v n)

def shl (v n : Nat) : Nat := if n < m.width then m.clip (v <<< n) else m.clip (m.farLeft v n)

/-- `a - b` in `clock_time_t`. -/
def minus (a b : Nat) : Nat := m.clip (a + (2 ^ m.width - m.clip b))

end Machine

/-- The function a ctimer calls when it expires. -/
inductive Callback where | fire | doubleInterval
  deriving DecidableEq

/-- `struct ctimer`, as far as `trickle-timer.c` reads it. -/
structure Ctimer where
  start : Nat
  interval : Nat
  f : Callback
  deriving DecidableEq

/-- `struct trickle_timer`; `t` is the value `get_t` returned for the current interval. -/
structure TrickleTimer where
  iMin : Nat
  iCur : Nat
  iStart : Nat
  iMaxAbs : Nat
  ct : Ctimer
  cb : Option Nat
  iMax : Nat
  k : Nat
  c : Nat
  t : Nat
  deriving DecidableEq

/-- The loop of the generic flavour; `i` halves from half the width down to one. -/
def genericLoop (w : Nat) : Nat → Nat → Nat → Nat × Nat → Nat × Nat
  | 0, _, _, s => s
  | fuel + 1, i, mask, s =>
    if i = 0 then s
    else
      let mask := (mask <<< i) % 2 ^ w
      genericLoop w fuel (i / 2) mask (narrow w mask i s)

/-- The number of zeros the three flavours of `max_imax` count. The last test of the fixed flavours
    leaves out the shift of a value that nobody reads any more. -/
def zeros (m : Machine) (value : Nat) : Nat :=
  match m.flavour with
  | .generic => (genericLoop m.width m.width (m.width / 2) 0xFFFF (0, m.minus value 1)).1
  | .bits16 =>
    (narrow 16 0x8000 1 (narrow 16 0xC000 2 (narrow 16 0xF000 4 (narrow 16 0xFF00 8
      (0, value))))).1
  | .bits32 =>
    (narrow 32 0x80000000 1 (narrow 32 0xC0000000 2 (narrow 32 0xF0000000 4
      (narrow 32 0xFF000000 8 (narrow 32 0xFFFF0000 16 (0, value)))))).1

/-- `max_imax`: the largest sane number of doublings of `value`. -/
def maxImax (m : Machine) (value : Nat) : Nat := zeros m value - 1

/-- `TRICKLE_TIMER_IMIN_IS_BAD`. -/
def iminIsBad (m : Machine) (iMin : Nat) : Bool := iMin < 2 || m.shr m.clockMax 1 < iMin

/-- `TRICKLE_TIMER_IPAIR_IS_BAD`. -/
def ipairIsBad (m : Machine) (iMin iMax : Nat) : Bool := m.shr m.clockMax (iMax + 1) < iMin - 1

/-- `trickle_timer_config`; `none` for `TRICKLE_TIMER_ERROR`. -/
def trickleTimerConfig (m : Machine) (tt : TrickleTimer) (iMin iMax k : Nat) :
    Option TrickleTimer :=
  if iminIsBad m iMin then none
  else if iMax = 0 ∨ k = 0 then none
  else
    let iMax := if ipairIsBad m iMin iMax then maxImax m iMin else iMax
    some { tt with iMin := iMin, iMax := iMax, iMaxAbs := m.shl iMin iMax, k := k }

/-- `get_t`: a time in `[I/2, I)`. -/
def getT (m : Machine) (iCur draw : Nat) : Nat := m.clip (m.shr iCur 1 + draw % m.shr iCur 1)

def intervalEnd (m : Machine) (tt : TrickleTimer) : Nat := m.clip (tt.iStart + tt.iCur)

def ctimerSet (tt : TrickleTimer) (now t : Nat) (f : Callback) : TrickleTimer :=
  { tt with ct := ⟨now, t, f⟩ }

/-- A distance in the upper half of the clock range lies in the past: schedule in 0. -/
def notInPast (m : Machine) (loc : Nat) : Nat := if m.shr m.clockMax 1 < loc then 0 else loc

def scheduleForEnd (m : Machine) (tt : TrickleTimer) (now : Nat) : TrickleTimer :=
  ctimerSet tt now (notInPast m (m.minus (intervalEnd m tt) now)) .doubleInterval

/-- The interval `double_interval` goes on with. -/
def nextInterval (m : Machine) (tt : TrickleTimer) : Nat :=
  if tt.iCur ≤ m.shr tt.iMaxAbs 1 then m.shl tt.iCur 1 else tt.iMaxAbs

def doubleInterval (m : Machine) (tt : TrickleTimer) (draw now : Nat) : TrickleTimer :=
  let lastEnd := intervalEnd m tt
  let iCur := nextInterval m tt
  let t := getT m iCur draw
  let tt := { tt with c := 0, iCur := iCur, t := t }
  if m.compensateDrift then
    { ctimerSet tt now (notInPast m (m.minus (lastEnd + t) now)) .fire with iStart := lastEnd }
  else
    { ctimerSet tt now t .fire with iStart := now }

def isRunning (tt : TrickleTimer) : Bool := tt.iCur != 0

/-- `fire`, behind the call of the protocol's callback. -/
def fire (m : Machine) (tt : TrickleTimer) (now : Nat) : TrickleTimer :=
  if isRunning tt then scheduleForEnd m tt now else tt

def newInterval (m : Machine) (tt : TrickleTimer) (draw now : Nat) : TrickleTimer :=
  let t := getT m tt.iCur draw
  { ctimerSet { tt with c := 0, t := t } now t .fire with iStart := now }

def trickleTimerConsistency (tt : TrickleTimer) : TrickleTimer :=
  if tt.c < 0xFF then { tt with c := tt.c + 1 } else tt

/-- `trickle_timer_inconsistency`; `trickle_timer_reset_event` is another name for it. -/
def trickleTimerInconsistency (m : Machine) (tt : TrickleTimer) (draw now : Nat) : TrickleTimer :=
  if tt.iCur ≠ tt.iMin then newInterval m { tt with iCur := tt.iMin } draw now else tt

def drawnInterval (m : Machine) (tt : TrickleTimer) (draw : Nat) : Nat :=
  m.clip (tt.iMin + draw % m.clip (m.minus tt.iMaxAbs tt.iMin + 1))

/-- `trickle_timer_set`; `none` for `TRICKLE_TIMER_ERROR`. -/
def trickleTimerSet (m : Machine) (tt : TrickleTimer) (cb : Option Nat) (draw draw' now : Nat) :
    Option TrickleTimer :=
  if cb = none then none
  else some (newInterval m { tt with cb := cb, iCur := drawnInterval m tt draw } draw' now)

/-- What happens to a configured timer. -/
inductive Event where
  | set (cb : Option Nat) (draw draw' now : Nat)
  | consistency
  | inconsistency (draw now : Nat)
  | resetEvent (draw now : Nat)
  | fire (now : Nat)
  | doubleInterval (draw now : Nat)
  deriving DecidableEq

/-- One event; a rejected `trickle_timer_set` leaves the timer as it is. -/
def step (m : Machine) (tt : TrickleTimer) : Event → Option TrickleTimer
  | .set cb draw draw' now => some ((trickleTimerSet m tt cb draw draw' now).getD tt)
  | .consistency => some (trickleTimerConsistency tt)
  | .inconsistency draw now => some (trickleTimerInconsistency m tt draw now)
  | .resetEvent draw now => some (trickleTimerInconsistency m tt draw now)
  | .fire now => some (fire m tt now)
  | .doubleInterval draw now => some (doubleInterval m tt draw now)

/-- The event puts the interval back to `i_min`. -/
def Event.Resets : Event → Prop
  | .inconsistency .. | .resetEvent .. => True
  | _ => False

def Event.Draws : Event → Prop
  | .set cb .. => cb ≠ none
  | _ => False

/-! ### Clock arithmetic -/

namespace Machine

variable {m : Machine}

theorem width_pos (m : Machine) : 2 ≤ m.width := by
  rcases m.width_ok with h | h <;> omega

theorem clip_of_lt {v : Nat} (h : v < 2 ^ m.width) : m.clip v = v := Nat.mod_eq_of_lt h

theorem shr_one (v : Nat) : m.shr v 1 = v / 2 := by
  have := m.width_pos
  rw [shr, if_pos (by omega), Nat.shiftRight_one]

theorem half_pow (m : Machine) : 2 ^ m.width = 2 * 2 ^ (m.width - 1) := by
  have := m.width_pos
  rw [← pow_succ', Nat.sub_add_cancel (by omega)]

theorem clockMax_half (m : Machine) : m.shr m.clockMax 1 = 2 ^ (m.width - 1) - 1 := by
  rw [shr_one, clockMax]
  have := m.half_pow
  omega

theorem minus_of_le {a b : Nat} (h : b ≤ a) (ha : a < 2 ^ m.width) : m.minus a b = a - b := by
  unfold minus
  rw [clip_of_lt (lt_of_le_of_lt h ha), show a + (2 ^ m.width - b) = a - b + 2 ^ m.width by omega, clip,
    Nat.add_mod_right, Nat.mod_eq_of_lt (by omega)]

theorem shl_of_lt {v n : Nat} (hn : n < m.width) (h : v * 2 ^ n < 2 ^ m.width) : m.shl v n = v * 2 ^ n := by
  rw [shl, if_pos hn, Nat.shiftLeft_eq, clip_of_lt h]

end Machine

/-! ### The number of doublings -/

variable {m : Machine}

/-- On the widths the flavours are written for, the loop is the five (or four) tests written out. -/
theorem zeros_generic16 (hf : m.flavour = .generic) (hw : m.width = 16) (v : Nat) :
    zeros m v =
      (narrow 16 (top 16 1) 1 (narrow 16 (top 16 2) 2
        (narrow 16 (top 16 4) 4 (narrow 16 (top 16 8) 8 (0, m.minus v 1))))).1 := by
  unfold zeros
  rw [hf, hw]
  rfl

theorem zeros_generic32 (hf : m.flavour = .generic) (hw : m.width = 32) (v : Nat) :
    zeros m v =
      (narrow 32 (top 32 1) 1 (narrow 32 (top 32 2) 2
        (narrow 32 (top 32 4) 4 (narrow 32 (top 32 8) 8 (narrow 32 (top 32 16) 16 (0, m.minus v 1)))))).1 := by
  unfold zeros
  rw [hf, hw]
  rfl

/-- Four tests of a 16-bit value. -/
theorem counts16 {v : Nat} (hv : v < 2 ^ 15) : ∃ s, Counts 16 v s ∧ 1 ≤ s.1 ∧ s = narrow 16 (top 16 1) 1 (narrow 16
    (top 16 2) 2 (narrow 16 (top 16 4) 4 (narrow 16 (top 16 8) 8 (0, v)))) := by
  have h0 : Counts 16 v (0, v) := ⟨by simp, by dsimp only; omega⟩
  have h := ((h0.narrow (i := 8) (by decide)).narrow (i := 4) (by decide)).narrow (i := 2) (by decide)
  exact ⟨_, h.narrow (i := 1) (by decide), narrow_one_pos (by decide) h hv, rfl⟩

/-- Five tests of a 32-bit value. -/
theorem counts32 {v : Nat} (hv : v < 2 ^ 31) : ∃ s, Counts 32 v s ∧ 1 ≤ s.1 ∧ s = narrow 32 (top 32 1) 1 (narrow 32
    (top 32 2) 2 (narrow 32 (top 32 4) 4 (narrow 32 (top 32 8) 8 (narrow 32 (top 32 16) 16 (0, v))))) := by
  have h0 : Counts 32 v (0, v) := ⟨by simp, by dsimp only; omega⟩
  have h := (((h0.narrow (i := 16) (by decide)).narrow (i := 8) (by decide)).narrow (i := 4)
    (by decide)).narrow (i := 2) (by decide)
  exact ⟨_, h.narrow (i := 1) (by decide), narrow_one_pos (by decide) h hv, rfl⟩

theorem zeros_counts (m : Machine) {iMin : Nat} (h2 : 2 ≤ iMin) (hmax : iMin < 2 ^ (m.width - 1)) :
    ∃ v s, (v = iMin ∨ v + 1 = iMin) ∧ Counts m.width v s ∧ 1 ≤ s.1 ∧ zeros m iMin = s.1 := by
  have hlt : iMin < 2 ^ m.width := by have := m.half_pow; omega
  have hpred : m.minus iMin 1 = iMin - 1 := Machine.minus_of_le (by omega) hlt
  rcases hf : m.flavour with _ | _ | _
  · rcases m.width_ok with hw | hw
    · rw [hw] at hmax ⊢
      obtain ⟨s, hs, hpos, heq⟩ := counts16 (v := iMin - 1) (by omega)
      refine ⟨iMin - 1, s, .inr (by omega), hs, hpos, ?_⟩
      rw [zeros_generic16 hf hw, hpred, heq]
    · rw [hw] at hmax ⊢
      obtain ⟨s, hs, hpos, heq⟩ := counts32 (v := iMin - 1) (by omega)
      refine ⟨iMin - 1, s, .inr (by omega), hs, hpos, ?_⟩
      rw [zeros_generic32 hf hw, hpred, heq]
  · have hw := m.flavour_ok.1 hf
    rw [hw] at hmax ⊢
    obtain ⟨s, hs, hpos, heq⟩ := counts16 (v := iMin) (by omega)
    refine ⟨iMin, s, .inl rfl, hs, hpos, ?_⟩
    rw [heq, zeros, hf]
    rfl
  · have hw := m.flavour_ok.2 hf
    rw [hw] at hmax ⊢
    obtain ⟨s, hs, hpos, heq⟩ := counts32 (v := iMin) (by omega)
    refine ⟨iMin, s, .inl rfl, hs, hpos, ?_⟩
    rw [heq, zeros, hf]
    rfl

theorem maxImax_fits (m : Machine) {iMin : Nat} (h2 : 2 ≤ iMin) (hmax : iMin < 2 ^ (m.width - 1)) :
    maxImax m iMin < m.width ∧ iMin * 2 ^ maxImax m iMin ≤ 2 ^ (m.width - 1) := by
  obtain ⟨v, s, hv, hs, hpos, hz⟩ := zeros_counts m h2 hmax
  have hlt : s.1 < m.width := hs.lt (by omega)
  have hle : iMin * 2 ^ s.1 ≤ 2 ^ m.width := by
    have hstep := hs.succ_mul_le hlt.le
    refine le_trans (Nat.mul_le_mul_right _ ?_) hstep
    omega
  rw [maxImax, hz]
  refine ⟨by omega, ?_⟩
  have htwice : iMin * 2 ^ s.1 = 2 * (iMin * 2 ^ (s.1 - 1)) := by
    rw [show s.1 = s.1 - 1 + 1 by omega, pow_succ]
    simp only [Nat.add_sub_cancel]
    ring
  rw [htwice, m.half_pow] at hle
  omega

/-- The shift of the range check stays within the clock, or the machine shifts everything out. -/
def ShiftDefined (m : Machine) (iMax : Nat) : Prop :=
  iMax + 1 < m.width ∨ ∀ v n, m.width ≤ n → m.shr v n = 0

/-- What a configured timer has, and no event changes: an interval range inside the clock's. -/
structure Configured (m : Machine) (tt : TrickleTimer) : Prop where
  two_le : 2 ≤ tt.iMin
  iMaxAbs_eq : tt.iMaxAbs = tt.iMin * 2 ^ tt.iMax
  iMaxAbs_le : tt.iMaxAbs ≤ 2 ^ (m.width - 1)

/-- A pair that passes the check doubles within the lower half of the clock range. -/
theorem ipair_fits {iMin iMax : Nat} (h2 : 2 ≤ iMin) (hs : ShiftDefined m iMax) (hok : ¬ ipairIsBad m
    iMin iMax) : iMax < m.width ∧ iMin * 2 ^ iMax ≤ 2 ^ (m.width - 1) := by
  simp only [ipairIsBad, decide_eq_true_eq, not_lt] at hok
  rcases lt_or_ge (iMax + 1) m.width with hlt | hge
  · refine ⟨by omega, ?_⟩
    rw [Machine.shr, if_pos hlt, Nat.shiftRight_eq_div_pow, Machine.clockMax,
      Nat.le_div_iff_mul_le (Nat.two_pow_pos _)] at hok
    have hle : iMin * 2 ^ (iMax + 1) ≤ 2 ^ m.width := by
      have hdvd : (2 : Nat) ^ (iMax + 1) ∣ 2 ^ m.width := pow_dvd_pow 2 hlt.le
      obtain ⟨q, hq⟩ := hdvd
      have hpos := Nat.two_pow_pos m.width
      have hqlt : (iMin - 1) < q := by
        by_contra hcon
        have := Nat.mul_le_mul_right (2 ^ (iMax + 1)) (Nat.not_lt.mp hcon)
        rw [mul_comm q, ← hq] at this
        omega
      rw [hq, mul_comm]
      exact Nat.mul_le_mul_left _ (by omega)
    rw [pow_succ, m.half_pow, ← mul_assoc] at hle
    omega
  · rcases hs with hlt | hz
    · omega
    · rw [hz _ _ hge] at hok
      omega

/-- An accepted configuration is one. -/
theorem trickleTimerConfig_configured {tt₀ tt : TrickleTimer} {iMin iMax k : Nat} (hs : ShiftDefined m
    iMax) (h : trickleTimerConfig m tt₀ iMin iMax k = some tt) : Configured m tt := by
  unfold trickleTimerConfig at h
  split at h
  · cases h
  next hbad =>
    split at h
    · cases h
    · rw [some.injEq] at h
      rw [iminIsBad, m.clockMax_half] at hbad
      simp only [Bool.or_eq_true, decide_eq_true_eq, not_or, not_lt] at hbad
      have hfit : ∀ n, n < m.width ∧ iMin * 2 ^ n ≤ 2 ^ (m.width - 1) → m.shl iMin n = iMin * 2 ^ n := by
        intro n hn
        exact Machine.shl_of_lt hn.1 (by have := m.half_pow; omega)
      subst h
      split
      · have hmax := @maxImax_fits m iMin hbad.1 (by omega)
        exact ⟨hbad.1, hfit _ hmax, (hfit _ hmax).trans_le hmax.2⟩
      next hpair =>
        have hmax := ipair_fits hbad.1 hs hpair
        exact ⟨hbad.1, hfit _ hmax, (hfit _ hmax).trans_le hmax.2⟩

/-! ### Intervals -/

/-- The interval is within its range, and the time picked in its second half. -/
structure Sane (m : Machine) (tt : TrickleTimer) : Prop extends Configured m tt where
  iMin_le : tt.iMin ≤ tt.iCur
  le_iMaxAbs : tt.iCur ≤ tt.iMaxAbs
  half_le : tt.iCur / 2 ≤ tt.t
  t_lt : tt.t < tt.iCur

/-- `get_t` keeps its promise for every interval of the lower half of the clock range. -/
theorem getT_mem {i : Nat} (draw : Nat) (h2 : 2 ≤ i) (hi : i ≤ 2 ^ (m.width - 1)) :
    i / 2 ≤ getT m i draw ∧ getT m i draw < i := by
  have hmod : draw % (i / 2) < i / 2 := Nat.mod_lt _ (by omega)
  have hpow := m.half_pow
  rw [getT, Machine.shr_one, Machine.clip_of_lt (by omega)]
  omega

variable {tt : TrickleTimer}

/-- The interval to go on with: twice the last one, or the largest. -/
theorem nextInterval_eq (h : Sane m tt) : nextInterval m tt = 2 * tt.iCur ∧ 2 *
    tt.iCur ≤ tt.iMaxAbs ∨ nextInterval m tt = tt.iMaxAbs := by
  unfold nextInterval
  split
  next hle =>
    rw [Machine.shr_one] at hle
    have hpow := m.half_pow
    have hpos := Nat.two_pow_pos (m.width - 1)
    have hw := m.width_pos
    have hmax := h.iMaxAbs_le
    left
    rw [Machine.shl_of_lt (by omega) (by omega), pow_one]
    omega
  · exact .inr rfl

theorem drawnInterval_eq (h : Configured m tt) (draw : Nat) : drawnInterval m tt
    draw = tt.iMin + draw % (tt.iMaxAbs - tt.iMin + 1) ∧ drawnInterval m tt draw ≤ tt.iMaxAbs := by
  have hle : tt.iMin ≤ tt.iMaxAbs := by
    rw [h.iMaxAbs_eq]; exact Nat.le_mul_of_pos_right _ (Nat.two_pow_pos _)
  have hpow := m.half_pow
  have h2 := h.two_le
  have hmax := h.iMaxAbs_le
  have hmod : draw % (tt.iMaxAbs - tt.iMin + 1) < tt.iMaxAbs - tt.iMin + 1 := Nat.mod_lt _ (by omega)
  unfold drawnInterval
  rw [Machine.minus_of_le hle (by omega), Machine.clip_of_lt (v := tt.iMaxAbs - tt.iMin + 1) (by omega),
    Machine.clip_of_lt (by omega)]
  exact ⟨rfl, by omega⟩

theorem Configured.newInterval (h : Configured m tt) (hmin : tt.iMin ≤ tt.iCur)
    (hmax : tt.iCur ≤ tt.iMaxAbs) (draw now : Nat) : Sane m (newInterval m tt draw now) := by
  have ht := getT_mem draw (le_trans h.two_le hmin) (le_trans hmax h.iMaxAbs_le)
  exact ⟨⟨h.two_le, h.iMaxAbs_eq, h.iMaxAbs_le⟩, hmin, hmax, ht.1, ht.2⟩

theorem Configured.set (h : Configured m tt) {cb : Option Nat} (draw draw' now : Nat) (hcb : cb ≠ none) :
    ∃ tt',
      trickleTimerSet m tt cb draw draw' now = some tt' ∧
      Sane m tt' ∧
      tt'.iCur = drawnInterval m tt draw ∧
      tt'.iMin = tt.iMin ∧
      tt'.iMax = tt.iMax ∧
      tt'.iMaxAbs = tt.iMaxAbs := by
  obtain ⟨hd, hle⟩ := drawnInterval_eq h draw
  have hset : Configured m { tt with cb := cb, iCur := drawnInterval m tt draw } :=
    ⟨h.two_le, h.iMaxAbs_eq, h.iMaxAbs_le⟩
  have hmin : tt.iMin ≤ drawnInterval m tt draw := by
    rw [hd]; exact Nat.le_add_right _ _
  exact ⟨_, if_neg hcb, hset.newInterval hmin hle draw' now, rfl, rfl, rfl, rfl⟩

variable {tt' : TrickleTimer} {e : Event} {es : List Event}

/-- STEP: every event keeps the timer sane and its range as configured. -/
theorem Sane.step (h : Sane m tt) (hs : step m tt e = some tt') :
    Sane m tt' ∧ tt'.iMin = tt.iMin ∧ tt'.iMax = tt.iMax ∧ tt'.iMaxAbs = tt.iMaxAbs := by
  have hconf := h.toConfigured
  cases e with
  | set cb draw draw' now =>
    rw [Trickle.step, some.injEq] at hs
    rcases eq_or_ne cb none with hcb | hcb
    · rw [trickleTimerSet, if_pos hcb] at hs
      subst hs
      exact ⟨h, rfl, rfl, rfl⟩
    · obtain ⟨u, hu, hsane, -, h1, h2, h3⟩ := hconf.set draw draw' now hcb
      rw [hu] at hs
      subst hs
      exact ⟨hsane, h1, h2, h3⟩
  | consistency =>
    rw [Trickle.step, some.injEq, trickleTimerConsistency] at hs
    split at hs <;> subst hs
    · exact ⟨⟨⟨h.two_le, h.iMaxAbs_eq, h.iMaxAbs_le⟩, h.iMin_le, h.le_iMaxAbs, h.half_le, h.t_lt⟩, rfl, rfl, rfl⟩
    · exact ⟨h, rfl, rfl, rfl⟩
  | inconsistency draw now | resetEvent draw now =>
    rw [Trickle.step, some.injEq, trickleTimerInconsistency] at hs
    split at hs <;> subst hs
    · have hset : Configured m { tt with iCur := tt.iMin } := ⟨h.two_le, h.iMaxAbs_eq, h.iMaxAbs_le⟩
      exact ⟨hset.newInterval le_rfl (le_trans h.iMin_le h.le_iMaxAbs) draw now, rfl, rfl, rfl⟩
    · exact ⟨h, rfl, rfl, rfl⟩
  | fire now =>
    rw [Trickle.step, some.injEq, Trickle.fire] at hs
    split at hs <;> subst hs
    · exact ⟨⟨⟨h.two_le, h.iMaxAbs_eq, h.iMaxAbs_le⟩, h.iMin_le, h.le_iMaxAbs, h.half_le, h.t_lt⟩, rfl, rfl, rfl⟩
    · exact ⟨h, rfl, rfl, rfl⟩
  | doubleInterval draw now =>
    rw [Trickle.step, some.injEq] at hs
    have hlo : tt.iMin ≤ nextInterval m tt := by
      rcases nextInterval_eq h with ⟨he, -⟩ | he <;> rw [he] <;> have := h.iMin_le <;>
        have := h.le_iMaxAbs <;> omega
    have hhi : nextInterval m tt ≤ tt.iMaxAbs := by
      rcases nextInterval_eq h with ⟨he, hle⟩ | he <;> omega
    have ht := getT_mem draw (le_trans h.two_le hlo) (le_trans hhi h.iMaxAbs_le)
    rw [Trickle.doubleInterval] at hs
    split at hs <;> subst hs <;>
      exact ⟨⟨⟨h.two_le, h.iMaxAbs_eq, h.iMaxAbs_le⟩, hlo, hhi, ht.1, ht.2⟩, rfl, rfl, rfl⟩

/-- The interval is the smallest one, doubled `j` times. -/
def Doubled (tt : TrickleTimer) : Prop := ∃ j ≤ tt.iMax, tt.iCur = tt.iMin * 2 ^ j

/-- The interval is the one drawn, doubled some times or cut at the largest. -/
def DoubledFrom (d : Nat) (tt : TrickleTimer) : Prop :=
  (∃ j, tt.iCur = d * 2 ^ j) ∨ tt.iCur = tt.iMaxAbs

theorem Sane.doubled_of_max (h : Sane m tt)
    (he : tt.iCur = tt.iMaxAbs) : Doubled tt := ⟨tt.iMax, le_refl _, he.trans h.iMaxAbs_eq⟩

/-- What an event other than an accepted `trickle_timer_set` makes of the interval. -/
theorem step_iCur (hd : ¬ e.Draws) (hs : step m tt e = some tt') : tt'.iCur =
    tt.iCur ∧ ¬ e.Resets ∨ tt'.iCur = tt.iMin ∧ e.Resets ∨ tt'.iCur = nextInterval m tt ∧ ¬ e.Resets := by
  cases e with
  | set cb draw draw' now =>
    have hcb : cb = none := by by_contra hne; exact hd hne
    rw [step, some.injEq, trickleTimerSet, if_pos hcb] at hs
    subst hs
    exact .inl ⟨rfl, id⟩
  | consistency =>
    rw [step, some.injEq, trickleTimerConsistency] at hs
    split at hs <;> subst hs <;> exact .inl ⟨rfl, id⟩
  | inconsistency draw now | resetEvent draw now =>
    rw [step, some.injEq, trickleTimerInconsistency] at hs
    split at hs <;> subst hs
    · exact .inr (.inl ⟨rfl, trivial⟩)
    next he => exact .inr (.inl ⟨not_not.mp he, trivial⟩)
  | fire now =>
    rw [step, some.injEq, fire] at hs
    split at hs <;> subst hs <;> exact .inl ⟨rfl, id⟩
  | doubleInterval draw now =>
    rw [step, some.injEq, doubleInterval] at hs
    split at hs <;> subst hs <;> exact .inr (.inr ⟨rfl, id⟩)

/-- STEP: twice a doubled interval is one, for as long as no interval is drawn. -/
theorem Doubled.step (h : Sane m tt)
    (hdb : Doubled tt) (hd : ¬ e.Draws) (hs : step m tt e = some tt') : Doubled tt' := by
  obtain ⟨hsane, hmin, himax, hmax⟩ := h.step hs
  obtain ⟨j, hj, hcur⟩ := hdb
  rcases step_iCur hd hs with ⟨he, -⟩ | ⟨he, -⟩ | ⟨he, -⟩
  · exact ⟨j, himax ▸ hj, by rw [he, hmin, hcur]⟩
  · exact ⟨0, Nat.zero_le _, by rw [he, hmin, pow_zero, Nat.mul_one]⟩
  · rcases nextInterval_eq h with ⟨hn, hle⟩ | hn
    · refine ⟨j + 1, ?_, by rw [he, hn, hmin, hcur, pow_succ]; ring⟩
      -- twice the interval is within `i_min * 2 ^ i_max`, so the exponent is within `i_max`
      have hpow : tt.iMin * 2 ^ (j + 1) ≤ tt.iMin * 2 ^ tt.iMax := by
        calc tt.iMin * 2 ^ (j + 1) = 2 * tt.iCur := by rw [hcur, pow_succ]; ring
          _ ≤ tt.iMin * 2 ^ tt.iMax := by rw [← h.iMaxAbs_eq]; exact hle
      have hexp := Nat.le_of_mul_le_mul_left hpow (by have := h.two_le; omega)
      rw [himax]
      exact (Nat.pow_le_pow_iff_right (by decide)).mp hexp
    · exact hsane.doubled_of_max (by rw [he, hn, hmax])

theorem doubled_of_resets (h : Sane m tt)
    (hr : e.Resets) (hs : step m tt e = some tt') : Doubled tt' := by
  obtain ⟨-, hmin, -, -⟩ := h.step hs
  have hd : ¬ e.Draws := by cases e <;> simp_all [Event.Resets, Event.Draws]
  rcases step_iCur hd hs with ⟨-, hn⟩ | ⟨he, -⟩ | ⟨-, hn⟩
  · exact absurd hr hn
  · exact ⟨0, Nat.zero_le _, by rw [he, hmin, pow_zero, Nat.mul_one]⟩
  · exact absurd hr hn

/-! ### Runs -/

def Runs (m : Machine) : TrickleTimer → List Event → TrickleTimer → Prop :=
  Run (step m) fun _ _ => True

/-- RUN: a sane timer stays sane, with its range as configured. -/
theorem Sane.run (h : Sane m tt) (hrun : Runs m tt es tt') :
    Sane m tt' ∧ tt'.iMin = tt.iMin ∧ tt'.iMax = tt.iMax ∧ tt'.iMaxAbs = tt.iMaxAbs := by
  induction hrun with
  | nil s => exact ⟨h, rfl, rfl, rfl⟩
  | cons _ hst _ ih =>
    obtain ⟨hs, h1, h2, h3⟩ := h.step hst
    obtain ⟨ht, h4, h5, h6⟩ := ih hs
    exact ⟨ht, h4.trans h1, h5.trans h2, h6.trans h3⟩

/-- RUN: once doubled from `i_min`, always, until an interval is drawn. -/
theorem Doubled.run (h : Sane m tt)
    (hdb : Doubled tt) (hrun : Runs m tt es tt') (hd : ∀ e ∈ es, ¬ e.Draws) : Doubled tt' := by
  induction hrun with
  | nil s => exact hdb
  | cons _ hst _ ih =>
    obtain ⟨hs, -⟩ := h.step hst
    refine ih hs (hdb.step h (hd _ (List.mem_cons_self ..)) hst) ?_
    exact fun e he => hd e (List.mem_cons_of_mem _ he)

/-- RUN: up to the first reset the interval is the one drawn, doubled or cut. -/
theorem DoubledFrom.run {d : Nat} (h : Sane m tt) (hdb : DoubledFrom d tt) (hrun :
    Runs m tt es tt') (hd : ∀ e ∈ es, ¬ e.Draws ∧ ¬ e.Resets) : DoubledFrom d tt' := by
  induction hrun with
  | nil s => exact hdb
  | @cons s t u e es _ hst _ ih =>
    obtain ⟨hs, -, -, hmax⟩ := h.step hst
    have hnext : DoubledFrom d t := by
      rcases step_iCur (hd e (List.mem_cons_self ..)).1 hst with ⟨he, -⟩ | ⟨-, hr⟩ | ⟨he, -⟩
      · rcases hdb with ⟨j, hj⟩ | hj
        · exact .inl ⟨j, he.trans hj⟩
        · exact .inr (by rw [he, hj, hmax])
      · exact absurd hr (hd e (List.mem_cons_self ..)).2
      · rcases nextInterval_eq h with ⟨hn, hle⟩ | hn
        · rcases hdb with ⟨j, hj⟩ | hj
          · exact .inl ⟨j + 1, by rw [he, hn, hj, pow_succ]; ring⟩
          · have := h.two_le
            have := h.iMin_le
            omega
        · exact .inr (by rw [he, hn, hmax])
    exact ih hs hnext fun e he => hd e (List.mem_cons_of_mem _ he)

/-- THE INTERVAL OVER WHOLE RUNS: behind an accepted configuration and an accepted `trickle_timer_set`, the interval
    stays between `i_min` and `i_max_abs`, which is `i_min * 2 ^ i_max` without wrapping, and the time picked lies in
    its second half. The interval is `i_min` doubled from the first inconsistency or reset on, until another interval
    is drawn; before that it is the drawn one, doubled or cut at `i_max_abs`. -/
theorem interval_over_runs (m : Machine) {tt₀ tt s s' : TrickleTimer} {iMin iMax k : Nat}
    (hshift : ShiftDefined m iMax) (hconf : trickleTimerConfig m tt₀ iMin iMax k = some tt) {cb : Option Nat}
    {draw draw' now : Nat} (hset : trickleTimerSet m tt cb draw draw' now = some s) {es : List Event}
    (hrun : Runs m s es s') :
    (s'.iMaxAbs = s'.iMin * 2 ^ s'.iMax ∧ s'.iMaxAbs < 2 ^ m.width) ∧
    (s'.iMin ≤ s'.iCur ∧ s'.iCur ≤ s'.iMaxAbs) ∧
    (s'.iCur / 2 ≤ s'.t ∧ s'.t < s'.iCur) ∧
    (∀ before e after, es = before ++ e :: after → e.Resets →
       (∀ x ∈ after, ¬ x.Draws) → ∃ j ≤ s'.iMax, s'.iCur = s'.iMin * 2 ^ j) ∧
    ((∀ x ∈ es, ¬ x.Draws ∧ ¬ x.Resets) →
       (∃ j, s'.iCur = (tt.iMin + draw % (tt.iMaxAbs - tt.iMin + 1)) * 2 ^ j) ∨ s'.iCur = s'.iMaxAbs) := by
  have hc := trickleTimerConfig_configured hshift hconf
  have hcb : cb ≠ none := by
    rintro rfl
    cases hset
  obtain ⟨u, hu, hsane, hcur, -⟩ := hc.set draw draw' now hcb
  obtain rfl : u = s := some.inj (hu.symm.trans hset)
  obtain ⟨h, -⟩ := hsane.run hrun
  refine ⟨⟨h.iMaxAbs_eq, ?_⟩, ⟨h.iMin_le, h.le_iMaxAbs⟩, ⟨h.half_le, h.t_lt⟩, ?_, ?_⟩
  · have hpow := m.half_pow
    have hpos := Nat.two_pow_pos (m.width - 1)
    have hle := h.iMaxAbs_le
    omega
  · rintro before e after rfl hr hd
    obtain ⟨v, hv, hrest⟩ := hrun.split
    obtain ⟨hsv, -⟩ := hsane.run hv
    cases hrest with
    | cons _ hst hafter =>
      exact Doubled.run (hsv.step hst).1 (doubled_of_resets hsv hr hst) hafter hd
  · intro hd
    have hstart : DoubledFrom (drawnInterval m tt draw) u := .inl ⟨0, by rw [hcur]; simp⟩
    rw [← (drawnInterval_eq hc draw).1]
    exact hstart.run hsane hrun hd

theorem width32_ok : 32 = 16 ∨ 32 = 32 := .inr rfl

/-- A machine with the default options and a 32-bit clock, whose shifts take the distance modulo the width. -/
def machine32 : Machine where
  width := 32
  flavour := .generic
  compensateDrift := true
  farRight v n := v >>> (n % 32)
  farLeft v n := v <<< (n % 32)
  width_ok := width32_ok
  flavour_ok := ⟨nofun, nofun⟩

/-- A record before its configuration. -/
def blank : TrickleTimer := ⟨0, 0, 0, 0, ⟨0, 0, .fire⟩, none, 0, 0, 0, 0⟩

/-- The timer configured with `i_min = 16` and ten doublings, and then set with the draw `1`. -/
def configured16 : TrickleTimer :=
  { blank with iMin := 16, iMax := 10, iMaxAbs := 16384, k := 3 }

def set17 : TrickleTimer :=
  { configured16 with iCur := 17, t := 13, cb := some 0, ct := ⟨100, 13, .fire⟩, iStart := 100 }

theorem interval_over_runs_at_set17 :
    trickleTimerConfig machine32 blank 16 10 3 = some configured16 ∧
    trickleTimerSet machine32 configured16 (some 0) 1 5 100 = some set17 ∧
    ∃ s',
      Runs machine32 set17 [.doubleInterval 3 120, .inconsistency 1 130, .doubleInterval 0 150] s' ∧
      s'.iMaxAbs = s'.iMin * 2 ^ s'.iMax ∧
      ∃ j ≤ s'.iMax, s'.iCur = s'.iMin * 2 ^ j := by
  refine ⟨rfl, rfl, ?_⟩
  obtain ⟨s', hrun, -⟩ : ∃ s', Runs machine32 set17
      [.doubleInterval 3 120, .inconsistency 1 130, .doubleInterval 0 150] s' ∧ _ :=
    exists_run (fun _ _ => true) (fun _ => true) (fun _ _ _ => trivial) (by decide)
  have hconf : trickleTimerConfig machine32 blank 16 10 3 = some configured16 := rfl
  have hset : trickleTimerSet machine32 configured16 (some 0) 1 5 100 = some set17 := rfl
  have hshift : ShiftDefined machine32 10 := .inl (by decide)
  have h := interval_over_runs machine32 hshift hconf hset hrun
  refine ⟨s', hrun, h.1.1, ?_⟩
  refine h.2.2.2.1 [.doubleInterval 3 120] (.inconsistency 1 130) [.doubleInterval 0 150] rfl trivial ?_
  intro x hx
  simp only [List.mem_singleton] at hx
  subst hx
  exact id

/-- An accepted timer whose first interval is no doubling of `i_min`: 17 ticks, with `i_min = 16`. -/
theorem set_draws_between_doublings : trickleTimerConfig machine32 blank 16 10 3 = some configured16 ∧ trickleTimerSet
    machine32 configured16 (some 0) 1 5 100 = some set17 ∧ ¬ ∃ j ≤ set17.iMax, set17.iCur = set17.iMin * 2 ^ j := by
  refine ⟨rfl, rfl, ?_⟩
  rintro ⟨j, -, hj⟩
  have hdvd : 16 ∣ 17 := ⟨2 ^ j, hj⟩
  exact absurd hdvd (by decide)

end CSync.Trickle
