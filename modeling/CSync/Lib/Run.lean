import Mathlib.Data.List.Basic

/-! Runs of a partial step function.

    A system is a step function `step : σ → ε → Option σ`; `none` says that the event is not enabled (or that the
    model stops there). `Run step ok s es t` says that the events `es`, each enabled and each meeting the step
    condition `ok` in the state it meets, lead from `s` to `t`. The one rule everything else rests on is
    `Run.invariant`: what the start has and every allowed step keeps holds wherever a run ends. -/

namespace Lib

variable {σ ε : Type}

/-- The events `es` lead from `s` to `t`, every step being enabled and meeting `ok`. -/
inductive Run (step : σ → ε → Option σ) (ok : σ → ε → Prop) : σ → List ε → σ → Prop
  | nil (s : σ) : Run step ok s [] s
  | cons {s t u : σ} {e : ε} {es : List ε} :
      ok s e → step s e = some t → Run step ok t es u → Run step ok s (e :: es) u

/-- Executing a list of events, as long as they pass a check; for concrete runs. -/
def exec (step : σ → ε → Option σ) (check : σ → ε → Bool) : σ → List ε → Option σ
  | s, [] => some s
  | s, e :: es => if check s e then (step s e).bind fun t => exec step check t es else none

variable {step : σ → ε → Option σ} {ok : σ → ε → Prop} {es : List ε}

/-- INVARIANT RULE: kept by every allowed step, so kept by every run. -/
theorem Run.invariant {P : σ → Prop} (hstep : ∀ s e t, P s → ok s e → step s e = some t → P t)
    {s t : σ} (hrun : Run step ok s es t) (hs : P s) : P t := by
  induction hrun with
  | nil s => exact hs
  | cons hok hst _ ih => exact ih (hstep _ _ _ hs hok hst)

theorem Run.split : ∀ {es fs : List ε} {s u : σ}, Run step ok s (es ++ fs) u →
    ∃ t, Run step ok s es t ∧ Run step ok t fs u
  | [], _, s, _, h => ⟨s, .nil s, h⟩
  | _ :: _, _, _, _, .cons hok hst h => by
    obtain ⟨t, ht, hu⟩ := Run.split h
    exact ⟨t, .cons hok hst ht, hu⟩

theorem Run.append {s t u : σ} {es fs : List ε} (h : Run step ok s es t) (h' : Run step ok t fs u) :
    Run step ok s (es ++ fs) u := by
  induction h with
  | nil s => exact h'
  | cons hok hst _ ih => exact .cons hok hst (ih h')

theorem Run.weaken {ok' : σ → ε → Prop} (hok : ∀ s e, ok s e → ok' s e) {s t : σ} (h : Run step ok s es t) : Run step ok' s es t := by
  induction h with
  | nil s => exact .nil s
  | cons h hst _ ih => exact .cons (hok _ _ h) hst ih

/-- EXACT RULE: if a step keeps `P` precisely when it meets `ok`, then `P` holds all along a run precisely when every
    step of it meets `ok`. -/
theorem Run.holds_iff {P : σ → Prop} (hstep : ∀ s e t, P s → step s e = some t → (P t ↔ ok s e))
    {s t : σ} (hrun : Run step (fun _ _ => True) s es t) (hs : P s) :
    (∀ ds u, ds <+: es → Run step (fun _ _ => True) s ds u → P u) ↔ Run step ok s es t := by
  induction hrun with
  | nil s =>
    constructor
    · intro _
      exact .nil s
    · intro _ ds u hds hu
      rw [List.prefix_nil.mp hds] at hu
      cases hu
      exact hs
  | @cons s t u e es htrue hst hrun ih =>
    constructor
    · intro hall
      have ht : P t := hall [e] t ⟨es, rfl⟩ (.cons htrue hst (.nil t))
      refine .cons ((hstep s e t hs hst).mp ht) hst ((ih ht).mp fun ds v hds hv => ?_)
      exact hall (e :: ds) v (List.cons_prefix_cons.mpr ⟨rfl, hds⟩) (.cons htrue hst hv)
    · intro hok ds v hds hv
      cases hok with
      | cons hkeep hst' hrest =>
        rw [hst] at hst'
        cases hst'
        have ht : P t := (hstep s e t hs hst).mpr hkeep
        cases hv with
        | nil => exact hs
        | cons _ hst'' hv =>
          obtain ⟨rfl, hprefixes⟩ := List.cons_prefix_cons.mp hds
          rw [hst] at hst''
          cases hst''
          exact (ih ht).mpr hrest _ _ hprefixes hv

theorem run_of_exec {check : σ → ε → Bool} (hcheck : ∀ s e, check s e = true → ok s e) :
    ∀ (es : List ε) {s t : σ}, exec step check s es = some t → Run step ok s es t
  | [], s, t, h => by
    rw [exec, Option.some.injEq] at h
    subst h; exact .nil s
  | e :: es, s, t, h => by
    rw [exec] at h
    split at h
    next hok =>
      obtain ⟨u, hu, ht⟩ := Option.bind_eq_some_iff.mp h
      exact .cons (hcheck s e hok) hu (run_of_exec hcheck es ht)
    · cases h

/-- A concrete run to a state with a decidable property. -/
theorem exists_run (check : σ → ε → Bool) (p : σ → Bool) (hcheck : ∀ s e, check s e = true → ok s e) {s : σ}
    (h : (exec step check s es).any p = true) : ∃ t, Run step ok s es t ∧ p t = true := by
  rcases hex : exec step check s es with _ | t
  · rw [hex] at h; cases h
  · rw [hex] at h
    exact ⟨t, run_of_exec hcheck es hex, h⟩

end Lib
