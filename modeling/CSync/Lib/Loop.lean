import Mathlib.Data.List.Basic

/-! Loops that log what they access.

    The body of a loop makes a new state or ends with a result. A loop whose states get smaller ends
    (`loop_ends`), an invariant of its states holds of its result (`loop_result`), and what it logs is good if and
    only if the places it comes to are (`loop_along`), where the places of the states follow one another. A loop that
    has no measure ends just where its places do (`loop_ends_along`). -/

namespace Lib

variable {σ ρ α κ : Type}

/-- The body again and again, `fuel` times at most; `none` stands for a loop that is not over. -/
def loop (body : σ → (σ ⊕ ρ) × List α) : Nat → σ → Option (ρ × List α)
  | 0, _ => none
  | fuel + 1, s =>
    match body s with
    | (.inr r, log) => some (r, log)
    | (.inl t, log) => (loop body fuel t).map fun rest => (rest.1, log ++ rest.2)

variable {body : σ → (σ ⊕ ρ) × List α}
variable {s : σ} {log : List α}

/-- TERMINATION: a measure that decreases. -/
theorem loop_ends (μ : σ → Nat) (h : ∀ s t log, body s = (.inl t, log) → μ t < μ s) : ∀ (fuel : Nat) (s : σ), μ s < fuel →
    (loop body fuel s).isSome
  | 0, _, hs => absurd hs (Nat.not_lt_zero _)
  | fuel + 1, s, hs => by
    rw [loop]
    rcases hb : body s with ⟨t | r, log⟩
    · rw [Option.isSome_map]
      exact loop_ends μ h fuel t (Nat.lt_of_lt_of_le (h s t log hb) (Nat.le_of_lt_succ hs))
    · rfl

/-- A loop that comes back to its state has no result. -/
theorem loop_stuck (h : body s = (.inl s, log)) : ∀ fuel, loop body fuel s = none
  | 0 => rfl
  | fuel + 1 => by
    rw [loop, h]
    exact congrArg (Option.map fun rest : ρ × List α => (rest.1, log ++ rest.2)) (loop_stuck h fuel)

/-- INVARIANT RULE: what the body keeps and its last round turns into `R` makes the result `R`. -/
theorem loop_result {I : σ → Prop} {R : ρ → Prop} (hgo : ∀ s t log, I s → body s = (.inl t, log) → I t)
    (hstop : ∀ s r log, I s → body s = (.inr r, log) → R r) : ∀ {fuel : Nat} {s : σ} {r : ρ × List α}, I s →
      loop body fuel s = some r → R r.1
  | 0, _, _, _, h => by cases h
  | fuel + 1, s, r, hs, h => by
    rw [loop] at h
    rcases hb : body s with ⟨t | q, log⟩ <;> rw [hb] at h
    · obtain ⟨rest, hrest, rfl⟩ := Option.map_eq_some_iff.mp h
      have ih : R rest.1 := loop_result hgo hstop (hgo s t log hs hb) hrest
      exact ih
    · cases h
      exact hstop s q log hs hb

/-- The places from `k` on are good, one after the other. -/
inductive Along (good : κ → Prop) (next : κ → Option κ) : κ → Prop
  | last {k : κ} : good k → next k = none → Along good next k
  | go {k l : κ} : good k → next k = some l → Along good next l → Along good next k

section Places

variable {P : α → Prop} {I : σ → Prop} {good : κ → Prop} {next : κ → Option κ}
variable (place : σ → κ) (hlog : ∀ s, I s → ((∀ a ∈ (body s).2, P a) ↔ good (place s)))
  (hgo : ∀ s t log, I s → good (place s) → body s = (.inl t, log) → I t ∧ next (place s) = some (place t))
  (hstop : ∀ s r log, I s → body s = (.inr r, log) → next (place s) = none)
include hgo

theorem loop_of_along {k : κ} (h : Along good next k) :
    ∀ {s : σ}, I s → place s = k → ∃ fuel, (loop body fuel s).isSome := by
  induction h with
  | @last k hgood hnone =>
    rintro s hs rfl
    refine ⟨1, ?_⟩
    rw [loop]
    rcases hb : body s with ⟨t | q, log⟩
    · rw [(hgo s t log hs hgood hb).2] at hnone
      cases hnone
    · rfl
  | @go k l hgood hl _ ih =>
    rintro s hs rfl
    rcases hb : body s with ⟨t | q, log⟩
    · obtain ⟨ht, hnext⟩ := hgo s t log hs hgood hb
      rw [hnext] at hl
      cases hl
      obtain ⟨fuel, hfuel⟩ := ih ht rfl
      refine ⟨fuel + 1, ?_⟩
      rw [loop, hb, Option.isSome_map]
      exact hfuel
    · exact ⟨1, by rw [loop, hb]; rfl⟩

include hlog hstop

/-- LOOP: the log is good if and only if the places are. -/
theorem loop_along : ∀ {fuel : Nat} {s : σ} {r : ρ × List α}, I s → loop body fuel s = some r →
      ((∀ a ∈ r.2, P a) ↔ Along good next (place s))
  | 0, _, _, _, h => by cases h
  | fuel + 1, s, r, hs, h => by
    have hnow := hlog s hs
    rw [loop] at h
    rcases hb : body s with ⟨t | q, log⟩ <;> rw [hb] at h hnow
    · obtain ⟨rest, hrest, rfl⟩ := Option.map_eq_some_iff.mp h
      have ih : good (place s) → ((∀ a ∈ rest.2, P a) ↔ Along good next (place t)) := fun hgood =>
        loop_along (hgo s t log hs hgood hb).1 hrest
      constructor
      · intro hall
        have hgood := hnow.mp fun a ha => hall a (List.mem_append_left _ ha)
        exact .go hgood (hgo s t log hs hgood hb).2 ((ih hgood).mp fun a ha => hall a (List.mem_append_right _ ha))
      · rintro (⟨hgood, hnone⟩ | ⟨hgood, hl, hrest⟩)
        · rw [(hgo s t log hs hgood hb).2] at hnone
          cases hnone
        · rw [(hgo s t log hs hgood hb).2] at hl
          cases hl
          intro a ha
          rcases List.mem_append.mp ha with hin | hin
          · exact hnow.mpr hgood a hin
          · exact (ih hgood).mpr hrest a hin
    · cases h
      have hnone := hstop s q log hs hb
      constructor
      · intro hall
        exact .last (hnow.mp hall) hnone
      · rintro (⟨hgood, _⟩ | ⟨_, hl, _⟩)
        · exact hnow.mpr hgood
        · rw [hnone] at hl
          cases hl

/-- LOOP: it ends with a good log if and only if its places are good, up to a last one. -/
theorem loop_ends_along {s : σ} (hs : I s) :
    (∃ fuel r, loop body fuel s = some r ∧ ∀ a ∈ r.2, P a) ↔ Along good next (place s) := by
  constructor
  · rintro ⟨fuel, r, hr, hall⟩
    exact (loop_along place hlog hgo hstop hs hr).mp hall
  · intro h
    obtain ⟨fuel, hfuel⟩ := loop_of_along place hgo h hs rfl
    obtain ⟨r, hr⟩ := Option.isSome_iff_exists.mp hfuel
    exact ⟨fuel, r, hr, (loop_along place hlog hgo hstop hs hr).mpr h⟩

end Places

end Lib
