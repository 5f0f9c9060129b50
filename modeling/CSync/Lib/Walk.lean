import Mathlib.Data.List.Basic

/-! Walks over a buffer of options.

    A loop reads the option at an index, logs what it accessed, and goes on behind the option, or drops the whole
    buffer. If each option has a length the walk ends; and what it logs is good if and only if every option it comes
    to is (`Fits`). -/

namespace Lib

variable {σ α : Type}

/-- What becomes of an option: the walk goes on `length` further, or ends. -/
inductive Next (σ : Type) where
  | advance (length : Nat) (s : σ)
  | discard

def Next.length? : Next σ → Option Nat
  | .advance length _ => some length
  | .discard => none

/-- The loop from index `i` to `n`: the state at the end, unless the buffer was dropped, and the log; `none` stands for
    a walk that is not over. -/
def walkOptions (body : Nat → σ → Next σ × List α) (n : Nat) : Nat → Nat → σ → Option (Option σ × List α)
  | 0, _, _ => none
  | fuel + 1, i, s =>
    if i < n then
      match body i s with
      | (.discard, log) => some (none, log)
      | (.advance length t, log) => (walkOptions body n fuel (i + length) t).map fun r => (r.1, log ++ r.2)
    else some (some s, [])

variable {body : Nat → σ → Next σ × List α} {n : Nat} {fuel i : Nat}

/-- TERMINATION: options of some length are few. -/
theorem walkOptions_ends (hbody : ∀ i s length t, (body i s).1 = .advance length t → 0 < length) {s : σ}
    (h : n < i + fuel) (hfuel : 0 < fuel) : (walkOptions body n fuel i s).isSome := by
  induction fuel generalizing i s with
  | zero => exact absurd hfuel (Nat.lt_irrefl 0)
  | succ fuel ih =>
    rw [walkOptions]
    split
    next hi =>
      rcases hb : body i s with ⟨⟨length, t⟩ | _, log⟩
      · have hpos := hbody i s length t (by rw [hb])
        rw [Option.isSome_map]
        exact ih (by omega) (by omega)
      · rfl
    · rfl

/-- STEP: the walk goes on behind an option, or is over. -/
theorem walkOptions_advance {fuel i length : Nat} {s t : σ} {log : List α} (hi : i < n)
    (hb : body i s = (.advance length t, log)) : walkOptions body n (fuel + 1) i s =
      (walkOptions body n fuel (i + length) t).map fun r => (r.1, log ++ r.2) := by
  rw [walkOptions, if_pos hi, hb]

theorem walkOptions_finish {s : σ} (hi : n ≤ i) :
    walkOptions body n (fuel + 1) i s = some (some s, []) := if_neg (Nat.not_lt.mpr hi)

/-- The options from an index on are good, as far as the walk comes. -/
inductive Fits (good : Nat → Prop) (next : Nat → Option Nat) (n : Nat) : Nat → Prop
  | finish {i : Nat} : n ≤ i → Fits good next n i
  | last {i : Nat} : i < n → good i → next i = none → Fits good next n i
  | option {i length : Nat} : i < n → good i → next i = some length → Fits good next n (i + length) →
      Fits good next n i

/-- LOOP: the log of a walk is good if and only if the options are. -/
theorem walkOptions_fits {P : α → Prop} {good : Nat → Prop} {next : Nat → Option Nat}
    (hgood : ∀ i s, i < n → ((∀ a ∈ (body i s).2, P a) ↔ good i))
    (hnext : ∀ i s, i < n → (body i s).1.length? = next i) {s : σ} {r : Option σ × List α}
    (h : walkOptions body n fuel i s = some r) : (∀ a ∈ r.2, P a) ↔ Fits good next n i := by
  induction fuel generalizing i s r with
  | zero => cases h
  | succ fuel ih =>
    rw [walkOptions] at h
    split at h
    next hi =>
      have hg := hgood i s hi
      have hn := hnext i s hi
      rcases hb : body i s with ⟨⟨length, t⟩ | _, log⟩
      · -- the option, then the rest
        rw [hb] at h hg hn
        obtain ⟨rest, hrest, rfl⟩ := Option.map_eq_some_iff.mp h
        constructor
        · intro hall
          exact .option hi (hg.mp fun a ha => hall a (List.mem_append_left _ ha)) hn.symm
            ((ih hrest).mp fun a ha => hall a (List.mem_append_right _ ha))
        · rintro (hle | ⟨_, _, hnone⟩ | ⟨_, hoption, hlength, hfits⟩)
          · exact absurd hi (Nat.not_lt.mpr hle)
          · exact absurd (hn.trans hnone) (Option.some_ne_none _)
          · cases (hn.trans hlength : some length = some _)
            intro a ha
            rcases List.mem_append.mp ha with hnow | hlater
            · exact hg.mpr hoption a hnow
            · exact (ih hrest).mpr hfits a hlater
      · rw [hb] at h hg hn
        cases h
        constructor
        · intro hall
          exact .last hi (hg.mp hall) hn.symm
        · rintro (hle | ⟨_, hoption, _⟩ | ⟨_, hoption, _, _⟩)
          · exact absurd hi (Nat.not_lt.mpr hle)
          · exact hg.mpr hoption
          · exact hg.mpr hoption
    next hi =>
      cases h
      exact ⟨fun _ => .finish (Nat.not_lt.mp hi), nofun⟩

end Lib
