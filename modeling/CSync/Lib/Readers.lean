import Mathlib.Tactic.Common

/-! Readers: parsers that move a position over a buffer.

    A reader takes a buffer, a position and a state to a new position and a new state. A footprint lists the
    offsets that it reads. `Reads r g` says that `r` is a footprint of the reader `g`: the position moves forward,
    the offsets lie between the two positions, and buffers that agree on them are read alike. Readers are put
    together with `andThen`, and so are their footprints. -/

namespace Lib

variable {β σ : Type}

abbrev Reader (β σ : Type) := (Nat → β) → Nat → σ → Nat × σ

abbrev Footprint (β σ : Type) := (Nat → β) → Nat → σ → List Nat

def Reader.andThen (g h : Reader β σ) : Reader β σ := fun m p s => h m (g m p s).1 (g m p s).2

/-- The footprint of two readers, the first of which is `g`. -/
def Footprint.andThen (r : Footprint β σ) (g : Reader β σ) (q : Footprint β σ) : Footprint β σ := fun m p s =>
  r m p s ++ q m (g m p s).1 (g m p s).2

structure Reads (r : Footprint β σ) (g : Reader β σ) : Prop where
  forward : ∀ m p s, p ≤ (g m p s).1
  inside : ∀ m p s, ∀ i ∈ r m p s, p ≤ i ∧ i < (g m p s).1
  congr : ∀ m n p s, (∀ i ∈ r m p s, m i = n i) → g n p s = g m p s

theorem Reads.andThen {r q : Footprint β σ} {g h : Reader β σ} (hg : Reads r g) (hh : Reads q h) :
    Reads (r.andThen g q) (g.andThen h) where
  forward m p s := Nat.le_trans (hg.forward m p s) (hh.forward m _ _)
  inside m p s i hi := by
    have hmid := hg.forward m p s
    have hend : (g m p s).1 ≤ (g.andThen h m p s).1 := hh.forward m _ _
    rcases List.mem_append.mp hi with hi | hi
    · have := hg.inside m p s i hi
      omega
    · have : (g m p s).1 ≤ i ∧ i < (g.andThen h m p s).1 := hh.inside m _ _ i hi
      omega
  congr m n p s hagree := by
    have hfirst : g n p s = g m p s := hg.congr m n p s fun i hi => hagree i (List.mem_append_left _ hi)
    rw [Reader.andThen, Reader.andThen, hfirst]
    exact hh.congr m n _ _ fun i hi => hagree i (List.mem_append_right _ hi)

theorem Reads.pick (c : σ → Prop) [DecidablePred c] {r q : Footprint β σ} {g h : Reader β σ} (hg : Reads r g)
    (hh : Reads q h) :
    Reads (fun m p s => if c s then r m p s else q m p s) fun m p s => if c s then g m p s else h m p s where
  forward m p s := by
    split
    · exact hg.forward m p s
    · exact hh.forward m p s
  inside m p s := by
    split
    · exact hg.inside m p s
    · exact hh.inside m p s
  congr m n p s := by
    split
    · exact hg.congr m n p s
    · exact hh.congr m n p s

/-- A reader of a part of the state, chosen by the state. -/
theorem Reads.lift {τ : Type} (get : τ → σ) (set : σ → τ → τ) {r : τ → Footprint β σ} {g : τ → Reader β σ}
    (h : ∀ t, Reads (r t) (g t)) :
    Reads (fun m p t => r t m p (get t)) fun m p t => ((g t m p (get t)).1, set (g t m p (get t)).2 t) where
  forward m p t := (h t).forward m p (get t)
  inside m p t := (h t).inside m p (get t)
  congr m n p t hagree := by
    rw [(h t).congr m n p (get t) hagree]

theorem Reads.pure (f : σ → σ) : Reads (fun _ _ _ => []) (fun (_ : Nat → β) p s => (p, f s)) where
  forward _ _ _ := Nat.le_refl _
  inside _ _ _ _ hi := by cases hi
  congr _ _ _ _ _ := rfl

theorem Reads.congr_of_agree {r : Footprint β σ} {g : Reader β σ} (h : Reads r g) {m n : Nat → β} {p : Nat} {s : σ}
    (hagree : ∀ i < (g m p s).1, m i = n i) : g n p s = g m p s :=
  h.congr m n p s fun i hi => hagree i (h.inside m p s i hi).2

end Lib
