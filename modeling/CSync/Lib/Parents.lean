import Mathlib.Data.Fintype.Card

/-! Parent pointers.

    `next` gives each node its parent, and `Reaches next r n` says that the pointers from `n` on come to `r`.
    `climbs` follows at most so many of them. The pointers are a function, so a way to `r` has no node twice,
    and a way in a finite type is found within as many steps as the type has elements (`climbs_iff`). -/

namespace Lib

open Function

variable {ι : Type}

/-- The pointers from a node on come to `r`. -/
inductive Reaches (next : ι → Option ι) (r : ι) : ι → Prop
  | root : Reaches next r r
  | step {n p : ι} : next n = some p → Reaches next r p → Reaches next r n

/-- The pointers from a node come to `r` after so many steps, and not before. -/
inductive ReachesIn (next : ι → Option ι) (r : ι) : Nat → ι → Prop
  | root : ReachesIn next r 0 r
  | step {k : Nat} {n p : ι} : n ≠ r → next n = some p → ReachesIn next r k p → ReachesIn next r (k + 1) n

variable {next next' : ι → Option ι} {r n : ι}

theorem Reaches.inSteps (h : Reaches next r n) : ∃ k, ReachesIn next r k n := by
  induction h with
  | root => exact ⟨0, .root⟩
  | @step n p hnext _ ih =>
    obtain ⟨k, hk⟩ := ih
    by_cases hn : n = r
    · subst hn
      exact ⟨0, .root⟩
    · exact ⟨k + 1, .step hn hnext hk⟩

/-- A node has one distance only. -/
theorem ReachesIn.unique {j k : Nat} (hj : ReachesIn next r j n) (hk : ReachesIn next r k n) : j = k := by
  induction hj generalizing k with
  | root =>
    cases hk with
    | root => rfl
    | step hn => exact absurd rfl hn
  | step hn hnext _ ih =>
    cases hk with
    | root => exact absurd rfl hn
    | step _ hnext' hk =>
      rw [hnext] at hnext'
      cases hnext'
      rw [ih hk]

/-- Every smaller distance is that of a node on the way. -/
theorem ReachesIn.shorter {k : Nat} (h : ReachesIn next r k n) : ∀ j ≤ k, ∃ m, ReachesIn next r j m := by
  induction h with
  | root =>
    intro j hj
    obtain rfl := Nat.le_zero.mp hj
    exact ⟨r, .root⟩
  | @step k n p hn hnext hp ih =>
    intro j hj
    rcases lt_or_ge j (k + 1) with hlt | hge
    · exact ih j (Nat.le_of_lt_succ hlt)
    · obtain rfl := le_antisymm hj hge
      exact ⟨n, .step hn hnext hp⟩

/-- The nodes on the way are different, so the way is shorter than the type has elements. -/
theorem ReachesIn.lt_card [Fintype ι] {k : Nat} (h : ReachesIn next r k n) : k < Fintype.card ι := by
  have hbelow : ∀ j : Fin (k + 1), ∃ m, ReachesIn next r j.val m := fun j => h.shorter j (Nat.le_of_lt_succ j.isLt)
  choose f hf using hbelow
  have hinj : Function.Injective f := by
    intro i j heq
    refine Fin.ext ((hf i).unique ?_)
    rw [heq]
    exact hf j
  have hcard := Fintype.card_le_of_injective f hinj
  rw [Fintype.card_fin] at hcard
  omega

/-- Follow at most so many pointers; whether `r` is met. -/
def climbs [DecidableEq ι] (next : ι → Option ι) (r : ι) : Nat → Option ι → Bool
  | _, none => false
  | 0, some n => n = r
  | k + 1, some n => if n = r then true else climbs next r k (next n)

section
variable [DecidableEq ι]

theorem climbs_none : ∀ k, climbs next r k none = false
  | 0 => rfl
  | _ + 1 => rfl

theorem ReachesIn.climbs {k m : Nat} (h : ReachesIn next r k n) (hle : k ≤ m) : climbs next r m (some n) = true := by
  induction h generalizing m with
  | root => cases m <;> simp [Lib.climbs]
  | @step k n p hn hnext _ ih =>
    obtain ⟨m, rfl⟩ := Nat.exists_eq_add_of_lt (lt_of_lt_of_le (Nat.succ_pos k) hle)
    rw [Nat.zero_add, Lib.climbs, if_neg hn, hnext]
    exact ih (by omega)

theorem reaches_of_climbs : ∀ {k : Nat} {n : ι}, climbs next r k (some n) = true → Reaches next r n
  | 0, n, h => by
    obtain rfl : n = r := of_decide_eq_true h
    exact .root
  | k + 1, n, h => by
    rw [climbs] at h
    split at h
    next hn =>
      rw [hn]
      exact .root
    · cases hnext : next n with
      | none =>
        rw [hnext] at h
        cases k <;> cases h
      | some p =>
        rw [hnext] at h
        exact .step hnext (reaches_of_climbs h)

/-- The depth of the search does not matter once it is the number of nodes. -/
theorem climbs_iff [Fintype ι] : climbs next r (Fintype.card ι) (some n) = true ↔ Reaches next r n := by
  refine ⟨reaches_of_climbs, fun h => ?_⟩
  obtain ⟨k, hk⟩ := h.inSteps
  exact hk.climbs (le_of_lt hk.lt_card)

end

/-- FRAME: on a set of nodes that the pointers do not leave, only their pointers matter. -/
theorem Reaches.congr {P : ι → Prop} (h : Reaches next r n) (hP : P n) (hclosed : ∀ m p, P m → next m = some p → P p)
    (hsame : ∀ m, P m → next' m = next m) : Reaches next' r n := by
  induction h with
  | root => exact .root
  | @step n p hnext _ ih => exact .step ((hsame n hP).trans hnext) (ih (hclosed n p hP hnext))

/-- One pointer changes, and its node still reaches `r`: so does every other. -/
theorem Reaches.change [DecidableEq ι] {x : ι} {p : Option ι} (h : Reaches next r n)
    (hx : Reaches (update next x p) r x) : Reaches (update next x p) r n := by
  induction h with
  | root => exact .root
  | @step n q hnext _ ih =>
    by_cases hn : n = x
    · rw [hn]
      exact hx
    · exact .step (by rw [update_of_ne hn]; exact hnext) ih

/-- One pointer changes, and its node did not reach `r`: who did still does. -/
theorem Reaches.change_other [DecidableEq ι] {x : ι} {p : Option ι} (h : Reaches next r n)
    (hx : ¬Reaches next r x) : Reaches (update next x p) r n := by
  induction h with
  | root => exact .root
  | @step n q hnext hq ih =>
    have hn : n ≠ x := by
      rintro rfl
      exact hx (.step hnext hq)
    exact .step (by rw [update_of_ne hn]; exact hnext) ih

end Lib
