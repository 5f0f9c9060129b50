import Mathlib.Order.MinMax

/-! Ranges that are derived for some of the variables of a predicate.

    `Admits D σ` says that an assignment `σ` has each variable in its range, if there is one. What two sets of
    ranges admit their meet admits; what one of them admits their join admits, as long as both have a range for the
    same variables. -/

namespace Lib

/-- The values from `min` to `max`. -/
structure Range (α : Type) where
  min : α
  max : α

variable {ι α : Type} [LinearOrder α]

/-- Each variable with a range is in it. -/
def Admits (D : ι → Option (Range α)) (σ : ι → α) : Prop := ∀ i r, D i = some r → r.min ≤ σ i ∧ σ i ≤ r.max

/-- The intersection of the ranges; a range on one side alone is kept. -/
def meetRange : Option (Range α) → Option (Range α) → Option (Range α)
  | none, s => s
  | some r, none => some r
  | some r, some s => some ⟨max r.min s.min, min r.max s.max⟩

/-- The smallest range around both; a range on one side alone is kept. -/
def joinRange : Option (Range α) → Option (Range α) → Option (Range α)
  | none, s => s
  | some r, none => some r
  | some r, some s => some ⟨min r.min s.min, max r.max s.max⟩

variable {D E : ι → Option (Range α)} {σ : ι → α}

theorem admits_meet (hD : Admits D σ) (hE : Admits E σ) : Admits (fun i => meetRange (D i) (E i)) σ := by
  intro i r hr
  dsimp only at hr
  have hDi := hD i
  have hEi := hE i
  rcases hd : D i with _ | d <;> rcases he : E i with _ | e <;> rw [hd, he] at hr
  · cases hr
  · exact hEi r (he.trans hr)
  · exact hDi r (hd.trans hr)
  · cases hr
    exact ⟨max_le (hDi d hd).1 (hEi e he).1, le_min (hDi d hd).2 (hEi e he).2⟩

theorem isSome_meetRange (r s : Option (Range α)) :
    (meetRange r s).isSome = true ↔ r.isSome = true ∨ s.isSome = true := by
  cases r <;> cases s <;> simp [meetRange]

theorem isSome_joinRange (r s : Option (Range α)) :
    (joinRange r s).isSome = true ↔ r.isSome = true ∨ s.isSome = true := by
  cases r <;> cases s <;> simp [joinRange]

theorem joinRange_comm (r s : Option (Range α)) (h : r.isSome = s.isSome) : joinRange r s = joinRange s r := by
  rcases r with _ | r <;> rcases s with _ | s
  · rfl
  · cases h
  · cases h
  · rw [joinRange, joinRange, min_comm, max_comm]

theorem admits_join_left (hD : Admits D σ)
    (hsame : ∀ i, (D i).isSome = (E i).isSome) : Admits (fun i => joinRange (D i) (E i)) σ := by
  intro i r hr
  dsimp only at hr
  have hDi := hD i
  have hi := hsame i
  rcases hd : D i with _ | d <;> rcases he : E i with _ | e <;> rw [hd, he] at hr hi
  · cases hr
  · cases hi
  · cases hi
  · cases hr
    exact ⟨(min_le_left ..).trans (hDi d hd).1, (hDi d hd).2.trans (le_max_left ..)⟩

theorem admits_join_right (hE : Admits E σ)
    (hsame : ∀ i, (D i).isSome = (E i).isSome) : Admits (fun i => joinRange (D i) (E i)) σ := by
  have hswap : (fun i => joinRange (D i) (E i)) = fun i => joinRange (E i) (D i) :=
    funext fun i => joinRange_comm _ _ (hsame i)
  rw [hswap]
  exact admits_join_left hE fun i => (hsame i).symm

end Lib
