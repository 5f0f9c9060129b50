import Mathlib.Algebra.Order.Field.Basic
import Mathlib.Tactic.FieldSimp
import Mathlib.Tactic.Linarith
import Mathlib.Tactic.Ring

/-! Means in modular arithmetic.

    A mean is summed up as quotients and remainders of the differences to a reference. Truncated division loses less
    than one, however the signs are (`quotients_close`). A sum that wraps is off by a multiple of the modulus, and its
    mean is close to the exact one just if the number of wraps is a multiple of the number of summands
    (`close_iff_dvd`). -/

namespace Lib

open List

theorem quotients_close {n : Int} (hn : 0 < n) (ds : List Int) :
    |n * ((ds.map fun d : Int => d.tdiv n).sum + (ds.map fun d : Int => d.tmod n).sum.tdiv n) - ds.sum| < n := by
  have hsum : ds.sum = n * (ds.map fun d : Int => d.tdiv n).sum + (ds.map fun d : Int => d.tmod n).sum := by
    induction ds with
    | nil => simp
    | cons d ds ih =>
      have hd : n * d.tdiv n + d.tmod n = d := Int.mul_tdiv_add_tmod ..
      rw [sum_cons, map_cons, map_cons, sum_cons, sum_cons, ih]
      linarith
  have hrest : n * (ds.map fun d : Int => d.tmod n).sum.tdiv n + (ds.map fun d : Int => d.tmod n).sum.tmod n =
      (ds.map fun d : Int => d.tmod n).sum := Int.mul_tdiv_add_tmod ..
  have hlow : -n < (ds.map fun d : Int => d.tmod n).sum.tmod n := Int.lt_tmod_of_pos _ hn
  have hhigh : (ds.map fun d : Int => d.tmod n).sum.tmod n < n := Int.tmod_lt_of_pos _ hn
  rw [abs_lt]
  constructor <;> linarith

/-- A value `v` is congruent to `y`, and `y` is close to a mean that is off by `c` moduli. The exact mean and `v` lie in
    a range shorter than the modulus. -/
theorem close_iff_dvd {W n S y v c a b : Int} (hn : 0 < n) (hnW : n * n + n ≤ W) (hv : W ∣ y - v)
    (hy : |n * y - (S + W * c)| < n) (hSlo : n * a ≤ S) (hShi : S ≤ n * b) (hvlo : a ≤ v) (hvhi : v ≤ b)
    (hrange : b - a < W) : |n * v - S| < n * n ↔ n ∣ c := by
  obtain ⟨k, hk⟩ := hv
  have hWpos : 0 < W := by nlinarith
  obtain ⟨hylo, hyhi⟩ := abs_lt.mp hy
  -- `n * v - S` is a multiple of the modulus, up to less than `n`
  have hsplit : n * v - S = W * (c - n * k) + (n * y - (S + W * c)) := by
    have hvy : v = y - W * k := by linarith
    rw [hvy]
    ring
  constructor
  · intro hclose
    obtain ⟨hclo, hchi⟩ := abs_lt.mp hclose
    have hzero : c - n * k = 0 := by
      by_contra hne
      rcases lt_or_gt_of_ne hne with hneg | hpos
      · have hstep : W * (c - n * k) ≤ -W := by nlinarith
        linarith
      · have hstep : W ≤ W * (c - n * k) := by nlinarith
        linarith
    exact ⟨k, by linarith⟩
  · rintro ⟨j, rfl⟩
    have hinside : -(n * (b - a)) ≤ n * v - S ∧ n * v - S ≤ n * (b - a) := by
      constructor <;> nlinarith
    have hzero : j - k = 0 := by
      by_contra hne
      have hnW' : 0 < n * W := mul_pos hn hWpos
      rcases lt_or_gt_of_ne hne with hneg | hpos
      · have hstep : n * W * (j - k) ≤ -(n * W) := by nlinarith
        nlinarith
      · have hstep : n * W ≤ n * W * (j - k) := by nlinarith
        nlinarith
    have hexact : n * v - S = n * y - (S + W * (n * j)) := by
      have hjk : n * j - n * k = 0 := by
        have hj : j = k := by linarith
        rw [hj]
        ring
      rw [hsplit, hjk]
      ring
    rw [hexact]
    have hone : n ≤ n * n := by nlinarith
    exact lt_of_lt_of_le hy hone

/-- Differences to a reference that wrap or not, and always in the same direction. -/
theorem sum_wrapped {α : Type} {W r t : Int} {p : α → Bool} {d f : α → Int} : ∀ {l : List α},
    (∀ a ∈ l, d a = f a - r + W * (if p a then t else 0)) →
      (l.map d).sum = (l.map f).sum - l.length * r + W * (t * l.countP p)
  | [], _ => by simp
  | a :: l, h => by
    have ih := sum_wrapped (l := l) fun b hb => h b (mem_cons_of_mem _ hb)
    have ha := h a mem_cons_self
    rw [map_cons, map_cons, sum_cons, sum_cons, ih, ha, length_cons, countP_cons]
    split <;> push_cast <;> ring

theorem dvd_countP_iff {α : Type} {p : α → Bool} {l : List α} {t : Int} (ht : t = 1 ∨ t = -1) :
    (l.length : Int) ∣ t * l.countP p ↔ (∀ a ∈ l, p a = false) ∨ ∀ a ∈ l, p a = true := by
  have hcast : (l.length : Int) ∣ t * l.countP p ↔ l.length ∣ l.countP p := by
    rcases ht with rfl | rfl
    · rw [one_mul, Int.natCast_dvd_natCast]
    · rw [neg_one_mul, Int.dvd_neg, Int.natCast_dvd_natCast]
  have hle : l.countP p ≤ l.length := countP_le_length
  rw [hcast]
  constructor
  · intro hdvd
    rcases Nat.eq_zero_or_pos (l.countP p) with hzero | hpos
    · exact .inl fun a ha => by simpa using countP_eq_zero.mp hzero a ha
    · have hall : l.countP p = l.length := le_antisymm hle (Nat.le_of_dvd hpos hdvd)
      exact .inr (countP_eq_length.mp hall)
  · rintro (hnone | hall)
    · rw [countP_eq_zero.mpr fun a ha => by rw [hnone a ha]; decide]
      exact Nat.dvd_zero _
    · rw [countP_eq_length.mpr hall]

/-- Closeness of a value to a mean, without the division. -/
theorem abs_sub_mean_lt {v S : Int} {n : Nat} (hn : 0 < n) :
    |(v : ℚ) - (S : ℚ) / n| < n ↔ |(n : Int) * v - S| < n * n := by
  have hpos : (0 : ℚ) < n := Nat.cast_pos.mpr hn
  have hsub : (v : ℚ) - (S : ℚ) / n = ((n * v - S : Int) : ℚ) / n := by
    push_cast
    field_simp
  rw [hsub, abs_div, abs_of_pos hpos, div_lt_iff₀ hpos]
  exact_mod_cast Iff.rfl

end Lib
