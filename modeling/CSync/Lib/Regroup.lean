import Mathlib.Data.Nat.Digits.Lemmas

/-! Regrouping a stream of bits.

    Groups of `w` bits go in and groups of `v` bits come out, the low bits first. What is in between is an
    accumulator of `bits` bits. In both directions one after the other, the stream comes back but for what is left
    in an accumulator. -/

namespace Lib

open List

/-- Groups `xs` of `w` bits went in, groups `ys` of `v` bits came out, and `val` holds the `bits` bits between. -/
structure Regroups (w v : Nat) (xs ys : List Nat) (val bits : Nat) : Prop where
  value : Nat.ofDigits (2 ^ w) xs = Nat.ofDigits (2 ^ v) ys + 2 ^ (v * ys.length) * val
  count : w * xs.length = v * ys.length + bits
  val_lt : val < 2 ^ bits
  groups : ∀ y ∈ ys, y < 2 ^ v

/-- The first `n` groups of `v` bits of a number. -/
def groupsOf (v : Nat) : Nat → Nat → List Nat
  | 0, _ => []
  | n + 1, value => value % 2 ^ v :: groupsOf v n (value / 2 ^ v)

variable {w v val bits val' bits' : Nat} {xs ys zs : List Nat}

theorem regroups_nil (w v : Nat) : Regroups w v [] [] 0 0 :=
  ⟨rfl, rfl, Nat.one_pos, nofun⟩

theorem Regroups.push (h : Regroups w v xs ys val bits) {x : Nat} (hx : x < 2 ^ w) :
    Regroups w v (xs ++ [x]) ys (val + x * 2 ^ bits) (bits + w) where
  value := by
    have hpow : (2 ^ w) ^ xs.length = 2 ^ (v * ys.length) * 2 ^ bits := by
      rw [← pow_mul, h.count, pow_add]
    rw [Nat.ofDigits_append, Nat.ofDigits_singleton, h.value, hpow]
    ring
  count := by
    rw [length_append, length_singleton, Nat.mul_succ, h.count, add_assoc]
  val_lt := by
    have hle : (x + 1) * 2 ^ bits ≤ 2 ^ w * 2 ^ bits := Nat.mul_le_mul_right _ hx
    have hlt := h.val_lt
    rw [add_mul, one_mul] at hle
    rw [add_comm bits, pow_add]
    omega
  groups := h.groups

/-- A group comes out, from below. -/
theorem Regroups.pull (h : Regroups w v xs ys val bits) (hv : v ≤ bits) :
    Regroups w v xs (ys ++ [val % 2 ^ v]) (val / 2 ^ v) (bits - v) where
  value := by
    have hsplit : val = val % 2 ^ v + 2 ^ v * (val / 2 ^ v) := (Nat.mod_add_div _ _).symm
    rw [Nat.ofDigits_append, Nat.ofDigits_singleton, h.value, length_append, length_singleton,
      Nat.mul_succ, pow_add, ← pow_mul]
    conv_lhs => rw [hsplit]
    ring
  count := by
    rw [length_append, length_singleton, Nat.mul_succ, h.count]
    omega
  val_lt := by
    refine Nat.div_lt_of_lt_mul ?_
    rw [← pow_add, Nat.add_sub_cancel' hv]
    exact h.val_lt
  groups y hy := by
    rcases mem_append.mp hy with hy | hy
    · exact h.groups y hy
    · rw [mem_singleton] at hy
      rw [hy]
      exact Nat.mod_lt _ (Nat.two_pow_pos v)

/-- What came out so far are the first groups of the number that went in. -/
theorem groupsOf_ofDigits {n : Nat} : ∀ {ys : List Nat}, (∀ y ∈ ys, y < 2 ^ v) →
    groupsOf v ys.length (Nat.ofDigits (2 ^ v) ys + 2 ^ (v * ys.length) * n) = ys
  | [], _ => rfl
  | y :: ys, hys => by
    have hy : y < 2 ^ v := hys y mem_cons_self
    have hvalue : Nat.ofDigits (2 ^ v) (y :: ys) + 2 ^ (v * (ys.length + 1)) * n =
        y + 2 ^ v * (Nat.ofDigits (2 ^ v) ys + 2 ^ (v * ys.length) * n) := by
      rw [Nat.ofDigits_cons, Nat.mul_succ, pow_add]
      ring
    rw [length_cons, groupsOf, hvalue, Nat.add_mul_mod_self_left, Nat.mod_eq_of_lt hy,
      Nat.add_mul_div_left _ _ (Nat.two_pow_pos v), Nat.div_eq_of_lt hy, zero_add,
      groupsOf_ofDigits fun z hz => hys z (mem_cons_of_mem _ hz)]

section
variable (h : Regroups w v xs ys val bits)
include h

theorem Regroups.eq_groupsOf (hbits : bits < v) :
    ys = groupsOf v (w * xs.length / v) (Nat.ofDigits (2 ^ w) xs) := by
  have hlen : w * xs.length / v = ys.length := by
    rw [h.count, Nat.mul_add_div (by omega), Nat.div_eq_of_lt hbits, add_zero]
  rw [hlen, h.value, groupsOf_ofDigits h.groups]

theorem Regroups.back_prefix (hxs : ∀ x ∈ xs, x < 2 ^ w)
    (hback : Regroups v w ys zs val' bits') (hw : 0 < w) : zs = xs.take zs.length := by
  have hle : zs.length ≤ xs.length := by
    have := h.count
    have := hback.count
    exact Nat.le_of_mul_le_mul_left (show w * zs.length ≤ w * xs.length by omega) hw
  have hpow : 2 ^ (v * ys.length) = 2 ^ (w * zs.length) * 2 ^ bits' := by rw [hback.count, pow_add]
  have hvalue : Nat.ofDigits (2 ^ w) xs =
      Nat.ofDigits (2 ^ w) zs + 2 ^ (w * zs.length) * (val' + 2 ^ bits' * val) := by
    rw [h.value, hback.value, hpow]
    ring
  have hfront : ∀ y ∈ xs.take zs.length, y < 2 ^ w := fun y hy => hxs y (mem_of_mem_take hy)
  have hxs' := groupsOf_ofDigits (n := Nat.ofDigits (2 ^ w) (xs.drop zs.length)) hfront
  have hlen : (xs.take zs.length).length = zs.length := by rw [length_take, min_eq_left hle]
  rw [hlen] at hxs'
  have hsplit : Nat.ofDigits (2 ^ w) xs = Nat.ofDigits (2 ^ w) (xs.take zs.length) +
      2 ^ (w * zs.length) * Nat.ofDigits (2 ^ w) (xs.drop zs.length) := by
    conv_lhs => rw [← take_append_drop zs.length xs, Nat.ofDigits_append, hlen, ← pow_mul]
  rw [← hsplit, hvalue, groupsOf_ofDigits hback.groups] at hxs'
  exact hxs'

theorem Regroups.back_iff (hxs : ∀ x ∈ xs, x < 2 ^ w)
    (hback : Regroups v w ys zs val' bits') (hbits' : bits' < w) : zs = xs ↔ bits = 0 := by
  have hcount := h.count
  have hcount' := hback.count
  constructor
  · rintro rfl
    omega
  · rintro rfl
    have hlen : xs.length = zs.length := by
      have hdiv : w * xs.length / w = (w * zs.length + bits') / w := by rw [hcount, add_zero, hcount']
      rwa [Nat.mul_div_cancel_left _ (by omega), Nat.mul_add_div (by omega), Nat.div_eq_of_lt hbits',
        add_zero] at hdiv
    rw [h.back_prefix hxs hback (by omega), ← hlen, take_length]

end

end Lib
