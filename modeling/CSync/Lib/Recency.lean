import Mathlib.Data.List.Nodup

/-! The latest item of each key in a history.

    A history has its latest item first. `latest` keeps the first item of each key, in order, so that a new
    item goes to the front and takes the place of the one with its key. -/

namespace Lib

open List

variable {α κ : Type} [DecidableEq κ]

/-- The latest item of each key, the latest key first. -/
def latest (key : α → κ) : List α → List α
  | [] => []
  | x :: xs => x :: (latest key xs).filter fun y => key y ≠ key x

variable {key : α → κ}

theorem mem_of_mem_latest : ∀ {xs : List α} {x : α}, x ∈ latest key xs → x ∈ xs
  | y :: ys, x, h => by
    rcases mem_cons.mp h with rfl | h
    · exact mem_cons_self
    · exact mem_cons_of_mem _ (mem_of_mem_latest (mem_of_mem_filter h))

theorem nodup_latest : ∀ xs : List α, ((latest key xs).map key).Nodup
  | [] => nodup_nil
  | x :: xs => by
    rw [latest, map_cons, nodup_cons]
    refine ⟨fun h => ?_, (nodup_latest xs).sublist (List.Sublist.map key filter_sublist)⟩
    obtain ⟨y, hy, heq⟩ := mem_map.mp h
    exact of_decide_eq_true (mem_filter.mp hy).2 heq

theorem filter_eq_eraseIdx : ∀ {xs : List α} {i : Nat} {x : α}, (xs.map key).Nodup → xs[i]? = some x →
    (xs.filter fun y => key y ≠ key x) = xs.eraseIdx i
  | [], _, _, _, h => by simp at h
  | y :: ys, 0, x, hnodup, h => by
    rw [getElem?_cons_zero, Option.some.injEq] at h
    subst h
    rw [map_cons, nodup_cons] at hnodup
    rw [filter_cons_of_neg (by simp), eraseIdx_cons_zero, filter_eq_self]
    intro z hz
    exact decide_eq_true fun heq => hnodup.1 (heq ▸ mem_map_of_mem hz)
  | y :: ys, i + 1, x, hnodup, h => by
    rw [getElem?_cons_succ] at h
    rw [map_cons, nodup_cons] at hnodup
    have hne : key y ≠ key x := fun heq => hnodup.1 (heq ▸ mem_map_of_mem (mem_of_getElem? h))
    rw [filter_cons_of_pos (by simp [hne]), eraseIdx_cons_succ, filter_eq_eraseIdx hnodup.2 h]

theorem getElem?_filter_of_notMem {xs : List α} {k : κ} {n j : Nat} (h : ∀ x ∈ xs.take n, key x ≠ k) (hj : j < n) :
    (xs.filter fun y => key y ≠ k)[j]? = xs[j]? := by
  have hsplit : (xs.filter fun y => key y ≠ k) = xs.take n ++ (xs.drop n).filter fun y => key y ≠ k := by
    conv_lhs => rw [← take_append_drop n xs, filter_append]
    rw [filter_eq_self.mpr fun x hx => decide_eq_true (h x hx)]
  rw [hsplit]
  by_cases hlen : j < (xs.take n).length
  · rw [getElem?_append_left hlen, getElem?_take_of_lt hj]
  · have hle : xs.length ≤ j := by
      rw [length_take] at hlen
      omega
    rw [drop_eq_nil_of_le (by omega), filter_nil, append_nil, getElem?_take_of_lt hj]

end Lib
