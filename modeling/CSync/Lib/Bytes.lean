import Mathlib.Data.List.Basic
import Mathlib.Data.List.GetD
import Mathlib.Tactic.Ring

/-! Little-endian numbers and byte buffers.

    `toLe k n` writes `n` into `k` bytes, `ofLe` reads bytes back. A buffer is a function from offsets
    to bytes, because a program may read past what was stored; `Holds m o bs` says that the bytes
    `bs` stand in `m` from offset `o` on, and `slice` is what a copy out of the buffer sees. -/

namespace Lib

open List

/-- The `k` low bytes of `n`, the lowest first. -/
def toLe : Nat → Nat → List UInt8
  | 0, _ => []
  | k + 1, n => UInt8.ofNat n :: toLe k (n / 256)

/-- The number a list of bytes stands for. -/
def ofLe : List UInt8 → Nat
  | [] => 0
  | b :: bs => b.toNat + 256 * ofLe bs

@[simp] theorem length_toLe : ∀ k n : Nat, (toLe k n).length = k
  | 0, _ => rfl
  | k + 1, n => by rw [toLe, length_cons, length_toLe k]

theorem ofLe_toLe : ∀ {k n : Nat}, n < 256 ^ k → ofLe (toLe k n) = n
  | 0, n, h => by
    have : n = 0 := by simpa using h
    rw [this]; rfl
  | k + 1, n, h => by
    have hk : n / 256 < 256 ^ k := by
      rw [Nat.div_lt_iff_lt_mul (by decide)]
      rw [pow_succ] at h; exact h
    rw [toLe, ofLe, ofLe_toLe hk, UInt8.toNat_ofNat']
    omega

/-- A byte below `n` is one of `n` values. -/
theorem exists_fin {n : Nat} {x y : UInt8} (hy : y.toNat = n) (h : x < y) : ∃ t : Fin n, x = UInt8.ofNat t := by
  rw [UInt8.lt_iff_toNat_lt, hy] at h
  exact ⟨⟨x.toNat, h⟩, by simp⟩

theorem exists_byte (x : UInt8) : ∃ t : Fin 256, x = UInt8.ofNat t := ⟨⟨x.toNat, x.toNat_lt⟩, by simp⟩

/-- Copy `len` bytes of the buffer `m` out, from offset `o` on. -/
def slice (m : Nat → UInt8) : Nat → Nat → List UInt8
  | _, 0 => []
  | o, len + 1 => m o :: slice m (o + 1) len

/-- The bytes `bs` stand in the buffer `m` from offset `o` on. -/
def Holds (m : Nat → UInt8) (o : Nat) (bs : List UInt8) : Prop := slice m o bs.length = bs

theorem slice_append (m : Nat → UInt8) : ∀ (a o b : Nat), slice m o (a + b) = slice m o a ++ slice m (o + a) b
  | 0, o, b => by simp [slice]
  | a + 1, o, b => by
    rw [Nat.succ_add, slice, slice_append m a (o + 1) b, slice, cons_append, Nat.add_right_comm o 1 a]
    rfl

@[simp] theorem length_slice (m : Nat → UInt8) : ∀ (len o : Nat), (slice m o len).length = len
  | 0, _ => rfl
  | len + 1, o => by rw [slice, length_cons, length_slice m len]

variable {m : Nat → UInt8} {o a : Nat} {bs : List UInt8}

/-- What stands in a buffer one after the other stands there piece by piece. -/
theorem holds_append {as : List UInt8} : Holds m o (as ++ bs) ↔ Holds m o as ∧ Holds m (o + as.length) bs := by
  rw [Holds, Holds, Holds, length_append, slice_append]
  constructor
  · intro h
    exact append_inj h (length_slice m _ _)
  · rintro ⟨ha, hb⟩
    rw [ha, hb]

theorem holds_cons {b : UInt8} : Holds m o (b :: bs) ↔ m o = b ∧ Holds m (o + 1) bs := by
  rw [Holds, Holds, length_cons, slice, cons.injEq]

/-- A copy of a buffer gives its bytes back one by one. -/
theorem holds_slice {n : Nat → UInt8} : ∀ {len o p : Nat}, Holds m p (slice n o len) →
    ∀ i < len, m (p + i) = n (o + i)
  | 0, _, _, _, i, hi => absurd hi (Nat.not_lt_zero i)
  | len + 1, o, p, h, i, hi => by
    rw [slice, holds_cons] at h
    cases i with
    | zero => exact h.1
    | succ i =>
      have ih := holds_slice h.2 i (Nat.lt_of_succ_lt_succ hi)
      rwa [Nat.add_right_comm, Nat.add_right_comm o] at ih

/-- The buffer that stores `bs` from offset 0 on and `0` elsewhere. -/
def bufferOf (bs : List UInt8) : Nat → UInt8 := fun i => bs.getD i 0

theorem holds_getD : ∀ (bs as : List UInt8), Holds (bufferOf (as ++ bs)) as.length bs
  | [], as => rfl
  | b :: bs, as => by
    have hrest := holds_getD bs (as ++ [b])
    rw [append_assoc, singleton_append, length_append, length_singleton] at hrest
    rw [Holds, length_cons, slice, hrest]
    simp [bufferOf]

theorem holds_bufferOf (bs : List UInt8) : Holds (bufferOf bs) 0 bs := holds_getD bs []

/-! ### Stores into a buffer -/

/-- The buffer with `bs` stored from offset `o` on. -/
def store (m : Nat → UInt8) (o : Nat) (bs : List UInt8) : Nat → UInt8 := fun i =>
  if o ≤ i ∧ i < o + bs.length then bs.getD (i - o) 0 else m i

theorem store_outside {i : Nat} (h : i < o ∨ o + bs.length ≤ i) : store m o bs i = m i := if_neg (by omega)

theorem store_inside {i : Nat} (h : i < bs.length) : store m o bs (o + i) = bs.getD i 0 := by
  rw [store, if_pos (by omega), Nat.add_sub_cancel_left]

/-- Buffers that agree on a range are copied out alike. -/
theorem slice_congr {n : Nat → UInt8} : ∀ {len o : Nat}, (∀ i, o ≤ i → i < o + len → m i = n i) →
    slice m o len = slice n o len
  | 0, _, _ => rfl
  | len + 1, o, h => by
    rw [slice, slice, h o (by omega) (by omega), slice_congr fun i hlo hhi => h i (by omega) (by omega)]

/-- A copy that is cut short. -/
theorem slice_take (m : Nat → UInt8) : ∀ (n len o : Nat), slice m o (min n len) = (slice m o len).take n
  | 0, len, o => by rw [Nat.zero_min, take_zero]; rfl
  | n + 1, 0, o => rfl
  | n + 1, len + 1, o => by
    rw [Nat.add_min_add_right, slice, slice, take_succ_cons, slice_take m n len (o + 1)]

theorem getD_slice (m : Nat → UInt8) : ∀ {len o j : Nat}, j < len → (slice m o len).getD j 0 = m (o + j)
  | 0, _, _, h => absurd h (Nat.not_lt_zero _)
  | len + 1, o, 0, _ => rfl
  | len + 1, o, j + 1, h => by
    rw [slice, getD_cons_succ, getD_slice m (Nat.lt_of_succ_lt_succ h), Nat.add_right_comm, add_assoc]

/-- What was stored is held. -/
theorem holds_store (m : Nat → UInt8) (o : Nat) (bs : List UInt8) : Holds (store m o bs) o bs := by
  have hcopy : ∀ (as bs : List UInt8), slice (store m o (as ++ bs)) (o + as.length) bs.length = bs := by
    intro as bs
    induction bs generalizing as with
    | nil => rfl
    | cons b bs ih =>
      have hrest := ih (as ++ [b])
      rw [append_assoc, singleton_append, length_append, length_singleton] at hrest
      rw [length_cons, slice, ← add_assoc] at *
      rw [hrest, store_inside (by simp)]
      simp
  exact hcopy [] bs

theorem slice_store_outside {p len : Nat}
    (h : p + len ≤ o ∨ o + bs.length ≤ p) : slice (store m o bs) p len = slice m p len :=
  slice_congr fun _ hlo hhi => store_outside (by omega)

/-- Stores that do not overlap can be done in either order. -/
theorem store_comm {q : Nat} {as : List UInt8} (h : o + as.length ≤ q) :
    store (store m q bs) o as = store (store m o as) q bs := by
  funext i
  by_cases hi : o ≤ i ∧ i < o + as.length
  · rw [store, if_pos hi, store_outside (.inl (by omega)), store, if_pos hi]
  · rw [store, if_neg hi]
    by_cases hq : q ≤ i ∧ i < q + bs.length
    · rw [store, if_pos hq, store, if_pos hq]
    · rw [store, if_neg hq, store, if_neg hq, store, if_neg hi]

/-- Two stores, one behind the other, are one. -/
theorem store_append (m : Nat → UInt8) (o : Nat) (as bs : List UInt8) :
    store (store m (o + as.length) bs) o as = store m o (as ++ bs) := by
  funext i
  have hlen : (as ++ bs).length = as.length + bs.length := length_append
  rcases lt_or_ge i o with hlt | hge
  · rw [store_outside (.inl hlt), store_outside (.inl (by omega)), store_outside (.inl hlt)]
  · obtain ⟨k, rfl⟩ := Nat.exists_eq_add_of_le hge
    rcases lt_or_ge k as.length with hk | hk
    · rw [store_inside hk, store_inside (by omega), getD_append _ _ _ _ hk]
    · obtain ⟨j, rfl⟩ := Nat.exists_eq_add_of_le hk
      rw [store_outside (.inr (by omega)), ← add_assoc]
      rcases lt_or_ge j bs.length with hj | hj
      · rw [store_inside hj, add_assoc, store_inside (by omega),
          getD_append_right _ _ _ _ (Nat.le_add_right ..), Nat.add_sub_cancel_left]
      · rw [store_outside (.inr (by omega)), store_outside (.inr (by omega))]

theorem length_flatten_of_forall : ∀ {xs : List (List UInt8)}, (∀ x ∈ xs, x.length = a) →
    xs.flatten.length = xs.length * a
  | [], _ => (zero_mul a).symm
  | x :: xs, h => by
    have ih := length_flatten_of_forall fun y hy => h y (mem_cons_of_mem x hy)
    rw [flatten_cons, length_append, ih, h x mem_cons_self, length_cons, Nat.succ_mul, add_comm]

theorem slice_record : ∀ {xs : List (List UInt8)} {o : Nat},
    (∀ x ∈ xs, x.length = a) → Holds m o xs.flatten → ∀ {i : Nat} {x : List UInt8}, xs[i]? = some x →
      slice m (o + i * a) a = x
  | [], _, _, _, _, _, hx => by cases hx
  | y :: xs, o, hlen, h, i, x, hx => by
    rw [flatten_cons, holds_append, hlen y mem_cons_self] at h
    cases i with
    | zero =>
      cases hx
      have := h.1
      rwa [Holds, hlen y mem_cons_self, ← add_zero o, ← zero_mul a] at this
    | succ i =>
      have hplace : o + (i + 1) * a = o + a + i * a := by
        rw [Nat.succ_mul]
        omega
      rw [hplace]
      exact slice_record (fun z hz => hlen z (mem_cons_of_mem y hz)) h.2 hx

theorem holds_set_record {y : List UInt8} (hy : y.length = a) :
    ∀ {xs : List (List UInt8)} {o : Nat}, (∀ x ∈ xs, x.length = a) → Holds m o xs.flatten → ∀ {i : Nat},
      i < xs.length → Holds (store m (o + i * a) y) o (xs.set i y).flatten
  | [], _, _, _, _, hi => absurd hi (Nat.not_lt_zero _)
  | x :: xs, o, hlen, h, i, hi => by
    have hrest : ∀ z ∈ xs, z.length = a := fun z hz => hlen z (mem_cons_of_mem x hz)
    rw [flatten_cons, holds_append, hlen x mem_cons_self] at h
    cases i with
    | zero =>
      rw [set_cons_zero, flatten_cons, holds_append, zero_mul, add_zero, hy]
      refine ⟨holds_store m o y, ?_⟩
      rw [Holds, slice_store_outside (.inr (by rw [hy]))]
      exact h.2
    | succ i =>
      have hplace : o + (i + 1) * a = o + a + i * a := by
        rw [Nat.succ_mul]
        omega
      have hlenx := hlen x mem_cons_self
      rw [set_cons_succ, flatten_cons, holds_append, hlenx, hplace]
      refine ⟨?_, holds_set_record hy hrest h.2 (Nat.lt_of_succ_lt_succ hi)⟩
      rw [Holds, slice_store_outside (.inl (by rw [hlenx]; omega))]
      exact h.1

end Lib
