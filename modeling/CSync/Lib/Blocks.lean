import CSync.Lib.Bits
import CSync.Lib.Region

/-! Bitmaps of the blocks of a buffer.

    Block `b` has the bit `7 - b % 8` of byte `b / 8`, so the first block of a byte has its highest bit. A range of
    blocks is entered with a mask in the byte where it starts, one in the byte where it ends, and ones in between. -/

namespace Lib

/-- Block `b` is entered in the bitmap `m`. -/
def Marked (m : Nat → UInt8) (b : Nat) : Prop := HasBit (m (b / 8)) (7 - b % 8)

/-- The bits of the blocks from number `k` of a byte on. -/
def onesFrom (k : Nat) : UInt8 := 0xff >>> k.toUInt8

theorem hasBit_onesFrom {k j : Nat} (hk : k < 8) (hj : j < 8) : HasBit (onesFrom k) (7 - j) ↔ k ≤ j := by
  have hall : ∀ k j : Fin 8, HasBit (onesFrom k) (7 - j) ↔ k.val ≤ j.val := by decide
  exact hall ⟨k, hk⟩ ⟨j, hj⟩

theorem hasBit_full {j : Nat} (hj : j < 8) : HasBit 0xff (7 - j) :=
  (hasBit_onesFrom (k := 0) (by decide) hj).mpr (Nat.zero_le j)

theorem hasBit_upTo {k j : Nat} (hk : k < 8) (hj : j < 8) : HasBit (~~~onesFrom k) (7 - j) ↔ j < k := by
  rw [hasBit_not _ (by omega), hasBit_onesFrom hk hj, not_le]

/-- Bytes with all bits: every block of theirs is entered. -/
theorem marked_of_full {m : Nat → UInt8} {b : Nat} (h : m (b / 8) = 0xff) : Marked m b := by
  rw [Marked, h]
  exact hasBit_full (Nat.mod_lt b (by decide))

namespace Region

/-- `for(i = lo; i < lo + n; ++i) r[i] = b`. -/
def fill (r : Region) (b : UInt8) : Nat → Nat → Region
  | _, 0 => r
  | lo, n + 1 => (r.put lo b).fill b (lo + 1) n

@[simp] theorem fill_size (b : UInt8) : ∀ (r : Region) (lo n : Nat), (r.fill b lo n).size = r.size
  | _, _, 0 => rfl
  | r, lo, n + 1 => by rw [fill, fill_size b (r.put lo b), put_size]

theorem fill_outside (b : UInt8) : ∀ (r : Region) (lo n : Nat) {i : Nat}, i < lo ∨ lo + n ≤ i →
    (r.fill b lo n).bytes i = r.bytes i
  | _, _, 0, _, _ => rfl
  | r, lo, n + 1, i, h => by
    rw [fill, fill_outside b (r.put lo b) (lo + 1) n (by omega), put_other _ _ (by omega)]

theorem fill_inside (b : UInt8) : ∀ (r : Region) (lo n : Nat) {i : Nat}, lo ≤ i → i < lo + n →
    (r.fill b lo n).bytes i = b
  | _, _, 0, _, hlo, hhi => by omega
  | r, lo, n + 1, i, hlo, hhi => by
    rw [fill]
    rcases Nat.eq_or_lt_of_le hlo with rfl | hlt
    · rw [fill_outside b _ _ _ (by omega), put_same]
    · exact fill_inside b _ _ _ (by omega) (by omega)

theorem put_clean (r : Region) (o : Nat) (b : UInt8) : (r.put o b).clean = true ↔ r.clean = true ∧ o < r.size := by
  rw [put, copy_clean]
  exact and_congr_right fun _ => by omega

theorem fill_clean (b : UInt8) : ∀ (r : Region) (lo n : Nat),
    (r.fill b lo n).clean = true ↔ r.clean = true ∧ (n = 0 ∨ lo + n ≤ r.size)
  | r, lo, 0 => by simp [fill]
  | r, lo, n + 1 => by
    rw [fill, fill_clean b (r.put lo b), put_clean, put_size, and_assoc]
    exact and_congr_right fun _ => by omega

end Region

end Lib
