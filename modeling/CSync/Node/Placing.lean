import Mathlib.Algebra.Order.BigOperators.Group.List
import Mathlib.Algebra.Order.Ring.Nat
import CSync.Node.Gtsp
import CSync.Node.Cluster

/-! The placing of a node among its neighbours (`csync_update_placing`, `csync_CHB_placing`).

    A neighbour that outranks the node adds the difference of the degrees, or 1 if they are equal. The sums are kept in
    8 bits, so a placing of 0 means that nobody outranks the node only as long as the exact sum is no other multiple
    of 256. -/

namespace CSync

open Lib List

/-- A sender outranks a node: it has a higher degree, or an equal one and a higher address. -/
def Above (myAddr : UInt16) (myDegree : UInt8) (addr : UInt16) (degree : UInt8) : Prop :=
  myDegree < degree ∨ (degree = myDegree ∧ myAddr < addr)

/-- What a sender adds to the placing of a node. -/
def rankGap (myAddr : UInt16) (myDegree : UInt8) (addr : UInt16) (degree : UInt8) : Nat :=
  if myDegree < degree then degree.toNat - myDegree.toNat
  else if degree = myDegree ∧ myAddr < addr then 1 else 0

section Gap

variable {a addr : UInt16} {d e degree : UInt8}

theorem rankGap_eq_zero : rankGap a d addr degree = 0 ↔ ¬ Above a d addr degree := by
  rw [rankGap, Above]
  split
  next hless =>
    have hnat := UInt8.lt_iff_toNat_lt.mp hless
    exact ⟨fun hzero => by omega, fun hnot => absurd (.inl hless) hnot⟩
  next hless =>
    split
    next htie => exact ⟨fun hone => by omega, fun hnot => absurd (.inr htie) hnot⟩
    next htie => exact ⟨fun _ => not_or.mpr ⟨hless, htie⟩, fun _ => rfl⟩

/-- With more neighbours of its own a node is outranked by less. -/
theorem rankGap_antitone (h : d ≤ e) : rankGap a e addr degree ≤ rankGap a d addr degree := by
  have hnat := UInt8.le_iff_toNat_le.mp h
  rw [rankGap, rankGap]
  simp only [UInt8.lt_iff_toNat_lt, ← UInt8.toNat_inj]
  split
  · rw [if_pos (by omega)]
    omega
  · split
    next htie =>
      split
      · omega
      · rw [if_pos ⟨by omega, htie.2⟩]
    · exact Nat.zero_le _

theorem placing_step (placing : UInt8) :
    (if d < degree then placing + (degree - d) else if degree = d ∧ a < addr then placing + 1 else placing).toNat =
      (placing.toNat + rankGap a d addr degree) % 256 := by
  have hplacing := placing.toNat_lt
  rw [rankGap]
  split
  next hless => rw [UInt8.toNat_add, UInt8.toNat_sub_of_le _ _ (UInt8.le_of_lt hless)]
  · split
    · rw [UInt8.toNat_add]
      rfl
    · rw [add_zero, Nat.mod_eq_of_lt hplacing]

end Gap

theorem foldl_toNat {α : Type} {step : UInt8 → α → UInt8} {g : α → Nat}
    (h : ∀ placing x, (step placing x).toNat = (placing.toNat + g x) % 256) : ∀ (l : List α) (placing : UInt8),
    (l.foldl step placing).toNat = (placing.toNat + (l.map g).sum) % 256
  | [], placing => (Nat.mod_eq_of_lt placing.toNat_lt).symm
  | x :: l, placing => by
    rw [foldl_cons, foldl_toNat h l, h, map_cons, sum_cons, Nat.mod_add_mod, add_assoc]

theorem sum_by_key_le {α β : Type} [DecidableEq β] (key : α → β) (f : α → Nat) {keys : List β} (hnd : keys.Nodup)
    (l : List α) : (keys.map fun k => ((l.filter fun x => key x == k).map f).sum).sum ≤ (l.map f).sum := by
  induction l with
  | nil => simp
  | cons x l ih =>
    have hone : (keys.map fun k => if key x == k then f x else 0).sum ≤ f x := by
      have hself := sum_map_eq_nsmul_single (l := keys) (key x) (fun k => if key x == k then f x else 0)
        fun k hne _ => if_neg fun h => hne (beq_iff_eq.mp h).symm
      have hcount := nodup_iff_count_le_one.mp hnd (key x)
      rw [hself, if_pos (beq_self_eq_true _), Nat.nsmul_eq_mul]
      exact (Nat.mul_le_mul_right _ hcount).trans (one_mul _).le
    have hsplit : (keys.map fun k => (((x :: l).filter fun x => key x == k).map f).sum) =
        keys.map fun k => (if key x == k then f x else 0) + ((l.filter fun x => key x == k).map f).sum := by
      refine map_congr_left fun k _ => ?_
      rw [filter_cons]
      split <;> simp
    rw [hsplit, sum_map_add, map_cons, sum_cons]
    exact Nat.add_le_add hone ih

/-- What the neighbours of the topology add, exactly. -/
def rankGaps {R : Type} (myAddr : UInt16) (nb : NeighbourTable R) : Nat :=
  (nb.modList.map fun i => rankGap myAddr nb.myDegree (nb.memb.mem i).addr (nb.memb.mem i).degree).sum

variable {R : Type}

theorem csyncUpdatePlacing_toNat (a : UInt16) (nb : NeighbourTable R) :
    (csyncUpdatePlacing a nb).toNat = rankGaps a nb % 256 := by
  have hsum := foldl_toNat (g := fun i => rankGap a nb.myDegree (nb.memb.mem i).addr (nb.memb.mem i).degree)
    (fun placing _ => placing_step placing) nb.modList 0
  rw [UInt8.toNat_zero, zero_add] at hsum
  exact hsum

/-- What the entries of the topology with an address add. -/
def rankGapsOf (a : UInt16) (nb : NeighbourTable R) (addr : UInt16) : Nat :=
  ((nb.modList.filter fun i => (nb.memb.mem i).addr == addr).map fun i =>
    rankGap a nb.myDegree (nb.memb.mem i).addr (nb.memb.mem i).degree).sum

theorem rankGapsOf_sum_le (a : UInt16) (nb : NeighbourTable R) {addrs : List UInt16} (hnd : addrs.Nodup) :
    (addrs.map (rankGapsOf a nb)).sum ≤ rankGaps a nb :=
  sum_by_key_le (fun i => (nb.memb.mem i).addr) _ hnd nb.modList

theorem le_rankGapsOf (a : UInt16) {nb : NeighbourTable R} {i : Fin maxDegree} (hi : i ∈ nb.modList) :
    rankGap a nb.myDegree (nb.memb.mem i).addr (nb.memb.mem i).degree ≤ rankGapsOf a nb (nb.memb.mem i).addr := by
  have hmem : i ∈ nb.modList.filter fun j => (nb.memb.mem j).addr == (nb.memb.mem i).addr :=
    mem_filter.mpr ⟨hi, beq_self_eq_true _⟩
  exact le_sum_of_mem (mem_map_of_mem (f := fun j =>
    rankGap a nb.myDegree (nb.memb.mem j).addr (nb.memb.mem j).degree) hmem)

/-- An address that no entry has adds nothing. -/
theorem rankGapsOf_eq_zero (a : UInt16) {nb : NeighbourTable R} {addr : UInt16}
    (hnone : ∀ i ∈ nb.modList, (nb.memb.mem i).addr ≠ addr) : rankGapsOf a nb addr = 0 := by
  have hnil : (nb.modList.filter fun i => (nb.memb.mem i).addr == addr) = [] := by
    rw [filter_eq_nil_iff]
    exact fun i hi h => hnone i hi (beq_iff_eq.mp h)
  rw [rankGapsOf, hnil, map_nil, sum_nil]

/-- What the heads of a bridge add, exactly. -/
def headGaps (a : UInt16) (d : UInt8) (cl : Cluster) : Nat :=
  (cl.heads.map fun ch => rankGap a d ch.addr ch.degree).sum

theorem csyncChbPlacing_toNat {cl : Cluster} (hrole : cl.role = .cb) (a : UInt16) (d : UInt8) :
    (csyncChbPlacing cl a d).toNat = headGaps a d cl % 256 := by
  have hsum := foldl_toNat (g := fun ch : Chb => rankGap a d ch.addr ch.degree)
    (fun placing _ => placing_step placing) cl.heads 0
  rw [UInt8.toNat_zero, zero_add] at hsum
  rw [csyncChbPlacing]
  simp only [hrole, and_true]
  exact hsum

/-- The exact sum is 0 if and only if nobody outranks the node. -/
theorem rankGaps_eq_zero (a : UInt16) (nb : NeighbourTable R) : rankGaps a nb = 0 ↔
    ∀ i ∈ nb.modList, ¬ Above a nb.myDegree (nb.memb.mem i).addr (nb.memb.mem i).degree := by
  rw [rankGaps, List.sum_eq_zero_iff_forall_eq_nat, List.forall_mem_map]
  exact forall₂_congr fun _ _ => rankGap_eq_zero

/-- LOCAL MAXIMUM: the placing tells whether a neighbour outranks the node just if the exact sum is not a positive
    multiple of 256. -/
theorem csyncUpdatePlacing_tells_iff (a : UInt16) (nb : NeighbourTable R) :
    (csyncUpdatePlacing a nb = 0 ↔
       ∀ i ∈ nb.modList,
         ¬ ((nb.myDegree < (nb.memb.mem i).degree) ∨
            ((nb.memb.mem i).degree = nb.myDegree ∧ a < (nb.memb.mem i).addr))) ↔
      ¬ (0 < rankGaps a nb ∧ 256 ∣ rankGaps a nb) := by
  have hzero : csyncUpdatePlacing a nb = 0 ↔ 256 ∣ rankGaps a nb := by
    rw [← UInt8.toNat_inj, csyncUpdatePlacing_toNat, UInt8.toNat_zero, Nat.dvd_iff_mod_eq_zero]
  have hnone := rankGaps_eq_zero a nb
  simp only [Above] at hnone
  rw [hzero, ← hnone]
  constructor
  · rintro hiff ⟨hpos, hdvd⟩
    exact absurd (hiff.mp hdvd) (Nat.pos_iff_ne_zero.mp hpos)
  · intro hnot
    refine ⟨fun hdvd => ?_, fun hnil => hnil ▸ Nat.dvd_zero 256⟩
    by_contra hne
    exact hnot ⟨Nat.pos_of_ne_zero hne, hdvd⟩

/-- A node of degree 2 between two neighbours of degree 130. -/
def outrankedTable : NeighbourTable Unit where
  memb := ⟨fun _ => 1, fun i => ⟨if i = 0 then 44 else 48, 130, .cm, 0, false, false, (), 0, 0, 0, 0, 0, 0⟩⟩
  modList := [0, 1]
  list := []
  myDegree := 2

/-- FAILS IN GENERAL: the differences add up to 256, and the lowest of three nodes takes itself for the highest. -/
theorem outranked_by_all : ¬ ∀ (a : UInt16) (nb : NeighbourTable Unit), nb.modList.length ≤ maxDegree →
    ((nb.modList.map fun i => (nb.memb.mem i).addr).Nodup) →
    (csyncUpdatePlacing a nb = 0 ↔ ∀ i ∈ nb.modList, ¬ ((nb.myDegree < (nb.memb.mem i).degree) ∨
      ((nb.memb.mem i).degree = nb.myDegree ∧ a < (nb.memb.mem i).addr))) := by
  intro hall
  have htells := (hall 62 outrankedTable (by decide) (by decide)).mp (by decide) 0 (by decide)
  exact htells (.inl (by decide))

end CSync
