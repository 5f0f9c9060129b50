import Mathlib.Data.List.Nodup

/-! Lists linked by hand.

    The nodes are the elements of a type, `next` gives each node its successor and `none` is the null pointer. `Linked
    next h l` says that the pointers from the head `h` on run through the nodes of `l` and end there; the pointers
    decide the list (`Linked.unique`), so a linked list has no cycle and no node twice (`Linked.nodup`). -/

namespace Lib

open List Function

variable {ι : Type}

/-- The pointers from `h` on run through `l` and end. -/
def Linked (next : ι → Option ι) : Option ι → List ι → Prop
  | h, [] => h = none
  | h, a :: l => h = some a ∧ Linked next (next a) l

/-- Follow at most `fuel` pointers. -/
def walk (next : ι → Option ι) : Nat → Option ι → List ι
  | 0, _ => []
  | _ + 1, none => []
  | fuel + 1, some a => a :: walk next fuel (next a)

variable {next next' : ι → Option ι} {h : Option ι} {l l' r : List ι} {a t u : ι}

theorem Linked.unique : ∀ {l l' : List ι} {h : Option ι}, Linked next h l → Linked next h l' → l = l'
  | [], [], _, _, _ => rfl
  | [], _ :: _, _, h0, h1 => by rw [h0] at h1; cases h1.1
  | _ :: _, [], _, h0, h1 => by rw [h1] at h0; cases h0.1
  | a :: l, b :: l', _, h0, h1 => by
    obtain rfl : a = b := Option.some.inj (h0.1.symm.trans h1.1)
    rw [h0.2.unique h1.2]

/-- From a node of the list on, the pointers run through the rest. -/
theorem Linked.tail : ∀ {l : List ι} {h : Option ι}, Linked next h (l ++ a :: r) → Linked next (next a) r
  | [], _, hl => hl.2
  | _ :: _, _, hl => hl.2.tail

/-- No node comes twice: the pointers behind it would have to run through two different lists. -/
theorem Linked.nodup : ∀ {l : List ι} {h : Option ι}, Linked next h l → l.Nodup
  | [], _, _ => nodup_nil
  | a :: l, _, hl => by
    refine nodup_cons.mpr ⟨fun hmem => ?_, hl.2.nodup⟩
    obtain ⟨l₁, l₂, rfl⟩ := append_of_mem hmem
    have hlen := congrArg length (hl.2.unique hl.2.tail)
    simp only [length_append, length_cons] at hlen
    omega

theorem Linked.walk_eq : ∀ {l : List ι} {h : Option ι} {fuel : Nat}, Linked next h l →
    l.length ≤ fuel → walk next fuel h = l
  | [], _, fuel, hl, _ => by
    rw [hl]
    cases fuel <;> rfl
  | a :: l, _, 0, _, hf => absurd hf (Nat.not_succ_le_zero _)
  | a :: l, _, fuel + 1, hl, hf => by
    rw [hl.1, walk, hl.2.walk_eq (Nat.le_of_succ_le_succ hf)]

/-- FRAME: only the pointers of the nodes matter. -/
theorem Linked.congr : ∀ {l : List ι} {h : Option ι}, (∀ a ∈ l, next' a = next a) → Linked next h l → Linked next' h l
  | [], _, _, hl => hl
  | a :: l, _, hsame, hl => by
    refine ⟨hl.1, ?_⟩
    rw [hsame a (mem_cons_self ..)]
    exact hl.2.congr fun b hb => hsame b (mem_cons_of_mem _ hb)

/-! ### Predecessors and successors -/

theorem Linked.head_eq {l : List ι} {h : Option ι} (hl : Linked next h l) : h = l.head? := by
  cases l with
  | nil => exact hl
  | cons a l => exact hl.1

theorem Linked.next_ne_head (hl : Linked next h l) (ha : a ∈ l) : next a ≠ h := by
  intro heq
  obtain ⟨l₁, l₂, rfl⟩ := append_of_mem ha
  have htail := hl.tail
  rw [heq] at htail
  have hlen := congrArg length (hl.unique htail)
  simp only [length_append, length_cons] at hlen
  omega

/-- No node points at itself. -/
theorem Linked.next_ne_self (hl : Linked next h l) (ha : a ∈ l) : next a ≠ some a := by
  intro heq
  obtain ⟨l₁, l₂, rfl⟩ := append_of_mem ha
  have hself : Linked next (some a) (a :: l₂) := ⟨rfl, hl.tail⟩
  exact hself.next_ne_head mem_cons_self heq

/-- Two nodes have different successors. -/
theorem Linked.next_inj {b : ι} (hl : Linked next h l) (ha : a ∈ l) (hb : b ∈ l) (heq : next a = next b) : a = b := by
  obtain ⟨l₁, r₁, hla⟩ := append_of_mem ha
  obtain ⟨l₂, r₂, hlb⟩ := append_of_mem hb
  have hta : Linked next (next a) r₁ := (hla ▸ hl).tail
  have htb : Linked next (next b) r₂ := (hlb ▸ hl).tail
  rw [heq] at hta
  have hrest : r₁ = r₂ := hta.unique htb
  subst hrest
  have hsplit := hla.symm.trans hlb
  have hlen := congrArg length hsplit
  simp only [length_append, length_cons] at hlen
  have hpair := (append_inj hsplit (by omega)).2
  exact (cons.inj hpair).1

/-- The successor of a node in a list. -/
def succOf [DecidableEq ι] : List ι → ι → Option ι
  | [], _ => none
  | a :: l, b => if a = b then l.head? else succOf l b

theorem Linked.next_eq [DecidableEq ι] : ∀ {l : List ι} {h : Option ι}, Linked next h l → a ∈ l → next a = succOf l a
  | [], _, _, ha => by cases ha
  | b :: l, _, hl, ha => by
    rw [succOf]
    split
    next hab =>
      subst hab
      exact hl.2.head_eq
    next hab => exact hl.2.next_eq ((mem_cons.mp ha).resolve_left fun heq => hab heq.symm)

/-- Move the head past the nodes to drop. -/
def dropHead (next : ι → Option ι) (gone : ι → Bool) : Nat → Option ι → Option ι
  | 0, h => h
  | _ + 1, none => none
  | fuel + 1, some a => if gone a then dropHead next gone fuel (next a) else some a

theorem Linked.dropHead {gone : ι → Bool} : ∀ {l : List ι} {h : Option ι} {fuel : Nat},
    Linked next h l → l.length ≤ fuel → Linked next (dropHead next gone fuel h) (l.dropWhile gone)
  | [], _, fuel, hl, _ => by
    rw [hl]
    cases fuel <;> rfl
  | a :: l, _, 0, _, hf => absurd hf (Nat.not_succ_le_zero _)
  | a :: l, _, fuel + 1, hl, hf => by
    rw [hl.1, Lib.dropHead, dropWhile_cons]
    cases hg : gone a with
    | true =>
      rw [if_pos rfl, if_pos rfl]
      exact hl.2.dropHead (Nat.le_of_succ_le_succ hf)
    | false => exact ⟨rfl, hl.2⟩

section Updates

variable [DecidableEq ι]

/-- A node off the list goes in front of it. -/
theorem Linked.push (hl : Linked next h l) (ha : a ∉ l) : Linked (update next a h) (some a) (a :: l) := by
  refine ⟨rfl, ?_⟩
  rw [update_self]
  refine hl.congr fun b hb => update_of_ne ?_ _ _
  rintro rfl
  exact ha hb

/-- Nodes off the list may point anywhere. -/
theorem Linked.update_off (hl : Linked next h l) (ha : a ∉ l) (n : Option ι) : Linked (update next a n) h l := by
  refine hl.congr fun b hb => update_of_ne ?_ _ _
  rintro rfl
  exact ha hb

/-- The predecessor skips its successor. -/
theorem Linked.unlink : ∀ {l : List ι} {h : Option ι}, Linked next h (l ++ u :: t :: r) →
    Linked (update next u (next t)) h (l ++ u :: r)
  | [], _, hl => by
    have hnodup := hl.nodup
    refine ⟨hl.1, ?_⟩
    rw [update_self]
    refine hl.2.2.congr fun b hb => update_of_ne ?_ _ _
    rintro rfl
    exact (nodup_cons.mp hnodup).1 (mem_cons_of_mem _ hb)
  | a :: l, _, hl => by
    have hne : a ≠ u := by
      rintro rfl
      exact (nodup_cons.mp hl.nodup).1 (by simp)
    refine ⟨hl.1, ?_⟩
    rw [update_of_ne hne]
    exact hl.2.unlink

theorem Linked.behind : ∀ {l : List ι} {h : Option ι}, Linked next h (l ++ u :: r) → a ∉ l ++ u :: r →
    Linked (update (update next a (next u)) u (some a)) h (l ++ u :: a :: r)
  | [], _, hl, ha => by
    rw [nil_append, mem_cons, not_or] at ha
    obtain ⟨hau, har⟩ := ha
    have hur : u ∉ r := (nodup_cons.mp hl.nodup).1
    refine ⟨hl.1, update_self .., ?_⟩
    rw [update_of_ne hau, update_self]
    exact (hl.2.update_off har _).update_off hur _
  | b :: l, _, hl, ha => by
    rw [cons_append, mem_cons, not_or] at ha
    obtain ⟨hab, har⟩ := ha
    have hbu : b ≠ u := by
      rintro rfl
      exact (nodup_cons.mp hl.nodup).1 (by simp)
    refine ⟨hl.1, ?_⟩
    rw [update_of_ne hbu, update_of_ne (Ne.symm hab)]
    exact hl.2.behind har

/-- Let every node behind `t` that stays skip the nodes to drop. -/
def skipGone (gone : ι → Bool) : Nat → (ι → Option ι) → ι → ι → Option ι
  | 0, next, _ => next
  | fuel + 1, next, t =>
    match next t with
    | none => next
    | some u =>
      if gone u then skipGone gone fuel (update next t (next u)) t
      else skipGone gone fuel next u

/-- The nodes behind `t` that stay, and every pointer elsewhere as it was. -/
theorem Linked.skipGone (gone : ι → Bool) : ∀ {fuel : Nat} {next : ι → Option ι} {t : ι} {l : List ι},
    Linked next (some t) (t :: l) → l.length ≤ fuel →
      Linked (skipGone gone fuel next t) (some t) (t :: l.filter fun a => !gone a) ∧
        ∀ a, a ∉ t :: l → skipGone gone fuel next t a = next a
  | 0, next, t, l, hl, hf => by
    obtain rfl : l = [] := eq_nil_of_length_eq_zero (Nat.le_zero.mp hf)
    exact ⟨hl, fun _ _ => rfl⟩
  | fuel + 1, next, t, [], hl, _ => by
    have hnone : next t = none := hl.2
    rw [Lib.skipGone, hnone]
    exact ⟨hl, fun _ _ => rfl⟩
  | fuel + 1, next, t, u :: l, hl, hf => by
    have hu : next t = some u := hl.2.1
    have hlen : l.length ≤ fuel := Nat.le_of_succ_le_succ hf
    rw [Lib.skipGone, hu]
    dsimp only
    cases hg : gone u with
    | true =>
      have hskip : Linked (update next t (next u)) (some t) (t :: l) := Linked.unlink (l := []) hl
      obtain ⟨hrest, hframe⟩ := Linked.skipGone gone hskip hlen
      rw [if_pos rfl, filter_cons_of_neg (by simp [hg])]
      refine ⟨hrest, fun a ha => ?_⟩
      have hout : a ∉ t :: l := fun hmem => ha (by
        rcases mem_cons.mp hmem with rfl | hmem
        · exact mem_cons_self ..
        · exact mem_cons_of_mem _ (mem_cons_of_mem _ hmem))
      rw [hframe a hout, update_of_ne]
      rintro rfl
      exact ha (mem_cons_self ..)
    | false =>
      have hbehind : Linked next (some u) (u :: l) := ⟨rfl, hl.2.2⟩
      obtain ⟨hrest, hframe⟩ := Linked.skipGone gone hbehind hlen
      rw [if_neg Bool.false_ne_true, filter_cons_of_pos (by simp [hg])]
      refine ⟨⟨rfl, ?_⟩, fun a ha => hframe a fun hmem => ha (mem_cons_of_mem _ hmem)⟩
      rw [hframe t (nodup_cons.mp hl.nodup).1, hu]
      exact hrest

end Updates

end Lib
