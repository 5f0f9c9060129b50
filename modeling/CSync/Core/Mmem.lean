import CSync.Core.Chain
import CSync.Lib.Region
import CSync.Lib.Run
import CSync.Lib.Stacked

/-! Managed memory (`core/lib/mmem.c`).

    A handle is an item of the list `mmemlist` with the start and the size of its block. New blocks come behind the
    others; when a block is freed, the bytes behind it are moved down over it and the handles behind it get new
    pointers. -/

namespace CSync.Mmem

open Lib CSync.Chain List Function

variable {H : Type} [DecidableEq H]

/-- `mmemlist`, the fields of the handles, `avail_memory` and `memory`; a pointer is an index into the memory. -/
structure Pool (H : Type) where
  list : Heap Unit H
  ptr : H → Nat
  size : H → Nat
  avail : Nat
  memory : Region

/-- `mmem_alloc`; the memory has `MMEM_SIZE` bytes. -/
def mmemAlloc (fuel : Nat) (s : Pool H) (m : H) (size : Nat) : Option (Bool × Pool H) :=
  if s.avail < size then some (false, s)
  else (listAdd fuel s.list () m).map fun list => (true,
    { s with
      list := list
      ptr := update s.ptr m (s.memory.size - s.avail)
      size := update s.size m size
      avail := s.avail - size })

/-- `for(n = ...; n != NULL; n = n->next) n->ptr -= size`. -/
def lower (next : H → Option H) (size : Nat) : Nat → (H → Nat) → Option H → Option (H → Nat)
  | 0, _, _ => none
  | _ + 1, ptr, none => some ptr
  | fuel + 1, ptr, some n => lower next size fuel (update ptr n (ptr n - size)) (next n)

/-- The memory behind the block of `m` is moved down to it; `n` is the handle behind `m`. -/
def compact (s : Pool H) (m n : H) : Region :=
  s.memory.copy (s.ptr m) (s.memory.size - s.avail - s.ptr n : Nat) fun k => s.memory.bytes (s.ptr n + k)

/-- The part of `mmem_free` that closes the gap. -/
def closeGap (fuel : Nat) (s : Pool H) (m : H) : Option (Pool H) :=
  match s.list.next m with
  | none => some s
  | some n => (lower s.list.next (s.size m) fuel s.ptr (some n)).map fun ptr =>
      { s with memory := compact s m n, ptr := ptr }

def mmemFree (fuel : Nat) (s : Pool H) (m : H) : Option (Pool H) := do
  let s ← closeGap fuel s m
  let list ← listRemove fuel s.list () m
  some { s with list := list, avail := s.avail + s.size m }

def mmemInit (s : Pool H) : Pool H := { s with list := { s.list with head := fun _ => none }, avail := s.memory.size }

/-- The handles that have been allocated and not freed since, oldest first, beside the pool. -/
structure Owned (H : Type) where
  pool : Pool H
  live : List H

/-- What the owners of blocks do. -/
inductive Event (H : Type) where
  | alloc (m : H) (size : Nat)
  | free (m : H)
  | store (m : H) (offset : Nat) (byte : UInt8)

/-- A handle is allocated when it is not, freed when it is, and only its block is written. -/
def Event.allowed (s : Owned H) : Event H → Bool
  | .alloc m _ => decide (m ∉ s.live)
  | .free m => decide (m ∈ s.live)
  | .store m offset _ => decide (m ∈ s.live) && decide (offset < s.pool.size m)

/-- What an event does; the loops run along the live handles. -/
def handle (s : Owned H) : Event H → Option (Owned H)
  | .alloc m size => (mmemAlloc (s.live.length + 1) s.pool m size).map fun r =>
      ⟨r.2, if r.1 then s.live ++ [m] else s.live⟩
  | .free m => (mmemFree (s.live.length + 1) s.pool m).map fun p => ⟨p, s.live.erase m⟩
  | .store m offset byte =>
      some { s with pool := { s.pool with memory := s.pool.memory.put (s.pool.ptr m + offset) byte } }

def step (s : Owned H) (e : Event H) : Option (Owned H) := if e.allowed s then handle s e else none

/-- The module after `mmem_init`; the memory and the handles are what they happen to be. -/
def start (size : Nat) (bytes : Nat → UInt8) (next : H → Option H) (ptr sizes : H → Nat) : Owned H :=
  ⟨mmemInit ⟨⟨next, fun _ => none⟩, ptr, sizes, 0, ⟨size, bytes, true⟩⟩, []⟩

/-! ### The invariant -/

/-- The list links the live handles, their blocks are stacked from the first byte on, and what is left is available. -/
structure Stocked (s : Owned H) : Prop where
  linked : Linked s.pool.list.next (s.pool.list.head ()) s.live
  stacked : Stacked s.pool.ptr s.pool.size 0 s.live
  avail : s.pool.avail + totalSize s.pool.size s.live = s.pool.memory.size
  clean : s.pool.memory.clean = true

variable {s : Owned H}

theorem lower_spec {next : H → Option H} {d : Nat} : ∀ {l : List H} {f : H → Nat} {h : Option H} {fuel : Nat},
    Linked next h l → l.length < fuel → ∃ ptr', lower next d fuel f h = some ptr' ∧
      (∀ a ∈ l, ptr' a = f a - d) ∧ ∀ a, a ∉ l → ptr' a = f a
  | _, _, _, 0, _, hf => absurd hf (Nat.not_lt_zero _)
  | [], f, h, fuel + 1, hl, _ => by
    rw [show h = none from hl, lower]
    exact ⟨f, rfl, nofun, fun _ _ => rfl⟩
  | b :: l, f, h, fuel + 1, hl, hf => by
    obtain ⟨hb, -⟩ := nodup_cons.mp hl.nodup
    obtain ⟨ptr', hptr', hin, hout⟩ := lower_spec (f := update f b (f b - d)) hl.2 (Nat.lt_of_succ_lt_succ hf)
    rw [hl.1, lower]
    refine ⟨ptr', hptr', fun a ha => ?_, fun a ha => ?_⟩
    · rcases mem_cons.mp ha with rfl | ha
      · rw [hout a hb, update_self]
      · have hne : a ≠ b := fun heq => hb (heq ▸ ha)
        rw [hin a ha, update_of_ne hne]
    · rw [hout a (not_mem_of_not_mem_cons ha), update_of_ne (ne_of_not_mem_cons ha)]

theorem Stocked.alloc (h : Stocked s) {m : H} (hm : m ∉ s.live) (size : Nat) :
    ∃ ok p, mmemAlloc (s.live.length + 1) s.pool m size = some (ok, p) ∧ (ok = true ↔ size ≤ s.pool.avail) ∧
      Stocked ⟨p, if ok then s.live ++ [m] else s.live⟩ ∧ p.memory = s.pool.memory := by
  rw [mmemAlloc]
  split
  next hless => exact ⟨false, s.pool, rfl, ⟨nofun, fun hle => absurd hless (by omega)⟩, h, rfl⟩
  next hless =>
    obtain ⟨list, hlist, hrel⟩ := listAdd_spec h.linked (Nat.lt_succ_self _) m
    rw [erase_of_not_mem hm] at hrel
    have hptr : ∀ a ∈ s.live, update s.pool.ptr m (s.pool.memory.size - s.pool.avail) a = s.pool.ptr a ∧
        update s.pool.size m size a = s.pool.size a := fun a ha => by
      have hne : a ≠ m := fun heq => hm (heq ▸ ha)
      exact ⟨update_of_ne hne .., update_of_ne hne ..⟩
    have htotal : totalSize (update s.pool.size m size) s.live = totalSize s.pool.size s.live :=
      totalSize_congr fun a ha => (hptr a ha).2
    have havail := h.avail
    rw [hlist]
    refine ⟨true, _, rfl, ⟨fun _ => Nat.le_of_not_lt hless, fun _ => rfl⟩, ?_, rfl⟩
    refine ⟨hrel.linked, ?_, ?_, h.clean⟩
    · refine stacked_append.mpr ⟨h.stacked.congr hptr, ?_, trivial⟩
      dsimp only
      rw [htotal, update_self]
      omega
    · have hall : totalSize (update s.pool.size m size) (s.live ++ [m]) = totalSize s.pool.size s.live + size := by
        rw [totalSize_append, htotal, totalSize_cons, totalSize_nil, update_self, add_zero]
      dsimp only
      rw [if_pos rfl, hall]
      omega

/-- The gap of a live handle is closed: the pool has new pointers and a new memory, in which every other block has the
    bytes it had. -/
theorem Stocked.closeGap (h : Stocked s) {m : H} {l r : List H} (hlive : s.live = l ++ m :: r) :
    ∃ ptr memory, closeGap (s.live.length + 1) s.pool m = some { s.pool with ptr := ptr, memory := memory } ∧
      (∀ b ∈ l, ptr b = s.pool.ptr b) ∧ (∀ b ∈ r, ptr b = s.pool.ptr b - s.pool.size m) ∧
      memory.size = s.pool.memory.size ∧ memory.clean = true ∧
      ∀ b ∈ l ++ r, ∀ k < s.pool.size b, memory.bytes (ptr b + k) = s.pool.memory.bytes (s.pool.ptr b + k) := by
  have hlinked := h.linked
  have hstacked := h.stacked
  have havail := h.avail
  rw [hlive] at hlinked hstacked havail
  have hbehind : Linked s.pool.list.next (s.pool.list.next m) r := hlinked.tail
  rw [Mmem.closeGap]
  rcases r with _ | ⟨n, r⟩
  · rw [show s.pool.list.next m = none from hbehind]
    exact ⟨s.pool.ptr, s.pool.memory, rfl, fun _ _ => rfl, nofun, rfl, h.clean, fun _ _ _ _ => rfl⟩
  · have hlen : (n :: r).length < s.live.length + 1 := by
      simp only [hlive, length_append, length_cons]
      omega
    obtain ⟨ptr, hptr, hin, hout⟩ := lower_spec (f := s.pool.ptr) (d := s.pool.size m) hbehind hlen
    have hnext : s.pool.list.next m = some n := hbehind.1
    rw [hnext] at hptr ⊢
    dsimp only
    rw [hptr]
    obtain ⟨hm, hl, hr, -⟩ := hstacked.around (b := m)
    have hn : s.pool.ptr n = s.pool.ptr m + s.pool.size m := hr.1
    have htotal : s.pool.avail + (s.pool.ptr n + totalSize s.pool.size (n :: r)) = s.pool.memory.size := by
      rw [totalSize_append, totalSize_cons] at havail
      omega
    have hsame : ∀ b ∈ l, ptr b = s.pool.ptr b := fun b hb =>
      hout b fun hbr => (nodup_append.mp hlinked.nodup).2.2 b hb b (mem_cons_of_mem _ hbr) rfl
    refine ⟨ptr, compact s.pool m n, rfl, hsame, hin, rfl, ?_, fun b hb k hk => ?_⟩
    · -- the move stays inside the memory
      have hinside : (0 : Int) ≤ ((s.pool.memory.size - s.pool.avail - s.pool.ptr n : Nat) : Int) ∧
          ((s.pool.ptr m : Nat) : Int) + ((s.pool.memory.size - s.pool.avail - s.pool.ptr n : Nat) : Int) ≤
            (s.pool.memory.size : Nat) := by omega
      rw [compact, Region.copy]
      rw [h.clean, decide_eq_true hinside]
      rfl
    · rcases mem_append.mp hb with hb | hb
      · -- a block in front
        have hend := (hstacked.around (b := b)).2.2.2.1 hb
        rw [hsame b hb]
        exact Region.copy_outside _ _ (.inl (by omega))
      · -- a block behind
        have hbounds := hr.bounds hb
        have hoffset : ptr b + k = s.pool.ptr m + (s.pool.ptr b + k - s.pool.ptr n) := by
          rw [hin b hb]
          omega
        rw [hoffset, compact, Region.copy_inside _ _ (by omega)]
        congr 1
        omega

theorem Stocked.free (h : Stocked s) {m : H} (hm : m ∈ s.live) :
    ∃ p,
      mmemFree (s.live.length + 1) s.pool m = some p ∧
      Stocked ⟨p, s.live.erase m⟩ ∧
      ∀ b ∈ s.live, b ≠ m →
        p.size b = s.pool.size b ∧
        ∀ k < s.pool.size b, p.memory.bytes (p.ptr b + k) = s.pool.memory.bytes (s.pool.ptr b + k) := by
  obtain ⟨l, r, hlive⟩ := append_of_mem hm
  obtain ⟨ptr, memory, hgap, hl, hr, hsize, hclean, hbytes⟩ := h.closeGap hlive
  obtain ⟨list, hlist, hrel⟩ := listRemove_spec h.linked (Nat.lt_succ_self _) m
  have hml : m ∉ l := fun hin => by
    have hnodup := h.linked.nodup
    rw [hlive] at hnodup
    exact (nodup_append.mp hnodup).2.2 m hin m mem_cons_self rfl
  have herase : s.live.erase m = l ++ r := by
    rw [hlive, erase_append_right _ hml, erase_cons_head]
  refine ⟨{ s.pool with ptr := ptr, memory := memory, list := list, avail := s.pool.avail + s.pool.size m },
    ?_, ⟨hrel.linked, ?_, ?_, hclean⟩, fun b hb hne => ⟨rfl, hbytes b ?_⟩⟩
  · rw [mmemFree, hgap]
    exact congrArg (Option.bind · _) hlist
  · have hstacked := h.stacked
    rw [hlive] at hstacked
    rw [herase]
    exact hstacked.take_out hl hr
  · have havail := h.avail
    rw [hlive, totalSize_append, totalSize_cons] at havail
    rw [herase, totalSize_append]
    dsimp only
    omega
  · rw [hlive] at hb
    simp only [mem_append, mem_cons] at hb ⊢
    tauto

/-- STEP: an allowed event is handled, and the invariant is kept. -/
theorem Stocked.step (h : Stocked s) {e : Event H} (hok : e.allowed s = true) :
    ∃ t, handle s e = some t ∧ Stocked t := by
  cases e with
  | alloc m size =>
    obtain ⟨ok, p, hp, -, hstocked, -⟩ := h.alloc (of_decide_eq_true hok) size
    exact ⟨_, by rw [handle, hp]; rfl, hstocked⟩
  | free m =>
    obtain ⟨p, hp, hstocked, -⟩ := h.free (of_decide_eq_true hok)
    exact ⟨_, by rw [handle, hp]; rfl, hstocked⟩
  | store m offset byte =>
    obtain ⟨hm, hoffset⟩ := Bool.and_eq_true_iff.mp hok
    have hbounds := h.stacked.bounds (of_decide_eq_true hm)
    have hless := of_decide_eq_true hoffset
    have havail := h.avail
    refine ⟨_, rfl, h.linked, h.stacked, h.avail, ?_⟩
    have hinside : (0 : Int) ≤ 1 ∧ ((s.pool.ptr m + offset : Nat) : Int) + 1 ≤ (s.pool.memory.size : Nat) := by omega
    have hput : (s.pool.memory.put (s.pool.ptr m + offset) byte).clean =
        (s.pool.memory.clean && decide ((0 : Int) ≤ 1 ∧
          ((s.pool.ptr m + offset : Nat) : Int) + 1 ≤ (s.pool.memory.size : Nat))) := rfl
    exact hput.trans (by rw [h.clean, decide_eq_true hinside]; rfl)

omit [DecidableEq H] in
theorem stocked_start (size : Nat) (bytes : Nat → UInt8) (next : H → Option H) (ptr sizes : H → Nat) :
    Stocked (start size bytes next ptr sizes) := ⟨rfl, trivial, add_zero _, rfl⟩

/-- MANAGED MEMORY: whatever the owners of blocks have done since `mmem_init`, the list links the live handles, their
    blocks lie one behind the other from the first byte on, and the rest of the memory, whose size no call changes, is
    available. A handle that is not live is
    allocated just if that rest is large enough, and freeing a live one leaves every other block its bytes. -/
theorem mmem_compact (size : Nat) (bytes : Nat → UInt8) (next : H → Option H) (ptr sizes : H → Nat)
    (es : List (Event H)) (s : Owned H) (hrun : Run step (fun _ _ => True) (start size bytes next ptr sizes) es s) :
    Linked s.pool.list.next (s.pool.list.head ()) s.live ∧
    Stacked s.pool.ptr s.pool.size 0 s.live ∧
    s.pool.avail + (s.live.map s.pool.size).sum = s.pool.memory.size ∧
    (∀ m, m ∉ s.live → ∀ n, ∃ q, mmemAlloc (s.live.length + 1) s.pool m n = some (decide (n ≤ s.pool.avail), q)) ∧
    (∀ m ∈ s.live, ∃ q,
       mmemFree (s.live.length + 1) s.pool m = some q ∧
       ∀ b ∈ s.live, b ≠ m →
         q.size b = s.pool.size b ∧
         ∀ k < s.pool.size b, q.memory.bytes (q.ptr b + k) = s.pool.memory.bytes (s.pool.ptr b + k)) ∧
    s.pool.memory.clean = true := by
  have h : Stocked s := hrun.invariant (fun s e t hs _ hstep => by
    rw [step] at hstep
    split at hstep
    next hok =>
      obtain ⟨u, hu, hstocked⟩ := hs.step hok
      rw [hstep] at hu
      cases hu
      exact hstocked
    · cases hstep) (stocked_start size bytes next ptr sizes)
  refine ⟨h.linked, h.stacked, h.avail, fun m hm n => ?_, fun m hm => ?_, h.clean⟩
  · obtain ⟨ok, q, hq, hiff, -, -⟩ := h.alloc hm n
    have hok : ok = decide (n ≤ s.pool.avail) := Bool.eq_iff_iff.mpr (by rw [hiff, decide_eq_true_eq])
    exact ⟨q, hok ▸ hq⟩
  · obtain ⟨q, hq, -, hbytes⟩ := h.free hm
    exact ⟨q, hq, hbytes⟩

/-- Three blocks in 16 bytes; the first is freed, and a fourth fits. -/
theorem mmem_compact_three :
    ∃ s : Owned Nat,
      Run step (fun _ _ => True) (start 16 (fun _ => 0) (fun _ => none) (fun _ => 0) (fun _ => 0))
        [.alloc 1 4, .alloc 2 6, .store 2 1 7, .alloc 3 5, .free 1, .alloc 4 5] s ∧
      s.live = [2, 3, 4] ∧
      Stacked s.pool.ptr s.pool.size 0 s.live ∧
      s.pool.memory.bytes 1 = 7 := by
  obtain ⟨s, hrun, hs⟩ : ∃ s, Run step (fun _ _ => True)
      (start 16 (fun _ => 0) (fun _ => none) (fun _ => 0) (fun _ => 0))
      [.alloc 1 4, .alloc 2 6, .store 2 1 7, .alloc 3 5, .free 1, .alloc 4 5] s ∧ _ :=
    exists_run (fun _ _ => true) (fun s => s.live == [2, 3, 4] && s.pool.memory.bytes 1 == 7)
      (fun _ _ _ => trivial) (by decide)
  rw [Bool.and_eq_true, beq_iff_eq, beq_iff_eq] at hs
  exact ⟨s, hrun, hs.1, (mmem_compact _ _ _ _ _ _ s hrun).2.1, hs.2⟩

end CSync.Mmem
