import CSync.Sicslowpan.Reassembly

/-! What reassembly can do in one step.

    Contexts are only ever freed whole, and `Freed` is that: some contexts freed one after the other, never the one
    kept. A first fragment takes a context that is free then; a later one is stored in a buffer that is free then. -/

namespace CSync

open Lib

namespace Sicslowpan

variable {c : LowpanConfig} {s s' : Lowpan c} {p : Packetbuf c} {i k : Fin c.reassContexts}

@[simp] theorem onInfo_self (f : FragInfo → FragInfo) : (s.onInfo i f).fragInfo i = f (s.fragInfo i) := if_pos rfl

theorem onInfo_other (f : FragInfo → FragInfo) (h : k ≠ i) : (s.onInfo i f).fragInfo k = s.fragInfo k := if_neg h

/-! ### Freeing contexts -/

theorem clear_self : (clearFragments s i).1.fragInfo i = { s.fragInfo i with len := 0 } := if_pos rfl

theorem clear_other (h : k ≠ i) : (clearFragments s i).1.fragInfo k = s.fragInfo k := if_neg h

theorem clear_fragBuf (j : Fin c.fragmentBuffers) : (0 < (s.fragBuf j).len ∧ (s.fragBuf j).index = i ∧
        (clearFragments s i).1.fragBuf j = { s.fragBuf j with len := 0 }) ∨
      (¬(0 < (s.fragBuf j).len ∧ (s.fragBuf j).index = i) ∧ (clearFragments s i).1.fragBuf j = s.fragBuf j) := by
  by_cases h : 0 < (s.fragBuf j).len ∧ (s.fragBuf j).index = i
  · exact .inl ⟨h.1, h.2, if_pos h⟩
  · exact .inr ⟨h, if_neg h⟩

@[simp] theorem clear_uip : (clearFragments s i).1.uip = s.uip := rfl

inductive Freed (keep : Option (Fin c.reassContexts)) (s : Lowpan c) : Lowpan c → Prop
  | refl : Freed keep s s
  | clear {s' : Lowpan c} {i : Fin c.reassContexts} :
      Freed keep s s' → some i ≠ keep → Freed keep s (clearFragments s' i).1

variable {keep : Option (Fin c.reassContexts)}

theorem Freed.keeps {P : Lowpan c → Prop}
    (hclear : ∀ s i, P s → P (clearFragments s i).1) (h : Freed keep s s') (hs : P s) : P s' := by
  induction h with
  | refl => exact hs
  | clear _ _ ih => exact hclear _ _ ih

/-- The context kept, and every buffer that is in use still, are as they were. -/
theorem Freed.same (h : Freed keep s s') : (∀ k, some k = keep → s'.fragInfo k = s.fragInfo k) ∧
      ∀ j, 0 < (s'.fragBuf j).len → s'.fragBuf j = s.fragBuf j := by
  induction h with
  | refl => exact ⟨fun _ _ => rfl, fun _ _ => rfl⟩
  | @clear s' i _ hne ih =>
    refine ⟨fun k hk => ?_, fun j hj => ?_⟩
    · rw [clear_other (by rintro rfl; exact hne hk)]
      exact ih.1 k hk
    · obtain ⟨-, -, hfree⟩ | ⟨-, hsame⟩ := clear_fragBuf (s := s') (i := i) j
      · rw [hfree] at hj
        exact absurd hj (lt_irrefl 0)
      · rw [hsame] at hj ⊢
        exact ih.2 j hj

theorem timeoutFragments_freed (s : Lowpan c) (p : Packetbuf c) (i : Fin c.reassContexts) :
    Freed (some i) s (timeoutFragments s p i).1 := by
  refine List.foldlRecOn _ _ (motive := fun a : Lowpan c × Nat => Freed (some i) s a.1) .refl ?_
  intro a ha k _
  rw [timeoutTurn]
  split
  next hk => exact .clear ha fun heq => hk.2.1 (Option.some.inj heq)
  · exact ha

theorem freeContext_freed (s : Lowpan c) (p : Packetbuf c) : Freed none s (freeContext s p).1 ∧ ∀ k, (freeContext s
    p).2 = some k → ((freeContext s p).1.fragInfo k).len = 0 := by
  refine List.foldlRecOn _ _ (motive := fun a : Lowpan c × Option (Fin c.reassContexts) =>
      Freed none s a.1 ∧ ∀ k, a.2 = some k → (a.1.fragInfo k).len = 0)
    ⟨.refl, nofun⟩ ?_
  intro a ha k _
  rw [firstTurn]
  generalize hs' : (if 0 < (a.1.fragInfo k).len ∧ p.expired k then (clearFragments a.1 k).1 else a.1) = s'
  have hfreed : Freed none s s' ∧ ∀ m, (a.1.fragInfo m).len = 0 → (s'.fragInfo m).len = 0 := by
    subst hs'
    split
    · refine ⟨.clear ha.1 nofun, fun m hm => ?_⟩
      by_cases heq : m = k
      · rw [heq, clear_self]
      · rw [clear_other heq]
        exact hm
    · exact ⟨ha.1, fun _ hm => hm⟩
  refine ⟨hfreed.1, fun m hm => ?_⟩
  split at hm
  next hfree =>
    cases hm
    exact hfree.2
  · exact hfreed.2 m (ha.2 m hm)

/-! ### Adding a fragment -/

/-- The context `i`, set up for a datagram. -/
def taken (s : Lowpan c) (p : Packetbuf c) (i : Fin c.reassContexts) (tag : UInt16) (fragSize : Nat) :
    Lowpan c :=
  s.onInfo i fun f => { f with len := fragSize, tag := tag, sender := p.sender }

/-- The fragment, stored in the buffer `j`. -/
def stored (s : Lowpan c) (p : Packetbuf c) (hdrLen : Nat) (i : Fin c.reassContexts) (offset : Nat)
    (j : Fin c.fragmentBuffers) : Lowpan c :=
  { s with fragBuf := fun k => if k = j then fragmentOf p hdrLen i offset (s.fragBuf k) else s.fragBuf k }

/-- The length of a stored fragment, added to the count of its context. -/
def counted (s : Lowpan c) (i : Fin c.reassContexts) (len : Nat) : Lowpan c :=
  s.onInfo i fun f => { f with reassembledLen := (f.reassembledLen + len) % 65536 }

theorem addFragment_first (s : Lowpan c) (p : Packetbuf c) (hdrLen : Nat) (tag : UInt16) (fragSize : Nat) :
    (freeContext s p).2 = none ∧ addFragment s p hdrLen tag fragSize 0 = ((freeContext s p).1, none) ∨
    ∃ i,
      (freeContext s p).2 = some i ∧
      addFragment s p hdrLen tag fragSize 0 = (taken (freeContext s p).1 p i tag fragSize, some i) := by
  rw [addFragment, if_pos rfl]
  rcases freeContext s p with ⟨s', _ | i⟩
  · exact .inl ⟨rfl, rfl⟩
  · exact .inr ⟨i, rfl, rfl⟩

theorem freeBuffer_free {j : Fin c.fragmentBuffers} (h : freeBuffer s = some j) : (s.fragBuf j).len = 0 := by
  have hfound := List.find?_some h
  rwa [beq_iff_eq] at hfound

theorem findContext_some {tag : UInt16} {sender : LinkAddr} (h : findContext s tag sender = some i) :
    (s.fragInfo i).tag = tag ∧ 0 < (s.fragInfo i).len ∧ (s.fragInfo i).sender = sender := by
  have hfound := List.find?_some h
  rw [Bool.and_eq_true, Bool.and_eq_true, beq_iff_eq, beq_iff_eq, decide_eq_true_iff] at hfound
  exact ⟨hfound.1.1, hfound.1.2, hfound.2⟩

/-- A buffer can be had for a fragment of the context `i`, perhaps of an expired context. -/
def HasBuffer (s : Lowpan c) (p : Packetbuf c) (i : Fin c.reassContexts) : Prop :=
  freeBuffer s ≠ none ∨ 0 < (timeoutFragments s p i).2

instance (s : Lowpan c) (p : Packetbuf c) (i : Fin c.reassContexts) : Decidable (HasBuffer s p i) :=
  inferInstanceAs (Decidable (_ ∨ _))

theorem addFragment_next (s : Lowpan c) (p : Packetbuf c) (hdrLen : Nat) (tag : UInt16) (fragSize : Nat)
    {offset : Nat} (hoff : offset ≠ 0) :
    addFragment s p hdrLen tag fragSize offset = (s, none) ∨
      ∃ i s', findContext s tag p.sender = some i ∧ Freed (some i) s s' ∧
        (addFragment s p hdrLen tag fragSize offset = (s', none) ∨ ∃ j, HasBuffer s p i ∧ freeBuffer s' = some j ∧
            let len := (fragmentOf p hdrLen i offset (s'.fragBuf j)).len
            (len = 0 ∧ addFragment s p hdrLen tag fragSize offset = (stored s' p hdrLen i offset j, none)) ∨
              (0 < len ∧ addFragment s p hdrLen tag fragSize offset =
                (counted (stored s' p hdrLen i offset j) i len, some i))) := by
  rw [addFragment, if_neg hoff]
  rcases hfind : findContext s tag p.sender with _ | i
  · exact .inl rfl
  · refine .inr ⟨i, ?_⟩
    dsimp only
    rcases hbuf : freeBuffer s with _ | j
    · -- no buffer at first: the expired contexts are freed
      rw [storeFragment, hbuf]
      dsimp only
      have hfreed := timeoutFragments_freed s p i
      refine ⟨(timeoutFragments s p i).1, rfl, hfreed, ?_⟩
      by_cases hcount : 0 < (timeoutFragments s p i).2
      · rw [if_pos hcount, storeFragment]
        rcases hbuf' : freeBuffer (timeoutFragments s p i).1 with _ | j
        · exact .inl rfl
        · refine .inr ⟨j, .inr hcount, rfl, ?_⟩
          dsimp only
          rcases hlen : (fragmentOf p hdrLen i offset ((timeoutFragments s p i).1.fragBuf j)).len with _ | len
          · exact .inl ⟨rfl, rfl⟩
          · exact .inr ⟨Nat.succ_pos len, rfl⟩
      · rw [if_neg hcount]
        exact .inl rfl
    · rw [storeFragment, hbuf]
      refine ⟨s, rfl, .refl, .inr ⟨j, .inl (by rw [hbuf]; exact Option.some_ne_none j), hbuf, ?_⟩⟩
      dsimp only
      rcases hlen : (fragmentOf p hdrLen i offset (s.fragBuf j)).len with _ | len
      · exact .inl ⟨rfl, rfl⟩
      · exact .inr ⟨Nat.succ_pos len, rfl⟩

end Sicslowpan

end CSync
