import CSync.Core.Chain

/-! Lists as sequences over whole runs (`core/lib/list.c`).

    The calls have their counterparts on sequences without repetition. A call makes the sequence of its own list, and
    the lists that share items with it stay what they are just if none of their items gets another successor.
    `list_insert` is the one call that does not take its item off the list first, so it must not be on it. -/

namespace CSync.Chain

open Lib List Function Option

variable {ι α : Type} [DecidableEq ι] [DecidableEq α]

/-! ### Sequences -/

/-- `x` right after `p`. -/
def insertAfter (p x : α) : List α → List α
  | [] => []
  | a :: l => if a = p then a :: x :: l else a :: insertAfter p x l

/-- The calls on sequences, with the item returned; an item goes right after another one of the sequence. -/
def seqCall (L : ι → List α) : Call ι α → Option ((ι → List α) × Option α)
  | .add i x => some (update L i ((L i).erase x ++ [x]), none)
  | .push i x => some (update L i (x :: (L i).erase x), none)
  | .insert i none x => some (update L i (x :: (L i).erase x), none)
  | .insert i (some p) x =>
    if p ∈ (L i).erase x then some (update L i (insertAfter p x ((L i).erase x)), none) else none
  | .remove i x => some (update L i ((L i).erase x), none)
  | .chop i => some (update L i (L i).dropLast, (L i).getLast?)
  | .pop i => some (update L i (L i).tail, (L i).head?)
  | .copy i j => some (update L i (L j), none)

/-- A sequence of calls on sequences. -/
def seqCalls : (ι → List α) → List (Call ι α) → Option ((ι → List α) × List (Option α))
  | L, [] => some (L, [])
  | L, c :: cs => do
    let (L, item) ← seqCall L c
    let (L, items) ← seqCalls L cs
    some (L, item :: items)

/-- No other list has an item to which the change from `l` to `l'` gives another successor. -/
def Apart (L : ι → List α) (i : ι) (l' : List α) : Prop :=
  ∀ j, j ≠ i → ∀ a ∈ L j, (a ∈ l' → succOf (L j) a = succOf l' a) ∧ (a ∈ L i → a ∉ l' → succOf (L j) a = none)

/-- The condition of a call: an item is inserted after one of the list and is not on it, and no other list has an item
    that gets another successor. -/
def Clear (L : ι → List α) : Call ι α → Prop
  | .add i x => Apart L i ((L i).erase x ++ [x])
  | .push i x => Apart L i (x :: (L i).erase x)
  | .insert i none x => Apart L i (x :: (L i).erase x)
  | .insert i (some p) x => p ∈ L i ∧ x ∉ L i ∧ Apart L i (insertAfter p x (L i))
  | .remove i x => Apart L i ((L i).erase x)
  | .chop i => Apart L i (L i).dropLast
  | .pop _ => True
  | .copy _ _ => True

/-- The condition of a sequence of calls, one after the other. -/
def AllClear : (ι → List α) → List (Call ι α) → Prop
  | _, [] => True
  | L, c :: cs => Clear L c ∧ ∀ L' item, seqCall L c = some (L', item) → AllClear L' cs

variable {p x : α} {c : Call ι α} {item : Option α}

omit [DecidableEq ι] in
theorem insertAfter_append {r : List α} : ∀ {l : List α}, p ∉ l → insertAfter p x (l ++ p :: r) = l ++ p :: x :: r
  | [], _ => if_pos rfl
  | a :: l, hp => by
    rw [cons_append, insertAfter, if_neg (Ne.symm (ne_of_not_mem_cons hp)),
      insertAfter_append (not_mem_of_not_mem_cons hp), cons_append]

/-! ### One call -/

/-- The pointers hold the sequences. -/
def Holds (s : Heap ι α) (L : ι → List α) : Prop := ∀ i, Linked s.next (s.head i) (L i)

variable {s s' : Heap ι α} {L : ι → List α} {i : ι} {l' : List α} {fuel : Nat}

/-- The other lists stay what they are just if they are apart from the change. -/
theorem Relinked.holds_iff (h : Relinked s s' i (L i) l') (hs : Holds s L) :
    Holds s' (update L i l') ↔ Apart L i l' := by
  constructor
  · intro hs' j hj a ha
    have hlinked := hs' j
    rw [update_of_ne hj] at hlinked
    rw [← hlinked.next_eq ha]
    refine ⟨fun hin => h.linked.next_eq hin, fun hin hout => h.gone a hin hout⟩
  · intro hapart j
    by_cases hj : j = i
    · subst hj
      rw [update_self]
      exact h.linked
    · rw [update_of_ne hj, h.heads j hj]
      refine (hs j).congr fun a ha => ?_
      have hold := (hs j).next_eq ha
      obtain ⟨hnext, hgone⟩ := hapart j hj a ha
      by_cases hin : a ∈ l'
      · rw [h.linked.next_eq hin, hold, hnext hin]
      · by_cases hwas : a ∈ L i
        · rw [h.gone a hwas hin, hold, hgone hwas hin]
        · exact h.frame a hwas hin

/-- What a call has to do with its sequences: they are held just if the call is clear. -/
def Tells (s : Heap ι α) (L : ι → List α) (fuel : Nat) (c : Call ι α) : Prop :=
  (∃ s' L' item, call fuel s c = some (s', item) ∧ seqCall L c = some (L', item) ∧ Holds s' L') ↔ Clear L c

theorem Relinked.tells (h : Relinked s s' i (L i) l') (hs : Holds s L) (hcall : call fuel s c = some (s', item)) (hseq
    : seqCall L c = some (update L i l', item)) (hclear : Clear L c ↔ Apart L i l') : Tells s L fuel c := by
  rw [Tells, hclear, ← h.holds_iff hs, hcall, hseq]
  constructor
  · rintro ⟨_, _, _, hs', hL', hholds⟩
    cases hs'
    cases hL'
    exact hholds
  · intro hholds
    exact ⟨_, _, _, rfl, rfl, hholds⟩

omit [DecidableEq ι] in
theorem listInsert_spec (hl : Linked s.next (s.head i) (L i)) (hp : p ∈ L i) (hx : x ∉ L i) :
    Relinked s ((s.setNext x (s.next p)).setNext p (some x)) i (L i) (insertAfter p x (L i)) := by
  obtain ⟨l, r, hsplit⟩ := append_of_mem hp
  rw [hsplit] at hl hx ⊢
  have hpl : p ∉ l := fun hin => (nodup_append.mp hl.nodup).2.2 p hin p mem_cons_self rfl
  rw [insertAfter_append hpl]
  refine ⟨hl.behind hx, fun _ _ => rfl, fun a ha hout => ?_, fun a ha hout => ?_⟩
  · have hax : a ≠ x := by
      rintro rfl
      exact hout (by simp)
    have hap : a ≠ p := by
      rintro rfl
      exact hout (by simp)
    exact (update_of_ne hap ..).trans (update_of_ne hax ..)
  · refine absurd ?_ hout
    simp only [mem_append, mem_cons] at ha ⊢
    tauto

omit [DecidableEq ι] in
/-- FAILS on the list: an item that is inserted again becomes its own successor, or gets two predecessors. -/
theorem listInsert_again (hl : Linked s.next (s.head i) (L i)) (hx : x ∈ L i) (hp : p ∈ (L i).erase x) :
    ¬ Linked (update (update s.next x (s.next p)) p (some x)) (s.head i) (insertAfter p x ((L i).erase x)) := by
  intro hlinked
  have hpx : p ≠ x := fun heq => hl.nodup.not_mem_erase (heq ▸ hp)
  obtain ⟨k, r, hsplit⟩ := append_of_mem hp
  have hpk : p ∉ k := by
    have hnodup := hl.nodup.erase x
    rw [hsplit] at hnodup
    exact fun hin => (nodup_append.mp hnodup).2.2 p hin p mem_cons_self rfl
  have hmem : ∀ a, a = x ∨ a ∈ (L i).erase x → a ∈ insertAfter p x ((L i).erase x) := fun a ha => by
    rw [hsplit, insertAfter_append hpk]
    rw [hsplit] at ha
    simp only [mem_append, mem_cons] at ha ⊢
    tauto
  have hnext : update (update s.next x (s.next p)) p (some x) p = some x := update_self ..
  obtain ⟨l₁, l₂, hL⟩ := append_of_mem hx
  rw [hL] at hl
  rcases eq_nil_or_concat l₁ with rfl | ⟨l₀, u, rfl⟩
  · -- the head would have a predecessor
    refine hlinked.next_ne_head (hmem p (.inr hp)) ?_
    rw [hnext]
    exact hl.1.symm
  · rw [concat_eq_append, append_assoc] at hl hL
    have hux : s.next u = some x := hl.tail.1
    by_cases hup : u = p
    · -- the item would follow itself
      refine hlinked.next_ne_self (hmem x (.inl rfl)) ?_
      rw [update_of_ne hpx.symm, update_self, ← hup]
      exact hux
    · -- the item would follow both
      have hne : u ≠ x := by
        rintro rfl
        exact hl.next_ne_self (by simp) hux
      have hu : u ∈ (L i).erase x := by
        rw [hL]
        exact (mem_erase_of_ne hne).mpr (by simp)
      refine hup (hlinked.next_inj (hmem u (.inr hu)) (hmem p (.inr hp)) ?_)
      rw [hnext, update_of_ne hup, update_of_ne hne]
      exact hux

/-- STEP: with enough fuel for the items of the lists a call does what its counterpart does just if it is clear. -/
theorem call_tells (hs : Holds s L) (hf : ∀ i, (L i).length < fuel) (c : Call ι α) : Tells s L fuel c := by
  cases c with
  | add i x =>
    obtain ⟨s', hs', h⟩ := listAdd_spec (hs i) (hf i) x
    exact h.tells hs (by rw [call, hs']; rfl) rfl Iff.rfl
  | push i x =>
    obtain ⟨s', hs', h⟩ := listPush_spec (hs i) (hf i) x
    exact h.tells hs (by rw [call, hs']; rfl) rfl Iff.rfl
  | remove i x =>
    obtain ⟨s', hs', h⟩ := listRemove_spec (hs i) (hf i) x
    exact h.tells hs (by rw [call, hs']; rfl) rfl Iff.rfl
  | chop i =>
    obtain ⟨s', hs', h⟩ := listChop_spec (hs i) (hf i)
    exact h.tells hs hs' rfl Iff.rfl
  | pop i =>
    -- no item gets a new pointer
    refine ⟨fun _ => trivial, fun _ => ?_⟩
    have hpop : (listPop s i).2 = (L i).head? ∧ Holds (listPop s i).1 (update L i (L i).tail) := by
      have hi := hs i
      rw [listPop]
      rcases hL : L i with _ | ⟨a, l⟩
      · rw [hL] at hi
        rw [show s.head i = none from hi]
        refine ⟨rfl, ?_⟩
        have hkeep : update L i [] = L := by rw [← hL, update_eq_self]
        rw [tail_nil, hkeep]
        exact hs
      · rw [hL] at hi
        rw [hi.1]
        refine ⟨rfl, fun j => ?_⟩
        by_cases hj : j = i
        · subst hj
          have hhead : (s.setHead j (s.next a)).head j = s.next a := update_self ..
          rw [update_self, hhead]
          exact hi.2
        · have hhead : (s.setHead i (s.next a)).head j = s.head j := update_of_ne hj ..
          rw [update_of_ne hj, hhead]
          exact hs j
    exact ⟨(listPop s i).1, _, (L i).head?, by rw [call, ← hpop.1], rfl, hpop.2⟩
  | copy i j =>
    refine ⟨fun _ => trivial, fun _ => ⟨_, _, _, rfl, rfl, fun k => ?_⟩⟩
    by_cases hk : k = i
    · subst hk
      have hhead : (listCopy s k j).head k = s.head j := update_self ..
      rw [update_self, hhead]
      exact hs j
    · have hhead : (listCopy s i j).head k = s.head k := update_of_ne hk ..
      rw [update_of_ne hk, hhead]
      exact hs k
  | insert i previtem x =>
    cases previtem with
    | none =>
      obtain ⟨s', hs', h⟩ := listPush_spec (hs i) (hf i) x
      exact h.tells hs (by rw [call, listInsert, hs']; rfl) rfl Iff.rfl
    | some p =>
      by_cases hin : p ∈ L i ∧ x ∉ L i
      · obtain ⟨hp, hx⟩ := hin
        have herase : (L i).erase x = L i := erase_of_not_mem hx
        refine (listInsert_spec (hs i) hp hx).tells hs rfl ?_ ⟨fun h => h.2.2, fun h => ⟨hp, hx, h⟩⟩
        rw [seqCall, herase, if_pos hp]
      · constructor
        · rintro ⟨s', L', item, hcall, hseq, hholds⟩
          cases hcall
          rw [seqCall] at hseq
          split at hseq
          next hp =>
            cases hseq
            have hx : x ∈ L i := by
              by_contra hx
              exact hin ⟨mem_of_mem_erase hp, hx⟩
            have hlinked := hholds i
            rw [update_self] at hlinked
            exact absurd hlinked (listInsert_again (hs i) hx hp)
          · cases hseq
        · rintro ⟨hp, hx, -⟩
          exact absurd ⟨hp, hx⟩ hin

/-! ### Runs -/

/-- The calls come back, with the items that their counterparts return, and the pointers hold the sequences. -/
def Refines (fuel : Nat) (s : Heap ι α) (L : ι → List α) (cs : List (Call ι α)) : Prop :=
  ∃ s' L' items, calls fuel s cs = some (s', items) ∧ seqCalls L cs = some (L', items) ∧ Holds s' L'

omit [DecidableEq ι] in
theorem insertAfter_length (p x : α) : ∀ l : List α, (insertAfter p x l).length ≤ l.length + 1
  | [] => Nat.zero_le _
  | a :: l => by
    rw [insertAfter]
    split
    · exact Nat.le_refl _
    · exact Nat.succ_le_succ (insertAfter_length p x l)

theorem seqCall_length {n : Nat} (hn : ∀ i, (L i).length ≤ n) {L' : ι → List α}
    (h : seqCall L c = some (L', item)) : ∀ i, (L' i).length ≤ n + 1 := by
  have hupdate : ∀ (i : ι) (l : List α), l.length ≤ n + 1 → ∀ j, (update L i l j).length ≤ n + 1 := fun i l hl j => by
      by_cases hj : j = i
      · subst hj
        rw [update_self]
        exact hl
      · rw [update_of_ne hj]
        exact Nat.le_succ_of_le (hn j)
  have herase : ∀ (i : ι) (x : α), ((L i).erase x).length ≤ n := fun i x =>
    Nat.le_trans length_erase_le (hn i)
  cases c with
  | add i x =>
    cases h
    refine hupdate i _ ?_
    rw [length_append]
    exact Nat.succ_le_succ (herase i x)
  | push i x =>
    cases h
    exact hupdate i _ (Nat.succ_le_succ (herase i x))
  | remove i x =>
    cases h
    exact hupdate i _ (Nat.le_succ_of_le (herase i x))
  | chop i =>
    cases h
    refine hupdate i _ (Nat.le_succ_of_le ?_)
    rw [length_dropLast]
    exact Nat.le_trans (Nat.sub_le _ _) (hn i)
  | pop i =>
    cases h
    refine hupdate i _ (Nat.le_succ_of_le ?_)
    rw [length_tail]
    exact Nat.le_trans (Nat.sub_le _ _) (hn i)
  | copy i j =>
    cases h
    exact hupdate i _ (Nat.le_succ_of_le (hn j))
  | insert i previtem x =>
    cases previtem with
    | none =>
      cases h
      exact hupdate i _ (Nat.succ_le_succ (herase i x))
    | some p =>
      rw [seqCall] at h
      split at h
      · cases h
        exact hupdate i _ (Nat.le_trans (insertAfter_length p x _) (Nat.succ_le_succ (herase i x)))
      · cases h

theorem refines_cons {L' : ι → List α} {cs : List (Call ι α)} (hcall : call fuel s c = some (s', item)) (hseq :
    seqCall L c = some (L', item)) : Refines fuel s L (c :: cs) ↔ Refines fuel s' L' cs := by
  rw [Refines, Refines, calls, seqCalls, hcall, hseq]
  simp only [bind_eq_bind, bind_some]
  constructor
  · rintro ⟨t, M, items, hcalls, hseqs, hholds⟩
    obtain ⟨⟨u, rest⟩, hu, ht⟩ := bind_eq_some_iff.mp hcalls
    obtain ⟨⟨K, rest'⟩, hK, hM⟩ := bind_eq_some_iff.mp hseqs
    cases ht
    cases hM
    exact ⟨_, _, _, hu, hK, hholds⟩
  · rintro ⟨t, M, items, hcalls, hseqs, hholds⟩
    exact ⟨t, M, item :: items, by rw [hcalls]; rfl, by rw [hseqs]; rfl, hholds⟩

/-- RUN: all along, if and only if every call is clear. -/
theorem refines_iff : ∀ {cs : List (Call ι α)} {s : Heap ι α} {L : ι → List α} {n : Nat}, Holds s L →
    (∀ i, (L i).length ≤ n) → n + cs.length < fuel → ((∀ ds, ds <+: cs → Refines fuel s L ds) ↔ AllClear L cs)
  | [], s, L, _, hs, _, _ => by
    refine ⟨fun _ => trivial, fun _ ds hds => ?_⟩
    rw [prefix_nil.mp hds]
    exact ⟨s, L, [], rfl, rfl, hs⟩
  | c :: cs, s, L, n, hs, hn, hf => by
    rw [length_cons] at hf
    have htells : Tells s L fuel c := call_tells hs (fun i => Nat.lt_of_le_of_lt (hn i) (by omega)) c
    have hrest : ∀ s' L' item, call fuel s c = some (s', item) → seqCall L c = some (L', item) → Holds s' L' →
        ((∀ ds, ds <+: cs → Refines fuel s' L' ds) ↔ AllClear L' cs) := fun s' L' item _ hseq hs' =>
      refines_iff (n := n + 1) hs' (seqCall_length hn hseq) (by omega)
    constructor
    · intro hall
      obtain ⟨s', L', items, hcalls, hseqs, hholds⟩ := hall [c] ⟨cs, rfl⟩
      obtain ⟨⟨t, item⟩, hcall, ht⟩ := bind_eq_some_iff.mp hcalls
      obtain ⟨⟨M, item'⟩, hseq, hM⟩ := bind_eq_some_iff.mp hseqs
      cases ht
      cases hM
      refine ⟨htells.mp ⟨s', L', item, hcall, hseq, hholds⟩, fun M' item' hM' => ?_⟩
      rw [hseq] at hM'
      cases hM'
      refine (hrest s' L' item hcall hseq hholds).mp fun ds hds => ?_
      exact (refines_cons hcall hseq).mp (hall (c :: ds) (cons_prefix_cons.mpr ⟨rfl, hds⟩))
    · rintro ⟨hclear, hclears⟩ ds hds
      obtain ⟨s', L', item, hcall, hseq, hholds⟩ := htells.mpr hclear
      rcases ds with _ | ⟨d, ds⟩
      · exact ⟨s, L, [], rfl, rfl, hs⟩
      · obtain ⟨rfl, hprefix⟩ := cons_prefix_cons.mp hds
        exact (refines_cons hcall hseq).mpr
          ((hrest s' L' item hcall hseq hholds).mpr (hclears L' item hseq) ds hprefix)

/-- LISTS AS SEQUENCES: from empty lists, every call of a sequence of calls comes back, returns what its counterpart
    on sequences returns, and leaves every list as a chain of just the items of its sequence, if and only if every call
    is clear: an item is inserted after one of the list and is not on it, and no other list has an item to which the
    call gives another successor. -/
theorem lists_refine_iff (cs : List (Call ι α)) (next : α → Option α) (fuel : Nat) (h : cs.length < fuel) :
    (∀ ds, ds <+: cs →
       ∃ s L items,
         calls fuel ⟨next, fun _ => none⟩ ds = some (s, items) ∧
         seqCalls (fun _ => []) ds = some (L, items) ∧
         ∀ i, Linked s.next (s.head i) (L i) ∧ (L i).Nodup) ↔
      AllClear (fun _ => []) cs := by
  have hblank : Holds (⟨next, fun _ => none⟩ : Heap ι α) fun _ => [] := fun _ => rfl
  rw [← refines_iff hblank (fun _ => Nat.le_refl 0) (by omega : 0 + cs.length < fuel)]
  refine forall₂_congr fun ds _ => exists_congr fun s => exists_congr fun L => exists_congr fun items => ?_
  refine and_congr_right fun _ => and_congr_right fun _ => forall_congr' fun i => ?_
  exact ⟨fun hboth => hboth.1, fun hlinked => ⟨hlinked, hlinked.nodup⟩⟩

/-- Three items, one of them moved from the end to the front and one inserted behind it. -/
theorem lists_refine_example :
    ∃ (s : Heap Unit Nat) (items : List (Option Nat)),
      calls 9 ⟨fun _ => none, fun _ => none⟩ [.add () 1, .add () 2, .push () 2, .insert () (some 2) 3, .chop ()] =
        some (s, items) ∧
      Linked s.next (s.head ()) [2, 3] ∧
      items = [none, none, none, none, some 1] := by
  have hall := (lists_refine_iff [.add () 1, .add () 2, .push () 2, .insert () (some 2) 3, .chop ()]
    (fun _ => none) 9 (by decide)).mpr (by
      have hone : ∀ (L : Unit → List Nat) (l : List Nat), Apart L () l := fun _ _ j hj => absurd rfl hj
      refine ⟨hone _ _, fun L₁ _ h₁ => ?_⟩
      cases h₁
      refine ⟨hone _ _, fun L₂ _ h₂ => ?_⟩
      cases h₂
      refine ⟨hone _ _, fun L₃ _ h₃ => ?_⟩
      cases h₃
      refine ⟨⟨by decide, by decide, hone _ _⟩, fun L₄ _ h₄ => ?_⟩
      cases h₄
      exact ⟨hone _ _, fun _ _ _ => trivial⟩)
  obtain ⟨s, L, items, hcalls, hseqs, hlinked⟩ := hall _ (prefix_refl _)
  have hseqs' : L () = [2, 3] ∧ items = [none, none, none, none, some 1] := by
    cases hseqs
    exact ⟨rfl, rfl⟩
  exact ⟨s, items, hcalls, hseqs'.1 ▸ (hlinked ()).1, hseqs'.2⟩

/-- FAILS IN GENERAL: an item that is inserted behind its predecessor becomes its own successor. -/
theorem inserted_again : ¬ ∀ (cs : List (Call Unit Nat)) (fuel : Nat), cs.length < fuel → ∃ s items,
    calls fuel ⟨fun _ => none, fun _ => none⟩ cs = some (s, items) ∧ ∀ i, ∃ l, Linked s.next (s.head i) l := by
  intro hall
  obtain ⟨s, items, hcalls, hlinked⟩ := hall [.add () 1, .add () 2, .insert () (some 1) 2] 4 (by decide)
  obtain ⟨l, hl⟩ := hlinked ()
  cases hcalls
  have hone : 1 ∈ l := by
    cases l with
    | nil => cases hl
    | cons a l =>
      obtain rfl := some.inj hl.1
      exact mem_cons_self
  have htwo : 2 ∈ l := by
    obtain ⟨l₁, l₂, rfl⟩ := append_of_mem hone
    have htail := hl.tail
    cases l₂ with
    | nil => cases htail
    | cons b l₂ =>
      obtain rfl := some.inj htail.1
      simp
  exact hl.next_ne_self htwo rfl

end CSync.Chain
