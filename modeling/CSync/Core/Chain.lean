import CSync.Lib.Linked

/-! Linked lists (`core/lib/list.c`).

    A list is a pointer to its first item, and every item holds the pointer to the next one. An item has one such
    pointer however many lists it is on. The loops run along the items of a list, `fuel` times at most; `none` stands
    for a call that does not come back. -/

namespace CSync.Chain

open Lib List Function

variable {ι α : Type}

/-- The pointers of the items, and the first items of the lists. -/
structure Heap (ι α : Type) where
  next : α → Option α
  head : ι → Option α

section Calls

variable [DecidableEq ι] [DecidableEq α]

def Heap.setHead (s : Heap ι α) (list : ι) (item : Option α) : Heap ι α :=
  { s with head := update s.head list item }

def Heap.setNext (s : Heap ι α) (item : α) (n : Option α) : Heap ι α :=
  { s with next := update s.next item n }

/-- `for(l = *list; l->next != NULL; l = l->next)`. -/
def lastFrom (next : α → Option α) : Nat → α → Option α
  | 0, _ => none
  | fuel + 1, l =>
    match next l with
    | none => some l
    | some n => lastFrom next fuel n

def listTail (fuel : Nat) (s : Heap ι α) (list : ι) : Option (Option α) :=
  match s.head list with
  | none => some none
  | some l => (lastFrom s.next fuel l).map some

/-- The item `l` leaves the list; `r` is the item in front of it, if it is not the first one. -/
def Heap.unlink (s : Heap ι α) (list : ι) (r : Option α) (l : α) : Heap ι α :=
  (match r with
    | none => s.setHead list (s.next l)
    | some r => s.setNext r (s.next l)).setNext l none

def removeFrom (s : Heap ι α) (list : ι) (item : α) : Nat → Option α → Option α → Option (Heap ι α)
  | 0, _, _ => none
  | _ + 1, _, none => some s
  | fuel + 1, r, some l =>
    if l = item then some (s.unlink list r l)
    else removeFrom s list item fuel (some l) (s.next l)

def listRemove (fuel : Nat) (s : Heap ι α) (list : ι) (item : α) : Option (Heap ι α) :=
  if s.head list = none then some s else removeFrom s list item fuel none (s.head list)

def listAdd (fuel : Nat) (s : Heap ι α) (list : ι) (item : α) : Option (Heap ι α) := do
  let s ← listRemove fuel s list item
  let s := s.setNext item none
  match ← listTail fuel s list with
  | none => some (s.setHead list (some item))
  | some l => some (s.setNext l (some item))

def listPush (fuel : Nat) (s : Heap ι α) (list : ι) (item : α) : Option (Heap ι α) := do
  let s ← listRemove fuel s list item
  some ((s.setNext item (s.head list)).setHead list (some item))

/-- `for(l = *list; l->next->next != NULL; l = l->next)`, and what follows it; `n` is `l->next`. -/
def chopFrom (s : Heap ι α) : Nat → α → α → Option (Heap ι α × Option α)
  | 0, _, _ => none
  | fuel + 1, l, n =>
    match s.next n with
    | none => some (s.setNext l none, some n)
    | some m => chopFrom s fuel n m

def listChop (fuel : Nat) (s : Heap ι α) (list : ι) : Option (Heap ι α × Option α) :=
  match s.head list with
  | none => some (s, none)
  | some l =>
    match s.next l with
    | none => some (s.setHead list none, some l)
    | some n => chopFrom s fuel l n

def listPop (s : Heap ι α) (list : ι) : Heap ι α × Option α :=
  match s.head list with
  | none => (s, none)
  | some l => (s.setHead list (s.next l), some l)

def listInsert (fuel : Nat) (s : Heap ι α) (list : ι) (previtem : Option α) (newitem : α) : Option (Heap ι α) :=
  match previtem with
  | none => listPush fuel s list newitem
  | some p => some ((s.setNext newitem (s.next p)).setNext p (some newitem))

def listCopy (s : Heap ι α) (dest src : ι) : Heap ι α := s.setHead dest (s.head src)

/-- The calls of the module. -/
inductive Call (ι α : Type) where
  | add (list : ι) (item : α)
  | push (list : ι) (item : α)
  | insert (list : ι) (previtem : Option α) (newitem : α)
  | remove (list : ι) (item : α)
  | chop (list : ι)
  | pop (list : ι)
  | copy (dest src : ι)
  deriving DecidableEq

/-- A call, with the item it returns. -/
def call (fuel : Nat) (s : Heap ι α) : Call ι α → Option (Heap ι α × Option α)
  | .add list item => (listAdd fuel s list item).map (·, none)
  | .push list item => (listPush fuel s list item).map (·, none)
  | .insert list previtem newitem => (listInsert fuel s list previtem newitem).map (·, none)
  | .remove list item => (listRemove fuel s list item).map (·, none)
  | .chop list => listChop fuel s list
  | .pop list => some (listPop s list)
  | .copy dest src => some (listCopy s dest src, none)

/-- A sequence of calls, with the items they return. -/
def calls (fuel : Nat) : Heap ι α → List (Call ι α) → Option (Heap ι α × List (Option α))
  | s, [] => some (s, [])
  | s, c :: cs => do
    let (s, item) ← call fuel s c
    let (s, items) ← calls fuel s cs
    some (s, item :: items)

end Calls

/-! ### What one call does to its list -/

/-- The call has made the list `l'` out of `l`; nothing off the two has a new pointer. -/
structure Relinked (s s' : Heap ι α) (list : ι) (l l' : List α) : Prop where
  linked : Linked s'.next (s'.head list) l'
  heads : ∀ j, j ≠ list → s'.head j = s.head j
  frame : ∀ a, a ∉ l → a ∉ l' → s'.next a = s.next a
  gone : ∀ a ∈ l, a ∉ l' → s'.next a = none

section Walks

variable {s : Heap ι α} {list : ι}

theorem lastFrom_eq {next : α → Option α} : ∀ {l : List α} {a t : α} {fuel : Nat}, Linked next (some a) (l ++ [t]) →
    l.length < fuel → lastFrom next fuel a = some t
  | _, _, _, 0, _, hf => absurd hf (Nat.not_lt_zero _)
  | [], a, t, fuel + 1, hl, _ => by
    obtain ⟨hat, hend⟩ := hl
    cases hat
    have hnone : next a = none := hend
    rw [lastFrom, hnone]
  | b :: l, a, t, fuel + 1, hl, hf => by
    obtain ⟨hab, hrest⟩ := hl
    obtain rfl := Option.some.inj hab
    rcases hn : next a with _ | n
    · rw [hn] at hrest
      cases l <;> cases hrest.1
    · rw [hn] at hrest
      rw [lastFrom, hn]
      exact lastFrom_eq hrest (Nat.lt_of_succ_lt_succ hf)

theorem listTail_eq {l : List α} {fuel : Nat} (hl : Linked s.next (s.head list) l) (hf : l.length < fuel) :
    listTail fuel s list = some l.getLast? := by
  rcases eq_nil_or_concat l with rfl | ⟨l, t, rfl⟩
  · rw [listTail, show s.head list = none from hl]
    rfl
  · rw [concat_eq_append] at hl hf ⊢
    obtain ⟨a, ha⟩ : ∃ a, s.head list = some a := by
      cases l with
      | nil => exact ⟨t, hl.1⟩
      | cons a l => exact ⟨a, hl.1⟩
    rw [ha] at hl
    rw [length_append, length_singleton] at hf
    have hlast : lastFrom s.next fuel a = some t := lastFrom_eq hl (by omega)
    rw [listTail, ha]
    dsimp only
    rw [hlast, getLast?_append]
    rfl

end Walks

theorem Relinked.refl {s : Heap ι α} {list : ι} {l : List α} (hl : Linked s.next (s.head list) l) :
    Relinked s s list l l :=
  ⟨hl, fun _ _ => rfl, fun _ _ _ => rfl, fun _ ha hout => absurd ha hout⟩

section Specs

variable [DecidableEq ι] [DecidableEq α] {s : Heap ι α} {list : ι} {l : List α} {item : α} {fuel : Nat}

theorem removeFrom_absent : ∀ {l : List α} {r h : Option α} {fuel : Nat}, Linked s.next h l → item ∉ l →
    l.length < fuel → removeFrom s list item fuel r h = some s
  | _, _, _, 0, _, _, hf => absurd hf (Nat.not_lt_zero _)
  | [], _, h, fuel + 1, hl, _, _ => by
    rw [show h = none from hl, removeFrom]
  | a :: l, _, h, fuel + 1, hl, hout, hf => by
    rw [hl.1, removeFrom, if_neg (Ne.symm (ne_of_not_mem_cons hout))]
    exact removeFrom_absent hl.2 (not_mem_of_not_mem_cons hout) (Nat.lt_of_succ_lt_succ hf)

theorem removeFrom_met {l₂ : List α} : ∀ {l₁ : List α} {r h : Option α} {fuel : Nat},
    Linked s.next h (l₁ ++ item :: l₂) → item ∉ l₁ → l₁.length < fuel →
      removeFrom s list item fuel r h = some (s.unlink list (l₁.getLast?.or r) item)
  | _, _, _, 0, _, _, hf => absurd hf (Nat.not_lt_zero _)
  | [], r, h, fuel + 1, hl, _, _ => by
    rw [hl.1, removeFrom, if_pos rfl]
    rfl
  | a :: l₁, r, h, fuel + 1, hl, hout, hf => by
    rw [hl.1, removeFrom, if_neg (Ne.symm (ne_of_not_mem_cons hout)),
      removeFrom_met hl.2 (not_mem_of_not_mem_cons hout) (Nat.lt_of_succ_lt_succ hf), getLast?_cons]
    cases l₁.getLast? <;> rfl

theorem listRemove_spec (hl : Linked s.next (s.head list) l) (hf : l.length < fuel) (item : α) :
    ∃ s', listRemove fuel s list item = some s' ∧ Relinked s s' list l (l.erase item) := by
  rw [listRemove]
  split
  next hnone =>
    rw [hnone] at hl
    obtain rfl : l = [] := by
      cases l with
      | nil => rfl
      | cons a l => cases hl.1
    refine ⟨s, rfl, Relinked.refl ?_⟩
    exact hnone
  · by_cases hmem : item ∈ l
    · obtain ⟨l₁, l₂, rfl⟩ := append_of_mem hmem
      have hnodup := hl.nodup
      obtain ⟨-, htail, hdisj⟩ := nodup_append.mp hnodup
      have hout₁ : item ∉ l₁ := fun hin => hdisj item hin item mem_cons_self rfl
      have hout₂ : item ∉ l₂ := (nodup_cons.mp htail).1
      have hlen : l₁.length < fuel := by
        rw [length_append] at hf
        omega
      have herase : (l₁ ++ item :: l₂).erase item = l₁ ++ l₂ := by
        rw [erase_append_right _ hout₁, erase_cons_head]
      refine ⟨_, removeFrom_met hl hout₁ hlen, ?_⟩
      rw [herase, Option.or_none]
      rcases eq_nil_or_concat l₁ with rfl | ⟨l₀, u, rfl⟩
      · -- the first item
        refine ⟨?_, fun j hj => update_of_ne hj .., fun a ha _ => ?_, fun a ha hout => ?_⟩
        · have hrest : Linked (update s.next item none) (s.next item) l₂ := hl.2.update_off hout₂ none
          have hhead : (s.setHead list (s.next item)).head list = s.next item := update_self ..
          rw [← hhead] at hrest
          exact hrest
        · exact update_of_ne (fun heq => ha (mem_cons.mpr (.inl heq))) ..
        · have heq : a = item := (mem_cons.mp ha).resolve_right hout
          rw [heq]
          exact update_self ..
      · -- the item behind `u`
        rw [concat_eq_append] at hl hout₁ hnodup ⊢
        have hlast : (l₀ ++ [u]).getLast? = some u := by simp
        rw [hlast]
        have hsplit : l₀ ++ [u] ++ item :: l₂ = l₀ ++ u :: item :: l₂ := by simp
        have hrest : l₀ ++ [u] ++ l₂ = l₀ ++ u :: l₂ := by simp
        rw [hsplit] at hl hnodup ⊢
        rw [hrest]
        have hout : item ∉ l₀ ++ u :: l₂ := by
          rw [mem_append, not_or] at hout₁
          simp only [mem_append, mem_cons, not_or]
          exact ⟨hout₁.1, fun heq => hout₁.2 (mem_singleton.mpr heq), hout₂⟩
        refine ⟨hl.unlink.update_off hout none, fun _ _ => rfl, fun a ha _ => ?_, fun a ha hgone => ?_⟩
        · have hai : a ≠ item := by
            rintro rfl
            exact ha (by simp)
          have hau : a ≠ u := by
            rintro rfl
            exact ha (by simp)
          exact (update_of_ne hai ..).trans (update_of_ne hau ..)
        · have heq : a = item := by
            simp only [mem_append, mem_cons] at ha hgone
            tauto
          rw [heq]
          exact update_self ..
    · rw [removeFrom_absent hl hmem hf, erase_of_not_mem hmem]
      exact ⟨s, rfl, Relinked.refl hl⟩

omit [DecidableEq ι] in
theorem Relinked.link {s' s'' : Heap ι α} {r l' : List α} (h : Relinked s s' list l r) (hr : l.erase item = r)
    (hl : Linked s''.next (s''.head list) l') (hperm : l'.Perm (item :: r))
    (hheads : ∀ j, j ≠ list → s''.head j = s'.head j) (hnext : ∀ a, a ∉ l' → s''.next a = s'.next a) :
    Relinked s s'' list l l' := by
  subst hr
  refine ⟨hl, fun j hj => (hheads j hj).trans (h.heads j hj), fun a ha hout => ?_, fun a ha hout => ?_⟩
  · have herase : a ∉ l.erase item := fun hin => ha (mem_of_mem_erase hin)
    rw [hnext a hout, h.frame a ha herase]
  · rw [hperm.mem_iff, mem_cons, not_or] at hout
    exact absurd ((mem_erase_of_ne hout.1).mpr ha) hout.2

theorem listPush_spec (hl : Linked s.next (s.head list) l) (hf : l.length < fuel) (item : α) :
    ∃ s', listPush fuel s list item = some s' ∧ Relinked s s' list l (item :: l.erase item) := by
  obtain ⟨s₁, hs₁, hrem⟩ := listRemove_spec hl hf item
  have hout : item ∉ l.erase item := hl.nodup.not_mem_erase
  refine ⟨(s₁.setNext item (s₁.head list)).setHead list (some item), ?_, hrem.link rfl ?_ (List.Perm.refl _)
    (fun j hj => update_of_ne hj ..) fun a ha => ?_⟩
  · rw [listPush, hs₁]
    rfl
  · have hhead : ((s₁.setNext item (s₁.head list)).setHead list (some item)).head list = some item := update_self ..
    rw [hhead]
    exact hrem.linked.push hout
  · exact update_of_ne (fun heq => ha (mem_cons.mpr (.inl heq))) ..

theorem listAdd_spec (hl : Linked s.next (s.head list) l) (hf : l.length < fuel) (item : α) :
    ∃ s', listAdd fuel s list item = some s' ∧ Relinked s s' list l (l.erase item ++ [item]) := by
  obtain ⟨s₁, hs₁, hrem⟩ := listRemove_spec hl hf item
  have hout : item ∉ l.erase item := hl.nodup.not_mem_erase
  have hlen : (l.erase item).length < fuel := Nat.lt_of_le_of_lt length_erase_le hf
  have hcut : Linked (s₁.setNext item none).next ((s₁.setNext item none).head list) (l.erase item) :=
    hrem.linked.update_off hout none
  have htail := listTail_eq hcut hlen
  have hperm : (l.erase item ++ [item]).Perm (item :: l.erase item) := perm_append_singleton ..
  have hself : (s₁.setNext item none).next item = none := update_self ..
  have hoff : ∀ a, a ∉ l.erase item ++ [item] → a ≠ item := fun a ha heq =>
    ha (mem_append_right _ (mem_singleton.mpr heq))
  have hadd : listAdd fuel s list item = (listTail fuel (s₁.setNext item none) list).bind fun t =>
      match t with
      | none => some ((s₁.setNext item none).setHead list (some item))
      | some t => some ((s₁.setNext item none).setNext t (some item)) := by
    rw [listAdd, hs₁]
    rfl
  rw [hadd, htail, Option.bind_some]
  generalize hr : l.erase item = r at hrem hout hcut hperm hoff
  rcases eq_nil_or_concat r with rfl | ⟨r, t, rfl⟩
  · -- the only item
    refine ⟨_, rfl, hrem.link hr ?_ hperm (fun j hj => update_of_ne hj ..) fun a ha => ?_⟩
    · exact ⟨update_self .., hself⟩
    · exact update_of_ne (hoff a ha) ..
  · -- behind the last item `t`
    rw [concat_eq_append] at hr hrem hout hcut hperm hoff ⊢
    have hlast : (r ++ [t]).getLast? = some t := by simp
    rw [hlast]
    refine ⟨_, rfl, hrem.link hr ?_ hperm (fun _ _ => rfl) fun a ha => ?_⟩
    · have hend : (s₁.setNext item none).next t = none := hcut.tail
      have hbehind := hcut.behind hout
      have hsame : update (s₁.setNext item none).next item ((s₁.setNext item none).next t) =
          (s₁.setNext item none).next := by
        have hkeep := update_eq_self item (s₁.setNext item none).next
        rw [hself] at hkeep
        rw [hend, hkeep]
      rw [hsame] at hbehind
      rw [append_assoc]
      exact hbehind
    · have hat : a ≠ t := by
        rintro rfl
        exact ha (by simp)
      exact (update_of_ne hat ..).trans (update_of_ne (hoff a ha) ..)

omit [DecidableEq ι] in
/-- The walk for the last but one item. -/
theorem chopFrom_eq : ∀ {l : List α} {a n u t : α} {fuel : Nat}, Linked s.next (some a) (l ++ [u, t]) →
    s.next a = some n → l.length < fuel → chopFrom s fuel a n = some (s.setNext u none, some t)
  | _, _, _, _, _, 0, _, _, hf => absurd hf (Nat.not_lt_zero _)
  | [], a, n, u, t, fuel + 1, hl, hn, _ => by
    obtain ⟨hau, hun, hend⟩ := hl
    cases hau
    obtain rfl := Option.some.inj (hn.symm.trans hun)
    have hnone : s.next n = none := hend
    rw [chopFrom, hnone]
  | b :: l, a, n, u, t, fuel + 1, hl, hn, hf => by
    obtain ⟨hab, hrest⟩ := hl
    cases hab
    rw [hn] at hrest
    obtain ⟨m, hm⟩ : ∃ m, s.next n = some m := by
      cases l with
      | nil =>
        obtain ⟨hnu, hut, -⟩ := hrest
        cases hnu
        exact ⟨t, hut⟩
      | cons c l =>
        obtain ⟨hnc, hrest⟩ := hrest
        cases hnc
        cases l with
        | nil => exact ⟨u, hrest.1⟩
        | cons d l => exact ⟨d, hrest.1⟩
    rw [chopFrom, hm]
    exact chopFrom_eq hrest hm (Nat.lt_of_succ_lt_succ hf)

theorem listChop_spec (hl : Linked s.next (s.head list) l) (hf : l.length < fuel) :
    ∃ s', listChop fuel s list = some (s', l.getLast?) ∧ Relinked s s' list l l.dropLast := by
  rw [listChop]
  rcases eq_nil_or_concat l with rfl | ⟨r, t, rfl⟩
  · rw [show s.head list = none from hl]
    exact ⟨s, rfl, Relinked.refl hl⟩
  rw [concat_eq_append] at hl hf ⊢
  have hlast : (r ++ [t]).getLast? = some t := by simp
  have hdrop : (r ++ [t]).dropLast = r := by simp
  have hend : s.next t = none := hl.tail
  rw [hlast, hdrop]
  have hgone : ∀ a ∈ r ++ [t], a ∉ r → a = t := fun a ha hout => by
    rcases mem_append.mp ha with hin | hin
    · exact absurd hin hout
    · exact mem_singleton.mp hin
  rcases eq_nil_or_concat r with rfl | ⟨r, u, rfl⟩
  · -- the only item
    rw [show s.head list = some t from hl.1]
    dsimp only
    rw [hend]
    refine ⟨_, rfl, update_self .., fun j hj => update_of_ne hj .., fun _ _ _ => rfl, fun a ha hout => ?_⟩
    rw [hgone a ha hout]
    exact hend
  · rw [concat_eq_append] at hl hf hgone ⊢
    have hsplit : r ++ [u] ++ [t] = r ++ [u, t] := by simp
    rw [hsplit] at hl hf hgone ⊢
    obtain ⟨a, n, ha, hn⟩ : ∃ a n, s.head list = some a ∧ s.next a = some n := by
      cases r with
      | nil => exact ⟨u, t, hl.1, hl.2.1⟩
      | cons a r =>
        cases r with
        | nil => exact ⟨a, u, hl.1, hl.2.1⟩
        | cons b r => exact ⟨a, b, hl.1, hl.2.1⟩
    have hlen : r.length < fuel := by
      rw [length_append] at hf
      omega
    rw [ha]
    dsimp only
    rw [hn]
    have hchop : chopFrom s fuel a n = some (s.setNext u none, some t) := chopFrom_eq (ha ▸ hl) hn hlen
    have hunlink := hl.unlink
    rw [hend] at hunlink
    have hut : t ≠ u := by
      rintro rfl
      have hnodup := (nodup_append.mp hl.nodup).2.1
      simp at hnodup
    refine ⟨_, hchop, hunlink, fun _ _ => rfl, fun b hb _ => ?_, fun b hb hout => ?_⟩
    · refine update_of_ne ?_ ..
      rintro rfl
      exact hb (by simp)
    · rw [hgone b hb hout]
      exact (update_of_ne hut ..).trans hend

end Specs

end CSync.Chain
