import CSync.Tsch.AsnArithmetic
import CSync.Tsch.Links

/-! The next active link and its backup.

    One pass over the links of all slotframes keeps the best of the earliest ones. The backup is another receive link
    at the same slot, unless the first receive link there is also the best one and others follow: then it is the best
    link itself. -/

namespace CSync.TschSchedule
open Lib List

variable {A : Type} {c : Config A} {s : State c} {asn : Asn}

/-- A timeslot of a slotframe occurs so many slots behind an ASN, and not earlier. -/
def NextAt (asn : Asn) (size timeslot d : Nat) : Prop :=
  0 < d ∧ (asn.value + d) % size = timeslot ∧ ∀ d', 0 < d' → (asn.value + d') % size = timeslot → d ≤ d'

/-- The next occurrence of a link. -/
def Occurs (s : State c) (asn : Asn) (l : Fin c.maxLinks) (d : Nat) : Prop :=
  ∃ sf ∈ s.slotframeList, l ∈ (s.slotframe sf).linksList ∧
    NextAt asn (s.slotframe sf).size.val (s.link l).timeslot.toNat d

/-- A link is in one list, and its timeslot is one of its slotframe. -/
structure Timed (s : State c) : Prop where
  links : (allLinks s).Nodup
  sizes : ∀ sf ∈ s.slotframeList, ∃ v : UInt16, asnDivisorInit v.toNat = some (s.slotframe sf).size
  timeslots : ∀ sf ∈ s.slotframeList, ∀ l ∈ (s.slotframe sf).linksList,
    (s.link l).timeslot.toNat < (s.slotframe sf).size.val

/-- Transmit links go first, then those of a lower slotframe. -/
def rank (s : State c) (l : Fin c.maxLinks) : Nat :=
  (if optionTx (s.link l).linkOptions then 0 else 2 ^ 16) + (s.link l).slotframeHandle.toNat

def Rx (s : State c) (l : Fin c.maxLinks) : Prop := optionRx (s.link l).linkOptions = true

instance (s : State c) (l : Fin c.maxLinks) : Decidable (Rx s l) := inferInstanceAs (Decidable (_ = true))

/-- What `tsch_schedule_get_next_active_link` is to find. -/
structure Selected (s : State c) (asn : Asn) (r : Best c) : Prop where
  found : r.currBest = none ↔ allLinks s = []
  earliest : ∀ b, r.currBest = some b → Occurs s asn b r.timeToCurrBest.toNat ∧
    ∀ l d, Occurs s asn l d → r.timeToCurrBest.toNat ≤ d
  tx : ∀ b l, r.currBest = some b → Occurs s asn l r.timeToCurrBest.toNat →
    optionTx (s.link l).linkOptions = true → optionTx (s.link b).linkOptions = true
  lowest : ∀ b l, r.currBest = some b → Occurs s asn l r.timeToCurrBest.toNat →
    optionTx (s.link l).linkOptions = optionTx (s.link b).linkOptions →
    (s.link b).slotframeHandle ≤ (s.link l).slotframeHandle
  backup : ∀ b k, r.currBest = some b → r.currBackup = some k →
    k ≠ b ∧ Rx s k ∧ Occurs s asn k r.timeToCurrBest.toNat
  backed : ∀ b k, r.currBest = some b → k ≠ b → Rx s k → Occurs s asn k r.timeToCurrBest.toNat →
    r.currBackup ≠ none

/-! ### Distances -/

def distance (asn : Asn) (size timeslot : Nat) : Nat :=
  if asn.value % size < timeslot then timeslot - asn.value % size else size + timeslot - asn.value % size

theorem nextAt_iff {size timeslot d : Nat} (h : timeslot < size) :
    NextAt asn size timeslot d ↔ d = distance asn size timeslot := by
  have hpos : 0 < distance asn size timeslot := by
    have := Nat.mod_lt asn.value (by omega : 0 < size)
    rw [distance]
    split <;> omega
  have hocc : (asn.value + distance asn size timeslot) % size = timeslot := by
    have := Nat.mod_lt asn.value (by omega : 0 < size)
    rw [← Nat.mod_add_mod, distance]
    split
    · rw [Nat.mod_eq_of_lt (by omega)]
      omega
    · rw [show asn.value % size + (size + timeslot - asn.value % size) = timeslot + size by omega, Nat.add_mod_right,
        Nat.mod_eq_of_lt h]
  have hleast : ∀ d', 0 < d' → (asn.value + d') % size = timeslot → distance asn size timeslot ≤ d' := by
    intro d' hd' hd
    have hlt := Nat.mod_lt asn.value (by omega : 0 < size)
    by_contra hless
    have hbound : distance asn size timeslot ≤ size := by
      rw [distance]
      split <;> omega
    rw [← Nat.mod_add_mod] at hd
    by_cases hwrap : asn.value % size + d' < size
    · rw [Nat.mod_eq_of_lt hwrap] at hd
      rw [distance] at hless
      split at hless <;> omega
    · rw [Nat.mod_eq_sub_mod (by omega), Nat.mod_eq_of_lt (by omega)] at hd
      rw [distance] at hless
      split at hless <;> omega
  constructor
  · rintro ⟨hd, hat, hle⟩
    exact le_antisymm (hle _ hpos hocc) (hleast d hd hat)
  · rintro rfl
    exact ⟨hpos, hocc, hleast⟩

/-- The links in the order of the pass, with their distances. -/
def timed (s : State c) (asn : Asn) : List (Fin c.maxLinks × Nat) :=
  s.slotframeList.flatMap fun sf =>
    (s.slotframe sf).linksList.map fun l => (l, distance asn (s.slotframe sf).size.val (s.link l).timeslot.toNat)

theorem map_timed (s : State c) (asn : Asn) : (timed s asn).map Prod.fst = allLinks s := by
  rw [timed, map_flatMap, allLinks]
  refine flatMap_congr fun sf _ => ?_
  rw [map_map]
  exact map_id _

theorem mem_timed (h : Timed s) {l : Fin c.maxLinks} {d : Nat} : (l, d) ∈ timed s asn ↔ Occurs s asn l d := by
  simp only [timed, mem_flatMap, mem_map, Prod.mk.injEq, Occurs]
  constructor
  · rintro ⟨sf, hsf, l', hl, rfl, rfl⟩
    exact ⟨sf, hsf, hl, (nextAt_iff (h.timeslots sf hsf l' hl)).2 rfl⟩
  · rintro ⟨sf, hsf, hl, hd⟩
    exact ⟨sf, hsf, l, hl, rfl, ((nextAt_iff (h.timeslots sf hsf l hl)).1 hd).symm⟩

def atDistance (xs : List (Fin c.maxLinks × Nat)) (d : Nat) : List (Fin c.maxLinks) :=
  (xs.filter fun x => decide (x.2 = d)).map Prod.fst

/-- At the earliest slot, the first receive link is also the best link, and others follow. -/
def OwnBackup (s : State c) (asn : Asn) : Prop :=
  ∃ d b pre post, (∀ x ∈ timed s asn, d ≤ x.2) ∧ atDistance (timed s asn) d = pre ++ b :: post ∧ post ≠ [] ∧ Rx s b ∧
    (∀ a ∈ pre, ¬ Rx s a ∧ rank s b < rank s a) ∧ ∀ a ∈ post, rank s b ≤ rank s a

/-- One turn of the loop, by the distance of the link. -/
def consider (s : State c) (best : Best c) (x : Fin c.maxLinks × Nat) : Best c :=
  match best.currBest with
  | none => ⟨UInt16.ofNat x.2, some x.1, none⟩
  | some b =>
    if x.2 < best.timeToCurrBest.toNat then ⟨UInt16.ofNat x.2, some x.1, none⟩
    else if x.2 = best.timeToCurrBest.toNat then
      { best with
        currBest := some (if rank s x.1 < rank s b then x.1 else b)
        currBackup := if best.currBackup = none then newBackup s b x.1 else best.currBackup }
    else best

theorem newBest_eq (s : State c) (b l : Fin c.maxLinks) :
    newBest s b l = if rank s l < rank s b then some l else none := by
  have hl := (s.link l).slotframeHandle.toNat_lt
  have hb := (s.link b).slotframeHandle.toNat_lt
  rcases Bool.eq_false_or_eq_true (optionTx (s.link l).linkOptions) with htl | htl <;>
    rcases Bool.eq_false_or_eq_true (optionTx (s.link b).linkOptions) with htb | htb <;>
    simp only [newBest, rank, htl, htb, UInt16.lt_iff_toNat_lt, Bool.false_eq_true, Bool.true_eq_false, if_true, if_false]
  · simp
  · rw [if_pos (by omega)]
  · rw [if_neg (by omega)]
  · simp

theorem considerLink_eq {sf : Fin c.maxSlotframes} {v : UInt16} (hv : asnDivisorInit v.toNat = some (s.slotframe sf).size)
    {l : Fin c.maxLinks} (hl : (s.link l).timeslot.toNat < (s.slotframe sf).size.val) (best : Best c) :
    considerLink s (s.slotframe sf).size.val (UInt16.ofNat (asnMod asn (s.slotframe sf).size)) best l =
      consider s best (l, distance asn (s.slotframe sf).size.val (s.link l).timeslot.toNat) := by
  obtain ⟨hpos, hsize⟩ := asnDivisorInit_eq hv
  have hvlt := v.toNat_lt
  have hmod : asnMod asn (s.slotframe sf).size = asn.value % v.toNat := by
    rw [hsize, value_mod, ← Nat.add_mod_mod]
    rfl
  have hval : (s.slotframe sf).size.val = v.toNat := by rw [hsize]
  have hlt := Nat.mod_lt asn.value hpos
  rw [hval] at hl ⊢
  have hslot : (UInt16.ofNat (asn.value % v.toNat)).toNat = asn.value % v.toNat :=
    UInt16.toNat_ofNat_of_lt' (show asn.value % v.toNat < 2 ^ 16 by omega)
  have htime : ((if UInt16.ofNat (asn.value % v.toNat) < (s.link l).timeslot then
      (s.link l).timeslot - UInt16.ofNat (asn.value % v.toNat)
      else UInt16.ofNat v.toNat + (s.link l).timeslot - UInt16.ofNat (asn.value % v.toNat)) : UInt16).toNat =
      distance asn v.toNat (s.link l).timeslot.toNat := by
    simp only [distance, UInt16.lt_iff_toNat_lt, hslot]
    split
    · rw [UInt16.toNat_sub, hslot]
      omega
    · rw [UInt16.toNat_sub, UInt16.toNat_add, hslot, UInt16.ofNat_toNat]
      omega
  rw [considerLink, consider, hmod, ← htime]
  generalize (if UInt16.ofNat (asn.value % v.toNat) < (s.link l).timeslot then _ else _ : UInt16) = time
  cases best.currBest with
  | none => simp only [UInt16.ofNat_toNat]
  | some b =>
    simp only [UInt16.lt_iff_toNat_lt, ← UInt16.toNat_inj, UInt16.ofNat_toNat, newBest_eq]
    split
    · rfl
    · split
      · split <;> rfl
      · rfl

theorem getNextActiveLink_eq (h : Timed s) : getNextActiveLink s asn = (timed s asn).foldl (consider s) ⟨0, none, none⟩ := by
  rw [getNextActiveLink, timed, foldl_flatMap]
  refine foldl_ext _ _ _ fun best sf hsf => ?_
  obtain ⟨v, hv⟩ := h.sizes sf hsf
  rw [foldl_map]
  exact foldl_ext _ _ _ fun best l hl => considerLink_eq hv (h.timeslots sf hsf l hl) best

/-! ### The best link of a slot -/

/-- INVARIANT: `b` is the first of the best among the links at a slot, and the backup is a receive link there, `b`
    itself where nothing before it receives. -/
structure Tied (s : State c) (pre post : List (Fin c.maxLinks)) (b : Fin c.maxLinks) (backup : Option (Fin c.maxLinks)) :
    Prop where
  before : ∀ a ∈ pre, rank s b < rank s a
  behind : ∀ a ∈ post, rank s b ≤ rank s a
  unbacked : backup = none ↔ (∀ a ∈ pre, ¬ Rx s a) ∧ (∀ a ∈ post, ¬ Rx s a) ∧ (Rx s b → post = [])
  backed : ∀ k, backup = some k → k ∈ pre ++ b :: post ∧ Rx s k ∧
    (k = b ↔ Rx s b ∧ (∀ a ∈ pre, ¬ Rx s a) ∧ post ≠ [])

variable {pre post : List (Fin c.maxLinks)} {b x : Fin c.maxLinks} {backup : Option (Fin c.maxLinks)}

theorem Tied.single (s : State c) (x : Fin c.maxLinks) : Tied s [] [] x none := by
  refine ⟨?_, ?_, ?_, ?_⟩ <;> simp

section
variable (h : Tied s pre post b backup)
include h

theorem Tied.rank_le {a : Fin c.maxLinks} (ha : a ∈ pre ++ b :: post) :
    rank s b ≤ rank s a := by
  rcases mem_append.1 ha with hpre | hrest
  · exact (h.before a hpre).le
  · rcases mem_cons.1 hrest with rfl | hpost
    · exact le_rfl
    · exact h.behind a hpost

/-- A better link takes the place of the best one. -/
theorem Tied.better (hx : rank s x < rank s b) (hnew : x ∉ pre ++ b :: post) :
    Tied s (pre ++ b :: post) [] x (if backup = none then newBackup s b x else backup) := by
  have hxb : x ≠ b := by
    rintro rfl
    exact lt_irrefl _ hx
  have hnewBackup : newBackup s b x = if Rx s b then some b else none := by
    simp only [newBackup, newBest_eq, if_pos hx, Rx, ne_eq, Option.some.injEq, hxb, not_false_eq_true, true_and,
      not_true, false_and, if_false]
    rfl
  refine ⟨fun a ha => lt_of_lt_of_le hx (h.rank_le ha), nofun, ?_, fun k hk => ?_⟩
  · have hrx : (∀ a ∈ pre ++ b :: post, ¬ Rx s a) ↔ (∀ a ∈ pre, ¬ Rx s a) ∧ (∀ a ∈ post, ¬ Rx s a) ∧ ¬ Rx s b := by
      grind
    rw [hrx]
    split
    next hnone =>
      have := h.unbacked.1 hnone
      rw [hnewBackup]
      split <;> grind
    next hsome =>
      refine ⟨fun hnone => absurd hnone hsome, fun hall => absurd (h.unbacked.2 ⟨hall.1.1, hall.1.2.1, fun hb => ?_⟩) hsome⟩
      exact absurd hb hall.1.2.2
  · have hmem : k ∈ pre ++ b :: post ∧ Rx s k := by
      split at hk
      · rw [hnewBackup] at hk
        split at hk
        next hb =>
          cases hk
          exact ⟨by simp, hb⟩
        · contradiction
      · exact ⟨(h.backed k hk).1, (h.backed k hk).2.1⟩
    refine ⟨mem_append_left _ hmem.1, hmem.2, fun heq => ?_, fun hall => absurd rfl hall.2.2⟩
    rw [heq] at hmem
    exact absurd hmem.1 hnew

/-- Another link comes behind the best one. -/
theorem Tied.worse (hx : ¬ rank s x < rank s b) :
    Tied s pre (post ++ [x]) b (if backup = none then newBackup s b x else backup) := by
  have hnewBackup : newBackup s b x = if Rx s b then some b else if Rx s x then some x else none := by
    simp only [newBackup, newBest_eq, if_neg hx, Rx, ne_eq, reduceCtorEq, not_false_eq_true, true_and]
    rfl
  refine ⟨h.before, fun a ha => ?_, ?_, fun k hk => ?_⟩
  · rcases mem_append.1 ha with hpost | hlast
    · exact h.behind a hpost
    · rw [mem_singleton.1 hlast]
      exact not_lt.1 hx
  · have hrx : (∀ a ∈ post ++ [x], ¬ Rx s a) ↔ (∀ a ∈ post, ¬ Rx s a) ∧ ¬ Rx s x := by
      grind
    have hne : post ++ [x] ≠ [] := append_ne_nil_of_right_ne_nil _ (cons_ne_nil _ _)
    rw [hrx, iff_false_intro hne]
    split
    next hnone =>
      have := h.unbacked.1 hnone
      rw [hnewBackup]
      split
      · grind
      · split <;> grind
    next hsome =>
      refine ⟨fun hnone => absurd hnone hsome, fun hall => absurd (h.unbacked.2 ⟨hall.1, hall.2.1.1, fun hb => ?_⟩) hsome⟩
      exact (hall.2.2 hb).elim
  · have hne : post ++ [x] ≠ [] := append_ne_nil_of_right_ne_nil _ (cons_ne_nil _ _)
    rw [← cons_append, ← append_assoc]
    split at hk
    next hnone =>
      have hrx := h.unbacked.1 hnone
      rw [hnewBackup] at hk
      split at hk
      next hb =>
        cases hk
        exact ⟨by simp, hb, fun _ => ⟨hb, hrx.1, hne⟩, fun _ => rfl⟩
      next hb =>
        split at hk
        next hxr =>
          cases hk
          refine ⟨by simp, hxr, fun heq => ?_, fun hall => absurd hall.1 hb⟩
          rw [heq] at hxr
          exact absurd hxr hb
        · contradiction
    next hsome =>
      obtain ⟨hmem, hrx, hown⟩ := h.backed k hk
      refine ⟨mem_append_left _ hmem, hrx, fun heq => ?_, fun hall => hown.2 ⟨hall.1, hall.2.1, ?_⟩⟩
      · exact ⟨(hown.1 heq).1, (hown.1 heq).2.1, hne⟩
      · rintro rfl
        exact hsome (h.unbacked.2 ⟨hall.2.1, by simp, fun _ => rfl⟩)

end

/-! ### The pass over all links -/

/-- INVARIANT: what the pass has found among the links so far. -/
structure Passed (s : State c) (xs : List (Fin c.maxLinks × Nat)) (r : Best c) : Prop where
  found : r.currBest = none ↔ xs = []
  tied : ∀ b, r.currBest = some b → (∀ x ∈ xs, r.timeToCurrBest.toNat ≤ x.2) ∧
    ∃ pre post, atDistance xs r.timeToCurrBest.toNat = pre ++ b :: post ∧ Tied s pre post b r.currBackup

variable {xs : List (Fin c.maxLinks × Nat)} {r : Best c} {d : Nat}

theorem atDistance_append_self (xs : List (Fin c.maxLinks × Nat)) (x : Fin c.maxLinks) (d : Nat) :
    atDistance (xs ++ [(x, d)]) d = atDistance xs d ++ [x] := by
  simp [atDistance, filter_append]

theorem atDistance_append_ne {e : Nat} (h : e ≠ d) : atDistance (xs ++ [(x, e)]) d = atDistance xs d := by
  simp [atDistance, filter_append, h]

theorem mem_atDistance : x ∈ atDistance xs d ↔ (x, d) ∈ xs := by
  simp [atDistance]

/-- STEP: one more link. -/
theorem Passed.consider (h : Passed s xs r) (hd : d < 2 ^ 16) (hnew : x ∉ xs.map Prod.fst) :
    Passed s (xs ++ [(x, d)]) (consider s r (x, d)) := by
  have hword : (UInt16.ofNat d).toNat = d := UInt16.toNat_ofNat_of_lt' hd
  have hne : xs ++ [(x, d)] ≠ [] := append_ne_nil_of_right_ne_nil _ (cons_ne_nil _ _)
  -- the first link at an earlier slot than all
  have hfirst : (∀ y ∈ xs, d < y.2) → Passed s (xs ++ [(x, d)]) ⟨UInt16.ofNat d, some x, none⟩ := by
    intro hearlier
    refine ⟨⟨fun hnone => (nomatch hnone), fun hnil => absurd hnil hne⟩, fun b hb => ?_⟩
    cases hb
    have hempty : atDistance xs d = [] := by
      rw [eq_nil_iff_forall_not_mem]
      intro y hy
      exact lt_irrefl _ (hearlier _ (mem_atDistance.1 hy))
    rw [hword, atDistance_append_self, hempty]
    refine ⟨fun y hy => ?_, [], [], rfl, Tied.single s x⟩
    rcases mem_append.1 hy with hy | hy
    · exact (hearlier y hy).le
    · rw [mem_singleton.1 hy]
  unfold CSync.TschSchedule.consider
  split
  next hnone =>
    have hnil := h.found.1 hnone
    exact hfirst fun y hy => by rw [hnil] at hy; contradiction
  next b hb =>
    obtain ⟨hle, pre, post, hat, htied⟩ := h.tied b hb
    split
    next hlt => exact hfirst fun y hy => lt_of_lt_of_le hlt (hle y hy)
    next hnot =>
      split
      next hsame =>
        refine ⟨⟨fun hnone => (nomatch hnone), fun hnil => absurd hnil hne⟩, fun b' hb' => ?_⟩
        rw [← hsame] at hat ⊢
        rw [atDistance_append_self, hat]
        refine ⟨fun y hy => ?_, ?_⟩
        · rcases mem_append.1 hy with hy | hy
          · rw [hsame]
            exact hle y hy
          · rw [mem_singleton.1 hy]
        · have hfresh : x ∉ pre ++ b :: post := by
            rw [← hat]
            exact fun hx => hnew (mem_map.2 ⟨_, mem_atDistance.1 hx, rfl⟩)
          split at hb'
          next hrank =>
            cases hb'
            exact ⟨pre ++ b :: post, [], rfl, htied.better hrank hfresh⟩
          next hrank =>
            cases hb'
            exact ⟨pre, post ++ [x], by simp, htied.worse hrank⟩
      next hother =>
        refine ⟨⟨fun hnone => absurd hnone (by rw [hb]; simp), fun hnil => absurd hnil hne⟩, fun b' hb' => ?_⟩
        rw [hb] at hb'
        cases hb'
        rw [atDistance_append_ne hother]
        refine ⟨fun y hy => ?_, pre, post, hat, htied⟩
        rcases mem_append.1 hy with hy | hy
        · exact hle y hy
        · rw [mem_singleton.1 hy]
          exact not_lt.1 hnot

/-- RUN: all links. -/
theorem passed_foldl (xs : List (Fin c.maxLinks × Nat)) (hd : ∀ x ∈ xs, x.2 < 2 ^ 16) (hxs : (xs.map Prod.fst).Nodup) :
    Passed s xs (xs.foldl (consider s) ⟨0, none, none⟩) := by
  induction xs using reverseRecOn with
  | nil => exact ⟨⟨fun _ => rfl, fun _ => rfl⟩, fun b hb => (nomatch hb)⟩
  | append_singleton xs x ih =>
    rw [map_append, map_singleton, nodup_append] at hxs
    rw [foldl_append, foldl_cons, foldl_nil]
    refine (ih (fun y hy => hd y (mem_append_left _ hy)) hxs.1).consider (hd x (by simp)) fun hx => ?_
    exact hxs.2.2 _ hx _ (mem_singleton_self _) rfl

theorem passed_getNextActiveLink (h : Timed s) (asn : Asn) : Passed s (timed s asn) (getNextActiveLink s asn) := by
  rw [getNextActiveLink_eq h]
  refine passed_foldl _ (fun x hx => ?_) (by rw [map_timed]; exact h.links)
  simp only [timed, mem_flatMap, mem_map] at hx
  obtain ⟨sf, hsf, l, hl, rfl⟩ := hx
  obtain ⟨v, hv⟩ := h.sizes sf hsf
  have hv16 := v.toNat_lt
  have hval : (s.slotframe sf).size.val = v.toNat := by rw [(asnDivisorInit_eq hv).2]
  have htimeslot := h.timeslots sf hsf l hl
  simp only [distance]
  split <;> omega

theorem Tied.unique (h : Tied s pre post b backup) {pre' post' : List (Fin c.maxLinks)} {b' : Fin c.maxLinks}
    (heq : pre ++ b :: post = pre' ++ b' :: post') (hbefore : ∀ a ∈ pre', rank s b' < rank s a)
    (hbehind : ∀ a ∈ post', rank s b' ≤ rank s a) : pre = pre' ∧ b = b' ∧ post = post' := by
  rcases append_eq_append_iff.1 heq with ⟨as, hpre, hrest⟩ | ⟨as, hpre, hrest⟩
  · cases as with
    | nil =>
      obtain ⟨hb, hpost⟩ := cons.inj hrest
      exact ⟨by rw [hpre, append_nil], hb, hpost⟩
    | cons y as =>
      obtain ⟨hb, hpost⟩ := cons.inj hrest
      have hlt := hbefore b (by rw [hpre, hb]; simp)
      have hle := h.behind b' (by rw [hpost]; simp)
      omega
  · cases as with
    | nil =>
      obtain ⟨hb, hpost⟩ := cons.inj hrest
      exact ⟨by rw [hpre, append_nil], hb.symm, hpost.symm⟩
    | cons y as =>
      obtain ⟨hb, hpost⟩ := cons.inj hrest
      have hlt := h.before b' (by rw [hpre, hb]; simp)
      have hle := hbehind b (by rw [hpost]; simp)
      omega

/-- EXACT: the link and its backup are right unless the backup is the link itself. -/
theorem getNextActiveLink_iff (s : State c) (asn : Asn) (h : Timed s) :
    Selected s asn (getNextActiveLink s asn) ↔ ¬ OwnBackup s asn := by
  have hpass := passed_getNextActiveLink h asn
  have hocc : ∀ l d, Occurs s asn l d ↔ l ∈ atDistance (timed s asn) d := fun l d => by
    rw [mem_atDistance, mem_timed h]
  generalize getNextActiveLink s asn = r at *
  constructor
  · rintro hsel ⟨d, b', pre', post', hleast, hat', hpost', hrx', hbefore, hbehind⟩
    have hmem' : (b', d) ∈ timed s asn := mem_atDistance.1 (by rw [hat']; simp)
    cases hb : r.currBest with
    | none =>
      rw [hpass.found.1 hb] at hmem'
      contradiction
    | some b =>
      obtain ⟨hle, pre, post, hat, htied⟩ := hpass.tied b hb
      have hmem : (b, r.timeToCurrBest.toNat) ∈ timed s asn := mem_atDistance.1 (by rw [hat]; simp)
      obtain rfl : r.timeToCurrBest.toNat = d := le_antisymm (hle _ hmem') (hleast _ hmem)
      obtain ⟨rfl, rfl, rfl⟩ := htied.unique (hat.symm.trans hat') (fun a ha => (hbefore a ha).2) hbehind
      cases hk : r.currBackup with
      | none => exact hpost' ((htied.unbacked.1 hk).2.2 hrx')
      | some k =>
        have hown := (htied.backed k hk).2.2.2 ⟨hrx', fun a ha => (hbefore a ha).1, hpost'⟩
        exact (hsel.backup b k hb hk).1 hown
  · intro hnot
    have htie : ∀ b, r.currBest = some b → ∃ pre post,
        atDistance (timed s asn) r.timeToCurrBest.toNat = pre ++ b :: post ∧ Tied s pre post b r.currBackup :=
      fun b hb => (hpass.tied b hb).2
    refine ⟨?_, fun b hb => ⟨?_, fun l d hl => ?_⟩, fun b l hb hl htx => ?_, fun b l hb hl htx => ?_, fun b k hb hk => ?_,
      fun b k hb hkb hrx hk hnone => ?_⟩
    · rw [hpass.found, ← map_timed s asn, map_eq_nil_iff]
    · obtain ⟨pre, post, hat, htied⟩ := htie b hb
      rw [hocc, hat]
      simp
    · exact (hpass.tied b hb).1 _ ((mem_timed h).2 hl)
    · obtain ⟨pre, post, hat, htied⟩ := htie b hb
      have hle := htied.rank_le (hat ▸ (hocc _ _).1 hl)
      have hlt := (s.link l).slotframeHandle.toNat_lt
      by_contra hb'
      simp only [rank, htx, hb', if_true] at hle
      simp only [if_false] at hle
      omega
    · obtain ⟨pre, post, hat, htied⟩ := htie b hb
      have hle := htied.rank_le (hat ▸ (hocc _ _).1 hl)
      simp only [rank, htx] at hle
      rw [UInt16.le_iff_toNat_le]
      omega
    · obtain ⟨pre, post, hat, htied⟩ := htie b hb
      obtain ⟨hmem, hrx, hown⟩ := htied.backed k hk
      refine ⟨fun hkb => hnot ?_, hrx, by rw [hocc, hat]; exact hmem⟩
      obtain ⟨hrxb, hbefore, hpost⟩ := hown.1 hkb
      exact ⟨_, b, pre, post, (hpass.tied b hb).1, hat, hpost, hrxb, fun a ha => ⟨hbefore a ha, htied.before a ha⟩,
        htied.behind⟩
    · obtain ⟨pre, post, hat, htied⟩ := htie b hb
      obtain ⟨hbefore, hbehind, -⟩ := htied.unbacked.1 hnone
      have hmem := (hocc _ _).1 hk
      rw [hat] at hmem
      rcases mem_append.1 hmem with hpre | hrest
      · exact hbefore k hpre hrx
      · rcases mem_cons.1 hrest with rfl | hpost
        · exact hkb rfl
        · exact hbehind k hpost hrx

/-- Slotframes 0 and 1 of three and five slots, each with a link with these options at timeslot 1. -/
def overlapping (options₀ options₁ : UInt8) : State (⟨2, 2, 4, 4, 0, 255⟩ : Config Nat) :=
  let s := (addSlotframe 1 5 (addSlotframe 0 3 (init _)).2).2
  (addLink 1 ⟨options₁, .normal, 7, 1, 0⟩ (addLink 0 ⟨options₀, .normal, 7, 1, 0⟩ s).2).2

/-- A transmit link and a receive link: the second stands in for the first. -/
theorem getNextActiveLink_overlapping : Selected (overlapping 1 2) ⟨0, 0⟩ (getNextActiveLink (overlapping 1 2) ⟨0, 0⟩) := by
  have htimed : Timed (overlapping 1 2) := by
    refine ⟨by decide, fun sf _ => ?_, by decide⟩
    match sf with
    | 0 => exact ⟨3, by decide⟩
    | 1 => exact ⟨5, by decide⟩
  refine (getNextActiveLink_iff _ _ htimed).2 ?_
  rintro ⟨d, b, pre, post, -, hat, hpost, hrx, -, -⟩
  have hlinks : timed (overlapping 1 2) ⟨0, 0⟩ = [(0, 1), (1, 1)] := by decide
  rw [hlinks] at hat
  by_cases hd : d = 1
  · subst hd
    match pre with
    | [] =>
      obtain ⟨rfl, -⟩ := cons.inj hat
      cases hrx
    | [a] => exact hpost (cons.inj (cons.inj hat).2).2.symm
    | a :: a' :: pre => simp [atDistance] at hat
  · have hd' : 1 ≠ d := Ne.symm hd
    simp [atDistance, hd'] at hat

/-- Two receive links: the first is its own backup. -/
theorem getNextActiveLink_ownBackup :
    ¬ Selected (overlapping 2 2) ⟨0, 0⟩ (getNextActiveLink (overlapping 2 2) ⟨0, 0⟩) := by
  exact fun h => (h.backup 0 0 rfl rfl).1 rfl

end CSync.TschSchedule
