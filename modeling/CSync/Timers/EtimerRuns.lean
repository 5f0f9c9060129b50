import CSync.Timers.Etimer
import Mathlib.Tactic.Ring

/-! Event timers over whole runs.

    `Good c s l` is the invariant: the pointers run through the list `l`, every timer on it has a process,
    none on it has been posted since it was armed, and an armed timer is on the list or was posted
    exactly once. It asks of the calls only that timers are armed from inside a process.

    The cached `next_expiration` needs more. `update_time` compares unsigned distances from now, in which
    a timer that has expired and is still on the list comes after all others; and the exit of a
    process takes timers away without an `update_time`. `OneSide` keeps both out. -/

namespace CSync.Etimer

open Lib List Function

variable {N : Nat} {P : Type} {c : Platform}

/-- The invariant of the list of pending timers. -/
structure Good (c : Platform) (s : State N P) (l : List (Fin N)) : Prop where
  linked : Linked s.next s.timerlist l
  owned : ∀ t ∈ l, s.p t ≠ none
  fresh : ∀ t ∈ l, s.posts t = 0
  waits : ∀ t ∈ l, s.waiting t = true
  once : ∀ t, s.posts t ≤ 1
  kept : ∀ t, s.waiting t = true → t ∈ l ∨ s.posts t = 1
  sync : ∀ t, s.due t % (2 ^ c.width : Nat) = (s.start t + s.interval t : Int) % (2 ^ c.width : Nat)

/-! ### Distances -/

variable {s : State N P} {l : List (Fin N)}

theorem Good.nodes_eq (h : Linked s.next s.timerlist l) : nodes s = l := by
  have hlen : l.length ≤ N := by simpa using h.nodup.length_le_card
  exact h.walk_eq hlen

section Distances

variable {s : State N P} {l : List (Fin N)} {t : Fin N}

theorem tdist_cast (hsync : s.due t % (2 ^ c.width : Nat) = (s.start t + s.interval t : Int) % (2 ^ c.width : Nat)) :
    (tdist c s t : Int) = (s.due t - s.now) % (2 ^ c.width : Nat) := by
  have hclock : clockTime c s < 2 ^ c.width := Nat.mod_lt _ (Nat.two_pow_pos _)
  unfold tdist
  rw [Int.natCast_mod, Int.natCast_add, Nat.cast_sub hclock.le, Int.natCast_add]
  have hnow : ((clockTime c s : Nat) : Int) % (2 ^ c.width : Nat) = (s.now : Int) % (2 ^ c.width : Nat) := by
    unfold clockTime
    rw [Int.natCast_mod, Int.emod_emod]
  have hshift : (s.start t : Int) + s.interval t + ((2 ^ c.width : Nat) - (clockTime c s : Int)) =
      (s.start t : Int) + s.interval t - clockTime c s + (2 ^ c.width : Nat) := by ring
  rw [hshift, Int.add_emod_right, Int.sub_emod, hnow, ← hsync, ← Int.sub_emod]

theorem tdist_le_iff (hsync : ∀ t, s.due t % (2 ^ c.width : Nat) = (s.start t + s.interval t : Int) % (2 ^ c.width :
    Nat)) (hside : SameSide c s.now s.due l) : ∀ t ∈ l, ∀ u ∈ l, tdist c s t ≤ tdist c s u → s.due t ≤ s.due u := by
  intro t ht u hu hle
  have hle' : (tdist c s t : Int) ≤ tdist c s u := by exact_mod_cast hle
  rw [tdist_cast (hsync t), tdist_cast (hsync u)] at hle'
  rcases hside with hside | hside
  · have h1 := hside t ht
    have h2 := hside u hu
    rw [Int.emod_eq_of_lt (by omega) (by omega), Int.emod_eq_of_lt (by omega) (by omega)] at hle'
    omega
  · have h1 := hside t ht
    have h2 := hside u hu
    rw [← Int.add_emod_right, ← Int.add_emod_right (s.due u - s.now),
      Int.emod_eq_of_lt (by omega) (by omega), Int.emod_eq_of_lt (by omega) (by omega)] at hle'
    omega

/-- The loop of `update_time` finds a smallest distance. -/
theorem foldl_min (f : Fin N → Nat) : ∀ (l : List (Fin N)) (t : Fin N),
    ∃ u ∈ t :: l, l.foldl (fun d u => if f u < d then f u else d) (f t) = f u ∧
      ∀ v ∈ t :: l, f u ≤ f v
  | [], t => ⟨t, mem_cons_self .., rfl, fun v hv => by
    rw [mem_singleton.mp hv]⟩
  | v :: l, t => by
    rw [foldl_cons]
    have hcases : (if f v < f t then f v else f t) = f (if f v < f t then v else t) := by
      split <;> rfl
    rw [hcases]
    obtain ⟨u, hu, hfold, hmin⟩ := foldl_min f l (if f v < f t then v else t)
    refine ⟨u, ?_, hfold, ?_⟩
    · rcases mem_cons.mp hu with rfl | hu
      · split <;> simp
      · exact mem_cons_of_mem _ (mem_cons_of_mem _ hu)
    · have hhead := hmin _ (mem_cons_self ..)
      intro w hw
      rcases mem_cons.mp hw with rfl | hw
      · refine le_trans hhead ?_
        split
        · exact le_of_lt (by assumption)
        · exact le_refl _
      · rcases mem_cons.mp hw with rfl | hw
        · refine le_trans hhead ?_
          split
          · exact le_refl _
          · exact Nat.not_lt.mp (by assumption)
        · exact hmin w (mem_cons_of_mem _ hw)

/-- UPDATE: with the pending timers on one side of now, the cache holds the earliest of them. -/
theorem updateTime_earliest (hl : Linked s.next s.timerlist l)
    (hsync : ∀ t, s.due t % (2 ^ c.width : Nat) = (s.start t + s.interval t : Int) % (2 ^ c.width : Nat))
    (hside : SameSide c s.now s.due l) : Earliest c (updateTime c s) l := by
  unfold updateTime
  rw [Good.nodes_eq hl]
  cases l with
  | nil => exact ⟨fun _ => rfl, fun h => absurd rfl h⟩
  | cons t rest =>
    refine ⟨nofun, fun _ => ?_⟩
    obtain ⟨u, hu, hfold, hmin⟩ := foldl_min (tdist c s) rest t
    refine ⟨u, hu, fun v hv => tdist_le_iff hsync hside u hu v hv (hmin v hv), ?_⟩
    dsimp only
    rw [hfold, Int.natCast_mod, Int.natCast_add, tdist_cast (hsync u), clockTime, Int.natCast_mod, ← Int.add_emod]
    congr 1
    ring

theorem updateTime_good (h : Good c s l) : Good c (updateTime c s) l := by
  unfold updateTime
  split <;> exact ⟨h.linked, h.owned, h.fresh, h.waits, h.once, h.kept, h.sync⟩

end Distances

/-! ### Arming, adjusting, stopping -/

section Calls

variable {s : State N P} {l : List (Fin N)} {t : Fin N}

/-- The new fields of an armed timer agree with the time it is due. -/
theorem rearm_sync (a : Arming)
    (hsync : s.due t % (2 ^ c.width : Nat) = (s.start t + s.interval t : Int) % (2 ^ c.width : Nat)) :
    (rearm c s t a).2.2 % (2 ^ c.width : Nat) =
      ((rearm c s t a).1 + (rearm c s t a).2.1 : Int) % (2 ^ c.width : Nat) := by
  have hnow : ∀ i : Int, ((s.now : Int) + i) % (2 ^ c.width : Nat) =
      ((clockTime c s : Nat) + i) % (2 ^ c.width : Nat) := by
    intro i
    rw [clockTime, Int.natCast_mod, Int.emod_add_emod]
  have hdue : ∀ i : Int, (s.due t + i) % (2 ^ c.width : Nat) =
      (((s.start t + s.interval t) % 2 ^ c.width : Nat) + i) % (2 ^ c.width : Nat) := by
    intro i
    rw [Int.natCast_mod, Int.natCast_add, Int.emod_add_emod, Int.add_emod, hsync, ← Int.add_emod]
  cases a with
  | set i => exact hnow _
  | resetWithNewInterval i => exact hdue _
  | reset => exact hdue _
  | restart => exact hnow _

theorem timerArm_sync (h : Good c s l) (t : Fin N) (a : Arming) (u : Fin N) : (timerArm c s t a).due u % (2 ^ c.width
    : Nat) = ((timerArm c s t a).start u + (timerArm c s t a).interval u : Int) % (2 ^ c.width : Nat) := by
  by_cases hu : u = t
  · subst hu
    simp only [timerArm, update_self]
    exact rearm_sync a (h.sync u)
  · simp only [timerArm, update_of_ne hu]
    exact h.sync u

variable {l' : List (Fin N)}

theorem Good.arm (h : Good c s l) {cur : Option P} (hcur : cur ≠ none) (a : Arming)
    {next : Fin N → Option (Fin N)} {head : Option (Fin N)}
    (hl : Linked next head l') (hmem : ∀ u, u ∈ l' ↔ u = t ∨ u ∈ l) : Good c { timerArm c s t a with
      needspoll := true, p := update s.p t cur, next := next, timerlist := head } l' := by
  refine ⟨hl, ?_, ?_, ?_, ?_, ?_, timerArm_sync h t a⟩ <;> dsimp only [timerArm]
  · intro u hu
    by_cases hut : u = t
    · subst hut; rw [update_self]; exact hcur
    · rw [update_of_ne hut]; exact h.owned u (((hmem u).mp hu).resolve_left hut)
  · intro u hu
    by_cases hut : u = t
    · subst hut; rw [update_self]
    · rw [update_of_ne hut]; exact h.fresh u (((hmem u).mp hu).resolve_left hut)
  · intro u hu
    by_cases hut : u = t
    · subst hut; rw [update_self]
    · rw [update_of_ne hut]; exact h.waits u (((hmem u).mp hu).resolve_left hut)
  · intro u
    by_cases hut : u = t
    · subst hut; rw [update_self]; exact Nat.zero_le 1
    · rw [update_of_ne hut]; exact h.once u
  · intro u hu
    by_cases hut : u = t
    · exact .inl ((hmem u).mpr (.inl hut))
    · rw [update_of_ne hut] at hu ⊢
      rcases h.kept u hu with hu | hu
      · exact .inl ((hmem u).mpr (.inr hu))
      · exact .inr hu

theorem SameSide.mono {now : Nat} {due : Fin N → Int}
    (h : SameSide c now due l) (hsub : ∀ u ∈ l', u ∈ l) : SameSide c now due l' := by
  rcases h with h | h
  · exact .inl fun u hu => h u (hsub u hu)
  · exact .inr fun u hu => h u (hsub u hu)

/-- Arming a timer puts it on the list, once. -/
theorem etimerArm_good (h : Good c s l) {cur : Option P} (hcur : cur ≠ none) (t : Fin N) (a : Arming) :
    ∃ l',
      Good c (etimerArm c s cur t a) l' ∧
      (∀ u, u ∈ l' ↔ u = t ∨ u ∈ l) ∧
      (SameSide c s.now (update s.due t (rearm c s t a).2.2) (t :: l) → Earliest c (etimerArm c s cur t a) l') := by
  have hnodes : nodes (requestPoll (timerArm c s t a)) = l := Good.nodes_eq h.linked
  unfold etimerArm addTimer
  dsimp only
  rw [hnodes]
  split
  · -- already on the list: only its fields change
    rename_i hmem
    have hon : ∀ u, u ∈ l ↔ u = t ∨ u ∈ l := fun u =>
      ⟨.inr, fun hu => hu.elim (fun he => he ▸ hmem.2) id⟩
    have hgood := h.arm hcur a h.linked hon
    refine ⟨l, updateTime_good hgood, hon, fun hside => updateTime_earliest hgood.linked hgood.sync ?_⟩
    exact hside.mono fun u hu => mem_cons_of_mem _ hu
  · -- off the list: it goes in front
    rename_i hoff
    have hout : t ∉ l := fun hmem => hoff ⟨h.owned t hmem, hmem⟩
    have hgood := h.arm hcur a (h.linked.push hout) fun u => mem_cons
    exact ⟨t :: l, updateTime_good hgood, fun u => mem_cons, updateTime_earliest hgood.linked hgood.sync⟩

theorem etimerAdjust_good (h : Good c s l) (t : Fin N) (d : Int) : Good c (etimerAdjust c s t d) l ∧ (SameSide c s.now
    (update s.due t (s.due t + d)) l → Earliest c (etimerAdjust c s t d) l) := by
  have hsync : ∀ u, update s.due t (s.due t + d) u % (2 ^ c.width : Nat) =
      ((update s.start t ((s.start t + d) % (2 ^ c.width : Nat)).toNat u : Nat) +
        (s.interval u : Nat) : Int) % (2 ^ c.width : Nat) := by
    intro u
    by_cases hu : u = t
    · subst hu
      have hnn : 0 ≤ (s.start u + d) % (2 ^ c.width : Nat) :=
        Int.emod_nonneg _ (by exact_mod_cast (Nat.two_pow_pos _).ne')
      rw [update_self, update_self, Int.toNat_of_nonneg hnn, Int.emod_add_emod,
        Int.add_emod, h.sync u, ← Int.add_emod]
      congr 1
      ring
    · rw [update_of_ne hu, update_of_ne hu]
      exact h.sync u
  have hgood : Good c { s with
      start := update s.start t ((s.start t + d) % (2 ^ c.width : Nat)).toNat
      due := update s.due t (s.due t + d) } l :=
    ⟨h.linked, h.owned, h.fresh, h.waits, h.once, h.kept, hsync⟩
  exact ⟨updateTime_good hgood, updateTime_earliest hgood.linked hgood.sync⟩

/-- The predecessor of a timer on the list, found by its pointer. -/
theorem find_pred (hl : Linked s.next s.timerlist l) (hhead : s.timerlist ≠ some t) : (l.find? fun u => s.next u ==
    some t) = none ∧ t ∉ l ∨ ∃ l₁ u l₂, (l.find? fun u => s.next u == some t) = some u ∧ l = l₁ ++ u :: t :: l₂ := by
  by_cases hmem : t ∈ l
  · right
    obtain ⟨l₁, l₂, rfl⟩ := append_of_mem hmem
    rcases eq_nil_or_concat l₁ with rfl | ⟨l₀, u, rfl⟩
    · exact absurd hl.1 hhead
    rw [concat_eq_append] at hl ⊢
    refine ⟨l₀, u, l₂, ?_, by simp⟩
    -- a node in front of the predecessor has its own successor, which is not `t`
    have hfront : ∀ (k : List (Fin N)) (h : Option (Fin N)), Linked s.next h (k ++ [u] ++ t :: l₂) →
        (k ++ [u] ++ t :: l₂).find? (fun u => s.next u == some t) = some u := by
      intro k
      induction k with
      | nil =>
        intro h hk
        have hu : s.next u = some t := hk.2.1
        simp [hu]
      | cons v k ih =>
        intro h hk
        have hne : s.next v ≠ some t := by
          intro hv
          have htail := hk.2
          rw [hv] at htail
          have hagain : Linked s.next (some t) (t :: l₂) :=
            ⟨rfl, Linked.tail (l := v :: k ++ [u]) (by simpa using hk)⟩
          have hlen := congrArg length (hagain.unique htail)
          simp at hlen
          omega
        have hrest := ih _ hk.2
        simp only [cons_append, find?_cons]
        rw [show (s.next v == some t) = false by simpa using hne]
        exact hrest
    exact hfront l₀ _ hl
  · left
    refine ⟨?_, hmem⟩
    rw [find?_eq_none]
    intro u hu hnext
    obtain ⟨l₁, l₂, rfl⟩ := append_of_mem hu
    have htail := hl.tail
    rw [beq_iff_eq.mp hnext] at htail
    cases l₂ with
    | nil => cases htail
    | cons v l₂ =>
      obtain rfl : t = v := Option.some.inj htail.1
      exact hmem (by simp)

/-- A timer leaves the list, stopped or posted once. -/
theorem Good.drop (h : Good c s l) {s' : State N P} (hl : Linked s'.next s'.timerlist l')
    (hmem : ∀ u, u ∈ l' ↔ u ∈ l ∧ u ≠ t)
    (hothers : ∀ u, u ≠ t → s'.p u = s.p u ∧ s'.posts u = s.posts u ∧ s'.waiting u = s.waiting u)
    (honce : s'.posts t ≤ 1) (hkept : s'.waiting t = true → s'.posts t = 1)
    (hsync : s'.due = s.due ∧ s'.start = s.start ∧ s'.interval = s.interval) : Good c s' l' := by
  obtain ⟨hdue, hstart, hinterval⟩ := hsync
  refine ⟨hl, ?_, ?_, ?_, ?_, ?_, ?_⟩
  · intro u hu
    obtain ⟨hu, hne⟩ := (hmem u).mp hu
    rw [(hothers u hne).1]; exact h.owned u hu
  · intro u hu
    obtain ⟨hu, hne⟩ := (hmem u).mp hu
    rw [(hothers u hne).2.1]; exact h.fresh u hu
  · intro u hu
    obtain ⟨hu, hne⟩ := (hmem u).mp hu
    rw [(hothers u hne).2.2]; exact h.waits u hu
  · intro u
    by_cases hut : u = t
    · subst hut; exact honce
    · rw [(hothers u hut).2.1]; exact h.once u
  · intro u hu
    by_cases hut : u = t
    · subst hut; exact .inr (hkept hu)
    · rw [(hothers u hut).2.2] at hu
      rw [(hothers u hut).2.1]
      rcases h.kept u hu with hu | hu
      · exact .inl ((hmem u).mpr ⟨hu, hut⟩)
      · exact .inr hu
  · intro u
    rw [hdue, hstart, hinterval]; exact h.sync u

theorem updateTime_eq (s : State N P) :
    updateTime c s = { s with nextExpiration := (updateTime c s).nextExpiration } := by
  unfold updateTime
  split <;> rfl

/-- What matters to the cached minimum is the cache and when the timers are due. -/
theorem Earliest.congr {s' : State N P} (h : Earliest c s l)
    (hcache : s'.nextExpiration = s.nextExpiration) (hdue : s'.due = s.due) : Earliest c s' l := by
  unfold Earliest at h ⊢
  rw [hcache, hdue]
  exact h

theorem mem_without (l₁ l₂ : List (Fin N)) (hnodup : (l₁ ++ t :: l₂).Nodup) (u : Fin N) :
    u ∈ l₁ ++ l₂ ↔ u ∈ l₁ ++ t :: l₂ ∧ u ≠ t := by
  have hout : t ∉ l₁ ++ l₂ := by
    rw [nodup_middle] at hnodup
    exact (nodup_cons.mp hnodup).1
  constructor
  · intro hu
    refine ⟨?_, ?_⟩
    · rcases mem_append.mp hu with hu | hu
      · exact mem_append_left _ hu
      · exact mem_append_right _ (mem_cons_of_mem _ hu)
    · rintro rfl
      exact hout hu
  · rintro ⟨hu, hne⟩
    rcases mem_append.mp hu with hu | hu
    · exact mem_append_left _ hu
    · exact mem_append_right _ ((mem_cons.mp hu).resolve_left hne)

/-- Stopping a timer takes it off the list. -/
theorem etimerStop_good (h : Good c s l) (t : Fin N) :
    ∃ l',
      Good c (etimerStop c s t) l' ∧
      (∀ u, u ∈ l' ↔ u ∈ l ∧ u ≠ t) ∧
      (t ∈ l → SameSide c s.now s.due l' → Earliest c (etimerStop c s t) l') ∧
      (t ∉ l → l' = l ∧ (etimerStop c s t).nextExpiration = s.nextExpiration ∧ (etimerStop c s t).due = s.due) := by
  -- `m` and `hd` are the pointers behind the removal, `x` the refreshed cache
  have hgood : ∀ {m : Fin N → Option (Fin N)} {hd : Option (Fin N)} {x : Nat} {l' : List (Fin N)},
      Linked m hd l' → (∀ u, u ∈ l' ↔ u ∈ l ∧ u ≠ t) →
      Good c { s with
        next := update m t none, timerlist := hd, nextExpiration := x
        p := update s.p t none, waiting := update s.waiting t false } l' := by
    intro m hd x l' hl hmem
    have hout : t ∉ l' := fun ht => ((hmem t).mp ht).2 rfl
    refine h.drop (hl.update_off hout none) hmem ?_ (h.once t) ?_ ⟨rfl, rfl, rfl⟩
    · intro u hu
      exact ⟨update_of_ne hu _ _, rfl, update_of_ne hu _ _⟩
    · intro hw
      simp at hw
  unfold etimerStop
  rw [Good.nodes_eq h.linked]
  split
  next hhead =>
    cases l with
    | nil => rw [h.linked] at hhead; cases hhead
    | cons v l₂ =>
      obtain rfl : v = t := Option.some.inj (h.linked.1.symm.trans hhead)
      have hl : Linked s.next (s.next v) l₂ := h.linked.2
      have hmem := mem_without [] l₂ h.linked.nodup
      refine ⟨l₂, ?_, hmem, ?_, fun hout => absurd (mem_cons_self ..) hout⟩
      · rw [updateTime_eq]; exact hgood hl hmem
      · intro _ hside
        have hs : Linked ({ s with timerlist := s.next v } : State N P).next _ l₂ := hl
        exact (updateTime_earliest hs h.sync hside).congr rfl (by rw [updateTime_eq])
  next hhead =>
    rcases find_pred h.linked hhead with ⟨hnone, hout⟩ | ⟨l₁, u, l₂, hsome, rfl⟩
    · rw [hnone]
      refine ⟨l, ?_, fun u => ⟨fun hu => ⟨hu, ?_⟩, And.left⟩, fun hmem => absurd hmem hout, fun _ => ⟨rfl, rfl, rfl⟩⟩
      · exact hgood h.linked fun u => ⟨fun hu => ⟨hu, fun he => hout (he ▸ hu)⟩, And.left⟩
      · rintro rfl
        exact hout hu
    · rw [hsome]
      dsimp only
      have hl := h.linked.unlink
      have hmem : ∀ v, v ∈ l₁ ++ u :: l₂ ↔ v ∈ l₁ ++ u :: t :: l₂ ∧ v ≠ t := by
        have h' := mem_without (t := t) (l₁ ++ [u]) l₂ (by simpa using h.linked.nodup)
        simpa using h'
      refine ⟨l₁ ++ u :: l₂, ?_, hmem, ?_, fun hout => absurd (by simp) hout⟩
      · rw [updateTime_eq]; exact hgood hl hmem
      · intro _ hside
        have hs : Linked ({ s with next := update s.next u (s.next t) } : State N P).next
            s.timerlist (l₁ ++ u :: l₂) := hl
        exact (updateTime_earliest hs h.sync hside).congr rfl (by rw [updateTime_eq])

end Calls

/-! ### Polling -/

section Polls

variable {s : State N P} {l : List (Fin N)}

/-- The scan stops at the first expired timer when there is room for its event, and else finds out
    whether a post failed. -/
theorem scan_spec (s : State N P) : ∀ (l : List (Fin N)) (u : Option (Fin N)),
    (∃ l₁ t l₂, l = l₁ ++ t :: l₂ ∧ (∀ v ∈ l₁, timerExpired c s v = false) ∧
      timerExpired c s t = true ∧ room c s = true ∧
      scan c s u l = (false, some (l₁.getLast?.or u, t))) ∨
    (scan c s u l = (l.any (timerExpired c s), none) ∧ (room c s = true → ∀ v ∈ l, timerExpired c s v = false))
  | [], u => .inr ⟨rfl, nofun⟩
  | t :: rest, u => by
    rw [scan, any_cons]
    cases hx : timerExpired c s t with
    | true =>
      rw [if_pos rfl]
      cases hr : room c s with
      | true =>
        exact .inl ⟨[], t, rest, rfl, by simp, hx, rfl, rfl⟩
      | false =>
        right
        refine ⟨?_, nofun⟩
        rcases scan_spec s rest (some t) with ⟨_, _, _, _, _, _, hroom, _⟩ | ⟨hscan, -⟩
        · rw [hr] at hroom; cases hroom
        · rw [hscan]; rfl
    | false =>
      rw [if_neg Bool.false_ne_true]
      rcases scan_spec s rest (some t) with ⟨l₁, v, l₂, rfl, hl₁, hv, hroom, hscan⟩ | ⟨hscan, hnone⟩
      · left
        refine ⟨t :: l₁, v, l₂, rfl, ?_, hv, hroom, ?_⟩
        · intro w hw
          rcases mem_cons.mp hw with rfl | hw
          · exact hx
          · exact hl₁ w hw
        · rw [hscan, getLast?_cons]
          cases l₁.getLast? <;> rfl
      · refine .inr ⟨by rw [hscan, Bool.false_or], fun hroom v hv => ?_⟩
        rcases mem_cons.mp hv with rfl | hv
        · exact hx
        · exact hnone hroom v hv

theorem postAndUnlink_good {l₁ l₂ : List (Fin N)} {t : Fin N} (h : Good c s (l₁ ++ t :: l₂)) :
    Good c (postAndUnlink c s (l₁.getLast?.or none) t) (l₁ ++ l₂) ∧
    (SameSide c s.now s.due (l₁ ++ l₂) → Earliest c (postAndUnlink c s (l₁.getLast?.or none) t) (l₁ ++ l₂)) := by
  have hmem := mem_without l₁ l₂ h.linked.nodup
  have hout : t ∉ l₁ ++ l₂ := fun ht => ((hmem t).mp ht).2 rfl
  have hposts : s.posts t = 0 := h.fresh t (by simp)
  have hgood : ∀ {m : Fin N → Option (Fin N)} {hd : Option (Fin N)}, Linked m hd (l₁ ++ l₂) → Good c { s with
        queue := s.queue ++ [Queued.timer (s.p t) t]
        p := update s.p t none
        posts := update s.posts t (s.posts t + 1)
        timerlist := hd
        next := update m t none } (l₁ ++ l₂) := by
    intro m hd hl
    refine h.drop (hl.update_off hout none) hmem ?_ ?_ ?_ ⟨rfl, rfl, rfl⟩
    · intro u hu
      exact ⟨update_of_ne hu _ _, update_of_ne hu _ _, rfl⟩
    · dsimp only; rw [update_self, hposts]
    · intro _
      dsimp only; rw [update_self, hposts]
  rcases eq_nil_or_concat l₁ with rfl | ⟨l₀, u, rfl⟩
  · have hg := hgood (show Linked s.next (s.next t) ([] ++ l₂) from h.linked.2)
    exact ⟨updateTime_good hg, updateTime_earliest hg.linked hg.sync⟩
  · have hl : Linked (update s.next u (s.next t)) s.timerlist (l₀ ++ u :: l₂) :=
      Linked.unlink (by simpa using h.linked)
    rw [concat_eq_append, append_assoc, singleton_append] at hgood ⊢
    have hg := hgood hl
    have hlast : (l₀ ++ [u]).getLast?.or none = some u := by simp
    rw [hlast]
    exact ⟨updateTime_good hg, updateTime_earliest hg.linked hg.sync⟩

theorem leftOver_skip (x : Fin N → Bool) (k : Nat) : ∀ {l₁ : List (Fin N)} (l₂ : List (Fin N)),
    (∀ v ∈ l₁, x v = false) → leftOver x k (l₁ ++ l₂) = l₁ ++ leftOver x k l₂
  | [], _, _ => rfl
  | v :: l₁, l₂, h => by
    have hv := h v (mem_cons_self ..)
    have ih := leftOver_skip x k l₂ fun w hw => h w (mem_cons_of_mem _ hw)
    cases k with
    | zero =>
      cases l₂ <;> rfl
    | succ k =>
      rw [cons_append, leftOver, hv, if_neg Bool.false_ne_true, ih, cons_append]

theorem length_leftOver_le (x : Fin N → Bool) : ∀ (k : Nat) (l : List (Fin N)), (leftOver x k l).length ≤ l.length
  | _, [] => by simp [leftOver]
  | 0, t :: l => le_refl _
  | k + 1, t :: l => by
    rw [leftOver]
    split
    · exact le_trans (length_leftOver_le x k l) (Nat.le_succ _)
    · exact Nat.succ_le_succ (length_leftOver_le x (k + 1) l)

theorem leftOver_subset (x : Fin N → Bool) : ∀ (k : Nat) (l : List (Fin N)), ∀ {t : Fin N}, t ∈ leftOver x k l → t ∈ l
  | _, [], _, h => by simp [leftOver] at h
  | 0, _ :: _, _, h => h
  | k + 1, u :: l, t, h => by
    rw [leftOver] at h
    split at h
    · exact mem_cons_of_mem _ (leftOver_subset x k l h)
    · rcases mem_cons.mp h with rfl | h
      · exact mem_cons_self ..
      · exact mem_cons_of_mem _ (leftOver_subset x (k + 1) l h)

/-- What a poll does, to a list of timers that the pointers run through. -/
structure Polled (c : Platform) (s s' : State N P) (l l' : List (Fin N)) : Prop where
  good : Good c s' l'
  times : s'.now = s.now ∧ s'.due = s.due ∧ s'.start = s.start ∧ s'.interval = s.interval
  cache : l' = l → s'.nextExpiration = s.nextExpiration
  earliest : l' ≠ l → SameSide c s.now s.due l' → Earliest c s' l'
  again : ∀ t ∈ l', timerExpired c s t = true → s'.needspoll = true
  posted : ∃ ts : List (Fin N), s'.queue = s.queue ++ ts.map (fun t => Queued.timer (s.p t) t) ∧
    (∀ t ∈ ts, t ∈ l ∧ timerExpired c s t = true) ∧ (∀ t ∈ l, t ∈ ts ∨ t ∈ l') ∧
    ∀ t, t ∈ ts ∧ s'.p t = none ∧ s'.posts t = 1 ∨ t ∉ ts ∧ s'.p t = s.p t ∧ s'.posts t = s.posts t
  waiting : s'.waiting = s.waiting

/-- Everything else a posted timer leaves as it is. -/
theorem postAndUnlink_fields (s : State N P) (u : Option (Fin N)) (t : Fin N) :
    let s₁ := postAndUnlink c s u t
    (s₁.now = s.now ∧ s₁.due = s.due ∧ s₁.start = s.start ∧ s₁.interval = s.interval) ∧
      s₁.queue = s.queue ++ [Queued.timer (s.p t) t] ∧ s₁.p = update s.p t none ∧
      s₁.posts = update s.posts t (s.posts t + 1) ∧ s₁.waiting = s.waiting := by
  unfold postAndUnlink
  cases u <;> (rw [updateTime_eq]; exact ⟨⟨rfl, rfl, rfl, rfl⟩, rfl, rfl, rfl, rfl⟩)

variable {s' : State N P}

theorem timerExpired_congr {s : State N P} (hnow : s'.now = s.now) (hstart : s'.start = s.start)
    (hinterval : s'.interval = s.interval) : timerExpired c s' = timerExpired c s := by
  funext v
  unfold timerExpired clockTime
  rw [hnow, hstart, hinterval]

/-- The last turn: no timer is posted, and where a post failed another poll is requested. -/
theorem polled_none (h : Good c s l) (hs' : s' = requestPoll s ∨ s' = s)
    (hagain : ∀ t ∈ l, timerExpired c s t = true → s'.needspoll = true) : Polled c s s' l l := by
  have hsame : s' = { s with needspoll := s'.needspoll } := by
    rcases hs' with rfl | rfl <;> rfl
  have hgood : Good c s' l := by
    rw [hsame]
    exact ⟨h.linked, h.owned, h.fresh, h.waits, h.once, h.kept, h.sync⟩
  refine ⟨hgood, ?_, ?_, fun hne => absurd rfl hne, hagain, ⟨[], ?_, by simp, ?_, ?_⟩, ?_⟩
  · rw [hsame]; exact ⟨rfl, rfl, rfl, rfl⟩
  · intro _; rw [hsame]
  · rw [hsame]; simp
  · exact fun t ht => .inr ht
  · intro t; right; rw [hsame]; exact ⟨by simp, rfl, rfl⟩
  · rw [hsame]

theorem Polled.post {l₁ l₂ l' : List (Fin N)} {t : Fin N} (h : Good c s (l₁ ++ t :: l₂))
    (ht : timerExpired c s t = true) (hne : l' ≠ l₁ ++ t :: l₂)
    (ih : Polled c (postAndUnlink c s (l₁.getLast?.or none) t) s' (l₁ ++ l₂) l') :
    Polled c s s' (l₁ ++ t :: l₂) l' := by
  obtain ⟨-, hearly⟩ := postAndUnlink_good h
  obtain ⟨⟨hnow, hdue, hstart, hinterval⟩, hqueue, hp, hposts, hwaiting⟩ :=
    @postAndUnlink_fields N P c s (l₁.getLast?.or none) t
  set s₁ := postAndUnlink c s (l₁.getLast?.or none) t with hs₁
  have hexp : timerExpired c s₁ = timerExpired c s := timerExpired_congr hnow hstart hinterval
  have hmem := mem_without l₁ l₂ h.linked.nodup
  have hout : t ∉ l₁ ++ l₂ := fun hin => ((hmem t).mp hin).2 rfl
  obtain ⟨h1, h2, h3, h4⟩ := ih.times
  obtain ⟨ts, hts, hexpired, hcover, hfate⟩ := ih.posted
  have hfresh : t ∉ ts := fun hin => hout (hexpired t hin).1
  refine ⟨ih.good, ⟨h1.trans hnow, h2.trans hdue, h3.trans hstart, h4.trans hinterval⟩,
    fun heq => absurd heq hne, ?_, ?_, ⟨t :: ts, ?_, ?_, ?_, ?_⟩, ih.waiting.trans hwaiting⟩
  · intro _ hside
    by_cases hmore : l' = l₁ ++ l₂
    · rw [hmore] at hside ⊢
      exact (hearly hside).congr (ih.cache hmore) h2
    · exact ih.earliest hmore (by rw [hnow, hdue]; exact hside)
  · intro v hv hx
    exact ih.again v hv (by rw [hexp]; exact hx)
  · rw [hts, hqueue, append_assoc, map_cons, singleton_append]
    congr 2
    refine map_congr_left fun v hv => ?_
    have hvt : v ≠ t := by
      rintro rfl
      exact hfresh hv
    rw [hp, update_of_ne hvt]
  · intro v hv
    rcases mem_cons.mp hv with rfl | hv
    · exact ⟨by simp, ht⟩
    · obtain ⟨hin, hx⟩ := hexpired v hv
      exact ⟨((hmem v).mp hin).1, by rw [← hexp]; exact hx⟩
  · intro v hv
    by_cases hvt : v = t
    · exact .inl (hvt ▸ mem_cons_self ..)
    · rcases hcover v ((hmem v).mpr ⟨hv, hvt⟩) with hv | hv
      · exact .inl (mem_cons_of_mem _ hv)
      · exact .inr hv
  · intro v
    by_cases hvt : v = t
    · subst hvt
      rcases hfate v with ⟨hv, -⟩ | ⟨-, hpv, hpostv⟩
      · exact absurd hv hfresh
      · rw [hp, update_self] at hpv
        rw [hposts, update_self, h.fresh v (by simp)] at hpostv
        exact .inl ⟨mem_cons_self .., hpv, hpostv⟩
    · rcases hfate v with ⟨hv, hpv⟩ | ⟨hv, hpv, hpostv⟩
      · exact .inl ⟨mem_cons_of_mem _ hv, hpv⟩
      · rw [hp, update_of_ne hvt] at hpv
        rw [hposts, update_of_ne hvt] at hpostv
        refine .inr ⟨fun hin => ?_, hpv, hpostv⟩
        exact (mem_cons.mp hin).elim hvt hv

/-- LOOP: the expired timers are posted in the order of the list, as many as the queue takes. -/
theorem pollLoop_spec : ∀ {fuel : Nat} {s : State N P} {l : List (Fin N)}, Good c s l → l.length < fuel →
      Polled c s (pollLoop c fuel s) l (leftOver (timerExpired c s) (c.numEvents - s.queue.length) l)
  | 0, _, _, _, hf => absurd hf (Nat.not_lt_zero _)
  | fuel + 1, s, l, h, hf => by
    rw [pollLoop, Good.nodes_eq h.linked]
    rcases scan_spec (c := c) s l none with
      ⟨l₁, t, l₂, rfl, hl₁, ht, hroom, hscan⟩ | ⟨hscan, hnone⟩
    · rw [hscan]
      dsimp only
      obtain ⟨hgood, -⟩ := postAndUnlink_good h
      obtain ⟨⟨hnow, -, hstart, hinterval⟩, hqueue, -⟩ := @postAndUnlink_fields N P c s (l₁.getLast?.or none) t
      -- one timer and one free place less
      have hk : c.numEvents - s.queue.length =
          c.numEvents - (postAndUnlink c s (l₁.getLast?.or none) t).queue.length + 1 := by
        simp only [room, decide_eq_true_eq] at hroom
        rw [hqueue, length_append, length_singleton]
        omega
      have hlen : (l₁ ++ l₂).length < fuel := by
        simp only [length_append, length_cons] at hf ⊢
        omega
      have ih := pollLoop_spec hgood hlen
      have hleft : leftOver (timerExpired c s) (c.numEvents - s.queue.length) (l₁ ++ t :: l₂) =
          leftOver (timerExpired c (postAndUnlink c s (l₁.getLast?.or none) t))
            (c.numEvents - (postAndUnlink c s (l₁.getLast?.or none) t).queue.length)
            (l₁ ++ l₂) := by
        rw [hk, timerExpired_congr hnow hstart hinterval, leftOver_skip _ _ _ hl₁,
          leftOver_skip _ _ _ hl₁, leftOver, if_pos ht]
      rw [hleft]
      refine ih.post h ht fun heq => ?_
      have hle := length_leftOver_le (timerExpired c (postAndUnlink c s (l₁.getLast?.or none) t))
        (c.numEvents - (postAndUnlink c s (l₁.getLast?.or none) t).queue.length) (l₁ ++ l₂)
      rw [heq] at hle
      simp only [length_append, length_cons] at hle
      omega
    · rw [hscan]
      have hleft : leftOver (timerExpired c s) (c.numEvents - s.queue.length) l = l := by
        cases hr : room c s with
        | true =>
          have hskip := leftOver_skip (timerExpired c s) (c.numEvents - s.queue.length) [] (hnone hr)
          rw [append_nil] at hskip
          rw [hskip]
          simp [leftOver]
        | false =>
          simp only [room, decide_eq_false_iff_not, not_lt] at hr
          rw [Nat.sub_eq_zero_of_le hr]
          cases l <;> rfl
      rw [hleft]
      cases hany : l.any (timerExpired c s) with
      | true => exact polled_none h (.inl rfl) fun _ _ _ => rfl
      | false =>
        refine polled_none h (.inr rfl) fun t ht hx => ?_
        rw [any_eq_false] at hany
        exact absurd hx (hany t ht)

/-- A poll, from the request cleared to the loop's end. -/
theorem poll_spec (h : Good c s l) :
    Polled c s (poll c s) l (leftOver (timerExpired c s) (c.numEvents - s.queue.length) l) := by
  have hclear : Good c { s with needspoll := false } l :=
    ⟨h.linked, h.owned, h.fresh, h.waits, h.once, h.kept, h.sync⟩
  have hlen : l.length ≤ N := by simpa using h.linked.nodup.length_le_card
  have hloop := pollLoop_spec hclear (Nat.lt_succ_of_le hlen)
  exact ⟨hloop.good, hloop.times, hloop.cache, hloop.earliest, hloop.again, hloop.posted, hloop.waiting⟩

end Polls

/-- The timers of the process leave the list; the cache stays as it was. -/
theorem exited_good [DecidableEq P] (h : Good c s l) (q : P) : Good c (exited s q) (l.filter fun t
    => !decide (s.p t = some q)) ∧ (exited s q).nextExpiration = s.nextExpiration ∧ (exited s q).due = s.due := by
  set gone : Fin N → Bool := fun t => decide (s.p t = some q) with hgone
  have hlen : l.length ≤ N := by simpa using h.linked.nodup.length_le_card
  have hdrop : Linked s.next (dropHead s.next gone N s.timerlist) (l.dropWhile gone) := h.linked.dropHead hlen
  have hfront : (l.takeWhile gone).filter (fun t => !gone t) = [] := by
    rw [filter_eq_nil_iff]
    intro t ht
    simpa using all_eq_true.mp all_takeWhile t ht
  have hfilter : (l.dropWhile gone).filter (fun t => !gone t) = l.filter fun t => !gone t := by
    conv_rhs => rw [← takeWhile_append_dropWhile (p := gone) (l := l), filter_append, hfront, nil_append]
  have hkeep : ∀ {m : Fin N → Option (Fin N)} {hd : Option (Fin N)}, Linked m hd (l.filter fun t => !gone t) →
      Good c { s with next := m, timerlist := hd, waiting := fun t => s.waiting t && !gone t }
        (l.filter fun t => !gone t) := by
    intro m hd hl
    refine ⟨hl, ?_, ?_, ?_, h.once, ?_, h.sync⟩
    · intro t ht; exact h.owned t (mem_of_mem_filter ht)
    · intro t ht; exact h.fresh t (mem_of_mem_filter ht)
    · intro t ht
      rw [mem_filter] at ht
      simp [h.waits t ht.1, ht.2]
    · intro t ht
      rw [Bool.and_eq_true] at ht
      rcases h.kept t ht.1 with hmem | hposts
      · exact .inl (mem_filter.mpr ⟨hmem, ht.2⟩)
      · exact .inr hposts
  unfold exited
  dsimp only
  cases hhead : dropHead s.next gone N s.timerlist with
  | none =>
    rw [hhead] at hdrop
    have hnil : l.dropWhile gone = [] := hdrop.unique (show Linked s.next none [] from rfl)
    refine ⟨?_, rfl, rfl⟩
    rw [hnil] at hfilter
    exact hkeep (by rw [← hfilter]; rfl)
  | some t =>
    rw [hhead] at hdrop
    obtain ⟨l₂, hl₂⟩ : ∃ l₂, l.dropWhile gone = t :: l₂ := by
      cases hl : l.dropWhile gone with
      | nil => rw [hl] at hdrop; cases hdrop
      | cons u l₂ =>
        rw [hl] at hdrop
        exact ⟨l₂, by rw [Option.some.inj hdrop.1]⟩
    rw [hl₂] at hdrop hfilter
    have hlen₂ : l₂.length ≤ N := by
      have := (dropWhile_sublist gone (l := l)).length_le
      rw [hl₂, length_cons] at this
      omega
    have hstay : gone t = false := by
      have := head?_dropWhile_not gone l
      rw [hl₂] at this
      simpa using this
    rw [filter_cons_of_pos (by simp [hstay])] at hfilter
    refine ⟨hkeep ?_, rfl, rfl⟩
    rw [← hfilter]
    exact (hdrop.skipGone gone hlen₂).1

/-! ### Runs -/

/-- The start: an empty list and a cache of `0`. -/
theorem Fresh.good (h : Fresh s) : Good c s [] := by
  refine ⟨h.timerlist, by simp, by simp, by simp, fun t => by rw [h.posts t]; exact Nat.zero_le 1, ?_,
    fun t => by rw [h.due t]⟩
  intro t ht
  rw [h.waiting t] at ht
  cases ht

theorem OneSide.inProcess {e : Event N P} (h : OneSide c s e) : InProcess s e := by
  cases e with
  | arm => exact h.1
  | _ => trivial

section Runs

variable [DecidableEq P] {s s' s₀ : State N P} {l : List (Fin N)}

/-- STEP: what is armed from inside a process keeps the list, and on one side of now the cache. -/
theorem step_good {e : Event N P} (h : Good c s l) (hin : InProcess s e) (hs : step c s e = some s') : ∃ l', Good c s'
    l' ∧ (OneSide c s e → Earliest c s l → Earliest c s' l') := by
  have hnodes := Good.nodes_eq h.linked
  cases e with
  | arm cur t a =>
    rw [step] at hs
    cases hs
    obtain ⟨l', hgood, -, hearly⟩ := etimerArm_good h hin t a
    exact ⟨l', hgood, fun hone _ => hearly (hnodes ▸ hone.2)⟩
  | adjust t d =>
    rw [step] at hs
    cases hs
    obtain ⟨hgood, hearly⟩ := etimerAdjust_good h t d
    exact ⟨l, hgood, fun hone _ => hearly (hnodes ▸ hone)⟩
  | stop t =>
    rw [step] at hs
    cases hs
    obtain ⟨l', hgood, hmem, hearly, hoff⟩ := etimerStop_good h t
    refine ⟨l', hgood, fun hone hcache => ?_⟩
    by_cases ht : t ∈ l
    · refine hearly ht ((hone (hnodes ▸ ht)).mono fun u hu => ?_)
      rw [hnodes, h.linked.nodup.mem_erase_iff]
      exact ⟨((hmem u).mp hu).2, ((hmem u).mp hu).1⟩
    · obtain ⟨rfl, hnext, hdue⟩ := hoff ht
      exact hcache.congr hnext hdue
  | poll =>
    rw [step] at hs
    cases hs
    have hpolled := poll_spec h
    refine ⟨_, hpolled.good, fun hone hcache => ?_⟩
    unfold OneSide at hone
    rw [hnodes] at hone
    by_cases hsame : leftOver (timerExpired c s) (c.numEvents - s.queue.length) l = l
    · have hcong := hcache.congr (hpolled.cache hsame) hpolled.times.2.1
      rw [hsame]
      exact hcong
    · exact hpolled.earliest hsame (hone.resolve_left hsame)
  | exited q =>
    rw [step] at hs
    cases hs
    obtain ⟨hgood, hnext, hdue⟩ := exited_good h q
    refine ⟨_, hgood, fun hone hcache => ?_⟩
    unfold OneSide at hone
    rw [hnodes] at hone
    rcases hone with hnone | ⟨t, ht, hstay, hmin⟩
    · have hall : (l.filter fun t => !decide (s.p t = some q)) = l := by
        rw [filter_eq_self]
        intro t ht
        simpa using hnone t ht
      rw [hall]
      exact hcache.congr hnext hdue
    · have hmem : t ∈ l.filter fun t => !decide (s.p t = some q) := by
        rw [mem_filter]
        exact ⟨ht, by simpa using hstay⟩
      refine ⟨fun hnil => ?_, fun _ => ⟨t, hmem, fun u hu => ?_, ?_⟩⟩
      · rw [hnil] at hmem; cases hmem
      · rw [hdue]; exact hmin u (mem_of_mem_filter hu)
      · obtain ⟨u, hu, humin, hcacheu⟩ := hcache.2 (ne_nil_of_mem ht)
        rw [hnext, hdue, hcacheu, le_antisymm (humin t ht) (hmin u hu)]
  | tick d =>
    rw [step] at hs
    cases hs
    exact ⟨l, ⟨h.linked, h.owned, h.fresh, h.waits, h.once, h.kept, h.sync⟩, fun _ hcache => hcache.congr rfl rfl⟩
  | post =>
    rw [step] at hs
    cases hs
    refine ⟨l, ?_, fun _ hcache => ?_⟩
    · split
      · exact ⟨h.linked, h.owned, h.fresh, h.waits, h.once, h.kept, h.sync⟩
      · exact h
    · split
      · exact hcache.congr rfl rfl
      · exact hcache
  | deliver =>
    rw [step] at hs
    cases hs
    exact ⟨l, ⟨h.linked, h.owned, h.fresh, h.waits, h.once, h.kept, h.sync⟩, fun _ hcache => hcache.congr rfl rfl⟩

variable {es : List (Event N P)}

/-- RUN: the list is there behind every run. -/
theorem Good.run (hrun : Run (step c) InProcess s₀ es s)
    (h : ∃ l, Good c s₀ l) : ∃ l, Good c s l := by
  refine hrun.invariant (P := fun s => ∃ l, Good c s l) ?_ h
  rintro s e t ⟨l, hl⟩ hok hst
  obtain ⟨l', hl', -⟩ := step_good hl hok hst
  exact ⟨l', hl'⟩

/-- RUN: and on one side of now, the cache with it. -/
theorem Earliest.run (hrun : Run (step c) (OneSide c) s₀ es s)
    (h : ∃ l, Good c s₀ l ∧ Earliest c s₀ l) : ∃ l, Good c s l ∧ Earliest c s l := by
  refine hrun.invariant (P := fun s => ∃ l, Good c s l ∧ Earliest c s l) ?_ h
  rintro s e t ⟨l, hl, hcache⟩ hok hst
  obtain ⟨l', hl', hkeep⟩ := step_good hl hok.inProcess hst
  exact ⟨l', hl', hkeep hok hcache⟩

/-- EVENT TIMERS OVER RUNS: with every timer armed from inside a process, the list is acyclic and free of duplicates,
    all timers on it have a process, every arming leads to at most one event and none is lost when a post fails. With
    all timers that a call leaves pending on one side of now, `next_expiration` is the earliest of theirs. -/
theorem etimers_over_runs (c : Platform) (hfresh : Fresh s₀) (hrun : Run (step c) InProcess s₀ es s) :
    (Linked s.next s.timerlist (nodes s) ∧ (nodes s).Nodup ∧ ∀ t ∈ nodes s, s.p t ≠ none) ∧
    (∀ t, s.posts t ≤ 1 ∧ (s.waiting t = true → t ∈ nodes s ∧ s.posts t = 0 ∨ t ∉ nodes s ∧ s.posts t = 1)) ∧
    (∀ t ∈ nodes s, timerExpired c s t = true →
       t ∈ nodes (poll c s) ∧ (poll c s).needspoll = true ∨
       t ∉ nodes (poll c s) ∧ Queued.timer (s.p t) t ∈ (poll c s).queue) ∧
    (Run (step c) (OneSide c) s₀ es s → Earliest c s (nodes s)) := by
  obtain ⟨l, h⟩ := Good.run hrun ⟨[], hfresh.good⟩
  have hnodes := Good.nodes_eq h.linked
  rw [hnodes]
  refine ⟨⟨h.linked, h.linked.nodup, h.owned⟩, fun t => ⟨h.once t, fun hw => ?_⟩, ?_, ?_⟩
  · rcases h.kept t hw with hmem | hposts
    · exact .inl ⟨hmem, h.fresh t hmem⟩
    · refine .inr ⟨fun hmem => ?_, hposts⟩
      rw [h.fresh t hmem] at hposts
      cases hposts
  · intro t ht hx
    have hpolled := poll_spec h
    rw [Good.nodes_eq hpolled.good.linked]
    obtain ⟨ts, hqueue, -, hcover, hfate⟩ := hpolled.posted
    rcases hcover t ht with hts | hleft
    · right
      refine ⟨fun hmem => ?_, by rw [hqueue]; exact mem_append_right _ (mem_map_of_mem hts)⟩
      rcases hfate t with ⟨-, -, hone⟩ | ⟨hnot, -⟩
      · rw [hpolled.good.fresh t hmem] at hone
        cases hone
      · exact hnot hts
    · exact .inl ⟨hleft, hpolled.again t hleft hx⟩
  · intro hone
    have hstart : Earliest c s₀ [] := ⟨fun _ => hfresh.nextExpiration, fun hne => absurd rfl hne⟩
    obtain ⟨l', h', hcache⟩ := Earliest.run hone ⟨[], hfresh.good, hstart⟩
    obtain rfl : l' = l := h'.linked.unique h.linked
    exact hcache

end Runs

/-- Two etimers of one process, a 16-bit clock and a queue of one event. -/
def smallPlatform : Platform := ⟨16, 1⟩

def twoTimers : State 2 Unit where
  now := 0
  start _ := 0
  interval _ := 0
  next _ := none
  p _ := none
  timerlist := none
  nextExpiration := 0
  needspoll := false
  queue := []
  due _ := 0
  posts _ := 0
  waiting _ := false

theorem twoTimers_fresh : Fresh twoTimers := ⟨rfl, rfl, fun _ => rfl, fun _ => rfl, fun _ => rfl⟩

/-- Both timers expire, the queue takes one event, and the other timer waits for the next poll. -/
def pollTwice : List (Event 2 Unit) :=
  [.arm (some ()) ⟨0, Nat.two_pos⟩ (.set 10), .arm (some ()) ⟨1, Nat.one_lt_two⟩ (.set 20), .tick 30, .poll, .deliver]

theorem etimers_over_runs_at_pollTwice : ∃ s, Run (step smallPlatform) (OneSide smallPlatform) twoTimers pollTwice s ∧
    Earliest smallPlatform s (nodes s) ∧ nodes s = [0] ∧ Queued.timer (some ()) 0 ∈ (poll smallPlatform s).queue := by
  have hcheck : ∀ (s : State 2 Unit) (e : Event 2 Unit), (match e with
      | .arm cur t a => decide (cur ≠ none ∧ ∀ u ∈ t :: nodes s,
          (s.now : Int) ≤ update s.due t (rearm smallPlatform s t a).2.2 u ∧
            update s.due t (rearm smallPlatform s t a).2.2 u < s.now + (2 ^ 16 : Nat))
      | .poll => decide (∀ u ∈ leftOver (timerExpired smallPlatform s) (1 - s.queue.length) (nodes s),
          (s.now : Int) - (2 ^ 16 : Nat) ≤ s.due u ∧ s.due u < s.now)
      | .tick _ | .deliver => true
      | _ => false) = true → OneSide smallPlatform s e := by
    intro s e h
    cases e with
    | arm cur t a =>
      have h' := of_decide_eq_true h
      exact ⟨h'.1, .inl h'.2⟩
    | poll => exact .inr (.inr (of_decide_eq_true h))
    | tick | deliver => trivial
    | adjust | stop | exited | post => cases h
  obtain ⟨s, hone, hs⟩ : ∃ s, Run (step smallPlatform) (OneSide smallPlatform) twoTimers pollTwice s ∧ _ :=
    exists_run _ (fun s => decide (nodes s = [0] ∧
      Queued.timer (some ()) 0 ∈ (poll smallPlatform s).queue)) hcheck (by decide)
  have hrun := hone.weaken fun _ _ h => h.inProcess
  obtain ⟨-, -, -, hcache⟩ := etimers_over_runs smallPlatform twoTimers_fresh hrun
  exact ⟨s, hone, hcache hone, of_decide_eq_true hs⟩

/-- Whether a step is in a process, for concrete runs. -/
def inProcess (_ : State N P) : Event N P → Bool
  | .arm cur _ _ => cur.isSome
  | _ => true

/-- A timer is set while another one has expired and waits for its poll: `next_expiration` is the time
    of the new one, which is later. -/
theorem expired_timer_not_earliest :
    ∃ s,
      Run (step smallPlatform) InProcess twoTimers [.arm (some ()) 0 (.set 10), .tick 11, .arm (some ()) 1 (.set 100)]
        s ∧
      nodes s = [1, 0] ∧
      s.due 0 = 10 ∧
      s.nextExpiration = 111 ∧
      ¬ Earliest smallPlatform s (nodes s) := by
  have hcheck : ∀ (s : State 2 Unit) (e : Event 2 Unit), inProcess s e = true → InProcess s e := by
    intro s e h
    cases e with
    | arm cur t a => exact Option.isSome_iff_ne_none.mp h
    | _ => trivial
  obtain ⟨s, hrun, hs⟩ : ∃ s, Run (step smallPlatform) InProcess twoTimers
      [.arm (some ()) 0 (.set 10), .tick 11, .arm (some ()) 1 (.set 100)] s ∧ _ :=
    exists_run _ (fun s => decide (nodes s = [1, 0] ∧ s.due 0 = 10 ∧ s.due 1 = 111 ∧
      s.nextExpiration = 111)) hcheck (by decide)
  obtain ⟨hnodes, h0, h1, hnext⟩ := of_decide_eq_true hs
  refine ⟨s, hrun, hnodes, h0, hnext, ?_⟩
  rw [hnodes]
  rintro ⟨-, hmin⟩
  obtain ⟨t, ht, hle, hcache⟩ := hmin (by simp)
  have hle0 := hle 0 (by simp)
  rcases mem_cons.mp ht with rfl | ht
  · omega
  · obtain rfl := mem_singleton.mp ht
    rw [hnext, h0] at hcache
    cases hcache

end CSync.Etimer
