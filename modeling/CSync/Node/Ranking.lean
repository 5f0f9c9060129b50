import CSync.Lib.Top
import CSync.Node.Lists

/-! The ranking of the cluster heads (`handle_lists` in the election declaration).

    A sender is put in front of the first entry that it outranks, by degree and then by address, and a full list gives
    up its last entry for it. As long as every sender keeps its degree the list has the highest ranked senders so far,
    in order, and there is only one such list: it does not matter in which order the declarations come. -/

namespace CSync

open Lib List

variable {N : Nat} {R : Type}

/-- The order of `handle_lists` for senders of these degrees. -/
def Outranks (deg : UInt16 → UInt8) (a b : UInt16) : Prop := deg b < deg a ∨ (deg a = deg b ∧ b < a)

section Order

variable {deg : UInt16 → UInt8}

theorem outranks_iff {a b : UInt16} : Outranks deg a b ↔
    (deg b).toNat < (deg a).toNat ∨ ((deg a).toNat = (deg b).toNat ∧ b.toNat < a.toNat) := by
  rw [Outranks, UInt8.lt_iff_toNat_lt, UInt16.lt_iff_toNat_lt, UInt8.toNat_inj]

theorem Outranks.trans (a b c : UInt16) (hab : Outranks deg a b) (hbc : Outranks deg b c) : Outranks deg a c := by
  rw [outranks_iff] at *
  omega

theorem Outranks.irrefl (a : UInt16) : ¬ Outranks deg a a := by
  rw [outranks_iff]
  omega

theorem Outranks.of_not {a b : UInt16} (hne : a ≠ b) (h : ¬ Outranks deg a b) : Outranks deg b a := by
  rw [outranks_iff] at *
  rw [Ne, ← UInt16.toNat_inj] at hne
  omega

end Order

/-! ### Entries and positions -/

/-- What the blocks of a list hold. -/
def entries (p : Pool N Chb) (l : List (Fin N)) : List Chb := l.map p.mem

theorem insertWalk_append (i : Fin N) (l₂ : List (Fin N)) : ∀ l₁ : List (Fin N), l₁ ≠ [] →
    insertWalk i (l₁.length + 1) (l₁ ++ l₂) = l₁ ++ i :: l₂
  | [], h => absurd rfl h
  | [x], _ => rfl
  | x :: y :: l₁, _ => by
    have ih := insertWalk_append i l₂ (y :: l₁) (cons_ne_nil _ _)
    rw [cons_append, insertWalk, if_neg (by simp only [length_cons]; omega)]
    exact congrArg (x :: ·) ih

variable {i : Fin N} {p : Pool N Chb} {deg : UInt16 → UInt8}

theorem insertAt_append {l₁ l₂ : List (Fin N)} (hi : i ∉ l₁ ++ l₂) :
    insertAt i (l₁.length + 1) (l₁ ++ l₂) = l₁ ++ i :: l₂ := by
  rw [insertAt]
  split
  next hone =>
    have hnil : l₁ = [] := eq_nil_of_length_eq_zero (by omega)
    subst hnil
    exact congrArg (i :: ·) (erase_of_not_mem hi)
  next hmore =>
    refine insertWalk_append i l₂ l₁ ?_
    rintro rfl
    exact hmore rfl

theorem entries_modify {l : List (Fin N)} (hi : i ∉ l) (f : Chb → Chb) : entries (p.modify i f) l = entries p l := by
  refine map_congr_left fun j hj => ?_
  have hne : j ≠ i := by
    rintro rfl
    exact hi hj
  exact Function.update_of_ne hne _ _

/-- With a free block the entry comes to its place. -/
theorem entries_allocInsert {l₁ l₂ : List (Fin N)} (h : p.Owns (l₁ ++ l₂)) (hroom : (l₁ ++ l₂).length < N) (ch : Chb)
    : entries (allocInsert p (l₁ ++ l₂) ch (l₁.length + 1)).1 (allocInsert p (l₁ ++ l₂) ch (l₁.length + 1)).2 =
    entries p l₁ ++ ch :: entries p l₂ := by
  obtain ⟨i, hfree⟩ := h.exists_free hroom
  have hi := h.not_mem_of_free hfree
  have hout : i ∉ l₁ ∧ i ∉ l₂ := by rwa [mem_append, not_or] at hi
  have halloc : allocInsert p (l₁ ++ l₂) ch (l₁.length + 1) = ((p.take i).modify i fun _ => ch, l₁ ++ i :: l₂) := by
    rw [allocInsert, Pool.alloc, hfree, ← insertAt_append hi]
  rw [halloc, entries, map_append, map_cons]
  refine congrArg₂ _ (entries_modify hout.1 _) (congrArg₂ _ ?_ (entries_modify hout.2 _))
  exact Function.update_self _ _ _

/-- How the search for the place of `a` ends in a list whose first position is `k`: `a` has an entry, or it is put
    behind entries that outrank it, in front of one that it outranks or at the end. -/
inductive Found (deg : UInt16 → UInt8) (p : Pool N Chb) (a : UInt16) (k : Nat) : List (Fin N) → Place → Prop
  | present {l} : a ∈ (entries p l).map Chb.addr → Found deg p a k l .present
  | before (l₁) {i l₂} : (∀ ch ∈ entries p l₁, Outranks deg ch.addr a) → Outranks deg a (p.mem i).addr →
      Found deg p a k (l₁ ++ i :: l₂) (.before (k + l₁.length))
  | behind {l} : (∀ ch ∈ entries p l, Outranks deg ch.addr a) → Found deg p a k l (.behind (k + l.length))

theorem Found.cons {a : UInt16} {k : Nat} {l : List (Fin N)} {place : Place} (h : Found deg p a (k + 1) l place) (hi :
    Outranks deg (p.mem i).addr a) : Found deg p a k (i :: l) place := by
  cases h with
  | present hmem => exact .present (mem_cons_of_mem _ hmem)
  | @before l₁ j l₂ h₁ hj =>
    have hplace : k + 1 + l₁.length = k + (i :: l₁).length := by
      rw [length_cons]
      omega
    rw [hplace]
    exact .before (i :: l₁) (forall_mem_cons.mpr ⟨hi, h₁⟩) hj
  | behind hall =>
    have hplace : k + 1 + l.length = k + (i :: l).length := by
      rw [length_cons]
      omega
    rw [hplace]
    exact .behind (forall_mem_cons.mpr ⟨hi, hall⟩)

theorem findPlace_found {a : UInt16} : ∀ {l : List (Fin N)} (k : Nat),
    (∀ ch ∈ entries p l, ch.degree = deg ch.addr) → Found deg p a k l (findPlace p a (deg a) l k)
  | [], _, _ => .behind nofun
  | i :: l, k, hdeg => by
    obtain ⟨hi, hl⟩ := forall_mem_cons.mp hdeg
    rw [findPlace]
    split
    next haddr => exact .present (haddr ▸ mem_cons_self)
    next haddr =>
      rw [hi]
      split
      next hout => exact .before [] nofun hout
      next hout =>
        have habove : Outranks deg (p.mem i).addr a := Outranks.of_not (Ne.symm haddr) hout
        exact (findPlace_found (k + 1) hl).cons habove

/-! ### One call -/

/-- The list links its blocks, its entries have the degrees of their addresses, and they are the highest ranked of the
    senders `s`. -/
structure Ranked (deg : UInt16 → UInt8) (s : UInt16 → Prop) (p : Pool numChMax Chb) (l : List (Fin numChMax)) : Prop where
  owns : p.Owns l
  degrees : ∀ ch ∈ entries p l, ch.degree = deg ch.addr
  top : IsTop (Outranks deg) numChMax s ((entries p l).map Chb.addr)

section Call

variable {deg : UInt16 → UInt8} {s : UInt16 → Prop} {p : Pool numChMax Chb}

theorem length_addrs (p : Pool N Chb) (l : List (Fin N)) : ((entries p l).map Chb.addr).length = l.length := by
  rw [length_map, entries, length_map]

theorem addrs_append (p : Pool N Chb) (l₁ l₂ : List (Fin N)) : (entries p (l₁ ++ l₂)).map Chb.addr =
    (entries p l₁).map Chb.addr ++ (entries p l₂).map Chb.addr := by
  rw [entries, map_append, map_append]
  rfl

variable {l₁ l₂ : List (Fin numChMax)} {ch : Chb}

theorem Ranked.below {i : Fin numChMax} {a : UInt16} (h : Ranked deg s p (l₁ ++ i :: l₂))
    (hi : Outranks deg a (p.mem i).addr) : ∀ b ∈ (entries p (i :: l₂)).map Chb.addr, Outranks deg a b := by
  have hsorted := h.top.sorted
  rw [addrs_append] at hsorted
  obtain ⟨-, hlast, -⟩ := pairwise_append.mp hsorted
  have hcons : ((p.mem i).addr :: (entries p l₂).map Chb.addr).Pairwise (Outranks deg) := hlast
  intro b hb
  rcases mem_cons.mp hb with rfl | hb
  · exact hi
  · exact Outranks.trans _ _ _ hi ((pairwise_cons.mp hcons).1 b hb)

theorem mem_entries_insert {l₁ l₂ : List Chb} {P : Chb → Prop} (h : ∀ c ∈ l₁ ++ l₂, P c) (hch : P ch) :
    ∀ c ∈ l₁ ++ ch :: l₂, P c := by
  intro c hc
  rcases mem_append.mp hc with hc | hc
  · exact h c (mem_append_left _ hc)
  · rcases mem_cons.mp hc with rfl | hc
    · exact hch
    · exact h c (mem_append_right _ hc)

/-- There is room for the sender. -/
theorem Ranked.insert (h : Ranked deg s p (l₁ ++ l₂)) (hroom : (l₁ ++ l₂).length < numChMax)
    (hch : ch.degree = deg ch.addr) (h₁ : ∀ b ∈ (entries p l₁).map Chb.addr, Outranks deg b ch.addr)
    (h₂ : ∀ b ∈ (entries p l₂).map Chb.addr, Outranks deg ch.addr b) :
    Ranked deg (fun a => s a ∨ a = ch.addr) (allocInsert p (l₁ ++ l₂) ch (l₁.length + 1)).1
      (allocInsert p (l₁ ++ l₂) ch (l₁.length + 1)).2 := by
  have hentries := entries_allocInsert h.owns hroom ch
  have hsplit : entries p (l₁ ++ l₂) = entries p l₁ ++ entries p l₂ := map_append
  refine ⟨owns_allocInsert h.owns ch (Nat.succ_pos _) (by rw [length_append]; omega), ?_, ?_⟩
  · rw [hentries]
    exact mem_entries_insert (hsplit ▸ h.degrees) hch
  · rw [hentries, map_append, map_cons]
    have htop := h.top
    rw [addrs_append] at htop
    refine htop.add_insert ?_ h₁ h₂
    rw [← addrs_append, length_addrs]
    exact hroom

theorem chopFree_concat (p : Pool N Chb) (l : List (Fin N)) (i : Fin N) : chopFree p (l ++ [i]) = (p.free i, l) := by
  rw [chopFree, getLast?_concat, dropLast_concat]

/-- The list is full, and its last entry makes room for the sender. -/
theorem Ranked.replace {i : Fin numChMax} (h : Ranked deg s p (l₁ ++ i :: l₂))
    (hfull : (l₁ ++ i :: l₂).length = numChMax) (hch : ch.degree = deg ch.addr)
    (h₁ : ∀ b ∈ (entries p l₁).map Chb.addr, Outranks deg b ch.addr)
    (h₂ : ∀ b ∈ (entries p (i :: l₂)).map Chb.addr, Outranks deg ch.addr b) :
    Ranked deg (fun a => s a ∨ a = ch.addr) (allocInsert (chopFree p (l₁ ++ i :: l₂)).1 (chopFree p (l₁ ++ i :: l₂)).2
      ch (l₁.length + 1)).1 (allocInsert (chopFree p (l₁ ++ i :: l₂)).1 (chopFree p (l₁ ++ i :: l₂)).2 ch
        (l₁.length + 1)).2 := by
  obtain ⟨l₃, j, hlast⟩ : ∃ l₃ j, i :: l₂ = l₃ ++ [j] :=
    ⟨(i :: l₂).dropLast, (i :: l₂).getLast (cons_ne_nil _ _), (dropLast_concat_getLast _).symm⟩
  rw [hlast] at h hfull h₂ ⊢
  have howns := owns_chopFree h.owns
  rw [← append_assoc, chopFree_concat] at howns ⊢
  have hroom : (l₁ ++ l₃).length < numChMax := by
    simp only [length_append, length_cons, length_nil] at hfull ⊢
    omega
  have hentries := entries_allocInsert howns hroom ch
  have hdegrees := h.degrees
  have htop := h.top
  refine ⟨owns_allocInsert howns ch (Nat.succ_pos _) (by rw [length_append]; omega), ?_, ?_⟩
  · rw [hentries]
    refine mem_entries_insert (fun c hc => hdegrees c ?_) hch
    have hsplit : entries p (l₁ ++ (l₃ ++ [j])) = entries p l₁ ++ entries p l₃ ++ entries p [j] := by
      rw [entries, map_append, map_append, ← append_assoc]
      rfl
    rw [hsplit]
    exact mem_append_left _ hc
  · rw [hentries, map_append, map_cons]
    rw [addrs_append, addrs_append] at htop
    rw [addrs_append] at h₂
    refine IsTop.add_replace Outranks.trans htop ?_ h₁ h₂
    have hlen := length_addrs p (l₁ ++ (l₃ ++ [j]))
    rw [addrs_append, addrs_append, hfull] at hlen
    exact hlen

/-- CALL: one call of `handle_lists` adds its sender to those whose highest ranked are on the list. -/
theorem Ranked.call {l : List (Fin numChMax)} (h : Ranked deg s p l) (mk : Role → Chb) (a : UInt16) {role : Role}
    (hrole : l ≠ [] → role = .cm) (haddr : (mk .cm).addr = a) (hdeg : (mk .cm).degree = deg a) :
    Ranked deg (fun b => s b ∨ b = a) (handleOn true mk a (deg a) role p l).2.2.1
      (handleOn true mk a (deg a) role p l).2.2.2 ∧
    (handleOn true mk a (deg a) role p l).2.1 = .cm := by
  subst haddr
  rw [handleOn]
  split
  next hlen =>
    have hnil : l = [] := eq_nil_of_length_eq_zero hlen
    subst hnil
    have hnil : Ranked deg s p ([] ++ []) := h
    have hfirst := hnil.insert (by decide) hdeg (by rintro _ ⟨⟩) (by rintro _ ⟨⟩)
    obtain ⟨i, hfree⟩ := h.owns.exists_free (by decide)
    rw [allocInsert, Pool.alloc, nil_append, hfree] at hfirst
    rw [Pool.alloc, hfree]
    exact ⟨hfirst, rfl⟩
  next hlen =>
    have hcm : role = .cm := hrole fun hnil => hlen (by rw [hnil]; rfl)
    subst hcm
    have hle := h.owns.length_le
    have hfound := findPlace_found (a := (mk .cm).addr) 1 h.degrees
    generalize findPlace p (mk .cm).addr (deg (mk .cm).addr) l 1 = place at hfound
    cases hfound with
    | present hmem => exact ⟨⟨h.owns, h.degrees, h.top.add_mem hmem⟩, rfl⟩
    | @before l₁ i l₂ h₁ hi =>
      have h₁' : ∀ b ∈ (entries p l₁).map Chb.addr, Outranks deg b (mk .cm).addr := forall_mem_map.mpr h₁
      dsimp only
      rw [add_comm]
      split
      next hroom => exact ⟨h.insert hroom hdeg h₁' (h.below hi), rfl⟩
      next hroom =>
        have hfull : (l₁ ++ i :: l₂).length = numChMax := le_antisymm hle (Nat.not_lt.mp hroom)
        rw [if_pos hfull]
        exact ⟨h.replace hfull hdeg h₁' (h.below hi), rfl⟩
    | behind hall =>
      dsimp only
      rw [add_comm]
      split
      next hroom =>
        have hend : Ranked deg s p (l ++ []) := by
          rw [append_nil]
          exact h
        have hlast := hend.insert (by rw [append_nil]; exact hroom) hdeg (forall_mem_map.mpr hall)
          (by rintro _ ⟨⟩)
        rw [append_nil] at hlast
        exact ⟨hlast, rfl⟩
      next hroom =>
        have hfull : ((entries p l).map Chb.addr).length = numChMax :=
          (length_addrs p l).trans (le_antisymm hle (Nat.not_lt.mp hroom))
        exact ⟨⟨h.owns, h.degrees, h.top.add_low hfull (forall_mem_map.mpr hall)⟩, rfl⟩

end Call

/-! ### Sequences of calls -/

/-- A call of `handle_lists`: the own degree at the time, the announced value and its sender. -/
structure ListsCall (R : Type) where
  myDegree : UInt8
  value : AnnouncementValue R
  n : Neighbour R

/-- Calls of `handle_lists` one after the other in the election declaration. -/
def handleCalls (myAddr : UInt16) (cl : Cluster) (calls : List (ListsCall R)) : Cluster :=
  calls.foldl (fun cl c => (handleLists cl .electionDeclaration myAddr c.myDegree c.value c.n).2) cl

theorem handleCalls_ranked (myAddr : UInt16) : ∀ (calls : List (ListsCall R)) (cl : Cluster)
    {s : UInt16 → Prop}, Ranked deg s cl.chsMemb cl.chs → (cl.chs ≠ [] → cl.role = .cm) →
      (∀ c ∈ calls, c.n.degree = deg c.n.addr) →
      Ranked deg (fun a => s a ∨ ∃ c ∈ calls, c.n.addr = a) (handleCalls myAddr cl calls).chsMemb
        (handleCalls myAddr cl calls).chs
  | [], _, _, h, _, _ => by
    refine ⟨h.owns, h.degrees, h.top.congr fun a => ⟨fun ha => ?_, .inl⟩⟩
    rcases ha with ha | ⟨c, hc, -⟩
    · exact ha
    · cases hc
  | c :: calls, cl, s, h, hrole, hdeg => by
    obtain ⟨hc, hcalls⟩ := forall_mem_cons.mp hdeg
    obtain ⟨hnext, hcm⟩ := h.call (fun role => newChb role myAddr c.myDegree c.value c.n) c.n.addr hrole rfl hc
    rw [← hc] at hnext hcm
    have ih := handleCalls_ranked myAddr calls
      (handleLists cl .electionDeclaration myAddr c.myDegree c.value c.n).2 hnext (fun _ => hcm) hcalls
    refine ⟨ih.owns, ih.degrees, ih.top.congr fun a => ?_⟩
    rw [exists_mem_cons_iff, or_assoc, eq_comm (a := a)]

theorem ranked_empty {cl : Cluster} (hnone : cl.chs = [])
    (hfree : ∀ i, cl.chsMemb.count i = 0) : Ranked deg (fun _ => False) cl.chsMemb cl.chs := by
  rw [hnone]
  refine ⟨⟨nodup_nil, fun i => ?_⟩, nofun, isTop_nil⟩
  rw [hfree i, if_neg (not_mem_nil)]

/-- ELECTION: from an empty list with a free pool any sequence of calls, each sender having one degree, leaves the
    highest ranked senders on the list, and another sequence of the same senders leaves the same addresses. -/
theorem handleLists_highest (deg : UInt16 → UInt8) (myAddr : UInt16) {cl cl' : Cluster}
    {calls calls' : List (ListsCall R)} (hnone : cl.chs = []) (hfree : ∀ i, cl.chsMemb.count i = 0)
    (hnone' : cl'.chs = []) (hfree' : ∀ i, cl'.chsMemb.count i = 0) (hdeg : ∀ c ∈ calls, c.n.degree = deg c.n.addr)
    (hdeg' : ∀ c ∈ calls', c.n.degree = deg c.n.addr)
    (hsame : ∀ a, (∃ c ∈ calls, c.n.addr = a) ↔ ∃ c ∈ calls', c.n.addr = a) :
    IsTop (Outranks deg) numChMax (fun a => ∃ c ∈ calls, c.n.addr = a)
      ((handleCalls myAddr cl calls).heads.map Chb.addr) ∧
    (∀ ch ∈ (handleCalls myAddr cl calls).heads, ch.degree = deg ch.addr) ∧
    (handleCalls myAddr cl calls).heads.map Chb.addr = (handleCalls myAddr cl' calls').heads.map Chb.addr := by
  have hfirst := handleCalls_ranked myAddr calls cl (ranked_empty hnone hfree) (fun hne => absurd hnone hne) hdeg
  have hsecond := handleCalls_ranked myAddr calls' cl' (ranked_empty hnone' hfree') (fun hne => absurd hnone' hne) hdeg'
  have htop := hfirst.top.congr fun a => (false_or (∃ c ∈ calls, c.n.addr = a)).symm.to_iff
  have htop' := hsecond.top.congr fun a => (hsame a).trans (false_or (∃ c ∈ calls', c.n.addr = a)).symm.to_iff
  exact ⟨htop, hfirst.degrees, htop.unique Outranks.trans Outranks.irrefl htop'⟩

/-- A declaration of the sender `addr`, that has `degree` neighbours. -/
def declares (addr : UInt16) (degree : UInt8) : ListsCall Rat :=
  ⟨3, ⟨4, degree, 1, 0, 0, 1⟩, ⟨addr, degree, .ch, 4, false, false, 0, 0, 0, 0, 0, 0, 0⟩⟩

/-- The lists before the first declaration. -/
def noHeads : Cluster :=
  ⟨.ch, Pool.init ⟨0, 0, 0, 0, 0⟩, [], Pool.init ⟨0, 0, 0, 0, 0⟩, [], Pool.init 0, [], false⟩

/-- Five senders in two orders, one of them twice: the one of the lowest rank is left out. -/
theorem handleLists_highest_five :
    (handleCalls 44 noHeads [declares 7 5, declares 9 5, declares 3 9, declares 7 5, declares 8 2, declares 2
      6]).heads.map Chb.addr =
      [3, 2, 9, 7] ∧
    (handleCalls 44 noHeads [declares 7 5, declares 9 5, declares 3 9, declares 7 5, declares 8 2, declares 2
      6]).heads.map Chb.addr =
      (handleCalls 44 noHeads [declares 8 2, declares 2 6, declares 9 5, declares 3 9, declares 7 5]).heads.map
        Chb.addr := by
  let deg : UInt16 → UInt8 := fun a => if a = 7 ∨ a = 9 then 5 else if a = 3 then 9 else if a = 8 then 2 else 6
  refine ⟨by decide, (handleLists_highest deg 44 rfl (fun _ => rfl) rfl (fun _ => rfl) ?_ ?_ ?_).2.2⟩
  · simp [deg, declares]
  · simp [deg, declares]
  · intro a
    simp [declares]
    tauto

end CSync
