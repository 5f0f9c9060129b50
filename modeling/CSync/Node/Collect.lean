import CSync.Node.Distinct

/-! The neighbouring heads a cluster head collects (`init_consensus_convergence.c`).

    Every bridge of `CBs_list` names the head behind it. The loop keeps one entry for each head: the first bridge to a
    head makes the entry, every other one overwrites the second bridge of it. What the list holds behind a part of the
    bridges is a function of that part, and the invariant of the loop says just that. -/

namespace CSync

open Lib List Function

/-- The bridges that lead to a head, in list order. -/
def bridgesTo (bridges : List Chb) (head : UInt16) : List Chb := bridges.filter fun cb => cb.nChbAddrA == head

/-- The entry of a head: its first bridge, and its last other one, if there is one. -/
def HeadEntry (bridges : List Chb) (ch : Chb) : Prop :=
  ∃ cb rest, bridgesTo bridges ch.addr = cb :: rest ∧
    ch = ⟨ch.addr, cb.degree, 0, cb.addr, (rest.getLast?.map Chb.addr).getD 0⟩

theorem bridgesTo_append (bridges : List Chb) (cb : Chb) (head : UInt16) : bridgesTo (bridges ++ [cb]) head =
    bridgesTo bridges head ++ if cb.nChbAddrA = head then [cb] else [] := by
  rw [bridgesTo, filter_append]
  congr 1
  by_cases h : cb.nChbAddrA = head
  · rw [if_pos h]
    simp [h]
  · rw [if_neg h]
    simp [h]

variable {bridges : List Chb} {cb : Chb}

theorem HeadEntry.other {ch : Chb} (h : HeadEntry bridges ch) (hne : cb.nChbAddrA ≠ ch.addr) :
    HeadEntry (bridges ++ [cb]) ch := by
  obtain ⟨first, rest, hfilter, hch⟩ := h
  refine ⟨first, rest, ?_, hch⟩
  rw [bridgesTo_append, if_neg hne, append_nil]
  exact hfilter

/-- A further bridge becomes the second one. -/
theorem HeadEntry.again {ch : Chb} (h : HeadEntry bridges ch) (heq : cb.nChbAddrA = ch.addr) :
    HeadEntry (bridges ++ [cb]) { ch with nChbAddrB := cb.addr } := by
  obtain ⟨first, rest, hfilter, hch⟩ := h
  refine ⟨first, rest ++ [cb], ?_, ?_⟩
  · rw [bridgesTo_append, if_pos heq, hfilter, cons_append]
  · rw [getLast?_append, hch]
    rfl

theorem headEntry_first (h : ∀ b ∈ bridges, b.nChbAddrA ≠ cb.nChbAddrA) :
    HeadEntry (bridges ++ [cb]) ⟨cb.nChbAddrA, cb.degree, 0, cb.addr, 0⟩ := by
  refine ⟨cb, [], ?_, rfl⟩
  have hnone : bridgesTo bridges cb.nChbAddrA = [] := filter_eq_nil_iff.mpr fun b hb => by simpa using h b hb
  rw [bridgesTo_append, if_pos rfl, hnone, nil_append]

/-! ### The loop -/

/-- The list behind these bridges: one entry for each head they lead to. -/
structure Collected (bridges : List Chb) (p : Pool numChMax Chb) (l : List (Fin numChMax)) : Prop where
  owns : p.Owns l
  distinct : Distinct p l
  few : l.length ≤ bridges.length
  entry : ∀ ch ∈ entries p l, HeadEntry bridges ch
  listed : ∀ cb ∈ bridges, cb.nChbAddrA ∈ (entries p l).map Chb.addr

theorem collected_nil : Collected [] (Pool.init ⟨0, 0, 0, 0, 0⟩) [] :=
  ⟨Pool.owns_init _, distinct_nil _, le_refl _, nofun, nofun⟩

theorem Collected.again {p : Pool numChMax Chb} {l : List (Fin numChMax)}
    (h : Collected bridges p l) {i : Fin numChMax} (hi : i ∈ l) (haddr : cb.nChbAddrA = (p.mem i).addr) :
    Collected (bridges ++ [cb]) (p.modify i fun ch => { ch with nChbAddrB := cb.addr }) l := by
  have hdistinct := h.distinct.modify i (f := fun ch => { ch with nChbAddrB := cb.addr }) fun _ => rfl
  have haddrs : (entries (p.modify i fun ch => { ch with nChbAddrB := cb.addr }) l).map Chb.addr =
      (entries p l).map Chb.addr := by
    rw [entries, entries, map_map, map_map]
    refine map_congr_left fun j _ => ?_
    by_cases hji : j = i
    · subst hji
      simp only [comp_apply, Pool.modify, update_self]
    · simp only [comp_apply, Pool.modify, update_of_ne hji]
  refine ⟨h.owns.modify i _, hdistinct, ?_, fun ch hch => ?_, fun b hb => ?_⟩
  · rw [length_append]
    exact Nat.le_add_right_of_le h.few
  · obtain ⟨j, hj, rfl⟩ := mem_map.mp hch
    have hentry := h.entry (p.mem j) (mem_map_of_mem hj)
    by_cases hji : j = i
    · subst hji
      simp only [Pool.modify, update_self]
      exact hentry.again haddr
    · simp only [Pool.modify, update_of_ne hji]
      refine hentry.other fun heq => hji ?_
      -- two entries have one address only if they are the same
      have hsame : (p.mem j).addr = (p.mem i).addr := heq.symm.trans haddr
      have hinj := h.distinct.addrs
      rw [entries, map_map] at hinj
      exact inj_on_of_nodup_map hinj hj hi hsame
  · rw [haddrs]
    rcases mem_append.mp hb with hb | hb
    · exact h.listed b hb
    · rw [mem_singleton.mp hb, haddr]
      exact mem_map_of_mem (mem_map_of_mem hi)

theorem Collected.first {p : Pool numChMax Chb} {l : List (Fin numChMax)} (h : Collected bridges p l)
    (hnew : cb.nChbAddrA ∉ (entries p l).map Chb.addr) {i : Fin numChMax} (hi : p.freeBlock = some i) :
    Collected (bridges ++ [cb]) ((p.take i).modify i fun _ => ⟨cb.nChbAddrA, cb.degree, 0, cb.addr, 0⟩)
      (listPush i l) := by
  have hout := h.owns.not_mem_of_free hi
  have hpush : listPush i l = i :: l := congrArg (i :: ·) (erase_of_not_mem hout)
  have hself : ((p.take i).modify i fun _ => (⟨cb.nChbAddrA, cb.degree, 0, cb.addr, 0⟩ : Chb)).mem i = _ :=
    update_self _ _ _
  have hrest : entries ((p.take i).modify i fun _ => (⟨cb.nChbAddrA, cb.degree, 0, cb.addr, 0⟩ : Chb)) l =
      entries p l := entries_modify hout _
  rw [hpush]
  refine ⟨(h.owns.take_insert hi (List.Perm.refl _)).modify i _, h.distinct.link hi hnew (List.Perm.refl _), ?_,
    fun ch hch => ?_, fun b hb => ?_⟩
  · rw [length_cons, length_append]
    exact Nat.succ_le_succ h.few
  · rw [entries, map_cons, hself] at hch
    rcases mem_cons.mp hch with rfl | hch
    · exact headEntry_first fun b hb heq => hnew (heq ▸ h.listed b hb)
    · have hold : ch ∈ entries p l := hrest ▸ hch
      refine (h.entry ch hold).other fun heq => hnew ?_
      rw [heq]
      exact mem_map_of_mem hold
  · rw [entries, map_cons, map_cons, hself]
    rcases mem_append.mp hb with hb | hb
    · refine mem_cons_of_mem _ ?_
      have hmem := h.listed b hb
      rwa [← hrest] at hmem
    · rw [mem_singleton.mp hb]
      exact mem_cons_self

/-- LOOP: with a block for every bridge it comes to its end. -/
theorem collectHeads_collected : ∀ {rest bridges : List Chb} {p : Pool numChMax Chb} {l : List (Fin numChMax)},
    Collected bridges p l → (bridges ++ rest).length ≤ numChMax → (collectHeads rest p l).1 = true ∧
        Collected (bridges ++ rest) (collectHeads rest p l).2.1 (collectHeads rest p l).2.2
  | [], bridges, p, l, h, _ => by
    rw [append_nil]
    exact ⟨rfl, h⟩
  | cb :: rest, bridges, p, l, h, hroom => by
    have hsnoc : bridges ++ cb :: rest = bridges ++ [cb] ++ rest := append_cons ..
    rw [collectHeads, hsnoc]
    rw [hsnoc] at hroom
    split
    next i hfind =>
      have haddr : cb.nChbAddrA = (p.mem i).addr := by simpa using find?_some hfind
      exact collectHeads_collected (h.again (mem_of_find?_eq_some hfind) haddr) hroom
    next hfind =>
      have hnew : cb.nChbAddrA ∉ (entries p l).map Chb.addr := by
        rw [entries, map_map]
        intro hmem
        obtain ⟨i, hi, haddr⟩ := mem_map.mp hmem
        exact find?_eq_none.mp hfind i hi (beq_iff_eq.mpr haddr.symm)
      have hless : l.length < numChMax := by
        have hfew := h.few
        simp only [length_append, length_cons, length_nil] at hroom
        omega
      obtain ⟨i, hi⟩ := h.owns.exists_free hless
      rw [Pool.alloc, hi]
      exact collectHeads_collected (h.first hnew hi) hroom

/-- COLLECTED HEADS: from at most as many bridges as there are blocks for heads, `init_consensus_convergence` comes to
    its end with one entry for each head behind a bridge. The entry names the first bridge to the head and the last
    other one, or 0, and has no slot. -/
theorem initConsensusConvergence_collects (cl : Cluster) (h : cl.cbs.length ≤ numChMax) :
    (initConsensusConvergence cl).1 = true ∧
    ((initConsensusConvergence cl).2.heads.map Chb.addr).Nodup ∧
    (∀ addr, addr ∈ (initConsensusConvergence cl).2.heads.map Chb.addr ↔ addr ∈ cl.bridges.map Chb.nChbAddrA) ∧
    ∀ ch ∈ (initConsensusConvergence cl).2.heads,
      ch.consSlot = 0 ∧
      ∃ cb rest,
        (cl.bridges.filter fun cb => cb.nChbAddrA == ch.addr) = cb :: rest ∧
        ch.nChbAddrA = cb.addr ∧
        ch.nChbAddrB = (rest.getLast?.map Chb.addr).getD 0 := by
  have hroom : ([] ++ cl.bridges).length ≤ numChMax := by
    rw [nil_append, Cluster.bridges, length_map]
    exact h
  obtain ⟨hend, hall⟩ := collectHeads_collected collected_nil hroom
  refine ⟨hend, hall.distinct.addrs, fun addr => ⟨fun hmem => ?_, fun hmem => ?_⟩, fun ch hch => ?_⟩
  · obtain ⟨ch, hch, rfl⟩ := mem_map.mp hmem
    obtain ⟨cb, rest, hfilter, -⟩ := hall.entry ch hch
    have hcb : cb ∈ bridgesTo cl.bridges ch.addr := hfilter ▸ mem_cons_self
    obtain ⟨hin, haddr⟩ := mem_filter.mp hcb
    exact mem_map.mpr ⟨cb, hin, beq_iff_eq.mp haddr⟩
  · obtain ⟨cb, hcb, rfl⟩ := mem_map.mp hmem
    exact hall.listed cb hcb
  · obtain ⟨cb, rest, hfilter, heq⟩ := hall.entry ch hch
    refine ⟨?_, cb, rest, hfilter, ?_, ?_⟩
    · rw [heq]
    · exact congrArg Chb.nChbAddrA heq
    · exact congrArg Chb.nChbAddrB heq

/-- Three bridges to two heads. -/
theorem initConsensusConvergence_collects_two :
    ∃ cl : Cluster,
      cl.cbs.length = 3 ∧
      (initConsensusConvergence cl).2.heads.map (fun ch => (ch.addr, ch.nChbAddrA, ch.nChbAddrB)) =
        [(48, 66, 0), (44, 62, 69)] ∧
      ∀ ch ∈ (initConsensusConvergence cl).2.heads, ch.consSlot = 0 := by
  have hcollects := initConsensusConvergence_collects
    { role := .ch, chsMemb := Pool.init ⟨0, 0, 0, 0, 0⟩, chs := [],
      cbsMemb := ⟨fun _ => 1, fun i => if i = 0 then ⟨62, 5, 0, 44, 0⟩ else if i = 1 then ⟨66, 4, 0, 48, 0⟩
        else ⟨69, 3, 0, 44, 0⟩⟩,
      cbs := [0, 1, 2], blMemb := Pool.init 0, blacklist := [], chsForeign := false } (by decide)
  exact ⟨_, rfl, by decide, fun ch hch => (hcollects.2.2.2 ch hch).1⟩

end CSync
