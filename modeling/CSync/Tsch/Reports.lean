import CSync.Tsch.Queues

/-! Slots and pending callbacks keep the invariant of the queues.

    So packets leave in order and once, and are called back and freed once. A packet is called back with the
    status that its last slot left in `mac_tx_status`; the one way for this not to be a status of that slot is
    that the packet was not prepared. -/

namespace CSync.Tsch
open List Lib Option

variable {A : Type} [DecidableEq A]

section
variable {c : Config A}

/-! ### The end of a slot -/

omit [DecidableEq A] in
theorem attemptsOf_attempt_ne {id id' : Nat} (h : id' ≠ id) (attempt : Attempt) (rest : List (Entry A)) :
    attemptsOf id (.attempt id' attempt :: rest) = attemptsOf id rest := by
  simp [attemptsOf, h]

omit [DecidableEq A] in
theorem attemptsOf_attempt_self (id : Nat) (attempt : Attempt) (rest : List (Entry A)) :
    attemptsOf id (.attempt id attempt :: rest) = attempt :: attemptsOf id rest := by
  simp [attemptsOf]

variable {s s' : State c} {slot : Slot c} {link : Link A} {x : A × Fin c.queuebufNum} {a : A} {rand : Nat}

theorem Inv.slot_packet (h : Inv s) (hslot : SlotOk s slot) : slot.packet ∈ ptrs (views s) ∧
      .queued slot.neighbor (s.packetMemb.mem slot.packet).id ∈ s.log := by
  obtain ⟨q, hq⟩ := hslot.head
  obtain ⟨v₁, v₂, hviews⟩ := append_of_mem hq
  have haddrs := h.addrs
  have hfifo := h.fifo slot.neighbor
  rw [hviews] at haddrs hfifo
  rw [queueAt_split (q := (slot.neighbor, slot.isBroadcast, slot.packet :: q)) haddrs] at hfifo
  refine ⟨mem_flatMap.mpr ⟨_, hq, mem_cons_self⟩, mem_queuedTo ?_⟩
  rw [hfifo]
  exact mem_append_right _ mem_cons_self

omit [DecidableEq A] in
theorem waiting_push {p : Fin c.queuebufNum} (hbusy : s.pending ≠ .idle → s.dequeued.toList ≠ [])
    (hpending : s'.pending = s.pending) (hring : s'.dequeued.toList = s.dequeued.toList ++ [p]) :
    waiting s' = waiting s ++ [p] ∧ uncalled s' = uncalled s ++ [p] ∧ calling s' = calling s := by
  have htail : ∀ l : List (Fin c.queuebufNum), l ≠ [] → (l ++ [p]).tail = l.tail ++ [p] ∧
      (l ++ [p]).take 1 = l.take 1 := by
    intro l hl
    cases l with
    | nil => exact absurd rfl hl
    | cons x l => exact ⟨rfl, rfl⟩
  rw [waiting, waiting, uncalled, uncalled, calling, calling, hpending, hring]
  generalize s.pending = pending at hbusy
  cases pending with
  | idle => exact ⟨rfl, rfl, rfl⟩
  | called =>
    obtain ⟨ht, hf⟩ := htail _ (hbusy Pending.noConfusion)
    exact ⟨rfl, ht, hf⟩
  | freed =>
    obtain ⟨ht, -⟩ := htail _ (hbusy Pending.noConfusion)
    exact ⟨ht, ht, rfl⟩
  | pruned =>
    obtain ⟨ht, -⟩ := htail _ (hbusy Pending.noConfusion)
    exact ⟨ht, ht, rfl⟩

omit [DecidableEq A] in
theorem modify_records {p : Fin c.queuebufNum} {f : Packet → Packet}
    (hmemb : s'.packetMemb = s.packetMemb.modify p f) (hf : ∀ r, (f r).id = r.id) :
    (∀ x, x ≠ p → s'.packetMemb.mem x = s.packetMemb.mem x) ∧ s'.packetMemb.mem p = f (s.packetMemb.mem p) ∧
      ∀ l, ids s'.packetMemb.mem l = ids s.packetMemb.mem l := by
  have hmem : ∀ x, x ≠ p → s'.packetMemb.mem x = s.packetMemb.mem x := fun x hx => by
    rw [hmemb]
    exact Function.update_of_ne hx _ _
  have hmemp : s'.packetMemb.mem p = f (s.packetMemb.mem p) := by
    rw [hmemb]
    exact Function.update_self _ _ _
  refine ⟨hmem, hmemp, fun l => ids_congr fun x _ => ?_⟩
  by_cases hx : x = p
  · rw [hx, hmemp, hf]
  · rw [hmem x hx]

/-- What one more slot of a packet changes in the log. -/
structure Tried (s : State c) (id : Nat) (attempt : Attempt) (log : List (Entry A)) : Prop where
  other : ∀ j, j ≠ id → attemptsOf j log = attemptsOf j s.log
  self : attemptsOf id log = attemptsOf id s.log ++ [attempt]
  bound : ∀ j, (attemptsOf j log).length ≤ c.maxFrameRetries + 1
  fresh : ∀ j, s.nextId ≤ j → attemptsOf j log = []
  acked : ∀ j ∈ leftIds s.log, LastAcked c s.log j → LastAcked c log j

theorem Inv.tried (h : Inv s) (hslot : SlotOk s slot) (attempt : Attempt) (rest : List (Entry A))
    (hrest : ∀ id, attemptsOf id rest = []) (hqueued : ∀ a id, .queued a id ∉ rest) :
    Tried s (s.packetMemb.mem slot.packet).id attempt
      (s.log ++ .attempt (s.packetMemb.mem slot.packet).id attempt :: rest) := by
  obtain ⟨hp, -⟩ := h.slot_packet hslot
  obtain ⟨htries, hless⟩ := h.tries slot.packet hp
  have hlt := h.id_lt (mem_append_right _ (mem_map_of_mem hp))
  have hother : ∀ j, j ≠ (s.packetMemb.mem slot.packet).id →
      attemptsOf j (s.log ++ .attempt (s.packetMemb.mem slot.packet).id attempt :: rest) = attemptsOf j s.log := by
    intro j hj
    rw [attemptsOf_append, attemptsOf_attempt_ne (Ne.symm hj), hrest, append_nil]
  have hself : attemptsOf (s.packetMemb.mem slot.packet).id
      (s.log ++ .attempt (s.packetMemb.mem slot.packet).id attempt :: rest) =
        attemptsOf (s.packetMemb.mem slot.packet).id s.log ++ [attempt] := by
    rw [attemptsOf_append, attemptsOf_attempt_self, hrest]
  refine ⟨hother, hself, ?_, ?_, ?_⟩
  · intro j
    by_cases hj : j = (s.packetMemb.mem slot.packet).id
    · rw [hj, hself, length_append, length_singleton, htries]
      omega
    · rw [hother j hj]
      exact h.bound j
  · intro j hj
    rw [hother j (by omega)]
    exact h.fresh j hj
  · intro j hj hacked
    refine hacked.append ?_ ?_
    · intro a ha
      rcases mem_cons.mp ha with heq | ha
      · cases heq
      · exact hqueued a j ha
    · rw [attemptsOf_attempt_ne (Ne.symm (h.left_ne_queued hj hp)), hrest]

theorem Inv.retry (h : Inv s) (hslot : SlotOk s slot) (attempt : Attempt) {status : MacTx} {transmissions : UInt8}
    (hmemb : s'.packetMemb = s.packetMemb.modify slot.packet fun packet =>
      { packet with transmissions := transmissions, ret := status })
    (hcount : transmissions.toNat = (s.packetMemb.mem slot.packet).transmissions.toNat + 1)
    (hless : transmissions.toNat ≤ c.maxFrameRetries)
    (hviews : views s' = views s) (hring : s'.dequeued = s.dequeued) (hpending : s'.pending = s.pending)
    (hnext : s'.nextId = s.nextId) (hend : s'.slot = none)
    (hlog : s'.log = s.log ++ [.attempt (s.packetMemb.mem slot.packet).id attempt]) : Inv s' := by
  obtain ⟨hp, -⟩ := h.slot_packet hslot
  obtain ⟨hother, hself, hbound, hfresh, hacked⟩ :=
    h.tried hslot attempt [] (fun _ => rfl) fun _ _ => not_mem_nil
  rw [← hlog] at hother hself hbound hfresh hacked
  obtain ⟨hmem, hmemp, hids⟩ := modify_records hmemb fun _ => rfl
  have hwaiting : waiting s' = waiting s := by rw [waiting, waiting, hpending, hring]
  have huncalled : uncalled s' = uncalled s := by rw [uncalled, uncalled, hpending, hring]
  have hcalling : calling s' = calling s := by rw [calling, calling, hpending, hring]
  have hnodup := h.owns.nodup
  have hnotUncalled : ∀ x ∈ uncalled s, x ≠ slot.packet := by
    rintro x hx rfl
    exact (nodup_append.mp hnodup).2.2 _ hp _ (uncalled_sublist_waiting s _ hx) rfl
  have hleft : leftIds s'.log = leftIds s.log := by
    rw [hlog]
    exact (leftIds_append _ _).trans (append_nil _)
  have hsent : sentIds s'.log = sentIds s.log := by
    rw [hlog]
    exact (sentIds_append _ _).trans (append_nil _)
  exact
    { addrs := by rw [hviews]; exact h.addrs
      isBroadcast := by rw [hviews]; exact h.isBroadcast
      owns := by
        rw [hmemb, hviews, hwaiting]
        exact h.owns.modify _ _
      slot := fun slot hs => by
        rw [hend] at hs
        cases hs
      busy := by rw [hpending, hring]; exact h.busy
      range := by
        rw [hlog, hnext]
        exact ((queuedIds_append _ _).trans (append_nil _)).trans h.range
      fifo := fun a => by
        have hqueuedTo : queuedTo a s'.log = queuedTo a s.log := by
          rw [hlog]
          exact (queuedTo_append a _ _).trans (append_nil _)
        have hleftFrom : leftFrom a s'.log = leftFrom a s.log := by
          rw [hlog]
          exact (leftFrom_append a _ _).trans (append_nil _)
        rw [hqueuedTo, hleftFrom, hviews, hids]
        exact h.fifo a
      all := by rw [hleft, hids, hviews, hnext]; exact h.all
      sent := by rw [hleft, hsent, huncalled, hids]; exact h.sent
      freed := by
        rw [hsent, hcalling, hids, hlog]
        refine h.freed.trans ?_
        rw [freedIds_append]
        exact congrArg (· ++ _) (append_nil _).symm
      tries := by
        intro x hx
        rw [hviews] at hx
        by_cases hxp : x = slot.packet
        · rw [hxp, hmemp, hself, length_append, (h.tries _ hp).1]
          exact ⟨hcount.symm, hless⟩
        · have hne : (s.packetMemb.mem x).id ≠ (s.packetMemb.mem slot.packet).id := by
            intro heq
            exact hxp (inj_on_of_nodup_map (nodup_append.mp h.nodup_ids).2.1 hx hp heq)
          rw [hmem x hxp, hother _ hne]
          exact h.tries x hx
      bound := hbound
      fresh := by rw [hnext]; exact hfresh
      acked := by
        intro x hx hret
        rw [huncalled] at hx
        rw [hmem x (hnotUncalled x hx)] at hret ⊢
        exact hacked _ (h.uncalled_left hx) (h.acked x hx hret)
      ackedSent := by
        intro id transmissions hmem
        have hmem' : .sent id .ok transmissions ∈ s.log := by
          rw [hlog] at hmem
          rcases mem_append.mp hmem with hmem | hmem
          · exact hmem
          · cases mem_singleton.mp hmem
        exact hacked _ (h.sent_left (mem_sentIds hmem')) (h.ackedSent id transmissions hmem') }

theorem Inv.leave (h : Inv s) (hslot : SlotOk s slot) {attempt : Attempt} {status : MacTx} {transmissions : UInt8}
    {v₁ v₂ : List (A × Bool × List (Fin c.queuebufNum))} {q : List (Fin c.queuebufNum)}
    (hacked : status = .ok → slot.isBroadcast = false → attempt = ⟨true, true, true⟩)
    (hmemb : s'.packetMemb = s.packetMemb.modify slot.packet fun packet =>
      { packet with transmissions := transmissions, ret := status })
    (hold : views s = v₁ ++ (slot.neighbor, slot.isBroadcast, slot.packet :: q) :: v₂)
    (hnew : views s' = v₁ ++ (slot.neighbor, slot.isBroadcast, q) :: v₂)
    (hring : s'.dequeued.toList = s.dequeued.toList ++ [slot.packet])
    (hpending : s'.pending = s.pending) (hnext : s'.nextId = s.nextId) (hend : s'.slot = none)
    (hlog : s'.log = s.log ++ [.attempt (s.packetMemb.mem slot.packet).id attempt,
      .left slot.neighbor (s.packetMemb.mem slot.packet).id]) : Inv s' := by
  obtain ⟨hp, hpqueued⟩ := h.slot_packet hslot
  obtain ⟨hother, hself, hbound, hfresh, hkept⟩ := h.tried hslot attempt
    [.left slot.neighbor (s.packetMemb.mem slot.packet).id] (fun _ => rfl)
    fun _ _ hmem => by cases mem_singleton.mp hmem
  rw [← hlog] at hother hself hbound hfresh hkept
  obtain ⟨hwaiting, huncalled, hcalling⟩ := waiting_push h.busy hpending hring
  obtain ⟨haddrs, hbroadcast⟩ := h.requeued hold hnew
  obtain ⟨hmem, hmemp, hids⟩ := modify_records hmemb fun _ => rfl
  have hptrs : (ptrs (views s)).Perm (slot.packet :: ptrs (views s')) := by
    rw [hold, hnew, ptrs_append, ptrs_cons, ptrs_append, ptrs_cons]
    exact perm_middle
  have hnodupPtrs := hptrs.nodup_iff.mp (nodup_append.mp h.owns.nodup).1
  have hnotUncalled : ∀ x ∈ uncalled s, x ≠ slot.packet := by
    rintro x hx rfl
    exact (nodup_append.mp h.owns.nodup).2.2 _ hp _ (uncalled_sublist_waiting s _ hx) rfl
  have hleft : leftIds s'.log = leftIds s.log ++ [(s.packetMemb.mem slot.packet).id] := by
    rw [hlog]
    exact leftIds_append _ _
  have hsent : sentIds s'.log = sentIds s.log := by
    rw [hlog]
    exact (sentIds_append _ _).trans (append_nil _)
  have hfreed : freedIds s'.log = freedIds s.log := by
    rw [hlog]
    exact (freedIds_append _ _).trans (append_nil _)
  exact
    { addrs := haddrs
      isBroadcast := hbroadcast
      owns := by
        rw [hmemb, hwaiting]
        refine (h.owns.perm ?_).modify _ _
        calc (ptrs (views s') ++ (waiting s ++ [slot.packet])).Perm
              (slot.packet :: (ptrs (views s') ++ waiting s)) := by
              rw [← append_assoc]
              exact perm_append_singleton _ _
          _ |>.Perm (ptrs (views s) ++ waiting s) := (hptrs.append_right _).symm
      slot := fun slot hs => by
        rw [hend] at hs
        cases hs
      busy := fun hne => by
        rw [hring]
        exact append_ne_nil_of_right_ne_nil _ (cons_ne_nil _ _)
      range := by
        rw [hlog, hnext]
        exact ((queuedIds_append _ _).trans (append_nil _)).trans h.range
      fifo := fun a => by
        have haddrs := h.addrs
        have hfifo := h.fifo a
        have hqueuedTo : queuedTo a s'.log = queuedTo a s.log := by
          rw [hlog]
          exact (queuedTo_append a _ _).trans (append_nil _)
        have hleftFrom : leftFrom a s'.log = leftFrom a s.log ++
            leftFrom a [.attempt (s.packetMemb.mem slot.packet).id attempt,
              .left slot.neighbor (s.packetMemb.mem slot.packet).id] := by
          rw [hlog]
          exact leftFrom_append a _ _
        rw [hold] at haddrs hfifo
        rw [hqueuedTo, hleftFrom, hids, hfifo, hnew, append_assoc]
        refine congrArg _ ?_
        by_cases ha : slot.neighbor = a
        · subst ha
          have hnewQueue : queueAt (v₁ ++ (slot.neighbor, slot.isBroadcast, q) :: v₂) slot.neighbor = q :=
            queueAt_split (q := (slot.neighbor, slot.isBroadcast, q)) (by simpa using haddrs)
          have holdQueue : queueAt (v₁ ++ (slot.neighbor, slot.isBroadcast, slot.packet :: q) :: v₂)
              slot.neighbor = slot.packet :: q :=
            queueAt_split (q := (slot.neighbor, slot.isBroadcast, slot.packet :: q)) haddrs
          rw [hnewQueue, holdQueue]
          simp [leftFrom, ids]
        · rw [queueAt_other ha, queueAt_other ha]
          simp [leftFrom, ha]
      all := by
        rw [hleft, hids, hnext, append_assoc]
        refine List.Perm.trans ?_ h.all
        refine List.Perm.append_left _ ?_
        exact (hptrs.map fun p => (s.packetMemb.mem p).id).symm
      sent := by
        rw [hleft, hsent, huncalled, hids, ids_append, ← append_assoc, ← h.sent]
        rfl
      freed := by rw [hsent, hfreed, hcalling, hids]; exact h.freed
      tries := by
        intro x hx
        have hxold := hptrs.mem_iff.mpr (mem_cons_of_mem _ hx)
        have hxp : x ≠ slot.packet := by
          rintro rfl
          exact (nodup_cons.mp hnodupPtrs).1 hx
        have hne : (s.packetMemb.mem x).id ≠ (s.packetMemb.mem slot.packet).id := by
          intro heq
          exact hxp (inj_on_of_nodup_map (nodup_append.mp h.nodup_ids).2.1 hxold hp heq)
        rw [hmem x hxp, hother _ hne]
        exact h.tries x hxold
      bound := hbound
      fresh := by rw [hnext]; exact hfresh
      acked := by
        intro x hx hret
        rw [huncalled] at hx
        rcases mem_append.mp hx with hx | hx
        · rw [hmem x (hnotUncalled x hx)] at hret ⊢
          exact hkept _ (h.uncalled_left hx) (h.acked x hx hret)
        · rw [mem_singleton.mp hx, hmemp] at hret ⊢
          intro a ha hvirtual
          -- The packet was queued to the neighbor of the slot, which is thus no virtual one.
          have ha' : .queued a (s.packetMemb.mem slot.packet).id ∈ s.log := by
            rw [hlog] at ha
            rcases mem_append.mp ha with ha | ha
            · exact ha
            · simp at ha
          have haddr := queued_addr_unique (by rw [h.range]; exact nodup_range) ha' hpqueued
          have hunicast : slot.isBroadcast = false := by
            obtain ⟨q', hq'⟩ := hslot.head
            have hflag : slot.isBroadcast = decide (c.Virtual slot.neighbor) := h.isBroadcast _ hq'
            rw [hflag, ← haddr]
            exact decide_eq_false hvirtual
          rw [hself, hacked hret hunicast]
          exact getLast?_concat
      ackedSent := by
        intro id transmissions hmem
        have hmem' : .sent id .ok transmissions ∈ s.log := by
          rw [hlog] at hmem
          rcases mem_append.mp hmem with hmem | hmem
          · exact hmem
          · simp at hmem
        exact hkept _ (h.sent_left (mem_sentIds hmem')) (h.ackedSent id transmissions hmem') }

/-- THE END OF A SLOT keeps the invariant, if a packet for a real neighbor is not reported as sent without an ACK. -/
theorem Inv.finishTx (h : Inv s) (hretries : c.maxFrameRetries < 255) (hslot : SlotOk s slot) {attempt : Attempt}
    (hacked : s.macTxStatus = .ok → slot.isBroadcast = false → attempt = ⟨true, true, true⟩) (rand : Nat) :
    Inv (finishTx s slot attempt rand) := by
  obtain ⟨hp, -⟩ := h.slot_packet hslot
  obtain ⟨-, hless⟩ := h.tries slot.packet hp
  have hcount : ((s.packetMemb.mem slot.packet).transmissions + 1).toNat =
      (s.packetMemb.mem slot.packet).transmissions.toNat + 1 := by
    rw [UInt8.toNat_add, UInt8.toNat_one]
    omega
  obtain ⟨q, hq⟩ := hslot.head
  obtain ⟨n, hn, hview⟩ := mem_map.mp hq
  have haddr : n.addr = slot.neighbor := congrArg Prod.fst hview
  set dequeue := decide (s.macTxStatus = .ok ∨
    c.maxFrameRetries + 1 ≤ ((s.packetMemb.mem slot.packet).transmissions + 1).toNat) with hdequeue
  obtain ⟨v₁, v₂, hold, hnew⟩ := view_updateNbr_at h.addrs hn
    (updateNeighborState slot.link s.macTxStatus dequeue rand)
  rw [haddr] at hnew
  rw [hview] at hold
  have htail : n.txRingbuf.toList.tail = q := by
    rw [show n.txRingbuf.toList = slot.packet :: q from congrArg (fun v => v.2.2) hview, tail_cons]
  have hfinish : views (Tsch.finishTx s slot attempt rand) =
      v₁ ++ (if dequeue then (slot.neighbor, slot.isBroadcast, q)
        else (slot.neighbor, slot.isBroadcast, slot.packet :: q)) :: v₂ := by
    rw [Tsch.finishTx, views_endSlot, views]
    refine hnew.trans ?_
    rw [view_updateNeighborState, hview, htail, haddr,
      show n.isBroadcast = slot.isBroadcast from congrArg (fun v => v.2.1) hview]
  by_cases hd : dequeue = true
  · rw [hd, if_pos rfl] at hfinish
    refine h.leave hslot hacked rfl hold hfinish ?_ rfl rfl rfl ?_
    · show (if dequeue then (s.dequeued.store slot.dequeuedIndex slot.packet).advance
        else s.dequeued).toList = _
      rw [hd, if_pos rfl, hslot.index, Ring.toList_put hslot.room]
    · show s.log ++ .attempt _ attempt :: (if dequeue then [.left slot.neighbor _] else []) = _
      rw [hd, if_pos rfl]
  · rw [Bool.not_eq_true] at hd
    rw [hd, if_neg Bool.false_ne_true] at hfinish
    have hnot := of_decide_eq_false hd
    refine h.retry hslot attempt rfl hcount (by omega) (hfinish.trans hold.symm) ?_ rfl rfl rfl ?_
    · show (if dequeue then (s.dequeued.store slot.dequeuedIndex slot.packet).advance
        else s.dequeued) = _
      rw [hd, if_neg Bool.false_ne_true]
    · show s.log ++ .attempt _ attempt :: (if dequeue then [.left slot.neighbor _] else []) = _
      rw [hd, if_neg Bool.false_ne_true]

/-! ### The packet of a slot -/

/-- A packet is taken from the head of a queue. -/
def AtHead (s : State c) (x : A × Fin c.queuebufNum) : Prop :=
  ∃ n ∈ s.neighborList, n.addr = x.1 ∧ n.txRingbuf.toList.head? = some x.2

omit [DecidableEq A] in
theorem packetFor_atHead {n : Neighbor c} (hn : n ∈ s.neighborList) (h : packetFor link n = some x) : AtHead s x := by
  obtain ⟨p, hp, rfl⟩ := map_eq_some_iff.mp h
  rw [queueGetPacketForNbr] at hp
  split at hp
  · cases hp
  · exact ⟨n, hn, rfl, (Ring.peekGet_eq _).symm.trans hp⟩

theorem queueGetNbr_mem {n : Neighbor c} (h : queueGetNbr s a = some n) : n ∈ s.neighborList ∧ n.addr = a :=
  ⟨mem_of_find?_eq_some h, by simpa using find?_some h⟩

theorem bind_packetFor_atHead (h : (queueGetNbr s a).bind (packetFor link) = some x) : AtHead s x := by
  obtain ⟨n, hn, hx⟩ := bind_eq_some_iff.mp h
  exact packetFor_atHead (queueGetNbr_mem hn).1 hx

theorem getPacket_atHead (h : getPacketAndNeighborForLink s link = some x) : AtHead s x := by
  rw [getPacketAndNeighborForLink] at h
  split at h
  · cases h
  dsimp only at h
  split at h
  next heb =>
    cases h
    split at heb
    · cases heb
    · exact bind_packetFor_atHead heb
  split at h
  · cases h
  split at h
  next hnbr =>
    cases h
    exact bind_packetFor_atHead hnbr
  split at h
  · obtain ⟨n, hn, hx⟩ := exists_of_findSome?_eq_some h
    split at hx
    · exact packetFor_atHead hn hx
    · cases hx
  · cases h

variable {backup : Option (Link A)}

theorem slotPacket_atHead {link' : Link A}
    (h : slotPacket s link backup = (link', some x)) : AtHead s x := by
  unfold slotPacket at h
  split at h
  · split at h
    · cases h
    · exact getPacket_atHead (congrArg Prod.snd h)
  · exact getPacket_atHead (congrArg Prod.snd h)

theorem slotOk_of_atHead (h : Inv s) {p : Fin c.queuebufNum} (hhead : AtHead s (a, p)) {i : Fin c.dequeuedArraySize}
    (hi : s.dequeued.peekPut = some i) (link : Link A) (seqno : UInt8) (phase : Phase) : SlotOk s ⟨link, a, p, i,
    (queueGetNbr s a).any Neighbor.isBroadcast, seqno, phase⟩ := by
  obtain ⟨n, hn, rfl, hp⟩ := hhead
  rw [Ring.peekPut] at hi
  split at hi
  · cases hi
  next hroom =>
    cases hi
    refine ⟨?_, rfl, hroom⟩
    obtain ⟨q, hq⟩ : ∃ q, n.txRingbuf.toList = p :: q := by
      cases hlist : n.txRingbuf.toList with
      | nil => rw [hlist] at hp; cases hp
      | cons x q => rw [hlist] at hp; cases hp; exact ⟨q, rfl⟩
    have hflag : (queueGetNbr s n.addr).any Neighbor.isBroadcast = n.isBroadcast := by
      cases hget : queueGetNbr s n.addr with
      | none =>
        have hne := find?_eq_none.mp hget n hn
        simp at hne
      | some m =>
        obtain ⟨hm, haddr⟩ := queueGetNbr_mem hget
        have hbm := h.isBroadcast _ (mem_map_of_mem (f := Neighbor.view) hm)
        have hbn := h.isBroadcast _ (mem_map_of_mem (f := Neighbor.view) hn)
        exact hbm.trans ((congrArg (fun a => decide (c.Virtual a)) haddr).trans hbn.symm)
    refine ⟨q, mem_map.mpr ⟨n, hn, ?_⟩⟩
    rw [Neighbor.view, hq, hflag]

/-! ### Steps -/

/-- The one slot that goes wrong: the packet is for a real neighbor and is not prepared while the status is
    still that of an earlier success. -/
def StaleOk (s : State c) : Event A → Prop
  | .slotStart link backup _ prepare _ =>
    ∃ link' a p, slotPacket s link backup = (link', some (a, p)) ∧ ¬c.Virtual a ∧ prepare = false ∧
      s.dequeued.peekPut ≠ none ∧ s.macTxStatus = .ok
  | _ => False

section
variable (h : Inv s)
include h

theorem Inv.endSlot (link : Link A) : Inv (endSlot link s) :=
  h.same rfl rfl (views_endSlot link s) rfl rfl rfl rfl nofun

theorem Inv.slotStart (hretries : c.maxFrameRetries < 255)
    {packetReady prepare : Bool} (hok : ¬StaleOk s (.slotStart link backup packetReady prepare rand))
    (hstep : slotStart s link backup packetReady prepare rand = some s') : Inv s' := by
  rw [Tsch.slotStart] at hstep
  split at hstep
  · cases hstep
  split at hstep
  · cases hstep
    exact h.endSlot _
  next link' a p hpacket =>
    split at hstep
    · cases hstep
      exact h.endSlot _
    next i hi =>
      have hslot := slotOk_of_atHead h (slotPacket_atHead hpacket) hi link' (s.packetMemb.mem p).seqno .beforeTx
      split at hstep
      · cases hstep
        exact h.same rfl rfl rfl rfl rfl rfl rfl fun slot hs => by
          cases hs
          exact hslot
      next hnot =>
        cases hstep
        refine h.finishTx hretries hslot ?_ rand
        intro hstatus hunicast
        -- A real neighbor's packet needs no update, so the radio refused it.
        have hflag : (queueGetNbr s a).any Neighbor.isBroadcast = decide (c.Virtual a) := by
          obtain ⟨q, hq⟩ := hslot.head
          exact h.isBroadcast _ hq
        have hvirtual : ¬c.Virtual a := of_decide_eq_false (hflag.symm.trans hunicast)
        have hprepare : prepare = false := by
          by_contra hprepare
          exact hnot ⟨fun heq => absurd (.inl heq) hvirtual, by simpa using hprepare⟩
        refine absurd ⟨link', a, p, hpacket, hvirtual, hprepare, ?_, hstatus⟩ hok
        rw [hi]
        exact some_ne_none i

theorem Inv.txStatus (status : MacTx) : Inv { s with macTxStatus := status } :=
  h.same rfl rfl rfl rfl rfl rfl rfl h.slot

theorem Inv.slotTransmit (hretries : c.maxFrameRetries < 255)
    {status : RadioTx} (hstep : slotTransmit s status rand = some s') : Inv s' := by
  rw [Tsch.slotTransmit] at hstep
  split at hstep
  · cases hstep
  rename_i slot hslot
  split at hstep
  · cases hstep
  split at hstep
  · split at hstep
    next hbroadcast =>
      cases hstep
      refine (h.txStatus _).finishTx hretries ((h.txStatus .ok).slot slot hslot) ?_ rand
      intro _ hunicast
      rw [hbroadcast] at hunicast
      cases hunicast
    · cases hstep
      refine h.same rfl rfl rfl rfl rfl rfl rfl fun slot' hs => ?_
      cases hs
      obtain ⟨hhead, hindex, hroom⟩ := h.slot slot hslot
      exact ⟨hhead, hindex, hroom⟩
  · cases hstep
    exact (h.txStatus _).finishTx hretries ((h.txStatus .err).slot slot hslot) nofun rand

variable {parseEack : List UInt8 → UInt8 → Nat}

theorem Inv.slotAck (hretries : c.maxFrameRetries < 255) {ackbuf :
    List UInt8} (hstep : slotAck parseEack s ackbuf rand = some s') : Inv s' := by
  rw [Tsch.slotAck] at hstep
  split at hstep
  · cases hstep
  rename_i slot hslot
  split at hstep
  · cases hstep
  · cases hstep
    have hinv := h.txStatus (if decide (ackbuf ≠ [] ∧ parseEack ackbuf slot.seqno ≠ 0) then .ok else .noack)
    refine hinv.finishTx hretries (hinv.slot slot hslot) ?_ rand
    intro hok _
    by_cases hacked : decide (ackbuf ≠ [] ∧ parseEack ackbuf slot.seqno ≠ 0) = true
    · rw [hacked]
    · simp only [hacked] at hok
      cases hok

theorem Inv.queueAddNbr [Inhabited (Fin c.queuebufNum)] (hstep : queueAddNbr s a = some s') : Inv s' := by
  rw [Tsch.queueAddNbr] at hstep
  split at hstep
  · cases hstep
    exact h
  next hget =>
    split at hstep
    · cases hstep
    rename_i hslot
    split at hstep
    · cases hstep
      refine h.addNbr (by simpa using hslot) ?_
      intro ha
      obtain ⟨v, hv, rfl⟩ := mem_map.mp ha
      obtain ⟨n, hn, rfl⟩ := mem_map.mp hv
      have hne := find?_eq_none.mp hget n hn
      simp [Neighbor.view] at hne
    · cases hstep
      exact h

theorem Inv.queueAddPacket [Inhabited (Fin c.queuebufNum)] {seqno : UInt8}
    {newQueuebuf : Bool} (hstep : queueAddPacket s a seqno newQueuebuf = some s') : Inv s' := by
  obtain ⟨s₁, hadd, hstep⟩ := bind_eq_some_iff.mp hstep
  have h₁ := h.queueAddNbr hadd
  split at hstep
  · cases hstep
    exact h₁
  rename_i n hn
  obtain ⟨hmem, rfl⟩ := queueGetNbr_mem hn
  split at hstep
  · cases hstep
    exact h₁
  rename_i i hi
  rw [Pool.alloc] at hstep
  rcases hfree : s₁.packetMemb.freeBlock with _ | p
  · rw [hfree] at hstep
    cases hstep
    exact h₁
  · rw [hfree] at hstep
    dsimp only at hstep
    split at hstep
    · cases hstep
      exact h₁.push hmem hi hfree seqno
    · cases hstep
      -- The block that was taken is given back.
      refine h₁.same rfl ?_ rfl rfl rfl rfl rfl h₁.slot
      funext x
      have hzero := Pool.freeBlock_some hfree
      by_cases hx : x = p
      · rw [hx]
        simp [Pool.free, Pool.take, hzero]
      · simp [Pool.free, Pool.take]

theorem Inv.configure (txLinksCount : Nat) (isTimeSource : Bool) :
    Inv { s with neighborList := updateNbr a (fun n : Neighbor c =>
      { n with txLinksCount := txLinksCount, isTimeSource := isTimeSource }) s.neighborList } := by
  refine h.same rfl rfl ?_ rfl rfl rfl rfl h.slot
  refine view_updateNbr_same ?_ s.neighborList
  intro n
  rfl

end

/-! ### Pending callbacks -/

theorem Inv.pendingCall (h : Inv s) (hstep : pendingCall s = some s') : Inv s' := by
  rw [Tsch.pendingCall] at hstep
  split at hstep
  · cases hstep
  rename_i hidle
  have hidle : s.pending = .idle := by simpa using hidle
  obtain ⟨i, hi, rfl⟩ := map_eq_some_iff.mp hstep
  have hhead := Ring.peekGet_eq s.dequeued
  rw [hi, map_some] at hhead
  obtain ⟨q, hq⟩ : ∃ q, s.dequeued.toList = s.dequeued.array i :: q := by
    cases hlist : s.dequeued.toList with
    | nil => rw [hlist] at hhead; cases hhead
    | cons x q => rw [hlist] at hhead; cases hhead; exact ⟨q, rfl⟩
  generalize s.dequeued.array i = p at hq
  set s' : State c := { s with
    pending := .called
    log := s.log ++ [.sent (s.packetMemb.mem p).id (s.packetMemb.mem p).ret
      (s.packetMemb.mem p).transmissions] }
  have hwaiting : waiting s' = waiting s := by
    rw [waiting, waiting, hidle]
  have huncalled : uncalled s = p :: q := by
    rw [uncalled, hidle, hq]
  have huncalled' : uncalled s' = q := by
    show s.dequeued.toList.tail = q
    rw [hq, tail_cons]
  have hcalling : calling s = [] := by rw [calling, hidle]
  have hcalling' : calling s' = [p] := by
    show s.dequeued.toList.take 1 = [p]
    rw [hq]
    rfl
  refine h.served _ (fun e he => ?_) rfl (h.sameQueues rfl) rfl rfl (by rw [hwaiting]; exact h.owns) (fun slot hs => ?_)
    (fun _ => by rw [hq]; exact cons_ne_nil _ _) ?_ ?_ ?_ fun id transmissions hmem => ?_
  · cases mem_singleton.mp he
    trivial
  · obtain ⟨hhead, hindex, hroom⟩ := h.slot slot hs
    exact ⟨hhead, hindex, hroom⟩
  · rw [huncalled, huncalled']
    exact fun x => mem_cons_of_mem _
  · rw [huncalled, huncalled']
    rfl
  · rw [hcalling, hcalling']
    rfl
  · injection mem_singleton.mp hmem with hid hret htransmissions
    rw [hid]
    exact h.acked p (by rw [huncalled]; exact mem_cons_self) hret.symm

omit [DecidableEq A] in
/-- An iteration that is under way has its packet at the head of the ring. -/
theorem dequeued_eq_cons (h : s.dequeued.toList ≠ []) :
    s.dequeued.toList = s.dequeued.array s.dequeued.get :: s.dequeued.drop.toList := by
  refine Ring.toList_eq_cons ?_
  rw [← Ring.length_toList]
  exact length_pos_iff.mpr h

theorem Inv.pendingFree (h : Inv s) (hstep : pendingFree s = some s') : Inv s' := by
  rw [Tsch.pendingFree] at hstep
  split at hstep
  · cases hstep
  rename_i hcalled
  have hcalled : s.pending = .called := by simpa using hcalled
  cases hstep
  have hq := dequeued_eq_cons (h.busy (by rw [hcalled]; exact Pending.noConfusion))
  generalize s.dequeued.array s.dequeued.get = p at hq
  set s' : State c := { s with
    pending := .freed
    packetMemb := s.packetMemb.free p
    log := s.log ++ [.freed (s.packetMemb.mem p).id] }
  have hwaiting : waiting s = p :: waiting s' := by
    show waiting s = p :: s.dequeued.toList.tail
    rw [waiting, hcalled, hq]
    rfl
  have huncalled : uncalled s' = uncalled s := by rw [uncalled, uncalled, hcalled]
  have hcalling : calling s = [p] := by
    rw [calling, hcalled, hq]
    rfl
  refine h.served _ (fun e he => ?_) rfl (h.sameQueues rfl) rfl rfl (h.owns.free_erase ?_) (fun slot hs => ?_)
    (fun _ => by rw [hq]; exact cons_ne_nil _ _) (by rw [huncalled]; exact fun _ => id) (by rw [huncalled]; rfl)
    (by rw [hcalling]; rfl) fun id transmissions hmem => by cases mem_singleton.mp hmem
  · cases mem_singleton.mp he
    trivial
  · rw [hwaiting]
    exact perm_middle
  · obtain ⟨hhead, hindex, hroom⟩ := h.slot slot hs
    exact ⟨hhead, hindex, hroom⟩

theorem views_filter {l : List (Neighbor c)} {keep : Neighbor c → Bool}
    (hempty : ∀ n ∈ l, keep n = false → n.txRingbuf.toList = []) :
    ptrs ((l.filter keep).map Neighbor.view) = ptrs (l.map Neighbor.view) ∧
    ∀ a, queueAt ((l.filter keep).map Neighbor.view) a = queueAt (l.map Neighbor.view) a := by
  induction l with
  | nil => exact ⟨rfl, fun _ => rfl⟩
  | cons n l ih =>
    obtain ⟨hptrs, hqueue⟩ := ih fun m hm => hempty m (mem_cons_of_mem _ hm)
    cases hkeep : keep n with
    | true =>
      rw [filter_cons_of_pos hkeep, map_cons, map_cons, ptrs_cons, ptrs_cons, hptrs]
      refine ⟨rfl, fun a => ?_⟩
      rw [queueAt_cons, queueAt_cons, hqueue]
    | false =>
      have hnil : n.view.2.2 = [] := hempty n mem_cons_self hkeep
      rw [filter_cons_of_neg (by rw [hkeep]; exact Bool.false_ne_true), map_cons, ptrs_cons, hnil, hptrs]
      refine ⟨rfl, fun a => ?_⟩
      rw [queueAt_cons, hnil, ite_self, hqueue]
      rfl

theorem Inv.pendingPrune (h : Inv s) (hstep : pendingPrune s = some s') : Inv s' := by
  rw [Tsch.pendingPrune] at hstep
  split at hstep
  · cases hstep
  rename_i hfreed
  have hfreed : s.pending = .freed := by simpa using hfreed
  split at hstep
  · cases hstep
  cases hstep
  have hunused : ∀ n : Neighbor c, (!n.unused) = false → n.txRingbuf.toList = [] := by
    intro n hn
    refine Ring.toList_eq_nil ?_
    simp [Neighbor.unused] at hn
    omega
  obtain ⟨hptrs, hqueue⟩ := views_filter (l := s.neighborList) fun n _ => hunused n
  set s' : State c := { s with
    pending := .pruned
    neighborList := s.neighborList.filter fun n => !n.unused }
  have hwaiting : waiting s' = waiting s := by rw [waiting, waiting, hfreed]
  have huncalled : uncalled s' = uncalled s := by rw [uncalled, uncalled, hfreed]
  have hcalling : calling s' = calling s := by rw [calling, calling, hfreed]
  have hsub : ∀ v ∈ views s', v ∈ views s := fun v hv => by
    obtain ⟨n, hn, rfl⟩ := mem_map.mp hv
    exact mem_map_of_mem (mem_filter.mp hn).1
  refine h.quiet rfl ⟨hptrs, hqueue, h.addrs.sublist ((filter_sublist.map _).map _), fun v hv => h.isBroadcast v (hsub v hv)⟩
    rfl rfl (fun slot hs => ?_) (fun _ => h.busy (by rw [hfreed]; exact Pending.noConfusion)) hwaiting huncalled hcalling
  obtain ⟨⟨q, hq⟩, hindex, hroom⟩ := h.slot slot hs
  refine ⟨⟨q, ?_⟩, hindex, hroom⟩
  obtain ⟨n, hn, hview⟩ := mem_map.mp hq
  refine mem_map.mpr ⟨n, mem_filter.mpr ⟨hn, ?_⟩, hview⟩
  by_contra hnot
  have hnil := hunused n (by simpa using hnot)
  have hcons : n.txRingbuf.toList = slot.packet :: q := congrArg (fun v => v.2.2) hview
  rw [hnil] at hcons
  cases hcons

theorem Inv.pendingGet (h : Inv s) (hstep : pendingGet s = some s') : Inv s' := by
  rw [Tsch.pendingGet] at hstep
  split at hstep
  · cases hstep
  rename_i hpruned
  have hpruned : s.pending = .pruned := by simpa using hpruned
  cases hstep
  set s' : State c := { s with pending := .idle, dequeued := s.dequeued.drop }
  have hwaiting : waiting s' = waiting s := by
    show s.dequeued.drop.toList = _
    rw [waiting, hpruned, Ring.toList_drop]
  have huncalled : uncalled s' = uncalled s := by
    show s.dequeued.drop.toList = _
    rw [uncalled, hpruned, Ring.toList_drop]
  have hcalling : calling s' = calling s := by rw [calling, calling, hpruned]
  refine h.quiet rfl (h.sameQueues rfl) rfl rfl (fun slot hs => ?_) (fun hne => absurd rfl hne) hwaiting huncalled hcalling
  obtain ⟨hhead, hindex, hroom⟩ := h.slot slot hs
  have hlt := s.dequeued.elements_lt
  refine ⟨hhead, hindex.trans (Ring.put_drop _).symm, ?_⟩
  rw [Ring.elements_drop]
  omega

/-! ### Runs -/

/-- What the log of a state must say. -/
structure Rightly (s : State c) : Prop where
  /-- A packet for a real neighbor that is reported as sent was prepared, transmitted and acknowledged in its
      last slot. -/
  acked : ∀ id transmissions, .sent id .ok transmissions ∈ s.log → LastAcked c s.log id
  /-- What was queued to a neighbor has left in this order or is in the queue. -/
  fifo : ∀ a, queuedTo a s.log = leftFrom a s.log ++ ids s.packetMemb.mem (queueAt (views s) a)
  /-- No packet has more slots than allowed, and one that has had them all has left. -/
  attempts : ∀ id, (attemptsOf id s.log).length ≤ c.maxFrameRetries + 1
  dropped : ∀ id ∈ queuedIds s.log, (attemptsOf id s.log).length = c.maxFrameRetries + 1 →
    id ∈ leftIds s.log
  /-- Packets leave once; they are called back and freed in the order in which they left, all of them by the
      time the ring is empty. -/
  once : (leftIds s.log).Nodup
  sent : sentIds s.log <+: leftIds s.log
  freed : freedIds s.log <+: sentIds s.log
  drained : s.dequeued.toList = [] → sentIds s.log = leftIds s.log ∧ freedIds s.log = leftIds s.log

theorem Inv.rightly (h : Inv s) : Rightly s where
  acked := h.ackedSent
  fifo := h.fifo
  attempts := h.bound
  dropped := by
    intro id hid hlen
    rw [h.range] at hid
    rcases mem_append.mp (h.all.mem_iff.mpr hid) with hleft | hqueued
    · exact hleft
    · obtain ⟨p, hp, rfl⟩ := mem_map.mp hqueued
      obtain ⟨htries, hless⟩ := h.tries p hp
      omega
  once := (nodup_append.mp h.nodup_ids).1
  sent := ⟨_, h.sent.symm⟩
  freed := ⟨_, h.freed.symm⟩
  drained := by
    intro hempty
    have hidle : s.pending = .idle := by
      by_contra hne
      exact h.busy hne hempty
    have hsent := h.sent
    have hfreed := h.freed
    have huncalled : uncalled s = [] := by rw [uncalled, hidle, hempty]
    have hcalling : calling s = [] := by rw [calling, hidle]
    rw [huncalled, ids, map_nil, append_nil] at hsent
    rw [hcalling, ids, map_nil, append_nil] at hfreed
    exact ⟨hsent.symm, hfreed.symm.trans hsent.symm⟩

variable [Inhabited (Fin c.queuebufNum)]

theorem Inv.step {e : Event A} (h : Inv s)
    (hretries : c.maxFrameRetries < 255) (hok : ¬StaleOk s e) (hstep : step parseEack s e = some s') : Inv s' := by
  cases e with
  | addPacket addr seqno newQueuebuf => exact h.queueAddPacket hstep
  | slotStart link backup packetReady prepare rand => exact h.slotStart hretries hok hstep
  | slotTransmit status rand => exact h.slotTransmit hretries hstep
  | slotAck ackbuf rand => exact h.slotAck hretries hstep
  | missedSlot link =>
    rw [Tsch.step] at hstep
    split at hstep
    · cases hstep
    · cases hstep
      exact h.endSlot link
  | configure addr txLinksCount isTimeSource =>
    cases hstep
    exact h.configure txLinksCount isTimeSource
  | pendingCall => exact h.pendingCall hstep
  | pendingFree => exact h.pendingFree hstep
  | pendingPrune => exact h.pendingPrune hstep
  | pendingGet => exact h.pendingGet hstep

theorem inv_reset : Inv (reset : State c) := by
  have hring : (emptyRing c.dequeuedSize_pow :
      Ring c.dequeuedArraySize (Fin c.queuebufNum)).toList = [] := by
    refine Ring.toList_eq_nil ?_
    simp [emptyRing, Ring.elements]
  exact
    { addrs := nodup_nil
      isBroadcast := by rintro _ ⟨⟩
      owns := by
        show Pool.Owns _ ([] ++ (emptyRing c.dequeuedSize_pow : Ring _ _).toList)
        rw [hring]
        exact Pool.owns_init _
      slot := by rintro _ ⟨⟩
      busy := fun hne => absurd rfl hne
      range := rfl
      fifo := fun _ => rfl
      all := .refl _
      sent := by
        show [] = [] ++ ids _ (emptyRing c.dequeuedSize_pow : Ring _ _).toList
        rw [hring]
        rfl
      freed := rfl
      tries := by rintro _ ⟨⟩
      bound := fun _ => Nat.zero_le _
      fresh := fun _ _ => rfl
      acked := fun x hx => by
        have hx' : x ∈ (emptyRing c.dequeuedSize_pow : Ring _ _).toList := hx
        rw [hring] at hx'
        cases hx'
      ackedSent := fun _ _ hmem => absurd hmem not_mem_nil }

theorem inv_init : Inv (init : State c) := by
  rw [init]
  cases heb : queueAddNbr (reset : State c) c.ebAddress with
  | none => exact inv_reset
  | some s =>
    have hs := inv_reset.queueAddNbr heb
    cases hbroadcast : queueAddNbr s c.broadcastAddress with
    | none => simpa [hbroadcast] using inv_reset
    | some s' => simpa [hbroadcast] using hs.queueAddNbr hbroadcast

/-- THE REPORTS OF TSCH. In every run of queueing, slots, radio results and pending callbacks in which no packet for a
    real neighbor fails to be prepared while the status still says success, packets are reported rightly. -/
theorem tsch_reports_rightly (parseEack : List UInt8 → UInt8 → Nat) (hretries : c.maxFrameRetries < 255) {es : List
    (Event A)} {s : State c} (hrun : Run (step parseEack) (fun s e => ¬StaleOk s e) init es s) : Rightly s :=
  (hrun.invariant (P := Inv) (fun _ _ _ h hok hstep => h.step hretries hok hstep) inv_init).rightly

/-- PACKETS ARE CONSERVED: in every such run a packet that was queued is in the queue of a neighbor, waits for its
    callback or to be freed, or was freed, and just one of these; and the allocated blocks are those of the packets
    that are queued or wait, so that no block is lost. -/
theorem packets_conserved (parseEack : List UInt8 → UInt8 → Nat) (hretries : c.maxFrameRetries < 255)
    {es : List (Event A)} {s : State c} (hrun : Run (step parseEack) (fun s e => ¬StaleOk s e) init es s) :
    (freedIds s.log ++ ids s.packetMemb.mem (calling s ++ uncalled s ++ ptrs (views s))).Perm (queuedIds s.log) ∧
    (queuedIds s.log).Nodup ∧
    s.packetMemb.Owns (ptrs (views s) ++ waiting s) := by
  have h : Inv s := hrun.invariant (fun _ _ _ h hok hstep => h.step hretries hok hstep) inv_init
  have hall := h.all
  rw [h.sent, h.freed] at hall
  rw [h.range]
  refine ⟨?_, nodup_range, h.owns⟩
  simpa only [ids, map_append, append_assoc] using hall

end

/-! ### Concrete runs -/

/-- A small configuration: address 0 for beacons, 255 for broadcasts. -/
def smallConfig : Config Nat where
  queueNumPerNeighbor := 4
  dequeuedArraySize := 4
  queuebufNum := 4
  maxNeighborQueues := 4
  macMinBe := 1
  macMaxBe := 7
  maxFrameRetries := 8
  ebAddress := 0
  broadcastAddress := 255
  queueNum_pow := ⟨2, rfl⟩
  dequeuedSize_pow := ⟨2, rfl⟩

instance : Inhabited (Fin smallConfig.queuebufNum) := inferInstanceAs (Inhabited (Fin 4))

/-- A dedicated link to the neighbor 5. -/
def linkTo5 : Link Nat := ⟨true, false, false, .normal, 5⟩

/-- An ACK is accepted if its third byte is the sequence number. -/
def parseSeqno (ackbuf : List UInt8) (seqno : UInt8) : Nat := if ackbuf[2]? = some seqno then 3 else 0

/-- Two packets for one neighbor: the first is acknowledged in its second slot, the second in its first. -/
def twoPackets : List (Event Nat) :=
  [.addPacket 5 17 true, .addPacket 5 18 true,
    .slotStart linkTo5 none true true 0, .slotTransmit .ok 0, .slotAck [] 0,
    .slotStart linkTo5 none true true 0, .slotTransmit .ok 0, .slotAck [2, 0, 17] 0,
    .slotStart linkTo5 none true true 0, .pendingCall, .pendingFree, .slotTransmit .ok 0,
    .slotAck [2, 0, 18] 0, .pendingPrune, .pendingGet, .pendingCall, .pendingFree, .pendingPrune,
    .pendingGet]

/-- The packet is never prepared, and the status that is reported was there before. -/
def unprepared : List (Event Nat) :=
  [.addPacket 5 17 true, .slotStart linkTo5 none true false 0, .pendingCall]

/-- A decision that no stale status is used: none but prepared packets. -/
def preparedOnly {c : Config Nat} (_ : State c) : Event Nat → Bool
  | .slotStart _ _ _ prepare _ => prepare
  | _ => true

theorem not_stale_of_prepared {c : Config Nat} (s : State c) (e : Event Nat)
    (h : preparedOnly s e = true) : ¬StaleOk s e := by
  cases e with
  | slotStart link backup packetReady prepare rand =>
    rintro ⟨_, _, _, -, -, hprepare, -⟩
    rw [preparedOnly, hprepare] at h
    cases h
  | _ => exact fun hstale => hstale

theorem tsch_reports_rightly_at_twoPackets : ∃ s : State smallConfig, Run (step parseSeqno) (fun s e => ¬StaleOk s
    e) init twoPackets s ∧ sentIds s.log = [0, 1] ∧ freedIds s.log = [0, 1] ∧ .sent 0 .ok 2 ∈ s.log ∧ Rightly s := by
  obtain ⟨s, hrun, hs⟩ : ∃ s : State smallConfig,
      Run (step parseSeqno) (fun s e => ¬StaleOk s e) init twoPackets s ∧ _ :=
    exists_run preparedOnly (fun s : State smallConfig => decide (sentIds s.log = [0, 1] ∧
      freedIds s.log = [0, 1] ∧ .sent 0 .ok 2 ∈ s.log)) not_stale_of_prepared (by decide)
  obtain ⟨hsent, hfreed, hok⟩ := of_decide_eq_true hs
  exact ⟨s, hrun, hsent, hfreed, hok, tsch_reports_rightly parseSeqno (by decide) hrun⟩

theorem packets_conserved_at_twoPackets : ∃ s : State smallConfig, freedIds s.log = [0, 1] ∧ queuedIds s.log = [0, 1] ∧
    s.packetMemb.Owns (ptrs (views s) ++ waiting s) := by
  obtain ⟨s, hrun, hs⟩ : ∃ s : State smallConfig,
      Run (step parseSeqno) (fun s e => ¬StaleOk s e) init twoPackets s ∧ _ :=
    exists_run preparedOnly (fun s : State smallConfig => decide (freedIds s.log = [0, 1] ∧ queuedIds s.log = [0, 1]))
      not_stale_of_prepared (by decide)
  obtain ⟨hfreed, hqueued⟩ := of_decide_eq_true hs
  exact ⟨s, hfreed, hqueued, (packets_conserved parseSeqno (by decide) hrun).2.2⟩

/-- A packet that the radio would not even take is reported as sent. -/
theorem unprepared_packet_reported_sent :
    ∃ s : State smallConfig,
      Run (step parseSeqno) (fun _ _ => True) init unprepared s ∧
      .queued 5 0 ∈ s.log ∧
      .sent 0 .ok 1 ∈ s.log ∧
      attemptsOf 0 s.log = [⟨false, false, false⟩] ∧
      ¬smallConfig.Virtual 5 := by
  obtain ⟨s, hrun, hs⟩ : ∃ s : State smallConfig, Run (step parseSeqno) (fun _ _ => True) init unprepared s ∧ _ :=
    exists_run (fun _ _ => true) (fun s : State smallConfig => decide (.queued 5 0 ∈ s.log ∧
      .sent 0 .ok 1 ∈ s.log ∧ attemptsOf 0 s.log = [⟨false, false, false⟩])) (fun _ _ _ => trivial)
      (by decide)
  obtain ⟨hqueued, hsent, hattempts⟩ := of_decide_eq_true hs
  exact ⟨s, hrun, hqueued, hsent, hattempts, by decide⟩

end CSync.Tsch
