import CSync.Mac.Csma

/-! Packet accounting in the CSMA layer, over every run.

    Two invariants share the work. `Kept s pending live` is about the blocks: the packets of `live` own one block of
    each pool, nothing else is allocated, and a call is called back, pending or live. `Queues s opened` is about the
    neighbors: those on the list are the ones with a packet queued, and the one that `send_packet` has just opened.
    They meet in `queued`, the packets on the queues of the listed neighbors. -/

namespace CSync.Csma
open Lib List Function Option

section
variable {A : Type} {c : Config}

/-- The calls whose callback ran. -/
def callbacks (log : List (Entry c)) : List Nat :=
  log.filterMap fun
    | .callback id _ _ => some id
    | .given _ _ => none

def queueOf (s : State A c) (n : Fin c.maxNeighborQueues) : List (Fin c.maxQueuedPackets) :=
  (s.neighborMemb.mem n).queuedPacketList

def queued (s : State A c) : List (Fin c.maxQueuedPackets) := s.neighborList.flatMap (queueOf s)

def ptrOf (s : State A c) (p : Fin c.maxQueuedPackets) : Option (Fin c.maxQueuedPackets) :=
  (s.packetMemb.mem p).ptr

def bufOf (s : State A c) (p : Fin c.maxQueuedPackets) : Option (Fin c.queuebufNum) :=
  (s.packetMemb.mem p).buf

def idOf (s : State A c) (p : Fin c.maxQueuedPackets) : Option Nat :=
  (ptrOf s p).map fun m => (s.metadataMemb.mem m).id

/-- The blocks: those of the packets in `live`, and no others, are allocated. -/
structure Kept (s : State A c) (pending : List Nat) (live : List (Fin c.maxQueuedPackets)) : Prop where
  packets : s.packetMemb.Owns live
  whole : ∀ p ∈ live, ∃ b m, s.packetMemb.mem p = ⟨some b, some m⟩
  metadata : s.metadataMemb.Owns (live.filterMap (ptrOf s))
  bufs : s.queuebufMemb.Owns (live.filterMap (bufOf s))
  ids : (callbacks s.log ++ (pending ++ live.filterMap (idOf s))).Perm (range s.nextId)

/-- The neighbors: those with a packet queued, and the one just opened, are on the list. -/
structure Queues (s : State A c) (opened : Option (Fin c.maxNeighborQueues)) : Prop where
  owns : s.neighborMemb.Owns s.neighborList
  mem_iff : ∀ n, n ∈ s.neighborList ↔ queueOf s n ≠ [] ∨ opened = some n
  timer : ∀ n, (s.neighborMemb.mem n).transmitTimer → n ∈ s.neighborList

/-- Both. Nothing is open or pending between two events. -/
structure Inv (opened : Option (Fin c.maxNeighborQueues)) (pending : List Nat) (s : State A c) : Prop where
  queues : Queues s opened
  kept : Kept s pending (queued s)

/-! ### Blocks -/

variable {s t : State A c} {pending : List Nat} {live : List (Fin c.maxQueuedPackets)} {p m : Fin c.maxQueuedPackets}
variable {id : Nat} {n : Fin c.maxNeighborQueues} {f : NeighborQueue A c → NeighborQueue A c}

theorem Kept.perm {live' : List (Fin c.maxQueuedPackets)}
    (h : Kept s pending live) (hperm : live'.Perm live) : Kept s pending live' where
  packets := h.packets.perm hperm
  whole p hp := h.whole p (hperm.mem_iff.mp hp)
  metadata := h.metadata.perm (hperm.filterMap _)
  bufs := h.bufs.perm (hperm.filterMap _)
  ids := (((hperm.filterMap _).append_left _).append_left _).trans h.ids

theorem Kept.congr (h : Kept s pending live) (hp : t.packetMemb.count = s.packetMemb.count)
    (hpm : ∀ r ∈ live, t.packetMemb.mem r = s.packetMemb.mem r) (hm : t.metadataMemb.count = s.metadataMemb.count)
    (hmm : t.metadataMemb.mem = s.metadataMemb.mem) (hb : t.queuebufMemb = s.queuebufMemb)
    (hlog : callbacks t.log = callbacks s.log) (hid : t.nextId = s.nextId) : Kept t pending live := by
  have hptr : live.filterMap (ptrOf t) = live.filterMap (ptrOf s) :=
    filterMap_congr fun r hr => by simp only [ptrOf, hpm r hr]
  have hbuf : live.filterMap (bufOf t) = live.filterMap (bufOf s) :=
    filterMap_congr fun r hr => by simp only [bufOf, hpm r hr]
  have hids : live.filterMap (idOf t) = live.filterMap (idOf s) :=
    filterMap_congr fun r hr => by simp only [idOf, ptrOf, hpm r hr, hmm]
  constructor
  · exact ⟨h.packets.nodup, fun i => by rw [hp]; exact h.packets.count_eq i⟩
  · exact fun r hr => by rw [hpm r hr]; exact h.whole r hr
  · rw [hptr]
    exact ⟨h.metadata.nodup, fun i => by rw [hm]; exact h.metadata.count_eq i⟩
  · rw [hb, hbuf]; exact h.bufs
  · rw [hlog, hid, hids]; exact h.ids

theorem Kept.freeBlocks (h : Kept s pending (p :: live)) (hm : ptrOf s p = some m) :
    Kept (Csma.freeBlocks p s) ((s.metadataMemb.mem m).id :: pending) live := by
  obtain ⟨b, m', hblock⟩ := h.whole p (by simp)
  have hbuf : bufOf s p = some b := by simp only [bufOf, hblock]
  obtain rfl : m' = m := by
    simp only [ptrOf, hblock, some.injEq] at hm
    exact hm
  have hmeta : (Csma.freeBlocks p s).metadataMemb = s.metadataMemb.free m' := by
    simp only [Csma.freeBlocks, hblock, elim_some]
  have hbufs : (Csma.freeBlocks p s).queuebufMemb = s.queuebufMemb.free b := by
    simp only [Csma.freeBlocks, hblock, elim_some]
  have hids : idOf (Csma.freeBlocks p s) = idOf s := by
    funext q
    simp only [idOf, hmeta, Pool.free_mem]
    rfl
  constructor
  · exact h.packets.free_erase (.refl _)
  · exact fun q hq => h.whole q (mem_cons_of_mem p hq)
  · rw [hmeta]
    exact h.metadata.free_erase (by rw [filterMap_cons_some hm]; rfl)
  · rw [hbufs]
    exact h.bufs.free_erase (by rw [filterMap_cons_some hbuf]; rfl)
  · have hid : idOf s p = some (s.metadataMemb.mem m').id := by simp only [idOf, hm, map_some]
    have hall := h.ids
    rw [filterMap_cons_some hid] at hall
    refine List.Perm.trans (List.Perm.append_left _ ?_) hall
    rw [hids]
    exact perm_middle.symm

theorem Kept.callSent (h : Kept s [id] live) (status : MacTx) (transmissions : Nat) :
    Kept (Csma.callSent id status transmissions s) [] live where
  packets := h.packets
  whole := h.whole
  metadata := h.metadata
  bufs := h.bufs
  ids := by
    have : callbacks (Csma.callSent id status transmissions s).log = callbacks s.log ++ [id] := by
      simp only [callbacks, Csma.callSent, filterMap_append]
      rfl
    rw [this, append_assoc]
    exact h.ids

theorem Kept.newCall (h : Kept s [] live)
    (seqno : UInt16) : Kept { s with seqno := seqno, nextId := s.nextId + 1 } [s.nextId] live where
  packets := h.packets
  whole := h.whole
  metadata := h.metadata
  bufs := h.bufs
  ids := by
    rw [range_succ]
    refine List.Perm.trans ?_ ((List.Perm.append_right [s.nextId] h.ids))
    rw [append_assoc]
    exact List.Perm.append_left _ perm_append_comm

/-- The three blocks of a new packet, taken for a pending call. -/
def takeBlocks (q m : Fin c.maxQueuedPackets) (b : Fin c.queuebufNum) (metadata : QbufMetadata)
    (seqno : UInt16) (s : State A c) : State A c :=
  { s with
    packetMemb := (s.packetMemb.take q).modify q fun _ => ⟨some b, some m⟩
    metadataMemb := (s.metadataMemb.take m).modify m fun _ => metadata
    queuebufMemb := (s.queuebufMemb.take b).modify b fun _ => seqno }

variable {q : Fin c.maxQueuedPackets}

theorem Kept.takeBlocks (metadata : QbufMetadata) (h : Kept s (metadata.id :: pending) live)
    {b : Fin c.queuebufNum} (hq : s.packetMemb.freeBlock = some q)
    (hm : s.metadataMemb.freeBlock = some m) (hb : s.queuebufMemb.freeBlock = some b) (seqno : UInt16) :
    Kept (Csma.takeBlocks q m b metadata seqno s) pending (q :: live) := by
  set t := Csma.takeBlocks q m b metadata seqno s with ht
  have hself : t.packetMemb.mem q = ⟨some b, some m⟩ := update_self ..
  have hmeta : t.metadataMemb.mem m = metadata := update_self ..
  have hother : ∀ r ∈ live, t.packetMemb.mem r = s.packetMemb.mem r := by
    intro r hr
    refine update_of_ne ?_ _ _
    rintro rfl
    exact h.packets.not_mem_of_free hq hr
  have hptr : live.filterMap (ptrOf t) = live.filterMap (ptrOf s) :=
    filterMap_congr fun r hr => by simp only [ptrOf, hother r hr]
  have hbuf : live.filterMap (bufOf t) = live.filterMap (bufOf s) :=
    filterMap_congr fun r hr => by simp only [bufOf, hother r hr]
  have hid : live.filterMap (idOf t) = live.filterMap (idOf s) := by
    refine filterMap_congr fun r hr => ?_
    obtain ⟨b', m', hblock⟩ := h.whole r hr
    have hmr : ptrOf s r = some m' := by simp only [ptrOf, hblock]
    have hmt : ptrOf t r = some m' := by rw [ptrOf, hother r hr]; exact hmr
    -- The metadata of a live packet is another block than the one just taken.
    have hne : m' ≠ m := by
      rintro rfl
      exact h.metadata.not_mem_of_free hm (mem_filterMap.mpr ⟨r, hr, hmr⟩)
    have hsame : t.metadataMemb.mem m' = s.metadataMemb.mem m' := update_of_ne hne _ _
    simp only [idOf, hmr, hmt, map_some, hsame]
  have hptrq : ptrOf t q = some m := by simp only [ptrOf, hself]
  have hbufq : bufOf t q = some b := by simp only [bufOf, hself]
  have hidq : idOf t q = some metadata.id := by simp only [idOf, hptrq, map_some, hmeta]
  constructor
  · exact (h.packets.take_insert hq (.refl _)).modify q fun _ => ⟨some b, some m⟩
  · intro r hr
    rcases mem_cons.mp hr with rfl | hr
    · exact ⟨b, m, hself⟩
    · rw [hother r hr]; exact h.whole r hr
  · rw [filterMap_cons_some hptrq, hptr]
    exact (h.metadata.take_insert hm (.refl _)).modify m fun _ => metadata
  · rw [filterMap_cons_some hbufq, hbuf]
    exact (h.bufs.take_insert hb (.refl _)).modify b fun _ => seqno
  · rw [filterMap_cons_some hidq, hid]
    exact (perm_middle.append_left _).trans h.ids

def SameNeighbors (s t : State A c) : Prop :=
  t.neighborMemb = s.neighborMemb ∧ t.neighborList = s.neighborList

theorem SameNeighbors.queueOf (h : SameNeighbors s t) : Csma.queueOf t = Csma.queueOf s := by
  funext n
  rw [Csma.queueOf, h.1, Csma.queueOf]

theorem SameNeighbors.queued (h : SameNeighbors s t) : Csma.queued t = Csma.queued s := by
  rw [Csma.queued, h.2, h.queueOf, Csma.queued]

theorem SameNeighbors.queues (h : SameNeighbors s t)
    {opened : Option (Fin c.maxNeighborQueues)} (hq : Queues s opened) : Queues t opened := by
  constructor
  · rw [h.1, h.2]; exact hq.owns
  · rw [h.2, h.queueOf]; exact hq.mem_iff
  · rw [h.1, h.2]; exact hq.timer

/-- Three blocks for the pending call, or none at all. -/
theorem Kept.allocPacket (h : Kept s [id] live) (seqno : UInt16) (packetbuf : Packetbuf A) :
    (∃ q t, Csma.allocPacket seqno id packetbuf s = (some q, t) ∧ Kept t [] (q :: live) ∧ SameNeighbors s t) ∨
    ∃ t, Csma.allocPacket seqno id packetbuf s = (none, t) ∧ Kept t [id] live ∧ SameNeighbors s t := by
  cases hq : s.packetMemb.freeBlock with
  | none =>
    refine .inr ⟨s, ?_, h, rfl, rfl⟩
    simp only [Csma.allocPacket, Pool.alloc, hq]
  | some q =>
    have hne : ∀ r ∈ live, r ≠ q := by
      rintro r hr rfl
      exact h.packets.not_mem_of_free hq hr
    have hback (f : RdcBufList c → RdcBufList c) :
        (((s.packetMemb.take q).modify q f).free q).count = s.packetMemb.count :=
      Pool.take_free_count s.packetMemb q
    have hsame (f : RdcBufList c → RdcBufList c) (r : Fin c.maxQueuedPackets) (hr : r ∈ live) :
        (((s.packetMemb.take q).modify q f).free q).mem r = s.packetMemb.mem r :=
      update_of_ne (hne r hr) _ _
    cases hm : s.metadataMemb.freeBlock with
    | none =>
      refine .inr ⟨{ s with
        packetMemb := ((s.packetMemb.take q).modify q fun p => { p with ptr := none }).free q }, ?_, ?_, rfl, rfl⟩
      · simp only [Csma.allocPacket, Pool.alloc, hq, hm]
      · exact h.congr (hback _) (hsame _) rfl rfl rfl rfl rfl
    | some m =>
      -- No queue buffer: the list element and the metadata are given back.
      have hnobuf : Kept { s with
          metadataMemb := (s.metadataMemb.take m).free m
          packetMemb := ((s.packetMemb.take q).modify q fun _ => ⟨none, some m⟩).free q } [id] live :=
        h.congr (hback _) (hsame _) (Pool.take_free_count s.metadataMemb m) rfl rfl rfl rfl
      cases hno : packetbuf.noQueuebuf with
      | true =>
        refine .inr ⟨_, ?_, hnobuf, rfl, rfl⟩
        simp only [Csma.allocPacket, Pool.alloc, hq, hm, hno]
      | false =>
        cases hb : s.queuebufMemb.freeBlock with
        | none =>
          refine .inr ⟨_, ?_, hnobuf, rfl, rfl⟩
          simp only [Csma.allocPacket, Pool.alloc, hq, hm, hno, hb]
        | some b =>
          let maxTransmissions := if packetbuf.maxMacTransmissions = 0 then c.maxMaxFrameRetries + 1
            else packetbuf.maxMacTransmissions
          refine .inl ⟨q, Csma.takeBlocks q m b ⟨id, .ofNat maxTransmissions⟩ seqno s, ?_,
            h.takeBlocks ⟨id, .ofNat maxTransmissions⟩ hq hm hb seqno, rfl, rfl⟩
          simp only [Csma.allocPacket, Pool.alloc, hq, hm, hno, hb, Csma.takeBlocks]
          rfl

/-! ### Neighbors -/

theorem queueOf_update_self (n : Fin c.maxNeighborQueues) (f : NeighborQueue A c → NeighborQueue A c) (s : State A c)
    : queueOf (updateNeighbor n f s) n = (f (s.neighborMemb.mem n)).queuedPacketList := by
  simp only [queueOf, updateNeighbor, Pool.modify, update_self]

theorem queueOf_update_of_ne {m : Fin c.maxNeighborQueues} (hne : m ≠ n)
    (f : NeighborQueue A c → NeighborQueue A c) (s : State A c) : queueOf (updateNeighbor n f s) m = queueOf s m := by
  simp only [queueOf, updateNeighbor, Pool.modify, update_of_ne hne]

theorem queued_perm (hn : n ∈ s.neighborList) :
    (queued s).Perm (queueOf s n ++ (s.neighborList.erase n).flatMap (queueOf s)) :=
  (perm_cons_erase hn).flatMap_right _

theorem others_update {l : List (Fin c.maxNeighborQueues)} (hl : l.Nodup) (f : NeighborQueue A c → NeighborQueue A c)
    (s : State A c) : (l.erase n).flatMap (queueOf (updateNeighbor n f s)) = (l.erase n).flatMap (queueOf s) := by
  refine flatMap_congr fun m hm => ?_
  refine queueOf_update_of_ne ?_ f s
  rintro rfl
  exact hl.not_mem_erase hm

theorem queueOf_update_same (hf : ∀ q, (f q).queuedPacketList = q.queuedPacketList) (s : State A c) :
    queueOf (updateNeighbor n f s) = queueOf s := by
  funext m
  by_cases hm : m = n
  · subst hm
    rw [queueOf_update_self, hf, queueOf]
  · exact queueOf_update_of_ne hm f s

theorem Queues.update {opened : Option (Fin c.maxNeighborQueues)} (h : Queues s opened)
    (n : Fin c.maxNeighborQueues) (f : NeighborQueue A c → NeighborQueue A c)
    (hf : ∀ q, (f q).queuedPacketList = q.queuedPacketList)
    (htimer : (f (s.neighborMemb.mem n)).transmitTimer → n ∈ s.neighborList) :
    Queues (updateNeighbor n f s) opened where
  owns := h.owns.modify n f
  mem_iff m := by rw [queueOf_update_same hf]; exact h.mem_iff m
  timer m hm := by
    by_cases hne : m = n
    · subst hne
      simp only [updateNeighbor, Pool.modify, update_self] at hm
      exact htimer hm
    · simp only [updateNeighbor, Pool.modify, update_of_ne hne] at hm
      exact h.timer m hm

theorem Inv.update {opened : Option (Fin c.maxNeighborQueues)}
    (h : Inv opened pending s) (n : Fin c.maxNeighborQueues) (f : NeighborQueue A c → NeighborQueue A c)
    (hf : ∀ q, (f q).queuedPacketList = q.queuedPacketList)
    (htimer : (f (s.neighborMemb.mem n)).transmitTimer → n ∈ s.neighborList) :
    Inv opened pending (updateNeighbor n f s) where
  queues := h.queues.update n f hf htimer
  kept := by
    have hsame : queued (updateNeighbor n f s) = queued s := by
      rw [queued, queueOf_update_same hf]
      rfl
    rw [hsame]
    exact h.kept.congr rfl (fun _ _ => rfl) rfl rfl rfl rfl rfl

theorem Inv.callSent {opened : Option (Fin c.maxNeighborQueues)}
    (h : Inv opened [id] s) (status : MacTx) (transmissions : Nat) :
    Inv opened [] (Csma.callSent id status transmissions s) where
  queues := ⟨h.queues.owns, h.queues.mem_iff, h.queues.timer⟩
  kept := h.kept.callSent status transmissions

theorem Queues.removeNeighbor (h : Queues s (some n))
    (hempty : queueOf s n = []) (hstopped : (s.neighborMemb.mem n).transmitTimer = false) :
    Queues (Csma.removeNeighbor n s) none where
  owns := h.owns.free_erase (perm_cons_erase ((h.mem_iff n).mpr (.inr rfl)))
  mem_iff m := by
    show m ∈ s.neighborList.erase n ↔ queueOf s m ≠ [] ∨ none = some m
    rw [h.owns.nodup.mem_erase_iff, h.mem_iff m]
    by_cases hm : m = n
    · subst hm
      simp [hempty]
    · have : n ≠ m := fun h => hm h.symm
      simp [hm, this]
  timer m hm := by
    refine (h.owns.nodup.mem_erase_iff).mpr ⟨?_, h.timer m hm⟩
    rintro rfl
    rw [show (Csma.removeNeighbor m s).neighborMemb.mem m = s.neighborMemb.mem m from rfl, hstopped] at hm
    cases hm

theorem Inv.removeNeighbor (h : Inv (some n) pending s) (hempty : queueOf s n = [])
    (hstopped : (s.neighborMemb.mem n).transmitTimer = false) : Inv none pending (Csma.removeNeighbor n s) where
  queues := h.queues.removeNeighbor hempty hstopped
  kept := by
    have hqueued := queued_perm ((h.queues.mem_iff n).mpr (.inr rfl))
    rw [hempty, nil_append] at hqueued
    exact (h.kept.perm hqueued.symm).congr rfl (fun _ _ => rfl) rfl rfl rfl rfl rfl

/-- A neighbor that has a packet need not be open. -/
theorem Queues.close (h : Queues s (some n)) (hne : queueOf s n ≠ []) : Queues s none where
  owns := h.owns
  mem_iff m := by
    rw [h.mem_iff m]
    constructor
    · rintro (hm | hm)
      · exact .inl hm
      · cases hm
        exact .inl hne
    · rintro (hm | hm)
      · exact .inl hm
      · cases hm
  timer := h.timer

theorem Queues.reopen {opened : Option (Fin c.maxNeighborQueues)} (h : Queues s opened)
    (hn : n ∈ s.neighborList) (hopened : ∀ m, opened = some m → m = n)
    (f : NeighborQueue A c → NeighborQueue A c) : Queues (updateNeighbor n f s) (some n) where
  owns := h.owns.modify n f
  mem_iff m := by
    by_cases hm : m = n
    · subst hm
      exact ⟨fun _ => .inr rfl, fun _ => hn⟩
    · rw [queueOf_update_of_ne hm]
      show m ∈ s.neighborList ↔ _
      rw [h.mem_iff m]
      constructor
      · rintro (h' | h')
        · exact .inl h'
        · exact absurd (hopened m h') hm
      · rintro (h' | h')
        · exact .inl h'
        · cases h'
          exact absurd rfl hm
  timer m hm := by
    by_cases hne : m = n
    · subst hne
      exact hn
    · simp only [updateNeighbor, Pool.modify, update_of_ne hne] at hm
      exact h.timer m hm

theorem queued_add (hl : s.neighborList.Nodup) (hn : n ∈ s.neighborList) (hf : (f (s.neighborMemb.mem
    n)).queuedPacketList.Perm (p :: queueOf s n)) : (queued (updateNeighbor n f s)).Perm (p :: queued s) := by
  have hnew := @queued_perm _ _ (updateNeighbor n f s) n hn
  rw [queueOf_update_self, show (updateNeighbor n f s).neighborList = s.neighborList from rfl,
    others_update hl] at hnew
  exact (hnew.trans (hf.append_right _)).trans ((queued_perm hn).symm.cons p)

theorem queued_drop (hl : s.neighborList.Nodup) (hn : n ∈ s.neighborList) (hf : (queueOf s n).Perm (p :: (f
    (s.neighborMemb.mem n)).queuedPacketList)) : (queued s).Perm (p :: queued (updateNeighbor n f s)) := by
  have hnew := @queued_perm _ _ (updateNeighbor n f s) n hn
  rw [queueOf_update_self, show (updateNeighbor n f s).neighborList = s.neighborList from rfl,
    others_update hl] at hnew
  exact ((queued_perm hn).trans (hf.append_right _)).trans (hnew.symm.cons p)

/-! ### Steps -/

theorem Inv.mem_of_queued (h : Inv none pending s) (hp : p ∈ queueOf s n) : n ∈ s.neighborList :=
  (h.queues.mem_iff n).mpr (.inl (ne_nil_of_mem hp))

section
variable (h : Inv none [] s)
include h

section

variable (hp : p ∈ queueOf s n) (hm : ptrOf s p = some m)
include hp hm

theorem Inv.freePacket :
    Inv none [(s.metadataMemb.mem m).id] (Csma.freePacket n p s) := by
  have hn := h.mem_of_queued hp
  -- Off the queue, while the neighbor is open.
  set t := updateNeighbor n (fun q => { q with queuedPacketList := q.queuedPacketList.erase p }) s with ht
  have hopen : Queues t (some n) := h.queues.reopen hn nofun _
  have hqueued : (queued s).Perm (p :: queued t) := queued_drop h.queues.owns.nodup hn (perm_cons_erase hp)
  have hkept : Kept t [] (p :: queued t) := (h.kept.perm hqueued.symm).congr rfl (fun _ _ => rfl) rfl rfl rfl rfl rfl
  -- The blocks are freed.
  have hfreed : Inv (some n) [(s.metadataMemb.mem m).id] (freeBlocks p t) :=
    ⟨⟨hopen.owns, hopen.mem_iff, hopen.timer⟩, hkept.freeBlocks hm⟩
  simp only [Csma.freePacket, ← ht]
  split
  next hne =>
    have hclosed : Inv none [(s.metadataMemb.mem m).id] (freeBlocks p t) := ⟨hfreed.queues.close hne, hfreed.kept⟩
    refine (hclosed.update n _ ?_ fun _ => hn).update n _ ?_ fun _ => hn
    · exact fun _ => rfl
    · exact fun _ => rfl
  next hempty =>
    rw [not_not] at hempty
    refine (hfreed.update n _ ?_ fun _ => hn).removeNeighbor ?_ ?_
    · exact fun _ => rfl
    · rw [queueOf_update_self]
      exact hempty
    · simp only [updateNeighbor, Pool.modify, update_self]

theorem Inv.txDone (status : MacTx) :
    Inv none [] (Csma.txDone status p m n s) :=
  (h.freePacket hp hm).callSent status _

/-- What `packet_sent` does with a packet: the counters of its neighbor change, and it leaves or is tried again. -/
theorem Inv.counted
    (f : NeighborQueue A c → NeighborQueue A c) (hf : ∀ q, (f q).queuedPacketList = q.queuedPacketList)
    (status : MacTx) : Inv none [] (Csma.txDone status p m n (updateNeighbor n f s)) ∧
      Inv none [] (rexmitOrDone status p m n (updateNeighbor n f s)) := by
  have hn := h.mem_of_queued hp
  have hcount : Inv none [] (updateNeighbor n f s) := h.update n f hf fun _ => hn
  have hp' : p ∈ queueOf (updateNeighbor n f s) n := by rw [queueOf_update_same hf]; exact hp
  have hdone := hcount.txDone hp' hm status
  refine ⟨hdone, ?_⟩
  rw [rexmitOrDone]
  split
  · exact hdone
  · exact hcount.update n _ (fun _ => rfl) fun _ => hn

end

theorem Inv.packetSent (n : Fin c.maxNeighborQueues) (seqno : UInt16) (status : MacTx)
    (numTransmissions : UInt8) : Inv none [] (Csma.packetSent n seqno status numTransmissions s) := by
  rw [Csma.packetSent]
  split
  · exact h
  next p hfind =>
    have hp : p ∈ queueOf s n := mem_of_find?_eq_some hfind
    split
    · exact h
    next ptr hptr =>
      split
      · refine (h.counted hp hptr _ ?_ .ok).1
        exact fun _ => rfl
      · refine (h.counted hp hptr _ ?_ .noack).2
        exact fun _ => rfl
      · refine (h.counted hp hptr _ ?_ .collision).2
        intro q
        dsimp only
        split <;> rfl
      · exact h
      · exact h.txDone hp hptr _

theorem Inv.transmitPacketList
    (hstep : Csma.transmitPacketList n s = some t) : Inv none [] t := by
  rw [Csma.transmitPacketList] at hstep
  split at hstep
  next htimer =>
    have hstop : Inv none [] (updateNeighbor n (fun q => { q with transmitTimer := false }) s) :=
      h.update n _ (fun _ => rfl) nofun
    cases hstep
    split
    · exact hstop
    · refine ⟨⟨hstop.queues.owns, hstop.queues.mem_iff, hstop.queues.timer⟩, ?_⟩
      refine hstop.kept.congr rfl (fun _ _ => rfl) rfl rfl rfl ?_ rfl
      simp [callbacks]
  · cases hstep

end

/-- A packet whose blocks are taken goes on the queue of the open neighbor. -/
theorem Inv.linkPacket (hq : Queues s (some n)) (hk : Kept s [] (q :: queued s)) (isAck :
    Bool) : Inv none [] (Csma.linkPacket n q isAck s) := by
  have hn : n ∈ s.neighborList := (hq.mem_iff n).mpr (.inr rfl)
  have hadd : (if isAck then q :: queueOf s n else queueOf s n ++ [q]).Perm (q :: queueOf s n) := by
    cases isAck with
    | true => exact .refl _
    | false => exact perm_append_comm
  set t := updateNeighbor n (fun nq => { nq with
    queuedPacketList := if isAck then q :: nq.queuedPacketList else nq.queuedPacketList ++ [q] }) s with ht
  have hne : queueOf t n ≠ [] := by
    rw [ht, queueOf_update_self]
    exact ne_nil_of_mem (hadd.mem_iff.mpr mem_cons_self)
  have hlinked : Inv none [] t := by
    refine ⟨(hq.reopen hn (fun m hm => ?_) _).close hne, ?_⟩
    · rw [some.injEq] at hm
      exact hm.symm
    · refine (hk.perm ?_).congr rfl (fun _ _ => rfl) rfl rfl rfl rfl rfl
      exact queued_add hq.owns.nodup hn hadd
  simp only [Csma.linkPacket, ← ht]
  split
  · exact hlinked.update n _ (fun _ => rfl) fun _ => hn
  · exact hlinked

theorem Queues.opened (h : Queues s none) (hn : n ∈ s.neighborList) : Queues s (some n) where
  owns := h.owns
  mem_iff m := by
    constructor
    · intro hm
      rcases (h.mem_iff m).mp hm with hm | hm
      · exact .inl hm
      · cases hm
    · rintro (hm | hm)
      · exact (h.mem_iff m).mpr (.inl hm)
      · cases hm
        exact hn
  timer := h.timer

theorem Inv.openNeighbor (h : Inv none pending s) (hn : s.neighborMemb.freeBlock = some n)
    (f : NeighborQueue A c → NeighborQueue A c) (hf : ∀ q, (f q).queuedPacketList = []) :
    Inv (some n) pending { s with
      neighborMemb := (s.neighborMemb.take n).modify n f
      neighborList := s.neighborList ++ [n] } := by
  have hnot := h.queues.owns.not_mem_of_free hn
  set t : State A c := { s with
    neighborMemb := (s.neighborMemb.take n).modify n f
    neighborList := s.neighborList ++ [n] } with ht
  have hself : queueOf t n = [] := by
    simp only [ht, queueOf, Pool.modify, update_self, hf]
  have hother : ∀ m, m ≠ n → t.neighborMemb.mem m = s.neighborMemb.mem m := by
    intro m hm
    simp only [ht, Pool.modify, update_of_ne hm, Pool.take_mem]
  have hqueued : queued t = queued s := by
    show (s.neighborList ++ [n]).flatMap (queueOf t) = s.neighborList.flatMap (queueOf s)
    rw [flatMap_append, flatMap_singleton, hself, append_nil]
    refine flatMap_congr fun m hm => ?_
    rw [queueOf, hother m fun hmn => hnot (hmn ▸ hm), queueOf]
  refine ⟨⟨?_, fun m => ?_, fun m hm => ?_⟩, ?_⟩
  · exact (h.queues.owns.take_insert hn perm_append_comm).modify n f
  · by_cases hm : m = n
    · subst hm
      simp [ht]
    · have : n ≠ m := fun h => hm h.symm
      have hq : queueOf t m = queueOf s m := by rw [queueOf, hother m hm, queueOf]
      rw [hq]
      simp [ht, hm, this, h.queues.mem_iff m]
  · by_cases hmn : m = n
    · subst hmn
      simp [ht]
    · rw [hother m hmn] at hm
      exact mem_append_left _ (h.queues.timer m hm)
  · rw [hqueued]
    exact h.kept.congr rfl (fun _ _ => rfl) rfl rfl rfl rfl rfl

variable [DecidableEq A]

theorem Inv.neighborEntry (h : Inv none pending s) (addr : A) :
    (∃ n t,
       Csma.neighborEntry addr s = (some n, t) ∧
       Inv (some n) pending t ∧
       (queueOf t n = [] → (t.neighborMemb.mem n).transmitTimer = false)) ∨
    Csma.neighborEntry addr s = (none, s) := by
  rw [Csma.neighborEntry]
  split
  next n hfind =>
    have hn : n ∈ s.neighborList := mem_of_find?_eq_some hfind
    refine .inl ⟨n, s, rfl, ⟨h.queues.opened hn, h.kept⟩, fun hempty => ?_⟩
    rcases (h.queues.mem_iff n).mp hn with hne | hne
    · exact absurd hempty hne
    · cases hne
  · cases hfree : s.neighborMemb.freeBlock with
    | none => exact .inr (by simp only [Pool.alloc, hfree])
    | some n =>
      simp only [Pool.alloc, hfree]
      refine .inl ⟨n, _, rfl, h.openNeighbor hfree _ fun _ => rfl, fun _ => ?_⟩
      -- A block off the list has no timer running.
      have hstopped : (s.neighborMemb.mem n).transmitTimer = false :=
        Bool.eq_false_iff.mpr fun htimer => h.queues.owns.not_mem_of_free hfree (h.queues.timer n htimer)
      simp only [Pool.modify, update_self, Pool.take_mem]
      exact hstopped

/-- A call to send is queued, or called back at once with every block given back. -/
theorem Inv.sendPacket (h : Inv none [] s) (packetbuf : Packetbuf A) : Inv none [] (Csma.sendPacket packetbuf s) := by
  rw [Csma.sendPacket]
  set seqno := if s.seqno = 0 then 1 else s.seqno
  have hcall : Inv none [s.nextId] { s with seqno := seqno + 1, nextId := s.nextId + 1 } :=
    ⟨⟨h.queues.owns, h.queues.mem_iff, h.queues.timer⟩, h.kept.newCall (seqno + 1)⟩
  rcases hcall.neighborEntry packetbuf.receiver with ⟨n, t, hentry, hopen, hstopped⟩ | hentry
  · simp only [hentry]
    split
    · rcases hopen.kept.allocPacket seqno packetbuf with ⟨q, u, halloc, hkept, hsame⟩ | ⟨u, halloc, hkept, hsame⟩
      · rw [halloc]
        rw [← hsame.queued] at hkept
        exact Inv.linkPacket (hsame.queues hopen.queues) hkept packetbuf.isAck
      · rw [halloc]
        rw [← hsame.queued] at hkept
        have hopen' : Inv (some n) [s.nextId] u := ⟨hsame.queues hopen.queues, hkept⟩
        refine Inv.callSent ?_ .err 1
        split
        next hempty =>
          refine hopen'.removeNeighbor (length_eq_zero_iff.mp hempty) ?_
          rw [hsame.1]
          refine hstopped ?_
          rw [← hsame.queueOf]
          exact length_eq_zero_iff.mp hempty
        next hne => exact ⟨hopen'.queues.close fun hempty => hne (length_eq_zero_iff.mpr hempty), hkept⟩
    next hfull =>
      have hne : queueOf t n ≠ [] := by
        intro hempty
        rw [queueOf] at hempty
        rw [hempty] at hfull
        exact hfull c.maxPacketPerNeighbor_pos
      exact Inv.callSent ⟨hopen.queues.close hne, hopen.kept⟩ .err 1
  · simp only [hentry]
    exact hcall.callSent .err 1

omit [DecidableEq A] in
theorem inv_init (seqno : UInt16) : Inv none [] (init seqno : State A c) where
  queues := ⟨Pool.owns_init _, fun n => by simp [init, queueOf, Pool.init], nofun⟩
  kept := ⟨Pool.owns_init _, nofun, Pool.owns_init _, Pool.owns_init _, .refl _⟩

/-- RUN: between events the invariant holds, whatever is sent, reported or fired. -/
theorem inv_run {seqno : UInt16} {es : List (Event A c)}
    (hrun : Run step (fun _ _ => True) (init seqno) es s) : Inv none [] s := by
  refine hrun.invariant (fun s e t h _ hstep => ?_) (inv_init seqno)
  cases e with
  | sendPacket packetbuf =>
    rw [step] at hstep
    cases hstep
    exact h.sendPacket packetbuf
  | packetSent n seqno status numTransmissions =>
    rw [step] at hstep
    cases hstep
    exact h.packetSent n seqno status numTransmissions
  | transmitTimer n => exact h.transmitPacketList hstep

/-- In every reachable state the listed neighbors are those with a packet queued; a block of a pool is free
    or belongs to one queued packet, which has one of each; and every call of `send_packet` has run its
    callback, once, or has its packet queued, once. -/
theorem csma_accounts {seqno : UInt16} {es : List (Event A c)} {s : State A c}
    (hrun : Run step (fun _ _ => True) (init seqno) es s) :
    (∀ n, n ∈ s.neighborList ↔ queueOf s n ≠ []) ∧
    (∀ p ∈ queued s, ∃ b m, s.packetMemb.mem p = ⟨some b, some m⟩) ∧
    s.packetMemb.Owns (queued s) ∧
    s.metadataMemb.Owns ((queued s).filterMap (ptrOf s)) ∧
    s.queuebufMemb.Owns ((queued s).filterMap (bufOf s)) ∧
    ∀ id, (callbacks s.log).count id + ((queued s).filterMap (idOf s)).count id =
      if id < s.nextId then 1 else 0 := by
  have h := inv_run hrun
  refine ⟨fun n => ?_, h.kept.whole, h.kept.packets, h.kept.metadata, h.kept.bufs, fun id => ?_⟩
  · rw [h.queues.mem_iff n]
    simp
  · have hids := h.kept.ids.count_eq id
    rw [nil_append, count_append] at hids
    rw [hids, nodup_range.count]
    simp only [mem_range]

/-- Two packets at a time. -/
def twoPackets : Config where
  maxNeighborQueues := 2
  maxQueuedPackets := 2
  queuebufNum := 2
  maxPacketPerNeighbor := 2
  minBe := 0
  maxBackoff := 5
  maxMaxFrameRetries := 7
  maxPacketPerNeighbor_pos := Nat.two_pos

/-- Two packets are queued and a third is rejected; one is given up after its only transmission, and the
    other is acknowledged on the second. -/
theorem csma_accounts_twoPackets : ∃ s : State Nat twoPackets, callbacks s.log = [2, 1, 0] ∧
      (∀ n, n ∈ s.neighborList ↔ queueOf s n ≠ []) ∧
      (∀ p ∈ queued s, ∃ b m, s.packetMemb.mem p = ⟨some b, some m⟩) ∧
      s.packetMemb.Owns (queued s) ∧
      s.metadataMemb.Owns ((queued s).filterMap (ptrOf s)) ∧
      s.queuebufMemb.Owns ((queued s).filterMap (bufOf s)) ∧
      ∀ id, (callbacks s.log).count id + ((queued s).filterMap (idOf s)).count id =
        if id < s.nextId then 1 else 0 := by
  obtain ⟨s, hrun, hs⟩ := @exists_run _ _ step (fun _ _ => True)
    [.sendPacket ⟨1, 0, false, false⟩, .sendPacket ⟨2, 1, false, false⟩,
      .sendPacket ⟨1, 0, false, false⟩, .transmitTimer ⟨0, by decide⟩,
      .packetSent ⟨0, by decide⟩ 1 .noack 1, .transmitTimer ⟨1, by decide⟩,
      .packetSent ⟨1, by decide⟩ 2 .noack 1, .sendPacket ⟨3, 0, false, false⟩,
      .transmitTimer ⟨0, by decide⟩, .packetSent ⟨0, by decide⟩ 1 .ok 1] (fun _ _ => true)
    (fun s : State Nat twoPackets => decide (callbacks s.log = [2, 1, 0])) (fun _ _ _ => trivial) (init 0) (by decide)
  exact ⟨s, of_decide_eq_true hs, csma_accounts hrun⟩

end

end CSync.Csma
