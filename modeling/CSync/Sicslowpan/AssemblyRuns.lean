import CSync.Sicslowpan.Assembly

/-! What reassembly hands to the IP layer.

    A reception of another packet, of the first fragment or of a later one keeps the invariant, and a later
    one that completes the datagram hands it on. A fragment that comes again while it is still in the buffers
    is counted again: `input` does not check for that. -/

namespace CSync

open Lib Region

namespace Sicslowpan

variable {c : LowpanConfig} {s s' : Lowpan c} {p : Packetbuf c} {i k : Fin c.reassContexts}

/-! ### Receptions -/

section

variable {t : AddrContexts} {l : Link} {d : Datagram c} {tag : UInt16}

/-- A packet that is not a fragment of this sender and tag. -/
def Other (l : Link) (tag : UInt16) (p : Packetbuf c) : Prop :=
  p.dispatch = dispatchFrag1 ∨ p.dispatch = dispatchFragn → ¬(p.fragTag = tag ∧ p.sender = l.lladdr)

/-- A later fragment is not in the buffers of the context it goes to. -/
def NotHeld (s : Lowpan c) (p : Packetbuf c) : Prop :=
  p.dispatch = dispatchFragn → ∀ i ∈ findContext s p.fragTag p.sender,
    ∀ j ∈ heldBy s i, (s.fragBuf j).offset ≠ p.fragOffset

section
variable (h : Inv t l d tag s)
include h

theorem Inv.taken_other {tag' : UInt16} {fragSize : Nat} (hfree : (s.fragInfo i).len = 0)
    (hother : ¬(tag' = tag ∧ p.sender = l.lladdr)) : Inv t l d tag (taken s p i tag' fragSize) :=
  h.another (.inr hfree) hother

variable {t' : AddrContexts}

theorem Inv.inputFirst_other (hother : ¬((s.fragInfo i).tag = tag ∧
    (s.fragInfo i).sender = l.lladdr)) : Inv t l d tag (inputFirst t' s p i) := by
  rw [inputFirst]
  split
  · exact h
  · split
    · apply h.another
      · left
        split
        · rfl
        · rfl
      · split
        · exact hother
        · exact hother
    · exact h.another (.inl rfl) hother

theorem Inv.inputNext (i : Fin c.reassContexts) : Inv t l d tag (inputNext s p i).1 := by
  rw [Sicslowpan.inputNext]
  split
  · split
    · exact h.cleared (fun k hk => if_neg hk) rfl
    · exact h
  · exact h

theorem Inv.inputWhole : Inv t l d tag (inputWhole t' s p).1 := by
  rw [Sicslowpan.inputWhole]
  split
  · exact h
  · split
    · exact h.uip _
    · exact h.uip _

end

theorem Gathers.of_empty (hheld : heldBy s i = ∅) (hlen : (s.fragInfo i).firstFragLen = firstEnd t l d)
    (hfirst : ∀ x < firstEnd t l d, (s.fragInfo i).firstFrag.bytes x = d.ip x)
    (hcount : (s.fragInfo i).reassembledLen = firstEnd t l d) : Gathers t l d s i := by
  have hnot : ∀ j, j ∉ heldBy s i := by
    rw [hheld]
    exact Finset.notMem_empty
  refine ⟨⟨fun j hj => absurd hj (hnot j), fun j hj => absurd hj (hnot j)⟩, hlen, hfirst, ?_⟩
  rw [hheld, Finset.sum_empty, hcount]
  rfl

theorem Inv.inputFirst (h : Inv t l d tag s) (hrestores : Restores t l d)
    (hcarries : Carries l (firstFragment t l d tag) p) (hlt : firstEnd t l d < d.len) (hfree : (s.fragInfo i).len = 0) :
    Inv t l d tag (inputFirst t (taken s p i p.fragTag p.fragSize) p i) := by
  obtain ⟨-, hsize, -, hread⟩ := hcarries.first hrestores
  obtain ⟨u, hu, hhdr, hend, hbytes⟩ := hread ((taken s p i p.fragTag p.fragSize).fragInfo i).firstFrag
  have hfits := d.fits
  have haccepts : accepts p u.hdrLen u.uncompHdrLen 0 := ⟨hhdr, by omega⟩
  have hnone : ∀ j, 0 < (s.fragBuf j).len → (s.fragBuf j).index ≠ i := by
    intro j hpos hindex
    have hlive := h.live j hpos
    rw [hindex] at hlive
    omega
  rw [Sicslowpan.inputFirst, hu]
  dsimp only
  rw [if_pos haccepts]
  refine h.update i (fun k hk => ?_) (fun j => .inl rfl)
    (fun j hpos hindex => absurd hindex (hnone j hpos)) fun _ _ _ => ?_
  · rw [onInfo_other _ hk, taken, onInfo_other _ hk]
  · have hpos : 0 < p.fragSize := by omega
    apply Gathers.of_empty
    · refine Finset.eq_empty_of_forall_notMem fun j hj => ?_
      obtain ⟨hpos, hindex⟩ := mem_heldBy.mp hj
      exact hnone j hpos hindex
    · rw [onInfo_self, if_pos hpos]
      exact hend
    · rw [onInfo_self, if_pos hpos]
      exact hbytes
    · rw [onInfo_self, if_pos hpos]
      exact hend

end

section

variable {t : AddrContexts} {l : Link} {d : Datagram c} {tag : UInt16}

section
variable (h : Inv t l d tag s)
include h

theorem Inv.addFragment_other (hdrLen fragSize offset : Nat) {tag' : UInt16}
    (hother : ¬(tag' = tag ∧ p.sender = l.lladdr)) :
    Inv t l d tag (addFragment s p hdrLen tag' fragSize offset).1 ∧
      ∀ i, (addFragment s p hdrLen tag' fragSize offset).2 = some i →
        let f := (addFragment s p hdrLen tag' fragSize offset).1.fragInfo i
        ¬(f.tag = tag ∧ f.sender = l.lladdr) := by
  by_cases hoff : offset = 0
  · rw [hoff]
    obtain ⟨hfreed, hfree⟩ := freeContext_freed s p
    obtain ⟨-, heq⟩ | ⟨i, hi, heq⟩ := addFragment_first s p hdrLen tag' fragSize
    · rw [heq]
      exact ⟨h.freed hfreed, nofun⟩
    · rw [heq]
      refine ⟨(h.freed hfreed).taken_other (hfree i hi) hother, fun k hk => ?_⟩
      cases hk
      rw [taken]
      rw [onInfo_self]
      exact hother
  · obtain heq | ⟨i, s', hfind, hfreed, hrest⟩ := addFragment_next s p hdrLen tag' fragSize hoff
    · rw [heq]
      exact ⟨h, nofun⟩
    · obtain ⟨htag, hlen, hsender⟩ := findContext_some hfind
      have hsame := hfreed.same.1 i rfl
      have hs' := h.freed hfreed
      have hnot : ¬((s'.fragInfo i).tag = tag ∧ (s'.fragInfo i).sender = l.lladdr) := by
        rw [hsame, htag, hsender]
        exact hother
      rw [← hsame] at hlen
      obtain heq | ⟨j, -, hbuf, ⟨hempty, heq⟩ | ⟨-, heq⟩⟩ := hrest
      · rw [heq]
        exact ⟨hs', nofun⟩
      · rw [heq]
        exact ⟨hs'.stored_empty (freeBuffer_free hbuf) hempty, nofun⟩
      · rw [heq]
        refine ⟨hs'.stored (freeBuffer_free hbuf) hlen
          fun htag hsender => absurd ⟨htag, hsender⟩ hnot, fun k hk => ?_⟩
        cases hk
        rw [counted, onInfo_self]
        exact hnot

/-- A RECEPTION OF ANOTHER PACKET. -/
theorem Inv.input_other (hother : Other l tag p) :
    Inv t l d tag (input t' s p).1 := by
  rw [input]
  split
  next hfirst =>
    obtain ⟨hadd, hcontext⟩ := h.addFragment_other frag1HdrLen p.fragSize 0 (hother (.inl hfirst))
    revert hadd hcontext
    rcases addFragment s p frag1HdrLen p.fragTag p.fragSize 0 with ⟨s', _ | i⟩
    · exact fun hadd _ => hadd
    · exact fun hadd hcontext => hadd.inputFirst_other (hcontext i rfl)
  · split
    next hnext =>
      obtain ⟨hadd, -⟩ := h.addFragment_other fragnHdrLen p.fragSize p.fragOffset (hother (.inr hnext))
      revert hadd
      rcases addFragment s p fragnHdrLen p.fragTag p.fragSize p.fragOffset with ⟨s', _ | i⟩
      · exact fun hadd => hadd
      · exact fun hadd => (hadd.uip _).inputNext i
    · exact (h.uip _).inputWhole

theorem Inv.input_first (hrestores : Restores t l d) (hcarries : Carries l (firstFragment t l d
    tag) p) (hlt : firstEnd t l d < d.len) : Inv t l d tag (input t s p).1 := by
  obtain ⟨hdispatch, -, -, -⟩ := hcarries.first hrestores
  obtain ⟨hfreed, hfree⟩ := freeContext_freed s p
  rw [input, if_pos hdispatch]
  obtain ⟨-, heq⟩ | ⟨i, hi, heq⟩ := addFragment_first s p frag1HdrLen p.fragTag p.fragSize
  · rw [heq]
    exact h.freed hfreed
  · rw [heq]
    exact (h.freed hfreed).inputFirst hrestores hcarries hlt (hfree i hi)

/-- A later fragment of the datagram is added: the context that it is counted in gathers the datagram. -/
theorem Inv.addFragment_next {k : Nat} (hk : firstEnd t l d + k * nextPayloadLen l < d.len)
    (hcarries : Carries l (fragmentAt t l d tag k) p) (htag : p.fragTag = tag)
    (hoff : p.fragOffset ≠ 0)
    (hnot : ∀ i ∈ findContext s p.fragTag p.sender, ∀ j ∈ heldBy s i, (s.fragBuf j).offset ≠ p.fragOffset) :
    let r := addFragment s p fragnHdrLen p.fragTag p.fragSize p.fragOffset
    Inv t l d tag r.1 ∧ ∀ i, r.2 = some i → Gathers t l d r.1 i := by
  obtain heq | ⟨i, s', hfind, hfreed, hrest⟩ := Sicslowpan.addFragment_next s p fragnHdrLen p.fragTag p.fragSize hoff
  · rw [heq]
    exact ⟨h, nofun⟩
  · obtain ⟨hctag, hlen, hsender⟩ := findContext_some hfind
    obtain ⟨hinfo, hbufs⟩ := hfreed.same
    have hs' := h.freed hfreed
    rw [← hinfo i rfl] at hctag hlen hsender
    have hgathers := hs'.mine i hlen (hctag.trans htag) (hsender.trans hcarries.sender)
    have hfresh : ∀ j ∈ heldBy s' i, (s'.fragBuf j).offset ≠ p.fragOffset := by
      intro j hj
      obtain ⟨hpos, hindex⟩ := mem_heldBy.mp hj
      have hsame := hbufs j hpos
      rw [hsame] at hpos hindex ⊢
      exact hnot i hfind j (mem_heldBy.mpr ⟨hpos, hindex⟩)
    obtain heq | ⟨j, -, hbuf, ⟨hempty, heq⟩ | ⟨-, heq⟩⟩ := hrest
    · rw [heq]
      exact ⟨hs', nofun⟩
    · rw [heq]
      exact ⟨hs'.stored_empty (freeBuffer_free hbuf) hempty, nofun⟩
    · have hfree := freeBuffer_free hbuf
      have hstored := hgathers.stored hfree (isPiece_fragmentOf hk hcarries i _) hfresh
      rw [heq]
      refine ⟨hs'.stored hfree hlen fun _ _ => hstored, fun i' hi' => ?_⟩
      cases hi'
      exact hstored

/-- A RECEPTION OF A LATER FRAGMENT. If it completes the datagram, that is what is handed on. -/
theorem Inv.input_next {k : Nat} (hk : firstEnd t l d + k * nextPayloadLen l < d.len)
    (hcarries : Carries l (fragmentAt t l d tag k) p) (hnot : NotHeld s p) :
    Inv t l d tag (input t s p).1 ∧
    ∀ len, (input t s p).2 = some len → len = d.len ∧ ∀ x < d.len, (input t s p).1.uip.bytes x = d.ip x := by
  have hfits := d.fits
  have huip := c.uip_limit
  have hpos := (firstEnd_mod t l d).2
  rw [show iphLen = 40 from rfl] at hpos
  obtain ⟨hdispatch, hsize, htag, hoff, -, -⟩ := hcarries.next (by omega)
  obtain ⟨hadd, hgathers⟩ := h.addFragment_next hk hcarries htag (by omega) (hnot hdispatch)
  rw [input, if_neg (by rw [hdispatch]; decide), if_pos hdispatch]
  revert hadd hgathers
  rcases addFragment s p fragnHdrLen p.fragTag p.fragSize p.fragOffset with ⟨s', _ | i⟩
  · exact fun hadd _ => ⟨hadd, by rintro _ ⟨⟩⟩
  · intro hadd hgathers
    refine ⟨(hadd.uip _).inputNext i, fun len hlen => ?_⟩
    have hi : Gathers t l d (s'.leave p) i := (hgathers i rfl).congr rfl fun _ => .inl rfl
    dsimp only at hlen ⊢
    rw [Sicslowpan.inputNext] at hlen ⊢
    split at hlen
    next hlast =>
      rw [if_pos hlast, if_pos (by omega)]
      rw [if_pos (by omega)] at hlen
      refine ⟨(Option.some.inj hlen).symm.trans hsize, fun x hx => ?_⟩
      rw [hsize] at hlast
      exact hi.copyFrags2uip hlast.2 hx
    · cases hlen

end

end

/-- What may arrive while the datagram is on its way: packets that fit into the memory, and they are not
    fragments of its sender and tag, or they are fragments that `output` has sent, in any order and any of
    them again, but not while the context that a fragment goes to has it already. -/
structure Arrives (t : AddrContexts) (l : Link) (d : Datagram c) (tag : UInt16) (b : Below) (s : Lowpan c)
    (p : Packetbuf c) : Prop where
  fits : Fits t s p
  packet : Other l tag p ∨ ((∃ m ∈ (output t l d tag b).packets, Carries l m p) ∧ NotHeld s p)

section

variable {t : AddrContexts} {l : Link} {d : Datagram c} {tag : UInt16} {b : Below}

theorem Inv.input (h : Inv t l d tag s) (hfrag : fragmented t l d = true) (hrestores : Restores t l d)
    (hp : Arrives t l d tag b s p) : Inv t l d tag (input t s p).1 := by
  obtain hother | ⟨⟨m, hm, hcarries⟩, hnot⟩ := hp.packet
  · exact h.input_other hother
  · obtain rfl | ⟨k, hk, rfl⟩ := (mem_fragments t l d tag).mp (mem_fragments_of_output t l d tag hfrag hm)
    · exact h.input_first hrestores hcarries (firstEnd_lt t l d hfrag)
    · exact (h.input_next hk hcarries hnot).1

end

/-- WHAT IS ASSEMBLED IS THE DATAGRAM. From the start on, with fragments of a datagram arriving in any order
    among other packets, a packet of its sender and tag that is handed to the IP layer is the datagram, if
    its headers come back from compression. -/
theorem reassembly_assembles (t : AddrContexts) (l : Link) (d : Datagram c) (tag : UInt16) (b : Below)
    (hfrag : fragmented t l d = true) (hrestores : Restores t l d) (ps : List (Packetbuf c)) (s : Lowpan c)
    (hrun : Run (receive t) (Arrives t l d tag b) (Lowpan.init c) ps s) (p : Packetbuf c)
    (hp : Arrives t l d tag b s p) (hsender : p.sender = l.lladdr) (htag : p.fragTag = tag)
    (hfragment : p.dispatch = dispatchFrag1 ∨ p.dispatch = dispatchFragn) (len : Nat)
    (hlen : (input t s p).2 = some len) : len = d.len ∧ ∀ x < d.len, (input t s p).1.uip.bytes x = d.ip x := by
  have hs : Inv t l d tag s := by
    refine hrun.invariant ?_ inv_init
    intro s p s' hs hp hstep
    cases hstep
    exact hs.input hfrag hrestores hp
  obtain hother | ⟨⟨m, hm, hcarries⟩, hnot⟩ := hp.packet
  · exact absurd ⟨htag, hsender⟩ (hother hfragment)
  · obtain rfl | ⟨k, hk, rfl⟩ := (mem_fragments t l d tag).mp (mem_fragments_of_output t l d tag hfrag hm)
    · -- a first fragment completes nothing
      obtain ⟨hdispatch, -, -, -⟩ := hcarries.first hrestores
      rw [input, if_pos hdispatch] at hlen
      obtain ⟨-, heq⟩ | ⟨i, -, heq⟩ := addFragment_first s p frag1HdrLen p.fragTag p.fragSize
      · rw [heq] at hlen
        cases hlen
      · rw [heq] at hlen
        cases hlen
    · exact (hs.input_next hk hcarries hnot).2 len hlen

/-! ### Concrete runs -/

section

variable (t : AddrContexts) (l : Link) (d : Datagram c) (tag : UInt16) (b : Below) (s : Lowpan c)
  (m : List UInt8) (p : Packetbuf c)

instance : Decidable (Carries l m p) :=
  decidable_of_iff (p.sender = l.lladdr ∧ p.receiver = l.dest ∧ p.datalen = m.length ∧
    slice p.data 0 m.length = m) ⟨fun h => ⟨h.1, h.2.1, h.2.2.1, h.2.2.2⟩,
      fun h => ⟨h.sender, h.receiver, h.datalen, h.data⟩⟩

instance : Decidable (NotHeld s p) :=
  have : Decidable (∀ i ∈ findContext s p.fragTag p.sender, ∀ j ∈ heldBy s i,
      (s.fragBuf j).offset ≠ p.fragOffset) := Option.decidableForallMem _
  inferInstanceAs (Decidable (_ → _))

instance : Decidable (Other l tag p) := inferInstanceAs (Decidable (_ ∨ _ → ¬(_ ∧ _)))

instance : Decidable (Arrives t l d tag b s p) :=
  decidable_of_iff (Fits t s p ∧
    (Other l tag p ∨ ((∃ m ∈ (output t l d tag b).packets, Carries l m p) ∧ NotHeld s p)))
    ⟨fun h => ⟨h.1, h.2⟩, fun h => ⟨h.fits, h.packet⟩⟩

end

/-- The link from `nodeA` to `nodeB`, with a frame header of 21 bytes, and layers below that take all. -/
def linkAB : Link := ⟨nodeA, nodeB, 0, 104, by decide, by decide⟩

def calm : Below := ⟨16, fun _ => true, fun _ => true⟩

/-- A packet of `n` bytes from `source` to all nodes. -/
def longIp (source : List UInt8) (n i : Nat) : UInt8 :=
  if i < 40 then bufferOf ([0x60, 0, 0, 0, .ofNat ((n - 40) / 256), .ofNat (n - 40), 59, 64] ++ source ++
    [0xff, 2, 0, 0, 0, 0, 0, 0, 0, 0, 0, 0, 0, 0, 0, 1]) i
  else .ofNat (i % 255 + 1)

/-- From a global address, with two fragments of 96 bytes behind the first one. -/
def longDatagram : Datagram defaultConfig where
  ip := longIp [0xfd, 0, 0, 0, 0, 0, 0, 0, 0, 0x12, 0x74, 1, 0, 1, 1, 1] 320
  len := 320
  isPacket := ⟨by decide, by decide, by decide, nofun⟩
  fits := by decide

/-- The fragment number `k` that `output` sends for a datagram, as it is received. -/
def fragmentNo (d : Datagram defaultConfig) (k : Nat)
    (h : ((output defaultContexts linkAB d 7 calm).packets.getD k []).length ≤ 128) :
    Packetbuf defaultConfig :=
  packetOf ((output defaultContexts linkAB d 7 calm).packets.getD k [])
    ((output defaultContexts linkAB d 7 calm).packets.getD k []).length h

def longFirst : Packetbuf defaultConfig := fragmentNo longDatagram 0 (by decide)
def longSecond : Packetbuf defaultConfig := fragmentNo longDatagram 1 (by decide)
def longThird : Packetbuf defaultConfig := fragmentNo longDatagram 2 (by decide)

/-- The last fragment arrives before the one in between. -/
theorem reassembly_assembles_long :
    ∃ s, Run (receive defaultContexts) (Arrives defaultContexts linkAB longDatagram 7 calm)
        (Lowpan.init defaultConfig) [longFirst, longThird] s ∧
      let r := input defaultContexts s longSecond
      r.2 = some 320 ∧ ∀ x < 320, r.1.uip.bytes x = longDatagram.ip x := by
  obtain ⟨s, hrun, hs⟩ : ∃ s, Run (receive defaultContexts)
      (Arrives defaultContexts linkAB longDatagram 7 calm) (Lowpan.init defaultConfig)
      [longFirst, longThird] s ∧ _ :=
    exists_run (fun s p => decide (Arrives defaultContexts linkAB longDatagram 7 calm s p))
      (fun s => decide (Arrives defaultContexts linkAB longDatagram 7 calm s longSecond ∧
        (input defaultContexts s longSecond).2 = some 320))
      (fun _ _ h => of_decide_eq_true h) (by decide)
  obtain ⟨hp, hlen⟩ := of_decide_eq_true hs
  exact ⟨s, hrun, hlen, (reassembly_assembles defaultContexts linkAB longDatagram 7 calm (by decide)
    (fun _ hel => absurd hel.2.1 (by decide)) _ s hrun _ hp rfl (by decide)
    (.inr (by decide)) 320 hlen).2⟩

/-- From `fe80:0:0:1::1`, with one fragment behind the first one. -/
def elidedDatagram : Datagram defaultConfig where
  ip := longIp [0xfe, 0x80, 0, 0, 0, 0, 0, 1, 0, 0, 0, 0, 0, 0, 0, 1] 200
  len := 200
  isPacket := ⟨by decide, by decide, by decide, nofun⟩
  fits := by decide

def elidedFirst : Packetbuf defaultConfig := fragmentNo elidedDatagram 0 (by decide)
def elidedSecond : Packetbuf defaultConfig := fragmentNo elidedDatagram 1 (by decide)

/-- The receptions of fragments that `output` has sent, without a condition on repetition. -/
def Sent (d : Datagram defaultConfig) (s : Lowpan defaultConfig) (p : Packetbuf defaultConfig) : Prop :=
  Fits defaultContexts s p ∧
    ∃ m ∈ (output defaultContexts linkAB d 7 calm).packets, Carries linkAB m p

instance (d : Datagram defaultConfig) (s : Lowpan defaultConfig) (p : Packetbuf defaultConfig) :
    Decidable (Sent d s p) :=
  inferInstanceAs (Decidable (_ ∧ _))

/-- A fragment counted twice stands in for the one that is missing; and headers that do not come back from
    compression are assembled as they came. -/
theorem repeated_fragment_assembles_hole :
    (∃ s,
       Run (receive defaultContexts) (Sent longDatagram) (Lowpan.init defaultConfig) [longFirst, longSecond] s ∧
       Sent longDatagram s longSecond ∧
       (input defaultContexts s longSecond).2 = some 320 ∧
       (input defaultContexts s longSecond).1.uip.bytes 224 ≠ longDatagram.ip 224) ∧
    ∃ s,
      Run (receive defaultContexts) (Sent elidedDatagram) (Lowpan.init defaultConfig) [elidedFirst] s ∧
      Sent elidedDatagram s elidedSecond ∧
      (input defaultContexts s elidedSecond).2 = some 200 ∧
      (input defaultContexts s elidedSecond).1.uip.bytes 15 ≠ elidedDatagram.ip 15 := by
  constructor
  · obtain ⟨s, hrun, hs⟩ : ∃ s, Run (receive defaultContexts) (Sent longDatagram)
        (Lowpan.init defaultConfig) [longFirst, longSecond] s ∧ _ :=
      exists_run (fun s p => decide (Sent longDatagram s p)) (fun s => decide (Sent longDatagram s longSecond ∧
          (input defaultContexts s longSecond).2 = some 320 ∧
          (input defaultContexts s longSecond).1.uip.bytes 224 ≠ longDatagram.ip 224))
        (fun _ _ h => of_decide_eq_true h) (by decide)
    exact ⟨s, hrun, of_decide_eq_true hs⟩
  · obtain ⟨s, hrun, hs⟩ : ∃ s, Run (receive defaultContexts) (Sent elidedDatagram)
        (Lowpan.init defaultConfig) [elidedFirst] s ∧ _ :=
      exists_run (fun s p => decide (Sent elidedDatagram s p)) (fun s => decide (Sent elidedDatagram s elidedSecond ∧
          (input defaultContexts s elidedSecond).2 = some 200 ∧
          (input defaultContexts s elidedSecond).1.uip.bytes 15 ≠ elidedDatagram.ip 15))
        (fun _ _ h => of_decide_eq_true h) (by decide)
    exact ⟨s, hrun, of_decide_eq_true hs⟩

end Sicslowpan

end CSync
