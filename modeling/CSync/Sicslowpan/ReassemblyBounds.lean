import CSync.Sicslowpan.IphcCodec
import CSync.Sicslowpan.ReassemblySteps

/-! The memory that reassembly writes.

    A later fragment is stored before its length and its place are looked at, and a first fragment is
    measured against `uip_buf`, not against the buffer it goes to. `Fits` says of a packet that none of
    this matters for it. Over runs of such packets every copy stays inside its array: what waits in the
    contexts and buffers is small enough for the copy that several packets later puts it together. -/

namespace CSync

open Lib Region

namespace Sicslowpan

variable {c : LowpanConfig} {t : AddrContexts} {s s' : Lowpan c} {p : Packetbuf c}
  {i : Fin c.reassContexts}

/-! ### Statement -/

/-- Every copy so far had a count that is not negative and stayed inside its array. -/
structure InMemory (s : Lowpan c) : Prop where
  first : ∀ i, (s.fragInfo i).firstFrag.size = c.firstFragmentSize ∧ (s.fragInfo i).firstFrag.clean = true
  buf : ∀ j, (s.fragBuf j).data.size = c.fragmentSize ∧ (s.fragBuf j).data.clean = true
  uip : s.uip.size = c.uipSize ∧ s.uip.clean = true

/-- The lengths of the headers of a packet, in the packet and written out. -/
def headerLens (t : AddrContexts) (p : Packetbuf c) (hdrLen fragSize : Nat) : Option (Nat × Nat) :=
  (uncompressHeader t p hdrLen fragSize ⟨0, fun _ => 0, true⟩).map fun u => (u.hdrLen, u.uncompHdrLen)

/-- A first fragment that passes the checks is, written out, not larger than the buffer of a context. -/
def FirstFits (t : AddrContexts) (p : Packetbuf c) : Prop :=
  ∀ lens ∈ headerLens t p frag1HdrLen p.fragSize, accepts p lens.1 lens.2 0 →
    lens.2 + (p.datalen - lens.1) ≤ c.firstFragmentSize

/-- A later fragment has its header, is not larger than a buffer, and ends inside `uip_buf`. -/
def NextFits (p : Packetbuf c) : Prop :=
  fragnHdrLen ≤ p.datalen ∧ p.datalen ≤ fragnHdrLen + c.fragmentSize ∧
    c.llhLen + p.fragOffset * 8 + (p.datalen - fragnHdrLen) ≤ c.uipBufsize

/-- What of a reception goes into the memory fits there: a first fragment that gets a context, and a later
    one that has a context and gets a buffer. -/
structure Fits (t : AddrContexts) (s : Lowpan c) (p : Packetbuf c) : Prop where
  first : p.dispatch = dispatchFrag1 → (freeContext s p).2 ≠ none → FirstFits t p
  next : p.dispatch = dispatchFragn → p.fragOffset ≠ 0 →
    ∀ i ∈ findContext s p.fragTag p.sender, HasBuffer s p i → NextFits p

/-! ### Invariant -/

/-- A context keeps to its memory, and its first fragment fits into `uip_buf`. -/
structure InfoBounded (c : LowpanConfig) (f : FragInfo) : Prop where
  size : f.firstFrag.size = c.firstFragmentSize
  clean : f.firstFrag.clean = true
  len : f.firstFragLen ≤ c.uipSize

/-- A buffer keeps to its memory, and the fragment in it fits into `uip_buf`. -/
structure BufBounded (b : FragBuf c) : Prop where
  size : b.data.size = c.fragmentSize
  clean : b.data.clean = true
  len : 0 < b.len → b.offset * 8 + b.len ≤ c.uipSize

structure Bounded (s : Lowpan c) : Prop where
  info : ∀ i, InfoBounded c (s.fragInfo i)
  buf : ∀ j, BufBounded (s.fragBuf j)
  uip : s.uip.size = c.uipSize ∧ s.uip.clean = true

theorem Bounded.inMemory (h : Bounded s) : InMemory s :=
  ⟨fun i => ⟨(h.info i).size, (h.info i).clean⟩, fun j => ⟨(h.buf j).size, (h.buf j).clean⟩, h.uip⟩

theorem bounded_init (c : LowpanConfig) : Bounded (Lowpan.init c) :=
  ⟨fun _ => ⟨rfl, rfl, Nat.zero_le _⟩, fun _ => ⟨rfl, rfl, fun h => absurd h (Nat.lt_irrefl 0)⟩, rfl, rfl⟩

section
variable (h : Bounded s)
include h

variable {f : FragInfo → FragInfo}

theorem Bounded.onInfo
    (hf : InfoBounded c (f (s.fragInfo i))) : Bounded (s.onInfo i f) := by
  refine ⟨fun k => ?_, h.buf, h.uip⟩
  by_cases heq : k = i
  · rw [heq, onInfo_self]
    exact hf
  · rw [onInfo_other f heq]
    exact h.info k

/-- An update that leaves the first fragment alone. -/
theorem Bounded.onInfo_same (i : Fin c.reassContexts) (hf : ∀ x, (f
    x).firstFrag = x.firstFrag ∧ (f x).firstFragLen = x.firstFragLen) : Bounded (s.onInfo i f) := by
  obtain ⟨hfrag, hlen⟩ := hf (s.fragInfo i)
  refine h.onInfo ⟨?_, ?_, ?_⟩
  · rw [hfrag, (h.info i).size]
  · rw [hfrag, (h.info i).clean]
  · rw [hlen]
    exact (h.info i).len

theorem Bounded.clear (i : Fin c.reassContexts) : Bounded (clearFragments s i).1 := by
  have hinfo := h.onInfo_same i (f := fun f => { f with len := 0 }) fun _ => ⟨rfl, rfl⟩
  refine ⟨hinfo.info, fun j => ?_, h.uip⟩
  obtain ⟨-, -, hfree⟩ | ⟨-, hsame⟩ := clear_fragBuf (s := s) (i := i) j
  · rw [hfree]
    exact ⟨(h.buf j).size, (h.buf j).clean, fun hpos => absurd hpos (lt_irrefl 0)⟩
  · rw [hsame]
    exact h.buf j

theorem Bounded.freed {keep : Option (Fin c.reassContexts)} (hfreed : Freed keep s s') : Bounded s' :=
  hfreed.keeps (fun _ i hs => hs.clear i) h

theorem Bounded.taken (p : Packetbuf c) (i : Fin c.reassContexts) (tag : UInt16)
    (fragSize : Nat) : Bounded (taken s p i tag fragSize) := by
  exact h.onInfo_same i fun _ => (by exact ⟨rfl, rfl⟩)

theorem Bounded.counted (i : Fin c.reassContexts) (len : Nat) : Bounded (counted s i len) := by
  exact h.onInfo_same i fun _ => (by exact ⟨rfl, rfl⟩)

theorem Bounded.stored (hfits : NextFits p) (j : Fin c.fragmentBuffers) :
    Bounded (stored s p fragnHdrLen i p.fragOffset j) := by
  obtain ⟨hhdr, hsize, huip⟩ := hfits
  refine ⟨h.info, fun k => ?_, h.uip⟩
  rw [Sicslowpan.stored]
  dsimp only
  split
  · have hcount : (((p.datalen : Int) - fragnHdrLen) % 256).toNat ≤ p.datalen - fragnHdrLen := by omega
    refine ⟨(h.buf k).size, ?_, fun _ => ?_⟩
    · rw [fragmentOf, copy_clean, (h.buf k).size]
      exact ⟨(h.buf k).clean, by omega, by omega⟩
    · rw [fragmentOf, LowpanConfig.uipSize]
      dsimp only
      omega
  · exact h.buf k

theorem Bounded.addFragment_next (hoff : p.fragOffset ≠ 0)
    (hfits : ∀ i ∈ findContext s p.fragTag p.sender, HasBuffer s p i → NextFits p) :
    Bounded (addFragment s p fragnHdrLen p.fragTag p.fragSize p.fragOffset).1 := by
  obtain heq | ⟨i, s', hfind, hfreed, hrest⟩ := Sicslowpan.addFragment_next s p fragnHdrLen p.fragTag p.fragSize hoff
  · rw [heq]
    exact h
  · have hs' := h.freed hfreed
    obtain heq | ⟨j, hbuf, -, ⟨-, heq⟩ | ⟨-, heq⟩⟩ := hrest
    · rw [heq]
      exact hs'
    · rw [heq]
      exact hs'.stored (hfits i hfind hbuf) j
    · rw [heq]
      exact (hs'.stored (hfits i hfind hbuf) j).counted _ _

theorem Bounded.addFragment_first (hdrLen : Nat) (tag : UInt16) (fragSize : Nat) :
    Bounded (addFragment s p hdrLen tag fragSize 0).1 := by
  have hs' := h.freed (freeContext_freed s p).1
  obtain ⟨-, heq⟩ | ⟨i, -, heq⟩ := Sicslowpan.addFragment_first s p hdrLen tag fragSize
  · rw [heq]
    exact hs'
  · rw [heq]
    exact hs'.taken _ _ _ _

end

/-! ### Copies -/

variable {u : Uncompressed}

theorem uncompressHeader_within {hdrLen fragSize : Nat} {buf : Region}
    (h : uncompressHeader t p hdrLen fragSize buf = some u) : Within 0 (iphLen + udphLen) buf u.buf := by
  rw [uncompressHeader] at h
  split at h
  · cases h
    exact uncompressHdrIphc_within ..
  · split at h
    · cases h
      exact (Within.refl ..).copy (by decide)
    · cases h

/-- Their lengths, whatever the buffer. -/
theorem uncompressHeader_lens {hdrLen fragSize : Nat} {buf : Region} (h : uncompressHeader t p hdrLen fragSize buf =
    some u) : headerLens t p hdrLen fragSize = some (u.hdrLen, u.uncompHdrLen) := by
  rw [uncompressHeader] at h
  rw [headerLens, uncompressHeader]
  split at h
  next hiphc =>
    cases h
    rw [if_pos hiphc, Option.map_some]
    obtain ⟨hhdr, huncomp⟩ := uncompressHdrIphc_lens t p.sender p.receiver p.data p.datalen hdrLen
      fragSize buf ⟨0, fun _ => 0, true⟩
    rw [hhdr, huncomp]
  next hiphc =>
    split at h
    next hipv6 =>
      cases h
      rw [if_neg hiphc, if_pos hipv6]
      rfl
    · cases h

/-- The payload behind the headers is a copy that stays inside if the whole does. -/
theorem copyPayload_clean (hclean : u.buf.clean = true)
    (h : u.uncompHdrLen + (p.datalen - u.hdrLen) ≤ u.buf.size) : (copyPayload p u).clean = true := by
  rw [copyPayload, copy_clean]
  exact ⟨hclean, by omega, by omega⟩

section
variable (h : Bounded s)
include h

theorem Bounded.inputFirst (hfits : FirstFits t p) (i : Fin c.reassContexts) :
    Bounded (inputFirst t s p i) := by
  obtain ⟨hsize, hclean, hlen⟩ := h.info i
  rw [Sicslowpan.inputFirst]
  split
  · exact h
  next u hu =>
    have hwithin := uncompressHeader_within hu
    have husize : u.buf.size = c.firstFragmentSize := by rw [hwithin.size, hsize]
    have huclean := hwithin.clean (by rw [hsize]; exact c.first_headers) hclean
    split
    next hacc =>
      have hroom := hfits _ (uncompressHeader_lens hu) hacc
      have hcopy : (copyPayload p u).clean = true := copyPayload_clean huclean (by rw [husize]; exact hroom)
      have hall : u.uncompHdrLen + (p.datalen - u.hdrLen) ≤ c.uipSize := by
        have := hacc.2
        rw [LowpanConfig.uipSize]
        omega
      refine h.onInfo ?_
      split
      · exact ⟨husize, hcopy, hall⟩
      · exact ⟨husize, hcopy, hlen⟩
    · exact h.onInfo ⟨husize, huclean, hlen⟩

theorem Bounded.inputWhole : Bounded (inputWhole t s p).1 := by
  obtain ⟨hsize, hclean⟩ := h.uip
  rw [Sicslowpan.inputWhole]
  split
  · exact h
  next u hu =>
    have hwithin := uncompressHeader_within hu
    have husize : u.buf.size = c.uipSize := by rw [hwithin.size, hsize]
    have hheaders := c.uip_headers
    have huclean := hwithin.clean (by rw [hsize, LowpanConfig.uipSize]; omega) hclean
    split
    next hacc =>
      have hroom := hacc.2
      refine ⟨h.info, h.buf, husize, copyPayload_clean huclean ?_⟩
      rw [husize, LowpanConfig.uipSize]
      omega
    · exact ⟨h.info, h.buf, husize, huclean⟩

/-- Putting the pieces together: each of them fits. -/
theorem Bounded.copyFrags2uip (i : Fin c.reassContexts) : Bounded (copyFrags2uip s i) := by
  apply Bounded.clear
  refine ⟨h.info, h.buf, ?_⟩
  refine List.foldlRecOn _ _ (motive := fun uip : Region => uip.size = c.uipSize ∧ uip.clean = true) ?_ ?_
  · rw [copy_size, copy_clean, h.uip.1]
    have := (h.info i).len
    exact ⟨rfl, h.uip.2, by omega, by omega⟩
  · intro uip huip j _
    rw [copyTurn]
    split
    next hused =>
      rw [copy_size, copy_clean, huip.1]
      have := (h.buf j).len hused.1
      exact ⟨rfl, huip.2, by omega, by omega⟩
    · exact huip

theorem Bounded.leave (p : Packetbuf c) : Bounded (s.leave p) := ⟨h.info, h.buf, h.uip⟩

theorem Bounded.inputNext (i : Fin c.reassContexts) : Bounded (inputNext s p i).1 := by
  rw [Sicslowpan.inputNext]
  split
  · split
    · exact (h.onInfo_same i fun _ => (by exact ⟨rfl, rfl⟩)).copyFrags2uip i
    · exact h
  · exact h

/-- ONE RECEPTION. -/
theorem Bounded.input (hfits : Fits t s p) : Bounded (input t s p).1 := by
  rw [Sicslowpan.input]
  split
  next hfirst =>
    have hadd := h.addFragment_first (p := p) frag1HdrLen p.fragTag p.fragSize
    obtain ⟨-, heq⟩ | ⟨i, hfree, heq⟩ := Sicslowpan.addFragment_first s p frag1HdrLen p.fragTag p.fragSize
    · rw [heq] at hadd ⊢
      exact hadd
    · rw [heq] at hadd ⊢
      exact hadd.inputFirst (hfits.first hfirst (by rw [hfree]; exact Option.some_ne_none i)) i
  · split
    next hnext =>
      have hadd : Bounded (addFragment s p fragnHdrLen p.fragTag p.fragSize p.fragOffset).1 := by
        by_cases hoff : p.fragOffset = 0
        · rw [hoff]
          exact h.addFragment_first ..
        · exact h.addFragment_next hoff (hfits.next hnext hoff)
      revert hadd
      rcases addFragment s p fragnHdrLen p.fragTag p.fragSize p.fragOffset with ⟨s', _ | i⟩
      · exact fun hadd => hadd
      · exact fun hadd => (hadd.leave p).inputNext i
    · exact (h.leave p).inputWhole

end

/-- THE MEMORY OF REASSEMBLY. From the start on, over receptions of any packets from any senders with any
    expired timers, every copy stays inside its array as long as what goes into the memory fits. -/
theorem reassembly_in_memory (t : AddrContexts) (ps : List (Packetbuf c)) (s : Lowpan c)
    (hrun : Run (receive t) (Fits t) (Lowpan.init c) ps s) : InMemory s := by
  refine Bounded.inMemory (hrun.invariant ?_ (bounded_init c))
  intro s p s' hs hfits hstep
  cases hstep
  exact hs.input hfits

/-! ### Concrete runs -/

instance (t : AddrContexts) (p : Packetbuf c) : Decidable (FirstFits t p) :=
  Option.decidableForallMem _

instance (p : Packetbuf c) : Decidable (NextFits p) := inferInstanceAs (Decidable (_ ∧ _ ∧ _))

instance (t : AddrContexts) (s : Lowpan c) (p : Packetbuf c) : Decidable (Fits t s p) :=
  have : Decidable (∀ i ∈ findContext s p.fragTag p.sender, HasBuffer s p i → NextFits p) :=
    Option.decidableForallMem _
  decidable_of_iff
    ((p.dispatch = dispatchFrag1 → (freeContext s p).2 ≠ none → FirstFits t p) ∧
      (p.dispatch = dispatchFragn → p.fragOffset ≠ 0 →
        ∀ i ∈ findContext s p.fragTag p.sender, HasBuffer s p i → NextFits p))
    ⟨fun h => ⟨h.1, h.2⟩, fun h => ⟨h.first, h.next⟩⟩

/-- The defaults of `sicslowpan.c` and `uipopt.h`. -/
def defaultConfig : LowpanConfig where
  fragmentBuffers := 12
  reassContexts := 2
  fragmentSize := 110
  uipBufsize := 1280
  llhLen := 0
  packetbufSize := 128
  hc06 := true
  contexts_pos := by decide
  contexts_le := by decide
  first_headers := by decide
  uip_headers := by decide
  uip_limit := by decide

/-- A packet from `nodeA` to `nodeB`, with no timer expired. -/
def packetOf (bs : List UInt8) (datalen : Nat) (h : datalen ≤ defaultConfig.packetbufSize) :
    Packetbuf defaultConfig :=
  ⟨nodeA, nodeB, bufferOf bs, datalen, fun _ => false, fun _ => 0, h⟩

/-- `udpPacket` with its headers in a first fragment, and the two bytes behind. -/
def headersFragment : Packetbuf defaultConfig :=
  packetOf ([0xc0, 50, 0, 7, 0x41] ++ slice udpPacket 0 48) 53 (by decide)

def restFragment : Packetbuf defaultConfig :=
  packetOf ([0xe0, 50, 0, 7, 6] ++ slice udpPacket 48 2) 7 (by decide)

theorem reassembly_in_memory_udp :
    ∃ s, Run (receive defaultContexts) (Fits defaultContexts) (Lowpan.init defaultConfig)
        [headersFragment, restFragment] s ∧
      slice s.uip.bytes 0 50 = slice udpPacket 0 50 ∧ InMemory s := by
  obtain ⟨s, hrun, hbytes⟩ : ∃ s, Run (receive defaultContexts) (Fits defaultContexts)
      (Lowpan.init defaultConfig) [headersFragment, restFragment] s ∧ _ :=
    exists_run (fun s p => decide (Fits defaultContexts s p))
      (fun s => slice s.uip.bytes 0 50 == slice udpPacket 0 50) (fun _ _ h => of_decide_eq_true h)
      (by decide)
  exact ⟨s, hrun, beq_iff_eq.mp hbytes, reassembly_in_memory _ _ _ hrun⟩

/-- A fragment that ends within its header, behind which `packetbuf` has bytes of the packet before. -/
def cutFragment : Packetbuf defaultConfig := packetOf [0xe0, 50, 0, 7, 0x41] 4 (by decide)

/-- A fragment of eight bytes at the last of the offsets. -/
def farFragment : Packetbuf defaultConfig :=
  packetOf [0xe0, 50, 0, 7, 255, 1, 2, 3, 4, 5, 6, 7, 8] 13 (by decide)

/-- The one is copied with a negative count; the other is stored, and later written behind `uip_buf`. -/
theorem fragments_astray :
    (∃ s,
       Run (receive defaultContexts) (fun _ _ => True) (Lowpan.init defaultConfig) [headersFragment, cutFragment] s ∧
       ¬InMemory s) ∧
    ∃ s,
      Run (receive defaultContexts) (fun _ _ => True) (Lowpan.init defaultConfig)
        [headersFragment, farFragment, restFragment] s ∧
      ¬InMemory s := by
  constructor
  · obtain ⟨s, hrun, hbuf⟩ : ∃ s, Run (receive defaultContexts) (fun _ _ => True)
        (Lowpan.init defaultConfig) [headersFragment, cutFragment] s ∧ _ :=
      exists_run (fun _ _ => true) (fun s => !(s.fragBuf (0 : Fin 12)).data.clean) (fun _ _ _ => trivial) (by decide)
    refine ⟨s, hrun, fun h => ?_⟩
    rw [(h.buf (0 : Fin 12)).2] at hbuf
    cases hbuf
  · obtain ⟨s, hrun, huip⟩ : ∃ s, Run (receive defaultContexts) (fun _ _ => True)
        (Lowpan.init defaultConfig) [headersFragment, farFragment, restFragment] s ∧ _ :=
      exists_run (fun _ _ => true) (fun s => !s.uip.clean) (fun _ _ _ => trivial) (by decide)
    refine ⟨s, hrun, fun h => ?_⟩
    rw [h.uip.2] at huip
    cases huip

end Sicslowpan

end CSync
