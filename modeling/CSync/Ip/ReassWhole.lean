import CSync.Ip.ReassRuns

/-! The payload of a reassembled IPv6 packet.

    As long as all fragments are of one datagram, a byte whose block is entered in the bitmap is the one of the
    datagram, and the last fragment brings the bytes behind the last whole block. So when all blocks are
    entered and the last fragment is there, the buffer has the payload. -/

namespace CSync.Reass
open Lib SourceRoute List

/-- A fragmented datagram: the length of the extension headers that its fragments begin with, and its payload. -/
structure Datagram where
  extLen : UInt8
  size : Nat
  bytes : Nat → UInt8

/-- Where the payload stands in a packet of the datagram. -/
def Datagram.ext (d : Datagram) : Nat := iphLen + d.extLen.toNat

/-- The fragment is a piece of the datagram: the headers of the datagram, with the one that `uip_next_hdr` is in,
    a fragment header, and some of the payload. Only the end of the payload comes without the More Fragments flag. -/
structure Packet.PieceOf (p : Packet) (d : Datagram) : Prop where
  extLen : p.uip.extLen = d.extLen
  nextHdr : p.nextHdr < p.uip.ext
  inside : fragEnd p.uip ≤ d.size
  bytes : ∀ i < (fragLen p.uip).toNat,
    p.uip.buf (p.uip.ext + fragHLen + i) = d.bytes ((fragOffset p.uip).toNat + i)
  last : moreFrags p.uip = false → fragEnd p.uip = d.size

/-- The last fragment has come: the bytes behind the last whole block are there. -/
structure Ended (d : Datagram) (s : State) : Prop where
  len : s.len.toNat = d.size
  short : d.ext + d.size < 65536
  room : d.size / 64 < s.bitmap.size
  bytes : ∀ i < d.size, d.size / 8 ≤ i / 8 → s.buf.bytes (d.ext + i) = d.bytes i

/-- The buffer has the bytes that the bitmap says it has. -/
structure Gathers (d : Datagram) (s : State) : Prop where
  held : ∀ i, i / 64 < s.bitmap.size → Marked s.bitmap.bytes (i / 8) →
    i < d.size ∧ s.buf.bytes (d.ext + i) = d.bytes i
  ended : s.flags &&& flagLastFrag ≠ 0 → Ended d s

variable {bufsize : Nat} {s : State} {p : Packet} {d : Datagram}

/-! ### A piece -/

theorem fragOffset_mod (u : Uip) : (fragOffset u).toNat % 8 = 0 := by
  have hand : fragOffset u &&& 7 = 0 := by
    rw [fragOffset, UInt16.and_assoc]
    exact UInt16.and_zero
  have hnat := congrArg UInt16.toNat hand
  have hmod := Nat.and_two_pow_sub_one_eq_mod (fragOffset u).toNat 3
  exact hmod.symm.trans hnat

namespace Packet.PieceOf

section
variable (h : p.PieceOf d)
include h

theorem ext : p.uip.ext = d.ext := by rw [Uip.ext, h.extLen, Datagram.ext]

/-- The next header is in front of the fragment header, which stays as it is. -/
theorem patched_buf {i : Nat} (hi : p.uip.ext ≤ i) : p.patched.buf i = p.uip.buf i := by
  have hnext := h.nextHdr
  rw [Packet.patched]
  split
  · exact store_outside (.inr (by rw [length_singleton]; omega))
  · rfl

theorem patched_more : moreFrags p.patched = moreFrags p.uip := by
  rw [moreFrags, moreFrags, offsetResMore, offsetResMore, patched_ext, h.patched_buf (by omega),
    h.patched_buf (by omega)]

theorem ofs {i : Nat} (hlo : (fragOffset p.uip).toNat ≤ i) (hhi : i < fragEnd p.uip) :
    p.patched.buf (p.patched.ext + fragHLen + (i - (fragOffset p.uip).toNat)) = d.bytes i := by
  have hlen : fragEnd p.uip = (fragOffset p.uip).toNat + (fragLen p.uip).toNat := rfl
  rw [patched_ext, h.patched_buf (by omega), h.bytes _ (by omega), Nat.add_sub_cancel' hlo]

end

end Packet.PieceOf

/-! ### The buffer after a piece -/

theorem firstFrag_bytes (s : State) {i : Nat} (hi : p.uip.ext ≤ i) : (firstFrag s p).buf.bytes i = s.buf.bytes i := by
  rw [firstFrag]
  split
  · exact Region.copy_outside _ _ (.inr (by rw [patched_ext]; omega))
  · rfl

@[simp] theorem firstFrag_bitmap (s : State) (p : Packet) : (firstFrag s p).bitmap = s.bitmap := by
  rw [firstFrag]
  split
  · rfl
  · rfl

@[simp] theorem firstFrag_len (s : State) (p : Packet) : (firstFrag s p).len = s.len := by
  rw [firstFrag]
  split
  · rfl
  · rfl

theorem firstFrag_last (s : State) (p : Packet) :
    (firstFrag s p).flags &&& flagLastFrag ≠ 0 ↔ s.flags &&& flagLastFrag ≠ 0 := by
  rw [firstFrag]
  split
  · have hfirst : ¬HasBit flagFirstFrag 0 := by decide
    have hor := hasBit_or s.flags flagFirstFrag (i := 0) (by decide)
    exact hor.trans (or_iff_left hfirst)
  · rfl

theorem stored_bitmap (s : State) (p : Packet) : (stored s p).bitmap =
    updateBitmap s.bitmap (fragOffset p.uip).toNat (fragEnd p.uip) := by
  rw [stored, placeFrag, lastFrag]
  split
  · rw [firstFrag_bitmap]
  · rw [firstFrag_bitmap]

theorem stored_bytes (h : p.PieceOf d) (s : State) (i : Nat) : (stored s p).buf.bytes (d.ext + i) =
    if (fragOffset p.uip).toNat ≤ i ∧ i < fragEnd p.uip then d.bytes i else s.buf.bytes (d.ext + i) := by
  have hlen : fragEnd p.uip = (fragOffset p.uip).toNat + (fragLen p.uip).toNat := rfl
  have hbuf : (lastFrag (firstFrag s p) p.patched (fragEnd p.uip)).buf = (firstFrag s p).buf := by
    rw [lastFrag]
    split
    · rfl
    · rfl
  rw [stored, placeFrag, hbuf, patched_ext, ← h.ext]
  split
  next hi =>
    have hcount : ((i - (fragOffset p.uip).toNat : Nat) : Int) < (fragLen p.uip).toNat := by omega
    have hcopy := (firstFrag s p).buf.copy_inside (o := p.uip.ext + (fragOffset p.uip).toNat)
      (fun i => p.patched.buf (p.uip.ext + fragHLen + i)) hcount
    rw [add_assoc, Nat.add_sub_cancel' hi.1] at hcopy
    rw [hcopy, ← patched_ext, h.ofs hi.1 hi.2]
  next hi => rw [Region.copy_outside _ _ (by omega), firstFrag_bytes s (Nat.le_add_right _ _)]

theorem stored_last (s : State) (p : Packet) (h : (stored s p).flags &&& flagLastFrag ≠ 0) :
    moreFrags p.patched = false ∧ (stored s p).len = UInt16.ofNat (fragEnd p.uip) ∨
      moreFrags p.patched = true ∧ s.flags &&& flagLastFrag ≠ 0 ∧ (stored s p).len = s.len := by
  rw [stored, placeFrag, lastFrag] at h ⊢
  cases hmore : moreFrags p.patched with
  | false => exact .inl ⟨rfl, rfl⟩
  | true =>
    rw [hmore, if_pos rfl] at h
    exact .inr ⟨rfl, (firstFrag_last s p).mp h, firstFrag_len s p⟩

/-- PIECE: the buffer still has what the bitmap says. -/
theorem Gathers.stored (h : Gathers d s) (hsized : s.Sized bufsize) (hpiece : p.PieceOf d) (hroom : fragEnd p.uip / 64
    < bufsize / 64) (hshort : p.uip.ext + fragEnd p.uip < 65536) : Gathers d (stored s p) := by
  have hle : (fragOffset p.uip).toNat ≤ fragEnd p.uip := Nat.le_add_right _ _
  have hinside := hpiece.inside
  have hmod := fragOffset_mod p.uip
  have hsize : (Reass.stored s p).bitmap.size = s.bitmap.size := by rw [stored_bitmap, updateBitmap_size]
  refine ⟨?_, ?_⟩
  · intro i hi hmarked
    rw [hsize] at hi
    rw [stored_bitmap, marked_updateBitmap _ hle] at hmarked
    rw [stored_bytes hpiece]
    rcases hmarked with hbefore | hnow
    · obtain ⟨hlt, hbyte⟩ := h.held i hi hbefore
      refine ⟨hlt, ?_⟩
      split
      · rfl
      · exact hbyte
    · exact ⟨by omega, if_pos (by omega)⟩
  · intro hlast
    rcases stored_last s p hlast with ⟨hmore, hlen⟩ | ⟨hmore, hbefore, hlen⟩
    · have hend : fragEnd p.uip = d.size := hpiece.last (by rw [← hpiece.patched_more, hmore])
      rw [hend] at hroom hshort hlen
      refine ⟨?_, by rw [← hpiece.ext]; exact hshort, by rw [hsize, hsized.2]; exact hroom, ?_⟩
      · rw [hlen, UInt16.toNat_ofNat']
        omega
      · intro i hi htail
        rw [stored_bytes hpiece, if_pos (by omega)]
    · have hended := h.ended hbefore
      refine ⟨by rw [hlen, hended.len], hended.short, by rw [hsize]; exact hended.room, ?_⟩
      intro i hi htail
      rw [stored_bytes hpiece]
      split
      · rfl
      · exact hended.bytes i hi htail

theorem gathers_startReass (hon : s.on = false) (d : Datagram) (u : Uip) : Gathers d (startReass s u) := by
  have hnot : s.on ≠ true := by
    rw [hon]
    decide
  rw [startReass, if_neg hnot]
  refine ⟨fun i hi hmarked => ?_, fun hlast => absurd UInt8.zero_and hlast⟩
  have hsize : ((i / 8 / 8 : Nat) : Int) < s.bitmap.size := by
    have hbyte : i / 64 < s.bitmap.size := hi
    omega
  have hzero := s.bitmap.copy_inside (o := 0) (fun _ => 0) hsize
  rw [zero_add] at hzero
  have hbit : HasBit ((s.bitmap.copy 0 s.bitmap.size fun _ => 0).bytes (i / 8 / 8)) (7 - i / 8 % 8) := hmarked
  rw [hzero] at hbit
  exact absurd hbit (not_hasBit_zero _)

/-- COMPLETE: all of the payload is in the buffer. -/
theorem Gathers.complete (h : Gathers d s) (hcomplete : complete s = true) :
    Ended d s ∧ ∀ i < d.size, s.buf.bytes (d.ext + i) = d.bytes i := by
  rw [Reass.complete, decide_eq_true_iff] at hcomplete
  obtain ⟨hlast, hfull, hend⟩ := hcomplete
  have hended := h.ended hlast
  refine ⟨hended, fun i hi => ?_⟩
  rw [hended.len] at hfull hend
  have hroom := hended.room
  rcases lt_or_ge (i / 8) (d.size / 8) with hblock | htail
  · refine (h.held i (by omega) ?_).2
    rcases lt_or_ge (i / 8 / 8) (d.size / 64) with hbyte | hbyte
    · exact marked_of_full (hfull _ hbyte)
    · have hk : d.size / 8 % 8 < 8 := Nat.mod_lt _ (by decide)
      have hsame : i / 8 / 8 = d.size / 64 := by omega
      rw [Marked, hsame, hend, bitmapBits_eq hk, hasBit_upTo hk (Nat.mod_lt _ (by decide))]
      omega
  · exact hended.bytes i hi htail

theorem deliver_whole {u : Uip} {b : Nat → UInt8} {n : UInt16} (hended : Ended d s)
    (hbytes : ∀ i < d.size, s.buf.bytes (d.ext + i) = d.bytes i) (hu : u.extLen = d.extLen)
    (h : (deliver s u).2 = .whole b n) : n.toNat = d.ext + d.size ∧ ∀ i < d.size, b (d.ext + i) = d.bytes i := by
  have hext : iphLen ≤ d.ext := Nat.le_add_right _ _
  rw [iphLen] at hext
  obtain ⟨rfl, rfl⟩ := h
  have hn : (s.len + (UInt16.ofNat iphLen + u.extLen.toUInt16)).toNat = d.ext + d.size := by
    have hshort := hended.short
    rw [Datagram.ext, iphLen] at hshort ⊢
    rw [hu, UInt16.toNat_add, UInt16.toNat_add, UInt16.toNat_ofNat', UInt8.toNat_toUInt16, hended.len]
    omega
  refine ⟨hn, fun i hi => ?_⟩
  -- the length fields are in front of the payload
  have hplace : d.ext + i < (s.len + (UInt16.ofNat iphLen + u.extLen.toUInt16)).toNat := by omega
  have hcopy : store u.buf 0 (slice s.buf.bytes 0 (s.len + (UInt16.ofNat iphLen + u.extLen.toUInt16)).toNat)
      (0 + (d.ext + i)) = _ := store_inside (by rw [length_slice]; exact hplace)
  rw [getD_slice _ hplace, zero_add, hbytes i hi] at hcopy
  exact (store_outside (.inr (by rw [lenHi, length_cons, length_singleton]; omega))).trans hcopy

/-! ### Runs -/

/-- The statics, with the fragments of the datagram that is being reassembled. -/
structure Session where
  state : State
  pieces : List Packet

/-- A fragment is received, or the timer of the reassembly expires. -/
inductive Event
  | fragment (p : Packet)
  | timeout

/-- The fragments of the datagram after a reception. -/
def Session.after (x : Session) (p : Packet) : List Packet :=
  if matching (startReass x.state p.uip) p.uip then if x.state.on then x.pieces ++ [p] else [p] else x.pieces

def Session.step (bufsize : Nat) (x : Session) : Event → Option Session
  | .fragment p => some ⟨(uipReass bufsize x.state p).1, x.after p⟩
  | .timeout => some ⟨uipReassOver x.state, x.pieces⟩

/-- The statics before the first packet. -/
def Session.boot (bufsize : Nat) : Session where
  state := ⟨false, ⟨bufsize, fun _ => 0, true⟩, ⟨bufsize / 64, fun _ => 0, true⟩, 0, 0, []⟩
  pieces := []

/-- The arrays have room for a fragment, and the length of the packet up to its end has 16 bits. -/
def Event.Fits (bufsize : Nat) (x : Session) : Event → Prop
  | .fragment p => Reass.Fits bufsize x.state p ∧
      (Own x.state p → p.Accepted bufsize → p.uip.ext + fragEnd p.uip < 65536)
  | .timeout => True

instance (x : Session) : ∀ e : Event, Decidable (e.Fits bufsize x)
  | .fragment _ => inferInstanceAs (Decidable (_ ∧ (_ → _ → _)))
  | .timeout => inferInstanceAs (Decidable True)

/-- INVARIANT: no write was outside, and the buffer has what the bitmap says, of the datagram that all its fragments
    are pieces of. -/
structure Session.Inv (bufsize : Nat) (x : Session) : Prop where
  sized : x.state.Sized bufsize
  inside : x.state.Inside
  gathers : x.state.on = true → ∀ d, (∀ q ∈ x.pieces, q.PieceOf d) → Gathers d x.state

variable {x : Session}

theorem Session.inv_boot (bufsize : Nat) : (Session.boot bufsize).Inv bufsize := ⟨⟨rfl, rfl⟩, ⟨rfl, rfl⟩, nofun⟩

/-- The buffer that the fragment meets, with what it has of the datagram. -/
theorem Session.Inv.start (h : x.Inv bufsize) (p : Packet) (hall : ∀ q ∈ x.after p, q.PieceOf d)
    (hown : Own x.state p) : p.PieceOf d ∧ Gathers d (startReass x.state p.uip) := by
  rw [Session.after, if_pos ((matching_startReass _ _).mpr hown)] at hall
  by_cases hon : x.state.on = true
  · rw [if_pos hon] at hall
    have hgathers := h.gathers hon d fun q hq => hall q (mem_append_left _ hq)
    rw [startReass, if_pos hon]
    exact ⟨hall p (mem_append_right _ (mem_singleton_self p)), hgathers⟩
  · rw [if_neg hon] at hall
    rw [Bool.not_eq_true] at hon
    exact ⟨hall p (mem_singleton_self p), gathers_startReass hon d p.uip⟩

theorem Session.Inv.stored (h : x.Inv bufsize) (hfits : (Event.fragment p).Fits bufsize x)
    (hall : ∀ q ∈ x.after p, q.PieceOf d) (hown : Own x.state p) (haccepted : p.Accepted bufsize) :
    p.PieceOf d ∧ Gathers d (Reass.stored (startReass x.state p.uip) p) := by
  obtain ⟨hpiece, hgathers⟩ := h.start p hall hown
  have hroom := ((hfits.1 hown).2.2 haccepted).2
  exact ⟨hpiece, hgathers.stored (startReass_sized h.sized p.uip) hpiece hroom (hfits.2 hown haccepted)⟩

theorem uipReass_of_own (hown : Own s p) : uipReass bufsize s p = takeFrag bufsize (startReass s p.uip) p := by
  rw [uipReass, if_pos ((matching_startReass s p).mpr hown)]

/-- A fragment of another datagram changes nothing. -/
theorem uipReass_of_other (hown : ¬Own s p) : uipReass bufsize s p = (s, .drop) := by
  have hon : s.on = true := by
    cases hon : s.on with
    | false => exact absurd (.inl hon) hown
    | true => rfl
  rw [uipReass, if_neg fun hmatch => hown ((matching_startReass s p).mp hmatch), startReass, if_pos hon]

theorem Session.Inv.fragment (h : x.Inv bufsize) (hfits : (Event.fragment p).Fits bufsize x) :
    Session.Inv bufsize ⟨(uipReass bufsize x.state p).1, x.after p⟩ := by
  refine ⟨uipReass_sized h.sized p, (uipReass_inside h.sized p).mpr ⟨h.inside, hfits.1⟩, fun hon d hall => ?_⟩
  by_cases hown : Own x.state p
  · rw [uipReass_of_own hown] at hon ⊢
    by_cases haccepted : p.Accepted bufsize
    · rw [takeFrag_of_accepted _ haccepted] at hon ⊢
      by_cases hcomplete : Reass.complete (Reass.stored (startReass x.state p.uip) p) = true
      · rw [if_pos hcomplete] at hon
        cases hon
      · rw [if_neg hcomplete]
        exact (h.stored hfits hall hown haccepted).2
    · rw [(takeFrag_of_refused _ haccepted).1] at hon
      cases hon
  · rw [uipReass_of_other hown] at hon ⊢
    rw [Session.after, if_neg fun hmatch => hown ((matching_startReass _ _).mp hmatch)] at hall
    exact h.gathers hon d hall

/-- STEP: every event that fits keeps the invariant. -/
theorem Session.inv_step (x : Session) (e : Event) (y : Session) (h : x.Inv bufsize) (hfits : e.Fits bufsize x)
    (hstep : x.step bufsize e = some y) : y.Inv bufsize := by
  cases e with
  | fragment p =>
    rw [Session.step, Option.some.injEq] at hstep
    rw [← hstep]
    exact h.fragment hfits
  | timeout =>
    rw [Session.step, Option.some.injEq] at hstep
    rw [← hstep]
    exact ⟨h.sized, h.inside, nofun⟩

/-- A packet that comes out has the payload of the datagram that its fragments are pieces of. -/
theorem Session.Inv.whole {b : Nat → UInt8} {n : UInt16} (h : x.Inv bufsize)
    (hfits : (Event.fragment p).Fits bufsize x) (hall : ∀ q ∈ x.after p, q.PieceOf d)
    (hout : (uipReass bufsize x.state p).2 = .whole b n) :
    n.toNat = d.ext + d.size ∧ ∀ i < d.size, b (d.ext + i) = d.bytes i := by
  by_cases hown : Own x.state p
  · rw [uipReass_of_own hown] at hout
    by_cases haccepted : p.Accepted bufsize
    · obtain ⟨hpiece, hgathers⟩ := h.stored hfits hall hown haccepted
      rw [takeFrag_of_accepted _ haccepted] at hout
      by_cases hcomplete : Reass.complete (Reass.stored (startReass x.state p.uip) p) = true
      · rw [if_pos hcomplete] at hout
        obtain ⟨hended, hbytes⟩ := hgathers.complete hcomplete
        exact deliver_whole hended hbytes ((patched_extLen p).trans hpiece.extLen) hout
      · rw [if_neg hcomplete] at hout
        cases hout
    · exact absurd hout ((takeFrag_of_refused _ haccepted).2.2.2 b n)
  · rw [uipReass_of_other hown] at hout
    cases hout

/-- REASSEMBLY: in a run of fragments that the arrays have room for, no write leaves the arrays, and a packet that is
    delivered has the payload of the datagram that all its fragments come from, whatever their order, and however
    often they come. -/
theorem reassembly_inside_and_whole (bufsize : Nat) {es : List Event} {x : Session}
    (hrun : Run (Session.step bufsize) (Event.Fits bufsize) (Session.boot bufsize) es x) :
    x.state.Inside ∧
    ∀ (p : Packet) (b : Nat → UInt8) (n : UInt16), (Event.fragment p).Fits bufsize x →
      (uipReass bufsize x.state p).1.Inside ∧
      ((uipReass bufsize x.state p).2 = .whole b n →
         ∀ d : Datagram, (∀ q ∈ x.after p, q.PieceOf d) →
           n.toNat = d.ext + d.size ∧ ∀ i < d.size, b (d.ext + i) = d.bytes i) := by
  have hinv : x.Inv bufsize := hrun.invariant (fun s e t h => Session.inv_step s e t h) (Session.inv_boot bufsize)
  refine ⟨hinv.inside, fun p b n hfits => ⟨(hinv.fragment hfits).inside, fun hout d hall => ?_⟩⟩
  exact hinv.whole hfits hall hout

/-! ### Fragments of a small datagram, and one at the end of the buffer -/

/-- An IPv6 packet from node 1 to node 2 with a fragment header and `piece`; `field` has the offset and the flag. -/
def fragmentPacket (field : UInt8 × UInt8) (piece : List UInt8) : Packet where
  uip :=
    { buf := bufferOf (replicate 6 0 ++ [44, 64] ++ (replicate 15 0 ++ [1]) ++ (replicate 15 0 ++ [2]) ++
        [17, 0, field.1, field.2, 0, 0, 0, 7] ++ piece),
      len := 48 + UInt16.ofNat piece.length, extLen := 0 }
  nextHdr := 6

/-- A payload of 20 bytes, in two fragments. -/
def smallDatagram : Datagram := ⟨0, 20, fun i => UInt8.ofNat (i + 1)⟩
def smallHead : Packet := fragmentPacket (0, 1) [1, 2, 3, 4, 5, 6, 7, 8, 9, 10, 11, 12, 13, 14, 15, 16]
def smallTail : Packet := fragmentPacket (0, 16) [17, 18, 19, 20]

/-- The tail has come, and the head comes behind it. -/
def smallSession : Session :=
  ⟨(uipReass 128 (Session.boot 128).state smallTail).1, (Session.boot 128).after smallTail⟩

/-- Out of order, the two fragments are put together. -/
theorem small_datagram_reassembled : ∃ b n, (uipReass 128 smallSession.state smallHead).2 = .whole b n ∧
    n.toNat = 60 ∧ ∀ i < 20, b (40 + i) = UInt8.ofNat (i + 1) := by
  have hrun : Run (Session.step 128) (Event.Fits 128) (Session.boot 128) [.fragment smallTail] smallSession :=
    .cons (by decide) rfl (.nil _)
  obtain ⟨-, hwhole⟩ := reassembly_inside_and_whole 128 hrun
  have hhead : smallHead.PieceOf smallDatagram := ⟨by decide, by decide, by decide, by decide, by decide⟩
  have htail : smallTail.PieceOf smallDatagram := ⟨by decide, by decide, by decide, by decide, by decide⟩
  have hcomplete : complete (stored (startReass smallSession.state smallHead.uip) smallHead) = true := by
    decide
  have hfits : (Event.fragment smallHead).Fits 128 smallSession := by decide
  have hown : Own smallSession.state smallHead := by decide
  have hout : uipReass 128 smallSession.state smallHead = _ := uipReass_of_own hown
  refine ⟨_, _, congrArg Prod.snd hout, (hwhole smallHead _ _ hfits).2 (congrArg Prod.snd hout) smallDatagram ?_⟩
  intro q hq
  rcases mem_cons.mp hq with rfl | hq
  · exact htail
  · rw [mem_singleton.mp hq]
    exact hhead

/-- The last 8 bytes of a payload as long as the buffer. -/
def endFragment : Packet := fragmentPacket (4, 248) [1, 2, 3, 4, 5, 6, 7, 8]

/-- Such a fragment passes the size test; it is written behind the buffer, and behind the bitmap. -/
theorem fragment_written_behind_buffer : ∃ x, Run (Session.step 1280) (fun _ _ => True) (Session.boot 1280)
    [.fragment endFragment] x ∧ x.state.buf.clean = false ∧ x.state.bitmap.clean = false :=
  ⟨_, .cons trivial rfl (.nil _), by decide, by decide⟩

end CSync.Reass
