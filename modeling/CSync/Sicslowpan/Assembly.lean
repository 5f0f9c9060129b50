import CSync.Sicslowpan.Output
import CSync.Sicslowpan.ReassemblyBounds

/-! What reassembly puts together.

    One datagram is followed through the contexts and buffers, among fragments of others. A context of its
    sender and tag has the first fragment, and its buffers have different pieces of the rest; the count of
    the context is then the bytes that are there. Different pieces as long as the datagram are all of it,
    so what is copied together when the count is reached is the datagram. -/

namespace CSync

open Lib Region

namespace Sicslowpan

variable {c : LowpanConfig} {s s' : Lowpan c} {p : Packetbuf c} {i k : Fin c.reassContexts}

/-! ### Pieces in the buffers -/

def heldBy (s : Lowpan c) (i : Fin c.reassContexts) : Finset (Fin c.fragmentBuffers) :=
  Finset.univ.filter fun j => 0 < (s.fragBuf j).len ∧ (s.fragBuf j).index = i

variable {j : Fin c.fragmentBuffers}

theorem mem_heldBy :
    j ∈ heldBy s i ↔ 0 < (s.fragBuf j).len ∧ (s.fragBuf j).index = i := by
  rw [heldBy, Finset.mem_filter]
  exact and_iff_right (Finset.mem_univ j)

section

variable (t : AddrContexts) (l : Link) (d : Datagram c)

/-- The number of the piece with this offset. -/
def pieceAt (offset : Nat) : Nat := (offset * 8 - firstEnd t l d) / nextPayloadLen l

/-- The buffer has the piece number `k` of the datagram. -/
structure IsPiece (b : FragBuf c) (k : Nat) : Prop where
  inside : firstEnd t l d + k * nextPayloadLen l < d.len
  offset : b.offset * 8 = firstEnd t l d + k * nextPayloadLen l
  len : b.len = pieceLen (nextPayloadLen l) (d.len - firstEnd t l d) k
  data : ∀ x < b.len, b.data.bytes x = d.ip (b.offset * 8 + x)

/-- The buffers of the context `i` have different pieces. -/
structure HasPieces (s : Lowpan c) (i : Fin c.reassContexts) : Prop where
  piece : ∀ j ∈ heldBy s i, ∃ k, IsPiece t l d (s.fragBuf j) k
  distinct : ∀ j ∈ heldBy s i, ∀ j' ∈ heldBy s i, (s.fragBuf j).offset = (s.fragBuf j').offset → j = j'

/-- The context `i` gathers the datagram: it has the first fragment, its buffers have different pieces, and
    it has counted them all. -/
structure Gathers (s : Lowpan c) (i : Fin c.reassContexts) : Prop extends HasPieces t l d s i where
  firstLen : (s.fragInfo i).firstFragLen = firstEnd t l d
  first : ∀ x < firstEnd t l d, (s.fragInfo i).firstFrag.bytes x = d.ip x
  count : (s.fragInfo i).reassembledLen = firstEnd t l d + ∑ j ∈ heldBy s i, (s.fragBuf j).len

end

section

variable {t : AddrContexts} {l : Link} {d : Datagram c}

theorem IsPiece.pieceAt_eq {b : FragBuf c} {k : Nat} (h : IsPiece t l d b k) : pieceAt t l d b.offset = k := by
  rw [pieceAt, h.offset, Nat.add_sub_cancel_left, Nat.mul_div_cancel _ (nextPayloadLen_pos l).1]

section
variable (h : HasPieces t l d s i)
include h

theorem HasPieces.injOn :
    Set.InjOn (fun j => pieceAt t l d (s.fragBuf j).offset) (heldBy s i) := by
  intro j hj j' hj' heq
  obtain ⟨k, hk⟩ := h.piece j hj
  obtain ⟨k', hk'⟩ := h.piece j' hj'
  dsimp only at heq
  rw [hk.pieceAt_eq, hk'.pieceAt_eq] at heq
  have hoff := hk.offset
  have hoff' := hk'.offset
  rw [heq] at hoff
  exact h.distinct j hj j' hj' (by omega)

theorem HasPieces.sum_eq : ∑ j ∈ heldBy s i, (s.fragBuf j).len = ∑ j ∈ heldBy s i, pieceLen
    (nextPayloadLen l) (d.len - firstEnd t l d) (pieceAt t l d (s.fragBuf j).offset) := by
  refine Finset.sum_congr rfl fun j hj => ?_
  obtain ⟨k, hk⟩ := h.piece j hj
  rw [hk.pieceAt_eq, hk.len]

theorem HasPieces.sum_le :
    ∑ j ∈ heldBy s i, (s.fragBuf j).len ≤ d.len - firstEnd t l d := by
  rw [h.sum_eq]
  exact sum_pieces_le h.injOn

end

/-- A full count: every byte behind the first fragment is in a buffer. -/
theorem Gathers.complete (h : Gathers t l d s i) (hcount : d.len ≤ (s.fragInfo i).reassembledLen) {x : Nat}
    (hx : firstEnd t l d ≤ x ∧ x < d.len) :
    ∃ j ∈ heldBy s i, (s.fragBuf j).offset * 8 ≤ x ∧ x < (s.fragBuf j).offset * 8 + (s.fragBuf j).len := by
  have hpos := (nextPayloadLen_pos l).1
  rw [h.count, h.sum_eq] at hcount
  -- the number of the piece with the byte
  have hdiv := Nat.div_add_mod (x - firstEnd t l d) (nextPayloadLen l)
  have hmod := Nat.mod_lt (x - firstEnd t l d) hpos
  rw [mul_comm] at hdiv
  have hsum := Nat.sub_le_iff_le_add'.mpr hcount
  obtain ⟨j, hj, hpiece⟩ := exists_piece hpos h.injOn hsum (k := (x - firstEnd t l d) / nextPayloadLen l) (by omega)
  obtain ⟨k, hk⟩ := h.piece j hj
  rw [hk.pieceAt_eq] at hpiece
  have hoff := hk.offset
  have hlen := hk.len
  rw [pieceLen, hpiece] at hlen
  rw [hpiece] at hoff
  exact ⟨j, hj, by omega, by omega⟩

/-- Copies that agree with the datagram leave it where one of them has been. -/
theorem copyTurns_bytes (hdata : ∀ j ∈ heldBy s i, ∀ x < (s.fragBuf j).len,
      (s.fragBuf j).data.bytes x = d.ip ((s.fragBuf j).offset * 8 + x)) {x : Nat} :
    ∀ (js : List (Fin c.fragmentBuffers)) (uip : Region),
      (uip.bytes x = d.ip x ∨ ∃ j ∈ js, j ∈ heldBy s i ∧ (s.fragBuf j).offset * 8 ≤ x ∧
        x < (s.fragBuf j).offset * 8 + (s.fragBuf j).len) →
      (js.foldl (copyTurn s i) uip).bytes x = d.ip x
  | [], uip, h => by
    obtain h | ⟨j, hj, -⟩ := h
    · exact h
    · cases hj
  | j :: js, uip, h => by
    rw [List.foldl_cons]
    apply copyTurns_bytes hdata js
    rw [copyTurn]
    split
    next hheld =>
      by_cases hcover : (s.fragBuf j).offset * 8 ≤ x ∧ x < (s.fragBuf j).offset * 8 + (s.fragBuf j).len
      · left
        obtain ⟨y, rfl⟩ := Nat.exists_eq_add_of_le hcover.1
        rw [copy_inside _ _ (by omega)]
        exact hdata j (mem_heldBy.mpr hheld) y (by omega)
      · obtain h | ⟨j', hj', hheld', hcover'⟩ := h
        · left
          rw [copy_outside _ _ (by omega)]
          exact h
        · rcases List.mem_cons.mp hj' with rfl | hj'
          · exact absurd hcover' hcover
          · exact .inr ⟨j', hj', hheld', hcover'⟩
    next hheld =>
      obtain h | ⟨j', hj', hheld', hcover'⟩ := h
      · exact .inl h
      · rcases List.mem_cons.mp hj' with rfl | hj'
        · exact absurd (mem_heldBy.mp hheld') hheld
        · exact .inr ⟨j', hj', hheld', hcover'⟩

/-- PUT TOGETHER with a full count, the pieces are the datagram. -/
theorem Gathers.copyFrags2uip (h : Gathers t l d s i) (hcount : d.len ≤ (s.fragInfo i).reassembledLen)
    {n x : Nat} (hx : x < d.len) :
    (copyFrags2uip (s.onInfo i fun f => { f with reassembledLen := n }) i).uip.bytes x = d.ip x := by
  rw [Sicslowpan.copyFrags2uip, clear_uip, onInfo_self]
  refine copyTurns_bytes (s := s) (i := i) (d := d) (fun j hj y hy => ?_) _ _ ?_
  · obtain ⟨k, hk⟩ := h.piece j hj
    exact hk.data y hy
  · dsimp only
    rw [h.firstLen]
    by_cases hfirst : x < firstEnd t l d
    · left
      have hcopy := copy_inside s.uip (o := 0) (s.fragInfo i).firstFrag.bytes (Int.ofNat_lt.mpr hfirst)
      rw [zero_add] at hcopy
      exact hcopy.trans (h.first x hfirst)
    · obtain ⟨j, hj, hcover⟩ := h.complete hcount ⟨Nat.not_lt.mp hfirst, hx⟩
      exact .inr ⟨j, List.mem_finRange j, hj, hcover⟩

end

/-! ### Invariant -/

section

variable (t : AddrContexts) (l : Link) (d : Datagram c) (tag : UInt16)

/-- Contexts of the sender and the tag gather the datagram, and buffers in use are of contexts in use. -/
structure Inv (s : Lowpan c) : Prop where
  mine : ∀ i, 0 < (s.fragInfo i).len → (s.fragInfo i).tag = tag → (s.fragInfo i).sender = l.lladdr →
    Gathers t l d s i
  live : ∀ j, 0 < (s.fragBuf j).len → 0 < (s.fragInfo (s.fragBuf j).index).len

end

section

variable {t : AddrContexts} {l : Link} {d : Datagram c} {tag : UInt16}

theorem inv_init : Inv t l d tag (Lowpan.init c) :=
  ⟨fun _ h => absurd h (lt_irrefl 0), fun _ h => absurd h (lt_irrefl 0)⟩

theorem Gathers.congr (h : Gathers t l d s i) (hinfo : s'.fragInfo i = s.fragInfo i) (hbuf : ∀ j, s'.fragBuf j =
    s.fragBuf j ∨ (j ∉ heldBy s i ∧ j ∉ heldBy s' i)) : Gathers t l d s' i := by
  have hheld : heldBy s' i = heldBy s i := by
    ext j
    obtain hsame | ⟨hnot, hnot'⟩ := hbuf j
    · rw [mem_heldBy, mem_heldBy, hsame]
    · exact ⟨fun hj => absurd hj hnot', fun hj => absurd hj hnot⟩
  have hsame : ∀ j ∈ heldBy s i, s'.fragBuf j = s.fragBuf j := by
    intro j hj
    obtain hsame | ⟨hnot, -⟩ := hbuf j
    · exact hsame
    · exact absurd hj hnot
  refine ⟨⟨?_, ?_⟩, ?_, ?_, ?_⟩
  · intro j hj
    rw [hheld] at hj
    rw [hsame j hj]
    exact h.piece j hj
  · intro j hj j' hj' heq
    rw [hheld] at hj hj'
    rw [hsame j hj, hsame j' hj'] at heq
    exact h.distinct j hj j' hj' heq
  · rw [hinfo, h.firstLen]
  · rw [hinfo]
    exact h.first
  · rw [hinfo, hheld, h.count, Finset.sum_congr rfl fun j hj => congrArg FragBuf.len (hsame j hj)]

section
variable (h : Inv t l d tag s)
include h

theorem Inv.update (i : Fin c.reassContexts) (hinfo : ∀ k, k ≠ i → s'.fragInfo k = s.fragInfo k)
    (hbuf : ∀ j,
        s'.fragBuf j = s.fragBuf j ∨
        ((0 < (s.fragBuf j).len → (s.fragBuf j).index = i) ∧ (0 < (s'.fragBuf j).len → (s'.fragBuf j).index = i)))
    (hlive : ∀ j, 0 < (s'.fragBuf j).len → (s'.fragBuf j).index = i → 0 < (s'.fragInfo i).len)
    (hself :
      0 < (s'.fragInfo i).len → (s'.fragInfo i).tag = tag → (s'.fragInfo i).sender = l.lladdr → Gathers t l d s' i) :
    Inv t l d tag s' := by
  constructor
  · intro k hlen htag hsender
    by_cases hk : k = i
    · subst hk
      exact hself hlen htag hsender
    · rw [hinfo k hk] at hlen htag hsender
      refine (h.mine k hlen htag hsender).congr (hinfo k hk) fun j => ?_
      obtain hsame | ⟨hold, hnew⟩ := hbuf j
      · exact .inl hsame
      · refine .inr ⟨fun hj => ?_, fun hj => ?_⟩
        · obtain ⟨hpos, hindex⟩ := mem_heldBy.mp hj
          exact hk (hindex.symm.trans (hold hpos))
        · obtain ⟨hpos, hindex⟩ := mem_heldBy.mp hj
          exact hk (hindex.symm.trans (hnew hpos))
  · intro j hj
    by_cases hk : (s'.fragBuf j).index = i
    · rw [hk]
      exact hlive j hj hk
    · obtain hsame | ⟨-, hnew⟩ := hbuf j
      · rw [hinfo _ hk, hsame]
        rw [hsame] at hj
        exact h.live j hj
      · exact absurd (hnew hj) hk

theorem Inv.uip (uip : Region) : Inv t l d tag { s with uip := uip } :=
  ⟨fun i hlen htag hsender => (h.mine i hlen htag hsender).congr rfl fun _ => .inl rfl, h.live⟩

/-- A context is freed, whatever was written into it before. -/
theorem Inv.cleared (hinfo : ∀ k, k ≠ i → s'.fragInfo k = s.fragInfo k)
    (hbuf : s'.fragBuf = s.fragBuf) : Inv t l d tag (clearFragments s' i).1 := by
  have hfree : ∀ j, ¬(0 < ((clearFragments s' i).1.fragBuf j).len ∧
      ((clearFragments s' i).1.fragBuf j).index = i) := by
    intro j
    obtain ⟨-, -, hfree⟩ | ⟨hnot, hsame⟩ := clear_fragBuf (s := s') (i := i) j
    · rw [hfree]
      exact fun hj => absurd hj.1 (lt_irrefl 0)
    · rw [hsame]
      exact hnot
  refine h.update i (fun k hk => ?_) (fun j => ?_) (fun j hpos hindex => absurd ⟨hpos, hindex⟩ (hfree j)) ?_
  · rw [clear_other hk, hinfo k hk]
  · obtain ⟨-, hindex, hfree⟩ | ⟨-, hsame⟩ := clear_fragBuf (s := s') (i := i) j
    · rw [hfree, ← hbuf]
      exact .inr ⟨fun _ => hindex, fun hpos => absurd hpos (lt_irrefl 0)⟩
    · rw [hsame, hbuf]
      exact .inl rfl
  · rw [clear_self]
    exact fun hpos => absurd hpos (lt_irrefl 0)

theorem Inv.freed {keep : Option (Fin c.reassContexts)} (hfreed : Freed keep s s') :
    Inv t l d tag s' :=
  hfreed.keeps (fun _ _ hs => hs.cleared (fun _ _ => rfl) rfl) h

/-- A context that stays another one, and keeps its buffers. -/
theorem Inv.another {f : FragInfo → FragInfo}
    (hlen : (f (s.fragInfo i)).len = (s.fragInfo i).len ∨ (s.fragInfo i).len = 0)
    (hother : ¬((f (s.fragInfo i)).tag = tag ∧ (f (s.fragInfo i)).sender = l.lladdr)) :
    Inv t l d tag (s.onInfo i f) := by
  refine h.update i (fun k hk => onInfo_other f hk) (fun j => .inl rfl) (fun j hpos hindex => ?_) ?_
  · have hlive := h.live j hpos
    rw [show (s.fragBuf j).index = i from hindex] at hlive
    rw [onInfo_self]
    omega
  · rw [onInfo_self]
    exact fun _ htag hsender => absurd ⟨htag, hsender⟩ hother

theorem Inv.stored {hdrLen offset len : Nat}
    (hfree : (s.fragBuf j).len = 0) (hlen : 0 < (s.fragInfo i).len)
    (hself : (s.fragInfo i).tag = tag → (s.fragInfo i).sender = l.lladdr →
        Gathers t l d (counted (stored s p hdrLen i offset j) i len) i) :
    Inv t l d tag (counted (stored s p hdrLen i offset j) i len) := by
  refine h.update i (fun k hk => onInfo_other _ hk) (fun j' => ?_) (fun j' _ _ => ?_) ?_
  · by_cases hj : j' = j
    · subst hj
      refine .inr ⟨fun hpos => absurd hpos (by omega), fun _ => ?_⟩
      exact congrArg FragBuf.index (if_pos rfl)
    · exact .inl (if_neg hj)
  · rw [counted, onInfo_self]
    exact hlen
  · rw [counted, onInfo_self]
    exact fun _ => hself

theorem Inv.stored_empty {hdrLen offset : Nat}
    (hfree : (s.fragBuf j).len = 0) (hempty : (fragmentOf p hdrLen i offset (s.fragBuf j)).len = 0) :
    Inv t l d tag (Sicslowpan.stored s p hdrLen i offset j) := by
  have hbuf : ∀ j', (Sicslowpan.stored s p hdrLen i offset j).fragBuf j' = s.fragBuf j' ∨ ((s.fragBuf j').len = 0 ∧
        ((Sicslowpan.stored s p hdrLen i offset j).fragBuf j').len = 0) := by
    intro j'
    by_cases hj : j' = j
    · subst hj
      exact .inr ⟨hfree, (congrArg FragBuf.len (if_pos rfl)).trans hempty⟩
    · exact .inl (if_neg hj)
  constructor
  · intro k hlen htag hsender
    refine (h.mine k hlen htag hsender).congr rfl fun j' => (hbuf j').imp_right ?_
    rintro ⟨hold, hnew⟩
    rw [mem_heldBy, mem_heldBy]
    exact ⟨fun hj => absurd hj.1 (by omega), fun hj => absurd hj.1 (by omega)⟩
  · intro j' hj'
    obtain hsame | ⟨-, hnew⟩ := hbuf j'
    · rw [hsame] at hj' ⊢
      exact h.live j' hj'
    · exact absurd hj' (by omega)

end

end

section

variable {t : AddrContexts} {l : Link} {d : Datagram c} {tag : UInt16}

theorem isPiece_fragmentOf {k : Nat} (hk : firstEnd t l d + k * nextPayloadLen l < d.len)
    (h : Carries l (fragmentAt t l d tag k) p) (i : Fin c.reassContexts) (b : FragBuf c) :
    IsPiece t l d (fragmentOf p fragnHdrLen i p.fragOffset b) k := by
  obtain ⟨hmod, -⟩ := firstEnd_mod t l d
  obtain ⟨hpos, hnmod⟩ := nextPayloadLen_pos l
  have hunits : (firstEnd t l d + k * nextPayloadLen l) % 8 = 0 := by
    rw [Nat.add_mod, Nat.mul_mod, hmod, hnmod, Nat.mul_zero]
  have hsmall : nextPayloadLen l < 256 := by
    have hlimit := l.frame_limit
    rw [nextPayloadLen]
    omega
  have hlimit : firstEnd t l d + k * nextPayloadLen l < 2048 := by
    have hfits := d.fits
    have huip := c.uip_limit
    omega
  obtain ⟨-, -, -, hoff, hdatalen, hdata⟩ := h.next hlimit
  have hstart : p.fragOffset * 8 = firstEnd t l d + k * nextPayloadLen l := by omega
  have hle : pieceLen (nextPayloadLen l) (d.len - firstEnd t l d) k ≤ nextPayloadLen l := min_le_left _ _
  have hlen : (fragmentOf p fragnHdrLen i p.fragOffset b).len =
      pieceLen (nextPayloadLen l) (d.len - firstEnd t l d) k := by
    rw [fragmentOf]
    dsimp only
    omega
  refine ⟨hk, hstart, hlen, fun x hx => ?_⟩
  rw [hlen] at hx
  have hcopy : (b.data.copy 0 ((p.datalen : Int) - fragnHdrLen) (dataFrom p.data fragnHdrLen)).bytes
      (0 + x) = p.data (fragnHdrLen + x) := copy_inside _ _ (by omega)
  rw [zero_add] at hcopy
  rw [fragmentOf]
  rw [hcopy, hdata x hx, hstart]

theorem Gathers.stored (h : Gathers t l d s i) {k : Nat} (hfree : (s.fragBuf j).len = 0)
    (hpiece : IsPiece t l d (fragmentOf p fragnHdrLen i p.fragOffset (s.fragBuf j)) k)
    (hfresh : ∀ j' ∈ heldBy s i, (s.fragBuf j').offset ≠ p.fragOffset) :
    Gathers t l d (counted (stored s p fragnHdrLen i p.fragOffset j) i
      (fragmentOf p fragnHdrLen i p.fragOffset (s.fragBuf j)).len) i := by
  generalize hs' : counted (Sicslowpan.stored s p fragnHdrLen i p.fragOffset j) i
      (fragmentOf p fragnHdrLen i p.fragOffset (s.fragBuf j)).len = s'
  have hnew : s'.fragBuf j = fragmentOf p fragnHdrLen i p.fragOffset (s.fragBuf j) := by
    rw [← hs']
    exact if_pos rfl
  have hold : ∀ j', j' ≠ j → s'.fragBuf j' = s.fragBuf j' := by
    intro j' hj'
    rw [← hs']
    exact if_neg hj'
  have hpos : 0 < (s'.fragBuf j).len := by
    rw [hnew, hpiece.len]
    have hinside := hpiece.inside
    exact pieceLen_pos (nextPayloadLen_pos l).1 (by omega)
  have hnot : j ∉ heldBy s i := fun hj => absurd (mem_heldBy.mp hj).1 (by omega)
  have hne : ∀ j' ∈ heldBy s i, j' ≠ j := by
    rintro j' hj' rfl
    exact hnot hj'
  have hheld : heldBy s' i = insert j (heldBy s i) := by
    ext j'
    rw [Finset.mem_insert, mem_heldBy]
    by_cases hj' : j' = j
    · subst hj'
      rw [hnew] at hpos ⊢
      exact ⟨fun _ => .inl rfl, fun _ => ⟨hpos, rfl⟩⟩
    · rw [hold j' hj', mem_heldBy]
      exact ⟨.inr, fun hor => hor.resolve_left hj'⟩
  have hpieces : HasPieces t l d s' i := by
    constructor
    · intro j' hj'
      rw [hheld, Finset.mem_insert] at hj'
      rcases hj' with rfl | hj'
      · rw [hnew]
        exact ⟨k, hpiece⟩
      · rw [hold j' (hne j' hj')]
        exact h.piece j' hj'
    · intro a ha b hb heq
      rw [hheld, Finset.mem_insert] at ha hb
      rcases ha with rfl | ha
      · rcases hb with rfl | hb
        · rfl
        · rw [hnew, hold b (hne b hb)] at heq
          exact absurd heq.symm (hfresh b hb)
      · rcases hb with rfl | hb
        · rw [hnew, hold a (hne a ha)] at heq
          exact absurd heq (hfresh a ha)
        · rw [hold a (hne a ha), hold b (hne b hb)] at heq
          exact h.distinct a ha b hb heq
  have hsum : ∑ j' ∈ heldBy s' i, (s'.fragBuf j').len =
      (s'.fragBuf j).len + ∑ j' ∈ heldBy s i, (s.fragBuf j').len := by
    rw [hheld, Finset.sum_insert hnot, Finset.sum_congr rfl fun j' hj' => congrArg FragBuf.len (hold j' (hne j' hj'))]
  have hle := hpieces.sum_le
  have hinfo : s'.fragInfo i = { s.fragInfo i with
      reassembledLen := ((s.fragInfo i).reassembledLen + (s'.fragBuf j).len) % 65536 } := by
    rw [hnew, ← hs', counted, onInfo_self]
    rfl
  refine ⟨hpieces, ?_, ?_, ?_⟩
  · rw [hinfo]
    exact h.firstLen
  · rw [hinfo]
    exact h.first
  · -- all pieces are bytes of the datagram, so the count does not wrap
    have hfits := d.fits
    have huip := c.uip_limit
    rw [hinfo]
    dsimp only
    rw [h.count, hsum, Nat.mod_eq_of_lt (by omega)]
    omega

end

end Sicslowpan

end CSync
