import CSync.Sicslowpan.AssemblyRuns

/-! Fragmentation and reassembly end to end.

    The first fragment covers the headers, written out, and a multiple of eight bytes behind them; the others are pieces of
    the rest. Received in order by a node that has nothing else to reassemble, they fill one context and as many buffers as
    there are later fragments. The buffers are a pool of fixed size: with one for each fragment the last one completes the
    datagram, and with fewer the fragments that find none are dropped and nothing is ever handed on. -/

namespace CSync

open Lib Region List

namespace Sicslowpan

variable {c : LowpanConfig}

/-! ### Spans -/

section

variable (t : AddrContexts) (l : Link) (d : Datagram c) (tag : UInt16)

/-- How many fragments there are behind the first one. -/
def nextCount : Nat := pieceCount (nextPayloadLen l) (d.len - firstEnd t l d)

/-- Where the fragments begin in the packet, and how many of its bytes they stand for. -/
def spans : List (Nat × Nat) :=
  (0, firstEnd t l d) :: (range (nextCount t l d)).map fun k =>
    (firstEnd t l d + k * nextPayloadLen l, pieceLen (nextPayloadLen l) (d.len - firstEnd t l d) k)

theorem lt_nextCount {k : Nat} (h : firstEnd t l d < d.len) :
    k < nextCount t l d ↔ firstEnd t l d + k * nextPayloadLen l < d.len := by
  rw [nextCount, lt_pieceCount (nextPayloadLen_pos l).1]
  omega

theorem nextFragments_eq (h : firstEnd t l d < d.len) : ∀ (turns k : Nat),
    d.len ≤ turns + (firstEnd t l d + k * nextPayloadLen l) →
    nextFragments d tag (nextPayloadLen l) turns (firstEnd t l d + k * nextPayloadLen l) =
      (range' k (nextCount t l d - k)).map (fragmentAt t l d tag)
  | 0, k, hturns => by
    have hnot : ¬ k < nextCount t l d := by
      rw [lt_nextCount t l d h]
      omega
    rw [Nat.sub_eq_zero_of_le (Nat.not_lt.mp hnot)]
    rfl
  | turns + 1, k, hturns => by
    have hpos := (nextPayloadLen_pos l).1
    by_cases hk : k < nextCount t l d
    · have hlt := (lt_nextCount t l d h).mp hk
      have hsucc : (k + 1) * nextPayloadLen l = k * nextPayloadLen l + nextPayloadLen l := Nat.succ_mul ..
      have hlen : (if d.len - (firstEnd t l d + k * nextPayloadLen l) < nextPayloadLen l
          then d.len - (firstEnd t l d + k * nextPayloadLen l) else nextPayloadLen l) =
          pieceLen (nextPayloadLen l) (d.len - firstEnd t l d) k := by
        rw [pieceLen]
        split
        · omega
        · omega
      have hcount : nextCount t l d - k = nextCount t l d - (k + 1) + 1 := by omega
      rw [nextFragments, if_pos hlt]
      dsimp only
      rw [hlen, hcount, range'_succ, map_cons, fragmentAt]
      congr 1
      by_cases hfull : nextPayloadLen l ≤ d.len - (firstEnd t l d + k * nextPayloadLen l)
      · rw [← nextFragments_eq h turns (k + 1) (by omega), hsucc, pieceLen, min_eq_left (by omega), add_assoc]
      · have hlast : ¬ k + 1 < nextCount t l d := by
          rw [lt_nextCount t l d h]
          omega
        rw [Nat.sub_eq_zero_of_le (Nat.not_lt.mp hlast), nextFragments_end]
        · rfl
        · rw [pieceLen]
          omega
    · have hend : d.len ≤ firstEnd t l d + k * nextPayloadLen l :=
        Nat.not_lt.mp fun hlt => hk ((lt_nextCount t l d h).mpr hlt)
      rw [nextFragments_end _ _ hend, Nat.sub_eq_zero_of_le (Nat.not_lt.mp hk)]
      rfl

theorem fragments_eq (h : firstEnd t l d < d.len) : fragments t l d tag =
    firstFragment t l d tag :: (range (nextCount t l d)).map (fragmentAt t l d tag) := by
  have hnext := nextFragments_eq t l d tag h d.len 0 (Nat.le_add_right ..)
  rw [zero_mul, add_zero, Nat.sub_zero] at hnext
  rw [fragments, range_eq_range']
  exact congrArg _ hnext

theorem fragments_spans (h : firstEnd t l d < d.len) : fragments t l d tag =
    firstFragment t l d tag :: (spans t l d).tail.map fun e => nextFragment d tag e.1 e.2 := by
  rw [fragments_eq t l d tag h, spans, tail_cons, map_map]
  rfl

theorem spans_aligned : ∀ e ∈ spans t l d, e.1 % 8 = 0 := by
  obtain ⟨hmod, -⟩ := firstEnd_mod t l d
  obtain ⟨-, hnmod⟩ := nextPayloadLen_pos l
  intro e he
  rcases mem_cons.mp he with rfl | he
  · rfl
  · obtain ⟨k, -, rfl⟩ := mem_map.mp he
    rw [Nat.add_mod, Nat.mul_mod, hmod, hnmod, Nat.mul_zero]

/-- Each begins behind the one before. -/
theorem spans_increasing : ((spans t l d).map Prod.fst).Pairwise (· < ·) := by
  obtain ⟨-, hpos⟩ := firstEnd_mod t l d
  rw [spans, map_cons, map_map, pairwise_cons]
  constructor
  · intro n hn
    obtain ⟨k, -, rfl⟩ := mem_map.mp hn
    have hforty : iphLen = 40 := rfl
    dsimp only [Function.comp]
    omega
  · refine pairwise_map.mpr (pairwise_lt_range.imp fun {i j} hij => ?_)
    have hmul := Nat.mul_lt_mul_of_pos_right hij (nextPayloadLen_pos l).1
    dsimp only [Function.comp]
    omega

section
variable (h : firstEnd t l d < d.len)
include h

/-- COVER: the spans, one behind the other, are the packet. -/
theorem spans_cover :
    (spans t l d).flatMap (fun e => range' e.1 e.2) = range d.len := by
  have hpieces := @flatMap_pieces _ (d.len - firstEnd t l d) (firstEnd t l d) (nextPayloadLen_pos l).1
  have hflat : ((range (nextCount t l d)).map fun k =>
      (firstEnd t l d + k * nextPayloadLen l, pieceLen (nextPayloadLen l) (d.len - firstEnd t l d) k)).flatMap
        (fun e => range' e.1 e.2) = range' (firstEnd t l d) (d.len - firstEnd t l d) := by
    rw [flatMap_map]
    exact hpieces
  have hjoin := range'_append_1 (s := 0) (m := firstEnd t l d) (n := d.len - firstEnd t l d)
  rw [zero_add, Nat.add_sub_cancel' (le_of_lt h)] at hjoin
  rw [spans, flatMap_cons, hflat, hjoin, range_eq_range']

/-- The offset byte of a fragment says where it begins. -/
theorem spans_offset : ∀ e ∈ spans t l d, (UInt8.ofNat (e.1 / 8)).toNat * 8 = e.1 := by
  intro e he
  have hmod := spans_aligned t l d e he
  have hle : e.1 ≤ d.len := by
    rcases mem_cons.mp he with rfl | he
    · exact Nat.zero_le _
    · obtain ⟨k, hk, rfl⟩ := mem_map.mp he
      have hlt := (lt_nextCount t l d h).mp (mem_range.mp hk)
      exact le_of_lt hlt
  have hfits := d.fits
  have huip := c.uip_limit
  rw [UInt8.toNat_ofNat', Nat.mod_eq_of_lt (by omega)]
  omega

/-- SIZES: no fragment is larger than the frame's payload. -/
theorem fragments_length : ∀ m ∈ fragments t l d tag, m.length ≤ l.maxPayload := by
  have hroom : frag1HdrLen + (iphLen + udphLen) ≤ l.maxPayload := l.headers_fit
  have hhdr := compressHeader_length t l d
  have hfour : frag1HdrLen = 4 := rfl
  have hfive : fragnHdrLen = 5 := rfl
  have hheaders : iphLen + udphLen = 48 := rfl
  intro m hm
  rw [fragments_eq t l d tag h] at hm
  rcases mem_cons.mp hm with rfl | hm
  · rw [firstFragment, length_append, length_append, fragHeader_length, length_slice, firstPayloadLen]
    omega
  · obtain ⟨k, -, rfl⟩ := mem_map.mp hm
    have hle : pieceLen (nextPayloadLen l) (d.len - firstEnd t l d) k ≤ nextPayloadLen l := min_le_left _ _
    rw [fragmentAt, nextFragment, length_append, length_append, fragHeader_length, length_slice, length_singleton]
    have hnext : nextPayloadLen l ≤ l.maxPayload - fragnHdrLen := Nat.div_mul_le_self _ _
    omega

end

/-- What is sent without an error is everything. -/
theorem send_ok (b : Below) : ∀ (ms : List (List UInt8)) (k : Nat), (send b k ms).2 = true → (send b k ms).1 = ms
  | [], _, _ => rfl
  | m :: ms, k, h => by
    rw [send] at h ⊢
    split at h
    · cases h
    next hqueued =>
      rw [if_neg hqueued]
      split at h
      · cases h
      next hsent =>
        rw [if_neg hsent]
        exact congrArg _ (send_ok b ms (k + 1) h)

theorem output_packets {b : Below} (hfrag : fragmented t l d = true) (hok : (output t l d tag b).ok = true) :
    (output t l d tag b).packets = fragments t l d tag := by
  rw [output, if_pos hfrag] at hok ⊢
  split at hok
  · cases hok
  next hfree =>
    rw [if_neg hfree]
    exact send_ok b _ 0 hok

end

/-! ### Reception in order -/

section

variable {t : AddrContexts} {l : Link} {d : Datagram c} {tag : UInt16} {s s' : Lowpan c} {p : Packetbuf c}
  {i : Fin c.reassContexts}

/-- Receptions one after the other, with what each hands on. -/
def feed (t : AddrContexts) : Lowpan c → List (Packetbuf c) → Lowpan c × List (Option Nat)
  | s, [] => (s, [])
  | s, p :: ps => ((feed t (input t s p).1 ps).1, (input t s p).2 :: (feed t (input t s p).1 ps).2)

/-- The context `i` gathers the datagram, has got its first `k` pieces in as many buffers, and is the only one in use. -/
structure Filled (t : AddrContexts) (l : Link) (d : Datagram c) (tag : UInt16) (s : Lowpan c) (i : Fin c.reassContexts)
    (k : Nat) : Prop where
  inv : Inv t l d tag s
  mine : (s.fragInfo i).tag = tag ∧ 0 < (s.fragInfo i).len ∧ (s.fragInfo i).sender = l.lladdr
  alone : ∀ i', i' ≠ i → (s.fragInfo i').len = 0
  held : (heldBy s i).card = k
  before : ∀ j ∈ heldBy s i, (s.fragBuf j).offset * 8 < firstEnd t l d + k * nextPayloadLen l
  count : (s.fragInfo i).reassembledLen = firstEnd t l d + min (k * nextPayloadLen l) (d.len - firstEnd t l d)

variable {k : Nat} {ps : List (Packetbuf c)}

section
variable (h : Filled t l d tag s i k)
include h

theorem Filled.findContext : findContext s tag l.lladdr = some i := by
  rw [Sicslowpan.findContext, find?_eq_some_iff_getElem]
  obtain ⟨htag, hlen, hsender⟩ := h.mine
  refine ⟨by simp [htag, hlen, hsender], i.val, by simp, by simp, fun j hj => ?_⟩
  have hne : (⟨j, lt_trans hj i.isLt⟩ : Fin c.reassContexts) ≠ i := fun heq => by
    rw [← heq] at hj
    exact absurd hj (lt_irrefl j)
  have hfree := h.alone _ hne
  simp [hfree]

theorem Filled.used (j : Fin c.fragmentBuffers) :
    j ∈ heldBy s i ↔ 0 < (s.fragBuf j).len := by
  rw [mem_heldBy]
  refine and_iff_left_of_imp fun hpos => ?_
  by_contra hne
  have hlive := h.inv.live j hpos
  rw [h.alone _ hne] at hlive
  exact absurd hlive (lt_irrefl 0)

theorem Filled.freeBuffer :
    (k < c.fragmentBuffers → ∃ j, freeBuffer s = some j) ∧ (k = c.fragmentBuffers → freeBuffer s = none) := by
  constructor
  · intro hlt
    by_contra hnone
    rw [← Option.ne_none_iff_exists', not_not, Sicslowpan.freeBuffer, find?_eq_none] at hnone
    have hall : heldBy s i = Finset.univ := by
      refine Finset.eq_univ_of_forall fun j => (h.used j).mpr ?_
      have hj := hnone j (mem_finRange j)
      rw [beq_iff_eq] at hj
      exact Nat.pos_of_ne_zero hj
    have hcard := h.held
    rw [hall, Finset.card_univ, Fintype.card_fin] at hcard
    omega
  · rintro rfl
    rw [Sicslowpan.freeBuffer, find?_eq_none]
    intro j _
    have hall : heldBy s i = Finset.univ := by
      rw [← Finset.card_eq_iff_eq_univ, h.held, Fintype.card_fin]
    have hpos := (h.used j).mp (hall ▸ Finset.mem_univ j)
    rw [beq_iff_eq]
    omega

/-- No other context is there to be freed. -/
theorem Filled.timeoutFragments (p : Packetbuf c) : timeoutFragments s p i = (s, 0) := by
  refine foldlRecOn _ _ (motive := fun a : Lowpan c × Nat => a = (s, 0)) rfl ?_
  rintro a rfl i' _
  rw [timeoutTurn, if_neg]
  rintro ⟨hpos, hne, -⟩
  rw [h.alone i' hne] at hpos
  exact absurd hpos (lt_irrefl 0)

end

/-- NO BUFFER: a fragment that finds none is dropped, and nothing changes. -/
theorem Filled.input_full (h : Filled t l d tag s i c.fragmentBuffers) (hk : firstEnd t l d + k * nextPayloadLen l <
    d.len) (hcarries : Carries l (fragmentAt t l d tag k) p) : input t s p = (s, none) := by
  have hfits := d.fits
  have huip := c.uip_limit
  have hpos := (firstEnd_mod t l d).2
  rw [show iphLen = 40 from rfl] at hpos
  obtain ⟨hdispatch, -, htag, hoff, -, -⟩ := hcarries.next (by omega)
  have hadd : addFragment s p fragnHdrLen p.fragTag p.fragSize p.fragOffset = (s, none) := by
    have hstore : storeFragment s p fragnHdrLen i p.fragOffset = (s, none) := by
      rw [storeFragment, h.freeBuffer.2 rfl]
    rw [addFragment, if_neg (by omega), htag, hcarries.sender, h.findContext]
    dsimp only
    rw [hstore]
    dsimp only
    rw [h.timeoutFragments, if_neg (lt_irrefl 0)]
  rw [input, if_neg (by rw [hdispatch]; decide), if_pos hdispatch, hadd]

/-- The memory with the next piece stored and counted. -/
def withPiece (s : Lowpan c) (p : Packetbuf c) (i : Fin c.reassContexts) (j : Fin c.fragmentBuffers) : Lowpan c :=
  (counted (stored s p fragnHdrLen i p.fragOffset j) i
    (fragmentOf p fragnHdrLen i p.fragOffset (s.fragBuf j)).len).leave p

variable {j : Fin c.fragmentBuffers}

theorem Filled.input_eq (h : Filled t l d tag s i k) (hk : firstEnd t l d + k * nextPayloadLen l < d.len)
    (hcarries : Carries l (fragmentAt t l d tag k) p) (hj : Sicslowpan.freeBuffer s = some j) :
    input t s p = inputNext (withPiece s p i j) p i := by
  have hfits := d.fits
  have huip := c.uip_limit
  have hpos := (firstEnd_mod t l d).2
  rw [show iphLen = 40 from rfl] at hpos
  obtain ⟨hdispatch, -, htag, hoff, -, -⟩ := hcarries.next (by omega)
  have hlen := (isPiece_fragmentOf hk hcarries i (s.fragBuf j)).len
  have hlenpos : 0 < pieceLen (nextPayloadLen l) (d.len - firstEnd t l d) k :=
    pieceLen_pos (nextPayloadLen_pos l).1 (by omega)
  obtain ⟨m, hm⟩ : ∃ m, (fragmentOf p fragnHdrLen i p.fragOffset (s.fragBuf j)).len = m + 1 :=
    ⟨_, (Nat.succ_pred_eq_of_pos (by omega)).symm⟩
  have hadd : addFragment s p fragnHdrLen p.fragTag p.fragSize p.fragOffset =
      (counted (stored s p fragnHdrLen i p.fragOffset j) i
        (fragmentOf p fragnHdrLen i p.fragOffset (s.fragBuf j)).len, some i) := by
    rw [addFragment, if_neg (by omega), htag, hcarries.sender, h.findContext]
    dsimp only
    rw [storeFragment, hj]
    dsimp only
    rw [hm]
    rfl
  rw [input, if_neg (by rw [hdispatch]; decide), if_pos hdispatch, hadd]
  rfl

theorem withPiece_info (s : Lowpan c) (p : Packetbuf c) (i : Fin c.reassContexts) (j : Fin c.fragmentBuffers) :
    (withPiece s p i j).fragInfo i = { s.fragInfo i with
      reassembledLen := ((s.fragInfo i).reassembledLen +
        (fragmentOf p fragnHdrLen i p.fragOffset (s.fragBuf j)).len) % 65536 } := by
  rw [withPiece, Lowpan.leave]
  rw [counted, onInfo_self]
  rfl

section
variable (h : Filled t l d tag s i k)
include h

section

variable (hk : firstEnd t l d + k * nextPayloadLen l < d.len) (hcarries : Carries l (fragmentAt t l d tag k) p)
include hk hcarries

theorem Filled.count_succ (j : Fin c.fragmentBuffers) :
    ((withPiece s p i j).fragInfo i).reassembledLen =
      firstEnd t l d + min ((k + 1) * nextPayloadLen l) (d.len - firstEnd t l d) := by
  have hfits := d.fits
  have huip := c.uip_limit
  have hsucc : (k + 1) * nextPayloadLen l = k * nextPayloadLen l + nextPayloadLen l := Nat.succ_mul ..
  rw [withPiece_info]
  dsimp only
  rw [h.count, (isPiece_fragmentOf hk hcarries i (s.fragBuf j)).len, pieceLen, Nat.mod_eq_of_lt (by omega)]
  omega

theorem Filled.notHeld : NotHeld s p := by
  have hfits := d.fits
  have huip := c.uip_limit
  obtain ⟨-, -, htag, hoff, -, -⟩ := hcarries.next (by omega)
  intro _ i' hi' j hj heq
  rw [htag, hcarries.sender, h.findContext, Option.mem_some_iff] at hi'
  subst hi'
  have hbefore := h.before j hj
  have hpiece := (isPiece_fragmentOf hk hcarries i (s.fragBuf j)).offset
  omega

theorem Filled.succ (hj : Sicslowpan.freeBuffer s = some j)
    (hinv : Inv t l d tag (withPiece s p i j)) : Filled t l d tag (withPiece s p i j) i (k + 1) := by
  have hpiece := isPiece_fragmentOf hk hcarries i (s.fragBuf j)
  have hsucc : (k + 1) * nextPayloadLen l = k * nextPayloadLen l + nextPayloadLen l := Nat.succ_mul ..
  have hnext := nextPayloadLen_pos l
  have hnew : (withPiece s p i j).fragBuf j = fragmentOf p fragnHdrLen i p.fragOffset (s.fragBuf j) := if_pos rfl
  have hold : ∀ j', j' ≠ j → (withPiece s p i j).fragBuf j' = s.fragBuf j' := fun j' hj' => if_neg hj'
  have hfree := freeBuffer_free hj
  have hnot : j ∉ heldBy s i := fun hmem => absurd (mem_heldBy.mp hmem).1 (by omega)
  have hheld : heldBy (withPiece s p i j) i = insert j (heldBy s i) := by
    ext j'
    rw [Finset.mem_insert, mem_heldBy]
    by_cases hj' : j' = j
    · subst hj'
      rw [hnew, hpiece.len]
      have hpos : 0 < pieceLen (nextPayloadLen l) (d.len - firstEnd t l d) k := pieceLen_pos hnext.1 (by omega)
      exact ⟨fun _ => .inl rfl, fun _ => ⟨hpos, rfl⟩⟩
    · rw [hold j' hj', mem_heldBy]
      exact ⟨.inr, fun hor => hor.resolve_left hj'⟩
  refine ⟨hinv, ?_, fun i' hi' => ?_, ?_, fun j' hj' => ?_, h.count_succ hk hcarries j⟩
  · rw [withPiece_info]
    exact h.mine
  · rw [withPiece, Lowpan.leave]
    rw [counted, onInfo_other _ hi']
    exact h.alone i' hi'
  · rw [hheld, Finset.card_insert_of_notMem hnot, h.held]
  · rw [hheld, Finset.mem_insert] at hj'
    rcases hj' with rfl | hj'
    · rw [hnew, hpiece.offset]
      omega
    · have hne : j' ≠ j := by
        rintro rfl
        exact hnot hj'
      rw [hold j' hne]
      have hbefore := h.before j' hj'
      omega

end

/-- A STEP of the reception: a fragment that is not the last one is stored. -/
theorem Filled.input_next (hroom : k < c.fragmentBuffers)
    (hlast : firstEnd t l d + (k + 1) * nextPayloadLen l < d.len) (hcarries : Carries l (fragmentAt t l d tag k) p) :
    (input t s p).2 = none ∧ Filled t l d tag (input t s p).1 i (k + 1) := by
  have hsucc : (k + 1) * nextPayloadLen l = k * nextPayloadLen l + nextPayloadLen l := Nat.succ_mul ..
  have hk : firstEnd t l d + k * nextPayloadLen l < d.len := by omega
  have hfits := d.fits
  have huip := c.uip_limit
  obtain ⟨-, hsize, -, -, -, -⟩ := hcarries.next (by omega)
  obtain ⟨j, hj⟩ := h.freeBuffer.1 hroom
  have hinv := (h.inv.input_next hk hcarries (h.notHeld hk hcarries)).1
  have hstay : input t s p = (withPiece s p i j, none) := by
    rw [h.input_eq hk hcarries hj, inputNext, if_neg]
    rintro ⟨-, hle⟩
    rw [h.count_succ hk hcarries j, hsize] at hle
    omega
  rw [hstay] at hinv ⊢
  exact ⟨rfl, h.succ hk hcarries hj hinv⟩

theorem Filled.input_last (hroom : k < c.fragmentBuffers)
    (hk : firstEnd t l d + k * nextPayloadLen l < d.len) (hlast : d.len ≤ firstEnd t l d + (k + 1) * nextPayloadLen l)
    (hcarries : Carries l (fragmentAt t l d tag k) p) :
    (input t s p).2 = some d.len ∧ ∀ x < d.len, (input t s p).1.uip.bytes x = d.ip x := by
  have hfits := d.fits
  have huip := c.uip_limit
  obtain ⟨-, hsize, -, hoff, hdatalen, -⟩ := hcarries.next (by omega)
  obtain ⟨j, hj⟩ := h.freeBuffer.1 hroom
  have haccepts : accepts p fragnHdrLen 0 p.fragOffset := by
    have hle : pieceLen (nextPayloadLen l) (d.len - firstEnd t l d) k ≤ d.len - firstEnd t l d - k * nextPayloadLen l :=
      min_le_right _ _
    rw [accepts]
    omega
  have hsome : (input t s p).2 = some d.len := by
    rw [h.input_eq hk hcarries hj, inputNext, if_pos, if_pos (by omega), hsize]
    refine ⟨haccepts, ?_⟩
    rw [h.count_succ hk hcarries j, hsize]
    omega
  exact ⟨hsome, ((h.inv.input_next hk hcarries (h.notHeld hk hcarries)).2 _ hsome).2⟩

end

/-- All contexts and buffers are free. -/
structure Idle (s : Lowpan c) : Prop where
  info : ∀ i, (s.fragInfo i).len = 0
  buf : ∀ j, (s.fragBuf j).len = 0

theorem idle_init (c : LowpanConfig) : Idle (Lowpan.init c) := ⟨fun _ => rfl, fun _ => rfl⟩

theorem Idle.freeContext (h : Idle s) (p : Packetbuf c) : ∃ i, freeContext s p = (s, some i) := by
  have hturns : ∀ (is : List (Fin c.reassContexts)) (o : Option (Fin c.reassContexts)),
      is.foldl (firstTurn p) (s, o) = (s, o.or is.head?) := by
    intro is
    induction is with
    | nil => simp
    | cons i is ih =>
      intro o
      have hturn : firstTurn p (s, o) i = (s, o.or (some i)) := by
        rw [firstTurn]
        cases o with
        | none => simp [h.info]
        | some k => simp [h.info]
      rw [foldl_cons, hturn, ih]
      cases o <;> simp
  refine ⟨⟨0, c.contexts_pos⟩, ?_⟩
  have hne : (finRange c.reassContexts).head? = some ⟨0, c.contexts_pos⟩ := by
    rw [head?_eq_getElem?, getElem?_eq_getElem (by simpa using c.contexts_pos)]
    simp
  rw [Sicslowpan.freeContext, hturns, hne]
  rfl

/-- FIRST FRAGMENT: a node that reassembles nothing else takes a context for it. -/
theorem Idle.input_first (h : Idle s) (hinv : Inv t l d tag s) (hrestores : Restores t l d)
    (hlt : firstEnd t l d < d.len) (hcarries : Carries l (firstFragment t l d tag) p) :
    (input t s p).2 = none ∧ ∃ i, Filled t l d tag (input t s p).1 i 0 := by
  obtain ⟨i, hi⟩ := h.freeContext p
  obtain ⟨hdispatch, hsize, htag, hread⟩ := hcarries.first hrestores
  have heq : input t s p = (inputFirst t (taken s p i p.fragTag p.fragSize) p i, none) := by
    rw [input, if_pos hdispatch, addFragment, if_pos rfl, hi]
    rfl
  have hkept := hinv.inputFirst (p := p) hrestores hcarries hlt (h.info i)
  obtain ⟨u, hu, hhdr, hend, -⟩ := hread ((taken s p i p.fragTag p.fragSize).fragInfo i).firstFrag
  have hfits := d.fits
  have haccepts : accepts p u.hdrLen u.uncompHdrLen 0 := ⟨hhdr, by omega⟩
  rw [heq]
  refine ⟨rfl, i, ?_⟩
  have hbuf : ∀ j, (inputFirst t (taken s p i p.fragTag p.fragSize) p i).fragBuf j = s.fragBuf j := fun j => by
    rw [inputFirst, hu]
    dsimp only
    rw [if_pos haccepts]
    rfl
  have hheld : heldBy (inputFirst t (taken s p i p.fragTag p.fragSize) p i) i = ∅ := by
    refine Finset.eq_empty_of_forall_notMem fun j hj => ?_
    have hpos := (mem_heldBy.mp hj).1
    rw [hbuf j, h.buf j] at hpos
    exact absurd hpos (lt_irrefl 0)
  have hpos : 0 < p.fragSize := by omega
  have hinfo : ∃ f r, (inputFirst t (taken s p i p.fragTag p.fragSize) p i).fragInfo i =
      ⟨p.sender, p.fragTag, p.fragSize, u.uncompHdrLen + (p.datalen - u.hdrLen), f, r⟩ := by
    rw [inputFirst, hu]
    dsimp only
    rw [if_pos haccepts, onInfo_self, if_pos hpos, taken, onInfo_self]
    exact ⟨_, _, rfl⟩
  obtain ⟨f, r, hinfo⟩ := hinfo
  refine ⟨hkept, ?_, fun i' hi' => ?_, ?_, fun j hj => ?_, ?_⟩
  · rw [hinfo]
    exact ⟨htag, hpos, hcarries.sender⟩
  · rw [inputFirst, hu]
    dsimp only
    rw [if_pos haccepts, onInfo_other _ hi', taken, onInfo_other _ hi']
    exact h.info i'
  · rw [hheld]
    rfl
  · rw [hheld] at hj
    exact absurd hj (Finset.notMem_empty j)
  · rw [hinfo, zero_mul, Nat.zero_min, add_zero]
    exact hend

/-! ### All fragments -/

/-- The fragments from number `k` on, as they are received. -/
def RestOf (t : AddrContexts) (l : Link) (d : Datagram c) (tag : UInt16) (k m : Nat) (ps : List (Packetbuf c)) : Prop :=
  List.Forall₂ (Carries l) ((range' k m).map (fragmentAt t l d tag)) ps

theorem RestOf.cons {m : Nat} (h : RestOf t l d tag k (m + 1) ps) :
    ∃ p ps', ps = p :: ps' ∧ Carries l (fragmentAt t l d tag k) p ∧ RestOf t l d tag (k + 1) m ps' := by
  rw [RestOf, range'_succ, map_cons, forall₂_cons_left_iff] at h
  obtain ⟨p, ps', hp, hps, rfl⟩ := h
  exact ⟨p, ps', rfl, hp, hps⟩

theorem RestOf.nil (h : RestOf t l d tag k 0 ps) : ps = [] := forall₂_nil_left_iff.mp h

theorem Filled.feed (hlt : firstEnd t l d < d.len) (hroom : nextCount t l d ≤ c.fragmentBuffers) :
    ∀ (m k : Nat) (s : Lowpan c) (ps : List (Packetbuf c)), Filled t l d tag s i k → k + (m + 1) = nextCount t l d →
      RestOf t l d tag k (m + 1) ps →
      (Sicslowpan.feed t s ps).2 = replicate m none ++ [some d.len] ∧
        ∀ x < d.len, (Sicslowpan.feed t s ps).1.uip.bytes x = d.ip x
  | 0, k, s, ps, h, hk, hps => by
    obtain ⟨p, ps', rfl, hp, hps'⟩ := hps.cons
    rw [hps'.nil]
    have hinside := (lt_nextCount t l d hlt).mp (show k < nextCount t l d by omega)
    have hlast : ¬ firstEnd t l d + (k + 1) * nextPayloadLen l < d.len := by
      rw [← lt_nextCount t l d hlt]
      omega
    obtain ⟨hsome, hbytes⟩ := h.input_last (by omega) hinside (Nat.not_lt.mp hlast) hp
    exact ⟨congrArg (· :: []) hsome, hbytes⟩
  | m + 1, k, s, ps, h, hk, hps => by
    obtain ⟨p, ps', rfl, hp, hps'⟩ := hps.cons
    have hinside := (lt_nextCount t l d hlt).mp (show k + 1 < nextCount t l d by omega)
    obtain ⟨hnone, hfilled⟩ := h.input_next (by omega) hinside hp
    obtain ⟨hsome, hbytes⟩ := Filled.feed hlt hroom m (k + 1) _ ps' hfilled (by omega) hps'
    refine ⟨?_, hbytes⟩
    rw [Sicslowpan.feed, replicate_succ, cons_append, ← hsome, hnone]

theorem Filled.feed_full (hlt : firstEnd t l d < d.len) (h : Filled t l d tag s i c.fragmentBuffers) :
    ∀ (m k : Nat) (ps : List (Packetbuf c)), k + m = nextCount t l d → RestOf t l d tag k m ps →
      (Sicslowpan.feed t s ps).2 = replicate m none
  | 0, k, ps, _, hps => by
    rw [hps.nil]
    rfl
  | m + 1, k, ps, hk, hps => by
    obtain ⟨p, ps', rfl, hp, hps'⟩ := hps.cons
    have hinside := (lt_nextCount t l d hlt).mp (show k < nextCount t l d by omega)
    rw [Sicslowpan.feed, h.input_full hinside hp, replicate_succ]
    exact congrArg _ (Filled.feed_full hlt h m (k + 1) ps' (by omega) hps')

theorem Filled.feed_few (hlt : firstEnd t l d < d.len) (hfew : c.fragmentBuffers < nextCount t l d) :
    ∀ (m k : Nat) (s : Lowpan c) (ps : List (Packetbuf c)), Filled t l d tag s i k → k ≤ c.fragmentBuffers →
      k + m = nextCount t l d → RestOf t l d tag k m ps → (Sicslowpan.feed t s ps).2 = replicate m none
  | 0, k, s, ps, _, hle, hk, _ => by omega
  | m + 1, k, s, ps, h, hle, hk, hps => by
    rcases Nat.eq_or_lt_of_le hle with rfl | hroom
    · exact h.feed_full hlt (m + 1) _ ps hk hps
    · obtain ⟨p, ps', rfl, hp, hps'⟩ := hps.cons
      have hinside := (lt_nextCount t l d hlt).mp (show k + 1 < nextCount t l d by omega)
      obtain ⟨hnone, hfilled⟩ := h.input_next hroom hinside hp
      rw [Sicslowpan.feed, hnone, replicate_succ]
      exact congrArg _ (Filled.feed_few hlt hfew m (k + 1) _ ps' hfilled (by omega) (by omega) hps')

/-- The fragments of a datagram, all in order, at a node that reassembles nothing else. -/
theorem feed_fragments (hlt : firstEnd t l d < d.len) (hrestores : Restores t l d)
    (hps : List.Forall₂ (Carries l) (fragments t l d tag) ps) :
    (nextCount t l d ≤ c.fragmentBuffers →
       (Sicslowpan.feed t (Lowpan.init c) ps).2 = replicate (nextCount t l d) none ++ [some d.len] ∧
       ∀ x < d.len, (Sicslowpan.feed t (Lowpan.init c) ps).1.uip.bytes x = d.ip x) ∧
    (c.fragmentBuffers < nextCount t l d →
       (Sicslowpan.feed t (Lowpan.init c) ps).2 = replicate (nextCount t l d + 1) none) := by
  rw [fragments_eq t l d tag hlt, forall₂_cons_left_iff] at hps
  obtain ⟨p, ps', hp, hps', rfl⟩ := hps
  rw [range_eq_range'] at hps'
  obtain ⟨hnone, i, hfilled⟩ := (idle_init c).input_first inv_init hrestores hlt hp
  have hpos : 0 < nextCount t l d := by
    rw [lt_nextCount t l d hlt]
    omega
  obtain ⟨m, hm⟩ := Nat.exists_eq_add_of_lt hpos
  have hcount : nextCount t l d = m + 1 := by omega
  constructor
  · intro hroom
    have hrest : RestOf t l d tag 0 (m + 1) ps' := by
      rw [RestOf, ← hcount]
      exact hps'
    obtain ⟨hsome, hbytes⟩ := hfilled.feed hlt hroom m 0 _ ps' (by omega) hrest
    refine ⟨?_, hbytes⟩
    rw [Sicslowpan.feed, hnone, hsome, hcount]
    rfl
  · intro hfew
    have hrest := hfilled.feed_few hlt hfew (nextCount t l d) 0 _ ps' (Nat.zero_le _) (by omega) hps'
    rw [Sicslowpan.feed, hnone, hrest]
    rfl

theorem Bounded.feed (hfits : ∀ p ∈ ps, ∀ s : Lowpan c, Fits t s p) :
    ∀ {s : Lowpan c}, Bounded s → Bounded (Sicslowpan.feed t s ps).1 := by
  induction ps with
  | nil => exact fun h => h
  | cons p ps ih =>
    intro s h
    exact ih (fun q hq => hfits q (mem_cons_of_mem _ hq)) (h.input (hfits p mem_cons_self s))

/-- Fragments that are not larger than the buffers for them fit wherever they are stored. -/
theorem fits_fragment (hrestores : Restores t l d)
    (hfirst : firstEnd t l d ≤ c.firstFragmentSize) (hnext : nextPayloadLen l ≤ c.fragmentSize) {m : List UInt8}
    (hm : m ∈ fragments t l d tag) (hp : Carries l m p) (s : Lowpan c) : Fits t s p := by
  have hfits := d.fits
  have huip := c.uip_limit
  rcases (mem_fragments t l d tag).mp hm with rfl | ⟨k, hk, rfl⟩
  · obtain ⟨hdispatch, -, -, hread⟩ := hp.first hrestores
    refine ⟨fun _ _ lens hlens _ => ?_, fun hnot => absurd (hdispatch.symm.trans hnot) (by decide)⟩
    obtain ⟨u, hu, -, hend, -⟩ := hread ⟨0, fun _ => 0, true⟩
    rw [uncompressHeader_lens hu, Option.mem_some_iff] at hlens
    subst hlens
    omega
  · obtain ⟨hdispatch, -, -, hoff, hdatalen, -⟩ := hp.next (by omega)
    refine ⟨fun hnot => absurd (hdispatch.symm.trans hnot) (by decide), fun _ _ _ _ _ => ?_⟩
    have hle : pieceLen (nextPayloadLen l) (d.len - firstEnd t l d) k ≤ nextPayloadLen l := min_le_left _ _
    have hrest : pieceLen (nextPayloadLen l) (d.len - firstEnd t l d) k ≤
        d.len - firstEnd t l d - k * nextPayloadLen l := min_le_right _ _
    rw [NextFits]
    omega

theorem feed_inMemory (hrestores : Restores t l d) (hfirst : firstEnd t l d ≤ c.firstFragmentSize)
    (hnext : nextPayloadLen l ≤ c.fragmentSize) (hps : List.Forall₂ (Carries l) (fragments t l d tag) ps) :
    InMemory (Sicslowpan.feed t (Lowpan.init c) ps).1 := by
  refine (Bounded.feed (fun p hp s => ?_) (bounded_init c)).inMemory
  obtain ⟨m, hm, hcarries⟩ : ∃ m ∈ fragments t l d tag, Carries l m p := by
    obtain ⟨n, hn, rfl⟩ := getElem_of_mem hp
    have hlen := hps.length_eq
    exact ⟨_, getElem_mem (by omega), hps.get (by omega) hn⟩
  exact fits_fragment hrestores hfirst hnext hm hcarries s

end

/-- FRAGMENTATION. The fragments that `output` sends begin at multiples of eight, each behind the one before, and are
    together the packet; none is larger than the frame's payload. Received in order by a fresh node whose buffers are
    large enough for them, they are put together with the last one, as the packet that was sent, if there is a buffer for
    each of the later ones; if there are fewer, nothing is ever handed on. -/
theorem fragments_reassemble (t : AddrContexts) (l : Link) (d : Datagram c) (tag : UInt16) (b : Below)
    (hfrag : fragmented t l d = true) (hok : (output t l d tag b).ok = true) :
    (output t l d tag b).packets =
        firstFragment t l d tag :: (spans t l d).tail.map (fun e => nextFragment d tag e.1 e.2) ∧
      (∀ e ∈ spans t l d, e.1 % 8 = 0 ∧ (UInt8.ofNat (e.1 / 8)).toNat * 8 = e.1) ∧
      ((spans t l d).map Prod.fst).Pairwise (· < ·) ∧
      (spans t l d).flatMap (fun e => range' e.1 e.2) = range d.len ∧
      (∀ m ∈ (output t l d tag b).packets, m.length ≤ l.maxPayload) ∧
      ∀ ps : List (Packetbuf c), List.Forall₂ (Carries l) (output t l d tag b).packets ps → Restores t l d →
        firstEnd t l d ≤ c.firstFragmentSize → nextPayloadLen l ≤ c.fragmentSize →
          (nextCount t l d ≤ c.fragmentBuffers →
            (feed t (Lowpan.init c) ps).2 = replicate (nextCount t l d) none ++ [some d.len] ∧
              ∀ x < d.len, (feed t (Lowpan.init c) ps).1.uip.bytes x = d.ip x) ∧
          (c.fragmentBuffers < nextCount t l d →
            (feed t (Lowpan.init c) ps).2 = replicate (nextCount t l d + 1) none) ∧
          InMemory (feed t (Lowpan.init c) ps).1 := by
  have hlt := firstEnd_lt t l d hfrag
  rw [output_packets t l d tag hfrag hok]
  refine ⟨fragments_spans t l d tag hlt, fun e he => ⟨spans_aligned t l d e he, spans_offset t l d hlt e he⟩,
    spans_increasing t l d, spans_cover t l d hlt, fragments_length t l d tag hlt,
    fun ps hps hrestores hfirst hnext => ?_⟩
  obtain ⟨hroom, hfew⟩ := feed_fragments hlt hrestores hps
  exact ⟨hroom, hfew, feed_inMemory hrestores hfirst hnext hps⟩

/-! ### Concrete datagrams -/

theorem exists_carries (l : Link) : ∀ ms : List (List UInt8), (∀ m ∈ ms, m.length ≤ c.packetbufSize) →
    ∃ ps : List (Packetbuf c), List.Forall₂ (Carries l) ms ps
  | [], _ => ⟨[], .nil⟩
  | m :: ms, h => by
    obtain ⟨ps, hps⟩ := exists_carries l ms fun m' hm' => h m' (mem_cons_of_mem _ hm')
    exact ⟨⟨l.lladdr, l.dest, bufferOf m, m.length, fun _ => false, fun _ => 0, h m mem_cons_self⟩ :: ps,
      .cons ⟨rfl, rfl, rfl, holds_bufferOf m⟩ hps⟩

/-- Three fragments at a node with twelve buffers. -/
theorem fragments_reassemble_long : ∃ ps : List (Packetbuf defaultConfig),
    List.Forall₂ (Carries linkAB) (output defaultContexts linkAB longDatagram 7 calm).packets ps ∧
    (feed defaultContexts (Lowpan.init defaultConfig) ps).2 = [none, none, some 320] ∧
    ∀ x < 320, (feed defaultContexts (Lowpan.init defaultConfig) ps).1.uip.bytes x = longDatagram.ip x := by
  obtain ⟨ps, hps⟩ := exists_carries (c := defaultConfig) linkAB
    (output defaultContexts linkAB longDatagram 7 calm).packets (by decide)
  have hmain := fragments_reassemble defaultContexts linkAB longDatagram 7 calm (by decide) (by decide)
  obtain ⟨hroom, -, -⟩ := hmain.2.2.2.2.2 ps hps (fun _ hel => absurd hel.2.1 (by decide)) (by decide) (by decide)
  exact ⟨ps, hps, hroom (by decide)⟩

/-- A link whose frames have security headers. -/
def secureLink : Link := ⟨nodeA, nodeB, 0, 99, by decide, by decide⟩

/-- The largest packet, with fourteen fragments behind the first one on this link. -/
def fullDatagram : Datagram defaultConfig where
  ip := longIp [0xfd, 0, 0, 0, 0, 0, 0, 0, 0, 0x12, 0x74, 1, 0, 1, 1, 1] 1280
  len := 1280
  isPacket := ⟨by decide, by decide, by decide, nofun⟩
  fits := by decide

/-- FAILS IN GENERAL: with the twelve buffers of the default build the packet is never handed on. -/
theorem full_datagram_lost : ¬ ∀ (l : Link) (d : Datagram defaultConfig) (tag : UInt16) (b : Below)
    (ps : List (Packetbuf defaultConfig)),
    fragmented defaultContexts l d = true → (output defaultContexts l d tag b).ok = true →
    Restores defaultContexts l d →
    firstEnd defaultContexts l d ≤ defaultConfig.firstFragmentSize → nextPayloadLen l ≤ defaultConfig.fragmentSize →
    List.Forall₂ (Carries l) (output defaultContexts l d tag b).packets ps →
      some d.len ∈ (feed defaultContexts (Lowpan.init defaultConfig) ps).2 := by
  intro hall
  have hfrag : fragmented defaultContexts secureLink fullDatagram = true := by decide
  have hok : (output defaultContexts secureLink fullDatagram 7 calm).ok = true := by decide
  have hrestores : Restores defaultContexts secureLink fullDatagram := fun _ hel => absurd hel.2.1 (by decide)
  have hlt := firstEnd_lt defaultContexts secureLink fullDatagram hfrag
  have hlens : ∀ m ∈ (output defaultContexts secureLink fullDatagram 7 calm).packets,
      m.length ≤ defaultConfig.packetbufSize := fun m hm => by
    exact (fragments_length _ _ _ _ hlt m hm).trans (by decide)
  obtain ⟨ps, hps⟩ := exists_carries (c := defaultConfig) secureLink _ hlens
  have hin := hall secureLink fullDatagram 7 calm ps hfrag hok hrestores (by decide) (by decide) hps
  rw [(feed_fragments hlt hrestores hps).2 (by decide), mem_replicate] at hin
  cases hin.2

end Sicslowpan

end CSync
