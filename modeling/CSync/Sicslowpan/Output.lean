import CSync.Lib.Pieces
import CSync.Sicslowpan.IphcCodec
import CSync.Sicslowpan.Reassembly

/-! Fragmentation (`sicslowpan.c`, `output`).

    The headers of a packet are compressed; if the rest does not fit behind them into a frame, a first fragment takes
    the headers and as many bytes as fit, in units of eight, and fragments with an offset take what is left. -/

namespace CSync

open Lib Region List

namespace Sicslowpan

variable {c : LowpanConfig}

/-! ### Model -/

/-- A packet of `len` bytes in `uip_buf`. -/
structure Datagram (c : LowpanConfig) where
  ip : Nat → UInt8
  len : Nat
  isPacket : IsPacket ip len
  fits : c.llhLen + len ≤ c.uipBufsize

/-- The sending side of a link: `uip_lladdr`, the destination, `COMPRESSION_THRESHOLD`, and `max_payload`,
    which is `MAC_MAX_PAYLOAD` without the header of the frame: any headers fit, and a frame is not larger
    than 802.15.4 allows. -/
structure Link where
  lladdr : LinkAddr
  dest : LinkAddr
  compressionThreshold : Nat
  maxPayload : Nat
  headers_fit : frag1HdrLen + (iphLen + udphLen) ≤ maxPayload
  frame_limit : maxPayload ≤ 125

/-- What the layers below answer: `queuebuf_numfree`, whether there is a buffer for a fragment
    (`queuebuf_new_from_packetbuf`), and whether its transmission ends without an error. -/
structure Below where
  numfree : Nat
  queued : Nat → Bool
  transmitted : Nat → Bool

/-- The packets handed to the MAC, what `output` returns, and `my_tag` behind it. -/
structure Output where
  packets : List (List UInt8)
  ok : Bool
  myTag : UInt16

def set16 (value : UInt16) : List UInt8 := [(value >>> 8).toUInt8, value.toUInt8]

/-- The headers are compressed, not only preceded by a dispatch. -/
def compresses (l : Link) (d : Datagram c) : Bool :=
  decide (l.compressionThreshold ≤ d.len) && c.hc06

/-- `compress_hdr_iphc` or `compress_hdr_ipv6`. -/
def compressHeader (t : AddrContexts) (l : Link) (d : Datagram c) : List UInt8 :=
  if compresses l d then compressHdrIphc t l.lladdr l.dest d.ip
  else dispatchIpv6 :: slice d.ip 0 iphLen

def uncompHdrLen (l : Link) (d : Datagram c) : Nat :=
  if compresses l d then compressedHdrLen d.ip else iphLen

/-- `packetbuf_payload_len` of the first fragment, and of the fragments behind it. -/
def firstPayloadLen (t : AddrContexts) (l : Link) (d : Datagram c) : Nat :=
  (l.maxPayload - ((compressHeader t l d).length + frag1HdrLen)) / 8 * 8

def nextPayloadLen (l : Link) : Nat := (l.maxPayload - fragnHdrLen) / 8 * 8

/-- The part of a fragmentation header that all fragments have. -/
def fragHeader (dispatch : UInt16) (d : Datagram c) (tag : UInt16) : List UInt8 :=
  set16 (dispatch <<< 8 ||| .ofNat d.len) ++ set16 tag

def firstFragment (t : AddrContexts) (l : Link) (d : Datagram c) (tag : UInt16) : List UInt8 :=
  fragHeader dispatchFrag1 d tag ++ compressHeader t l d ++
    slice d.ip (uncompHdrLen l d) (firstPayloadLen t l d)

def nextFragment (d : Datagram c) (tag : UInt16) (processed len : Nat) : List UInt8 :=
  fragHeader dispatchFragn d tag ++ [.ofNat (processed / 8)] ++ slice d.ip processed len

/-- The loop, with a bound on its turns. -/
def nextFragments (d : Datagram c) (tag : UInt16) (payloadLen : Nat) : Nat → Nat → List (List UInt8)
  | 0, _ => []
  | turns + 1, processed =>
    if processed < d.len then
      let len := if d.len - processed < payloadLen then d.len - processed else payloadLen
      nextFragment d tag processed len :: nextFragments d tag payloadLen turns (processed + len)
    else []

/-- All fragments. A turn sends at least one byte, so `d.len` turns are enough. -/
def fragments (t : AddrContexts) (l : Link) (d : Datagram c) (tag : UInt16) : List (List UInt8) :=
  firstFragment t l d tag ::
    nextFragments d tag (nextPayloadLen l) d.len (firstPayloadLen t l d + uncompHdrLen l d)

/-- Fragments are sent until one has no buffer or ends with an error. -/
def send (b : Below) : Nat → List (List UInt8) → List (List UInt8) × Bool
  | _, [] => ([], true)
  | k, m :: ms =>
    if !b.queued k then ([], false)
    else if !b.transmitted k then ([m], false)
    else (m :: (send b (k + 1) ms).1, (send b (k + 1) ms).2)

/-- The packet is too large for one frame. -/
def fragmented (t : AddrContexts) (l : Link) (d : Datagram c) : Bool :=
  decide (l.maxPayload - (compressHeader t l d).length < d.len - uncompHdrLen l d)

def output (t : AddrContexts) (l : Link) (d : Datagram c) (myTag : UInt16) (b : Below) : Output :=
  if fragmented t l d then
    if b.numfree < d.len / (l.maxPayload - fragnHdrLen) + 1 + 1 then ⟨[], false, myTag⟩
    else
      let r := send b 0 (fragments t l d myTag)
      ⟨r.1, r.2, myTag + 1⟩
  else
    ⟨[compressHeader t l d ++ slice d.ip (uncompHdrLen l d) (d.len - uncompHdrLen l d)], true, myTag⟩

/-! ### Fragments of a datagram -/

section

variable (t : AddrContexts) (l : Link) (d : Datagram c) (tag : UInt16)

theorem compressHeader_length : (compressHeader t l d).length ≤ iphLen + udphLen := by
  rw [compressHeader]
  split
  · exact compressHdrIphc_length ..
  · rw [length_cons, length_slice]
    decide

/-- The headers are a whole number of units. -/
theorem uncompHdrLen_mod : uncompHdrLen l d % 8 = 0 ∧ iphLen ≤ uncompHdrLen l d := by
  rw [uncompHdrLen, compressedHdrLen]
  split
  · split
    · decide
    · decide
  · decide

def firstEnd : Nat := firstPayloadLen t l d + uncompHdrLen l d

theorem firstEnd_mod : firstEnd t l d % 8 = 0 ∧ iphLen ≤ firstEnd t l d := by
  obtain ⟨hmod, hpos⟩ := uncompHdrLen_mod l d
  rw [firstEnd, firstPayloadLen]
  omega

theorem firstEnd_lt (h : fragmented t l d = true) : firstEnd t l d < d.len := by
  have hfrag := of_decide_eq_true h
  rw [firstEnd, firstPayloadLen]
  omega

theorem nextPayloadLen_pos : 0 < nextPayloadLen l ∧ nextPayloadLen l % 8 = 0 := by
  have hroom : frag1HdrLen + (iphLen + udphLen) ≤ l.maxPayload := l.headers_fit
  rw [show frag1HdrLen + (iphLen + udphLen) = 52 from rfl] at hroom
  rw [nextPayloadLen, show fragnHdrLen = 5 from rfl]
  omega

/-- The fragment number `k` behind the first one. -/
def fragmentAt (k : Nat) : List UInt8 :=
  nextFragment d tag (firstEnd t l d + k * nextPayloadLen l)
    (pieceLen (nextPayloadLen l) (d.len - firstEnd t l d) k)

theorem nextFragments_end {payloadLen processed : Nat} (h : d.len ≤ processed) :
    ∀ turns : Nat, nextFragments d tag payloadLen turns processed = []
  | 0 => rfl
  | _ + 1 => if_neg (Nat.not_lt.mpr h)

variable {m : List UInt8}

/-- The loop sends the fragments from number `k` on, and no others; it has turns enough if there is one for
    every byte that is left. -/
theorem mem_nextFragments : ∀ (turns k : Nat), d.len ≤ turns + (firstEnd t l d + k * nextPayloadLen l) →
    (m ∈ nextFragments d tag (nextPayloadLen l) turns (firstEnd t l d + k * nextPayloadLen l) ↔
      ∃ j, k ≤ j ∧ firstEnd t l d + j * nextPayloadLen l < d.len ∧ m = fragmentAt t l d tag j) := by
  have hpos := (nextPayloadLen_pos l).1
  -- behind the end of the datagram there are no fragments
  have hnone : ∀ k, d.len ≤ firstEnd t l d + k * nextPayloadLen l →
      ¬∃ j, k ≤ j ∧ firstEnd t l d + j * nextPayloadLen l < d.len ∧ m = fragmentAt t l d tag j := by
    rintro k hk ⟨j, hkj, hj, -⟩
    have hmul := Nat.mul_le_mul_right (nextPayloadLen l) hkj
    omega
  intro turns
  induction turns with
  | zero =>
    intro k hturns
    rw [zero_add] at hturns
    exact ⟨by rintro ⟨⟩, fun h => absurd h (hnone k hturns)⟩
  | succ turns ih =>
    intro k hturns
    by_cases hlt : firstEnd t l d + k * nextPayloadLen l < d.len
    · rw [nextFragments, if_pos hlt]
      have hsucc : (k + 1) * nextPayloadLen l = k * nextPayloadLen l + nextPayloadLen l := Nat.succ_mul ..
      have hrest : m ∈ nextFragments d tag (nextPayloadLen l) turns (firstEnd t l d +
            k * nextPayloadLen l + pieceLen (nextPayloadLen l) (d.len - firstEnd t l d) k) ↔
          ∃ j, k + 1 ≤ j ∧ firstEnd t l d + j * nextPayloadLen l < d.len ∧ m = fragmentAt t l d tag j := by
        by_cases hfull : nextPayloadLen l ≤ d.len - (firstEnd t l d + k * nextPayloadLen l)
        · rw [← ih (k + 1) (by omega), hsucc, pieceLen, min_eq_left (by omega), add_assoc]
        · rw [nextFragments_end _ _ (by rw [pieceLen]; omega)]
          exact ⟨by rintro ⟨⟩, fun h => absurd h (hnone (k + 1) (by omega))⟩
      have hlen : (if d.len - (firstEnd t l d + k * nextPayloadLen l) < nextPayloadLen l
          then d.len - (firstEnd t l d + k * nextPayloadLen l) else nextPayloadLen l) =
          pieceLen (nextPayloadLen l) (d.len - firstEnd t l d) k := by
        rw [pieceLen]
        split
        · omega
        · omega
      rw [hlen, mem_cons, hrest]
      constructor
      · rintro (rfl | ⟨j, hkj, hj⟩)
        · exact ⟨k, le_refl k, hlt, rfl⟩
        · exact ⟨j, Nat.le_of_succ_le hkj, hj⟩
      · rintro ⟨j, hkj, hj, rfl⟩
        rcases Nat.eq_or_lt_of_le hkj with rfl | hkj
        · exact .inl rfl
        · exact .inr ⟨j, hkj, hj, rfl⟩
    · rw [nextFragments_end _ _ (Nat.not_lt.mp hlt)]
      exact ⟨by rintro ⟨⟩, fun h => absurd h (hnone k (Nat.not_lt.mp hlt))⟩

theorem mem_fragments : m ∈ fragments t l d tag ↔ m = firstFragment t l d tag ∨
      ∃ k, firstEnd t l d + k * nextPayloadLen l < d.len ∧ m = fragmentAt t l d tag k := by
  have hnext := mem_nextFragments t l d tag (m := m) d.len 0 (Nat.le_add_right ..)
  rw [zero_mul, add_zero] at hnext
  rw [fragments, mem_cons]
  refine or_congr Iff.rfl (hnext.trans ?_)
  simp only [zero_le, true_and]

/-- What is sent is among the fragments. -/
theorem mem_of_mem_send (b : Below) : ∀ (ms : List (List UInt8)) (k : Nat), m ∈ (send b k ms).1 → m ∈ ms
  | [], _, h => h
  | m' :: ms, k, h => by
    rw [send] at h
    split at h
    · cases h
    · split at h
      · rw [mem_singleton.mp h]
        exact mem_cons_self ..
      · rcases mem_cons.mp h with rfl | h
        · exact mem_cons_self ..
        · exact mem_cons_of_mem _ (mem_of_mem_send b ms (k + 1) h)

theorem mem_fragments_of_output {b : Below} (hfrag : fragmented t l d = true)
    (h : m ∈ (output t l d tag b).packets) : m ∈ fragments t l d tag := by
  rw [output, if_pos hfrag] at h
  split at h
  · cases h
  · exact mem_of_mem_send b _ _ h

end

/-! ### Receptions of fragments -/

theorem get16_set16 {data : Nat → UInt8} {i : Nat} {value : UInt16} (h : Holds data i (set16 value)) :
    get16 data i = value := by
  rw [set16, holds_cons, holds_cons] at h
  rw [get16, h.1, h.2.1]
  apply UInt16.toNat_inj.mp
  have hlt := value.toNat_lt
  simp only [UInt16.toNat_or, UInt16.toNat_shiftLeft, UInt8.toNat_toUInt16, UInt16.toNat_toUInt8,
    UInt16.toNat_shiftRight, Nat.reduceMod, UInt16.reduceToNat]
  rw [Nat.shiftRight_eq_div_pow, Nat.mod_eq_of_lt (by omega), Nat.mod_eq_of_lt,
    ← Nat.shiftLeft_add_eq_or_of_lt (by omega), Nat.shiftLeft_eq]
  · omega
  · omega

/-- Five bits of dispatch before three of a size. -/
theorem dispatch_byte : ∀ (q : Fin 32) (r : Fin 8), (q.val * 8 + r.val) &&& 0xf8 = q * 8 := by decide

theorem dispatch_size {dispatch : UInt16} {q n : Nat} (hq : q < 32) (hdispatch : dispatch.toNat = q * 8)
    (hn : n < 2048) :
    ((dispatch <<< 8 ||| .ofNat n) &&& 0xf800) >>> 8 = dispatch ∧
    ((dispatch <<< 8 ||| .ofNat n) &&& (0x07ff : UInt16)).toNat = n := by
  have hvalue : (dispatch <<< 8 ||| UInt16.ofNat n).toNat = q * 2048 + n := by
    have hshift : (dispatch <<< 8).toNat = q <<< 11 := by
      rw [UInt16.toNat_shiftLeft, hdispatch, Nat.shiftLeft_eq, Nat.shiftLeft_eq]
      simp only [UInt16.reduceToNat, Nat.reduceMod]
      omega
    rw [UInt16.toNat_or, hshift, UInt16.toNat_ofNat', Nat.mod_eq_of_lt (by omega),
      ← Nat.shiftLeft_add_eq_or_of_lt hn, Nat.shiftLeft_eq]
  constructor
  · apply UInt16.toNat_inj.mp
    have hbyte := dispatch_byte ⟨q, hq⟩ ⟨n / 256, by omega⟩
    have hdiv : (q * 2048 + n) / 2 ^ 8 = q * 8 + n / 256 := by omega
    rw [UInt16.toNat_shiftRight, UInt16.toNat_and, hvalue]
    simp only [UInt16.reduceToNat, Nat.reduceMod]
    rw [Nat.shiftRight_and_distrib, Nat.shiftRight_eq_div_pow, hdiv, hdispatch]
    exact hbyte
  · rw [UInt16.toNat_and, hvalue, show (0x07ff : UInt16).toNat = 2 ^ 11 - 1 from rfl, Nat.and_two_pow_sub_one_eq_mod]
    omega

/-- A reception of the packet `m`, sent over the link `l`. -/
structure Carries (l : Link) (m : List UInt8) (p : Packetbuf c) : Prop where
  sender : p.sender = l.lladdr
  receiver : p.receiver = l.dest
  datalen : p.datalen = m.length
  data : Holds p.data 0 m

theorem fragHeader_length (dispatch : UInt16) (d : Datagram c) (tag : UInt16) :
    (fragHeader dispatch d tag).length = 4 := rfl

section

variable {t : AddrContexts} {l : Link} {d : Datagram c} {tag : UInt16} {p : Packetbuf c}

theorem read_fragHeader {dispatch : UInt16} {q : Nat} (hq : q < 32) (hdispatch : dispatch.toNat = q * 8) (h : Holds
    p.data 0 (fragHeader dispatch d tag)) : p.dispatch = dispatch ∧ p.fragSize = d.len ∧ p.fragTag = tag := by
  have hlen : d.len < 2048 := by
    have hfits := d.fits
    have hlimit := c.uip_limit
    omega
  rw [fragHeader, holds_append] at h
  rw [Packetbuf.dispatch, Packetbuf.fragSize, Packetbuf.fragTag, get16_set16 h.1]
  obtain ⟨hd, hsize⟩ := dispatch_size hq hdispatch hlen
  exact ⟨hd, hsize, get16_set16 h.2⟩

theorem Carries.next {processed len : Nat} (hprocessed : processed < 2048)
    (h : Carries l (nextFragment d tag processed len) p) :
    p.dispatch = dispatchFragn ∧
    p.fragSize = d.len ∧
    p.fragTag = tag ∧
    p.fragOffset = processed / 8 ∧
    p.datalen = fragnHdrLen + len ∧
    ∀ x < len, p.data (fragnHdrLen + x) = d.ip (processed + x) := by
  have hdata := h.data
  have hlen := h.datalen
  rw [nextFragment, holds_append, holds_append, holds_cons, fragHeader_length, zero_add] at hdata
  obtain ⟨⟨hheader, hoff, -⟩, hslice⟩ := hdata
  obtain ⟨hdispatch, hsize, htag⟩ := read_fragHeader (q := 28) (by decide) rfl hheader
  refine ⟨hdispatch, hsize, htag, ?_, ?_, ?_⟩
  · rw [Packetbuf.fragOffset, hoff, UInt8.toNat_ofNat', Nat.mod_eq_of_lt]
    omega
  · rw [hlen, nextFragment, length_append, length_append, fragHeader_length, length_slice]
    rfl
  · exact holds_slice hslice

set_option maxRecDepth 4096 in
theorem encodeIphc0_dispatch (ip : Nat → UInt8) : encodeIphc0 ip &&& 0xe0 = dispatchIphc := by
  have hbits : ∀ t ∈ [(0x18 : UInt8), 0x10, 0x08, 0], ∀ n ∈ [(0x04 : UInt8), 0],
      ∀ h ∈ [(0 : UInt8), 1, 2, 3], (dispatchIphc ||| t ||| n ||| h) &&& 0xe0 = dispatchIphc := by
    decide
  exact hbits _ (compressTraffic_flags ip) _ (compressNextHeader_flags ip) _ (compressHopLimit_flags ip)

/-- The headers come back from compression: they are not compressed, or nothing is elided wrongly. -/
def Restores (t : AddrContexts) (l : Link) (d : Datagram c) : Prop :=
  compresses l d = true → ¬Elided t d.ip

theorem uncompressHeader_first (hrestores : Restores t l d) (buf : Region) (hsender : p.sender = l.lladdr)
    (hreceiver : p.receiver = l.dest) (h : Holds p.data frag1HdrLen (compressHeader t l d)) :
    ∃ u,
      uncompressHeader t p frag1HdrLen d.len buf = some u ∧
      u.hdrLen = frag1HdrLen + (compressHeader t l d).length ∧
      u.uncompHdrLen = uncompHdrLen l d ∧
      ∀ x < uncompHdrLen l d, u.buf.bytes x = d.ip x := by
  by_cases hcomp : compresses l d = true
  · rw [compressHeader, if_pos hcomp] at h
    have hfirst : p.data frag1HdrLen = encodeIphc0 d.ip := by
      have hdata := h
      rw [compressHdrIphc] at hdata
      simp only [append_assoc, cons_append, holds_cons] at hdata
      exact hdata.1
    have hhc06 : c.hc06 = true := (Bool.and_eq_true_iff.mp hcomp).2
    obtain ⟨hend, huncomp, hothers, hsource⟩ := @uncompress_compress d.ip p.data t l.lladdr l.dest d.len
      p.datalen frag1HdrLen d.len buf d.isPacket (by decide) h (.inl rfl)
    rw [uncompressHeader, hfirst, encodeIphc0_dispatch, if_pos ⟨hhc06, rfl⟩, hsender, hreceiver,
      compressHeader, uncompHdrLen, if_pos hcomp, if_pos hcomp]
    refine ⟨_, rfl, hend, huncomp, fun x hx => ?_⟩
    by_cases hsrc : 8 ≤ x ∧ x < 24
    · obtain ⟨y, rfl⟩ := Nat.exists_eq_add_of_le hsrc.1
      exact hsource.mpr (hrestores hcomp) y (by omega)
    · exact hothers x hx hsrc
  · rw [compressHeader, if_neg hcomp, holds_cons] at h
    obtain ⟨hfirst, hslice⟩ := h
    rw [uncompressHeader, hfirst, if_neg (by rintro ⟨-, h⟩; revert h; decide), if_pos rfl,
      compressHeader, uncompHdrLen, if_neg hcomp, if_neg hcomp, length_cons, length_slice]
    refine ⟨_, rfl, rfl, rfl, fun x hx => ?_⟩
    have hcopy := copy_inside buf (o := 0) (i := x) (dataFrom p.data (frag1HdrLen + ipv6HdrLen)) (Int.ofNat_lt.mpr hx)
    rw [zero_add] at hcopy
    rw [hcopy, dataFrom]
    have := holds_slice hslice x hx
    rwa [zero_add] at this

theorem Carries.first (hrestores : Restores t l d) (h : Carries l (firstFragment t l d tag) p) :
    p.dispatch = dispatchFrag1 ∧
    p.fragSize = d.len ∧
    p.fragTag = tag ∧
    ∀ buf, ∃ u,
      uncompressHeader t p frag1HdrLen p.fragSize buf = some u ∧
      u.hdrLen ≤ p.datalen ∧
      u.uncompHdrLen + (p.datalen - u.hdrLen) = firstEnd t l d ∧
      ∀ x < firstEnd t l d, (copyPayload p u).bytes x = d.ip x := by
  have hdata := h.data
  have hlen := h.datalen
  rw [firstFragment, length_append, length_append, fragHeader_length, length_slice] at hlen
  rw [firstFragment, holds_append, holds_append, length_append, fragHeader_length, zero_add,
    zero_add] at hdata
  obtain ⟨⟨hheader, hcomp⟩, hslice⟩ := hdata
  obtain ⟨hdispatch, hsize, htag⟩ := read_fragHeader (q := 24) (by decide) rfl hheader
  refine ⟨hdispatch, hsize, htag, fun buf => ?_⟩
  obtain ⟨u, hu, hhdr, huncomp, hbytes⟩ := uncompressHeader_first hrestores buf h.sender h.receiver hcomp
  rw [show frag1HdrLen = 4 from rfl] at hhdr
  refine ⟨u, by rw [hsize]; exact hu, by omega, by rw [firstEnd]; omega, fun x hx => ?_⟩
  rw [firstEnd] at hx
  rw [copyPayload]
  by_cases hin : x < u.uncompHdrLen
  · rw [copy_outside _ _ (.inl hin)]
    exact hbytes x (by omega)
  · obtain ⟨y, rfl⟩ := Nat.exists_eq_add_of_le (Nat.not_lt.mp hin)
    rw [copy_inside _ _ (by omega), dataFrom, hhdr, huncomp]
    exact holds_slice hslice y (by omega)

end

end Sicslowpan

end CSync
