import CSync.Sicslowpan.IphcAddresses

/-! The IPHC codec.

    Where the packet holds what the encoder wrote for a header, each section of the decoder writes the
    fields of that header and ends where the encoder ended. -/

namespace CSync

open Lib Region List Option

namespace Sicslowpan

set_option maxRecDepth 4096 in
theorem iphc0_bits : ∀ t ∈ [(0x18 : UInt8), 0x10, 0x08, 0], ∀ n ∈ [(0x04 : UInt8), 0], ∀ h ∈ [(0 : UInt8), 1, 2, 3],
    let b := dispatchIphc ||| t ||| n ||| h
    b &&& iphcFlC = t &&& iphcFlC ∧ b &&& iphcTcC = t &&& iphcTcC ∧ b &&& iphcNhC = n ∧ b &&& 3 = h := by
  decide

theorem iphc1_bits : ∀ (s d : Fin 16) (c : Bool),
    let sf := UInt8.ofNat (16 * s)
    let df := UInt8.ofNat d
    let b := (if c then iphcCid else 0) ||| sf ||| df
    b &&& iphcSac = sf &&& iphcSac ∧ sourceMode b = sourceMode sf ∧
      b &&& iphcCid = (if c then iphcCid else 0) ||| (sf &&& iphcCid) ∧ b &&& iphcM = df &&& iphcM ∧
      b &&& iphcDac = df &&& iphcDac ∧ b &&& 3 = df &&& 3 := by
  decide

/-! ### The first eight bytes -/

/-- The traffic class, a nibble of each of two bytes, with its parts exchanged and back. -/
theorem traffic_bits : ∀ k h : Fin 16,
    let v := UInt8.ofNat (96 + k)
    let h := UInt8.ofNat h
    let t := (v <<< 4) ||| h
    let tmp := ((t &&& 3) <<< 6) ||| (t >>> 2)
    (0x60 : UInt8) ||| ((tmp >>> 2) &&& (0x0f : UInt8)) = v ∧
      ((tmp >>> 2) &&& (0x30 : UInt8)) ||| (tmp <<< 6) = h <<< 4 ∧
      ((tmp <<< 6) &&& (0xc0 : UInt8)) ||| ((tmp >>> 2) &&& (0x30 : UInt8)) = h <<< 4 ∧
      (v &&& (0x0f : UInt8) = 0 → h = 0 → v = 0x60 ∧ tmp &&& (0xc0 : UInt8) = 0) := by
  decide

/-- A byte and its nibbles. -/
theorem nibble_bits : ∀ f : Fin 256,
    let f := UInt8.ofNat f
    let b := (0 : UInt8) ||| (f &&& (0x0f : UInt8))
    f >>> 4 < 16 ∧ ((f >>> 4) <<< 4) ||| (f &&& (0x0f : UInt8)) = f ∧
      (f &&& (0x0f : UInt8) = 0 → (f >>> 4) <<< 4 = f) ∧
      (f &&& (0xf0 : UInt8) = 0 → f >>> 4 = 0 ∧ (b &&& (0x0f : UInt8)) ||| ((b >>> 2) &&& (0x30 : UInt8)) = f) ∧
      (f &&& (0x0f : UInt8) = 0 → f &&& (0xf0 : UInt8) = 0 → f = 0) := by
  decide +kernel

variable {ip data : Nat → UInt8} {iphc0 : UInt8}

theorem trafficClass_bits (hver : ip 0 >>> 4 = 6) : let tmp := trafficClass ip
    let b := (tmp &&& (0xc0 : UInt8)) ||| (ip 1 &&& (0x0f : UInt8))
    (0x60 : UInt8) ||| ((tmp >>> 2) &&& (0x0f : UInt8)) = ip 0 ∧
      ((tmp >>> 2) &&& (0x30 : UInt8)) ||| (tmp <<< 6) ||| (ip 1 &&& (0x0f : UInt8)) = ip 1 ∧
      (ip 1 &&& (0x0f : UInt8) = 0 → ((tmp <<< 6) &&& (0xc0 : UInt8)) ||| ((tmp >>> 2) &&& (0x30 : UInt8)) = ip 1) ∧
      (ip 0 &&& (0x0f : UInt8) = 0 → ip 1 &&& (0xf0 : UInt8) = 0 → ip 0 = 0x60 ∧
        (b &&& (0x0f : UInt8)) ||| ((b >>> 2) &&& (0x30 : UInt8)) = ip 1) ∧
      (ip 1 &&& (0x0f : UInt8) = 0 → ip 1 &&& (0xf0 : UInt8) = 0 → ip 1 = 0) := by
  have hk : ∃ k : Fin 16, ip 0 = UInt8.ofNat (96 + k) := by
    rw [← UInt8.toNat_inj] at hver
    simp [UInt8.toNat_shiftRight, Nat.shiftRight_eq_div_pow] at hver
    refine ⟨⟨(ip 0).toNat - 96, by omega⟩, ?_⟩
    rw [← UInt8.toNat_inj]
    simp
    omega
  obtain ⟨k, hk⟩ := hk
  obtain ⟨f, hf⟩ := exists_byte (ip 1)
  obtain ⟨hlt, hjoin, hhigh, hlow, hzero⟩ := nibble_bits f
  rw [← hf] at hlt hjoin hhigh hlow hzero
  obtain ⟨h, hh⟩ := exists_fin rfl hlt
  obtain ⟨hclass, hecn, hecn', hnone⟩ := traffic_bits k h
  rw [← hk, ← hh] at hclass hecn hecn' hnone
  rw [trafficClass]
  refine ⟨hclass, ?_, fun h0 => ?_, fun hv h0 => ?_, hzero⟩
  · rw [hecn, hjoin]
  · rw [hecn', hhigh h0]
  · obtain ⟨hn, hb⟩ := hlow h0
    obtain ⟨hver, hecn⟩ := hnone hv hn
    rw [hecn]
    exact ⟨hver, hb⟩

theorem lt_four_cases {P : Nat → Prop} (h0 : P 0) (h1 : P 1) (h2 : P 2) (h3 : P 3) : ∀ i < 4, P i
  | 0, _ => h0
  | 1, _ => h1
  | 2, _ => h2
  | 3, _ => h3

/-- Traffic class and flow label come back. -/
theorem uncompressTraffic_compress (d : Dec) (hver : ip 0 >>> 4 = 6)
    (hfl : iphc0 &&& iphcFlC = (compressTraffic ip).flags &&& iphcFlC)
    (htc : iphc0 &&& iphcTcC = (compressTraffic ip).flags &&& iphcTcC)
    (h : Holds data d.ptr (compressTraffic ip).bytes) :
    (uncompressTraffic data iphc0 d).ptr = d.ptr + (compressTraffic ip).bytes.length ∧
    ∀ i < 4, (uncompressTraffic data iphc0 d).buf.bytes i = ip i := by
  obtain ⟨hv, hf, hf0, hb, hz⟩ := trafficClass_bits hver
  rw [uncompressTraffic, hfl, htc]
  unfold compressTraffic at h ⊢
  split at h
  next hflow =>
    rw [if_pos hflow]
    split at h
    next hclass =>
      rw [if_pos hclass, if_neg (by decide), if_neg (by decide)]
      refine ⟨rfl, lt_four_cases ?_ ?_ ?_ ?_⟩
      · exact (hb hclass.1 hclass.2).1.symm
      · exact (hz hflow.1 hclass.2).symm
      · exact hflow.2.1.symm
      · exact hflow.2.2.symm
    next hclass =>
      rw [if_neg hclass, if_neg (show ¬(iphcFlC &&& iphcFlC = 0) by decide),
        if_pos (show iphcFlC &&& iphcTcC = 0 by decide)]
      rw [holds_cons] at h
      rw [h.1]
      refine ⟨rfl, lt_four_cases ?_ ?_ ?_ ?_⟩
      · exact hv
      · exact hf0 hflow.1
      · exact hflow.2.1.symm
      · exact hflow.2.2.symm
  next hflow =>
    rw [if_neg hflow]
    split at h
    next hclass =>
      rw [if_pos hclass, if_pos (show iphcTcC &&& iphcFlC = 0 by decide),
        if_neg (show ¬(iphcTcC &&& iphcTcC = 0) by decide)]
      rw [holds_cons, holds_cons, holds_cons] at h
      rw [h.1]
      refine ⟨rfl, lt_four_cases ?_ ?_ ?_ ?_⟩
      · exact (hb hclass.1 hclass.2).1.symm
      · exact (hb hclass.1 hclass.2).2
      · exact h.2.1
      · exact h.2.2.1
    next hclass =>
      rw [if_neg hclass, if_pos (show 0 &&& iphcFlC = 0 by decide), if_pos (show 0 &&& iphcTcC = 0 by decide)]
      rw [holds_cons, holds_cons, holds_cons, holds_cons] at h
      rw [h.1]
      refine ⟨rfl, lt_four_cases ?_ ?_ ?_ ?_⟩
      · exact hv
      · refine Eq.trans ?_ hf
        rw [← h.2.1]
        rfl
      · exact h.2.2.1
      · exact h.2.2.2.1

theorem uncompressNextHeader_compress (d : Dec) (hnh : iphc0 &&& iphcNhC = (compressNextHeader ip).flags)
    (h : Holds data d.ptr (compressNextHeader ip).bytes) :
    (uncompressNextHeader data iphc0 d).ptr = d.ptr + (compressNextHeader ip).bytes.length ∧
    (ip 6 ≠ protoUdp → (uncompressNextHeader data iphc0 d).buf.bytes 6 = ip 6) := by
  rw [uncompressNextHeader, hnh]
  unfold compressNextHeader at h ⊢
  split at h
  next hudp =>
    rw [if_pos hudp, if_neg (by decide)]
    exact ⟨rfl, fun hne => absurd hudp hne⟩
  next hudp =>
    rw [if_neg hudp, if_pos rfl]
    exact ⟨rfl, fun _ => (put_same _ _ _).trans (holds_cons.mp h).1⟩

theorem uncompressHopLimit_compress (d : Dec) (hhl : iphc0 &&& 3 = (compressHopLimit ip).flags)
    (h : Holds data d.ptr (compressHopLimit ip).bytes) :
    (uncompressHopLimit data iphc0 d).ptr = d.ptr + (compressHopLimit ip).bytes.length ∧
    (uncompressHopLimit data iphc0 d).buf.bytes 7 = ip 7 := by
  rw [uncompressHopLimit, hhl]
  unfold compressHopLimit at h ⊢
  split at h
  next h1 =>
    rw [if_pos h1, if_pos (by decide)]
    exact ⟨rfl, (put_same _ _ _).trans h1.symm⟩
  next h1 =>
    rw [if_neg h1]
    split at h
    next h64 =>
      rw [if_pos h64, if_pos (by decide)]
      exact ⟨rfl, (put_same _ _ _).trans h64.symm⟩
    next h64 =>
      rw [if_neg h64]
      split at h
      next h255 =>
        rw [if_pos h255, if_pos (by decide)]
        exact ⟨rfl, (put_same _ _ _).trans h255.symm⟩
      next h255 =>
        rw [if_neg h255, if_neg (show ¬((0 : UInt8) ≠ 0) by decide)]
        exact ⟨rfl, (put_same _ _ _).trans (holds_cons.mp h).1⟩

theorem port_nibble : ∀ x : Fin 256, UInt8.ofNat x &&& (0xf0 : UInt8) = udp4BitPortMin →
    ∃ k : Fin 16, UInt8.ofNat x = UInt8.ofNat (0xb0 + k) := by
  decide +kernel

theorem port_bits : ∀ (j k : Fin 16),
    let x := UInt8.ofNat (0xb0 + j)
    let y := UInt8.ofNat (0xb0 + k)
    let b := ((x - udp4BitPortMin) <<< 4) + (y - udp4BitPortMin)
    udp4BitPortMin + (b >>> 4) = x ∧ udp4BitPortMin + (b &&& (0x0f : UInt8)) = y := by
  decide

theorem uncompressPorts_compress (d : Dec) (h : Holds data d.ptr (compressPorts ip)) :
    data d.ptr &&& 0xf8 = nhcUdp ∧
    data d.ptr &&& 4 = 0 ∧
    (uncompressPorts data (data d.ptr &&& 3) d).ptr = d.ptr + (compressPorts ip).length ∧
    ∀ i < 4, (uncompressPorts data (data d.ptr &&& 3) d).buf.bytes (40 + i) = ip (40 + i) := by
  unfold compressPorts at h ⊢
  split at h
  next hboth =>
    rw [if_pos hboth]
    rw [holds_cons, holds_cons] at h
    obtain ⟨x, hx⟩ := exists_byte (ip 41)
    obtain ⟨y, hy⟩ := exists_byte (ip 43)
    obtain ⟨j, hj⟩ := port_nibble x (hx ▸ hboth.2.1)
    obtain ⟨k, hk⟩ := port_nibble y (hy ▸ hboth.2.2.2)
    obtain ⟨hbx, hby⟩ := port_bits j k
    rw [← hj, ← hk, ← hx, ← hy] at hbx hby
    rw [h.1, uncompressPorts]
    refine ⟨by decide, by decide, rfl, lt_four_cases ?_ ?_ ?_ ?_⟩
    · exact hboth.1.symm
    · refine Eq.trans ?_ hbx
      rw [← h.2.1]
      rfl
    · exact hboth.2.2.1.symm
    · refine Eq.trans ?_ hby
      rw [← h.2.1]
      rfl
  next hboth =>
    rw [if_neg hboth]
    split at h
    next hdest =>
      rw [if_pos hdest]
      rw [holds_cons, holds_cons, holds_cons, holds_cons] at h
      rw [h.1, uncompressPorts]
      refine ⟨by decide, by decide, rfl, lt_four_cases ?_ ?_ ?_ ?_⟩
      · exact h.2.1
      · exact h.2.2.1
      · exact hdest.symm
      · exact h.2.2.2.1
    next hdest =>
      rw [if_neg hdest]
      split at h
      next hsrc =>
        rw [if_pos hsrc]
        rw [holds_cons, holds_cons, holds_cons, holds_cons] at h
        rw [h.1, uncompressPorts]
        refine ⟨by decide, by decide, rfl, lt_four_cases ?_ ?_ ?_ ?_⟩
        · exact hsrc.symm
        · exact h.2.1
        · exact h.2.2.1
        · exact h.2.2.2.1
      next hsrc =>
        rw [if_neg hsrc]
        rw [holds_cons, holds_cons, holds_cons, holds_cons, holds_cons] at h
        rw [h.1, uncompressPorts]
        refine ⟨by decide, by decide, rfl, lt_four_cases ?_ ?_ ?_ ?_⟩
        · exact h.2.1
        · exact h.2.2.1
        · exact h.2.2.2.1
        · exact h.2.2.2.2.1

theorem uncompressUdp_compress (d : Dec) (hnh : iphc0 &&& iphcNhC = (compressNextHeader ip).flags)
    (h : Holds data d.ptr (compressUdp ip)) :
    (uncompressUdp data iphc0 d).1.ptr = d.ptr + (compressUdp ip).length ∧
    (uncompressUdp data iphc0 d).2 = compressedHdrLen ip ∧
    (ip 6 ≠ protoUdp → (uncompressUdp data iphc0 d).1 = d) ∧
    (ip 6 = protoUdp →
       (uncompressUdp data iphc0 d).1.buf.bytes 6 = protoUdp ∧
       (∀ i < 40, i ≠ 6 → (uncompressUdp data iphc0 d).1.buf.bytes i = d.buf.bytes i) ∧
       (∀ i < 4, (uncompressUdp data iphc0 d).1.buf.bytes (40 + i) = ip (40 + i)) ∧
       ∀ i < 2, (uncompressUdp data iphc0 d).1.buf.bytes (46 + i) = ip (46 + i)) := by
  rw [compressNextHeader] at hnh
  rw [uncompressUdp, compressedHdrLen]
  unfold compressUdp at h ⊢
  dsimp only
  split at h
  next hudp =>
    rw [if_pos hudp] at hnh
    rw [if_pos hudp, if_pos hudp]
    rw [holds_append] at h
    obtain ⟨hid, hck, hptr, hports⟩ := uncompressPorts_compress ⟨d.buf.put 6 protoUdp, d.ptr⟩ h.1
    rw [if_pos ⟨by rw [hnh]; decide, hid⟩, if_pos hck]
    have hwithin := uncompressPorts_within data (data d.ptr &&& 3) ⟨d.buf.put 6 protoUdp, d.ptr⟩
    refine ⟨?_, rfl, fun hne => absurd hudp hne, fun _ => ⟨?_, ?_, ?_, ?_⟩⟩
    · dsimp only
      rw [hptr, length_append, length_slice, add_assoc]
    · dsimp only
      rw [copy_outside _ _ (by decide), hwithin.outside 6 (by decide)]
      exact put_same _ _ _
    · intro i hi hne
      rw [copy_outside _ _ (by omega), hwithin.outside i (by omega)]
      exact put_other _ _ hne
    · intro i hi
      rw [copy_outside _ _ (by omega)]
      exact hports i hi
    · intro i hi
      rw [copy_inside _ _ (by omega), hptr]
      exact holds_slice h.2 i hi
  next hudp =>
    rw [if_neg hudp] at hnh
    rw [if_neg hudp, if_neg hudp, if_neg (fun hb => hb.1 hnh)]
    exact ⟨rfl, rfl, fun _ => rfl, fun hb => absurd hb hudp⟩

/-! ### The flag bytes and the contexts -/

theorem compressTraffic_flags (ip : Nat → UInt8) : (compressTraffic ip).flags ∈ [(0x18 : UInt8), 0x10, 0x08, 0] := by
  rw [compressTraffic]
  split
  · split
    · exact .head _
    · exact .tail _ (.head _)
  · split
    · exact .tail _ (.tail _ (.head _))
    · exact .tail _ (.tail _ (.tail _ (.head _)))

theorem compressNextHeader_flags (ip : Nat → UInt8) : (compressNextHeader ip).flags ∈ [(0x04 : UInt8), 0] := by
  rw [compressNextHeader]
  split
  · exact .head _
  · exact .tail _ (.head _)

theorem compressHopLimit_flags (ip : Nat → UInt8) : (compressHopLimit ip).flags ∈ [(0 : UInt8), 1, 2, 3] := by
  rw [compressHopLimit]
  split
  · exact .tail _ (.head _)
  · split
    · exact .tail _ (.tail _ (.head _))
    · split
      · exact .tail _ (.tail _ (.tail _ (.head _)))
      · exact .head _

section

variable (t : AddrContexts) (lladdr : LinkAddr)

theorem compressSource_flags (ip : Nat → UInt8) :
    ∃ s : Fin 16, (compressSource t lladdr ip).1.flags = UInt8.ofNat (16 * s) := by
  rcases compressSource_cases t lladdr ip with ⟨-, heq⟩ | ⟨c, -, -, heq⟩ | ⟨-, -, -, heq⟩ | ⟨-, -, heq⟩ <;> rw [heq]
  · exact ⟨4, rfl⟩
  · rcases iidMode_cases ip 8 lladdr with h | h | h <;> rw [h]
    · exact ⟨15, rfl⟩
    · exact ⟨14, rfl⟩
    · exact ⟨13, rfl⟩
  · rcases iidMode_cases ip 8 lladdr with h | h | h <;> rw [h]
    · exact ⟨3, rfl⟩
    · exact ⟨2, rfl⟩
    · exact ⟨1, rfl⟩
  · exact ⟨0, rfl⟩

theorem compressSource_cid {t : AddrContexts} (h : addrContextLookupByPrefix t ip 8 = none) :
    (compressSource t lladdr ip).1.flags &&& iphcCid = 0 := by
  rcases compressSource_cases t lladdr ip with ⟨-, heq⟩ | ⟨c, -, hctx, heq⟩ | ⟨-, -, -, heq⟩ | ⟨-, -, heq⟩
  · rw [heq]
    decide
  · rw [h] at hctx
    cases hctx
  · have hmode : (iidMode ip 8 lladdr <<< 4) &&& iphcCid = 0 := by
      rcases iidMode_cases ip 8 lladdr with hm | hm | hm <;> rw [hm] <;> decide
    rw [heq]
    exact hmode
  · rw [heq]
    exact UInt8.zero_and

theorem compressDest_flags (ip : Nat → UInt8) :
    ∃ d : Fin 16, (compressDest t lladdr ip).1.flags = UInt8.ofNat d := by
  rcases compressDest_cases t lladdr ip with ⟨-, heq⟩ | ⟨c, -, -, heq⟩ | ⟨-, -, -, heq⟩ | ⟨-, heq⟩ <;> rw [heq]
  · rw [compressMcast]
    split
    · exact ⟨11, rfl⟩
    · split
      · exact ⟨10, rfl⟩
      · split
        · exact ⟨9, rfl⟩
        · exact ⟨8, rfl⟩
  · rcases iidMode_cases ip 24 lladdr with h | h | h <;> rw [h]
    · exact ⟨7, rfl⟩
    · exact ⟨6, rfl⟩
    · exact ⟨5, rfl⟩
  · rcases iidMode_cases ip 24 lladdr with h | h | h <;> rw [h]
    · exact ⟨3, rfl⟩
    · exact ⟨2, rfl⟩
    · exact ⟨1, rfl⟩
  · exact ⟨0, rfl⟩

theorem context_bits : ∀ a b : Fin 16,
    let x := (UInt8.ofNat a <<< 4) ||| UInt8.ofNat b
    x >>> 4 = UInt8.ofNat a ∧ x &&& (0x0f : UInt8) = UInt8.ofNat b := by
  decide

theorem compressSource_sci (ip : Nat → UInt8) :
    ∃ a : Fin 16,
      (compressSource t lladdr ip).2 = UInt8.ofNat a <<< 4 ∧
      ∀ c, addrContextLookupByPrefix t ip 8 = some c → isAddrUnspecified ip 8 = false → c.number = UInt8.ofNat a := by
  rcases compressSource_cases t lladdr ip with ⟨hun, heq⟩ | ⟨c, -, hctx, heq⟩ | ⟨hctx, -, -, heq⟩ | ⟨hctx, -, heq⟩
  · exact ⟨0, by rw [heq]; rfl, fun c _ hne => (by rw [hun] at hne; cases hne)⟩
  · obtain ⟨-, hlt, -⟩ := lookup_number_of_prefix hctx
    refine ⟨⟨c.number.toNat, hlt⟩, by rw [heq]; simp, fun c' hc' _ => ?_⟩
    rw [hctx] at hc'
    cases hc'
    simp
  · exact ⟨0, by rw [heq]; rfl, fun c hc _ => (by rw [hctx] at hc; cases hc)⟩
  · exact ⟨0, by rw [heq]; rfl, fun c hc _ => (by rw [hctx] at hc; cases hc)⟩

theorem compressDest_dci (ip : Nat → UInt8) :
    ∃ b : Fin 16,
      (compressDest t lladdr ip).2 = UInt8.ofNat b ∧
      ∀ c, addrContextLookupByPrefix t ip 24 = some c → isAddrMcast ip 24 = false → c.number = UInt8.ofNat b := by
  rcases compressDest_cases t lladdr ip with ⟨hmc, heq⟩ | ⟨c, -, hctx, heq⟩ | ⟨hctx, -, -, heq⟩ | ⟨hctx, heq⟩
  · exact ⟨0, by rw [heq]; rfl, fun c _ hne => (by rw [hmc] at hne; cases hne)⟩
  · obtain ⟨-, hlt, -⟩ := lookup_number_of_prefix hctx
    refine ⟨⟨c.number.toNat, hlt⟩, by rw [heq]; simp, fun c' hc' _ => ?_⟩
    rw [hctx] at hc'
    cases hc'
    simp
  · exact ⟨0, by rw [heq]; rfl, fun c hc _ => (by rw [hctx] at hc; cases hc)⟩
  · exact ⟨0, by rw [heq]; rfl, fun c hc _ => (by rw [hctx] at hc; cases hc)⟩

/-! ### Lengths -/

theorem compressAddr64_length (bitpos : UInt8) (ip : Nat → UInt8) (a : Nat) (lladdr : LinkAddr) :
    (compressAddr64 bitpos ip a lladdr).bytes.length ≤ 8 := by
  rw [compressAddr64]
  split
  · exact Nat.zero_le 8
  · split
    · exact Nat.le_of_ble_eq_true rfl
    · exact Nat.le_of_ble_eq_true rfl

theorem compressTraffic_length (ip : Nat → UInt8) : (compressTraffic ip).bytes.length ≤ 4 := by
  rw [compressTraffic]
  split
  · split <;> exact Nat.le_of_ble_eq_true rfl
  · split <;> exact Nat.le_of_ble_eq_true rfl

theorem compressNextHeader_length (ip : Nat → UInt8) : (compressNextHeader ip).bytes.length ≤ 1 := by
  rw [compressNextHeader]
  split <;> exact Nat.le_of_ble_eq_true rfl

theorem compressHopLimit_length (ip : Nat → UInt8) : (compressHopLimit ip).bytes.length ≤ 1 := by
  rw [compressHopLimit]
  split
  · exact Nat.zero_le 1
  · split
    · exact Nat.zero_le 1
    · split <;> exact Nat.le_of_ble_eq_true rfl

theorem compressSource_length (ip : Nat → UInt8) :
    (compressSource t lladdr ip).1.bytes.length ≤ 16 := by
  have hiid := compressAddr64_length 4 ip 8 lladdr
  rcases compressSource_cases t lladdr ip with ⟨-, heq⟩ | ⟨c, -, -, heq⟩ | ⟨-, -, -, heq⟩ | ⟨-, -, heq⟩ <;> rw [heq]
  · exact Nat.zero_le 16
  · exact hiid.trans (by decide)
  · exact hiid.trans (by decide)
  · exact le_refl 16

theorem compressDest_length (ip : Nat → UInt8) :
    (compressDest t lladdr ip).1.bytes.length ≤ 16 := by
  have hiid := compressAddr64_length 0 ip 24 lladdr
  rcases compressDest_cases t lladdr ip with ⟨-, heq⟩ | ⟨c, -, -, heq⟩ | ⟨-, -, -, heq⟩ | ⟨-, heq⟩ <;> rw [heq]
  · rw [compressMcast]
    split
    · exact Nat.le_of_ble_eq_true rfl
    · split
      · exact Nat.le_of_ble_eq_true rfl
      · split <;> exact Nat.le_of_ble_eq_true rfl
  · exact hiid.trans (by decide)
  · exact hiid.trans (by decide)
  · exact le_refl 16

theorem compressUdp_length (ip : Nat → UInt8) : (compressUdp ip).length ≤ 7 := by
  rw [compressUdp]
  split
  · rw [length_append, length_slice, compressPorts]
    split
    · exact Nat.le_of_ble_eq_true rfl
    · split
      · exact Nat.le_of_ble_eq_true rfl
      · split <;> exact Nat.le_of_ble_eq_true rfl
  · exact Nat.zero_le 7

/-- The compressed headers are at most as long as the headers. -/
theorem compressHdrIphc_length (lladdr destaddr : LinkAddr) (ip : Nat → UInt8) :
    (compressHdrIphc t lladdr destaddr ip).length ≤ 48 := by
  have h1 := compressTraffic_length ip
  have h2 := compressNextHeader_length ip
  have h3 := compressHopLimit_length ip
  have h4 := compressSource_length t lladdr ip
  have h5 := compressDest_length t destaddr ip
  have h6 := compressUdp_length ip
  have h7 : (encodeContexts t lladdr destaddr ip).length ≤ 1 := by
    rw [encodeContexts]
    split
    · exact le_refl 1
    · exact Nat.zero_le 1
  rw [compressHdrIphc]
  simp only [length_append, length_cons, length_nil]
  omega

end

/-! ### Whole headers -/

/-- A packet of `n` bytes with an IPv6 header, and a UDP header if the next header says so: the version
    and the lengths are right. -/
structure IsPacket (ip : Nat → UInt8) (n : Nat) : Prop where
  version : ip 0 >>> 4 = 6
  hdrLen : compressedHdrLen ip ≤ n
  len : ∀ i < 2, ip (4 + i) = lenBytes (n - iphLen) i
  udplen : ip 6 = protoUdp → ∀ i < 2, ip (44 + i) = ip (4 + i)

theorem writeLengths_bytes {n : Nat} (hip : IsPacket ip n) {len : Int} {buf : Region} (hlen : len = n - iphLen)
    (hproto : buf.bytes 6 = ip 6) : (∀ i < 2, (writeLengths len buf).bytes (4 + i) = ip (4 + i)) ∧ (ip 6 = protoUdp →
    ∀ i < 2, (writeLengths len buf).bytes (44 + i) = ip (44 + i)) ∧ ∀ i, ¬(4 ≤ i ∧ i < 6) → ¬(44 ≤ i ∧ i < 46) →
    (writeLengths len buf).bytes i = buf.bytes i := by
  have hcopy : ∀ i < 2, (buf.copy 4 2 (lenBytes len)).bytes (4 + i) = ip (4 + i) := by
    intro i hi
    rw [copy_inside _ _ (by omega), hlen, hip.len i hi]
  have hproto' : (buf.copy 4 2 (lenBytes len)).bytes 6 = ip 6 := by
    rw [copy_outside _ _ (by decide), hproto]
  rw [writeLengths, hproto']
  split
  next hudp =>
    refine ⟨fun i hi => ?_, fun _ i hi => ?_, fun i h4 h44 => ?_⟩
    · rw [copy_outside _ _ (by omega), hcopy i hi]
    · rw [copy_inside _ _ (by omega), hip.udplen hudp i hi]
      exact hcopy i hi
    · rw [copy_outside _ _ (by omega), copy_outside _ _ (by omega)]
  next hudp =>
    refine ⟨hcopy, fun h => absurd h hudp, fun i h4 h44 => ?_⟩
    rw [copy_outside _ _ (by omega)]

/-- The first flag byte as the decoder reads it. -/
theorem encodeIphc0_bits (ip : Nat → UInt8) : encodeIphc0 ip &&& iphcFlC = (compressTraffic ip).flags &&& iphcFlC ∧
    encodeIphc0 ip &&& iphcTcC = (compressTraffic ip).flags &&& iphcTcC ∧ encodeIphc0 ip &&& iphcNhC =
    (compressNextHeader ip).flags ∧ encodeIphc0 ip &&& 3 = (compressHopLimit ip).flags :=
  iphc0_bits _ (compressTraffic_flags ip) _ (compressNextHeader_flags ip) _ (compressHopLimit_flags ip)

section

variable (t : AddrContexts) (lladdr destaddr : LinkAddr) (ip : Nat → UInt8)

theorem encodeIphc1_cid : encodeIphc1 t lladdr destaddr ip &&& iphcCid ≠ 0 ↔ hasContext t ip = true := by
  obtain ⟨s, hs⟩ := compressSource_flags t lladdr ip
  obtain ⟨d, hd⟩ := compressDest_flags t destaddr ip
  have hbit : encodeIphc1 t lladdr destaddr ip &&& iphcCid = (if hasContext t ip then iphcCid else 0) |||
        ((compressSource t lladdr ip).1.flags &&& iphcCid) := by
    rw [encodeIphc1, hs, hd]
    exact (iphc1_bits s d (hasContext t ip)).2.2.1
  cases hctx : hasContext t ip with
  | true =>
    rw [hctx, if_pos rfl, hs] at hbit
    refine iff_of_true ?_ rfl
    rw [hbit]
    clear * -
    revert s
    decide
  | false =>
    rw [hasContext, Bool.or_eq_false_iff, isSome_eq_false_iff, isSome_eq_false_iff,
      isNone_iff_eq_none, isNone_iff_eq_none] at hctx
    refine iff_of_false (fun hne => hne ?_) (by decide)
    rw [hbit, compressSource_cid lladdr hctx.2, hasContext, hctx.1, hctx.2]
    rfl

theorem encodeIphc1_source : encodeIphc1 t lladdr destaddr ip &&& iphcSac = (compressSource t lladdr ip).1.flags &&&
    iphcSac ∧ sourceMode (encodeIphc1 t lladdr destaddr ip) = sourceMode (compressSource t lladdr ip).1.flags := by
  obtain ⟨s, hs⟩ := compressSource_flags t lladdr ip
  obtain ⟨d, hd⟩ := compressDest_flags t destaddr ip
  obtain ⟨hsac, hsam, -⟩ := iphc1_bits s d (hasContext t ip)
  rw [encodeIphc1, hs, hd]
  exact ⟨hsac, hsam⟩

/-- The second flag byte as the destination section reads it. -/
theorem encodeIphc1_dest :
    encodeIphc1 t lladdr destaddr ip &&& iphcM = (compressDest t destaddr ip).1.flags &&& iphcM ∧
    encodeIphc1 t lladdr destaddr ip &&& iphcDac = (compressDest t destaddr ip).1.flags &&& iphcDac ∧
    encodeIphc1 t lladdr destaddr ip &&& 3 = (compressDest t destaddr ip).1.flags &&& 3 := by
  obtain ⟨s, hs⟩ := compressSource_flags t lladdr ip
  obtain ⟨d, hd⟩ := compressDest_flags t destaddr ip
  obtain ⟨-, -, -, hm, hdac, hdam⟩ := iphc1_bits s d (hasContext t ip)
  rw [encodeIphc1, hs, hd]
  exact ⟨hm, hdac, hdam⟩

variable {t lladdr destaddr ip}

theorem encodeContexts_numbers {data : Nat → UInt8} {o : Nat} (h : Holds data o (encodeContexts t lladdr destaddr ip)) :
    (∀ c, addrContextLookupByPrefix t ip 8 = some c → isAddrUnspecified ip 8 = false →
       encodeIphc1 t lladdr destaddr ip &&& iphcCid ≠ 0 ∧ data o >>> 4 = c.number) ∧
    ∀ c, addrContextLookupByPrefix t ip 24 = some c → isAddrMcast ip 24 = false →
      encodeIphc1 t lladdr destaddr ip &&& iphcCid ≠ 0 ∧ data o &&& 0x0f = c.number := by
  have hset := encodeIphc1_cid t lladdr destaddr ip
  obtain ⟨a, hsci, hsnum⟩ := compressSource_sci t lladdr ip
  obtain ⟨b, hdci, hdnum⟩ := compressDest_dci t destaddr ip
  obtain ⟨hhigh, hlow⟩ := context_bits a b
  have hbyte : hasContext t ip = true → data o = (UInt8.ofNat a <<< 4) ||| UInt8.ofNat b := by
    intro hctx
    rw [encodeContexts, if_pos hctx, hsci, hdci] at h
    exact (holds_cons.mp h).1
  constructor
  · intro c hc hun
    have hctx : hasContext t ip = true := by
      rw [hasContext, hc, isSome_some, Bool.or_true]
    exact ⟨hset.mpr hctx, by rw [hbyte hctx, hhigh, hsnum c hc hun]⟩
  · intro c hc hmc
    have hctx : hasContext t ip = true := by
      rw [hasContext, hc, isSome_some, Bool.true_or]
    exact ⟨hset.mpr hctx, by rw [hbyte hctx, hlow, hdnum c hc hmc]⟩

end

/-- The decoder on what the encoder wrote, at any place of a packet: it ends where the encoder ended, and
    writes the headers again, the source only if it was not elided wrongly. -/
theorem uncompress_compress {t : AddrContexts} {lladdr destaddr : LinkAddr}
    {n datalen hdrLen ipLen : Nat} (buf : Region) (hip : IsPacket ip n) (hoff : hdrLen ≤ 200)
    (h : Holds data hdrLen (compressHdrIphc t lladdr destaddr ip))
    (hlen : ipLen = n ∨ (ipLen = 0 ∧ datalen + compressedHdrLen ip =
      hdrLen + (compressHdrIphc t lladdr destaddr ip).length + n)) :
    let r := uncompressHdrIphc t lladdr destaddr data datalen hdrLen ipLen buf
    r.hdrLen = hdrLen + (compressHdrIphc t lladdr destaddr ip).length ∧ r.uncompHdrLen = compressedHdrLen ip ∧
      (∀ i < compressedHdrLen ip, ¬(8 ≤ i ∧ i < 24) → r.buf.bytes i = ip i) ∧
      ((∀ i < 16, r.buf.bytes (8 + i) = ip (8 + i)) ↔ ¬Elided t ip) := by
  have hlength := compressHdrIphc_length t lladdr destaddr ip
  rw [compressHdrIphc] at h
  simp only [append_assoc] at h
  rw [holds_append, holds_append, holds_append, holds_append, holds_append, holds_append, holds_append] at h
  obtain ⟨hflags, hctx, htraffic, hnh, hhl, hsource, hdest, hudp⟩ := h
  rw [holds_cons, holds_cons] at hflags
  obtain ⟨hfl, htc, hnhc, hhlc⟩ := encodeIphc0_bits ip
  obtain ⟨hsac, hsam⟩ := encodeIphc1_source t lladdr destaddr ip
  obtain ⟨hm, hdac, hdam⟩ := encodeIphc1_dest t lladdr destaddr ip
  obtain ⟨hsctx, hdctx⟩ := encodeContexts_numbers hctx
  rw [uncompressHdrIphc, hflags.1, hflags.2.1]
  -- the sections in their order, each from where the one before ended
  generalize hd0 : (⟨buf, _⟩ : Dec) = d0
  have hptr0 : d0.ptr = hdrLen + 2 + (encodeContexts t lladdr destaddr ip).length := by
    rw [← hd0, encodeContexts]
    cases hc : hasContext t ip with
    | true => rw [if_pos ((encodeIphc1_cid t lladdr destaddr ip).mpr hc)]; rfl
    | false => rw [if_neg fun hne => absurd ((encodeIphc1_cid ..).mp hne) (by rw [hc]; decide)]; rfl
  rw [length_cons, length_cons, length_nil, ← hptr0] at htraffic hnh hhl hsource hdest hudp
  obtain ⟨hp1, hb1⟩ := uncompressTraffic_compress d0 hip.version hfl htc htraffic
  have w1 := uncompressTraffic_within data (encodeIphc0 ip) d0
  generalize uncompressTraffic data (encodeIphc0 ip) d0 = d1 at hp1 hb1 w1 ⊢
  rw [← hp1] at hnh hhl hsource hdest hudp
  obtain ⟨hp2, hb2⟩ := uncompressNextHeader_compress d1 hnhc hnh
  have w2 := uncompressNextHeader_within data (encodeIphc0 ip) d1
  generalize uncompressNextHeader data (encodeIphc0 ip) d1 = d2 at hp2 hb2 w2 ⊢
  rw [← hp2] at hhl hsource hdest hudp
  obtain ⟨hp3, hb3⟩ := uncompressHopLimit_compress d2 hhlc hhl
  have w3 := uncompressHopLimit_within data (encodeIphc0 ip) d2
  generalize uncompressHopLimit data (encodeIphc0 ip) d2 = d3 at hp3 hb3 w3 ⊢
  rw [← hp3] at hsource hdest hudp
  obtain ⟨d4, hd4, hp4, hb4⟩ := uncompressSource_compress d3 hsac hsam hsctx hsource
  have w4 := uncompressSource_within hd4
  rw [← hp4] at hdest hudp
  obtain ⟨d5, hd5, hp5, hb5⟩ := uncompressDest_compress d4 hm hdac hdam hdctx hdest
  have w5 := uncompressDest_within hd5
  rw [← hp5] at hudp
  obtain ⟨hp6, hlen6, hplain, hports⟩ := uncompressUdp_compress d5 hnhc hudp
  rw [length_cons, length_cons, length_nil] at hd4 hd5
  rw [hd4]
  dsimp only
  rw [hd5]
  dsimp only
  generalize uncompressUdp data (encodeIphc0 ip) d5 = r6 at hp6 hlen6 hplain hports ⊢
  -- what the sections leave for the lengths to be written over
  have hkeep : ∀ i < 40, i ≠ 6 → r6.1.buf.bytes i = d5.buf.bytes i := by
    intro i hi hne
    by_cases hproto : ip 6 = protoUdp
    · exact (hports hproto).2.1 i hi hne
    · rw [hplain hproto]
  have hproto : r6.1.buf.bytes 6 = ip 6 := by
    by_cases hproto : ip 6 = protoUdp
    · rw [(hports hproto).1, hproto]
    · rw [hplain hproto, w5.outside 6 (by decide), w4.outside 6 (by decide), w3.outside 6 (by decide), hb2 hproto]
  have hptr : r6.1.ptr % 256 = hdrLen + (compressHdrIphc t lladdr destaddr ip).length := by
    rw [compressHdrIphc] at hlength ⊢
    simp only [length_append, length_cons, length_nil] at hlength ⊢
    omega
  have hn := hip.hdrLen
  have hsum : (if ipLen = 0 then (datalen : Int) - ↑(r6.1.ptr % 256) + ↑r6.2 - ↑iphLen
      else ↑ipLen - ↑iphLen) = n - iphLen := by
    have hpos : iphLen ≤ compressedHdrLen ip := Nat.le_add_right ..
    rcases hlen with rfl | ⟨rfl, hdatalen⟩
    · rw [if_neg (by rw [iphLen] at hpos; omega)]
    · rw [if_pos rfl]
      omega
  obtain ⟨hl4, hl44, hlother⟩ := writeLengths_bytes hip hsum hproto
  refine ⟨hptr, hlen6, ?_, ?_⟩
  · intro i hi hne
    have hudp : 40 ≤ i → ip 6 = protoUdp := by
      intro h40
      by_contra hno
      rw [compressedHdrLen, if_neg hno, iphLen] at hi
      omega
    have hhi : i < 48 := by
      have hmax : compressedHdrLen ip ≤ 48 := by
        rw [compressedHdrLen]
        split <;> decide
      omega
    by_cases hlen4 : 4 ≤ i ∧ i < 6
    · obtain ⟨j, rfl⟩ := Nat.exists_eq_add_of_le hlen4.1
      exact hl4 j (by omega)
    by_cases hlen44 : 44 ≤ i ∧ i < 46
    · obtain ⟨j, rfl⟩ := Nat.exists_eq_add_of_le hlen44.1
      exact hl44 (hudp (by omega)) j (by omega)
    rw [hlother i hlen4 hlen44]
    have hcases : i < 4 ∨ i = 6 ∨ i = 7 ∨ (24 ≤ i ∧ i < 40) ∨ (40 ≤ i ∧ i < 44) ∨ (46 ≤ i ∧ i < 48) := by omega
    rcases hcases with hlow | rfl | rfl | hd | hp | hck
    · rw [hkeep i (by omega) (by omega), w5.outside i (by omega), w4.outside i (by omega),
        w3.outside i (by omega), w2.outside i (by omega), hb1 i hlow]
    · exact hproto
    · rw [hkeep 7 (by decide) (by decide), w5.outside 7 (by decide), w4.outside 7 (by decide), hb3]
    · obtain ⟨j, rfl⟩ := Nat.exists_eq_add_of_le hd.1
      rw [hkeep _ hd.2 (by omega), hb5 j (by omega)]
    · obtain ⟨j, rfl⟩ := Nat.exists_eq_add_of_le hp.1
      exact (hports (hudp hp.1)).2.2.1 j (by omega)
    · obtain ⟨j, rfl⟩ := Nat.exists_eq_add_of_le hck.1
      exact (hports (hudp (by omega))).2.2.2 j (by omega)
  · rw [← hb4]
    refine forall_congr' fun i => imp_congr_right fun hi => ?_
    rw [hlother (8 + i) (by omega) (by omega), hkeep (8 + i) (by omega) (by omega), w5.outside (8 + i) (by omega)]

/-! ### Round trip -/

/-- THE IPHC CODEC. With the same contexts and link-layer addresses at both ends, the decoder consumes what
    the encoder produced for the headers of a packet and rebuilds them, in a packet of its own as in a
    first fragment, exactly when no bytes behind a link-local source prefix are elided wrongly. -/
theorem iphc_roundtrip (t : AddrContexts) (lladdr destaddr : LinkAddr) (ip : Nat → UInt8) (n : Nat)
    (hip : IsPacket ip n) (data : Nat → UInt8) (datalen hdrLen ipLen : Nat) (buf : Region)
    (h : Holds data hdrLen (compressHdrIphc t lladdr destaddr ip))
    (hcall : (hdrLen = 0 ∧ ipLen = 0 ∧ datalen =
        (compressHdrIphc t lladdr destaddr ip).length + (n - compressedHdrLen ip)) ∨
      (hdrLen = 4 ∧ ipLen = n)) :
    let r := uncompressHdrIphc t lladdr destaddr data datalen hdrLen ipLen buf
    (r.hdrLen = hdrLen + (compressHdrIphc t lladdr destaddr ip).length ∧
      r.uncompHdrLen = compressedHdrLen ip ∧ ∀ i < compressedHdrLen ip, r.buf.bytes i = ip i) ↔
      ¬Elided t ip := by
  have hn := hip.hdrLen
  have hlen : ipLen = n ∨ (ipLen = 0 ∧ datalen + compressedHdrLen ip =
      hdrLen + (compressHdrIphc t lladdr destaddr ip).length + n) := by omega
  obtain ⟨hend, huncomp, hothers, hsource⟩ := uncompress_compress buf hip (by omega) h hlen
  have hpos : 40 ≤ compressedHdrLen ip := Nat.le_add_right ..
  refine Iff.trans ?_ hsource
  constructor
  · exact fun hall i hi => hall.2.2 (8 + i) (by omega)
  · intro hall
    refine ⟨hend, huncomp, fun i hi => ?_⟩
    by_cases hsrc : 8 ≤ i ∧ i < 24
    · obtain ⟨j, rfl⟩ := Nat.exists_eq_add_of_le hsrc.1
      exact hall j (by omega)
    · exact hothers i hi hsrc

/-- The two ends of a link, and the one context of the default prefix. -/
def nodeA : LinkAddr := #v[0x02, 0x12, 0x74, 1, 0, 1, 1, 1]
def nodeB : LinkAddr := #v[0x02, 0x12, 0x74, 2, 0, 2, 2, 2]

def defaultContexts : AddrContexts where
  contexts := [⟨1, 0, #v[0xfd, 0, 0, 0, 0, 0, 0, 0]⟩]
  numbered := by
    intro i c hi _
    cases i with
    | zero =>
      cases hi
      exact ⟨rfl, by decide⟩
    | succ i => cases hi

/-- A UDP packet from a global to a multicast address. -/
def udpPacket : Nat → UInt8 := bufferOf
  ([0x6a, 0xb1, 0x23, 0x45, 0, 10, 17, 64] ++ [0xfd, 0, 0, 0, 0, 0, 0, 0, 0, 0x12, 0x74, 1, 0, 1, 1, 1] ++
    [0xff, 2, 0, 0, 0, 0, 0, 0, 0, 0, 0, 0, 0, 0, 0, 1] ++ [0xf0, 0xb3, 0x16, 0x33, 0, 10, 0xab, 0xcd])

theorem isPacket_udpPacket : IsPacket udpPacket 50 where
  version := by decide
  hdrLen := by decide
  len := by decide
  udplen _ := by decide

theorem iphc_roundtrip_udp :
    let bytes := compressHdrIphc defaultContexts nodeA nodeB udpPacket
    let r := uncompressHdrIphc defaultContexts nodeA nodeB (bufferOf bytes) (bytes.length + 2) 0 0
      ⟨1280, fun _ => 0, true⟩
    IsPacket udpPacket 50 ∧ Holds (bufferOf bytes) 0 bytes ∧ r.hdrLen = 0 + bytes.length ∧
      r.uncompHdrLen = 48 ∧ ∀ i < 48, r.buf.bytes i = udpPacket i := by
  refine ⟨isPacket_udpPacket, holds_bufferOf _, ?_⟩
  exact (iphc_roundtrip defaultContexts nodeA nodeB udpPacket 50 isPacket_udpPacket _ _ 0 0
    ⟨1280, fun _ => 0, true⟩ (holds_bufferOf _) (.inl ⟨rfl, rfl, rfl⟩)).mpr
    (fun hel => absurd hel.1 (by decide))

/-- A packet from `fe80:0:0:1::1` to all nodes. -/
def elidedPacket : Nat → UInt8 := bufferOf
  ([0x60, 0, 0, 0, 0, 0, 59, 64] ++ [0xfe, 0x80, 0, 0, 0, 0, 0, 1, 0, 0, 0, 0, 0, 0, 0, 1] ++
    [0xff, 2, 0, 0, 0, 0, 0, 0, 0, 0, 0, 0, 0, 0, 0, 1])

/-- Its source comes back as `fe80::1`. -/
theorem elided_source_lost :
    let bytes := compressHdrIphc defaultContexts nodeA nodeB elidedPacket
    let r := uncompressHdrIphc defaultContexts nodeA nodeB (bufferOf bytes) bytes.length 0 0
      ⟨1280, fun _ => 0, true⟩
    IsPacket elidedPacket 40 ∧ r.hdrLen = bytes.length ∧ elidedPacket 15 = 1 ∧
      slice r.buf.bytes 8 16 = [0xfe, 0x80, 0, 0, 0, 0, 0, 0, 0, 0, 0, 0, 0, 0, 0, 1] := by
  refine ⟨⟨by decide, by decide, by decide, nofun⟩, ?_⟩
  decide

end Sicslowpan

end CSync
