import CSync.Sicslowpan.Iphc

/-! Where the IPHC decoder writes, and where it reads.

    Every section of the decoder writes its own fields only, whatever the packet holds, and goes on in the
    packet from where the section before ended, whatever the buffer holds. -/

namespace CSync

open Lib Region Option

namespace Sicslowpan

section
variable (data : Nat → UInt8)
include data

theorem uncompressTraffic_within (iphc0 : UInt8) (d : Dec) :
    Within 0 4 d.buf (uncompressTraffic data iphc0 d).buf := by
  have hrefl := Within.refl 0 4 d.buf
  rw [uncompressTraffic]
  split
  · split
    · exact ((hrefl.copy (by decide)).put (by decide)).put (by decide)
    · exact ((hrefl.put (by decide)).put (by decide)).copy (by decide)
  · split
    · dsimp only
      exact ((hrefl.put (by decide)).put (by decide)).copy (by decide)
    · dsimp only
      exact ((hrefl.put (by decide)).put (by decide)).copy (by decide)

theorem uncompressNextHeader_within (iphc0 : UInt8) (d : Dec) :
    Within 6 7 d.buf (uncompressNextHeader data iphc0 d).buf := by
  rw [uncompressNextHeader]
  split
  · exact (Within.refl ..).put (by decide)
  · exact .refl ..

theorem uncompressHopLimit_within (iphc0 : UInt8) (d : Dec) :
    Within 7 8 d.buf (uncompressHopLimit data iphc0 d).buf := by
  rw [uncompressHopLimit]
  split
  · exact (Within.refl ..).put (by decide)
  · exact (Within.refl ..).put (by decide)

/-- An address is written within its sixteen bytes, if the counts are within sixteen. -/
theorem uncompressAddr_within (a : Nat) (pre : Nat → UInt8) {prefPostCount : Nat}
    (lladdr : LinkAddr) (d : Dec) (h : nibble (prefPostCount / 16) + nibble (prefPostCount % 16) ≤ 16) :
    Within a (a + 16) d.buf (uncompressAddr data a pre prefPostCount lladdr d).buf := by
  rw [uncompressAddr]
  generalize nibble (prefPostCount / 16) = c at h
  generalize nibble (prefPostCount % 16) = n at h
  have hpre : Within a (a + 16) d.buf (if 0 < c then d.buf.copy a c pre else d.buf) := by
    split
    · exact (Within.refl ..).copy (by omega)
    · exact .refl ..
  generalize (if 0 < c then d.buf.copy a c pre else d.buf) = b1 at hpre
  have hfill : Within a (a + 16) d.buf
      (if c + n < 16 then b1.copy (a + c) (16 - (c + n) : Nat) fun _ => 0 else b1) := by
    split
    · exact hpre.copy (by omega)
    · exact hpre
  generalize (if c + n < 16 then b1.copy (a + c) (16 - (c + n) : Nat) fun _ => 0 else b1) = b2
    at hfill
  split
  · have hpost : Within a (a + 16) d.buf (b2.copy (a + (16 - n)) n (dataFrom data d.ptr)) := hfill.copy (by omega)
    split
    · exact (hpost.put (by omega)).put (by omega)
    · exact hpost
  · split
    · exact (hfill.copy (by omega)).put (by omega)
    · exact hfill

end

theorem counts_le (mode : UInt8) :
    nibble (uncLlconf mode / 16) + nibble (uncLlconf mode % 16) ≤ 16 ∧
    nibble (uncCtxconf mode / 16) + nibble (uncCtxconf mode % 16) ≤ 16 ∧
    nibble (uncMxconf mode / 16) + nibble (uncMxconf mode % 16) ≤ 16 := by
  rw [uncLlconf, uncCtxconf, uncMxconf]
  rcases mode.toNat with _ | _ | _ | _ | n
  · decide
  · decide
  · decide
  · decide
  · simp [nibble]

theorem uncompressSource_within {t : AddrContexts} {sender : LinkAddr} {data : Nat → UInt8} {iphc1 cids : UInt8} {d d'
    : Dec} (h : uncompressSource t sender data iphc1 cids d = some d') : Within 8 24 d.buf d'.buf := by
  rw [uncompressSource] at h
  split at h
  · dsimp only at h
    split at h
    · obtain ⟨c, -, rfl⟩ := map_eq_some_iff.mp h
      exact uncompressAddr_within data 8 _ sender d (counts_le _).2.1
    · cases h
      exact uncompressAddr_within data 8 _ sender d (counts_le _).2.1
  · cases h
    exact uncompressAddr_within data 8 _ sender d (counts_le _).1

theorem uncompressDest_within {t : AddrContexts} {receiver : LinkAddr} {data : Nat → UInt8} {iphc1 cids : UInt8} {d d'
    : Dec} (h : uncompressDest t receiver data iphc1 cids d = some d') : Within 24 40 d.buf d'.buf := by
  rw [uncompressDest] at h
  split at h
  · split at h
    · cases h
      exact .refl ..
    · split at h
      · cases h
        exact uncompressAddr_within data 24 _ receiver ⟨d.buf, d.ptr + 1⟩ (counts_le _).2.2
      · cases h
        exact uncompressAddr_within data 24 _ receiver d (counts_le _).2.2
  · split at h
    · obtain ⟨c, -, rfl⟩ := map_eq_some_iff.mp h
      exact uncompressAddr_within data 24 _ receiver d (counts_le _).2.1
    · cases h
      exact uncompressAddr_within data 24 _ receiver d (counts_le _).1

theorem uncompressPorts_within (data : Nat → UInt8) (mode : UInt8) (d : Dec) :
    Within 40 44 d.buf (uncompressPorts data mode d).buf := by
  have hrefl := Within.refl 40 44 d.buf
  rw [uncompressPorts]
  split
  · exact (hrefl.copy (by decide)).copy (by decide)
  · split
    · exact ((hrefl.copy (by decide)).put (by decide)).put (by decide)
    · split
      · exact ((hrefl.put (by decide)).put (by decide)).copy (by decide)
      · exact (((hrefl.put (by decide)).put (by decide)).put (by decide)).put (by decide)

theorem uncompressUdp_within (data : Nat → UInt8) (iphc0 : UInt8) (d : Dec) :
    Within 6 48 d.buf (uncompressUdp data iphc0 d).1.buf := by
  rw [uncompressUdp]
  split
  · have hproto : Within 6 48 d.buf (d.buf.put 6 protoUdp) := (Within.refl ..).put (by decide)
    have hports := hproto.trans ((uncompressPorts_within data (data d.ptr &&& 3)
      ⟨d.buf.put 6 protoUdp, d.ptr⟩).mono (by decide) (by decide))
    split
    · exact hports.copy (by decide)
    · exact hports
  · exact .refl ..

theorem writeLengths_within (len : Int) (buf : Region) : Within 4 46 buf (writeLengths len buf) := by
  have hlen : Within 4 46 buf (buf.copy 4 2 (lenBytes len)) := (Within.refl ..).copy (by decide)
  rw [writeLengths]
  split
  · exact hlen.copy (by decide)
  · exact hlen

/-- THE DECODER'S WRITES. Whatever the packet holds, the decoder writes within the two headers. -/
theorem uncompressHdrIphc_within (t : AddrContexts) (sender receiver : LinkAddr)
    (data : Nat → UInt8) (datalen hdrLen ipLen : Nat) (buf : Region) :
    Within 0 48 buf (uncompressHdrIphc t sender receiver data datalen hdrLen ipLen buf).buf := by
  rw [uncompressHdrIphc]
  generalize hd : (⟨buf, _⟩ : Dec) = d0
  have hfixed : Within 0 48 d0.buf (uncompressHopLimit data (data hdrLen)
      (uncompressNextHeader data (data hdrLen) (uncompressTraffic data (data hdrLen) d0))).buf :=
    (((uncompressTraffic_within _ _ _).mono (by decide) (by decide)).trans
      ((uncompressNextHeader_within _ _ _).mono (by decide) (by decide))).trans
      ((uncompressHopLimit_within _ _ _).mono (by decide) (by decide))
  rw [show buf = d0.buf by rw [← hd]]
  generalize uncompressHopLimit data (data hdrLen) (uncompressNextHeader data (data hdrLen)
    (uncompressTraffic data (data hdrLen) d0)) = d1 at hfixed
  split
  · exact hfixed
  next d2 h2 =>
    have hsource := hfixed.trans ((uncompressSource_within h2).mono (by decide) (by decide))
    split
    · exact hsource
    next d3 h3 =>
      have hdest := hsource.trans ((uncompressDest_within h3).mono (by decide) (by decide))
      exact (hdest.trans ((uncompressUdp_within _ _ _).mono (by decide) (by decide))).trans
        ((writeLengths_within _ _).mono (by decide) (by decide))

/-! ### Where the decoder reads

    Where it reads, and so the lengths it finds, does not depend on what the buffer holds. -/

section

variable {d d' : Dec}

section
variable (data : Nat → UInt8)
include data

theorem uncompressTraffic_ptr (iphc0 : UInt8) (h : d.ptr = d'.ptr) :
    (uncompressTraffic data iphc0 d).ptr = (uncompressTraffic data iphc0 d').ptr := by
  rw [uncompressTraffic, uncompressTraffic, h]
  split
  · split
    · rfl
    · rfl
  · split
    · rfl
    · rfl

theorem uncompressNextHeader_ptr (iphc0 : UInt8) (h : d.ptr = d'.ptr) :
    (uncompressNextHeader data iphc0 d).ptr = (uncompressNextHeader data iphc0 d').ptr := by
  rw [uncompressNextHeader, uncompressNextHeader, h]
  split
  · rfl
  · exact h

theorem uncompressHopLimit_ptr (iphc0 : UInt8) (h : d.ptr = d'.ptr) :
    (uncompressHopLimit data iphc0 d).ptr = (uncompressHopLimit data iphc0 d').ptr := by
  rw [uncompressHopLimit, uncompressHopLimit, h]
  split
  · rfl
  · rfl

theorem uncompressAddr_ptr (a : Nat) (pre : Nat → UInt8) (prefPostCount : Nat)
    (lladdr : LinkAddr) (h : d.ptr = d'.ptr) :
    (uncompressAddr data a pre prefPostCount lladdr d).ptr =
      (uncompressAddr data a pre prefPostCount lladdr d').ptr := by
  rw [uncompressAddr, uncompressAddr, h]
  split
  · rfl
  · split
    · rfl
    · rfl

end

theorem uncompressSource_ptr (t : AddrContexts) (sender : LinkAddr) (data : Nat → UInt8) (iphc1 cids : UInt8)
    (h : d.ptr = d'.ptr) :
    (uncompressSource t sender data iphc1 cids d).map Dec.ptr =
      (uncompressSource t sender data iphc1 cids d').map Dec.ptr := by
  rw [uncompressSource, uncompressSource]
  dsimp only
  split
  · split
    · rw [map_map, map_map]
      exact congrArg (Option.map · _) (funext fun _ => uncompressAddr_ptr _ _ _ _ _ h)
    · exact congrArg some (uncompressAddr_ptr _ _ _ _ _ h)
  · exact congrArg some (uncompressAddr_ptr _ _ _ _ _ h)

theorem uncompressDest_ptr (t : AddrContexts) (receiver : LinkAddr) (data : Nat → UInt8) (iphc1 cids : UInt8)
    (h : d.ptr = d'.ptr) :
    (uncompressDest t receiver data iphc1 cids d).map Dec.ptr =
      (uncompressDest t receiver data iphc1 cids d').map Dec.ptr := by
  rw [uncompressDest, uncompressDest, h]
  split
  · split
    · exact congrArg some h
    · split
      · exact congrArg some (uncompressAddr_ptr _ _ _ _ _ rfl)
      · exact congrArg some (uncompressAddr_ptr _ _ _ _ _ h)
  · split
    · rw [map_map, map_map]
      exact congrArg (Option.map · _) (funext fun _ => uncompressAddr_ptr _ _ _ _ _ h)
    · exact congrArg some (uncompressAddr_ptr _ _ _ _ _ h)

theorem uncompressPorts_ptr (data : Nat → UInt8) (mode : UInt8) (h : d.ptr = d'.ptr) :
    (uncompressPorts data mode d).ptr = (uncompressPorts data mode d').ptr := by
  rw [uncompressPorts, uncompressPorts, h]
  split
  · rfl
  · split
    · rfl
    · split
      · rfl
      · rfl

theorem uncompressUdp_ptr (data : Nat → UInt8) (iphc0 : UInt8) (h : d.ptr = d'.ptr) :
    (uncompressUdp data iphc0 d).1.ptr = (uncompressUdp data iphc0 d').1.ptr ∧
      (uncompressUdp data iphc0 d).2 = (uncompressUdp data iphc0 d').2 := by
  rw [uncompressUdp, uncompressUdp, h]
  split
  · have hports : (uncompressPorts data (data d'.ptr &&& 3) ⟨d.buf.put 6 protoUdp, d'.ptr⟩).ptr =
        (uncompressPorts data (data d'.ptr &&& 3) ⟨d'.buf.put 6 protoUdp, d'.ptr⟩).ptr :=
      uncompressPorts_ptr data _ rfl
    split
    · exact ⟨congrArg (· + 2) hports, rfl⟩
    · exact ⟨hports, rfl⟩
  · exact ⟨h, rfl⟩

end

/-- The lengths of the headers, whatever the buffer. -/
theorem uncompressHdrIphc_lens (t : AddrContexts) (sender receiver : LinkAddr) (data : Nat → UInt8)
    (datalen hdrLen ipLen : Nat) (buf buf' : Region) :
    let r := uncompressHdrIphc t sender receiver data datalen hdrLen ipLen buf
    let r' := uncompressHdrIphc t sender receiver data datalen hdrLen ipLen buf'
    r.hdrLen = r'.hdrLen ∧ r.uncompHdrLen = r'.uncompHdrLen := by
  rw [uncompressHdrIphc, uncompressHdrIphc]
  generalize hd : (⟨buf, _⟩ : Dec) = d
  generalize hd' : (⟨buf', _⟩ : Dec) = d'
  have hptr : d.ptr = d'.ptr := by rw [← hd, ← hd']
  have hfixed := uncompressHopLimit_ptr data (data hdrLen)
    (uncompressNextHeader_ptr data (data hdrLen) (uncompressTraffic_ptr data (data hdrLen) hptr))
  have hsource := uncompressSource_ptr t sender data (data (hdrLen + 1)) (data (hdrLen + 2)) hfixed
  revert hsource
  rcases uncompressSource t sender data (data (hdrLen + 1)) (data (hdrLen + 2)) _ with _ | d1
  · rcases uncompressSource t sender data (data (hdrLen + 1)) (data (hdrLen + 2)) _ with _ | d1'
    · exact fun _ => ⟨rfl, rfl⟩
    · exact nofun
  · rcases uncompressSource t sender data (data (hdrLen + 1)) (data (hdrLen + 2)) _ with _ | d1'
    · exact nofun
    · intro hsource
      have hdest := uncompressDest_ptr t receiver data (data (hdrLen + 1)) (data (hdrLen + 2))
        (some.inj hsource)
      revert hdest
      dsimp only
      rcases uncompressDest t receiver data (data (hdrLen + 1)) (data (hdrLen + 2)) d1 with _ | d2
      · rcases uncompressDest t receiver data (data (hdrLen + 1)) (data (hdrLen + 2)) d1' with _ | d2'
        · exact fun _ => ⟨rfl, rfl⟩
        · exact nofun
      · rcases uncompressDest t receiver data (data (hdrLen + 1)) (data (hdrLen + 2)) d1' with _ | d2'
        · exact nofun
        · intro hdest
          obtain ⟨hend, hlen⟩ := uncompressUdp_ptr data (data hdrLen) (some.inj hdest)
          exact ⟨congrArg (· % 256) hend, hlen⟩

end Sicslowpan

end CSync
