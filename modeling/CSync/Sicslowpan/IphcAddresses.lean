import CSync.Sicslowpan.IphcWrites

/-! Addresses under IPHC.

    Both ends have the contexts and the link-layer addresses. An address is a prefix, inline bytes and what is filled
    in between (`expand`); for every mode of the encoder this is the address again, but for one: the bytes behind a
    link-local source prefix are elided by a look at the destination, and filled with zeros. -/

namespace CSync

open Lib Region List

namespace Sicslowpan

/-! ### Addresses -/

variable {ip data : Nat → UInt8} {a : Nat} {lladdr : LinkAddr} {t : AddrContexts} {iphc1 : UInt8}

theorem zeros_iff {lo hi : Nat} : zeros ip a lo hi = true ↔ ∀ i, lo ≤ i → i < hi → ip (a + i) = 0 := by
  rw [zeros, all_eq_true]
  constructor
  · intro h i hlo hhi
    have hi := h (i - lo) (mem_range.mpr (by omega))
    rw [add_assoc, Nat.add_sub_cancel' hlo] at hi
    exact beq_iff_eq.mp hi
  · intro h i hi
    have hlt := mem_range.mp hi
    rw [add_assoc, h (lo + i) (by omega) (by omega)]
    rfl

/-- The address that the counts `c` and `n` make of a prefix, of inline bytes and of an identifier. -/
def expand (c n : Nat) (pre post iid : Nat → UInt8) (i : Nat) : UInt8 :=
  if n = 0 ∧ 0 < c ∧ 8 ≤ i then iid (i - 8)
  else if i < c then pre i
  else if 16 - n ≤ i then post (i - (16 - n))
  else if n = 2 ∧ c < 11 ∧ i = 11 then 0xff
  else if n = 2 ∧ c < 11 ∧ i = 12 then 0xfe
  else 0

theorem setAddrIid_bytes (buf : Region) (a : Nat) (lladdr : LinkAddr) {i : Nat} (hi : i < 16) :
    (setAddrIid buf a lladdr).bytes (a + i) =
      if 8 ≤ i then iidOf lladdr (i - 8) else buf.bytes (a + i) := by
  rw [setAddrIid, iidOf]
  by_cases h8 : 8 ≤ i
  · rw [if_pos h8]
    obtain ⟨j, rfl⟩ := Nat.exists_eq_add_of_le h8
    rw [Nat.add_sub_cancel_left]
    cases j with
    | zero =>
      rw [if_pos rfl, add_zero, put_same]
      rw [show a + 8 = a + 8 + 0 from rfl, copy_inside _ _ (by decide)]
    | succ j =>
      rw [if_neg (by omega), put_other _ _ (by omega), ← add_assoc, copy_inside _ _ (by omega)]
  · rw [if_neg h8, put_other _ _ (by omega), copy_outside _ _ (by omega)]

theorem uncompressAddr_bytes (data : Nat → UInt8) (a : Nat) (pre : Nat → UInt8) {prefPostCount : Nat}
    (lladdr : LinkAddr) (d : Dec) (h : nibble (prefPostCount / 16) + nibble (prefPostCount % 16) ≤ 16) :
    (uncompressAddr data a pre prefPostCount lladdr d).ptr = d.ptr + nibble (prefPostCount % 16) ∧
    ∀ i < 16,
      (uncompressAddr data a pre prefPostCount lladdr d).buf.bytes (a + i) =
        expand (nibble (prefPostCount / 16)) (nibble (prefPostCount % 16)) pre (dataFrom data d.ptr) (iidOf lladdr)
          i := by
  rw [uncompressAddr]
  generalize nibble (prefPostCount / 16) = c at h
  generalize nibble (prefPostCount % 16) = n at h
  dsimp only
  have hpre : ∀ i < 16, i < c → (if 0 < c then d.buf.copy a c pre else d.buf).bytes (a + i) = pre i := by
    intro i hi hc
    rw [if_pos (by omega), copy_inside _ _ (by omega)]
  generalize (if 0 < c then d.buf.copy a c pre else d.buf) = b1 at hpre
  have hfill : ∀ i < 16, i < 16 - n →
      (if c + n < 16 then b1.copy (a + c) (16 - (c + n) : Nat) fun _ => 0 else b1).bytes (a + i) =
        if i < c then pre i else 0 := by
    intro i hi hn
    split
    · split
      · rw [copy_outside _ _ (by omega)]
        exact hpre i hi (by assumption)
      · obtain ⟨j, rfl⟩ := Nat.exists_eq_add_of_le (show c ≤ i by omega)
        rw [← add_assoc, copy_inside _ _ (by omega)]
    · rw [if_pos (by omega)]
      exact hpre i hi (by omega)
  generalize (if c + n < 16 then b1.copy (a + c) (16 - (c + n) : Nat) fun _ => 0 else b1) = b2
    at hfill
  unfold expand
  split
  next hpost =>
    refine ⟨rfl, fun i hi => ?_⟩
    have hcopied : (b2.copy (a + (16 - n)) n (dataFrom data d.ptr)).bytes (a + i) =
        if 16 - n ≤ i then dataFrom data d.ptr (i - (16 - n)) else if i < c then pre i else 0 := by
      split
      next hle =>
        obtain ⟨j, rfl⟩ := Nat.exists_eq_add_of_le hle
        rw [← add_assoc, copy_inside _ _ (by omega), Nat.add_sub_cancel_left]
      · rw [copy_outside _ _ (by omega)]
        exact hfill i hi (by omega)
    by_cases hspecial : n = 2 ∧ c < 11
    · rw [if_pos hspecial]
      by_cases h12 : i = 12
      · rw [h12, put_same]
        grind
      · rw [put_other _ _ (by omega)]
        by_cases h11 : i = 11
        · rw [h11, put_same]
          grind
        · rw [put_other _ _ (by omega), hcopied]
          grind
    · rw [if_neg hspecial, hcopied]
      grind
  next hpost =>
    have hn : n = 0 := by omega
    split
    next hc =>
      refine ⟨by rw [hn]; rfl, fun i hi => ?_⟩
      rw [setAddrIid_bytes b2 a lladdr hi]
      grind
    next hc =>
      refine ⟨by rw [hn]; rfl, fun i hi => ?_⟩
      grind

/-- The mode of an interface identifier: elided, sixteen bits or all of it. -/
def iidMode (ip : Nat → UInt8) (a : Nat) (lladdr : LinkAddr) : UInt8 :=
  if isAddrMacAddrBased ip a lladdr then 3 else if isIid16BitCompressable ip a then 2 else 1

def iidCount (mode : UInt8) : Nat := if mode = 1 then 8 else if mode = 2 then 2 else 0

theorem iidMode_cases (ip : Nat → UInt8) (a : Nat) (lladdr : LinkAddr) :
    iidMode ip a lladdr = 3 ∨ iidMode ip a lladdr = 2 ∨ iidMode ip a lladdr = 1 := by
  rw [iidMode]
  split
  · exact .inl rfl
  · split
    · exact .inr (.inl rfl)
    · exact .inr (.inr rfl)

theorem compressAddr64_flags (bitpos : UInt8) (ip : Nat → UInt8) (a : Nat) (lladdr : LinkAddr) :
    (compressAddr64 bitpos ip a lladdr).flags = iidMode ip a lladdr <<< bitpos := by
  rw [compressAddr64, iidMode]
  split
  · rfl
  · split <;> rfl

/-- The interface identifier comes back, and what is before it is the prefix. -/
theorem expand_compressAddr64 {o : Nat} (bitpos : UInt8) {c : Nat} (pre : Nat → UInt8) (hc : c ≤ 8) (hpos : 0 < c)
    (h : Holds data o (compressAddr64 bitpos ip a lladdr).bytes) :
    (compressAddr64 bitpos ip a lladdr).bytes.length = iidCount (iidMode ip a lladdr) ∧
      ∀ i < 16, expand c (iidCount (iidMode ip a lladdr)) pre (dataFrom data o) (iidOf lladdr) i =
        if 8 ≤ i then ip (a + i) else if i < c then pre i else 0 := by
  rw [compressAddr64] at h ⊢
  rw [iidMode]
  split at h
  next hmac =>
    rw [if_pos hmac, if_pos hmac]
    rw [isAddrMacAddrBased, all_eq_true] at hmac
    refine ⟨rfl, fun i hi => ?_⟩
    rw [show iidCount 3 = 0 from rfl, expand]
    by_cases h8 : 8 ≤ i
    · rw [if_pos ⟨rfl, hpos, h8⟩, if_pos h8]
      have hbyte := beq_iff_eq.mp (hmac (i - 8) (mem_range.mpr (by omega)))
      rw [← hbyte, add_assoc, Nat.add_sub_cancel' h8]
    · grind
  next hmac =>
    rw [if_neg hmac, if_neg hmac]
    split at h
    next h16 =>
      rw [if_pos h16, if_pos h16]
      rw [isIid16BitCompressable, Bool.and_eq_true, Bool.and_eq_true, Bool.and_eq_true, zeros_iff] at h16
      obtain ⟨⟨⟨hzero, hff⟩, hfe⟩, h13⟩ := h16
      have hread := holds_slice h
      refine ⟨rfl, fun i hi => ?_⟩
      rw [show iidCount 2 = 2 from rfl, expand, if_neg (by omega)]
      by_cases h14 : 14 ≤ i
      · rw [if_neg (by omega), if_pos (by omega), if_pos (by omega), dataFrom, hread _ (by omega)]
        congr 1
        omega
      · by_cases h8 : 8 ≤ i
        · rw [if_neg (by omega), if_neg (by omega), if_pos h8]
          have hcases : i = 11 ∨ i = 12 ∨ i = 13 ∨ i < 11 := by omega
          rcases hcases with rfl | rfl | rfl | hlow
          · rw [if_pos ⟨rfl, by omega, rfl⟩, beq_iff_eq.mp hff]
          · rw [if_neg (by omega), if_pos ⟨rfl, by omega, rfl⟩, beq_iff_eq.mp hfe]
          · rw [if_neg (by omega), if_neg (by omega), beq_iff_eq.mp h13]
          · rw [if_neg (by omega), if_neg (by omega), hzero i h8 hlow]
        · grind
    next h16 =>
      rw [if_neg h16, if_neg h16]
      have hread := holds_slice h
      refine ⟨rfl, fun i hi => ?_⟩
      rw [show iidCount 1 = 8 from rfl, expand, if_neg (by omega)]
      by_cases h8 : 8 ≤ i
      · rw [if_neg (by omega), if_pos (by omega), if_pos h8, dataFrom, hread _ (by omega)]
        congr 1
        omega
      · grind

theorem prefixcmp_iff {pre : LinkAddr} : prefixcmp pre ip a = true ↔ ∀ i < 8, pre.u8 i = ip (a + i) := by
  rw [prefixcmp, all_eq_true]
  constructor
  · exact fun h i hi => beq_iff_eq.mp (h i (mem_range.mpr hi))
  · exact fun h i hi => beq_iff_eq.mpr (h i (mem_range.mp hi))

variable {c : AddrContext}

theorem lookup_number_of_prefix (h : addrContextLookupByPrefix t ip a = some c) :
    addrContextLookupByNumber t c.number = some c ∧ c.number.toNat < 16 ∧ ∀ i < 8, c.pre.u8 i = ip (a + i) := by
  have hmem := mem_of_find?_eq_some h
  have hsome := find?_some h
  rw [Bool.and_eq_true, beq_iff_eq, prefixcmp_iff] at hsome
  obtain ⟨i, hi⟩ := mem_iff_getElem?.mp hmem
  obtain ⟨hnum, hlt⟩ := t.numbered i c hi hsome.1
  refine ⟨?_, by omega, hsome.2⟩
  have hexists : ∃ c', addrContextLookupByNumber t c.number = some c' := by
    rw [← Option.isSome_iff_exists, addrContextLookupByNumber, find?_isSome]
    exact ⟨c, hmem, by rw [Bool.and_eq_true]; exact ⟨beq_iff_eq.mpr hsome.1, beq_iff_eq.mpr rfl⟩⟩
  obtain ⟨c', hc'⟩ := hexists
  have hsome' := find?_some hc'
  rw [Bool.and_eq_true, beq_iff_eq, beq_iff_eq] at hsome'
  obtain ⟨j, hj⟩ := mem_iff_getElem?.mp (mem_of_find?_eq_some hc')
  obtain ⟨hnum', -⟩ := t.numbered j c' hj hsome'.1
  -- the number is the index, so that both are at the same place
  rw [hsome'.2, hnum] at hnum'
  rw [← hnum', hi] at hj
  rw [hc', Option.some.inj hj]

theorem iidMode_counts (ip : Nat → UInt8) (a : Nat) (lladdr : LinkAddr) :
    let m := iidMode ip a lladdr
    nibble (uncLlconf m / 16) = 2 ∧ nibble (uncLlconf m % 16) = iidCount m ∧
      nibble (uncCtxconf m / 16) = 8 ∧ nibble (uncCtxconf m % 16) = iidCount m := by
  rcases iidMode_cases ip a lladdr with h | h | h <;> rw [h] <;> decide

section

variable {data ip : Nat → UInt8} {a : Nat} {lladdr : LinkAddr} {d : Dec} {bitpos : UInt8}

theorem uncompressAddr_context (pre : Nat → UInt8) (h : Holds data d.ptr (compressAddr64 bitpos ip a lladdr).bytes)
    (hpre : ∀ i < 8, pre i = ip (a + i)) :
    let d' := uncompressAddr data a pre (uncCtxconf (iidMode ip a lladdr)) lladdr d
    d'.ptr = d.ptr + (compressAddr64 bitpos ip a lladdr).bytes.length ∧
      ∀ i < 16, d'.buf.bytes (a + i) = ip (a + i) := by
  obtain ⟨-, -, hc, hn⟩ := iidMode_counts ip a lladdr
  obtain ⟨hptr, hbytes⟩ := uncompressAddr_bytes data a pre lladdr d (counts_le (iidMode ip a lladdr)).2.1
  obtain ⟨hlen, hexpand⟩ := expand_compressAddr64 bitpos pre (by decide : 8 ≤ 8) (by decide) h
  rw [hc, hn] at hbytes
  rw [hn, ← hlen] at hptr
  refine ⟨hptr, fun i hi => ?_⟩
  rw [hbytes i hi, hexpand i hi]
  by_cases h8 : 8 ≤ i
  · rw [if_pos h8]
  · rw [if_neg h8, if_pos (by omega), hpre i (by omega)]

/-- An address behind the link-local prefix: the bytes between are zero. -/
theorem uncompressAddr_linklocal (h : Holds data d.ptr (compressAddr64 bitpos ip a lladdr).bytes)
    (hll : isAddrLinklocal ip a = true) :
    let d' := uncompressAddr data a llprefix (uncLlconf (iidMode ip a lladdr)) lladdr d
    d'.ptr = d.ptr + (compressAddr64 bitpos ip a lladdr).bytes.length ∧
      ∀ i < 16, d'.buf.bytes (a + i) = if 2 ≤ i ∧ i < 8 then 0 else ip (a + i) := by
  obtain ⟨hc, hn, -⟩ := iidMode_counts ip a lladdr
  obtain ⟨hptr, hbytes⟩ := uncompressAddr_bytes data a llprefix lladdr d (counts_le (iidMode ip a lladdr)).1
  obtain ⟨hlen, hexpand⟩ := expand_compressAddr64 bitpos llprefix (by decide : 2 ≤ 8) (by decide) h
  rw [hc, hn] at hbytes
  rw [hn, ← hlen] at hptr
  refine ⟨hptr, fun i hi => ?_⟩
  rw [isAddrLinklocal, Bool.and_eq_true, beq_iff_eq, beq_iff_eq] at hll
  rw [hbytes i hi, hexpand i hi]
  by_cases h8 : 8 ≤ i
  · rw [if_pos h8, if_neg (by omega)]
  · rw [if_neg h8]
    by_cases h2 : i < 2
    · rw [if_pos h2, if_neg (by omega)]
      have hcases : i = 0 ∨ i = 1 := by omega
      rcases hcases with rfl | rfl
      · exact hll.1.symm
      · exact hll.2.symm
    · rw [if_neg h2, if_pos (by omega)]

/-- An address that stands inline. -/
theorem uncompressAddr_full (pre : Nat → UInt8) (h : Holds data d.ptr (slice ip a 16)) :
    let d' := uncompressAddr data a pre 0x0f lladdr d
    d'.ptr = d.ptr + (slice ip a 16).length ∧ ∀ i < 16, d'.buf.bytes (a + i) = ip (a + i) := by
  have hcount : nibble (0x0f / 16) + nibble (0x0f % 16) ≤ 16 := by decide
  obtain ⟨hptr, hbytes⟩ := uncompressAddr_bytes data a pre lladdr d hcount
  refine ⟨hptr.trans (by rw [length_slice]; rfl), fun i hi => (hbytes i hi).trans ?_⟩
  rw [show nibble (0x0f / 16) = 0 from rfl, show nibble (0x0f % 16) = 16 from rfl, expand,
    if_neg (by omega), if_neg (by omega), if_pos (by omega)]
  exact holds_slice h i hi

end

/-! ### Source -/

/-- The bytes behind a link-local source prefix are elided because of the destination, and not zero. -/
def Elided (t : AddrContexts) (ip : Nat → UInt8) : Prop :=
  addrContextLookupByPrefix t ip 8 = none ∧ isAddrLinklocal ip 8 = true ∧
    zeros ip 24 2 8 = true ∧ zeros ip 8 2 8 = false

theorem iidMode_sourceFlags (ip : Nat → UInt8) (a : Nat) (lladdr : LinkAddr) :
    let m := iidMode ip a lladdr
    m ≠ 0 ∧ (m <<< 4) &&& iphcSac = 0 ∧ sourceMode (m <<< 4) = m ∧
      (iphcCid ||| iphcSac ||| (m <<< 4)) &&& iphcSac ≠ 0 ∧
      sourceMode (iphcCid ||| iphcSac ||| (m <<< 4)) = m := by
  rcases iidMode_cases ip a lladdr with h | h | h <;> rw [h] <;> decide

theorem compressSource_cases (t : AddrContexts) (lladdr : LinkAddr) (ip : Nat → UInt8) :
    (isAddrUnspecified ip 8 = true ∧ compressSource t lladdr ip = (⟨iphcSac, []⟩, 0)) ∨
    (∃ c,
       isAddrUnspecified ip 8 = false ∧
       addrContextLookupByPrefix t ip 8 = some c ∧
       compressSource t lladdr ip =
         (⟨iphcCid ||| iphcSac ||| (iidMode ip 8 lladdr <<< 4), (compressAddr64 4 ip 8 lladdr).bytes⟩, c.number <<<
            4)) ∨
    (addrContextLookupByPrefix t ip 8 = none ∧
     isAddrLinklocal ip 8 = true ∧
     zeros ip 24 2 8 = true ∧
     compressSource t lladdr ip = (⟨iidMode ip 8 lladdr <<< 4, (compressAddr64 4 ip 8 lladdr).bytes⟩, 0)) ∨
    (addrContextLookupByPrefix t ip 8 = none ∧
     ¬(isAddrLinklocal ip 8 = true ∧ zeros ip 24 2 8 = true) ∧
     compressSource t lladdr ip = (⟨0, slice ip 8 16⟩, 0)) := by
  rw [compressSource, ← compressAddr64_flags]
  cases isAddrUnspecified ip 8 with
  | true => exact .inl ⟨rfl, rfl⟩
  | false =>
    refine .inr ?_
    cases addrContextLookupByPrefix t ip 8 with
    | some c => exact .inl ⟨c, rfl, rfl, rfl⟩
    | none =>
      refine .inr ?_
      by_cases hll : isAddrLinklocal ip 8 = true ∧ zeros ip 24 2 8 = true
      · refine .inl ⟨rfl, hll.1, hll.2, ?_⟩
        rw [hll.1, hll.2]
        rfl
      · refine .inr ⟨rfl, hll, ?_⟩
        rw [if_neg (by decide), if_neg (by rw [Bool.and_eq_true]; exact hll)]

section

variable (t : AddrContexts) (sender : LinkAddr) (data : Nat → UInt8) (cids : UInt8)
  {iphc1 : UInt8}

theorem uncompressSource_of_no_sac (d : Dec) (h : iphc1 &&& iphcSac = 0) : uncompressSource t sender data iphc1 cids d
    = some (uncompressAddr data 8 llprefix (uncLlconf (sourceMode iphc1)) sender d) := by
  rw [uncompressSource, if_neg (by rw [h]; decide)]

theorem uncompressSource_of_context (d : Dec) (hsac : iphc1 &&& iphcSac ≠ 0)
    (hsam : sourceMode iphc1 ≠ 0) (hcid : iphc1 &&& iphcCid ≠ 0)
    (hc : addrContextLookupByNumber t (cids >>> 4) = some c) :
    uncompressSource t sender data iphc1 cids d =
      some (uncompressAddr data 8 c.pre.u8 (uncCtxconf (sourceMode iphc1)) sender d) := by
  rw [uncompressSource, if_pos hsac]
  rw [if_pos hsam, if_pos hcid, hc]
  rfl

theorem uncompressSource_of_unspecified (d : Dec) (hsac : iphc1 &&& iphcSac ≠ 0) (hsam : sourceMode iphc1 = 0) :
    uncompressSource t sender data iphc1 cids d = some (uncompressAddr data 8 (fun _ => 0) 0x00 sender d) := by
  rw [uncompressSource, if_pos hsac]
  rw [hsam, if_neg (by decide)]
  rfl

end

theorem uncompressSource_compress {cids : UInt8} (d : Dec)
    (hsac : iphc1 &&& iphcSac = (compressSource t lladdr ip).1.flags &&& iphcSac)
    (hsam : sourceMode iphc1 = sourceMode (compressSource t lladdr ip).1.flags)
    (hcid : ∀ c, addrContextLookupByPrefix t ip 8 = some c → isAddrUnspecified ip 8 = false →
        iphc1 &&& iphcCid ≠ 0 ∧ cids >>> 4 = c.number) (h : Holds data d.ptr (compressSource t lladdr ip).1.bytes) :
    ∃ d',
      uncompressSource t lladdr data iphc1 cids d = some d' ∧
      d'.ptr = d.ptr + (compressSource t lladdr ip).1.bytes.length ∧
      ((∀ i < 16, d'.buf.bytes (8 + i) = ip (8 + i)) ↔ ¬Elided t ip) := by
  obtain ⟨hm, hsac0, hsam0, hsac1, hsam1⟩ := iidMode_sourceFlags ip 8 lladdr
  rcases compressSource_cases t lladdr ip with ⟨hun, heq⟩ | ⟨c, hun, hctx, heq⟩ |
    ⟨hctx, hll, hdest, heq⟩ | ⟨-, hll, heq⟩ <;> rw [heq] at hsac hsam h ⊢
  · have hcount : nibble (0 / 16) + nibble (0 % 16) ≤ 16 := by decide
    obtain ⟨hptr, hbytes⟩ := uncompressAddr_bytes data 8 (fun _ => 0) lladdr d hcount
    rw [isAddrUnspecified, zeros_iff] at hun
    have hdec := uncompressSource_of_unspecified t lladdr data cids d (by rw [hsac]; decide) (by rw [hsam]; decide)
    refine ⟨_, hdec, hptr, iff_of_true (fun i hi => (hbytes i hi).trans ?_) fun hel => ?_⟩
    · rw [hun i (by omega) hi]
      change expand 0 0 _ _ _ i = 0
      rw [expand, if_neg (by omega), if_neg (by omega), if_neg (by omega), if_neg (by omega), if_neg (by omega)]
    · have hbyte := hel.2.1
      rw [isAddrLinklocal, Bool.and_eq_true, beq_iff_eq] at hbyte
      rw [hun 0 (by omega) (by omega)] at hbyte
      exact absurd hbyte.1 (by decide)
  · obtain ⟨hset, hnum⟩ := hcid c hctx hun
    obtain ⟨hlookup, -, hpre⟩ := lookup_number_of_prefix hctx
    have hdec := uncompressSource_of_context t lladdr data cids d (by rw [hsac]; exact hsac1)
      (by rw [hsam, hsam1]; exact hm) hset (hnum ▸ hlookup)
    rw [hsam, hsam1] at hdec
    obtain ⟨hptr, hbytes⟩ := uncompressAddr_context c.pre.u8 h hpre
    refine ⟨_, hdec, hptr, iff_of_true hbytes fun hel => ?_⟩
    rw [hel.1] at hctx
    cases hctx
  · have hdec := uncompressSource_of_no_sac t lladdr data cids d (hsac.trans hsac0)
    rw [hsam, hsam0] at hdec
    obtain ⟨hptr, hbytes⟩ := uncompressAddr_linklocal h hll
    refine ⟨_, hdec, hptr, ?_⟩
    constructor
    · intro hall hel
      refine absurd (zeros_iff.mpr fun i hlo hhi => ?_) (Bool.eq_false_iff.mp hel.2.2.2)
      rw [← hall i (by omega), hbytes i (by omega), if_pos ⟨hlo, hhi⟩]
    · intro hel i hi
      have hzero : zeros ip 8 2 8 = true := by
        cases hz : zeros ip 8 2 8 with
        | true => rfl
        | false => exact absurd ⟨hctx, hll, hdest, hz⟩ hel
      rw [hbytes i hi]
      split
      next hmid => rw [zeros_iff.mp hzero i hmid.1 hmid.2]
      · rfl
  · have hdec := uncompressSource_of_no_sac t lladdr data cids d (hsac.trans UInt8.zero_and)
    rw [hsam.trans (show sourceMode 0 = 0 by decide), show uncLlconf 0 = 0x0f from rfl] at hdec
    obtain ⟨hptr, hbytes⟩ := uncompressAddr_full llprefix h
    exact ⟨_, hdec, hptr, iff_of_true hbytes fun hel => hll ⟨hel.2.1, hel.2.2.1⟩⟩

/-! ### Destination -/

/-- What the encoder makes of a destination address. -/
theorem compressDest_cases (t : AddrContexts) (lladdr : LinkAddr) (ip : Nat → UInt8) :
    (isAddrMcast ip 24 = true ∧ compressDest t lladdr ip = (compressMcast ip, 0)) ∨
    (∃ c,
       isAddrMcast ip 24 = false ∧
       addrContextLookupByPrefix t ip 24 = some c ∧
       compressDest t lladdr ip =
         (⟨iphcDac ||| (iidMode ip 24 lladdr <<< 0), (compressAddr64 0 ip 24 lladdr).bytes⟩, c.number)) ∨
    (addrContextLookupByPrefix t ip 24 = none ∧
     isAddrLinklocal ip 24 = true ∧
     zeros ip 24 2 8 = true ∧
     compressDest t lladdr ip = (⟨iidMode ip 24 lladdr <<< 0, (compressAddr64 0 ip 24 lladdr).bytes⟩, 0)) ∨
    (addrContextLookupByPrefix t ip 24 = none ∧ compressDest t lladdr ip = (⟨0, slice ip 24 16⟩, 0)) := by
  rw [compressDest, ← compressAddr64_flags]
  cases isAddrMcast ip 24 with
  | true => exact .inl ⟨rfl, rfl⟩
  | false =>
    refine .inr ?_
    cases addrContextLookupByPrefix t ip 24 with
    | some c => exact .inl ⟨c, rfl, rfl, rfl⟩
    | none =>
      refine .inr ?_
      by_cases hll : isAddrLinklocal ip 24 = true ∧ zeros ip 24 2 8 = true
      · refine .inl ⟨rfl, hll.1, hll.2, ?_⟩
        rw [hll.1, hll.2]
        rfl
      · refine .inr ⟨rfl, ?_⟩
        rw [if_neg (by decide), if_neg (by rw [Bool.and_eq_true]; exact hll)]

theorem iidMode_destFlags (ip : Nat → UInt8) (a : Nat) (lladdr : LinkAddr) :
    let m := iidMode ip a lladdr
    (m <<< 0) &&& iphcM = 0 ∧ (m <<< 0) &&& iphcDac = 0 ∧ (m <<< 0) &&& 3 = m ∧
      (iphcDac ||| (m <<< 0)) &&& iphcM = 0 ∧ (iphcDac ||| (m <<< 0)) &&& iphcDac ≠ 0 ∧
      (iphcDac ||| (m <<< 0)) &&& 3 = m := by
  rcases iidMode_cases ip a lladdr with h | h | h <;> rw [h] <;> decide

section

variable (t : AddrContexts) (receiver : LinkAddr) (data : Nat → UInt8)
  (cids : UInt8) {iphc1 : UInt8}

theorem uncompressDest_of_plain (d : Dec) (hm : iphc1 &&& iphcM = 0) (hdac : iphc1 &&& iphcDac = 0) : uncompressDest t
    receiver data iphc1 cids d = some (uncompressAddr data 24 llprefix (uncLlconf (iphc1 &&& 3)) receiver d) := by
  rw [uncompressDest, if_neg (by rw [hm]; decide), if_neg (by rw [hdac]; decide)]

theorem uncompressDest_of_context (d : Dec) (hm : iphc1 &&& iphcM = 0)
    (hdac : iphc1 &&& iphcDac ≠ 0) (hcid : iphc1 &&& iphcCid ≠ 0)
    (hc : addrContextLookupByNumber t (cids &&& 0x0f) = some c) :
    uncompressDest t receiver data iphc1 cids d =
      some (uncompressAddr data 24 c.pre.u8 (uncCtxconf (iphc1 &&& 3)) receiver d) := by
  rw [uncompressDest, if_neg (by rw [hm]; decide), if_pos hdac]
  dsimp only
  rw [if_pos hcid, hc]
  rfl

theorem uncompressDest_of_mcast (d : Dec) {m : UInt8} (hm : iphc1 &&& iphcM = iphcM) (hdac : iphc1 &&& iphcDac = 0)
    (hdam : iphc1 &&& 3 = m) (hmode : ¬(0 < m ∧ m < 3)) :
    uncompressDest t receiver data iphc1 cids d =
      some (uncompressAddr data 24 (fun i => [0xff, 0x02].getD i 0) (uncMxconf m) receiver d) := by
  rw [uncompressDest, if_pos (by rw [hm]; decide), if_neg (by rw [hdac]; decide), hdam, if_neg hmode]

/-- The modes in between have the second byte of the address inline before the others. -/
theorem uncompressDest_of_scope (d : Dec) {m : UInt8} (hm : iphc1 &&& iphcM = iphcM) (hdac : iphc1 &&& iphcDac = 0)
    (hdam : iphc1 &&& 3 = m) (hmode : 0 < m ∧ m < 3) :
    uncompressDest t receiver data iphc1 cids d =
      some (uncompressAddr data 24 (fun i => [0xff, data d.ptr].getD i 0) (uncMxconf m) receiver
        ⟨d.buf, d.ptr + 1⟩) := by
  rw [uncompressDest, if_pos (by rw [hm]; decide), if_neg (by rw [hdac]; decide), hdam, if_pos hmode]

end

/-- What the multicast modes make of their inline bytes. -/
theorem expand_mcast {post : Nat → UInt8} {n : Nat} (pre iid : Nat → UInt8) (h0 : pre 0 = ip 24)
    (h1 : pre 1 = ip 25) (hn : 0 < n) (hne : n ≠ 2) (hle : n ≤ 14) (hzero : ∀ i, 2 ≤ i → i < 16 - n → ip (24 + i) = 0)
    (hpost : ∀ i < n, post i = ip (24 + (16 - n) + i)) : ∀ i < 16, expand 2 n pre post iid i = ip (24 + i) := by
  intro i hi
  rw [expand, if_neg (by omega)]
  by_cases h2 : i < 2
  · rw [if_pos h2]
    have hcases : i = 0 ∨ i = 1 := by omega
    rcases hcases with rfl | rfl
    · exact h0
    · exact h1
  · rw [if_neg h2]
    by_cases hin : 16 - n ≤ i
    · rw [if_pos hin, hpost _ (by omega)]
      congr 1
      omega
    · rw [if_neg hin, if_neg (by omega), if_neg (by omega), hzero i (by omega) (by omega)]

/-- The modes that have the second byte and the last `n` inline. -/
theorem uncompressDest_scope {receiver : LinkAddr} {m : UInt8} {n : Nat} (cids : UInt8) (d : Dec) (hff : ip 24 = 0xff)
    (hm : iphc1 &&& iphcM = iphcM) (hdac : iphc1 &&& iphcDac = 0) (hdam : iphc1 &&& 3 = m) (hmode : 0 < m ∧ m < 3)
    (hc : nibble (uncMxconf m / 16) = 2) (hn : nibble (uncMxconf m % 16) = n) (hcount : 2 < n ∧ n ≤ 14)
    (hzero : zeros ip 24 2 (16 - n) = true) (h : Holds data d.ptr (ip 25 :: slice ip (24 + (16 - n)) n)) :
    ∃ d',
      uncompressDest t receiver data iphc1 cids d = some d' ∧
      d'.ptr = d.ptr + (ip 25 :: slice ip (24 + (16 - n)) n).length ∧
      ∀ i < 16, d'.buf.bytes (24 + i) = ip (24 + i) := by
  rw [holds_cons] at h
  obtain ⟨hptr, hbytes⟩ := uncompressAddr_bytes data 24 (fun i => [0xff, data d.ptr].getD i 0)
    receiver ⟨d.buf, d.ptr + 1⟩ (counts_le m).2.2
  rw [hc, hn] at hbytes
  refine ⟨_, uncompressDest_of_scope t receiver data cids d hm hdac hdam hmode, ?_, ?_⟩
  · rw [hptr, length_cons, length_slice]
    dsimp only
    omega
  · intro i hi
    rw [hbytes i hi]
    exact expand_mcast _ _ hff.symm h.1 (by omega) (by omega) hcount.2 (zeros_iff.mp hzero) (holds_slice h.2) i hi

/-- A multicast address comes back. -/
theorem uncompressDest_mcast {receiver : LinkAddr} (cids : UInt8) (d : Dec) (hmc : isAddrMcast ip 24 = true)
    (hm : iphc1 &&& iphcM = (compressMcast ip).flags &&& iphcM)
    (hdac : iphc1 &&& iphcDac = (compressMcast ip).flags &&& iphcDac)
    (hdam : iphc1 &&& 3 = (compressMcast ip).flags &&& 3) (h : Holds data d.ptr (compressMcast ip).bytes) :
    ∃ d',
      uncompressDest t receiver data iphc1 cids d = some d' ∧
      d'.ptr = d.ptr + (compressMcast ip).bytes.length ∧
      ∀ i < 16, d'.buf.bytes (24 + i) = ip (24 + i) := by
  have hff : ip 24 = 0xff := beq_iff_eq.mp hmc
  unfold compressMcast at hm hdac hdam h ⊢
  split at h
  next h8 =>
    rw [if_pos h8] at hm hdac hdam ⊢
    rw [isMcastAddrCompressable8, Bool.and_eq_true, beq_iff_eq, zeros_iff] at h8
    have hdec := uncompressDest_of_mcast t receiver data cids d (m := 3)
      (hm.trans (show (iphcM ||| 3) &&& iphcM = iphcM by decide))
      (hdac.trans (show (iphcM ||| 3) &&& iphcDac = 0 by decide))
      (hdam.trans (show (iphcM ||| 3) &&& 3 = 3 by decide)) (by decide)
    obtain ⟨hptr, hbytes⟩ := uncompressAddr_bytes data 24 (fun i => [0xff, 0x02].getD i 0) receiver d
      (counts_le 3).2.2
    refine ⟨_, hdec, hptr, fun i hi => (hbytes i hi).trans ?_⟩
    refine expand_mcast _ _ hff.symm h8.1.symm (by decide) (by decide) (by decide) h8.2 ?_ i hi
    intro i hi
    rw [Nat.lt_one_iff.mp hi]
    exact (holds_cons.mp h).1
  next h8 =>
    rw [if_neg h8] at hm hdac hdam ⊢
    split at h
    next h32 =>
      rw [if_pos h32] at hm hdac hdam ⊢
      exact uncompressDest_scope cids d hff (hm.trans (show (iphcM ||| 2) &&& iphcM = iphcM by decide))
        (hdac.trans (show (iphcM ||| 2) &&& iphcDac = 0 by decide))
        (hdam.trans (show (iphcM ||| 2) &&& 3 = 2 by decide)) (by decide) rfl rfl (by decide) h32 h
    next h32 =>
      rw [if_neg h32] at hm hdac hdam ⊢
      split at h
      next h48 =>
        rw [if_pos h48] at hm hdac hdam ⊢
        exact uncompressDest_scope cids d hff (hm.trans (show (iphcM ||| 1) &&& iphcM = iphcM by decide))
          (hdac.trans (show (iphcM ||| 1) &&& iphcDac = 0 by decide))
          (hdam.trans (show (iphcM ||| 1) &&& 3 = 1 by decide)) (by decide) rfl rfl (by decide) h48 h
      next h48 =>
        rw [if_neg h48] at hm hdac hdam ⊢
        have hdec := uncompressDest_of_mcast t receiver data cids d (m := 0)
          (hm.trans (show iphcM &&& iphcM = iphcM by decide))
          (hdac.trans (show iphcM &&& iphcDac = 0 by decide))
          (hdam.trans (show iphcM &&& 3 = 0 by decide)) (by decide)
        obtain ⟨hptr, hbytes⟩ := uncompressAddr_full (fun i => [0xff, 0x02].getD i 0) h
        exact ⟨_, hdec, hptr, hbytes⟩

/-- The address that the destination section writes is the destination. -/
theorem uncompressDest_compress {cids : UInt8} (d : Dec)
    (hm : iphc1 &&& iphcM = (compressDest t lladdr ip).1.flags &&& iphcM)
    (hdac : iphc1 &&& iphcDac = (compressDest t lladdr ip).1.flags &&& iphcDac)
    (hdam : iphc1 &&& 3 = (compressDest t lladdr ip).1.flags &&& 3)
    (hcid : ∀ c, addrContextLookupByPrefix t ip 24 = some c → isAddrMcast ip 24 = false →
        iphc1 &&& iphcCid ≠ 0 ∧ cids &&& 0x0f = c.number) (h : Holds data d.ptr (compressDest t lladdr ip).1.bytes) :
    ∃ d',
      uncompressDest t lladdr data iphc1 cids d = some d' ∧
      d'.ptr = d.ptr + (compressDest t lladdr ip).1.bytes.length ∧
      ∀ i < 16, d'.buf.bytes (24 + i) = ip (24 + i) := by
  obtain ⟨hm0, hdac0, hdam0, hm1, hdac1, hdam1⟩ := iidMode_destFlags ip 24 lladdr
  rcases compressDest_cases t lladdr ip with ⟨hmc, heq⟩ | ⟨c, hmc, hctx, heq⟩ |
    ⟨-, hll, hzero, heq⟩ | ⟨-, heq⟩ <;> rw [heq] at hm hdac hdam h ⊢
  · exact uncompressDest_mcast cids d hmc hm hdac hdam h
  · obtain ⟨hset, hnum⟩ := hcid c hctx hmc
    obtain ⟨hlookup, -, hpre⟩ := lookup_number_of_prefix hctx
    have hdec := uncompressDest_of_context t lladdr data cids d (hm.trans hm1)
      (by rw [hdac]; exact hdac1) hset (hnum ▸ hlookup)
    rw [hdam, hdam1] at hdec
    obtain ⟨hptr, hbytes⟩ := uncompressAddr_context c.pre.u8 h hpre
    exact ⟨_, hdec, hptr, hbytes⟩
  · have hdec := uncompressDest_of_plain t lladdr data cids d (hm.trans hm0) (hdac.trans hdac0)
    rw [hdam, hdam0] at hdec
    obtain ⟨hptr, hbytes⟩ := uncompressAddr_linklocal h hll
    refine ⟨_, hdec, hptr, fun i hi => (hbytes i hi).trans ?_⟩
    split
    next hmid => exact (zeros_iff.mp hzero i hmid.1 hmid.2).symm
    · rfl
  · have hdec := uncompressDest_of_plain t lladdr data cids d (hm.trans UInt8.zero_and) (hdac.trans UInt8.zero_and)
    rw [hdam.trans UInt8.zero_and, show uncLlconf 0 = 0x0f from rfl] at hdec
    obtain ⟨hptr, hbytes⟩ := uncompressAddr_full llprefix h
    exact ⟨_, hdec, hptr, hbytes⟩

end Sicslowpan

end CSync
