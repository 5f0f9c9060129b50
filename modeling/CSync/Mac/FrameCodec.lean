import CSync.Mac.Frame

/-! The header codec.

    The header is the frame control field, the sequence number, the two ends and the auxiliary security header, one
    behind the other. Each section has a lemma of its own: read where the encoder put it, it gives back what the
    encoder wrote and ends where the encoder ended. Two sections break this. With no address at all and the
    compression bit set, the 2012 version has a destination PAN id that is written and never read. And the suppression
    bit is read together with the size bit above it, so a five-byte frame counter is taken for a suppressed one. -/

namespace CSync

open Lib List

namespace Frame802154

/-! ### Bits -/

/-- The fields are within their widths. -/
structure Fcf.Fits (fcf : Fcf) : Prop where
  frameType : fcf.frameType < 8
  securityEnabled : fcf.securityEnabled < 2
  framePending : fcf.framePending < 2
  ackRequired : fcf.ackRequired < 2
  panidCompression : fcf.panidCompression < 2
  sequenceNumberSuppression : fcf.sequenceNumberSuppression < 2
  ieListPresent : fcf.ieListPresent < 2
  destAddrMode : fcf.destAddrMode < 4
  frameVersion : fcf.frameVersion < 4
  srcAddrMode : fcf.srcAddrMode < 4

structure Scf.Fits (scf : Scf) : Prop where
  securityLevel : scf.securityLevel < 8
  keyIdMode : scf.keyIdMode < 4
  frameCounterSuppression : scf.frameCounterSuppression < 2
  frameCounterSize : scf.frameCounterSize < 2

structure Fits (f : Frame) : Prop where
  fcf : f.fcf.Fits
  scf : f.auxHdr.securityControl.Fits

theorem low_bits : ∀ (t : Fin 8) (s p a c : Fin 2),
    let b := field (.ofNat t) 7 0 ||| field (.ofNat s) 1 3 ||| field (.ofNat p) 1 4 |||
      field (.ofNat a) 1 5 ||| field (.ofNat c) 1 6
    b &&& 7 = .ofNat t ∧ (b >>> 3) &&& 1 = .ofNat s ∧ (b >>> 4) &&& 1 = .ofNat p ∧
      (b >>> 5) &&& 1 = .ofNat a ∧ (b >>> 6) &&& 1 = .ofNat c := by
  decide

theorem high_bits : ∀ (q i : Fin 2) (d v s : Fin 4),
    let b := field (.ofNat q) 1 0 ||| field (.ofNat i) 1 1 ||| field (.ofNat d) 3 2 |||
      field (.ofNat v) 3 4 ||| field (.ofNat s) 3 6
    b &&& 1 = .ofNat q ∧ (b >>> 1) &&& 1 = .ofNat i ∧ (b >>> 2) &&& 3 = .ofNat d ∧
      (b >>> 4) &&& 3 = .ofNat v ∧ (b >>> 6) &&& 3 = .ofNat s := by
  decide

variable {data : Nat → UInt8} {fcf : Fcf} {x stale : UInt8} {p f : Frame} {o : Nat} {a : AuxHdr} {len : Int}

/-- The frame control field comes back. -/
theorem parseFcf_createFcf (hf : fcf.Fits) (h : Holds data 0 (createFcf fcf)) : parseFcf data = fcf := by
  rw [createFcf, holds_cons, holds_cons] at h
  obtain ⟨h0, h1, -⟩ := h
  obtain ⟨t, s, p, a, c, q, i, d, v, m⟩ := fcf
  obtain ⟨ht, hs, hp, ha, hc, hq, hi, hd, hv, hm⟩ := hf
  obtain ⟨t, rfl⟩ := exists_fin (n := 8) rfl ht
  obtain ⟨s, rfl⟩ := exists_fin (n := 2) rfl hs
  obtain ⟨p, rfl⟩ := exists_fin (n := 2) rfl hp
  obtain ⟨a, rfl⟩ := exists_fin (n := 2) rfl ha
  obtain ⟨c, rfl⟩ := exists_fin (n := 2) rfl hc
  obtain ⟨q, rfl⟩ := exists_fin (n := 2) rfl hq
  obtain ⟨i, rfl⟩ := exists_fin (n := 2) rfl hi
  obtain ⟨d, rfl⟩ := exists_fin (n := 4) rfl hd
  obtain ⟨v, rfl⟩ := exists_fin (n := 4) rfl hv
  obtain ⟨m, rfl⟩ := exists_fin (n := 4) rfl hm
  obtain ⟨e1, e2, e3, e4, e5⟩ := low_bits t s p a c
  obtain ⟨f1, f2, f3, f4, f5⟩ := high_bits q i d v m
  rw [parseFcf, h0, show data 1 = _ from h1]
  exact Fcf.mk.injEq .. ▸ ⟨e1, e2, e3, e4, e5, f1, f2, f3, f4, f5⟩

/-- The masks of the encoder do nothing to fields within their widths. -/
theorem and_one (h : x < 2) : x &&& 1 = x := by
  obtain ⟨t, rfl⟩ := exists_fin (n := 2) rfl h
  revert t
  decide

theorem and_three (h : x < 4) : x &&& 3 = x := by
  obtain ⟨t, rfl⟩ := exists_fin (n := 4) rfl h
  revert t
  decide

theorem readPid_pidBytes {p : Nat} {pid : UInt16} (h : Holds data p (pidBytes pid)) : readPid data p = pid := by
  rw [pidBytes, holds_cons, holds_cons] at h
  obtain ⟨h0, h1, -⟩ := h
  rw [readPid, h0, h1, ← UInt16.toNat_inj]
  have hlt := pid.toNat_lt
  simp [UInt16.toNat_add, UInt16.toNat_shiftLeft, UInt16.toNat_shiftRight, Nat.shiftLeft_eq,
    Nat.shiftRight_eq_div_pow]
  omega

theorem addrBytes_length (addr : Nat → UInt8) : ∀ n, (addrBytes addr n).length = n
  | 0 => rfl
  | n + 1 => by rw [addrBytes, length_cons, addrBytes_length addr n]

/-- The address comes back, byte by byte. -/
theorem holds_addrBytes (addr : Nat → UInt8) : ∀ (n p : Nat),
    Holds data p (addrBytes addr n) → ∀ i < n, data (p + (n - 1 - i)) = addr i
  | 0, _, _, i, hi => absurd hi (Nat.not_lt_zero i)
  | n + 1, p, h, i, hi => by
    rw [addrBytes, holds_cons] at h
    rcases Nat.lt_or_eq_of_le (Nat.lt_succ_iff.mp hi) with hlt | rfl
    · have ih := holds_addrBytes addr n (p + 1) h.2 i hlt
      rw [← ih]
      congr 1
      omega
    · simpa using h.1

section

variable (cfg : Config)

theorem readAddr_addrBytes {mode : UInt8} {p : Nat} {addr : Nat → UInt8} (old : Nat → UInt8)
    (h : Holds data p (addrBytes addr (addrLen mode))) :
    (readAddr cfg data mode p old).1 = p + addrLen mode ∧
    ∀ i < addrLen mode, (readAddr cfg data mode p old).2 i = addr i := by
  have hread := holds_addrBytes addr _ p h
  rw [readAddr]
  unfold addrLen at hread ⊢
  split at hread
  next hmode =>
    rw [if_pos hmode, if_pos hmode]
    refine ⟨rfl, fun i hi => ?_⟩
    have hi' : i = 0 ∨ i = 1 := by omega
    rcases hi' with rfl | rfl
    · exact hread 0 (by omega)
    · exact hread 1 (by omega)
  next hmode =>
    rw [if_neg hmode, if_neg hmode]
    split at hread
    next hlong =>
      rw [if_pos hlong, if_pos hlong]
      refine ⟨rfl, fun i hi => ?_⟩
      dsimp only
      rw [if_pos hi]
      exact hread i hi
    next hlong =>
      rw [if_neg hlong, if_neg hlong]
      exact ⟨rfl, fun i hi => absurd hi (Nat.not_lt_zero i)⟩

/-! ### Sections -/

/-- The bytes of the destination and of the source. -/
def destBytes (p : Frame) : List UInt8 :=
  (if hasDestPanid p.fcf then pidBytes p.destPid else []) ++
    addrBytes p.destAddr (addrLen p.fcf.destAddrMode)

def srcBytes (p : Frame) : List UInt8 :=
  (if hasSrcPanid p.fcf then pidBytes p.srcPid else []) ++
    addrBytes p.srcAddr (addrLen p.fcf.srcAddrMode)

/-- Without an address the source has no PAN id. -/
theorem hasSrcPanid_noAddr (h : fcf.srcAddrMode = 0) : hasSrcPanid fcf = false := by
  rw [hasSrcPanid, h]
  split
  · simp [noAddr, longAddrMode, shortAddrMode]
  · simp

/-- Without an address the destination has a PAN id in one case only. -/
theorem hasDestPanid_noAddr (h : fcf.destAddrMode = 0) : hasDestPanid fcf = true ↔
    fcf.frameVersion = ieee802154e2012 ∧ fcf.srcAddrMode = 0 ∧ fcf.panidCompression = 1 := by
  rw [hasDestPanid, h]
  split
  next hv => simp [noAddr, longAddrMode, shortAddrMode, hv]
  next hv => simp [hv]

/-- What a section of the decoder gives back of an end: where it ends, its PAN id and address. -/
theorem parseDest_destBytes (pf : Frame) (hfcf : pf.fcf = p.fcf) (h : Holds data o (destBytes p))
    (hpid : p.fcf.destAddrMode = 0 → hasDestPanid p.fcf = false) :
    (parseDest cfg data o pf).1 = o + (destBytes p).length ∧
    (hasDestPanid p.fcf = true → (parseDest cfg data o pf).2.destPid = p.destPid) ∧
    ∀ i < addrLen p.fcf.destAddrMode, (parseDest cfg data o pf).2.destAddr i = p.destAddr i := by
  rw [destBytes, holds_append] at h
  rw [parseDest, destBytes, length_append, addrBytes_length]
  by_cases hmode : p.fcf.destAddrMode = 0
  · rw [if_neg (by rw [hfcf]; simpa using hmode), hpid hmode, hmode]
    exact ⟨rfl, nofun, fun i hi => absurd hi (Nat.not_lt_zero i)⟩
  · rw [if_pos (by rw [hfcf]; exact hmode)]
    cases hd : hasDestPanid p.fcf with
    | true =>
      rw [hd] at h
      have haddr := readAddr_addrBytes cfg pf.destAddr h.2
      rw [hfcf, hd]
      refine ⟨?_, fun _ => readPid_pidBytes h.1, haddr.2⟩
      rw [← add_assoc]
      exact haddr.1
    | false =>
      rw [hd] at h
      have haddr := readAddr_addrBytes cfg pf.destAddr h.2
      rw [hfcf, hd]
      refine ⟨?_, nofun, haddr.2⟩
      rw [← add_assoc]
      exact haddr.1

/-- The source section leaves the destination's PAN id where the frame has one. -/
theorem parseSrc_srcBytes (pf : Frame) (hfcf : pf.fcf = p.fcf) (h : Holds data o (srcBytes p)) :
    (parseSrc cfg data o pf).1 = o + (srcBytes p).length ∧
    (hasSrcPanid p.fcf = true → (parseSrc cfg data o pf).2.srcPid = p.srcPid) ∧
    (∀ i < addrLen p.fcf.srcAddrMode, (parseSrc cfg data o pf).2.srcAddr i = p.srcAddr i) ∧
    (hasDestPanid p.fcf = true → (parseSrc cfg data o pf).2.destPid = pf.destPid) := by
  rw [srcBytes, holds_append] at h
  rw [parseSrc, srcBytes, length_append, addrBytes_length]
  by_cases hmode : p.fcf.srcAddrMode = 0
  · rw [if_neg (by rw [hfcf]; simpa using hmode), hasSrcPanid_noAddr hmode, hmode]
    exact ⟨rfl, nofun, fun i hi => absurd hi (Nat.not_lt_zero i), fun _ => rfl⟩
  · rw [if_pos (by rw [hfcf]; exact hmode)]
    cases hs : hasSrcPanid p.fcf with
    | true =>
      rw [hs] at h
      have haddr := readAddr_addrBytes cfg pf.srcAddr h.2
      rw [hfcf, hs]
      refine ⟨?_, fun _ => readPid_pidBytes h.1, haddr.2, fun hd => if_pos hd⟩
      rw [← add_assoc]
      exact haddr.1
    | false =>
      rw [hs] at h
      have haddr := readAddr_addrBytes cfg pf.srcAddr h.2
      rw [hfcf, hs]
      refine ⟨?_, nofun, haddr.2, fun _ => rfl⟩
      rw [← add_assoc]
      exact haddr.1

/-- The end sections change the ends only. -/
theorem parseDest_frame (data : Nat → UInt8) (o : Nat) (pf : Frame) : (parseDest cfg data o pf).2.fcf =
    pf.fcf ∧ (parseDest cfg data o pf).2.seq = pf.seq ∧ (parseDest cfg data o pf).2.auxHdr = pf.auxHdr := by
  rw [parseDest]
  split
  · cases hasDestPanid pf.fcf <;> exact ⟨rfl, rfl, rfl⟩
  · exact ⟨rfl, rfl, rfl⟩

theorem parseSrc_frame (data : Nat → UInt8) (o : Nat) (pf : Frame) :
    (parseSrc cfg data o pf).2.fcf = pf.fcf ∧
    (parseSrc cfg data o pf).2.seq = pf.seq ∧
    (parseSrc cfg data o pf).2.auxHdr = pf.auxHdr ∧
    (parseSrc cfg data o pf).2.destAddr = pf.destAddr := by
  rw [parseSrc]
  split
  · cases hasSrcPanid pf.fcf <;> exact ⟨rfl, rfl, rfl, rfl⟩
  · exact ⟨rfl, rfl, rfl, rfl⟩

/-! ### Auxiliary security header -/

theorem scf_bits : ∀ (l : Fin 8) (k : Fin 4) (s z : Fin 2),
    let b := UInt8.ofNat l ||| UInt8.ofNat k <<< 3 ||| UInt8.ofNat s <<< 5 ||| UInt8.ofNat z <<< 6
    b &&& 7 = .ofNat l ∧ (b >>> 3) &&& 3 = .ofNat k ∧ b >>> 5 = .ofNat s + 2 * .ofNat z ∧ b >>> 6 = .ofNat z := by
  decide

theorem scfByte_bits {scf : Scf} (hf : scf.Fits) : scfByte cfg scf &&& 7 = scf.securityLevel ∧
    (cfg.usesExplicitKeys = true → (scfByte cfg scf >>> 3) &&& 3 = scf.keyIdMode) ∧ scfByte cfg scf >>> 5 =
    scf.frameCounterSuppression + 2 * scf.frameCounterSize ∧ scfByte cfg scf >>> 6 = scf.frameCounterSize := by
  obtain ⟨l, k, s, z⟩ := scf
  obtain ⟨hl, hk, hs, hz⟩ := hf
  obtain ⟨l, rfl⟩ := exists_fin (n := 8) rfl hl
  obtain ⟨k, rfl⟩ := exists_fin (n := 4) rfl hk
  obtain ⟨s, rfl⟩ := exists_fin (n := 2) rfl hs
  obtain ⟨z, rfl⟩ := exists_fin (n := 2) rfl hz
  rw [scfByte]
  cases cfg.usesExplicitKeys with
  | true =>
    obtain ⟨e1, e2, e3, e4⟩ := scf_bits l k s z
    exact ⟨e1, fun _ => e2, e3, e4⟩
  | false =>
    obtain ⟨e1, -, e3, e4⟩ := scf_bits l 0 s z
    exact ⟨e1, nofun, e3, e4⟩

/-- The bytes of the auxiliary security header. -/
def auxBytes (cfg : Config) (aux : AuxHdr) (stale : UInt8) : List UInt8 :=
  [scfByte cfg aux.securityControl] ++ counterBytes aux stale ++ keyBytes cfg aux

/-- `b` has the fields of `a` that stand in the header. -/
structure AuxHdr.Same (cfg : Config) (a b : AuxHdr) : Prop where
  securityLevel : b.securityControl.securityLevel = a.securityControl.securityLevel
  keyIdMode : cfg.usesExplicitKeys = true → b.securityControl.keyIdMode = a.securityControl.keyIdMode
  frameCounterSuppression :
    b.securityControl.frameCounterSuppression = a.securityControl.frameCounterSuppression
  frameCounterSize : b.securityControl.frameCounterSize = a.securityControl.frameCounterSize
  frameCounter : a.securityControl.frameCounterSuppression = 0 →
    ∀ i < 4, b.frameCounter i = a.frameCounter i
  keySource : cfg.usesExplicitKeys = true → a.securityControl.keyIdMode ≠ 0 →
    ∀ i < (a.securityControl.keyIdMode.toNat - 1) * 4, b.keySource i = a.keySource i
  keyIndex : cfg.usesExplicitKeys = true → a.securityControl.keyIdMode ≠ 0 → b.keyIndex = a.keyIndex

theorem parseCounter_counterBytes (b : AuxHdr)
    (hsupp : b.securityControl.frameCounterSuppression = a.securityControl.frameCounterSuppression)
    (hsize : b.securityControl.frameCounterSize = a.securityControl.frameCounterSize)
    (h : Holds data o (counterBytes a stale)) :
    (parseCounter data o b).1 = o + (counterBytes a stale).length ∧
    (a.securityControl.frameCounterSuppression = 0 →
       ∀ i < 4, (parseCounter data o b).2.frameCounter i = a.frameCounter i) ∧
    (parseCounter data o b).2.securityControl = b.securityControl := by
  unfold counterBytes at h ⊢
  rw [parseCounter, hsupp]
  split at h
  next hzero =>
    rw [holds_append] at h
    rw [if_pos hzero, if_pos hzero]
    have hread := holds_slice h.1
    have hcounter : ∀ i < 4, (if i < 4 then data (o + i) else b.frameCounter i) = a.frameCounter i := by
      intro i hi
      rw [if_pos hi, hread i hi, zero_add]
    by_cases hone : a.securityControl.frameCounterSize = 1
    · rw [if_pos hone, if_pos (by rw [hsize]; exact hone)]
      exact ⟨rfl, fun _ => hcounter, rfl⟩
    · rw [if_neg hone, if_neg (by rw [hsize]; exact hone)]
      exact ⟨rfl, fun _ => hcounter, rfl⟩
  next hzero =>
    rw [if_neg hzero, if_neg hzero]
    exact ⟨rfl, fun h => absurd h hzero, rfl⟩

/-- The key identifier comes back, and nothing else changes. -/
theorem parseKey_keyBytes (b : AuxHdr)
    (hmode : cfg.usesExplicitKeys = true → b.securityControl.keyIdMode = a.securityControl.keyIdMode)
    (h : Holds data o (keyBytes cfg a)) :
    (parseKey cfg data o b).1 = o + (keyBytes cfg a).length ∧
    (cfg.usesExplicitKeys = true → a.securityControl.keyIdMode ≠ 0 →
       (∀ i < (a.securityControl.keyIdMode.toNat - 1) * 4, (parseKey cfg data o b).2.keySource i = a.keySource i) ∧
       (parseKey cfg data o b).2.keyIndex = a.keyIndex) ∧
    (parseKey cfg data o b).2.securityControl = b.securityControl ∧
    (parseKey cfg data o b).2.frameCounter = b.frameCounter := by
  unfold keyBytes at h ⊢
  rw [parseKey]
  split at h
  next hkeys =>
    rw [holds_append, length_slice] at h
    rw [if_pos hkeys, if_pos (by rw [hmode hkeys.1]; exact hkeys), hmode hkeys.1]
    have hread := holds_slice h.1
    refine ⟨?_, fun _ _ => ⟨fun i hi => ?_, ?_⟩, rfl, rfl⟩
    · rw [length_append, length_slice]
      rfl
    · dsimp only
      rw [if_pos hi, hread i hi, zero_add]
    · exact (holds_cons.mp h.2).1
  next hkeys =>
    have hkeys' : ¬(cfg.usesExplicitKeys = true ∧ b.securityControl.keyIdMode ≠ 0) :=
      fun hb => hkeys ⟨hb.1, hmode hb.1 ▸ hb.2⟩
    rw [if_neg hkeys, if_neg hkeys']
    exact ⟨rfl, fun hk hm => absurd ⟨hk, hm⟩ hkeys, rfl, rfl⟩

/-- With a four-byte counter the auxiliary security header comes back. -/
theorem parseAux_auxBytes (b : AuxHdr) (hf : a.securityControl.Fits)
    (hsize : a.securityControl.frameCounterSize = 0) (h : Holds data o (auxBytes cfg a stale)) :
    (parseAux cfg data o b).1 = o + (auxBytes cfg a stale).length ∧ AuxHdr.Same cfg a (parseAux cfg data o b).2 := by
  rw [auxBytes, holds_append, holds_append] at h
  obtain ⟨⟨hscf, hcounter⟩, hkey⟩ := h
  rw [length_append, ← add_assoc o] at hkey
  obtain ⟨e1, e2, e3, e4⟩ := scfByte_bits cfg hf
  rw [hsize] at e3
  rw [← (holds_cons.mp hscf).1] at e1 e2 e3 e4
  have e3' : data o >>> 5 = a.securityControl.frameCounterSuppression := by
    rw [e3]
    simp
  have hmode : cfg.usesExplicitKeys = true →
      (parseScf cfg (data o) b.securityControl).keyIdMode = a.securityControl.keyIdMode := by
    intro hk
    rw [parseScf, if_pos hk]
    exact e2 hk
  obtain ⟨hend, hc, hscf'⟩ := parseCounter_counterBytes
    { b with securityControl := parseScf cfg (data o) b.securityControl } e3' e4 hcounter
  rw [← hend] at hkey
  obtain ⟨kend, hk, kscf, kcounter⟩ := parseKey_keyBytes cfg _ (by rw [hscf']; exact hmode) hkey
  rw [hscf'] at kscf
  refine ⟨?_, ?_⟩
  · refine kend.trans ?_
    rw [hend, auxBytes, length_append, length_append, length_singleton]
    omega
  · exact {
      securityLevel := (congrArg Scf.securityLevel kscf).trans e1
      keyIdMode := fun h => (congrArg Scf.keyIdMode kscf).trans (hmode h)
      frameCounterSuppression := (congrArg Scf.frameCounterSuppression kscf).trans e3'
      frameCounterSize := (congrArg Scf.frameCounterSize kscf).trans e4
      frameCounter := fun h i hi => (congrFun kcounter i).trans (hc h i hi)
      keySource := fun h hm => (hk h hm).1
      keyIndex := fun h hm => (hk h hm).2 }

/-! ### The whole header -/

/-- The decoder behind the sequence number. -/
def parseStart (data : Nat → UInt8) (pf : Frame) : Nat × Frame :=
  let pf := { pf with fcf := parseFcf data }
  if pf.fcf.sequenceNumberSuppression = 0 then (3, { pf with seq := data 2 }) else (2, pf)

/-- The decoder behind the two ends. -/
def parseEnds (cfg : Config) (data : Nat → UInt8) (pf : Frame) : Nat × Frame :=
  let r := parseStart data pf
  let r := parseDest cfg data r.1 r.2
  parseSrc cfg data r.1 r.2

/-- The security section, where the frame has one. -/
def parseSec (cfg : Config) (data : Nat → UInt8) (o : Nat) (pf : Frame) : Nat × AuxHdr :=
  if cfg.usesAuxHeader ∧ pf.fcf.securityEnabled ≠ 0 then parseAux cfg data o pf.auxHdr
  else (o, pf.auxHdr)

theorem parse_eq (data : Nat → UInt8) (pf : Frame) (hlen : ¬len < 2) : parse cfg data len pf =
      let r := parseEnds cfg data pf
      let a := parseSec cfg data r.1 r.2
      (if len < a.1 then 0 else (a.1 : Int),
        { r.2 with auxHdr := a.2, payload := a.1, payloadLen := len - a.1 }) := by
  rw [parse, if_neg hlen]
  rfl

def seqBytes (p : Frame) : List UInt8 := if p.fcf.sequenceNumberSuppression = 0 then [p.seq] else []

/-- The bytes of the security section: nothing where the frame has none. -/
def secBytes (cfg : Config) (p : Frame) (stale : UInt8) : List UInt8 :=
  if cfg.usesAuxHeader ∧ p.fcf.securityEnabled ≠ 0 then auxBytes cfg p.auxHdr stale else []

theorem Fits.setCompression (hf : Fits f) : Fits (setCompression f) := by
  rw [Frame802154.setCompression]
  split
  · refine ⟨{ hf.fcf with panidCompression := ?_ }, hf.scf⟩
    dsimp only
    split <;> decide
  · exact hf

theorem auxSecLen_eq (hp : Fits p) (stale : UInt8) :
    auxSecLen cfg p = (secBytes cfg p stale).length := by
  rw [auxSecLen, and_one hp.fcf.securityEnabled, secBytes]
  split
  · rw [auxBytes, length_append, length_append, length_singleton]
    congr 1
    · congr 1
      rw [counterBytes]
      split
      · split <;> rfl
      · rfl
    · rw [keyBytes, getKeyIdLen]
      obtain ⟨t, ht⟩ := exists_fin (n := 4) rfl hp.scf.keyIdMode
      rw [ht]
      cases cfg.usesExplicitKeys with
      | true => match t with
        | 0 | 1 | 2 | 3 => rfl
      | false => rfl
  · rfl

/-- What the encoder writes, section by section. -/
theorem create_eq (hf : Fits f) (buf : Nat → UInt8) :
    ∃ stale,
      create cfg f buf =
        (setCompression f, createFcf (setCompression f).fcf ++ seqBytes (setCompression f) ++
           destBytes (setCompression f) ++ srcBytes (setCompression f) ++ secBytes cfg (setCompression f) stale) := by
  have hp := hf.setCompression
  rw [create, fieldLen]
  generalize setCompression f = p at hp
  have hseq : (if (if p.fcf.sequenceNumberSuppression &&& 1 = 0 then 1 else 0) = 1 then [p.seq]
      else []) = seqBytes p := by
    rw [and_one hp.fcf.sequenceNumberSuppression, seqBytes]
    split <;> rfl
  have hdest : (if (if hasDestPanid p.fcf then 2 else 0) = 2 then pidBytes p.destPid else []) ++
      addrBytes p.destAddr (addrLen (p.fcf.destAddrMode &&& 3)) = destBytes p := by
    rw [and_three hp.fcf.destAddrMode, destBytes]
    cases hasDestPanid p.fcf <;> rfl
  have hsrc : (if (if hasSrcPanid p.fcf then 2 else 0) = 2 then pidBytes p.srcPid else []) ++
      addrBytes p.srcAddr (addrLen (p.fcf.srcAddrMode &&& 3)) = srcBytes p := by
    rw [and_three hp.fcf.srcAddrMode, srcBytes]
    cases hasSrcPanid p.fcf <;> rfl
  dsimp only
  rw [hseq, append_assoc _ _ (addrBytes p.destAddr _), hdest, append_assoc _ _ (addrBytes p.srcAddr _), hsrc]
  refine ⟨buf ((createFcf p.fcf ++ seqBytes p ++ destBytes p ++ srcBytes p).length + 5), ?_⟩
  congr 1
  rw [secBytes, auxSecLen, and_one hp.fcf.securityEnabled]
  by_cases hsec : cfg.usesAuxHeader = true ∧ p.fcf.securityEnabled ≠ 0
  · rw [if_pos hsec, if_pos hsec, if_neg (by omega)]
    rfl
  · rw [if_neg hsec, if_neg hsec, if_pos rfl, append_nil]

theorem hdrlen_eq (hf : Fits f) (buf : Nat → UInt8) : hdrlen cfg f = (create cfg f buf).2.length := by
  obtain ⟨stale, h⟩ := create_eq cfg hf buf
  have hp := hf.setCompression
  rw [h, hdrlen, fieldLen]
  generalize setCompression f = p at hp
  rw [auxSecLen_eq cfg hp stale, and_one hp.fcf.sequenceNumberSuppression,
    and_three hp.fcf.destAddrMode, and_three hp.fcf.srcAddrMode]
  simp only [length_append, destBytes, srcBytes, addrBytes_length, createFcf, seqBytes,
    apply_ite length, pidBytes, length_cons, length_nil, zero_add,
    Nat.reduceAdd]
  omega

/-- The parsed frame has the header of `f`, and its payload starts at `n`, `m` bytes of it. -/
structure Restored (cfg : Config) (f : Frame) (n m : Nat) (r : Int × Frame) : Prop where
  result : r.1 = n
  fcf : r.2.fcf = f.fcf
  seq : f.fcf.sequenceNumberSuppression = 0 → r.2.seq = f.seq
  destPid : hasDestPanid f.fcf = true → r.2.destPid = f.destPid
  destAddr : ∀ i < addrLen f.fcf.destAddrMode, r.2.destAddr i = f.destAddr i
  srcPid : hasSrcPanid f.fcf = true → r.2.srcPid = f.srcPid
  srcAddr : ∀ i < addrLen f.fcf.srcAddrMode, r.2.srcAddr i = f.srcAddr i
  auxHdr : cfg.usesAuxHeader = true → f.fcf.securityEnabled ≠ 0 →
    AuxHdr.Same cfg f.auxHdr r.2.auxHdr
  payload : r.2.payload = n
  payloadLen : r.2.payloadLen = m

theorem parseStart_bytes (pf : Frame) (hp : p.fcf.Fits) (h : Holds data 0 (createFcf p.fcf ++ seqBytes p)) :
    (parseStart data pf).1 = (createFcf p.fcf ++ seqBytes p).length ∧ (parseStart data pf).2.fcf = p.fcf ∧
    (p.fcf.sequenceNumberSuppression = 0 → (parseStart data pf).2.seq = p.seq) := by
  rw [holds_append] at h
  have hfcf := parseFcf_createFcf hp h.1
  rw [parseStart, hfcf]
  unfold seqBytes at h ⊢
  split at h
  next hzero =>
    rw [if_pos hzero, if_pos hzero]
    exact ⟨rfl, rfl, fun _ => (holds_cons.mp h.2).1⟩
  next hzero =>
    rw [if_neg hzero, if_neg hzero]
    exact ⟨rfl, rfl, fun hz => absurd hz hzero⟩

/-- Behind the ends: the decoder stands where the encoder ended, unless a destination PAN id stands
    there without an address, which it has not read. -/
theorem parseEnds_bytes (pf : Frame) (hp : p.fcf.Fits)
    (h : Holds data 0 (createFcf p.fcf ++ seqBytes p ++ destBytes p ++ srcBytes p))
    (hpid : p.fcf.destAddrMode = 0 → hasDestPanid p.fcf = false) :
    (parseEnds cfg data pf).1 = (createFcf p.fcf ++ seqBytes p ++ destBytes p ++ srcBytes p).length ∧
    (parseEnds cfg data pf).2.fcf = p.fcf ∧
    (p.fcf.sequenceNumberSuppression = 0 → (parseEnds cfg data pf).2.seq = p.seq) ∧
    (hasDestPanid p.fcf = true → (parseEnds cfg data pf).2.destPid = p.destPid) ∧
    (∀ i < addrLen p.fcf.destAddrMode, (parseEnds cfg data pf).2.destAddr i = p.destAddr i) ∧
    (hasSrcPanid p.fcf = true → (parseEnds cfg data pf).2.srcPid = p.srcPid) ∧
    ∀ i < addrLen p.fcf.srcAddrMode, (parseEnds cfg data pf).2.srcAddr i = p.srcAddr i := by
  rw [holds_append, holds_append, zero_add, zero_add] at h
  obtain ⟨⟨hstart, hdest⟩, hsrc⟩ := h
  obtain ⟨send, sfcf, sseq⟩ := parseStart_bytes pf hp hstart
  rw [← send] at hdest
  obtain ⟨dend, dpid, daddr⟩ := parseDest_destBytes cfg _ sfcf hdest hpid
  obtain ⟨dfcf, dseq, -⟩ := parseDest_frame cfg data (parseStart data pf).1 (parseStart data pf).2
  rw [length_append, ← send, ← dend] at hsrc
  obtain ⟨rend, rpid, raddr, rdest⟩ := parseSrc_srcBytes cfg _ (dfcf.trans sfcf) hsrc
  obtain ⟨rfcf, rseq, -, rdaddr⟩ := parseSrc_frame cfg data
    (parseDest cfg data (parseStart data pf).1 (parseStart data pf).2).1
    (parseDest cfg data (parseStart data pf).1 (parseStart data pf).2).2
  refine ⟨?_, ?_, ?_, ?_, ?_, rpid, raddr⟩
  · rw [length_append, length_append, ← send, ← dend]
    exact rend
  · exact rfcf.trans (dfcf.trans sfcf)
  · exact fun hz => rseq.trans (dseq.trans (sseq hz))
  · exact fun hd => (rdest hd).trans (dpid hd)
  · exact fun i hi => (congrFun rdaddr i).trans (daddr i hi)

/-- The frames whose header can be read back: no destination PAN id without an address, and no
    five-byte frame counter. -/
def Legible (cfg : Config) (f : Frame) : Prop :=
  ¬(f.fcf.frameVersion = ieee802154e2012 ∧ f.fcf.destAddrMode = noAddr ∧
      f.fcf.srcAddrMode = noAddr ∧ f.fcf.panidCompression = 1) ∧
    ¬(cfg.usesAuxHeader = true ∧ f.fcf.securityEnabled = 1 ∧
      f.auxHdr.securityControl.frameCounterSize = 1)

theorem eq_one_of_ne_zero (h : x < 2) (hne : x ≠ 0) : x = 1 := by
  obtain ⟨t, rfl⟩ := exists_fin (n := 2) rfl h
  match t with
  | 0 => exact absurd rfl hne
  | 1 => rfl

theorem destPid_unread_iff (p : Frame) (h : p = setCompression f) :
    (p.fcf.destAddrMode = 0 ∧ hasDestPanid p.fcf = true) ↔
      f.fcf.frameVersion = ieee802154e2012 ∧
      f.fcf.destAddrMode = noAddr ∧
      f.fcf.srcAddrMode = noAddr ∧
      f.fcf.panidCompression = 1 := by
  rw [setCompression] at h
  constructor
  · rintro ⟨hmode, hpid⟩
    obtain ⟨hv, hs, hc⟩ := (hasDestPanid_noAddr hmode).mp hpid
    split at h
    next hold =>
      rw [h] at hv
      exact absurd hold (by rw [show f.fcf.frameVersion = _ from hv]; decide)
    · rw [h] at hmode hv hs hc
      exact ⟨hv, hmode, hs, hc⟩
  · rintro ⟨hv, hmode, hs, hc⟩
    rw [if_neg (by rw [hv]; decide)] at h
    rw [h]
    exact ⟨hmode, (hasDestPanid_noAddr hmode).mpr ⟨hv, hs, hc⟩⟩

theorem auxHdr_setCompression (f : Frame) : (setCompression f).auxHdr = f.auxHdr ∧
    (setCompression f).fcf.securityEnabled = f.fcf.securityEnabled := by
  rw [setCompression]
  split <;> exact ⟨rfl, rfl⟩

/-- With a four-byte counter, or without security, the security section comes back. -/
theorem parseSec_secBytes (pf : Frame) (hf : p.auxHdr.securityControl.Fits) (hfcf : pf.fcf = p.fcf)
    (hsize : cfg.usesAuxHeader = true → p.fcf.securityEnabled ≠ 0 → p.auxHdr.securityControl.frameCounterSize = 0)
    (h : Holds data o (secBytes cfg p stale)) :
    (parseSec cfg data o pf).1 = o + (secBytes cfg p stale).length ∧
    (cfg.usesAuxHeader = true → p.fcf.securityEnabled ≠ 0 → AuxHdr.Same cfg p.auxHdr (parseSec cfg data o pf).2) := by
  rw [parseSec, hfcf]
  unfold secBytes at h ⊢
  split at h
  next hon =>
    rw [if_pos hon, if_pos hon]
    obtain ⟨hend, hsame⟩ := parseAux_auxBytes cfg pf.auxHdr hf (hsize hon.1 hon.2) h
    exact ⟨hend, fun _ _ => hsame⟩
  next hoff =>
    rw [if_neg hoff, if_neg hoff]
    exact ⟨rfl, fun hu hs => absurd ⟨hu, hs⟩ hoff⟩

end

variable {bytes : List UInt8}

theorem parse_restored (cfg : Config) (pf : Frame) (hp : Fits p) (stale : UInt8)
    (hlegal : p.fcf.destAddrMode = 0 → hasDestPanid p.fcf = false)
    (hsize : cfg.usesAuxHeader = true → p.fcf.securityEnabled ≠ 0 → p.auxHdr.securityControl.frameCounterSize = 0)
    (hbytes : bytes = createFcf p.fcf ++ seqBytes p ++ destBytes p ++ srcBytes p ++ secBytes cfg p stale)
    (h : Holds data 0 bytes) (m : Nat) : Restored cfg p bytes.length m (parse cfg data (bytes.length + m) pf) := by
  have htwo : 2 ≤ bytes.length := by
    rw [hbytes]
    simp only [length_append, createFcf, length_cons]
    omega
  rw [hbytes, holds_append, zero_add] at h
  obtain ⟨hend, hfcf, hseq, hdpid, hdaddr, hspid, hsaddr⟩ := parseEnds_bytes cfg pf hp.fcf h.1 hlegal
  rw [← hend] at h
  obtain ⟨haend, haux⟩ := parseSec_secBytes cfg (parseEnds cfg data pf).2 hp.scf hfcf hsize h.2
  have hlen : (parseSec cfg data (parseEnds cfg data pf).1 (parseEnds cfg data pf).2).1 =
      bytes.length := by
    rw [haend, hbytes, length_append, hend]
  rw [parse_eq cfg data pf (by omega)]
  dsimp only
  rw [hlen, if_neg (by omega)]
  exact {
    result := rfl
    fcf := hfcf
    seq := hseq
    destPid := hdpid
    destAddr := hdaddr
    srcPid := hspid
    srcAddr := hsaddr
    auxHdr := haux
    payload := rfl
    payloadLen := by dsimp only; omega }

/-! ### What is not read back -/

theorem parseCounter_scf (data : Nat → UInt8) (o : Nat) (b : AuxHdr) :
    (parseCounter data o b).2.securityControl = b.securityControl := by
  rw [parseCounter]
  split
  · dsimp only
    split <;> rfl
  · rfl

theorem parseKey_scf (cfg : Config) (data : Nat → UInt8) (o : Nat) (b : AuxHdr) :
    (parseKey cfg data o b).2.securityControl = b.securityControl := by
  rw [parseKey]
  split <;> rfl

theorem keyLength_cases {mode : UInt8} (h : mode < 4) (hne : mode ≠ 0) :
    (mode.toNat - 1) * 4 + 1 = 1 ∨ (mode.toNat - 1) * 4 + 1 = 5 ∨ (mode.toNat - 1) * 4 + 1 = 9 := by
  obtain ⟨t, rfl⟩ := exists_fin (n := 4) rfl h
  match t with
  | 0 => exact absurd rfl hne
  | 1 => exact .inl rfl
  | 2 => exact .inr (.inl rfl)
  | 3 => exact .inr (.inr rfl)

section
variable (cfg : Config)
include cfg

/-- The length the decoder takes an auxiliary security header to have: a counter of five bytes is not
    among the possibilities, since its size bit alone makes it a suppressed one. -/
theorem parseAux_length (data : Nat → UInt8) (o : Nat) (b : AuxHdr) : ∃ c k, (parseAux cfg data o b).1
    = o + 1 + c + k ∧ (c = 0 ∨ c = 4) ∧ (k = 0 ∨ k = 1 ∨ k = 5 ∨ k = 9) := by
  have hcounter : ∃ c, (parseCounter data (o + 1)
      { b with securityControl := parseScf cfg (data o) b.securityControl }).1 = o + 1 + c ∧
      (c = 0 ∨ c = 4) := by
    rw [parseCounter]
    split
    next hzero =>
      have hsize : ¬(parseScf cfg (data o) b.securityControl).frameCounterSize = 1 := by
        intro hone
        have hz : data o >>> 5 = 0 := hzero
        change data o >>> 6 = 1 at hone
        rw [← UInt8.toNat_inj] at hz hone
        simp [UInt8.toNat_shiftRight, Nat.shiftRight_eq_div_pow] at hz hone
        omega
      rw [if_neg hsize]
      exact ⟨4, rfl, .inr rfl⟩
    · exact ⟨0, rfl, .inl rfl⟩
  obtain ⟨c, hc, hcases⟩ := hcounter
  have hscf := parseCounter_scf data (o + 1) { b with securityControl := parseScf cfg (data o) b.securityControl }
  rw [parseAux, parseKey, hc, hscf]
  split
  next hkeys =>
    have hmode : (parseScf cfg (data o) b.securityControl).keyIdMode < 4 := by
      rw [parseScf, if_pos hkeys.1]
      exact Nat.and_lt_two_pow _ (n := 2) (by decide)
    exact ⟨c, _, add_assoc _ _ _, hcases, .inr (keyLength_cases hmode hkeys.2)⟩
  · exact ⟨c, 0, rfl, hcases, .inl rfl⟩

theorem auxBytes_length (hf : a.securityControl.Fits) (stale : UInt8) : ∃ c k, (auxBytes cfg a
    stale).length = 1 + c + k ∧ (c = 0 ∨ c = 4 ∨ c = 5) ∧ (k = 0 ∨ k = 1 ∨ k = 5 ∨ k = 9) := by
  refine ⟨(counterBytes a stale).length, (keyBytes cfg a).length, ?_, ?_, ?_⟩
  · rw [auxBytes, length_append, length_append, length_singleton]
  · rw [counterBytes]
    split
    · split
      · exact .inr (.inr rfl)
      · exact .inr (.inl rfl)
    · exact .inl rfl
  · rw [keyBytes]
    split
    next hkeys =>
      rw [length_append, length_slice]
      exact .inr (keyLength_cases hf.keyIdMode hkeys.2)
    · exact .inl rfl

/-- A destination PAN id without an address is not read, and the header ends too early. -/
theorem parseEnds_unread (pf : Frame) (hp : p.fcf.Fits)
    (h : Holds data 0 (createFcf p.fcf ++ seqBytes p)) (hmode : p.fcf.destAddrMode = 0) (hsrc : p.fcf.srcAddrMode = 0) :
    (parseEnds cfg data pf).1 = (createFcf p.fcf ++ seqBytes p).length ∧ (parseEnds cfg data pf).2.fcf = p.fcf := by
  obtain ⟨hend, hfcf, -⟩ := parseStart_bytes pf hp h
  rw [parseEnds, parseDest, if_neg (by rw [hfcf]; simpa using hmode), parseSrc,
    if_neg (by rw [hfcf]; simpa using hsrc)]
  exact ⟨hend, hfcf⟩

/-- With an unread PAN id the payload is never found where it starts. -/
theorem parse_payload_unread (pf : Frame) (hp : Fits p) (stale : UInt8)
    (hmode : p.fcf.destAddrMode = 0) (hpid : hasDestPanid p.fcf = true)
    (hbytes : bytes = createFcf p.fcf ++ seqBytes p ++ destBytes p ++ srcBytes p ++ secBytes cfg p stale)
    (h : Holds data 0 bytes) (hlen : ¬len < 2) : (parse cfg data len pf).2.payload ≠ bytes.length := by
  obtain ⟨-, hsrc, -⟩ := (hasDestPanid_noAddr hmode).mp hpid
  rw [hbytes, holds_append, holds_append, holds_append] at h
  obtain ⟨hend, hfcf⟩ := parseEnds_unread cfg pf hp.fcf h.1.1.1 hmode hsrc
  have hlength : bytes.length = (parseEnds cfg data pf).1 + 2 + (secBytes cfg p stale).length := by
    rw [hend, hbytes, destBytes, srcBytes, hpid, hasSrcPanid_noAddr hsrc, hmode, hsrc]
    simp only [length_append]
    rfl
  rw [parse_eq cfg data pf hlen, hlength]
  dsimp only
  rw [parseSec, hfcf, secBytes]
  by_cases hon : cfg.usesAuxHeader = true ∧ p.fcf.securityEnabled ≠ 0
  · rw [if_pos hon, if_pos hon]
    obtain ⟨c, k, hread, hc, hk⟩ := parseAux_length cfg data (parseEnds cfg data pf).1
      (parseEnds cfg data pf).2.auxHdr
    obtain ⟨c', k', hwritten, hc', hk'⟩ := auxBytes_length cfg hp.scf stale
    omega
  · rw [if_neg hon, if_neg hon, length_nil]
    omega

/-- A five-byte counter is taken for a suppressed one. -/
theorem parse_counter_misread (pf : Frame) (hp : Fits p) (stale : UInt8)
    (hpid : p.fcf.destAddrMode = 0 → hasDestPanid p.fcf = false)
    (hon : cfg.usesAuxHeader = true ∧ p.fcf.securityEnabled ≠ 0)
    (hsize : p.auxHdr.securityControl.frameCounterSize = 1)
    (hbytes : bytes = createFcf p.fcf ++ seqBytes p ++ destBytes p ++ srcBytes p ++ secBytes cfg p stale)
    (h : Holds data 0 bytes) (hlen : ¬len < 2) :
    (parse cfg data len pf).2.auxHdr.securityControl.frameCounterSuppression ≠
      p.auxHdr.securityControl.frameCounterSuppression := by
  rw [hbytes, holds_append, zero_add] at h
  obtain ⟨hends, hsec⟩ := h
  obtain ⟨hend, hfcf, -⟩ := parseEnds_bytes cfg pf hp.fcf hends hpid
  rw [secBytes, if_pos hon, auxBytes, holds_append, holds_append, ← hend] at hsec
  have hbyte := (holds_cons.mp hsec.1.1).1
  rw [parse_eq cfg data pf hlen]
  dsimp only
  rw [parseSec, hfcf, if_pos hon, parseAux, parseKey_scf, parseCounter_scf]
  change data (parseEnds cfg data pf).1 >>> 5 ≠ _
  rw [hbyte, (scfByte_bits cfg hp.scf).2.2.1, hsize]
  obtain ⟨t, ht⟩ := exists_fin (n := 2) rfl hp.scf.frameCounterSuppression
  rw [ht]
  clear ht
  revert t
  decide

end

/-! ### Round trip -/

/-- THE HEADER CODEC. The computed length is the length written; and the header, with any payload behind
    it, is read back as the encoder left the frame, exactly when the frame is legible. -/
theorem header_roundtrip (cfg : Config) (f : Frame) (hf : Fits f) (buf : Nat → UInt8) (payload : List UInt8)
    (data : Nat → UInt8) (pf : Frame) (h : Holds data 0 ((create cfg f buf).2 ++ payload)) :
    (hdrlen cfg f = (create cfg f buf).2.length ∧
     Restored cfg (create cfg f buf).1 (create cfg f buf).2.length payload.length
       (parse cfg data ((create cfg f buf).2.length + payload.length) pf)) ↔
      Legible cfg f := by
  have hlen := hdrlen_eq cfg hf buf
  obtain ⟨stale, hcreate⟩ := create_eq cfg hf buf
  have hp := hf.setCompression
  have hunread := destPid_unread_iff (setCompression f) rfl
  obtain ⟨haux, hsec⟩ := auxHdr_setCompression f
  have hbytes := (holds_append.mp h).1
  rw [Legible, ← hunread, ← haux, ← hsec]
  rw [hcreate] at hbytes hlen ⊢
  generalize setCompression f = p at *
  constructor
  · rintro ⟨-, hres⟩
    have htwo : ¬(((createFcf p.fcf ++ seqBytes p ++ destBytes p ++ srcBytes p ++
        secBytes cfg p stale).length : Int) + payload.length < 2) := by
      simp only [length_append, createFcf, length_cons]
      omega
    have hread : ¬(p.fcf.destAddrMode = 0 ∧ hasDestPanid p.fcf = true) := fun hun =>
      parse_payload_unread cfg pf hp stale hun.1 hun.2 rfl hbytes htwo hres.payload
    refine ⟨hread, fun hfive => ?_⟩
    have hon : cfg.usesAuxHeader = true ∧ p.fcf.securityEnabled ≠ 0 := ⟨hfive.1, by rw [hfive.2.1]; decide⟩
    exact parse_counter_misread cfg pf hp stale
      (fun hmode => Bool.eq_false_iff.mpr fun hd => hread ⟨hmode, hd⟩) hon hfive.2.2 rfl hbytes htwo
      (hres.auxHdr hon.1 hon.2).frameCounterSuppression
  · rintro ⟨hread, hfive⟩
    refine ⟨hlen, parse_restored cfg pf hp stale
      (fun hmode => Bool.eq_false_iff.mpr fun hd => hread ⟨hmode, hd⟩) (fun hu hs => ?_) rfl hbytes _⟩
    by_contra hne
    exact hfive ⟨hu, eq_one_of_ne_zero hp.fcf.securityEnabled hs, eq_one_of_ne_zero hp.scf.frameCounterSize hne⟩

/-- A frame of the 2012 version with its modes, compression and security as given. -/
def frameWith (dest src compression security size : UInt8) : Frame where
  destAddr i := .ofNat (16 + i)
  srcAddr i := .ofNat (32 + i)
  fcf := {
    frameType := 1, securityEnabled := security, framePending := 0, ackRequired := 1
    panidCompression := compression, sequenceNumberSuppression := 0, ieListPresent := 0
    destAddrMode := dest, frameVersion := 2, srcAddrMode := src }
  seq := 7
  destPid := 0xABCD
  srcPid := 0x1234
  auxHdr := {
    securityControl := {
      securityLevel := 5, keyIdMode := 2, frameCounterSuppression := 0, frameCounterSize := size }
    frameCounter i := .ofNat (48 + i)
    keySource i := .ofNat (64 + i)
    keyIndex := 9 }
  payload := 0
  payloadLen := 0

def securedConfig : Config := { usesAuxHeader := true, usesExplicitKeys := true, linkaddrSize := 8 }

theorem fits_frameWith {dest src compression security size : UInt8} (hd : dest < 4) (hs : src < 4)
    (hc : compression < 2) (he : security < 2) (hz : size < 2) :
    Fits (frameWith dest src compression security size) where
  fcf := {
    frameType := (by decide : (1 : UInt8) < 8), securityEnabled := he
    framePending := (by decide : (0 : UInt8) < 2), ackRequired := (by decide : (1 : UInt8) < 2)
    panidCompression := hc, sequenceNumberSuppression := (by decide : (0 : UInt8) < 2)
    ieListPresent := (by decide : (0 : UInt8) < 2), destAddrMode := hd
    frameVersion := (by decide : (2 : UInt8) < 4), srcAddrMode := hs }
  scf := {
    securityLevel := (by decide : (5 : UInt8) < 8), keyIdMode := (by decide : (2 : UInt8) < 4)
    frameCounterSuppression := (by decide : (0 : UInt8) < 2), frameCounterSize := hz }

/-- A secured frame from a long to a short address, with a payload of two bytes. -/
theorem header_roundtrip_secured :
    let f := frameWith shortAddrMode longAddrMode 0 1 0
    let bytes := (create securedConfig f (fun _ => 0)).2
    Fits f ∧ Holds (bufferOf (bytes ++ [1, 2])) 0 (bytes ++ [1, 2]) ∧ (hdrlen securedConfig f = bytes.length ∧
        Restored securedConfig (create securedConfig f (fun _ => 0)).1 bytes.length 2
          (parse securedConfig (bufferOf (bytes ++ [1, 2])) (bytes.length + 2) f)) := by
  have hf : Fits (frameWith shortAddrMode longAddrMode 0 1 0) :=
    fits_frameWith (by decide) (by decide) (by decide) (by decide) (by decide)
  refine ⟨hf, holds_bufferOf _, ?_⟩
  exact (header_roundtrip securedConfig _ hf (fun _ => 0) [1, 2] _ _ (holds_bufferOf _)).mpr ⟨by decide, by decide⟩

/-- A five-byte counter: of the fourteen bytes written, nine are read. A PAN id without addresses: of
    the five bytes written, three are read. -/
theorem header_misread : (let f := frameWith noAddr noAddr 0 1 1
     let bytes := (create securedConfig f (fun _ => 0)).2
     Fits f ∧ hdrlen securedConfig f = 14 ∧ bytes.length = 14 ∧ (parse securedConfig (bufferOf bytes) 14 f).1 = 9 ∧
       (parse securedConfig (bufferOf bytes) 14 f).2.payload = 9 ∧
       (parse securedConfig (bufferOf bytes) 14 f).2.auxHdr.securityControl.frameCounterSuppression = 2) ∧
    (let f := frameWith noAddr noAddr 1 0 0
     let bytes := (create securedConfig f (fun _ => 0)).2
     Fits f ∧ hdrlen securedConfig f = 5 ∧ bytes.length = 5 ∧ hasDestPanid f.fcf = true ∧
       (parse securedConfig (bufferOf bytes) 5 f).1 = 3 ∧
       (parse securedConfig (bufferOf bytes) 5 f).2.payload = 3 ∧
       (parse securedConfig (bufferOf bytes) 5 f).2.destPid ≠ f.destPid) := by
  refine ⟨⟨?_, by decide⟩, ⟨?_, by decide⟩⟩
  · exact fits_frameWith (by decide) (by decide) (by decide) (by decide) (by decide)
  · exact fits_frameWith (by decide) (by decide) (by decide) (by decide) (by decide)

end Frame802154

end CSync
