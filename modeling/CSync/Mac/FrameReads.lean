import CSync.Lib.Readers
import CSync.Mac.Frame
import Mathlib.Tactic.IntervalCases

/-! Which bytes `frame802154_parse` reads.

    The decoder moves through up to seven optional fields and compares its position with the length of the buffer
    only at the end. Every field is a reader whose footprint lies between the position in front of it and the one
    behind it, so all that was read of an accepted frame stands in front of the position that passed the check. -/

namespace CSync

open Lib List

namespace Frame802154

variable (cfg : Config)

/-! ### Fields -/

theorem reads_byte {σ : Type} (f : UInt8 → σ → σ) : Reads (fun _ p _ => [p]) (fun m p s => (p + 1, f (m p) s)) where
  forward _ p _ := Nat.le_succ p
  inside _ p _ i hi := by
    rw [mem_singleton] at hi
    omega
  congr m n p s h := by rw [h p mem_cons_self]

/-- A PAN id. -/
theorem reads_panid {σ : Type} (f : UInt16 → σ → σ) :
    Reads (fun _ p _ => [p, p + 1]) (fun m p s => (p + 2, f (readPid m p) s)) where
  forward _ p _ := Nat.le_add_right p 2
  inside _ p _ i hi := by
    simp only [mem_cons, not_mem_nil, or_false] at hi
    omega
  congr m n p s h := by rw [readPid, readPid, h p (by simp), h (p + 1) (by simp)]

/-- An address is read backwards; a reserved mode reads nothing. -/
def addrReads (mode : UInt8) (p : Nat) : List Nat :=
  if mode = shortAddrMode then [p + 1, p]
  else if mode = longAddrMode then (range 8).map fun i => p + (7 - i)
  else []

theorem reads_addr (mode : UInt8) :
    Reads (fun _ p _ => addrReads mode p) (fun m p addr => readAddr cfg m mode p addr) where
  forward m p addr := by
    rw [readAddr]
    split_ifs <;> simp
  inside m p addr i hi := by
    rw [addrReads] at hi
    rw [readAddr]
    split_ifs at hi ⊢
    · simp only [mem_cons, not_mem_nil, or_false] at hi
      omega
    · obtain ⟨k, -, rfl⟩ := mem_map.mp hi
      omega
    · cases hi
  congr m n p addr h := by
    rw [addrReads] at h
    rw [readAddr, readAddr]
    split_ifs at h ⊢
    · rw [h p (by simp), h (p + 1) (by simp)]
    · refine congrArg (Prod.mk (p + 8)) (funext fun i => ?_)
      split_ifs with hi
      · exact (h _ (mem_map.mpr ⟨i, mem_range.mpr hi, rfl⟩)).symm
      · rfl
    · rfl

/-- The frame counter. -/
def counterReads (aux : AuxHdr) (p : Nat) : List Nat :=
  if aux.securityControl.frameCounterSuppression = 0 then (range 4).map (p + ·) else []

theorem reads_counter : Reads (fun _ p aux => counterReads aux p) parseCounter where
  forward m p aux := by
    rw [parseCounter]
    dsimp only
    split_ifs <;> simp
  inside m p aux i hi := by
    rw [counterReads] at hi
    rw [parseCounter]
    split_ifs at hi ⊢
    · obtain ⟨k, hk, rfl⟩ := mem_map.mp hi
      rw [mem_range] at hk
      dsimp only
      split_ifs <;> dsimp only <;> omega
    · cases hi
  congr m n p aux h := by
    rw [counterReads] at h
    rw [parseCounter, parseCounter]
    split_ifs at h ⊢
    · have hbytes : (fun i => if i < 4 then n (p + i) else aux.frameCounter i) =
          fun i => if i < 4 then m (p + i) else aux.frameCounter i := by
        funext i
        split_ifs with hi
        · exact (h _ (mem_map.mpr ⟨i, mem_range.mpr hi, rfl⟩)).symm
        · rfl
      rw [hbytes]
    · rfl

/-- The explicit key identifier. -/
def keyReads (aux : AuxHdr) (p : Nat) : List Nat :=
  if cfg.usesExplicitKeys ∧ aux.securityControl.keyIdMode ≠ 0 then
    (range ((aux.securityControl.keyIdMode.toNat - 1) * 4 + 1)).map (p + ·)
  else []

theorem reads_key : Reads (fun _ p aux => keyReads cfg aux p) (parseKey cfg) where
  forward m p aux := by
    rw [parseKey]
    split_ifs
    · dsimp only
      omega
    · exact le_refl p
  inside m p aux i hi := by
    rw [keyReads] at hi
    rw [parseKey]
    split_ifs at hi ⊢
    · obtain ⟨k, hk, rfl⟩ := mem_map.mp hi
      rw [mem_range] at hk
      dsimp only
      omega
    · cases hi
  congr m n p aux h := by
    rw [keyReads] at h
    rw [parseKey, parseKey]
    split_ifs at h ⊢
    · have hread : ∀ i ≤ (aux.securityControl.keyIdMode.toNat - 1) * 4, n (p + i) = m (p + i) := fun i hi =>
        (h _ (mem_map.mpr ⟨i, mem_range.mpr (Nat.lt_succ_of_le hi), rfl⟩)).symm
      have hbytes : (fun i => if i < (aux.securityControl.keyIdMode.toNat - 1) * 4 then n (p + i)
          else aux.keySource i) =
          fun i => if i < (aux.securityControl.keyIdMode.toNat - 1) * 4 then m (p + i) else aux.keySource i := by
        funext i
        split_ifs with hi
        · exact hread i (le_of_lt hi)
        · rfl
      dsimp only
      rw [hbytes, hread _ le_rfl]
    · rfl

/-! ### The header -/

def seqReads : Footprint UInt8 Frame := fun _ p pf => if pf.fcf.sequenceNumberSuppression = 0 then [p] else []

/-- The sequence number. -/
def parseSeq : Reader UInt8 Frame := fun data p pf =>
  if pf.fcf.sequenceNumberSuppression = 0 then (p + 1, { pf with seq := data p }) else (p, pf)

theorem reads_seq : Reads seqReads parseSeq := (reads_byte fun b (pf : Frame) => { pf with seq := b }).pick
    (fun pf : Frame => pf.fcf.sequenceNumberSuppression = 0)
    (Reads.pure id)

/-- The PAN id of the destination. -/
def readDestPid : Reader UInt8 Frame := fun data p pf =>
  if hasDestPanid pf.fcf then (p + 2, { pf with destPid := readPid data p }) else (p, { pf with destPid := 0 })

/-- The PAN id of the source; without one of its own the destination takes it. -/
def readSrcPid : Reader UInt8 Frame := fun data p pf =>
  if hasSrcPanid pf.fcf then
    (p + 2, { pf with
      srcPid := readPid data p
      destPid := if hasDestPanid pf.fcf then pf.destPid else readPid data p })
  else (p, { pf with srcPid := pf.destPid })

/-- The offsets of an end; `reader` is that of its PAN id. -/
def endReads (mode : Fcf → UInt8) (hasPanid : Fcf → Bool) (reader : Reader UInt8 Frame) : Footprint UInt8 Frame :=
  fun m p pf =>
    if mode pf.fcf ≠ 0 then
      Footprint.andThen (fun _ p pf => if hasPanid pf.fcf then [p, p + 1] else []) reader
        (fun _ p pf => addrReads (mode pf.fcf) p) m p pf
    else []

theorem reads_dest : Reads (endReads (·.destAddrMode) hasDestPanid readDestPid) (parseDest cfg) := by
  have hpid := (reads_panid fun pid (pf : Frame) => { pf with destPid := pid }).pick
    (fun pf => hasDestPanid pf.fcf = true) (Reads.pure fun pf => { pf with destPid := 0 })
  have haddr := Reads.lift (fun pf : Frame => pf.destAddr) (fun addr pf => { pf with destAddr := addr })
    fun pf => reads_addr cfg pf.fcf.destAddrMode
  have hend := (hpid.andThen haddr).pick (fun pf => pf.fcf.destAddrMode ≠ 0)
    (Reads.pure fun pf => { pf with destAddr := nullAddr cfg pf.destAddr, destPid := 0 })
  have heq : parseDest cfg = fun m p pf => if pf.fcf.destAddrMode ≠ 0 then
      readDestPid.andThen (fun m p pf => ((readAddr cfg m pf.fcf.destAddrMode p pf.destAddr).1,
        { pf with destAddr := (readAddr cfg m pf.fcf.destAddrMode p pf.destAddr).2 })) m p pf
      else (p, { pf with destAddr := nullAddr cfg pf.destAddr, destPid := 0 }) := by
    funext m p pf
    rw [parseDest, Reader.andThen, readDestPid]
  exact hend

theorem reads_src : Reads (endReads (·.srcAddrMode) hasSrcPanid readSrcPid) (parseSrc cfg) := by
  have hpid := (reads_panid fun pid (pf : Frame) => { pf with
      srcPid := pid
      destPid := if hasDestPanid pf.fcf then pf.destPid else pid }).pick
    (fun pf => hasSrcPanid pf.fcf = true) (Reads.pure fun pf => { pf with srcPid := pf.destPid })
  have haddr := Reads.lift (fun pf : Frame => pf.srcAddr) (fun addr pf => { pf with srcAddr := addr })
    fun pf => reads_addr cfg pf.fcf.srcAddrMode
  have hend := (hpid.andThen haddr).pick (fun pf => pf.fcf.srcAddrMode ≠ 0)
    (Reads.pure fun pf => { pf with srcAddr := nullAddr cfg pf.srcAddr, srcPid := 0 })
  have heq : parseSrc cfg = fun m p pf => if pf.fcf.srcAddrMode ≠ 0 then
      readSrcPid.andThen (fun m p pf => ((readAddr cfg m pf.fcf.srcAddrMode p pf.srcAddr).1,
        { pf with srcAddr := (readAddr cfg m pf.fcf.srcAddrMode p pf.srcAddr).2 })) m p pf
      else (p, { pf with srcAddr := nullAddr cfg pf.srcAddr, srcPid := 0 }) := by
    funext m p pf
    rw [parseSrc, Reader.andThen, readSrcPid]
  exact hend

/-- The security control byte. -/
def readScf : Reader UInt8 AuxHdr := fun data p aux =>
  (p + 1, { aux with securityControl := parseScf cfg (data p) aux.securityControl })

def auxReads : Footprint UInt8 AuxHdr :=
  Footprint.andThen (Footprint.andThen (fun _ p _ => [p]) (readScf cfg) fun _ p aux => counterReads aux p)
    ((readScf cfg).andThen parseCounter) fun _ p aux => keyReads cfg aux p

theorem reads_aux : Reads (auxReads cfg) (parseAux cfg) :=
  ((reads_byte fun b (aux : AuxHdr) => { aux with securityControl := parseScf cfg b aux.securityControl }).andThen
    reads_counter).andThen (reads_key cfg)

/-- The auxiliary security header, if there is one. -/
def parseSecurity : Reader UInt8 Frame := fun data p pf =>
  if cfg.usesAuxHeader ∧ pf.fcf.securityEnabled ≠ 0 then
    ((parseAux cfg data p pf.auxHdr).1, { pf with auxHdr := (parseAux cfg data p pf.auxHdr).2 })
  else (p, pf)

def securityReads : Footprint UInt8 Frame := fun m p pf =>
  if cfg.usesAuxHeader ∧ pf.fcf.securityEnabled ≠ 0 then auxReads cfg m p pf.auxHdr else []

theorem reads_security : Reads (securityReads cfg) (parseSecurity cfg) :=
  (Reads.lift (fun pf : Frame => pf.auxHdr) (fun aux pf => { pf with auxHdr := aux }) fun _ => reads_aux cfg).pick
    (fun pf : Frame => cfg.usesAuxHeader = true ∧ pf.fcf.securityEnabled ≠ 0) (Reads.pure id)

def parseFields : Reader UInt8 Frame :=
  ((parseSeq.andThen (parseDest cfg)).andThen (parseSrc cfg)).andThen (parseSecurity cfg)

def fieldReads : Footprint UInt8 Frame :=
  Footprint.andThen
    (Footprint.andThen
      (Footprint.andThen seqReads parseSeq (endReads (·.destAddrMode) hasDestPanid readDestPid))
      (parseSeq.andThen (parseDest cfg)) (endReads (·.srcAddrMode) hasSrcPanid readSrcPid))
    ((parseSeq.andThen (parseDest cfg)).andThen (parseSrc cfg)) (securityReads cfg)

theorem reads_fields : Reads (fieldReads cfg) (parseFields cfg) :=
  ((reads_seq.andThen (reads_dest cfg)).andThen (reads_src cfg)).andThen (reads_security cfg)

def parseReads (data : Nat → UInt8) (len : Int) (pf : Frame) : List Nat :=
  if len < 2 then [] else [0, 1] ++ fieldReads cfg data 2 { pf with fcf := parseFcf data }

theorem parse_eq_fields (data : Nat → UInt8) {len : Int} (hlen : ¬len < 2) (pf : Frame) : parse cfg data len pf =
      (if len < (parseFields cfg data 2 { pf with fcf := parseFcf data }).1 then 0
        else ((parseFields cfg data 2 { pf with fcf := parseFcf data }).1 : Int),
      { (parseFields cfg data 2 { pf with fcf := parseFcf data }).2 with
        payload := (parseFields cfg data 2 { pf with fcf := parseFcf data }).1
        payloadLen := len - (parseFields cfg data 2 { pf with fcf := parseFcf data }).1 }) := by
  rw [parse, if_neg hlen]
  simp only [parseFields, Reader.andThen, parseSeq, parseSecurity]
  split_ifs <;> rfl

theorem parseFcf_congr {m n : Nat → UInt8} (h0 : m 0 = n 0) (h1 : m 1 = n 1) : parseFcf n = parseFcf m := by
  simp only [parseFcf, h0, h1]

/-- PARSING depends on the received bytes only, and reads no field of an accepted frame from behind them. -/
theorem parse_received_only {data data' : Nat → UInt8} {len : Int} {pf : Frame}
    (hagree : ∀ i : Nat, (i : Int) < len → data i = data' i) (haccept : 0 < (parse cfg data len pf).1) :
    parse cfg data' len pf = parse cfg data len pf ∧
    (parse cfg data len pf).2.payloadLen = len - (parse cfg data len pf).1 ∧
    0 ≤ (parse cfg data len pf).2.payloadLen ∧
    ∀ i ∈ parseReads cfg data len pf, (i : Int) < (parse cfg data len pf).1 := by
  have hlen : ¬len < 2 := by
    intro hlt
    rw [parse, if_pos hlt] at haccept
    exact Int.lt_irrefl 0 haccept
  have hfcf : parseFcf data' = parseFcf data := parseFcf_congr (hagree 0 (by omega)) (hagree 1 (by omega))
  rw [parse_eq_fields cfg data hlen] at haccept ⊢
  rw [parse_eq_fields cfg data' hlen, parseReads, if_neg hlen, hfcf]
  set pf' : Frame := { pf with fcf := parseFcf data }
  have hfits : ¬len < (parseFields cfg data 2 pf').1 := by
    intro hlt
    rw [if_pos hlt] at haccept
    exact Int.lt_irrefl 0 haccept
  have hsame : parseFields cfg data' 2 pf' = parseFields cfg data 2 pf' :=
    (reads_fields cfg).congr_of_agree fun i hi => hagree i (by omega)
  have hforward := (reads_fields cfg).forward data 2 pf'
  rw [hsame, if_neg hfits]
  refine ⟨rfl, rfl, by dsimp only; omega, fun i hi => ?_⟩
  rcases mem_append.mp hi with hi | hi
  · simp only [mem_cons, not_mem_nil, or_false] at hi
    omega
  · have := (reads_fields cfg).inside data 2 pf' i hi
    omega

/-- A frame with nothing in it. -/
def blankFrame : Frame :=
  ⟨fun _ => 0, fun _ => 0, ⟨0, 0, 0, 0, 0, 0, 0, 0, 0, 0⟩, 0, 0, 0, ⟨⟨0, 0, 0, 0⟩, fun _ => 0, fun _ => 0, 0⟩, 0, 0⟩

/-- Short addresses in nine bytes, which a longer buffer has too. -/
theorem parse_received_only_short :
    0 < (parse ⟨true, true, 8⟩ (bufferOf [0x41, 0x88, 1, 0xcd, 0xab, 2, 0, 3, 0]) 9 blankFrame).1 ∧
    parse ⟨true, true, 8⟩ (bufferOf [0x41, 0x88, 1, 0xcd, 0xab, 2, 0, 3, 0, 0xff]) 9 blankFrame =
      parse ⟨true, true, 8⟩ (bufferOf [0x41, 0x88, 1, 0xcd, 0xab, 2, 0, 3, 0]) 9 blankFrame := by
  have haccept : 0 < (parse ⟨true, true, 8⟩ (bufferOf [0x41, 0x88, 1, 0xcd, 0xab, 2, 0, 3, 0]) 9 blankFrame).1 := by
    decide
  refine ⟨haccept, (parse_received_only _ (fun i hi => ?_) haccept).1⟩
  have hi' : i < 9 := by omega
  interval_cases i <;> rfl

end Frame802154

end CSync
