import Mathlib.Data.List.GetD
import CSync.Lib.While

/-! CCM* (`lib/ccm-star.c`): counter mode with a CBC-MAC over blocks of sixteen bytes.

    The block function is whatever `AES_128.encrypt` is under its key. Positions in a message are of type `uint8_t`, so
    the position behind the last block can be the one of the first block again. RFC 3610 is stated beside the code,
    over zero-padded blocks, for lengths of two bytes. -/

namespace CSync.CcmStar

open Lib List

/-- A block of `AES_128_BLOCK_SIZE` bytes. -/
abbrev Block := Fin 16 → UInt8

/-- `CCM_STAR_NONCE_LENGTH` bytes. -/
abbrev Nonce := Fin 13 → UInt8

section
variable (encrypt : Block → Block) (nonce : Nonce)

/-- `CCM_STAR_AUTH_FLAGS`; `unsigned` has 16 bits, and the flags are passed as a byte. -/
def authFlags (adata : Bool) (micLen : Nat) : UInt8 :=
  UInt8.ofNat ((if adata then 1 <<< 6 else 0) ||| (((micLen + 65536 - 2) % 65536) >>> 1) <<< 3 ||| 1)

/-- `CCM_STAR_ENCRYPTION_FLAGS`. -/
def encryptionFlags : UInt8 := 1

def setIv (flags : UInt8) (counter : UInt8) : Block := fun i =>
  if i.val = 0 then flags
  else if h : i.val - 1 < 13 then nonce ⟨i.val - 1, h⟩
  else if i.val = 14 then 0
  else counter

def xorInto (x : Block) (bs : List UInt8) (pos : Nat) : Block := fun i =>
  if pos + i.val < bs.length then x i ^^^ bs.getD (pos + i.val) 0 else x i

def ctrStep (pos : UInt8) (m : List UInt8) (counter : UInt8) : List UInt8 :=
  let a := encrypt (setIv nonce encryptionFlags counter)
  m.mapIdx fun j b =>
    if h : pos.toNat ≤ j ∧ j - pos.toNat < 16 then b ^^^ a ⟨j - pos.toNat, h.2⟩ else b

/-- `while(pos < len)` -/
def more {σ : Type} (bs : List UInt8) (s : UInt8 × σ) : Bool := decide (s.1.toNat < bs.length)

def macStep (bs : List UInt8) (s : UInt8 × Block) : UInt8 × Block :=
  (s.1 + 16, encrypt (xorInto s.2 bs s.1.toNat))

def macLoop (bs : List UInt8) (fuel : Nat) (pos : UInt8) (x : Block) : Option Block :=
  (whileLoop (more bs) (macStep encrypt bs) fuel (pos, x)).map Prod.snd

/-- The first block of associated data: its length in front of its first bytes. -/
def firstBlock (x : Block) (a : List UInt8) : Block := fun i =>
  if i.val = 1 then x i ^^^ UInt8.ofNat a.length
  else if 2 ≤ i.val ∧ i.val - 2 < a.length then x i ^^^ a.getD (i.val - 2) 0
  else x i

/-- `mic`; `none` stands for a loop that is not over. -/
def mic (m a : List UInt8) (micLen : Nat) (fuel : Nat) : Option (List UInt8) :=
  let x := encrypt (setIv nonce (authFlags (a.length != 0) micLen) (UInt8.ofNat m.length))
  match if a.length ≠ 0 then macLoop encrypt a fuel 14 (encrypt (firstBlock x a)) else some x with
  | none => none
  | some x =>
    match if m.length ≠ 0 then macLoop encrypt m fuel 0 x else some x with
    | none => none
    | some x => some ((ctrStep encrypt nonce 0 (ofFn x) 0).take micLen)

/-- A block of the message is XORed, and the counter goes on. -/
def ctrNext (s : UInt8 × UInt8 × List UInt8) : UInt8 × UInt8 × List UInt8 :=
  (s.1 + 16, s.2.1 + 1, ctrStep encrypt nonce s.1 s.2.2 s.2.1)

def ctr (m : List UInt8) (fuel : Nat) : Option (List UInt8) :=
  (whileLoop (more m) (ctrNext encrypt nonce) fuel (0, 1, m)).map fun s => s.2.2

def aead (m a : List UInt8) (micLen : Nat) (forward : Bool) (fuel : Nat) : Option (List UInt8 × List UInt8) :=
  match if forward then some m else ctr encrypt nonce m fuel with
  | none => none
  | some m =>
    match mic encrypt nonce m a micLen fuel with
    | none => none
    | some result =>
      match if forward then ctr encrypt nonce m fuel else some m with
      | none => none
      | some m => some (m, result)

/-! ### RFC 3610, with lengths of two bytes -/

/-- The blocks of a string that is padded with zeroes. -/
def blocks (bs : List UInt8) : List Block :=
  (range ((bs.length + 15) / 16)).map fun k i => bs.getD (16 * k + i.val) 0

/-- A number in two bytes, the high one first. -/
def twoBytes (n : Nat) : List UInt8 := [UInt8.ofNat (n / 256), UInt8.ofNat n]

def xorBlock (x y : Block) : Block := fun i => x i ^^^ y i

/-- Flags, nonce and two more bytes. -/
def formatBlock (flags : UInt8) (n : Nat) : Block := fun i =>
  (flags :: (ofFn nonce ++ twoBytes n)).getD i.val 0

/-- The flags of the first block: `64 * Adata + 8 * ((M - 2) / 2) + (L - 1)`. -/
def rfcFlags (adata : Bool) (micLen : Nat) : UInt8 := UInt8.ofNat (64 * adata.toNat + 8 * ((micLen - 2) / 2) + 1)

/-- The blocks that authenticate, behind the first. -/
def authBlocks (m a : List UInt8) : List Block :=
  (if a = [] then [] else blocks (twoBytes a.length ++ a)) ++ blocks m

def cbcMac (x : Block) (bs : List Block) : Block := bs.foldl (fun x b => encrypt (xorBlock x b)) x

/-- The key stream: `S_i`. -/
def keyBlock (i : Nat) : Block := encrypt (formatBlock nonce 1 i)

def rfcCiphertext (m : List UInt8) : List UInt8 :=
  m.mapIdx fun j b => b ^^^ keyBlock encrypt nonce (j / 16 + 1) ⟨j % 16, Nat.mod_lt _ (by decide)⟩

def rfcTag (m a : List UInt8) (micLen : Nat) : List UInt8 :=
  let x := encrypt (formatBlock nonce (rfcFlags (a.length != 0) micLen) m.length)
  (ofFn (xorBlock (cbcMac encrypt x (authBlocks m a)) (keyBlock encrypt nonce 0))).take micLen

end

/-- A computation returns a value, if it has the time for it. -/
def Returns {α : Type} (run : Nat → Option α) (r : α) : Prop := ∃ fuel, run fuel = some r

structure AeadRight (encrypt : Block → Block) (nonce : Nonce) (m a : List UInt8) (micLen : Nat) : Prop where
  forward : Returns (aead encrypt nonce m a micLen true)
    (rfcCiphertext encrypt nonce m, rfcTag encrypt nonce m a micLen)
  backward : Returns (aead encrypt nonce (rfcCiphertext encrypt nonce m) a micLen false)
    (m, rfcTag encrypt nonce m a micLen)

/-- Lengths of a MIC: none, or one that the flags have room for. -/
def MicLength (micLen : Nat) : Prop := micLen = 0 ∨ 2 ≤ micLen ∧ micLen ≤ 16

variable {encrypt : Block → Block} {nonce : Nonce} {m a : List UInt8}

/-! ### Blocks -/

theorem setIv_eq (nonce : Nonce) (flags : UInt8) {n : Nat} (hn : n < 256) :
    setIv nonce flags (UInt8.ofNat n) = formatBlock nonce flags n := by
  funext ⟨i, hi⟩
  have hlen : (ofFn nonce).length = 13 := length_ofFn
  rw [setIv, formatBlock]
  rcases i with - | j
  · rfl
  · rw [if_neg (Nat.succ_ne_zero j), getD_cons_succ, Nat.add_sub_cancel]
    by_cases hj : j < 13
    · rw [dif_pos hj, List.getD_append _ _ _ _ (by omega), List.getD_eq_getElem _ _ (by omega), List.getElem_ofFn]
    · rw [dif_neg hj, getD_append_right _ _ _ _ (by omega), hlen]
      obtain rfl | rfl : j = 13 ∨ j = 14 := by omega
      · rw [if_pos rfl, twoBytes, Nat.div_eq_of_lt hn]
        rfl
      · rfl

theorem xorInto_eq (x : Block) (bs : List UInt8) (pos : Nat) :
    xorInto x bs pos = xorBlock x fun i => bs.getD (pos + i.val) 0 := by
  funext i
  rw [xorInto, xorBlock]
  split
  · rfl
  next hi => rw [getD_eq_default _ _ (by omega), UInt8.xor_zero]

theorem length_blocks (bs : List UInt8) : (blocks bs).length = (bs.length + 15) / 16 := by
  rw [blocks, length_map, length_range]

variable {k fuel : Nat}

theorem getElem_blocks (bs : List UInt8) (hk : k < (blocks bs).length) :
    (blocks bs)[k] = fun i => bs.getD (16 * k + i.val) 0 := by
  simp only [blocks, getElem_map, getElem_range]

theorem cbcMac_take_succ (x : Block) {bs : List Block} (hk : k < bs.length) :
    cbcMac encrypt x (bs.take (k + 1)) = encrypt (xorBlock (cbcMac encrypt x (bs.take k)) bs[k]) := by
  rw [cbcMac, cbcMac, take_succ_eq_append_getElem hk, foldl_append]
  rfl

/-! ### The MIC -/

/-- The loop over the blocks of a string, as long as its positions are below 256. -/
theorem macLoop_eq {bs : List UInt8} {pos : UInt8} {ls : List Block} (x : Block)
    (hls : ∀ (k : Nat) (hk : k < ls.length), ls[k] = fun i => bs.getD (pos.toNat + 16 * k + i.val) 0)
    (hlt : ∀ k < ls.length, pos.toNat + 16 * k < bs.length) (hend : bs.length ≤ pos.toNat + 16 * ls.length)
    (hroom : pos.toNat + 16 * ls.length < 256) (hfuel : ls.length < fuel) :
    macLoop encrypt bs fuel pos x = some (cbcMac encrypt x ls) := by
  have hpos : ∀ k ≤ ls.length, (UInt8.ofNat (pos.toNat + 16 * k)).toNat = pos.toNat + 16 * k := fun k hk =>
    UInt8.toNat_ofNat_of_lt' (show pos.toNat + 16 * k < 256 by omega)
  set st : Nat → UInt8 × Block := fun k =>
    (UInt8.ofNat (pos.toNat + 16 * k), cbcMac encrypt x (ls.take k)) with hst
  have hcond : ∀ k < ls.length, more bs (st k) = true := fun k hk => by
    rw [more, decide_eq_true_eq, hst, hpos k (by omega)]
    exact hlt k hk
  have hstep : ∀ k < ls.length, macStep encrypt bs (st k) = st (k + 1) := fun k hk => by
    refine Prod.ext ?_ ?_
    · show UInt8.ofNat (pos.toNat + 16 * k) + 16 = UInt8.ofNat (pos.toNat + 16 * (k + 1))
      rw [Nat.mul_succ, ← Nat.add_assoc, UInt8.ofNat_add (pos.toNat + 16 * k) 16]
      rfl
    · show encrypt (xorInto (cbcMac encrypt x (ls.take k)) bs (UInt8.ofNat (pos.toNat + 16 * k)).toNat) =
        cbcMac encrypt x (ls.take (k + 1))
      rw [hpos k (by omega), xorInto_eq, cbcMac_take_succ x hk, hls k hk]
  have hover : more bs (st ls.length) = false := by
    rw [more, decide_eq_false_iff_not, hst, hpos _ (Nat.le_refl _)]
    omega
  have htrace := whileLoop_trace st hcond hstep hover (Nat.zero_le _)
  have hstart : st 0 = (pos, x) := by
    rw [hst]
    dsimp only
    rw [Nat.mul_zero, Nat.add_zero, UInt8.ofNat_toNat, take_zero]
    rfl
  rw [hstart] at htrace
  rw [macLoop, whileLoop_mono (by omega) htrace, Option.map_some, hst]
  dsimp only
  rw [take_length]

/-- Positions come back to where they were: a loop that reaches the end of no round goes on for ever. -/
theorem macLoop_forever {bs : List UInt8} {pos : UInt8} (h : ∀ p : UInt8, p.toNat % 16 = pos.toNat % 16 → p.toNat <
    bs.length) (fuel : Nat) (x : Block) : macLoop encrypt bs fuel pos x = none := by
  have hcond : ∀ s : UInt8 × Block, s.1.toNat % 16 = pos.toNat % 16 → more bs s = true := fun s hs =>
    decide_eq_true (h s.1 hs)
  have hstep : ∀ s : UInt8 × Block, s.1.toNat % 16 = pos.toNat % 16 →
      (macStep encrypt bs s).1.toNat % 16 = pos.toNat % 16 := fun s hs => by
    show (s.1.toNat + 16) % 256 % 16 = _
    omega
  rw [macLoop, whileLoop_forever hcond hstep fuel rfl, Option.map_none]

/-- The associated data in front of the message. -/
theorem macLoop_first (x : Block) (ha : a.length ≤ 254) (hfuel : 16 < fuel) : macLoop encrypt a fuel 14 (encrypt
    (firstBlock x a)) = some (cbcMac encrypt x (blocks (twoBytes a.length ++ a))) := by
  set ls := blocks (twoBytes a.length ++ a) with hls
  have hlen : ls.length = (a.length + 17) / 16 := by
    rw [hls, length_blocks, length_append]
    show (2 + a.length + 15) / 16 = _
    congr 1
    omega
  have hget : ∀ n, (twoBytes a.length ++ a).getD (n + 2) 0 = a.getD n 0 := fun n => rfl
  obtain ⟨l, ls', hcons⟩ : ∃ l ls', ls = l :: ls' := exists_cons_of_length_pos (by omega)
  have hhead : firstBlock x a = xorBlock x l := by
    have hl : l = fun i => (twoBytes a.length ++ a).getD (16 * 0 + i.val) 0 := by
      rw [← getElem_blocks _ (by rw [← hls]; omega)]
      simp only [← hls, hcons, getElem_cons_zero]
    funext ⟨i, hi⟩
    rw [firstBlock, xorBlock, hl]
    dsimp only
    rw [Nat.mul_zero, Nat.zero_add]
    rcases i with - | - | i
    · rw [if_neg (by decide), if_neg (by omega)]
      show x 0 = x 0 ^^^ UInt8.ofNat (a.length / 256)
      rw [Nat.div_eq_of_lt (by omega)]
      exact UInt8.xor_zero.symm
    · rfl
    · rw [if_neg (by omega), hget]
      by_cases hia : i < a.length
      · rw [if_pos ⟨by omega, by omega⟩]
        rfl
      · rw [if_neg (by omega), getD_eq_default _ _ (by omega), UInt8.xor_zero]
  have hlen' : ls'.length + 1 = (a.length + 17) / 16 := by rw [← hlen, hcons, length_cons]
  rw [hhead, hcons]
  refine macLoop_eq _ (fun k hk => ?_) (fun k hk => ?_) ?_ ?_ (by omega)
  · have hk' : k + 1 < ls.length := by rw [hcons, length_cons]; omega
    have hblock := getElem_blocks (twoBytes a.length ++ a) (by rw [← hls]; exact hk')
    simp only [← hls, hcons, getElem_cons_succ] at hblock
    rw [hblock]
    funext i
    rw [show 16 * (k + 1) + i.val = (14 : UInt8).toNat + 16 * k + i.val + 2 by
      show _ = 14 + 16 * k + i.val + 2
      omega, hget]
  · show 14 + 16 * k < a.length
    omega
  · show a.length ≤ 14 + 16 * ls'.length
    omega
  · show 14 + 16 * ls'.length < 256
    omega

theorem macLoop_message (x : Block) (hm : m.length ≤ 240) (hfuel : 16 < fuel) :
    macLoop encrypt m fuel 0 x = some (cbcMac encrypt x (blocks m)) := by
  have hlen := length_blocks m
  refine macLoop_eq x (fun k hk => ?_) (fun k hk => ?_) ?_ ?_ (by omega)
  · rw [getElem_blocks m hk]
    funext i
    rw [show (0 : UInt8).toNat = 0 from rfl, Nat.zero_add]
  · show 0 + 16 * k < m.length
    omega
  · show m.length ≤ 0 + 16 * (blocks m).length
    omega
  · show 0 + 16 * (blocks m).length < 256
    omega

variable {micLen : Nat}

theorem authFlags_eq (adata : Bool) (hlo : 2 ≤ micLen) (hhi : micLen ≤ 16) :
    authFlags adata micLen = rfcFlags adata micLen := by
  have hall : ∀ (b : Bool) (n : Fin 17), 2 ≤ n.val → authFlags b n = rfcFlags b n := by decide
  exact hall adata ⟨micLen, by omega⟩ hlo

theorem ctrStep_block (nonce : Nonce) (x : Block) :
    ctrStep encrypt nonce 0 (List.ofFn x) 0 = List.ofFn (xorBlock x (keyBlock encrypt nonce 0)) := by
  have hiv : setIv nonce encryptionFlags 0 = formatBlock nonce 1 0 := setIv_eq nonce 1 (by decide)
  refine ext_getElem (by rw [ctrStep, length_mapIdx, length_ofFn, length_ofFn]) fun j h1 h2 => ?_
  rw [List.length_ofFn] at h2
  simp only [ctrStep, hiv, List.getElem_mapIdx, List.getElem_ofFn]
  rw [dif_pos ⟨Nat.zero_le _, by omega⟩]
  rfl

theorem mic_eq (hm : m.length ≤ 240) (ha : a.length ≤ 254) (hmic : MicLength micLen)
    (hfuel : 16 < fuel) : mic encrypt nonce m a micLen fuel = some (rfcTag encrypt nonce m a micLen) := by
  set x := encrypt (setIv nonce (authFlags (a.length != 0) micLen) (UInt8.ofNat m.length)) with hx
  have hdata : (if a.length ≠ 0 then macLoop encrypt a fuel 14 (encrypt (firstBlock x a)) else some x) =
      some (cbcMac encrypt x (if a = [] then [] else blocks (twoBytes a.length ++ a))) := by
    by_cases hnil : a = []
    · rw [if_pos hnil, hnil]
      rfl
    · rw [if_neg hnil, if_pos (fun hzero => hnil (length_eq_zero_iff.mp hzero))]
      exact macLoop_first x ha hfuel
  have hmessage : ∀ y, (if m.length ≠ 0 then macLoop encrypt m fuel 0 y else some y) =
      some (cbcMac encrypt y (blocks m)) := by
    intro y
    by_cases hnil : m.length = 0
    · rw [if_neg (fun hne => hne hnil), length_eq_zero_iff.mp hnil]
      rfl
    · rw [if_pos hnil]
      exact macLoop_message y hm hfuel
  rw [mic, ← hx, hdata]
  dsimp only
  rw [hmessage]
  dsimp only
  rw [ctrStep_block, rfcTag, authBlocks]
  simp only [cbcMac, foldl_append]
  rcases hmic with rfl | ⟨hlo, hhi⟩
  · rw [take_zero, take_zero]
  · rw [hx, authFlags_eq _ hlo hhi, setIv_eq nonce _ (by omega)]

/-! ### Counter mode -/

def keyByte (encrypt : Block → Block) (nonce : Nonce) (j : Nat) : UInt8 :=
  keyBlock encrypt nonce (j / 16 + 1) ⟨j % 16, Nat.mod_lt _ (by decide)⟩

/-- The first `n` bytes are XORed with the key stream. -/
def xorFirst (encrypt : Block → Block) (nonce : Nonce) (n : Nat) (m : List UInt8) : List UInt8 :=
  m.mapIdx fun j b => if j < n then b ^^^ keyByte encrypt nonce j else b

theorem ctrStep_xorFirst (nonce : Nonce) (m : List UInt8) (hk : k < 15) : ctrStep encrypt nonce (UInt8.ofNat (16 * k))
    (xorFirst encrypt nonce (16 * k) m) (UInt8.ofNat (k + 1)) = xorFirst encrypt nonce (16 * (k + 1)) m := by
  have hpos : (UInt8.ofNat (16 * k)).toNat = 16 * k := UInt8.toNat_ofNat_of_lt' (show 16 * k < 256 by omega)
  have hiv : setIv nonce encryptionFlags (UInt8.ofNat (k + 1)) = formatBlock nonce 1 (k + 1) :=
    setIv_eq nonce 1 (by omega)
  refine ext_getElem (by simp only [ctrStep, xorFirst, length_mapIdx]) fun j _ _ => ?_
  simp only [ctrStep, xorFirst, getElem_mapIdx, hpos, hiv]
  by_cases hlo : j < 16 * k
  · rw [if_pos hlo, dif_neg (by omega), if_pos (by omega)]
  · by_cases hhi : j - 16 * k < 16
    · rw [if_neg hlo, dif_pos ⟨by omega, hhi⟩, if_pos (by omega)]
      have hdiv : j / 16 = k := by omega
      have hmod : j - 16 * k = j % 16 := by omega
      simp only [keyByte, keyBlock, hdiv, hmod]
    · rw [if_neg hlo, dif_neg (by omega), if_neg (by omega)]

theorem ctr_eq (hm : m.length ≤ 240) (hfuel : 16 < fuel) :
    ctr encrypt nonce m fuel = some (rfcCiphertext encrypt nonce m) := by
  set n := (m.length + 15) / 16 with hn
  set st : Nat → UInt8 × UInt8 × List UInt8 := fun k =>
    (UInt8.ofNat (16 * k), UInt8.ofNat (k + 1), xorFirst encrypt nonce (16 * k) m) with hst
  have hpos : ∀ k ≤ n, (UInt8.ofNat (16 * k)).toNat = 16 * k := fun k hk =>
    UInt8.toNat_ofNat_of_lt' (show 16 * k < 256 by omega)
  have hcond : ∀ k < n, more m (st k) = true := fun k hk => by
    rw [more, decide_eq_true_eq, hst, hpos k (by omega)]
    omega
  have hstep : ∀ k < n, ctrNext encrypt nonce (st k) = st (k + 1) := fun k hk => by
    refine Prod.ext ?_ (Prod.ext ?_ (ctrStep_xorFirst nonce m (by omega)))
    · show UInt8.ofNat (16 * k) + 16 = UInt8.ofNat (16 * (k + 1))
      rw [Nat.mul_succ, UInt8.ofNat_add (16 * k) 16]
      rfl
    · show UInt8.ofNat (k + 1) + 1 = UInt8.ofNat (k + 1 + 1)
      rw [UInt8.ofNat_add (k + 1) 1]
      rfl
  have hover : more m (st n) = false := by
    rw [more, decide_eq_false_iff_not, hst, hpos n (Nat.le_refl n)]
    omega
  have htrace := whileLoop_trace st hcond hstep hover (Nat.zero_le _)
  have hstart : st 0 = (0, 1, m) := by
    refine Prod.ext rfl (Prod.ext rfl (ext_getElem ?_ fun j _ _ => ?_))
    · exact length_mapIdx
    · show (xorFirst encrypt nonce 0 m)[j] = m[j]
      simp only [xorFirst, getElem_mapIdx]
      rw [if_neg (Nat.not_lt_zero j)]
  rw [hstart] at htrace
  rw [ctr, whileLoop_mono (by omega) htrace, Option.map_some, hst]
  refine congrArg some (ext_getElem (by simp only [xorFirst, rfcCiphertext, length_mapIdx]) fun j h1 _ => ?_)
  simp only [xorFirst, length_mapIdx] at h1
  simp only [xorFirst, rfcCiphertext, getElem_mapIdx]
  rw [if_pos (by omega)]
  rfl

theorem length_rfcCiphertext (m : List UInt8) : (rfcCiphertext encrypt nonce m).length = m.length := length_mapIdx

/-- Counter mode twice gives the message back. -/
theorem rfcCiphertext_rfcCiphertext (m : List UInt8) :
    rfcCiphertext encrypt nonce (rfcCiphertext encrypt nonce m) = m := by
  refine ext_getElem (by rw [length_rfcCiphertext, length_rfcCiphertext]) fun j _ _ => ?_
  simp only [rfcCiphertext, getElem_mapIdx]
  rw [UInt8.xor_assoc, UInt8.xor_self, UInt8.xor_zero]

/-! ### Both together -/

/-- The MIC never comes where positions come back. -/
theorem mic_forever (hm : m.length < 256) (ha : a.length < 256) (hlong : 240 < m.length ∨ 254 < a.length)
    (micLen fuel : Nat) : mic encrypt nonce m a micLen fuel = none := by
  rw [mic]
  by_cases hdata : 254 < a.length
  · rw [if_pos (by omega), macLoop_forever fun p hp => ?_]
    have hp' : p.toNat % 16 = 14 := hp
    have := p.toNat_lt
    omega
  · have hmessage : ∀ y, (if m.length ≠ 0 then macLoop encrypt m fuel 0 y else some y) = none := by
      intro y
      rw [if_pos (by omega), macLoop_forever fun p hp => ?_]
      have hp' : p.toNat % 16 = 0 := hp
      have := p.toNat_lt
      omega
    split
    · rfl
    · rw [hmessage]

/-- EXACT: for lengths of a byte `aead` is right, and ends, as long as the message has 240 bytes and the associated
    data 254 at most. -/
theorem aeadRight_iff (encrypt : Block → Block) (nonce : Nonce) {m a : List UInt8} (hm : m.length < 256)
    (ha : a.length < 256) (hmic : MicLength micLen) :
    AeadRight encrypt nonce m a micLen ↔ m.length ≤ 240 ∧ a.length ≤ 254 := by
  constructor
  · rintro ⟨⟨fuel, hforward⟩, -⟩
    by_contra hlong
    rw [aead, if_pos rfl] at hforward
    dsimp only at hforward
    rw [mic_forever hm ha (by omega)] at hforward
    cases hforward
  · rintro ⟨hm', ha'⟩
    have hcipher : (rfcCiphertext encrypt nonce m).length = m.length := length_rfcCiphertext m
    refine ⟨⟨17, ?_⟩, ⟨17, ?_⟩⟩
    · rw [aead, if_pos rfl]
      dsimp only
      rw [mic_eq hm' ha' hmic (by decide)]
      rw [if_pos rfl, ctr_eq hm' (by decide)]
    · rw [aead, if_neg (by decide), ctr_eq (by omega) (by decide), rfcCiphertext_rfcCiphertext]
      dsimp only
      rw [mic_eq hm' ha' hmic (by decide)]
      rfl

/-- A block function that turns a block around. -/
def turned : Block → Block := fun x i => x (Fin.rev i)

/-- A message of two blocks with three blocks in front of it. -/
theorem aeadRight_blocks : AeadRight turned (fun _ => 0) (replicate 20 1) (replicate 40 2) 8 :=
  (aeadRight_iff turned (fun _ => 0) (by decide) (by decide) (.inr ⟨by decide, by decide⟩)).mpr ⟨by decide, by decide⟩

/-- A message of 241 bytes: the loop over its blocks is at the first again behind the last. -/
theorem aead_long_message : ¬AeadRight turned (fun _ => 0) (replicate 241 0) [] 8 := by
  rintro ⟨⟨fuel, hforward⟩, -⟩
  rw [aead, if_pos rfl] at hforward
  dsimp only at hforward
  rw [mic_forever (by rw [length_replicate]; decide) (by decide)
    (.inl (by rw [length_replicate]; decide))] at hforward
  cases hforward

end CSync.CcmStar
