import CSync.Coap.Message
import CSync.Lib.BigEndian

/-! Payloads that come in blocks (`apps/er-coap/er-coap-block1.c`).

    The handler copies the payload of a request to the offset of its block, and keeps nothing from one call to the
    next. The check for space adds the offset and the length in 32 bits. `target` and `len` are not NULL here. -/

namespace CSync.Coap
open Lib List

/-- `CONTINUE_2_31` and `REQUEST_ENTITY_TOO_LARGE_4_13`. -/
def continueCode : UInt8 := 95
def requestEntityTooLarge : Nat := 141

def coapSetHeaderBlock1 {S : Type} (p : CoapPacket S) (num : UInt32) (more : UInt8) (size : UInt16) : CoapPacket S :=
  if size < 16 then p
  else if 2048 < size then p
  else if 0x0FFFFF < num then p
  else { p with block1 := { p.block1 with num := num, more := more, size := size } }.setOption optionBlock1

/-- What `coap_block1_handler` leaves: what it returns, the response, what it copies to which offset of `target`,
    `*len` if it is set, and the error. -/
structure Block1Result where
  returned : Int
  response : CoapPacket (List UInt8)
  copied : Option (Nat × List UInt8)
  len : Option Nat
  error : Option (Nat × String)

def coapBlock1Handler (request response : CoapPacket (List UInt8)) (maxLen : Nat) : Block1Result :=
  let block := request.block1
  let reached := (block.offset + UInt32.ofNat request.payload.length).toNat
  if request.payload.length = 0 then ⟨-1, response, none, none, some (badRequest, "NoPayload")⟩
  else if maxLen < reached then ⟨-1, response, none, none, some (requestEntityTooLarge, "Message to big")⟩
  else
    let copied := some (block.offset.toNat, request.payload)
    if request.options optionBlock1 then
      let response := coapSetHeaderBlock1 response block.num block.more block.size
      if block.more ≠ 0 then ⟨1, { response with code := continueCode }, copied, some reached, none⟩
      else ⟨0, response, copied, some reached, none⟩
    else ⟨0, response, copied, some reached, none⟩

/-- What is copied stays in `target[0..max_len-1]`, and a call that fails copies nothing. -/
def Inside (r : Block1Result) (maxLen : Nat) : Prop :=
  ∀ o bs, r.copied = some (o, bs) → r.returned ≠ -1 ∧ o + bs.length ≤ maxLen

/-! ### A payload in blocks -/

def blockSize (szx : Nat) : Nat := 16 * 2 ^ szx

/-- The number of blocks. -/
def blocks (p : List UInt8) (szx : Nat) : Nat := (p.length + (blockSize szx - 1)) / blockSize szx

def blockValue (p : List UInt8) (szx i : Nat) : Nat :=
  i * 16 + (if (i + 1) * blockSize szx < p.length then 8 else 0) + szx

/-- A request has a block of the payload, in an option of any length. -/
structure Carries (p : List UInt8) (szx i : Nat) (request : CoapPacket (List UInt8)) : Prop where
  option : request.options optionBlock1 = true
  block : ∃ bytes, request.block1 = parseBlock (coapParseIntOption bytes) ∧ number bytes = blockValue p szx i
  payload : request.payload = (p.drop (i * blockSize szx)).take (blockSize szx)

/-- A request and its response. -/
abbrev Call : Type := CoapPacket (List UInt8) × CoapPacket (List UInt8)

/-- The first blocks have come in order, and the latest one so many times. -/
inductive Delivery (p : List UInt8) (szx : Nat) : List Call → Nat → Nat → Prop where
  | start : Delivery p szx [] 0 0
  | next {calls : List Call} {call : Call} {i times : Nat} (h : Delivery p szx calls i times)
      (hcarries : Carries p szx i call.1) : Delivery p szx (calls ++ [call]) (i + 1) 1
  | again {calls : List Call} {call : Call} {i times : Nat} (h : Delivery p szx calls (i + 1) times)
      (hcarries : Carries p szx i call.1) : Delivery p szx (calls ++ [call]) (i + 1) (times + 1)

/-- `target`, `*len`, and what the calls returned. -/
structure Assembly where
  target : Nat → UInt8
  len : Nat
  returned : List Int

/-- One call of the handler. -/
def receive (maxLen : Nat) (s : Assembly) (call : Call) : Assembly :=
  let r := coapBlock1Handler call.1 call.2 maxLen
  { target := match r.copied with
      | some (o, bs) => store s.target o bs
      | none => s.target
    len := r.len.getD s.len
    returned := s.returned ++ [r.returned] }

/-- The payload is there, and just the calls with the last block have returned 0. -/
def Assembled (p : List UInt8) (calls times : Nat) (s : Assembly) : Prop :=
  slice s.target 0 s.len = p ∧ s.returned = replicate (calls - times) 1 ++ replicate times 0

variable {request response : CoapPacket (List UInt8)} {maxLen : Nat} {p : List UInt8} {szx i : Nat}

theorem toNat_reached (block : Block) (n : Nat) :
    (block.offset + UInt32.ofNat n).toNat = (block.offset.toNat + n) % 2 ^ 32 := by
  rw [UInt32.toNat_add, UInt32.toNat_ofNat', Nat.add_mod_mod]

/-- A call that goes well. -/
theorem handler_of_fits (response : CoapPacket (List UInt8)) (hpayload : request.payload ≠ [])
    (hfits : (request.block1.offset.toNat + request.payload.length) % 2 ^ 32 ≤ maxLen) :
    let r := coapBlock1Handler request response maxLen
    r.copied = some (request.block1.offset.toNat, request.payload) ∧
      r.len = some ((request.block1.offset.toNat + request.payload.length) % 2 ^ 32) ∧
      r.returned = if request.options optionBlock1 = true ∧ request.block1.more ≠ 0 then 1 else 0 := by
  have hlength : request.payload.length ≠ 0 := mt length_eq_zero_iff.1 hpayload
  simp only [coapBlock1Handler, toNat_reached, if_neg hlength, if_neg (not_lt.2 hfits)]
  by_cases hoption : request.options optionBlock1 = true
  · rw [if_pos hoption]
    by_cases hmore : request.block1.more ≠ 0
    · rw [if_pos hmore, if_pos ⟨hoption, hmore⟩]
      exact ⟨rfl, rfl, rfl⟩
    · rw [if_neg hmore, if_neg fun h => hmore h.2]
      exact ⟨rfl, rfl, rfl⟩
  · rw [if_neg hoption, if_neg fun h => hoption h.1]
    exact ⟨rfl, rfl, rfl⟩

theorem handler_of_not_fits (response : CoapPacket (List UInt8)) (h : request.payload = [] ∨
    maxLen < (request.block1.offset.toNat + request.payload.length) % 2 ^ 32) :
    (coapBlock1Handler request response maxLen).copied = none := by
  simp only [coapBlock1Handler, toNat_reached, length_eq_zero_iff]
  split
  · rfl
  · rw [if_pos (h.resolve_left ‹_›)]

/-- The copies stay inside unless the sum is cut off. -/
theorem inside_iff : Inside (coapBlock1Handler request response maxLen) maxLen ↔
    ((request.block1.offset.toNat + request.payload.length) % 2 ^ 32 ≤ maxLen →
      request.block1.offset.toNat + request.payload.length ≤ maxLen) := by
  have hoffset := request.block1.offset.toNat_lt
  by_cases hnone : request.payload = [] ∨ maxLen < (request.block1.offset.toNat + request.payload.length) % 2 ^ 32
  · have hcopied := handler_of_not_fits response hnone
    refine iff_of_true (fun o bs h => ?_) fun hfits => ?_
    · rw [hcopied] at h
      cases h
    · have hempty := hnone.resolve_right (not_lt.2 hfits)
      rw [hempty] at hfits ⊢
      rwa [length_nil, Nat.mod_eq_of_lt (by omega)] at hfits
  · rw [not_or, not_lt] at hnone
    obtain ⟨hcopied, -, hreturned⟩ := handler_of_fits response hnone.1 hnone.2
    refine ⟨fun h _ => (h _ _ hcopied).2, fun h o bs hsome => ?_⟩
    rw [hcopied] at hsome
    cases hsome
    refine ⟨?_, h hnone.2⟩
    rw [hreturned]
    split <;> decide

theorem and_mask (i : Nat) {low : Nat} (hlow : low < 2 ^ 4) (hword : i * 16 + low < 2 ^ 32) :
    (i * 16 + low) &&& (2 ^ 32 - (15 + 1)) = i * 16 := by
  refine Nat.eq_of_testBit_eq fun j => ?_
  have hmask : Nat.testBit 15 j = decide (j < 4) := Nat.testBit_two_pow_sub_one 4 j
  rw [Nat.testBit_and, Nat.testBit_two_pow_sub_succ (by decide), hmask, mul_comm i 16]
  show (Nat.testBit (2 ^ 4 * i + low) j && _) = Nat.testBit (2 ^ 4 * i) j
  rw [Nat.testBit_two_pow_mul_add i hlow, Nat.testBit_two_pow_mul]
  rcases lt_or_ge j 4 with hj | hj
  · simp [hj]
  · rcases lt_or_ge j 32 with hj' | hj'
    · simp [hj, hj', Nat.not_lt.2 hj]
    · have hzero : Nat.testBit i (j - 4) = false := Nat.testBit_lt_two_pow
        (lt_of_lt_of_le (by omega : i < 2 ^ 28) (Nat.pow_le_pow_right (by decide) (by omega)))
      simp [hzero, Nat.not_lt.2 hj, Nat.not_lt.2 hj']

theorem parseBlock_fields {value : UInt32} {m : Nat} (hvalue : value.toNat = i * 16 + m * 8 + szx) (hm : m < 2)
    (hszx : szx < 8) (hoffset : i * blockSize szx < 2 ^ 32) :
    (parseBlock value).offset.toNat = i * blockSize szx ∧ ((parseBlock value).more ≠ 0 ↔ m = 1) := by
  have hword : i * 16 + m * 8 + szx < 2 ^ 32 := hvalue ▸ value.toNat_lt
  have hlow : (value &&& 7).toNat = szx := by
    rw [UInt32.toNat_and, hvalue]
    exact (Nat.and_two_pow_sub_one_eq_mod _ 3).trans (by omega)
  have hhigh : (value &&& ~~~0x0000000F).toNat = i * 16 := by
    rw [UInt32.toNat_and, hvalue, add_assoc]
    exact and_mask i (by omega) (by omega)
  constructor
  · rw [parseBlock]
    rw [UInt32.toNat_shiftLeft, hlow, hhigh, Nat.mod_eq_of_lt (by omega : szx < 32), Nat.shiftLeft_eq, mul_assoc]
    exact Nat.mod_eq_of_lt hoffset
  · have hmore : ((value &&& 0x08) >>> 3).toUInt8.toNat = m := by
      rw [UInt32.toNat_toUInt8, UInt32.toNat_shiftRight, UInt32.toNat_and, hvalue]
      have hbit : ((i * 16 + m * 8 + szx) &&& 8) >>> 3 = m := by
        rw [Nat.shiftRight_and_distrib, Nat.shiftRight_eq_div_pow]
        exact (Nat.and_one_is_mod _).trans (by omega)
      exact (congrArg (· % 256) hbit).trans (Nat.mod_eq_of_lt (by omega))
    rw [Ne, ← UInt8.toNat_inj]
    show ¬ ((value &&& 0x08) >>> 3).toUInt8.toNat = 0 ↔ m = 1
    omega

theorem block_fields (h : Carries p szx i request) (hszx : szx < 8) (hlength : p.length < 2 ^ 32)
    (hi : i * blockSize szx < p.length) : request.block1.offset.toNat = i * blockSize szx ∧
      (request.block1.more ≠ 0 ↔ (i + 1) * blockSize szx < p.length) := by
  obtain ⟨bytes, hblock, hnumber⟩ := h.block
  have hsize : i * 16 * 2 ^ szx = i * blockSize szx := mul_assoc ..
  have hle : i * 16 ≤ i * 16 * 2 ^ szx := Nat.le_mul_of_pos_right _ (Nat.two_pow_pos szx)
  have hvalue : (coapParseIntOption bytes).toNat = blockValue p szx i := by
    have hword := toNat_foldl_shiftIn bytes 0
    rw [UInt32.toNat_zero, zero_mul, zero_add, hnumber] at hword
    refine hword.trans (Nat.mod_eq_of_lt ?_)
    rw [blockValue]
    split <;> omega
  have hm : (if (i + 1) * blockSize szx < p.length then 8 else 0) =
      (if (i + 1) * blockSize szx < p.length then 1 else 0) * 8 := by
    split <;> rfl
  rw [blockValue, hm] at hvalue
  obtain ⟨hoffset, hmore⟩ := parseBlock_fields hvalue (by split <;> decide) hszx (by omega)
  rw [← hblock] at hoffset hmore
  refine ⟨hoffset, hmore.trans ?_⟩
  split <;> simp [*]

/-! ### The blocks of a payload -/

variable {calls : List Call} {call : Call} {times : Nat} {s : Assembly}

theorem blockSize_pos : 0 < blockSize szx := Nat.mul_pos (by decide) (Nat.two_pow_pos szx)

theorem lt_blocks_iff : i < blocks p szx ↔ i * blockSize szx < p.length := by
  have hpos : 0 < blockSize szx := blockSize_pos
  rw [blocks, ← Nat.succ_le_iff, Nat.le_div_iff_mul_le hpos, Nat.succ_mul]
  omega

/-- What stands in the buffer behind the first `i` blocks. -/
def Prefixed (p : List UInt8) (szx i : Nat) (s : Assembly) : Prop :=
  slice s.target 0 (min (i * blockSize szx) p.length) = p.take (i * blockSize szx)

/-- STEP: a call with a block of the payload. -/
theorem receive_block (h : Prefixed p szx i s) (hcarries : Carries p szx i call.1) (hszx : szx < 8)
    (hlength : p.length < 2 ^ 32) (hmax : p.length ≤ maxLen) (hi : i < blocks p szx) :
    let s' := receive maxLen s call
    Prefixed p szx (i + 1) s' ∧ s'.len = min ((i + 1) * blockSize szx) p.length ∧
      s'.returned = s.returned ++ [if i + 1 < blocks p szx then 1 else 0] := by
  rw [lt_blocks_iff] at hi
  obtain ⟨hoffset, hmore⟩ := block_fields hcarries hszx hlength hi
  have hpos : 0 < blockSize szx := blockSize_pos
  have hnext : (i + 1) * blockSize szx = i * blockSize szx + blockSize szx := Nat.succ_mul ..
  have hsum : call.1.block1.offset.toNat + call.1.payload.length = min ((i + 1) * blockSize szx) p.length := by
    rw [hoffset, hcarries.payload, length_take, length_drop]
    omega
  have hpayload : call.1.payload ≠ [] := by
    intro hnil
    rw [hnil, hoffset, length_nil] at hsum
    omega
  have hmod : (call.1.block1.offset.toNat + call.1.payload.length) % 2 ^ 32 =
      min ((i + 1) * blockSize szx) p.length := by
    rw [hsum]
    exact Nat.mod_eq_of_lt (by omega)
  have hfits : (call.1.block1.offset.toNat + call.1.payload.length) % 2 ^ 32 ≤ maxLen := by
    omega
  obtain ⟨hcopied, hlen, hreturned⟩ := handler_of_fits call.2 hpayload hfits
  rw [hmod] at hlen
  simp only [receive, hcopied, hlen, hreturned, Option.getD_some, Prefixed]
  refine ⟨?_, trivial, congrArg (s.returned ++ [·]) (if_congr ?_ rfl rfl)⟩
  · rw [Prefixed, min_eq_left hi.le] at h
    rw [← hsum, slice_append, zero_add, hoffset, slice_store_outside (.inl (by omega)), h,
      show slice (store _ _ _) _ _ = _ from holds_store _ _ _, hcarries.payload, hnext, take_add]
  · rw [hmore, lt_blocks_iff]
    exact and_iff_right hcarries.option

theorem Prefixed.of_succ (h : Prefixed p szx (i + 1) s) : Prefixed p szx i s := by
  have hle : i * blockSize szx ≤ (i + 1) * blockSize szx := Nat.mul_le_mul_right _ (Nat.le_succ i)
  have hmin : min (i * blockSize szx) p.length =
      min (i * blockSize szx) (min ((i + 1) * blockSize szx) p.length) := by omega
  rw [Prefixed] at h ⊢
  rw [hmin, slice_take, h, take_take, min_eq_left hle]

/-- RUN: behind a delivery the blocks that came stand in the buffer, and the calls with the last one returned 0. -/
theorem delivery_spec (h : Delivery p szx calls i times) (hszx : szx < 8) (hlength : p.length < 2 ^ 32)
    (hmax : p.length ≤ maxLen) (hi : i ≤ blocks p szx) (hp : p ≠ []) (hs : s.returned = []) :
    let s' := calls.foldl (receive maxLen) s
    Prefixed p szx i s' ∧ (0 < i → s'.len = min (i * blockSize szx) p.length) ∧ times ≤ calls.length ∧
      s'.returned = if i < blocks p szx then replicate calls.length 1
        else replicate (calls.length - times) 1 ++ replicate times 0 := by
  induction h with
  | start =>
    have hpos : 0 < blocks p szx := lt_blocks_iff.2 (by rw [zero_mul]; exact length_pos_iff.2 hp)
    refine ⟨?_, fun hlt => absurd hlt (lt_irrefl 0), le_refl 0, ?_⟩
    · rw [Prefixed, zero_mul, Nat.zero_min]
      rfl
    · rw [if_pos hpos]
      exact hs
  | next h hcarries ih =>
    obtain ⟨hstart, -, -, hreturned⟩ := ih (Nat.le_of_succ_le hi)
    obtain ⟨hstart', hlen, hreturned'⟩ := receive_block hstart hcarries hszx hlength hmax hi
    rw [if_pos (Nat.lt_of_succ_le hi)] at hreturned
    rw [foldl_concat, length_append, length_singleton]
    refine ⟨hstart', fun _ => hlen, Nat.le_add_left .., ?_⟩
    rw [hreturned', hreturned]
    split
    · exact replicate_succ'.symm
    · rfl
  | again h hcarries ih =>
    obtain ⟨hstart, -, htimes, hreturned⟩ := ih hi
    obtain ⟨hstart', hlen, hreturned'⟩ := receive_block hstart.of_succ hcarries hszx hlength hmax hi
    rw [foldl_concat, length_append, length_singleton]
    refine ⟨hstart', fun _ => hlen, Nat.succ_le_succ htimes, ?_⟩
    rw [hreturned', hreturned, Nat.add_sub_add_right]
    split
    · exact replicate_succ'.symm
    · rw [append_assoc, ← replicate_succ']

theorem len_lt (h : Delivery p szx calls i times) (hi : i ≤ blocks p szx) (hpos : 0 < i) (hmax : 2 ^ 32 ≤ maxLen) :
    (calls.foldl (receive maxLen) s).len < 2 ^ 32 := by
  have hlast : ∀ (calls : List Call) (call : Call) (i : Nat), Carries p szx i call.1 → i < blocks p szx →
      ((calls ++ [call]).foldl (receive maxLen) s).len < 2 ^ 32 := by
    intro calls call i hcarries hi
    have hpayload : call.1.payload ≠ [] := by
      rw [lt_blocks_iff] at hi
      have hsize : 0 < blockSize szx := blockSize_pos
      rw [hcarries.payload, ← length_pos_iff, length_take, length_drop]
      omega
    have hsum := Nat.mod_lt (call.1.block1.offset.toNat + call.1.payload.length) (Nat.two_pow_pos 32)
    obtain ⟨-, hlen, -⟩ := handler_of_fits call.2 hpayload (hsum.le.trans hmax)
    rw [foldl_concat, receive, hlen]
    exact hsum
  cases h with
  | start => exact absurd hpos (lt_irrefl 0)
  | next _ hcarries => exact hlast _ _ _ hcarries hi
  | again _ hcarries => exact hlast _ _ _ hcarries hi

/-- The check for space sees the sum of the offset and the length cut off at 32 bits. The handler stays
    inside of `target` unless that hides that the block does not fit, and a payload that came in order is put
    together if its length has 32 bits. -/
theorem block1_assembly_iff (maxLen : Nat) :
    (∀ request response : CoapPacket (List UInt8), Inside (coapBlock1Handler request response maxLen) maxLen ↔
      ((request.block1.offset.toNat + request.payload.length) % 2 ^ 32 ≤ maxLen →
        request.block1.offset.toNat + request.payload.length ≤ maxLen)) ∧
    ∀ (p : List UInt8) (szx : Nat) (calls : List Call) (times : Nat) (target : Nat → UInt8) (len : Nat), szx < 8 →
      p ≠ [] → p.length ≤ maxLen → Delivery p szx calls (blocks p szx) times →
      (Assembled p calls.length times (calls.foldl (receive maxLen) ⟨target, len, []⟩) ↔ p.length < 2 ^ 32) := by
  refine ⟨fun _ _ => inside_iff, fun p szx calls times target len hszx hp hmax hdelivery => ?_⟩
  have hpos : 0 < blocks p szx := lt_blocks_iff.2 (by rw [zero_mul]; exact length_pos_iff.2 hp)
  constructor
  · rintro ⟨hslice, -⟩
    by_contra hlong
    have hlen := len_lt (s := ⟨target, len, []⟩) hdelivery le_rfl hpos ((not_lt.1 hlong).trans hmax)
    rw [← hslice, length_slice] at hlong
    exact hlong hlen
  · intro hlength
    obtain ⟨hstart, hlen, -, hreturned⟩ :=
      delivery_spec (s := ⟨target, len, []⟩) hdelivery hszx hlength hmax le_rfl hp rfl
    have hall : p.length ≤ blocks p szx * blockSize szx := not_lt.1 fun h => lt_irrefl _ (lt_blocks_iff.2 h)
    rw [if_neg (lt_irrefl _)] at hreturned
    refine ⟨?_, hreturned⟩
    rw [hlen hpos, hstart, take_of_length_le hall]

/-- A request with a block of twenty bytes in blocks of sixteen. -/
def twentyBytes (i : Nat) (option : UInt8) : CoapPacket (List UInt8) :=
  { (emptyPacket []).setOption optionBlock1 with
    block1 := parseBlock (coapParseIntOption [option])
    payload := ((replicate 20 7).drop (i * 16)).take 16 }

theorem carries_twentyBytes : Carries (replicate 20 7) 0 0 (twentyBytes 0 8) ∧
    Carries (replicate 20 7) 0 1 (twentyBytes 1 16) :=
  ⟨⟨rfl, ⟨[8], rfl, by decide⟩, rfl⟩, ⟨rfl, ⟨[16], rfl, by decide⟩, rfl⟩⟩

/-- The first block comes twice, the second one once. -/
theorem block1_assembly_twentyBytes :
    Assembled (replicate 20 7) 3 1 ([(twentyBytes 0 8, emptyPacket []), (twentyBytes 0 8, emptyPacket []),
      (twentyBytes 1 16, emptyPacket [])].foldl (receive 32) ⟨fun _ => 0, 0, []⟩) :=
  ((block1_assembly_iff 32).2 (replicate 20 7) 0 _ 1 (fun _ => 0) 0 (by decide) (by decide) (by decide)
    (.next (.again (.next .start carries_twentyBytes.1) carries_twentyBytes.1) carries_twentyBytes.2)).2 (by decide)

/-- The last block below 2^32, with sixteen bytes. -/
def farBlock : CoapPacket (List UInt8) :=
  { (emptyPacket []).setOption optionBlock1 with
    block1 := parseBlock (coapParseIntOption [0xff, 0xff, 0xff, 0xf0])
    payload := replicate 16 7 }

/-- Sixteen bytes are copied to the offset 2^32 - 16 of a buffer of 128 bytes. -/
theorem farBlock_outside : (coapBlock1Handler farBlock (emptyPacket []) 128).copied =
    some (4294967280, replicate 16 7) ∧ ¬ Inside (coapBlock1Handler farBlock (emptyPacket []) 128) 128 := by
  have hcopied : (coapBlock1Handler farBlock (emptyPacket []) 128).copied =
      some (4294967280, replicate 16 7) := by decide
  exact ⟨hcopied, fun h => absurd (h _ _ hcopied).2 (by decide)⟩

end CSync.Coap
