import CSync.Apps.MqttStream

/-! The client reads a packet.

    What the client knows of a packet is a function of the number of bytes that it has read of it: `headerPacket`
    while it reads the length, `contentPacket` behind that. Each part of `tcp_input` moves it from one count to
    another one, and a packet that is complete is delivered. -/

namespace CSync.Mqtt
open Lib List

variable {p : Packet} {s : Segment} {conn : Connection} {c pos k m : Nat}

/-! ### The bytes of a packet -/

/-- Where the part of a packet begins that goes into the payload. -/
def Body.start : Body → Nat
  | .publish topic _ => 2 + topic.length
  | _ => 0

def Packet.byte (p : Packet) (i : Nat) : UInt8 := p.bytes.getD i 0

/-- The segment brings the bytes of the packet from the byte `c` on. -/
structure Brings (p : Packet) (c : Nat) (s : Segment) : Prop where
  le : c + s.len ≤ p.bytes.length
  byte : ∀ i < s.len, s.byte i = p.byte (c + i)

theorem length_encodeLength : ∀ (digits n : Nat), (encodeLength digits n).length = digits
  | 0, _ => rfl
  | 1, _ => rfl
  | digits + 2, n => by rw [encodeLength, length_cons, length_encodeLength (digits + 1)]

theorem length_bytes (p : Packet) : p.bytes.length = 1 + p.digits + p.remaining := by
  rw [Packet.bytes, length_cons, length_append, length_encodeLength, Packet.remaining]
  omega

theorem byte_zero (p : Packet) : p.byte 0 = p.fhdr := rfl

theorem byte_digit {d : Nat} (hd : d < p.digits) : p.byte (1 + d) = (encodeLength p.digits p.remaining).getD d 0 := by
  rw [Packet.byte, Packet.bytes, add_comm 1 d, getD_cons_succ, getD_append]
  rw [length_encodeLength]
  exact hd

theorem byte_content (p : Packet) (k : Nat) : p.byte (1 + p.digits + k) = p.content.getD k 0 := by
  rw [Packet.byte, Packet.bytes, show 1 + p.digits + k = p.digits + k + 1 by omega, getD_cons_succ,
    getD_append_right _ _ _ _ (by rw [length_encodeLength]; omega), length_encodeLength, Nat.add_sub_cancel_left]

theorem getD_encodeLength : ∀ {digits n d : Nat}, n < 128 ^ digits → d < digits →
    (encodeLength digits n).getD d 0 = UInt8.ofNat (n / 128 ^ d % 128 + if d + 1 < digits then 128 else 0)
  | 0, _, _, _, hd => absurd hd (Nat.not_lt_zero _)
  | 1, n, d, hn, hd => by
    obtain rfl : d = 0 := by omega
    rw [encodeLength, getD_cons_zero, pow_zero, Nat.div_one, Nat.mod_eq_of_lt (by omega)]
    rfl
  | digits + 2, n, 0, _, _ => by
    rw [encodeLength, getD_cons_zero, pow_zero, Nat.div_one, if_pos (by omega)]
  | digits + 2, n, d + 1, hn, hd => by
    have hlt : n / 128 < 128 ^ (digits + 1) := by
      rw [Nat.div_lt_iff_lt_mul (by decide), ← pow_succ]
      exact hn
    rw [encodeLength, getD_cons_succ, getD_encodeLength hlt (by omega), Nat.div_div_eq_div_mul, ← Nat.pow_succ']
    simp only [Nat.add_lt_add_iff_right]

theorem low_bits (n : Nat) (b : Bool) : (UInt8.ofNat (n % 128 + if b then 128 else 0) &&& 127).toNat = n % 128 ∧
    (UInt8.ofNat (n % 128 + if b then 128 else 0) &&& 128 ≠ 0 ↔ b = true) := by
  have h : ∀ (i : Fin 128) (b : Bool), (UInt8.ofNat (i.val + if b then 128 else 0) &&& 127).toNat = i.val ∧
      (UInt8.ofNat (i.val + if b then 128 else 0) &&& 128 ≠ 0 ↔ b = true) := by decide
  exact h ⟨n % 128, Nat.mod_lt _ (by decide)⟩ b

/-- The first byte of a packet tells its type. -/
theorem fhdr_type (hp : p.WellFormed) : p.fhdr &&& 0xF0 = p.body.type := by
  obtain ⟨flags, hflags⟩ := exists_fin (n := 16) (y := 16) rfl hp.flags
  have hmask : ∀ f : Fin 16, (msgTypeConnack ||| UInt8.ofNat f) &&& 0xF0 = msgTypeConnack ∧
      (msgTypePublish ||| UInt8.ofNat f) &&& 0xF0 = msgTypePublish ∧
      (msgTypePuback ||| UInt8.ofNat f) &&& 0xF0 = msgTypePuback ∧
      (msgTypeSuback ||| UInt8.ofNat f) &&& 0xF0 = msgTypeSuback ∧
      (msgTypeUnsuback ||| UInt8.ofNat f) &&& 0xF0 = msgTypeUnsuback ∧
      (msgTypePingresp ||| UInt8.ofNat f) &&& 0xF0 = msgTypePingresp := by decide
  obtain ⟨hconnack, hpublish, hpuback, hsuback, hunsuback, hpingresp⟩ := hmask flags
  rw [Packet.fhdr, hflags]
  cases p.body with
  | connack => exact hconnack
  | publish => exact hpublish
  | puback => exact hpuback
  | suback => exact hsuback
  | unsuback => exact hunsuback
  | pingresp => exact hpingresp

theorem fhdr_ne_zero (hp : p.WellFormed) : p.fhdr ≠ 0 := by
  intro h
  have htype := fhdr_type hp
  rw [h] at htype
  cases hbody : p.body <;> rw [hbody] at htype <;> cases htype

theorem type_eq_publish (b : Body) : b.type = msgTypePublish ↔ 0 < b.start := by
  cases b <;> simp [Body.type, Body.start, msgTypeConnack, msgTypePublish, msgTypePuback, msgTypeSuback,
    msgTypeUnsuback, msgTypePingresp]

/-! ### What the client knows of a packet -/

/-- Inside of the header, behind `c` bytes. -/
def headerPacket (p : Packet) (c : Nat) : InPacket :=
  { resetPacket with
    fhdr := p.fhdr, byteCounter := c,
    remainingLength := p.remaining % 128 ^ min (c - 1) 2,
    remainingMultiplier := 128 ^ (c - 1) % 256,
    remainingLengthBytes := c - 1 }

/-- Behind `k` bytes of the content. -/
def contentPacket (p : Packet) (k : Nat) : InPacket where
  byteCounter := 1 + p.digits + k
  packetReceived := false
  fhdr := p.fhdr
  remainingLength := p.remaining
  remainingMultiplier := 128 ^ p.digits % 256
  hasRemainingLength := true
  remainingLengthBytes := p.digits
  payloadPos := UInt8.ofNat (k - p.body.start)
  payload := store (fun _ => 0) 0 ((p.content.drop p.body.start).take (k - p.body.start))
  topicLen := if 2 ≤ k then p.body.start - 2 else 0
  topicPos := min (k - 2) (p.body.start - 2)
  topicLenReceived := decide (0 < p.body.start ∧ 2 ≤ k)
  topicReceived := decide (0 < p.body.start ∧ p.body.start ≤ k)

theorem contentPacket_zero (p : Packet) : contentPacket p 0 = { resetPacket with
      fhdr := p.fhdr, byteCounter := 1 + p.digits,
      remainingLength := p.remaining,
      remainingMultiplier := 128 ^ p.digits % 256,
      hasRemainingLength := true,
      remainingLengthBytes := p.digits } := by
  have hstore : store (fun _ => 0) 0 ([] : List UInt8) = fun _ => 0 := funext fun i => store_outside (by simp)
  simp only [contentPacket, resetPacket, Nat.zero_sub, take_zero, hstore, Nat.zero_min, add_zero]
  simp
  omega

/-- What the message knows of a PUBLISH, behind `k` bytes of the content. -/
def Heard : Body → Nat → Message → Prop
  | .publish topic _, k, msg => Holds msg.topic 0 (topic.take (k - 2)) ∧
      (2 + topic.length ≤ k → msg.topic topic.length = 0) ∧ (2 ≤ k → msg.firstChunk = true)
  | _, _, _ => True

/-- The topic is complete when the payload begins. -/
theorem Heard.add {b : Body} {k : Nat} {msg : Message} (h : Heard b k msg) (hstart : b.start ≤ k) (m : Nat) :
    Heard b (k + m) msg := by
  cases b with
  | publish topic payload =>
    obtain ⟨hholds, hend, hfirst⟩ := h
    have hle : 2 + topic.length ≤ k := hstart
    refine ⟨?_, fun _ => hend hle, fun _ => hfirst (by omega)⟩
    rw [take_of_length_le (by omega)] at hholds ⊢
    exact hholds
  | connack | puback | suback | unsuback | pingresp => trivial

/-- The length is complete, and in range. -/
theorem remaining_lt (hp : p.WellFormed) (hfits : p.body.Fits) : p.remaining < 2 ^ 14 := by
  have hbody := hp.body
  rw [Packet.remaining, Packet.content]
  cases hb : p.body with
  | publish topic payload =>
    rw [hb] at hfits
    obtain ⟨htopic, hpayload⟩ := hfits
    rw [maxTopicLength] at htopic
    simp only [Body.content, length_cons, length_append]
    omega
  | suback high low granted =>
    rw [hb] at hbody
    have hle := hbody.2
    rw [inputBuffSize] at hle
    simp only [Body.content, length_cons]
    omega
  | connack reserved code => simp [Body.content]
  | puback high low => simp [Body.content]
  | unsuback high low => simp [Body.content]
  | pingresp => simp [Body.content]

theorem next_digit (hp : p.WellFormed) {d : Nat} (hd : d < p.digits) :
    let byte := UInt8.ofNat (p.remaining / 128 ^ d % 128 + if d + 1 < p.digits then 128 else 0)
    (p.remaining % 128 ^ min d 2 + (byte &&& 127).toNat * (128 ^ d % 256)) % 2 ^ 16 = p.remaining % 128 ^ min (d + 1) 2 ∧
    128 ^ d % 256 * 128 % 256 = 128 ^ (d + 1) % 256 ∧ (byte &&& 128 ≠ 0 ↔ d + 1 < p.digits) := by
  have hbits := low_bits (p.remaining / 128 ^ d) (decide (d + 1 < p.digits))
  simp only [decide_eq_true_eq] at hbits
  have hle := hp.digits_le
  refine ⟨?_, ?_, hbits.2⟩
  · rw [hbits.1]
    obtain rfl | rfl | rfl | rfl : d = 0 ∨ d = 1 ∨ d = 2 ∨ d = 3 := by omega
    all_goals simp
    all_goals omega
  · rw [Nat.mod_mul_mod, pow_succ]

theorem readRemainingLength_spec (hp : p.WellFormed) (hlt : p.remaining < 2 ^ 14) (hs : Brings p c s) : ∀ (n d : Nat)
    (conn : Connection) (pos fuel : Nat), d + n = p.digits → 0 < n → c + pos = 1 + d → pos ≤ s.len →
    conn.inPacket = headerPacket p (1 + d) → s.len - pos < fuel →
    (1 + p.digits ≤ c + s.len → readRemainingLength s fuel conn pos =
      ({ conn with inPacket := contentPacket p 0 }, some (1 + p.digits - c))) ∧
    (c + s.len < 1 + p.digits → readRemainingLength s fuel conn pos =
      ({ conn with inPacket := headerPacket p (c + s.len) }, none))
  | 0, _, _, _, _, _, hn, _, _, _, _ => absurd hn (lt_irrefl 0)
  | n + 1, d, conn, pos, fuel, hdn, _, hpos, hle, hpacket, hfuel => by
    obtain ⟨fuel, rfl⟩ := Nat.exists_eq_add_of_lt (Nat.zero_lt_of_lt hfuel)
    rw [zero_add, readRemainingLength]
    by_cases hend : s.len ≤ pos
    · rw [if_pos hend]
      refine ⟨fun h => by omega, fun _ => ?_⟩
      have hsame : c + s.len = 1 + d := by omega
      rw [hsame, ← hpacket]
    · rw [if_neg hend]
      have hd : d < p.digits := by omega
      have hbyte : s.byte pos = UInt8.ofNat (p.remaining / 128 ^ d % 128 + if d + 1 < p.digits then 128 else 0) := by
        rw [hs.byte pos (by omega), hpos, byte_digit hd, getD_encodeLength hp.remaining_lt hd]
      obtain ⟨hlength, hmult, hmore⟩ := next_digit hp hd
      have hcount := hp.digits_le
      simp only [hpacket]
      rw [if_neg (by simp only [headerPacket]; omega), hbyte]
      generalize UInt8.ofNat (p.remaining / 128 ^ d % 128 + if d + 1 < p.digits then 128 else 0) = byte
        at hlength hmore ⊢
      have hbytes : (d + 1) % 256 = d + 1 := Nat.mod_eq_of_lt (by omega)
      simp only [headerPacket, resetPacket, Nat.add_sub_cancel_left, hlength, hmult, hbytes]
      by_cases hlast : d + 1 < p.digits
      · rw [if_pos (hmore.mpr hlast)]
        have ih := readRemainingLength_spec hp hlt hs n (d + 1)
          { conn with inPacket := headerPacket p (1 + (d + 1)) } (pos + 1) fuel (by omega) (by omega) (by omega)
          (by omega) rfl (by omega)
        simp only [headerPacket, resetPacket, Nat.add_sub_cancel_left] at ih
        exact ih
      · rw [if_neg (fun h => hlast (hmore.mp h))]
        have hdigits : p.digits = d + 1 := by omega
        refine ⟨fun _ => ?_, fun h => by omega⟩
        have hlength : p.remaining % 128 ^ min (d + 1) 2 = p.remaining := by
          refine Nat.mod_eq_of_lt ?_
          have := hp.remaining_lt
          rw [hdigits] at this
          rcases lt_or_ge d 1 with hd | hd
          · obtain rfl : d = 0 := by omega
            exact this
          · rw [min_eq_right (by omega)]
            exact hlt
        rw [contentPacket_zero, hlength, hdigits, show pos + 1 = 1 + (d + 1) - c by omega]
        simp only [resetPacket, add_assoc]

/-! ### The content -/

theorem left_eq (h : pos ≤ s.len) (hlt : s.len < 2 ^ 32) : s.left pos = s.len - pos := by
  rw [Segment.left]
  omega

theorem slice_content (hs : Brings p c s) : ∀ {n pos k : Nat}, c + pos = 1 + p.digits + k → pos + n ≤ s.len →
    slice s.byte pos n = (p.content.drop k).take n
  | 0, _, _, _, _ => rfl
  | n + 1, pos, k, hpos, hle => by
    have hbytes := hs.le
    rw [length_bytes] at hbytes
    have hk : k < p.content.length := by
      rw [← Packet.remaining]
      omega
    have hnext : c + (pos + 1) = 1 + p.digits + (k + 1) := by omega
    rw [slice, slice_content hs hnext (by omega), hs.byte pos (by omega), hpos,
      byte_content, drop_eq_getElem_cons hk, take_succ_cons, getD_eq_getElem _ _ hk]

theorem store_content (hs : Brings p c s) (hpos : c + pos = 1 + p.digits + k) (hle : pos ≤ s.len)
    (hplace : p.body.start ≤ k ∨ pos = s.len) :
    store (contentPacket p k).payload (k - p.body.start) (slice s.byte pos (s.len - pos)) =
      (contentPacket p (k + (s.len - pos))).payload := by
  have hbytes := hs.le
  rw [length_bytes, Packet.remaining] at hbytes
  rcases hplace with hstart | rfl
  · have hlength : ((p.content.drop p.body.start).take (k - p.body.start)).length = k - p.body.start := by
      rw [length_take, length_drop]
      omega
    have hpiece : slice s.byte pos (s.len - pos) =
        ((p.content.drop p.body.start).drop (k - p.body.start)).take (s.len - pos) := by
      rw [slice_content hs hpos (by omega), drop_drop, show p.body.start + (k - p.body.start) = k by omega]
    have happend := store_append (fun _ => 0) 0 ((p.content.drop p.body.start).take (k - p.body.start))
      (slice s.byte pos (s.len - pos))
    rw [store_comm le_rfl, hlength, zero_add] at happend
    rw [contentPacket, contentPacket]
    rw [happend, hpiece, ← take_add, show k - p.body.start + (s.len - pos) = k + (s.len - pos) - p.body.start by omega]
  · rw [Nat.sub_self, Nat.add_zero]
    exact funext fun i => store_outside (by simp [slice]; omega)

theorem start_cases (b : Body) : b.start = 0 ∨ 2 ≤ b.start := by
  cases b with
  | publish topic payload => exact .inr (Nat.le_add_right 2 _)
  | connack | puback | suback | unsuback | pingresp => exact .inl rfl

/-- Only the count and the payload change behind the start of the payload. -/
theorem contentPacket_add (p : Packet) {k m : Nat} (hplace : p.body.start ≤ k ∨ m = 0) : contentPacket p (k + m) =
    { contentPacket p k with
      byteCounter := 1 + p.digits + k + m,
      payloadPos := UInt8.ofNat (k - p.body.start) + UInt8.ofNat m,
      payload := (contentPacket p (k + m)).payload } := by
  rcases hplace with hstart | rfl
  · have hcases := start_cases p.body
    have hlen : (if 2 ≤ k + m then p.body.start - 2 else 0) = if 2 ≤ k then p.body.start - 2 else 0 := by
      split <;> split <;> omega
    have hpos : min (k + m - 2) (p.body.start - 2) = min (k - 2) (p.body.start - 2) := by omega
    have hlenReceived : decide (0 < p.body.start ∧ 2 ≤ k + m) = decide (0 < p.body.start ∧ 2 ≤ k) :=
      decide_eq_decide.mpr (by omega)
    have hreceived : decide (0 < p.body.start ∧ p.body.start ≤ k + m) = decide (0 < p.body.start ∧ p.body.start ≤ k) :=
      decide_eq_decide.mpr (by omega)
    have hplace : UInt8.ofNat (k + m - p.body.start) = UInt8.ofNat (k - p.body.start) + UInt8.ofNat m := by
      rw [← UInt8.ofNat_add, Nat.sub_add_comm hstart]
    simp only [contentPacket, hlen, hpos, hlenReceived, hreceived, hplace, add_assoc]
  · simp [contentPacket]

theorem printCopied_ends {n : Nat} (hn : n < 256) (fuel : Nat) (i : UInt8) (h : n ≤ i.toNat + fuel) :
    printCopied n (fuel + 1) i = some () := by
  induction fuel generalizing i with
  | zero => exact if_neg (Nat.not_lt.mpr h)
  | succ fuel ih =>
    rw [printCopied]
    split
    next hi =>
      refine ih (i + 1) ?_
      have hnext : (i + 1).toNat = i.toNat + 1 := by
        rw [UInt8.toNat_add]
        exact Nat.mod_eq_of_lt (Nat.lt_of_le_of_lt hi hn)
      omega
    · rfl

/-- The rest of the segment goes behind the part of the payload that is there. -/
theorem copyPayload_spec (hs : Brings p c s) (hlt : s.len < 2 ^ 32) (hpos : c + pos = 1 + p.digits + k)
    (hle : pos ≤ s.len) (hpacket : conn.inPacket = contentPacket p k)
    (hplace : p.body.start ≤ k ∨ pos = s.len) (hsmall : k - p.body.start < 256)
    (hfit : k - p.body.start + (s.len - pos) ≤ inputBuffSize) (hfew : s.len - pos < 256) :
    copyPayload s conn pos = some ({ conn with
      inPacket := contentPacket p (k + (s.len - pos)),
      writes := .payload (k - p.body.start) (s.len - pos) :: conn.writes }, s.len) := by
  have hat : (contentPacket p k).payloadPos.toNat = k - p.body.start := UInt8.toNat_ofNat_of_lt' hsmall
  have hcopy : min (s.left pos) (inputBuffSize - (k - p.body.start)) = s.len - pos := by
    rw [left_eq hle hlt]
    omega
  rw [copyPayload]
  simp only [hpacket, hat, hcopy, store_content hs hpos hle hplace, printCopied_ends hfew _ 0 (Nat.le_add_left ..),
    Option.map_some]
  have hfull : ¬ inputBuffSize - ((contentPacket p k).payloadPos + UInt8.ofNat (s.len - pos)).toNat = 0 := by
    have := ((contentPacket p k).payloadPos + UInt8.ofNat (s.len - pos)).toNat_lt
    rw [inputBuffSize]
    omega
  rw [if_neg hfull, contentPacket_add p (hplace.imp_right fun h => by omega), Nat.add_sub_cancel' hle]
  rfl

/-! ### The variable header of a PUBLISH -/

/-- Behind `k` bytes of the content of a PUBLISH, before the topic is looked at. -/
def topicPacket (p : Packet) (k : Nat) : InPacket := { contentPacket p k with topicReceived := false }

variable {topic payload : List UInt8} {j n : Nat}

theorem readTopicLen_spec (hs : Brings p c s) (hbody : p.body = .publish topic payload)
    (htopic : topic.length < 65536) (hpos : c + pos = 1 + p.digits) (hle : pos + 2 ≤ s.len)
    (hpacket : conn.inPacket = contentPacket p 0) :
    readTopicLen s conn pos = ({ conn with inPacket := topicPacket p 2 }, pos + 2, true) := by
  have hhigh : s.byte pos = UInt8.ofNat (topic.length / 256) := by
    rw [hs.byte pos (by omega), show c + pos = 1 + p.digits + 0 from hpos, byte_content, Packet.content, hbody]
    rfl
  have hlow : s.byte (pos + 1) = UInt8.ofNat topic.length := by
    rw [hs.byte (pos + 1) (by omega), show c + (pos + 1) = 1 + p.digits + 1 by omega, byte_content, Packet.content,
      hbody]
    rfl
  have hlength : 256 * (UInt8.ofNat (topic.length / 256)).toNat + (UInt8.ofNat topic.length).toNat = topic.length := by
    rw [UInt8.toNat_ofNat', UInt8.toNat_ofNat']
    omega
  have hstart : p.body.start = 2 + topic.length := by rw [hbody]; rfl
  rw [readTopicLen, hpacket]
  simp only [hhigh, hlow, hlength]
  rw [if_neg (by simp [contentPacket]), if_neg (by omega)]
  simp [topicPacket, contentPacket, hstart]

theorem topicPacket_add (hbody : p.body = .publish topic payload)
    (hj : j + n ≤ topic.length) : contentPacket p (2 + j + n) = { topicPacket p (2 + j) with
      byteCounter := 1 + p.digits + (2 + j) + n,
      topicLen := topic.length,
      topicPos := j + n,
      topicReceived := decide (topic.length - (j + n) = 0) } := by
  have hstart : p.body.start = 2 + topic.length := by rw [hbody]; rfl
  have hnone : 2 + j + n - (2 + topic.length) = 0 := by omega
  have hnone' : 2 + j - (2 + topic.length) = 0 := by omega
  have hpos : min (2 + j + n - 2) topic.length = j + n := by omega
  have hreceived : decide (0 < 2 + topic.length ∧ 2 + topic.length ≤ 2 + j + n) =
      decide (topic.length - (j + n) = 0) := decide_eq_decide.mpr (by omega)
  have hlen : decide (0 < 2 + topic.length ∧ 2 ≤ 2 + j + n) = decide (0 < 2 + topic.length ∧ 2 ≤ 2 + j) :=
    decide_eq_decide.mpr (by omega)
  have hcount : 1 + p.digits + (2 + j + n) = 1 + p.digits + (2 + j) + n := by omega
  simp only [contentPacket, topicPacket, hstart, hnone, hnone', hpos, hreceived, hlen, hcount,
    if_pos (show 2 ≤ 2 + j + n by omega), Nat.add_sub_cancel_left]

/-- Nothing is delivered, and what is written lies in the buffers. -/
structure Quiet (conn conn' : Connection) : Prop where
  events : conn'.events = conn.events
  writes : ∀ x ∈ conn'.writes, x ∈ conn.writes ∨ x.Inside

theorem Quiet.trans {conn conn' conn'' : Connection} (h : Quiet conn conn') (h' : Quiet conn' conn'') :
    Quiet conn conn'' := by
  refine ⟨h'.events.trans h.events, fun x hx => ?_⟩
  rcases h'.writes x hx with hx | hx
  · exact h.writes x hx
  · exact .inr hx

theorem holds_topic (hs : Brings p c s) (hbody : p.body = .publish topic payload)
    (hpos : c + pos = 1 + p.digits + (2 + j)) (hn : pos + n ≤ s.len) (hj : j + n ≤ topic.length) {m : Nat → UInt8}
    (hm : Holds m 0 (topic.take j)) : Holds (store m j (slice s.byte pos n)) 0 (topic.take (j + n)) := by
  have hpiece : slice s.byte pos n = (topic.drop j).take n := by
    have hcontent : p.content.drop (2 + j) = topic.drop j ++ payload := by
      rw [Packet.content, hbody, add_comm 2 j]
      exact drop_append_of_le_length (by omega)
    rw [slice_content hs hpos hn, hcontent, take_append_of_le_length]
    rw [length_drop]
    omega
  have hlength : (topic.take j).length = j := by
    rw [length_take]
    omega
  rw [hpiece, take_add, holds_append, hlength, zero_add]
  refine ⟨?_, holds_store ..⟩
  rw [Holds, hlength, slice_store_outside (.inl (by omega))]
  rw [Holds, hlength] at hm
  exact hm

theorem readTopic_spec (conn : Connection) (pos : Nat) (hs : Brings p c s) (hlt : s.len < 2 ^ 32)
    (hbody : p.body = .publish topic payload) (htopic : topic.length ≤ maxTopicLength)
    (hpos : c + pos = 1 + p.digits + (2 + j)) (hle : pos ≤ s.len) (hj : j ≤ topic.length)
    (hpacket : conn.inPacket = topicPacket p (2 + j)) (hheard : Holds conn.inPublishMsg.topic 0 (topic.take j))
    (hn : n = min (topic.length - j) (s.len - pos)) :
    ∃ conn',
      readTopic s conn pos = (conn', pos + n) ∧
      conn'.inPacket = contentPacket p (2 + j + n) ∧
      Heard p.body (2 + j + n) conn'.inPublishMsg ∧
      Quiet conn conn' := by
  have hstart : p.body.start = 2 + topic.length := by rw [hbody]; rfl
  have hlen : (topicPacket p (2 + j)).topicLen = topic.length := by
    simp [topicPacket, contentPacket, hstart]
  have hat : (topicPacket p (2 + j)).topicPos = j := by
    simp only [topicPacket, contentPacket, hstart]
    omega
  have hholds := holds_topic hs hbody hpos (n := n) (by omega) (by omega) hheard
  have hcopy : min (topic.length - j) (s.left pos) = n := by rw [left_eq hle hlt, hn]
  rw [readTopic]
  simp only [hpacket, hlen, hat, hcopy]
  split
  next hdone =>
    refine ⟨_, rfl, ?_, ?_, rfl, ?_⟩
    · rw [topicPacket_add hbody (by omega), decide_eq_true hdone]
      rfl
    · rw [hbody]
      refine ⟨?_, fun _ => ?_, fun _ => rfl⟩
      · rw [show 2 + j + n - 2 = j + n by omega, Holds, slice_store_outside (.inl ?_)]
        · exact hholds
        · rw [length_take]
          omega
      · have hinside : store (store conn.inPublishMsg.topic j (slice s.byte pos n)) (j + n) [0] (j + n + 0) = 0 :=
          store_inside (by decide)
        rw [show topic.length = j + n + 0 by omega]
        exact hinside
    · intro x hx
      rcases mem_cons.mp hx with rfl | hx
      · exact .inr (show j + n + 1 ≤ maxTopicLength + 1 by omega)
      · rcases mem_cons.mp hx with rfl | hx
        · exact .inr (show j + n ≤ maxTopicLength + 1 by omega)
        · exact .inl hx
  next hmore =>
    refine ⟨_, rfl, ?_, ?_, rfl, ?_⟩
    · rw [topicPacket_add hbody (by omega), decide_eq_false hmore]
      rfl
    · rw [hbody]
      refine ⟨?_, fun h => by omega, fun _ => rfl⟩
      rw [show 2 + j + n - 2 = j + n by omega]
      exact hholds
    · intro x hx
      rcases mem_cons.mp hx with rfl | hx
      · exact .inr (show j + n ≤ maxTopicLength + 1 by omega)
      · exact .inl hx

/-- The variable header, as far as the segment has it. -/
theorem parsePublishVhdr_spec (hfits : p.body.Fits) (hs : Brings p c s) (hlt : s.len < 2 ^ 32)
    (hbody : p.body = .publish topic payload) (hpos : c + pos = 1 + p.digits + k) (hle : pos ≤ s.len)
    (hplace : k = 0 ∧ pos + 2 ≤ s.len ∨ 2 ≤ k ∧ k < 2 + topic.length) (hpacket : conn.inPacket = contentPacket p k)
    (hheard : Heard p.body k conn.inPublishMsg) :
    ∃ conn' n,
      parsePublishVhdr s conn pos = (conn', pos + n) ∧
      pos + n ≤ s.len ∧
      (2 + topic.length ≤ k + n ∨ pos + n = s.len) ∧
      conn'.inPacket = contentPacket p (k + n) ∧
      Heard p.body (k + n) conn'.inPublishMsg ∧
      Quiet conn conn' := by
  have htopic : topic.length ≤ maxTopicLength := by
    rw [hbody] at hfits
    exact hfits.1
  have hstart : p.body.start = 2 + topic.length := by rw [hbody]; rfl
  rw [hbody] at hheard
  rw [parsePublishVhdr]
  rcases hplace with ⟨rfl, hroom⟩ | ⟨hlow, hhigh⟩
  · have hlen := readTopicLen_spec hs hbody (by rw [maxTopicLength] at htopic; omega) hpos hroom hpacket
    obtain ⟨conn', hrun, hpacket', hheard', hquiet⟩ := readTopic_spec (j := 0)
      { conn with inPacket := topicPacket p 2 } (pos + 2) hs hlt hbody htopic (by omega) hroom (Nat.zero_le _) rfl rfl rfl
    refine ⟨conn', 2 + min (topic.length - 0) (s.len - (pos + 2)), ?_, by omega, by omega, ?_, ?_, ?_⟩
    · rw [hlen]
      simp only [if_true]
      rw [hrun, add_assoc]
    · rw [hpacket', zero_add, add_zero]
    · rw [zero_add]
      exact hheard'
    · exact ⟨hquiet.events, hquiet.writes⟩
  · obtain ⟨j, rfl⟩ := Nat.exists_eq_add_of_le hlow
    have htopicPacket : contentPacket p (2 + j) = topicPacket p (2 + j) := by
      have hnone : decide (0 < p.body.start ∧ p.body.start ≤ 2 + j) = false := decide_eq_false (by omega)
      simp only [topicPacket, contentPacket, hnone]
    have hlen : readTopicLen s conn pos = (conn, pos, true) := by
      rw [readTopicLen, if_pos]
      rw [hpacket]
      exact decide_eq_true ⟨by omega, by omega⟩
    have hread : Holds conn.inPublishMsg.topic 0 (topic.take j) := by
      have := hheard.1
      rwa [Nat.add_sub_cancel_left] at this
    obtain ⟨conn', hrun, hpacket', hheard', hquiet⟩ := readTopic_spec conn pos hs hlt hbody htopic hpos hle (by omega)
      (hpacket.trans htopicPacket) hread rfl
    refine ⟨conn', min (topic.length - j) (s.len - pos), ?_, by omega, by omega, hpacket', hheard', hquiet⟩
    rw [hlen]
    exact hrun

theorem unfinished_iff (p : Packet) (k : Nat) : (contentPacket p k).unfinished = true ↔ p.digits + k < p.remaining := by
  rw [InPacket.unfinished, decide_eq_true_eq]
  simp only [contentPacket, fhdrSize]
  omega

/-- What goes into the payload has room there, and its end can be counted if the packet is a PUBLISH. -/
theorem payload_fits (hp : p.WellFormed) (hfits : p.body.Fits) :
    p.remaining - p.body.start ≤ inputBuffSize ∧ (0 < p.body.start → p.remaining - p.body.start < 256) := by
  have hbody := hp.body
  rw [Packet.remaining, Packet.content, inputBuffSize]
  cases hb : p.body with
  | publish topic payload =>
    rw [hb] at hfits
    have hpayload := hfits.2
    simp only [Body.content, Body.start, length_cons, length_append]
    omega
  | suback high low granted =>
    rw [hb] at hbody
    have hle := hbody.2
    rw [inputBuffSize] at hle
    simp only [Body.content, Body.start, length_cons]
    omega
  | connack | puback | unsuback | pingresp => simp [Body.content, Body.start]

theorem readVhdr_spec (hp : p.WellFormed) (hfits : p.body.Fits) (hs : Brings p c s) (hlt : s.len < 2 ^ 32)
    (hpos : c + pos = 1 + p.digits + k) (hle : pos ≤ s.len)
    (hhead : 0 < p.body.start → k = 0 ∧ pos + 2 ≤ s.len ∨ 2 ≤ k) (hpacket : conn.inPacket = contentPacket p k)
    (hheard : Heard p.body k conn.inPublishMsg) :
    ∃ conn' n,
      (if conn.inPacket.type = msgTypePublish ∧ !conn.inPacket.topicReceived then parsePublishVhdr s conn pos else
        (conn, pos)) =
        (conn', pos + n) ∧
      pos + n ≤ s.len ∧
      (p.body.start ≤ k → n = 0) ∧
      (p.body.start ≤ k + n ∨ pos + n = s.len) ∧
      conn'.inPacket = contentPacket p (k + n) ∧
      Heard p.body (k + n) conn'.inPublishMsg ∧
      Quiet conn conn' := by
  have htype : conn.inPacket.type = p.body.type := by
    rw [hpacket]
    exact fhdr_type hp
  have hreceived : conn.inPacket.topicReceived = decide (0 < p.body.start ∧ p.body.start ≤ k) := by
    rw [hpacket]
    rfl
  have hquiet : Quiet conn conn := ⟨rfl, fun x => .inl⟩
  by_cases hstart : p.body.start ≤ k
  · rw [if_neg]
    · exact ⟨conn, 0, rfl, hle, fun _ => rfl, .inl hstart, hpacket, hheard, hquiet⟩
    · rintro ⟨hpublish, hnot⟩
      rw [htype, type_eq_publish] at hpublish
      rw [hreceived, decide_eq_true ⟨hpublish, hstart⟩] at hnot
      cases hnot
  · have hpos' : 0 < p.body.start := by omega
    rw [if_pos]
    · obtain ⟨topic, payload, hbody⟩ : ∃ topic payload, p.body = .publish topic payload := by
        cases hb : p.body with
        | publish topic payload => exact ⟨topic, payload, rfl⟩
        | connack | puback | suback | unsuback | pingresp =>
          rw [hb] at hpos'
          cases hpos'
      have hlength : p.body.start = 2 + topic.length := by rw [hbody]; rfl
      obtain ⟨conn', n, hrun, hle', hplace, hrest⟩ := parsePublishVhdr_spec hfits hs hlt hbody hpos hle
        ((hhead hpos').imp_right fun h => ⟨h, by omega⟩) hpacket hheard
      exact ⟨conn', n, hrun, hle', fun h => absurd h hstart, hlength ▸ hplace, hrest⟩
    · refine ⟨htype.trans ((type_eq_publish _).mpr hpos'), ?_⟩
      rw [hreceived, decide_eq_false fun h => hstart h.2]
      rfl

theorem readContent_spec (hp : p.WellFormed) (hfits : p.body.Fits) (hs : Brings p c s) (hlt : s.len < 2 ^ 32)
    (hpos : c + pos = 1 + p.digits + k) (hle : pos ≤ s.len) (hunfinished : p.digits + k < p.remaining)
    (hhead : 0 < p.body.start → k = 0 ∧ pos + 2 ≤ s.len ∨ 2 ≤ k)
    (hsmall : p.body.start = 0 → k < 256 ∧ s.len - pos < 256) (hpacket : conn.inPacket = contentPacket p k)
    (hheard : Heard p.body k conn.inPublishMsg) (fuel : Nat) :
    ∃ conn', readContent s (fuel + 2) conn pos =
        some (conn', decide (p.remaining ≤ p.digits + (k + (s.len - pos)))) ∧
      conn'.inPacket = contentPacket p (k + (s.len - pos)) ∧
      Heard p.body (k + (s.len - pos)) conn'.inPublishMsg ∧ Quiet conn conn' := by
  have hbytes := hs.le
  rw [length_bytes] at hbytes
  obtain ⟨hroom, hcounted⟩ := payload_fits hp hfits
  obtain ⟨conn', n, hvhdr, hle', hnone, hplace, hpacket', hheard', hquiet⟩ :=
    readVhdr_spec hp hfits hs hlt hpos hle hhead hpacket hheard
  have hcases := start_cases p.body
  have hsmall' : k + n - p.body.start < 256 ∧ s.len - (pos + n) < 256 := by
    rcases hcases with h0 | h2
    · have := hsmall (by omega)
      rw [hnone (by omega)]
      omega
    · have := hcounted (by omega)
      omega
  have hcopy := copyPayload_spec hs hlt (k := k + n) (by omega) hle' hpacket' hplace hsmall'.1 (by omega) hsmall'.2
  have hsum : k + n + (s.len - (pos + n)) = k + (s.len - pos) := by omega
  rw [hsum] at hcopy
  rw [readContent, if_pos ((hpacket ▸ unfinished_iff p k).mpr hunfinished), hvhdr]
  simp only [hcopy, Option.bind_some]
  have hquiet' : Quiet conn { conn' with
      inPacket := contentPacket p (k + (s.len - pos)),
      writes := .payload (k + n - p.body.start) (s.len - (pos + n)) :: conn'.writes } := by
    refine hquiet.trans ⟨rfl, fun x hx => ?_⟩
    rcases mem_cons.mp hx with rfl | hx
    · exact .inr (show k + n - p.body.start + (s.len - (pos + n)) ≤ inputBuffSize by omega)
    · exact .inl hx
  have hheard'' : Heard p.body (k + (s.len - pos)) conn'.inPublishMsg := by
    rw [← hsum]
    rcases hplace with hstart | hend
    · exact hheard'.add hstart _
    · rw [hend, Nat.sub_self]
      exact hheard'
  refine ⟨{ conn' with
    inPacket := contentPacket p (k + (s.len - pos)),
    writes := .payload (k + n - p.body.start) (s.len - (pos + n)) :: conn'.writes }, ?_, rfl, hheard'', hquiet'⟩
  by_cases hmore : p.digits + (k + (s.len - pos)) < p.remaining
  · rw [if_pos ⟨le_refl _, (unfinished_iff p _).mpr hmore⟩, decide_eq_false (Nat.not_le.mpr hmore)]
  · have hfinished : ¬ (contentPacket p (k + (s.len - pos))).unfinished = true := fun h => hmore ((unfinished_iff p _).mp h)
    rw [if_neg fun h => hfinished h.2, readContent, if_neg hfinished, decide_eq_true (Nat.not_lt.mp hmore)]

/-! ### The end of a packet -/

/-- An event that reports something new to the application. -/
theorem delivered_callEvent {conn : Connection} {event : Event} {delivery : Delivery}
    (h : deliver (conn.events.foldl deliver []) event = delivery :: conn.events.foldl deliver []) :
    delivered (callEvent conn event).events = delivered conn.events ++ [delivery] := by
  rw [callEvent, delivered, foldl_append, foldl_cons, foldl_nil, h]
  exact reverse_cons

theorem payloadMid_store {packet : InPacket} {high low : UInt8} {rest : List UInt8} (h : packet.payload = store (fun _
    => 0) 0 (high :: low :: rest)) : packet.payloadMid = 256 * high.toNat + low.toNat := by
  rw [InPacket.payloadMid, h]
  rfl

theorem cString_topic {m : Nat → UInt8} (hholds : Holds m 0 topic) (hend : m topic.length = 0)
    (hnonzero : ∀ c ∈ topic, c ≠ 0) (hn : topic.length < n) : cString m n = topic := by
  obtain ⟨j, rfl⟩ := Nat.exists_eq_add_of_lt hn
  rw [cString, add_assoc, slice_append, hholds, takeWhile_append_of_pos (by simpa using hnonzero), slice,
    zero_add, hend, takeWhile_cons_of_neg (by simp), append_nil]

theorem payload_whole (p : Packet) : (contentPacket p p.remaining).payload =
    store (fun _ => 0) 0 (p.content.drop p.body.start) := by
  rw [contentPacket, take_of_length_le]
  rw [length_drop]
  exact le_refl _

theorem handlePacket_spec (hp : p.WellFormed) (hfits : p.body.Fits)
    (hpacket : conn.inPacket = contentPacket p p.remaining) (hheard : Heard p.body p.remaining conn.inPublishMsg) :
    delivered (handlePacket conn).events = delivered conn.events ++ p.body.delivery.toList ∧
    (handlePacket conn).writes = conn.writes := by
  have htype : conn.inPacket.type = p.body.type := by
    rw [hpacket]
    exact fhdr_type hp
  have hpayload : conn.inPacket.payload = store (fun _ => 0) 0 (p.content.drop p.body.start) := by
    rw [hpacket, payload_whole]
  rw [Packet.content] at hpayload
  cases hb : p.body with
  | connack reserved code =>
    have hcode : conn.inPacket.payload 1 = code := by
      rw [hpayload, hb]
      rfl
    have hhandle : handlePacket conn = handleConnack conn := by
      simp only [handlePacket, htype, hb, Body.type]
      rw [if_pos trivial]
    rw [hhandle, handleConnack, hcode]
    split
    next hrefused =>
      rw [Body.delivery, if_pos hrefused]
      exact ⟨delivered_callEvent rfl, rfl⟩
    next haccepted =>
      rw [Body.delivery, if_neg haccepted]
      exact ⟨delivered_callEvent rfl, rfl⟩
  | publish topic payload =>
    have hbody := hp.body
    rw [hb] at hheard hpayload hfits hbody
    obtain ⟨hholds, hend, hfirst⟩ := hheard
    obtain ⟨htopic, hcount⟩ := hfits
    have hremaining : p.remaining = 2 + topic.length + payload.length := by
      rw [Packet.remaining, Packet.content, hb]
      simp only [Body.content, length_cons, length_append]
      omega
    have hdrop : (Body.publish topic payload).content.drop (Body.publish topic payload).start = payload := by
      rw [Body.start, add_comm]
      exact drop_left
    have hstring : cString conn.inPublishMsg.topic (maxTopicLength + 1) = topic := by
      rw [take_of_length_le (by omega)] at hholds
      exact cString_topic hholds (hend (by omega)) hbody.2.2 (Nat.lt_succ_of_le htopic)
    have hpos : conn.inPacket.payloadPos.toNat = payload.length := by
      rw [hpacket, contentPacket]
      rw [UInt8.toNat_ofNat_of_lt'] <;> rw [hb, Body.start, hremaining, Nat.add_sub_cancel_left]
      exact hcount
    have hchunk : slice conn.inPacket.payload 0 payload.length = payload := by
      rw [hpayload, hdrop]
      exact holds_store ..
    have hhandle : handlePacket conn = handlePublish { conn with inPublishMsg := { conn.inPublishMsg with
        payloadChunkLength := payload.length, payloadLeft := 0 } } := by
      simp only [handlePacket, htype, hb, Body.type]
      rw [if_neg (by decide), if_pos trivial, hpos]
    rw [hhandle, handlePublish]
    refine ⟨delivered_callEvent ?_, rfl⟩
    rw [hstring, hchunk, hfirst (by omega)]
    rfl
  | puback high low =>
    have hmid : conn.inPacket.payloadMid = 256 * high.toNat + low.toNat := by
      rw [hb] at hpayload
      exact payloadMid_store hpayload
    have hhandle : handlePacket conn = handlePuback conn := by
      simp only [handlePacket, htype, hb, Body.type]
      rw [if_neg (by decide), if_neg (by decide), if_pos trivial]
    rw [hhandle, handlePuback, hmid]
    exact ⟨delivered_callEvent rfl, rfl⟩
  | suback high low granted =>
    have hmid : conn.inPacket.payloadMid = 256 * high.toNat + low.toNat := by
      rw [hb] at hpayload
      exact payloadMid_store hpayload
    have hqos : conn.inPacket.payload 2 = granted.headD 0 := by
      rw [hpayload, hb]
      rcases granted with _ | ⟨qos, granted⟩ <;> rfl
    have hhandle : handlePacket conn = handleSuback conn := by
      simp only [handlePacket, htype, hb, Body.type]
      rw [if_neg (by decide), if_neg (by decide), if_neg (by decide), if_pos trivial]
    rw [hhandle, handleSuback, hmid, hqos]
    exact ⟨delivered_callEvent rfl, rfl⟩
  | unsuback high low =>
    have hmid : conn.inPacket.payloadMid = 256 * high.toNat + low.toNat := by
      rw [hb] at hpayload
      exact payloadMid_store hpayload
    have hhandle : handlePacket conn = handleUnsuback conn := by
      simp only [handlePacket, htype, hb, Body.type]
      rw [if_neg (by decide), if_neg (by decide), if_neg (by decide), if_neg (by decide), if_pos trivial]
    rw [hhandle, handleUnsuback, hmid]
    exact ⟨delivered_callEvent rfl, rfl⟩
  | pingresp =>
    have hhandle : handlePacket conn = conn := by
      simp only [handlePacket, htype, hb, Body.type]
      rw [if_neg (by decide), if_neg (by decide), if_neg (by decide), if_neg (by decide), if_neg (by decide),
        if_pos trivial]
    rw [hhandle]
    exact ⟨(append_nil _).symm, rfl⟩

end CSync.Mqtt
