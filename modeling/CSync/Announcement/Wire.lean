import CSync.Lib.Bytes
import CSync.Announcement.Model

/-! Announcement packets (`send_adv` and `adv_packet_received` of `polite-announcement.c` and
    `broadcast-announcement.c`).

    A packet is a 16-bit count, that many records of 18 bytes and a time synchronisation frame of 26 bytes. The two
    back-ends have an encoder each; their decoders differ only in the last event they report. Sizes are those of the
    MSP430: no padding, 16-bit `size_t`, 32-bit `double`, so a `double` travels as four raw bytes. -/

namespace CSync

open Lib List

abbrev AirValue := AnnouncementValue UInt32

/-- `ANNOUNCEMENT_MSG_HEADERLEN`, `sizeof(struct announcement_data)`, `sizeof(timesync_frame_t)` and
    `PACKETBUF_SIZE`. -/
def headerLen : Nat := 2
def dataLen : Nat := 18
def frameLen : Nat := 26
def packetbufSize : Nat := 128

/-- `struct announcement_data` as it lies in memory. -/
def encodeData (d : UInt16 × AirValue) : List UInt8 :=
  toLe 2 d.1.toNat ++ [d.2.instr, d.2.degree] ++ toLe 4 d.2.dateCoarse.toNat ++
    toLe 4 d.2.dateFine.toNat ++ toLe 2 d.2.refAddr.toNat ++ toLe 4 d.2.consRate.toNat

/-- Read a `struct announcement_data` from its bytes. -/
def decodeData (bs : List UInt8) : UInt16 × AirValue :=
  (UInt16.ofNat (ofLe (bs.take 2)),
    { instr := bs.getD 2 0
      degree := bs.getD 3 0
      dateCoarse := UInt32.ofNat (ofLe ((bs.drop 4).take 4))
      dateFine := UInt32.ofNat (ofLe ((bs.drop 8).take 4))
      refAddr := UInt16.ofNat (ofLe ((bs.drop 12).take 2))
      consRate := UInt32.ofNat (ofLe ((bs.drop 14).take 4)) })

/-! ### Encoders -/

/-- The loop of the polite `send_adv`: every announcement that has a value. -/
def politeRecords : List (Announcement UInt32) → List (UInt16 × AirValue)
  | [] => []
  | a :: as => if a.hasValue then (a.id, a.value) :: politeRecords as else politeRecords as

/-- The loop of the broadcast `send_adv`, which tests the value in the loop condition as well. -/
def broadcastRecords : List (Announcement UInt32) → List (UInt16 × AirValue)
  | [] => []
  | a :: as => if a.hasValue then (a.id, a.value) :: broadcastRecords as else []

/-- The bytes of a packet with these records; `frame` is what `rtimer_sync_send` fills in. -/
def packetOf (records : List (UInt16 × AirValue)) (frame : List UInt8) : List UInt8 :=
  toLe 2 records.length ++ records.flatMap encodeData ++ frame

/-- A packet is sent only when it holds a record. -/
def sendRecords (records : List (UInt16 × AirValue)) (frame : List UInt8) : Option (List UInt8) :=
  if 0 < records.length then some (packetOf records frame) else none

/-- `send_adv` of the polite back-end, up to the call of `ipolite_send`. -/
def politeSendAdv (as : List (Announcement UInt32)) (frame : List UInt8) : Option (List UInt8) :=
  sendRecords (politeRecords as) frame

/-- `send_adv` of the broadcast back-end, up to the call of `broadcast_send`. -/
def broadcastSendAdv (as : List (Announcement UInt32)) (frame : List UInt8) :
    Option (List UInt8) :=
  sendRecords (broadcastRecords as) frame

/-! ### Decoders -/

/-- One call of `announcement_heard`, with the offsets its record and its frame were copied from. -/
structure Heard where
  dataAt : Nat
  id : UInt16
  value : AirValue
  frameAt : Nat
  frame : List UInt8
  lastEvent : AnnState
  deriving DecidableEq

/-- The delivery loop: `n` records from offset `ptr` on. -/
def heardLoop (m : Nat → UInt8) (frameAt : Nat) (lastEvent : AnnState) : Nat → Nat → List Heard
  | 0, _ => []
  | n + 1, ptr =>
      let d := decodeData (slice m ptr dataLen)
      ⟨ptr, d.1, d.2, frameAt, slice m frameAt frameLen, lastEvent⟩ ::
        heardLoop m frameAt lastEvent n (ptr + dataLen)

/-- The count in the first two bytes of the packet buffer. -/
def numField (m : Nat → UInt8) : UInt16 := UInt16.ofNat (ofLe (slice m 0 2))

/-- The 16-bit length that the decoders derive from the count. -/
def announcementDatalength (num : UInt16) : UInt16 := 2 + num * 18

/-- `adv_packet_received`: the calls of `announcement_heard` it makes. `m` is the memory from
    `packetbuf_dataptr` on, `datalen` is `packetbuf_datalen()`. -/
def advPacketReceived (lastEvent : AnnState) (m : Nat → UInt8) (datalen : UInt16) : List Heard :=
  let num := numField m
  let announcementDatalength := announcementDatalength num
  if datalen < announcementDatalength + 26 then []
  else heardLoop m announcementDatalength.toNat lastEvent num.toNat headerLen

/-- The polite back-end reports `c.last_event`. -/
def politeAdvPacketReceived (lastEvent : AnnState) (m : Nat → UInt8) (datalen : UInt16) :
    List Heard := advPacketReceived lastEvent m datalen

/-- The broadcast back-end always reports event 0. -/
def broadcastAdvPacketReceived (m : Nat → UInt8) (datalen : UInt16) : List Heard :=
  advPacketReceived .pending m datalen

/-! ### Decoding stays inside the packet -/

/-- Nothing is delivered, or exactly `num` records, all of them and the frame copied from the
    `datalen` received bytes. -/
def DecodesInside (m : Nat → UInt8) (datalen : UInt16) (heard : List Heard) : Prop :=
  heard = [] ∨ (heard.length = (numField m).toNat ∧
    ∀ h ∈ heard, h.dataAt + dataLen ≤ datalen.toNat ∧ h.frameAt + frameLen ≤ datalen.toNat)

/-- The packet's true length does not overflow 16 bits, or what is left of it after the overflow is
    still more than was received. -/
def CountFits (m : Nat → UInt8) (datalen : UInt16) : Prop :=
  28 + 18 * (numField m).toNat < 65536 ∨ datalen.toNat < (28 + 18 * (numField m).toNat) % 65536

theorem heardLoop_length (m : Nat → UInt8) (fa : Nat) (ev : AnnState) : ∀ n ptr, (heardLoop m fa ev n ptr).length = n
  | 0, _ => rfl
  | n + 1, ptr => by rw [heardLoop, length_cons, heardLoop_length m fa ev n]

/-- Where the loop reads: record `i` starts `i` records after the first. -/
theorem mem_heardLoop {m : Nat → UInt8} {fa : Nat} {ev : AnnState} {h : Heard} :
    ∀ {n ptr}, h ∈ heardLoop m fa ev n ptr → h.frameAt = fa ∧ ptr ≤ h.dataAt ∧ h.dataAt + dataLen ≤ ptr + n * dataLen
  | 0, _, hm => by cases hm
  | n + 1, ptr, hm => by
    rw [heardLoop, mem_cons] at hm
    rcases hm with rfl | hm
    · refine ⟨rfl, le_refl ptr, ?_⟩
      rw [Nat.succ_mul]; dsimp only; omega
    · obtain ⟨h1, h2, h3⟩ := mem_heardLoop hm
      refine ⟨h1, by omega, ?_⟩
      rw [Nat.succ_mul]; omega

theorem exists_last_heardLoop (m : Nat → UInt8) (fa : Nat) (ev : AnnState) :
    ∀ n ptr, ∃ h ∈ heardLoop m fa ev (n + 1) ptr, h.frameAt = fa ∧ h.dataAt + dataLen = ptr + (n + 1) * dataLen
  | 0, ptr => by
    refine ⟨_, mem_cons_self, rfl, ?_⟩
    simp
  | n + 1, ptr => by
    obtain ⟨h, hm, hf, hl⟩ := exists_last_heardLoop m fa ev n (ptr + dataLen)
    refine ⟨h, mem_cons_of_mem _ hm, hf, ?_⟩
    rw [hl, Nat.succ_mul (n + 1)]; omega

theorem announcementDatalength_toNat (num : UInt16) :
    (announcementDatalength num).toNat = (2 + 18 * num.toNat) % 65536 := by
  simp only [announcementDatalength, UInt16.toNat_add, UInt16.toNat_mul, UInt16.reduceToNat]
  omega

theorem totalLength_toNat (num : UInt16) :
    (announcementDatalength num + 26).toNat = (28 + 18 * num.toNat) % 65536 := by
  simp only [UInt16.toNat_add, announcementDatalength_toNat, UInt16.reduceToNat]
  omega

theorem decodesInside_iff_countFits (ev : AnnState) (m : Nat → UInt8) (datalen : UInt16) :
    DecodesInside m datalen (advPacketReceived ev m datalen) ↔ CountFits m datalen := by
  have htot := totalLength_toNat (numField m)
  have hoff := announcementDatalength_toNat (numField m)
  have hlen := datalen.toNat_lt
  rw [advPacketReceived, DecodesInside, CountFits]
  simp only [UInt16.lt_iff_toNat_lt, htot]
  by_cases hret : datalen.toNat < (28 + 18 * (numField m).toNat) % 65536
  · simp [hret]
  · simp only [hret, if_false, or_false]
    constructor
    · -- the last record and the frame lie inside, so the length did not overflow
      rintro (hnil | ⟨-, hin⟩)
      · have h0 : (numField m).toNat = 0 := by
          rw [← heardLoop_length m _ ev (numField m).toNat headerLen, hnil]; rfl
        omega
      · by_contra hbig
        obtain ⟨k, hk⟩ : ∃ k, (numField m).toNat = k + 1 := ⟨(numField m).toNat - 1, by omega⟩
        obtain ⟨h, hm, hf, hl⟩ := exists_last_heardLoop m (announcementDatalength (numField m)).toNat ev k headerLen
        rw [hk] at hin
        obtain ⟨h1, h2⟩ := hin h hm
        rw [hl] at h1
        simp only [headerLen, dataLen, frameLen] at h1 h2
        omega
    · intro hfit
      refine .inr ⟨heardLoop_length m _ ev _ _, fun h hm => ?_⟩
      obtain ⟨hf, -, hl⟩ := mem_heardLoop hm
      rw [Nat.mod_eq_of_lt hfit] at hret
      simp only [headerLen, dataLen, frameLen] at hl ⊢
      omega

/-- DECODING: for every packet and either back-end, the decoder stays inside the received bytes
    exactly when the count does not overflow the length test. -/
theorem adv_packet_received_inside_iff (lastEvent : AnnState) (m : Nat → UInt8) (datalen : UInt16) :
    (DecodesInside m datalen (politeAdvPacketReceived lastEvent m datalen) ↔ CountFits m datalen) ∧
    (DecodesInside m datalen (broadcastAdvPacketReceived m datalen) ↔ CountFits m datalen) :=
  ⟨decodesInside_iff_countFits lastEvent m datalen, decodesInside_iff_countFits .pending m datalen⟩

/-- SCHEME FAILS: a packet of 30 bytes that announces 3641 records passes the length test. -/
theorem adv_packet_received_reads_outside : ¬ DecodesInside (bufferOf (toLe 2 3641)) 30 (politeAdvPacketReceived
    .pending (bufferOf (toLe 2 3641)) 30) := by
  rw [politeAdvPacketReceived, decodesInside_iff_countFits, CountFits]
  decide

/-! ### Round trip -/

/-- What a receiver hears of a sent packet, whatever the memory after it; nothing, if none is sent. -/
def HeardOf (packet : Option (List UInt8)) (expected : List (UInt16 × AirValue)) : Prop :=
  match packet with
  | none => expected = []
  | some bs => ∀ (ev : AnnState) (m : Nat → UInt8), Holds m 0 bs →
      (advPacketReceived ev m (UInt16.ofNat bs.length)).map (fun h => (h.id, h.value)) = expected

def valued (as : List (Announcement UInt32)) : List (UInt16 × AirValue) :=
  (as.filter (·.hasValue)).map fun a => (a.id, a.value)

/-- Decoding what a back-end sends gives every announcement that has a value, once, in order, and no other. -/
def RoundTrips (sendAdv : List (Announcement UInt32) → List UInt8 → Option (List UInt8))
    (as : List (Announcement UInt32)) : Prop :=
  ∀ frame : List UInt8, frame.length = frameLen → HeardOf (sendAdv as frame) (valued as)

/-- No announcement without a value stands before one that has a value. -/
def NoGap (as : List (Announcement UInt32)) : Prop :=
  as.Pairwise fun a b => b.hasValue = true → a.hasValue = true

/-- The packet with the announcements that have a value fits in the packet buffer. -/
def Fits (as : List (Announcement UInt32)) : Prop :=
  headerLen + dataLen * (valued as).length + frameLen ≤ packetbufSize

@[simp] theorem length_encodeData (d : UInt16 × AirValue) : (encodeData d).length = dataLen := by
  simp [encodeData, dataLen]

theorem ofNat_ofLe_u16 (x : UInt16) : UInt16.ofNat (ofLe (toLe 2 x.toNat)) = x := by
  rw [ofLe_toLe (by have := x.toNat_lt; omega), UInt16.ofNat_toNat]

theorem ofNat_ofLe_u32 (x : UInt32) : UInt32.ofNat (ofLe (toLe 4 x.toNat)) = x := by
  rw [ofLe_toLe (by have := x.toNat_lt; omega), UInt32.ofNat_toNat]

theorem decodeData_encodeData (d : UInt16 × AirValue) : decodeData (encodeData d) = d := by
  obtain ⟨id, instr, degree, dc, df, ref, rate⟩ := d
  change (UInt16.ofNat (ofLe (toLe 2 id.toNat)), AnnouncementValue.mk instr degree
    (UInt32.ofNat (ofLe (toLe 4 dc.toNat))) (UInt32.ofNat (ofLe (toLe 4 df.toNat)))
    (UInt16.ofNat (ofLe (toLe 2 ref.toNat))) (UInt32.ofNat (ofLe (toLe 4 rate.toNat)))) = _
  rw [ofNat_ofLe_u16, ofNat_ofLe_u16, ofNat_ofLe_u32, ofNat_ofLe_u32, ofNat_ofLe_u32]

theorem length_records (rs : List (UInt16 × AirValue)) : (rs.flatMap encodeData).length = dataLen * rs.length := by
  induction rs with
  | nil => rfl
  | cons r rs ih => rw [flatMap_cons, length_append, ih, length_encodeData,
      length_cons, Nat.mul_succ, add_comm]

/-- The delivery loop reads back the records that stand in the buffer. -/
theorem heardLoop_records (m : Nat → UInt8) (fa : Nat) (ev : AnnState) :
    ∀ (rs : List (UInt16 × AirValue)) (ptr : Nat), Holds m ptr (rs.flatMap encodeData) →
      (heardLoop m fa ev rs.length ptr).map (fun h => (h.id, h.value)) = rs
  | [], _, _ => rfl
  | r :: rs, ptr, h => by
    rw [flatMap_cons, holds_append, length_encodeData] at h
    obtain ⟨hr, hrs⟩ := h
    rw [Holds, length_encodeData] at hr
    rw [length_cons, heardLoop, map_cons, heardLoop_records m fa ev rs _ hrs, hr]
    simp only [decodeData_encodeData]

theorem advPacketReceived_packetOf (ev : AnnState) {rs : List (UInt16 × AirValue)} {frame : List UInt8}
    {m : Nat → UInt8} (hframe : frame.length = frameLen) (hfit : headerLen + dataLen * rs.length + frameLen < 65536)
    (hm : Holds m 0 (packetOf rs frame)) :
    (advPacketReceived ev m (UInt16.ofNat (packetOf rs frame).length)).map (fun h => (h.id, h.value)) = rs := by
  rw [packetOf, append_assoc, holds_append, holds_append, length_toLe] at hm
  obtain ⟨hnum, hrecs, -⟩ := hm
  simp only [headerLen, dataLen, frameLen] at hfit hframe
  have hn : (numField m).toNat = rs.length := by
    rw [Holds, length_toLe] at hnum
    rw [numField, hnum, ofLe_toLe (by omega), UInt16.toNat_ofNat']
    omega
  have hlen : (packetOf rs frame).length = 28 + 18 * rs.length := by
    rw [packetOf, length_append, length_append, length_toLe, length_records, hframe]
    simp only [dataLen]; omega
  have hpass : ¬ UInt16.ofNat (packetOf rs frame).length < announcementDatalength (numField m) + 26 := by
    rw [UInt16.lt_iff_toNat_lt, totalLength_toNat, hn, hlen, UInt16.toNat_ofNat']
    omega
  rw [advPacketReceived]
  simp only [hpass, if_false, hn]
  exact heardLoop_records m _ ev rs headerLen hrecs

theorem heardOf_sendRecords {rs expected : List (UInt16 × AirValue)} {frame : List UInt8}
    (hframe : frame.length = frameLen) (hfit : headerLen + dataLen * rs.length + frameLen ≤ packetbufSize) :
    HeardOf (sendRecords rs frame) expected ↔ rs = expected := by
  have hlt : headerLen + dataLen * rs.length + frameLen < 65536 := by
    simp only [packetbufSize] at hfit; omega
  cases rs with
  | nil => exact eq_comm
  | cons r rs =>
    constructor
    · intro h
      have := h .pending _ (holds_bufferOf _)
      rw [advPacketReceived_packetOf .pending hframe hlt (holds_bufferOf _)] at this
      exact this
    · rintro rfl ev m hm
      exact advPacketReceived_packetOf ev hframe hlt hm

section
variable (as : List (Announcement UInt32))
include as

theorem politeRecords_eq : politeRecords as = valued as := by
  induction as with
  | nil => rfl
  | cons a as ih =>
    rw [politeRecords, ih, valued, valued]
    cases h : a.hasValue <;> simp [h]

/-- Past the first announcement without a value the broadcast encoder drops everything. -/
theorem broadcastRecords_eq_iff : broadcastRecords as = valued as ↔ NoGap as := by
  induction as with
  | nil => simp [broadcastRecords, valued, NoGap]
  | cons a as ih =>
    rw [NoGap, pairwise_cons]
    cases h : a.hasValue with
    | true =>
      simp only [broadcastRecords, h, if_true, valued, filter_cons_of_pos, map_cons, cons.injEq, true_and]
      simpa [valued, NoGap] using ih
    | false =>
      have hnone : (valued (a :: as) = []) ↔ ∀ b ∈ as, b.hasValue = false := by
        simp [valued, h]
      rw [broadcastRecords, h, if_neg Bool.false_ne_true, eq_comm, hnone]
      constructor
      · intro hall
        refine ⟨fun b hb hv => by rw [hall b hb] at hv; exact hv, ?_⟩
        exact pairwise_of_forall_mem_list fun c _ b hb hv => by
          rw [hall b hb] at hv; cases hv
      · rintro ⟨hall, -⟩ b hb
        cases hv : b.hasValue with
        | false => rfl
        | true => exact absurd (hall b hb hv) Bool.false_ne_true

theorem length_broadcastRecords_le :
    (broadcastRecords as).length ≤ (valued as).length := by
  induction as with
  | nil => exact le_refl 0
  | cons a as ih =>
    rw [broadcastRecords]
    cases h : a.hasValue with
    | true => simpa [valued, h] using ih
    | false => exact Nat.zero_le _

end

variable {as : List (Announcement UInt32)}

theorem polite_roundTrips (hfit : Fits as) : RoundTrips politeSendAdv as := fun frame hframe =>
  (heardOf_sendRecords hframe (by rw [politeRecords_eq]; exact hfit)).mpr (politeRecords_eq as)

theorem broadcast_roundTrips_iff (hfit : Fits as) : RoundTrips broadcastSendAdv as ↔ NoGap as := by
  have hfit' : headerLen + dataLen * (broadcastRecords as).length + frameLen ≤ packetbufSize := by
    have := length_broadcastRecords_le as
    simp only [Fits, headerLen, dataLen, frameLen, packetbufSize] at hfit ⊢
    omega
  rw [← broadcastRecords_eq_iff]
  constructor
  · intro h
    exact (heardOf_sendRecords (length_replicate ..) hfit').mp (h (replicate frameLen 0) length_replicate)
  · intro h frame hframe
    exact (heardOf_sendRecords hframe hfit').mpr h

/-- ROUND TRIP: for every list of registered announcements that fits, both back-ends transmit exactly
    the announcements that have a value if and only if the list has no gap. -/
theorem send_adv_round_trip_iff (as : List (Announcement UInt32)) (hfit : Fits as) : (RoundTrips politeSendAdv as ∧
    RoundTrips broadcastSendAdv as ∧ broadcastRecords as = politeRecords as) ↔ NoGap as := by
  rw [broadcast_roundTrips_iff hfit, politeRecords_eq, broadcastRecords_eq_iff, and_self]
  exact and_iff_right (polite_roundTrips hfit)

def oneValued : List (Announcement UInt32) := [(Announcement.register 1 0).addValue]

theorem send_adv_round_trip_one : RoundTrips politeSendAdv oneValued ∧ RoundTrips broadcastSendAdv oneValued ∧
    broadcastRecords oneValued = politeRecords oneValued :=
  (send_adv_round_trip_iff oneValued (by rw [Fits]; decide)).mpr (pairwise_singleton _ _)

/-- SCHEME FAILS: a valued announcement behind one without a value is never broadcast. -/
theorem broadcast_drops_behind_gap : Fits [Announcement.register 1 0, (Announcement.register 2 0).addValue] ∧ ¬
    RoundTrips broadcastSendAdv [Announcement.register 1 0, (Announcement.register 2 0).addValue] := by
  refine ⟨by rw [Fits]; decide, fun h => ?_⟩
  have hnil := h (replicate frameLen 0) length_replicate
  exact absurd hnil (cons_ne_nil _ _)

end CSync
