import CSync.Apps.MqttInput

/-! The client reads a stream that is cut well.

    One segment brings the client from one count of bytes of a packet to the next, or ends the packet. So it gets what
    the packets of the stream say, as long as the stream is `Separate`. -/

namespace CSync.Mqtt
open Lib List

variable {p : Packet} {s : Segment} {conn : Connection} {c pos k : Nat}

/-! ### Segments -/

/-- What the client knows of a packet behind its first `c` bytes. -/
def readingPacket (p : Packet) (c : Nat) : InPacket :=
  if c = 0 then resetPacket
  else if c ≤ p.digits then headerPacket p c
  else contentPacket p (c - 1 - p.digits)

/-- The client has read `c` bytes of the packet. -/
structure Reading (p : Packet) (c : Nat) (conn : Connection) : Prop where
  packet : (if conn.inPacket.packetReceived then resetPacket else conn.inPacket) = readingPacket p c
  heard : p.digits < c → Heard p.body (c - 1 - p.digits) conn.inPublishMsg

/-- A segment brought the client to `c` bytes of the packet, or to its end. -/
structure Outcome (p : Packet) (c : Nat) (conn conn' : Connection) : Prop where
  reading : c < p.bytes.length → Reading p c conn' ∧ conn'.events = conn.events
  ended : c = p.bytes.length → conn'.inPacket.packetReceived = true ∧
    delivered conn'.events = delivered conn.events ++ p.body.delivery.toList
  writes : ∀ x ∈ conn'.writes, x ∈ conn.writes ∨ x.Inside

/-- The segment ends with the packet, or where it can be cut. -/
def Packet.Stops (p : Packet) (c : Nat) (s : Segment) : Prop :=
  c + s.len = p.bytes.length ∧ p.body.EndsFrom (c - (fhdrSize + p.digits)) ∨ p.CutAt (c + s.len)

theorem readingPacket_content (p : Packet) (k : Nat) : readingPacket p (1 + p.digits + k) = contentPacket p k := by
  rw [readingPacket, if_neg (by omega), if_neg (by omega), show 1 + p.digits + k - 1 - p.digits = k by omega]

theorem start_le (p : Packet) : p.body.start ≤ p.remaining := by
  rw [Packet.remaining, Packet.content]
  cases p.body with
  | publish topic payload =>
    simp only [Body.start, Body.content, length_cons, length_append]
    omega
  | connack | puback | suback | unsuback | pingresp => exact Nat.zero_le _

theorem cutAt_cases {b : Body} (h : b.CutAt k) : (0 < b.start → 2 ≤ k) ∧ (b.start = 0 → k < 256) := by
  cases b with
  | publish topic payload => exact ⟨fun _ => h, fun h0 => by simp [Body.start] at h0⟩
  | connack | puback | suback | unsuback | pingresp => exact ⟨fun h0 => absurd h0 (lt_irrefl 0), fun _ => h⟩

theorem endsFrom_length (h : p.body.EndsFrom k) (hother : p.body.start = 0) : p.remaining < k + 256 := by
  rw [Packet.remaining, Packet.content]
  cases hb : p.body with
  | publish topic payload =>
    rw [hb, Body.start] at hother
    omega
  | connack | puback | suback | unsuback | pingresp =>
    rw [hb] at h
    exact h

theorem ended_of_complete (hp : p.WellFormed) (hfits : p.body.Fits) {conn' : Connection} (hquiet : Quiet conn conn')
    (hpacket : conn'.inPacket = contentPacket p p.remaining) (hheard : Heard p.body p.remaining conn'.inPublishMsg) :
    Outcome p p.bytes.length conn { handlePacket conn' with
      inPacket := { (handlePacket conn').inPacket with packetReceived := true } } := by
  obtain ⟨hevents, hwrites⟩ := handlePacket_spec hp hfits hpacket hheard
  refine ⟨fun h => absurd h (lt_irrefl _), fun _ => ⟨rfl, ?_⟩, fun x hx => ?_⟩
  · rw [← hquiet.events]
    exact hevents
  · exact hquiet.writes x (hwrites ▸ hx)

section

variable (conn : Connection)
  (pos : Nat)
  (hp : p.WellFormed)
  (hreadable : p.Readable)
  (hs : Brings p c s)
  (hlt : s.len < 2 ^ 32)
include hp hreadable hs hlt

theorem readBody_spec (hpos : c + pos = 1 + p.digits + k) (hle : pos ≤ s.len) (hk : k = 0 ∨ p.body.CutAt k)
    (hmore : p.remaining = 0 ∨ p.digits + k < p.remaining) (hpacket : conn.inPacket = contentPacket p k)
    (hheard : Heard p.body k conn.inPublishMsg) (hend : p.Stops c s) :
    ∃ conn', readBody s conn pos = some conn' ∧ Outcome p (c + s.len) conn conn' := by
  have hbytes := hs.le
  have htotal := length_bytes p
  obtain ⟨hroom, hcounted⟩ := payload_fits hp hreadable.fits
  have hlength : conn.inPacket.remainingLength = p.remaining := by rw [hpacket]; rfl
  have hpass : ¬ (inputBuffSize < conn.inPacket.remainingLength ∧ conn.inPacket.type ≠ msgTypePublish) := by
    rintro ⟨hlong, htype⟩
    have htype' : conn.inPacket.type = p.body.type := by
      rw [hpacket]
      exact fhdr_type hp
    rw [htype', Ne, type_eq_publish] at htype
    omega
  rw [readBody, if_neg hpass, hlength]
  rcases hmore with hzero | hmore
  · -- nothing stands behind the length
    obtain rfl : k = 0 := by omega
    have hrun : readContent s (fhdrSize + p.remaining + 2) conn pos = some (conn, true) := by
      rw [readContent, if_neg]
      rw [hpacket, unfinished_iff]
      omega
    rw [hrun]
    refine ⟨_, rfl, ?_⟩
    rw [show c + s.len = p.bytes.length by omega]
    rw [← hzero] at hpacket hheard
    exact ended_of_complete hp hreadable.fits ⟨rfl, fun x => .inl⟩ hpacket hheard
  · obtain ⟨k', hk'⟩ : ∃ k', k' = k + (s.len - pos) := ⟨_, rfl⟩
    have hcount : c + s.len = 1 + p.digits + k' := by omega
    -- where the segment ends, if the packet does not end with it
    have hcut : c + s.len = p.bytes.length ∨ p.digits + k' < p.remaining ∧ p.body.CutAt k' := by
      rcases hend with ⟨hend, -⟩ | hcut | ⟨j, hj, hlt, hcut⟩
      · exact .inl hend
      · omega
      · rw [fhdrSize] at hj hlt
        obtain rfl : j = k' := by omega
        exact .inr ⟨by omega, hcut⟩
    have hhead : 0 < p.body.start → k = 0 ∧ pos + 2 ≤ s.len ∨ 2 ≤ k := by
      intro hpublish
      rcases hk with rfl | hk
      · have hstart := start_le p
        have hcases := start_cases p.body
        rcases hcut with hend | ⟨-, hcut⟩
        · exact .inl ⟨rfl, by omega⟩
        · have := (cutAt_cases hcut).1 hpublish
          exact .inl ⟨rfl, by omega⟩
      · exact .inr ((cutAt_cases hk).1 hpublish)
    have hsmall : p.body.start = 0 → k < 256 ∧ s.len - pos < 256 := by
      intro hother
      have hfew : k' < 256 ∨ p.remaining < c - (1 + p.digits) + 256 := by
        rcases hend with ⟨-, hends⟩ | hcut'
        · exact .inr (endsFrom_length hends hother)
        · rcases hcut with hend | ⟨-, hcut⟩
          · rcases hcut' with hheader | ⟨j, hj, hlt, -⟩
            · omega
            · rw [fhdrSize] at hj hlt
              omega
          · exact .inl ((cutAt_cases hcut).2 hother)
      rcases hk with rfl | hk
      · omega
      · have := (cutAt_cases hk).2 hother
        omega
    obtain ⟨conn', hrun, hpacket', hheard', hquiet⟩ := readContent_spec hp hreadable.fits hs hlt hpos hle hmore hhead
      hsmall hpacket hheard (fhdrSize + p.remaining)
    rw [hrun, ← hk']
    rw [← hk'] at hpacket' hheard'
    rcases hcut with hend | ⟨hlt', hcut⟩
    · obtain rfl : k' = p.remaining := by omega
      rw [decide_eq_true (by omega), hend]
      exact ⟨_, rfl, ended_of_complete hp hreadable.fits hquiet hpacket' hheard'⟩
    · rw [decide_eq_false (by omega)]
      refine ⟨conn', rfl, fun _ => ⟨⟨?_, fun _ => ?_⟩, hquiet.events⟩, fun h => by omega, hquiet.writes⟩
      · rw [hpacket', hcount, readingPacket_content]
        rfl
      · rw [hcount, show 1 + p.digits + k' - 1 - p.digits = k' by omega]
        exact hheard'

theorem readRest_spec (hpos : 0 < c + pos) (hle : c + pos ≤ p.digits) (hlen : pos ≤ s.len)
    (hpacket : conn.inPacket = headerPacket p (c + pos)) (hend : p.Stops c s) :
    ∃ conn', readRest s conn pos = some conn' ∧ Outcome p (c + s.len) conn conn' := by
  have htotal := length_bytes p
  have hlength : conn.inPacket.hasRemainingLength = false := by rw [hpacket]; rfl
  obtain ⟨d, hd⟩ : ∃ d, c + pos = 1 + d := ⟨c + pos - 1, by omega⟩
  rw [hd] at hpacket
  obtain ⟨hwhole, hpart⟩ := readRemainingLength_spec hp (remaining_lt hp hreadable.fits) hs (p.digits - d) d conn pos
    (s.len + 1) (by omega) (by omega) hd hlen hpacket (by omega)
  rw [readRest, hlength]
  by_cases hinside : c + s.len < 1 + p.digits
  · rw [hpart hinside]
    refine ⟨_, rfl, fun _ => ⟨⟨?_, fun h => by omega⟩, rfl⟩, fun h => by omega, fun x => .inl⟩
    have hstate : readingPacket p (c + s.len) = headerPacket p (c + s.len) := by
      rw [readingPacket, if_neg (by omega), if_pos (by omega)]
    exact hstate.symm
  · rw [hwhole (by omega)]
    have hheard : Heard p.body 0 conn.inPublishMsg := by
      cases p.body with
      | publish topic payload => exact ⟨rfl, fun h => by omega, fun h => by omega⟩
      | connack | puback | suback | unsuback | pingresp => trivial
    obtain ⟨conn', hrun, houtcome⟩ := readBody_spec (k := 0) { conn with inPacket := contentPacket p 0 }
      (1 + p.digits - c) hp hreadable hs hlt (by omega) (by omega) (.inl rfl) hreadable.longer rfl hheard
      hend
    exact ⟨conn', hrun, houtcome.reading, houtcome.ended, houtcome.writes⟩

end

/-- The segment begins a packet. -/
theorem tcpInput_first (hp : p.WellFormed) (hreadable : p.Readable) (hs : Brings p 0 s) (hlen : 0 < s.len)
    (hlt : s.len < 2 ^ 32) (hreading : Reading p 0 conn) (hend : p.Stops 0 s) :
    ∃ conn', tcpInput conn s = some conn' ∧ Outcome p (0 + s.len) conn conn' := by
  have htotal := length_bytes p
  have hdigits := hp.digits_pos
  have hbyte : s.byte 0 = p.fhdr := by rw [hs.byte 0 hlen, zero_add, byte_zero]
  have hfirst : headerPacket p 1 =
      { resetPacket with fhdr := s.byte 0, byteCounter := resetPacket.byteCounter + 1 } := by
    rw [hbyte]
    simp [headerPacket, resetPacket, Nat.mod_one]
  have hreset : readingPacket p 0 = resetPacket := if_pos rfl
  have hrun : tcpInput conn s = if s.len ≤ 1 then some { conn with inPacket := headerPacket p 1 }
      else readRest s { conn with inPacket := headerPacket p 1 } 1 := by
    rw [tcpInput, if_neg (by omega), hreading.packet, hreset, hfirst]
    exact if_pos (c := resetPacket.fhdr = 0) rfl
  rw [hrun]
  by_cases hone : s.len ≤ 1
  · have hone : s.len = 1 := by omega
    have hstate : readingPacket p (0 + 1) = headerPacket p 1 := by
      rw [readingPacket, if_neg (by omega), if_pos (by omega)]
    rw [if_pos (by omega), hone]
    exact ⟨_, rfl, fun _ => ⟨⟨hstate.symm, fun h => by omega⟩, rfl⟩, fun h => by omega, fun x => .inl⟩
  · rw [if_neg hone]
    obtain ⟨conn', hrun, houtcome⟩ := readRest_spec { conn with inPacket := headerPacket p 1 } 1
      hp hreadable hs hlt (by omega) (by omega) (by omega) rfl hend
    exact ⟨conn', hrun, houtcome.reading, houtcome.ended, houtcome.writes⟩

/-- The segment goes on with a packet. -/
theorem tcpInput_next (hp : p.WellFormed) (hreadable : p.Readable) (hs : Brings p c s) (hlen : 0 < s.len)
    (hlt : s.len < 2 ^ 32) (hc : 0 < c) (hcut : p.CutAt c) (hreading : Reading p c conn) (hend : p.Stops c s) :
    ∃ conn', tcpInput conn s = some conn' ∧ Outcome p (c + s.len) conn conn' := by
  have hfhdr := fhdr_ne_zero hp
  have hrun : (readingPacket p c).fhdr = p.fhdr →
      tcpInput conn s = readRest s { conn with inPacket := readingPacket p c } 0 := by
    intro hsame
    rw [tcpInput, if_neg (by omega), hreading.packet]
    exact if_neg (c := (readingPacket p c).fhdr = 0) (by rw [hsame]; exact hfhdr)
  by_cases hheader : c ≤ p.digits
  · have hstate : readingPacket p c = headerPacket p c := by
      rw [readingPacket, if_neg (by omega), if_pos hheader]
    rw [hrun (by rw [hstate]; rfl)]
    obtain ⟨conn', hrest, houtcome⟩ := readRest_spec { conn with inPacket := readingPacket p c } 0
      hp hreadable hs hlt hc hheader (Nat.zero_le _) hstate hend
    exact ⟨conn', hrest, houtcome.reading, houtcome.ended, houtcome.writes⟩
  · obtain ⟨k, rfl, hlt', hcut⟩ := hcut.resolve_left hheader
    rw [fhdrSize] at hlt' hs hreading hend hrun hc ⊢
    have hheard := hreading.heard (by omega)
    rw [show 1 + p.digits + k - 1 - p.digits = k by omega] at hheard
    rw [hrun (by rw [readingPacket_content]; rfl), readRest, if_pos (by rw [readingPacket_content]; rfl)]
    obtain ⟨conn', hbody, houtcome⟩ := readBody_spec (k := k)
      { conn with inPacket := readingPacket p (1 + p.digits + k) } 0 hp hreadable hs hlt rfl (Nat.zero_le _) (.inr hcut)
      (.inr (by omega)) (readingPacket_content p k) hheard hend
    exact ⟨conn', hbody, houtcome.reading, houtcome.ended, houtcome.writes⟩

/-! ### Streams -/

theorem brings_of_prefix (hbytes : s.bytes <+: p.bytes.drop c) (hne : s.bytes ≠ []) : Brings p c s := by
  obtain ⟨behind, hbehind⟩ := hbytes
  have hlength := congrArg length hbehind
  rw [length_append, length_drop] at hlength
  have hpos := length_pos_iff.mpr hne
  refine ⟨by rw [Segment.len]; omega, fun i hi => ?_⟩
  have hget : (p.bytes.drop c).getD i 0 = p.byte (c + i) := by
    rw [Packet.byte, getD_eq_getElem?_getD, getElem?_drop, ← getD_eq_getElem?_getD]
  rw [← hget, ← hbehind, getD_append _ _ _ _ hi, Segment.byte, getD_eq_getElem _ _ hi, getD_eq_getElem _ _ hi]

/-- A segment of a packet is no longer than the packet. -/
theorem len_lt (hp : p.WellFormed) (hfits : p.body.Fits) (hs : Brings p c s) : s.len < 2 ^ 32 := by
  have hle := hs.le
  have hdigits := hp.digits_le
  have hlt := remaining_lt hp hfits
  rw [length_bytes] at hle
  omega

theorem tcpInput_spec (hp : p.WellFormed) (hreadable : p.Readable) (hs : Brings p c s) (hlen : 0 < s.len)
    (hc : c = 0 ∨ p.CutAt c) (hreading : Reading p c conn) (hend : p.Stops c s) :
    ∃ conn', tcpInput conn s = some conn' ∧ Outcome p (c + s.len) conn conn' := by
  have hlt := len_lt hp hreadable.fits hs
  rcases Nat.eq_zero_or_pos c with rfl | hpos
  · exact tcpInput_first hp hreadable hs hlen hlt hreading hend
  · exact tcpInput_next hp hreadable hs hlen hlt hpos (hc.resolve_left (by omega)) hreading hend

variable {segments : List Segment}

theorem arrives_spec (hp : p.WellFormed) (hreadable : p.Readable)
    (harrives : Arrives p c segments) (hc : c = 0 ∨ p.CutAt c) (hreading : Reading p c conn) :
    ∃ conn', tcpInputs conn segments = some conn' ∧ Outcome p p.bytes.length conn conn' := by
  induction harrives generalizing conn with
  | @last c s hne hbytes hends =>
    have hs : Brings p c s := brings_of_prefix (hbytes ▸ prefix_rfl) hne
    have hend : c + s.len = p.bytes.length := by
      have hlength := congrArg length hbytes
      have hpos := length_pos_iff.mpr hne
      rw [length_drop] at hlength
      rw [Segment.len]
      omega
    obtain ⟨conn', hrun, houtcome⟩ := tcpInput_spec hp hreadable hs (length_pos_iff.mpr hne) hc hreading
      (.inl ⟨hend, hends⟩)
    refine ⟨conn', ?_, hend ▸ houtcome⟩
    rw [tcpInputs, foldlM_cons, hrun]
    rfl
  | @cut c s segments hne hbytes hcut _ ih =>
    have hs : Brings p c s := brings_of_prefix hbytes hne
    obtain ⟨conn', hrun, houtcome⟩ := tcpInput_spec hp hreadable hs (length_pos_iff.mpr hne) hc hreading (.inr hcut)
    have hinside : c + s.len < p.bytes.length := by
      have htotal := length_bytes p
      rcases hcut with hheader | ⟨k, hk, hlt, -⟩
      · omega
      · rw [fhdrSize] at hlt
        omega
    obtain ⟨hreading', hevents⟩ := houtcome.reading hinside
    obtain ⟨conn'', hrun', houtcome'⟩ := ih (.inr hcut) hreading'
    refine ⟨conn'', ?_, fun h => absurd h (lt_irrefl _), fun h => ?_, fun x hx => ?_⟩
    · rw [tcpInputs, foldlM_cons, hrun]
      exact hrun'
    · rw [← hevents]
      exact houtcome'.ended h
    · rcases houtcome'.writes x hx with hx | hx
      · exact houtcome.writes x hx
      · exact .inr hx

variable {packets : List Packet}

theorem separate_spec (conn : Connection) (hp : ∀ p ∈ packets, p.WellFormed) (hseparate : Separate packets segments)
    (hidle : ∀ p, Reading p 0 conn) :
    ∃ conn',
      tcpInputs conn segments = some conn' ∧
      delivered conn'.events = delivered conn.events ++ packets.filterMap (fun p => p.body.delivery) ∧
      ∀ x ∈ conn'.writes, x ∈ conn.writes ∨ x.Inside := by
  induction hseparate generalizing conn with
  | nil => exact ⟨conn, rfl, (append_nil _).symm, fun x => .inl⟩
  | @cons p ps here behind hreadable harrives _ ih =>
    obtain ⟨conn', hrun, houtcome⟩ := arrives_spec (hp p (mem_cons_self ..)) hreadable harrives (.inl rfl) (hidle p)
    obtain ⟨hreceived, hdelivered⟩ := houtcome.ended rfl
    have hidle' : ∀ q, Reading q 0 conn' := fun q => ⟨by rw [hreceived]; rfl, nofun⟩
    obtain ⟨conn'', hrun', hdelivered', hwrites⟩ := ih conn' (fun q hq => hp q (mem_cons_of_mem _ hq)) hidle'
    refine ⟨conn'', ?_, ?_, fun x hx => ?_⟩
    · rw [tcpInputs, foldlM_append]
      exact Option.bind_eq_some_iff.mpr ⟨conn', hrun, hrun'⟩
    · rw [hdelivered', hdelivered, append_assoc, filterMap_cons]
      cases p.body.delivery <;> rfl
    · rcases hwrites x hx with hx | hx
      · exact houtcome.writes x hx
      · exact .inr hx

/-- The client reads the packets of a stream, and writes nothing outside of its buffers, if its buffers hold them, every
    one ends with a segment, none is cut where the client loses count, and no more than 255 bytes are copied at once. -/
theorem mqtt_input_independent {segments : List Segment} (hp : ∀ p ∈ packets, p.WellFormed)
    (hseparate : Separate packets segments) (msg : Message) :
    ∃ conn, tcpInputs (start msg) segments = some conn ∧ Reads packets conn := by
  obtain ⟨conn, hrun, hdelivered, hwrites⟩ := separate_spec (start msg) hp hseparate
    fun p => ⟨rfl, nofun⟩
  refine ⟨conn, hrun, hdelivered, fun x hx => ?_⟩
  rcases hwrites x hx with hx | hx
  · cases hx
  · exact hx

/-! ### Concrete streams -/

instance (x : Write) : Decidable x.Inside :=
  match x with
  | .topic .. => inferInstanceAs (Decidable (_ ≤ _))
  | .payload .. => inferInstanceAs (Decidable (_ ≤ _))

/-- A message before the first PUBLISH. -/
def blankMessage : Message := ⟨fun _ => 0, 0, false, 0, 0⟩

/-- A segment with nothing behind it. -/
def segment (bytes : List UInt8) : Segment := ⟨bytes, fun _ => 0⟩

/-- A CONNACK, a PUBLISH of `c` to the topic `ab`, and a PINGRESP. -/
def smallStream : List Packet :=
  [⟨0, 1, .connack 0 0⟩, ⟨0, 1, .publish [0x61, 0x62] [0x63]⟩, ⟨0, 1, .pingresp⟩]

def smallCuts : List Segment :=
  [segment [0x20], segment [0x02, 0, 0], segment [0x30, 0x05, 0, 2, 0x61], segment [0x62, 0x63], segment [0xD0, 0]]

theorem smallStream_wellFormed : ∀ p ∈ smallStream, p.WellFormed := by
  rintro p hp
  rw [smallStream] at hp
  simp only [mem_cons, not_mem_nil, or_false] at hp
  rcases hp with rfl | rfl | rfl
  · exact ⟨by decide, by decide, by decide, by decide, trivial⟩
  · exact ⟨by decide, by decide, by decide, by decide, by decide, by decide, by simp⟩
  · exact ⟨by decide, by decide, by decide, by decide, trivial⟩

theorem smallStream_separate : Separate smallStream smallCuts := by
  have hconnack : Arrives ⟨0, 1, .connack 0 0⟩ 0 [segment [0x20], segment [0x02, 0, 0]] :=
    .cut (by decide) ⟨[0x02, 0, 0], rfl⟩ (.inl (by decide)) (.last (by decide) rfl (by decide : 2 < 0 + 256))
  have hpublish : Arrives ⟨0, 1, .publish [0x61, 0x62] [0x63]⟩ 0
      [segment [0x30, 0x05, 0, 2, 0x61], segment [0x62, 0x63]] :=
    .cut (by decide) ⟨[0x62, 0x63], rfl⟩ (.inr ⟨3, rfl, by decide, (by decide : 2 ≤ 3)⟩)
      (.last (by decide) rfl trivial)
  have hpingresp : Arrives ⟨0, 1, .pingresp⟩ 0 [segment [0xD0, 0]] :=
    .last (by decide) rfl (by decide : 0 < 0 + 256)
  have hreadable : (⟨0, 1, .connack 0 0⟩ : Packet).Readable := ⟨trivial, .inr (by decide)⟩
  have hreadable' : (⟨0, 1, .publish [0x61, 0x62] [0x63]⟩ : Packet).Readable :=
    ⟨⟨by decide, by decide⟩, .inr (by decide)⟩
  have hreadable'' : (⟨0, 1, .pingresp⟩ : Packet).Readable := ⟨trivial, .inl rfl⟩
  have hall := Separate.cons hreadable hconnack (.cons hreadable' hpublish (.cons hreadable'' hpingresp .nil))
  exact hall

/-- The stream is read as it is. -/
theorem mqtt_input_independent_small : ∃ conn, tcpInputs (start blankMessage) smallCuts = some conn ∧
    Reads smallStream conn := mqtt_input_independent smallStream_wellFormed smallStream_separate blankMessage

/-- A stream of one client, cut into segments, that is not read as it is. -/
def Misread (packets : List Packet) (segments : List Segment) : Prop :=
  (∀ p ∈ packets, p.WellFormed) ∧ segments.flatMap Segment.bytes = packets.flatMap Packet.bytes ∧
    (∀ s ∈ segments, s.bytes ≠ []) ∧ ∃ conn, tcpInputs (start blankMessage) segments = some conn ∧ ¬ Reads packets conn

theorem misread_of_run (hp : ∀ p ∈ packets, p.WellFormed)
    (hbytes : segments.flatMap Segment.bytes = packets.flatMap Packet.bytes) (hne : ∀ s ∈ segments, s.bytes ≠ [])
    (hrun : (tcpInputs (start blankMessage) segments).any
        (fun conn => delivered conn.events ≠ packets.filterMap (fun p => p.body.delivery) || decide
          (∃ x ∈ conn.writes, ¬ x.Inside)) =
        true) : Misread packets segments := by
  obtain ⟨conn, hconn, hbad⟩ := (Option.any_eq_true _ _).mp hrun
  refine ⟨hp, hbytes, hne, conn, hconn, fun hreads => ?_⟩
  rcases Bool.or_eq_true_iff.mp hbad with hevents | hwrites
  · exact of_decide_eq_true hevents hreads.delivered
  · obtain ⟨x, hx, houtside⟩ := of_decide_eq_true hwrites
    exact houtside (hreads.writes x hx)

/-- A SUBACK with 254 return codes: the call does not return. -/
def longSuback : Segment := segment ([0x90, 0x80, 2, 0, 1] ++ replicate 254 0)

/-- Two PUBACKs in one segment, a PUBACK that is cut before its last byte, and a PUBLISH to a topic of 66 characters. -/
theorem mqtt_input_misread :
    Misread [⟨0, 1, .puback 0 1⟩, ⟨0, 1, .puback 0 2⟩] [segment [0x40, 2, 0, 1, 0x40, 2, 0, 2]] ∧
      Misread [⟨0, 1, .puback 0 5⟩] [segment [0x40, 2, 0], segment [5]] ∧
      Misread [⟨0, 1, .publish (replicate 66 0x61) []⟩] [segment ([0x30, 68, 0, 66] ++ replicate 66 0x61)] ∧
      longSuback.bytes = (⟨0, 2, .suback 0 1 (replicate 254 0)⟩ : Packet).bytes ∧
      tcpInput (start blankMessage) longSuback = none := by
  refine ⟨misread_of_run ?_ (by decide) (by simp [segment]) (by decide),
    misread_of_run ?_ (by decide) (by simp [segment]) (by decide),
    misread_of_run ?_ (by decide) (by simp [segment]) (by decide), by decide +kernel, ?_⟩
  · intro p hp
    simp only [mem_cons, not_mem_nil, or_false] at hp
    rcases hp with rfl | rfl
    · exact ⟨by decide, by decide, by decide, by decide, trivial⟩
    · exact ⟨by decide, by decide, by decide, by decide, trivial⟩
  · intro p hp
    rw [mem_singleton.mp hp]
    exact ⟨by decide, by decide, by decide, by decide, trivial⟩
  · intro p hp
    rw [mem_singleton.mp hp]
    refine ⟨by decide, by decide, by decide, by decide, by decide, by decide, fun c hc => ?_⟩
    rw [eq_of_mem_replicate hc]
    decide
  · have hnone : (tcpInput (start blankMessage) longSuback).isNone = true := by decide +kernel
    exact Option.isNone_iff_eq_none.mp hnone

end CSync.Mqtt
