import CSync.Apps.Mqtt

/-! The stream of an MQTT server, and the ways of cutting it that the client reads.

    A stream is a list of packets. What the application should get of it is an event for each packet but a PINGRESP;
    the chunks of a PUBLISH count as one. The client counts the bytes of a packet, and forgets the length bytes when
    it compares the count with the length; it looks for the length of a topic and does not wait for it; the position
    in the payload has eight bits, and so has the count of the bytes that are copied at once; and whatever stands
    behind a packet in its last segment is lost. `Separate` says that nothing of this happens. -/

namespace CSync.Mqtt
open Lib

/-! ### Packets -/

/-- What a packet says. -/
inductive Body where
  | connack (reserved code : UInt8)
  | publish (topic payload : List UInt8)
  | puback (high low : UInt8)
  | suback (high low : UInt8) (granted : List UInt8)
  | unsuback (high low : UInt8)
  | pingresp

/-- A packet: the low bits of its first byte, the number of bytes that encode its length, and what it says. -/
structure Packet where
  flags : UInt8
  digits : Nat
  body : Body

/-- The high bits of the first byte. -/
def Body.type : Body → UInt8
  | .connack .. => msgTypeConnack
  | .publish .. => msgTypePublish
  | .puback .. => msgTypePuback
  | .suback .. => msgTypeSuback
  | .unsuback .. => msgTypeUnsuback
  | .pingresp => msgTypePingresp

/-- What stands behind the length. -/
def Body.content : Body → List UInt8
  | .connack reserved code => [reserved, code]
  | .publish topic payload => UInt8.ofNat (topic.length / 256) :: UInt8.ofNat topic.length :: (topic ++ payload)
  | .puback high low => [high, low]
  | .suback high low granted => high :: low :: granted
  | .unsuback high low => [high, low]
  | .pingresp => []

/-- A number below `128 ^ digits` in bytes of seven bits, the lowest first, each but the last with its high bit. -/
def encodeLength : Nat → Nat → List UInt8
  | 0, _ => []
  | 1, n => [UInt8.ofNat n]
  | digits + 2, n => UInt8.ofNat (n % 128 + 128) :: encodeLength (digits + 1) (n / 128)

def Packet.fhdr (p : Packet) : UInt8 := p.body.type ||| p.flags
def Packet.content (p : Packet) : List UInt8 := p.body.content
def Packet.remaining (p : Packet) : Nat := p.content.length
def Packet.bytes (p : Packet) : List UInt8 := p.fhdr :: (encodeLength p.digits p.remaining ++ p.content)

/-- What the standard says of a packet, and that its content has room in the buffer; a PUBLISH has QoS 0. -/
def Body.WellFormed (flags : UInt8) : Body → Prop
  | .publish topic _ => flags &&& 6 = 0 ∧ topic.length < 65536 ∧ ∀ c ∈ topic, c ≠ 0
  | .suback _ _ granted => granted ≠ [] ∧ granted.length + 2 ≤ inputBuffSize
  | _ => True

structure Packet.WellFormed (p : Packet) : Prop where
  flags : p.flags < 16
  digits_pos : 1 ≤ p.digits
  digits_le : p.digits ≤ 4
  remaining_lt : p.remaining < 128 ^ p.digits
  body : p.body.WellFormed p.flags

/-! ### Deliveries -/

/-- What the application gets, with the chunks of a PUBLISH put together. -/
inductive Delivery where
  | connected
  | connectionRefused (code : UInt8)
  | published (topic payload : List UInt8)
  | suback (mid : Nat) (qosLevel : UInt8)
  | unsuback (mid : Nat)
  | puback (mid : Nat)
  | notImplementedError
  | error
deriving DecidableEq

/-- The delivery of a packet. -/
def Body.delivery : Body → Option Delivery
  | .connack _ code => some (if code ≠ 0 then .connectionRefused code else .connected)
  | .publish topic payload => some (.published topic payload)
  | .puback high low => some (.puback (256 * high.toNat + low.toNat))
  | .suback high low granted => some (.suback (256 * high.toNat + low.toNat) (granted.headD 0))
  | .unsuback high low => some (.unsuback (256 * high.toNat + low.toNat))
  | .pingresp => none

/-- An event behind the deliveries so far, the last one first: a chunk that is not the first goes on the last
    delivery. -/
def deliver (ds : List Delivery) : Event → List Delivery
  | .publish topic chunk firstChunk _ _ =>
    match firstChunk, ds with
    | false, .published topic' payload :: rest => .published topic' (payload ++ chunk) :: rest
    | _, _ => .published topic chunk :: ds
  | .connected => .connected :: ds
  | .connectionRefused code => .connectionRefused code :: ds
  | .suback mid qosLevel => .suback mid qosLevel :: ds
  | .unsuback mid => .unsuback mid :: ds
  | .puback mid => .puback mid :: ds
  | .notImplementedError => .notImplementedError :: ds
  | .error => .error :: ds

def delivered (events : List Event) : List Delivery := (events.foldl deliver []).reverse

/-- The write lies in its buffer. -/
def Write.Inside : Write → Prop
  | .topic off len => off + len ≤ maxTopicLength + 1
  | .payload off len => off + len ≤ inputBuffSize

structure Reads (packets : List Packet) (conn : Connection) : Prop where
  delivered : delivered conn.events = packets.filterMap fun p => p.body.delivery
  writes : ∀ x ∈ conn.writes, x.Inside

/-- A connection that nothing was read from yet. -/
def start (msg : Message) : Connection := ⟨resetPacket, msg, [], []⟩

def tcpInputs (conn : Connection) (segments : List Segment) : Option Connection := segments.foldlM tcpInput conn

/-! ### Cuts -/

/-- What the buffers of the client hold of a packet: a topic, and a payload that can be counted in eight bits. -/
def Body.Fits : Body → Prop
  | .publish topic payload => topic.length ≤ maxTopicLength ∧ payload.length < 256
  | _ => True

/-- A cut behind the length bytes leaves the length of a topic in one segment, and finds a position in the payload
    that can be counted in eight bits. -/
def Body.CutAt (k : Nat) : Body → Prop
  | .publish .. => 2 ≤ k
  | _ => k < 256

/-- The last segment brings the content from `k` on; of a payload it is less anyway. -/
def Body.EndsFrom (k : Nat) : Body → Prop
  | .publish .. => True
  | b => b.content.length < k + 256

/-- The packet can be cut behind its first `c` bytes: inside of the header, or in the content where it is longer than
    the length bytes. -/
def Packet.CutAt (p : Packet) (c : Nat) : Prop :=
  c ≤ p.digits ∨ ∃ k, c = fhdrSize + p.digits + k ∧ c < fhdrSize + p.remaining ∧ p.body.CutAt k

/-- A packet that the client reads: its buffers hold it, and there is more of it than length bytes, or nothing. -/
structure Packet.Readable (p : Packet) : Prop where
  fits : p.body.Fits
  longer : p.remaining = 0 ∨ p.digits < p.remaining

/-- The segments bring the bytes of the packet from the byte `c` on, and nothing else. -/
inductive Arrives (p : Packet) : Nat → List Segment → Prop
  | last {c : Nat} {s : Segment} : s.bytes ≠ [] → p.bytes.drop c = s.bytes →
      p.body.EndsFrom (c - (fhdrSize + p.digits)) → Arrives p c [s]
  | cut {c : Nat} {s : Segment} {segments : List Segment} : s.bytes ≠ [] → s.bytes <+: p.bytes.drop c →
      p.CutAt (c + s.len) → Arrives p (c + s.len) segments → Arrives p c (s :: segments)

/-- Every packet is readable, ends with a segment, and is cut where it can be. -/
inductive Separate : List Packet → List Segment → Prop
  | nil : Separate [] []
  | cons {p : Packet} {ps : List Packet} {here behind : List Segment} : p.Readable → Arrives p 0 here →
      Separate ps behind → Separate (p :: ps) (here ++ behind)

end CSync.Mqtt
