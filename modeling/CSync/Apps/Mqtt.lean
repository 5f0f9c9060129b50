import CSync.Lib.Bytes

/-! The input of the MQTT client (`apps/mqtt/mqtt.c`).

    TCP hands over one segment after the other, and `tcp_input` reads on where it stopped. A connection is the packet
    that is being read, the message of a PUBLISH, the events given to the application and the writes into the
    buffers. What lies in memory behind a segment can be anything. Lengths of 16 bits and the 8-bit multiplier are
    natural numbers that wrap where they are stored; the 32-bit counters do not get so far. -/

namespace CSync.Mqtt
open Lib

/-- `MQTT_INPUT_BUFF_SIZE`, `MQTT_MAX_TOPIC_LENGTH` and `MQTT_FHDR_SIZE`. -/
def inputBuffSize : Nat := 512
def maxTopicLength : Nat := 64
def fhdrSize : Nat := 1

/-- The types of packets that `tcp_input` tells apart. -/
def msgTypeConnack : UInt8 := 0x20
def msgTypePublish : UInt8 := 0x30
def msgTypePuback : UInt8 := 0x40
def msgTypePubrec : UInt8 := 0x50
def msgTypePubrel : UInt8 := 0x60
def msgTypePubcomp : UInt8 := 0x70
def msgTypeSuback : UInt8 := 0x90
def msgTypeUnsuback : UInt8 := 0xB0
def msgTypePingresp : UInt8 := 0xD0

/-- `struct mqtt_in_packet`. -/
structure InPacket where
  byteCounter : Nat
  packetReceived : Bool
  fhdr : UInt8
  remainingLength : Nat
  remainingMultiplier : Nat
  hasRemainingLength : Bool
  remainingLengthBytes : Nat
  payloadPos : UInt8
  payload : Nat → UInt8
  topicLen : Nat
  topicPos : Nat
  topicLenReceived : Bool
  topicReceived : Bool

/-- `struct mqtt_message`, whose chunk begins at the payload of the packet. -/
structure Message where
  topic : Nat → UInt8
  payloadChunkLength : Nat
  firstChunk : Bool
  payloadLength : Nat
  payloadLeft : Nat

/-- The events of the application, with what their data points to. -/
inductive Event where
  | connected
  | connectionRefused (code : UInt8)
  | publish (topic chunk : List UInt8) (firstChunk : Bool) (payloadLength payloadLeft : Nat)
  | suback (mid : Nat) (qosLevel : UInt8)
  | unsuback (mid : Nat)
  | puback (mid : Nat)
  | notImplementedError
  | error

/-- `len` bytes written from `off` on, into `in_publish_msg.topic` or into `in_packet.payload`. -/
inductive Write where
  | topic (off len : Nat)
  | payload (off len : Nat)

/-- `struct mqtt_connection`, as far as input goes. -/
structure Connection where
  inPacket : InPacket
  inPublishMsg : Message
  events : List Event
  writes : List Write

/-- A segment, and the memory behind it. -/
structure Segment where
  bytes : List UInt8
  behind : Nat → UInt8

/-- `input_data_ptr[i]`. -/
def Segment.byte (s : Segment) (i : Nat) : UInt8 := s.bytes.getD i (s.behind i)

/-- `input_data_len`. -/
def Segment.len (s : Segment) : Nat := s.bytes.length

/-- `input_data_len - pos`, without a sign. -/
def Segment.left (s : Segment) (pos : Nat) : Nat := (s.len + 2 ^ 32 - pos) % 2 ^ 32

def InPacket.type (p : InPacket) : UInt8 := p.fhdr &&& 0xF0

def resetPacket : InPacket :=
  ⟨0, false, 0, 0, 1, false, 0, 0, fun _ => 0, 0, 0, false, false⟩

def callEvent (conn : Connection) (event : Event) : Connection := { conn with events := conn.events ++ [event] }

/-- The string in a buffer of `n` bytes. -/
def cString (m : Nat → UInt8) (n : Nat) : List UInt8 := (slice m 0 n).takeWhile (· ≠ 0)

/-! ### Packets that are complete -/

def InPacket.payloadMid (p : InPacket) : Nat := 256 * (p.payload 0).toNat + (p.payload 1).toNat

def handleConnack (conn : Connection) : Connection :=
  if conn.inPacket.payload 1 ≠ 0 then callEvent conn (.connectionRefused (conn.inPacket.payload 1))
  else callEvent conn .connected

def handleSuback (conn : Connection) : Connection :=
  callEvent conn (.suback conn.inPacket.payloadMid (conn.inPacket.payload 2))

def handleUnsuback (conn : Connection) : Connection := callEvent conn (.unsuback conn.inPacket.payloadMid)

def handlePuback (conn : Connection) : Connection := callEvent conn (.puback conn.inPacket.payloadMid)

def handlePublish (conn : Connection) : Connection :=
  let msg := conn.inPublishMsg
  let conn := callEvent conn (.publish (cString msg.topic (maxTopicLength + 1))
    (slice conn.inPacket.payload 0 msg.payloadChunkLength) msg.firstChunk msg.payloadLength msg.payloadLeft)
  { conn with
    inPublishMsg := { msg with firstChunk := false },
    inPacket := if msg.payloadLeft = 0 then resetPacket else conn.inPacket }

/-- The switch over the type of a packet at the end of `tcp_input`. -/
def handlePacket (conn : Connection) : Connection :=
  let type := conn.inPacket.type
  if type = msgTypeConnack then handleConnack conn
  else if type = msgTypePublish then
    handlePublish { conn with inPublishMsg := { conn.inPublishMsg with
      payloadChunkLength := conn.inPacket.payloadPos.toNat, payloadLeft := 0 } }
  else if type = msgTypePuback then handlePuback conn
  else if type = msgTypeSuback then handleSuback conn
  else if type = msgTypeUnsuback then handleUnsuback conn
  else if type = msgTypePingresp then conn
  else if type = msgTypePubrec ∨ type = msgTypePubrel ∨ type = msgTypePubcomp then callEvent conn .notImplementedError
  else conn

/-- The length of the topic in `parse_publish_vhdr`; `none` if the segment ends inside. -/
def readTopicLen (s : Segment) (conn : Connection) (pos : Nat) : Connection × Nat × Bool :=
  if conn.inPacket.topicLenReceived then (conn, pos, true)
  else
    let high := 256 * (s.byte pos).toNat
    let p := { conn.inPacket with topicLen := high, byteCounter := conn.inPacket.byteCounter + 1 }
    if s.len ≤ pos + 1 then ({ conn with inPacket := p }, pos + 1, false)
    else
      ({ conn with inPacket := { p with
          topicLen := high + (s.byte (pos + 1)).toNat,
          byteCounter := p.byteCounter + 1,
          topicLenReceived := true } }, pos + 2, true)

/-- The topic in `parse_publish_vhdr`. -/
def readTopic (s : Segment) (conn : Connection) (pos : Nat) : Connection × Nat :=
  let p := conn.inPacket
  let copyBytes := min (p.topicLen - p.topicPos) (s.left pos)
  let topic := store conn.inPublishMsg.topic p.topicPos (slice s.byte pos copyBytes)
  let topicPos := p.topicPos + copyBytes
  let p := { p with byteCounter := p.byteCounter + copyBytes, topicPos := topicPos }
  let writes := .topic conn.inPacket.topicPos copyBytes :: conn.writes
  if p.topicLen - topicPos = 0 then
    let payloadLength := (p.remainingLength + 2 ^ 17 - p.topicLen - 2) % 2 ^ 16
    ({ conn with
        inPacket := { p with topicReceived := true },
        inPublishMsg := { conn.inPublishMsg with
          topic := store topic topicPos [0], payloadLength := payloadLength, payloadLeft := payloadLength,
          firstChunk := true },
        writes := .topic topicPos 1 :: writes }, pos + copyBytes)
  else
    ({ conn with
        inPacket := p,
        inPublishMsg := { conn.inPublishMsg with topic := topic, firstChunk := true },
        writes := writes }, pos + copyBytes)

def parsePublishVhdr (s : Segment) (conn : Connection) (pos : Nat) : Connection × Nat :=
  let (conn, pos, received) := readTopicLen s conn pos
  if received then readTopic s conn pos else (conn, pos)

/-! ### `tcp_input` -/

def fullBuffer (conn : Connection) : Connection :=
  let conn := handlePublish { conn with inPublishMsg := { conn.inPublishMsg with
    payloadChunkLength := inputBuffSize,
    payloadLeft := (conn.inPublishMsg.payloadLeft + 2 ^ 16 - inputBuffSize) % 2 ^ 16 } }
  { conn with inPacket := { conn.inPacket with payloadPos := 0 } }

/-- The loop of `tcp_input` that prints the bytes copied; its `uint8_t i` never comes to 256. -/
def printCopied (copyBytes : Nat) : Nat → UInt8 → Option Unit
  | 0, _ => none
  | fuel + 1, i => if i.toNat < copyBytes then printCopied copyBytes fuel (i + 1) else some ()

/-- As much as there is goes into the payload; `none` stands for a loop that does not end. -/
def copyPayload (s : Segment) (conn : Connection) (pos : Nat) : Option (Connection × Nat) :=
  let p := conn.inPacket
  let copyBytes := min (s.left pos) (inputBuffSize - p.payloadPos.toNat)
  let conn := { conn with
    inPacket := { p with
      payload := store p.payload p.payloadPos.toNat (slice s.byte pos copyBytes),
      byteCounter := p.byteCounter + copyBytes,
      payloadPos := p.payloadPos + UInt8.ofNat copyBytes },
    writes := .payload p.payloadPos.toNat copyBytes :: conn.writes }
  (printCopied copyBytes (copyBytes + 1) 0).map fun _ =>
    (if inputBuffSize - conn.inPacket.payloadPos.toNat = 0 then fullBuffer conn else conn, pos + copyBytes)

/-- The condition of the loop over the content of a packet. -/
def InPacket.unfinished (p : InPacket) : Bool := p.byteCounter < fhdrSize + p.remainingLength

/-- The loop of `tcp_input` over the content: whether the packet is complete. -/
def readContent (s : Segment) : Nat → Connection → Nat → Option (Connection × Bool)
  | 0, _, _ => none
  | fuel + 1, conn, pos =>
    if conn.inPacket.unfinished then
      let (conn, pos) :=
        if conn.inPacket.type = msgTypePublish ∧ !conn.inPacket.topicReceived then parsePublishVhdr s conn pos
        else (conn, pos)
      (copyPayload s conn pos).bind fun r =>
        if s.len ≤ r.2 ∧ r.1.inPacket.unfinished then some (r.1, false) else readContent s fuel r.1 r.2
    else some (conn, true)

/-- The loop of `tcp_input` over the bytes of the remaining length; `none` if the call returns. -/
def readRemainingLength (s : Segment) : Nat → Connection → Nat → Connection × Option Nat
  | 0, conn, _ => (conn, none)
  | fuel + 1, conn, pos =>
    if s.len ≤ pos then (conn, none)
    else
      let byte := s.byte pos
      let p := { conn.inPacket with
        byteCounter := conn.inPacket.byteCounter + 1,
        remainingLengthBytes := (conn.inPacket.remainingLengthBytes + 1) % 256 }
      if 5 < p.byteCounter then (callEvent { conn with inPacket := p } .error, none)
      else
        let p := { p with
          remainingLength := (p.remainingLength + (byte &&& 127).toNat * p.remainingMultiplier) % 2 ^ 16,
          remainingMultiplier := p.remainingMultiplier * 128 % 256 }
        if byte &&& 128 ≠ 0 then readRemainingLength s fuel { conn with inPacket := p } (pos + 1)
        else ({ conn with inPacket := { p with hasRemainingLength := true } }, some (pos + 1))

/-- A packet too long for the payload buffer is passed over. -/
def passOver (s : Segment) (conn : Connection) : Connection :=
  let p := { conn.inPacket with byteCounter := conn.inPacket.byteCounter + s.len }
  { conn with inPacket := { p with packetReceived := p.packetReceived || !p.unfinished } }

/-- `tcp_input` behind the remaining length. -/
def readBody (s : Segment) (conn : Connection) (pos : Nat) : Option Connection :=
  if inputBuffSize < conn.inPacket.remainingLength ∧ conn.inPacket.type ≠ msgTypePublish then some (passOver s conn)
  else do
    let (conn, complete) ← readContent s (fhdrSize + conn.inPacket.remainingLength + 2) conn pos
    if complete then
      let conn := handlePacket conn
      return { conn with inPacket := { conn.inPacket with packetReceived := true } }
    else return conn

/-- `tcp_input` from the remaining length on. -/
def readRest (s : Segment) (conn : Connection) (pos : Nat) : Option Connection :=
  if conn.inPacket.hasRemainingLength then readBody s conn pos
  else
    match readRemainingLength s (s.len + 1) conn pos with
    | (conn, none) => some conn
    | (conn, some pos) => readBody s conn pos

def tcpInput (conn : Connection) (s : Segment) : Option Connection :=
  if s.len = 0 then some conn
  else
    let p := if conn.inPacket.packetReceived then resetPacket else conn.inPacket
    if p.fhdr = 0 then
      let conn := { conn with inPacket := { p with fhdr := s.byte 0, byteCounter := p.byteCounter + 1 } }
      if s.len ≤ 1 then some conn else readRest s conn 1
    else readRest s { conn with inPacket := p } 0

end CSync.Mqtt
