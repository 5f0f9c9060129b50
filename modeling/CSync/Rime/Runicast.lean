import CSync.Lib.Run

/-! Reliable unicast (`core/net/rime/runicast.c` over `core/net/rime/stunicast.c`).

    A connection sends one packet at a time, again and again until it is acknowledged or has been sent often enough, and
    counts its packets with two bits. The nodes have one connection each on the channel; links keep their order, and may
    lose a packet, delay it or carry it twice. The MAC layer reports every packet that it has sent at some later time. -/

namespace CSync.Runicast
open Lib

variable {A : Type} [DecidableEq A]

/-- `PACKETBUF_ATTR_PACKET_TYPE_DATA` and `PACKETBUF_ATTR_PACKET_TYPE_ACK`. -/
inductive PacketType where | data | ack
  deriving DecidableEq

/-- A packet with its `PACKETBUF_ATTR_PACKET_ID`, and the number of the send that it carries or answers, which is not
    transmitted. -/
structure Packet where
  type : PacketType
  id : UInt8
  number : Nat
  deriving DecidableEq

/-- `struct runicast_conn` with the `struct stunicast_conn` in front of it, the packets that the MAC layer has still to
    report, and the receivers of the sends that returned non-zero. -/
structure Conn (A : Type) where
  sndnxt : UInt8
  isTx : Bool
  rxmit : UInt8
  maxRxmit : UInt8
  receiver : A
  buf : Option Packet
  timer : Bool
  reports : List Packet
  sends : List A

/-- What happens on the channel: a send by the first node to the second that returned non-zero, the reception of data by
    the first node from the second, and the calls of `sent` and `timedout` at the first node with the second as `to`.
    Each with the number of the send. -/
inductive Entry (A : Type) where
  | started (a r : A) (number : Nat)
  | received (r a : A) (number : Nat)
  | sent (a r : A) (number : Nat)
  | timedout (a r : A) (number : Nat)
  deriving DecidableEq

/-- The connections, the packets on the link from a node to another, and what has happened. -/
structure Net (A : Type) where
  conn : A → Conn A
  link : A → A → List Packet
  log : List (Entry A)

namespace Net

def setConn (s : Net A) (a : A) (c : Conn A) : Net A := { s with conn := Function.update s.conn a c }

def setLink (s : Net A) (a b : A) (l : List Packet) : Net A :=
  { s with link := Function.update s.link a (Function.update (s.link a) b l) }

def write (s : Net A) (e : Entry A) : Net A := { s with log := s.log ++ [e] }

def unicastSend (s : Net A) (a b : A) (p : Packet) : Net A :=
  (s.setConn a { s.conn a with reports := (s.conn a).reports ++ [p] }).setLink a b (s.link a b ++ [p])

/-- The number of the node's last send. -/
def current (s : Net A) (a : A) : Nat := (s.conn a).sends.length - 1

/-- `stunicast_cancel`. -/
def cancel (s : Net A) (a : A) : Net A := s.setConn a { s.conn a with timer := false, buf := none }

/-- `runicast_send`, with `stunicast_send_stubborn` in it; `buffer` says whether a queue buffer is free. -/
def runicastSend (s : Net A) (a r : A) (maxRetransmissions : UInt8) (buffer : Bool) : Net A :=
  if (s.conn a).isTx then s
  else
    let c := { s.conn a with maxRxmit := maxRetransmissions, rxmit := 0, isTx := true }
    if buffer then
      let p : Packet := ⟨.data, c.sndnxt, c.sends.length⟩
      ((s.setConn a { c with buf := some p, receiver := r, timer := true, sends := c.sends ++ [r] }).unicastSend
        a r p).write (.started a r c.sends.length)
    else s.setConn a { c with buf := none, isTx := false }

/-- `send` of `stunicast.c`, when the timer has run down. -/
def resend (s : Net A) (a : A) : Net A :=
  match (s.conn a).buf with
  | some p => s.unicastSend a (s.conn a).receiver p
  | none => s.setConn a { s.conn a with timer := false }

/-- `sent_by_stunicast`, for a packet that the MAC layer reports; `again` is what the `timedout` callback sends. -/
def sentByStunicast (s : Net A) (a : A) (p : Packet) (again : Option (A × UInt8 × Bool)) : Net A :=
  if p.type = .data then
    let c := { s.conn a with rxmit := (s.conn a).rxmit + 1 }
    let s := s.setConn a c
    if c.maxRxmit ≤ c.rxmit then
      let s := ((s.setConn a { c with isTx := false }).cancel a).write (.timedout a c.receiver (s.current a))
      let s := again.elim s fun g => s.runicastSend a g.1 g.2.1 g.2.2
      -- the counter is moved on behind the callback
      s.setConn a { s.conn a with rxmit := 0, sndnxt := ((s.conn a).sndnxt + 1) % 4 }
    else s
  else s

/-- `recv_from_stunicast`; `buffer` says whether a queue buffer is free. -/
def recvFromStunicast (s : Net A) (a src : A) (p : Packet) (buffer : Bool) : Net A :=
  match p.type with
  | .ack =>
      if p.id = (s.conn a).sndnxt then
        ((s.setConn a { s.conn a with sndnxt := ((s.conn a).sndnxt + 1) % 4, isTx := false }).cancel a).write
          (.sent a (s.conn a).receiver (s.current a))
      else s
  | .data =>
      let s := s.write (.received a src p.number)
      if buffer then s.unicastSend a src ⟨.ack, p.id, p.number⟩ else s

end Net

/-- A call of `runicast_send`; the timer; a report of the MAC layer; the next packet of a link arrives; a packet on a link
    is lost, or carried once more. -/
inductive Event (A : Type) where
  | send (a r : A) (maxRetransmissions : UInt8) (buffer : Bool)
  | resend (a : A)
  | report (a : A) (k : Nat) (again : Option (A × UInt8 × Bool))
  | deliver (src dst : A) (buffer : Bool)
  | lose (src dst : A) (k : Nat)
  | repeat (src dst : A) (k : Nat)

def step (s : Net A) : Event A → Option (Net A)
  | .send a r maxRetransmissions buffer => some (s.runicastSend a r maxRetransmissions buffer)
  | .resend a => if (s.conn a).timer then some (s.resend a) else none
  | .report a k again =>
      ((s.conn a).reports[k]?).map fun p =>
        (s.setConn a { s.conn a with reports := (s.conn a).reports.eraseIdx k }).sentByStunicast a p again
  | .deliver src dst buffer =>
      match s.link src dst with
      | p :: l => some ((s.setLink src dst l).recvFromStunicast dst src p buffer)
      | [] => none
  | .lose src dst k => some (s.setLink src dst ((s.link src dst).eraseIdx k))
  | .repeat src dst k => ((s.link src dst)[k]?).map fun p => s.setLink src dst ((s.link src dst).insertIdx k p)

/-- Behind `runicast_open` on every node, with nothing in the air. -/
def init (receiver : A) : Net A where
  conn _ := ⟨0, false, 0, 0, receiver, none, false, [], []⟩
  link _ _ := []
  log := []

end CSync.Runicast
