import CSync.Rpl.Graph

/-! CoAP transactions (`er-coap-transactions.c`) and the engine that receives for them (`er-coap-engine.c`).

    A transaction is a block of a pool that is on a list: a message to an endpoint, which is sent again when its timer
    runs out, and a callback for the response. A block that was freed keeps its contents, and the list clears the link
    of what it removes. What callbacks and the service open is part of the run, and so is the message that
    `coap_parse_message` makes of a datagram. -/

namespace CSync.Coap

namespace Transactions

def maxRetransmit : UInt8 := 4

def typeCon : UInt8 := 0

/-- `COAP_GET` and `COAP_DELETE`, the first and the last of the requests. -/
def get : UInt8 := 1
def delete : UInt8 := 4

/-- An address and a port. -/
structure Endpoint where
  addr : IpAddr
  port : UInt16
deriving DecidableEq

/-- `coap_transaction_t`, without its link. A callback goes with its data. -/
structure Transaction (C : Type) where
  mid : UInt16
  /-- The timer is set and has not run out; if not, `etimer_expired`. -/
  retransTimer : Bool
  retransCounter : UInt8
  peer : Endpoint
  callback : Option C
  packet : List UInt8
  number : Nat
  /-- The number of the transaction that set the callback. -/
  owner : Nat

/-- What happened; `sender` is the one whose message made it happen, if it was a message. A callback that runs is the one
    of the transaction that set it. -/
inductive Entry (C : Type) where
  | opened (n : Nat) (peer : Endpoint)
  | sent (n : Nat) (peer : Endpoint) (packet : List UInt8)
  | closed (n : Nat) (sender : Option Endpoint)
  | called (n : Nat) (callback : C) (sender : Option Endpoint)
deriving DecidableEq

structure State (C : Type) (N : Nat) where
  transactionsMemb : Lib.Pool N (Transaction C)
  transactionsList : List (Fin N)
  currentMid : UInt16
  /-- The static variable of `coap_receive`. -/
  transaction : Option (Fin N)
  opened : Nat
  history : List (Entry C)

/-- A message to send: with a new message id or one that was drawn before, and a callback if the sender sets it. -/
structure Opening (C : Type) where
  mid : Option UInt16
  peer : Endpoint
  callback : Option (Option C)
  packet : List UInt8

/-- What the engine reads of a message that was parsed. -/
structure Message where
  type : UInt8
  code : UInt8
  mid : UInt16

/-- What the service does with a request: the messages it sends to others, and the serialized response, unless
    `erbium_status_code` is not `NO_ERROR` then. -/
structure Service (C : Type) where
  opens : List (Opening C)
  response : Option (List UInt8)

section
variable {C : Type} {N : Nat}

def init : State C N where
  transactionsMemb := Lib.Pool.init ⟨0, false, 0, ⟨fun _ => 0, 0⟩, none, [], 0, 0⟩
  transactionsList := []
  currentMid := 0
  transaction := none
  opened := 0
  history := []

def getMid (s : State C N) : UInt16 × State C N := (s.currentMid + 1, { s with currentMid := s.currentMid + 1 })

/-- Change a transaction. -/
def update (i : Fin N) (f : Transaction C → Transaction C) (s : State C N) : State C N :=
  { s with transactionsMemb := s.transactionsMemb.modify i f }

def newTransaction (s : State C N) (mid : UInt16) (peer : Endpoint) : Option (Fin N) × State C N :=
  match s.transactionsMemb.freeBlock with
  | none => (none, s)
  | some i => (some i, { s with
      transactionsMemb := (s.transactionsMemb.take i).modify i fun t =>
        { t with mid := mid, retransCounter := 0, peer := peer, number := s.opened }
      transactionsList := s.transactionsList.erase i ++ [i]
      opened := s.opened + 1
      history := s.history ++ [.opened s.opened peer] })

def clearTransaction (sender : Option Endpoint) (i : Fin N) (s : State C N) : State C N :=
  { s with
    transactionsMemb := (s.transactionsMemb.modify i fun t => { t with retransTimer := false }).free i
    transactionsList := s.transactionsList.erase i
    history := if s.transactionsList.contains i then s.history ++ [.closed (s.transactionsMemb.mem i).number sender]
      else s.history }

/-- `COAP_TYPE_CON == ((COAP_HEADER_TYPE_MASK & packet[0]) >> COAP_HEADER_TYPE_POSITION)`. -/
def confirmable (packet : List UInt8) : Bool := typeCon == (0x30 &&& packet.getD 0 0) >>> 4

/-- `coap_send_transaction`, up to the callback it ends with. -/
def sendTransaction (s : State C N) (i : Fin N) : State C N × Option C :=
  let t := s.transactionsMemb.mem i
  let s := { s with history := s.history ++ [.sent t.number t.peer t.packet] }
  if confirmable t.packet then
    if t.retransCounter < maxRetransmit then (update i (fun t => { t with retransTimer := true }) s, none)
    else (clearTransaction none i s, t.callback)
  else (clearTransaction none i s, none)

/-- What the one who opens a transaction writes into it. -/
def prepare (o : Opening C) (t : Transaction C) : Transaction C :=
  { t with callback := o.callback.getD t.callback, packet := o.packet,
           owner := if o.callback.isSome then t.number else t.owner }

/-- The message id of a new transaction. -/
def Opening.draw (o : Opening C) (s : State C N) : UInt16 × State C N :=
  match o.mid with
  | some mid => (mid, s)
  | none => getMid s

/-- A message is sent for the first time. It does not time out, and no callback runs. -/
def openTransaction (s : State C N) (o : Opening C) : State C N :=
  let drawn := o.draw s
  match newTransaction drawn.2 drawn.1 o.peer with
  | (none, s) => s
  | (some i, s) => (sendTransaction (update i (prepare o) s) i).1

def openAll (s : State C N) (opens : List (Opening C)) : State C N := opens.foldl openTransaction s

/-- Run a callback, if there is one. -/
def call (opens : C → List (Opening C)) (n : Nat) (sender : Option Endpoint) (callback : Option C) (s : State C N) :
    State C N :=
  match callback with
  | none => s
  | some c => openAll { s with history := s.history ++ [.called n c sender] } (opens c)

def getTransactionByMid (s : State C N) (mid : UInt16) : Option (Fin N) :=
  s.transactionsList.find? fun i => (s.transactionsMemb.mem i).mid == mid

def Message.isRequest (m : Message) : Bool := get ≤ m.code && m.code ≤ delete

/-- A response to a message that is not confirmable has an id of its own: `coap_init_message` of the response. -/
def initResponse (m : Message) (s : State C N) : State C N := if m.type = typeCon then s else (getMid s).2

/-- The service works on a request whose transaction is in block `i`, and the response is sent. -/
def serveRequest (src : Endpoint) (service : Service C) (i : Fin N) (s : State C N) : State C N :=
  let s := openAll s service.opens
  match service.response with
  | some packet => (sendTransaction (update i (fun t => { t with packet := packet }) s) i).1
  | none => clearTransaction (some src) i s

def receiveRequest (s : State C N) (src : Endpoint) (m : Message) (service : Service C) : State C N :=
  match newTransaction s m.mid src with
  | (none, s) => { s with transaction := none }
  | (some i, s) => serveRequest src service i (initResponse m { s with transaction := some i })

/-- `coap_receive` of a message that is no request. -/
def receiveResponse (s : State C N) (src : Endpoint) (m : Message) (opens : C → List (Opening C)) : State C N :=
  let s := match getTransactionByMid s m.mid with
    | none => s
    | some i =>
      let t := s.transactionsMemb.mem i
      call opens t.owner (some src) t.callback (clearTransaction (some src) i s)
  { s with transaction := none }

/-- `coap_receive`; `none` is a datagram that `coap_parse_message` rejects. -/
def receive (s : State C N) (src : Endpoint) (message : Option Message) (service : Service C)
    (opens : C → List (Opening C)) : State C N :=
  match message with
  | some m => if m.isRequest then receiveRequest s src m service else receiveResponse s src m opens
  | none =>
    -- the transaction of a datagram before
    match s.transaction with
    | some i => clearTransaction (some src) i s
    | none => s

/-- The link of a transaction. -/
def next (l : List (Fin N)) (i : Fin N) : Option (Fin N) := (l.dropWhile (· ≠ i)).tail.head?

/-- The body of the loop of `coap_check_transactions`. -/
def checkTransaction (opens : C → List (Opening C)) (s : State C N) (i : Fin N) : State C N :=
  if (s.transactionsMemb.mem i).retransTimer then s
  else
    let sent := sendTransaction (update i (fun t => { t with retransCounter := t.retransCounter + 1 }) s) i
    call opens (s.transactionsMemb.mem i).owner none sent.2 sent.1

/-- The loop of `coap_check_transactions`; the link is followed after the body. `none` stands for a loop that is not
    over. -/
def checkLoop (opens : C → List (Opening C)) : Nat → State C N → Option (Fin N) → Option (State C N)
  | _, s, none => some s
  | 0, _, some _ => none
  | fuel + 1, s, some i =>
    let s := checkTransaction opens s i
    checkLoop opens fuel s (next s.transactionsList i)

def checkTransactions (opens : C → List (Opening C)) (s : State C N) : Option (State C N) :=
  checkLoop opens (2 * N) s s.transactionsList.head?

/-- What happens to the transactions. -/
inductive Event (C : Type) (N : Nat) where
  | send (o : Opening C)
  | receive (src : Endpoint) (message : Option Message) (service : Service C) (opens : C → List (Opening C))
  /-- A timer runs out, which the engine is told later. -/
  | expire (i : Fin N)
  | timer (opens : C → List (Opening C))

def step (s : State C N) : Event C N → Option (State C N)
  | .send o => some (openTransaction s o)
  | .receive src message service opens => some (receive s src message service opens)
  | .expire i => some (update i (fun t => { t with retransTimer := false }) s)
  | .timer opens => checkTransactions opens s

end

end Transactions

end CSync.Coap
