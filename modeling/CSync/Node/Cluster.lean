import CSync.Node.State

/-! The cluster lists (`handle_lists.c`, `init_consensus_convergence.c`, `init_consensus_synchronization.c`).

    `CHs_list` holds the cluster heads a node knows, `CBs_list` the bridges of a cluster head, `blacklist` the senders
    a bridge no longer trusts. Each list links blocks of its own pool. -/

namespace CSync

open Lib

variable {R : Type} {N : Nat}

def listPush (i : Fin N) (l : List (Fin N)) : List (Fin N) := i :: l.erase i

/-! ### `handle_lists` -/

/-- The entry `handle_lists` writes for the sender `n` of `value`. A cluster head takes its own
    address and degree out of the sums a bridge announces. -/
def newChb (role : Role) (myAddr : UInt16) (myDegree : UInt8) (value : AnnouncementValue R)
    (n : Neighbour R) : Chb where
  addr := n.addr
  degree := if role = .ch then value.degree - myDegree else n.degree
  consSlot := 0
  nChbAddrA := if role = .ch then value.refAddr - myAddr else value.refAddr
  nChbAddrB := 0

/-- How the search for a place ends: the sender is on the list, or its position is found, at an entry
    that it outranks or behind the last one. -/
inductive Place where
  | present
  | before (position : Nat)
  | behind (position : Nat)
  deriving DecidableEq

/-- The search for the place of an address and degree. -/
def findPlace (p : Pool N Chb) (addr : UInt16) (degree : UInt8) : List (Fin N) → Nat → Place
  | [], position => .behind position
  | i :: rest, position =>
      let ch := p.mem i
      if ch.addr = addr then .present
      else if ch.degree < degree ∨ (degree = ch.degree ∧ ch.addr < addr) then .before position
      else findPlace p addr degree rest (position + 1)

/-- The walk to the predecessor of a position past the first, and the insertion behind it. -/
def insertWalk (i : Fin N) : Nat → List (Fin N) → List (Fin N)
  | _, [] => []
  | position, x :: xs =>
      if position ≤ 2 then x :: i :: xs else x :: insertWalk i (position - 1) xs

def insertAt (i : Fin N) (position : Nat) (l : List (Fin N)) : List (Fin N) :=
  if position = 1 then listPush i l else insertWalk i position l

/-- Allocate a block, write `ch` into it and link it at a position; nothing, if no block is free. -/
def allocInsert (p : Pool N Chb) (l : List (Fin N)) (ch : Chb) (position : Nat) :
    Pool N Chb × List (Fin N) :=
  match p.alloc with
  | (none, _) => (p, l)
  | (some i, p) => (p.modify i fun _ => ch, insertAt i position l)

def chopFree (p : Pool N Chb) (l : List (Fin N)) : Pool N Chb × List (Fin N) :=
  match l.getLast? with
  | some i => (p.free i, l.dropLast)
  | none => (p, l)

/-- `handle_lists` on one list, for a sender with this address and degree. `flip` says that a first entry turns the
    node into a commoner; `mk` is the entry for a given role. The limit is `NUM_CH_MAX` for both lists. -/
def handleOn (flip : Bool) (mk : Role → Chb) (addr : UInt16) (degree : UInt8) (role : Role)
    (p : Pool N Chb) (l : List (Fin N)) : Bool × Role × Pool N Chb × List (Fin N) :=
  if l.length = 0 then
    match p.alloc with
    | (none, _) => (false, role, p, l)
    | (some i, p) =>
        let role := if flip then .cm else role
        (true, role, p.modify i fun _ => mk role, listPush i l)
  else
    let ch := mk role
    match findPlace p addr degree l 1 with
    | .present => (true, role, p, l)
    | .before position =>
        if l.length < numChMax then (true, role, allocInsert p l ch position)
        else if l.length = numChMax then
          let (p, l) := chopFree p l
          (true, role, allocInsert p l ch position)
        else (true, role, p, l)
    | .behind position =>
        if l.length < numChMax then (true, role, allocInsert p l ch position)
        else (true, role, p, l)

def handleLists (cl : Cluster) (myState : St) (myAddr : UInt16) (myDegree : UInt8)
    (value : AnnouncementValue R) (n : Neighbour R) : Bool × Cluster :=
  let mk := fun role => newChb role myAddr myDegree value n
  match myState with
  | .electionDeclaration | .consensusConvergence =>
      let (ok, role, p, l) := handleOn true mk n.addr n.degree cl.role cl.chsMemb cl.chs
      (ok, { cl with role := role, chsMemb := p, chs := l })
  | .connectionDeclaration =>
      let (ok, role, p, l) := handleOn false mk n.addr n.degree cl.role cl.cbsMemb cl.cbs
      (ok, { cl with role := role, cbsMemb := p, cbs := l })
  | _ => (false, cl)

/-! ### Convergence -/

/-- The loop of `init_consensus_convergence` over the entries of `CBs_list`; `false` says that it ran
    out of blocks and returned. -/
def collectHeads : List Chb → Pool numChMax Chb → List (Fin numChMax) →
    Bool × Pool numChMax Chb × List (Fin numChMax)
  | [], p, l => (true, p, l)
  | cb :: rest, p, l =>
      match l.find? fun i => cb.nChbAddrA == (p.mem i).addr with
      | some i => collectHeads rest (p.modify i fun ch => { ch with nChbAddrB := cb.addr }) l
      | none =>
          match p.alloc with
          | (none, _) => (false, p, l)
          | (some i, p) =>
              collectHeads rest
                (p.modify i fun _ => ⟨cb.nChbAddrA, cb.degree, 0, cb.addr, 0⟩) (listPush i l)

/-- The proactive slot for a number of neighbouring heads. -/
def proactiveSlot : Nat → UInt8
  | 0 | 1 => 0
  | 2 => 1
  | _ => 3

/-- The lists after `init_consensus_convergence`, and whether it ran to its end. -/
def initConsensusConvergence (cl : Cluster) : Bool × Cluster :=
  let (ok, p, l) := collectHeads (cl.cbs.map cl.cbsMemb.mem)
    (Pool.init ⟨0, 0, 0, 0, 0⟩) []
  (ok, { cl with chsMemb := p, chs := l })

/-- Apply `f` to every entry of `CHs_list`. -/
def mapChs (f : Chb → Chb) (cl : Cluster) : Cluster :=
  { cl with chsMemb := cl.chs.foldl (fun p i => p.modify i f) cl.chsMemb }

/-- The loops that store a slot in the entries of `CHs_list` with an address. -/
def setConsSlot (addr : UInt16) (slot : UInt8) (cl : Cluster) : Cluster :=
  mapChs (fun ch => if ch.addr = addr then { ch with consSlot := slot } else ch) cl

/-- `ch->cons_slot = (NUM_CONS_SLOTS + 1) - ch->cons_slot` for every entry. -/
def mirrorSlots (cl : Cluster) : Cluster :=
  mapChs (fun ch => { ch with consSlot := numConsSlots + 1 - ch.consSlot }) cl

def Cluster.heads (cl : Cluster) : List Chb := cl.chs.map cl.chsMemb.mem
def Cluster.bridges (cl : Cluster) : List Chb := cl.cbs.map cl.cbsMemb.mem

def Cluster.hasHead (cl : Cluster) (addr : UInt16) : Bool := cl.heads.any fun ch => ch.addr == addr
def Cluster.hasBridge (cl : Cluster) (addr : UInt16) : Bool :=
  cl.bridges.any fun ch => ch.addr == addr

def csyncChbPlacing (cl : Cluster) (myAddr : UInt16) (myDegree : UInt8) : UInt8 :=
  cl.heads.foldl (fun placing ch =>
    if myDegree < ch.degree ∧ cl.role = .cb then placing + (ch.degree - myDegree)
    else if ch.degree = myDegree ∧ myAddr < ch.addr then placing + 1
    else placing) 0

def Cluster.blacklisted (cl : Cluster) (addr : UInt16) : Bool :=
  cl.blacklist.any fun i => cl.blMemb.mem i == addr

/-- Blacklist an address. Without a free block the null pointer is pushed, which empties the list. -/
def blacklistAdd (addr : UInt16) (cl : Cluster) : Cluster :=
  match cl.blMemb.alloc with
  | (some i, p) =>
      { cl with blMemb := p.modify i fun _ => addr, blacklist := listPush i cl.blacklist }
  | (none, _) => { cl with blacklist := [] }

/-- The late-join paths that allocate a head, write two of its fields and then push `temp_memb`, the
    pool descriptor, in place of the block. -/
def linkMemb (value : AnnouncementValue R) (cl : Cluster) : Cluster :=
  match cl.chsMemb.alloc with
  | (some i, p) =>
      { cl with
        chsMemb := p.modify i fun ch => { ch with
          nChbAddrA := value.refAddr, consSlot := value.degree }
        chsForeign := true }
  | (none, _) => { cl with chsForeign := true }

/-- The address read through `list_head(CHs_list)`: that of the first entry; the field `num` of the
    pool descriptor, if that is linked; what lies at the null page, if the list is empty. -/
def headAddr (nullAddr : UInt16) (cl : Cluster) : UInt16 :=
  if cl.chsForeign then 4
  else match cl.chs with
    | i :: _ => (cl.chsMemb.mem i).addr
    | [] => nullAddr

end CSync
