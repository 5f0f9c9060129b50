import CSync.Tsch.Links

/-! Slots among edits of the schedule (`tsch-schedule.c`, `tsch_slot_operation` of `tsch-slot-operation.c`).

    An edit runs in a process and takes the lock: it asks for it, waits for the end of the slot that is under way, and
    from then on reads of the schedule find nothing. A slot runs in an interrupt, which may come between any two steps
    of an edit, and it may come while the lock is held; then it reads `current_link` and `backup_link`, which an
    earlier slot has left there. A slot yields and is resumed. The node is associated until a slot finds that it lost
    the network. A history field notes when a slot read through a pointer to a link that is not in the schedule. -/

namespace CSync.TschSchedule

/-- What an edit does while it has the lock. -/
inductive Critical {A : Type} (c : Config A) where
  | addSlotframe (handle : UInt16) (size : AsnDivisor)
  | removeSlotframe (sf : Fin c.maxSlotframes)
  | insertLink (sf : Fin c.maxSlotframes) (args : LinkArgs A)
  | removeLink (sf : Fin c.maxSlotframes) (l : Fin c.maxLinks)
  | addNbr (addr : A)

/-- Where the edit is. -/
inductive Pc {A : Type} (c : Config A) where
  | idle
  /-- In `tsch_get_lock`: waiting for the slot, and behind that. -/
  | requested (k : Critical c)
  | waited (k : Critical c)
  | entered (k : Critical c)
  /-- In `tsch_schedule_remove_link`. -/
  | cleared (sf : Fin c.maxSlotframes) (l : Fin c.maxLinks)
  | unlinked (sf : Fin c.maxSlotframes) (l : Fin c.maxLinks)
  /-- In `tsch_schedule_add_link`. -/
  | allocated (sf : Fin c.maxSlotframes) (l : Fin c.maxLinks) (args : LinkArgs A)
  | listed (sf : Fin c.maxSlotframes) (l : Fin c.maxLinks) (args : LinkArgs A)
  /-- In `tsch_schedule_add_slotframe`. -/
  | sfAllocated (sf : Fin c.maxSlotframes) (handle : UInt16) (size : AsnDivisor)
  | sfInitialized (sf : Fin c.maxSlotframes)
  /-- In `tsch_schedule_remove_slotframe`. -/
  | sfFreed (sf : Fin c.maxSlotframes)
  | leaving

/-- What is left to do behind the lock. -/
inductive Cont {A : Type} (c : Config A) where
  | done
  | addSlotframe (handle size : UInt16)
  | addLink (sf : Fin c.maxSlotframes) (args : LinkArgs A)
  | insertLink (sf : Fin c.maxSlotframes) (args : LinkArgs A)
  | removeLink (sf : Fin c.maxSlotframes) (l : Fin c.maxLinks)
  | removeThenInsert (sf : Fin c.maxSlotframes) (l : Fin c.maxLinks) (args : LinkArgs A)
  | removeSlotframe (sf : Fin c.maxSlotframes) (all : Bool)
  | removeThenSlotframe (sf : Fin c.maxSlotframes) (l : Fin c.maxLinks) (all : Bool)
  | removeAllSlotframes

/-- A counter of a neighbor to adjust, and whether `tsch_queue_add_nbr` has asked for the lock. -/
structure Adjust (A : Type) where
  add : Bool
  options : UInt8
  addr : A
  tried : Bool

structure Machine {A : Type} (c : Config A) where
  sched : State c
  /-- `backup_link`; `current_link` is among the variables of the schedule. -/
  backupLink : Option (Fin c.maxLinks)
  /-- `tsch_locked` and `tsch_lock_requested`. -/
  locked : Bool
  lockRequested : Bool
  /-- `tsch_in_slot_operation`, and whether the slot transmits. -/
  inSlot : Option Bool
  associated : Bool
  asn : Asn
  pc : Pc c
  adjust : Option (Adjust A)
  cont : Cont c
  /-- History: a slot read through a pointer to no link of the schedule. -/
  danglingRead : Bool

section
variable {A : Type} [DecidableEq A] {c : Config A}

/-! ### Edits -/

/-- `tsch_get_lock`. -/
def request (k : Critical c) (next : Cont c) (m : Machine c) : Machine c :=
  { m with pc := .requested k, cont := next, lockRequested := true }

/-- The start of `tsch_schedule_remove_link`. -/
def startRemove (sf : Fin c.maxSlotframes) (l : Fin c.maxLinks) (next : Cont c) (m : Machine c) :
    Machine c :=
  if (m.sched.link l).slotframeHandle = (m.sched.slotframe sf).handle then request (.removeLink sf l) next m
  else { m with cont := next }

/-- What happens without the lock. -/
def resume (m : Machine c) : Machine c :=
  match m.cont with
  | .done => m
  | .addSlotframe handle size =>
    match asnDivisorInit size.toNat, getSlotframeByHandle m.sched handle with
    | some div, none => request (.addSlotframe handle div) .done m
    | _, _ => { m with cont := .done }
  | .addLink sf args =>
    match getLinkByTimeslot m.sched sf args.timeslot with
    | none => { m with cont := .insertLink sf args }
    | some l => { m with cont := .removeThenInsert sf l args }
  | .insertLink sf args => request (.insertLink sf args) .done m
  | .removeLink sf l => startRemove sf l .done m
  | .removeThenInsert sf l args => startRemove sf l (.insertLink sf args) m
  | .removeSlotframe sf all =>
    match (m.sched.slotframe sf).linksList with
    | l :: _ => { m with cont := .removeThenSlotframe sf l all }
    | [] => request (.removeSlotframe sf) (if all then .removeAllSlotframes else .done) m
  | .removeThenSlotframe sf l all => startRemove sf l (.removeSlotframe sf all) m
  | .removeAllSlotframes =>
    match m.sched.slotframeList with
    | [] => { m with cont := .done }
    | sf :: _ => { m with cont := .removeSlotframe sf true }

/-- The counters are adjusted behind the lock; a neighbor that is not there is added first. -/
def adjustCounter (a : Adjust A) (m : Machine c) : Machine c :=
  if optionTx a.options ∧ (queueGetNbr m.sched a.addr).isNone ∧ a.tried = false then
    request (.addNbr a.addr) m.cont { m with adjust := some { a with tried := true } }
  else
    { m with
      adjust := none
      sched := if a.add then countLink a.options a.addr m.sched else uncountLink a.options a.addr m.sched }

/-- The first step with the lock. -/
def enter (k : Critical c) (m : Machine c) : Machine c :=
  match k with
  | .removeLink sf l =>
    { m with
      sched := clearCurrent l m.sched
      pc := .cleared sf l
      adjust := some ⟨false, (m.sched.link l).linkOptions, (m.sched.link l).addr, false⟩ }
  | .insertLink sf args =>
    match m.sched.linkMemb.alloc with
    | (none, _) => { m with pc := .leaving }
    | (some l, linkMemb) =>
      { m with sched := { m.sched with linkMemb := linkMemb }, pc := .allocated sf l args }
  | .addSlotframe handle size =>
    match m.sched.slotframeMemb.alloc with
    | (none, _) => { m with pc := .leaving }
    | (some sf, slotframeMemb) =>
      { m with sched := { m.sched with slotframeMemb := slotframeMemb }, pc := .sfAllocated sf handle size }
  | .removeSlotframe sf => { m with sched := freeSlotframe sf m.sched, pc := .sfFreed sf }
  | .addNbr addr => { m with sched := queueAddNbr addr m.sched, pc := .leaving }

/-- One step of the process. -/
def edit (m : Machine c) : Option (Machine c) :=
  match m.pc with
  | .idle =>
    match m.adjust with
    | some a => some (adjustCounter a m)
    | none => some (resume m)
  | .requested k => if m.inSlot.isSome then none else some { m with pc := .waited k }
  | .waited k => some { m with pc := .entered k, locked := true, lockRequested := false }
  | .entered k => some (enter k m)
  | .cleared sf l => some { m with sched := unlinkLink sf l m.sched, pc := .unlinked sf l }
  | .unlinked _ l => some { m with sched := freeLink l m.sched, pc := .leaving }
  | .allocated sf l args => some { m with sched := listLink sf l m.sched, pc := .listed sf l args }
  | .listed sf l args =>
    some { m with
      sched := initLink sf l args m.sched
      pc := .leaving
      adjust := some ⟨true, args.linkOptions, args.addr, false⟩ }
  | .sfAllocated sf handle size =>
    some { m with sched := initSlotframe sf handle size m.sched, pc := .sfInitialized sf }
  | .sfInitialized sf => some { m with sched := listSlotframe sf m.sched, pc := .leaving }
  | .sfFreed sf => some { m with sched := unlinkSlotframe sf m.sched, pc := .leaving }
  | .leaving => some { m with pc := .idle, locked := false }

theorem contains_slotframe {n : Nat} (sf : Fin n) (l : List (Fin n)) : l.contains sf = true ↔ sf ∈ l :=
  List.contains_iff_mem

local instance decidableMemSlotframe {n : Nat} (sf : Fin n) (l : List (Fin n)) : Decidable (sf ∈ l) :=
  decidable_of_iff _ (contains_slotframe sf l)

/-- A call; a pointer to a slotframe or a link is one that the schedule holds. -/
def call (e : Cont c) (m : Machine c) : Option (Machine c) :=
  match m.pc, m.adjust, m.cont with
  | .idle, none, .done =>
    match e with
    | .addSlotframe _ _ => some { m with cont := e }
    | .removeAllSlotframes => some { m with cont := e }
    | .removeSlotframe sf false => if sf ∈ m.sched.slotframeList then some { m with cont := e } else none
    | .addLink sf _ => if sf ∈ m.sched.slotframeList then some { m with cont := e } else none
    | .removeLink sf l =>
      if sf ∈ m.sched.slotframeList ∧ m.sched.linkMemb.count l ≠ 0 then some { m with cont := e } else none
    | _ => none
  | _, _, _ => none

/-! ### Slots -/

/-- The link is an allocated block that is linked in a slotframe of the schedule. -/
def InSchedule (s : State c) (l : Fin c.maxLinks) : Prop := l ∈ allLinks s ∧ s.linkMemb.count l ≠ 0

instance (s : State c) (l : Fin c.maxLinks) : Decidable (InSchedule s l) :=
  inferInstanceAs (Decidable (_ ∧ _))

/-- A slot reads through a pointer. -/
def readLink (p : Option (Fin c.maxLinks)) (m : Machine c) : Machine c :=
  { m with danglingRead := m.danglingRead || !p.any fun l => decide (InSchedule m.sched l) }

/-- A slot reads through a pointer unless it is null. -/
def readLinkIf (p : Option (Fin c.maxLinks)) (m : Machine c) : Machine c := if p.isSome then readLink p m else m

def setCurrent (p : Option (Fin c.maxLinks)) (m : Machine c) : Machine c :=
  { m with sched := { m.sched with currentLink := p } }

/-- The schedule has no next link to read while TSCH is locked. -/
def nextActiveLink (m : Machine c) : Best c :=
  if m.locked then ⟨0, none, none⟩ else getNextActiveLink m.sched m.asn

/-- The end of a slot: the next link, as often as deadlines were missed and once more. -/
def nextSlot : Nat → Machine c → Machine c
  | 0, m => m
  | n + 1, m =>
    let m := readLinkIf m.sched.currentLink m
    let best := nextActiveLink m
    nextSlot n { setCurrent best.currBest m with
      backupLink := best.currBackup
      asn := asnInc m.asn (if best.currBest = none then 1 else best.timeToCurrBest.toNat) }

/-- The end of a slot, in which the node may find that it lost the network. -/
def endSlot (desync : Bool) (missed : Nat) (m : Machine c) : Machine c :=
  if desync then { m with associated := false, inSlot := none }
  else { nextSlot (missed + 1) m with inSlot := none }

/-- Whether there is a packet for a link: `packet` says what the queues have. -/
def packetFor (packet : Bool) (l : Fin c.maxLinks) (m : Machine c) : Bool :=
  packet && !m.locked && optionTx (m.sched.link l).linkOptions

/-- The part of a slot behind the choice of the link. -/
def runSlot (packet : Bool) (l : Fin c.maxLinks) (desync : Bool) (missed : Nat) (m : Machine c) : Machine c :=
  if packetFor packet l m || optionRx (m.sched.link l).linkOptions then
    { m with inSlot := some (packetFor packet l m) }
  else endSlot desync missed m

/-- The start of a slot, up to its end or up to where it yields. -/
def slotStart (packet backupPacket desync : Bool) (missed : Nat) (m : Machine c) : Option (Machine c) :=
  if m.associated = false ∨ m.inSlot.isSome then none
  else
    match m.sched.currentLink with
    | none => some (endSlot desync missed m)
    | some l =>
      if m.lockRequested then some (endSlot desync missed m)
      else
        let m := readLink (some l) m
        if packetFor packet l m || optionRx (m.sched.link l).linkOptions then
          some (runSlot packet l desync missed m)
        else
          match m.backupLink with
          | none => some (runSlot packet l desync missed m)
          | some b => some (runSlot backupPacket b desync missed (readLink (some b) (setCurrent (some b) m)))

/-- A slot that transmits looks at its link after the transmission. -/
def slotResume (m : Machine c) : Option (Machine c) :=
  m.inSlot.map fun tx => if tx then readLink m.sched.currentLink m else m

def slotFinish (desync : Bool) (missed : Nat) (m : Machine c) : Option (Machine c) :=
  if m.inSlot.isSome then some (endSlot desync missed m) else none

/-! ### Steps -/

inductive Event {A : Type} (c : Config A) where
  | call (e : Cont c)
  | edit
  | slotStart (packet backupPacket desync : Bool) (missed : Nat)
  | slotResume
  | slotFinish (desync : Bool) (missed : Nat)

def machineStep (m : Machine c) : Event c → Option (Machine c)
  | .call e => call e m
  | .edit => edit m
  | .slotStart packet backupPacket desync missed => slotStart packet backupPacket desync missed m
  | .slotResume => slotResume m
  | .slotFinish desync missed => slotFinish desync missed m

/-- An associated node with an empty schedule. -/
def machineInit (c : Config A) : Machine c where
  sched := init c
  backupLink := none
  locked := false
  lockRequested := false
  inSlot := none
  associated := true
  asn := ⟨0, 0⟩
  pc := .idle
  adjust := none
  cont := .done
  danglingRead := false

/-- The link that is next does not listen: without a packet its slot takes the backup. -/
def mayTakeBackup (s : State c) : Bool := s.currentLink.any fun l => !optionRx (s.link l).linkOptions

/-- A step of the edit at `pc` does not remove the backup that the slot of another link may take. -/
def SparesAt (m : Machine c) : Pc c → Prop
  | .entered (.removeLink _ l) =>
    m.associated = true → mayTakeBackup m.sched = true → m.sched.currentLink ≠ some l → m.backupLink ≠ some l
  | _ => True

/-- The edit does not remove the backup that the slot of another link may take. -/
def Spares (m : Machine c) : Event c → Prop
  | .edit => SparesAt m m.pc
  | _ => True

end

end CSync.TschSchedule
