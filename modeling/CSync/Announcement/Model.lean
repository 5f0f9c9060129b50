import CSync.Types

/-! Announcements (`core/net/rime/announcement.c`).

    A node registers its announcements in one list. Each has an id, a flag that says whether it is to be sent, and a
    value; the callback that is called when a neighbour's copy is heard is determined by the id. The type `D` is that
    of the `double` field: a number in the node, raw bits on the air. -/

namespace CSync

inductive AnnState where | pending | dropped | sent
  deriving DecidableEq

structure AnnouncementValue (D : Type) where
  instr : UInt8
  degree : UInt8
  dateCoarse : UInt32
  dateFine : UInt32
  refAddr : UInt16
  consRate : D
  deriving DecidableEq

/-- `struct announcement`, less its link and its callback. -/
structure Announcement (D : Type) where
  id : UInt16
  hasValue : Bool
  value : AnnouncementValue D
  deriving DecidableEq

namespace Announcement

variable {D : Type}

/-- `announcement_register`; `one` is the `double` 1. -/
def register (id : UInt16) (one : D) : Announcement D := ⟨id, false, ⟨0, 0, 0, 0, 0, one⟩⟩

def addValue (a : Announcement D) : Announcement D := { a with hasValue := true }

def removeValue (a : Announcement D) : Announcement D := { a with hasValue := false }

def setInstr (a : Announcement D) (instr : UInt8) : Announcement D :=
  { a with value := { a.value with instr := instr } }

def setDegree (a : Announcement D) (degree : UInt8) : Announcement D :=
  { a with value := { a.value with degree := degree } }

def setDate (a : Announcement D) (coarse fine : UInt32) : Announcement D :=
  { a with value := { a.value with dateCoarse := coarse, dateFine := fine } }

def setRefAddr (a : Announcement D) (addr : UInt16) : Announcement D :=
  { a with value := { a.value with refAddr := addr } }

def setConsRate (a : Announcement D) (rate : D) : Announcement D :=
  { a with value := { a.value with consRate := rate } }

end Announcement

end CSync
