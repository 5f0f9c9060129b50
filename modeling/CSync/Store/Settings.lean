import CSync.Lib.Bytes
import CSync.Lib.Run

/-! The settings manager (`core/lib/settings.c`), a key-value store in EEPROM.

    Items grow downward from `SETTINGS_TOP_ADDR`. An iterator is the address of the first byte behind an item: the
    header ends there, the value stands below the header, and the address of the value is the iterator of the next
    item. EEPROM addresses have 16 bits, the sums of the range checks are computed in `size_t`. A loop `for(iter =
    begin(); iter; iter = next(iter))` is a function of the list `iters` of the iterators it runs through. -/

namespace CSync.Settings

open Lib

/-- The build: large values or not, the layout of `item_header_t`, the width of `size_t` and the address range. -/
structure Layout where
  /-- `SETTINGS_CONF_SUPPORT_LARGE_VALUES`. -/
  large : Bool
  /-- The compiler aligns the 16-bit key of the five-byte header. -/
  aligned : Bool
  sizeBits : Nat
  top : Nat
  bottom : Nat
  sizeBits_ok : sizeBits = 16 ∨ sizeBits = 32
  top_lt : top < 65536

/-- The EEPROM, with the `(addr, size)` of every `eeprom_write` so far. -/
structure Eeprom where
  bytes : Nat → UInt8
  writes : List (Nat × Nat)

def Eeprom.write (e : Eeprom) (addr : Nat) (bs : List UInt8) : Eeprom :=
  ⟨store e.bytes addr bs, (addr, bs.length) :: e.writes⟩

/-- `settings_status_t`, the codes the operations return. -/
inductive Status where
  | ok | failure | notFound | outOfSpace | valueTooBig | unimplemented
  deriving DecidableEq

/-- `item_header_t`; `pad` is the byte the compiler may put in front of the key. -/
structure Header where
  sizeExtra : UInt8
  sizeLow : UInt8
  sizeCheck : UInt8
  pad : UInt8
  key : UInt16
  deriving DecidableEq

/-- The bytes of `item_header_t` without `SETTINGS_CONF_SUPPORT_LARGE_VALUES` and with it. -/
def Header.bytes (l : Layout) (h : Header) : List UInt8 :=
  (if l.large then [h.sizeExtra] else []) ++ [h.sizeLow, h.sizeCheck] ++
    (if l.large && l.aligned then [h.pad] else []) ++ toLe 2 h.key.toNat

/-- `sizeof(item_header_t)`. -/
def headerSize (l : Layout) : Nat := if l.large then (if l.aligned then 6 else 5) else 4

/-- The offset of `size_low` in the header. -/
def lowAt (l : Layout) : Nat := if l.large then 1 else 0

def maxValueSize (l : Layout) : Nat := if l.large then 0x3FFF else 0x7F

/-- A difference of two EEPROM addresses. -/
def minus (a b : Nat) : Nat := (a + 65536 - b) % 65536

/-- A sum in `size_t`. -/
def inSize (l : Layout) (n : Nat) : Nat := n % 2 ^ l.sizeBits

section Iterators

variable (l : Layout) (m : Nat → UInt8)

/-- `size_extra`, `size_low`, `size_check` and `key` of the header in front of an iterator. -/
def sizeExtra (iter : Nat) : UInt8 := m (minus iter (headerSize l))

def sizeLow (iter : Nat) : UInt8 := m (minus iter (headerSize l) + lowAt l)

def sizeCheck (iter : Nat) : UInt8 := m (minus iter (headerSize l) + lowAt l + 1)

def headerKey (iter : Nat) : UInt16 := UInt16.ofNat (ofLe (slice m (minus iter 2) 2))

/-- The check byte is the complement of the size byte. -/
def checked (iter : Nat) : Bool := sizeCheck l m iter == ~~~ sizeLow l m iter

def iterGetValueLength (iter : Nat) : Nat :=
  if checked l m iter then
    let ret := (sizeLow l m iter).toNat
    if l.large ∧ 128 ≤ ret then ((ret - 128) <<< 7) ||| (sizeExtra l m iter).toNat else ret
  else 0

def iterGetKey (iter : Nat) : UInt16 := if checked l m iter then headerKey m iter else 0xFFFF

/-- The bytes an item takes below its iterator. A large value leaves one more byte free. -/
def itemSize (iter : Nat) : Nat :=
  headerSize l + iterGetValueLength l m iter +
    if l.large ∧ 128 ≤ iterGetValueLength l m iter then 1 else 0

def iterGetValueAddr (iter : Nat) : Nat := minus iter (itemSize l m iter)

def iterIsValid (iter : Nat) : Bool :=
  if iter = 0 then false
  else if iter < inSize l (l.bottom + headerSize l) then false
  else if checked l m iter = false then false
  else if iter < inSize l (l.bottom + headerSize l + iterGetValueLength l m iter) then false
  else true

def iterBegin : Nat := if iterIsValid l m l.top then l.top else 0

def iterNext (iter : Nat) : Nat :=
  if iter = 0 then 0
  else if iterIsValid l m (iterGetValueAddr l m iter) then iterGetValueAddr l m iter else 0

/-- The iterators of a loop from `iter` on. -/
def itersFrom : Nat → Nat → List Nat
  | 0, _ => []
  | fuel + 1, iter => if iter = 0 then [] else iter :: itersFrom fuel (iterNext l m iter)

/-- The iterators of the loop over the store. An iterator is a 16-bit address that shrinks from
    turn to turn, so the fuel lasts. -/
def iters : List Nat := itersFrom l m 65536 (iterBegin l m)

/-- The value of an item. -/
def valueBytes (iter : Nat) : List UInt8 :=
  slice m (iterGetValueAddr l m iter) (iterGetValueLength l m iter)

def iterGetValueBytes (iter maxLength : Nat) : List UInt8 :=
  slice m (iterGetValueAddr l m iter) (min maxLength (iterGetValueLength l m iter))

/-- The loop of `settings_check`, `settings_get` and `settings_delete`: the item with number `index`
    among those with the key, `0` if there is none. -/
def findKey (key : UInt16) : Nat → List Nat → Nat
  | _, [] => 0
  | index, iter :: rest =>
    if iterGetKey l m iter = key then
      if index = 0 then iter else findKey key (index - 1) rest
    else findKey key index rest

end Iterators

variable (l : Layout)

def settingsCheck (e : Eeprom) (key : UInt16) (index : Nat) : Bool :=
  findKey l e.bytes key index (iters l e.bytes) != 0

/-- `settings_get`; `size` is `*value_size` at the call. -/
def settingsGet (e : Eeprom) (key : UInt16) (index size : Nat) : Option (List UInt8) :=
  let iter := findKey l e.bytes key index (iters l e.bytes)
  if iter = 0 then none else some (iterGetValueBytes l e.bytes iter size)

/-- Where `settings_add` puts an item: behind the last one, or at the top. -/
def addPosition (m : Nat → UInt8) : Nat :=
  let iter := (iters l m).getLastD 0
  if iter ≠ 0 then iterGetValueAddr l m iter else l.top

/-- The header `settings_add` fills in. The fields it does not assign keep what the stack held there: `junk`. -/
def newHeader (key : UInt16) (size : Nat) (junk : UInt8 × UInt8) : Header :=
  if size < 0x80 then
    let low := UInt8.ofNat size
    ⟨junk.1, low, ~~~ low, junk.2, key⟩
  else
    let low := UInt8.ofNat (size >>> 7 ||| 0x80)
    ⟨UInt8.ofNat (size % 128), low, ~~~ low, junk.2, key⟩

/-- A header wiped with `memset(&header, 0xFF, sizeof(header))`. -/
def wiped : List UInt8 := List.replicate (headerSize l) 0xFF

def settingsAdd (e : Eeprom) (key : UInt16) (value : List UInt8) (junk : UInt8 × UInt8) :
    Status × Eeprom :=
  let iter := addPosition l e.bytes
  if iter < inSize l (l.bottom + value.length + headerSize l) then (.outOfSpace, e)
  else if maxValueSize l < value.length then (.valueTooBig, e)
  else
    let e := e.write (minus iter (headerSize l)) ((newHeader key value.length junk).bytes l)
    if iterGetValueLength l e.bytes iter ≠ value.length then (.failure, e)
    else
      let e := e.write (iterGetValueAddr l e.bytes iter) value
      let next := iterNext l e.bytes iter
      if next ≠ 0 then (.ok, e.write (minus next (headerSize l)) (wiped l)) else (.ok, e)

def settingsSet (e : Eeprom) (key : UInt16) (value : List UInt8) (junk : UInt8 × UInt8) :
    Status × Eeprom :=
  let iter := findKey l e.bytes key 0 (iters l e.bytes)
  if iter = 0 ∨ iterIsValid l e.bytes iter = false then settingsAdd l e key value junk
  else if value.length ≠ iterGetValueLength l e.bytes iter then (.unimplemented, e)
  else (.ok, e.write (iterGetValueAddr l e.bytes iter) value)

/-- `settings_iter_delete`: the last item loses its header, and whatever happened the answer is
    `SETTINGS_STATUS_UNIMPLEMENTED`. -/
def iterDelete (e : Eeprom) (iter : Nat) : Status × Eeprom :=
  if iterNext l e.bytes iter = 0 then
    (.unimplemented, e.write (minus iter (headerSize l)) (wiped l))
  else (.unimplemented, e)

def settingsDelete (e : Eeprom) (key : UInt16) (index : Nat) : Status × Eeprom :=
  let iter := findKey l e.bytes key index (iters l e.bytes)
  if iter = 0 then (.notFound, e) else iterDelete l e iter

inductive Op where
  | add (key : UInt16) (value : List UInt8) (junk : UInt8 × UInt8)
  | set (key : UInt16) (value : List UInt8) (junk : UInt8 × UInt8)
  | get (key : UInt16) (index size : Nat)
  | check (key : UInt16) (index : Nat)
  | delete (key : UInt16) (index : Nat)
  deriving DecidableEq

/-- What an operation answers; `found` carries the bytes `settings_get` copied out. -/
inductive Answer where
  | status (s : Status)
  | found (bytes : List UInt8)
  | present (b : Bool)
  deriving DecidableEq

/-- Call one operation. -/
def perform (e : Eeprom) : Op → Answer × Eeprom
  | .add key value junk => ((settingsAdd l e key value junk).map .status id)
  | .set key value junk => ((settingsSet l e key value junk).map .status id)
  | .get key index size =>
    (match settingsGet l e key index size with
      | some bs => .found bs
      | none => .status .notFound, e)
  | .check key index => (.present (settingsCheck l e key index), e)
  | .delete key index => ((settingsDelete l e key index).map .status id)

/-- A call with its answer: the event happens when the code gives that answer. -/
def step (e : Eeprom) (ev : Op × Answer) : Option Eeprom :=
  if (perform l e ev.1).1 = ev.2 then some (perform l e ev.1).2 else none

/-! ### What the store is for -/

/-- An item: its key and its value. -/
abbrev Item := UInt16 × List UInt8

/-- The values stored under a key, in order. -/
def valuesOf (items : List Item) (key : UInt16) : List (List UInt8) :=
  (items.filter fun it => it.1 = key).map Prod.snd

def replaceFirst (key : UInt16) (value : List UInt8) : List Item → List Item
  | [] => []
  | it :: rest => if it.1 = key then (key, value) :: rest else it :: replaceFirst key value rest

/-- The list without the item number `index` under the key. -/
def removeNth (key : UInt16) : Nat → List Item → List Item
  | _, [] => []
  | index, it :: rest =>
    if it.1 = key then if index = 0 then rest else it :: removeNth key (index - 1) rest
    else it :: removeNth key index rest

/-- THE LIST STORE: which answer an operation may give, and what the items are behind it. An
    operation that fails leaves the items as they are. -/
def listStep (items : List Item) : Op × Answer → Option (List Item)
  | (.add key value _, .status .ok) => some (items ++ [(key, value)])
  | (.set key value _, .status .ok) =>
    some (if valuesOf items key = [] then items ++ [(key, value)] else replaceFirst key value items)
  | (.delete key index, .status .ok) => some (removeNth key index items)
  | (.add .., .status _) | (.set .., .status _) | (.delete .., .status _) => some items
  | (.get key index size, .found bs) =>
    if ((valuesOf items key)[index]?.map (List.take size)) = some bs then some items else none
  | (.get key index _, .status s) =>
    if s = .notFound ∧ (valuesOf items key)[index]? = none then some items else none
  | (.check key index, .present b) =>
    if b = (valuesOf items key)[index]?.isSome then some items else none
  | _ => none

/-- The items the EEPROM holds. -/
def itemsOf (m : Nat → UInt8) : List Item :=
  (iters l m).map fun iter => (iterGetKey l m iter, valueBytes l m iter)

end CSync.Settings
