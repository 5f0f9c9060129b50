import CSync.Lib.Run

/-! The JSON parser (`apps/json/jsonparse.c`).

    The string is memory from its first character on, so that a parser that runs past the terminator finds something
    there. The state keeps a ghost log of the characters read, of the writes to the stack and of the copies made. -/

namespace CSync.Json

/-- `JSON_TYPE_OBJECT`, `JSON_TYPE_ARRAY` and the other types of `json.h`. -/
def jsonTypeError : UInt8 := 0
def jsonTypeObject : UInt8 := 0x7b
def jsonTypeArray : UInt8 := 0x5b
def jsonTypePair : UInt8 := 0x3a
def jsonTypePairName : UInt8 := 0x4e
def jsonTypeString : UInt8 := 0x22
def jsonTypeNumber : UInt8 := 0x30
def jsonTypeNull : UInt8 := 0x6e
def jsonTypeTrue : UInt8 := 0x74
def jsonTypeFalse : UInt8 := 0x66

def jsonErrorSyntax : UInt8 := 1
def jsonErrorUnexpectedArray : UInt8 := 2
def jsonErrorUnexpectedEndOfArray : UInt8 := 3
def jsonErrorUnexpectedObject : UInt8 := 4
def jsonErrorUnexpectedEndOfObject : UInt8 := 5
def jsonErrorUnexpectedString : UInt8 := 6

/-- The closing brace and bracket, the comma, the backslash and the blanks. -/
def closeBrace : UInt8 := 0x7d
def closeBracket : UInt8 := 0x5d
def comma : UInt8 := 0x2c
def backslash : UInt8 := 0x5c
def space : UInt8 := 0x20
def newline : UInt8 := 0x0a

/-- GHOST: `json[i]` is read, `stack[i]` is written, or `count` bytes are written to a buffer of `size`. -/
inductive Access where
  | read (i : Nat)
  | stack (i : Nat)
  | copied (count : Nat) (size : Int)
deriving DecidableEq

structure JsonparseState where
  json : Nat → UInt8
  pos : Nat
  len : Nat
  depth : Nat
  vstart : Nat
  vlen : Nat
  vtype : UInt8
  error : UInt8
  stack : Nat → UInt8
  log : List Access

/-- `jsonparse_setup`; the rest of the state keeps what it held. -/
def jsonparseSetup (state : JsonparseState) (json : Nat → UInt8) (len : Nat) : JsonparseState :=
  { state with
    json := json, len := len, pos := 0, depth := 0, error := 0, vtype := 0
    stack := Function.update state.stack 0 0
    log := [.stack 0] }

def push (maxDepth : Nat) (state : JsonparseState) (c : UInt8) : Bool × JsonparseState :=
  let state := { state with
    stack := Function.update state.stack state.depth c
    depth := state.depth + 1
    vtype := 0
    log := state.log ++ [.stack state.depth] }
  (state.depth < maxDepth, state)

def modify (state : JsonparseState) (c : UInt8) : JsonparseState :=
  if 0 < state.depth then
    { state with
      stack := Function.update state.stack (state.depth - 1) c
      log := state.log ++ [.stack (state.depth - 1)] }
  else state

def pop (state : JsonparseState) : UInt8 × JsonparseState :=
  if state.depth = 0 then (jsonTypeError, state)
  else
    let c := state.stack (state.depth - 1)
    (c, { state with depth := state.depth - 1, vtype := c })

/-! ### The loops -/

/-- A loop that goes on as long as the characters are kept, for `fuel` of them at most. -/
def scanWhile (keep : UInt8 → Bool) (json : Nat → UInt8) : Nat → Nat → Nat × List Access
  | 0, pos => (pos, [])
  | fuel + 1, pos =>
    if keep (json pos) then
      let rest := scanWhile keep json fuel (pos + 1)
      (rest.1, .read pos :: rest.2)
    else (pos, [.read pos])

/-- The loop over a string: the last character, the position behind it, and what was read. The fuel is what is left of
    the text with its terminator; a loop that has jumped over the terminator uses it up and is cut off. -/
def scanString (json : Nat → UInt8) : Nat → Nat → UInt8 × Nat × List Access
  | 0, pos => (0, pos, [])
  | fuel + 1, pos =>
    let c := json pos
    if c = 0 ∨ c = jsonTypeString then (c, pos + 1, [.read pos])
    else
      -- a backslash skips the character behind it, whichever it is
      let rest := scanString json fuel (if c = backslash then pos + 2 else pos + 1)
      (rest.1, rest.2.1, .read pos :: rest.2.2)

/-- `strncmp(str, &json[pos], n)`, up to the first difference: whether they are the same, and what was read. -/
def strncmp (json : Nat → UInt8) : List UInt8 → Nat → Nat → Bool × List Access
  | _, _, 0 => (true, [])
  | [], pos, _ + 1 => (json pos = 0, [.read pos])
  | c :: str, pos, n + 1 =>
    if json pos = c then
      let rest := strncmp json str (pos + 1) n
      (rest.1, .read pos :: rest.2)
    else (false, [.read pos])

/-- A character of a number. -/
def isNumberChar (c : UInt8) : Bool := (0x30 ≤ c && c ≤ 0x39) || c = 0x2e

/-- A character that does not end `null`, `true` or `false`. -/
def isLiteralChar (c : UInt8) : Bool := c ≠ 0 && c ≠ space && c ≠ comma && c ≠ closeBracket && c ≠ closeBrace

/-- `"null"`, `"true"` and `"false"`. -/
def literal (type : UInt8) : List UInt8 :=
  if type = jsonTypeNull then [0x6e, 0x75, 0x6c, 0x6c]
  else if type = jsonTypeTrue then [0x74, 0x72, 0x75, 0x65]
  else if type = jsonTypeFalse then [0x66, 0x61, 0x6c, 0x73, 0x65]
  else []

def skipWs (state : JsonparseState) : JsonparseState :=
  let r := scanWhile (fun c => c = space || c = newline) state.json (state.len - state.pos) state.pos
  { state with pos := r.1, log := state.log ++ r.2 }

/-! ### Values -/

/-- The end of `atomic`: the value has its type. -/
def withType (state : JsonparseState) (type : UInt8) : UInt8 × JsonparseState := (type, { state with vtype := type })

def syntaxError (state : JsonparseState) : UInt8 × JsonparseState :=
  (jsonTypeError, { state with error := jsonErrorSyntax })

/-- `atomic` for a string or the name of a pair. -/
def atomicString (state : JsonparseState) (type : UInt8) : UInt8 × JsonparseState :=
  let state := { state with vstart := state.pos }
  let r := scanString state.json (state.len + 1 - state.pos) state.pos
  let state := { state with pos := r.2.1, log := state.log ++ r.2.2 }
  if r.1 ≠ jsonTypeString then syntaxError state
  else withType { state with vlen := state.pos - state.vstart - 1 } type

def atomicNumber (state : JsonparseState) (type : UInt8) : UInt8 × JsonparseState :=
  let r := scanWhile isNumberChar state.json (state.len + 1 - state.pos) state.pos
  let vstart := state.pos - 1
  withType { state with pos := r.1, vstart := vstart, vlen := r.1 - vstart, log := state.log ++ r.2 } type

/-- `atomic` for `null`, `true` and `false`. -/
def atomicLiteral (state : JsonparseState) (type : UInt8) : UInt8 × JsonparseState :=
  let r := scanWhile isLiteralChar state.json (state.len + 1 - state.pos) state.pos
  let vstart := state.pos - 1
  let str := literal type
  let vlen := r.1 - vstart
  let cmp := strncmp state.json str vstart (max vlen str.length)
  let state := { state with pos := r.1, vstart := vstart, vlen := vlen, log := state.log ++ r.2 ++ cmp.2 }
  if cmp.1 then withType state type else syntaxError state

def atomic (state : JsonparseState) (type : UInt8) : UInt8 × JsonparseState :=
  if type = jsonTypeString ∨ type = jsonTypePairName then atomicString state type
  else if type = jsonTypeNumber then atomicNumber state type
  else if type = jsonTypeNull ∨ type = jsonTypeTrue ∨ type = jsonTypeFalse then atomicLiteral state type
  else withType { state with vstart := state.pos } type

def isAtomic (state : JsonparseState) : Bool :=
  let v := state.vtype
  v = jsonTypePairName || v = jsonTypeString || v = jsonTypeNumber || v = jsonTypeNull || v = jsonTypeTrue ||
    v = jsonTypeFalse

def jsonparseGetType (state : JsonparseState) : UInt8 :=
  if state.depth = 0 then 0 else state.stack (state.depth - 1)

def jsonparseHasNext (state : JsonparseState) : Bool := state.pos < state.len

/-! ### The parser -/

/-- A value may begin here: at the start of the text, in an array, or behind a colon. -/
def valueExpected (s v : UInt8) : Prop := (s = 0 ∧ v = 0) ∨ s = jsonTypeArray ∨ s = jsonTypePair

instance (s v : UInt8) : Decidable (valueExpected s v) := inferInstanceAs (Decidable (_ ∨ _))

/-- The character of `jsonparse_next`, read; the position is behind it. -/
def nextChar (state : JsonparseState) : UInt8 × JsonparseState :=
  let state := skipWs state
  (state.json state.pos, { state with pos := state.pos + 1, log := state.log ++ [.read state.pos] })

def behindColon (state : JsonparseState) : JsonparseState := { modify state jsonTypePair with vtype := 0 }

def nextDefault (state : JsonparseState) (c s v : UInt8) : UInt8 × JsonparseState :=
  if s = 0 ∨ s = jsonTypePair ∨ s = jsonTypeArray then
    if v ≠ 0 ∧ v ≠ comma then syntaxError state
    else if c = 0x2d ∨ (c ≤ 0x39 ∧ 0x30 ≤ c) then atomic state jsonTypeNumber
    else if c = jsonTypeNull then atomic state jsonTypeNull
    else if c = jsonTypeTrue then atomic state jsonTypeTrue
    else if c = jsonTypeFalse then atomic state jsonTypeFalse
    else syntaxError state
  else if s = jsonTypeObject then syntaxError state
  else (0, state)

/-- `jsonparse_next`, with the function that it calls behind a colon. -/
def nextOf (maxDepth : Nat) (next : JsonparseState → UInt8 × JsonparseState) (state : JsonparseState) :
    UInt8 × JsonparseState :=
  let (c, state) := nextChar state
  let s := jsonparseGetType state
  let v := state.vtype
  let fail (error : UInt8) := (jsonTypeError, { state with error := error })
  if c = jsonTypeObject then
    if valueExpected s v then (c, (push maxDepth state c).2) else fail jsonErrorUnexpectedObject
  else if c = closeBrace then
    if (s = jsonTypePair ∧ v ≠ comma ∧ v ≠ 0) ∨ (s = jsonTypeObject ∧ v = 0) then (c, (pop state).2)
    else fail jsonErrorUnexpectedEndOfObject
  else if c = closeBracket then
    if s = jsonTypeArray ∧ v ≠ comma then (c, (pop state).2) else fail jsonErrorUnexpectedEndOfArray
  else if c = jsonTypePair then
    if s = jsonTypeObject ∧ v = jsonTypePairName then next (behindColon state) else syntaxError state
  else if c = comma then
    if s = jsonTypePair ∧ v ≠ 0 then (c, { modify state jsonTypeObject with vtype := c })
    else if s = jsonTypeArray then (c, { state with vtype := c })
    else syntaxError state
  else if c = jsonTypeString then
    if (s = 0 ∧ v = 0) ∨ s = jsonTypeObject ∨ s = jsonTypeArray ∨ s = jsonTypePair then
      atomic state (if s = jsonTypeObject then jsonTypePairName else c)
    else fail jsonErrorUnexpectedString
  else if c = jsonTypeArray then
    if valueExpected s v then (c, (push maxDepth state c).2) else fail jsonErrorUnexpectedArray
  else if c = 0 then
    if v = 0 ∨ 0 < state.depth then syntaxError state else (jsonTypeError, state)
  else nextDefault state c s v

/-- `jsonparse_next`. Behind a colon it calls itself, and there it cannot come to a colon of a pair again. -/
def jsonparseNext (maxDepth : Nat) : JsonparseState → UInt8 × JsonparseState :=
  nextOf maxDepth (nextOf maxDepth fun state => (0, state))

/-! ### Copies -/

/-- The character an escape stands for, if it is a known one. -/
def unescape (c : UInt8) : List UInt8 :=
  if c = jsonTypeString ∨ c = backslash ∨ c = 0x2f then [c]
  else if c = 0x62 then [0x08]
  else if c = 0x66 then [0x0c]
  else if c = 0x6e then [0x0a]
  else if c = 0x72 then [0x0d]
  else if c = 0x74 then [0x09]
  else []

/-- The loop of `jsonparse_copy_value` from `i` on; `o` is the number of characters in `str`. -/
def copyLoop (state : JsonparseState) (size : Int) : Nat → Nat → List UInt8 → List UInt8 × List Access
  | 0, _, str => (str, [])
  | fuel + 1, i, str =>
    if i < state.vlen ∧ (str.length : Int) < size - 1 then
      let c := state.json (state.vstart + i)
      if c = backslash then
        let rest := copyLoop state size fuel (i + 2) (str ++ unescape (state.json (state.vstart + (i + 1))))
        (rest.1, .read (state.vstart + i) :: .read (state.vstart + (i + 1)) :: rest.2)
      else
        let rest := copyLoop state size fuel (i + 1) (str ++ [c])
        (rest.1, .read (state.vstart + i) :: rest.2)
    else (str, [])

/-- `jsonparse_copy_value`: what is returned, the bytes written from `str[0]` on, and the state. -/
def jsonparseCopyValue (state : JsonparseState) (size : Int) : UInt8 × List UInt8 × JsonparseState :=
  if isAtomic state then
    let r := copyLoop state size state.vlen 0 []
    let str := r.1 ++ [0]
    (state.vtype, str, { state with log := state.log ++ r.2 ++ [.copied str.length size] })
  else (0, [], state)

/-- The calls of a program that uses the parser. -/
inductive Call where
  | next
  | copyValue (size : Int)
deriving DecidableEq

/-- A call; `jsonparse_next` only while `jsonparse_has_next` holds. -/
def call (maxDepth : Nat) (state : JsonparseState) : Call → Option JsonparseState
  | .next => if jsonparseHasNext state then some (jsonparseNext maxDepth state).2 else none
  | .copyValue size => some (jsonparseCopyValue state size).2.2

end CSync.Json
