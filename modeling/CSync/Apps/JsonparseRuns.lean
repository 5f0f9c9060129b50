import CSync.Apps.Jsonparse
import CSync.Lib.Bytes

/-! The JSON parser stays inside the string, the stack and the buffer.

    Three things take it out: a string whose last character is a backslash, which makes the scan jump over the
    terminator; one bracket more than the stack holds, because nobody looks at what `push` returns; and a copy into
    a buffer of no bytes, or of a token whose length is left from the token before. In every run without them all
    is in bounds. -/

namespace CSync.Json
open Lib List

/-- A string of `len` characters and its terminator. -/
structure Text (json : Nat → UInt8) (len : Nat) : Prop where
  nonzero : ∀ i < len, json i ≠ 0
  zero : json len = 0

/-- The terminator is the last character read, the stack has `maxDepth` places, a copy fits its buffer. -/
def Access.Ok (len maxDepth : Nat) : Access → Prop
  | .read i => i ≤ len
  | .stack i => i < maxDepth
  | .copied count size => (count : Int) ≤ size

/-- What is promised of a state of the parser for a string of `len` characters. -/
structure InBounds (len maxDepth : Nat) (state : JsonparseState) : Prop where
  pos : state.pos ≤ len + 1
  log : ∀ a ∈ state.log, a.Ok len maxDepth

/-! ### What takes the parser out of bounds -/

/-- The string from `pos` on has a backslash that is not escaped itself directly before the terminator. -/
def escapesEnd (json : Nat → UInt8) (len : Nat) : Nat → Nat → Bool
  | 0, _ => false
  | fuel + 1, pos =>
    let c := json pos
    if c = 0 ∨ c = jsonTypeString then false
    else if c = backslash then pos + 1 = len || escapesEnd json len fuel (pos + 2)
    else escapesEnd json len fuel (pos + 1)

/-- An object or an array is opened. -/
def Opens (c : UInt8) (state : JsonparseState) : Prop :=
  (c = jsonTypeObject ∨ c = jsonTypeArray) ∧ valueExpected (jsonparseGetType state) state.vtype

/-- A string or the name of a pair begins. -/
def BeginsString (c : UInt8) (state : JsonparseState) : Prop :=
  c = jsonTypeString ∧ ((jsonparseGetType state = 0 ∧ state.vtype = 0) ∨ jsonparseGetType state = jsonTypeObject ∨
    jsonparseGetType state = jsonTypeArray ∨ jsonparseGetType state = jsonTypePair)

/-- The colon of a pair. -/
def EndsName (c : UInt8) (state : JsonparseState) : Prop :=
  c = jsonTypePair ∧ jsonparseGetType state = jsonTypeObject ∧ state.vtype = jsonTypePairName

/-- What is opened has a place on the stack, and a string that begins does not escape its end. -/
def CalmAt (maxDepth : Nat) (c : UInt8) (state : JsonparseState) : Prop :=
  (Opens c state → state.depth < maxDepth) ∧
    (BeginsString c state → escapesEnd state.json state.len (state.len + 1 - state.pos) state.pos = false)

/-- The same of the character that comes. -/
def Calm (maxDepth : Nat) (state : JsonparseState) : Prop := CalmAt maxDepth (nextChar state).1 (nextChar state).2

/-- The condition on a call. -/
def Keeps (maxDepth : Nat) (state : JsonparseState) : Call → Prop
  | .next => Calm maxDepth state ∧ (EndsName (nextChar state).1 (nextChar state).2 →
      Calm maxDepth (behindColon (nextChar state).2))
  | .copyValue size => isAtomic state = true → 1 ≤ size ∧ state.vstart + state.vlen ≤ state.len

/-! ### The loops -/

section Loops

variable {json : Nat → UInt8} {len : Nat} (maxDepth : Nat)

theorem Text.lt_of_ne {pos : Nat} (h : Text json len) (hpos : pos ≤ len) (hne : json pos ≠ 0) : pos < len := by
  rcases Nat.lt_or_eq_of_le hpos with hlt | rfl
  · exact hlt
  · exact absurd h.zero hne

/-- A loop that ends at a NUL stays in the text. -/
theorem scanWhile_ok (h : Text json len) (keep : UInt8 → Bool) (hkeep : keep 0 = false) :
    ∀ (fuel : Nat) {pos : Nat}, pos ≤ len → (scanWhile keep json fuel pos).1 ≤ len ∧
      ∀ a ∈ (scanWhile keep json fuel pos).2, a.Ok len maxDepth
  | 0, pos, hpos => ⟨hpos, nofun⟩
  | fuel + 1, pos, hpos => by
    rw [scanWhile]
    split
    next hkept =>
      have hne : json pos ≠ 0 := by
        intro hzero
        rw [hzero, hkeep] at hkept
        cases hkept
      have ih := scanWhile_ok h keep hkeep fuel (Nat.succ_le_of_lt (h.lt_of_ne hpos hne))
      exact ⟨ih.1, forall_mem_cons.mpr ⟨hpos, ih.2⟩⟩
    · exact ⟨hpos, forall_mem_singleton.mpr hpos⟩

theorem scanString_ok (h : Text json len) : ∀ (fuel pos : Nat), pos ≤ len → escapesEnd json len fuel pos = false →
    (scanString json fuel pos).2.1 ≤ len + 1 ∧ ∀ a ∈ (scanString json fuel pos).2.2, a.Ok len maxDepth
  | 0, pos, hpos, _ => ⟨Nat.le_succ_of_le hpos, nofun⟩
  | fuel + 1, pos, hpos, hcalm => by
    rw [scanString]
    rw [escapesEnd] at hcalm
    split
    · exact ⟨Nat.succ_le_succ hpos, forall_mem_singleton.mpr hpos⟩
    next hgo =>
      rw [if_neg hgo] at hcalm
      have hlt := h.lt_of_ne hpos fun hzero => hgo (.inl hzero)
      split at hcalm
      next hback =>
        rw [Bool.or_eq_false_iff, decide_eq_false_iff_not] at hcalm
        have ih := scanString_ok h fuel (pos + 2) (by omega) hcalm.2
        rw [if_pos hback]
        exact ⟨ih.1, forall_mem_cons.mpr ⟨hpos, ih.2⟩⟩
      next hback =>
        have ih := scanString_ok h fuel (pos + 1) hlt hcalm
        rw [if_neg hback]
        exact ⟨ih.1, forall_mem_cons.mpr ⟨hpos, ih.2⟩⟩

/-- A comparison ends at the first difference, at the terminator at the latest. -/
theorem strncmp_ok (h : Text json len) : ∀ {str : List UInt8} {pos n : Nat}, (∀ c ∈ str, c ≠ 0) → pos ≤ len →
    ∀ a ∈ (strncmp json str pos n).2, a.Ok len maxDepth
  | str, pos, 0, _, _ => by
    intro a ha
    rw [strncmp] at ha
    cases ha
  | [], pos, n + 1, _, hpos => forall_mem_singleton.mpr hpos
  | c :: str, pos, n + 1, hstr, hpos => by
    rw [forall_mem_cons] at hstr
    rw [strncmp]
    split
    next hsame =>
      have hlt := h.lt_of_ne hpos (by rw [hsame]; exact hstr.1)
      exact forall_mem_cons.mpr ⟨hpos, strncmp_ok h hstr.2 hlt⟩
    · exact forall_mem_singleton.mpr hpos

theorem literal_nonzero (type : UInt8) : ∀ c ∈ literal type, c ≠ 0 := by
  rw [literal]
  split
  · simp
  · split
    · simp
    · split
      · simp
      · exact nofun

end Loops

/-! ### One call -/

/-- The state parses the string and is in bounds; so is its stack. -/
structure Inv (json : Nat → UInt8) (len maxDepth : Nat) (state : JsonparseState) : Prop extends
    InBounds len maxDepth state where
  json_eq : state.json = json
  len_eq : state.len = len
  depth : state.depth ≤ maxDepth

section Calls

variable {json : Nat → UInt8} {len maxDepth : Nat} {state : JsonparseState}

theorem ok_append {xs ys : List Access} (hx : ∀ a ∈ xs, a.Ok len maxDepth) (hy : ∀ a ∈ ys, a.Ok len maxDepth) :
    ∀ a ∈ xs ++ ys, a.Ok len maxDepth := forall_mem_append.mpr ⟨hx, hy⟩

theorem inv_setup (hmax : 0 < maxDepth) (old : JsonparseState) :
    Inv json len maxDepth (jsonparseSetup old json len) :=
  ⟨⟨Nat.zero_le _, forall_mem_singleton.mpr hmax⟩, rfl, rfl, Nat.zero_le _⟩

section
variable (h : Inv json len maxDepth state)
include h

/-- The position moves and more is read. -/
theorem Inv.move {pos : Nat} {log : List Access} (hpos : pos ≤ len + 1)
    (hlog : ∀ a ∈ log, a.Ok len maxDepth) (vstart vlen : Nat) :
    Inv json len maxDepth { state with pos := pos, vstart := vstart, vlen := vlen, log := state.log ++ log } :=
  ⟨⟨hpos, ok_append h.log hlog⟩, h.json_eq, h.len_eq, h.depth⟩

theorem Inv.withType (type : UInt8) :
    Inv json len maxDepth (withType state type).2 := ⟨⟨h.pos, h.log⟩, h.json_eq, h.len_eq, h.depth⟩

theorem Inv.error (error : UInt8) :
    Inv json len maxDepth { state with error := error } := ⟨⟨h.pos, h.log⟩, h.json_eq, h.len_eq, h.depth⟩

theorem Inv.vtype (type : UInt8) :
    Inv json len maxDepth { state with vtype := type } := ⟨⟨h.pos, h.log⟩, h.json_eq, h.len_eq, h.depth⟩

end

/-- The character of a call; the terminator is behind the text only. -/
theorem Inv.nextChar (htext : Text json len) (h : Inv json len maxDepth state) (hpos : state.pos ≤ len) :
    Inv json len maxDepth (nextChar state).2 ∧ ((nextChar state).1 ≠ 0 → (nextChar state).2.pos ≤ len) := by
  obtain rfl := h.json_eq
  obtain rfl := h.len_eq
  have hws := scanWhile_ok maxDepth htext (fun c => c = space || c = newline) (by decide) (state.len - state.pos) hpos
  have hskip : Inv state.json state.len maxDepth (skipWs state) := h.move (Nat.le_succ_of_le hws.1) hws.2 _ _
  have hread : Access.Ok state.len maxDepth (.read (skipWs state).pos) := hws.1
  exact ⟨hskip.move (Nat.succ_le_succ hws.1) (forall_mem_singleton.mpr hread) _ _,
    fun hne => htext.lt_of_ne hws.1 hne⟩

section
variable (h : Inv json len maxDepth state)
include h

theorem Inv.push (hdepth : state.depth < maxDepth) (c : UInt8) :
    Inv json len maxDepth (push maxDepth state c).2 :=
  ⟨⟨h.pos, ok_append h.log (forall_mem_singleton.mpr hdepth)⟩, h.json_eq, h.len_eq, hdepth⟩

theorem Inv.modify (c : UInt8) : Inv json len maxDepth (modify state c) := by
  rw [Json.modify]
  split
  · have hplace : state.depth - 1 < maxDepth := by
      have := h.depth
      omega
    exact ⟨⟨h.pos, ok_append h.log (forall_mem_singleton.mpr hplace)⟩, h.json_eq, h.len_eq, h.depth⟩
  · exact h

theorem Inv.pop : Inv json len maxDepth (pop state).2 := by
  rw [Json.pop]
  split
  · exact h
  · exact ⟨⟨h.pos, h.log⟩, h.json_eq, h.len_eq, le_trans (Nat.sub_le ..) h.depth⟩

end

/-- A value is read; the scan of a string must not jump over the terminator. -/
theorem Inv.atomic (htext : Text json len) (h : Inv json len maxDepth state) (hpos : state.pos ≤ len) {type : UInt8}
    (hcalm : type = jsonTypeString ∨ type = jsonTypePairName →
        escapesEnd state.json state.len (state.len + 1 - state.pos) state.pos = false) :
    Inv json len maxDepth (atomic state type).2 := by
  obtain rfl := h.json_eq
  obtain rfl := h.len_eq
  rw [Json.atomic]
  split
  next hstring =>
    have hscan := scanString_ok maxDepth htext _ _ hpos (hcalm hstring)
    rw [atomicString]
    split
    · exact (h.move hscan.1 hscan.2 _ _).error _
    · exact (h.move hscan.1 hscan.2 _ _).withType _
  · split
    · have hscan := scanWhile_ok maxDepth htext isNumberChar (by decide) (state.len + 1 - state.pos) hpos
      exact (h.move (Nat.le_succ_of_le hscan.1) hscan.2 _ _).withType _
    · split
      · have hscan := scanWhile_ok maxDepth htext isLiteralChar (by decide) (state.len + 1 - state.pos) hpos
        have hcmp := fun n => strncmp_ok maxDepth htext (n := n) (literal_nonzero type)
          (le_trans (Nat.sub_le state.pos 1) hpos)
        rw [atomicLiteral, append_assoc]
        split
        · exact (h.move (Nat.le_succ_of_le hscan.1) (ok_append hscan.2 (hcmp _)) _ _).withType _
        · exact (h.move (Nat.le_succ_of_le hscan.1) (ok_append hscan.2 (hcmp _)) _ _).error _
      · exact ⟨⟨h.pos, h.log⟩, h.json_eq, h.len_eq, h.depth⟩

theorem Inv.nextDefault (htext : Text json len) (h : Inv json len maxDepth state) (hpos : state.pos ≤ len)
    (c s v : UInt8) : Inv json len maxDepth (nextDefault state c s v).2 := by
  have hvalue : ∀ {type : UInt8}, ¬ (type = jsonTypeString ∨ type = jsonTypePairName) →
      Inv json len maxDepth (Json.atomic state type).2 := fun htype => h.atomic htext hpos fun hs => absurd hs htype
  rw [Json.nextDefault]
  split
  · split
    · exact h.error _
    · split
      · exact hvalue (by decide)
      · split
        · exact hvalue (by decide)
        · split
          · exact hvalue (by decide)
          · split
            · exact hvalue (by decide)
            · exact h.error _
  · split
    · exact h.error _
    · exact h

/-- A branch on what was read. -/
theorem inv_ite {p : Prop} [Decidable p] {a b : UInt8 × JsonparseState} (ha : p → Inv json len maxDepth a.2)
    (hb : ¬ p → Inv json len maxDepth b.2) : Inv json len maxDepth (if p then a else b).2 := by
  split
  · exact ha ‹_›
  · exact hb ‹_›

/-- A call of `jsonparse_next` under the condition, for any function behind a colon that does its part. -/
theorem Inv.nextOf (htext : Text json len) (h : Inv json len maxDepth state) (hpos : state.pos ≤ len)
    (hcalm : Calm maxDepth state) {next : JsonparseState → UInt8 × JsonparseState}
    (hnext : EndsName (Json.nextChar state).1 (Json.nextChar state).2 →
        Inv json len maxDepth (next (behindColon (Json.nextChar state).2)).2) :
    Inv json len maxDepth (nextOf maxDepth next state).2 := by
  obtain ⟨hread, hbehind⟩ := h.nextChar htext hpos
  rw [Calm, CalmAt] at hcalm
  rw [Json.nextOf]
  generalize Json.nextChar state = r at *
  obtain ⟨c, state⟩ := r
  dsimp only at *
  refine inv_ite (fun hobject => ?_) fun _ => ?_
  · exact inv_ite (fun hvalue => hread.push (hcalm.1 ⟨.inl hobject, hvalue⟩) c) fun _ => hread.error _
  refine inv_ite (fun hbrace => ?_) fun _ => ?_
  · exact inv_ite (fun _ => hread.pop) fun _ => hread.error _
  refine inv_ite (fun hbracket => ?_) fun _ => ?_
  · exact inv_ite (fun _ => hread.pop) fun _ => hread.error _
  refine inv_ite (fun hcolon => ?_) fun _ => ?_
  · exact inv_ite (fun hname => hnext ⟨hcolon, hname⟩) fun _ => hread.error _
  refine inv_ite (fun hcomma => ?_) fun _ => ?_
  · refine inv_ite (fun _ => (hread.modify _).vtype _) fun _ => ?_
    exact inv_ite (fun _ => hread.vtype _) fun _ => hread.error _
  refine inv_ite (fun hquote => ?_) fun _ => ?_
  · have hinside := hbehind (by rw [hquote]; decide)
    exact inv_ite (fun hplace => hread.atomic htext hinside fun _ => hcalm.2 ⟨hquote, hplace⟩) fun _ => hread.error _
  refine inv_ite (fun harray => ?_) fun _ => ?_
  · exact inv_ite (fun hvalue => hread.push (hcalm.1 ⟨.inr harray, hvalue⟩) c) fun _ => hread.error _
  refine inv_ite (fun hend => ?_) fun hchar => ?_
  · exact inv_ite (fun _ => hread.error _) fun _ => hread
  · exact hread.nextDefault htext (hbehind hchar) c _ _

theorem Inv.jsonparseNext (htext : Text json len) (h : Inv json len maxDepth state) (hpos : state.pos ≤ len)
    (hcalm : Calm maxDepth state)
    (hcolon :
      EndsName (Json.nextChar state).1 (Json.nextChar state).2 → Calm maxDepth (behindColon (Json.nextChar state).2)) :
    Inv json len maxDepth (jsonparseNext maxDepth state).2 := by
  obtain ⟨hread, hbehind⟩ := h.nextChar htext hpos
  refine h.nextOf htext hpos hcalm fun hends => ?_
  have hinner : Inv json len maxDepth (behindColon (Json.nextChar state).2) := (hread.modify jsonTypePair).vtype 0
  have hinside : (behindColon (Json.nextChar state).2).pos ≤ len := by
    have hle := hbehind (by rw [hends.1]; decide)
    rw [behindColon, Json.modify]
    split <;> exact hle
  refine hinner.nextOf htext hinside (hcolon hends) fun _ => ?_
  exact ((hinner.nextChar htext hinside).1.modify jsonTypePair).vtype 0

theorem length_unescape (c : UInt8) : (unescape c).length ≤ 1 := by
  rw [unescape]
  repeat' split
  all_goals simp

/-- The copy of a token of the text reads inside the text, and leaves room for the terminator. -/
theorem copyLoop_ok (htoken : state.vstart + state.vlen ≤ len) (size : Int) : ∀ (fuel i : Nat) (str : List UInt8),
    (str.length : Int) ≤ size - 1 → ((copyLoop state size fuel i str).1.length : Int) ≤ size - 1 ∧
      ∀ a ∈ (copyLoop state size fuel i str).2, a.Ok len maxDepth
  | 0, _, _, hstr => ⟨hstr, nofun⟩
  | fuel + 1, i, str, hstr => by
    rw [copyLoop]
    split
    next hgo =>
      have hfirst : Access.Ok len maxDepth (.read (state.vstart + i)) := by
        rw [Access.Ok]
        omega
      have hsecond : Access.Ok len maxDepth (.read (state.vstart + (i + 1))) := by
        rw [Access.Ok]
        omega
      dsimp only
      split
      · have hone := length_unescape (state.json (state.vstart + (i + 1)))
        have ih := copyLoop_ok htoken size fuel (i + 2)
          (str ++ unescape (state.json (state.vstart + (i + 1)))) (by rw [length_append]; omega)
        exact ⟨ih.1, forall_mem_cons.mpr ⟨hfirst, forall_mem_cons.mpr ⟨hsecond, ih.2⟩⟩⟩
      · have ih := copyLoop_ok htoken size fuel (i + 1) (str ++ [state.json (state.vstart + i)])
          (by rw [length_append, length_singleton]; omega)
        exact ⟨ih.1, forall_mem_cons.mpr ⟨hfirst, ih.2⟩⟩
    · exact ⟨hstr, nofun⟩

theorem Inv.copyValue (h : Inv json len maxDepth state) {size : Int} (hkeeps : isAtomic state = true → 1 ≤ size ∧
    state.vstart + state.vlen ≤ state.len) : Inv json len maxDepth (jsonparseCopyValue state size).2.2 := by
  rw [jsonparseCopyValue]
  split
  next hatomic =>
    obtain ⟨hsize, htoken⟩ := hkeeps hatomic
    rw [h.len_eq] at htoken
    have hroom : (([] : List UInt8).length : Int) ≤ size - 1 := by simpa using Int.sub_nonneg_of_le hsize
    obtain ⟨hlength, hreads⟩ := copyLoop_ok htoken size state.vlen 0 [] hroom
    have hcopied : Access.Ok len maxDepth (.copied ((copyLoop state size state.vlen 0 []).1 ++ [0]).length size) := by
      rw [Access.Ok, length_append, length_singleton]
      omega
    exact ⟨⟨h.pos, ok_append (ok_append h.log hreads) (forall_mem_singleton.mpr hcopied)⟩, h.json_eq, h.len_eq,
      h.depth⟩
  · exact h

/-- STEP: a call that meets the condition keeps the invariant. -/
theorem Inv.call (htext : Text json len) (h : Inv json len maxDepth state) {c : Call} {state' : JsonparseState}
    (hkeeps : Keeps maxDepth state c) (hcall : call maxDepth state c = some state') : Inv json len maxDepth state' := by
  cases c with
  | next =>
    rw [Json.call] at hcall
    split at hcall
    next hnext =>
      cases hcall
      have hpos : state.pos < len := h.len_eq ▸ of_decide_eq_true hnext
      exact h.jsonparseNext htext (le_of_lt hpos) hkeeps.1 hkeeps.2
    · cases hcall
  | copyValue size =>
    cases hcall
    exact h.copyValue hkeeps

end Calls

/-- The parser is in bounds in every run without an escaped end of a string, one bracket too many, a copy
    to no bytes, or a copy of a token that is not the last one read. -/
theorem jsonparse_in_bounds {json : Nat → UInt8} {len maxDepth : Nat} (htext : Text json len) (hmax : 0 < maxDepth)
    (old : JsonparseState) {calls : List Call} {state : JsonparseState}
    (hrun : Run (call maxDepth) (Keeps maxDepth) (jsonparseSetup old json len) calls state) :
    InBounds len maxDepth state :=
  (hrun.invariant (fun _ _ _ h hkeeps hcall => h.call htext hkeeps hcall) (inv_setup hmax old)).toInBounds

/-! ### Concrete texts -/

instance (len maxDepth : Nat) : ∀ a : Access, Decidable (a.Ok len maxDepth)
  | .read i => inferInstanceAs (Decidable (i ≤ len))
  | .stack i => inferInstanceAs (Decidable (i < maxDepth))
  | .copied count size => inferInstanceAs (Decidable ((count : Int) ≤ size))

instance (c : UInt8) (state : JsonparseState) : Decidable (Opens c state) := inferInstanceAs (Decidable (_ ∧ _))

instance (c : UInt8) (state : JsonparseState) : Decidable (BeginsString c state) := inferInstanceAs (Decidable (_ ∧ _))

instance (c : UInt8) (state : JsonparseState) : Decidable (EndsName c state) := inferInstanceAs (Decidable (_ ∧ _))

instance (maxDepth : Nat) (c : UInt8) (state : JsonparseState) : Decidable (CalmAt maxDepth c state) :=
  inferInstanceAs (Decidable ((_ → _) ∧ (_ → _)))

instance (maxDepth : Nat) (state : JsonparseState) : Decidable (Calm maxDepth state) :=
  inferInstanceAs (Decidable (CalmAt _ _ _))

instance (maxDepth : Nat) (state : JsonparseState) : ∀ c : Call, Decidable (Keeps maxDepth state c)
  | .next => inferInstanceAs (Decidable (_ ∧ (_ → _)))
  | .copyValue _ => inferInstanceAs (Decidable (_ → _))

def blank : JsonparseState := ⟨fun _ => 0, 0, 0, 0, 0, 0, 0, 0, fun _ => 0, []⟩

/-- `{"a":[1]}`. -/
def pairText : Nat → UInt8 := bufferOf [0x7b, 0x22, 0x61, 0x22, 0x3a, 0x5b, 0x31, 0x5d, 0x7d]

/-- The object is parsed to its end; the number is copied on the way. -/
theorem jsonparse_in_bounds_pair : ∃ state, Run (call 10) (Keeps 10) (jsonparseSetup blank pairText 9)
    [.next, .next, .next, .next, .copyValue 2, .next, .next] state ∧ state.pos = 9 ∧ InBounds 9 10 state := by
  have htext : Text pairText 9 := ⟨by decide, by decide⟩
  obtain ⟨state, hrun, hpos⟩ : ∃ state, Run (call 10) (Keeps 10) (jsonparseSetup blank pairText 9)
      [.next, .next, .next, .next, .copyValue 2, .next, .next] state ∧ decide (state.pos = 9) = true :=
    exists_run (fun s c => decide (Keeps 10 s c)) _ (fun _ _ => of_decide_eq_true) (by decide)
  exact ⟨state, hrun, of_decide_eq_true hpos, jsonparse_in_bounds htext (by decide) blank hrun⟩

/-- A run of the calls that leaves the bounds. -/
def Leaves (text : List UInt8) (calls : List Call) : Prop :=
  Text (bufferOf text) text.length ∧ ∃ state, Run (call 10) (fun _ _ => True)
    (jsonparseSetup blank (bufferOf text) text.length) calls state ∧ ¬ InBounds text.length 10 state

theorem leaves_of_exec {text : List UInt8} {calls : List Call} (hne : ∀ i < text.length, bufferOf text i ≠ 0)
    (h : (exec (call 10) (fun _ _ => true) (jsonparseSetup blank (bufferOf text) text.length) calls).any
        (fun s => decide ¬ ∀ a ∈ s.log, a.Ok text.length 10) =
        true) : Leaves text calls := by
  have hzero : bufferOf text text.length = 0 := by simp [bufferOf]
  obtain ⟨state, hrun, hbad⟩ : ∃ state, Run (call 10) (fun _ _ => True)
      (jsonparseSetup blank (bufferOf text) text.length) calls state ∧
        decide (¬ ∀ a ∈ state.log, a.Ok text.length 10) = true :=
    exists_run (fun _ _ => true) _ (fun _ _ _ => trivial) h
  exact ⟨⟨hne, hzero⟩, state, hrun, fun hin => of_decide_eq_true hbad hin.log⟩

/-- Eleven opening brackets; a quote and a backslash; `["abc" "` with a copy of the string that did not end. -/
theorem jsonparse_out_of_bounds :
    Leaves (replicate 11 0x5b) (replicate 11 .next) ∧
    Leaves [0x22, 0x5c] [.next] ∧
    Leaves [0x5b, 0x22, 0x61, 0x62, 0x63, 0x22, 0x20, 0x22] [.next, .next, .next, .copyValue 8] ∧
    Leaves [0x31] [.next, .copyValue 0] :=
  ⟨leaves_of_exec (by decide) (by decide), leaves_of_exec (by decide) (by decide),
    leaves_of_exec (by decide) (by decide), leaves_of_exec (by decide) (by decide)⟩

end CSync.Json
