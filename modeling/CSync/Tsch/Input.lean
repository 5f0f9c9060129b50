import CSync.Lib.Ring
import CSync.Lib.Run
import CSync.Mac.Frame

/-! Received frames of TSCH: a slot that listens (`tsch_rx_slot` of `tsch-slot-operation.c`) writes a frame
    into a ring, the process (`tsch_rx_process_pending` and `eb_input` of `tsch.c`) reads it.

    Slots run in interrupts and may come between any two steps of the process, and the process between any
    two steps of a slot. The process gives the place of a frame back to the ring before `eb_input` reads it.
    This is no harm: the ring never lends out the place in front of its oldest element. What is stored and
    what is processed is noted in two lists that the program does not have. -/

namespace CSync

open Lib List Function

namespace TschInput

/-- What the build configures: `TSCH_MAX_INCOMING_PACKETS`, which the source checks to be a power of two,
    and `PACKETBUF_SIZE`. -/
structure Config where
  maxIncomingPackets : Nat
  packetbufSize : Nat
  frame : Frame802154.Config
  incoming_pow : ∃ k, maxIncomingPackets = 2 ^ (k + 1)

namespace Config

variable (c : Config)

def packetMaxLen : Nat := min 127 c.packetbufSize

/-- `mask` of the ring: `ringbufindex_init` takes the size in eight bits. -/
def mask : Nat := (c.maxIncomingPackets % 256 + 255) % 256

/-- The places of the array that the ring uses. -/
def places : Nat := c.mask + 1

end Config

/-- `struct tsch_asn_t`. -/
structure Asn where
  ls4b : UInt32
  ms1b : UInt8
  deriving DecidableEq

structure InputPacket where
  payload : Nat → UInt8
  rxAsn : Asn
  len : Nat
  rssi : Int
  channel : UInt8

/-- The writes of a slot into its place. -/
inductive Write where
  /-- `NETSTACK_RADIO.read`. -/
  | read (bytes : List UInt8)
  | rxAsn (asn : Asn)
  | rssi (rssi : Int)
  | channel (channel : UInt8)
  /-- `tsch_security_parse_frame`, and the length without the code. -/
  | secured (bytes : List UInt8)

def Write.apply (p : InputPacket) : Write → InputPacket
  | .read bytes => { p with payload := store p.payload 0 bytes, len := bytes.length }
  | .rxAsn a => { p with rxAsn := a }
  | .rssi r => { p with rssi := r }
  | .channel ch => { p with channel := ch }
  | .secured bytes => { p with payload := store p.payload 0 bytes, len := bytes.length }

/-- The radio is asked for `TSCH_PACKET_MAX_LEN` bytes at most, and decryption makes a frame no longer. -/
def Write.fits (c : Config) (p : InputPacket) : Write → Bool
  | .read bytes => bytes.length ≤ c.packetMaxLen
  | .secured bytes => bytes.length ≤ p.len
  | _ => true

/-- What the process does with a frame. -/
inductive Kind where | data | eb | other
  deriving DecidableEq

/-- The frame that `frame802154_parse` fills in. -/
def emptyFrame : Frame802154.Frame :=
  ⟨fun _ => 0, fun _ => 0, Frame802154.parseFcf fun _ => 0, 0, 0, 0, ⟨⟨0, 0, 0, 0⟩, fun _ => 0, fun _ => 0, 0⟩,
    0, 0⟩

/-- `is_data` and `is_eb`; the result of the parser is kept in eight bits. -/
def kindOf (c : Config) (p : InputPacket) : Kind :=
  let r := Frame802154.parse c.frame p.payload p.len emptyFrame
  if r.1 % 256 = 0 then .other
  else if r.2.fcf.frameType = 1 then .data
  else if r.2.fcf.frameVersion = Frame802154.ieee802154e2012 ∧ r.2.fcf.frameType = 0 then .eb
  else .other

/-- The packet buffer: `packetbuf_copyfrom` and the two attributes. -/
structure Packetbuf where
  bytes : List UInt8
  rssi : Int
  channel : UInt8
  deriving DecidableEq

def packetbufOf (c : Config) (p : InputPacket) : Packetbuf :=
  ⟨slice p.payload 0 (min c.packetbufSize p.len), p.rssi, p.channel⟩

/-- What was seen of a frame: `packet_input` sees the packet buffer, `eb_input` the place in the ring. -/
inductive Seen where
  | data (buf : Packetbuf)
  | eb (payload : Nat → UInt8) (len : Nat) (rxAsn : Asn)
  | other

/-- Where the process is. -/
inductive Reader (c : Config) where
  | idle
  | peeked (i : Fin c.places)
  | parsed (i : Fin c.places) (kind : Kind)
  | copied (i : Fin c.places) (kind : Kind) (buf : Packetbuf)
  | released (i : Fin c.places) (kind : Kind) (buf : Packetbuf)
  /-- In `eb_input`, behind the parser. -/
  | ebParsed (i : Fin c.places) (payload : Nat → UInt8) (len : Nat)

structure State (c : Config) where
  /-- `input_ringbuf` and `input_array`. -/
  ring : Ring c.places InputPacket
  /-- `input_index` of the slot that is under way. -/
  inputIndex : Option (Fin c.places)
  reader : Reader c
  packetbuf : Packetbuf
  /-- History: the frames put in the ring, and what was seen of those that are processed. -/
  stored : List InputPacket
  processed : List Seen

section
variable {c : Config}

/-- The start of `tsch_rx_slot`; without a place nothing is received. -/
def slotPeek (s : State c) : Option (State c) :=
  if s.inputIndex.isSome then none else some { s with inputIndex := s.ring.peekPut }

def slotWrite (w : Write) (s : State c) : Option (State c) :=
  match s.inputIndex with
  | none => none
  | some i =>
    if w.fits c (s.ring.array i) then some { s with ring := s.ring.store i (w.apply (s.ring.array i)) }
    else none

/-- `ringbufindex_put`. -/
def slotPut (s : State c) : Option (State c) :=
  match s.inputIndex with
  | none => none
  | some i => some { s with
      ring := s.ring.advance
      inputIndex := none
      stored := if s.ring.elements = c.mask then s.stored else s.stored ++ [s.ring.array i] }

/-- A slot that heard nothing, or a frame for others. -/
def slotEnd (s : State c) : Option (State c) :=
  if s.inputIndex.isSome then some { s with inputIndex := none } else none

/-- One step of `tsch_rx_process_pending`. -/
def pending (s : State c) : Option (State c) :=
  match s.reader with
  | .idle => s.ring.peekGet.map fun i => { s with reader := .peeked i }
  | .peeked i => some { s with reader := .parsed i (kindOf c (s.ring.array i)) }
  | .parsed i kind =>
    let buf := if kind = .data then packetbufOf c (s.ring.array i) else s.packetbuf
    some { s with reader := .copied i kind buf, packetbuf := buf }
  | .copied i kind buf => some { s with ring := s.ring.drop, reader := .released i kind buf }
  | .released i kind buf =>
    match kind with
    | .data => some { s with reader := .idle, processed := s.processed ++ [.data buf] }
    | .eb => some { s with reader := .ebParsed i (s.ring.array i).payload (s.ring.array i).len }
    | .other => some { s with reader := .idle, processed := s.processed ++ [.other] }
  | .ebParsed i payload len => some { s with
      reader := .idle
      processed := s.processed ++ [.eb payload len (s.ring.array i).rxAsn] }

inductive Event where
  | slotPeek
  | slotWrite (w : Write)
  | slotPut
  | slotEnd
  | pending

def step (s : State c) : Event → Option (State c)
  | .slotPeek => slotPeek s
  | .slotWrite w => slotWrite w s
  | .slotPut => slotPut s
  | .slotEnd => slotEnd s
  | .pending => pending s

/-- The variables as they are declared and the ring after `ringbufindex_init`. -/
def init : State c where
  ring := ⟨⟨0, Nat.succ_pos _⟩, ⟨0, Nat.succ_pos _⟩, fun _ => ⟨fun _ => 0, ⟨0, 0⟩, 0, 0, 0⟩⟩
  inputIndex := none
  reader := .idle
  packetbuf := ⟨[], 0, 0⟩
  stored := []
  processed := []

/-! ### What the process sees -/

/-- What is to be seen of a frame. -/
def seenOf (c : Config) (p : InputPacket) : Seen :=
  match kindOf c p with
  | .data => .data ⟨slice p.payload 0 p.len, p.rssi, p.channel⟩
  | .eb => .eb p.payload p.len p.rxAsn
  | .other => .other

/-- The frames that are not processed yet, the oldest first, and what the process knows of the oldest. -/
def Unprocessed (s : State c) (frames : List InputPacket) : Prop :=
  match s.reader with
  | .idle => frames = s.ring.toList
  | .peeked i => i = s.ring.get ∧ 0 < s.ring.elements ∧ frames = s.ring.toList
  | .parsed i kind => i = s.ring.get ∧ 0 < s.ring.elements ∧ kind = kindOf c (s.ring.array i) ∧
      frames = s.ring.toList
  | .copied i kind buf => i = s.ring.get ∧ 0 < s.ring.elements ∧ kind = kindOf c (s.ring.array i) ∧
      (kind = .data → buf = packetbufOf c (s.ring.array i)) ∧ frames = s.ring.toList
  | .released i kind buf => Ring.next i = s.ring.get ∧ kind = kindOf c (s.ring.array i) ∧
      (kind = .data → buf = packetbufOf c (s.ring.array i)) ∧ frames = s.ring.array i :: s.ring.toList
  | .ebParsed i payload len => Ring.next i = s.ring.get ∧ kindOf c (s.ring.array i) = .eb ∧
      payload = (s.ring.array i).payload ∧ len = (s.ring.array i).len ∧
      frames = s.ring.array i :: s.ring.toList

structure Inv (s : State c) : Prop where
  input : ∀ i, s.inputIndex = some i → i = s.ring.put ∧ s.ring.elements ≠ c.mask
  len : ∀ i, (s.ring.array i).len ≤ c.packetMaxLen
  frames : ∃ done frames, Unprocessed s frames ∧ s.stored = done ++ frames ∧
    s.processed = done.map (seenOf c)

theorem places_pred : c.places - 1 = c.mask := rfl

/-- A place that the process still reads. -/
def Reads (s : State c) (i : Fin c.places) : Prop :=
  i = s.ring.get ∧ 0 < s.ring.elements ∨ Ring.next i = s.ring.get

variable {s t : State c}

/-- The process reads no place that a slot writes. -/
theorem Reads.ne_put {i : Fin c.places} (h : Reads s i) (hroom : s.ring.elements ≠ c.mask) : i ≠ s.ring.put := by
  rcases h with ⟨rfl, hpos⟩ | hnext
  · have hplace : s.ring.place 0 = s.ring.get := by
      refine Fin.ext ?_
      rw [Ring.place_val (n := c.places) (Nat.succ_pos _), if_pos (by omega), add_zero]
    rw [← hplace]
    exact Ring.place_ne_put hpos
  · exact Ring.ne_put_of_next hnext hroom

variable {frames frames' : List InputPacket}

/-- The process sees the same in a ring with the same elements and indices, if the place it reads is the same. -/
theorem Unprocessed.congr (h : Unprocessed s frames)
    (hreader : t.reader = s.reader) (hget : t.ring.get = s.ring.get)
    (hpos : 0 < s.ring.elements → 0 < t.ring.elements) (harray : ∀ i, Reads s i → t.ring.array i = s.ring.array i)
    (more : List InputPacket) (hlist : t.ring.toList = s.ring.toList ++ more) (hframes : frames' = frames ++ more) :
    Unprocessed t frames' := by
  rw [Unprocessed] at h ⊢
  rw [hreader, hframes]
  cases hr : s.reader with
  | idle =>
    rw [hr] at h
    rw [h, hlist]
  | peeked i =>
    rw [hr] at h
    obtain ⟨hi, hel, hl⟩ := h
    exact ⟨hi.trans hget.symm, hpos hel, by rw [hl, hlist]⟩
  | parsed i kind =>
    rw [hr] at h
    obtain ⟨hi, hel, hk, hl⟩ := h
    exact ⟨hi.trans hget.symm, hpos hel, by rw [harray i (.inl ⟨hi, hel⟩)]; exact hk, by rw [hl, hlist]⟩
  | copied i kind buf =>
    rw [hr] at h
    obtain ⟨hi, hel, hk, hb, hl⟩ := h
    have hsame := harray i (.inl ⟨hi, hel⟩)
    refine ⟨hi.trans hget.symm, hpos hel, ?_, ?_, by rw [hl, hlist]⟩
    · rw [hsame]
      exact hk
    · rw [hsame]
      exact hb
  | released i kind buf =>
    rw [hr] at h
    obtain ⟨hi, hk, hb, hl⟩ := h
    have hsame := harray i (.inr hi)
    dsimp only
    rw [hsame, hget, hl, hlist]
    exact ⟨hi, hk, hb, rfl⟩
  | ebParsed i payload len =>
    rw [hr] at h
    obtain ⟨hi, hk, hp, hn, hl⟩ := h
    have hsame := harray i (.inr hi)
    dsimp only
    rw [hsame, hget, hl, hlist]
    exact ⟨hi, hk, hp, hn, rfl⟩

theorem Unprocessed.unique (h : Unprocessed s frames)
    (h' : Unprocessed s frames') : frames = frames' := by
  rw [Unprocessed] at h h'
  cases hr : s.reader with
  | idle =>
    rw [hr] at h h'
    exact h.trans h'.symm
  | peeked i =>
    rw [hr] at h h'
    exact h.2.2.trans h'.2.2.symm
  | parsed i kind =>
    rw [hr] at h h'
    exact h.2.2.2.trans h'.2.2.2.symm
  | copied i kind buf =>
    rw [hr] at h h'
    exact h.2.2.2.2.trans h'.2.2.2.2.symm
  | released i kind buf =>
    rw [hr] at h h'
    exact h.2.2.2.trans h'.2.2.2.symm
  | ebParsed i payload len =>
    rw [hr] at h h'
    exact h.2.2.2.2.trans h'.2.2.2.2.symm

/-! ### Steps of the slot -/

theorem Inv.slotPeek (h : Inv s) (hstep : slotPeek s = some t) : Inv t := by
  rw [TschInput.slotPeek] at hstep
  split at hstep
  · cases hstep
  · cases hstep
    refine ⟨fun i hi => ?_, h.len, h.frames⟩
    simp only [Ring.peekPut] at hi
    split at hi
    · cases hi
    next hroom =>
      cases hi
      exact ⟨rfl, hroom⟩

theorem Write.apply_len {w : Write} {p : InputPacket} (hfits : w.fits c p = true)
    (hp : p.len ≤ c.packetMaxLen) : (w.apply p).len ≤ c.packetMaxLen := by
  cases w with
  | read bytes => exact of_decide_eq_true hfits
  | secured bytes => exact le_trans (of_decide_eq_true hfits) hp
  | rxAsn a => exact hp
  | rssi r => exact hp
  | channel ch => exact hp

theorem Inv.slotWrite {w : Write} (h : Inv s) (hstep : slotWrite w s = some t) : Inv t := by
  rw [TschInput.slotWrite] at hstep
  split at hstep
  · cases hstep
  next i hi =>
    obtain ⟨rfl, hroom⟩ := h.input i hi
    split at hstep
    next hfits =>
      cases hstep
      refine ⟨h.input, fun j => ?_, ?_⟩
      · show (update s.ring.array s.ring.put _ j).len ≤ _
        by_cases hj : j = s.ring.put
        · subst hj
          rw [update_self]
          exact Write.apply_len hfits (h.len _)
        · rw [update_of_ne hj]
          exact h.len j
      · obtain ⟨done, frames, hun, hrest⟩ := h.frames
        refine ⟨done, frames, hun.congr rfl rfl id (fun j hj => ?_) [] ?_ (append_nil _).symm, hrest⟩
        · exact update_of_ne (hj.ne_put hroom) ..
        · rw [append_nil]
          exact Ring.toList_store_put s.ring _
    · cases hstep

theorem Inv.slotPut (h : Inv s) (hstep : slotPut s = some t) : Inv t := by
  rw [TschInput.slotPut] at hstep
  split at hstep
  · cases hstep
  next i hi =>
    obtain ⟨rfl, hroom⟩ := h.input i hi
    cases hstep
    have hsame : s.ring.store s.ring.put (s.ring.array s.ring.put) = s.ring := by
      rw [Ring.store, update_eq_self]
    have hlist : s.ring.advance.toList = s.ring.toList ++ [s.ring.array s.ring.put] := by
      have := Ring.toList_put hroom (s.ring.array s.ring.put)
      rwa [hsame] at this
    have hadv : s.ring.advance = { s.ring with put := Ring.next s.ring.put } := if_neg hroom
    refine ⟨by rintro _ ⟨⟩, fun i => ?_, ?_⟩
    · show (s.ring.advance.array i).len ≤ _
      rw [hadv]
      exact h.len i
    · obtain ⟨done, frames, hun, hstored, hprocessed⟩ := h.frames
      refine ⟨done, frames ++ [s.ring.array s.ring.put], hun.congr rfl ?_ ?_ ?_ _ hlist rfl, ?_, hprocessed⟩
      · show s.ring.advance.get = _
        rw [hadv]
      · intro _
        rw [← Ring.length_toList]
        rw [hlist, length_append]
        exact Nat.succ_pos _
      · intro j _
        rw [hadv]
      · rw [if_neg hroom, hstored, append_assoc]

theorem Inv.slotEnd (h : Inv s) (hstep : slotEnd s = some t) : Inv t := by
  rw [TschInput.slotEnd] at hstep
  split at hstep
  · cases hstep
    exact ⟨nofun, h.len, h.frames⟩
  · cases hstep

theorem packetbufOf_eq {p : InputPacket} (hp : p.len ≤ c.packetMaxLen) :
    packetbufOf c p = ⟨slice p.payload 0 p.len, p.rssi, p.channel⟩ := by
  have hle : p.len ≤ c.packetbufSize := le_trans hp (min_le_right _ _)
  rw [packetbufOf, min_eq_right hle]

/-- A step of the process leaves the slot alone. -/
theorem Inv.pending (h : Inv s) (hstep : pending s = some t) : Inv t := by
  obtain ⟨done, frames, hun, hstored, hprocessed⟩ := h.frames
  rw [Unprocessed] at hun
  rw [TschInput.pending] at hstep
  cases hr : s.reader with
  | idle =>
    rw [hr] at hun hstep
    obtain ⟨i, hi, rfl⟩ := Option.map_eq_some_iff.mp hstep
    rw [Ring.peekGet] at hi
    split at hi
    next hpos =>
      cases hi
      exact ⟨h.input, h.len, done, frames, ⟨rfl, hpos, hun⟩, hstored, hprocessed⟩
    · cases hi
  | peeked i =>
    rw [hr] at hun hstep
    obtain ⟨hi, hpos, hl⟩ := hun
    cases hstep
    exact ⟨h.input, h.len, done, frames, ⟨hi, hpos, rfl, hl⟩, hstored, hprocessed⟩
  | parsed i kind =>
    rw [hr] at hun hstep
    obtain ⟨hi, hpos, hk, hl⟩ := hun
    cases hstep
    exact ⟨h.input, h.len, done, frames, ⟨hi, hpos, hk, fun hdata => if_pos hdata, hl⟩, hstored, hprocessed⟩
  | copied i kind buf =>
    rw [hr] at hun hstep
    obtain ⟨rfl, hpos, hk, hb, hl⟩ := hun
    cases hstep
    have hdrop : s.ring.drop = { s.ring with get := Ring.next s.ring.get } := if_pos hpos
    refine ⟨fun i hi => ?_, fun i => ?_, done, frames, ⟨?_, ?_, ?_, ?_⟩, hstored, hprocessed⟩
    · obtain ⟨hput, -⟩ := h.input i hi
      refine ⟨by rw [Ring.put_drop]; exact hput, ?_⟩
      have hlt := s.ring.elements_lt
      rw [Ring.elements_drop, ← places_pred]
      omega
    · show (s.ring.drop.array i).len ≤ _
      rw [hdrop]
      exact h.len i
    · show _ = s.ring.drop.get
      rw [hdrop]
    · show kind = kindOf c (s.ring.drop.array _)
      rw [hdrop]
      exact hk
    · show kind = .data → buf = packetbufOf c (s.ring.drop.array _)
      rw [hdrop]
      exact hb
    · show frames = s.ring.drop.array _ :: s.ring.drop.toList
      rw [hl, Ring.toList_eq_cons hpos]
      nth_rewrite 2 [hdrop]
      rfl
  | released i kind buf =>
    rw [hr] at hun hstep
    obtain ⟨hi, hk, hb, hl⟩ := hun
    -- The frame moves from those that are left to those that are done.
    have hmove : s.stored = (done ++ [s.ring.array i]) ++ s.ring.toList := by
      rw [hstored, hl, append_assoc]
      rfl
    cases kind with
    | data =>
      cases hstep
      refine ⟨h.input, h.len, done ++ [s.ring.array i], _, rfl, hmove, ?_⟩
      rw [hprocessed, map_append, map_singleton, seenOf, ← hk, hb rfl, packetbufOf_eq (h.len i)]
    | eb =>
      cases hstep
      exact ⟨h.input, h.len, done, frames, ⟨hi, hk.symm, rfl, rfl, hl⟩, hstored, hprocessed⟩
    | other =>
      cases hstep
      refine ⟨h.input, h.len, done ++ [s.ring.array i], _, rfl, hmove, ?_⟩
      rw [hprocessed, map_append, map_singleton, seenOf, ← hk]
  | ebParsed i payload len =>
    rw [hr] at hun hstep
    obtain ⟨hi, hk, hp, hn, hl⟩ := hun
    cases hstep
    refine ⟨h.input, h.len, done ++ [s.ring.array i], _, rfl, ?_, ?_⟩
    · rw [hstored, hl, append_assoc]
      rfl
    · show s.processed ++ [_] = _
      rw [hprocessed, map_append, map_singleton, seenOf, hk, hp, hn]

theorem Inv.step {e : Event} (h : Inv s) (hstep : step s e = some t) : Inv t := by
  cases e with
  | slotPeek => exact h.slotPeek hstep
  | slotWrite w => exact h.slotWrite hstep
  | slotPut => exact h.slotPut hstep
  | slotEnd => exact h.slotEnd hstep
  | pending => exact h.pending hstep

theorem inv_init : Inv (init : State c) where
  input _ hi := by cases hi
  len _ := Nat.zero_le _
  frames := by
    refine ⟨[], [], ?_, rfl, rfl⟩
    refine (Ring.toList_eq_nil ?_).symm
    simp [init, Ring.elements, Config.places]

/-! ### The process alone -/

/-- How many steps the process has before it has seen all frames, at most. -/
def stepsLeft (s : State c) : Nat :=
  match s.reader with
  | .idle => 6 * s.ring.elements
  | .peeked _ => 6 * s.ring.elements - 1
  | .parsed _ _ => 6 * s.ring.elements - 2
  | .copied _ _ _ => 6 * s.ring.elements - 3
  | .released _ _ _ => 6 * s.ring.elements + 2
  | .ebParsed _ _ _ => 6 * s.ring.elements + 1

/-- The process has a step unless it is done with all frames, and comes closer to that. -/
theorem Inv.pending_progress (h : Inv s) : (∃ t, TschInput.pending s = some t ∧ stepsLeft t < stepsLeft s ∧ t.stored =
    s.stored) ∨ Unprocessed s [] := by
  obtain ⟨-, frames, hun, -⟩ := h.frames
  rw [Unprocessed] at hun
  cases hr : s.reader with
  | idle =>
    by_cases hpos : 0 < s.ring.elements
    · refine .inl ⟨{ s with reader := .peeked s.ring.get }, ?_, ?_, rfl⟩
      · rw [TschInput.pending, hr, Ring.peekGet, if_pos hpos]
        rfl
      · simp only [stepsLeft, hr]
        omega
    · rw [Unprocessed, hr]
      exact .inr (Ring.toList_eq_nil hpos).symm
  | peeked i =>
    rw [hr] at hun
    refine .inl ?_
    rw [TschInput.pending, hr]
    refine ⟨_, rfl, ?_, rfl⟩
    simp only [stepsLeft, hr]
    omega
  | parsed i kind =>
    rw [hr] at hun
    refine .inl ?_
    rw [TschInput.pending, hr]
    refine ⟨_, rfl, ?_, rfl⟩
    simp only [stepsLeft, hr]
    omega
  | copied i kind buf =>
    rw [hr] at hun
    refine .inl ?_
    rw [TschInput.pending, hr]
    refine ⟨_, rfl, ?_, rfl⟩
    simp only [stepsLeft, hr, Ring.elements_drop]
    omega
  | released i kind buf =>
    cases kind with
    | data =>
      refine .inl ?_
      rw [TschInput.pending, hr]
      refine ⟨_, rfl, ?_, rfl⟩
      simp only [stepsLeft, hr]
      omega
    | eb =>
      refine .inl ?_
      rw [TschInput.pending, hr]
      refine ⟨_, rfl, ?_, rfl⟩
      simp only [stepsLeft, hr]
      omega
    | other =>
      refine .inl ?_
      rw [TschInput.pending, hr]
      refine ⟨_, rfl, ?_, rfl⟩
      simp only [stepsLeft, hr]
      omega
  | ebParsed i payload len =>
    refine .inl ?_
    rw [TschInput.pending, hr]
    refine ⟨_, rfl, ?_, rfl⟩
    simp only [stepsLeft, hr]
    omega

/-- Left alone, the process sees every frame that was stored. -/
theorem Inv.drain (h : Inv s) : ∃ n t, Run TschInput.step (fun _ _ => True) s (replicate n .pending) t ∧ t.stored
    = s.stored ∧ t.processed = s.stored.map (seenOf c) := by
  induction hn : stepsLeft s using Nat.strong_induction_on generalizing s with
  | _ k ih =>
    rcases h.pending_progress with ⟨u, hu, hlt, hstored⟩ | hun
    · have hstep : TschInput.step s .pending = some u := hu
      obtain ⟨n, t, hrun, hst, hpr⟩ := ih _ (hn ▸ hlt) (h.step hstep) rfl
      refine ⟨n + 1, t, .cons trivial hstep hrun, hst.trans hstored, ?_⟩
      rw [hpr, hstored]
    · obtain ⟨done, frames, hun', hst, hpr⟩ := h.frames
      obtain rfl : frames = [] := hun'.unique hun
      rw [append_nil] at hst
      exact ⟨0, s, .nil s, rfl, by rw [hpr, hst]⟩

/-- Every run of slots and process: what was processed is, in order, what was stored first, each frame seen
    as it was stored; and the process comes to see the rest. -/
theorem frames_processed_intact {es : List Event} {s : State c} (hrun : Run step (fun _ _ => True) init es s) :
    s.processed = (s.stored.take s.processed.length).map (seenOf c) ∧
    ∃ n t,
      Run step (fun _ _ => True) s (replicate n .pending) t ∧
      t.stored = s.stored ∧
      t.processed = s.stored.map (seenOf c) := by
  have hinv : Inv s := hrun.invariant (P := Inv) (fun _ _ _ h _ hstep => h.step hstep) inv_init
  refine ⟨?_, hinv.drain⟩
  obtain ⟨done, frames, -, hst, hpr⟩ := hinv.frames
  rw [hst, hpr, length_map, take_left]

end

/-- The length and the slot number of a beacon. -/
def Seen.ebFields : Seen → Option (Nat × Asn)
  | .eb _ len rxAsn => some (len, rxAsn)
  | _ => none

/-- Two places in the ring. -/
def twoPlaces : Config := ⟨2, 128, ⟨true, false, 8⟩, ⟨0, rfl⟩⟩

/-- A second frame is received while `eb_input` still reads the first. -/
def twoBeacons : List Event :=
  [.slotPeek, .slotWrite (.read [0, 0x20, 1]), .slotWrite (.rxAsn ⟨7, 0⟩), .slotPut, .pending, .pending,
    .pending, .pending, .pending, .slotPeek, .slotWrite (.read [0, 0x20, 2, 9]),
    .slotWrite (.rxAsn ⟨8, 0⟩), .pending, .slotPut]

theorem frames_processed_intact_twoBeacons : ∃ s : State twoPlaces, s.stored.length = 2 ∧ s.processed.map
    Seen.ebFields = [some (3, ⟨7, 0⟩)] ∧ s.processed = (s.stored.take s.processed.length).map (seenOf twoPlaces) := by
  obtain ⟨s, hrun, hs⟩ : ∃ s : State twoPlaces, Run step (fun _ _ => True) init twoBeacons s ∧ _ :=
    exists_run (fun _ _ => true) (fun s : State twoPlaces => decide (s.stored.length = 2 ∧
      s.processed.map Seen.ebFields = [some (3, ⟨7, 0⟩)])) (fun _ _ _ => trivial) (by decide)
  obtain ⟨hlen, heb⟩ := of_decide_eq_true hs
  exact ⟨s, hlen, heb, (frames_processed_intact hrun).1⟩

end TschInput

end CSync
