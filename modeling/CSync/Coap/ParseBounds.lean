import CSync.Coap.Message

/-! Which datagrams the parser of CoAP messages reads inside of.

    The bounds check of an option comes after its extended bytes were read, and the header and the token are read
    without one. What is written stays in the datagram: the parts of a path are merged into the room of the
    headers between them. -/

namespace CSync.Coap
open Lib List

/-- The accesses that stay in a datagram of `n` bytes; the byte behind it may be cleared. -/
def Access.Ok (n : Nat) : Access → Prop
  | .read index count => index + count ≤ n
  | .write index count => index + count ≤ n
  | .terminate index => index ≤ n

def CoapPacket.strings {S : Type} (p : CoapPacket S) : List S :=
  [p.proxyUri, p.proxyScheme, p.uriHost, p.locationPath, p.locationQuery, p.uriPath, p.uriQuery, p.payload]

/-- The string ends at `m` at the latest. -/
def Span.EndsBy (m : Nat) (s : Span) : Prop := s.start + s.len ≤ m

/-! ### The condition -/

/-- There is a payload marker at `i`. -/
def IsMarker (d : Nat → UInt8) (i : Nat) : Prop := d i &&& 0xF0 = 0xF0

instance (d : Nat → UInt8) (i : Nat) : Decidable (IsMarker d i) := inferInstanceAs (Decidable (_ = _))

/-- The options that the switch knows. -/
def known : List Nat :=
  [optionContentFormat, optionMaxAge, optionEtag, optionAccept, optionIfMatch, optionIfNoneMatch, optionProxyUri,
    optionProxyScheme, optionUriHost, optionUriPort, optionUriPath, optionUriQuery, optionLocationPath,
    optionLocationQuery, optionObserve, optionBlock2, optionBlock1, optionSize2, optionSize1]

/-- Options at which the parser gives up. -/
def Refused (number : Nat) : Prop :=
  number = optionProxyUri ∨ number = optionProxyScheme ∨ (number ∉ known ∧ number % 2 = 1)

instance (number : Nat) : Decidable (Refused number) := inferInstanceAs (Decidable (_ ∨ _))

/-- The extended bytes of the option at a place, an index and the number of the option before, are in the datagram. -/
def Complete (d : Nat → UInt8) (n : Nat) (place : Nat × Nat) : Prop :=
  place.1 < n → ¬ IsMarker d place.1 → (optionHeader d place.1).start ≤ n

/-- The place behind the option, if the parser accepts it. -/
def nextPlace (d : Nat → UInt8) (n : Nat) (place : Nat × Nat) : Option (Nat × Nat) :=
  if place.1 < n ∧ ¬ IsMarker d place.1 then
    let h := optionHeader d place.1
    let number := place.2 + h.delta
    if n < h.start + h.length ∨ optionSize1 < number ∨ Refused number then none
    else some (h.start + h.length, number)
  else none

/-- The datagram has a header; and, if the parser goes on, its token and every option header that the parser comes to. -/
def Datagram (d : Nat → UInt8) (n : Nat) : Prop :=
  headerLen ≤ n ∧ ((parseHeader d).version = 1 → tokenLength d ≤ tokenLen →
    headerLen + tokenLength d ≤ n ∧ Along (Complete d n) (nextPlace d n) (headerLen + tokenLength d, 0))

/-! ### Headers -/

variable {b : Nat → UInt8} {i n : Nat}

theorem extended_congr {d : Nat → UInt8} (h : ∀ j ≥ i, b j = d j) (nibble : Nat) :
    extended b nibble i = extended d nibble i := by
  rw [extended, extended, h i (le_refl i), h (i + 1) (Nat.le_succ i)]

theorem le_extended (b : Nat → UInt8) (nibble i : Nat) : i ≤ (extended b nibble i).2.1 := by
  rw [extended]
  split
  · exact Nat.le_succ i
  · split
    · exact Nat.le_add_right i 2
    · exact le_refl i

/-- The extended bytes are in the datagram if and only if it reaches behind them. -/
theorem extended_ok (b : Nat → UInt8) (nibble : Nat) (hi : i ≤ n) :
    (∀ a ∈ (extended b nibble i).2.2, a.Ok n) ↔ (extended b nibble i).2.1 ≤ n := by
  rw [extended]
  split
  · exact forall_mem_singleton
  · split
    · constructor
      · intro h
        exact h (.read (i + 1) 1) (by simp)
      · rintro h a ha
        simp only [mem_cons, not_mem_nil, or_false] at ha
        rcases ha with rfl | rfl
        · exact Nat.le_of_succ_le h
        · exact h
    · exact iff_of_true nofun hi

theorem optionHeader_congr {d : Nat → UInt8} (h : ∀ j ≥ i, b j = d j) : optionHeader b i = optionHeader d i := by
  have hdelta := extended_congr (i := i + 1) (fun j hj => h j (Nat.le_of_succ_le hj)) ((d i) >>> 4).toNat
  have hlength := extended_congr (i := (extended d ((d i) >>> 4).toNat (i + 1)).2.1)
    (fun j hj => h j (Nat.le_of_succ_le (le_trans (le_extended ..) hj))) ((d i) &&& 0x0F).toNat
  rw [optionHeader, optionHeader, h i (le_refl i), hdelta, hlength]

theorem lt_optionHeader (b : Nat → UInt8) (i : Nat) : i < (optionHeader b i).start :=
  lt_of_lt_of_le (Nat.lt_succ_self i) (le_trans (le_extended ..) (le_extended ..))

/-- What is read of a header is in the datagram if and only if the value of the option begins in it or at its end. -/
theorem optionHeader_ok (b : Nat → UInt8) (hi : i < n) :
    (∀ a ∈ (optionHeader b i).log, a.Ok n) ↔ (optionHeader b i).start ≤ n := by
  have hdelta := extended_ok b ((b i) >>> 4).toNat (Nat.succ_le_of_lt hi)
  have hle := le_extended b ((b i) &&& 0x0F).toNat (extended b ((b i) >>> 4).toNat (i + 1)).2.1
  rw [optionHeader]
  rw [cons_append, forall_mem_cons, forall_mem_append, hdelta]
  constructor
  · rintro ⟨_, hd, hl⟩
    exact (extended_ok b _ hd).mp hl
  · intro h
    exact ⟨hi, le_trans hle h, (extended_ok b _ (le_trans hle h)).mpr h⟩

/-! ### Options -/

theorem merge_spec {dst option : Span} (separator : UInt8) (hdst : dst.EndsBy i) (hi : i < option.start)
    (hn : option.EndsBy n) :
    (coapMergeMultiOption b dst option separator).1.EndsBy (option.start + option.len) ∧
    (∀ j ≥ option.start + option.len, (coapMergeMultiOption b dst option separator).2.1 j = b j) ∧
    ∀ a ∈ (coapMergeMultiOption b dst option separator).2.2, a.Ok n := by
  rw [Span.EndsBy] at hdst hn
  rw [coapMergeMultiOption]
  split
  · refine ⟨?_, fun j hj => ?_, fun a ha => ?_⟩
    · rw [Span.EndsBy]
      dsimp only
      omega
    · dsimp only
      rw [store_outside (by rw [length_slice]; omega), store_outside (by rw [length_singleton]; omega)]
    · simp only [mem_cons, not_mem_nil, or_false] at ha
      rcases ha with rfl | rfl | rfl <;> rw [Access.Ok] <;> omega
  · exact ⟨le_refl _, fun _ _ => rfl, nofun⟩

/-- What holds of a packet and its buffer between two options: the strings end in front of `i` and in the datagram,
    and from `i` on the datagram is as it came. -/
structure Between (d : Nat → UInt8) (n i : Nat) (p : CoapPacket Span) (b : Nat → UInt8) : Prop where
  ends : ∀ s ∈ p.strings, s.EndsBy i
  inside : ∀ s ∈ p.strings, s.EndsBy n
  same : ∀ j ≥ i, b j = d j

section Options

variable {d b : Nat → UInt8} {n i : Nat} {p : CoapPacket Span} {option : Span}
variable {p' : CoapPacket Span} {number : Nat}

theorem Between.later (h : Between d n i p b) (hi : i < option.start)
    (hstrings : p'.strings = p.strings) : Between d n (option.start + option.len) p' b := by
  refine ⟨fun s hs => ?_, fun s hs => h.inside s (hstrings ▸ hs), fun j hj => h.same j (by omega)⟩
  have hend := h.ends s (hstrings ▸ hs)
  rw [Span.EndsBy] at hend ⊢
  omega

/-- The same where one string has become another one, and the buffer has changed in front of the next option. -/
theorem Between.replace (h : Between d n i p b) (hi : i < option.start) (hn : option.EndsBy n) {b' : Nat → UInt8}
    {new : Span} (hnew : new.EndsBy (option.start + option.len)) (hsame : ∀ j ≥ option.start + option.len, b' j = b j)
    (hstrings : ∀ s ∈ p'.strings, s = new ∨ s ∈ p.strings) : Between d n (option.start + option.len) p' b' := by
  refine ⟨fun s hs => ?_, fun s hs => ?_, fun j hj => ?_⟩
  · rcases hstrings s hs with rfl | hold
    · exact hnew
    · have hend := h.ends s hold
      rw [Span.EndsBy] at hend ⊢
      omega
  · rcases hstrings s hs with rfl | hold
    · exact le_trans hnew hn
    · exact h.inside s hold
  · rw [hsame j hj]
    exact h.same j (by omega)

theorem whole_ok (hn : option.EndsBy n) : ∀ a ∈ [Access.read option.start option.len], a.Ok n :=
  forall_mem_singleton.mpr hn

theorem few_ok (hn : option.EndsBy n) : ∀ a ∈ [Access.read option.start (min etagLen option.len)], a.Ok n :=
  forall_mem_singleton.mpr (le_trans (Nat.add_le_add_left (min_le_right ..) _) hn)

/-- What an option does: it accesses the datagram only, what holds between two options holds behind it, and it is an
    error just where it is refused. -/
structure OptionSpec (d : Nat → UInt8) (n : Nat) (option : Span) (number : Nat)
    (r : Except (Nat × String) (CoapPacket Span × (Nat → UInt8)) × List Access) : Prop where
  ok : ∀ a ∈ r.2, a.Ok n
  between : ∀ p' b', r.1 = .ok (p', b') → Between d n (option.start + option.len) p' b'
  accepted : ∀ x, r.1 = .ok x → ¬ Refused number
  refused : ∀ e, r.1 = .error e → Refused number ∧ e.1 ≠ noError

theorem OptionSpec.same (h : Between d n i p b) (hi : i < option.start)
    {log : List Access} (hnumber : ¬ Refused number) (hstrings : p'.strings = p.strings) (hlog : ∀ a ∈ log, a.Ok n) :
    OptionSpec d n option number (.ok (p', b), log) := by
  refine ⟨hlog, fun q c hq => ?_, fun _ _ => hnumber, nofun⟩
  cases hq
  exact h.later hi hstrings

theorem OptionSpec.merged (h : Between d n i p b) (hi : i < option.start) (hn : option.EndsBy n) {dst : Span}
    {separator : UInt8} (hnumber : ¬ Refused number) (k : Nat) (hdst : p.strings[k]? = some dst)
    (hstrings : p'.strings = p.strings.set k (coapMergeMultiOption b dst option separator).1) :
    OptionSpec d n option number (.ok (p', (coapMergeMultiOption b dst option separator).2.1),
      (coapMergeMultiOption b dst option separator).2.2) := by
  obtain ⟨hnew, hsame, hlog⟩ := merge_spec separator (h.ends dst (mem_of_getElem? hdst)) hi hn
  refine ⟨hlog, fun q c hq => ?_, fun _ _ => hnumber, nofun⟩
  cases hq
  refine h.replace hi hn hnew hsame fun s hs => ?_
  rw [hstrings] at hs
  exact (mem_or_eq_of_mem_set hs).symm

theorem OptionSpec.error {status : Nat} {message : String} (hnumber : Refused number) (hstatus : status ≠ noError) :
    OptionSpec d n option number (.error (status, message), []) := by
  refine ⟨nofun, nofun, nofun, fun e he => ?_⟩
  cases he
  exact ⟨hnumber, hstatus⟩

theorem applyOption_spec (h : Between d n i p b) (hi : i < option.start) (hn : option.EndsBy n) (number : Nat) :
    OptionSpec d n option number (applyOption p b number option) := by
  have hnone : ∀ a ∈ ([] : List Access), a.Ok n := nofun
  unfold applyOption
  split
  · exact .same h hi (by decide) rfl (whole_ok hn)
  · exact .same h hi (by decide) rfl (whole_ok hn)
  · exact .same h hi (by decide) rfl (few_ok hn)
  · exact .same h hi (by decide) rfl (whole_ok hn)
  · exact .same h hi (by decide) rfl (few_ok hn)
  · exact .same h hi (by decide) rfl hnone
  · exact .error (by decide) (by decide)
  · exact .error (by decide) (by decide)
  · -- the host is where it stands
    refine ⟨hnone, fun q c hq => ?_, fun _ _ => by decide, nofun⟩
    cases hq
    refine h.replace hi hn le_rfl (fun _ _ => rfl) fun s hs => ?_
    simp only [CoapPacket.strings, mem_cons] at hs ⊢
    tauto
  · exact .same h hi (by decide) rfl (whole_ok hn)
  · exact .merged h hi hn (by decide) 5 rfl rfl
  · exact .merged h hi hn (by decide) 6 rfl rfl
  · exact .merged h hi hn (by decide) 3 rfl rfl
  · exact .merged h hi hn (by decide) 4 rfl rfl
  · exact .same h hi (by decide) rfl (whole_ok hn)
  · exact .same h hi (by decide) rfl (whole_ok hn)
  · exact .same h hi (by decide) rfl (whole_ok hn)
  · exact .same h hi (by decide) rfl (whole_ok hn)
  · exact .same h hi (by decide) rfl (whole_ok hn)
  · -- no number of the switch
    have hunknown : number ∉ known := by
      simp only [known, mem_cons, not_mem_nil, or_false, not_or]
      refine ⟨?_, ?_, ?_, ?_, ?_, ?_, ?_, ?_, ?_, ?_, ?_, ?_, ?_, ?_, ?_, ?_, ?_, ?_, ?_⟩ <;> assumption
    split
    · exact .error (.inr (.inr ⟨hunknown, ‹_›⟩)) (by decide)
    · refine .same h hi ?_ rfl hnone
      rintro (rfl | rfl | ⟨_, hodd⟩)
      · exact hunknown (by decide)
      · exact hunknown (by decide)
      · contradiction

end Options

/-! ### The loop -/

section Loop

variable {d : Nat → UInt8} {n maxChunk : Nat} {s : Parsing}

/-- What holds before a round of the loop. -/
def Ready (d : Nat → UInt8) (n : Nat) (s : Parsing) : Prop := Between d n s.index s.packet s.buffer

section
variable (h : Ready d n s)
include h

theorem Ready.header : optionHeader s.buffer s.index = optionHeader d s.index := optionHeader_congr h.same

theorem Ready.marker : s.buffer s.index &&& 0xF0 = 0xF0 ↔ IsMarker d s.index := by
  rw [h.same s.index le_rfl, IsMarker]

theorem Ready.option (hroom : (optionHeader d s.index).start + (optionHeader d s.index).length ≤ n) :
    OptionSpec d n ⟨(optionHeader d s.index).start, (optionHeader d s.index).length⟩
      (s.number + (optionHeader d s.index).delta)
        (applyOption (s.packet.setOption (s.number + (optionHeader d s.index).delta)) s.buffer
          (s.number + (optionHeader d s.index).delta)
            ⟨(optionHeader d s.index).start, (optionHeader d s.index).length⟩) := by
  have hset : Between d n s.index (s.packet.setOption (s.number + (optionHeader d s.index).delta)) s.buffer :=
    ⟨h.ends, h.inside, h.same⟩
  have hvalue : Span.EndsBy n ⟨(optionHeader d s.index).start, (optionHeader d s.index).length⟩ := hroom
  exact applyOption_spec hset (lt_optionHeader d s.index) hvalue _

/-- A round is good if and only if the place is. -/
theorem parseOption_ok :
    (∀ a ∈ (parseOption maxChunk n s).2, a.Ok n) ↔ Complete d n (s.index, s.number) := by
  rw [parseOption, Complete]
  split
  next hi =>
    split
    next hmarker =>
      refine iff_of_true ?_ fun _ hno => absurd (h.marker.mp hmarker) hno
      refine forall_mem_cons.mpr ⟨hi, forall_mem_singleton.mpr ?_⟩
      rw [Access.Ok]
      omega
    next hmarker =>
      have hheader := optionHeader_ok d hi
      have hplace : (s.index < n → ¬ IsMarker d s.index → (optionHeader d s.index).start ≤ n) ↔
          (optionHeader d s.index).start ≤ n :=
        ⟨fun hall => hall hi fun hm => hmarker (h.marker.mpr hm), fun hle _ _ => hle⟩
      rw [h.header, hplace]
      dsimp only
      split
      · exact hheader
      · split
        · exact hheader
        next hroom _ =>
          have hspec := h.option (Nat.le_of_not_lt hroom)
          have hstart : (optionHeader d s.index).start ≤ n := by omega
          refine iff_of_true ?_ hstart
          split
          · exact forall_mem_append.mpr ⟨hheader.mpr hstart, hspec.ok⟩
          · exact forall_mem_append.mpr ⟨hheader.mpr hstart, hspec.ok⟩
  next hi => exact iff_of_true nofun fun hlt => absurd hlt hi

end

variable {log : List Access}

theorem parseOption_go (h : Ready d n s) {t : Parsing} (hgo : parseOption maxChunk n s = (.inl t, log)) :
    Ready d n t ∧ nextPlace d n (s.index, s.number) = some (t.index, t.number) := by
  rw [parseOption] at hgo
  split at hgo
  next hi =>
    split at hgo
    · cases hgo
    next hmarker =>
      rw [h.header] at hgo
      dsimp only at hgo
      split at hgo
      · cases hgo
      next hroom =>
        split at hgo
        · cases hgo
        next hnumber =>
          have hspec := h.option (Nat.le_of_not_lt hroom)
          split at hgo
          next hok =>
            cases hgo
            refine ⟨hspec.between _ _ hok, ?_⟩
            rw [nextPlace, if_pos ⟨hi, fun hm => hmarker (h.marker.mpr hm)⟩]
            rw [if_neg]
            rintro (hout | hbig | hrefused)
            · exact hroom hout
            · exact hnumber hbig
            · exact hspec.accepted _ hok hrefused
          · cases hgo
  · cases hgo

theorem badRequest_ne : badRequest ≠ noError := by decide

/-- A round that ends the loop has no next place, and leaves the strings in the datagram unless there was an error. -/
theorem parseOption_stop (h : Ready d n s) {r : Parsed} (hstop : parseOption maxChunk n s = (.inr r, log)) : nextPlace
    d n (s.index, s.number) = none ∧ (r.status = noError → ∀ s ∈ r.packet.strings, s.EndsBy n) := by
  rw [parseOption] at hstop
  split at hstop
  next hi =>
    split at hstop
    next hmarker =>
      cases hstop
      refine ⟨if_neg fun hno => hno.2 (h.marker.mp hmarker), fun _ t ht => ?_⟩
      have hpayload : t = ⟨s.index + 1, min (n - (s.index + 1)) maxChunk⟩ ∨ t ∈ s.packet.strings := by
        simp only [parsePayload, CoapPacket.strings, mem_cons] at ht ⊢
        tauto
      rcases hpayload with rfl | hold
      · rw [Span.EndsBy]
        dsimp only
        omega
      · exact h.inside t hold
    next hmarker =>
      rw [h.header] at hstop
      dsimp only at hstop
      have hplace : nextPlace d n (s.index, s.number) =
          if n < (optionHeader d s.index).start + (optionHeader d s.index).length ∨
            optionSize1 < s.number + (optionHeader d s.index).delta ∨
            Refused (s.number + (optionHeader d s.index).delta) then none
          else some ((optionHeader d s.index).start + (optionHeader d s.index).length,
            s.number + (optionHeader d s.index).delta) := if_pos ⟨hi, fun hm => hmarker (h.marker.mpr hm)⟩
      rw [hplace]
      split at hstop
      · cases hstop
        exact ⟨if_pos (.inl ‹_›), fun hno => absurd hno badRequest_ne⟩
      next hroom =>
        split at hstop
        · cases hstop
          exact ⟨if_pos (.inr (.inl ‹_›)), fun hno => absurd hno badRequest_ne⟩
        · have hspec := h.option (Nat.le_of_not_lt hroom)
          split at hstop
          · cases hstop
          next herror =>
            cases hstop
            obtain ⟨hrefused, hstatus⟩ := hspec.refused _ herror
            exact ⟨if_pos (.inr (.inr hrefused)), fun hno => absurd hno hstatus⟩
  next hi =>
    cases hstop
    exact ⟨if_neg fun hyes => hi hyes.1, fun _ => h.inside⟩

theorem parseOption_measure {t : Parsing} (hgo : parseOption maxChunk n s = (.inl t, log)) :
    n - t.index < n - s.index := by
  rw [parseOption] at hgo
  split at hgo
  next hi =>
    split at hgo
    · cases hgo
    · dsimp only at hgo
      split at hgo
      · cases hgo
      · split at hgo
        · cases hgo
        · split at hgo
          · cases hgo
            have hlt := lt_optionHeader s.buffer s.index
            dsimp only
            omega
          · cases hgo
  · cases hgo

end Loop

/-! ### The whole message -/

/-- The parser ends, stays in the datagram, and leaves the strings in it if there is no error. -/
def Stays (maxChunk : Nat) (d : Nat → UInt8) (n : Nat) : Prop :=
  ∃ r, coapParseMessage maxChunk d n = some r ∧ (∀ a ∈ r.2, a.Ok n) ∧
    (r.1.status = noError → ∀ s ∈ r.1.packet.strings, s.EndsBy n)

theorem endsBy_zero (m : Nat) : Span.EndsBy m ⟨0, 0⟩ := Nat.zero_le m

/-- The packet before its options. -/
theorem ready_start (d : Nat → UInt8) (n start : Nat) (token : List UInt8) :
    Ready d n ⟨start, 0, { parseHeader d with token := token }, d⟩ := by
  have hempty : ∀ s ∈ ({ parseHeader d with token := token } : CoapPacket Span).strings, s = ⟨0, 0⟩ := by
    simp [CoapPacket.strings, parseHeader, emptyPacket]
  refine ⟨fun s hs => ?_, fun s hs => ?_, fun _ _ => rfl⟩
  · rw [hempty s hs]
    exact endsBy_zero _
  · rw [hempty s hs]
    exact endsBy_zero _

/-- The parser stays in the datagram if and only if the datagram has a whole header, and, as far as the
    parser comes, its token and the extended bytes of its options. -/
theorem parse_stays_iff (maxChunk : Nat) (d : Nat → UInt8) (n : Nat) : Stays maxChunk d n ↔ Datagram d n := by
  have hheader : (∀ a ∈ [Access.read 0 4], a.Ok n) ↔ headerLen ≤ n := forall_mem_singleton
  rw [Stays, Datagram, coapParseMessage]
  dsimp only
  split
  next hversion =>
    constructor
    · rintro ⟨r, hr, hok, _⟩
      cases hr
      exact ⟨hheader.mp hok, fun h => absurd h hversion⟩
    · rintro ⟨hlen, _⟩
      exact ⟨_, rfl, hheader.mpr hlen, fun hno => absurd hno badRequest_ne⟩
  next hversion =>
    rw [not_not] at hversion
    split
    next htoken =>
      constructor
      · rintro ⟨r, hr, hok, _⟩
        cases hr
        exact ⟨hheader.mp hok, fun _ h => absurd htoken (Nat.not_lt.mpr h)⟩
      · rintro ⟨hlen, _⟩
        exact ⟨_, rfl, hheader.mpr hlen, fun hno => absurd hno badRequest_ne⟩
    next htoken =>
      have hready := ready_start d n (headerLen + tokenLength d) (slice d headerLen (tokenLength d))
      obtain ⟨r, hr⟩ := Option.isSome_iff_exists.mp (loop_ends (fun s : Parsing => n - s.index)
          (fun s t log (hgo : parseOption maxChunk n s = (.inl t, log)) => parseOption_measure hgo) (n + 1)
          ⟨headerLen + tokenLength d, 0, { parseHeader d with token := slice d headerLen (tokenLength d) }, d⟩
          (by dsimp only; omega))
      have hlog := loop_along (fun s : Parsing => (s.index, s.number)) (P := Access.Ok n)
        (fun s hs => parseOption_ok hs) (fun s t log hs _ hgo => parseOption_go hs hgo)
        (fun s r log hs hstop => (parseOption_stop hs hstop).1) hready hr
      have hresult := loop_result (R := fun r : Parsed => r.status = noError → ∀ s ∈ r.packet.strings, s.EndsBy n)
        (fun s t log hs hgo => (parseOption_go hs hgo).1) (fun s r log hs hstop => (parseOption_stop hs hstop).2)
        hready hr
      have htokenRead : Access.Ok n (.read headerLen (tokenLength d)) ↔ headerLen + tokenLength d ≤ n := Iff.rfl
      rw [hr, Option.map_some]
      constructor
      · rintro ⟨r', hr', hok, _⟩
        cases hr'
        rw [forall_mem_append, hheader, forall_mem_cons, htokenRead, hlog] at hok
        exact ⟨hok.1, fun _ _ => hok.2⟩
      · rintro ⟨hlen, hrest⟩
        obtain ⟨htok, halong⟩ := hrest hversion (Nat.le_of_not_lt htoken)
        refine ⟨_, rfl, ?_, hresult⟩
        rw [forall_mem_append, hheader, forall_mem_cons, htokenRead, hlog]
        exact ⟨hlen, htok, halong⟩

/-- The header of a message and the first byte of an option whose delta is in the byte behind it. -/
def cutOption (i : Nat) : UInt8 := [0x40, 0x01, 0x00, 0x00, 0xD0].getD i 0

/-- The byte behind these five is read. -/
theorem parse_leaves_datagram : ¬ Stays 64 cutOption 5 := by
  rintro ⟨r, hr, hok, _⟩
  cases hr
  exact Nat.not_succ_le_self 5 (hok (.read 5 1) (by decide))

end CSync.Coap
