import CSync.Ip.NbrTableShared

/-! Frames that come again (`core/net/llsec/anti-replay.c`, `core/net/llsec/noncoresec/noncoresec.c`).

    A receiver keeps the counters that it has seen last of each sender, of broadcasts and of unicasts, in a neighbour
    table that it shares the neighbours with other tables. It locks what it adds, so that no other owner of a table
    takes it away, as long as `NBR_TABLE_FIND_REMOVABLE` is not defined: the policy may remove locked neighbours too. The
    machine is little-endian: `LLSEC802154_HTONL` is the identity. -/

namespace CSync.Noncoresec
open Lib List Function NbrTable

/-- `struct anti_replay_info`. -/
structure AntiReplayInfo where
  lastBroadcastCounter : UInt32
  lastUnicastCounter : UInt32

variable {T A : Type} {N : Nat}

/-- The attributes of a frame that is received. -/
structure Frame (A : Type) where
  sender : A
  broadcast : Bool
  counterBytes01 : UInt16
  counterBytes23 : UInt16
  securityLevel : UInt8

/-- `anti_replay_get_counter`. -/
def Frame.counter (f : Frame A) : UInt32 := f.counterBytes01.toUInt32 ||| f.counterBytes23.toUInt32 <<< 16

/-- `anti_replay_was_replayed`. -/
def antiReplayWasReplayed (info : AntiReplayInfo) (f : Frame A) : Bool × AntiReplayInfo :=
  if f.broadcast then
    if f.counter ≤ info.lastBroadcastCounter then (true, info)
    else (false, { info with lastBroadcastCounter := f.counter })
  else if f.counter ≤ info.lastUnicastCounter then (true, info)
  else (false, { info with lastUnicastCounter := f.counter })

/-- What a node is built with. -/
structure Config (A : Type) where
  nodeAddr : A
  null : A
  secLvl : UInt8

/-- What comes to `parse`: what the decorated framer and `aead` say of the frame, and the calls of the callbacks of other
    tables, should a neighbour be evicted. -/
structure Received (T A : Type) (N : Nat) where
  frame : Frame A
  parsed : Bool
  authentic : Bool
  calls : Calls T N

/-- The tables of a node. What the items of the other tables hold plays no part. -/
abbrev Tables (T A : Type) (N : Nat) := World T A AntiReplayInfo N

section Functions

variable [DecidableEq T] [DecidableEq A]

/-- `parse`; `antiReplayTable` is one of the tables. -/
def parse (c : Config A) (antiReplayTable : T) (w : Tables T A N) (e : Received T A N) : Bool × Tables T A N :=
  let f := e.frame
  if !e.parsed then (false, w)
  else if f.securityLevel ≠ c.secLvl then (false, w)
  else if f.sender = c.nodeAddr then (false, w)
  else if !e.authentic then (false, w)
  else
    match nbrTableGetFromLladdr c.null w.tables antiReplayTable (some f.sender) with
    | none =>
      match nbrTableAddLladdr c.null ⟨0, 0⟩ e.calls w.tables antiReplayTable (some f.sender) with
      | (none, s, events) => (false, ⟨s, w.events ++ events⟩)
      | (some info, s, events) =>
        match nbrTableLock s antiReplayTable (some info) with
        | (false, s) =>
          (false, ⟨(nbrTableRemove s antiReplayTable (some info)).2,
            w.events ++ events ++ removal antiReplayTable (some info)⟩)
        | (true, s) => (true, ⟨setItem antiReplayTable info ⟨f.counter, f.counter⟩ s, w.events ++ events⟩)
    | some info =>
      match antiReplayWasReplayed (w.tables.data antiReplayTable info) f with
      | (true, _) => (false, w)
      | (false, counters) => (true, { w with tables := setItem antiReplayTable info counters w.tables })

/-- A node: its tables, and the frames that it has handed up, the last one first. -/
structure Node (T A : Type) (N : Nat) where
  world : Tables T A N
  up : List (Frame A)

/-- A frame comes, or the owner of another table makes a call. -/
inductive NodeEvent (T A : Type) (N : Nat)
  | frame (e : Received T A N)
  | other (op : Op T A AntiReplayInfo N)

def step (c : Config A) (anti : T) (n : Node T A N) : NodeEvent T A N → Option (Node T A N)
  | .frame e =>
    match parse c anti n.world e with
    | (true, w) => some ⟨w, e.frame :: n.up⟩
    | (false, w) => some { n with world := w }
  | .other op => (NbrTable.step c.null ⟨0, 0⟩ n.world op).map fun w => { n with world := w }

/-- `init`, at a node that has used its other tables so far. -/
def init (anti : T) (w : Tables T A N) : Node T A N :=
  ⟨{ w with tables := (nbrTableRegister w.tables anti false).2 }, []⟩

end Functions

/-- Other tables are used properly, and no neighbour with counters changes its address. -/
def Allowed [DecidableEq T] [DecidableEq A] (c : Config A) (anti : T) (n : Node T A N) : NodeEvent T A N → Prop
  | .frame e => Avoids anti n.world.tables e.calls
  | .other op => Meets c.null n.world op ∧ Foreign c.null anti n.world op

/-! ### Counters -/

/-- The last counter of a kind. -/
def AntiReplayInfo.last (info : AntiReplayInfo) (broadcast : Bool) : UInt32 :=
  if broadcast then info.lastBroadcastCounter else info.lastUnicastCounter

theorem wasReplayed_cases (info : AntiReplayInfo) (f : Frame A) : (f.counter ≤ info.last f.broadcast ∧
    antiReplayWasReplayed info f = (true, info)) ∨ (info.last f.broadcast < f.counter ∧ ∃ info',
      antiReplayWasReplayed info f = (false, info') ∧ info'.last f.broadcast = f.counter ∧
      info'.last (!f.broadcast) = info.last (!f.broadcast)) := by
  rw [antiReplayWasReplayed]
  cases f.broadcast
  · by_cases h : f.counter ≤ info.lastUnicastCounter
    · exact .inl ⟨h, by rw [if_neg Bool.false_ne_true, if_pos h]⟩
    · refine .inr ⟨UInt32.not_le.mp h, { info with lastUnicastCounter := f.counter }, ?_, rfl, rfl⟩
      rw [if_neg Bool.false_ne_true, if_neg h]
  · by_cases h : f.counter ≤ info.lastBroadcastCounter
    · exact .inl ⟨h, by rw [if_pos rfl, if_pos h]⟩
    · refine .inr ⟨UInt32.not_le.mp h, { info with lastBroadcastCounter := f.counter }, ?_, rfl, rfl⟩
      rw [if_pos rfl, if_neg h]

/-- The counters of a sender behind a frame of it that is handed up. -/
def Taken (old : Option AntiReplayInfo) (f : Frame A) (info' : AntiReplayInfo) : Prop :=
  info'.last f.broadcast = f.counter ∧ (old = none ∧ info'.last (!f.broadcast) = f.counter ∨ ∃ info, old = some info ∧
    info.last f.broadcast < f.counter ∧ info'.last (!f.broadcast) = info.last (!f.broadcast))

/-- The counters are those of frames, and a frame is newer than those of its sender and kind before it. -/
structure Newest (counters : A → Option AntiReplayInfo) (up : List (Frame A)) : Prop where
  known : ∀ f ∈ up, ∃ info, counters f.sender = some info ∧ f.counter ≤ info.last f.broadcast
  taken : ∀ a info, counters a = some info → ∀ b, ∃ f ∈ up, f.sender = a ∧ f.counter = info.last b
  newer : up.Pairwise fun g f => f.sender = g.sender → f.broadcast = g.broadcast → f.counter < g.counter

variable {counters : A → Option AntiReplayInfo} {up : List (Frame A)} {f : Frame A} {info' : AntiReplayInfo}

theorem Newest.older (h : Newest counters up) (ht : Taken (counters f.sender) f info') {g : Frame A} (hg : g ∈ up)
    (hsender : g.sender = f.sender) :
    (g.broadcast = f.broadcast → g.counter < f.counter) ∧ g.counter ≤ info'.last g.broadcast := by
  obtain ⟨info, hinfo, hle⟩ := h.known g hg
  rw [hsender] at hinfo
  obtain ⟨hlast, ⟨hnone, -⟩ | ⟨info₀, hsome, hnew, hother⟩⟩ := ht
  · rw [hinfo] at hnone
    cases hnone
  · rw [hinfo] at hsome
    cases hsome
    by_cases hkind : g.broadcast = f.broadcast
    · rw [hkind] at hle
      have hlt := UInt32.lt_of_le_of_lt hle hnew
      exact ⟨fun _ => hlt, by rw [hkind, hlast]; exact UInt32.le_of_lt hlt⟩
    · rw [← Bool.eq_not_of_ne hkind] at hother
      exact ⟨fun h => absurd h hkind, by rw [hother]; exact hle⟩

/-- STEP: a frame is handed up. -/
theorem Newest.take [DecidableEq A] (h : Newest counters up) (ht : Taken (counters f.sender) f info') :
    Newest (update counters f.sender (some info')) (f :: up) := by
  refine ⟨fun g hg => ?_, fun a info ha b => ?_, pairwise_cons.mpr ⟨fun g hg hsender hkind =>
    (h.older ht hg hsender).1 hkind, h.newer⟩⟩
  · rcases mem_cons.mp hg with rfl | hg
    · exact ⟨info', update_self .., by rw [ht.1]; exact UInt32.le_refl _⟩
    · by_cases hsender : g.sender = f.sender
      · exact ⟨info', by rw [hsender, update_self], (h.older ht hg hsender).2⟩
      · obtain ⟨info, hinfo, hle⟩ := h.known g hg
        exact ⟨info, by rw [update_of_ne hsender, hinfo], hle⟩
  · by_cases hsender : a = f.sender
    · rw [hsender, update_self] at ha
      cases ha
      by_cases hb : b = f.broadcast
      · exact ⟨f, mem_cons_self, hsender.symm, by rw [hb, ht.1]⟩
      · rw [Bool.eq_not_of_ne hb]
        rcases ht.2 with ⟨-, hother⟩ | ⟨info, hsome, -, hother⟩
        · exact ⟨f, mem_cons_self, hsender.symm, hother.symm⟩
        · obtain ⟨g, hg, hgs, hgc⟩ := h.taken _ _ hsome (!f.broadcast)
          exact ⟨g, mem_cons_of_mem _ hg, hgs.trans hsender.symm, hgc.trans hother.symm⟩
    · rw [update_of_ne hsender] at ha
      obtain ⟨g, hg, hgs, hgc⟩ := h.taken a info ha b
      exact ⟨g, mem_cons_of_mem _ hg, hgs, hgc⟩

variable [DecidableEq T] [DecidableEq A] {anti : T} {c : Config A} {w w' : Tables T A N} {n n' : Node T A N}

/-- A frame that `parse` looks up. -/
def Checked (c : Config A) (e : Received T A N) : Prop :=
  e.parsed = true ∧ e.frame.securityLevel = c.secLvl ∧ e.frame.sender ≠ c.nodeAddr ∧ e.authentic = true

/-- PARSE: a frame is refused, or is the first of its sender, or is newer than the last one of its kind. -/
theorem parse_cases (h : Shared anti w) {e : Received T A N} (hcalls : Avoids anti w.tables e.calls) :
    (∃ w', parse c anti w e = (false, w') ∧ Shared anti w' ∧
      entryOf anti w' = entryOf anti w ∧ (Checked c e →
        (∃ info, entryOf anti w e.frame.sender = some info ∧ e.frame.counter ≤ info.last e.frame.broadcast) ∨
        (entryOf anti w e.frame.sender = none ∧ w.tables.keysMem.freeBlock = none))) ∨
    ∃ w' info', parse c anti w e = (true, w') ∧ Shared anti w' ∧
      Taken (entryOf anti w e.frame.sender) e.frame info' ∧
      entryOf anti w' = update (entryOf anti w) e.frame.sender (some info') := by
  rw [parse]
  by_cases hparsed : e.parsed = true
  · by_cases hlevel : e.frame.securityLevel = c.secLvl
    · by_cases hown : e.frame.sender = c.nodeAddr
      · exact .inl ⟨w, by simp [hparsed, hlevel, hown], h, rfl, fun hno => absurd hown hno.2.2.1⟩
      · by_cases hauth : e.authentic = true
        · simp only [hparsed, hlevel, hown, hauth, Bool.not_true, Bool.false_eq_true, if_false, ne_eq, not_true]
          rw [h.inv.good.found h.mem, Option.getD_some]
          cases hlast : last w.events anti e.frame.sender with
          | none =>
            have hfirst : entryOf anti w e.frame.sender = none := by rw [entryOf, hlast, Option.map_none]
            rcases h.addLocked hcalls c.null e.frame.sender ⟨0, 0⟩ with
              ⟨s₁, evs, hadd, hkept, hfull⟩ | ⟨i, s₁, evs, hadd, hshared, hi, hsame⟩
            · dsimp only
              rw [hadd]
              exact .inl ⟨_, rfl, hkept.1, hkept.2, fun _ => .inr ⟨hfirst, hfull⟩⟩
            · dsimp only
              rw [hadd]
              obtain ⟨hshared', hcounters⟩ := hshared.write hi ⟨e.frame.counter, e.frame.counter⟩
              refine .inr ⟨_, ⟨e.frame.counter, e.frame.counter⟩, rfl, hshared', ⟨?_, .inl ⟨hfirst, ?_⟩⟩, ?_⟩
              · cases e.frame.broadcast <;> rfl
              · cases e.frame.broadcast <;> rfl
              · refine hcounters.trans (funext fun b => ?_)
                by_cases hb : b = e.frame.sender
                · rw [hb, update_self, update_self]
                · rw [update_of_ne hb, update_of_ne hb, hsame b hb]
          | some i =>
            have hcounters : entryOf anti w e.frame.sender = some (w.tables.data anti i) := by
              rw [entryOf, hlast, Option.map_some]
            rw [hcounters]
            rcases wasReplayed_cases (w.tables.data anti i) e.frame with ⟨hle, hold⟩ | ⟨hlt, info', hnew, hself, hother⟩
            · dsimp only
              rw [hold]
              exact .inl ⟨w, rfl, h, rfl, fun _ => .inl ⟨_, rfl, hle⟩⟩
            · dsimp only
              rw [hnew]
              obtain ⟨hshared, hcounters'⟩ := h.write hlast info'
              exact .inr ⟨_, info', rfl, hshared, ⟨hself, .inr ⟨_, rfl, hlt, hother⟩⟩, hcounters'⟩
        · exact .inl ⟨w, by simp [hparsed, hlevel, hown, hauth], h, rfl, fun hno => absurd hno.2.2.2 hauth⟩
    · exact .inl ⟨w, by simp [hparsed, hlevel], h, rfl, fun hno => absurd hno.2.1 hlevel⟩
  · exact .inl ⟨w, by simp [hparsed], h, rfl, fun hno => absurd hno.1 hparsed⟩

/-! ### Runs -/

structure Inv (anti : T) (n : Node T A N) : Prop where
  shared : Shared anti n.world
  newest : Newest (entryOf anti n.world) n.up

/-- STEP: the invariant is kept. -/
theorem Inv.step {e : NodeEvent T A N} (h : Inv anti n) (hok : Allowed c anti n e)
    (hstep : step c anti n e = some n') : Inv anti n' := by
  cases e with
  | frame e =>
    rw [Noncoresec.step] at hstep
    rcases parse_cases h.shared hok with ⟨w', hno, hshared, hsame, -⟩ | ⟨w', info', hyes, hshared, htaken, hcounters⟩
    · rw [hno] at hstep
      cases hstep
      exact ⟨hshared, hsame ▸ h.newest⟩
    · rw [hyes] at hstep
      cases hstep
      exact ⟨hshared, hcounters ▸ h.newest.take htaken⟩
  | other op =>
    obtain ⟨w', hw', rfl⟩ := Option.map_eq_some_iff.mp hstep
    obtain ⟨hshared, hsame⟩ := h.shared.foreign hok.1 hok.2 hw'
    exact ⟨hshared, hsame ▸ h.newest⟩

theorem inv_init (a : A) (hinv : NbrTable.Inv w) (hnew : anti ∉ w.tables.allTables)
    (hroom : w.tables.allTables.length < maxNumTables) : Inv anti (init anti w) := by
  have hnone : ∀ a, last w.events anti a = none := fun a =>
    Option.eq_none_iff_forall_ne_some.mpr fun i hi => hnew ((hinv.good.agrees _ _ _).mp hi).1
  have hmeets : Meets a w (.register anti false) := ⟨hnew, id⟩
  have hstep : NbrTable.step a ⟨0, 0⟩ w (.register anti false) = some (init anti w).world := rfl
  refine ⟨⟨hinv.step hmeets hstep, ?_, fun a i hi => ?_⟩, nofun, fun a info ha => ?_, .nil⟩
  · rw [init, nbrTableRegister, if_pos hroom]
    exact mem_append_right _ (mem_singleton.mpr rfl)
  · cases (hnone a).symm.trans hi
  · rw [entryOf] at ha
    cases (congrArg _ (hnone a)).symm.trans ha

/-- NO REPLAY: with the default policy, whatever comes and whatever the owners of the other tables do, a frame that is
    handed up is newer than those of its sender and kind before it; and a frame that passes the checks is refused only if
    its counter is not above that of a frame of its sender, or nothing of its sender was handed up and no block is left
    for it. -/
theorem no_replay {a : A} {data : T → Fin N → AntiReplayInfo} {ops : List (Op T A AntiReplayInfo N)}
    (hused : Run (NbrTable.step c.null ⟨0, 0⟩) (Meets c.null) (start a data) ops w)
    (hnew : anti ∉ w.tables.allTables) (hroom : w.tables.allTables.length < maxNumTables)
    {es : List (NodeEvent T A N)} (hrun : Run (step c anti) (Allowed c anti) (init anti w) es n) :
    (n.up.Pairwise fun g f => f.sender = g.sender → f.broadcast = g.broadcast → f.counter < g.counter) ∧
    ∀ e, Avoids anti n.world.tables e.calls → Checked c e → (parse c anti n.world e).1 = false →
      (∃ f ∈ n.up, f.sender = e.frame.sender ∧ e.frame.counter ≤ f.counter) ∨
      ((∀ f ∈ n.up, f.sender ≠ e.frame.sender) ∧ n.world.tables.keysMem.freeBlock = none) := by
  have hinv : NbrTable.Inv w := hused.invariant (fun _ _ _ h hmeets hstep => h.step hmeets hstep) (inv_start a data)
  have h : Inv anti n := hrun.invariant (fun _ _ _ h hok hstep => h.step hok hstep) (inv_init a hinv hnew hroom)
  refine ⟨h.newest.newer, fun e hcalls hchecked hno => ?_⟩
  rcases parse_cases h.shared hcalls with ⟨w', -, -, -, hwhy⟩ | ⟨w', info', hyes, -⟩
  · rcases hwhy hchecked with ⟨info, hinfo, hle⟩ | ⟨hnone, hfull⟩
    · obtain ⟨f, hf, hsender, hcounter⟩ := h.newest.taken _ _ hinfo e.frame.broadcast
      exact .inl ⟨f, hf, hsender, hcounter ▸ hle⟩
    · refine .inr ⟨fun f hf hsender => ?_, hfull⟩
      obtain ⟨info, hinfo, -⟩ := h.newest.known f hf
      rw [hsender, hnone] at hinfo
      cases hinfo
  · rw [hyes] at hno
    cases hno

/-- The tables of a node that uses another table. -/
def otherUsed : Tables Bool Nat 2 := ⟨(nbrTableRegister (start 0 fun _ _ => ⟨0, 0⟩).tables false false).2, []⟩

/-- A frame comes twice, and then a newer one, from a node that another table knows. -/
theorem no_replay_twice : ∃ n : Node Bool Nat 2, n.up.map Frame.counter = [7, 5] ∧
    n.up.Pairwise fun g f => f.sender = g.sender → f.broadcast = g.broadcast → f.counter < g.counter := by
  let frame (counter : UInt16) : NodeEvent Bool Nat 2 := .frame ⟨⟨1, true, counter, 0, 2⟩, true, true, fun _ => []⟩
  have hused : Run (NbrTable.step 0 ⟨0, 0⟩) (Meets 0) (start 0 fun _ _ => ⟨0, 0⟩) [.register false false] otherUsed :=
    .cons ⟨not_mem_nil, id⟩ rfl (.nil _)
  have hrun : Run (step ⟨9, 0, 2⟩ true) (Allowed ⟨9, 0, 2⟩ true) (init true otherUsed)
      [frame 5, .other (.add false (some 1) fun _ => []), frame 5, frame 7] _ :=
    .cons nofun rfl (.cons ⟨⟨⟨by decide, nofun⟩, id⟩, by decide, nofun⟩ rfl (.cons nofun rfl (.cons nofun rfl (.nil _))))
  exact ⟨_, by decide, (no_replay hused (by decide) (by decide) hrun).1⟩

end CSync.Noncoresec
