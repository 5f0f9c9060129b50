import CSync.Node.Gtsp

/-! The cursor of `gtsp_update_rtimer`.

    The loops of the function run over a list of any length; every access through `n` or `nn` is logged with the place
    that the cursor stands at, or none for the null pointer. The scan for a majority of the coarse differences uses the
    cursor of the loop it is in, and leaves it behind the end of the list. -/

namespace CSync

open Lib List

variable {R : Type} [SoftDouble R]

/-- The fields that are accessed. -/
inductive Field where | state | coarseDiff | fineDiff | relativeRate | synced | next
  deriving DecidableEq

/-- An access through a cursor at a place of the list; `none` is the null pointer. -/
structure Access where
  cursor : Option Nat
  field : Field
  deriving DecidableEq

/-- The result of the first loop: the entries with their flags, the counters and the log. -/
structure First (R : Type) where
  entries : List (Neighbour R)
  acc : GtspAcc R
  log : List Access

/-- The majority scan. -/
def scanLog (ns : List (Neighbour R)) : Nat → List (Neighbour R) → UInt8 → List Access
  | _, [], _ => []
  | k, n :: rest, syncedCount =>
      let diffCount := UInt8.ofNat (ns.countP fun nn => n.coarseDiff == nn.coarseDiff)
      (range ns.length).flatMap (fun j => [⟨some k, .coarseDiff⟩, ⟨some j, .coarseDiff⟩]) ++
        (if syncedCount < diffCount then ⟨some k, .coarseDiff⟩ :: scanLog ns (k + 1) rest diffCount
         else scanLog ns (k + 1) rest syncedCount)

/-- `-GTSP_JUMP_THRESHOLD < n->fine_diff && n->fine_diff < GTSP_JUMP_THRESHOLD`. -/
def jumpLog (cursor : Option Nat) (fineDiff : Int32) : List Access :=
  if -100 < fineDiff then [⟨cursor, .fineDiff⟩, ⟨cursor, .fineDiff⟩] else [⟨cursor, .fineDiff⟩]

/-- The fine part of the first loop. -/
def fineLog (cursor : Option Nat) (fineDiff : Int32) : List Access :=
  jumpLog cursor fineDiff ++
    if inJumpThreshold fineDiff then [⟨cursor, .fineDiff⟩, ⟨cursor, .relativeRate⟩, ⟨cursor, .synced⟩]
    else [⟨cursor, .synced⟩]

def firstLoop (env : Env R) (myState : St) (all : List (Neighbour R)) : Nat → List (Neighbour R) → GtspAcc R → First R
  | _, [], acc => ⟨[], acc, []⟩
  | k, n :: rest, acc =>
      if n.state ≠ myState.code then
        let r := firstLoop env myState all (k + 1) rest acc
        ⟨n :: r.entries, r.acc, ⟨some k, .state⟩ :: r.log⟩
      else
        let acc := countCoarse acc n
        if acc.coarseSyncedCount < acc.coarseDiffCount then
          -- the cursor is at the end of the list when the scan is over
          ⟨n :: rest, majorityPass env all acc, ⟨some k, .state⟩ :: ⟨some k, .coarseDiff⟩ ::
            (scanLog all 0 all acc.coarseSyncedCount ++ fineLog none env.nullFineDiff)⟩
        else
          let p := finePass acc n.fineDiff n.relativeRate
          let r := firstLoop env myState all (k + 1) rest p.2
          ⟨{ n with synced := p.1 } :: r.entries, r.acc,
            ⟨some k, .state⟩ :: ⟨some k, .coarseDiff⟩ :: (fineLog (some k) n.fineDiff ++ r.log)⟩

/-- The inner loop of the second loop. -/
def nearLog (k : Nat) (n : Neighbour R) : Nat → List (Neighbour R) → List Access
  | _, [] => []
  | j, nn :: rest => ⟨some k, .fineDiff⟩ :: ⟨some j, .fineDiff⟩ ::
      ((if inJumpThreshold (n.fineDiff - nn.fineDiff) then [⟨some j, .fineDiff⟩] else []) ++ nearLog k n (j + 1) rest)

/-- The second loop. -/
def groupsLog : Nat → List (Neighbour R) → List Access
  | _, [] => []
  | k, n :: rest => ⟨some k, .synced⟩ ::
      ((if n.synced then [] else ⟨some k, .fineDiff⟩ :: ⟨some k, .next⟩ :: nearLog k n (k + 1) rest) ++
        groupsLog (k + 1) rest)

/-- The last loop. -/
def shiftLog (fine : Int32) : Nat → List (Neighbour R) → List Access
  | _, [] => []
  | k, n :: rest => ⟨some k, .coarseDiff⟩ :: ⟨some k, .fineDiff⟩ ::
      (jumpLog (some k) (n.fineDiff - fine) ++ ⟨some k, .synced⟩ :: shiftLog fine (k + 1) rest)

def firstPass (env : Env R) (myState : St) (tm : RtimerState R) (ns : List (Neighbour R)) : First R :=
  firstLoop env myState ns 0 ns ⟨tm.avgRate, 0, 0, 0, 0, 0, 0⟩

def gtspUpdateLog (env : Env R) (myState : St) (tm : RtimerState R) (ns : List (Neighbour R)) : List Access :=
  let r := firstPass env myState tm ns
  r.log ++ (if ¬ r.acc.fineDiffCount < r.acc.fineSyncedCount ∧ myState = .discovery then groupsLog 0 r.entries else []) ++
    shiftLog (gtspOffset myState tm r.entries r.acc).1 0 r.entries

variable {ns ns' : List (Neighbour R)}

omit [SoftDouble R] in
theorem coarseMajority_congr (h : ns.map (·.coarseDiff) = ns'.map (·.coarseDiff)) :
    ∀ {l l' : List (Neighbour R)}, l.map (·.coarseDiff) = l'.map (·.coarseDiff) → ∀ acc,
      coarseMajority ns l acc = coarseMajority ns' l' acc
  | [], [], _, _ => rfl
  | [], _ :: _, hl, _ => by cases hl
  | _ :: _, [], hl, _ => by cases hl
  | n :: l, n' :: l', hl, (_, syncedCount, offset) => by
    obtain ⟨hhead, hl⟩ := cons_eq_cons.mp hl
    have hn : n.coarseDiff = n'.coarseDiff := hhead
    have hcount : (ns.countP fun nn => n.coarseDiff == nn.coarseDiff) =
        ns'.countP fun nn => n'.coarseDiff == nn.coarseDiff := by
      have hmap := congrArg (countP fun d => n'.coarseDiff == d) h
      rw [countP_map, countP_map] at hmap
      rw [hn]
      exact hmap
    rw [coarseMajority, coarseMajority, hcount, hn]
    exact coarseMajority_congr h hl _

theorem majorityPass_congr {env : Env R} (h : ns.map (·.coarseDiff) = ns'.map
    (·.coarseDiff)) (acc : GtspAcc R) : majorityPass env ns acc = majorityPass env ns' acc := by
  rw [majorityPass, majorityPass, coarseMajority_congr h h]

/-- REFINEMENT: the first loop over the blocks of the table is the one over the list of their contents. -/
theorem gtspFirst_eq (env : Env R) (myState : St) (all : List (Fin maxDegree)) (ns : List (Neighbour R)) :
    ∀ (rest : List (Fin maxDegree)) (k : Nat) (m : Pool maxDegree (Neighbour R)) (acc : GtspAcc R), rest.Nodup →
      (all.map m.mem).map (·.coarseDiff) = ns.map (·.coarseDiff) →
        (gtspFirst env myState all rest m acc).2 = (firstLoop env myState ns k (rest.map m.mem) acc).acc ∧
          rest.map (gtspFirst env myState all rest m acc).1.mem =
            (firstLoop env myState ns k (rest.map m.mem) acc).entries ∧
          ∀ i, i ∉ rest → (gtspFirst env myState all rest m acc).1.mem i = m.mem i
  | [], _, _, _, _, _ => ⟨rfl, rfl, fun _ _ => rfl⟩
  | i :: rest, k, m, acc, hnodup, hsame => by
    obtain ⟨hi, hnodup⟩ := nodup_cons.mp hnodup
    rw [gtspFirst, map_cons, firstLoop]
    split
    · obtain ⟨hacc, hentries, hother⟩ := gtspFirst_eq env myState all ns rest (k + 1) m acc hnodup hsame
      refine ⟨hacc, ?_, fun j hj => hother j fun hin => hj (mem_cons_of_mem _ hin)⟩
      rw [map_cons, hentries, hother i hi]
    · dsimp only
      split
      · exact ⟨majorityPass_congr hsame _, rfl, fun _ _ => rfl⟩
      · have hmem : ∀ (f : Neighbour R → Neighbour R) (j : Fin maxDegree), j ≠ i → (m.modify i f).mem j = m.mem j :=
          fun f j hj => Function.update_of_ne hj _ _
        have hself : ∀ f : Neighbour R → Neighbour R, (m.modify i f).mem i = f (m.mem i) :=
          fun f => Function.update_self _ _ _
        have hrest : ∀ f : Neighbour R → Neighbour R, rest.map (m.modify i f).mem = rest.map m.mem := by
          intro f
          refine map_congr_left fun j hj => hmem f j ?_
          rintro rfl
          exact hi hj
        have hcoarse : ∀ b : Bool, (all.map (m.modify i fun n => { n with synced := b }).mem).map (·.coarseDiff) =
              ns.map (·.coarseDiff) := by
          intro b
          rw [← hsame, map_map, map_map]
          refine map_congr_left fun j _ => ?_
          by_cases hj : j = i
          · subst hj
            have hkept := congrArg Neighbour.coarseDiff (hself fun n => { n with synced := b })
            exact hkept
          · exact congrArg Neighbour.coarseDiff (hmem _ j hj)
        obtain ⟨hacc, hentries, hother⟩ := gtspFirst_eq env myState all ns rest (k + 1) _ _ hnodup
          (hcoarse (finePass (countCoarse acc (m.mem i)) (m.mem i).fineDiff (m.mem i).relativeRate).1)
        rw [hrest] at hacc hentries
        refine ⟨hacc, ?_, fun j hj => ?_⟩
        · rw [map_cons, hentries, hother i hi]
          exact congrArg (· :: _) (hself _)
        · rw [hother j fun hin => hj (mem_cons_of_mem _ hin)]
          refine hmem _ j ?_
          rintro rfl
          exact hj (mem_cons_self ..)

/-! ### Places and counts -/

/-- An access to the list: at one of the places below `len`. -/
def Access.Ok (len : Nat) (a : Access) : Prop := ∃ k < len, a.cursor = some k

variable {len k : Nat} {done : List (Neighbour R)}

theorem Access.ok_at (h : k < len) (field : Field) : Access.Ok len ⟨some k, field⟩ := ⟨k, h, rfl⟩

theorem jumpLog_ok (h : k < len) (fineDiff : Int32) : ∀ a ∈ jumpLog (some k) fineDiff, a.Ok len := by
  rw [jumpLog]
  split
  · exact forall_mem_cons.mpr ⟨Access.ok_at h _, forall_mem_singleton.mpr (Access.ok_at h _)⟩
  · exact forall_mem_singleton.mpr (Access.ok_at h _)

theorem fineLog_ok (h : k < len) (fineDiff : Int32) : ∀ a ∈ fineLog (some k) fineDiff, a.Ok len := by
  refine forall_mem_append.mpr ⟨jumpLog_ok h fineDiff, ?_⟩
  split
  · exact forall_mem_cons.mpr ⟨Access.ok_at h _, forall_mem_cons.mpr ⟨Access.ok_at h _,
      forall_mem_singleton.mpr (Access.ok_at h _)⟩⟩
  · exact forall_mem_singleton.mpr (Access.ok_at h _)

section

omit [SoftDouble R]

theorem nearLog_ok {n : Neighbour R} (h : k < len) : ∀ {j : Nat} {l : List (Neighbour R)},
    j + l.length ≤ len → ∀ a ∈ nearLog k n j l, a.Ok len
  | _, [], _ => nofun
  | j, nn :: l, hl => by
    rw [length_cons] at hl
    have hj : j < len := by omega
    refine forall_mem_cons.mpr ⟨Access.ok_at h _, forall_mem_cons.mpr ⟨Access.ok_at hj _,
      forall_mem_append.mpr ⟨?_, nearLog_ok h (by omega)⟩⟩⟩
    split
    · exact forall_mem_singleton.mpr (Access.ok_at hj _)
    · exact nofun

theorem groupsLog_ok : ∀ {k : Nat} {l : List (Neighbour R)}, k + l.length ≤ len → ∀ a ∈ groupsLog k l, a.Ok len
  | _, [], _ => nofun
  | k, n :: l, hl => by
    rw [length_cons] at hl
    have hk : k < len := by omega
    refine forall_mem_cons.mpr ⟨Access.ok_at hk _, forall_mem_append.mpr ⟨?_, groupsLog_ok (by omega)⟩⟩
    split
    · exact nofun
    · exact forall_mem_cons.mpr ⟨Access.ok_at hk _, forall_mem_cons.mpr ⟨Access.ok_at hk _, nearLog_ok hk (by omega)⟩⟩

theorem shiftLog_ok (fine : Int32) : ∀ {k : Nat} {l : List (Neighbour R)}, k + l.length ≤ len →
    ∀ a ∈ shiftLog fine k l, a.Ok len
  | _, [], _ => nofun
  | k, n :: l, hl => by
    rw [length_cons] at hl
    have hk : k < len := by omega
    exact forall_mem_cons.mpr ⟨Access.ok_at hk _, forall_mem_cons.mpr ⟨Access.ok_at hk _,
      forall_mem_append.mpr ⟨jumpLog_ok hk _, forall_mem_cons.mpr ⟨Access.ok_at hk _, shiftLog_ok fine (by omega)⟩⟩⟩⟩

/-- The counters after the entries `done` of the own state. -/
structure Counted (done : List (Neighbour R)) (acc : GtspAcc R) : Prop where
  coarseSynced : acc.coarseSyncedCount = UInt8.ofNat (done.countP fun n => n.coarseDiff == 0)
  coarseDiff : acc.coarseDiffCount = UInt8.ofNat (done.countP fun n => n.coarseDiff != 0)
  fineSynced : acc.fineSyncedCount = UInt8.ofNat (done.countP fun n => inJumpThreshold n.fineDiff)
  fineDiff : acc.fineDiffCount = UInt8.ofNat (done.countP fun n => !inJumpThreshold n.fineDiff)

/-- In 8 bits, at least as many entries are in coarse synchrony as are not. -/
def InStep (l : List (Neighbour R)) : Prop :=
  UInt8.ofNat (l.countP fun n => n.coarseDiff != 0) ≤ UInt8.ofNat (l.countP fun n => n.coarseDiff == 0)

def ownEntries (myState : St) (ns : List (Neighbour R)) : List (Neighbour R) := ns.filter fun n => n.state == myState.code

theorem ofNat_countP_append (p : Neighbour R → Bool) (done : List (Neighbour R)) (n : Neighbour R) :
    UInt8.ofNat ((done ++ [n]).countP p) = if p n then UInt8.ofNat (done.countP p) + 1 else UInt8.ofNat (done.countP p) := by
  rw [countP_append, countP_singleton]
  split
  · exact UInt8.ofNat_add _ _
  · rw [add_zero]

theorem Counted.coarse {acc : GtspAcc R} (h : Counted done acc) (n : Neighbour R) :
    (countCoarse acc n).coarseSyncedCount = UInt8.ofNat ((done ++ [n]).countP fun n => n.coarseDiff == 0) ∧
      (countCoarse acc n).coarseDiffCount = UInt8.ofNat ((done ++ [n]).countP fun n => n.coarseDiff != 0) ∧
      (countCoarse acc n).fineSyncedCount = acc.fineSyncedCount ∧ (countCoarse acc n).fineDiffCount = acc.fineDiffCount := by
  rw [ofNat_countP_append, ofNat_countP_append, ← h.coarseSynced, ← h.coarseDiff, countCoarse]
  by_cases hzero : (n.coarseDiff == 0) = true
  · have hne : (n.coarseDiff != 0) = false := by rw [bne, hzero]; rfl
    rw [if_pos hzero, hzero, hne]
    exact ⟨rfl, rfl, rfl, rfl⟩
  · have hno : (n.coarseDiff == 0) = false := Bool.eq_false_iff.mpr hzero
    have hne : (n.coarseDiff != 0) = true := by rw [bne, hno]; rfl
    rw [if_neg hzero, hno, hne]
    exact ⟨rfl, rfl, rfl, rfl⟩

end

theorem Counted.step {acc : GtspAcc R} (h : Counted done acc) (n : Neighbour R) :
    Counted (done ++ [n]) (finePass (countCoarse acc n) n.fineDiff n.relativeRate).2 := by
  obtain ⟨hsynced, hdiff, hfs, hfd⟩ := h.coarse n
  have hs := ofNat_countP_append (fun n => inJumpThreshold n.fineDiff) done n
  have hd := ofNat_countP_append (fun n => !inJumpThreshold n.fineDiff) done n
  rw [← h.fineSynced] at hs
  rw [← h.fineDiff] at hd
  rw [finePass]
  cases hj : inJumpThreshold n.fineDiff with
  | true =>
    rw [hj] at hs hd
    exact ⟨hsynced, hdiff, (congrArg (· + 1) hfs).trans hs.symm, hfd.trans hd.symm⟩
  | false =>
    rw [hj] at hs hd
    exact ⟨hsynced, hdiff, hfs.trans hs.symm, (congrArg (· + 1) hfd).trans hd.symm⟩

omit [SoftDouble R] in
/-- Every start of the list is in step, if the next entry is and every start behind it. -/
theorem inStep_cons {rest : List (Neighbour R)} {n : Neighbour R} : (∀ l, l <+: n :: rest → l ≠ [] → InStep (done ++
    l)) ↔ InStep (done ++ [n]) ∧ ∀ l, l <+: rest → l ≠ [] → InStep (done ++ [n] ++ l) := by
  constructor
  · intro h
    refine ⟨h [n] (prefix_cons_inj n |>.mpr nil_prefix) (cons_ne_nil _ _), fun l hl _ => ?_⟩
    rw [append_assoc]
    exact h (n :: l) ((prefix_cons_inj n).mpr hl) (cons_ne_nil _ _)
  · rintro ⟨hn, hrest⟩ l hl hne
    rcases l with _ | ⟨b, l⟩
    · exact absurd rfl hne
    · obtain ⟨rfl, hpre⟩ := cons_prefix_cons.mp hl
      by_cases hnil : l = []
      · rw [hnil]
        exact hn
      · have htail := hrest l hpre hnil
        rw [append_assoc] at htail
        exact htail

theorem length_firstLoop (env : Env R) (myState : St) (all : List (Neighbour R)) : ∀ (l : List (Neighbour R)) (k : Nat)
    (acc : GtspAcc R), (firstLoop env myState all k l acc).entries.length = l.length
  | [], _, _ => rfl
  | n :: l, k, acc => by
    rw [firstLoop]
    split
    · exact congrArg (· + 1) (length_firstLoop env myState all l (k + 1) acc)
    · dsimp only
      split
      · rfl
      · exact congrArg (· + 1) (length_firstLoop env myState all l (k + 1) _)

theorem coarseSyncedOffset_pass (acc : GtspAcc R) (n : Neighbour R) :
    (finePass (countCoarse acc n) n.fineDiff n.relativeRate).2.coarseSyncedOffset = acc.coarseSyncedOffset := by
  rw [finePass, countCoarse]
  split <;> split <;> rfl

/-- LOOP: while the entries of the own state are in step, the cursor is on the list and they are counted; at the first
    one that is not, the null pointer is read. -/
theorem firstLoop_spec (len : Nat) (env : Env R) (myState : St) (all : List (Neighbour R)) :
    ∀ {l done : List (Neighbour R)} {k : Nat} {acc : GtspAcc R}, k + l.length ≤ len → Counted done acc →
      ((∀ p, p <+: ownEntries myState l → p ≠ [] → InStep (done ++ p)) →
        (∀ a ∈ (firstLoop env myState all k l acc).log, a.Ok len) ∧
          (firstLoop env myState all k l acc).acc.coarseSyncedOffset = acc.coarseSyncedOffset ∧
          Counted (done ++ ownEntries myState l) (firstLoop env myState all k l acc).acc) ∧
      (¬ (∀ p, p <+: ownEntries myState l → p ≠ [] → InStep (done ++ p)) →
        ∃ a ∈ (firstLoop env myState all k l acc).log, a.cursor = none)
  | [], done, k, acc, _, h => by
    refine ⟨fun _ => ⟨nofun, rfl, ?_⟩, fun hno => absurd (fun p hp hne => ?_) hno⟩
    · rw [ownEntries, filter_nil, append_nil]
      exact h
    · exact absurd (prefix_nil.mp hp) hne
  | n :: l, done, k, acc, hlen, h => by
    rw [length_cons] at hlen
    have hk : k < len := by omega
    have hrest : k + 1 + l.length ≤ len := by omega
    rw [firstLoop]
    split
    next hstate =>
      have hown : ownEntries myState (n :: l) = ownEntries myState l := filter_cons_of_neg (by simpa using hstate)
      obtain ⟨hgood, hbad⟩ := firstLoop_spec len env myState all hrest h
      rw [hown]
      refine ⟨fun hin => ?_, fun hno => ?_⟩
      · obtain ⟨hlog, hacc⟩ := hgood hin
        exact ⟨forall_mem_cons.mpr ⟨Access.ok_at hk _, hlog⟩, hacc⟩
      · obtain ⟨a, ha, hnull⟩ := hbad hno
        exact ⟨a, mem_cons_of_mem _ ha, hnull⟩
    next hstate =>
      have hown : ownEntries myState (n :: l) = n :: ownEntries myState l :=
        filter_cons_of_pos (by simpa using hstate)
      rw [hown, inStep_cons]
      obtain ⟨hsynced, hdiff, _⟩ := h.coarse n
      dsimp only
      split
      next hlt =>
        have hno : ¬ InStep (done ++ [n]) := by
          rw [InStep, ← hsynced, ← hdiff]
          exact UInt8.not_le.mpr hlt
        refine ⟨fun hin => absurd hin.1 hno, fun _ => ⟨⟨none, .fineDiff⟩, ?_, rfl⟩⟩
        refine mem_cons_of_mem _ (mem_cons_of_mem _ (mem_append_right _ (mem_append_left _ ?_)))
        rw [jumpLog]
        split
        · exact mem_cons_self ..
        · exact mem_cons_self ..
      next hlt =>
        have hin : InStep (done ++ [n]) := by
          rw [InStep, ← hsynced, ← hdiff]
          exact UInt8.not_lt.mp hlt
        obtain ⟨hgood, hbad⟩ := firstLoop_spec len env myState all hrest (h.step n)
        refine ⟨fun hall => ?_, fun hno => ?_⟩
        · obtain ⟨hlog, hoffset, hacc⟩ := hgood hall.2
          refine ⟨forall_mem_cons.mpr ⟨Access.ok_at hk _, forall_mem_cons.mpr ⟨Access.ok_at hk _,
            forall_mem_append.mpr ⟨fineLog_ok hk _, hlog⟩⟩⟩, ?_⟩
          rw [append_assoc] at hacc
          exact ⟨hoffset.trans (coarseSyncedOffset_pass acc n), hacc⟩
        · obtain ⟨a, ha, hnull⟩ := hbad fun hall => hno ⟨hin, hall⟩
          exact ⟨a, mem_cons_of_mem _ (mem_cons_of_mem _ (mem_append_right _ ha)), hnull⟩

/-- Every access is to an entry of the list, and the first pass has counted every entry of the own state. -/
structure Visits (env : Env R) (myState : St) (tm : RtimerState R) (ns : List (Neighbour R)) : Prop where
  access : ∀ a ∈ gtspUpdateLog env myState tm ns, a.Ok ns.length
  counts : (firstPass env myState tm ns).acc.fineSyncedCount.toNat + (firstPass env myState tm ns).acc.fineDiffCount.toNat =
    (ownEntries myState ns).length

theorem toNat_add_eq_iff (a b : Nat) : (UInt8.ofNat a).toNat + (UInt8.ofNat b).toNat = a + b ↔ a < 256 ∧ b < 256 := by
  rw [UInt8.toNat_ofNat', UInt8.toNat_ofNat']
  omega

/-- The null pointer is read, or an entry is not counted, unless in every start of the list the entries of the
    own state are in step, and the 8-bit counters do not overflow. -/
theorem gtspUpdate_visits (env : Env R) (myState : St) (tm : RtimerState R) (ns : List (Neighbour R)) :
    Visits env myState tm ns ↔ (∀ l, l <+: ownEntries myState ns → InStep l) ∧
      (ownEntries myState ns).countP (fun n => inJumpThreshold n.fineDiff) < 256 ∧
      (ownEntries myState ns).countP (fun n => !inJumpThreshold n.fineDiff) < 256 := by
  have hstart : Counted [] (⟨tm.avgRate, 0, 0, 0, 0, 0, 0⟩ : GtspAcc R) := ⟨rfl, rfl, rfl, rfl⟩
  obtain ⟨hgood, hbad⟩ := firstLoop_spec ns.length env myState ns (l := ns) (k := 0) (by omega) hstart
  have hstarts : (∀ l, l <+: ownEntries myState ns → InStep l) ↔
      ∀ p, p <+: ownEntries myState ns → p ≠ [] → InStep ([] ++ p) := by
    refine ⟨fun h p hp _ => h p hp, fun h p hp => ?_⟩
    by_cases hnil : p = []
    · rw [hnil]
      exact UInt8.le_refl _
    · exact h p hp hnil
  have hcounts : Counted (ownEntries myState ns) (firstPass env myState tm ns).acc →
      ((firstPass env myState tm ns).acc.fineSyncedCount.toNat +
          (firstPass env myState tm ns).acc.fineDiffCount.toNat = (ownEntries myState ns).length ↔
        (ownEntries myState ns).countP (fun n => inJumpThreshold n.fineDiff) < 256 ∧
          (ownEntries myState ns).countP (fun n => !inJumpThreshold n.fineDiff) < 256) := by
    intro h
    rw [h.fineSynced, h.fineDiff, ← toNat_add_eq_iff,
      length_eq_countP_add_countP (fun n : Neighbour R => inJumpThreshold n.fineDiff)]
    have hnot : (fun n : Neighbour R => decide ¬ inJumpThreshold n.fineDiff = true) =
        fun n : Neighbour R => !inJumpThreshold n.fineDiff := by
      funext n
      cases inJumpThreshold n.fineDiff <;> rfl
    rw [hnot]
  rw [hstarts]
  constructor
  · rintro ⟨haccess, hsum⟩
    have hall : ∀ p, p <+: ownEntries myState ns → p ≠ [] → InStep ([] ++ p) := by
      by_contra hno
      obtain ⟨a, ha, hnull⟩ := hbad hno
      obtain ⟨k, _, hk⟩ := haccess a (mem_append_left _ (mem_append_left _ ha))
      rw [hnull] at hk
      cases hk
    exact ⟨hall, (hcounts (hgood hall).2.2).mp hsum⟩
  · rintro ⟨hall, hfit⟩
    obtain ⟨hlog, _, hacc⟩ := hgood hall
    have hlen := length_firstLoop env myState ns ns 0 ⟨tm.avgRate, 0, 0, 0, 0, 0, 0⟩
    refine ⟨forall_mem_append.mpr ⟨forall_mem_append.mpr ⟨hlog, ?_⟩, shiftLog_ok _ ?_⟩, (hcounts hacc).mpr hfit⟩
    · split
      · refine groupsLog_ok ?_
        rw [firstPass, hlen, zero_add]
      · exact nofun
    · rw [firstPass, hlen, zero_add]

/-- A neighbour in the given state whose coarse clock is off. -/
def coarselyOff (myState : St) : Neighbour Rat := ⟨1, 0, .cm, myState.code, false, false, 0, 0, 0, 0, 0, 1, 0⟩

/-- One neighbour whose coarse clock is off: the scan leaves the null pointer behind, and it is read. -/
theorem null_neighbour_read : (⟨none, .fineDiff⟩ : Access) ∈ gtspUpdateLog ⟨0, 0, 0, 0⟩ .discovery rtimerInit
    [coarselyOff .discovery] ∧ ¬ Visits ⟨0, 0, 0, 0⟩ .discovery rtimerInit [coarselyOff .discovery] := by
  have hin : (⟨none, .fineDiff⟩ : Access) ∈
      gtspUpdateLog ⟨0, 0, 0, 0⟩ .discovery rtimerInit [coarselyOff .discovery] := by decide
  refine ⟨hin, fun h => ?_⟩
  obtain ⟨k, _, hk⟩ := h.access _ hin
  cases hk

end CSync
