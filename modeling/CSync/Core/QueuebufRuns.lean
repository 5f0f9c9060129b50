import CSync.Core.Queuebuf
import CSync.Lib.Run

/-! What queue buffers with swapping keep, over any calls.

    Blocks and queuebufs are handed out lowest first, so the queuebufs below `R` are the ones in RAM, each in the
    block of its own number, and the others are the swapped ones. That a queuebuf in RAM is ever taken for a swapped
    one is thereby excluded. The swap ids are numbers from segments (`Segmented`). What is left are two ways in
    which `tmpdata_qbuf` misleads: it points to a queuebuf that was freed, or it has left a queuebuf whose packet was
    never written because no swap id was to be had. -/

namespace CSync.Swap
open Lib List Function Option

variable {A B : Type} {N R : Nat} {m : Platform R} {s : State A B N R} {b q : Fin N} {n : Nat}

theorem copyfrom_copyto (p : Packetbuf A B) (d : QueuebufData A B) :
    packetbufCopyfrom m (packetbufAttrCopyto p (packetbufCopyto m p d)) = p.packet m := by
  rw [packetbufCopyfrom, packetbufAttrCopyto, packetbufCopyto, Packetbuf.packet]
  split
  · rw [Nat.min_zero]
    rfl
  next hfits =>
    rw [min_eq_right (Nat.le_of_not_lt hfits)]
    have hheld : Holds (store (store d.data 0 p.hdr) p.hdr.length p.data) 0 (p.hdr ++ p.data) := by
      rw [← store_comm (by omega), ← zero_add p.hdr.length, store_append]
      exact holds_store _ _ _
    rw [Holds, length_append] at hheld
    rw [hheld]

theorem copyto_attrCopyto (p : Packetbuf A B) (d : QueuebufData A B) :
    packetbufCopyto m p (packetbufAttrCopyto p d) = packetbufAttrCopyto p (packetbufCopyto m p d) := by
  rw [packetbufCopyto, packetbufCopyto]
  split
  · rfl
  · rfl

/-! ### Swap ids -/

theorem idOf_eq_some : s.idOf b = some n ↔
    s.live b = true ∧ (s.bufmem.mem b).inCfs = true ∧ (s.bufmem.mem b).word = .swapId n := by
  rw [State.idOf]
  constructor
  · intro h
    split at h
    next hlive =>
      rw [Bool.and_eq_true] at hlive
      split at h
      next k hword =>
        split at h
        next hk =>
          rw [some.injEq] at h
          exact ⟨hlive.1, hlive.2, by rw [hword, ← h, Int.toNat_of_nonneg hk]⟩
        · cases h
      · cases h
    · cases h
  · rintro ⟨hlive, hcfs, hword⟩
    rw [hlive, hcfs, hword, Bool.and_self, if_pos rfl]
    exact if_pos (Int.natCast_nonneg n)

/-- The number of a queuebuf depends on its count and its block. -/
theorem idOf_congr {s' : State A B N R} (hcount : s'.bufmem.count b = s.bufmem.count b)
    (hmem : s'.bufmem.mem b = s.bufmem.mem b) : s'.idOf b = s.idOf b := by
  rw [State.idOf, State.idOf, State.live, State.live, hcount, hmem]

theorem idOf_none_of_free (h : s.live b = false) : s.idOf b = none := by
  rw [State.idOf, h]
  rfl

theorem idOf_none_of_word (h : (s.bufmem.mem b).word = .swapId (-1)) : s.idOf b = none := by
  rw [State.idOf, h]
  split
  · rfl
  · rfl

theorem idOf_none_of_ram (h : (s.bufmem.mem b).inCfs = false) : s.idOf b = none := by
  rw [State.idOf, h, Bool.and_false]
  rfl

theorem tdiv_perFile (n : Nat) : (n : Int).tdiv nqbufPerFile = ((n / nqbufPerFile : Nat) : Int) := rfl

theorem tmod_perFile (n : Nat) : (n : Int).tmod nqbufPerFile = ((n % nqbufPerFile : Nat) : Int) := rfl

/-! ### The invariant -/

/-- What was touched may be touched. -/
def Access.Fine : Access A B → Prop
  | .deref allocated => allocated = true
  | .renew held => held = false
  | .copied got stored => got = stored
  | .wild => False

/-- The counts and the flags of the files, by number. -/
def State.usage (s : State A B N R) (f : Nat) : Int := (s.files f).usage

def State.renewable (s : State A B N R) (f : Nat) : Bool := (s.files f).renewable

/-- What every call keeps. The record of the queuebuf `dirty` may be older than what is stored for it. -/
structure Inv (m : Platform R) (dirty : Option (Fin N)) (s : State A B N R) : Prop where
  segmented : Segmented nqbufPerFile nqbufFiles s.nextSwapId s.usage s.renewable s.idOf
  count_le : ∀ b, s.bufmem.count b ≤ 1
  shares : ∀ j : Fin R, s.buframmem.count j = if h : j.val < N then s.bufmem.count ⟨j, h⟩ else 0
  ram : ∀ b (h : b.val < R), s.live b = true →
    s.bufmem.mem b = ⟨false, .ramPtr ⟨b, h⟩⟩ ∧ packetbufCopyfrom m (s.buframmem.mem ⟨b, h⟩) = s.stored b
  cfs : ∀ b, R ≤ b.val → s.live b = true → ∃ n : Int, s.bufmem.mem b = ⟨true, .swapId n⟩ ∧ -1 ≤ n
  cell : ∀ b n, dirty ≠ some b → s.idOf b = some n →
    ∃ d, (s.files (n / nqbufPerFile : Nat)).records (n % nqbufPerFile : Nat) = some d ∧
      packetbufCopyfrom m d = s.stored b
  tmp : ∀ q, s.tmpdataQbuf = some q → R ≤ q.val ∧ (s.live q = true → packetbufCopyfrom m s.tmpdata = s.stored q)
  used : ∀ b n, s.idOf b = some n → s.tmpdataQbuf ≠ none
  log : ∀ a ∈ s.log, a.Fine

theorem Inv.dirty (h : Inv m none s) (d : Option (Fin N)) : Inv m d s :=
  { h with cell := fun b n _ hb => h.cell b n (by simp) hb }

variable {dirty : Option (Fin N)} {t : State A B N R}

/-- Something that may be touched is touched. -/
theorem Inv.access (h : Inv m dirty s) {a : Access A B} (ha : a.Fine) : Inv m dirty (s.access a) := { h with
    log := fun a' ha' => by
      rcases mem_cons.mp ha' with rfl | ha'
      · exact ha
      · exact h.log a' ha' }

/-- A swapped queuebuf without a number has the number −1. -/
theorem Inv.word_of_none (h : Inv m dirty s) (hb : R ≤ b.val) (hlive : s.live b = true)
    (hid : s.idOf b = none) : s.bufmem.mem b = ⟨true, .swapId (-1)⟩ := by
  obtain ⟨k, hk, hle⟩ := h.cfs b hb hlive
  rw [hk]
  rcases Int.lt_or_le k 0 with hneg | hpos
  · have hk' : k = -1 := by omega
    rw [hk']
  · have hsome : s.idOf b = some k.toNat := idOf_eq_some.mpr ⟨hlive, by rw [hk], by rw [hk, Int.toNat_of_nonneg hpos]⟩
    rw [hsome] at hid
    cases hid

/-! ### Files -/

theorem files_setFile (f : Nat) (file : QbufFile A B) (g : Nat) :
    (s.setFile f file).files g = if g = f then file else s.files g := by
  by_cases hg : g = f
  · rw [if_pos hg, hg]
    exact update_self ..
  · rw [if_neg hg]
    exact update_of_ne (fun h => hg (Int.ofNat_inj.mp h)) ..

theorem usage_setFile (f : Nat) (file : QbufFile A B) : (s.setFile f file).usage = update s.usage f file.usage := by
  funext g
  rw [State.usage, files_setFile]
  by_cases hg : g = f
  · rw [if_pos hg, hg, update_self]
  · rw [if_neg hg, update_of_ne hg, State.usage]

theorem renewable_setFile (f : Nat) (file : QbufFile A B) :
    (s.setFile f file).renewable = update s.renewable f file.renewable := by
  funext g
  rw [State.renewable, files_setFile]
  by_cases hg : g = f
  · rw [if_pos hg, hg, update_self]
  · rw [if_neg hg, update_of_ne hg, State.renewable]

theorem Inv.renew (h : Inv m dirty s) {f : Nat} (hf : f < nqbufFiles)
    (hspare : s.renewable f = true) : Inv m dirty (qbufRenewFile f s) := by
  have hout : ∀ b n, s.idOf b = some n → n / nqbufPerFile ≠ f := fun b n hb =>
    h.segmented.empty hf (h.segmented.spare_empty f hf hspare) hb
  have hheld : (finRange N).any (s.inFile f) = false := by
    rw [List.any_eq_false]
    intro b _ hin
    obtain ⟨n, hb, hn⟩ := inSegment_iff.mp hin
    exact hout b n hb hn
  have hseg := h.segmented.renew hf hspare
  refine { h with
      segmented := ?_
      cell := fun b n hd hb => ?_
      log := fun a ha => ?_ }
  · rw [qbufRenewFile, usage_setFile, renewable_setFile]
    exact hseg
  · rw [qbufRenewFile, files_setFile, if_neg (hout b n hb)]
    exact h.cell b n hd hb
  · rcases mem_cons.mp ha with rfl | ha
    · exact hheld
    · exact h.log a ha

theorem countDown_eq (f : Int) : ∃ F T, countDown f s = { s with files := F, renewTimer := T } := by
  rw [countDown]
  split
  · exact ⟨_, _, rfl⟩
  · exact ⟨_, _, rfl⟩

theorem countDown_usage (n : Nat) : (countDown ((n : Int).tdiv nqbufPerFile) s).usage =
    update s.usage (n / nqbufPerFile) (s.usage (n / nqbufPerFile) - 1) := by
  rw [countDown, tdiv_perFile]
  split
  · exact usage_setFile ..
  · exact usage_setFile ..

theorem countDown_renewable (n : Nat) :
    (countDown ((n : Int).tdiv nqbufPerFile) s).renewable =
      if s.usage (n / nqbufPerFile) - 1 = 0 ∧ n / nqbufPerFile ≠ s.nextSwapId / nqbufPerFile then update s.renewable
        (n / nqbufPerFile) true else s.renewable := by
  rw [countDown, tdiv_perFile, tdiv_perFile]
  split
  next hlast =>
    rw [if_pos ⟨hlast.1, fun h => hlast.2 (Int.ofNat_inj.mpr h)⟩]
    exact renewable_setFile ..
  next hlast =>
    rw [if_neg fun h => hlast ⟨h.1, fun hf => h.2 (Int.ofNat_inj.mp hf)⟩, renewable_setFile]
    exact update_eq_self ..

theorem countDown_records (n g : Nat) :
    ((countDown ((n : Int).tdiv nqbufPerFile) s).files g).records = (s.files g).records := by
  rw [countDown, tdiv_perFile]
  split
  · have hfile := files_setFile (s := s) (n / nqbufPerFile) { s.files (n / nqbufPerFile : Nat) with
        usage := (s.files (n / nqbufPerFile : Nat)).usage - 1, renewable := true } g
    refine (congrArg QbufFile.records hfile).trans ?_
    split
    next hg => rw [hg]
    · rfl
  · rw [files_setFile]
    split
    next hg => rw [hg]
    · rfl

/-- A number of a live queuebuf comes back, while `tmpdata_qbuf` points to a live one: what it points to is told, if it
    is the one. -/
theorem Inv.removeFromFile (h : Inv m dirty s) (hid : s.idOf b = some n)
    (htmp : s.tmpdataQbuf = some q) (hlive : s.live q = true) : ∃ F T, queuebufRemoveFromFile m n s = { s with
          files := F, renewTimer := T, log := .deref true :: s.log
          bufmem := if q = b then s.bufmem.modify q fun b => { b with word := .swapId (-1) } else s.bufmem } ∧
      (∀ g : Nat, (F g).records = (s.files g).records) ∧
      Segmented nqbufPerFile nqbufFiles s.nextSwapId (fun f : Nat => (F f).usage) (fun f : Nat => (F f).renewable)
        (update s.idOf b none) := by
  have hseg := h.segmented.release hid
  rw [← countDown_usage, ← countDown_renewable] at hseg
  have hrecords := countDown_records (s := s) n
  obtain ⟨F, T, hdown⟩ := countDown_eq (s := s) ((n : Int).tdiv nqbufPerFile)
  rw [hdown] at hseg hrecords
  refine ⟨F, T, ?_, hrecords, hseg⟩
  have hsame : (s.bufmem.mem q).word.asSwapId m = n ↔ q = b := by
    constructor
    · intro hword
      obtain ⟨k, hk, -⟩ := h.cfs q (h.tmp q htmp).1 hlive
      rw [hk] at hword
      have hq : s.idOf q = some n := idOf_eq_some.mpr ⟨hlive, by rw [hk], by rw [hk]; exact congrArg _ hword⟩
      exact h.segmented.inj q b n hq hid
    · rintro rfl
      rw [(idOf_eq_some.mp hid).2.2]
      rfl
  have hne : (n : Int) ≠ -1 := by omega
  rw [queuebufRemoveFromFile, if_neg hne, hdown]
  simp only [htmp, State.access, State.live] at hlive ⊢
  rw [hlive]
  by_cases hqb : q = b
  · rw [if_pos (hsame.mpr hqb), if_pos hqb]
  · rw [if_neg fun hword => hqb (hsame.mp hword), if_neg hqb]

/-! ### A new swap id -/

/-- A queuebuf without a number has no old record. -/
theorem Inv.clean (h : Inv m (some q) s) (hid : s.idOf q = none) : Inv m none s := { h with
    cell := fun b n _ hb => h.cell b n (fun heq => by
      rw [← some.inj heq, hid] at hb
      cases hb) hb }

/-- Before a number is given out, a spare file is renewed; a file is only begun when it is empty. -/
theorem Inv.newSwapId (h : Inv m dirty s) :
    ∃ t : State A B N R, Inv m dirty t ∧ t.bufmem = s.bufmem ∧ t.tmpdataQbuf = s.tmpdataQbuf ∧
      (getNewSwapId s = (-1, t) ∨ getNewSwapId s = ((t.nextSwapId : Int), takeSwapId t) ∧
          (t.nextSwapId % nqbufPerFile = 0 → t.usage (t.nextSwapId / nqbufPerFile) = 0) ∧
          (t.nextSwapId % nqbufPerFile = 0 → t.renewable (t.nextSwapId / nqbufPerFile) = false)) := by
  have hseg : s.nextSwapId / nqbufPerFile < nqbufFiles := segment_lt h.segmented.next_lt
  by_cases hfirst : s.nextSwapId % nqbufPerFile = 0
  · have hbeq : (s.nextSwapId % nqbufPerFile == 0) = true := beq_iff_eq.mpr hfirst
    cases hren : s.renewable (s.nextSwapId / nqbufPerFile) with
    | true =>
      -- a renewed file is empty
      have hempty : (qbufRenewFile (s.nextSwapId / nqbufPerFile) s).usage (s.nextSwapId / nqbufPerFile) = 0 := by
        rw [qbufRenewFile, usage_setFile]
        exact update_self ..
      refine ⟨_, h.renew hseg hren, rfl, rfl, .inr ⟨?_, fun _ => hempty, fun _ => ?_⟩⟩
      · rw [State.renewable] at hren
        rw [State.usage] at hempty
        rw [getNewSwapId]
        simp only [hbeq, hren, Bool.and_self, if_pos, hempty, Int.lt_irrefl, decide_false, Bool.and_false,
          Bool.false_eq_true, if_false]
        rfl
      · rw [qbufRenewFile, renewable_setFile]
        exact update_self ..
    | false =>
      refine ⟨s, h, rfl, rfl, ?_⟩
      rw [State.renewable] at hren
      rw [getNewSwapId]
      simp only [hbeq, hren, Bool.and_false, Bool.false_eq_true, if_false, Bool.true_and, decide_eq_true_eq]
      by_cases husage : 0 < (s.files (s.nextSwapId / nqbufPerFile : Nat)).usage
      · exact .inl (if_pos husage)
      · refine .inr ⟨if_neg husage, fun _ => ?_, fun _ => hren⟩
        have hcount := h.segmented.usage_eq _ hseg
        rw [State.usage] at hcount ⊢
        omega
  · have hbeq : (s.nextSwapId % nqbufPerFile == 0) = false := beq_false_of_ne hfirst
    refine ⟨s, h, rfl, rfl, .inr ⟨?_, fun h0 => absurd h0 hfirst, fun h0 => absurd h0 hfirst⟩⟩
    rw [getNewSwapId]
    simp only [hbeq, Bool.false_and, Bool.false_eq_true, if_false]

/-- Giving out a number leaves the records alone. -/
theorem takeSwapId_records (g : Nat) : ((takeSwapId s).files g).records = (s.files g).records := by
  refine (congrArg QbufFile.records (files_setFile (s.nextSwapId / nqbufPerFile) _ g)).trans ?_
  split
  next hg => rw [hg]
  · rfl

theorem writeTmpdata_eq (n : Nat) (s : State A B N R) : writeTmpdata n s = (0, s.setFile (n / nqbufPerFile : Nat)
    { s.files (n / nqbufPerFile : Nat) with
      pos := (n % nqbufPerFile : Nat) + 1
      records := update (s.files (n / nqbufPerFile : Nat)).records (n % nqbufPerFile : Nat) (some s.tmpdata) }) := by
  rw [writeTmpdata]
  exact if_neg (Int.not_lt.mpr (Int.natCast_nonneg _))

/-- A word changes, and at most the number of that queuebuf with it. -/
theorem idOf_modify {w : Word R} (ht : t.bufmem = s.bufmem.modify q fun b => { b with word := w }) :
    t.idOf = update s.idOf q (t.idOf q) := by
  funext c
  by_cases hc : c = q
  · rw [hc, update_self]
  · rw [update_of_ne hc]
    refine idOf_congr (by rw [ht, Pool.modify_count]) ?_
    rw [ht, Pool.modify]
    exact update_of_ne hc ..

theorem word_modify {w : Word R} (ht : t.bufmem = s.bufmem.modify q fun b => { b with word := w }) :
    t.bufmem.mem q = ⟨(s.bufmem.mem q).inCfs, w⟩ := by
  rw [ht]
  exact update_self ..

/-- What else has to be seen to when the number of the queuebuf that `tmpdata` belongs to changes. -/
theorem Inv.reword {d : Option (Fin N)} {k : Int} (h : Inv m d s)
    (htmp : s.tmpdataQbuf = some q) (hlive : s.live q = true) (hk : -1 ≤ k)
    (hbufmem : t.bufmem = s.bufmem.modify q fun b => { b with word := .swapId k })
    (hrest : t.buframmem = s.buframmem ∧ t.tmpdata = s.tmpdata ∧ t.tmpdataQbuf = some q ∧ t.stored = s.stored)
    (hseg : Segmented nqbufPerFile nqbufFiles t.nextSwapId t.usage t.renewable t.idOf)
    (hcell : ∀ b n, dirty ≠ some b → t.idOf b = some n →
      ∃ d, (t.files (n / nqbufPerFile : Nat)).records (n % nqbufPerFile : Nat) = some d ∧
        packetbufCopyfrom m d = t.stored b) (hlog : ∀ a ∈ t.log, a.Fine) : Inv m dirty t := by
  obtain ⟨hram, htmpdata, hqbuf, hstored⟩ := hrest
  obtain ⟨hge, -⟩ := h.tmp q htmp
  have hcount : t.bufmem.count = s.bufmem.count := by rw [hbufmem, Pool.modify_count]
  have hlives : ∀ c, t.live c = s.live c := fun c => by rw [State.live, State.live, hcount]
  have hmem : ∀ c, c ≠ q → t.bufmem.mem c = s.bufmem.mem c := fun c hc => by
    rw [hbufmem]
    exact update_of_ne hc ..
  refine ⟨hseg, ?_, ?_, ?_, ?_, hcell, ?_, ?_, hlog⟩
  · rw [hcount]
    exact h.count_le
  · rw [hcount, hram]
    exact h.shares
  · intro c hc hcl
    rw [hlives] at hcl
    rw [hmem c (fun hcq => by rw [hcq] at hc; omega), hram, hstored]
    exact h.ram c hc hcl
  · intro c hc hcl
    rw [hlives] at hcl
    by_cases hcq : c = q
    · obtain ⟨k', hk', -⟩ := h.cfs q hge hlive
      rw [hcq, word_modify hbufmem, hk']
      exact ⟨k, rfl, hk⟩
    · rw [hmem c hcq]
      exact h.cfs c hc hcl
  · intro c hc
    rw [hqbuf] at hc
    rw [hlives, htmpdata, hstored]
    exact h.tmp c (htmp.trans hc)
  · intro c k _
    rw [hqbuf]
    exact some_ne_none q

section
variable (h : Inv m (some q) s)
include h

section

variable (htmp : s.tmpdataQbuf = some q) (hlive : s.live q = true)
include htmp hlive

/-- The queuebuf that `tmpdata` belongs to gets the next number, and its packet goes to the record. -/
theorem Inv.assigned
    (hid : s.idOf q = none) (hempty : s.nextSwapId % nqbufPerFile = 0 → s.usage (s.nextSwapId / nqbufPerFile) = 0)
    (hready : s.nextSwapId % nqbufPerFile = 0 → s.renewable (s.nextSwapId / nqbufPerFile) = false) :
    Inv m none (writeTmpdata s.nextSwapId { takeSwapId s with
      bufmem := s.bufmem.modify q fun b => { b with word := .swapId s.nextSwapId } }).2 := by
  obtain ⟨hge, hdata⟩ := h.tmp q htmp
  have hword := h.word_of_none hge hlive hid
  have hfresh := h.segmented.fresh hempty
  obtain ⟨u, hu⟩ : ∃ u, u = (writeTmpdata s.nextSwapId { takeSwapId s with
      bufmem := s.bufmem.modify q fun b => { b with word := .swapId s.nextSwapId } }).2 := ⟨_, rfl⟩
  rw [← hu]
  rw [writeTmpdata_eq] at hu
  have hbufmem : u.bufmem = s.bufmem.modify q fun b => { b with word := .swapId s.nextSwapId } := by rw [hu]; rfl
  have hmemq : u.bufmem.mem q = ⟨true, .swapId s.nextSwapId⟩ := by rw [word_modify hbufmem, hword]
  have hcount : u.bufmem.count = s.bufmem.count := by rw [hbufmem, Pool.modify_count]
  have hidq : u.idOf q = some s.nextSwapId :=
    idOf_eq_some.mpr ⟨by rw [State.live, hcount]; exact hlive, by rw [hmemq], by rw [hmemq]⟩
  have hids := idOf_modify hbufmem
  rw [hidq] at hids
  have husage : u.usage = update s.usage (s.nextSwapId / nqbufPerFile)
      (s.usage (s.nextSwapId / nqbufPerFile) + 1) := by
    rw [hu, usage_setFile]
    exact (update_eq_self ..).trans (usage_setFile ..)
  have hrenewable : u.renewable = s.renewable := by
    rw [hu, renewable_setFile]
    exact (update_eq_self ..).trans ((renewable_setFile ..).trans (update_eq_self ..))
  have hrecords : ∀ k, k ≠ s.nextSwapId → (u.files (k / nqbufPerFile : Nat)).records (k % nqbufPerFile : Nat) =
        (s.files (k / nqbufPerFile : Nat)).records (k % nqbufPerFile : Nat) := by
    intro k hk
    rw [hu, ← takeSwapId_records (s := s), files_setFile]
    by_cases hseg : k / nqbufPerFile = s.nextSwapId / nqbufPerFile
    · rw [if_pos hseg, hseg]
      refine update_of_ne (fun hoff => hk ?_) ..
      rw [← Nat.div_add_mod k nqbufPerFile, hseg, Int.ofNat_inj.mp hoff, Nat.div_add_mod]
    · rw [if_neg hseg]
  have hrecord : (u.files (s.nextSwapId / nqbufPerFile : Nat)).records (s.nextSwapId % nqbufPerFile : Nat) =
      some s.tmpdata := by
    rw [hu, files_setFile, if_pos rfl]
    exact update_self ..
  have hrest : u.buframmem = s.buframmem ∧ u.tmpdata = s.tmpdata ∧ u.tmpdataQbuf = some q ∧ u.stored = s.stored := by
    rw [hu, ← htmp]
    exact ⟨rfl, rfl, rfl, rfl⟩
  have hnext : u.nextSwapId = (s.nextSwapId + 1) % nqbufId := by rw [hu]; rfl
  have hlog : u.log = s.log := by rw [hu]; rfl
  refine h.reword htmp hlive (by omega) hbufmem hrest ?_ (fun c k _ hck => ?_) (by rw [hlog]; exact h.log)
  · rw [hnext, husage, hrenewable, hids]
    exact h.segmented.acquire hid hempty hready
  · rw [hids] at hck
    rw [hrest.2.2.2]
    by_cases hcq : c = q
    · rw [hcq, update_self] at hck
      cases hck
      rw [hcq]
      exact ⟨_, hrecord, hdata hlive⟩
    · rw [update_of_ne hcq] at hck
      rw [hrecords k fun hk => hfresh c (hk ▸ hck)]
      exact h.cell c k (fun heq => hcq (some.inj heq).symm) hck

/-- A queuebuf whose number came back gets a new one and its record, or stays without. -/
theorem Inv.store (hid : s.idOf q = none) :
    Inv m none (storeTmpdata q s).2 ∧ (storeTmpdata q s).2.bufmem.count = s.bufmem.count ∧
      ((storeTmpdata q s).1 = -1 → (storeTmpdata q s).2.idOf q = none) := by
  obtain ⟨t, ht, hbufmem, htmp', hnew⟩ := h.newSwapId
  have hlive' : t.live q = true := by rw [State.live, hbufmem]; exact hlive
  have hid' : t.idOf q = none := by rw [← hid]; exact idOf_congr (by rw [hbufmem]) (by rw [hbufmem])
  have hge : R ≤ q.val := (h.tmp q htmp).1
  have hword := ht.word_of_none hge hlive' hid'
  rw [← htmp'] at htmp
  rw [← hbufmem]
  rcases hnew with hnone | ⟨hsome, hempty, hready⟩
  · -- no number: nothing changes
    have hsame : t.bufmem.modify q (fun b => { b with word := .swapId (-1) }) = t.bufmem := by
      rw [Pool.modify, hword, ← hword, update_eq_self]
    have hstore : storeTmpdata q s = (-1, t) := by
      rw [storeTmpdata, hnone, if_pos rfl, hsame]
    rw [hstore]
    exact ⟨ht.clean hid', rfl, fun _ => hid'⟩
  · -- the next number, and the record
    have hstore : storeTmpdata q s = writeTmpdata t.nextSwapId
        { takeSwapId t with bufmem := t.bufmem.modify q fun b => { b with word := .swapId t.nextSwapId } } := by
      rw [storeTmpdata, hsome]
      exact if_neg (by omega)
    rw [hstore]
    refine ⟨ht.assigned htmp hlive' hid' hempty hready, ?_, ?_⟩
    · rw [writeTmpdata_eq]
      rfl
    · rw [writeTmpdata_eq]
      intro h0
      cases h0

theorem Inv.detached (hid : s.idOf q = some n) :
    ∃ t, queuebufRemoveFromFile m n s = t ∧ Inv m (some q) t ∧ t.tmpdataQbuf = some q ∧
      t.bufmem.count = s.bufmem.count ∧ t.idOf q = none := by
  obtain ⟨F, T, heq, hrecords, hseg⟩ := h.removeFromFile hid htmp hlive
  rw [if_pos rfl] at heq
  obtain ⟨t, ht⟩ : ∃ t, t = queuebufRemoveFromFile m n s := ⟨_, rfl⟩
  refine ⟨t, ht.symm, ?_⟩
  rw [heq] at ht
  obtain ⟨-, hcfs, -⟩ := idOf_eq_some.mp hid
  have hbufmem : t.bufmem = s.bufmem.modify q fun b => { b with word := .swapId (-1) } := by rw [ht]
  have hmemq : t.bufmem.mem q = ⟨true, .swapId (-1)⟩ := by rw [word_modify hbufmem, hcfs]
  have hcount : t.bufmem.count = s.bufmem.count := by rw [hbufmem, Pool.modify_count]
  have hidq : t.idOf q = none := idOf_none_of_word (by rw [hmemq])
  have hids := idOf_modify hbufmem
  rw [hidq] at hids
  have hrest : t.buframmem = s.buframmem ∧ t.tmpdata = s.tmpdata ∧ t.tmpdataQbuf = some q ∧ t.stored = s.stored := by
    rw [ht, ← htmp]
    exact ⟨rfl, rfl, rfl, rfl⟩
  refine ⟨h.reword htmp hlive (Int.le_refl _) hbufmem hrest ?_ (fun c k hcq hck => ?_) ?_, hrest.2.2.1, hcount, hidq⟩
  · rw [hids, ht]
    exact hseg
  · rw [hids, update_of_ne fun heq => hcq (by rw [heq])] at hck
    obtain ⟨d, hd, hread⟩ := h.cell c k hcq hck
    refine ⟨d, ?_, hread.trans (by rw [hrest.2.2.2])⟩
    rw [ht]
    exact (congrFun (hrecords _) _).trans hd
  · rw [ht]
    intro a ha
    rcases mem_cons.mp ha with rfl | ha
    · rfl
    · exact h.log a ha

theorem Inv.flush :
    Inv m none (queuebufFlushTmpdata m s).2 ∧ (queuebufFlushTmpdata m s).2.bufmem.count = s.bufmem.count ∧
      ((queuebufFlushTmpdata m s).1 = -1 → (queuebufFlushTmpdata m s).2.idOf q = none) := by
  rw [queuebufFlushTmpdata, htmp]
  simp only [hlive]
  have hacc : Inv m (some q) (s.access (.deref true)) := h.access rfl
  obtain ⟨hge, -⟩ := h.tmp q htmp
  cases hid : s.idOf q with
  | none =>
    have hword : ((s.access (.deref true)).bufmem.mem q).word.asSwapId m = -1 := by
      rw [hacc.word_of_none hge hlive hid]
      rfl
    rw [hword, queuebufRemoveFromFile, if_pos rfl]
    exact hacc.store htmp hlive hid
  | some n =>
    have hword : ((s.access (.deref true)).bufmem.mem q).word.asSwapId m = n := by
      rw [((idOf_eq_some (s := s.access (.deref true))).mp hid).2.2]
      rfl
    obtain ⟨t, heq, ht, htmp', hcount, hid'⟩ := hacc.detached htmp hlive hid
    rw [hword, heq]
    have hlive' : t.live q = true := by rw [State.live, hcount]; exact hlive
    obtain ⟨hinv, hcount', hnone⟩ := ht.store htmp' hlive' hid'
    exact ⟨hinv, hcount'.trans hcount, hnone⟩

end

end

/-- When a swapped queuebuf can be loaded: `tmpdata_qbuf` does not point to one that was freed, and one without a swap
    id is still the one in `tmpdata`. -/
def Loadable (b : Fin N) (s : State A B N R) : Prop :=
  (s.bufmem.mem b).inCfs = true →
    (∀ q, s.tmpdataQbuf = some q → s.live q = true) ∧ (s.idOf b = none → s.tmpdataQbuf = some b)

/-- Where a file is read next does not matter. -/
theorem Inv.seek (h : Inv m none s) (f : Nat) (pos : Int) :
    Inv m none (s.setFile f { s.files f with pos := pos }) := by
  refine { h with segmented := ?_, cell := fun c k hc hck => ?_ }
  · rw [usage_setFile, renewable_setFile]
    have husage : update s.usage f (s.files f).usage = s.usage := update_eq_self ..
    have hrenewable : update s.renewable f (s.files f).renewable = s.renewable := update_eq_self ..
    rw [husage, hrenewable]
    exact h.segmented
  · obtain ⟨d, hd, hread⟩ := h.cell c k hc hck
    refine ⟨d, ?_, hread⟩
    rw [files_setFile]
    split
    next hg =>
      rw [← hg]
      exact hd
    · exact hd

theorem Inv.read (h : Inv m none s) (hid : s.idOf b = some n) :
    ∃ t, readTmpdata n { s with tmpdataQbuf := some b } = t ∧ Inv m none t ∧ t.tmpdataQbuf = some b ∧
      t.bufmem = s.bufmem ∧ t.stored = s.stored := by
  obtain ⟨d, hd, hread⟩ := h.cell b n (by simp) hid
  obtain ⟨hlive, hcfs, -⟩ := idOf_eq_some.mp hid
  have hge : R ≤ b.val := by
    refine Nat.le_of_not_lt fun hlt => ?_
    rw [(h.ram b hlt hlive).1] at hcfs
    cases hcfs
  have hneg : ¬ (((n % nqbufPerFile : Nat) : Int) < 0) := Int.not_lt.mpr (Int.natCast_nonneg _)
  have hseek := h.seek (n / nqbufPerFile) ((n % nqbufPerFile : Nat) + 1)
  refine ⟨{ s.setFile (n / nqbufPerFile : Nat) { s.files (n / nqbufPerFile : Nat) with
      pos := (n % nqbufPerFile : Nat) + 1 } with tmpdataQbuf := some b, tmpdata := d }, ?_,
    { hseek with
      tmp := fun q hq => ?_
      used := fun _ _ _ => some_ne_none b }, rfl, rfl, rfl⟩
  · rw [readTmpdata]
    simp only [tdiv_perFile, tmod_perFile, if_neg hneg, hd]
    rfl
  · cases hq
    exact ⟨hge, fun _ => hread⟩

theorem Inv.load (h : Inv m none s) (hlive : s.live b = true) (hge : R ≤ b.val) (hload : Loadable b s) :
    ∃ t, queuebufLoadToRam m b s = (.tmpdata, t) ∧ Inv m none t ∧ t.tmpdataQbuf = some b ∧ t.bufmem = s.bufmem ∧
      t.stored = s.stored := by
  obtain ⟨k, hk, hle⟩ := h.cfs b hge hlive
  obtain ⟨hqlive, hunnamed⟩ := hload (by rw [hk])
  cases htmp : s.tmpdataQbuf with
  | none =>
    -- `tmpdata_qbuf` is set with the first queuebuf that is swapped
    cases hid : s.idOf b with
    | none =>
      have hb := hunnamed hid
      rw [htmp] at hb
      cases hb
    | some n => exact absurd htmp (h.used b n hid)
  | some q =>
    have hqlive := hqlive q htmp
    have hacc : Inv m none (s.access (.deref true)) := h.access rfl
    obtain ⟨hqge, -⟩ := h.tmp q htmp
    obtain ⟨kq, hkq, -⟩ := h.cfs q hqge hqlive
    have hload : queuebufLoadToRam m b s =
        if kq = k then (.tmpdata, s.access (.deref true))
        else (.tmpdata, CSync.Swap.readTmpdata k { s.access (.deref true) with tmpdataQbuf := some b }) := by
      rw [queuebufLoadToRam]
      simp only [hk, htmp, hqlive, if_pos, Word.asSwapId, State.access, hkq]
    rw [hload]
    cases hid : s.idOf b with
    | none =>
      have hb := hunnamed hid
      rw [htmp, some.injEq] at hb
      have hkk : kq = k := by
        rw [hb, hk] at hkq
        cases hkq
        rfl
      rw [if_pos hkk]
      exact ⟨_, rfl, hacc, by rw [← hb]; exact htmp, rfl, rfl⟩
    | some n =>
      have hkn : k = n := by
        have hword := (idOf_eq_some.mp hid).2.2
        rw [hk] at hword
        cases hword
        rfl
      by_cases hkk : kq = k
      · -- the same number is the same queuebuf
        have hqid : s.idOf q = some n := idOf_eq_some.mpr ⟨hqlive, by rw [hkq], by rw [hkq, hkk, hkn]⟩
        have hqb := h.segmented.inj q b n hqid hid
        rw [if_pos hkk]
        exact ⟨_, rfl, hacc, by rw [← hqb]; exact htmp, rfl, rfl⟩
      · rw [if_neg hkk, hkn]
        obtain ⟨t, heq, ht⟩ := hacc.read (n := n) (b := b) hid
        exact ⟨t, by rw [heq], ht⟩

/-! ### The calls -/

section
variable (h : Inv m none s)
include h

theorem Inv.location (hlive : s.live b = true) : (s.bufmem.mem b).inCfs = true ↔ R ≤ b.val := by
  rcases lt_or_ge b.val R with hlt | hge
  · rw [(h.ram b hlt hlive).1]
    exact ⟨nofun, fun h => absurd hlt (Nat.not_lt.mpr h)⟩
  · obtain ⟨k, hk, -⟩ := h.cfs b hge hlive
    rw [hk]
    exact ⟨fun _ => hge, fun _ => rfl⟩

theorem Inv.toPacketbuf (hlive : s.live b = true) (hload : Loadable b s) :
    Inv m none (queuebufToPacketbuf m b s) := by
  rcases lt_or_ge b.val R with hlt | hge
  · obtain ⟨hmem, hread⟩ := h.ram b hlt hlive
    rw [queuebufToPacketbuf, queuebufLoadToRam, hmem]
    exact h.access hread
  · obtain ⟨t, heq, ht, htmp, hbufmem, hstored⟩ := h.load hlive hge hload
    rw [queuebufToPacketbuf, heq]
    refine ht.access ((ht.tmp b htmp).2 ?_)
    rw [State.live, hbufmem]
    exact hlive

theorem Inv.update (hlive : s.live b = true) (hload : Loadable b s)
    {f : QueuebufData A B → QueuebufData A B} {p : Packet A B}
    (hf : ∀ d, packetbufCopyfrom m d = s.stored b → packetbufCopyfrom m (f d) = p) :
    Inv m none (queuebufUpdate m f p b s) := by
  rcases lt_or_ge b.val R with hlt | hge
  · obtain ⟨hmem, hread⟩ := h.ram b hlt hlive
    have hupdate : queuebufUpdate m f p b s = { s with
          buframmem := s.buframmem.modify ⟨b, hlt⟩ f
          stored := Function.update s.stored b p } := by
      rw [queuebufUpdate, queuebufLoadToRam, hmem]
      simp only [Bool.false_eq_true, if_false, Place.modify, hmem]
    rw [hupdate]
    refine { h with ram := fun c hc hcl => ?_, cell := fun c k hc hck => ?_, tmp := fun c hc => ?_ }
    · obtain ⟨hcmem, hcread⟩ := h.ram c hc hcl
      refine ⟨hcmem, ?_⟩
      dsimp only
      by_cases hcb : c = b
      · subst hcb
        rw [update_self]
        exact (congrArg _ (update_self ..)).trans (hf _ hread)
      · rw [update_of_ne hcb]
        refine (congrArg _ (update_of_ne (fun heq => hcb ?_) ..)).trans hcread
        exact Fin.ext (Fin.mk.inj heq)
    · have hcb : c ≠ b := by
        rintro rfl
        have hcfs := ((idOf_eq_some (s := s)).mp hck).2.1
        rw [hmem] at hcfs
        cases hcfs
      dsimp only
      rw [update_of_ne hcb]
      exact h.cell c k hc hck
    · obtain ⟨hcge, hcread⟩ := h.tmp c hc
      dsimp only
      rw [Function.update_of_ne (fun hcb => by rw [hcb] at hcge; omega)]
      exact ⟨hcge, hcread⟩
  · obtain ⟨t, heq, ht, htmp, hbufmem, hstored⟩ := h.load hlive hge hload
    have htlive : t.live b = true := by rw [State.live, hbufmem]; exact hlive
    obtain ⟨u, hu⟩ : ∃ u : State A B N R, u = { t with tmpdata := f t.tmpdata, stored := Function.update t.stored b p } :=
      ⟨_, rfl⟩
    have hupdate : queuebufUpdate m f p b s = (queuebufFlushTmpdata m u).2 := by
      rw [queuebufUpdate, heq, hu]
      exact if_pos ((ht.location htlive).mpr hge)
    have huinv : Inv m (some b) u := by
      rw [hu]
      refine { ht with ram := fun c hc hcl => ?_, cell := fun c k hc hck => ?_, tmp := fun c hc => ?_ }
      · dsimp only
        rw [Function.update_of_ne (fun hcb => by rw [hcb] at hc; omega)]
        exact ht.ram c hc hcl
      · dsimp only
        rw [Function.update_of_ne fun hcb => hc (by rw [hcb])]
        exact ht.cell c k (by simp) hck
      · rw [htmp] at hc
        cases hc
        dsimp only
        rw [update_self]
        exact ⟨hge, fun _ => hf _ (((ht.tmp b htmp).2 htlive).trans (by rw [hstored]))⟩
    rw [hupdate]
    exact (huinv.flush (by rw [hu]; exact htmp) (by rw [hu]; exact htlive)).1

theorem Inv.dropped (hcount : t.bufmem.count = Function.update s.bufmem.count b 0)
    (hmem : ∀ c, c ≠ b → t.bufmem.mem c = s.bufmem.mem c) (hram : t.buframmem.mem = s.buframmem.mem)
    (hshares : ∀ j : Fin R, t.buframmem.count j = if h : j.val < N then t.bufmem.count ⟨j, h⟩ else 0)
    (hrest : t.tmpdata = s.tmpdata ∧ t.tmpdataQbuf = s.tmpdataQbuf ∧ t.stored = s.stored)
    (hrecords : ∀ g : Nat, (t.files g).records = (s.files g).records)
    (hseg : Lib.Segmented nqbufPerFile nqbufFiles t.nextSwapId t.usage t.renewable (Function.update s.idOf b none))
    (hlog : ∀ a ∈ t.log, a.Fine) : Inv m none t := by
  obtain ⟨htmpdata, hqbuf, hstored⟩ := hrest
  have hlives : ∀ c, t.live c = true → c ≠ b ∧ s.live c = true := by
    intro c hc
    rw [State.live, hcount] at hc
    by_cases hcb : c = b
    · rw [hcb, update_self] at hc
      cases hc
    · rw [update_of_ne hcb] at hc
      exact ⟨hcb, hc⟩
  have hids : t.idOf = Function.update s.idOf b none := by
    funext c
    by_cases hcb : c = b
    · rw [hcb, update_self]
      refine idOf_none_of_free (Bool.eq_false_iff.mpr fun hlive => (hlives b hlive).1 rfl)
    · rw [update_of_ne hcb]
      exact idOf_congr (by rw [hcount, update_of_ne hcb]) (hmem c hcb)
  have hidb : ∀ c k, t.idOf c = some k → s.idOf c = some k := by
    intro c k hck
    rw [hids] at hck
    by_cases hcb : c = b
    · rw [hcb, update_self] at hck
      cases hck
    · rwa [update_of_ne hcb] at hck
  refine ⟨by rw [hids]; exact hseg, fun c => ?_, hshares, fun c hc hcl => ?_, fun c hc hcl => ?_, fun c k hc hck => ?_,
    fun c hc => ?_, fun c k hck => ?_, hlog⟩
  · rw [hcount]
    by_cases hcb : c = b
    · rw [hcb, update_self]
      exact Nat.zero_le 1
    · rw [update_of_ne hcb]
      exact h.count_le c
  · obtain ⟨hcb, hcl⟩ := hlives c hcl
    rw [hmem c hcb, hram, hstored]
    exact h.ram c hc hcl
  · obtain ⟨hcb, hcl⟩ := hlives c hcl
    rw [hmem c hcb]
    exact h.cfs c hc hcl
  · rw [hrecords, hstored]
    exact h.cell c k hc (hidb c k hck)
  · rw [hqbuf] at hc
    obtain ⟨hge, hread⟩ := h.tmp c hc
    rw [htmpdata, hstored]
    exact ⟨hge, fun hcl => hread (hlives c hcl).2⟩
  · rw [hqbuf]
    exact h.used c k (hidb c k hck)

end

theorem Inv.count_one (h : Inv m dirty s) (hlive : s.live b = true) : s.bufmem.count b = 1 := by
  have hle := h.count_le b
  have hne : s.bufmem.count b ≠ 0 := bne_iff_ne.mp hlive
  omega

/-- Freeing a swapped queuebuf leaves the blocks alone. -/
theorem Inv.shares_free (h : Inv m dirty s) (hge : R ≤ b.val) (j : Fin R) :
    s.buframmem.count j = if h : j.val < N then Function.update s.bufmem.count b 0 ⟨j, h⟩ else 0 := by
  rw [h.shares j]
  split
  next hj =>
    have hne : (⟨j, hj⟩ : Fin N) ≠ b := by
      rintro rfl
      exact absurd j.isLt (Nat.not_lt.mpr hge)
    rw [update_of_ne hne]
  · rfl

/-- A swapped queuebuf without a number is freed. -/
theorem Inv.free_unnamed (h : Inv m none s) (hlive : s.live b = true) (hge : R ≤ b.val) (hid : s.idOf b = none) :
    Inv m none { s with bufmem := s.bufmem.free b } := by
  have hcount : (s.bufmem.free b).count = Function.update s.bufmem.count b 0 := by
    rw [Lib.Pool.free, h.count_one hlive]
  have hids : Function.update s.idOf b none = s.idOf := by rw [← hid, Function.update_eq_self]
  refine h.dropped (b := b) hcount (fun _ _ => rfl) rfl (fun j => ?_) ⟨rfl, rfl, rfl⟩ (fun _ => rfl) ?_ h.log
  · rw [hcount]
    exact h.shares_free hge j
  · rw [hids]
    exact h.segmented

theorem Inv.free (h : Inv m none s) (hlive : s.live b = true)
    (hload : (s.bufmem.mem b).inCfs = true → s.idOf b ≠ none → ∀ q, s.tmpdataQbuf = some q → s.live q = true) :
    Inv m none (queuebufFree m b s) := by
  have hone := h.count_one hlive
  rcases lt_or_ge b.val R with hlt | hge
  · obtain ⟨hmem, -⟩ := h.ram b hlt hlive
    have hid : s.idOf b = none := idOf_none_of_ram (by rw [hmem])
    have hids : Function.update s.idOf b none = s.idOf := by rw [← hid, Function.update_eq_self]
    have hfree : queuebufFree m b s =
        { s with bufmem := s.bufmem.free b, buframmem := s.buframmem.free ⟨b, hlt⟩ } := by
      rw [queuebufFree, hmem]
      rfl
    have hcount : (s.bufmem.free b).count = Function.update s.bufmem.count b 0 := by rw [Lib.Pool.free, hone]
    rw [hfree]
    refine h.dropped (b := b) hcount (fun _ _ => rfl) rfl (fun j => ?_) ⟨rfl, rfl, rfl⟩ (fun _ => rfl)
      (by rw [hids]; exact h.segmented) h.log
    dsimp only
    rw [hcount, Lib.Pool.free, h.shares ⟨b, hlt⟩, dif_pos b.isLt, hone]
    dsimp only
    by_cases hjb : j = ⟨b, hlt⟩
    · subst hjb
      rw [update_self, dif_pos b.isLt, update_self]
    · rw [update_of_ne hjb, h.shares j]
      split
      next hj =>
        have hne : (⟨j, hj⟩ : Fin N) ≠ b := by
          rintro rfl
          exact hjb rfl
        rw [update_of_ne hne]
      · rfl
  · obtain ⟨k, hk, -⟩ := h.cfs b hge hlive
    cases hid : s.idOf b with
    | none =>
      have hfree : queuebufFree m b s = { s with bufmem := s.bufmem.free b } := by
        rw [queuebufFree, h.word_of_none hge hlive hid]
        rfl
      rw [hfree]
      exact h.free_unnamed hlive hge hid
    | some n =>
      have hword := (idOf_eq_some.mp hid).2.2
      obtain ⟨q, htmp⟩ := ne_none_iff_exists'.mp (h.used b n hid)
      have hqlive := hload (by rw [hk]) (by rw [hid]; simp) q htmp
      obtain ⟨F, T, heq, hrecords, hseg⟩ := h.removeFromFile hid htmp hqlive
      have hfree : queuebufFree m b s =
          { queuebufRemoveFromFile m n s with bufmem := (queuebufRemoveFromFile m n s).bufmem.free b } := by
        rw [queuebufFree, hword, hk]
        rfl
      rw [hfree, heq]
      have hbufmem : ∀ p : Pool N (Queuebuf R), p = (if q = b then s.bufmem.modify q fun b =>
          { b with word := .swapId (-1) } else s.bufmem) →
          (p.free b).count = Function.update s.bufmem.count b 0 ∧ ∀ c, c ≠ b → (p.free b).mem c = s.bufmem.mem c := by
        intro p hp
        have hpcount : p.count = s.bufmem.count := by
          rw [hp]
          split
          · exact Pool.modify_count ..
          · rfl
        refine ⟨by rw [Lib.Pool.free, hpcount, hone], fun c hc => ?_⟩
        rw [Pool.free_mem, hp]
        split
        next hqb =>
          rw [hqb]
          exact Function.update_of_ne hc ..
        · rfl
      obtain ⟨hcount, hmem⟩ := hbufmem _ rfl
      refine h.dropped (b := b) hcount hmem rfl (fun j => ?_) ⟨rfl, rfl, rfl⟩ hrecords hseg fun a ha => ?_
      · dsimp only
        rw [hcount]
        exact h.shares_free hge j
      · rcases List.mem_cons.mp ha with rfl | ha
        · rfl
        · exact h.log a ha

/-- A queuebuf is handed out: its number of blocks, and that no other queuebuf is told. -/
theorem bufmem_taken (hfree : s.bufmem.count b = 0) {w : Queuebuf R}
    (hbufmem : t.bufmem = (s.bufmem.take b).modify b fun _ => w) (hw : w.word = .swapId (-1) ∨ w.inCfs = false) :
    t.bufmem.count = update s.bufmem.count b 1 ∧ t.bufmem.mem b = w ∧
      (∀ c, c ≠ b → t.bufmem.mem c = s.bufmem.mem c) ∧ (∀ c, c ≠ b → t.live c = s.live c) ∧ t.idOf = s.idOf := by
  have hcount : t.bufmem.count = update s.bufmem.count b 1 := by
    rw [hbufmem, Pool.modify_count, Pool.take, hfree]
  have hmemb : t.bufmem.mem b = w := by
    rw [hbufmem]
    exact update_self ..
  have hmem : ∀ c, c ≠ b → t.bufmem.mem c = s.bufmem.mem c := by
    intro c hc
    rw [hbufmem]
    exact update_of_ne hc ..
  have hlive : ∀ c, c ≠ b → t.live c = s.live c := by
    intro c hc
    rw [State.live, State.live, hcount, update_of_ne hc]
  refine ⟨hcount, hmemb, hmem, hlive, funext fun c => ?_⟩
  by_cases hc : c = b
  · have hdead : s.idOf b = none := idOf_none_of_free (by rw [State.live, hfree]; rfl)
    rw [hc, hdead]
    rcases hw with hw | hw
    · exact idOf_none_of_word (by rw [hmemb, hw])
    · exact idOf_none_of_ram (by rw [hmemb, hw])
  · exact idOf_congr (by rw [hcount, update_of_ne hc]) (hmem c hc)

theorem Inv.ramBlock (h : Inv m none s) (hb : s.bufmem.freeBlock = some b) :
    s.buframmem.freeBlock = if hlt : b.val < R then some ⟨b, hlt⟩ else none := by
  obtain ⟨hzero, hleast⟩ := Pool.freeBlock_eq_some.mp hb
  split
  next hlt =>
    refine Pool.freeBlock_eq_some.mpr ⟨?_, fun j hj => ?_⟩
    · rw [h.shares, dif_pos b.isLt]
      exact hzero
    · have hjb : j.val < b.val := hj
      rw [h.shares, dif_pos (lt_trans hjb b.isLt)]
      exact hleast _ hj
  next hge =>
    cases hj : s.buframmem.freeBlock with
    | none => rfl
    | some j =>
      have hjb : j.val < b.val := lt_of_lt_of_le j.isLt (Nat.le_of_not_lt hge)
      have hcount := Pool.freeBlock_some hj
      rw [h.shares, dif_pos (lt_trans hjb b.isLt)] at hcount
      exact absurd hcount (hleast _ hjb)

theorem Inv.added {w : Queuebuf R} {p : Packet A B} (h : Inv m none s)
    (hzero : s.bufmem.count b = 0) (hbufmem : t.bufmem = (s.bufmem.take b).modify b fun _ => w)
    (hram : ∀ hlt : b.val < R, w = ⟨false, .ramPtr ⟨b, hlt⟩⟩ ∧ packetbufCopyfrom m (t.buframmem.mem ⟨b, hlt⟩) = p)
    (hcfs : R ≤ b.val → w = ⟨true, .swapId (-1)⟩)
    (hmemram : ∀ j : Fin R, j.val ≠ b.val → t.buframmem.mem j = s.buframmem.mem j)
    (hcountram : ∀ j : Fin R, t.buframmem.count j = if j.val = b.val then 1 else s.buframmem.count j)
    (hrest : t.stored = Function.update s.stored b p ∧ t.nextSwapId = s.nextSwapId ∧ t.files = s.files ∧ t.log = s.log)
    (htmp : ∀ q, t.tmpdataQbuf = some q → R ≤ q.val ∧ (t.live q = true → packetbufCopyfrom m t.tmpdata = t.stored q))
    (hused : s.tmpdataQbuf ≠ none → t.tmpdataQbuf ≠ none) : Inv m none t := by
  obtain ⟨hstored, hnext, hfiles, hlog⟩ := hrest
  have hw : w.word = .swapId (-1) ∨ w.inCfs = false := by
    rcases lt_or_ge b.val R with hlt | hge
    · rw [(hram hlt).1]
      exact .inr rfl
    · rw [hcfs hge]
      exact .inl rfl
  obtain ⟨hcount, hmemb, hmem, hlives, hids⟩ := bufmem_taken hzero hbufmem hw
  have husage : t.usage = s.usage := funext fun f => by rw [State.usage, State.usage, hfiles]
  have hrenewable : t.renewable = s.renewable := funext fun f => by rw [State.renewable, State.renewable, hfiles]
  have hdead : s.idOf b = none := idOf_none_of_free (by rw [State.live, hzero]; rfl)
  refine ⟨by rw [hnext, husage, hrenewable, hids]; exact h.segmented, fun c => ?_, fun j => ?_, fun c hc hcl => ?_,
    fun c hc hcl => ?_, fun c k hc hck => ?_, htmp, fun c k hck => ?_, by rw [hlog]; exact h.log⟩
  · rw [hcount]
    by_cases hcb : c = b
    · rw [hcb, update_self]
    · rw [update_of_ne hcb]
      exact h.count_le c
  · rw [hcountram, hcount]
    by_cases hjb : j.val = b.val
    · have hj : (⟨j.val, hjb ▸ b.isLt⟩ : Fin N) = b := Fin.ext hjb
      rw [if_pos hjb, dif_pos (hjb ▸ b.isLt), hj, update_self]
    · rw [if_neg hjb, h.shares]
      split
      next hj =>
        have hne : (⟨j, hj⟩ : Fin N) ≠ b := by
          rintro rfl
          exact hjb rfl
        rw [update_of_ne hne]
      · rfl
  · rw [hstored]
    by_cases hcb : c = b
    · subst hcb
      rw [hmemb, update_self]
      exact hram hc
    · rw [hlives c hcb] at hcl
      rw [hmem c hcb, update_of_ne hcb, hmemram ⟨c, hc⟩ fun heq => hcb (Fin.ext heq)]
      exact h.ram c hc hcl
  · by_cases hcb : c = b
    · subst hcb
      rw [hmemb, hcfs hc]
      exact ⟨-1, rfl, Int.le_refl _⟩
    · rw [hlives c hcb] at hcl
      rw [hmem c hcb]
      exact h.cfs c hc hcl
  · rw [hids] at hck
    have hcb : c ≠ b := by
      rintro rfl
      rw [hdead] at hck
      cases hck
    rw [hfiles, hstored, update_of_ne hcb]
    exact h.cell c k hc hck
  · rw [hids] at hck
    exact hused (h.used c k hck)

theorem Inv.new (h : Inv m none s) (p : Packetbuf A B) : Inv m none (queuebufNewFromPacketbuf m p s) := by
  cases hb : s.bufmem.freeBlock with
  | none =>
    rw [queuebufNewFromPacketbuf, Pool.alloc, hb]
    exact h
  | some b =>
    have hzero := Pool.freeBlock_some hb
    have hram := h.ramBlock hb
    rcases lt_or_ge b.val R with hlt | hge
    · -- a block of RAM
      rw [dif_pos hlt] at hram
      have hzero' := Pool.freeBlock_some hram
      have hnew : queuebufNewFromPacketbuf m p s = { s with
            bufmem := (s.bufmem.take b).modify b fun _ => ⟨false, .ramPtr ⟨b, hlt⟩⟩
            buframmem := (s.buframmem.take ⟨b, hlt⟩).modify ⟨b, hlt⟩ fun d =>
              packetbufAttrCopyto p (packetbufCopyto m p d)
            stored := Function.update s.stored b (p.packet m) } := by
        rw [queuebufNewFromPacketbuf, Pool.alloc, hb, Pool.alloc, hram]
      rw [hnew]
      refine h.added (p := p.packet m) hzero rfl (fun hlt' => ⟨rfl, ?_⟩) (fun hge => absurd hlt (Nat.not_lt.mpr hge))
        (fun j hj => ?_) (fun j => ?_) ⟨rfl, rfl, rfl, rfl⟩ (fun q hq => ?_) id
      · exact (congrArg _ (update_self ..)).trans (copyfrom_copyto p _)
      · refine update_of_ne (fun heq => hj ?_) ..
        exact congrArg Fin.val heq
      · dsimp only
        rw [Pool.modify_count, Pool.take, hzero']
        by_cases hj : j = ⟨b, hlt⟩
        · subst hj
          rw [if_pos rfl]
          exact update_self ..
        · rw [if_neg fun heq => hj (Fin.ext heq)]
          exact update_of_ne hj ..
      · obtain ⟨hqge, hread⟩ := h.tmp q hq
        have hqb : q ≠ b := by
          rintro rfl
          omega
        refine ⟨hqge, fun hql => ?_⟩
        obtain ⟨-, -, -, hlives, -⟩ := bufmem_taken (t := { s with
          bufmem := (s.bufmem.take b).modify b fun _ => ⟨false, .ramPtr ⟨b, hlt⟩⟩ }) hzero rfl (.inr rfl)
        dsimp only
        rw [update_of_ne hqb]
        exact hread ((hlives q hqb).symm.trans hql)
    · -- no block is left: `tmpdata`, and then a record
      rw [dif_neg (Nat.not_lt.mpr hge)] at hram
      obtain ⟨t, ht⟩ : ∃ t : State A B N R, t = { s with
            bufmem := (s.bufmem.take b).modify b fun _ => ⟨true, .swapId (-1)⟩
            tmpdataQbuf := some b
            tmpdata := packetbufAttrCopyto p (packetbufCopyto m p s.tmpdata)
            stored := Function.update s.stored b (p.packet m) } := ⟨_, rfl⟩
      have hnew : queuebufNewFromPacketbuf m p s =
          if (queuebufFlushTmpdata m t).1 = -1 then
            { (queuebufFlushTmpdata m t).2 with bufmem := (queuebufFlushTmpdata m t).2.bufmem.free b }
          else (queuebufFlushTmpdata m t).2 := by
        rw [queuebufNewFromPacketbuf, Lib.Pool.alloc, hb, Lib.Pool.alloc, hram, ht]
      have hbufmem : t.bufmem = (s.bufmem.take b).modify b fun _ => ⟨true, .swapId (-1)⟩ := by rw [ht]
      have htinv : Inv m none t := by
        refine h.added (p := p.packet m) hzero hbufmem (fun hlt => absurd hlt (Nat.not_lt.mpr hge)) (fun _ => rfl)
          (fun j _ => by rw [ht]) (fun j => ?_) (by rw [ht]; exact ⟨rfl, rfl, rfl, rfl⟩) (fun q hq => ?_) (fun _ => ?_)
        · rw [ht, if_neg (by omega)]
        · rw [ht] at hq
          cases hq
          refine ⟨hge, fun _ => ?_⟩
          rw [ht]
          dsimp only
          rw [update_self]
          exact copyfrom_copyto p _
        · rw [ht]
          exact some_ne_none b
      have hlive : t.live b = true := by
        obtain ⟨hcount, -⟩ := bufmem_taken hzero hbufmem (.inl rfl)
        rw [State.live, hcount, update_self]
        rfl
      obtain ⟨hinv, hcount, hnone⟩ := (htinv.dirty (some b)).flush (by rw [ht]) hlive
      rw [hnew]
      split
      next hfail => exact hinv.free_unnamed (by rw [State.live, hcount]; exact hlive) hge (hnone hfail)
      · exact hinv

theorem Inv.renewAll : ∀ {fs : List Nat} {s : State A B N R}, (∀ f ∈ fs, f < nqbufFiles) → Inv m none s →
    Inv m none (qbufRenewAll fs s)
  | [], _, _, h => h
  | f :: fs, s, hfs, h => by
    rw [qbufRenewAll]
    refine Inv.renewAll (fun g hg => hfs g (mem_cons_of_mem f hg)) ?_
    split
    next hspare => exact h.renew (hfs f (mem_cons_self ..)) hspare
    · exact h

/-! ### Runs -/

/-- A call that `tmpdata_qbuf` does not mislead. Only the calls that read through it are concerned. -/
def Meets (s : State A B N R) : Call A B N → Prop
  | .update b _ => Loadable b s
  | .updateAttr b _ => Loadable b s
  | .toPacketbuf b => Loadable b s
  | .free b => (s.bufmem.mem b).inCfs = true → s.idOf b ≠ none → ∀ q, s.tmpdataQbuf = some q → s.live q = true
  | .new _ => True
  | .renewTimer => True

/-- Every packet reads back as it was stored, no freed or null queuebuf is read, a file is only emptied when no live
    queuebuf has its packet in it, and its count is the number of those that have. -/
structure Kept (s : State A B N R) : Prop where
  log : ∀ a ∈ s.log, a.Fine
  usage : ∀ f < nqbufFiles, (s.files f).usage = countFin (s.inFile f)

theorem Inv.kept (h : Inv m none s) : Kept s := ⟨h.log, h.segmented.usage_eq⟩

theorem Inv.step {c : Call A B N} (h : Inv m none s) (hc : Meets s c) (hst : call m s c = some t) : Inv m none t := by
  cases c with
  | new p =>
    cases hst
    exact h.new p
  | update b p =>
    simp only [call] at hst
    split at hst
    next hlive =>
      cases hst
      refine h.update hlive hc fun d _ => ?_
      rw [copyto_attrCopyto]
      exact copyfrom_copyto p d
    · cases hst
  | updateAttr b p =>
    simp only [call] at hst
    split at hst
    next hlive =>
      cases hst
      refine h.update hlive hc fun d hd => ?_
      rw [← hd]
      rfl
    · cases hst
  | toPacketbuf b =>
    simp only [call] at hst
    split at hst
    next hlive =>
      cases hst
      exact h.toPacketbuf hlive hc
    · cases hst
  | free b =>
    simp only [call] at hst
    split at hst
    next hlive =>
      cases hst
      exact h.free hlive hc
    · cases hst
  | renewTimer =>
    simp only [call] at hst
    split at hst
    · cases hst
      have hrun : Inv m none { s with renewTimer := false } := { h with }
      exact Inv.renewAll (fun f hf => mem_range.mp hf) hrun
    · cases hst

theorem inv_init (zero : QueuebufData A B) (blank : Packet A B) :
    Inv m none (queuebufInit zero blank : State A B N R) := by
  refine Inv.renewAll (fun f hf => mem_range.mp hf) ?_
  refine ⟨?_, fun _ => Nat.zero_le 1, fun j => ?_, nofun, nofun,
    fun b n _ hb => ?_, nofun, fun b n hb => ?_, nofun⟩
  · refine (congrArg _ (funext fun b => idOf_none_of_free rfl)).mpr ?_
    exact segmented_start (by decide) (by decide) _
  · split
    · rfl
    · rfl
  · cases (idOf_eq_some.mp hb).1
  · cases (idOf_eq_some.mp hb).1

/-- While `tmpdata_qbuf` misleads no call, the queuebufs keep their packets. -/
theorem queuebuf_kept (m : Platform R) (zero : QueuebufData A B) (blank : Packet A B) {cs : List (Call A B N)}
    {s : State A B N R} (hrun : Run (call m) Meets (queuebufInit zero blank) cs s) : Kept s :=
  (hrun.invariant (P := Inv m none) (fun _ _ _ h hc hst => h.step hc hst) (inv_init zero blank)).kept

instance (b : Fin N) (s : State A B N R) : Decidable (Loadable b s) := inferInstanceAs (Decidable (_ → _ ∧ _))

instance (s : State A B N R) : ∀ c : Call A B N, Decidable (Meets s c)
  | .update b _ => inferInstanceAs (Decidable (Loadable b s))
  | .updateAttr b _ => inferInstanceAs (Decidable (Loadable b s))
  | .toPacketbuf b => inferInstanceAs (Decidable (Loadable b s))
  | .free b => inferInstanceAs (Decidable ((s.bufmem.mem b).inCfs = true → s.idOf b ≠ none →
      ∀ q, s.tmpdataQbuf = some q → s.live q = true))
  | .new _ => .isTrue trivial
  | .renewTimer => .isTrue trivial

/-- One block of RAM, packets of at most 4 bytes. -/
def platform1 : Platform 1 := ⟨4, fun _ => 0x200, by decide⟩

/-- Three queuebufs, with neither attributes nor addresses. -/
def start3 : State Unit Unit 3 1 := queuebufInit ⟨fun _ => 0, 0, (), ()⟩ ⟨[], (), ()⟩

/-- A packet with a header of one byte. -/
def packet (h d : UInt8) : Packetbuf Unit Unit := ⟨[h], [d], (), ()⟩

/-- Three packets, two of them swapped; one of the two is changed, the other is freed. -/
def threeCalls : List (Call Unit Unit 3) :=
  [.new (packet 1 2), .new (packet 3 4), .new (packet 5 6), .update 1 (packet 7 8), .toPacketbuf 1, .free 2,
    .toPacketbuf 1]

theorem queuebuf_kept_three : ∃ s, Run (call platform1) Meets start3 threeCalls s ∧ Kept s := by
  have hexec : ∃ s, Run (call platform1) Meets start3 threeCalls s ∧ (fun _ => true) s = true :=
    exists_run (fun s c => decide (Meets s c)) (fun _ => true) (fun _ _ h => of_decide_eq_true h) (by decide)
  obtain ⟨s, hrun, -⟩ := hexec
  exact ⟨s, hrun, queuebuf_kept platform1 _ _ hrun⟩

/-- A freed queuebuf was read. -/
def Access.stale : Access A B → Bool
  | .deref allocated => !allocated
  | _ => false

theorem not_kept_of_stale (h : s.log.any Access.stale = true) : ¬ Kept s := by
  intro hkept
  obtain ⟨a, ha, hstale⟩ := any_eq_true.mp h
  have hfine := hkept.log a ha
  cases a with
  | deref allocated =>
    rw [hfine] at hstale
    cases hstale
  | renew held => cases hstale
  | copied got stored => cases hstale
  | wild => cases hstale

/-- The queuebuf that was swapped last is freed, and the other swapped one is read. -/
def readFreed : List (Call Unit Unit 3) :=
  [.new (packet 1 2), .new (packet 3 4), .new (packet 5 6), .free 2, .toPacketbuf 1]

theorem queuebuf_read_freed : ∃ s, Run (call platform1) (fun _ _ => True) start3 readFreed s ∧ ¬ Kept s := by
  have hexec : ∃ s, Run (call platform1) (fun _ _ => True) start3 readFreed s ∧ s.log.any Access.stale = true :=
    exists_run (fun _ _ => true) (fun t : State Unit Unit 3 1 => t.log.any Access.stale) (fun _ _ _ => trivial) (by decide)
  obtain ⟨s, hrun, hstale⟩ := hexec
  exact ⟨s, hrun, not_kept_of_stale hstale⟩

end CSync.Swap
