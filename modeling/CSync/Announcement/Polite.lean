import CSync.Lib.Count
import CSync.Lib.Run
import CSync.Announcement.Wire

/-! The polite announcement back-end (`polite-announcement.c` over `ipolite.c`).

    A bump queues an advertisement behind a random delay; when the timer expires it is handed to the MAC, and the
    MAC's sent callback counts it in the 8-bit `send_dups` and queues the next copy until `max_send_dups` is reached.
    A cancel drops the queue and puts `0xFF` into the counter, so that no copy should follow. The callback of a packet
    that is already inside the MAC may arrive at any later time. -/

namespace CSync

open Lib Option

/-- `struct polite_announcement_state` with its `struct ipolite_conn`, the registered announcements,
    and two counters of the outside world. -/
structure Polite where
  interval : UInt32
  lastEvent : AnnState
  sendDups : UInt8
  maxSendDups : UInt8
  q : Option (List UInt8)
  timer : Bool
  hdrsize : UInt8
  dups : UInt8
  maxdups : UInt8
  announcements : List (Announcement UInt32)
  /-- Packets inside the MAC whose sent callback has not come yet. -/
  inMac : Nat
  /-- Advertisements handed to the MAC so far. -/
  handed : Nat
  deriving DecidableEq

def politeInterval : UInt32 := 4

namespace Polite

/-- `polite_announcement_init` after boot. -/
def init (interval : UInt32) (maxSendDups maxRecvDups : UInt8) : Polite where
  interval := interval
  lastEvent := .pending
  sendDups := 0
  maxSendDups := maxSendDups
  q := none
  timer := false
  hdrsize := 0
  dups := 0
  maxdups := maxRecvDups
  announcements := []
  inMac := 0
  handed := 0

/-- `broadcast_send` hands a packet to the MAC. -/
def handToMac (s : Polite) : Polite := { s with inMac := s.inMac + 1, handed := s.handed + 1 }

/-- `ipolite_send`. A queue buffer is available when `buf` says so. -/
def ipoliteSend (s : Polite) (interval : UInt32) (packet : List UInt8) (buf : Bool) : Polite :=
  let s := if s.q.isSome then { s with q := none, timer := false } else s
  let s := { s with dups := 0, hdrsize := UInt8.ofNat packet.length }
  if interval = 0 then s.handToMac
  else if buf then { s with q := some packet, timer := true } else s

/-- `send_adv`; `frame` is what lies behind the records in the packet buffer. -/
def sendAdv (s : Polite) (interval : UInt32) (frame : List UInt8) (buf : Bool) : Polite :=
  match politeSendAdv s.announcements frame with
  | some packet => s.ipoliteSend interval packet buf
  | none => s

/-- `observer_pa`, the observer that `announcement_bump` calls. -/
def observerPa (s : Polite) (frame : List UInt8) (buf : Bool) : Polite :=
  { s with sendDups := 0 }.sendAdv s.interval frame buf

/-- `adv_packet_sent`, through `sent` of `ipolite.c`. -/
def advPacketSent (s : Polite) (frame : List UInt8) (buf : Bool) : Polite :=
  let s := { s with sendDups := s.sendDups + 1 }
  if s.sendDups < s.maxSendDups then
    s.sendAdv (s.interval + politeInterval * s.sendDups.toUInt32) frame buf
  else { s with lastEvent := .sent }

/-- `send`, the callback of the ipolite timer. -/
def send (s : Polite) : Polite := if s.q.isSome then { s with q := none }.handToMac else s

def ipoliteCancel (s : Polite) : Polite := { s with timer := false, q := none }

def cancel (s : Polite) : Polite :=
  { s with lastEvent := .pending, sendDups := 0xFF }.ipoliteCancel

/-- The received packet is a copy of the queued one, its frame apart. -/
def copyOfQueued (s : Polite) (packet : List UInt8) : Bool :=
  match s.q with
  | none => false
  | some queued =>
      let n := min s.hdrsize.toNat (UInt16.ofNat packet.length - 26).toNat
      packet.length == queued.length && packet.take n == queued.take n

/-- `recv` of `ipolite.c`, up to the delivery of the packet. -/
def recv (s : Polite) (packet : List UInt8) : Polite :=
  if s.copyOfQueued packet then
    let s := { s with dups := s.dups + 1 }
    if s.maxdups ≤ s.dups then { s with q := none, timer := false, lastEvent := .dropped } else s
  else s

/-- What can happen to the back-end. -/
inductive Event where
  | bump (frame : List UInt8) (buf : Bool)
  | cancel
  | timer
  | sent (frame : List UInt8) (buf : Bool)
  | recv (packet : List UInt8)
  | setInterval (interval : UInt32)
  | announce (as : List (Announcement UInt32))
  deriving DecidableEq

/-- A timer expires only when set, a sent callback comes only for a packet inside the MAC. -/
def step (s : Polite) : Event → Option Polite
  | .bump frame buf => some (s.observerPa frame buf)
  | .cancel => some s.cancel
  | .timer => if s.timer then some { s with timer := false }.send else none
  | .sent frame buf =>
      if 0 < s.inMac then some ({ s with inMac := s.inMac - 1 }.advPacketSent frame buf) else none
  | .recv packet => some (s.recv packet)
  | .setInterval interval => some { s with interval := interval }
  | .announce as => some { s with announcements := as }

def isBump : Event → Bool
  | .bump .. => true
  | _ => false

/-- The step condition: no sent callback comes while the duplicate counter is at its maximum, where
    it would wrap around. -/
def NoWrap (s : Polite) (e : Event) : Prop :=
  match e with
  | .sent .. => s.sendDups ≠ 0xFF
  | _ => True

/-- An advertisement that is queued for sending. -/
def pending (s : Polite) : Nat := if s.q.isSome then 1 else 0

/-! ### What the operations do to the counters -/

section
variable (s : Polite)
include s

theorem pending_le : s.pending ≤ 1 := by
  rw [pending]; split <;> omega

/-- Sending leaves the duplicate counters alone and queues or hands over at most one packet. -/
theorem sendAdv_spec (interval : UInt32) (frame : List UInt8) (buf : Bool) :
    (s.sendAdv interval frame buf).sendDups = s.sendDups ∧
    (s.sendAdv interval frame buf).maxSendDups = s.maxSendDups ∧
    (s.sendAdv interval frame buf).handed + (s.sendAdv interval frame buf).pending ≤ s.handed + 1 := by
  rw [sendAdv]
  cases politeSendAdv s.announcements frame with
  | none =>
    have := s.pending_le
    refine ⟨rfl, rfl, ?_⟩
    dsimp only; omega
  | some packet =>
    dsimp only
    rw [ipoliteSend]
    cases hq : s.q <;> by_cases hi : interval = 0 <;> cases buf <;>
      simp [hq, hi, handToMac, pending]

theorem send_spec : s.send.sendDups = s.sendDups ∧
    s.send.maxSendDups = s.maxSendDups ∧ s.send.handed + s.send.pending = s.handed + s.pending := by
  rw [send]
  cases hq : s.q <;> simp [hq, handToMac, pending]

theorem recv_spec (packet : List UInt8) : (s.recv packet).sendDups = s.sendDups ∧
    (s.recv packet).maxSendDups = s.maxSendDups ∧ (s.recv packet).handed = s.handed ∧
    (s.recv packet).pending ≤ s.pending := by
  rw [recv]
  split
  · dsimp only
    split <;> simp [pending]
  · exact ⟨rfl, rfl, rfl, le_refl _⟩

/-- The bump queues or hands over at most one packet and restarts the duplicate counter. -/
theorem observerPa_spec (frame : List UInt8) (buf : Bool) :
    (s.observerPa frame buf).sendDups = 0 ∧
    (s.observerPa frame buf).maxSendDups = s.maxSendDups ∧
    (s.observerPa frame buf).handed + (s.observerPa frame buf).pending ≤ s.handed + 1 :=
  sendAdv_spec { s with sendDups := 0 } s.interval frame buf

end

/-- Nothing queued, no timer, the counter at its maximum, `h` packets handed over so far. -/
structure Cancelled (h : Nat) (s : Polite) : Prop where
  q_none : s.q = none
  timer_off : s.timer = false
  dups_max : s.sendDups = 0xFF
  handed_eq : s.handed = h

theorem cancelled_cancel (s : Polite) : Cancelled s.handed s.cancel := ⟨rfl, rfl, rfl, rfl⟩

variable {s t : Polite} {e : Event}

/-- Without a bump, and without a callback that wraps the counter, a cancelled back-end stays so. -/
theorem Cancelled.step {h : Nat} (hs : Cancelled h s)
    (hok : NoWrap s e) (hb : isBump e = false) (hst : s.step e = some t) : Cancelled h t := by
  cases e with
  | bump frame buf => exact absurd hb (by simp [isBump])
  | cancel =>
    rw [Polite.step] at hst
    cases hst
    rw [← hs.handed_eq]; exact cancelled_cancel s
  | timer =>
    rw [Polite.step, hs.timer_off] at hst
    exact absurd hst (by simp)
  | sent frame buf => exact absurd hs.dups_max hok
  | recv packet =>
    rw [Polite.step, some.injEq] at hst
    have : s.recv packet = s := by
      rw [recv, copyOfQueued, hs.q_none]; rfl
    rw [← hst, this]; exact hs
  | setInterval interval =>
    rw [Polite.step] at hst
    cases hst
    exact ⟨hs.q_none, hs.timer_off, hs.dups_max, hs.handed_eq⟩
  | announce as =>
    rw [Polite.step] at hst
    cases hst
    exact ⟨hs.q_none, hs.timer_off, hs.dups_max, hs.handed_eq⟩

/-- Since `h` packets had been handed over, each further one, and the pending one, is paid for by the
    duplicate counter, up to the limit `n`. -/
structure Bounded (h : Nat) (n : UInt8) (s : Polite) : Prop where
  limit : s.maxSendDups = n
  paid : s.handed + s.pending ≤ h + min (s.sendDups.toNat + 1) n.toNat

theorem bounded_observerPa {n : UInt8} (hn : 0 < n.toNat) (s : Polite) (hlim : s.maxSendDups = n)
    (frame : List UInt8) (buf : Bool) : Bounded s.handed n (s.observerPa frame buf) := by
  obtain ⟨h1, h2, h3⟩ := s.observerPa_spec frame buf
  refine ⟨h2.trans hlim, ?_⟩
  rw [h1, UInt8.toNat_zero]; omega

theorem Bounded.step {h : Nat} {n : UInt8} (hs : Bounded h n s)
    (hok : NoWrap s e) (hb : isBump e = false) (hst : s.step e = some t) : Bounded h n t := by
  obtain ⟨hlim, hpaid⟩ := hs
  cases e with
  | bump frame buf => exact absurd hb (by simp [isBump])
  | cancel =>
    rw [Polite.step] at hst
    cases hst
    refine ⟨hlim, ?_⟩
    have := s.sendDups.toNat_lt
    simp only [cancel, ipoliteCancel, pending, isSome_none, UInt8.reduceToNat]
    simp only [Bool.false_eq_true, if_false]; omega
  | timer =>
    rw [Polite.step] at hst
    split at hst
    · cases hst
      obtain ⟨h1, h2, h3⟩ := send_spec { s with timer := false }
      refine ⟨h2.trans hlim, ?_⟩
      rw [h1, h3]; exact hpaid
    · exact absurd hst (by simp)
  | sent frame buf =>
    rw [Polite.step] at hst
    split at hst
    · cases hst
      have hdup : (s.sendDups + 1).toNat = s.sendDups.toNat + 1 := by
        have hlt := s.sendDups.toNat_lt
        have hne : s.sendDups.toNat ≠ 255 := fun h255 => hok (UInt8.toNat_inj.mp h255)
        exact toNat_succ_uint8 (by omega)
      rw [advPacketSent]
      split
      · -- another copy: the counter pays for it
        rename_i hlt
        rw [UInt8.lt_iff_toNat_lt, hdup, hlim] at hlt
        obtain ⟨h1, h2, h3⟩ := sendAdv_spec { s with inMac := s.inMac - 1, sendDups := s.sendDups + 1 }
          (s.interval + politeInterval * (s.sendDups + 1).toUInt32) frame buf
        refine ⟨h2.trans hlim, ?_⟩
        rw [h1, hdup]
        dsimp only at h3 ⊢; omega
      · refine ⟨hlim, ?_⟩
        change s.handed + s.pending ≤ h + min ((s.sendDups + 1).toNat + 1) n.toNat
        rw [hdup]; omega
    · exact absurd hst (by simp)
  | recv packet =>
    rw [Polite.step] at hst
    cases hst
    obtain ⟨h1, h2, h3, h4⟩ := s.recv_spec packet
    refine ⟨h2.trans hlim, ?_⟩
    rw [h1, h3]; omega
  | setInterval interval =>
    rw [Polite.step] at hst
    cases hst
    exact ⟨hlim, hpaid⟩
  | announce as =>
    rw [Polite.step] at hst
    cases hst
    exact ⟨hlim, hpaid⟩

/-! ### Whole runs -/

theorem run_without_bump {P : Polite → Prop}
    (hP : ∀ s e t, P s → NoWrap s e → isBump e = false → s.step e = some t → P t) :
    ∀ {es : List Event} {s t : Polite}, Run step NoWrap s es t → (∀ e ∈ es, isBump e = false) → P s → P t
  | _, _, _, .nil _, _, hs => hs
  | _, _, _, .cons hok hst hrun, hb, hs =>
      run_without_bump hP hrun (fun e he => hb e (List.mem_cons_of_mem _ he))
        (hP _ _ _ hs hok (hb _ List.mem_cons_self) hst)

theorem maxSendDups_step (hst : s.step e = some t) : t.maxSendDups = s.maxSendDups := by
  cases e <;> rw [Polite.step] at hst
  case bump frame buf => rw [← some.inj hst]; exact (s.observerPa_spec frame buf).2.1
  case cancel => rw [← some.inj hst]; rfl
  case timer =>
    split at hst
    · rw [← some.inj hst]; exact (send_spec _).2.1
    · exact absurd hst (by simp)
  case sent frame buf =>
    split at hst
    · rw [← some.inj hst, advPacketSent]
      split
      · exact (sendAdv_spec _ _ frame buf).2.1
      · rfl
    · exact absurd hst (by simp)
  case recv packet => rw [← some.inj hst]; exact (s.recv_spec packet).2.1
  case setInterval => rw [← some.inj hst]
  case announce => rw [← some.inj hst]

theorem maxSendDups_run {es : List Event} (hrun : Run step NoWrap s es t) : t.maxSendDups = s.maxSendDups :=
  hrun.invariant (P := fun u => u.maxSendDups = s.maxSendDups)
    (fun _ _ _ hu _ hst => (maxSendDups_step hst).trans hu) rfl

/-- CANCELLATION: in every run in which no sent callback comes while the duplicate counter is at its
    maximum, nothing is handed over or queued between a cancel and the next bump, and at most
    `max_send_dups` advertisements are handed over between two bumps. -/
theorem polite_cancellation (interval : UInt32) (maxSendDups maxRecvDups : UInt8) (hmax : 0 < maxSendDups.toNat)
    (es : List Event) (t : Polite) (hrun : Run step NoWrap (init interval maxSendDups maxRecvDups) es t) :
    (∀ pre post, es = pre ++ .cancel :: post → (∀ e ∈ post, isBump e = false) →
       ∃ s, Run step NoWrap (init interval maxSendDups maxRecvDups) pre s ∧ t.handed = s.handed ∧ t.q = none) ∧
    (∀ pre frame buf post, es = pre ++ .bump frame buf :: post → (∀ e ∈ post, isBump e = false) →
       ∃ s,
         Run step NoWrap (init interval maxSendDups maxRecvDups) pre s ∧
         t.handed ≤ s.handed + maxSendDups.toNat) := by
  constructor
  · rintro pre post rfl hpost
    obtain ⟨s, hpre, hrest⟩ := hrun.split
    cases hrest with
    | cons hok hst hrest =>
      rw [Polite.step] at hst
      cases hst
      have hc := run_without_bump (P := Cancelled s.handed)
        (fun _ _ _ hs hok hb hst => hs.step hok hb hst) hrest hpost (cancelled_cancel s)
      exact ⟨s, hpre, hc.handed_eq, hc.q_none⟩
  · rintro pre frame buf post rfl hpost
    obtain ⟨s, hpre, hrest⟩ := hrun.split
    cases hrest with
    | cons hok hst hrest =>
      rw [Polite.step] at hst
      cases hst
      have hb := run_without_bump (P := Bounded s.handed maxSendDups)
        (fun _ _ _ hs hok hb hst => hs.step hok hb hst) hrest hpost
        (bounded_observerPa hmax s (maxSendDups_run hpre) frame buf)
      refine ⟨s, hpre, ?_⟩
      have := hb.paid; omega

/-- One announcement with a value, a bump, the timer, a cancel. -/
def bumpThenCancel : List Event :=
  [.announce [(Announcement.register 1 0).addValue], .bump [] true, .timer, .cancel]

theorem polite_cancellation_once :
    ∃ t, Run step NoWrap (init 10 2 1) bumpThenCancel t ∧ t.handed = 1 ∧ t.q = none := by
  have hrun : Run step NoWrap (init 10 2 1) bumpThenCancel
      ((exec step (fun _ _ => true) (init 10 2 1) bumpThenCancel).get (by decide)) :=
    .cons trivial rfl (.cons trivial rfl (.cons trivial rfl (.cons trivial rfl (.nil _))))
  obtain ⟨s, -, -, hq⟩ := (polite_cancellation 10 2 1 (by decide) _ _ hrun).1
    (bumpThenCancel.take 3) [] rfl (by decide)
  exact ⟨_, hrun, by decide, hq⟩

/-- SCHEME FAILS: the sent callback of a packet handed over before the cancel comes after it, wraps
    the counter from `0xFF` to 0, and queues a fresh copy. -/
theorem sent_after_cancel_queues : ∃ s t, exec step (fun _ _ => true) (init 10 2 1) (bumpThenCancel ++ [.sent []
    true]) = some t ∧ exec step (fun _ _ => true) (init 10 2 1) bumpThenCancel = some s ∧ s.q = none ∧ t.q ≠ none :=
  ⟨_, _, rfl, rfl, by decide, by decide⟩

end Polite

end CSync
