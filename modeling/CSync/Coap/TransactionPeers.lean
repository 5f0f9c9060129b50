import CSync.Coap.TransactionRuns
import Mathlib.Data.List.TakeWhile

/-! Whose messages close a CoAP transaction.

    A response closes the first transaction with its message id, and a datagram that is not parsed the one that
    the last request left a pointer to. In a run in which the one who sent either of them is the peer of the
    transaction, and every callback that is about to run was set for the transaction that has it, messages belong
    to their transactions: they close only what was opened to their sender. -/

namespace CSync.Coap

namespace Transactions

open Lib List Option

variable {C : Type} {N : Nat} {s s' : State C N} {i : Fin N}

/-- The callback was set when the transaction was opened. -/
def Own (t : Transaction C) : Prop := t.callback ≠ none → t.owner = t.number

instance (t : Transaction C) : Decidable (Own t) := inferInstanceAs (Decidable (_ ≠ none → _))

/-- A transaction whose timer has run out for the last time has a callback of its own. -/
def Expiring (s : State C N) : Prop :=
  ∀ i ∈ s.transactionsList, (s.mem i).retransTimer = false →
    maxRetransmit.toNat ≤ (s.mem i).retransCounter.toNat + 1 → Own (s.mem i)

instance : Decidable (Expiring s) := inferInstanceAs (Decidable (∀ i ∈ s.transactionsList, _ → _ → Own (s.mem i)))

/-- The step condition. -/
def Belongs (s : State C N) : Event C N → Prop
  | .send _ => True
  | .receive src (some m) _ _ => m.isRequest = false → ∀ i, getTransactionByMid s m.mid = some i →
      (s.mem i).peer = src ∧ Own (s.mem i)
  | .receive src none _ _ => ∀ i, s.transaction = some i → i ∈ s.transactionsList → (s.mem i).peer = src
  | .expire _ => True
  | .timer _ => Expiring s

instance (s : State C N) : ∀ e : Event C N, Decidable (Belongs s e)
  | .send _ => inferInstanceAs (Decidable True)
  | .receive _ (some m) _ _ =>
    inferInstanceAs (Decidable (m.isRequest = false → ∀ i : Fin N, _ → _ ∧ Own (s.mem i)))
  | .receive _ none _ _ => inferInstanceAs (Decidable (∀ _ : Fin N, _ → _ → _))
  | .expire _ => inferInstanceAs (Decidable True)
  | .timer _ => inferInstanceAs (Decidable (Expiring s))

/-! ### Messages -/

theorem Inv.setTransaction (h : Inv s) (t : Option (Fin N)) : Inv { s with transaction := t } :=
  ⟨h.owns, h.log, h.inj, h.live⟩

variable {src : Endpoint}

theorem Inv.clear_peer (h : Inv s) (hpeer : i ∈ s.transactionsList → (s.mem i).peer = src) :
    Inv (clearTransaction (some src) i s) := by
  refine (h.rest i).clear (fun hi => ⟨_, (h.live i hi).opened⟩) fun p hp hi => ?_
  rw [some.injEq] at hp
  rw [← hp, ← hpeer hi]
  exact (h.live i hi).opened

theorem Inv.serveRequest (h : Inv s) (hi : i ∈ s.transactionsList) (hpeer : (s.mem i).peer = src) (hsent : sentTimes
    s.history (s.mem i).number = 0) (service : Service C) : Inv (serveRequest src service i s) := by
  obtain ⟨hopened, hext⟩ : Inv (openAll s service.opens) ∧ Extends s (openAll s service.opens) := openAll_spec h
  have hmem : i ∈ (openAll s service.opens).transactionsList := by
    obtain ⟨js, hlist, -⟩ := hext.list
    rw [hlist]
    exact mem_append_left _ hi
  have hsame := hext.mem i hi
  rw [Transactions.serveRequest]
  cases service.response with
  | some packet =>
    refine hopened.send_kept hmem ((hopened.live i hmem).ready ?_) fun _ => ⟨rfl, rfl, rfl⟩
    rw [hsame, hext.sent _ (h.number_lt hi), hsent]
    exact Nat.zero_le _
  | none =>
    refine hopened.clear_peer fun _ => ?_
    rw [hsame, hpeer]

/-- REQUEST: its transaction is closed by the response, or by the one who asked. -/
theorem Inv.receiveRequest (h : Inv s) (src : Endpoint) (m : Message) (service : Service C) :
    Inv (receiveRequest s src m service) := by
  rw [Transactions.receiveRequest]
  cases hfree : s.transactionsMemb.freeBlock with
  | none =>
    rw [newTransaction_none hfree]
    exact h.setTransaction none
  | some i =>
    rw [newTransaction_some h hfree]
    dsimp only
    obtain ⟨hadded, hsent⟩ := h.added hfree m.mid src
    have hmem : i ∈ (Transactions.added s i m.mid src).transactionsList := mem_append_right _ (mem_singleton_self i)
    have hsame : (Transactions.added s i m.mid src).mem i = _ := added_same s i
    rw [initResponse]
    split
    · refine (hadded.setTransaction (some i)).serveRequest hmem ?_ ?_ service
      · exact congrArg Transaction.peer hsame
      · exact (congrArg (fun t => sentTimes _ (Transaction.number t)) hsame).trans hsent
    · refine (getMid_inv (hadded.setTransaction (some i))).serveRequest hmem ?_ ?_ service
      · exact congrArg Transaction.peer hsame
      · exact (congrArg (fun t => sentTimes _ (Transaction.number t)) hsame).trans hsent

/-- RESPONSE: it closes a transaction that was opened to the one who sent it, and its callback runs. -/
theorem Inv.receiveResponse (h : Inv s) {m : Message} (hpeer : ∀ i, getTransactionByMid s m.mid = some i → (s.mem
    i).peer = src ∧ Own (s.mem i)) (opens : C → List (Opening C)) : Inv (receiveResponse s src m opens) := by
  refine Inv.setTransaction ?_ none
  split
  · exact h
  next i hget =>
    have hi : i ∈ s.transactionsList := mem_of_find?_eq_some hget
    obtain ⟨hsrc, hown⟩ := hpeer i hget
    have hlive := h.live i hi
    have hsilent := (h.rest i).silent hi hlive.opened hlive.called (some src)
    refine (call_spec (h.clear_peer fun _ => hsrc) opens (some src) ?_ ?_).1
    · intro hcallback
      rw [hown hcallback]
      exact hsilent
    · intro p hp hcallback
      rw [some.injEq] at hp
      rw [hown hcallback, ← hp, ← hsrc, clearTransaction_history _ hi]
      exact mem_append_left _ hlive.opened

theorem Inv.expire (h : Inv s) (i : Fin N) : Inv (update i (fun t => { t with retransTimer := false }) s) := by
  have hrest := (h.rest i).update (f := fun t => { t with retransTimer := false }) fun _ => rfl
  refine ⟨hrest.owns, hrest.log, hrest.inj, fun j hj => ?_⟩
  by_cases hji : j = i
  · rw [hji, update_same]
    have hlive := h.live i (hji ▸ hj)
    exact ⟨hlive.opened, hlive.counter, hlive.sent, hlive.called⟩
  · exact hrest.live j hj hji

/-! ### Timers -/

/-- A callback runs when the last timer has run out. -/
theorem sendTransaction_callback (s : State C N) (i : Fin N) (h : (sendTransaction s i).2 ≠ none) :
    maxRetransmit.toNat ≤ (s.mem i).retransCounter.toNat ∧ (s.mem i).callback ≠ none := by
  rw [sendTransaction_eq] at h
  split at h
  · exact absurd rfl h
  next hclosed =>
    split at h
    next hcon => exact ⟨Nat.le_of_not_lt fun hlt => hclosed ⟨hcon, hlt⟩, h⟩
    · exact absurd rfl h

/-- The transaction counts, and is sent again. -/
def resent (s : State C N) (i : Fin N) : State C N × Option C :=
  sendTransaction (update i (fun t => { t with retransCounter := t.retransCounter + 1 }) s) i

theorem checkTransaction_eq (opens : C → List (Opening C)) (s : State C N) (i : Fin N) :
    checkTransaction opens s i =
      if (s.mem i).retransTimer = true then s else call opens (s.mem i).owner none (resent s i).2 (resent s i).1 := by
  rw [checkTransaction, resent]

theorem Inv.resent (h : Inv s) (hi : i ∈ s.transactionsList) : Inv (resent s i).1 ∧
    ((Transactions.resent s i).2 ≠ none → Silent (Transactions.resent s i).1 (s.mem i).number ∧
      maxRetransmit.toNat ≤ (s.mem i).retransCounter.toNat + 1 ∧ (s.mem i).callback ≠ none) := by
  have hlive := h.live i hi
  have hcount : ((s.mem i).retransCounter + 1).toNat = (s.mem i).retransCounter.toNat + 1 := by
    have hlt : (s.mem i).retransCounter.toNat < 4 := hlive.counter
    rw [UInt8.toNat_add]
    have hone : (1 : UInt8).toNat = 1 := rfl
    omega
  have hsame := update_same i (fun t : Transaction C => { t with retransCounter := t.retransCounter + 1 }) s
  have hrest := (h.rest i).update (f := fun t => { t with retransCounter := t.retransCounter + 1 }) fun _ => rfl
  have hready : Ready s.history { s.mem i with retransCounter := (s.mem i).retransCounter + 1 } :=
    ⟨hlive.opened, hcount.le.trans hlive.counter, hlive.sent.trans hcount.ge, hlive.called⟩
  rw [← hsame] at hready
  refine ⟨hrest.send hi hready, fun hcall => ?_⟩
  have hsilent := hrest.send_silent hi hready hcall
  have hlast := sendTransaction_callback _ i hcall
  rw [hsame] at hsilent hlast
  exact ⟨hsilent, hcount ▸ hlast.1, hlast.2⟩

theorem resent_list (s : State C N) (i : Fin N) :
    (resent s i).1.transactionsList = s.transactionsList ∧ ((resent s i).1.mem i).retransTimer = true ∧
        (resent s i).2 = none ∨ (resent s i).1.transactionsList = s.transactionsList.erase i :=
  sendTransaction_list _ i

/-- CHECKED: one round of the loop. The list stays, or loses the transaction and gets others behind its end, whose timers
    are set; the transactions that wait for nothing are the ones that did before. -/
theorem checkTransaction_spec (h : Inv s) (hexpiring : Expiring s) (hi : i ∈ s.transactionsList)
    (opens : C → List (Opening C)) :
    Inv (checkTransaction opens s i) ∧
    Expiring (checkTransaction opens s i) ∧
    ((checkTransaction opens s i).transactionsList = s.transactionsList ∨
     ∃ js,
       (checkTransaction opens s i).transactionsList = s.transactionsList.erase i ++ js ∧
       ∀ j ∈ js, ((checkTransaction opens s i).mem j).retransTimer = true) := by
  rw [checkTransaction_eq]
  by_cases htimer : (s.mem i).retransTimer = true
  · rw [if_pos htimer]
    exact ⟨h, hexpiring, .inl rfl⟩
  · rw [if_neg htimer]
    rw [Bool.not_eq_true] at htimer
    obtain ⟨hsent, hcallback⟩ := h.resent hi
    have howner : (resent s i).2 ≠ none → Silent (resent s i).1 (s.mem i).owner := by
      intro hcall
      obtain ⟨hsilent, hlast, hsome⟩ := hcallback hcall
      rw [hexpiring i hi htimer hlast hsome]
      exact hsilent
    obtain ⟨hinv, js, hlist, htimers, hmem⟩ := call_spec hsent opens none howner nofun
    have hother : ∀ j, j ≠ i → (resent s i).1.mem j = s.mem j := by
      intro j hj
      rw [resent, sendTransaction_other hj, update_other hj]
    refine ⟨hinv, fun j hj hj' hlast => ?_, ?_⟩
    · rw [hlist] at hj
      rcases mem_append.mp hj with hj | hj
      · rw [hmem j hj] at hj' hlast ⊢
        have hji : j ≠ i ∧ j ∈ s.transactionsList := by
          rcases resent_list s i with ⟨hsame, hset, -⟩ | herase
          · refine ⟨fun hji => ?_, hsame ▸ hj⟩
            rw [hji] at hj'
            exact Bool.noConfusion (hset.symm.trans hj')
          · exact (h.owns.nodup.mem_erase_iff).mp (herase ▸ hj)
        rw [hother j hji.1] at hj' hlast ⊢
        exact hexpiring j hji.2 hj' hlast
      · rw [htimers j hj] at hj'
        cases hj'
    · rcases resent_list s i with ⟨hsame, -, hnone⟩ | herase
      · rw [hnone]
        exact .inl hsame
      · exact .inr ⟨js, by rw [hlist, herase], htimers⟩

/-! ### The walk along the list -/

theorem next_append {l t : List (Fin N)} (hnodup : (l ++ i :: t).Nodup) : next (l ++ i :: t) i = t.head? := by
  have hnot : ∀ a ∈ l, a ≠ i := by
    rintro a ha rfl
    exact (nodup_append.mp hnodup).2.2 a ha a mem_cons_self rfl
  rw [next, dropWhile_append_of_pos fun a ha => decide_eq_true (hnot a ha)]
  simp

theorem next_not_mem {l : List (Fin N)} (hi : i ∉ l) : next l i = none := by
  have hall : ∀ a ∈ l, decide (a ≠ i) = true := fun a ha => decide_eq_true fun heq => hi (heq ▸ ha)
  rw [next, dropWhile_eq_nil_iff.mpr hall]
  rfl

theorem checkLoop_quiet (opens : C → List (Opening C)) : ∀ (t l : List (Fin N)) (fuel : Nat),
    s.transactionsList = l ++ t → s.transactionsList.Nodup → (∀ j ∈ t, (s.mem j).retransTimer = true) →
      t.length ≤ fuel → checkLoop opens fuel s t.head? = some s
  | [], _, fuel, _, _, _, _ => by cases fuel <;> rfl
  | i :: t, l, 0, _, _, _, hfuel => absurd hfuel (Nat.not_succ_le_zero _)
  | i :: t, l, fuel + 1, hlist, hnodup, htimer, hfuel => by
    have hcheck : checkTransaction opens s i = s := if_pos (htimer i mem_cons_self)
    have hnext : next s.transactionsList i = t.head? := by
      rw [hlist] at hnodup ⊢
      exact next_append hnodup
    have ih := checkLoop_quiet opens t (l ++ [i]) fuel (by rw [hlist, append_assoc]; rfl) hnodup
      (fun j hj => htimer j (mem_cons_of_mem i hj)) (Nat.le_of_succ_le_succ hfuel)
    rw [head?_cons, checkLoop]
    rw [hcheck, hnext]
    exact ih

/-- TERMINATION: the walk ends, and keeps the invariant. A block that is closed and opened again is at the end of the
    list. -/
theorem checkLoop_spec (opens : C → List (Opening C)) : ∀ (t l : List (Fin N)) (s : State C N) (fuel : Nat),
    Inv s → Expiring s → s.transactionsList = l ++ t → t.length + N ≤ fuel →
      ∃ s', checkLoop opens fuel s t.head? = some s' ∧ Inv s'
  | [], _, s, fuel, h, _, _, _ => ⟨s, by cases fuel <;> rfl, h⟩
  | i :: t, l, s, 0, _, _, _, hfuel => by
    rw [length_cons] at hfuel
    omega
  | i :: t, l, s, fuel + 1, h, hexpiring, hlist, hfuel => by
    have hi : i ∈ s.transactionsList := by
      rw [hlist]
      exact mem_append_right _ mem_cons_self
    obtain ⟨hinv, hexpiring', hcases⟩ := checkTransaction_spec h hexpiring hi opens
    rw [length_cons] at hfuel
    rw [head?_cons, checkLoop]
    rcases hcases with hsame | ⟨js, herase, htimer⟩
    · have hlist' := hsame.trans hlist
      have hnodup := hinv.owns.nodup
      rw [hlist'] at hnodup
      rw [hlist', next_append hnodup]
      exact checkLoop_spec opens t (l ++ [i]) _ fuel hinv hexpiring' (by rw [hlist', append_assoc]; rfl) (by omega)
    · by_cases hagain : i ∈ js
      · obtain ⟨a, b, rfl⟩ := append_of_mem hagain
        have hlist' := herase.trans (append_assoc _ a (i :: b)).symm
        have hnodup := hinv.owns.nodup
        have hlength := hinv.owns.length_le
        rw [hlist'] at hnodup hlength
        rw [length_append, length_cons] at hlength
        refine ⟨_, ?_, hinv⟩
        rw [hlist', next_append hnodup]
        refine checkLoop_quiet opens b (s.transactionsList.erase i ++ a ++ [i]) fuel ?_ hinv.owns.nodup ?_ (by omega)
        · rw [hlist', append_assoc _ [i] b]
          rfl
        · intro j hj
          exact htimer j (mem_append_right _ (mem_cons_of_mem i hj))
      · have hgone : i ∉ (checkTransaction opens s i).transactionsList := by
          rw [herase, mem_append, h.owns.nodup.mem_erase_iff]
          rintro (hmem | hmem)
          · exact hmem.1 rfl
          · exact hagain hmem
        rw [next_not_mem hgone]
        exact ⟨_, by cases fuel <;> rfl, hinv⟩

theorem checkTransactions_spec (h : Inv s) (hexpiring : Expiring s) (opens : C → List (Opening C)) :
    ∃ s', checkTransactions opens s = some s' ∧ Inv s' := by
  have hlength := h.owns.length_le
  exact checkLoop_spec opens s.transactionsList [] s (2 * N) h hexpiring rfl (by omega)

/-- STEP: an event that belongs keeps the invariant. -/
theorem inv_step (s : State C N) (e : Event C N) (s' : State C N) (h : Inv s) (hbelongs : Belongs s e)
    (hstep : step s e = some s') : Inv s' := by
  cases e with
  | send o =>
    rw [step, some.injEq] at hstep
    rw [← hstep]
    exact (openTransaction_spec h o).1
  | receive src message service opens =>
    rw [step, some.injEq] at hstep
    rw [← hstep]
    cases message with
    | some m =>
      rw [receive]
      cases hrequest : m.isRequest with
      | true => exact h.receiveRequest src m service
      | false => exact h.receiveResponse (hbelongs hrequest) opens
    | none =>
      rw [receive]
      split
      next i hi => exact h.clear_peer (hbelongs i hi)
      · exact h
  | expire i =>
    rw [step, some.injEq] at hstep
    rw [← hstep]
    exact h.expire i
  | timer opens =>
    rw [step] at hstep
    obtain ⟨t, ht, hinv⟩ := checkTransactions_spec h hbelongs opens
    rw [ht, some.injEq] at hstep
    rw [← hstep]
    exact hinv

/-- PEERS: in every run of events that belong, a message closes a transaction and makes its callback run only if the
    transaction was opened to the one who sent it; no transaction is sent more than `COAP_MAX_RETRANSMIT + 1` times,
    no callback runs twice, and every block that is in use is on the list once. -/
theorem transactions_belong_to_peers {es : List (Event C N)} (hrun : Run step Belongs init es s) :
    (∀ n p q, .opened n p ∈ s.history → .opened n q ∈ s.history → p = q) ∧
    (∀ n p, .closed n (some p) ∈ s.history → .opened n p ∈ s.history) ∧
    (∀ n c p, .called n c (some p) ∈ s.history → .opened n p ∈ s.history) ∧
    (∀ n, sentTimes s.history n ≤ maxRetransmit.toNat + 1) ∧
    (∀ n, calledTimes s.history n ≤ 1) ∧
    ∀ i, s.transactionsMemb.count i ≠ 0 → s.transactionsList.count i = 1 := by
  have h : Inv s := hrun.invariant inv_step inv_init
  refine ⟨h.log.opened_once, h.log.closed_by, h.log.called_by, h.log.sent_le, h.log.called_le, fun i hi => ?_⟩
  have hcount := h.owns.count_eq i
  by_cases hmem : i ∈ s.transactionsList
  · exact count_eq_one_of_mem h.owns.nodup hmem
  · rw [if_neg hmem] at hcount
    exact absurd hcount hi

/-! ### A response from somebody else -/

def nodeA : Endpoint := ⟨fun _ => 0xA, 5683⟩
def nodeB : Endpoint := ⟨fun _ => 0xB, 5683⟩

/-- A confirmable request to node A with a callback, and the message that acknowledges it. -/
def requestToA : Opening Unit := ⟨none, nodeA, some (some ()), [0x40, 1, 0, 1]⟩
def acknowledgement : Option Message := some ⟨2, 0x45, 1⟩

def answers (src : Endpoint) : Event Unit 2 := .receive src acknowledgement ⟨[], none⟩ fun _ => []

/-- The timer runs out once, the request is sent again, and node A answers. -/
def answeredRun : List (Event Unit 2) := [.send requestToA, .expire ⟨0, Nat.two_pos⟩, .timer fun _ => [], answers nodeA]

theorem request_answered : ∃ s, Run step Belongs init answeredRun s ∧
    .called 0 () (some nodeA) ∈ s.history ∧ .opened 0 nodeA ∈ s.history ∧ sentTimes s.history 0 = 2 := by
  obtain ⟨s, hrun, hs⟩ : ∃ s, Run step Belongs init answeredRun s ∧
      decide (Entry.called 0 () (some nodeA) ∈ s.history ∧ sentTimes s.history 0 = 2) = true :=
    exists_run (fun s e => decide (Belongs s e)) (fun s => decide (_ ∈ s.history ∧ _))
      (fun _ _ h => of_decide_eq_true h) (by decide)
  obtain ⟨hcalled, hsent⟩ := of_decide_eq_true hs
  obtain ⟨-, -, hcalledBy, -⟩ := transactions_belong_to_peers hrun
  exact ⟨s, hrun, hcalled, hcalledBy 0 () nodeA hcalled, hsent⟩

/-- NODE B closes the transaction that was opened to node A, and its callback gets the message. -/
theorem response_of_another_accepted : ∃ s, Run step (fun _ _ => True) (init : State Unit 2)
    [.send requestToA, answers nodeB] s ∧ .closed 0 (some nodeB) ∈ s.history ∧
      .called 0 () (some nodeB) ∈ s.history ∧ .opened 0 nodeB ∉ s.history :=
  ⟨_, .cons trivial rfl (.cons trivial rfl (.nil _)), by decide, by decide, by decide⟩

end Transactions

end CSync.Coap
