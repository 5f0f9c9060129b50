import CSync.Coap.Transactions

/-! What CoAP transactions keep, over any calls.

    The blocks on the list are the ones that are in use. A transaction on the list was sent at most once more often
    than its counter says, and its callback has not run; both numbers are read off the history. Two things are
    missing in the code: a message is matched with a transaction by its id alone, and by a pointer that is left
    from the message before, not by its sender; and a block that is used again keeps the callback it had. -/

namespace CSync.Coap

namespace Transactions

open List Function

variable {C : Type} {N : Nat}

/-! ### Histories -/

/-- The transaction of an entry. -/
def Entry.number : Entry C → Nat
  | .opened n _ => n
  | .sent n _ _ => n
  | .closed n _ => n
  | .called n _ _ => n

def Entry.isSent (n : Nat) : Entry C → Bool
  | .sent m _ _ => m == n
  | _ => false

def Entry.isCalled (n : Nat) : Entry C → Bool
  | .called m _ _ => m == n
  | _ => false

/-- How often a transaction was sent, and how often its callback ran. -/
def sentTimes (h : List (Entry C)) (n : Nat) : Nat := h.countP (Entry.isSent n)
def calledTimes (h : List (Entry C)) (n : Nat) : Nat := h.countP (Entry.isCalled n)

@[simp] theorem sentTimes_append (h : List (Entry C)) (e : Entry C) (n : Nat) :
    sentTimes (h ++ [e]) n = sentTimes h n + if e.isSent n then 1 else 0 := by
  rw [sentTimes, countP_append, countP_singleton, sentTimes]

@[simp] theorem calledTimes_append (h : List (Entry C)) (e : Entry C) (n : Nat) :
    calledTimes (h ++ [e]) n = calledTimes h n + if e.isCalled n then 1 else 0 := by
  rw [calledTimes, countP_append, countP_singleton, calledTimes]

/-- A history in which the transactions below `k` were opened: no transaction is sent too often, no callback runs
    twice, and a message closes only what was opened to its sender, as it makes only callbacks of such transactions
    run. -/
structure Log (h : List (Entry C)) (k : Nat) : Prop where
  sent_le : ∀ n, sentTimes h n ≤ maxRetransmit.toNat + 1
  called_le : ∀ n, calledTimes h n ≤ 1
  number_lt : ∀ e ∈ h, e.number < k
  opened_once : ∀ n p q, .opened n p ∈ h → .opened n q ∈ h → p = q
  closed_by : ∀ n p, .closed n (some p) ∈ h → .opened n p ∈ h
  called_by : ∀ n c p, .called n c (some p) ∈ h → .opened n p ∈ h

variable {h : List (Entry C)} {k n : Nat}

theorem log_nil : Log ([] : List (Entry C)) 0 := by
  refine ⟨fun _ => Nat.zero_le _, fun _ => Nat.zero_le _, ?_, ?_, ?_, ?_⟩ <;> simp

namespace Log

section
variable (hlog : Log h k)
include hlog

theorem sentTimes_fresh : sentTimes h k = 0 := by
  refine countP_eq_zero.mpr fun e he => ?_
  cases e with
  | sent m p b =>
    have hlt : m < k := hlog.number_lt _ he
    simpa [Entry.isSent] using ne_of_lt hlt
  | _ => simp [Entry.isSent]

theorem calledTimes_fresh : calledTimes h k = 0 := by
  refine countP_eq_zero.mpr fun e he => ?_
  cases e with
  | called m c p =>
    have hlt : m < k := hlog.number_lt _ he
    simpa [Entry.isCalled] using ne_of_lt hlt
  | _ => simp [Entry.isCalled]

theorem append {e : Entry C} {k' : Nat} (hk : k ≤ k') (hnumber : e.number < k')
    (hsent : ∀ n, e.isSent n = true → sentTimes h n ≤ maxRetransmit.toNat)
    (hcalled : ∀ n, e.isCalled n = true → calledTimes h n = 0)
    (hopened : ∀ n p, e = .opened n p → ∀ q, .opened n q ∉ h)
    (hclosedBy : ∀ n p, e = .closed n (some p) → .opened n p ∈ h)
    (hcalledBy : ∀ n c p, e = .called n c (some p) → .opened n p ∈ h) : Log (h ++ [e]) k' := by
  refine ⟨fun n => ?_, fun n => ?_, fun e' he' => ?_, fun n p q hp hq => ?_, fun n p hp => ?_, fun n c p hp => ?_⟩
  · rw [sentTimes_append]
    split
    next hn => exact Nat.succ_le_succ (hsent n hn)
    · exact hlog.sent_le n
  · rw [calledTimes_append]
    split
    next hn => rw [hcalled n hn]
    · exact hlog.called_le n
  · rcases mem_append.mp he' with he' | he'
    · exact lt_of_lt_of_le (hlog.number_lt e' he') hk
    · rw [mem_singleton.mp he']
      exact hnumber
  · rw [mem_append, mem_singleton] at hp hq
    rcases hp with hp | hp <;> rcases hq with hq | hq
    · exact hlog.opened_once n p q hp hq
    · exact absurd hp (hopened n q hq.symm p)
    · exact absurd hq (hopened n p hp.symm q)
    · rw [← hp, Entry.opened.injEq] at hq
      exact hq.2.symm
  · rw [mem_append, mem_singleton] at hp
    refine mem_append_left _ ?_
    rcases hp with hp | hp
    · exact hlog.closed_by n p hp
    · exact hclosedBy n p hp.symm
  · rw [mem_append, mem_singleton] at hp
    refine mem_append_left _ ?_
    rcases hp with hp | hp
    · exact hlog.called_by n c p hp
    · exact hcalledBy n c p hp.symm

theorem opened (p : Endpoint) : Log (h ++ [.opened k p]) (k + 1) := by
  refine hlog.append (Nat.le_succ k) (Nat.lt_succ_self k) nofun nofun ?_ nofun nofun
  intro n q hq r hr
  -- the number is new
  rw [Entry.opened.injEq] at hq
  have hlt : n < k := hlog.number_lt _ hr
  exact absurd hq.1.symm (ne_of_lt hlt)

theorem sent (hn : n < k) (htimes : sentTimes h n ≤ maxRetransmit.toNat) (p : Endpoint)
    (b : List UInt8) : Log (h ++ [.sent n p b]) k := by
  refine hlog.append (le_refl k) hn ?_ nofun nofun nofun nofun
  intro m hm
  rw [Entry.isSent, beq_iff_eq] at hm
  rw [← hm]
  exact htimes

variable {sender : Option Endpoint}

theorem closed (hn : n < k)
    (hsender : ∀ p, sender = some p → .opened n p ∈ h) : Log (h ++ [.closed n sender]) k := by
  refine hlog.append (le_refl k) hn nofun nofun nofun ?_ nofun
  intro m p hm
  rw [Entry.closed.injEq] at hm
  rw [← hm.1]
  exact hsender p hm.2

theorem called (hn : n < k) (htimes : calledTimes h n = 0) (c : C)
    (hsender : ∀ p, sender = some p → .opened n p ∈ h) : Log (h ++ [.called n c sender]) k := by
  refine hlog.append (le_refl k) hn nofun ?_ nofun nofun ?_
  · intro m hm
    rw [Entry.isCalled, beq_iff_eq] at hm
    rw [← hm]
    exact htimes
  · intro m c' p hm
    rw [Entry.called.injEq] at hm
    rw [← hm.1]
    exact hsender p hm.2.2

end

end Log

/-! ### Blocks -/

/-- A transaction on the list, with what the history says of it. -/
structure Live (h : List (Entry C)) (t : Transaction C) : Prop where
  opened : .opened t.number t.peer ∈ h
  counter : t.retransCounter.toNat < maxRetransmit.toNat
  sent : sentTimes h t.number ≤ t.retransCounter.toNat + 1
  called : calledTimes h t.number = 0

/-- A transaction that is about to be sent. -/
structure Ready (h : List (Entry C)) (t : Transaction C) : Prop where
  opened : .opened t.number t.peer ∈ h
  counter : t.retransCounter.toNat ≤ maxRetransmit.toNat
  sent : sentTimes h t.number ≤ t.retransCounter.toNat
  called : calledTimes h t.number = 0

/-- The block of a transaction. -/
abbrev State.mem (s : State C N) (i : Fin N) : Transaction C := s.transactionsMemb.mem i

/-- What holds of all blocks and of the transactions but the one in block `i`. -/
structure Rest (s : State C N) (i : Fin N) : Prop where
  owns : s.transactionsMemb.Owns s.transactionsList
  log : Log s.history s.opened
  inj : ∀ a ∈ s.transactionsList, ∀ b ∈ s.transactionsList, (s.mem a).number = (s.mem b).number → a = b
  live : ∀ j ∈ s.transactionsList, j ≠ i → Live s.history (s.mem j)

/-- INVARIANT: the blocks in use are the ones on the list, each once, and they are live. -/
structure Inv (s : State C N) : Prop where
  owns : s.transactionsMemb.Owns s.transactionsList
  log : Log s.history s.opened
  inj : ∀ a ∈ s.transactionsList, ∀ b ∈ s.transactionsList, (s.mem a).number = (s.mem b).number → a = b
  live : ∀ j ∈ s.transactionsList, Live s.history (s.mem j)

variable {s s' s'' : State C N} {i : Fin N}

theorem inv_init : Inv (init : State C N) :=
  ⟨Lib.Pool.owns_init _, log_nil, nofun, nofun⟩

theorem Inv.rest (h : Inv s) (i : Fin N) : Rest s i := ⟨h.owns, h.log, h.inj, fun j hj _ => h.live j hj⟩

variable {h : List (Entry C)} {t : Transaction C} {j : Fin N} {f : Transaction C → Transaction C}

theorem Live.append (hlive : Live h t) (e : Entry C)
    (hsent : e.isSent t.number = false) (hcalled : e.isCalled t.number = false) : Live (h ++ [e]) t := by
  refine ⟨mem_append_left _ hlive.opened, hlive.counter, ?_, ?_⟩
  · rw [sentTimes_append, hsent]
    exact hlive.sent
  · rw [calledTimes_append, hcalled]
    exact hlive.called

theorem update_same (i : Fin N) (f : Transaction C → Transaction C) (s : State C N) :
    (update i f s).mem i = f (s.mem i) := update_self _ _ _

theorem update_other (hj : j ≠ i) (f : Transaction C → Transaction C) (s : State C N) :
    (update i f s).mem j = s.mem j := update_of_ne hj _ _

theorem Rest.update (h : Rest s i) (hf : ∀ t, (f t).number = t.number) : Rest (update i f s) i := by
  have hnumber : ∀ j, ((Transactions.update i f s).mem j).number = (s.mem j).number := by
    intro j
    by_cases hj : j = i
    · rw [hj, update_same, hf]
    · rw [update_other hj]
  refine ⟨h.owns.modify i f, h.log, fun a ha b hb hab => ?_, fun j hj hne => ?_⟩
  · rw [hnumber, hnumber] at hab
    exact h.inj a ha b hb hab
  · rw [update_other hne]
    exact h.live j hj hne

theorem clearTransaction_other (sender : Option Endpoint) (hj : j ≠ i) (s : State C N) :
    (clearTransaction sender i s).mem j = s.mem j := update_of_ne hj _ _

theorem clearTransaction_history (sender : Option Endpoint) (hi : i ∈ s.transactionsList) :
    (clearTransaction sender i s).history = s.history ++ [.closed (s.mem i).number sender] :=
  if_pos (contains_iff_mem.mpr hi)

/-- CLOSED: what is left when a transaction is closed. -/
theorem Rest.clear (h : Rest s i) (hopened : i ∈ s.transactionsList → ∃ p, .opened (s.mem i).number p ∈ s.history)
    (hsender : ∀ p, sender = some p → i ∈ s.transactionsList → .opened (s.mem i).number p ∈ s.history) :
    Inv (clearTransaction sender i s) := by
  by_cases hi : i ∈ s.transactionsList
  · have hne : ∀ j ∈ s.transactionsList.erase i, j ∈ s.transactionsList ∧ j ≠ i := by
      intro j hj
      have hmem := (h.owns.nodup.mem_erase_iff).mp hj
      exact ⟨hmem.2, hmem.1⟩
    have hhistory := clearTransaction_history sender hi
    obtain ⟨p, hp⟩ := hopened hi
    refine ⟨?_, ?_, ?_, ?_⟩
    · exact (h.owns.modify i _).free_erase (perm_cons_erase hi)
    · rw [hhistory]
      exact h.log.closed (h.log.number_lt _ hp) fun q hq => hsender q hq hi
    · intro a ha b hb hab
      obtain ⟨ha, hai⟩ := hne a ha
      obtain ⟨hb, hbi⟩ := hne b hb
      rw [clearTransaction_other sender hai, clearTransaction_other sender hbi] at hab
      exact h.inj a ha b hb hab
    · intro j hj
      obtain ⟨hj, hji⟩ := hne j hj
      rw [hhistory, clearTransaction_other sender hji]
      exact (h.live j hj hji).append _ rfl rfl
  · have hne : ∀ j ∈ s.transactionsList, j ≠ i := fun j hj hji => hi (hji ▸ hj)
    have hlist : (clearTransaction sender i s).transactionsList = s.transactionsList := erase_of_not_mem hi
    have hhistory : (clearTransaction sender i s).history = s.history := if_neg fun hc => hi (contains_iff_mem.mp hc)
    refine ⟨?_, ?_, ?_, ?_⟩
    · rw [hlist]
      refine ⟨h.owns.nodup, fun j => ?_⟩
      have hcount := h.owns.count_eq j
      by_cases hj : j = i
      · subst hj
        rw [if_neg hi] at hcount ⊢
        exact (update_self _ _ _).trans (by rw [Lib.Pool.modify_count, hcount])
      · exact (update_of_ne hj _ _).trans hcount
    · rw [hhistory]
      exact h.log
    · rw [hlist]
      intro a ha b hb hab
      rw [clearTransaction_other sender (hne a ha), clearTransaction_other sender (hne b hb)] at hab
      exact h.inj a ha b hb hab
    · rw [hlist, hhistory]
      intro j hj
      rw [clearTransaction_other sender (hne j hj)]
      exact h.live j hj (hne j hj)

/-! ### Sending -/

/-- No transaction with this number is open, and its callback has not run. -/
structure Silent (s : State C N) (n : Nat) : Prop where
  closed : ∀ j ∈ s.transactionsList, (s.mem j).number ≠ n
  called : calledTimes s.history n = 0
  opened : ∃ p, .opened n p ∈ s.history

theorem Live.ready (hlive : Live h t) (hsent : sentTimes h t.number ≤ t.retransCounter.toNat) : Ready h t :=
  ⟨hlive.opened, le_of_lt hlive.counter, hsent, hlive.called⟩

theorem Rest.silent (h : Rest s i) (hi : i ∈ s.transactionsList) {p : Endpoint}
    (hopened : .opened (s.mem i).number p ∈ s.history) (hcalled : calledTimes s.history (s.mem i).number = 0)
    (sender : Option Endpoint) : Silent (clearTransaction sender i s) (s.mem i).number := by
  have hhistory := clearTransaction_history sender hi
  refine ⟨fun j hj => ?_, ?_, p, ?_⟩
  · have hmem := (h.owns.nodup.mem_erase_iff).mp hj
    rw [clearTransaction_other sender hmem.1]
    exact fun heq => hmem.1 (h.inj j hmem.2 i hi heq)
  · rw [hhistory, calledTimes_append]
    exact hcalled
  · rw [hhistory]
    exact mem_append_left _ hopened

/-- The history with the message that is sent. -/
def logSent (i : Fin N) (s : State C N) : State C N :=
  { s with history := s.history ++ [.sent (s.mem i).number (s.mem i).peer (s.mem i).packet] }

theorem sendTransaction_eq (s : State C N) (i : Fin N) :
    sendTransaction s i =
      if confirmable (s.mem i).packet = true ∧ (s.mem i).retransCounter < maxRetransmit then
        (update i (fun t => { t with retransTimer := true }) (logSent i s), none) else
          (clearTransaction none i (logSent i s), if confirmable (s.mem i).packet = true then (s.mem i).callback else
            none) := by
  rw [sendTransaction]
  by_cases hcon : confirmable (s.mem i).packet = true
  · by_cases hcounter : (s.mem i).retransCounter < maxRetransmit
    · rw [if_pos hcon, if_pos hcounter, if_pos ⟨hcon, hcounter⟩]
      rfl
    · rw [if_pos hcon, if_neg hcounter, if_neg fun hboth => hcounter hboth.2, if_pos hcon]
      rfl
  · rw [if_neg hcon, if_neg fun hboth => hcon hboth.1, if_neg hcon]
    rfl

theorem Rest.logSent (h : Rest s i) (hi : i ∈ s.transactionsList) (hready : Ready s.history (s.mem i)) :
    Rest (logSent i s) i := by
  have hlt : (s.mem i).number < s.opened := h.log.number_lt _ hready.opened
  refine ⟨h.owns, h.log.sent hlt (hready.sent.trans hready.counter) _ _, h.inj, fun j hj hne => ?_⟩
  refine (h.live j hj hne).append _ (beq_eq_false_iff_ne.mpr fun heq => ?_) rfl
  exact hne (h.inj j hj i hi heq.symm)

theorem Ready.logSent (hready : Ready s.history (s.mem i)) :
    .opened (s.mem i).number (s.mem i).peer ∈ (logSent i s).history ∧
    sentTimes (Transactions.logSent i s).history (s.mem i).number ≤ (s.mem i).retransCounter.toNat + 1 ∧
    calledTimes (Transactions.logSent i s).history (s.mem i).number = 0 := by
  refine ⟨mem_append_left _ hready.opened, ?_, ?_⟩
  · rw [Transactions.logSent, sentTimes_append, Entry.isSent, beq_self_eq_true, if_pos rfl]
    exact Nat.succ_le_succ hready.sent
  · rw [Transactions.logSent, calledTimes_append]
    exact hready.called

/-- SENT: the transaction is kept, or closed with its callback to run. -/
theorem Rest.send (h : Rest s i) (hi : i ∈ s.transactionsList) (hready : Ready s.history (s.mem i)) :
    Inv (sendTransaction s i).1 := by
  have hrest := h.logSent hi hready
  obtain ⟨hopened, hsent, hcalled⟩ := hready.logSent
  rw [sendTransaction_eq]
  split
  next hkeep =>
    have hset := hrest.update (f := fun t => { t with retransTimer := true }) fun _ => rfl
    refine ⟨hset.owns, hset.log, hset.inj, fun j hj => ?_⟩
    by_cases hji : j = i
    · subst hji
      rw [update_same]
      exact ⟨hopened, hkeep.2, hsent, hcalled⟩
    · exact hset.live j hj hji
  · exact hrest.clear (fun _ => ⟨_, hopened⟩) nofun

theorem Rest.send_silent (h : Rest s i) (hi : i ∈ s.transactionsList) (hready : Ready s.history (s.mem i))
    (hcall : (sendTransaction s i).2 ≠ none) : Silent (sendTransaction s i).1 (s.mem i).number := by
  have hrest := h.logSent hi hready
  obtain ⟨hopened, -, hcalled⟩ := hready.logSent
  rw [sendTransaction_eq] at hcall ⊢
  split
  next hkeep =>
    rw [if_pos hkeep] at hcall
    exact absurd rfl hcall
  · exact hrest.silent hi hopened hcalled none

/-! ### Opening -/

/-- From `s` to `s'` transactions were opened: those on the list stay as they are, and the new ones wait for their
    timers. -/
structure Extends (s s' : State C N) : Prop where
  list : ∃ js, s'.transactionsList = s.transactionsList ++ js ∧ ∀ j ∈ js, (s'.mem j).retransTimer = true
  mem : ∀ j ∈ s.transactionsList, s'.mem j = s.mem j
  sent : ∀ n < s.opened, sentTimes s'.history n = sentTimes s.history n
  called : ∀ n < s.opened, calledTimes s'.history n = calledTimes s.history n
  opened : s.opened ≤ s'.opened

theorem Extends.refl (s : State C N) : Extends s s :=
  ⟨⟨[], (append_nil _).symm, nofun⟩, fun _ _ => rfl, fun _ _ => rfl, fun _ _ => rfl, le_refl _⟩

theorem Extends.trans (h : Extends s s') (h' : Extends s' s'') : Extends s s'' := by
  obtain ⟨js, hjs, htimer⟩ := h.list
  obtain ⟨ks, hks, htimer'⟩ := h'.list
  refine ⟨⟨js ++ ks, by rw [hks, hjs, append_assoc], fun j hj => ?_⟩, fun j hj => ?_, fun n hn => ?_,
    fun n hn => ?_, h.opened.trans h'.opened⟩
  · rcases mem_append.mp hj with hj | hj
    · rw [h'.mem j (by rw [hjs]; exact mem_append_right _ hj)]
      exact htimer j hj
    · exact htimer' j hj
  · rw [h'.mem j (by rw [hjs]; exact mem_append_left _ hj), h.mem j hj]
  · rw [h'.sent n (lt_of_lt_of_le hn h.opened), h.sent n hn]
  · rw [h'.called n (lt_of_lt_of_le hn h.opened), h.called n hn]

theorem Inv.number_lt (h : Inv s) (hi : i ∈ s.transactionsList) : (s.mem i).number < s.opened :=
  h.log.number_lt _ (h.live i hi).opened

/-- The state with a new transaction in block `i`. -/
def added (s : State C N) (i : Fin N) (mid : UInt16) (peer : Endpoint) : State C N :=
  { s with
    transactionsMemb := (s.transactionsMemb.take i).modify i fun t =>
      { t with mid := mid, retransCounter := 0, peer := peer, number := s.opened }
    transactionsList := s.transactionsList ++ [i]
    opened := s.opened + 1
    history := s.history ++ [.opened s.opened peer] }

theorem newTransaction_some (h : Inv s) (hi : s.transactionsMemb.freeBlock = some i) (mid : UInt16) (peer : Endpoint) :
    newTransaction s mid peer = (some i, added s i mid peer) := by
  rw [newTransaction, hi]
  dsimp only
  rw [erase_of_not_mem (h.owns.not_mem_of_free hi)]
  rfl

theorem newTransaction_none (hi : s.transactionsMemb.freeBlock = none) (mid : UInt16) (peer : Endpoint) :
    newTransaction s mid peer = (none, s) := by
  rw [newTransaction, hi]

section Added

variable {mid : UInt16} {peer : Endpoint}

theorem added_same (s : State C N) (i : Fin N) : (added s i mid peer).mem i =
    { s.mem i with mid := mid, retransCounter := 0, peer := peer, number := s.opened } := update_self _ _ _

theorem added_other {j : Fin N} (hj : j ≠ i) (s : State C N) : (added s i mid peer).mem j = s.mem j :=
  update_of_ne hj _ _

/-- NEW: the transaction is live, and was not sent yet. -/
theorem Inv.added (h : Inv s) (hi : s.transactionsMemb.freeBlock = some i) (mid : UInt16) (peer : Endpoint) : Inv
    (added s i mid peer) ∧ sentTimes (Transactions.added s i mid peer).history s.opened = 0 := by
  have hfree := h.owns.not_mem_of_free hi
  have hsent : sentTimes (Transactions.added s i mid peer).history s.opened = 0 := by
    rw [Transactions.added, sentTimes_append]
    exact h.log.sentTimes_fresh
  have hcalled : calledTimes (Transactions.added s i mid peer).history s.opened = 0 := by
    rw [Transactions.added, calledTimes_append]
    exact h.log.calledTimes_fresh
  have hnumber : ∀ a ∈ s.transactionsList, a ≠ i ∧ (s.mem a).number ≠ s.opened := by
    intro a ha
    exact ⟨fun hai => hfree (hai ▸ ha), ne_of_lt (h.number_lt ha)⟩
  refine ⟨⟨?_, h.log.opened peer, ?_, ?_⟩, hsent⟩
  · have howns := h.owns.take_insert hi (perm_append_singleton i s.transactionsList)
    exact ⟨howns.nodup, howns.count_eq⟩
  · intro a ha b hb hab
    rcases mem_append.mp ha with ha | ha <;> rcases mem_append.mp hb with hb | hb
    · rw [added_other (hnumber a ha).1, added_other (hnumber b hb).1] at hab
      exact h.inj a ha b hb hab
    · rw [mem_singleton.mp hb, added_other (hnumber a ha).1, added_same] at hab
      exact absurd hab (hnumber a ha).2
    · rw [mem_singleton.mp ha, added_other (hnumber b hb).1, added_same] at hab
      exact absurd hab.symm (hnumber b hb).2
    · rw [mem_singleton.mp ha, mem_singleton.mp hb]
  · intro j hj
    rcases mem_append.mp hj with hj | hj
    · rw [added_other (hnumber j hj).1]
      exact (h.live j hj).append _ rfl rfl
    · rw [mem_singleton.mp hj, added_same]
      have hcounter : (0 : UInt8).toNat < maxRetransmit.toNat := by decide
      have hbound := hsent.le.trans (Nat.zero_le ((0 : UInt8).toNat + 1))
      exact ⟨mem_append_right _ (mem_singleton_self _), hcounter, hbound, hcalled⟩

end Added

theorem getMid_inv (h : Inv s) : Inv (getMid s).2 := ⟨h.owns, h.log, h.inj, h.live⟩

theorem extends_getMid (s : State C N) : Extends s (getMid s).2 :=
  ⟨⟨[], (append_nil _).symm, nofun⟩, fun _ _ => rfl, fun _ _ => rfl, fun _ _ => rfl, le_refl _⟩

/-- The list and the blocks after a transaction is sent, as the others see them. -/
theorem sendTransaction_other (hj : j ≠ i) (s : State C N) : (sendTransaction s i).1.mem j = s.mem j := by
  rw [sendTransaction_eq]
  split
  · exact update_other hj _ _
  · exact clearTransaction_other _ hj _

theorem sendTransaction_opened (s : State C N) (i : Fin N) : (sendTransaction s i).1.opened = s.opened := by
  rw [sendTransaction_eq]
  split
  · rfl
  · rfl

theorem sendTransaction_sent (s : State C N) {n : Nat} (hn : n ≠ (s.mem i).number) :
    sentTimes (sendTransaction s i).1.history n = sentTimes s.history n := by
  have hlog : sentTimes (logSent i s).history n = sentTimes s.history n := by
    rw [logSent, sentTimes_append, Entry.isSent, beq_eq_false_iff_ne.mpr hn.symm]
    rfl
  rw [sendTransaction_eq]
  split
  · exact hlog
  · rw [clearTransaction]
    split
    · rw [sentTimes_append, hlog]
      rfl
    · exact hlog

theorem sendTransaction_called (s : State C N) (i : Fin N) (n : Nat) :
    calledTimes (sendTransaction s i).1.history n = calledTimes s.history n := by
  have hlog : calledTimes (logSent i s).history n = calledTimes s.history n := by
    rw [logSent, calledTimes_append]
    rfl
  rw [sendTransaction_eq]
  split
  · exact hlog
  · rw [clearTransaction]
    split
    · rw [calledTimes_append, hlog]
      rfl
    · exact hlog

theorem sendTransaction_list (s : State C N) (i : Fin N) : (sendTransaction s i).1.transactionsList =
    s.transactionsList ∧ ((sendTransaction s i).1.mem i).retransTimer = true ∧ (sendTransaction s i).2 = none ∨
    (sendTransaction s i).1.transactionsList = s.transactionsList.erase i := by
  rw [sendTransaction_eq]
  split
  · refine .inl ⟨rfl, ?_, rfl⟩
    rw [update_same]
  · exact .inr rfl

theorem draw_spec (h : Inv s) (o : Opening C) : Inv (o.draw s).2 ∧ Extends s (o.draw s).2 := by
  rw [Opening.draw]
  split
  · exact ⟨h, Extends.refl s⟩
  · exact ⟨getMid_inv h, extends_getMid s⟩

/-- A change of what is sent and called only. -/
def Kept (f : Transaction C → Transaction C) : Prop :=
  ∀ t, (f t).number = t.number ∧ (f t).peer = t.peer ∧ (f t).retransCounter = t.retransCounter

theorem prepare_kept (o : Opening C) : Kept (prepare o) := fun _ => ⟨rfl, rfl, rfl⟩

theorem Ready.of_kept (hf : Kept f) (hready : Ready h t) : Ready h (f t) := by
  obtain ⟨hnumber, hpeer, hcounter⟩ := hf t
  refine ⟨?_, ?_, ?_, ?_⟩
  · rw [hnumber, hpeer]
    exact hready.opened
  · rw [hcounter]
    exact hready.counter
  · rw [hnumber, hcounter]
    exact hready.sent
  · rw [hnumber]
    exact hready.called

theorem Inv.send_kept (h : Inv s) (hi : i ∈ s.transactionsList) (hready : Ready s.history (s.mem i))
    (hf : Kept f) : Inv (sendTransaction (update i f s) i).1 := by
  refine ((h.rest i).update fun t => (hf t).1).send hi ?_
  rw [update_same]
  exact hready.of_kept hf

theorem Inv.openBlock (h : Inv s) (hi : s.transactionsMemb.freeBlock = some i) (mid : UInt16) (peer : Endpoint)
    (hf : Kept f) : Inv (sendTransaction (update i f (Transactions.added s i mid peer)) i).1 ∧
      Extends s (sendTransaction (update i f (Transactions.added s i mid peer)) i).1 := by
  have hfree := h.owns.not_mem_of_free hi
  obtain ⟨hadded, hsent⟩ := h.added hi mid peer
  have hmem : i ∈ (Transactions.added s i mid peer).transactionsList := mem_append_right _ (mem_singleton_self i)
  have hnumber : ((update i f (Transactions.added s i mid peer)).mem i).number = s.opened := by
    rw [update_same, (hf _).1, added_same]
  have hready : Ready (Transactions.added s i mid peer).history ((Transactions.added s i mid peer).mem i) := by
    refine (hadded.live i hmem).ready ?_
    rw [added_same]
    exact hsent.le.trans (Nat.zero_le _)
  refine ⟨hadded.send_kept hmem hready hf, ?_, fun j hj => ?_, fun n hn => ?_, fun n hn => ?_, ?_⟩
  · rcases sendTransaction_list (update i f (Transactions.added s i mid peer)) i with ⟨hlist, htimer, -⟩ | hlist
    · refine ⟨[i], hlist, fun j hj => ?_⟩
      rw [mem_singleton.mp hj]
      exact htimer
    · refine ⟨[], hlist.trans ?_, nofun⟩
      have herase : (s.transactionsList ++ [i]).erase i = s.transactionsList ++ [i].erase i :=
        erase_append_right _ hfree
      rw [erase_cons_head] at herase
      exact herase
  · have hji : j ≠ i := fun hji => hfree (hji ▸ hj)
    rw [sendTransaction_other hji, update_other hji, added_other hji]
  · rw [sendTransaction_sent _ (by rw [hnumber]; exact ne_of_lt hn)]
    exact sentTimes_append _ _ _
  · rw [sendTransaction_called]
    exact calledTimes_append _ _ _
  · rw [sendTransaction_opened]
    exact Nat.le_succ _

/-- OPENED: a transaction in a free block, which is sent. -/
theorem openTransaction_spec (h : Inv s) (o : Opening C) :
    Inv (openTransaction s o) ∧ Extends s (openTransaction s o) := by
  obtain ⟨hinv, hext⟩ := draw_spec h o
  rw [openTransaction]
  cases hfree : (o.draw s).2.transactionsMemb.freeBlock with
  | none =>
    rw [newTransaction_none hfree]
    exact ⟨hinv, hext⟩
  | some i =>
    rw [newTransaction_some hinv hfree]
    obtain ⟨hsent, hext'⟩ := hinv.openBlock hfree (o.draw s).1 o.peer (prepare_kept o)
    exact ⟨hsent, hext.trans hext'⟩

theorem openAll_spec : ∀ {opens : List (Opening C)} {s : State C N}, Inv s →
    Inv (openAll s opens) ∧ Extends s (openAll s opens)
  | [], s, h => ⟨h, Extends.refl s⟩
  | o :: opens, s, h => by
    obtain ⟨hone, hext⟩ := openTransaction_spec h o
    obtain ⟨hall, hext'⟩ : Inv (openAll _ opens) ∧ Extends _ (openAll _ opens) := openAll_spec hone
    exact ⟨hall, hext.trans hext'⟩

/-- CALLED: a callback of a closed transaction runs, and opens others. -/
theorem call_spec (h : Inv s) (opens : C → List (Opening C)) {n : Nat} (sender : Option Endpoint)
    {callback : Option C} (hsilent : callback ≠ none → Silent s n)
    (hsender : ∀ p, sender = some p → callback ≠ none → .opened n p ∈ s.history) :
    Inv (call opens n sender callback s) ∧
    ∃ js,
      (call opens n sender callback s).transactionsList = s.transactionsList ++ js ∧
      (∀ j ∈ js, ((call opens n sender callback s).mem j).retransTimer = true) ∧
      ∀ j ∈ s.transactionsList, (call opens n sender callback s).mem j = s.mem j := by
  cases callback with
  | none => exact ⟨h, [], (append_nil _).symm, nofun, fun _ _ => rfl⟩
  | some c =>
    obtain ⟨hclosed, hcalled, p, hp⟩ := hsilent (Option.some_ne_none c)
    have hlog := h.log.called (h.log.number_lt _ hp) hcalled c fun q hq => hsender q hq (Option.some_ne_none c)
    have hlive : ∀ j ∈ s.transactionsList, Live (s.history ++ [.called n c sender]) (s.mem j) := by
      intro j hj
      exact (h.live j hj).append _ rfl (beq_eq_false_iff_ne.mpr (hclosed j hj).symm)
    have hinv : Inv { s with history := s.history ++ [.called n c sender] } := ⟨h.owns, hlog, h.inj, hlive⟩
    obtain ⟨hopened, hext⟩ : Inv (openAll _ (opens c)) ∧ Extends _ (openAll _ (opens c)) := openAll_spec hinv
    obtain ⟨js, hlist, htimer⟩ := hext.list
    exact ⟨hopened, js, hlist, htimer, hext.mem⟩

end Transactions

end CSync.Coap
