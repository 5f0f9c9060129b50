import CSync.Rime.Runicast
import Mathlib.Data.List.InsertIdx

/-! What an acknowledgement says.

    While no acknowledgement is taken for another packet's, and no late report of the MAC layer times out a connection
    that is not transmitting, every send that returned non-zero is followed by exactly one callback, and `sent` runs only
    for a packet that its receiver has received. -/

namespace CSync.Runicast
open Lib List Function

variable {A : Type} [DecidableEq A]

/-- The send that a node is transmitting, from one entry to the next; `none` where an entry does not fit: a send during
    another, or a callback that is not the transmitted send's. -/
def follow (a : A) (tx : Option (A × Nat)) : Entry A → Option (Option (A × Nat))
  | .started b r m => if b = a then (if tx.isSome then none else some (some (r, m))) else some tx
  | .sent b r m | .timedout b r m => if b = a then (if tx = some (r, m) then some none else none) else some tx
  | .received _ _ _ => some tx

def transmitting (a : A) (log : List (Entry A)) : Option (Option (A × Nat)) := log.foldlM (follow a) none

theorem transmitting_concat (a : A) (log : List (Entry A)) (e : Entry A) :
    transmitting a (log ++ [e]) = (transmitting a log).bind fun tx => follow a tx e := by
  rw [transmitting, foldlM_append]
  refine congrArg (Option.bind _) (funext fun tx => ?_)
  rw [foldlM_cons]
  cases follow a tx e <;> rfl

/-- The send that a connection is transmitting. -/
def Conn.transmits (c : Conn A) : Option (A × Nat) :=
  if c.isTx then some (c.receiver, c.sends.length - 1) else none

/-- `sent` runs only behind the reception of the packet by its receiver, and at every node exactly one callback runs for
    a send, before the next. -/
structure Acknowledged (s : Net A) : Prop where
  answered : ∀ l l' a r m, s.log = l ++ .sent a r m :: l' → .received r a m ∈ l
  once : ∀ a, transmitting a s.log = some (s.conn a).transmits

/-- INVARIANT: what is in the air is what was sent and received. -/
structure Inv (s : Net A) : Prop extends Acknowledged s where
  sending : ∀ a, (s.conn a).isTx = true → (s.conn a).sends.getLast? = some (s.conn a).receiver
  buf : ∀ a p, (s.conn a).buf = some p → p.type = .data ∧ (s.conn a).sends.getLast? = some (s.conn a).receiver ∧
    p.number + 1 = (s.conn a).sends.length
  data : ∀ a r p, p ∈ s.link a r → p.type = .data → (s.conn a).sends[p.number]? = some r
  ack : ∀ r a p, p ∈ s.link r a → p.type = .ack →
    .received r a p.number ∈ s.log ∧ (s.conn a).sends[p.number]? = some r

omit [DecidableEq A] in
theorem getElem?_of_getLast? {l : List A} {r : A} {m : Nat} (h : l.getLast? = some r) (hm : m + 1 = l.length) :
    l[m]? = some r := by
  rw [getLast?_eq_getElem?, ← hm] at h
  exact h

namespace Net

variable (s : Net A) (a : A)

theorem conn_setConn (c : Conn A) (b : A) : (s.setConn a c).conn b = if b = a then c else s.conn b := by
  exact update_apply ..

theorem setConn_setConn (c c' : Conn A) : (s.setConn a c).setConn a c' = s.setConn a c' := by
  rw [setConn, setConn, setConn]
  rw [update_idem]

theorem cancel_setConn (c : Conn A) :
    (s.setConn a c).cancel a = s.setConn a { c with timer := false, buf := none } := by
  rw [cancel, setConn_setConn, conn_setConn, if_pos rfl]

theorem link_setLink (b : A) (l : List Packet) (x y : A) :
    (s.setLink a b l).link x y = if x = a ∧ y = b then l else s.link x y := by
  rw [setLink]
  dsimp only
  by_cases hx : x = a
  · subst hx
    rw [update_self, update_apply]
    simp only [true_and]
  · rw [update_of_ne hx, if_neg fun h => hx h.1]

end Net

namespace Inv

variable {s t : Net A}

/-- Nothing new: a connection keeps its sends, and at most loses its buffer; the links at most lose packets. -/
theorem frame (h : Inv s) (hlog : t.log = s.log) (hlink : ∀ a b, ∀ p ∈ t.link a b, p ∈ s.link a b)
    (hconn : ∀ a, (t.conn a).sends = (s.conn a).sends ∧ (t.conn a).receiver = (s.conn a).receiver ∧
      (t.conn a).isTx = (s.conn a).isTx ∧ ∀ p, (t.conn a).buf = some p → (s.conn a).buf = some p) : Inv t := by
  refine ⟨⟨?_, fun a => ?_⟩, fun a ha => ?_, fun a p hp => ?_, fun a r p hp hdata => ?_, fun r a p hp hack => ?_⟩
  · rw [hlog]
    exact h.answered
  · obtain ⟨hsends, hreceiver, htx, _⟩ := hconn a
    have hsame : (t.conn a).transmits = (s.conn a).transmits := by
      rw [Conn.transmits, htx, hreceiver, hsends, Conn.transmits]
    rw [hlog, hsame]
    exact h.once a
  · obtain ⟨hsends, hreceiver, htx, _⟩ := hconn a
    rw [hsends, hreceiver]
    exact h.sending a (htx ▸ ha)
  · obtain ⟨hsends, hreceiver, _, hbuf⟩ := hconn a
    rw [hsends, hreceiver]
    exact h.buf a p (hbuf p hp)
  · rw [(hconn a).1]
    exact h.data a r p (hlink a r p hp) hdata
  · rw [(hconn a).1, hlog]
    exact h.ack r a p (hlink r a p hp) hack

variable {c : Conn A} {p : Packet} {a : A}

theorem setConn (h : Inv s) (a : A) (hsends : c.sends = (s.conn a).sends)
    (hreceiver : c.receiver = (s.conn a).receiver) (htx : c.isTx = (s.conn a).isTx)
    (hbuf : ∀ p, c.buf = some p → (s.conn a).buf = some p) : Inv (s.setConn a c) := by
  refine h.frame rfl (fun _ _ _ hp => hp) fun b => ?_
  rw [Net.conn_setConn]
  split
  next heq =>
    subst heq
    exact ⟨hsends, hreceiver, htx, hbuf⟩
  · exact ⟨rfl, rfl, rfl, fun _ hp => hp⟩

theorem setLink (h : Inv s) (a b : A) {l : List Packet} (hl : ∀ p ∈ l, p ∈ s.link a b) : Inv (s.setLink a b l) := by
  refine h.frame rfl (fun x y p hp => ?_) fun _ => ⟨rfl, rfl, rfl, fun _ hp => hp⟩
  rw [Net.link_setLink] at hp
  split at hp
  next heq =>
    obtain ⟨rfl, rfl⟩ := heq
    exact hl p hp
  · exact hp

/-- A packet that was sent, or that answers one that was received. -/
theorem unicastSend (h : Inv s) (a b : A) (hdata : p.type = .data → (s.conn a).sends[p.number]? = some b)
    (hack : p.type = .ack → .received a b p.number ∈ s.log ∧ (s.conn b).sends[p.number]? = some a) :
    Inv (s.unicastSend a b p) := by
  have hlink : ∀ x y, ∀ p' ∈ (s.unicastSend a b p).link x y, p' ∈ s.link x y ∨ p' = p ∧ x = a ∧ y = b := by
    intro x y p' hp'
    rw [Net.unicastSend, Net.link_setLink] at hp'
    split at hp'
    next heq =>
      obtain ⟨rfl, rfl⟩ := heq
      rcases mem_append.mp hp' with hold | hnew
      · exact .inl hold
      · exact .inr ⟨mem_singleton.mp hnew, rfl, rfl⟩
    · exact .inl hp'
  have hreports := h.setConn a (c := { s.conn a with reports := (s.conn a).reports ++ [p] }) rfl rfl rfl fun _ hp => hp
  refine ⟨⟨hreports.answered, hreports.once⟩, hreports.sending, hreports.buf, fun x y p' hp' htype => ?_,
    fun y x p' hp' htype => ?_⟩
  · rcases hlink x y p' hp' with hold | ⟨rfl, rfl, rfl⟩
    · exact hreports.data x y p' hold htype
    · have hsends := hdata htype
      rw [Net.unicastSend, Net.setLink]
      rw [Net.conn_setConn, if_pos rfl]
      exact hsends
  · rcases hlink y x p' hp' with hold | ⟨rfl, rfl, rfl⟩
    · exact hreports.ack y x p' hold htype
    · obtain ⟨hreceived, hsends⟩ := hack htype
      refine ⟨hreceived, ?_⟩
      rw [Net.unicastSend, Net.setLink]
      rw [Net.conn_setConn]
      split
      next heq =>
        subst heq
        exact hsends
      · exact hsends

omit [DecidableEq A] in
theorem mem_answered {log l l' : List (Entry A)} {e : Entry A} {r : A} {m : Nat}
    (h : ∀ l l' a r m, log = l ++ .sent a r m :: l' → .received r a m ∈ l)
    (he : ∀ a r m, e = .sent a r m → .received r a m ∈ log) (heq : log ++ [e] = l ++ .sent a r m :: l') :
    .received r a m ∈ l := by
  rcases eq_nil_or_concat l' with hnil | ⟨l'', e', hconcat⟩
  · rw [hnil] at heq
    obtain ⟨hlog, hlast⟩ := append_inj' heq rfl
    rw [← hlog]
    exact he a r m (singleton_inj.mp hlast)
  · rw [hconcat, concat_eq_append, ← cons_append, ← append_assoc] at heq
    obtain ⟨hlog, _⟩ := append_inj' heq rfl
    exact h l l'' a r m hlog

section
variable (h : Inv s)
include h

/-- A reception. -/
theorem received (r a : A) (m : Nat) : Inv (s.write (.received r a m)) := by
  refine ⟨⟨fun l l' b x k heq => ?_, fun b => ?_⟩, h.sending, h.buf, h.data, fun x b p hp hack => ?_⟩
  · exact mem_answered h.answered (fun _ _ _ hno => (by cases hno)) heq
  · rw [Net.write, transmitting_concat, h.once b]
    rfl
  · obtain ⟨hreceived, hsends⟩ := h.ack x b p hp hack
    exact ⟨mem_append_left _ hreceived, hsends⟩

/-- A callback, while the node is transmitting. -/
theorem finish (htx : (s.conn a).isTx = true) (hsends : c.sends = (s.conn a).sends)
    (hoff : c.isTx = false) (hbuf : c.buf = none) {e : Entry A}
    (he : e = .timedout a (s.conn a).receiver (s.current a) ∨ e = .sent a (s.conn a).receiver (s.current a) ∧
      .received (s.conn a).receiver a (s.current a) ∈ s.log) : Inv ((s.setConn a c).write e) := by
  have hconn : ∀ b, b ≠ a → ((s.setConn a c).conn b) = s.conn b := by
    intro b hb
    rw [Net.conn_setConn, if_neg hb]
  have hself : (s.setConn a c).conn a = c := by
    rw [Net.conn_setConn, if_pos rfl]
  have hkeep : ∀ b, ((s.setConn a c).conn b).sends = (s.conn b).sends := by
    intro b
    by_cases hb : b = a
    · rw [hb, hself, hsends]
    · rw [hconn b hb]
  refine ⟨⟨fun l l' b x k heq => ?_, fun b => ?_⟩, fun b hb => ?_, fun b p hp => ?_, fun b r p hp hdata => ?_,
    fun r b p hp hack => ?_⟩
  · refine mem_answered h.answered (fun b x k hsent => ?_) heq
    rcases he with rfl | ⟨rfl, hreceived⟩
    · cases hsent
    · obtain ⟨rfl, rfl, rfl⟩ := Entry.sent.inj hsent
      exact hreceived
  · have hlast := transmitting_concat b s.log e
    rw [h.once b, Option.bind_some] at hlast
    refine hlast.trans ?_
    by_cases hb : b = a
    · subst hb
      have hidle : ((s.setConn b c).conn b).transmits = none := by
        rw [hself, Conn.transmits, hoff]
        rfl
      have hbusy : (s.conn b).transmits = some ((s.conn b).receiver, s.current b) := by
        rw [Conn.transmits, if_pos htx, Net.current]
      refine Eq.trans ?_ (congrArg some hidle.symm)
      rw [hbusy]
      rcases he with rfl | ⟨rfl, _⟩
      · rw [follow, if_pos rfl, if_pos rfl]
      · rw [follow, if_pos rfl, if_pos rfl]
    · refine Eq.trans ?_ (congrArg (fun c : Conn A => some c.transmits) (hconn b hb).symm)
      rcases he with rfl | ⟨rfl, _⟩
      · rw [follow, if_neg (Ne.symm hb)]
      · rw [follow, if_neg (Ne.symm hb)]
  · by_cases hba : b = a
    · subst hba
      have hon : ((s.setConn b c).conn b).isTx = true := hb
      rw [hself, hoff] at hon
      cases hon
    · have hold := h.sending b
      rw [← hconn b hba] at hold
      exact hold hb
  · by_cases hba : b = a
    · subst hba
      have hsome : ((s.setConn b c).conn b).buf = some p := hp
      rw [hself, hbuf] at hsome
      cases hsome
    · have hold := h.buf b p
      rw [← hconn b hba] at hold
      exact hold hp
  · have hold := h.data b r p hp hdata
    rw [← hkeep] at hold
    exact hold
  · obtain ⟨hreceived, hold⟩ := h.ack r b p hp hack
    rw [← hkeep] at hold
    exact ⟨mem_append_left _ hreceived, hold⟩

theorem started {r : A} (htx : (s.conn a).isTx = false) (hsends : c.sends = (s.conn a).sends ++ [r])
    (hreceiver : c.receiver = r) (hon : c.isTx = true) (hbuf : c.buf = some p) (hp : p.type = .data)
    (hnumber : p.number = (s.conn a).sends.length) :
    Inv ((s.setConn a c).write (.started a r (s.conn a).sends.length)) := by
  have hconn : ∀ b, b ≠ a → ((s.setConn a c).conn b) = s.conn b := by
    intro b hb
    rw [Net.conn_setConn, if_neg hb]
  have hself : (s.setConn a c).conn a = c := by
    rw [Net.conn_setConn, if_pos rfl]
  have hkeep : ∀ (b x : A) (k : Nat), (s.conn b).sends[k]? = some x → ((s.setConn a c).conn b).sends[k]? = some x := by
    intro b x k hk
    by_cases hb : b = a
    · subst hb
      obtain ⟨hlt, _⟩ := List.getElem?_eq_some_iff.mp hk
      rw [hself, hsends, getElem?_append_left hlt]
      exact hk
    · rw [hconn b hb]
      exact hk
  refine ⟨⟨fun l l' b x k heq => ?_, fun b => ?_⟩, fun b hb => ?_, fun b p' hp' => ?_, fun b x p' hp' hdata => ?_,
    fun x b p' hp' hack => ?_⟩
  · exact mem_answered h.answered (fun _ _ _ hno => (by cases hno)) heq
  · have hlast := transmitting_concat b s.log (.started a r (s.conn a).sends.length)
    rw [h.once b, Option.bind_some] at hlast
    refine hlast.trans ?_
    by_cases hb : b = a
    · subst hb
      have hbusy : ((s.setConn b c).conn b).transmits = some (r, (s.conn b).sends.length) := by
        rw [hself, Conn.transmits, hon, if_pos rfl, hreceiver, hsends, length_append]
        rfl
      refine Eq.trans ?_ (congrArg some hbusy.symm)
      rw [Conn.transmits, htx, follow, if_pos rfl]
      rfl
    · refine Eq.trans ?_ (congrArg (fun c : Conn A => some c.transmits) (hconn b hb).symm)
      rw [follow, if_neg (Ne.symm hb)]
  · by_cases hba : b = a
    · subst hba
      have hlast : ((s.setConn b c).conn b).sends.getLast? = some ((s.setConn b c).conn b).receiver := by
        rw [hself, hsends, hreceiver, getLast?_concat]
      exact hlast
    · have hold := h.sending b
      rw [← hconn b hba] at hold
      exact hold hb
  · by_cases hba : b = a
    · subst hba
      have hsome : ((s.setConn b c).conn b).buf = some p' := hp'
      rw [hself, hbuf] at hsome
      cases hsome
      have hlast : ((s.setConn b c).conn b).sends.getLast? = some ((s.setConn b c).conn b).receiver ∧
          p.number + 1 = ((s.setConn b c).conn b).sends.length := by
        rw [hself, hsends, hreceiver, getLast?_concat, length_append, hnumber]
        exact ⟨rfl, rfl⟩
      exact ⟨hp, hlast⟩
    · have hold := h.buf b p'
      rw [← hconn b hba] at hold
      exact hold hp'
  · exact hkeep b x _ (h.data b x p' hp' hdata)
  · obtain ⟨hreceived, hold⟩ := h.ack x b p' hp' hack
    exact ⟨mem_append_left _ hreceived, hkeep b x _ hold⟩

theorem runicastSend (a r : A) (maxRetransmissions : UInt8) (buffer : Bool) :
    Inv (s.runicastSend a r maxRetransmissions buffer) := by
  rw [Net.runicastSend]
  split
  · exact h
  next htx =>
    have hoff : (s.conn a).isTx = false := Bool.eq_false_iff.mpr htx
    split
    · have hstarted := h.started (r := r) hoff (c := { s.conn a with
        maxRxmit := maxRetransmissions, rxmit := 0, isTx := true
        buf := some ⟨.data, (s.conn a).sndnxt, (s.conn a).sends.length⟩, receiver := r, timer := true
        sends := (s.conn a).sends ++ [r] }) rfl rfl rfl rfl rfl rfl
      refine hstarted.unicastSend a r (fun _ => ?_) nofun
      rw [Net.write]
      rw [Net.conn_setConn, if_pos rfl]
      exact getElem?_concat_length
    · exact h.setConn a rfl rfl hoff.symm nofun

theorem resend (a : A) : Inv (s.resend a) := by
  rw [Net.resend]
  split
  next p hbuf =>
    obtain ⟨htype, hlast, hnumber⟩ := h.buf a p hbuf
    refine h.unicastSend a _ (fun _ => getElem?_of_getLast? hlast hnumber) fun hack => ?_
    rw [htype] at hack
    cases hack
  · exact h.setConn a rfl rfl rfl fun _ hp => hp

theorem sentByStunicast (a : A) (p : Packet) (again : Option (A × UInt8 × Bool)) (htx : p.type = .data →
    (s.conn a).maxRxmit ≤ (s.conn a).rxmit + 1 → (s.conn a).isTx = true) : Inv (s.sentByStunicast a p again) := by
  rw [Net.sentByStunicast]
  split
  next hdata =>
    dsimp only
    split
    next hmax =>
      have hfinish := h.finish (htx hdata hmax) (c := { s.conn a with
        rxmit := (s.conn a).rxmit + 1, isTx := false, timer := false, buf := none }) rfl rfl rfl (.inl rfl)
      have hcurrent : (s.setConn a { s.conn a with rxmit := (s.conn a).rxmit + 1 }).current a = s.current a := by
        rw [Net.current, Net.conn_setConn, if_pos rfl, Net.current]
      rw [Net.setConn_setConn, Net.cancel_setConn, hcurrent]
      have hagain : Inv (again.elim ((s.setConn a { s.conn a with
          rxmit := (s.conn a).rxmit + 1, isTx := false, timer := false, buf := none }).write
            (.timedout a (s.conn a).receiver (s.current a))) fun g => ((s.setConn a { s.conn a with
          rxmit := (s.conn a).rxmit + 1, isTx := false, timer := false, buf := none }).write
            (.timedout a (s.conn a).receiver (s.current a))).runicastSend a g.1 g.2.1 g.2.2) := by
        rcases again with _ | g
        · exact hfinish
        · exact hfinish.runicastSend a g.1 g.2.1 g.2.2
      exact hagain.setConn a rfl rfl rfl fun _ hp => hp
    · exact h.setConn a rfl rfl rfl fun _ hp => hp
  · exact h

/-- An acknowledgement is taken for the packet that it answers. -/
theorem recvFromStunicast (a src : A) (buffer : Bool)
    (hlinkAck : p.type = .ack → .received src a p.number ∈ s.log ∧ (s.conn a).sends[p.number]? = some src)
    (hlinkData : p.type = .data → (s.conn src).sends[p.number]? = some a)
    (hown :
      p.type = .ack → p.id = (s.conn a).sndnxt → (s.conn a).isTx = true ∧ p.number + 1 = (s.conn a).sends.length) :
    Inv (s.recvFromStunicast a src p buffer) := by
  rw [Net.recvFromStunicast]
  split
  next htype =>
    split
    next hid =>
      obtain ⟨htx, hnumber⟩ := hown htype hid
      obtain ⟨hreceived, hsends⟩ := hlinkAck htype
      have hreceiver : (s.conn a).receiver = src := by
        have hlast := h.sending a htx
        rw [getLast?_eq_getElem?, ← hnumber, Nat.add_sub_cancel, hsends] at hlast
        exact (Option.some.inj hlast).symm
      have hcurrent : s.current a = p.number := by
        rw [Net.current, ← hnumber, Nat.add_sub_cancel]
      rw [Net.cancel_setConn]
      have hanswered : Entry.received (s.conn a).receiver a (s.current a) ∈ s.log := by
        rw [hreceiver, hcurrent]
        exact hreceived
      exact h.finish htx (c := { s.conn a with
        sndnxt := ((s.conn a).sndnxt + 1) % 4, isTx := false, timer := false, buf := none }) rfl rfl rfl
        (.inr ⟨rfl, hanswered⟩)
    · exact h
  next htype =>
    have hreceived := h.received a src p.number
    split
    · refine hreceived.unicastSend a src nofun fun _ => ⟨?_, hlinkData htype⟩
      exact mem_append_right _ (mem_singleton.mpr rfl)
    · exact hreceived

end

end Inv

/-! ### Runs -/

/-- An acknowledgement with the identifier of the next packet arrives for the packet that is being transmitted only, and
    so does a report that makes a connection time out while one is. -/
def Meets (s : Net A) : Event A → Prop
  | .deliver src dst _ => ∀ p ∈ (s.link src dst).head?, p.type = .ack → p.id = (s.conn dst).sndnxt →
      (s.conn dst).isTx = true ∧ p.number + 1 = (s.conn dst).sends.length
  | .report a k _ => ∀ p ∈ (s.conn a).reports[k]?, p.type = .data →
      (s.conn a).maxRxmit ≤ (s.conn a).rxmit + 1 → (s.conn a).isTx = true
  | _ => True

instance decidableMeets (s : Net A) : (e : Event A) → Decidable (Meets s e)
  | .deliver src dst _ => inferInstanceAs (Decidable (∀ p ∈ (s.link src dst).head?, p.type = .ack →
      p.id = (s.conn dst).sndnxt → (s.conn dst).isTx = true ∧ p.number + 1 = (s.conn dst).sends.length))
  | .report a k _ => inferInstanceAs (Decidable (∀ p ∈ (s.conn a).reports[k]?, p.type = .data →
      (s.conn a).maxRxmit ≤ (s.conn a).rxmit + 1 → (s.conn a).isTx = true))
  | .send .. | .resend _ | .lose .. | .repeat .. => isTrue trivial

theorem Inv.step {s t : Net A} {e : Event A} (h : Inv s) (he : Meets s e) (ht : Runicast.step s e = some t) : Inv t := by
  cases e with
  | send a r maxRetransmissions buffer =>
    cases ht
    exact h.runicastSend a r maxRetransmissions buffer
  | resend a =>
    rw [Runicast.step] at ht
    split at ht
    · cases ht
      exact h.resend a
    · cases ht
  | report a k again =>
    obtain ⟨p, hp, rfl⟩ := Option.map_eq_some_iff.mp ht
    have hless := h.setConn a (c := { s.conn a with reports := (s.conn a).reports.eraseIdx k }) rfl rfl rfl fun _ hb => hb
    refine hless.sentByStunicast a p again ?_
    rw [Net.conn_setConn, if_pos rfl]
    exact he p hp
  | deliver src dst buffer =>
    rw [Runicast.step] at ht
    split at ht
    next p l hlink =>
      cases ht
      have hmem : p ∈ s.link src dst := by
        rw [hlink]
        exact mem_cons_self ..
      have hless := h.setLink src dst (l := l) fun q hq => (by rw [hlink]; exact mem_cons_of_mem _ hq)
      refine hless.recvFromStunicast dst src buffer (h.ack src dst p hmem) (h.data src dst p hmem) fun hack hid => ?_
      exact he p (by rw [hlink]; rfl) hack hid
    · cases ht
  | lose src dst k =>
    cases ht
    exact h.setLink src dst fun p hp => (eraseIdx_sublist ..).subset hp
  | «repeat» src dst k =>
    obtain ⟨p, hp, rfl⟩ := Option.map_eq_some_iff.mp ht
    refine h.setLink src dst fun q hq => ?_
    rcases eq_or_mem_of_mem_insertIdx hq with rfl | hold
    · exact mem_of_getElem? hp
    · exact hold

theorem inv_init (receiver : A) : Inv (init receiver) := by
  refine ⟨⟨fun l l' a r m heq => ?_, fun a => rfl⟩, nofun, nofun,
    nofun, nofun⟩
  have hnil := congrArg length heq
  rw [length_append, length_cons] at hnil
  exact absurd hnil.symm (Nat.succ_ne_zero _)

/-- An acknowledgement is not checked for its sender nor for a transmission, and neither is a late report. In
    every run in which the ones that are taken are for the packet that is being transmitted, reliable unicast is. -/
theorem runicast_acknowledged {receiver : A} {es : List (Event A)} {s : Net A}
    (hrun : Run step Meets (init receiver) es s) : Acknowledged s := by
  have hinv := hrun.invariant (fun s e t hs he ht => hs.step he ht) (inv_init receiver)
  exact hinv.toAcknowledged

/-- A packet is sent, received and acknowledged. -/
theorem runicast_acknowledged_pair : ∃ s : Net Bool, .sent true false 0 ∈ s.log ∧ Acknowledged s := by
  have hexists : ∃ s : Net Bool, Run step Meets (init true)
      [.send true false 4 true, .report true 0 none, .deliver true false true, .deliver false true true] s ∧
        s.log.contains (.sent true false 0) = true :=
    exists_run (fun s e => decide (Meets s e)) (fun s => s.log.contains (.sent true false 0))
      (fun _ _ => of_decide_eq_true) (by decide)
  obtain ⟨s, hrun, hs⟩ := hexists
  exact ⟨s, contains_iff_mem.mp hs, runicast_acknowledged hrun⟩

/-- The acknowledgement arrives before the MAC layer has reported the packet: `sent` runs, and then `timedout`. -/
theorem sent_and_timedout : ∃ s : Net Bool, Run step (fun _ _ => True) (init true) [.send true false 1 true, .deliver
    true false true, .deliver false true true, .report true 0 none] s ∧ ¬ Acknowledged s := by
  have hexists : ∃ s : Net Bool, Run step (fun _ _ => True) (init true)
      [.send true false 1 true, .deliver true false true, .deliver false true true, .report true 0 none] s ∧
        (transmitting true s.log).isNone = true :=
    exists_run (fun _ _ => true) (fun s : Net Bool => (transmitting true s.log).isNone) (fun _ _ _ => trivial) (by decide)
  obtain ⟨s, hrun, hs⟩ := hexists
  refine ⟨s, hrun, fun h => ?_⟩
  rw [h.once true] at hs
  cases hs

end CSync.Runicast
