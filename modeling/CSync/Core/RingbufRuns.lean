import CSync.Core.Ringbuf
import Mathlib.Data.Nat.Bitwise

/-! Ring buffers under any interleaving.

    At every access the pointers of the code are those of a ring (`Abs`), whose list is what was accepted and is not yet
    delivered. The value that a side has read of the other's pointer may be stale, and errs on the safe side: the
    producer's count is at least the number of elements, the consumer's at most. -/

namespace CSync.Rings
open Lib List Function

variable {α : Type} {n : Nat}

/-! ### The pointers -/

variable {mask : UInt8} {k : Nat} {t : State α}

theorem toNat_and_mask {x : UInt8} (hmask : mask.toNat + 1 = 2 ^ k) : (x &&& mask).toNat = x.toNat % 2 ^ k := by
  have hval : mask.toNat = 2 ^ k - 1 := by omega
  rw [UInt8.toNat_and, hval, Nat.and_two_pow_sub_one_eq_mod]

theorem pow_dvd (hk : k ≤ 7) : 2 ^ k ∣ 256 := Nat.pow_dvd_pow 2 (by omega : k ≤ 8)

variable {p g : UInt8}

theorem toNat_difference (hk : k ≤ 7) (hmask : mask.toNat + 1 = 2 ^ k)
    (hg : g.toNat < 2 ^ k) : (difference mask p g).toNat = (p.toNat + 2 ^ k - g.toNat) % 2 ^ k := by
  obtain ⟨m, hm⟩ := pow_dvd hk
  have hpos : 0 < m := by
    rcases m with _ | m
    · omega
    · exact Nat.succ_pos m
  rw [difference, toNat_and_mask hmask, UInt8.toNat_sub, Nat.mod_mod_of_dvd _ (pow_dvd hk)]
  obtain ⟨j, rfl⟩ := Nat.exists_eq_succ_of_ne_zero hpos.ne'
  have hsum : 2 ^ 8 - g.toNat + p.toNat = p.toNat + 2 ^ k - g.toNat + 2 ^ k * j := by
    rw [Nat.mul_succ] at hm
    omega
  rw [hsum, Nat.add_mul_mod_self_left]

theorem toNat_following {p : UInt8} (hk : k ≤ 7) (hmask : mask.toNat + 1 = 2 ^ k) :
    (following mask p).toNat = (p.toNat + 1) % 2 ^ k := by
  rw [following, toNat_and_mask hmask, UInt8.toNat_add, UInt8.toNat_one, Nat.mod_mod_of_dvd _ (pow_dvd hk)]

/-- The ring that a buffer is. -/
structure Abs (n : Nat) (r : Ringbuf α) (q : Ring n α) : Prop where
  size : ∃ k ≤ 7, n = 2 ^ k
  mask : r.mask.toNat + 1 = n
  put : r.putPtr.toNat = q.put.val
  get : r.getPtr.toNat = q.get.val
  array : ∀ i : Fin n, q.array i = r.data (UInt8.ofNat i.val)

namespace Abs

variable {r : Ringbuf α} {q : Ring n α}

section
variable (h : Abs n r q)
include h

theorem data_eq {p : UInt8} {i : Fin n} (hp : p.toNat = i.val) : r.data p = q.array i := by
  rw [h.array, ← hp, UInt8.ofNat_toNat]

theorem difference_eq : (difference r.mask r.putPtr r.getPtr).toNat = q.elements := by
  obtain ⟨k, hk, rfl⟩ := h.size
  rw [toNat_difference hk h.mask (h.get ▸ q.get.isLt), Ring.elements, h.put, h.get]

theorem following_eq {p : UInt8} {i : Fin n} (hp : p.toNat = i.val) :
    (following r.mask p).toNat = (Ring.next i).val := by
  obtain ⟨k, hk, rfl⟩ := h.size
  rw [toNat_following hk h.mask, hp, Ring.next]

theorem contents_eq : r.contents = q.toList := by
  rw [Ringbuf.contents, Ring.toList, h.difference_eq]
  refine map_congr_left fun i hi => h.data_eq ?_
  obtain ⟨k, hk, rfl⟩ := h.size
  rw [toNat_and_mask h.mask, UInt8.toNat_add, h.get, UInt8.toNat_ofNat', Nat.mod_mod_of_dvd _ (pow_dvd hk),
    Ring.place]
  rw [Nat.add_mod, Nat.mod_mod_of_dvd _ (pow_dvd hk), ← Nat.add_mod]

/-- The element is written where `put_ptr` stands. -/
theorem store (a : α) : Abs n { r with data := update r.data r.putPtr a } (q.store q.put a) := by
  refine ⟨h.size, h.mask, h.put, h.get, fun i => ?_⟩
  by_cases hi : i = q.put
  · subst hi
    have hptr : UInt8.ofNat q.put.val = r.putPtr := by rw [← h.put, UInt8.ofNat_toNat]
    dsimp only
    rw [hptr, update_self]
    exact update_self ..
  · have hne : UInt8.ofNat i.val ≠ r.putPtr := by
      intro heq
      have hval := congrArg UInt8.toNat heq
      have hlt : i.val < 256 := by
        have hmask := h.mask
        have hbyte := r.mask.toNat_lt
        omega
      rw [UInt8.toNat_ofNat', Nat.mod_eq_of_lt hlt, h.put] at hval
      exact hi (Fin.ext hval)
    dsimp only
    rw [update_of_ne hne, ← h.array i]
    exact update_of_ne hi ..

theorem advance (hroom : q.elements < n - 1) :
    Abs n { r with putPtr := following r.mask r.putPtr } q.advance := by
  rw [Ring.advance, if_neg hroom.ne]
  exact ⟨h.size, h.mask, h.following_eq h.put, h.get, h.array⟩

theorem drop (hstock : 0 < q.elements) :
    Abs n { r with getPtr := following r.mask r.getPtr } q.drop := by
  rw [Ring.drop, if_pos hstock]
  exact ⟨h.size, h.mask, h.put, h.following_eq h.get, h.array⟩

end

end Abs

/-! ### The two sides -/

/-- The producer has seen room, with `m` elements in the ring. -/
structure Room (n m seen : Nat) : Prop where
  stale : m ≤ seen
  below : seen < n - 1

/-- The consumer has seen an element. -/
structure Stock (m seen : Nat) : Prop where
  some : 0 < seen
  stale : seen ≤ m

theorem Room.lt {m seen : Nat} (h : Room n m seen) : m < n - 1 := h.stale.trans_lt h.below

theorem Stock.pos {m seen : Nat} (h : Stock m seen) : 0 < m := h.some.trans_le h.stale

/-- What the producer goes by, with `m` elements in the ring. -/
def ProducerOk (n : Nat) (r : Ringbuf α) (m : Nat) : Producer α → Prop
  | .idle => True
  | .check _ p g => (∀ p', p = some p' → p' = r.putPtr) ∧
      ∀ g', g = some g' → (difference r.mask r.putPtr g'.1).toNat = g'.2 ∧ m ≤ g'.2
  | .store _ seen => Room n m seen
  | .storeAt _ p seen => p = r.putPtr ∧ Room n m seen
  | .bump c seen => (∀ a, c = some a → r.data r.putPtr = a) ∧ Room n m seen
  | .bumpTo c p seen => p = r.putPtr ∧ (∀ a, c = some a → r.data r.putPtr = a) ∧ Room n m seen
  | .peek seen => Room n m seen

/-- What is taken is the oldest element. -/
def TakenOk (r : Ringbuf α) (taken : Taken α) : Prop :=
  r.taken taken = r.data r.getPtr ∧ ∀ i, taken.gotten = some i → i = r.getPtr

/-- What the consumer goes by. -/
def ConsumerOk (r : Ringbuf α) (m : Nat) : Consumer α → Prop
  | .idle => True
  | .check _ p g => (∀ g', g = some g' → g' = r.getPtr) ∧
      ∀ p', p = some p' → (difference r.mask p'.1 r.getPtr).toNat = p'.2 ∧ p'.2 ≤ m
  | .load seen => Stock m seen
  | .loadAt g seen => g = r.getPtr ∧ Stock m seen
  | .index seen => Stock m seen
  | .bump taken seen => TakenOk r taken ∧ Stock m seen
  | .bumpTo taken g seen => g = r.getPtr ∧ TakenOk r taken ∧ Stock m seen
  | .peek seen => Stock m seen

/-- What an answer should be, where `all` are the elements from the start on. -/
def Answer.Right (n : Nat) (all : List α) : Answer α → Prop
  | .accept ok held => ok = true ↔ held < n - 1
  | .supply ok held => ok = true ↔ 0 < held
  | .elements m held => m.toNat = held
  | .read a number => all[number]? = some a

/-- INVARIANT: between any two accesses. -/
structure Inv (n : Nat) (q : Ring n α) (s : State α) : Prop where
  abs : Abs n s.ring q
  account : s.delivered ++ q.toList = s.initial ++ s.accepted
  producer : ProducerOk n s.ring q.elements s.producer
  consumer : ConsumerOk s.ring q.elements s.consumer
  peekedPut : ∀ p, s.peekedPut = some p → p = s.ring.putPtr ∧ q.elements < n - 1
  peekedGet : ∀ g, s.peekedGet = some g → g = s.ring.getPtr ∧ 0 < q.elements
  gotten : ∀ i, s.gotten = some i → i.toNat < n ∧ following s.ring.mask i = s.ring.getPtr ∧
    s.delivered.getLast? = some (s.ring.data i)
  answers : ∀ a ∈ s.answers, a.Right n (s.initial ++ s.accepted)

namespace Inv

variable {q : Ring n α} {s : State α}

section
variable (h : Inv n q s)
include h

theorem held_eq : s.held = q.elements := by
  have hlen := congrArg length h.account
  rw [length_append, length_append, Ring.length_toList] at hlen
  rw [State.held]
  omega

theorem answer {a : Answer α} (ha : a.Right n (s.initial ++ s.accepted)) : Inv n q (s.answer a) := by
  refine ⟨h.abs, h.account, h.producer, h.consumer, h.peekedPut, h.peekedGet, h.gotten, fun b hb => ?_⟩
  rcases mem_append.mp hb with hold | hnew
  · exact h.answers b hold
  · obtain rfl := mem_singleton.mp hnew
    exact ha

theorem toProducer {p : Producer α} (hp : ProducerOk n s.ring q.elements p) : Inv n q { s with producer := p } :=
  ⟨h.abs, h.account, hp, h.consumer, h.peekedPut, h.peekedGet, h.gotten, h.answers⟩

theorem toConsumer {c : Consumer α} (hc : ConsumerOk s.ring q.elements c) : Inv n q { s with consumer := c } :=
  ⟨h.abs, h.account, h.producer, hc, h.peekedPut, h.peekedGet, h.gotten, h.answers⟩

theorem getPtr_ne_putPtr (hstock : 0 < q.elements) : s.ring.getPtr ≠ s.ring.putPtr := by
  intro heq
  have hval := h.abs.get.symm.trans ((congrArg UInt8.toNat heq).trans h.abs.put)
  refine Ring.place_ne_put hstock (Fin.ext ?_)
  rw [← hval, Ring.place]
  exact Nat.mod_eq_of_lt q.get.isLt

theorem gotten_ne_putPtr (hroom : q.elements < n - 1) {i : UInt8} (hi : s.gotten = some i) :
    i ≠ s.ring.putPtr := by
  obtain ⟨hlt, hnext, _⟩ := h.gotten i hi
  intro heq
  have hfollow := h.abs.following_eq (p := i) (i := ⟨i.toNat, hlt⟩) rfl
  refine Ring.ne_put_of_next (i := ⟨i.toNat, hlt⟩) (Fin.ext ?_) hroom.ne (Fin.ext ?_)
  · rw [← hfollow, hnext, h.abs.get]
  · rw [← h.abs.put, ← heq]

end

/-! ### The accesses of the producer -/

variable {seen : Nat}

theorem decidePut (h : Inv n q s) (call : PutCall α) (hp : p = s.ring.putPtr)
    (hseen : (difference s.ring.mask s.ring.putPtr g).toNat = seen) (hstale : q.elements ≤ seen) :
    Inv n q (s.decidePut call p g seen) := by
  subst hp
  have hle : seen ≤ n - 1 := by
    obtain ⟨k, hk, hn⟩ := h.abs.size
    have hmask := h.abs.mask
    have hmod : (difference s.ring.mask s.ring.putPtr g).toNat < 2 ^ k := by
      rw [difference, toNat_and_mask (hmask.trans hn)]
      exact Nat.mod_lt _ (Nat.two_pow_pos k)
    omega
  have hfull : difference s.ring.mask s.ring.putPtr g = s.ring.mask ↔ seen = n - 1 := by
    have hmask := h.abs.mask
    rw [← UInt8.toNat_inj, hseen]
    omega
  have hroom : difference s.ring.mask s.ring.putPtr g ≠ s.ring.mask → Room n q.elements seen := fun hno =>
    ⟨hstale, by have hne := mt hfull.mpr hno; omega⟩
  have hrefuse : difference s.ring.mask s.ring.putPtr g = s.ring.mask →
      (Answer.accept false seen : Answer α).Right n (s.initial ++ s.accepted) := by
    intro hyes
    have heq := hfull.mp hyes
    refine ⟨nofun, fun hlt => ?_⟩
    omega
  cases call with
  | put c =>
    dsimp only [State.decidePut]
    split
    · exact (h.toProducer (p := .idle) trivial).answer (hrefuse ‹_›)
    · exact h.toProducer (p := .store c seen) (hroom ‹_›)
  | indexPut =>
    dsimp only [State.decidePut]
    split
    · exact (h.toProducer (p := .idle) trivial).answer (hrefuse ‹_›)
    · exact h.toProducer (p := .bump none seen) ⟨nofun, hroom ‹_›⟩
  | peekPut =>
    dsimp only [State.decidePut]
    split
    · have hidle : Inv n q { s with producer := .idle, peekedPut := none } :=
        ⟨h.abs, h.account, trivial, h.consumer, nofun, h.peekedGet, h.gotten, h.answers⟩
      exact hidle.answer (hrefuse ‹_›)
    · exact h.toProducer (p := .peek seen) (hroom ‹_›)
  | elements => exact (h.toProducer (p := .idle) trivial).answer (a := .elements _ seen) hseen

/-- The array is written where `put_ptr` stands, while there is room. -/
theorem store (h : Inv n q s) (hroom : q.elements < n - 1) (a : α) {p : Producer α}
    (hp : ProducerOk n { s.ring with data := update s.ring.data s.ring.putPtr a } q.elements p) :
    Inv n (q.store q.put a) { s with
      producer := p
      ring := { s.ring with data := update s.ring.data s.ring.putPtr a } } := by
  have hkeep : ∀ i, i ≠ s.ring.putPtr → update s.ring.data s.ring.putPtr a i = s.ring.data i :=
    fun i hi => update_of_ne hi ..
  have htaken : ∀ taken, TakenOk s.ring taken → 0 < q.elements →
      TakenOk { s.ring with data := update s.ring.data s.ring.putPtr a } taken := by
    rintro taken ⟨hvalue, hindex⟩ hpos
    have hget := hkeep _ (h.getPtr_ne_putPtr hpos)
    refine ⟨?_, hindex⟩
    cases taken with
    | byte c => exact hvalue.trans hget.symm
    | index i =>
      obtain rfl := hindex i rfl
      rfl
  refine ⟨h.abs.store a, ?_, ?_, ?_, h.peekedPut, h.peekedGet, fun i hi => ?_, h.answers⟩
  · rw [Ring.toList_store_put]
    exact h.account
  · exact hp
  · have hc := h.consumer
    cases hcons : s.consumer with
    | bump taken seen =>
      rw [hcons] at hc
      exact ⟨htaken taken hc.1 hc.2.pos, hc.2⟩
    | bumpTo taken g seen =>
      rw [hcons] at hc
      exact ⟨hc.1, htaken taken hc.2.1 hc.2.2.pos, hc.2.2⟩
    | _ =>
      rw [hcons] at hc
      exact hc
  · obtain ⟨hlt, hnext, hlast⟩ := h.gotten i hi
    refine ⟨hlt, hnext, ?_⟩
    dsimp only
    rw [hkeep i (h.gotten_ne_putPtr hroom hi)]
    exact hlast

/-- What is read of the ring right stays so when more is accepted. -/
theorem right_append {a : Answer α} {all : List α} (h : a.Right n all) (l : List α) : a.Right n (all ++ l) := by
  cases a with
  | read a number =>
    obtain ⟨hlt, _⟩ := List.getElem?_eq_some_iff.mp h
    exact (getElem?_append_left hlt).trans h
  | _ => exact h

theorem put (h : Inv n q s) (hroom : Room n q.elements seen) {a : α}
    (ha : s.ring.data s.ring.putPtr = a) : Inv n q.advance { s with
      producer := .idle
      peekedPut := none
      ring := { s.ring with putPtr := following s.ring.mask s.ring.putPtr }
      accepted := s.accepted ++ [a] } := by
  have hlt := hroom.lt
  have hself : q.store q.put a = q := by
    have harray : update q.array q.put a = q.array := by
      rw [← ha, h.abs.data_eq h.abs.put, update_eq_self]
    rw [Ring.store, harray]
  have hlist : q.advance.toList = q.toList ++ [a] := by
    have hput := Ring.toList_put hlt.ne a
    rw [hself] at hput
    exact hput
  have hcount : q.advance.elements = q.elements + 1 := by
    have hlen := congrArg length hlist
    rw [Ring.length_toList, length_append, Ring.length_toList] at hlen
    exact hlen
  refine ⟨h.abs.advance hlt, ?_, trivial, ?_, by rintro _ ⟨⟩, fun g hg => ?_, h.gotten, ?_⟩
  · dsimp only
    rw [hlist, ← append_assoc, h.account, append_assoc]
  · have hmore : ∀ {seen : Nat}, Stock q.elements seen → Stock q.advance.elements seen :=
      fun hs => ⟨hs.some, by rw [hcount]; exact hs.stale.trans (Nat.le_succ _)⟩
    have hc := h.consumer
    cases hcons : s.consumer with
    | idle => trivial
    | check call p g =>
      rw [hcons] at hc
      refine ⟨hc.1, fun p' hp' => ?_⟩
      obtain ⟨hdiff, hle⟩ := hc.2 p' hp'
      exact ⟨hdiff, by rw [hcount]; exact hle.trans (Nat.le_succ _)⟩
    | load seen | index seen | peek seen =>
      rw [hcons] at hc
      exact hmore hc
    | loadAt g seen | bump taken seen =>
      rw [hcons] at hc
      exact ⟨hc.1, hmore hc.2⟩
    | bumpTo taken g seen =>
      rw [hcons] at hc
      exact ⟨hc.1, hc.2.1, hmore hc.2.2⟩
  · obtain ⟨hg', hpos⟩ := h.peekedGet g hg
    exact ⟨hg', by rw [hcount]; exact Nat.succ_pos _⟩
  · intro b hb
    rw [← append_assoc]
    exact right_append (h.answers b hb) _

variable {t : State α}

section
variable (h : Inv n q s)
include h

/-- STEP: an access of the producer. -/
theorem produce (getFirst : Bool) (ht : s.produce getFirst = some t) : ∃ q', Inv n q' t := by
  have hp := h.producer
  have hread : (difference s.ring.mask s.ring.putPtr s.ring.getPtr).toNat = s.held ∧ q.elements ≤ s.held := by
    rw [h.held_eq, h.abs.difference_eq]
    exact ⟨rfl, le_refl _⟩
  rw [State.produce] at ht
  cases hprod : s.producer with
  | idle =>
    rw [hprod] at ht
    cases ht
  | check call p g =>
    rw [hprod] at ht hp
    obtain ⟨hown, hother⟩ := hp
    rcases p with _ | p
    · rcases g with _ | g
      · cases ht
        refine ⟨q, h.toProducer ?_⟩
        split
        · exact ⟨nofun, fun g' hg' => by cases hg'; exact hread⟩
        · exact ⟨fun p' hp' => (Option.some.inj hp').symm, nofun⟩
      · cases ht
        exact ⟨q, h.toProducer ⟨fun p' hp' => (Option.some.inj hp').symm, hother⟩⟩
    · rcases g with _ | g
      · cases ht
        exact ⟨q, h.toProducer ⟨hown, fun g' hg' => by cases hg'; exact hread⟩⟩
      · cases ht
        obtain ⟨hseen, hstale⟩ := hother g rfl
        exact ⟨q, h.decidePut call (hown p rfl) hseen hstale⟩
  | store c seen =>
    rw [hprod] at ht hp
    cases ht
    exact ⟨q, h.toProducer ⟨rfl, hp⟩⟩
  | storeAt c p seen =>
    rw [hprod] at ht hp
    cases ht
    obtain ⟨rfl, hroom⟩ := hp
    refine ⟨_, h.store hroom.lt c ⟨fun a ha => ?_, hroom⟩⟩
    cases ha
    exact update_self ..
  | bump c seen =>
    rw [hprod] at ht hp
    cases ht
    exact ⟨q, h.toProducer ⟨rfl, hp⟩⟩
  | bumpTo c p seen =>
    rw [hprod] at ht hp
    cases ht
    obtain ⟨rfl, hc, hroom⟩ := hp
    refine ⟨_, (h.put hroom ?_).answer ⟨fun _ => hroom.below, fun _ => rfl⟩⟩
    rcases c with _ | c
    · rfl
    · exact hc c rfl
  | peek seen =>
    rw [hprod] at ht hp
    cases ht
    have hidle : Inv n q { s with producer := .idle, peekedPut := some s.ring.putPtr } :=
      ⟨h.abs, h.account, trivial, h.consumer, fun p hp' => ⟨(Option.some.inj hp').symm, hp.lt⟩, h.peekedGet, h.gotten,
        h.answers⟩
    exact ⟨q, hidle.answer ⟨fun _ => hp.below, fun _ => rfl⟩⟩

theorem decideGet (call : GetCall) (hg : g = s.ring.getPtr)
    (hseen : (difference s.ring.mask p s.ring.getPtr).toNat = seen) (hstale : seen ≤ q.elements) :
    Inv n q (s.decideGet call p g seen) := by
  subst hg
  have hpos : 0 < difference s.ring.mask p s.ring.getPtr ↔ 0 < seen := by
    rw [UInt8.lt_iff_toNat_lt, hseen]
    exact Iff.rfl
  have hstock : 0 < difference s.ring.mask p s.ring.getPtr → Stock q.elements seen := fun hyes =>
    ⟨hpos.mp hyes, hstale⟩
  have hrefuse : ¬ 0 < difference s.ring.mask p s.ring.getPtr →
      (Answer.supply false seen : Answer α).Right n (s.initial ++ s.accepted) := fun hno =>
    ⟨nofun, fun hlt => absurd (hpos.mpr hlt) hno⟩
  cases call with
  | get =>
    dsimp only [State.decideGet]
    split
    · exact h.toConsumer (c := .load seen) (hstock ‹_›)
    · exact (h.toConsumer (c := .idle) trivial).answer (hrefuse ‹_›)
  | indexGet =>
    dsimp only [State.decideGet]
    split
    · exact h.toConsumer (c := .index seen) (hstock ‹_›)
    · exact (h.toConsumer (c := .idle) trivial).answer (hrefuse ‹_›)
  | peekGet =>
    dsimp only [State.decideGet]
    split
    · exact h.toConsumer (c := .peek seen) (hstock ‹_›)
    · have hidle : Inv n q { s with consumer := .idle, peekedGet := none } :=
        ⟨h.abs, h.account, h.producer, trivial, h.peekedPut, nofun, h.gotten, h.answers⟩
      exact hidle.answer (hrefuse ‹_›)
  | elements => exact (h.toConsumer (c := .idle) trivial).answer (a := .elements _ seen) hseen

theorem toList_eq (hstock : 0 < q.elements) :
    q.toList = s.ring.data s.ring.getPtr :: q.drop.toList := by
  rw [Ring.toList_eq_cons hstock, h.abs.data_eq h.abs.get]

theorem get (hstock : Stock q.elements seen) {taken : Taken α}
    (htaken : TakenOk s.ring taken) : Inv n q.drop { s with
      consumer := .idle
      peekedGet := none
      gotten := taken.gotten
      ring := { s.ring with getPtr := following s.ring.mask s.ring.getPtr }
      delivered := s.delivered ++ [s.ring.taken taken] } := by
  have hpos := hstock.pos
  have hfewer := q.elements_drop
  refine ⟨h.abs.drop hpos, ?_, ?_, trivial, fun p hp => ?_, nofun, fun i hi => ?_, h.answers⟩
  · dsimp only
    rw [htaken.1, append_assoc, singleton_append, ← h.toList_eq hpos]
    exact h.account
  · have hless : ∀ {seen : Nat}, Room n q.elements seen → Room n q.drop.elements seen :=
      fun hr => ⟨by have := hr.stale; omega, hr.below⟩
    have hp := h.producer
    cases hprod : s.producer with
    | idle => trivial
    | check call p g =>
      rw [hprod] at hp
      refine ⟨hp.1, fun g' hg' => ?_⟩
      obtain ⟨hdiff, hle⟩ := hp.2 g' hg'
      exact ⟨hdiff, by omega⟩
    | store c seen | peek seen =>
      rw [hprod] at hp
      exact hless hp
    | storeAt c p seen | bump c seen =>
      rw [hprod] at hp
      exact ⟨hp.1, hless hp.2⟩
    | bumpTo c p seen =>
      rw [hprod] at hp
      exact ⟨hp.1, hp.2.1, hless hp.2.2⟩
  · obtain ⟨hp', hroom⟩ := h.peekedPut p hp
    exact ⟨hp', by omega⟩
  · obtain rfl := htaken.2 i hi
    refine ⟨h.abs.get ▸ q.get.isLt, rfl, ?_⟩
    rw [htaken.1, getLast?_concat]

/-- STEP: an access of the consumer. -/
theorem consume (putFirst : Bool) (ht : s.consume putFirst = some t) : ∃ q', Inv n q' t := by
  have hc := h.consumer
  have hread : (difference s.ring.mask s.ring.putPtr s.ring.getPtr).toNat = s.held ∧ s.held ≤ q.elements := by
    rw [h.held_eq, h.abs.difference_eq]
    exact ⟨rfl, le_refl _⟩
  rw [State.consume] at ht
  cases hcons : s.consumer with
  | idle =>
    rw [hcons] at ht
    cases ht
  | check call p g =>
    rw [hcons] at ht hc
    obtain ⟨hown, hother⟩ := hc
    rcases p with _ | p
    · rcases g with _ | g
      · cases ht
        refine ⟨q, h.toConsumer ?_⟩
        split
        · exact ⟨nofun, fun p' hp' => by cases hp'; exact hread⟩
        · exact ⟨fun g' hg' => (Option.some.inj hg').symm, nofun⟩
      · cases ht
        exact ⟨q, h.toConsumer ⟨hown, fun p' hp' => by cases hp'; exact hread⟩⟩
    · rcases g with _ | g
      · cases ht
        exact ⟨q, h.toConsumer ⟨fun g' hg' => (Option.some.inj hg').symm, hother⟩⟩
      · cases ht
        obtain ⟨hseen, hstale⟩ := hother p rfl
        exact ⟨q, h.decideGet call (hown g rfl) hseen hstale⟩
  | load seen =>
    rw [hcons] at ht hc
    cases ht
    exact ⟨q, h.toConsumer ⟨rfl, hc⟩⟩
  | loadAt g seen =>
    rw [hcons] at ht hc
    cases ht
    obtain ⟨rfl, hstock⟩ := hc
    exact ⟨q, h.toConsumer ⟨⟨rfl, nofun⟩, hstock⟩⟩
  | index seen =>
    rw [hcons] at ht hc
    cases ht
    exact ⟨q, h.toConsumer ⟨⟨rfl, fun i hi => (Option.some.inj hi).symm⟩, hc⟩⟩
  | bump taken seen =>
    rw [hcons] at ht hc
    cases ht
    exact ⟨q, h.toConsumer ⟨rfl, hc⟩⟩
  | bumpTo taken g seen =>
    rw [hcons] at ht hc
    cases ht
    obtain ⟨rfl, htaken, hstock⟩ := hc
    exact ⟨_, (h.get hstock htaken).answer ⟨fun _ => hstock.some, fun _ => rfl⟩⟩
  | peek seen =>
    rw [hcons] at ht hc
    cases ht
    have hidle : Inv n q { s with consumer := .idle, peekedGet := some s.ring.getPtr } :=
      ⟨h.abs, h.account, h.producer, trivial, h.peekedPut, fun g hg => ⟨(Option.some.inj hg).symm, hc.pos⟩, h.gotten,
        h.answers⟩
    exact ⟨q, hidle.answer ⟨fun _ => hc.some, fun _ => rfl⟩⟩

end

/-! ### Runs -/

theorem number_delivered (h : Inv n q s) {a : α} (hlast : s.delivered.getLast? = some a) :
    (s.initial ++ s.accepted)[s.delivered.length - 1]? = some a := by
  rw [getLast?_eq_getElem?] at hlast
  obtain ⟨hlt, _⟩ := List.getElem?_eq_some_iff.mp hlast
  rw [← h.account, getElem?_append_left hlt]
  exact hlast

theorem number_oldest (h : Inv n q s) (hstock : 0 < q.elements) :
    (s.initial ++ s.accepted)[s.delivered.length]? = some (s.ring.data s.ring.getPtr) := by
  rw [← h.account, h.toList_eq hstock, getElem?_append_right (Nat.le_refl _), Nat.sub_self]
  rfl

/-- STEP: between any two accesses of the two sides. -/
theorem step (h : Inv n q s) (e : Event α) (ht : Rings.step s e = some t) : ∃ q', Inv n q' t := by
  cases e with
  | call c =>
    rw [Rings.step] at ht
    split at ht
    · cases ht
      exact ⟨q, h.toProducer ⟨nofun, nofun⟩⟩
    · cases ht
  | produce getFirst => exact h.produce getFirst ht
  | write a =>
    rw [Rings.step] at ht
    split at ht
    next p hidle hpeeked =>
      cases ht
      obtain ⟨rfl, hroom⟩ := h.peekedPut p hpeeked
      exact ⟨_, h.store hroom a (by rw [hidle]; trivial)⟩
    · cases ht
  | ask c =>
    rw [Rings.step] at ht
    split at ht
    · cases ht
      exact ⟨q, h.toConsumer ⟨nofun, nofun⟩⟩
    · cases ht
  | consume putFirst => exact h.consume putFirst ht
  | read =>
    rw [Rings.step] at ht
    split at ht
    next g hidle hpeeked =>
      cases ht
      obtain ⟨rfl, hpos⟩ := h.peekedGet g hpeeked
      exact ⟨q, h.answer (h.number_oldest hpos)⟩
    · cases ht
  | readGotten =>
    rw [Rings.step] at ht
    split at ht
    next i hidle hgotten =>
      cases ht
      exact ⟨q, h.answer (h.number_delivered (h.gotten i hgotten).2.2)⟩
    · cases ht

end Inv

theorem exists_abs {r : Ringbuf α} (hk : k ≤ 7) (hmask : r.mask.toNat + 1 = 2 ^ k) (hput : r.putPtr ≤ r.mask)
    (hget : r.getPtr ≤ r.mask) : ∃ q : Ring (2 ^ k) α, Abs (2 ^ k) r q := by
  rw [UInt8.le_iff_toNat_le] at hput hget
  exact ⟨⟨⟨r.putPtr.toNat, by omega⟩, ⟨r.getPtr.toNat, by omega⟩, fun i => r.data (UInt8.ofNat i.val)⟩,
    ⟨k, hk, rfl⟩, hmask, rfl, rfl, fun _ => rfl⟩

variable {s : State α}

theorem initial_produce {getFirst : Bool} (h : s.produce getFirst = some t) : t.initial = s.initial := by
  have hdecide : ∀ call p g seen, (s.decidePut call p g seen).initial = s.initial := by
    intro call p g seen
    cases call <;> dsimp only [State.decidePut]
    case elements => rfl
    all_goals split <;> rfl
  rw [State.produce] at h
  split at h
  · cases h
  · cases h
    exact hdecide ..
  all_goals
    cases h
    rfl

theorem initial_consume {putFirst : Bool} (h : s.consume putFirst = some t) : t.initial = s.initial := by
  have hdecide : ∀ call p g seen, (s.decideGet call p g seen).initial = s.initial := by
    intro call p g seen
    cases call <;> dsimp only [State.decideGet]
    case elements => rfl
    all_goals split <;> rfl
  rw [State.consume] at h
  split at h
  · cases h
  · cases h
    exact hdecide ..
  all_goals
    cases h
    rfl

theorem initial_step {e : Event α} (h : step s e = some t) : t.initial = s.initial := by
  cases e with
  | produce getFirst => exact initial_produce h
  | consume putFirst => exact initial_consume h
  | _ =>
    rw [step] at h
    split at h
    · cases h
      rfl
    · cases h

/-- What is delivered are the first ones of what was there and what was accepted, and every answer is right. -/
structure Fifo (size : Nat) (s : State α) : Prop where
  order : s.delivered <+: s.initial ++ s.accepted
  held : s.held < size
  answers : ∀ a ∈ s.answers, a.Right size (s.initial ++ s.accepted)

/-- BOUNDED FIFO: for every size and contents, and every interleaving of the accesses. -/
theorem ring_fifo {k : Nat} (hk : k ≤ 7) {r : Ringbuf α} (hmask : r.mask.toNat + 1 = 2 ^ k) (hput : r.putPtr ≤ r.mask)
    (hget : r.getPtr ≤ r.mask) {es : List (Event α)} (hrun : Run step (fun _ _ => True) (start r) es s) :
    s.initial = r.contents ∧ Fifo (2 ^ k) s := by
  obtain ⟨q, hq⟩ := exists_abs hk hmask hput hget
  have hstart : Inv (2 ^ k) q (start r) := by
    refine ⟨hq, ?_, trivial, trivial, nofun, nofun, nofun,
      nofun⟩
    exact hq.contents_eq.symm.trans (append_nil _).symm
  have hkeep : ∀ (t : State α) (e : Event α) (u : State α), ((∃ q', Inv (2 ^ k) q' t) ∧ t.initial = r.contents) → True →
      step t e = some u → (∃ q', Inv (2 ^ k) q' u) ∧ u.initial = r.contents := by
    rintro t e u ⟨⟨q', hinv⟩, hsame⟩ _ hu
    exact ⟨hinv.step e hu, (initial_step hu).trans hsame⟩
  obtain ⟨⟨q', hinv⟩, hsame⟩ := hrun.invariant hkeep ⟨⟨q, hstart⟩, rfl⟩
  refine ⟨hsame, ⟨q'.toList, hinv.account⟩, ?_, hinv.answers⟩
  rw [hinv.held_eq]
  exact q'.elements_lt

/-- In a ring of four places a byte is taken out while the next one is put. -/
theorem ring_fifo_four : ∃ s : State UInt8, s.delivered = [7, 8] ∧
    s.initial = (init (fun _ => 0) 4 : Ringbuf UInt8).contents ∧ Fifo 4 s := by
  let es : List (Event UInt8) := .call (.put 7) :: replicate 7 (.produce true) ++ .call (.put 8) :: .ask .get ::
    (replicate 7 [.produce true, .consume false]).flatten ++ .ask .get :: replicate 7 (.consume false)
  have hexists : ∃ s, Run step (fun _ _ => True) (start (init (fun _ => 0) 4)) es s ∧ (s.delivered == [7, 8]) = true :=
    exists_run (fun _ _ => true) (fun s : State UInt8 => s.delivered == [7, 8]) (fun _ _ _ => trivial) (by decide)
  obtain ⟨s, hrun, hs⟩ := hexists
  exact ⟨s, beq_iff_eq.mp hs, ring_fifo (k := 2) (by decide) (by decide) (by decide) (by decide) hrun⟩

end CSync.Rings
