import CSync.Ip.Reass

/-! What the reassembly of IPv6 fragments writes, and what it delivers.

    The size test of `uip_reass` leaves out the headers in front of the payload, and the bitmap has no byte for
    the end of a datagram that fills the buffer. A fragment that both arrays have room for is stored inside them, and
    as long as all fragments are of this kind, a packet that is delivered has the payload of its datagram: a
    bit is set only where the eight bytes of its block are in the buffer. -/

namespace CSync.Reass
open Lib SourceRoute

variable {bufsize : Nat} {s : State} {p : Packet} {u : Uip}

theorem bitmapBits_eq {k : Nat} (hk : k < 8) : bitmapBits k = onesFrom k := by
  have hall : ∀ k : Fin 8, bitmapBits k = onesFrom k := by decide
  exact hall ⟨k, hk⟩

@[simp] theorem updateBitmap_size (r : Region) (offset stop : Nat) : (updateBitmap r offset stop).size = r.size := by
  rw [updateBitmap]
  split
  · rw [Region.put_size]
  · simp

variable {offset stop : Nat}

theorem updateBitmap_clean (r : Region) (hle : offset ≤ stop) :
    (updateBitmap r offset stop).clean = true ↔ r.clean = true ∧ stop / 64 < r.size := by
  rw [updateBitmap]
  split
  next heq => rw [Region.put_clean, heq]
  · dsimp only
    simp only [Region.put_clean, Region.fill_clean, Region.fill_size, Region.put_size, and_assoc]
    exact and_congr_right fun _ => by omega

/-- A RANGE enters its blocks: those that end before it does. -/
theorem marked_updateBitmap (r : Region) (hle : offset ≤ stop) (b : Nat) :
    Marked (updateBitmap r offset stop).bytes b ↔ Marked r.bytes b ∨ offset / 8 ≤ b ∧ b < stop / 8 := by
  have hfrom : offset / 8 % 8 < 8 := Nat.mod_lt _ (by decide)
  have hupTo : stop / 8 % 8 < 8 := Nat.mod_lt _ (by decide)
  have hb : b % 8 < 8 := Nat.mod_lt _ (by decide)
  have hbit : 7 - b % 8 < 8 := by omega
  rw [updateBitmap, bitmapBits_eq hfrom, bitmapBits_eq hupTo, Marked, Marked]
  split
  next heq =>
    by_cases hbyte : b / 8 = offset / 64
    · rw [hbyte, Region.put_same, hasBit_or _ _ hbit, hasBit_and _ _ hbit, hasBit_onesFrom hfrom hb,
        hasBit_upTo hupTo hb]
      exact or_congr_right (by omega)
    · rw [Region.put_other _ _ hbyte]
      exact (or_iff_left (by omega)).symm
  next hne =>
    rcases lt_trichotomy (b / 8) (stop / 64) with hlt | heq | hgt
    · rw [Region.put_other _ _ (ne_of_lt hlt)]
      rcases lt_trichotomy (b / 8) (offset / 64) with hbefore | hfirst | hbetween
      · rw [Region.fill_outside _ _ _ _ (by omega), Region.put_other _ _ (ne_of_lt hbefore)]
        exact (or_iff_left (by omega)).symm
      · rw [Region.fill_outside _ _ _ _ (by omega), hfirst, Region.put_same, hasBit_or _ _ hbit,
          hasBit_onesFrom hfrom hb]
        exact or_congr_right (by omega)
      · rw [Region.fill_inside _ _ _ _ (by omega) (by omega)]
        exact iff_of_true (hasBit_full hb) (.inr (by omega))
    · rw [heq, Region.put_same, hasBit_or _ _ hbit, hasBit_upTo hupTo hb,
        Region.fill_outside _ _ _ _ (by omega), Region.put_other _ _ (by omega)]
      exact or_congr_right (by omega)
    · rw [Region.put_other _ _ (ne_of_gt hgt), Region.fill_outside _ _ _ _ (by omega),
        Region.put_other _ _ (by omega)]
      exact (or_iff_left (by omega)).symm

/-! ### What is written -/

@[simp] theorem patched_ext (p : Packet) : p.patched.ext = p.uip.ext := by
  rw [Packet.patched]
  split
  · rfl
  · rfl

theorem patched_extLen (p : Packet) : p.patched.extLen = p.uip.extLen := by
  rw [Packet.patched]
  split
  · rfl
  · rfl

/-- The two arrays have their sizes. -/
def State.Sized (bufsize : Nat) (s : State) : Prop := s.buf.size = bufsize ∧ s.bitmap.size = bufsize / 64

/-- All writes so far were inside the two arrays. -/
def State.Inside (s : State) : Prop := s.buf.clean = true ∧ s.bitmap.clean = true

section
variable (h : s.Sized bufsize)
include h

theorem startReass_sized (u : Uip) : (startReass s u).Sized bufsize := by
  rw [startReass]
  split
  · exact h
  · exact h

theorem firstFrag_sized (p : Packet) : (firstFrag s p).Sized bufsize := by
  rw [firstFrag]
  split
  · exact h
  · exact h

theorem placeFrag_sized (u : Uip) (offset len stop : Nat) :
    (placeFrag s u offset len stop).Sized bufsize :=
  ⟨h.1, (updateBitmap_size _ _ _).trans h.2⟩

theorem copyHeaders_inside (u : Uip) :
    (copyHeaders s u).Inside ↔ s.Inside ∧ u.ext ≤ bufsize := by
  rw [State.Inside, copyHeaders, Region.copy_clean, h.1, State.Inside, and_right_comm]
  exact and_congr_right fun _ => by omega

theorem startReass_inside (u : Uip) :
    (startReass s u).Inside ↔ s.Inside ∧ (s.on = false → u.ext ≤ bufsize) := by
  rw [startReass]
  by_cases hon : s.on = true
  · rw [if_pos hon, hon]
    simp
  · rw [Bool.not_eq_true] at hon
    rw [if_neg (by rw [hon]; decide)]
    have hcopy := copyHeaders_inside h u
    rw [forall_prop_of_true hon, ← hcopy]
    have hclear : (s.bitmap.copy 0 s.bitmap.size fun _ => 0).clean = true ↔ s.bitmap.clean = true := by
      rw [Region.copy_clean]
      exact and_iff_left (by omega)
    exact and_congr_right fun _ => hclear

theorem firstFrag_inside (p : Packet) :
    (firstFrag s p).Inside ↔ s.Inside ∧ (fragOffset p.uip = 0 → p.uip.ext ≤ bufsize) := by
  rw [firstFrag]
  by_cases hfirst : fragOffset p.uip = 0
  · rw [if_pos hfirst, forall_prop_of_true hfirst, ← patched_ext]
    exact copyHeaders_inside (s := { s with flags := s.flags ||| flagFirstFrag }) h p.patched
  · rw [if_neg hfirst]
    exact (and_iff_left fun h => absurd h hfirst).symm

theorem placeFrag_inside (u : Uip) {len : Nat} (hstop : stop = offset + len) :
    (placeFrag s u offset len stop).Inside ↔ s.Inside ∧ u.ext + stop ≤ bufsize ∧ stop / 64 < bufsize / 64 := by
  have hle : offset ≤ stop := by omega
  have hmap := updateBitmap_clean s.bitmap hle
  rw [h.2] at hmap
  rw [State.Inside, placeFrag, Region.copy_clean, hmap, h.1, State.Inside]
  constructor
  · rintro ⟨⟨hbuf, -, hcopy⟩, hbits, hbyte⟩
    exact ⟨⟨hbuf, hbits⟩, by omega, hbyte⟩
  · rintro ⟨⟨hbuf, hbits⟩, hcopy, hbyte⟩
    exact ⟨⟨hbuf, by omega, by omega⟩, hbits, hbyte⟩

end

/-- The fragment passes the size test, and the test of its length. -/
def Packet.Accepted (bufsize : Nat) (p : Packet) : Prop :=
  fragEnd p.uip ≤ bufsize ∧ (moreFrags p.patched = true → (fragLen p.uip).toNat % 8 = 0)

instance : Decidable (p.Accepted bufsize) := inferInstanceAs (Decidable (_ ∧ (_ → _)))

/-- What an accepted fragment leaves in the arrays. -/
def stored (s : State) (p : Packet) : State :=
  placeFrag (lastFrag (firstFrag s p) p.patched (fragEnd p.uip)) p.patched (fragOffset p.uip).toNat
    (fragLen p.uip).toNat (fragEnd p.uip)

theorem takeFrag_of_accepted (s : State) (h : p.Accepted bufsize) : takeFrag bufsize s p =
    if complete (stored s p) then deliver (stored s p) p.patched else (stored s p, .drop) := by
  have hstart : (fragOffset p.uip).toNat ≤ fragEnd p.uip := Nat.le_add_right _ _
  have hend := h.1
  rw [takeFrag]
  rw [if_neg (by omega), if_neg fun hmore => hmore.2 (h.2 hmore.1)]
  rfl

/-- A fragment that is refused ends the reassembly; its headers may be in the buffer. -/
theorem takeFrag_of_refused (s : State) (h : ¬p.Accepted bufsize) : (takeFrag bufsize s p).1.on = false ∧
    (takeFrag bufsize s p).1.buf = (firstFrag s p).buf ∧ (takeFrag bufsize s p).1.bitmap = (firstFrag s p).bitmap ∧
      ∀ b n, (takeFrag bufsize s p).2 ≠ .whole b n := by
  rw [takeFrag]
  split
  · exact ⟨rfl, rfl, rfl, fun _ _ => nofun⟩
  next hsize =>
    split
    · exact ⟨rfl, rfl, rfl, fun _ _ => nofun⟩
    next hlen =>
      rw [not_or, not_lt, not_lt] at hsize
      rw [not_and, not_not] at hlen
      exact absurd ⟨hsize.2, hlen⟩ h

theorem lastFrag_sized (h : s.Sized bufsize) (u : Uip) (stop : Nat) : (lastFrag s u stop).Sized bufsize := by
  rw [lastFrag]
  split
  · exact h
  · exact h

theorem lastFrag_inside (s : State) (u : Uip) (stop : Nat) : (lastFrag s u stop).Inside ↔ s.Inside := by
  rw [lastFrag]
  split
  · rfl
  · rfl

theorem stored_inside (h : s.Sized bufsize) (p : Packet) : (stored s p).Inside ↔ s.Inside ∧ (fragOffset p.uip = 0 →
    p.uip.ext ≤ bufsize) ∧ p.uip.ext + fragEnd p.uip ≤ bufsize ∧ fragEnd p.uip / 64 < bufsize / 64 := by
  have hsized := lastFrag_sized (firstFrag_sized h p) p.patched (fragEnd p.uip)
  have hend : fragEnd p.uip = (fragOffset p.uip).toNat + (fragLen p.uip).toNat := rfl
  rw [stored, placeFrag_inside hsized _ hend, lastFrag_inside, firstFrag_inside h, patched_ext, and_assoc]

theorem stored_sized (h : s.Sized bufsize) (p : Packet) : (stored s p).Sized bufsize :=
  placeFrag_sized (lastFrag_sized (firstFrag_sized h p) _ _) _ _ _ _

theorem takeFrag_sized (h : s.Sized bufsize) (p : Packet) : (takeFrag bufsize s p).1.Sized bufsize := by
  by_cases haccepted : p.Accepted bufsize
  · rw [takeFrag_of_accepted s haccepted]
    split
    · exact stored_sized h p
    · exact stored_sized h p
  · obtain ⟨-, hbuf, hbitmap, -⟩ := takeFrag_of_refused s haccepted
    rw [State.Sized, hbuf, hbitmap]
    exact firstFrag_sized h p

/-- The arrays have room for a fragment of the datagram in the buffer. -/
def Packet.Room (bufsize : Nat) (p : Packet) : Prop :=
  (fragOffset p.uip = 0 → p.uip.ext ≤ bufsize) ∧
    (p.Accepted bufsize → p.uip.ext + fragEnd p.uip ≤ bufsize ∧ fragEnd p.uip / 64 < bufsize / 64)

theorem takeFrag_inside (h : s.Sized bufsize) (p : Packet) :
    (takeFrag bufsize s p).1.Inside ↔ s.Inside ∧ p.Room bufsize := by
  by_cases haccepted : p.Accepted bufsize
  · have hstored := stored_inside h p
    rw [takeFrag_of_accepted s haccepted, Packet.Room, forall_prop_of_true haccepted]
    split
    · exact hstored
    · exact hstored
  · obtain ⟨-, hbuf, hbitmap, -⟩ := takeFrag_of_refused s haccepted
    have hfirst := firstFrag_inside h p
    rw [State.Inside, hbuf, hbitmap, Packet.Room, and_iff_left (fun hacc => absurd hacc haccepted)]
    exact hfirst

/-- Nothing is being reassembled, or the fragment has the addresses and the number of the datagram in the buffer. -/
def Own (s : State) (p : Packet) : Prop := s.on = false ∨ matching s p.uip = true

theorem slice_copy_headers (r : Region) (u : Uip) {o n : Nat} (h : o + n ≤ u.ext) :
    slice (r.copy 0 u.ext u.buf).bytes o n = slice u.buf o n := by
  refine slice_congr fun i _ hi => ?_
  have hcount : (i : Int) < u.ext := by omega
  have hcopy := r.copy_inside (o := 0) u.buf hcount
  rwa [zero_add] at hcopy

theorem matching_startReass (s : State) (p : Packet) : matching (startReass s p.uip) p.uip = true ↔ Own s p := by
  rw [startReass, Own]
  by_cases hon : s.on = true
  · rw [if_pos hon, hon]
    exact (or_iff_right (by decide)).symm
  · rw [if_neg hon]
    rw [Bool.not_eq_true] at hon
    refine iff_of_true ?_ (.inl hon)
    have hext : iphLen ≤ p.uip.ext := Nat.le_add_right _ _
    rw [matching, decide_eq_true_iff]
    rw [iphLen] at hext
    refine ⟨slice_copy_headers s.buf p.uip ?_, slice_copy_headers s.buf p.uip ?_, rfl⟩
    · rw [srcOffset]
      omega
    · rw [destOffset]
      omega

instance : Decidable (p.Room bufsize) := inferInstanceAs (Decidable ((_ → _) ∧ (_ → _)))

instance : Decidable (Own s p) := inferInstanceAs (Decidable (_ ∨ _))

/-- The arrays have room for the fragment: its headers where they are stored, and its payload behind them. -/
def Fits (bufsize : Nat) (s : State) (p : Packet) : Prop :=
  Own s p → (s.on = false → p.uip.ext ≤ bufsize) ∧ p.Room bufsize

instance : Decidable (Fits bufsize s p) := inferInstanceAs (Decidable (_ → _))

theorem uipReass_sized (h : s.Sized bufsize) (p : Packet) : (uipReass bufsize s p).1.Sized bufsize := by
  rw [uipReass]
  split
  · exact takeFrag_sized (startReass_sized h p.uip) p
  · exact startReass_sized h p.uip

/-- INSIDE: a fragment is stored inside the two arrays exactly when they have room for it. -/
theorem uipReass_inside (h : s.Sized bufsize) (p : Packet) :
    (uipReass bufsize s p).1.Inside ↔ s.Inside ∧ Fits bufsize s p := by
  have hstart := startReass_inside h p.uip
  rw [uipReass, Fits]
  by_cases hown : Own s p
  · rw [if_pos ((matching_startReass s p).mpr hown), takeFrag_inside (startReass_sized h p.uip) p, hstart,
      forall_prop_of_true hown, and_assoc]
  · rw [if_neg fun hmatch => hown ((matching_startReass s p).mp hmatch), hstart]
    have hon : s.on ≠ false := fun hon => hown (.inl hon)
    rw [and_iff_left (fun h => absurd h hon), and_iff_left (fun h => absurd h hown)]

end CSync.Reass
