import CSync.Ip.ExtHeaders

/-! When the walks over extension headers end in the packet.

    No walk compares an offset with the length of the packet, and their offsets have eight bits, so a walk may
    leave the packet or come back to a place where it has been. For each walk there are its places, and where it
    goes from one to the next; it is as it should be just when its places are in the packet up to a last one. -/

namespace CSync.ExtHeaders
open SourceRoute Lib List

/-- The accesses that stay in a packet of `n` bytes. -/
def Access.Ok (n : Nat) : Access → Prop
  | .read index count => index + count ≤ n
  | .write index count => index + count ≤ n

theorem read_ok {n index count : Nat} : Access.Ok n (.read index count) ↔ index + count ≤ n := Iff.rfl

theorem write_ok {n index count : Nat} : Access.Ok n (.write index count) ↔ index + count ≤ n := Iff.rfl

/-- It ends, and all that it accesses is as `P` asks. -/
def Stays {ρ α : Type} (P : α → Prop) (run : Nat → Option (ρ × List α)) : Prop :=
  ∃ fuel r, run fuel = some r ∧ ∀ a ∈ r.2, P a

/-! ### The conditions -/

/-- The bytes that are looked at of an RPL option. -/
def RplOptionIn (v : View) (b : Nat → UInt8) (n ext opt : Nat) : Prop :=
  b (ext + 1) = hopByHopUnits → opt + 2 ≤ n ∧ (b (opt + 1) = hdrOptLen → opt + 4 ≤ n ∧
    ∀ i, v.getInstance (b (opt + 3)) = some i → b (opt + 2) &&& optFwdErr = 0 → i.joined = true → opt + 6 ≤ n)

/-- The header and the option at this offset are in the packet, as far as they are looked at. -/
def OptionIn (v : View) (u : Uip) (offset : UInt8) : Prop :=
  u.ext + 2 ≤ u.len.toNat ∧ (offset.toNat < headerBytes u.buf u.ext →
    u.ext + offset.toNat + 1 ≤ u.len.toNat ∧
    (u.buf (u.ext + offset.toNat) = optRpl → RplOptionIn v u.buf u.len.toNat u.ext (u.ext + offset.toNat)) ∧
    (u.buf (u.ext + offset.toNat) ≠ optPad1 → u.buf (u.ext + offset.toNat) &&& 0xC0 = 0 →
      u.ext + offset.toNat + 2 ≤ u.len.toNat))

/-- The offset behind an option that is skipped. -/
def nextOffset (u : Uip) (offset : UInt8) : Option UInt8 :=
  if offset.toNat < headerBytes u.buf u.ext then
    if u.buf (u.ext + offset.toNat) = optPad1 then some (offset + 1)
    else if u.buf (u.ext + offset.toNat) &&& 0xC0 = 0 then some (offset + (u.buf (u.ext + offset.toNat + 1) + 2))
    else none
  else none

/-- The options are in the packet, up to a last one. -/
def OptionsFit (v : View) (u : Uip) : Prop := Along (OptionIn v u) (nextOffset u) 2

/-- A header in front of the routing header is in the packet; the end of the search is as `good` says. -/
def HeaderIn (b : Nat → UInt8) (n : Nat) (good : Option UInt8 → Prop) (place : Nat × UInt8) : Prop :=
  place.1 + 1 ≤ n ∧
    if b place.1 = protoRouting then good (some place.2)
    else if b place.1 = protoHbho ∨ b place.1 = protoDesto then iphLen + place.2.toNat + 2 ≤ n
    else good none

/-- Where the header after a hop-by-hop or destination options header is. -/
def nextHeader (b : Nat → UInt8) (place : Nat × UInt8) : Option (Nat × UInt8) :=
  if b place.1 = protoHbho ∨ b place.1 = protoDesto then
    some (iphLen + place.2.toNat, place.2 + (b (iphLen + place.2.toNat + 1) <<< 3) + 8)
  else none

/-- What the next hop is found from: the destination, and the type of the routing header. -/
def NextHopIn (n : Nat) : Option UInt8 → Prop
  | none => destOffset + 16 ≤ n
  | some e => iphLen + e.toNat + 3 ≤ n

/-- The source routing header, and the address that is next in it. -/
def SrhIn (b : Nat → UInt8) (n : Nat) : Option UInt8 → Prop
  | none => True
  | some e =>
    let rh := iphLen + e.toNat
    rh + 3 ≤ n ∧ (b (rh + 2) = typeSrh → rh + 6 ≤ n ∧
      (b (rh + 3) ≠ 0 → (addressSlot b rh).1 + (addressSlot b rh).2 ≤ n))

/-- The search for the routing header comes to headers in the packet, up to a last one. -/
def RoutingFits (u : Uip) (good : Option UInt8 → Prop) : Prop :=
  Along (HeaderIn u.buf u.len.toNat good) (nextHeader u.buf) (proto, 0)

/-- The length in the header behind `removed` bytes, as the code computes it. -/
def lengthAt (b : Nat → UInt8) (removed : Nat) : Nat := (b (iphLen + removed + 1) * 8 + 8).toNat

/-- The header of this type behind the removed ones is in the packet, as far as it is looked at or removed. -/
def RemovedIn (b : Nat → UInt8) (n : Nat) (place : UInt8 × Nat) : Prop :=
  proto + 1 + place.2 ≤ n ∧
    (place.1 = protoHbho ∨ place.1 = protoRouting ∨ place.1 = protoDesto → iphLen + place.2 + 2 ≤ n) ∧
    (place.1 = protoHbho ∨ place.1 = protoRouting → iphLen + place.2 + lengthAt b place.2 ≤ n)

/-- The type of the header behind a removed one, and how many bytes are removed then. -/
def nextRemoved (b : Nat → UInt8) (place : UInt8 × Nat) : Option (UInt8 × Nat) :=
  if place.1 = protoHbho ∨ place.1 = protoRouting then
    some (b (iphLen + place.2), place.2 + lengthAt b place.2)
  else none

/-- The headers to be removed are in the packet, up to a last one. -/
def HeadersFit (u : Uip) : Prop := Along (RemovedIn u.buf u.len.toNat) (nextRemoved u.buf) (u.buf proto, 0)

/-! ### Options -/

section Options

variable {v : View} {b : Nat → UInt8} {n ext opt : Nat}

theorem le_ext (u : Uip) : 40 ≤ u.ext := Nat.le_add_right ..

/-- The check of an RPL option stays in the packet if and only if the bytes it looks at are there. -/
theorem rplVerifyHbhHeader_ok (hext : 40 ≤ ext) (hlen : ext + 2 ≤ n) (htype : b opt = optRpl) :
    (∀ a ∈ (rplVerifyHbhHeader v b ext opt).2, a.Ok n) ↔ RplOptionIn v b n ext opt := by
  have hhead : Access.Ok n (.read (ext + 1) 1) := hlen
  have hdest : Access.Ok n (.read destOffset 16) := le_trans hext (Nat.le_of_add_right_le hlen)
  rw [rplVerifyHbhHeader, RplOptionIn]
  split
  next hunits => exact iff_of_true (forall_mem_singleton.mpr hhead) fun hno => absurd hno hunits
  next hunits =>
    rw [not_not] at hunits
    rw [if_neg (not_not.mpr htype)]
    split
    next hoptLen =>
      simp only [forall_mem_cons, not_mem_nil, false_imp_iff, implies_true, and_true, read_ok]
      constructor
      · rintro ⟨_, htwo⟩ _
        exact ⟨htwo, fun hno => absurd hno hoptLen⟩
      · intro h
        exact ⟨hlen, (h hunits).1⟩
    next hoptLen =>
      rw [not_not] at hoptLen
      dsimp only
      split
      next hnone =>
        simp only [forall_mem_cons, not_mem_nil, false_imp_iff, implies_true, and_true, read_ok]
        constructor
        · rintro ⟨_, htwo, hfour⟩ _
          exact ⟨htwo, fun _ => ⟨hfour, fun i hi => absurd (hnone ▸ hi) (by simp)⟩⟩
        · intro h
          exact ⟨hlen, (h hunits).1, ((h hunits).2 hoptLen).1⟩
      next i hsome =>
        have hright : (b (ext + 1) = hopByHopUnits → opt + 2 ≤ n ∧ (b (opt + 1) = hdrOptLen → opt + 4 ≤ n ∧
            ∀ i, v.getInstance (b (opt + 3)) = some i → b (opt + 2) &&& optFwdErr = 0 → i.joined = true →
              opt + 6 ≤ n)) ↔
            opt + 4 ≤ n ∧ (b (opt + 2) &&& optFwdErr = 0 → i.joined = true → opt + 6 ≤ n) := by
          constructor
          · intro h
            obtain ⟨hfour, hsix⟩ := (h hunits).2 hoptLen
            exact ⟨hfour, hsix i hsome⟩
          · rintro ⟨hfour, hsix⟩ _
            refine ⟨by omega, fun _ => ⟨hfour, fun j hj => ?_⟩⟩
            rw [hsome] at hj
            cases hj
            exact hsix
        rw [hright]
        have hfirst : (∀ a ∈ [Access.read (ext + 1) 1, .read opt 2, .read (opt + 3) 1] ++ [.read (opt + 2) 1],
            a.Ok n) ↔ opt + 4 ≤ n := by
          simp only [forall_mem_append, forall_mem_cons, not_mem_nil, false_imp_iff, implies_true, and_true, read_ok]
          omega
        have hmore : (∀ a ∈ [Access.read (opt + 4) 2], a.Ok n) ↔ opt + 6 ≤ n := by
          rw [forall_mem_singleton, read_ok]
        split
        next hfwd =>
          have hnot : (b (opt + 2) &&& optFwdErr = 0 → i.joined = true → opt + 6 ≤ n) := fun hno => absurd hno hfwd
          split
          · rw [forall_mem_append, hfirst, forall_mem_singleton]
            exact and_congr_right fun _ => iff_of_true hdest hnot
          · rw [hfirst]
            exact (and_iff_left hnot).symm
        next hfwd =>
          rw [not_not] at hfwd
          split
          next hjoined =>
            rw [hfirst]
            exact (and_iff_left fun _ hno => absurd (hjoined.symm.trans hno) Bool.false_ne_true).symm
          next hjoined =>
            rw [Bool.not_eq_false] at hjoined
            have hsix : (b (opt + 2) &&& optFwdErr = 0 → i.joined = true → opt + 6 ≤ n) ↔ opt + 6 ≤ n :=
              ⟨fun h => h hfwd hjoined, fun h _ _ => h⟩
            split
            · rw [forall_mem_append, hfirst, hmore, hsix]
            · split
              · rw [forall_mem_append, hfirst, hmore, hsix]
              · rw [forall_mem_append, forall_mem_append, hfirst, hmore, hsix, forall_mem_singleton, write_ok]
                omega

/-- An option that passes the check has been looked at. -/
theorem mem_of_verified (h : (rplVerifyHbhHeader v b ext opt).1.1 = true) :
    Access.read opt 2 ∈ (rplVerifyHbhHeader v b ext opt).2 := by
  revert h
  rw [rplVerifyHbhHeader]
  split
  · exact nofun
  · split
    · exact nofun
    · split
      · exact nofun
      · intro _
        dsimp only
        split
        · simp
        · split
          · split <;> simp
          · split
            · simp
            · split
              · simp
              · split <;> simp

variable {u : Uip} {offset : UInt8}

/-- A round stays in the packet if and only if the option does. -/
theorem processOption_ok : (∀ a ∈ (processOption v u offset).2, a.Ok u.len.toNat) ↔ OptionIn v u offset := by
  have hext := le_ext u
  rw [processOption, OptionIn]
  dsimp only
  split
  next hlt =>
    rw [imp_iff_right hlt]
    split
    next htype =>
      simp only [forall_mem_cons, not_mem_nil, false_imp_iff, implies_true, and_true, read_ok, htype,
        ne_eq, not_true_eq_false]
      have hno : ¬ optPad1 = optRpl := by decide
      rw [iff_false_intro hno, false_imp_iff, and_true]
    next hpad1 =>
      split
      next htype =>
        simp only [forall_mem_cons, not_mem_nil, false_imp_iff, implies_true, and_true, read_ok, htype]
        have hno : ¬ optPadN = optRpl := by decide
        have hskip : optPadN ≠ optPad1 ∧ optPadN &&& 0xC0 = 0 := by decide
        rw [iff_false_intro hno, false_imp_iff, true_and, imp_iff_right hskip.1, imp_iff_right hskip.2]
      · split
        next htype =>
          have hkeep : ¬ u.buf (u.ext + offset.toNat) &&& 0xC0 = 0 := by
            rw [htype]
            decide
          have hnot : (u.buf (u.ext + offset.toNat) ≠ optPad1 → u.buf (u.ext + offset.toNat) &&& 0xC0 = 0 →
              u.ext + offset.toNat + 2 ≤ u.len.toNat) := fun _ hno => absurd hno hkeep
          have hhead : (∀ a ∈ [Access.read (u.ext + 1) 1, .read (u.ext + offset.toNat) 1], a.Ok u.len.toNat) ↔
              u.ext + 2 ≤ u.len.toNat ∧ u.ext + offset.toNat + 1 ≤ u.len.toNat := by
            rw [forall_mem_cons, forall_mem_singleton, read_ok, read_ok]
          have hcheck : (∀ a ∈ [Access.read (u.ext + 1) 1, .read (u.ext + offset.toNat) 1] ++
              (rplVerifyHbhHeader v u.buf u.ext (u.ext + offset.toNat)).2, a.Ok u.len.toNat) ↔
              u.ext + 2 ≤ u.len.toNat ∧ u.ext + offset.toNat + 1 ≤ u.len.toNat ∧
                (u.buf (u.ext + offset.toNat) = optRpl →
                  RplOptionIn v u.buf u.len.toNat u.ext (u.ext + offset.toNat)) ∧
                (u.buf (u.ext + offset.toNat) ≠ optPad1 → u.buf (u.ext + offset.toNat) &&& 0xC0 = 0 →
                  u.ext + offset.toNat + 2 ≤ u.len.toNat) := by
            rw [forall_mem_append, hhead, and_assoc, and_iff_left hnot, imp_iff_right htype]
            exact and_congr_right fun hlen => and_congr_right fun _ => rplVerifyHbhHeader_ok hext hlen htype
          split
          · exact hcheck
          next hok =>
            rw [Bool.not_eq_false] at hok
            rw [forall_mem_append, hcheck, forall_mem_singleton]
            refine and_iff_left_of_imp fun h => ?_
            have hmem := (hcheck.mpr h) _ (mem_append_right _ (mem_of_verified hok))
            exact le_trans (le_of_eq (add_assoc _ 1 1)) hmem
        next hrpl =>
          have hno : (u.buf (u.ext + offset.toNat) = optRpl →
              RplOptionIn v u.buf u.len.toNat u.ext (u.ext + offset.toNat)) := fun h => absurd h hrpl
          rw [and_iff_right hno, imp_iff_right hpad1]
          split
          next hskip =>
            simp only [forall_mem_cons, not_mem_nil, false_imp_iff, implies_true, and_true, read_ok]
            rw [imp_iff_right hskip]
          next hskip =>
            rw [and_iff_left fun h => absurd h hskip]
            split
            · rw [forall_mem_cons, forall_mem_singleton, read_ok, read_ok]
            · split
              · simp only [forall_mem_cons, not_mem_nil, false_imp_iff, implies_true, and_true, read_ok, destOffset]
                omega
              · rw [forall_mem_cons, forall_mem_singleton, read_ok, read_ok]
  next hge => rw [forall_mem_singleton, read_ok, and_iff_left fun hno => absurd hno hge]

variable {log : List Access}

theorem processOption_go {t : UInt8} (h : processOption v u offset = (.inl t, log)) :
    nextOffset u offset = some t := by
  have hpadN : optPadN &&& 0xC0 = 0 := by decide
  rw [processOption] at h
  dsimp only at h
  rw [nextOffset]
  split at h
  next hlt =>
    rw [if_pos hlt]
    split at h
    next htype =>
      cases h
      exact if_pos htype
    next hpad1 =>
      rw [if_neg hpad1]
      split at h
      next htype =>
        cases h
        rw [htype, if_pos hpadN]
      · split at h
        · split at h <;> cases h
        · split at h
          next hskip =>
            cases h
            exact if_pos hskip
          · split at h
            · cases h
            · split at h <;> cases h
  · cases h

theorem processOption_stop {r : Verdict × (Nat → UInt8)}
    (h : processOption v u offset = (.inr r, log)) : nextOffset u offset = none := by
  have hrpl : ¬ optRpl &&& 0xC0 = 0 := by decide
  rw [processOption] at h
  rw [nextOffset]
  split at h
  next hlt =>
    rw [if_pos hlt]
    split at h
    · cases h
    next hpad1 =>
      rw [if_neg hpad1]
      split at h
      · cases h
      · split at h
        next htype => rw [htype, if_neg hrpl]
        · split at h
          · cases h
          next hkeep => exact if_neg hkeep
  next hge => exact if_neg hge

theorem options_stay_iff (v : View) (u : Uip) :
    Stays (Access.Ok u.len.toNat) (extHdrOptionsProcess v u) ↔ OptionsFit v u :=
  loop_ends_along (I := fun _ => True) (fun offset => offset) (fun _ _ => processOption_ok)
    (fun _ _ _ _ _ h => ⟨trivial, processOption_go h⟩) (fun _ _ _ _ h => processOption_stop h) trivial

end Options

/-! ### The routing header -/

section Routing

variable {ρ : Type} {b : Nat → UInt8} {n : Nat} {after : Option UInt8 → ρ × List Access} {good : Option UInt8 → Prop}
  {place : Nat × UInt8}

/-- A round stays in the packet if and only if the header does. -/
theorem seekRouting_ok (hafter : ∀ found, proto + 1 ≤ n → ((∀ a ∈ (after found).2, a.Ok n) ↔ good found))
    (hplace : proto ≤ place.1) : (∀ a ∈ (seekRouting b after place).2, a.Ok n) ↔ HeaderIn b n good place := by
  have hrest : ∀ found, (∀ a ∈ Access.read place.1 1 :: (after found).2, a.Ok n) ↔ place.1 + 1 ≤ n ∧ good found := by
    intro found
    rw [forall_mem_cons, read_ok]
    exact and_congr_right fun h => hafter found (by omega)
  rw [seekRouting, HeaderIn]
  split
  · exact hrest _
  · split
    · rw [forall_mem_cons, forall_mem_singleton, read_ok, read_ok]
    · exact hrest _

theorem seekRouting_go {t : Nat × UInt8} (h : seekRouting b after place = (.inl t, log)) :
    proto ≤ t.1 ∧ nextHeader b place = some t := by
  rw [seekRouting] at h
  split at h
  · cases h
  · split at h
    next htype =>
      cases h
      refine ⟨?_, if_pos htype⟩
      rw [proto, iphLen]
      omega
    · cases h

theorem seekRouting_stop {r : ρ} (h : seekRouting b after place = (.inr r, log)) :
    nextHeader b place = none := by
  have hrouting : ¬ (protoRouting = protoHbho ∨ protoRouting = protoDesto) := by decide
  rw [seekRouting] at h
  split at h
  next htype => rw [nextHeader, htype, if_neg hrouting]
  · split at h
    · cases h
    next hkeep => exact if_neg hkeep

/-- The search ends in the packet if and only if the headers it comes to are there. -/
theorem seek_stays_iff (u : Uip)
    (hafter : ∀ found, proto + 1 ≤ u.len.toNat → ((∀ a ∈ (after found).2, a.Ok u.len.toNat) ↔ good found)) :
    Stays (Access.Ok u.len.toNat) (fun fuel => loop (seekRouting u.buf after) fuel (proto, 0)) ↔ RoutingFits u good :=
  loop_ends_along (I := fun place => proto ≤ place.1) (fun place => place) (fun _ hs => seekRouting_ok hafter hs)
    (fun _ _ _ _ _ h => seekRouting_go h) (fun _ _ _ _ h => seekRouting_stop h) (le_refl proto)

variable {c : RplNs.Config}

theorem nextHopAfter_ok (dag : Option c.Dag) (s : RplNs.State c) (u : Uip) (found : Option UInt8) :
    (∀ a ∈ (nextHopAfter dag s u found).2, a.Ok n) ↔ NextHopIn n found := by
  cases found with
  | none =>
    rw [nextHopAfter, NextHopIn]
    split <;> exact forall_mem_singleton
  | some e =>
    have hboth : (∀ a ∈ [Access.read destOffset 16, .read (iphLen + e.toNat + 2) 1], a.Ok n) ↔
        iphLen + e.toNat + 3 ≤ n := by
      rw [forall_mem_cons, forall_mem_singleton, read_ok, read_ok, destOffset, iphLen]
      omega
    rw [nextHopAfter, NextHopIn]
    split <;> exact hboth

theorem nextHop_stays_iff (dag : Option c.Dag) (s : RplNs.State c) (u : Uip) :
    Stays (Access.Ok u.len.toNat) (srhGetNextHop dag s u) ↔ RoutingFits u (NextHopIn u.len.toNat) :=
  seek_stays_iff u fun found _ => nextHopAfter_ok dag s u found

theorem addressSlot_le (b : Nat → UInt8) (rh : Nat) : (addressSlot b rh).2 ≤ 16 := Nat.sub_le ..

theorem swapAccesses_ok {rh : Nat} (hrh : iphLen ≤ rh) : (∀ a ∈ swapAccesses b rh, a.Ok n) ↔
    rh + 6 ≤ n ∧ (b (rh + 3) ≠ 0 → (addressSlot b rh).1 + (addressSlot b rh).2 ≤ n) := by
  have hhead : (∀ a ∈ [Access.read (rh + 3) 1, .read (rh + 1) 1, .read (rh + 4) 2], a.Ok n) ↔ rh + 6 ≤ n := by
    simp only [forall_mem_cons, not_mem_nil, false_imp_iff, implies_true, and_true, read_ok]
    omega
  rw [swapAccesses]
  split
  next hzero => rw [hhead, and_iff_left fun hno => absurd hzero hno]
  next hleft =>
    have hslot := addressSlot_le b rh
    rw [forall_mem_append, hhead, imp_iff_right hleft]
    refine and_congr_right fun hlen => ?_
    simp only [forall_mem_cons, not_mem_nil, false_imp_iff, implies_true, and_true, read_ok, write_ok]
    rw [iphLen] at hrh
    rw [destOffset]
    omega

theorem processSrhAfter_ok (u : Uip) (found : Option UInt8) :
    (∀ a ∈ (processSrhAfter u found).2, a.Ok n) ↔ SrhIn u.buf n found := by
  cases found with
  | none => exact iff_of_true nofun trivial
  | some e =>
    rw [processSrhAfter, SrhIn]
    split
    next htype => rw [forall_mem_cons, read_ok, swapAccesses_ok (Nat.le_add_right ..), imp_iff_right htype]
    next htype => rw [forall_mem_singleton, read_ok, and_iff_left fun hno => absurd hno htype]

theorem processSrh_stays_iff (u : Uip) :
    Stays (Access.Ok u.len.toNat) (rplProcessSrhHeader u) ↔ RoutingFits u (SrhIn u.buf u.len.toNat) :=
  seek_stays_iff u fun found _ => processSrhAfter_ok u found

end Routing

/-! ### The removal -/

section Removal

variable {u₀ u : Uip}

theorem moveCount_eq (len : UInt16) : moveCount len = (((len.toNat : Int) - 40) % 4294967296).toNat := by
  rw [moveCount, UInt32.ofInt, UInt32.toNat_ofNat', iphLen]
  omega

theorem len_sub (len : UInt16) (hl : UInt8) : (len - hl.toUInt16).toNat = (65536 - hl.toNat + len.toNat) % 65536 := by
  rw [UInt16.toNat_sub, UInt8.toNat_toUInt16]

/-- What is moved ends where the packet does, if the header leaves it the IPv6 header. -/
theorem moveCount_of_le {len : UInt16} {hl : UInt8} (h : 40 + hl.toNat ≤ len.toNat) :
    (len - hl.toUInt16).toNat = len.toNat - hl.toNat ∧ moveCount (len - hl.toUInt16) = len.toNat - hl.toNat - 40 := by
  have hlen := len.toNat_lt
  have hsub := len_sub len hl
  have hcount := moveCount_eq (len - hl.toUInt16)
  constructor
  · omega
  · omega

/-- The packet is `u₀`, without the headers that have been removed. -/
structure Removing (u₀ u : Uip) : Prop where
  len : u.len.toNat ≤ u₀.len.toNat
  extLen : u.extLen = 0
  moved : ∀ j, 40 + j < u.len.toNat → u.buf (40 + j) = u₀.buf (40 + (u₀.len.toNat - u.len.toNat) + j)

theorem Removing.start (u : Uip) : Removing u { u with extLen := 0 } :=
  ⟨Nat.le_refl _, rfl, fun j _ => by rw [Nat.sub_self, Nat.add_zero]⟩

/-- The type of the first header, and how much has been removed. -/
def removedPlace (u₀ u : Uip) : UInt8 × Nat := (u.buf proto, u₀.len.toNat - u.len.toNat)

section
variable (h : Removing u₀ u)
include h

theorem Removing.ext : u.ext = 40 := by rw [Uip.ext, h.extLen]; rfl

theorem Removing.extHdrLen (hlen : 42 ≤ u.len.toNat) :
    (ExtHeaders.extHdrLen u).toNat = lengthAt u₀.buf (u₀.len.toNat - u.len.toNat) := by
  rw [ExtHeaders.extHdrLen, lengthAt, h.ext, h.moved 1 hlen, iphLen]

theorem cutAccesses_ok : (∀ a ∈ cutAccesses u, a.Ok u.len.toNat) ↔
    42 ≤ u.len.toNat ∧ 40 + (extHdrLen u).toNat ≤ u.len.toNat := by
  have hcarry : 42 ≤ u.len.toNat →
      ∀ a ∈ (if u.buf lenLo < u.buf lenLo - extHdrLen u then [Access.read lenHi 1, .write lenHi 1] else []),
        a.Ok u.len.toNat := by
    intro hlen
    split
    · rw [forall_mem_cons, forall_mem_singleton, read_ok, write_ok, lenHi]
      omega
    · exact nofun
  rw [cutAccesses, h.ext, forall_mem_append, forall_mem_append]
  simp only [forall_mem_cons, not_mem_nil, false_imp_iff, implies_true, and_true, read_ok, write_ok, proto, lenLo]
  constructor
  · rintro ⟨⟨⟨_, _, _, hlen, _⟩, _⟩, hmove, _⟩
    refine ⟨hlen, ?_⟩
    by_contra hno
    omega
  · rintro ⟨hlen, hfit⟩
    have hcount := (moveCount_of_le hfit).2
    exact ⟨⟨by omega, hcarry hlen⟩, by omega, by omega⟩

/-- A round stays in the packet if and only if the first header does. -/
theorem removeRound_ok : (∀ a ∈ (removeRound u).2, a.2.Ok a.1.toNat) ↔
    RemovedIn u₀.buf u₀.len.toNat (removedPlace u₀ u) := by
  have hlen := h.len
  rw [removeRound, RemovedIn, removedPlace]
  dsimp only
  split
  next htype =>
    have htypes : u.buf proto = protoHbho ∨ u.buf proto = protoRouting ∨ u.buf proto = protoDesto := by
      rcases htype with hh | hr
      · exact .inl hh
      · exact .inr (.inl hr)
    rw [imp_iff_right htypes, imp_iff_right htype, forall_mem_map, cutAccesses_ok h, proto, iphLen]
    constructor
    · rintro ⟨htwo, hfit⟩
      rw [h.extHdrLen htwo] at hfit
      omega
    · rintro ⟨_, htwo, hfit⟩
      have hlong : 42 ≤ u.len.toNat := by omega
      rw [h.extHdrLen hlong]
      omega
  next hkeep =>
    rw [and_iff_left fun hno => absurd hno hkeep]
    split
    next htype =>
      rw [imp_iff_right (.inr (.inr htype))]
      simp only [forall_mem_cons, not_mem_nil, false_imp_iff, implies_true, and_true, read_ok, proto, iphLen]
      rw [h.ext]
      omega
    next hdesto =>
      have hno : ¬ (u.buf proto = protoHbho ∨ u.buf proto = protoRouting ∨ u.buf proto = protoDesto) := by
        rintro (hh | hr | hd)
        · exact hkeep (.inl hh)
        · exact hkeep (.inr hr)
        · exact hdesto hd
      rw [and_iff_left fun h => absurd h hno, forall_mem_singleton, read_ok]
      dsimp only
      omega

end

theorem uip_put_buf (o : Nat) (bs : List UInt8) (u : Uip) : (u.put o bs).buf = store u.buf o bs := rfl

theorem cutHeader_buf_eq (u : Uip) :
    (cutHeader u).buf =
      store (subLen (extHdrLen u) (u.put proto [u.buf u.ext])).buf u.ext
        (slice (subLen (extHdrLen u) (u.put proto [u.buf u.ext])).buf (u.ext + (extHdrLen u).toNat)
          (moveCount (u.len - (extHdrLen u).toUInt16))) := rfl

theorem cutHeader_len (u : Uip) : (cutHeader u).len = u.len - (extHdrLen u).toUInt16 := rfl

theorem cutHeader_buf (h : Removing u₀ u) (hfit : 40 + (extHdrLen u).toNat ≤ u.len.toNat) {j : Nat} (hj : 40 + j +
    (extHdrLen u).toNat < u.len.toNat) : (cutHeader u).buf (40 + j) = u.buf (40 + (extHdrLen u).toNat + j) := by
  have hcount := (moveCount_of_le hfit).2
  rw [cutHeader_buf_eq, h.ext, store_inside (by rw [length_slice]; omega), getD_slice _ (by omega), subLen,
    uip_put_buf, store_outside (by right; rw [length_cons, length_singleton, lenHi]; omega), uip_put_buf,
    store_outside (by right; rw [length_singleton, proto]; omega)]

theorem cutHeader_proto (h : Removing u₀ u) : (cutHeader u).buf proto = u.buf 40 := by
  rw [cutHeader_buf_eq, h.ext, store_outside (by rw [proto]; omega), subLen, uip_put_buf,
    store_outside (by right; rw [length_cons, length_singleton, lenHi, proto]), uip_put_buf]
  exact store_inside (i := 0) Nat.one_pos

theorem removeRound_go {t : Uip} {log : List Timed} (h : Removing u₀ u)
    (hin : RemovedIn u₀.buf u₀.len.toNat (removedPlace u₀ u)) (hgo : removeRound u = (.inl t, log)) :
    Removing u₀ t ∧ nextRemoved u₀.buf (removedPlace u₀ u) = some (removedPlace u₀ t) := by
  rw [removeRound] at hgo
  split at hgo
  next htype =>
    cases hgo
    have hle := h.len
    have htwo : 42 ≤ u.len.toNat ∧ 40 + (extHdrLen u).toNat ≤ u.len.toNat := by
      have hok := (removeRound_ok h).mpr hin
      rw [removeRound, if_pos htype, forall_mem_map] at hok
      exact (cutAccesses_ok h).mp hok
    obtain ⟨hlong, hfit⟩ := htwo
    have hlen := (moveCount_of_le hfit).1
    rw [← cutHeader_len] at hlen
    have hremoved : u₀.len.toNat - (cutHeader u).len.toNat =
        u₀.len.toNat - u.len.toNat + (extHdrLen u).toNat := by omega
    refine ⟨⟨by omega, h.extLen, fun j hj => ?_⟩, ?_⟩
    · rw [cutHeader_buf h hfit (by omega), add_assoc, h.moved _ (by omega), hremoved]
      congr 1
      omega
    · rw [nextRemoved, removedPlace, removedPlace, if_pos htype]
      rw [cutHeader_proto h, hremoved, h.extHdrLen hlong, h.moved 0 (by omega)]
      rfl
  · split at hgo <;> cases hgo

theorem removeRound_stop {r : Uip} {log : List Timed} (hstop : removeRound u = (.inr r, log)) :
    nextRemoved u₀.buf (removedPlace u₀ u) = none := by
  rw [removeRound] at hstop
  split at hstop
  · cases hstop
  next hkeep => exact if_neg hkeep

theorem remove_stays_iff (u : Uip) :
    Stays (fun a : Timed => a.2.Ok a.1.toNat) (rplRemoveHeader u) ↔ HeadersFit u := by
  have hstart : Removing u { u with extLen := 0 } := Removing.start u
  have hplace : removedPlace u { u with extLen := 0 } = (u.buf proto, 0) := by rw [removedPlace, Nat.sub_self]
  rw [HeadersFit, ← hplace]
  exact loop_ends_along (removedPlace u) (fun _ hs => removeRound_ok hs)
    (fun _ _ _ hs hin hgo => removeRound_go hs hin hgo) (fun _ _ _ _ hstop => removeRound_stop hstop) hstart

end Removal

/-- Each walk over the extension headers of a packet ends in the packet if and only if its places are in the
    packet, up to a last one. -/
theorem walks_stay_iff {c : RplNs.Config} (v : View) (dag : Option c.Dag) (s : RplNs.State c) (u : Uip) :
    (Stays (Access.Ok u.len.toNat) (extHdrOptionsProcess v u) ↔ OptionsFit v u) ∧
      (Stays (Access.Ok u.len.toNat) (srhGetNextHop dag s u) ↔ RoutingFits u (NextHopIn u.len.toNat)) ∧
      (Stays (Access.Ok u.len.toNat) (rplProcessSrhHeader u) ↔ RoutingFits u (SrhIn u.buf u.len.toNat)) ∧
      (Stays (fun a : Timed => a.2.Ok a.1.toNat) (rplRemoveHeader u) ↔ HeadersFit u) :=
  ⟨options_stay_iff v u, nextHop_stays_iff dag s u, processSrh_stays_iff u, remove_stays_iff u⟩

/-- A packet whose first hop-by-hop header names itself as the next one: its length in bytes is 256, and its first
    option comes back to itself. -/
def circular : Uip where
  buf i := if i = 41 then 31 else if i = 42 then 1 else if i = 43 then 254 else 0
  len := 48
  extLen := 0

/-- Neither the walk over its options nor the search for its routing header ends. -/
theorem walks_of_circular : ¬ (∃ v, Stays (Access.Ok 48) (extHdrOptionsProcess v circular)) ∧
    ¬ Stays (Access.Ok 48) (rplProcessSrhHeader circular) := by
  constructor
  · rintro ⟨v, fuel, r, hr, _⟩
    have hround : processOption v circular 2 = (.inl 2, [.read 41 1, .read 42 1, .read 43 1]) := rfl
    rw [extHdrOptionsProcess, loop_stuck hround] at hr
    cases hr
  · rintro ⟨fuel, r, hr, _⟩
    have hround : seekRouting circular.buf (processSrhAfter circular) (40, 0) =
        (.inl (40, 0), [.read 40 1, .read 41 1]) := rfl
    cases fuel with
    | zero => cases hr
    | succ fuel =>
      have hfirst : seekRouting circular.buf (processSrhAfter circular) (proto, 0) =
          (.inl (40, 0), [.read 6 1, .read 41 1]) := rfl
      rw [rplProcessSrhHeader, loop, hfirst] at hr
      obtain ⟨rest, hrest, _⟩ := Option.map_eq_some_iff.mp hr
      rw [loop_stuck hround] at hrest
      cases hrest

end CSync.ExtHeaders
