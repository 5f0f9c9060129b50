import CSync.Rpl.ConfigRuns
import CSync.Rpl.Messages

/-! The bounds of DIOs and DAOs.

    A DIO is checked option by option, but for its base, the second byte of an option and the metric of a container;
    of a DAO nothing is checked. A prefix that a DAG takes over from a DIO without a check is copied later. The
    checksum of a reply leaves the received payload when the extension headers are longer than the reply. -/

namespace CSync.RplDag

/-- Bytes that were received; of those that are copied, at most sixteen; for a checksum, also those just written. -/
def Access.InBounds (length : Nat) : Access → Prop
  | .read index count => index + count ≤ length
  | .copy index count => index + count ≤ length ∧ count ≤ 16
  | .checksum written count => count ≤ max written length

def InBounds (p : Packet) (log : List Access) : Prop := ∀ a ∈ log, a.InBounds p.payloadLength

@[simp] theorem inBounds_nil (p : Packet) : InBounds p [] := nofun

@[simp] theorem inBounds_read (p : Packet) (index count : Nat) (log : List Access) :
    InBounds p (.read index count :: log) ↔ index + count ≤ p.payloadLength ∧ InBounds p log :=
  List.forall_mem_cons

@[simp] theorem inBounds_copy (p : Packet) (index count : Nat) (log : List Access) :
    InBounds p (.copy index count :: log) ↔ (index + count ≤ p.payloadLength ∧ count ≤ 16) ∧ InBounds p log :=
  List.forall_mem_cons

@[simp] theorem inBounds_append (p : Packet) (log log' : List Access) :
    InBounds p (log ++ log') ↔ InBounds p log ∧ InBounds p log' := List.forall_mem_append

variable {p : Packet}

theorem bufferLength_le (h : 0 < p.payloadLength) : p.bufferLength.toNat ≤ p.payloadLength := by
  rw [Packet.payloadLength] at h ⊢
  rw [Packet.bufferLength, UInt16.toNat_toUInt8, UInt16.toNat_sub]
  have hlen := p.uipLen.toNat_lt
  omega

/-! ### Replies -/

theorem hdrLen_toNat (p : Packet) : p.hdrLen.toNat = 44 + p.extLen.toNat := by
  have hext := p.extLen.toNat_lt
  rw [Packet.hdrLen, UInt16.toNat_add, UInt8.toNat_toUInt16]
  change (44 + _) % _ = _
  omega

/-- The extension headers are at most as long as the ICMP header and the new payload. -/
theorem inBounds_uipIcmp6Send (p : Packet) {payloadLen written : Nat} (hlen : payloadLen < 256)
    (hwritten : written < 256) (hthere : payloadLen ≤ max written p.payloadLength) :
    InBounds p (uipIcmp6Send p.extLen payloadLen written) ↔ p.extLen.toNat ≤ 4 + payloadLen := by
  have huip := p.uipLen.toNat_lt
  have hext := p.extLen.toNat_lt
  have hroom : p.payloadLength = p.uipLen.toNat - (44 + p.extLen.toNat) := by
    rw [Packet.payloadLength, hdrLen_toNat]
  have hupper : (UInt16.ofNat (4 + payloadLen) - p.extLen.toUInt16).toNat =
      (65536 + (4 + payloadLen) - p.extLen.toNat) % 65536 := by
    rw [UInt16.toNat_sub, UInt8.toNat_toUInt16, UInt16.toNat_ofNat']
    omega
  rw [uipIcmp6Send, InBounds, List.forall_mem_singleton, Access.InBounds, hupper]
  omega

/-! ### Options of DIOs -/

/-- A metric container that is looked into. -/
def Measures (p : Packet) (i : Nat) : Prop :=
  i + 2 + (p.buffer (i + 1)).toNat ≤ p.bufferLength.toNat ∧ p.buffer i = optionDagMetricContainer ∧
    4 ≤ (p.buffer (i + 1)).toNat ∧ (p.buffer (i + 2) = dagMcEtx ∨ p.buffer (i + 2) = dagMcEnergy)

/-- An option has its length, and a metric that is looked into is there. -/
def DioGood (p : Packet) (i : Nat) : Prop :=
  p.buffer i = optionPad1 ∨ i + 1 < p.payloadLength ∧ (Measures p i → i + 8 ≤ p.payloadLength)

/-- How far it is to the next option of a DIO, unless the DIO is dropped at this one. -/
def dioNext (p : Packet) (i : Nat) : Option Nat :=
  let b := p.buffer
  let len := 2 + (b (i + 1)).toNat
  if b i = optionPad1 then some 1
  else if p.bufferLength.toNat < len + i then none
  else if b i = optionDagMetricContainer then
    if len < 6 then none
    else if b (i + 2) = dagMcNone ∨ b (i + 2) = dagMcEtx ∨ b (i + 2) = dagMcEnergy then some len else none
  else if b i = optionRouteInfo then
    if len < 9 then none
    else if ((b (i + 2)).toNat + 7) / 8 + 8 ≤ len ∧ b (i + 2) ≤ 128 then some len else none
  else if b i = optionDagConf then if len ≠ 16 then none else some len
  else if b i = optionPrefixInfo then if len ≠ 32 then none else some len
  else some len

theorem length_dioMetricContainer (b : Nat → UInt8) (i length : Nat) (header : List Access) (dio : DioMessage) :
    (dioMetricContainer b i length header dio).1.length? =
      if b (i + 2) = dagMcNone ∨ b (i + 2) = dagMcEtx ∨ b (i + 2) = dagMcEnergy then some length else none := by
  rw [dioMetricContainer]
  by_cases hnone : b (i + 2) = dagMcNone
  · rw [if_pos hnone, if_pos (.inl hnone)]
    rfl
  · rw [if_neg hnone]
    by_cases hetx : b (i + 2) = dagMcEtx
    · rw [if_pos hetx, if_pos (.inr (.inl hetx))]
      rfl
    · rw [if_neg hetx]
      by_cases henergy : b (i + 2) = dagMcEnergy
      · rw [if_pos henergy, if_pos (.inr (.inr henergy))]
        rfl
      · rw [if_neg henergy, if_neg (by simp [hnone, hetx, henergy])]
        rfl

theorem length_dioOption (p : Packet) (i : Nat) (dio : DioMessage) : (dioOption p i dio).1.length? = dioNext p i := by
  rw [dioOption, dioNext]
  dsimp only
  split
  · rfl
  · split
    · rfl
    · split
      · split
        · rfl
        · exact length_dioMetricContainer ..
      · split
        · split
          · rfl
          · split
            · rfl
            · rfl
        · split
          · split
            · rfl
            · rfl
          · split
            · split
              · rfl
              · rfl
            · rfl

theorem inBounds_dioMetricContainer {i : Nat} (dio : DioMessage)
    (hfits : 2 + (p.buffer (i + 1)).toNat + i ≤ p.bufferLength.toNat) (hlen : p.bufferLength.toNat ≤ p.payloadLength)
    (hsix : 6 ≤ 2 + (p.buffer (i + 1)).toNat) (htype : p.buffer i = optionDagMetricContainer) (length : Nat) :
    InBounds p (dioMetricContainer p.buffer i length [.read i 1, .read (i + 1) 1] dio).2 ↔
      i + 1 < p.payloadLength ∧ (Measures p i → i + 8 ≤ p.payloadLength) := by
  have hlooks : Measures p i ↔ p.buffer (i + 2) = dagMcEtx ∨ p.buffer (i + 2) = dagMcEnergy :=
    ⟨fun h => h.2.2.2, fun h => ⟨by omega, htype, by omega, h⟩⟩
  rw [hlooks, dioMetricContainer]
  dsimp only
  split
  next hnone =>
    have hno : ¬(p.buffer (i + 2) = dagMcEtx ∨ p.buffer (i + 2) = dagMcEnergy) := by
      rw [hnone]
      decide
    simp only [hno, inBounds_append, inBounds_read, inBounds_nil, false_implies, and_true]
    omega
  · split
    next hetx =>
      simp only [hetx, inBounds_append, inBounds_read, inBounds_nil, true_or, true_implies, and_true]
      omega
    · split
      next henergy =>
        simp only [henergy, inBounds_append, inBounds_read, inBounds_nil, or_true, true_implies, and_true]
        omega
      next hetx henergy =>
        simp only [hetx, henergy, inBounds_append, inBounds_read, inBounds_nil, or_self, false_implies, and_true]
        omega

theorem inBounds_dioOption {i : Nat} (hlen : p.bufferLength.toNat ≤ p.payloadLength)
    (hi : i < p.bufferLength.toNat) (dio : DioMessage) : InBounds p (dioOption p i dio).2 ↔ DioGood p i := by
  rw [dioOption, DioGood]
  split
  next hpad =>
    simp only [hpad, inBounds_read, inBounds_nil, true_or, iff_true, and_true]
    omega
  next hpad =>
    have hother : ∀ h : ¬(i + 2 + (p.buffer (i + 1)).toNat ≤ p.bufferLength.toNat ∧
        p.buffer i = optionDagMetricContainer ∧ 4 ≤ (p.buffer (i + 1)).toNat), ¬Measures p i :=
      fun h hm => h ⟨hm.1, hm.2.1, hm.2.2.1⟩
    simp only [hpad, false_or]
    split
    next hcut =>
      have hno := hother fun h => by omega
      simp only [hno, inBounds_read, inBounds_nil, false_implies, and_true]
      omega
    next hcut =>
      split
      next htype =>
        split
        next hshort =>
          have hno := hother fun h => by omega
          simp only [hno, inBounds_read, inBounds_nil, false_implies, and_true]
          omega
        next hsix => exact inBounds_dioMetricContainer dio (Nat.not_lt.mp hcut) hlen (Nat.not_lt.mp hsix) htype _
      next htype =>
        have hno := hother fun h => htype h.2.1
        simp only [hno, false_implies, and_true]
        split
        · split
          · simp only [inBounds_read, inBounds_nil, and_true]
            omega
          next hnine =>
            split
            next hprefix =>
              have hbits := UInt8.le_iff_toNat_le.mp hprefix.2
              change (p.buffer (i + 2)).toNat ≤ 128 at hbits
              simp only [inBounds_append, inBounds_read, inBounds_copy, inBounds_nil, and_true]
              omega
            · simp only [inBounds_append, inBounds_read, inBounds_nil, and_true]
              omega
        · split
          · split
            · simp only [inBounds_read, inBounds_nil, and_true]
              omega
            · simp only [inBounds_append, inBounds_read, inBounds_nil, and_true]
              omega
          · split
            · split
              · simp only [inBounds_read, inBounds_nil, and_true]
                omega
              · simp only [inBounds_append, inBounds_read, inBounds_copy, inBounds_nil, and_true]
                omega
            · simp only [inBounds_read, inBounds_nil, and_true]
              omega

theorem dioNext_pos {i length : Nat} (h : dioNext p i = some length) : 0 < length := by
  rw [dioNext] at h
  split_ifs at h <;> cases h <;> omega

/-- A DIO with its base, and with options that are good as far as it is looked at. -/
def DioFits (p : Packet) : Prop :=
  24 ≤ p.payloadLength ∧ Lib.Fits (DioGood p) (dioNext p) p.bufferLength.toNat 24

theorem dioParse_ends (defaults : DioDefaults) (p : Packet) : (dioParse defaults p).isSome := by
  rw [dioParse, Option.isSome_map]
  refine Lib.walkOptions_ends (fun i dio length t h => ?_) ?_ (by decide)
  · refine dioNext_pos (p := p) (i := i) ?_
    rw [← length_dioOption p i dio, h]
    rfl
  · have hlt := p.bufferLength.toNat_lt
    omega

variable {defaults : DioDefaults}

theorem inBounds_dioParse {r : Option DioMessage × List Access}
    (h : dioParse defaults p = some r) : InBounds p r.2 ↔ DioFits p := by
  obtain ⟨w, hw, rfl⟩ := Option.map_eq_some_iff.mp h
  rw [DioFits, inBounds_append]
  simp only [inBounds_read, inBounds_copy, inBounds_nil, and_true]
  constructor
  · rintro ⟨hbase, hlog⟩
    have hlen := bufferLength_le (p := p) (by omega)
    exact ⟨by omega, (Lib.walkOptions_fits (fun i dio hi => inBounds_dioOption hlen hi dio)
      (fun i dio _ => length_dioOption p i dio) hw).mp hlog⟩
  · rintro ⟨hbase, hfits⟩
    have hlen := bufferLength_le (p := p) (by omega)
    exact ⟨by omega, (Lib.walkOptions_fits (fun i dio hi => inBounds_dioOption hlen hi dio)
      (fun i dio _ => length_dioOption p i dio) hw).mpr hfits⟩

/-! ### DAOs -/

/-- An option has its length, and what is looked into is there: a target of at most 128 bits, the lifetime of a
    transit, and without storing the address of the parent. -/
def DaoGood (storing : Bool) (p : Packet) (i : Nat) : Prop :=
  p.buffer i = optionPad1 ∨ i + 1 < p.payloadLength ∧
    (p.buffer i = optionTarget →
      i + 4 + ((p.buffer (i + 3)).toNat + 7) / 8 ≤ p.payloadLength ∧ (p.buffer (i + 3)).toNat ≤ 128) ∧
    (p.buffer i = optionTransit → i + 6 ≤ p.payloadLength ∧
      (storing = false → 20 ≤ 2 + (p.buffer (i + 1)).toNat → i + 22 ≤ p.payloadLength))

/-- How far it is to the next option of a DAO. -/
def daoNext (p : Packet) (i : Nat) : Option Nat :=
  if p.buffer i = optionPad1 then some 1 else some (2 + (p.buffer (i + 1)).toNat)

theorem length_daoOption (storing : Bool) (p : Packet) (i : Nat) (dao : DaoMessage) :
    (daoOption storing p.buffer i dao).1.length? = daoNext p i := by
  rw [daoOption, daoNext]
  dsimp only
  split
  · rfl
  · split
    · rfl
    · split
      · split
        · rfl
        · rfl
      · rfl

theorem inBounds_daoOption {i : Nat} (hi : i < p.payloadLength) (storing : Bool) (dao : DaoMessage) :
    InBounds p (daoOption storing p.buffer i dao).2 ↔ DaoGood storing p i := by
  rw [daoOption, DaoGood]
  split
  next hpad =>
    simp only [hpad, inBounds_read, inBounds_nil, true_or, iff_true, and_true]
    omega
  next hpad =>
    simp only [hpad, false_or]
    split
    next htarget =>
      have hno : ¬optionTarget = optionTransit := by decide
      simp only [htarget, hno, inBounds_append, inBounds_read, inBounds_copy, inBounds_nil, true_implies,
        false_implies, and_true]
      omega
    next htarget =>
      split
      next htransit =>
        have hno : ¬optionTransit = optionTarget := by decide
        split
        next hparent =>
          have hsome : (storing = false → 20 ≤ 2 + (p.buffer (i + 1)).toNat → i + 22 ≤ p.payloadLength) ↔
              i + 22 ≤ p.payloadLength := ⟨fun h => h hparent.1 hparent.2, fun h _ _ => h⟩
          rw [hsome]
          simp only [htransit, hno, inBounds_append, inBounds_read, inBounds_copy, inBounds_nil, true_implies,
            false_implies, and_true, true_and]
          omega
        next hparent =>
          have hnone : (storing = false → 20 ≤ 2 + (p.buffer (i + 1)).toNat → i + 22 ≤ p.payloadLength) ↔ True :=
            iff_true_intro fun hmode hsize => absurd ⟨hmode, hsize⟩ hparent
          rw [hnone]
          simp only [htransit, hno, inBounds_append, inBounds_read, inBounds_nil, true_implies, false_implies,
            and_true, true_and]
          omega
      next htransit =>
        simp only [htarget, htransit, inBounds_read, inBounds_nil, false_implies, and_true]
        omega

theorem daoNext_pos {i length : Nat} (h : daoNext p i = some length) : 0 < length := by
  rw [daoNext] at h
  split_ifs at h <;> cases h <;> omega

/-- The DAO comes to its options: it is for the current DAG, and shows no loop. -/
def ReachesOptions {c : Config} (p : Packet) (sender : Option c.Nbr) (s : State c) : Prop :=
  otherDag p.buffer s = false ∧ (s.isStoring = true → ∀ src ∈ daoSender sender s, daoLoop src s = false)

/-- The lifetime in the last transit from an index on. -/
def daoLifetime (p : Packet) : Nat → Nat → UInt8 → UInt8
  | 0, _, lifetime => lifetime
  | fuel + 1, i, lifetime =>
    if i < p.bufferLength.toNat then
      daoLifetime p fuel (i + (daoNext p i).getD 0) (if p.buffer i = optionTransit then p.buffer (i + 5) else lifetime)
    else lifetime

/-- In storing mode the DAO goes on to the preferred parent. -/
def Forwards (t : DaoContext) (lifetime : UInt8) : Prop :=
  t.parentAddr = true ∧
    if t.multicastGroup then t.unicast = true
    else if lifetime = 0 then t.purged = true
    else t.room = true ∧ t.unicast = true

/-- In storing mode the DAO is refused, and its sender is told so. -/
def Refuses (p : Packet) (t : DaoContext) (lifetime : UInt8) : Prop :=
  t.multicastGroup = false ∧ lifetime ≠ 0 ∧ t.room = false ∧ t.withDaoAck = true ∧ p.buffer 1 &&& daoKFlag ≠ 0

/-- The extension headers are at most as long as what goes on, or as the refusal. -/
def ReplyFits (p : Packet) (t : DaoContext) (lifetime : UInt8) : Prop :=
  (Forwards t lifetime → p.extLen.toNat ≤ 4 + p.bufferLength.toNat) ∧
    (Refuses p t lifetime → p.extLen.toNat ≤ 8)

/-- Options that are good, and a reply that fits. -/
def OptionsFit {c : Config} (storing : Bool) (p : Packet) (t : DaoContext) (s : State c) : Prop :=
  Lib.Fits (DaoGood storing p) (daoNext p) p.bufferLength.toNat (daoOptions p.buffer) ∧
    (storing = true → ReplyFits p t (daoLifetime p 256 (daoOptions p.buffer) s.inst.defaultLifetime))

/-- A DAO with the instance; and if the node is in that instance, with all before the options, and with options and a
    reply that fit if it comes to them. -/
def DaoFits {c : Config} (p : Packet) (sender : Option c.Nbr) (t : DaoContext) (s : State c) : Prop :=
  1 ≤ p.payloadLength ∧
    (s.inst.used = true → s.inst.instanceId = p.buffer 0 → 1 ≤ s.inst.mop →
      daoOptions p.buffer ≤ p.payloadLength ∧ (ReachesOptions p sender s → OptionsFit s.isStoring p t s))

variable {c : Config} {s : State c} {t : DaoContext}

theorem inBounds_daoHeader (p : Packet) : InBounds p (daoHeader p.buffer) ↔ daoOptions p.buffer ≤ p.payloadLength := by
  rw [daoHeader, daoOptions, inBounds_append]
  split
  · simp only [inBounds_read, inBounds_nil, and_true]
    omega
  · simp only [inBounds_read, inBounds_nil, and_true]
    omega

variable {r : Option DaoMessage × List Access} {dao : DaoMessage}

/-- LOOP: no option of a DAO drops it, and the lifetime is that of the last transit. -/
theorem walkOptions_lifetime {storing : Bool} {n fuel i : Nat} (hn : n = p.bufferLength.toNat)
    (h : Lib.walkOptions (daoOption storing p.buffer) n fuel i dao = some r) :
    ∃ dao', r.1 = some dao' ∧ dao'.lifetime = daoLifetime p fuel i dao.lifetime ∧ dao'.flags = dao.flags := by
  induction fuel generalizing i dao r with
  | zero => cases h
  | succ fuel ih =>
    rw [daoLifetime]
    by_cases hi : i < n
    · have hstep : ∃ dao₁ log, daoOption storing p.buffer i dao = (.advance ((daoNext p i).getD 0) dao₁, log) ∧
          dao₁.lifetime = (if p.buffer i = optionTransit then p.buffer (i + 5) else dao.lifetime) ∧
          dao₁.flags = dao.flags := by
        rw [daoOption, daoNext]
        by_cases hpad : p.buffer i = optionPad1
        · have hno : ¬optionPad1 = optionTransit := by decide
          rw [if_pos hpad, if_pos hpad, hpad, if_neg hno]
          exact ⟨_, _, rfl, rfl, rfl⟩
        · rw [if_neg hpad, if_neg hpad]
          by_cases htarget : p.buffer i = optionTarget
          · have hno : ¬optionTarget = optionTransit := by decide
            rw [if_pos htarget, htarget, if_neg hno]
            exact ⟨_, _, rfl, rfl, rfl⟩
          · rw [if_neg htarget]
            split
            · split <;> exact ⟨_, _, rfl, rfl, rfl⟩
            · exact ⟨_, _, rfl, rfl, rfl⟩
      obtain ⟨dao₁, log, hoption, hlifetime, hflags⟩ := hstep
      rw [Lib.walkOptions_advance hi hoption] at h
      obtain ⟨rest, hrest, rfl⟩ := Option.map_eq_some_iff.mp h
      obtain ⟨dao', hdao, hlast, hsame⟩ := ih hrest
      rw [if_pos (hn ▸ hi), ← hlifetime]
      exact ⟨dao', hdao, hlast, hsame.trans hflags⟩
    · rw [Lib.walkOptions_finish (Nat.not_lt.mp hi)] at h
      cases h
      rw [if_neg (hn ▸ hi)]
      exact ⟨dao, rfl, rfl, rfl⟩

theorem daoWalk_ends (storing : Bool) (p : Packet) (t : DaoContext) (s : State c) : (daoWalk storing p t s).isSome := by
  rw [daoWalk, Option.isSome_map]
  refine Lib.walkOptions_ends (fun i dao length t h => ?_) ?_ (by decide)
  · refine daoNext_pos (p := p) (i := i) ?_
    rw [← length_daoOption storing p i dao, h]
    rfl
  · have hlt := p.bufferLength.toNat_lt
    omega

theorem inBounds_accepted (dao : DaoMessage) : InBounds p (daoAckOutput t dao 0) := by
  rw [daoAckOutput]
  split
  · exact List.forall_mem_singleton.mpr (le_max_left 4 p.payloadLength)
  · exact inBounds_nil p

theorem inBounds_refused (dao : DaoMessage) :
    InBounds p (daoAckOutput t dao p.extLen) ↔
      (t.withDaoAck = true → dao.flags &&& daoKFlag ≠ 0 → p.extLen.toNat ≤ 8) := by
  rw [daoAckOutput]
  split
  next hack =>
    rw [inBounds_uipIcmp6Send p (by decide) (by decide) (le_max_left ..)]
    exact ⟨fun h _ _ => h, fun h => h hack.1 hack.2⟩
  next hack => exact ⟨fun _ hwith hflag => absurd ⟨hwith, hflag⟩ hack, fun _ => inBounds_nil p⟩

section
variable (hbase : 4 ≤ p.payloadLength)
include hbase

theorem inBounds_forwardDao :
    InBounds p (forwardDao p t) ↔ (t.parentAddr = true → p.extLen.toNat ≤ 4 + p.bufferLength.toNat) := by
  rw [forwardDao]
  split
  next hparent =>
    have hlen := bufferLength_le (p := p) (by omega)
    rw [inBounds_uipIcmp6Send p p.bufferLength.toNat_lt (by decide) (hlen.trans (le_max_right ..))]
    exact ⟨fun h _ => h, fun h => h hparent⟩
  next hparent => exact ⟨fun _ hyes => absurd hyes hparent, fun _ => inBounds_nil p⟩

theorem inBounds_replyStoring (hflags : dao.flags = p.buffer 1) :
    InBounds p (replyStoring p t dao) ↔ ReplyFits p t dao.lifetime := by
  have hforward := inBounds_forwardDao (t := t) hbase
  have hrefused := inBounds_refused (p := p) (t := t) dao
  have haccepted : InBounds p (daoAckOutput t dao 0) ↔ True := iff_true_intro (inBounds_accepted dao)
  rw [hflags] at hrefused
  rw [replyStoring, ReplyFits, Forwards, Refuses]
  cases t.multicastGroup
  · by_cases hzero : dao.lifetime = 0
    · cases t.purged <;> simp [hzero, hforward, haccepted]
    · cases t.room
      · simp [hzero, hrefused]
      · cases t.unicast <;> cases t.installed <;> simp [hzero, hforward, haccepted]
  · cases t.unicast <;> simp [hforward]

theorem inBounds_daoReply (storing : Bool)
    (hflags : dao.flags = p.buffer 1) :
    InBounds p (daoReply storing p t dao) ↔ (storing = true → ReplyFits p t dao.lifetime) := by
  cases storing with
  | true => simpa [daoReply] using inBounds_replyStoring hbase hflags
  | false =>
    refine ⟨nofun, fun _ => ?_⟩
    change InBounds p (replyNonstoring t dao)
    rw [replyNonstoring]
    split
    · exact inBounds_nil p
    · exact inBounds_accepted dao

end

theorem inBounds_daoWalk (hpos : 1 ≤ p.payloadLength) {storing : Bool}
    (h : daoWalk storing p t s = some r) :
    InBounds p r.2 ↔ daoOptions p.buffer ≤ p.payloadLength ∧ OptionsFit storing p t s := by
  obtain ⟨w, hw, rfl⟩ := Option.map_eq_some_iff.mp h
  obtain ⟨dao, hdao, hlifetime, hflags⟩ := walkOptions_lifetime rfl hw
  have hlen := bufferLength_le hpos
  have hfour : 4 ≤ daoOptions p.buffer := by
    rw [daoOptions]
    split <;> omega
  have hfits := Lib.walkOptions_fits (fun i dao hi => inBounds_daoOption (hi.trans_le hlen) storing dao)
    (fun i dao _ => length_daoOption storing p i dao) hw
  rw [inBounds_append, inBounds_append, inBounds_daoHeader, hdao, and_assoc]
  refine and_congr_right fun hheader => and_congr hfits ?_
  change InBounds p (daoReply storing p t dao) ↔ _
  rw [inBounds_daoReply (hfour.trans hheader) storing hflags, hlifetime]
  rfl

variable {r : State c × Option DaoMessage × List Access} {sender : Option c.Nbr}

theorem inBounds_daoInputStoring (hpos : 1 ≤ p.payloadLength) (hmode : s.isStoring = true)
    (h : daoInputStoring p sender t s = some r) :
    InBounds p r.2.2 ↔
      daoOptions p.buffer ≤ p.payloadLength ∧ (ReachesOptions p sender s → OptionsFit s.isStoring p t s) := by
  have hstops : ¬ReachesOptions p sender s → (InBounds p (daoHeader p.buffer) ↔
      daoOptions p.buffer ≤ p.payloadLength ∧ (ReachesOptions p sender s → OptionsFit s.isStoring p t s)) := by
    intro hno
    rw [inBounds_daoHeader]
    exact ⟨fun hheader => ⟨hheader, fun hyes => absurd hyes hno⟩, And.left⟩
  have hgoes : ∀ w, ReachesOptions p sender s → daoWalk true p t s = some w → (InBounds p w.2 ↔
      daoOptions p.buffer ≤ p.payloadLength ∧ (ReachesOptions p sender s → OptionsFit s.isStoring p t s)) := by
    intro w hyes hw
    rw [inBounds_daoWalk hpos hw, hmode]
    exact and_congr_right' ⟨fun hfits _ => hfits, fun hfits => hfits hyes⟩
  rw [daoInputStoring] at h
  split at h
  next hother =>
    cases h
    exact hstops fun hyes => Bool.false_ne_true (hyes.1.symm.trans hother)
  next hother =>
    have hother : otherDag p.buffer s = false := Bool.eq_false_of_not_eq_true hother
    split at h
    next hsender =>
      obtain ⟨w, hw, rfl⟩ := Option.map_eq_some_iff.mp h
      refine hgoes w ⟨hother, fun _ src hsrc => ?_⟩ hw
      rw [hsender] at hsrc
      cases hsrc
    next src hsender =>
      split at h
      next hloop =>
        cases h
        exact hstops fun hyes => Bool.false_ne_true ((hyes.2 hmode src hsender).symm.trans hloop)
      next hloop =>
        obtain ⟨w, hw, rfl⟩ := Option.map_eq_some_iff.mp h
        refine hgoes w ⟨hother, fun _ src' hsrc => ?_⟩ hw
        cases hsender.symm.trans hsrc
        exact Bool.eq_false_of_not_eq_true hloop

theorem inBounds_daoInputNonstoring (hpos : 1 ≤ p.payloadLength) (sender : Option c.Nbr) (hmode : s.isStoring = false)
    (h : daoInputNonstoring p t s = some r) :
    InBounds p r.2.2 ↔
      daoOptions p.buffer ≤ p.payloadLength ∧ (ReachesOptions p sender s → OptionsFit s.isStoring p t s) := by
  rw [daoInputNonstoring] at h
  split at h
  next hother =>
    cases h
    rw [inBounds_daoHeader]
    exact ⟨fun hheader => ⟨hheader, fun hyes => absurd (hyes.1.symm.trans hother) Bool.false_ne_true⟩, And.left⟩
  next hother =>
    obtain ⟨w, hw, rfl⟩ := Option.map_eq_some_iff.mp h
    have hyes : ReachesOptions p sender s :=
      ⟨Bool.eq_false_of_not_eq_true hother, fun hstoring => absurd (hmode.symm.trans hstoring) Bool.false_ne_true⟩
    rw [inBounds_daoWalk hpos hw, hmode]
    exact and_congr_right' ⟨fun hfits _ => hfits, fun hfits => hfits hyes⟩

theorem daoInput_ends (p : Packet) (sender : Option c.Nbr) (t : DaoContext) (s : State c) :
    (daoInput p sender t s).isSome := by
  have hwalk : ∀ storing u, ((daoWalk storing p t s).map fun r => ((u, r) : State c × _)).isSome := by
    intro storing u
    rw [Option.isSome_map]
    exact daoWalk_ends storing p t s
  rw [daoInput, Option.isSome_map]
  split
  · rfl
  · split
    · rw [daoInputStoring]
      split
      · rfl
      · split
        · exact hwalk true s
        · split
          · rfl
          · exact hwalk true _
    · split
      · rw [daoInputNonstoring]
        split
        · rfl
        · exact hwalk false s
      · rfl

theorem inBounds_daoInput (h : daoInput p sender t s = some r) : InBounds p r.2.2 ↔ DaoFits p sender t s := by
  obtain ⟨w, hw, rfl⟩ := Option.map_eq_some_iff.mp h
  rw [DaoFits, inBounds_read, zero_add]
  refine and_congr_right fun hpos => ?_
  split at hw
  next hnone =>
    cases hw
    refine ⟨fun _ hused hid => ?_, fun _ => inBounds_nil p⟩
    rcases hnone with hunused | hother
    · exact absurd (hunused.symm.trans hused) Bool.false_ne_true
    · exact absurd hid hother
  next hinst =>
    rw [not_or, Bool.not_eq_false, not_not] at hinst
    have hmode : ∀ {P : Prop}, 1 ≤ s.inst.mop → ((s.inst.used = true → s.inst.instanceId = p.buffer 0 →
        1 ≤ s.inst.mop → P) ↔ P) := fun hmop => ⟨fun h => h hinst.1 hinst.2 hmop, fun h _ _ _ => h⟩
    split at hw
    next hstoring =>
      rw [hmode ?_]
      · exact inBounds_daoInputStoring hpos hstoring hw
      · have hlt : 1 < s.inst.mop := of_decide_eq_true hstoring
        exact UInt8.le_of_lt hlt
    next hstoring =>
      have hstoring : s.isStoring = false := Bool.eq_false_of_not_eq_true hstoring
      split at hw
      next hone =>
        rw [hmode (UInt8.le_of_eq hone.symm)]
        exact inBounds_daoInputNonstoring hpos sender hstoring hw
      next hone =>
        cases hw
        refine ⟨fun _ _ _ hmop => ?_, fun _ => inBounds_nil p⟩
        have hle : ¬1 < s.inst.mop := of_decide_eq_false hstoring
        exact absurd (UInt8.le_antisymm (UInt8.not_lt.mp hle) hmop) hone

/-! ### Prefixes of DAGs -/

/-- At most as many bytes as an address has. -/
def Op.Short : Op → Prop
  | .copy length => length ≤ 16
  | .compare length => length ≤ 16
  | .divide _ => True
  | .shift _ => True
  | .interval .. => True

/-- INVARIANT: prefixes are not longer than an address, and what was copied and compared is not, either. -/
structure Copies (s : State c) : Prop where
  prefixes : ∀ d, (s.dag d).prefixInfo.length ≤ 128
  ops : ∀ o ∈ s.ops, o.Short

theorem Copies.op {o : Op} (h : Copies s) (ho : o.Short) : Copies (s.op o) := by
  refine ⟨h.prefixes, fun o' ho' => ?_⟩
  rcases List.mem_append.mp ho' with hold | hnew
  · exact h.ops o' hold
  · rw [List.mem_singleton.mp hnew]
    exact ho

theorem framed_copies : Framed (fun p => p.length ≤ 128) (Copies (c := c)) where
  same := by
    intro s t hs hsame
    refine ⟨fun d => ?_, ?_⟩
    · rw [hsame.prefixInfo]
      exact hs.prefixes d
    · rw [hsame.ops]
      exact hs.ops
  prefixes hs := hs.prefixes
  store := by
    intro s d p hp hs
    refine ⟨fun k => ?_, hs.ops⟩
    change (Function.update s.dag d _ k).prefixInfo.length ≤ 128
    by_cases hk : k = d
    · rw [hk, Function.update_self]
      exact hp
    · rw [Function.update_of_ne hk]
      exact hs.prefixes k
  copy := by
    intro s p hp hs
    refine hs.op ?_
    have hbits : p.length.toNat ≤ 128 := UInt8.le_iff_toNat_le.mp hp
    change (p.length.toNat + 7) / 8 ≤ 16
    omega
  compare := by
    intro s p hp hs
    refine hs.op ?_
    have hbits : p.length.toNat ≤ 128 := UInt8.le_iff_toNat_le.mp hp
    change p.length.toNat / 8 ≤ 16
    omega
  short _ hp := hp

theorem stable_copies : Stable (fun p => p.length ≤ 128) (Copies (c := c)) where
  toFramed := framed_copies
  divide hs := hs.op trivial
  restart _ hs := ⟨hs.prefixes, hs.ops⟩
  double _ hs := ⟨hs.prefixes, hs.ops⟩
  newDioInterval := by
    intro s hs
    have hshift := hs.op (o := .shift s.inst.dioIntcurrent.toNat) trivial
    exact ⟨hs.prefixes, (hshift.op (o := .interval s.inst.dioIntcurrent _ _) trivial).ops⟩
  setDaoLifetimeTimer := by
    intro s hs
    rw [setDaoLifetimeTimer]
    split
    · exact hs
    · split
      · exact hs
      · have hops := hs.op (o := .divide (s.inst.defaultLifetime.toUInt32 * s.inst.lifetimeUnit.toUInt32 *
          c.clockSecond / 2 / 2).toNat) trivial
        exact ⟨hops.prefixes, hops.ops⟩
  refreshLifetime := by
    intro s d hs
    rw [refreshLifetime]
    exact framed_copies.modifyDag
      (hs.op (o := .shift (s.inst.dioIntmin.toNat + s.inst.dioIntdoubl.toNat)) trivial) fun _ => rfl

/-- The prefix that a node takes over when it joins, or adds a DAG, is not longer than an address. -/
def PrefixFits (s : State c) (cached : Cached) (dio : Dio) : Prop :=
  Joins s cached dio ∨ Adds s cached dio → dio.prefixInfo.length ≤ 128

theorem copies_allocInstance (instanceId : UInt8) (t : State c) (ht : Copies t) :
    Copies (allocInstance instanceId t) := by
  refine ⟨fun d => ?_, ht.ops⟩
  change (0 : UInt8) ≤ 128
  decide

theorem Copies.processDio {cached : Cached} {dio : Dio} (h : Copies s) (hfits : PrefixFits s cached dio)
    (src : c.Nbr) : Copies (processDio src cached dio s) := by
  have hok : MayConfigure (fun p => p.length ≤ 128) Copies Copies s cached dio :=
    ⟨fun hjoins => ⟨hfits (.inl hjoins), fun _ _ _ ht => ⟨ht.prefixes, ht.ops⟩⟩, fun hadds => hfits (.inr hadds),
      fun _ _ _ ht => ⟨ht.prefixes, ht.ops⟩⟩
  exact (Holds.processDio framed_copies stable_copies (fun _ ht => ht) copies_allocInstance hok src ⟨h, fun _ => h⟩).1

theorem Copies.step {e : Event c} {t : State c} (h : Copies s) (hdio : ∀ src cached dio, e ≠ .dio src cached dio)
    (hstep : step s e = some t) : Copies t :=
  (Holds.step framed_copies stable_copies (fun _ ht => ht) copies_allocInstance ⟨h, fun _ => h⟩
    (fun src cached dio he => absurd he (hdio src cached dio)) hstep).1

theorem Copies.daoInput (h : Copies s) (hr : daoInput p sender t s = some r) : Copies r.1 := by
  have hwalk : ∀ {storing u x}, Copies u → (daoWalk storing p t s).map (fun w => ((u, w) : State c × _)) = some x →
      Copies x.1 := by
    intro storing u x hu hx
    obtain ⟨w, _, rfl⟩ := Option.map_eq_some_iff.mp hx
    exact hu
  obtain ⟨x, hx, rfl⟩ := Option.map_eq_some_iff.mp hr
  change Copies x.1
  split at hx
  · cases hx
    exact h
  · split at hx
    · rw [daoInputStoring] at hx
      split at hx
      · cases hx
        exact h
      · split at hx
        · exact hwalk h hx
        · split at hx
          · cases hx
            exact stable_copies.checkDaoLoop _ h
          · exact hwalk (stable_copies.checkDaoLoop _ h) hx
    · split at hx
      · rw [daoInputNonstoring] at hx
        split at hx
        · cases hx
          exact h
        · exact hwalk h hx
      · cases hx
        exact h

/-! ### Runs -/

/-- A DIO fits, with its prefix, and the No-Path DAO that goes out meanwhile is not shorter than the extension headers;
    a DAO fits. -/
def MessageOk (defaults : DioDefaults) (s : MessageState c) : MessageEvent c → Prop
  | .dio _ cached noPath p =>
    DioFits p ∧ (∀ payloadLen ∈ noPath, p.extLen.toNat ≤ 4 + payloadLen.toNat) ∧
      ∀ r ∈ dioParse defaults p, ∀ dio ∈ r.1, PrefixFits s.node cached dio.toDio
  | .dao sender t p => DaoFits p sender t s.node
  | .other _ => True

/-- INVARIANT: every access was in bounds, and so was every copy of a prefix. -/
structure MessageInv (s : MessageState c) : Prop where
  accesses : ∀ x ∈ s.accesses, x.2.InBounds x.1.payloadLength
  copies : Copies s.node

theorem MessageInv.logged {s : MessageState c} {t : State c} {log : List Access} (h : MessageInv s)
    (hlog : InBounds p log) (ht : Copies t) : MessageInv (logged p log { s with node := t }) := by
  refine ⟨fun x hx => ?_, ht⟩
  rcases List.mem_append.mp hx with hold | hnew
  · exact h.accesses x hold
  · obtain ⟨a, ha, rfl⟩ := List.mem_map.mp hnew
    exact hlog a ha

theorem MessageInv.step {s t : MessageState c} {e : MessageEvent c} (h : MessageInv s)
    (hok : MessageOk defaults s e) (hstep : messageStep defaults s e = some t) : MessageInv t := by
  cases e with
  | dio src cached noPath p =>
    obtain ⟨hfits, hnoPath, hinfo⟩ := hok
    rw [messageStep] at hstep
    split at hstep
    · obtain ⟨r, hr, hstep⟩ := Option.map_eq_some_iff.mp hstep
      have hlog := (inBounds_dioParse hr).mpr hfits
      rcases r with ⟨_ | dio, log⟩
      · cases hstep
        exact h.logged hlog h.copies
      · cases hstep
        refine h.logged ((inBounds_append ..).mpr ⟨hlog, ?_⟩) (h.copies.processDio (hinfo _ hr dio rfl) src)
        cases noPath with
        | none => exact inBounds_nil p
        | some payloadLen =>
          have hlt := payloadLen.toNat_lt
          exact (inBounds_uipIcmp6Send p hlt hlt (le_max_left ..)).mpr (hnoPath payloadLen rfl)
    · cases hstep
  | dao sender t p =>
    obtain ⟨r, hr, hstep⟩ := Option.map_eq_some_iff.mp hstep
    cases hstep
    exact h.logged ((inBounds_daoInput hr).mpr hok) (h.copies.daoInput hr)
  | other e =>
    rw [messageStep] at hstep
    split at hstep
    · cases hstep
    next hother =>
      obtain ⟨u, hu, rfl⟩ := Option.map_eq_some_iff.mp hstep
      refine ⟨h.accesses, h.copies.step ?_ hu⟩
      rintro src cached dio rfl
      exact hother rfl

/-- Over every run of DIOs and DAOs that fit, and of anything else, every access to a payload is in bounds, and no
    copy into an address is longer than it. In every state that is reached every DIO and every DAO is handled in
    finitely many steps, and what is read of it is in bounds if and only if it fits. -/
theorem messages_in_bounds {d : c.DagIdx} {random : Nat → UInt16} {es : List (MessageEvent c)} {s : MessageState c}
    (hrun : Lib.Run (messageStep defaults) (MessageOk defaults) (messageInit c d random) es s) :
    (∀ x ∈ s.accesses, x.2.InBounds x.1.payloadLength) ∧
      (∀ length, Op.copy length ∈ s.node.ops → length ≤ 16) ∧
      (∀ p, ∃ r, dioParse defaults p = some r ∧ (InBounds p r.2 ↔ DioFits p)) ∧
      ∀ p sender t, ∃ r, daoInput p sender t s.node = some r ∧ (InBounds p r.2.2 ↔ DaoFits p sender t s.node) := by
  have hinit : MessageInv (messageInit c d random) := by
    refine ⟨fun x hx => ?_, fun _ => ?_, fun o ho => ?_⟩
    · cases hx
    · change (0 : UInt8) ≤ 128
      decide
    · cases ho
  have hinv := hrun.invariant (P := MessageInv) (fun _ _ _ h hok hstep => h.step hok hstep) hinit
  refine ⟨hinv.accesses, fun length hmem => hinv.copies.ops _ hmem, fun p => ?_, fun p sender t => ?_⟩
  · obtain ⟨r, hr⟩ := Option.isSome_iff_exists.mp (dioParse_ends defaults p)
    exact ⟨r, hr, inBounds_dioParse hr⟩
  · obtain ⟨r, hr⟩ := Option.isSome_iff_exists.mp (daoInput_ends p sender t s.node)
    exact ⟨r, hr, inBounds_daoInput hr⟩

/-! ### Packets -/

instance (length : Nat) : (a : Access) → Decidable (a.InBounds length)
  | .read _ _ => inferInstanceAs (Decidable (_ ≤ _))
  | .copy _ _ => inferInstanceAs (Decidable (_ ∧ _))
  | .checksum _ _ => inferInstanceAs (Decidable (_ ≤ _))

instance (p : Packet) (log : List Access) : Decidable (InBounds p log) :=
  inferInstanceAs (Decidable (∀ a ∈ log, a.InBounds p.payloadLength))

/-- The configuration without options of its own. -/
def contikiDefaults : DioDefaults := ⟨8, 12, 10, 128, 896, 1, 30, 60⟩

instance (p : Packet) : Decidable (DioFits p) :=
  match h : dioParse contikiDefaults p with
  | some _ => decidable_of_iff _ (inBounds_dioParse h)
  | none => .isFalse fun _ => absurd (dioParse_ends contikiDefaults p) (by rw [h]; exact Bool.false_ne_true)

instance (p : Packet) (sender : Option c.Nbr) (t : DaoContext) (s : State c) : Decidable (DaoFits p sender t s) :=
  match h : daoInput p sender t s with
  | some _ => decidable_of_iff _ (inBounds_daoInput h)
  | none => .isFalse fun _ => absurd (daoInput_ends p sender t s) (by rw [h]; exact Bool.false_ne_true)

instance (s : State c) (cached : Cached) (dio : Dio) : Decidable (Adds s cached dio) :=
  decidable_of_iff (dio.mop = c.mopDefault ∧ s.inst.used = true ∧ s.inst.instanceId = dio.instanceId ∧
    getDag dio s = none ∧ s.current.rank ≠ s.rootRank ∧ cached ≠ .full ∧ 1 < c.maxDags ∧ freeDag s ≠ none ∧
    sameConfiguration dio s = true)
    ⟨fun ⟨h₁, h₂, h₃, h₄, h₅, h₆, h₇, h₈, h₉⟩ => ⟨h₁, h₂, h₃, h₄, h₅, h₆, h₇, h₈, h₉⟩,
      fun ⟨h₁, h₂, h₃, h₄, h₅, h₆, h₇, h₈, h₉⟩ => ⟨h₁, h₂, h₃, h₄, h₅, h₆, h₇, h₈, h₉⟩⟩

instance (s : State c) (cached : Cached) (dio : Dio) : Decidable (PrefixFits s cached dio) :=
  inferInstanceAs (Decidable (Joins s cached dio ∨ Adds s cached dio → dio.prefixInfo.length ≤ 128))

instance (defaults : DioDefaults) (s : MessageState c) : (e : MessageEvent c) → Decidable (MessageOk defaults s e)
  | .dio _ cached noPath p => inferInstanceAs (Decidable (DioFits p ∧
      (∀ payloadLen ∈ noPath, p.extLen.toNat ≤ 4 + payloadLen.toNat) ∧
      ∀ r ∈ dioParse defaults p, ∀ dio ∈ r.1, PrefixFits s.node cached dio.toDio))
  | .dao sender t p => inferInstanceAs (Decidable (DaoFits p sender t s.node))
  | .other _ => .isTrue trivial

/-- A payload behind an IPv6 header without extensions. -/
def packetOf (payload : List UInt8) : Packet :=
  ⟨fun i => payload.getD i 0, UInt16.ofNat (44 + payload.length), 0⟩

def behindExtensions (extLen : UInt8) (p : Packet) : Packet :=
  { p with uipLen := p.uipLen + extLen.toUInt16, extLen := extLen }

/-- The base of a DIO of the root, in storing mode. -/
def dioBytes : List UInt8 := [30, 240, 1, 0, 0x90, 240, 0, 0] ++ List.replicate 16 1

def dagConf : List UInt8 := [4, 14, 0, 8, 12, 10, 7, 0, 1, 0, 0, 1, 0, 30, 0, 60]

/-- A prefix of some length, for which nodes configure addresses. -/
def prefixInfo (length : UInt8) : List UInt8 := [8, 30, length, 0x40] ++ List.replicate 12 0 ++ List.replicate 16 2

/-- A DAO for a target of some length. -/
def daoBytes (length : UInt8) : List UInt8 :=
  [30, 0, 0, 1] ++ [5, 18, 0, length] ++ List.replicate 16 2 ++ [6, 4, 0, 0, 0, 30]

def startMessages : MessageState twoNeighbors :=
  messageInit twoNeighbors start.inst.currentDag fun n => UInt16.ofNat (n * 4711)

/-- A child sends a DAO by unicast to a node that has a parent, and maybe room. -/
def childDao (room : Bool) : DaoContext where
  withDaoAck := true
  unicast := true
  multicastGroup := false
  purged := false
  room := room
  installed := false
  parentAddr := true

/-- The node joins with a prefix, and gets a DAO for an address, which goes on to its parent. -/
def goodMessages : List (MessageEvent twoNeighbors) :=
  [.dio firstNbr .added none (packetOf (dioBytes ++ dagConf ++ prefixInfo 64)),
    .dao none (childDao true) (behindExtensions 16 (packetOf (daoBytes 128)))]

theorem messages_in_bounds_goodMessages : ∃ s : MessageState twoNeighbors,
    Lib.Run (messageStep contikiDefaults) (MessageOk contikiDefaults) startMessages goodMessages s ∧
      s.accesses.length = 22 ∧ (∀ x ∈ s.accesses, x.2.InBounds x.1.payloadLength) ∧
      Op.copy 8 ∈ s.node.ops ∧ ∀ length, Op.copy length ∈ s.node.ops → length ≤ 16 := by
  obtain ⟨s, hrun, hs⟩ : ∃ s : MessageState twoNeighbors,
      Lib.Run (messageStep contikiDefaults) (MessageOk contikiDefaults) startMessages goodMessages s ∧ _ :=
    Lib.exists_run (fun s e => decide (MessageOk contikiDefaults s e))
      (fun s : MessageState twoNeighbors => decide (s.accesses.length = 22 ∧ Op.copy 8 ∈ s.node.ops))
      (fun _ _ => of_decide_eq_true) (by decide +kernel)
  obtain ⟨hlength, hcopy⟩ := of_decide_eq_true hs
  obtain ⟨haccesses, hops, _⟩ := messages_in_bounds hrun
  exact ⟨s, hrun, hlength, haccesses, hcopy, hops⟩

/-- A DIO without its DAG id; one that ends in a metric container without its metric. -/
def badDios : List (List (MessageEvent twoNeighbors)) :=
  [[.dio firstNbr .added none (packetOf (dioBytes.take 10))],
    [.dio firstNbr .added none (packetOf (dioBytes ++ [2, 4, 7, 0, 0, 0]))]]

/-- A DAO that ends in the type of an option; one for a target of 255 bits; behind extension headers of sixteen bytes,
    one of four bytes that goes on, and one that is refused. -/
def badDaos : List (MessageEvent twoNeighbors) :=
  [.dao none (childDao true) (packetOf [30, 0, 0, 1, 5]), .dao none (childDao true) (packetOf (daoBytes 255)),
    .dao none (childDao true) (behindExtensions 16 (packetOf [30, 0, 0, 1])),
    .dao none (childDao false) (behindExtensions 16 (packetOf [30, 128, 0, 1]))]

def badMessages : List (List (MessageEvent twoNeighbors)) :=
  badDios ++ badDaos.map fun e => [.dio firstNbr .added none (packetOf (dioBytes ++ dagConf)), e]

/-- The node joins with a prefix of 200 bits. -/
def longPrefix : List (MessageEvent twoNeighbors) :=
  [.dio firstNbr .added none (packetOf (dioBytes ++ dagConf ++ prefixInfo 200))]

theorem messages_out_of_bounds :
    (∀ es ∈ badMessages, ∃ s : MessageState twoNeighbors,
      Lib.Run (messageStep contikiDefaults) (fun _ _ => True) startMessages es s ∧
        ∃ x ∈ s.accesses, ¬x.2.InBounds x.1.payloadLength) ∧
      ∃ s : MessageState twoNeighbors,
        Lib.Run (messageStep contikiDefaults) (fun _ _ => True) startMessages longPrefix s ∧
          Op.copy 25 ∈ s.node.ops := by
  constructor
  · have hbad : ∀ es ∈ badMessages, (Lib.exec (messageStep contikiDefaults) (fun _ _ => true) startMessages es).any
        (fun s => decide (∃ x ∈ s.accesses, ¬x.2.InBounds x.1.payloadLength)) = true := by
      decide
    intro es hmem
    obtain ⟨s, hrun, hs⟩ := Lib.exists_run (fun _ _ => true) _ (fun _ _ _ => trivial) (hbad es hmem)
    exact ⟨s, hrun, of_decide_eq_true hs⟩
  · obtain ⟨s, hrun, hs⟩ : ∃ s : MessageState twoNeighbors,
        Lib.Run (messageStep contikiDefaults) (fun _ _ => True) startMessages longPrefix s ∧ _ :=
      Lib.exists_run (fun _ _ => true) (fun s : MessageState twoNeighbors => decide (Op.copy 25 ∈ s.node.ops))
        (fun _ _ _ => trivial) (by decide)
    exact ⟨s, hrun, of_decide_eq_true hs⟩

end CSync.RplDag
