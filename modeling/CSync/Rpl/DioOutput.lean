import CSync.Lib.BigEndian
import CSync.Lib.Bytes
import CSync.Rpl.Messages

/-! DIOs as they go out (`rpl-icmp6.c`), and what becomes of them on the way in.

    The buffer is written from front to back. The aggregation of a metric container has three bits in it, of which
    two are read. -/

namespace CSync.RplDag
open Lib List

def set16 (value : UInt16) : List UInt8 := [(value >>> 8).toUInt8, value.toUInt8]
def set32 (value : UInt32) : List UInt8 :=
  [(value >>> 24).toUInt8, (value >>> 16).toUInt8, (value >>> 8).toUInt8, value.toUInt8]

/-- The bytes of an address. -/
def addrBytes (a : IpAddr) : List UInt8 := ofFn a

/-- `RPL_OCP_MRHOF` and `RPL_OCP_OF0`. -/
def Of.ocp : Of → UInt16
  | .mrhof => 1
  | .of0 => 0

/-- `mc.obj.etx`, and both fields of `mc.obj.energy`. -/
def MetricContainer.etx (mc : MetricContainer) : UInt16 :=
  match mc.obj with
  | some (.etx etx) => etx
  | _ => 0
def MetricContainer.energy (mc : MetricContainer) : List UInt8 :=
  match mc.obj with
  | some (.energy flags energyEst) => [flags, energyEst]
  | _ => [0, 0]

variable {c : Config}

/-- The base of a DIO. -/
def baseBytes (s : State c) : List UInt8 :=
  [s.inst.instanceId, s.current.version] ++ set16 s.current.rank ++
    [(if s.current.grounded ≠ 0 then (0x80 : UInt8) else 0) ||| s.inst.mop <<< 3 ||| s.current.preference &&& 0x07,
      s.inst.dtsnOut, 0, 0] ++ addrBytes s.current.dagId

/-- The option with the metric container, unless its type is not known. -/
def containerBytes (mc : MetricContainer) : Option (List UInt8) :=
  let header := [optionDagMetricContainer, 6, mc.type, mc.flags >>> 1,
    (mc.flags &&& 1) <<< 7 ||| (mc.aggr <<< 4 ||| mc.prec)]
  if mc.type = dagMcEtx then some (header ++ 2 :: set16 mc.etx)
  else if mc.type = dagMcEnergy then some (header ++ 2 :: mc.energy)
  else none

/-- The option with the configuration. -/
def confBytes (s : State c) : List UInt8 :=
  [optionDagConf, 14, 0, s.inst.dioIntdoubl, s.inst.dioIntmin, s.inst.dioRedundancy] ++ set16 s.inst.maxRankinc ++
    set16 s.inst.minHoprankinc ++ set16 s.inst.of.ocp ++ [0, s.inst.defaultLifetime] ++ set16 s.inst.lifetimeUnit

/-- The option with the prefix, if there is one. -/
def prefixBytes (prefixInfo : Prefix) (lifetime : UInt32) : List UInt8 :=
  if 0 < prefixInfo.length then
    [optionPrefixInfo, 30, prefixInfo.length, prefixInfo.flags] ++ set32 lifetime ++ set32 lifetime ++ [0, 0, 0, 0] ++
      addrBytes prefixInfo.prefixAddr
  else []

/-- What `dio_output` leaves: the node, its metric container, and the payload, if one is sent. -/
structure DioSent (c : Config) where
  node : State c
  mc : MetricContainer
  payload : Option (List UInt8)

/-- `dio_output` with `RPL_DIO_REFRESH_DAO_ROUTES` and the `update_metric_container` of the objective function. -/
def dioOutput (refresh unicast : Bool) (updateMetricContainer : State c → MetricContainer → MetricContainer)
    (s : State c) (mc : MetricContainer) (prefixLifetime : UInt32) : DioSent c :=
  let node := if refresh && decide (s.current.rank = s.rootRank) && !unicast then incrementDtsn s else s
  let tail := confBytes s ++ prefixBytes s.current.prefixInfo prefixLifetime
  if mc.type ≠ dagMcNone then
    let mc := updateMetricContainer node mc
    ⟨node, mc, (containerBytes mc).map fun container => baseBytes s ++ (container ++ tail)⟩
  else ⟨node, mc, some (baseBytes s ++ tail)⟩

/-- The fields of a sender keep to their widths in a DIO, where the metric has two bytes. -/
structure Widths (s : State c) (mc : MetricContainer) : Prop where
  mop : s.inst.mop < 8
  preference : s.current.preference < 8
  aggr : mc.type ≠ dagMcNone → mc.aggr < 8
  prec : mc.type ≠ dagMcNone → mc.prec < 16
  length : mc.type ≠ dagMcNone → mc.length = 2
  etx : mc.type = dagMcEtx → mc.obj = some (.etx mc.etx)
  energy : mc.type = dagMcEnergy → ∃ flags energyEst, mc.obj = some (.energy flags energyEst)

structure SaysBase (s : State c) (dio : DioMessage) : Prop where
  instanceId : dio.instanceId = s.inst.instanceId
  version : dio.version = s.current.version
  rank : dio.rank = s.current.rank
  grounded : dio.grounded ≠ 0 ↔ s.current.grounded ≠ 0
  mop : dio.mop = s.inst.mop
  preference : dio.preference = s.current.preference
  dtsn : dio.dtsn = s.inst.dtsnOut
  dagId : dio.dagId = s.current.dagId

/-- So does its configuration. -/
structure SaysConf (s : State c) (dio : DioMessage) : Prop where
  dagIntdoubl : dio.dagIntdoubl = s.inst.dioIntdoubl
  dagIntmin : dio.dagIntmin = s.inst.dioIntmin
  dagRedund : dio.dagRedund = s.inst.dioRedundancy
  dagMaxRankinc : dio.dagMaxRankinc = s.inst.maxRankinc
  dagMinHoprankinc : dio.dagMinHoprankinc = s.inst.minHoprankinc
  ocp : dio.ocp = s.inst.of.ocp
  defaultLifetime : dio.defaultLifetime = s.inst.defaultLifetime
  lifetimeUnit : dio.lifetimeUnit = s.inst.lifetimeUnit

structure Says (s : State c) (mc : MetricContainer) (prefixLifetime : UInt32) (dio : DioMessage) : Prop extends
    SaysBase s dio, SaysConf s dio where
  noMc : mc.type = dagMcNone → dio.mc.type = dagMcNone
  mc : mc.type ≠ dagMcNone → dio.mc = mc
  noPrefix : s.current.prefixInfo.length = 0 → dio.prefixInfo.length = 0
  prefixInfo : 0 < s.current.prefixInfo.length → dio.prefixInfo = s.current.prefixInfo
  prefixLifetime : 0 < s.current.prefixInfo.length → dio.prefixLifetime = prefixLifetime

/-! ### Fields that are read back -/

variable {b : Nat → UInt8} {i : Nat}

theorem get16_set16 {value : UInt16} (h0 : b i = (value >>> 8).toUInt8) (h1 : b (i + 1) = value.toUInt8) :
    get16 b i = value := by
  rw [get16, h0, h1]
  exact word16_bytes value

theorem get32_set32 {value : UInt32} (h0 : b i = (value >>> 24).toUInt8) (h1 : b (i + 1) = (value >>> 16).toUInt8)
    (h2 : b (i + 2) = (value >>> 8).toUInt8) (h3 : b (i + 3) = value.toUInt8) : get32 b i = value := by
  rw [get32, h0, h1, h2, h3]
  exact word32_bytes value

theorem getAddr_addrBytes {a : IpAddr} (h : Lib.Holds b i (addrBytes a)) : getAddr b i 16 = a := by
  rw [Lib.Holds, addrBytes, List.length_ofFn] at h
  funext j
  have hbyte := getD_slice b (o := i) j.isLt
  rw [h, List.getD_eq_getElem _ _ (by rw [List.length_ofFn]; exact j.isLt), List.getElem_ofFn] at hbyte
  rw [getAddr, if_pos j.isLt, ← hbyte]

theorem modeByte_fields : ∀ (grounded : Bool) (mop preference : Fin 8),
    let b := (if grounded then (0x80 : UInt8) else 0) ||| UInt8.ofNat mop <<< 3 ||| UInt8.ofNat preference &&& 0x07
    (b &&& 0x80 ≠ 0 ↔ grounded = true) ∧ (b &&& 0x38) >>> 3 = UInt8.ofNat mop ∧
      b &&& 0x07 = UInt8.ofNat preference := by
  decide

set_option maxRecDepth 4096 in
theorem aggrByte_fields : ∀ (flag : Fin 2) (aggr : Fin 8) (prec : Fin 16),
    let b := UInt8.ofNat flag <<< 7 ||| (UInt8.ofNat aggr <<< 4 ||| UInt8.ofNat prec)
    b >>> 7 = UInt8.ofNat flag ∧ b >>> 4 &&& 0x3 = UInt8.ofNat aggr &&& 0x3 ∧ b &&& 0xf = UInt8.ofNat prec := by
  decide

set_option maxRecDepth 4096 in
theorem flags_bytes : ∀ flags : Fin 256, UInt8.ofNat flags >>> 1 <<< 1 ||| UInt8.ofNat flags &&& 1 =
    UInt8.ofNat flags ∧ UInt8.ofNat flags &&& 1 < 2 := by
  decide

/-- What the two bytes with the flags, the aggregation and the precedence give. -/
theorem container_fields (flags : UInt8) {aggr prec : UInt8} (haggr : aggr < 8) (hprec : prec < 16) :
    let b := (flags &&& 1) <<< 7 ||| (aggr <<< 4 ||| prec)
    flags >>> 1 <<< 1 ||| b >>> 7 = flags ∧ b >>> 4 &&& 0x3 = aggr &&& 0x3 ∧ b &&& 0xf = prec := by
  obtain ⟨aggr, rfl⟩ := exists_fin (n := 8) rfl haggr
  obtain ⟨prec, rfl⟩ := exists_fin (n := 16) rfl hprec
  obtain ⟨flags, rfl⟩ := exists_byte flags
  obtain ⟨hwhole, hlow⟩ := flags_bytes flags
  obtain ⟨flag, hflag⟩ := exists_fin (n := 2) rfl hlow
  obtain ⟨hbit, hfields⟩ := aggrByte_fields flag aggr prec
  rw [hflag] at hwhole ⊢
  exact ⟨by rw [hbit, hwhole], hfields⟩

/-! ### Options -/

variable {p : Packet} {s : State c} {dio : DioMessage} {mc : MetricContainer} {prefixLifetime : UInt32}

/-- A DIO with the configuration of the sender. -/
def withConf (s : State c) (dio : DioMessage) : DioMessage :=
  { dio with
    dagIntdoubl := s.inst.dioIntdoubl
    dagIntmin := s.inst.dioIntmin
    dagRedund := s.inst.dioRedundancy
    dagMaxRankinc := s.inst.maxRankinc
    dagMinHoprankinc := s.inst.minHoprankinc
    ocp := s.inst.of.ocp
    defaultLifetime := s.inst.defaultLifetime
    lifetimeUnit := s.inst.lifetimeUnit }

theorem dioOption_conf (dio : DioMessage) (h : Lib.Holds p.buffer i (confBytes s))
    (hroom : i + 16 ≤ p.bufferLength.toNat) : ∃ log, dioOption p i dio = (.advance 16 (withConf s dio), log) := by
  simp only [confBytes, set16, cons_append, nil_append, holds_cons, add_assoc, Nat.reduceAdd] at h
  obtain ⟨htype, hlen, -, hdoubl, hmin, hredund, hmax0, hmax1, hinc0, hinc1, hocp0, hocp1, -, hdefault, hunit0,
    hunit1, -⟩ := h
  have hlength : 2 + (p.buffer (i + 1)).toNat = 16 := by
    rw [hlen]
    rfl
  rw [dioOption, htype, if_neg (by decide)]
  simp only [hlength]
  rw [if_neg (by omega), if_neg (by decide), if_neg (by decide), if_pos trivial, if_neg (by decide), hdoubl, hmin,
    hredund, get16_set16 hmax0 hmax1, get16_set16 hinc0 hinc1, get16_set16 hocp0 hocp1, hdefault,
    get16_set16 hunit0 hunit1]
  exact ⟨_, rfl⟩

theorem dioOption_prefix (dio : DioMessage) {prefixInfo : Prefix} (hpos : 0 < prefixInfo.length)
    (h : Lib.Holds p.buffer i (prefixBytes prefixInfo prefixLifetime)) (hroom : i + 32 ≤ p.bufferLength.toNat) :
    ∃ log, dioOption p i dio =
      (.advance 32 { dio with prefixInfo := prefixInfo, prefixLifetime := prefixLifetime }, log) := by
  rw [prefixBytes, if_pos hpos, holds_append] at h
  obtain ⟨h, haddr⟩ := h
  have haddr : Lib.Holds p.buffer (i + 16) (addrBytes prefixInfo.prefixAddr) := haddr
  simp only [set32, cons_append, nil_append, holds_cons, add_assoc, Nat.reduceAdd] at h
  obtain ⟨htype, hlen, hplen, hflags, -, -, -, -, h0, h1, h2, h3, -⟩ := h
  have hlength : 2 + (p.buffer (i + 1)).toNat = 32 := by
    rw [hlen]
    rfl
  rw [dioOption, htype, if_neg (by decide)]
  simp only [hlength]
  rw [if_neg (by omega), if_neg (by decide), if_neg (by decide), if_neg (by decide), if_pos trivial,
    if_neg (by decide), hplen, hflags, get32_set32 h0 h1 h2 h3, getAddr_addrBytes haddr]
  exact ⟨_, rfl⟩

theorem length_container {container : List UInt8} (h : containerBytes mc = some container) :
    container.length = 8 := by
  rw [containerBytes] at h
  split at h
  · cases h
    rfl
  · split at h
    · cases h
      rw [MetricContainer.energy]
      split <;> rfl
    · cases h

theorem dioOption_container (dio : DioMessage) {container : List UInt8} (hw : Widths s mc)
    (hnone : mc.type ≠ dagMcNone) (hsent : containerBytes mc = some container) (h : Lib.Holds p.buffer i container)
    (hroom : i + 8 ≤ p.bufferLength.toNat) :
    ∃ log, dioOption p i dio = (.advance 8 { dio with mc := { mc with aggr := mc.aggr &&& 0x3 } }, log) := by
  obtain ⟨hflags, haggr, hprec⟩ := container_fields mc.flags (hw.aggr hnone) (hw.prec hnone)
  obtain ⟨x, y, rfl, hmetric⟩ : ∃ x y, container = [optionDagMetricContainer, 6, mc.type, mc.flags >>> 1,
      (mc.flags &&& 1) <<< 7 ||| (mc.aggr <<< 4 ||| mc.prec), 2, x, y] ∧
      ((mc.type = dagMcEtx ∧ x = (mc.etx >>> 8).toUInt8 ∧ y = mc.etx.toUInt8) ∨
        (mc.type = dagMcEnergy ∧ mc.obj = some (.energy x y))) := by
    rw [containerBytes] at hsent
    split at hsent
    · cases hsent
      exact ⟨_, _, rfl, .inl ⟨‹_›, rfl, rfl⟩⟩
    · split at hsent
      · obtain ⟨x, y, hobj⟩ := hw.energy ‹_›
        rw [MetricContainer.energy, hobj] at hsent
        cases hsent
        exact ⟨x, y, rfl, .inr ⟨‹_›, hobj⟩⟩
      · cases hsent
  simp only [holds_cons, add_assoc, Nat.reduceAdd] at h
  obtain ⟨htype, hlen, hmc, hhigh, hlow, htwo, h0, h1, -⟩ := h
  have hlength : 2 + (p.buffer (i + 1)).toNat = 8 := by
    rw [hlen]
    rfl
  rw [dioOption, htype, if_neg (by decide)]
  simp only [hlength]
  rw [if_neg (by omega), if_pos trivial, if_neg (by decide), dioMetricContainer]
  simp only [hmc, hhigh, hlow, htwo, hflags, haggr, hprec, ← hw.length hnone]
  rw [if_neg hnone]
  rcases hmetric with ⟨hetx, rfl, rfl⟩ | ⟨henergy, hobj⟩
  · rw [if_pos hetx, get16_set16 h0 h1, ← hw.etx hetx]
    exact ⟨_, rfl⟩
  · rw [if_neg (by rw [henergy]; decide), if_pos henergy, h0, h1, ← hobj]
    exact ⟨_, rfl⟩

/-! ### The whole DIO -/

/-- The state of the loop behind the last options. -/
def withTail (s : State c) (prefixLifetime : UInt32) (dio : DioMessage) : DioMessage :=
  if 0 < s.current.prefixInfo.length then
    { withConf s dio with prefixInfo := s.current.prefixInfo, prefixLifetime := prefixLifetime }
  else withConf s dio

theorem walk_tail (fuel : Nat) (dio : DioMessage)
    (h : Lib.Holds p.buffer i (confBytes s ++ prefixBytes s.current.prefixInfo prefixLifetime))
    (hn : i + (confBytes s ++ prefixBytes s.current.prefixInfo prefixLifetime).length = p.bufferLength.toNat) :
    ∃ log, walkOptions (dioOption p) p.bufferLength.toNat (fuel + 3) i dio =
      some (some (withTail s prefixLifetime dio), log) := by
  rw [holds_append] at h
  have hconf : (confBytes s).length = 16 := rfl
  rw [length_append, hconf] at hn
  rw [hconf] at h
  obtain ⟨log, hoption⟩ := dioOption_conf dio h.1 (by omega)
  rw [walkOptions_advance (by omega) hoption]
  by_cases hpos : 0 < s.current.prefixInfo.length
  · have hbytes : (prefixBytes s.current.prefixInfo prefixLifetime).length = 32 := by
      rw [prefixBytes, if_pos hpos]
      simp [addrBytes, set32]
    obtain ⟨log', hoption'⟩ := dioOption_prefix (withConf s dio) hpos h.2 (by omega)
    rw [walkOptions_advance (by omega) hoption', walkOptions_finish (by omega), withTail, if_pos hpos]
    exact ⟨_, rfl⟩
  · have hbytes : prefixBytes s.current.prefixInfo prefixLifetime = [] := if_neg hpos
    rw [hbytes, length_nil] at hn
    rw [walkOptions_finish (by omega), withTail, if_neg hpos]
    exact ⟨_, rfl⟩

def withContainer (mc : MetricContainer) (dio : DioMessage) : DioMessage :=
  if mc.type ≠ dagMcNone then { dio with mc := { mc with aggr := mc.aggr &&& 0x3 } } else dio

variable {refresh unicast : Bool} {update : State c → MetricContainer → MetricContainer}
  {bytes : List UInt8}

theorem dioParse_sent (defaults : DioDefaults)
    (hw : Widths s (dioOutput refresh unicast update s mc prefixLifetime).mc)
    (hsent : (dioOutput refresh unicast update s mc prefixLifetime).payload = some bytes)
    (hp : Lib.Holds p.buffer 0 bytes) (hlen : p.bufferLength.toNat = bytes.length) :
    Lib.Holds p.buffer 0 (baseBytes s) ∧
    ∃ log,
      dioParse defaults p =
        some (some (withTail s prefixLifetime (withContainer (dioOutput refresh unicast update s mc prefixLifetime).mc
          (dioBase defaults p.buffer))), log) := by
  have hbase : (baseBytes s).length = 24 := by simp [baseBytes, set16, addrBytes]
  rw [dioParse]
  rw [dioOutput] at hw hsent ⊢
  split at hsent
  next hsome =>
    rw [if_pos hsome] at hw ⊢
    obtain ⟨container, hcontainer, rfl⟩ := Option.map_eq_some_iff.mp hsent
    generalize update _ mc = mc at *
    have height := length_container hcontainer
    have hnone : mc.type ≠ dagMcNone := fun hnone => by
      rw [containerBytes, hnone] at hcontainer
      cases hcontainer
    obtain ⟨hheld, hrest⟩ := holds_append.mp hp
    obtain ⟨hfirst, htail⟩ := holds_append.mp hrest
    rw [zero_add, hbase] at hfirst htail
    rw [height] at htail
    rw [length_append, length_append, hbase, height] at hlen
    obtain ⟨log, hoption⟩ := dioOption_container (dioBase defaults p.buffer) hw hnone hcontainer hfirst (by omega)
    obtain ⟨log', hwalk⟩ := walk_tail 252 (withContainer mc (dioBase defaults p.buffer)) htail (by omega)
    rw [withContainer, if_pos hnone] at hwalk ⊢
    rw [walkOptions_advance (by omega) hoption, hwalk]
    exact ⟨hheld, _, rfl⟩
  next hnone =>
    rw [if_neg hnone] at hw ⊢
    cases hsent
    obtain ⟨hheld, htail⟩ := holds_append.mp hp
    rw [zero_add, hbase] at htail
    rw [length_append, hbase] at hlen
    obtain ⟨log, hwalk⟩ := walk_tail 253 (dioBase defaults p.buffer) htail hlen.symm
    rw [withContainer, if_neg hnone, hwalk]
    exact ⟨hheld, _, rfl⟩

theorem saysBase (hw : Widths s mc) (h : Lib.Holds b 0 (baseBytes s)) : SaysBase s (dioBase defaults b) := by
  rw [baseBytes, holds_append] at h
  obtain ⟨h, haddr⟩ := h
  simp only [set16, cons_append, nil_append, holds_cons, Nat.reduceAdd] at h
  obtain ⟨hid, hversion, h0, h1, hmode, hdtsn, -⟩ := h
  obtain ⟨mop, hmop⟩ := exists_fin (n := 8) rfl hw.mop
  obtain ⟨preference, hpreference⟩ := exists_fin (n := 8) rfl hw.preference
  obtain ⟨hg, hm, hp⟩ := modeByte_fields (s.current.grounded ≠ 0) mop preference
  simp only [decide_eq_true_eq] at hg hm hp
  rw [← hmop, ← hpreference, ← hmode] at hg hm hp
  exact ⟨hid, hversion, get16_set16 h0 h1, hg, hm, hp, hdtsn, getAddr_addrBytes haddr⟩

theorem SaysBase.tail (h : SaysBase s dio) : SaysBase s (withTail s prefixLifetime (withContainer mc dio)) := by
  rw [withTail, withContainer]
  split <;> split <;>
    exact ⟨h.instanceId, h.version, h.rank, h.grounded, h.mop, h.preference, h.dtsn, h.dagId⟩

theorem saysConf : SaysConf s (withTail s prefixLifetime dio) := by
  rw [withTail]
  split <;> exact ⟨rfl, rfl, rfl, rfl, rfl, rfl, rfl, rfl⟩

theorem mc_withTail : (withTail s prefixLifetime dio).mc = dio.mc := by
  rw [withTail]
  split <;> rfl

theorem prefixInfo_withContainer : (withContainer mc dio).prefixInfo = dio.prefixInfo := by
  rw [withContainer]
  split <;> rfl

theorem aggr_and_iff : ∀ aggr : Fin 8, UInt8.ofNat aggr &&& 0x3 = UInt8.ofNat aggr ↔ UInt8.ofNat aggr < 4 := by decide

/-- A DIO has three bits for the aggregation of a metric container, of which the receiver takes two. All
    else that was sent comes back as it was. -/
theorem dio_comes_back_iff (defaults : DioDefaults)
    (hw : Widths s (dioOutput refresh unicast update s mc prefixLifetime).mc)
    (hsent : (dioOutput refresh unicast update s mc prefixLifetime).payload = some bytes)
    (hp : Lib.Holds p.buffer 0 bytes) (hlen : p.bufferLength.toNat = bytes.length) :
    (∃ dio log, dioParse defaults p = some (some dio, log) ∧
        Says s (dioOutput refresh unicast update s mc prefixLifetime).mc prefixLifetime dio) ↔
      (dioOutput refresh unicast update s mc prefixLifetime).mc.type = dagMcNone ∨
        (dioOutput refresh unicast update s mc prefixLifetime).mc.aggr < 4 := by
  obtain ⟨hbase, log, hparse⟩ := dioParse_sent defaults hw hsent hp hlen
  generalize (dioOutput refresh unicast update s mc prefixLifetime).mc = mc at *
  have haggr : mc.type ≠ dagMcNone → (mc.aggr &&& 0x3 = mc.aggr ↔ mc.aggr < 4) := fun hnone => by
    obtain ⟨aggr, haggr⟩ := exists_fin (n := 8) rfl (hw.aggr hnone)
    rw [haggr]
    exact aggr_and_iff aggr
  constructor
  · rintro ⟨dio, log', hdio, hsays⟩
    rw [hparse] at hdio
    cases hdio
    by_cases hnone : mc.type = dagMcNone
    · exact .inl hnone
    · have hmc := hsays.mc hnone
      rw [mc_withTail, withContainer, if_pos hnone] at hmc
      exact .inr ((haggr hnone).mp (congrArg MetricContainer.aggr hmc))
  · intro h
    refine ⟨_, log, hparse, { (saysBase hw hbase).tail, saysConf with
      noMc := fun hnone => ?_
      mc := fun hnone => ?_
      noPrefix := fun hzero => ?_
      prefixInfo := fun hpos => ?_
      prefixLifetime := fun hpos => ?_ }⟩
    · rw [mc_withTail, withContainer, if_neg (not_not_intro hnone)]
      rfl
    · rw [mc_withTail, withContainer, if_pos hnone]
      rw [(haggr hnone).mpr (h.resolve_left hnone)]
    · have hnot : ¬ 0 < s.current.prefixInfo.length := by
        rw [hzero]
        decide
      rw [withTail, if_neg hnot]
      show (withContainer mc _).prefixInfo.length = 0
      rw [prefixInfo_withContainer]
      rfl
    · rw [withTail, if_pos hpos]
    · rw [withTail, if_pos hpos]

/-- A node below the root that announces a prefix, with an aggregation of its metric. A root would set the aggregation
    anew; here `update_metric_container` leaves the container as it is. -/
def announcing : State ⟨1, 1, 128, 2, false, 3, fun _ => some .mrhof⟩ :=
  let s := init ⟨1, 1, 128, 2, false, 3, fun _ => some .mrhof⟩ ⟨0, by decide⟩ fun _ => 0
  s.modifyDag s.inst.currentDag fun dag =>
    { dag with
      rank := 512
      grounded := 1
      preferredParent := some ⟨0, Nat.one_pos⟩
      prefixInfo := ⟨fun _ => 0xaa, 64, autonomous⟩ }

def etxMetric (aggr : UInt8) : MetricContainer := ⟨dagMcEtx, 0, aggr, 0, 2, some (.etx 512)⟩

/-- What `dio_output` sends then, and the packet that comes in. -/
def announcement (aggr : UInt8) : DioSent ⟨1, 1, 128, 2, false, 3, fun _ => some .mrhof⟩ :=
  dioOutput false false (fun _ mc => mc) announcing (etxMetric aggr) 600

def announced (aggr : UInt8) : Packet :=
  ⟨bufferOf ((announcement aggr).payload.getD []), UInt16.ofNat (44 + ((announcement aggr).payload.getD []).length), 0⟩

/-- An additive metric comes back. -/
theorem dio_comes_back_additive : ∃ dio log,
    dioParse ⟨8, 12, 10, 256, 0, 1, 0xff, 0xffff⟩ (announced 0) = some (some dio, log) ∧
      Says announcing (etxMetric 0) 600 dio := by
  have hw : Widths announcing (announcement 0).mc := ⟨by decide, by decide, fun _ => by decide, fun _ => by decide,
    fun _ => rfl, fun _ => rfl, nofun⟩
  have hsent : (announcement 0).payload = some ((announcement 0).payload.getD []) := rfl
  exact (dio_comes_back_iff ⟨8, 12, 10, 256, 0, 1, 0xff, 0xffff⟩ hw hsent (holds_bufferOf _) (by decide)).mpr
    (.inr (by decide))

/-- The fifth aggregation is read as the first one. -/
theorem dio_aggr_lost : ¬ ∃ dio log,
    dioParse ⟨8, 12, 10, 256, 0, 1, 0xff, 0xffff⟩ (announced 4) = some (some dio, log) ∧
      Says announcing (etxMetric 4) 600 dio := by
  rintro ⟨dio, log, hparse, hsays⟩
  have haggr : (dioParse ⟨8, 12, 10, 256, 0, 1, 0xff, 0xffff⟩ (announced 4)).map (fun r => r.1.map (·.mc.aggr)) =
      some (some 0) := by decide
  rw [hparse, Option.map_some, Option.map_some, hsays.mc (by decide)] at haggr
  revert haggr
  decide

end CSync.RplDag
