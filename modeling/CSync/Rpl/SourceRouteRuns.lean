import CSync.Rpl.GraphRuns
import CSync.Rpl.SourceRoute

/-! A packet on its way from the root to its destination. Behind `j` forwarders the destination is hop `j` of the
    path, and the table of the routing header holds all other hops (`Stage`). The header works as long as its
    length fits in eight bits; if not, the root writes in front of the packet. -/

namespace CSync.SourceRoute
open List

open Lib (store slice Holds)

theorem toNat_ofInt (n : Int) : (UInt8.ofInt n).toNat = (n % 256).toNat := by
  rw [UInt8.ofInt, UInt8.toNat_ofNat']
  omega

variable {n cmpri o p : Nat} {ι : Type} {next : ι → Option ι} {root : ι} {dest addr : IpAddr} {u : Uip}
variable {as : List UInt8}

theorem toNat_ofNat (h : n < 256) : (UInt8.ofNat n).toNat = n := by
  rw [UInt8.toNat_ofNat', Nat.mod_eq_of_lt h]

/-- The length in front of the padding. -/
theorem extLenOf_toNat (n : Nat) (hc : cmpri ≤ 16) :
    (extLenOf (UInt8.ofNat n) cmpri).toNat = (8 + n * (16 - cmpri)) % 256 := by
  have hexp : ((rhLen : Int) + srhLen + (((UInt8.ofNat n).toNat : Int) - 1) * (16 - (cmpri : Int)) +
      (16 - (cmpri : Int))) = ((8 + n % 256 * (16 - cmpri) : Nat) : Int) := by
    have hp : (UInt8.ofNat n).toNat = n % 256 := UInt8.toNat_ofNat'
    rw [hp, Nat.cast_add, Nat.cast_mul, Nat.cast_sub hc, rhLen, srhLen]
    ring
  rw [extLenOf, hexp, UInt8.ofInt, UInt8.toNat_ofNat']
  have hmod : n % 256 * (16 - cmpri) % 256 = n * (16 - cmpri) % 256 := Nat.mod_mul_mod ..
  omega

theorem paddingOf_toNat (extLen : UInt8) : (paddingOf extLen).toNat = (8 - extLen.toNat % 8) % 8 := by
  have hmod : (extLen % 8).toNat = extLen.toNat % 8 := UInt8.toNat_mod extLen 8
  rw [paddingOf]
  split
  next hzero =>
    rw [hzero] at hmod
    have : (0 : UInt8).toNat = 0 := rfl
    omega
  next hne =>
    have hlt : (extLen % 8).toNat < 8 := by rw [hmod]; exact Nat.mod_lt _ (by decide)
    have hpos : (extLen % 8).toNat ≠ 0 := fun hno => hne (UInt8.toNat_inj.mp hno)
    have hsub : (8 - extLen % 8 : UInt8).toNat = 8 - (extLen % 8).toNat := by
      rw [UInt8.toNat_sub_of_le]
      · rfl
      · rw [UInt8.le_iff_toNat_le]
        exact le_of_lt hlt
    omega

/-! ### The path -/

/-- The parents of a node lead over `up` to the root. -/
def Way {ι : Type} (next : ι → Option ι) (root : ι) : ι → List ι → Prop
  | n, [] => n ≠ root ∧ next n = some root
  | n, m :: up => n ≠ root ∧ next n = some m ∧ Way next root m up

theorem Way.ne {n : ι} : ∀ {up : List ι}, Way next root n up → n ≠ root
  | [], h => h.1
  | _ :: _, h => h.1

theorem Way.reachesIn : ∀ {up : List ι} {n : ι}, Way next root n up → Lib.ReachesIn next root (up.length + 1) n
  | [], _, h => .step h.1 h.2 .root
  | _ :: _, _, h => .step h.1 h.2.1 h.2.2.reachesIn

theorem Way.reaches : ∀ {up : List ι} {n : ι}, Way next root n up → Lib.Reaches next root n
  | [], _, h => .step h.2 .root
  | _ :: _, _, h => .step h.2.1 h.2.2.reaches

variable {c : RplNs.Config} {s : RplNs.State c} {root : Fin c.linkNum} {up : List (Fin c.linkNum)}

theorem Way.length_lt {n : Fin c.linkNum} (h : Way s.parent root n up) :
    up.length + 1 < c.linkNum := by
  have := h.reachesIn.lt_card
  rwa [Fintype.card_fin] at this

/-- The bytes that the nodes have in common with the destination. -/
def common (s : RplNs.State c) (dest : IpAddr) (nodes : List (Fin c.linkNum)) : Nat :=
  nodes.foldl (fun cmpri node =>
    min cmpri (countMatchingBytes (ofFn (globalAddr s node)) (ofFn dest))) 15

theorem measure_way (dest : IpAddr) : ∀ {up : List (Fin c.linkNum)} {m : Fin c.linkNum} {n k p cmpri : Nat},
    Way s.parent root m up → up.length + 1 < n → k = up.length + 1 →
      measure s root dest n (some m) (UInt8.ofNat p, cmpri) = (UInt8.ofNat (p + k), (m :: up).foldl (fun cmpri node =>
          min cmpri (countMatchingBytes (ofFn (globalAddr s node)) (ofFn dest))) cmpri)
  | [], m, n + 2, k, p, cmpri, h, _, hk => by
    rw [measure, if_neg h.1, h.2, measure, if_pos rfl, hk, UInt8.ofNat_add]
    rfl
  | q :: up, m, n + 1, k, p, cmpri, h, hn, hk => by
    rw [length_cons] at hn hk
    have hstep : UInt8.ofNat p + 1 = UInt8.ofNat (p + 1) := by rw [UInt8.ofNat_add]; rfl
    have hk' : p + 1 + (up.length + 1) = p + k := by omega
    rw [measure, if_neg h.1, h.2.1, hstep, measure_way dest h.2.2 (by omega) rfl, hk']
    rfl
  | [], _, 0, _, _, _, _, hn, _ => by omega
  | [], _, 1, _, _, _, _, hn, _ => by rw [length_nil] at hn; omega
  | _ :: _, _, 0, _, _, _, _, hn, _ => by omega

/-! ### Writing the hops -/

theorem length_compressed (addr : IpAddr) : (compressed cmpri addr).length = 16 - cmpri := by
  rw [compressed, length_drop, length_ofFn]

/-- The table of the hops behind the first, for a path from its end. -/
def table (s : RplNs.State c) (cmpri : Nat) (n : Fin c.linkNum) (up : List (Fin c.linkNum)) : List (List UInt8) :=
  (((n :: up).reverse.tail).map fun l => compressed cmpri (globalAddr s l))

def firstHop (n : Fin c.linkNum) (up : List (Fin c.linkNum)) : Fin c.linkNum := (n :: up).getLast (by simp)

theorem table_cons (cmpri : Nat) (n m : Fin c.linkNum) (up : List (Fin c.linkNum)) :
    table s cmpri n (m :: up) = table s cmpri m up ++ [compressed cmpri (globalAddr s n)] := by
  have hne : (m :: up).reverse ≠ [] := by simp
  rw [table, reverse_cons, tail_append_of_ne_nil hne, map_append]
  rfl

theorem length_table (cmpri : Nat) (n : Fin c.linkNum) (up : List (Fin c.linkNum)) :
    (table s cmpri n up).length = up.length := by
  rw [table, length_map, length_tail, length_reverse, length_cons, Nat.add_sub_cancel]

theorem length_of_mem_table {n : Fin c.linkNum} {x : List UInt8}
    (hx : x ∈ table s cmpri n up) : x.length = 16 - cmpri := by
  obtain ⟨l, _, rfl⟩ := mem_map.mp hx
  exact length_compressed _

theorem writeHops_way : ∀ {up : List (Fin c.linkNum)} {n : Fin c.linkNum} {k : Nat}
    {buf : Nat → UInt8}, Way s.parent root n up → up.length < k →
      writeHops s root cmpri k (some n) ((o + up.length * (16 - cmpri) : Nat) : Int) buf =
        some (firstHop n up, store buf o (table s cmpri n up).flatten)
  | [], n, k + 1, buf, h, _ => by
    rw [writeHops, if_pos h.2]
    congr 2
    funext i
    rw [Lib.store_outside (by simp [table]; omega)]
  | m :: up, n, k + 1, buf, h, hk => by
    have hne : ¬s.parent n = some root := by
      rw [h.2.1, Option.some.injEq]
      exact h.2.2.ne
    have hptr : ((o + (m :: up).length * (16 - cmpri) : Nat) : Int) - ((16 - cmpri : Nat) : Int) =
        ((o + up.length * (16 - cmpri) : Nat) : Int) := by
      rw [length_cons, Nat.succ_mul]
      omega
    rw [writeHops, if_neg hne, hptr, if_neg (by omega), h.2.1, Int.toNat_natCast,
      writeHops_way h.2.2 (Nat.lt_of_succ_lt_succ hk), table_cons, flatten_append, flatten_singleton]
    have hlen : up.length * (16 - cmpri) = (table s cmpri m up).flatten.length := by
      rw [Lib.length_flatten_of_forall fun x hx => length_of_mem_table hx, length_table]
    rw [hlen, Lib.store_append]
    rfl
  | _, _, 0, _, _, hk => absurd hk (Nat.not_lt_zero _)

/-- Not enough room in front of the pointer. -/
theorem writeHops_none : ∀ {up : List (Fin c.linkNum)} {n : Fin c.linkNum} {k : Nat} {p : Int}
    {buf : Nat → UInt8}, Way s.parent root n up → up ≠ [] → p - (up.length * (16 - cmpri) : Nat) < 0 →
      writeHops s root cmpri k (some n) p buf = none
  | [], _, _, _, _, _, hup, _ => absurd rfl hup
  | _ :: _, _, 0, _, _, _, _, _ => rfl
  | m :: up, n, k + 1, p, buf, h, _, hp => by
    have hne : ¬s.parent n = some root := by
      rw [h.2.1, Option.some.injEq]
      exact h.2.2.ne
    rw [writeHops, if_neg hne, h.2.1]
    split
    · rfl
    next hroom =>
      rw [length_cons, Nat.succ_mul] at hp
      cases up with
      | nil =>
        rw [length_nil, zero_mul] at hp
        omega
      | cons q up => exact writeHops_none h.2.2 (cons_ne_nil q up) (by omega)

/-- The length of the header, with its padding. -/
def headerLen (n cmpri : Nat) : Nat := (rhLen + srhLen + n * (16 - cmpri) + 7) / 8 * 8

theorem headerLen_toNat (hc : cmpri ≤ 16) (hlt : headerLen n cmpri < 256) :
    (paddingOf (extLenOf (UInt8.ofNat n) cmpri)).toNat = headerLen n cmpri - (8 + n * (16 - cmpri)) ∧
      (extLenOf (UInt8.ofNat n) cmpri + paddingOf (extLenOf (UInt8.ofNat n) cmpri)).toNat = headerLen n cmpri := by
  have hext := extLenOf_toNat n hc
  have hpad := paddingOf_toNat (extLenOf (UInt8.ofNat n) cmpri)
  rw [headerLen, rhLen, srhLen] at *
  rw [UInt8.toNat_add, hpad, hext]
  omega

/-- Behind 255 the length wraps around, and the pointer comes out in front of the buffer. -/
theorem headerLen_wraps (hc : cmpri ≤ 16) (hge : 256 ≤ headerLen n cmpri) :
    ((iphLen + (extLenOf (UInt8.ofNat n) cmpri + paddingOf (extLenOf (UInt8.ofNat n) cmpri)).toNat : Nat) : Int) -
      (paddingOf (extLenOf (UInt8.ofNat n) cmpri)).toNat - (n * (16 - cmpri) : Nat) <
      0 := by
  have hext := extLenOf_toNat n hc
  have hpad := paddingOf_toNat (extLenOf (UInt8.ofNat n) cmpri)
  rw [headerLen, rhLen, srhLen] at hge
  rw [UInt8.toNat_add, hpad, hext, iphLen]
  omega

/-! ### Common bytes -/

theorem take_countMatchingBytes : ∀ {as bs : List UInt8} {n : Nat}, n ≤ countMatchingBytes as bs →
    as.take n = bs.take n
  | _, _, 0, _ => rfl
  | [], _, n + 1, h => absurd h (Nat.not_succ_le_zero n)
  | _ :: _, [], n + 1, h => absurd h (Nat.not_succ_le_zero n)
  | a :: as, b :: bs, n + 1, h => by
    rw [countMatchingBytes] at h
    split at h
    next hab => rw [take_succ_cons, take_succ_cons, hab, take_countMatchingBytes (Nat.le_of_succ_le_succ h)]
    · exact absurd h (Nat.not_succ_le_zero n)

theorem foldl_min_le {α : Type} (f : α → Nat) : ∀ (l : List α) (b : Nat),
    l.foldl (fun c x => min c (f x)) b ≤ b ∧ ∀ x ∈ l, l.foldl (fun c x => min c (f x)) b ≤ f x
  | [], b => ⟨le_refl b, nofun⟩
  | y :: l, b => by
    obtain ⟨hb, hl⟩ := foldl_min_le f l (min b (f y))
    rw [foldl_cons]
    refine ⟨le_trans hb (min_le_left ..), fun x hx => ?_⟩
    rcases mem_cons.mp hx with rfl | hx
    · exact le_trans hb (min_le_right ..)
    · exact hl x hx

theorem common_le (dest : IpAddr) (nodes : List (Fin c.linkNum)) : common s dest nodes ≤ 15 :=
  (foldl_min_le _ nodes 15).1

theorem take_common {nodes : List (Fin c.linkNum)} {l : Fin c.linkNum} (hl : l ∈ nodes) :
    (ofFn (globalAddr s l)).take (common s dest nodes) = (ofFn dest).take (common s dest nodes) :=
  take_countMatchingBytes ((foldl_min_le _ nodes 15).2 l hl)

theorem globalAddr_of_getNode {dag : c.Dag} {l : Fin c.linkNum}
    (h : RplNs.getNode s dag addr = some l) : globalAddr s l = addr := by
  have hmatch := find?_some h
  rw [RplNs.nodeMatchesAddress, Bool.and_eq_true, Bool.and_eq_true] at hmatch
  have hprefix : addr.prefix64 = (c.dagId (s.node l).dag).prefix64 := of_decide_eq_true hmatch.1.2
  have hlink : addr.linkIdentifier = (s.node l).linkIdentifier := of_decide_eq_true hmatch.2
  funext i
  rw [globalAddr]
  split
  next hi =>
    rw [← hprefix]
    rfl
  next hi =>
    rw [← hlink]
    show addr _ = addr i
    congr 1
    ext
    show 8 + (i.val - 8) = i.val
    omega

/-! ### Forwarders -/

/-- The packet `u` behind `j` forwarders; `u₀` is the packet without the header. -/
structure Stage (u₀ : Uip) (hops : List IpAddr) (cmpri j : Nat) (u : Uip) : Prop where
  routing : u.buf proto = protoRouting
  next : u.buf iphLen = u₀.buf proto
  hdrLen : u.buf (iphLen + 1) = UInt8.ofNat (headerLen (hops.length - 1) cmpri / 8 - 1)
  type : u.buf (iphLen + 2) = typeSrh
  left : u.buf (iphLen + 3) = UInt8.ofNat (hops.length - 1 - j)
  cmpr : u.buf (iphLen + 4) = UInt8.ofNat (cmpri * 16 + cmpri)
  pad : u.buf (iphLen + 5) =
    UInt8.ofNat (headerLen (hops.length - 1) cmpri - (8 + (hops.length - 1) * (16 - cmpri))) * 16
  dest : hops[j]? = some u.dest
  table : Holds u.buf (iphLen + 8) ((hops.eraseIdx j).map (compressed cmpri)).flatten
  payload : Holds u.buf (iphLen + headerLen (hops.length - 1) cmpri) (slice u₀.buf iphLen (u₀.len.toNat - iphLen))
  lengths : Holds u.buf lenHi [if u₀.buf lenLo + UInt8.ofNat (headerLen (hops.length - 1) cmpri) < u₀.buf lenLo
    then u₀.buf lenHi + 1 else u₀.buf lenHi, u₀.buf lenLo + UInt8.ofNat (headerLen (hops.length - 1) cmpri)]
  size : u.len = u₀.len + UInt16.ofNat (headerLen (hops.length - 1) cmpri)

theorem nibbles : ∀ cmpri : Fin 16, (UInt8.ofNat (cmpri * 16 + cmpri) >>> 4).toNat = cmpri ∧
    (UInt8.ofNat (cmpri * 16 + cmpri) &&& 0x0f).toNat = cmpri := by decide

theorem nibble_padding : ∀ padding : Fin 8, ((UInt8.ofNat padding * 16) >>> 4).toNat = padding := by decide

/-- The length field gives the length back. -/
theorem lenField_toNat (hlt : headerLen n cmpri < 256) :
    (UInt8.ofNat (headerLen n cmpri / 8 - 1) * 8 + 8).toNat = headerLen n cmpri := by
  rw [headerLen, rhLen, srhLen] at *
  rw [UInt8.toNat_add, UInt8.toNat_mul, UInt8.toNat_ofNat']
  have h8 : (8 : UInt8).toNat = 8 := rfl
  rw [h8]
  omega

theorem headerLen_bounds (n cmpri : Nat) : 8 + n * (16 - cmpri) ≤ headerLen n cmpri ∧
    headerLen n cmpri - (8 + n * (16 - cmpri)) < 8 ∧ headerLen n cmpri % 8 = 0 := by
  rw [headerLen, rhLen, srhLen]
  omega

/-- A record has a byte at least, so there are fewer than 256. -/
theorem length_of_headerLen (hc : cmpri ≤ 15) (hlt : headerLen n cmpri < 256) : n < 248 := by
  have hle : n * 1 ≤ n * (16 - cmpri) := Nat.mul_le_mul_left n (by omega)
  have := (headerLen_bounds n cmpri).1
  omega

theorem pathLen_found (hn : 1 ≤ n) (hc : cmpri ≤ 15) : UInt8.ofInt (((headerLen n cmpri : Int) - (headerLen n cmpri -
    (8 + n * (16 - cmpri)) : Nat) - rhLen - srhLen - (16 - cmpri)).tdiv (16 - cmpri) + 1) = UInt8.ofNat n := by
  obtain ⟨m, rfl⟩ := Nat.exists_eq_add_of_le hn
  obtain ⟨a, ha⟩ : ∃ a, 16 - cmpri = a + 1 := ⟨15 - cmpri, by omega⟩
  have hle := (headerLen_bounds (1 + m) cmpri).1
  have hcast : ((16 : Int) - cmpri) = ((a + 1 : Nat) : Int) := by omega
  have hnum : (headerLen (1 + m) cmpri : Int) -
      ((headerLen (1 + m) cmpri - (8 + (1 + m) * (16 - cmpri)) : Nat) : Int) - rhLen - srhLen -
      ((a + 1 : Nat) : Int) = (m : Int) * ((a + 1 : Nat) : Int) := by
    rw [ha] at hle ⊢
    rw [Int.ofNat_sub hle, rhLen, srhLen]
    push_cast
    ring
  rw [hcast, hnum, Int.mul_tdiv_cancel _ (by omega), ← UInt8.toNat_inj, toNat_ofInt, UInt8.toNat_ofNat']
  omega

theorem set_eraseIdx {α : Type} : ∀ {l : List α} {j : Nat} {x : α}, l[j]? = some x →
    j + 1 < l.length → (l.eraseIdx j).set j x = l.eraseIdx (j + 1)
  | [], _, _, h, _ => by cases h
  | [_], _, _, _, hj => absurd (Nat.lt_of_succ_lt_succ hj) (Nat.not_lt_zero _)
  | y :: z :: l, 0, x, h, _ => by
    cases h
    rfl
  | y :: z :: l, j + 1, x, h, hj => by
    have ih := set_eraseIdx (l := z :: l) (x := x) h (Nat.lt_of_succ_lt_succ hj)
    rw [eraseIdx_cons_succ, set_cons_succ, ih]
    rfl

/-- The bytes of the destination. -/
theorem slice_dest (u : Uip) : slice u.buf destOffset 16 = ofFn u.dest := by
  rfl

/-- Where the destination is written, the leading bytes stay. -/
theorem dest_put (hc : cmpri ≤ 15) (hcommon : (List.ofFn u.dest).take cmpri = (List.ofFn addr).take cmpri) :
    (u.put (destOffset + cmpri) (compressed cmpri addr)).dest = addr := by
  funext i
  have hi := i.isLt
  show store u.buf (destOffset + cmpri) (compressed cmpri addr) (destOffset + i) = addr i
  rcases lt_or_ge i.val cmpri with hlt | hge
  · rw [Lib.store_outside (.inl (by omega))]
    have hget := congrArg (fun l => l[i.val]?) hcommon
    simp only [List.getElem?_take_of_lt hlt, List.getElem?_ofFn, dif_pos hi, Option.some.injEq] at hget
    exact hget
  · have hplace : destOffset + i.val = destOffset + cmpri + (i.val - cmpri) := by omega
    rw [hplace, Lib.store_inside (by rw [length_compressed]; omega), compressed, List.getD_eq_getElem?_getD,
      List.getElem?_drop, List.getElem?_ofFn]
    simp [Nat.add_sub_cancel' hge, hi]

variable {u₀ u : Uip} {hops : List IpAddr} {cmpri j : Nat}

theorem Stage.swapNext_eq (h : Stage u₀ hops cmpri j u) (hc : cmpri ≤ 15)
    (hlt : headerLen (hops.length - 1) cmpri < 256) (hj : j + 1 < hops.length) :
    swapNext iphLen u =
      ((u.put (destOffset + cmpri) (slice u.buf (iphLen + 8 + j * (16 - cmpri)) (16 - cmpri))).put
        (iphLen + 8 + j * (16 - cmpri)) ((ofFn u.dest).drop cmpri)).put (iphLen + 3) [UInt8.ofNat
          (hops.length - 1 - j) - 1] := by
  have hn := length_of_headerLen hc hlt
  have hleft : (UInt8.ofNat (hops.length - 1 - j)).toNat = hops.length - 1 - j := toNat_ofNat (by omega)
  have hne : UInt8.ofNat (hops.length - 1 - j) ≠ 0 := by
    intro hno
    rw [hno] at hleft
    have : (0 : UInt8).toNat = 0 := rfl
    omega
  obtain ⟨hri, hre⟩ := nibbles ⟨cmpri, by omega⟩
  have hpad := nibble_padding ⟨_, (headerLen_bounds (hops.length - 1) cmpri).2.1⟩
  have hpath := pathLen_found (n := hops.length - 1) (by omega) hc
  have hindex : (UInt8.ofNat (hops.length - 1) - UInt8.ofNat (hops.length - 1 - j)).toNat = j := by
    rw [UInt8.toNat_sub_of_le]
    · rw [hleft, toNat_ofNat (by omega)]
      omega
    · rw [UInt8.le_iff_toNat_le, hleft, toNat_ofNat (by omega)]
      omega
  have hcmpr : (if UInt8.ofNat (hops.length - 1 - j) = 1 then cmpri else cmpri) = cmpri := ite_self cmpri
  rw [swapNext]
  simp only [h.left, h.cmpr, h.hdrLen, h.pad, hri, hre, hpad, lenField_toNat hlt, hpath, if_neg hne, hindex, hcmpr,
    slice_dest]
  rfl

/-- FRAME: a store elsewhere. -/
theorem holds_put {bs : List UInt8} (h : Holds u.buf o bs)
    (hd : o + bs.length ≤ p ∨ p + as.length ≤ o) : Holds (u.put p as).buf o bs := by
  show slice (store u.buf p as) o bs.length = bs
  rw [Lib.slice_store_outside hd]
  exact h

theorem buf_put (hd : o < p ∨ p + as.length ≤ o) : (u.put p as).buf o = u.buf o := Lib.store_outside hd

theorem buf_put_self {b : UInt8} : (u.put o [b]).buf o = b := (Lib.holds_cons.mp (Lib.holds_store u.buf o [b])).1

theorem dest_put_outside (hd : p + as.length ≤ 24 ∨ 40 ≤ p) : (u.put p as).dest = u.dest := by
  funext i
  have ho : destOffset = 24 := rfl
  exact buf_put (by omega)

theorem table_records {x : List UInt8} (hx : x ∈ (hops.eraseIdx j).map (compressed cmpri)) :
    x.length = 16 - cmpri := by
  obtain ⟨addr, _, rfl⟩ := mem_map.mp hx
  exact length_compressed addr

/-- STEP: a forwarder takes the packet one hop further. -/
theorem Stage.swapNext (h : Stage u₀ hops cmpri j u) (hc : cmpri ≤ 15) (hlt : headerLen (hops.length - 1) cmpri < 256)
    (haddr : hops[j + 1]? = some addr) (hcommon : (ofFn u.dest).take cmpri = (ofFn addr).take cmpri) :
    Stage u₀ hops cmpri (j + 1) (swapNext iphLen u) := by
  obtain ⟨hj, -⟩ := List.getElem?_eq_some_iff.mp haddr
  have hlen : (hops.eraseIdx j).length = hops.length - 1 := length_eraseIdx_of_lt (by omega)
  -- the record that the swap reads, and the room that it lies in
  have hnext : slice u.buf (iphLen + 8 + j * (16 - cmpri)) (16 - cmpri) = compressed cmpri addr := by
    refine Lib.slice_record (fun x hx => table_records hx) h.table ?_
    rw [getElem?_map, getElem?_eraseIdx_of_ge (le_refl j), haddr]
    rfl
  have hroom : (j + 1) * (16 - cmpri) ≤ (hops.length - 1) * (16 - cmpri) :=
    Nat.mul_le_mul_right _ (by omega)
  rw [Nat.succ_mul] at hroom
  have hhdr := (headerLen_bounds (hops.length - 1) cmpri).1
  have hdrop : ((ofFn u.dest).drop cmpri).length = 16 - cmpri := length_compressed u.dest
  have hproto : proto = 6 := rfl
  have hiph : iphLen = 40 := rfl
  have hdest : destOffset = 24 := rfl
  have hhi : lenHi = 4 := rfl
  rw [h.swapNext_eq hc hlt hj, hnext]
  have hbyte : ∀ o, o < 24 ∨ o = 40 ∨ o = 41 ∨ o = 42 ∨ o = 44 ∨ o = 45 →
      (((u.put (destOffset + cmpri) (compressed cmpri addr)).put (iphLen + 8 + j * (16 - cmpri))
        ((ofFn u.dest).drop cmpri)).put (iphLen + 3) [UInt8.ofNat (hops.length - 1 - j) - 1]).buf o = u.buf o := by
    intro o ho
    rw [buf_put (by rw [length_singleton]; omega), buf_put (by rw [hdrop]; omega),
      buf_put (by rw [length_compressed]; omega)]
  refine
    { routing := (hbyte _ (by omega)).trans h.routing
      next := (hbyte _ (by omega)).trans h.next
      hdrLen := (hbyte _ (by omega)).trans h.hdrLen
      type := (hbyte _ (by omega)).trans h.type
      left := ?_
      cmpr := (hbyte _ (by omega)).trans h.cmpr
      pad := (hbyte _ (by omega)).trans h.pad
      dest := ?_
      table := ?_
      payload := ?_
      lengths := ?_
      size := h.size }
  · rw [buf_put_self]
    have hone : UInt8.ofNat (hops.length - 1 - j) = UInt8.ofNat (hops.length - 1 - (j + 1)) + 1 := by
      rw [show hops.length - 1 - j = hops.length - 1 - (j + 1) + 1 by omega, UInt8.ofNat_add]
      rfl
    rw [hone, UInt8.add_sub_cancel]
  · rw [dest_put_outside (by omega), dest_put_outside (by omega), dest_put hc hcommon, haddr]
  · refine holds_put ?_ (.inr (by rw [length_singleton]; omega))
    have hbehind : destOffset + cmpri + (compressed cmpri addr).length ≤ iphLen + 8 := by
      rw [length_compressed]
      omega
    have hset := Lib.holds_set_record (a := 16 - cmpri) hdrop (i := j) (fun x hx => table_records hx)
      (holds_put h.table (.inr hbehind)) (by rw [length_map, hlen]; omega)
    have hmap : ((hops.eraseIdx j).map (compressed cmpri)).set j ((ofFn u.dest).drop cmpri) =
        (hops.eraseIdx (j + 1)).map (compressed cmpri) := by
      rw [← set_eraseIdx h.dest hj, map_set]
      rfl
    rw [hmap] at hset
    exact hset
  · refine holds_put (holds_put (holds_put h.payload ?_) ?_) ?_
    · rw [length_compressed]
      omega
    · rw [hdrop]
      omega
    · rw [length_singleton]
      omega
  · refine holds_put (holds_put (holds_put h.lengths ?_) ?_) ?_
    · rw [length_compressed, length_cons, length_singleton]
      omega
    · rw [hdrop, length_cons, length_singleton]
      omega
    · rw [length_cons, length_singleton]
      omega

theorem findRouting_first (h : u.buf proto = protoRouting) : findRouting u.buf (n + 1) proto 0 = some (some 0) := by
  rw [findRouting, if_pos h]

theorem swapNext_extLen (rh : Nat) (e : UInt8) (u : Uip) :
    swapNext rh { u with extLen := e } = { swapNext rh u with extLen := e } := by
  rw [swapNext, swapNext]
  split <;> rfl

theorem Stage.process (h : Stage u₀ hops cmpri j u) (n : Nat) (e : UInt8) :
    processSrhHeader (n + 1) { u with extLen := e } = some (true, { SourceRoute.swapNext iphLen u with extLen := e }) := by
  have hrh : iphLen + (0 : UInt8).toNat = iphLen := rfl
  rw [processSrhHeader, findRouting_first h.routing]
  dsimp only
  rw [hrh, if_pos h.type, swapNext_extLen]

/-- What goes in front of the payload, and comes out again. -/
structure Restores (u₀ v : Uip) : Prop where
  len : v.len = u₀.len
  lengths : Holds v.buf lenHi [u₀.buf lenHi, u₀.buf lenLo]
  next : v.buf proto = u₀.buf proto
  payload : Holds v.buf iphLen (slice u₀.buf iphLen (u₀.len.toNat - iphLen))

theorem ofNat_toUInt16 (h : n < 256) : (UInt8.ofNat n).toUInt16 = UInt16.ofNat n := by
  rw [← UInt16.toNat_inj, UInt8.toNat_toUInt16, toNat_ofNat h, UInt16.toNat_ofNat', Nat.mod_eq_of_lt (by omega)]

/-- STEP: without the header, the packet is what it was. -/
theorem Stage.restores (h : Stage u₀ hops cmpri j u) (hlt : headerLen (hops.length - 1) cmpri < 256) :
    Restores u₀ (removeExt proto { u with extLen := 0 }) := by
  have hext : ({ u with extLen := 0 } : Uip).ext = iphLen := rfl
  have hproto : proto = 6 := rfl
  have hiph : iphLen = 40 := rfl
  have hhi : lenHi = 4 := rfl
  have hhdr : u.buf (iphLen + 1) * 8 + 8 = UInt8.ofNat (headerLen (hops.length - 1) cmpri) := by
    rw [h.hdrLen, ← UInt8.toNat_inj, lenField_toNat hlt, toNat_ofNat hlt]
  have hsize : u.len - (UInt8.ofNat (headerLen (hops.length - 1) cmpri)).toUInt16 = u₀.len := by
    rw [ofNat_toUInt16 hlt, h.size, UInt16.add_sub_cancel]
  obtain ⟨hhi', hlo⟩ := Lib.holds_cons.mp h.lengths
  have hlo' := (Lib.holds_cons.mp hlo).1
  rw [removeExt]
  rw [hext, hhdr, hsize, toNat_ofNat hlt]
  refine { len := rfl, lengths := ?_, next := ?_, payload := ?_ }
  · refine holds_put ?_ (.inl (by rw [length_cons, length_singleton]; omega))
    have hput : ∀ o, o ≤ 5 → (({ u with extLen := 0 } : Uip).put proto [u.buf iphLen]).buf o = u.buf o :=
      fun o ho => buf_put (.inl (by omega))
    have heq : subLen (UInt8.ofNat (headerLen (hops.length - 1) cmpri))
        (({ u with extLen := 0 } : Uip).put proto [u.buf iphLen]) =
        (({ u with extLen := 0 } : Uip).put proto [u.buf iphLen]).put lenHi [u₀.buf lenHi, u₀.buf lenLo] := by
      rw [subLen, hput lenLo (by decide), hput lenHi (by decide), hhi']
      rw [show u.buf lenLo = _ from hlo', UInt8.add_sub_cancel]
      split
      · rw [UInt8.add_sub_cancel]
      · rfl
    rw [heq]
    exact Lib.holds_store _ _ _
  · rw [buf_put (.inl (by omega)), subLen, buf_put (.inr (by rw [length_cons, length_singleton]; omega)),
      buf_put_self]
    exact h.next
  · have hslice : slice (subLen (UInt8.ofNat (headerLen (hops.length - 1) cmpri))
        (({ u with extLen := 0 } : Uip).put proto [u.buf iphLen])).buf
          (iphLen + headerLen (hops.length - 1) cmpri) (u₀.len.toNat - iphLen) =
        slice u₀.buf iphLen (u₀.len.toNat - iphLen) := by
      have hheld : Holds (subLen (UInt8.ofNat (headerLen (hops.length - 1) cmpri))
          (({ u with extLen := 0 } : Uip).put proto [u.buf iphLen])).buf
          (iphLen + headerLen (hops.length - 1) cmpri) (slice u₀.buf iphLen (u₀.len.toNat - iphLen)) := by
        refine holds_put (holds_put h.payload (.inr ?_)) (.inr ?_)
        · rw [length_singleton]
          omega
        · rw [length_cons, length_singleton]
          omega
      rw [Holds, Lib.length_slice] at hheld
      exact hheld
    rw [hslice]
    exact Lib.holds_store _ _ _

/-- The removal ends with the next header, which is no header of its own kind. -/
theorem Stage.remove (h : Stage u₀ hops cmpri j u) (hlt : headerLen (hops.length - 1) cmpri < 256)
    (hhbho : u₀.buf proto ≠ protoHbho) (hrouting : u₀.buf proto ≠ protoRouting) :
    ∃ v, Restores u₀ v ∧ ∀ n e, removeHeader (n + 2) { u with extLen := e } = some v := by
  have hr := h.restores hlt
  have hnext := hr.next
  have hfirst : ∀ n e, removeHeader (n + 2) { u with extLen := e } =
      removeLoop (n + 1) (removeExt proto { u with extLen := 0 }) := by
    intro n e
    rw [removeHeader, removeLoop, if_pos (.inr h.routing)]
  have hno : ¬((removeExt proto { u with extLen := 0 }).buf proto = protoHbho ∨
      (removeExt proto { u with extLen := 0 }).buf proto = protoRouting) := by
    rw [hnext]
    exact not_or.mpr ⟨hhbho, hrouting⟩
  by_cases hdesto : (removeExt proto { u with extLen := 0 }).buf proto = protoDesto
  · let v := removeExt proto { u with extLen := 0 }
    refine ⟨{ v with extLen := v.extLen + (v.buf (v.ext + 1) <<< 3) + 8 },
      ⟨hr.len, hr.lengths, hr.next, hr.payload⟩, fun n e => ?_⟩
    rw [hfirst, removeLoop, if_neg hno, if_pos hdesto]
  · refine ⟨_, hr, fun n e => ?_⟩
    rw [hfirst, removeLoop, if_neg hno, if_neg hdesto]

/-! ### The root -/

theorem headerLen_eq (hc : cmpri ≤ 16) (hlt : headerLen n cmpri < 256) :
    paddingOf (extLenOf (UInt8.ofNat n) cmpri) = UInt8.ofNat (headerLen n cmpri - (8 + n * (16 - cmpri))) ∧
    extLenOf (UInt8.ofNat n) cmpri + paddingOf (extLenOf (UInt8.ofNat n) cmpri) =
      UInt8.ofNat (headerLen n cmpri) := by
  obtain ⟨hpad, hext⟩ := headerLen_toNat hc hlt
  refine ⟨?_, ?_⟩
  · rw [← UInt8.toNat_inj, hpad, toNat_ofNat (by omega)]
  · rw [← UInt8.toNat_inj, hext, toNat_ofNat hlt]

/-- The packet with the fields of the header in front of the payload. -/
def headed (n cmpri : Nat) (u : Uip) : Uip :=
  (((u.put (u.ext + headerLen n cmpri) (slice u.buf u.ext (u.len.toNat - iphLen))).put u.ext
    (replicate (headerLen n cmpri) 0)).put u.ext [u.buf proto, UInt8.ofNat (headerLen n cmpri / 8 - 1),
      typeSrh, UInt8.ofNat n, UInt8.ofNat (cmpri * 16 + cmpri),
      UInt8.ofNat (headerLen n cmpri - (8 + n * (16 - cmpri))) * 16]).put proto [protoRouting]

/-- The packet with the path. -/
def routed (s : RplNs.State c) (cmpri : Nat) (n : Fin c.linkNum) (up : List (Fin c.linkNum)) (u : Uip) : Uip :=
  addLen (UInt8.ofNat (headerLen up.length cmpri)) (((headed up.length cmpri u).put (u.ext + 8)
    (table s cmpri n up).flatten).put destOffset (ofFn (globalAddr s (firstHop n up))))

theorem insertPath_way {n : Fin c.linkNum} (h : Way s.parent root n up) (hc : cmpri ≤ 15) (hlt : headerLen up.length cmpri < 256) :
    insertPath s root n (UInt8.ofNat up.length) cmpri u = some (true, { routed s cmpri n up u with
        extLen := u.extLen + UInt8.ofNat (headerLen up.length cmpri)
        len := u.len + UInt16.ofNat (headerLen up.length cmpri) }) := by
  obtain ⟨hpad, hext⟩ := headerLen_eq (Nat.le_succ_of_le hc) hlt
  obtain ⟨hge, hpadlt, hmod⟩ := headerLen_bounds up.length cmpri
  have hfield : UInt8.ofInt (((headerLen up.length cmpri : Int) - 8).tdiv 8) =
      UInt8.ofNat (headerLen up.length cmpri / 8 - 1) := by
    have hdiv : ((headerLen up.length cmpri : Int) - 8).tdiv 8 = ((headerLen up.length cmpri / 8 - 1 : Nat) : Int) := by
      rw [Int.tdiv_eq_ediv_of_nonneg (by omega)]
      omega
    rw [← UInt8.toNat_inj, hdiv, toNat_ofInt, UInt8.toNat_ofNat']
    omega
  have hptr : ((u.ext + headerLen up.length cmpri : Nat) : Int) -
      (headerLen up.length cmpri - (8 + up.length * (16 - cmpri)) : Nat) =
      ((u.ext + 8 + up.length * (16 - cmpri) : Nat) : Int) := by omega
  rw [insertPath]
  rw [hext, hpad, toNat_ofNat hlt, toNat_ofNat (show headerLen up.length cmpri - (8 + up.length * (16 - cmpri)) < 256 by omega),
    ofNat_toUInt16 hlt, hfield, ← Nat.cast_add, hptr, writeHops_way h (by have := h.length_lt; omega)]
  rfl

theorem stage_routed {n : Fin c.linkNum} (hext : u.extLen = 0) :
    Stage u ((n :: up).reverse.map (globalAddr s)) cmpri 0
      { routed s cmpri n up u with
        extLen := u.extLen + UInt8.ofNat (headerLen up.length cmpri)
        len := u.len + UInt16.ofNat (headerLen up.length cmpri) } := by
  obtain ⟨hge, hpadlt, hmod⟩ := headerLen_bounds up.length cmpri
  have hlen : ((n :: up).reverse.map (globalAddr s)).length - 1 = up.length := by
    rw [length_map, length_reverse, length_cons, Nat.add_sub_cancel]
  have htable : (((n :: up).reverse.map (globalAddr s)).eraseIdx 0).map (compressed cmpri) = table s cmpri n up := by
    rw [table, eraseIdx_zero, ← map_tail, map_map]
    rfl
  have hflat : (table s cmpri n up).flatten.length = up.length * (16 - cmpri) := by
    rw [Lib.length_flatten_of_forall fun x hx => length_of_mem_table hx, length_table]
  have hofn : (ofFn (globalAddr s (firstHop n up))).length = 16 := length_ofFn
  have hu : u.ext = 40 := by
    rw [Uip.ext, hext]
    rfl
  have hproto : proto = 6 := rfl
  have hiph : iphLen = 40 := rfl
  have hdest : destOffset = 24 := rfl
  have hhi : lenHi = 4 := rfl
  -- the six fields, and what the later stores leave of them
  have hfields : Holds (headed up.length cmpri u).buf 40 [u.buf proto, UInt8.ofNat (headerLen up.length cmpri / 8 - 1),
      typeSrh, UInt8.ofNat up.length, UInt8.ofNat (cmpri * 16 + cmpri),
      UInt8.ofNat (headerLen up.length cmpri - (8 + up.length * (16 - cmpri))) * 16] := by
    rw [headed, hu]
    exact holds_put (Lib.holds_store _ _ _) (.inr (by rw [length_singleton]; omega))
  have hlater : ∀ {o : Nat} {bs : List UInt8}, Holds (headed up.length cmpri u).buf o bs →
      40 ≤ o ∧ o + bs.length ≤ 48 ∨ 40 + headerLen up.length cmpri ≤ o ∨ o = 6 ∧ bs.length = 1 →
        Holds (routed s cmpri n up u).buf o bs := by
    intro o bs hbs hd
    refine holds_put (holds_put (holds_put hbs ?_) ?_) ?_
    · rw [hflat, hu]
      omega
    · rw [hofn]
      omega
    · rw [length_cons, length_singleton]
      omega
  have hbytes := hlater hfields (.inl ⟨by omega, by simp⟩)
  simp only [Lib.holds_cons] at hbytes
  obtain ⟨hnext, hhdrLen, htype, hleft, hcmpr, hpad, -⟩ := hbytes
  refine
    { routing := ?_
      next := hnext
      hdrLen := by rw [hlen]; exact hhdrLen
      type := htype
      left := by rw [hlen]; exact hleft
      cmpr := hcmpr
      pad := by rw [hlen]; exact hpad
      dest := ?_
      table := ?_
      payload := ?_
      lengths := ?_
      size := by rw [hlen] }
  · have hrouting : Holds (headed up.length cmpri u).buf 6 [protoRouting] := Lib.holds_store _ _ _
    exact (Lib.holds_cons.mp (hlater hrouting (.inr (.inr ⟨rfl, rfl⟩)))).1
  · have hfirst : ((n :: up).reverse.map (globalAddr s))[0]? = some (globalAddr s (firstHop n up)) := by
      rw [getElem?_map, ← head?_eq_getElem?, head?_reverse,
        getLast?_eq_getLast_of_ne_nil (cons_ne_nil n up)]
      rfl
    rw [hfirst, Option.some.injEq]
    refine Eq.symm ((dest_put_outside (.inl (by rw [length_cons, length_singleton]; omega))).trans ?_)
    exact dest_put (Nat.zero_le 15) rfl
  · rw [htable]
    refine holds_put (holds_put ?_ ?_) ?_
    · rw [hu, hiph]
      exact Lib.holds_store _ _ _
    · rw [hofn]
      omega
    · rw [length_cons, length_singleton]
      omega
  · rw [hlen]
    refine hlater ?_ (.inr (.inl (by omega)))
    rw [headed, hu]
    refine holds_put (holds_put (holds_put (Lib.holds_store _ _ _) ?_) ?_) ?_
    · rw [length_replicate]
      omega
    · simp only [length_cons, length_nil]
      omega
    · rw [length_singleton]
      omega
  · rw [hlen]
    have hkeep : ∀ o, o = 4 ∨ o = 5 → (((headed up.length cmpri u).put (u.ext + 8)
        (table s cmpri n up).flatten).put destOffset (ofFn (globalAddr s (firstHop n up)))).buf o = u.buf o := by
      intro o ho
      rw [buf_put (by omega), buf_put (by omega), headed, buf_put (by omega), buf_put (by omega), buf_put (by omega),
        buf_put (by omega)]
    have hheld := Lib.holds_store (((headed up.length cmpri u).put (u.ext + 8) (table s cmpri n up).flatten).put
      destOffset (ofFn (globalAddr s (firstHop n up)))).buf lenHi
        [if u.buf lenLo + UInt8.ofNat (headerLen up.length cmpri) < u.buf lenLo
          then u.buf lenHi + 1 else u.buf lenHi, u.buf lenLo + UInt8.ofNat (headerLen up.length cmpri)]
    rw [routed, addLen, hkeep lenLo (.inr rfl), hkeep lenHi (.inl rfl)]
    exact hheld

theorem wrapped_le (hc : cmpri ≤ 16) :
    (extLenOf (UInt8.ofNat n) cmpri + paddingOf (extLenOf (UInt8.ofNat n) cmpri)).toNat ≤ headerLen n cmpri := by
  rcases lt_or_ge (headerLen n cmpri) 256 with hlt | hge
  · exact le_of_eq (headerLen_toNat hc hlt).2
  · exact le_trans (le_of_lt (UInt8.toNat_lt _)) hge

section Insert

variable {dag : c.Dag} {node : Fin c.linkNum} {up : List (Fin c.linkNum)} {bufSize : Nat}
  (hroot : RplNs.getNode s dag (c.dagId dag) = some root) (hnode : RplNs.getNode s dag u.dest = some node)
  (hway : Way s.parent root node up) (hup : up ≠ [])
  (hfits : u.len.toNat + headerLen up.length (common s u.dest up) ≤ bufSize)
include hroot hnode hway hup hfits

theorem insertSrhHeader_way : insertSrhHeader bufSize (some dag) s u =
    insertPath s root node (UInt8.ofNat up.length) (common s u.dest up) u := by
  have hreach : RplNs.isNodeReachable s dag u.dest = true :=
    RplNs.isNodeReachable_iff.mpr ⟨root, node, hroot, hnode, hway.reaches⟩
  have hlen := hway.length_lt
  cases up with
  | nil => exact absurd rfl hup
  | cons m up =>
    have hne : s.parent node ≠ some root := by
      rw [hway.2.1]
      exact fun hno => hway.2.2.ne (Option.some.inj hno)
    rw [length_cons] at hlen
    have hmeasure := @measure_way c s root u.dest up m (c.linkNum + 1) (up.length + 1) 0 15 hway.2.2 (by omega) rfl
    rw [zero_add] at hmeasure
    have hle := wrapped_le (n := (m :: up).length) (Nat.le_succ_of_le (common_le (s := s) u.dest (m :: up)))
    rw [insertSrhHeader]
    rw [hnode, hroot]
    dsimp only
    rw [hreach, if_neg Bool.noConfusion, if_neg hne, hway.2.1]
    rw [show measure s root u.dest (c.linkNum + 1) (some m) (0, 15) = _ from hmeasure]
    exact if_neg (Nat.not_lt.mpr (le_trans (Nat.add_le_add_left hle _) hfits))

theorem insertSrhHeader_fits (hlt : headerLen up.length (common s u.dest up) < 256) :
    insertSrhHeader bufSize (some dag) s u = some (true, { routed s (common s u.dest up) node up u with
      extLen := u.extLen + UInt8.ofNat (headerLen up.length (common s u.dest up))
      len := u.len + UInt16.ofNat (headerLen up.length (common s u.dest up)) }) :=
  (insertSrhHeader_way hroot hnode hway hup hfits).trans (insertPath_way hway (common_le _ _) hlt)

/-- A header of more than 255 bytes is written in front of the packet. -/
theorem insertSrhHeader_wraps (hge : 256 ≤ headerLen up.length (common s u.dest up)) (hext : u.extLen = 0) :
    insertSrhHeader bufSize (some dag) s u = none := by
  have hu : u.ext = iphLen := by
    rw [Uip.ext, hext]
    rfl
  have hwraps := headerLen_wraps (Nat.le_succ_of_le (common_le (s := s) u.dest up)) hge
  rw [insertSrhHeader_way hroot hnode hway hup hfits, insertPath]
  rw [hu, ← Nat.cast_add, writeHops_none hway hup hwraps]

end Insert

/-! ### End to end -/

/-- The packet behind each node of the path, and behind the removal of the header. How far the search for the
    header goes, and what `uip_ext_len` was before, does not matter. -/
def Delivers (bufSize : Nat) (dag : Option c.Dag) (s : RplNs.State c) (hops : List IpAddr) (u : Uip) : Prop :=
  ∃ (us : Nat → Uip) (rh : Nat) (v : Uip),
    insertSrhHeader bufSize dag s u = some (true, us 0) ∧
    (∀ j addr, hops[j]? = some addr → (us j).dest = addr ∧ ((us j).buf (rh + 3)).toNat = hops.length - 1 - j) ∧
    (∀ j, j + 1 < hops.length → ∃ n, ∀ m, n ≤ m → ∀ e,
      processSrhHeader m { us j with extLen := e } = some (true, { us (j + 1) with extLen := e })) ∧
    Restores u v ∧ ∃ n, ∀ m, n ≤ m → ∀ e, removeHeader m { us (hops.length - 1) with extLen := e } = some v

/-- The addresses of the path, the first hop first. -/
def hopsOf (s : RplNs.State c) (node : Fin c.linkNum) (up : List (Fin c.linkNum)) : List IpAddr :=
  (node :: up).reverse.map (globalAddr s)

theorem hopsOf_length (s : RplNs.State c) (node : Fin c.linkNum) (up : List (Fin c.linkNum)) :
    (hopsOf s node up).length = up.length + 1 := by
  rw [hopsOf, length_map, length_reverse, length_cons]

variable {up : List (Fin c.linkNum)} {node : Fin c.linkNum}

theorem take_hopsOf (hnode : globalAddr s node = dest) (ha : addr ∈
    hopsOf s node up) : (ofFn addr).take (common s dest up) = (ofFn dest).take (common s dest up) := by
  obtain ⟨l, hl, rfl⟩ := mem_map.mp ha
  rcases mem_cons.mp (mem_reverse.mp hl) with rfl | hl
  · rw [hnode]
  · exact take_common hl

/-- RUN: forwarder by forwarder. -/
theorem Stage.iterate (h : Stage u₀ hops cmpri 0 u) (hc : cmpri ≤ 15) (hlt : headerLen (hops.length - 1) cmpri < 256)
    (hcommon : ∀ addr ∈ hops, (ofFn addr).take cmpri = (ofFn dest).take cmpri) :
    ∀ j < hops.length, Stage u₀ hops cmpri j ((SourceRoute.swapNext iphLen)^[j] u)
  | 0, _ => h
  | j + 1, hj => by
    have ih := Stage.iterate h hc hlt hcommon j (Nat.lt_of_succ_lt hj)
    have haddr := getElem?_eq_getElem hj
    rw [Function.iterate_succ_apply']
    refine ih.swapNext hc hlt haddr ?_
    rw [hcommon _ (mem_of_getElem? ih.dest), hcommon _ (mem_of_getElem? haddr)]

/-- What the root's own removal leaves in front of the payload. -/
theorem removeLoop_leaves : ∀ {n : Nat} {w u : Uip}, removeLoop n w = some u → w.extLen = 0 →
    u.buf proto ≠ protoHbho ∧ u.buf proto ≠ protoRouting ∧ (u.buf proto ≠ protoDesto → u.extLen = 0) ∧
      (u.buf proto = protoDesto → u.extLen = (u.buf (iphLen + 1) <<< 3) + 8)
  | 0, _, _, h, _ => by cases h
  | n + 1, w, u, h, hw => by
    rw [removeLoop] at h
    split at h
    · exact removeLoop_leaves h hw
    next hno =>
      obtain ⟨hhbho, hrouting⟩ := not_or.mp hno
      split at h
      next hdesto =>
        cases h
        refine ⟨hhbho, hrouting, fun hne => absurd hdesto hne, fun _ => ?_⟩
        have hext : w.ext = iphLen := by
          rw [Uip.ext, hw]
          rfl
        rw [hext, hw, UInt8.zero_add]
      next hdesto =>
        cases h
        exact ⟨hhbho, hrouting, fun _ => hw, fun hyes => absurd hyes hdesto⟩

theorem not_delivers_of_type {bufSize : Nat} {dag : Option c.Dag} {hops : List IpAddr} {u' : Uip}
    (hk : 2 ≤ hops.length) (hins : insertSrhHeader bufSize dag s u = some (true, u'))
    (hrouting : u'.buf proto = protoRouting) (htype : u'.buf (iphLen + 2) ≠ typeSrh) :
    ¬Delivers bufSize dag s hops u := by
  rintro ⟨us, rh, v, hins', -, hprocess, -⟩
  rw [hins', Option.some.injEq, Prod.mk.injEq] at hins
  obtain ⟨-, rfl⟩ := hins
  obtain ⟨n, hn⟩ := hprocess 0 (by omega)
  have hrh : iphLen + (0 : UInt8).toNat = iphLen := rfl
  have hfirst := hn (n + 1) (Nat.le_succ n) 0
  rw [processSrhHeader, findRouting_first hrouting] at hfirst
  dsimp only at hfirst
  rw [hrh, if_neg htype] at hfirst
  cases hfirst

theorem buf_routed (ho : 40 ≤ o ∧ o < u.ext) : (routed s cmpri node up u).buf o = u.buf o := by
  have hproto : proto = 6 := rfl
  have hdest : destOffset = 24 := rfl
  have hhi : lenHi = 4 := rfl
  rw [routed, addLen, buf_put (.inr (by rw [length_cons, length_singleton]; omega)),
    buf_put (.inr (by rw [length_ofFn]; omega)), buf_put (.inl (by omega)), headed,
    buf_put (.inr (by rw [length_singleton]; omega)), buf_put (.inl (by omega)), buf_put (.inl (by omega)),
    buf_put (.inl (by omega))]

theorem proto_routed :
    (routed s cmpri node up u).buf proto = protoRouting := by
  have hproto : proto = 6 := rfl
  have hdest : destOffset = 24 := rfl
  have hhi : lenHi = 4 := rfl
  rw [routed, addLen, buf_put (.inr (by rw [length_cons, length_singleton]; omega)),
    buf_put (.inl (by omega)), buf_put (.inl (by omega)), headed, buf_put_self]

/-- A header that a removal passes has a multiple of eight bytes. -/
theorem passed_length (b : UInt8) (hne : (b <<< 3) + 8 ≠ 0) : 8 ≤ ((b <<< 3) + 8).toNat := by
  have hall : ∀ t : Fin 256, (UInt8.ofNat t <<< 3) + 8 ≠ 0 → 8 ≤ ((UInt8.ofNat t <<< 3) + 8).toNat := by
    decide +kernel
  obtain ⟨t, rfl⟩ := Lib.exists_byte b
  exact hall t hne

/-- `u` is a packet that the root's own removal of headers leaves, with room for the header of its path. Without a
    destination options header in front, the header works if and only if its length fits in eight bits; with one,
    no node finds it behind that header. -/
theorem source_route {bufSize n : Nat} {dag : c.Dag} {s : RplNs.State c} {root node : Fin c.linkNum}
    {w u : Uip} (hremoved : removeHeader n w = some u)
    (hroot : RplNs.getNode s dag (c.dagId dag) = some root) (hnode : RplNs.getNode s dag u.dest = some node)
    (hway : Way s.parent root node up) (hup : up ≠ [])
    (hfits : u.len.toNat + headerLen up.length (common s u.dest up) ≤ bufSize) :
    (u.extLen = 0 → (Delivers bufSize (some dag) s (hopsOf s node up) u ↔
      headerLen up.length (common s u.dest up) < 256)) ∧
    (u.extLen ≠ 0 → headerLen up.length (common s u.dest up) < 256 → u.buf (iphLen + 2) ≠ typeSrh →
      ¬Delivers bufSize (some dag) s (hopsOf s node up) u) := by
  obtain ⟨hhbho, hrouting, hother, hdesto⟩ := removeLoop_leaves hremoved rfl
  have hhops := hopsOf_length s node up
  have hlen : (hopsOf s node up).length - 1 = up.length := by omega
  have hc := common_le (s := s) u.dest up
  refine ⟨fun hext => ⟨fun hdel => ?_, fun hlt => ?_⟩, fun hext hlt htype => ?_⟩
  · -- a longer header is not inserted
    by_contra hge
    obtain ⟨us, rh, v, hins, -⟩ := hdel
    rw [insertSrhHeader_wraps hroot hnode hway hup hfits (Nat.le_of_not_lt hge) hext] at hins
    cases hins
  · have hlt' : headerLen ((hopsOf s node up).length - 1) (common s u.dest up) < 256 := by
      rw [hlen]
      exact hlt
    have hfirst : Stage u (hopsOf s node up) (common s u.dest up) 0 _ := stage_routed hext
    have hstage := hfirst.iterate hc hlt' fun addr ha => take_hopsOf (globalAddr_of_getNode hnode) ha
    obtain ⟨v, hrestores, hremove⟩ := (hstage up.length (by omega)).remove hlt' hhbho hrouting
    refine ⟨fun j => (SourceRoute.swapNext iphLen)^[j] _, iphLen, v,
      insertSrhHeader_fits hroot hnode hway hup hfits hlt, ?_, ?_, hrestores, 2, ?_⟩
    · intro j addr ha
      obtain ⟨hj, -⟩ := List.getElem?_eq_some_iff.mp ha
      have hs := hstage j hj
      have hn := length_of_headerLen hc hlt
      refine ⟨?_, ?_⟩
      · exact Option.some.inj (hs.dest.symm.trans ha)
      · rw [hs.left, toNat_ofNat (by omega)]
    · intro j hj
      refine ⟨1, fun m hm e => ?_⟩
      obtain ⟨m, rfl⟩ := Nat.exists_eq_add_of_le' hm
      rw [(hstage j (Nat.lt_of_succ_lt hj)).process m e]
      dsimp only
      rw [Function.iterate_succ_apply']
    · intro m hm e
      obtain ⟨m, rfl⟩ := Nat.exists_eq_add_of_le' hm
      rw [hlen]
      exact hremove m e
  · have hpass : u.buf proto = protoDesto := by
      by_contra hno
      exact hext (hother hno)
    have hlong : 8 ≤ u.extLen.toNat := by
      rw [hdesto hpass] at hext ⊢
      exact passed_length _ hext
    have hproto : (routed s (common s u.dest up) node up u).buf proto = protoRouting := proto_routed
    refine not_delivers_of_type (by rw [hhops]; exact Nat.succ_le_succ (length_pos_of_ne_nil hup))
      (insertSrhHeader_fits hroot hnode hway hup hfits hlt) hproto ?_
    have hkeep : (routed s (common s u.dest up) node up u).buf (iphLen + 2) = u.buf (iphLen + 2) :=
      buf_routed ⟨by decide, by rw [Uip.ext]; exact lt_of_lt_of_le (by decide) (Nat.add_le_add_left hlong _)⟩
    exact fun hno => htype (hkeep.symm.trans hno)

/-! ### A line of nodes -/

def lineAddr (l : Nat) : IpAddr := fun j => if j.val = 8 then UInt8.ofNat l else 0
abbrev lineConfig (linkNum : Nat) : RplNs.Config := ⟨Unit, inferInstance, fun _ => lineAddr 0, linkNum⟩

/-- Each node but the first has the one before as its parent. -/
def line (linkNum : Nat) : RplNs.State (lineConfig linkNum) where
  nodememb := ⟨fun _ => 1, fun l => ⟨600, (), (lineAddr l.val).linkIdentifier,
    if h : l.val = 0 then none else some ⟨l.val - 1, by omega⟩⟩⟩
  nodelist := finRange linkNum
  numNodes := linkNum

/-- The nodes between node `l + 1` and the first. -/
def lineUp {linkNum : Nat} : (l : Nat) → l < linkNum → List (Fin linkNum)
  | 0, _ => []
  | l + 1, h => ⟨l + 1, h⟩ :: lineUp l (Nat.lt_of_succ_lt h)

/-- A packet of eight bytes behind the IPv6 header, for node `l`. -/
def linePacket (next : UInt8) (payload : List UInt8) (l : Nat) : Uip where
  buf := store (store (store (store (fun _ => 0) lenHi [0, 8]) proto [next]) destOffset (ofFn (lineAddr l)))
    iphLen payload
  len := 48
  extLen := 0

theorem way_line {linkNum : Nat} : ∀ {l : Nat} (h : l + 1 < linkNum),
    Way (line linkNum).parent ⟨0, Nat.zero_lt_of_lt h⟩ (⟨l + 1, h⟩ : Fin linkNum) (lineUp l (Nat.lt_of_succ_lt h))
  | 0, _ => ⟨fun hno => Nat.noConfusion (congrArg Fin.val hno), rfl⟩
  | _ + 1, h => ⟨fun hno => Nat.noConfusion (congrArg Fin.val hno), rfl, way_line (Nat.lt_of_succ_lt h)⟩

theorem source_route_line : Delivers 1280 (some ()) (line 4)
    (hopsOf (line 4) (3 : Fin 4) [2, 1]) (linePacket 17 [1, 2, 3, 4, 5, 6, 7, 8] 3) := by
  have hremoved : removeHeader 1 (linePacket 17 [1, 2, 3, 4, 5, 6, 7, 8] 3) =
      some (linePacket 17 [1, 2, 3, 4, 5, 6, 7, 8] 3) := rfl
  have hroot : RplNs.getNode (line 4) () (lineAddr 0) = some (0 : Fin 4) := by decide
  have hway : Way (line 4).parent (0 : Fin 4) (3 : Fin 4) [2, 1] := ⟨by decide, rfl, by decide, rfl, by decide, rfl⟩
  exact ((source_route hremoved hroot (by decide) hway (by decide) (by decide)).1 rfl).mpr (by decide)

/-- A destination options header with padding in front of the payload. -/
def destoPacket : Uip := { linePacket 60 [17, 0, 1, 4, 0, 0, 0, 0] 3 with extLen := 8 }

/-- A path of 33 hops makes a header of 256 bytes; and behind a destination options header the forwarders do not
    find the routing header. -/
theorem source_route_fails : (∃ (s : RplNs.State (lineConfig 34)) (node : Fin 34) (up : List (Fin 34)) (u : Uip),
      RplNs.getNode s () (lineAddr 0) = some (0 : Fin 34) ∧ RplNs.getNode s () u.dest = some node ∧
      Way s.parent (0 : Fin 34) node up ∧ up ≠ [] ∧ removeHeader 1 u = some u ∧
      u.len.toNat + headerLen up.length (common s u.dest up) ≤ 1280 ∧
      ¬Delivers 1280 (some ()) s (hopsOf s node up) u) ∧
    ∃ (s : RplNs.State (lineConfig 4)) (node : Fin 4) (up : List (Fin 4)) (u : Uip),
      RplNs.getNode s () (lineAddr 0) = some (0 : Fin 4) ∧ RplNs.getNode s () u.dest = some node ∧
      Way s.parent (0 : Fin 4) node up ∧ up ≠ [] ∧ removeHeader 1 { u with extLen := 0 } = some u ∧
      u.len.toNat + headerLen up.length (common s u.dest up) ≤ 1280 ∧
      ¬Delivers 1280 (some ()) s (hopsOf s node up) u := by
  refine ⟨⟨line 34, (33 : Fin 34), lineUp 32 (by decide), linePacket 17 [] 33, ?_⟩,
    ⟨line 4, (3 : Fin 4), [2, 1], destoPacket, ?_⟩⟩
  · refine ⟨by decide, by decide, way_line (by decide), by decide, rfl, by decide, ?_⟩
    rintro ⟨us, rh, v, hins, -⟩
    have hnone : (insertSrhHeader 1280 (some ()) (line 34) (linePacket 17 [] 33)).isNone = true := by decide
    rw [hins] at hnone
    cases hnone
  · refine ⟨by decide, by decide, ⟨by decide, rfl, by decide, rfl, by decide, rfl⟩, by decide, rfl, by decide, ?_⟩
    have hins : ((insertSrhHeader 1280 (some ()) (line 4) destoPacket).any fun r =>
        r.1 && decide (r.2.buf proto = protoRouting ∧ r.2.buf (iphLen + 2) ≠ typeSrh)) = true := by decide
    obtain ⟨r, hr, hbytes⟩ := (Option.any_eq_true ..).mp hins
    rw [Bool.and_eq_true] at hbytes
    obtain ⟨ok, u'⟩ := r
    obtain ⟨rfl, hbytes⟩ : ok = true ∧ _ := hbytes
    obtain ⟨hrouting, htype⟩ := of_decide_eq_true hbytes
    exact not_delivers_of_type (by decide) hr hrouting htype

end CSync.SourceRoute
