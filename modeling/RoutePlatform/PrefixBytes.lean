import RoutePlatform.BitString

/-!
# Address prefixes as byte arrays

`struct prefix` holds a family, a length in bits and sixteen address bytes in network order. Each
comparison of `lib/prefix.c` and `lib/table.c` is shown to be a statement about the first
`prefixlen` bits, most significant first.
-/

namespace RoutePlatform.PrefixBytes

open BitString List BitVec

variable {i : ℕ} {k : ℕ}

/-- Address families `prefix_copy` accepts; it asserts on every other one. -/
inductive Family where
  | inet
  | inet6
  | unspec
  deriving DecidableEq, Repr

/-- Address bytes `prefix_copy` copies: `in_addr`, `in6_addr` or the two
words of `u.lp`. -/
def Family.bytelen : Family→ℕ
  | .inet => 4
  | .inet6 => 16
  | .unspec => 8

/-- Largest prefix length of a family, in bits. -/
def Family.maxPrefixlen (f : Family) : ℕ := 8*f.bytelen

/-- The address union, `u_char` by `u_char`. -/
abbrev Address := Fin 16→BitVec 8

/-- `struct prefix`. A length beyond the family maximum cannot be built. -/
structure Prefix where
  family : Family
  /-- Number of significant leading bits. -/
  prefixlen : ℕ
  /-- Address bytes; those behind the length are host bits. -/
  u : Address
  len_le : prefixlen≤family.maxPrefixlen

theorem Family.maxPrefixlen_le (f : Family) : f.maxPrefixlen≤128 := by cases f <;> decide

variable (p : Prefix)

theorem Prefix.len_le_128 : p.prefixlen≤128 := p.len_le.trans p.family.maxPrefixlen_le

def byteAt (u : Address) (i : ℕ) : BitVec 8 := if h : i<16 then u ⟨i,h⟩ else 0

def setByte (u : Address) (i : ℕ) (x : BitVec 8) : Address := fun k => if k.val=i then x else u k

/-- The all-zero address of a freshly allocated node. -/
def zeroAddress : Address := fun _ => 0

variable (u : Address)

theorem byteAt_setByte (k : ℕ) (x : BitVec 8) (hi : i<16) :
    byteAt (setByte u i x) k=if k=i then x else byteAt u k := by
  unfold byteAt setByte
  by_cases hk : k<16
  · simp [hk]
  · rw [dif_neg hk,dif_neg hk,if_neg (by omega)]

/-- Bit `i` of an address, most significant first. Specification only. -/
def bitAt (u : Address) (i : ℕ) : Bool := (byteAt u (i/8)).getMsbD (i%8)

/-- `prefix_bit`: shift the byte that holds the bit and keep its last bit. -/
def prefixBit (u : Address) (prefixlen : ℕ) : Bool :=
  (byteAt u (prefixlen/8) >>> (7-prefixlen%8)).getLsbD 0

theorem prefixBit_eq_bitAt (i : ℕ) : prefixBit u i=bitAt u i := by
  have hm : i%8<8 := Nat.mod_lt i (by decide)
  rw [prefixBit,bitAt,getLsbD_ushiftRight,BitVec.getMsbD,add_zero]
  simp only [hm,decide_true,Bool.true_and]

/-- The significant bits of a prefix, which tell networks apart. -/
def Prefix.key (p : Prefix) : List Bool := (List.range p.prefixlen).map (bitAt p.u)

@[simp] theorem Prefix.length_key : p.key.length=p.prefixlen := by simp [Prefix.key]

theorem Prefix.key_getElem? (h : i<p.prefixlen) : p.key[i]? = some (bitAt p.u i) := by
  simp [Prefix.key,h]

theorem Prefix.key_prefixBit (h : i<p.prefixlen) : p.key[i]? = some (prefixBit p.u i) := by
  rw [p.key_getElem? h,prefixBit_eq_bitAt]

/-- Two addresses agree on their first `n` bits. -/
def Agree (u v : Address) (n : ℕ) : Prop := ∀ i<n, bitAt u i=bitAt v i

theorem Prefix.key_prefix_iff (n p : Prefix) :
    n.key <+: p.key ↔ n.prefixlen≤p.prefixlen ∧ Agree n.u p.u n.prefixlen := by
  constructor
  · intro h
    have hl : n.prefixlen≤p.prefixlen := by simpa using h.length_le
    refine ⟨hl,fun i hi => ?_⟩
    have he := getElem?_of_isPrefix h (k := i) (by simpa using hi)
    rw [n.key_getElem? hi,p.key_getElem? (hi.trans_le hl)] at he
    exact (Option.some.inj he).symm
  · rintro ⟨hl,ha⟩
    rw [prefix_iff_eq_take]
    apply ext_getElem?
    intro i
    rw [getElem?_take]
    by_cases hi : i<n.prefixlen
    · rw [if_pos (by simpa using hi),n.key_getElem? hi,p.key_getElem? (hi.trans_le hl),ha i hi]
    rw [if_neg (by simpa using hi)]
    exact getElem?_eq_none (by simpa using hi)

/-- `maskbit`, the masks that keep 0 to 8 leading bits of a byte. -/
def maskbit (k : ℕ) : BitVec 8 :=
  ([0x00,0x80,0xc0,0xe0,0xf0,0xf8,0xfc,0xfe,0xff] : List (BitVec 8)).getD k 0

theorem maskbit_getMsbD (hk : k<9) (j : ℕ) : (maskbit k).getMsbD j=decide (j<k ∧ j<8) := by
  by_cases hj : j<8
  · have h : ∀ k : Fin 9, ∀ j : Fin 8,
        (maskbit k).getMsbD j=decide (j.val<k.val ∧ j.val<8) := by decide
    exact h ⟨k,hk⟩ ⟨j,hj⟩
  rw [getMsbD_of_ge _ _ (by omega)]
  simp [hj]

theorem eq_zero_iff_getMsbD (x : BitVec 8) : x=0 ↔ ∀ j<8, x.getMsbD j=false := by
  constructor
  · rintro rfl j -
    exact getMsbD_zero
  · intro h
    apply eq_of_getMsbD_eq
    intro j hj
    rw [h j hj]
    exact getMsbD_zero.symm

theorem maskbit_and_xor (hk : k<9) (x y : BitVec 8) :
    maskbit k &&& (x ^^^ y)=0 ↔ ∀ j<k, j<8 → x.getMsbD j=y.getMsbD j := by
  rw [eq_zero_iff_getMsbD]
  constructor
  · intro h j hj hj8
    have hb := h j hj8
    rw [getMsbD_and,maskbit_getMsbD hk,getMsbD_xor] at hb
    simpa [hj,hj8] using hb
  · intro h j hj8
    rw [getMsbD_and,maskbit_getMsbD hk,getMsbD_xor]
    by_cases hj : j<k
    · simp [h j hj hj8]
    · simp [hj]

/-- The loop `while (offset--)` comparing whole bytes downwards. -/
def sameBytes (np pp : Address) : ℕ→Bool
  | 0 => true
  | offset+1 => if byteAt np offset≠byteAt pp offset then false else sameBytes np pp offset

theorem sameBytes_iff (np pp : Address) (k : ℕ) :
    sameBytes np pp k=true ↔ ∀ i<k, byteAt np i=byteAt pp i := by
  induction k with
  | zero => simp [sameBytes]
  | succ k ih =>
    rw [sameBytes]
    by_cases h : byteAt np k=byteAt pp k
    · rw [if_neg (by simpa using h),ih]
      constructor
      · intro hk i hi
        rcases Nat.lt_succ_iff_lt_or_eq.mp hi with hlt|rfl
        · exact hk i hlt
        · exact h
      · exact fun hk i hi => hk i (by omega)
    rw [if_pos h]
    constructor
    · intro hf
      cases hf
    · exact fun hk => absurd (hk k (by omega)) h

/-- `prefix_match`: does `n` include `p`? -/
def prefixMatch (n p : Prefix) : Bool := if n.prefixlen > p.prefixlen then false
  else
    let offset := n.prefixlen/8
    let shift := n.prefixlen%8
    if shift≠0 ∧ maskbit shift &&& (byteAt n.u offset ^^^ byteAt p.u offset)≠0 then false
    else sameBytes n.u p.u offset

/-- Whole bytes and the leading bits of the next one cover exactly the
first `n` bits. -/
theorem agree_iff_bytes (v : Address) (n : ℕ) : Agree u v n ↔ (∀ i<n/8, byteAt u i=byteAt v i) ∧
      ∀ j<n%8, (byteAt u (n/8)).getMsbD j=(byteAt v (n/8)).getMsbD j := by
  constructor
  · intro h
    constructor
    · intro i hi
      apply eq_of_getMsbD_eq
      intro j hj
      have hb := h (8*i+j) (by omega)
      rw [bitAt,bitAt] at hb
      rwa [show (8*i+j)/8=i by omega,show (8*i+j)%8=j by omega] at hb
    · intro j hj
      have hb := h (8*(n/8)+j) (by omega)
      rw [bitAt,bitAt] at hb
      rwa [show (8*(n/8)+j)/8=n/8 by omega,
        show (8*(n/8)+j)%8=j by omega] at hb
  · rintro ⟨hb,hr⟩ i hi
    rw [bitAt,bitAt]
    by_cases hd : i/8<n/8
    · rw [hb _ hd]
    have he : i/8=n/8 := by omega
    rw [he]
    exact hr _ (by omega)

/-- `prefix_match` decides containment of the significant bits. -/
theorem prefixMatch_iff (n p : Prefix) : prefixMatch n p=true ↔ n.key <+: p.key := by
  rw [Prefix.key_prefix_iff,agree_iff_bytes,prefixMatch]
  by_cases hl : n.prefixlen > p.prefixlen
  · rw [if_pos hl]
    constructor
    · intro h
      cases h
    · rintro ⟨hle,-⟩
      omega
  rw [if_neg hl]
  have hs : n.prefixlen%8<9 := by omega
  have hm := maskbit_and_xor hs (byteAt n.u (n.prefixlen/8)) (byteAt p.u (n.prefixlen/8))
  by_cases hx : n.prefixlen%8≠0 ∧
      maskbit (n.prefixlen%8) &&& (byteAt n.u (n.prefixlen/8) ^^^ byteAt p.u (n.prefixlen/8))≠0
  · rw [if_pos hx]
    constructor
    · intro h
      cases h
    · rintro ⟨-,-,hr⟩
      exact absurd (hm.mpr fun j hj _ => hr j hj) hx.2
  rw [if_neg hx,sameBytes_iff]
  constructor
  · intro hb
    refine ⟨by omega,hb,fun j hj => ?_⟩
    have hz : maskbit (n.prefixlen%8) &&& (byteAt n.u (n.prefixlen/8) ^^^
        byteAt p.u (n.prefixlen/8))=0 := by
      by_contra hne
      exact hx ⟨by omega,hne⟩
    exact hm.mp hz j hj (by omega)
  · exact fun h => h.2.1

theorem key_eq_of_match {n p : Prefix} (h : n.key <+: p.key) (hl : n.prefixlen=p.prefixlen) :
    n.key=p.key := eq_of_prefix_length h (by simp [hl])

/-- `prefix_copy` into a zeroed node: only the bytes of the family move. -/
def prefixCopy (src : Prefix) : Prefix :=
  {src with u := fun k => if k.val<src.family.bytelen then src.u k else 0}

theorem prefixCopy_key (src : Prefix) : (prefixCopy src).key=src.key := by
  apply map_congr_left
  intro i hi
  have hlt : i<src.prefixlen := mem_range.mp hi
  have hb : i/8<src.family.bytelen := by
    have hmax := src.len_le
    rw [Family.maxPrefixlen] at hmax
    omega
  have h16 : i/8<16 := by
    have hle := src.len_le_128
    omega
  simp only [bitAt,byteAt,dif_pos h16,prefixCopy,if_pos hb]

/-- The byte loop of `route_common`: equal bytes are copied from `i` on. -/
def commonBytes (np pp : Address) : ℕ→ℕ→Address→ℕ × Address
  | 0, i, newp => (i,newp)
  | k+1, i, newp =>
    if byteAt np i=byteAt pp i then
      commonBytes np pp k (i+1) (setByte newp i (byteAt np i))
    else (i,newp)

/-- The bit loop of `route_common`: the mask moves while bits agree. -/
def commonBits (diff : BitVec 8) : ℕ→BitVec 8→ℕ→ℕ
  | 0, _, len => len
  | k+1, mask, len => if mask &&& diff=0 then commonBits diff k (mask >>> 1) (len+1) else len

/-- `route_common`: the longest common prefix that is not longer than `p`. -/
def routeCommon (n p : Prefix) : ℕ × Address :=
  let (i,newp) := commonBytes n.u p.u (p.prefixlen/8) 0 zeroAddress
  if i*8≠p.prefixlen then
    let diff := byteAt n.u i ^^^ byteAt p.u i
    let len := commonBits diff (p.prefixlen-i*8) 0x80 (i*8)
    (len,setByte newp i (byteAt n.u i &&& maskbit (len%8)))
  else (i*8,newp)

/-- The byte loop stops at the first difference or the end, and copies what is before. -/
theorem commonBytes_spec (np pp : Address) (k i : ℕ) (newp : Address) (hi : i+k≤16)
    (heq : ∀ j < i, byteAt np j=byteAt pp j) (hcopy : ∀ j < i, byteAt newp j=byteAt np j) :
    let r := commonBytes np pp k i newp
    i≤r.1 ∧ r.1 ≤ i+k ∧ (∀ j<r.1, byteAt np j=byteAt pp j) ∧ (∀ j<r.1, byteAt r.2 j=byteAt np j) ∧
      (r.1 < i+k → byteAt np r.1≠byteAt pp r.1) := by
  induction k generalizing i newp with
  | zero =>
    refine ⟨le_rfl,le_rfl,heq,hcopy,?_⟩
    intro h
    exact absurd h (lt_irrefl i)
  | succ k ih =>
    rw [commonBytes]
    by_cases h : byteAt np i=byteAt pp i
    · rw [if_pos h]
      have heq' : ∀ j < i+1, byteAt np j=byteAt pp j := by
        intro j hj
        rcases Nat.lt_succ_iff_lt_or_eq.mp hj with hlt|rfl
        · exact heq j hlt
        · exact h
      have hcopy' : ∀ j < i+1, byteAt (setByte newp i (byteAt np i)) j=byteAt np j := by
        intro j hj
        rw [byteAt_setByte _ _ _ (by omega)]
        by_cases hji : j=i
        · rw [if_pos hji,hji]
        rw [if_neg hji]
        exact hcopy j (by omega)
      obtain ⟨h1,h2,h3,h4,h5⟩ := ih (i+1) _ (by omega) heq' hcopy'
      exact ⟨by omega,by omega,h3,h4,fun hlt => h5 (by omega)⟩
    · rw [if_neg h]
      exact ⟨le_rfl,by omega,heq,hcopy,fun _ => h⟩

/-- The moving mask selects one bit of the difference. -/
theorem mask_and_eq_zero (diff : BitVec 8) (t : ℕ) :
    ((0x80 : BitVec 8) >>> t) &&& diff=0 ↔ diff.getMsbD t=false := by
  have hbit : ∀ j<8, ((0x80 : BitVec 8) >>> t).getMsbD j=decide (j=t) := by
    intro j hj
    rw [getMsbD_ushiftRight]
    by_cases hjt : j<t
    · simp [hj,hjt,hjt.ne]
    have h80 : ∀ s : Fin 8, (0x80 : BitVec 8).getMsbD s=decide (s.val=0) := by decide
    have hs := h80 ⟨j-t,by omega⟩
    simp only [hj,hjt,decide_true,decide_false,Bool.not_false,Bool.true_and]
    rw [hs,decide_eq_decide]
    dsimp only
    omega
  rw [eq_zero_iff_getMsbD]
  constructor
  · intro h
    by_cases ht : t<8
    · have hb := h t ht
      rw [getMsbD_and,hbit t ht] at hb
      simpa using hb
    · exact getMsbD_of_ge _ _ (by omega)
  · intro h j hj
    rw [getMsbD_and,hbit j hj]
    by_cases hjt : j=t
    · simp [hjt,h]
    · simp [hjt]

/-- The bit loop stops at a different bit or the end of the length. -/
theorem commonBits_spec (diff : BitVec 8) (k t len : ℕ) :
    ∃ m≤k, commonBits diff k ((0x80 : BitVec 8) >>> t) len=len+m ∧
      (∀ s < m, diff.getMsbD (t+s)=false) ∧ (m<k → diff.getMsbD (t+m)=true) := by
  induction k generalizing t len with
  | zero => exact ⟨0,le_rfl,rfl,by simp,by simp⟩
  | succ k ih =>
    rw [commonBits]
    by_cases h : ((0x80 : BitVec 8) >>> t) &&& diff=0
    · rw [if_pos h,←shiftRight_add]
      obtain ⟨m,hm,he,hz,hd⟩ := ih (t+1) (len+1)
      refine ⟨m+1,by omega,by rw [he]; omega,?_,?_⟩
      · intro s hs
        cases s with
        | zero => exact (mask_and_eq_zero diff t).mp h
        | succ s =>
          rw [show t+(s+1)=t+1+s by omega]
          exact hz s (by omega)
      intro hlt
      rw [show t+(m+1)=t+1+m by omega]
      exact hd (by omega)
    · rw [if_neg h]
      refine ⟨0,by omega,rfl,by simp,fun _ => ?_⟩
      rw [mask_and_eq_zero] at h
      simpa using h

/-- `route_common` keeps the bits before the first difference or the end of `p`. -/
theorem routeCommon_spec (n p : Prefix) :
    (routeCommon n p).1≤p.prefixlen ∧ Agree n.u p.u (routeCommon n p).1 ∧
      Agree (routeCommon n p).2 n.u (routeCommon n p).1 ∧
      ((routeCommon n p).1<p.prefixlen →
        bitAt n.u (routeCommon n p).1≠bitAt p.u (routeCommon n p).1) := by
  have h128 := p.len_le_128
  obtain ⟨-,hle,heq,hcopy,hstop⟩ := commonBytes_spec n.u p.u (p.prefixlen/8) 0 zeroAddress
    (by omega) (by simp) (by simp)
  rw [routeCommon]
  generalize commonBytes n.u p.u (p.prefixlen/8) 0 zeroAddress=r at *
  obtain ⟨i,newp⟩ := r
  dsimp only at *
  rw [zero_add] at hle hstop
  by_cases hi : i*8=p.prefixlen
  · rw [if_neg (by simpa using hi)]
    have hd : i*8/8=i := by omega
    have hr : i*8%8=0 := by omega
    refine ⟨hi.le,?_,?_,fun hlt => absurd hlt (by dsimp only; omega)⟩
    · rw [agree_iff_bytes,hd,hr]
      exact ⟨heq,by simp⟩
    rw [agree_iff_bytes,hd,hr]
    exact ⟨hcopy,by simp⟩
  rw [if_pos hi]
  obtain ⟨m,hm,he,hz,hd⟩ :=
    commonBits_spec (byteAt n.u i ^^^ byteAt p.u i) (p.prefixlen-i*8) 0 (i*8)
  rw [show (0x80 : BitVec 8) >>> 0=0x80 from rfl] at he
  -- Fewer than eight bits are passed: either the bytes differ, or `p` ends in this byte.
  have hm8 : m<8 := by
    by_contra hge
    rcases lt_or_ge i (p.prefixlen/8) with hlt|hge'
    · refine hstop hlt (eq_of_getMsbD_eq fun j hj => ?_)
      simpa using hz j (by omega)
    · omega
  have hdiv : (i*8+m)/8=i := by omega
  have hmod : (i*8+m)%8=m := by omega
  have hi16 : i<16 := by omega
  simp only [he,hmod]
  refine ⟨by omega,?_,?_,?_⟩
  · rw [agree_iff_bytes,hdiv,hmod]
    exact ⟨heq,fun j hj => by simpa using hz j hj⟩
  · rw [agree_iff_bytes,hdiv,hmod]
    constructor
    · intro j hj
      rw [byteAt_setByte _ _ _ hi16,if_neg (by omega)]
      exact hcopy j hj
    · intro j hj
      rw [byteAt_setByte _ _ _ hi16,if_pos rfl,getMsbD_and,maskbit_getMsbD (by omega)]
      simp [hj,hj.trans hm8]
  intro hlt
  rw [bitAt,bitAt,hdiv,hmod]
  have hx := hd (by omega)
  simpa using hx

/-- The common prefix of a node and a route, with the route's family. -/
def commonPrefix (n p : Prefix) : Prefix where
  family := p.family
  prefixlen := (routeCommon n p).1
  u := (routeCommon n p).2
  len_le := (routeCommon_spec n p).1.trans p.len_le

theorem commonPrefix_prefix_right (n p : Prefix) : (commonPrefix n p).key <+: p.key := by
  obtain ⟨hle,ha,hc,-⟩ := routeCommon_spec n p
  rw [Prefix.key_prefix_iff]
  exact ⟨hle,fun i hi => (hc i hi).trans (ha i hi)⟩

theorem commonPrefix_prefix_left {n p : Prefix} (h : (commonPrefix n p).prefixlen≤n.prefixlen) :
    (commonPrefix n p).key <+: n.key := by
  rw [Prefix.key_prefix_iff]
  exact ⟨h,(routeCommon_spec n p).2.2.1⟩

theorem commonPrefix_lt_of_not_isPrefix {n p : Prefix} (h : ¬n.key <+: p.key) :
    (commonPrefix n p).prefixlen<n.prefixlen := by
  by_contra hge
  rw [not_lt] at hge
  obtain ⟨hle,ha,-,-⟩ := routeCommon_spec n p
  exact h ((Prefix.key_prefix_iff n p).mpr ⟨hge.trans hle,fun i hi => ha i (hi.trans_le hge)⟩)

theorem isPrefix_commonPrefix {n p : Prefix} {c : List Bool} (hn : c <+: n.key)
    (hp : c <+: p.key) : c <+: (commonPrefix n p).key := by
  have hcn : c.length≤n.prefixlen := by simpa using hn.length_le
  have hcp : c.length≤p.prefixlen := by simpa using hp.length_le
  have hle : c.length≤(commonPrefix n p).prefixlen := by
    by_contra hlt
    rw [not_le] at hlt
    have hne := (routeCommon_spec n p).2.2.2 (hlt.trans_le hcp)
    have h1 := getElem?_of_isPrefix hn hlt
    have h2 := getElem?_of_isPrefix hp hlt
    rw [n.key_getElem? (hlt.trans_le hcn),←h2,p.key_getElem? (hlt.trans_le hcp)] at h1
    exact hne (Option.some.inj h1)
  exact prefix_of_prefix_length_le hp (commonPrefix_prefix_right n p) (by simpa using hle)

theorem commonPrefix_bit_ne {n p : Prefix} (h : (commonPrefix n p).prefixlen<p.prefixlen) :
    prefixBit n.u (commonPrefix n p).prefixlen≠prefixBit p.u (commonPrefix n p).prefixlen := by
  rw [prefixBit_eq_bitAt,prefixBit_eq_bitAt]
  exact (routeCommon_spec n p).2.2.2 h

/-- `route_table_prefix_iter_cmp`; a failed assertion answers nothing. -/
def routeTablePrefixIterCmp (p1 p2 : Prefix) : Option ℤ :=
  if p1.prefixlen≤p2.prefixlen ∧ prefixMatch p1 p2 then
    some (if p1.prefixlen=p2.prefixlen then 0 else -1)
  else if ¬p1.prefixlen≤p2.prefixlen ∧ prefixMatch p2 p1 then some 1
  else
    let common := (routeCommon p1 p2).1
    if common<p1.prefixlen ∧ common<p2.prefixlen then
      if prefixBit p1.u common then if prefixBit p2.u common then none else some 1
      else if prefixBit p2.u common then some (-1) else none
    else none

/-- The iteration order is lexicographic, and no assertion of it fails. -/
theorem routeTablePrefixIterCmp_spec (p1 p2 : Prefix) :
    (p1.key<p2.key ∧ routeTablePrefixIterCmp p1 p2=some (-1)) ∨
    (p1.key=p2.key ∧ routeTablePrefixIterCmp p1 p2=some 0) ∨
    (p2.key<p1.key ∧ routeTablePrefixIterCmp p1 p2=some 1) := by
  unfold routeTablePrefixIterCmp
  by_cases h1 : p1.key <+: p2.key
  · have hle : p1.prefixlen≤p2.prefixlen := by simpa using h1.length_le
    rw [if_pos ⟨hle,(prefixMatch_iff _ _).mpr h1⟩]
    by_cases he : p1.prefixlen=p2.prefixlen
    · exact .inr (.inl ⟨key_eq_of_match h1 he,by rw [if_pos he]⟩)
    · exact .inl ⟨lt_of_isPrefix h1 (by simp; omega),by rw [if_neg he]⟩
  rw [if_neg (by rw [prefixMatch_iff]; exact fun h => h1 h.2)]
  by_cases h2 : p2.key <+: p1.key
  · have hle : p2.prefixlen≤p1.prefixlen := by simpa using h2.length_le
    have hlt : p2.prefixlen<p1.prefixlen := by
      by_contra hge
      exact h1 (by rw [key_eq_of_match h2 (by omega)])
    rw [if_pos ⟨by omega,(prefixMatch_iff _ _).mpr h2⟩]
    exact .inr (.inr ⟨lt_of_isPrefix h2 (by simpa using hlt),rfl⟩)
  rw [if_neg (by rw [prefixMatch_iff]; exact fun h => h2 h.2)]
  have hc1 := commonPrefix_lt_of_not_isPrefix h1
  have hl := commonPrefix_prefix_left hc1.le
  have hr := commonPrefix_prefix_right p1 p2
  have hc2 : (commonPrefix p1 p2).prefixlen<p2.prefixlen := by
    by_contra hge
    have hlen : (commonPrefix p1 p2).prefixlen≤p2.prefixlen := by simpa using hr.length_le
    exact h2 (key_eq_of_match hr (by omega) ▸ hl)
  have hne := commonPrefix_bit_ne hc2
  have hk1 := p1.key_prefixBit hc1
  have hk2 := p2.key_prefixBit hc2
  rw [show (routeCommon p1 p2).1=(commonPrefix p1 p2).prefixlen from rfl,if_pos ⟨hc1,hc2⟩]
  cases hb1 : prefixBit p1.u (commonPrefix p1 p2).prefixlen with
  | false =>
    have hb2 : prefixBit p2.u (commonPrefix p1 p2).prefixlen=true := by
      rw [hb1] at hne
      simpa using hne.symm
    rw [hb2]
    refine .inl ⟨lt_of_getElem? hl hr (a := false) (b := true) ?_ ?_ (by decide),rfl⟩
    · rw [Prefix.length_key,hk1,hb1]
    · rw [Prefix.length_key,hk2,hb2]
  | true =>
    have hb2 : prefixBit p2.u (commonPrefix p1 p2).prefixlen=false := by
      rw [hb1] at hne
      simpa using hne.symm
    rw [hb2]
    refine .inr (.inr ⟨lt_of_getElem? hr hl (a := false) (b := true) ?_ ?_ (by decide),rfl⟩)
    · rw [Prefix.length_key,hk2,hb2]
    · rw [Prefix.length_key,hk1,hb1]

end RoutePlatform.PrefixBytes
