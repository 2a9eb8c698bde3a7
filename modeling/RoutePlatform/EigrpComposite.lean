import RoutePlatform.EigrpItems

/-!
# EIGRP: the composite metric

`EigrpDualComputeMetric` multiplies in 32 bits and counts the halves of the range that its
sum passes, so it is exact as long as no product wraps. The K values are below 256, but a process
keeps them in plain chars: from 128 on they are passed with their signs. `EigrpComputeMetric` adds
the delay of the interface unchecked.
-/

namespace RoutePlatform.EigrpComposite

open ReadTrace EigrpItems Nat

variable (D : Ddb) (i : Intf) (v : Vmetric) (dest : NetEntry) (bw load delay bw' delay' : U32)

/-- `K1*bw + (K2*bw)/(256-load) + K3*delay`. -/
def composite (delay : ℕ) : ℕ :=
  D.k1.toNat*bw.toNat+D.k2.toNat*bw.toNat/(256-load.toNat)+D.k3.toNat*delay

/-- A product of a K value, with its sign, as 32 bits hold it. -/
def product (k : Byte) (x : U32) : ℕ := (k.signExtend 32).toNat*x.toNat%2^32

/-- The same sum of the products as 32 bits hold them. -/
def wrapped : ℕ := product D.k1 bw+product D.k2 bw/(256-load.toNat)+product D.k3 delay

/-- A sum as a metric: at most `EIGRP_METRIC_INACCESS`, and 1 instead of 0. -/
def capped (n : ℕ) : ℕ := if n=0 then 1 else min n inaccess.toNat

/-- A term that counts is inaccessible. -/
def Inaccessible : Prop := D.k1≠0 ∧ bw=inaccess ∨ D.k3≠0 ∧ delay=inaccess

/-- The product fits and no sign counts: a K value that is passed 256 too small adds `2^32-256*x`
to it. -/
abbrev ProductFits (k : Byte) (x : U32) : Prop :=
  x=0 ∨ x=0x1000000 ∨ k.toNat<128 ∧ k.toNat*x.toNat<2^32

/-- What the sign of K3 adds is what 32 bits take from the quotient of K2. -/
def Balanced : Prop :=
  ProductFits D.k1 bw ∧ 128≤D.k3.toNat ∧ delay≠0 ∧ D.k3.toNat*delay.toNat<2^32 ∧
    product D.k2 bw/(256-load.toNat)+2^32 =
      D.k2.toNat*bw.toNat/(256-load.toNat)+256*delay.toNat

/-- The products fit, or what 32 bits keep of them passes the cap like the sum itself. -/
def Fits : Prop := Inaccessible D bw delay ∨
  (ProductFits D.k1 bw ∧ ProductFits D.k2 bw ∧ ProductFits D.k3 delay) ∨
  (inaccess.toNat≤wrapped D bw load delay ∧ inaccess.toNat≤composite D bw load delay.toNat) ∨
  Balanced D bw load delay

/-- `EigrpDualComputeMetric` returns the exact sum. -/
def Exact : Prop := (D.metric bw load delay).toNat=capped (composite D bw load delay.toNat)

variable {D i v dest bw load delay bw' delay'}

theorem toNat_inaccess : inaccess.toNat=4294967295 := rfl

theorem toNat_inaccessHalf : inaccessHalf.toNat=2147483648 := rfl

theorem splitHalf_value (x : U32) : (splitHalf x).1.toNat+(splitHalf x).2*2147483648=x.toNat ∧
      (splitHalf x).1.toNat<2147483648 := by
  have hx := x.isLt
  rw [splitHalf]
  by_cases h : inaccessHalf≤x
  · rw [if_pos h,BitVec.toNat_sub_of_le h]
    rw [BitVec.le_def,toNat_inaccessHalf] at h
    rw [toNat_inaccessHalf]
    omega
  · rw [if_neg h]
    rw [BitVec.le_def,toNat_inaccessHalf] at h
    dsimp only
    omega

theorem splitHalf_add {x y : U32} (hx : x.toNat<2147483648) (hy : y.toNat<2147483648) :
    (splitHalf (x+y)).1.toNat+(splitHalf (x+y)).2*2147483648=x.toNat+y.toNat ∧
      (splitHalf (x+y)).1.toNat<2147483648 := by
  have h := splitHalf_value (x+y)
  rwa [BitVec.toNat_add,mod_eq_of_lt (by omega)] at h

theorem splitHalf_add3 (x y z : U32) :
    let s2 := splitHalf ((splitHalf x).1+(splitHalf y).1)
    let s3 := splitHalf (s2.1+(splitHalf z).1)
    s3.1.toNat+((splitHalf x).2+(splitHalf y).2+s2.2+(splitHalf z).2+s3.2)*2147483648=
      x.toNat+y.toNat+z.toNat ∧ s3.1.toNat<2147483648 := by
  dsimp only
  have hx := splitHalf_value x
  have hy := splitHalf_value y
  have hz := splitHalf_value z
  generalize splitHalf x=p,splitHalf y=q,splitHalf z=r at *
  have hs2 := splitHalf_add hx.2 hy.2
  generalize splitHalf (p.1+q.1)=s2 at *
  have hs3 := splitHalf_add hs2.2 hz.2
  generalize splitHalf (s2.1+r.1)=s3 at *
  exact ⟨by linarith [hx.1,hy.1,hz.1,hs2.1,hs3.1],hs3.2⟩

/-- The last lines of `EigrpDualComputeMetric`. -/
theorem join_value (s : U32) (half n : ℕ) (hs : s.toNat<2147483648)
    (h : s.toNat+half*2147483648=n) :
    (if s=0 ∧ half=0 then 1 else if 2≤half then inaccess
      else if half≠0 then s+inaccessHalf else s).toNat=capped n := by
  have hzero : s=0 ↔ s.toNat=0 := by simp [←BitVec.toNat_inj]
  rw [capped,toNat_inaccess]
  by_cases hz : s=0 ∧ half=0
  · have := hzero.mp hz.1
    rw [if_pos hz,if_pos (by omega)]
    rfl
  have hpos : n≠0 := fun hn => hz ⟨hzero.mpr (by omega),by omega⟩
  rw [if_neg hz,if_neg hpos]
  by_cases h2 : 2≤half
  · rw [if_pos h2,toNat_inaccess]
    omega
  rw [if_neg h2]
  by_cases h1 : half≠0
  · rw [if_pos h1,BitVec.toNat_add,toNat_inaccessHalf]
    omega
  · rw [if_neg h1]
    omega

variable {k : Byte} {x : U32}

theorem signExtend_ne_zero : k.signExtend 32≠0 ↔ k≠0 := by
  revert k
  decide

theorem toNat_signExtend_of_lt (h : k.toNat<128) : (k.signExtend 32).toNat=k.toNat := by
  have hmsb : k.msb=false := by simpa [BitVec.msb_eq_decide] using h
  rw [BitVec.signExtend_eq_setWidth_of_msb_false hmsb,BitVec.toNat_setWidth]
  exact mod_eq_of_lt (by omega)

/-- A term whose K value is zero does not count. -/
theorem term_value (k : Byte) (x : U32) :
    (if k.signExtend 32≠0 then x*k.signExtend 32 else 0).toNat=product k x := by
  rw [product]
  split_ifs with hk
  · rw [BitVec.toNat_mul,mul_comm]
  · rw [not_not.mp hk]
    simp

theorem quotient_value (k : Byte) (x : U32) (hload : load.toNat<256) :
    (if k.signExtend 32≠0 then (x*k.signExtend 32)/(256-load) else 0).toNat =
      product k x/(256-load.toNat) := by
  have hsub : (256-load).toNat=256-load.toNat :=
    BitVec.toNat_sub_of_le (show load.toNat≤256 by omega)
  rw [product]
  split_ifs with hk
  · rw [BitVec.toNat_udiv,hsub,BitVec.toNat_mul,mul_comm]
  · rw [not_not.mp hk]
    simp

theorem product_eq (hk : k.toNat<128) (h : k.toNat*x.toNat<2^32) : product k x=k.toNat*x.toNat := by
  rw [product,toNat_signExtend_of_lt hk,mod_eq_of_lt h]

/-- A product with a sign. -/
theorem product_signed (hk : 128≤k.toNat) :
    product k x=(k.toNat*x.toNat+(2^32-2^8)*x.toNat)%2^32 := by
  have hmsb : k.msb=true := by simpa [BitVec.msb_eq_decide] using hk
  have hk' : k.toNat%2^32=k.toNat := mod_eq_of_lt (k.isLt.trans (by decide))
  rw [product,BitVec.toNat_signExtend,hmsb,BitVec.toNat_setWidth,hk',if_pos rfl,add_mul]

theorem product_add_of_lt (hk : 128≤k.toNat) (hx : x.toNat<2^25) (h0 : x≠0) :
    product k x+256*x.toNat=k.toNat*x.toNat+2^32 := by
  have hge := Nat.mul_le_mul_right x.toNat hk
  have hle := Nat.mul_le_mul_right x.toNat (le_of_lt_succ k.isLt)
  have hpos : x.toNat≠0 := fun h => h0 (BitVec.eq_of_toNat_eq h)
  have hmod : k.toNat*x.toNat+(2^32-2^8)*x.toNat=
      (k.toNat*x.toNat+2^32-256*x.toNat)+2^32*(x.toNat-1) := by omega
  rw [product_signed hk,hmod,add_mul_mod_self_left,mod_eq_of_lt (by omega)]
  omega

theorem product_of_fits (h : ProductFits k x) : product k x=k.toNat*x.toNat := by
  have hk := k.isLt
  rcases h with rfl|rfl|h
  · simp [product]
  · by_cases hk' : k.toNat<128
    · exact product_eq hk' (by simp; omega)
    · have hadd := product_add_of_lt (x := 0x1000000) (not_lt.mp hk') (by decide) (by decide)
      simp at hadd ⊢
      omega
  · exact product_eq h.1 h.2

/-- A product that does not fit has a sign, unless it passes 32 bits. -/
theorem product_cases (h : k.toNat*x.toNat<2^32) : ProductFits k x ∨
    128≤k.toNat ∧ x≠0 ∧ 128*x.toNat≤k.toNat*x.toNat ∧ x.toNat≠2^24 ∧
      product k x+256*x.toNat=k.toNat*x.toNat+2^32 := by
  refine or_iff_not_imp_left.mpr fun hfit => ?_
  have hk : 128≤k.toNat := not_lt.mp fun hk => hfit (.inr (.inr ⟨hk,h⟩))
  have h0 : x≠0 := fun h0 => hfit (.inl h0)
  have hle := Nat.mul_le_mul_right x.toNat hk
  exact ⟨hk,h0,hle,fun h1 => hfit (.inr (.inl (BitVec.eq_of_toNat_eq h1))),
    product_add_of_lt hk (by omega) h0⟩

/-- Quotients by at most 256 tell whether the product is the exact one. -/
theorem fits_of_quotient {n : ℕ} (hn : 0<n) (hle : n≤256)
    (h : product k x/n=k.toNat*x.toNat/n) : ProductFits k x := by
  have hmod : product k x%256=k.toNat*x.toNat%256 := by
    by_cases hk : k.toNat<128
    · rw [product,toNat_signExtend_of_lt hk]
      omega
    · rw [product_signed (not_lt.mp hk)]
      omega
  have heq : product k x=k.toNat*x.toNat := by
    have hp := div_add_mod (product k x) n
    have hk := div_add_mod (k.toNat*x.toNat) n
    have hplt := mod_lt (product k x) hn
    have hklt := mod_lt (k.toNat*x.toNat) hn
    rw [h] at hp
    generalize n*(k.toNat*x.toNat/n)=m at *
    omega
  have hlt : product k x<2^32 := mod_lt _ (by decide)
  rcases product_cases (heq ▸ hlt) with h|h
  · exact h
  · omega

/-- Below the cap only exact or balanced products give the exact sum. -/
theorem fits_of_wrapped_eq (hload : load.toNat<256) (hlt : composite D bw load delay.toNat<2^32)
    (h : wrapped D bw load delay=composite D bw load delay.toNat) :
    (ProductFits D.k1 bw ∧ ProductFits D.k2 bw ∧ ProductFits D.k3 delay) ∨
      Balanced D bw load delay := by
  rw [wrapped] at h
  rw [composite] at h hlt
  have hlt3 : D.k3.toNat*delay.toNat<2^32 := (le_add_left _ _).trans_lt hlt
  have hlt1 : D.k1.toNat*bw.toNat<2^32 :=
    ((le_add_right _ _).trans (le_add_right _ _)).trans_lt hlt
  rcases product_cases hlt3 with hfit3|⟨hk3,h03,hle3,-,h3⟩ <;>
    rcases product_cases hlt1 with hfit1|⟨-,h0,hle1,hne,h1⟩
  · rw [product_of_fits hfit1,product_of_fits hfit3] at h
    have hquotient : product D.k2 bw/(256-load.toNat)=
        D.k2.toNat*bw.toNat/(256-load.toNat) := by omega
    exact .inl ⟨hfit1,fits_of_quotient (by omega) (by omega) hquotient,hfit3⟩
  · -- the quotient of K2 moves the same way as the product of K1
    rw [product_of_fits hfit3] at h
    have hle2 := Nat.mul_le_mul_right bw.toNat (le_of_lt_succ D.k2.isLt)
    have hsame : (bw.toNat<2^24 → D.k2.toNat*bw.toNat≤product D.k2 bw) ∧
        (2^24<bw.toNat → product D.k2 bw≤D.k2.toNat*bw.toNat) := by
      by_cases hk2 : D.k2.toNat<128
      · have hle2 := Nat.mul_le_mul_right bw.toNat (le_of_lt_succ hk2)
        rw [product_eq hk2 (by omega)]
        exact ⟨fun _ => le_rfl,fun _ => le_rfl⟩
      · have hge2 := Nat.mul_le_mul_right bw.toNat (not_lt.mp hk2)
        have hadd := product_add_of_lt (not_lt.mp hk2) (by omega) h0
        omega
    rcases lt_or_gt_of_ne hne with hbw|hbw
    · have := Nat.div_le_div_right (c := 256-load.toNat) (hsame.1 hbw)
      omega
    · have := Nat.div_le_div_right (c := 256-load.toNat) (hsame.2 hbw)
      omega
  · rw [product_of_fits hfit1] at h
    exact .inr ⟨hfit1,hk3,h03,hlt3,by omega⟩
  · generalize product D.k2 bw/(256-load.toNat)=m,D.k2.toNat*bw.toNat/(256-load.toNat)=n at *
    omega

theorem dualComputeMetric_inaccessible (h : Inaccessible D bw delay) :
    D.metric bw load delay=inaccess := by
  rw [Ddb.metric,dualComputeMetric]
  rcases h with h|h
  · rw [if_pos ⟨signExtend_ne_zero.mpr h.1,h.2⟩]
  · rw [if_pos (c := _ ∧ delay=inaccess) ⟨signExtend_ne_zero.mpr h.1,h.2⟩,ite_self]

/-- The halves count the carries: without an inaccessible term the sum is exact in the wrapped
products. -/
theorem dualComputeMetric_value (hload : load.toNat<256) (h : ¬Inaccessible D bw delay) :
    (D.metric bw load delay).toNat=capped (wrapped D bw load delay) := by
  obtain ⟨hbw,hdelay⟩ := not_or.mp h
  rw [←signExtend_ne_zero] at hbw hdelay
  rw [Ddb.metric,dualComputeMetric,if_neg hbw,if_neg hdelay,wrapped,←term_value,
    ←quotient_value _ _ hload,←term_value]
  generalize (if D.k1.signExtend 32≠0 then bw*D.k1.signExtend 32 else 0)=x1
  generalize (if D.k2.signExtend 32≠0 then (bw*D.k2.signExtend 32)/(256-load) else 0)=x2
  generalize (if D.k3.signExtend 32≠0 then delay*D.k3.signExtend 32 else 0)=x3
  obtain ⟨hsum,hlt⟩ := splitHalf_add3 x1 x2 x3
  exact join_value _ _ _ hlt hsum

/-- Sums that are not above 1 are those of products that fit. -/
theorem fits_of_le (hload : load.toNat<256) (hw : wrapped D bw load delay≤1)
    (hc : composite D bw load delay.toNat≤1) :
    ProductFits D.k1 bw ∧ ProductFits D.k2 bw ∧ ProductFits D.k3 delay := by
  have hsmall : ∀ (k : Byte) (x : U32), product k x<512 → k.toNat*x.toNat<512 → ProductFits k x :=
    fun k x hp hn => (product_cases (hn.trans (by decide))).resolve_right fun h => by omega
  have hquotient : ∀ n : ℕ, n/(256-load.toNat)≤1 → n<512 := fun n hn => by
    have := (div_lt_iff_lt_mul (by omega : 0<256-load.toNat)).mp (lt_succ_of_le hn)
    omega
  rw [wrapped] at hw
  rw [composite] at hc
  refine ⟨hsmall _ _ ?_ ?_,hsmall _ _ (hquotient _ ?_) (hquotient _ ?_),hsmall _ _ ?_ ?_⟩
  all_goals
    generalize product D.k2 bw/(256-load.toNat)=m,D.k2.toNat*bw.toNat/(256-load.toNat)=n,
      D.k1.toNat*bw.toNat=a,D.k3.toNat*delay.toNat=b at *
    omega

/-- The metric is exact as long as the products fit. -/
theorem exact_iff (hload : load.toNat<256) : Exact D bw load delay ↔ Fits D bw load delay := by
  rw [Fits,toNat_inaccess]
  by_cases h : Inaccessible D bw delay
  · refine iff_of_true ?_ (.inl h)
    have hmul : ∀ k : Byte, k≠0 → 4294967295≤k.toNat*inaccess.toNat := fun k hk =>
      Nat.le_mul_of_pos_left _ (Nat.pos_of_ne_zero fun h0 => hk (BitVec.eq_of_toNat_eq h0))
    have hbig : 4294967295≤composite D bw load delay.toNat := by
      rcases h with ⟨hk,rfl⟩|⟨hk,rfl⟩
      · exact (hmul _ hk).trans ((le_add_right _ _).trans (le_add_right _ _))
      · exact (hmul _ hk).trans (le_add_left _ _)
    rw [Exact,dualComputeMetric_inaccessible h,capped,if_neg (by omega),toNat_inaccess]
    omega
  rw [or_iff_right h,Exact,dualComputeMetric_value hload h,capped,capped,toNat_inaccess]
  constructor
  · intro heq
    by_cases hone : wrapped D bw load delay≤1 ∧ composite D bw load delay.toNat≤1
    · exact .inl (fits_of_le hload hone.1 hone.2)
    by_cases hlt : composite D bw load delay.toNat<4294967295
    · have heq' : wrapped D bw load delay=composite D bw load delay.toNat := by
        split_ifs at heq <;> omega
      exact (fits_of_wrapped_eq hload (by omega) heq').imp_right .inr
    · exact .inr (.inl ⟨by split_ifs at heq <;> omega,by omega⟩)
  · intro hfits
    have hval : wrapped D bw load delay=composite D bw load delay.toNat ∨
        4294967295≤wrapped D bw load delay ∧ 4294967295≤composite D bw load delay.toNat := by
      rcases hfits with ⟨hfit1,hfit2,hfit3⟩|hcaps|⟨hfit1,hk3,h03,hlt3,hquotient⟩
      · rw [wrapped,composite,product_of_fits hfit1,product_of_fits hfit2,product_of_fits hfit3]
        exact .inl rfl
      · exact .inr hcaps
      · have hle3 := Nat.mul_le_mul_right delay.toNat hk3
        have hadd := product_add_of_lt hk3 (by omega) h03
        rw [wrapped,composite,product_of_fits hfit1]
        exact .inl (by omega)
    split_ifs <;> omega

section

variable (D i v dest)

/-- The delay with the offset of the neighbour. -/
def offsetDelay : U32 := addOffset D.offsetIn dest v.delay

/-- The bandwidth through an interface. -/
def intfBandwidth : U32 :=
  BitVec.ofNat 32 (max v.bandwidth.toNat (scaledBandwidth (1000*i.bandwidth).toNat*256))

/-- The delay that an interface is to add. -/
def exactDelay : ℕ :=
  if 0 < i.delay then i.delay.toNat*bDelay.toNat else (if i.broadcast then bDelay else sDelay).toNat

/-- `EigrpComputeMetric` does not find the route inaccessible. -/
def Accessible : Prop :=
  ¬(offsetDelay D v dest=inaccess ∨ D.maxHopCnt.signExtend 32≤v.hopcount)

/-- The arithmetic is right for a route, and for another bandwidth and delay. -/
structure MetricsRight (bw' delay' : U32) : Prop where
  exact : Exact D v.bandwidth v.load (offsetDelay D v dest) ∧ Exact D bw' v.load delay' ∧
    (Accessible D v dest → Exact D (intfBandwidth i v) v.load (offsetDelay D v dest+intfDelay i))
  mono : v.bandwidth≤bw' → offsetDelay D v dest≤delay' →
    D.metric v.bandwidth v.load (offsetDelay D v dest)≤D.metric bw' v.load delay'
  neighbor : (computeMetric D i v dest).2.1≤(computeMetric D i v dest).1
  delay : (computeMetric D i v dest).2.2.delay=inaccess ∨
    v.delay≤(computeMetric D i v dest).2.2.delay
  noWrap : Accessible D v dest →
    (computeMetric D i v dest).2.2.delay.toNat=(offsetDelay D v dest).toNat+exactDelay i

/-- The products fit, the delay with that of the interface does, and the bandwidth as 32 bits
hold it does not make the route better. -/
def MetricsFit (bw' delay' : U32) : Prop :=
  Fits D v.bandwidth v.load (offsetDelay D v dest) ∧ Fits D bw' v.load delay' ∧
    (Accessible D v dest →
      Fits D (intfBandwidth i v) v.load (offsetDelay D v dest+intfDelay i) ∧
      (offsetDelay D v dest).toNat+exactDelay i<2^32 ∧
      capped (composite D v.bandwidth v.load (offsetDelay D v dest).toNat)≤
        capped (composite D (intfBandwidth i v) v.load ((offsetDelay D v dest).toNat+exactDelay i)))

end

theorem capped_mono {m n : ℕ} (h : m≤n) : capped m≤capped n := by
  rw [capped,capped,toNat_inaccess]
  split_ifs <;> omega

theorem composite_mono {d d' : ℕ} (hbw : bw≤bw') (hd : d≤d') :
    composite D bw load d≤composite D bw' load d' :=
  Nat.add_le_add (Nat.add_le_add (Nat.mul_le_mul_left _ hbw)
    (Nat.div_le_div_right (Nat.mul_le_mul_left _ hbw))) (Nat.mul_le_mul_left _ hd)

theorem le_offsetDelay : v.delay≤offsetDelay D v dest := by
  have hlt := v.delay.isLt
  unfold offsetDelay addOffset
  cases D.offsetIn with
  | none => exact BitVec.le_refl _
  | some f =>
    dsimp only
    split_ifs with h
    · rw [BitVec.le_def,toNat_inaccess]
      omega
    · rw [gt_iff_lt,BitVec.lt_def,BitVec.toNat_sub_of_le
        (by rw [BitVec.le_def,toNat_inaccess]; omega),toNat_inaccess] at h
      rw [BitVec.le_def,BitVec.toNat_add,mod_eq_of_lt (by omega)]
      omega

/-- The delay of the interface, as far as it fits. -/
theorem intfDelay_add (h : delay.toNat+exactDelay i<2^32) :
    (delay+intfDelay i).toNat=delay.toNat+exactDelay i := by
  have hdelay : (intfDelay i).toNat=exactDelay i := by
    rw [exactDelay] at *
    rw [intfDelay]
    split_ifs at * with hpos
    · rw [BitVec.toNat_mul,mod_eq_of_lt (by omega)]
    · rfl
    · rfl
  rw [BitVec.toNat_add,hdelay,mod_eq_of_lt h]

theorem computeMetric_accessible (h : Accessible D v dest) :
    (computeMetric D i v dest).1 =
        D.metric (intfBandwidth i v) v.load (offsetDelay D v dest+intfDelay i) ∧
      (computeMetric D i v dest).2.1=D.metric v.bandwidth v.load (offsetDelay D v dest) ∧
      (computeMetric D i v dest).2.2.delay=offsetDelay D v dest+intfDelay i := by
  rw [Accessible,offsetDelay] at h
  rw [computeMetric,if_neg h]
  exact ⟨rfl,rfl,rfl⟩

theorem computeMetric_inaccessible (h : ¬Accessible D v dest) :
    (computeMetric D i v dest).1=inaccess ∧ (computeMetric D i v dest).2.1=inaccess ∧
      (computeMetric D i v dest).2.2.delay=inaccess := by
  rw [Accessible,offsetDelay] at h
  rw [computeMetric,if_pos (not_not.mp h)]
  exact ⟨rfl,rfl,rfl⟩

/-- The arithmetic is right exactly when everything fits. -/
theorem metricsRight_iff (hload : v.load.toNat<256) :
    MetricsRight D i v dest bw' delay' ↔ MetricsFit D i v dest bw' delay' := by
  constructor
  · intro h
    refine ⟨(exact_iff hload).mp h.exact.1,(exact_iff hload).mp h.exact.2.1,fun ha => ?_⟩
    obtain ⟨hmetric,hneighbor,hdelay⟩ := computeMetric_accessible ha (i := i)
    have hexact := h.exact.2.2 ha
    have hwrap := h.noWrap ha
    have hle := h.neighbor
    rw [hdelay] at hwrap
    rw [hmetric,hneighbor,BitVec.le_def,h.exact.1,hexact,hwrap] at hle
    refine ⟨(exact_iff hload).mp hexact,?_,hle⟩
    rw [←hwrap]
    exact BitVec.isLt _
  · rintro ⟨hv,hother,hfit⟩
    have hexact := (exact_iff hload).mpr hv
    have hexact' := (exact_iff hload).mpr hother
    have hintf := fun ha => (exact_iff hload).mpr (hfit ha).1
    refine ⟨⟨hexact,hexact',hintf⟩,fun hbw hd => ?_,?_,?_,fun ha => ?_⟩
    · rw [BitVec.le_def,hexact,hexact']
      exact capped_mono (composite_mono hbw hd)
    · by_cases ha : Accessible D v dest
      · obtain ⟨hmetric,hneighbor,-⟩ := computeMetric_accessible ha (i := i)
        rw [hmetric,hneighbor,BitVec.le_def,hexact,hintf ha,intfDelay_add (hfit ha).2.1]
        exact (hfit ha).2.2
      · obtain ⟨hmetric,hneighbor,-⟩ := computeMetric_inaccessible ha (i := i)
        rw [hmetric,hneighbor]
        exact BitVec.le_refl _
    · by_cases ha : Accessible D v dest
      · rw [(computeMetric_accessible ha).2.2,BitVec.le_def,intfDelay_add (hfit ha).2.1]
        exact .inr (le_offsetDelay.trans (le_add_right _ _))
      · exact .inl (computeMetric_inaccessible ha).2.2
    · rw [(computeMetric_accessible ha).2.2,intfDelay_add (hfit ha).2.1]

/-- The default K values. -/
def sampleDdb : Ddb := ⟨false,0,0,100,1,0,1,none,none,true,true,true,⟨0,0,0,0,0,0⟩,fun _ => true⟩

def sampleIntf : Intf := ⟨false,true,1,100000,1500,none⟩

def sampleMetric (delay : U32) : Vmetric := ⟨delay,25600,1500,1,255,1⟩

theorem metricsRight_iff_default :
    MetricsRight sampleDdb sampleIntf (sampleMetric 256) ⟨0,0⟩ 25600 512 :=
  (metricsRight_iff (by decide)).mpr
    ⟨.inr (.inl (by decide)),.inr (.inl (by decide)),fun _ =>
      ⟨.inr (.inl (by decide)),by decide,capped_mono (composite_mono (by decide) (by decide))⟩⟩

/-- A delay near the top wraps: the route looks better than to the neighbour. -/
theorem metricsRight_wraps :
    ¬MetricsRight sampleDdb sampleIntf (sampleMetric 4294960000) ⟨0,0⟩ 25600 4294960000 :=
  fun h => absurd h.neighbor (by decide)

end RoutePlatform.EigrpComposite
