import RoutePlatform.HashOperations

/-!
# The invariant of hash tables

Every item sits in the chain of its key, no two items are alike, and the counter is the number of
items. Since like items have equal keys, items of different chains are never alike. Expansion
deals the items out to the new chains.
-/

namespace RoutePlatform.HashInvariant

open HashOperations Function List

universe u

variable {α : Type u} {size : BitVec 32} {hash : Hash α} {index : ℕ→List (Backet α)}
  {newSize : BitVec 32}

/-- Number of items on the first chains. -/
def total (index : ℕ → List (Backet α)) (n : ℕ) : ℕ := ∑ i∈Finset.range n, (index i).length

theorem total_update (index : ℕ → List (Backet α)) {n i : ℕ} (hi : i<n) (chain : List (Backet α)) :
    total (update index i chain) n+(index i).length = total index n+chain.length := by
  have hmem := Finset.mem_range.mpr hi
  have hold := Finset.add_sum_erase (Finset.range n) (fun j => (index j).length) hmem
  have hnew := Finset.add_sum_erase (Finset.range n) (fun j => (update index i chain j).length) hmem
  have hrs : ∑ j∈(Finset.range n).erase i, (update index i chain j).length =
      ∑ j∈(Finset.range n).erase i, (index j).length := by
    refine Finset.sum_congr rfl fun j hj => ?_
    rw [update_of_ne (Finset.ne_of_mem_erase hj)]
  rw [update_self,hrs] at hnew
  rw [total,total]
  omega

theorem slot_lt (hsize : size≠0) (key : BitVec 32) : slot size key<size.toNat := by
  have hpos : 0<size.toNat := by
    rcases eq_zero_or_pos size.toNat with h|h
    · exact absurd (BitVec.eq_of_toNat_eq h) hsize
    · exact h
  have hpred : (size-1).toNat<size.toNat := by
    have hone : (1 : BitVec 32).toNat=1 := rfl
    rw [BitVec.toNat_sub,hone]
    omega
  rw [slot,BitVec.toNat_and]
  exact Nat.and_le_right.trans_lt hpred

section

variable (hashKey : α→BitVec 32) (hashCmp : α→α→Bool)

/-- The chains hold items in their place, and no two alike. -/
structure Chains (size : BitVec 32) (index : ℕ→List (Backet α)) : Prop where
  /-- An item has its key and is in the chain of it. -/
  place : ∀ i, ∀ b∈index i, b.key=hashKey b.data ∧ slot size b.key=i
  distinct : ∀ i, (index i).Pairwise fun a b => hashCmp a.data b.data=false

structure HashInv (hash : Hash α) : Prop extends Chains hashKey hashCmp hash.size hash.index where
  size : ∃ k, hash.size.toNat=2^k
  count : hash.count=total hash.index hash.size.toNat

/-- The item is in the table. -/
def Stored (hash : Hash α) (x : α) : Prop := ∃ i, ∃ b∈hash.index i, b.data=x

structure Relinked (newSize : BitVec 32) (chain : List (Backet α))
    (newIndex newIndex' : ℕ→List (Backet α)) : Prop where
  mem : ∀ i b, b∈newIndex' i ↔ b∈newIndex i ∨ b∈chain ∧ slot newSize b.key=i
  total : total newIndex' newSize.toNat=total newIndex newSize.toNat+chain.length
  distinct : ∀ i, (newIndex' i).Pairwise fun a b => hashCmp a.data b.data=false

variable {hashKey hashCmp}

theorem HashInv.size_ne (h : HashInv hashKey hashCmp hash) : hash.size≠0 := by
  obtain ⟨k,hk⟩ := h.size
  intro hz
  rw [hz] at hk
  exact absurd hk.symm (Nat.two_pow_pos k).ne'

theorem Chains.eq_of_like (h : Chains hashKey hashCmp size index)
    (hf : HashFunctions hashKey hashCmp) {i j : ℕ} {a b : Backet α} (ha : a∈index i)
    (hb : b∈index j) (hlike : hashCmp a.data b.data=true) : i=j ∧ a=b := by
  obtain ⟨hka,hia⟩ := h.place i a ha
  obtain ⟨hkb,hjb⟩ := h.place j b hb
  have hij : i=j := by rw [←hia,←hjb,hka,hkb,hf.key _ _ hlike]
  subst hij
  refine ⟨rfl,?_⟩
  by_contra hne
  have hsymm : Std.Symm fun x y : Backet α => hashCmp x.data y.data=false := by
    refine ⟨fun x y hxy => ?_⟩
    by_contra hyx
    rw [hf.equivalent.symm (Bool.eq_true_of_not_eq_false hyx)] at hxy
    cases hxy
  have hfalse := (h.distinct i).forall ha hb hne
  rw [hlike] at hfalse
  cases hfalse

theorem matching_iff (hf : HashFunctions hashKey hashCmp) {data : α} {b : Backet α}
    (hb : b.key=hashKey b.data) :
    matching hashKey hashCmp data b=true ↔ hashCmp b.data data=true := by
  rw [matching,Bool.and_eq_true_iff,beq_iff_eq]
  constructor
  · exact fun h => h.2
  · exact fun h => ⟨hb.trans (hf.key _ _ h),h⟩

section

variable {hash : Hash α} (h : HashInv hashKey hashCmp hash) (hf : HashFunctions hashKey hashCmp)
include h hf

/-- A loop over the chain finds the item of the class. -/
theorem findBacket_eq_some_iff (data x : α) :
    (findBacket hashKey hashCmp hash data).map Backet.data=some x ↔
      Stored hash x ∧ hashCmp x data=true := by
  rw [Option.map_eq_some_iff]
  constructor
  · rintro ⟨b,hfind,rfl⟩
    have hmem := mem_of_find?_eq_some hfind
    have hmatch := List.find?_some hfind
    rw [matching_iff hf (h.place _ b hmem).1] at hmatch
    exact ⟨⟨_,b,hmem,rfl⟩,hmatch⟩
  · rintro ⟨⟨i,b,hb,rfl⟩,hlike⟩
    obtain ⟨hbk,hslot⟩ := h.place i b hb
    have hi : i=slot hash.size (hashKey data) := by rw [←hslot,hbk,hf.key _ _ hlike]
    have hmatch := (matching_iff hf hbk).mpr hlike
    rw [hi] at hb
    cases hfind : findBacket hashKey hashCmp hash data with
    | none =>
      have hnone := List.find?_eq_none.mp hfind b hb
      exact absurd hmatch hnone
    | some b' =>
      have hmem' := mem_of_find?_eq_some hfind
      have hmatch' := List.find?_some hfind
      rw [matching_iff hf (h.place _ b' hmem').1] at hmatch'
      have heq := (h.eq_of_like hf hmem' hb (hf.equivalent.trans hmatch' (hf.equivalent.symm hlike))).2
      exact ⟨b',rfl,by rw [heq]⟩

theorem findBacket_eq_none_iff (data : α) : findBacket hashKey hashCmp hash data=none ↔
      ∀ x, Stored hash x → hashCmp x data=false := by
  have hspec := findBacket_eq_some_iff h hf data
  cases hfind : findBacket hashKey hashCmp hash data with
  | none =>
    refine iff_of_true rfl fun x hx => ?_
    by_contra hlike
    have hsome := (hspec x).mpr ⟨hx,Bool.eq_true_of_not_eq_false hlike⟩
    rw [hfind] at hsome
    cases hsome
  | some b =>
    refine iff_of_false (by simp) fun hall => ?_
    obtain ⟨hb,hlike⟩ := (hspec b.data).mp (by rw [hfind,Option.map_some])
    rw [hall b.data hb] at hlike
    cases hlike

end

theorem relink_spec (hsize : newSize≠0) (chain : List (Backet α)) :
    ∀ newIndex : ℕ → List (Backet α),
      (∀ i, (newIndex i).Pairwise fun a b => hashCmp a.data b.data=false) →
      (chain.Pairwise fun a b => hashCmp b.data a.data=false) →
      (∀ hb∈chain, ∀ i, ∀ b∈newIndex i, hashCmp hb.data b.data=false) →
      ∃ newIndex', relink newSize chain newIndex=some newIndex' ∧
        Relinked hashCmp newSize chain newIndex newIndex' := by
  induction chain with
  | nil =>
    intro newIndex hdistinct _ _
    exact ⟨newIndex,rfl,fun i b => by simp,rfl,hdistinct⟩
  | cons hb rest ih =>
    intro newIndex hdistinct hchain hnew
    obtain ⟨hhead,hrs⟩ := pairwise_cons.mp hchain
    have hlt := slot_lt hsize hb.key
    generalize hh : slot newSize hb.key=h at hlt
    have hmem : ∀ i b, b∈update newIndex h (hb::newIndex h) i ↔ b∈newIndex i ∨ b=hb ∧ h=i := by
      intro i b
      by_cases hi : i=h
      · rw [hi,update_self,mem_cons,or_comm,and_iff_left rfl]
      rw [update_of_ne hi]
      exact (or_iff_left fun he => hi he.2.symm).symm
    obtain ⟨newIndex',hrelink,hspec⟩ := ih (update newIndex h (hb::newIndex h)) (by
        intro i
        by_cases hi : i=h
        · rw [hi,update_self]
          exact pairwise_cons.mpr ⟨hnew hb mem_cons_self h,hdistinct h⟩
        · rw [update_of_ne hi]
          exact hdistinct i)
      hrs
      (by
        intro x hx i b hbi
        rcases (hmem i b).mp hbi with hbi|⟨rfl,-⟩
        · exact hnew x (mem_cons_of_mem _ hx) i b hbi
        · exact hhead x hx)
    refine ⟨newIndex',?_,fun i b => ?_,?_,hspec.distinct⟩
    · rw [relink,hh,if_pos hlt,hrelink]
    · rw [hspec.mem,hmem,mem_cons,or_assoc]
      refine or_congr_right ?_
      constructor
      · rintro (⟨rfl,hi⟩|⟨hb',hi⟩)
        · exact ⟨.inl rfl,hh.trans hi⟩
        · exact ⟨.inr hb',hi⟩
      · rintro ⟨rfl|hb',hi⟩
        · exact .inl ⟨rfl,hh.symm.trans hi⟩
        · exact .inr ⟨hb',hi⟩
    have hupdate := total_update newIndex hlt (hb::newIndex h)
    rw [hspec.total,length_cons]
    rw [length_cons] at hupdate
    omega

theorem relinkChains_spec (hsize : newSize≠0) (h : Chains hashKey hashCmp size index)
    (hf : HashFunctions hashKey hashCmp) (n : ℕ) :
    ∃ newIndex, relinkChains newSize index n=some newIndex ∧
      (∀ j b, b∈newIndex j ↔ (∃ i<n, b∈index i) ∧ slot newSize b.key=j) ∧
      total newIndex newSize.toNat=total index n ∧
      ∀ j, (newIndex j).Pairwise fun a b => hashCmp a.data b.data=false := by
  induction n with
  | zero =>
    refine ⟨fun _ => [],rfl,fun j b => by simp,?_,fun j => List.Pairwise.nil⟩
    simp [total]
  | succ n ih =>
    obtain ⟨newIndex,hchains,hmem,htotal,hdistinct⟩ := ih
    have hsymm : ∀ x y, hashCmp x y=false → hashCmp y x=false := by
      intro x y hxy
      by_contra hyx
      rw [hf.equivalent.symm (Bool.eq_true_of_not_eq_false hyx)] at hxy
      cases hxy
    obtain ⟨newIndex',hrelink,hspec⟩ := relink_spec hsize (index n) newIndex hdistinct
      ((h.distinct n).imp fun hab => hsymm _ _ hab)
      (by
        -- items of different chains are not alike
        intro x hx j b hb
        obtain ⟨⟨i,hi,hbi⟩,-⟩ := (hmem j b).mp hb
        by_contra hlike
        exact hi.ne (h.eq_of_like hf hx hbi (Bool.eq_true_of_not_eq_false hlike)).1.symm)
    refine ⟨newIndex',?_,fun j b => ?_,?_,hspec.distinct⟩
    · rw [relinkChains,hchains,Option.bind_some,hrelink]
    · rw [hspec.mem,hmem]
      constructor
      · rintro (⟨⟨i,hi,hb⟩,hj⟩|⟨hb,hj⟩)
        · exact ⟨⟨i,Nat.lt_succ_of_lt hi,hb⟩,hj⟩
        · exact ⟨⟨n,Nat.lt_succ_self n,hb⟩,hj⟩
      · rintro ⟨⟨i,hi,hb⟩,hj⟩
        rcases Nat.lt_succ_iff_lt_or_eq.mp hi with hi|rfl
        · exact .inl ⟨⟨i,hi,hb⟩,hj⟩
        · exact .inr ⟨hb,hj⟩
    · rw [hspec.total,htotal,total,total,Finset.sum_range_succ]

/-- The size that cannot be doubled. -/
def largestSize : BitVec 32 := 2147483648

theorem double_size {k : ℕ} (hk : size.toNat=2^k) (hsize : size≠largestSize) :
    (size*2).toNat=2^(k+1) := by
  have hlt : 2^k<2^32 := by
    rw [←hk]
    exact size.isLt
  have hk32 := (Nat.pow_lt_pow_iff_right one_lt_two).mp hlt
  have hk31 : k≠31 := by
    rintro rfl
    exact hsize (BitVec.eq_of_toNat_eq hk)
  have hbound : 2^(k+1)<2^32 := Nat.pow_lt_pow_right one_lt_two (by omega)
  have htwo : (2 : BitVec 32).toNat=2 := rfl
  rw [BitVec.toNat_mul,hk,htwo,←pow_succ,Nat.mod_eq_of_lt hbound]

section

variable {hash : Hash α} (h : HashInv hashKey hashCmp hash) (hf : HashFunctions hashKey hashCmp)
include h hf

theorem hashExpand_spec (hsize : hash.size≠largestSize) :
    ∃ hash', hashExpand hash=some hash' ∧ HashInv hashKey hashCmp hash' ∧
      ∀ x, Stored hash' x ↔ Stored hash x := by
  obtain ⟨k,hk⟩ := h.size
  have hdouble := double_size hk hsize
  have hne : hash.size*2≠0 := by
    intro hz
    rw [hz] at hdouble
    exact absurd hdouble.symm (Nat.two_pow_pos (k+1)).ne'
  obtain ⟨newIndex,hchains,hmem,htotal,hdistinct⟩ :=
    relinkChains_spec hne h.toChains hf hash.size.toNat
  rw [hashExpand,hchains,Option.map_some]
  have hbound : ∀ i, ∀ b∈hash.index i, i<hash.size.toNat := by
    intro i b hb
    rw [←(h.place i b hb).2]
    exact slot_lt h.size_ne b.key
  refine ⟨_,rfl,⟨⟨fun j b hb => ?_,hdistinct⟩,⟨k+1,hdouble⟩,?_⟩,fun x => ?_⟩
  · obtain ⟨⟨i,-,hbi⟩,hj⟩ := (hmem j b).mp hb
    exact ⟨(h.place i b hbi).1,hj⟩
  · exact h.count.trans htotal.symm
  constructor
  · rintro ⟨j,b,hb,rfl⟩
    obtain ⟨⟨i,-,hbi⟩,-⟩ := (hmem j b).mp hb
    exact ⟨i,b,hbi,rfl⟩
  · rintro ⟨i,b,hb,rfl⟩
    exact ⟨_,b,(hmem _ b).mpr ⟨⟨i,hbound i b hb,hb⟩,rfl⟩,rfl⟩

/-- An item of a new class is inserted. -/
theorem insertBacket_spec {data newdata : α} (hlike : hashCmp newdata data=true)
    (hnew : ∀ x, Stored hash x → hashCmp x data=false) :
    HashInv hashKey hashCmp (insertBacket hash (hashKey data) newdata) ∧
      ∀ x, Stored (insertBacket hash (hashKey data) newdata) x ↔ x=newdata ∨ Stored hash x := by
  have hkeys := hf.key _ _ hlike
  generalize hi : slot hash.size (hashKey data)=i
  have hmem : ∀ j b, b∈(insertBacket hash (hashKey data) newdata).index j ↔
      (b=⟨hashKey data,newdata⟩ ∧ j=i) ∨ b∈hash.index j := by
    intro j b
    rw [insertBacket,hi]
    dsimp only
    by_cases hj : j=i
    · rw [hj,update_self,mem_cons,and_iff_left rfl]
    rw [update_of_ne hj]
    exact (or_iff_right fun he => hj he.2).symm
  refine ⟨⟨⟨fun j b hb => ?_,fun j => ?_⟩,h.size,?_⟩,fun x => ?_⟩
  · rcases (hmem j b).mp hb with ⟨rfl,rfl⟩|hb
    · exact ⟨hkeys.symm,hi⟩
    · exact h.place j b hb
  · rw [insertBacket,hi]
    dsimp only
    by_cases hj : j=i
    · rw [hj,update_self]
      refine pairwise_cons.mpr ⟨fun b hb => ?_,h.distinct i⟩
      by_contra hbad
      have hbdata := hf.equivalent.trans
        (hf.equivalent.symm (Bool.eq_true_of_not_eq_false hbad)) hlike
      rw [hnew b.data ⟨i,b,hb,rfl⟩] at hbdata
      cases hbdata
    rw [update_of_ne hj]
    exact h.distinct j
  · have hlt : i<hash.size.toNat := by
      rw [←hi]
      exact slot_lt h.size_ne _
    have hupdate := total_update hash.index hlt (⟨hashKey data,newdata⟩::hash.index i)
    rw [length_cons] at hupdate
    rw [insertBacket,hi]
    dsimp only
    rw [h.count]
    omega
  · constructor
    · rintro ⟨j,b,hb,rfl⟩
      rcases (hmem j b).mp hb with ⟨rfl,-⟩|hb
      · exact .inl rfl
      · exact .inr ⟨j,b,hb,rfl⟩
    · rintro (rfl|⟨j,b,hb,rfl⟩)
      · exact ⟨i,⟨hashKey data,x⟩,(hmem _ _).mpr (.inl ⟨rfl,rfl⟩),rfl⟩
      · exact ⟨j,b,(hmem _ _).mpr (.inr hb),rfl⟩

end

theorem eraseP_eq_filter {β : Type u} {p : β→Bool} {l : List β}
    (h : l.Pairwise fun a b => ¬(p a=true ∧ p b=true)) :
    l.eraseP p=l.filter fun b => !p b := by
  induction l with
  | nil => rfl
  | cons a l ih =>
    obtain ⟨ha,hl⟩ := pairwise_cons.mp h
    cases hp : p a with
    | true =>
      have hrs : l.filter (fun b => !p b)=l := by
        refine filter_eq_self.mpr fun b hb => ?_
        rw [Bool.eq_false_of_not_eq_true fun hpb => ha b hb ⟨hp,hpb⟩]
        rfl
      rw [eraseP_cons_of_pos hp,filter_cons_of_neg (by simp [hp]),hrs]
    | false =>
      rw [eraseP_cons_of_neg (by simp [hp]),filter_cons_of_pos (by simp [hp]),ih hl]

theorem hashRelease_spec (h : HashInv hashKey hashCmp hash) (hf : HashFunctions hashKey hashCmp)
    (data : α) :
    HashInv hashKey hashCmp (hashRelease hashKey hashCmp hash data).1 ∧
      ∀ x, Stored (hashRelease hashKey hashCmp hash data).1 x ↔
        Stored hash x ∧ hashCmp x data=false := by
  rw [hashRelease]
  cases hfind : findBacket hashKey hashCmp hash data with
  | none =>
    have hnone := (findBacket_eq_none_iff h hf data).mp hfind
    exact ⟨h,fun x => ⟨fun hx => ⟨hx,hnone x hx⟩,fun hx => hx.1⟩⟩
  | some b0 =>
    have hb0 := mem_of_find?_eq_some hfind
    have hmatch0 := List.find?_some hfind
    generalize hi : slot hash.size (hashKey data)=i
    rw [hi] at hb0
    have hpair : (hash.index i).Pairwise fun a b =>
        ¬(matching hashKey hashCmp data a=true ∧ matching hashKey hashCmp data b=true) := by
      refine (h.distinct i).imp_of_mem fun {a b} ha hb hab hmatch => ?_
      rw [matching_iff hf (h.place i a ha).1,matching_iff hf (h.place i b hb).1] at hmatch
      rw [hf.equivalent.trans hmatch.1 (hf.equivalent.symm hmatch.2)] at hab
      cases hab
    have herase := eraseP_eq_filter hpair
    have hmem : ∀ j b, b∈update hash.index i
        ((hash.index i).eraseP (matching hashKey hashCmp data)) j ↔
          b∈hash.index j ∧ hashCmp b.data data=false := by
      intro j b
      by_cases hj : j=i
      · rw [hj,update_self,herase,mem_filter]
        refine and_congr_right fun hb => ?_
        rw [Bool.not_eq_true',←Bool.not_eq_true,←Bool.not_eq_true,
          matching_iff hf (h.place i b hb).1]
      rw [update_of_ne hj]
      refine (and_iff_left_of_imp fun hb => ?_).symm
      obtain ⟨hbk,hslot⟩ := h.place j b hb
      by_contra hlike
      refine hj ?_
      rw [←hslot,←hi,hbk,hf.key _ _ (Bool.eq_true_of_not_eq_false hlike)]
    refine ⟨⟨⟨fun j b hb => h.place j b ((hmem j b).mp hb).1,fun j => ?_⟩,h.size,?_⟩,fun x => ?_⟩
    · dsimp only
      by_cases hj : j=i
      · rw [hj,update_self,herase]
        exact (h.distinct i).filter _
      rw [update_of_ne hj]
      exact h.distinct j
    · have hlt : i<hash.size.toNat := by
        rw [←hi]
        exact slot_lt h.size_ne _
      have hupdate := total_update hash.index hlt
        ((hash.index i).eraseP (matching hashKey hashCmp data))
      have hlen := length_eraseP_of_mem hb0 hmatch0
      have hpos := length_pos_of_mem hb0
      dsimp only
      rw [h.count]
      omega
    constructor
    · rintro ⟨j,b,hb,rfl⟩
      obtain ⟨hb,hlike⟩ := (hmem j b).mp hb
      exact ⟨⟨j,b,hb,rfl⟩,hlike⟩
    · rintro ⟨⟨j,b,hb,rfl⟩,hlike⟩
      exact ⟨j,b,(hmem j b).mpr ⟨hb,hlike⟩,rfl⟩

theorem length_hashItems (hash : Hash α) :
    (hashItems hash).length=total hash.index hash.size.toNat := by
  rw [hashItems,length_flatMap,total]
  simp only [length_map]
  generalize hash.size.toNat=n
  induction n with
  | zero => rfl
  | succ n ih =>
    rw [range_succ,map_append,sum_append,ih,Finset.sum_range_succ,map_singleton,sum_singleton]

theorem hashItems_pairwise (h : HashInv hashKey hashCmp hash) (hf : HashFunctions hashKey hashCmp) :
    (hashItems hash).Pairwise fun x y => hashCmp x y=false := by
  rw [hashItems,pairwise_flatMap]
  refine ⟨fun i _ => pairwise_map.mpr (h.distinct i),?_⟩
  refine pairwise_lt_range.imp fun {i j} hij x hx y hy => ?_
  obtain ⟨a,ha,rfl⟩ := mem_map.mp hx
  obtain ⟨b,hb,rfl⟩ := mem_map.mp hy
  by_contra hlike
  exact hij.ne (h.eq_of_like hf ha hb (Bool.eq_true_of_not_eq_false hlike)).1

end

end RoutePlatform.HashInvariant
