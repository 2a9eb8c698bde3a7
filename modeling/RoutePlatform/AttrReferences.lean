import RoutePlatform.AttrIntern

/-!
# References to interned attributes

Interning and its reverse change the counters of an attribute's objects together
with the counter of the attribute. An object that an attribute in the table
points at is referred to, so it is in its table, and the key of the attribute
does not change.
-/

namespace RoutePlatform.AttrReferences

open PointerStore HashOperations HashInvariant ObjectPool AttrHashing AttrIntern OperationRuns
  Function List Option

variable {a : ℕ} {attr : Attr} {β : Type} {o : Object Attr} (attrs : Pool Attr) (ks : List Kind)
  {refs' : Kind→ℕ→ℕ} {cmp : β→β→Bool} {refs : ℕ→ℕ} {key : β→BitVec 32} {pool : Pool β} {n : ℕ}
  (k : Kind)

section

variable {objects objects' : Store (Object Attr)}

theorem counter_of_next_le {objects : Store (Object β)} (hn : objects.next≤n) :
    counter objects n=0 := by
  rw [counter,Store.read,objects.fresh n hn]

theorem attrRefs_eq (hn : objects.next≤n) (k : Kind) (p : ℕ) :
    attrRefs objects k p = ∑ a∈Finset.range n,
      if (contents objects a).bind (fun attr => attr.sub k)=some p then counter objects a
      else 0 := by
  refine Finset.sum_subset (Finset.range_mono hn) fun a _ ha => ?_
  rw [counter_of_next_le (Nat.le_of_not_lt fun hlt => ha (mem_range.mpr hlt)),ite_self]

theorem counter_le_attrRefs (ha : contents objects a=some attr) {k : Kind} {p : ℕ}
    (hp : attr.sub k=some p) : counter objects a≤attrRefs objects k p := by
  by_cases hmem : a∈Finset.range objects.next
  · have hle := Finset.single_le_sum
      (f := fun a => if (contents objects a).bind (fun attr => attr.sub k)=some p then
        counter objects a else 0) (fun _ _ => Nat.zero_le _) hmem
    rw [ha,bind_some,if_pos hp] at hle
    exact hle
  rw [counter_of_next_le (Nat.le_of_not_lt fun hlt => hmem (mem_range.mpr hlt))]
  exact Nat.zero_le _

theorem attrRefs_congr (hcnt : ∀ b, counter objects' b=counter objects b)
    (hkeeps : Keeps objects objects') (k : Kind) (p : ℕ) :
    attrRefs objects' k p=attrRefs objects k p := by
  rw [attrRefs_eq (le_max_left objects'.next objects.next),
    attrRefs_eq (le_max_right objects'.next objects.next)]
  refine Finset.sum_congr rfl fun b _ => ?_
  rw [hcnt b]
  by_cases hb : counter objects b=0
  · rw [hb,ite_self,ite_self]
  · rw [hkeeps b hb (by rw [hcnt b]; exact hb)]

/-- One more reference to an attribute is one more to its objects. -/
theorem attrRefs_addRef (hcnt : ∀ b, counter objects' b=addRef (counter objects) a b)
    (hkeeps : Keeps objects objects') (ha : contents objects' a=some attr) (k : Kind) (p : ℕ) :
    attrRefs objects' k p=attrRefs objects k p+if attr.sub k=some p then 1 else 0 := by
  have hread : a < max objects'.next objects.next := by
    refine lt_of_lt_of_le ?_ (le_max_left _ _)
    by_contra hbad
    have hz := counter_of_next_le (Nat.le_of_not_lt hbad)
    rw [hcnt a,addRef,if_pos rfl] at hz
    exact absurd hz (Nat.succ_ne_zero _)
  rw [attrRefs_eq (le_max_left objects'.next objects.next),
    attrRefs_eq (le_max_right objects'.next objects.next)]
  have hsingle : (if attr.sub k=some p then 1 else 0) =
      ∑ b∈Finset.range (max objects'.next objects.next),
        if b=a then (if attr.sub k=some p then 1 else 0) else 0 := by
    rw [Finset.sum_ite_eq',if_pos (Finset.mem_range.mpr hread)]
  rw [hsingle,←Finset.sum_add_distrib]
  refine Finset.sum_congr rfl fun b _ => ?_
  by_cases hb : counter objects b=0
  · rw [hb,ite_self,zero_add,hcnt b,addRef,hb]
    by_cases hba : b=a
    · rw [if_pos hba,if_pos hba,hba,ha,bind_some]
    · rw [if_neg hba,if_neg hba,ite_self]
  have hne : counter objects' b≠0 := by
    rw [hcnt b,addRef]
    split <;> omega
  rw [←hkeeps b hb hne,hcnt b,addRef]
  by_cases hba : b=a
  · rw [if_pos hba,if_pos hba,hba,ha,bind_some]
    split <;> rfl
  · rw [if_neg hba,if_neg hba,add_zero]

theorem keeps_symm {objects objects' : Store (Object β)} (h : Keeps objects objects') :
    Keeps objects' objects := fun p hp hp' => (h p hp' hp).symm

theorem attrRefs_dropRef (hcnt : ∀ b, counter objects' b=dropRef (counter objects) a b)
    (ha : counter objects a≠0) (hkeeps : Keeps objects objects')
    (hattr : contents objects a=some attr) (k : Kind) (p : ℕ) :
    attrRefs objects' k p=attrRefs objects k p-if attr.sub k=some p then 1 else 0 := by
  have hback : ∀ b, counter objects b=addRef (counter objects') a b := by
    intro b
    rw [addRef,hcnt b,dropRef]
    split
    · rename_i hb
      rw [hb]
      omega
    · rfl
  rw [attrRefs_addRef hback (keeps_symm hkeeps) hattr k p,Nat.add_sub_cancel]

end

section

def PoolsCounted (pools : Pools) (refs : Kind→ℕ→ℕ) : Prop :=
  ∀ k, Counted (subKey k) (subCmp k) (pools k) (refs k)

variable {pools pools' : Pools} {refs : Kind→ℕ→ℕ}

theorem PoolsCounted.congr (h : PoolsCounted pools refs) (heq : ∀ k p, refs' k p=refs k p) :
    PoolsCounted pools refs' := by
  have hrefs : refs'=refs := funext fun k => funext fun p => heq k p
  rw [hrefs]
  exact h

theorem PoolsCounted.update (h : PoolsCounted pools refs) {k : Kind} {pool : Pool (Content k)}
    {refs' : ℕ→ℕ} (hpool : Counted (subKey k) (subCmp k) pool refs') :
    PoolsCounted (update pools k pool) (update refs k refs') := by
  intro k'
  by_cases hk : k'=k
  · subst hk
    rw [update_self,update_self]
    exact hpool
  rw [update_of_ne hk,update_of_ne hk]
  exact h k'

theorem keeps_update {k : Kind} {pool : Pool (Content k)}
    (hkeeps : Keeps (pools k).objects pool.objects) (k' : Kind) :
    Keeps (pools k').objects (update pools k pool k').objects := by
  by_cases hk : k'=k
  · subst hk
    rw [update_self]
    exact hkeeps
  rw [update_of_ne hk]
  exact fun _ _ _ => rfl

theorem interns_subIntern : Interns (subKey k) (subCmp k) (subIntern k) := by
  cases k with
  | cluster => exact interns_internCopy (subFunctions .cluster)
  | aspath => exact interns_internOwn (subFunctions .aspath)
  | community => exact interns_internOwn (subFunctions .community)
  | ecommunity => exact interns_internOwn (subFunctions .ecommunity)
  | transit => exact interns_internOwn (subFunctions .transit)

/-- What the first part of `bgp_attr_intern` gives. -/
structure SubsInterned (ks : List Kind) (pools : Pools) (refs : Kind→ℕ→ℕ) (attr : Attr)
    (pools' : Pools) (attr' : Attr) : Prop where
  /-- The objects that the attribute points at are counted. -/
  counted : PoolsCounted pools' fun k p => refs k p+if k∈ks ∧ attr'.sub k=some p then 1 else 0
  keeps : ∀ k p, refs k p≠0 → heap pools' k p=heap pools k p
  rest : ∀ k, k ∉ ks → attr'.sub k=attr.sub k
  same : (∀ k∈ks, ∀ p, attr.sub k=some p → refs k p≠0) → attr'=attr

theorem heap_of_keeps (hpools : PoolsCounted pools refs) (hpools' : PoolsCounted pools' refs')
    {k : Kind} {p : ℕ} (hkeeps : Keeps (pools k).objects (pools' k).objects) (hp : refs k p≠0)
    (hp' : refs' k p≠0) : heap pools' k p=heap pools k p := by
  refine hkeeps p ?_ ?_
  · rw [(hpools k).count p]
    exact hp
  rw [(hpools' k).count p]
  exact hp'

theorem internSubs_spec : ∀ {pools : Pools} {refs : Kind → ℕ → ℕ} {attr : Attr}
    {pools' : Pools} {attr' : Attr}, ks.Nodup→PoolsCounted pools refs →
    (∀ k∈ks, ∀ p, attr.sub k=some p → ((pools k).objects.read p).isSome=true) →
    internSubs ks pools attr=some (pools',attr') →
    SubsInterned ks pools refs attr pools' attr' := by
  induction ks with
  | nil =>
    intro pools refs attr pools' attr' _ hpools _ hres
    cases hres
    refine ⟨hpools.congr fun k p => ?_,fun _ _ _ => rfl,fun _ _ => rfl,fun _ => rfl⟩
    rw [if_neg fun hbad => not_mem_nil hbad.1,add_zero]
  | cons k ks ih =>
    intro pools refs attr pools' attr' hnd hpools hlive hres
    obtain ⟨hk,hnd'⟩ := nodup_cons.mp hnd
    have hmem : ∀ k'∈ks, k'≠k := fun k' hk' hbad => hk (hbad ▸ hk')
    rw [internSubs] at hres
    cases hsub : attr.sub k with
    | none =>
      rw [hsub] at hres
      have h := ih hnd' hpools (fun k' hk' => hlive k' (mem_cons_of_mem k hk')) hres
      have hnone := (h.rest k hk).trans hsub
      refine ⟨h.counted.congr fun k' p => ?_,h.keeps,
        fun k' hk' => h.rest k' fun hbad => hk' (mem_cons_of_mem k hbad),
        fun hall => h.same fun k' hk' => hall k' (mem_cons_of_mem k hk')⟩
      by_cases hkk : k'=k
      · subst hkk
        rw [hnone,if_neg fun hbad => some_ne_none p hbad.2.symm,
          if_neg fun hbad => some_ne_none p hbad.2.symm]
      · simp only [mem_cons,hkk,false_or]
    | some p =>
      rw [hsub] at hres
      dsimp only at hres
      split at hres
      · cases hres
      rename_i pool find href
      obtain ⟨o,ho⟩ := isSome_iff_exists.mp (hlive k mem_cons_self p hsub)
      obtain ⟨hinterned,hsame⟩ := reference_spec (interns_subIntern k) (subFunctions k)
        (hpools k) ho href
      have hset := fun k' => Attr.sub_setSub (q := find) attr hsub k'
      have h := ih hnd' (hpools.update hinterned.counted) (fun k' hk' q hq => by
        rw [hset k',if_neg (hmem k' hk')] at hq
        rw [update_of_ne (hmem k' hk')]
        exact hlive k' (mem_cons_of_mem k hk') q hq) hres
      have hfind : attr'.sub k=some find := by rw [h.rest k hk,hset k,if_pos rfl]
      refine ⟨h.counted.congr fun k' q => ?_,fun k' q hq => ?_,fun k' hk' => ?_,fun hall => ?_⟩
      · by_cases hkk : k'=k
        · subst hkk
          have hnot : ¬(k'∈ks ∧ attr'.sub k'=some q) := fun hbad => hk hbad.1
          rw [update_self,ObjectPool.addRef,if_neg hnot]
          by_cases hq : q=find
          · rw [if_pos hq,if_pos ⟨.head _,by rw [hfind,hq]⟩]
          have hoth : ¬(k'∈k'::ks ∧ attr'.sub k'=some q) := by
            rintro ⟨-,hbad⟩
            exact hq (some.inj (hbad.symm.trans hfind))
          rw [if_neg hq,if_neg hoth]
        rw [update_of_ne hkk]
        simp only [mem_cons,hkk,false_or]
      · have hq' : update refs k (ObjectPool.addRef (refs k) find) k' q≠0 := by
          by_cases hkk : k'=k
          · subst hkk
            rw [update_self,ObjectPool.addRef]
            split <;> omega
          rw [update_of_ne hkk]
          exact hq
        exact (h.keeps k' q hq').trans (heap_of_keeps hpools
          (hpools.update hinterned.counted) (keeps_update hinterned.keeps k') hq hq')
      · have hkk : k'≠k := fun hbad => hk' (hbad ▸ .head _)
        rw [h.rest k' fun hbad => hk' (mem_cons_of_mem k hbad),hset k',if_neg hkk]
      · have hctr : counter (pools k).objects p≠0 := by
          rw [(hpools k).count p]
          exact hall k mem_cons_self p hsub
        have hattr : attr.setSub k (some find)=attr := by
          rw [hsame hctr,Attr.setSub_sub attr hsub]
        rw [←hattr]
        refine h.same fun k' hk' q hq => ?_
        rw [hset k',if_neg (hmem k' hk')] at hq
        rw [update_of_ne (hmem k' hk')]
        exact hall k' (mem_cons_of_mem k hk') q hq

theorem exists_internSubs : ∀ {pools : Pools} {refs : Kind → ℕ → ℕ}
    {attr : Attr}, ks.Nodup→PoolsCounted pools refs →
    (∀ k∈ks, (pools k).table.size≠largestSize) →
    (∀ k∈ks, ∀ p, attr.sub k=some p → ((pools k).objects.read p).isSome=true) →
    ∃ pools' attr', internSubs ks pools attr=some (pools',attr') := by
  induction ks with
  | nil => exact fun _ _ _ _ => ⟨_,_,rfl⟩
  | cons k ks ih =>
    intro pools refs attr hnd hpools hsize hlive
    obtain ⟨hk,hnd'⟩ := nodup_cons.mp hnd
    have hmem : ∀ k'∈ks, k'≠k := fun k' hk' hbad => hk (hbad ▸ hk')
    rw [internSubs]
    cases hsub : attr.sub k with
    | none =>
      exact ih hnd' hpools (fun k' hk' => hsize k' (mem_cons_of_mem k hk'))
        fun k' hk' => hlive k' (mem_cons_of_mem k hk')
    | some p =>
      obtain ⟨o,ho⟩ := isSome_iff_exists.mp (hlive k mem_cons_self p hsub)
      obtain ⟨pool,find,href⟩ := exists_reference (interns_subIntern k) (hpools k)
        (hsize k mem_cons_self) ho
      obtain ⟨hinterned,-⟩ := reference_spec (interns_subIntern k) (subFunctions k)
        (hpools k) ho href
      dsimp only
      rw [href]
      refine ih hnd' (hpools.update hinterned.counted) (fun k' hk' => ?_) fun k' hk' q hq => ?_
      · rw [update_of_ne (hmem k' hk')]
        exact hsize k' (mem_cons_of_mem k hk')
      rw [Attr.sub_setSub attr hsub,if_neg (hmem k' hk')] at hq
      rw [update_of_ne (hmem k' hk')]
      exact hlive k' (mem_cons_of_mem k hk') q hq

theorem Attr.sub_unsetFlag (attr : Attr) (k k' : Kind) :
    (Attr.unsetFlag attr k).sub k'=attr.sub k' := by
  unfold Attr.unsetFlag
  cases k <;> dsimp only
  · cases k' <;> rfl
  · cases k' <;> rfl
  all_goals split <;> cases k' <;> rfl

/-- References that are held can be given up. -/
theorem uninternSubs_spec : ∀ {pools : Pools} {refs : Kind → ℕ → ℕ}
    {attr : Attr}, ks.Nodup→PoolsCounted pools refs →
    (∀ k∈ks, ∀ p, attr.sub k=some p → refs k p≠0) →
    ∃ pools' attr', uninternSubs ks pools attr=some (pools',attr') ∧ PoolsCounted pools' (fun k p =>
        refs k p-if k∈ks ∧ attr.sub k=some p then 1 else 0) ∧
      ∀ k, Keeps (pools k).objects (pools' k).objects := by
  induction ks with
  | nil =>
    intro pools refs attr _ hpools _
    refine ⟨pools,attr,rfl,hpools.congr fun k p => ?_,fun _ _ _ _ => rfl⟩
    rw [if_neg fun hbad => not_mem_nil hbad.1,Nat.sub_zero]
  | cons k ks ih =>
    intro pools refs attr hnd hpools hheld
    obtain ⟨hk,hnd'⟩ := nodup_cons.mp hnd
    have hmem : ∀ k'∈ks, k'≠k := fun k' hk' hbad => hk (hbad ▸ hk')
    rw [uninternSubs]
    cases hsub : attr.sub k with
    | none =>
      obtain ⟨pools',attr',hres,hctd,hkeeps⟩ := ih hnd' hpools
        (fun k' hk' p hp => hheld k' (mem_cons_of_mem k hk') p
          (by rw [←hp,Attr.sub_unsetFlag]) : ∀ k'∈ks, ∀ p,
            (Attr.unsetFlag attr k).sub k'=some p → refs k' p≠0)
      refine ⟨pools',attr',hres,hctd.congr fun k' p => ?_,hkeeps⟩
      rw [Attr.sub_unsetFlag]
      by_cases hkk : k'=k
      · subst hkk
        rw [hsub,if_neg fun hbad => some_ne_none p hbad.2.symm,
          if_neg fun hbad => some_ne_none p hbad.2.symm]
      · simp only [mem_cons,hkk,false_or]
    | some p =>
      obtain ⟨pool,hunintern,hpool,hkeeps⟩ := unintern_spec (subFunctions k) (hpools k)
        (hheld k mem_cons_self p hsub) (subAsserts k)
      have hset : ∀ k'∈ks, (Attr.unsetFlag (attr.setSub k (subLeft k pool p)) k).sub k' =
          attr.sub k' := fun k' hk' => by
        rw [Attr.sub_unsetFlag,Attr.sub_setSub_of_ne attr (hmem k' hk')]
      have hheld' : ∀ k'∈ks, ∀ q,
          (Attr.unsetFlag (attr.setSub k (subLeft k pool p)) k).sub k'=some q →
            update refs k (ObjectPool.dropRef (refs k) p) k' q≠0 := by
        intro k' hk' q hq
        rw [hset k' hk'] at hq
        rw [update_of_ne (hmem k' hk')]
        exact hheld k' (mem_cons_of_mem k hk') q hq
      obtain ⟨pools',attr',hres,hctd,hkeeps'⟩ := ih hnd' (hpools.update hpool) hheld'
      dsimp only
      rw [subUnintern,hunintern]
      refine ⟨pools',attr',hres,hctd.congr fun k' q => ?_,fun k' q hq hq' => ?_⟩
      · by_cases hkk : k'=k
        · subst hkk
          have hnot : ¬(k'∈ks ∧
              (Attr.unsetFlag (attr.setSub k' (subLeft k' pool p)) k').sub k'=some q) :=
            fun hbad => hk hbad.1
          rw [update_self,ObjectPool.dropRef,if_neg hnot,hsub]
          by_cases hq : q=p
          · rw [if_pos hq,if_pos ⟨.head _,by rw [hq]⟩]
            rfl
          have hoth : ¬(k'∈k'::ks ∧ some p=some q) := by
            rintro ⟨-,hbad⟩
            exact hq (some.inj hbad).symm
          rw [if_neg hq,if_neg hoth]
        · rw [update_of_ne hkk]
          by_cases hk' : k'∈ks
          · rw [hset k' hk']
            simp only [mem_cons,hkk,false_or]
          have hnot : k' ∉ k::ks := fun hbad => (mem_cons.mp hbad).elim hkk hk'
          rw [if_neg fun hbad => hnot hbad.1,if_neg fun hbad => hk' hbad.1]
      · have hmid : counter (update pools k pool k').objects q≠0 := by
          rw [(hctd k').count q] at hq'
          dsimp only at hq'
          rw [((hpools.update hpool) k').count q]
          omega
        exact (hkeeps' k' q hmid hq').trans (keeps_update hkeeps k' q hq hmid)

end

section

variable {w w' : World}

theorem exact_subs (h : Exact w) : PoolsCounted w.pools fun k p =>
    w.heldSub k p+attrRefs w.attrs.objects k p := h.subs

theorem counted_congr_key {key' : β→BitVec 32} (h : Counted key cmp pool refs)
    (hkey : ∀ p x, counter pool.objects p≠0 → contents pool.objects p=some x → key' x=key x) :
    Counted key' cmp pool refs where
  inv := by
    refine HashInv.congr h.inv (fun p hp => ?_) fun _ _ _ _ => rfl
    rw [keyAt,keyAt]
    cases hx : contents pool.objects p with
    | none => rfl
    | some x => exact hkey p x ((h.stored p).mp hp) hx
  stored := h.stored
  count := h.count

theorem sub_ne_zero (ha : contents w.attrs.objects a=some attr)
    (hcnt : counter w.attrs.objects a≠0) {k : Kind} {p : ℕ} (hp : attr.sub k=some p) :
    w.heldSub k p+attrRefs w.attrs.objects k p≠0 := by
  have hle := counter_le_attrRefs ha hp
  omega

theorem attrs_congr (h : Exact w) {pools : Pools}
    (hheap : ∀ a attr, counter w.attrs.objects a≠0 → contents w.attrs.objects a=some attr →
      ∀ k p, attr.sub k=some p → heap pools k p=heap w.pools k p) :
    Counted (attrhashKeyMake (heap pools)) attrhashCmp w.attrs w.heldAttr :=
  counted_congr_key h.attrs fun a attr ha hattr =>
    attrhashKeyMake_congr fun k p hp => hheap a attr ha hattr k p hp

theorem mem_subOrder : k∈subOrder := by cases k <;> decide

theorem exact_newSub (h : Exact w) (k : Kind) (x : Content k) :
    Exact {w with pools := update w.pools k (Pool.make (w.pools k) x)} := by
  have hpool := (h.subs k).alloc (o := ⟨x,0⟩) rfl
  have hpools := (exact_subs h).update hpool
  have hself : update (fun k p => w.heldSub k p+attrRefs w.attrs.objects k p) k
      (fun p => w.heldSub k p+attrRefs w.attrs.objects k p) =
      fun k p => w.heldSub k p+attrRefs w.attrs.objects k p := update_eq_self k _
  rw [hself] at hpools
  refine ⟨hpools,attrs_congr h fun a attr ha hattr k' p hp => ?_⟩
  refine heap_of_keeps (exact_subs h) hpools (keeps_update (fun q hq _ => ?_) k')
    (sub_ne_zero hattr ha hp) (sub_ne_zero hattr ha hp)
  have hq' : q≠(w.pools k).objects.next := fun hbad => hq (by
    rw [hbad]
    exact counter_of_next_le le_rfl)
  exact (contents_alloc _ _ _).trans (if_neg hq')

theorem exact_newAttr (h : Exact w) (attr : Attr) :
    Exact {w with attrs := Pool.make w.attrs attr} := by
  have hattrs := h.attrs.alloc (o := ⟨attr,0⟩) rfl
  have hcnt : ∀ b, counter (w.attrs.objects.alloc ⟨attr,0⟩) b=counter w.attrs.objects b := by
    intro b
    rw [hattrs.count b,h.attrs.count b]
  have hkeeps : Keeps w.attrs.objects (w.attrs.objects.alloc ⟨attr,0⟩) := by
    intro b hb _
    have hb' : b≠w.attrs.objects.next := fun hbad => hb (by
      rw [hbad]
      exact counter_of_next_le le_rfl)
    rw [contents_alloc,if_neg hb']
  refine ⟨(exact_subs h).congr fun k p => ?_,hattrs⟩
  exact congrArg (w.heldSub k p + ·) (attrRefs_congr hcnt hkeeps k p)

theorem exact_internSub (h : Exact w) {k : Kind} {p : ℕ} (hleg : Legal w (.internSub k p))
    (hstep : step w (.internSub k p)=some w') : Exact w' := by
  obtain ⟨hlive,hfresh⟩ := hleg
  obtain ⟨o,ho⟩ := isSome_iff_exists.mp hlive
  obtain ⟨⟨pool,find⟩,hintern,heq⟩ := map_eq_some_iff.mp hstep
  cases heq
  have hinterned := (interns_subIntern k).spec (h.subs k) ho
    ((counter_of_read ho).symm.trans hfresh) hintern
  have hpools : PoolsCounted (update w.pools k pool) fun k' q =>
      update w.heldSub k (addRef (w.heldSub k) find) k' q + attrRefs w.attrs.objects k' q := by
    refine ((exact_subs h).update hinterned.counted).congr fun k' q => ?_
    by_cases hk : k'=k
    · subst hk
      rw [update_self,update_self,addRef,addRef]
      split
      · exact add_right_comm _ _ _
      · rfl
    · rw [update_of_ne hk,update_of_ne hk]
  refine ⟨hpools,attrs_congr h fun a attr ha hattr k' q hq => ?_⟩
  have hne := sub_ne_zero hattr ha hq
  refine heap_of_keeps (exact_subs h) ((exact_subs h).update hinterned.counted)
    (keeps_update hinterned.keeps k') hne ?_
  by_cases hk : k'=k
  · subst hk
    rw [update_self,addRef]
    split <;> omega
  rw [update_of_ne hk]
  exact hne

theorem contents_setAttr (a b : ℕ) (ho : attrs.objects.read a=some o) (attr : Attr) :
    contents (setAttr attrs a attr).objects b =
      if b=a then some attr else contents attrs.objects b := by
  rw [contents,setAttr]
  rw [Store.read_modify]
  by_cases hb : b=a
  · rw [if_pos hb,if_pos hb,ho]
    rfl
  rw [if_neg hb,if_neg hb]
  rfl

theorem counter_setAttr (a b : ℕ) (attr : Attr) :
    counter (setAttr attrs a attr).objects b=counter attrs.objects b := by
  rw [counter,counter,setAttr]
  rw [Store.read_modify]
  by_cases hb : b=a
  · rw [if_pos hb,hb]
    cases attrs.objects.read a <;> rfl
  · rw [if_neg hb]

/-- After it an attribute in the table keeps its counted pointers. -/
theorem counted_setAttr (h : Exact w) (ho : w.attrs.objects.read a=some o)
    (hlive : ∀ k p, o.content.sub k=some p → ((w.pools k).objects.read p).isSome=true)
    {pools : Pools} (hsubs : internSubs subOrder w.pools o.content=some (pools,attr)) :
    Counted (attrhashKeyMake (heap pools)) attrhashCmp (setAttr w.attrs a attr) w.heldAttr ∧
      ∀ b, counter w.attrs.objects b≠0 →
        contents (setAttr w.attrs a attr).objects b=contents w.attrs.objects b := by
  have hspec := internSubs_spec subOrder (by decide) (exact_subs h) (fun k _ => hlive k) hsubs
  have hcnt := fun b => counter_setAttr w.attrs a b attr
  have hcon : ∀ b, counter w.attrs.objects b≠0 →
      contents (setAttr w.attrs a attr).objects b=contents w.attrs.objects b := by
    intro b hb
    rw [contents_setAttr w.attrs a b ho]
    split
    · rename_i hba
      rw [hba] at hb ⊢
      have hsame := hspec.same fun k _ p hp => sub_ne_zero (contents_of_read ho) hb hp
      rw [hsame,contents_of_read ho]
    · rfl
  refine ⟨counted_congr_key (h.attrs.congr hcnt hcon) fun b x hb hx => ?_,hcon⟩
  refine attrhashKeyMake_congr fun k p hp => ?_
  rw [hcnt b] at hb
  rw [hcon b hb] at hx
  exact hspec.keeps k p (sub_ne_zero hx hb hp)

theorem read_setAttr (ho : attrs.objects.read a=some o) (attr : Attr) :
    (setAttr attrs a attr).objects.read a=some ⟨attr,o.refcnt⟩ := by
  change (attrs.objects.modify a _).read a=_
  rw [Store.read_modify,if_pos rfl,ho]
  rfl

/-- What `bgp_attr_intern` does to the references. -/
theorem exact_intern (h : Exact w) (hleg : Legal w (.intern a))
    (hstep : step w (.intern a)=some w') : Exact w' := by
  obtain ⟨attr,hattr,hlive⟩ := hleg
  obtain ⟨o,ho,rfl⟩ := map_eq_some_iff.mp hattr
  obtain ⟨⟨w1,find⟩,hintern,heq⟩ := map_eq_some_iff.mp hstep
  cases heq
  rw [bgpAttrIntern,ho] at hintern
  obtain ⟨⟨pools,attr⟩,hsubs,hcopy⟩ := bind_eq_some_iff.mp hintern
  obtain ⟨⟨attrs,find'⟩,hcopy,heq⟩ := map_eq_some_iff.mp hcopy
  cases heq
  have hspec := internSubs_spec subOrder (by decide) (exact_subs h) (fun k _ => hlive k) hsubs
  obtain ⟨hset,hcon⟩ := counted_setAttr h ho hlive hsubs
  obtain ⟨hctd,hkeeps,y,hy,hlike⟩ :=
    internCopy_spec (attrFunctions (heap pools)) hset (read_setAttr w.attrs ho attr) hcopy
  refine ⟨hspec.counted.congr fun k p => ?_,hctd⟩
  have hkeeps' : Keeps w.attrs.objects attrs.objects := fun b hb hb' =>
    (hkeeps b (by rw [counter_setAttr]; exact hb) hb').trans (hcon b hb)
  have hadd : ∀ b, counter attrs.objects b=addRef (counter w.attrs.objects) find b := by
    intro b
    rw [hctd.count b,addRef,addRef,h.attrs.count b]
  rw [attrRefs_addRef hadd hkeeps' hy k p,sub_eq_of_attrhashCmp hlike k]
  simp only [mem_subOrder,true_and,add_assoc]

/-- What `bgp_attr_unintern` does to the references; it does not fail. -/
theorem exact_unintern (h : Exact w) (hleg : Legal w (.unintern a)) :
    ∃ w', step w (.unintern a)=some w' ∧ Exact w' := by
  have hcnt : counter w.attrs.objects a≠0 := by
    rw [h.attrs.count a]
    exact hleg
  obtain ⟨o,ho,href⟩ := read_of_counter hcnt
  have hattr := contents_of_read ho
  obtain ⟨attrs,hunintern,hctd,hkeeps⟩ :=
    unintern_spec (attrFunctions (heap w.pools)) h.attrs hleg true
  have hheld : ∀ k∈subOrder, ∀ p, o.content.sub k=some p →
      w.heldSub k p+attrRefs w.attrs.objects k p≠0 :=
    fun k _ p hp => sub_ne_zero hattr hcnt hp
  obtain ⟨pools,attr,hsubs,hpools,hkeeps'⟩ :=
    uninternSubs_spec subOrder (by decide) (exact_subs h) hheld
  have hne : ¬o.refcnt=0 := by
    rw [href]
    exact hcnt
  have hdrop : ∀ b, counter attrs.objects b=dropRef (counter w.attrs.objects) a b := by
    intro b
    rw [hctd.count b,dropRef,dropRef,h.attrs.count b]
  have hrefs := attrRefs_dropRef hdrop hcnt hkeeps hattr
  have hpools' : PoolsCounted pools fun k p => w.heldSub k p+attrRefs attrs.objects k p := by
    refine hpools.congr fun k p => ?_
    rw [hrefs k p]
    simp only [mem_subOrder,true_and]
    by_cases hp : o.content.sub k=some p
    · have hle := counter_le_attrRefs hattr hp
      rw [if_pos hp]
      omega
    · rw [if_neg hp,Nat.sub_zero,Nat.sub_zero]
  refine ⟨{w with pools,attrs,heldAttr := dropRef w.heldAttr a},?_,⟨hpools',?_⟩⟩
  · rw [step,bgpAttrUnintern,ho]
    dsimp only
    rw [if_neg hne,hunintern,bind_some,hsubs]
    rfl
  refine counted_congr_key hctd fun b x hb hx => attrhashKeyMake_congr fun k p hp => ?_
  have hb' : counter w.attrs.objects b≠0 := by
    rw [hdrop b,dropRef] at hb
    split at hb <;> omega
  have hx' := (hkeeps b hb' hb).symm.trans hx
  exact heap_of_keeps (exact_subs h) hpools' (hkeeps' k) (sub_ne_zero hx' hb' hp)
    (sub_ne_zero hx hb hp)

/-- What `bgp_attr_unintern_sub` does to the references; it does not fail. -/
theorem exact_uninternSub (h : Exact w) (hleg : Legal w (.uninternSub a)) :
    ∃ w', step w (.uninternSub a)=some w' ∧ Exact w' := by
  obtain ⟨attr,hattr,hfresh,hheld⟩ := hleg
  obtain ⟨o,ho,rfl⟩ := map_eq_some_iff.mp hattr
  have hne : ∀ k∈subOrder, ∀ p, o.content.sub k=some p →
      w.heldSub k p+attrRefs w.attrs.objects k p≠0 := by
    intro k _ p hp
    have hpos := hheld k p hp
    omega
  obtain ⟨pools,attr,hsubs,hpools,hkeeps⟩ :=
    uninternSubs_spec subOrder (by decide) (exact_subs h) hne
  have hcnt := fun b => counter_setAttr w.attrs a b attr
  have hcon : ∀ b, counter w.attrs.objects b≠0 →
      contents (setAttr w.attrs a attr).objects b=contents w.attrs.objects b := by
    intro b hb
    rw [contents_setAttr w.attrs a b ho,if_neg fun hbad => hb (by rw [hbad,hfresh])]
  have hrefs := attrRefs_congr hcnt fun b hb _ => hcon b hb
  have hpools' : PoolsCounted pools fun k p =>
      dropSubs w.heldSub o.content k p+attrRefs (setAttr w.attrs a attr).objects k p := by
    refine hpools.congr fun k p => ?_
    rw [hrefs k p,dropSubs]
    simp only [mem_subOrder,true_and]
    by_cases hp : o.content.sub k=some p
    · have hpos := hheld k p hp
      rw [if_pos hp]
      omega
    · rw [if_neg hp,Nat.sub_zero,Nat.sub_zero]
  refine ⟨{w with pools,attrs := setAttr w.attrs a attr,
                  heldSub := dropSubs w.heldSub o.content},?_,⟨hpools',?_⟩⟩
  · rw [step,ho]
    rw [bgpAttrUninternSub,ho]
    dsimp only
    rw [hsubs]
    rfl
  refine counted_congr_key (h.attrs.congr hcnt hcon) fun b x hb hx =>
    attrhashKeyMake_congr fun k p hp => ?_
  rw [hcnt b] at hb
  rw [hcon b hb] at hx
  have hne1 := sub_ne_zero hx hb hp
  refine heap_of_keeps (exact_subs h) hpools' (hkeeps k) hne1 ?_
  have hle := counter_le_attrRefs hx hp
  rw [hrefs k p]
  omega

/-- A call that callers may make keeps the counters right. -/
theorem step_exact (w : World) (op : AttrOp) (w' : World) (h : Exact w) (hleg : Legal w op)
    (hstep : step w op=some w') : Exact w' := by
  cases op with
  | newSub k x =>
    cases hstep
    exact exact_newSub h k x
  | newAttr attr =>
    cases hstep
    exact exact_newAttr h attr
  | internSub k p => exact exact_internSub h hleg hstep
  | intern a => exact exact_intern h hleg hstep
  | unintern a =>
    obtain ⟨w1,hstep1,hexact⟩ := exact_unintern h hleg
    cases hstep.symm.trans hstep1
    exact hexact
  | uninternSub a =>
    obtain ⟨w1,hstep1,hexact⟩ := exact_uninternSub h hleg
    cases hstep.symm.trans hstep1
    exact hexact

/-- A call that callers may make does not touch freed memory, and its assertions
hold. -/
theorem exists_step (h : Exact w) {op : AttrOp} (hleg : Legal w op) (hroomy : Roomy w) :
    ∃ w', step w op=some w' := by
  cases op with
  | newSub k x | newAttr attr => exact ⟨_,rfl⟩
  | internSub k p =>
    obtain ⟨o,ho⟩ := isSome_iff_exists.mp hleg.1
    obtain ⟨pool,find,hintern⟩ := (interns_subIntern k).total (h.subs k) (hroomy.1 k) ho
    exact ⟨_,by rw [step,hintern,map_some]⟩
  | intern a =>
    obtain ⟨attr,hattr,hlive⟩ := hleg
    obtain ⟨o,ho,rfl⟩ := map_eq_some_iff.mp hattr
    obtain ⟨pools,attr,hsubs⟩ := exists_internSubs subOrder (by decide) (exact_subs h)
      (fun k _ => hroomy.1 k) fun k _ => hlive k
    obtain ⟨hset,-⟩ := counted_setAttr h ho hlive hsubs
    obtain ⟨attrs,find,hcopy⟩ := (interns_internCopy (attrFunctions (heap pools))).total hset
      hroomy.2 (read_setAttr w.attrs ho attr)
    refine ⟨{w with pools,attrs,heldAttr := addRef w.heldAttr find},?_⟩
    rw [step,bgpAttrIntern,ho]
    dsimp only
    rw [hsubs,bind_some]
    rw [hcopy]
    rfl
  | unintern a =>
    obtain ⟨w',hstep,-⟩ := exact_unintern h hleg
    exact ⟨w',hstep⟩
  | uninternSub a =>
    obtain ⟨w',hstep,-⟩ := exact_uninternSub h hleg
    exact ⟨w',hstep⟩

end

/-- The counters of what is in the tables, and what the tables hold. -/
structure CountedExactly (w : World) : Prop where
  attr : ∀ a, Stored w.attrs.table a → counter w.attrs.objects a=w.heldAttr a
  /-- An object is referred to by callers and by attributes. -/
  sub : ∀ k p, Stored (w.pools k).table p →
    counter (w.pools k).objects p=w.heldSub k p+attrRefs w.attrs.objects k p
  held : (∀ a, w.heldAttr a≠0 → Stored w.attrs.table a) ∧
    ∀ k p, w.heldSub k p≠0 → Stored (w.pools k).table p
  /-- So is what an attribute in the table points at. -/
  pointers : ∀ a x, Stored w.attrs.table a → contents w.attrs.objects a=some x →
    ∀ k p, x.sub k=some p → Stored (w.pools k).table p
  distinct : ∀ a b x y, Stored w.attrs.table a → Stored w.attrs.table b →
    contents w.attrs.objects a=some x → contents w.attrs.objects b=some y →
      attrhashCmp x y=true → a=b
  keys : ∀ x y, attrhashCmp x y=true →
    attrhashKeyMake (heap w.pools) x=attrhashKeyMake (heap w.pools) y

/-- What was in a table is in it no longer exactly if its counter is zero. -/
def LeavesAtZero {β : Type} (pool pool' : Pool β) : Prop :=
  ∀ p, Stored pool.table p → (¬Stored pool'.table p ↔ counter pool'.objects p=0)

/-- The call takes objects out of their tables at a zero counter. -/
def Releases (w w' : World) : Prop :=
  (∀ k, LeavesAtZero (w.pools k) (w'.pools k)) ∧ LeavesAtZero w.attrs w'.attrs

theorem Counted.leavesAtZero {pool' : Pool β} (h : Counted key cmp pool' refs) :
    LeavesAtZero pool pool' := by
  intro p _
  rw [h.stored p,not_not]

theorem countedExactly {w : World} (h : Exact w) : CountedExactly w where
  attr a _ := h.attrs.count a
  sub k p _ := (h.subs k).count p
  held := by
    refine ⟨fun a ha => ?_,fun k p hp => ?_⟩
    · rw [h.attrs.stored a,h.attrs.count a]
      exact ha
    rw [(h.subs k).stored p,(h.subs k).count p]
    omega
  pointers a x ha hx k p hp := by
    rw [(h.subs k).stored p,(h.subs k).count p]
    exact sub_ne_zero hx ((h.attrs.stored a).mp ha) hp
  distinct a b x y ha hb hx hy hlike :=
    h.attrs.eq_of_like (attrFunctions _) ((h.attrs.stored a).mp ha) ((h.attrs.stored b).mp hb)
      hx hy hlike
  keys x y hlike := (attrFunctions _).key x y hlike

theorem counted_empty (key : β→BitVec 32) (cmp : β→β→Bool) {size : BitVec 32} (hsize : size≠0)
    (hpow : size &&& (size-1)=0) : Counted key cmp ⟨.empty,emptyTable size⟩ fun _ => 0 := by
  have hcreate : hashCreateSize size=some (emptyTable size) := by
    rw [hashCreateSize,if_pos hpow]
    rfl
  refine ⟨(HashRuns.hashCreateSize_tracks hsize hcreate).inv,fun p => ?_,fun _ => rfl⟩
  refine iff_of_false ?_ fun h => h rfl
  rintro ⟨i,b,hb,-⟩
  exact not_mem_nil hb

theorem exact_start : Exact start where
  subs k := by
    have hrefs : (fun p => start.heldSub k p+attrRefs start.attrs.objects k p)=fun _ => 0 :=
      funext fun _ => rfl
    rw [hrefs]
    unfold start
    dsimp only
    split <;> exact counted_empty _ _ (by decide) (by decide)
  attrs := counted_empty _ _ (by decide) (by decide)

/-- After every sequence of calls that fills no table, counters count references, tables hold what
is referred to, and the next call touches no freed memory. -/
theorem attrRun_exact {ops : List AttrOp} {w : World}
    (hlegal : LegalRun step Legal start ops) (hrun : run step start ops=some w) :
    CountedExactly w ∧ (∀ op w', Legal w op → step w op=some w' → Releases w w') ∧
      ∀ op, Legal w op → Roomy w → ∃ w', step w op=some w' := by
  have hexact := run_preserves step_exact ops start w exact_start hlegal hrun
  refine ⟨countedExactly hexact,fun op w' hop hstep => ?_,fun op => exists_step hexact⟩
  have hexact' := step_exact w op w' hexact hop hstep
  exact ⟨fun k => Counted.leavesAtZero (hexact'.subs k),Counted.leavesAtZero hexact'.attrs⟩

instance decidableLegal (w : World) : ∀ op, Decidable (Legal w op)
  | .newSub _ _ => .isTrue trivial
  | .newAttr _ => .isTrue trivial
  | .internSub _ _ => inferInstanceAs (Decidable (_ ∧ _))
  | .intern a =>
    match h : contents w.attrs.objects a with
    | none => .isFalse (by
        rintro ⟨attr,hattr,-⟩
        rw [h] at hattr
        cases hattr)
    | some attr => decidable_of_iff
        (∀ k∈subOrder, ∀ p∈attr.sub k, ((w.pools k).objects.read p).isSome=true)
        ⟨fun hall => ⟨attr,h,fun k => hall k (mem_subOrder k)⟩,fun ⟨attr',hattr,hall⟩ => by
            cases h.symm.trans hattr
            exact fun k _ => hall k⟩
  | .unintern _ => inferInstanceAs (Decidable (_≠_))
  | .uninternSub a =>
    match h : contents w.attrs.objects a with
    | none => .isFalse (by
        rintro ⟨attr,hattr,-⟩
        rw [h] at hattr
        cases hattr)
    | some attr => decidable_of_iff
        (counter w.attrs.objects a=0 ∧ ∀ k∈subOrder, ∀ p∈attr.sub k, w.heldSub k p≠0)
        ⟨fun hall => ⟨attr,h,hall.1,fun k => hall.2 k (mem_subOrder k)⟩,
          fun ⟨attr',hattr,hfresh,hall⟩ => by
            cases h.symm.trans hattr
            exact ⟨hfresh,fun k _ => hall k⟩⟩

/-- The AS path of one sequence. -/
def samplePath : List AsPathOperations.Assegment := [⟨.asSequence,[65001],by decide⟩]

/-- An attribute with a path and a cluster list. -/
def sampleAttr (path cluster : ℕ) : Attr where
  aspath := some path
  community := none
  extra := some ⟨PrefixBytes.zeroAddress,PrefixBytes.zeroAddress,none,some cluster,none,
    0,0,0,0,0,0,0⟩
  flag := 0x206
  nexthop := 0x0a000001
  med := 0
  localPref := 100
  origin := 0

/-- Two equal attributes are interned and given up, with a reference to the path in between. -/
def sampleCalls : List AttrOp :=
  [.newSub .aspath samplePath,.newSub .cluster [(1 : BitVec 32)],.internSub .aspath 0,
    .newAttr (sampleAttr 0 0),.intern 0,.newSub .aspath samplePath,
    .newSub .cluster [(1 : BitVec 32)],.newAttr (sampleAttr 1 2),.intern 2,.unintern 1,
    .newAttr {sampleAttr 0 0 with extra := none},.uninternSub 3,.unintern 1]

theorem attrRun_exact_sampleCalls : ∃ w, run step start sampleCalls=some w ∧ CountedExactly w := by
  have hlegal : LegalRun step Legal start sampleCalls := by decide +kernel
  obtain ⟨w,hrun⟩ := isSome_iff_exists.mp
    (show (run step start sampleCalls).isSome=true by decide +kernel)
  exact ⟨w,hrun,(attrRun_exact hlegal hrun).1⟩

end RoutePlatform.AttrReferences
