import RoutePlatform.MultipathLinks

/-!
# The multipath chain after an update

The walk picks from the list of candidates those whose next hop differs from that of the path
picked before, as long as there is room. They become the chain of the new best path, and every
other path is unlinked.
-/

namespace RoutePlatform.MultipathOperations

open LinkedNodes List Option

variable {x : ℕ} {old : Option ℕ} {as chain : List ℕ} (prev count : ℕ) (l : List ℕ)

/-- The paths picked from a list of candidates. -/
def select (path : ℕ→Path) (newBest maxpaths : ℕ) : ℕ→ℕ→List ℕ→List ℕ
  | _, _, [] => []
  | prev, count, x::rest =>
    if count < maxpaths ∧ x≠newBest ∧ bgpInfoNexthopCmp (path prev) (path x) ≠ .eq then
      x::select path newBest maxpaths x (count+1) rest
    else select path newBest maxpaths prev count rest

/-- The flagged chain of a best path; no path is linked elsewhere. -/
structure Multipath (mem : Paths) (best : Option ℕ) (chain : List ℕ) : Prop where
  links : Links mem [] (best.toList++chain)
  flags : ∀ x, (mem x).data.multipath=true ↔ x∈chain
  empty : best=none → chain=[]

/-- The paths while the walk runs: `ns` are picked, `rs` is left of the old chain. -/
structure Held (mem : Paths) (newBest : ℕ) (ns rs : List ℕ) : Prop where
  /-- The new best path is the first of the new chain. -/
  links : Links mem (newBest::ns) rs
  flags : ∀ x, (mem x).data.multipath=true ↔ x∈ns ∨ x∈rs

section

variable {path : ℕ→Path} {newBest maxpaths : ℕ}

theorem select_of_full {count : ℕ} (hfull : maxpaths≤count) (prev : ℕ) (l : List ℕ) :
    select path newBest maxpaths prev count l=[] := by
  induction l with
  | nil => rfl
  | cons x rest ih => rw [select,if_neg fun h => absurd h.1 (by omega),ih]

theorem select_sublist : (select path newBest maxpaths prev count l).Sublist l := by
  induction l generalizing prev count with
  | nil => exact .slnil
  | cons x rest ih =>
    rw [select]
    split
    · exact (ih x (count+1)).cons_cons x
    · exact (ih prev count).cons x

theorem length_select_le : (select path newBest maxpaths prev count l).length ≤ maxpaths-count := by
  induction l generalizing prev count with
  | nil => exact Nat.zero_le _
  | cons x rest ih =>
    rw [select]
    split
    · have hrs := ih x (count+1)
      rw [length_cons]
      omega
    · exact ih prev count

theorem best_notMem_select : newBest ∉ select path newBest maxpaths prev count l := by
  induction l generalizing prev count with
  | nil => exact not_mem_nil
  | cons x rest ih =>
    rw [select]
    split
    · next h => exact not_mem_cons_of_ne_of_not_mem (Ne.symm h.2.1) (ih x (count+1))
    · exact ih prev count

theorem notMem_select {l : List ℕ}
    (hl : ∀ ys zs, l=ys++x::zs → ∀ y∈ys, bgpInfoNexthopCmp (path x) (path y)=.eq)
    (hx : bgpInfoNexthopCmp (path x) (path x)=.eq) (count : ℕ) :
    x ∉ select path newBest maxpaths x count l := by
  induction l generalizing count with
  | nil => exact not_mem_nil
  | cons y rest ih =>
    intro hmem
    have hxy : bgpInfoNexthopCmp (path x) (path y)=.eq := by
      rcases mem_cons.mp ((select_sublist x count _).subset hmem) with he|hrs
      · rw [←he]
        exact hx
      obtain ⟨ys,zs,rfl⟩ := append_of_mem hrs
      exact hl (y::ys) zs rfl y mem_cons_self
    rw [select,if_neg fun h => h.2.2 hxy] at hmem
    exact ih (fun ys zs he y' hy' => hl (y::ys) zs (by rw [he]; rfl) y'
      (mem_cons_of_mem y hy')) count hmem

end

theorem addrCmp_swap {n : ℕ} (a b : BitVec n) : (addrCmp a b).swap=addrCmp b a :=
  Nat.compare_swap _ _

theorem bgpInfoNexthopCmp_swap (p q : Path) :
    (bgpInfoNexthopCmp p q).swap=bgpInfoNexthopCmp q p := by
  rw [bgpInfoNexthopCmp,bgpInfoNexthopCmp,Ordering.swap_then,addrCmp_swap]
  congr 1
  cases p.extra with
  | none => cases q.extra <;> rfl
  | some ae1 =>
    cases q.extra with
    | none => rfl
    | some ae2 =>
      by_cases hlen : ae1.mpNexthopLen=ae2.mpNexthopLen
      · simp only [hlen,if_true,mpNexthopCmp]
        split_ifs <;> simp only [Ordering.swap_then,addrCmp_swap,Ordering.swap_eq]
      · simp only [if_neg hlen,if_neg (Ne.symm hlen),Ordering.swap_eq]

/-- A list in the order of `bgp_info_mpath_cmp`. -/
def Sorted (path : ℕ→Path) (l : List ℕ) : Prop :=
  l.Pairwise fun x y => bgpInfoMpathCmp (path x) (path y) ≠ .gt

theorem nexthop_le {p q : Path} (h : bgpInfoMpathCmp p q ≠ .gt) : bgpInfoNexthopCmp p q ≠ .gt := by
  intro hgt
  rw [bgpInfoMpathCmp,hgt] at h
  exact h rfl

theorem nodup_select {path : ℕ→Path} {newBest maxpaths : ℕ} {l : List ℕ}
    (hl : l.Nodup ∨ Sorted path l) (prev count : ℕ) :
    (select path newBest maxpaths prev count l).Nodup := by
  rcases hl with hl|hl
  · exact hl.sublist (select_sublist prev count l)
  induction l generalizing prev count with
  | nil => exact nodup_nil
  | cons x rest ih =>
    obtain ⟨hx,hrs⟩ := pairwise_cons.mp hl
    rw [select]
    split
    · refine nodup_cons.mpr ⟨notMem_select (fun ys zs he y hy => ?_) ?_ _,ih x _ hrs⟩
      · have hle := nexthop_le (hx y (he ▸ mem_append_left _ hy))
        have hge := nexthop_le ((pairwise_append.mp (he ▸ hrs)).2.2 y hy x mem_cons_self)
        rw [←bgpInfoNexthopCmp_swap] at hge
        cases hc : bgpInfoNexthopCmp (path x) (path y) with
        | eq => rfl
        | lt => exact absurd (by rw [hc]; rfl) hge
        | gt => exact absurd hc hle
      have hswap := bgpInfoNexthopCmp_swap (path x) (path x)
      cases hc : bgpInfoNexthopCmp (path x) (path x) with
      | eq => rfl
      | lt | gt => rw [hc] at hswap; cases hswap
    · exact ih prev count hrs

section

variable {path : ℕ→Path} {newBest maxpaths : ℕ} {mem : Paths} {ns rs : List ℕ}

theorem Links.next_eq (h : Links mem as rs) (x : ℕ) : bgpInfoMpathNext mem x=(mem x).next := by
  rw [bgpInfoMpathNext]
  split
  · rfl
  · next hm => exact (h.lazy x (Bool.eq_false_iff.mpr hm)).1.1.symm

theorem Links.next_head (h : Links mem as (x::rs)) : bgpInfoMpathNext mem x=rs.head? := by
  rw [h.next_eq]
  exact (show Linked mem ([]++x::rs) from h.old).neighbours.2

theorem Multipath.chain_next (h : Multipath mem (some x) rs) :
    LinkedNodes.chain mem rs.length (bgpInfoMpathNext mem x)=some rs := by
  have hlinked : Linked mem (x::rs) := h.links.old
  have hnext := h.links.next_head
  rw [hnext]
  exact hlinked.segment.2.2.chain _ le_rfl

theorem Held.drop (h : Held mem newBest ns rs) (hx : x ∉ newBest::ns) :
    Held (bgpInfoMpathDequeue mem x) newBest ns (rs.erase x) where
  links := h.links.dequeue hx
  flags k := by
    rw [(h.links.data_dequeue x k).2,h.flags,h.links.old.nodup.mem_erase_iff]
    constructor
    · rintro ⟨hk|hk,hkx⟩
      · exact .inl hk
      · exact .inr ⟨hkx,hk⟩
    · rintro (hk|⟨hkx,hk⟩)
      · exact ⟨.inl hk,fun he => hx (.tail _ (he ▸ hk))⟩
      · exact ⟨.inr hk,hkx⟩

theorem Held.pick (h : Held mem newBest ns rs) {prev : ℕ} (hx : x ∉ newBest::ns)
    (hprev : (newBest::ns).getLast? = some prev) :
    Held (bgpInfoMpathEnqueue (bgpInfoMpathDequeue mem x) prev x) newBest (ns++[x])
      (rs.erase x) := by
  have hdrop := h.drop hx
  have hxr : x ∉ rs.erase x := h.links.old.nodup.not_mem_erase
  obtain ⟨hlinks,hflags⟩ := hdrop.links.enqueue hprev hx hxr
  refine ⟨hlinks,fun k => ?_⟩
  rw [hflags,hdrop.flags,mem_append,mem_singleton]
  exact ⟨fun hk => hk.elim (Or.imp_left .inl) fun he => .inl (.inr he),
    fun hk => hk.elim (Or.imp_left .inl) fun hr => .inl (.inr hr)⟩

/-- With what is picked from the rest of the list, `ns` makes up `out`. -/
structure Walking (path : ℕ→Path) (newBest maxpaths : ℕ) (out : List ℕ) (s : Walk)
    (ns rs : List ℕ) : Prop where
  held : Held s.mem newBest ns rs
  cur : s.curMpath=rs.head?
  prev : (newBest::ns).getLast? = some s.prevMpath
  /-- The best path is counted too. -/
  count : s.mpathCount=ns.length+1
  rest : ns++select path newBest maxpaths s.prevMpath s.mpathCount s.mpList=out
  once : (newBest::out).Nodup

variable {out : List ℕ} {s : Walk} {x : ℕ} {rest : List ℕ}

theorem Walking.purge (h : Walking path newBest maxpaths out s ns (x::rs)) :
    Walking path newBest maxpaths out (purgeMpath s x) ns rs :=
  {h with
    held := by
      have hdrop := h.held.drop (x := x) fun hx => h.held.links.apart x hx mem_cons_self
      rw [erase_cons_head] at hdrop
      exact hdrop
    cur := h.held.links.next_head}

section

variable (h : Walking path newBest maxpaths out s ns rs) (hlist : s.mpList=x::rest)
include h hlist

theorem Walking.pick (hpick : s.mpathCount < maxpaths ∧ x≠newBest ∧
      bgpInfoNexthopCmp (path s.prevMpath) (path x) ≠ .eq) {cur : Option ℕ} (changed : Bool)
    (hcur : cur=(rs.erase x).head?) :
    Walking path newBest maxpaths out
      ⟨bgpInfoMpathEnqueue (bgpInfoMpathDequeue s.mem x) s.prevMpath x,rest,cur,x,
        s.mpathCount+1,changed⟩ (ns++[x]) (rs.erase x) := by
  have hout := h.rest
  rw [hlist,select,if_pos hpick,append_cons] at hout
  have honce := h.once
  rw [←hout,←cons_append,←cons_append] at honce
  have hx : x ∉ newBest::ns := fun hx =>
    (nodup_append.mp (nodup_append.mp honce).1).2.2 x hx x (mem_singleton_self x) rfl
  refine ⟨h.held.pick hx h.prev,hcur,?_,?_,hout,h.once⟩
  · rw [←cons_append,getLast?_concat]
  · rw [length_append,length_singleton,h.count]

theorem Walking.skip (hskip : ¬(s.mpathCount < maxpaths ∧ x≠newBest ∧
      bgpInfoNexthopCmp (path s.prevMpath) (path x) ≠ .eq)) :
    Walking path newBest maxpaths out {s with mpList := rest} ns rs := by
  have hout := h.rest
  rw [hlist,select,if_neg hskip] at hout
  exact {h with rest := hout}

theorem Walking.offer (hne : rs.head? ≠ some x) : ∃ ns' rs', rs'.length≤rs.length ∧
      Walking path newBest maxpaths out (offerMpath path newBest maxpaths s rest x) ns' rs' := by
  rw [offerMpath]
  split
  · next hpick =>
    refine ⟨_,_,(erase_sublist (a := x) (l := rs)).length_le,h.pick hlist hpick _ (h.cur.trans ?_)⟩
    cases rs with
    | nil => rfl
    | cons c rs =>
      rw [erase_cons_tail (by simpa using hne)]
      rfl
  · next hskip => exact ⟨ns,rs,le_rfl,h.skip hlist hskip⟩

end

theorem Walking.keep (h : Walking path newBest maxpaths out s ns (x::rs))
    (hlist : s.mpList=x::rest) : ∃ ns',
      Walking path newBest maxpaths out (keepMpath path maxpaths s rest x) ns' rs := by
  have hbest : x≠newBest := fun he => h.held.links.apart newBest mem_cons_self (he ▸ .head _)
  have herase := erase_cons_head x rs
  rw [keepMpath]
  split
  · next hpick =>
    have hnew := h.pick hlist ⟨hpick.1,hbest,hpick.2⟩ s.mpathChanged
      (h.held.links.next_head.trans (by rw [herase]))
    rw [herase] at hnew
    exact ⟨_,hnew⟩
  next hskip =>
  have hpurged := h.purge
  exact ⟨ns,hpurged.skip hlist fun hp => hskip ⟨hp.1,hp.2.2⟩⟩

/-- The walk picks what is to come and leaves nothing of the old chain. -/
theorem walkLoop_spec (fuel : ℕ) (h : Walking path newBest maxpaths out s ns rs)
    (hfuel : s.mpList.length+rs.length<fuel) : ∃ s',
      walkLoop path newBest maxpaths fuel s=some s' ∧ Held s'.mem newBest out [] ∧
        s'.mpathCount=out.length+1 := by
  induction fuel generalizing s ns rs with
  | zero => omega
  | succ fuel ih =>
    have hcur := h.cur
    have hend : rs=[] → select path newBest maxpaths s.prevMpath s.mpathCount s.mpList=[] →
        Held s.mem newBest out [] ∧ s.mpathCount=out.length+1 := by
      intro hrs hnone
      have hout := h.rest
      rw [hnone,append_nil] at hout
      rw [←hout,←hrs]
      exact ⟨h.held,h.count⟩
    rw [walkLoop]
    cases hlist : s.mpList with
    | nil =>
      rw [hlist] at hfuel hend
      cases rs with
      | nil =>
        rw [hcur]
        exact ⟨s,rfl,hend rfl rfl⟩
      | cons c rs =>
        rw [hcur]
        rw [length_cons] at hfuel
        exact ih h.purge (by rw [purgeMpath,hlist]; omega)
    | cons x rest =>
      rw [hlist,length_cons] at hfuel
      have hoffer : rs.head? ≠ some x → ∃ s', walkLoop path newBest maxpaths fuel
          (offerMpath path newBest maxpaths s rest x)=some s' ∧ Held s'.mem newBest out [] ∧
            s'.mpathCount=out.length+1 := by
        intro hne
        obtain ⟨ns',rs',hlen,hoffered⟩ := h.offer hlist hne
        have hl : (offerMpath path newBest maxpaths s rest x).mpList=rest := by
          rw [offerMpath]
          split <;> rfl
        exact ih hoffered (by rw [hl]; omega)
      cases rs with
      | nil =>
        rw [hcur]
        simp only [head?_nil]
        split
        · next hfull => exact ⟨s,rfl,hend rfl (select_of_full hfull _ _)⟩
        · exact hoffer (some_ne_none x ∘ Eq.symm)
      | cons c rs =>
        rw [hcur]
        simp only [head?_cons]
        rw [length_cons] at hfuel
        split
        · next he =>
          subst he
          obtain ⟨ns',hkept⟩ := h.keep hlist
          have hl : (keepMpath path maxpaths s rest x).mpList=rest := by
            rw [keepMpath]
            split <;> rfl
          exact ih hkept (by rw [hl]; omega)
        next hne =>
        split
        · exact ih h.purge (by rw [purgeMpath,hlist,length_cons]; omega)
        · exact hoffer fun he => hne (some.inj he).symm

end

section

variable {mem : Paths} {as rs : List ℕ}

theorem Links.countSet (h : Links mem as rs) (x count : ℕ) :
    Links (bgpInfoMpathCountSet mem x count) as rs ∧
      (∀ k, (bgpInfoMpathCountSet mem x count k).data.multipath=(mem k).data.multipath) ∧
      bgpInfoMpathCount (bgpInfoMpathCountSet mem x count) x=count := by
  rw [bgpInfoMpathCountSet]
  split
  · next hnone => exact ⟨h,fun _ => rfl,by rw [bgpInfoMpathCount,hnone.2,hnone.1]; rfl⟩
  obtain ⟨hget,hflag,hmade⟩ := h.get x
  refine ⟨hget.modify x (fun _ => rfl) fun _ hm => hm,fun k => ?_,?_⟩
  · exact (multipath_modify x k (f := fun d => {d with count := count}) fun _ => rfl).trans
      (hflag k)
  · rw [bgpInfoMpathCount,data_modify,if_pos rfl,if_pos (hmade x (.inl rfl))]

theorem Links.adopt (h : Links mem [] rs) (hx : x ∉ rs) : Links mem [x] rs := by
  obtain ⟨hnext,hprev⟩ := h.free x not_mem_nil hx
  refine ⟨⟨⟨hprev,hnext,trivial⟩,nodup_singleton x⟩,h.old,fun y hy => ?_,
    fun k _ hk => h.free k not_mem_nil hk,h.lazy⟩
  exact mem_singleton.mp hy ▸ hx

/-- The old chain is cut from the old best path and from the new one. -/
theorem Multipath.start (h : Multipath mem old chain) (newBest : ℕ) {mem1 : Paths}
    (hmem1 : mem1=if some newBest=old then mem else bgpInfoMpathDequeue mem newBest) :
    Held ((old.map (releaseOld mem1)).getD mem1) newBest [] (chain.erase newBest) ∧
      old.bind (bgpInfoMpathNext mem1)=(chain.erase newBest).head? := by
  have hlinks := h.links
  cases old with
  | none =>
    have hdrop := hlinks.dequeue (x := newBest) not_mem_nil
    rw [h.empty rfl] at hdrop ⊢
    rw [if_neg (some_ne_none newBest)] at hmem1
    rw [hmem1]
    refine ⟨⟨hdrop.adopt not_mem_nil,fun k => ?_⟩,rfl⟩
    rw [map_none,getD_none,(hlinks.data_dequeue newBest k).2,h.flags,h.empty rfl]
    exact ⟨fun hk => .inl hk.1,fun hk => absurd (or_self_iff.mp hk) not_mem_nil⟩
  | some old =>
    have hnd := (nodup_cons.mp hlinks.old.nodup : old ∉ chain ∧ chain.Nodup)
    have hcut : Links mem1 [] (old::chain.erase newBest) ∧
        ∀ k, (mem1 k).data.multipath=true ↔ k∈chain.erase newBest := by
      by_cases hbest : newBest=old
      · rw [if_pos (congrArg some hbest)] at hmem1
        rw [hmem1,hbest,erase_of_not_mem hnd.1]
        exact ⟨hlinks,h.flags⟩
      rw [if_neg fun he => hbest (some.inj he)] at hmem1
      have hdrop := hlinks.dequeue (x := newBest) not_mem_nil
      rw [hmem1]
      refine ⟨?_,fun k => ?_⟩
      · rwa [toList_some,singleton_append,erase_cons_tail (by simpa using Ne.symm hbest)] at hdrop
      · rw [(hlinks.data_dequeue newBest k).2,h.flags,hnd.2.mem_erase_iff,and_comm]
    obtain ⟨hlinks1,hflags1⟩ := hcut
    obtain ⟨hlinks2,hflags2,-⟩ := hlinks1.countSet old 0
    have hdrop := hlinks2.dequeue (x := old) not_mem_nil
    rw [erase_cons_head] at hdrop
    refine ⟨⟨hdrop.adopt hnd.2.not_mem_erase,fun k => ?_⟩,hlinks1.next_head⟩
    rw [map_some,getD_some,releaseOld,(hlinks2.data_dequeue old k).2,hflags2,hflags1]
    refine ⟨fun hk => .inr hk.1,fun hk => ?_⟩
    have hk := hk.resolve_left not_mem_nil
    exact ⟨hk,fun he => hnd.1 (he ▸ mem_of_mem_erase hk)⟩

/-- The count is stored with the best path, which may be marked as changed. -/
theorem Held.finish {newBest : ℕ} {ns : List ℕ} (h : Held mem newBest ns []) {mem' : Paths}
    (hmem' : mem'=bgpInfoMpathCountSet mem newBest ns.length ∨
      mem'=modify (bgpInfoMpathCountSet mem newBest ns.length) newBest
        fun d => {d with multipathChg := true}) :
    Multipath mem' (some newBest) ns ∧ bgpInfoMpathCount mem' newBest=ns.length := by
  obtain ⟨hlinks,hflags,hset⟩ := h.links.countSet newBest ns.length
  have hall : Links mem' (newBest::ns) [] ∧ (∀ k, (mem' k).data.multipath =
      (mem k).data.multipath) ∧ bgpInfoMpathCount mem' newBest=ns.length := by
    rcases hmem' with rfl|rfl
    · exact ⟨hlinks,hflags,hset⟩
    refine ⟨hlinks.modify newBest (fun _ => rfl) fun _ hm => hm,fun k => ?_,?_⟩
    · exact (multipath_modify newBest k (f := fun d => {d with multipathChg := true})
        fun _ => rfl).trans (hflags k)
    rw [bgpInfoMpathCount,data_modify,if_pos rfl]
    exact hset
  obtain ⟨hlinks',hflags',hcnt⟩ := hall
  refine ⟨⟨⟨⟨trivial,nodup_nil⟩,hlinks'.new,nofun,
    fun k _ hk => hlinks'.free k hk not_mem_nil,hlinks'.lazy⟩,fun k => ?_,
    fun he => absurd he (some_ne_none newBest)⟩,hcnt⟩
  rw [hflags',h.flags]
  exact or_iff_left not_mem_nil

theorem bgpInfoMpathUpdate_spec (path : ℕ→Path) (cfg : MaxpathsCfg) (newBest : ℕ) {l : List ℕ}
    {fuel : ℕ} (h : Multipath mem old chain) (hl : l.Nodup ∨ Sorted path l)
    (hfuel : l.length+chain.length<fuel) :
    ∃ mem', bgpInfoMpathUpdate path cfg fuel mem newBest old l=some mem' ∧
      Multipath mem' (some newBest)
        (select path newBest (maxpathsFor cfg (path newBest)) newBest 1 l) ∧
      bgpInfoMpathCount mem' newBest =
        (select path newBest (maxpathsFor cfg (path newBest)) newBest 1 l).length := by
  obtain ⟨hheld,hcur⟩ := h.start newBest rfl
  have hlen := (erase_sublist : (chain.erase newBest).Sublist chain).length_le
  have hstart : Walking path newBest (maxpathsFor cfg (path newBest))
      (select path newBest (maxpathsFor cfg (path newBest)) newBest 1 l)
      (startWalk _ newBest old l) [] (chain.erase newBest) :=
    ⟨hheld,hcur,rfl,rfl,rfl,nodup_cons.mpr
      ⟨best_notMem_select newBest 1 l,nodup_select hl newBest 1⟩⟩
  obtain ⟨s,hs,hend,hcnt⟩ := walkLoop_spec fuel hstart
    (lt_of_le_of_lt (Nat.add_le_add_left hlen _) hfuel)
  rw [bgpInfoMpathUpdate]
  rw [hs,map_some,hcnt,Nat.add_sub_cancel]
  exact ⟨_,rfl,hend.finish (ite_eq_or_eq _ _ _).symm⟩

/-- After an update the chain has each path once and not the best one; the stored count is its
length and leaves room; its members are in order; the flag marks exactly them, and no other path is
linked. -/
theorem bgpInfoMpathUpdate_chain (path : ℕ→Path) (cfg : MaxpathsCfg) (newBest : ℕ)
    {old : Option ℕ} {chain l : List ℕ} {fuel : ℕ} (h : Multipath mem old chain)
    (hl : l.Nodup ∨ Sorted path l) (hfuel : l.length+chain.length<fuel) :
    ∃ mem' new, bgpInfoMpathUpdate path cfg fuel mem newBest old l=some mem' ∧
      Multipath mem' (some newBest) new ∧
      LinkedNodes.chain mem' new.length (bgpInfoMpathNext mem' newBest)=some new ∧
      (newBest::new).Nodup ∧ bgpInfoMpathCount mem' newBest=new.length ∧
      new.length ≤ maxpathsFor cfg (path newBest)-1 ∧ new.Sublist l ∧
      (∀ x, (mem' x).data.multipath=true ↔ x∈new) ∧
      ∀ x∈old.toList++chain, x ∉ newBest::new → Unlinked mem' x := by
  obtain ⟨mem',hmem',hnew,hcount⟩ := bgpInfoMpathUpdate_spec path cfg newBest h hl hfuel
  have hlinked : Linked mem' (newBest::_) := hnew.links.old
  exact ⟨mem',_,hmem',hnew,hnew.chain_next,hlinked.nodup,hcount,length_select_le _ _ _,
    select_sublist _ _ _,hnew.flags,fun x _ hx => hnew.links.free x not_mem_nil hx⟩

def freshPaths : Paths := fun _ => ⟨none,none,⟨false,0,false,false⟩⟩

theorem multipath_fresh : Multipath freshPaths none [] :=
  ⟨⟨⟨trivial,nodup_nil⟩,⟨trivial,nodup_nil⟩,nofun,
    fun _ _ _ => ⟨rfl,rfl⟩,fun _ _ => ⟨⟨rfl,rfl⟩,rfl⟩⟩,
    fun _ => ⟨nofun,fun hx => absurd hx not_mem_nil⟩,
    fun _ => rfl⟩

/-- Paths of different peers, two to a next hop. -/
def pairedPaths (i : ℕ) : Path := ⟨BitVec.ofNat 32 (i/2),none,.inet i,.ebgp⟩

theorem bgpInfoMpathUpdate_chain_paired : ∃ mem' new,
    bgpInfoMpathUpdate pairedPaths ⟨2,2⟩ 3 freshPaths 1 none [1,2]=some mem' ∧
      Multipath mem' (some 1) new := by
  obtain ⟨mem',new,hmem',hnew,-⟩ := bgpInfoMpathUpdate_chain pairedPaths ⟨2,2⟩ 1
    multipath_fresh (.inl (by decide))
    (show [1,2].length+[].length<3 by decide)
  exact ⟨mem',new,hmem',hnew⟩

end

end RoutePlatform.MultipathOperations
