import RoutePlatform.DampInvariant

/-!
# The calls of the dampening code

Every call keeps the lists in order, with one exception: the reuse timer clears the flag of an
entry before it may release it. The release then unlinks the entry from `no_reuse_list`, on which
it is not.
-/

namespace RoutePlatform.DampProcessing

open LinkedNodes DampOperations DampInvariant Function List Option

variable {cfg : DampConfig} {s : DampState} {lists : DampList→List ℕ} {away : List ℕ}

variable {b : ℕ} {name : DampList} {x binfo : ℕ} {now : ℤ}

theorem place_cases (h : place s b=some name) : ((s.binfo (s.data b).binfo).damped=true ∧
      ∃ i, (s.data b).index=some i ∧ name=.reuse i) ∨
    ((s.binfo (s.data b).binfo).damped=false ∧ name=.noReuse) := by
  rw [place] at h
  by_cases hflag : (s.binfo (s.data b).binfo).damped=true
  · rw [if_pos hflag,map_eq_some_iff] at h
    obtain ⟨i,hi,hname⟩ := h
    exact .inl ⟨hflag,i,hi,hname.symm⟩
  rw [if_neg hflag] at h
  exact .inr ⟨Bool.eq_false_of_not_eq_true hflag,(some.inj h).symm⟩

theorem bgpReuseListDelete_of_index {i : ℕ} (h : (s.data b).index=some i) :
    bgpReuseListDelete s b=some (listDel s (.reuse i) b) := by
  rw [bgpReuseListDelete,h]

variable (r : ℕ) (f : Binfo→Binfo)

theorem data_modifyBinfo (x : ℕ) : (s.modifyBinfo r f).data x=s.data x := rfl

theorem modifyData_modifyBinfo (b r : ℕ) (f : DampInfo→DampInfo) (g : Binfo→Binfo) :
    (s.modifyData b f).modifyBinfo r g=(s.modifyBinfo r g).modifyData b f := rfl

theorem listDel_modifyBinfo (name : DampList) (b : ℕ) :
    listDel (s.modifyBinfo r f) name b=(listDel s name b).modifyBinfo r f := rfl

theorem data_listDel_modifyBinfo (name : DampList) (b x : ℕ) :
    ((listDel s name b).modifyBinfo r f).data x=s.data x := data_listDel s name b x

theorem rep_bgpReuseListAdd (h : Rep cfg s lists (b::away)) (haway : b ∉ away)
    (hflag : (s.binfo (s.data b).binfo).damped=true) :
    ∃ lists', Rep cfg (bgpReuseListAdd cfg s b) lists' away := by
  have hdata : Rep cfg (s.modifyData b fun d =>
        {d with index := some (cfg.reuseIndex s.reuseOffset (s.data b).penalty)})
      lists (b::away) :=
    h.modifyData (fun _ => rfl) (.inl mem_cons_self)
  refine ⟨_,hdata.listAdd haway ?_ (cfg.reuseIndex_lt s.reuseOffset (s.data b).penalty)⟩
  rw [place,data_modifyData_self]
  exact if_pos hflag

theorem rep_unsuppress (h : Rep cfg s lists []) (hlive : b∈s.live)
    (hflag : (s.binfo (s.data b).binfo).damped=true) :
    ∃ s' lists', bgpReuseListDelete
        (s.modifyBinfo (s.data b).binfo fun info => {info with damped := false}) b=some s' ∧
      s'.live=s.live ∧ (∀ x, s'.data x=s.data x) ∧ Rep cfg (listAdd s' .noReuse b) lists' [] := by
  obtain ⟨name,hpl,-⟩ := h.placed b hlive not_mem_nil
  obtain ⟨-,i,hindex,rfl⟩|⟨hclear,-⟩ := place_cases hpl
  · have hdel := h.listDel hlive not_mem_nil hpl
    have hmove : Rep cfg ((listDel s (.reuse i) b).modifyBinfo (s.data b).binfo fun info =>
          {info with damped := false}) _ [b] :=
      hdel.modifyBinfo (fun _ => rfl) (.inr ⟨b,.head _,by rw [data_listDel]⟩)
    have hpl' : place ((listDel s (.reuse i) b).modifyBinfo (s.data b).binfo fun info =>
        {info with damped := false}) b=some .noReuse := by
      rw [place,data_listDel_modifyBinfo,binfo_modifyBinfo_self]
      rfl
    exact ⟨_,_,bgpReuseListDelete_of_index hindex,rfl,data_listDel s (.reuse i) b,
      hmove.listAdd not_mem_nil hpl' trivial⟩
  · rw [hflag] at hclear
    cases hclear

theorem rep_suppress (h : Rep cfg s lists []) (hlive : b∈s.live)
    (hflag : (s.binfo (s.data b).binfo).damped=false) :
    ∃ lists', Rep cfg (bgpReuseListAdd cfg
        (listDel (s.modifyBinfo (s.data b).binfo fun info => {info with damped := true})
          .noReuse b) b) lists' [] := by
  obtain ⟨name,hpl,-⟩ := h.placed b hlive not_mem_nil
  obtain ⟨hset,-⟩|⟨-,rfl⟩ := place_cases hpl
  · rw [hflag] at hset
    cases hset
  have hdel := h.listDel hlive not_mem_nil hpl
  have hmove : Rep cfg ((listDel s .noReuse b).modifyBinfo (s.data b).binfo fun info =>
        {info with damped := true}) _ [b] :=
    hdel.modifyBinfo (fun _ => rfl) (.inr ⟨b,.head _,by rw [data_listDel]⟩)
  rw [listDel_modifyBinfo]
  refine rep_bgpReuseListAdd hmove not_mem_nil ?_
  rw [data_listDel_modifyBinfo,binfo_modifyBinfo_self]

theorem modifyBinfo_modifyBinfo (g : Binfo→Binfo) :
    (s.modifyBinfo r f).modifyBinfo r g=s.modifyBinfo r fun info => g (f info) := by
  simp [DampState.modifyBinfo]

/-- The route of a released entry. -/
def releasedBinfo (lastrecord : LastRecord) (withdraw : Bool) (info : Binfo) : Binfo where
  dampInfo := none
  damped := false
  history := false
  removed := info.removed || (lastrecord=.withdraw && withdraw)

theorem bgpDampInfoFree_eq (hpl : place s b=some name) (withdraw : Bool) :
    bgpDampInfoFree s b withdraw=some
      { (listDel s name b).modifyBinfo (s.data b).binfo
          (releasedBinfo (s.data b).lastrecord withdraw) with
        live := s.live.erase b } := by
  rw [bgpDampInfoFree]
  rw [binfo_modifyBinfo_self]
  obtain ⟨hset,i,hindex,rfl⟩|⟨hclear,rfl⟩ := place_cases hpl
  · have hindex' : ((s.modifyBinfo (s.data b).binfo fun info =>
        {info with dampInfo := none}).data b).index=some i := hindex
    rw [if_pos hset,bgpReuseListDelete_of_index hindex',map_some,listDel_modifyBinfo,
      modifyBinfo_modifyBinfo,data_listDel_modifyBinfo]
    rfl
  rw [hclear,if_neg Bool.false_ne_true,map_some,listDel_modifyBinfo,
    modifyBinfo_modifyBinfo,data_listDel_modifyBinfo]
  rfl

theorem bgpDampInfoFree_spec (h : Rep cfg s lists away) (hlive : b∈s.live) (haway : b ∉ away)
    (hpl : place s b=some name) (withdraw : Bool) :
    ∃ s', bgpDampInfoFree s b withdraw=some s' ∧
      Rep cfg s' (update lists name ((lists name).erase b)) away ∧
      s'.live=s.live.erase b := by
  have hdel := h.listDel hlive haway hpl
  have hrelease : Rep cfg
      { (listDel s name b).modifyBinfo ((listDel s name b).data b).binfo
          (releasedBinfo (s.data b).lastrecord withdraw) with
        live := (listDel s name b).live.erase b } _ away :=
    hdel.release haway (fun _ => rfl) fun _ => rfl
  rw [data_listDel] at hrelease
  exact ⟨_,bgpDampInfoFree_eq hpl withdraw,hrelease,rfl⟩

/-- The lists are in order after the call. -/
def Keeps (cfg : DampConfig) (s' : Option DampState) : Prop :=
  ∃ t lists, s'=some t ∧ Rep cfg t lists []

theorem keeps_some {α : Type} (h : Rep cfg s lists []) (x : α) :
    Keeps cfg ((some (s,x)).map Prod.fst) := ⟨s,lists,rfl,h⟩

theorem rep_touch (h : Rep cfg s lists away) {r : ℕ} {f : DampInfo→DampInfo} {g : Binfo→Binfo}
    (hbinfo : ∀ d, (f d).binfo=d.binfo) (hindex : ∀ d, (f d).index=d.index)
    (hinfo : ∀ info, (g info).dampInfo=info.dampInfo) (hflag : ∀ info, (g info).damped=info.damped) :
    Rep cfg ((s.modifyData b f).modifyBinfo r g) lists away :=
  (h.modifyData hbinfo (.inr hindex)).modifyBinfo hinfo (.inl hflag)

section

variable (h : Rep cfg s lists [])
include h

theorem withdrawMove_keeps (hlive : b∈s.live) (lastPenalty : ℕ) (now : ℤ) :
    Keeps cfg ((withdrawMove cfg s b lastPenalty now).map Prod.fst) := by
  rw [withdrawMove]
  by_cases hflag : (s.binfo (s.data b).binfo).damped=true
  · rw [if_pos hflag]
    split
    · obtain ⟨name,hpl,-⟩ := h.placed b hlive not_mem_nil
      obtain ⟨-,i,hindex,rfl⟩|⟨hclear,-⟩ := place_cases hpl
      · have hdel := h.listDel hlive not_mem_nil hpl
        obtain ⟨lists',hadd⟩ := rep_bgpReuseListAdd hdel not_mem_nil
          (by rw [data_listDel]; exact hflag)
        rw [bgpReuseListDelete_of_index hindex]
        exact ⟨_,lists',rfl,hadd⟩
      rw [hflag] at hclear
      cases hclear
    · exact ⟨s,lists,rfl,h⟩
  · rw [if_neg hflag]
    split
    · have hdata : Rep cfg (s.modifyData b fun d => {d with suppressTime := now}) lists [] :=
        h.modifyData (fun _ => rfl) (.inr fun _ => rfl)
      have hroute := binfo_data_modifyData s b
        (f := fun d => {d with suppressTime := now}) (fun _ => rfl) b
      obtain ⟨lists',hadd⟩ := rep_suppress hdata hlive (b := b)
        (by rw [hroute]; exact Bool.eq_false_of_not_eq_true hflag)
      rw [hroute] at hadd
      exact ⟨_,lists',rfl,hadd⟩
    · exact ⟨s,lists,rfl,h⟩

theorem withdrawRecord_keeps {rn : ℕ} (hlive : b∈s.live) (hrn : (s.data b).rn=rn)
    (hbinfo : (s.data b).binfo=binfo) (lastPenalty : ℕ) (now : ℤ) :
    Keeps cfg ((withdrawRecord cfg s binfo rn b lastPenalty now).map Prod.fst) := by
  rw [withdrawRecord,if_pos ⟨hrn.symm,hbinfo.symm⟩]
  refine withdrawMove_keeps (rep_touch h ?_ ?_ ?_ ?_) hlive lastPenalty now
  all_goals exact fun _ => rfl

/-- A new entry is on `no_reuse_list`. -/
theorem newDampInfo_spec (hfresh : b ∉ s.live) (hinfo : (s.binfo binfo).dampInfo=none) (rn : ℕ)
    (attrChange : Bool) :
    (∃ lists', Rep cfg (newDampInfo s binfo rn attrChange b) lists' []) ∧
      b∈(newDampInfo s binfo rn attrChange b).live ∧
      ((newDampInfo s binfo rn attrChange b).data b).rn=rn ∧
      ((newDampInfo s binfo rn attrChange b).data b).binfo=binfo := by
  have hdata : (newDampInfo s binfo rn attrChange b).data b =
      ⟨withdrawPenalty attrChange,0,0,binfo,rn,none,.none⟩ := by
    rw [newDampInfo,data_listAdd]
    exact congrArg Node.data (update_self b _ s.bdi)
  refine ⟨?_,Finset.mem_insert_self b s.live,by rw [hdata],by rw [hdata]⟩
  have hclear := Bool.eq_false_of_not_eq_true fun hset => h.damped binfo hset hinfo
  have hnode : (Node.mk none none ⟨withdrawPenalty attrChange,0,0,binfo,rn,none,.none⟩ :
      Node DampInfo).data.binfo=binfo := rfl
  have halloc := h.alloc hfresh hinfo hnode
  rw [newDampInfo,data_listAdd] at hdata
  have hrange : InRange cfg .noReuse := trivial
  refine ⟨_,halloc.listAdd not_mem_nil ?_ hrange⟩
  rw [place,hdata,binfo_modifyBinfo_self]
  exact if_neg (by rw [hclear]; exact Bool.false_ne_true)

theorem bgpDampWithdraw_keeps {rn fresh : ℕ} (hfresh : fresh ∉ s.live)
    (hrn : ∀ b∈(s.binfo binfo).dampInfo, (s.data b).rn=rn) (attrChange : Bool) (now : ℤ) :
    Keeps cfg ((bgpDampWithdraw cfg s binfo rn attrChange now fresh).map Prod.fst) := by
  rw [bgpDampWithdraw]
  cases hinfo : (s.binfo binfo).dampInfo with
  | none =>
    obtain ⟨⟨lists',hnew⟩,hlive,hnode,hroute⟩ := newDampInfo_spec h hfresh hinfo rn attrChange
    exact withdrawRecord_keeps hnew hlive hnode hroute 0 now
  | some b =>
    obtain ⟨hlive,hroute⟩ := h.owned hinfo
    have hdata := h.modifyData (b := b) (f := fun d => {d with
        penalty :=
          min (cfg.decay (now-d.tUpdated) d.penalty+withdrawPenalty attrChange) cfg.ceiling})
      (fun _ => rfl) (.inr fun _ => rfl)
    refine withdrawRecord_keeps hdata hlive ?_ ?_ _ now
    · rw [data_modifyData_self]
      exact hrn b hinfo
    rw [data_modifyData_self]
    exact hroute

theorem bgpDampInfoFree_keeps (hlive : b∈s.live) (withdraw : Bool) :
    Keeps cfg (bgpDampInfoFree s b withdraw) := by
  obtain ⟨name,hpl,-⟩ := h.placed b hlive not_mem_nil
  obtain ⟨s',hfree,hrep,-⟩ := bgpDampInfoFree_spec h hlive not_mem_nil hpl withdraw
  exact ⟨s',_,hfree,hrep⟩

theorem updateRelease_keeps (hlive : b∈s.live) (now : ℤ) (status : DampStatus) :
    Keeps cfg ((updateRelease cfg s b now status).map Prod.fst) := by
  rw [updateRelease]
  split
  · refine keeps_some (h.modifyData ?_ (.inr ?_)) status
    all_goals exact fun _ => rfl
  obtain ⟨s',lists',hfree,hrep⟩ := bgpDampInfoFree_keeps h hlive false
  rw [hfree]
  exact ⟨s',lists',rfl,hrep⟩

theorem bgpDampUpdate_keeps (binfo : ℕ) (now : ℤ) :
    Keeps cfg ((bgpDampUpdate cfg s binfo now).map Prod.fst) := by
  rw [bgpDampUpdate]
  cases hinfo : (s.binfo binfo).dampInfo with
  | none => exact ⟨s,lists,rfl,h⟩
  | some b =>
    obtain ⟨hlive,hroute⟩ := h.owned hinfo
    dsimp only
    rw [updateEntry]
    have htouch := rep_touch h (b := b) (r := binfo) (f := fun d => {d with
        lastrecord := .update
        penalty := cfg.decay (now-d.tUpdated) d.penalty})
      (g := fun info => {info with history := false})
      (fun _ => rfl) (fun _ => rfl) (fun _ => rfl) fun _ => rfl
    rw [←modifyData_modifyBinfo]
    generalize hs1 : (s.modifyData b fun d => {d with
      lastrecord := .update
      penalty := cfg.decay (now-d.tUpdated) d.penalty}).modifyBinfo binfo
        (fun info => {info with history := false})=s1 at htouch
    have hlive1 : b∈s1.live := by
      rw [←hs1]
      exact hlive
    have hroute1 : (s1.data b).binfo=binfo := by
      rw [←hs1]
      rw [data_modifyBinfo,data_modifyData_self]
      exact hroute
    dsimp only
    split
    · exact updateRelease_keeps htouch hlive1 now .used
    split
    · next hflag =>
      obtain ⟨s',lists',hdel,hlive',hdata',hadd⟩ := rep_unsuppress htouch hlive1 hflag.1
      rw [hroute1] at hdel
      rw [hdel,bind_some]
      have hlive2 : b∈s'.live := by
        rw [hlive']
        exact hlive1
      refine updateRelease_keeps (hadd.modifyData ?_ (.inr ?_)) hlive2 now .used
      all_goals exact fun _ => rfl
    · exact updateRelease_keeps htouch hlive1 now .suppressed

theorem bgpDampScan_keeps (hinfo : (s.binfo binfo).dampInfo≠none) (now : ℤ) :
    Keeps cfg ((bgpDampScan cfg s binfo now).map Prod.fst) := by
  obtain ⟨b,hb⟩ := ne_none_iff_exists'.mp hinfo
  obtain ⟨hlive,hroute⟩ := h.owned hb
  rw [bgpDampScan,hb,bind_some,scanEntry]
  split
  · next hflag =>
    split
    · rw [←hroute] at hflag
      obtain ⟨s',lists',hdel,-,-,hadd⟩ := rep_unsuppress h hlive hflag
      rw [hroute] at hdel
      dsimp only
      rw [hdel,map_some]
      refine keeps_some (hadd.modifyData ?_ (.inr ?_)) _
      all_goals exact fun _ => rfl
    · exact ⟨s,lists,rfl,h⟩
  have hdata := h.modifyData (b := b)
    (f := fun d => {d with penalty := cfg.decay (now-d.tUpdated) d.penalty})
    (fun _ => rfl) (.inr fun _ => rfl)
  dsimp only
  split
  · obtain ⟨s',lists',hfree,hrep⟩ := bgpDampInfoFree_keeps hdata hlive true
    rw [hfree]
    exact ⟨s',lists',rfl,hrep⟩
  refine keeps_some (hdata.modifyData ?_ (.inr ?_)) false
  all_goals exact fun _ => rfl

end

theorem length_le_card {l : List ℕ} {live : Finset ℕ} (hnd : l.Nodup) (h : ∀ x∈l, x∈live) :
    l.length≤live.card := by
  rw [←toFinset_card_of_nodup hnd]
  exact Finset.card_le_card fun x hx => h x (mem_toFinset.mp hx)

theorem cleanLoop_spec (rest : List ℕ) :
    ∀ (fuel : ℕ) (s : DampState) (lists : DampList → List ℕ), Rep cfg s lists [] →
      lists name=rest → rest.length≤fuel →
      ∃ s', cleanLoop fuel rest.head? s=some s' ∧ Rep cfg s' (update lists name []) [] := by
  induction rest with
  | nil =>
    intro fuel s lists h hname _
    have hsame : update lists name []=lists := by rw [←hname,update_eq_self]
    refine ⟨s,by cases fuel <;> rfl,?_⟩
    rw [hsame]
    exact h
  | cons b rest ih =>
    intro fuel s lists h hname hfuel
    have hmem : b∈lists name := by
      rw [hname]
      exact .head _
    obtain ⟨hlive,-,hpl⟩ := (h.mem name b).mp hmem
    have hlnk := h.linked name
    rw [hname] at hlnk
    have hnext : (s.bdi b).next=rest.head? := by rw [hlnk.segment.2.1,or_none]
    obtain ⟨s',hfree,hrep,-⟩ := bgpDampInfoFree_spec h hlive not_mem_nil hpl true
    obtain ⟨fuel,rfl⟩ : ∃ n, fuel=n+1 := ⟨fuel-1,by simp at hfuel; omega⟩
    have hname' : update lists name ((lists name).erase b) name=rest := by
      rw [update_self,hname,erase_cons_head]
    obtain ⟨s'',hloop,hrep'⟩ := ih fuel s' _ hrep hname' (Nat.le_of_succ_le_succ hfuel)
    refine ⟨s'',?_,by rw [update_idem] at hrep'; exact hrep'⟩
    rw [head?_cons,cleanLoop,hnext,hfree,bind_some,hloop]

theorem cleanList_spec (h : Rep cfg s lists []) (name : DampList) :
    ∃ s', cleanList s name=some s' ∧ Rep cfg s' (update lists name []) [] := by
  have hfuel := length_le_card (h.linked name).nodup fun x hx => ((h.mem name x).mp hx).1
  obtain ⟨s',hloop,hrep⟩ := cleanLoop_spec (lists name) s.live.card s lists h rfl hfuel
  rw [cleanList,h.head name,hloop]
  refine ⟨_,rfl,?_⟩
  have hhead : s'.list name=none := by
    rw [hrep.head name,update_self]
    rfl
  dsimp only
  rw [←hhead,update_eq_self]
  exact hrep

theorem cleanReuse_spec (n : ℕ) (h : Rep cfg s lists []) : Keeps cfg (cleanReuse n s) := by
  induction n with
  | zero => exact ⟨s,lists,rfl,h⟩
  | succ n ih =>
    obtain ⟨s',lists',hclean,hrep⟩ := ih
    obtain ⟨s'',hlist,hrep'⟩ := cleanList_spec hrep (.reuse n)
    rw [cleanReuse,hclean,bind_some]
    exact ⟨s'',_,hlist,hrep'⟩

theorem rep_reuseOffset (h : Rep cfg s lists away) (offset : ℕ) :
    Rep cfg {s with reuseOffset := offset} lists away :=
  { head := h.head,linked := h.linked,mem := h.mem,placed := h.placed
    away_live := h.away_live,owner := h.owner,owned := h.owned,damped := h.damped }

theorem bgpDampInfoClean_keeps (h : Rep cfg s lists []) : Keeps cfg (bgpDampInfoClean cfg s) := by
  obtain ⟨s',lists',hclean,hrep⟩ := cleanReuse_spec cfg.reuseListSize (rep_reuseOffset h 0)
  obtain ⟨s'',hlist,hrep'⟩ := cleanList_spec hrep .noReuse
  rw [bgpDampInfoClean,hclean,bind_some]
  exact ⟨s'',_,hlist,hrep'⟩

/-- The timer would release the entry. -/
def TimerReleases (cfg : DampConfig) (now : ℤ) (s : DampState) (b : ℕ) : Prop :=
  cfg.decay (now-(s.data b).tUpdated) (s.data b).penalty<cfg.reuseLimit ∧
    2*cfg.decay (now-(s.data b).tUpdated) (s.data b).penalty≤cfg.reuseLimit

instance decidableTimerReleases (now : ℤ) (b : ℕ) : Decidable (TimerReleases cfg now s b) :=
  inferInstanceAs (Decidable (_ ∧ _))

/-- An entry of the detached list, before its turn. -/
structure Waiting (cfg : DampConfig) (now : ℤ) (s : DampState) (b : ℕ) : Prop where
  damped : (s.binfo (s.data b).binfo).damped=true
  keeps : ¬TimerReleases cfg now s b

/-- The other entries are not touched. -/
structure Untouched (s s' : DampState) (x : ℕ) : Prop where
  next : (s'.bdi x).next=(s.bdi x).next
  prev : (s'.bdi x).prev=(s.bdi x).prev
  data : s'.data x=s.data x
  binfo : s'.binfo (s.data x).binfo=s.binfo (s.data x).binfo

theorem Untouched.trans {s' s'' : DampState} (h : Untouched s s' x) (h' : Untouched s' s'' x) :
    Untouched s s'' x where
  next := h'.next.trans h.next
  prev := h'.prev.trans h.prev
  data := h'.data.trans h.data
  binfo := by
    have hbinfo := h'.binfo
    rw [h.data] at hbinfo
    exact hbinfo.trans h.binfo

theorem Waiting.congr {s' : DampState} (h : Waiting cfg now s x) (hsame : Untouched s s' x) :
    Waiting cfg now s' x where
  damped := by
    rw [hsame.data,hsame.binfo]
    exact h.damped
  keeps := by
    rw [TimerReleases,hsame.data]
    exact h.keeps

theorem untouched_modifyData (hx : x≠b) (f : DampInfo → DampInfo) :
    Untouched s (s.modifyData b f) x where
  next := (links_modifyData s b f x).1
  prev := (links_modifyData s b f x).2
  data := data_modifyData_of_ne s b f hx
  binfo := rfl

theorem untouched_modifyBinfo {r : ℕ} (hx : (s.data x).binfo≠r) (f : Binfo → Binfo) :
    Untouched s (s.modifyBinfo r f) x where
  next := rfl
  prev := rfl
  data := rfl
  binfo := binfo_modifyBinfo_of_ne s r f hx

theorem untouched_listAdd (hx : x≠b) (hhead : s.list name≠some x) :
    Untouched s (listAdd s name b) x where
  next := (links_attachHead hx hhead).1
  prev := (links_attachHead hx hhead).2
  data := data_listAdd s name b x
  binfo := rfl

theorem head_ne_of_away (h : Rep cfg s lists away) (hx : x∈away) (name : DampList) :
    s.list name≠some x := by
  intro he
  rw [h.head name] at he
  exact ((h.mem name x).mp (mem_of_head? he)).2.1 hx

variable {rest : List ℕ}

section

variable (h : Rep cfg s lists (b::rest)) (hnot : b ∉ rest)
include h hnot

theorem listAdd_noReuse_spec (hflag : (s.binfo (s.data b).binfo).damped=false) :
    (∃ lists', Rep cfg (listAdd s .noReuse b) lists' rest) ∧
      ∀ x∈rest, Untouched s (listAdd s .noReuse b) x := by
  have hpl : place s b=some .noReuse := by
    rw [place,hflag]
    rfl
  refine ⟨⟨_,h.listAdd hnot hpl trivial⟩,fun x hx => ?_⟩
  exact untouched_listAdd (fun he => hnot (he ▸ hx)) (head_ne_of_away h (mem_cons_of_mem b hx) _)

theorem bgpReuseListAdd_spec (hflag : (s.binfo (s.data b).binfo).damped=true) :
    (∃ lists', Rep cfg (bgpReuseListAdd cfg s b) lists' rest) ∧
      ∀ x∈rest, Untouched s (bgpReuseListAdd cfg s b) x := by
  refine ⟨rep_bgpReuseListAdd h hnot hflag,fun x hx => ?_⟩
  have hne : x≠b := fun he => hnot (he ▸ hx)
  exact (untouched_modifyData hne _).trans
    (untouched_listAdd hne (head_ne_of_away h (mem_cons_of_mem b hx) _))

theorem reuseRoute_spec
    {f : DampInfo → DampInfo} {g : Binfo → Binfo} (hbinfo : ∀ d, (f d).binfo=d.binfo)
    (hinfo : ∀ info, (g info).dampInfo=info.dampInfo) (hflag : ∀ info, (g info).damped=false) :
    ∃ s' lists', listAdd ((s.modifyBinfo (s.data b).binfo g).modifyData b f) .noReuse b=s' ∧
      Rep cfg s' lists' rest ∧ ∀ x∈rest, Untouched s s' x := by
  have hmove := (h.modifyBinfo hinfo (.inr ⟨b,.head _,rfl⟩)).modifyData hbinfo (.inl mem_cons_self)
  have hclear : (((s.modifyBinfo (s.data b).binfo g).modifyData b f).binfo
      (((s.modifyBinfo (s.data b).binfo g).modifyData b f).data b).binfo).damped=false := by
    rw [data_modifyData_self,hbinfo,data_modifyBinfo]
    exact (congrArg Binfo.damped (binfo_modifyBinfo_self s _ g)).trans (hflag _)
  obtain ⟨⟨lists',hrep⟩,hsame⟩ := listAdd_noReuse_spec hmove hnot hclear
  refine ⟨_,lists',rfl,hrep,fun x hx => ?_⟩
  have hne : x≠b := fun he => hnot (he ▸ hx)
  have hroute := h.binfo_ne (h.away_live b mem_cons_self) (h.away_live x (mem_cons_of_mem b hx)) hne
  exact ((untouched_modifyBinfo hroute g).trans (untouched_modifyData hne f)).trans (hsame x hx)

end

/-- One turn of the timer that does not release the entry. -/
theorem reuseTimerTurn_spec (h : Rep cfg s lists (b::rest)) (hnot : b ∉ rest)
    (hwait : Waiting cfg now s b) :
    ∃ s' lists', reuseTimerTurn cfg now s b=some s' ∧ Rep cfg s' lists' rest ∧
      ∀ x∈rest, Untouched s s' x := by
  rw [reuseTimerTurn]
  generalize hs1 : (s.modifyData b fun d => {d with
    penalty := cfg.decay (now-d.tUpdated) d.penalty,tUpdated := now})=s1
  have hrep : Rep cfg s1 lists (b::rest) := by
    rw [←hs1]
    refine h.modifyData ?_ (.inl mem_cons_self)
    exact fun _ => rfl
  have hsame : ∀ x∈rest, Untouched s s1 x := by
    intro x hx
    have hne : x≠b := fun he => hnot (he ▸ hx)
    rw [←hs1]
    exact untouched_modifyData hne _
  have hpenalty : (s1.data b).penalty = cfg.decay (now-(s.data b).tUpdated) (s.data b).penalty := by
    rw [←hs1,data_modifyData_self]
  have hflag : (s1.binfo (s1.data b).binfo).damped=true := by
    rw [←hs1,data_modifyData_self]
    exact hwait.damped
  dsimp only
  by_cases hlow : (s1.data b).penalty<cfg.reuseLimit
  · have hkeep : ¬2*(s1.data b).penalty≤cfg.reuseLimit := by
      intro hrelease
      rw [hpenalty] at hlow hrelease
      exact hwait.keeps ⟨hlow,hrelease⟩
    have hpenalty' : ∀ g, (((s1.modifyBinfo (s1.data b).binfo g).modifyData b fun d =>
        {d with suppressTime := 0}).data b).penalty=(s1.data b).penalty := by
      intro g
      rw [data_modifyData_self]
      rfl
    rw [if_pos hlow]
    by_cases hrecord : (((s1.modifyBinfo (s1.data b).binfo fun info =>
        {info with damped := false}).modifyData b fun d =>
          {d with suppressTime := 0}).data b).lastrecord=.update
    · have hcomm : (((s1.modifyBinfo (s1.data b).binfo fun info =>
          {info with damped := false}).modifyData b fun d =>
            {d with suppressTime := 0}).modifyBinfo (s1.data b).binfo fun info =>
              {info with history := false}) =
          ((s1.modifyBinfo (s1.data b).binfo fun info =>
            {info with damped := false,history := false}).modifyData b fun d =>
              {d with suppressTime := 0}) := by
        rw [modifyData_modifyBinfo,modifyBinfo_modifyBinfo]
      rw [if_pos hrecord,hcomm,hpenalty',if_neg hkeep]
      obtain ⟨s',lists',hadd,hrep',hsame'⟩ := reuseRoute_spec hrep hnot
        (f := fun d => {d with suppressTime := 0})
        (g := fun info => {info with damped := false,history := false})
        (fun _ => rfl) (fun _ => rfl) fun _ => rfl
      rw [hadd]
      exact ⟨s',lists',rfl,hrep',fun x hx => (hsame x hx).trans (hsame' x hx)⟩
    · rw [if_neg hrecord,hpenalty',if_neg hkeep]
      obtain ⟨s',lists',hadd,hrep',hsame'⟩ := reuseRoute_spec hrep hnot
        (f := fun d => {d with suppressTime := 0})
        (g := fun info => {info with damped := false})
        (fun _ => rfl) (fun _ => rfl) fun _ => rfl
      rw [hadd]
      exact ⟨s',lists',rfl,hrep',fun x hx => (hsame x hx).trans (hsame' x hx)⟩
  · rw [if_neg hlow]
    obtain ⟨⟨lists',hadd⟩,hsame'⟩ := bgpReuseListAdd_spec hrep hnot hflag
    exact ⟨_,lists',rfl,hadd,fun x hx => (hsame x hx).trans (hsame' x hx)⟩

theorem reuseTimerLoop_spec (rest : List ℕ) :
    ∀ (fuel : ℕ) (p : Option ℕ) (s : DampState) (lists : DampList → List ℕ),
      Rep cfg s lists rest → rest.Nodup→Segment s.bdi p rest none →
      (∀ x∈rest, Waiting cfg now s x) → rest.length≤fuel →
      Keeps cfg (reuseTimerLoop cfg now fuel rest.head? s) := by
  induction rest with
  | nil =>
    intro fuel p s lists h _ _ _ _
    exact ⟨s,lists,by cases fuel <;> rfl,h⟩
  | cons b rest ih =>
    intro fuel p s lists h hnd hseg hwait hfuel
    obtain ⟨hnot,hnd'⟩ := nodup_cons.mp hnd
    obtain ⟨-,hnext,hseg'⟩ := hseg
    rw [or_none] at hnext
    obtain ⟨s',lists',hturn,hrep,hsame⟩ := reuseTimerTurn_spec h hnot (hwait b mem_cons_self)
    obtain ⟨fuel,rfl⟩ : ∃ n, fuel=n+1 := ⟨fuel-1,by simp at hfuel; omega⟩
    rw [head?_cons,reuseTimerLoop,hnext,hturn,bind_some]
    refine ih fuel (some b) s' lists' hrep hnd' ?_ ?_ (Nat.le_of_succ_le_succ hfuel)
    · exact hseg'.congr fun x hx => ⟨(hsame x hx).next,(hsame x hx).prev⟩
    · exact fun x hx => (hwait x (mem_cons_of_mem b hx)).congr (hsame x hx)

theorem rep_detachList (h : Rep cfg s lists []) (name : DampList) (offset : ℕ) : Rep cfg
      {s with list := update s.list name none,reuseOffset := offset}
      (update lists name []) (lists name) where
  head name' := by
    dsimp only
    by_cases hname : name'=name
    · rw [hname,update_self,update_self,head?_nil]
    · rw [update_of_ne hname,update_of_ne hname,h.head]
  linked name' := by
    by_cases hname : name'=name
    · rw [hname,update_self]
      exact ⟨trivial,nodup_nil⟩
    rw [update_of_ne hname]
    exact h.linked name'
  mem name' x := by
    have hpl : place {s with list := update s.list name none,reuseOffset := offset} x =
        place s x := rfl
    rw [hpl,h.mem name]
    by_cases hname : name'=name
    · rw [hname,update_self]
      refine iff_of_false not_mem_nil ?_
      rintro ⟨hx,hnot,hp⟩
      exact hnot ⟨hx,not_mem_nil,hp⟩
    rw [update_of_ne hname,h.mem]
    refine and_congr_right fun _ => and_congr_left fun hp => ?_
    refine iff_of_true not_mem_nil ?_
    rintro ⟨-,-,hp'⟩
    rw [hp] at hp'
    exact hname (some.inj hp')
  placed x hx _ := h.placed x hx not_mem_nil
  away_live x hx := ((h.mem name x).mp hx).1
  owner := h.owner
  owned := h.owned
  damped := h.damped

theorem bgpReuseTimer_keeps (h : Rep cfg s lists []) {now : ℤ}
    (hkeeps : ∀ b∈s.live, place s b=some (.reuse s.reuseOffset) → ¬TimerReleases cfg now s b) :
    Keeps cfg (bgpReuseTimer cfg now s) := by
  have hlnk := h.linked (.reuse s.reuseOffset)
  have hdetach := rep_detachList h (.reuse s.reuseOffset) ((s.reuseOffset+1)%cfg.reuseListSize)
  rw [bgpReuseTimer,h.head]
  refine reuseTimerLoop_spec _ _ none _ _ hdetach hlnk.nodup hlnk.segment (fun x hx => ?_) ?_
  · obtain ⟨hlive,-,hpl⟩ := (h.mem _ x).mp hx
    obtain ⟨hset,-⟩|⟨-,hname⟩ := place_cases hpl
    · exact ⟨hset,hkeeps x hlive hpl⟩
    · cases hname
  · exact length_le_card hlnk.nodup fun x hx => ((h.mem _ x).mp hx).1

end RoutePlatform.DampProcessing
