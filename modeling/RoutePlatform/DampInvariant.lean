import RoutePlatform.DampOperations

/-!
# The lists of the dampening code

An entry belongs on the list that the flag of its route and its index name. The invariant says
which entries are on the way between lists. Unlinking, changing and linking an entry are proved
once, and every function is a composition of them.
-/

namespace RoutePlatform.DampInvariant

open LinkedNodes DampOperations Function List Option

variable {b : ℕ} {name : DampList}

/-- The list an entry belongs on. -/
def place (s : DampState) (b : ℕ) : Option DampList :=
  if (s.binfo (s.data b).binfo).damped then (s.data b).index.map .reuse else some .noReuse

def InRange (cfg : DampConfig) : DampList→Prop
  | .reuse i => i<cfg.reuseListSize
  | .noReuse => True

/-- The lists hold the allocated entries, each on its place, but for those on
the way. -/
structure Rep (cfg : DampConfig) (s : DampState) (lists : DampList→List ℕ) (away : List ℕ) :
    Prop where
  head : ∀ name, s.list name=(lists name).head?
  linked : ∀ name, Linked s.bdi (lists name)
  mem : ∀ name b, b∈lists name ↔ b∈s.live ∧ b ∉ away ∧ place s b=some name
  placed : ∀ b∈s.live, b ∉ away → ∃ name, place s b=some name ∧ InRange cfg name
  away_live : ∀ b∈away, b∈s.live
  owner : ∀ b∈s.live, (s.binfo (s.data b).binfo).dampInfo=some b
  owned : ∀ {r b}, (s.binfo r).dampInfo=some b → b∈s.live ∧ (s.data b).binfo=r
  damped : ∀ r, (s.binfo r).damped=true → (s.binfo r).dampInfo≠none

section

variable (s : DampState) (name : DampList) (b : ℕ) (f : DampInfo→DampInfo) (x : ℕ) (r : ℕ)

@[simp] theorem data_listAdd : (listAdd s name b).data x=s.data x := data_attachHead _ _ _ _

@[simp] theorem data_listDel : (listDel s name b).data x=s.data x := data_unlink _ _ _

theorem data_modifyData_self : (s.modifyData b f).data b=f (s.data b) := by
  rw [DampState.data,DampState.modifyData]
  dsimp only
  rw [update_self,DampState.data]

theorem data_modifyData_of_ne (f : DampInfo → DampInfo) {x : ℕ} (hx : x≠b) :
    (s.modifyData b f).data x=s.data x := by
  rw [DampState.data,DampState.modifyData]
  dsimp only
  rw [update_of_ne hx,DampState.data]

theorem links_modifyData :
    ((s.modifyData b f).bdi x).next=(s.bdi x).next ∧
      ((s.modifyData b f).bdi x).prev=(s.bdi x).prev := by
  rw [DampState.modifyData]
  dsimp only
  by_cases hx : x=b
  · rw [hx,update_self]
    exact ⟨rfl,rfl⟩
  rw [update_of_ne hx]
  exact ⟨rfl,rfl⟩

theorem binfo_modifyBinfo_self (f : Binfo→Binfo) :
    (s.modifyBinfo r f).binfo r=f (s.binfo r) := update_self ..

theorem binfo_modifyBinfo_of_ne (f : Binfo → Binfo) {x : ℕ} (hx : x≠r) :
    (s.modifyBinfo r f).binfo x=s.binfo x := update_of_ne hx ..

theorem binfo_data_modifyData {f : DampInfo → DampInfo} (hf : ∀ d, (f d).binfo=d.binfo) (x : ℕ) :
    ((s.modifyData b f).data x).binfo=(s.data x).binfo := by
  by_cases hx : x=b
  · rw [hx,data_modifyData_self,hf]
  · rw [data_modifyData_of_ne s b f hx]

end

section

variable {cfg : DampConfig} {s : DampState} {lists : DampList→List ℕ} {away : List ℕ}

section

variable (h : Rep cfg s lists away)
include h

theorem Rep.disjoint {name' : DampList} (hne : name'≠name) {y : ℕ} (hy : y∈lists name') :
    y ∉ lists name := by
  intro hy'
  have h1 := ((h.mem name' y).mp hy).2.2
  have h2 := ((h.mem name y).mp hy').2.2
  rw [h1] at h2
  exact hne (some.inj h2)

theorem Rep.binfo_ne {b' : ℕ} (hb : b∈s.live) (hb' : b'∈s.live) (hne : b'≠b) :
    (s.data b').binfo≠(s.data b).binfo := by
  intro he
  have h1 := h.owner b' hb'
  rw [he,h.owner b hb] at h1
  exact hne (some.inj h1).symm

/-- An entry on a list keeps its index; an entry on the way may change it. -/
theorem Rep.modifyData {f : DampInfo→DampInfo} (hbinfo : ∀ d, (f d).binfo=d.binfo)
    (hindex : b∈away ∨ ∀ d, (f d).index=d.index) : Rep cfg (s.modifyData b f) lists away := by
  have hpl : ∀ x, x ∉ away → place (s.modifyData b f) x=place s x := by
    intro x hx
    rw [place,binfo_data_modifyData s b hbinfo,place]
    have hidx : ((s.modifyData b f).data x).index=(s.data x).index := by
      by_cases hxb : x=b
      · subst hxb
        rw [data_modifyData_self,hindex.resolve_left hx]
      · rw [data_modifyData_of_ne s b f hxb]
    rw [hidx]
    rfl
  refine
    { head := h.head
      linked := fun name => (h.linked name).congr fun x _ => links_modifyData s b f x
      mem := fun name x => ?_
      placed := fun x hx haway => ?_
      away_live := h.away_live
      owner := fun x hx => ?_
      owned := fun hr => ?_
      damped := h.damped }
  · rw [h.mem]
    refine and_congr_right fun _ => and_congr_right fun haway => ?_
    rw [hpl x haway]
  · rw [hpl x haway]
    exact h.placed x hx haway
  · rw [binfo_data_modifyData s b hbinfo]
    exact h.owner x hx
  rw [binfo_data_modifyData s b hbinfo]
  exact h.owned hr

/-- The flag of a route may change while its entry is on the way. -/
theorem Rep.modifyBinfo {r : ℕ} {f : Binfo→Binfo} (hinfo : ∀ info, (f info).dampInfo=info.dampInfo)
    (hflag : (∀ info, (f info).damped=info.damped) ∨ ∃ b∈away, (s.data b).binfo=r) :
    Rep cfg (s.modifyBinfo r f) lists away := by
  have hdampInfo : ∀ x, ((s.modifyBinfo r f).binfo x).dampInfo=(s.binfo x).dampInfo := by
    intro x
    by_cases hx : x=r
    · rw [hx,binfo_modifyBinfo_self,hinfo]
    · rw [binfo_modifyBinfo_of_ne s r f hx]
  have hpl : ∀ x∈s.live, x ∉ away → place (s.modifyBinfo r f) x=place s x := by
    intro x hx haway
    have hdata : (s.modifyBinfo r f).data x=s.data x := rfl
    rw [place,place,hdata]
    by_cases hxr : (s.data x).binfo=r
    · have hkeep : ∀ info, (f info).damped=info.damped := by
        refine hflag.resolve_right ?_
        rintro ⟨b,hb,hbr⟩
        have hne : x≠b := fun he => haway (he ▸ hb)
        exact h.binfo_ne (h.away_live b hb) hx hne (hxr.trans hbr.symm)
      rw [hxr,binfo_modifyBinfo_self,hkeep]
    · rw [binfo_modifyBinfo_of_ne s r f hxr]
  refine
    { head := h.head
      linked := h.linked
      mem := fun name x => ?_
      placed := fun x hx haway => ?_
      away_live := h.away_live
      owner := fun x hx => ?_
      owned := fun {x b} hr => ?_
      damped := fun x hx => ?_ }
  · rw [h.mem]
    refine and_congr_right fun hx => and_congr_right fun haway => ?_
    rw [hpl x hx haway]
  · rw [hpl x hx haway]
    exact h.placed x hx haway
  · rw [hdampInfo]
    exact h.owner x hx
  · rw [hdampInfo] at hr
    exact h.owned hr
  rw [hdampInfo]
  by_cases hxr : x=r
  · rcases hflag with hkeep|⟨b,hb,hbr⟩
    · rw [hxr,binfo_modifyBinfo_self,hkeep,←hxr] at hx
      exact h.damped x hx
    rw [hxr,←hbr,h.owner b (h.away_live b hb)]
    exact some_ne_none b
  rw [binfo_modifyBinfo_of_ne s r f hxr] at hx
  exact h.damped x hx

end

theorem place_listDel (name : DampList) (b x : ℕ) : place (listDel s name b) x=place s x := by
  rw [place,data_listDel,place]
  rfl

theorem place_listAdd (name : DampList) (b x : ℕ) : place (listAdd s name b) x=place s x := by
  rw [place,data_listAdd,place]
  rfl

theorem Rep.listDel (h : Rep cfg s lists away) (hlive : b∈s.live) (haway : b ∉ away)
    (hpl : place s b=some name) :
    Rep cfg (listDel s name b) (update lists name ((lists name).erase b)) (b::away) := by
  obtain ⟨as,bs,hsplit⟩ := append_of_mem ((h.mem name b).mpr ⟨hlive,haway,hpl⟩)
  have hlnk := h.linked name
  rw [hsplit] at hlnk
  obtain ⟨hprev,hnext⟩ := hlnk.neighbours
  have hnot : b ∉ as := fun hb => (nodup_append.mp hlnk.nodup).2.2 b hb b mem_cons_self rfl
  have herase : (lists name).erase b=as++bs := by
    rw [hsplit,erase_append_right _ hnot,erase_cons_head]
  refine
    { head := fun name' => ?_
      linked := fun name' => ?_
      mem := fun name' x => ?_
      placed := fun x hx hxa => ?_
      away_live := fun x hx => ?_
      owner := fun x hx => ?_
      owned := fun {r x} hr => ?_
      damped := h.damped }
  · by_cases hname : name'=name
    · subst hname
      rw [update_self,herase,DampOperations.listDel]
      dsimp only
      cases as with
      | nil => rw [hprev,getLast?_nil,if_pos rfl,update_self,hnext,nil_append]
      | cons a as =>
        rw [hprev,if_neg (by simp),h.head,hsplit]
        rfl
    rw [update_of_ne hname,←h.head,DampOperations.listDel]
    dsimp only
    split
    · rw [update_of_ne hname]
    · rfl
  · by_cases hname : name'=name
    · subst hname
      rw [update_self,herase]
      exact hlnk.unlink
    rw [update_of_ne hname]
    refine hlnk.unlink_other (h.linked name') fun y hy => ?_
    rw [←hsplit]
    exact h.disjoint hname hy
  · rw [place_listDel,mem_cons,not_or]
    by_cases hname : name'=name
    · subst hname
      rw [update_self,(h.linked name').nodup.mem_erase_iff,h.mem]
      exact and_left_comm.trans (and_congr_right fun _ => and_assoc.symm)
    rw [update_of_ne hname,h.mem]
    refine and_congr_right fun _ => ?_
    constructor
    · rintro ⟨hxa,hx⟩
      refine ⟨⟨fun he => ?_,hxa⟩,hx⟩
      rw [he,hpl] at hx
      exact hname (some.inj hx).symm
    · rintro ⟨⟨-,hxa⟩,hx⟩
      exact ⟨hxa,hx⟩
  · rw [place_listDel]
    exact h.placed x hx fun hin => hxa (.tail _ hin)
  · rcases mem_cons.mp hx with rfl|hx
    · exact hlive
    · exact h.away_live x hx
  · rw [data_listDel]
    exact h.owner x hx
  · rw [data_listDel]
    exact h.owned hr

/-- An entry on the way is put on its list. -/
theorem Rep.listAdd (h : Rep cfg s lists (b::away)) (haway : b ∉ away)
    (hpl : place s b=some name) (hrange : InRange cfg name) :
    Rep cfg (listAdd s name b) (update lists name (b::lists name)) away := by
  have hlive := h.away_live b mem_cons_self
  have hnot : ∀ name', b ∉ lists name' := fun name' hb => ((h.mem name' b).mp hb).2.1 mem_cons_self
  refine
    { head := fun name' => ?_
      linked := fun name' => ?_
      mem := fun name' x => ?_
      placed := fun x hx hxa => ?_
      away_live := fun x hx => h.away_live x (.tail _ hx)
      owner := fun x hx => ?_
      owned := fun {r x} hr => ?_
      damped := h.damped }
  · rw [DampOperations.listAdd]
    dsimp only
    by_cases hname : name'=name
    · rw [hname,update_self,update_self,head?_cons]
    · rw [update_of_ne hname,update_of_ne hname,h.head]
  · rw [DampOperations.listAdd]
    rw [h.head name]
    by_cases hname : name'=name
    · rw [hname,update_self]
      exact (h.linked name).attachHead (hnot name)
    rw [update_of_ne hname]
    exact (h.linked name').attachHead_other (hnot name') fun y hy => h.disjoint hname hy
  · rw [place_listAdd]
    have hlive' : (DampOperations.listAdd s name b).live=s.live := rfl
    rw [hlive']
    by_cases hxb : x=b
    · subst hxb
      by_cases hname : name'=name
      · subst hname
        rw [update_self]
        exact iff_of_true mem_cons_self ⟨hlive,haway,hpl⟩
      rw [update_of_ne hname]
      refine iff_of_false (hnot name') fun hx => hname ?_
      rw [hpl] at hx
      exact (some.inj hx.2.2).symm
    have hmem : x∈update lists name (b::lists name) name' ↔ x∈lists name' := by
      by_cases hname : name'=name
      · rw [hname,update_self,mem_cons,or_iff_right hxb]
      · rw [update_of_ne hname]
    rw [hmem,h.mem,mem_cons,not_or,and_iff_right hxb]
  · rw [place_listAdd]
    by_cases hxb : x=b
    · exact ⟨name,by rw [hxb,hpl],hrange⟩
    · exact h.placed x hx fun hin => (mem_cons.mp hin).elim hxb hxa
  · rw [data_listAdd]
    exact h.owner x hx
  · rw [data_listAdd]
    exact h.owned hr

/-- A released entry leaves no trace at its route. -/
theorem Rep.release (h : Rep cfg s lists (b::away)) (haway : b ∉ away) {f : Binfo → Binfo}
    (hinfo : ∀ info, (f info).dampInfo=none) (hflag : ∀ info, (f info).damped=false) :
    Rep cfg {s.modifyBinfo (s.data b).binfo f with live := s.live.erase b} lists away := by
  have hlive := h.away_live b mem_cons_self
  have hbinfo : ∀ x∈s.live, x≠b →
      (s.modifyBinfo (s.data b).binfo f).binfo (s.data x).binfo=s.binfo (s.data x).binfo :=
    fun x hx hne => binfo_modifyBinfo_of_ne s _ f (h.binfo_ne hlive hx hne)
  have hpl : ∀ x∈s.live, x≠b →
      place {s.modifyBinfo (s.data b).binfo f with live := s.live.erase b} x=place s x := by
    intro x hx hne
    have hdamped := congrArg Binfo.damped (hbinfo x hx hne)
    rw [place,place,←hdamped]
    rfl
  refine
    { head := h.head
      linked := h.linked
      mem := fun name x => ?_
      placed := fun x hx hxa => ?_
      away_live := fun x hx => ?_
      owner := fun x hx => ?_
      owned := fun {r x} hr => ?_
      damped := fun r hr => ?_ }
  · rw [h.mem,mem_cons,not_or,Finset.mem_erase]
    constructor
    · rintro ⟨hx,⟨hne,hxa⟩,hp⟩
      exact ⟨⟨hne,hx⟩,hxa,by rw [hpl x hx hne]; exact hp⟩
    · rintro ⟨⟨hne,hx⟩,hxa,hp⟩
      rw [hpl x hx hne] at hp
      exact ⟨hx,⟨hne,hxa⟩,hp⟩
  · obtain ⟨hne,hx⟩ := Finset.mem_erase.mp hx
    rw [hpl x hx hne]
    exact h.placed x hx fun hin => (mem_cons.mp hin).elim hne hxa
  · refine Finset.mem_erase.mpr ⟨fun he => haway (he ▸ hx),?_⟩
    exact h.away_live x (.tail _ hx)
  · obtain ⟨hne,hx⟩ := Finset.mem_erase.mp hx
    exact (congrArg Binfo.dampInfo (hbinfo x hx hne)).trans (h.owner x hx)
  · have hr' : ((s.modifyBinfo (s.data b).binfo f).binfo r).dampInfo=some x := hr
    by_cases he : r=(s.data b).binfo
    · rw [he,binfo_modifyBinfo_self,hinfo] at hr'
      cases hr'
    rw [binfo_modifyBinfo_of_ne s _ f he] at hr'
    obtain ⟨hx,hxr⟩ := h.owned hr'
    refine ⟨Finset.mem_erase.mpr ⟨fun hxb => he ?_,hx⟩,hxr⟩
    rw [←hxr,hxb]
  have hr' : ((s.modifyBinfo (s.data b).binfo f).binfo r).damped=true := hr
  by_cases he : r=(s.data b).binfo
  · rw [he,binfo_modifyBinfo_self,hflag] at hr'
    cases hr'
  rw [binfo_modifyBinfo_of_ne s _ f he] at hr' ⊢
  exact h.damped r hr'

theorem Rep.alloc (h : Rep cfg s lists away) {r : ℕ} (hfresh : b ∉ s.live)
    (hr : (s.binfo r).dampInfo=none) {node : Node DampInfo} (hnode : node.data.binfo=r) :
    Rep cfg (DampState.modifyBinfo {s with bdi := update s.bdi b node,live := insert b s.live} r
        fun info => {info with dampInfo := some b})
      lists (b::away) := by
  have hne : ∀ x∈s.live, x≠b := fun x hx he => hfresh (he ▸ hx)
  have hbdi : ∀ x∈s.live, update s.bdi b node x=s.bdi x := fun x hx => update_of_ne (hne x hx) ..
  have hroute : ∀ x∈s.live, (s.data x).binfo≠r := by
    intro x hx he
    have howner := h.owner x hx
    rw [he,hr] at howner
    cases howner
  have hlists : ∀ {name x}, x∈lists name → x∈s.live := fun hx => ((h.mem _ _).mp hx).1
  generalize hs' : DampState.modifyBinfo
    {s with bdi := update s.bdi b node,live := insert b s.live} r
    (fun info => {info with dampInfo := some b})=s'
  have hdata : ∀ x∈s.live, s'.data x=s.data x := by
    intro x hx
    rw [←hs']
    exact congrArg Node.data (hbdi x hx)
  have hbinfo : ∀ {y}, y≠r → s'.binfo y=s.binfo y := by
    intro y hy
    rw [←hs']
    exact update_of_ne hy ..
  have hbinfor : s'.binfo r = {s.binfo r with dampInfo := some b} := by
    rw [←hs']
    exact update_self ..
  have hlive : s'.live=insert b s.live := by
    rw [←hs']
    rfl
  have hpl : ∀ x∈s.live, place s' x=place s x := by
    intro x hx
    rw [place,hdata x hx,hbinfo (hroute x hx),place]
  have hnotaway : ∀ {x}, x∈s.live → x ∉ away → x ∉ b::away := fun hx hxa hin =>
    (mem_cons.mp hin).elim (hne _ hx) hxa
  refine
    { head := fun name => ?_
      linked := fun name => ?_
      mem := fun name x => ?_
      placed := fun x hx hxa => ?_
      away_live := fun x hx => ?_
      owner := fun x hx => ?_
      owned := fun {y x} hy => ?_
      damped := fun y hy => ?_ }
  · rw [←hs']
    exact h.head name
  · rw [←hs']
    refine (h.linked name).congr fun x hx => ?_
    have hx' := hbdi x (hlists hx)
    exact ⟨congrArg Node.next hx',congrArg Node.prev hx'⟩
  · rw [h.mem,hlive,Finset.mem_insert]
    constructor
    · rintro ⟨hx,hxa,hp⟩
      exact ⟨.inr hx,hnotaway hx hxa,by rw [hpl x hx]; exact hp⟩
    · rintro ⟨hx,hxa,hp⟩
      have hx' := hx.resolve_left fun he => hxa (he ▸ .head _)
      rw [hpl x hx'] at hp
      exact ⟨hx',fun hin => hxa (.tail _ hin),hp⟩
  · rw [hlive,Finset.mem_insert] at hx
    have hx' := hx.resolve_left fun he => hxa (he ▸ .head _)
    rw [hpl x hx']
    exact h.placed x hx' fun hin => hxa (.tail _ hin)
  · rw [hlive,Finset.mem_insert]
    rcases mem_cons.mp hx with he|hx
    · exact .inl he
    · exact .inr (h.away_live x hx)
  · rw [hlive,Finset.mem_insert] at hx
    rcases hx with rfl|hx
    · have hdatax : s'.data x=node.data := by
        rw [←hs']
        exact congrArg Node.data (update_self ..)
      rw [hdatax,hnode,hbinfor]
    rw [hdata x hx,hbinfo (hroute x hx)]
    exact h.owner x hx
  · rw [hlive,Finset.mem_insert]
    by_cases hyr : y=r
    · rw [hyr,hbinfor] at hy
      cases hy
      have hdatab : s'.data b=node.data := by
        rw [←hs']
        exact congrArg Node.data (update_self ..)
      exact ⟨.inl rfl,by rw [hdatab,hnode,hyr]⟩
    rw [hbinfo hyr] at hy
    obtain ⟨hx,hxy⟩ := h.owned hy
    exact ⟨.inr hx,by rw [hdata x hx,hxy]⟩
  · by_cases hyr : y=r
    · rw [hyr,hbinfor]
      exact some_ne_none b
    rw [hbinfo hyr] at hy ⊢
    exact h.damped y hy

end

end RoutePlatform.DampInvariant
