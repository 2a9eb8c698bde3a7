import RoutePlatform.RibLocks

/-!
# Static routes and their configuration

Next hops of one distance share a live entry that is edited in place. As long
as the flags of what shares an entry agree, the entries depend on the
configuration alone, and not on the order in which it came about.
-/

namespace RoutePlatform.RibStatic

open RibEntries RibOperations RibProcessing RibFrames RibQueue RibLocks RibChanges OperationRuns
  Function List Option

variable {hop : Nexthop} {l : List StaticIpv4} {n : BitVec 8} (si : StaticIpv4)
  {distance : BitVec 8} {a b : Rib} {rib : Rib}

theorem perm_cons_eraseP {α : Type} {p : α→Bool} {a : α} {l : List α}
    (h : l.find? p=some a) : l.Perm (a::l.eraseP p) := by
  induction l with
  | nil => exact nomatch h
  | cons b rest ih =>
    rw [find?_cons] at h
    rw [eraseP_cons]
    cases hb : p b with
    | true =>
      rw [hb] at h
      rw [cond_true,some.inj h]
    | false =>
      rw [hb] at h
      rw [cond_false]
      exact ((ih h).cons b).trans (List.Perm.swap a b _)

theorem staticInsert_perm (l : List StaticIpv4) : (staticInsert si l).Perm (si::l) := by
  induction l with
  | nil => exact .refl _
  | cons cp rest ih =>
    unfold staticInsert
    split
    · exact .refl _
    · exact (ih.cons cp).trans (List.Perm.swap si cp rest)

/-- The next hops that are configured with a distance. -/
def configuredHops (l : List StaticIpv4) (distance : BitVec 8) : List Nexthop :=
  (l.filter fun si => si.distance=distance).map fun si => staticHop si.gate

structure EntryOk (l : List StaticIpv4) (rib : Rib) : Prop where
  hops : (rib.nexthops.map nexthopData).Perm (configuredHops l rib.distance)
  /-- `nexthop_num` is their number. -/
  num : rib.nexthopNum.toNat=(configuredHops l rib.distance).length
  /-- Its flags are those of every static route with the distance. -/
  flags : ∀ si∈l, si.distance=rib.distance →
    rib.flags.blackhole=si.flags.blackhole ∧ rib.flags.reject=si.flags.reject

/-- The live static entries of a node are those of its static routes. -/
structure StaticOk (l : List StaticIpv4) (routes : List Rib) : Prop where
  gates : (l.map StaticIpv4.gate).Nodup
  exists_iff : ∀ distance, (∃ rib∈routes, staticStops distance rib=true) ↔
    ∃ si∈l, si.distance=distance
  unique : ∀ distance, ∀ a∈routes, ∀ b∈routes, staticStops distance a=true →
    staticStops distance b=true → a=b
  entry : ∀ rib∈routes, staticStops rib.distance rib=true → EntryOk l rib

section

variable {l l' : List StaticIpv4} {routes : List Rib} {rib : Rib}

theorem mem_configuredHops :
    hop∈configuredHops l distance ↔ ∃ si∈l, si.distance=distance ∧ staticHop si.gate=hop := by
  unfold configuredHops
  rw [List.mem_map]
  refine exists_congr fun si => ?_
  rw [mem_filter,decide_eq_true_eq,and_assoc]

theorem configuredHops_perm (h : l.Perm l') (distance : BitVec 8) :
    (configuredHops l distance).Perm (configuredHops l' distance) :=
  (h.filter _).map _

theorem configuredHops_cons_self (l : List StaticIpv4) :
    configuredHops (si::l) si.distance=staticHop si.gate::configuredHops l si.distance := by
  unfold configuredHops
  rw [filter_cons,if_pos (decide_eq_true rfl),map_cons]

theorem configuredHops_cons_of_ne {si : StaticIpv4} (h : si.distance≠distance)
    (l : List StaticIpv4) : configuredHops (si::l) distance=configuredHops l distance := by
  unfold configuredHops
  rw [filter_cons,if_neg (by rw [decide_eq_false h]; exact Bool.false_ne_true)]

theorem nexthopData_staticHop (gate : StaticGate) :
    nexthopData (staticHop gate)=staticHop gate := by
  cases gate <;> rfl

theorem staticHop_injective : Function.Injective staticHop := by
  intro a b h
  cases a with
  | gateway address =>
    cases b with
    | gateway other => rw [show address=other from congrArg Nexthop.gate h]
    | ifname name | blackhole => exact nomatch congrArg Nexthop.type h
  | ifname name =>
    cases b with
    | gateway address => exact nomatch congrArg Nexthop.type h
    | ifname other => rw [show name=other from congrArg Nexthop.ifname h]
    | blackhole => exact nomatch congrArg Nexthop.type h
  | blackhole =>
    cases b with
    | gateway address | ifname name => exact nomatch congrArg Nexthop.type h
    | blackhole => rfl

theorem staticIpv4NexthopSame_iff {si : StaticIpv4} {gate : StaticGate}
    (h : nexthopData hop=staticHop gate) : staticIpv4NexthopSame si hop=true ↔ gate=si.gate := by
  have hty : hop.type=(staticHop gate).type := by rw [←h]; rfl
  have hgate : hop.gate=(staticHop gate).gate := by rw [←h]; rfl
  have hname : hop.ifname=(staticHop gate).ifname := by rw [←h]; rfl
  unfold staticIpv4NexthopSame
  rw [hty,hgate,hname]
  cases gate <;> cases si.gate <;> simp [staticHop,Nexthop.new] <;> exact decide_eq_true_iff

theorem staticStops_congr (h : ribData a=ribData b) (distance : BitVec 8) :
    staticStops distance a=staticStops distance b := by
  have hstops : ∀ rib, staticStops distance (ribData rib)=staticStops distance rib := fun _ => rfl
  rw [←hstops a,h,hstops b]

theorem EntryOk.congr (h : EntryOk l a) (hdata : ribData a=ribData b) : EntryOk l b := by
  have hhops := congrArg Rib.nexthops hdata
  have hnum := congrArg Rib.nexthopNum hdata
  have hbh : (ribData a).flags.blackhole=(ribData b).flags.blackhole := by rw [hdata]
  have hreject : (ribData a).flags.reject=(ribData b).flags.reject := by rw [hdata]
  have hdist : a.distance=b.distance := (congrArg Rib.distance hdata :)
  obtain ⟨hops,num,flags⟩ := h
  rw [hdist] at hops num flags
  refine ⟨?_,?_,fun si hmem hsi => ?_⟩
  · exact List.Perm.trans (.of_eq hhops.symm) hops
  · exact (congrArg BitVec.toNat hnum.symm).trans num
  obtain ⟨hb,hr⟩ := flags si hmem hsi
  exact ⟨hbh.symm.trans hb,hreject.symm.trans hr⟩

theorem EntryOk.perm (h : EntryOk l rib) (hperm : l.Perm l') : EntryOk l' rib where
  hops := h.hops.trans (configuredHops_perm hperm _)
  num := h.num.trans (configuredHops_perm hperm _).length_eq
  flags := fun si hmem => h.flags si (hperm.mem_iff.mpr hmem)

theorem StaticOk.perm (h : StaticOk l routes) (hperm : l.Perm l') : StaticOk l' routes where
  gates := (hperm.map _).nodup_iff.mp h.gates
  exists_iff := fun distance => by
    rw [h.exists_iff]
    exact exists_congr fun si => and_congr_left fun _ => hperm.mem_iff
  unique := h.unique
  entry := fun rib hmem hstops => (h.entry rib hmem hstops).perm hperm

/-- Removed entries go, and marks of others change. -/
theorem StaticOk.processed (h : StaticOk l routes) {f : Rib→Rib}
    (hf : ∀ rib, ribData (f rib)=ribData rib) :
    StaticOk l ((routes.filter fun rib => !rib.removed).map f) := by
  have hmem : ∀ {rib'}, rib'∈(routes.filter fun rib => !rib.removed).map f →
      ∃ rib∈routes, f rib=rib' := by
    intro rib' hmem'
    obtain ⟨rib,hfilter,heq⟩ := mem_map.mp hmem'
    exact ⟨rib,(mem_filter.mp hfilter).1,heq⟩
  refine ⟨h.gates,fun distance => ?_,fun distance a' ha b' hb hsa hsb => ?_,
    fun rib' hmem' hstops => ?_⟩
  · rw [←h.exists_iff]
    constructor
    · rintro ⟨rib',hmem',hstops⟩
      obtain ⟨rib,hrts,heq⟩ := hmem hmem'
      rw [←heq,staticStops_congr (hf rib)] at hstops
      exact ⟨rib,hrts,hstops⟩
    · rintro ⟨rib,hrts,hstops⟩
      have hlive := (staticStops_eq_true hstops).1
      refine ⟨f rib,mem_map_of_mem (mem_filter.mpr ⟨hrts,?_⟩),?_⟩
      · rw [hlive]
        rfl
      rw [staticStops_congr (hf rib)]
      exact hstops
  · obtain ⟨a,hra,heqa⟩ := hmem ha
    obtain ⟨b,hrb,heqb⟩ := hmem hb
    rw [←heqa,staticStops_congr (hf a)] at hsa
    rw [←heqb,staticStops_congr (hf b)] at hsb
    rw [←heqa,←heqb,h.unique distance a hra b hrb hsa hsb]
  · obtain ⟨rib,hrts,heq⟩ := hmem hmem'
    rw [←heq] at hstops ⊢
    have hdist : (f rib).distance=rib.distance := (congrArg Rib.distance (hf rib) :)
    rw [hdist,staticStops_congr (hf rib)] at hstops
    exact (h.entry rib hrts hstops).congr (hf rib).symm

end

/-- A new static route fits: equal flags, Null0 as a blackhole, no overflow of `nexthop_num`. -/
structure Joins (l : List StaticIpv4) (si : StaticIpv4) : Prop where
  flags : ∀ other∈l, other.distance=si.distance →
    si.flags.blackhole=other.flags.blackhole ∧ si.flags.reject=other.flags.reject
  blackhole : (∃ other∈l, other.distance=si.distance) → si.gate=.blackhole → si.flags.blackhole=true
  num : (l.filter fun other => other.distance=si.distance).length<255

section

variable {l : List StaticIpv4} {routes : List Rib} {si : StaticIpv4}

theorem staticNexthopAdd_nexthops (si : StaticIpv4) (rib : Rib) :
    (staticNexthopAdd si rib).nexthops=rib.nexthops++[staticHop si.gate] := by
  unfold staticNexthopAdd
  cases si.gate <;> rfl

theorem staticNexthopAdd_nexthopNum (si : StaticIpv4) (rib : Rib) :
    (staticNexthopAdd si rib).nexthopNum=rib.nexthopNum+1 := by
  unfold staticNexthopAdd
  cases si.gate <;> rfl

theorem staticNexthopAdd_flags (si : StaticIpv4) (rib : Rib) : (staticNexthopAdd si rib).flags =
      if si.gate=.blackhole then {rib.flags with blackhole := true} else rib.flags := by
  unfold staticNexthopAdd
  cases si.gate <;> rfl

theorem toNat_succ (h : n.toNat<255) : (n+1).toNat=n.toNat+1 := by
  have hone : (1 : BitVec 8).toNat=1 := rfl
  rw [BitVec.toNat_add,hone]
  exact Nat.mod_eq_of_lt (by omega)

theorem toNat_pred (h : n.toNat≠0) : (n-1).toNat=n.toNat-1 := by
  have hone : (1 : BitVec 8).toNat=1 := rfl
  rw [BitVec.toNat_sub,hone]
  omega

theorem length_configuredHops (l : List StaticIpv4) (distance : BitVec 8) :
    (configuredHops l distance).length=(l.filter fun si => si.distance=distance).length :=
  length_map _

theorem EntryOk.cons_of_ne (h : EntryOk l rib) (hne : si.distance≠rib.distance) :
    EntryOk (si::l) rib := by
  refine ⟨?_,?_,fun other hmem hoth => ?_⟩
  · rw [configuredHops_cons_of_ne hne]
    exact h.hops
  · rw [configuredHops_cons_of_ne hne]
    exact h.num
  rcases mem_cons.mp hmem with heq|hmem
  · rw [heq] at hoth
    exact absurd hoth hne
  · exact h.flags other hmem hoth

theorem EntryOk.join (h : EntryOk l rib) (hdistance : rib.distance=si.distance)
    (hjoins : Joins l si) (hsome : ∃ other∈l, other.distance=si.distance) :
    EntryOk (si::l) (staticNexthopAdd si rib) := by
  obtain ⟨hops,num,flags⟩ := h
  rw [hdistance] at hops num flags
  have hdist := (staticNexthopAdd_keeps si rib).2.2.2.trans hdistance
  have hlt : rib.nexthopNum.toNat<255 := by
    rw [num,length_configuredHops]
    exact hjoins.num
  -- The flags of the entry are those of the new route already.
  have hsame : rib.flags.blackhole=si.flags.blackhole ∧ rib.flags.reject=si.flags.reject := by
    obtain ⟨other,hoth,hd⟩ := hsome
    obtain ⟨hb,hr⟩ := flags other hoth hd
    obtain ⟨hb',hr'⟩ := hjoins.flags other hoth hd
    exact ⟨hb.trans hb'.symm,hr.trans hr'.symm⟩
  have hnew : (staticNexthopAdd si rib).flags.blackhole=rib.flags.blackhole ∧
      (staticNexthopAdd si rib).flags.reject=rib.flags.reject := by
    rw [staticNexthopAdd_flags]
    split
    · rename_i hnull
      exact ⟨(hsame.1.trans (hjoins.blackhole hsome hnull)).symm,rfl⟩
    · exact ⟨rfl,rfl⟩
  refine ⟨?_,?_,fun other hmem hoth => ?_⟩
  · rw [hdist,staticNexthopAdd_nexthops,configuredHops_cons_self,map_append,
      map_singleton,nexthopData_staticHop]
    exact perm_append_comm.trans (hops.cons _)
  · rw [hdist,staticNexthopAdd_nexthopNum,configuredHops_cons_self,length_cons,←num]
    exact toNat_succ hlt
  rw [hnew.1,hnew.2]
  rcases mem_cons.mp hmem with heq|hmem
  · rw [heq]
    exact hsame
  rw [hdist] at hoth
  exact flags other hmem hoth

theorem entryOk_newStaticRib (hnone : ∀ other∈l, other.distance≠si.distance) (next : ℕ) :
    EntryOk (si::l) {newStaticRib si with addr := next} := by
  have hdist := (newStaticRib_keeps si).2.2
  have hemp : configuredHops l si.distance=[] := by
    unfold configuredHops
    rw [filter_eq_nil_iff.mpr fun other hmem => ?_]
    · rfl
    rw [decide_eq_true_eq]
    exact hnone other hmem
  have hhops : (newStaticRib si).nexthops=[staticHop si.gate] := staticNexthopAdd_nexthops si _
  have hnum : (newStaticRib si).nexthopNum=1 := staticNexthopAdd_nexthopNum si _
  refine ⟨?_,?_,fun other hmem hoth => ?_⟩
  · rw [hdist,hhops,configuredHops_cons_self,hemp,map_singleton,nexthopData_staticHop]
  · rw [hdist,hnum,configuredHops_cons_self,hemp]
    rfl
  rcases mem_cons.mp hmem with heq|hmem
  · rw [heq]
    exact ⟨rfl,rfl⟩
  · exact absurd (hoth.trans hdist) (hnone other hmem)

/-- Entries are edited in place, and the configuration has the same
distances. -/
theorem StaticOk.edited (h : StaticOk l routes) {l' : List StaticIpv4} {k : Rib→Rib}
    (hgates : (l'.map StaticIpv4.gate).Nodup)
    (hexists : ∀ distance, (∃ si∈l, si.distance=distance) ↔ ∃ si∈l', si.distance=distance)
    (hstops : ∀ distance rib, staticStops distance (k rib)=staticStops distance rib)
    (hentry : ∀ rib∈routes, staticStops rib.distance rib=true → EntryOk l' (k rib)) :
    StaticOk l' (routes.map k) := by
  refine ⟨hgates,fun distance => ?_,fun distance a' ha b' hb hsa hsb => ?_, fun rib' hmem hs => ?_⟩
  · rw [←hexists,←h.exists_iff]
    constructor
    · rintro ⟨rib',hmem,hs⟩
      obtain ⟨rib,hrib,heq⟩ := mem_map.mp hmem
      rw [←heq,hstops] at hs
      exact ⟨rib,hrib,hs⟩
    · rintro ⟨rib,hrib,hs⟩
      refine ⟨k rib,mem_map_of_mem hrib,?_⟩
      rw [hstops]
      exact hs
  · obtain ⟨a,hra,heqa⟩ := mem_map.mp ha
    obtain ⟨b,hrb,heqb⟩ := mem_map.mp hb
    rw [←heqa,hstops] at hsa
    rw [←heqb,hstops] at hsb
    rw [←heqa,←heqb,h.unique distance a hra b hrb hsa hsb]
  obtain ⟨rib,hrib,heq⟩ := mem_map.mp hmem
  rw [←heq,hstops] at hs
  rw [←heq]
  refine hentry rib hrib ?_
  rw [(staticStops_eq_true hs).2.2]
  exact hs

theorem staticStops_staticNexthopAdd (si : StaticIpv4) (distance : BitVec 8) (rib : Rib) :
    staticStops distance (staticNexthopAdd si rib)=staticStops distance rib := by
  obtain ⟨hty,-,hrem,hdist⟩ := staticNexthopAdd_keeps si rib
  unfold staticStops
  rw [hty,hrem,hdist]

/-- `static_install_ipv4` keeps the entries in step with the configuration. -/
theorem StaticOk.installed (h : StaticOk l routes) (hnum : Numbered routes)
    (hgate : ∀ other∈l, other.gate≠si.gate) (hjoins : Joins l si) (next : ℕ) :
    StaticOk (si::l) (installedRoutes next si routes) := by
  have hgates : ((si::l).map StaticIpv4.gate).Nodup := by
    rw [map_cons,nodup_cons]
    refine ⟨fun hmem => ?_,h.gates⟩
    obtain ⟨other,hoth,heq⟩ := mem_map.mp hmem
    exact hgate other hoth heq
  unfold installedRoutes
  cases hfind : routes.find? (staticStops si.distance) with
  | some rib =>
    have hrib := mem_of_find?_eq_some hfind
    have hstopsRib := find?_some hfind
    have hdistRib := (staticStops_eq_true hstopsRib).2.2
    have hsome := (h.exists_iff si.distance).mp ⟨rib,hrib,hstopsRib⟩
    refine h.edited hgates (fun distance => ?_) (fun distance a => ?_) fun a ha hsa => ?_
    · rw [exists_mem_cons_iff]
      refine (or_iff_right_of_imp fun heq => ?_).symm
      rw [←heq]
      exact hsome
    · split
      · exact staticStops_staticNexthopAdd si distance a
      · rfl
    by_cases haddr : a.addr=rib.addr
    · have hsameRib := hnum.eq_of_addr ha hrib haddr
      rw [if_pos haddr,hsameRib]
      refine (h.entry rib hrib ?_).join hdistRib hjoins hsome
      rw [hdistRib]
      exact hstopsRib
    rw [if_neg haddr]
    refine (h.entry a ha hsa).cons_of_ne fun hdist => haddr ?_
    rw [h.unique si.distance a ha rib hrib (by rw [hdist]; exact hsa) hstopsRib]
  | none =>
    have hno : ∀ other∈l, other.distance≠si.distance := by
      intro other hoth hdist
      obtain ⟨rib,hrib,hstops⟩ := (h.exists_iff si.distance).mpr ⟨other,hoth,hdist⟩
      exact find?_eq_none.mp hfind rib hrib hstops
    have hnew : ∀ distance, staticStops distance {newStaticRib si with addr := next}=true ↔
        si.distance=distance := by
      intro distance
      obtain ⟨hty,hrem,hdist⟩ := newStaticRib_keeps si
      unfold staticStops
      rw [hty,hrem,hdist,Bool.not_false,decide_eq_true rfl,Bool.true_and,Bool.true_and,
        decide_eq_true_eq]
    have hold : ∀ distance, ∀ a∈routes, staticStops distance a=true → si.distance≠distance := by
      intro distance a ha hsa heq
      rw [heq] at hfind
      exact find?_eq_none.mp hfind a ha hsa
    refine ⟨hgates,fun distance => ?_,fun distance a ha b hb hsa hsb => ?_,fun a ha hsa => ?_⟩
    · rw [exists_mem_cons_iff,exists_mem_cons_iff,hnew,h.exists_iff]
    · rcases mem_cons.mp ha with heqa|ha <;> rcases mem_cons.mp hb with heqb|hb
      · rw [heqa,heqb]
      · rw [heqa,hnew] at hsa
        exact absurd hsa (hold distance b hb hsb)
      · rw [heqb,hnew] at hsb
        exact absurd hsb (hold distance a ha hsa)
      · exact h.unique distance a ha b hb hsa hsb
    rcases mem_cons.mp ha with heq|ha
    · rw [heq]
      exact entryOk_newStaticRib hno next
    · exact (h.entry a ha hsa).cons_of_ne (hold a.distance a ha hsa)

end

section

variable {l : List StaticIpv4} {routes : List Rib} {si : StaticIpv4} {rib : Rib}

theorem EntryOk.of_cons_ne (h : EntryOk (si::l) rib) (hne : si.distance≠rib.distance) :
    EntryOk l rib := by
  have hsame := configuredHops_cons_of_ne hne l
  refine ⟨?_,?_,fun other hmem => h.flags other (.tail _ hmem)⟩
  · rw [←hsame]
    exact h.hops
  rw [←hsame]
  exact h.num

theorem EntryOk.same_iff (h : EntryOk l rib) (hhop : hop∈rib.nexthops) :
    staticIpv4NexthopSame si hop=true ↔ nexthopData hop=staticHop si.gate := by
  have hmem := h.hops.mem_iff.mp (mem_map_of_mem hhop)
  obtain ⟨other,-,-,heq⟩ := mem_configuredHops.mp hmem
  rw [staticIpv4NexthopSame_iff heq.symm,←heq]
  exact staticHop_injective.eq_iff.symm

theorem EntryOk.find?_isSome (h : EntryOk l rib) (hsi : si∈l)
    (hdist : si.distance=rib.distance) :
    ∃ hop, rib.nexthops.find? (staticIpv4NexthopSame si)=some hop := by
  have hconfigured := mem_configuredHops.mpr ⟨si,hsi,hdist,rfl⟩
  obtain ⟨hop,hhop,heq⟩ := mem_map.mp (h.hops.mem_iff.mpr hconfigured)
  have hsome := List.find?_isSome.mpr ⟨hop,hhop,(h.same_iff hhop).mpr heq⟩
  exact isSome_iff_exists.mp hsome

theorem EntryOk.leave (h : EntryOk (si::l) rib) (hdistance : rib.distance=si.distance) :
    EntryOk l (nexthopDelete si rib) := by
  obtain ⟨hop,hfind⟩ := h.find?_isSome mem_cons_self hdistance.symm
  have hhop := (h.same_iff (mem_of_find?_eq_some hfind)).mp (find?_some hfind)
  have hcons : configuredHops (si::l) rib.distance =
      staticHop si.gate::configuredHops l rib.distance := by
    rw [hdistance,configuredHops_cons_self]
  obtain ⟨hops,num,flags⟩ := h
  rw [hcons] at hops num
  rw [length_cons] at num
  have hdist : (nexthopDelete si rib).distance=rib.distance := rfl
  refine ⟨?_,?_,fun other hmem => flags other (.tail _ hmem)⟩
  · have hperm := (perm_cons_eraseP hfind).map nexthopData
    rw [map_cons,hhop] at hperm
    exact List.Perm.cons_inv (hperm.symm.trans hops)
  rw [hdist]
  exact (toNat_pred (by omega)).trans (by omega)

theorem staticStops_nexthopDelete (si : StaticIpv4) (distance : BitVec 8) (rib : Rib) :
    staticStops distance (nexthopDelete si rib)=staticStops distance rib := rfl

/-- The entry of the last static route of a distance goes. -/
theorem StaticOk.removed (h : StaticOk (si::l) routes) (hnum : Numbered routes)
    (hrib : rib∈routes) (hstops : staticStops si.distance rib=true)
    (hlast : ∀ other∈l, other.distance≠si.distance) :
    StaticOk l (removedRoutes rib.addr routes) := by
  -- Entries that are still live are the others.
  have hmem : ∀ {a distance}, a∈removedRoutes rib.addr routes →
      staticStops distance a=true → a∈routes ∧ distance≠si.distance := by
    intro a distance ha hsa
    obtain ⟨old,hold,heq⟩ := mem_map.mp ha
    split at heq
    · have hlive := (staticStops_eq_true hsa).1
      rw [←heq] at hlive
      exact nomatch hlive
    rename_i haddr
    rw [←heq] at hsa ⊢
    refine ⟨hold,fun hdist => haddr ?_⟩
    rw [hdist] at hsa
    rw [h.unique si.distance old hold rib hrib hsa hstops]
  refine ⟨(nodup_cons.mp h.gates).2,fun distance => ?_,fun distance a ha b hb hsa hsb => ?_,
    fun a ha hsa => ?_⟩
  · constructor
    · rintro ⟨a,ha,hsa⟩
      obtain ⟨hrts,hne⟩ := hmem ha hsa
      obtain ⟨other,hoth,hdist⟩ := (h.exists_iff distance).mp ⟨a,hrts,hsa⟩
      rcases mem_cons.mp hoth with heq|hoth
      · rw [heq] at hdist
        exact absurd hdist.symm hne
      · exact ⟨other,hoth,hdist⟩
    · rintro ⟨other,hoth,hdist⟩
      obtain ⟨a,ha,hsa⟩ := (h.exists_iff distance).mpr ⟨other,.tail _ hoth,hdist⟩
      refine ⟨a,mem_modifyRib_of_ne ha fun haddr => hlast other hoth ?_,hsa⟩
      rw [hnum.eq_of_addr ha hrib haddr] at hsa
      rw [hdist,←(staticStops_eq_true hsa).2.2,(staticStops_eq_true hstops).2.2]
  · exact h.unique distance a (hmem ha hsa).1 b (hmem hb hsb).1 hsa hsb
  · obtain ⟨hrts,hne⟩ := hmem ha hsa
    exact (h.entry a hrts hsa).of_cons_ne (Ne.symm hne)

theorem withdrawnRoutes_eq (safi : Safi) (rib : Rib) (hop : Nexthop) (routes : List Rib) :
    ∃ g : Rib → Rib, (∀ rib, ribData (g rib)=ribData rib) ∧
      withdrawnRoutes safi rib hop routes=routes.map g := by
  unfold withdrawnRoutes
  split
  · refine ⟨fun a => if a.addr=rib.addr then (uninstallRib safi a).setSelected false else a,
      fun a => ?_,rfl⟩
    dsimp only
    split
    · rw [ribData_setSelected,ribData_uninstallRib]
    · rfl
  · exact ⟨id,fun _ => rfl,(map_id routes).symm⟩

/-- `static_uninstall_ipv4` keeps the entries in step with the
configuration. -/
theorem StaticOk.uninstalled (h : StaticOk (si::l) routes) (hnum : Numbered routes)
    (safi : Safi) : StaticOk l (uninstalledRoutes safi si routes) := by
  obtain ⟨found,hfnd,hstopsFound⟩ := (h.exists_iff si.distance).mpr ⟨si,.head _,rfl⟩
  unfold uninstalledRoutes
  cases hfind : routes.find? (staticStops si.distance) with
  | none => exact absurd hstopsFound (find?_eq_none.mp hfind found hfnd)
  | some rib =>
    have hrib := mem_of_find?_eq_some hfind
    have hstopsRib := find?_some hfind
    have hdistRib := (staticStops_eq_true hstopsRib).2.2
    have hentry := h.entry rib hrib (by rw [hdistRib]; exact hstopsRib)
    obtain ⟨hop,hhop⟩ := hentry.find?_isSome mem_cons_self hdistRib.symm
    have hlen : rib.nexthopNum.toNat=(configuredHops l si.distance).length+1 := by
      rw [hentry.num,hdistRib,configuredHops_cons_self,length_cons]
    dsimp only
    rw [hhop]
    dsimp only
    by_cases hone : rib.nexthopNum=1
    · rw [if_pos hone]
      refine h.removed hnum hrib hstopsRib fun other hoth hdist => ?_
      have hmem := mem_configuredHops.mpr ⟨other,hoth,hdist,rfl⟩
      have hpos := length_pos_of_mem hmem
      rw [hone] at hlen
      have hval : (1 : BitVec 8).toNat=1 := rfl
      omega
    rw [if_neg hone]
    have hmore : ∃ other∈l, other.distance=si.distance := by
      have hpos : 0<(configuredHops l si.distance).length := by
        by_contra hz
        refine hone (BitVec.eq_of_toNat_eq ?_)
        have hval : (1 : BitVec 8).toNat=1 := rfl
        omega
      obtain ⟨hop',hmem⟩ := exists_mem_of_length_pos hpos
      obtain ⟨other,hoth,hdist,-⟩ := mem_configuredHops.mp hmem
      exact ⟨other,hoth,hdist⟩
    obtain ⟨g,hg,hwithdrawn⟩ := withdrawnRoutes_eq safi rib hop routes
    rw [hwithdrawn,modifyRib,List.map_map]
    refine h.edited (nodup_cons.mp h.gates).2 (fun distance => ?_) (fun distance a => ?_)
      fun a ha hsa => ?_
    · rw [exists_mem_cons_iff]
      refine or_iff_right_of_imp fun heq => ?_
      rw [←heq]
      exact hmore
    · dsimp only [comp_apply]
      split
      · rw [staticStops_nexthopDelete,staticStops_congr (hg a)]
      · exact staticStops_congr (hg a) distance
    have haddrg := addr_of_ribData (hg a)
    dsimp only [comp_apply]
    rw [haddrg]
    by_cases haddr : a.addr=rib.addr
    · have hsameRib := hnum.eq_of_addr ha hrib haddr
      rw [if_pos haddr,hsameRib]
      have hdistg := congrArg Rib.distance (hg rib)
      exact (hentry.congr (hg rib).symm).leave (Eq.trans hdistg hdistRib)
    rw [if_neg haddr]
    refine EntryOk.congr ((h.entry a ha hsa).of_cons_ne fun hdist => haddr ?_) (hg a).symm
    rw [h.unique si.distance a ha rib hrib (by rw [hdist]; exact hsa) hstopsRib]

end

/-- The entries of every node are those of its static routes. -/
structure StaticRibOk (s : Zebra) : Prop where
  entries : EntriesOk s
  nodes : ∀ rn, StaticOk (s.stable rn) (rnodeToRibs s rn)

section

variable {s s' : Zebra}

theorem stable_ribLink (s : Zebra) (rn : RouteNode) (rib : Rib) :
    (ribLink s rn rib).stable=s.stable := by
  unfold ribLink
  rw [(untouched_ribQueueAdd _ rn).stable]
  dsimp only [Zebra.setNode]
  rw [(untouched_setRoutes _ rn _).stable,(destCreate_frame s rn).1.stable]

theorem staticInstallIpv4_frame (h : EntriesOk s) (safi : Safi) (p : PrefixIpv4) (si : StaticIpv4) :
    EntriesOk (staticInstallIpv4 s safi p si) ∧
      (staticInstallIpv4 s safi p si).stable=s.stable := by
  unfold staticInstallIpv4
  dsimp only
  generalize routeNode safi p=rn
  have hlock : EntriesOk (routeLockNode s rn) :=
    h.of_eq rfl fun rn' => rnodeToRibs_routeLockNode s rn rn'
  cases (rnodeToRibs (routeLockNode s rn) rn).find? (staticStops si.distance) with
  | some rib =>
    have hunlock : EntriesOk (routeUnlockNode (routeLockNode s rn) rn) :=
      hlock.of_eq rfl fun rn' => rnodeToRibs_routeUnlockNode _ rn rn'
    have hmodify := hunlock.setRoutes_modifyRib
      (fun a => (staticNexthopAdd_keeps si a).2.1) rn rib.addr
    refine ⟨hmodify.of_eq (untouched_ribQueueAdd _ rn).nextRib (rnodeToRibs_ribQueueAdd _ rn),?_⟩
    exact (untouched_ribQueueAdd _ rn).stable.trans (untouched_setRoutes _ rn _).stable
  | none =>
    rw [ribAddnode_live _ rn (newStaticRib_keeps si).2.1]
    exact ⟨hlock.ribLink rn _,stable_ribLink _ rn _⟩

theorem ribUninstall_frame (h : EntriesOk s) (rn : RouteNode) (rib : Rib) :
    EntriesOk (ribUninstall s rn rib) ∧ (ribUninstall s rn rib).stable=s.stable := by
  unfold ribUninstall
  split
  · have hsent : EntriesOk (s.redistribute rn.2 [.delete rib.type rib.distance]) :=
      h.of_eq rfl fun _ => rfl
    refine ⟨hsent.setRoutes_modifyRib (fun a => ?_) rn rib.addr,
      (untouched_setRoutes _ rn _).stable⟩
    exact addr_of_ribData ((ribData_setSelected _ _).trans (ribData_uninstallRib rn.1 a))
  · exact ⟨h,rfl⟩

theorem staticUninstallIpv4_frame (h : EntriesOk s) (safi : Safi) (p : PrefixIpv4)
    (si : StaticIpv4) : EntriesOk (staticUninstallIpv4 s safi p si) ∧
      (staticUninstallIpv4 s safi p si).stable=s.stable := by
  unfold staticUninstallIpv4
  dsimp only
  generalize routeNode safi p=rn
  have hlock : EntriesOk (routeLockNode s rn) :=
    h.of_eq rfl fun rn' => rnodeToRibs_routeLockNode s rn rn'
  have hunlock : ∀ {s' : Zebra}, EntriesOk s' ∧ s'.stable=s.stable →
      EntriesOk (routeUnlockNode s' rn) ∧ (routeUnlockNode s' rn).stable=s.stable :=
    fun h' => ⟨h'.1.of_eq rfl fun rn' => rnodeToRibs_routeUnlockNode _ rn rn',h'.2⟩
  split
  · exact ⟨h,rfl⟩
  split
  · exact hunlock ⟨hlock,rfl⟩
  rename_i rib _
  split
  · exact hunlock ⟨hlock,rfl⟩
  rename_i hop _
  refine hunlock ?_
  split
  · exact ⟨hlock.ribDelnode rn rib.addr,(untouched_ribDelnode _ rn rib.addr).stable⟩
  have hout : EntriesOk (if hop.fib then ribUninstall (routeLockNode s rn) rn rib
      else routeLockNode s rn) ∧ (if hop.fib then ribUninstall (routeLockNode s rn) rn rib
      else routeLockNode s rn).stable=s.stable := by
    split
    · exact ribUninstall_frame hlock rn rib
    · exact ⟨hlock,rfl⟩
  have hmodify := hout.1.setRoutes_modifyRib (f := nexthopDelete si) (fun _ => rfl) rn rib.addr
  refine ⟨hmodify.of_eq (untouched_ribQueueAdd _ rn).nextRib (rnodeToRibs_ribQueueAdd _ rn),?_⟩
  exact ((untouched_ribQueueAdd _ rn).stable.trans (untouched_setRoutes _ rn _).stable).trans hout.2

theorem stable_setStable (s : Zebra) (rn : RouteNode) (f : List StaticIpv4→List StaticIpv4)
    (rn' : RouteNode) : (s.setStable rn f).stable rn' =
      if rn'=rn then f (s.stable rn) else s.stable rn' := by
  unfold Zebra.setStable
  dsimp only
  rw [update_apply]

theorem rnodeToRibs_setStable (s : Zebra) (rn : RouteNode)
    (f : List StaticIpv4→List StaticIpv4) (rn' : RouteNode) :
    rnodeToRibs (s.setStable rn f) rn'=rnodeToRibs s rn' := rfl

/-- `static_delete_ipv4_safi` takes one static route out of the
configuration. -/
theorem StaticRibOk.delete (h : StaticRibOk s) (safi : Safi) (p : PrefixIpv4) (gate : StaticGate) :
    StaticRibOk (staticDeleteIpv4Safi s safi p gate) ∧
      ∀ rn, (staticDeleteIpv4Safi s safi p gate).stable rn =
        if rn=routeNode safi p then (s.stable rn).eraseP fun si => si.gate=gate
        else s.stable rn := by
  unfold staticDeleteIpv4Safi
  dsimp only
  cases hfind : (s.stable (routeNode safi p)).find? fun si => si.gate=gate with
  | none =>
    dsimp only
    refine ⟨h,fun rn => ?_⟩
    split
    · rename_i heq
      rw [heq,eraseP_of_forall_not]
      exact fun si hmem => find?_eq_none.mp hfind si hmem
    · rfl
  | some si =>
    obtain ⟨hent,hstable⟩ := staticUninstallIpv4_frame h.entries safi p si
    have hconfig : ∀ rn, ((staticUninstallIpv4 s safi p si).setStable (routeNode safi p)
        fun l => l.eraseP fun si => si.gate=gate).stable rn =
        if rn=routeNode safi p then (s.stable rn).eraseP fun si => si.gate=gate
        else s.stable rn := by
      intro rn
      rw [stable_setStable,hstable]
      split
      · rename_i heq
        rw [heq]
      · rfl
    refine ⟨⟨hent,fun rn => ?_⟩,hconfig⟩
    rw [hconfig,rnodeToRibs_setStable,rnodeToRibs_staticUninstallIpv4]
    split
    · rename_i heq
      rw [heq]
      exact ((h.nodes _).perm (perm_cons_eraseP hfind)).uninstalled (h.entries _).1 safi
    · exact h.nodes rn

theorem StaticRibOk.install (h : StaticRibOk s) (safi : Safi) (p : PrefixIpv4) {si : StaticIpv4}
    (hgate : ∀ other∈s.stable (routeNode safi p), other.gate≠si.gate)
    (hjoins : Joins (s.stable (routeNode safi p)) si) :
    StaticRibOk (staticInstallIpv4 (s.setStable (routeNode safi p) (staticInsert si)) safi p si) := by
  have hset : EntriesOk (s.setStable (routeNode safi p) (staticInsert si)) :=
    h.entries.of_eq rfl fun _ => rfl
  obtain ⟨hent,hstable⟩ := staticInstallIpv4_frame hset safi p si
  refine ⟨hent,fun rn => ?_⟩
  rw [hstable,stable_setStable,rnodeToRibs_staticInstallIpv4,rnodeToRibs_setStable,
    rnodeToRibs_setStable]
  split
  · exact ((h.nodes _).installed (h.entries _).1 hgate hjoins _).perm (staticInsert_perm si _).symm
  · exact h.nodes rn

theorem Joins.eraseP {si : StaticIpv4} (h : Joins l si) (q : StaticIpv4→Bool) :
    Joins (l.eraseP q) si where
  flags := fun other hmem => h.flags other (mem_of_mem_eraseP hmem)
  blackhole := fun ⟨other,hmem,hdist⟩ => h.blackhole ⟨other,mem_of_mem_eraseP hmem,hdist⟩
  num := lt_of_le_of_lt (List.Sublist.length_le ((eraseP_sublist).filter _)) h.num

/-- `static_add_ipv4_safi`. -/
theorem StaticRibOk.add (h : StaticRibOk s) {safi : Safi} {p : PrefixIpv4} {gate : StaticGate}
    {flags : ZebraFlags} {distance : BitVec 8}
    (hleg : Configured s safi p gate distance ∨
      Joins (s.stable (routeNode safi p)) ⟨distance,gate,flags⟩) :
    StaticRibOk (staticAddIpv4Safi s safi p gate flags distance) := by
  unfold staticAddIpv4Safi
  dsimp only
  split
  · exact h
  rename_i hno
  have hjoins : Joins (s.stable (routeNode safi p)) ⟨distance,gate,flags⟩ := by
    refine hleg.resolve_left fun ⟨si,hmem,hgate,hdist⟩ => hno ?_
    refine any_eq_true.mpr ⟨si,hmem,?_⟩
    rw [decide_eq_true hgate,decide_eq_true hdist]
    rfl
  split
  · rename_i hany
    obtain ⟨hdelete,hstable⟩ := h.delete safi p gate
    have hself := hstable (routeNode safi p)
    rw [if_pos rfl] at hself
    refine hdelete.install safi p (fun other hoth => ?_) ?_
    · rw [hself] at hoth
      cases hfind : (s.stable (routeNode safi p)).find? fun si => si.gate=gate with
      | none =>
        obtain ⟨si,hmem,hsi⟩ := any_eq_true.mp hany
        exact absurd hsi (find?_eq_none.mp hfind si hmem)
      | some si =>
        have hgate := of_decide_eq_true
          (@find?_some _ (fun si : StaticIpv4 => decide (si.gate=gate)) _ _ hfind)
        have hnd := (((perm_cons_eraseP hfind).map StaticIpv4.gate).nodup_iff.mp
          (h.nodes (routeNode safi p)).gates)
        rw [map_cons,nodup_cons] at hnd
        intro heq
        exact hnd.1 (mem_map.mpr ⟨other,hoth,heq.trans hgate.symm⟩)
    · rw [hself]
      exact hjoins.eraseP _
  · rename_i hnone
    refine h.install safi p (fun other hoth heq => hnone ?_) hjoins
    exact any_eq_true.mpr ⟨other,hoth,decide_eq_true heq⟩

theorem StaticRibOk.metaQueueProcess {env : Environment} (h : StaticRibOk s)
    (hstep : metaQueueProcess env s=some s') : StaticRibOk s' := by
  rcases metaQueueProcess_cases h.entries hstep with
    heq | ⟨rn,out,-,hout,hself,hoth,-,hstable,he⟩
  · rw [heq]
    exact h
  have hrts : ribProcessRoutes rn.1 env (rnodeToRibs s rn)=_ :=
    ribProcessRoutes_eq (h.entries rn).1 (selectedOnce_of_ribProcessRoutes hout)
  rw [hrts,some.injEq] at hout
  refine ⟨he,fun rn' => ?_⟩
  rw [hstable]
  by_cases hrn : rn'=rn
  · rw [hrn,hself,←hout]
    exact (h.nodes rn).processed fun rib => ribData_processedRib rn.1 env _ rib
  rw [hoth rn' hrn]
  exact h.nodes rn'

end

/-- Static routes are added and deleted, and the queue is processed. -/
inductive StaticStep where
  | staticAdd (safi : Safi) (p : PrefixIpv4) (gate : StaticGate) (flags : ZebraFlags)
      (distance : BitVec 8)
  | staticDelete (safi : Safi) (p : PrefixIpv4) (gate : StaticGate)
  | metaQueueProcess (env : Environment)

/-- One step. It fails when the assertion in `rib_process` does. -/
def staticStep (s : Zebra) : StaticStep→Option Zebra
  | .staticAdd safi p gate flags distance => some (staticAddIpv4Safi s safi p gate flags distance)
  | .staticDelete safi p gate => some (staticDeleteIpv4Safi s safi p gate)
  | .metaQueueProcess env => RibOperations.metaQueueProcess env s

/-- A static route that is not configured yet fits to those of its distance. -/
def Fits (s : Zebra) : StaticStep→Prop
  | .staticAdd safi p gate flags distance =>
    Configured s safi p gate distance ∨ Joins (s.stable (routeNode safi p)) ⟨distance,gate,flags⟩
  | _ => True

/-- The live static entries of a node are those of a list of static routes. -/
structure AsConfigured (l : List StaticIpv4) (routes : List Rib) : Prop where
  /-- A distance has an entry exactly if it is configured. -/
  exists_iff : ∀ distance, (∃ rib∈routes, staticStops distance rib=true) ↔
    ∃ si∈l, si.distance=distance
  unique : ∀ distance, ∀ a∈routes, ∀ b∈routes, staticStops distance a=true →
    staticStops distance b=true → a=b
  hops : ∀ distance, ∀ rib∈routes, staticStops distance rib=true →
    (rib.nexthops.map nexthopData).Perm (configuredHops l distance)
  /-- `nexthop_num` is their number. -/
  num : ∀ distance, ∀ rib∈routes, staticStops distance rib=true →
    rib.nexthopNum.toNat=(configuredHops l distance).length

section

variable {s s' : Zebra}

theorem StaticOk.asConfigured {routes : List Rib} (h : StaticOk l routes) :
    AsConfigured l routes := by
  have hentry : ∀ distance, ∀ rib∈routes, staticStops distance rib=true →
      rib.distance=distance ∧ EntryOk l rib := by
    intro distance rib hmem hstops
    have hdist := (staticStops_eq_true hstops).2.2
    refine ⟨hdist,h.entry rib hmem ?_⟩
    rw [hdist]
    exact hstops
  refine ⟨h.exists_iff,h.unique,fun distance rib hmem hstops => ?_,
    fun distance rib hmem hstops => ?_⟩
  · obtain ⟨hdist,hok⟩ := hentry distance rib hmem hstops
    rw [←hdist]
    exact hok.hops
  obtain ⟨hdist,hok⟩ := hentry distance rib hmem hstops
  rw [←hdist]
  exact hok.num

theorem staticStep_ok {step : StaticStep} (h : StaticRibOk s) (hleg : Fits s step)
    (hstep : staticStep s step=some s') : StaticRibOk s' := by
  cases step with
  | staticAdd safi p gate flags distance =>
    rw [←some.inj hstep]
    exact h.add hleg
  | staticDelete safi p gate =>
    rw [←some.inj hstep]
    exact (h.delete safi p gate).1
  | metaQueueProcess env => exact h.metaQueueProcess hstep

theorem staticRibOk_emptyZebra : StaticRibOk emptyZebra := by
  refine ⟨fun rn => ⟨List.Pairwise.nil,fun rib hmem => absurd hmem not_mem_nil⟩,fun rn => ?_⟩
  refine ⟨nodup_nil,fun distance => ?_,fun _ a ha => absurd ha not_mem_nil,
    fun rib hmem => absurd hmem not_mem_nil⟩
  constructor
  · rintro ⟨rib,hmem,-⟩
    cases hmem
  · rintro ⟨si,hmem,-⟩
    cases hmem

/-- Two runs that end with the same configuration end with the same live static entries. Here and in
the other runs of the RIB no state is behind a failed assertion of `rib_process`, that is, behind a
second entry that a caller's flags select. -/
theorem staticRuns_agree {steps steps' : List StaticStep}
    (hlegal : LegalRun staticStep Fits emptyZebra steps)
    (hrun : run staticStep emptyZebra steps=some s)
    (hlegal' : LegalRun staticStep Fits emptyZebra steps')
    (hrun' : run staticStep emptyZebra steps'=some s')
    (hconfig : ∀ rn si, si∈s.stable rn ↔ si∈s'.stable rn) (rn : RouteNode) :
    AsConfigured (s.stable rn) (rnodeToRibs s rn) ∧
      AsConfigured (s'.stable rn) (rnodeToRibs s' rn) ∧
      ∀ distance, ∀ rib∈rnodeToRibs s rn, ∀ rib'∈rnodeToRibs s' rn,
        staticStops distance rib=true → staticStops distance rib'=true →
          (rib.nexthops.map nexthopData).Perm (rib'.nexthops.map nexthopData) ∧
            rib.nexthopNum=rib'.nexthopNum ∧ rib.flags.blackhole=rib'.flags.blackhole ∧
            rib.flags.reject=rib'.flags.reject := by
  have hok := (run_preserves (fun _ _ _ h hl hstep => staticStep_ok h hl hstep) steps emptyZebra s
      staticRibOk_emptyZebra hlegal hrun).nodes rn
  have hok' :=
    (run_preserves (fun _ _ _ h hl hstep => staticStep_ok h hl hstep) steps' emptyZebra s'
      staticRibOk_emptyZebra hlegal' hrun').nodes rn
  -- A gateway is configured once, so the same set means the same routes.
  have hperm := (perm_ext_iff_of_nodup (List.Nodup.of_map _ hok.gates)
      (List.Nodup.of_map _ hok'.gates)).mpr (hconfig rn)
  refine ⟨hok.asConfigured,hok'.asConfigured,fun distance rib hmem rib' hmem' hstops hstops' => ?_⟩
  have hdist := (staticStops_eq_true hstops).2.2
  have hdist' := (staticStops_eq_true hstops').2.2
  have hentry := hok.entry rib hmem (by rw [hdist]; exact hstops)
  have hentry' := (hok'.entry rib' hmem' (by rw [hdist']; exact hstops')).perm hperm.symm
  obtain ⟨si,hsi,hd⟩ := (hok.exists_iff distance).mp ⟨rib,hmem,hstops⟩
  obtain ⟨hb,hr⟩ := hentry.flags si hsi (hd.trans hdist.symm)
  obtain ⟨hb',hr'⟩ := hentry'.flags si hsi (hd.trans hdist'.symm)
  have hsame := hdist.trans hdist'.symm
  refine ⟨?_,BitVec.eq_of_toNat_eq ?_,hb.trans hb'.symm,hr.trans hr'.symm⟩
  · have hhops := hentry.hops
    rw [hsame] at hhops
    exact hhops.trans hentry'.hops.symm
  · rw [hentry.num,hentry'.num,hsame]

/-- A gateway for 10.0.0.0/8 is configured, with the distance 1. -/
def sampleStatic (address : BitVec 32) (flags : ZebraFlags) : StaticStep :=
  .staticAdd .unicast ⟨0x0a000000,slash8⟩ (.gateway address) flags 1

/-- The flags of a static route that is to be rejected. -/
def rejectFlags : ZebraFlags := {ZebraFlags.none with reject := true}

/-- Two gateways of 10.0.0.0/8, as they are configured. -/
def sampleConfig (flags other : ZebraFlags) : RouteNode→List StaticIpv4 :=
  update (fun _ => []) sampleNode [⟨1,.gateway 1,flags⟩,⟨1,.gateway 2,other⟩]

/-- The order of the two gateways does not matter for the configuration. -/
theorem sampleStatic_config (flags other : ZebraFlags) : ∃ s s',
    run staticStep emptyZebra [sampleStatic 1 flags,sampleStatic 2 other]=some s ∧
      run staticStep emptyZebra [sampleStatic 2 other,sampleStatic 1 flags]=some s' ∧
      s.stable=sampleConfig flags other ∧ s'.stable=sampleConfig flags other := by
  refine ⟨_,_,rfl,rfl,?_,?_⟩
  · have hstable : ∀ s : Zebra, s.stable=update (update (fun _ => [])
        sampleNode [⟨1,.gateway 1,flags⟩]) sampleNode
          [⟨1,.gateway 1,flags⟩,⟨1,.gateway 2,other⟩] → s.stable=sampleConfig flags other := by
      intro s hs
      rw [hs,update_idem]
      rfl
    exact hstable _ rfl
  have hstable : ∀ s : Zebra, s.stable=update (update (fun _ => [])
      sampleNode [⟨1,.gateway 2,other⟩]) sampleNode
        [⟨1,.gateway 1,flags⟩,⟨1,.gateway 2,other⟩] → s.stable=sampleConfig flags other := by
    intro s hs
    rw [hs,update_idem]
    rfl
  exact hstable _ rfl

theorem staticRuns_agree_sampleStatic : ∃ s s',
    run staticStep emptyZebra [sampleStatic 1 .none,sampleStatic 2 .none]=some s ∧
      run staticStep emptyZebra [sampleStatic 2 .none,sampleStatic 1 .none]=some s' ∧
      ∀ rn, AsConfigured (s.stable rn) (rnodeToRibs s rn) ∧
        AsConfigured (s'.stable rn) (rnodeToRibs s' rn) := by
  obtain ⟨s,s',hrun,hrun',hstable,hstable'⟩ := sampleStatic_config .none .none
  have hlegal : ∀ a b : BitVec 32, LegalRun staticStep Fits emptyZebra
      [sampleStatic a .none,sampleStatic b .none] := by
    intro a b
    refine legalRun_cons (.inr ⟨nofun,fun ⟨_,h,_⟩ =>
      absurd h not_mem_nil,Nat.zero_lt_succ 254⟩) rfl (legalRun_cons (.inr ⟨?_,?_,?_⟩) rfl trivial)
    · intro other hmem _
      rw [show other=⟨1,.gateway a,.none⟩ from mem_singleton.mp hmem]
      exact ⟨rfl,rfl⟩
    · exact fun _ h => by cases h
    exact lt_of_le_of_lt (length_filter_le _ [(⟨1,.gateway a,.none⟩ : StaticIpv4)])
      (by rw [length_singleton]; decide)
  have hagree := staticRuns_agree (hlegal 1 2) hrun (hlegal 2 1) hrun' fun rn si => by
    rw [hstable,hstable']
  exact ⟨s,s',hrun,hrun',fun rn => ⟨(hagree rn).1,(hagree rn).2.1⟩⟩

/-- The gateway that comes first decides whether the entry rejects. -/
theorem staticAddIpv4Safi_orderMatters : ∃ s s',
    run staticStep emptyZebra [sampleStatic 1 rejectFlags,sampleStatic 2 .none]=some s ∧
      run staticStep emptyZebra [sampleStatic 2 .none,sampleStatic 1 rejectFlags]=some s' ∧
      (∀ rn si, si∈s.stable rn ↔ si∈s'.stable rn) ∧
      ∃ rib∈rnodeToRibs s sampleNode, ∃ rib'∈rnodeToRibs s' sampleNode,
        staticStops 1 rib=true ∧ staticStops 1 rib'=true ∧ rib.flags.reject≠rib'.flags.reject := by
  obtain ⟨s,s',hrun,hrun',hstable,hstable'⟩ := sampleStatic_config rejectFlags .none
  have hmarks : (run staticStep emptyZebra [sampleStatic 1 rejectFlags,
      sampleStatic 2 .none]).map (fun s => (rnodeToRibs s sampleNode).map fun rib =>
        (staticStops 1 rib,rib.flags.reject))=some [(true,true)] := by decide
  have hmarks' : (run staticStep emptyZebra [sampleStatic 2 .none,
      sampleStatic 1 rejectFlags]).map (fun s => (rnodeToRibs s sampleNode).map fun rib =>
        (staticStops 1 rib,rib.flags.reject))=some [(true,false)] := by decide
  have hentry : ∀ (s : Zebra) (reject : Bool), (rnodeToRibs s sampleNode).map
      (fun rib => (staticStops 1 rib,rib.flags.reject))=[(true,reject)] →
      ∃ rib∈rnodeToRibs s sampleNode, staticStops 1 rib=true ∧ rib.flags.reject=reject := by
    intro s reject h
    obtain ⟨rib,hmem,heq⟩ := mem_map.mp (h ▸ mem_singleton_self (true,reject))
    exact ⟨rib,hmem,(Prod.mk.injEq _ _ _ _ ▸ heq).1,(Prod.mk.injEq _ _ _ _ ▸ heq).2⟩
  rw [hrun,map_some,some.injEq] at hmarks
  rw [hrun',map_some,some.injEq] at hmarks'
  obtain ⟨rib,hmem,hstops,hreject⟩ := hentry s true hmarks
  obtain ⟨rib',hmem',hstops',hreject'⟩ := hentry s' false hmarks'
  refine ⟨s,s',hrun,hrun',fun rn si => by rw [hstable,hstable'],rib,hmem,rib',hmem',
    hstops,hstops',?_⟩
  rw [hreject,hreject']
  decide

end

end RoutePlatform.RibStatic
