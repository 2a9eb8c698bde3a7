import RoutePlatform.RibSelection

/-!
# Recursive next hops

`nexthop_active_ipv4` looks a gateway up in the unicast table and, with `set`, copies the
next hops of the route it finds. For a route that stays selected, `rib_process` lets it do
so only if the active flag or the interface of some next hop changes.
-/

namespace RoutePlatform.NexthopResolution

open RibEntries RibOperations RibProcessing RibFrames RibSelection List Function

/-- The next hops of a route that a gateway is resolved to. -/
def fibHops (m : Rib) : List Nexthop :=
  m.nexthops.filter fun newhop => newhop.fib && newhop.resolved.isEmpty

/-- `resolved_hop`. For a `newhop` without gateway and interface the source leaves the type at 0,
which is no type of a next hop; the type of `newhop` stands for it. -/
def resolvedHop (gate : BitVec 32) (newhop : Nexthop) : ResolvedHop :=
  match newhop.type with
  | .ipv4 | .ipv4Ifindex | .ipv4Ifname =>
    if newhop.ifindex≠0 then ⟨.ipv4Ifindex,newhop.ifindex,newhop.gate,false,false⟩
    else ⟨newhop.type,0,newhop.gate,false,false⟩
  | .ifindex | .ifname => ⟨.ipv4Ifindex,newhop.ifindex,gate,true,false⟩
  | .blackhole => ⟨newhop.type,0,0,false,false⟩

section

variable (s : Zebra) (top : RouteNode) (internal : Bool) (gate : BitVec 32)

/-- The walk of `nexthop_active_ipv4` up the tree, for an entry at `top`. -/
def activeWalk : List RouteNode→ActiveResult
  | [] => ⟨false,0,[]⟩
  | rn::parents =>
    if rn=top then ⟨false,0,[]⟩
    else match (rnodeToRibs s rn).find? fun m => !m.removed && m.flags.selected with
      | none => activeWalk parents
      | some m =>
        if m.type=.bgp then activeWalk parents
        else if m.flags.blackhole || m.flags.reject then ⟨false,0,[]⟩
        else if m.type=.connect then ⟨true,(m.nexthops.head?.map Nexthop.ifindex).getD 0,[]⟩
        else if internal then
          ⟨!(fibHops m).isEmpty,0,(fibHops m).map (resolvedHop gate)⟩
        else ⟨false,0,[]⟩

/-- The walk starts at the longest prefix of the gateway. -/
def nexthopActiveIpv4 : ActiveResult :=
  activeWalk s top internal gate ((finRange 33).reverse.map fun n => routeNode .unicast ⟨gate,n⟩)

/-- The next hop has a gateway that is looked up. -/
def isGateway (hop : Nexthop) : Bool := hop.type=.ipv4 || hop.type=.ipv4Ifindex

/-- The verdict of the route map on a gateway, the checks of other next hops, and the kernel. -/
structure Answers where
  permit : ℕ→ℕ→Bool
  other : Bool→ℕ→ℕ→ActiveResult
  kernelAdd : ℕ→KernelResult

/-- `nexthop_active_check` looks gateways up in the table. -/
def tableEnvironment (a : Answers) : Environment where
  activeCheck := fun set addr i =>
    match (rnodeToRibs s top).find? fun rib => rib.addr=addr with
    | none => a.other set addr i
    | some rib =>
      match rib.nexthops[i]? with
      | none => a.other set addr i
      | some hop =>
        if isGateway hop then
          let result := nexthopActiveIpv4 s top rib.flags.internal hop.gate
          {result with active := result.active && a.permit addr i}
        else a.other set addr i
  kernelAdd := a.kernelAdd

end

/-- The active flag or the interface of a next hop is not what `nexthop_active_check` makes of it.
-/
def Noticed (env : Environment) (rib : Rib) : Prop :=
  ∃ i hop, rib.nexthops[i]? = some hop ∧ ((env.activeCheck false rib.addr i).active≠hop.active ∨
      (nexthopActiveCheck (env.activeCheck false rib.addr i) false hop).ifindex≠hop.ifindex)

/-- A resolved next hop, whether or not it is in the FIB. -/
def plain (hop : ResolvedHop) : ResolvedHop := {hop with fib := false}

/-- What the next hop at a position resolves to. -/
def resolvedAt (i : ℕ) (rib : Rib) : Option (List ResolvedHop) :=
  rib.nexthops[i]?.map fun hop => hop.resolved.map plain

variable {s s' : Zebra} {rn : RouteNode} {safi : Safi} {env : Environment} {rib new : Rib} {i : ℕ}
  {hop hop' : Nexthop} {internal : Bool} {gate : BitVec 32}

@[simp] theorem resolvedAt_setFib (b : Bool) : resolvedAt i (rib.setFib b)=resolvedAt i rib := by
  simp only [resolvedAt,Rib.setFib,getElem?_map,Option.map_map]
  congr 1
  funext hop
  simp [Nexthop.setFib,plain]

@[simp] theorem resolvedAt_setSelected (b : Bool) :
    resolvedAt i (rib.setSelected b)=resolvedAt i rib := rfl

@[simp] theorem resolvedAt_kernelMark (result : KernelResult) :
    resolvedAt i (kernelMark result rib)=resolvedAt i rib := by
  simp only [resolvedAt,kernelMark,getElem?_mapIdx,Option.map_map]
  congr 1
  funext hop
  refine map_mapIdx_of ?_ hop.resolved
  exact fun _ _ => rfl

@[simp] theorem resolvedAt_ribInstallKernel :
    resolvedAt i (ribInstallKernel safi env rib)=resolvedAt i rib := by
  unfold ribInstallKernel
  dsimp only
  split_ifs <;> simp

@[simp] theorem resolvedAt_update :
    resolvedAt i (nexthopActiveUpdate env false rib)=resolvedAt i rib := by
  simp only [resolvedAt,nexthopActiveUpdate,getElem?_mapIdx,Option.map_map]
  rfl

/-- The next hop at a position has a gateway. -/
def gatewayAt (i : ℕ) (rib : Rib) : Bool := rib.nexthops[i]?.any isGateway

theorem gatewayAt_congr (h : ribData rib=ribData new) : gatewayAt i rib=gatewayAt i new := by
  have hdata : ∀ rib, gatewayAt i (ribData rib)=gatewayAt i rib := fun rib => by
    simp only [gatewayAt,ribData,getElem?_map,Option.any_map]
    rfl
  rw [←hdata rib,h,hdata]

theorem resolvedAt_installRib (hgate : gatewayAt i rib=true) :
    resolvedAt i (installRib safi env rib)=
      some ((env.activeCheck true rib.addr i).resolved.map plain) := by
  obtain ⟨hop,hi,hhop⟩ : ∃ hop, rib.nexthops[i]? = some hop ∧ isGateway hop=true := by
    unfold gatewayAt at hgate
    cases hi : rib.nexthops[i]? with
    | none =>
      rw [hi] at hgate
      cases hgate
    | some hop => exact ⟨hop,rfl,by rw [hi] at hgate; exact hgate⟩
  have hset : resolvedAt i (nexthopActiveUpdate env true rib)=
      some ((env.activeCheck true rib.addr i).resolved.map plain) := by
    simp only [resolvedAt,nexthopActiveUpdate,getElem?_mapIdx,hi,Option.map_some]
    unfold isGateway at hhop
    simp [nexthopActiveCheck,hhop,plain]
  unfold installRib
  dsimp only
  split_ifs
  · exact hset
  · rw [resolvedAt_ribInstallKernel,hset]

theorem changed_iff : (nexthopActiveUpdate env false rib).flags.changed=true ↔ Noticed env rib := by
  simp only [nexthopActiveUpdate,any_eq_true,Bool.or_eq_true,bne_iff_ne,mem_iff_getElem?,
    getElem?_zip_eq_some,getElem?_mapIdx,Noticed]
  constructor
  · rintro ⟨⟨new,hop⟩,⟨i,hnew,hi⟩,hne⟩
    rw [hi,Option.map_some,Option.some.injEq] at hnew
    exact ⟨i,hop,hi,by rw [←hnew] at hne; exact hne⟩
  · rintro ⟨i,hop,hi,hne⟩
    exact ⟨(_,hop),⟨i,by rw [hi]; rfl,hi⟩,hne⟩

theorem resolvedAt_processedRib (safi : Safi) (env : Environment) {select : Option Rib}
    (hselect : pointsTo select rib=true) (hgate : gatewayAt i rib=true) :
    resolvedAt i (processedRib safi env select rib) =
      if rib.flags.selected=true ∧ (nexthopActiveUpdate env false rib).flags.changed=false then
        resolvedAt i rib
      else some ((env.activeCheck true rib.addr i).resolved.map plain) := by
  have hupdate : gatewayAt i (nexthopActiveUpdate env false rib)=true := by
    rw [gatewayAt_congr (ribData_nexthopActiveUpdate env rib false),hgate]
  have huninstall : gatewayAt i (uninstallRib safi (nexthopActiveUpdate env false rib))=true := by
    rw [gatewayAt_congr (ribData_uninstallRib safi _),hupdate]
  have haddr : (uninstallRib safi (nexthopActiveUpdate env false rib)).addr=rib.addr :=
    (addr_of_ribData (ribData_uninstallRib safi (nexthopActiveUpdate env false rib))).trans rfl
  unfold processedRib
  rw [if_pos hselect]
  cases rib.flags.selected with
  | false =>
    rw [if_neg Bool.false_ne_true,if_neg fun h => Bool.false_ne_true h.1,resolvedAt_setSelected,
      resolvedAt_installRib hupdate]
    rfl
  | true =>
    rw [if_pos rfl]
    unfold updatedRib
    cases (nexthopActiveUpdate env false rib).flags.changed with
    | true =>
      rw [if_pos rfl,if_neg fun h => Bool.false_ne_true h.2.symm,resolvedAt_installRib huninstall,
        haddr]
    | false =>
      rw [if_neg Bool.false_ne_true,if_pos (And.intro rfl rfl)]
      split_ifs <;> simp

theorem nexthopActiveIpv4_congr (h : ∀ rn', rn'≠rn → rnodeToRibs s' rn'=rnodeToRibs s rn') :
    nexthopActiveIpv4 s' rn internal gate=nexthopActiveIpv4 s rn internal gate := by
  unfold nexthopActiveIpv4
  generalize (finRange 33).reverse.map _=parents
  induction parents with
  | nil => rfl
  | cons rn' parents ih =>
    rw [activeWalk,activeWalk]
    by_cases htop : rn'=rn
    · rw [if_pos htop,if_pos htop]
    · rw [if_neg htop,if_neg htop,h rn' htop,ih]

theorem resolved_tableEnvironment (hnum : Numbered (rnodeToRibs s rn)) (a : Answers)
    (hmem : rib∈rnodeToRibs s rn)
    (hi : rib.nexthops[i]? = some hop) (hgate : isGateway hop=true) (set : Bool) :
    ((tableEnvironment s rn a).activeCheck set rib.addr i).resolved=
      (nexthopActiveIpv4 s rn rib.flags.internal hop.gate).resolved := by
  obtain ⟨rib',hrib'⟩ := Option.isSome_iff_exists.mp
    (find?_isSome (p := fun rib' : Rib => rib'.addr=rib.addr) |>.mpr ⟨rib,hmem,decide_eq_true rfl⟩)
  have haddr := find?_some hrib'
  have heq : rib'=rib := hnum.eq_of_addr (mem_of_find?_eq_some hrib') hmem (of_decide_eq_true haddr)
  rw [heq] at hrib'
  dsimp only [tableEnvironment]
  rw [hrib']
  dsimp only
  rw [hi]
  dsimp only
  rw [if_pos hgate]

theorem processed_ribProcess (hent : EntriesOk s) (h : ribProcess env s rn=some s')
    (hnew : new∈rnodeToRibs s' rn) (hrib : rib∈rnodeToRibs s rn) (haddr : rib.addr=new.addr) :
    processedRib rn.1 env (winner env none (rnodeToRibs s rn)) rib=new ∧
      ∀ rn', rn'≠rn → rnodeToRibs s' rn'=rnodeToRibs s rn' := by
  obtain ⟨out,hout,hself,hoths,-⟩ := rnodeToRibs_ribProcess hent h
  have hnum := (hent rn).1
  rw [ribProcessRoutes_eq hnum (selectedOnce_of_ribProcessRoutes hout),Option.some.injEq] at hout
  rw [hself,←hout] at hnew
  obtain ⟨rib',hrib',heq⟩ := mem_map.mp hnew
  have haddr' := addr_of_ribData
    (ribData_processedRib rn.1 env (winner env none (rnodeToRibs s rn)) rib')
  rw [heq] at haddr'
  have hsame : rib'=rib :=
    hnum.eq_of_addr (mem_filter.mp hrib').1 hrib (haddr'.symm.trans haddr.symm)
  exact ⟨hsame ▸ heq,hoths⟩

/-- A next hop of the selected entry resolves to what `nexthop_active_ipv4` makes of the table
exactly if the entry was not selected before, or something was noticed, or that was so before. -/
theorem resolved_ribProcess_iff {a : Answers} (hentries : EntriesOk s)
    (h : ribProcess (tableEnvironment s rn a) s rn=some s') (hnew : new∈rnodeToRibs s' rn)
    (hselected : new.flags.selected=true) (hrib : rib∈rnodeToRibs s rn)
    (haddr : rib.addr=new.addr) (hi : rib.nexthops[i]? = some hop)
    (hi' : new.nexthops[i]? = some hop') (hgate : isGateway hop'=true) :
    hop'.resolved.map plain=
        (nexthopActiveIpv4 s' rn new.flags.internal hop'.gate).resolved.map plain ↔
      rib.flags.selected=false ∨ Noticed (tableEnvironment s rn a) rib ∨ hop.resolved.map plain=
          (nexthopActiveIpv4 s rn rib.flags.internal hop.gate).resolved.map plain := by
  obtain ⟨heq,hothers⟩ := processed_ribProcess hentries h hnew hrib haddr
  have hdata := ribData_processedRib rn.1 (tableEnvironment s rn a)
    (winner (tableEnvironment s rn a) none (rnodeToRibs s rn)) rib
  rw [heq] at hdata
  have hinternal : new.flags.internal=rib.flags.internal := by
    change (ribData new).flags.internal=(ribData rib).flags.internal
    rw [hdata]
  have hhop : nexthopData hop'=nexthopData hop := by
    have hat := congrArg (fun rib : Rib => rib.nexthops[i]?) hdata
    simpa [ribData,hi,hi'] using hat
  have hgateway : hop'.gate=hop.gate := by
    change (nexthopData hop').gate=(nexthopData hop).gate
    rw [hhop]
  have hgate' : gatewayAt i rib=true := by
    rw [←gatewayAt_congr hdata,gatewayAt,hi']
    exact hgate
  have htype : isGateway hop=true := by
    rw [gatewayAt,hi] at hgate'
    exact hgate'
  have hresolved := resolved_tableEnvironment (hentries rn).1 a hrib hi htype true
  rw [←heq,selected_processedRib] at hselected
  have hafter := resolvedAt_processedRib rn.1 (tableEnvironment s rn a) hselected hgate'
  rw [heq,resolvedAt,hi',Option.map_some,resolvedAt,hi,Option.map_some,hresolved] at hafter
  rw [nexthopActiveIpv4_congr hothers,hinternal,hgateway,←changed_iff]
  by_cases hkept : rib.flags.selected=true ∧
      (nexthopActiveUpdate (tableEnvironment s rn a) false rib).flags.changed=false
  · rw [if_pos hkept,Option.some.injEq] at hafter
    rw [hafter,hkept.1,hkept.2]
    simp
  · rw [if_neg hkept,Option.some.injEq] at hafter
    rw [not_and_or,Bool.not_eq_true,Bool.not_eq_false] at hkept
    exact iff_of_true hafter (hkept.imp_right Or.inl)

/-- 192.168.0.1 on the interface 1, and 192.168.0.2 on the interface 2. -/
def staleHop : ResolvedHop := ⟨.ipv4Ifindex,1,0xC0A80001,false,true⟩

def freshHop : ResolvedHop := ⟨.ipv4Ifindex,2,0xC0A80002,false,true⟩

/-- 10.0.0.0/8, through 192.168.0.2. -/
def resolvingRib : Rib := ⟨0,.ospf,0,0,110,{ZebraFlags.none with selected := true},false,0,1,1,
  [⟨.ipv4Ifindex,"",2,0xC0A80002,0,true,true,[]⟩]⟩

/-- 20.0.0.0/8, through 10.0.0.1. -/
def recursiveRib (hop : ResolvedHop) : Rib :=
  ⟨1,.bgp,0,0,200,{ZebraFlags.none with internal := true,selected := true},false,0,1,1,
    [⟨.ipv4,"",0,0x0A000001,0,true,true,[hop]⟩]⟩

def recursiveNode : RouteNode := (.unicast,⟨0x14000000,slash8⟩)

/-- A table of the two routes. -/
def sampleTable (hop : ResolvedHop) : Zebra :=
  let node := fun rib : Rib => (⟨1,some ⟨fun _ => false,[rib]⟩,fun _ => false,false⟩ : Node)
  {emptyZebra with
    nodes := update (update emptyZebra.nodes (.unicast,⟨0x0A000000,slash8⟩)
      (node resolvingRib)) recursiveNode (node (recursiveRib hop))
    nextRib := 2}

/-- No route map and no other next hops, and a kernel that takes everything. -/
def sampleAnswers : Answers where
  permit := fun _ _ => true
  other := fun _ _ _ => ⟨false,0,[]⟩
  kernelAdd := fun _ => ⟨false,fun _ => true,fun _ _ => true⟩

/-- The table behind `rib_process`. -/
def sampleProcess (hop : ResolvedHop) : Option Zebra :=
  ribProcess (tableEnvironment (sampleTable hop) recursiveNode sampleAnswers) (sampleTable hop)
    recursiveNode

theorem sampleProcess_isSome : (sampleProcess freshHop).isSome=true := by decide +kernel

theorem entriesOk_sampleTable (hop : ResolvedHop) : EntriesOk (sampleTable hop) := by
  intro rn
  have hnodes : rnodeToRibs (sampleTable hop) rn=[recursiveRib hop] ∨
      rnodeToRibs (sampleTable hop) rn=[resolvingRib] ∨ rnodeToRibs (sampleTable hop) rn=[] := by
    unfold rnodeToRibs sampleTable
    by_cases hrec : rn=recursiveNode
    · rw [hrec]
      exact Or.inl rfl
    · dsimp only
      rw [update_of_ne hrec]
      by_cases hres : rn=(.unicast,⟨0x0A000000,slash8⟩)
      · rw [hres]
        exact Or.inr (Or.inl rfl)
      · rw [update_of_ne hres]
        exact Or.inr (Or.inr rfl)
  have hone : ∀ rib : Rib, rib.addr<2 → Numbered [rib] ∧ ∀ rib'∈[rib], rib'.addr<2 :=
    fun rib haddr => ⟨pairwise_singleton _ _,fun rib' hmem => mem_singleton.mp hmem ▸ haddr⟩
  rcases hnodes with h|h|h <;> rw [h]
  · exact hone _ (by decide : 1<2)
  · exact hone _ (by decide : 0<2)
  · exact ⟨Pairwise.nil,fun _ hmem => absurd hmem not_mem_nil⟩

/-- A resolution that is up to date stays so. -/
theorem resolved_ribProcess_fresh :
    [freshHop].map plain=(nexthopActiveIpv4 ((sampleProcess freshHop).get sampleProcess_isSome)
      recursiveNode true 0x0A000001).resolved.map plain := by
  have hmem : recursiveRib freshHop∈rnodeToRibs (sampleTable freshHop) recursiveNode := by
    decide +kernel
  have hmem' : recursiveRib freshHop∈
      rnodeToRibs ((sampleProcess freshHop).get sampleProcess_isSome) recursiveNode := by
    decide +kernel
  have hi : (recursiveRib freshHop).nexthops[0]? =
      some ⟨.ipv4,"",0,0x0A000001,0,true,true,[freshHop]⟩ := rfl
  exact (resolved_ribProcess_iff (entriesOk_sampleTable _)
    (Option.some_get sampleProcess_isSome).symm hmem' rfl hmem rfl hi hi rfl).mpr
    (Or.inr (Or.inr (by decide +kernel)))

/-- The resolving route now has another next hop, and the route stays where it was. -/
theorem ribProcess_keepsStale :
    (sampleProcess staleHop).map (fun s' => (rnodeToRibs s' recursiveNode).map fun rib =>
      rib.nexthops.map Nexthop.resolved)=some [[[staleHop]]] ∧
      (sampleProcess staleHop).map (fun s' => (nexthopActiveIpv4 s' recursiveNode true
        0x0A000001).resolved.map plain)=some [plain freshHop] := by
  decide +kernel

end RoutePlatform.NexthopResolution
