import RoutePlatform.RibOperations
import RoutePlatform.RibProcessing

/-!
# What the operations of the RIB leave alone

Queueing a node changes locks and flags of it, and no entry. The entries of a
node are numbered in the order in which they were linked.
-/

namespace RoutePlatform.RibFrames

open RibEntries RibOperations RibProcessing Function List Option

variable {routes : List Rib} {f : Rib→Rib} (si : StaticIpv4) (node : Node) {rib : Rib}

/-- `RIB_ROUTE_QUEUED` of a node. -/
def nodeQueued (node : Node) (q : Fin 5) : Bool := node.dest.any fun dest => dest.queued q

def nodeRoutes (node : Node) : List Rib :=
  match node.dest with
  | none => []
  | some dest => dest.routes

section

variable {s : Zebra} {rn rn' : RouteNode} {node : Node} {q : Fin 5}

theorem rnodeToRibs_eq (s : Zebra) (rn : RouteNode) : rnodeToRibs s rn=nodeRoutes (s.nodes rn) :=
  rfl

theorem rnodeToRibs_of_none (h : (s.nodes rn).dest=none) : rnodeToRibs s rn=[] := by
  rw [rnodeToRibs_eq,nodeRoutes,h]

@[simp] theorem nodes_setNode_self : (s.setNode rn node).nodes rn=node := by
  exact update_self rn node s.nodes

theorem nodes_setNode_of_ne (h : rn'≠rn) : (s.setNode rn node).nodes rn'=s.nodes rn' := by
  exact update_of_ne h node s.nodes

@[simp] theorem setNode_setNode (node' : Node) :
    (s.setNode rn node).setNode rn node'=s.setNode rn node' := by
  unfold Zebra.setNode
  rw [update_idem]

theorem rnodeToRibs_setNode (s : Zebra) (rn : RouteNode) (node : Node) (rn' : RouteNode) :
    rnodeToRibs (s.setNode rn node) rn' =
      if rn'=rn then nodeRoutes node else rnodeToRibs s rn' := by
  rw [rnodeToRibs_eq,rnodeToRibs_eq]
  by_cases h : rn'=rn
  · rw [if_pos h,h,nodes_setNode_self]
  · rw [if_neg h,nodes_setNode_of_ne h]

theorem rnodeToRibs_setNode_of_eq (h : nodeRoutes node=rnodeToRibs s rn) (rn' : RouteNode) :
    rnodeToRibs (s.setNode rn node) rn'=rnodeToRibs s rn' := by
  rw [rnodeToRibs_setNode]
  split
  · rename_i heq
    rw [h,heq]
  · rfl

@[simp] theorem rnodeToRibs_routeLockNode (s : Zebra) (rn rn' : RouteNode) :
    rnodeToRibs (routeLockNode s rn) rn'=rnodeToRibs s rn' := by
  refine rnodeToRibs_setNode_of_eq ?_ rn'
  rfl

@[simp] theorem rnodeToRibs_routeUnlockNode (s : Zebra) (rn rn' : RouteNode) :
    rnodeToRibs (routeUnlockNode s rn) rn'=rnodeToRibs s rn' := by
  refine rnodeToRibs_setNode_of_eq ?_ rn'
  rfl

/-- The entries of a node change; there are none without a dest. -/
theorem rnodeToRibs_setRoutes {f : List Rib → List Rib} (hf : f []=[]) (s : Zebra)
    (rn rn' : RouteNode) :
    rnodeToRibs (s.setRoutes rn f) rn' =
      if rn'=rn then f (rnodeToRibs s rn) else rnodeToRibs s rn' := by
  unfold Zebra.setRoutes
  cases hdest : (s.nodes rn).dest with
  | none =>
    have hnil := rnodeToRibs_of_none hdest
    dsimp only
    split
    · rename_i heq
      rw [heq,hnil,hf]
    · rfl
  | some dest =>
    have hrts : rnodeToRibs s rn=dest.routes := by
      unfold rnodeToRibs
      rw [hdest]
    rw [rnodeToRibs_setNode,hrts]
    rfl

theorem modifyRib_nil (addr : ℕ) (f : Rib → Rib) : modifyRib addr f []=[] := rfl

end

section

variable {s : Zebra} {rn : RouteNode} {type : RouteType} {dest : RibDest}

/-- The node behind `queueType`. -/
def queuedNode (node : Node) (dest : RibDest) (q : Fin 5) : Node :=
  {node with
    lock := node.lock+1
    dest := some {dest with queued := update dest.queued q true}}

/-- The state behind `queueType` for a node that was not queued. -/
def queuedState (s : Zebra) (rn : RouteNode) (dest : RibDest) (q : Fin 5) : Zebra :=
  {s with
    nodes := update s.nodes rn (queuedNode (s.nodes rn) dest q)
    subq := update s.subq q (s.subq q++[rn])
    size := s.size+1}

theorem queueType_cases (rn : RouteNode) (s : Zebra) (type : RouteType) : (queueType rn s type=s ∧
        ∀ dest, (s.nodes rn).dest=some dest → dest.queued (metaQueueMap type)=true) ∨
      ∃ dest, (s.nodes rn).dest=some dest ∧ dest.queued (metaQueueMap type)=false ∧
        queueType rn s type=queuedState s rn dest (metaQueueMap type) := by
  unfold queueType
  cases hdest : (s.nodes rn).dest with
  | none => exact .inl ⟨rfl,fun dest h => nomatch h⟩
  | some dest =>
    dsimp only
    cases hq : dest.queued (metaQueueMap type) with
    | true =>
      refine .inl ⟨rfl,fun dest' h => ?_⟩
      rw [←some.inj h]
      exact hq
    | false =>
      refine .inr ⟨dest,rfl,hq,?_⟩
      rw [if_neg Bool.false_ne_true]
      unfold routeLockNode Zebra.setNode queuedState queuedNode
      dsimp only
      rw [update_idem,update_self]

/-- The static routes, the clients and the numbers of entries are the same. -/
structure Untouched (s s' : Zebra) : Prop where
  stable : s'.stable=s.stable
  clients : s'.clients=s.clients
  nextRib : s'.nextRib=s.nextRib

theorem Untouched.refl (s : Zebra) : Untouched s s := ⟨rfl,rfl,rfl⟩

theorem Untouched.trans {s' s'' : Zebra} (h : Untouched s s') (h' : Untouched s' s'') :
    Untouched s s'' :=
  ⟨h'.stable.trans h.stable,h'.clients.trans h.clients,h'.nextRib.trans h.nextRib⟩

/-- What each sub-queue that takes a node keeps, `rib_queue_add` keeps. -/
theorem ribQueueAdd_keeps {P : Zebra→Prop} (hstep : ∀ s dest q, (s.nodes rn).dest=some dest → P s →
    P (queuedState s rn dest q)) (h : P s) : P (ribQueueAdd s rn) := by
  have hfold : ∀ (types : List RouteType) (s : Zebra), P s → P (types.foldl (queueType rn) s) := by
    intro types
    induction types with
    | nil => exact fun _ h => h
    | cons type rest ih =>
      intro s h
      refine ih _ ?_
      rcases queueType_cases rn s type with ⟨hsame,-⟩|⟨dest,hdest,-,hnew⟩
      · rw [hsame]
        exact h
      · rw [hnew]
        exact hstep s dest _ hdest h
  unfold ribQueueAdd
  split
  · exact h
  · exact hfold _ s h

theorem untouched_ribQueueAdd (s : Zebra) (rn : RouteNode) : Untouched s (ribQueueAdd s rn) :=
  ribQueueAdd_keeps (fun _ _ _ _ h => ⟨h.stable,h.clients,h.nextRib⟩) (.refl s)

@[simp] theorem rnodeToRibs_ribQueueAdd (s : Zebra) (rn rn' : RouteNode) :
    rnodeToRibs (ribQueueAdd s rn) rn'=rnodeToRibs s rn' := by
  have hstep : ∀ s1 dest q, (s1.nodes rn).dest=some dest →
      rnodeToRibs s1 rn'=rnodeToRibs s rn' →
      rnodeToRibs (queuedState s1 rn dest q) rn'=rnodeToRibs s rn' := by
    intro s1 dest q hdest h
    have hrts : nodeRoutes (queuedNode (s1.nodes rn) dest q)=rnodeToRibs s1 rn := by
      rw [rnodeToRibs_eq]
      unfold nodeRoutes queuedNode
      rw [hdest]
    exact (rnodeToRibs_setNode_of_eq hrts rn').trans h
  exact ribQueueAdd_keeps (P := fun s1 => rnodeToRibs s1 rn'=rnodeToRibs s rn') hstep rfl

theorem untouched_setRoutes (s : Zebra) (rn : RouteNode) (f : List Rib→List Rib) :
    Untouched s (s.setRoutes rn f) := by
  unfold Zebra.setRoutes
  cases (s.nodes rn).dest <;> exact ⟨rfl,rfl,rfl⟩

end

section

variable {s : Zebra} {rn : RouteNode}

theorem destCreate_frame (s : Zebra) (rn : RouteNode) : Untouched s (destCreate s rn) ∧
      (∀ rn', rnodeToRibs (destCreate s rn) rn'=rnodeToRibs s rn') ∧
      ∃ dest, ((destCreate s rn).nodes rn).dest=some dest := by
  unfold destCreate
  cases hdest : (s.nodes rn).dest with
  | some dest => exact ⟨.refl s,fun _ => rfl,dest,hdest⟩
  | none =>
    have hnil : nodeRoutes {(routeLockNode s rn).nodes rn with dest := some ⟨fun _ => false,[]⟩} =
        rnodeToRibs (routeLockNode s rn) rn := by
      rw [rnodeToRibs_routeLockNode,rnodeToRibs]
      rw [hdest]
      rfl
    refine ⟨⟨rfl,rfl,rfl⟩,fun rn' => ?_,⟨fun _ => false,[]⟩,?_⟩
    · rw [rnodeToRibs_setNode_of_eq hnil,rnodeToRibs_routeLockNode]
    · rw [nodes_setNode_self]

theorem rnodeToRibs_ribLink (s : Zebra) (rn : RouteNode) (rib : Rib) (rn' : RouteNode) :
    rnodeToRibs (ribLink s rn rib) rn' =
      if rn'=rn then {rib with addr := s.nextRib}::rnodeToRibs s rn
      else rnodeToRibs s rn' := by
  obtain ⟨huntouched,hrts,dest,hdest⟩ := destCreate_frame s rn
  have hcons : ∀ rn'', rnodeToRibs ((destCreate s rn).setRoutes rn fun routes =>
      {rib with addr := (destCreate s rn).nextRib}::routes) rn'' =
      if rn''=rn then {rib with addr := s.nextRib}::rnodeToRibs s rn
      else rnodeToRibs s rn'' := by
    intro rn''
    have hold : dest.routes=rnodeToRibs s rn := by rw [←hrts rn,rnodeToRibs,hdest]
    rw [Zebra.setRoutes,hdest]
    rw [rnodeToRibs_setNode,hrts,huntouched.nextRib,←hold]
    rfl
  unfold ribLink
  rw [rnodeToRibs_ribQueueAdd]
  refine (rnodeToRibs_setNode_of_eq ?_ rn').trans (hcons rn')
  rfl

theorem nextRib_ribLink (s : Zebra) (rn : RouteNode) (rib : Rib) :
    (ribLink s rn rib).nextRib=s.nextRib+1 := by
  unfold ribLink
  rw [(untouched_ribQueueAdd _ rn).nextRib]
  dsimp only [Zebra.setNode]
  rw [(untouched_setRoutes _ rn _).nextRib,(destCreate_frame s rn).1.nextRib]

theorem rnodeToRibs_ribDelnode (s : Zebra) (rn : RouteNode) (addr : ℕ) (rn' : RouteNode) :
    rnodeToRibs (ribDelnode s rn addr) rn' =
      if rn'=rn then
        modifyRib addr (fun rib => {rib with removed := true}) (rnodeToRibs s rn)
      else rnodeToRibs s rn' := by
  unfold ribDelnode
  rw [rnodeToRibs_ribQueueAdd]
  exact rnodeToRibs_setRoutes (modifyRib_nil addr _) s rn rn'

theorem untouched_ribDelnode (s : Zebra) (rn : RouteNode) (addr : ℕ) :
    Untouched s (ribDelnode s rn addr) :=
  (untouched_setRoutes s rn _).trans (untouched_ribQueueAdd _ rn)

end

/-- A new entry is live, not counted, and as it was asked for. -/
theorem newRib_keeps (request : RibRequest) :
    (newRib request).type=request.type ∧ (newRib request).removed=false ∧
      (newRib request).refcnt=0 ∧ (newRib request).flags=request.flags := by
  have hfold : ∀ (hops : List HopRequest) (rib : Rib), (hops.foldl (fun rib hop => nexthopAdd rib
        (Nexthop.new hop.type hop.ifname hop.ifindex hop.gate hop.src)) rib).type=rib.type ∧
      (hops.foldl (fun rib hop => nexthopAdd rib
        (Nexthop.new hop.type hop.ifname hop.ifindex hop.gate hop.src)) rib).removed = rib.removed ∧
      (hops.foldl (fun rib hop => nexthopAdd rib
        (Nexthop.new hop.type hop.ifname hop.ifindex hop.gate hop.src)) rib).refcnt = rib.refcnt ∧
      (hops.foldl (fun rib hop => nexthopAdd rib
        (Nexthop.new hop.type hop.ifname hop.ifindex hop.gate hop.src)) rib).flags =
          rib.flags := by
    intro hops
    induction hops with
    | nil => exact fun _ => ⟨rfl,rfl,rfl,rfl⟩
    | cons hop rest ih => exact fun rib => ih _
  unfold newRib
  dsimp only
  split <;> exact hfold request.nexthops _

/-- The entries of every node are numbered in the order of linking. -/
def EntriesOk (s : Zebra) : Prop :=
  ∀ rn, Numbered (rnodeToRibs s rn) ∧ ∀ rib∈rnodeToRibs s rn, rib.addr<s.nextRib

section

variable {s s' : Zebra} {rn : RouteNode}

theorem numbered_of_map_addr {routes' : List Rib} (h : Numbered routes)
    (hsub : (routes'.map Rib.addr).Sublist (routes.map Rib.addr)) : Numbered routes' := by
  have hmap : (routes.map Rib.addr).Pairwise fun a b => b<a := pairwise_map.mpr h
  exact pairwise_map.mp (hmap.sublist hsub)

theorem EntriesOk.of_sublist (h : EntriesOk s) (hnext : s'.nextRib=s.nextRib)
    (hsub : ∀ rn, ((rnodeToRibs s' rn).map Rib.addr).Sublist ((rnodeToRibs s rn).map Rib.addr)) :
    EntriesOk s' := by
  intro rn
  refine ⟨numbered_of_map_addr (h rn).1 (hsub rn),fun rib hmem => ?_⟩
  obtain ⟨rib',hmem',haddr⟩ := mem_map.mp ((hsub rn).subset (mem_map_of_mem hmem))
  rw [hnext,←haddr]
  exact (h rn).2 rib' hmem'

theorem EntriesOk.of_eq (h : EntriesOk s) (hnext : s'.nextRib=s.nextRib)
    (heq : ∀ rn, rnodeToRibs s' rn=rnodeToRibs s rn) : EntriesOk s' :=
  h.of_sublist hnext fun rn => by rw [heq]

variable (h : EntriesOk s)
include h

theorem EntriesOk.setRoutes_modifyRib (hf : ∀ rib, (f rib).addr=rib.addr) (rn : RouteNode)
    (addr : ℕ) : EntriesOk (s.setRoutes rn (modifyRib addr f)) := by
  refine h.of_sublist (untouched_setRoutes s rn _).nextRib fun rn' => ?_
  rw [rnodeToRibs_setRoutes (modifyRib_nil addr f)]
  split
  · rename_i heq
    rw [map_modifyRib hf,heq]
  · exact List.Sublist.refl _

theorem EntriesOk.ribDelnode (rn : RouteNode) (addr : ℕ) : EntriesOk (ribDelnode s rn addr) := by
  have hmodify := h.setRoutes_modifyRib
    (f := fun rib : Rib => {rib with removed := true}) (fun _ => rfl) rn addr
  exact hmodify.of_eq (untouched_ribQueueAdd _ rn).nextRib (rnodeToRibs_ribQueueAdd _ rn)

theorem EntriesOk.ribLink (rn : RouteNode) (rib : Rib) : EntriesOk (ribLink s rn rib) := by
  intro rn'
  rw [nextRib_ribLink,rnodeToRibs_ribLink]
  obtain ⟨hnum,hlt⟩ := h rn'
  split
  · rename_i heq
    rw [heq] at hnum hlt
    refine ⟨pairwise_cons.mpr ⟨hlt,hnum⟩,fun rib' hmem => ?_⟩
    rcases mem_cons.mp hmem with hnew|hold
    · rw [hnew]
      exact Nat.lt_succ_self _
    · exact Nat.lt_succ_of_lt (hlt rib' hold)
  · exact ⟨hnum,fun rib' hmem => Nat.lt_succ_of_lt (hlt rib' hmem)⟩

end

section

variable {s : Zebra} {rn : RouteNode}

theorem ribAddnode_live (s : Zebra) (rn : RouteNode) (hlive : rib.removed=false) :
    ribAddnode s rn rib=ribLink s rn rib := by
  unfold ribAddnode
  rw [hlive,if_neg Bool.false_ne_true]

theorem staticStops_eq_true {distance : BitVec 8} (h : staticStops distance rib=true) :
    rib.removed=false ∧ rib.type=.static ∧ rib.distance=distance := by
  unfold staticStops at h
  rw [Bool.and_eq_true,Bool.and_eq_true,Bool.not_eq_true',decide_eq_true_eq,decide_eq_true_eq] at h
  exact ⟨h.1.1,h.1.2,h.2⟩

theorem staticNexthopAdd_keeps (rib : Rib) :
    (staticNexthopAdd si rib).type=rib.type ∧ (staticNexthopAdd si rib).addr=rib.addr ∧
      (staticNexthopAdd si rib).removed=rib.removed ∧
      (staticNexthopAdd si rib).distance=rib.distance := by
  unfold staticNexthopAdd
  cases si.gate <;> exact ⟨rfl,rfl,rfl,rfl⟩

theorem newStaticRib_keeps : (newStaticRib si).type=.static ∧ (newStaticRib si).removed=false ∧
      (newStaticRib si).distance=si.distance :=
  ⟨(staticNexthopAdd_keeps si _).1,(staticNexthopAdd_keeps si _).2.2.1,
    (staticNexthopAdd_keeps si _).2.2.2⟩

/-- The entries behind `static_install_ipv4`. -/
def installedRoutes (next : ℕ) (si : StaticIpv4) (routes : List Rib) : List Rib :=
  match routes.find? (staticStops si.distance) with
  | some rib => modifyRib rib.addr (staticNexthopAdd si) routes
  | none => {newStaticRib si with addr := next}::routes

theorem rnodeToRibs_staticInstallIpv4 (s : Zebra) (safi : Safi) (p : PrefixIpv4)
    (si : StaticIpv4) (rn' : RouteNode) :
    rnodeToRibs (staticInstallIpv4 s safi p si) rn' =
      if rn'=routeNode safi p then
        installedRoutes s.nextRib si (rnodeToRibs s (routeNode safi p))
      else rnodeToRibs s rn' := by
  unfold staticInstallIpv4 installedRoutes
  dsimp only
  generalize routeNode safi p=rn
  rw [rnodeToRibs_routeLockNode]
  cases hfind : (rnodeToRibs s rn).find? (staticStops si.distance) with
  | some rib =>
    rw [rnodeToRibs_ribQueueAdd,rnodeToRibs_setRoutes (modifyRib_nil _ _),
      rnodeToRibs_routeUnlockNode,rnodeToRibs_routeLockNode,rnodeToRibs_routeUnlockNode,
      rnodeToRibs_routeLockNode]
  | none =>
    rw [ribAddnode_live _ rn (newStaticRib_keeps si).2.1,rnodeToRibs_ribLink,rnodeToRibs_routeLockNode,rnodeToRibs_routeLockNode]
    rfl

/-- An entry that is taken out of the FIB before one of its next hops goes. -/
def withdrawnRoutes (safi : Safi) (rib : Rib) (hop : Nexthop) (routes : List Rib) : List Rib :=
  if hop.fib && rib.flags.selected then
    modifyRib rib.addr (fun rib => (uninstallRib safi rib).setSelected false) routes
  else routes

/-- The entries behind `static_uninstall_ipv4`. -/
def uninstalledRoutes (safi : Safi) (si : StaticIpv4) (routes : List Rib) : List Rib :=
  match routes.find? (staticStops si.distance) with
  | none => routes
  | some rib =>
    match rib.nexthops.find? (staticIpv4NexthopSame si) with
    | none => routes
    | some hop =>
      if rib.nexthopNum=1 then
        modifyRib rib.addr (fun rib => {rib with removed := true}) routes
      else modifyRib rib.addr (nexthopDelete si) (withdrawnRoutes safi rib hop routes)

theorem rnodeToRibs_ribUninstall (s : Zebra) (rn : RouteNode) (rib : Rib) (rn' : RouteNode) :
    rnodeToRibs (ribUninstall s rn rib) rn' =
      if rn'=rn ∧ rib.flags.selected=true then
        modifyRib rib.addr (fun rib => (uninstallRib rn.1 rib).setSelected false) (rnodeToRibs s rn)
      else rnodeToRibs s rn' := by
  unfold ribUninstall
  cases hsel : rib.flags.selected with
  | true =>
    rw [if_pos rfl]
    rw [rnodeToRibs_setRoutes (modifyRib_nil _ _)]
    refine if_congr (and_iff_left rfl).symm rfl rfl
  | false => rw [if_neg Bool.false_ne_true,if_neg fun h => Bool.false_ne_true h.2]

theorem rnodeToRibs_staticUninstallIpv4 (s : Zebra) (safi : Safi) (p : PrefixIpv4)
    (si : StaticIpv4) (rn' : RouteNode) :
    rnodeToRibs (staticUninstallIpv4 s safi p si) rn' =
      if rn'=routeNode safi p then
        uninstalledRoutes safi si (rnodeToRibs s (routeNode safi p))
      else rnodeToRibs s rn' := by
  have hsafi : safi=(routeNode safi p).1 := rfl
  unfold staticUninstallIpv4 uninstalledRoutes
  dsimp only
  generalize routeNode safi p=rn at *
  have hsame : rnodeToRibs s rn'=if rn'=rn then rnodeToRibs s rn else rnodeToRibs s rn' := by
    split
    · rename_i heq
      rw [heq]
    · rfl
  cases hdest : (s.nodes rn).dest with
  | none =>
    have hnil := rnodeToRibs_of_none hdest
    rw [hnil]
    rw [hnil] at hsame
    exact hsame
  | some dest =>
    rw [if_neg (by rw [isNone_some]; exact Bool.false_ne_true),rnodeToRibs_routeLockNode]
    cases hfind : (rnodeToRibs s rn).find? (staticStops si.distance) with
    | none =>
      rw [rnodeToRibs_routeUnlockNode,rnodeToRibs_routeLockNode]
      exact hsame
    | some rib =>
      dsimp only
      cases hhop : rib.nexthops.find? (staticIpv4NexthopSame si) with
      | none =>
        rw [rnodeToRibs_routeUnlockNode,rnodeToRibs_routeLockNode]
        exact hsame
      | some hop =>
        dsimp only
        rw [rnodeToRibs_routeUnlockNode]
        by_cases hnum : rib.nexthopNum=1
        · rw [if_pos hnum,if_pos hnum,rnodeToRibs_ribDelnode,rnodeToRibs_routeLockNode,
            rnodeToRibs_routeLockNode]
        rw [if_neg hnum,if_neg hnum,rnodeToRibs_ribQueueAdd,
          rnodeToRibs_setRoutes (modifyRib_nil _ _)]
        by_cases hrn : rn'=rn
        · rw [if_pos hrn,if_pos hrn]
          unfold withdrawnRoutes
          cases hop.fib with
          | true =>
            rw [if_pos rfl,rnodeToRibs_ribUninstall,Bool.true_and,rnodeToRibs_routeLockNode,hsafi]
            refine congrArg _ (if_congr (and_iff_right rfl) rfl rfl)
          | false =>
            rw [if_neg Bool.false_ne_true,Bool.false_and,if_neg Bool.false_ne_true,
              rnodeToRibs_routeLockNode]
        rw [if_neg hrn,if_neg hrn]
        split
        · rw [rnodeToRibs_ribUninstall,if_neg fun h => hrn h.1,rnodeToRibs_routeLockNode]
        · rw [rnodeToRibs_routeLockNode]

theorem mem_modifyRib_of_ne {addr : ℕ} (hmem : rib∈routes) (hne : rib.addr≠addr) :
    rib∈modifyRib addr f routes :=
  mem_map.mpr ⟨rib,hmem,if_neg hne⟩

theorem mem_uninstalledRoutes (hnum : Numbered routes) {rib : Rib} (hmem : rib∈routes) (safi : Safi)
    {si : StaticIpv4} (hne : rib.distance≠si.distance) : rib∈uninstalledRoutes safi si routes := by
  unfold uninstalledRoutes
  split
  · exact hmem
  rename_i old hfind
  have haddr : rib.addr≠old.addr := fun heq => by
    have hsame := hnum.eq_of_addr hmem (mem_of_find?_eq_some hfind) heq
    rw [hsame] at hne
    exact hne (staticStops_eq_true (find?_some hfind)).2.2
  split
  · exact hmem
  split
  · exact mem_modifyRib_of_ne hmem haddr
  refine mem_modifyRib_of_ne ?_ haddr
  unfold withdrawnRoutes
  split
  · exact mem_modifyRib_of_ne hmem haddr
  · exact hmem

end

section

variable {s s' : Zebra} {rn : RouteNode} {env : Environment}

/-- The node behind `rib_gc_dest`. -/
def collectedNode (node : Node) : Node :=
  match node.dest with
  | none => node
  | some dest =>
    if dest.routes=[] then
      {node with
        lock := node.lock-1
        dest := none
        orphan := fun q => node.orphan q || dest.queued q}
    else node

theorem ribGcDest_eq (s : Zebra) (rn : RouteNode) :
    ribGcDest s rn=s.setNode rn (collectedNode (s.nodes rn)) := by
  have hsame : s=s.setNode rn (s.nodes rn) := by
    unfold Zebra.setNode
    rw [update_eq_self]
  unfold ribGcDest collectedNode
  cases hdest : (s.nodes rn).dest with
  | none => exact hsame
  | some dest =>
    dsimp only
    split
    · unfold routeUnlockNode
      rw [setNode_setNode,nodes_setNode_self]
    · exact hsame

/-- The node with its entries behind `rib_process`. -/
def processedNode (node : Node) (routes : List Rib) : Node :=
  {node with
    dest := node.dest.map fun dest => {dest with routes := routes}
    unprocessed := false}

theorem ribProcess_eq_some (h : ribProcess env s rn=some s') :
    ∃ out, ribProcessRoutes rn.1 env (rnodeToRibs s rn)=some out ∧
      s'=(s.setNode rn (collectedNode (processedNode (s.nodes rn) out.1))).redistribute
        rn.2 out.2 := by
  obtain ⟨out,hout,hs'⟩ := map_eq_some_iff.mp h
  refine ⟨out,hout,?_⟩
  rw [←hs',ribGcDest_eq]
  unfold Zebra.setRoutes processedNode
  cases hdest : (s.nodes rn).dest with
  | none =>
    unfold Zebra.redistribute Zebra.setNode
    dsimp only
    rw [update_idem,update_self,hdest]
    rfl
  | some dest =>
    unfold Zebra.redistribute Zebra.setNode
    dsimp only
    rw [update_idem,update_self,update_idem,update_self]
    rfl

theorem map_ribProcessRoutes {α : Type} {f : Rib → α} (hf : ∀ rib, f (ribData rib)=f rib)
    {safi : Safi} (hnum : Numbered routes) {out : List Rib × List RedistCall}
    (h : ribProcessRoutes safi env routes=some out) :
    out.1.map f=(routes.filter fun rib => !rib.removed).map f := by
  have hdata := congrArg (map f) (map_ribData_ribProcessRoutes hnum h)
  rw [List.map_map,List.map_map] at hdata
  have hcomp : f ∘ ribData=f := funext hf
  rw [hcomp] at hdata
  exact hdata

theorem nodeRoutes_processedNode (routes : List Rib) (h : nodeRoutes node=[] → routes=[]) :
    nodeRoutes (processedNode node routes)=routes := by
  unfold nodeRoutes processedNode
  cases hdest : node.dest with
  | none =>
    unfold nodeRoutes at h
    rw [hdest] at h
    exact (h rfl).symm
  | some dest => rfl

theorem nodeRoutes_collectedNode : nodeRoutes (collectedNode node)=nodeRoutes node := by
  unfold collectedNode
  cases hdest : node.dest with
  | none => rfl
  | some dest =>
    dsimp only
    split
    · rename_i hnil
      unfold nodeRoutes
      rw [hdest]
      exact hnil.symm
    · rfl

theorem rnodeToRibs_ribProcess (hent : EntriesOk s) (h : ribProcess env s rn=some s') :
    ∃ out, ribProcessRoutes rn.1 env (rnodeToRibs s rn)=some out ∧ rnodeToRibs s' rn=out.1 ∧
      (∀ rn', rn'≠rn → rnodeToRibs s' rn'=rnodeToRibs s rn') ∧
      s'=(s.setNode rn (collectedNode (processedNode (s.nodes rn) out.1))).redistribute
        rn.2 out.2 := by
  obtain ⟨out,hout,hs'⟩ := ribProcess_eq_some h
  have hnil : nodeRoutes (s.nodes rn)=[] → out.1=[] := by
    intro hnil
    have hmap := map_ribData_ribProcessRoutes (hent rn).1 hout
    rw [rnodeToRibs_eq,hnil] at hmap
    exact map_eq_nil_iff.mp hmap
  have hrts : ∀ rn', rnodeToRibs s' rn'=rnodeToRibs
      (s.setNode rn (collectedNode (processedNode (s.nodes rn) out.1))) rn' := by
    intro rn'
    rw [hs']
    rfl
  refine ⟨out,hout,?_,fun rn' hne => ?_,hs'⟩
  · rw [hrts,rnodeToRibs_setNode,if_pos rfl,nodeRoutes_collectedNode,
      nodeRoutes_processedNode _ _ hnil]
  · rw [hrts,rnodeToRibs_setNode,if_neg hne]

theorem EntriesOk.ribProcess (hent : EntriesOk s) (h : ribProcess env s rn=some s') :
    EntriesOk s' := by
  obtain ⟨out,hout,hself,hoth,hs'⟩ := rnodeToRibs_ribProcess hent h
  have hnext : s'.nextRib=s.nextRib := by
    rw [hs']
    rfl
  refine hent.of_sublist hnext fun rn' => ?_
  by_cases hrn : rn'=rn
  · rw [hrn,hself,map_ribProcessRoutes (fun _ => rfl) (hent rn).1 hout]
    exact filter_sublist.map _
  · rw [hoth rn' hrn]

end

end RoutePlatform.RibFrames
