import RoutePlatform.RibChanges

/-!
# Locks on the nodes of the RIB

A node is locked once for its dest, once for each sub-queue where it waits,
and once for each duplicate of a connected route. Every entry point gives the
lock of its lookup back, with one exception: `static_install_ipv4` keeps it
when it makes a new entry.
-/

namespace RoutePlatform.RibLocks

open RibEntries RibOperations RibProcessing RibFrames RibQueue RibChanges OperationRuns Function
  List Option Bool

variable {rib : Rib} {routes : List Rib} {safi : Safi} {p : PrefixIpv4} {f : Rib → Rib}
  (node : Node) {type : RouteType}

/-- How often a node is in the sub-queues. -/
def waits (s : Zebra) (rn : RouteNode) : ℕ := ∑ q, (s.subq q).count rn

def connectedRefcnt (routes : List Rib) : ℕ :=
  ((routes.filter fun rib => rib.type=.connect).map Rib.refcnt).sum

/-- The references of a node by its dest and its entries. -/
def nodeRefs (node : Node) : ℕ :=
  (if node.dest.isSome then 1 else 0)+connectedRefcnt (nodeRoutes node)

/-- The locks of a node that are not accounted for. -/
def excess (s : Zebra) (rn : RouteNode) : ℤ :=
  ((s.nodes rn).lock : ℤ)-waits s rn-nodeRefs (s.nodes rn)

/-- Only a live connected route of an interface is counted. -/
def Counted (rib : Rib) : Prop :=
  (rib.removed=true → rib.refcnt=0) ∧
    (rib.refcnt≠0 → rib.type=.connect ∧ (directHop rib).isSome=true)

section

variable {s s' : Zebra} {rn rn' : RouteNode} {node : Node}

theorem connectedRefcnt_cons (rib : Rib) (routes : List Rib) : connectedRefcnt (rib::routes) =
      (if rib.type=.connect then rib.refcnt else 0)+connectedRefcnt routes := by
  unfold connectedRefcnt
  rw [filter_cons]
  by_cases h : rib.type=.connect
  · rw [if_pos (decide_eq_true h),if_pos h,map_cons,sum_cons]
  · rw [if_neg (fun hd => h (of_decide_eq_true hd)),if_neg h,zero_add]

/-- What the account reads of an entry. -/
def account (rib : Rib) : RouteType × ℕ := (rib.type,rib.refcnt)

theorem connectedRefcnt_of_account {routes' : List Rib} (h : routes'.map account=routes.map account) :
    connectedRefcnt routes'=connectedRefcnt routes := by
  induction routes generalizing routes' with
  | nil => rw [map_eq_nil_iff.mp h]
  | cons rib rest ih =>
    cases routes' with
    | nil => exact nomatch h
    | cons rib' rest' =>
      rw [map_cons,map_cons,cons.injEq] at h
      have hty : rib'.type=rib.type := congrArg Prod.fst h.1
      have href : rib'.refcnt=rib.refcnt := congrArg Prod.snd h.1
      rw [connectedRefcnt_cons,connectedRefcnt_cons,hty,href,ih h.2]

theorem nodeRefs_of_account {node' : Node} (hdest : node'.dest.isSome=node.dest.isSome)
    (h : (nodeRoutes node').map account=(nodeRoutes node).map account) :
    nodeRefs node'=nodeRefs node := by
  unfold nodeRefs
  rw [hdest,connectedRefcnt_of_account h]

theorem excess_of_change (h : NodeChange rn' node s s')
    (hself : (node.lock : ℤ)-nodeRefs node=((s.nodes rn').lock : ℤ)-nodeRefs (s.nodes rn')) :
    excess s' rn=excess s rn := by
  unfold excess waits
  rw [h.subq]
  by_cases hrn : rn=rn'
  · rw [hrn,h.self]
    omega
  · rw [h.other rn hrn]

theorem excess_routeLockNode (s : Zebra) (rn rn' : RouteNode) :
    excess (routeLockNode s rn') rn=excess s rn+if rn=rn' then 1 else 0 := by
  unfold excess waits routeLockNode
  by_cases hrn : rn=rn'
  · have hrefs : nodeRefs {s.nodes rn' with lock := (s.nodes rn').lock+1} =
        nodeRefs (s.nodes rn') := rfl
    rw [if_pos hrn,hrn,nodes_setNode_self,hrefs]
    dsimp only [Zebra.setNode]
    push_cast
    ring
  rw [if_neg hrn,nodes_setNode_of_ne hrn,add_zero]
  rfl

theorem excess_routeUnlockNode (s : Zebra) (rn rn' : RouteNode)
    (hpos : rn=rn' → 0<(s.nodes rn).lock) :
    excess (routeUnlockNode s rn') rn=excess s rn-if rn=rn' then 1 else 0 := by
  unfold excess waits routeUnlockNode
  by_cases hrn : rn=rn'
  · have hrefs : nodeRefs {s.nodes rn' with lock := (s.nodes rn').lock-1} =
        nodeRefs (s.nodes rn') := rfl
    have hlock := hpos hrn
    rw [hrn] at hlock
    rw [if_pos hrn,hrn,nodes_setNode_self,hrefs]
    dsimp only [Zebra.setNode]
    omega
  rw [if_neg hrn,nodes_setNode_of_ne hrn,sub_zero]
  rfl

theorem waits_update (s : Zebra) (q : Fin 5) (l : List RouteNode) (rn : RouteNode) :
    (∑ i, (update s.subq q l i).count rn)+(s.subq q).count rn=waits s rn+l.count rn :=
  sum_update (count rn) s.subq q l

theorem excess_queuedState {dest : RibDest} (hdest : (s.nodes rn').dest=some dest) (q : Fin 5)
    (rn : RouteNode) : excess (queuedState s rn' dest q) rn=excess s rn := by
  have hsum := waits_update s q (s.subq q++[rn']) rn
  rw [count_append] at hsum
  have hwaits : waits (queuedState s rn' dest q) rn =
      ∑ i, (update s.subq q (s.subq q++[rn']) i).count rn := rfl
  unfold excess
  rw [hwaits]
  by_cases hrn : rn=rn'
  · have hself : (queuedState s rn' dest q).nodes rn'=queuedNode (s.nodes rn') dest q := by
      exact update_self rn' (queuedNode (s.nodes rn') dest q) s.nodes
    have hrefs : nodeRefs (queuedNode (s.nodes rn') dest q)=nodeRefs (s.nodes rn') := by
      refine nodeRefs_of_account ?_ ?_
      · rw [hdest]
        rfl
      unfold nodeRoutes queuedNode
      rw [hdest]
    have hlock : (queuedNode (s.nodes rn') dest q).lock=(s.nodes rn').lock+1 := rfl
    rw [hrn] at hsum ⊢
    rw [count_singleton_self] at hsum
    rw [hself,hrefs,hlock]
    omega
  · have hoth : (queuedState s rn' dest q).nodes rn=s.nodes rn := by
      exact update_of_ne hrn _ s.nodes
    have hnone := count_eq_zero.mpr fun hmem => hrn (mem_singleton.mp hmem)
    rw [hnone] at hsum
    rw [hoth]
    omega

theorem excess_ribQueueAdd (s : Zebra) (rn rn' : RouteNode) :
    excess (ribQueueAdd s rn') rn=excess s rn :=
  ribQueueAdd_keeps (fun _ _ q hdest h => (excess_queuedState hdest q rn).trans h) rfl

/-- Entries change, and with them the number of duplicates. -/
theorem excess_setRoutes (s : Zebra) (rn rn' : RouteNode) {f : List Rib→List Rib} {d : ℤ}
    (hnil : f []=[])
    (hf : (connectedRefcnt (f (rnodeToRibs s rn')) : ℤ)=connectedRefcnt (rnodeToRibs s rn')+d) :
    excess (s.setRoutes rn' f) rn=excess s rn-if rn=rn' then d else 0 := by
  have hchange := nodeChange_setRoutes s rn' f
  unfold excess waits
  rw [hchange.subq]
  by_cases hrn : rn=rn'
  · have hrefs : (nodeRefs (routedNode (s.nodes rn') f) : ℤ)=nodeRefs (s.nodes rn')+d := by
      unfold nodeRefs
      rw [nodeRoutes_routedNode _ hnil]
      rw [rnodeToRibs_eq] at hf
      unfold routedNode
      rw [isSome_map]
      omega
    have hlock : (routedNode (s.nodes rn') f).lock=(s.nodes rn').lock := rfl
    rw [if_pos hrn,hrn,hchange.self,hrefs,hlock]
    ring
  · rw [if_neg hrn,hchange.other rn hrn,sub_zero]

theorem excess_setRoutes_modifyRib (s : Zebra) (rn rn' : RouteNode) {f : Rib→Rib}
    (hf : ∀ rib, account (f rib)=account rib) (addr : ℕ) :
    excess (s.setRoutes rn' (modifyRib addr f)) rn=excess s rn := by
  have hsame := connectedRefcnt_of_account (map_modifyRib hf addr (rnodeToRibs s rn'))
  rw [excess_setRoutes s rn rn' (modifyRib_nil addr f) (d := 0) (by rw [hsame,add_zero]),ite_self,
    sub_zero]

theorem excess_ribDelnode (s : Zebra) (rn rn' : RouteNode) (addr : ℕ) :
    excess (ribDelnode s rn' addr) rn=excess s rn := by
  unfold ribDelnode
  rw [excess_ribQueueAdd]
  exact excess_setRoutes_modifyRib (f := fun rib : Rib => {rib with removed := true}) s rn rn'
    (fun _ => rfl) addr

theorem excess_ribLink (s : Zebra) (rn rn' : RouteNode) (href : rib.refcnt=0) :
    excess (ribLink s rn' rib) rn=excess s rn := by
  have hdest := nodeChange_destCreate s rn'
  have hrts := nodeChange_setRoutes (destCreate s rn') rn' fun routes =>
    {rib with addr := (destCreate s rn').nextRib}::routes
  unfold ribLink
  rw [excess_ribQueueAdd,hrts.self]
  rw [hdest.self] at hrts ⊢
  refine excess_of_change ((hdest.trans hrts).trans
    ((NodeChange.setNode _ rn' _).trans ⟨nodes_setNode_self,fun _ _ => rfl,rfl,rfl⟩)) ?_
  unfold nodeRefs nodeRoutes routedNode destNode
  cases hd : (s.nodes rn').dest with
  | none =>
    dsimp only [map_some,isSome_some]
    rw [connectedRefcnt_cons]
    rw [href]
    simp only [ite_self,if_true,isSome_none,false_eq_true,if_false]
    have hnil : connectedRefcnt []=0 := rfl
    rw [hnil]
    push_cast
    ring
  | some dest =>
    rw [hd]
    dsimp only [map_some,isSome_some]
    rw [connectedRefcnt_cons]
    rw [href,ite_self,zero_add]

end

section

variable {s s' : Zebra} {rn rn' : RouteNode} {env : Environment}

/-- Every entry is counted as it should. -/
def CountedOk (s : Zebra) : Prop := ∀ rn, ∀ rib∈rnodeToRibs s rn, Counted rib

theorem connectedRefcnt_live (h : ∀ rib∈routes, Counted rib) :
    connectedRefcnt (routes.filter fun rib => !rib.removed)=connectedRefcnt routes := by
  induction routes with
  | nil => rfl
  | cons rib rest ih =>
    have hrs := ih fun rib' hmem => h rib' (.tail _ hmem)
    rw [filter_cons,connectedRefcnt_cons rib rest]
    cases hrem : rib.removed with
    | true =>
      rw [Bool.not_true,if_neg Bool.false_ne_true,hrs,(h rib mem_cons_self).1 hrem,
        ite_self,zero_add]
    | false => rw [Bool.not_false,if_pos rfl,connectedRefcnt_cons,hrs]

theorem connectedRefcnt_ribProcessRoutes (hnum : Numbered routes)
    (hctd : ∀ rib∈routes, Counted rib) {out : List Rib × List RedistCall}
    (h : ribProcessRoutes safi env routes=some out) :
    connectedRefcnt out.1=connectedRefcnt routes :=
  (connectedRefcnt_of_account (map_ribProcessRoutes (fun _ => rfl) hnum h)).trans
    (connectedRefcnt_live hctd)

/-- The locks that are left when the dest may go. -/
theorem lock_collectedNode (hpos : node.dest.isSome=true → 0<node.lock) :
    ((collectedNode node).lock : ℤ)-nodeRefs (collectedNode node) =
      (node.lock : ℤ)-nodeRefs node := by
  unfold collectedNode
  cases hdest : node.dest with
  | none => rfl
  | some dest =>
    dsimp only
    split
    · rename_i hnil
      have hlock := hpos (by rw [hdest]; rfl)
      have hrefs : nodeRefs node=1 := by
        unfold nodeRefs nodeRoutes
        rw [hdest]
        dsimp only
        rw [hnil]
        rfl
      have hnone : nodeRefs {node with
          lock := node.lock-1
          dest := none
          orphan := fun q => node.orphan q || dest.queued q}=0 := rfl
      rw [hrefs,hnone]
      dsimp only
      omega
    · rfl

theorem nodeRefs_processedNode (hrts : nodeRoutes (processedNode node routes)=routes)
    (h : connectedRefcnt routes=connectedRefcnt (nodeRoutes node)) :
    nodeRefs (processedNode node routes)=nodeRefs node := by
  unfold nodeRefs
  rw [hrts,h]
  unfold processedNode
  rw [isSome_map]

theorem nodeRefs_dequeuedNode (q : Fin 5) : nodeRefs (dequeuedNode node q)=nodeRefs node := by
  unfold nodeRefs
  rw [nodeRoutes_dequeuedNode]
  unfold dequeuedNode
  rw [isSome_map]

/-- `process_subq` gives back the lock for the queue. -/
theorem excess_processes {q : Fin 5} {rest : List RouteNode} {out : List Rib×List RedistCall}
    (hent : EntriesOk s) (hctd : CountedOk s) (hhead : s.subq q=rn'::rest)
    (hz : excess s rn=0) (h : Processes env q rn' rest out s s') : excess s' rn=0 := by
  have hwaits : waits s' rn+(s.subq q).count rn=waits s rn+rest.count rn := by
    have hsum := waits_update s q rest rn
    unfold waits at hsum ⊢
    rw [h.subq]
    exact hsum
  rw [hhead,count_cons] at hwaits
  by_cases hrn : rn=rn'
  · rw [hrn] at hz hwaits ⊢
    have hrefs := nodeRefs_processedNode (s.nodes rn')
      ((nodeRoutes_collectedNode _).symm.trans h.left)
      (connectedRefcnt_ribProcessRoutes (hent rn').1 (hctd rn') h.routes)
    have hlock : (processedNode (s.nodes rn') out.1).lock=(s.nodes rn').lock := rfl
    have hwaiting : 0<waits s rn' := by
      have hle : (s.subq q).count rn'≤waits s rn' :=
        Finset.single_le_sum (f := fun q => (s.subq q).count rn') (fun _ _ => Nat.zero_le _)
          (Finset.mem_univ q)
      rw [hhead,count_cons_self] at hle
      omega
    unfold excess at hz ⊢
    have hcollected := lock_collectedNode (processedNode (s.nodes rn') out.1) fun _ => by
      rw [hlock]
      omega
    have hlast : (dequeuedNode (collectedNode (processedNode (s.nodes rn') out.1)) q).lock =
        (collectedNode (processedNode (s.nodes rn') out.1)).lock-1 := rfl
    rw [h.self,nodeRefs_dequeuedNode,hlast]
    rw [hrefs,hlock] at hcollected
    rw [if_pos (beq_self_eq_true rn')] at hwaits
    omega
  · have hne : ¬(rn' == rn)=true := fun heq => hrn (eq_of_beq heq).symm
    rw [if_neg hne] at hwaits
    unfold excess at hz ⊢
    rw [h.other rn hrn]
    omega

theorem excess_metaQueueProcess (hent : EntriesOk s) (hctd : CountedOk s)
    (hz : excess s rn=0) (h : metaQueueProcess env s=some s') : excess s' rn=0 := by
  rcases metaQueueProcess_eq_some hent h with heq|⟨q,rn',rest,out,s1,-,hhead,hs1,heq⟩
  · rw [heq]
    exact hz
  · rw [heq]
    exact (excess_processes hent hctd hhead hz hs1 :)

theorem counted_of_ribData {a b : Rib} (h : ribData a=ribData b) (ha : Counted a) : Counted b := by
  have hrem := removed_of_ribData h
  have href := congrArg Rib.refcnt h
  have hty := congrArg Rib.type h
  have hdirect : ∀ rib, (directHop (ribData rib)).isSome=(directHop rib).isSome := by
    intro rib
    unfold directHop ribData
    cases rib.nexthops with
    | nil => rfl
    | cons hop rest =>
      have hsame : (nexthopData hop).type=hop.type := rfl
      rw [map_cons]
      dsimp only
      rw [hsame]
      split <;> rfl
  have hhop : (directHop a).isSome=(directHop b).isSome := by rw [←hdirect a,←hdirect b,h]
  refine ⟨fun hr => ?_,fun hr => ?_⟩
  · exact href.symm.trans (ha.1 (hrem.trans hr))
  obtain ⟨hconnect,hsome⟩ := ha.2 fun hz => hr (href.symm.trans hz)
  exact ⟨hty.symm.trans hconnect,hhop ▸ hsome⟩

theorem CountedOk.metaQueueProcess (hent : EntriesOk s) (hctd : CountedOk s)
    (h : metaQueueProcess env s=some s') : CountedOk s' := by
  rcases metaQueueProcess_cases hent h with heq|⟨rn,out,-,hout,hself,hoth,-⟩
  · rw [heq]
    exact hctd
  intro rn' rib hmem
  by_cases hrn : rn'=rn
  · rw [hrn,hself] at hmem
    have hdata : ribData rib∈out.1.map ribData := mem_map_of_mem hmem
    rw [map_ribData_ribProcessRoutes (hent rn).1 hout] at hdata
    obtain ⟨old,hfilter,heq⟩ := mem_map.mp hdata
    exact counted_of_ribData heq (hctd rn old (mem_filter.mp hfilter).1)
  rw [hoth rn' hrn] at hmem
  exact hctd rn' rib hmem

end

/-- The locks of a unicast node are accounted for, but for some in use. -/
structure Locked (more : RouteNode→ℤ) (s : Zebra) : Prop where
  queue : QueueOk s
  /-- Connected routes are counted as they should. -/
  counted : CountedOk s
  excess : ∀ rn : RouteNode, rn.1=.unicast → excess s rn=more rn

/-- One more lock of a node. -/
def oneMore (more : RouteNode→ℤ) (rn : RouteNode) (n : ℤ) : RouteNode→ℤ :=
  fun rn' => more rn'+if rn'=rn then n else 0

section

variable {s s' : Zebra} {rn : RouteNode} {more : RouteNode→ℤ}

section

variable (h : CountedOk s)
include h

theorem CountedOk.of_eq (heq : ∀ rn, rnodeToRibs s' rn=rnodeToRibs s rn) :
    CountedOk s' := fun rn rib hmem => h rn rib (heq rn ▸ hmem)

theorem CountedOk.ribLink (rn : RouteNode) (href : rib.refcnt=0) :
    CountedOk (ribLink s rn rib) := by
  intro rn' rib' hmem
  rw [rnodeToRibs_ribLink] at hmem
  split at hmem
  · rcases mem_cons.mp hmem with hnew|hold
    · rw [hnew]
      exact ⟨fun _ => href,fun hne => absurd href hne⟩
    · exact h rn rib' hold
  · exact h rn' rib' hmem

theorem CountedOk.setRoutes_modifyRib (rn : RouteNode) (addr : ℕ)
    (hf : ∀ rib∈rnodeToRibs s rn, rib.addr=addr → Counted (f rib)) :
    CountedOk (s.setRoutes rn (modifyRib addr f)) := by
  intro rn' rib hmem
  rw [rnodeToRibs_setRoutes (modifyRib_nil addr f)] at hmem
  split at hmem
  · obtain ⟨old,hold,heq⟩ := mem_map.mp hmem
    rw [←heq]
    split
    · exact hf old hold ‹_›
    · exact h rn old hold
  · exact h rn' rib hmem

theorem CountedOk.ribDelnode (rn : RouteNode) (addr : ℕ)
    (hz : ∀ rib∈rnodeToRibs s rn, rib.addr=addr → rib.refcnt=0) :
    CountedOk (ribDelnode s rn addr) := by
  have hmodify := h.setRoutes_modifyRib rn addr
    (f := fun rib : Rib => {rib with removed := true}) fun rib hmem haddr =>
      ⟨fun _ => hz rib hmem haddr,fun hne => absurd (hz rib hmem haddr) hne⟩
  exact hmodify.of_eq (rnodeToRibs_ribQueueAdd _ rn)

end

theorem Locked.routeLockNode (h : Locked more s) (rn : RouteNode) :
    Locked (oneMore more rn 1) (routeLockNode s rn) := by
  refine ⟨h.queue.routeLockNode rn,h.counted.of_eq (rnodeToRibs_routeLockNode s rn),
    fun rn' hsafi => ?_⟩
  rw [excess_routeLockNode,h.excess rn' hsafi]
  rfl

theorem Locked.routeUnlockNode (h : Locked more s) (hmore : 1 ≤ more rn) :
    Locked (oneMore more rn (-1)) (routeUnlockNode s rn) := by
  refine ⟨h.queue.routeUnlockNode rn,h.counted.of_eq (rnodeToRibs_routeUnlockNode s rn),
    fun rn' hsafi => ?_⟩
  have hexcess := h.excess rn' hsafi
  rw [excess_routeUnlockNode s rn' rn fun hrn => ?_,hexcess]
  · unfold oneMore
    split <;> ring
  rw [←hrn] at hmore
  unfold RibLocks.excess at hexcess
  omega

theorem Locked.congr {more' : RouteNode→ℤ} (h : Locked more s)
    (hmore : ∀ rn : RouteNode, rn.1=.unicast → more rn=more' rn) : Locked more' s :=
  ⟨h.queue,h.counted,fun rn hsafi => (h.excess rn hsafi).trans (hmore rn hsafi)⟩

theorem oneMore_oneMore (more : RouteNode→ℤ) (rn rn' : RouteNode) :
    oneMore (oneMore more rn 1) rn (-1) rn'=more rn' := by
  unfold oneMore
  split <;> ring

theorem oneMore_self (more : RouteNode→ℤ) (rn : RouteNode) (n : ℤ) :
    oneMore more rn n rn=more rn+n := by
  unfold oneMore
  rw [if_pos rfl]

section

variable (h : Locked more s)
include h

theorem Locked.ribLink (href : rib.refcnt=0) (hstale : ¬Stale s rn rib.type) :
    Locked more (ribLink s rn rib) :=
  ⟨h.queue.ribLink hstale,h.counted.ribLink rn href,fun rn' hsafi =>
    (excess_ribLink s rn' rn href).trans (h.excess rn' hsafi)⟩

theorem Locked.ribDelnode (rn : RouteNode) (addr : ℕ)
    (hz : ∀ rib∈rnodeToRibs s rn, rib.addr=addr → rib.refcnt=0) :
    Locked more (ribDelnode s rn addr) :=
  ⟨h.queue.ribDelnode rn addr,h.counted.ribDelnode rn addr hz,fun rn' hsafi =>
    (excess_ribDelnode s rn' rn addr).trans (h.excess rn' hsafi)⟩

theorem Locked.ribQueueAdd (rn : RouteNode) : Locked more (ribQueueAdd s rn) :=
  ⟨h.queue.ribQueueAdd rn,h.counted.of_eq (rnodeToRibs_ribQueueAdd s rn),fun rn' hsafi =>
    (excess_ribQueueAdd s rn' rn).trans (h.excess rn' hsafi)⟩

theorem Locked.redistribute (p : PrefixIpv4) (calls : List RedistCall) :
    Locked more (s.redistribute p calls) :=
  ⟨h.queue.redistribute p calls,h.counted,h.excess⟩

theorem Locked.modify (rn : RouteNode) (addr : ℕ) {f : Rib→Rib}
    (haddr : ∀ rib, (f rib).addr=rib.addr) (hrem : ∀ rib, (f rib).removed=rib.removed)
    (haccount : ∀ rib, account (f rib)=account rib)
    (hctd : ∀ rib∈rnodeToRibs s rn, rib.addr=addr → Counted (f rib)) :
    Locked more (s.setRoutes rn (modifyRib addr f)) :=
  ⟨h.queue.modify (fun rib => congrArg Prod.fst (haccount rib)) haddr hrem rn addr,
    h.counted.setRoutes_modifyRib rn addr hctd,fun rn' hsafi =>
      (excess_setRoutes_modifyRib s rn' rn haccount addr).trans (h.excess rn' hsafi)⟩

end

theorem refcnt_of_counted (h : Counted rib) (hty : rib.type ≠ .connect) : rib.refcnt=0 := by
  by_contra hne
  exact hty (h.2 hne).1

theorem Locked.giveBack (h : Locked (oneMore more rn 1) s) (hmore : 0 ≤ more rn) :
    Locked more (RibOperations.routeUnlockNode s rn) := by
  have hone : 1≤oneMore more rn 1 rn := by
    rw [oneMore_self]
    omega
  exact (h.routeUnlockNode hone).congr fun rn' _ => oneMore_oneMore more rn rn'

/-- The end of `rib_add_ipv4` and `rib_add_ipv4_multipath` gives the lock of
the lookup back. -/
theorem Locked.addReplacing (h : Locked (oneMore more rn 1) s) (hmore : 0 ≤ more rn)
    {same : Option Rib} (hrem : rib.removed=false) (href : rib.refcnt=0)
    (hstale : ¬Stale s rn rib.type)
    (hsame : ∀ old, same=some old → old∈rnodeToRibs s rn ∧ old.type ≠ .connect) :
    Locked more (addReplacing s rn rib same) := by
  have hlink := h.ribLink href hstale
  unfold RibOperations.addReplacing
  rw [ribAddnode_live s rn hrem]
  cases same with
  | none => exact hlink.giveBack hmore
  | some old =>
    obtain ⟨hmem,hty⟩ := hsame old rfl
    have hdel := hlink.ribDelnode rn old.addr fun rib' hrib' haddr => by
      rw [rnodeToRibs_ribLink,if_pos rfl] at hrib'
      rcases mem_cons.mp hrib' with hnew|hold
      · rw [hnew]
        exact href
      have hsame' := (h.queue.entries rn).1.eq_of_addr hold hmem haddr
      rw [hsame']
      exact refcnt_of_counted (h.counted rn old hmem) hty
    exact hdel.giveBack hmore

theorem connectedRefcnt_modifyRib (hnum : Numbered routes) (hmem : rib∈routes)
    (hty : rib.type=.connect) (hf : (f rib).type=rib.type) :
    connectedRefcnt (modifyRib rib.addr f routes)+rib.refcnt =
      connectedRefcnt routes+(f rib).refcnt := by
  induction routes with
  | nil => cases hmem
  | cons old rest ih =>
    obtain ⟨hold,hrs⟩ := pairwise_cons.mp hnum
    have hcons : modifyRib rib.addr f (old::rest) =
        (if old.addr=rib.addr then f old else old)::modifyRib rib.addr f rest := rfl
    rw [hcons,connectedRefcnt_cons,connectedRefcnt_cons]
    rcases mem_cons.mp hmem with heq|hmem'
    · have hsame : modifyRib rib.addr f rest=rest := by
        refine modifyRib_of_ne fun x hx => ?_
        rw [heq]
        exact ne_of_lt (hold x hx)
      rw [hsame,←heq,if_pos rfl,hf,if_pos hty,if_pos hty]
      omega
    have hne : ¬old.addr=rib.addr := ne_of_gt (hold rib hmem')
    have hrs' := ih hrs hmem'
    rw [if_neg hne]
    omega

end

section

variable {s : Zebra} {more : RouteNode→ℤ}

theorem addStops_eq_true {ifindex : BitVec 32} (h : addStops type ifindex rib=true) :
    rib.removed=false ∧ rib.type=type ∧ (type=.connect → (directHop rib).isSome=true) := by
  unfold addStops at h
  rw [and_eq_true,and_eq_true,not_eq_true',decide_eq_true_eq] at h
  refine ⟨h.1.1,h.1.2,fun hconnect => ?_⟩
  have hlast := h.2
  rw [decide_eq_false (not_not_intro hconnect),Bool.false_or] at hlast
  cases hdirect : directHop rib with
  | none =>
    rw [hdirect] at hlast
    exact nomatch hlast
  | some hop => rfl

/-- A duplicate more or less comes with a lock of the node. -/
theorem Locked.recount {rn : RouteNode} (h : Locked more s) (hmem : rib∈rnodeToRibs s rn)
    (hrem : rib.removed=false) (hty : rib.type=.connect)
    (hdirect : (directHop rib).isSome=true) {g : ℕ → ℕ} {n : ℤ}
    (hg : (g rib.refcnt : ℤ)+n=rib.refcnt) :
    Locked (oneMore more rn n) (s.setRoutes rn
      (modifyRib rib.addr fun rib => {rib with refcnt := g rib.refcnt})) := by
  have hnum := (h.queue.entries rn).1
  have hsum := connectedRefcnt_modifyRib hnum hmem hty
    (f := fun rib : Rib => {rib with refcnt := g rib.refcnt}) rfl
  refine ⟨h.queue.modify (f := fun rib : Rib => {rib with refcnt := g rib.refcnt})
      (fun _ => rfl) (fun _ => rfl) (fun _ => rfl) rn rib.addr,
    h.counted.setRoutes_modifyRib rn rib.addr fun rib' hrib haddr => ?_,fun rn' hsafi => ?_⟩
  · rw [hnum.eq_of_addr hrib hmem haddr]
    refine ⟨fun hr => ?_,fun _ => ⟨hty,hdirect⟩⟩
    have hr' : rib.removed=true := hr
    rw [hrem] at hr'
    exact nomatch hr'
  rw [excess_setRoutes s rn' rn (modifyRib_nil rib.addr _) (d := -n),h.excess rn' hsafi]
  · unfold oneMore
    split <;> ring
  dsimp only at hsum
  omega

theorem Locked.ribAddIpv4 (h : Locked (fun _ => 0) s) {request : AddRequest}
    (hstale : ¬Stale s (routeNode request.safi request.p) request.type) :
    Locked (fun _ => 0) (ribAddIpv4 s request) := by
  have hlock := h.routeLockNode (routeNode request.safi request.p)
  unfold RibOperations.ribAddIpv4
  dsimp only
  generalize routeNode request.safi request.p=rn at *
  split
  · rename_i same hfind hty
    obtain ⟨hrem,hsame,hdirect⟩ := addStops_eq_true (find?_some hfind)
    rw [hty] at hsame
    -- The duplicate keeps the lock of the lookup.
    have hcnt := hlock.recount (mem_of_find?_eq_some hfind) hrem hsame (hdirect hty)
      (g := (· + 1)) (n := -1) (by push_cast; ring)
    exact hcnt.congr fun rn' _ => oneMore_oneMore (fun _ => 0) rn rn'
  rename_i hno
  obtain ⟨hty,hrem,href,-⟩ := newRib_keeps request.rib
  refine hlock.addReplacing (le_refl 0) hrem href ?_ fun old hold => ?_
  · rw [hty,stale_routeLockNode]
    exact hstale
  obtain ⟨-,hsame,-⟩ := addStops_eq_true (find?_some hold)
  refine ⟨mem_of_find?_eq_some hold,fun hconnect => ?_⟩
  rw [hconnect] at hsame
  exact hno old hold hsame.symm

theorem Locked.ribAddIpv4Multipath (h : Locked (fun _ => 0) s) {request : RibRequest}
    (hstale : ¬Stale s (routeNode safi p) request.type) :
    Locked (fun _ => 0) (ribAddIpv4Multipath s p request safi) := by
  have hlock := h.routeLockNode (routeNode safi p)
  obtain ⟨hty,hrem,href,-⟩ := newRib_keeps request
  refine hlock.addReplacing (le_refl 0) hrem href ?_ fun old hold => ?_
  · rw [hty,stale_routeLockNode]
    exact hstale
  have hstops := find?_some hold
  unfold multipathStops at hstops
  rw [and_eq_true,decide_eq_true_eq] at hstops
  exact ⟨mem_of_find?_eq_some hold,hstops.2⟩

end

section

variable {s : Zebra} {more : RouteNode→ℤ} {routes : List Rib}

/-- What the loop of `rib_delete_ipv4` finds is a live entry. -/
def FoundOk (routes : List Rib) : DeleteFound→Prop
  | .counted rib => rib∈routes ∧ rib.removed=false ∧ rib.type=.connect ∧
      (directHop rib).isSome=true ∧ rib.refcnt≠0
  | .same rib => rib∈routes ∧ rib.removed=false ∧ (Counted rib → rib.refcnt=0)
  | .missing fib => ∀ rib, fib=some rib → rib∈routes ∧ rib.removed=false ∧ rib.flags.selected=true

/-- The loop looks at the rest behind the entries before it. -/
theorem deleteLookup_ok (type : RouteType) (gate : Option (BitVec 32)) (ifindex : BitVec 32)
    (rest : List Rib) : ∀ (fib : Option Rib) (seen : List Rib),
      (∀ rib, fib=some rib → rib∈seen ∧ rib.removed=false ∧ rib.flags.selected=true) →
        FoundOk (seen++rest) (deleteLookup type gate ifindex fib rest) := by
  induction rest with
  | nil =>
    intro fib seen hfib
    rw [append_nil]
    exact hfib
  | cons rib rest ih =>
    intro fib seen hfib
    have hmem : rib∈seen++rib::rest := mem_append_right _ mem_cons_self
    have hnext : ∀ fib', (∀ rib', fib'=some rib' → rib'∈seen++[rib] ∧
        rib'.removed=false ∧ rib'.flags.selected=true) →
        FoundOk (seen++rib::rest) (deleteLookup type gate ifindex fib' rest) := by
      intro fib' hfib'
      have hrs := ih fib' (seen++[rib]) hfib'
      rw [append_assoc,singleton_append] at hrs
      exact hrs
    have hold : ∀ rib', fib=some rib' → rib'∈seen++[rib] ∧ rib'.removed=false ∧
        rib'.flags.selected=true := fun rib' hrib' =>
      ⟨mem_append_left _ (hfib rib' hrib').1,(hfib rib' hrib').2⟩
    rw [deleteLookup]
    cases hrem : rib.removed with
    | true =>
      rw [if_pos rfl]
      exact hnext fib hold
    | false =>
      have hfib' : ∀ rib', (if rib.flags.selected then some rib else fib)=some rib' →
          rib'∈seen++[rib] ∧ rib'.removed=false ∧ rib'.flags.selected=true := by
        intro rib' hrib'
        split at hrib'
        · rename_i hsel
          rw [←some.inj hrib']
          exact ⟨mem_append_right _ (mem_singleton_self rib),hrem,hsel⟩
        · exact hold rib' hrib'
      rw [if_neg Bool.false_ne_true]
      dsimp only
      split
      · exact hnext _ hfib'
      split
      · rename_i hop hdirect
        split at hdirect
        · rename_i hconnect
          have hsome : (directHop rib).isSome=true := by
            rw [hdirect]
            rfl
          split
          · exact hnext _ hfib'
          split
          · exact ⟨hmem,hrem,hconnect,hsome, ‹_›⟩
          · exact ⟨hmem,hrem,fun _ => not_not.mp ‹_›⟩
        · exact nomatch hdirect
      · rename_i hnone
        have hz : Counted rib → rib.refcnt=0 := by
          intro hctd
          by_contra hne
          obtain ⟨hconnect,hsome⟩ := hctd.2 hne
          rw [if_pos hconnect] at hnone
          rw [hnone] at hsome
          exact nomatch hsome
        split
        · exact ⟨hmem,hrem,hz⟩
        split
        · exact ⟨hmem,hrem,hz⟩
        · exact hnext _ hfib'

theorem directHop_unsetTopFib (rib : Rib) :
    (directHop (unsetTopFib rib)).isSome=(directHop rib).isSome := by
  unfold directHop unsetTopFib
  cases rib.nexthops with
  | nil => rfl
  | cons hop rest =>
    rw [map_cons]
    dsimp only
    split <;> rfl

theorem Locked.ribDeleteIpv4 (h : Locked (fun _ => 0) s) (request : DeleteRequest) :
    Locked (fun _ => 0) (ribDeleteIpv4 s request) := by
  have hlock := h.routeLockNode (routeNode request.safi request.p)
  unfold RibOperations.ribDeleteIpv4
  dsimp only
  generalize routeNode request.safi request.p=rn at *
  split
  · exact h
  generalize RibOperations.routeLockNode s rn=locked at *
  have hfnd := deleteLookup_ok request.type request.gate request.ifindex
    (rnodeToRibs locked rn) none [] fun rib hrib => nomatch hrib
  rw [nil_append] at hfnd
  cases hlk : deleteLookup request.type request.gate request.ifindex none
      (rnodeToRibs locked rn) with
  | counted rib =>
    rw [hlk] at hfnd
    obtain ⟨hmem,hrem,hty,hdirect,href⟩ := hfnd
    have hcnt := hlock.recount hmem hrem hty hdirect (g := (· - 1)) (n := 1) (by omega)
    have hone : 0≤oneMore (fun _ => 0) rn 1 rn := by
      rw [oneMore_self]
      decide
    exact (hcnt.giveBack hone).giveBack (le_refl 0)
  | same rib =>
    rw [hlk] at hfnd
    obtain ⟨hmem,-,hz⟩ := hfnd
    have hdel := hlock.ribDelnode rn rib.addr fun rib' hrib' haddr => by
      rw [(hlock.queue.entries rn).1.eq_of_addr hrib' hmem haddr]
      exact hz (hlock.counted rn rib hmem)
    exact hdel.giveBack (le_refl 0)
  | missing fib =>
    have hunlock := hlock.giveBack (le_refl 0)
    cases fib with
    | none => exact hunlock
    | some fib =>
      dsimp only
      split
      · have hmodify := hlock.modify rn fib.addr
          (f := fun rib => (unsetTopFib rib).setSelected false) (fun _ => rfl) (fun _ => rfl)
          (fun _ => rfl) fun rib hmem _ => ?_
        · exact hmodify.giveBack (le_refl 0)
        obtain ⟨hrem,href⟩ := hlock.counted rn rib hmem
        refine ⟨hrem,fun hne => ⟨(href hne).1,?_⟩⟩
        exact (directHop_unsetTopFib rib).trans (href hne).2
      · exact hunlock

end

section

variable {s : Zebra} {more : RouteNode→ℤ} {rn : RouteNode}

theorem counted_of_refcnt (href : rib.refcnt=0) : Counted rib :=
  ⟨fun _ => href,fun hne => absurd href hne⟩

theorem account_staticNexthopAdd (si : StaticIpv4) (rib : Rib) :
    account (staticNexthopAdd si rib)=account rib := by
  unfold staticNexthopAdd
  cases si.gate <;> rfl

theorem Locked.modifyStatic (h : Locked more s) {f : Rib→Rib}
    (haddr : ∀ rib, (f rib).addr=rib.addr) (haccount : ∀ rib, account (f rib)=account rib)
    (hrem : ∀ rib, (f rib).removed=rib.removed) {addr : ℕ}
    (hstatic : ∀ rib∈rnodeToRibs s rn, rib.addr=addr → rib.type=.static) :
    Locked more (RibOperations.ribQueueAdd (s.setRoutes rn (modifyRib addr f)) rn) := by
  refine (h.modify rn addr haddr hrem haccount fun rib hmem hsame => ?_).ribQueueAdd rn
  have hty := hstatic rib hmem hsame
  have hz := refcnt_of_counted (h.counted rn rib hmem) (by
    rw [hty]
    decide)
  have href : (f rib).refcnt=rib.refcnt := congrArg Prod.snd (haccount rib)
  exact counted_of_refcnt (href.trans hz)

/-- Without a new entry on a unicast node, the lock of the lookup is given
back. -/
theorem Locked.staticInstallIpv4 (h : Locked (fun _ => 0) s) {si : StaticIpv4}
    (hstale : ¬Stale s (routeNode safi p) .static)
    (hold : safi=.unicast →
      ((rnodeToRibs s (routeNode safi p)).find? (staticStops si.distance)).isSome=true) :
    Locked (fun _ => 0) (staticInstallIpv4 s safi p si) := by
  have hlock := h.routeLockNode (routeNode safi p)
  unfold RibOperations.staticInstallIpv4
  dsimp only
  rw [rnodeToRibs_routeLockNode]
  cases hfind : (rnodeToRibs s (routeNode safi p)).find? (staticStops si.distance) with
  | some rib =>
    have hunlock := hlock.giveBack (le_refl 0)
    refine hunlock.modifyStatic (fun rib => (staticNexthopAdd_keeps si rib).2.1)
      (account_staticNexthopAdd si) (fun rib => (staticNexthopAdd_keeps si rib).2.2.1)
      fun rib' hmem haddr => ?_
    rw [rnodeToRibs_routeUnlockNode,rnodeToRibs_routeLockNode] at hmem
    rw [(h.queue.entries _).1.eq_of_addr hmem (mem_of_find?_eq_some hfind) haddr]
    exact (staticStops_eq_true (find?_some hfind)).2.1
  | none =>
    obtain ⟨hty,hrem,-⟩ := newStaticRib_keeps si
    have href : (newStaticRib si).refcnt=0 := congrArg Prod.snd (account_staticNexthopAdd si _)
    rw [ribAddnode_live _ _ hrem]
    have hlink := hlock.ribLink href (by
        rw [hty,stale_routeLockNode]
        exact hstale)
    refine hlink.congr fun rn' hsafi => ?_
    unfold oneMore
    rw [if_neg,add_zero]
    intro hsame
    have hunicast : safi=.unicast := (congrArg Prod.fst hsame).symm.trans hsafi
    have hsome := hold hunicast
    rw [hfind] at hsome
    exact nomatch hsome

theorem Locked.ribUninstall (h : Locked more s) (rn : RouteNode) (rib : Rib) :
    Locked more (ribUninstall s rn rib) := by
  have hdata : ∀ rib, ribData ((uninstallRib rn.1 rib).setSelected false)=ribData rib :=
    ribData_uninstallRib rn.1
  have haccount : ∀ {a b : Rib}, ribData a=ribData b → account a=account b := by
    intro a b hab
    have href := congrArg Rib.refcnt hab
    exact Prod.ext (ribData_unstaged hab).1 href
  unfold RibOperations.ribUninstall
  split
  · exact (h.redistribute rn.2 _).modify rn rib.addr (fun rib => (ribData_unstaged (hdata rib)).2.1)
      (fun rib => (ribData_unstaged (hdata rib)).2.2) (fun rib => haccount (hdata rib))
      fun rib' hmem _ => counted_of_ribData (hdata rib').symm (h.counted rn rib' hmem)
  · exact h

theorem map_ribData_ribUninstall (s : Zebra) (rn : RouteNode) (rib : Rib) :
    (rnodeToRibs (ribUninstall s rn rib) rn).map ribData=(rnodeToRibs s rn).map ribData := by
  rw [rnodeToRibs_ribUninstall]
  split
  · exact map_modifyRib
      (fun rib => by rw [ribData_setSelected,ribData_uninstallRib]) rib.addr _
  · rfl

theorem Locked.staticUninstallIpv4 (h : Locked (fun _ => 0) s) (safi : Safi) (p : PrefixIpv4)
    (si : StaticIpv4) : Locked (fun _ => 0) (staticUninstallIpv4 s safi p si) := by
  have hlock := h.routeLockNode (routeNode safi p)
  unfold RibOperations.staticUninstallIpv4
  dsimp only
  generalize routeNode safi p=rn at *
  split
  · exact h
  generalize RibOperations.routeLockNode s rn=locked at *
  cases hfind : (rnodeToRibs locked rn).find? (staticStops si.distance) with
  | none => exact hlock.giveBack (le_refl 0)
  | some rib =>
    have hmem := mem_of_find?_eq_some hfind
    have hty := (staticStops_eq_true (find?_some hfind)).2.1
    have hstatic : ∀ rib'∈rnodeToRibs locked rn, rib'.addr=rib.addr → rib'=rib :=
      fun rib' hmem' haddr => (hlock.queue.entries rn).1.eq_of_addr hmem' hmem haddr
    dsimp only
    split
    · exact hlock.giveBack (le_refl 0)
    refine Locked.giveBack ?_ (le_refl 0)
    split
    · refine hlock.ribDelnode rn rib.addr fun rib' hmem' haddr => ?_
      rw [hstatic rib' hmem' haddr]
      exact refcnt_of_counted (hlock.counted rn rib hmem) (by
        rw [hty]
        decide)
    split
    · refine (hlock.ribUninstall rn rib).modifyStatic (f := nexthopDelete si) (fun _ => rfl)
        (fun _ => rfl) (fun _ => rfl) fun rib' hmem' haddr => ?_
      have hdata : ribData rib'∈(rnodeToRibs locked rn).map ribData := by
        rw [←map_ribData_ribUninstall locked rn rib]
        exact mem_map_of_mem hmem'
      obtain ⟨old,hold,heq⟩ := mem_map.mp hdata
      obtain ⟨hty',haddr',-⟩ := ribData_unstaged heq
      rw [←hty',hstatic old hold (haddr'.trans haddr)]
      exact hty
    refine hlock.modifyStatic (f := nexthopDelete si) (fun _ => rfl) (fun _ => rfl)
      (fun _ => rfl) fun rib' hmem' haddr => ?_
    rw [hstatic rib' hmem' haddr]
    exact hty

theorem Locked.setStable (h : Locked more s) (rn : RouteNode) (f : List StaticIpv4→List StaticIpv4) :
    Locked more (s.setStable rn f) :=
  ⟨⟨⟨h.queue.nodup,h.queue.mem,h.queue.size⟩,h.queue.pending,h.queue.fresh,h.queue.entries⟩,
    h.counted,h.excess⟩

theorem Locked.staticDeleteIpv4Safi (h : Locked (fun _ => 0) s) (safi : Safi) (p : PrefixIpv4)
    (gate : StaticGate) : Locked (fun _ => 0) (staticDeleteIpv4Safi s safi p gate) := by
  unfold RibOperations.staticDeleteIpv4Safi
  dsimp only
  split
  · exact h
  · exact (h.staticUninstallIpv4 safi p _).setStable _ _

theorem stale_staticUninstallIpv4 {si : StaticIpv4}
    (h : Stale (staticUninstallIpv4 s safi p si) rn type) : Stale s rn type := by
  have hlock : ∀ {s : Zebra} {rn' : RouteNode} {n : ℕ},
      Stale (s.setNode rn' {s.nodes rn' with lock := n}) rn type → Stale s rn type :=
    fun {s rn' n} hstale =>
      ((NodeChange.setNode s rn' {s.nodes rn' with lock := n}).stale ⟨fun _ => rfl,rfl⟩).mp hstale
  have hrts : ∀ {s : Zebra} {rn' : RouteNode} {f : List Rib → List Rib},
      Stale (s.setRoutes rn' f) rn type → Stale s rn type := fun {s rn' f} hstale =>
    ((nodeChange_setRoutes s rn' f).stale (waitsAs_routedNode _ f)).mp hstale
  unfold staticUninstallIpv4 at h
  dsimp only at h
  split at h
  · exact h
  split at h
  · exact hlock (hlock h)
  split at h
  · exact hlock (hlock h)
  replace h := hlock h
  have hlocked : Stale (routeLockNode s (routeNode safi p)) rn type := by
    split at h
    · exact hrts ((queues_ribQueueAdd _ _).stale h)
    replace h := hrts ((queues_ribQueueAdd _ _).stale h)
    split at h
    · unfold ribUninstall at h
      split at h
      · exact (hrts h :)
      · exact h
    · exact h
  exact hlock hlocked

/-- The gateway is configured with this distance. -/
def Configured (s : Zebra) (safi : Safi) (p : PrefixIpv4) (gate : StaticGate)
    (distance : BitVec 8) : Prop :=
  ∃ si∈s.stable (routeNode safi p), si.gate=gate ∧ si.distance=distance

/-- There is a live static entry of the distance. -/
def HasStatic (s : Zebra) (rn : RouteNode) (distance : BitVec 8) : Prop :=
  ∃ rib∈rnodeToRibs s rn, staticStops distance rib=true

theorem Locked.staticAddIpv4Safi (h : Locked (fun _ => 0) s) {gate : StaticGate}
    {flags : ZebraFlags} {distance : BitVec 8}
    (hleg : Configured s safi p gate distance ∨ ¬Stale s (routeNode safi p) .static ∧
      (safi=.unicast → HasStatic s (routeNode safi p) distance)) :
    Locked (fun _ => 0) (staticAddIpv4Safi s safi p gate flags distance) := by
  unfold RibOperations.staticAddIpv4Safi
  dsimp only
  split
  · exact h
  rename_i hno
  obtain ⟨hstale,hstatic⟩ := hleg.resolve_left fun ⟨si,hmem,hgate,hdist⟩ => hno
    (any_eq_true.mpr ⟨si,hmem,by
      rw [decide_eq_true hgate,decide_eq_true hdist]
      rfl⟩)
  split
  · -- The route has another distance, and its entry is not the one looked for.
    have hdelete := h.staticDeleteIpv4Safi safi p gate
    refine (hdelete.setStable _ _).staticInstallIpv4 (fun hstale' => hstale ?_) fun hsafi => ?_
    · have hstale'' : Stale (RibOperations.staticDeleteIpv4Safi s safi p gate)
          (routeNode safi p) .static := hstale'
      unfold RibOperations.staticDeleteIpv4Safi at hstale''
      dsimp only at hstale''
      split at hstale''
      · exact hstale''
      · exact stale_staticUninstallIpv4 hstale''
    obtain ⟨rib,hmem,hstops⟩ := hstatic hsafi
    rw [find?_isSome]
    refine ⟨rib,?_,hstops⟩
    have hsame : rib∈rnodeToRibs (RibOperations.staticDeleteIpv4Safi s safi p gate)
        (routeNode safi p) := by
      unfold RibOperations.staticDeleteIpv4Safi
      dsimp only
      cases hfind : (s.stable (routeNode safi p)).find? fun si => si.gate=gate with
      | none => exact hmem
      | some si =>
        have hgate := of_decide_eq_true
          (@find?_some _ (fun si : StaticIpv4 => decide (si.gate=gate)) _ _ hfind)
        have hne : rib.distance≠si.distance := fun heq => by
          rw [(staticStops_eq_true hstops).2.2] at heq
          refine hno (any_eq_true.mpr ⟨si,mem_of_find?_eq_some hfind,?_⟩)
          rw [decide_eq_true hgate,decide_eq_true heq.symm]
          rfl
        have hkeeps := mem_uninstalledRoutes (h.queue.entries (routeNode safi p)).1 hmem safi hne
        have hrts := rnodeToRibs_staticUninstallIpv4 s safi p si (routeNode safi p)
        rw [if_pos rfl] at hrts
        rw [←hrts] at hkeeps
        exact hkeeps
    exact hsame
  · refine (h.setStable _ _).staticInstallIpv4 hstale fun hsafi => ?_
    obtain ⟨rib,hmem,hstops⟩ := hstatic hsafi
    rw [find?_isSome]
    exact ⟨rib,hmem,hstops⟩

end

/-- The entry points that lock nodes. -/
inductive LockStep where
  | ribAdd (request : AddRequest)
  | ribAddMultipath (p : PrefixIpv4) (request : RibRequest) (safi : Safi)
  | ribDelete (request : DeleteRequest)
  | staticAdd (safi : Safi) (p : PrefixIpv4) (gate : StaticGate) (flags : ZebraFlags)
      (distance : BitVec 8)
  | staticDelete (safi : Safi) (p : PrefixIpv4) (gate : StaticGate)
  | metaQueueProcess (env : Environment)

/-- One step. It fails when the assertion in `rib_process` does. -/
def lockStep (s : Zebra) : LockStep→Option Zebra
  | .ribAdd request => some (ribAddIpv4 s request)
  | .ribAddMultipath p request safi => some (ribAddIpv4Multipath s p request safi)
  | .ribDelete request => some (ribDeleteIpv4 s request)
  | .staticAdd safi p gate flags distance => some (staticAddIpv4Safi s safi p gate flags distance)
  | .staticDelete safi p gate => some (staticDeleteIpv4Safi s safi p gate)
  | .metaQueueProcess env => metaQueueProcess env s

/-- No stale node gets an entry, nor a unicast node a first static route. -/
def Unleaking (s : Zebra) : LockStep→Prop
  | .ribAdd request => ¬Stale s (routeNode request.safi request.p) request.type
  | .ribAddMultipath p request safi => ¬Stale s (routeNode safi p) request.type
  | .staticAdd safi p gate _ distance =>
    Configured s safi p gate distance ∨ ¬Stale s (routeNode safi p) .static ∧
        (safi=.unicast → HasStatic s (routeNode safi p) distance)
  | _ => True

/-- The locks of the nodes of the unicast table. -/
structure LocksAccounted (s : Zebra) : Prop where
  /-- A node is locked for its dest, its sub-queues, and duplicates of connected entries. -/
  lock : ∀ rn : RouteNode, rn.1=.unicast → (s.nodes rn).lock =
    (if (s.nodes rn).dest.isSome then 1 else 0) +
      (Finset.univ.filter fun q => rn∈s.subq q).card+connectedRefcnt (rnodeToRibs s rn)
  /-- A node without entries that waits nowhere has left the table. -/
  leaves : ∀ rn : RouteNode, rn.1=.unicast → (s.nodes rn).dest=none →
    (∀ q, rn ∉ s.subq q) → (s.nodes rn).lock=0

section

variable {s s' : Zebra}

theorem waits_eq_card (h : QueueOk s) (rn : RouteNode) :
    waits s rn=(Finset.univ.filter fun q => rn∈s.subq q).card := by
  rw [Finset.card_filter]
  refine Finset.sum_congr rfl fun q _ => ?_
  rw [(h.nodup q).count]

theorem Locked.accounted (h : Locked (fun _ => 0) s) : LocksAccounted s := by
  have hlock : ∀ rn : RouteNode, rn.1=.unicast → (s.nodes rn).lock =
      (if (s.nodes rn).dest.isSome then 1 else 0)+(Finset.univ.filter fun q => rn∈s.subq q).card +
          connectedRefcnt (rnodeToRibs s rn) := by
    intro rn hsafi
    have hz := h.excess rn hsafi
    unfold RibLocks.excess nodeRefs at hz
    rw [waits_eq_card h.queue] at hz
    rw [rnodeToRibs_eq]
    omega
  refine ⟨hlock,fun rn hsafi hnone hout => ?_⟩
  have hemp : (Finset.univ.filter fun q => rn∈s.subq q) = ∅ :=
    Finset.filter_eq_empty_iff.mpr fun q _ => hout q
  rw [hlock rn hsafi,hemp,rnodeToRibs_of_none hnone,hnone]
  rfl

theorem lockStep_locked {step : LockStep} (h : Locked (fun _ => 0) s) (hleg : Unleaking s step)
    (hstep : lockStep s step=some s') : Locked (fun _ => 0) s' := by
  cases step with
  | ribAdd request =>
    rw [←some.inj hstep]
    exact h.ribAddIpv4 hleg
  | ribAddMultipath p request safi =>
    rw [←some.inj hstep]
    exact h.ribAddIpv4Multipath hleg
  | ribDelete request =>
    rw [←some.inj hstep]
    exact h.ribDeleteIpv4 request
  | staticAdd safi p gate flags distance =>
    rw [←some.inj hstep]
    exact h.staticAddIpv4Safi hleg
  | staticDelete safi p gate =>
    rw [←some.inj hstep]
    exact h.staticDeleteIpv4Safi safi p gate
  | metaQueueProcess env =>
    have hent := h.queue.entries
    exact ⟨h.queue.metaQueueProcess hstep,h.counted.metaQueueProcess hent hstep,
      fun rn hsafi => excess_metaQueueProcess hent h.counted (h.excess rn hsafi) hstep⟩

theorem locked_emptyZebra : Locked (fun _ => 0) emptyZebra := by
  refine ⟨queueOk_emptyZebra,fun rn rib hmem => absurd hmem not_mem_nil,fun rn _ => ?_⟩
  rfl

/-- In every run of such steps, all locks on nodes of the unicast table are accounted for, up to an
assertion of `rib_process` that fails. -/
theorem lockRun_accounted {steps : List LockStep}
    (hlegal : LegalRun lockStep Unleaking emptyZebra steps)
    (hrun : run lockStep emptyZebra steps=some s) : LocksAccounted s :=
  (run_preserves (fun _ _ _ h hl hstep => lockStep_locked h hl hstep) steps emptyZebra s
    locked_emptyZebra hlegal hrun).accounted

/-- A connected route of 10.0.0.0/8. -/
def sampleConnected : AddRequest :=
  ⟨.connect,0,ZebraFlags.none,⟨0x0a000001,slash8⟩,none,none,3,0,0,0,.unicast⟩

/-- It is added twice, processed, and deleted once. -/
def sampleLockSteps : List LockStep :=
  [.ribAdd sampleConnected,.ribAdd sampleConnected,.metaQueueProcess sampleEnvironment,
    .ribDelete ⟨.connect,⟨0x0a000001,slash8⟩,none,3,.unicast⟩]

theorem lockRun_accounted_sampleLockSteps :
    ∃ s, run lockStep emptyZebra sampleLockSteps=some s ∧ LocksAccounted s := by
  have hrun : (run lockStep emptyZebra sampleLockSteps).isSome=true := by decide
  obtain ⟨s,hs⟩ := isSome_iff_exists.mp hrun
  refine ⟨s,hs,lockRun_accounted ?_ hs⟩
  have hfirst : ¬Stale emptyZebra sampleNode .connect := by decide
  have hsecond : ¬Stale (ribAddIpv4 emptyZebra sampleConnected) sampleNode .connect := by decide
  refine legalRun_cons hfirst rfl
    ⟨hsecond,fun s2 _ => ⟨trivial,fun s3 _ => ⟨trivial,fun _ _ => trivial⟩⟩⟩

/-- The first static route is processed: one lock too many. -/
theorem staticAddIpv4Safi_leaks : ∃ s,
    run lockStep emptyZebra [.staticAdd .unicast ⟨0x0a000000,8⟩ (.gateway 0x01020304)
      ZebraFlags.none 1,.metaQueueProcess sampleEnvironment]=some s ∧
      (s.nodes sampleNode).lock=2 ∧ ¬LocksAccounted s := by
  have hstate : (run lockStep emptyZebra [.staticAdd .unicast ⟨0x0a000000,8⟩
      (.gateway 0x01020304) ZebraFlags.none 1,.metaQueueProcess sampleEnvironment]).map
        (fun s => ((s.nodes sampleNode).lock,(s.nodes sampleNode).dest.isSome,
          (Finset.univ.filter fun q => sampleNode∈s.subq q).card,
          connectedRefcnt (rnodeToRibs s sampleNode)))=some (2,true,0,0) := by decide
  obtain ⟨s,hs,hnode⟩ := map_eq_some_iff.mp hstate
  rw [Prod.mk.injEq,Prod.mk.injEq,Prod.mk.injEq] at hnode
  obtain ⟨hlock,hsome,hcard,hrefcnt⟩ := hnode
  refine ⟨s,hs,hlock,fun h => ?_⟩
  have hone := h.lock sampleNode rfl
  rw [hlock,hsome,hcard,hrefcnt] at hone
  cases hone

end

end RoutePlatform.RibLocks
