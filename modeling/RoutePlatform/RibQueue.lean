import RoutePlatform.RibFrames
import RoutePlatform.OperationRuns

/-!
# The meta queue

A node waits in a sub-queue when its dest has the flag for it, or when the dest under which it was
put there was freed in the meantime; then `rib_link` can put it there once more. Apart from that,
no node is queued twice and none is lost.
-/

namespace RoutePlatform.RibQueue

open RibEntries RibOperations RibProcessing RibFrames OperationRuns Function List Option

variable {rn' : RouteNode} {dest : RibDest} {f : Rib→Rib} (node : Node) {type : RouteType}
  {s'' : Zebra} (routes : List Rib)

structure Queued (s : Zebra) : Prop where
  nodup : ∀ q, (s.subq q).Nodup
  /-- A node waits where its dest says, or where a freed dest said. -/
  mem : ∀ q rn, rn∈s.subq q ↔ nodeQueued (s.nodes rn) q=true ∨ (s.nodes rn).orphan q=true
  size : s.size = ∑ q, (s.subq q).length

/-- Something is left to do: an entry was removed, or was added and not
processed. -/
def Pending (node : Node) : Prop := node.unprocessed=true ∨ ∃ rib∈nodeRoutes node, rib.removed=true

/-- The node waits in the sub-queue of a type, while its dest, if there is
one, does not say so. -/
def Stale (s : Zebra) (rn : RouteNode) (type : RouteType) : Prop :=
  rn∈s.subq (metaQueueMap type) ∧ nodeQueued (s.nodes rn) (metaQueueMap type)=false

instance decidableStale (s : Zebra) (rn : RouteNode) (type : RouteType) :
    Decidable (Stale s rn type) :=
  inferInstanceAs (Decidable (_ ∧ _))

/-- The queue is in order: nothing is queued twice, and nothing is lost. -/
structure QueueOk (s : Zebra) : Prop extends Queued s where
  pending : ∀ rn, Pending (s.nodes rn) → ∃ q, rn∈s.subq q
  /-- The entries of a node are queued under its dest. -/
  fresh : ∀ rn, ∀ rib∈rnodeToRibs s rn, ¬Stale s rn rib.type
  entries : EntriesOk s

/-- What queueing a node does to the queue. -/
structure Queues (rn : RouteNode) (s s' : Zebra) : Prop where
  other : ∀ rn', rn'≠rn → s'.nodes rn'=s.nodes rn'
  routes : nodeRoutes (s'.nodes rn)=nodeRoutes (s.nodes rn)
  dest : (s'.nodes rn).dest.isSome=(s.nodes rn).dest.isSome
  orphan : (s'.nodes rn).orphan=(s.nodes rn).orphan
  unprocessed : (s'.nodes rn).unprocessed=(s.nodes rn).unprocessed
  mem_other : ∀ q rn', rn'≠rn → (rn'∈s'.subq q ↔ rn'∈s.subq q)
  mono : ∀ q, rn∈s.subq q → rn∈s'.subq q
  /-- Where it waits now, it waited before, or has the flag. -/
  new : ∀ q, rn∈s'.subq q → rn∈s.subq q ∨ nodeQueued (s'.nodes rn) q=true
  queued : ∀ q, nodeQueued (s.nodes rn) q=true → nodeQueued (s'.nodes rn) q=true

section

variable {s s' : Zebra} {rn : RouteNode} {type : RouteType} {node : Node}

theorem Queues.refl (rn : RouteNode) (s : Zebra) : Queues rn s s :=
  ⟨fun _ _ => rfl,rfl,rfl,rfl,rfl,fun _ _ _ => Iff.rfl,fun _ h => h,fun _ h => .inl h, fun _ h => h⟩

theorem Queues.trans (h : Queues rn s s') (h' : Queues rn s' s'') : Queues rn s s'' where
  other rn' hne := (h'.other rn' hne).trans (h.other rn' hne)
  routes := h'.routes.trans h.routes
  dest := h'.dest.trans h.dest
  orphan := h'.orphan.trans h.orphan
  unprocessed := h'.unprocessed.trans h.unprocessed
  mem_other q rn' hne := (h'.mem_other q rn' hne).trans (h.mem_other q rn' hne)
  mono q hin := h'.mono q (h.mono q hin)
  new q hin := by
    rcases h'.new q hin with hin'|hqd
    · exact (h.new q hin').imp_right (h'.queued q)
    · exact .inr hqd
  queued q hq := h'.queued q (h.queued q hq)

theorem Queues.stale (h : Queues rn s s') (hstale : Stale s' rn' type) : Stale s rn' type := by
  obtain ⟨hin,hq⟩ := hstale
  by_cases hrn : rn'=rn
  · rw [hrn] at hin hq ⊢
    refine ⟨?_,?_⟩
    · rcases h.new _ hin with hin'|hqd
      · exact hin'
      rw [hqd] at hq
      exact nomatch hq
    rw [←Bool.not_eq_true]
    intro hqd
    rw [h.queued _ hqd] at hq
    exact nomatch hq
  rw [h.other rn' hrn] at hq
  exact ⟨(h.mem_other _ rn' hrn).mp hin,hq⟩

theorem nodeQueued_queuedNode (hdest : node.dest=some dest) (q q' : Fin 5) :
    nodeQueued (queuedNode node dest q) q'=(nodeQueued node q' || decide (q'=q)) := by
  unfold nodeQueued queuedNode
  rw [hdest]
  dsimp only [any_some]
  by_cases h : q'=q
  · rw [h,update_self,decide_eq_true rfl,Bool.or_true]
  · rw [update_of_ne h,decide_eq_false h,Bool.or_false]

theorem sum_update (g : List RouteNode→ℕ) (f : Fin 5→List RouteNode) (q : Fin 5)
    (l : List RouteNode) :
    (∑ i, g (update f q l i))+g (f q)=(∑ i, g (f i))+g l := by
  have hupdate : (fun i => g (update f q l i)) = update (fun i => g (f i)) q (g l) := by
    funext i
    by_cases h : i=q
    · rw [h,update_self,update_self]
    · rw [update_of_ne h,update_of_ne h]
  have hsplit := Finset.add_sum_erase Finset.univ (fun i => g (f i)) (Finset.mem_univ q)
  rw [hupdate,Finset.sum_update_of_mem (Finset.mem_univ q),←Finset.erase_eq]
  omega

theorem queues_queuedState (hdest : (s.nodes rn).dest=some dest) (q0 : Fin 5) :
    Queues rn s (queuedState s rn dest q0) := by
  have hself : (queuedState s rn dest q0).nodes rn=queuedNode (s.nodes rn) dest q0 := by
    exact update_self rn (queuedNode (s.nodes rn) dest q0) s.nodes
  refine ⟨fun rn' hne => update_of_ne hne _ _,?_,?_,?_,?_,fun q rn' hne => ?_,
    fun q hin => ?_,fun q hin => ?_,fun q hq => ?_⟩
  · rw [hself]
    unfold nodeRoutes queuedNode
    rw [hdest]
  · rw [hself,hdest]
    rfl
  · rw [hself]
    rfl
  · rw [hself]
    rfl
  · unfold queuedState
    dsimp only
    by_cases h : q=q0
    · rw [h,update_self,mem_append,mem_singleton,or_iff_left hne]
    · rw [update_of_ne h]
  · unfold queuedState
    dsimp only
    by_cases h : q=q0
    · rw [h,update_self]
      exact mem_append_left _ (h ▸ hin)
    rw [update_of_ne h]
    exact hin
  · by_cases h : q=q0
    · rw [hself,nodeQueued_queuedNode hdest,decide_eq_true h,Bool.or_true]
      exact .inr rfl
    unfold queuedState at hin
    dsimp only at hin
    rw [update_of_ne h] at hin
    exact .inl hin
  · rw [hself,nodeQueued_queuedNode hdest,hq,Bool.true_or]

theorem Queued.queuedState (hqd : Queued s) (hdest : (s.nodes rn).dest=some dest) {q0 : Fin 5}
    (hout : rn ∉ s.subq q0) : Queued (queuedState s rn dest q0) := by
  unfold RibFrames.queuedState
  refine ⟨fun q => ?_,fun q rn' => ?_,?_⟩
  all_goals dsimp only
  · by_cases h : q=q0
    · rw [h,update_self]
      exact List.Nodup.append (hqd.nodup q0) (nodup_singleton rn) (disjoint_singleton.mpr hout)
    rw [update_of_ne h]
    exact hqd.nodup q
  · by_cases hrn : rn'=rn
    · rw [hrn,update_self,nodeQueued_queuedNode hdest,Bool.or_eq_true,decide_eq_true_eq]
      by_cases h : q=q0
      · rw [h,update_self]
        exact iff_of_true (mem_append_right _ (mem_singleton_self rn)) (.inl (.inr rfl))
      rw [update_of_ne h,hqd.mem q rn,or_iff_left h]
      rfl
    rw [update_of_ne hrn]
    by_cases h : q=q0
    · rw [h,update_self,mem_append,mem_singleton,or_iff_left hrn]
      exact hqd.mem q0 rn'
    rw [update_of_ne h]
    exact hqd.mem q rn'
  · have hsum := sum_update length s.subq q0 (s.subq q0++[rn])
    rw [length_append,length_singleton] at hsum
    have hsize := hqd.size
    omega

theorem queueType_spec (hqd : Queued s) (hstale : ¬Stale s rn type) :
    Queued (queueType rn s type) ∧ Queues rn s (queueType rn s type) ∧
      ((s.nodes rn).dest.isSome=true → rn∈(queueType rn s type).subq (metaQueueMap type)) := by
  rcases queueType_cases rn s type with ⟨hsame,hflag⟩|⟨dest,hdest,hunqueued,hnew⟩
  · rw [hsame]
    refine ⟨hqd,.refl rn s,fun hsome => (hqd.mem _ rn).mpr (.inl ?_)⟩
    obtain ⟨dest,hdest⟩ := isSome_iff_exists.mp hsome
    unfold nodeQueued
    rw [hdest]
    exact hflag dest hdest
  have hq : nodeQueued (s.nodes rn) (metaQueueMap type)=false := by
    unfold nodeQueued
    rw [hdest]
    exact hunqueued
  have hout : rn ∉ s.subq (metaQueueMap type) := fun hin => hstale ⟨hin,hq⟩
  rw [hnew]
  refine ⟨hqd.queuedState hdest hout,queues_queuedState hdest _,fun _ => ?_⟩
  unfold queuedState
  dsimp only
  rw [update_self]
  exact mem_append_right _ (mem_singleton_self rn)

theorem queueTypes_spec (rn : RouteNode) (types : List RouteType) : ∀ s : Zebra, Queued s →
    (∀ type∈types, ¬Stale s rn type) →
      Queued (types.foldl (queueType rn) s) ∧ Queues rn s (types.foldl (queueType rn) s) ∧
        ((s.nodes rn).dest.isSome=true →
          ∀ type∈types, rn∈(types.foldl (queueType rn) s).subq (metaQueueMap type)) := by
  induction types with
  | nil => exact fun s h _ => ⟨h,.refl rn s,fun _ type hmem => absurd hmem not_mem_nil⟩
  | cons type rest ih =>
    intro s hqd hstale
    obtain ⟨hqd',hqueues,hin⟩ := queueType_spec hqd (hstale type mem_cons_self)
    obtain ⟨hqd'',hqueues',hin'⟩ := ih (queueType rn s type) hqd' fun type' hmem h =>
      hstale type' (.tail _ hmem) (hqueues.stale h)
    refine ⟨hqd'',hqueues.trans hqueues',fun hsome type' hmem => ?_⟩
    rcases mem_cons.mp hmem with heq|hrs
    · rw [heq]
      exact hqueues'.mono _ (hin hsome)
    · exact hin' (hqueues.dest.trans hsome) type' hrs

theorem queues_ribQueueAdd (s : Zebra) (rn : RouteNode) : Queues rn s (ribQueueAdd s rn) :=
  ribQueueAdd_keeps (fun _ _ q hdest h => h.trans (queues_queuedState hdest q)) (.refl rn s)

theorem ribQueueAdd_spec (hqd : Queued s)
    (hstale : ∀ rib∈rnodeToRibs s rn, ¬Stale s rn rib.type) :
    Queued (ribQueueAdd s rn) ∧ Queues rn s (ribQueueAdd s rn) ∧
      ∀ rib∈rnodeToRibs s rn, rn∈(ribQueueAdd s rn).subq (metaQueueMap rib.type) := by
  unfold ribQueueAdd
  split
  · rename_i hnil
    rw [hnil]
    exact ⟨hqd,.refl rn s,fun rib hmem => absurd hmem not_mem_nil⟩
  rename_i hrts
  have hsome : (s.nodes rn).dest.isSome=true := by
    cases hdest : (s.nodes rn).dest with
    | none =>
      refine absurd ?_ hrts
      unfold rnodeToRibs
      rw [hdest]
    | some dest => rfl
  obtain ⟨hqd',hqueues,hin⟩ := queueTypes_spec rn ((rnodeToRibs s rn).map Rib.type) s
    hqd fun type hmem => by
      obtain ⟨rib,hrib,hty⟩ := mem_map.mp hmem
      rw [←hty]
      exact hstale rib hrib
  exact ⟨hqd',hqueues,fun rib hmem => hin hsome _ (mem_map_of_mem hmem)⟩

end

/-- Only one node changes, in a given way, and the sub-queues do not. -/
structure NodeChange (rn : RouteNode) (node : Node) (s s' : Zebra) : Prop where
  self : s'.nodes rn=node
  other : ∀ rn', rn'≠rn → s'.nodes rn'=s.nodes rn'
  subq : s'.subq=s.subq
  size : s'.size=s.size

structure WaitsAs (node node' : Node) : Prop where
  queued : ∀ q, nodeQueued node' q=nodeQueued node q
  orphan : node'.orphan=node.orphan

section

variable {s s' : Zebra} {rn : RouteNode} {node node' : Node}

theorem NodeChange.setNode (s : Zebra) (rn : RouteNode) (node : Node) :
    NodeChange rn node s (s.setNode rn node) :=
  ⟨nodes_setNode_self,fun _ h => nodes_setNode_of_ne h,rfl,rfl⟩

theorem NodeChange.trans (h : NodeChange rn node s s') (h' : NodeChange rn node' s' s'') :
    NodeChange rn node' s s'' :=
  ⟨h'.self,fun rn' hne => (h'.other rn' hne).trans (h.other rn' hne),h'.subq.trans h.subq,
    h'.size.trans h.size⟩

theorem WaitsAs.refl (node : Node) : WaitsAs node node := ⟨fun _ => rfl,rfl⟩

theorem WaitsAs.trans {node'' : Node} (h : WaitsAs node node') (h' : WaitsAs node' node'') :
    WaitsAs node node'' :=
  ⟨fun q => (h'.queued q).trans (h.queued q),h'.orphan.trans h.orphan⟩

theorem NodeChange.stale (h : NodeChange rn node s s') (hwaits : WaitsAs (s.nodes rn) node) :
    Stale s' rn' type ↔ Stale s rn' type := by
  unfold Stale
  rw [h.subq]
  by_cases hrn : rn'=rn
  · rw [hrn,h.self,hwaits.queued]
  · rw [h.other rn' hrn]

theorem Queued.change (hqd : Queued s) (h : NodeChange rn node s s')
    (hwaits : WaitsAs (s.nodes rn) node) : Queued s' := by
  refine ⟨fun q => ?_,fun q rn' => ?_,?_⟩
  · rw [h.subq]
    exact hqd.nodup q
  · rw [h.subq,hqd.mem q rn']
    by_cases hrn : rn'=rn
    · rw [hrn,h.self,hwaits.queued,hwaits.orphan]
    · rw [h.other rn' hrn]
  rw [h.size,h.subq]
  exact hqd.size

section

variable (hok : QueueOk s) (h : NodeChange rn node s s') (hwaits : WaitsAs (s.nodes rn) node)
  (hentries : EntriesOk s')
include hok h hwaits hentries

theorem QueueOk.change (hpending : Pending node → Pending (s.nodes rn))
    (hfresh : ∀ rib∈nodeRoutes node, ¬Stale s rn rib.type) : QueueOk s' := by
  refine ⟨hok.toQueued.change h hwaits,fun rn' hleft => ?_,fun rn' rib hmem hstale => ?_,hentries⟩
  · rw [h.subq]
    by_cases hrn : rn'=rn
    · rw [hrn] at hleft ⊢
      rw [h.self] at hleft
      exact hok.pending rn (hpending hleft)
    rw [h.other rn' hrn] at hleft
    exact hok.pending rn' hleft
  rw [h.stale hwaits] at hstale
  rw [rnodeToRibs_eq] at hmem
  by_cases hrn : rn'=rn
  · rw [hrn,h.self] at hmem
    rw [hrn] at hstale
    exact hfresh rib hmem hstale
  rw [h.other rn' hrn] at hmem
  exact hok.fresh rn' rib hmem hstale

theorem QueueOk.changeAdd (hpending : Pending node → nodeRoutes node≠[] ∨ Pending (s.nodes rn))
    (hfresh : ∀ rib∈nodeRoutes node, ¬Stale s rn rib.type) : QueueOk (ribQueueAdd s' rn) := by
  have hstale : ∀ rib∈rnodeToRibs s' rn, ¬Stale s' rn rib.type := fun rib hmem => by
    rw [h.stale hwaits]
    rw [rnodeToRibs_eq,h.self] at hmem
    exact hfresh rib hmem
  obtain ⟨hqd,hqueues,hin⟩ := ribQueueAdd_spec (hok.toQueued.change h hwaits) hstale
  refine ⟨hqd,fun rn' hleft => ?_,fun rn' rib hmem hstale' => ?_,
    hentries.of_eq (untouched_ribQueueAdd s' rn).nextRib (rnodeToRibs_ribQueueAdd s' rn)⟩
  · by_cases hrn : rn'=rn
    · have hnode : Pending node := by
        unfold Pending at hleft ⊢
        rw [hrn,hqueues.unprocessed,hqueues.routes,h.self] at hleft
        exact hleft
      rw [hrn]
      rcases hpending hnode with hrts|hold
      · obtain ⟨rib,hrib⟩ := exists_mem_of_ne_nil _ hrts
        refine ⟨_,hin rib ?_⟩
        rw [rnodeToRibs_eq,h.self]
        exact hrib
      obtain ⟨q,hq⟩ := hok.pending rn hold
      refine ⟨q,hqueues.mono q ?_⟩
      rw [h.subq]
      exact hq
    · rw [hqueues.other rn' hrn,h.other rn' hrn] at hleft
      obtain ⟨q,hq⟩ := hok.pending rn' hleft
      refine ⟨q,(hqueues.mem_other q rn' hrn).mpr ?_⟩
      rw [h.subq]
      exact hq
  · rw [rnodeToRibs_ribQueueAdd] at hmem
    have hstale'' := hqueues.stale hstale'
    by_cases hrn : rn'=rn
    · rw [hrn] at hmem hstale''
      exact hstale rib hmem hstale''
    rw [rnodeToRibs_eq,h.other rn' hrn] at hmem
    exact hok.fresh rn' rib hmem ((h.stale hwaits).mp hstale'')

end

end

def routedNode (node : Node) (f : List Rib→List Rib) : Node :=
  {node with dest := node.dest.map fun dest => {dest with routes := f dest.routes}}

def destNode (node : Node) : Node :=
  match node.dest with
  | some _ => node
  | none => {node with lock := node.lock+1,dest := some ⟨fun _ => false,[]⟩}

section

variable {s s' : Zebra} {rn : RouteNode} {rib : Rib}

theorem waitsAs_routedNode (f : List Rib→List Rib) : WaitsAs node (routedNode node f) := by
  refine ⟨fun q => ?_,rfl⟩
  unfold nodeQueued routedNode
  cases node.dest <;> rfl

theorem nodeRoutes_routedNode {f : List Rib → List Rib} (hf : f []=[]) :
    nodeRoutes (routedNode node f)=f (nodeRoutes node) := by
  unfold nodeRoutes routedNode
  cases node.dest with
  | none => exact hf.symm
  | some dest => rfl

theorem nodeChange_setRoutes (s : Zebra) (rn : RouteNode) (f : List Rib→List Rib) :
    NodeChange rn (routedNode (s.nodes rn) f) s (s.setRoutes rn f) := by
  unfold Zebra.setRoutes routedNode
  cases hdest : (s.nodes rn).dest with
  | none =>
    refine ⟨?_,fun _ _ => rfl,rfl,rfl⟩
    dsimp only [map_none]
    rw [←hdest]
  | some dest => exact .setNode s rn _

theorem waitsAs_destNode : WaitsAs node (destNode node) := by
  unfold destNode
  cases hdest : node.dest with
  | some dest => exact .refl node
  | none =>
    refine ⟨fun q => ?_,rfl⟩
    unfold nodeQueued
    rw [hdest]
    rfl

theorem nodeRoutes_destNode :
    nodeRoutes (destNode node)=nodeRoutes node ∧ (destNode node).dest.isSome=true := by
  unfold destNode
  cases hdest : node.dest with
  | some dest => exact ⟨rfl,by rw [hdest]; rfl⟩
  | none =>
    refine ⟨?_,rfl⟩
    unfold nodeRoutes
    rw [hdest]

theorem nodeChange_destCreate (s : Zebra) (rn : RouteNode) :
    NodeChange rn (destNode (s.nodes rn)) s (destCreate s rn) := by
  unfold destCreate destNode
  cases hdest : (s.nodes rn).dest with
  | some dest => exact ⟨rfl,fun _ _ => rfl,rfl,rfl⟩
  | none =>
    unfold routeLockNode
    rw [setNode_setNode,nodes_setNode_self]
    exact .setNode s rn _

theorem pending_iff_of_eq {node node' : Node} (hunprocessed : node'.unprocessed=node.unprocessed)
    (hrts : nodeRoutes node'=nodeRoutes node) : Pending node' ↔ Pending node := by
  unfold Pending
  rw [hunprocessed,hrts]

section

variable (hok : QueueOk s)
include hok

theorem QueueOk.lock (rn : RouteNode) (n : ℕ) :
    QueueOk (s.setNode rn {s.nodes rn with lock := n}) :=
  hok.change (.setNode s rn _) ⟨fun _ => rfl,rfl⟩ (hok.entries.of_eq rfl fun rn' => by
      refine rnodeToRibs_setNode_of_eq ?_ rn'
      rfl)
    (pending_iff_of_eq rfl rfl).mp (hok.fresh rn)

theorem QueueOk.routeLockNode (rn : RouteNode) :
    QueueOk (routeLockNode s rn) := hok.lock rn _

theorem QueueOk.routeUnlockNode (rn : RouteNode) :
    QueueOk (routeUnlockNode s rn) := hok.lock rn _

theorem QueueOk.redistribute (p : PrefixIpv4) (calls : List RedistCall) :
    QueueOk (s.redistribute p calls) :=
  ⟨⟨hok.nodup,hok.mem,hok.size⟩,hok.pending,hok.fresh,hok.entries⟩

end

theorem type_of_mem_modifyRib {f : Rib → Rib} (hf : ∀ rib, (f rib).type=rib.type) {addr : ℕ}
    {routes : List Rib} (h : rib∈modifyRib addr f routes) :
    ∃ old∈routes, rib.type=old.type := by
  obtain ⟨old,hmem,hold⟩ := mem_map.mp h
  refine ⟨old,hmem,?_⟩
  rw [←hold]
  split
  · exact hf old
  · rfl

section

variable (hok : QueueOk s)
include hok

theorem QueueOk.fresh_modifyRib (hf : ∀ rib, (f rib).type=rib.type) (addr : ℕ) :
    ∀ rib∈nodeRoutes (routedNode (s.nodes rn) (modifyRib addr f)), ¬Stale s rn rib.type := by
  intro rib hmem
  rw [nodeRoutes_routedNode _ (modifyRib_nil addr f)] at hmem
  obtain ⟨old,hold,hty⟩ := type_of_mem_modifyRib hf hmem
  rw [hty]
  exact hok.fresh rn old hold

theorem QueueOk.ribQueueAdd (rn : RouteNode) : QueueOk (ribQueueAdd s rn) :=
  hok.changeAdd ⟨rfl,fun _ _ => rfl,rfl,rfl⟩ (.refl _) hok.entries .inr (hok.fresh rn)

theorem QueueOk.modifyAdd (hty : ∀ rib, (f rib).type=rib.type)
    (haddr : ∀ rib, (f rib).addr=rib.addr) (rn : RouteNode) (addr : ℕ) :
    QueueOk (RibOperations.ribQueueAdd (s.setRoutes rn (modifyRib addr f)) rn) := by
  refine hok.changeAdd (nodeChange_setRoutes s rn _) (waitsAs_routedNode _ _)
    (hok.entries.setRoutes_modifyRib haddr rn addr) (fun hleft => ?_)
      (hok.fresh_modifyRib hty addr)
  by_cases hnil : nodeRoutes (routedNode (s.nodes rn) (modifyRib addr f))=[]
  · refine .inr (.inl ?_)
    rcases hleft with hunprocessed|⟨rib,hrib,-⟩
    · exact hunprocessed
    rw [hnil] at hrib
    cases hrib
  · exact .inl hnil

theorem QueueOk.ribDelnode (rn : RouteNode) (addr : ℕ) : QueueOk (ribDelnode s rn addr) :=
  hok.modifyAdd (f := fun rib : Rib => {rib with removed := true}) (fun _ => rfl) (fun _ => rfl)
    rn addr

theorem QueueOk.ribLink (hstale : ¬Stale s rn rib.type) : QueueOk (ribLink s rn rib) := by
  have hentries := hok.entries.ribLink rn rib
  unfold RibOperations.ribLink at hentries ⊢
  dsimp only at hentries ⊢
  have hdest := nodeChange_destCreate s rn
  have hrts := nodeChange_setRoutes (destCreate s rn) rn fun routes =>
    {rib with addr := (destCreate s rn).nextRib}::routes
  rw [hrts.self] at hentries ⊢
  rw [hdest.self] at hrts hentries ⊢
  refine hok.changeAdd ((hdest.trans hrts).trans
      ((NodeChange.setNode _ rn _).trans ⟨nodes_setNode_self,fun _ _ => rfl,rfl,rfl⟩)) ?_
    (hentries.of_eq (untouched_ribQueueAdd _ rn).nextRib.symm
      fun rn' => (rnodeToRibs_ribQueueAdd _ rn rn').symm) (fun _ => .inl ?_) fun rib' hmem => ?_
  · exact ((waitsAs_destNode _).trans (waitsAs_routedNode _ _)).trans ⟨fun _ => rfl,rfl⟩
  all_goals
    obtain ⟨hold,hsome⟩ := nodeRoutes_destNode (s.nodes rn)
    obtain ⟨dest,hd⟩ := isSome_iff_exists.mp hsome
  · unfold nodeRoutes routedNode
    rw [hd]
    exact cons_ne_nil _ _
  have hcons : rib' ∈ {rib with addr := (destCreate s rn).nextRib}::rnodeToRibs s rn := by
    rw [rnodeToRibs_eq,←hold]
    unfold nodeRoutes routedNode at hmem
    unfold nodeRoutes
    rw [hd] at hmem ⊢
    exact hmem
  rcases mem_cons.mp hcons with hnew|hrs
  · rw [hnew]
    exact hstale
  · exact hok.fresh rn rib' hrs

theorem QueueOk.modify (hty : ∀ rib, (f rib).type=rib.type) (haddr : ∀ rib, (f rib).addr=rib.addr)
    (hrem : ∀ rib, (f rib).removed=rib.removed) (rn : RouteNode) (addr : ℕ) :
    QueueOk (s.setRoutes rn (modifyRib addr f)) := by
  refine hok.change (nodeChange_setRoutes s rn _) (waitsAs_routedNode _ _)
    (hok.entries.setRoutes_modifyRib haddr rn addr) (fun hleft => ?_)
      (hok.fresh_modifyRib hty addr)
  refine hleft.imp_right fun ⟨rib,hmem,hrib⟩ => ?_
  rw [nodeRoutes_routedNode _ (modifyRib_nil addr f)] at hmem
  obtain ⟨old,hold,heq⟩ := mem_map.mp hmem
  refine ⟨old,hold,?_⟩
  rw [←hrib,←heq]
  split
  · exact (hrem old).symm
  · rfl

end

theorem ribData_unstaged {a b : Rib} (h : ribData a=ribData b) :
    a.type=b.type ∧ a.addr=b.addr ∧ a.removed=b.removed :=
  ⟨(congrArg Rib.type h :),addr_of_ribData h,removed_of_ribData h⟩

theorem QueueOk.ribUninstall (hok : QueueOk s) (rn : RouteNode) (rib : Rib) :
    QueueOk (ribUninstall s rn rib) := by
  unfold RibOperations.ribUninstall
  split
  · have hdata := fun rib => ribData_unstaged (ribData_uninstallRib rn.1 rib)
    exact (hok.redistribute rn.2 _).modify
      (f := fun rib => (uninstallRib rn.1 rib).setSelected false) (fun rib => (hdata rib).1)
      (fun rib => (hdata rib).2.1) (fun rib => (hdata rib).2.2) rn rib.addr
  · exact hok

theorem stale_routeLockNode : Stale (routeLockNode s rn) rn' type ↔ Stale s rn' type :=
  (NodeChange.setNode s rn {s.nodes rn with lock := (s.nodes rn).lock+1}).stale ⟨fun _ => rfl,rfl⟩

theorem QueueOk.staticInstallIpv4 (hok : QueueOk s) {safi : Safi} {p : PrefixIpv4}
    (hstale : ¬Stale s (routeNode safi p) .static) (si : StaticIpv4) :
    QueueOk (staticInstallIpv4 s safi p si) := by
  unfold RibOperations.staticInstallIpv4
  dsimp only
  split
  · exact ((hok.routeLockNode _).routeUnlockNode _).modifyAdd
      (fun rib => (staticNexthopAdd_keeps si rib).1)
      (fun rib => (staticNexthopAdd_keeps si rib).2.1) _ _
  obtain ⟨hty,hrem,-⟩ := newStaticRib_keeps si
  rw [ribAddnode_live _ _ hrem]
  refine (hok.routeLockNode _).ribLink ?_
  rw [hty,stale_routeLockNode]
  exact hstale

theorem QueueOk.staticUninstallIpv4 (hok : QueueOk s) (safi : Safi) (p : PrefixIpv4)
    (si : StaticIpv4) : QueueOk (staticUninstallIpv4 s safi p si) := by
  unfold RibOperations.staticUninstallIpv4
  dsimp only
  split
  · exact hok
  have hlock := hok.routeLockNode (routeNode safi p)
  split
  · exact hlock.routeUnlockNode _
  split
  · exact hlock.routeUnlockNode _
  refine QueueOk.routeUnlockNode ?_ _
  split
  · exact hlock.ribDelnode _ _
  refine QueueOk.modifyAdd (f := nexthopDelete si) ?_ (fun _ => rfl) (fun _ => rfl) _ _
  split
  · exact hlock.ribUninstall _ _
  · exact hlock

end

section

variable {s s' : Zebra} {rn : RouteNode} {env : Environment} {q : Fin 5} {rest : List RouteNode}

/-- The node behind `process_subq`. -/
def dequeuedNode (node : Node) (q : Fin 5) : Node :=
  {node with
    lock := node.lock-1
    dest := node.dest.map fun dest => {dest with queued := update dest.queued q false}
    orphan := update node.orphan q false}

theorem waits_collectedNode (q : Fin 5) :
    (nodeQueued (collectedNode (processedNode node routes)) q=true ∨
      (collectedNode (processedNode node routes)).orphan q=true) ↔
      nodeQueued node q=true ∨ node.orphan q=true := by
  unfold collectedNode processedNode nodeQueued
  cases node.dest with
  | none => exact Iff.rfl
  | some dest =>
    dsimp only [map_some]
    split
    · rw [Bool.or_eq_true]
      exact ⟨fun h => (h.resolve_left Bool.false_ne_true).symm,fun h => .inr h.symm⟩
    · exact Iff.rfl

theorem nodeQueued_collectedNode (h : nodeRoutes (collectedNode (processedNode node routes))≠[])
    (q : Fin 5) : nodeQueued (collectedNode (processedNode node routes)) q=nodeQueued node q := by
  rw [nodeRoutes_collectedNode] at h
  unfold collectedNode processedNode nodeQueued
  unfold nodeRoutes processedNode at h
  cases hdest : node.dest with
  | none => rfl
  | some dest =>
    rw [hdest] at h
    dsimp only [map_some] at h ⊢
    rw [if_neg h]
    rfl

theorem nodeQueued_dequeuedNode (q q' : Fin 5) :
    nodeQueued (dequeuedNode node q) q'=(nodeQueued node q' && decide (q'≠q)) := by
  unfold nodeQueued dequeuedNode
  cases node.dest with
  | none => rfl
  | some dest =>
    dsimp only [map_some,any_some]
    by_cases h : q'=q
    · rw [h,update_self,decide_eq_false (not_not_intro rfl),Bool.and_false]
    · rw [update_of_ne h,decide_eq_true h,Bool.and_true]

theorem processed_entries (hentries : EntriesOk s) {out : List Rib × List RedistCall}
    (hout : ribProcessRoutes rn.1 env (rnodeToRibs s rn)=some out) :
    (∀ rib∈out.1, rib.removed=false) ∧ ∀ rib∈out.1, ∃ old∈rnodeToRibs s rn, rib.type=old.type := by
  have hmap := map_ribData_ribProcessRoutes (hentries rn).1 hout
  have hold : ∀ rib∈out.1, ∃ old∈rnodeToRibs s rn, old.removed=false ∧ ribData old=ribData rib := by
    intro rib hmem
    have hdata : ribData rib∈out.1.map ribData := mem_map_of_mem hmem
    rw [hmap] at hdata
    obtain ⟨old,hfilter,heq⟩ := mem_map.mp hdata
    obtain ⟨hmem',hlive⟩ := mem_filter.mp hfilter
    exact ⟨old,hmem',(Bool.not_eq_true' _).mp hlive,heq⟩
  refine ⟨fun rib hmem => ?_,fun rib hmem => ?_⟩
  · obtain ⟨old,-,hlive,hdata⟩ := hold rib hmem
    rw [←(ribData_unstaged hdata).2.2,hlive]
  obtain ⟨old,hmem',-,hdata⟩ := hold rib hmem
  exact ⟨old,hmem',(ribData_unstaged hdata).1.symm⟩

/-- What `process_subq` does: `node` is the node behind `rib_process`. -/
structure Dequeues (q : Fin 5) (rn : RouteNode) (rest : List RouteNode) (node : Node)
    (s s' : Zebra) : Prop where
  self : s'.nodes rn=dequeuedNode node q
  other : ∀ rn', rn'≠rn → s'.nodes rn'=s.nodes rn'
  subq : s'.subq=update s.subq q rest
  size : s'.size=s.size
  waits : ∀ q', (nodeQueued node q'=true ∨ node.orphan q'=true) ↔
    nodeQueued (s.nodes rn) q'=true ∨ (s.nodes rn).orphan q'=true
  keeps : nodeRoutes node≠[] → ∀ q', nodeQueued node q'=nodeQueued (s.nodes rn) q'
  done : ¬Pending node
  types : ∀ rib∈nodeRoutes node, ∃ old∈rnodeToRibs s rn, rib.type=old.type
  entries : EntriesOk s'

theorem nodeRoutes_dequeuedNode (q : Fin 5) : nodeRoutes (dequeuedNode node q)=nodeRoutes node := by
  unfold nodeRoutes dequeuedNode
  cases node.dest <;> rfl

/-- `process_subq` with the entries and the calls behind `rib_process`. -/
structure Processes (env : Environment) (q : Fin 5) (rn : RouteNode) (rest : List RouteNode)
    (out : List Rib×List RedistCall) (s s' : Zebra) : Prop where
  routes : ribProcessRoutes rn.1 env (rnodeToRibs s rn)=some out
  self : s'.nodes rn=dequeuedNode (collectedNode (processedNode (s.nodes rn) out.1)) q
  left : nodeRoutes (collectedNode (processedNode (s.nodes rn) out.1))=out.1
  other : ∀ rn', rn'≠rn → s'.nodes rn'=s.nodes rn'
  subq : s'.subq=update s.subq q rest
  size : s'.size=s.size
  clients : s'.clients=(s.redistribute rn.2 out.2).clients
  stable : s'.stable=s.stable
  entries : EntriesOk s'

theorem processSubq_processes (hentries : EntriesOk s)
    (h : processSubq env s q rn rest=some s') : ∃ out, Processes env q rn rest out s s' := by
  obtain ⟨s1,hprocess,hs'⟩ := map_eq_some_iff.mp h
  obtain ⟨out,hout,hself,-,hs1⟩ := rnodeToRibs_ribProcess hentries hprocess
  have hnode1 : s1.nodes rn=collectedNode (processedNode (s.nodes rn) out.1) := by
    rw [hs1]
    exact nodes_setNode_self
  have hnew : s' = {s1.setNode rn (dequeuedNode (s1.nodes rn) q) with
      subq := update s1.subq q rest} := by
    rw [←hs']
    unfold routeUnlockNode
    dsimp only
    rw [setNode_setNode,nodes_setNode_self]
    rfl
  have hent' : EntriesOk s' := by
    rw [hnew]
    refine (hentries.ribProcess hprocess).of_eq rfl fun rn' => ?_
    exact rnodeToRibs_setNode_of_eq (nodeRoutes_dequeuedNode _ q) rn'
  rw [rnodeToRibs_eq,hnode1] at hself
  refine ⟨out,hout,?_,hself,fun rn' hne => ?_,?_,?_,?_,?_,hent'⟩
  · rw [hnew,hnode1]
    exact nodes_setNode_self
  · have hoth1 : s1.nodes rn'=s.nodes rn' := by
      rw [hs1]
      exact nodes_setNode_of_ne hne
    rw [←hoth1,hnew]
    exact nodes_setNode_of_ne hne
  all_goals
    rw [hnew,hs1]
    rfl

theorem Processes.dequeues {out : List Rib×List RedistCall} (hentries : EntriesOk s)
    (h : Processes env q rn rest out s s') :
    Dequeues q rn rest (collectedNode (processedNode (s.nodes rn) out.1)) s s' := by
  obtain ⟨hlive,htypes⟩ := processed_entries hentries h.routes
  have hprocessed : (collectedNode (processedNode (s.nodes rn) out.1)).unprocessed=false := by
    unfold collectedNode
    split
    · rfl
    · split <;> rfl
  refine ⟨h.self,h.other,h.subq,h.size,waits_collectedNode _ _,nodeQueued_collectedNode _ _,
    fun hleft => ?_,fun rib hmem => htypes rib (h.left ▸ hmem),h.entries⟩
  rcases hleft with hunprocessed|⟨rib,hmem,hrib⟩
  · rw [hprocessed] at hunprocessed
    exact nomatch hunprocessed
  rw [hlive rib (h.left ▸ hmem)] at hrib
  exact nomatch hrib

theorem metaQueueProcess_eq_some (hentries : EntriesOk s) (h : metaQueueProcess env s=some s') :
    s'=s ∨ ∃ q rn rest out s1, ((List.finRange 5).find? fun q => s.subq q≠[])=some q ∧
      s.subq q=rn::rest ∧ Processes env q rn rest out s s1 ∧ s'={s1 with size := s1.size-1} := by
  unfold metaQueueProcess at h
  split at h
  · exact .inl (some.inj h).symm
  rename_i q hq
  split at h
  · exact .inl (some.inj h).symm
  rename_i rn rest hhead
  obtain ⟨s1,hs1,hs'⟩ := map_eq_some_iff.mp h
  obtain ⟨out,hprocesses⟩ := processSubq_processes hentries hs1
  exact .inr ⟨q,rn,rest,out,s1,hq,hhead,hprocesses,hs'.symm⟩

/-- The head of a sub-queue is processed and leaves it. -/
theorem QueueOk.dequeue {node : Node} (hok : QueueOk s) (hhead : s.subq q=rn::rest)
    (h : Dequeues q rn rest node s s') : QueueOk {s' with size := s'.size-1} := by
  have hnd := hok.nodup q
  rw [hhead,nodup_cons] at hnd
  -- A node that waits now waited before, and the head no longer waits where it did.
  have hmono : ∀ {q' : Fin 5} {rn' : RouteNode}, rn'∈s'.subq q' →
      rn'∈s.subq q' ∧ (rn'=rn → q'≠q) := by
    intro q' rn' hin
    rw [h.subq] at hin
    by_cases hq : q'=q
    · rw [hq,update_self] at hin
      refine ⟨?_,fun hrn => absurd (hrn ▸ hin) hnd.1⟩
      rw [hq,hhead]
      exact .tail _ hin
    rw [update_of_ne hq] at hin
    exact ⟨hin,fun _ => hq⟩
  refine ⟨⟨fun q' => ?_,fun q' rn' => ?_,?_⟩,fun rn' hleft => ?_,fun rn' rib hmem hstale => ?_,
    h.entries⟩
  · rw [h.subq]
    by_cases hq : q'=q
    · rw [hq,update_self]
      exact hnd.2
    rw [update_of_ne hq]
    exact hok.nodup q'
  · rw [h.subq]
    by_cases hrn : rn'=rn
    · rw [hrn,h.self,nodeQueued_dequeuedNode]
      by_cases hq : q'=q
      · rw [hq,update_self,decide_eq_false (not_not_intro rfl),Bool.and_false]
        refine iff_of_false hnd.1 fun hno => ?_
        rcases hno with hno|hno
        · exact nomatch hno
        unfold dequeuedNode at hno
        dsimp only at hno
        rw [update_self] at hno
        exact nomatch hno
      unfold dequeuedNode
      dsimp only
      rw [update_of_ne hq,update_of_ne hq,decide_eq_true hq,Bool.and_true,h.waits]
      exact hok.mem q' rn
    · rw [h.other rn' hrn,←hok.mem q' rn']
      by_cases hq : q'=q
      · rw [hq,update_self,hhead,mem_cons,or_iff_right hrn]
      · rw [update_of_ne hq]
  · have hsum := sum_update length s.subq q rest
    have hsize := hok.size
    have hlen : (s.subq q).length=rest.length+1 := by rw [hhead,length_cons]
    dsimp only
    rw [h.size,h.subq]
    omega
  · by_cases hrn : rn'=rn
    · have hsame : Pending (dequeuedNode node q) ↔ Pending node :=
        pending_iff_of_eq rfl (nodeRoutes_dequeuedNode node q)
      rw [hrn,h.self,hsame] at hleft
      exact absurd hleft h.done
    rw [h.other rn' hrn] at hleft
    obtain ⟨q',hq'⟩ := hok.pending rn' hleft
    refine ⟨q',?_⟩
    rw [h.subq]
    by_cases hq : q'=q
    · rw [hq,hhead] at hq'
      rw [hq,update_self]
      exact (mem_cons.mp hq').resolve_left hrn
    rw [update_of_ne hq]
    exact hq'
  · obtain ⟨hin,hunqueued⟩ := hstale
    obtain ⟨hold,hne⟩ := hmono hin
    by_cases hrn : rn'=rn
    · have hq := hne hrn
      have hmem' : rib∈nodeRoutes node := by
        rw [←nodeRoutes_dequeuedNode node q,←h.self,←hrn]
        exact hmem
      obtain ⟨old,holdMem,hty⟩ := h.types rib hmem'
      rw [hrn,h.self,nodeQueued_dequeuedNode,decide_eq_true hq,Bool.and_true,
        h.keeps (ne_nil_of_mem hmem')] at hunqueued
      rw [hrn] at hold
      rw [hty] at hold hunqueued
      exact hok.fresh rn old holdMem ⟨hold,hunqueued⟩
    rw [h.other rn' hrn] at hunqueued
    have hmem' : rib∈rnodeToRibs s rn' := by
      rw [rnodeToRibs_eq,←h.other rn' hrn]
      exact hmem
    exact hok.fresh rn' rib hmem' ⟨hold,hunqueued⟩

theorem QueueOk.metaQueueProcess (hok : QueueOk s) (h : metaQueueProcess env s=some s') :
    QueueOk s' := by
  rcases metaQueueProcess_eq_some hok.entries h with
    heq|⟨q,rn,rest,out,s1,-,hhead,hprocesses,heq⟩
  · rw [heq]
    exact hok
  · rw [heq]
    exact hok.dequeue hhead (hprocesses.dequeues hok.entries)

end

/-- The steps that touch the queue. -/
inductive QueueStep where
  | ribLink (rn : RouteNode) (rib : Rib)
  | ribDelnode (rn : RouteNode) (addr : ℕ)
  | ribQueueAdd (rn : RouteNode)
  | staticInstall (safi : Safi) (p : PrefixIpv4) (si : StaticIpv4)
  | staticUninstall (safi : Safi) (p : PrefixIpv4) (si : StaticIpv4)
  | metaQueueProcess (env : Environment)

/-- One step. It fails when the assertion in `rib_process` does. -/
def queueStep (s : Zebra) : QueueStep→Option Zebra
  | .ribLink rn rib => some (ribLink s rn rib)
  | .ribDelnode rn addr => some (ribDelnode s rn addr)
  | .ribQueueAdd rn => some (ribQueueAdd s rn)
  | .staticInstall safi p si => some (staticInstallIpv4 s safi p si)
  | .staticUninstall safi p si => some (staticUninstallIpv4 s safi p si)
  | .metaQueueProcess env => metaQueueProcess env s

/-- No entry goes to a node still queued under a freed dest. -/
def Unstale (s : Zebra) : QueueStep→Prop
  | .ribLink rn rib => ¬Stale s rn rib.type
  | .staticInstall safi p _ => ¬Stale s (routeNode safi p) .static
  | _ => True

instance decidableUnstale (s : Zebra) : ∀ step, Decidable (Unstale s step)
  | .ribLink _ _ => inferInstanceAs (Decidable (¬_))
  | .staticInstall _ _ _ => inferInstanceAs (Decidable (¬_))
  | .ribDelnode _ _ | .ribQueueAdd _ | .staticUninstall _ _ _ | .metaQueueProcess _ =>
    inferInstanceAs (Decidable True)

theorem queueOk_emptyZebra : QueueOk emptyZebra := by
  refine ⟨⟨fun _ => nodup_nil,fun q rn => ?_,rfl⟩,fun rn hleft => ?_,
    fun rn rib hmem => absurd hmem not_mem_nil,
    fun rn => ⟨List.Pairwise.nil,fun rib hmem => absurd hmem not_mem_nil⟩⟩
  · exact iff_of_false not_mem_nil fun h => h.elim Bool.false_ne_true Bool.false_ne_true
  rcases hleft with h|⟨rib,hmem,-⟩
  · exact nomatch h
  · cases hmem

theorem queueStep_ok {s s' : Zebra} {step : QueueStep} (hok : QueueOk s) (hleg : Unstale s step)
    (h : queueStep s step=some s') : QueueOk s' := by
  cases step with
  | ribLink rn rib =>
    rw [←some.inj h]
    exact hok.ribLink hleg
  | ribDelnode rn addr =>
    rw [←some.inj h]
    exact hok.ribDelnode rn addr
  | ribQueueAdd rn =>
    rw [←some.inj h]
    exact hok.ribQueueAdd rn
  | staticInstall safi p si =>
    rw [←some.inj h]
    exact hok.staticInstallIpv4 hleg si
  | staticUninstall safi p si =>
    rw [←some.inj h]
    exact hok.staticUninstallIpv4 safi p si
  | metaQueueProcess env => exact hok.metaQueueProcess h

/-- In every run without entries for stale nodes, nothing is queued twice or lost, up to an assertion
of `rib_process` that fails. -/
theorem queueRun_ok {steps : List QueueStep} {s : Zebra}
    (hlegal : LegalRun queueStep Unstale emptyZebra steps)
    (hrun : run queueStep emptyZebra steps=some s) : QueueOk s :=
  run_preserves (fun _ _ _ hok hl h => queueStep_ok hok hl h) steps emptyZebra s
    queueOk_emptyZebra hlegal hrun

/-- No next hop is active, and the kernel takes everything. -/
def sampleEnvironment : Environment where
  activeCheck := fun _ _ _ => ⟨false,0,[]⟩
  kernelAdd := fun _ => ⟨false,fun _ => true,fun _ _ => true⟩

/-- The node of 10.0.0.0/8. -/
def sampleNode : RouteNode := (.unicast,⟨0x0a000000,slash8⟩)

def sampleRib (type : RouteType) : Rib :=
  nexthopAdd (Rib.new type 0 0 (routeInfoDistance type) ZebraFlags.none)
    (Nexthop.new .ifindex "" 3 0 0)

/-- A connected and a RIP route come and go before the queue is processed. -/
def sampleSteps : List QueueStep :=
  [.ribLink sampleNode (sampleRib .connect),.ribLink sampleNode (sampleRib .rip),
    .ribDelnode sampleNode 0,.ribDelnode sampleNode 1,.metaQueueProcess sampleEnvironment]

theorem queueRun_ok_sampleSteps : ∃ s, run queueStep emptyZebra sampleSteps=some s ∧ QueueOk s := by
  have hrun : (run queueStep emptyZebra sampleSteps).isSome=true := by decide
  obtain ⟨s,hs⟩ := isSome_iff_exists.mp hrun
  exact ⟨s,hs,queueRun_ok (by decide) hs⟩

/-- The RIP route comes back while the node still waits: it is queued
twice. -/
theorem ribLink_queuesTwice : ∃ s,
    run queueStep emptyZebra (sampleSteps++[.ribLink sampleNode (sampleRib .rip)])=some s ∧
      s.subq 2=[sampleNode,sampleNode] ∧ ¬QueueOk s := by
  have hsubq : (run queueStep emptyZebra
      (sampleSteps++[.ribLink sampleNode (sampleRib .rip)])).map (fun s => s.subq 2) =
        some [sampleNode,sampleNode] := by decide
  obtain ⟨s,hs,htwice⟩ := map_eq_some_iff.mp hsubq
  refine ⟨s,hs,htwice,fun hok => ?_⟩
  have hnodup := hok.nodup 2
  rw [htwice] at hnodup
  exact absurd hnodup (by decide)

end RoutePlatform.RibQueue
