import RoutePlatform.RibQueue

/-!
# What adding and deleting do to the entries

The entries of a node behind `rib_add_ipv4`, `rib_add_ipv4_multipath` and
`rib_delete_ipv4`, as functions of those before. Other nodes, the static
routes and the clients are left alone.
-/

namespace RoutePlatform.RibChanges

open RibEntries RibOperations RibFrames RibQueue Option

variable {f : List Rib→List Rib} {s' : Zebra}

/-- An entry is marked as removed. -/
def removedRoutes (addr : ℕ) (routes : List Rib) : List Rib :=
  modifyRib addr (fun rib => {rib with removed := true}) routes

/-- The entries behind `addReplacing`. -/
def replacedRoutes (next : ℕ) (rib : Rib) (same : Option Rib) (routes : List Rib) : List Rib :=
  match same with
  | none => {rib with addr := next}::routes
  | some same => removedRoutes same.addr ({rib with addr := next}::routes)

/-- The entries behind `rib_add_ipv4`. -/
def addedRoutes (next : ℕ) (request : AddRequest) (routes : List Rib) : List Rib :=
  match routes.find? (addStops request.type request.ifindex), request.type with
  | some same, .connect => modifyRib same.addr (fun rib => {rib with refcnt := rib.refcnt+1}) routes
  | same, _ => replacedRoutes next (newRib request.rib) same routes

/-- The entries behind `rib_add_ipv4_multipath`. -/
def multipathRoutes (next : ℕ) (request : RibRequest) (routes : List Rib) : List Rib :=
  replacedRoutes next (newRib request) (routes.find? (multipathStops (newRib request))) routes

/-- The entry that the kernel does not have any more. -/
def forgottenRib (rib : Rib) : Rib := (unsetTopFib rib).setSelected false

/-- The entries behind `rib_delete_ipv4`. -/
def deletedRoutes (request : DeleteRequest) (routes : List Rib) : List Rib :=
  match deleteLookup request.type request.gate request.ifindex none routes with
  | .counted rib => modifyRib rib.addr (fun rib => {rib with refcnt := rib.refcnt-1}) routes
  | .same rib => removedRoutes rib.addr routes
  | .missing (some fib) =>
    if request.type=.kernel then modifyRib fib.addr forgottenRib routes else routes
  | .missing none => routes

/-- The node that `meta_queue_process` takes next. -/
def nextNode (s : Zebra) : Option RouteNode :=
  ((List.finRange 5).find? fun q => s.subq q≠[]).bind fun q => (s.subq q).head?

section

variable {s : Zebra} {rn : RouteNode} {rib : Rib}

theorem rnodeToRibs_addReplacing (s : Zebra) (rn : RouteNode) (hlive : rib.removed=false)
    (same : Option Rib) (rn' : RouteNode) :
    rnodeToRibs (addReplacing s rn rib same) rn' =
      if rn'=rn then replacedRoutes s.nextRib rib same (rnodeToRibs s rn)
      else rnodeToRibs s rn' := by
  unfold addReplacing replacedRoutes
  rw [rnodeToRibs_routeUnlockNode,ribAddnode_live s rn hlive]
  cases same with
  | none => exact rnodeToRibs_ribLink s rn rib rn'
  | some same =>
    rw [rnodeToRibs_ribDelnode,rnodeToRibs_ribLink,rnodeToRibs_ribLink,if_pos rfl]
    by_cases hrn : rn'=rn
    · rw [if_pos hrn,if_pos hrn]
      rfl
    · rw [if_neg hrn,if_neg hrn,if_neg hrn]

theorem EntriesOk.addReplacing (h : EntriesOk s) (rn : RouteNode) (hlive : rib.removed=false)
    (same : Option Rib) : EntriesOk (addReplacing s rn rib same) := by
  have hlink := h.ribLink rn rib
  unfold RibOperations.addReplacing
  rw [ribAddnode_live s rn hlive]
  cases same with
  | none => exact hlink.of_eq rfl fun rn' => rnodeToRibs_routeUnlockNode _ rn rn'
  | some same =>
    exact (hlink.ribDelnode rn same.addr).of_eq rfl fun rn' => rnodeToRibs_routeUnlockNode _ rn rn'

theorem clients_addReplacing (s : Zebra) (rn : RouteNode) (hlive : rib.removed=false)
    (same : Option Rib) : (addReplacing s rn rib same).clients=s.clients := by
  have hlink : (ribLink s rn rib).clients=s.clients := by
    unfold ribLink
    rw [(untouched_ribQueueAdd _ rn).clients]
    dsimp only [Zebra.setNode]
    rw [(untouched_setRoutes _ rn _).clients,(destCreate_frame s rn).1.clients]
  unfold addReplacing
  rw [ribAddnode_live s rn hlive]
  cases same with
  | none => exact hlink
  | some same => exact (untouched_ribDelnode _ rn same.addr).clients.trans hlink

/-- An operation changes the entries of a node, and numbers new ones. -/
structure Changes (s s' : Zebra) (rn : RouteNode) (f : List Rib→List Rib) : Prop where
  routes : rnodeToRibs s' rn=f (rnodeToRibs s rn)
  others : ∀ rn', rn'≠rn → rnodeToRibs s' rn'=rnodeToRibs s rn'
  entries : EntriesOk s → EntriesOk s'
  clients : s'.clients=s.clients

theorem changes_addReplacing (s : Zebra) (rn : RouteNode) (hlive : rib.removed=false)
    (same : Option Rib) :
    Changes s (addReplacing s rn rib same) rn (replacedRoutes s.nextRib rib same) where
  routes := by rw [rnodeToRibs_addReplacing s rn hlive,if_pos rfl]
  others := fun rn' hne => by rw [rnodeToRibs_addReplacing s rn hlive,if_neg hne]
  entries := fun h => EntriesOk.addReplacing h rn hlive same
  clients := clients_addReplacing s rn hlive same

theorem changes_setRoutes {f : Rib → Rib} (hf : ∀ rib, (f rib).addr=rib.addr) (s : Zebra)
    (rn : RouteNode) (addr : ℕ) :
    Changes s (s.setRoutes rn (modifyRib addr f)) rn (modifyRib addr f) where
  routes := by rw [rnodeToRibs_setRoutes (modifyRib_nil addr f),if_pos rfl]
  others := fun rn' hne => by rw [rnodeToRibs_setRoutes (modifyRib_nil addr f),if_neg hne]
  entries := fun h => h.setRoutes_modifyRib hf rn addr
  clients := (untouched_setRoutes s rn _).clients

theorem changes_ribDelnode (s : Zebra) (rn : RouteNode) (addr : ℕ) :
    Changes s (ribDelnode s rn addr) rn (removedRoutes addr) where
  routes := by
    rw [rnodeToRibs_ribDelnode,if_pos rfl]
    rfl
  others := fun rn' hne => by rw [rnodeToRibs_ribDelnode,if_neg hne]
  entries := fun h => h.ribDelnode rn addr
  clients := (untouched_ribDelnode s rn addr).clients

theorem changes_refl (s : Zebra) (rn : RouteNode) : Changes s s rn id :=
  ⟨rfl,fun _ _ => rfl,fun h => h,rfl⟩

theorem Changes.afterLock (h : Changes (routeLockNode s rn) s' rn f) : Changes s s' rn f where
  routes := by rw [h.routes,rnodeToRibs_routeLockNode]
  others := fun rn' hne => by rw [h.others rn' hne,rnodeToRibs_routeLockNode]
  entries := fun hent =>
    h.entries (hent.of_eq rfl fun rn' => rnodeToRibs_routeLockNode s rn rn')
  clients := h.clients

theorem Changes.unlock (h : Changes s s' rn f) : Changes s (routeUnlockNode s' rn) rn f where
  routes := by rw [rnodeToRibs_routeUnlockNode,h.routes]
  others := fun rn' hne => by rw [rnodeToRibs_routeUnlockNode,h.others rn' hne]
  entries := fun hent =>
    (h.entries hent).of_eq rfl fun rn' => rnodeToRibs_routeUnlockNode s' rn rn'
  clients := h.clients

theorem Changes.congr {g : List Rib→List Rib} (h : Changes s s' rn f)
    (hfg : f (rnodeToRibs s rn)=g (rnodeToRibs s rn)) : Changes s s' rn g :=
  ⟨h.routes.trans hfg,h.others,h.entries,h.clients⟩

theorem changes_ribAddIpv4 (s : Zebra) (request : AddRequest) :
    Changes s (ribAddIpv4 s request) (routeNode request.safi request.p)
      (addedRoutes s.nextRib request) := by
  have hlive := (newRib_keeps request.rib).2.1
  unfold ribAddIpv4
  dsimp only
  generalize routeNode request.safi request.p=rn
  rw [rnodeToRibs_routeLockNode]
  split
  · rename_i same hfind hty
    refine (changes_setRoutes ?_ _ rn same.addr).afterLock.congr ?_
    · exact fun _ => rfl
    unfold addedRoutes
    rw [hfind,hty]
  rename_i hno
  refine (changes_addReplacing (routeLockNode s rn) rn hlive _).afterLock.congr ?_
  unfold addedRoutes
  split
  · rename_i same hfind hty
    exact absurd hty (hno same hfind)
  · rfl

theorem changes_ribAddIpv4Multipath (s : Zebra) (p : PrefixIpv4) (request : RibRequest)
    (safi : Safi) :
    Changes s (ribAddIpv4Multipath s p request safi) (routeNode safi p)
      (multipathRoutes s.nextRib request) := by
  have hlive := (newRib_keeps request).2.1
  unfold ribAddIpv4Multipath
  dsimp only
  rw [rnodeToRibs_routeLockNode]
  refine (changes_addReplacing (routeLockNode s (routeNode safi p)) _ hlive _).afterLock.congr ?_
  rfl

theorem changes_ribDeleteIpv4 (s : Zebra) (request : DeleteRequest) :
    Changes s (ribDeleteIpv4 s request) (routeNode request.safi request.p)
      (deletedRoutes request) := by
  unfold ribDeleteIpv4
  dsimp only
  generalize routeNode request.safi request.p=rn
  cases hdest : (s.nodes rn).dest with
  | none =>
    have hnil := rnodeToRibs_of_none hdest
    refine (changes_refl s rn).congr ?_
    rw [hnil]
    rfl
  | some dest =>
    rw [if_neg (by rw [isNone_some]; exact Bool.false_ne_true),rnodeToRibs_routeLockNode]
    cases hfnd : deleteLookup request.type request.gate request.ifindex none
        (rnodeToRibs s rn) with
    | counted rib =>
      refine (changes_setRoutes ?_ _ rn rib.addr).afterLock.unlock.unlock.congr ?_
      · exact fun _ => rfl
      unfold deletedRoutes
      rw [hfnd]
    | same rib =>
      refine (changes_ribDelnode _ rn rib.addr).afterLock.unlock.congr ?_
      unfold deletedRoutes
      rw [hfnd]
    | missing fib =>
      cases fib with
      | none =>
        refine (changes_refl _ rn).afterLock.unlock.congr ?_
        unfold deletedRoutes
        rw [hfnd]
        rfl
      | some fib =>
        dsimp only
        by_cases hkernel : request.type=.kernel
        · rw [if_pos hkernel]
          refine (changes_setRoutes ?_ _ rn fib.addr).afterLock.unlock.congr ?_
          · exact fun _ => rfl
          unfold deletedRoutes
          rw [hfnd]
          dsimp only
          rw [if_pos hkernel]
          rfl
        rw [if_neg hkernel]
        refine (changes_refl _ rn).afterLock.unlock.congr ?_
        unfold deletedRoutes
        rw [hfnd]
        dsimp only
        rw [if_neg hkernel]
        rfl

/-- What `meta_queue_process` does to the entries, the clients and the
static routes. -/
theorem metaQueueProcess_cases {env : Environment} (hent : EntriesOk s)
    (h : metaQueueProcess env s=some s') :
    s'=s ∨ ∃ rn out, nextNode s=some rn ∧
      ribProcessRoutes rn.1 env (rnodeToRibs s rn)=some out ∧ rnodeToRibs s' rn=out.1 ∧
      (∀ rn', rn'≠rn → rnodeToRibs s' rn'=rnodeToRibs s rn') ∧
      s'.clients=(s.redistribute rn.2 out.2).clients ∧ s'.stable=s.stable ∧ EntriesOk s' := by
  rcases metaQueueProcess_eq_some hent h with heq|⟨q,rn,rest,out,s1,hq,hhead,hs1,heq⟩
  · exact .inl heq
  rw [heq]
  refine .inr ⟨rn,out,?_,hs1.routes,?_,fun rn' hne => ?_,hs1.clients,hs1.stable,hs1.entries⟩
  · unfold nextNode
    rw [hq,bind_some,hhead,List.head?_cons]
  · exact (congrArg nodeRoutes hs1.self).trans ((nodeRoutes_dequeuedNode _ q).trans hs1.left)
  · exact congrArg nodeRoutes (hs1.other rn' hne)

end

end RoutePlatform.RibChanges
