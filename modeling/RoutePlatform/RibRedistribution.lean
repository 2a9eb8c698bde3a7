import RoutePlatform.RibSelection

/-!
# What a client knows of the RIB

A client that subscribes to a type gets its selected entries, and then a message for each change.
What breaks this: `redistribute_add` and `redistribute_delete` look neither at the table nor at
`zebra_check_addr`, and `rib_delete_ipv4` deselects an entry without a message when the kernel has
lost it.
-/

namespace RoutePlatform.RibRedistribution

open RibEntries RibOperations RibProcessing RibFrames RibQueue RibLocks RibChanges RibSelection List
  OperationRuns Function

variable {client : Zserv} {env : Environment} {c' : ℕ} {f : List Rib→List Rib} {p : PrefixIpv4}
  (shown : Bool) (addr : ℕ) (other : RouteType)

/-- A client takes a message about routes of the type. -/
def applyMessage (type : RouteType) (view : PrefixIpv4→Bool) (message : Message) :
    PrefixIpv4→Bool :=
  if message.type=type then update view message.p (message.command=.add) else view

/-- The prefixes that a client knows from messages. -/
def clientView (type : RouteType) (messages : List Message) : PrefixIpv4→Bool :=
  messages.foldl (applyMessage type) fun _ => false

/-- A selected unicast entry of the type may be redistributed. -/
def Shows (s : Zebra) (type : RouteType) (p : PrefixIpv4) : Prop :=
  zebraCheckAddr p=true ∧ ∃ rib∈rnodeToRibs s (.unicast,p), rib.flags.selected=true ∧ rib.type=type

/-- What a call of `rib_process` makes of one prefix in the view of a
subscriber. -/
def callShown (type : RouteType) (shown : Bool) : RedistCall→Bool
  | .add other => if other=type then true else shown
  | .delete other distance =>
    if distance=distanceInfinity then shown else if other=type then false else shown

section

variable {type : RouteType} {p : PrefixIpv4}

theorem clientView_append (type : RouteType) (messages more : List Message) :
    clientView type (messages++more)=more.foldl (applyMessage type) (clientView type messages) :=
  foldl_append

theorem wants_of_redist (h : client.redist type=true) (p : PrefixIpv4) :
    client.wants p type=true := by
  unfold Zserv.wants
  rw [h,Bool.or_true,ite_self]

/-- The messages that a client gets from a function. -/
structure Sends (client client' : Zserv) (messages : List Message) : Prop where
  sent : client'.sent=client.sent++messages
  redist : client'.redist=client.redist

theorem Sends.refl (client : Zserv) : Sends client client [] := ⟨(append_nil _).symm,rfl⟩

theorem Sends.trans {a b c : Zserv} {messages more : List Message} (h : Sends a b messages)
    (h' : Sends b c more) : Sends a c (messages++more) :=
  ⟨by rw [h'.sent,h.sent,append_assoc],h'.redist.trans h.redist⟩

theorem redistribute_delete (p : PrefixIpv4) (client : Zserv) (other : RouteType)
    (distance : BitVec 8) :
    redistribute p client (.delete other distance) =
      if distance=distanceInfinity then client
      else if client.wants p other then zsendRouteMultipath client .delete p other else client := rfl

theorem callShown_add :
    callShown type shown (.add other)=if other=type then true else shown := rfl

theorem callShown_delete (distance : BitVec 8) :
    callShown type shown (.delete other distance) =
      if distance=distanceInfinity then shown else if other=type then false else shown := rfl

theorem sends_ite (h : client.redist type=true) (command : Command) (p : PrefixIpv4)
    (other : RouteType) :
    ∃ messages, Sends client (if client.wants p other then
        zsendRouteMultipath client command p other else client) messages ∧
      ∀ view, messages.foldl (applyMessage type) view =
        update view p (if other=type then decide (command=.add) else view p) := by
  by_cases hsame : other=type
  · refine ⟨[⟨command,p,other⟩],?_,fun view => ?_⟩
    · rw [hsame,if_pos (wants_of_redist h p)]
      exact ⟨rfl,rfl⟩
    rw [if_pos hsame]
    exact if_pos hsame
  cases client.wants p other with
  | true =>
    refine ⟨[⟨command,p,other⟩],⟨rfl,rfl⟩,fun view => ?_⟩
    rw [if_neg hsame,update_eq_self]
    exact if_neg hsame
  | false =>
    refine ⟨[],.refl client,fun view => ?_⟩
    rw [if_neg hsame,update_eq_self]
    rfl

theorem sends_redistribute (h : client.redist type=true) (p : PrefixIpv4) (call : RedistCall) :
    ∃ messages, Sends client (redistribute p client call) messages ∧
      ∀ view, messages.foldl (applyMessage type) view =
        update view p (callShown type (view p) call) := by
  cases call with
  | add other => exact sends_ite h .add p other
  | delete other distance =>
    rw [redistribute_delete]
    by_cases hinf : distance=distanceInfinity
    · refine ⟨[],?_,fun view => ?_⟩
      · rw [if_pos hinf]
        exact .refl client
      rw [callShown_delete,if_pos hinf,update_eq_self]
      rfl
    obtain ⟨messages,hsends,hview⟩ := sends_ite h .delete p other
    refine ⟨messages,?_,fun view => ?_⟩
    · rw [if_neg hinf]
      exact hsends
    rw [hview,callShown_delete,if_neg hinf]
    rfl

theorem sends_calls (p : PrefixIpv4) (calls : List RedistCall) : ∀ {client : Zserv},
    client.redist type=true →
      ∃ messages, Sends client (calls.foldl (redistribute p) client) messages ∧
        ∀ view, messages.foldl (applyMessage type) view =
          update view p (calls.foldl (callShown type) (view p)) := by
  induction calls with
  | nil => exact fun {client} _ => ⟨[],.refl client,fun view => (update_eq_self p view).symm⟩
  | cons call rest ih =>
    intro client h
    obtain ⟨first,hfst,hview⟩ := sends_redistribute h p call
    have hnext : (redistribute p client call).redist type=true := by
      rw [hfst.redist]
      exact h
    obtain ⟨more,hmore,hviewMore⟩ := ih hnext
    refine ⟨first++more,hfst.trans hmore,fun view => ?_⟩
    rw [foldl_append,hview,hviewMore,update_self,update_idem]
    rfl

end

/-- The selected entry of the type is selected again with its next hops. -/
structure Quiet (type : RouteType) (env : Environment) (routes : List Rib) : Prop where
  /-- The selected entry is selected again, and is not changed. -/
  stays : ∀ rib∈routes, rib.flags.selected=true → rib.type=type →
    Chosen env routes rib ∧ (nexthopActiveUpdate env false rib).flags.changed=false
  same : ∀ rib∈routes, Chosen env routes rib → rib.type=type → rib.flags.selected=true

section

variable {type : RouteType} {env : Environment} {routes : List Rib}

section

variable (hnum : Numbered routes) (honce : SelectedOnce none routes)
include hnum honce

theorem same_spec {select : Rib} (h : (Choice.over env ⟨none,none,false⟩ routes).same=some select) :
    ∃ fib∈routes, fib.flags.selected=true ∧ usable env fib=true ∧
      select=nexthopActiveUpdate env false fib ∧ winner env none routes=some select ∧
      (routes.find? fun rib => rib.flags.selected)=some fib := by
  obtain ⟨fib,hfib,hsel,huse,hselect⟩ := same_eq_some hnum h
  refine ⟨fib,hfib,hsel,huse,hselect,winner_of_same h,?_⟩
  cases hfind : routes.find? fun rib => rib.flags.selected with
  | none => exact absurd hsel (List.find?_eq_none.mp hfind fib hfib)
  | some old =>
    obtain ⟨hold,hselOld⟩ := selected_of_find? hfind
    rw [eq_of_selectedOnce honce hold hfib hselOld hsel]

/-- Behind the calls, a prefix is shown if the new selected entry has the type. -/
theorem callsShown (hfinite : ∀ rib∈routes, rib.flags.selected=true → rib.type=type →
      rib.distance≠distanceInfinity) :
    (redistCalls env routes).foldl (callShown type)
        ((routes.find? fun rib => rib.flags.selected).any fun fib => fib.type=type) =
      (winner env none routes).any fun select => select.type=type := by
  unfold redistCalls
  cases hsame : (Choice.over env ⟨none,none,false⟩ routes).same with
  | some select =>
    obtain ⟨fib,-,-,huse,hselect,hwinner,hfind⟩ := same_spec hnum honce hsame
    have hty : select.type=fib.type := by
      rw [hselect]
      rfl
    have hdist : select.distance≠distanceInfinity := by
      have hfib := distance_of_usable huse
      rw [hselect]
      exact hfib
    rw [hwinner,hfind,Option.any_some,Option.any_some,hty]
    dsimp only
    split
    · rw [foldl_cons,foldl_cons,foldl_nil,callShown_delete,callShown_add,if_neg hdist,hty]
      by_cases ht : fib.type=type
      · rw [if_pos ht,decide_eq_true ht]
      · rw [if_neg ht,if_neg ht]
    · rfl
  | none =>
    have hdeleted : ((routes.find? fun rib => rib.flags.selected).toList.map fun fib =>
        RedistCall.delete fib.type fib.distance).foldl (callShown type)
          ((routes.find? fun rib => rib.flags.selected).any fun fib => fib.type=type) =
        false := by
      cases hfind : routes.find? fun rib => rib.flags.selected with
      | none => rfl
      | some fib =>
        obtain ⟨hmem,hsel⟩ := selected_of_find? hfind
        rw [Option.any_some,Option.toList_some,map_singleton,foldl_cons,foldl_nil,callShown_delete]
        by_cases ht : fib.type=type
        · rw [if_neg (hfinite fib hmem hsel ht),if_pos ht]
        · rw [decide_eq_false ht,if_neg ht,ite_self]
    rw [foldl_append,hdeleted]
    cases winner env none routes with
    | none => rfl
    | some select =>
      rw [Option.toList_some,map_singleton,foldl_cons,foldl_nil,callShown_add,Option.any_some]
      by_cases ht : select.type=type
      · rw [if_pos ht,decide_eq_true ht]
      · rw [if_neg ht,decide_eq_false ht]

theorem callsShown_quiet (hquiet : Quiet type env routes) (shown : Bool) :
    (redistCalls env routes).foldl (callShown type) shown=shown := by
  unfold redistCalls
  cases hsame : (Choice.over env ⟨none,none,false⟩ routes).same with
  | some select =>
    obtain ⟨fib,hfib,hsel,-,hselect,-,-⟩ := same_spec hnum honce hsame
    have hty : select.type=fib.type := by
      rw [hselect]
      rfl
    dsimp only
    split
    · rename_i hchanged
      have ht : ¬fib.type=type := by
        intro ht
        rw [hselect,(hquiet.stays fib hfib hsel ht).2] at hchanged
        exact Bool.false_ne_true hchanged
      rw [foldl_cons,foldl_cons,foldl_nil,callShown_delete,callShown_add,hty,
        if_neg ht,if_neg ht,ite_self]
    · rfl
  | none =>
    have hdeleted : ((routes.find? fun rib => rib.flags.selected).toList.map fun fib =>
        RedistCall.delete fib.type fib.distance).foldl (callShown type) shown=shown := by
      cases hfind : routes.find? fun rib => rib.flags.selected with
      | none => rfl
      | some fib =>
        obtain ⟨hmem,hsel⟩ := selected_of_find? hfind
        have ht : ¬fib.type=type := by
          intro ht
          have hpoints := (pointsTo_winner hnum hmem).mpr (hquiet.stays fib hmem hsel ht).1
          rw [pointsTo_winner_of_same honce hsame hmem hsel] at hpoints
          exact nomatch hpoints
        rw [Option.toList_some,map_singleton,foldl_cons,foldl_nil,
          callShown_delete,if_neg ht,ite_self]
    rw [foldl_append,hdeleted]
    cases hw : winner env none routes with
    | none => rfl
    | some select =>
      obtain ⟨best,hbest,hchosen,hselect⟩ := winner_eq_some hnum hw
      have hty : select.type=best.type := by
        rw [hselect]
        rfl
      have ht : ¬best.type=type := by
        intro ht
        have hno := pointsTo_winner_of_same honce hsame hbest (hquiet.same best hbest hchosen ht)
        rw [(pointsTo_winner hnum hbest).mpr hchosen] at hno
        exact nomatch hno
      rw [Option.toList_some,map_singleton,foldl_cons,foldl_nil,callShown_add,hty,if_neg ht]

end

end

section

variable {s : Zebra} {type : RouteType}

/-- The walk shows each visited prefix that has an entry of the type to be
sent. -/
theorem sendRoutes_sends (s : Zebra) (wants : PrefixIpv4→Rib→Bool) (type : RouteType)
    (nodes : List PrefixIpv4) : ∀ client : Zserv,
      ∃ messages, Sends client (sendRoutes s wants nodes client) messages ∧
        ∀ view p, messages.foldl (applyMessage type) view p=true ↔ view p=true ∨
          p∈nodes ∧ ∃ rib∈rnodeToRibs s (.unicast,p), wants p rib=true ∧ rib.type=type := by
  -- First the entries of one prefix.
  have hrts : ∀ (p : PrefixIpv4) (routes : List Rib) (client : Zserv),
      ∃ messages, Sends client (routes.foldl (fun client rib =>
          if wants p rib then zsendRouteMultipath client .add p rib.type else client) client)
            messages ∧
        ∀ view p', messages.foldl (applyMessage type) view p'=true ↔ view p'=true ∨
          p'=p ∧ ∃ rib∈routes, wants p rib=true ∧ rib.type=type := by
    intro p routes
    induction routes with
    | nil =>
      refine fun client => ⟨[],.refl client,fun view p' => (or_iff_left ?_).symm⟩
      rintro ⟨-,rib,hmem,-⟩
      exact absurd hmem not_mem_nil
    | cons rib rest ih =>
      intro client
      rw [foldl_cons]
      cases hwants : wants p rib with
      | false =>
        obtain ⟨messages,hsends,hview⟩ := ih client
        refine ⟨messages,hsends,fun view p' => ?_⟩
        rw [hview,exists_mem_cons_iff,hwants]
        simp
      | true =>
        obtain ⟨messages,hsends,hview⟩ := ih (zsendRouteMultipath client .add p rib.type)
        refine ⟨⟨.add,p,rib.type⟩::messages,?_,fun view p' => ?_⟩
        · have hfst : Sends client (zsendRouteMultipath client .add p rib.type)
              [⟨.add,p,rib.type⟩] := ⟨rfl,rfl⟩
          exact hfst.trans hsends
        rw [foldl_cons,hview,exists_mem_cons_iff,hwants,applyMessage]
        by_cases ht : rib.type=type
        · rw [if_pos ht]
          by_cases hp : p'=p
          · rw [hp,update_self]
            simp [ht]
          rw [update_of_ne hp]
          simp [hp]
        rw [if_neg ht]
        simp [ht]
  induction nodes with
  | nil =>
    refine fun client => ⟨[],.refl client,fun view p => (or_iff_left ?_).symm⟩
    exact fun h => absurd h.1 not_mem_nil
  | cons p rest ih =>
    intro client
    obtain ⟨first,hfst,hviewFirst⟩ := hrts p (rnodeToRibs s (.unicast,p)) client
    obtain ⟨more,hmore,hviewMore⟩ := ih ((rnodeToRibs s (.unicast,p)).foldl (fun client rib =>
      if wants p rib then zsendRouteMultipath client .add p rib.type else client) client)
    refine ⟨first++more,hfst.trans hmore,fun view p' => ?_⟩
    rw [foldl_append,hviewMore,hviewFirst,mem_cons,or_assoc,or_and_right]
    refine or_congr_right (or_congr_left ?_)
    constructor
    · rintro ⟨heq,h⟩
      rw [heq]
      exact ⟨rfl,h⟩
    · rintro ⟨heq,h⟩
      rw [heq] at h
      exact ⟨heq,h⟩

end

/-- A node that clients may learn of. -/
def ShownNode (rn : RouteNode) : Prop := rn.1=.unicast ∧ zebraCheckAddr rn.2=true

/-- Selected entries of the type come from such entries. -/
def ShownFrom (type : RouteType) (routes routes' : List Rib) : Prop :=
  ∀ rib'∈routes', rib'.flags.selected=true → rib'.type=type →
    ∃ rib∈routes, rib.flags.selected=true ∧ rib.type=type ∧ rib.distance=rib'.distance

/-- A new entry does not come as a selected one of the type. -/
def Unselected (type other : RouteType) (flags : ZebraFlags) (rn : RouteNode) : Prop :=
  flags.selected=true → other=type → ¬ShownNode rn

/-- The message from the kernel is not about a selected entry of the type. -/
def KeepsShown (type : RouteType) (request : DeleteRequest) (routes : List Rib) : Prop :=
  match deleteLookup request.type request.gate request.ifindex none routes with
  | .missing (some fib) => request.type=.kernel → fib.type≠type
  | _ => True

section

variable {type : RouteType} {routes : List Rib} {f : Rib→Rib} (next : ℕ)

theorem ShownFrom.refl (type : RouteType) (routes : List Rib) : ShownFrom type routes routes :=
  fun rib hmem hs ht => ⟨rib,hmem,hs,ht,rfl⟩

theorem shownFrom_modifyRib
    (hf : ∀ rib∈routes, (f rib).flags.selected=true → rib.flags.selected=true ∧
      (f rib).type=rib.type ∧ (f rib).distance=rib.distance) :
    ShownFrom type routes (modifyRib addr f routes) := by
  intro rib' hmem hs ht
  obtain ⟨rib,hrts,heq⟩ := mem_map.mp hmem
  rw [←heq] at hs ht ⊢
  split at hs
  · rename_i haddr
    rw [if_pos haddr] at ht ⊢
    obtain ⟨hsel,hty,hdist⟩ := hf rib hrts hs
    exact ⟨rib,hrts,hsel,hty.symm.trans ht,hdist.symm⟩
  rename_i haddr
  rw [if_neg haddr] at ht ⊢
  exact ⟨rib,hrts,hs,ht,rfl⟩

theorem modifyRib_shownFrom
    (hf : ∀ rib∈routes, rib.addr=addr → rib.flags.selected=true → rib.type=type →
      (f rib).flags.selected=true ∧ (f rib).type=rib.type ∧ (f rib).distance=rib.distance) :
    ShownFrom type (modifyRib addr f routes) routes := by
  intro rib hmem hs ht
  refine ⟨if rib.addr=addr then f rib else rib,mem_map_of_mem hmem,?_⟩
  split
  · rename_i haddr
    obtain ⟨hsel,hty,hdist⟩ := hf rib hmem haddr hs ht
    exact ⟨hsel,hty.trans ht,hdist⟩
  · exact ⟨hs,ht,rfl⟩

theorem shownFrom_of_eq (hf : ∀ rib, (f rib).flags=rib.flags ∧ (f rib).type=rib.type ∧
    (f rib).distance=rib.distance) (type : RouteType) (addr : ℕ) (routes : List Rib) :
    ShownFrom type routes (modifyRib addr f routes) ∧
      ShownFrom type (modifyRib addr f routes) routes := by
  refine ⟨shownFrom_modifyRib addr fun rib _ hs => ?_,modifyRib_shownFrom addr fun rib _ _ hs _ => ?_⟩
  · rw [(hf rib).1] at hs
    exact ⟨hs,(hf rib).2⟩
  rw [(hf rib).1]
  exact ⟨hs,(hf rib).2⟩

theorem ShownFrom.trans {routes' routes'' : List Rib} (h : ShownFrom type routes routes')
    (h' : ShownFrom type routes' routes'') : ShownFrom type routes routes'' := by
  intro rib'' hmem hs ht
  obtain ⟨rib',hmem',hs',ht',hdist'⟩ := h' rib'' hmem hs ht
  obtain ⟨rib,hrts,hs0,ht0,hdist⟩ := h rib' hmem' hs' ht'
  exact ⟨rib,hrts,hs0,ht0,hdist.trans hdist'⟩

theorem shownFrom_replaced {request : RibRequest}
    (hno : request.flags.selected=true → request.type≠type) (same : Option Rib) :
    ShownFrom type routes (replacedRoutes next (newRib request) same routes) ∧
      ShownFrom type (replacedRoutes next (newRib request) same routes) routes := by
  obtain ⟨hty,-,-,hflags⟩ := newRib_keeps request
  have hcons : ShownFrom type routes ({newRib request with addr := next}::routes) ∧
      ShownFrom type ({newRib request with addr := next}::routes) routes := by
    refine ⟨fun rib' hmem hs ht => ?_,fun rib hmem hs ht => ?_⟩
    · rcases mem_cons.mp hmem with hnew|hold
      · rw [hnew] at hs ht
        exact absurd (hty.symm.trans ht)
          (hno ((congrArg ZebraFlags.selected hflags).symm.trans hs))
      · exact ⟨rib',hold,hs,ht,rfl⟩
    · exact ⟨rib,mem_cons_of_mem _ hmem,hs,ht,rfl⟩
  cases same with
  | none => exact hcons
  | some same =>
    have hrem := shownFrom_of_eq (f := fun rib : Rib => {rib with removed := true})
      (fun _ => ⟨rfl,rfl,rfl⟩) type same.addr ({newRib request with addr := next}::routes)
    exact ⟨hcons.1.trans hrem.1,hrem.2.trans hcons.2⟩

theorem shownFrom_added {request : AddRequest}
    (hleg : Duplicate request routes ∨ (request.flags.selected=true → request.type≠type)) :
    ShownFrom type routes (addedRoutes next request routes) ∧
      ShownFrom type (addedRoutes next request routes) routes := by
  unfold addedRoutes
  split
  · refine shownFrom_of_eq ?_ type _ routes
    exact fun _ => ⟨rfl,rfl,rfl⟩
  rename_i hnone
  rcases hleg with ⟨hty,hsome⟩|hno
  · obtain ⟨same,hsame⟩ := Option.isSome_iff_exists.mp hsome
    exact absurd hty (hnone same hsame)
  · exact shownFrom_replaced next hno _

/-- A delete selects nothing, and deselects only what the kernel has lost. -/
theorem shownFrom_deleted (hnum : Numbered routes) (request : DeleteRequest) :
    ShownFrom type routes (deletedRoutes request routes) ∧
      (KeepsShown type request routes → ShownFrom type (deletedRoutes request routes) routes) := by
  have hfnd := deleteLookup_ok request.type request.gate request.ifindex routes none []
    fun rib h => nomatch h
  rw [nil_append] at hfnd
  unfold deletedRoutes KeepsShown
  cases hlk : deleteLookup request.type request.gate request.ifindex none routes with
  | counted rib =>
    have hboth := shownFrom_of_eq (f := fun rib : Rib => {rib with refcnt := rib.refcnt-1})
      (fun _ => ⟨rfl,rfl,rfl⟩) type rib.addr routes
    exact ⟨hboth.1,fun _ => hboth.2⟩
  | same rib =>
    have hboth := shownFrom_of_eq (f := fun rib : Rib => {rib with removed := true})
      (fun _ => ⟨rfl,rfl,rfl⟩) type rib.addr routes
    exact ⟨hboth.1,fun _ => hboth.2⟩
  | missing fib =>
    cases fib with
    | none => exact ⟨.refl type routes,fun _ => .refl type routes⟩
    | some fib =>
      rw [hlk] at hfnd
      dsimp only
      by_cases hkernel : request.type=.kernel
      · rw [if_pos hkernel]
        refine ⟨shownFrom_modifyRib fib.addr (fun rib _ hs => nomatch hs),fun hkeeps => ?_⟩
        refine modifyRib_shownFrom fib.addr fun rib hmem haddr _ ht => ?_
        rw [hnum.eq_of_addr hmem (hfnd fib rfl).1 haddr] at ht
        exact absurd ht (hkeeps hkernel)
      rw [if_neg hkernel]
      exact ⟨.refl type routes,fun _ => .refl type routes⟩

theorem exists_selected_iff (honce : SelectedOnce none routes) :
    (∃ rib∈routes, rib.flags.selected=true ∧ rib.type=type) ↔
      ((routes.find? fun rib => rib.flags.selected).any fun fib => fib.type=type)=true := by
  constructor
  · rintro ⟨rib,hmem,hs,ht⟩
    cases hfind : routes.find? fun rib => rib.flags.selected with
    | none => exact absurd hs (List.find?_eq_none.mp hfind rib hmem)
    | some fib =>
      obtain ⟨hfib,hsel⟩ := selected_of_find? hfind
      rw [eq_of_selectedOnce honce hfib hmem hsel hs]
      exact decide_eq_true ht
  · intro h
    obtain ⟨fib,hfind,ht⟩ := (Option.any_eq_true _ _).mp h
    obtain ⟨hfib,hsel⟩ := selected_of_find? hfind
    exact ⟨fib,hfib,hsel,of_decide_eq_true ht⟩

/-- The entry that is selected behind `rib_process` has the type. -/
theorem exists_processed_iff {safi : Safi} (hnum : Numbered routes) :
    (∃ rib∈(routes.filter fun rib => !rib.removed).map
        (processedRib safi env (winner env none routes)),
        rib.flags.selected=true ∧ rib.type=type) ↔
      ((winner env none routes).any fun select => select.type=type)=true := by
  have hty : ∀ rib, (processedRib safi env (winner env none routes) rib).type=rib.type :=
    fun rib => (congrArg Rib.type (ribData_processedRib safi env _ rib) :)
  constructor
  · rintro ⟨rib',hmem,hs,ht⟩
    obtain ⟨rib,hrts,-,heq⟩ := mem_processed.mp hmem
    rw [←heq,selected_processedRib,pointsTo_winner hnum hrts] at hs
    rw [←heq,hty] at ht
    cases hw : winner env none routes with
    | none =>
      have hno := winner_eq_none hw rib hrts
      rw [hs.1] at hno
      exact nomatch hno
    | some select =>
      obtain ⟨best,hbest,hchosen,hselect⟩ := winner_eq_some hnum hw
      rw [hselect,Option.any_some]
      refine decide_eq_true ?_
      rw [←ht,hs.unique hchosen hrts hbest]
      rfl
  · intro h
    obtain ⟨select,hw,ht⟩ := (Option.any_eq_true _ _).mp h
    obtain ⟨best,hbest,hchosen,hselect⟩ := winner_eq_some hnum hw
    refine ⟨_,mem_processed.mpr ⟨best,hbest,removed_of_chosen hchosen,rfl⟩,?_,?_⟩
    · rw [selected_processedRib,pointsTo_winner hnum hbest]
      exact hchosen
    rw [hty,←of_decide_eq_true ht,hselect]
    rfl

end

/-- Changes of the RIB, and what clients ask for. -/
inductive ViewStep where
  | ribAdd (request : AddRequest)
  | ribAddMultipath (p : PrefixIpv4) (request : RibRequest) (safi : Safi)
  | ribDelete (request : DeleteRequest)
  | metaQueueProcess (env : Environment)
  | redistributeAdd (c : ℕ) (type : RouteType) (nodes : List PrefixIpv4)
  | redistributeDelete (c : ℕ) (type : RouteType)
  | redistributeDefaultAdd (c : ℕ)
  | redistributeDefaultDelete (c : ℕ)

/-- One step. It fails when the assertion in `rib_process` does. -/
def viewStep (s : Zebra) : ViewStep→Option Zebra
  | .ribAdd request => some (ribAddIpv4 s request)
  | .ribAddMultipath p request safi => some (ribAddIpv4Multipath s p request safi)
  | .ribDelete request => some (ribDeleteIpv4 s request)
  | .metaQueueProcess env => metaQueueProcess env s
  | .redistributeAdd c type nodes => some (zebraRedistributeAdd s nodes c type)
  | .redistributeDelete c type => some (zebraRedistributeDelete s c type)
  | .redistributeDefaultAdd c => some (zebraRedistributeDefaultAdd s c)
  | .redistributeDefaultDelete c => some (zebraRedistributeDefaultDelete s c)

/-- The walk over the unicast table visits every node that has a dest, once. -/
def Walk (s : Zebra) (nodes : List PrefixIpv4) : Prop :=
  nodes.Nodup ∧ ∀ p, (s.nodes (.unicast,p)).dest.isSome=true → p∈nodes

/-- Selected entries change by `rib_process` only, on nodes the subscribed client learns of. -/
def Watched (c : ℕ) (type : RouteType) (s : Zebra) : ViewStep→Prop
  | .ribAdd request =>
    Duplicate request (rnodeToRibs s (routeNode request.safi request.p)) ∨
      Unselected type request.type request.flags (routeNode request.safi request.p)
  | .ribAddMultipath p request safi => Unselected type request.type request.flags (routeNode safi p)
  | .ribDelete request => (s.clients c).redist type=true →
    ShownNode (routeNode request.safi request.p) →
      KeepsShown type request (rnodeToRibs s (routeNode request.safi request.p))
  | .metaQueueProcess env => (s.clients c).redist type=true →
    ∀ rn, nextNode s=some rn → ShownNode rn ∨ Quiet type env (rnodeToRibs s rn)
  | .redistributeAdd _ _ nodes => Walk s nodes
  | _ => True

/-- The client does not cancel its subscription. -/
def Subscribed (c : ℕ) (type : RouteType) (s : Zebra) (step : ViewStep) : Prop :=
  Watched c type s step ∧ step ≠ .redistributeDelete c type

/-- Entries are numbered, and selected ones of the type have a finite
distance. -/
structure RibOk (type : RouteType) (s : Zebra) : Prop where
  entries : EntriesOk s
  finite : ∀ rn, ShownNode rn → ∀ rib∈rnodeToRibs s rn, rib.flags.selected=true →
    rib.type=type → rib.distance≠distanceInfinity

/-- The client is subscribed, and what it was sent behind `base` shows it the
RIB. -/
structure ViewOk (c : ℕ) (type : RouteType) (base : List Message) (s : Zebra) : Prop where
  rib : RibOk type s
  redist : (s.clients c).redist type=true
  view : ∃ messages, (s.clients c).sent=base++messages ∧
    ∀ p, clientView type messages p=true ↔ Shows s type p

variable {step : ViewStep}

section

variable {s s' : Zebra} {c : ℕ} {type : RouteType} {base : List Message} {rn : RouteNode}

theorem RibOk.change (h : RibOk type s) (hchange : Changes s s' rn f)
    (hfrom : ShownNode rn → ShownFrom type (rnodeToRibs s rn) (f (rnodeToRibs s rn))) :
    RibOk type s' := by
  refine ⟨hchange.entries h.entries,fun rn' hshown rib' hmem hs ht => ?_⟩
  by_cases hrn : rn'=rn
  · rw [hrn] at hmem hshown
    rw [hchange.routes] at hmem
    obtain ⟨rib,hrts,hs0,ht0,hdist⟩ := hfrom hshown rib' hmem hs ht
    rw [←hdist]
    exact h.finite rn hshown rib hrts hs0 ht0
  rw [hchange.others rn' hrn] at hmem
  exact h.finite rn' hshown rib' hmem hs ht

theorem shows_congr
    (h : zebraCheckAddr p=true →
      ((∃ rib∈rnodeToRibs s (.unicast,p), rib.flags.selected=true ∧ rib.type=type) ↔
        ∃ rib∈rnodeToRibs s' (.unicast,p), rib.flags.selected=true ∧ rib.type=type)) :
    Shows s type p ↔ Shows s' type p := and_congr_right h

theorem ViewOk.change (h : ViewOk c type base s) (hchange : Changes s s' rn f)
    (hfrom : ShownNode rn → ShownFrom type (rnodeToRibs s rn) (f (rnodeToRibs s rn)))
    (hback : ShownNode rn → ShownFrom type (f (rnodeToRibs s rn)) (rnodeToRibs s rn)) :
    ViewOk c type base s' := by
  obtain ⟨messages,hsent,hview⟩ := h.view
  refine ⟨h.rib.change hchange hfrom,?_,messages,?_,fun p => ?_⟩
  · rw [hchange.clients]
    exact h.redist
  · rw [hchange.clients]
    exact hsent
  rw [hview]
  refine shows_congr fun hcheck => ?_
  by_cases hrn : (Safi.unicast,p)=rn
  · have hshown : ShownNode rn := by
      rw [←hrn]
      exact ⟨rfl,hcheck⟩
    rw [hrn,hchange.routes]
    constructor
    · rintro ⟨rib,hmem,hs,ht⟩
      obtain ⟨rib',hmem',hs',ht',-⟩ := hback hshown rib hmem hs ht
      exact ⟨rib',hmem',hs',ht'⟩
    · rintro ⟨rib,hmem,hs,ht⟩
      obtain ⟨rib',hmem',hs',ht',-⟩ := hfrom hshown rib hmem hs ht
      exact ⟨rib',hmem',hs',ht'⟩
  · rw [hchange.others _ hrn]

theorem RibOk.metaQueueProcess (h : RibOk type s) (hstep : metaQueueProcess env s=some s') :
    RibOk type s' := by
  rcases metaQueueProcess_cases h.entries hstep with
    heq | ⟨rn,out,-,hout,hself,hoth,-,-,he⟩
  · rw [heq]
    exact h
  have hnum := (h.entries rn).1
  have hrts : ribProcessRoutes rn.1 env (rnodeToRibs s rn)=_ :=
    ribProcessRoutes_eq hnum (selectedOnce_of_ribProcessRoutes hout)
  rw [hrts,Option.some.injEq] at hout
  refine ⟨he,fun rn' hshown rib' hmem hs ht => ?_⟩
  by_cases hrn : rn'=rn
  · rw [hrn,hself,←hout] at hmem
    obtain ⟨rib,hmemRib,-,heq⟩ := mem_processed.mp hmem
    rw [←heq,selected_processedRib,pointsTo_winner hnum hmemRib] at hs
    have hdist : (ribData rib').distance=(ribData rib).distance := by
      rw [←heq,ribData_processedRib]
    exact fun hinf => distance_of_usable hs.1 (hdist.symm.trans hinf)
  rw [hoth rn' hrn] at hmem
  exact h.finite rn' hshown rib' hmem hs ht

/-- The messages of one `rib_process` bring the view up to date. -/
theorem ViewOk.metaQueueProcess (h : ViewOk c type base s)
    (hleg : ∀ rn, nextNode s=some rn → ShownNode rn ∨ Quiet type env (rnodeToRibs s rn))
    (hstep : metaQueueProcess env s=some s') : ViewOk c type base s' := by
  have hrib := h.rib.metaQueueProcess hstep
  rcases metaQueueProcess_cases h.rib.entries hstep with
    heq | ⟨rn,out,hnext,hout,hself,hoth,hclients,-,-⟩
  · rw [heq]
    exact h
  have hnum := (h.rib.entries rn).1
  have honce := selectedOnce_of_ribProcessRoutes hout
  have hrts : ribProcessRoutes rn.1 env (rnodeToRibs s rn)=_ := ribProcessRoutes_eq hnum honce
  rw [hrts,Option.some.injEq] at hout
  obtain ⟨messages,hsent,hview⟩ := h.view
  obtain ⟨more,hmore,hviewMore⟩ := sends_calls rn.2 out.2 h.redist
  have hclient : s'.clients c=out.2.foldl (redistribute rn.2) (s.clients c) := by
    rw [hclients]
    rfl
  refine ⟨hrib,?_,messages++more,?_,fun p => ?_⟩
  · rw [hclient,hmore.redist]
    exact h.redist
  · rw [hclient,hmore.sent,hsent,append_assoc]
  rw [clientView_append,hviewMore]
  by_cases hp : p=rn.2
  swap
  · have hne : (Safi.unicast,p)≠rn := fun heq => hp (congrArg Prod.snd heq)
    rw [update_of_ne hp,hview]
    refine shows_congr fun _ => ?_
    rw [hoth _ hne]
  rw [hp,update_self,←hout]
  rcases hleg rn hnext with hshown|hquiet
  · have hrn : (Safi.unicast,rn.2)=rn := Prod.ext hshown.1.symm rfl
    have hbef : clientView type messages rn.2 =
        ((rnodeToRibs s rn).find? fun rib => rib.flags.selected).any fun fib => fib.type=type := by
      rw [Bool.eq_iff_iff,hview,←exists_selected_iff honce]
      unfold Shows
      rw [hrn]
      exact and_iff_right hshown.2
    rw [hbef,callsShown hnum honce (h.rib.finite rn hshown),
      ← @exists_processed_iff env type (rnodeToRibs s rn) rn.1 hnum]
    unfold Shows
    rw [hrn,hself,←hout]
    exact (and_iff_right hshown.2).symm
  · rw [callsShown_quiet hnum honce hquiet,hview]
    refine shows_congr fun hcheck => ?_
    by_cases hrn : (Safi.unicast,rn.2)=rn
    · rw [hrn,hself,←hout,exists_processed_iff hnum,exists_selected_iff honce,
        ← callsShown hnum honce (h.rib.finite rn ⟨(congrArg Prod.fst hrn).symm,hcheck⟩),
        callsShown_quiet hnum honce hquiet]
    · rw [hoth _ hrn]

theorem rnodeToRibs_setClient (s : Zebra) (c : ℕ) (client : Zserv) (rn : RouteNode) :
    rnodeToRibs (s.setClient c client) rn=rnodeToRibs s rn := rfl

theorem clients_setClient_self (s : Zebra) (c : ℕ) (client : Zserv) :
    (s.setClient c client).clients c=client := by
  exact update_self c client s.clients

theorem clients_setClient_of_ne (h : c≠c') (s : Zebra) (client : Zserv) :
    (s.setClient c' client).clients c=s.clients c := by
  exact update_of_ne h client s.clients

theorem redist_setRedist_self (client : Zserv) (type : RouteType) (b : Bool) :
    (client.setRedist type b).redist type=b := by
  exact update_self type b client.redist

theorem redist_setRedist_of_ne {other : RouteType} (h : type≠other) (client : Zserv) (b : Bool) :
    (client.setRedist other b).redist type=client.redist type := by
  exact update_of_ne h b client.redist

theorem RibOk.setClient (h : RibOk type s) (c : ℕ) (client : Zserv) :
    RibOk type (s.setClient c client) := ⟨h.entries,h.finite⟩

theorem ViewOk.setClient (h : ViewOk c type base s)
    (hclient : c'=c → client.redist type=true ∧ ∃ more, client.sent=(s.clients c).sent++more ∧
      ∃ new : PrefixIpv4 → Prop, (∀ p, new p → Shows s type p) ∧ ∀ view p,
      more.foldl (applyMessage type) view p=true ↔ view p=true ∨ new p) :
    ViewOk c type base (s.setClient c' client) := by
  obtain ⟨messages,hsent,hview⟩ := h.view
  by_cases hc : c'=c
  · obtain ⟨hredist,more,hmore,new,hnew,hviewMore⟩ := hclient hc
    have hself : (s.setClient c' client).clients c=client := by rw [hc,clients_setClient_self]
    refine ⟨h.rib.setClient c' client,?_,messages++more,?_,fun p => ?_⟩
    · rw [hself]
      exact hredist
    · rw [hself,hmore,hsent,append_assoc]
    rw [clientView_append,hviewMore,hview]
    exact or_iff_left_of_imp (hnew p)
  have hoth := clients_setClient_of_ne (Ne.symm hc) s client
  refine ⟨h.rib.setClient c' client,?_,messages,?_,hview⟩
  · rw [hoth]
    exact h.redist
  rw [hoth]
  exact hsent

theorem noNews (client : Zserv) : ∃ more, client.sent=client.sent++more ∧
    ∃ new : PrefixIpv4 → Prop, (∀ p, new p → Shows s type p) ∧ ∀ view p,
      more.foldl (applyMessage type) view p=true ↔ view p=true ∨ new p :=
  ⟨[],(append_nil _).symm,fun _ => False,fun _ h => h.elim,
    fun _ _ => (or_iff_left fun h => h).symm⟩

theorem snapshotWants_eq_true {rib : Rib} :
    snapshotWants type p rib=true ↔ rib.flags.selected=true ∧ rib.type=type ∧
      rib.distance≠distanceInfinity ∧ zebraCheckAddr p=true := by
  unfold snapshotWants
  rw [Bool.and_eq_true,Bool.and_eq_true,Bool.and_eq_true,decide_eq_true_eq,decide_eq_true_eq,
    and_assoc,and_assoc]

section

variable (h : ViewOk c type base s)
include h

theorem ViewOk.redistributeAdd (c' : ℕ) (other : RouteType)
    (nodes : List PrefixIpv4) : ViewOk c type base (zebraRedistributeAdd s nodes c' other) := by
  unfold zebraRedistributeAdd
  split
  · exact h
  split
  · exact h
  refine h.setClient fun hc => ?_
  obtain ⟨more,hsends,hview⟩ := sendRoutes_sends s (snapshotWants other) type nodes
    ((s.clients c').setRedist other true)
  refine ⟨?_,more,?_,_,fun p hnew => ?_,hview⟩
  · rw [zebraRedistribute,hsends.redist,hc]
    by_cases hoth : type=other
    · rw [hoth,redist_setRedist_self]
    rw [redist_setRedist_of_ne hoth]
    exact h.redist
  · rw [zebraRedistribute,hsends.sent,hc]
    rfl
  obtain ⟨-,rib,hmem,hwants,ht⟩ := hnew
  obtain ⟨hs,-,-,hcheck⟩ := snapshotWants_eq_true.mp hwants
  exact ⟨hcheck,rib,hmem,hs,ht⟩

theorem ViewOk.redistributeDelete {other : RouteType} (hoth : ¬(c'=c ∧ other=type)) :
    ViewOk c type base (zebraRedistributeDelete s c' other) := by
  unfold zebraRedistributeDelete
  split
  · exact h
  refine h.setClient fun hc => ⟨?_,?_⟩
  · rw [hc]
    rw [redist_setRedist_of_ne fun heq => hoth ⟨hc,heq.symm⟩]
    exact h.redist
  rw [hc]
  exact noNews (s.clients c)

theorem ViewOk.redistributeDefaultAdd (c' : ℕ) :
    ViewOk c type base (zebraRedistributeDefaultAdd s c') := by
  refine h.setClient fun hc => ?_
  obtain ⟨more,hsends,hview⟩ := sendRoutes_sends s
    (fun _ rib => rib.flags.selected && rib.distance≠distanceInfinity) type [⟨0,0⟩]
      {s.clients c' with redistDefault := true}
  refine ⟨?_,more,?_,_,fun p hnew => ?_,hview⟩
  · rw [zebraRedistributeDefault,hsends.redist,hc]
    exact h.redist
  · rw [zebraRedistributeDefault,hsends.sent,hc]
  obtain ⟨hp,rib,hmem,hwants,ht⟩ := hnew
  refine ⟨?_,rib,hmem,((Bool.and_eq_true _ _).mp hwants).1,ht⟩
  rw [mem_singleton.mp hp]
  decide

theorem ViewOk.redistributeDefaultDelete (c' : ℕ) :
    ViewOk c type base (zebraRedistributeDefaultDelete s c') := by
  refine h.setClient fun hc => ⟨?_,?_⟩
  · rw [hc]
    exact h.redist
  rw [hc]
  exact noNews (s.clients c)

end

/-- A client that subscribes is shown the RIB. -/
theorem RibOk.subscribe (h : RibOk type s) (hty : type ≠ .system)
    (hfst : (s.clients c).redist type=false) {nodes : List PrefixIpv4} (hwalk : Walk s nodes) :
    ViewOk c type (s.clients c).sent (zebraRedistributeAdd s nodes c type) := by
  have hadd : zebraRedistributeAdd s nodes c type =
      s.setClient c (zebraRedistribute s nodes type ((s.clients c).setRedist type true)) := by
    unfold zebraRedistributeAdd
    rw [if_neg hty,hfst,if_neg Bool.false_ne_true]
  obtain ⟨messages,hsends,hview⟩ := sendRoutes_sends s (snapshotWants type) type nodes
    ((s.clients c).setRedist type true)
  have hself : (zebraRedistributeAdd s nodes c type).clients c =
      zebraRedistribute s nodes type ((s.clients c).setRedist type true) := by
    rw [hadd,clients_setClient_self]
  refine ⟨?_,?_,messages,?_,fun p => ?_⟩
  · rw [hadd]
    exact h.setClient c _
  · rw [hself,zebraRedistribute,hsends.redist,redist_setRedist_self]
  · rw [hself,zebraRedistribute,hsends.sent]
    rfl
  have hrts : ∀ rn, rnodeToRibs (zebraRedistributeAdd s nodes c type) rn = rnodeToRibs s rn := by
    intro rn
    rw [hadd,rnodeToRibs_setClient]
  unfold clientView Shows
  rw [hview,hrts]
  constructor
  · rintro (hno|⟨-,rib,hmem,hwants,ht⟩)
    · exact nomatch hno
    obtain ⟨hs,-,-,hcheck⟩ := snapshotWants_eq_true.mp hwants
    exact ⟨hcheck,rib,hmem,hs,ht⟩
  · rintro ⟨hcheck,rib,hmem,hs,ht⟩
    refine .inr ⟨hwalk.2 p ?_,rib,hmem,?_,ht⟩
    · unfold rnodeToRibs at hmem
      cases hdest : (s.nodes (.unicast,p)).dest with
      | none =>
        rw [hdest] at hmem
        exact absurd hmem not_mem_nil
      | some dest => rfl
    exact snapshotWants_eq_true.mpr ⟨hs,ht,h.finite (.unicast,p) ⟨rfl,hcheck⟩ rib hmem hs ht,hcheck⟩

/-- One step, while the client is subscribed or not. -/
theorem viewStep_rib (h : RibOk type s) (hleg : Watched c type s step)
    (hstep : viewStep s step=some s') : RibOk type s' := by
  cases step with
  | ribAdd request =>
    rw [←Option.some.inj hstep]
    refine h.change (changes_ribAddIpv4 s request) fun hshown => ?_
    exact (shownFrom_added s.nextRib (hleg.imp_right fun hno hs ht => hno hs ht hshown)).1
  | ribAddMultipath p request safi =>
    rw [←Option.some.inj hstep]
    refine h.change (changes_ribAddIpv4Multipath s p request safi) fun hshown => ?_
    exact (shownFrom_replaced s.nextRib (fun hs ht => hleg hs ht hshown) _).1
  | ribDelete request =>
    rw [←Option.some.inj hstep]
    refine h.change (changes_ribDeleteIpv4 s request) fun _ => ?_
    exact (shownFrom_deleted (h.entries _).1 request).1
  | metaQueueProcess env => exact h.metaQueueProcess hstep
  | redistributeAdd c' other nodes =>
    rw [←Option.some.inj hstep,zebraRedistributeAdd]
    split_ifs
    · exact h
    · exact h
    · exact h.setClient c' _
  | redistributeDelete c' other =>
    rw [←Option.some.inj hstep,zebraRedistributeDelete]
    split_ifs
    · exact h
    · exact h.setClient c' _
  | redistributeDefaultAdd c' | redistributeDefaultDelete c' =>
    rw [←Option.some.inj hstep]
    exact h.setClient c' _

theorem viewStep_ok (h : ViewOk c type base s) (hleg : Subscribed c type s step)
    (hstep : viewStep s step=some s') : ViewOk c type base s' := by
  obtain ⟨hwatched,hstays⟩ := hleg
  cases step with
  | ribAdd request =>
    rw [←Option.some.inj hstep]
    have hboth := fun hshown : ShownNode (routeNode request.safi request.p) =>
      shownFrom_added s.nextRib (hwatched.imp_right fun hno hs ht => hno hs ht hshown)
    exact h.change (changes_ribAddIpv4 s request) (fun hshown => (hboth hshown).1)
      fun hshown => (hboth hshown).2
  | ribAddMultipath p request safi =>
    rw [←Option.some.inj hstep]
    have hboth := fun hshown : ShownNode (routeNode safi p) =>
      @shownFrom_replaced type (rnodeToRibs s (routeNode safi p)) s.nextRib request
        (fun hs ht => hwatched hs ht hshown)
        ((rnodeToRibs s (routeNode safi p)).find? (multipathStops (newRib request)))
    exact h.change (changes_ribAddIpv4Multipath s p request safi) (fun hshown => (hboth hshown).1)
      fun hshown => (hboth hshown).2
  | ribDelete request =>
    rw [←Option.some.inj hstep]
    have hboth := @shownFrom_deleted type _ (h.rib.entries
      (routeNode request.safi request.p)).1 request
    exact h.change (changes_ribDeleteIpv4 s request) (fun _ => hboth.1)
      fun hshown => hboth.2 (hwatched h.redist hshown)
  | metaQueueProcess env => exact h.metaQueueProcess (hwatched h.redist) hstep
  | redistributeAdd c' other nodes =>
    rw [←Option.some.inj hstep]
    exact h.redistributeAdd c' other nodes
  | redistributeDelete c' other =>
    rw [←Option.some.inj hstep]
    refine h.redistributeDelete fun hsame => hstays ?_
    rw [hsame.1,hsame.2]
  | redistributeDefaultAdd c' =>
    rw [←Option.some.inj hstep]
    exact h.redistributeDefaultAdd c'
  | redistributeDefaultDelete c' =>
    rw [←Option.some.inj hstep]
    exact h.redistributeDefaultDelete c'

theorem ribOk_emptyZebra (type : RouteType) : RibOk type emptyZebra :=
  ⟨fun _ => ⟨List.Pairwise.nil,fun _ hmem => absurd hmem not_mem_nil⟩,
    fun _ _ _ hmem => absurd hmem not_mem_nil⟩

/-- The messages that a subscribed client has got show it the unicast table, up to an assertion of
`rib_process` that fails. -/
theorem clientView_iff (before : List ViewStep) (nodes : List PrefixIpv4)
    {steps : List ViewStep} {s1 : Zebra} (htype : type ≠ .system)
    (hbefore : LegalRun viewStep (Watched c type) emptyZebra before)
    (hrun1 : run viewStep emptyZebra before=some s1)
    (hfirst : (s1.clients c).redist type=false)
    (hsteps : LegalRun viewStep (Subscribed c type) s1 (.redistributeAdd c type nodes::steps))
    (hrun : run viewStep s1 (.redistributeAdd c type nodes::steps)=some s) (p : PrefixIpv4) :
    clientView type ((s.clients c).sent.drop (s1.clients c).sent.length) p=true ↔
      Shows s type p := by
  have hrib := run_preserves (fun _ _ _ h hl hstep => viewStep_rib h hl hstep) before emptyZebra s1
      (ribOk_emptyZebra type) hbefore hrun1
  have hsubscribed := hrib.subscribe htype hfirst hsteps.1.1
  rw [run_cons_of_step rfl] at hrun
  have hok := run_preserves (fun _ _ _ h hl hstep => viewStep_ok h hl hstep) steps _ s
    hsubscribed (hsteps.2 _ rfl) hrun
  obtain ⟨messages,hsent,hview⟩ := hok.view
  rw [hsent,List.drop_left]
  exact hview p

/-- A client subscribes to RIP routes, and one comes up in a table. -/
def sampleViewSteps (safi : Safi) : List ViewStep :=
  [.ribAdd (sampleRoute .rip safi),.metaQueueProcess reachableEnvironment]

theorem walk_emptyZebra : Walk emptyZebra [] := ⟨List.nodup_nil,nofun⟩

theorem clientView_iff_sampleViewSteps : ∃ s,
    run viewStep emptyZebra (.redistributeAdd 0 .rip []::sampleViewSteps .unicast)=some s ∧
      (clientView .rip ((s.clients 0).sent.drop (emptyZebra.clients 0).sent.length)
        ⟨0x0a000000,8⟩=true ↔ Shows s .rip ⟨0x0a000000,8⟩) := by
  have hrun : (run viewStep emptyZebra
      (.redistributeAdd 0 .rip []::sampleViewSteps .unicast)).isSome=true := by decide
  obtain ⟨s,hs⟩ := Option.isSome_iff_exists.mp hrun
  refine ⟨s,hs,clientView_iff [] [] (by decide) trivial rfl rfl ?_ hs _⟩
  refine legalRun_cons ⟨walk_emptyZebra,nofun⟩ rfl
    (legalRun_cons ⟨.inr fun h => (nomatch h),nofun⟩ rfl
      (legalRun_cons ⟨fun _ rn hrn => .inl ?_,nofun⟩ rfl trivial))
  have hnext : nextNode (ribAddIpv4 (zebraRedistributeAdd emptyZebra [] 0 .rip)
      (sampleRoute .rip .unicast))=some sampleNode := by decide
  rw [hnext,Option.some.injEq] at hrn
  rw [←hrn]
  exact ⟨rfl,by decide⟩

/-- The route is in the multicast table, and the client takes it for a unicast
route. -/
theorem ribProcess_redistributesMulticast : ∃ s,
    run viewStep emptyZebra (.redistributeAdd 0 .rip []::sampleViewSteps .multicast)=some s ∧
      (∀ q, s.subq q=[]) ∧
      ¬(clientView .rip (s.clients 0).sent ⟨0x0a000000,8⟩=true ↔ Shows s .rip ⟨0x0a000000,8⟩) := by
  have hstate : (run viewStep emptyZebra
      (.redistributeAdd 0 .rip []::sampleViewSteps .multicast)).map (fun s =>
        (decide (∀ q, s.subq q=[]),clientView .rip (s.clients 0).sent ⟨0x0a000000,8⟩,
          rnodeToRibs s (.unicast,⟨0x0a000000,8⟩)))=some (true,true,[]) := by decide
  obtain ⟨s,hs,hnode⟩ := Option.map_eq_some_iff.mp hstate
  rw [Prod.mk.injEq,Prod.mk.injEq] at hnode
  refine ⟨s,hs,of_decide_eq_true hnode.1,fun h => ?_⟩
  obtain ⟨-,rib,hmem,-⟩ := h.mp hnode.2.1
  rw [hnode.2.2] at hmem
  exact absurd hmem List.not_mem_nil

end

end RoutePlatform.RibRedistribution
