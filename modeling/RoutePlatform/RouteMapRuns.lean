import RoutePlatform.RouteMapMatrix

/-!
# Runs of route map evaluations

The static counter of `route_map_apply` is reset by the innermost call at the limit, and every
enclosing call decrements it again. Behind such a call the counter is negative, and a later call
nests deeper. A run in which every such call starts at zero is free of history.
-/

namespace RoutePlatform.RouteMapRuns

open RouteMapOperations RouteMapMatrix OperationRuns List

variable {C V σ : Type} {cmds : RuleCmds C V σ} {maps : List (RouteMap C V)} {rep : Report C V σ}
  {n : ℕ} (rest : List (RouteMapIndex C V)) {map : RouteMap C V} {name : String} {object : σ}
  {fuel : ℕ}

section

/-- No index is of the type that only lookups use. -/
def Typed (indices : List (RouteMapIndex C V)) : Prop := ∀ index∈indices, index.type ≠ .rmapAny

theorem walk_total (hl : LawfulCmds cmds) (hcall : ∀ (index : RouteMapIndex C V) ret object, ∃ rep,
      Matrix cmds maps n (.call index ret) object rep) :
    ∀ (k : ℕ) (indices : List (RouteMapIndex C V)), indices.length≤k → Typed indices →
      ∀ object, ∃ rep, Matrix cmds maps n (.walk indices) object rep := by
  intro k
  induction k with
  | zero =>
    intro indices hk _ object
    rw [length_eq_zero_iff.mp (Nat.le_zero.mp hk)]
    exact ⟨_,.unmatched n object⟩
  | succ k ih =>
    intro indices hk htyped object
    cases indices with
    | nil => exact ⟨_,.unmatched n object⟩
    | cons index rest =>
      have hrs := Nat.le_of_succ_le_succ hk
      have htyped' : Typed rest := fun x hx => htyped x (.tail _ hx)
      rcases matches_or hl index object with ⟨object1,hm⟩|⟨object',hno⟩
      · cases ht : index.type with
        | rmapDeny => exact ⟨_,.deny rest hm ht⟩
        | rmapAny => exact (htyped index mem_cons_self ht).elim
        | rmapPermit =>
          obtain ⟨ret,object2,hs⟩ : ∃ ret object2, Sets cmds index object1 ret object2 := ⟨_,_,rfl⟩
          obtain ⟨rep,hc⟩ := hcall index ret object2
          cases hv : rep.verdict with
          | denied reason => exact ⟨_,.denied rest hm ht hs hc hv⟩
          | accepted ret' =>
            cases hp : index.exitpolicy with
            | rmapExit => exact ⟨_,.exit rest hm ht hs hc hv hp⟩
            | rmapNext =>
              obtain ⟨later,hlater⟩ := ih rest hrs htyped' rep.object
              exact ⟨_,.next hm ht hs hc hv hp hlater⟩
            | rmapGoto =>
              by_cases hg : gotoIndices index rest=[]
              · exact ⟨_,.gotoEnd hm ht hs hc hv hp hg⟩
              have hsub : (gotoIndices index rest).Sublist rest := dropWhile_sublist _
              obtain ⟨later,hlater⟩ := ih (gotoIndices index rest)
                (hsub.length_le.trans hrs) (fun x hx => htyped' x (hsub.subset hx)) rep.object
              exact ⟨_,.goto hm ht hs hc hv hp hg hlater⟩
      · obtain ⟨rep,hrep⟩ := ih rest hrs htyped' object'
        exact ⟨_,.noMatch hno hrep⟩

theorem lookup_mem (h : routeMapLookupByName maps name=some map) :
    map∈maps := mem_of_find?_eq_some h

theorem call_total {n : ℕ} {index : RouteMapIndex C V} (ret : RouteMapResult) (object : σ)
    (hmap : ∀ name map, index.nextrm=some name → routeMapLookupByName maps name=some map →
      ∃ rep, Matrix cmds maps n (.call index ret) object rep) :
    ∃ rep, Matrix cmds maps n (.call index ret) object rep := by
  cases hn : index.nextrm with
  | none => exact ⟨_,.callNone ret object hn⟩
  | some name =>
    cases hlook : routeMapLookupByName maps name with
    | none => exact ⟨_,.callMissing ret object hn hlook⟩
    | some map => exact hmap name map hn hlook

theorem matrix_total (hl : LawfulCmds cmds) (htyped : ∀ map∈maps, Typed map.indices) (n : ℕ) :
    ∀ (indices : List (RouteMapIndex C V)), Typed indices →
      ∀ object, ∃ rep, Matrix cmds maps n (.walk indices) object rep := by
  induction n with
  | zero =>
    exact fun indices => walk_total hl (fun index ret object => call_total ret object
      fun _ _ hn hlook => ⟨_,.callLimit ret object hn hlook⟩) indices.length indices le_rfl
  | succ n ih =>
    refine fun indices => walk_total hl (fun index ret object => call_total ret object
      fun _ map hn hlook => ?_) indices.length indices le_rfl
    obtain ⟨rep,hrep⟩ := ih map.indices (htyped map (lookup_mem hlook)) object
    exact ⟨_,.callMap ret hn hlook hrep⟩

end

section

/-- At the limit the counter is reset, then decremented by every call. -/
def reportOutcome (rep : Report C V σ) (recursion : ℤ) : Outcome C V σ :=
  ⟨rep.verdict.ret,rep.object,if rep.verdict.limited then recursion-11 else recursion,
    rep.sets,rep.examined,rep.depth⟩

/-- The part of the code for a task. -/
def taskOutcome (cmds : RuleCmds C V σ) (maps : List (RouteMap C V)) (fuel : ℕ) (recursion : ℤ)
    (object : σ) : Task C V→Option (Outcome C V σ)
  | .walk indices =>
    applyLoop cmds maps (routeMapApply cmds maps fuel) none indices recursion object
  | .call index ret => applyCall maps (routeMapApply cmds maps fuel) index recursion ret object

variable {apply : ℤ→Option (RouteMap C V)→σ→Option (Outcome C V σ)}
  {index : RouteMapIndex C V} {recursion : ℤ} {object object1 object2 : σ} {ret : RouteMapResult}

theorem none_goal (index : RouteMapIndex C V) :
    ¬((none : Option (ℤ × RouteMapResult)).any fun g => index.pref<g.1)=true :=
  Bool.false_ne_true

theorem applyLoop_goto (p : ℤ) (ret : RouteMapResult) (rest : List (RouteMapIndex C V)) :
    applyLoop cmds maps apply (some (p,ret)) rest recursion object =
      if rest.dropWhile (fun x => x.pref<p)=[] then some (.start ret object recursion)
      else applyLoop cmds maps apply none (rest.dropWhile fun x => x.pref<p) recursion object := by
  induction rest with
  | nil => rfl
  | cons x rest ih =>
    by_cases hlt : x.pref<p
    · have hdrop : (x::rest).dropWhile (fun x => x.pref<p) =
          rest.dropWhile (fun x => x.pref<p) := dropWhile_cons_of_pos (decide_eq_true hlt)
      rw [hdrop,←ih,applyLoop]
      exact if_pos (decide_eq_true hlt)
    have hkeep : ¬(decide (x.pref<p))=true := fun h => hlt (of_decide_eq_true h)
    have hdrop : (x::rest).dropWhile (fun x => x.pref<p)=x::rest := dropWhile_cons_of_neg hkeep
    have hgoal : ¬((some (p,ret)).any fun g => x.pref<g.1)=true := hkeep
    rw [hdrop,if_neg (cons_ne_nil x rest),applyLoop,applyLoop,if_neg hgoal,if_neg (none_goal x)]

theorem applyLoop_noMatch (h : NoMatch cmds index object object1) :
    applyLoop cmds maps apply none (index::rest) recursion object =
      (applyLoop cmds maps apply none rest recursion object1).map
        (Outcome.mk RouteMapResult.rmapNomatch object1 recursion [] [index] 0).after := by
  rw [applyLoop,if_neg (none_goal _),h]
  exact if_pos rfl

theorem applyLoop_deny (h : Matches cmds index object object1) (hty : index.type=.rmapDeny) :
    applyLoop cmds maps apply none (index::rest) recursion object =
      some ⟨.rmapDenymatch,object1,recursion,[],[index],0⟩ := by
  rw [applyLoop,if_neg (none_goal _),h,hty]
  rfl

theorem applyLoop_permit {called : Outcome C V σ} (h : Matches cmds index object object1)
    (hty : index.type=.rmapPermit) (hs : Sets cmds index object1 ret object2)
    (hcall : applyCall maps apply index recursion ret object2=some called) :
    applyLoop cmds maps apply none (index::rest) recursion object =
      let first := (Outcome.mk ret object2 recursion index.setList [index] 0).after called
      if index.nextrm.isSome ∧ called.ret=.rmapDenymatch then some first
      else
        match index.exitpolicy with
        | .rmapExit => some first
        | .rmapNext =>
          (applyLoop cmds maps apply none rest called.recursion called.object).map first.after
        | .rmapGoto =>
          (applyLoop cmds maps apply (some (index.nextpref,called.ret)) rest called.recursion
            called.object).map first.after := by
  have hs' : setLoop cmds index.setList .rmapMatch object1=(ret,object2) := hs
  rw [applyLoop,if_neg (none_goal _),h,hty]
  simp only [hs']
  rw [if_neg (by decide),if_pos trivial,if_pos trivial,hcall]
  rfl

theorem nextrm_of_denied {reason : Reason} (h : Matrix cmds maps n (.call index ret) object rep)
    (hv : rep.verdict=.denied reason) : index.nextrm.isSome := by
  cases h with
  | callNone _ _ hn | callMissing _ _ hn hlook => cases hv
  | callLimit _ _ hn hlook | callMap _ hn hlook hw =>
    rw [hn]
    rfl

theorem reportOutcome_accepted (hv : rep.verdict=.accepted ret) :
    (reportOutcome rep recursion).recursion=recursion ∧ (reportOutcome rep recursion).ret=ret := by
  rw [reportOutcome,hv]
  exact ⟨rfl,rfl⟩

theorem reportOutcome_called (rep : Report C V σ) (recursion : ℤ) :
    reportOutcome rep.called recursion = { reportOutcome rep (recursion+1) with
        recursion := (reportOutcome rep (recursion+1)).recursion-1
        depth := (reportOutcome rep (recursion+1)).depth+1 } := by
  have hret : rep.verdict.called.ret=rep.verdict.ret := by
    cases rep.verdict with
    | accepted ret | denied reason => rfl
  have hcnt : (if rep.verdict.limited then recursion-11 else recursion) =
      (if rep.verdict.limited then recursion+1-11 else recursion+1)-1 := by
    split <;> ring
  rw [reportOutcome,reportOutcome,Report.called]
  rw [limited_called,hret,hcnt]

theorem after_start (first : Outcome C V σ) :
    first.after (.start first.ret first.object first.recursion)=first := by
  rw [Outcome.after,Outcome.start]
  rw [append_nil,append_nil,max_eq_left (Nat.zero_le _)]

/-- **The code follows the matrix**, with as many levels as its counter leaves. -/
theorem taskOutcome_of_matrix (hl : LawfulCmds cmds) {task : Task C V}
    (h : Matrix cmds maps n task object rep) : task.Fair → ∀ fuel, n+1≤fuel →
    taskOutcome cmds maps fuel (10-n) object task=some (reportOutcome rep (10-n)) := by
  induction h with
  | unmatched n object => exact fun _ fuel _ => rfl
  | noMatch hno _ ih =>
    intro _ fuel hfuel
    have hrs := ih trivial fuel hfuel
    rw [taskOutcome] at hrs
    rw [taskOutcome,applyLoop_noMatch _ hno,hrs]
    rfl
  | deny rest hm ht =>
    intro _ fuel hfuel
    rw [taskOutcome,applyLoop_deny rest hm ht]
    rfl
  | denied rest hm ht hs hc hv ih =>
    intro _ fuel hfuel
    have hcall := ih (Sets.ne hl hs) fuel hfuel
    rw [taskOutcome] at hcall
    rw [taskOutcome,applyLoop_permit rest hm ht hs hcall]
    refine if_pos ⟨nextrm_of_denied hc hv,?_⟩
    rw [reportOutcome,hv]
    rfl
  | exit rest hm ht hs hc hv hp ih =>
    intro _ fuel hfuel
    have hcall := ih (Sets.ne hl hs) fuel hfuel
    have hne := accepted_ne hl hc (Sets.ne hl hs) _ hv
    rw [taskOutcome] at hcall
    rw [taskOutcome,applyLoop_permit rest hm ht hs hcall,hp]
    exact if_neg fun h => hne ((reportOutcome_accepted hv).2.symm.trans h.2)
  | next hm ht hs hc hv hp hlater ihc ihl =>
    intro _ fuel hfuel
    have hcall := ihc (Sets.ne hl hs) fuel hfuel
    have hne := accepted_ne hl hc (Sets.ne hl hs) _ hv
    have hrs := ihl trivial fuel hfuel
    rw [taskOutcome] at hcall
    rw [taskOutcome] at hrs
    rw [taskOutcome,applyLoop_permit _ hm ht hs hcall,hp]
    rw [if_neg fun h => hne ((reportOutcome_accepted hv).2.symm.trans h.2),
      (reportOutcome_accepted hv).1]
    exact congrArg (Option.map _) hrs
  | gotoEnd hm ht hs hc hv hp hg ih =>
    intro _ fuel hfuel
    have hcall := ih (Sets.ne hl hs) fuel hfuel
    have hne := accepted_ne hl hc (Sets.ne hl hs) _ hv
    rw [gotoIndices] at hg
    rw [taskOutcome] at hcall
    rw [taskOutcome,applyLoop_permit _ hm ht hs hcall,hp]
    rw [if_neg fun h => hne ((reportOutcome_accepted hv).2.symm.trans h.2),applyLoop_goto,if_pos hg]
    exact congrArg some (after_start (Outcome.after _ (reportOutcome _ _)))
  | goto hm ht hs hc hv hp hg hlater ihc ihl =>
    intro _ fuel hfuel
    have hcall := ihc (Sets.ne hl hs) fuel hfuel
    have hne := accepted_ne hl hc (Sets.ne hl hs) _ hv
    have hrs := ihl trivial fuel hfuel
    rw [gotoIndices] at hg hrs
    rw [taskOutcome] at hcall
    rw [taskOutcome] at hrs
    rw [taskOutcome,applyLoop_permit _ hm ht hs hcall,hp]
    rw [if_neg fun h => hne ((reportOutcome_accepted hv).2.symm.trans h.2),applyLoop_goto,
      if_neg hg,(reportOutcome_accepted hv).1]
    exact congrArg (Option.map _) hrs
  | callNone ret object hn =>
    intro _ fuel _
    rw [taskOutcome,applyCall,hn]
    rfl
  | callMissing ret object hn hlook =>
    intro _ fuel _
    rw [taskOutcome,applyCall,hn]
    dsimp only
    rw [hlook]
    rfl
  | callLimit ret object hn hlook =>
    intro _ fuel hfuel
    obtain ⟨f,rfl⟩ : ∃ f, fuel=f+1 := ⟨fuel-1,by omega⟩
    rw [taskOutcome,applyCall,hn]
    dsimp only
    rw [hlook]
    rfl
  | @callMap n index name map object rep ret hn hlook hw ih =>
    intro _ fuel hfuel
    obtain ⟨f,rfl⟩ : ∃ f, fuel=f+1 := ⟨fuel-1,by omega⟩
    have hbody := ih trivial f (by omega)
    have hlev : (10 : ℤ)-(n+1 : ℕ)+1=10-n := by
      push_cast
      ring
    have hlimit : ¬(10 : ℤ)-n > rmapRecursionLimit := by
      rw [rmapRecursionLimit]
      omega
    rw [taskOutcome] at hbody
    rw [taskOutcome,applyCall,hn]
    dsimp only
    rw [hlook]
    dsimp only
    rw [hlev,routeMapApply,if_neg hlimit]
    rw [hbody,reportOutcome_called,hlev]
    rfl

end

section

/-- The route maps and the static counter. -/
structure System (C V : Type) where
  maps : List (RouteMap C V)
  recursion : ℤ

inductive Step (σ : Type) where
  | config (op : ConfigOp)
  | apply (name : String) (object : σ)

/-- Enough fuel for a value of the counter. -/
def fuelFor (recursion : ℤ) : ℕ := (11-recursion).toNat+1

def applyTop (cmds : RuleCmds C V σ) (s : System C V) (name : String) (object : σ) :
    Option (Outcome C V σ) :=
  routeMapApply cmds s.maps (fuelFor s.recursion) s.recursion (routeMapLookupByName s.maps name)
    object

def systemStep [DecidableEq C] (cmds : RuleCmds C V σ) (s : System C V) : Step σ→Option (System C V)
  | .config op => some {s with maps := configStep cmds s.maps op}
  | .apply name object =>
    (applyTop cmds s name object).map fun out => {s with recursion := out.recursion}

/-- Nothing is configured, and no route map has been applied. -/
def startSystem : System C V := ⟨[],0⟩

/-- By the matrix the evaluation reaches the recursion limit. -/
def ReachesLimit (cmds : RuleCmds C V σ) (maps : List (RouteMap C V)) (name : String)
    (object : σ) : Prop :=
  ∃ map rep, routeMapLookupByName maps name=some map ∧
    Matrix cmds maps 10 (.walk map.indices) object rep ∧ rep.verdict.limited=true

/-- An evaluation that reaches the limit starts with the counter at zero. -/
def StartsClean (cmds : RuleCmds C V σ) (s : System C V) : Step σ→Prop
  | .config _ => True
  | .apply name object => ReachesLimit cmds s.maps name object → s.recursion=0

/-- What a call from outside does. -/
structure CallGood (cmds : RuleCmds C V σ) (s : System C V) (name : String) (object : σ)
    (out : Outcome C V σ) : Prop where
  ends : ∀ fuel, fuelFor s.recursion≤fuel →
    routeMapApply cmds s.maps fuel s.recursion (routeMapLookupByName s.maps name) object=some out
  depth : (out.depth : ℤ)≤rmapRecursionLimit+1
  fresh : ∃ recursion, applyTop cmds ⟨s.maps,0⟩ name object=some {out with recursion := recursion}
  follows : ∀ map, routeMapLookupByName s.maps name=some map →
    ∃ rep, Matrix cmds s.maps 10 (.walk map.indices) object rep ∧ out.ret=rep.verdict.ret ∧
      out.object=rep.object ∧ out.sets=rep.sets ∧ out.examined=rep.examined ∧
      (out.ret=.rmapDenymatch ↔ ∃ reason, rep.verdict=.denied reason)
  missing : routeMapLookupByName s.maps name=none → out.ret=.rmapDenymatch

/-- The route maps are in order, and the counter is at most zero. -/
structure SystemOk (s : System C V) : Prop where
  sorted : ∀ map∈s.maps, Sorted map.indices
  typed : ∀ map∈s.maps, Typed map.indices
  recursion : s.recursion≤0

theorem routeMapApply_of_matrix (hl : LawfulCmds cmds)
    (h : Matrix cmds maps n (.walk map.indices) object rep) (hfuel : n+2≤fuel) :
    routeMapApply cmds maps fuel (10-n) (some map) object=some (reportOutcome rep (10-n)) := by
  obtain ⟨f,rfl⟩ : ∃ f, fuel=f+1 := ⟨fuel-1,by omega⟩
  have hwalk := taskOutcome_of_matrix hl h trivial f (by omega)
  have hlimit : ¬(10 : ℤ)-n > rmapRecursionLimit := by
    rw [rmapRecursionLimit]
    omega
  rw [taskOutcome] at hwalk
  rw [routeMapApply,if_neg hlimit]
  exact hwalk

theorem routeMapApply_none {recursion : ℤ} (hr : recursion≤0) (object : σ) (hfuel : 0<fuel) :
    routeMapApply cmds maps fuel recursion none object =
      some (.start .rmapDenymatch object recursion) := by
  obtain ⟨f,rfl⟩ : ∃ f, fuel=f+1 := ⟨fuel-1,by omega⟩
  have hlimit : ¬recursion > rmapRecursionLimit := by
    rw [rmapRecursionLimit]
    omega
  rw [routeMapApply,if_neg hlimit]

theorem reportOutcome_free (hfree : rep.verdict.limited=false) (r : ℤ) :
    reportOutcome rep r=⟨rep.verdict.ret,rep.object,r,rep.sets,rep.examined,rep.depth⟩ := by
  rw [reportOutcome,hfree]
  rfl

/-- A call from a good state that starts clean. -/
theorem call_good (hl : LawfulCmds cmds) {s : System C V} (hok : SystemOk s)
    (hclean : StartsClean cmds s (.apply name object)) :
    ∃ out, CallGood cmds s name object out ∧ out.recursion≤0 := by
  cases hlook : routeMapLookupByName s.maps name with
  | none =>
    refine ⟨.start .rmapDenymatch object s.recursion,⟨fun fuel hfuel => ?_,?_,⟨0,?_⟩,?_,?_⟩,
      hok.recursion⟩
    · rw [hlook]
      exact routeMapApply_none hok.recursion object ((Nat.succ_pos _).trans_le hfuel)
    · change ((0 : ℕ) : ℤ)≤10+1
      decide
    · rw [applyTop,hlook]
      exact routeMapApply_none le_rfl object (Nat.succ_pos _)
    · intro map hmap
      rw [hlook] at hmap
      cases hmap
    · exact fun _ => rfl
  | some map =>
    obtain ⟨rep,hrep⟩ := matrix_total hl hok.typed 10 map.indices (hok.typed map (lookup_mem hlook))
      object
    have hfst : applyTop cmds ⟨s.maps,0⟩ name object=some (reportOutcome rep 0) := by
      rw [applyTop,hlook]
      exact routeMapApply_of_matrix hl hrep (le_refl 12)
    have hends : (∀ fuel, fuelFor s.recursion≤fuel → routeMapApply cmds s.maps fuel s.recursion
          (some map) object=some (reportOutcome rep s.recursion)) ∧
        (reportOutcome rep s.recursion).recursion≤0 := by
      by_cases hlimited : rep.verdict.limited=true
      · have hz := hclean ⟨map,rep,hlook,hrep,hlimited⟩
        rw [hz]
        refine ⟨fun fuel hfuel => routeMapApply_of_matrix hl hrep hfuel,?_⟩
        rw [reportOutcome,if_pos hlimited]
        change (0 : ℤ)-11≤0
        decide
      have hfree := Bool.eq_false_iff.mpr hlimited
      have hr := hok.recursion
      have hmore := matrix_mono hrep hfree (10-s.recursion).toNat (by omega)
      have hcnt : (10 : ℤ)-((10-s.recursion).toNat : ℕ)=s.recursion := by omega
      refine ⟨fun fuel hfuel => ?_,?_⟩
      · have hfuel' : (10-s.recursion).toNat+2≤fuel := by
          rw [fuelFor] at hfuel
          omega
        have happly := routeMapApply_of_matrix hl hmore hfuel'
        rwa [hcnt] at happly
      rw [reportOutcome_free hfree]
      exact hr
    refine ⟨reportOutcome rep s.recursion,⟨fun fuel hfuel => ?_,?_,⟨_,hfst⟩,?_,?_⟩,hends.2⟩
    · rw [hlook]
      exact hends.1 fuel hfuel
    · have hdepth : rep.depth≤11 := depth_le hrep
      change (rep.depth : ℤ)≤rmapRecursionLimit+1
      rw [rmapRecursionLimit]
      omega
    · intro map' hmap'
      rw [hlook] at hmap'
      cases hmap'
      exact ⟨rep,hrep,rfl,rfl,rfl,rfl,ret_eq_deny_iff hl hrep⟩
    intro hnone
    rw [hlook] at hnone
    cases hnone

theorem mem_routeMapIndexGet {indices : List (RouteMapIndex C V)} {type : RouteMapType} {pref : ℤ}
    {x : RouteMapIndex C V} (h : x∈routeMapIndexGet indices type pref) :
    x∈indices ∨ x.type=type := by
  have hadd : ∀ old : List (RouteMapIndex C V), (∀ y∈old, y∈indices) →
      x∈routeMapIndexAdd (routeMapIndexNew type pref) old → x∈indices ∨ x.type=type := by
    intro old hold hx
    rcases (mem_routeMapIndexAdd _ x old).mp hx with rfl|hx
    · exact Or.inr rfl
    · exact Or.inl (hold x hx)
  rw [routeMapIndexGet] at h
  split at h
  · split at h
    · exact hadd _ (fun y hy => eraseP_subset hy) h
    · exact Or.inl h
  · exact hadd _ (fun y hy => hy) h

variable [DecidableEq C]

theorem indexCommand_type (cmds : RuleCmds C V σ) (index : RouteMapIndex C V) (c : IndexCommand) :
    (indexCommand cmds index c).type=index.type := by
  cases c with
  | addMatch name arg =>
    rw [indexCommand,routeMapAddMatch]
    cases routeMapAddRule cmds.lookupMatch cmds.funcCompile index.matchList name arg <;> rfl
  | addSet name arg =>
    rw [indexCommand,routeMapAddSet]
    cases routeMapAddRule cmds.lookupSet cmds.funcCompile index.setList name arg <;> rfl
  | rmapCall name | onmatchNext => rfl
  | onmatchGoto d =>
    rw [indexCommand]
    split <;> rfl

/-- Every command of the configuration keeps the types. -/
theorem configStep_typed (cmds : RuleCmds C V σ) (h : ∀ map∈maps, Typed map.indices) (op : ConfigOp) :
    ∀ map∈configStep cmds maps op, Typed map.indices := by
  intro map hmap
  cases op with
  | routeMap name permit pref =>
    obtain ⟨old,hold,rfl⟩ := mem_map.mp hmap
    have htyped : Typed old.indices := by
      rw [routeMapGet] at hold
      split at hold
      · exact h old hold
      rcases mem_append.mp hold with hold|hold
      · exact h old hold
      rw [mem_singleton.mp hold]
      exact fun index hindex => (not_mem_nil hindex).elim
    split
    · intro index hindex
      rcases mem_routeMapIndexGet hindex with hindex|hty
      · exact htyped index hindex
      rw [hty]
      cases permit <;> decide
    · exact htyped
  | command name pref c =>
    obtain ⟨old,hold,rfl⟩ := mem_map.mp hmap
    split
    · intro index hindex
      obtain ⟨x,hx,rfl⟩ := mem_map.mp hindex
      have hty := h old hold x hx
      split
      · rw [indexCommand_type]
        exact hty
      · exact hty
    · exact h old hold

theorem systemStep_ok (hl : LawfulCmds cmds) (s : System C V) (step : Step σ) (hok : SystemOk s)
    (hclean : StartsClean cmds s step) : ∃ s', systemStep cmds s step=some s' ∧ SystemOk s' := by
  cases step with
  | config op =>
    exact ⟨_,rfl,configStep_sorted cmds hok.sorted op,configStep_typed cmds hok.typed op,
      hok.recursion⟩
  | apply name object =>
    obtain ⟨out,hgood,hrecursion⟩ := call_good hl hok hclean
    refine ⟨{s with recursion := out.recursion},?_,hok.sorted,hok.typed,hrecursion⟩
    have hends := hgood.ends (fuelFor s.recursion) le_rfl
    rw [systemStep,applyTop,hends]
    rfl

/-- **Runs.** When evaluations that reach the limit start at zero, the indices stay in order, and
every call does what the first would, by the matrix. -/
theorem routeMapRuns_good (hl : LawfulCmds cmds) (steps : List (Step σ))
    (hclean : LegalRun (systemStep cmds) (StartsClean cmds) startSystem steps) :
    ∃ s, run (systemStep cmds) startSystem steps=some s ∧ (∀ map∈s.maps, Sorted map.indices) ∧
      ∀ name object, StartsClean cmds s (.apply name object) →
        ∃ out, CallGood cmds s name object out := by
  have hstart : SystemOk (startSystem : System C V) :=
    ⟨fun map hmap => (not_mem_nil hmap).elim,fun map hmap => (not_mem_nil hmap).elim, le_rfl⟩
  obtain ⟨s,hrun,hok⟩ := run_invariant (systemStep_ok hl) steps startSystem hstart hclean
  refine ⟨s,hrun,hok.sorted,fun name object h => ?_⟩
  obtain ⟨out,hgood,-⟩ := call_good hl hok h
  exact ⟨out,hgood⟩

/-- A daemon with one set command, which counts. -/
def countCmds : RuleCmds Unit Unit ℕ where
  lookupMatch := fun _ => none
  lookupSet := fun _ => some ()
  funcCompile := fun _ => none
  matchApply := fun _ _ object => (.rmapMatch,object)
  setApply := fun _ _ object => (.rmapOkay,object+1)

theorem countCmds_lawful : LawfulCmds countCmds where
  matchResult := fun _ _ _ => Or.inl rfl
  setResult := by
    intro c v object h
    cases h

/-- A route map that calls itself. -/
def loopSteps : List (Step ℕ) :=
  [.config (.routeMap "a" true 10),.config (.command "a" 10 (.addSet "metric" none)),
    .config (.command "a" 10 (.rmapCall "a"))]

theorem routeMapRuns_good_loop :
    ∃ s, run (systemStep countCmds) startSystem (loopSteps++[.apply "a" 0])=some s ∧
      (∀ map∈s.maps, Sorted map.indices) ∧
      ∀ name object, StartsClean countCmds s (.apply name object) →
        ∃ out, CallGood countCmds s name object out := by
  refine routeMapRuns_good countCmds_lawful _ ⟨trivial,fun s1 h1 => ⟨trivial,fun s2 h2 =>
    ⟨trivial,fun s3 h3 => ⟨fun _ => ?_,fun _ _ => trivial⟩⟩⟩⟩
  obtain rfl := Option.some.inj h1
  obtain rfl := Option.some.inj h2
  obtain rfl := Option.some.inj h3
  rfl

/-- The second evaluation nests twice as deep and sets twice as often. -/
theorem routeMapApply_again : ((run (systemStep countCmds) startSystem loopSteps).bind fun s =>
        (applyTop countCmds s "a" 0).map fun out => (out.depth,out.object))=some (11,11) ∧
      ((run (systemStep countCmds) startSystem (loopSteps++[.apply "a" 0])).bind fun s =>
        (applyTop countCmds s "a" 0).map fun out => (out.depth,out.object))=some (22,22) := by
  decide +kernel

end

end RoutePlatform.RouteMapRuns
