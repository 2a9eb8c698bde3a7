import RoutePlatform.OperationRuns

/-!
# Route maps of `lib/routemap.c`

A route map is a list of indices in the order of their preferences. An index has match rules, set
rules, and may call another route map; its exit policy says where the walk goes on after a match.
The links, the hooks and the log are left out. The rule commands are those of the daemon, with all
that they look at as their object.
-/

namespace RoutePlatform.RouteMapOperations

open List

variable {pref : ℤ}

/-- `route_map_result_t`. -/
inductive RouteMapResult where
  | rmapMatch | rmapDenymatch | rmapNomatch | rmapError | rmapOkay
deriving DecidableEq, Repr

inductive RouteMapType where
  | rmapPermit | rmapDeny | rmapAny
deriving DecidableEq, Repr

/-- `route_map_end_t`. -/
inductive RouteMapEnd where
  | rmapExit | rmapGoto | rmapNext
deriving DecidableEq, Repr

def rmapRecursionLimit : ℤ := 10

/-- The installed rule commands of a daemon, `struct route_map_rule_cmd`. -/
structure RuleCmds (C V σ : Type) where
  lookupMatch : String→Option C
  lookupSet : String→Option C
  /-- `func_compile`, which a command may lack. -/
  funcCompile : C→Option (Option String→Option V)
  /-- `func_apply` of a match command. -/
  matchApply : C→Option V→σ→RouteMapResult × σ
  /-- `func_apply` of a set command. -/
  setApply : C→Option V→σ→RouteMapResult × σ

structure RouteMapRule (C V : Type) where
  cmd : C
  ruleStr : Option String
  value : Option V
deriving DecidableEq

structure RouteMapIndex (C V : Type) where
  pref : ℤ
  type : RouteMapType
  exitpolicy : RouteMapEnd
  nextpref : ℤ
  nextrm : Option String
  matchList : List (RouteMapRule C V)
  setList : List (RouteMapRule C V)
deriving DecidableEq

structure RouteMap (C V : Type) where
  name : String
  /-- The indices from `head` on. -/
  indices : List (RouteMapIndex C V)

variable {C V σ : Type}

def routeMapLookupByName (maps : List (RouteMap C V)) (name : String) : Option (RouteMap C V) :=
  maps.find? fun map => map.name=name

def routeMapGet (maps : List (RouteMap C V)) (name : String) : List (RouteMap C V) :=
  if (routeMapLookupByName maps name).isSome then maps else maps++[⟨name,[]⟩]

/-- `route_map_index_new`, with what `route_map_index_add` stores. -/
def routeMapIndexNew (type : RouteMapType) (pref : ℤ) : RouteMapIndex C V :=
  ⟨pref,type,.rmapExit,0,none,[],[]⟩

def routeMapIndexLookup (indices : List (RouteMapIndex C V)) (type : RouteMapType) (pref : ℤ) :
    Option (RouteMapIndex C V) :=
  indices.find? fun index => (index.type=type ∨ type=.rmapAny) ∧ index.pref=pref

/-- `route_map_index_delete` of the first index with a preference. -/
def routeMapIndexDelete (indices : List (RouteMapIndex C V)) (pref : ℤ) :
    List (RouteMapIndex C V) := indices.eraseP fun index => index.pref=pref

/-- `route_map_index_add`: before the first index whose preference is not smaller. -/
def routeMapIndexAdd (index : RouteMapIndex C V) : List (RouteMapIndex C V)→List (RouteMapIndex C V)
  | [] => [index]
  | point::rest =>
    if point.pref ≥ index.pref then index::point::rest
    else point::routeMapIndexAdd index rest

def routeMapIndexGet (indices : List (RouteMapIndex C V)) (type : RouteMapType) (pref : ℤ) :
    List (RouteMapIndex C V) :=
  match routeMapIndexLookup indices .rmapAny pref with
  | some index =>
    if index.type≠type then
      routeMapIndexAdd (routeMapIndexNew type pref) (routeMapIndexDelete indices pref)
    else indices
  | none => routeMapIndexAdd (routeMapIndexNew type pref) indices

/-- The errors of `route_map_add_match` and `route_map_add_set`. -/
inductive RuleError where
  | rmapRuleMissing | rmapCompileError
deriving DecidableEq, Repr

/-- `route_map_add_match` and `route_map_add_set` replace the old rules. -/
def routeMapAddRule [DecidableEq C] (lookup : String→Option C)
    (funcCompile : C→Option (Option String→Option V)) (list : List (RouteMapRule C V))
    (name : String) (arg : Option String) : Except RuleError (List (RouteMapRule C V)) :=
  match lookup name with
  | none => .error .rmapRuleMissing
  | some cmd =>
    match funcCompile cmd with
    | some compile =>
      match compile arg with
      | none => .error .rmapCompileError
      | some value => .ok (list.filter (fun rule => rule.cmd≠cmd)++[⟨cmd,arg,some value⟩])
    | none => .ok (list.filter (fun rule => rule.cmd≠cmd)++[⟨cmd,arg,none⟩])

def routeMapAddMatch [DecidableEq C] (cmds : RuleCmds C V σ) (index : RouteMapIndex C V)
    (matchName : String) (matchArg : Option String) : Except RuleError (RouteMapIndex C V) :=
  (routeMapAddRule cmds.lookupMatch cmds.funcCompile index.matchList matchName matchArg).map
    fun list => {index with matchList := list}

def routeMapAddSet [DecidableEq C] (cmds : RuleCmds C V σ) (index : RouteMapIndex C V)
    (setName : String) (setArg : Option String) : Except RuleError (RouteMapIndex C V) :=
  (routeMapAddRule cmds.lookupSet cmds.funcCompile index.setList setName setArg).map
    fun list => {index with setList := list}

/-- The commands inside `route-map WORD (deny|permit) <1-65535>`. -/
inductive IndexCommand where
  | addMatch (name : String) (arg : Option String)
  | addSet (name : String) (arg : Option String)
  | rmapCall (name : String)
  | onmatchNext
  | onmatchGoto (d : ℤ)

/-- The handlers of the commands; a refused command changes nothing. -/
def indexCommand [DecidableEq C] (cmds : RuleCmds C V σ) (index : RouteMapIndex C V) :
    IndexCommand→RouteMapIndex C V
  | .addMatch name arg => ((routeMapAddMatch cmds index name arg).toOption).getD index
  | .addSet name arg => ((routeMapAddSet cmds index name arg).toOption).getD index
  | .rmapCall name => {index with nextrm := some name}
  | .onmatchNext => {index with exitpolicy := .rmapNext}
  | .onmatchGoto d =>
    if d ≤ index.pref then index else {index with exitpolicy := .rmapGoto,nextpref := d}

def modifyMap (maps : List (RouteMap C V)) (name : String)
    (f : List (RouteMapIndex C V)→List (RouteMapIndex C V)) : List (RouteMap C V) :=
  maps.map fun map => if map.name=name then {map with indices := f map.indices} else map

inductive ConfigOp where
  /-- `route-map WORD (deny|permit) <1-65535>`. -/
  | routeMap (name : String) (permit : Bool) (pref : ℤ)
  | command (name : String) (pref : ℤ) (c : IndexCommand)

def configStep [DecidableEq C] (cmds : RuleCmds C V σ) (maps : List (RouteMap C V)) :
    ConfigOp→List (RouteMap C V)
  | .routeMap name permit pref =>
    modifyMap (routeMapGet maps name) name fun indices =>
      routeMapIndexGet indices (if permit then .rmapPermit else .rmapDeny) pref
  | .command name pref c =>
    modifyMap maps name fun indices =>
      indices.map fun index => if index.pref=pref then indexCommand cmds index c else index

/-- The loop of `route_map_apply_match`. -/
def matchLoop (cmds : RuleCmds C V σ) : List (RouteMapRule C V)→RouteMapResult→σ→RouteMapResult × σ
  | [], ret, object => (ret,object)
  | rule::rest, _, object =>
    let r := cmds.matchApply rule.cmd rule.value object
    if r.1 ≠ .rmapMatch then r else matchLoop cmds rest r.1 r.2

def routeMapApplyMatch (cmds : RuleCmds C V σ) (list : List (RouteMapRule C V)) (object : σ) :
    RouteMapResult × σ :=
  if list.isEmpty then (.rmapMatch,object) else matchLoop cmds list .rmapNomatch object

/-- The loop over the set rules in `route_map_apply`. -/
def setLoop (cmds : RuleCmds C V σ) : List (RouteMapRule C V)→RouteMapResult→σ→RouteMapResult × σ
  | [], ret, object => (ret,object)
  | rule::rest, _, object =>
    let r := cmds.setApply rule.cmd rule.value object
    setLoop cmds rest r.1 r.2

/-- What a call of `route_map_apply` leaves, and what it did. -/
structure Outcome (C V σ : Type) where
  ret : RouteMapResult
  object : σ
  /-- The static counter afterwards. -/
  recursion : ℤ
  /-- The set rules that were run, in order. -/
  sets : List (RouteMapRule C V)
  /-- The indices that were examined, in order, those of called route maps included. -/
  examined : List (RouteMapIndex C V)
  /-- How deep the calls were nested. -/
  depth : ℕ

def Outcome.start (ret : RouteMapResult) (object : σ) (recursion : ℤ) : Outcome C V σ :=
  ⟨ret,object,recursion,[],[],0⟩

def Outcome.after (first later : Outcome C V σ) : Outcome C V σ :=
  {later with
    sets := first.sets++later.sets
    examined := first.examined++later.examined
    depth := max first.depth later.depth}

/-- The part of `route_map_apply` that calls another route map. -/
def applyCall (maps : List (RouteMap C V))
    (apply : ℤ→Option (RouteMap C V)→σ→Option (Outcome C V σ))
    (index : RouteMapIndex C V) (recursion : ℤ) (ret : RouteMapResult) (object : σ) :
    Option (Outcome C V σ) :=
  match index.nextrm with
  | none => some (.start ret object recursion)
  | some name =>
    match routeMapLookupByName maps name with
    | none => some (.start ret object recursion)
    | some nextrm =>
      (apply (recursion+1) (some nextrm) object).map fun out =>
        {out with recursion := out.recursion-1,depth := out.depth+1}

/-- The loop of `route_map_apply`; `goal` is the index to go to and the result. -/
def applyLoop (cmds : RuleCmds C V σ) (maps : List (RouteMap C V))
    (apply : ℤ→Option (RouteMap C V)→σ→Option (Outcome C V σ)) :
    Option (ℤ × RouteMapResult)→List (RouteMapIndex C V)→ℤ→σ→Option (Outcome C V σ)
  | none, [], recursion, object => some (.start .rmapDenymatch object recursion)
  | some goal, [], recursion, object => some (.start goal.2 object recursion)
  | goal, index::rest, recursion, object =>
    if goal.any fun g => index.pref<g.1 then applyLoop cmds maps apply goal rest recursion object
    else
      let m := routeMapApplyMatch cmds index.matchList object
      let seen (ret : RouteMapResult) (object : σ) (sets : List (RouteMapRule C V)) :
          Outcome C V σ := ⟨ret,object,recursion,sets,[index],0⟩
      if m.1=.rmapNomatch then
        (applyLoop cmds maps apply none rest recursion m.2).map (seen m.1 m.2 []).after
      else if m.1=.rmapMatch then
        if index.type=.rmapPermit then do
          let r := setLoop cmds index.setList m.1 m.2
          let called ← applyCall maps apply index recursion r.1 r.2
          let first := (seen r.1 r.2 index.setList).after called
          if index.nextrm.isSome ∧ first.ret=.rmapDenymatch then some first
          else
            match index.exitpolicy with
            | .rmapExit => some first
            | .rmapNext =>
              (applyLoop cmds maps apply none rest first.recursion first.object).map first.after
            | .rmapGoto =>
              (applyLoop cmds maps apply (some (index.nextpref,first.ret)) rest first.recursion
                first.object).map first.after
        else if index.type=.rmapDeny then some (seen .rmapDenymatch m.2 [])
        else (applyLoop cmds maps apply none rest recursion m.2).map (seen m.1 m.2 []).after
      else (applyLoop cmds maps apply none rest recursion m.2).map (seen m.1 m.2 []).after

/-- `route_map_apply`, with the static counter as an argument. -/
def routeMapApply (cmds : RuleCmds C V σ) (maps : List (RouteMap C V)) :
    ℕ→ℤ→Option (RouteMap C V)→σ→Option (Outcome C V σ)
  | 0, _, _, _ => none
  | fuel+1, recursion, map, object =>
    if recursion > rmapRecursionLimit then some (.start .rmapDenymatch object 0)
    else
      match map with
      | none => some (.start .rmapDenymatch object recursion)
      | some map => applyLoop cmds maps (routeMapApply cmds maps fuel) none map.indices recursion object

variable {indices : List (RouteMapIndex C V)} {maps : List (RouteMap C V)} (cmds : RuleCmds C V σ)
  (index : RouteMapIndex C V)

section

def Sorted (indices : List (RouteMapIndex C V)) : Prop := indices.Pairwise fun x y => x.pref<y.pref

theorem mem_routeMapIndexAdd (x : RouteMapIndex C V) (indices : List (RouteMapIndex C V)) :
    x∈routeMapIndexAdd index indices ↔ x=index ∨ x∈indices := by
  induction indices with
  | nil => exact mem_cons
  | cons point rest ih =>
    rw [routeMapIndexAdd]
    split
    · exact mem_cons
    rw [mem_cons,ih,mem_cons]
    exact or_left_comm

theorem routeMapIndexAdd_sorted {index : RouteMapIndex C V} (h : Sorted indices)
    (hnew : ∀ x∈indices, x.pref≠index.pref) : Sorted (routeMapIndexAdd index indices) := by
  induction indices with
  | nil => exact pairwise_singleton _ _
  | cons point rest ih =>
    obtain ⟨hfst,hrs⟩ := pairwise_cons.mp h
    rw [routeMapIndexAdd]
    split
    · rename_i hge
      have hlt : index.pref<point.pref := lt_of_le_of_ne hge (hnew point mem_cons_self).symm
      refine pairwise_cons.mpr ⟨fun x hx => ?_,h⟩
      rcases mem_cons.mp hx with rfl|hx
      · exact hlt
      · exact hlt.trans (hfst x hx)
    rename_i hlt
    refine pairwise_cons.mpr ⟨fun x hx => ?_,ih hrs fun x hx => hnew x (.tail _ hx)⟩
    rcases (mem_routeMapIndexAdd index x rest).mp hx with rfl|hx
    · exact not_le.mp hlt
    · exact hfst x hx

section

variable {indices : List (RouteMapIndex C V)}

theorem routeMapIndexDelete_ne (h : Sorted indices) :
    ∀ x∈routeMapIndexDelete indices pref, x.pref≠pref := by
  induction indices with
  | nil =>
    intro x hx
    cases hx
  | cons point rest ih =>
    obtain ⟨hfst,hrs⟩ := pairwise_cons.mp h
    intro x hx
    by_cases hp : point.pref=pref
    · have hdel : routeMapIndexDelete (point::rest) pref=rest :=
        eraseP_cons_of_pos (decide_eq_true hp)
      rw [hdel] at hx
      have hlt := hfst x hx
      omega
    have hdel : routeMapIndexDelete (point::rest) pref=point::routeMapIndexDelete rest pref :=
      eraseP_cons_of_neg (by rw [decide_eq_false hp]; decide)
    rw [hdel] at hx
    rcases mem_cons.mp hx with rfl|hx
    · exact hp
    · exact ih hrs x hx

theorem routeMapIndexLookup_none (h : routeMapIndexLookup indices .rmapAny pref=none) :
    ∀ x∈indices, x.pref≠pref := by
  intro x hx hp
  have hnot := find?_eq_none.mp h x hx
  exact hnot (decide_eq_true ⟨Or.inr rfl,hp⟩)

theorem routeMapIndexGet_sorted (h : Sorted indices)
    (type : RouteMapType) (pref : ℤ) : Sorted (routeMapIndexGet indices type pref) := by
  rw [routeMapIndexGet]
  split
  · split
    · exact routeMapIndexAdd_sorted (h.sublist eraseP_sublist) (routeMapIndexDelete_ne h)
    · exact h
  rename_i hnone
  exact routeMapIndexAdd_sorted h (routeMapIndexLookup_none hnone)

end

theorem toOption_map_getD {ε α β : Type} (x : Except ε α) (f : α→β) (g : β→ℤ) {b : β}
    (hf : ∀ a, g (f a)=g b) : g ((x.map f).toOption.getD b)=g b := by
  cases x with
  | error e => rfl
  | ok a => exact hf a

theorem map_sorted (h : Sorted indices) {f : RouteMapIndex C V → RouteMapIndex C V}
    (hf : ∀ x, (f x).pref=x.pref) : Sorted (indices.map f) := by
  refine pairwise_map.mpr (h.imp fun {x y} hlt => ?_)
  rw [hf,hf]
  exact hlt

theorem modifyMap_sorted (h : ∀ map∈maps, Sorted map.indices) (name : String)
    {f : List (RouteMapIndex C V)→List (RouteMapIndex C V)}
    (hf : ∀ indices, Sorted indices → Sorted (f indices)) :
    ∀ map∈modifyMap maps name f, Sorted map.indices := by
  intro map hmap
  obtain ⟨old,hold,rfl⟩ := mem_map.mp hmap
  split
  · exact hf _ (h old hold)
  · exact h old hold

variable [DecidableEq C]

theorem indexCommand_pref (c : IndexCommand) : (indexCommand cmds index c).pref=index.pref := by
  cases c with
  | addMatch name arg | addSet name arg =>
    exact toOption_map_getD _ _ RouteMapIndex.pref fun _ => rfl
  | rmapCall name | onmatchNext => rfl
  | onmatchGoto d =>
    rw [indexCommand]
    split <;> rfl

/-- Every command of the configuration keeps the order. -/
theorem configStep_sorted (h : ∀ map∈maps, Sorted map.indices) (op : ConfigOp) :
    ∀ map∈configStep cmds maps op, Sorted map.indices := by
  cases op with
  | routeMap name permit pref =>
    refine modifyMap_sorted ?_ name fun indices hs => routeMapIndexGet_sorted hs _ pref
    intro map hmap
    rw [routeMapGet] at hmap
    split at hmap
    · exact h map hmap
    rcases mem_append.mp hmap with hmap|hmap
    · exact h map hmap
    rw [mem_singleton.mp hmap]
    exact List.Pairwise.nil
  | command name pref c =>
    refine modifyMap_sorted h name fun indices hs => map_sorted hs fun x => ?_
    split
    · exact indexCommand_pref cmds x c
    · rfl

end

end RoutePlatform.RouteMapOperations
