import RoutePlatform.RouteMapOperations

/-!
# The matrix of a route map

A match of a permit index executes its set statements, calls the route map it names and leaves by
its exit policy, a match of a deny index denies the route, and without a match the walk goes on.
The matrix is a relation that knows no counter; the code follows it from every value of its
counter, with as many levels as that leaves.
-/

namespace RoutePlatform.RouteMapMatrix

open RouteMapOperations Nat

variable {C V σ : Type}

inductive Reason where
  | denyIndex
  | unmatched
  | limit
  | calledMap (reason : Reason)

/-- Whether the recursion limit was reached. -/
def Reason.limited : Reason→Bool
  | .denyIndex => false
  | .unmatched => false
  | .limit => true
  | .calledMap reason => reason.limited

inductive Verdict where
  | accepted (ret : RouteMapResult)
  | denied (reason : Reason)

/-- The result of `route_map_apply` for a verdict. -/
def Verdict.ret : Verdict→RouteMapResult
  | .accepted ret => ret
  | .denied _ => .rmapDenymatch

/-- Whether the recursion limit was reached. -/
def Verdict.limited : Verdict→Bool
  | .accepted _ => false
  | .denied reason => reason.limited

/-- The verdict of a called route map for its caller. -/
def Verdict.called : Verdict→Verdict
  | .accepted ret => .accepted ret
  | .denied reason => .denied (.calledMap reason)

structure Report (C V σ : Type) where
  verdict : Verdict
  object : σ
  sets : List (RouteMapRule C V)
  examined : List (RouteMapIndex C V)
  depth : ℕ

def Report.start (verdict : Verdict) (object : σ) : Report C V σ := ⟨verdict,object,[],[],0⟩

def Report.after (first later : Report C V σ) : Report C V σ :=
  {later with
    sets := first.sets++later.sets
    examined := first.examined++later.examined
    depth := max first.depth later.depth}

/-- The report of a called route map for its caller. -/
def Report.called (rep : Report C V σ) : Report C V σ :=
  {rep with
    verdict := rep.verdict.called
    depth := rep.depth+1}

/-- An index is examined, and set functions are executed. -/
def Report.seen (index : RouteMapIndex C V) (sets : List (RouteMapRule C V)) (object : σ) :
    Report C V σ := ⟨.accepted .rmapMatch,object,sets,[index],0⟩

inductive Task (C V : Type) where
  | walk (indices : List (RouteMapIndex C V))
  /-- The call of an index whose set statements gave a result. -/
  | call (index : RouteMapIndex C V) (ret : RouteMapResult)

/-- Behind a goto the first later index whose preference is at least `nextpref`. -/
def gotoIndices (index : RouteMapIndex C V) (rest : List (RouteMapIndex C V)) :
    List (RouteMapIndex C V) := rest.dropWhile fun x => x.pref < index.nextpref

variable (cmds : RuleCmds C V σ) (maps : List (RouteMap C V))

/-- All match statements of an index match; some may have changed the object. -/
def Matches (index : RouteMapIndex C V) (object later : σ) : Prop :=
  routeMapApplyMatch cmds index.matchList object=(.rmapMatch,later)

/-- Some match statement does not match. -/
def NoMatch (index : RouteMapIndex C V) (object later : σ) : Prop :=
  routeMapApplyMatch cmds index.matchList object=(.rmapNomatch,later)

/-- The set statements of an index whose match statements match. -/
def Sets (index : RouteMapIndex C V) (object : σ) (ret : RouteMapResult) (later : σ) : Prop :=
  setLoop cmds index.setList .rmapMatch object=(ret,later)

/-- The matrix, with a number of levels for calls. -/
inductive Matrix : ℕ→Task C V→σ→Report C V σ→Prop
  | unmatched (n : ℕ) (object : σ) : Matrix n (.walk []) object (.start (.denied .unmatched) object)
  | noMatch {n : ℕ} {index rest object object' rep} :
    NoMatch cmds index object object' → Matrix n (.walk rest) object' rep →
    Matrix n (.walk (index::rest)) object ((Report.seen index [] object').after rep)
  | deny {n : ℕ} {index object object'} (rest : List (RouteMapIndex C V)) :
    Matches cmds index object object' → index.type=.rmapDeny →
    Matrix n (.walk (index::rest)) object
      ((Report.seen index [] object').after (.start (.denied .denyIndex) object'))
  | denied {n : ℕ} {index object object1 object2 ret rep reason} (rest : List (RouteMapIndex C V)) :
    Matches cmds index object object1 → index.type=.rmapPermit →
    Sets cmds index object1 ret object2 → Matrix n (.call index ret) object2 rep →
    rep.verdict=.denied reason →
    Matrix n (.walk (index::rest)) object ((Report.seen index index.setList object2).after rep)
  | exit {n : ℕ} {index object object1 object2 ret rep ret'} (rest : List (RouteMapIndex C V)) :
    Matches cmds index object object1 → index.type=.rmapPermit →
    Sets cmds index object1 ret object2 → Matrix n (.call index ret) object2 rep →
    rep.verdict=.accepted ret' → index.exitpolicy=.rmapExit →
    Matrix n (.walk (index::rest)) object ((Report.seen index index.setList object2).after rep)
  | next {n : ℕ} {index rest object object1 object2 ret rep ret' later} :
    Matches cmds index object object1 → index.type=.rmapPermit →
    Sets cmds index object1 ret object2 → Matrix n (.call index ret) object2 rep →
    rep.verdict=.accepted ret' → index.exitpolicy=.rmapNext →
    Matrix n (.walk rest) rep.object later →
    Matrix n (.walk (index::rest)) object
      (((Report.seen index index.setList object2).after rep).after later)
  /-- On match goto without such an index: the route map is left. -/
  | gotoEnd {n : ℕ} {index rest object object1 object2 ret rep ret'} :
    Matches cmds index object object1 → index.type=.rmapPermit →
    Sets cmds index object1 ret object2 → Matrix n (.call index ret) object2 rep →
    rep.verdict=.accepted ret' → index.exitpolicy=.rmapGoto →
    gotoIndices index rest=[] →
    Matrix n (.walk (index::rest)) object ((Report.seen index index.setList object2).after rep)
  /-- On match goto: the first later index whose preference is at least `nextpref`. -/
  | goto {n : ℕ} {index rest object object1 object2 ret rep ret' later} :
    Matches cmds index object object1 → index.type=.rmapPermit →
    Sets cmds index object1 ret object2 → Matrix n (.call index ret) object2 rep →
    rep.verdict=.accepted ret' → index.exitpolicy=.rmapGoto →
    gotoIndices index rest≠[] → Matrix n (.walk (gotoIndices index rest)) rep.object later →
    Matrix n (.walk (index::rest)) object
      (((Report.seen index index.setList object2).after rep).after later)
  | callNone {n : ℕ} {index : RouteMapIndex C V} (ret : RouteMapResult) (object : σ) :
    index.nextrm=none → Matrix n (.call index ret) object (.start (.accepted ret) object)
  | callMissing {n : ℕ} {index : RouteMapIndex C V} {name : String} (ret : RouteMapResult)
    (object : σ) :
    index.nextrm=some name → routeMapLookupByName maps name=none →
    Matrix n (.call index ret) object (.start (.accepted ret) object)
  | callLimit {index : RouteMapIndex C V} {name : String} {map : RouteMap C V}
    (ret : RouteMapResult) (object : σ) :
    index.nextrm=some name → routeMapLookupByName maps name=some map →
    Matrix 0 (.call index ret) object (Report.start (.denied .limit) object).called
  | callMap {n : ℕ} {index : RouteMapIndex C V} {name : String} {map : RouteMap C V} {object rep}
    (ret : RouteMapResult) :
    index.nextrm=some name → routeMapLookupByName maps name=some map →
    Matrix n (.walk map.indices) object rep →
    Matrix (n+1) (.call index ret) object rep.called

/-- What the functions of a daemon return. -/
structure LawfulCmds : Prop where
  matchResult : ∀ c v object,
    (cmds.matchApply c v object).1=.rmapMatch ∨ (cmds.matchApply c v object).1=.rmapNomatch
  setResult : ∀ c v object, (cmds.setApply c v object).1 ≠ .rmapDenymatch

variable {cmds maps}

section

variable {n : ℕ} {task : Task C V} {object : σ} {rep : Report C V σ}

theorem depth_le (h : Matrix cmds maps n task object rep) : rep.depth≤n+1 := by
  induction h with
  | unmatched n object => exact zero_le _
  | noMatch hno _ ih => exact max_le (zero_le _) ih
  | deny rest hm ht => exact zero_le _
  | denied rest hm ht hs hc hv ih | exit rest hm ht hs hc hv hp ih =>
    exact max_le (zero_le _) ih
  | next hm ht hs hc hv hp hl ihc ihl => exact max_le (max_le (zero_le _) ihc) ihl
  | gotoEnd hm ht hs hc hv hp hg ih => exact max_le (zero_le _) ih
  | goto hm ht hs hc hv hp hg hl ihc ihl => exact max_le (max_le (zero_le _) ihc) ihl
  | callNone ret object hn | callMissing ret object hn hl => exact zero_le _
  | callLimit ret object hn hl => exact le_refl _
  | callMap ret hn hl hw ih => exact succ_le_succ ih

theorem limited_called (verdict : Verdict) : verdict.called.limited=verdict.limited := by
  cases verdict with
  | accepted ret | denied reason => rfl

/-- An evaluation that does not reach the limit is the same with more levels. -/
theorem matrix_mono (h : Matrix cmds maps n task object rep) (hfree : rep.verdict.limited=false) :
    ∀ n', n≤n' → Matrix cmds maps n' task object rep := by
  induction h with
  | unmatched n object => exact fun n' _ => .unmatched n' object
  | noMatch hno _ ih => exact fun n' hn => .noMatch hno (ih hfree n' hn)
  | deny rest hm ht => exact fun n' _ => .deny rest hm ht
  | denied rest hm ht hs hc hv ih => exact fun n' hn => .denied rest hm ht hs (ih hfree n' hn) hv
  | exit rest hm ht hs hc hv hp ih => exact fun n' hn => .exit rest hm ht hs (ih hfree n' hn) hv hp
  | next hm ht hs hc hv hp hl ihc ihl =>
    have hcall := ihc (by rw [hv]; rfl)
    exact fun n' hn => .next hm ht hs (hcall n' hn) hv hp (ihl hfree n' hn)
  | gotoEnd hm ht hs hc hv hp hg ih => exact fun n' hn => .gotoEnd hm ht hs (ih hfree n' hn) hv hp hg
  | goto hm ht hs hc hv hp hg hl ihc ihl =>
    have hcall := ihc (by rw [hv]; rfl)
    exact fun n' hn => .goto hm ht hs (hcall n' hn) hv hp hg (ihl hfree n' hn)
  | callNone ret object hnone => exact fun n' _ => .callNone ret object hnone
  | callMissing ret object hname hl => exact fun n' _ => .callMissing ret object hname hl
  | callLimit ret object hname hl => cases hfree
  | callMap ret hname hl hw ih =>
    intro n' hn
    obtain ⟨m,rfl⟩ : ∃ m, n'=m+1 := ⟨n'-1,by omega⟩
    have hbody := hfree
    rw [Report.called,limited_called] at hbody
    exact .callMap ret hname hl (ih hbody m (le_of_succ_le_succ hn))

section

variable (hl : LawfulCmds cmds) (list : List (RouteMapRule C V))
include hl

theorem matchLoop_cases :
    ∀ (ret : RouteMapResult) (object : σ), (list=[] → ret=.rmapMatch) →
    (matchLoop cmds list ret object).1=.rmapMatch ∨
      (matchLoop cmds list ret object).1=.rmapNomatch := by
  induction list with
  | nil => exact fun ret object h => Or.inl (h rfl)
  | cons rule rest ih =>
    intro ret object _
    rw [matchLoop]
    split
    · rename_i hne
      exact Or.inr ((hl.matchResult rule.cmd rule.value object).resolve_left hne)
    rename_i heq
    exact ih _ _ fun _ => not_not.mp heq

theorem matches_or (index : RouteMapIndex C V) (object : σ) :
    (∃ object', Matches cmds index object object') ∨ ∃ object',
      NoMatch cmds index object object' := by
  have hcases : (routeMapApplyMatch cmds index.matchList object).1=.rmapMatch ∨
      (routeMapApplyMatch cmds index.matchList object).1=.rmapNomatch := by
    rw [routeMapApplyMatch]
    split
    · exact Or.inl rfl
    rename_i hne
    refine matchLoop_cases hl _ _ _ fun hnil => ?_
    rw [hnil] at hne
    exact (hne rfl).elim
  exact hcases.imp (fun h => ⟨_,Prod.ext h rfl⟩) (fun h => ⟨_,Prod.ext h rfl⟩)

theorem setLoop_ne :
    ∀ (ret : RouteMapResult) (object : σ), ret ≠ .rmapDenymatch →
    (setLoop cmds list ret object).1 ≠ .rmapDenymatch := by
  induction list with
  | nil => exact fun ret object h => h
  | cons rule rest ih => exact fun ret object _ => ih _ _ (hl.setResult rule.cmd rule.value object)

theorem Sets.ne {index : RouteMapIndex C V} {later : σ} {ret : RouteMapResult}
    (h : Sets cmds index object ret later) : ret ≠ .rmapDenymatch := by
  have hne := setLoop_ne hl index.setList .rmapMatch object (by decide)
  rwa [h] at hne

end

/-- The result a task begins with is no denial. -/
def Task.Fair : Task C V→Prop
  | .walk _ => True
  | .call _ ret => ret ≠ .rmapDenymatch

/-- A route that is accepted does not get the result of a denial. -/
theorem accepted_ne (hl : LawfulCmds cmds) (h : Matrix cmds maps n task object rep) :
    task.Fair → ∀ ret, rep.verdict=.accepted ret → ret ≠ .rmapDenymatch := by
  induction h with
  | unmatched n object => exact fun _ ret h => by cases h
  | noMatch hno _ ih => exact fun _ => ih trivial
  | deny rest hm ht => exact fun _ ret h => by cases h
  | denied rest hm ht hs hc hv ih | exit rest hm ht hs hc hv hp ih =>
    exact fun _ => ih (Sets.ne hl hs)
  | next hm ht hs hc hv hp hlater ihc ihl => exact fun _ => ihl trivial
  | gotoEnd hm ht hs hc hv hp hg ih => exact fun _ => ih (Sets.ne hl hs)
  | goto hm ht hs hc hv hp hg hlater ihc ihl => exact fun _ => ihl trivial
  | callNone ret object hn | callMissing ret object hn hlook =>
    intro hfair ret' h
    cases h
    exact hfair
  | callLimit ret object hn hlook => exact fun _ ret h => by cases h
  | @callMap n index name map object rep ret hn hlook hw ih =>
    intro _ ret' h
    refine ih trivial ret' ?_
    rw [Report.called] at h
    cases hv : rep.verdict with
    | accepted ret'' =>
      rw [hv] at h
      exact h
    | denied reason =>
      rw [hv] at h
      cases h

theorem ret_eq_deny_iff (hl : LawfulCmds cmds) {indices : List (RouteMapIndex C V)}
    (h : Matrix cmds maps n (.walk indices) object rep) :
    rep.verdict.ret=.rmapDenymatch ↔ ∃ reason, rep.verdict=.denied reason := by
  have hne := accepted_ne hl h trivial
  cases hv : rep.verdict with
  | accepted ret =>
    constructor
    · exact fun hret => (hne ret hv hret).elim
    · rintro ⟨reason,hreason⟩
      cases hreason
  | denied reason => exact ⟨fun _ => ⟨reason,rfl⟩,fun _ => rfl⟩

end

end RoutePlatform.RouteMapMatrix
