import RoutePlatform.BabelRuns

/-!
# Babel: loop avoidance at one router

Only feasible routes are made installed, recorded distances never get worse, and the
choice of the best feasible route is right where the head of the slot may itself be
chosen or loses to a route that may.
-/

namespace RoutePlatform.BabelRoutes

open List

variable {w w' : World} {held : ℕ→ℕ} {p q i : ℕ} {E : Env}

/-- No candidate is better, and the answer is the first route or one of smaller metric. -/
theorem bestLoop_spec (w : World) (feasible : Bool) (exclude : Option ℕ) (l : List ℕ) :
    ∀ best, let r := bestLoop w feasible exclude best l
      routeMetric (w.route r)≤routeMetric (w.route best) ∧
      (∀ q∈l, candidate w feasible exclude q=true →
        routeMetric (w.route r)≤routeMetric (w.route q)) ∧
      (r=best ∨ r∈l ∧ candidate w feasible exclude r=true ∧
        routeMetric (w.route r)<routeMetric (w.route best)) := by
  induction l with
  | nil => exact fun best => ⟨le_rfl,nofun,.inl rfl⟩
  | cons a rest ih =>
    intro best
    rw [bestLoop]
    split
    · rename_i h
      rw [Bool.and_eq_true,decide_eq_true_iff] at h
      obtain ⟨hle,hmin,hcase⟩ := ih a
      refine ⟨hle.trans h.2.le,fun q hq hc => ?_,.inr ?_⟩
      · rcases mem_cons.mp hq with rfl|hq
        · exact hle
        · exact hmin q hq hc
      rcases hcase with heq|⟨hmem,hc,hlt⟩
      · rw [heq]
        exact ⟨.head _,h.1,h.2⟩
      · exact ⟨.tail _ hmem,hc,hlt.trans h.2⟩
    · rename_i h
      rw [Bool.and_eq_true,decide_eq_true_iff] at h
      obtain ⟨hle,hmin,hcase⟩ := ih best
      refine ⟨hle,fun q hq hc => ?_,hcase.imp id fun hlate => ⟨.tail _ hlate.1,hlate.2⟩⟩
      rcases mem_cons.mp hq with rfl|hq
      · exact hle.trans (not_lt.mp fun hlt => h ⟨hc,hlt⟩)
      · exact hmin q hq hc

/-- `find_best_route` answers an unexpired route of least metric not through the excluded neighbour,
if any. -/
def BestRight (w : World) (pfx : BitVec 128) (plen : ℕ) (exclude : Option ℕ) : Prop :=
  match findBestRoute w pfx plen true exclude with
  | none => ∀ i, ∀ q∈w.slot i, w.key q=target pfx plen → candidate w true exclude q=false
  | some p => ((∃ i, p∈w.slot i) ∧ w.key p=target pfx plen) ∧ candidate w true exclude p=true ∧
      ∀ i, ∀ q∈w.slot i, w.key q=target pfx plen → candidate w true exclude q=true →
        routeMetric (w.route p)≤routeMetric (w.route q)

/-- The head of the slot of a prefix may be chosen, or loses to a route that may. -/
def HeadServes (w : World) (pfx : BitVec 128) (plen : ℕ) (exclude : Option ℕ) : Prop :=
  ∀ i, findRouteSlot w pfx plen=.found i → candidate w true exclude ((w.slot i).headD 0)=true ∨
    ∃ q∈w.slot i, candidate w true exclude q=true ∧
      routeMetric (w.route q)<routeMetric (w.route ((w.slot i).headD 0))

theorem bestRight_iff (ht : Table held w) (pfx : BitVec 128) (plen : ℕ) (exclude : Option ℕ) :
    BestRight w pfx plen exclude ↔ HeadServes w pfx plen exclude := by
  rw [BestRight,HeadServes,findBestRoute]
  cases hf : findRouteSlot w pfx plen with
  | absent n =>
    refine ⟨fun _ i h => absurd h (by simp),fun _ i q hq hkey => ?_⟩
    have hfnd := findRouteSlot_of_mem ht.toShape hq hkey
    rw [hf] at hfnd
    cases hfnd
  | found i =>
    obtain ⟨hi,hkey⟩ := findRouteSlot_found ht.toShape hf
    have hcons := cons_headD_tail (ht.nonempty i hi)
    obtain ⟨hle,hmin,hcase⟩ := bestLoop_spec w true exclude (w.slot i).tail ((w.slot i).headD 0)
    dsimp only
    generalize bestLoop w true exclude ((w.slot i).headD 0) (w.slot i).tail=r at hle hmin hcase ⊢
    have hslot : ∀ j, ∀ q∈w.slot j, w.key q=target pfx plen → q∈w.slot i := by
      intro j q hq hq'
      have hfnd := findRouteSlot_of_mem ht.toShape hq hq'
      rw [hf] at hfnd
      cases hfnd
      exact hq
    constructor
    · rintro ⟨-,hc,-⟩ j hj
      cases hj
      rcases hcase with heq|⟨hmem,-,hlt⟩
      · exact .inl (heq ▸ hc)
      · exact .inr ⟨r,mem_of_mem_tail hmem,hc,hlt⟩
    · intro h
      have hc : candidate w true exclude r=true ∧ r∈w.slot i := by
        rcases hcase with heq|⟨hmem,hc,-⟩
        · rcases h i rfl with hhead|⟨q,hq,hcq,hlt⟩
          · exact ⟨heq ▸ hhead,heq ▸ headD_mem ht.toShape hi⟩
          rw [←hcons] at hq
          rcases mem_cons.mp hq with rfl|hq
          · exact absurd hlt (lt_irrefl _)
          have hle' := hmin q hq hcq
          rw [heq] at hle'
          exact absurd hlt (not_lt.mpr hle')
        · exact ⟨hc,mem_of_mem_tail hmem⟩
      refine ⟨⟨⟨i,hc.2⟩,hkey r hc.2⟩,hc.1,fun j q hq hq' hcq => ?_⟩
      have hqi := hslot j q hq hq'
      rw [←hcons] at hqi
      rcases mem_cons.mp hqi with rfl|hqi
      · exact hle
      · exact hmin q hqi hcq

/-- No source is stale after an action. -/
def StaysFresh (E : Env) (w : World) (a : Action) : Prop := Fresh (step E w a)

theorem run_sound (actions : List (Env × Action)) :
    ∀ {w : World} {held : ℕ → ℕ}, Table held w → Fresh w → (∀ e∈w.log, e.Sound) →
      Along (fun _ => Legal) w actions → Along StaysFresh w actions →
      (∃ held', Table held' (run w actions)) ∧ ∀ e∈(run w actions).log, e.Sound := by
  induction actions with
  | nil => exact fun ht _ hlog _ _ => ⟨⟨_,ht⟩,hlog⟩
  | cons a rest ih =>
    intro w held ht hf hlog hleg hfresh
    obtain ⟨held1,ht1,-⟩ := step_table (E := a.1) ht hleg.1
    refine ih ht1 hfresh.1 ?_ hleg.2 hfresh.2
    by_cases htick : ∃ t, a.2=.tick t
    · obtain ⟨t,htick⟩ := htick
      change ∀ e∈(step a.1 w a.2).log, e.Sound
      rw [htick]
      exact hlog
    obtain ⟨held',hs,-⟩ := step_survives (E := a.1) ht hleg.1 fun t h => htick ⟨t,h⟩
    obtain ⟨-,es,hes,hsound⟩ := hs.logged hf
    rw [hes]
    exact fun e he => (mem_append.mp he).elim (hlog e) (hsound e)

/-- Every route that was made the installed one was feasible then. -/
def InstallsFeasible (w : World) : Prop := ∀ p seqno refmetric recordedSeqno recordedMetric,
    .made p seqno refmetric recordedSeqno recordedMetric∈w.log →
      FeasibleFor seqno refmetric recordedSeqno recordedMetric

/-- An update that is not feasible for a new source uninstalls its route. -/
def DropsUnfeasible (w : World) : Prop :=
  ∀ E m u p src w1, m.Fresh w → u.routerId≠E.myid → martianPrefix u.pfx u.plen=false →
    E.inputFilter u.routerId u.pfx u.plen u.neigh < infinity →
    findRoute w u.pfx u.plen u.neigh u.nexthop=some p → (w.route p).installed=true →
    (w.sourceOf p).id≠u.routerId →
    findSource m.source u.routerId u.pfx u.plen u.seqno w=(w1,some src) →
    updateFeasible w1 src u.seqno u.refmetric=false →
    ((updateRoute E m u w).route p).installed=false

/-- No recorded pair ever got worse. -/
def NeverWorse (w : World) : Prop :=
  ∀ src sentSeqno sentMetric oldSeqno oldMetric newSeqno newMetric,
    .recorded src sentSeqno sentMetric oldSeqno oldMetric newSeqno newMetric∈w.log →
      NotWorse oldSeqno oldMetric newSeqno newMetric

/-- After every update the recorded pair was as good as the pair sent. -/
def RecordsSent (w : World) : Prop :=
  ∀ src sentSeqno sentMetric oldSeqno oldMetric newSeqno newMetric,
    .recorded src sentSeqno sentMetric oldSeqno oldMetric newSeqno newMetric∈w.log →
      AtLeastAsGood newSeqno newMetric sentSeqno sentMetric

/-- After every update, but for a newer retraction, the recorded pair was as good as the one sent.
-/
def RecordsAdvertised (w : World) : Prop :=
  ∀ src sentSeqno sentMetric oldSeqno oldMetric newSeqno newMetric,
    .recorded src sentSeqno sentMetric oldSeqno oldMetric newSeqno newMetric∈w.log →
      sentMetric.toNat < infinity ∨ 0 ≤ seqnoCompare oldSeqno sentSeqno →
        AtLeastAsGood newSeqno newMetric sentSeqno sentMetric

/-- Loop avoidance: a retraction records nothing, and the best feasible route is found where the
head serves. -/
structure AvoidsLoops (w : World) : Prop where
  installs : InstallsFeasible w
  /-- An unfeasible update from a new source uninstalls the route. -/
  drops : DropsUnfeasible w
  never : NeverWorse w
  records : RecordsAdvertised w
  best : ∀ pfx plen exclude, HeadServes w pfx plen exclude → BestRight w pfx plen exclude

/-- In every run in which no source gets stale, the router avoids loops. -/
theorem avoidsLoops_runs (now : ℤ) (actions : List (Env × Action))
    (hlegal : Along (fun _ => Legal) (World.start now) actions)
    (hfresh : Along StaysFresh (World.start now) actions) :
    AvoidsLoops (run (World.start now) actions) := by
  obtain ⟨⟨held,ht⟩,hsound⟩ := run_sound actions (start_table now)
    (fun s hs => absurd hs not_mem_nil) (fun e he => absurd he not_mem_nil) hlegal hfresh
  exact
    { installs := fun p a b c d he => hsound _ he
      drops := fun E m u p src w1 hm => (updateRoute_spec ht hm).2 p src w1
      never := fun s a b c d e f he => (hsound _ he).1
      records := fun s a b c d e f he hsent => (hsound _ he).2.mpr hsent
      best := fun pfx plen exclude => (bestRight_iff ht pfx plen exclude).mpr }

/-- A route is learnt, advertised and retracted with a newer seqno, which is passed on. -/
def retractedRun : List (Env × Action) :=
  [(sampleEnv true,.update ⟨some 1,some 2⟩ sampleUpdate),
    (sampleEnv true,.flushUpdates 3 [(sampleUpdate.pfx,32)]),
    (sampleEnv true,.update ⟨none,none⟩ {sampleUpdate with seqno := 6,refmetric := 0xffff}),
    (sampleEnv true,.flushUpdates 3 [(sampleUpdate.pfx,32)])]

/-- A route is learnt, and twenty-five seconds pass without another update. -/
def expiredRun : List (Env × Action) :=
  [(sampleEnv true,.update ⟨some 1,some 2⟩ sampleUpdate),(sampleEnv true,.tick 25)]

theorem expiredRun_legal : Along (fun _ => Legal) (World.start 0) expiredRun :=
  ⟨⟨fun _ _ => not_mem_nil,fun _ _ _ => not_mem_nil⟩,trivial,trivial⟩

theorem expiredRun_fresh : Along StaysFresh (World.start 0) expiredRun := by
  unfold expiredRun Along Along Along StaysFresh Fresh
  decide

theorem avoidsLoops_runs_expired : AvoidsLoops (run (World.start 0) expiredRun) :=
  avoidsLoops_runs 0 expiredRun expiredRun_legal expiredRun_fresh

/-- A newer retraction is not recorded, and `find_best_route` answers an expired head. -/
theorem loopAvoidance_gaps : (¬ ∀ (now : ℤ) (actions : List (Env × Action)),
      Along (fun _ => Legal) (World.start now) actions →
        Along StaysFresh (World.start now) actions → RecordsSent (run (World.start now) actions)) ∧
    ¬ ∀ (now : ℤ) (actions : List (Env × Action)),
      Along (fun _ => Legal) (World.start now) actions →
        Along StaysFresh (World.start now) actions →
          ∀ pfx plen exclude, BestRight (run (World.start now) actions) pfx plen exclude := by
  constructor
  · intro h
    have hlegal : Along (fun _ => Legal) (World.start 0) retractedRun :=
      ⟨⟨fun _ _ => not_mem_nil,fun _ _ _ => not_mem_nil⟩,trivial,
        ⟨fun s h => absurd h (Option.not_mem_none s),fun p h => absurd h (Option.not_mem_none p)⟩,
        trivial,trivial⟩
    have hfresh : Along StaysFresh (World.start 0) retractedRun := by
      unfold retractedRun Along Along Along Along Along StaysFresh Fresh
      decide
    have hrecords := h 0 retractedRun hlegal hfresh 1 6 0xffff 5 352 5 352 (by decide)
    exact absurd hrecords (by unfold AtLeastAsGood; decide)
  · intro h
    have hbest := h 0 expiredRun expiredRun_legal expiredRun_fresh sampleUpdate.pfx 32 none
    have hfound : findBestRoute (run (World.start 0) expiredRun) sampleUpdate.pfx 32 true none =
        some 2 := by decide
    rw [BestRight,hfound] at hbest
    exact absurd hbest.2.1 (by decide)

end RoutePlatform.BabelRoutes
