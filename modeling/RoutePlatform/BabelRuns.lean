import RoutePlatform.BabelUpdates

/-!
# Babel: the route table over whole runs

Every step keeps the invariant of the table, except that an update may leak a reference to a
source when `realloc` refuses a larger table. Over a run without such a refusal the table is in
order, and the lookups answer what it holds.
-/

namespace RoutePlatform.BabelRoutes

open List

variable {w w' : World} {held : ℕ→ℕ} {p q i s : ℕ} {E : Env}

theorem expireSource_kept (ht : Table held w) (s : ℕ) : Kept held w (expireSource s w) := by
  have hstep : Kept held w (if (w.source s).time > w.now then
      w.modifySource s fun r => {r with time := w.now} else w) := by
    split
    · have hsource : ∀ t, (w.modifySource s fun r => {r with time := w.now}).source t =
          if t=s then {w.source t with time := w.now} else w.source t := by
        intro t
        by_cases h : t=s
        · rw [if_pos h,h]
          exact Function.update_self ..
        rw [if_neg h]
        exact Function.update_of_ne h ..
      have hkey : ∀ q, (w.modifySource s fun r => {r with time := w.now}).key q=w.key q := by
        intro q
        rw [World.key,World.key,World.sourceOf,World.sourceOf,hsource]
        split <;> rfl
      refine ⟨ht.sub (σ := id) strictMono_id (fun j => List.Sublist.refl _) ht.nonempty
        (fun j q _ => ⟨hkey q,rfl,rfl,rfl⟩) ht.live (fun t hmem => ?_) ht.room ht.idle,
        fun hf => ⟨fun t hmem => ?_,[],(append_nil _).symm,by simp⟩,rfl⟩
      · rw [hsource]
        have hcnt := ht.count t hmem
        split <;> exact hcnt
      rw [hsource]
      split
      · change w.now-sourceGcTime≤w.now
        rw [sourceGcTime]
        omega
      · exact hf t hmem
    · exact Kept.refl ht
  rw [expireSource]
  generalize (if (w.source s).time > w.now then _ else w)=w1 at hstep ⊢
  have ht1 := hstep.table
  split
  · rename_i h
    have hunused : s∈w1.srcs → ∀ j, ∀ q∈w1.slot j, (w1.route q).src≠s := by
      intro hmem j q hq heq
      have hcnt := ht1.count s hmem
      rw [h.2] at hcnt
      have hz : w1.slots.flatten.countP (fun q => (w1.route q).src=s)=0 := by omega
      have hnone := countP_eq_zero.mp hz q (mem_flatten_iff.mpr ⟨j,hq⟩)
      exact hnone (by simpa using heq)
    refine hstep.trans ⟨ht1.sub (σ := id) strictMono_id (fun j => List.Sublist.refl _) ht1.nonempty
      (fun j q _ => ⟨rfl,rfl,rfl,rfl⟩) (fun j q hq => ?_) (fun t ht => ?_) ht1.room
      (fun t ht => ?_),fun hf => ⟨fun t ht => hf t (mem_of_mem_erase ht),[],
        (append_nil _).symm,by simp⟩,rfl⟩
    · have hlive := ht1.live j q hq
      by_cases heq : (w1.route q).src=s
      · exact absurd heq (hunused (heq ▸ hlive) j q hq)
      · exact (mem_erase_of_ne heq).mpr hlive
    · exact ht1.count t (mem_of_mem_erase ht)
    by_cases hmem : t∈w1.srcs
    · have heq : t=s := by
        by_contra hne
        exact ht ((mem_erase_of_ne hne).mpr hmem)
      have hcnt := ht1.count t hmem
      rw [heq,h.2] at hcnt
      rw [heq]
      omega
    · exact ht1.idle t hmem
  · exact hstep

theorem foldl_expireSource_kept (l : List ℕ) :
    ∀ w : World, Table held w → Kept held w (l.foldl (fun w s => expireSource s w) w) := by
  induction l with
  | nil => exact fun w ht => Kept.refl ht
  | cons s rest ih =>
    intro w ht
    have h := expireSource_kept ht s
    exact h.trans (ih _ h.table)

/-- What an action needs: memory is fresh, and a route that is flushed is in the
table. -/
def Legal (w : World) : Action→Prop
  | .update m _ => m.Fresh w
  | .flush p => ∃ i, p∈w.slot i
  | _ => True

/-- An action that cannot leak a reference. -/
def Roomy (E : Env) (w : World) : Action→Prop
  | .update m u => ¬MayLeak E m u w
  | _ => True

theorem step_survives (ht : Table held w) {a : Action} (ha : Legal w a) (htick : ∀ t, a ≠ .tick t) :
    ∃ held', Survives held' w (step E w a) ∧ (Roomy E w a → held'=held) := by
  cases a with
  | update m u =>
    obtain ⟨held',hs,hcase⟩ := (updateRoute_spec (E := E) (u := u) ht ha).1
    exact ⟨held',hs,fun hroomy => hcase.resolve_right hroomy⟩
  | flush p =>
    obtain ⟨i,hp⟩ := ha
    exact ⟨held,(flushRoute_kept ht hp).survives,fun _ => rfl⟩
  | flushNeighbour n | flushInterface ifp v4only =>
    exact ⟨held,(flushMatching_kept _ _ 0 w ht).survives,fun _ => rfl⟩
  | expire => exact ⟨held,(expireLoop_kept _ 0 w ht).survives,fun _ => rfl⟩
  | neighbourMetric n changed =>
    exact ⟨held,(updateNeighbourMetric_turned ht n changed).kept.survives,fun _ => rfl⟩
  | interfaceMetric ifp =>
    exact ⟨held,(updateInterfaceMetric_turned ht ifp).kept.survives,fun _ => rfl⟩
  | retractNeighbour n =>
    exact ⟨held,(retractNeighbourRoutes_turned ht n).kept.survives,fun _ => rfl⟩
  | flushUpdates ifp buffer =>
    exact ⟨held,((flushUpdates_quiet ht ifp buffer).turned ht).kept.survives,fun _ => rfl⟩
  | expireSources => exact ⟨held,(foldl_expireSource_kept _ w ht).survives,fun _ => rfl⟩
  | tick t => exact absurd rfl (htick t)

theorem tick_table (ht : Table held w) (now : ℤ) : Table held {w with now := now} :=
  ht.sub (σ := id) strictMono_id (fun j => List.Sublist.refl _) ht.nonempty
    (fun j q _ => ⟨rfl,rfl,rfl,rfl⟩) ht.live ht.count ht.room ht.idle

theorem step_table (ht : Table held w) {a : Action} (ha : Legal w a) :
    ∃ held', Table held' (step E w a) ∧ (Roomy E w a → held'=held) := by
  by_cases htick : ∃ t, a=.tick t
  · obtain ⟨t,rfl⟩ := htick
    exact ⟨held,tick_table ht t,fun _ => rfl⟩
  obtain ⟨held',hs,hroomy⟩ := step_survives (E := E) ht ha fun t h => htick ⟨t,h⟩
  exact ⟨held',hs.table,hroomy⟩

/-- A condition holds of every action of a run in the state where it happens. -/
def Along (P : Env→World→Action→Prop) : World→List (Env × Action)→Prop
  | _, [] => True
  | w, a::rest => P a.1 w a.2 ∧ Along P (step a.1 w a.2) rest

theorem run_table (actions : List (Env × Action)) :
    ∀ {w : World} {held : ℕ → ℕ}, Table held w → Along (fun _ => Legal) w actions →
      ∃ held', Table held' (run w actions) ∧ (Along Roomy w actions → held'=held) := by
  induction actions with
  | nil => exact fun ht _ => ⟨_,ht,fun _ => rfl⟩
  | cons a rest ih =>
    intro w held ht hleg
    obtain ⟨held1,ht1,hroomy1⟩ := step_table (E := a.1) ht hleg.1
    obtain ⟨held2,ht2,hroomy2⟩ := ih ht1 hleg.2
    exact ⟨held2,ht2,fun h => (hroomy2 h.2).trans (hroomy1 h.1)⟩

theorem start_table (now : ℤ) : Table (fun _ => 0) (World.start now) where
  nonempty i hi := absurd hi (Nat.not_lt_zero i)
  same i p hp := absurd hp not_mem_nil
  sorted i j _ p hp := absurd hp not_mem_nil
  distinct i := List.Pairwise.nil
  live i p hp := absurd hp not_mem_nil
  count s hs := absurd hs not_mem_nil
  room := le_rfl
  idle s _ := rfl
  head i p hp := absurd hp not_mem_nil

/-- A prefix is found, or where it belongs, and the installed route if there is one. -/
structure LookupsRight (w : World) : Prop where
  present : ∀ i, ∀ p∈w.slot i, findRouteSlot w (w.sourceOf p).pfx (w.sourceOf p).plen=.found i
  /-- For a prefix that is absent the insertion point is found. -/
  absent : ∀ pfx plen, (∀ i, ∀ p∈w.slot i, w.key p≠target pfx plen) →
    ∃ n, findRouteSlot w pfx plen=.absent n ∧ n≤w.slots.length ∧
      (∀ i<n, ∀ p∈w.slot i, w.key p<target pfx plen) ∧
      ∀ i, n ≤ i → ∀ p∈w.slot i, target pfx plen<w.key p
  installed : ∀ i, ∀ p∈w.slot i, (w.route p).installed=true →
    findInstalledRoute w (w.sourceOf p).pfx (w.sourceOf p).plen=some p

theorem Table.lookupsRight (ht : Table held w) : LookupsRight w where
  present i p hp := findRouteSlot_self ht.toShape hp
  absent pfx plen h := by
    obtain ⟨n,hn⟩ := findRouteSlot_eq_absent ht.toShape h
    exact ⟨n,hn,findRouteSlot_absent ht.toShape hn⟩
  installed i p hp hin := (findInstalledRoute_eq_some_iff ht).mpr ⟨⟨i,hp⟩,rfl,hin⟩

/-- In every run whose table never fails to grow, the slots are strictly sorted and fit, each has
routes to one prefix that differ, only heads may be installed, every source counts its routes, and
lookups are right. -/
theorem routeTable_runs (now : ℤ) (actions : List (Env × Action))
    (hlegal : Along (fun _ => Legal) (World.start now) actions)
    (hroomy : Along Roomy (World.start now) actions) :
    Table (fun _ => 0) (run (World.start now) actions) ∧
      LookupsRight (run (World.start now) actions) := by
  obtain ⟨held,ht,hheld⟩ := run_table actions (start_table now) hlegal
  rw [hheld hroomy] at ht
  exact ⟨ht,ht.lookupsRight⟩

/-- A router whose memory and kernel give what is asked for, or not. -/
def sampleEnv (memory : Bool) : Env where
  myid := 1
  myseqno := 0
  kernelMetric := 0
  allowDuplicates := -1
  keepUnfeasible := false
  diversityKind := .none
  diversityFactor := 256
  neighbourCost := fun _ => 96
  neighIfp := fun n => n
  inputFilter := fun _ _ _ _ => 0
  findXroute := fun _ _ => none
  kernel := fun _ _ => .accepted
  realloc := fun _ _ => memory
  unsatisfiedRequest := fun _ _ _ _ _ => false
  ifUp := fun _ => true
  splitHorizon := fun _ => false
  channel := fun _ => 0
  flushes := fun _ _ => []

/-- An update for 2001:db8::/32 from the neighbour at 7. -/
def sampleUpdate : Update where
  routerId := 2
  pfx := 0x20010db8000000000000000000000000
  plen := 32
  seqno := 5
  refmetric := 256
  interval := 400
  neigh := 7
  nexthop := 0xfe800000000000000000000000000007
  channels := []

/-- Two neighbours announce a network and one of them another one. It retracts the first, and its
route is flushed. -/
def sampleActions : List (Env × Action) :=
  [(sampleEnv true,.update ⟨some 1,some 2⟩ sampleUpdate),
    (sampleEnv true,.update ⟨none,some 3⟩ {sampleUpdate with neigh := 8,nexthop := 8}),
    (sampleEnv true,.update ⟨some 4,some 5⟩ {sampleUpdate with pfx := 0x2002 <<< 112}),
    (sampleEnv true,.update ⟨none,none⟩ {sampleUpdate with refmetric := 0xffff}),
    (sampleEnv true,.flush 2),(sampleEnv true,.expire)]

theorem routeTable_runs_sampleActions :
    (run (World.start 0) sampleActions).slots=[[3],[5]] ∧
      Table (fun _ => 0) (run (World.start 0) sampleActions) ∧
      LookupsRight (run (World.start 0) sampleActions) := by
  have hfresh : ∀ (w : World) (m : Malloc), (∀ s∈m.source, s ∉ w.srcs) →
      (∀ p∈m.route, p ∉ w.slots.flatten) → m.Fresh w := fun w m hs hp =>
    ⟨hs,fun p hm i hi => hp p hm (mem_flatten_iff.mpr ⟨i,hi⟩)⟩
  have hroomy : ∀ (m : Malloc) (u : Update) (w : World), ¬MayLeak (sampleEnv true) m u w := by
    rintro m u w ⟨-,-,-,log,hlog⟩
    cases hlog
  refine ⟨by decide +kernel,routeTable_runs 0 sampleActions ?_ ?_⟩
  · refine ⟨hfresh _ _ ?_ ?_,hfresh _ _ ?_ ?_,hfresh _ _ ?_ ?_,hfresh _ _ ?_ ?_,⟨0,?_⟩,trivial,
      trivial⟩ <;> decide +kernel
  · exact ⟨hroomy _ _ _,hroomy _ _ _,hroomy _ _ _,hroomy _ _ _,trivial,trivial,trivial⟩

/-- Where `realloc` refuses the first slot, the new source counts a route that is in
no slot. -/
theorem routeTable_leaks : ¬ ∀ (now : ℤ) (actions : List (Env × Action)),
    Along (fun _ => Legal) (World.start now) actions →
      Table (fun _ => 0) (run (World.start now) actions) := by
  intro h
  have ht := h 0 [(sampleEnv false,.update ⟨some 1,some 2⟩ sampleUpdate)]
    ⟨⟨fun _ _ => not_mem_nil,fun _ _ _ => not_mem_nil⟩,trivial⟩
  have hcount := ht.count 1 (by decide)
  cases hcount

end RoutePlatform.BabelRoutes
