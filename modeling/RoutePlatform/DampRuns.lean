import RoutePlatform.DampProcessing

/-!
# Sequences of calls of the dampening code

In every sequence of calls in which the reuse timer never releases an entry,
the lists are in order after each call. A timer that does release one damages
`no_reuse_list`: it has cleared the flag that says on which list the entry is.
-/

namespace RoutePlatform.DampRuns

open LinkedNodes OperationRuns DampOperations DampInvariant DampProcessing List

structure ListsInOrder (cfg : DampConfig) (s : DampState) (lists : DampList→List ℕ) : Prop where
  head : ∀ name, s.list name=(lists name).head?
  linked : ∀ name, Linked s.bdi (lists name)
  live : ∀ name, ∀ b∈lists name, b∈s.live
  once : ∀ name name' b, b∈lists name → b∈lists name' → name=name'
  /-- The entry of a suppressed route is on the reuse list of its index. -/
  suppressed : ∀ b∈s.live, (s.binfo (s.data b).binfo).damped=true →
    ∃ i<cfg.reuseListSize, (s.data b).index=some i ∧ b∈lists (.reuse i)
  /-- The entry of any other route is on `no_reuse_list`. -/
  unsuppressed : ∀ b∈s.live, (s.binfo (s.data b).binfo).damped=false → b∈lists .noReuse

/-- The lists can be read off the state. -/
def Consistent (cfg : DampConfig) (s : DampState) : Prop := ∃ lists, ListsInOrder cfg s lists

theorem consistent_of_rep {cfg : DampConfig} {s : DampState} {lists : DampList→List ℕ}
    (h : Rep cfg s lists []) : Consistent cfg s := by
  refine ⟨lists,h.head,h.linked,fun name b hb => ((h.mem name b).mp hb).1,?_,?_,?_⟩
  · intro name name' b hb hb'
    by_contra hne
    exact h.disjoint hne hb hb'
  · intro b hlive hset
    obtain ⟨name,hpl,hrange⟩ := h.placed b hlive not_mem_nil
    have hmem := (h.mem name b).mpr ⟨hlive,not_mem_nil,hpl⟩
    obtain ⟨-,i,hindex,rfl⟩|⟨hclear,-⟩ := place_cases hpl
    · exact ⟨i,hrange,hindex,hmem⟩
    rw [hset] at hclear
    cases hclear
  intro b hlive hclear
  have hpl : place s b=some .noReuse := by
    rw [place,hclear]
    rfl
  exact (h.mem .noReuse b).mpr ⟨hlive,not_mem_nil,hpl⟩

/-- The call is no reuse timer that releases an entry. -/
def TimerKeeps (cfg : DampConfig) (s : DampState) : DampOp→Prop
  | .reuseTimer now => ∀ b∈s.live, (s.binfo (s.data b).binfo).damped=true →
    (s.data b).index=some s.reuseOffset → ¬TimerReleases cfg now s b
  | _ => True

instance decidableTimerKeeps (cfg : DampConfig) (s : DampState) :
    ∀ op, Decidable (TimerKeeps cfg s op)
  | .reuseTimer now => inferInstanceAs (Decidable
      (∀ b∈s.live, (s.binfo (s.data b).binfo).damped=true →
        (s.data b).index=some s.reuseOffset → ¬TimerReleases cfg now s b))
  | .withdraw _ _ _ _ _ => .isTrue trivial
  | .update _ _ => .isTrue trivial
  | .scan _ _ => .isTrue trivial
  | .infoFree _ _ => .isTrue trivial
  | .infoClean => .isTrue trivial

/-- The calls that keep the lists in order. -/
def SafeCall (cfg : DampConfig) (s : DampState) (op : DampOp) : Prop :=
  DampLegal s op ∧ TimerKeeps cfg s op

instance decidableSafeCall (cfg : DampConfig) (s : DampState) (op : DampOp) :
    Decidable (SafeCall cfg s op) := inferInstanceAs (Decidable (_ ∧ _))

theorem dampStep_keeps {cfg : DampConfig} (s : DampState) (op : DampOp)
    (h : ∃ lists, Rep cfg s lists []) (hsafe : SafeCall cfg s op) :
    ∃ s', dampStep cfg s op=some s' ∧ ∃ lists, Rep cfg s' lists [] := by
  obtain ⟨lists,hrep⟩ := h
  obtain ⟨hleg,htimer⟩ := hsafe
  have hkeeps : Keeps cfg (dampStep cfg s op) := by
    cases op with
    | withdraw binfo rn attrChange now fresh =>
      exact bgpDampWithdraw_keeps hrep hleg.1 hleg.2 attrChange now
    | update binfo now => exact bgpDampUpdate_keeps hrep binfo now
    | scan binfo now => exact bgpDampScan_keeps hrep hleg now
    | reuseTimer now =>
      refine bgpReuseTimer_keeps hrep fun b hlive hpl => ?_
      obtain ⟨hset,i,hindex,hname⟩|⟨-,hname⟩ := place_cases hpl
      · cases hname
        exact htimer b hlive hset hindex
      · cases hname
    | infoFree b withdraw =>
      cases b with
      | none => exact ⟨s,lists,rfl,hrep⟩
      | some b => exact bgpDampInfoFree_keeps hrep hleg withdraw
    | infoClean => exact bgpDampInfoClean_keeps hrep
  obtain ⟨s',lists',hstep,hrep'⟩ := hkeeps
  exact ⟨s',hstep,lists',hrep'⟩

theorem rep_initialState (cfg : DampConfig) : Rep cfg initialState (fun _ => []) [] where
  head _ := rfl
  linked _ := ⟨trivial,nodup_nil⟩
  mem _ b := iff_of_false not_mem_nil fun h => Finset.notMem_empty b h.1
  placed b hb := absurd hb (Finset.notMem_empty b)
  away_live _ hb := absurd hb not_mem_nil
  owner b hb := absurd hb (Finset.notMem_empty b)
  owned h := nomatch h
  damped _ h := nomatch h

/-- After every sequence of calls without a releasing timer the lists are in
order. -/
theorem dampRun_consistent {cfg : DampConfig} {ops : List DampOp}
    (hsafe : LegalRun (dampStep cfg) (SafeCall cfg) initialState ops) :
    ∃ s, run (dampStep cfg) initialState ops=some s ∧ Consistent cfg s := by
  obtain ⟨s,hrun,lists,hrep⟩ :=
    run_invariant dampStep_keeps ops initialState ⟨_,rep_initialState cfg⟩ hsafe
  exact ⟨s,hrun,consistent_of_rep hrep⟩

/-- Half-life of one minute, both limits 2000, suppression for four minutes. -/
def sampleConfig : DampConfig where
  suppressValue := 2000
  reuseLimit := 2000
  maxSuppressTime := 240
  ceiling := 32000
  reuseListSize := 25
  decay tdiff penalty := if tdiff<5 then penalty else 0
  decay_le tdiff penalty := by
    split
    · exact le_rfl
    · exact Nat.zero_le _
  reuseIndex offset _ := offset%25
  reuseIndex_lt offset _ := Nat.mod_lt _ (by decide)

theorem dampRun_consistent_sampleCalls : ∃ s, run (dampStep sampleConfig) initialState
      [.withdraw 1 1 false 0 10,.withdraw 2 2 false 0 20,.withdraw 1 1 false 1 30,
        .reuseTimer 2,.scan 1 300,.update 2 301,.withdraw 3 3 true 302 20,.infoClean] =
          some s ∧ Consistent sampleConfig s :=
  dampRun_consistent (by decide)

/-- Two withdrawals suppress a route; a late timer releases it and loses that of another route. -/
theorem bgpReuseTimer_losesEntry : ∃ s, LegalRun (dampStep sampleConfig) DampLegal initialState
        [.withdraw 1 1 false 0 10,.withdraw 1 1 false 0 30,.withdraw 2 2 false 0 20,
          .reuseTimer 300] ∧
      run (dampStep sampleConfig) initialState
        [.withdraw 1 1 false 0 10,.withdraw 1 1 false 0 30,.withdraw 2 2 false 0 20,
          .reuseTimer 300]=some s ∧
      ¬Consistent sampleConfig s := by
  refine ⟨_,by decide,rfl,?_⟩
  rintro ⟨lists,h⟩
  have hmem := h.unsuppressed 20 (by decide) (by decide)
  have hhead : (lists .noReuse).head? = none := (h.head .noReuse).symm
  rw [head?_eq_none_iff] at hhead
  rw [hhead] at hmem
  exact not_mem_nil hmem

end RoutePlatform.DampRuns
