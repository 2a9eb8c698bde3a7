import RoutePlatform.ThreadRuns

/-!
# Timers fire exactly once

A run adds timers, cancels pending ones and processes the queues against a clock, which may go
backwards. Every timer gets a serial number when it is added, since threads are recycled, and a
ledger says which timers are pending, cancelled or fired.
-/

namespace RoutePlatform.ThreadTimers

open OperationRuns ThreadOperations ThreadInvariant ThreadScheduling ThreadProcessing ThreadRuns
  List Option

variable {ω : Type}

structure Timer where
  serial : ℕ
  thread : ℕ
  queue : QueueName
  sands : Timeval
  deriving DecidableEq

/-- One call of `thread_timer_process`. -/
structure Report (ω : Type) where
  before : ThreadMaster ω
  after : ThreadMaster ω
  /-- The pending timers of the queue whose alarm is not after the given time. -/
  due : List Timer

structure TimerState (ω : Type) where
  master : ThreadMaster ω
  serial : ℕ
  pending : List Timer
  cancelled : List ℕ
  /-- The calls of `thread_timer_process`. -/
  reports : List (Report ω)

/-- The timer's alarm is not after the given time. -/
def Timer.IsDue (q : QueueName) (timenow : Timeval) (timer : Timer) : Prop :=
  timer.queue=q ∧ timeKey timer.sands≤timeKey timenow

instance decidableIsDue (q : QueueName) (timenow : Timeval) :
    DecidablePred (Timer.IsDue q timenow) :=
  fun _ => inferInstanceAs (Decidable (_ ∧ _))

namespace TimerState

variable (s : TimerState ω)

/-- The numbers of the fired timers, in order. -/
def fired : List ℕ := s.reports.flatMap fun r => r.due.map Timer.serial

/-- A timer was added; its alarm time is that of its thread. -/
def add (q : QueueName) (r : ThreadMaster ω × ℕ) : TimerState ω :=
  {s with
    master := r.1
    serial := s.serial+1
    pending := s.pending++[⟨s.serial,r.2,q,(r.1.data r.2).u.getSands⟩]}

/-- The timer of a thread was cancelled. -/
def cancel (thread : ℕ) (m : ThreadMaster ω) : TimerState ω :=
  {s with
    master := m
    pending := s.pending.filter fun timer => ¬timer.thread=thread
    cancelled := s.cancelled++(s.pending.filter fun timer => timer.thread=thread).map Timer.serial}

def process (q : QueueName) (timenow : Timeval) (m : ThreadMaster ω) : TimerState ω :=
  {s with
    master := m
    pending := s.pending.filter fun timer => ¬timer.IsDue q timenow
    reports := s.reports++[⟨s.master,m,s.pending.filter fun timer => timer.IsDue q timenow⟩]}

def create (arg : ω) : TimerState ω := ⟨threadMasterCreate arg,0,[],[],[]⟩

end TimerState

inductive TimerOp (ω : Type) where
  | addTimer (arg : ω) (relativeTime : Timeval) (timer : ℤ)
  | addTimerMsec (arg : ω) (relativeTime : Timeval) (timer : ℤ)
  | addBackground (arg : ω) (relativeTime : Timeval) (delay : ℤ)
  | cancel (thread : ℕ)
  | process (queue : QueueName) (timenow : Timeval)

/-- The operations, with their entries in the ledger. -/
def timerStep (s : TimerState ω) : TimerOp ω→Option (TimerState ω)
  | .addTimer arg now timer => some (s.add .timer (threadAddTimer s.master arg now timer))
  | .addTimerMsec arg now timer => some (s.add .timer (threadAddTimerMsec s.master arg now timer))
  | .addBackground arg now delay =>
    some (s.add .background (threadAddBackground s.master arg now delay))
  | .cancel thread => (threadCancel s.master thread).map (s.cancel thread)
  | .process q timenow => (threadTimerProcess s.master q timenow).map fun r =>
    s.process q timenow r.1

def TimerLegal (s : TimerState ω) : TimerOp ω→Prop
  | .cancel thread => ∃ timer∈s.pending, timer.thread=thread
  | _ => True

instance decidableTimerLegal (s : TimerState ω) : ∀ op, Decidable (TimerLegal s op)
  | .cancel thread => inferInstanceAs (Decidable (∃ timer∈s.pending, timer.thread=thread))
  | .addTimer _ _ _ | .addTimerMsec _ _ _ | .addBackground _ _ _ | .process _ _ => isTrue trivial

/-- The due timers, and nothing else, were appended by alarm time. -/
def Report.Exact (r : Report ω) : Prop :=
  ∃ ready moved : List ℕ, IsList r.before.threads (r.before.list .ready) ready ∧
    IsList r.after.threads (r.after.list .ready) (ready++moved) ∧
    moved.Perm (r.due.map Timer.thread) ∧
    moved.Pairwise fun a b =>
      timeKey (r.before.data a).u.getSands≤timeKey (r.before.data b).u.getSands

/-- The timer is in its queue, with its alarm time. -/
def Queued (m : ThreadMaster ω) (timer : Timer) : Prop :=
  Placed m none timer.thread timer.queue.type ∧ (m.data timer.thread).u=.sands timer.sands

/-- The ledger agrees with the master. -/
structure LedgerInvariant (s : TimerState ω) : Prop where
  master : ∃ ls, MasterInvariant ls none s.master
  queued : ∀ timer∈s.pending, Queued s.master timer
  pending : ∀ (q : QueueName) (t : ℕ), Placed s.master none t q.type →
    ∃ timer∈s.pending, timer.thread=t
  nodup : (s.pending.map Timer.thread).Nodup
  /-- Every timer is pending, cancelled or fired, and only one of these, once. -/
  account : (s.pending.map Timer.serial++s.cancelled++s.fired).Perm (List.range s.serial)
  /-- The calls of `thread_timer_process` were right. -/
  reports : ∀ r∈s.reports, r.Exact

theorem queued_congr {m m' : ThreadMaster ω} {timer : Timer}
    (hlive : timer.thread < m'.fresh ↔ timer.thread < m.fresh)
    (hc : content (m'.data timer.thread)=content (m.data timer.thread)) :
    Queued m' timer ↔ Queued m timer := by
  have hty : (m'.data timer.thread).type=(m.data timer.thread).type := congrArg Prod.fst hc
  have hu : (m'.data timer.thread).u=(m.data timer.thread).u := congrArg (fun c => c.2.2) hc
  unfold Queued Placed
  rw [hlive,hty,hu]

theorem account_split {pending : List Timer} {cancelled fired : List ℕ} {n : ℕ}
    (p : Timer→Prop) [DecidablePred p]
    (h : (pending.map Timer.serial++cancelled++fired).Perm (List.range n)) :
    ((pending.filter fun timer => ¬p timer).map Timer.serial++cancelled++fired ++
      (pending.filter fun timer => p timer).map Timer.serial).Perm (List.range n) := by
  have hsplit : (pending.filter (fun timer => p timer) ++
      pending.filter fun timer => ¬p timer).Perm pending := by
    have hperm := filter_append_perm (fun timer => decide (p timer)) pending
    simpa using hperm
  have hserial := hsplit.map Timer.serial
  rw [map_append] at hserial
  refine List.Perm.trans ?_ h
  rw [perm_iff_count] at hserial ⊢
  intro k
  have hk := hserial k
  simp only [count_append] at hk ⊢
  omega

section

variable {s : TimerState ω}

section

variable (h : LedgerInvariant s)
include h

theorem not_pending_of_unused {t : ℕ}
    (hunused : ∀ {x}, x<s.master.fresh → x≠t ∨ (s.master.data x).type=.unused) {timer : Timer}
    (htimer : timer∈s.pending) : timer.thread≠t := by
  have hp := (h.queued timer htimer).1
  rcases hunused hp.1 with hne|hty
  · exact hne
  have hbad := hp.2.2.symm.trans hty
  exact absurd hbad (by cases timer.queue <;> decide)

theorem add_ledger (q : QueueName) (arg : ω) (relativeTime timeRelative : Timeval) :
    LedgerInvariant (s.add q (threadAddTimerTimeval s.master q arg relativeTime timeRelative)) := by
  obtain ⟨ls,hinv⟩ := h.master
  obtain ⟨m',t,ls',hadd,hinv',-,hadded⟩ :=
    threadAddTimerTimeval_spec hinv q arg relativeTime timeRelative
  rw [hadd]
  have hoth : ∀ {timer}, timer∈s.pending → timer.thread≠t :=
    fun htimer => not_pending_of_unused h hadded.unused htimer
  refine ⟨⟨ls',hinv'⟩,?_,?_,?_,?_,h.reports⟩
  · intro timer htimer
    rcases mem_append.mp htimer with hold|hnew
    · have hne := hoth hold
      exact (queued_congr (hadded.lives hne) (hadded.content hne)).mpr (h.queued timer hold)
    cases mem_singleton.mp hnew
    have hsands := hadded.sands_eq
    refine ⟨⟨hadded.live,(some_ne_none t).symm,hadded.type_eq⟩,?_⟩
    dsimp only [TimerState.add]
    rw [hsands]
    rfl
  · intro q' x hx
    by_cases hxt : x=t
    · exact ⟨_,mem_append_right _ mem_cons_self,hxt.symm⟩
    have hold : Placed s.master none x q'.type := by
      have hty := congrArg Prod.fst (hadded.content hxt)
      exact ⟨(hadded.lives hxt).mp hx.1,hx.2.1,hty.symm.trans hx.2.2⟩
    obtain ⟨timer,htimer,hth⟩ := h.pending q' x hold
    exact ⟨timer,mem_append_left _ htimer,hth⟩
  · dsimp only [TimerState.add]
    rw [map_append,nodup_append]
    refine ⟨h.nodup,nodup_singleton _,?_⟩
    intro x hx y hy he
    obtain ⟨timer,htimer,rfl⟩ := mem_map.mp hx
    rw [map_singleton,mem_singleton] at hy
    exact hoth htimer (he.trans hy)
  have hacc := h.account
  have hfired : (s.add q (m',t)).fired=s.fired := rfl
  rw [hfired]
  dsimp only [TimerState.add]
  rw [map_append,range_succ]
  rw [perm_iff_count] at hacc ⊢
  intro k
  have hk := hacc k
  simp only [count_append,map_singleton] at hk ⊢
  omega

theorem cancel_ledger {thread : ℕ} (hleg : ∃ timer∈s.pending, timer.thread=thread) :
    ∃ m', threadCancel s.master thread=some m' ∧ LedgerInvariant (s.cancel thread m') := by
  obtain ⟨ls,hinv⟩ := h.master
  obtain ⟨timer0,htimer0,hthread0⟩ := hleg
  have hlive : thread<s.master.fresh := by
    rw [←hthread0]
    exact (h.queued timer0 htimer0).1.1
  obtain ⟨m',ls',hm',hinv',hret⟩ := threadCancel_spec hinv hlive
  refine ⟨m',hm',⟨ls',hinv'⟩,?_,?_,?_,?_,h.reports⟩
  · intro timer htimer
    obtain ⟨hold,hne⟩ := mem_filter.mp htimer
    have hne' : timer.thread≠thread := of_decide_eq_true hne
    have hsame : timer.thread < m'.fresh ↔ timer.thread<s.master.fresh := by rw [hret.fresh]
    exact (queued_congr hsame (hret.content hne')).mpr (h.queued timer hold)
  · intro q x hx
    have hxt : x≠thread := by
      rintro rfl
      have hbad := hx.2.2.symm.trans hret.type_eq
      revert hbad
      cases q <;> decide
    have hp := (placed_congr hret.fresh (hret.content hxt) q.type).mp hx
    obtain ⟨timer,htimer,hth⟩ := h.pending q x hp
    refine ⟨timer,mem_filter.mpr ⟨htimer,decide_eq_true ?_⟩,hth⟩
    rw [hth]
    exact hxt
  · exact h.nodup.sublist (filter_sublist.map Timer.thread)
  · have hacc := account_split (fun timer => timer.thread=thread) h.account
    refine List.Perm.trans ?_ hacc
    have hfired : (s.cancel thread m').fired=s.fired := rfl
    rw [hfired]
    dsimp only [TimerState.cancel]
    rw [perm_iff_count]
    intro k
    simp only [count_append]
    omega

theorem process_ledger (q : QueueName) (timenow : Timeval) :
    ∃ m' moved, threadTimerProcess s.master q timenow=some (m',moved) ∧
      LedgerInvariant (s.process q timenow m') := by
  obtain ⟨ls,hinv⟩ := h.master
  obtain ⟨m',ls',moved,hrun,hdone⟩ := threadTimerProcess_spec hinv q timenow
  have hmv : ∀ {timer}, timer∈s.pending → (timer.thread∈moved ↔ timer.IsDue q timenow) := by
    intro timer htimer
    obtain ⟨hp,hu⟩ := h.queued timer htimer
    have halarm : alarm s.master.threads timer.thread=timeKey timer.sands := by
      have hsands : (s.master.data timer.thread).u.getSands=timer.sands := by
        rw [hu]
        rfl
      exact congrArg timeKey hsands
    rw [hdone.mem_iff,halarm,Timer.IsDue]
    have hqueue : Placed s.master none timer.thread q.type ↔ timer.queue=q := by
      constructor
      · intro hq
        exact queueType_injective (hp.2.2.symm.trans hq.2.2)
      · rintro rfl
        exact hp
    rw [hqueue]
  refine ⟨m',moved,hrun,⟨ls',hdone.inv⟩,?_,?_,?_,?_,?_⟩
  · intro timer htimer
    obtain ⟨hold,hnot⟩ := mem_filter.mp htimer
    have hout : timer.thread ∉ moved := fun hmem => of_decide_eq_true hnot ((hmv hold).mp hmem)
    have hsame : timer.thread < m'.fresh ↔ timer.thread<s.master.fresh := by rw [hdone.made.fresh]
    exact (queued_congr hsame (hdone.made.content hout)).mpr (h.queued timer hold)
  · intro q' x hx
    have hout : x ∉ moved := by
      intro hmem
      have hbad := hx.2.2.symm.trans (hdone.made.type_eq hmem)
      revert hbad
      cases q' <;> decide
    have hp := (placed_congr hdone.made.fresh (hdone.made.content hout) q'.type).mp hx
    obtain ⟨timer,htimer,hth⟩ := h.pending q' x hp
    refine ⟨timer,mem_filter.mpr ⟨htimer,decide_eq_true fun hdue => ?_⟩,hth⟩
    rw [←hth] at hout
    exact hout ((hmv htimer).mpr hdue)
  · exact h.nodup.sublist (filter_sublist.map Timer.thread)
  · have hacc := account_split (Timer.IsDue q timenow) h.account
    have hfired : (s.process q timenow m').fired=s.fired ++
        (s.pending.filter fun timer => timer.IsDue q timenow).map Timer.serial := by
      simp [TimerState.fired,TimerState.process]
    rw [hfired,←append_assoc]
    exact hacc
  · intro r hr
    rcases mem_append.mp hr with hold|hnew
    · exact h.reports r hold
    cases mem_singleton.mp hnew
    have hafter := hdone.inv.place.isList .ready
    rw [hdone.ready_eq] at hafter
    refine ⟨ls .ready,moved,hinv.place.isList .ready,hafter,?_,hdone.sorted⟩
    have hnd := h.nodup.sublist
      ((filter_sublist (p := fun timer => decide (timer.IsDue q timenow))).map Timer.thread)
    refine (perm_ext_iff_of_nodup hdone.nodup hnd).mpr fun x => ?_
    constructor
    · intro hx
      obtain ⟨timer,htimer,hth⟩ := h.pending q x ((hdone.mem_iff x).mp hx).1
      rw [←hth] at hx
      exact mem_map.mpr ⟨timer,
        mem_filter.mpr ⟨htimer,decide_eq_true ((hmv htimer).mp hx)⟩,hth⟩
    · intro hx
      obtain ⟨timer,htimer,rfl⟩ := mem_map.mp hx
      obtain ⟨hold,hdue⟩ := mem_filter.mp htimer
      exact (hmv hold).mpr (of_decide_eq_true hdue)

end

theorem timerStep_spec (s : TimerState ω) (op : TimerOp ω) (h : LedgerInvariant s)
    (hleg : TimerLegal s op) : ∃ s', timerStep s op=some s' ∧ LedgerInvariant s' := by
  cases op with
  | addTimer arg now timer | addTimerMsec arg now timer =>
    exact ⟨_,rfl,add_ledger h .timer arg now _⟩
  | addBackground arg now delay => exact ⟨_,rfl,add_ledger h .background arg now _⟩
  | cancel thread =>
    obtain ⟨m',hm',hledger⟩ := cancel_ledger h hleg
    exact ⟨_,by rw [timerStep,hm',map_some],hledger⟩
  | process q timenow =>
    obtain ⟨m',moved,hm',hledger⟩ := process_ledger h q timenow
    exact ⟨_,by rw [timerStep,hm',map_some],hledger⟩

end

theorem create_ledger (arg : ω) : LedgerInvariant (TimerState.create arg) where
  master := ⟨_,threadMasterCreate_invariant arg⟩
  queued := nofun
  pending := fun _ t h => absurd h.1 (Nat.not_lt_zero t)
  nodup := nodup_nil
  account := List.Perm.refl []
  reports := nofun

/-- What the ledger says after a run. -/
structure TimersExact (s : TimerState ω) : Prop where
  index : ∀ q i, i<(s.master.queue q).size → (s.master.data ((s.master.queue q).array i)).index=i
  queue : ∀ q t, (s.master.queue q).Mem t ↔ ∃ timer∈s.pending, timer.thread=t ∧ timer.queue=q
  sands : ∀ timer∈s.pending, (s.master.data timer.thread).u=.sands timer.sands
  /-- Every timer is pending, cancelled or fired, and only one of these, once. -/
  account : (s.pending.map Timer.serial++s.cancelled++s.fired).Perm (List.range s.serial)
  /-- Every call moved exactly the due timers by alarm time. -/
  reports : ∀ r∈s.reports, r.Exact

theorem LedgerInvariant.exact {s : TimerState ω} (h : LedgerInvariant s) : TimersExact s := by
  obtain ⟨ls,hinv⟩ := h.master
  refine ⟨fun q i hi => (hinv.place.valid q).tracked i hi,fun q t => ?_,
    fun timer htimer => (h.queued timer htimer).2,h.account,h.reports⟩
  rw [hinv.place.mem_queue]
  constructor
  · intro hp
    obtain ⟨timer,htimer,hth⟩ := h.pending q t hp
    have hq := (h.queued timer htimer).1.2.2
    rw [hth] at hq
    exact ⟨timer,htimer,hth,queueType_injective (hq.symm.trans hp.2.2)⟩
  · rintro ⟨timer,htimer,rfl,rfl⟩
    exact (h.queued timer htimer).1

/-- After every run no assertion failed, and timers fired once, when due, by alarm time. -/
theorem timerRun_exact (arg : ω) (ops : List (TimerOp ω))
    (h : LegalRun timerStep TimerLegal (TimerState.create arg) ops) :
    ∃ s, run timerStep (TimerState.create arg) ops=some s ∧ TimersExact s := by
  obtain ⟨s,hrun,hinv⟩ := run_invariant timerStep_spec ops _ (create_ledger arg) h
  exact ⟨s,hrun,hinv.exact⟩

/-- Equal alarms, cancels of the first and last, a recycled thread, and two calls. -/
def sampleTimers : List (TimerOp ℕ) :=
  [.addTimer 0 ⟨10,0⟩ 3,.addTimer 0 ⟨10,0⟩ 1,.addTimerMsec 0 ⟨10,0⟩ 3000,
    .addBackground 0 ⟨10,0⟩ 0,.addTimer 0 ⟨10,0⟩ 2,.cancel 1,.cancel 2,
    .process .timer ⟨12,0⟩,.addTimer 0 ⟨12,0⟩ 1,.process .background ⟨12,0⟩,
    .process .timer ⟨13,0⟩]

theorem timerRun_exact_sampleTimers :
    LegalRun timerStep TimerLegal (TimerState.create 0) sampleTimers ∧
      ∃ s, run timerStep (TimerState.create 0) sampleTimers=some s ∧ TimersExact s :=
  have hlegal : LegalRun timerStep TimerLegal (TimerState.create 0) sampleTimers := by decide
  ⟨hlegal,timerRun_exact 0 sampleTimers hlegal⟩

end RoutePlatform.ThreadTimers
