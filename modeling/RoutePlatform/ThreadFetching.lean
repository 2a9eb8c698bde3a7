import RoutePlatform.ThreadProcessing

/-!
# The fetch loop

A round of `thread_fetch` lets signal handlers run, which may schedule and
cancel threads themselves, and then returns a ready thread or waits. Under
the one rule that a cancelled thread was handed out by the master before,
every round succeeds and keeps the invariant.
-/

namespace RoutePlatform.ThreadFetching

open OperationRuns ThreadOperations ThreadScheduling ThreadProcessing Option

variable {ω : Type} {ls : ListName→List ℕ} {m : ThreadMaster ω}

/-- A client passes only threads that the master handed out. -/
def CallLegal (m : ThreadMaster ω) : MasterCall ω→Prop
  | .cancel thread => thread < m.fresh
  | _ => True

instance decidableCallLegal (m : ThreadMaster ω) : ∀ c, Decidable (CallLegal m c)
  | .cancel thread => inferInstanceAs (Decidable (thread < m.fresh))
  | .addRead _ _ | .addWrite _ _ | .addTimer _ _ _ | .addTimerMsec _ _ _
  | .addBackground _ _ _ | .addEvent _ _ | .cancelEvent _ => isTrue trivial

def InOrder (m : ThreadMaster ω) : Prop := ∃ ls, MasterInvariant ls none m

section

variable (h : MasterInvariant ls none m)
include h

theorem addTimer_inOrder (q : QueueName) (arg : ω) (relativeTime timeRelative : Timeval) :
    InOrder (threadAddTimerTimeval m q arg relativeTime timeRelative).1 := by
  obtain ⟨m',t,ls',hadd,hinv,-⟩ := threadAddTimerTimeval_spec h q arg relativeTime timeRelative
  rw [hadd]
  exact ⟨ls',hinv⟩

theorem trimReady_spec : (ls .ready=[] ∧ threadTrimHead m .ready=(m,none)) ∨
      ∃ m1 m2 t fetch, threadTrimHead m .ready=(m1,some t) ∧
        threadRun m1 t=some (m2,fetch) ∧ InOrder m2 := by
  unfold threadTrimHead
  rw [(h.place.isList .ready).head]
  cases hls : ls .ready with
  | nil => exact .inl ⟨rfl,rfl⟩
  | cons t rest =>
    refine .inr ?_
    have hcut : ls .ready=[]++t::rest := hls
    have htmem : t∈ls .ready := by rw [hls]; exact List.mem_cons_self
    have hf := fds_drop h.fds (not_waits_of_list h.place htmem fun dir => by cases dir <;> decide)
    obtain ⟨m2,hm2,-,hinv⟩ := retire_spec (take_spec h.place hf hcut)
    refine ⟨threadListDelete m .ready t,m2,t,(threadListDelete m .ready t).threads t,rfl,?_,_,hinv⟩
    simp only [threadRun,bind_eq_bind]
    rw [hm2,bind_some]

theorem processIo_spec (num : ℕ) (readfd writefd : ℕ→Bool) :
    ∃ m' ls', processIo m num readfd writefd=some m' ∧ MasterInvariant ls' none m' := by
  unfold processIo
  by_cases hnum : num > 0
  · rw [if_pos hnum]
    obtain ⟨m1,n1,ls1,moved1,h1,hinv1,-⟩ := threadProcessFd_spec h .read readfd
    obtain ⟨m2,n2,ls2,moved2,h2,hinv2,-⟩ := threadProcessFd_spec hinv1 .write writefd
    refine ⟨m2,ls2,?_,hinv2⟩
    simp only [bind_eq_bind]
    rw [h1,bind_some,h2,bind_some]
  rw [if_neg hnum]
  exact ⟨m,ls,rfl,h⟩

theorem processAll_spec (num : ℕ) (readfd writefd : ℕ→Bool) (relativeTime : Timeval) :
    ∃ m', processAll m num readfd writefd relativeTime=some m' ∧ InOrder m' := by
  obtain ⟨m1,ls1,moved1,h1,hdone1⟩ := threadTimerProcess_spec h .timer relativeTime
  obtain ⟨m2,ls2,h2,hinv2⟩ := processIo_spec hdone1.inv num readfd writefd
  obtain ⟨m3,ls3,moved3,h3,hdone3⟩ := threadTimerProcess_spec hinv2 .background relativeTime
  refine ⟨m3,?_,ls3,hdone3.inv⟩
  simp only [processAll,bind_eq_bind]
  rw [h1,bind_some,h2,bind_some,h3,bind_some]

theorem selectPart_spec (timerWait : Option Timeval)
    (round : Round ω) : ∃ m' e, selectPart m timerWait round=some (m',e) ∧ InOrder m' := by
  unfold selectPart
  cases round.select with
  | interrupted timeout | failed => exact ⟨m,_,rfl,ls,h⟩
  | returned num readfd writefd timeout =>
    obtain ⟨m1,hm1,ls1,hinv1⟩ := processAll_spec h num readfd writefd round.after
    simp only [bind_eq_bind]
    rw [hm1,bind_some]
    rcases trimReady_spec hinv1 with ⟨-,htrim⟩|⟨m2,m3,t,fetch,htrim,hrun,hinv3⟩
    · rw [htrim]
      exact ⟨m1,_,rfl,ls1,hinv1⟩
    rw [htrim]
    dsimp only
    rw [hrun,bind_some]
    exact ⟨m3,_,rfl,hinv3⟩

end

variable [DecidableEq ω]

/-- Every permitted call succeeds and keeps the invariant. -/
theorem masterCall_spec (m : ThreadMaster ω) (c : MasterCall ω) (h : InOrder m)
    (hleg : CallLegal m c) : ∃ m', masterCall m c=some m' ∧ InOrder m' := by
  obtain ⟨ls,h⟩ := h
  cases c with
  | addRead arg fd =>
    obtain ⟨ls',hinv⟩ := threadAddIo_spec h .read arg fd
    exact ⟨_,rfl,ls',hinv⟩
  | addWrite arg fd =>
    obtain ⟨ls',hinv⟩ := threadAddIo_spec h .write arg fd
    exact ⟨_,rfl,ls',hinv⟩
  | addTimer arg now timer | addTimerMsec arg now timer =>
    exact ⟨_,rfl,addTimer_inOrder h .timer arg now _⟩
  | addBackground arg now delay => exact ⟨_,rfl,addTimer_inOrder h .background arg now _⟩
  | addEvent arg val =>
    obtain ⟨ls',hinv⟩ := threadAddEvent_spec h arg val
    exact ⟨_,rfl,ls',hinv⟩
  | cancel thread =>
    obtain ⟨m',ls',hm',hinv,-⟩ := threadCancel_spec h hleg
    exact ⟨m',hm',ls',hinv⟩
  | cancelEvent arg =>
    obtain ⟨m',ret,ls',hm',hinv,-⟩ := threadCancelEvent_spec arg h
    refine ⟨m',?_,ls',hinv⟩
    rw [masterCall,hm']
    rfl

theorem afterHandlers_spec {m1 : ThreadMaster ω} (h : MasterInvariant ls none m1)
    (timerWait : Option Timeval) (round : Round ω)
    (hrun : run masterCall m round.handlers=some m1) :
    ∃ m' e call, fetchRound m timerWait round=some (m',e,call) ∧ InOrder m' ∧
      ∀ c, call=some c → ls .ready=[] ∧ (c.isReady=true ↔ ls .event≠[]) ∧
        (c.isReady=true → c.timeout=timerWait) := by
  simp only [fetchRound,bind_eq_bind]
  rw [hrun,bind_some]
  rcases trimReady_spec h with ⟨hemp,htrim⟩|⟨m2,m3,t,fetch,htrim,hrun3,hinv3⟩
  · rw [htrim]
    dsimp only
    obtain ⟨m2,n,ls2,h2,hinv2,hrdy,-⟩ := threadProcess_spec h
    rw [h2,bind_some]
    rw [hemp,List.nil_append] at hrdy
    have hcnt : (m2.list .ready).count=0 ↔ ls .event=[] := by
      rw [(hinv2.place.isList .ready).count,hrdy]
      simp
    have hhead : (m2.list .ready).head.isSome=true ↔ ls .event≠[] := by
      rw [(hinv2.place.isList .ready).head,hrdy]
      simp
    obtain ⟨m3,e,hsel,hinv3⟩ := selectPart_spec hinv2
      (if (m2.list .ready).count=0 then waitTime m2 round.before else timerWait) round
    rw [hsel,bind_some]
    refine ⟨m3,e,_,rfl,hinv3,fun c hc => ?_⟩
    cases hc
    refine ⟨hemp,hhead,fun hr => ?_⟩
    rw [if_neg fun h0 => hhead.mp hr (hcnt.mp h0)]
  · rw [htrim]
    dsimp only
    rw [hrun3,bind_some]
    exact ⟨m3,_,none,rfl,hinv3,fun c hc => nomatch hc⟩

theorem fetchRound_spec (h : InOrder m) (timerWait : Option Timeval) (round : Round ω)
    (hleg : LegalRun masterCall CallLegal m round.handlers) :
    ∃ m' e call, fetchRound m timerWait round=some (m',e,call) ∧ InOrder m' := by
  obtain ⟨m1,hrun,ls,hinv⟩ := run_invariant masterCall_spec round.handlers m h hleg
  obtain ⟨m',e,call,hrd,hinv',-⟩ := afterHandlers_spec hinv timerWait round hrun
  exact ⟨m',e,call,hrd,hinv'⟩

/-- Every handler of every round that is reached makes permitted calls. -/
def FetchLegal : List (Round ω)→ThreadMaster ω→Option Timeval→Prop
  | [], _, _ => True
  | round::rounds, m, timerWait =>
    LegalRun masterCall CallLegal m round.handlers ∧
      match fetchRound m timerWait round with
      | some (m',.again timerWait',_) => FetchLegal rounds m' timerWait'
      | _ => True

instance decidableFetchLegal : ∀ (rounds : List (Round ω)) (m : ThreadMaster ω)
    (timerWait : Option Timeval), Decidable (FetchLegal rounds m timerWait)
  | [], _, _ => isTrue trivial
  | round::rounds, m, timerWait =>
    have : Decidable (match fetchRound m timerWait round with
        | some (m',.again timerWait',_) => FetchLegal rounds m' timerWait'
        | _ => True) :=
      match fetchRound m timerWait round with
      | some (m',.again timerWait',_) => decidableFetchLegal rounds m' timerWait'
      | some (_,.fetched _,_) | some (_,.failed,_) | none => isTrue trivial
    inferInstanceAs (Decidable (_ ∧ _))

theorem fetchLoop_spec (rounds : List (Round ω)) :
    ∀ (m : ThreadMaster ω) (timerWait : Option Timeval) (calls : List SelectCall),
      InOrder m → FetchLegal rounds m timerWait →
      ∃ m' e calls', fetchLoop rounds m timerWait calls=some (m',e,calls') ∧ InOrder m' := by
  induction rounds with
  | nil =>
    intro m timerWait calls h _
    exact ⟨m,_,calls,rfl,h⟩
  | cons round rounds ih =>
    intro m timerWait calls h hleg
    obtain ⟨hhandlers,hrs⟩ := hleg
    obtain ⟨m',e,call,hrd,hinv⟩ := fetchRound_spec h timerWait round hhandlers
    rw [hrd] at hrs
    simp only [fetchLoop,bind_eq_bind]
    rw [hrd,bind_some]
    cases e with
    | fetched fetch | failed => exact ⟨m',_,_,rfl,hinv⟩
    | again timerWait' => exact ih m' timerWait' _ hinv hrs

end RoutePlatform.ThreadFetching
