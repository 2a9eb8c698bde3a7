import RoutePlatform.ThreadFetching

/-!
# Runs of the thread master

The bookkeeping of the master after any sequence of scheduling calls, cancels
and fetches, and the waiting times that `thread_fetch` gives to `select`.
-/

namespace RoutePlatform.ThreadRuns

open OperationRuns PriorityQueue ThreadOperations ThreadInvariant ThreadScheduling ThreadFetching
  Option Nat Finset

variable {ω : Type} (arg : ω)

/-- The places where a thread can be. -/
inductive Place where
  | read | write | timer | background | event | ready | unuse
  deriving DecidableEq

instance fintypePlace : Fintype Place where
  elems := {.read,.write,.timer,.background,.event,.ready,.unuse}
  complete := by
    intro place
    cases place <;> decide

/-- The type that names a place. -/
def Place.type : Place→ThreadType
  | .read => .read
  | .write => .write
  | .timer => .timer
  | .background => .background
  | .event => .event
  | .ready => .ready
  | .unuse => .unused

/-- The threads in a place, given those on the lists. -/
def Place.contents (ls : ListName→List ℕ) (m : ThreadMaster ω) : Place→List ℕ
  | .read => ls .read
  | .write => ls .write
  | .timer => (m.queue .timer).toList
  | .background => (m.queue .background).toList
  | .event => ls .event
  | .ready => ls .ready
  | .unuse => ls .unuse

structure Bookkeeping (ls : ListName→List ℕ) (m : ThreadMaster ω) : Prop where
  /-- The list heads, counters and links agree with the lists. -/
  isList : ∀ name, IsList m.threads (m.list name) (ls name)
  live : ∀ place t, t∈Place.contents ls m place → t < m.fresh
  one : ∀ t, t < m.fresh → ∃! place, t∈Place.contents ls m place
  nodup : ∀ place, (Place.contents ls m place).Nodup
  named : ∀ place t, t∈Place.contents ls m place → (m.data t).type=place.type
  /-- The allocation counter is the number of threads in all places. -/
  alloc : m.alloc = ∑ place, (Place.contents ls m place).length
  /-- It is the number of threads the allocator handed out. -/
  allocated : m.alloc=m.fresh
  /-- A descriptor bit is set when a thread on the list has the descriptor. -/
  fd_iff : ∀ dir fd, m.fdset dir fd=true ↔ ∃ t∈ls dir.list, (m.data t).u=.fd fd
  fd_unique : ∀ (dir : IoName) (fd t t' : ℕ), t∈ls dir.list → (m.data t).u=.fd fd →
    t'∈ls dir.list → (m.data t').u=.fd fd → t=t'

section

variable {ls : ListName→List ℕ} {m : ThreadMaster ω}

theorem Place.type_injective : Function.Injective Place.type := by
  intro a b h
  revert h
  cases a <;> cases b <;> decide

theorem mem_contents (h : PlaceInvariant ls none m) (place : Place) (t : ℕ) :
    t∈Place.contents ls m place ↔ Placed m none t place.type := by
  cases place with
  | read => exact h.mem_list .read t
  | write => exact h.mem_list .write t
  | timer => exact PQueue.mem_toList.trans (h.mem_queue .timer t)
  | background => exact PQueue.mem_toList.trans (h.mem_queue .background t)
  | event => exact h.mem_list .event t
  | ready => exact h.mem_list .ready t
  | unuse => exact h.mem_list .unuse t

theorem nodup_contents (h : PlaceInvariant ls none m) (place : Place) :
    (Place.contents ls m place).Nodup := by
  cases place with
  | read => exact (h.isList .read).linked.nodup
  | write => exact (h.isList .write).linked.nodup
  | timer => exact (h.valid .timer).nodup_toList
  | background => exact (h.valid .background).nodup_toList
  | event => exact (h.isList .event).linked.nodup
  | ready => exact (h.isList .ready).linked.nodup
  | unuse => exact (h.isList .unuse).linked.nodup

theorem exists_place {type : ThreadType} (h : type ≠ .execute) :
    ∃ place : Place, place.type=type := by
  cases type with
  | read => exact ⟨.read,rfl⟩
  | write => exact ⟨.write,rfl⟩
  | timer => exact ⟨.timer,rfl⟩
  | event => exact ⟨.event,rfl⟩
  | ready => exact ⟨.ready,rfl⟩
  | background => exact ⟨.background,rfl⟩
  | unused => exact ⟨.unuse,rfl⟩
  | execute => exact absurd rfl h

section

variable (h : PlaceInvariant ls none m)
include h

theorem existsUnique_place {t : ℕ} (ht : t < m.fresh) : ∃! place, t∈Place.contents ls m place := by
  have hn := (some_ne_none t).symm
  obtain ⟨place,hpl⟩ := exists_place (h.known t ht hn)
  refine ⟨place,(mem_contents h place t).mpr ⟨ht,hn,hpl.symm⟩,fun place' hp => ?_⟩
  have hty := ((mem_contents h place' t).mp hp).2.2
  exact Place.type_injective (hty.symm.trans hpl.symm)

/-- The allocated threads are counted by their places. -/
theorem fresh_eq_sum : m.fresh = ∑ place, (Place.contents ls m place).length := by
  have hcover : Finset.range m.fresh =
      Finset.univ.biUnion fun place => (Place.contents ls m place).toFinset := by
    ext t
    simp only [mem_range,mem_biUnion,mem_univ,true_and,List.mem_toFinset]
    constructor
    · intro ht
      exact (existsUnique_place h ht).exists
    · rintro ⟨place,hp⟩
      exact ((mem_contents h place t).mp hp).1
  have hdisjoint : Set.PairwiseDisjoint (↑(Finset.univ : Finset Place))
      fun place => (Place.contents ls m place).toFinset := by
    intro a _ b _ hab
    refine disjoint_left.mpr fun t hta htb => hab ?_
    have ha := ((mem_contents h a t).mp (List.mem_toFinset.mp hta)).2.2
    have hb := ((mem_contents h b t).mp (List.mem_toFinset.mp htb)).2.2
    exact Place.type_injective (ha.symm.trans hb)
  calc m.fresh=(Finset.range m.fresh).card := (card_range _).symm
    _ = ∑ place, (Place.contents ls m place).toFinset.card := by
      rw [hcover,card_biUnion hdisjoint]
    _ = ∑ place, (Place.contents ls m place).length :=
      sum_congr rfl fun place _ => List.toFinset_card_of_nodup (nodup_contents h place)

theorem waits_iff (dir : IoName) (fd t : ℕ) :
    Waits m none dir fd t ↔ t∈ls dir.list ∧ (m.data t).u=.fd fd := by
  rw [Waits,h.mem_list]

end

theorem bookkeeping_of_invariant (h : MasterInvariant ls none m) : Bookkeeping ls m where
  isList := h.place.isList
  live := fun place t ht => ((mem_contents h.place place t).mp ht).1
  one := fun _ ht => existsUnique_place h.place ht
  nodup := nodup_contents h.place
  named := fun place t ht => ((mem_contents h.place place t).mp ht).2.2
  alloc := h.place.alloc.trans (fresh_eq_sum h.place)
  allocated := h.place.alloc
  fd_iff := by
    intro dir fd
    constructor
    · intro hset
      obtain ⟨t,ht⟩ := h.fds.waits dir fd hset
      exact ⟨t,(waits_iff h.place dir fd t).mp ht⟩
    · rintro ⟨t,ht⟩
      exact h.fds.isSet ((waits_iff h.place dir fd t).mpr ht)
  fd_unique := by
    intro dir fd t t' ht hu ht' hu'
    exact h.fds.unique ((waits_iff h.place dir fd t).mpr ⟨ht,hu⟩)
      ((waits_iff h.place dir fd t').mpr ⟨ht',hu'⟩)

end

theorem threadMasterCreate_invariant :
    MasterInvariant (fun _ => []) none (threadMasterCreate arg) := by
  refine ⟨⟨fun name => ?_,fun name t => ?_,fun q => ?_,fun q t => ?_,?_,?_,?_,rfl,?_⟩,⟨?_,?_,?_⟩⟩
  · exact ⟨rfl,rfl,rfl,trivial,List.nodup_nil⟩
  · exact iff_of_false List.not_mem_nil fun h => not_lt_zero t h.1
  · exact ⟨fun i _ hi => absurd hi (not_lt_zero i),fun i hi => absurd hi (not_lt_zero i),
      succ_pos 31⟩
  · refine iff_of_false ?_ fun h => not_lt_zero t h.1
    rintro ⟨i,hi,-⟩
    exact not_lt_zero i hi
  · exact fun t ht => absurd ht (not_lt_zero t)
  · exact fun t ht => absurd ht (not_lt_zero t)
  · exact fun t ht => absurd ht (not_lt_zero t)
  · exact fun t ht => by cases ht
  · exact fun dir fd h => by cases h
  · exact fun {dir fd t} h => absurd h.1.1 (not_lt_zero t)
  · exact fun {dir fd t t'} h => absurd h.1.1 (not_lt_zero t)

/-- What the clients of a master do: calls, and fetches against the rounds
the outside provides. -/
inductive MasterOp (ω : Type) where
  | call (c : MasterCall ω)
  | fetch (rounds : List (Round ω))

variable [DecidableEq ω]

def masterStep (m : ThreadMaster ω) : MasterOp ω→Option (ThreadMaster ω)
  | .call c => masterCall m c
  | .fetch rounds => (threadFetch m rounds).map Prod.fst

/-- Clients and signal handlers pass only threads that the master handed
out. -/
def OpLegal (m : ThreadMaster ω) : MasterOp ω→Prop
  | .call c => CallLegal m c
  | .fetch rounds => FetchLegal rounds m (some ⟨0,0⟩)

instance decidableOpLegal (m : ThreadMaster ω) : ∀ op, Decidable (OpLegal m op)
  | .call c => decidableCallLegal m c
  | .fetch rounds => decidableFetchLegal rounds m (some ⟨0,0⟩)

theorem masterStep_spec (m : ThreadMaster ω) (op : MasterOp ω) (h : InOrder m)
    (hlegal : OpLegal m op) : ∃ m', masterStep m op=some m' ∧ InOrder m' := by
  cases op with
  | call c => exact masterCall_spec m c h hlegal
  | fetch rounds =>
    obtain ⟨m',e,calls,hfetch,hinv⟩ := fetchLoop_spec rounds m (some ⟨0,0⟩) [] h hlegal
    refine ⟨m',?_,hinv⟩
    rw [masterStep,threadFetch,hfetch]
    rfl

theorem masterRun_inOrder (ops : List (MasterOp ω))
    (h : LegalRun masterStep OpLegal (threadMasterCreate arg) ops) :
    ∃ m, run masterStep (threadMasterCreate arg) ops=some m ∧ InOrder m :=
  run_invariant masterStep_spec ops _ ⟨_,threadMasterCreate_invariant arg⟩ h

/-- The books of the master are right after every run. -/
theorem masterRun_bookkeeping (arg : ω) (ops : List (MasterOp ω))
    (h : LegalRun masterStep OpLegal (threadMasterCreate arg) ops) :
    ∃ m ls, run masterStep (threadMasterCreate arg) ops=some m ∧ Bookkeeping ls m := by
  obtain ⟨m,hrun,ls,hinv⟩ := masterRun_inOrder arg ops h
  exact ⟨m,ls,hrun,bookkeeping_of_invariant hinv⟩

/-- Threads are scheduled; a signal handler cancels a timer; ready threads are cancelled. -/
def sampleOps : List (MasterOp ℕ) :=
  [.call (.addRead 1 4),.call (.addTimer 2 ⟨10,0⟩ 5),.call (.addEvent 3 7),
    .call (.addEvent 3 8),.call (.addBackground 2 ⟨10,0⟩ 0),
    .fetch [⟨[],⟨10,0⟩,.interrupted ⟨0,0⟩,⟨11,0⟩⟩,
      ⟨[.cancel 1],⟨11,0⟩,.returned 1 (fun fd => fd == 4) (fun _ => false) ⟨0,0⟩,⟨12,0⟩⟩],
    .call (.cancel 3),.call (.cancelEvent 3),.call (.addWrite 1 4)]

theorem masterRun_bookkeeping_sampleOps :
    LegalRun masterStep OpLegal (threadMasterCreate 0) sampleOps ∧
      ∃ m ls, run masterStep (threadMasterCreate 0) sampleOps=some m ∧ Bookkeeping ls m :=
  have hlegal : LegalRun masterStep OpLegal (threadMasterCreate 0) sampleOps := by decide
  ⟨hlegal,masterRun_bookkeeping 0 sampleOps hlegal⟩

/-! ### Waiting

The waiting time is a variable of `thread_fetch` that outlives a round, and a
round computes it only when no thread is ready. In the first round it starts
as zero. In a later round that finds events it is what the round before left.
-/

/-- A call of `select` that does not sleep on ready threads. -/
def NoSleep (c : SelectCall) : Prop := c.isReady=true → c.timeout=some ⟨0,0⟩

/-- Behind the handlers a thread is ready, or no event waits. -/
def FindsNoEvents (m : ThreadMaster ω) (round : Round ω) : Prop :=
  ∀ m1, run masterCall m round.handlers=some m1 →
    (m1.list .ready).head≠none ∨ (m1.list .event).head=none

/-- No round that is reached finds events. -/
def QuietRounds : List (Round ω)→ThreadMaster ω→Option Timeval→Prop
  | [], _, _ => True
  | round::rounds, m, timerWait =>
    FindsNoEvents m round ∧
      ∀ m' timerWait' call, fetchRound m timerWait round=some (m',.again timerWait',call) →
        QuietRounds rounds m' timerWait'

/-- No round of the call but the first finds events. -/
def QuietAfterFirst (m : ThreadMaster ω) : List (Round ω)→Prop
  | [] => True
  | round::rounds =>
    ∀ m' timerWait call, fetchRound m (some ⟨0,0⟩) round=some (m',.again timerWait,call) →
      QuietRounds rounds m' timerWait

section

variable {m m' : ThreadMaster ω} {timerWait : Option Timeval} {round : Round ω} {e : RoundEnd ω}
  {call : Option SelectCall}

section

variable (h : InOrder m) (hlegal : LegalRun masterCall CallLegal m round.handlers)
include h hlegal

theorem fetchRound_call (hrd : fetchRound m timerWait round=some (m',e,call)) :
    InOrder m' ∧ ∃ m1 ls, run masterCall m round.handlers=some m1 ∧
      MasterInvariant ls none m1 ∧ ∀ c, call=some c → ls .ready=[] ∧
        (c.isReady=true ↔ ls .event≠[]) ∧ (c.isReady=true → c.timeout=timerWait) := by
  obtain ⟨m1,hrun,ls,hinv⟩ := run_invariant masterCall_spec round.handlers m h hlegal
  obtain ⟨m'',e',call',hrd',hinv',hcall⟩ := afterHandlers_spec hinv timerWait round hrun
  rw [hrd] at hrd'
  cases hrd'
  exact ⟨hinv',m1,ls,hrun,hinv,hcall⟩

theorem noSleep_of_findsNoEvents (hquiet : FindsNoEvents m round)
    (hrd : fetchRound m timerWait round=some (m',e,call)) : ∀ c∈call, NoSleep c := by
  obtain ⟨-,m1,ls,hrun,hinv,hcall⟩ := fetchRound_call h hlegal hrd
  intro c hc hrdy
  obtain ⟨hemp,hevents,-⟩ := hcall c hc
  refine absurd ?_ (hevents.mp hrdy)
  rcases hquiet m1 hrun with hhead|hhead
  · rw [(hinv.place.isList .ready).head,hemp] at hhead
    exact absurd List.head?_nil hhead
  rw [(hinv.place.isList .event).head] at hhead
  exact List.head?_eq_none_iff.mp hhead

theorem noSleep_of_zero
    (hrd : fetchRound m (some ⟨0,0⟩) round=some (m',e,call)) : ∀ c∈call, NoSleep c := by
  obtain ⟨-,m1,ls,hrun,hinv,hcall⟩ := fetchRound_call h hlegal hrd
  intro c hc
  exact (hcall c hc).2.2

end

theorem fetchLoop_quiet (rounds : List (Round ω)) :
    ∀ (m : ThreadMaster ω) (timerWait : Option Timeval) (calls : List SelectCall),
      InOrder m → FetchLegal rounds m timerWait→QuietRounds rounds m timerWait →
      (∀ c∈calls, NoSleep c) →
      ∃ m' e calls', fetchLoop rounds m timerWait calls=some (m',e,calls') ∧
        ∀ c∈calls', NoSleep c := by
  induction rounds with
  | nil =>
    intro m timerWait calls _ _ _ hcalls
    exact ⟨m,_,calls,rfl,hcalls⟩
  | cons round rounds ih =>
    intro m timerWait calls h hlegal hquiet hcalls
    obtain ⟨hhandlers,hrs⟩ := hlegal
    obtain ⟨hnone,hnext⟩ := hquiet
    obtain ⟨m',e,call,hrd,hinv⟩ := fetchRound_spec h timerWait round hhandlers
    have hcall := noSleep_of_findsNoEvents h hhandlers hnone hrd
    rw [hrd] at hrs
    have hcalls' : ∀ c∈calls++call.toList, NoSleep c := by
      intro c hc
      rcases List.mem_append.mp hc with hc|hc
      · exact hcalls c hc
      · exact hcall c (mem_toList.mp hc)
    simp only [fetchLoop,bind_eq_bind]
    rw [hrd,bind_some]
    cases e with
    | fetched fetch | failed => exact ⟨m',_,_,rfl,hcalls'⟩
    | again timerWait' => exact ih m' timerWait' _ hinv hrs (hnext m' timerWait' call hrd) hcalls'

theorem threadFetch_quiet (h : InOrder m) (rounds : List (Round ω))
    (hlegal : FetchLegal rounds m (some ⟨0,0⟩)) (hquiet : QuietAfterFirst m rounds) :
    ∃ m' e calls, threadFetch m rounds=some (m',e,calls) ∧ ∀ c∈calls, NoSleep c := by
  cases rounds with
  | nil => exact ⟨m,_,[],rfl,fun c hc => absurd hc List.not_mem_nil⟩
  | cons round rounds =>
    obtain ⟨hhandlers,hrs⟩ := hlegal
    obtain ⟨m',e,call,hrd,hinv⟩ := fetchRound_spec h (some ⟨0,0⟩) round hhandlers
    have hcall := noSleep_of_zero h hhandlers hrd
    have hcalls : ∀ c∈[]++call.toList, NoSleep c := by
      intro c hc
      rw [List.nil_append] at hc
      exact hcall c (mem_toList.mp hc)
    rw [hrd] at hrs
    simp only [threadFetch,fetchLoop,bind_eq_bind]
    rw [hrd,bind_some]
    cases e with
    | fetched fetch | failed => exact ⟨m',_,_,rfl,hcalls⟩
    | again timerWait =>
      exact fetchLoop_quiet rounds m' timerWait _ hinv hrs (hquiet m' timerWait call hrd) hcalls

end

/-- From every reachable state: a call whose later rounds find no events never sleeps on ready
threads. -/
theorem threadFetch_noSleep (arg : ω) (ops : List (MasterOp ω)) (rounds : List (Round ω))
    (m : ThreadMaster ω) (h : LegalRun masterStep OpLegal (threadMasterCreate arg) ops)
    (hm : run masterStep (threadMasterCreate arg) ops=some m)
    (hlegal : FetchLegal rounds m (some ⟨0,0⟩)) (hquiet : QuietAfterFirst m rounds) :
    ∃ m' e calls, threadFetch m rounds=some (m',e,calls) ∧ ∀ c∈calls, NoSleep c := by
  obtain ⟨m1,hrun,hinv⟩ := masterRun_inOrder arg ops h
  rw [hm] at hrun
  cases hrun
  exact threadFetch_quiet hinv rounds hlegal hquiet

/-- An event is waiting when the call starts, and `select` is interrupted. -/
def quietRounds : List (Round ℕ) :=
  [⟨[],⟨10,0⟩,.interrupted ⟨0,0⟩,⟨10,0⟩⟩,⟨[],⟨10,0⟩,.interrupted ⟨0,0⟩,⟨10,0⟩⟩]

theorem threadFetch_noSleep_quietRounds :
    ∃ m, run masterStep (threadMasterCreate 0) [.call (.addEvent 0 1)]=some m ∧
      ∃ m' e calls, threadFetch m quietRounds=some (m',e,calls) ∧ ∀ c∈calls, NoSleep c := by
  have hrun : run masterStep (threadMasterCreate 0) [.call (.addEvent 0 1)] =
      some (threadAddEvent (threadMasterCreate 0) 0 1).1 := rfl
  refine ⟨_,hrun,threadFetch_noSleep 0 [.call (.addEvent 0 1)] quietRounds _ (by decide) hrun
    (by decide) ?_⟩
  intro m' timerWait call hround
  have hhead : (fetchRound (threadAddEvent (threadMasterCreate 0) 0 1).1 (some ⟨0,0⟩)
      ⟨[],⟨10,0⟩,.interrupted ⟨0,0⟩,⟨10,0⟩⟩).map (fun r => (r.1.list .ready).head) =
      some (some 0) := by decide
  rw [hround,map_some] at hhead
  refine ⟨fun m1 hm1 => ?_,fun m'' timerWait' call' _ => trivial⟩
  cases hm1
  exact .inl (by rw [some.inj hhead]; decide)

/-- A signal interrupts `select` while nothing is scheduled; its handler adds
an event. -/
def staleRounds : List (Round ℕ) :=
  [⟨[],⟨10,0⟩,.interrupted ⟨0,0⟩,⟨10,0⟩⟩,⟨[.addEvent 0 1],⟨10,0⟩,.interrupted ⟨0,0⟩,⟨10,0⟩⟩]

/-- The second call of `select` has no timeout although the event is ready. -/
theorem threadFetch_sleeps : FetchLegal staleRounds (threadMasterCreate 0) (some ⟨0,0⟩) ∧
      ((threadFetch (threadMasterCreate 0) staleRounds).map fun r => r.2.2) =
        some [⟨false,none⟩,⟨true,none⟩] ∧ ¬NoSleep ⟨true,none⟩ := by
  refine ⟨by decide,by decide,fun h => ?_⟩
  have hbad := h rfl
  cases hbad

end RoutePlatform.ThreadRuns
