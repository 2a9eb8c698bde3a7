import RoutePlatform.ThreadScheduling

/-!
# Specifications of the loops over lists and queues

The loops of `lib/thread.c` walk over a list while they take threads from it,
or drain the front of a timer queue. Each specification carries the part of
the list that is still to be visited.
-/

namespace RoutePlatform.ThreadProcessing

open LinkedNodes ThreadOperations ThreadInvariant ThreadScheduling Function List

variable {ω : Type} {ls : ListName→List ℕ} {m : ThreadMaster ω} {name : ListName}
  {m' : ThreadMaster ω} {q : QueueName} {t : ℕ} {xs : List ℕ}

theorem rounds_eq {hand : Option ℕ} (h : PlaceInvariant ls hand m) (name : ListName) :
    m.rounds name=(ls name).length+1 := by
  rw [ThreadMaster.rounds,(h.isList name).count,Int.toNat_natCast]

theorem not_waits_of_list (h : PlaceInvariant ls none m) (ht : t∈ls name)
    (hio : ∀ dir : IoName, name.type≠dir.list.type) (dir : IoName) (fd : ℕ) :
    ¬Waits m none dir fd t := by
  refine not_waits_of_type (fun dir => ?_) dir fd
  rw [((h.mem_list name t).mp ht).2.2]
  exact hio dir

theorem waits_of_list {dir : IoName} (h : PlaceInvariant ls none m) (ht : t∈ls dir.list) :
    ∃ fd, Waits m none dir fd t := by
  have hp := (h.mem_list dir.list t).mp ht
  have htag := h.tagged t hp.1 hp.2.1
  unfold Tagged at htag
  rw [hp.2.2] at htag
  have hfd : ∃ fd, (m.data t).u=.fd fd := by cases dir <;> exact htag
  obtain ⟨fd,hfd⟩ := hfd
  exact ⟨fd,hp,hfd⟩

theorem next_of_split {as bs : List ℕ} (h : PlaceInvariant ls none m) (hls : ls name=as++t::bs) :
    (m.threads t).next=bs.head? ∧ t∈ls name := by
  have hlnk := (h.isList name).linked
  rw [hls] at hlnk ⊢
  exact ⟨hlnk.neighbours.2,mem_append_right _ mem_cons_self⟩

section

variable [DecidableEq ω] (arg : ω)

theorem cancelEventLoop_spec (hname : name ≠ .unuse) (hio : ∀ dir : IoName, name.type≠dir.list.type) :
    ∀ (bs as : List ℕ) (fuel ret : ℕ) (ls : ListName → List ℕ) (m : ThreadMaster ω),
      MasterInvariant ls none m → ls name=as++bs → bs.length<fuel →
      ∃ m' ret' ls', cancelEventLoop name arg fuel bs.head? m ret=some (m',ret') ∧
        MasterInvariant ls' none m' ∧ m'.fresh=m.fresh := by
  intro bs
  induction bs with
  | nil =>
    intro as fuel ret ls m h hls hfuel
    obtain ⟨fuel,rfl⟩ := Nat.exists_eq_add_of_lt hfuel
    exact ⟨m,ret,ls,by rw [head?_nil]; rfl,h,rfl⟩
  | cons t bs ih =>
    intro as fuel ret ls m h hls hfuel
    rw [length_cons] at hfuel
    obtain ⟨fuel,rfl⟩ : ∃ k, fuel=k+1 := ⟨fuel-1,by omega⟩
    obtain ⟨hnext,htmem⟩ := next_of_split h.place hls
    rw [head?_cons,cancelEventLoop,hnext]
    by_cases harg : (m.data t).arg=arg
    · rw [if_pos harg]
      have hf := fds_drop h.fds (not_waits_of_list h.place htmem hio)
      obtain ⟨m1,hm1,hret,hinv⟩ := cancelListed_spec h.place hf hls
      have hls1 : update (update ls name (as++bs)) .unuse
          (update ls name (as++bs) .unuse++[t]) name=as++bs := by
        rw [update_of_ne hname,update_self]
      obtain ⟨m',ret',ls',hrun,hinv',hfresh⟩ := ih as fuel (ret+1) _ m1 hinv hls1 (by omega)
      refine ⟨m',ret',ls',?_,hinv',hfresh.trans hret.fresh⟩
      rw [hm1]
      exact hrun
    · rw [if_neg harg]
      have hls1 : ls name=(as++[t])++bs := by rw [hls,append_assoc,singleton_append]
      exact ih (as++[t]) fuel ret ls m h hls1 (by omega)

theorem cancelEventLoop_all (name : ListName) (h : MasterInvariant ls none m)
    (hname : name ≠ .unuse) (hio : ∀ dir : IoName, name.type≠dir.list.type) (ret : ℕ) :
    ∃ m' ret' ls', cancelEventLoop name arg (m.rounds name) (m.list name).head m ret =
        some (m',ret') ∧ MasterInvariant ls' none m' ∧ m'.fresh=m.fresh := by
  rw [rounds_eq h.place,(h.place.isList name).head]
  exact cancelEventLoop_spec arg hname hio (ls name) [] _ ret ls m h rfl (Nat.lt_succ_self _)

theorem threadCancelEvent_spec (h : MasterInvariant ls none m) :
    ∃ m' ret ls', threadCancelEvent m arg=some (m',ret) ∧ MasterInvariant ls' none m' ∧
      m'.fresh=m.fresh := by
  obtain ⟨m1,ret1,ls1,h₁,hinv1,hfresh1⟩ :=
    cancelEventLoop_all arg .event h (by decide) (fun dir => by cases dir <;> decide) 0
  obtain ⟨m2,ret2,ls2,h₂,hinv2,hfresh2⟩ :=
    cancelEventLoop_all arg .ready hinv1 (by decide) (fun dir => by cases dir <;> decide) ret1
  refine ⟨m2,ret2,ls2,?_,hinv2,hfresh2.trans hfresh1⟩
  simp only [threadCancelEvent,Option.bind_eq_bind]
  rw [h₁,Option.bind_some]
  exact h₂

end

section

variable {ls : ListName→List ℕ} {m : ThreadMaster ω} {t : ℕ}

/-- A thread that becomes ready keeps its contents but for its type. -/
structure MadeReady (m m' : ThreadMaster ω) (moved : List ℕ) : Prop where
  type_eq : ∀ {x}, x∈moved → (m'.data x).type=.ready
  union_eq : ∀ x, (m'.data x).u=(m.data x).u
  content : ∀ {x}, x ∉ moved → content (m'.data x)=content (m.data x)
  fresh : m'.fresh=m.fresh

theorem MadeReady.refl (m : ThreadMaster ω) : MadeReady m m [] :=
  ⟨fun hx => absurd hx not_mem_nil,fun _ => rfl,fun _ => rfl,rfl⟩

theorem MadeReady.trans {m1 m2 m3 : ThreadMaster ω} {ys : List ℕ} (h₁ : MadeReady m1 m2 xs)
    (h₂ : MadeReady m2 m3 ys) : MadeReady m1 m3 (xs++ys) where
  type_eq := by
    intro x hx
    by_cases hy : x∈ys
    · exact h₂.type_eq hy
    have hxs := (mem_append.mp hx).resolve_right hy
    exact (congrArg Prod.fst (h₂.content hy)).trans (h₁.type_eq hxs)
  union_eq := fun x => (h₂.union_eq x).trans (h₁.union_eq x)
  content := by
    intro x hx
    rw [mem_append,not_or] at hx
    exact (h₂.content hx.2).trans (h₁.content hx.1)
  fresh := h₂.fresh.trans h₁.fresh

theorem ready_spec (h : MasterInvariant ls (some t) m) :
    MasterInvariant (update ls .ready (ls .ready++[t])) none
        (threadListAdd (m.setData t (withType .ready)) .ready t) ∧
      MadeReady m (threadListAdd (m.setData t (withType .ready)) .ready t) [t] := by
  have hself : (m.setData t (withType .ready)).data t=withType .ready (m.data t) := by
    rw [data_setData,if_pos rfl]
  have hoth : ∀ {x}, x≠t → (m.setData t (withType .ready)).data x=m.data x := by
    intro x hx
    rw [data_setData,if_neg hx]
  have hty : ((m.setData t (withType .ready)).data t).type=.ready := by
    rw [hself]
    rfl
  refine ⟨give_spec (edit_spec h _) hty fun dir => by cases dir <;> decide,?_,?_,?_,rfl⟩
  · intro x hx
    rw [mem_singleton.mp hx,data_threadListAdd,hty]
  · intro x
    rw [data_threadListAdd]
    by_cases hx : x=t
    · rw [hx,hself]
      rfl
    · rw [hoth hx]
  intro x hx
  rw [data_threadListAdd,hoth (fun he => hx (mem_singleton.mpr he))]

theorem MadeReady.of_delete (h : MadeReady (threadListDelete m name t) m' xs) :
    MadeReady m m' xs where
  type_eq := h.type_eq
  union_eq := fun x => (h.union_eq x).trans (by rw [data_threadListDelete])
  content := fun hx => (h.content hx).trans (by rw [data_threadListDelete])
  fresh := h.fresh

theorem processLoop_spec (hname : name ≠ .ready) (hio : ∀ dir : IoName, name.type≠dir.list.type) :
    ∀ (bs : List ℕ) (fuel ready : ℕ) (ls : ListName → List ℕ) (m : ThreadMaster ω),
      MasterInvariant ls none m → ls name=bs → bs.length<fuel →
      ∃ m' ready' ls', processLoop name fuel bs.head? m ready=some (m',ready') ∧
        MasterInvariant ls' none m' ∧ ls' .ready=ls .ready++bs ∧ MadeReady m m' bs := by
  intro bs
  induction bs with
  | nil =>
    intro fuel ready ls m h hls hfuel
    obtain ⟨fuel,rfl⟩ := Nat.exists_eq_add_of_lt hfuel
    exact ⟨m,ready,ls,by rw [head?_nil]; rfl,h,(append_nil _).symm,.refl m⟩
  | cons t bs ih =>
    intro fuel ready ls m h hls hfuel
    rw [length_cons] at hfuel
    obtain ⟨fuel,rfl⟩ : ∃ k, fuel=k+1 := ⟨fuel-1,by omega⟩
    have hcut : ls name=[]++t::bs := hls
    obtain ⟨hnext,htmem⟩ := next_of_split h.place hcut
    have hf := fds_drop h.fds (not_waits_of_list h.place htmem hio)
    obtain ⟨hinv1,hmade1⟩ := ready_spec (take_spec h.place hf hcut)
    have hls1 : update (update ls name ([]++bs)) .ready
        (update ls name ([]++bs) .ready++[t]) name=bs := by
      rw [update_of_ne hname,update_self,nil_append]
    obtain ⟨m',ready',ls',hrun,hinv',hrdy,hmade⟩ := ih fuel (ready+1) _ _ hinv1 hls1 (by omega)
    refine ⟨m',ready',ls',?_,hinv',?_,hmade1.of_delete.trans hmade⟩
    · rw [head?_cons,processLoop,hnext]
      exact hrun
    rw [hrdy,update_self,update_of_ne hname.symm,append_assoc,singleton_append]

theorem threadProcess_spec (h : MasterInvariant ls none m) :
    ∃ m' n ls', threadProcess m .event=some (m',n) ∧ MasterInvariant ls' none m' ∧
      ls' .ready=ls .ready++ls .event ∧ MadeReady m m' (ls .event) := by
  rw [threadProcess,rounds_eq h.place,(h.place.isList .event).head]
  exact processLoop_spec (by decide) (fun dir => by cases dir <;> decide) (ls .event) _ 0 ls m h
    rfl (Nat.lt_succ_self _)

/-- It makes no difference whether the type is set before or after the thread
joins the list. -/
theorem threadListAdd_setData (m : ThreadMaster ω) (name : ListName) (t : ℕ)
    (f : ThreadData ω→ThreadData ω) :
    (threadListAdd m name t).setData t f=threadListAdd (m.setData t f) name t := by
  have hthreads : ((threadListAdd m name t).setData t f).threads =
      (threadListAdd (m.setData t f) name t).threads := by
    funext k
    have hdata : ((threadListAdd m name t).setData t f).data k =
        (threadListAdd (m.setData t f) name t).data k := by
      rw [data_setData,data_threadListAdd,data_threadListAdd,data_threadListAdd,data_setData]
    obtain ⟨h1,h2⟩ := links_setData (threadListAdd m name t) t k f
    refine Node.ext (h1.trans ?_) (h2.trans ?_) hdata
    · simp only [threads_threadListAdd,attachTail,next_setNext,next_setPrev,
        (links_setData m t k f).1]
      rfl
    simp only [threads_threadListAdd,attachTail,prev_setNext,prev_setPrev,(links_setData m t k f).2]
    rfl
  calc (threadListAdd m name t).setData t f
      = {threadListAdd m name t with threads := ((threadListAdd m name t).setData t f).threads} :=
        rfl
    _ = {threadListAdd m name t with
          threads := (threadListAdd (m.setData t f) name t).threads} := by rw [hthreads]
    _=threadListAdd (m.setData t f) name t := rfl

/-- `thread_process_fd` ends, and its assertion holds. -/
theorem processFdLoop_spec (dir : IoName) (fdset : ℕ→Bool) :
    ∀ (bs as : List ℕ) (fuel ready : ℕ) (ls : ListName → List ℕ) (m : ThreadMaster ω),
      MasterInvariant ls none m → ls dir.list=as++bs → bs.length<fuel →
      ∃ m' ready' ls' moved, processFdLoop dir fdset fuel bs.head? m ready=some (m',ready') ∧
        MasterInvariant ls' none m' ∧ MadeReady m m' moved := by
  have hname : dir.list ≠ .ready := by cases dir <;> decide
  intro bs
  induction bs with
  | nil =>
    intro as fuel ready ls m h hls hfuel
    obtain ⟨fuel,rfl⟩ := Nat.exists_eq_add_of_lt hfuel
    exact ⟨m,ready,ls,[],by rw [head?_nil]; rfl,h,.refl m⟩
  | cons t bs ih =>
    intro as fuel ready ls m h hls hfuel
    rw [length_cons] at hfuel
    obtain ⟨fuel,rfl⟩ : ∃ k, fuel=k+1 := ⟨fuel-1,by omega⟩
    obtain ⟨hnext,htmem⟩ := next_of_split h.place hls
    obtain ⟨fd,hw⟩ := waits_of_list h.place htmem
    have hfd : (m.data t).u.getFd=fd := by
      rw [hw.2]
      rfl
    rw [head?_cons,processFdLoop,hnext,hfd]
    dsimp only
    by_cases hset : fdset fd=true
    · rw [if_pos hset,if_pos (h.fds.isSet hw),threadListAdd_setData]
      have htaken := take_spec (setFd_place h.place dir fd false) (fds_clear h.fds hw) hls
      obtain ⟨hinv1,hmade1⟩ := ready_spec htaken
      have hls1 : update (update ls dir.list (as++bs)) .ready
          (update ls dir.list (as++bs) .ready++[t]) dir.list=as++bs := by
        rw [update_of_ne hname,update_self]
      obtain ⟨m',ready',ls',moved,hrun,hinv',hmade⟩ :=
        ih as fuel (ready+1) _ _ hinv1 hls1 (by omega)
      have hmade' := hmade1.of_delete.trans hmade
      exact ⟨m',ready',ls',[t]++moved,hrun,hinv',hmade'.type_eq,hmade'.union_eq,
        hmade'.content,hmade'.fresh⟩
    · rw [if_neg hset]
      have hls1 : ls dir.list=(as++[t])++bs := by rw [hls,append_assoc,singleton_append]
      exact ih (as++[t]) fuel ready ls m h hls1 (by omega)

theorem threadProcessFd_spec (h : MasterInvariant ls none m) (dir : IoName) (fdset : ℕ→Bool) :
    ∃ m' n ls' moved, threadProcessFd m dir fdset=some (m',n) ∧
      MasterInvariant ls' none m' ∧ MadeReady m m' moved := by
  rw [threadProcessFd,rounds_eq h.place,(h.place.isList dir.list).head]
  exact processFdLoop_spec dir fdset (ls dir.list) [] _ 0 ls m h rfl (Nat.lt_succ_self _)

theorem fire_spec (h : MasterInvariant ls none m) (hsize : 0<(m.queue q).size)
    (ht : (m.queue q).array 0=t) :
    MasterInvariant (update ls .ready (ls .ready++[t])) none (fire m q t) ∧
      MadeReady m (fire m q t) [t] ∧
      ((fire m q t).queue q).size+1=(m.queue q).size := by
  obtain ⟨htaken,hstep,hsize'⟩ := takeQueue_spec h hsize ht
  obtain ⟨hinv,hmade⟩ := ready_spec htaken
  refine ⟨hinv,⟨hmade.type_eq,fun x => ?_,fun {x} hx => ?_,?_⟩,hsize'⟩
  · exact (hmade.union_eq x).trans (congrArg (fun c => c.2.2) (hstep.content_eq x))
  · exact (hmade.content hx).trans (hstep.content_eq x)
  · exact hmade.fresh.trans hstep.fresh

/-- `thread_timer_process`: exactly the due timers become ready, by alarm. -/
structure TimersProcessed (ls : ListName→List ℕ) (m : ThreadMaster ω) (q : QueueName)
    (timenow : Timeval) (ls' : ListName→List ℕ) (m' : ThreadMaster ω) (moved : List ℕ) : Prop where
  inv : MasterInvariant ls' none m'
  /-- The timers go behind the threads that are ready already. -/
  ready_eq : ls' .ready=ls .ready++moved
  made : MadeReady m m' moved
  nodup : moved.Nodup
  mem_iff : ∀ t, t∈moved ↔ Placed m none t q.type ∧ alarm m.threads t≤timeKey timenow
  sorted : moved.Pairwise fun a b => alarm m.threads a≤alarm m.threads b

theorem alarm_of_union (h : ∀ x, (m'.data x).u=(m.data x).u) :
    alarm m'.threads=alarm m.threads := by
  funext x
  exact congrArg (fun u => timeKey u.getSands) (h x)

theorem alarm_root_le (h : PlaceInvariant ls none m) (ht : (m.queue q).array 0=t) {x : ℕ}
    (hx : Placed m none x q.type) : alarm m.threads t≤alarm m.threads x := by
  obtain ⟨i,hi,hix⟩ := (h.mem_queue q x).mpr hx
  have hle := (h.valid q).order.root_le i hi
  rwa [ht,hix] at hle

theorem timerProcessLoop_spec (q : QueueName) (timenow : Timeval) :
    ∀ (n fuel : ℕ) (ls : ListName → List ℕ) (m : ThreadMaster ω) (fired : List ℕ),
      MasterInvariant ls none m → (m.queue q).size=n → n<fuel →
      ∃ m' ls' moved, timerProcessLoop q timenow fuel m fired=some (m',fired++moved) ∧
        TimersProcessed ls m q timenow ls' m' moved := by
  intro n
  induction n with
  | zero =>
    intro fuel ls m fired h hn hfuel
    obtain ⟨fuel,rfl⟩ := Nat.exists_eq_add_of_lt hfuel
    refine ⟨m,ls,[],?_,h,(append_nil _).symm,.refl m,nodup_nil,?_,.nil⟩
    · rw [timerProcessLoop,if_neg (by rw [hn]; decide),append_nil]
    intro t
    refine iff_of_false not_mem_nil fun ht => ?_
    obtain ⟨i,hi,-⟩ := (h.place.mem_queue q t).mpr ht.1
    omega
  | succ n ih =>
    intro fuel ls m fired h hn hfuel
    obtain ⟨fuel,rfl⟩ : ∃ k, fuel=k+1 := ⟨fuel-1,by omega⟩
    obtain ⟨t,ht⟩ : ∃ t, (m.queue q).array 0=t := ⟨_,rfl⟩
    have htp := (h.place.mem_queue q t).mp ⟨0,by omega,ht⟩
    rw [timerProcessLoop,if_pos (by omega),ht]
    by_cases hdue : timevalCmp timenow (m.data t).u.getSands<0
    · rw [if_pos hdue]
      have hlate : timeKey timenow<alarm m.threads t := (timevalCmp_neg_iff _ _).mp hdue
      refine ⟨m,ls,[],by rw [append_nil],h,(append_nil _).symm,.refl m,nodup_nil,fun x => ?_,.nil⟩
      refine iff_of_false not_mem_nil fun hx => ?_
      exact absurd (hlate.trans_le ((alarm_root_le h.place ht hx.1).trans hx.2)) (lt_irrefl _)
    rw [if_neg hdue]
    have hnow : alarm m.threads t≤timeKey timenow := by
      rw [timevalCmp_neg_iff] at hdue
      exact not_lt.mp hdue
    obtain ⟨hinv1,hmade1,hsize1⟩ := fire_spec h (by omega) ht
    have halarm := alarm_of_union hmade1.union_eq
    obtain ⟨m',ls',moved,hrun,hdone⟩ :=
      ih fuel _ (fire m q t) (fired++[t]) hinv1 (by omega) (by omega)
    have hplaced : ∀ x, Placed (fire m q t) none x q.type ↔ Placed m none x q.type ∧ x≠t := by
      intro x
      by_cases hx : x=t
      · rw [hx]
        refine iff_of_false (fun hp => ?_) fun hp => hp.2 rfl
        have hty := hmade1.type_eq (mem_singleton_self t)
        have hbad := hp.2.2.symm.trans hty
        revert hbad
        cases q <;> decide
      have hc := hmade1.content fun hmem => hx (mem_singleton.mp hmem)
      rw [placed_congr hmade1.fresh hc]
      exact ⟨fun hp => ⟨hp,hx⟩,fun hp => hp.1⟩
    have hmem : ∀ x, x∈moved ↔
        (Placed m none x q.type ∧ x≠t) ∧ alarm m.threads x≤timeKey timenow := by
      intro x
      rw [hdone.mem_iff,hplaced,halarm]
    have hsrt := hdone.sorted
    rw [halarm] at hsrt
    refine ⟨m',ls',t::moved,?_,hdone.inv,?_,hmade1.trans hdone.made,?_,?_,?_⟩
    · rw [hrun,append_assoc,singleton_append]
    · rw [hdone.ready_eq,update_self,append_assoc,singleton_append]
    · exact nodup_cons.mpr ⟨fun hmem' => ((hmem t).mp hmem').1.2 rfl,hdone.nodup⟩
    · intro x
      rw [mem_cons,hmem]
      by_cases hx : x=t
      · rw [hx]
        exact iff_of_true (.inl rfl) ⟨htp,hnow⟩
      · simp [hx]
    refine pairwise_cons.mpr ⟨fun x hx => ?_,hsrt⟩
    exact alarm_root_le h.place ht ((hmem x).mp hx).1.1

theorem threadTimerProcess_spec (h : MasterInvariant ls none m) (q : QueueName)
    (timenow : Timeval) :
    ∃ m' ls' moved, threadTimerProcess m q timenow=some (m',moved) ∧
      TimersProcessed ls m q timenow ls' m' moved :=
  timerProcessLoop_spec q timenow _ _ ls m [] h rfl (Nat.lt_succ_self _)

end

end RoutePlatform.ThreadProcessing
