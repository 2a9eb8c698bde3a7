import RoutePlatform.ThreadOperations

/-!
# Where the threads of a master are

Every operation of the scheduler takes a thread from the place its type names and gives it to
another one. In between it is in the hand of the operation. The invariant has the hand as a
parameter, so that every operation is a composition of taking and giving.
-/

namespace RoutePlatform.ThreadInvariant

open LinkedNodes PriorityQueue BinaryHeap ThreadOperations Function List Option

variable {ω : Type} {m : ThreadMaster ω} {hand : Option ℕ} {q : QueueName} {t : ℕ} (k : ℕ) {x : ℕ}
  {name : ListName} {xs : List ℕ} {m' : ThreadMaster ω} {as bs : List ℕ} (a b : Timeval)

/-- Alarm times are compared by seconds first. -/
def timeKey (a : Timeval) : ℤ ×ₗ ℤ := toLex (a.tvSec,a.tvUsec)

theorem timevalCmp_neg_iff : timevalCmp a b<0 ↔ timeKey a<timeKey b := by
  unfold timevalCmp timeKey
  rw [Prod.Lex.toLex_lt_toLex]
  split <;> omega

theorem timevalCmp_pos_iff : 0<timevalCmp a b ↔ timeKey b<timeKey a := by
  unfold timevalCmp timeKey
  rw [Prod.Lex.toLex_lt_toLex]
  split <;> omega

/-- The alarm time of a thread. -/
def alarm (threads : Memory (ThreadData ω)) (t : ℕ) : ℤ ×ₗ ℤ := timeKey (threads t).data.u.getSands

def position (threads : Memory (ThreadData ω)) (t : ℕ) : ℤ := (threads t).data.index

/-- The callbacks the master gives to its queues do what the queue expects. -/
theorem timerCallbacks (threads : Memory (ThreadData ω)) :
    Callbacks (threadTimerCmp threads) threadTimerUpdate (alarm threads)
      (position : Memory (ThreadData ω)→ℕ→ℤ) where
  neg_iff := by
    intro a b
    unfold threadTimerCmp alarm
    rw [←timevalCmp_neg_iff]
    dsimp only
    split
    · simp_all
    · split <;> simp_all
  pos_iff := by
    intro a b
    unfold threadTimerCmp alarm
    rw [←timevalCmp_pos_iff]
    dsimp only
    split
    · simp_all
      omega
    · split <;> simp_all
  track_self := by
    intro a i s
    simp [threadTimerUpdate,position]
  track_other := by
    intro a b i s hne
    simp [threadTimerUpdate,position,update_of_ne hne]

/-- The contents of a thread that do not depend on its position in a queue. -/
def content (d : ThreadData ω) : ThreadType × ω × ThreadUnion := (d.type,d.arg,d.u)

/-- The thread is allocated, in nobody's hand, and of this type. -/
def Placed (m : ThreadMaster ω) (hand : Option ℕ) (t : ℕ) (type : ThreadType) : Prop :=
  t < m.fresh ∧ hand≠some t ∧ (m.data t).type=type

/-- The threads `xs` form a list with this head. -/
structure IsList (threads : Memory (ThreadData ω)) (l : ThreadList) (xs : List ℕ) : Prop where
  head : l.head=xs.head?
  tail : l.tail=xs.getLast?
  count : l.count=xs.length
  linked : Linked threads xs

/-- The union holds the member that the type calls for. -/
def Tagged (d : ThreadData ω) : Prop :=
  match d.type with
  | .read | .write => ∃ fd, d.u=.fd fd
  | .timer | .background => ∃ sands, d.u=.sands sands
  | _ => True

/-- Every thread is in the place its type names. -/
structure PlaceInvariant (ls : ListName→List ℕ) (hand : Option ℕ) (m : ThreadMaster ω) :
    Prop where
  isList : ∀ name, IsList m.threads (m.list name) (ls name)
  mem_list : ∀ name t, t∈ls name ↔ Placed m hand t name.type
  /-- The queues are heaps, and every thread knows its position. -/
  valid : ∀ name, Valid (alarm m.threads) position (m.queue name) m.threads
  mem_queue : ∀ name t, (m.queue name).Mem t ↔ Placed m hand t name.type
  loose : ∀ t, t < m.fresh → (hand=some t ∨ ∃ name : QueueName, (m.data t).type=name.type) →
    (m.threads t).next=none ∧ (m.threads t).prev=none
  known : ∀ t, t < m.fresh → hand≠some t → (m.data t).type ≠ .execute
  tagged : ∀ t, t < m.fresh → hand≠some t → Tagged (m.data t)
  alloc : m.alloc=m.fresh
  handLive : ∀ t, hand=some t → t < m.fresh

/-- A thread that waits for a descriptor. -/
def Waits (m : ThreadMaster ω) (hand : Option ℕ) (dir : IoName) (fd t : ℕ) : Prop :=
  Placed m hand t dir.list.type ∧ (m.data t).u=.fd fd

/-- The descriptor sets say what the threads wait for. -/
structure FdInvariant (hand : Option ℕ) (m : ThreadMaster ω) : Prop where
  waits : ∀ dir fd, m.fdset dir fd=true → ∃ t, Waits m hand dir fd t
  isSet : ∀ {dir fd t}, Waits m hand dir fd t → m.fdset dir fd=true
  unique : ∀ {dir fd t t'}, Waits m hand dir fd t → Waits m hand dir fd t' → t=t'

theorem type_injective : Function.Injective ListName.type := by
  intro a b h
  revert h
  cases a <;> cases b <;> decide

theorem queueType_injective : Function.Injective QueueName.type := by
  intro a b h
  revert h
  cases a <;> cases b <;> decide

theorem list_type_ne_queue_type (a : ListName) (b : QueueName) : a.type≠b.type := by
  cases a <;> cases b <;> decide

theorem placed_congr (hfresh : m'.fresh=m.fresh) (hc : content (m'.data t)=content (m.data t))
    (type : ThreadType) : Placed m' hand t type ↔ Placed m hand t type := by
  have hty : (m'.data t).type=(m.data t).type := congrArg Prod.fst hc
  unfold Placed
  rw [hfresh,hty]

theorem not_placed_self (type : ThreadType) : ¬Placed m (some t) t type := fun hp => hp.2.1 rfl

theorem tagged_congr {d d' : ThreadData ω} (hc : content d'=content d) (h : Tagged d) :
    Tagged d' := by
  have hty : d'.type=d.type := congrArg Prod.fst hc
  have hu : d'.u=d.u := congrArg (fun c => c.2.2) hc
  unfold Tagged at h ⊢
  rw [hty,hu]
  exact h

theorem valid_congr {queue : PQueue ℕ} {threads threads' : Memory (ThreadData ω)}
    (h : Valid (alarm threads) position queue threads)
    (hmem : ∀ t, queue.Mem t → alarm threads' t=alarm threads t ∧
      position threads' t=position threads t) :
    Valid (alarm threads') position queue threads' where
  order := by
    intro i hpos hi
    have hlt := parent_lt hpos
    rw [(hmem _ ⟨i,hi,rfl⟩).1,(hmem _ ⟨parent i,by omega,rfl⟩).1]
    exact h.order i hpos hi
  tracked := by
    intro i hi
    rw [(hmem _ ⟨i,hi,rfl⟩).2]
    exact h.tracked i hi
  fits := h.fits

section

variable (m : ThreadMaster ω) (name : ListName) (t k : ℕ) (f : ThreadData ω→ThreadData ω)

theorem threads_threadListAdd :
    (threadListAdd m name t).threads=attachTail m.threads (m.list name).tail t := rfl

theorem threads_threadListDelete : (threadListDelete m name t).threads=detach m.threads t := rfl

@[simp] theorem data_threadListAdd : (threadListAdd m name t).data k=m.data k := by
  rw [ThreadMaster.data,threads_threadListAdd,data_attachTail]
  rfl

@[simp] theorem data_threadListDelete : (threadListDelete m name t).data k=m.data k := by
  rw [ThreadMaster.data,threads_threadListDelete,data_detach]
  rfl

theorem data_setData : (m.setData t f).data k=if k=t then f (m.data t) else m.data k := by
  unfold ThreadMaster.setData ThreadMaster.data
  by_cases hk : k=t
  · simp [hk]
  · simp [hk]

theorem links_setData :
    ((m.setData t f).threads k).next=(m.threads k).next ∧
      ((m.setData t f).threads k).prev=(m.threads k).prev := by
  unfold ThreadMaster.setData
  by_cases hk : k=t
  · simp [hk]
  · simp [hk]

end

/-- The head of a list after a removal. -/
theorem isList_delete (h : IsList m.threads (m.list name) (as++t::bs)) :
    IsList (threadListDelete m name t).threads ((threadListDelete m name t).list name)
      (as++bs) := by
  obtain ⟨hprev,hnext⟩ := h.linked.neighbours
  have htB := (nodup_cons.mp (nodup_append.mp h.linked.nodup).2.1).1
  have hsame : (setPrev m.threads (m.threads t).next (m.threads t).prev t).prev =
      as.getLast? := by
    rw [prev_setPrev,if_neg,hprev]
    rw [hnext]
    exact fun he => htB (mem_of_head? he)
  have hlist : (threadListDelete m name t).list name =
      ⟨if as.getLast?.isSome then (m.list name).head else bs.head?,
        if bs.head?.isSome then (m.list name).tail else as.getLast?,(m.list name).count-1⟩ := by
    simp only [threadListDelete,ThreadMaster.setList,update_self]
    rw [hsame,next_setPrev,hnext,hprev]
  rw [hlist]
  refine ⟨?_,?_,?_,h.linked.detach⟩
  · rw [h.head]
    cases as with
    | nil => simp
    | cons a as => simp [getLast?_cons]
  · rw [h.tail]
    cases bs with
    | nil => simp
    | cons b bs => simp [getLast?_append]
  rw [h.count]
  simp only [length_append,length_cons]
  omega

theorem isList_add (h : IsList m.threads (m.list name) xs) (ht : t ∉ xs) :
    IsList (threadListAdd m name t).threads ((threadListAdd m name t).list name) (xs++[t]) := by
  have hlist : (threadListAdd m name t).list name =
      ⟨if (m.list name).tail.isSome then (m.list name).head else some t,some t,
        (m.list name).count+1⟩ := by
    simp only [threadListAdd,ThreadMaster.setList,update_self]
  rw [hlist,threads_threadListAdd,h.tail]
  refine ⟨?_,?_,?_,h.linked.attachTail ht⟩
  · rw [h.head]
    cases xs with
    | nil => simp
    | cons x xs => simp [getLast?_cons]
  · simp
  rw [h.count]
  simp

section

variable {ls : ListName→List ℕ} {m : ThreadMaster ω} {name : ListName} {t : ℕ}

theorem PlaceInvariant.disjoint (h : PlaceInvariant ls hand m) {name' : ListName} (hne : name'≠name) :
    ∀ x∈ls name', x ∉ ls name := by
  intro x hx hx'
  have h1 := ((h.mem_list name' x).mp hx).2.2
  have h2 := ((h.mem_list name x).mp hx').2.2
  exact hne (type_injective (h1.symm.trans h2))

theorem list_not_queue (h : PlaceInvariant ls hand m) {x : ℕ} {q : QueueName}
    (hq : (m.data x).type=q.type) : x ∉ ls name := fun hmem =>
  list_type_ne_queue_type name q (((h.mem_list name x).mp hmem).2.2.symm.trans hq)

/-- A thread comes into the hand or leaves it, and all others stay where they are. -/
theorem PlaceInvariant.moved {ls' : ListName→List ℕ} {hand' : Option ℕ}
    (h : PlaceInvariant ls hand m) (hfresh : m'.fresh=m.fresh) (halloc : m'.alloc=m.alloc)
    (hcontent : ∀ x, content (m'.data x)=content (m.data x))
    (hoths : ∀ x, x≠t → hand≠some x ∧ hand'≠some x) (hlive : t < m.fresh)
    (hlist : ∀ name, IsList m'.threads (m'.list name) (ls' name))
    (hlists : ∀ name x, x≠t → (x∈ls' name ↔ x∈ls name))
    (hself : ∀ name, t∈ls' name ↔ Placed m' hand' t name.type)
    (hvalid : ∀ q, Valid (alarm m'.threads) position (m'.queue q) m'.threads)
    (hqueues : ∀ q x, x≠t → ((m'.queue q).Mem x ↔ (m.queue q).Mem x))
    (hselfQueue : ∀ q, (m'.queue q).Mem t ↔ Placed m' hand' t q.type)
    (hloose : ∀ x, x < m.fresh → (hand'=some x ∨ ∃ q : QueueName, (m.data x).type=q.type) →
      (m'.threads x).next=none ∧ (m'.threads x).prev=none)
    (hknown : hand'≠some t → (m.data t).type ≠ .execute ∧ Tagged (m.data t)) :
    PlaceInvariant ls' hand' m' := by
  have hty : ∀ x, (m'.data x).type=(m.data x).type := fun x => congrArg Prod.fst (hcontent x)
  have hplaced : ∀ x type, x≠t → (Placed m' hand' x type ↔ Placed m hand x type) := by
    intro x type hx
    unfold Placed
    rw [hfresh,hty,iff_true_intro (hoths x hx).1,iff_true_intro (hoths x hx).2]
  refine ⟨hlist,fun name x => ?_,hvalid,fun q x => ?_,fun x hx hcase => ?_,fun x hx hxt => ?_,
    fun x hx hxt => tagged_congr (hcontent x) ?_,by rw [halloc,hfresh,h.alloc],fun x hx => ?_⟩
  · by_cases hx : x=t
    · rw [hx,hself]
    · rw [hplaced x _ hx,hlists name x hx,h.mem_list]
  · by_cases hx : x=t
    · rw [hx,hselfQueue]
    · rw [hplaced x _ hx,hqueues q x hx,h.mem_queue]
  · simp only [hty] at hcase
    exact hloose x (hfresh ▸ hx) hcase
  · rw [hty]
    by_cases hx' : x=t
    · exact hx' ▸ (hknown (hx' ▸ hxt)).1
    · exact h.known x (hfresh ▸ hx) (hoths x hx').1
  · by_cases hx' : x=t
    · exact hx' ▸ (hknown (hx' ▸ hxt)).2
    · exact h.tagged x (hfresh ▸ hx) (hoths x hx').1
  · have hxt : x=t := by
      by_contra hne
      exact (hoths x hne).2 hx
    rw [hxt,hfresh]
    exact hlive

theorem PlaceInvariant.take (h : PlaceInvariant ls none m) (hls : ls name=as++t::bs) :
    PlaceInvariant (update ls name (as++bs)) (some t) (threadListDelete m name t) := by
  have hlist := h.isList name
  rw [hls] at hlist
  have htmem : t∈ls name := by rw [hls]; simp
  have htp := (h.mem_list name t).mp htmem
  obtain ⟨hprev,hnext⟩ := hlist.linked.neighbours
  have htout := (nodup_middle.mp hlist.linked.nodup).notMem
  refine h.moved rfl rfl (fun x => congrArg content (data_threadListDelete m name t x))
    (fun x hx => ⟨(some_ne_none x).symm,fun he => hx (some.inj he).symm⟩) htp.1 (fun name' => ?_)
    (fun name' x hx => ?_) (fun name' => iff_of_false (fun hmem => ?_) (not_placed_self _))
    (fun q => valid_congr (h.valid q) fun x _ => ?_) (fun _ _ _ => Iff.rfl)
    (fun q => iff_of_false (fun hmem => ?_) (not_placed_self _)) (fun x hx hcase => ?_)
    (fun hne => absurd rfl hne)
  · by_cases hname : name'=name
    · subst hname
      rw [update_self]
      exact isList_delete hlist
    rw [update_of_ne hname]
    have hoth := h.isList name'
    have hkeep : (threadListDelete m name t).list name'=m.list name' := update_of_ne hname _ _
    rw [hkeep]
    refine ⟨hoth.head,hoth.tail,hoth.count,hlist.linked.detach_other hoth.linked ?_⟩
    rw [←hls]
    exact h.disjoint hname
  · by_cases hname : name'=name
    · subst hname
      rw [update_self,hls]
      simp [hx]
    · rw [update_of_ne hname]
  · by_cases hname : name'=name
    · rw [hname,update_self] at hmem
      exact htout hmem
    rw [update_of_ne hname] at hmem
    exact h.disjoint hname t hmem htmem
  · unfold alarm position
    rw [threads_threadListDelete,data_detach]
    exact ⟨rfl,rfl⟩
  · exact list_not_queue h ((h.mem_queue q t).mp hmem).2.2 htmem
  · by_cases hxt : x=t
    · subst hxt
      exact ⟨next_detach_self _ _,prev_detach_self _ _⟩
    obtain ⟨q,hq⟩ := hcase.resolve_left fun he => hxt (some.inj he).symm
    have hout : x ∉ ls name := list_not_queue h hq
    rw [hls,mem_append,mem_cons] at hout
    have hne : (m.threads t).next≠some t := by
      rw [hnext]
      exact fun he => htout (mem_append_right _ (mem_of_head? he))
    obtain ⟨h1,h2⟩ := links_detach hne hxt
      (by rw [hnext]; exact fun he => hout (.inr (.inr (mem_of_head? he))))
      (by rw [hprev]; exact fun he => hout (.inl (mem_of_getLast? he)))
    rw [threads_threadListDelete,h1,h2]
    exact h.loose x hx (.inr ⟨q,hq⟩)

/-- Giving a thread to the list of its type. -/
theorem PlaceInvariant.give (h : PlaceInvariant ls (some t) m) (hty : (m.data t).type=name.type)
    (htag : Tagged (m.data t)) :
    PlaceInvariant (update ls name (ls name++[t])) none (threadListAdd m name t) := by
  have hout : ∀ name', t ∉ ls name' := fun name' hmem =>
    not_placed_self _ ((h.mem_list name' t).mp hmem)
  have hlive := h.handLive t rfl
  have hplacedt : ∀ type, Placed (threadListAdd m name t) none t type ↔ name.type=type := by
    intro type
    unfold Placed
    rw [data_threadListAdd,hty]
    exact ⟨fun hp => hp.2.2,fun he => ⟨hlive,(some_ne_none t).symm,he⟩⟩
  refine h.moved rfl rfl (fun x => congrArg content (data_threadListAdd m name t x))
    (fun x hx => ⟨fun he => hx (some.inj he).symm,(some_ne_none x).symm⟩) hlive (fun name' => ?_)
    (fun name' x hx => ?_) (fun name' => ?_) (fun q => valid_congr (h.valid q) fun x _ => ?_)
    (fun _ _ _ => Iff.rfl) (fun q => ?_) (fun x hx hcase => ?_) fun _ => ⟨?_,htag⟩
  · by_cases hname : name'=name
    · subst hname
      rw [update_self]
      exact isList_add (h.isList name') (hout name')
    rw [update_of_ne hname]
    have hoth := h.isList name'
    have hkeep : (threadListAdd m name t).list name'=m.list name' := update_of_ne hname _ _
    rw [hkeep,threads_threadListAdd,(h.isList name).tail]
    exact ⟨hoth.head,hoth.tail,hoth.count,
      hoth.linked.attachTail_other (hout name') (h.disjoint hname)⟩
  · by_cases hname : name'=name
    · subst hname
      rw [update_self]
      simp [hx]
    · rw [update_of_ne hname]
  · rw [hplacedt]
    by_cases hname : name'=name
    · rw [hname,update_self]
      simp
    rw [update_of_ne hname]
    exact iff_of_false (hout name') fun he => hname (type_injective he).symm
  · unfold alarm position
    rw [threads_threadListAdd,data_attachTail]
    exact ⟨rfl,rfl⟩
  · rw [hplacedt]
    exact iff_of_false (fun hmem => not_placed_self _ ((h.mem_queue q t).mp hmem))
      (list_type_ne_queue_type name q)
  · obtain ⟨q,hq⟩ := hcase.resolve_left (some_ne_none x).symm
    have hxt : x≠t := by
      rintro rfl
      exact list_type_ne_queue_type name q (hty.symm.trans hq)
    have hsome : some t≠some x := fun he => hxt (some.inj he).symm
    have hlast : (ls name).getLast? ≠ some x := fun he =>
      list_not_queue h hq (mem_of_getLast? he)
    rw [threads_threadListAdd,(h.isList name).tail]
    simp only [attachTail,next_setNext,next_setPrev,prev_setNext,prev_setPrev]
    rw [if_neg hsome,if_neg hsome,if_neg hlast]
    exact h.loose x hx (.inr ⟨q,hq⟩)
  · rw [hty]
    cases name <;> decide

/-- What the queue operations leave alone. -/
def view (threads : Memory (ThreadData ω)) (k : ℕ) :
    Option ℕ × Option ℕ × ThreadType × ω × ThreadUnion :=
  ((threads k).next,(threads k).prev,content (threads k).data)

theorem view_threadTimerUpdate (a i : ℕ) (threads : Memory (ThreadData ω)) :
    view (threadTimerUpdate a i threads)=view threads := by
  funext k
  unfold view threadTimerUpdate
  by_cases hk : k=a
  · subst hk
    simp [content]
  · simp [update_of_ne hk]

/-- The master after an operation on one queue. -/
structure QueueStep (m m' : ThreadMaster ω) (q : QueueName) : Prop where
  view : view m'.threads=view m.threads
  other : ∀ {q'}, q'≠q → m'.queue q'=m.queue q'
  list : m'.list=m.list
  fdset : m'.fdset=m.fdset
  fresh : m'.fresh=m.fresh
  alloc : m'.alloc=m.alloc

namespace QueueStep

variable {m' : ThreadMaster ω} {q : QueueName} (hq : QueueStep m m' q)

include hq

theorem content_eq : content (m'.data k)=content (m.data k) :=
  congrArg (fun v => v.2.2) (congrFun hq.view k)

theorem next_eq : (m'.threads k).next=(m.threads k).next :=
  congrArg (fun v => v.1) (congrFun hq.view k)

theorem prev_eq : (m'.threads k).prev=(m.threads k).prev :=
  congrArg (fun v => v.2.1) (congrFun hq.view k)

theorem alarm_eq : alarm m'.threads=alarm m.threads := by
  funext k
  have hu : (m'.data k).u=(m.data k).u := congrArg (fun c => c.2.2) (hq.content_eq k)
  exact congrArg (fun u => timeKey u.getSands) hu

theorem isList {l : ThreadList} (h : IsList m.threads l xs) : IsList m'.threads l xs :=
  ⟨h.head,h.tail,h.count,h.linked.congr fun x _ => ⟨hq.next_eq x,hq.prev_eq x⟩⟩

/-- The queue of the operation has a new order, the other ones keep theirs. -/
theorem valid (h : PlaceInvariant ls hand m)
    (hvalid : Valid (alarm m.threads) position (m'.queue q) m'.threads)
    (hframe : ∀ x, hand≠some x → ¬(m.queue q).Mem x → position m'.threads x=position m.threads x)
    (q' : QueueName) : Valid (alarm m'.threads) position (m'.queue q') m'.threads := by
  by_cases hne : q'=q
  · rw [hne,hq.alarm_eq]
    exact hvalid
  rw [hq.other hne]
  refine valid_congr (h.valid q') fun x hx => ⟨congrFun hq.alarm_eq x,?_⟩
  have hxp := (h.mem_queue q' x).mp hx
  refine hframe x hxp.2.1 fun hxq => hne ?_
  exact queueType_injective (hxp.2.2.symm.trans ((h.mem_queue q x).mp hxq).2.2)

theorem mem_of_ne (hx : (m'.queue q).Mem x ↔ (m.queue q).Mem x) (q' : QueueName) :
    (m'.queue q').Mem x ↔ (m.queue q').Mem x := by
  by_cases hname : q'=q
  · rw [hname,hx]
  · rw [hq.other hname]

theorem loose (h : PlaceInvariant ls hand m) (hx : x < m.fresh)
    (hcase : hand=some x ∨ ∃ q : QueueName, (m.data x).type=q.type) :
    (m'.threads x).next=none ∧ (m'.threads x).prev=none := by
  rw [hq.next_eq,hq.prev_eq]
  exact h.loose x hx hcase

end QueueStep

/-- Giving a thread to the queue of its type. -/
theorem PlaceInvariant.giveQueue (h : PlaceInvariant ls (some t) m) (hty : (m.data t).type=q.type)
    (htag : Tagged (m.data t)) :
    PlaceInvariant ls none (enqueue m q t) ∧ QueueStep m (enqueue m q t) q := by
  have hnew : ∀ q', ¬(m.queue q').Mem t := fun q' hmem =>
    not_placed_self _ ((h.mem_queue q' t).mp hmem)
  obtain ⟨queue',threads',heq,hvalid,hsize,hmem,hframe⟩ :=
    pqueueEnqueue_spec (timerCallbacks m.threads) (h.valid q) (hnew q)
  have hview : view threads'=view m.threads := by
    have hv := pqueueEnqueue_view (threadTimerCmp m.threads) view_threadTimerUpdate t
      (m.queue q) m.threads
    rwa [heq] at hv
  obtain ⟨hstep,hqueue,hthreads⟩ : QueueStep m (enqueue m q t) q ∧
      (enqueue m q t).queue q=queue' ∧ (enqueue m q t).threads=threads' := by
    rw [enqueue,heq]
    exact ⟨⟨hview,fun hne => update_of_ne hne _ _,rfl,rfl,rfl,rfl⟩,update_self ..,rfl⟩
  generalize enqueue m q t=m' at hstep hqueue hthreads
  subst hqueue hthreads
  have hplacedt : ∀ type, Placed m' none t type ↔ q.type=type := by
    intro type
    rw [placed_congr hstep.fresh (hstep.content_eq t)]
    exact ⟨fun hp => hty.symm.trans hp.2.2,
      fun he => ⟨h.handLive t rfl,(some_ne_none t).symm,hty.trans he⟩⟩
  refine ⟨h.moved hstep.fresh hstep.alloc (fun x => hstep.content_eq x)
    (fun x hx => ⟨fun he => hx (some.inj he).symm,(some_ne_none x).symm⟩) (h.handLive t rfl)
    (fun name => hstep.list ▸ hstep.isList (h.isList name)) (fun _ _ _ => Iff.rfl) (fun name => ?_)
    (hstep.valid h hvalid fun x hx => hframe x fun he => hx (congrArg some he.symm))
    (fun q' x hx => hstep.mem_of_ne (by rw [hmem]; simp [hx]) q') (fun q' => ?_)
    (fun x hx hcase => hstep.loose h hx (.inr (hcase.resolve_left (some_ne_none x).symm)))
    fun _ => ⟨?_,htag⟩,hstep⟩
  · rw [hplacedt,h.mem_list]
    exact iff_of_false (not_placed_self _) fun he => list_type_ne_queue_type name q he.symm
  · rw [hplacedt]
    by_cases hname : q'=q
    · rw [hname,hmem]
      simp
    rw [hstep.other hname]
    exact iff_of_false (hnew q') fun he => hname (queueType_injective he).symm
  · rw [hty]
    cases q <;> decide

theorem PlaceInvariant.takeQueue {k : ℕ} (h : PlaceInvariant ls none m) (hk : k<(m.queue q).size)
    (hkt : (m.queue q).array k=t) :
    PlaceInvariant ls (some t) (removeAt m q k) ∧ QueueStep m (removeAt m q k) q ∧
      ((removeAt m q k).queue q).size+1=(m.queue q).size := by
  have htq : (m.queue q).Mem t := ⟨k,hk,hkt⟩
  have htp := (h.mem_queue q t).mp htq
  obtain ⟨queue',threads',heq,hvalid,hsize,hmem,hframe⟩ :=
    pqueueRemoveAt_spec (timerCallbacks m.threads) (h.valid q) hk
  rw [hkt] at hmem
  have hview : view threads'=view m.threads := by
    have hv := pqueueRemoveAt_view (threadTimerCmp m.threads) view_threadTimerUpdate k
      (m.queue q) m.threads
    rwa [heq] at hv
  obtain ⟨hstep,hqueue,hthreads⟩ : QueueStep m (removeAt m q k) q ∧
      (removeAt m q k).queue q=queue' ∧ (removeAt m q k).threads=threads' := by
    rw [removeAt,heq]
    exact ⟨⟨hview,fun hne => update_of_ne hne _ _,rfl,rfl,rfl,rfl⟩,update_self ..,rfl⟩
  generalize removeAt m q k=m' at hstep hqueue hthreads
  subst hqueue hthreads
  refine ⟨h.moved hstep.fresh hstep.alloc (fun x => hstep.content_eq x)
    (fun x hx => ⟨(some_ne_none x).symm,fun he => hx (some.inj he).symm⟩) htp.1
    (fun name => hstep.list ▸ hstep.isList (h.isList name)) (fun _ _ _ => Iff.rfl)
    (fun name => iff_of_false (fun hp => ?_) (not_placed_self _))
    (hstep.valid h hvalid fun x _ => hframe x)
    (fun q' x hx => hstep.mem_of_ne (by rw [hmem]; simp [hx]) q')
    (fun q' => iff_of_false (fun hxm => ?_) (not_placed_self _)) (fun x hx hcase => ?_)
    fun hne => absurd rfl hne,hstep,hsize⟩
  · exact list_not_queue h htp.2.2 hp
  · by_cases hname : q'=q
    · rw [hname,hmem] at hxm
      exact hxm.2 rfl
    rw [hstep.other hname,h.mem_queue] at hxm
    exact hname (queueType_injective (hxm.2.2.symm.trans htp.2.2))
  · refine hstep.loose h hx (.inr (hcase.elim (fun he => ?_) id))
    cases he
    exact ⟨q,htp.2.2⟩

end

end RoutePlatform.ThreadInvariant
