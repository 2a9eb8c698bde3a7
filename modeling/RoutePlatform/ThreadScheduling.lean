import RoutePlatform.ThreadInvariant

/-!
# Specifications of the scheduling operations

Each operation of `lib/thread.c` keeps the invariant of the master. The
specifications also say which threads change, for the arguments about timers
and about the fetch loop.
-/

namespace RoutePlatform.ThreadScheduling

open ThreadOperations ThreadInvariant Function Option

variable {ω : Type} {name : ListName} {hand' : Option ℕ} {x : ℕ} {as bs : List ℕ} {dir : IoName}

structure MasterInvariant (ls : ListName→List ℕ) (hand : Option ℕ) (m : ThreadMaster ω) :
    Prop where
  place : PlaceInvariant ls hand m
  fds : FdInvariant hand m

section

variable {ls : ListName→List ℕ} {hand : Option ℕ} {m m' : ThreadMaster ω} {t : ℕ}

theorem not_placed_hand (type : ThreadType) : ¬Placed m (some t) t type := fun h => h.2.1 rfl

theorem edit_place (h : PlaceInvariant ls (some t) m) (f : ThreadData ω→ThreadData ω) :
    PlaceInvariant ls (some t) (m.setData t f) := by
  have hdata : ∀ {x}, x≠t → (m.setData t f).data x=m.data x := by
    intro x hx
    rw [data_setData,if_neg hx]
  have hplaced : ∀ x type, Placed (m.setData t f) (some t) x type ↔ Placed m (some t) x type := by
    intro x type
    by_cases hx : x=t
    · rw [hx]
      exact iff_of_false (not_placed_hand type) (not_placed_hand type)
    have hc := congrArg content (hdata hx)
    have hfresh : (m.setData t f).fresh=m.fresh := rfl
    exact placed_congr hfresh hc type
  have hout : ∀ {x}, some t≠some x → x≠t := fun hne he => hne (by rw [he])
  refine ⟨fun name => ?_,fun name x => ?_,fun q => ?_,fun q x => ?_,?_,?_,?_,h.alloc,h.handLive⟩
  · have hlist := h.isList name
    exact ⟨hlist.head,hlist.tail,hlist.count,hlist.linked.congr fun x _ => links_setData m t x f⟩
  · rw [hplaced,h.mem_list]
  · refine valid_congr (h.valid q) fun x hx => ?_
    have hxt : x≠t := by
      rintro rfl
      exact not_placed_hand _ ((h.mem_queue q x).mp hx)
    have hd := hdata hxt
    unfold alarm position
    unfold ThreadMaster.data at hd
    rw [hd]
    exact ⟨rfl,rfl⟩
  · rw [hplaced,←h.mem_queue]
    rfl
  · intro x hx hcase
    obtain ⟨h1,h2⟩ := links_setData m t x f
    rw [h1,h2]
    apply h.loose x hx
    by_cases hxt : x=t
    · exact .inl (by rw [hxt])
    rw [hdata hxt] at hcase
    exact hcase
  · intro x hx hne
    rw [hdata (hout hne)]
    exact h.known x hx hne
  intro x hx hne
  rw [hdata (hout hne)]
  exact h.tagged x hx hne

theorem setFd_place (h : PlaceInvariant ls hand m) (dir : IoName) (fd : ℕ) (b : Bool) :
    PlaceInvariant ls hand (m.setFd dir fd b) :=
  ⟨h.isList,h.mem_list,h.valid,h.mem_queue,h.loose,h.known,h.tagged,h.alloc,h.handLive⟩

theorem waits_congr (hfresh : x < m'.fresh ↔ x < m.fresh) (hhand : hand'=some x ↔ hand=some x)
    (hc : content (m'.data x)=content (m.data x)) (dir : IoName) (fd : ℕ) :
    Waits m' hand' dir fd x ↔ Waits m hand dir fd x := by
  have hty : (m'.data x).type=(m.data x).type := congrArg Prod.fst hc
  have hu : (m'.data x).u=(m.data x).u := congrArg (fun c => c.2.2) hc
  unfold Waits Placed
  rw [hfresh,hty,hu]
  exact ⟨fun ⟨⟨h1,h2,h3⟩,h4⟩ => ⟨⟨h1,fun he => h2 (hhand.mpr he),h3⟩,h4⟩,
    fun ⟨⟨h1,h2,h3⟩,h4⟩ => ⟨⟨h1,fun he => h2 (hhand.mp he),h3⟩,h4⟩⟩

theorem not_waits_of_type (hty : ∀ dir : IoName, (m.data x).type≠dir.list.type) (dir : IoName)
    (fd : ℕ) : ¬Waits m hand dir fd x := fun h => hty dir h.1.2.2

theorem eq_of_waits {dir' : IoName} {fd' : ℕ} (h : Waits m hand dir fd x)
    (hty : (m.data x).type=dir'.list.type) (hu : (m.data x).u=.fd fd') : dir=dir' ∧ fd=fd' := by
  have h1 := h.1.2.2.symm.trans hty
  refine ⟨?_,by cases h.2.symm.trans hu; rfl⟩
  revert h1
  cases dir <;> cases dir' <;> decide

theorem not_waits_hand (dir : IoName) (fd : ℕ) : ¬Waits m (some t) dir fd t :=
  fun h => not_placed_hand _ h.1

theorem fds_congr (h : FdInvariant hand m) (hset : m'.fdset=m.fdset)
    (hw : ∀ {dir fd x}, Waits m' hand' dir fd x ↔ Waits m hand dir fd x) :
    FdInvariant hand' m' where
  waits := by
    intro dir fd hfd
    rw [hset] at hfd
    obtain ⟨x,hx⟩ := h.waits dir fd hfd
    exact ⟨x,hw.mpr hx⟩
  isSet := by
    intro dir fd x hx
    rw [hset]
    exact h.isSet (hw.mp hx)
  unique := fun hx hx' => h.unique (hw.mp hx) (hw.mp hx')

theorem fds_move (h : FdInvariant hand m) (hset : m'.fdset=m.fdset) (hfresh : m'.fresh=m.fresh)
    (hhand : ∀ x, x≠t → (hand'=some x ↔ hand=some x))
    (hc : ∀ x, x≠t → content (m'.data x)=content (m.data x)) (ht : ∀ dir fd, ¬Waits m hand dir fd t)
    (ht' : ∀ dir fd, ¬Waits m' hand' dir fd t) : FdInvariant hand' m' := by
  refine fds_congr h hset fun {dir fd x} => ?_
  by_cases hx : x=t
  · rw [hx]
    exact iff_of_false (ht' dir fd) (ht dir fd)
  · exact waits_congr (by rw [hfresh]) (hhand x hx) (hc x hx) dir fd

theorem some_iff_none (hx : x≠t) : (some t=some x ↔ none=some x) := by
  constructor
  · intro he
    exact absurd (some.inj he).symm hx
  · intro he
    cases he

/-- The fields of a thread in hand may be written. -/
theorem edit_spec (h : MasterInvariant ls (some t) m) (f : ThreadData ω→ThreadData ω) :
    MasterInvariant ls (some t) (m.setData t f) := by
  refine ⟨edit_place h.place _,fds_move h.fds rfl rfl (fun _ _ => Iff.rfl) (fun x hx => ?_)
    not_waits_hand not_waits_hand⟩
  rw [data_setData,if_neg hx]

theorem io_type_ne {type : ThreadType} (h1 : type ≠ .read) (h2 : type ≠ .write) (dir : IoName) :
    type≠dir.list.type := by
  cases dir with
  | read => exact h1
  | write => exact h2

end

section

variable {ls : ListName→List ℕ} {m : ThreadMaster ω}

theorem allocate_place (h : PlaceInvariant ls none m) (d : ThreadData ω) :
    PlaceInvariant ls (some m.fresh) {m with
        threads := update m.threads m.fresh ⟨none,none,d⟩
        fresh := m.fresh+1
        alloc := m.alloc+1} := by
  have hth : ∀ {x}, x < m.fresh → update m.threads m.fresh ⟨none,none,d⟩ x=m.threads x :=
    fun hx => update_of_ne hx.ne _ _
  have hold : ∀ {x}, x < m.fresh+1→some m.fresh≠some x → x < m.fresh := fun {x} hx hne => by
    have hxf : x≠m.fresh := fun he => hne (by rw [he])
    omega
  have hplaced : ∀ x type, Placed {m with
      threads := update m.threads m.fresh ⟨none,none,d⟩
      fresh := m.fresh+1
      alloc := m.alloc+1} (some m.fresh) x type ↔ Placed m none x type := by
    intro x type
    by_cases hx : x < m.fresh
    · have hne : some m.fresh≠some x := fun he => hx.ne (some.inj he).symm
      have hn := (some_ne_none x).symm
      unfold Placed ThreadMaster.data
      dsimp only
      rw [hth hx]
      exact ⟨fun ⟨_,_,h3⟩ => ⟨hx,hn,h3⟩,fun ⟨_,_,h3⟩ => ⟨by omega,hne,h3⟩⟩
    refine iff_of_false (fun hp => ?_) fun hp => hx hp.1
    have hlt : x < m.fresh+1 := hp.1
    exact hp.2.1 (congrArg some (by omega))
  refine ⟨fun name => ?_,fun name x => ?_,fun q => ?_,fun q x => ?_,?_,?_,?_,?_,?_⟩
  · have hlist := h.isList name
    refine ⟨hlist.head,hlist.tail,hlist.count,hlist.linked.congr fun x hx => ?_⟩
    have hlt := ((h.mem_list name x).mp hx).1
    dsimp only
    rw [hth hlt]
    exact ⟨rfl,rfl⟩
  · rw [hplaced,h.mem_list]
  · refine valid_congr (h.valid q) fun x hx => ?_
    have hlt := ((h.mem_queue q x).mp hx).1
    unfold alarm position
    dsimp only
    rw [hth hlt]
    exact ⟨rfl,rfl⟩
  · rw [hplaced,←h.mem_queue]
  · intro x hx hcase
    dsimp only at hx ⊢
    by_cases hxf : x=m.fresh
    · rw [hxf,update_self]
      exact ⟨rfl,rfl⟩
    have hlt : x < m.fresh := by omega
    rw [hth hlt]
    obtain ⟨q,hq⟩ := hcase.resolve_left fun he => hxf (some.inj he).symm
    unfold ThreadMaster.data at hq
    dsimp only at hq
    rw [hth hlt] at hq
    exact h.loose x hlt (.inr ⟨q,hq⟩)
  · intro x hx hne
    have hlt := hold hx hne
    unfold ThreadMaster.data
    dsimp only
    rw [hth hlt]
    exact h.known x hlt (some_ne_none x).symm
  · intro x hx hne
    have hlt := hold hx hne
    unfold ThreadMaster.data
    dsimp only
    rw [hth hlt]
    exact h.tagged x hlt (some_ne_none x).symm
  · rw [h.alloc]
  · intro x hx
    cases hx
    exact Nat.lt_succ_self _

/-- What `thread_get` does. The thread comes from the `unuse` list or from
the allocator. -/
structure Got (ls : ListName→List ℕ) (m : ThreadMaster ω) (type : ThreadType) (arg : ω)
    (ls' : ListName→List ℕ) (m' : ThreadMaster ω) (t : ℕ) : Prop where
  inv : MasterInvariant ls' (some t) m'
  type_eq : (m'.data t).type=type
  arg_eq : (m'.data t).arg=arg
  unused : ∀ {x}, x < m.fresh → x≠t ∨ (m.data x).type=.unused
  lists : ∀ {name}, name ≠ .unuse → ls' name=ls name
  queue : m'.queue=m.queue
  fdset : m'.fdset=m.fdset
  data : ∀ {x}, x≠t → m'.data x=m.data x
  lives : ∀ {x}, x≠t → (x < m'.fresh ↔ x < m.fresh)

theorem threadGet_spec (h : MasterInvariant ls none m) (type : ThreadType) (arg : ω) :
    ∃ m' t ls', threadGet m type arg=(m',t) ∧ Got ls m type arg ls' m' t := by
  unfold threadGet threadTrimHead
  have hhead := (h.place.isList .unuse).head
  cases hls : ls .unuse with
  | nil =>
    rw [hls,List.head?_nil] at hhead
    rw [hhead]
    have hself : ∀ {d}, (update m.threads m.fresh ⟨none,none,d⟩ m.fresh).data=d := by
      intro d
      rw [update_self]
    have hdata : ∀ {x d}, x≠m.fresh → (update m.threads m.fresh ⟨none,none,d⟩ x).data=m.data x := by
      intro x d hx
      rw [update_of_ne hx]
      rfl
    have hlives : ∀ {x}, x≠m.fresh → (x < m.fresh+1 ↔ x < m.fresh) := by
      intro x hx
      omega
    refine ⟨_,m.fresh,ls,rfl,⟨allocate_place h.place _,fds_congr h.fds rfl ?_⟩,?_,?_,?_,
      fun _ => rfl,rfl,rfl,hdata,hlives⟩
    · intro dir fd x
      by_cases hx : x=m.fresh
      · rw [hx]
        refine iff_of_false (not_waits_hand dir fd) fun hw => ?_
        exact lt_irrefl _ hw.1.1
      refine waits_congr (hlives hx) (some_iff_none hx) ?_ dir fd
      exact congrArg content (hdata hx)
    · exact congrArg ThreadData.type hself
    · exact congrArg ThreadData.arg hself
    intro x hx
    exact .inl hx.ne
  | cons t rest =>
    rw [hls,List.head?_cons] at hhead
    rw [hhead]
    have htmem : t∈ls .unuse := by rw [hls]; exact List.mem_cons_self
    have htp := (h.place.mem_list .unuse t).mp htmem
    have hcut : ls .unuse=[]++t::rest := hls
    have htake := h.place.take hcut
    have hdata : ∀ {x}, x≠t → ((threadListDelete m .unuse t).setData t
        fun d => ⟨type,arg,d.u,-1⟩).data x=m.data x := by
      intro x hx
      rw [data_setData,if_neg hx,data_threadListDelete]
    have hself : ((threadListDelete m .unuse t).setData t
        fun d => ⟨type,arg,d.u,-1⟩).data t=⟨type,arg,(m.data t).u,-1⟩ := by
      rw [data_setData,if_pos rfl,data_threadListDelete]
    refine ⟨_,t,_,rfl,⟨edit_place htake _,?_⟩,by rw [hself],by rw [hself],?_,
      fun hne => update_of_ne hne _ _,rfl,rfl,hdata,fun _ => Iff.rfl⟩
    · refine fds_move h.fds rfl rfl (fun x hx => some_iff_none hx)
        (fun x hx => congrArg content (hdata hx)) ?_ not_waits_hand
      exact not_waits_of_type fun dir => io_type_ne (by rw [htp.2.2]; decide)
        (by rw [htp.2.2]; decide) dir
    intro x _
    by_cases hx : x=t
    · rw [hx]
      exact .inr htp.2.2
    · exact .inl hx

end

section

variable {ls : ListName→List ℕ} {m : ThreadMaster ω}

theorem give_spec {t : ℕ} (h : MasterInvariant ls (some t) m) (hty : (m.data t).type=name.type)
    (hio : ∀ dir : IoName, name.type≠dir.list.type) :
    MasterInvariant (update ls name (ls name++[t])) none (threadListAdd m name t) := by
  have htag : Tagged (m.data t) := by
    unfold Tagged
    rw [hty]
    cases name with
    | read => exact absurd rfl (hio .read)
    | write => exact absurd rfl (hio .write)
    | event | ready | unuse => trivial
  refine ⟨h.place.give hty htag,?_⟩
  refine fds_move h.fds rfl rfl (fun x hx => (some_iff_none hx).symm)
    (fun x _ => by rw [data_threadListAdd]) not_waits_hand ?_
  refine not_waits_of_type fun dir => ?_
  rw [data_threadListAdd,hty]
  exact hio dir

theorem update_update_apply (f : IoName→ℕ→Bool) (dir dir' : IoName) (fd fd' : ℕ) (b : Bool) :
    update f dir (update (f dir) fd b) dir' fd' =
      if dir'=dir ∧ fd'=fd then b else f dir' fd' := by
  by_cases hd : dir'=dir
  · subst hd
    rw [update_self,update_apply]
    simp
  rw [update_of_ne hd,if_neg fun h => hd h.1]

/-- Descriptor sets when a thread starts to wait. -/
theorem fds_wait {fd t : ℕ} {m' : ThreadMaster ω} (h : FdInvariant (some t) m)
    (hfree : m.fdset dir fd=false)
    (hset : m'.fdset=update m.fdset dir (update (m.fdset dir) fd true)) (hfresh : m'.fresh=m.fresh)
    (hc : ∀ x, x≠t → content (m'.data x)=content (m.data x)) (hlive : t < m'.fresh)
    (hty : (m'.data t).type=dir.list.type) (hu : (m'.data t).u=.fd fd) : FdInvariant none m' := by
  have hself : ∀ {dir' fd'}, Waits m' none dir' fd' t ↔ dir'=dir ∧ fd'=fd := by
    refine fun {dir' fd'} => ⟨fun h => eq_of_waits h hty hu,?_⟩
    rintro ⟨rfl,rfl⟩
    exact ⟨⟨hlive,(some_ne_none t).symm,hty⟩,hu⟩
  have hoth : ∀ {dir' fd' x}, x≠t → (Waits m' none dir' fd' x ↔ Waits m (some t) dir' fd' x) :=
    fun {dir' fd' x} hx => waits_congr (by rw [hfresh]) (some_iff_none hx).symm (hc x hx) dir' fd'
  have hbit : ∀ dir' fd', m'.fdset dir' fd'=true ↔ (dir'=dir ∧ fd'=fd) ∨ m.fdset dir' fd'=true := by
    intro dir' fd'
    rw [hset,update_update_apply]
    split <;> simp [*]
  refine ⟨fun dir' fd' hb => ?_,fun {dir' fd' x} hx => ?_,fun {dir' fd' x x'} hx hx' => ?_⟩
  · rcases (hbit dir' fd').mp hb with heq|hold
    · exact ⟨t,hself.mpr heq⟩
    obtain ⟨x,hx⟩ := h.waits dir' fd' hold
    have hxt : x≠t := by
      rintro rfl
      exact not_waits_hand dir' fd' hx
    exact ⟨x,(hoth hxt).mpr hx⟩
  · rw [hbit]
    by_cases hxt : x=t
    · rw [hxt,hself] at hx
      exact .inl hx
    · exact .inr (h.isSet ((hoth hxt).mp hx))
  have hclash : ∀ {y}, y≠t → Waits m' none dir' fd' t → Waits m' none dir' fd' y → False := by
    intro y hy ht hyw
    obtain ⟨rfl,rfl⟩ := hself.mp ht
    have hb := h.isSet ((hoth hy).mp hyw)
    rw [hfree] at hb
    cases hb
  by_cases hxt : x=t
  · by_cases hxt' : x'=t
    · rw [hxt,hxt']
    · exact (hclash hxt' (hxt ▸ hx) hx').elim
  by_cases hxt' : x'=t
  · exact (hclash hxt (hxt' ▸ hx') hx).elim
  · exact h.unique ((hoth hxt).mp hx) ((hoth hxt').mp hx')

theorem threadAddIo_spec (h : MasterInvariant ls none m) (dir : IoName) (arg : ω) (fd : ℕ) :
    ∃ ls', MasterInvariant ls' none (threadAddIo dir m arg fd).1 := by
  unfold threadAddIo
  by_cases hset : m.fdset dir fd=true
  · rw [if_pos hset]
    exact ⟨ls,h⟩
  rw [if_neg hset]
  have hfree := Bool.eq_false_of_not_eq_true hset
  obtain ⟨m',t,ls',hget,hgot⟩ := threadGet_spec h dir.list.type arg
  rw [hget]
  have hpl := edit_place (setFd_place hgot.inv.place dir fd true) (withUnion (.fd fd))
  have hdata : ((m'.setFd dir fd true).setData t (withUnion (.fd fd))).data t =
      withUnion (.fd fd) (m'.data t) := by
    rw [data_setData,if_pos rfl]
    rfl
  have hty : (((m'.setFd dir fd true).setData t (withUnion (.fd fd))).data t).type =
      dir.list.type := by
    rw [hdata]
    exact hgot.type_eq
  have htag : Tagged (((m'.setFd dir fd true).setData t (withUnion (.fd fd))).data t) := by
    unfold Tagged
    rw [hty,hdata]
    cases dir <;> exact ⟨fd,rfl⟩
  refine ⟨_,hpl.give hty htag,?_⟩
  refine fds_wait hgot.inv.fds (by rw [hgot.fdset,hfree]) rfl rfl (fun x hx => ?_)
    (hgot.inv.place.handLive t rfl) ?_ ?_
  · rw [data_threadListAdd,data_setData,if_neg hx]
    rfl
  · rw [data_threadListAdd,hty]
  rw [data_threadListAdd,hdata]
  rfl

theorem threadAddEvent_spec (h : MasterInvariant ls none m) (arg : ω) (val : ℤ) :
    ∃ ls', MasterInvariant ls' none (threadAddEvent m arg val).1 := by
  unfold threadAddEvent
  obtain ⟨m',t,ls',hget,hgot⟩ := threadGet_spec h .event arg
  rw [hget]
  have hty : ((m'.setData t (withUnion (.val val))).data t).type=ListName.event.type := by
    rw [data_setData,if_pos rfl]
    exact hgot.type_eq
  exact ⟨_,give_spec (edit_spec hgot.inv _) hty fun dir => by cases dir <;> decide⟩

/-- Adding a timer: an unused thread enters a queue with its alarm. -/
structure TimerAdded (m : ThreadMaster ω) (q : QueueName) (sands : Timeval) (m' : ThreadMaster ω)
    (t : ℕ) : Prop where
  unused : ∀ {x}, x < m.fresh → x≠t ∨ (m.data x).type=.unused
  sands_eq : (m'.data t).u=.sands sands
  type_eq : (m'.data t).type=q.type
  content : ∀ {x}, x≠t → content (m'.data x)=content (m.data x)
  lives : ∀ {x}, x≠t → (x < m'.fresh ↔ x < m.fresh)
  live : t < m'.fresh

theorem threadAddTimerTimeval_spec (h : MasterInvariant ls none m) (q : QueueName) (arg : ω)
    (relativeTime timeRelative : Timeval) :
    ∃ m' t ls', threadAddTimerTimeval m q arg relativeTime timeRelative=(m',t) ∧
      MasterInvariant ls' none m' ∧ ls' .ready=ls .ready ∧
      TimerAdded m q (alarmTime relativeTime timeRelative) m' t := by
  unfold threadAddTimerTimeval
  obtain ⟨m1,t,ls',hget,hgot⟩ := threadGet_spec h q.type arg
  rw [hget]
  have hpl := edit_place hgot.inv.place
    (withUnion (.sands (alarmTime relativeTime timeRelative)))
  have hdata : (m1.setData t (withUnion (.sands (alarmTime relativeTime timeRelative)))).data
      t=withUnion (.sands (alarmTime relativeTime timeRelative)) (m1.data t) := by
    rw [data_setData,if_pos rfl]
  have htype : ((m1.setData t
      (withUnion (.sands (alarmTime relativeTime timeRelative)))).data t).type=q.type := by
    rw [hdata]
    exact hgot.type_eq
  have htag : Tagged ((m1.setData t
      (withUnion (.sands (alarmTime relativeTime timeRelative)))).data t) := by
    unfold Tagged
    rw [htype,hdata]
    cases q <;> exact ⟨_,rfl⟩
  obtain ⟨hpl',hstep⟩ := hpl.giveQueue htype htag
  have hcontent := hstep.content_eq
  have hoth : ∀ {x}, x≠t → content ((enqueue (m1.setData t
      (withUnion (.sands (alarmTime relativeTime timeRelative)))) q t).data x) =
      content (m1.data x) := by
    intro x hx
    rw [hcontent,data_setData,if_neg hx]
  have hself := hcontent t
  rw [hdata] at hself
  refine ⟨_,t,ls',rfl,⟨hpl',?_⟩,hgot.lists (by decide),hgot.unused,
    congrArg (fun c => c.2.2) hself,(congrArg Prod.fst hself).trans hgot.type_eq,?_,?_,?_⟩
  · refine fds_move hgot.inv.fds hstep.fdset hstep.fresh (fun x hx => (some_iff_none hx).symm)
      (fun x hx => hoth hx) not_waits_hand ?_
    refine not_waits_of_type fun dir => ?_
    have hty := (congrArg Prod.fst hself).trans hgot.type_eq
    change (ThreadMaster.data _ t).type=_ at hty
    rw [hty]
    cases q <;> cases dir <;> decide
  · intro x hx
    rw [hoth hx,hgot.data hx]
  · intro x hx
    rw [hstep.fresh]
    exact hgot.lives hx
  rw [hstep.fresh]
  exact hgot.inv.place.handLive t rfl

end

section

variable {ls : ListName→List ℕ} {m : ThreadMaster ω} {t : ℕ}

/-- A thread is recycled; nothing else changes. -/
structure Retired (m : ThreadMaster ω) (t : ℕ) (m' : ThreadMaster ω) : Prop where
  type_eq : (m'.data t).type=.unused
  content : ∀ {x}, x≠t → content (m'.data x)=content (m.data x)
  fresh : m'.fresh=m.fresh

/-- The thread in hand is recycled; the assertions hold. -/
theorem retire_spec (h : MasterInvariant ls (some t) m) :
    ∃ m', retire m t=some m' ∧ Retired m t m' ∧
      MasterInvariant (update ls .unuse (ls .unuse++[t])) none m' := by
  have hlive := h.place.handLive t rfl
  obtain ⟨hnext,hprev⟩ := h.place.loose t hlive (.inl rfl)
  obtain ⟨h1,h2⟩ := links_setData m t t (withType .unused)
  have hty : ((m.setData t (withType .unused)).data t).type=.unused := by
    rw [data_setData,if_pos rfl]
    rfl
  refine ⟨threadListAdd (m.setData t (withType .unused)) .unuse t,?_,⟨?_,fun hx => ?_,rfl⟩,
    give_spec (edit_spec h _) hty fun dir => by cases dir <;> decide⟩
  · rw [retire,threadAddUnuse,if_pos ⟨h1.trans hnext,h2.trans hprev,hty⟩]
  · rw [data_threadListAdd,hty]
  · rw [data_threadListAdd,data_setData,if_neg hx]

theorem take_spec (h : PlaceInvariant ls none m) (hf : FdInvariant (some t) m)
    (hls : ls name=as++t::bs) :
    MasterInvariant (update ls name (as++bs)) (some t) (threadListDelete m name t) := by
  refine ⟨h.take hls,fds_congr hf rfl fun {dir fd x} => ?_⟩
  have hc : content ((threadListDelete m name t).data x)=content (m.data x) := by
    rw [data_threadListDelete]
  exact waits_congr (by rfl) Iff.rfl hc dir fd

theorem fds_drop (h : FdInvariant none m) (ht : ∀ dir fd, ¬Waits m none dir fd t) :
    FdInvariant (some t) m :=
  fds_move h rfl rfl (fun _ hx => some_iff_none hx) (fun _ _ => rfl) ht
    not_waits_hand

/-- Clearing the bit of a thread that is about to be taken. -/
theorem fds_clear {fd : ℕ} (h : FdInvariant none m) (ht : Waits m none dir fd t) :
    FdInvariant (some t) (m.setFd dir fd false) := by
  have hoth : ∀ {dir' fd' x}, x≠t →
      (Waits (m.setFd dir fd false) (some t) dir' fd' x ↔ Waits m none dir' fd' x) :=
    fun {dir' fd' x} hx => waits_congr Iff.rfl (some_iff_none hx) rfl dir' fd'
  have hbit : ∀ dir' fd', (m.setFd dir fd false).fdset dir' fd'=true ↔
      ¬(dir'=dir ∧ fd'=fd) ∧ m.fdset dir' fd'=true := by
    intro dir' fd'
    change update m.fdset dir (update (m.fdset dir) fd false) dir' fd'=true ↔ _
    rw [update_update_apply]
    split <;> simp [*]
  refine ⟨fun dir' fd' hb => ?_,fun {dir' fd' x} hx => ?_,fun {dir' fd' x x'} hx hx' => ?_⟩
  · obtain ⟨hne,hold⟩ := (hbit dir' fd').mp hb
    obtain ⟨x,hx⟩ := h.waits dir' fd' hold
    have hxt : x≠t := by
      rintro rfl
      exact hne (eq_of_waits hx ht.1.2.2 ht.2)
    exact ⟨x,(hoth hxt).mpr hx⟩
  · have hxt : x≠t := by
      rintro rfl
      exact not_waits_hand dir' fd' hx
    have hw := (hoth hxt).mp hx
    refine (hbit dir' fd').mpr ⟨?_,h.isSet hw⟩
    rintro ⟨rfl,rfl⟩
    exact hxt (h.unique hw ht)
  have hxt : x≠t := by
    rintro rfl
    exact not_waits_hand dir' fd' hx
  have hxt' : x'≠t := by
    rintro rfl
    exact not_waits_hand dir' fd' hx'
  exact h.unique ((hoth hxt).mp hx) ((hoth hxt').mp hx')

theorem split_list (h : PlaceInvariant ls none m) (ht : t < m.fresh)
    (hty : (m.data t).type=name.type) : ∃ as bs, ls name=as++t::bs := by
  have hmem := (h.mem_list name t).mpr ⟨ht,(some_ne_none t).symm,hty⟩
  exact List.append_of_mem hmem

theorem cancelListed_spec (h : PlaceInvariant ls none m) (hf : FdInvariant (some t) m)
    (hls : ls name=as++t::bs) :
    ∃ m', cancelListed m name t=some m' ∧ Retired m t m' ∧
      MasterInvariant (update (update ls name (as++bs)) .unuse
        (update ls name (as++bs) .unuse++[t])) none m' := by
  obtain ⟨m',hm',hret,hinv⟩ := retire_spec (take_spec h hf hls)
  refine ⟨m',hm',⟨hret.type_eq,fun hx => ?_,hret.fresh⟩,hinv⟩
  rw [hret.content hx,data_threadListDelete]

section

variable (h : MasterInvariant ls none m)
include h

theorem cancelIo_spec (dir : IoName) (ht : t < m.fresh) (hty : (m.data t).type=dir.list.type) :
    ∃ m' ls', cancelIo m dir t=some m' ∧ Retired m t m' ∧ MasterInvariant ls' none m' := by
  have hn := (some_ne_none t).symm
  have hfd : ∃ fd, (m.data t).u=.fd fd := by
    have htag := h.place.tagged t ht hn
    unfold Tagged at htag
    rw [hty] at htag
    cases dir <;> exact htag
  obtain ⟨fd,hfd⟩ := hfd
  have hw : Waits m none dir fd t := ⟨⟨ht,hn,hty⟩,hfd⟩
  obtain ⟨as,bs,hls⟩ := split_list h.place ht hty
  obtain ⟨m',hm',hret,hinv⟩ :=
    cancelListed_spec (setFd_place h.place dir fd false) (fds_clear h.fds hw) hls
  refine ⟨m',_,?_,⟨hret.type_eq,fun hx => hret.content hx,hret.fresh⟩,hinv⟩
  unfold cancelIo
  rw [hfd]
  dsimp only [ThreadUnion.getFd]
  rw [if_pos (h.fds.isSet hw),hm']

theorem takeQueue_spec {q : QueueName} {k : ℕ} (hk : k<(m.queue q).size)
    (hkt : (m.queue q).array k=t) :
    MasterInvariant ls (some t) (removeAt m q k) ∧ QueueStep m (removeAt m q k) q ∧
      ((removeAt m q k).queue q).size+1=(m.queue q).size := by
  obtain ⟨hpl,hstep,hsize⟩ := h.place.takeQueue hk hkt
  have hty := ((h.place.mem_queue q t).mp ⟨k,hk,hkt⟩).2.2
  refine ⟨⟨hpl,?_⟩,hstep,hsize⟩
  refine fds_move h.fds hstep.fdset hstep.fresh (fun x hx => some_iff_none hx)
    (fun x _ => hstep.content_eq x) ?_ not_waits_hand
  refine not_waits_of_type fun dir => ?_
  rw [hty]
  cases q <;> cases dir <;> decide

theorem cancelQueued_spec (q : QueueName) (ht : t < m.fresh) (hty : (m.data t).type=q.type) :
    ∃ m', cancelQueued m q t=some m' ∧ Retired m t m' ∧
      MasterInvariant (update ls .unuse (ls .unuse++[t])) none m' := by
  have hmem := (h.place.mem_queue q t).mpr ⟨ht,(some_ne_none t).symm,hty⟩
  obtain ⟨k,hk,hkt⟩ := hmem
  have hindex : (m.data t).index=k := by
    have htr := (h.place.valid q).tracked k hk
    rw [hkt] at htr
    exact htr
  obtain ⟨htaken,hstep,-⟩ := takeQueue_spec h hk hkt
  obtain ⟨m',hm',hret,hinv⟩ := retire_spec htaken
  refine ⟨m',?_,⟨hret.type_eq,fun {x} hx => (hret.content hx).trans (hstep.content_eq x),
    hret.fresh.trans hstep.fresh⟩,hinv⟩
  unfold cancelQueued
  rw [hindex]
  dsimp only
  rw [Int.toNat_natCast,if_pos ⟨Int.natCast_nonneg k,hkt⟩,hm']

end

theorem cancelPlain_spec (name : ListName) (h : MasterInvariant ls none m) (ht : t < m.fresh)
    (hty : (m.data t).type=name.type) (hio : ∀ dir : IoName, name.type≠dir.list.type) :
    ∃ m' ls', cancelListed m name t=some m' ∧ Retired m t m' ∧ MasterInvariant ls' none m' := by
  obtain ⟨as,bs,hls⟩ := split_list h.place ht hty
  have hf := fds_drop h.fds (not_waits_of_type fun dir => by
    rw [hty]
    exact hio dir)
  obtain ⟨m',hm',hret,hinv⟩ := cancelListed_spec h.place hf hls
  exact ⟨m',_,hm',hret,hinv⟩

theorem threadCancel_spec (h : MasterInvariant ls none m) (ht : t < m.fresh) :
    ∃ m' ls', threadCancel m t=some m' ∧ MasterInvariant ls' none m' ∧ Retired m t m' := by
  unfold threadCancel
  cases hty : (m.data t).type with
  | read =>
    obtain ⟨m',ls',hm',hret,hinv⟩ := cancelIo_spec h .read ht hty
    exact ⟨m',ls',hm',hinv,hret⟩
  | write =>
    obtain ⟨m',ls',hm',hret,hinv⟩ := cancelIo_spec h .write ht hty
    exact ⟨m',ls',hm',hinv,hret⟩
  | timer =>
    obtain ⟨m',hm',hret,hinv⟩ := cancelQueued_spec h .timer ht hty
    exact ⟨m',_,hm',hinv,hret⟩
  | background =>
    obtain ⟨m',hm',hret,hinv⟩ := cancelQueued_spec h .background ht hty
    exact ⟨m',_,hm',hinv,hret⟩
  | event =>
    obtain ⟨m',ls',hm',hret,hinv⟩ := cancelPlain_spec .event h ht hty
      fun dir => by cases dir <;> decide
    exact ⟨m',ls',hm',hinv,hret⟩
  | ready =>
    obtain ⟨m',ls',hm',hret,hinv⟩ := cancelPlain_spec .ready h ht hty
      fun dir => by cases dir <;> decide
    exact ⟨m',ls',hm',hinv,hret⟩
  | unused => exact ⟨m,ls,rfl,h,hty,fun _ => rfl,rfl⟩
  | execute => exact absurd hty (h.place.known t ht (some_ne_none t).symm)

end

end RoutePlatform.ThreadScheduling
