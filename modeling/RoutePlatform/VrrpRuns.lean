import RoutePlatform.VrrpTimers

/-!
# Runs of the virtual routers of a device

Between two steps a virtual router has at most one timer thread and at most one
read thread, and a pointer to a thread that is set points to a scheduled one.
A tick therefore does the work of the timer once.
-/

namespace RoutePlatform.VrrpRuns

open VrrpOperations VrrpDevice VrrpTimers OperationRuns List Option Device

variable {v : VrrpRt} {d : Device} (ts : List VrrpThread)

section

variable {ts : List VrrpThread} {t : VrrpThread} {i j k next : ℕ}

theorem mem_timersOf : t∈timersOf ts i ↔ t∈ts ∧ t.kind=.timer ∧ t.vsrv=i := by simp [timersOf]

theorem mem_readsOf : t∈readsOf ts i ↔ t∈ts ∧ t.kind ≠ .timer ∧ t.vsrv=i := by simp [readsOf]

@[simp] theorem timersOf_append (ts us : List VrrpThread) (i : ℕ) :
    timersOf (ts++us) i=timersOf ts i++timersOf us i := filter_append ..

@[simp] theorem readsOf_append (ts us : List VrrpThread) (i : ℕ) :
    readsOf (ts++us) i=readsOf ts i++readsOf us i := filter_append ..

/-- The list without one thread object. -/
def without (ts : List VrrpThread) (k : ℕ) : List VrrpThread := ts.filter fun u => u.id≠k

theorem timersOf_without (ts : List VrrpThread) (k i : ℕ) :
    timersOf (without ts k) i=without (timersOf ts i) k := by
  rw [timersOf,without,without,timersOf,List.filter_filter,List.filter_filter]
  simp only [Bool.and_comm]

theorem readsOf_without (ts : List VrrpThread) (k i : ℕ) :
    readsOf (without ts k) i=without (readsOf ts i) k := by
  rw [readsOf,without,without,readsOf,List.filter_filter,List.filter_filter]
  simp only [Bool.and_comm]

theorem without_of_forall (h : ∀ u∈ts, u.id≠k) : without ts k=ts := by
  rw [without,filter_eq_self]
  intro u hu
  exact decide_eq_true (h u hu)

@[simp] theorem without_single (t : VrrpThread) : without [t] t.id=[] := by simp [without]

theorem length_without_le (ts : List VrrpThread) (k : ℕ) : (without ts k).length≤ts.length :=
  length_filter_le ..

/-- The scheduled threads between two steps. -/
structure ThreadsOk (ts : List VrrpThread) (next : ℕ) : Prop where
  timers : ∀ i, (timersOf ts i).length≤1
  reads : ∀ i, (readsOf ts i).length≤1
  unique : ∀ t∈ts, ∀ u∈ts, t.id=u.id → t=u
  below : ∀ t∈ts, t.id<next

/-- The pointers are to scheduled threads of its own, with a timer if there is a socket. -/
structure PtrOk (timers reads : List VrrpThread) (vif : VrrpIf) : Prop where
  timer : ∀ k, vif.zvrrpTimer=some k → ∃ t∈timers, t.id=k
  read : ∀ k, vif.zvrrpRead=some k → ∃ t∈reads, t.id=k
  sock : vif.sock≠0 → timers≠[]

theorem PtrOk.zero (timers reads : List VrrpThread) : PtrOk timers reads VrrpIf.zero :=
  ⟨nofun,nofun,fun hk => absurd rfl hk⟩

section

variable (h : ThreadsOk ts next)
include h

theorem ThreadsOk.without (k : ℕ) : ThreadsOk (without ts k) next where
  timers := fun i => by
    rw [timersOf_without]
    exact (length_without_le _ _).trans (h.timers i)
  reads := fun i => by
    rw [readsOf_without]
    exact (length_without_le _ _).trans (h.reads i)
  unique := fun t ht u hu => h.unique t (mem_filter.mp ht).1 u (mem_filter.mp hu).1
  below := fun t ht => h.below t (mem_filter.mp ht).1

theorem ThreadsOk.others_without (ht : t∈ts) (hj : j≠t.vsrv) :
    timersOf (VrrpRuns.without ts t.id) j=timersOf ts j ∧
      readsOf (VrrpRuns.without ts t.id) j=readsOf ts j := by
  have hne : ∀ u∈ts, u.vsrv=j → u.id≠t.id := by
    intro u hu hvsrv hid
    rw [h.unique u hu t ht hid] at hvsrv
    exact hj hvsrv.symm
  rw [timersOf_without,readsOf_without]
  exact ⟨without_of_forall fun u hu => hne u (mem_timersOf.mp hu).1 (mem_timersOf.mp hu).2.2,
    without_of_forall fun u hu => hne u (mem_readsOf.mp hu).1 (mem_readsOf.mp hu).2.2⟩

theorem ThreadsOk.readsOf_without (ht : t∈timersOf ts i) (j : ℕ) :
    readsOf (VrrpRuns.without ts t.id) j=readsOf ts j := by
  obtain ⟨hmem,hkind,_⟩ := mem_timersOf.mp ht
  rw [VrrpRuns.readsOf_without]
  refine without_of_forall fun u hu hid => ?_
  obtain ⟨hu,hread,_⟩ := mem_readsOf.mp hu
  rw [h.unique u hu t hmem hid] at hread
  exact hread hkind

theorem ThreadsOk.timersOf_without (ht : t∈readsOf ts i) (j : ℕ) :
    timersOf (VrrpRuns.without ts t.id) j=timersOf ts j := by
  obtain ⟨hmem,hkind,_⟩ := mem_readsOf.mp ht
  rw [VrrpRuns.timersOf_without]
  refine without_of_forall fun u hu hid => ?_
  obtain ⟨hu,htimer,_⟩ := mem_timersOf.mp hu
  rw [h.unique u hu t hmem hid] at htimer
  exact hkind htimer

end

theorem without_eq_nil (hlen : ts.length≤1) (ht : t∈ts) : without ts t.id=[] := by
  match ts, hlen, ht with
  | [u], _, ht =>
    rw [mem_singleton] at ht
    rw [ht,without_single]

/-- A thread is scheduled for a virtual router that has none of its kind. -/
theorem ThreadsOk.add (h : ThreadsOk ts next) {kind : ThreadKind}
    (hnone : if kind=.timer then timersOf ts i=[] else readsOf ts i=[]) :
    ThreadsOk (ts++[⟨next,kind,i⟩]) (next+1) where
  timers := fun j => by
    rw [timersOf_append,length_append]
    by_cases hkind : kind=.timer
    · rw [if_pos hkind] at hnone
      by_cases hij : i=j
      · subst hij
        rw [hnone]
        simp [timersOf,hkind]
      · simpa [timersOf,hij] using h.timers j
    · simpa [timersOf,hkind] using h.timers j
  reads := fun j => by
    rw [readsOf_append,length_append]
    by_cases hkind : kind=.timer
    · simpa [readsOf,hkind] using h.reads j
    rw [if_neg hkind] at hnone
    by_cases hij : i=j
    · subst hij
      rw [hnone]
      simp [readsOf,hkind]
    · simpa [readsOf,hij] using h.reads j
  unique := by
    intro t ht u hu hid
    rcases mem_append.mp ht with ht|ht <;> rcases mem_append.mp hu with hu|hu
    · exact h.unique t ht u hu hid
    · rw [mem_singleton.mp hu] at hid
      exact absurd hid (h.below t ht).ne
    · rw [mem_singleton.mp ht] at hid
      exact absurd hid.symm (h.below u hu).ne
    · rw [mem_singleton.mp ht,mem_singleton.mp hu]
  below := by
    intro t ht
    rcases mem_append.mp ht with ht|ht
    · exact (h.below t ht).trans (Nat.lt_succ_self next)
    rw [mem_singleton.mp ht]
    exact Nat.lt_succ_self next

end

structure DeviceOk (d : Device) : Prop where
  /-- State and timers of each virtual router are in step. -/
  vsrv : ∀ i, VsrvOk (d.vsrv i)
  ptr : ∀ i, PtrOk (d.timers i) (d.reads i) (d.vsrv i).vif
  threads : ThreadsOk d.threads d.next

section

variable {d : Device} {i : ℕ} {t : VrrpThread} {isDown : ℕ→Bool}

theorem zvrrpVsrvInit_ok : VsrvOk zvrrpVsrvInit :=
  ⟨by decide,by decide,by decide,by decide,rfl,nofun,nofun⟩

theorem zvrrpMasterInit_ok : DeviceOk zvrrpMasterInit where
  vsrv := fun _ => zvrrpVsrvInit_ok
  ptr := fun _ => PtrOk.zero _ _
  threads := ⟨fun _ => Nat.zero_le _,fun _ => Nat.zero_le _,nofun,nofun⟩

@[simp] theorem put_self (d : Device) (i : ℕ) (r : VrrpRt × List Frame) :
    (d.put i r).vsrv i=r.1 := Function.update_self ..

theorem put_of_ne (d : Device) {j : ℕ} (h : j≠i) (r : VrrpRt × List Frame) :
    (d.put i r).vsrv j=d.vsrv j := Function.update_of_ne h ..

theorem DeviceOk.put (h : DeviceOk d) {r : VrrpRt × List Frame} (hv : VsrvOk r.1)
    (hp : PtrOk (d.timers i) (d.reads i) r.1.vif) : DeviceOk (d.put i r) where
  vsrv := fun j => by
    by_cases hj : j=i
    · rw [hj,put_self]
      exact hv
    rw [put_of_ne d hj]
    exact h.vsrv j
  ptr := fun j => by
    by_cases hj : j=i
    · rw [hj,put_self]
      exact hp
    rw [put_of_ne d hj]
    exact h.ptr j
  threads := h.threads

theorem DeviceOk.put_vif (h : DeviceOk d) {r : VrrpRt × List Frame} (hv : VsrvOk r.1)
    (hvif : r.1.vif=(d.vsrv i).vif) : DeviceOk (d.put i r) :=
  h.put hv (hvif ▸ h.ptr i)

/-- The device but for the pointer to the read thread of one virtual router. -/
structure ReadPending (d : Device) (i : ℕ) : Prop where
  /-- State and timers of each virtual router are in step. -/
  vsrv : ∀ j, VsrvOk (d.vsrv j)
  others : ∀ j, j≠i → PtrOk (d.timers j) (d.reads j) (d.vsrv j).vif
  threads : ThreadsOk d.threads d.next
  /-- The pointer to the timer thread points to a scheduled one. -/
  timer : ∀ k, (d.vsrv i).vif.zvrrpTimer=some k → ∃ t∈d.timers i, t.id=k
  sock : (d.vsrv i).vif.sock≠0 → d.timers i≠[]

theorem VsrvOk.setRead (h : VsrvOk v) (k : Option ℕ) : VsrvOk (setRead v k) :=
  ⟨h.adverInt,h.delay,h.priority,h.oldpriority,h.track,h.master,h.backup⟩

theorem VsrvOk.setTimer (h : VsrvOk v) (k : Option ℕ) : VsrvOk (setTimer v k) :=
  ⟨h.adverInt,h.delay,h.priority,h.oldpriority,h.track,h.master,h.backup⟩

/-- The read thread is scheduled again, or its pointer is cleared. -/
theorem ReadPending.addRead (h : ReadPending d i) {fd : ℕ}
    (hnone : d.reads i=[] ∨ d.fdIsSet fd=true) : DeviceOk (d.addRead i fd) := by
  rw [Device.addRead]
  split
  · constructor
    · intro j
      by_cases hj : j=i
      · rw [hj,put_self]
        exact VsrvOk.setRead (h.vsrv i) none
      rw [put_of_ne d hj]
      exact h.vsrv j
    · intro j
      by_cases hj : j=i
      · rw [hj,put_self]
        exact ⟨h.timer,nofun,h.sock⟩
      rw [put_of_ne d hj]
      exact h.others j hj
    · exact h.threads
  · rename_i hset
    have hreads := hnone.resolve_right hset
    constructor
    · intro j
      by_cases hj : j=i
      · rw [hj,put_self]
        exact VsrvOk.setRead (h.vsrv i) _
      rw [put_of_ne _ hj]
      exact h.vsrv j
    · intro j
      have htimers : timersOf (d.threads++[⟨d.next,.read fd false,i⟩]) j=d.timers j := by
        rw [timersOf_append]
        simp [timersOf,Device.timers]
      change PtrOk (timersOf (d.threads++[⟨d.next,.read fd false,i⟩]) j)
        (readsOf (d.threads++[⟨d.next,.read fd false,i⟩]) j) _
      rw [htimers,readsOf_append]
      by_cases hj : j=i
      · subst hj
        rw [put_self]
        refine ⟨h.timer,fun k hk => ?_,h.sock⟩
        have hk' := some.inj hk
        exact ⟨⟨d.next,.read fd false,j⟩,by simp [readsOf],hk'⟩
      have hnew : readsOf [⟨d.next,.read fd false,i⟩] j=[] := by simp [readsOf,Ne.symm hj]
      rw [put_of_ne _ hj,hnew,append_nil]
      exact h.others j hj
    · exact h.threads.add (by rw [if_neg (by simp)]; exact hreads)

/-- A virtual router without a timer thread gets one. -/
theorem ReadPending.addTimer (hv : ∀ j, VsrvOk (d.vsrv j))
    (hoths : ∀ j, j≠i → PtrOk (d.timers j) (d.reads j) (d.vsrv j).vif)
    (hthreads : ThreadsOk d.threads d.next) (hnone : d.timers i=[]) :
    ReadPending (d.addTimer i) i := by
  have htimers : (d.addTimer i).timers i=[⟨d.next,.timer,i⟩] := by
    change timersOf (d.threads++[⟨d.next,.timer,i⟩]) i=_
    rw [timersOf_append,show timersOf d.threads i=[] from hnone]
    simp [timersOf]
  constructor
  · intro j
    rw [Device.addTimer]
    by_cases hj : j=i
    · rw [hj,put_self]
      exact VsrvOk.setTimer (hv i) _
    rw [put_of_ne _ hj]
    exact hv j
  · intro j hj
    have hnew : timersOf [⟨d.next,.timer,i⟩] j=[] := by simp [timersOf,Ne.symm hj]
    have hreads : readsOf [⟨d.next,.timer,i⟩] j=[] := by simp [readsOf]
    change PtrOk (timersOf (d.threads++[⟨d.next,.timer,i⟩]) j)
      (readsOf (d.threads++[⟨d.next,.timer,i⟩]) j) _
    rw [timersOf_append,readsOf_append,hnew,hreads,append_nil,append_nil,
      Device.addTimer,put_of_ne _ hj]
    exact hoths j hj
  · exact hthreads.add (by rw [if_pos rfl]; exact hnone)
  · intro k hk
    rw [htimers]
    have hk' : d.next=k := by
      rw [Device.addTimer,put_self] at hk
      exact some.inj hk
    exact ⟨_,mem_singleton_self _,hk'⟩
  · intro _
    rw [htimers]
    exact cons_ne_nil _ _

theorem DeviceOk.deviceTick_eq (h : DeviceOk d) (i : ℕ) (isDown : ℕ→Bool) :
    (d.timers i=[] ∧ deviceTick d i isDown=d) ∨ ∃ t, d.timers i=[t] ∧
        deviceTick d i isDown=zvrrpTimerThread (d.removeThread t) i isDown := by
  have hlen := h.threads.timers i
  rw [deviceTick,timers]
  match timersOf d.threads i, hlen with
  | [], _ => exact Or.inl ⟨rfl,rfl⟩
  | [t], _ => exact Or.inr ⟨t,rfl,rfl⟩

theorem zvrrpTimerThread_self (d : Device) (i : ℕ) (isDown : ℕ→Bool) :
    (zvrrpTimerThread d i isDown).vsrv i =
      setTimer (timerWork (d.vsrv i) isDown).1 (some d.next) := by
  rw [zvrrpTimerThread,addTimer,put_self,put_self]
  rfl

theorem DeviceOk.tick (h : DeviceOk d) (i : ℕ) (isDown : ℕ→Bool) :
    DeviceOk (deviceTick d i isDown) := by
  rcases h.deviceTick_eq i isDown with ⟨_,heq⟩|⟨t,ht,heq⟩
  · rw [heq]
    exact h
  have hmem : t∈d.timers i := by rw [ht]; exact mem_singleton_self t
  obtain ⟨hth,_,hvsrv⟩ := mem_timersOf.mp hmem
  have hvsrv' : ∀ j, VsrvOk (((d.removeThread t).put i (timerWork (d.vsrv i) isDown)).vsrv j) := by
    intro j
    by_cases hj : j=i
    · rw [hj,put_self]
      exact (h.vsrv i).timerWork isDown
    rw [put_of_ne _ hj]
    exact h.vsrv j
  have hoths : ∀ j, j≠i → PtrOk (timersOf (without d.threads t.id) j)
      (readsOf (without d.threads t.id) j)
      (((d.removeThread t).put i (timerWork (d.vsrv i) isDown)).vsrv j).vif := by
    intro j hj
    obtain ⟨htimers,hreads⟩ := h.threads.others_without hth (hvsrv ▸ hj)
    rw [htimers,hreads,put_of_ne _ hj]
    exact h.ptr j
  have hnone : timersOf (without d.threads t.id) i=[] := by
    rw [timersOf_without]
    exact without_eq_nil (h.threads.timers i) hmem
  have hpending := ReadPending.addTimer hvsrv' hoths (h.threads.without t.id) hnone
  have hreads : (zvrrpTimerThread (d.removeThread t) i isDown).reads i=d.reads i := by
    change readsOf (without d.threads t.id++[⟨d.next,.timer,i⟩]) i=_
    rw [readsOf_append,h.threads.readsOf_without hmem]
    simp [readsOf,reads]
  rw [heq]
  refine ⟨hpending.vsrv,fun j => ?_,hpending.threads⟩
  by_cases hj : j=i
  · subst hj
    refine ⟨hpending.timer,fun k hk => ?_,hpending.sock⟩
    rw [zvrrpTimerThread_self] at hk
    rw [hreads]
    refine (h.ptr j).read k ?_
    rw [←timerWork_vif (d.vsrv j) isDown]
    exact hk
  · exact hpending.others j hj

theorem DeviceOk.pktHandle (h : DeviceOk d) (p : VrrpPkt) : DeviceOk (zvrrpPktHandle d p) := by
  rw [zvrrpPktHandle]
  split
  · exact h
  split
  · exact h
  split
  · exact h
  · exact h.put_vif ((h.vsrv p.vrid).receive p) (receive_vif _ p)

theorem DeviceOk.callRead (h : DeviceOk d) (k : ℕ) (packet : Option VrrpPkt) :
    DeviceOk (callRead d k packet) := by
  rw [VrrpDevice.callRead]
  split
  · rename_i t hfind
    have hth := mem_of_find?_eq_some hfind
    split
    · rename_i fd hkind
      have hmem := mem_readsOf.mpr ⟨hth,by rw [hkind]; simp,rfl⟩
      have hnone : readsOf (without d.threads t.id) t.vsrv=[] := by
        rw [readsOf_without]
        exact without_eq_nil (h.threads.reads t.vsrv) hmem
      have hpending : ReadPending (d.removeThread t) t.vsrv := by
        refine ⟨h.vsrv,fun j hj => ?_,h.threads.without t.id,?_,?_⟩
        · obtain ⟨htimers,hreads⟩ := h.threads.others_without hth hj
          change PtrOk (timersOf (without d.threads t.id) j)
            (readsOf (without d.threads t.id) j) (d.vsrv j).vif
          rw [htimers,hreads]
          exact h.ptr j
        · change ∀ k, _ → ∃ u∈timersOf (without d.threads t.id) t.vsrv, u.id=k
          rw [h.threads.timersOf_without hmem]
          exact (h.ptr t.vsrv).timer
        change _ → timersOf (without d.threads t.id) t.vsrv≠[]
        rw [h.threads.timersOf_without hmem]
        exact (h.ptr t.vsrv).sock
      have hread : DeviceOk ((d.removeThread t).addRead t.vsrv (d.vsrv t.vsrv).vif.sock) :=
        hpending.addRead (Or.inl hnone)
      cases packet with
      | none => exact hread
      | some p => exact hread.pktHandle p
    · exact h
  · exact h

/-- What a thread waits for when its socket has become readable. -/
def polled (k : ℕ) (t : VrrpThread) : VrrpThread :=
  match t.kind with
  | .timer => t
  | .read fd _ => if t.id=k then {t with kind := .read fd true} else t

theorem polled_spec (k : ℕ) (t : VrrpThread) : (polled k t).id=t.id ∧ (polled k t).vsrv=t.vsrv ∧
      ((polled k t).kind=.timer ↔ t.kind=.timer) := by
  unfold polled
  split
  · exact ⟨rfl,rfl,Iff.rfl⟩
  rename_i hkind
  split
  · exact ⟨rfl,rfl,by rw [hkind]; simp⟩
  · exact ⟨rfl,rfl,Iff.rfl⟩

theorem timersOf_polled (k i : ℕ) :
    timersOf (ts.map (polled k)) i=(timersOf ts i).map (polled k) := by
  rw [timersOf,timersOf,List.filter_map]
  congr 1
  apply filter_congr
  intro t _
  simp [polled_spec k t]

theorem readsOf_polled (k i : ℕ) : readsOf (ts.map (polled k)) i=(readsOf ts i).map (polled k) := by
  rw [readsOf,readsOf,List.filter_map]
  congr 1
  apply filter_congr
  intro t _
  simp [polled_spec k t]

theorem DeviceOk.poll (h : DeviceOk d) (k : ℕ) : DeviceOk (pollRead d k) := by
  have hmap : ∀ {ts : List VrrpThread} {m : ℕ}, (∃ t∈ts, t.id=m) →
      ∃ t∈ts.map (polled k), t.id=m := by
    rintro ts m ⟨t,ht,hid⟩
    exact ⟨polled k t,mem_map_of_mem ht,(polled_spec k t).1.trans hid⟩
  refine ⟨h.vsrv,fun i => ?_,?_,?_,?_,?_⟩
  · change PtrOk (timersOf (d.threads.map (polled k)) i) (readsOf (d.threads.map (polled k)) i) _
    rw [timersOf_polled,readsOf_polled]
    refine ⟨fun m hm => hmap ((h.ptr i).timer m hm),fun m hm => hmap ((h.ptr i).read m hm),
      fun hsock hnil => (h.ptr i).sock hsock ?_⟩
    exact map_eq_nil_iff.mp hnil
  · intro i
    change (timersOf (d.threads.map (polled k)) i).length≤1
    rw [timersOf_polled,length_map]
    exact h.threads.timers i
  · intro i
    change (readsOf (d.threads.map (polled k)) i).length≤1
    rw [readsOf_polled,length_map]
    exact h.threads.reads i
  · intro t ht u hu hid
    obtain ⟨t',ht',rfl⟩ := mem_map.mp (show t∈d.threads.map (polled k) from ht)
    obtain ⟨u',hu',rfl⟩ := mem_map.mp (show u∈d.threads.map (polled k) from hu)
    rw [(polled_spec k t').1,(polled_spec k u').1] at hid
    rw [h.threads.unique t' ht' u' hu' hid]
  intro t ht
  obtain ⟨t',ht',rfl⟩ := mem_map.mp (show t∈d.threads.map (polled k) from ht)
  rw [(polled_spec k t').1]
  exact h.threads.below t' ht'

/-- The value of a command is in the range that the command line takes. -/
def InRange : VrrpCommand→Prop
  | .setPri value => 1≤value ∧ value≤255
  | .setInterval value => 1≤value ∧ value≤255
  | .setPreemptDelay value => 1≤value ∧ value≤255
  | _ => True

/-- The command leaves no master without what it needs and makes no second
thread. -/
def CommandOk (d : Device) (i : ℕ) : VrrpCommand→Prop
  | .disableVrs => (d.vsrv i).state ≠ .master
  | .delInterface (some ifp) =>
    zvrrpIfLookupByIfindex d ifp.ifindex=true → (d.vsrv i).state ≠ .master
  | .addInterface (some ifp) ret =>
    zvrrpIfLookupByIfindex d ifp.ifindex=false → ((d.vsrv i).state=.master → ifp.connected≠[]) ∧
      (ret≠0 → d.timers i=[] ∧
        (d.reads i=[] ∨ d.fdIsSet (attachIf (d.vsrv i).vif ifp ret).sock=true))
  | _ => True

/-- The device after threads of one virtual router were cancelled. -/
structure Cancelled (d d' : Device) (i : ℕ) : Prop where
  vsrv : d'.vsrv=d.vsrv
  threads : ThreadsOk d'.threads d'.next
  others : ∀ j, j≠i → d'.timers j=d.timers j ∧ d'.reads j=d.reads j

/-- A pointer that is set is found, and only its thread is cancelled. -/
theorem threadCancel_spec (h : ThreadsOk d.threads d.next) {p : Option ℕ}
    (hp : ∀ k, p=some k → ∃ t∈d.threads, t.vsrv=i ∧ t.id=k) :
    ∃ d', d.threadCancel p=some d' ∧ Cancelled d d' i ∧
      ∀ t∈d.threads, p≠some t.id → t∈d'.threads := by
  cases p with
  | none => exact ⟨d,rfl,⟨rfl,h,fun _ _ => ⟨rfl,rfl⟩⟩,fun _ ht _ => ht⟩
  | some k =>
    obtain ⟨t,ht,hi,rfl⟩ := hp k rfl
    have hfind : d.findThread t.id=some t := by
      rw [findThread]
      cases hu : d.threads.find? (fun u => u.id=t.id) with
      | none =>
        have hnot := find?_eq_none.mp hu t ht
        exact absurd (decide_eq_true rfl) hnot
      | some u =>
        have hid : u.id=t.id := by simpa using find?_some hu
        rw [h.unique u (mem_of_find?_eq_some hu) t ht hid]
    refine ⟨d.removeThread t,by rw [threadCancel,hfind]; rfl,⟨rfl,h.without t.id,?_⟩,?_⟩
    · intro j hj
      exact h.others_without ht (hi ▸ hj)
    intro u hu hne
    exact mem_filter.mpr ⟨hu,decide_eq_true fun hid => hne (by rw [hid])⟩

theorem DeviceOk.interfaceDel (h : DeviceOk d) (ifp : Interface)
    (hc : CommandOk d i (.delInterface (some ifp))) :
    ∃ ret d', zvrrpInterfaceDel d i ifp=some (ret,d') ∧ DeviceOk d' := by
  rw [zvrrpInterfaceDel]
  cases hlk : zvrrpIfLookupByIfindex d ifp.ifindex with
  | false => exact ⟨_,d,rfl,h⟩
  | true =>
    obtain ⟨d1,hd1,hc1,hkeep⟩ := threadCancel_spec (i := i) h.threads
      (p := (d.vsrv i).vif.zvrrpRead) (by
        intro k hk
        obtain ⟨t,ht,hid⟩ := (h.ptr i).read k hk
        obtain ⟨hmem,_,hi⟩ := mem_readsOf.mp ht
        exact ⟨t,hmem,hi,hid⟩)
    obtain ⟨d2,hd2,hc2,_⟩ := threadCancel_spec (i := i) hc1.threads
      (p := (d.vsrv i).vif.zvrrpTimer) (by
        intro k hk
        obtain ⟨t,ht,hid⟩ := (h.ptr i).timer k hk
        obtain ⟨hmem,hkind,hi⟩ := mem_timersOf.mp ht
        refine ⟨t,hkeep t hmem fun hread => ?_,hi,hid⟩
        obtain ⟨u,hu,huid⟩ := (h.ptr i).read t.id hread
        obtain ⟨humem,hukind,_⟩ := mem_readsOf.mp hu
        rw [h.threads.unique u humem t hmem huid] at hukind
        exact hukind hkind)
    have hv : VsrvOk {d.vsrv i with vif := VrrpIf.zero} :=
      ⟨(h.vsrv i).adverInt,(h.vsrv i).delay,(h.vsrv i).priority,(h.vsrv i).oldpriority,
        (h.vsrv i).track,fun hm => absurd hm (hc hlk),(h.vsrv i).backup⟩
    refine ⟨vrrpOk,d2.put i ({d.vsrv i with vif := VrrpIf.zero},[]),?_,?_,?_,hc2.threads⟩
    · rw [if_neg (by decide),hd1,bind_some,hd2]
      rfl
    · intro j
      by_cases hj : j=i
      · rw [hj,put_self]
        exact hv
      rw [put_of_ne _ hj,hc2.vsrv,hc1.vsrv]
      exact h.vsrv j
    intro j
    by_cases hj : j=i
    · rw [hj,put_self]
      exact PtrOk.zero _ _
    obtain ⟨ht1,hr1⟩ := hc1.others j hj
    obtain ⟨ht2,hr2⟩ := hc2.others j hj
    change PtrOk (d2.timers j) (d2.reads j) _
    rw [ht2,hr2,ht1,hr1,put_of_ne _ hj,hc2.vsrv,hc1.vsrv]
    exact h.ptr j

/-- A virtual router without threads gets an interface. -/
theorem DeviceOk.interfaceAdd (h : DeviceOk d) (ifp : Interface) (ret : ℤ)
    (hc : CommandOk d i (.addInterface (some ifp) ret)) :
    DeviceOk (zvrrpInterfaceAdd d i ifp ret).2 := by
  rw [zvrrpInterfaceAdd]
  cases hlk : zvrrpIfLookupByIfindex d ifp.ifindex with
  | true => exact h
  | false =>
    obtain ⟨hmaster,hthreads⟩ := hc hlk
    have hv : VsrvOk {d.vsrv i with vif := attachIf (d.vsrv i).vif ifp ret} := by
      refine ⟨(h.vsrv i).adverInt,(h.vsrv i).delay,(h.vsrv i).priority,(h.vsrv i).oldpriority,
        (h.vsrv i).track,fun hm => ?_,(h.vsrv i).backup⟩
      obtain ⟨hused,henable,_,htimer⟩ := (h.vsrv i).master hm
      refine ⟨hused,henable,?_,htimer⟩
      change ifp.connected.head?.isSome=true
      rw [isSome_head?]
      simpa using hmaster hm
    rw [if_neg Bool.false_ne_true]
    dsimp only
    by_cases hret : ret=0
    · rw [if_neg (not_not_intro hret)]
      refine h.put hv ⟨(h.ptr i).timer,(h.ptr i).read,fun hsock => ?_⟩
      rw [hret] at hsock
      exact absurd rfl hsock
    obtain ⟨htimers,hreads⟩ := hthreads hret
    rw [if_pos hret]
    have hput : ∀ j, VsrvOk
        ((d.put i ({d.vsrv i with vif := attachIf (d.vsrv i).vif ifp ret},[])).vsrv j) := by
      intro j
      by_cases hj : j=i
      · rw [hj,put_self]
        exact hv
      rw [put_of_ne _ hj]
      exact h.vsrv j
    have hoths : ∀ j, j≠i → PtrOk (d.timers j) (d.reads j)
        ((d.put i ({d.vsrv i with vif := attachIf (d.vsrv i).vif ifp ret},[])).vsrv j).vif := by
      intro j hj
      rw [put_of_ne _ hj]
      exact h.ptr j
    refine (ReadPending.addTimer hput hoths h.threads htimers).addRead ?_
    refine hreads.imp (fun hnil => ?_) (fun hset => ?_)
    · change readsOf (d.threads++[⟨d.next,.timer,i⟩]) i=[]
      rw [readsOf_append,show readsOf d.threads i=[] from hnil]
      simp [readsOf]
    have hany := hset
    rw [fdIsSet] at hany
    rw [fdIsSet,addTimer]
    change (d.threads++[(⟨d.next,.timer,i⟩ : VrrpThread)]).any _=true
    rw [any_append,hany]
    rfl

theorem VsrvOk.addIpaddr (h : VsrvOk v) (ipaddr : ℕ) : VsrvOk (vrrpAddIpaddr v ipaddr).2.1 := by
  unfold vrrpAddIpaddr
  split
  · exact h
  · exact ⟨h.adverInt,h.delay,h.priority,h.oldpriority,h.track,h.master,h.backup⟩

theorem addIpaddr_vif (v : VrrpRt) (ipaddr : ℕ) : (vrrpAddIpaddr v ipaddr).2.1.vif=v.vif := by
  unfold vrrpAddIpaddr
  split <;> rfl

theorem VsrvOk.delIpaddr (h : VsrvOk v) (ipaddr : ℕ) : VsrvOk (vrrpDelIpaddr v ipaddr).2 := by
  unfold vrrpDelIpaddr
  split
  · exact h
  split
  · exact ⟨h.adverInt,h.delay,h.priority,h.oldpriority,h.track,h.master,h.backup⟩
  · exact h

theorem delIpaddr_vif (v : VrrpRt) (ipaddr : ℕ) : (vrrpDelIpaddr v ipaddr).2.vif=v.vif := by
  unfold vrrpDelIpaddr
  split
  · rfl
  · split <;> rfl

/-- A command that keeps to the condition keeps the invariant. -/
theorem DeviceOk.command (h : DeviceOk d) (cmd : VrrpCommand) (hrange : InRange cmd)
    (hc : CommandOk d i cmd) :
    ∃ ret d', zvrrpVsrvCommand d i cmd=some (ret,d') ∧ DeviceOk d' := by
  have hi := h.vsrv i
  have hset : ∀ f : VrrpRt → VrrpRt, VsrvOk (f (d.vsrv i)) → (f (d.vsrv i)).vif=(d.vsrv i).vif →
      ∃ ret d', d.setFields i f=some (ret,d') ∧ DeviceOk d' := by
    intro f hv hvif
    have hput : DeviceOk (d.put i (f (d.vsrv i),[])) := h.put_vif hv hvif
    exact ⟨vrrpOk,_,rfl,hput⟩
  cases cmd with
  | addVrs =>
    rw [zvrrpVsrvCommand]
    split
    · exact ⟨_,d,rfl,h⟩
    refine ⟨_,_,rfl,h.put ?_ (PtrOk.zero _ _)⟩
    exact ⟨zvrrpVsrvInit_ok.adverInt,zvrrpVsrvInit_ok.delay,zvrrpVsrvInit_ok.priority,
      zvrrpVsrvInit_ok.oldpriority,rfl,nofun,nofun⟩
  | delVrs => exact ⟨_,_,rfl,h.put zvrrpVsrvInit_ok (PtrOk.zero _ _)⟩
  | enableVrs =>
    refine hset (fun v => {v with enable := true})
      ⟨hi.adverInt,hi.delay,hi.priority,hi.oldpriority,hi.track,fun hm => ?_,
      hi.backup⟩ rfl
    obtain ⟨hused,_,haddr,htimer⟩ := hi.master hm
    exact ⟨hused,rfl,haddr,htimer⟩
  | disableVrs =>
    exact hset (fun v => {v with enable := false})
      ⟨hi.adverInt,hi.delay,hi.priority,hi.oldpriority,hi.track,
      fun hm => absurd hm hc,hi.backup⟩ rfl
  | addIp ipaddress =>
    rw [zvrrpVsrvCommand]
    split
    · exact ⟨_,d,rfl,h⟩
    · exact ⟨_,_,rfl,h.put_vif (VsrvOk.addIpaddr hi ipaddress) (addIpaddr_vif _ ipaddress)⟩
  | delIp ipaddress =>
    rw [zvrrpVsrvCommand]
    split
    · exact ⟨_,d,rfl,h⟩
    · exact ⟨_,_,rfl,h.put_vif (VsrvOk.delIpaddr hi ipaddress) (delIpaddr_vif _ ipaddress)⟩
  | setPri value =>
    exact hset (fun v => {v with oldpriority := v.priority,priority := value})
      ⟨hi.adverInt,hi.delay,hrange,hi.priority,hi.track,hi.master,hi.backup⟩ rfl
  | unsetPri =>
    exact hset (fun v => {v with priority := v.oldpriority})
      ⟨hi.adverInt,hi.delay,hi.oldpriority,hi.oldpriority,hi.track,hi.master,
      hi.backup⟩ rfl
  | setInterval value =>
    have hpos : 0<toU32 value := toU32_pos (by have hr := hrange.1; omega)
      (by have hr := hrange.2; omega)
    refine hset (fun v => {v with adverInt := value,adverTimer := toU32 value})
      ⟨hrange,hi.delay,hi.priority,hi.oldpriority,hi.track,fun hm => ?_,
      hi.backup⟩ rfl
    obtain ⟨hused,henable,haddr,_⟩ := hi.master hm
    exact ⟨hused,henable,haddr,hpos⟩
  | unsetInterval =>
    refine hset (fun v => {v with adverInt := 1,adverTimer := 1})
      ⟨(show (1 : ℤ)≤1 ∧ (1 : ℤ)≤255 by decide),hi.delay,hi.priority,hi.oldpriority,hi.track,fun hm => ?_,
      hi.backup⟩ rfl
    obtain ⟨hused,henable,haddr,_⟩ := hi.master hm
    exact ⟨hused,henable,haddr,one_pos⟩
  | setPreempt =>
    exact hset (fun v => {v with preempt := true})
      ⟨hi.adverInt,hi.delay,hi.priority,hi.oldpriority,hi.track,hi.master,
      hi.backup⟩ rfl
  | unsetPreempt =>
    exact hset (fun v => {v with preempt := false})
      ⟨hi.adverInt,hi.delay,hi.priority,hi.oldpriority,hi.track,hi.master,
      hi.backup⟩ rfl
  | setPreemptDelay value =>
    have hdelay : 0≤value ∧ value≤255 := ⟨by have hr := hrange.1; omega,hrange.2⟩
    exact hset (fun v => {v with delay := value})
      ⟨hi.adverInt,hdelay,hi.priority,hi.oldpriority,hi.track,hi.master,
      hi.backup⟩ rfl
  | unsetPreemptDelay =>
    exact hset (fun v => {v with delay := 0})
      ⟨hi.adverInt,(show (0 : ℤ)≤0 ∧ (0 : ℤ)≤255 by decide),hi.priority,hi.oldpriority,hi.track,hi.master,
      hi.backup⟩ rfl
  | addInterface ifp ret =>
    cases ifp with
    | none => exact ⟨_,d,rfl,h⟩
    | some ifp => exact ⟨_,_,rfl,h.interfaceAdd ifp ret hc⟩
  | delInterface ifp =>
    cases ifp with
    | none => exact ⟨_,d,rfl,h⟩
    | some ifp => exact h.interfaceDel ifp hc

end

/-- The value of a command is one that the command line takes. -/
def OpInRange : DeviceOp→Prop
  | .command _ cmd => InRange cmd
  | _ => True

/-- The condition under which a step keeps state and timers in step. -/
def StepOk (d : Device) : DeviceOp→Prop
  | .command vrid cmd => zvrrpVsrvLookup vrid=true → CommandOk d vrid cmd
  | _ => True

/-- Every step is in range and meets the condition. -/
def OpOk (d : Device) (op : DeviceOp) : Prop := OpInRange op ∧ StepOk d op

theorem DeviceOk.step (h : DeviceOk d) (op : DeviceOp) (hop : OpOk d op) :
    ∃ d', deviceStep d op=some d' ∧ DeviceOk d' := by
  cases op with
  | command vrid cmd =>
    rw [deviceStep,zvrrpCmdConfigProcess]
    split
    · rename_i hlk
      obtain ⟨ret,d',hd',hok⟩ := h.command cmd hop.1 (hop.2 hlk)
      exact ⟨d',by rw [hd']; rfl,hok⟩
    · exact ⟨d,rfl,h⟩
  | tick i isDown => exact ⟨_,rfl,h.tick i isDown⟩
  | poll k => exact ⟨_,rfl,h.poll k⟩
  | packet k packet => exact ⟨_,rfl,h.callRead k packet⟩

/-- A master is used, enabled, has an address and a timer, a backup a master down timer; threads are
unique. -/
structure InStep (d : Device) : Prop where
  master : ∀ i, (d.vsrv i).state=.master → (d.vsrv i).used=true ∧ (d.vsrv i).enable=true ∧
    (d.vsrv i).vif.address.isSome=true ∧ 0<(d.vsrv i).adverTimer
  backup : ∀ i, (d.vsrv i).state=.backup → 0<(d.vsrv i).msDownTimer
  timers : ∀ i, (d.timers i).length≤1
  reads : ∀ i, (d.reads i).length≤1

/-- A tick does the work of the timer of a virtual router exactly once. -/
def TicksOnce (d : Device) : Prop := ∀ i isDown,
  (d.timers i=[] → deviceTick d i isDown=d) ∧
  (d.timers i≠[] → (deviceTick d i isDown).vsrv i =
    setTimer (timerWork (d.vsrv i) isDown).1 (some d.next)) ∧
  (zvrrpCheckEnable (d.vsrv i)=true → d.timers i≠[])

theorem DeviceOk.inStep (h : DeviceOk d) : InStep d :=
  ⟨fun i => (h.vsrv i).master,fun i => (h.vsrv i).backup,h.threads.timers,h.threads.reads⟩

theorem DeviceOk.ticksOnce (h : DeviceOk d) : TicksOnce d := by
  intro i isDown
  refine ⟨?_,?_,fun hchk => (h.ptr i).sock ?_⟩
  · rcases h.deviceTick_eq i isDown with ⟨_,heq⟩|⟨t,ht,_⟩
    · exact fun _ => heq
    intro hnil
    rw [ht] at hnil
    exact absurd hnil (cons_ne_nil t [])
  · rcases h.deviceTick_eq i isDown with ⟨hnil,_⟩|⟨t,_,heq⟩
    · exact fun hne => absurd hnil hne
    intro _
    rw [heq,zvrrpTimerThread_self]
    rfl
  simp only [zvrrpCheckEnable,Bool.and_eq_true,bne_iff_ne] at hchk
  exact hchk.1.1.2

/-- In every run that keeps the condition none fails, and state and timers stay in step. -/
theorem deviceRun_inStep (ops : List DeviceOp) (hl : LegalRun deviceStep OpOk zvrrpMasterInit ops) :
    ∃ d, run deviceStep zvrrpMasterInit ops=some d ∧ InStep d ∧ TicksOnce d := by
  obtain ⟨d,hd,hok⟩ := run_invariant (fun d op h hop => DeviceOk.step h op hop) ops
    zvrrpMasterInit zvrrpMasterInit_ok hl
  exact ⟨d,hd,hok.inStep,hok.ticksOnce⟩

def sampleInterface : Interface := ⟨2,[⟨.ofBytes 192 0 2 1,24⟩],1⟩

/-- A virtual router is created, configured and enabled. -/
def startOps (sock : ℤ) : List DeviceOp :=
  [.command 1 .addVrs,.command 1 .enableVrs,.command 1 (.addIp 3221225994),
    .command 1 (.addInterface (some sampleInterface) sock)]

/-- Four seconds pass. -/
def fourTicks : List DeviceOp := List.replicate 4 (.tick 1 fun _ => false)

theorem deviceRun_inStep_start :
    ∃ d, run deviceStep zvrrpMasterInit (startOps 5++fourTicks)=some d ∧
      InStep d ∧ TicksOnce d := by
  refine deviceRun_inStep _ ⟨⟨trivial,fun _ => trivial⟩,fun d hd => ?_⟩
  cases hd
  refine ⟨⟨trivial,fun _ => trivial⟩,fun d hd => ?_⟩
  cases hd
  refine ⟨⟨trivial,fun _ => trivial⟩,fun d hd => ?_⟩
  cases hd
  refine ⟨⟨trivial,fun _ _ => ⟨fun _ => cons_ne_nil _ _,fun _ => ⟨rfl,Or.inl rfl⟩⟩⟩,fun d _ => ?_⟩
  refine legalRun_of_forall (fun op hop s => ?_) d
  rw [eq_of_mem_replicate hop]
  exact ⟨trivial,trivial⟩

def disableOps : List DeviceOp := startOps 5++fourTicks++[.command 1 .disableVrs]

/-- The interface of a master is removed. -/
def removeOps : List DeviceOp :=
  startOps 5++fourTicks++[.command 1 (.delInterface (some sampleInterface))]

/-- A virtual router is deleted and set up again. -/
def againOps : List DeviceOp := startOps 5++[.command 1 .delVrs]++startOps 6

set_option maxRecDepth 4000 in
/-- A disabled master stays master, one has no address, and threads are doubled. -/
theorem deviceRun_out_of_step : (∀ op∈disableOps++removeOps++againOps, OpInRange op) ∧
    (∃ d, run deviceStep zvrrpMasterInit disableOps=some d ∧
      (d.vsrv 1).state=.master ∧ (d.vsrv 1).enable=false ∧ ¬InStep d) ∧
    (∃ d, run deviceStep zvrrpMasterInit removeOps=some d ∧
      (d.vsrv 1).state=.master ∧ (d.vsrv 1).vif.address=none ∧ ¬InStep d) ∧
    (∃ d, run deviceStep zvrrpMasterInit againOps=some d ∧
      (d.timers 1).length=2 ∧ (d.reads 1).length=2 ∧ ¬InStep d) := by
  refine ⟨fun op hop => ?_,⟨_,rfl,by decide,by decide,fun h => ?_⟩,
    ⟨_,rfl,by decide,by decide,fun h => ?_⟩,⟨_,rfl,by decide,by decide,fun h => ?_⟩⟩
  · fin_cases hop <;> exact trivial
  · exact absurd (h.master 1 (by decide)).2.1 (by decide)
  · exact absurd (h.master 1 (by decide)).2.2.1 (by decide)
  · exact absurd (h.timers 1) (by decide)

end RoutePlatform.VrrpRuns
