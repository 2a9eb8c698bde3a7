import RoutePlatform.WorkQueueOperations

/-!
# Work queues under every order of steps

The items that were added are split between the list and the removals at every step. The node
under work and the node after it stay on the list, because only `work_queue_run` removes nodes. A
queue at rest that is unplugged and has items is scheduled.
-/

namespace RoutePlatform.WorkQueueRuns

open LinkList OperationRuns WorkQueueOperations List

universe u

variable {δ : Type u} {nnode : Option ℕ} {wq' : WorkQueue δ} {n : ℕ}

/-- The items added are those on the list and those removed. -/
structure Ledger (items : LinkList (WorkQueueItem δ)) (added : List δ) (removed : List Removal)
    (xs : List ℕ) : Prop where
  holds : Holds items xs
  data : ∀ n∈xs, ∃ d, (items.node n).data.data=some d ∧ added[n]? = some d
  accounted : ∀ n, n<added.length ↔ n∈xs ∨ n∈removed.map Removal.item
  removed_nodup : (removed.map Removal.item).Nodup
  apart : ∀ n∈xs, n ∉ removed.map Removal.item

section

variable {items : LinkList (WorkQueueItem δ)} {added : List δ} {removed : List Removal}
  {xs as bs : List ℕ} {n : ℕ}

section

variable (h : Ledger items added removed xs)
include h

theorem Ledger.lt (hn : n∈xs) : n<added.length :=
  (h.accounted n).mpr (Or.inl hn)

/-- A new item goes to the end of the list. -/
theorem Ledger.add (d : δ) (ran : BitVec 16) :
    Ledger (listnodeAdd items added.length ⟨some d,ran⟩) (added++[d]) removed
      (xs++[added.length]) := by
  have hnew : added.length ∉ xs := fun hmem => lt_irrefl _ (h.lt hmem)
  have hgone : added.length ∉ removed.map Removal.item := fun hmem =>
    lt_irrefl _ ((h.accounted _).mpr (Or.inr hmem))
  refine ⟨h.holds.add hnew _,?_,?_,h.removed_nodup,?_⟩
  · intro n hn
    rw [data_listnodeAdd]
    cases mem_append.mp hn with
    | inl hold =>
      have hne : n≠added.length := fun he => hnew (he ▸ hold)
      obtain ⟨d',hd',hat⟩ := h.data n hold
      rw [if_neg hne,getElem?_append_left (h.lt hold)]
      exact ⟨d',hd',hat⟩
    | inr hlast =>
      have heq := mem_singleton.mp hlast
      rw [if_pos heq,heq]
      exact ⟨d,rfl,getElem?_concat_length⟩
  · intro n
    have hold := h.accounted n
    simp only [length_append,length_singleton,mem_append,mem_singleton]
    constructor
    · intro hlt
      by_cases heq : n=added.length
      · exact Or.inl (Or.inr heq)
      cases hold.mp (by omega) with
      | inl hmem => exact Or.inl (Or.inl hmem)
      | inr hmem => exact Or.inr hmem
    · intro hmem
      cases hmem with
      | inl hlist =>
        cases hlist with
        | inl hmem => have hlt := hold.mpr (Or.inl hmem); omega
        | inr heq => omega
      | inr hmem => have hlt := hold.mpr (Or.inr hmem); omega
  · intro n hn
    cases mem_append.mp hn with
    | inl hold => exact h.apart n hold
    | inr hlast =>
      rw [mem_singleton.mp hlast]
      exact hgone

theorem Ledger.modify {f : WorkQueueItem δ→WorkQueueItem δ} (hf : ∀ item, (f item).data=item.data) :
    Ledger (items.modify n f) added removed xs := by
  refine ⟨h.holds.modify f,?_,h.accounted,h.removed_nodup,h.apart⟩
  intro k hk
  have hdata := h.data k hk
  rw [data_modify]
  split
  · rename_i hkn
    rw [hf,←hkn]
    exact hdata
  · exact hdata

end

variable (h : Ledger items added removed (as++n::bs))
include h

/-- A node of the list may be moved to its end. -/
theorem Ledger.requeue :
    Ledger (listnodeAttach (listnodeDetach items n) n) added removed (as++bs++[n]) := by
  have hnot := (nodup_middle.mp h.holds.linked.nodup).notMem
  have hmem : ∀ k, k∈as++bs++[n] ↔ k∈as++n::bs := by
    intro k
    simp only [mem_append,mem_cons]
    tauto
  refine ⟨h.holds.detach.attach hnot,?_,?_,h.removed_nodup,?_⟩
  · intro k hk
    rw [data_listnodeAttach,data_listnodeDetach]
    exact h.data k ((hmem k).mp hk)
  · intro k
    rw [hmem]
    exact h.accounted k
  intro k hk
  exact h.apart k ((hmem k).mp hk)

theorem Ledger.remove (r : Removal) (hr : r.item=n) :
    Ledger (listDeleteNode items n) added (removed++[r]) (as++bs) := by
  have hnot := (nodup_middle.mp h.holds.linked.nodup).notMem
  have hn : n∈as++n::bs := mem_append_right _ mem_cons_self
  have hmem : ∀ k, k∈as++n::bs ↔ k∈as++bs ∨ k=n := by
    intro k
    simp only [mem_append,mem_cons]
    tauto
  refine ⟨h.holds.detach,?_,?_,?_,?_⟩
  · intro k hk
    rw [listDeleteNode,data_listnodeDetach]
    exact h.data k ((hmem k).mpr (Or.inl hk))
  · intro k
    have hitems : k∈(removed++[r]).map Removal.item ↔ k∈removed.map Removal.item ∨ k=n := by
      rw [map_append,map_singleton,hr,mem_append,mem_singleton]
    rw [h.accounted,hmem,hitems]
    tauto
  · rw [map_append,map_singleton,hr]
    refine nodup_append.mpr ⟨h.removed_nodup,nodup_singleton n,?_⟩
    intro k hk m hm heq
    rw [mem_singleton] at hm
    exact h.apart n hn (hm ▸ heq ▸ hk)
  intro k hk
  rw [map_append,map_singleton,hr,mem_append,mem_singleton]
  intro hor
  cases hor with
  | inl hgone => exact h.apart k ((hmem k).mpr (Or.inl hk)) hgone
  | inr heq => exact hnot (heq ▸ hk)

end

/-- Why an item is removed: success, error, or the limit. -/
def Justified (spec : WorkQueueSpec) (r : Removal) : Prop :=
  r.last=some .success ∨ r.last=some .error ∨
    (r.last=some .retryNow ∧ spec.maxRetries≤r.ran) ∨ spec.maxRetries<r.ran

/-- What would be recorded if an item were removed now. -/
def removalOf (wq : WorkQueue δ) (n : ℕ) : Removal := ⟨n,wq.lastReturn n,(wq.item n).ran.toNat⟩

/-- A queue that is unplugged and has items is scheduled. -/
def NoStall (wq : WorkQueue δ) : Prop := wq.unplugged=true → wq.items.count > 0 → wq.thread=true

/-- The node under work and the node after it are on the list. -/
def OnList (xs : List ℕ) (n : ℕ) (nnode : Option ℕ) : Prop := n∈xs ∧ ∀ m, nnode=some m → m∈xs ∧ m≠n

/-- What holds at the places of `work_queue_run`. -/
def PlaceOk (spec : WorkQueueSpec) (wq : WorkQueue δ) (xs : List ℕ) : Option Frame→Prop
  | none => NoStall wq
  | some ⟨.completion,_⟩ => NoStall wq
  | some ⟨.head node,_⟩ => ∀ n, node=some n → n∈xs
  | some ⟨.work n nnode,_⟩ => OnList xs n nnode
  | some ⟨.error n nnode _,_⟩ => OnList xs n nnode ∧ Justified spec (removalOf wq n)
  | some ⟨.remove n nnode _,_⟩ => OnList xs n nnode ∧ Justified spec (removalOf wq n)

structure WqOk (spec : WorkQueueSpec) (wq : WorkQueue δ) (xs : List ℕ) : Prop where
  /-- The items are accounted for. -/
  ledger : Ledger wq.items wq.added wq.removed xs
  justified : ∀ r∈wq.removed, Justified spec r
  /-- `work_queue_run` is where it should be. -/
  place : PlaceOk spec wq xs wq.frame

section

variable {spec : WorkQueueSpec} {wq : WorkQueue δ} {xs : List ℕ}

theorem workQueueSchedule_eq (wq : WorkQueue δ) :
    ∃ thread, workQueueSchedule wq = {wq with thread} := by
  rw [workQueueSchedule]
  split
  · exact ⟨true,rfl⟩
  · exact ⟨wq.thread,rfl⟩

theorem workQueueSchedule_noStall (wq : WorkQueue δ) : NoStall (workQueueSchedule wq) := by
  intro hunplugged hcnt
  rw [workQueueSchedule] at hunplugged hcnt ⊢
  split
  · rfl
  rename_i hno
  rw [if_neg hno] at hunplugged hcnt
  by_contra hth
  exact hno ⟨hunplugged,by simpa using hth,hcnt⟩

/-- A place stays good when the list grows and the items on it stay. -/
theorem PlaceOk.mono {ys : List ℕ} {frame : Option Frame} (h : PlaceOk spec wq xs frame)
    (hsub : ∀ n∈xs, n∈ys) (hsame : ∀ n∈xs, removalOf wq' n=removalOf wq n) (hstall : NoStall wq') :
    PlaceOk spec wq' ys frame := by
  have honlist : ∀ {n nnode}, OnList xs n nnode → OnList ys n nnode := by
    intro n nnode hon
    exact ⟨hsub n hon.1,fun m hm => ⟨hsub m (hon.2 m hm).1,(hon.2 m hm).2⟩⟩
  match frame with
  | none => exact hstall
  | some ⟨.completion,_⟩ => exact hstall
  | some ⟨.head node,_⟩ => exact fun n hn => hsub n (h n hn)
  | some ⟨.work n nnode,_⟩ => exact honlist h
  | some ⟨.error n nnode _,_⟩ =>
    refine ⟨honlist h.1,?_⟩
    rw [hsame n h.1.1]
    exact h.2
  | some ⟨.remove n nnode _,_⟩ =>
    refine ⟨honlist h.1,?_⟩
    rw [hsame n h.1.1]
    exact h.2

variable (h : WqOk spec wq xs)
include h

theorem WqOk.add (data : δ) : WqOk spec (workQueueAdd wq data) (xs++[wq.added.length]) := by
  have hledger := h.ledger.add data 0
  have hstall := workQueueSchedule_noStall {wq with
    items := listnodeAdd wq.items wq.added.length ⟨some data,0⟩
    added := wq.added++[data]}
  obtain ⟨thread,heq⟩ := workQueueSchedule_eq {wq with
    items := listnodeAdd wq.items wq.added.length ⟨some data,0⟩
    added := wq.added++[data]}
  rw [workQueueAdd]
  rw [heq] at hstall ⊢
  refine ⟨hledger,h.justified,h.place.mono (fun n hn => mem_append_left _ hn) ?_ hstall⟩
  intro n hn
  have hne : n≠wq.added.length := fun he => lt_irrefl _ (he ▸ h.ledger.lt hn)
  simp only [removalOf,WorkQueue.item,data_listnodeAdd,if_neg hne]

theorem WqOk.plug : WqOk spec (workQueuePlug wq) xs := by
  refine ⟨h.ledger,h.justified,h.place.mono (fun _ hn => hn) (fun _ _ => rfl) ?_⟩
  intro hunplugged
  cases hunplugged

theorem WqOk.unplug : WqOk spec (workQueueUnplug wq) xs := by
  have hstall := workQueueSchedule_noStall {wq with unplugged := true}
  obtain ⟨thread,heq⟩ := workQueueSchedule_eq {wq with unplugged := true}
  rw [workQueueUnplug]
  rw [heq] at hstall ⊢
  exact ⟨h.ledger,h.justified,h.place.mono (fun _ hn => hn) (fun _ _ => rfl) hstall⟩

end

section

variable {spec : WorkQueueSpec} {wq : WorkQueue δ} {xs : List ℕ}

theorem WqOk.goto {place : Place} {cycles : ℕ} (hledger : Ledger wq.items wq.added wq.removed xs)
    (hjust : ∀ r∈wq.removed, Justified spec r)
    (hpl : PlaceOk spec wq xs (some ⟨place,cycles⟩)) : WqOk spec (wq.goto place cycles) xs := by
  refine ⟨hledger,hjust,?_⟩
  match place with
  | .completion => exact hpl
  | .head _ => exact hpl
  | .work _ _ => exact hpl
  | .error _ _ _ => exact hpl
  | .remove _ _ _ => exact hpl

theorem WqOk.start (h : WqOk spec wq xs) : WqOk spec (runStart wq) xs := by
  refine ⟨h.ledger,h.justified,?_⟩
  intro n hn
  rw [h.ledger.holds.head] at hn
  exact mem_of_head? hn

theorem adaptGranularity_eq (wq : WorkQueue δ) (cycles : ℕ) (yielded : Bool) :
    ∃ best granularity, adaptGranularity wq cycles yielded = {wq with best,granularity} := by
  rw [adaptGranularity]
  split
  · exact ⟨wq.best,_,rfl⟩
  split
  · exact ⟨_,_,rfl⟩
  · exact ⟨wq.best,wq.granularity,rfl⟩

section

variable (hledger : Ledger wq.items wq.added wq.removed xs)
include hledger

variable (hjust : ∀ r∈wq.removed, Justified spec r)
include hjust

theorem WqOk.done (cycles : ℕ) : WqOk spec (runDone spec wq cycles) xs := by
  rw [runDone]
  split
  · have hstall := workQueueSchedule_noStall wq
    obtain ⟨thread,heq⟩ := workQueueSchedule_eq wq
    rw [heq] at hstall ⊢
    exact ⟨hledger,hjust,hstall⟩
  rename_i hcnt
  have hstall : NoStall wq := fun _ hpos => absurd hpos hcnt
  split
  · exact WqOk.goto hledger hjust hstall
  · exact ⟨hledger,hjust,hstall⟩

theorem WqOk.stats (cycles : ℕ) (yielded : Bool) :
    WqOk spec (runStats spec wq cycles yielded) xs := by
  obtain ⟨best,granularity,hadapt⟩ := adaptGranularity_eq wq cycles yielded
  rw [runStats,hadapt]
  refine WqOk.done ?_ ?_ cycles
  · exact hledger
  · exact hjust

theorem WqOk.endCycle (hnnode : ∀ m, nnode=some m → m∈xs) (cycles : ℕ) (yields : Bool) :
    WqOk spec (endCycle spec wq nnode cycles yields) xs := by
  rw [WorkQueueOperations.endCycle]
  split
  · exact WqOk.stats hledger hjust _ _
  · exact WqOk.goto hledger hjust hnnode

theorem WqOk.callError (honlist : OnList xs n nnode) (hremoval : Justified spec (removalOf wq n))
    (exceeded : Bool) (cycles : ℕ) (argument : ErrorArgument δ) :
    WqOk spec (callError spec wq n nnode exceeded cycles argument) xs := by
  rw [WorkQueueOperations.callError]
  split <;> exact WqOk.goto hledger hjust ⟨honlist,hremoval⟩

end

theorem WqOk.loop (h : WqOk spec wq xs) {node : Option ℕ} (hnode : ∀ n, node=some n → n∈xs)
    (cycles : ℕ) : ∃ wq', runLoop spec wq cycles node=some wq' ∧ WqOk spec wq' xs := by
  cases node with
  | none => exact ⟨_,rfl,WqOk.stats h.ledger h.justified _ _⟩
  | some n =>
    have hn := hnode n rfl
    obtain ⟨d,hd,_⟩ := h.ledger.data n hn
    have honlist : OnList xs n (wq.items.node n).next :=
      ⟨hn,fun m hm => h.ledger.holds.next_mem hn hm⟩
    have hsome : (wq.item n).data.isNone=false := by rw [WorkQueue.item,hd]; rfl
    rw [runLoop,hsome,if_neg Bool.false_ne_true]
    split
    · rename_i hexceeded
      refine ⟨_,rfl,WqOk.callError h.ledger h.justified honlist ?_ _ _ _⟩
      exact Or.inr (Or.inr (Or.inr hexceeded))
    · exact ⟨_,rfl,WqOk.goto h.ledger h.justified honlist⟩

theorem WqOk.workSwitch (hledger : Ledger wq.items wq.added wq.removed xs)
    (hjust : ∀ r∈wq.removed, Justified spec r) (honlist : OnList xs n nnode) {ret : WqItemStatus}
    (hlast : wq.lastReturn n=some ret)
    (hlimit : ret=.retryNow → spec.maxRetries≤(wq.item n).ran.toNat) (cycles : ℕ) (yields : Bool) :
    ∃ ys, WqOk spec (workSwitch spec wq n nnode cycles yields ret) ys := by
  have hunran : Ledger (wq.modifyItem n fun item => {item with ran := item.ran-1}).items
      wq.added wq.removed xs :=
    hledger.modify (f := fun item => {item with ran := item.ran-1}) fun _ => rfl
  cases ret with
  | success => exact ⟨xs,WqOk.goto hledger hjust ⟨honlist,Or.inl hlast⟩⟩
  | error => exact ⟨xs,WqOk.callError hledger hjust honlist (Or.inr (Or.inl hlast)) _ _ _⟩
  | retryNow =>
    exact ⟨xs,WqOk.callError hledger hjust honlist
      (Or.inr (Or.inr (Or.inl ⟨hlast,hlimit rfl⟩))) _ _ _⟩
  | retryLater => exact ⟨xs,WqOk.stats hledger hjust _ _⟩
  | queueBlocked =>
    refine ⟨xs,WqOk.stats ?_ ?_ _ _⟩
    · exact hunran
    · exact hjust
  | requeue =>
    obtain ⟨as,bs,hxs⟩ := append_of_mem honlist.1
    rw [hxs] at hunran
    refine ⟨as++bs++[n],WqOk.endCycle ?_ ?_ ?_ cycles yields⟩
    · exact hunran.requeue
    · exact hjust
    intro m hm
    have hmem := (honlist.2 m hm).1
    rw [hxs] at hmem
    simp only [mem_append,mem_cons] at hmem ⊢
    tauto

theorem WqOk.workReturned (h : WqOk spec wq xs) (honlist : OnList xs n nnode) (cycles : ℕ)
    (ret : WqItemStatus) (yields : Bool) :
    ∃ ys, WqOk spec (workReturned spec wq n nnode cycles ret yields) ys := by
  have hledger : Ledger (countRun wq n ret).items (countRun wq n ret).added
      (countRun wq n ret).removed xs := by
    refine Ledger.modify (f := fun item => {item with ran := item.ran+1}) ?_ fun _ => rfl
    exact h.ledger
  rw [WorkQueueOperations.workReturned]
  split
  · exact ⟨xs,WqOk.goto hledger h.justified honlist⟩
  rename_i hlimit
  refine WqOk.workSwitch hledger h.justified honlist (Function.update_self _ _ _) ?_ cycles yields
  intro hret
  by_contra hlt
  exact hlimit ⟨hret,by omega⟩

theorem WqOk.itemRemoved (h : WqOk spec wq xs) (honlist : OnList xs n nnode)
    (hremoval : Justified spec (removalOf wq n)) (exceeded : Bool) (cycles : ℕ) (yields : Bool) :
    ∃ wq' ys, itemRemoved spec wq n nnode exceeded cycles yields=some wq' ∧ WqOk spec wq' ys := by
  obtain ⟨d,hd,_⟩ := h.ledger.data n honlist.1
  have hsome : (wq.item n).data.isNone=false := by rw [WorkQueue.item,hd]; rfl
  obtain ⟨as,bs,hxs⟩ := append_of_mem honlist.1
  have hold := h.ledger
  rw [hxs] at hold
  have hledger := hold.remove (removalOf wq n) rfl
  have hjust : ∀ r∈wq.removed++[removalOf wq n], Justified spec r := by
    intro r hr
    cases mem_append.mp hr with
    | inl hmem => exact h.justified r hmem
    | inr hlast => rw [mem_singleton.mp hlast]; exact hremoval
  have hnnode : ∀ m, nnode=some m → m∈as++bs := by
    intro m hm
    obtain ⟨hmem,hne⟩ := honlist.2 m hm
    rw [hxs] at hmem
    simp only [mem_append,mem_cons] at hmem ⊢
    tauto
  rw [WorkQueueOperations.itemRemoved,hsome,if_neg Bool.false_ne_true]
  refine ⟨_,as++bs,rfl,?_⟩
  split
  · exact WqOk.goto hledger hjust hnnode
  · exact WqOk.endCycle hledger hjust hnnode cycles yields

end

/-- The error function got the data of the item it was called for. -/
def GotData (added : List δ) (call : ErrorCall δ) : Prop :=
  ∃ d, call.argument=.data (some d) ∧ added[call.item]? = some d

/-- All calls of the error function got data. -/
def ErrorsGotData (wq : WorkQueue δ) : Prop := ∀ call∈wq.errorCalls, GotData wq.added call

section

variable {spec : WorkQueueSpec} {wq : WorkQueue δ}

/-- Neither an item nor a call is added. -/
def SameCalls (wq wq' : WorkQueue δ) : Prop := wq'.errorCalls=wq.errorCalls ∧ wq'.added=wq.added

theorem SameCalls.gotData (h : SameCalls wq wq') (herrors : ErrorsGotData wq) :
    ErrorsGotData wq' := by
  intro call hcall
  rw [h.1] at hcall
  rw [h.2]
  exact herrors call hcall

theorem sameCalls_schedule (wq : WorkQueue δ) : SameCalls wq (workQueueSchedule wq) := by
  obtain ⟨thread,heq⟩ := workQueueSchedule_eq wq
  rw [heq]
  exact ⟨rfl,rfl⟩

theorem sameCalls_done (spec : WorkQueueSpec) (wq : WorkQueue δ) (cycles : ℕ) :
    SameCalls wq (runDone spec wq cycles) := by
  rw [runDone]
  split
  · exact sameCalls_schedule wq
  split <;> exact ⟨rfl,rfl⟩

theorem sameCalls_stats (spec : WorkQueueSpec) (wq : WorkQueue δ) (cycles : ℕ) (yielded : Bool) :
    SameCalls wq (runStats spec wq cycles yielded) := by
  obtain ⟨best,granularity,hadapt⟩ := adaptGranularity_eq wq cycles yielded
  rw [runStats,hadapt]
  exact sameCalls_done spec _ cycles

theorem sameCalls_endCycle (spec : WorkQueueSpec) (wq : WorkQueue δ) (nnode : Option ℕ)
    (cycles : ℕ) (yields : Bool) : SameCalls wq (endCycle spec wq nnode cycles yields) := by
  rw [endCycle]
  split
  · exact sameCalls_stats spec wq _ _
  · exact ⟨rfl,rfl⟩

theorem gotData_callError (herrors : ErrorsGotData wq) (n : ℕ) (nnode : Option ℕ)
    (exceeded : Bool) (cycles : ℕ) {argument : ErrorArgument δ}
    (hdata : spec.errorfunc=true → GotData wq.added ⟨n,argument⟩) :
    ErrorsGotData (callError spec wq n nnode exceeded cycles argument) := by
  rw [callError]
  split
  · rename_i herror
    intro call hcall
    cases mem_append.mp hcall with
    | inl hold => exact herrors call hold
    | inr hlast =>
      rw [mem_singleton.mp hlast]
      exact hdata herror
  · exact herrors

theorem gotData_add (herrors : ErrorsGotData wq) (data : δ) :
    ErrorsGotData (workQueueAdd wq data) := by
  rw [workQueueAdd]
  refine (sameCalls_schedule _).gotData ?_
  intro call hcall
  obtain ⟨d,hargument,hadded⟩ := herrors call hcall
  refine ⟨d,hargument,?_⟩
  rw [getElem?_append_left (List.getElem?_eq_some_iff.mp hadded).1]
  exact hadded

theorem gotData_loop {xs : List ℕ} (h : WqOk spec wq xs) (herrors : ErrorsGotData wq)
    {node : Option ℕ} (hnode : ∀ n, node=some n → n∈xs) {cycles : ℕ}
    (hrun : runLoop spec wq cycles node=some wq') : ErrorsGotData wq' := by
  cases node with
  | none =>
    cases hrun
    exact (sameCalls_stats spec wq _ _).gotData herrors
  | some n =>
    obtain ⟨d,hd,hadded⟩ := h.ledger.data n (hnode n rfl)
    rw [runLoop] at hrun
    split at hrun
    · cases hrun
    split at hrun
    · cases hrun
      refine gotData_callError herrors n _ true cycles fun _ => ⟨d,?_,hadded⟩
      exact congrArg ErrorArgument.data hd
    cases hrun
    exact herrors

theorem gotData_workReturned (herrors : ErrorsGotData wq) (n : ℕ) (nnode : Option ℕ)
    (cycles : ℕ) (ret : WqItemStatus) (yields : Bool)
    (hfail : spec.errorfunc=true → ret ≠ .error ∧
      (ret=.retryNow → ((wq.item n).ran+1).toNat<spec.maxRetries)) :
    ErrorsGotData (workReturned spec wq n nnode cycles ret yields) := by
  have hctd : ErrorsGotData (countRun wq n ret) := herrors
  have hran : ((countRun wq n ret).item n).ran=(wq.item n).ran+1 := by
    simp [countRun,WorkQueue.modifyItem,WorkQueue.item,data_modify]
  rw [workReturned]
  split
  · exact hctd
  rename_i hlimit
  rw [hran] at hlimit
  cases ret with
  | success => exact hctd
  | error => exact gotData_callError hctd n _ _ _ fun he => absurd rfl (hfail he).1
  | retryNow =>
    exact gotData_callError hctd n _ _ _ fun he => absurd ⟨rfl,(hfail he).2 rfl⟩ hlimit
  | retryLater => exact (sameCalls_stats spec _ _ _).gotData hctd
  | queueBlocked =>
    refine (sameCalls_stats spec _ _ _).gotData ?_
    exact hctd
  | requeue =>
    refine (sameCalls_endCycle spec _ _ _ _).gotData ?_
    exact hctd

end

section

variable {spec : WorkQueueSpec}

/-- What holds in every state: the items are accounted for, and the error
function has got data. -/
def WqInv (spec : WorkQueueSpec) (wq : WorkQueue δ) : Prop :=
  (∃ xs, WqOk spec wq xs) ∧ ErrorsGotData wq

/-- Every possible step is taken and accounts for items; arguments stay right if no item fails. -/
theorem wqStep_inv (spec : WorkQueueSpec) (wq : WorkQueue δ) (op : WqOp δ) (h : WqInv spec wq)
    (hleg : WqEnabled wq op ∧ WqNoFailure spec wq op) :
    ∃ wq', wqStep spec wq op=some wq' ∧ WqInv spec wq' := by
  obtain ⟨⟨xs,hok⟩,herrors⟩ := h
  obtain ⟨henabled,hfail⟩ := hleg
  have hpl := hok.place
  cases op with
  | add data => exact ⟨_,rfl,⟨_,hok.add data⟩,gotData_add herrors data⟩
  | plug => exact ⟨_,rfl,⟨xs,hok.plug⟩,herrors⟩
  | unplug =>
    refine ⟨_,rfl,⟨xs,hok.unplug⟩,(sameCalls_schedule _).gotData ?_⟩
    exact herrors
  | start =>
    refine ⟨runStart wq,?_,⟨xs,hok.start⟩,herrors⟩
    rw [wqStep,if_pos henabled.1]
  | loop =>
    obtain ⟨node,cycles,hframe⟩ := henabled
    rw [hframe] at hpl
    obtain ⟨wq',hrun,hok'⟩ := hok.loop hpl cycles
    refine ⟨wq',?_,⟨xs,hok'⟩,gotData_loop hok herrors hpl hrun⟩
    rw [wqStep,hframe]
    exact hrun
  | workReturn ret yields =>
    obtain ⟨n,nnode,cycles,hframe⟩ := henabled
    rw [hframe] at hpl
    obtain ⟨ys,hok'⟩ := hok.workReturned hpl cycles ret yields
    refine ⟨workReturned spec wq n nnode cycles ret yields,?_,⟨ys,hok'⟩,?_⟩
    · rw [wqStep,hframe]
    refine gotData_workReturned herrors n nnode cycles ret yields fun he => ?_
    exact ⟨(hfail he).1,fun hret => (hfail he).2 hret n nnode cycles hframe⟩
  | errorReturn =>
    obtain ⟨n,nnode,exceeded,cycles,hframe⟩ := henabled
    rw [hframe] at hpl
    refine ⟨wq.goto (.remove n nnode exceeded) cycles,?_,⟨xs,?_⟩,herrors⟩
    · rw [wqStep,hframe]
    · exact WqOk.goto hok.ledger hok.justified hpl
  | removeReturn yields =>
    obtain ⟨n,nnode,exceeded,cycles,hframe⟩ := henabled
    rw [hframe] at hpl
    obtain ⟨wq',ys,hrun,hok'⟩ := hok.itemRemoved hpl.1 hpl.2 exceeded cycles yields
    refine ⟨wq',?_,⟨ys,hok'⟩,?_⟩
    · rw [wqStep,hframe]
      exact hrun
    rw [itemRemoved] at hrun
    split at hrun
    · cases hrun
    cases hrun
    split
    · exact herrors
    refine (sameCalls_endCycle spec _ _ _ _).gotData ?_
    exact herrors
  | completionReturn =>
    obtain ⟨cycles,hframe⟩ := henabled
    rw [hframe] at hpl
    refine ⟨{wq with frame := none},?_,⟨xs,hok.ledger,hok.justified,hpl⟩,herrors⟩
    rw [wqStep,hframe]

end

theorem workQueueNew_inv (spec : WorkQueueSpec) : WqInv spec (workQueueNew : WorkQueue δ) := by
  refine ⟨⟨[],⟨holds_nil _,?_,?_,nodup_nil,?_⟩,?_,?_⟩,?_⟩
  · exact fun n hn => (nomatch hn)
  · intro n
    simp [workQueueNew]
  · exact fun n hn => (nomatch hn)
  · exact fun r hr => (nomatch hr)
  · exact fun _ hcnt => absurd hcnt (lt_irrefl 0)
  · exact fun call hcall => (nomatch hcall)

/-- In every run without failing items under an error function: a queue at rest that is unplugged
and has items is scheduled; an added item is listed or removed once; a removed one had success, an
error, or exceeded its limit; and the error function got its data. -/
theorem wqRun_sound (spec : WorkQueueSpec) {ops : List (WqOp δ)}
    (hl : LegalRun (wqStep spec) (fun wq op => WqEnabled wq op ∧ WqNoFailure spec wq op)
      workQueueNew ops) :
    ∃ wq, run (wqStep spec) workQueueNew ops=some wq ∧
      (wq.frame=none → wq.unplugged=true → wq.items.head≠none → wq.thread=true) ∧
      (∃ xs, Holds wq.items xs ∧ (wq.removed.map Removal.item).Nodup ∧
        (∀ n∈xs, n ∉ wq.removed.map Removal.item) ∧
        ∀ n, n<wq.added.length ↔ n∈xs ∨ n∈wq.removed.map Removal.item) ∧
      (∀ r∈wq.removed, Justified spec r) ∧
      ∀ call∈wq.errorCalls, GotData wq.added call := by
  obtain ⟨wq,hrun,⟨xs,hok⟩,herrors⟩ :=
    run_invariant (wqStep_inv spec) ops _ (workQueueNew_inv spec) hl
  have hledger := hok.ledger
  refine ⟨wq,hrun,?_,⟨xs,hledger.holds,hledger.removed_nodup,hledger.apart,
    hledger.accounted⟩,hok.justified,herrors⟩
  intro hframe hunplugged hhead
  have hstall := hok.place
  rw [hframe] at hstall
  refine hstall hunplugged ?_
  rw [hledger.holds.head] at hhead
  rw [hledger.holds.count]
  cases xs with
  | nil => exact absurd rfl hhead
  | cons x xs => exact Nat.succ_pos _

/-- An item that is tried again later and then exceeds its retries. -/
def sampleSteps : List (WqOp ℕ) :=
  [.add 7,.start,.loop,.workReturn .retryLater false,.start,.loop,.add 8,.errorReturn,
    .removeReturn false]

theorem wqRun_sound_sampleSteps : LegalRun (wqStep ⟨true,false,0⟩)
        (fun wq op => WqEnabled wq op ∧ WqNoFailure ⟨true,false,0⟩ wq op) workQueueNew
        sampleSteps ∧
      ∃ wq, run (wqStep ⟨true,false,0⟩) workQueueNew sampleSteps=some wq ∧
        ∀ call∈wq.errorCalls, GotData wq.added call := by
  have hl : LegalRun (wqStep ⟨true,false,0⟩)
      (fun wq op => WqEnabled wq op ∧ WqNoFailure ⟨true,false,0⟩ wq op) workQueueNew
      sampleSteps := by
    refine legalRun_cons ⟨trivial,trivial⟩ rfl ?_
    refine legalRun_cons ⟨⟨rfl,rfl⟩,trivial⟩ rfl ?_
    refine legalRun_cons ⟨⟨_,_,rfl⟩,trivial⟩ rfl ?_
    refine legalRun_cons ⟨⟨_,_,_,rfl⟩,fun _ => ⟨nofun,nofun⟩⟩ rfl ?_
    refine legalRun_cons ⟨⟨rfl,rfl⟩,trivial⟩ rfl ?_
    refine legalRun_cons ⟨⟨_,_,rfl⟩,trivial⟩ rfl ?_
    refine legalRun_cons ⟨trivial,trivial⟩ rfl ?_
    refine legalRun_cons ⟨⟨_,_,_,_,rfl⟩,trivial⟩ rfl ?_
    exact legalRun_cons ⟨⟨_,_,_,_,rfl⟩,trivial⟩ rfl trivial
  obtain ⟨wq,hrun,_,_,_,herrors⟩ := wqRun_sound ⟨true,false,0⟩ hl
  exact ⟨hl,wq,hrun,herrors⟩

/-- An error: the error function gets a pointer to the item. -/
def failedItem : List (WqOp ℕ) := [.add 7,.start,.loop,.workReturn .error false]

theorem workReturned_error_passesItem :
    LegalRun (wqStep ⟨true,false,3⟩) WqEnabled workQueueNew failedItem ∧
      ∃ wq, run (wqStep ⟨true,false,3⟩) workQueueNew failedItem=some wq ∧
        ¬ ∀ call∈wq.errorCalls, GotData wq.added call := by
  constructor
  · refine legalRun_cons trivial rfl ?_
    refine legalRun_cons ⟨rfl,rfl⟩ rfl ?_
    refine legalRun_cons ⟨_,_,rfl⟩ rfl ?_
    exact legalRun_cons ⟨_,_,_,rfl⟩ rfl trivial
  · refine ⟨_,rfl,fun hall => ?_⟩
    obtain ⟨d,hargument,_⟩ := hall ⟨0,.item 0⟩ mem_cons_self
    cases hargument

end RoutePlatform.WorkQueueRuns
