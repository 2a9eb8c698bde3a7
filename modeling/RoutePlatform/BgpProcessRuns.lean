import RoutePlatform.BgpProcessSelected

/-!
# One best path for each prefix

The flag of a node says whether it is queued, so a node is examined when the runs have gone
through those before it, and with it every change made until then. A path is reaped as often as it
was added, but for the last time if it is still on the list.
-/

namespace RoutePlatform.BgpProcessRuns

open BestPathOperations BestPathSelection BgpProcess BgpProcessSelected OperationRuns Function List
  Option

variable {w : ProcessQueue} {rest : List ℕ} {w' : ProcessQueue} {n : ℕ} {ops : List ProcessOp}
  {pn : ProcessNode} {op : ProcessOp}

/-- The nodes and the queue between two operations. -/
structure ProcessInv (w : ProcessQueue) : Prop where
  /-- A path is on the list once, and no path is marked. -/
  node : ∀ n, NodeInv (w.nodes n).rn
  one : ∀ n, OneSelected (w.nodes n).rn
  /-- The flag says whether the node is on the queue. -/
  scheduled : ∀ n, (w.nodes n).scheduled=true ↔ n∈w.queue
  nodup : w.queue.Nodup
  /-- A path was reaped each time it was added, but for the last time if it is
  still there. -/
  account : ∀ n ri, w.added.count (n,ri) =
    w.reaped.count (n,ri)+if ri∈(w.nodes n).rn.infoList then 1 else 0

theorem emptyQueue_inv (info : ℕ→BgpInfo) (path : ℕ→PathState) :
    ProcessInv (emptyQueue info path) where
  node := fun _ => ⟨nodup_nil,fun _ => ⟨rfl,rfl⟩⟩
  one := nofun
  scheduled := fun _ => ⟨nofun,fun h => absurd h not_mem_nil⟩
  nodup := nodup_nil
  account := fun _ _ => rfl

section

variable {w : ProcessQueue} {n : ℕ} {pn : ProcessNode}

@[simp] theorem setNode_self (w : ProcessQueue) (n : ℕ) (pn : ProcessNode) :
    (w.setNode n pn).nodes n=pn := update_self ..

theorem setNode_of_ne (w : ProcessQueue) {m : ℕ} (h : m≠n) (pn : ProcessNode) :
    (w.setNode n pn).nodes m=w.nodes m := update_of_ne h ..

theorem ProcessInv.setNode (h : ProcessInv w) (hnode : NodeInv pn.rn) (hone : OneSelected pn.rn)
    (hscheduled : pn.scheduled=(w.nodes n).scheduled)
    (hlist : pn.rn.infoList=(w.nodes n).rn.infoList) : ProcessInv (w.setNode n pn) := by
  have heach : ∀ {p : ℕ → ProcessNode → Prop}, (∀ m, p m (w.nodes m)) → p n pn →
      ∀ m, p m ((w.setNode n pn).nodes m) := by
    intro p hall hown m
    by_cases hm : m=n
    · rw [hm,setNode_self]
      exact hown
    rw [setNode_of_ne w hm]
    exact hall m
  refine ⟨heach (p := fun _ pn => NodeInv pn.rn) h.node hnode,
    heach (p := fun _ pn => OneSelected pn.rn) h.one hone,
    heach (p := fun m pn => pn.scheduled=true ↔ m∈w.queue) h.scheduled ?_,h.nodup,
    heach (p := fun m pn => ∀ ri, w.added.count (m,ri) =
      w.reaped.count (m,ri)+if ri∈pn.rn.infoList then 1 else 0) h.account ?_⟩
  · rw [hscheduled]
    exact h.scheduled n
  rw [hlist]
  exact h.account n

end

theorem modifyFlags_inv {rn : BgpNode} (hinv : NodeInv rn) (hone : OneSelected rn) (ri : ℕ)
    {f : InfoFlags → InfoFlags} (hsel : ∀ flags, (f flags).selected=flags.selected)
    (hcheck : ∀ flags, (f flags).dmedCheck=flags.dmedCheck)
    (hmark : ∀ flags, (f flags).dmedSelected=flags.dmedSelected) :
    NodeInv (rn.modifyFlags ri f) ∧ OneSelected (rn.modifyFlags ri f) := by
  refine ⟨⟨hinv.nodup,fun y => ?_⟩,fun x hx y hy hselx hsely => ?_⟩
  · rw [modifyFlags_of_kept InfoFlags.dmedCheck hcheck,
      modifyFlags_of_kept InfoFlags.dmedSelected hmark]
    exact hinv.clear y
  rw [modifyFlags_of_kept InfoFlags.selected hsel] at hselx hsely
  exact hone x hx y hy hselx hsely

/-- A new path is neither selected nor marked. -/
theorem bgpInfoAdd_inv (hinv : NodeInv pn.rn) (hone : OneSelected pn.rn) {ri : ℕ}
    (hnew : ri ∉ pn.rn.infoList) (info : BgpInfo) (flags : InfoFlags) (path : PathState) :
    NodeInv (bgpInfoAdd pn ri info flags path).rn ∧
      OneSelected (bgpInfoAdd pn ri info flags path).rn := by
  have hflags : ∀ y, (bgpInfoAdd pn ri info flags path).rn.flags y =
      if y=ri then {flags with
        selected := false,removed := false,dmedCheck := false,dmedSelected := false}
      else pn.rn.flags y := fun y => update_apply ..
  have hmem : ∀ y∈(bgpInfoAdd pn ri info flags path).rn.infoList,
      ((bgpInfoAdd pn ri info flags path).rn.flags y).selected=true →
        y∈pn.rn.infoList ∧ (pn.rn.flags y).selected=true := by
    intro y hy hsel
    rw [hflags] at hsel
    by_cases he : y=ri
    · rw [if_pos he] at hsel
      cases hsel
    rw [if_neg he] at hsel
    exact ⟨(mem_cons.mp hy).resolve_left he,hsel⟩
  refine ⟨⟨nodup_cons.mpr ⟨hnew,hinv.nodup⟩,fun y => ?_⟩,fun x hx y hy hselx hsely => ?_⟩
  · rw [hflags]
    by_cases hy : y=ri
    · rw [if_pos hy]
      exact ⟨rfl,rfl⟩
    rw [if_neg hy]
    exact hinv.clear y
  obtain ⟨hx,hselx⟩ := hmem x hx hselx
  obtain ⟨hy,hsely⟩ := hmem y hy hsely
  exact hone x hx y hy hselx hsely

theorem bgpInfoUpdate_inv (hinv : NodeInv pn.rn) (hone : OneSelected pn.rn) (ri : ℕ)
    (info : BgpInfo) (flags : InfoFlags) (path : PathState) :
    NodeInv (bgpInfoUpdate pn ri info flags path).rn ∧
      OneSelected (bgpInfoUpdate pn ri info flags path).rn := by
  have hflags : ∀ y, (bgpInfoUpdate pn ri info flags path).rn.flags y =
      if y=ri then {flags with
        selected := (pn.rn.flags ri).selected
        removed := (pn.rn.flags ri).removed
        dmedCheck := (pn.rn.flags ri).dmedCheck
        dmedSelected := (pn.rn.flags ri).dmedSelected}
      else pn.rn.flags y := fun y => update_apply ..
  have hsel : ∀ y, ((bgpInfoUpdate pn ri info flags path).rn.flags y).selected =
      (pn.rn.flags y).selected := by
    intro y
    rw [hflags]
    split
    · next he => rw [he]
    · rfl
  refine ⟨⟨hinv.nodup,fun y => ?_⟩,fun x hx y hy hselx hsely => ?_⟩
  · rw [hflags]
    split
    · next he => exact hinv.clear ri
    · exact hinv.clear y
  rw [hsel] at hselx hsely
  exact hone x hx y hy hselx hsely

theorem ProcessInv.add (h : ProcessInv w) {ri : ℕ} (hnew : ri ∉ (w.nodes n).rn.infoList)
    (info : BgpInfo) (flags : InfoFlags) (path : PathState) :
    ProcessInv {w.setNode n (bgpInfoAdd (w.nodes n) ri info flags path) with
      added := w.added++[(n,ri)]} := by
  have hnode := bgpInfoAdd_inv (h.node n) (h.one n) hnew info flags path
  refine ⟨fun m => ?_,fun m => ?_,fun m => ?_,h.nodup,fun m x => ?_⟩ <;> dsimp only <;>
    by_cases hm : m=n
  · rw [hm,setNode_self]
    exact hnode.1
  · rw [setNode_of_ne w hm]
    exact h.node m
  · rw [hm,setNode_self]
    exact hnode.2
  · rw [setNode_of_ne w hm]
    exact h.one m
  · rw [hm,setNode_self]
    exact h.scheduled n
  · rw [setNode_of_ne w hm]
    exact h.scheduled m
  · rw [hm,setNode_self,count_append,h.account n x,bgpInfoAdd]
    dsimp only [ProcessQueue.setNode]
    by_cases hx : x=ri
    · rw [hx,if_neg hnew,if_pos mem_cons_self,count_singleton_self]
    have hne : (n,ri)≠(n,x) := fun he => hx (Prod.mk.inj he).2.symm
    have hiff : x∈ri::(w.nodes n).rn.infoList ↔ x∈(w.nodes n).rn.infoList :=
      mem_cons.trans (or_iff_right hx)
    rw [count_singleton,beq_false_of_ne hne,if_neg Bool.false_ne_true,if_congr hiff rfl rfl,
      add_zero]
  · have hne : (n,ri)≠(m,x) := fun he => hm (Prod.mk.inj he).1.symm
    rw [setNode_of_ne w hm,count_append,count_singleton,beq_false_of_ne hne,
      if_neg Bool.false_ne_true,add_zero]
    exact h.account m x

theorem ProcessInv.process (h : ProcessInv w) (n : ℕ) : ProcessInv (bgpProcess w n) := by
  rw [bgpProcess]
  by_cases hsched : (w.nodes n).scheduled=true
  · rw [if_pos hsched]
    exact h
  rw [if_neg hsched]
  have hout : n ∉ w.queue := fun hin => hsched ((h.scheduled n).mpr hin)
  have hrn : ∀ m, ((w.setNode n {w.nodes n with scheduled := true}).nodes m).rn =
      (w.nodes m).rn := by
    intro m
    by_cases hm : m=n
    · rw [hm,setNode_self]
    · rw [setNode_of_ne w hm]
  refine ⟨fun m => ?_,fun m => ?_,fun m => ?_,?_,fun m x => ?_⟩ <;> dsimp only
  · rw [hrn]
    exact h.node m
  · rw [hrn]
    exact h.one m
  · rw [mem_append,mem_singleton]
    by_cases hm : m=n
    · rw [hm,setNode_self]
      simp
    rw [setNode_of_ne w hm,or_iff_left hm]
    exact h.scheduled m
  · refine List.Nodup.append h.nodup (nodup_singleton n) fun m hm hm' => hout ?_
    rw [←mem_singleton.mp hm']
    exact hm
  rw [hrn]
  exact h.account m x

/-- What a run of the queue does to the nodes. -/
structure RunSpec (bgp : Bgp) (w w' : ProcessQueue) (n : ℕ) (rest : List ℕ) : Prop where
  queue : w'.queue=rest
  examined : w'.examined=w.examined++[n]
  others : ∀ m, m≠n → w'.nodes m=w.nodes m
  selected : ∀ ri∈(w'.nodes n).rn.infoList, ((w'.nodes n).rn.flags ri).selected=true ↔
    (bgpBestSelection bgp (w.nodes n).rn).new=some ri
  best : ∀ ri, (bgpBestSelection bgp (w.nodes n).rn).new=some ri →
    ri∈(w'.nodes n).rn.infoList ∧ ((w'.nodes n).rn.flags ri).holddown=false
  present : ∀ ri∈(w'.nodes n).rn.infoList, ((w'.nodes n).rn.flags ri).removed=false
  /-- The paths that are not deleted stay, in their order. -/
  infoList : (w'.nodes n).rn.infoList =
    (w.nodes n).rn.infoList.filter fun ri => !((w.nodes n).rn.flags ri).removed
  /-- The deleted paths are reaped, each one once, and no other. -/
  reaped : ∃ paths : List ℕ, w'.reaped=w.reaped++paths.map (fun ri => (n,ri)) ∧ paths.Nodup ∧
      ∀ ri, ri∈paths ↔ ri∈(w.nodes n).rn.infoList ∧ ((w.nodes n).rn.flags ri).removed=true

theorem runMain_eq (hqueue : w.queue=n::rest) (config : ProcessConfig) (multipathChg : ℕ→Bool) :
    runMain w config multipathChg =
      {w.setNode n (bgpProcessMain config multipathChg (w.nodes n)).node with
        queue := rest
        reaped := w.reaped ++
          (bgpProcessMain config multipathChg (w.nodes n)).reaped.map fun ri => (n,ri)
        examined := w.examined++[n]} := by
  rw [runMain,hqueue]

theorem ProcessInv.runSpec (h : ProcessInv w) (hqueue : w.queue=n::rest) (config : ProcessConfig)
    (multipathChg : ℕ → Bool) : RunSpec config.bgp w (runMain w config multipathChg) n rest := by
  have hmain := bgpProcessMain_spec config multipathChg (h.node n) (h.one n)
  rw [runMain_eq hqueue]
  refine ⟨rfl,rfl,fun m hm => setNode_of_ne w hm _,?_,?_,fun ri hri => ?_,?_,
    ⟨_,rfl,hmain.nodup,hmain.reaped⟩⟩ <;> dsimp only at * <;> rw [setNode_self] at *
  · exact hmain.selected
  · exact hmain.best
  · rw [hmain.infoList] at hri
    rw [removed_of_lasting (hmain.flags ri)]
    exact (Bool.not_eq_true' _).mp (mem_filter.mp hri).2
  · exact hmain.infoList

/-- A run keeps the account: it reaps a path only when the path leaves the list. -/
theorem RunSpec.account {bgp : Bgp} (h : RunSpec bgp w w' n rest) (m ri : ℕ) :
    (w'.reaped.count (m,ri)+if ri∈(w'.nodes m).rn.infoList then 1 else 0) =
      w.reaped.count (m,ri)+if ri∈(w.nodes m).rn.infoList then 1 else 0 := by
  obtain ⟨paths,hreaped,hnd,hpaths⟩ := h.reaped
  rw [hreaped,count_append]
  by_cases hm : m=n
  · subst hm
    have hcnt : (paths.map fun ri => (m,ri)).count (m,ri)=paths.count ri :=
      count_map_of_injective paths _ (fun _ _ he => (Prod.mk.inj he).2) ri
    have hkept : ri∈(w'.nodes m).rn.infoList ↔
        ri∈(w.nodes m).rn.infoList ∧ ((w.nodes m).rn.flags ri).removed=false := by
      rw [h.infoList,mem_filter,Bool.not_eq_true']
    rw [hcnt,hnd.count,if_congr (hpaths ri) rfl rfl,if_congr hkept rfl rfl]
    by_cases hin : ri∈(w.nodes m).rn.infoList <;>
      cases hrem : ((w.nodes m).rn.flags ri).removed <;> simp [hin]
  have hout : (paths.map fun ri => (n,ri)).count (m,ri)=0 := by
    refine count_eq_zero_of_not_mem fun hin => ?_
    obtain ⟨_,_,he⟩ := mem_map.mp hin
    exact hm (Prod.mk.inj he).1.symm
  rw [hout,h.others m hm,add_zero]

theorem ProcessInv.main (h : ProcessInv w) (config : ProcessConfig) (multipathChg : ℕ→Bool) :
    ProcessInv (runMain w config multipathChg) := by
  cases hqueue : w.queue with
  | nil =>
    rw [runMain,hqueue]
    exact h
  | cons n rest =>
    have hrun := h.runSpec hqueue config multipathChg
    have hmain := bgpProcessMain_spec config multipathChg (h.node n) (h.one n)
    have hnode : (runMain w config multipathChg).nodes n =
        (bgpProcessMain config multipathChg (w.nodes n)).node := by
      rw [runMain_eq hqueue]
      exact setNode_self w n _
    have hnd := h.nodup
    rw [hqueue,nodup_cons] at hnd
    have hadded : (runMain w config multipathChg).added=w.added := by
      rw [runMain_eq hqueue]
      rfl
    refine ⟨fun m => ?_,fun m => ?_,fun m => ?_,?_,fun m ri => ?_⟩
    · by_cases hm : m=n
      · rw [hm,hnode]
        exact hmain.inv
      rw [hrun.others m hm]
      exact h.node m
    · by_cases hm : m=n
      · rw [hm]
        intro x hx y hy hselx hsely
        have hbestx := (hrun.selected x hx).mp hselx
        rw [(hrun.selected y hy).mp hsely,some.injEq] at hbestx
        exact hbestx.symm
      rw [hrun.others m hm]
      exact h.one m
    · rw [hrun.queue]
      by_cases hm : m=n
      · rw [hm,hnode,hmain.scheduled]
        exact ⟨nofun,fun hin => absurd hin hnd.1⟩
      · rw [hrun.others m hm,h.scheduled m,hqueue,mem_cons,or_iff_right hm]
    · rw [hrun.queue]
      exact hnd.2
    rw [hadded,hrun.account]
    exact h.account m ri

theorem processStep_inv (w : ProcessQueue) (op : ProcessOp) (h : ProcessInv w)
    (hleg : ProcessLegal w op) : ∃ w', processStep w op=some w' ∧ ProcessInv w' := by
  cases op with
  | add n ri info flags path => exact ⟨_,rfl,h.add hleg info flags path⟩
  | update n ri info flags path =>
    obtain ⟨hnode,hone⟩ := bgpInfoUpdate_inv (h.node n) (h.one n) ri info flags path
    exact ⟨_,rfl,h.setNode hnode hone rfl rfl⟩
  | delete n ri =>
    obtain ⟨hnode,hone⟩ := modifyFlags_inv (h.node n) (h.one n) ri
      (f := fun flags => {flags with removed := true,valid := false})
      (fun _ => rfl) (fun _ => rfl) fun _ => rfl
    exact ⟨_,rfl,h.setNode hnode hone rfl rfl⟩
  | restore n ri =>
    obtain ⟨hnode,hone⟩ := modifyFlags_inv (h.node n) (h.one n) ri
      (f := fun flags => {flags with removed := false,valid := true})
      (fun _ => rfl) (fun _ => rfl) fun _ => rfl
    exact ⟨_,rfl,h.setNode hnode hone rfl rfl⟩
  | process n => exact ⟨_,rfl,h.process n⟩
  | main config multipathChg => exact ⟨_,rfl,h.main config multipathChg⟩

theorem processStep_queue (hstep : processStep w op=some w') (hop : op.isMain=false) :
    (∃ extra, w'.queue=w.queue++extra) ∧ w'.examined=w.examined := by
  cases op with
  | main config multipathChg => cases hop
  | process n =>
    rw [processStep,some.injEq,bgpProcess] at hstep
    rw [←hstep]
    split
    · exact ⟨⟨[],(append_nil _).symm⟩,rfl⟩
    · exact ⟨⟨[n],rfl⟩,rfl⟩
  | _ =>
    rw [processStep,some.injEq] at hstep
    rw [←hstep]
    exact ⟨⟨[],(append_nil _).symm⟩,rfl⟩

theorem processStep_main (hstep : processStep w op=some w') (hop : op.isMain=true)
    (hqueue : w.queue=n::rest) : w'.queue=rest ∧ w'.examined=w.examined++[n] := by
  cases op with
  | main config multipathChg =>
    rw [processStep,some.injEq,runMain_eq hqueue] at hstep
    rw [←hstep]
    exact ⟨rfl,rfl⟩
  | _ => cases hop

/-- The record of the examined nodes only grows. -/
theorem processRun_examined : ∀ {w : ProcessQueue}, run processStep w ops=some w' →
      ∃ later, w'.examined=w.examined++later := by
  induction ops with
  | nil =>
    intro w hrun
    rw [run_nil,some.injEq] at hrun
    rw [←hrun]
    exact ⟨[],(append_nil _).symm⟩
  | cons op ops ih =>
    intro w hrun
    rw [run] at hrun
    obtain ⟨w1,hstep,hrs⟩ := bind_eq_some_iff.mp hrun
    obtain ⟨later,hlater⟩ := ih hrs
    cases hop : op.isMain with
    | false =>
      rw [(processStep_queue hstep hop).2] at hlater
      exact ⟨later,hlater⟩
    | true =>
      cases op with
      | main config multipathChg =>
        cases hqueue : w.queue with
        | nil =>
          rw [processStep,runMain,hqueue,some.injEq] at hstep
          rw [←hstep] at hlater
          exact ⟨later,hlater⟩
        | cons n rest =>
          rw [(processStep_main hstep hop hqueue).2,append_assoc] at hlater
          exact ⟨_,hlater⟩
      | _ => cases hop

/-- A node on the queue is examined when as many runs have passed as there are
nodes up to it. -/
theorem processRun_examines (ops : List ProcessOp) :
    ∀ {w : ProcessQueue} {as bs : List ℕ}, w.queue=as++n::bs →
      as.length<ops.countP ProcessOp.isMain → run processStep w ops=some w' →
        ∃ later, w'.examined=w.examined++later ∧ n∈later := by
  induction ops with
  | nil => exact fun _ hlt => absurd hlt (Nat.not_lt_zero _)
  | cons op ops ih =>
    intro w as bs hqueue hlt hrun
    rw [run] at hrun
    obtain ⟨w1,hstep,hrs⟩ := bind_eq_some_iff.mp hrun
    cases hop : op.isMain with
    | false =>
      obtain ⟨⟨extra,hextra⟩,hexamined⟩ := processStep_queue hstep hop
      rw [countP_cons_of_neg (by rw [hop]; exact Bool.false_ne_true)] at hlt
      rw [hqueue,append_assoc,cons_append] at hextra
      obtain ⟨later,hlater,hn⟩ := ih hextra hlt hrs
      rw [hexamined] at hlater
      exact ⟨later,hlater,hn⟩
    | true =>
      rw [countP_cons_of_pos hop] at hlt
      cases as with
      | nil =>
        obtain ⟨-,hexamined⟩ := processStep_main hstep hop hqueue
        obtain ⟨later,hlater⟩ := processRun_examined hrs
        rw [hexamined,append_assoc] at hlater
        exact ⟨_,hlater,mem_append_left _ (mem_singleton_self n)⟩
      | cons a as =>
        obtain ⟨hrestQueue,hexamined⟩ := processStep_main hstep hop hqueue
        obtain ⟨later,hlater,hn⟩ := ih hrestQueue (Nat.lt_of_succ_lt_succ hlt) hrs
        rw [hexamined,append_assoc] at hlater
        exact ⟨_,hlater,mem_append_right _ hn⟩

/-- What holds after any sequence of operations. -/
structure ProcessOk (w : ProcessQueue) : Prop where
  one : ∀ n, OneSelected (w.nodes n).rn
  /-- The flag of a node says whether it is on the queue. -/
  scheduled : ∀ n, (w.nodes n).scheduled=true ↔ n∈w.queue
  nodup : w.queue.Nodup
  /-- A path was reaped each time it was added, but for the last time if it is
  still there. -/
  account : ∀ n ri, w.added.count (n,ri) =
    w.reaped.count (n,ri)+if ri∈(w.nodes n).rn.infoList then 1 else 0
  /-- The next run of the queue selects the best path of its node, and reaps the
  deleted paths. -/
  main : ∀ config multipathChg n rest w', w.queue=n::rest →
    processStep w (.main config multipathChg)=some w' → RunSpec config.bgp w w' n rest
  /-- A node given to `bgp_process` is examined by a later run. -/
  examined : ∀ n ops w', run processStep w (.process n::ops)=some w' →
    w.queue.length<ops.countP ProcessOp.isMain → ∃ later, w'.examined=w.examined++later ∧ n∈later

theorem ProcessInv.examined (h : ProcessInv w) (hrun : run processStep w (.process n::ops)=some w')
    (hlt : w.queue.length<ops.countP ProcessOp.isMain) :
    ∃ later, w'.examined=w.examined++later ∧ n∈later := by
  have hrs : run processStep (bgpProcess w n) ops=some w' := hrun
  have hkept : (bgpProcess w n).examined=w.examined := by
    rw [bgpProcess]
    split <;> rfl
  rw [←hkept]
  by_cases hsched : (w.nodes n).scheduled=true
  · obtain ⟨as,bs,hsplit⟩ := append_of_mem ((h.scheduled n).mp hsched)
    have hqueue : (bgpProcess w n).queue=as++n::bs := by rw [bgpProcess,if_pos hsched,hsplit]
    have hlen := congrArg length hsplit
    rw [length_append,length_cons] at hlen
    exact processRun_examines ops hqueue (by omega) hrs
  have hqueue : (bgpProcess w n).queue=w.queue++[n] := by rw [bgpProcess,if_neg hsched]
  exact processRun_examines ops hqueue hlt hrs

/-- After every sequence of operations a node has at most one selected path, its flag says whether
it is queued, no change is lost, and a run reaps deleted paths once. -/
theorem processRun_sound (info : ℕ→BgpInfo) (path : ℕ→PathState) (ops : List ProcessOp)
    (hlegal : LegalRun processStep ProcessLegal (emptyQueue info path) ops) :
    ∃ w, run processStep (emptyQueue info path) ops=some w ∧ ProcessOk w := by
  obtain ⟨w,hrun,hinv⟩ :=
    run_invariant processStep_inv ops (emptyQueue info path) (emptyQueue_inv info path) hlegal
  refine ⟨w,hrun,hinv.one,hinv.scheduled,hinv.nodup,hinv.account,?_,?_⟩
  · intro config multipathChg n rest w' hqueue hstep
    rw [processStep,some.injEq] at hstep
    rw [←hstep]
    exact hinv.runSpec hqueue config multipathChg
  intro n ops w' hrun hlt
  exact hinv.examined hrun hlt

/-- A path from an external peer. -/
def sampleInfo (addr : ℕ) : BgpInfo where
  attr := ⟨[],0,none,none,none,none,none⟩
  peer := ⟨.ebgp,64512,addr,.inet addr⟩
  subType := .normal
  igpmetric := none

/-- The kernel is told, and one peer. -/
def sampleConfig : ProcessConfig :=
  ⟨⟨100,false,true,false,false,true,false,false,false⟩,[1],true,false,false⟩

/-- The selected path is deleted, restored and deleted again on the queue. -/
def sampleChanges : List ProcessOp :=
  let valid : InfoFlags := {InfoFlags.zero with valid := true}
  let unchanged : PathState := ⟨true,false,false,false⟩
  [.add 0 1 (sampleInfo 1) valid unchanged,.process 0,.main sampleConfig fun _ => false,
    .delete 0 1,.process 0,.restore 0 1,.add 0 2 (sampleInfo 2) valid unchanged,.process 0,
    .delete 0 1,.main sampleConfig fun _ => false]

theorem processRun_sound_sampleChanges :
    ∃ w, run processStep (emptyQueue sampleInfo fun _ => ⟨false,false,false,false⟩) sampleChanges =
      some w ∧ ProcessOk w :=
  processRun_sound sampleInfo _ sampleChanges (by decide)

end RoutePlatform.BgpProcessRuns
