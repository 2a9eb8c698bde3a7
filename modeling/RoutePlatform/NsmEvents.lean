import RoutePlatform.NsmInvariant

/-!
# One event of a neighbour

The action prepares a neighbour for the next state; the change of state keeps the counters,
settles the lists and starts the exchange; the timers are set last. A neighbour that ends in the
state of deleted ones leaves the table.
-/

namespace RoutePlatform.NsmEvents

open KeyedStore LsaOperations OspfStates NsmOperations NsmInvariant Function List NsmInterface

universe u v w

variable {κ : Type u} {ι : Type v} {μ : Type w} {nbr' : NsmNeighbor μ} {l : List ι}
  {nbr : NsmNeighbor μ} {α : Type*} (a : NsmArea κ ι μ) (x : Answers κ ι)

section

variable (x : Answers κ ι) {nbr : NsmNeighbor μ} {old state : NsmState}

theorem nsmTimerSet_state (nbr : NsmNeighbor μ) : (nsmTimerSet nbr).state=nbr.state := by
  unfold nsmTimerSet
  split
  all_goals rfl

/-- The timers are set before a neighbour is deleted, with the hello reply off. -/
theorem nsmTimerSet_tHelloReply (h : nbr.state=.deleted) :
    (nsmTimerSet nbr).tHelloReply=false := by
  unfold nsmTimerSet
  rw [h]

theorem nsmTimerSet_fields (nbr : NsmNeighbor μ) :
    (nsmTimerSet nbr).routerId=nbr.routerId ∧ (nsmTimerSet nbr).src=nbr.src ∧
      (nsmTimerSet nbr).nbrNbma=nbr.nbrNbma ∧ (nsmTimerSet nbr).lastSend=nbr.lastSend ∧
      (nsmTimerSet nbr).dbSum=nbr.dbSum ∧ (nsmTimerSet nbr).lsReq=nbr.lsReq ∧
      (nsmTimerSet nbr).lsRxmt=nbr.lsRxmt := by
  unfold nsmTimerSet
  split
  all_goals exact ⟨rfl,rfl,rfl,rfl,rfl,rfl,rfl⟩

theorem nsmTimerSet_tDbDesc (hlive : nbr.state ≠ .dependUpon) (h : (nsmTimerSet nbr).tDbDesc=true) :
    nbr.state=.exStart ∨ (nbr.state=.exchange ∧ Master (nsmTimerSet nbr)) := by
  cases hs : nbr.state with
  | exStart => exact Or.inl rfl
  | exchange =>
    refine Or.inr ⟨rfl,?_⟩
    simp only [nsmTimerSet,hs,Master] at h ⊢
    cases hm : checkFlag nbr.ddFlags ospfDdFlagMs with
    | true => rfl
    | false =>
      rw [hm] at h
      cases h
  | dependUpon => exact absurd hs hlive
  | deleted | down | attempt | initState | twoWay | loading | full =>
    simp only [nsmTimerSet,hs] at h
    cases h

theorem nbrOk_timerSet (hlive : nbr.state ≠ .dependUpon ∧ nbr.state ≠ .deleted)
    (hlists : below .exStart nbr.state=false → ListsEmpty nbr)
    (hsent : below nbr.state .exStart=false → nbr.lastSend=true) :
    NbrOk (nsmTimerSet nbr) := by
  obtain ⟨-,-,-,hsend,hsum,hreq,hrxmt⟩ := nsmTimerSet_fields nbr
  refine ⟨?_,fun hs => ?_,fun ht => ?_,fun hs => ?_⟩
  · rw [nsmTimerSet_state]
    exact hlive
  · rw [nsmTimerSet_state] at hs
    obtain ⟨h1,h2,h3⟩ := hlists hs
    refine ⟨?_,?_,?_⟩
    · rw [hsum]
      exact h1
    · rw [hreq]
      exact h2
    rw [hrxmt]
    exact h3
  · rw [nsmTimerSet_state]
    exact nsmTimerSet_tDbDesc hlive.1 ht
  rw [nsmTimerSet_state] at hs
  rw [hsend]
  exact hsent hs

theorem describeTypes_isEmpty (sendsO : Bool) {dbSum : OspfLsdb}
    (h : ospfLsdbIsempty dbSum=true) (n : ℕ) : ∀ type room,
    ospfLsdbIsempty (DatabaseExchange.describeTypes sendsO dbSum n type room)=true := by
  have hent := Store.isEmpty_iff.mp h
  induction n with
  | zero =>
    intro type room
    exact h
  | succ n ih =>
    intro type room
    rw [DatabaseExchange.describeTypes]
    simp only [hent,filter_nil,DatabaseExchange.describeType,foldl_nil]
    exact ih _ _

theorem startExchange_fields (nbr : NsmNeighbor μ) :
    (startExchange x nbr).state=nbr.state ∧ (startExchange x nbr).routerId=nbr.routerId ∧
      (startExchange x nbr).src=nbr.src ∧ (startExchange x nbr).nbrNbma=nbr.nbrNbma ∧
      (startExchange x nbr).lastSend=true := by
  unfold startExchange ospfDbDescSend
  exact ⟨rfl,rfl,rfl,rfl,rfl⟩

theorem startExchange_listsEmpty (h : ListsEmpty nbr) : ListsEmpty (startExchange x nbr) := by
  refine ⟨?_,?_,?_⟩
  · simp only [startExchange,ospfDbDescSend]
    exact describeTypes_isEmpty x.sendsO h.dbSum _ _ _
  · simp only [startExchange,ospfDbDescSend]
    exact h.lsReq
  simp only [startExchange,ospfDbDescSend]
  exact h.lsRxmt

theorem settleState_fields (old state : NsmState) (nbr : NsmNeighbor μ) :
    let nbr' := NsmArea.settleState x old state nbr
    nbr'.state=nbr.state ∧ nbr'.routerId=nbr.routerId ∧ nbr'.src=nbr.src ∧
      nbr'.nbrNbma=nbr.nbrNbma := by
  have hclear : ∀ p : Prop, ∀ _ : Decidable p,
      let nbr' := if p then nsmClearAdj nbr else nbr
      nbr'.state=nbr.state ∧ nbr'.routerId=nbr.routerId ∧ nbr'.src=nbr.src ∧
        nbr'.nbrNbma=nbr.nbrNbma := by
    intro p _
    split
    all_goals exact ⟨rfl,rfl,rfl,rfl⟩
  unfold NsmArea.settleState
  obtain ⟨h1,h2,h3,h4⟩ := hclear (below .exStart old ∧ !below .exStart state) inferInstance
  dsimp only at h1 h2 h3 h4 ⊢
  generalize (if below .exStart old ∧ !below .exStart state then nsmClearAdj nbr else nbr) =
    cleared at h1 h2 h3 h4 ⊢
  obtain ⟨e1,e2,e3,e4,-⟩ := startExchange_fields x cleared
  split
  · split
    · exact ⟨e1.trans h1,e2.trans h2,e3.trans h3,e4.trans h4⟩
    · exact ⟨h1,h2,h3,h4⟩
  split
  · exact ⟨e1.trans h1,e2.trans h2,e3.trans h3,e4.trans h4⟩
  · exact ⟨h1,h2,h3,h4⟩

theorem settleState_listsEmpty (hs : below .exStart state=false)
    (h : below .exStart old=false → ListsEmpty nbr) :
    ListsEmpty (NsmArea.settleState x old state nbr) := by
  have hclear : ListsEmpty (if below .exStart old ∧ !below .exStart state then nsmClearAdj nbr
      else nbr) := by
    cases hold : below .exStart old with
    | true =>
      rw [hs,if_pos ⟨rfl,rfl⟩]
      exact ⟨rfl,rfl,rfl⟩
    | false =>
      rw [if_neg (by simp)]
      exact h hold
  have hstart : ∀ nbr' : NsmNeighbor μ, ListsEmpty nbr' →
      ListsEmpty (if state=.exStart then startExchange x nbr' else nbr') := by
    intro nbr' h'
    split
    · exact startExchange_listsEmpty x h'
    · exact h'
  have hdown : ∀ nbr' : NsmNeighbor μ, ListsEmpty nbr' →
      ListsEmpty (if state=.down then {nbr' with cryptSeqnum := 0} else nbr') := by
    intro nbr' h'
    split
    · exact ⟨h'.dbSum,h'.lsReq,h'.lsRxmt⟩
    · exact h'
  exact hdown _ (hstart _ hclear)

/-- From ExStart on there is a packet to repeat. -/
theorem settleState_lastSend (h : state=.exStart ∨ nbr.lastSend=true) :
    (NsmArea.settleState x old state nbr).lastSend=true := by
  have hclear : ∀ p : Prop, ∀ _ : Decidable p,
      (if p then nsmClearAdj nbr else nbr).lastSend=nbr.lastSend := by
    intro p _
    split
    all_goals rfl
  unfold NsmArea.settleState
  have hkept := hclear (below .exStart old ∧ !below .exStart state) inferInstance
  generalize (if below .exStart old ∧ !below .exStart state then nsmClearAdj nbr else nbr) =
    cleared at hkept ⊢
  have hstart := (startExchange_fields x cleared).2.2.2.2
  by_cases hs : state=.exStart
  · simp only [if_pos hs]
    split
    all_goals exact hstart
  have hsend := hkept.trans (h.resolve_left hs)
  simp only [if_neg hs]
  split
  all_goals exact hsend

/-- After the action of an event a neighbour is prepared for the next state. -/
structure Prepared (nbr : NsmNeighbor μ) (state : NsmState) : Prop where
  goes : state ≠ .dependUpon
  /-- The lists are empty when there is and will be no adjacency. -/
  lists : below .exStart state=false → below .exStart nbr.state=false → ListsEmpty nbr
  sent : below nbr.state .exStart=false → nbr.lastSend=true
  climbs : below .exStart state=true → below nbr.state .exStart=false

theorem Prepared.nbrOk_stays (h : Prepared nbr nbr.state) (hlive : nbr.state ≠ .deleted) :
    NbrOk (nsmTimerSet nbr) :=
  nbrOk_timerSet ⟨h.goes,hlive⟩ (fun hs => h.lists hs hs) h.sent

/-- A prepared neighbour that has entered its next state, after elections and
floods. -/
theorem Prepared.nbrOk_settled (h : Prepared nbr state) (hlive : state ≠ .deleted)
    (hk : Kept {nbr with state := state,stateChange := nbr.stateChange+1} nbr') :
    NbrOk (nsmTimerSet (NsmArea.settleState x nbr.state state nbr')) := by
  have hstate : (NsmArea.settleState x nbr.state state nbr').state=state :=
    (settleState_fields x nbr.state state nbr').1.trans hk.state
  refine nbrOk_timerSet ?_ (fun hs => ?_) fun hs => ?_
  · rw [hstate]
    exact ⟨h.goes,hlive⟩
  · rw [hstate] at hs
    refine settleState_listsEmpty x hs fun hold => ?_
    have he := h.lists hs hold
    exact hk.listsEmpty hs ⟨he.dbSum,he.lsReq,he.lsRxmt⟩
  rw [hstate] at hs
  refine settleState_lastSend x ?_
  by_cases hex : state=.exStart
  · exact Or.inl hex
  have hup : below .exStart state=true := by
    cases state <;> first | rfl | exact absurd hs (by decide) | exact absurd rfl hex
  exact Or.inr (hk.lastSend.trans (h.sent (h.climbs hup)))

end

section

variable [DecidableEq ι]

/-- A sum after one object of a list without repetitions changed. -/
theorem sum_update (g : α→ℤ) (f : ι→α) (n : ι) (v : α) (hl : l.Nodup) (hn : n∈l) :
    (l.map fun m => g (update f n v m)).sum+g (f n) = (l.map fun m => g (f m)).sum+g v := by
  induction l with
  | nil => cases hn
  | cons m rest ih =>
    obtain ⟨hm,hrs⟩ := nodup_cons.mp hl
    rw [map_cons,map_cons,sum_cons,sum_cons]
    by_cases hnm : n=m
    · subst hnm
      have hsame : (rest.map fun m => g (update f n v m)) = rest.map fun m => g (f m) := by
        refine map_congr_left fun m' hm' => ?_
        have hne : m'≠n := fun h => hm (h ▸ hm')
        rw [update_of_ne hne]
      rw [hsame,update_self]
      omega
    have hmem := (mem_cons.mp hn).resolve_left hnm
    have := ih hrs hmem
    rw [update_of_ne (Ne.symm hnm)]
    omega

/-- 1 for a full neighbour. -/
def fullOne (s : NsmState) : ℤ := if s=.full then 1 else 0

omit [DecidableEq ι] in
theorem countFull_eq_sum (oi : NsmInterface ι μ) :
    (oi.countFull : ℤ)=(oi.neighbors.map fun m => fullOne (oi.nbr m).state).sum := by
  rw [NsmInterface.countFull]
  induction oi.neighbors with
  | nil => rfl
  | cons m rest ih =>
    rw [countP_cons,map_cons,sum_cons,←ih,fullOne]
    split <;> simp_all [add_comm]

theorem countFull_setNbr (oi : NsmInterface ι μ) {n : ι} (hnd : oi.neighbors.Nodup)
    (hn : n∈oi.neighbors) (nbr : NsmNeighbor μ) :
    ((oi.setNbr n nbr).countFull : ℤ)+fullOne (oi.nbr n).state =
      oi.countFull+fullOne nbr.state := by
  rw [countFull_eq_sum,countFull_eq_sum]
  exact sum_update (fun r : NsmNeighbor μ => fullOne r.state) oi.nbr n nbr hnd hn

end

section

variable [DecidableEq κ]
variable (x : Answers κ ι) (a : NsmArea κ ι μ) (i : κ) (n : ι)

/-- The record of a neighbour that enters a state. -/
def entered (nbr : NsmNeighbor μ) (state : NsmState) : NsmNeighbor μ :=
  {nbr with state := state,stateChange := nbr.stateChange+1}

theorem countFull_keptArea (d : ℤ) : KeptArea i d a (a.countFull i d) :=
  setOi_keptArea a ⟨rfl,rfl,rfl,rfl,fun _ => Kept.refl _,fun _ he => Or.inl he⟩ rfl

variable [DecidableEq ι]

theorem enterState_keptArea (state : NsmState) :
    KeptArea i 0 (a.setNbr i n (entered ((a.oi i).nbr n) state)) (a.enterState i n state) := by
  unfold NsmArea.enterState
  dsimp only
  split
  · have hkept := setOi_keptArea (a.setNbr i n (entered ((a.oi i).nbr n) state))
      (ismNeighborChange_keptOi ((a.setNbr i n (entered ((a.oi i).nbr n) state)).oi i))
      (d := 0) (by
        rw [add_zero]
        unfold ismNeighborChange
        split
        all_goals rfl)
    rw [add_zero] at hkept
    exact hkept
  · exact KeptArea.refl i _

variable [DecidableEq μ]

def fullChange (old state : NsmState) : ℤ := fullOne state-fullOne old

theorem countState_keptArea (old state : NsmState) :
    KeptArea i (fullChange old state) a (a.countState x i old state) := by
  have hfloods := fun b : NsmArea κ ι μ => floods_keptArea x i x.floods b
  unfold NsmArea.countState fullChange fullOne
  by_cases hs : state=.full
  · by_cases ho : old=.full
    · simpa [hs,ho] using hfloods a
    · simpa [hs,ho] using (countFull_keptArea a i 1).trans (hfloods _)
  by_cases ho : old=.full
  · simpa [hs,ho] using (countFull_keptArea a i (-1)).trans (hfloods _)
  · simpa [hs,ho] using hfloods a

end

section

section

variable [DecidableEq κ]

theorem setOi_self (i : κ) (oi : NsmInterface ι μ) : (a.setOi i oi).oi i=oi := update_self ..

theorem setOi_of_ne {j : κ} (oi : NsmInterface ι μ) (h : j≠i) :
    (a.setOi i oi).oi j=a.oi j := update_of_ne h ..

end

variable [DecidableEq ι] {oi : NsmInterface ι μ} {n : ι} {nbr : NsmNeighbor μ}

/-- A changed neighbour keeps its references when it keeps its key. -/
theorem refsOk_setNbr_key (h : RefsOk oi)
    (hkey : n≠oi.nbrSelf → (oi.setNbr n nbr).nbrKey n=oi.nbrKey n)
    (hnbma : nbr.nbrNbma=(oi.nbr n).nbrNbma) : RefsOk (oi.setNbr n nbr) where
  keys := h.keys
  nodup := h.nodup
  key := by
    intro e he hne
    rw [h.key e he hne]
    by_cases hn : e.2=n
    · rw [hn] at hne ⊢
      exact (hkey hne).symm
    change (if oi.type=_ then _ else _)=if oi.type=_ then
      (update oi.nbr n nbr e.2).routerId else (update oi.nbr n nbr e.2).src
    rw [update_of_ne hn]
  nbma := by
    intro m n' hm
    obtain ⟨hmem,hback⟩ := h.nbma m n' hm
    refine ⟨hmem,?_⟩
    change (update oi.nbr n nbr n').nbrNbma=_
    by_cases hn : n'=n
    · subst hn
      rw [update_self,hnbma]
      exact hback
    rw [update_of_ne hn]
    exact hback
  events := h.events

theorem refsOk_setNbr (h : RefsOk oi) (hid : nbr.routerId=(oi.nbr n).routerId)
    (hsrc : nbr.src=(oi.nbr n).src) (hnbma : nbr.nbrNbma=(oi.nbr n).nbrNbma) :
    RefsOk (oi.setNbr n nbr) := by
  refine refsOk_setNbr_key h (fun _ => ?_) hnbma
  unfold nbrKey
  change (if oi.type=_ then (update oi.nbr n nbr n).routerId
    else (update oi.nbr n nbr n).src)=_
  rw [update_self,hid,hsrc]

theorem setNbr_self (oi : NsmInterface ι μ) (n : ι) (nbr : NsmNeighbor μ) :
    (oi.setNbr n nbr).nbr n=nbr := update_self ..

theorem setNbr_of_ne (oi : NsmInterface ι μ) {m : ι} (nbr : NsmNeighbor μ) (h : m≠n) :
    (oi.setNbr n nbr).nbr m=oi.nbr m := update_of_ne h ..

theorem countFull_setNbr_same (hnd : oi.neighbors.Nodup) (hn : n∈oi.neighbors)
    (hstate : nbr.state=(oi.nbr n).state) : (oi.setNbr n nbr).countFull=oi.countFull := by
  have h := countFull_setNbr oi hnd hn nbr
  rw [hstate] at h
  omega

variable [DecidableEq κ] {a : NsmArea κ ι μ} {i : κ} {state : NsmState}

/-- An area while an event of one neighbour is executed, without that. -/
structure During (a : NsmArea κ ι μ) (i : κ) (n : ι) : Prop where
  nodup : a.oiflist.Nodup
  mem : i∈a.oiflist
  others : ∀ j∈a.oiflist, j≠i → OiOk (a.oi j)
  refs : RefsOk (a.oi i)
  nbrs : ∀ m∈(a.oi i).neighbors, m≠n → NbrOk ((a.oi i).nbr m)
  member : n∈(a.oi i).neighbors
  notSelf : n≠(a.oi i).nbrSelf
  counter : (a.oi i).fullNbrs=(a.oi i).countFull
  full : a.fullNbrs=(a.oiflist.map fun j => ((a.oi j).countFull : ℤ)).sum

theorem During.setNbr (h : During a i n) (hid : nbr.routerId=((a.oi i).nbr n).routerId)
    (hsrc : nbr.src=((a.oi i).nbr n).src) (hnbma : nbr.nbrNbma=((a.oi i).nbr n).nbrNbma)
    (hstate : nbr.state=((a.oi i).nbr n).state) : During (a.setNbr i n nbr) i n := by
  have hoi : (a.setNbr i n nbr).oi i=(a.oi i).setNbr n nbr := setOi_self ..
  have hne : ∀ j, j≠i → (a.setNbr i n nbr).oi j=a.oi j := fun j hj => setOi_of_ne _ _ hj
  have hcnt := countFull_setNbr_same h.refs.nodup h.member hstate
  have hcounts : ∀ j, ((a.setNbr i n nbr).oi j).countFull=(a.oi j).countFull := by
    intro j
    by_cases hj : j=i
    · subst hj
      rw [hoi]
      exact hcnt
    · rw [hne j hj]
  refine ⟨h.nodup,h.mem,fun j hj hji => ?_,?_,fun m hm hmn => ?_,?_,?_,?_,?_⟩
  · rw [hne j hji]
    exact h.others j hj hji
  · rw [hoi]
    exact refsOk_setNbr h.refs hid hsrc hnbma
  · rw [hoi] at hm ⊢
    rw [setNbr_of_ne _ _ hmn]
    exact h.nbrs m hm hmn
  · rw [hoi]
    exact h.member
  · rw [hoi]
    exact h.notSelf
  · rw [hcounts,hoi]
    exact h.counter
  refine h.full.trans (congrArg sum (map_congr_left fun j _ => ?_))
  rw [hcounts]

/-- The state is entered, elections and floods happen, the counters follow. -/
theorem During.keptArea {b : NsmArea κ ι μ} (h : During a i n)
    (hk : KeptArea i (fullChange ((a.oi i).nbr n).state state)
      (a.setNbr i n (entered ((a.oi i).nbr n) state)) b) : During b i n := by
  have hoi : (a.setNbr i n (entered ((a.oi i).nbr n) state)).oi i =
      (a.oi i).setNbr n (entered ((a.oi i).nbr n) state) := setOi_self ..
  have hne : ∀ j, j≠i → (a.setNbr i n (entered ((a.oi i).nbr n) state)).oi j=a.oi j :=
    fun j hj => setOi_of_ne _ _ hj
  have hki := hk.oi i
  rw [hoi] at hki
  have hneighbors : (b.oi i).neighbors=(a.oi i).neighbors := hki.neighbors
  have hcnt := countFull_setNbr (a.oi i) h.refs.nodup h.member (entered ((a.oi i).nbr n) state)
  have hcountb : (((b.oi i).countFull : ℕ) : ℤ) =
      (a.oi i).countFull+fullChange ((a.oi i).nbr n).state state := by
    rw [hki.countFull]
    change _+_=_+fullOne state at hcnt
    unfold fullChange
    omega
  refine ⟨?_,?_,fun j hj hji => ?_,?_,fun m hm hmn => ?_,?_,?_,?_,?_⟩
  · rw [hk.oiflist]
    exact h.nodup
  · rw [hk.oiflist]
    exact h.mem
  · rw [hk.oiflist] at hj
    have hkj := hk.oi j
    have hfull := hk.counter j
    rw [hne j hji] at hkj hfull
    rw [if_neg hji,add_zero] at hfull
    exact hkj.oiOk hfull (h.others j hj hji)
  · exact hki.refs (refsOk_setNbr h.refs rfl rfl rfl)
  · rw [hneighbors] at hm
    have hkm := hki.nbr m
    rw [setNbr_of_ne _ _ hmn] at hkm
    exact (h.nbrs m hm hmn).kept hkm
  · rw [hneighbors]
    exact h.member
  · rw [hki.nbrSelf]
    exact h.notSelf
  · rw [hk.counter i,if_pos rfl,hoi,hcountb]
    change (a.oi i).fullNbrs+_=_
    rw [h.counter]
  have hsum := sum_update (fun oi : NsmInterface ι μ => (oi.countFull : ℤ)) a.oi i
    ((a.oi i).setNbr n (entered ((a.oi i).nbr n) state)) h.nodup h.mem
  have hsame : (b.oiflist.map fun j => ((b.oi j).countFull : ℤ)) =
      a.oiflist.map fun j => ((update a.oi i
        ((a.oi i).setNbr n (entered ((a.oi i).nbr n) state)) j).countFull : ℤ) := by
    rw [hk.oiflist]
    refine map_congr_left fun j _ => ?_
    rw [(hk.oi j).countFull]
    rfl
  rw [hk.full,hsame]
  change a.fullNbrs+_=_
  rw [h.full]
  rw [←hki.countFull,hcountb] at hsum
  omega

theorem During.areaOk (h : During a i n) (hn : NbrOk ((a.oi i).nbr n)) : AreaOk a where
  nodup := h.nodup
  oi := by
    intro j hj
    by_cases hji : j=i
    · subst hji
      refine ⟨h.refs,fun m hm => ?_,h.counter⟩
      by_cases hmn : m=n
      · rw [hmn]
        exact hn
      · exact h.nbrs m hm hmn
    · exact h.others j hj hji
  full := h.full

variable [DecidableEq μ]

/-- A deleted neighbour has left everything that refers to it. -/
structure Gone (oi : NsmInterface ι μ) (n : ι) : Prop where
  table : n ∉ oi.neighbors
  nbma : ∀ m, (oi.nbma m).nbr≠some n
  events : ∀ e∈oi.events, e.1≠n
  timers : (oi.nbr n).tInactivity=false ∧ (oi.nbr n).tDbDesc=false ∧
    (oi.nbr n).tLsUpd=false ∧ (oi.nbr n).tLsReq=false ∧ (oi.nbr n).tHelloReply=false

theorem ospfNbrDelete_fields (oi : NsmInterface ι μ) (n : ι) :
    let next := oi.ospfNbrDelete n
    next.type=oi.type ∧ next.nbrSelf=oi.nbrSelf ∧ next.fullNbrs=oi.fullNbrs ∧
      next.nbrs=oi.nbrs.filter (fun e => e.1≠oi.nbrKey n) ∧
      next.nbr=update oi.nbr n (ospfNbrFree (oi.nbr n)) ∧
      next.events=oi.events.filter (fun e => e.1≠n) := by
  unfold ospfNbrDelete
  split
  all_goals exact ⟨rfl,rfl,rfl,rfl,rfl,rfl⟩

theorem ospfNbrDelete_nbma (h : RefsOk oi) {m : μ} {n' : ι}
    (hm : ((oi.ospfNbrDelete n).nbma m).nbr=some n') : (oi.nbma m).nbr=some n' ∧ n'≠n := by
  unfold ospfNbrDelete at hm
  cases hnbma : (oi.nbr n).nbrNbma with
  | none =>
    rw [hnbma] at hm
    refine ⟨hm,fun hn => ?_⟩
    have hback := (h.nbma m n' hm).2
    rw [hn,hnbma] at hback
    cases hback
  | some m' =>
    rw [hnbma] at hm
    change (update oi.nbma m' {oi.nbma m' with nbr := none} m).nbr=some n' at hm
    by_cases hmm : m=m'
    · subst hmm
      rw [update_self] at hm
      cases hm
    rw [update_of_ne hmm] at hm
    refine ⟨hm,fun hn => ?_⟩
    have hback := (h.nbma m n' hm).2
    rw [hn,hnbma] at hback
    exact hmm (Option.some.inj hback).symm

section

variable (h : RefsOk oi) (hn : n∈oi.neighbors) (hself : n≠oi.nbrSelf)
include h hn hself

theorem mem_neighbors_delete (m : ι) : m∈(oi.ospfNbrDelete n).neighbors ↔ m∈oi.neighbors ∧ m≠n := by
  have hnbrs := (ospfNbrDelete_fields oi n).2.2.2.1
  rw [neighbors,hnbrs]
  constructor
  · intro hm
    obtain ⟨e,he,rfl⟩ := mem_map.mp hm
    obtain ⟨he,hkey⟩ := mem_filter.mp he
    refine ⟨mem_map.mpr ⟨e,he,rfl⟩,fun hen => ?_⟩
    exact of_decide_eq_true hkey ((h.nbrKey_iff hn hself he).mpr hen)
  · rintro ⟨hm,hmn⟩
    obtain ⟨e,he,rfl⟩ := mem_map.mp hm
    refine mem_map.mpr ⟨e,mem_filter.mpr ⟨he,decide_eq_true fun hkey => ?_⟩,rfl⟩
    exact hmn ((h.nbrKey_iff hn hself he).mp hkey)

theorem refsOk_delete :
    RefsOk (oi.ospfNbrDelete n) := by
  obtain ⟨hty,hnself,-,hnbrs,hnbr,hevents⟩ := ospfNbrDelete_fields oi n
  have hsub : (oi.ospfNbrDelete n).nbrs.Sublist oi.nbrs := by
    rw [hnbrs]
    exact filter_sublist
  have hoth : ∀ m, m≠n → (oi.ospfNbrDelete n).nbr m=oi.nbr m := by
    intro m hm
    rw [hnbr,update_of_ne hm]
  refine ⟨h.keys.sublist (hsub.map _),h.nodup.sublist (hsub.map _),fun e he hne => ?_,
    fun m n' hm => ?_,fun e he => ?_⟩
  · rw [hnself] at hne
    have hen := ((mem_neighbors_delete h hn hself e.2).mp (mem_map.mpr ⟨e,he,rfl⟩)).2
    rw [h.key e (hsub.subset he) hne,nbrKey,nbrKey,hty,hoth e.2 hen]
  · obtain ⟨hm,hne⟩ := ospfNbrDelete_nbma h hm
    obtain ⟨hmem,hback⟩ := h.nbma m n' hm
    refine ⟨(mem_neighbors_delete h hn hself n').mpr ⟨hmem,hne⟩,?_⟩
    rw [hoth n' hne]
    exact hback
  rw [hevents] at he
  obtain ⟨he,hen⟩ := mem_filter.mp he
  exact (mem_neighbors_delete h hn hself e.1).mpr ⟨h.events e he,of_decide_eq_true hen⟩

theorem gone_delete (hreply : (oi.nbr n).tHelloReply=false) : Gone (oi.ospfNbrDelete n) n := by
  obtain ⟨-,-,-,-,hnbr,hevents⟩ := ospfNbrDelete_fields oi n
  refine ⟨fun hmem => ?_,fun m hm => ?_,fun e he => ?_,?_⟩
  · exact ((mem_neighbors_delete h hn hself n).mp hmem).2 rfl
  · exact (ospfNbrDelete_nbma h hm).2 rfl
  · rw [hevents] at he
    exact of_decide_eq_true (mem_filter.mp he).2
  rw [hnbr,update_self]
  exact ⟨rfl,rfl,rfl,rfl,hreply⟩

theorem countFull_delete
    (hstate : (oi.nbr n).state ≠ .full) : (oi.ospfNbrDelete n).countFull=oi.countFull := by
  obtain ⟨-,-,-,hnbrs,hnbr,-⟩ := ospfNbrDelete_fields oi n
  rw [countFull,countFull,neighbors,neighbors,hnbrs,hnbr,countP_map,countP_map,countP_filter]
  refine countP_congr fun e he => ?_
  have hiff := h.nbrKey_iff hn hself he
  by_cases hen : e.2=n
  · have hkey := hiff.mpr hen
    simp [hkey,hen,hstate]
  have hkey : e.1≠oi.nbrKey n := fun hk => hen (hiff.mp hk)
  simp [hkey,update_of_ne hen]

end

variable (h : During a i n)
include h

theorem During.delete (hstate : ((a.oi i).nbr n).state ≠ .full)
    (hreply : ((a.oi i).nbr n).tHelloReply=false) :
    AreaOk (a.setOi i ((a.oi i).ospfNbrDelete n)) ∧
      Gone ((a.setOi i ((a.oi i).ospfNbrDelete n)).oi i) n := by
  obtain ⟨-,-,hfull,-,hnbr,-⟩ := ospfNbrDelete_fields (a.oi i) n
  have hcnt := countFull_delete h.refs h.member h.notSelf hstate
  have hcounts : ∀ j, ((a.setOi i ((a.oi i).ospfNbrDelete n)).oi j).countFull =
      (a.oi j).countFull := by
    intro j
    by_cases hj : j=i
    · subst hj
      rw [setOi_self]
      exact hcnt
    · rw [setOi_of_ne _ _ hj]
  refine ⟨⟨h.nodup,fun j hj => ?_,?_⟩,?_⟩
  · by_cases hji : j=i
    · subst hji
      rw [setOi_self]
      refine ⟨refsOk_delete h.refs h.member h.notSelf,fun m hm => ?_,?_⟩
      · obtain ⟨hm,hmn⟩ := (mem_neighbors_delete h.refs h.member h.notSelf m).mp hm
        rw [hnbr,update_of_ne hmn]
        exact h.nbrs m hm hmn
      rw [hfull,hcnt]
      exact h.counter
    rw [setOi_of_ne _ _ hji]
    exact h.others j hj hji
  · refine h.full.trans (congrArg sum (map_congr_left fun j _ => ?_))
    rw [hcounts]
  · rw [setOi_self]
    exact gone_delete h.refs h.member h.notSelf hreply

variable (hp : Prepared ((a.oi i).nbr n) state)
include hp

theorem During.changeState :
    During (a.nsmChangeState x i n state) i n ∧
      (((a.nsmChangeState x i n state).oi i).nbr n).state=state ∧
      (state ≠ .deleted → NbrOk (nsmTimerSet (((a.nsmChangeState x i n state).oi i).nbr n))) := by
  have hk := (enterState_keptArea a i n state).trans
    (countState_keptArea x (a.enterState i n state) i ((a.oi i).nbr n).state state)
  rw [zero_add] at hk
  have hduring := h.keptArea hk
  have hkn := (hk.oi i).nbr n
  rw [NsmArea.setNbr,setOi_self,setNbr_self] at hkn
  obtain ⟨hstate,hid,hsrc,hnbma⟩ := settleState_fields x ((a.oi i).nbr n).state state
    ((((a.enterState i n state).countState x i ((a.oi i).nbr n).state state).oi i).nbr n)
  have hfinal : ((a.nsmChangeState x i n state).oi i).nbr n =
      NsmArea.settleState x ((a.oi i).nbr n).state state
        ((((a.enterState i n state).countState x i ((a.oi i).nbr n).state state).oi i).nbr n) := by
    unfold NsmArea.nsmChangeState NsmArea.setNbr
    rw [setOi_self,setNbr_self]
  refine ⟨hduring.setNbr hid hsrc hnbma hstate,?_,fun hlive => ?_⟩
  · rw [hfinal]
    exact hstate.trans hkn.state
  rw [hfinal]
  exact hp.nbrOk_settled x hlive hkn

/-- An event ends with a sound area and deletes a neighbour in the deleted state. -/
theorem During.finishEvent :
    AreaOk (a.finishEvent x i n state) ∧
      (state=.deleted → Gone ((a.finishEvent x i n state).oi i) n) ∧
      (state ≠ .deleted → n∈((a.finishEvent x i n state).oi i).neighbors ∧
        (((a.finishEvent x i n state).oi i).nbr n).state=state) := by
  have hchanged : ∃ b : NsmArea κ ι μ,
      (if state≠((a.oi i).nbr n).state then a.nsmChangeState x i n state else a)=b ∧
        During b i n ∧ ((b.oi i).nbr n).state=state ∧
        (state ≠ .deleted → NbrOk (nsmTimerSet ((b.oi i).nbr n))) := by
    by_cases hs : state=((a.oi i).nbr n).state
    · refine ⟨a,if_neg (not_not.mpr hs),h,hs.symm,fun hlive => ?_⟩
      rw [hs] at hp hlive
      exact hp.nbrOk_stays hlive
    · exact ⟨_,if_pos hs,h.changeState x hp⟩
  obtain ⟨b,hb,hduring,hstate,hok⟩ := hchanged
  obtain ⟨hid,hsrc,hnbma,-⟩ := nsmTimerSet_fields ((b.oi i).nbr n)
  have htimer := hduring.setNbr hid hsrc hnbma (nsmTimerSet_state _)
  have hrecord : ((b.setNbr i n (nsmTimerSet ((b.oi i).nbr n))).oi i).nbr n =
      nsmTimerSet ((b.oi i).nbr n) := by
    rw [NsmArea.setNbr,setOi_self,setNbr_self]
  unfold NsmArea.finishEvent
  dsimp only
  rw [hb,hrecord,nsmTimerSet_state,hstate]
  by_cases hdel : state=.deleted
  · rw [if_pos hdel]
    have hfull : (((b.setNbr i n (nsmTimerSet ((b.oi i).nbr n))).oi i).nbr n).state ≠ .full := by
      rw [hrecord,nsmTimerSet_state,hstate,hdel]
      decide
    have hreply : (((b.setNbr i n (nsmTimerSet ((b.oi i).nbr n))).oi i).nbr n).tHelloReply=false := by
      rw [hrecord,nsmTimerSet_tHelloReply (hstate.trans hdel)]
    obtain ⟨harea,hgone⟩ := htimer.delete hfull hreply
    exact ⟨harea,fun _ => hgone,fun hlive => absurd hdel hlive⟩
  rw [if_neg hdel]
  have hnbr : NbrOk (((b.setNbr i n (nsmTimerSet ((b.oi i).nbr n))).oi i).nbr n) := by
    rw [hrecord]
    exact hok hdel
  refine ⟨htimer.areaOk hnbr,fun h => absurd h hdel,fun _ => ⟨htimer.member,?_⟩⟩
  rw [hrecord,nsmTimerSet_state]
  exact hstate

end

section

variable {oi oi' : NsmInterface ι μ} {n : ι}

/-- What an action of the table leaves of an interface. -/
structure Acted (oi oi' : NsmInterface ι μ) (n : ι) : Prop where
  type : oi'.type=oi.type
  nbrSelf : oi'.nbrSelf=oi.nbrSelf
  nbrs : oi'.nbrs=oi.nbrs
  fullNbrs : oi'.fullNbrs=oi.fullNbrs
  events : oi'.events=oi.events
  others : ∀ m, m≠n → oi'.nbr m=oi.nbr m
  state : (oi'.nbr n).state=(oi.nbr n).state
  routerId : (oi'.nbr n).routerId=(oi.nbr n).routerId
  src : (oi'.nbr n).src=(oi.nbr n).src
  lastSend : (oi'.nbr n).lastSend=(oi.nbr n).lastSend
  nbma : ∀ m n', (oi'.nbma m).nbr=some n' → (oi.nbma m).nbr=some n' ∧
    (n'=n → (oi.nbr n).nbrNbma=some m → (oi'.nbr n).nbrNbma=some m)

/-- The lists of a neighbour are those it had. -/
def SameLists (nbr nbr' : NsmNeighbor μ) : Prop :=
  nbr'.dbSum=nbr.dbSum ∧ nbr'.lsReq=nbr.lsReq ∧ nbr'.lsRxmt=nbr.lsRxmt

theorem SameLists.listsEmpty (h : SameLists nbr nbr') (he : ListsEmpty nbr) : ListsEmpty nbr' := by
  obtain ⟨h1,h2,h3⟩ := h
  refine ⟨?_,?_,?_⟩
  · rw [h1]
    exact he.dbSum
  · rw [h2]
    exact he.lsReq
  rw [h3]
  exact he.lsRxmt

theorem Acted.refl (oi : NsmInterface ι μ) (n : ι) : Acted oi oi n :=
  ⟨rfl,rfl,rfl,rfl,rfl,fun _ _ => rfl,rfl,rfl,rfl,rfl,fun _ _ h => ⟨h,fun _ => id⟩⟩

theorem Acted.neighbors (h : Acted oi oi' n) : oi'.neighbors=oi.neighbors := by
  rw [NsmInterface.neighbors,h.nbrs]
  rfl

theorem Acted.trans {oi'' : NsmInterface ι μ} (h : Acted oi oi' n) (h' : Acted oi' oi'' n) :
    Acted oi oi'' n where
  type := h'.type.trans h.type
  nbrSelf := h'.nbrSelf.trans h.nbrSelf
  nbrs := h'.nbrs.trans h.nbrs
  fullNbrs := h'.fullNbrs.trans h.fullNbrs
  events := h'.events.trans h.events
  others := fun m hm => (h'.others m hm).trans (h.others m hm)
  state := h'.state.trans h.state
  routerId := h'.routerId.trans h.routerId
  src := h'.src.trans h.src
  lastSend := h'.lastSend.trans h.lastSend
  nbma := by
    intro m n' hm
    obtain ⟨hm,hsame'⟩ := h'.nbma m n' hm
    obtain ⟨hm,hsame⟩ := h.nbma m n' hm
    exact ⟨hm,fun hn hback => hsame' hn (hsame hn hback)⟩

theorem ospfDbSummaryAdd_fields (x : Answers κ ι) (nbr : NsmNeighbor μ) (lsa : OspfLsa) :
    let nbr' := ospfDbSummaryAdd x nbr lsa
    nbr'.state=nbr.state ∧ nbr'.routerId=nbr.routerId ∧ nbr'.src=nbr.src ∧
      nbr'.lastSend=nbr.lastSend ∧ nbr'.nbrNbma=nbr.nbrNbma := by
  unfold ospfDbSummaryAdd ospfLsRetransmitAdd
  dsimp only
  split
  · exact ⟨rfl,rfl,rfl,rfl,rfl⟩
  split
  · exact ⟨rfl,rfl,rfl,rfl,rfl⟩
  split
  · split
    all_goals exact ⟨rfl,rfl,rfl,rfl,rfl⟩
  · exact ⟨rfl,rfl,rfl,rfl,rfl⟩

theorem nsmNegotiationDone_fields (x : Answers κ ι) (lsas : List OspfLsa) :
    ∀ nbr : NsmNeighbor μ, let nbr' := lsas.foldl (ospfDbSummaryAdd x) nbr
    nbr'.state=nbr.state ∧ nbr'.routerId=nbr.routerId ∧ nbr'.src=nbr.src ∧
      nbr'.lastSend=nbr.lastSend ∧ nbr'.nbrNbma=nbr.nbrNbma := by
  induction lsas with
  | nil => exact fun _ => ⟨rfl,rfl,rfl,rfl,rfl⟩
  | cons lsa rest ih =>
    intro nbr
    obtain ⟨h1,h2,h3,h4,h5⟩ := ospfDbSummaryAdd_fields x nbr lsa
    obtain ⟨h1',h2',h3',h4',h5'⟩ := ih (ospfDbSummaryAdd x nbr lsa)
    exact ⟨h1'.trans h1,h2'.trans h2,h3'.trans h3,h4'.trans h4,h5'.trans h5⟩

section

variable [DecidableEq ι]

theorem Acted.countFull (h : Acted oi oi' n) : oi'.countFull=oi.countFull := by
  rw [NsmInterface.countFull,NsmInterface.countFull,h.neighbors]
  refine countP_congr fun m _ => ?_
  by_cases hm : m=n
  · rw [hm,h.state]
  · rw [h.others m hm]

theorem Acted.refs (h : Acted oi oi' n) (ho : RefsOk oi) : RefsOk oi' where
  keys := by
    rw [h.nbrs]
    exact ho.keys
  nodup := by
    rw [h.neighbors]
    exact ho.nodup
  key := by
    intro e he hne
    rw [h.nbrs] at he
    rw [h.nbrSelf] at hne
    rw [ho.key e he hne,nbrKey,nbrKey,h.type]
    by_cases hen : e.2=n
    · rw [hen,h.routerId,h.src]
    · rw [h.others e.2 hen]
  nbma := by
    intro m n' hm
    obtain ⟨hm,hsame⟩ := h.nbma m n' hm
    obtain ⟨hmem,hback⟩ := ho.nbma m n' hm
    rw [h.neighbors]
    refine ⟨hmem,?_⟩
    by_cases hn : n'=n
    · subst hn
      exact hsame rfl hback
    rw [h.others n' hn]
    exact hback
  events := by
    intro e he
    rw [h.events] at he
    rw [h.neighbors]
    exact ho.events e he

theorem acted_setNbr (hstate : nbr.state=(oi.nbr n).state) (hid : nbr.routerId=(oi.nbr n).routerId)
    (hsrc : nbr.src=(oi.nbr n).src) (hsend : nbr.lastSend=(oi.nbr n).lastSend)
    (hnbma : nbr.nbrNbma=(oi.nbr n).nbrNbma) : Acted oi (oi.setNbr n nbr) n := by
  refine ⟨rfl,rfl,rfl,rfl,rfl,fun m hm => setNbr_of_ne oi nbr hm,?_,?_,?_,?_,
    fun m n' hm => ⟨hm,fun _ hback => ?_⟩⟩
  · rw [setNbr_self,hstate]
  · rw [setNbr_self,hid]
  · rw [setNbr_self,hsrc]
  · rw [setNbr_self,hsend]
  rw [setNbr_self,hnbma]
  exact hback

end

variable [DecidableEq μ]

theorem setNbma_poll (oi : NsmInterface ι μ) {m m' : μ} {p : Bool} :
    ((oi.setNbma m {oi.nbma m with tPoll := p}).nbma m').nbr=(oi.nbma m').nbr := by
  change (update oi.nbma m {oi.nbma m with tPoll := p} m').nbr=_
  by_cases hm : m'=m
  · subst hm
    rw [update_self]
  · rw [update_of_ne hm]

theorem pollTimerOff_acted (oi : NsmInterface ι μ) (m : Option μ) (n : ι) :
    Acted oi (oi.pollTimerOff m) n := by
  cases m with
  | none => exact Acted.refl oi n
  | some m =>
    refine ⟨rfl,rfl,rfl,rfl,rfl,fun _ _ => rfl,rfl,rfl,rfl,rfl,fun m' n' h => ?_⟩
    rw [pollTimerOff,setNbma_poll] at h
    exact ⟨h,fun _ => id⟩

theorem pollTimerOff_nbr (oi : NsmInterface ι μ) (m : Option μ) :
    (oi.pollTimerOff m).nbr=oi.nbr := by
  cases m with
  | none | some m => rfl

variable [DecidableEq ι]

theorem nsmPacketReceived_acted (oi : NsmInterface ι μ) (n : ι) :
    Acted oi (oi.nsmPacketReceived n) n ∧
      SameLists (oi.nbr n) ((oi.nsmPacketReceived n).nbr n) := by
  have hset : Acted oi (oi.setNbr n {oi.nbr n with tInactivity := true}) n :=
    acted_setNbr rfl rfl rfl rfl rfl
  have hlists : SameLists (oi.nbr n) ((oi.setNbr n {oi.nbr n with tInactivity := true}).nbr n) := by
    rw [setNbr_self]
    exact ⟨rfl,rfl,rfl⟩
  unfold nsmPacketReceived
  split
  · refine ⟨hset.trans (pollTimerOff_acted _ _ n),?_⟩
    rw [pollTimerOff_nbr]
    exact hlists
  · exact ⟨hset,hlists⟩

theorem nsmStart_acted (oi : NsmInterface ι μ) (n : ι) :
    Acted oi (oi.nsmStart n) n ∧ SameLists (oi.nbr n) ((oi.nsmStart n).nbr n) := by
  have hpoll := pollTimerOff_acted oi (oi.nbr n).nbrNbma n
  have hnbr := pollTimerOff_nbr oi (oi.nbr n).nbrNbma
  refine ⟨hpoll.trans (acted_setNbr ?_ ?_ ?_ ?_ ?_),?_⟩
  · rw [hnbr]
  · rw [hnbr]
  · rw [hnbr]
  · rw [hnbr]
  · rw [hnbr]
  rw [nsmStart,setNbr_self]
  exact ⟨rfl,rfl,rfl⟩

theorem nsmKillNbr_acted (oi : NsmInterface ι μ) (hself : n≠oi.nbrSelf) :
    ∃ oi', oi.nsmKillNbr n=some oi' ∧ Acted oi oi' n ∧
      SameLists (oi.nbr n) (oi'.nbr n) := by
  unfold nsmKillNbr
  rw [if_neg hself]
  cases hnbma : (oi.nbr n).nbrNbma with
  | none => exact ⟨oi,rfl,Acted.refl oi n,rfl,rfl,rfl⟩
  | some m =>
    by_cases hty : oi.type=.nbma
    · refine ⟨_,if_pos hty,⟨rfl,rfl,rfl,rfl,rfl,fun m' hm => ?_,?_,?_,?_,?_,fun m' n' h => ?_⟩,?_⟩
      · exact setNbr_of_ne _ _ hm
      · rw [setNbr_self]
      · rw [setNbr_self]
      · rw [setNbr_self]
      · rw [setNbr_self]
      · change (update oi.nbma m _ m').nbr=some n' at h
        by_cases hm : m'=m
        · subst hm
          rw [update_self] at h
          cases h
        rw [update_of_ne hm] at h
        refine ⟨h,fun _ hback => ?_⟩
        rw [hnbma] at hback
        exact absurd (Option.some.inj hback).symm hm
      rw [setNbr_self]
      exact ⟨rfl,rfl,rfl⟩
    · exact ⟨oi,if_neg hty,Acted.refl oi n,rfl,rfl,rfl⟩

end

end RoutePlatform.NsmEvents
