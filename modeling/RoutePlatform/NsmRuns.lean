import RoutePlatform.NsmEvents

/-!
# Runs of the neighbour state machines of an area

A row of the table belongs to one of six kinds, each of which prepares the neighbour for its next
state, so every event but `NSM_NoEvent` is executed to its end. Over any run the counters, the
lists and the timer are as they should be.
-/

namespace RoutePlatform.NsmRuns

open KeyedStore LsaOperations OspfStates DrElection NsmOperations NsmInvariant NsmEvents
  Function List Option NsmInterface

universe u v w

variable {κ : Type u} {ι : Type v} {μ : Type w} {oi : NsmInterface ι μ} {a : NsmArea κ ι μ}
  {e : NsmEvent} {b : NsmArea κ ι μ} {s : NsmState} {i : κ} (x : Answers κ ι)

/-- The kinds of rows that a neighbour in a state can meet. -/
inductive Row (s : NsmState) : Option NsmFunc→NsmState→Prop
  /-- The table has the next state, and an exchange is not begun. -/
  | goes {f : Option NsmFunc} {next : NsmState}
      (func : f=none ∨ f=some .packetReceived ∨ f=some .start)
      (live : next ≠ .dependUpon ∧ next ≠ .deleted)
      (climbs : below .exStart next=true → below s .exStart=false) : Row s f next
  | twowayReceived (state : s=.initState) : Row s (some .twowayReceived) .dependUpon
  | negotiationDone (state : s=.exStart) : Row s (some .negotiationDone) .exchange
  | exchangeDone (state : s=.exchange) : Row s (some .exchangeDone) .dependUpon
  | adjOk : Row s (some .adjOk) .dependUpon
  | killNbr : Row s (some .killNbr) .deleted

/-- The events that delete a neighbour. -/
def kills (e : NsmEvent) : Bool := e=.killNbr ∨ e=.inactivityTimer ∨ e=.llDown

theorem nsmTable_row (hs : s ≠ .dependUpon ∧ s ≠ .deleted) (he : e ≠ .noEvent) :
    Row s (nsmTable s e).1 (nsmTable s e).2 := by
  cases s <;> cases e
  all_goals first
    | contradiction
    | exact Row.goes (by decide) (by decide) (by decide)
    | exact Row.twowayReceived rfl
    | exact Row.negotiationDone rfl
    | exact Row.exchangeDone rfl
    | exact Row.adjOk
    | exact Row.killNbr

theorem nsmTable_killNbr (hs : s ≠ .dependUpon ∧ s ≠ .deleted) :
    (nsmTable s e).1=some .killNbr ↔ kills e=true := by
  cases s <;> cases e <;> first | contradiction | decide

section

variable {a : NsmArea κ ι μ} {i : κ} {n : ι}

theorem nsmAdjOk_cases (oi : NsmInterface ι μ) (n : ι) :
    oi.nsmAdjOk n=.exStart ∨ oi.nsmAdjOk n=.twoWay ∨ oi.nsmAdjOk n=(oi.nbr n).state := by
  unfold nsmAdjOk
  dsimp only
  split
  · exact Or.inl rfl
  split
  · exact Or.inr (Or.inl rfl)
  · exact Or.inr (Or.inr rfl)

section

variable {oi oi' : NsmInterface ι μ} {next : NsmState} (hok : NbrOk (oi.nbr n))
  (hacted : Acted oi oi' n)
include hok hacted

theorem prepared_sameLists (hlists : SameLists (oi.nbr n) (oi'.nbr n)) (hgoes : next ≠ .dependUpon)
    (hclimbs : below .exStart next=true → below (oi.nbr n).state .exStart=false) :
    Prepared (oi'.nbr n) next := by
  refine ⟨hgoes,fun _ hs => ?_,fun hs => ?_,fun hs => ?_⟩
  · rw [hacted.state] at hs
    exact hlists.listsEmpty (hok.lists hs)
  · rw [hacted.state] at hs
    rw [hacted.lastSend]
    exact hok.sent hs
  rw [hacted.state]
  exact hclimbs hs

theorem prepared_adjacent (hnext : below .exStart next=true)
    (hs : below (oi.nbr n).state .exStart=false) : Prepared (oi'.nbr n) next := by
  refine ⟨fun h => ?_,fun h => ?_,fun h => ?_,fun _ => ?_⟩
  · rw [h] at hnext
    cases hnext
  · rw [h] at hnext
    cases hnext
  · rw [hacted.lastSend]
    exact hok.sent hs
  rw [hacted.state]
  exact hs

end

/-- What the action of a row leaves, and the next state. -/
structure Called (x : Answers κ ι) (oi : NsmInterface ι μ) (n : ι) (e : NsmEvent)
    (oi' : NsmInterface ι μ) (next : NsmState) : Prop where
  acted : Acted oi oi' n
  prepared : Prepared (oi'.nbr n) next
  deletes : next=.deleted ↔ kills e=true

variable [DecidableEq κ] [DecidableEq ι]

/-- After the action the area waits for the next state of the neighbour. -/
theorem during_acted (h : AreaOk a) (hi : i∈a.oiflist) (hn : n∈(a.oi i).neighbors)
    (hself : n≠(a.oi i).nbrSelf) (hacted : Acted (a.oi i) oi n) : During (a.setOi i oi) i n := by
  have hok := h.oi i hi
  have hcounts : ∀ j, ((a.setOi i oi).oi j).countFull=(a.oi j).countFull := by
    intro j
    by_cases hj : j=i
    · subst hj
      rw [setOi_self]
      exact hacted.countFull
    · rw [setOi_of_ne _ _ hj]
  refine ⟨h.nodup,hi,fun j hj hji => ?_,?_,fun m hm hmn => ?_,?_,?_,?_,?_⟩
  · rw [setOi_of_ne _ _ hji]
    exact h.oi j hj
  · rw [setOi_self]
    exact hacted.refs hok.refs
  · rw [setOi_self] at hm ⊢
    rw [hacted.neighbors] at hm
    rw [hacted.others m hmn]
    exact hok.nbr m hm
  · rw [setOi_self,hacted.neighbors]
    exact hn
  · rw [setOi_self,hacted.nbrSelf]
    exact hself
  · rw [hcounts,setOi_self,hacted.fullNbrs]
    exact hok.full
  refine h.full.trans (congrArg sum (map_congr_left fun j _ => ?_))
  rw [hcounts]

variable [DecidableEq μ]

theorem ospfNsmEvent_called (hok : NbrOk ((a.oi i).nbr n)) (hself : n≠(a.oi i).nbrSelf)
    (he : e ≠ .noEvent) :
    ∃ oi next, Called x (a.oi i) n e oi next ∧
      a.ospfNsmEvent x i n e=some ((a.setOi i oi).finishEvent x i n next) := by
  have hrow := nsmTable_row hok.live he
  have hkill := nsmTable_killNbr (e := e) hok.live
  have hrefl := Acted.refl (a.oi i) n
  have hsame : SameLists ((a.oi i).nbr n) ((a.oi i).nbr n) := ⟨rfl,rfl,rfl⟩
  unfold NsmArea.ospfNsmEvent
  generalize nsmTable ((a.oi i).nbr n).state e=row at hrow hkill ⊢
  obtain ⟨f,next⟩ := row
  have hlives : f≠some .killNbr → ∀ s : NsmState, s ≠ .deleted →
      (s=.deleted ↔ kills e=true) := fun hf s hs =>
    ⟨fun h => absurd h hs,fun h => absurd (hkill.mpr h) hf⟩
  cases hrow with
  | goes func live climbs =>
    rcases func with rfl|rfl|rfl
    · exact ⟨a.oi i,next,
        ⟨hrefl,prepared_sameLists hok hrefl hsame live.1 climbs,hlives (by decide) _ live.2⟩,
        by simp [live.1]⟩
    · obtain ⟨hacted,hlists⟩ := nsmPacketReceived_acted (a.oi i) n
      exact ⟨_,next,
        ⟨hacted,prepared_sameLists hok hacted hlists live.1 climbs,hlives (by decide) _ live.2⟩,
        by simp [nsmFunc,live.1]⟩
    obtain ⟨hacted,hlists⟩ := nsmStart_acted (a.oi i) n
    exact ⟨_,next,
      ⟨hacted,prepared_sameLists hok hacted hlists live.1 climbs,hlives (by decide) _ live.2⟩,
      by simp [nsmFunc,live.1]⟩
  | twowayReceived state =>
    by_cases hadj : (a.oi i).nsmShouldAdj n=true
    · exact ⟨a.oi i,.exStart,⟨hrefl,prepared_sameLists hok hrefl hsame (by decide) nofun,
          hlives (by decide) _ (by decide)⟩,
        by simp [nsmFunc,hadj]⟩
    exact ⟨a.oi i,.twoWay,⟨hrefl,prepared_sameLists hok hrefl hsame (by decide) nofun,
        hlives (by decide) _ (by decide)⟩,
      by simp [nsmFunc,hadj]⟩
  | negotiationDone state =>
    obtain ⟨h1,h2,h3,h4,h5⟩ := nsmNegotiationDone_fields x
      (negotiationLsas x ((a.oi i).nbr n) (a.oi i).type) ((a.oi i).nbr n)
    have hacted : Acted (a.oi i)
        ((a.oi i).setNbr n (nsmNegotiationDone x ((a.oi i).nbr n) (a.oi i).type)) n :=
      acted_setNbr h1 h2 h3 h4 h5
    exact ⟨_,.exchange,⟨hacted,prepared_adjacent hok hacted (by decide) (by rw [state]; decide),
        hlives (by decide) _ (by decide)⟩,
      by simp [nsmFunc]⟩
  | exchangeDone state =>
    have hup : below ((a.oi i).nbr n).state .exStart=false := by
      rw [state]
      decide
    by_cases hreq : ospfLsdbIsempty ((a.oi i).nbr n).lsReq=true
    · exact ⟨a.oi i,.full,
        ⟨hrefl,prepared_adjacent hok hrefl (by decide) hup,hlives (by decide) _ (by decide)⟩,
        by simp [nsmFunc,nsmExchangeDone,hreq]⟩
    have hacted : Acted (a.oi i) ((a.oi i).setNbr n {(a.oi i).nbr n with tLsReq := true}) n :=
      acted_setNbr rfl rfl rfl rfl rfl
    exact ⟨_,.loading,
      ⟨hacted,prepared_adjacent hok hacted (by decide) hup,hlives (by decide) _ (by decide)⟩,
      by simp [nsmFunc,nsmExchangeDone,hreq]⟩
  | adjOk =>
    have hnext : (a.oi i).nsmAdjOk n ≠ .dependUpon ∧ (a.oi i).nsmAdjOk n ≠ .deleted ∧
        (below .exStart ((a.oi i).nsmAdjOk n)=true →
          below ((a.oi i).nbr n).state .exStart=false) := by
      rcases nsmAdjOk_cases (a.oi i) n with h|h|h
      · rw [h]
        exact ⟨by decide,by decide,nofun⟩
      · rw [h]
        exact ⟨by decide,by decide,nofun⟩
      rw [h]
      refine ⟨hok.live.1,hok.live.2,fun hup => ?_⟩
      cases hs : ((a.oi i).nbr n).state <;> rw [hs] at hup <;> first | rfl | cases hup
    exact ⟨a.oi i,_,
      ⟨hrefl,prepared_sameLists hok hrefl hsame hnext.1 hnext.2.2,hlives (by decide) _ hnext.2.1⟩,
      by simp [nsmFunc,hnext.1]⟩
  | killNbr =>
    obtain ⟨oi,hcall,hacted,hlists⟩ := nsmKillNbr_acted (a.oi i) hself
    exact ⟨oi,.deleted,⟨hacted,prepared_sameLists hok hacted hlists (by decide) nofun,
        ⟨fun _ => hkill.mp rfl,fun _ => rfl⟩⟩,
      by simp [nsmFunc,hcall]⟩

theorem ospfNsmEvent_areaOk (h : AreaOk a) (hi : i∈a.oiflist) (hn : n∈(a.oi i).neighbors)
    (hself : n≠(a.oi i).nbrSelf) (he : e ≠ .noEvent) :
    ∃ b, a.ospfNsmEvent x i n e=some b ∧ AreaOk b ∧
      (kills e=true → Gone (b.oi i) n) ∧ (kills e=false → n∈(b.oi i).neighbors) := by
  obtain ⟨oi,next,hcalled,heq⟩ := ospfNsmEvent_called x ((h.oi i hi).nbr n hn) hself he
  have hduring := during_acted h hi hn hself hcalled.acted
  have hprepared : Prepared (((a.setOi i oi).oi i).nbr n) next := by
    rw [setOi_self]
    exact hcalled.prepared
  obtain ⟨harea,hgone,hstays⟩ := hduring.finishEvent x hprepared
  refine ⟨_,heq,harea,fun hk => hgone (hcalled.deletes.mpr hk),fun hk => ?_⟩
  refine (hstays fun hd => ?_).1
  rw [hcalled.deletes.mp hd] at hk
  cases hk

end

section

/-- What is written of a neighbour, but not by its state machine. -/
structure Attributes where
  routerId : ℕ
  address : ℕ
  priority : ℕ
  dRouter : ℕ
  bdRouter : ℕ
  options : BitVec 8
  ddSeqnum : BitVec 32
  cryptSeqnum : BitVec 32
  stateChange : ℕ
  tInactivity : Bool
  tLsUpd : Bool
  tLsReq : Bool
  tHelloReply : Bool

def Attributes.write (r : Attributes) (nbr : NsmNeighbor μ) : NsmNeighbor μ :=
  {nbr with
    routerId := r.routerId,address := r.address,priority := r.priority
    dRouter := r.dRouter,bdRouter := r.bdRouter,options := r.options
    ddSeqnum := r.ddSeqnum,cryptSeqnum := r.cryptSeqnum,stateChange := r.stateChange
    tInactivity := r.tInactivity,tLsUpd := r.tLsUpd,tLsReq := r.tLsReq
    tHelloReply := r.tHelloReply}

variable [DecidableEq ι] [DecidableEq μ]

/-- `ospf_nbr_add` and `ospf_nbr_nbma_add`, with the configured neighbour. -/
def nbrAdd (oi : NsmInterface ι μ) (n : ι) (r : Attributes) (src : ℕ) (m : Option μ) :
    NsmInterface ι μ :=
  let added := oi.setNbr n (r.write { (ospfNbrNew : NsmNeighbor μ) with src := src,nbrNbma := m })
  let next := {added with nbrs := (added.nbrKey n,n)::oi.nbrs}
  match m with
  | some m => next.setNbma m {oi.nbma m with nbr := some n,tPoll := false}
  | none => next

/-- `ospf_nbr_nbma_add` for a neighbour that is in the table. -/
def nbmaLink (oi : NsmInterface ι μ) (m : μ) (n : ι) : NsmInterface ι μ :=
  (oi.setNbr n {oi.nbr n with nbrNbma := some m}).setNbma m {oi.nbma m with nbr := some n}

/-- A configured neighbour is withdrawn by `ospf_if_cleanup` or `ospf_nbr_nbma_down`. -/
def nbmaUnlink (oi : NsmInterface ι μ) (m : μ) (n : ι) : NsmInterface ι μ :=
  (oi.setNbr n {oi.nbr n with nbrNbma := none}).setNbma m
    {oi.nbma m with nbr := none,tPoll := false}

/-- What happens at an interface between two events. -/
inductive Between (κ : Type u) (oi : NsmInterface ι μ) : NsmInterface ι μ→Prop
  /-- An outside cause; the router id is the key on a virtual link. -/
  | attributes (n : ι) (r : Attributes)
      (key : n≠oi.nbrSelf → oi.type=.virtualLink → r.routerId=(oi.nbr n).routerId) :
      Between κ oi (oi.setNbr n (r.write (oi.nbr n)))
  | interface (state : IsmState) (type : IfType) (kind : type=.virtualLink ↔ oi.type=.virtualLink) :
      Between κ oi {oi with state := state,type := type}
  /-- `ospf_db_desc` in ExStart resets flags before the event NegotiationDone. -/
  | negotiation (n : ι) (mask : BitVec 8) (state : (oi.nbr n).state=.exStart) :
      Between κ oi (oi.setNbr n {oi.nbr n with ddFlags := (oi.nbr n).ddFlags &&& mask})
  /-- Descriptions, requests, updates and acknowledgements change the lists from
  Exchange on. -/
  | lists (n : ι) (dbSum lsReq lsRxmt : OspfLsdb) (state : below (oi.nbr n).state .exchange=false) :
      Between κ oi (oi.setNbr n {oi.nbr n with dbSum := dbSum,lsReq := lsReq,lsRxmt := lsRxmt})
  /-- `ospf_db_desc_proc` answers a description. -/
  | dbDescSend (x : Answers κ ι) (n : ι) (state : (oi.nbr n).state=.exchange) :
      Between κ oi (oi.setNbr n (ospfDbDescSend x (oi.nbr n)))
  | schedule (n : ι) (e : NsmEvent) (mem : n∈oi.neighbors) :
      Between κ oi {oi with events := oi.events++[(n,e)]}
  | fetch (events : List (ι × NsmEvent)) (sub : events.Sublist oi.events) :
      Between κ oi {oi with events := events}
  /-- A neighbour is added: its key is free, and its memory is new. -/
  | nbrAdd (n : ι) (r : Attributes) (src : ℕ) (m : Option μ) (fresh : n ∉ oi.neighbors)
      (notSelf : n≠oi.nbrSelf)
      (free : (nbrAdd oi n r src m).nbrKey n ∉ oi.nbrs.map Prod.fst) :
      Between κ oi (nbrAdd oi n r src m)
  | nbmaLink (m : μ) (n : ι) (mem : n∈oi.neighbors) (alone : (oi.nbr n).nbrNbma=none) :
      Between κ oi (nbmaLink oi m n)
  | nbmaUnlink (m : μ) (n : ι) (linked : (oi.nbma m).nbr=some n) : Between κ oi (nbmaUnlink oi m n)
  /-- The poll timer and the counter of a configured neighbour. -/
  | configured (m : μ) (stateChange : ℕ) (tPoll : Bool) :
      Between κ oi (oi.setNbma m {oi.nbma m with stateChange := stateChange,tPoll := tPoll})

variable {oi oi' : NsmInterface ι μ} {n : ι} {nbr : NsmNeighbor μ}

omit [DecidableEq μ] in
theorem setNbr_oiOk_of_refs (ho : OiOk oi) (hrefs : RefsOk (oi.setNbr n nbr))
    (hstate : nbr.state=(oi.nbr n).state) (hok : NbrOk (oi.nbr n)→NbrOk nbr) :
    OiOk (oi.setNbr n nbr) ∧ (oi.setNbr n nbr).countFull=oi.countFull := by
  have hcnt : (oi.setNbr n nbr).countFull=oi.countFull := by
    refine countP_congr fun m _ => ?_
    by_cases hm : m=n
    · rw [hm,setNbr_self,hstate]
    · rw [setNbr_of_ne _ _ hm]
  refine ⟨⟨hrefs,fun m hm => ?_,?_⟩,hcnt⟩
  · by_cases hmn : m=n
    · subst hmn
      rw [setNbr_self]
      exact hok (ho.nbr m hm)
    rw [setNbr_of_ne _ _ hmn]
    exact ho.nbr m hm
  rw [hcnt]
  exact ho.full

omit [DecidableEq μ] in
theorem setNbr_oiOk (ho : OiOk oi) (hkey : n≠oi.nbrSelf → (oi.setNbr n nbr).nbrKey n=oi.nbrKey n)
    (hnbma : nbr.nbrNbma=(oi.nbr n).nbrNbma) (hstate : nbr.state=(oi.nbr n).state)
    (hok : NbrOk (oi.nbr n)→NbrOk nbr) :
    OiOk (oi.setNbr n nbr) ∧ (oi.setNbr n nbr).countFull=oi.countFull :=
  setNbr_oiOk_of_refs ho (refsOk_setNbr_key ho.refs hkey hnbma) hstate hok

omit [DecidableEq μ] in
theorem nbrKey_setNbr (hid : nbr.routerId=(oi.nbr n).routerId) (hsrc : nbr.src=(oi.nbr n).src) :
    (oi.setNbr n nbr).nbrKey n=oi.nbrKey n := by
  unfold nbrKey
  rw [setNbr_self,hid,hsrc]
  rfl

omit [DecidableEq μ] in
theorem attributes_oiOk (ho : OiOk oi) (r : Attributes)
    (key : n≠oi.nbrSelf → oi.type=.virtualLink → r.routerId=(oi.nbr n).routerId) :
    OiOk (oi.setNbr n (r.write (oi.nbr n))) ∧
      (oi.setNbr n (r.write (oi.nbr n))).countFull=oi.countFull := by
  refine setNbr_oiOk ho (fun hself => ?_) rfl rfl fun h => ?_
  · unfold nbrKey
    rw [setNbr_self]
    change (if oi.type=_ then r.routerId else (oi.nbr n).src)=_
    by_cases ht : oi.type=.virtualLink
    · rw [if_pos ht,if_pos ht,key hself ht]
    · rw [if_neg ht,if_neg ht]
  exact ⟨h.live,fun hs => ⟨(h.lists hs).dbSum,(h.lists hs).lsReq,(h.lists hs).lsRxmt⟩,
    h.timer,h.sent⟩

theorem checkFlag_more (flags : BitVec 8) :
    checkFlag (flags &&& ~~~ospfDdFlagM) ospfDdFlagMs=checkFlag flags ospfDdFlagMs := by
  have hbits : ~~~ospfDdFlagM &&& ospfDdFlagMs=ospfDdFlagMs := by decide
  rw [checkFlag,checkFlag,BitVec.and_assoc,hbits]

omit [DecidableEq ι] [DecidableEq μ] in
theorem ospfDbDescSend_fields (x : Answers κ ι) (nbr : NsmNeighbor μ) :
    let nbr' := ospfDbDescSend x nbr
    (nbr'.state=nbr.state ∧ nbr'.routerId=nbr.routerId ∧ nbr'.src=nbr.src ∧
      nbr'.nbrNbma=nbr.nbrNbma) ∧ nbr'.tDbDesc=nbr.tDbDesc ∧ nbr'.lastSend=true ∧
      (Master nbr → Master nbr') := by
  unfold ospfDbDescSend Master
  refine ⟨⟨rfl,rfl,rfl,rfl⟩,rfl,rfl,fun hm => ?_⟩
  dsimp only
  split
  · rw [checkFlag_more]
    exact hm
  · exact hm

omit [DecidableEq μ] in
theorem dbDescSend_oiOk (ho : OiOk oi) (x : Answers κ ι) (state : (oi.nbr n).state=.exchange) :
    OiOk (oi.setNbr n (ospfDbDescSend x (oi.nbr n))) ∧
      (oi.setNbr n (ospfDbDescSend x (oi.nbr n))).countFull=oi.countFull := by
  obtain ⟨⟨hstate,hid,hsrc,hnbma⟩,htimer,hsend,hmaster⟩ := ospfDbDescSend_fields x (oi.nbr n)
  generalize ospfDbDescSend x (oi.nbr n)=sent at hstate hid hsrc hnbma htimer hsend hmaster ⊢
  refine setNbr_oiOk ho (fun _ => nbrKey_setNbr hid hsrc) hnbma hstate fun h => ?_
  refine ⟨?_,fun hs => ?_,fun ht => ?_,fun _ => hsend⟩
  · rw [hstate]
    exact h.live
  · rw [hstate,state] at hs
    cases hs
  rw [htimer] at ht
  rw [hstate]
  exact (h.timer ht).imp_right fun ⟨hs,hm⟩ => ⟨hs,hmaster hm⟩

omit [DecidableEq ι] in
theorem setNbma_oiOk (ho : OiOk oi) (m : μ) (nbma : NbrNbma ι)
    (hback : ∀ n, nbma.nbr=some n → n∈oi.neighbors ∧ (oi.nbr n).nbrNbma=some m) :
    OiOk (oi.setNbma m nbma) ∧ (oi.setNbma m nbma).countFull=oi.countFull := by
  refine ⟨⟨⟨ho.refs.keys,ho.refs.nodup,ho.refs.key,fun m' n' h => ?_,ho.refs.events⟩,
    ho.nbr,ho.full⟩,rfl⟩
  change (update oi.nbma m nbma m').nbr=some n' at h
  by_cases hm : m'=m
  · subst hm
    rw [update_self] at h
    exact hback n' h
  rw [update_of_ne hm] at h
  exact ho.refs.nbma m' n' h

omit [DecidableEq μ] in
/-- The reference of a neighbour that no configured neighbour points to. -/
theorem setNbrNbma_oiOk (ho : OiOk oi) (halone : ∀ m, (oi.nbma m).nbr≠some n) (l : Option μ) :
    OiOk (oi.setNbr n {oi.nbr n with nbrNbma := l}) ∧
      (oi.setNbr n {oi.nbr n with nbrNbma := l}).countFull=oi.countFull := by
  have hrefs : RefsOk (oi.setNbr n {oi.nbr n with nbrNbma := l}) := by
    refine ⟨ho.refs.keys,ho.refs.nodup,fun e he hne => ?_,fun m n' h => ?_,ho.refs.events⟩
    · rw [ho.refs.key e he hne]
      by_cases hn : e.2=n
      · have hkey : (oi.setNbr n {oi.nbr n with nbrNbma := l}).nbrKey n=oi.nbrKey n :=
          nbrKey_setNbr rfl rfl
        rw [hn,hkey]
      unfold nbrKey
      rw [setNbr_of_ne _ _ hn]
      rfl
    obtain ⟨hmem,hb⟩ := ho.refs.nbma m n' h
    have hn : n'≠n := fun hn => halone m (hn ▸ h)
    refine ⟨hmem,?_⟩
    rw [setNbr_of_ne _ _ hn]
    exact hb
  refine setNbr_oiOk_of_refs ho hrefs rfl fun h => ?_
  exact ⟨h.live,fun hs => ⟨(h.lists hs).dbSum,(h.lists hs).lsReq,(h.lists hs).lsRxmt⟩,
    h.timer,h.sent⟩

theorem nbmaLink_oiOk (ho : OiOk oi) {m : μ} (mem : n∈oi.neighbors)
    (alone : (oi.nbr n).nbrNbma=none) :
    OiOk (nbmaLink oi m n) ∧ (nbmaLink oi m n).countFull=oi.countFull := by
  have halone : ∀ m', (oi.nbma m').nbr≠some n := by
    intro m' h
    have hback := (ho.refs.nbma m' n h).2
    rw [alone] at hback
    cases hback
  obtain ⟨hset,hcnt⟩ := setNbrNbma_oiOk ho halone (some m)
  have hlink := setNbma_oiOk hset m {oi.nbma m with nbr := some n} fun n' hn' => by
      obtain rfl : n=n' := some.inj hn'
      refine ⟨mem,?_⟩
      rw [setNbr_self]
  exact ⟨hlink.1,hlink.2.trans hcnt⟩

theorem nbmaUnlink_oiOk (ho : OiOk oi) {m : μ} (linked : (oi.nbma m).nbr=some n) :
    OiOk (nbmaUnlink oi m n) ∧ (nbmaUnlink oi m n).countFull=oi.countFull := by
  obtain ⟨hunlink,hcnt⟩ := setNbma_oiOk ho m
    {oi.nbma m with nbr := none,tPoll := false} fun n' hn' => by cases hn'
  have halone : ∀ m', ((oi.setNbma m {oi.nbma m with nbr := none,tPoll := false}).nbma
      m').nbr≠some n := by
    intro m' h
    change (update oi.nbma m _ m').nbr=some n at h
    by_cases hm : m'=m
    · subst hm
      rw [update_self] at h
      cases h
    rw [update_of_ne hm] at h
    have hback := (ho.refs.nbma m' n h).2
    rw [(ho.refs.nbma m n linked).2] at hback
    exact hm (some.inj hback).symm
  obtain ⟨hset,hcnt'⟩ := setNbrNbma_oiOk hunlink halone none
  exact ⟨hset,hcnt'.trans hcnt⟩

omit [DecidableEq ι] [DecidableEq μ] in
theorem nbrOk_write (r : Attributes) (src : ℕ) (m : Option μ) :
    NbrOk (r.write { (ospfNbrNew : NsmNeighbor μ) with src := src,nbrNbma := m }) where
  live := ⟨NsmState.noConfusion,NsmState.noConfusion⟩
  lists := fun _ => ⟨rfl,rfl,rfl⟩
  timer := nofun
  sent := fun h => absurd (show below .down .exStart=false from h) (by decide)

omit [DecidableEq μ] in
/-- A neighbour enters the table under a free key. -/
theorem tableAdd_oiOk (ho : OiOk oi) (hnbr : NbrOk nbr) (hstate : nbr.state=.down)
    (fresh : n ∉ oi.neighbors)
    (free : (oi.setNbr n nbr).nbrKey n ∉ oi.nbrs.map Prod.fst) :
    let next := {oi.setNbr n nbr with nbrs := ((oi.setNbr n nbr).nbrKey n,n)::oi.nbrs}
    OiOk next ∧ next.countFull=oi.countFull := by
  intro next
  have hne : ∀ m∈oi.neighbors, m≠n := fun m hm h => fresh (h ▸ hm)
  have hoth : ∀ m∈oi.neighbors, next.nbr m=oi.nbr m := fun m hm => setNbr_of_ne oi nbr (hne m hm)
  have hself : next.nbr n=nbr := setNbr_self oi n nbr
  have hneighbors : next.neighbors=n::oi.neighbors := rfl
  have hcnt : next.countFull=oi.countFull := by
    have hdown : ¬decide ((next.nbr n).state=.full)=true := by
      rw [hself,hstate]
      decide
    have hcons : next.countFull=oi.neighbors.countP fun m => decide ((next.nbr m).state=.full) :=
      countP_cons_of_neg hdown
    rw [hcons]
    refine countP_congr fun m hm => ?_
    rw [hoth m hm]
  refine ⟨⟨⟨?_,?_,fun e he hes => ?_,fun m n' h => ?_,fun e he => ?_⟩,fun m hm => ?_,?_⟩,hcnt⟩
  · exact nodup_cons.mpr ⟨free,ho.refs.keys⟩
  · exact nodup_cons.mpr ⟨fresh,ho.refs.nodup⟩
  · rcases mem_cons.mp he with rfl|he
    · rfl
    have hmem : e.2∈oi.neighbors := mem_map.mpr ⟨e,he,rfl⟩
    rw [ho.refs.key e he hes]
    unfold nbrKey
    rw [hoth e.2 hmem]
    rfl
  · obtain ⟨hmem,hb⟩ := ho.refs.nbma m n' h
    rw [hneighbors,hoth n' hmem]
    exact ⟨mem_cons_of_mem n hmem,hb⟩
  · rw [hneighbors]
    exact mem_cons_of_mem n (ho.refs.events e he)
  · rcases mem_cons.mp hm with rfl|hm
    · rw [hself]
      exact hnbr
    rw [hoth m hm]
    exact ho.nbr m hm
  rw [hcnt]
  exact ho.full

theorem nbrAdd_oiOk (ho : OiOk oi) (r : Attributes) (src : ℕ) (m : Option μ)
    (fresh : n ∉ oi.neighbors)
    (free : (nbrAdd oi n r src m).nbrKey n ∉ oi.nbrs.map Prod.fst) :
    OiOk (nbrAdd oi n r src m) ∧ (nbrAdd oi n r src m).countFull=oi.countFull := by
  have hnbr := nbrOk_write r src m
  cases m with
  | none => exact tableAdd_oiOk ho hnbr rfl fresh free
  | some m =>
    obtain ⟨hadd,hcnt⟩ := tableAdd_oiOk ho hnbr rfl fresh free
    have hlink := setNbma_oiOk hadd m {oi.nbma m with nbr := some n,tPoll := false} fun n' hn' => by
        obtain rfl : n=n' := some.inj hn'
        refine ⟨.head _,?_⟩
        rw [setNbr_self]
        rfl
    exact ⟨hlink.1,hlink.2.trans hcnt⟩

/-- What happens between two events keeps an interface as it should be. -/
theorem Between.oiOk (h : Between κ oi oi') (ho : OiOk oi) :
    OiOk oi' ∧ oi'.countFull=oi.countFull := by
  cases h with
  | attributes n r key => exact attributes_oiOk ho r key
  | interface state type kind =>
    refine ⟨⟨⟨ho.refs.keys,ho.refs.nodup,fun e he hne => ?_,ho.refs.nbma,ho.refs.events⟩,
      ho.nbr,ho.full⟩,rfl⟩
    rw [ho.refs.key e he hne]
    unfold nbrKey
    by_cases ht : oi.type=.virtualLink
    · rw [if_pos ht,if_pos (kind.mpr ht)]
    · rw [if_neg ht,if_neg fun h => ht (kind.mp h)]
  | negotiation n mask state =>
    exact setNbr_oiOk ho (fun _ => nbrKey_setNbr rfl rfl) rfl rfl fun h =>
      ⟨h.live,fun hs => ⟨(h.lists hs).dbSum,(h.lists hs).lsReq,(h.lists hs).lsRxmt⟩,
        fun _ => Or.inl state,h.sent⟩
  | lists n dbSum lsReq lsRxmt state =>
    refine setNbr_oiOk ho (fun _ => nbrKey_setNbr rfl rfl) rfl rfl fun h =>
      ⟨h.live,fun hs => ?_,h.timer,h.sent⟩
    have hbelow := below_exchange hs
    rw [state] at hbelow
    cases hbelow
  | dbDescSend x n state => exact dbDescSend_oiOk ho x state
  | schedule n e mem =>
    refine ⟨⟨⟨ho.refs.keys,ho.refs.nodup,ho.refs.key,ho.refs.nbma,fun e' he => ?_⟩,
      ho.nbr,ho.full⟩,rfl⟩
    rcases mem_append.mp he with he|he
    · exact ho.refs.events e' he
    rw [mem_singleton.mp he]
    exact mem
  | fetch events sub =>
    exact ⟨⟨⟨ho.refs.keys,ho.refs.nodup,ho.refs.key,ho.refs.nbma,
      fun e he => ho.refs.events e (sub.subset he)⟩,ho.nbr,ho.full⟩,rfl⟩
  | nbrAdd n r src m fresh notSelf free => exact nbrAdd_oiOk ho r src m fresh free
  | nbmaLink m n mem alone => exact nbmaLink_oiOk ho mem alone
  | nbmaUnlink m n linked => exact nbmaUnlink_oiOk ho linked
  | configured m stateChange tPoll => exact setNbma_oiOk ho m _ fun n hn => ho.refs.nbma m n hn

end

section

variable [DecidableEq κ] [DecidableEq ι] [DecidableEq μ]

/-- An interface that was created: the table has its own entry only. -/
structure Created (oi : NsmInterface ι μ) : Prop where
  neighbors : oi.neighbors=[oi.nbrSelf]
  /-- It was made by `ospf_nbr_new` and `ospf_nbr_add_self`. -/
  self : (oi.nbr oi.nbrSelf).state=.twoWay ∧ (oi.nbr oi.nbrSelf).tDbDesc=false ∧
    ListsEmpty (oi.nbr oi.nbrSelf)
  nbma : ∀ m, (oi.nbma m).nbr=none
  events : oi.events=[]
  fullNbrs : oi.fullNbrs=0

/-- An area whose interfaces were created. -/
structure Started (a : NsmArea κ ι μ) : Prop where
  nodup : a.oiflist.Nodup
  oi : ∀ i∈a.oiflist, Created (a.oi i)
  fullNbrs : a.fullNbrs=0

/-- One step: an event, something between events, a flooded LSA, or a new interface. -/
inductive Step (a : NsmArea κ ι μ) : NsmArea κ ι μ→Prop
  | event (x : Answers κ ι) (i : κ) (n : ι) (e : NsmEvent) (b : NsmArea κ ι μ)
      (mem : i∈a.oiflist) (table : n∈(a.oi i).neighbors)
      (notSelf : n≠(a.oi i).nbrSelf) (real : e ≠ .noEvent)
      (done : a.ospfNsmEvent x i n e=some b) : Step a b
  | between (i : κ) (oi : NsmInterface ι μ) (mem : i∈a.oiflist)
      (happens : Between κ (a.oi i) oi) : Step a (a.setOi i oi)
  | flood (x : Answers κ ι) (f : LsaFlood κ ι) : Step a (a.flood x f)
  | ifNew (i : κ) (oi : NsmInterface ι μ) (fresh : i ∉ a.oiflist) (created : Created oi) :
      Step a {a.setOi i oi with oiflist := i::a.oiflist}

omit [DecidableEq ι] [DecidableEq μ] in
theorem Created.countFull (h : Created oi) : oi.countFull=0 := by
  rw [NsmInterface.countFull,h.neighbors,countP_singleton,h.self.1]
  rfl

omit [DecidableEq ι] [DecidableEq μ] in
theorem Created.oiOk (h : Created oi) : OiOk oi := by
  have hmem : ∀ e∈oi.nbrs, e.2=oi.nbrSelf := by
    intro e he
    have hm : e.2∈oi.neighbors := mem_map.mpr ⟨e,he,rfl⟩
    rw [h.neighbors] at hm
    exact mem_singleton.mp hm
  have hlen : (oi.nbrs.map Prod.fst).length=1 := by
    have hl := congrArg length h.neighbors
    rw [NsmInterface.neighbors,length_map] at hl
    rw [length_map,hl]
    rfl
  refine ⟨⟨?_,?_,fun e he hne => absurd (hmem e he) hne,fun m n hm => ?_,fun e he => ?_⟩,
    fun n hn => ?_,?_⟩
  · obtain ⟨key,hkey⟩ := length_eq_one_iff.mp hlen
    rw [hkey]
    exact nodup_singleton key
  · rw [h.neighbors]
    exact nodup_singleton _
  · rw [h.nbma m] at hm
    cases hm
  · rw [h.events] at he
    cases he
  · rw [h.neighbors] at hn
    rw [mem_singleton.mp hn]
    obtain ⟨hstate,htimer,hlists⟩ := h.self
    refine ⟨?_,fun _ => hlists,fun ht => ?_,fun hs => ?_⟩
    · rw [hstate]
      decide
    · rw [htimer] at ht
      cases ht
    rw [hstate] at hs
    cases hs
  rw [h.fullNbrs,h.countFull]
  rfl

omit [DecidableEq κ] [DecidableEq ι] [DecidableEq μ] in
theorem Started.areaOk (h : Started a) : AreaOk a where
  nodup := h.nodup
  oi := fun i hi => (h.oi i hi).oiOk
  full := by
    have hz : (a.oiflist.map fun i => ((a.oi i).countFull : ℤ)) = a.oiflist.map fun _ => 0 := by
      refine map_congr_left fun i hi => ?_
      rw [(h.oi i hi).countFull]
      rfl
    rw [h.fullNbrs,hz,map_const',sum_replicate,smul_zero]

omit [DecidableEq ι] [DecidableEq μ] in
theorem areaOk_setOi (h : AreaOk a) (hoi : OiOk oi) (hcnt : oi.countFull=(a.oi i).countFull) :
    AreaOk (a.setOi i oi) := by
  refine ⟨h.nodup,fun j hj => ?_,?_⟩
  · by_cases hji : j=i
    · subst hji
      rw [setOi_self]
      exact hoi
    rw [setOi_of_ne _ _ hji]
    exact h.oi j hj
  refine h.full.trans (congrArg sum (map_congr_left fun j _ => ?_))
  by_cases hji : j=i
  · subst hji
    rw [setOi_self,hcnt]
  · rw [setOi_of_ne _ _ hji]

omit [DecidableEq ι] [DecidableEq μ] in
theorem areaOk_ifNew (h : AreaOk a) (fresh : i ∉ a.oiflist) (created : Created oi) :
    AreaOk {a.setOi i oi with oiflist := i::a.oiflist} := by
  have hne : ∀ j∈a.oiflist, j≠i := fun j hj hji => fresh (hji ▸ hj)
  refine ⟨nodup_cons.mpr ⟨fresh,h.nodup⟩,fun j hj => ?_,?_⟩
  · rcases mem_cons.mp hj with rfl|hj
    · rw [setOi_self]
      exact created.oiOk
    rw [setOi_of_ne _ _ (hne j hj)]
    exact h.oi j hj
  change a.fullNbrs=((i::a.oiflist).map fun j => (((a.setOi i oi).oi j).countFull : ℤ)).sum
  rw [map_cons,sum_cons,setOi_self,created.countFull,Nat.cast_zero,zero_add,h.full]
  refine congrArg sum (map_congr_left fun j hj => ?_)
  rw [setOi_of_ne _ _ (hne j hj)]

omit [DecidableEq κ] in
theorem areaOk_flood (h : AreaOk a) (x : Answers κ ι) (f : LsaFlood κ ι) :
    AreaOk (a.flood x f) := by
  have hkept : ∀ j, KeptOi (a.oi j) ((a.flood x f).oi j) ∧
      ((a.flood x f).oi j).fullNbrs=(a.oi j).fullNbrs := by
    intro j
    change KeptOi (a.oi j) (if f.through j then _ else _) ∧
      (if f.through j then _ else _ : NsmInterface ι μ).fullNbrs=_
    split
    · exact ⟨flood_keptOi _ _ _ _,rfl⟩
    · exact ⟨KeptOi.refl _,rfl⟩
  refine ⟨h.nodup,fun j hj => (hkept j).1.oiOk (hkept j).2 (h.oi j hj),?_⟩
  refine h.full.trans (congrArg sum (map_congr_left fun j _ => ?_))
  rw [(hkept j).1.countFull]

theorem Step.areaOk (h : Step a b) (ha : AreaOk a) : AreaOk b := by
  cases h with
  | event x i n e b mem table notSelf real done =>
    obtain ⟨b',hdone,hb,-⟩ := ospfNsmEvent_areaOk x ha mem table notSelf real
    rw [done] at hdone
    rw [some.inj hdone]
    exact hb
  | between i oi mem happens =>
    obtain ⟨hoi,hcnt⟩ := happens.oiOk (ha.oi i mem)
    exact areaOk_setOi ha hoi hcnt
  | flood x f => exact areaOk_flood ha x f
  | ifNew i oi fresh created => exact areaOk_ifNew ha fresh created

theorem run_areaOk (hstart : Started a) (hrun : Relation.ReflTransGen Step a b) : AreaOk b := by
  induction hrun with
  | refl => exact hstart.areaOk
  | tail _ hstep ih => exact hstep.areaOk ih

/-- What an event leaves: counters, lists without adjacency, and the timer with its packet. -/
structure Settled (a : NsmArea κ ι μ) : Prop where
  /-- `full_nbrs` of the interfaces. -/
  interface : ∀ i∈a.oiflist, (a.oi i).fullNbrs=(a.oi i).countFull
  /-- `full_nbrs` of the area. -/
  area : a.fullNbrs=(a.oiflist.map fun i => ((a.oi i).countFull : ℤ)).sum
  lists : ∀ i∈a.oiflist, ∀ n∈(a.oi i).neighbors,
    below .exStart ((a.oi i).nbr n).state=false → ListsEmpty ((a.oi i).nbr n)
  /-- The timer, and the assertion of `ospf_db_desc_timer`. -/
  timer : ∀ i∈a.oiflist, ∀ n∈(a.oi i).neighbors, ((a.oi i).nbr n).tDbDesc=true →
    (((a.oi i).nbr n).state=.exStart ∨
      (((a.oi i).nbr n).state=.exchange ∧ Master ((a.oi i).nbr n))) ∧
    ((a.oi i).nbr n).lastSend=true

omit [DecidableEq κ] [DecidableEq ι] [DecidableEq μ] in
theorem settled_of_areaOk (h : AreaOk a) : Settled a where
  interface := fun i hi => (h.oi i hi).full
  area := h.full
  lists := fun i hi n hn => ((h.oi i hi).nbr n hn).lists
  timer := fun i hi n hn ht => ⟨((h.oi i hi).nbr n hn).timer ht,((h.oi i hi).nbr n hn).lastSend ht⟩

end

section

/-- An area with one interface, whose own entry has the key 1. -/
def oneInterface : NsmArea Unit Bool Unit where
  oi := fun _ =>
    { type := .broadcast
      state := .drOther
      nbrSelf := false
      nbr := fun _ => { (ospfNbrNew : NsmNeighbor Unit) with state := .twoWay,src := 1 }
      nbrs := [(1,false)]
      nbma := fun _ => ⟨none,0,false⟩
      fullNbrs := 0
      events := [] }
  oiflist := [()]
  fullNbrs := 0

theorem oneInterface_started : Started oneInterface where
  nodup := nodup_singleton ()
  oi := fun _ _ => ⟨rfl,⟨rfl,rfl,rfl,rfl,rfl⟩,fun _ => rfl,rfl,rfl⟩
  fullNbrs := rfl

/-- What a Hello packet says of a neighbour. -/
def helloAttributes : Attributes := ⟨2,2,1,0,0,2,0,0,0,false,false,false,false⟩

/-- The neighbour with the key 2 was added. -/
def oneNeighbor : NsmArea Unit Bool Unit :=
  oneInterface.setOi () (nbrAdd (oneInterface.oi ()) true helloAttributes 2 none)

theorem oneNeighbor_reached : Relation.ReflTransGen Step oneInterface oneNeighbor := by
  refine Relation.ReflTransGen.single (Step.between () _ (mem_singleton.mpr rfl) ?_)
  exact Between.nbrAdd true helloAttributes 2 none (by decide) (by decide) (by decide)

def quietAnswers : Answers Unit Bool where
  now := 0
  quaggaTime := 1
  asLsdb := Store.empty
  area := { lsdb := Store.empty,externalRouting := .default }
  localXlt := fun _ => false
  otherLink := fun _ => false
  sendsO := false
  room := 0
  floods := []

end

end RoutePlatform.NsmRuns
