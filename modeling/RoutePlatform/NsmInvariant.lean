import RoutePlatform.NsmOperations

/-!
# What an event keeps of the neighbours

A neighbour without an adjacency has empty lists, its retransmission timer for database
descriptions runs only while a packet is repeated, and such a packet is there from the start of
the exchange on. Elections and floods keep this, by a relation between the records of a neighbour
before and after.
-/

namespace RoutePlatform.NsmInvariant

open LsaOperations OspfStates DrElection NsmOperations Function List

universe u v w

variable {κ : Type u} {ι : Type v} {μ : Type w} {nbr : NsmNeighbor μ} {nbr' : NsmNeighbor μ} {n : ι}
  (x : Answers κ ι)

/-- The three lists of a neighbour are empty. -/
structure ListsEmpty (nbr : NsmNeighbor μ) : Prop where
  dbSum : ospfLsdbIsempty nbr.dbSum=true
  lsReq : ospfLsdbIsempty nbr.lsReq=true
  lsRxmt : ospfLsdbIsempty nbr.lsRxmt=true

/-- The router is master of the exchange. -/
def Master (nbr : NsmNeighbor μ) : Prop := checkFlag nbr.ddFlags ospfDdFlagMs=true

/-- What holds of every neighbour of a table between two events. -/
structure NbrOk (nbr : NsmNeighbor μ) : Prop where
  live : nbr.state ≠ .dependUpon ∧ nbr.state ≠ .deleted
  lists : below .exStart nbr.state=false → ListsEmpty nbr
  /-- The DD retransmission timer runs in ExStart, and for a master in Exchange. -/
  timer : nbr.tDbDesc=true → nbr.state=.exStart ∨ (nbr.state=.exchange ∧ Master nbr)
  sent : below nbr.state .exStart=false → nbr.lastSend=true

theorem NbrOk.lastSend (h : NbrOk nbr) (ht : nbr.tDbDesc=true) : nbr.lastSend=true := by
  apply h.sent
  rcases h.timer ht with hs|⟨hs,-⟩
  · rw [hs]
    rfl
  rw [hs]
  rfl

/-- What elections and floods leave of a neighbour. -/
structure Kept (nbr nbr' : NsmNeighbor μ) : Prop where
  state : nbr'.state=nbr.state
  routerId : nbr'.routerId=nbr.routerId
  src : nbr'.src=nbr.src
  ddFlags : nbr'.ddFlags=nbr.ddFlags
  lastSend : nbr'.lastSend=nbr.lastSend
  nbrNbma : nbr'.nbrNbma=nbr.nbrNbma
  tDbDesc : nbr'.tDbDesc=nbr.tDbDesc
  lists : below nbr.state .exchange=true →
    nbr'.dbSum=nbr.dbSum ∧ nbr'.lsReq=nbr.lsReq ∧ nbr'.lsRxmt=nbr.lsRxmt

theorem Kept.refl (nbr : NsmNeighbor μ) : Kept nbr nbr :=
  ⟨rfl,rfl,rfl,rfl,rfl,rfl,rfl,fun _ => ⟨rfl,rfl,rfl⟩⟩

theorem Kept.trans {a b c : NsmNeighbor μ} (h : Kept a b) (h' : Kept b c) : Kept a c where
  state := h'.state.trans h.state
  routerId := h'.routerId.trans h.routerId
  src := h'.src.trans h.src
  ddFlags := h'.ddFlags.trans h.ddFlags
  lastSend := h'.lastSend.trans h.lastSend
  nbrNbma := h'.nbrNbma.trans h.nbrNbma
  tDbDesc := h'.tDbDesc.trans h.tDbDesc
  lists := by
    intro hs
    obtain ⟨h1,h2,h3⟩ := h.lists hs
    rw [←h.state] at hs
    obtain ⟨h1',h2',h3'⟩ := h'.lists hs
    exact ⟨h1'.trans h1,h2'.trans h2,h3'.trans h3⟩

theorem below_exchange {s : NsmState} (h : below .exStart s=false) : below s .exchange=true := by
  cases s <;> first | rfl | cases h

theorem Kept.listsEmpty (h : Kept nbr nbr') (hs : below .exStart nbr.state=false)
    (he : ListsEmpty nbr) : ListsEmpty nbr' := by
  obtain ⟨h1,h2,h3⟩ := h.lists (below_exchange hs)
  refine ⟨?_,?_,?_⟩
  · rw [h1]
    exact he.dbSum
  · rw [h2]
    exact he.lsReq
  rw [h3]
  exact he.lsRxmt

theorem NbrOk.kept (h : NbrOk nbr) (hk : Kept nbr nbr') : NbrOk nbr' where
  live := by
    rw [hk.state]
    exact h.live
  lists := by
    intro hs
    rw [hk.state] at hs
    exact hk.listsEmpty hs (h.lists hs)
  timer := by
    intro ht
    rw [hk.tDbDesc] at ht
    rw [hk.state,Master,hk.ddFlags]
    exact h.timer ht
  sent := by
    intro hs
    rw [hk.state] at hs
    rw [hk.lastSend]
    exact h.sent hs

theorem kept_lists (hs : below nbr.state .exchange=false) (dbSum lsReq lsRxmt : OspfLsdb) :
    Kept nbr {nbr with dbSum := dbSum,lsReq := lsReq,lsRxmt := lsRxmt} := by
  refine ⟨rfl,rfl,rfl,rfl,rfl,rfl,rfl,fun h => ?_⟩
  rw [hs] at h
  cases h

theorem ospfLsRetransmitAdd_kept (hs : below nbr.state .exchange=false) (now : ℕ) (lsa : OspfLsa) :
    Kept nbr (ospfLsRetransmitAdd nbr now lsa) := by
  unfold ospfLsRetransmitAdd
  dsimp only
  split
  · exact kept_lists hs _ _ _
  · exact Kept.refl nbr

theorem floodNeighbour_kept (nbr : NsmNeighbor μ) (now : ℕ) (lsa : OspfLsa) (skip : Bool) :
    Kept nbr (floodNeighbour nbr now lsa skip).1 := by
  have hadd : ∀ nbr' : NsmNeighbor μ, below nbr'.state .exchange=false →
      Kept nbr' (if skip then nbr' else ospfLsRetransmitAdd nbr' now lsa) := by
    intro nbr' hs
    cases skip with
    | true => exact Kept.refl nbr'
    | false => exact ospfLsRetransmitAdd_kept hs now lsa
  unfold floodNeighbour
  dsimp only
  cases hs : below nbr.state .exchange with
  | true => exact Kept.refl nbr
  | false =>
    have hreq : ∀ lsReq, Kept nbr {nbr with lsReq := lsReq} := fun lsReq =>
      kept_lists hs nbr.dbSum lsReq nbr.lsRxmt
    rw [if_neg Bool.false_ne_true]
    split
    · split
      · exact hadd nbr hs
      split
      · exact Kept.refl nbr
      split
      · exact hreq _
      · exact (hreq _).trans (hadd {nbr with lsReq := _} hs)
    · exact hadd nbr hs

section

variable {oi oi' : NsmInterface ι μ}

/-- The table has a neighbour under its key only, and others refer to it. -/
structure RefsOk (oi : NsmInterface ι μ) : Prop where
  keys : (oi.nbrs.map Prod.fst).Nodup
  nodup : oi.neighbors.Nodup
  /-- Its key is that of `ospf_nbr_key`. -/
  key : ∀ e∈oi.nbrs, e.2≠oi.nbrSelf → e.1=oi.nbrKey e.2
  /-- A configured neighbour and its neighbour refer to each other. -/
  nbma : ∀ m n, (oi.nbma m).nbr=some n → n∈oi.neighbors ∧ (oi.nbr n).nbrNbma=some m
  events : ∀ e∈oi.events, e.1∈oi.neighbors

theorem RefsOk.nbrKey_iff (h : RefsOk oi) (hn : n∈oi.neighbors) (hself : n≠oi.nbrSelf) {e : ℕ × ι}
    (he : e∈oi.nbrs) : e.1=oi.nbrKey n ↔ e.2=n := by
  obtain ⟨e',he',hen⟩ := mem_map.mp hn
  have hkey : e'.1=oi.nbrKey n := by
    have := h.key e' he' (by rw [hen]; exact hself)
    rw [hen] at this
    exact this
  constructor
  · intro hk
    have heq := inj_on_of_nodup_map h.keys he he' (hk.trans hkey.symm)
    rw [heq,hen]
  · intro hk
    have heq := inj_on_of_nodup_map h.nodup he he' (hk.trans hen.symm)
    rw [heq,hkey]

/-- What holds of an interface between two events. -/
structure OiOk (oi : NsmInterface ι μ) : Prop where
  refs : RefsOk oi
  nbr : ∀ n∈oi.neighbors, NbrOk (oi.nbr n)
  /-- `full_nbrs` counts the full neighbours. -/
  full : oi.fullNbrs=oi.countFull

/-- What elections and floods leave of an interface, its counter apart. -/
structure KeptOi (oi oi' : NsmInterface ι μ) : Prop where
  type : oi'.type=oi.type
  nbrSelf : oi'.nbrSelf=oi.nbrSelf
  nbrs : oi'.nbrs=oi.nbrs
  nbma : oi'.nbma=oi.nbma
  nbr : ∀ n, Kept (oi.nbr n) (oi'.nbr n)
  events : ∀ e∈oi'.events, e∈oi.events ∨ e.1∈oi.neighbors

theorem KeptOi.refl (oi : NsmInterface ι μ) : KeptOi oi oi :=
  ⟨rfl,rfl,rfl,rfl,fun _ => Kept.refl _,fun _ he => Or.inl he⟩

section

variable (h : KeptOi oi oi')
include h

theorem KeptOi.neighbors : oi'.neighbors=oi.neighbors := by
  rw [NsmInterface.neighbors,h.nbrs]
  rfl

theorem KeptOi.trans {oi'' : NsmInterface ι μ} (h' : KeptOi oi' oi'') :
    KeptOi oi oi'' where
  type := h'.type.trans h.type
  nbrSelf := h'.nbrSelf.trans h.nbrSelf
  nbrs := h'.nbrs.trans h.nbrs
  nbma := h'.nbma.trans h.nbma
  nbr := fun n => (h.nbr n).trans (h'.nbr n)
  events := by
    intro e he
    rcases h'.events e he with he|he
    · exact h.events e he
    rw [h.neighbors] at he
    exact Or.inr he

theorem KeptOi.nbrKey (n : ι) : oi'.nbrKey n=oi.nbrKey n := by
  rw [NsmInterface.nbrKey,NsmInterface.nbrKey,h.type,(h.nbr n).routerId,(h.nbr n).src]

theorem KeptOi.countFull : oi'.countFull=oi.countFull := by
  rw [NsmInterface.countFull,NsmInterface.countFull,h.neighbors]
  refine countP_congr fun n _ => ?_
  rw [(h.nbr n).state]

theorem KeptOi.refs (ho : RefsOk oi) : RefsOk oi' where
  keys := by
    rw [h.nbrs]
    exact ho.keys
  nodup := by
    rw [h.neighbors]
    exact ho.nodup
  key := by
    intro e he hne
    rw [h.nbrs] at he
    rw [h.nbrSelf] at hne
    rw [h.nbrKey]
    exact ho.key e he hne
  nbma := by
    intro m n hm
    rw [h.nbma] at hm
    rw [h.neighbors,(h.nbr n).nbrNbma]
    exact ho.nbma m n hm
  events := by
    intro e he
    rw [h.neighbors]
    exact (h.events e he).elim (ho.events e) id

theorem KeptOi.oiOk (hfull : oi'.fullNbrs=oi.fullNbrs) (ho : OiOk oi) :
    OiOk oi' where
  refs := h.refs ho.refs
  nbr := by
    intro n hn
    rw [h.neighbors] at hn
    exact (ho.nbr n hn).kept (h.nbr n)
  full := by
    rw [hfull,h.countFull]
    exact ho.full

end

theorem flood_keptOi [DecidableEq ι] [DecidableEq μ] (oi : NsmInterface ι μ) (now : ℕ)
    (lsa : OspfLsa) (skips : ι→Bool) : KeptOi oi (oi.flood now lsa skips) := by
  refine ⟨rfl,rfl,rfl,rfl,fun n => ?_,fun e he => ?_⟩
  · change Kept _ (if n∈oi.neighbors then _ else _)
    split
    · exact floodNeighbour_kept _ _ _ _
    · exact Kept.refl _
  rcases mem_append.mp he with he|he
  · exact Or.inl he
  obtain ⟨n,hn,rfl⟩ := mem_map.mp he
  exact Or.inr (mem_filter.mp hn).1

end

section

/-- An election changes nothing of a neighbour but what it declares. -/
structure SameNeighbors (oi oi' : OspfInterface ι) : Prop where
  nbrs : oi'.nbrs=oi.nbrs
  state : ∀ n, (oi'.nbr n).state=(oi.nbr n).state
  routerId : ∀ n, (oi'.nbr n).routerId=(oi.nbr n).routerId

theorem SameNeighbors.trans {a b c : OspfInterface ι} (h : SameNeighbors a b)
    (h' : SameNeighbors b c) : SameNeighbors a c where
  nbrs := h'.nbrs.trans h.nbrs
  state := fun n => (h'.state n).trans (h.state n)
  routerId := fun n => (h'.routerId n).trans (h.routerId n)

variable [DecidableEq ι]

section

variable (oi : OspfInterface ι)
include oi

theorem sameNeighbors_setDr (d : ℕ) : SameNeighbors oi (oi.setDr d) := by
  refine ⟨rfl,fun n => ?_,fun n => ?_⟩
  all_goals
    by_cases hn : n=oi.nbrSelf
    · subst hn
      simp [OspfInterface.setDr]
    · simp [OspfInterface.setDr,update_of_ne hn]

theorem sameNeighbors_setBdr (d : ℕ) : SameNeighbors oi (oi.setBdr d) := by
  refine ⟨rfl,fun n => ?_,fun n => ?_⟩
  all_goals
    by_cases hn : n=oi.nbrSelf
    · subst hn
      simp [OspfInterface.setBdr]
    · simp [OspfInterface.setBdr,update_of_ne hn]

theorem sameNeighbors_electionRound (elList : List ι) :
    SameNeighbors oi (electionRound oi elList) :=
  (sameNeighbors_setBdr oi _).trans (sameNeighbors_setDr _ _)

theorem sameNeighbors_ospfDrElection : SameNeighbors oi (ospfDrElection oi).oi := by
  have hfst := sameNeighbors_electionRound oi (ospfDrEligibleRouters oi)
  unfold ospfDrElection
  dsimp only
  split
  · exact hfst.trans (sameNeighbors_electionRound _ _)
  · exact hfst

theorem sameNeighbors_neighborChange (type : IfType) :
    SameNeighbors oi (ospfIsmEvent oi type .neighborChange) := by
  have helection := sameNeighbors_ospfDrElection oi
  unfold ospfIsmEvent
  dsimp only
  split
  all_goals first
    | exact ⟨helection.nbrs,helection.state,helection.routerId⟩
    | exact ⟨rfl,fun _ => rfl,fun _ => rfl⟩

end

theorem mem_adjOk {oi : OspfInterface ι} (h : n∈(ospfDrElection oi).adjOk) : n∈oi.nbrs := by
  have hsame := sameNeighbors_ospfDrElection oi
  have hadj : (ospfDrElection oi).adjOk =
      if oi.dr≠(ospfDrElection oi).oi.dr ∨ oi.bdr≠(ospfDrElection oi).oi.bdr then
        ospfDrChange (ospfDrElection oi).oi else [] := rfl
  rw [hadj] at h
  by_cases hc : oi.dr≠(ospfDrElection oi).oi.dr ∨ oi.bdr≠(ospfDrElection oi).oi.bdr
  · rw [if_pos hc] at h
    rw [←hsame.nbrs]
    exact (mem_filter.mp h).1
  rw [if_neg hc] at h
  cases h

theorem ismNeighborChange_keptOi (oi : NsmInterface ι μ) : KeptOi oi oi.ismNeighborChange := by
  have hsame := sameNeighbors_neighborChange oi.election oi.type
  have hnbr : ∀ n, Kept (oi.nbr n)
      ((oi.afterElection (ospfIsmEvent oi.election oi.type .neighborChange)).nbr n) := fun n =>
    ⟨hsame.state n,hsame.routerId n,rfl,rfl,rfl,rfl,rfl,fun _ => ⟨rfl,rfl,rfl⟩⟩
  unfold NsmInterface.ismNeighborChange
  split
  · refine ⟨rfl,rfl,rfl,rfl,hnbr,fun e he => ?_⟩
    rcases mem_append.mp he with he|he
    · exact Or.inl he
    obtain ⟨n,hn,rfl⟩ := mem_map.mp he
    exact Or.inr (mem_adjOk hn)
  · exact ⟨rfl,rfl,rfl,rfl,hnbr,fun _ he => Or.inl he⟩

end

section

variable [DecidableEq κ] {a b : NsmArea κ ι μ} {i : κ}

/-- What holds of an area between two events. -/
structure AreaOk (a : NsmArea κ ι μ) : Prop where
  nodup : a.oiflist.Nodup
  oi : ∀ i∈a.oiflist, OiOk (a.oi i)
  /-- `full_nbrs` counts the full neighbours of all interfaces. -/
  full : a.fullNbrs=(a.oiflist.map fun i => ((a.oi i).countFull : ℤ)).sum

/-- Elections and floods happened, and the counters of one interface and of the
area changed. -/
structure KeptArea (i : κ) (d : ℤ) (a b : NsmArea κ ι μ) : Prop where
  oi : ∀ j, KeptOi (a.oi j) (b.oi j)
  oiflist : b.oiflist=a.oiflist
  counter : ∀ j, (b.oi j).fullNbrs=(a.oi j).fullNbrs+if j=i then d else 0
  full : b.fullNbrs=a.fullNbrs+d

theorem KeptArea.refl (i : κ) (a : NsmArea κ ι μ) : KeptArea i 0 a a where
  oi := fun j => KeptOi.refl (a.oi j)
  oiflist := rfl
  counter := by
    intro j
    rw [ite_self,add_zero]
  full := (add_zero _).symm

theorem KeptArea.trans {c : NsmArea κ ι μ} {d e : ℤ} (h : KeptArea i d a b)
    (h' : KeptArea i e b c) : KeptArea i (d+e) a c where
  oi := fun j => (h.oi j).trans (h'.oi j)
  oiflist := h'.oiflist.trans h.oiflist
  counter := by
    intro j
    rw [h'.counter,h.counter]
    by_cases hj : j=i
    · simp only [if_pos hj,add_assoc]
    · simp only [if_neg hj,add_zero]
  full := by rw [h'.full,h.full,add_assoc]

/-- One interface is replaced by what an election leaves of it. -/
theorem setOi_keptArea (a : NsmArea κ ι μ) {oi : NsmInterface ι μ} {d : ℤ}
    (h : KeptOi (a.oi i) oi) (hd : oi.fullNbrs=(a.oi i).fullNbrs+d) :
    KeptArea i d a {a.setOi i oi with fullNbrs := a.fullNbrs+d} where
  oi := by
    intro j
    change KeptOi (a.oi j) (update a.oi i oi j)
    by_cases hj : j=i
    · subst hj
      rw [update_self]
      exact h
    rw [update_of_ne hj]
    exact KeptOi.refl _
  oiflist := rfl
  counter := by
    intro j
    change (update a.oi i oi j).fullNbrs=_
    by_cases hj : j=i
    · subst hj
      rw [update_self,if_pos rfl,hd]
    · rw [update_of_ne hj,if_neg hj,add_zero]
  full := rfl

variable [DecidableEq ι] [DecidableEq μ]

theorem flood_keptArea (i : κ) (a : NsmArea κ ι μ) (f : LsaFlood κ ι) :
    KeptArea i 0 a (a.flood x f) where
  oi := by
    intro j
    change KeptOi (a.oi j) (if f.through j then _ else _)
    split
    · exact flood_keptOi _ _ _ _
    · exact KeptOi.refl _
  oiflist := rfl
  counter := by
    intro j
    change (if f.through j then _ else _ : NsmInterface ι μ).fullNbrs=_
    rw [ite_self,add_zero]
    split <;> rfl
  full := (add_zero _).symm

theorem floods_keptArea (i : κ) (floods : List (LsaFlood κ ι)) :
    ∀ a : NsmArea κ ι μ, KeptArea i 0 a (floods.foldl (NsmArea.flood x) a) := by
  induction floods with
  | nil => exact KeptArea.refl i
  | cons f rest ih =>
    intro a
    exact (flood_keptArea x i a f).trans (ih (a.flood x f))

end

end RoutePlatform.NsmInvariant
