import RoutePlatform.DrElection

/-!
# Agreement on the designated router

The two loops of the election are one round of an election of two offices by rank. What a router
stores after the first round changes its own claims only, so the second round is that of the
elector that took over the outcome. Routers that declare the outcome of their own elections
therefore all declare that of one first round.
-/

namespace RoutePlatform.DrAgreement

open OspfStates RankedElection DrElection Function List

universe u

variable {ι : Type u} (nbr : ι→OspfNeighbor)

/-- The order of the election: by priority, then by router id. -/
def rank (nbr : ι→OspfNeighbor) (n : ι) : ℕ ×ₗ ℕ := toLex ((nbr n).priority,(nbr n).routerId)

theorem higher_some (m n : ι) :
    higher nbr (some m) n=some (if rank nbr m<rank nbr n then n else m) := by
  rw [higher]
  have hlt : rank nbr m<rank nbr n ↔ (nbr m).priority<(nbr n).priority ∨
      ((nbr m).priority=(nbr n).priority ∧ (nbr m).routerId<(nbr n).routerId) :=
    Prod.Lex.toLex_lt_toLex
  by_cases hp : (nbr m).priority<(nbr n).priority
  · rw [if_pos hp,if_pos (hlt.mpr (Or.inl hp))]
  rw [if_neg hp]
  by_cases he : (nbr m).priority=(nbr n).priority
  · rw [if_pos he]
    by_cases hi : (nbr m).routerId<(nbr n).routerId
    · rw [if_pos hi,if_pos (hlt.mpr (Or.inr ⟨he,hi⟩))]
    rw [if_neg hi,if_neg fun hc => ?_]
    rcases hlt.mp hc with hc|hc
    · exact hp hc
    · exact hi hc.2
  rw [if_neg he,if_neg fun hc => ?_]
  rcases hlt.mp hc with hc|hc
  · exact hp hc
  · exact he hc.1

/-- The loop answers the best of what it has and what it goes through. -/
theorem foldl_higher (l : List ι) (m : ι) :
    ∃ k, l.foldl (higher nbr) (some m)=some k ∧ (k=m ∨ k∈l) ∧
      rank nbr m≤rank nbr k ∧ ∀ n∈l, rank nbr n≤rank nbr k := by
  induction l generalizing m with
  | nil => exact ⟨m,rfl,Or.inl rfl,le_rfl,nofun⟩
  | cons n l ih =>
    rw [foldl_cons,higher_some]
    obtain ⟨k,hk,hmem,hle,hall⟩ := ih (if rank nbr m<rank nbr n then n else m)
    refine ⟨k,hk,?_,?_,?_⟩
    · rcases hmem with hmem|hmem
      · rw [hmem]
        split
        · exact Or.inr mem_cons_self
        · exact Or.inl rfl
      · exact Or.inr (mem_cons_of_mem n hmem)
    · refine le_trans ?_ hle
      split
      · rename_i hlt
        exact hlt.le
      · exact le_rfl
    intro x hx
    rcases mem_cons.mp hx with rfl|hx
    · refine le_trans ?_ hle
      split
      · exact le_rfl
      rename_i hnot
      exact not_lt.mp hnot
    · exact hall x hx

theorem ospfDrElectionSub_isBest (l : List ι) :
    IsBest (rank nbr) {n | n∈l} (ospfDrElectionSub nbr l) := by
  rw [ospfDrElectionSub]
  cases l with
  | nil => exact Set.eq_empty_of_forall_notMem fun _ hn => not_mem_nil hn
  | cons m l =>
    obtain ⟨k,hk,hmem,hle,hall⟩ := foldl_higher nbr l m
    rw [foldl_cons,show higher nbr none m=some m from rfl,hk]
    refine ⟨?_,fun n hn => ?_⟩
    · rcases hmem with rfl|hmem
      · exact .head _
      · exact mem_cons_of_mem m hmem
    rcases mem_cons.mp hn with rfl|hn
    · exact hle
    · exact hall n hn

/-- The table of an interface: the routers have their own ids and addresses. -/
structure TableOk (oi : OspfInterface ι) : Prop where
  self : oi.nbrSelf∈oi.nbrs
  ids : ∀ m∈oi.nbrs, ∀ n∈oi.nbrs, (oi.nbr m).routerId=(oi.nbr n).routerId → m=n
  addresses : ∀ m∈oi.nbrs, ∀ n∈oi.nbrs, (oi.nbr m).address=(oi.nbr n).address → m=n
  nonzero : ∀ n∈oi.nbrs, (oi.nbr n).address≠0

section

variable {oi : OspfInterface ι} {o : Option ι} {n : ι}

theorem TableOk.addressOf_eq_iff (h : TableOk oi) (ho : ∀ m, o=some m → m∈oi.nbrs)
    (hn : n∈oi.nbrs) : (oi.nbr n).address=addressOf oi.nbr o ↔ o=some n := by
  cases o with
  | none => exact ⟨fun he => absurd he (h.nonzero n hn),nofun⟩
  | some m =>
    constructor
    · intro he
      rw [h.addresses n hn m (ho m rfl) he]
    · intro he
      rw [Option.some.inj he]
      rfl

end

section

variable {oi oi' : OspfInterface ι} {el : List ι} {n : ι}

/-- Two interfaces that differ in what the router itself stores as designated
and backup router. -/
structure SameTable (oi oi' : OspfInterface ι) : Prop where
  nbrs : oi'.nbrs=oi.nbrs
  nbrSelf : oi'.nbrSelf=oi.nbrSelf
  others : ∀ n, n≠oi.nbrSelf → oi'.nbr n=oi.nbr n
  /-- The own entry differs in what it declares at most. -/
  self : oi'.nbr oi.nbrSelf={oi.nbr oi.nbrSelf with dRouter := oi'.dr,bdRouter := oi'.bdr}

section

variable (h : SameTable oi oi')
include h

theorem SameTable.address (n : ι) : (oi'.nbr n).address=(oi.nbr n).address := by
  by_cases hn : n=oi.nbrSelf
  · rw [hn,h.self]
  · rw [h.others n hn]

theorem SameTable.routerId (n : ι) : (oi'.nbr n).routerId=(oi.nbr n).routerId := by
  by_cases hn : n=oi.nbrSelf
  · rw [hn,h.self]
  · rw [h.others n hn]

theorem SameTable.rank_eq : rank oi'.nbr=rank oi.nbr := by
  funext n
  by_cases hn : n=oi.nbrSelf
  · rw [rank,rank,hn,h.self]
  · rw [rank,rank,h.others n hn]

theorem SameTable.addressOf_eq (o : Option ι) : addressOf oi'.nbr o=addressOf oi.nbr o := by
  cases o with
  | none => rfl
  | some n => exact h.address n

theorem SameTable.tableOk (ht : TableOk oi) : TableOk oi' where
  self := by
    rw [h.nbrSelf,h.nbrs]
    exact ht.self
  ids := by
    intro m hm n hn he
    rw [h.nbrs] at hm hn
    rw [h.routerId,h.routerId] at he
    exact ht.ids m hm n hn he
  addresses := by
    intro m hm n hn he
    rw [h.nbrs] at hm hn
    rw [h.address,h.address] at he
    exact ht.addresses m hm n hn he
  nonzero := by
    intro n hn
    rw [h.nbrs] at hn
    rw [h.address]
    exact ht.nonzero n hn

theorem SameTable.trans {oi'' : OspfInterface ι} (h' : SameTable oi' oi'') :
    SameTable oi oi'' where
  nbrs := h'.nbrs.trans h.nbrs
  nbrSelf := h'.nbrSelf.trans h.nbrSelf
  others := fun n hn => (h'.others n (h.nbrSelf ▸ hn)).trans (h.others n hn)
  self := by
    have hself := h'.self
    rw [h.nbrSelf,h.self] at hself
    exact hself

end

/-- A neighbour declares itself designated router. -/
def declaresDr (oi : OspfInterface ι) (n : ι) : Prop := (oi.nbr n).isDr=true

/-- A neighbour declares itself backup designated router. -/
def declaresBdr (oi : OspfInterface ι) (n : ι) : Prop := (oi.nbr n).isBdr=true

/-- The members of a list as a set of candidates. -/
def members (l : List ι) : Set ι := {n | n∈l}

/-- The eligible routers of an interface. -/
def eligible (oi : OspfInterface ι) : Set ι := members (ospfDrEligibleRouters oi)

theorem mem_eligible : n∈eligible oi ↔ n∈oi.nbrs ∧ (oi.nbr n).eligible=true := mem_filter

theorem TableOk.rank_injOn (h : TableOk oi) : Set.InjOn (rank oi.nbr) (eligible oi) := by
  intro m hm n hn he
  have hid : (oi.nbr m).routerId=(oi.nbr n).routerId := congrArg (fun r => (ofLex r).2) he
  exact h.ids m (mem_eligible.mp hm).1 n (mem_eligible.mp hn).1 hid

/-- A router in state DR stores itself as designated router. -/
def StateOk (oi : OspfInterface ι) : Prop := oi.state=.dr → oi.dr=oi.address

theorem Round.members_of {E : Set ι} {κ : Type*} [LinearOrder κ] {r : ι→κ} {p q : ι→Prop}
    {d b : Option ι} (h : Round r E p q d b) {l : List ι} (hl : ∀ n∈E, n∈l) :
    (∀ m, d=some m → m∈l) ∧ (∀ m, b=some m → m∈l) :=
  ⟨fun m hm => hl m (h.chief_mem hm),fun m hm => hl m (h.deputy_mem hm).1⟩

/-- The search for the neighbour with the address of the backup router finds the
elected one. -/
theorem foldl_lookup {p : ι→Prop} [DecidablePred p] {b : Option ι}
    (hp : ∀ n∈el, p n ↔ b=some n) (hb : ∀ m, b=some m → m∈el) :
    el.foldl (fun acc n => if p n then some n else acc) none=b := by
  have hfnd : ∀ (l : List ι) (acc : Option ι) (m : ι), b=some m → (∀ n∈l, p n ↔ b=some n) →
      (acc=some m ∨ m∈l) → l.foldl (fun acc n => if p n then some n else acc) acc=b := by
    intro l
    induction l with
    | nil =>
      rintro acc m hm _ (hacc|hmem)
      · exact hacc.trans hm.symm
      · cases hmem
    | cons x l ih =>
      intro acc m hm hl hmem
      rw [foldl_cons]
      refine ih _ m hm (fun n hn => hl n (mem_cons_of_mem x hn)) ?_
      by_cases hx : p x
      · left
        rw [if_pos hx,←hm]
        exact ((hl x mem_cons_self).mp hx).symm
      rw [if_neg hx]
      refine hmem.imp id fun hmem => ?_
      rcases mem_cons.mp hmem with rfl|hmem
      · exact absurd ((hl m mem_cons_self).mpr hm) hx
      · exact hmem
  cases hb' : b with
  | some m =>
    rw [←hb']
    exact hfnd el none m hb' hp (Or.inr (hb m hb'))
  | none =>
    have hnone : ∀ n∈el, ¬p n := by
      intro n hn hc
      have hsome := (hp n hn).mp hc
      rw [hb'] at hsome
      cases hsome
    clear hfnd hp hb
    induction el with
    | nil => rfl
    | cons x l ih =>
      rw [foldl_cons,if_neg (hnone x mem_cons_self)]
      exact ih fun n hn => hnone n (mem_cons_of_mem x hn)

variable [DecidableEq ι]

@[simp] theorem setDr_of_ne (oi : OspfInterface ι) (a : ℕ) (h : n≠oi.nbrSelf) :
    (oi.setDr a).nbr n=oi.nbr n := update_of_ne h ..

@[simp] theorem setBdr_of_ne (oi : OspfInterface ι) (a : ℕ) (h : n≠oi.nbrSelf) :
    (oi.setBdr a).nbr n=oi.nbr n := update_of_ne h ..

theorem setDr_self (oi : OspfInterface ι) (a : ℕ) :
    (oi.setDr a).nbr oi.nbrSelf = {oi.nbr oi.nbrSelf with dRouter := a} :=
  update_self ..

theorem setBdr_self (oi : OspfInterface ι) (a : ℕ) :
    (oi.setBdr a).nbr oi.nbrSelf = {oi.nbr oi.nbrSelf with bdRouter := a} :=
  update_self ..

theorem ospfElectBdr_spec (oi : OspfInterface ι) (el : List ι) :
    ((deputies (members el) (declaresDr oi) (declaresBdr oi)).Nonempty →
      IsBest (rank oi.nbr) (deputies (members el) (declaresDr oi) (declaresBdr oi))
        (ospfElectBdr oi el).2) ∧
    (deputies (members el) (declaresDr oi) (declaresBdr oi) = ∅ →
      IsBest (rank oi.nbr) (notChief (members el) (declaresDr oi)) (ospfElectBdr oi el).2) := by
  let noDrList := el.filter fun n => !(oi.nbr n).isDr
  let bdrList := noDrList.filter fun n => (oi.nbr n).isBdr
  have hno : members noDrList=notChief (members el) (declaresDr oi) := by
    ext n
    simp [members,noDrList,notChief,declaresDr]
  have hbdr : members bdrList=deputies (members el) (declaresDr oi) (declaresBdr oi) := by
    ext n
    simp only [members,bdrList,noDrList,deputies,declaresDr,declaresBdr,mem_filter,
      Set.mem_ofPred_eq,Bool.not_eq_true',Bool.not_eq_true,and_assoc]
  have heq : (ospfElectBdr oi el).2=if bdrList.length > 0 then ospfDrElectionSub oi.nbr bdrList
      else ospfDrElectionSub oi.nbr noDrList := rfl
  rw [heq,←hno,←hbdr]
  constructor
  · rintro ⟨n,hn⟩
    rw [if_pos (length_pos_of_mem hn)]
    exact ospfDrElectionSub_isBest oi.nbr bdrList
  · intro hemp
    have hnil : ¬bdrList.length > 0 := by
      intro hpos
      obtain ⟨n,hn⟩ := exists_mem_of_length_pos hpos
      have hmem : n∈members bdrList := hn
      rw [hemp] at hmem
      exact hmem
    rw [if_neg hnil]
    exact ospfDrElectionSub_isBest oi.nbr noDrList

/-- The two loops are one round of the election. -/
theorem electionRound_spec (h : TableOk oi) (hel : ∀ n∈el, n∈oi.nbrs) :
    ∃ d b, Round (rank oi.nbr) (members el) (declaresDr oi) (declaresBdr oi) d b ∧
      SameTable oi (electionRound oi el) ∧
      (electionRound oi el).dr=addressOf oi.nbr d ∧
      (electionRound oi el).bdr=addressOf oi.nbr b := by
  obtain ⟨hclaimed,hunclaimed⟩ := ospfElectBdr_spec oi el
  let b := (ospfElectBdr oi el).2
  have hmem : ∀ m, b=some m → m∈el := by
    intro m hm
    rcases (deputies (members el) (declaresDr oi) (declaresBdr oi)).eq_empty_or_nonempty
      with hemp | hne
    · exact ((hunclaimed hemp).mem hm).1
    · exact ((hclaimed hne).mem hm).1
  let oi1 := oi.setBdr (addressOf oi.nbr b)
  have hsame1 : ∀ n, (oi1.nbr n).address=(oi.nbr n).address ∧
      (oi1.nbr n).isDr=(oi.nbr n).isDr ∧ rank oi1.nbr n=rank oi.nbr n := by
    intro n
    by_cases hn : n=oi.nbrSelf
    · rw [hn,rank,setBdr_self]
      exact ⟨rfl,rfl,rfl⟩
    rw [rank,setBdr_of_ne oi _ hn]
    exact ⟨rfl,rfl,rfl⟩
  have hbdr1 : oi1.bdr=addressOf oi.nbr b := by
    rw [OspfInterface.bdr,show oi1.nbrSelf=oi.nbrSelf from rfl,setBdr_self]
  -- the neighbour with the address of the backup router is the elected one
  have hlk : el.foldl (fun acc n => if oi1.bdr=(oi1.nbr n).address then some n else acc)
      none=b := by
    refine foldl_lookup (fun n hn => ?_) hmem
    rw [hbdr1,(hsame1 n).1,eq_comm]
    exact h.addressOf_eq_iff (fun m hm => hel m (hmem m hm)) (hel n hn)
  let drList := el.filter fun n => (oi1.nbr n).isDr
  let d := if drList.length > 0 then ospfDrElectionSub oi1.nbr drList else b
  have hd : (ospfElectDr oi1 el).2=d := by rw [ospfElectDr,hlk]
  have hdrs : members drList=chiefs (members el) (declaresDr oi) := by
    ext n
    simp [members,drList,chiefs,declaresDr,(hsame1 n).2.1]
  have hrank : rank oi1.nbr=rank oi.nbr := funext fun n => (hsame1 n).2.2
  have hrd : electionRound oi el=oi1.setDr (addressOf oi1.nbr d) := by
    rw [←hd]
    rfl
  have haddr : ∀ o, addressOf oi1.nbr o=addressOf oi.nbr o := by
    intro o
    cases o with
    | none => rfl
    | some n => exact (hsame1 n).1
  have hdr : (electionRound oi el).dr=addressOf oi.nbr d := by
    rw [hrd,OspfInterface.dr,show (oi1.setDr (addressOf oi1.nbr d)).nbrSelf=oi1.nbrSelf
      from rfl,setDr_self,haddr]
  have hbdr : (electionRound oi el).bdr=addressOf oi.nbr b := by
    rw [hrd,OspfInterface.bdr,show (oi1.setDr (addressOf oi1.nbr d)).nbrSelf=oi1.nbrSelf
      from rfl,setDr_self]
    exact hbdr1
  refine ⟨d,b,⟨hclaimed,hunclaimed,?_,?_⟩,⟨?_,?_,?_,?_⟩,hdr,hbdr⟩
  · rintro ⟨n,hn⟩
    rw [←hdrs] at hn ⊢
    have hpos : drList.length > 0 := length_pos_of_mem hn
    rw [show d=ospfDrElectionSub oi1.nbr drList from if_pos hpos,←hrank]
    exact ospfDrElectionSub_isBest oi1.nbr drList
  · intro hemp
    refine if_neg fun hpos => ?_
    obtain ⟨n,hn⟩ := exists_mem_of_length_pos hpos
    have hmem : n∈members drList := hn
    rw [hdrs,hemp] at hmem
    exact hmem
  · rw [hrd]
    rfl
  · rw [hrd]
    rfl
  · intro n hn
    rw [hrd,setDr_of_ne oi1 _ hn,setBdr_of_ne oi _ hn]
  rw [hdr,hbdr,hrd,show oi.nbrSelf=oi1.nbrSelf from rfl,setDr_self,
    show oi1.nbrSelf=oi.nbrSelf from rfl,setBdr_self,haddr]

theorem SameTable.claims (hs : SameTable oi oi') (h : TableOk oi) {d b : Option ι}
    (hd : ∀ m, d=some m → m∈oi.nbrs) (hb : ∀ m, b=some m → m∈oi.nbrs)
    (hdr : oi'.dr=addressOf oi.nbr d) (hbdr : oi'.bdr=addressOf oi.nbr b) :
    declaresDr oi'=claim oi.nbrSelf (declaresDr oi) d ∧
      declaresBdr oi'=claim oi.nbrSelf (declaresBdr oi) b := by
  constructor
  · funext n
    by_cases hn : n=oi.nbrSelf
    · rw [hn,eq_iff_iff,claim_self,←h.addressOf_eq_iff hd h.self,←hdr,declaresDr,hs.self,
        OspfNeighbor.isDr,beq_iff_eq]
    · rw [eq_iff_iff,claim_of_ne _ _ hn,declaresDr,declaresDr,hs.others n hn]
  · funext n
    by_cases hn : n=oi.nbrSelf
    · rw [hn,eq_iff_iff,claim_self,←h.addressOf_eq_iff hb h.self,←hbdr,declaresBdr,hs.self,
        OspfNeighbor.isBdr,beq_iff_eq]
    · rw [eq_iff_iff,claim_of_ne _ _ hn,declaresBdr,declaresBdr,hs.others n hn]

/-- The outcome of an election: of the first round, or of the round that follows. -/
structure Outcome (oi : OspfInterface ι) (d b d' b' : Option ι) : Prop where
  /-- The first round elects `d` and `b`. -/
  first : Round (rank oi.nbr) (eligible oi) (declaresDr oi) (declaresBdr oi) d b
  /-- The final values are `d'` and `b'`. -/
  dr : (ospfDrElection oi).oi.dr=addressOf oi.nbr d'
  /-- The final values are `d'` and `b'`. -/
  bdr : (ospfDrElection oi).oi.bdr=addressOf oi.nbr b'
  /-- They are those of the first round, which then is the last, or of a second one. -/
  final : (d'=d ∧ b'=b ∧ repeats (ospfDrElection oi).newState oi.state=false) ∨
    Round (rank oi.nbr) (eligible oi) (claim oi.nbrSelf (declaresDr oi) d)
      (claim oi.nbrSelf (declaresBdr oi) b) d' b'

omit [DecidableEq ι] in
/-- The eligible routers are neighbours, also after the first round. -/
theorem eligible_mem (hs : SameTable oi oi') : ∀ n∈ospfDrEligibleRouters oi, n∈oi'.nbrs :=
  fun n hn => hs.nbrs ▸ (mem_eligible.mp hn).1

theorem ospfDrElection_sameTable (h : TableOk oi) : SameTable oi (ospfDrElection oi).oi := by
  obtain ⟨d,b,_,hs,_,_⟩ := electionRound_spec h fun n hn => (mem_eligible.mp hn).1
  have heq : (ospfDrElection oi).oi =
      if repeats (ospfIsmState (electionRound oi (ospfDrEligibleRouters oi))) oi.state then
        electionRound (electionRound oi (ospfDrEligibleRouters oi)) (ospfDrEligibleRouters oi)
      else electionRound oi (ospfDrEligibleRouters oi) := rfl
  rw [heq]
  split
  · obtain ⟨_,_,_,hs2,_,_⟩ := electionRound_spec (hs.tableOk h) (eligible_mem hs)
    exact hs.trans hs2
  · exact hs

theorem ospfDrElection_outcome (h : TableOk oi) : ∃ d b d' b', Outcome oi d b d' b' := by
  have hel : ∀ n∈ospfDrEligibleRouters oi, n∈oi.nbrs := fun n hn => (mem_eligible.mp hn).1
  obtain ⟨d,b,hrd,hs,hdr,hbdr⟩ := electionRound_spec h hel
  by_cases hrep : repeats (ospfIsmState (electionRound oi (ospfDrEligibleRouters oi))) oi.state=true
  · obtain ⟨d',b',hrd',hs',hdr',hbdr'⟩ := electionRound_spec (hs.tableOk h) (eligible_mem hs)
    have heq : (ospfDrElection oi).oi=electionRound
        (electionRound oi (ospfDrEligibleRouters oi)) (ospfDrEligibleRouters oi) := if_pos hrep
    obtain ⟨hd,hb⟩ := Round.members_of hrd hel
    obtain ⟨hclaim,hclaim'⟩ := hs.claims h hd hb hdr hbdr
    rw [hs.rank_eq,hclaim,hclaim'] at hrd'
    rw [hs.addressOf_eq] at hdr' hbdr'
    exact ⟨d,b,d',b',hrd,by rw [heq,hdr'],by rw [heq,hbdr'],Or.inr hrd'⟩
  rw [Bool.not_eq_true] at hrep
  have heq : (ospfDrElection oi).oi=electionRound oi (ospfDrEligibleRouters oi) :=
    if_neg (by rw [hrep]; exact Bool.false_ne_true)
  refine ⟨d,b,d,b,hrd,by rw [heq,hdr],by rw [heq,hbdr],Or.inl ⟨rfl,rfl,?_⟩⟩
  have hstate : (ospfDrElection oi).newState=ospfIsmState (ospfDrElection oi).oi := rfl
  rw [hstate,heq]
  exact hrep

theorem Outcome.final_mem {d b d' b' : Option ι} (h : Outcome oi d b d' b') :
    (∀ m, d'=some m → m∈eligible oi) ∧ (∀ m, b'=some m → m∈eligible oi) := by
  rcases h.final with ⟨rfl,rfl,_⟩|hrd
  · exact ⟨fun m hm => h.first.chief_mem hm,fun m hm => (h.first.deputy_mem hm).1⟩
  · exact ⟨fun m hm => hrd.chief_mem hm,fun m hm => (hrd.deputy_mem hm).1⟩

section

variable (h : TableOk oi)
include h

theorem ospfDrElection_priority : ((ospfDrElection oi).oi.dr=0 ∨
      ∃ n∈oi.nbrs, 0<(oi.nbr n).priority ∧ (ospfDrElection oi).oi.dr=(oi.nbr n).address) ∧
    ((ospfDrElection oi).oi.bdr=0 ∨
      ∃ n∈oi.nbrs, 0<(oi.nbr n).priority ∧ (ospfDrElection oi).oi.bdr=(oi.nbr n).address) := by
  obtain ⟨d,b,d',b',ho⟩ := ospfDrElection_outcome h
  obtain ⟨hd,hb⟩ := ho.final_mem
  have hpos : ∀ n∈eligible oi, n∈oi.nbrs ∧ 0<(oi.nbr n).priority := by
    intro n hn
    obtain ⟨hmem,hel⟩ := mem_eligible.mp hn
    simp only [OspfNeighbor.eligible,Bool.and_eq_true,decide_eq_true_eq] at hel
    exact ⟨hmem,hel.1.2⟩
  rw [ho.dr,ho.bdr]
  constructor
  · cases hd' : d' with
    | none => exact Or.inl rfl
    | some n => exact Or.inr ⟨n,(hpos n (hd n hd')).1,(hpos n (hd n hd')).2,rfl⟩
  · cases hb' : b' with
    | none => exact Or.inl rfl
    | some n => exact Or.inr ⟨n,(hpos n (hb n hb')).1,(hpos n (hb n hb')).2,rfl⟩

theorem ospfDrElection_not_both (hstate : StateOk oi) :
    ¬((ospfDrElection oi).oi.dr=oi.address ∧ (ospfDrElection oi).oi.bdr=oi.address) := by
  obtain ⟨d,b,d',b',ho⟩ := ospfDrElection_outcome h
  obtain ⟨hd,hb⟩ := ho.final_mem
  rintro ⟨hdr,hbdr⟩
  have hs := ospfDrElection_sameTable h
  have hnewState : (ospfDrElection oi).newState=.dr := by
    have haddr : (ospfDrElection oi).oi.address=oi.address := by
      rw [OspfInterface.address,hs.nbrSelf,hs.address]
      rfl
    exact if_pos (hdr.trans haddr.symm)
  rw [ho.dr] at hdr
  rw [ho.bdr] at hbdr
  have hd' := (h.addressOf_eq_iff (fun m hm => (mem_eligible.mp (hd m hm)).1) h.self).mp hdr.symm
  have hb' := (h.addressOf_eq_iff (fun m hm => (mem_eligible.mp (hb m hm)).1) h.self).mp hbdr.symm
  rcases ho.final with ⟨rfl,rfl,hrep⟩|hrd
  · rw [hnewState] at hrep
    have hold : oi.state=.dr := by
      cases hold : oi.state <;> rw [hold] at hrep <;> first | rfl | cases hrep
    have hself : declaresDr oi oi.nbrSelf := beq_iff_eq.mpr (hstate hold).symm
    exact (ho.first.deputy_mem hb').2 hself
  · exact ho.first.second_not_both hrd h.rank_injOn ⟨hd',hb'⟩

theorem electionRound_congr {el' : List ι} (h' : TableOk oi') (hel : ∀ n∈el, n∈oi.nbrs)
    (hel' : ∀ n∈el', n∈oi'.nbrs) (hinj : Set.InjOn (rank oi.nbr) (members el))
    (hself : oi'.nbrSelf=oi.nbrSelf) (hnbr : oi'.nbr=oi.nbr) (hmem : members el'=members el) :
    (electionRound oi' el').nbr=(electionRound oi el).nbr := by
  obtain ⟨d,b,hrd,hs,hdr,hbdr⟩ := electionRound_spec h hel
  obtain ⟨d',b',hrd',hs',hdr',hbdr'⟩ := electionRound_spec h' hel'
  have hchief : declaresDr oi'=declaresDr oi := by
    funext n
    rw [declaresDr,declaresDr,hnbr]
  have hdeputy : declaresBdr oi'=declaresBdr oi := by
    funext n
    rw [declaresBdr,declaresBdr,hnbr]
  rw [hnbr,hmem,hchief,hdeputy] at hrd'
  obtain ⟨rfl,rfl⟩ := hrd'.unique hrd hinj
  funext n
  by_cases hn : n=oi.nbrSelf
  · have hs1 := hs'.self
    rw [hself,hnbr,hdr',hbdr',hnbr,←hdr,←hbdr] at hs1
    rw [hn,hs1,hs.self]
  · rw [hs'.others n (hself ▸ hn),hs.others n hn,hnbr]

/-- The result of the election does not depend on the order of the table. -/
theorem ospfDrElection_perm {l : List ι} (hl : l.Perm oi.nbrs) :
    (ospfDrElection {oi with nbrs := l}).newState=(ospfDrElection oi).newState ∧
    (ospfDrElection {oi with nbrs := l}).oi.nbr=(ospfDrElection oi).oi.nbr := by
  let oi' : OspfInterface ι := {oi with nbrs := l}
  have h' : TableOk oi' := ⟨hl.mem_iff.mpr h.self,
    fun m hm n hn => h.ids m (hl.mem_iff.mp hm) n (hl.mem_iff.mp hn),
    fun m hm n hn => h.addresses m (hl.mem_iff.mp hm) n (hl.mem_iff.mp hn),
    fun n hn => h.nonzero n (hl.mem_iff.mp hn)⟩
  have hel : ∀ n∈ospfDrEligibleRouters oi, n∈oi.nbrs := fun n hn => (mem_eligible.mp hn).1
  have hel' : ∀ n∈ospfDrEligibleRouters oi', n∈oi'.nbrs := fun n hn => (mem_eligible.mp hn).1
  have hmem : members (ospfDrEligibleRouters oi')=members (ospfDrEligibleRouters oi) := by
    ext n
    exact (hl.filter _).mem_iff
  have hfst := electionRound_congr h h' hel hel' h.rank_injOn rfl rfl hmem
  obtain ⟨_,_,_,hs,_,_⟩ := electionRound_spec h hel
  obtain ⟨_,_,_,hs',_,_⟩ := electionRound_spec h' hel'
  have hselves : (electionRound oi' (ospfDrEligibleRouters oi')).nbrSelf =
      (electionRound oi (ospfDrEligibleRouters oi)).nbrSelf := rfl
  have hsecond := electionRound_congr (hs.tableOk h) (hs'.tableOk h')
    (fun n hn => by rw [hs.nbrs]; exact hel n hn) (fun n hn => by rw [hs'.nbrs]; exact hel' n hn)
    (by rw [hs.rank_eq]; exact h.rank_injOn) hselves hfst hmem
  have hstate : ∀ {a b : OspfInterface ι}, a.nbrSelf=b.nbrSelf → a.nbr=b.nbr →
      ospfIsmState a=ospfIsmState b := by
    intro a b hself hnbr
    cases a
    cases b
    subst hself hnbr
    rfl
  have hfirstState := hstate hselves hfst
  have hnbr : (ospfDrElection oi').oi.nbr=(ospfDrElection oi).oi.nbr := by
    simp only [ospfDrElection]
    rw [hfirstState]
    split
    · exact hsecond
    · exact hfst
  have hself :=
    (ospfDrElection_sameTable h').nbrSelf.trans (ospfDrElection_sameTable h).nbrSelf.symm
  exact ⟨hstate hself hnbr,hnbr⟩

end

/-- The states of an interface that starts in another state than DR. Between the events the table of
neighbours changes, in the own entry the priority and the router id. -/
inductive Reachable : OspfInterface ι→Prop where
  | start (oi : OspfInterface ι) : oi.state=.down → Reachable oi
  | event (oi : OspfInterface ι) (type : IfType) (ev : IsmEvent) :
    Reachable oi → Reachable (ospfIsmEvent oi type ev)
  | neighbours (oi : OspfInterface ι) (nbr : ι→OspfNeighbor) (nbrs : List ι) :
    Reachable oi → (nbr oi.nbrSelf).address=(oi.nbr oi.nbrSelf).address →
    (nbr oi.nbrSelf).dRouter=(oi.nbr oi.nbrSelf).dRouter →
    Reachable {oi with nbr := nbr,nbrs := nbrs}

theorem ospfDrElection_stateOk (oi : OspfInterface ι) :
    StateOk {(ospfDrElection oi).oi with state := (ospfDrElection oi).newState} := by
  intro hstate
  have hism : ospfIsmState (ospfDrElection oi).oi=.dr := hstate
  unfold ospfIsmState at hism
  split at hism
  · rename_i hdr
    exact hdr
  · split at hism <;> cases hism

theorem ospfIsmEvent_stateOk (h : StateOk oi) (type : IfType) (ev : IsmEvent) :
    StateOk (ospfIsmEvent oi type ev) := by
  have hoth : ∀ {oi' : OspfInterface ι} {s : IsmState}, s ≠ .dr →
      StateOk {oi' with state := s} := fun hs hc => absurd hc hs
  cases ev with
  | noEvent => exact hoth (by decide)
  | interfaceUp =>
    simp only [ospfIsmEvent]
    split
    · refine hoth ?_
      unfold ismInterfaceUp
      split
      · decide
      · split <;> decide
    · exact h
  | waitTimer | backupSeen =>
    simp only [ospfIsmEvent]
    split
    · exact ospfDrElection_stateOk oi
    · exact h
  | neighborChange =>
    simp only [ospfIsmEvent]
    split
    · exact ospfDrElection_stateOk oi
    · exact ospfDrElection_stateOk oi
    · exact ospfDrElection_stateOk oi
    · exact h
  | loopInd =>
    simp only [ospfIsmEvent]
    split
    · exact h
    · exact hoth (by decide)
  | unloopInd =>
    simp only [ospfIsmEvent]
    split
    · exact hoth (by decide)
    · exact h
  | interfaceDown =>
    simp only [ospfIsmEvent]
    split
    · exact h
    · exact hoth (by decide)

theorem Reachable.stateOk (h : Reachable oi) : StateOk oi := by
  induction h with
  | start oi hdown =>
    intro hdr
    rw [hdown] at hdr
    cases hdr
  | event oi type ev _ ih => exact ospfIsmEvent_stateOk ih type ev
  | neighbours oi nbr nbrs _ haddr hrouter ih =>
    intro hdr
    have hown : (nbr oi.nbrSelf).dRouter=(nbr oi.nbrSelf).address := by
      rw [hrouter,haddr]
      exact ih hdr
    exact hown

end

/-- The routers of one network with what each declares. -/
structure Network (ι : Type u) where
  nbr : ι→OspfNeighbor
  state : ι→IsmState
  nbrs : ι→List ι
  seen : ι→ι→NsmState

def Network.view (net : Network ι) (x : ι) : OspfInterface ι where
  state := net.state x
  nbrSelf := x
  nbr := fun y => {net.nbr y with state := net.seen x y}
  nbrs := net.nbrs x

/-- The routers have their own ids and addresses and see each other 2-Way. -/
structure NetworkOk (net : Network ι) : Prop where
  ids : ∀ x y, (net.nbr x).routerId=(net.nbr y).routerId → x=y
  addresses : ∀ x y, (net.nbr x).address=(net.nbr y).address → x=y
  nonzero : ∀ x, (net.nbr x).address≠0
  tables : ∀ x y, y∈net.nbrs x
  seen : ∀ x y, NsmState.twoWay.code≤(net.seen x y).code

section

variable {net : Network ι} {x y : ι}

theorem NetworkOk.tableOk (h : NetworkOk net) (x : ι) : TableOk (net.view x) :=
  ⟨h.tables x x,fun m _ n _ he => h.ids m n he,fun m _ n _ he => h.addresses m n he,
    fun n _ => h.nonzero n⟩

theorem NetworkOk.eligible_view (h : NetworkOk net) (x : ι) :
    eligible (net.view x) = {n | (net.nbr n).routerId≠0 ∧ 0<(net.nbr n).priority} := by
  ext n
  rw [mem_eligible]
  have hseen := h.seen x n
  have htable := h.tables x n
  simp only [Network.view,OspfNeighbor.eligible,hseen,htable,Bool.and_eq_true,bne_iff_ne,
    decide_true,true_and,and_true]
  exact and_congr_right fun _ => ⟨fun hp => of_decide_eq_true hp,fun hp => decide_eq_true hp⟩

variable [DecidableEq ι]

/-- What each router declares is what its own election yields. -/
def Stable (net : Network ι) : Prop := ∀ x,
  (ospfDrElection (net.view x)).oi.dr=(net.nbr x).dRouter ∧
  (ospfDrElection (net.view x)).oi.bdr=(net.nbr x).bdRouter

/-- The first round of every router, in what the routers declare. -/
def FirstRound (net : Network ι) (d b : Option ι) : Prop :=
  Round (rank net.nbr) {n | (net.nbr n).routerId≠0 ∧ 0<(net.nbr n).priority}
    (fun n => (net.nbr n).isDr=true) (fun n => (net.nbr n).isBdr=true) d b

theorem Stable.declares_first (hstable : Stable net) (h : NetworkOk net) (x : ι) :
    ∃ d b, FirstRound net d b ∧ (net.nbr x).dRouter=addressOf net.nbr d ∧
      (net.nbr x).bdRouter=addressOf net.nbr b := by
  have ht := h.tableOk x
  obtain ⟨d,b,d',b',ho⟩ := ospfDrElection_outcome ht
  obtain ⟨hdr,hbdr⟩ := hstable x
  obtain ⟨hd,hb⟩ := ho.final_mem
  have haddr : ∀ o, addressOf (net.view x).nbr o=addressOf net.nbr o := by
    intro o
    cases o <;> rfl
  rw [ho.dr,haddr] at hdr
  rw [ho.bdr,haddr] at hbdr
  have hsame : d'=d ∧ b'=b := by
    rcases ho.final with ⟨hd',hb',_⟩|hrd
    · exact ⟨hd',hb'⟩
    refine ho.first.second_eq_first hrd ht.rank_injOn ?_ ?_
    · rw [←ht.addressOf_eq_iff (fun m hm => (mem_eligible.mp (hd m hm)).1) ht.self,haddr,hdr]
      exact beq_iff_eq
    rw [←ht.addressOf_eq_iff (fun m hm => (mem_eligible.mp (hb m hm)).1) ht.self,haddr,hbdr]
    exact beq_iff_eq
  have hfst := ho.first
  rw [h.eligible_view x] at hfst
  exact ⟨d,b,hfst,by rw [←hdr,hsame.1],by rw [←hbdr,hsame.2]⟩

/-- Routers with stable declared values agree on two different routers. -/
theorem Stable.agreement (hstable : Stable net) (h : NetworkOk net) : ∃ dr bdr,
    (∀ x, (net.nbr x).dRouter=dr ∧ (net.nbr x).bdRouter=bdr) ∧
    (dr=bdr → dr=0 ∧ bdr=0) ∧
    (dr=0 ∨ ∃ x, (net.nbr x).address=dr ∧ 0<(net.nbr x).priority) ∧
    (∀ x, (ospfDrElection (net.view x)).newState=.dr ↔ (net.nbr x).address=dr) := by
  rcases isEmpty_or_nonempty ι with hemp|⟨⟨x0⟩⟩
  · exact ⟨0,0,fun x => hemp.elim x,fun _ => ⟨rfl,rfl⟩,Or.inl rfl,fun x => hemp.elim x⟩
  have hinj : Set.InjOn (rank net.nbr) {n | (net.nbr n).routerId≠0 ∧ 0<(net.nbr n).priority} :=
    fun m _ n _ he => h.ids m n (congrArg (fun r => (ofLex r).2) he)
  obtain ⟨d,b,hrd,_,_⟩ := hstable.declares_first h x0
  have hall : ∀ x, (net.nbr x).dRouter=addressOf net.nbr d ∧
      (net.nbr x).bdRouter=addressOf net.nbr b := by
    intro x
    obtain ⟨d',b',hrd',hd,hb⟩ := hstable.declares_first h x
    obtain ⟨rfl,rfl⟩ := hrd'.unique hrd hinj
    exact ⟨hd,hb⟩
  refine ⟨addressOf net.nbr d,addressOf net.nbr b,hall,?_,?_,?_⟩
  · intro heq
    cases hd : d with
    | none =>
      rw [hd] at heq
      exact ⟨rfl,heq.symm⟩
    | some m =>
      cases hb : b with
      | none =>
        rw [hd,hb] at heq
        exact absurd heq (h.nonzero m)
      | some n =>
        rw [hd,hb] at heq
        -- the elected router declares itself and is no candidate for the backup
        have hmn := h.addresses m n heq
        have hdeclares : (net.nbr m).isDr=true := by
          rw [OspfNeighbor.isDr,beq_iff_eq,(hall m).1,hd]
          rfl
        exact absurd hdeclares (hrd.deputy_mem (hmn ▸ hb)).2
  · cases hd : d with
    | none => exact Or.inl rfl
    | some m => exact Or.inr ⟨m,rfl,(hrd.chief_mem hd).2⟩
  · intro x
    have ht := h.tableOk x
    have hs := ospfDrElection_sameTable ht
    have hdr := (hstable x).1.trans (hall x).1
    have haddr : (ospfDrElection (net.view x)).oi.address=(net.nbr x).address := by
      rw [OspfInterface.address,hs.nbrSelf,hs.address]
      rfl
    change ospfIsmState (ospfDrElection (net.view x)).oi=.dr ↔ _
    rw [ospfIsmState,hdr,haddr]
    constructor
    · intro hstate
      split at hstate
      · rename_i heq
        exact heq.symm
      · split at hstate <;> cases hstate
    · intro heq
      rw [if_pos heq.symm]

/-- The election does not depend on the order of the table and elects only routers with a priority
above 0, never the calculating one twice; and if every router declares its own outcome, all declare
the same two, these differ unless there is none, and exactly the elected one is in state DR. -/
theorem dr_election_agrees : (∀ oi : OspfInterface ι, TableOk oi → (∀ l : List ι, l.Perm oi.nbrs →
        (ospfDrElection {oi with nbrs := l}).newState=(ospfDrElection oi).newState ∧
        (ospfDrElection {oi with nbrs := l}).oi.nbr=(ospfDrElection oi).oi.nbr) ∧
      ((ospfDrElection oi).oi.dr=0 ∨ ∃ n∈oi.nbrs, 0<(oi.nbr n).priority ∧
        (ospfDrElection oi).oi.dr=(oi.nbr n).address) ∧
      ((ospfDrElection oi).oi.bdr=0 ∨ ∃ n∈oi.nbrs, 0<(oi.nbr n).priority ∧
        (ospfDrElection oi).oi.bdr=(oi.nbr n).address) ∧
      (StateOk oi →
        ¬((ospfDrElection oi).oi.dr=oi.address ∧ (ospfDrElection oi).oi.bdr=oi.address))) ∧
    (∀ oi : OspfInterface ι, Reachable oi → StateOk oi) ∧
    (∀ net : Network ι, NetworkOk net → Stable net → ∃ dr bdr,
      (∀ x, (net.nbr x).dRouter=dr ∧ (net.nbr x).bdRouter=bdr) ∧
      (dr=bdr → dr=0 ∧ bdr=0) ∧
      (dr=0 ∨ ∃ x, (net.nbr x).address=dr ∧ 0<(net.nbr x).priority) ∧
      (∀ x, (ospfDrElection (net.view x)).newState=.dr ↔ (net.nbr x).address=dr)) := by
  refine ⟨fun oi h => ⟨fun l hl => ospfDrElection_perm h hl,?_,?_,?_⟩,
    fun oi h => h.stateOk,fun net h hstable => hstable.agreement h⟩
  · exact (ospfDrElection_priority h).1
  · exact (ospfDrElection_priority h).2
  · exact fun hstate => ospfDrElection_not_both h hstate

end

/-- Three routers; the first came up late and is backup despite its priority. -/
def triple : Network (Fin 3) where
  nbr := fun x => ⟨[11,12,13].getD x 0,[1,2,3].getD x 0,[9,5,0].getD x 0,.twoWay,2,1⟩
  state := fun x => [IsmState.backup,.dr,.drOther].getD x .down
  nbrs := fun x => [[2,0,1],[0,1,2],[1,2,0]].getD x []
  seen := fun _ _ => .full

theorem dr_election_agrees_triple :
    ∃ dr bdr, (∀ x, (triple.nbr x).dRouter=dr ∧ (triple.nbr x).bdRouter=bdr) ∧
      (dr=bdr → dr=0 ∧ bdr=0) ∧
      (dr=0 ∨ ∃ x, (triple.nbr x).address=dr ∧ 0<(triple.nbr x).priority) ∧
      (∀ x, (ospfDrElection (triple.view x)).newState=.dr ↔ (triple.nbr x).address=dr) := by
  have hok : NetworkOk triple := ⟨by decide,by decide,by decide,by decide,by decide⟩
  have hstable : Stable triple := by
    unfold Stable
    decide
  exact dr_election_agrees.2.2 triple hok hstable

end RoutePlatform.DrAgreement
