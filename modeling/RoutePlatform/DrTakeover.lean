import RoutePlatform.DrAgreement
import RoutePlatform.OperationRuns

/-!
# Elections while hellos are under way

Every router elects from its own table, which lags behind what the others declare. Once two routers
hold the offices, newcomers of any priority leave them there, and a router that loses the designated
one puts the backup in its place.
-/

namespace RoutePlatform.DrTakeover

open OspfStates RankedElection DrElection DrAgreement OperationRuns Function

variable {ι : Type*}

/-- The routers of a network, each with its table, and the hellos they have sent. -/
structure Lan (ι : Type*) where
  oi : ι→OspfInterface ι
  sent : List (ι × OspfNeighbor)

inductive LanOp (ι : Type*) where
  | event (x : ι) (type : IfType) (ev : IsmEvent)
  | hello (x : ι)
  /-- Hellos come in, neighbours time out, the own priority is changed. -/
  | table (x : ι) (nbr : ι→OspfNeighbor) (nbrs : List ι)

def step [DecidableEq ι] (lan : Lan ι) : LanOp ι→Option (Lan ι)
  | .event x type ev => some {lan with oi := update lan.oi x (ospfIsmEvent (lan.oi x) type ev)}
  | .hello x => some {lan with sent := (x,(lan.oi x).nbr x)::lan.sent}
  | .table x nbr nbrs => some {lan with oi := update lan.oi x {lan.oi x with nbr,nbrs}}

/-- The two officers stay up, and who elects sees them. An entry is that of a hello of the
neighbour, however old. -/
def Legal (dr bdr : ι) (lan : Lan ι) : LanOp ι→Prop
  | .event x _ ev => (ev=.interfaceDown → x≠dr ∧ x≠bdr) ∧
    (ev∈[.waitTimer,.backupSeen,.neighborChange] →
      dr∈ospfDrEligibleRouters (lan.oi x) ∧ bdr∈ospfDrEligibleRouters (lan.oi x))
  | .hello _ => True
  | .table x nbr nbrs => x∈nbrs ∧
    nbr x={(lan.oi x).nbr x with priority := (nbr x).priority,state := (nbr x).state} ∧
    ∀ n∈nbrs, n≠x → ∃ m∈lan.sent, m.1=n ∧ nbr n={m.2 with state := (nbr n).state}

/-- An entry of a router: it declares both officers or, unless it is one of them, nobody. -/
structure Says (who : ι→OspfNeighbor) (dr bdr n : ι) (e : OspfNeighbor) : Prop where
  id : e.routerId=(who n).routerId
  address : e.address=(who n).address
  declares : e.dRouter=(who dr).address ∧ e.bdRouter=(who bdr).address ∨
    n≠dr ∧ n≠bdr ∧ e.dRouter=0 ∧ e.bdRouter=0

/-- In the table of a router, whoever declares anything declares the officers. -/
structure SettledAt (who : ι→OspfNeighbor) (dr bdr x : ι) (oi : OspfInterface ι) : Prop where
  self : oi.nbrSelf=x
  mem : x∈oi.nbrs
  entries : ∀ n∈oi.nbrs, Says who dr bdr n (oi.nbr n)

structure Settled (who : ι→OspfNeighbor) (dr bdr : ι) (lan : Lan ι) : Prop where
  tables : ∀ x, SettledAt who dr bdr x (lan.oi x)
  sent : ∀ m∈lan.sent, Says who dr bdr m.1 m.2

/-- The routers have their own ids and addresses, and there are two officers. -/
structure Distinct (who : ι→OspfNeighbor) (dr bdr : ι) : Prop where
  ids : ∀ x y, (who x).routerId=(who y).routerId → x=y
  addresses : ∀ x y, (who x).address=(who y).address → x=y
  nonzero : ∀ x, (who x).address≠0
  officers : dr≠bdr

variable {who : ι→OspfNeighbor} {dr bdr x n : ι} {oi : OspfInterface ι} {e : OspfNeighbor}
  {lan lan' : Lan ι} {ops : List (LanOp ι)}

section

variable (hw : Distinct who dr bdr)
include hw

theorem address_iff {a : ℕ} (h : a=(who x).address ∨ n≠x ∧ a=0) : (who n).address=a ↔ n=x := by
  rcases h with rfl|⟨hn,rfl⟩
  · exact ⟨hw.addresses n x,fun he => he ▸ rfl⟩
  · exact ⟨fun he => absurd he (hw.nonzero n),fun he => absurd he hn⟩

theorem Says.officers (h : Says who dr bdr n e) :
    (e.isDr=true ↔ n=dr) ∧ (e.isBdr=true ↔ n=bdr) := by
  rw [OspfNeighbor.isDr,OspfNeighbor.isBdr,beq_iff_eq,beq_iff_eq,h.address]
  exact ⟨address_iff hw (h.declares.imp And.left fun hn => ⟨hn.1,hn.2.2.1⟩),
    address_iff hw (h.declares.imp And.right fun hn => ⟨hn.2.1,hn.2.2.2⟩)⟩

variable (h : SettledAt who dr bdr x oi)
include h

theorem SettledAt.tableOk : TableOk oi where
  self := h.self ▸ h.mem
  ids m hm n hn he := hw.ids m n ((h.entries m hm).id ▸ (h.entries n hn).id ▸ he)
  addresses m hm n hn he :=
    hw.addresses m n ((h.entries m hm).address ▸ (h.entries n hn).address ▸ he)
  nonzero n hn := (h.entries n hn).address ▸ hw.nonzero n

theorem SettledAt.claims : (∀ n∈eligible oi, declaresDr oi n ↔ n=dr) ∧
    ∀ n∈eligible oi, declaresBdr oi n ↔ n=bdr :=
  forall₂_and.mp fun n hn => (h.entries n (mem_eligible.mp hn).1).officers hw

variable [DecidableEq ι]

theorem SettledAt.elects (hdr : dr∈eligible oi) (hbdr : bdr∈eligible oi) :
    (ospfDrElection oi).oi.dr=(who dr).address ∧ (ospfDrElection oi).oi.bdr=(who bdr).address := by
  obtain ⟨d,b,d',b',ho⟩ := ospfDrElection_outcome (h.tableOk hw)
  obtain ⟨hchiefs,hdeputies⟩ := h.claims hw
  have hrd {p q : ι→Prop} {d b : Option ι} (hr : Round (rank oi.nbr) (eligible oi) p q d b)
      (hp : ∀ n∈eligible oi, p n ↔ n=dr) (hq : ∀ n∈eligible oi, q n ↔ n=bdr) :
      d=some dr ∧ b=some bdr := by
    refine ⟨hr.chief_of_only hdr hp,hr.deputy_of_only hbdr fun n hn => ?_⟩
    rw [hp n hn,hq n hn]
    exact ⟨And.right,fun he => ⟨fun hc => hw.officers (hc.symm.trans he),he⟩⟩
  obtain ⟨rfl,rfl⟩ := hrd ho.first hchiefs hdeputies
  have hfinal : d'=some dr ∧ b'=some bdr := by
    rcases ho.final with ⟨rfl,rfl,-⟩|hagain
    · exact ⟨rfl,rfl⟩
    · exact hrd hagain (claim_only _ hchiefs) (claim_only _ hdeputies)
  rw [ho.dr,ho.bdr,hfinal.1,hfinal.2]
  exact ⟨(h.entries dr (mem_eligible.mp hdr).1).address,
    (h.entries bdr (mem_eligible.mp hbdr).1).address⟩

theorem SettledAt.succeeds (hdr : dr∉eligible oi) (hbdr : bdr∈eligible oi) :
    (ospfDrElection oi).oi.dr=(who bdr).address := by
  obtain ⟨d,b,d',b',ho⟩ := ospfDrElection_outcome (h.tableOk hw)
  obtain ⟨hchiefs,hdeputies⟩ := h.claims hw
  have hnobody : ∀ n∈eligible oi, ¬declaresDr oi n := by
    intro n hn hc
    obtain rfl := (hchiefs n hn).mp hc
    exact hdr hn
  obtain rfl := ho.first.deputy_of_only hbdr fun n hn => by
    rw [hdeputies n hn,and_iff_right (hnobody n hn)]
  obtain rfl := ho.first.chief_of_nobody hnobody
  have hfinal : d'=some bdr := by
    rcases ho.final with ⟨rfl,-⟩|hagain
    · rfl
    have hclaim := claim_nobody (m := bdr) oi.nbrSelf hnobody
    -- the backup itself has declared to be designated by now
    by_cases hx : bdr=oi.nbrSelf
    · refine hagain.chief_of_only hbdr fun n hn => ?_
      rw [hclaim n hn,and_iff_left hx]
    have hnone := fun n hn hc => hx ((hclaim n hn).mp hc).2
    rw [hagain.chief_of_nobody hnone]
    refine hagain.deputy_of_only hbdr fun n hn => ?_
    rw [and_iff_right (hnone n hn),claim_only _ hdeputies n hn]
  rw [ho.dr,hfinal]
  exact (h.entries bdr (mem_eligible.mp hbdr).1).address

theorem SettledAt.elected (hdr : dr∈eligible oi) (hbdr : bdr∈eligible oi) :
    SettledAt who dr bdr x (ospfDrElection oi).oi := by
  have hs := ospfDrElection_sameTable (h.tableOk hw)
  obtain ⟨hd,hb⟩ := h.elects hw hdr hbdr
  refine ⟨hs.nbrSelf.trans h.self,hs.nbrs ▸ h.mem,fun n hn => ?_⟩
  rw [hs.nbrs] at hn
  have hsay := h.entries n hn
  by_cases hx : n=oi.nbrSelf
  · subst hx
    rw [hs.self]
    exact ⟨hsay.id,hsay.address,.inl ⟨hd,hb⟩⟩
  · rw [hs.others n hx]
    exact hsay

omit hw in
theorem SettledAt.cleanup (hdr : x≠dr) (hbdr : x≠bdr) :
    SettledAt who dr bdr x (ospfIfCleanup oi) := by
  obtain ⟨rfl,hmem,hall⟩ := h
  refine ⟨rfl,List.mem_singleton_self _,fun n hn => ?_⟩
  obtain rfl := List.mem_singleton.mp hn
  have hsay := hall _ hmem
  change Says who dr bdr _ (update oi.nbr oi.nbrSelf _ oi.nbrSelf)
  rw [update_self]
  exact ⟨hsay.id,hsay.address,.inr ⟨hdr,hbdr,rfl,rfl⟩⟩

omit hw [DecidableEq ι] in
theorem SettledAt.withState (s : IsmState) : SettledAt who dr bdr x {oi with state := s} :=
  ⟨h.self,h.mem,h.entries⟩

end

section

variable [DecidableEq ι] (hw : Distinct who dr bdr)
include hw

theorem SettledAt.event {type : IfType} {ev : IsmEvent} (h : SettledAt who dr bdr x (lan.oi x))
    (hlegal : Legal dr bdr lan (.event x type ev)) :
    SettledAt who dr bdr x (ospfIsmEvent (lan.oi x) type ev) := by
  obtain ⟨hdown,hev⟩ := hlegal
  cases ev with
  | noEvent => exact h.withState _
  | interfaceUp | loopInd | unloopInd =>
    simp only [ospfIsmEvent]
    split <;> exact h.withState _
  | waitTimer | backupSeen | neighborChange =>
    obtain ⟨hdr,hbdr⟩ := hev (by decide)
    simp only [ospfIsmEvent]
    split <;> first | exact (h.elected hw hdr hbdr).withState _ | exact h
  | interfaceDown =>
    simp only [ospfIsmEvent]
    split
    · exact h
    · exact (h.cleanup (hdown rfl).1 (hdown rfl).2).withState _

theorem Settled.preserved {op : LanOp ι} (h : Settled who dr bdr lan) (hlegal : Legal dr bdr lan op)
    (hstep : step lan op=some lan') : Settled who dr bdr lan' := by
  have hupdate {x : ι} {oi : OspfInterface ι} (hx : SettledAt who dr bdr x oi) :
      Settled who dr bdr {lan with oi := update lan.oi x oi} :=
    ⟨(forall_update_iff lan.oi (SettledAt who dr bdr)).mpr ⟨hx,fun y _ => h.tables y⟩,h.sent⟩
  cases op <;> obtain rfl := Option.some.inj hstep
  case event x type ev => exact hupdate ((h.tables x).event hw hlegal)
  case hello x =>
    have hx := h.tables x
    exact ⟨h.tables,List.forall_mem_cons.mpr ⟨hx.entries x hx.mem,h.sent⟩⟩
  case table x nbr nbrs =>
    obtain ⟨hmem,hself,hoths⟩ := hlegal
    refine hupdate ⟨(h.tables x).self,hmem,fun n hn => ?_⟩
    change Says who dr bdr n (nbr n)
    by_cases hx : n=x
    · subst hx
      have hsay := (h.tables n).entries n (h.tables n).mem
      rw [hself]
      exact ⟨hsay.id,hsay.address,hsay.declares⟩
    · obtain ⟨m,hm,rfl,he⟩ := hoths n hn hx
      have hsay := h.sent m hm
      rw [he]
      exact ⟨hsay.id,hsay.address,hsay.declares⟩

variable (h : Settled who dr bdr lan) (hlegal : LegalRun step (Legal dr bdr) lan ops)
  (hrun : run step lan ops=some lan')
include h hlegal hrun

theorem Settled.reached : Settled who dr bdr lan' :=
  run_preserves (fun _ _ _ hs hl hstep => hs.preserved hw hl hstep) ops lan lan' h hlegal hrun

/-- **No preemption.** At every moment exactly the two officers declare themselves, and every table
with both of them elects both again. -/
theorem officers_stay : (∀ x, (((lan'.oi x).nbr x).isDr=true ↔ x=dr) ∧
      (((lan'.oi x).nbr x).isBdr=true ↔ x=bdr)) ∧
    ∀ x, dr∈ospfDrEligibleRouters (lan'.oi x) → bdr∈ospfDrEligibleRouters (lan'.oi x) →
      (ospfDrElection (lan'.oi x)).oi.dr=(who dr).address ∧
      (ospfDrElection (lan'.oi x)).oi.bdr=(who bdr).address := by
  have h' := (h.reached hw hlegal hrun).tables
  exact ⟨fun x => ((h' x).entries x (h' x).mem).officers hw,fun x => (h' x).elects hw⟩

/-- **Succession.** At every moment a table that has lost the designated router but not the backup
elects the backup. -/
theorem backup_succeeds : ∀ x, dr∉ospfDrEligibleRouters (lan'.oi x) →
    bdr∈ospfDrEligibleRouters (lan'.oi x) →
      (ospfDrElection (lan'.oi x)).oi.dr=(who bdr).address :=
  fun x => ((h.reached hw hlegal hrun).tables x).succeeds hw

end

/-- `b` elects, then hears only of `a`. -/
def sampleRun (a b : Fin 3) : List (LanOp (Fin 3)) :=
  [.hello a,.event b .broadcast .neighborChange,.table b (triple.view b).nbr [b,a]]

def sampleStart : Lan (Fin 3) := {oi := triple.view,sent := []}

def sampleEnd (a b : Fin 3) : Lan (Fin 3) :=
  (run step sampleStart (sampleRun a b)).getD sampleStart

theorem sampleStart_settled : Distinct triple.nbr 1 0 ∧ Settled triple.nbr 1 0 sampleStart ∧
    LegalRun step (Legal 1 0) sampleStart (sampleRun 0 2) := by
  refine ⟨⟨by decide,by decide,by decide,by decide⟩,⟨fun x => ⟨rfl,?_,fun _ _ => ?_⟩,?_⟩,
    legalRun_cons trivial rfl (legalRun_cons ⟨by decide,by decide⟩ rfl
      (legalRun_cons ⟨by decide,by decide,by decide⟩ rfl trivial))⟩
  · decide +revert
  · exact ⟨rfl,rfl,.inl ⟨rfl,rfl⟩⟩
  · simp [sampleStart]

theorem officers_stay_sampleRun : (ospfDrElection ((sampleEnd 0 2).oi 0)).oi.dr=2 ∧
    (ospfDrElection ((sampleEnd 0 2).oi 0)).oi.bdr=1 :=
  have ⟨hw,h,hlegal⟩ := sampleStart_settled
  (officers_stay hw h hlegal rfl).2 0 (by decide) (by decide)

theorem backup_succeeds_sampleRun : (ospfDrElection ((sampleEnd 0 2).oi 2)).oi.dr=1 :=
  have ⟨hw,h,hlegal⟩ := sampleStart_settled
  backup_succeeds hw h hlegal rfl 2 (by decide) (by decide)

end RoutePlatform.DrTakeover
