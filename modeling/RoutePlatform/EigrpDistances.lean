import RoutePlatform.EigrpOutcomes

/-!
# EIGRP: the feasible distance of a passive destination

A destination that is passive before and after an event has only had its feasibility condition
tested, if anything. Unless no peer could be queried or an external route is lost, its feasible
distance has not risen, and a route of least metric was feasible.
-/

namespace RoutePlatform.EigrpDual

open List Option

open EigrpItems (U32 inaccess infoCd NetEntry Vmetric)

variable {d : NetEntry} {bucket : U32→ℕ} {kind : PacketKind} {l : List NetEntry} {c : Cell}
  {query : Bool} {n : Ndb} {b : Bool} {n' : Ndb} {e : NetEntry} {c' : Cell}

/-- A test of the feasibility condition at a passive destination. -/
structure FcTest where
  peers : Peers
  ndb : Ndb
  id : ℕ
  query : Bool

def FcTest.Queryable (t : FcTest) : Prop :=
  EigrpDual.Queryable t.peers t.ndb (if t.query then (t.ndb.find t.id).map Rdb.id else none)

/-- The changed route is an external one that this router has brought in. -/
def FcTest.OwnExternal (t : FcTest) (routerId : U32) : Prop :=
  ∃ r, t.ndb.find t.id=some r ∧ r.flagExt=true ∧ r.originRouter=routerId

instance (P : Peers) (n : Ndb) (q : Option ℕ) : Decidable (EigrpDual.Queryable P n q) :=
  inferInstanceAs (Decidable (_ ∧ _))

instance (t : FcTest) : Decidable t.Queryable :=
  inferInstanceAs (Decidable (EigrpDual.Queryable _ _ _))

/-- The test of a packet for a route that has entered a passive destination. -/
def packetTest (P : Peers) (kind : PacketKind) (a : TopoResult) : Option FcTest :=
  match a.drdb with
  | none => none
  | some r =>
    if a.cell.ndb.active then none
    else match kind with
      | .update =>
        if a.updateNeeded ∧ (a.cell.ndb.oldMetric≠inaccess ∨ r.succMetric≠inaccess) then
          some ⟨P,a.cell.ndb,r.id,false⟩
        else none
      | .query =>
        if a.cell.ndb.oldMetric=inaccess ∧ r.succMetric=inaccess then none
        else some ⟨P,a.cell.ndb,r.id,true⟩
      | .reply => none

/-- The test that a route in a packet leads to at a destination. -/
def Router.recvTest (R : Router) (kind : PacketKind) (route : Route) (d : NetEntry) : Option FcTest :=
  if net route.dest=net d then
    (updateTopo R.peers kind (decide (maxRoute<R.topo.length)) (R.find route.dest)
      (R.rtTbl (net route.dest)) route).bind fun a => packetTest R.peers kind a
  else none

/-- The test that the loss of a peer leads to at a destination. -/
def downTest (P : Peers) (p : Peer) (c : Cell) : Option FcTest :=
  match c.ndb.rdb.find? fun r => decide (r.infoSrc=p.source ∧ r.iidb=some p.iidb) with
  | none => none
  | some r =>
    let c := if r.sndReply then cleanupDrdb c r.id false else c
    let n := c.ndb.modify r.id Rdb.lose
    if r.handle≠none ∧ r.handle≠some p.peerHandle then none
    else if !n.active ∧ n.succNum=1 ∧ n.successor.map Rdb.id=some r.id then
      some ⟨P, {n with succNum := 0},r.id,false⟩
    else none

/-- The test of the walk over the table at a destination. -/
def Router.walkTest (p : Peer) (d : NetEntry) : List NetEntry→Router→Option FcTest
  | [], _ => none
  | dest::rest, R =>
    match R.find dest with
    | none => R.walkTest p d rest
    | some n =>
      if net dest=net d then downTest R.peers p (Cell.of n (R.rtTbl (net n.dest)))
      else match peerDownDest R.peers R.routerId p (Cell.of n (R.rtTbl (net n.dest))) with
        | .crash => none
        | .stop _ => none
        | .next c => (R.put c).walkTest p d rest

/-- The events of the algorithm: packets, local routes and lost peers. -/
def Event.computes : Event→Bool
  | .recv _ _ | .conn _ _ | .rtchange _ _ | .peerDown _ _ _ => true
  | _ => false

/-- The test of the feasibility condition by an event at a passive destination. -/
def Router.fcTest (R : Router) (d : NetEntry) : Event→Option FcTest
  | .recv kind route =>
    match route.idb with
    | none => none
    | some i => if (findPeer R.peers route.infoSrc i).isSome then R.recvTest kind route d else none
  | .conn route up => R.recvTest .update (connRoute route up) d
  | .rtchange route up =>
    if up then
      if route.metric=inaccess then none else R.recvTest .update {route with succMetric := 0} d
    else
      match R.find route.dest with
      | none => none
      | some n =>
        match n.lookup route.idb route.nextHop with
        | none => none
        | some _ => R.recvTest .update {route with
            succMetric := inaccess,metric := inaccess
            vecMetric := {route.vecMetric with delay := inaccess}} d
  | .peerDown p _ _ =>
    if p∈R.peers.peerLst then
      ({R with peers := freeHandle R.peers p} : Router).walkTest p d (R.topo.map Ndb.dest)
    else none
  | _ => none

/-- The feasible distance has not risen and a route of least metric was feasible, but for two
exceptions. -/
def FcTest.Safe (t : FcTest) (routerId : U32) (before after : U32) : Prop :=
  t.Queryable → ¬t.OwnExternal routerId →
    after≤before ∧ (before≠inaccess → Feasible t.ndb.rdb before)

/-- Without a test the feasible distance is the same. -/
def SafeDistance (test : Option FcTest) (routerId : U32) (before after : U32) : Prop :=
  match test with
  | none => after=before
  | some t => t.Safe routerId before after

variable {P : Peers} {routerId : U32}

theorem GoesActive.active {drdb : Option ℕ} {r : Rdb} (h : GoesActive P routerId c drdb query r c') :
    c'.ndb.active=true := by
  rw [Ndb.active,h.diffusing.replyStatus]
  exact isSome_iff_ne_none.mpr (active_replyTable _ _)

theorem feasibility_safe {id : ℕ} {a : Bool × Cell} (hpas : c.ndb.active=false)
    (hsized : P.Sized) (h : feasibility P routerId c (some id) query=some a)
    (hafter : a.2.ndb.active=false) :
    (⟨P,c.ndb,id,query⟩ : FcTest).Safe routerId c.ndb.oldMetric a.2.ndb.oldMetric := by
  intro hqueryable hforeign
  obtain ⟨-,hstays⟩|⟨-,r,hact⟩ := feasibility_spec hpas hsized h
  · rcases hstays.oldMetric with ⟨htest,hle⟩|⟨-,r,hr,hown|hnone⟩
    · refine ⟨hle,fun hfinite => ?_⟩
      rcases (testFC_eq_true_iff c.ndb).mp htest with hinf|hfeas
      · exact absurd hinf hfinite
      · exact hfeas
    · exact absurd ⟨r,hr,hown⟩ hforeign
    have hfind : c.ndb.find id=some r := hr
    rw [FcTest.Queryable,hfind] at hqueryable
    exact absurd hqueryable hnone
  rw [hact.active] at hafter
  cases hafter

theorem oldMetric_of_kept (h : n.Kept n') : n'.oldMetric=n.oldMetric :=
  congrArg Core.oldMetric h.core

theorem afterQuery_oldMetric (c : Cell) (fc : Bool) (id : ℕ) :
    (afterQuery c fc id).ndb.oldMetric=c.ndb.oldMetric ∧
      (afterQuery c fc id).ndb.active=c.ndb.active := by
  rw [afterQuery]
  split <;> exact ⟨rfl,rfl⟩

theorem recvPacket_safe {a : TopoResult} (hpas : a.cell.ndb.active=false)
    (hsettled : a.cell.ndb.Settled) (hsized : P.Sized) (h : recvPacket P routerId kind a=some c)
    (hafter : c.ndb.active=false) :
    SafeDistance (packetTest P kind a) routerId a.cell.ndb.oldMetric c.ndb.oldMetric := by
  have hused : a.cell.ndb.replyStatus.used=0 := by
    apply hsettled
    simpa [Ndb.active] using hpas
  unfold packetTest
  cases hr : a.drdb with
  | none =>
    have hsame : c=a.cell := by
      cases kind with
      | update =>
        rw [recvPacket,recvUpdate,hr] at h
        exact (some.inj h).symm
      | query =>
        rw [recvPacket,recvQuery,hr] at h
        exact (some.inj h).symm
      | reply =>
        rw [recvPacket,recvReply,hr] at h
        exact (some.inj h).symm
    rw [hsame]
    rfl
  | some r =>
    dsimp only
    rw [if_neg (by simp [hpas])]
    cases kind with
    | update =>
      rw [recvPacket,recvUpdate,hr] at h
      dsimp only at h ⊢
      split at h
      · rename_i hneeded
        cases h
        rw [if_neg (fun hn => by simp [hn.1] at hneeded)]
        rfl
      rename_i hneeded
      rw [if_pos (by simp [hpas])] at h
      split at h
      · rename_i hmet
        obtain ⟨b,hb,rfl⟩ := map_eq_some_iff.mp h
        rw [if_pos ⟨by simpa using hneeded,hmet⟩]
        exact feasibility_safe hpas hsized hb hafter
      rename_i hmet
      rw [if_neg fun hn => hmet hn.2]
      split at h
      · cases h
        exact oldMetric_of_kept (rdbClear_kept _ _).ndb
      cases h
      rfl
    | query =>
      rw [recvPacket,recvQuery,hr] at h
      dsimp only at h ⊢
      rw [if_pos (by simp [hpas])] at h
      split at h
      · rename_i hinf
        cases h
        rw [if_pos hinf]
        exact oldMetric_of_kept (sendReply_kept _ _).1
      rename_i hfin
      obtain ⟨b,hb,rfl⟩ := map_eq_some_iff.mp h
      obtain ⟨hmet,hact⟩ := afterQuery_oldMetric b.2 b.1 r.id
      rw [if_neg hfin,hmet]
      rw [hact] at hafter
      exact feasibility_safe hpas hsized hb hafter
    | reply =>
      rw [recvPacket,recvReply,hr] at h
      dsimp only at h ⊢
      rw [if_neg (by simp [hused])] at h
      split at h
      · cases h
        exact oldMetric_of_kept (rdbClear_kept _ _).ndb
      cases h
      rfl

variable {p : Peer}

theorem peerDownDest_safe (hpas : c.ndb.active=false) (hsized : P.Sized)
    (h : peerDownDest P routerId p c=.next c' ∨ peerDownDest P routerId p c=.stop c')
    (hafter : c'.ndb.active=false) :
    SafeDistance (downTest P p c) routerId c.ndb.oldMetric c'.ndb.oldMetric := by
  rw [peerDownDest] at h
  rw [downTest]
  cases hr : c.ndb.rdb.find? fun r => decide (r.infoSrc=p.source ∧ r.iidb=some p.iidb) with
  | none =>
    rw [hr] at h
    rw [if_neg (by simp [hpas])] at h
    rcases h with h|h
    · cases h
      rfl
    · cases h
  | some r =>
    rw [hr] at h
    dsimp only at h ⊢
    have hclean : c.Kept (if r.sndReply then cleanupDrdb c r.id false else c) := by
      split
      · exact cleanupDrdb_kept _ _ _
      · exact Cell.Kept.refl c
    generalize (if r.sndReply then cleanupDrdb c r.id false else c)=d at h hclean
    have hdmetric := oldMetric_of_kept hclean.ndb
    have hdpassive := (Ndb.active_of_core hclean.ndb.core).trans hpas
    split at h
    · rename_i hoth
      rw [if_pos hoth]
      rcases h with h|h
      · cases h
      cases h
      exact hdmetric
    rename_i hoth
    rw [if_neg hoth,←hdmetric]
    have hlose : loseRoute P routerId p d r=some c' := by
      cases ho : loseRoute P routerId p d r with
      | none =>
        rw [ho] at h
        rcases h with h|h <;> cases h
      | some e =>
        rw [ho] at h
        rcases h with h|h
        · cases h
          rfl
        · cases h
    have hstill : (d.ndb.modify r.id Rdb.lose).active=false := hdpassive
    rw [loseRoute] at hlose
    rw [if_pos (by rw [hstill]; rfl)] at hlose
    split at hlose
    · rename_i hsucc
      obtain ⟨b,hb,rfl⟩ := map_eq_some_iff.mp hlose
      rw [if_pos ⟨by rw [hstill]; rfl,hsucc⟩]
      exact feasibility_safe (c := {d with
        ndb := {d.ndb.modify r.id Rdb.lose with succNum := 0}}) hdpassive hsized hb hafter
    rename_i hsucc
    cases hlose
    rw [if_neg fun hn => hsucc hn.2]
    have hclear := oldMetric_of_kept
      (rdbClear_kept {d with ndb := d.ndb.modify r.id Rdb.lose} r.id).ndb
    exact hclear

variable {R : Router}

theorem put_find (hR : R.Tidy) {m : Ndb} (hm : R.find e=some m) (hdest : c.ndb.dest=m.dest)
    (hn : (R.put c).find d=some n) : (net d=net e ∧ n=c.ndb) ∨ (net d≠net e ∧ R.find d=some n) := by
  have hce : net c.ndb.dest=net e := by
    rw [hdest]
    exact (findNet_net hm).2
  have hfnd : findNet (replaceNdb c R.topo) (net d)=some n := hn
  rw [findNet_replaceNdb hR.nets,hce] at hfnd
  split at hfnd
  · rename_i heq
    split at hfnd
    · cases hfnd
    obtain ⟨q,-,hq⟩ := map_eq_some_iff.mp hfnd
    exact .inl ⟨heq,hq.symm⟩
  rename_i hne
  exact .inr ⟨hne,hfnd⟩

theorem findNet_insertNdb {l : List Ndb} (hne : net n.dest≠d) :
    findNet (insertNdb bucket n l) d=findNet l d := by
  induction l with
  | nil => exact findNet_cons_neg [] hne
  | cons m l ih =>
    rw [insertNdb]
    split
    · by_cases hm : net m.dest=d
      · rw [findNet_cons_pos _ hm,findNet_cons_pos _ hm]
      · rw [findNet_cons_neg _ hm,findNet_cons_neg _ hm,ih]
    · exact findNet_cons_neg _ hne

theorem find_congr (h : net d=net e) : R.find d=R.find e := by
  rw [Router.find_eq,Router.find_eq,h]

variable {R' : Router}

section

variable (hR : R.Tidy)
include hR

theorem recv_safe {route : Route} (h : R.recv bucket kind route=some R') (hn : R.find d=some n)
    (hn' : R'.find d=some n') (hpas : n.active=false) (hafter : n'.active=false) :
    SafeDistance (R.recvTest kind route d) R.routerId n.oldMetric n'.oldMetric := by
  rw [Router.recv] at h
  rw [Router.recvTest]
  split at h
  · rename_i hnone
    cases h
    rw [hn] at hn'
    cases hn'
    have hsame : SafeDistance none R.routerId n.oldMetric n.oldMetric := rfl
    rw [hnone]
    split <;> exact hsame
  rename_i a ha
  obtain ⟨c,hc,rfl⟩ := map_eq_some_iff.mp h
  have hcore := updateTopo_core ha
  cases hfind : R.find route.dest with
  | none =>
    rw [hfind] at hc hn' hcore
    have hpacket : recvPacket R.peers R.routerId kind a=some c := hc
    have hcdest := (recvPacket_same hR.sized hpacket).dest
    have hadest : a.cell.ndb.dest=route.dest := congrArg Core.dest hcore
    have hne : net route.dest≠net d := by
      intro heq
      rw [find_congr heq] at hfind
      rw [hfind] at hn
      cases hn
    rw [if_neg hne]
    have hcne : net c.ndb.dest≠net d := by
      rw [hcdest,hadest]
      exact hne
    have hoth : findNet (replaceNdb c (insertNdb bucket a.cell.ndb R.topo)) (net d)=some n' := hn'
    have hnets : (nets (insertNdb bucket a.cell.ndb R.topo)).Nodup := by
      refine ((insertNdb_perm bucket a.cell.ndb R.topo).map _).nodup_iff.mpr ?_
      refine nodup_cons.mpr ⟨?_,hR.nets⟩
      dsimp only
      rw [hadest]
      exact findNet_eq_none.mp hfind
    rw [findNet_replaceNdb hnets,if_neg fun heq => hcne heq.symm,
      findNet_insertNdb (by rw [hadest]; exact hne)] at hoth
    have hsame : R.find d=some n' := hoth
    rw [hn] at hsame
    cases hsame
    rfl
  | some m =>
    rw [hfind] at hc hn' hcore ha
    have hpacket : recvPacket R.peers R.routerId kind a=some c := hc
    have hcdest := (recvPacket_same hR.sized hpacket).dest
    have hmdest : a.cell.ndb.dest=m.dest := congrArg Core.dest hcore
    have hputs : (R.put c).find d=some n' := hn'
    rcases put_find hR hfind (hcdest.trans hmdest) hputs with ⟨heq,rfl⟩|⟨hne,hsame⟩
    · rw [if_pos heq.symm,ha,bind_some]
      rw [find_congr heq,hfind] at hn
      cases hn
      have hmet : a.cell.ndb.oldMetric=n.oldMetric := congrArg Core.oldMetric hcore
      have hstatus : a.cell.ndb.replyStatus=n.replyStatus := congrArg Core.replyStatus hcore
      have hacell : a.cell.ndb.active=false := by
        rw [Ndb.active,hstatus]
        exact hpas
      have hsettled : a.cell.ndb.Settled := by
        rw [Ndb.Settled,hstatus]
        exact hR.settled n (findNet_net hfind).1
      rw [←hmet]
      exact recvPacket_safe hacell hsettled hR.sized hpacket hafter
    · rw [if_neg fun heq => hne heq.symm]
      rw [hn] at hsame
      cases hsame
      rfl

theorem xmit_find {e : XmitEvent} (hn' : (R.xmit e).find d=some n') :
    ∃ n, R.find d=some n ∧ n'.core=n.core := by
  rw [Router.xmit] at hn'
  split at hn'
  · exact ⟨n',hn',rfl⟩
  rename_i m hm
  have hkept := e.apply_kept R.peers.activeIntfCnt (R.cell m)
  have hdest : (e.apply R.peers.activeIntfCnt (R.cell m)).ndb.dest=m.dest :=
    congrArg Core.dest hkept.ndb.core
  rcases put_find hR hm hdest hn' with ⟨heq,rfl⟩|⟨-,hsame⟩
  · exact ⟨m,(find_congr heq).trans hm,hkept.ndb.core⟩
  · exact ⟨n',hsame,rfl⟩

theorem flush_find {l : List XmitEvent} (hn' : (l.foldl Router.xmit R).find d=some n') :
    ∃ n, R.find d=some n ∧ n'.core=n.core := by
  induction l generalizing R with
  | nil => exact ⟨n',hn',rfl⟩
  | cons e l ih =>
    have htidy := turns_of_turn (fun _ _ hturn => hturn.tidy) (xmit_turns (fun _ => 0) R e) hR
    obtain ⟨m,hm,hcore⟩ := ih htidy hn'
    obtain ⟨n,hn,hcore'⟩ := xmit_find hR hm
    exact ⟨n,hn,hcore.trans hcore'⟩

theorem walk_passed (hl : net d ∉ l.map net) (h : R.walk p l=some (b,R')) (hn' : R'.find d=some n') :
    R.find d=some n' := by
  induction l generalizing R with
  | nil =>
    cases h
    exact hn'
  | cons dest l ih =>
    rw [map_cons,mem_cons,not_or] at hl
    rw [Router.walk] at h
    split at h
    · exact ih hR hl.2 h
    rename_i m hm
    have hback {c : Cell} (hc : peerDownDest R.peers R.routerId p (R.cell m)=.next c ∨
        peerDownDest R.peers R.routerId p (R.cell m)=.stop c)
        (hfnd : (R.put c).find d=some n') : R.find d=some n' := by
      rcases put_find hR hm (peerDownDest_same hR.sized hc).dest hfnd with ⟨heq,-⟩|⟨-,hsame⟩
      · exact absurd heq hl.1
      · exact hsame
    split at h
    · cases h
    · rename_i c hc
      cases h
      exact hback (.inr hc) hn'
    rename_i c hc
    have htidy := @Turn.tidy (fun _ => 0) _ _ (.dest dest m c hm (.down p c (.inl hc))) hR
    exact hback (.inl hc) (ih htidy hl.2 h)

theorem walk_safe (hl : (l.map net).Nodup) (h : R.walk p l=some (b,R')) (hn : R.find d=some n)
    (hn' : R'.find d=some n') (hpas : n.active=false) (hafter : n'.active=false) :
    SafeDistance (R.walkTest p d l) R.routerId n.oldMetric n'.oldMetric := by
  induction l generalizing R with
  | nil =>
    cases h
    rw [hn] at hn'
    cases hn'
    rfl
  | cons dest l ih =>
    rw [map_cons,nodup_cons] at hl
    rw [Router.walk] at h
    rw [Router.walkTest]
    cases hm : R.find dest with
    | none =>
      rw [hm] at h
      exact ih hR hl.2 h hn
    | some m =>
      rw [hm] at h
      dsimp only at h ⊢
      by_cases hd : net dest=net d
      · rw [if_pos hd]
        rw [find_congr hd,hn] at hm
        cases hm
        have hdown {c : Cell} (hc : peerDownDest R.peers R.routerId p (R.cell n)=.next c ∨
            peerDownDest R.peers R.routerId p (R.cell n)=.stop c)
            (hfnd : (R.put c).find d=some n') :
            SafeDistance (downTest R.peers p (R.cell n)) R.routerId n.oldMetric n'.oldMetric := by
          rcases put_find hR hn (peerDownDest_same hR.sized hc).dest hfnd with ⟨-,rfl⟩|⟨hne,-⟩
          · exact peerDownDest_safe (c := R.cell n) hpas hR.sized hc hafter
          · exact absurd rfl hne
        split at h
        · cases h
        · rename_i c hc
          cases h
          exact hdown (.inr hc) hn'
        rename_i c hc
        have htidy := @Turn.tidy (fun _ => 0) _ _ (.dest d n c hn (.down p c (.inl hc))) hR
        refine hdown (.inl hc) (walk_passed htidy ?_ h hn')
        rw [←hd]
        exact hl.1
      · rw [if_neg hd]
        have hkeep {c : Cell} (hc : peerDownDest R.peers R.routerId p (R.cell m)=.next c ∨
            peerDownDest R.peers R.routerId p (R.cell m)=.stop c) :
            (R.put c).find d=some n := by
          have hcdest := (peerDownDest_same hR.sized hc).dest
          have hcd : net d≠net c.ndb.dest := by
            rw [hcdest]
            intro heq
            exact hd ((findNet_net hm).2.symm.trans heq.symm)
          rw [Router.find_eq,Router.put]
          rw [findNet_replaceNdb hR.nets,if_neg hcd]
          exact hn
        cases hc : peerDownDest R.peers R.routerId p (Cell.of m (R.rtTbl (net m.dest))) with
        | crash =>
          rw [hc] at h
          cases h
        | stop c =>
          rw [hc] at h
          cases h
          have hfnd := hkeep (.inr hc)
          rw [hn'] at hfnd
          cases hfnd
          rfl
        | next c =>
          rw [hc] at h
          have htidy := @Turn.tidy (fun _ => 0) _ _ (.dest dest m c hm (.down p c (.inl hc))) hR
          exact ih htidy hl.2 h (hkeep (.inl hc))

end

variable {R' : Router}

theorem peerDown_safe {before after : List XmitEvent} (hR : R.Tidy)
    (h : R.peerDown p before after=some R') (hn : R.find d=some n) (hn' : R'.find d=some n')
    (hpas : n.active=false) (hafter : n'.active=false) :
    SafeDistance (({R with peers := freeHandle R.peers p} : Router).walkTest p d
      (R.topo.map Ndb.dest)) R.routerId n.oldMetric n'.oldMetric := by
  have hfree : ({R with peers := freeHandle R.peers p} : Router).Tidy :=
    ⟨hR.nets,freeHandle_sized p hR.sized,hR.settled⟩
  have hl : ((R.topo.map Ndb.dest).map net).Nodup := by
    rw [List.map_map]
    exact hR.nets
  rw [Router.peerDown] at h
  split at h
  · cases h
  · rename_i S hwalk
    cases h
    exact walk_safe hfree hl hwalk hn hn' hpas hafter
  rename_i S hwalk
  cases h
  have hS :=
    turns_of_turn (fun _ _ hturn => hturn.tidy) (@walk_turns _ _ (fun _ => 0) _ _ _ hwalk) hfree
  have hT := turns_of_turn (fun _ _ hturn => hturn.tidy) (flush_turns (fun _ => 0) before S) hS
  have hU : ({before.foldl Router.xmit S with
      peers := destroyPeer (before.foldl Router.xmit S).peers p} : Router).Tidy :=
    ⟨hT.nets,destroyPeer_sized p hT.sized,hT.settled⟩
  obtain ⟨u,hu,hcoreu⟩ := flush_find hU hn'
  obtain ⟨s,hs,hcores⟩ := flush_find hS hu
  have hcore := hcoreu.trans hcores
  have hspassive := (Ndb.active_of_core hcore).symm.trans hafter
  have hmet : n'.oldMetric=s.oldMetric := congrArg Core.oldMetric hcore
  rw [hmet]
  exact walk_safe hfree hl hwalk hn hs hpas hspassive

/-- At every router that a run reaches, `EigrpDualTestFC` says yes exactly when the feasible
distance is infinite or a route of least metric is feasible. A destination that stays passive keeps
its feasible distance, unless it was tested; then it has not risen and a route of least metric was
feasible, where a peer could be queried and no external route of the router changed. -/
theorem dualPassive_feasible :
    (∀ n : Ndb, testFC n=true ↔ n.oldMetric=inaccess ∨ Feasible n.rdb n.oldMetric) ∧
    ∀ (bucket : U32 → ℕ) (routerId : U32) (splitHorizon : ℕ → Bool) (es : List Event) (R : Router)
      (e : Event) (R' : Router) (d : NetEntry) (n n' : Ndb),
      run bucket (Router.init routerId splitHorizon) es=some R → e.computes=true →
      step bucket R e=some R' → R.find d=some n → R'.find d=some n' →
      n.active=false → n'.active=false →
      SafeDistance (R.fcTest d e) R.routerId n.oldMetric n'.oldMetric := by
  refine ⟨testFC_eq_true_iff,?_⟩
  intro bucket routerId splitHorizon es R e R' d n n' hrun he hstep hn hn' hpassive hafter
  have hR := run_tidy hrun
  have hidle {S : Router} (hS : some R=some S) (hs : S.find d=some n') :
      SafeDistance none R.routerId n.oldMetric n'.oldMetric := by
    cases hS
    rw [hn] at hs
    cases hs
    rfl
  cases e with
  | recv kind route =>
    rw [step] at hstep
    rw [Router.fcTest]
    cases hidb : route.idb with
    | none =>
      rw [hidb] at hstep
      exact hidle hstep hn'
    | some i =>
      rw [hidb] at hstep
      dsimp only at hstep ⊢
      split at hstep
      · rename_i hpeer
        rw [if_pos hpeer]
        exact recv_safe hR hstep hn hn' hpassive hafter
      rename_i hpeer
      rw [if_neg hpeer]
      exact hidle hstep hn'
  | conn route up => exact recv_safe hR hstep hn hn' hpassive hafter
  | rtchange route up =>
    rw [step,Router.rtchange] at hstep
    rw [Router.fcTest]
    split at hstep
    · rename_i hup
      rw [if_pos hup]
      split at hstep
      · rename_i hinf
        rw [if_pos hinf]
        exact hidle hstep hn'
      rename_i hfin
      rw [if_neg hfin]
      exact recv_safe hR hstep hn hn' hpassive hafter
    rename_i hup
    rw [if_neg hup]
    cases hfind : R.find route.dest with
    | none =>
      rw [hfind] at hstep
      exact hidle hstep hn'
    | some m =>
      rw [hfind] at hstep
      dsimp only at hstep ⊢
      cases hlook : m.lookup route.idb route.nextHop with
      | none =>
        rw [hlook] at hstep
        exact hidle hstep hn'
      | some r =>
        rw [hlook] at hstep
        exact recv_safe hR hstep hn hn' hpassive hafter
  | peerDown p before after =>
    rw [step] at hstep
    rw [Router.fcTest]
    split at hstep
    · rename_i hmem
      rw [if_pos hmem]
      exact peerDown_safe hR hstep hn hn' hpassive hafter
    rename_i hmem
    rw [if_neg hmem]
    exact hidle hstep hn'
  | newPeer source i | unstick dest flush | validate dest | reload dest | lostRoute dest
  | ifDelete i | xmit e => cases he

/-- The network 10.0.0.0/8. -/
def tenNet : NetEntry := ⟨0x0a000000,0xff000000⟩

/-- An external route to 10.0.0.0/8. -/
def tenRoute (idb : Option ℕ) (nextHop metric succMetric : U32) (origin : Origin)
    (originRouter : U32) : Route where
  dest := tenNet
  nextHop := nextHop
  vecMetric := ⟨metric,1000,1500,1,255,1⟩
  metric := metric
  succMetric := succMetric
  flagIgnore := false
  flagExt := true
  data := some fun _ => 0
  opaqueFlag := 0
  originRouter := originRouter
  infoSrc := nextHop
  idb := idb
  origin := origin
  flagKeep := false

/-- A peer has told of a route. -/
def peerRun : List Event := [.newPeer 1 0,.recv .update (tenRoute (some 0) 1 300 200 .eigrp 8)]

/-- A router with a peer brings in an external route, which the peer then knows too. -/
def tenRun : List Event :=
  [.newPeer 1 0,.rtchange (tenRoute none 0 100 0 .redistributed 7) true,
    .recv .update (tenRoute (some 0) 1 300 200 .eigrp 8)]

/-- The event leaves a passive destination passive. -/
def passiveStep (es : List Event) (e : Event) (d : NetEntry) :
    Option (Router × Router × Ndb × Ndb × FcTest) :=
  (run (fun _ => 0) (Router.init 7 fun _ => false) es).bind fun R =>
    (step (fun _ => 0) R e).bind fun R' =>
      (R.find d).bind fun n => (R'.find d).bind fun n' => (R.fcTest d e).map fun t => (R,R',n,n',t)

theorem passiveStep_eq_some {es : List Event} {e : Event} {t : FcTest}
    (h : passiveStep es e d=some (R,R',n,n',t)) :
    run (fun _ => 0) (Router.init 7 fun _ => false) es=some R ∧ step (fun _ => 0) R e=some R' ∧
      R.find d=some n ∧ R'.find d=some n' ∧ R.fcTest d e=some t := by
  obtain ⟨R,hR,h⟩ := bind_eq_some_iff.mp h
  obtain ⟨R',hR',h⟩ := bind_eq_some_iff.mp h
  obtain ⟨n,hn,h⟩ := bind_eq_some_iff.mp h
  obtain ⟨n',hn',h⟩ := bind_eq_some_iff.mp h
  obtain ⟨t,ht,h⟩ := map_eq_some_iff.mp h
  cases h
  exact ⟨hR,hR',hn,hn',ht⟩

/-- The peer offers a better route; the feasible distance falls from 300 to 250. -/
theorem dualPassive_feasible_better :
    ∃ (R R' : Router) (n n' : Ndb), R.find tenNet=some n ∧ R'.find tenNet=some n' ∧
      n.oldMetric=300 ∧ n'.oldMetric=250 ∧ SafeDistance
        (R.fcTest tenNet (.recv .update (tenRoute (some 0) 1 250 150 .eigrp 8))) 7 n.oldMetric
        n'.oldMetric := by
  have hrun : (passiveStep peerRun (.recv .update (tenRoute (some 0) 1 250 150 .eigrp 8))
      tenNet).map (fun s => (s.1.routerId,s.2.2.1.active,s.2.2.2.1.active,s.2.2.1.oldMetric,
        s.2.2.2.1.oldMetric))=some (7,false,false,300,250) := by
    decide +kernel
  obtain ⟨⟨R,R',n,n',t⟩,hs,hfields⟩ := map_eq_some_iff.mp hrun
  obtain ⟨hR,hR',hn,hn',-⟩ := passiveStep_eq_some hs
  simp only [Prod.mk.injEq] at hfields
  obtain ⟨hid,hpassive,hafter,hold,hnew⟩ := hfields
  refine ⟨R,R',n,n',hn,hn',hold,hnew,?_⟩
  rw [←hid]
  exact dualPassive_feasible.2 (fun _ => 0) 7 (fun _ => false) peerRun R _ R' tenNet n n' hR rfl
    hR' hn hn' hpassive hafter

/-- The external route is lost: the destination stays passive at an infinite distance. -/
theorem dualPassive_ownExternal :
    ¬∀ (bucket : U32 → ℕ) (routerId : U32) (splitHorizon : ℕ → Bool) (es : List Event) (R : Router)
      (e : Event) (R' : Router) (d : NetEntry) (n n' : Ndb) (t : FcTest),
      run bucket (Router.init routerId splitHorizon) es=some R → e.computes=true →
      step bucket R e=some R' → R.find d=some n → R'.find d=some n' →
      n.active=false → n'.active=false → R.fcTest d e=some t → t.Queryable →
      n.oldMetric≠inaccess →
      (n'.oldMetric≤n.oldMetric ∨ n'.oldMetric=inaccess ∧ n'.succNum=0) ∧
        ((R'.rtTbl (net d)).isSome=true → Feasible t.ndb.rdb n.oldMetric) := by
  intro h
  have hrun : (passiveStep tenRun (.rtchange (tenRoute none 0 100 0 .redistributed 7) false)
      tenNet).map (fun s => decide (s.2.2.1.active=false ∧ s.2.2.2.1.active=false ∧
        s.2.2.2.2.Queryable ∧ s.2.2.1.oldMetric=100 ∧ (s.2.1.rtTbl (net tenNet)).isSome=true ∧
        s.2.2.2.2.ndb.oldMetric=100 ∧ testFC s.2.2.2.2.ndb=false))=some true := by
    decide +kernel
  obtain ⟨⟨R,R',n,n',t⟩,hs,hfields⟩ := map_eq_some_iff.mp hrun
  obtain ⟨hR,hR',hn,hn',ht⟩ := passiveStep_eq_some hs
  obtain ⟨hpassive,hafter,hqueryable,hold,hrt,htest,hfail⟩ := of_decide_eq_true hfields
  obtain ⟨-,hfeas⟩ := h (fun _ => 0) 7 (fun _ => false) tenRun R _ R' tenNet n n' t hR rfl hR' hn
    hn' hpassive hafter ht hqueryable (by rw [hold]; decide)
  have hmeets := hfeas hrt
  rw [hold,←htest] at hmeets
  rw [(testFC_eq_true_iff t.ndb).mpr (.inr hmeets)] at hfail
  cases hfail

end RoutePlatform.EigrpDual
