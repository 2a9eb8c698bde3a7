import RoutePlatform.EigrpTurns

/-!
# EIGRP: what holds at every router

The networks of the table are distinct, a passive destination waits for no reply, and
the handle arrays of the interfaces are no longer than that of the router.
-/

namespace RoutePlatform.EigrpDual

open List Option

open EigrpItems (U32 inaccess NetEntry)

variable {bucket : U32→ℕ} {kind : PacketKind} {n : Ndb} {query : Bool} {p : Peer} (h : Handle)

theorem testFC_of_infinite (h : n.oldMetric=inaccess) : testFC n=true :=
  (testFC_eq_true_iff n).mpr (.inl h)

variable {P : Peers} {routerId : U32} {c c' : Cell} {drdb : Option ℕ}

/-- The destination stays passive, or starts another computation. -/
theorem transition_spec (hpas : c.ndb.active=false) (hsized : P.Sized)
    (h : transition P routerId c drdb=some c') :
    (∃ f d, StaysPassive P routerId {c with ndb := setFD c.ndb f} drdb false d ∧
      c'=stateAfter d .qoLocal) ∨
    (∃ r d, GoesActive P routerId c drdb false r d ∧
      ((c.ndb.origin=.qoClear ∧ c'=setState d .qoLocal) ∨
        (c.ndb.origin=.qoMulti ∧ c'=setState d .qoSuccs))) := by
  have hinf {a : Bool × Cell}
      (ha : feasibility P routerId {c with ndb := setFD c.ndb inaccess} drdb false=some a) :
      StaysPassive P routerId {c with ndb := setFD c.ndb inaccess} drdb false a.2 := by
    obtain ⟨-,hstays⟩|⟨-,r,hact⟩ := feasibility_spec (c := {c with
      ndb := setFD c.ndb inaccess}) hpas hsized ha
    · exact hstays
    have hfail := hact.infeasible
    rw [testFC_of_infinite rfl] at hfail
    cases hfail
  have hsame {a : Bool × Cell} (ha : feasibility P routerId c drdb false=some a) :
      (a.1=true ∧ StaysPassive P routerId {c with ndb := setFD c.ndb c.ndb.oldMetric} drdb
          false a.2) ∨
        (a.1=false ∧ ∃ r, GoesActive P routerId c drdb false r a.2) :=
    feasibility_spec hpas hsized ha
  rw [transition] at h
  split at h
  · rename_i horg
    obtain ⟨a,ha,rfl⟩ := map_eq_some_iff.mp h
    obtain ⟨-,hstays⟩|⟨-,r,hact⟩ := hsame ha
    · exact .inl ⟨_,a.2,hstays,rfl⟩
    refine .inr ⟨r,a.2,hact,.inl ⟨horg,?_⟩⟩
    rw [stateAfter,if_neg (by simp [hact.diffusing.gone])]
  · rename_i horg
    obtain ⟨a,ha,rfl⟩ := map_eq_some_iff.mp h
    have hstays := hinf ha
    refine .inl ⟨_,a.2,hstays,?_⟩
    have hlocal := hstays.origin.trans horg
    rw [stateAfter]
    split
    · rfl
    · rw [setState,←hlocal]
  · rename_i horg
    obtain ⟨a,ha,rfl⟩ := map_eq_some_iff.mp h
    obtain ⟨htrue,hstays⟩|⟨hfalse,r,hact⟩ := hsame ha
    · rw [htrue]
      exact .inl ⟨_,a.2,hstays,rfl⟩
    refine .inr ⟨r,a.2,hact,.inr ⟨horg,?_⟩⟩
    rw [hfalse,stateAfter,if_neg (by simp [hact.diffusing.gone])]
    rfl
  obtain ⟨a,ha,rfl⟩ := map_eq_some_iff.mp h
  exact .inl ⟨_,a.2,hinf ha,rfl⟩

/-- The destination is the same, and has settled if it had. -/
structure Cell.Same (c c' : Cell) : Prop where
  dest : c'.ndb.dest=c.ndb.dest
  settled : c.ndb.Settled → c'.ndb.Settled

theorem Cell.Same.refl (c : Cell) : c.Same c := ⟨rfl,id⟩

theorem Cell.Same.trans {a b : Cell} (h : a.Same b) (h' : b.Same c) : a.Same c :=
  ⟨h'.dest.trans h.dest,fun ha => h'.settled (h.settled ha)⟩

theorem Cell.Same.of_eq (hdest : c'.ndb.dest=c.ndb.dest)
    (hstatus : c'.ndb.replyStatus=c.ndb.replyStatus) : c.Same c' := by
  refine ⟨hdest,fun h => ?_⟩
  rw [Ndb.Settled,hstatus]
  exact h

theorem Cell.Kept.same (h : c.Kept c') : c.Same c' :=
  .of_eq (congrArg Core.dest h.ndb.core) (congrArg Core.replyStatus h.ndb.core)

theorem StaysPassive.same (h : StaysPassive P routerId c drdb query c') : c.Same c' :=
  .of_eq h.dest h.replyStatus

theorem active_replyTable (P : Peers) (sh : Option ℕ) : (replyTable P sh).array≠none := by
  unfold replyTable
  split <;> exact some_ne_none _

theorem Diffusing.same {queryDrdb : Option ℕ} (h : Diffusing P queryDrdb c c') : c.Same c' := by
  refine ⟨h.dest,fun _ hnone => ?_⟩
  rw [h.replyStatus] at hnone
  exact absurd hnone (active_replyTable _ _)

theorem feasibility_same {a : Bool × Cell} (hpas : c.ndb.active=false) (hsized : P.Sized)
    (h : feasibility P routerId c drdb query=some a) : c.Same a.2 := by
  obtain ⟨-,hstays⟩|⟨-,r,hact⟩ := feasibility_spec hpas hsized h
  · exact hstays.same
  · exact hact.diffusing.same

theorem setState_same (c : Cell) (origin : QueryOrigin) : c.Same (setState c origin) :=
  .of_eq rfl rfl

theorem stateAfter_same (c : Cell) (origin : QueryOrigin) : c.Same (stateAfter c origin) := by
  rw [stateAfter]
  split
  · exact .refl c
  · exact setState_same c origin

theorem transition_same (hpas : c.ndb.active=false) (hsized : P.Sized)
    (h : transition P routerId c drdb=some c') : c.Same c' := by
  obtain ⟨f,d,hstays,rfl⟩|⟨r,d,hact,⟨-,rfl⟩|⟨-,rfl⟩⟩ := transition_spec hpas hsized h
  · have hfst : c.Same {c with ndb := setFD c.ndb f} := .of_eq rfl rfl
    exact (hfst.trans hstays.same).trans (stateAfter_same d _)
  · exact hact.diffusing.same.trans (setState_same d _)
  · exact hact.diffusing.same.trans (setState_same d _)

theorem cleanupReplyStatus_same (hsized : P.Sized)
    (h : cleanupReplyStatus P routerId c drdb=some c') : c.Same c' := by
  rw [cleanupReplyStatus] at h
  split at h
  · have hreset : c.Same {c with
        ndb := {c.ndb with replyStatus := ⟨0,none⟩,shQueryIdb := none}} :=
      ⟨rfl,fun _ _ => rfl⟩
    exact hreset.trans (transition_same rfl hsized h)
  cases h
  exact .refl c

theorem dualClearHandle_same (c : Cell) (handle : Option ℕ) : c.Same (dualClearHandle c handle) := by
  unfold dualClearHandle
  split
  · exact .refl c
  split
  · rename_i h htest
    refine ⟨rfl,fun _ hnone => ?_⟩
    have harray := map_eq_none_iff.mp hnone
    rw [ReplyStatus.toHandle,harray,testHandle] at htest
    simp at htest
  · exact .refl c

theorem sendReply_same (c : Cell) (drdb : Option Rdb) : c.Same (sendReply c drdb) :=
  .of_eq (congrArg Core.dest (sendReply_kept c drdb).1.core)
    (congrArg Core.replyStatus (sendReply_kept c drdb).1.core)

theorem linkRdb_core (n : Ndb) (route : Route) (r : Rdb) : (linkRdb n route r).core=n.core := by
  rw [linkRdb]
  split <;> rfl

theorem takeRdb_core (n : Ndb) (route : Route) : (takeRdb n route).1.core=n.core := by
  rw [takeRdb]
  split
  · rfl
  · exact linkRdb_core _ _ _

theorem updateRdb_core (P : Peers) (c : Cell) (route : Route) :
    (updateRdb P c route).cell.ndb.core=c.ndb.core := by
  have htake := takeRdb_core c.ndb route
  rw [updateRdb]
  dsimp only
  split <;> exact htake

theorem updateTopo_core {full : Bool} {found : Option Ndb} {rt : Option RtInfo} {route : Route}
    {a : TopoResult} (h : updateTopo P kind full found rt route=some a) :
    a.cell.ndb.core=(found.getD (Ndb.create route)).core := by
  rw [updateTopo.eq_def] at h
  split at h
  · split at h
    · cases h
    cases h
    exact updateRdb_core _ _ _
  split at h
  · cases h
  cases h
  exact updateRdb_core _ _ _

variable {a : TopoResult}

theorem recvUpdate_same (hsized : P.Sized) (h : recvUpdate P routerId a=some c) :
    a.cell.Same c := by
  rw [recvUpdate] at h
  split at h
  · cases h
    exact .refl _
  dsimp only at h
  split at h
  · cases h
    exact .refl _
  split at h
  · rename_i hact
    have hpas : a.cell.ndb.active=false := by simpa using hact
    split at h
    · obtain ⟨b,hb,rfl⟩ := map_eq_some_iff.mp h
      exact feasibility_same hpas hsized hb
    split at h
    · cases h
      exact (rdbClear_kept _ _).same
    cases h
    exact .refl _
  split at h
  · split at h
    · cases h
      exact setState_same _ _
    · cases h
      exact setState_same _ _
    · cases h
      exact .refl _
    cases h
    exact .refl _
  cases h
  exact .refl _

theorem afterQuery_same (c : Cell) (fc : Bool) (id : ℕ) : c.Same (afterQuery c fc id) := by
  rw [afterQuery]
  split
  · exact .refl c
  · exact setState_same _ _

section

variable (hsized : P.Sized)
include hsized

theorem recvQuery_same (h : recvQuery P routerId a=some c) : a.cell.Same c := by
  rw [recvQuery] at h
  split at h
  · cases h
    exact .refl _
  dsimp only at h
  split at h
  · rename_i hact
    have hpas : a.cell.ndb.active=false := by simpa using hact
    split at h
    · cases h
      exact sendReply_same _ _
    obtain ⟨b,hb,rfl⟩ := map_eq_some_iff.mp h
    exact (feasibility_same hpas hsized hb).trans (afterQuery_same _ _ _)
  split at h
  · have hstate : a.cell.Same (if a.cell.ndb.origin ≠ .qoSuccs then setState a.cell .qoMulti
        else a.cell) := by
      split
      · exact setState_same _ _
      · exact .refl _
    generalize (if a.cell.ndb.origin ≠ .qoSuccs then setState a.cell .qoMulti
      else a.cell)=d at h hstate
    split at h
    · cases h
      exact hstate.trans (sendReply_same _ _)
    cases h
    exact hstate
  · cases h
    exact sendReply_same _ _

theorem recvReply_same (h : recvReply P routerId a=some c) : a.cell.Same c := by
  have hafter {d d' : Cell} {r : Rdb} (hd : afterReply d r a.created=some d') : d.Same d' := by
    rw [afterReply] at hd
    split at hd
    · split at hd
      · cases hd
      split at hd
      · cases hd
        exact (zapDrdb_kept _ _ _).same
      cases hd
      exact .refl d
    cases hd
    exact .refl d
  rw [recvReply] at h
  split at h
  · cases h
    exact .refl _
  rename_i r hr
  dsimp only at h
  split at h
  · obtain ⟨d,hd,hlast⟩ := bind_eq_some_iff.mp h
    have hclear := (dualClearHandle_same a.cell r.handle).trans (cleanupReplyStatus_same hsized hd)
    exact hclear.trans (hafter hlast)
  split at h
  · cases h
    exact (rdbClear_kept _ _).same
  cases h
  exact .refl _

theorem recvPacket_same (h : recvPacket P routerId kind a=some c) : a.cell.Same c := by
  cases kind with
  | update => exact recvUpdate_same hsized h
  | query => exact recvQuery_same hsized h
  | reply => exact recvReply_same hsized h

theorem loseRoute_same {r : Rdb} (h : loseRoute P routerId p c r=some c') : c.Same c' := by
  rw [loseRoute] at h
  have hlose : c.Same {c with ndb := c.ndb.modify r.id Rdb.lose} := .of_eq rfl rfl
  generalize ({c with ndb := c.ndb.modify r.id Rdb.lose} : Cell)=d at h hlose
  refine hlose.trans ?_
  split at h
  · rename_i hact
    have hpas : d.ndb.active=false := by simpa using hact
    split at h
    · obtain ⟨b,hb,rfl⟩ := map_eq_some_iff.mp h
      have hsucc : d.Same {d with ndb := {d.ndb with succNum := 0}} := .of_eq rfl rfl
      exact hsucc.trans (feasibility_same (c := {d with ndb := {d.ndb with succNum := 0}})
        hpas hsized hb)
    cases h
    exact (rdbClear_kept _ _).same
  refine ((dualClearHandle_same d (some p.peerHandle)).trans ?_).trans
    (cleanupReplyStatus_same hsized h)
  split
  · exact .of_eq rfl rfl
  · exact .refl _

theorem peerDownDest_same
    (h : peerDownDest P routerId p c=.next c' ∨ peerDownDest P routerId p c=.stop c') :
    c.Same c' := by
  have hof {o : Option Cell} (ho : PeerDown.ofOption o=.next c' ∨ PeerDown.ofOption o=.stop c') :
      o=some c' := by
    cases o with
    | none => rcases ho with ho | ho <;> cases ho
    | some d =>
      rcases ho with ho|ho
      · cases ho
        rfl
      · cases ho
  rw [peerDownDest] at h
  split at h
  · rename_i r hr
    have hclean : c.Same (if r.sndReply then cleanupDrdb c r.id false else c) := by
      split
      · exact (cleanupDrdb_kept _ _ _).same
      · exact .refl c
    dsimp only at h
    split at h
    · rcases h with h|h
      · cases h
      cases h
      exact hclean
    · exact hclean.trans (loseRoute_same hsized (hof h))
  · split at h
    · have hstep := cleanupReplyStatus_same hsized (hof h)
      exact (dualClearHandle_same c _).trans hstep
    rcases h with h|h
    · cases h
      exact .refl c
    · cases h

end

variable {R : Router}

/-- What is done to a destination leaves its address, and it has settled if it had. -/
theorem Local.same (hsized : R.peers.Sized) (h : Local R n c) :
    c.ndb.dest=n.dest ∧ (n.Settled → c.ndb.Settled) := by
  have hsame {d : Cell} (hd : (R.cell n).Same d) : d.ndb.dest=n.dest ∧
      (n.Settled → d.ndb.Settled) := ⟨hd.dest,hd.settled⟩
  cases h with
  | xmit e => exact hsame (e.apply_kept _ _).same
  | recv kind full route a c ha hc =>
    have hcore := updateTopo_core ha
    have henter : (R.cell n).Same a.cell :=
      .of_eq (congrArg Core.dest hcore) (congrArg Core.replyStatus hcore)
    exact hsame (henter.trans (recvPacket_same hsized hc))
  | down p c hc => exact hsame (peerDownDest_same hsized hc)
  | clear p => exact hsame (dualClearHandle_same _ _)
  | repair c hact hc =>
    refine hsame (.trans ?_ (cleanupReplyStatus_same hsized hc))
    exact ⟨rfl,fun _ _ => rfl⟩
  | validate a c hpas hc => exact hsame (feasibility_same (c := R.cell n) hpas hsized hc)
  | reloadActive hact =>
    obtain ⟨hdest,hstatus⟩ := reload_dest n
    exact hsame (.of_eq hdest hstatus)
  | reload a c hpas hc =>
    obtain ⟨hdest,hstatus⟩ := reload_dest n
    have hfst : (R.cell n).Same (Cell.of n.reload (R.rtTbl (net n.dest))) := .of_eq hdest hstatus
    have hstill : n.reload.active=false := by
      rw [Ndb.active,hstatus]
      exact hpas
    exact hsame (hfst.trans (feasibility_same (c := Cell.of n.reload _) hstill hsized hc))
  | lost first a c hpas hfst hc =>
    have hz : (R.cell n).Same (Cell.of (setFD n 0) (R.rtTbl (net n.dest))) := .of_eq rfl rfl
    exact hsame (hz.trans (feasibility_same (c := Cell.of (setFD n 0) _) hpas hsized hc))

/-- The networks are distinct, the handle arrays fit, and passive destinations have
settled. -/
structure Router.Tidy (R : Router) : Prop where
  nets : (nets R.topo).Nodup
  sized : R.peers.Sized
  settled : ∀ n∈R.topo, n.Settled

theorem length_adjust (n : ℕ) :
    (adjustHandleArray h n).array.length=max h.array.length (n/32+1) := by
  rw [adjustHandleArray]
  split
  · omega
  · rw [WordBits.length_grow]

theorem length_setHandle (n : ℕ) : (setHandle h n).2.array.length=h.array.length := by
  rw [setHandle]
  split
  · rfl
  split
  · rfl
  · exact WordBits.length_set _ _

theorem length_clearHandle (n : ℕ) : (clearHandle h n).2.array.length=h.array.length := by
  rw [clearHandle]
  split
  · rfl
  split
  · rfl
  split <;> exact WordBits.length_clear _ _

theorem Peers.Sized.setIidb {Q : Peers} {i : ℕ} {h : Handle} (hP : P.Sized)
    (hiidbs : Q.iidbs=P.iidbs) (hall : P.handle.array.length≤Q.handle.array.length)
    (hone : h.array.length≤Q.handle.array.length) : (Q.setIidb i h).Sized := by
  intro j
  have hold : (P.iidbs j).handle.array.length≤Q.handle.array.length := (hP j).trans hall
  by_cases hj : j=i
  · subst hj
    simpa [Peers.setIidb] using hone
  · simpa [Peers.setIidb,Function.update_of_ne hj,hiidbs] using hold

theorem newPeer_sized (source : U32) (i : ℕ) (hP : P.Sized) : (newPeer P source i).Sized := by
  have halloc : (allocHandle P source i).1.Sized := by
    rw [allocHandle]
    refine hP.setIidb rfl ?_ ?_
    · rw [length_setHandle,length_adjust]
      exact le_max_left _ _
    rw [length_setHandle,length_adjust,length_setHandle,length_adjust]
    exact max_le_max (hP i) (le_refl _)
  rw [newPeer]
  dsimp only
  split <;> exact halloc

theorem freeHandle_sized (p : Peer) (hP : P.Sized) : (freeHandle P p).Sized := by
  rw [freeHandle]
  refine hP.setIidb rfl ?_ ?_
  · rw [length_clearHandle]
  rw [length_clearHandle,length_clearHandle]
  exact hP p.iidb

theorem destroyPeer_sized (p : Peer) (hP : P.Sized) : (destroyPeer P p).Sized := by
  rw [destroyPeer]
  split <;> exact hP

theorem Router.Tidy.put {d : NetEntry} (hR : R.Tidy) (hn : R.find d=some n)
    (hdest : c.ndb.dest=n.dest) (hsettled : c.ndb.Settled) : (R.put c).Tidy := by
  refine ⟨hR.nets.sublist (nets_replaceNdb c R.topo),hR.sized,?_⟩
  intro m hm
  have hnd := hR.nets.sublist (nets_replaceNdb c R.topo)
  have hfnd := findNet_of_mem hnd hm
  rw [findNet_replaceNdb hR.nets] at hfnd
  split at hfnd
  · split at hfnd
    · cases hfnd
    obtain ⟨q,-,rfl⟩ := map_eq_some_iff.mp hfnd
    exact hsettled
  · exact hR.settled m (findNet_net hfnd).1

theorem Turn.tidy {R' : Router} (h : Turn bucket R R') (hR : R.Tidy) : R'.Tidy := by
  cases h with
  | newPeer source i hsource hnew => exact ⟨hR.nets,newPeer_sized source i hR.sized,hR.settled⟩
  | freeHandle p => exact ⟨hR.nets,freeHandle_sized p hR.sized,hR.settled⟩
  | destroyPeer p => exact ⟨hR.nets,destroyPeer_sized p hR.sized,hR.settled⟩
  | ifDelete i =>
    refine ⟨?_,hR.sized,?_⟩
    · have hnets : RoutePlatform.EigrpDual.nets (R.ifDelete i).topo =
          RoutePlatform.EigrpDual.nets R.topo := by
        rw [RoutePlatform.EigrpDual.nets,Router.ifDelete,List.map_map]
        rfl
      rw [hnets]
      exact hR.nets
    intro m hm
    obtain ⟨n,hn,rfl⟩ := mem_map.mp hm
    exact hR.settled n hn
  | dest d n c hn hc =>
    obtain ⟨hdest,hsettled⟩ := hc.same hR.sized
    exact hR.put hn hdest (hsettled (hR.settled n (findNet_net hn).1))
  | enter kind full route a c hnone ha hc =>
    have hcore := updateTopo_core ha
    have hperm := insertNdb_perm bucket a.cell.ndb R.topo
    have hadest : a.cell.ndb.dest=route.dest := congrArg Core.dest hcore
    have hastatus : a.cell.ndb.replyStatus=⟨0,none⟩ := congrArg Core.replyStatus hcore
    have hasettled : a.cell.ndb.Settled := by
      rw [Ndb.Settled,hastatus]
      exact fun _ => rfl
    have hS : ({R with topo := insertNdb bucket a.cell.ndb R.topo} : Router).Tidy := by
      refine ⟨?_,hR.sized,?_⟩
      · refine (hperm.map _).nodup_iff.mpr (nodup_cons.mpr ⟨?_,hR.nets⟩)
        dsimp only
        rw [hadest]
        exact findNet_eq_none.mp hnone
      intro m hm
      rcases mem_cons.mp (hperm.mem_iff.mp hm) with rfl|hm
      · exact hasettled
      · exact hR.settled m hm
    have hsame := recvPacket_same hR.sized hc
    refine hS.put (n := a.cell.ndb) (d := a.cell.ndb.dest) ?_ hsame.dest (hsame.settled hasettled)
    exact findNet_of_mem hS.nets (hperm.mem_iff.mpr mem_cons_self)

theorem run_tidy {splitHorizon : ℕ→Bool} {es : List Event}
    (h : run bucket (Router.init routerId splitHorizon) es=some R) : R.Tidy := by
  refine run_of_turn (fun _ _ hturn hS => hturn.tidy hS) h ⟨nodup_nil,?_,?_⟩
  · intro i
    exact le_refl _
  intro n hn
  cases hn

end RoutePlatform.EigrpDual
