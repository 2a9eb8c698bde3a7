import RoutePlatform.EigrpFeasibility

/-!
# EIGRP: the turns of a step

A step of the router is a sequence of turns. A turn changes the peers, or works on one
destination and puts it back into the table.
-/

namespace RoutePlatform.EigrpDual

open List Option

open EigrpItems (U32 inaccess NetEntry)

variable {flush : Flush} {p : Peer} {route : Route} {m : Ndb} (bucket : U32→ℕ)

def nets (l : List Ndb) : List NetEntry := l.map fun n => net n.dest

def findNet (l : List Ndb) (d : NetEntry) : Option Ndb := l.find? fun n => decide (net n.dest=d)

theorem Router.find_eq (R : Router) (dest : NetEntry) : R.find dest=findNet R.topo (net dest) := rfl

variable {l : List Ndb} {d : NetEntry} {n : Ndb}

theorem findNet_net (h : findNet l d=some n) : n∈l ∧ net n.dest=d :=
  ⟨mem_of_find?_eq_some h,of_decide_eq_true (find?_some h :)⟩

theorem findNet_eq_none : findNet l d=none ↔ d ∉ nets l := by
  rw [findNet,find?_eq_none,nets,List.mem_map]
  constructor
  · rintro h ⟨n,hn,hd⟩
    exact h n hn (decide_eq_true hd)
  · intro h n hn hd
    exact h ⟨n,hn,of_decide_eq_true hd⟩

theorem findNet_cons_pos (l : List Ndb) (h : net m.dest=d) : findNet (m::l) d=some m :=
  find?_cons_of_pos (decide_eq_true h)

theorem findNet_cons_neg (l : List Ndb) (h : net m.dest≠d) : findNet (m::l) d=findNet l d :=
  find?_cons_of_neg (by simpa using h)

theorem findNet_of_mem (hl : (nets l).Nodup) (hn : n∈l) : findNet l (net n.dest)=some n := by
  induction l with
  | nil => cases hn
  | cons m l ih =>
    rw [nets,map_cons,nodup_cons] at hl
    rcases mem_cons.mp hn with rfl|hmem
    · exact findNet_cons_pos l rfl
    have hne : net m.dest≠net n.dest := fun h => hl.1 (mem_map.mpr ⟨n,hmem,h.symm⟩)
    rw [findNet_cons_neg l hne]
    exact ih hl.2 hmem

theorem nets_replaceNdb (c : Cell) (l : List Ndb) : (nets (replaceNdb c l)).Sublist (nets l) := by
  induction l with
  | nil => exact List.Sublist.refl _
  | cons m l ih =>
    rw [replaceNdb]
    split
    · rename_i hnet
      split
      · exact sublist_cons_self _ _
      · rw [nets,nets,map_cons,map_cons,hnet]
    · exact ih.cons_cons _

/-- What is found after a destination has been put back. -/
theorem findNet_replaceNdb {c : Cell} (hl : (nets l).Nodup) (d : NetEntry) :
    findNet (replaceNdb c l) d =
      if d=net c.ndb.dest then (if c.gone then none else (findNet l d).map fun _ => c.ndb)
      else findNet l d := by
  induction l with
  | nil =>
    split
    · split <;> rfl
    · rfl
  | cons m l ih =>
    rw [nets,map_cons,nodup_cons] at hl
    have hih := ih hl.2
    rw [replaceNdb]
    by_cases hmc : net m.dest=net c.ndb.dest
    · rw [if_pos hmc]
      have hrs : findNet l (net c.ndb.dest)=none := by
        rw [findNet_eq_none,←hmc]
        exact hl.1
      by_cases hd : d=net c.ndb.dest
      · rw [if_pos hd,hd]
        split
        · exact hrs
        · rw [findNet_cons_pos l rfl,findNet_cons_pos l hmc,map_some]
      rw [if_neg hd]
      have hmd : net m.dest≠d := fun h => hd (h.symm.trans hmc)
      have hcd : net c.ndb.dest≠d := fun h => hd h.symm
      rw [findNet_cons_neg l hmd]
      split
      · rfl
      · rw [findNet_cons_neg l hcd]
    · rw [if_neg hmc]
      by_cases hmd : net m.dest=d
      · rw [findNet_cons_pos _ hmd,if_neg (fun h => hmc (hmd.trans h)),findNet_cons_pos _ hmd]
      rw [findNet_cons_neg _ hmd,findNet_cons_neg _ hmd]
      exact hih

theorem insertNdb_perm (n : Ndb) (l : List Ndb) : (insertNdb bucket n l).Perm (n::l) := by
  induction l with
  | nil => exact List.Perm.refl _
  | cons m l ih =>
    rw [insertNdb]
    split
    · exact (ih.cons m).trans (List.Perm.swap n m l)
    · exact List.Perm.refl _

/-- A destination of the table at the start of an event. -/
def Router.cell (R : Router) (n : Ndb) : Cell := Cell.of n (R.rtTbl (net n.dest))

/-- What is done to a destination in a turn. -/
inductive Local (R : Router) (n : Ndb) : Cell→Prop
  | xmit (e : XmitEvent) : Local R n (e.apply R.peers.activeIntfCnt (R.cell n))
  | recv (kind : PacketKind) (full : Bool) (route : Route) (a : TopoResult) (c : Cell) :
      updateTopo R.peers kind full (some n) (R.rtTbl (net n.dest)) route=some a →
      recvPacket R.peers R.routerId kind a=some c → Local R n c
  | down (p : Peer) (c : Cell) : peerDownDest R.peers R.routerId p (R.cell n)=.next c ∨
        peerDownDest R.peers R.routerId p (R.cell n)=.stop c → Local R n c
  | clear (p : Peer) : Local R n (dualClearHandle (R.cell n) (some p.peerHandle))
  | repair (c : Cell) : n.active=true → cleanupReplyStatus R.peers R.routerId
        { Cell.of {n with replyStatus := {n.replyStatus with used := 0}}
          (R.rtTbl (net n.dest)) with asserted := true } none=some c → Local R n c
  | validate (a : Bool) (c : Cell) : n.active=false →
      feasibility R.peers R.routerId (R.cell n) (n.successor.map Rdb.id) false=some (a,c) →
      Local R n c
  | reloadActive : n.active=true → Local R n (Cell.of n.reload (R.rtTbl (net n.dest)))
  | reload (a : Bool) (c : Cell) : n.active=false →
      feasibility R.peers R.routerId (Cell.of n.reload (R.rtTbl (net n.dest)))
        (n.successor.map Rdb.id) false=some (a,c) → Local R n c
  | lost (first : Rdb) (a : Bool) (c : Cell) : n.active=false → n.successor=some first →
      feasibility R.peers R.routerId (Cell.of (setFD n 0) (R.rtTbl (net n.dest))) (some first.id)
        false=some (a,c) → Local R n c

inductive Turn (bucket : U32→ℕ) (R : Router) : Router→Prop
  | newPeer (source : U32) (i : ℕ) : source≠0 → findPeer R.peers source i=none →
      Turn bucket R {R with peers := newPeer R.peers source i}
  | freeHandle (p : Peer) : Turn bucket R {R with peers := freeHandle R.peers p}
  | destroyPeer (p : Peer) : Turn bucket R {R with peers := destroyPeer R.peers p}
  | ifDelete (i : ℕ) : Turn bucket R (R.ifDelete i)
  | dest (d : NetEntry) (n : Ndb) (c : Cell) : R.find d=some n → Local R n c →
      Turn bucket R (R.put c)
  | enter (kind : PacketKind) (full : Bool) (route : Route) (a : TopoResult) (c : Cell) :
      R.find route.dest=none →
      updateTopo R.peers kind full none (R.rtTbl (net route.dest)) route=some a →
      recvPacket R.peers R.routerId kind a=some c →
      Turn bucket R (({R with topo := insertNdb bucket a.cell.ndb R.topo} : Router).put c)

abbrev Turns (bucket : U32→ℕ) : Router→Router→Prop := Relation.ReflTransGen (Turn bucket)

variable {R : Router} {dest : NetEntry}

theorem findNet_cell (h : R.find dest=some n) : Cell.of n (R.rtTbl (net dest))=R.cell n := by
  rw [Router.cell,(findNet_net h).2]

theorem xmit_turns (R : Router) (e : XmitEvent) : Turns bucket R (R.xmit e) := by
  rw [Router.xmit]
  split
  · exact .refl
  rename_i n hn
  exact .single (.dest _ n _ hn (.xmit e))

theorem flush_turns (l : List XmitEvent) (R : Router) : Turns bucket R (l.foldl Router.xmit R) := by
  induction l generalizing R with
  | nil => exact .refl
  | cons e l ih => exact (xmit_turns bucket R e).trans (ih _)

variable {bucket : U32→ℕ} {R' : Router}

theorem recv_turns {kind : PacketKind} (h : R.recv bucket kind route=some R') :
    Turns bucket R R' := by
  rw [Router.recv] at h
  split at h
  · cases h
    exact .refl
  rename_i a ha
  obtain ⟨c,hc,rfl⟩ := map_eq_some_iff.mp h
  cases hfind : R.find route.dest with
  | none =>
    rw [hfind] at ha hc
    exact .single (.enter kind _ route a c hfind ha hc)
  | some n =>
    rw [hfind] at ha hc
    rw [←(findNet_net hfind).2] at ha
    exact .single (.dest _ n c hfind (.recv kind _ route a c ha hc))

theorem walk_turns {l : List NetEntry} {b : Bool} (h : R.walk p l=some (b,R')) :
    Turns bucket R R' := by
  induction l generalizing R with
  | nil =>
    cases h
    exact .refl
  | cons dest l ih =>
    rw [Router.walk] at h
    split at h
    · exact ih h
    rename_i n hn
    split at h
    · cases h
    · rename_i c hc
      cases h
      exact .single (.dest _ n c hn (.down p c (.inr hc)))
    rename_i c hc
    exact .head (.dest _ n c hn (.down p c (.inl hc))) (ih h)

theorem peerDown_turns {before after : List XmitEvent} (h : R.peerDown p before after=some R') :
    Turns bucket R R' := by
  have hfree : Turns bucket R {R with peers := freeHandle R.peers p} := .single (.freeHandle p)
  rw [Router.peerDown] at h
  split at h
  · cases h
  · rename_i hwalk
    cases h
    exact hfree.trans (walk_turns hwalk)
  rename_i S hwalk
  cases h
  refine (hfree.trans (walk_turns hwalk)).trans ?_
  refine (flush_turns bucket before S).trans ?_
  exact .head (.destroyPeer p) (flush_turns bucket after _)

theorem takeDown_turns (hn : R.find dest=some n) (h : R.takeDown dest n flush p=some R') :
    Turns bucket R R' := by
  rw [Router.takeDown] at h
  rw [findNet_cell hn] at h
  exact .head (.dest dest n _ hn (.clear p)) (peerDown_turns h)

theorem unstickRoutes_turns {l : List ℕ} (h : R.unstickRoutes dest flush l=some R') :
    Turns bucket R R' := by
  induction l generalizing R with
  | nil =>
    cases h
    exact .refl
  | cons id l ih =>
    rw [Router.unstickRoutes] at h
    split at h
    · cases h
      exact .refl
    rename_i n hn
    split at h
    · split at h
      · exact ih h
      split at h
      · split at h
        · exact ih h
        obtain ⟨S,hS,hrs⟩ := bind_eq_some_iff.mp h
        exact (takeDown_turns hn hS).trans (ih hrs)
      · exact ih h
    cases h
    exact .refl

theorem unstickPeers_turns {l : List Peer} (h : R.unstickPeers dest flush l=some R') :
    Turns bucket R R' := by
  induction l generalizing R with
  | nil =>
    cases h
    exact .refl
  | cons p l ih =>
    rw [Router.unstickPeers] at h
    split at h
    · cases h
      exact .refl
    rename_i n hn
    split at h
    · split at h
      · obtain ⟨S,hS,hrs⟩ := bind_eq_some_iff.mp h
        exact (takeDown_turns hn hS).trans (ih hrs)
      · exact ih h
    cases h
    exact .refl

theorem unstickRest_turns (h : R.unstickRest dest=some R') : Turns bucket R R' := by
  rw [Router.unstickRest] at h
  split at h
  · cases h
    exact .refl
  rename_i n hn
  split at h
  · rename_i hact
    obtain ⟨c,hc,rfl⟩ := map_eq_some_iff.mp h
    rw [←(findNet_net hn).2] at hc
    exact .single (.dest dest n c hn (.repair c hact.1 hc))
  cases h
  exact .refl

theorem unstick_turns (h : R.unstick dest flush=some R') : Turns bucket R R' := by
  rw [Router.unstick] at h
  split at h
  · cases h
    exact .refl
  split at h
  · obtain ⟨S,hS,h⟩ := bind_eq_some_iff.mp h
    obtain ⟨T,hT,h⟩ := bind_eq_some_iff.mp h
    exact (unstickRoutes_turns hS).trans ((unstickPeers_turns hT).trans (unstickRest_turns h))
  cases h
  exact .refl

theorem rtchange_turns {up : Bool} (h : R.rtchange bucket route up=some R') :
    Turns bucket R R' := by
  rw [Router.rtchange] at h
  split at h
  · split at h
    · cases h
      exact .refl
    · exact recv_turns h
  split at h
  · cases h
    exact .refl
  split at h
  · cases h
    exact .refl
  · exact recv_turns h

theorem validate_turns (h : R.validate dest=some R') : Turns bucket R R' := by
  rw [Router.validate] at h
  split at h
  · cases h
    exact .refl
  rename_i n hn
  split at h
  · cases h
    exact .refl
  rename_i hact
  obtain ⟨a,ha,rfl⟩ := map_eq_some_iff.mp h
  exact .single (.dest dest n a.2 hn (.validate a.1 a.2 (by simpa using hact) ha))

theorem reload_dest (n : Ndb) : n.reload.dest=n.dest ∧ n.reload.replyStatus=n.replyStatus := by
  rw [Ndb.reload]
  split
  · exact ⟨rfl,rfl⟩
  split <;> exact ⟨rfl,rfl⟩

theorem reload_turns (h : R.reload dest=some R') : Turns bucket R R' := by
  rw [Router.reload] at h
  split at h
  · cases h
    exact .refl
  rename_i n hn
  split at h
  · rename_i hact
    cases h
    exact .single (.dest dest n _ hn (.reloadActive hact))
  rename_i hact
  obtain ⟨a,ha,rfl⟩ := map_eq_some_iff.mp h
  rw [(reload_dest n).1] at ha
  exact .single (.dest dest n a.2 hn (.reload a.1 a.2 (by simpa using hact) ha))

theorem lostRoute_turns (h : R.lostRoute dest=some R') : Turns bucket R R' := by
  rw [Router.lostRoute] at h
  split at h
  · cases h
    exact .refl
  rename_i n hn
  split at h
  · cases h
    exact .refl
  rename_i first hfst
  split at h
  · cases h
    exact .refl
  rename_i hno
  have hpas : n.active=false := by
    rw [not_or] at hno
    simpa using hno.1
  obtain ⟨a,ha,rfl⟩ := map_eq_some_iff.mp h
  exact .single (.dest dest n a.2 hn (.lost first a.1 a.2 hpas hfst ha))

theorem step_turns {e : Event} (h : step bucket R e=some R') : Turns bucket R R' := by
  cases e with
  | newPeer source i =>
    rw [step] at h
    split at h
    · rename_i hnew
      cases h
      exact .single (.newPeer source i hnew.1 (by simpa using hnew.2))
    cases h
    exact .refl
  | recv kind route =>
    rw [step] at h
    split at h
    · cases h
      exact .refl
    split at h
    · exact recv_turns h
    cases h
    exact .refl
  | conn route up => exact recv_turns h
  | rtchange route up => exact rtchange_turns h
  | peerDown p before after =>
    rw [step] at h
    split at h
    · exact peerDown_turns h
    cases h
    exact .refl
  | unstick dest flush => exact unstick_turns h
  | validate dest => exact validate_turns h
  | reload dest => exact reload_turns h
  | lostRoute dest => exact lostRoute_turns h
  | ifDelete i =>
    rw [step] at h
    split at h
    · cases h
      exact .refl
    cases h
    exact .single (.ifDelete i)
  | xmit e =>
    cases h
    exact xmit_turns bucket R e

variable {I : Router→Prop}

theorem turns_of_turn (hturn : ∀ R R', Turn bucket R R' → I R → I R') (h : Turns bucket R R')
    (hR : I R) : I R' := by
  induction h with
  | refl => exact hR
  | tail _ hlast hmid => exact hturn _ _ hlast hmid

theorem run_of_turn (hturn : ∀ R R', Turn bucket R R' → I R → I R') {es : List Event}
    (h : run bucket R es=some R') (hR : I R) : I R' := by
  induction es generalizing R with
  | nil =>
    cases h
    exact hR
  | cons e es ih =>
    obtain ⟨S,hS,hrs⟩ := bind_eq_some_iff.mp h
    exact ih hrs (turns_of_turn hturn (step_turns hS) hR)

end RoutePlatform.EigrpDual
