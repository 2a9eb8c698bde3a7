import RoutePlatform.EigrpChains

/-!
# EIGRP: the feasibility condition

The test finds out whether a route of least metric is feasible, in whatever order the routes
stand. A passive destination that is tested either stays passive or goes active with a table of
the peers that it queries.
-/

namespace RoutePlatform.EigrpDual

open List

open EigrpItems (U32 inaccess NetEntry)

/-- A route that is not ignored, and none that is not ignored has a lower metric. -/
def Least (l : List Rdb) (r : Rdb) : Prop :=
  r∈l ∧ r.flagIgnore=false ∧ ∀ q∈l, q.flagIgnore=false → r.metric≤q.metric

/-- A route of least metric meets the feasibility condition. -/
def Feasible (l : List Rdb) (oldMetric : U32) : Prop := ∃ r, Least l r ∧ r.succMetric<oldMetric

theorem lt_trans_le {a b c : U32} (h : a<b) (h' : b≤c) : a<c := by bv_omega

theorem le_inaccess (a : U32) : a ≤ inaccess := by
  rw [inaccess]
  bv_omega

theorem Least.mono {r q : Rdb} {rest : List Rdb} (h : Least rest q)
    (hr : r.flagIgnore=false → q.metric≤r.metric) : Least (r::rest) q := by
  obtain ⟨hmem,hq,hle⟩ := h
  refine ⟨.tail _ hmem,hq,?_⟩
  intro x hx hxi
  rcases mem_cons.mp hx with rfl|hx
  · exact hr hxi
  · exact hle x hx hxi

theorem Least.tail {r q : Rdb} {rest : List Rdb} (h : Least (r::rest) q) (hne : q∈rest) :
    Least rest q :=
  ⟨hne,h.2.1,fun x hx hxi => h.2.2 x (.tail _ hx) hxi⟩

/-- The loop of `EigrpDualTestFC`: a feasible route of least metric is not excluded. -/
theorem testLoop_iff (oldMetric : U32) (l : List Rdb) (dmin : U32) (fc : Bool) :
    testLoop oldMetric l dmin fc=true ↔ (∃ r, Least l r ∧ r.metric≤dmin ∧ r.succMetric<oldMetric) ∨
        (fc=true ∧ ∀ q∈l, q.flagIgnore=false → dmin≤q.metric) := by
  induction l generalizing dmin fc with
  | nil => simp [testLoop,Least]
  | cons r rest ih =>
    rw [testLoop]
    by_cases hseen : (!r.flagIgnore)=true ∧ r.metric≤dmin
    · have hr : r.flagIgnore=false := by simpa using hseen.1
      have hle := hseen.2
      rw [if_pos hseen]
      by_cases hfeas : r.succMetric<oldMetric
      · rw [if_pos hfeas,ih]
        constructor
        · rintro (⟨q,hq,hqr,hqf⟩|⟨-,hall⟩)
          · exact .inl ⟨q,hq.mono fun _ => hqr,BitVec.le_trans hqr hle,hqf⟩
          refine .inl ⟨r,⟨.head _,hr,?_⟩,hle,hfeas⟩
          intro q hq hqi
          rcases mem_cons.mp hq with rfl|hq
          · exact BitVec.le_refl _
          · exact hall q hq hqi
        · intro h
          by_cases hall : ∀ q∈rest, q.flagIgnore=false → r.metric≤q.metric
          · exact .inr ⟨rfl,hall⟩
          push Not at hall
          obtain ⟨x,hx,hxi,hnle⟩ := hall
          have hlt : x.metric<r.metric := BitVec.not_le.mp hnle
          rcases h with ⟨q,hq,-,hqf⟩|⟨-,hmin⟩
          · have hqx := hq.2.2 x (.tail _ hx) hxi
            have hqr := hq.2.2 r mem_cons_self hr
            rcases mem_cons.mp hq.1 with rfl|hmem
            · exact absurd (lt_trans_le hlt hqx) (BitVec.lt_irrefl _)
            · exact .inl ⟨q,hq.tail hmem,hqr,hqf⟩
          have hdx := hmin x (.tail _ hx) hxi
          have hlow := lt_trans_le hlt (BitVec.le_trans hle hdx)
          exact absurd hlow (BitVec.lt_irrefl _)
      · rw [if_neg hfeas]
        -- The route is not feasible itself, so a least feasible route comes after it.
        have hlater {q : Rdb} (hq : Least (r::rest) q) (hqf : q.succMetric<oldMetric) :
            Least rest q := by
          rcases mem_cons.mp hq.1 with rfl|hmem
          · exact absurd hqf hfeas
          · exact hq.tail hmem
        by_cases hlow : r.metric<dmin
        · rw [if_pos hlow,ih]
          constructor
          · rintro (⟨q,hq,hqr,hqf⟩|⟨hfalse,-⟩)
            · exact .inl ⟨q,hq.mono fun _ => hqr,BitVec.le_trans hqr hle,hqf⟩
            · cases hfalse
          · rintro (⟨q,hq,-,hqf⟩|⟨-,hmin⟩)
            · exact .inl ⟨q,hlater hq hqf,hq.2.2 r mem_cons_self hr,hqf⟩
            have hdr := hmin r mem_cons_self hr
            exact absurd (lt_trans_le hlow hdr) (BitVec.lt_irrefl _)
        have heq : dmin≤r.metric := BitVec.not_lt.mp hlow
        rw [if_neg hlow,ih]
        constructor
        · rintro (⟨q,hq,hqd,hqf⟩|⟨hfc,hall⟩)
          · exact .inl ⟨q,hq.mono fun _ => BitVec.le_trans hqd heq,hqd,hqf⟩
          refine .inr ⟨hfc,?_⟩
          intro q hq hqi
          rcases mem_cons.mp hq with rfl|hq
          · exact heq
          · exact hall q hq hqi
        · rintro (⟨q,hq,hqd,hqf⟩|⟨hfc,hmin⟩)
          · exact .inl ⟨q,hlater hq hqf,hqd,hqf⟩
          · exact .inr ⟨hfc,fun q hq => hmin q (.tail _ hq)⟩
    · rw [if_neg hseen,ih]
      have hover (hr : r.flagIgnore=false) : dmin<r.metric := by
        by_contra hge
        exact hseen ⟨by simp [hr],BitVec.not_lt.mp hge⟩
      constructor
      · rintro (⟨q,hq,hqd,hqf⟩|⟨hfc,hall⟩)
        · exact .inl ⟨q,hq.mono fun hr => BitVec.le_trans hqd (BitVec.le_of_lt (hover hr)),hqd,hqf⟩
        refine .inr ⟨hfc,?_⟩
        intro q hq hqi
        rcases mem_cons.mp hq with rfl|hq
        · exact BitVec.le_of_lt (hover hqi)
        · exact hall q hq hqi
      · rintro (⟨q,hq,hqd,hqf⟩|⟨hfc,hmin⟩)
        · rcases mem_cons.mp hq.1 with rfl|hmem
          · have hlow := lt_trans_le (hover hq.2.1) hqd
            exact absurd hlow (BitVec.lt_irrefl _)
          · exact .inl ⟨q,hq.tail hmem,hqd,hqf⟩
        · exact .inr ⟨hfc,fun q hq => hmin q (.tail _ hq)⟩

theorem testFC_eq_true_iff (n : Ndb) :
    testFC n=true ↔ n.oldMetric=inaccess ∨ Feasible n.rdb n.oldMetric := by
  rw [testFC]
  split
  · rename_i hinf
    exact ⟨fun _ => .inl hinf,fun _ => rfl⟩
  rename_i hfin
  rw [testLoop_iff]
  constructor
  · rintro (⟨r,hr,-,hrf⟩|⟨hfalse,-⟩)
    · exact .inr ⟨r,hr,hrf⟩
    · cases hfalse
  · rintro (hinf|⟨r,hr,hrf⟩)
    · exact absurd hinf hfin
    · exact .inl ⟨r,hr,le_inaccess r.metric,hrf⟩

/-- The interface and the next hop of a route. -/
def Rdb.key (r : Rdb) : Option ℕ × U32 := (r.iidb,r.nextHop)

/-- The handle arrays of the interfaces are no longer than that of the router. -/
def Peers.Sized (P : Peers) : Prop := ∀ i, (P.iidbs i).handle.array.length≤P.handle.array.length

/-- A passive destination has no reply outstanding. -/
def Ndb.Settled (n : Ndb) : Prop := n.replyStatus.array=none → n.replyStatus.used=0

/-- The replies of `EigrpDualFCSatisfied`. -/
def satisfiedReplies (n : Ndb) (drdb : Option Rdb) (query : Bool) : List (Option ℕ × U32) :=
  match n.origin with
  | .qoClear => []
  | .qoLocal => if query then (drdb.map Rdb.key).toList else []
  | .qoMulti | .qoSuccs => (n.successor.map Rdb.key).toList

/-- `EigrpDualSetDistance` leaves the feasible distance or lowers it. -/
theorem setDistance_spec (n : Ndb) : (setDistance n).dest=n.dest ∧ (setDistance n).origin=n.origin ∧
      (setDistance n).replyStatus=n.replyStatus ∧ (setDistance n).rdb=n.rdb ∧
      (setDistance n).oldMetric≤n.oldMetric := by
  have hrd : (setRD n).dest=n.dest ∧ (setRD n).origin=n.origin ∧
      (setRD n).replyStatus=n.replyStatus ∧ (setRD n).rdb=n.rdb ∧
      (setRD n).oldMetric=n.oldMetric := by
    rw [setRD]
    split <;> exact ⟨rfl,rfl,rfl,rfl,rfl⟩
  obtain ⟨hdest,horg,hstatus,hrdb,hold⟩ := hrd
  rw [setDistance]
  split
  · dsimp only
    split
    · rename_i hlt
      rw [hold] at hlt
      exact ⟨hdest,horg,hstatus,hrdb,BitVec.le_of_lt hlt⟩
    · exact ⟨hdest,horg,hstatus,hrdb,by rw [hold]; exact BitVec.le_refl _⟩
  · exact ⟨rfl,rfl,rfl,rfl,BitVec.le_refl _⟩

/-- The destination stays passive: nothing but routes and its falling distance changes. -/
structure Satisfied (c : Cell) (drdb : Option Rdb) (query : Bool) (c' : Cell) : Prop where
  dest : c'.ndb.dest=c.ndb.dest
  origin : c'.ndb.origin=c.ndb.origin
  replyStatus : c'.ndb.replyStatus=c.ndb.replyStatus
  oldMetric : c'.ndb.oldMetric≤c.ndb.oldMetric
  plain : c'.ndb.plain.Subperm c.ndb.plain
  replies : c'.replies=c.replies++satisfiedReplies c.ndb drdb query
  asserted : c'.asserted=c.asserted

theorem fcSatisfied_spec (c : Cell) (drdb : Option Rdb) (query : Bool) :
    Satisfied c drdb query (fcSatisfied c drdb query) := by
  have hend (d : Cell) (hd : c.ndb.Kept d.ndb ∧ d.asserted=c.asserted)
      (hreplies : d.replies=c.replies++satisfiedReplies c.ndb drdb query) :
      Satisfied c drdb query (if (routeUpdate d).gone then routeUpdate d
        else {routeUpdate d with ndb := setDistance (routeUpdate d).ndb}) := by
    obtain ⟨hkept,hassert⟩ := hd
    have hupdate := routeUpdate_kept d
    have hndb := hkept.trans hupdate.ndb
    have hdest : (routeUpdate d).ndb.dest=c.ndb.dest := congrArg Core.dest hndb.core
    have horg : (routeUpdate d).ndb.origin=c.ndb.origin := congrArg Core.origin hndb.core
    have hstatus : (routeUpdate d).ndb.replyStatus=c.ndb.replyStatus :=
      congrArg Core.replyStatus hndb.core
    have hold : (routeUpdate d).ndb.oldMetric=c.ndb.oldMetric := congrArg Core.oldMetric hndb.core
    have hr := hupdate.replies.trans hreplies
    have ha := hupdate.asserted.trans hassert
    split
    · exact ⟨hdest,horg,hstatus,hold ▸ BitVec.le_refl _,hndb.plain,hr,ha⟩
    obtain ⟨sdest,sorigin,sstatus,srdb,sold⟩ := setDistance_spec (routeUpdate d).ndb
    refine ⟨sdest.trans hdest,sorigin.trans horg,sstatus.trans hstatus,hold ▸ sold,?_,hr,ha⟩
    have hplain : (setDistance (routeUpdate d).ndb).plain=(routeUpdate d).ndb.plain := by
      rw [Ndb.plain,srdb,Ndb.plain]
    rw [hplain]
    exact hndb.plain
  have hsend (o : Option Rdb) : c.ndb.Kept (sendReply c o).ndb ∧ (sendReply c o).asserted=c.asserted :=
    ⟨(sendReply_kept c o).1,(sendReply_kept c o).2.1⟩
  have hsent (o : Option Rdb) : (sendReply c o).replies=c.replies++(o.map Rdb.key).toList := by
    rw [(sendReply_kept c o).2.2.2]
    cases o with
    | none | some r => rfl
  rw [fcSatisfied]
  split
  · rename_i horg
    refine hend c ⟨Ndb.Kept.refl _,rfl⟩ ?_
    rw [satisfiedReplies,horg,append_nil]
  · rename_i horg
    split
    · rename_i hquery
      refine hend _ (hsend drdb) ?_
      rw [satisfiedReplies,horg]
      rw [if_pos hquery,hsent]
    rename_i hquery
    refine hend c ⟨Ndb.Kept.refl _,rfl⟩ ?_
    rw [satisfiedReplies,horg]
    rw [if_neg hquery,append_nil]
  · rename_i horg
    refine hend _ (hsend _) ?_
    rw [satisfiedReplies,horg,hsent]
  rename_i horg
  refine hend _ (hsend _) ?_
  rw [satisfiedReplies,horg,hsent]

/-- A peer that split horizon does not exclude can be queried. -/
def Queryable (P : Peers) (n : Ndb) (queryDrdb : Option ℕ) : Prop :=
  P.handle.used≠0 ∧ queryCount P (splitHorizonIidb P n queryDrdb)≠0

structure Diffusing (P : Peers) (queryDrdb : Option ℕ) (c c' : Cell) : Prop where
  queryable : Queryable P c.ndb queryDrdb
  gone : c'.gone=false
  dest : c'.ndb.dest=c.ndb.dest
  origin : c'.ndb.origin=c.ndb.origin
  replyStatus : c'.ndb.replyStatus=replyTable P (splitHorizonIidb P c.ndb queryDrdb)
  plain : c'.ndb.plain=c.ndb.plain
  succNum : c'.ndb.succNum=if c.ndb.succNum≠0 then 1 else 0
  asserted : c'.asserted=c.asserted

theorem deleteIdle_rdb (c : Cell) : (deleteIdle c).ndb=c.ndb := by
  rw [deleteIdle]
  split
  · rw [dndbDelete]
    split <;> rfl
  · rfl

theorem sendQuery_routes (k : ℕ) (c : Cell) :
    (sendQuery k c).ndb.rdb=c.ndb.rdb ∧ (sendQuery k c).ndb.succNum=c.ndb.succNum := by
  rw [sendQuery,xmitDndb]
  split
  · split <;> exact ⟨rfl,rfl⟩
  rw [cleanupMulti,deleteIdle_rdb]
  exact ⟨rfl,rfl⟩

/-- A passive destination goes active or not; then no peer can be queried, and it is as
before. -/
theorem goActive_spec {P : Peers} {c : Cell} {queryDrdb : Option ℕ} {a : Bool} {c' : Cell}
    (hpas : c.ndb.active=false) (hsized : P.Sized)
    (h : goActive P c queryDrdb=some (a,c')) :
    (a=true ∧ Diffusing P queryDrdb c c' ∧ c'.replies=c.replies) ∨
      (a=false ∧ ¬Queryable P c.ndb queryDrdb ∧
        c' = {c with ndb := {c.ndb with shQueryIdb := c'.ndb.shQueryIdb}}) := by
  rw [goActive] at h
  split at h
  · rename_i hused
    cases h
    exact .inr ⟨rfl,fun hq => hq.1 hused,rfl⟩
  rename_i hused
  dsimp only at h
  split at h
  · rename_i hcnt
    cases h
    exact .inr ⟨rfl,fun hq => hq.2 hcnt,rfl⟩
  rename_i hcnt
  split at h
  · rename_i hact
    have hno : c.ndb.active=true := hact
    rw [hpas] at hno
    cases hno
  split at h
  · rename_i hshort
    unfold tableTooShort at hshort
    split at hshort
    · cases hshort
    · exact absurd (hsized _) (Nat.not_le_of_lt (of_decide_eq_true hshort))
  generalize hd : ({c with ndb := {c.ndb with
    shQueryIdb := splitHorizonIidb P c.ndb queryDrdb
    replyStatus := replyTable P (splitHorizonIidb P c.ndb queryDrdb)}} : Cell)=d at h
  have hkept := sendQuery_kept P.activeIntfCnt d
  obtain ⟨hrdb,hsucc⟩ := sendQuery_routes P.activeIntfCnt d
  split at h
  · cases h
  rename_i hgone
  cases h
  subst hd
  refine .inl ⟨rfl,?_,hkept.replies⟩
  refine ⟨⟨hused,hcnt⟩,by simpa using hgone,congrArg Core.dest hkept.ndb.core,
    congrArg Core.origin hkept.ndb.core,congrArg Core.replyStatus hkept.ndb.core,?_,?_,
    hkept.asserted⟩
  · rw [Ndb.plain,Ndb.plain,hrdb]
  rw [hsucc]
  split
  · rfl
  rename_i hz
  exact not_not.mp hz

section

variable {P : Peers} {queryDrdb : Option ℕ} {c d : Cell} (h : Diffusing P queryDrdb c d)
include h

theorem Diffusing.distances : Diffusing P queryDrdb c {d with ndb := activeDistance d.ndb} := by
  have hrd (n : Ndb) : (setRD n).dest=n.dest ∧ (setRD n).origin=n.origin ∧
      (setRD n).replyStatus=n.replyStatus ∧ (setRD n).rdb=n.rdb ∧
      (setRD n).succNum=n.succNum := by
    rw [setRD]
    split <;> exact ⟨rfl,rfl,rfl,rfl,rfl⟩
  have hact (n : Ndb) : (activeDistance n).dest=n.dest ∧ (activeDistance n).origin=n.origin ∧
      (activeDistance n).replyStatus=n.replyStatus ∧ (activeDistance n).rdb=n.rdb ∧
      (activeDistance n).succNum=n.succNum := by
    rw [activeDistance]
    split
    · exact ⟨rfl,rfl,rfl,rfl,rfl⟩
    split
    · split <;> exact ⟨rfl,rfl,rfl,rfl,rfl⟩
    · exact hrd n
  obtain ⟨hdest,horg,hstatus,hrdb,hsucc⟩ := hact d.ndb
  refine ⟨h.queryable,h.gone,hdest.trans h.dest,horg.trans h.origin,
    hstatus.trans h.replyStatus,?_,hsucc.trans h.succNum,h.asserted⟩
  rw [←h.plain,Ndb.plain,hrdb,Ndb.plain]

theorem Diffusing.reply (r : Rdb) : Diffusing P queryDrdb c (sendReply d (some r)) := by
  refine ⟨h.queryable,h.gone,h.dest,h.origin,h.replyStatus,?_,h.succNum,h.asserted⟩
  rw [←h.plain]
  exact modify_plain r.id fun _ => rfl

end

/-- The destination stays passive after a test; where it fails, there is an exception. -/
structure StaysPassive (P : Peers) (routerId : U32) (c : Cell) (drdb : Option ℕ) (query : Bool)
    (c' : Cell) : Prop where
  dest : c'.ndb.dest=c.ndb.dest
  origin : c'.ndb.origin=c.ndb.origin
  replyStatus : c'.ndb.replyStatus=c.ndb.replyStatus
  plain : c'.ndb.plain.Subperm c.ndb.plain
  replies : c'.replies=c.replies++satisfiedReplies c.ndb (drdb.bind c.ndb.find) query
  asserted : c'.asserted=c.asserted
  oldMetric : (testFC c.ndb=true ∧ c'.ndb.oldMetric≤c.ndb.oldMetric) ∨
    (testFC c.ndb=false ∧ ∃ r, drdb.bind c.ndb.find=some r ∧
      ((r.flagExt=true ∧ r.originRouter=routerId) ∨
        ¬Queryable P c.ndb (if query then some r.id else none)))

/-- The destination goes active after a test of the feasibility condition. -/
structure GoesActive (P : Peers) (routerId : U32) (c : Cell) (drdb : Option ℕ) (query : Bool)
    (r : Rdb) (c' : Cell) : Prop where
  route : drdb.bind c.ndb.find=some r
  infeasible : testFC c.ndb=false
  /-- The route is not an external one of this router. -/
  foreign : ¬(r.flagExt=true ∧ r.originRouter=routerId)
  diffusing : Diffusing P (if query then some r.id else none) c c'
  /-- A query is answered, but not that of the successor. -/
  replies : c'.replies=c.replies ++
    if c.ndb.successor.map Rdb.id≠some r.id ∧ query=true then [r.key] else []

theorem successor_id_of_plain {n n' : Ndb} (h : n'.plain=n.plain) :
    n'.successor.map Rdb.id=n.successor.map Rdb.id := by
  have hids (m : Ndb) : m.successor.map Rdb.id=(m.plain.map Rdb.id).head? := by
    rw [Ndb.plain,map_map,head?_map]
    rfl
  rw [hids,hids,h]

/-- What `EigrpDualFC` does at a passive destination. -/
theorem feasibility_spec {P : Peers} {routerId : U32} {c c' : Cell} {drdb : Option ℕ}
    {query fc : Bool} (hpas : c.ndb.active=false) (hsized : P.Sized)
    (h : feasibility P routerId c drdb query=some (fc,c')) :
    (fc=true ∧ StaysPassive P routerId c drdb query c') ∨
      (fc=false ∧ ∃ r, GoesActive P routerId c drdb query r c') := by
  rw [feasibility] at h
  split at h
  · rename_i htest
    cases h
    have hsat := fcSatisfied_spec {c with ndb := {c.ndb with exterminate := false}}
      (drdb.bind c.ndb.find) query
    exact .inl ⟨rfl,hsat.dest,hsat.origin,hsat.replyStatus,hsat.plain,hsat.replies,
      hsat.asserted,.inl ⟨htest,hsat.oldMetric⟩⟩
  rename_i htest
  have hfail : testFC c.ndb=false := by simpa using htest
  split at h
  · cases h
  rename_i r hr
  split at h
  · rename_i hown
    cases h
    have hsat := fcSatisfied_spec {c with
      ndb := setFD {c.ndb with exterminate := true} inaccess} (some r) query
    refine .inl ⟨rfl,hsat.dest,hsat.origin,hsat.replyStatus,hsat.plain,?_,
      hsat.asserted,.inr ⟨hfail,r,hr,.inl hown⟩⟩
    rw [hr]
    exact hsat.replies
  rename_i hforeign
  split at h
  · cases h
  · rename_i d hd
    cases h
    obtain ⟨hfalse,-⟩|⟨-,hnone,hdeq⟩ := goActive_spec hpas hsized hd
    · cases hfalse
    have hsat := fcSatisfied_spec {d with ndb := setFD d.ndb inaccess} (some r) query
    rw [hdeq] at hsat ⊢
    refine .inl ⟨rfl,hsat.dest,hsat.origin,hsat.replyStatus,hsat.plain,?_,
      hsat.asserted,.inr ⟨hfail,r,hr,.inr hnone⟩⟩
    rw [hr]
    exact hsat.replies
  rename_i d hd
  obtain ⟨-,hdiff,hreplies⟩|⟨hfalse,-⟩ := goActive_spec hpas hsized hd
  · have hdist := hdiff.distances
    have hhead := successor_id_of_plain hdist.plain
    dsimp only at h
    split at h
    · rename_i hsend
      cases h
      refine .inr ⟨rfl,r,hr,hfail,hforeign,hdist.reply r,?_⟩
      rw [←hhead,if_pos hsend,←hreplies]
      rfl
    rename_i hsend
    cases h
    refine .inr ⟨rfl,r,hr,hfail,hforeign,hdist,?_⟩
    rw [←hhead,if_neg hsend,append_nil]
    exact hreplies
  · cases hfalse

end RoutePlatform.EigrpDual
