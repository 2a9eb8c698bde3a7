import RoutePlatform.VrrpOperations

/-!
# One master on a segment

Any number of routers run one virtual router id with fixed priorities and the same interval on one
segment. Each has its own clock; an advertisement may reach any other router at any later time and
more than once. What it does to a master depends on the two ranks only.
-/

namespace RoutePlatform.VrrpElection

open VrrpOperations Function List

universe u

variable {ι : Type u}

/-- The configuration of the routers of a segment. -/
structure Setup (ι : Type u) where
  vrid : ℕ
  interval : ℕ
  priority : ι→ℕ
  address : ι→IfPrefix
  vrid_range : 1≤vrid ∧ vrid≤254
  interval_range : 1 ≤ interval ∧ interval≤255
  priority_range : ∀ i, 1≤priority i ∧ priority i≤254
  address_injective : ∀ i j, (address i).prefix4=(address j).prefix4 → i=j

/-- The order of the routers: by priority, then by address. -/
def Setup.rank (c : Setup ι) (i : ι) : ℕ ×ₗ ℕ := toLex (c.priority i,(c.address i).prefix4.ntohl)

/-- The rank that a packet claims for its sender. -/
def pktRank (p : VrrpPkt) : ℕ ×ₗ ℕ := toLex (p.priority,p.ipSrc.ntohl)

theorem Setup.rank_injective (c : Setup ι) {i j : ι} (h : c.rank i=c.rank j) : i=j := by
  have haddr : (c.address i).prefix4.ntohl=(c.address j).prefix4.ntohl :=
    congrArg (fun r => (ofLex r).2) h
  exact c.address_injective i j (InAddr.ntohl_injective haddr)

/-- The routers of a segment and every advertisement sent so far. -/
structure Segment (ι : Type u) where
  routers : ι→VrrpRt
  sent : List VrrpPkt

/-- What can happen on a segment. -/
inductive SegmentOp (ι : Type u) where
  /-- The one-second timer of a router, with what its interface table says. -/
  | tick (i : ι) (isDown : ℕ→Bool)
  | deliver (i : ι) (p : VrrpPkt)

def Frame.advert : Frame→Option VrrpPkt
  | .advertisement p => some p
  | .gratuitousArp _ => none

/-- A router has made a step of its own. -/
def Segment.put [DecidableEq ι] (s : Segment ι) (i : ι) (r : VrrpRt × List Frame) : Segment ι where
  routers := update s.routers i r.1
  sent := s.sent++r.2.filterMap Frame.advert

def segmentStep [DecidableEq ι] (s : Segment ι) : SegmentOp ι→Segment ι
  | .tick i isDown => s.put i (zvrrpTimerForOne (s.routers i) isDown)
  | .deliver i p => s.put i (zvrrpReceive (s.routers i) p)

def segmentRun [DecidableEq ι] (s : Segment ι) (ops : List (SegmentOp ι)) : Segment ι :=
  ops.foldl segmentStep s

/-- A tick finds the configured priority; packets come from others. -/
def Legal (c : Setup ι) (s : Segment ι) : SegmentOp ι→Prop
  | .tick i isDown => (s.routers i).tickPriority isDown=c.priority i
  | .deliver i p => p∈s.sent ∧ p.ipSrc≠(c.address i).prefix4

/-- Every step is possible in the state it is made in. -/
def LegalRun [DecidableEq ι] (c : Setup ι) : Segment ι→List (SegmentOp ι)→Prop
  | _, [] => True
  | s, op::ops => Legal c s op ∧ LegalRun c (segmentStep s op) ops

/-- A router runs the configuration of the segment. -/
structure RouterOk (c : Setup ι) (i : ι) (v : VrrpRt) : Prop where
  adminState : v.adminState=.up
  priority : v.priority=c.priority i
  address : v.vif.address=some (c.address i)
  adverInt : v.adverInt=c.interval
  vrid : v.vrid=c.vrid

/-- A packet of a router: with its priority, or 0 before. -/
structure FromRouter (c : Setup ι) (j : ι) (p : VrrpPkt) : Prop where
  src : p.ipSrc=(c.address j).prefix4
  /-- It has the priority of the router or announces the end of a mastership. -/
  priority : p.priority=c.priority j ∨ p.priority=0
  ttl : p.ipTtl=255
  len : 8<p.ipLen
  type : p.versType%16=1
  auth : p.authType=0
  vrid : p.vrid=c.vrid
  adverInt : p.adverInt=c.interval

/-- Every router runs the configuration, every advertisement is one of a router. -/
structure SegmentOk (c : Setup ι) (s : Segment ι) : Prop where
  routers : ∀ i, RouterOk c i (s.routers i)
  sent : ∀ p∈s.sent, ∃ j, FromRouter c j p

variable {c : Setup ι} {i j : ι} {v : VrrpRt} {p : VrrpPkt}

theorem FromRouter.pktRank_eq (h : FromRouter c j p) (hp : p.priority≠0) : pktRank p=c.rank j := by
  have hprio := h.priority.resolve_right hp
  rw [pktRank,Setup.rank,hprio,h.src]

/-- What a running router sends is an advertisement of its own. -/
theorem RouterOk.fromRouter (h : RouterOk c i v) :
    FromRouter c i (zvrrpBuildPkt v (c.address i) v.priority) where
  src := rfl
  priority := by
    left
    have hr := c.priority_range i
    simp only [zvrrpBuildPkt,toU8,h.priority]
    omega
  ttl := rfl
  len := by
    simp only [zvrrpBuildPkt]
    omega
  type := by simp only [zvrrpBuildPkt]
  auth := rfl
  vrid := by
    have hr := c.vrid_range
    simp only [zvrrpBuildPkt,toU8,h.vrid]
    omega
  adverInt := by
    have hr := c.interval_range
    simp only [zvrrpBuildPkt,toU8,h.adverInt]
    omega

theorem RouterOk.fromRouter_of_sendAdv (h : RouterOk c i v) :
    ∀ q∈(zvrrpSendAdv v v.priority).filterMap Frame.advert, FromRouter c i q := by
  intro q hq
  rw [zvrrpSendAdv,h.address] at hq
  cases hifp : v.vif.ifp with
  | none =>
    rw [hifp] at hq
    cases hq
  | some ifp =>
    rw [hifp] at hq
    have hq' : q=zvrrpBuildPkt v (c.address i) v.priority := by simpa [Frame.advert] using hq
    rw [hq']
    exact h.fromRouter

theorem advert_gratuitousArps (v : VrrpRt) (as : List ℕ) :
    (as.flatMap (sendGratuitousArp v)).filterMap Frame.advert=[] := by
  rw [filterMap_eq_nil_iff]
  intro f hf
  obtain ⟨a,_,ha⟩ := mem_flatMap.mp hf
  unfold sendGratuitousArp at ha
  split at ha
  · rw [mem_singleton] at ha
    rw [ha]
    rfl
  · cases ha

/-- A step keeps the configuration and sends own advertisements. -/
structure RouterStep (c : Setup ι) (i : ι) (r : VrrpRt × List Frame) : Prop where
  ok : RouterOk c i r.1
  sent : ∀ q∈r.2.filterMap Frame.advert, FromRouter c i q

section

variable (h : RouterOk c i v) (adverTimer msDownTimer : ℕ) (state : OperState)
include h

theorem RouterOk.with_timers :
    RouterOk c i {v with adverTimer := adverTimer,msDownTimer := msDownTimer,state := state} :=
  ⟨h.adminState,h.priority,h.address,h.adverInt,h.vrid⟩

theorem RouterOk.quiet : RouterStep c i
      ({v with adverTimer := adverTimer,msDownTimer := msDownTimer,state := state},[]) :=
  ⟨h.with_timers adverTimer msDownTimer state,nofun⟩

theorem RouterOk.gotoMaster : RouterStep c i (zvrrpGotoMasterState v) := by
  refine ⟨h.with_timers _ v.msDownTimer _,fun q hq => ?_⟩
  rw [zvrrpGotoMasterState,filterMap_append,advert_gratuitousArps,append_nil] at hq
  exact h.fromRouter_of_sendAdv q hq

theorem RouterOk.not_owner : v.priority≠vrrpPrioOwner := by
  have hr := c.priority_range i
  rw [h.priority,vrrpPrioOwner]
  omega

theorem RouterOk.onInitState :
    zvrrpOnInitState v=({v with msDownTimer := toU32 v.downDelay,state := .backup},[]) := by
  rw [zvrrpOnInitState,if_neg (not_not_intro h.adminState),if_neg h.not_owner]

end

section

variable {isDown : ℕ→Bool}

theorem RouterOk.timerForOne_eq (h : RouterOk c i v) (htick : v.tickPriority isDown=c.priority i) :
    zvrrpTimerForOne v isDown=tickOnState v := by
  rw [zvrrpTimerForOne,htick,←h.priority]

theorem RouterOk.tickOnState (h : RouterOk c i v) : RouterStep c i (tickOnState v) := by
  rw [VrrpOperations.tickOnState]
  cases hstate : v.state with
  | init =>
    rw [h.onInitState]
    exact h.quiet v.adverTimer _ _
  | backup =>
    have hv := h.with_timers v.adverTimer (timerExpired v.msDownTimer).1 .backup
    dsimp only
    split
    · exact hv.gotoMaster
    · exact ⟨hv,nofun⟩
  | master =>
    have hv := h.with_timers (timerExpired v.adverTimer).1 v.msDownTimer .master
    dsimp only
    split
    · exact ⟨h.with_timers _ v.msDownTimer .master,hv.fromRouter_of_sendAdv⟩
    · exact ⟨hv,nofun⟩

theorem timerExpired_iff (timer : ℕ) : (timerExpired timer).2=true ↔ timer=1 := by
  unfold timerExpired
  split
  · rename_i hz
    simp [hz]
  rw [beq_iff_eq]
  omega

theorem RouterOk.tickOnState_master (h : RouterOk c i v) :
    (VrrpOperations.tickOnState v).1.state=.master ↔
      v.state=.master ∨ (v.state=.backup ∧ v.msDownTimer=1) := by
  rw [VrrpOperations.tickOnState]
  cases hstate : v.state with
  | init =>
    rw [h.onInitState]
    simp
  | backup =>
    dsimp only
    split
    · rename_i hexp
      simp [zvrrpGotoMasterState,(timerExpired_iff _).mp hexp]
    rename_i hexp
    have hone : v.msDownTimer≠1 := fun hone => hexp ((timerExpired_iff _).mpr hone)
    simp [hone]
  | master =>
    dsimp only
    split <;> simp

end

theorem RouterOk.receive_eq (h : RouterOk c i v) (hp : FromRouter c j p) :
    zvrrpReceive v p=zvrrpHandleOnState v p := by
  have hchk : zvrrpInChk2 v p=true := by
    rw [zvrrpInChk2,if_neg (not_not_intro hp.ttl),if_neg (not_le.mpr hp.len),
      if_neg (not_not_intro hp.type),if_neg (not_not_intro hp.auth),if_neg,if_neg]
    · rw [h.adverInt,hp.adverInt]
      simp
    rintro (hv|ho)
    · exact hv (by rw [h.vrid,hp.vrid])
    · exact h.not_owner ho.symm
  rw [zvrrpReceive,if_pos hchk]

theorem RouterOk.greater_iff (h : RouterOk c i v) (p : VrrpPkt) :
    ((p.priority : ℤ) > v.priority ∨ ((p.priority : ℤ)=v.priority ∧
      p.ipSrc.ntohl > (c.address i).prefix4.ntohl)) ↔ c.rank i<pktRank p := by
  rw [Setup.rank,pktRank,Prod.Lex.toLex_lt_toLex,h.priority]
  constructor
  · rintro (hlt|⟨heq,hlt⟩)
    · exact Or.inl (by exact_mod_cast hlt)
    · exact Or.inr ⟨by exact_mod_cast heq.symm,hlt⟩
  · rintro (hlt|⟨heq,hlt⟩)
    · exact Or.inl (by exact_mod_cast hlt)
    · exact Or.inr ⟨by exact_mod_cast heq.symm,hlt⟩

theorem Setup.not_rank_lt_stop (c : Setup ι) (i : ι) (hp : p.priority=0) : ¬c.rank i<pktRank p := by
  rw [Setup.rank,pktRank,Prod.Lex.toLex_lt_toLex,hp]
  have hr := c.priority_range i
  rintro (hlt|⟨heq,_⟩)
  · exact absurd hlt (Nat.not_lt_zero _)
  · omega

theorem RouterOk.receive (h : RouterOk c i v) (hp : FromRouter c j p) :
    RouterStep c i (zvrrpReceive v p) := by
  rw [h.receive_eq hp,zvrrpHandleOnState,h.address,if_neg (by simp)]
  cases hstate : v.state with
  | init =>
    rw [h.onInitState]
    exact h.quiet v.adverTimer _ _
  | backup =>
    rw [zvrrpOnBackupState,if_neg (not_not_intro h.adminState),h.address]
    dsimp only
    split
    · exact h.quiet v.adverTimer _ v.state
    split
    · exact h.quiet v.adverTimer _ v.state
    · exact h.quiet v.adverTimer v.msDownTimer v.state
  | master =>
    rw [zvrrpOnMasterState,if_neg (not_not_intro h.adminState),h.address]
    dsimp only
    split
    · exact ⟨h.with_timers _ v.msDownTimer v.state,h.fromRouter_of_sendAdv⟩
    split
    · exact h.quiet _ _ _
    · exact h.quiet v.adverTimer v.msDownTimer v.state

/-- An advertisement makes no master, and leaves a master alone unless it ranks
higher. -/
theorem RouterOk.receive_master (h : RouterOk c i v) (hp : FromRouter c j p) :
    (zvrrpReceive v p).1.state=.master ↔ v.state=.master ∧ ¬c.rank i<pktRank p := by
  rw [h.receive_eq hp,zvrrpHandleOnState,h.address,if_neg (by simp)]
  cases hstate : v.state with
  | init =>
    rw [h.onInitState]
    simp
  | backup =>
    rw [zvrrpOnBackupState,if_neg (not_not_intro h.adminState),h.address]
    dsimp only
    split
    · simp [hstate]
    · split <;> simp [hstate]
  | master =>
    rw [zvrrpOnMasterState,if_neg (not_not_intro h.adminState),h.address]
    dsimp only
    split
    · rename_i hz
      have hrank := c.not_rank_lt_stop i hz
      simp [hstate,hrank]
    rw [←h.greater_iff]
    split
    · rename_i hgreater
      simp [hgreater]
    rename_i hnot
    simp only [hstate,true_and,true_iff]
    exact hnot

theorem FromRouter.pktRank_le (h : FromRouter c j p) : pktRank p≤c.rank j := by
  by_cases hz : p.priority=0
  · have hnot := c.not_rank_lt_stop j hz
    exact not_lt.mp hnot
  · exact (h.pktRank_eq hz).le

section

variable {s : Segment ι} {op : SegmentOp ι}

/-- The router that makes a step. -/
def SegmentOp.router : SegmentOp ι→ι
  | .tick i _ => i
  | .deliver i _ => i

/-- The own part of a step. -/
def ownStep (v : VrrpRt) : SegmentOp ι→VrrpRt × List Frame
  | .tick _ isDown => zvrrpTimerForOne v isDown
  | .deliver _ p => zvrrpReceive v p

theorem SegmentOk.ownStep (h : SegmentOk c s) (hl : Legal c s op) :
    RouterStep c op.router (ownStep (s.routers op.router) op) := by
  cases op with
  | tick i isDown =>
    have hi := h.routers i
    have heq := hi.timerForOne_eq hl
    change RouterStep c i (zvrrpTimerForOne (s.routers i) isDown)
    rw [heq]
    exact hi.tickOnState
  | deliver i p =>
    obtain ⟨j,hp⟩ := h.sent p hl.1
    exact (h.routers i).receive hp

variable [DecidableEq ι]

theorem segmentStep_eq (s : Segment ι) (op : SegmentOp ι) :
    segmentStep s op=s.put op.router (ownStep (s.routers op.router) op) := by
  cases op with
  | tick i isDown | deliver i p => rfl

theorem segmentStep_of_ne (h : i≠op.router) : (segmentStep s op).routers i=s.routers i := by
  rw [segmentStep_eq]
  exact update_of_ne h _ _

theorem SegmentOk.step (h : SegmentOk c s) (hl : Legal c s op) :
    SegmentOk c (segmentStep s op) := by
  have hown := h.ownStep hl
  rw [segmentStep_eq]
  constructor
  · intro i
    by_cases hi : i=op.router
    · rw [hi,Segment.put]
      simpa using hown.ok
    rw [Segment.put]
    dsimp only
    rw [update_of_ne hi]
    exact h.routers i
  · intro p hp
    rcases mem_append.mp hp with hold|hnew
    · exact h.sent p hold
    · exact ⟨op.router,hown.sent p hnew⟩

/-- The step ends the wait of a backup for its master. -/
def Expires (s : Segment ι) (i : ι) : SegmentOp ι→Prop
  | .tick j _ => j=i ∧ (s.routers i).state=.backup ∧ (s.routers i).msDownTimer=1
  | .deliver _ _ => False

/-- The step brings an advertisement to a master that ranks below it. -/
def Yields (c : Setup ι) (i : ι) : SegmentOp ι→Prop
  | .tick _ _ => False
  | .deliver j p => j=i ∧ c.rank i<pktRank p

/-- Who is master after a step: who was and need not yield, and a backup whose
timer expires. -/
theorem SegmentOk.master_step (h : SegmentOk c s) (hl : Legal c s op) (i : ι) :
    ((segmentStep s op).routers i).state=.master ↔
      ((s.routers i).state=.master ∧ ¬Yields c i op) ∨ Expires s i op := by
  have hi := h.routers i
  cases op with
  | tick j isDown =>
    by_cases hij : i=j
    · subst hij
      have hput : (segmentStep s (.tick i isDown)).routers i =
          (zvrrpTimerForOne (s.routers i) isDown).1 := update_self ..
      rw [hput,hi.timerForOne_eq hl,hi.tickOnState_master]
      simp [Yields,Expires]
    rw [segmentStep_of_ne hij]
    simp [Yields,Expires,Ne.symm hij]
  | deliver j p =>
    by_cases hij : i=j
    · subst hij
      obtain ⟨k,hp⟩ := h.sent p hl.1
      have hput : (segmentStep s (.deliver i p)).routers i =
          (zvrrpReceive (s.routers i) p).1 := update_self ..
      rw [hput,hi.receive_master hp]
      simp [Yields,Expires]
    rw [segmentStep_of_ne hij]
    simp [Yields,Expires,Ne.symm hij]

variable {ops : List (SegmentOp ι)}

theorem legalRun_append {xs ys : List (SegmentOp ι)} :
    LegalRun c s (xs++ys) ↔ LegalRun c s xs ∧ LegalRun c (segmentRun s xs) ys := by
  induction xs generalizing s with
  | nil => simp [LegalRun,segmentRun]
  | cons op xs ih =>
    rw [cons_append,LegalRun,LegalRun,ih,and_assoc]
    rfl

theorem SegmentOk.run (h : SegmentOk c s) (hl : LegalRun c s ops) :
    SegmentOk c (segmentRun s ops) := by
  induction ops generalizing s with
  | nil => exact h
  | cons op ops ih => exact ih (h.step hl.1) hl.2

/-- No wait of the router ends during the run. -/
def NoExpiry (i : ι) : Segment ι→List (SegmentOp ι)→Prop
  | _, [] => True
  | s, op::ops => ¬Expires s i op ∧ NoExpiry i (segmentStep s op) ops

theorem SegmentOk.not_master_run (h : SegmentOk c s) (hl : LegalRun c s ops)
    (hquiet : NoExpiry i s ops) (hi : (s.routers i).state ≠ .master) :
    ((segmentRun s ops).routers i).state ≠ .master := by
  induction ops generalizing s with
  | nil => exact hi
  | cons op ops ih =>
    refine ih (h.step hl.1) hl.2 hquiet.2 ?_
    rw [Ne,h.master_step hl.1]
    rintro (⟨hmaster,_⟩|hexpires)
    · exact hi hmaster
    · exact hquiet.1 hexpires

/-- No router ranks above this one. -/
def Greatest (c : Setup ι) (g : ι) : Prop := ∀ i, c.rank i≤c.rank g

theorem SegmentOk.greatest_run {g : ι} (hg : Greatest c g) (h : SegmentOk c s)
    (hl : LegalRun c s ops) (hmaster : (s.routers g).state=.master) :
    ((segmentRun s ops).routers g).state=.master := by
  induction ops generalizing s with
  | nil => exact hmaster
  | cons op ops ih =>
    refine ih (h.step hl.1) hl.2 ((h.master_step hl.1 g).mpr (Or.inl ⟨hmaster,?_⟩))
    cases op with
    | tick j isDown => exact not_false
    | deliver j p =>
      rintro ⟨_,hlt⟩
      obtain ⟨k,hp⟩ := h.sent p hl.1.1
      exact absurd (hlt.trans_le hp.pktRank_le) (not_lt.mpr (hg k))

/-- The router has processed a packet of the other, and no wait ended. -/
def HeardFrom (c : Setup ι) (s : Segment ι) (ops : List (SegmentOp ι)) (i j : ι) : Prop :=
  ∃ before p after, ops=before ++ .deliver i p::after ∧ FromRouter c j p ∧ p.priority≠0 ∧
    NoExpiry i (segmentRun s (before++[.deliver i p])) after

theorem SegmentOk.heardFrom_run (h : SegmentOk c s) (hl : LegalRun c s ops)
    (hrank : c.rank i<c.rank j) (hheard : HeardFrom c s ops i j) :
    ((segmentRun s ops).routers i).state ≠ .master := by
  obtain ⟨before,p,after,hops,hp,hz,hquiet⟩ := hheard
  rw [hops,append_cons] at hl
  obtain ⟨hfst,hafter⟩ := legalRun_append.mp hl
  obtain ⟨hbef,hdeliver⟩ := legalRun_append.mp hfst
  have hb := h.run hbef
  have hstep : segmentRun s (before++[.deliver i p]) =
      segmentStep (segmentRun s before) (.deliver i p) := by
    rw [segmentRun,foldl_append]
    rfl
  have hnot : ((segmentRun s (before++[.deliver i p])).routers i).state ≠ .master := by
    rw [hstep,Ne,hb.master_step hdeliver.1]
    rintro (⟨_,hyields⟩|hexpires)
    · exact hyields ⟨rfl,by rw [hp.pktRank_eq hz]; exact hrank⟩
    · exact hexpires
  have hrun : segmentRun s ops=segmentRun (segmentRun s (before++[.deliver i p])) after := by
    rw [hops,append_cons,segmentRun,foldl_append]
    rfl
  rw [hrun]
  exact (h.run hfst).not_master_run hafter hquiet hnot

/-- The router processes an advertisement of the other one in the run. -/
def Processes (c : Setup ι) (ops : List (SegmentOp ι)) (i j : ι) : Prop :=
  ∃ p, .deliver i p∈ops ∧ FromRouter c j p ∧ p.priority≠0

theorem SegmentOk.not_processes (h : SegmentOk c s) (hl : LegalRun c s ops)
    (hrank : c.rank i<c.rank j)
    (hmaster : ∀ before after, ops=before++after →
      ((segmentRun s before).routers i).state=.master) :
    ¬Processes c ops i j := by
  rintro ⟨p,hmem,hp,hz⟩
  obtain ⟨before,after,hops⟩ := append_of_mem hmem
  have hsplit : ops=(before++[.deliver i p])++after := by rw [hops,append_cons]
  have hprefix : LegalRun c s (before++[.deliver i p]) := by
    rw [hsplit] at hl
    exact (legalRun_append.mp hl).1
  have hnot := h.heardFrom_run hprefix hrank ⟨before,p,[],rfl,hp,hz,trivial⟩
  exact hnot (hmaster _ after hsplit)

/-- A master gives way exactly if the sender ranks higher; the greatest router stays, alone as long
as no wait of a hearer ends; and two that hear each other do not both stay. -/
theorem segment_one_master (c : Setup ι) (s : Segment ι) (ops : List (SegmentOp ι))
    (h : SegmentOk c s) (hl : LegalRun c s ops) :
    (∀ before op after i, ops=before++op::after → ((segmentRun s before).routers i).state=.master →
      (((segmentStep (segmentRun s before) op).routers i).state ≠ .master ↔
        ∃ p j, op=.deliver i p ∧ FromRouter c j p ∧ p.priority≠0 ∧ c.rank i<c.rank j)) ∧
    (∀ g, Greatest c g → (s.routers g).state=.master →
      ((segmentRun s ops).routers g).state=.master ∧
      (∀ i, i≠g → HeardFrom c s ops i g → ((segmentRun s ops).routers i).state ≠ .master) ∧
      ((∀ i, i≠g → HeardFrom c s ops i g) →
        ∀ i, ((segmentRun s ops).routers i).state=.master ↔ i=g)) ∧
    (∀ i j, i≠j → (∀ before after, ops=before++after →
        ((segmentRun s before).routers i).state=.master ∧
        ((segmentRun s before).routers j).state=.master) →
      ¬(Processes c ops i j ∧ Processes c ops j i)) := by
  refine ⟨?_,?_,?_⟩
  · intro before op after i hops hmaster
    rw [hops] at hl
    obtain ⟨hbefore,hop,_⟩ := legalRun_append.mp hl
    have hb := h.run hbefore
    rw [Ne,hb.master_step hop]
    cases op with
    | tick j isDown => simp [hmaster,Yields]
    | deliver j p =>
      obtain ⟨k,hp⟩ := hb.sent p hop.1
      simp only [hmaster,Yields,Expires,or_false,true_and,not_not]
      constructor
      · rintro ⟨rfl,hlt⟩
        have hzero : p.priority≠0 := fun hzero => c.not_rank_lt_stop j hzero hlt
        exact ⟨p,k,rfl,hp,hzero,by rwa [←hp.pktRank_eq hzero]⟩
      · rintro ⟨q,m,heq,hq,hzero,hlt⟩
        obtain ⟨hij,hqp⟩ := SegmentOp.deliver.inj heq
        refine ⟨hij,?_⟩
        rw [hqp,hq.pktRank_eq hzero]
        exact hlt
  · intro g hg hmaster
    have hstays := h.greatest_run hg hl hmaster
    have hothers : ∀ i, i≠g → HeardFrom c s ops i g →
        ((segmentRun s ops).routers i).state ≠ .master := by
      intro i hi hheard
      have hlt : c.rank i<c.rank g := lt_of_le_of_ne (hg i) (fun heq => hi (c.rank_injective heq))
      exact h.heardFrom_run hl hlt hheard
    refine ⟨hstays,hothers,fun hall i => ⟨fun hi => ?_,fun hi => hi ▸ hstays⟩⟩
    by_contra hne
    exact hothers i hne (hall i hne) hi
  · rintro i j hij hboth ⟨hproc,hproc'⟩
    rcases lt_or_gt_of_ne (fun heq => hij (c.rank_injective heq)) with hlt|hlt
    · exact h.not_processes hl hlt (fun b a ho => (hboth b a ho).1) hproc
    · exact h.not_processes hl hlt (fun b a ho => (hboth b a ho).2) hproc'

end

/-- Two routers, the second one with the greater priority. -/
def pairSetup : Setup Bool where
  vrid := 1
  interval := 1
  priority := fun i => if i then 200 else 100
  address := fun i => ⟨⟨192,0,2,if i then 2 else 1⟩,24⟩
  vrid_range := by decide
  interval_range := by decide
  priority_range := by decide
  address_injective := by decide

/-- A router of the pair that took itself for the only one. -/
def pairRouter (i : Bool) : VrrpRt where
  used := true
  enable := true
  vrid := 1
  priority := pairSetup.priority i
  oldpriority := pairSetup.priority i
  vaddr := [3221225994]
  adverInt := 1
  preempt := true
  delay := 0
  state := .master
  adverTimer := 1
  vif := ⟨some ⟨2,[pairSetup.address i],1⟩,some (pairSetup.address i),1,5,none,none⟩
  adminState := .up
  msDownTimer := 0
  track := []

/-- The advertisement of a router of the pair. -/
def pairAdvert (i : Bool) : VrrpPkt :=
  zvrrpBuildPkt (pairRouter i) (pairSetup.address i) (pairRouter i).priority

/-- Both routers are master, nothing was sent yet. -/
def pairSegment : Segment Bool := ⟨pairRouter,[]⟩

/-- The greater router advertises, and the other one hears it. -/
def pairOps : List (SegmentOp Bool) := [.tick true fun _ => false,.deliver false (pairAdvert true)]

theorem pairRouter_ok (i : Bool) : RouterOk pairSetup i (pairRouter i) := ⟨rfl,rfl,rfl,rfl,rfl⟩

theorem segment_one_master_pair : ((segmentRun pairSegment pairOps).routers true).state=.master ∧
      ((segmentRun pairSegment pairOps).routers false).state ≠ .master := by
  have hok : SegmentOk pairSetup pairSegment := ⟨pairRouter_ok,nofun⟩
  have hl : LegalRun pairSetup pairSegment pairOps := by
    have htick : (pairRouter true).tickPriority (fun _ => false)=pairSetup.priority true := rfl
    have hsent : pairAdvert true ∈
        (segmentStep pairSegment (.tick true fun _ => false)).sent := by decide
    have hother : (pairAdvert true).ipSrc≠(pairSetup.address false).prefix4 := by decide
    exact ⟨htick,⟨hsent,hother⟩,trivial⟩
  have hgreatest : Greatest pairSetup true := by
    unfold Greatest
    decide
  have hheard : ∀ i, i≠true → HeardFrom pairSetup pairSegment pairOps i true := by
    intro i hi
    obtain rfl : i=false := Bool.eq_false_of_not_eq_true hi
    exact ⟨[.tick true fun _ => false],pairAdvert true,[],rfl,
      (pairRouter_ok true).fromRouter,by decide,trivial⟩
  have hone := ((segment_one_master pairSetup pairSegment pairOps hok hl).2.1 true hgreatest rfl).2.2 hheard
  exact ⟨(hone true).mpr rfl,fun h => absurd ((hone false).mp h) (by decide)⟩

end RoutePlatform.VrrpElection
