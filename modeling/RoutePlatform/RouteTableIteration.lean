import RoutePlatform.RouteTableRuns

/-!
# Iteration over a changing table

An iterator that pauses keeps nothing but the prefix it was at. Between two of its steps the table
may be restructured in any way. The iterator still moves strictly forward, and never passes over a
prefix that stays in the table.
-/

namespace RoutePlatform.RouteTableIteration

open PointerStore PrefixBytes BitString OperationRuns RouteTableOperations RouteTableShape
  List Option
open RouteTableInvariant RouteTableInsertion RouteTableOrder RouteTableRuns

variable {ι : Type}

/-- The table after `route_lock_node` on a live node. -/
def lockAt (t : RouteTable ι) (i : ℕ) : RouteTable ι := t.modify i fun n => n.withLock (n.lock+1)

theorem lockAt_comm (t : RouteTable ι) (i j : ℕ) : lockAt (lockAt t i) j=lockAt (lockAt t j) i := by
  unfold lockAt RouteTable.modify
  rw [Store.modify_comm]

section

variable {fam : Family} {held : ℕ→ℕ} {t : RouteTable ι} {i : ℕ} {n : RouteNode ι}

theorem routeLockNode_eq (hi : t.read i=some n) : routeLockNode t i=some (lockAt t i) := by
  rw [routeLockNode,hi]
  rfl

theorem lockAt_spec (h : TableInvariant fam held none t) (hi : t.read i=some n) :
    TableInvariant fam held none (lockAt t i) ∧ Keeps t (lockAt t i) ∧ Keeps (lockAt t i) t := by
  obtain ⟨t',ht',hinv,-,hto,hfrom⟩ := routeLockNode_spec h hi (.inl rfl)
  rw [routeLockNode_eq hi] at ht'
  cases ht'
  exact ⟨hinv.mono (le_hold held i),hto,hfrom⟩

/-- Releasing a fresh lock: `route_node_delete` leaves a fork alone. -/
theorem routeUnlockNode_lockAt (h : TableInvariant fam held none t) (hi : t.read i=some n) :
    routeUnlockNode (lockAt t i) i=some t := by
  have hread : (lockAt t i).read i=some (n.withLock (n.lock+1)) := by
    rw [lockAt,read_modify_of_some hi,if_pos rfl]
  have hback : (lockAt t i).modify i (fun n => n.withLock (n.lock-1))=t := by
    unfold lockAt RouteTable.modify
    rw [Store.modify_modify_cancel]
    intro a _
    rfl
  have hpos : (n.withLock (n.lock+1)).lock≠0 := Nat.succ_ne_zero _
  rw [routeUnlockNode,hread,bind_eq_bind,bind_some,if_neg hpos,hback]
  by_cases hz : n.lock=0
  · have hlast : (n.withLock (n.lock+1)).lock-1=0 := hz
    have hfocus : TableInvariant fam held (some i) t :=
      {h with stub := fun hk hkz _ => h.stub hk hkz (some_ne_none _).symm}
    have hfuel : n.p.prefixlen<branchFuel := by
      have hp := n.p.len_le_128
      unfold branchFuel
      omega
    obtain ⟨t',ht',-,-,-,hfork⟩ := routeNodeDelete_spec hfocus hi hz hfuel
    rw [if_pos hlast,ht',hfork (h.stub hi hz (some_ne_none _).symm)]
  have hlast : (n.withLock (n.lock+1)).lock-1≠0 := hz
  rw [if_neg hlast]

/-- The table with a lock on a node, if there is one. -/
def lockedAt (t : RouteTable ι) : Option ℕ→RouteTable ι
  | none => t
  | some i => lockAt t i

theorem routeNext_lockAt (h : TableInvariant fam held none t) (hi : t.read i=some n) :
    ∃ node, routeNext (lockAt t i) i=some (lockedAt t node,node) ∧
      FirstOf t (Behind n.p.key) node := by
  obtain ⟨hinv,hto,hfrom⟩ := lockAt_spec h hi
  obtain ⟨n1,hi1,hp1⟩ := hto hi
  obtain ⟨node,hnode,hfst⟩ := nextNode_spec hinv.shape hi1
  have hfst' := hfst.transfer hfrom hto
  rw [hp1] at hfst'
  refine ⟨node,?_,hfst'⟩
  simp only [routeNext,bind_eq_bind]
  rw [hnode,bind_some]
  cases node with
  | none =>
    rw [routeUnlockNode_lockAt h hi]
    rfl
  | some j =>
    obtain ⟨m,hj,-⟩ := hfst'
    obtain ⟨m1,hj1,-⟩ := hto hj
    obtain ⟨hinvj,htoj,-⟩ := lockAt_spec h hj
    obtain ⟨n2,hi2,-⟩ := htoj hi
    dsimp only
    rw [routeLockNode_eq hj1,bind_some,lockAt_comm,routeUnlockNode_lockAt hinvj hi2]
    rfl

end

section

variable {fam : Family} {held : ℕ→ℕ} {t : RouteTable ι} {p : Prefix}

variable (h : TableInvariant fam held none t)
include h

theorem getNextWalk_found {fuel i : ℕ} {n : RouteNode ι} (hi : t.read i=some n)
    (hkey : n.p.key=p.key) :
    ∃ node, getNextWalk p (fuel+1) t (some i)=some (t,node) ∧ FirstOf t (Behind p.key) node := by
  have hlen : n.p.prefixlen=p.prefixlen := by simpa using congrArg length hkey
  obtain ⟨node,hnext,hfst⟩ := routeNext_lockAt h hi
  rw [hkey] at hfst
  refine ⟨node,?_,hfst⟩
  have hmatch : (if n.p.prefixlen<p.prefixlen then prefixMatch n.p p
      else prefixMatch p n.p)=true := by
    rw [if_neg (by omega),prefixMatch_iff,hkey]
  simp only [getNextWalk,bind_eq_bind]
  rw [hi,bind_some,if_pos hmatch,if_pos hlen,routeLockNode_eq hi,bind_some,hnext,bind_some]
  cases node with
  | none => rfl
  | some j =>
    obtain ⟨m,hj,-⟩ := hfst
    dsimp only [lockedAt]
    rw [routeUnlockNode_lockAt h hj]
    rfl

/-- The walk below `parent` finds the first node behind the prefix in an unchanged table. -/
theorem getNextWalk_spec (fuel : ℕ) :
    ∀ {i : ℕ} {parent : Option ℕ}, OnBranch t p (some i) parent →
      p.prefixlen<fuel+depthBelow t parent →
      ∃ node, getNextWalk p fuel t (some i)=some (t,node) ∧ FirstOf t (Behind p.key) node := by
  induction fuel with
  | zero =>
    intro i parent hb hfuel
    have hle := depthBelow_le hb
    omega
  | succ fuel ih =>
    intro i parent hb hfuel
    obtain ⟨n,hi,-,hdepth⟩ := onBranch_live h.shape hb
    have hn := n.p.len_le_128
    obtain ⟨beyond,hbeyond,hfst⟩ :=
      subtreeNext_spec h.shape branchFuel hi (by unfold branchFuel; omega)
    by_cases hkey : n.p.key=p.key
    · exact getNextWalk_found h hi hkey
    simp only [getNextWalk,bind_eq_bind]
    rw [hi,bind_some]
    by_cases hpre : n.p.key <+: p.key
    · have hle : n.p.prefixlen≤p.prefixlen := by simpa using hpre.length_le
      have hne : n.p.prefixlen≠p.prefixlen := fun he => hkey (key_eq_of_match hpre he)
      have hlt : n.p.prefixlen<p.prefixlen := by omega
      have hmatch : (if n.p.prefixlen<p.prefixlen then prefixMatch n.p p
          else prefixMatch p n.p)=true := by
        rw [if_pos hlt]
        exact (prefixMatch_iff _ _).mpr hpre
      rw [if_pos hmatch,if_neg hne,if_neg (not_lt.mpr hle)]
      cases hlink : n.link (prefixBit p.u n.p.prefixlen) with
      | some c =>
        rw [if_pos (some_ne_none c)]
        apply ih (hlink ▸ onBranch_link hi hpre hne)
        rw [depthBelow_some hi]
        omega
      | none =>
        rw [if_neg (fun hc => hc rfl)]
        cases hright : n.link true with
        | some c =>
          rw [if_pos (some_ne_none c)]
          exact ⟨some c,rfl,firstOf_right h.shape hi hpre hlt hlink hright⟩
        | none =>
          rw [if_neg (fun hc => hc rfl),routeGetSubtreeNext,hbeyond,bind_some]
          exact ⟨beyond,rfl,hfst.congr fun hk =>
            behind_iff_beyond_of_leaf h.shape hi hpre hlt hlink hright hk⟩
    · by_cases hext : p.key <+: n.p.key
      · have hle : p.prefixlen≤n.p.prefixlen := by simpa using hext.length_le
        have hne : n.p.prefixlen≠p.prefixlen := fun he => hkey (key_eq_of_match hext he.symm).symm
        have hmatch : (if n.p.prefixlen<p.prefixlen then prefixMatch n.p p
            else prefixMatch p n.p)=true := by
          rw [if_neg (not_lt.mpr hle)]
          exact (prefixMatch_iff _ _).mpr hext
        rw [if_pos hmatch,if_neg hne,if_pos (lt_of_le_of_ne hle hne.symm)]
        refine ⟨some i,rfl,firstOf_branch h.shape hb hi (lt_of_isPrefix hext ?_)⟩
        rw [Prefix.length_key,Prefix.length_key]
        omega
      have hno : (if n.p.prefixlen<p.prefixlen then prefixMatch n.p p
          else prefixMatch p n.p)≠true := by
        split
        · exact fun hc => hpre ((prefixMatch_iff _ _).mp hc)
        · exact fun hc => hext ((prefixMatch_iff _ _).mp hc)
      rw [if_neg hno]
      rcases routeTablePrefixIterCmp_spec n.p p with ⟨hlt,hcmp⟩|⟨heq,-⟩|⟨hlt,hcmp⟩
      · rw [hcmp,bind_some,if_neg (by decide),if_pos (by decide),routeGetSubtreeNext,
          hbeyond,bind_some]
        exact ⟨beyond,rfl,hfst.congr fun hk => behind_iff_beyond h.shape hb hi hlt hpre hk⟩
      · exact absurd heq hkey
      rw [hcmp,bind_some,if_pos (by decide)]
      exact ⟨some i,rfl,firstOf_branch h.shape hb hi hlt⟩

/-- `route_table_get_next` locks the first node behind, and its assertion holds. -/
theorem routeTableGetNext_spec (p : Prefix) :
    ∃ node, routeTableGetNext t p=some (lockedAt t node,node) ∧ FirstOf t (Behind p.key) node ∧
      TableInvariant fam (holdAt held node) none (lockedAt t node) ∧ Keeps t (lockedAt t node) := by
  have hwalk : ∃ node, getNextWalk p branchFuel t t.top=some (t,node) ∧
      FirstOf t (Behind p.key) node := by
    cases htop : t.top with
    | none =>
      refine ⟨none,rfl,fun i n hi _ => ?_⟩
      obtain ⟨r,-,hr,-⟩ := top_isPrefix_of h.shape hi rfl
      rw [htop] at hr
      cases hr
    | some r =>
      have hroot : OnBranch t p (some r) none := htop
      have hp := p.len_le_128
      exact getNextWalk_spec h branchFuel hroot (by unfold branchFuel; omega)
  obtain ⟨node,hnode,hfst⟩ := hwalk
  simp only [routeTableGetNext,bind_eq_bind]
  rw [hnode,bind_some]
  cases node with
  | none => exact ⟨none,rfl,hfst,h,Keeps.refl t⟩
  | some i =>
    have hlive := hfst
    obtain ⟨n,hi,hlt,-⟩ := hlive
    obtain ⟨t',ht',hinv,-,hto,-⟩ := routeLockNode_spec h hi (.inl rfl)
    have hlock := routeLockNode_eq hi
    rw [hlock] at ht'
    cases ht'
    refine ⟨some i,?_,hfst,hinv,hto⟩
    rcases routeTablePrefixIterCmp_spec n.p p with ⟨hlt',-⟩|⟨heq,-⟩|⟨-,hcmp⟩
    · exact absurd hlt (lt_asymm hlt')
    · exact absurd hlt (heq ▸ lt_irrefl _)
    dsimp only
    rw [hi,bind_some,hcmp,bind_some,if_pos (by decide),hlock,bind_some]
    rfl

end

/-- A table, an iterator over it, and the prefixes it has returned so far. -/
structure Iteration (ι : Type) where
  table : RouteTable ι
  iter : RouteTableIter
  /-- What `route_table_iter_next` has returned, oldest first. -/
  returned : List Prefix

def routeTableIterInit (t : RouteTable ι) : Iteration ι := ⟨t,.init,[]⟩

/-- A call on the iterator, or any other call on the table in between. -/
inductive IterOp (ι : Type) where
  | change (op : TableOp ι)
  | next
  | pause

/-- The iteration after a call. The caller reads the prefix of the node it is
given. -/
def iterStep (s : Iteration ι) : IterOp ι→Option (Iteration ι)
  | .change op => do
    let t ← step s.table op
    some {s with table := t}
  | .next => do
    let (t,iter,node) ← routeTableIterNext s.table s.iter
    match node with
    | none => some ⟨t,iter,s.returned⟩
    | some i => do
      let n ← t.read i
      some ⟨t,iter,s.returned++[n.p]⟩
  | .pause => do
    let (t,iter) ← routeTableIterPause s.table s.iter
    some ⟨t,iter,s.returned⟩

def iterHeld : RouteTableIter→ℕ→ℕ
  | .iterating i => hold (fun _ => 0) i
  | _ => fun _ => 0

/-- Everybody else keeps the discipline and the lock of the iterator. -/
def IterLegal (fam : Family) (s : Iteration ι) : IterOp ι→Prop
  | .change op => Legal fam (iterHeld s.iter) s.table op
  | .next => True
  | .pause => True

instance (fam : Family) (s : Iteration ι) : ∀ op, Decidable (IterLegal fam s op)
  | .change op => inferInstanceAs (Decidable (Legal fam (iterHeld s.iter) s.table op))
  | .next => inferInstanceAs (Decidable True)
  | .pause => inferInstanceAs (Decidable True)

/-- `κ` is the greatest prefix returned so far. -/
def IsLast (returned : List Prefix) (κ : List Bool) : Prop :=
  (∃ q∈returned, q.key=κ) ∧ ∀ q∈returned, q.key≤κ

def Pending (returned : List Prefix) : List Bool → Prop := fun y => ∀ q∈returned, q.key<y

theorem IsLast.pending_iff {returned : List Prefix} {κ y : List Bool} (h : IsLast returned κ) :
    Behind κ y ↔ Pending returned y := by
  obtain ⟨⟨q,hq,hkey⟩,hle⟩ := h
  constructor
  · exact fun hlt q' hq' => (hle q' hq').trans_lt hlt
  · intro hp
    rw [←hkey]
    exact hp q hq

/-- Where the iterator stands relative to what it has returned. -/
def Stands (s : Iteration ι) : Prop :=
  match s.iter with
  | .init => s.returned=[]
  | .iterating i => ∃ n, s.table.read i=some n ∧ IsLast s.returned n.p.key
  | .paused q => IsLast s.returned q.key
  | .done => True

structure IterInvariant (fam : Family) (s : Iteration ι) : Prop where
  /-- The table is consistent and the lock of the iterator is there. -/
  table : TableInvariant fam (iterHeld s.iter) none s.table
  stands : Stands s
  sorted : s.returned.Pairwise fun a b => a.key<b.key

/-- A prefix is in the table. -/
def Contains (t : RouteTable ι) (κ : List Bool) : Prop := ∃ i n, t.read i=some n ∧ n.p.key=κ

/-- What a step of the iteration achieves for a prefix that is in the table. -/
def Accounted (s : Iteration ι) (κ : List Bool) : Prop :=
  (∃ q∈s.returned, q.key=κ) ∨ (s.iter ≠ .done ∧ Pending s.returned κ)

section

variable {fam : Family} {s : Iteration ι}

section

variable (h : IterInvariant fam s)
include h

theorem IterInvariant.heldLive : HeldLive (iterHeld s.iter) s.table := by
  intro k hk
  have hstands := h.stands
  unfold Stands at hstands
  cases hiter : s.iter with
  | iterating i =>
    rw [hiter] at hk hstands
    obtain ⟨n,hi,-⟩ := hstands
    by_cases hki : k=i
    · exact ⟨n,hki ▸ hi⟩
    rw [iterHeld,hold,if_neg hki] at hk
    exact absurd hk (lt_irrefl 0)
  | init | paused q | done =>
    rw [hiter] at hk
    exact absurd hk (lt_irrefl 0)

/-- `route_table_iter_next` moves to the first prefix behind everything it
has returned. -/
theorem routeTableIterNext_spec (hiter : s.iter ≠ .done) :
    ∃ t node, routeTableIterNext s.table s.iter=some (t,.moved node,node) ∧
      FirstOf s.table (Pending s.returned) node ∧
      TableInvariant fam (holdAt (fun _ => 0) node) none t ∧
      Persists (holdAt (fun _ => 0) node) s.table t := by
  have hinv := h.table
  have hstands := h.stands
  unfold Stands at hstands
  cases hcase : s.iter with
  | init =>
    rw [hcase] at hinv hstands
    obtain ⟨t,ht,hinv',hto,-⟩ := routeTop_spec hinv
    refine ⟨t,s.table.top,?_,?_,hinv',hto.persists _⟩
    · rw [routeTableIterNext,ht]
      rfl
    refine (firstOf_top hinv.shape).congr fun _ => ⟨fun _ => ?_,fun _ => trivial⟩
    rw [hstands]
    intro q hq
    cases hq
  | iterating i =>
    rw [hcase] at hinv hstands
    obtain ⟨n,hi,hlast⟩ := hstands
    obtain ⟨t,node,ht,hfst,hinv',hpersist⟩ := routeNext_spec hinv hi
    refine ⟨t,node,?_,hfst.congr fun _ => hlast.pending_iff,hinv',hpersist⟩
    rw [routeTableIterNext,ht]
    rfl
  | paused q =>
    rw [hcase] at hinv hstands
    obtain ⟨node,ht,hfst,hinv',hto⟩ := routeTableGetNext_spec hinv q
    refine ⟨_,node,?_,hfst.congr fun _ => IsLast.pending_iff hstands,hinv',hto.persists _⟩
    rw [routeTableIterNext,ht]
    rfl
  | done => exact absurd hcase hiter

theorem next_spec : ∃ s', iterStep s .next=some s' ∧ IterInvariant fam s' ∧
    ∀ κ, (s.iter ≠ .done → Contains s.table κ) → Accounted s κ → Accounted s' κ := by
  by_cases hiter : s.iter=.done
  · refine ⟨s,?_,h,fun κ _ hacc => hacc⟩
    rw [iterStep,hiter,routeTableIterNext]
    obtain ⟨t,iter,returned⟩ := s
    cases hiter
    rfl
  obtain ⟨t,node,ht,hfst,hinv,hpersist⟩ := routeTableIterNext_spec h hiter
  rw [iterStep,ht,bind_eq_bind,bind_some]
  cases node with
  | none =>
    refine ⟨_,rfl,⟨hinv,trivial,h.sorted⟩,fun κ hκ hacc => ?_⟩
    obtain ⟨i,n,hi,rfl⟩ := hκ hiter
    rcases hacc with hmem|⟨-,hpending⟩
    · exact .inl hmem
    · exact absurd hpending (hfst i n hi)
  | some j =>
    obtain ⟨m,hj,hpending,hleast⟩ := hfst
    obtain ⟨m',hj',hp⟩ := hpersist hj (by simp [holdAt,hold])
    dsimp only
    rw [hj',bind_eq_bind,bind_some]
    have hlast : IsLast (s.returned++[m'.p]) m'.p.key := by
      refine ⟨⟨m'.p,by simp,rfl⟩,fun q hq => ?_⟩
      rcases mem_append.mp hq with hold|hnew
      · rw [hp]
        exact (hpending q hold).le
      · rw [mem_singleton.mp hnew]
    refine ⟨_,rfl,⟨hinv,⟨m',hj',hlast⟩,?_⟩,fun κ hκ hacc => ?_⟩
    · rw [pairwise_append]
      refine ⟨h.sorted,pairwise_singleton _ _,fun a ha b hb => ?_⟩
      rw [mem_singleton.mp hb,hp]
      exact hpending a ha
    obtain ⟨i,n,hi,rfl⟩ := hκ hiter
    rcases hacc with ⟨q,hq,hkey⟩|⟨-,hpend⟩
    · exact .inl ⟨q,mem_append_left _ hq,hkey⟩
    rcases (hleast i n hi hpend).eq_or_lt with heq|hlt
    · exact .inl ⟨m'.p,by simp,by rw [hp,heq]⟩
    refine .inr ⟨by simp [RouteTableIter.moved],fun q hq => ?_⟩
    rcases mem_append.mp hq with hold|hnew
    · exact hpend q hold
    rw [mem_singleton.mp hnew,hp]
    exact hlt

theorem pause_spec : ∃ s', iterStep s .pause=some s' ∧
    IterInvariant fam s' ∧ s'.returned=s.returned ∧ (s'.iter=.done ↔ s.iter=.done) := by
  obtain ⟨t,iter,returned⟩ := s
  cases iter with
  | iterating i =>
    have hinv : TableInvariant fam (hold (fun _ => 0) i) none t := h.table
    have hstands : ∃ n, t.read i=some n ∧ IsLast returned n.p.key := h.stands
    obtain ⟨n,hi,hlast⟩ := hstands
    obtain ⟨t',ht',hinv',-⟩ := routeUnlockNode_spec hinv hi
    refine ⟨⟨t',.paused (prefixCopy n.p),returned⟩,?_,⟨hinv',?_,h.sorted⟩,rfl,by simp⟩
    · simp only [iterStep,routeTableIterPause,bind_eq_bind]
      rw [hi,bind_some,ht']
      rfl
    change IsLast returned (prefixCopy n.p).key
    rw [prefixCopy_key]
    exact hlast
  | init | paused q | done => exact ⟨_,rfl,h,rfl,Iff.rfl⟩

end

theorem change_spec {op : TableOp ι} (h : IterInvariant fam s)
    (hleg : IterLegal fam s (.change op)) : ∃ s', iterStep s (.change op)=some s' ∧
      IterInvariant fam s' ∧ s'.returned=s.returned ∧ (s'.iter=.done ↔ s.iter=.done) := by
  obtain ⟨t,ht,hinv,hpersist⟩ := step_spec h.table h.heldLive hleg
  refine ⟨{s with table := t},?_,⟨hinv,?_,h.sorted⟩,rfl,Iff.rfl⟩
  · rw [iterStep,ht]
    rfl
  have hstands := h.stands
  unfold Stands at hstands ⊢
  cases hiter : s.iter with
  | iterating i =>
    rw [hiter] at hstands hpersist
    obtain ⟨n,hi,hlast⟩ := hstands
    obtain ⟨n',hi',hp⟩ := hpersist hi (by simp [iterHeld,hold])
    exact ⟨n',hi',hp ▸ hlast⟩
  | init | paused q =>
    rw [hiter] at hstands
    exact hstands
  | done => trivial

theorem Accounted.congr {s' : Iteration ι} {κ : List Bool} (h : Accounted s κ)
    (hret : s'.returned=s.returned) (hdone : s'.iter=.done ↔ s.iter=.done) :
    Accounted s' κ := by
  unfold Accounted at h ⊢
  rw [hret]
  rcases h with hmem|⟨hne,hpending⟩
  · exact .inl hmem
  · exact .inr ⟨fun hd => hne (hdone.mp hd),hpending⟩

theorem iterStep_spec {op : IterOp ι} (h : IterInvariant fam s) (hleg : IterLegal fam s op) :
    ∃ s', iterStep s op=some s' ∧ IterInvariant fam s' ∧
      ∀ κ, (s.iter ≠ .done → Contains s.table κ) → Accounted s κ → Accounted s' κ := by
  cases op with
  | next => exact next_spec h
  | pause =>
    obtain ⟨s',hs',hinv,hret,hdone⟩ := pause_spec h
    exact ⟨s',hs',hinv,fun κ _ hacc => hacc.congr hret hdone⟩
  | change op =>
    obtain ⟨s',hs',hinv,hret,hdone⟩ := change_spec h hleg
    exact ⟨s',hs',hinv,fun κ _ hacc => hacc.congr hret hdone⟩

end

/-- A prefix is in the table in every state of the run in which the iterator
is not done. -/
def StaysIn (s : Iteration ι) (ops : List (IterOp ι)) (κ : List Bool) : Prop :=
  ∀ xs s', xs <+: ops → run iterStep s xs=some s' → s'.iter ≠ .done → Contains s'.table κ

/-- Every call of a run succeeds, with the invariant and lasting prefixes. -/
theorem iteration_run {fam : Family} (ops : List (IterOp ι)) : ∀ {s : Iteration ι},
    IterInvariant fam s → LegalRun iterStep (IterLegal fam) s ops →
    ∃ s', run iterStep s ops=some s' ∧ IterInvariant fam s' ∧
      ∀ κ, StaysIn s ops κ → Accounted s κ → Accounted s' κ := by
  induction ops with
  | nil =>
    intro s h _
    exact ⟨s,rfl,h,fun κ _ hacc => hacc⟩
  | cons op ops ih =>
    intro s h hleg
    obtain ⟨s1,hs1,hinv1,hacc1⟩ := iterStep_spec h hleg.1
    obtain ⟨s',hs',hinv',hacc'⟩ := ih hinv1 (hleg.2 s1 hs1)
    refine ⟨s',by rw [run_cons_of_step hs1,hs'],hinv',fun κ hstay hacc => ?_⟩
    apply hacc' κ
    · intro xs s2 hxs hrun hne
      refine hstay (op::xs) s2 (cons_prefix_cons.mpr ⟨rfl,hxs⟩) ?_ hne
      rw [run_cons_of_step hs1,hrun]
    · exact hacc1 κ (fun hne => hstay [] s nil_prefix rfl hne) hacc

/-- **A paused iteration loses and repeats nothing,** interleaved with any disciplined calls. -/
theorem routeTableIter_exact (fam : Family) (pre : List (TableOp ι)) (ops : List (IterOp ι))
    (t : RouteTable ι) (hpre : LegalRun step (Legal fam fun _ => 0) routeTableInit pre)
    (ht : run step routeTableInit pre=some t)
    (hops : LegalRun iterStep (IterLegal fam) (routeTableIterInit t) ops) :
    ∃ s, run iterStep (routeTableIterInit t) ops=some s ∧
      (s.returned.Pairwise fun a b => routeTablePrefixIterCmp a b=some (-1)) ∧
      (s.returned.map Prefix.key).Nodup ∧
      ∀ p : Prefix, StaysIn (routeTableIterInit t) ops p.key → s.iter=.done →
        (s.returned.map Prefix.key).count p.key=1 := by
  obtain ⟨t',ht',hinv⟩ := run_spec fam pre hpre
  rw [ht] at ht'
  cases ht'
  have hstart : IterInvariant fam (routeTableIterInit t) := ⟨hinv,rfl,List.Pairwise.nil⟩
  obtain ⟨s,hs,hinv',hacc⟩ := iteration_run ops hstart hops
  have hnodup : (s.returned.map Prefix.key).Nodup :=
    pairwise_map.mpr (hinv'.sorted.imp fun hlt => hlt.ne)
  refine ⟨s,hs,?_,hnodup,fun p hstay hdone => ?_⟩
  · refine hinv'.sorted.imp fun {a b} hlt => ?_
    rcases routeTablePrefixIterCmp_spec a b with ⟨-,hcmp⟩|⟨heq,-⟩|⟨hgt,-⟩
    · exact hcmp
    · exact absurd hlt (heq ▸ lt_irrefl _)
    · exact absurd hlt (lt_asymm hgt)
  have hstart' : Accounted (routeTableIterInit t) p.key :=
    .inr ⟨fun hd => (nomatch hd),fun q hq => (nomatch hq)⟩
  rcases hacc p.key hstay hstart' with ⟨q,hq,hkey⟩|⟨hne,-⟩
  · exact count_eq_one_of_mem hnodup (hkey ▸ mem_map_of_mem hq)
  · exact absurd hdone hne

/-- The node the iterator stands on is deleted while it is paused. -/
def sampleIteration : List (IterOp ℕ) :=
  [.next,.next,.pause,.change (.clearInfo 0),.change (.unlock 0),.next,.pause,.next]

theorem routeTableIter_exact_sampleIteration : ∃ t,
    run step (routeTableInit : RouteTable ℕ) (sampleRun.take 4)=some t ∧
      LegalRun iterStep (IterLegal .inet) (routeTableIterInit t) sampleIteration ∧
      ∃ s, run iterStep (routeTableIterInit t) sampleIteration=some s ∧
        s.returned.Pairwise fun a b => routeTablePrefixIterCmp a b=some (-1) := by
  have hpre : LegalRun step (Legal .inet fun _ => 0) (routeTableInit : RouteTable ℕ)
      (sampleRun.take 4) := by decide +kernel
  obtain ⟨t,ht,-⟩ := run_spec .inet (sampleRun.take 4) hpre
  have hops : ∃ t', run step (routeTableInit : RouteTable ℕ) (sampleRun.take 4)=some t' ∧
      LegalRun iterStep (IterLegal .inet) (routeTableIterInit t') sampleIteration :=
    ⟨_,rfl,by decide +kernel⟩
  obtain ⟨t',ht',hops⟩ := hops
  rw [ht] at ht'
  cases ht'
  obtain ⟨s,hs,hsorted,-⟩ := routeTableIter_exact .inet (sampleRun.take 4) sampleIteration t
    hpre ht hops
  exact ⟨t,ht,hops,s,hs,hsorted⟩

end RoutePlatform.RouteTableIteration
