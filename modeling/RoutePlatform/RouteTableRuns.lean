import RoutePlatform.RouteTableOrder

/-!
# Runs of route table operations

Clients of a table interleave insertions, locking, unlocking, changes of the user data and walks
in any order. A lock is released by somebody who holds it, and user data is stored on a held lock
and cleared before its release: the locks exceed the one of the user data.
-/

namespace RoutePlatform.RouteTableRuns

open PointerStore PrefixBytes BitString OperationRuns RouteTableOperations RouteTableShape
open RouteTableInvariant RouteTableInsertion RouteTableOrder

variable {ι : Type} {k : ℕ} (fam : Family)

/-- A call on a route table. -/
inductive TableOp (ι : Type) where
  | get (p : Prefix)
  | lock (node : ℕ)
  | unlock (node : ℕ)
  | setInfo (node : ℕ) (info : ι)
  | clearInfo (node : ℕ)
  | top
  | next (node : ℕ)

def step (t : RouteTable ι) : TableOp ι→Option (RouteTable ι)
  | .get p => (routeNodeGet t p).map Prod.fst
  | .lock i => routeLockNode t i
  | .unlock i => routeUnlockNode t i
  | .setInfo i v => setInfo t i (some v)
  | .clearInfo i => setInfo t i none
  | .top => (routeTop t).map Prod.fst
  | .next i => (routeNext t i).map Prod.fst

/-- A live node with a property. -/
def LiveWith (t : RouteTable ι) (i : ℕ) (cond : RouteNode ι→Prop) : Prop :=
  match t.read i with
  | none => False
  | some n => cond n

theorem liveWith_iff {t : RouteTable ι} {i : ℕ} {cond : RouteNode ι→Prop} :
    LiveWith t i cond ↔ ∃ n, t.read i=some n ∧ cond n := by
  unfold LiveWith
  cases t.read i <;> simp

instance (t : RouteTable ι) (i : ℕ) (cond : RouteNode ι → Prop) [DecidablePred cond] :
    Decidable (LiveWith t i cond) :=
  match h : t.read i with
  | none => isFalse (by rw [LiveWith,h]; exact id)
  | some n => decidable_of_iff (cond n) (by rw [LiveWith,h])

/-- A lock on the node that neither a protected token nor the user data
needs. -/
def Spare (held : ℕ → ℕ) (i : ℕ) (n : RouteNode ι) : Prop := held i+infoLocks n<n.lock

instance (held : ℕ → ℕ) (i : ℕ) : DecidablePred (Spare held i : RouteNode ι → Prop) :=
  fun _ => inferInstanceAs (Decidable (_<_))

/-- The reference counting discipline; tokens in `held` belong to others. -/
def Legal (fam : Family) (held : ℕ→ℕ) (t : RouteTable ι) : TableOp ι→Prop
  | .get p => p.family=fam
  | .lock i => LiveWith t i fun _ => True
  | .unlock i => LiveWith t i (Spare held i)
  | .setInfo i _ => LiveWith t i fun n => n.info.isSome ∨ Spare held i n
  | .clearInfo i => LiveWith t i fun _ => True
  | .top => True
  | .next i => LiveWith t i (Spare held i)

instance (fam : Family) (held : ℕ → ℕ) (t : RouteTable ι) : ∀ op, Decidable (Legal fam held t op)
  | .get _ => inferInstanceAs (Decidable (_=_))
  | .lock _ => inferInstanceAs (Decidable (LiveWith _ _ _))
  | .unlock _ => inferInstanceAs (Decidable (LiveWith _ _ _))
  | .setInfo _ _ => inferInstanceAs (Decidable (LiveWith _ _ _))
  | .clearInfo _ => inferInstanceAs (Decidable (LiveWith _ _ _))
  | .top => inferInstanceAs (Decidable True)
  | .next _ => inferInstanceAs (Decidable (LiveWith _ _ _))

section

variable {fam : Family} {held : ℕ→ℕ} {t : RouteTable ι}

/-- Protected tokens are held on live nodes. -/
def HeldLive (held : ℕ → ℕ) (t : RouteTable ι) : Prop := ∀ k, 0<held k → ∃ n, t.read k=some n

theorem HeldLive.fresh (h : HeldLive held t) (hk : t.nodes.next≤k) : held k=0 := by
  by_contra hne
  obtain ⟨n,hn⟩ := h k (pos_of_ne_zero hne)
  exact absurd (Store.lt_next hn) (not_lt.mpr hk)

variable (h : TableInvariant fam held none t)
include h

theorem setInfo_spec {i : ℕ} {n : RouteNode ι} {v : Option ι} (hi : t.read i=some n)
    (hv : v=none ∨ n.info.isSome ∨ Spare held i n) :
    ∃ t', setInfo t i v=some t' ∧ TableInvariant fam held none t' ∧ Keeps t t' := by
  have hf : Harmless fun n : RouteNode ι => n.withInfo v := fun _ => ⟨rfl,rfl,rfl⟩
  refine ⟨t.modify i fun n => n.withInfo v,by rw [setInfo,hi]; rfl,?_,modify_keeps hf⟩
  apply modify_invariant h hf
  · intro k m hk _ hz
    refine ⟨?_,by simp⟩
    by_cases hki : k=i
    · rwa [if_pos hki] at hz
    · rwa [if_neg hki] at hz
  intro k m hk
  by_cases hki : k=i
  · subst hki
    rw [hi] at hk
    cases hk
    rw [if_pos rfl]
    have hl := h.locks hi
    change held k+infoLocks (n.withInfo v)≤n.lock
    rcases hv with rfl|hsome|hspare
    · change held k+0≤n.lock
      omega
    · rw [infoLocks,if_pos hsome] at hl
      have hle : infoLocks (n.withInfo v)≤1 := by
        unfold infoLocks
        split <;> omega
      omega
    have hle : infoLocks (n.withInfo v)≤1 := by
      unfold infoLocks
      split <;> omega
    unfold Spare at hspare
    omega
  · rw [if_neg hki]
    exact h.locks hk

/-- Every disciplined call succeeds and keeps invariant and protected nodes. -/
theorem step_spec {op : TableOp ι} (hh : HeldLive held t) (hleg : Legal fam held t op) :
    ∃ t', step t op=some t' ∧ TableInvariant fam held none t' ∧ Persists held t t' := by
  cases op with
  | get p =>
    obtain ⟨t',i,n,ht',hinv,hkeep,-⟩ := routeNodeGet_spec h hleg fun k hk => hh.fresh hk
    exact ⟨t',by rw [step,ht']; rfl,hinv.mono (le_hold held i),hkeep.persists held⟩
  | lock i =>
    obtain ⟨n,hi,-⟩ := liveWith_iff.mp hleg
    obtain ⟨t',ht',hinv,-,hkeep,-⟩ := routeLockNode_spec h hi (.inl rfl)
    exact ⟨t',ht',hinv.mono (le_hold held i),hkeep.persists held⟩
  | unlock i =>
    obtain ⟨n,hi,hspare⟩ := liveWith_iff.mp hleg
    obtain ⟨t',ht',hinv,hpersist,-⟩ := routeUnlockNode_spec (h.claimToken hi hspare) hi
    exact ⟨t',ht',hinv,hpersist⟩
  | setInfo i v =>
    obtain ⟨n,hi,hspare⟩ := liveWith_iff.mp hleg
    obtain ⟨t',ht',hinv,hkeep⟩ := setInfo_spec h hi (.inr hspare)
    exact ⟨t',ht',hinv,hkeep.persists held⟩
  | clearInfo i =>
    obtain ⟨n,hi,-⟩ := liveWith_iff.mp hleg
    obtain ⟨t',ht',hinv,hkeep⟩ := setInfo_spec h hi (.inl rfl)
    exact ⟨t',ht',hinv,hkeep.persists held⟩
  | top =>
    obtain ⟨t',ht',hinv,hkeep,-⟩ := routeTop_spec h
    exact ⟨t',by rw [step,ht']; rfl,hinv.mono (le_holdAt held _),hkeep.persists held⟩
  | next i =>
    obtain ⟨n,hi,hspare⟩ := liveWith_iff.mp hleg
    obtain ⟨t',node,ht',-,hinv,hpersist⟩ := routeNext_spec (h.claimToken hi hspare) hi
    refine ⟨t',by rw [step,ht']; rfl,hinv.mono (le_holdAt held node),?_⟩
    intro k m hk hpos
    exact hpersist hk (hpos.trans_le (le_holdAt held node k))

end

/-- Nodes that can be reached from the top by child links. -/
inductive Reachable (t : RouteTable ι) : ℕ→Prop
  | top {i} : t.top=some i → Reachable t i
  | link {i n b c} : Reachable t i → t.read i=some n → n.link b=some c → Reachable t c

/-- What the rest of the program relies on. -/
structure Represents (t : RouteTable ι) : Prop where
  live : ∀ i, Reachable t i → ∃ n, t.read i=some n
  /-- A child strictly extends its parent, hangs on the link of its own bit,
  and points back. -/
  child : ∀ i n b c, Reachable t i → t.read i=some n → n.link b=some c →
    ∃ m, t.read c=some m ∧ n.p.key <+: m.p.key ∧ n.p.prefixlen < m.p.prefixlen ∧
      prefixBit m.p.u n.p.prefixlen=b ∧ m.parent=some i
  /-- A parent pointer is matched by a link; only the top has none. -/
  parent : ∀ i n, Reachable t i → t.read i=some n →
    match n.parent with
    | none => t.top=some i
    | some j => Reachable t j ∧ ∃ m b, t.read j=some m ∧ m.link b=some i
  topParent : ∀ i n, t.top=some i → t.read i=some n → n.parent=none
  unique : ∀ i j n m, Reachable t i → Reachable t j → t.read i=some n → t.read j=some m →
    n.p.key=m.p.key → i=j
  noStub : ∀ i n, Reachable t i → t.read i=some n → n.lock=0 →
    n.info=none ∧ n.link false≠none ∧ n.link true≠none
  count : t.count = {i | Reachable t i}.ncard

section

variable {fam : Family} {held : ℕ→ℕ} {t : RouteTable ι}

theorem reachable_live (hs : Shape t) {i : ℕ} (h : Reachable t i) : ∃ n, t.read i=some n := by
  cases h with
  | top htop =>
    obtain ⟨n,hn,-⟩ := hs.top_live htop
    exact ⟨n,hn⟩
  | link _ hj hc =>
    obtain ⟨m,hm,-⟩ := hs.link_child hj hc
    exact ⟨m,hm⟩

theorem live_reachable (hs : Shape t) : ∀ {i n}, t.read i=some n → n.p.prefixlen=k →
    Reachable t i := by
  induction k using Nat.strong_induction_on with
  | h k ih =>
    intro i n hi hk
    cases hp : n.parent with
    | none => exact .top (hs.parent_none hi hp)
    | some j =>
      obtain ⟨m,b,hj,hb,-,hbit⟩ := hs.parent_some hi hp
      have hlt : m.p.prefixlen<n.p.prefixlen := by simpa using lt_length_of_getElem? hbit
      exact .link (ih m.p.prefixlen (hk ▸ hlt) hj rfl) hj hb

theorem reachable_iff (hs : Shape t) (i : ℕ) : Reachable t i ↔ ∃ n, t.read i=some n :=
  ⟨reachable_live hs,fun ⟨_,hn⟩ => live_reachable hs hn rfl⟩

theorem TableInvariant.represents (h : TableInvariant fam held none t) : Represents t where
  live := fun i hi => reachable_live h.shape hi
  child := by
    intro i n b c _ hi hc
    obtain ⟨m,hm,hpar,hpre,hbit⟩ := h.shape.link_child hi hc
    have hlt : n.p.prefixlen < m.p.prefixlen := by simpa using lt_length_of_getElem? hbit
    refine ⟨m,hm,hpre,hlt,?_,hpar⟩
    rw [m.p.key_prefixBit hlt] at hbit
    exact Option.some.inj hbit
  parent := by
    intro i n _ hi
    cases hp : n.parent with
    | none => exact h.shape.parent_none hi hp
    | some j =>
      obtain ⟨m,b,hj,hb,-⟩ := h.shape.parent_some hi hp
      exact ⟨live_reachable h.shape hj rfl,m,b,hj,hb⟩
  topParent := by
    intro i n htop hi
    obtain ⟨n',hn',hp⟩ := h.shape.top_live htop
    rw [hi] at hn'
    cases hn'
    exact hp
  unique := fun i j n m _ _ hi hj hkey => eq_of_key_eq h.shape hi hj hkey
  noStub := by
    intro i n _ hi hz
    have hl := h.locks hi
    have hinfo : n.info=none := by
      cases hv : n.info with
      | none => rfl
      | some v =>
        rw [infoLocks,hv,Option.isSome_some,if_pos rfl] at hl
        omega
    have hfork := h.stub hi hz (Option.some_ne_none i).symm
    exact ⟨hinfo,hfork false,hfork true⟩
  count := by rw [h.counted,Store.ncard_eq_size (reachable_iff h.shape)]

end

theorem routeTableInit_invariant :
    TableInvariant fam (fun _ => 0) none (routeTableInit : RouteTable ι) where
  shape := by
    refine ⟨fun par i => ?_,nofun⟩
    constructor
    · cases par with
      | none => exact nofun
      | some j => exact fun ⟨_,_,hj,_⟩ => nomatch hj
    · exact fun ⟨_,hi,_⟩ => nomatch hi
  family := nofun
  stub := nofun
  locks := nofun
  counted := rfl

theorem run_spec (ops : List (TableOp ι))
    (hleg : LegalRun step (Legal fam fun _ => 0) routeTableInit ops) :
    ∃ t, run step routeTableInit ops=some t ∧ TableInvariant fam (fun _ => 0) none t := by
  refine run_invariant ?_ ops routeTableInit (routeTableInit_invariant fam) hleg
  intro t op h hop
  have hh : HeldLive (fun _ => 0) t := fun k hk => absurd hk (lt_irrefl 0)
  obtain ⟨t',ht',hinv,-⟩ := step_spec h hh hop
  exact ⟨t',ht',hinv⟩

/-- **Representation invariant.** After every disciplined run on an empty table the tree represents
its prefixes. -/
theorem routeTable_represents (fam : Family) (ops : List (TableOp ι))
    (hlegal : LegalRun step (Legal fam fun _ => 0) routeTableInit ops) :
    ∃ t, run step routeTableInit ops=some t ∧ Represents t := by
  obtain ⟨t,ht,hinv⟩ := run_spec fam ops hlegal
  exact ⟨t,ht,TableInvariant.represents hinv⟩

/-- A prefix of the first IPv4 byte `x`, with stray host bits. -/
def sampleRoute (x : BitVec 8) (prefixlen : ℕ) (h : prefixlen≤32) : Prefix where
  family := .inet
  prefixlen := prefixlen
  u := fun k => if k.val=0 then x else 7
  len_le := h

/-- Two routes that split at their fifth bit, one of them withdrawn again. -/
def sampleRun : List (TableOp ℕ) :=
  [.get (sampleRoute 0xa5 8 (by decide)),.setInfo 0 1,.get (sampleRoute 0xac 6 (by decide)),
    .setInfo 2 5,.top,.next 1,.unlock 0,.clearInfo 2,.unlock 2]

theorem sampleRun_legal :
    LegalRun step (Legal .inet fun _ => 0) (routeTableInit : RouteTable ℕ) sampleRun := by
  decide +kernel

theorem routeTable_represents_sampleRun :
    ∃ t, run step routeTableInit sampleRun=some t ∧ Represents t :=
  routeTable_represents .inet sampleRun sampleRun_legal

end RoutePlatform.RouteTableRuns
