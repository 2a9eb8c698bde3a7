import RoutePlatform.RouteTableInvariant

/-!
# Finding and inserting a route

All searches of `lib/table.c` descend along the branch of one prefix. One
lemma describes a round of such a descent, and the specification of
`route_node_get` assembles the descent, the insertion of a leaf and the split
of an edge.
-/

namespace RoutePlatform.RouteTableInsertion

open PointerStore PrefixBytes BitString RouteTableOperations RouteTableShape RouteTableInvariant
  Option

variable {ι : Type} {n : RouteNode ι} {matched focus : Option ℕ} {i node : ℕ} {c : ℕ}

section

variable {t : RouteTable ι} {p : Prefix} (hs : Shape t)

/-- Least length of a prefix below `matched`. -/
def depthBelow (t : RouteTable ι) (matched : Option ℕ) : ℕ :=
  ((matched.bind t.read).map fun n => n.p.prefixlen+1).getD 0

theorem depthBelow_some (hi : t.read i=some n) : depthBelow t (some i)=n.p.prefixlen+1 := by
  simp [depthBelow,hi]

theorem depthBelow_le {node : Option ℕ} (h : OnBranch t p node matched) :
    depthBelow t matched≤p.prefixlen := by
  cases matched with
  | none => exact Nat.zero_le _
  | some m =>
    obtain ⟨n,hn,-,hlt,-⟩ := h
    rw [depthBelow_some hn]
    exact hlt

theorem onBranch_link (hi : t.read i=some n) (hpre : n.p.key <+: p.key)
    (hne : n.p.prefixlen≠p.prefixlen) :
    OnBranch t p (n.link (prefixBit p.u n.p.prefixlen)) (some i) := by
  have hle : n.p.prefixlen≤p.prefixlen := by simpa using hpre.length_le
  exact ⟨n,hi,hpre,by omega,rfl⟩

include hs

theorem onBranch_live (h : OnBranch t p (some i) matched) :
    ∃ n, t.read i=some n ∧ n.parent=matched ∧ depthBelow t matched≤n.p.prefixlen := by
  cases matched with
  | none =>
    obtain ⟨n,hn,hpar⟩ := hs.top_live h
    exact ⟨n,hn,hpar,Nat.zero_le _⟩
  | some m =>
    obtain ⟨x,hx,-,-,hlink⟩ := h
    obtain ⟨n,hn,hpar,-,hbit⟩ := hs.link_child hx hlink
    have hlt : x.p.prefixlen<n.p.prefixlen := by simpa using lt_length_of_getElem? hbit
    refine ⟨n,hn,hpar,?_⟩
    rw [depthBelow_some hx]
    exact hlt

/-- Where the descent of `route_node_get` can end. -/
def DescentEnd (t : RouteTable ι) (p : Prefix) : Descent→Prop
  | .found i => ∃ n, t.read i=some n ∧ n.p.key=p.key
  | .stop none matched => OnBranch t p none matched
  | .stop (some i) matched => OnBranch t p (some i) matched ∧
      ∃ n, t.read i=some n ∧ n.parent=matched ∧ ¬n.p.key <+: p.key

theorem getWalk_spec (fuel : ℕ) : ∀ {node matched : Option ℕ}, OnBranch t p node matched →
    p.prefixlen<fuel+depthBelow t matched →
    ∃ d, getWalk t p fuel node matched=some d ∧ DescentEnd t p d := by
  induction fuel with
  | zero =>
    intro node matched h hfuel
    have hle := depthBelow_le h
    omega
  | succ fuel ih =>
    intro node matched h hfuel
    cases node with
    | none => exact ⟨_,rfl,h⟩
    | some i =>
      obtain ⟨n,hi,hpar,hdepth⟩ := onBranch_live hs h
      rw [getWalk,hi,bind_eq_bind,bind_some]
      by_cases hpre : n.p.key <+: p.key
      · have hle : n.p.prefixlen≤p.prefixlen := by simpa using hpre.length_le
        rw [if_pos ⟨hle,(prefixMatch_iff _ _).mpr hpre⟩]
        by_cases heq : n.p.prefixlen=p.prefixlen
        · rw [if_pos heq]
          exact ⟨_,rfl,n,hi,key_eq_of_match hpre heq⟩
        rw [if_neg heq]
        apply ih (onBranch_link hi hpre heq)
        rw [depthBelow_some hi]
        omega
      rw [if_neg (fun hc => hpre ((prefixMatch_iff _ _).mp hc.2))]
      exact ⟨_,rfl,h,n,hi,hpar,hpre⟩

end

section

variable {fam : Family} {held : ℕ→ℕ} {t t' : RouteTable ι} {p q : Prefix}

theorem recount (h : NodeInvariant fam held focus t) (hc : c=t.nodes.size) :
    TableInvariant fam held focus {t with count := c} where
  shape := ⟨h.shape.edge_iff,h.shape.ordered⟩
  family := h.family
  stub := h.stub
  locks := h.locks
  counted := hc

theorem freshNode_locks (hheld : held t.nodes.next=0) (q : Prefix) :
    held t.nodes.next+infoLocks (freshNode q : RouteNode ι)≤0 := by
  rw [hheld]
  exact le_refl 0

/-- A leaf at the free place of its branch, maybe under a stub. -/
theorem leaf_invariant (h : NodeInvariant fam held focus t) (hp : OnBranch t p none matched)
    (ha : Attached (routeNodeSet t p) t' matched t.nodes.next (freshNode (prefixCopy p)))
    (hfoc : ∀ {m n}, focus=some m → t.read m=some n → matched=some m ∧ ∀ b,
      b≠prefixBit p.u n.p.prefixlen → n.link b≠none)
    (hfam : p.family=fam) (hheld : held t.nodes.next=0) :
    NodeInvariant fam held (some t.nodes.next) t' := by
  -- Every node but the new one is an old one that kept or gained links.
  have hback : ∀ {k y'}, t'.read k=some y' → k≠t.nodes.next → ∃ y, t.read k=some y ∧
      y'.p=y.p ∧ y'.lock=y.lock ∧ y'.info=y.info ∧ (∀ b, y.link b≠none → y'.link b≠none) ∧
      (matched=some k → y'.link (prefixBit p.u y.p.prefixlen)≠none) := by
    intro k y' hk hkn
    by_cases hkm : matched=some k
    · obtain ⟨y,hy,hread,-⟩ := leaf_read_matched hp ha hkm
      rw [hread] at hk
      cases hk
      refine ⟨y,hy,rfl,rfl,rfl,fun b hb => ?_,fun _ => ?_⟩
      · by_cases hbs : b=prefixBit p.u y.p.prefixlen
        · rw [hbs,link_withLink_self]
          exact some_ne_none _
        · rwa [link_withLink_of_ne y hbs]
      rw [link_withLink_self]
      exact some_ne_none _
    rw [leaf_read_other ha hkn hkm] at hk
    exact ⟨y',hk,rfl,rfl,rfl,fun _ hb => hb,fun hc => absurd hc hkm⟩
  refine ⟨leaf_shape h.shape hp ha,?_,?_,?_⟩
  · intro k y' hk
    by_cases hkn : k=t.nodes.next
    · rw [hkn,ha.read_new] at hk
      cases hk
      exact hfam
    obtain ⟨y,hy,hyp,-⟩ := hback hk hkn
    rw [hyp]
    exact h.family hy
  · intro k y' hk hz hnew b
    have hkn : k≠t.nodes.next := fun he => hnew (by rw [he])
    obtain ⟨y,hy,-,hyl,-,hlinks,hside⟩ := hback hk hkn
    rw [hyl] at hz
    by_cases hkf : focus=some k
    · obtain ⟨hm,hoth⟩ := hfoc hkf hy
      by_cases hbs : b=prefixBit p.u y.p.prefixlen
      · rw [hbs]
        exact hside hm
      · exact hlinks b (hoth b hbs)
    · exact hlinks b (h.stub hy hz hkf b)
  · intro k y' hk
    by_cases hkn : k=t.nodes.next
    · rw [hkn,ha.read_new] at hk
      cases hk
      rw [hkn]
      exact freshNode_locks hheld (prefixCopy p)
    obtain ⟨y,hy,-,hyl,hyi,-⟩ := hback hk hkn
    rw [hyl,infoLocks,hyi]
    exact h.locks hy

/-- A new node on an edge: it has one child and is a stub for a moment. -/
theorem split_invariant (h : NodeInvariant fam held none t) (hn : t.read node=some n)
    (hsplit : Split t t' node n q) (hq : q.key <+: n.p.key) (hlen : q.prefixlen<n.p.prefixlen)
    (hpar : ∀ m x, n.parent=some m → t.read m=some x → x.p.key <+: q.key ∧
      x.p.prefixlen<q.prefixlen)
    (hfam : q.family=fam) (hheld : held t.nodes.next=0) :
    NodeInvariant fam held (some t.nodes.next) t' := by
  have hback : ∀ {k y'}, t'.read k=some y' → k≠t.nodes.next → ∃ y, t.read k=some y ∧
      y'.p=y.p ∧ y'.lock=y.lock ∧ y'.info=y.info ∧ ∀ b, y.link b≠none → y'.link b≠none := by
    intro k y' hk hkn
    have hold : ∃ y, t.read k=some y := by
      by_cases hknode : k=node
      · exact ⟨n,hknode ▸ hn⟩
      by_cases hkp : n.parent=some k
      · obtain ⟨x,-,hx,-⟩ := h.shape.parent_some hn hkp
        exact ⟨x,hx⟩
      · exact ⟨y',by rw [←hsplit.read_other hkn hknode hkp,hk]⟩
    obtain ⟨y,hy⟩ := hold
    obtain ⟨y'',hy'',hyp,hyl,hyi,-,hlinks,-⟩ := Split.keep h.shape hn hsplit hq hpar hy
    rw [hk] at hy''
    cases hy''
    exact ⟨y,hy,hyp,hyl,hyi,hlinks⟩
  refine ⟨Split.shape h.shape hn hsplit hq hlen hpar,?_,?_,?_⟩
  · intro k y' hk
    by_cases hkn : k=t.nodes.next
    · rw [hkn,hsplit.read_new] at hk
      cases hk
      exact hfam
    obtain ⟨y,hy,hyp,-⟩ := hback hk hkn
    rw [hyp]
    exact h.family hy
  · intro k y' hk hz hnew b
    obtain ⟨y,hy,-,hyl,-,hlinks⟩ := hback hk fun he => hnew (by rw [he])
    exact hlinks b (h.stub hy (hyl ▸ hz) (some_ne_none k).symm b)
  intro k y' hk
  by_cases hkn : k=t.nodes.next
  · rw [hkn,hsplit.read_new] at hk
    cases hk
    rw [hkn]
    exact freshNode_locks hheld q
  obtain ⟨y,hy,-,hyl,hyi,-⟩ := hback hk hkn
  rw [hyl,infoLocks,hyi]
  exact h.locks hy

theorem parent_lt_commonPrefix {m : ℕ} {x : RouteNode ι} (hs : Shape t) (hn : t.read node=some n)
    (hm : OnBranch t p (some node) (some m)) (hx : t.read m=some x) :
    x.p.key <+: (commonPrefix n.p p).key ∧ x.p.prefixlen<(commonPrefix n.p p).prefixlen := by
  obtain ⟨x',hx',hpre,hlt,hlink⟩ := hm
  rw [hx] at hx'
  cases hx'
  obtain ⟨hpre',hbit'⟩ := hs.ordered hx hlink hn
  refine ⟨isPrefix_commonPrefix hpre' hpre,?_⟩
  -- The two also share the bit on which the branch leaves the parent.
  have hl := concat_isPrefix hpre' (by rw [Prefix.length_key,hbit'])
  have hr := concat_isPrefix hpre (by rw [Prefix.length_key,p.key_prefixBit hlt])
  have hlen := (isPrefix_commonPrefix hl hr).length_le
  rw [List.length_append,Prefix.length_key,Prefix.length_key,List.length_singleton] at hlen
  omega

theorem insertLeaf_spec (h : NodeInvariant fam held focus t) (hb : OnBranch t p none matched)
    (hfoc : ∀ {m n}, focus=some m → t.read m=some n → matched=some m ∧ ∀ b,
      b≠prefixBit p.u n.p.prefixlen → n.link b≠none)
    (hfam : p.family=fam) (hheld : held t.nodes.next=0) :
    ∃ t' n', attach (routeNodeSet t p) matched t.nodes.next=some t' ∧
      NodeInvariant fam held (some t.nodes.next) t' ∧ Keeps t t' ∧
      t'.read t.nodes.next=some n' ∧ n'.p.key=p.key ∧
      t'.count=t.count ∧ t'.nodes.size=t.nodes.size+1 := by
  obtain ⟨t',ht',ha⟩ := attach_spec matched (read_routeNodeNew_next t (prefixCopy p)) rfl (by
    rintro m rfl
    obtain ⟨x,hx,-⟩ := hb
    exact ⟨read_ne_next hx,x,read_routeNodeNew_of_some hx _⟩)
  have hkeep : Keeps t t' := by
    intro k n hk
    obtain ⟨n',hn',hp,-⟩ := leaf_grows hb ha hk
    exact ⟨n',hn',hp⟩
  exact ⟨t',_,ht',leaf_invariant h hb ha hfoc hfam hheld,hkeep,ha.read_new,
    prefixCopy_key p,ha.extent.count,ha.extent.size.trans (Store.size_alloc _ _)⟩

theorem insertSplit_spec (h : NodeInvariant fam held none t) (hn : t.read node=some n)
    (hb : OnBranch t p (some node) n.parent) (hnot : ¬n.p.key <+: p.key) (hfam : p.family=fam)
    (hheld : held t.nodes.next=0) :
    ∃ t1 t' n', setLink (routeNodeNew t (commonPrefix n.p p)) t.nodes.next node=some t1 ∧
      attach t1 n.parent t.nodes.next=some t' ∧
      NodeInvariant fam held (some t.nodes.next) t' ∧ Keeps t t' ∧
      t'.read t.nodes.next=some n' ∧ n'.p=commonPrefix n.p p ∧
      ((commonPrefix n.p p).prefixlen<p.prefixlen → OnBranch t' p none (some t.nodes.next) ∧
        ∀ b, b≠prefixBit p.u n'.p.prefixlen → n'.link b≠none) ∧
      t'.count=t.count ∧ t'.nodes.size=t.nodes.size+1 := by
  have hlen := commonPrefix_lt_of_not_isPrefix hnot
  have hq := commonPrefix_prefix_left hlen.le
  have hpar : ∀ m x, n.parent=some m → t.read m=some x →
      x.p.key <+: (commonPrefix n.p p).key ∧ x.p.prefixlen<(commonPrefix n.p p).prefixlen :=
    fun m x hm hx => parent_lt_commonPrefix h.shape hn (hm ▸ hb) hx
  obtain ⟨t1,t',ht1,ht',hsplit⟩ := split_spec h.shape hn (commonPrefix n.p p)
  have hkeep : Keeps t t' := by
    intro k y hk
    obtain ⟨y',hy',hp,-⟩ := Split.keep h.shape hn hsplit hq hpar hk
    exact ⟨y',hy',hp⟩
  refine ⟨t1,t',_,ht1,ht',split_invariant h hn hsplit hq hlen hpar hfam hheld,hkeep,
    hsplit.read_new,rfl,fun hlt => ⟨⟨_,hsplit.read_new,commonPrefix_prefix_right n.p p,hlt,?_⟩,
      fun b hbs => ?_⟩,hsplit.count,hsplit.size⟩
  · exact link_withLink_of_ne _ (commonPrefix_bit_ne hlt).symm _
  have hbn := (Bool.eq_not_of_ne hbs).trans (Bool.eq_not_of_ne (commonPrefix_bit_ne hlt)).symm
  rw [hbn]
  exact (link_withLink_self (freshNode _) _ _).trans_ne (some_ne_none _)

theorem lock_focus (h : NodeInvariant fam held (some i) t) (hi : t.read i=some n)
    (hc : c=t.nodes.size) :
    ∃ t' n', routeLockNode {t with count := c} i=some t' ∧
      TableInvariant fam (hold held i) none t' ∧ Keeps t t' ∧ t'.read i=some n' ∧ n'.p=n.p := by
  obtain ⟨t',ht',hinv,hread,hkeep,-⟩ := routeLockNode_spec (recount h hc) hi (.inr rfl)
  exact ⟨t',_,ht',hinv,hkeep,hread,rfl⟩

/-- `route_node_get` locks the node of the prefix and disturbs no other. -/
theorem routeNodeGet_spec (h : TableInvariant fam held none t) (hfam : p.family=fam)
    (hheld : ∀ k, t.nodes.next≤k → held k=0) :
    ∃ t' i n, routeNodeGet t p=some (t',i) ∧ TableInvariant fam (hold held i) none t' ∧
      Keeps t t' ∧ t'.read i=some n ∧ n.p.key=p.key := by
  have hroot : OnBranch t p t.top none := rfl
  obtain ⟨d,hd,hend⟩ := getWalk_spec h.shape branchFuel hroot (by
    have hp := p.len_le_128
    unfold branchFuel
    omega)
  rw [routeNodeGet,hd,bind_eq_bind,bind_some]
  rcases d with i|⟨_|node,matched⟩
  · obtain ⟨n,hi,hkey⟩ := hend
    obtain ⟨t',ht',hinv,hread,hkeep,-⟩ := routeLockNode_spec h hi (.inl rfl)
    refine ⟨t',i,_,?_,hinv,hkeep,hread,hkey⟩
    dsimp only
    rw [ht',bind_eq_bind,bind_some]
  · obtain ⟨t1,n1,ht1,hinv,hkeep,hread,hkey,hcnt,hsize⟩ :=
      insertLeaf_spec h.toNodeInvariant hend nofun hfam (hheld _ le_rfl)
    obtain ⟨t',n',ht',hinv',hkeep',hread',hp'⟩ :=
      lock_focus (c := t1.count+1) hinv hread (by rw [hcnt,hsize,h.counted])
    refine ⟨t',t.nodes.next,n',?_,hinv',hkeep.trans hkeep',hread',hp' ▸ hkey⟩
    simp only [bind_eq_bind]
    rw [ht1,bind_some,ht',bind_some]
  obtain ⟨hb,n,hn,rfl,hnot⟩ := hend
  obtain ⟨t1,t2,n2,ht1,ht2,hinv,hkeep,hread,hp2,hfree,hcnt,hsize⟩ :=
    insertSplit_spec h.toNodeInvariant hn hb hnot hfam (hheld _ le_rfl)
  have hright := commonPrefix_prefix_right n.p p
  simp only [bind_eq_bind]
  rw [hn,bind_some,ht1,bind_some,ht2,bind_some]
  by_cases hshort : (commonPrefix n.p p).prefixlen≠p.prefixlen
  · -- The new node is only an inner node; the prefix itself becomes its second child.
    rw [if_pos hshort]
    have hle : (commonPrefix n.p p).prefixlen≤p.prefixlen := by simpa using hright.length_le
    obtain ⟨hb2,hoth⟩ := hfree (lt_of_le_of_ne hle hshort)
    obtain ⟨t3,n3,ht3,hinv3,hkeep3,hread3,hkey,hcnt3,hsize3⟩ :=
      insertLeaf_spec hinv hb2 (by
        rintro m x ⟨⟩ hx
        rw [hread] at hx
        cases hx
        exact ⟨rfl,hoth⟩) hfam (hheld _ (Store.lt_next hread).le)
    obtain ⟨t',n',ht',hinv',hkeep',hread',hp'⟩ := lock_focus (c := t3.count+1+1) hinv3
      hread3 (by rw [hcnt3,hsize3,hcnt,hsize,h.counted])
    refine ⟨t',t2.nodes.next,n',?_,hinv',hkeep.trans (hkeep3.trans hkeep'),hread',hp' ▸ hkey⟩
    have hset : setLink (routeNodeSet t2 p) t.nodes.next t2.nodes.next=some t3 := ht3
    rw [hset,bind_some,ht',bind_some]
  · -- The common prefix is the prefix asked for.
    rw [if_neg hshort]
    obtain ⟨t',n',ht',hinv',hkeep',hread',hp'⟩ :=
      lock_focus (c := t2.count+1) hinv hread (by rw [hcnt,hsize,h.counted])
    refine ⟨t',t.nodes.next,n',?_,hinv',hkeep.trans hkeep',hread',?_⟩
    · rw [ht',bind_some]
    rw [hp',hp2]
    exact key_eq_of_match hright (not_not.mp hshort)

end

end RoutePlatform.RouteTableInsertion
