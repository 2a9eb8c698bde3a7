import RoutePlatform.RouteTableOperations

/-!
# The shape of the radix tree and the three ways it changes

An edge is what the top pointer or a child link says; the parent pointers must say the same; and a
child must extend its parent by the bit of its side. A change of shape is then a small change of
the edge relation.
-/

namespace RoutePlatform.RouteTableShape

open PointerStore PrefixBytes BitString RouteTableOperations List Option

variable {ι : Type} {k : ℕ} {b : Bool} {y' y : RouteNode ι} {c : ℕ} {m : RouteNode ι} {j : ℕ}
  (n : RouteNode ι) (par : Option ℕ) (i : ℕ)

/-- What the top pointer (for no parent) and the child links say. -/
def Edge (t : RouteTable ι) : Option ℕ→ℕ→Prop
  | none, i => t.top=some i
  | some j, i => ∃ m b, t.read j=some m ∧ m.link b=some i

/-- What the parent pointer of a live node says. -/
def Parent (t : RouteTable ι) (par : Option ℕ) (i : ℕ) : Prop := ∃ n, t.read i=some n ∧ n.parent=par

/-- A link leads to an extension of the node by the bit of the link's side. -/
def Ordered (t : RouteTable ι) : Prop :=
  ∀ {i n b c m}, t.read i=some n → n.link b=some c → t.read c=some m →
    n.p.key <+: m.p.key ∧ m.p.key[n.p.prefixlen]? = some b

structure Shape (t : RouteTable ι) : Prop where
  edge_iff : ∀ par i, Edge t par i ↔ Parent t par i
  ordered : Ordered t

namespace Shape

variable {t : RouteTable ι} (hs : Shape t) {i j c : ℕ} {n m : RouteNode ι} {b : Bool}

include hs

theorem top_live (h : t.top=some i) : ∃ n, t.read i=some n ∧ n.parent=none :=
  (hs.edge_iff none i).mp h

theorem link_child (hi : t.read i=some n) (hc : n.link b=some c) :
    ∃ m, t.read c=some m ∧ m.parent=some i ∧ n.p.key <+: m.p.key ∧
      m.p.key[n.p.prefixlen]? = some b := by
  obtain ⟨m,hm,hpar⟩ := (hs.edge_iff (some i) c).mp ⟨n,b,hi,hc⟩
  obtain ⟨hpre,hbit⟩ := hs.ordered hi hc hm
  exact ⟨m,hm,hpar,hpre,hbit⟩

theorem parent_none (hi : t.read i=some n) (hn : n.parent=none) : t.top=some i :=
  (hs.edge_iff none i).mpr ⟨n,hi,hn⟩

theorem parent_some (hi : t.read i=some n) (hn : n.parent=some j) :
    ∃ m b, t.read j=some m ∧ m.link b=some i ∧ m.p.key <+: n.p.key ∧
      n.p.key[m.p.prefixlen]? = some b := by
  obtain ⟨m,b,hm,hb⟩ := (hs.edge_iff (some j) i).mpr ⟨n,hi,hn⟩
  obtain ⟨hpre,hbit⟩ := hs.ordered hm hb hi
  exact ⟨m,b,hm,hb,hpre,hbit⟩

end Shape

@[simp] theorem link_withLink_self (b : Bool) (c : Option ℕ) :
    (n.withLink b c).link b=c := Function.update_self _ _ _

theorem link_withLink_of_ne {b' : Bool} (h : b'≠b) (c : Option ℕ) :
    (n.withLink b c).link b'=n.link b' := Function.update_of_ne h _ _

section

variable {t : RouteTable ι} {i j : ℕ} {n c : RouteNode ι}

theorem read_modify (t : RouteTable ι) (i k : ℕ) (f : RouteNode ι→RouteNode ι) :
    (t.modify i f).read k=if k=i then (t.read i).map f else t.read k := rfl

theorem read_routeNodeNew (t : RouteTable ι) (p : Prefix) (k : ℕ) :
    (routeNodeNew t p).read k=if k=t.nodes.next then some (freshNode p) else t.read k := rfl

theorem read_ne_next (h : t.read i=some n) : i≠t.nodes.next := (Store.lt_next h).ne

theorem read_routeNodeNew_of_some (h : t.read i=some n) (p : Prefix) :
    (routeNodeNew t p).read i=some n := by
  rw [read_routeNodeNew,if_neg (read_ne_next h),h]

theorem read_routeNodeNew_next (t : RouteTable ι) (p : Prefix) :
    (routeNodeNew t p).read t.nodes.next=some (freshNode p) := by
  rw [read_routeNodeNew,if_pos rfl]

/-- Two tables with the same memory extent and counter. -/
structure SameExtent (t t' : RouteTable ι) : Prop where
  count : t'.count=t.count
  next : t'.nodes.next=t.nodes.next
  size : t'.nodes.size=t.nodes.size

theorem SameExtent.modify (t : RouteTable ι) (i : ℕ) (f : RouteNode ι→RouteNode ι) :
    SameExtent t (t.modify i f) := ⟨rfl,rfl,Store.size_modify _ _ _⟩

theorem SameExtent.trans {t' t'' : RouteTable ι} (h : SameExtent t t') (h' : SameExtent t' t'') :
    SameExtent t t'' :=
  ⟨h'.count.trans h.count,h'.next.trans h.next,h'.size.trans h.size⟩

/-- `t'` is `t` with the node `new`, whose record was `c`, hung below
`matched` or made the top. -/
structure Attached (t t' : RouteTable ι) (matched : Option ℕ) (new : ℕ) (c : RouteNode ι) :
    Prop where
  read_new : t'.read new=some (c.withParent matched)
  read_matched : ∀ {m n}, matched=some m → t.read m=some n →
    t'.read m=some (n.withLink (prefixBit c.p.u n.p.prefixlen) (some new))
  read_other : ∀ {k}, k≠new → matched≠some k → t'.read k=t.read k
  /-- The top pointer moves only when there is no parent. -/
  top : t'.top=if matched=none then some new else t.top
  extent : SameExtent t t'

theorem setLink_spec (hi : t.read i=some n) (hj : t.read j=some c) (hij : i≠j) :
    ∃ t', setLink t i j=some t' ∧ Attached t t' (some i) j c := by
  have he : setLink t i j=some ((t.modify i fun x => x.withLink
      (prefixBit c.p.u n.p.prefixlen) (some j)).modify j fun x => x.withParent (some i)) := by
    rw [setLink,hi,hj]
    rfl
  refine ⟨_,he,?_,?_,?_,rfl,(SameExtent.modify _ _ _).trans (SameExtent.modify _ _ _)⟩
  · rw [read_modify,read_modify,if_pos rfl,if_neg hij.symm,hj]
    rfl
  · rintro m n' ⟨⟩ hn'
    rw [hi] at hn'
    cases hn'
    rw [read_modify,if_neg hij,read_modify,if_pos rfl,hi]
    rfl
  intro k hkj hki
  rw [read_modify,if_neg hkj,read_modify,if_neg (fun h => hki (by rw [h]))]

theorem attach_spec (matched : Option ℕ) (hj : t.read j=some c) (hc : c.parent=none)
    (hm : ∀ m, matched=some m → m≠j ∧ ∃ n, t.read m=some n) :
    ∃ t', attach t matched j=some t' ∧ Attached t t' matched j c := by
  cases matched with
  | some m =>
    obtain ⟨hmj,n,hn⟩ := hm m rfl
    exact setLink_spec hn hj hmj
  | none =>
    refine ⟨_,rfl,?_,by simp,fun _ _ => rfl,rfl,⟨rfl,rfl,rfl⟩⟩
    rw [RouteNode.withParent,←hc]
    exact hj

end

/-- Following the branch of `p` from `matched`, or from the top, leads to
`node`. -/
def OnBranch (t : RouteTable ι) (p : Prefix) (node matched : Option ℕ) : Prop :=
  match matched with
  | none => t.top=node
  | some m => ∃ n, t.read m=some n ∧ n.p.key <+: p.key ∧ n.p.prefixlen<p.prefixlen ∧
      n.link (prefixBit p.u n.p.prefixlen)=node

/-- Every node of `t` is unchanged but for new links. -/
def Grows (t t' : RouteTable ι) : Prop :=
  ∀ {k n}, t.read k=some n → ∃ n', t'.read k=some n' ∧ n'.p=n.p ∧ n'.parent=n.parent ∧
    n'.lock=n.lock ∧ n'.info=n.info ∧ ∀ {b c}, n.link b=some c → n'.link b=some c

theorem prefixBit_prefixCopy {p : Prefix} (h : k<p.prefixlen) :
    prefixBit (prefixCopy p).u k=prefixBit p.u k := by
  have hc := (prefixCopy p).key_prefixBit (i := k) h
  rw [prefixCopy_key,p.key_prefixBit h] at hc
  exact (some.inj hc).symm

section

variable {t t' : RouteTable ι} {p : Prefix} {matched : Option ℕ}
variable (hs : Shape t) (hp : OnBranch t p none matched)
variable (ha : Attached (routeNodeSet t p) t' matched t.nodes.next (freshNode (prefixCopy p)))

include ha in
theorem leaf_read_other (hk : k≠t.nodes.next) (hkm : matched≠some k) : t'.read k=t.read k := by
  rw [ha.read_other hk hkm]
  exact (read_routeNodeNew t _ k).trans (if_neg hk)

include hp ha in
theorem leaf_read_matched {m : ℕ} (hm : matched=some m) : ∃ n, t.read m=some n ∧
    t'.read m=some (n.withLink (prefixBit p.u n.p.prefixlen) (some t.nodes.next)) ∧
    n.p.key <+: p.key ∧ n.p.prefixlen<p.prefixlen ∧
    n.link (prefixBit p.u n.p.prefixlen)=none := by
  subst hm
  obtain ⟨n,hn,hpre,hlen,hfree⟩ := hp
  refine ⟨n,hn,?_,hpre,hlen,hfree⟩
  rw [ha.read_matched rfl (read_routeNodeNew_of_some hn _)]
  exact congrArg (fun b => some (n.withLink b _)) (prefixBit_prefixCopy hlen)

include hp ha in
theorem leaf_grows : Grows t t' := by
  intro k n hk
  by_cases hkm : matched=some k
  · obtain ⟨n',hn',hread,-,-,hfree⟩ := leaf_read_matched hp ha hkm
    rw [hk] at hn'
    cases hn'
    refine ⟨_,hread,rfl,rfl,rfl,rfl,fun {b c} hc => ?_⟩
    have hb : b≠prefixBit p.u n.p.prefixlen := by
      rintro rfl
      rw [hfree] at hc
      cases hc
    exact (link_withLink_of_ne n hb _).trans hc
  · exact ⟨n,by rw [leaf_read_other ha (read_ne_next hk) hkm,hk],rfl,rfl,rfl,rfl,id⟩

include hp ha in
theorem leaf_link {n' : RouteNode ι} (hk : t'.read k=some n') (hc : n'.link b=some c) :
    ∃ n, t.read k=some n ∧ n'.p=n.p ∧ (n.link b=some c ∨
      (matched=some k ∧ c=t.nodes.next ∧ b=prefixBit p.u n.p.prefixlen)) := by
  by_cases hkn : k=t.nodes.next
  · rw [hkn,ha.read_new] at hk
    cases hk
    cases hc
  by_cases hkm : matched=some k
  · obtain ⟨n,hn,hread,-⟩ := leaf_read_matched hp ha hkm
    rw [hread] at hk
    cases hk
    refine ⟨n,hn,rfl,?_⟩
    by_cases hb : b=prefixBit p.u n.p.prefixlen
    · rw [hb,link_withLink_self] at hc
      exact .inr ⟨hkm,(some.inj hc).symm,hb⟩
    rw [link_withLink_of_ne n hb] at hc
    exact .inl hc
  rw [leaf_read_other ha hkn hkm] at hk
  exact ⟨n',hk,rfl,.inl hc⟩

include hp ha in
theorem leaf_edge : Edge t' par i ↔ Edge t par i ∨ par=matched ∧ i=t.nodes.next := by
  cases par with
  | none =>
    rw [Edge,Edge,ha.top]
    cases matched with
    | none =>
      have htop : t.top=none := hp
      simp [htop,eq_comm]
    | some m => simp [routeNodeSet,routeNodeNew]
  | some j =>
    constructor
    · rintro ⟨n',b,hj,hb⟩
      obtain ⟨n,hn,-,hc|⟨hm,hc,-⟩⟩ := leaf_link hp ha hj hb
      · exact .inl ⟨n,b,hn,hc⟩
      · exact .inr ⟨hm.symm,hc⟩
    · rintro (⟨n,b,hj,hb⟩|⟨hm,rfl⟩)
      · obtain ⟨n',hn',-,-,-,-,hl⟩ := leaf_grows hp ha hj
        exact ⟨n',b,hn',hl hb⟩
      obtain ⟨n,-,hread,-⟩ := leaf_read_matched hp ha hm.symm
      exact ⟨_,_,hread,link_withLink_self n _ _⟩

include hp ha in
theorem leaf_parent : Parent t' par i ↔ Parent t par i ∨ par=matched ∧ i=t.nodes.next := by
  constructor
  · rintro ⟨n',hn',rfl⟩
    by_cases hin : i=t.nodes.next
    · rw [hin,ha.read_new] at hn'
      cases hn'
      exact .inr ⟨rfl,hin⟩
    by_cases him : matched=some i
    · obtain ⟨n,hn,hread,-⟩ := leaf_read_matched hp ha him
      rw [hread] at hn'
      cases hn'
      exact .inl ⟨n,hn,rfl⟩
    rw [leaf_read_other ha hin him] at hn'
    exact .inl ⟨n',hn',rfl⟩
  · rintro (⟨n,hn,rfl⟩|⟨rfl,rfl⟩)
    · obtain ⟨n',hn',-,hpar,-⟩ := leaf_grows hp ha hn
      exact ⟨n',hn',hpar⟩
    · exact ⟨_,ha.read_new,rfl⟩

include hs hp ha in
/-- A leaf for `p` attached at its free place keeps the tree consistent. -/
theorem leaf_shape : Shape t' := by
  refine ⟨fun par i => ?_,?_⟩
  · rw [leaf_edge _ _ hp ha,leaf_parent _ _ hp ha,hs.edge_iff]
  intro i n' b c m' hi hc hm'
  obtain ⟨n,hn,hp',hold|⟨hm,hcn,hb⟩⟩ := leaf_link hp ha hi hc
  · obtain ⟨m,hm,-,hpre,hbit⟩ := hs.link_child hn hold
    obtain ⟨m'',hm'',hmp,-⟩ := leaf_grows hp ha hm
    rw [hm'] at hm''
    cases hm''
    rw [hp',hmp]
    exact ⟨hpre,hbit⟩
  rw [hcn,ha.read_new] at hm'
  cases hm'
  obtain ⟨n'',hn'',-,hpre,hlen,-⟩ := leaf_read_matched hp ha hm
  rw [hn] at hn''
  cases hn''
  rw [hp',hb]
  change _ <+: (prefixCopy p).key ∧ (prefixCopy p).key[_]? = _
  rw [prefixCopy_key]
  exact ⟨hpre,p.key_prefixBit hlen⟩

end

section

variable {t t' : RouteTable ι} {node : ℕ} {n : RouteNode ι} {q : Prefix}

/-- `t'` is `t` with a new node for `q` between `node` and its parent. -/
structure Split (t t' : RouteTable ι) (node : ℕ) (n : RouteNode ι) (q : Prefix) : Prop where
  /-- The new node takes over the parent and has `node` as its only child. -/
  read_new : t'.read t.nodes.next=some (((freshNode q).withLink
    (prefixBit n.p.u q.prefixlen) (some node)).withParent n.parent)
  read_node : t'.read node=some (n.withParent (some t.nodes.next))
  read_parent : ∀ {m x}, n.parent=some m → t.read m=some x →
    t'.read m=some (x.withLink (prefixBit q.u x.p.prefixlen) (some t.nodes.next))
  read_other : ∀ {k}, k≠t.nodes.next → k≠node → n.parent≠some k → t'.read k=t.read k
  /-- The top pointer moves when the top node was split. -/
  top : t'.top=if n.parent=none then some t.nodes.next else t.top
  count : t'.count=t.count
  size : t'.nodes.size=t.nodes.size+1

/-- The split code of `route_node_get` produces such a table. -/
theorem split_spec (hs : Shape t) (hn : t.read node=some n) (q : Prefix) :
    ∃ t1 t', setLink (routeNodeNew t q) t.nodes.next node=some t1 ∧
      attach t1 n.parent t.nodes.next=some t' ∧ Split t t' node n q := by
  have hne := read_ne_next hn
  obtain ⟨t1,ht1,ha1⟩ := setLink_spec (read_routeNodeNew_next t q)
    (read_routeNodeNew_of_some hn q) hne.symm
  have hnew := ha1.read_matched rfl (read_routeNodeNew_next t q)
  have hoth : ∀ {k}, k≠t.nodes.next → k≠node → t1.read k=t.read k := by
    intro k hk hkn
    rw [ha1.read_other hkn (fun h => hk (some.inj h).symm)]
    exact (read_routeNodeNew t q k).trans (if_neg hk)
  -- The parent is another node: a node is never its own proper prefix.
  have hpar : ∀ m, n.parent=some m → m≠t.nodes.next ∧ m≠node ∧ ∃ x, t.read m=some x := by
    intro m hm
    obtain ⟨x,b,hx,-,-,hbit⟩ := hs.parent_some hn hm
    refine ⟨read_ne_next hx,?_,x,hx⟩
    rintro rfl
    rw [hn] at hx
    cases hx
    have hlt := lt_length_of_getElem? hbit
    rw [Prefix.length_key] at hlt
    exact lt_irrefl _ hlt
  obtain ⟨t',ht',ha⟩ := attach_spec n.parent hnew rfl (by
    intro m hm
    obtain ⟨h1,h2,x,hx⟩ := hpar m hm
    exact ⟨h1,x,by rw [hoth h1 h2,hx]⟩)
  refine ⟨t1,t',ht1,ht',ha.read_new,?_,?_,?_,?_,?_,?_⟩
  · rw [ha.read_other hne (fun h => (hpar node h).2.1 rfl)]
    exact ha1.read_new
  · intro m x hm hx
    obtain ⟨h1,h2,-⟩ := hpar m hm
    exact ha.read_matched hm ((hoth h1 h2).trans hx)
  · intro k hk hkn hkp
    rw [ha.read_other hk hkp,hoth hk hkn]
  · rw [ha.top,ha1.top]
    rfl
  · exact (ha1.extent.trans ha.extent).count
  · exact (ha1.extent.trans ha.extent).size.trans (Store.size_alloc _ _)

namespace Split

variable (hs : Shape t) (hn : t.read node=some n) (h : Split t t' node n q)
variable (hq : q.key <+: n.p.key) (hlen : q.prefixlen<n.p.prefixlen)
variable (hpar : ∀ m x, n.parent=some m → t.read m=some x →
  x.p.key <+: q.key ∧ x.p.prefixlen<q.prefixlen)

include hs hn hq hpar in
theorem side {m : ℕ} {x : RouteNode ι} (hm : n.parent=some m) (hx : t.read m=some x)
    (hb : x.link b=some node) : b=prefixBit q.u x.p.prefixlen := by
  have hbit := (hs.ordered hx hb hn).2
  have hlt := (hpar m x hm hx).2
  rw [getElem?_of_isPrefix hq (by simpa using hlt),q.key_prefixBit hlt] at hbit
  exact (some.inj hbit).symm

include hs hn h hq hpar in
theorem link (hk : t'.read k=some y') (hc : y'.link b=some c) :
    (k=t.nodes.next ∧ c=node ∧ y'.p=q ∧ b=prefixBit n.p.u q.prefixlen) ∨
    (∃ y, t.read k=some y ∧ y'.p=y.p ∧ n.parent=some k ∧ c=t.nodes.next ∧
      b=prefixBit q.u y.p.prefixlen) ∨
    (∃ y, t.read k=some y ∧ y'.p=y.p ∧ y.link b=some c ∧ c≠node) := by
  by_cases hkn : k=t.nodes.next
  · rw [hkn,h.read_new] at hk
    cases hk
    change ((freshNode q).withLink _ _).link b=some c at hc
    by_cases hb : b=prefixBit n.p.u q.prefixlen
    · rw [hb,link_withLink_self] at hc
      exact .inl ⟨hkn,(some.inj hc).symm,rfl,hb⟩
    rw [link_withLink_of_ne _ hb] at hc
    cases hc
  by_cases hkp : n.parent=some k
  · obtain ⟨x,b',hx,hb',-⟩ := hs.parent_some hn hkp
    rw [h.read_parent hkp hx] at hk
    cases hk
    by_cases hb : b=prefixBit q.u x.p.prefixlen
    · rw [hb,link_withLink_self] at hc
      exact .inr (.inl ⟨x,hx,rfl,hkp,(some.inj hc).symm,hb⟩)
    rw [link_withLink_of_ne x hb] at hc
    refine .inr (.inr ⟨x,hx,rfl,hc,?_⟩)
    rintro rfl
    exact hb (side hs hn hq hpar hkp hx hc)
  have hold : ∃ y, t.read k=some y ∧ y'.p=y.p ∧ y'.link=y.link := by
    by_cases hknode : k=node
    · rw [hknode,h.read_node] at hk
      cases hk
      exact ⟨n,hknode ▸ hn,rfl,rfl⟩
    rw [h.read_other hkn hknode hkp] at hk
    exact ⟨y',hk,rfl,rfl⟩
  obtain ⟨y,hy,hyp,hyl⟩ := hold
  rw [hyl] at hc
  refine .inr (.inr ⟨y,hy,hyp,hc,?_⟩)
  rintro rfl
  obtain ⟨n',hn',hpar',-⟩ := hs.link_child hy hc
  rw [hn] at hn'
  cases hn'
  exact hkp hpar'

include hs hn h hq hpar in
/-- Old nodes are unchanged but for links around the split. -/
theorem keep (hk : t.read k=some y) :
    ∃ y', t'.read k=some y' ∧ y'.p=y.p ∧ y'.lock=y.lock ∧ y'.info=y.info ∧
      (k≠node → y'.parent=y.parent) ∧ (∀ b, y.link b≠none → y'.link b≠none) ∧
      ∀ {b c}, y.link b=some c → c≠node → y'.link b=some c := by
  have hkn := read_ne_next hk
  by_cases hkp : n.parent=some k
  · refine ⟨_,h.read_parent hkp hk,rfl,rfl,rfl,fun _ => rfl,fun b hb => ?_, fun {b c} hb hc => ?_⟩
    · by_cases hbs : b=prefixBit q.u y.p.prefixlen
      · rw [hbs,link_withLink_self]
        simp
      · rwa [link_withLink_of_ne y hbs]
    rw [link_withLink_of_ne]
    · exact hb
    rintro rfl
    obtain ⟨x,b',hx,hb',-⟩ := hs.parent_some hn hkp
    rw [hk] at hx
    cases hx
    have hside := side hs hn hq hpar hkp hk hb'
    rw [hside,hb] at hb'
    exact hc (some.inj hb')
  · by_cases hknode : k=node
    · subst hknode
      rw [hn] at hk
      cases hk
      exact ⟨_,h.read_node,rfl,rfl,rfl,fun hc => absurd rfl hc,fun _ hb => hb, fun hb _ => hb⟩
    exact ⟨y,by rw [h.read_other hkn hknode hkp,hk],rfl,rfl,rfl,fun _ => rfl,
      fun _ hb => hb,fun hb _ => hb⟩

include hs hn h in
theorem edge_none : Edge t' none i ↔ (Edge t none i ∧ i≠node) ∨
    (none=n.parent ∧ i=t.nodes.next) := by
  rw [Edge,Edge,h.top]
  by_cases hnp : n.parent=none
  · rw [if_pos hnp,hnp,hs.parent_none hn hnp]
    constructor
    · exact fun he => .inr ⟨rfl,(some.inj he).symm⟩
    · rintro (⟨he,hi⟩|⟨-,rfl⟩)
      · exact absurd (some.inj he).symm hi
      · rfl
  rw [if_neg hnp]
  constructor
  · intro he
    refine .inl ⟨he,?_⟩
    rintro rfl
    obtain ⟨n',hn',hp⟩ := hs.top_live he
    rw [hn] at hn'
    cases hn'
    exact hnp hp
  · rintro (⟨he,-⟩|⟨he,-⟩)
    · exact he
    · exact absurd he.symm hnp

include hs hn h hq hpar in
theorem edge : Edge t' par i ↔ (Edge t par i ∧ i≠node) ∨
    (par=n.parent ∧ i=t.nodes.next) ∨ (par=some t.nodes.next ∧ i=node) := by
  cases par with
  | none =>
    rw [edge_none _ hs hn h]
    simp
  | some j =>
    constructor
    · rintro ⟨y',b,hj,hb⟩
      rcases link hs hn h hq hpar hj hb with
        ⟨hjn,hi,-⟩ | ⟨y,-,-,hjp,hi,-⟩ | ⟨y,hy,-,hb',hi⟩
      · exact .inr (.inr ⟨by rw [hjn],hi⟩)
      · exact .inr (.inl ⟨hjp.symm,hi⟩)
      · exact .inl ⟨⟨y,b,hy,hb'⟩,hi⟩
    · rintro (⟨⟨y,b,hj,hb⟩,hi⟩|⟨hjp,rfl⟩|⟨hjn,rfl⟩)
      · obtain ⟨y',hy',-,-,-,-,-,hl⟩ := keep hs hn h hq hpar hj
        exact ⟨y',b,hy',hl hb hi⟩
      · obtain ⟨x,-,hx,-⟩ := hs.parent_some hn hjp.symm
        exact ⟨_,_,h.read_parent hjp.symm hx,link_withLink_self x _ _⟩
      cases hjn
      exact ⟨_,_,h.read_new,link_withLink_self (freshNode q) _ _⟩

include hs hn h hq hpar in
theorem parent : Parent t' par i ↔ (Parent t par i ∧ i≠node) ∨
    (par=n.parent ∧ i=t.nodes.next) ∨ (par=some t.nodes.next ∧ i=node) := by
  constructor
  · rintro ⟨y',hy',rfl⟩
    by_cases hin : i=t.nodes.next
    · rw [hin,h.read_new] at hy'
      cases hy'
      exact .inr (.inl ⟨rfl,hin⟩)
    by_cases hinode : i=node
    · rw [hinode,h.read_node] at hy'
      cases hy'
      exact .inr (.inr ⟨rfl,hinode⟩)
    by_cases hip : n.parent=some i
    · obtain ⟨x,-,hx,-⟩ := hs.parent_some hn hip
      rw [h.read_parent hip hx] at hy'
      cases hy'
      exact .inl ⟨⟨x,hx,rfl⟩,hinode⟩
    rw [h.read_other hin hinode hip] at hy'
    exact .inl ⟨⟨y',hy',rfl⟩,hinode⟩
  · rintro (⟨⟨y,hy,rfl⟩,hi⟩|⟨rfl,rfl⟩|⟨rfl,rfl⟩)
    · obtain ⟨y',hy',-,-,-,hp,-⟩ := keep hs hn h hq hpar hy
      exact ⟨y',hy',hp hi⟩
    · exact ⟨_,h.read_new,rfl⟩
    · exact ⟨_,h.read_node,rfl⟩

include hs hn h hq hlen hpar in
/-- Splitting strictly between parent and node keeps the tree consistent. -/
theorem shape : Shape t' := by
  refine ⟨fun par i => ?_,?_⟩
  · rw [edge _ _ hs hn h hq hpar,parent _ _ hs hn h hq hpar,hs.edge_iff]
  intro i y' b c m' hi hc hm'
  rcases link hs hn h hq hpar hi hc with
    ⟨-,hcn,hyq,hb⟩ | ⟨y,hy,hyp,hip,hcn,hb⟩ | ⟨y,hy,hyp,hold,-⟩
  · rw [hcn,h.read_node] at hm'
    cases hm'
    rw [hyq,hb]
    exact ⟨hq,n.p.key_prefixBit hlen⟩
  · rw [hcn,h.read_new] at hm'
    cases hm'
    obtain ⟨hpre,hlt⟩ := hpar i y hip hy
    rw [hyp,hb]
    exact ⟨hpre,q.key_prefixBit hlt⟩
  obtain ⟨m,hm,-,hpre,hbit⟩ := hs.link_child hy hold
  obtain ⟨m'',hm'',hmp,-⟩ := keep hs hn h hq hpar hm
  rw [hm'] at hm''
  cases hm''
  rw [hyp,hmp]
  exact ⟨hpre,hbit⟩

end Split

end

section

variable {t : RouteTable ι} {i : ℕ} {n : RouteNode ι}

/-- The child that replaces a removed node. -/
def onlyChild (n : RouteNode ι) : Option ℕ :=
  if n.link false≠none then n.link false else n.link true

theorem link_eq_onlyChild (h : ¬(n.link false≠none ∧ n.link true≠none)) (hc : n.link b=some c) :
    onlyChild n=some c := by
  unfold onlyChild
  cases b with
  | false => rw [if_pos (by rw [hc]; simp),hc]
  | true =>
    have hf : n.link false=none := by
      by_contra hf
      exact h ⟨hf,by rw [hc]; simp⟩
    rw [if_neg (by simpa using hf),hc]

theorem exists_link_of_onlyChild (h : onlyChild n=some c) : ∃ b, n.link b=some c := by
  unfold onlyChild at h
  split at h
  · exact ⟨false,h⟩
  · exact ⟨true,h⟩

/-- The parent's record after its link to `i` is replaced by `child`. -/
def relinked (m : RouteNode ι) (i : ℕ) (child : Option ℕ) : RouteNode ι :=
  if m.link false=some i then m.withLink false child else m.withLink true child

theorem relinked_eq (child : Option ℕ) (hb : m.link b=some i)
    (huniq : ∀ b', m.link b'=some i → b'=b) : relinked m i child=m.withLink b child := by
  unfold relinked
  cases b with
  | false => rw [if_pos hb]
  | true =>
    rw [if_neg]
    intro hf
    cases huniq false hf

theorem read_unlinkNode (hpc : ∀ j, n.parent=some j → onlyChild n≠some j) (k : ℕ) :
    (unlinkNode t i n).read k=if k=i then none
      else if onlyChild n=some k then (t.read k).map fun x => x.withParent n.parent
      else if n.parent=some k then (t.read k).map fun x => relinked x i (onlyChild n)
      else t.read k := by
  have hfree : (unlinkNode t i n).read k=if k=i then none else
      (replaceChild (setParent t (onlyChild n) n.parent) n.parent i (onlyChild n)).read k := rfl
  rw [hfree]
  by_cases hki : k=i
  · rw [if_pos hki,if_pos hki]
  rw [if_neg hki,if_neg hki]
  have hset : (setParent t (onlyChild n) n.parent).read k=if onlyChild n=some k then
      (t.read k).map fun x => x.withParent n.parent else t.read k := by
    cases ho : onlyChild n with
    | none => rfl
    | some c =>
      rw [setParent,read_modify]
      by_cases hkc : k=c
      · rw [if_pos hkc,if_pos (by rw [hkc]),hkc]
      · rw [if_neg hkc,if_neg (fun h => hkc (some.inj h).symm)]
  cases hp : n.parent with
  | none =>
    rw [hp] at hset
    exact hset.trans (by simp)
  | some j =>
    rw [hp] at hset
    rw [replaceChild,read_modify]
    by_cases hkj : k=j
    · subst hkj
      have hck := hpc k hp
      rw [if_neg hck] at hset
      rw [if_pos rfl,hset,if_neg hck,if_pos rfl]
      rfl
    rw [if_neg hkj,hset,if_neg (c := some j=some k) (fun h => hkj (some.inj h).symm)]

/-- `t'` is `t` with the node `i` removed and its only child in its place. -/
structure Unlinked (t t' : RouteTable ι) (i : ℕ) (n : RouteNode ι) : Prop where
  read_dead : t'.read i=none
  read_child : ∀ {c x}, onlyChild n=some c → t.read c=some x →
    t'.read c=some (x.withParent n.parent)
  /-- The parent links to the child, on the side the node was on. -/
  read_parent : ∀ {j}, n.parent=some j → ∃ m b, t.read j=some m ∧ m.link b=some i ∧
    t'.read j=some (m.withLink b (onlyChild n)) ∧ n.p.key[m.p.prefixlen]? = some b
  read_other : ∀ {k}, k≠i → onlyChild n≠some k → n.parent≠some k → t'.read k=t.read k
  /-- The top pointer moves when the top node was removed. -/
  top : t'.top=if n.parent=none then onlyChild n else t.top
  count : t'.count=t.count-1
  size : t'.nodes.size+1=t.nodes.size

theorem onlyChild_spec (hs : Shape t) (hi : t.read i=some n) (hc : onlyChild n=some c) :
    ∃ x, t.read c=some x ∧ x.parent=some i ∧ n.p.key <+: x.p.key ∧ n.p.prefixlen<x.p.prefixlen := by
  obtain ⟨b,hb⟩ := exists_link_of_onlyChild hc
  obtain ⟨x,hx,hxp,hpre,hbit⟩ := hs.link_child hi hb
  exact ⟨x,hx,hxp,hpre,by simpa using lt_length_of_getElem? hbit⟩

theorem parent_lt (hs : Shape t) (hi : t.read i=some n) (hj : n.parent=some j) :
    ∃ m, t.read j=some m ∧ m.p.prefixlen<n.p.prefixlen := by
  obtain ⟨m,b,hm,-,-,hbit⟩ := hs.parent_some hi hj
  exact ⟨m,hm,by simpa using lt_length_of_getElem? hbit⟩

/-- One removal of `route_node_delete` produces such a table. -/
theorem unlinkNode_spec (hs : Shape t) (hi : t.read i=some n) :
    Unlinked t (unlinkNode t i n) i n := by
  have hpi : n.parent≠some i := by
    intro h
    obtain ⟨m,hm,hlt⟩ := parent_lt hs hi h
    rw [hi] at hm
    cases hm
    exact lt_irrefl _ hlt
  have hci : onlyChild n≠some i := by
    intro h
    obtain ⟨x,hx,-,-,hlt⟩ := onlyChild_spec hs hi h
    rw [hi] at hx
    cases hx
    exact lt_irrefl _ hlt
  have hpc : ∀ j, n.parent=some j → onlyChild n≠some j := by
    intro j hj h
    obtain ⟨m,hm,hlt⟩ := parent_lt hs hi hj
    obtain ⟨x,hx,-,-,hlt'⟩ := onlyChild_spec hs hi h
    rw [hm] at hx
    cases hx
    omega
  have hread := read_unlinkNode (t := t) (i := i) hpc
  have hextent : (unlinkNode t i n).nodes.size+1=t.nodes.size := by
    have hsize : ∀ x : RouteTable ι, ∀ j c, (replaceChild x j i c).nodes.size=x.nodes.size ∧
        ((replaceChild x j i c).read i).isSome=(x.read i).isSome := by
      intro x j c
      cases j with
      | none => exact ⟨rfl,rfl⟩
      | some j =>
        refine ⟨Store.size_modify _ _ _,?_⟩
        rw [replaceChild,read_modify]
        by_cases hij : i=j
        · rw [if_pos hij,hij,isSome_map]
        · rw [if_neg hij]
    have hset : ∀ c j, (setParent t c j).nodes.size=t.nodes.size ∧
        ((setParent t c j).read i).isSome=(t.read i).isSome := by
      intro c j
      cases c with
      | none => exact ⟨rfl,rfl⟩
      | some c =>
        refine ⟨Store.size_modify _ _ _,?_⟩
        rw [setParent,read_modify]
        by_cases hic : i=c
        · rw [if_pos hic,hic,isSome_map]
        · rw [if_neg hic]
    obtain ⟨h1,h2⟩ := hsize (setParent t (onlyChild n) n.parent) n.parent (onlyChild n)
    obtain ⟨h3,h4⟩ := hset (onlyChild n) n.parent
    rw [h4,hi] at h2
    obtain ⟨x,hx⟩ := isSome_iff_exists.mp h2
    exact (Store.size_free hx).trans (h1.trans h3)
  refine ⟨by rw [hread,if_pos rfl],?_,?_,?_,?_,?_,hextent⟩
  · intro c x hc hx
    rw [hread,if_neg (fun h => hci (by rw [hc,h])),if_pos hc,hx]
    rfl
  · intro j hj
    obtain ⟨m,b,hm,hb,-,hbit⟩ := hs.parent_some hi hj
    refine ⟨m,b,hm,hb,?_,hbit⟩
    rw [hread,if_neg (fun h => hpi (by rw [hj,h])),if_neg (hpc j hj),if_pos hj,hm]
    refine congrArg some (relinked_eq _ hb fun b' hb' => ?_)
    have hbit' := (hs.ordered hm hb' hi).2
    rw [hbit] at hbit'
    exact (some.inj hbit').symm
  · intro k h1 h2 h3
    rw [hread,if_neg h1,if_neg h2,if_neg h3]
  · change (replaceChild (setParent t (onlyChild n) n.parent) n.parent i (onlyChild n)).top=_
    cases n.parent with
    | none => rfl
    | some j => cases onlyChild n <;> rfl
  change (replaceChild (setParent t (onlyChild n) n.parent) n.parent i (onlyChild n)).count-1=_
  cases n.parent <;> cases onlyChild n <;> rfl

namespace Unlinked

variable {t' : RouteTable ι}
variable (hs : Shape t) (hi : t.read i=some n) (h : Unlinked t t' i n)
variable (hone : ¬(n.link false≠none ∧ n.link true≠none))

include hs hi h in
/-- The surviving nodes, seen from the new table. -/
theorem back (hk : t'.read k=some y') : k≠i ∧ ∃ y,
    t.read k=some y ∧ y'.p=y.p ∧ y'.lock=y.lock ∧ y'.info=y.info ∧
      (onlyChild n≠some k → y'.parent=y.parent) ∧ (n.parent≠some k → y'.link=y.link) := by
  have hki : k≠i := by
    rintro rfl
    rw [h.read_dead] at hk
    cases hk
  refine ⟨hki,?_⟩
  by_cases hkc : onlyChild n=some k
  · obtain ⟨x,hx,-⟩ := onlyChild_spec hs hi hkc
    rw [h.read_child hkc hx] at hk
    cases hk
    exact ⟨x,hx,rfl,rfl,rfl,fun hc => absurd hkc hc,fun _ => rfl⟩
  by_cases hkp : n.parent=some k
  · obtain ⟨m,b,hm,-,hmr,-⟩ := h.read_parent hkp
    rw [hmr] at hk
    cases hk
    exact ⟨m,hm,rfl,rfl,rfl,fun _ => rfl,fun hc => absurd hkp hc⟩
  rw [h.read_other hki hkc hkp] at hk
  exact ⟨y',hk,rfl,rfl,rfl,fun _ => rfl,fun _ => rfl⟩

include h in
/-- The surviving nodes, seen from the old table. -/
theorem keep (hk : t.read k=some y) (hki : k≠i) :
    ∃ y', t'.read k=some y' ∧ y'.p=y.p ∧ y'.lock=y.lock ∧ y'.info=y.info ∧
      (onlyChild n≠some k → y'.parent=y.parent) ∧
      ∀ {b c}, y.link b=some c → c≠i → y'.link b=some c := by
  by_cases hkc : onlyChild n=some k
  · exact ⟨_,h.read_child hkc hk,rfl,rfl,rfl,fun hc => absurd hkc hc,fun hb _ => hb⟩
  by_cases hkp : n.parent=some k
  · obtain ⟨m,b,hm,hb,hmr,-⟩ := h.read_parent hkp
    rw [hk] at hm
    cases hm
    refine ⟨_,hmr,rfl,rfl,rfl,fun _ => rfl,fun {b' c} hb' hc => ?_⟩
    rw [link_withLink_of_ne]
    · exact hb'
    rintro rfl
    rw [hb] at hb'
    exact hc (some.inj hb').symm
  · exact ⟨y,by rw [h.read_other hki hkc hkp,hk],rfl,rfl,rfl,fun _ => rfl, fun hb _ => hb⟩

include hs hi h in
theorem link (hk : t'.read k=some y') (hc : y'.link b=some c) :
    ∃ y, t.read k=some y ∧ y'.p=y.p ∧ k≠i ∧ ((y.link b=some c ∧ c≠i) ∨
        (n.parent=some k ∧ y.link b=some i ∧ onlyChild n=some c)) := by
  obtain ⟨hki,y,hy,hyp,-,-,-,hyl⟩ := back hs hi h hk
  refine ⟨y,hy,hyp,hki,?_⟩
  by_cases hkp : n.parent=some k
  · obtain ⟨m,b',hm,hb',hmr,hbit⟩ := h.read_parent hkp
    rw [hy] at hm
    cases hm
    rw [hmr] at hk
    cases hk
    by_cases hb : b=b'
    · subst hb
      rw [link_withLink_self] at hc
      exact .inr ⟨hkp,hb',hc⟩
    rw [link_withLink_of_ne _ hb] at hc
    refine .inl ⟨hc,?_⟩
    rintro rfl
    have hbit' := (hs.ordered hy hc hi).2
    rw [hbit] at hbit'
    exact hb (some.inj hbit').symm
  · rw [hyl hkp] at hc
    refine .inl ⟨hc,?_⟩
    rintro rfl
    obtain ⟨n',hn',hpar',-⟩ := hs.link_child hy hc
    rw [hi] at hn'
    cases hn'
    exact hkp hpar'

include hs hi h in
theorem edge_none (k : ℕ) : Edge t' none k ↔
    (Edge t none k ∧ k≠i) ∨ (onlyChild n=some k ∧ none=n.parent) := by
  rw [Edge,Edge,h.top]
  by_cases hnp : n.parent=none
  · rw [if_pos hnp,hs.parent_none hi hnp,hnp]
    constructor
    · exact fun he => .inr ⟨he,rfl⟩
    · rintro (⟨he,hk⟩|⟨he,-⟩)
      · exact absurd (some.inj he).symm hk
      · exact he
  rw [if_neg hnp]
  constructor
  · intro he
    refine .inl ⟨he,?_⟩
    rintro rfl
    obtain ⟨n',hn',hp⟩ := hs.top_live he
    rw [hi] at hn'
    cases hn'
    exact hnp hp
  · rintro (⟨he,-⟩|⟨-,he⟩)
    · exact he
    · exact absurd he.symm hnp

include hs hi h in
theorem edge (k : ℕ) : Edge t' par k ↔
    (Edge t par k ∧ k≠i ∧ par≠some i) ∨ (onlyChild n=some k ∧ par=n.parent) := by
  cases par with
  | none =>
    rw [edge_none hs hi h]
    simp
  | some j =>
    constructor
    · rintro ⟨y',b,hj,hb⟩
      obtain ⟨y,hy,-,hji,⟨hold,hne⟩|⟨hp,-,hc⟩⟩ := link hs hi h hj hb
      · exact .inl ⟨⟨y,b,hy,hold⟩,hne,fun he => hji (some.inj he)⟩
      · exact .inr ⟨hc,hp.symm⟩
    · rintro (⟨⟨y,b,hj,hb⟩,hk,hji⟩|⟨hc,hp⟩)
      · obtain ⟨y',hy',-,-,-,-,hl⟩ := keep h hj (fun he => hji (by rw [he]))
        exact ⟨y',b,hy',hl hb hk⟩
      obtain ⟨m,b,-,-,hmr,-⟩ := h.read_parent hp.symm
      exact ⟨_,b,hmr,by rw [link_withLink_self,hc]⟩

include hs hi h hone in
theorem parent (k : ℕ) : Parent t' par k ↔
    (Parent t par k ∧ k≠i ∧ par≠some i) ∨ (onlyChild n=some k ∧ par=n.parent) := by
  constructor
  · rintro ⟨y',hy',rfl⟩
    obtain ⟨hki,y,hy,-,-,-,hyp,-⟩ := back hs hi h hy'
    by_cases hkc : onlyChild n=some k
    · obtain ⟨x,hx,-⟩ := onlyChild_spec hs hi hkc
      rw [h.read_child hkc hx] at hy'
      cases hy'
      exact .inr ⟨hkc,rfl⟩
    refine .inl ⟨⟨y,hy,(hyp hkc).symm⟩,hki,?_⟩
    intro hpi
    rw [hyp hkc] at hpi
    obtain ⟨n',b,hn',hb,-⟩ := hs.parent_some hy hpi
    rw [hi] at hn'
    cases hn'
    exact hkc (link_eq_onlyChild hone hb)
  · rintro (⟨⟨y,hy,rfl⟩,hki,hyi⟩|⟨hkc,rfl⟩)
    · obtain ⟨y',hy',-,-,-,hyp,-⟩ := keep h hy hki
      refine ⟨y',hy',hyp ?_⟩
      intro hkc
      obtain ⟨x,hx,hxp,-⟩ := onlyChild_spec hs hi hkc
      rw [hy] at hx
      cases hx
      exact hyi hxp
    obtain ⟨x,hx,-⟩ := onlyChild_spec hs hi hkc
    exact ⟨_,h.read_child hkc hx,rfl⟩

include hs hi h hone in
/-- Removing a node with at most one child keeps the tree consistent. -/
theorem shape : Shape t' := by
  refine ⟨fun par k => ?_,?_⟩
  · rw [edge _ hs hi h,parent _ hs hi h hone,hs.edge_iff]
  intro k y' b c m' hk hc hm'
  obtain ⟨y,hy,hyp,-,⟨hold,hne⟩|⟨hp,hyi,hcc⟩⟩ := link hs hi h hk hc
  · obtain ⟨m,hm,-,hpre,hbit⟩ := hs.link_child hy hold
    obtain ⟨m'',hm'',hmp,-⟩ := keep h hm hne
    rw [hm'] at hm''
    cases hm''
    rw [hyp,hmp]
    exact ⟨hpre,hbit⟩
  obtain ⟨x,hx,-,hpre,-⟩ := onlyChild_spec hs hi hcc
  rw [h.read_child hcc hx] at hm'
  cases hm'
  obtain ⟨hpre',hbit⟩ := hs.ordered hy hyi hi
  rw [hyp]
  refine ⟨hpre'.trans hpre,?_⟩
  change x.p.key[_]? = _
  rw [getElem?_of_isPrefix hpre (lt_length_of_getElem? hbit),hbit]

end Unlinked

end

section

variable {t : RouteTable ι} (hs : Shape t)

include hs

theorem top_isPrefix_of : ∀ {i n}, t.read i=some n → n.p.prefixlen=k →
    ∃ r m, t.top=some r ∧ t.read r=some m ∧ m.p.key <+: n.p.key ∧
      (i≠r → m.p.prefixlen<n.p.prefixlen) := by
  induction k using Nat.strong_induction_on with
  | h k ih =>
    intro i n hi hk
    cases hp : n.parent with
    | none => exact ⟨i,n,hs.parent_none hi hp,hi,prefix_rfl,fun h => absurd rfl h⟩
    | some j =>
      obtain ⟨x,b,hx,-,hpre,hbit⟩ := hs.parent_some hi hp
      have hlt : x.p.prefixlen<n.p.prefixlen := by simpa using lt_length_of_getElem? hbit
      obtain ⟨r,m,htop,hm,hpre',-⟩ := ih x.p.prefixlen (hk ▸ hlt) hx rfl
      have hle : m.p.prefixlen≤x.p.prefixlen := by simpa using hpre'.length_le
      exact ⟨r,m,htop,hm,hpre'.trans hpre,fun _ => by omega⟩

/-- A node whose key is a proper prefix has a child towards the longer key. -/
theorem exists_child : ∀ {j n}, t.read j=some n → n.p.prefixlen=k →
    ∀ {i m}, t.read i=some m → m.p.key <+: n.p.key → i≠j →
      ∃ b c x, m.link b=some c ∧ t.read c=some x ∧ x.p.key <+: n.p.key := by
  induction k using Nat.strong_induction_on with
  | h k ih =>
    intro j n hj hk i m hi hpre hne
    -- The child of a node towards `n` is the one towards every key between them.
    have htoward : ∀ {a1 a2 i1 : ℕ} {y1 y2 n1 : RouteNode ι} {b1 : Bool},
        t.read a1=some y1 → t.read a2=some y2 → t.read i1=some n1 → y1.link b1=some i1 →
        y1.p.key <+: n.p.key → y2.p.key <+: n.p.key → n.p.key[y1.p.prefixlen]? = some b1 →
        y2.p.prefixlen<n.p.prefixlen → y1.p.prefixlen≤y2.p.prefixlen → a1≠a2 →
        n1.p.prefixlen≤y2.p.prefixlen := by
      intro a1 a2 i1 y1 y2 n1 b1 h1 h2 h3 hl hp1 hp2 hb hlt2 hle hne
      have hpre := prefix_of_prefix_length_le hp1 hp2 (by simpa using hle)
      obtain ⟨b,c,x,hxb,hx,hxpre⟩ := ih y2.p.prefixlen (hk ▸ hlt2) h2 rfl h1 hpre hne
      obtain ⟨-,hxbit⟩ := hs.ordered h1 hxb hx
      have hl' := lt_length_of_getElem? hxbit
      rw [←getElem?_of_isPrefix (hxpre.trans hp2) hl',hb] at hxbit
      cases hxbit
      rw [hl] at hxb
      cases hxb
      rw [h3] at hx
      cases hx
      simpa using hxpre.length_le
    have hle : m.p.prefixlen≤n.p.prefixlen := by simpa using hpre.length_le
    cases hpj : n.parent with
    | none =>
      obtain ⟨r,x,htop,hx,hxpre,hlt⟩ := top_isPrefix_of hs hi rfl
      have hjr := hs.parent_none hj hpj
      rw [htop] at hjr
      cases hjr
      rw [hx] at hj
      cases hj
      exact absurd (hlt hne) (not_lt.mpr hle)
    | some a =>
      obtain ⟨y,b,hy,hyb,hypre,hybit⟩ := hs.parent_some hj hpj
      have hlty : y.p.prefixlen<n.p.prefixlen := by simpa using lt_length_of_getElem? hybit
      rcases le_or_gt m.p.prefixlen y.p.prefixlen with hmy|hym
      · by_cases hia : i=a
        · subst hia
          rw [hi] at hy
          cases hy
          exact ⟨b,j,n,hyb,hj,prefix_rfl⟩
        have hpre' := prefix_of_prefix_length_le hpre hypre (by simpa using hmy)
        obtain ⟨b',c,x,hxb,hx,hxpre⟩ := ih _ (hk ▸ hlty) hy rfl hi hpre' hia
        exact ⟨b',c,x,hxb,hx,hxpre.trans hypre⟩
      exfalso
      rcases hle.lt_or_eq with hmn|hmn
      · -- The node would hang between the key's parent and the key.
        have hai : a≠i := by
          rintro rfl
          rw [hi] at hy
          cases hy
          exact lt_irrefl _ hym
        exact hmn.not_ge (htoward hy hi hj hyb hypre hpre hybit hmn hym.le hai)
      -- Two nodes of one key would have the same parent.
      have hkey := key_eq_of_match hpre hmn
      cases hpi : m.parent with
      | none =>
        obtain ⟨r,x,htop,hx,-,hlt⟩ := top_isPrefix_of hs hj rfl
        have hir := hs.parent_none hi hpi
        rw [htop] at hir
        cases hir
        rw [hx] at hi
        cases hi
        exact (hlt hne.symm).ne hmn
      | some a' =>
        obtain ⟨y',b',hy',hyb',hypre',hybit'⟩ := hs.parent_some hi hpi
        rw [hkey] at hypre' hybit'
        have hlty' : y'.p.prefixlen<n.p.prefixlen := by simpa using lt_length_of_getElem? hybit'
        by_cases haa : a=a'
        · subst haa
          rw [hy] at hy'
          cases hy'
          rw [hybit] at hybit'
          cases hybit'
          rw [hyb] at hyb'
          exact hne (some.inj hyb').symm
        rcases le_total y.p.prefixlen y'.p.prefixlen with hle|hle
        · exact hlty'.not_ge (htoward hy hy' hj hyb hypre hypre' hybit hlty' hle haa)
        have hchild := htoward hy' hy hi hyb' hypre' hypre hybit' hlty hle (Ne.symm haa)
        exact hlty.not_ge (hmn ▸ hchild)

theorem eq_of_key_eq {i : ℕ} {n : RouteNode ι} (hi : t.read i=some n) (hj : t.read j=some m)
    (h : n.p.key=m.p.key) : i=j := by
  by_contra hne
  obtain ⟨b,c,x,hb,hx,hpre⟩ := exists_child hs hj rfl hi (h ▸ prefix_rfl) hne
  have hlt := lt_length_of_getElem? (hs.ordered hi hb hx).2
  rw [h.symm] at hpre
  simp only [Prefix.length_key] at hlt
  have hle : x.p.prefixlen≤n.p.prefixlen := by simpa using hpre.length_le
  omega

theorem child_towards {i : ℕ} {n : RouteNode ι} (hi : t.read i=some n) (hj : t.read j=some m)
    (h : n.p.key <+: m.p.key) (hne : i≠j) :
    ∃ b c x, m.p.key[n.p.prefixlen]? = some b ∧ n.link b=some c ∧ t.read c=some x ∧
      x.p.key <+: m.p.key ∧ n.p.key <+: x.p.key ∧ n.p.prefixlen<x.p.prefixlen := by
  obtain ⟨b,c,x,hb,hx,hpre⟩ := exists_child hs hj rfl hi h hne
  obtain ⟨hpre',hbit⟩ := hs.ordered hi hb hx
  have hl := lt_length_of_getElem? hbit
  exact ⟨b,c,x,by rw [getElem?_of_isPrefix hpre hl,hbit],hb,hx,hpre,hpre',by simpa using hl⟩

end

end RoutePlatform.RouteTableShape
