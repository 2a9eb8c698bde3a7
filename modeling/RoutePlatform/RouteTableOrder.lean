import RoutePlatform.RouteTableInsertion

/-!
# The order in which a route table is walked

The preorder walk of `route_next` is the lexicographic order of the prefixes. Every search for a
next node is therefore specified in the same way: it yields the first node whose prefix satisfies
some condition, or shows that there is none.
-/

namespace RoutePlatform.RouteTableOrder

open PrefixBytes BitString RouteTableOperations RouteTableShape Option
open RouteTableInvariant

variable {ι : Type} {n : RouteNode ι} {matched : Option ℕ} {i : ℕ} {y : RouteNode ι} {k : ℕ}
  {node : Option ℕ} {m : RouteNode ι} {cond : List Bool→Prop} {j : ℕ} {b : Bool} {c : ℕ}

/-- `node` holds the least prefix that satisfies `cond`, if any. -/
def FirstOf (t : RouteTable ι) (cond : List Bool→Prop) : Option ℕ→Prop
  | none => ∀ i n, t.read i=some n → ¬cond n.p.key
  | some j => ∃ m, t.read j=some m ∧ cond m.p.key ∧
      ∀ i n, t.read i=some n → cond n.p.key → m.p.key≤n.p.key

/-- Behind a prefix in the order of the walk. -/
def Behind (κ : List Bool) : List Bool → Prop := fun y => κ<y

/-- Behind a prefix and everything below it. -/
def Beyond (κ : List Bool) : List Bool → Prop := fun y => κ<y ∧ ¬κ <+: y

theorem FirstOf.congr {t : RouteTable ι} {cond' : List Bool→Prop} (h : FirstOf t cond node)
    (hiff : ∀ {i n}, t.read i=some n → (cond n.p.key ↔ cond' n.p.key)) : FirstOf t cond' node := by
  cases node with
  | none =>
    intro i n hi hc
    exact h i n hi ((hiff hi).mpr hc)
  | some j =>
    obtain ⟨m,hm,hc,hleast⟩ := h
    refine ⟨m,hm,(hiff hm).mp hc,?_⟩
    intro i n hi hc'
    exact hleast i n hi ((hiff hi).mpr hc')

theorem FirstOf.transfer {t t' : RouteTable ι} (h : FirstOf t cond node) (hto : Keeps t t')
    (hfrom : Keeps t' t) : FirstOf t' cond node := by
  cases node with
  | none =>
    intro i n' hi hc
    obtain ⟨n,hn,hp⟩ := hfrom hi
    exact h i n hn (hp ▸ hc)
  | some j =>
    obtain ⟨m,hm,hc,hleast⟩ := h
    obtain ⟨m',hm',hp⟩ := hto hm
    refine ⟨m',hm',hp ▸ hc,?_⟩
    intro i n' hi hc'
    obtain ⟨n,hn,hp'⟩ := hfrom hi
    rw [hp,←hp']
    exact hleast i n hn (hp' ▸ hc')

section

variable {t : RouteTable ι} (hs : Shape t)

include hs

theorem below_link (hi : t.read i=some n) (hj : t.read j=some y) (hpre : n.p.key <+: y.p.key)
    (hlt : n.p.key<y.p.key) :
    ∃ b c x, y.p.key[n.p.prefixlen]? = some b ∧ n.link b=some c ∧ t.read c=some x ∧
      x.p.key <+: y.p.key := by
  have hne : i≠j := by
    rintro rfl
    rw [hi] at hj
    cases hj
    exact lt_irrefl _ hlt
  obtain ⟨b,c,x,hbit,hlink,hx,hxpre,-⟩ := child_towards hs hi hj hpre hne
  exact ⟨b,c,x,hbit,hlink,hx,hxpre⟩

/-- Going up from a node that has no right sibling changes nothing. -/
theorem beyond_parent (hi : t.read i=some n) (hj : t.read j=some m) (hb : m.link b=some i)
    (hlast : b=true ∨ m.link true=none) (hk : t.read k=some y) :
    Beyond m.p.key y.p.key ↔ Beyond n.p.key y.p.key := by
  obtain ⟨hpre,hbit⟩ := hs.ordered hj hb hi
  have hle := le_of_isPrefix hpre
  constructor
  · rintro ⟨hlt,hnot⟩
    exact ⟨lt_of_lt_of_not_isPrefix hlt hnot hpre,fun hc => hnot (hpre.trans hc)⟩
  · rintro ⟨hlt,hnot⟩
    refine ⟨hle.trans_lt hlt,fun hmy => ?_⟩
    obtain ⟨b',c,x,hybit,hlink,hx,hxpre⟩ := below_link hs hj hk hmy (hle.trans_lt hlt)
    by_cases hbb : b'=b
    · rw [hbb,hb] at hlink
      cases hlink
      rw [hi] at hx
      cases hx
      exact hnot hxpre
    · -- The other side is the left one, so it lies before the node.
      have hbt : b=true := by
        rcases hlast with hbt|hnone
        · exact hbt
        by_contra hbf
        have hb't : b'=true := by
          revert hbb hbf
          cases b <;> cases b' <;> decide
        rw [hb't,hnone] at hlink
        cases hlink
      have hb'f : b'=false := by
        rw [hbt] at hbb
        exact Bool.eq_false_of_not_eq_true hbb
      have hlt' : y.p.key<n.p.key := by
        rw [hb'f,←m.p.length_key] at hybit
        rw [hbt,←m.p.length_key] at hbit
        exact lt_of_getElem? hmy hpre hybit hbit (by decide)
      exact lt_asymm hlt hlt'

theorem firstOf_sibling (hi : t.read i=some n) (hj : t.read j=some m) (hb : m.link false=some i)
    (hc : m.link true=some c) : FirstOf t (Beyond n.p.key) (some c) := by
  obtain ⟨hpre,hbit⟩ := hs.ordered hj hb hi
  obtain ⟨x,hx,-,hpre',hbit'⟩ := hs.link_child hj hc
  rw [←m.p.length_key] at hbit hbit'
  refine ⟨x,hx,⟨lt_of_getElem? hpre hpre' hbit hbit' (by decide),fun hnx => ?_⟩,?_⟩
  · rw [getElem?_of_isPrefix hnx (lt_length_of_getElem? hbit),hbit] at hbit'
    cases hbit'
  rintro k y hk ⟨hlt,hnot⟩
  have hmy := (le_of_isPrefix hpre).trans_lt hlt
  by_cases hpy : m.p.key <+: y.p.key
  · obtain ⟨b,c',x',-,hlink,hx',hxpre⟩ := below_link hs hj hk hpy hmy
    cases b with
    | false =>
      rw [hb] at hlink
      cases hlink
      rw [hi] at hx'
      cases hx'
      exact absurd hxpre hnot
    | true =>
      rw [hc] at hlink
      cases hlink
      rw [hx] at hx'
      cases hx'
      exact le_of_isPrefix hxpre
  · exact (lt_of_lt_of_not_isPrefix hmy hpy hpre').le

/-- The upward loop finds the first node beyond the subtree it starts from. -/
theorem subtreeNext_spec (fuel : ℕ) : ∀ {i : ℕ} {n : RouteNode ι}, t.read i=some n →
    n.p.prefixlen<fuel →
    ∃ node, subtreeNext t fuel i=some node ∧ FirstOf t (Beyond n.p.key) node := by
  induction fuel with
  | zero =>
    intro i n hi hfuel
    exact absurd hfuel (Nat.not_lt_zero _)
  | succ fuel ih =>
    intro i n hi hfuel
    rw [subtreeNext,hi,bind_eq_bind,bind_some]
    cases hp : n.parent with
    | none =>
      refine ⟨none,rfl,?_⟩
      rintro k y hk ⟨-,hnot⟩
      obtain ⟨r,m,htop,hm,hpre,-⟩ := top_isPrefix_of hs hk rfl
      rw [hs.parent_none hi hp] at htop
      cases htop
      rw [hi] at hm
      cases hm
      exact hnot hpre
    | some j =>
      obtain ⟨m,b,hj,hb,-,hbit⟩ := hs.parent_some hi hp
      dsimp only
      rw [hj,bind_some]
      by_cases hleft : m.link false=some i ∧ m.link true≠none
      · rw [if_pos hleft]
        obtain ⟨c,hc⟩ := ne_none_iff_exists'.mp hleft.2
        exact ⟨_,rfl,hc ▸ firstOf_sibling hs hi hj hleft.1 hc⟩
      rw [if_neg hleft]
      have hlt : m.p.prefixlen<n.p.prefixlen := by simpa using lt_length_of_getElem? hbit
      obtain ⟨node,hnode,hfst⟩ := ih hj (by omega)
      refine ⟨node,hnode,hfst.congr fun hk => beyond_parent hs hi hj hb ?_ hk⟩
      cases b with
      | true => exact .inl rfl
      | false =>
        rw [not_and,not_not] at hleft
        exact .inr (hleft hb)

theorem firstOf_child (hi : t.read i=some n) (hc : n.link b=some c)
    (hfst : b=false ∨ n.link false=none) : FirstOf t (Behind n.p.key) (some c) := by
  obtain ⟨x,hx,-,hpre,hbit⟩ := hs.link_child hi hc
  rw [←n.p.length_key] at hbit
  refine ⟨x,hx,lt_of_isPrefix hpre (lt_length_of_getElem? hbit),?_⟩
  intro k y hk hlt
  by_cases hpy : n.p.key <+: y.p.key
  · obtain ⟨b',c',x',hybit,hlink,hx',hxpre⟩ := below_link hs hi hk hpy hlt
    by_cases hbb : b'=b
    · rw [hbb,hc] at hlink
      cases hlink
      rw [hx] at hx'
      cases hx'
      exact le_of_isPrefix hxpre
    have hbf : b=false ∧ b'=true := by
      rcases hfst with hbf|hnone
      · exact ⟨hbf,by rw [hbf] at hbb; exact Bool.eq_true_of_not_eq_false hbb⟩
      cases b' with
      | false =>
        rw [hnone] at hlink
        cases hlink
      | true => exact ⟨Bool.eq_false_of_not_eq_true (fun h => hbb h.symm),rfl⟩
    rw [hbf.2,←n.p.length_key] at hybit
    rw [hbf.1] at hbit
    exact (lt_of_getElem? hpre hpy hbit hybit (by decide)).le
  · exact (lt_of_lt_of_not_isPrefix hlt hpy hpre).le

theorem nextNode_spec (hi : t.read i=some n) :
    ∃ node, nextNode t i=some node ∧ FirstOf t (Behind n.p.key) node := by
  rw [nextNode,hi,bind_eq_bind,bind_some]
  by_cases hleft : n.link false≠none
  · rw [if_pos hleft]
    obtain ⟨c,hc⟩ := ne_none_iff_exists'.mp hleft
    exact ⟨_,rfl,hc ▸ firstOf_child hs hi hc (.inl rfl)⟩
  rw [if_neg hleft]
  rw [not_not] at hleft
  by_cases hright : n.link true≠none
  · rw [if_pos hright]
    obtain ⟨c,hc⟩ := ne_none_iff_exists'.mp hright
    exact ⟨_,rfl,hc ▸ firstOf_child hs hi hc (.inr hleft)⟩
  rw [if_neg hright]
  rw [not_not] at hright
  have hp := n.p.len_le_128
  obtain ⟨node,hnode,hfst⟩ := subtreeNext_spec hs branchFuel hi (by unfold branchFuel; omega)
  refine ⟨node,hnode,hfst.congr fun hk => ⟨fun h => h.1,fun hlt => ⟨hlt,fun hpre => ?_⟩⟩⟩
  -- A node without children has nothing below it.
  obtain ⟨b,c,x,-,hlink,-⟩ := below_link hs hi hk hpre hlt
  cases b with
  | false =>
    rw [hleft] at hlink
    cases hlink
  | true =>
    rw [hright] at hlink
    cases hlink

theorem firstOf_top : FirstOf t (fun _ => True) t.top := by
  cases htop : t.top with
  | none =>
    intro i n hi
    obtain ⟨r,-,hr,-⟩ := top_isPrefix_of hs hi rfl
    rw [htop] at hr
    cases hr
  | some r =>
    obtain ⟨m,hm,-⟩ := hs.top_live htop
    refine ⟨m,hm,trivial,?_⟩
    intro i n hi _
    obtain ⟨r',m',hr',hm',hpre,-⟩ := top_isPrefix_of hs hi rfl
    rw [htop] at hr'
    cases hr'
    rw [hm] at hm'
    cases hm'
    exact le_of_isPrefix hpre

variable {p : Prefix}

section

variable (hb : OnBranch t p (some i) matched)
include hb

variable (hi : t.read i=some n)
include hi

/-- Nodes outside lie on the same side of the subtree's top as of `p`. -/
theorem branch_sides (hk : t.read k=some y) (hout : ¬n.p.key <+: y.p.key) :
    n.p.key<y.p.key ↔ p.key<y.p.key := by
  cases matched with
  | none =>
    obtain ⟨r,m,htop,hm,hpre,-⟩ := top_isPrefix_of hs hk rfl
    rw [show t.top=some i from hb] at htop
    cases htop
    rw [hi] at hm
    cases hm
    exact absurd hpre hout
  | some j =>
    obtain ⟨m,hj,hpre,hlen,hlink⟩ := hb
    obtain ⟨hpre',hbit'⟩ := hs.ordered hj hlink hi
    have hbit := p.key_prefixBit hlen
    by_cases hpy : m.p.key <+: y.p.key
    · rcases (le_of_isPrefix hpy).eq_or_lt with heq|hlt
      · -- The node is the parent: it lies before both.
        have h1 := heq ▸ le_of_isPrefix hpre
        have h2 := heq ▸ le_of_isPrefix hpre'
        exact ⟨fun h => absurd h h2.not_gt,fun h => absurd h h1.not_gt⟩
      obtain ⟨b,c,x,hybit,hlink',hx,hxpre⟩ := below_link hs hj hk hpy hlt
      have hne : b≠prefixBit p.u m.p.prefixlen := by
        rintro rfl
        rw [hlink] at hlink'
        cases hlink'
        rw [hi] at hx
        cases hx
        exact hout hxpre
      generalize prefixBit p.u m.p.prefixlen=s at hbit hbit' hne
      rw [←m.p.length_key] at hbit hbit' hybit
      revert hne
      cases b <;> cases s <;> intro hne
      · exact absurd rfl hne
      · have h1 := lt_of_getElem? hpy hpre hybit hbit (by decide)
        have h2 := lt_of_getElem? hpy hpre' hybit hbit' (by decide)
        exact ⟨fun h => absurd h h2.not_gt,fun h => absurd h h1.not_gt⟩
      · have h1 := lt_of_getElem? hpre hpy hbit hybit (by decide)
        have h2 := lt_of_getElem? hpre' hpy hbit' hybit (by decide)
        exact ⟨fun _ => h1,fun _ => h2⟩
      · exact absurd rfl hne
    · constructor
      · intro h
        exact lt_of_lt_of_not_isPrefix ((le_of_isPrefix hpre').trans_lt h) hpy hpre
      · intro h
        exact lt_of_lt_of_not_isPrefix ((le_of_isPrefix hpre).trans_lt h) hpy hpre'

theorem firstOf_branch (hlt : p.key<n.p.key) : FirstOf t (Behind p.key) (some i) := by
  refine ⟨n,hi,hlt,?_⟩
  intro k y hk hpy
  by_cases hout : n.p.key <+: y.p.key
  · exact le_of_isPrefix hout
  · exact ((branch_sides hs hb hi hk hout).mpr hpy).le

theorem behind_iff_beyond (hlt : n.p.key<p.key) (hnot : ¬n.p.key <+: p.key) (hk : t.read k=some y) :
    Beyond n.p.key y.p.key ↔ Behind p.key y.p.key := by
  constructor
  · rintro ⟨h,hout⟩
    exact (branch_sides hs hb hi hk hout).mp h
  · intro h
    have hout : ¬n.p.key <+: y.p.key := fun hc => lt_asymm h (lt_of_lt_of_not_isPrefix hlt hnot hc)
    exact ⟨(branch_sides hs hb hi hk hout).mpr h,hout⟩

end

theorem behind_iff_beyond_of_leaf (hi : t.read i=some n) (hpre : n.p.key <+: p.key)
    (hlen : n.p.prefixlen<p.prefixlen) (hside : n.link (prefixBit p.u n.p.prefixlen)=none)
    (hright : n.link true=none) (hk : t.read k=some y) :
    Beyond n.p.key y.p.key ↔ Behind p.key y.p.key := by
  constructor
  · rintro ⟨h,hout⟩
    exact lt_of_lt_of_not_isPrefix h hout hpre
  · intro h
    have hny := (le_of_isPrefix hpre).trans_lt h
    refine ⟨hny,fun hc => ?_⟩
    obtain ⟨b,c,x,hybit,hlink,-⟩ := below_link hs hi hk hc hny
    have hbit := p.key_prefixBit hlen
    generalize prefixBit p.u n.p.prefixlen=s at hbit hside
    rw [←n.p.length_key] at hbit hybit
    cases b with
    | true =>
      rw [hright] at hlink
      cases hlink
    | false =>
      cases s with
      | false =>
        rw [hside] at hlink
        cases hlink
      | true => exact lt_asymm h (lt_of_getElem? hc hpre hybit hbit (by decide))

theorem firstOf_right (hi : t.read i=some n) (hpre : n.p.key <+: p.key)
    (hlen : n.p.prefixlen<p.prefixlen) (hside : n.link (prefixBit p.u n.p.prefixlen)=none)
    (hc : n.link true=some c) : FirstOf t (Behind p.key) (some c) := by
  obtain ⟨x,hx,-,hpre',hbit'⟩ := hs.link_child hi hc
  have hbit := p.key_prefixBit hlen
  have hleft : prefixBit p.u n.p.prefixlen=false := by
    by_contra hne
    rw [Bool.eq_true_of_not_eq_false hne,hc] at hside
    cases hside
  rw [hleft] at hbit hside
  rw [←n.p.length_key] at hbit hbit'
  refine ⟨x,hx,lt_of_getElem? hpre hpre' hbit hbit' (by decide),?_⟩
  intro k y hk h
  have hny := (le_of_isPrefix hpre).trans_lt h
  by_cases hpy : n.p.key <+: y.p.key
  · obtain ⟨b,c',x',-,hlink,hx',hxpre⟩ := below_link hs hi hk hpy hny
    cases b with
    | false =>
      rw [hside] at hlink
      cases hlink
    | true =>
      rw [hc] at hlink
      cases hlink
      rw [hx] at hx'
      cases hx'
      exact le_of_isPrefix hxpre
  · exact (lt_of_lt_of_not_isPrefix hny hpy hpre').le

end

section

variable {fam : Family} {held : ℕ→ℕ} {t : RouteTable ι}

/-- The token of a caller that stands on a node, or on none. -/
def holdAt (held : ℕ→ℕ) : Option ℕ→ℕ→ℕ
  | none => held
  | some i => hold held i

theorem le_holdAt (held : ℕ → ℕ) (node : Option ℕ) (k : ℕ) : held k≤holdAt held node k := by
  cases node with
  | none => exact le_rfl
  | some i => exact le_hold held i k

theorem routeTop_spec (h : TableInvariant fam held none t) :
    ∃ t', routeTop t=some (t',t.top) ∧ TableInvariant fam (holdAt held t.top) none t' ∧
      Keeps t t' ∧ Keeps t' t := by
  unfold routeTop
  cases htop : t.top with
  | none => exact ⟨t,rfl,h,Keeps.refl t,Keeps.refl t⟩
  | some i =>
    obtain ⟨n,hi,-⟩ := h.shape.top_live htop
    obtain ⟨t',ht',hinv,-,hto,hfrom⟩ := routeLockNode_spec h hi (.inl rfl)
    refine ⟨t',?_,hinv,hto,hfrom⟩
    dsimp only
    rw [ht',bind_eq_bind,bind_some]

theorem routeNext_spec (h : TableInvariant fam (hold held i) none t) (hi : t.read i=some n) :
    ∃ t' node, routeNext t i=some (t',node) ∧ FirstOf t (Behind n.p.key) node ∧
      TableInvariant fam (holdAt held node) none t' ∧ Persists (holdAt held node) t t' := by
  obtain ⟨node,hnode,hfst⟩ := nextNode_spec h.shape hi
  rw [routeNext,hnode,bind_eq_bind,bind_some]
  cases node with
  | none =>
    obtain ⟨t',ht',hinv,hpersist,-⟩ := routeUnlockNode_spec h hi
    refine ⟨t',none,?_,hfst,hinv,hpersist⟩
    rw [ht',bind_eq_bind,bind_some]
  | some j =>
    have hlive := hfst
    obtain ⟨m,hj,-⟩ := hlive
    obtain ⟨t1,ht1,hinv1,-,hto,-⟩ := routeLockNode_spec h hj (.inl rfl)
    obtain ⟨n1,hi1,-⟩ := hto hi
    rw [hold_comm] at hinv1
    obtain ⟨t',ht',hinv,hpersist,-⟩ := routeUnlockNode_spec hinv1 hi1
    refine ⟨t',some j,?_,hfst,hinv,(hto.persists _).trans hpersist⟩
    simp only [bind_eq_bind]
    rw [ht1,bind_some,ht',bind_some]

end

end RoutePlatform.RouteTableOrder
