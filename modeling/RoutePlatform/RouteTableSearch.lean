import RoutePlatform.RouteTableRuns

/-!
# Exact and longest-prefix search

A search follows one branch and stops early. What makes it complete is that
every node that contains the prefix lies on that branch: below a node of the
branch, the child on the side of the next bit is a prefix of all of them.
-/

namespace RoutePlatform.RouteTableSearch

open PrefixBytes BitString OperationRuns RouteTableOperations RouteTableShape Option
open RouteTableInvariant RouteTableInsertion RouteTableRuns

variable {ι : Type} {matched : Option ℕ}

/-- A node with user data whose prefix contains `p`. -/
def Candidate (t : RouteTable ι) (p : Prefix) (i : ℕ) (n : RouteNode ι) : Prop :=
  t.read i=some n ∧ n.info.isSome ∧ n.p.key <+: p.key

/-- The candidate is still to be met by a search that stands on `node`. -/
def Ahead (t : RouteTable ι) (node : Option ℕ) (m : RouteNode ι) : Prop :=
  ∃ i n, node=some i ∧ t.read i=some n ∧ n.p.key <+: m.p.key

/-- The candidate is no longer than the one the search remembers. -/
def Covered (t : RouteTable ι) (matched : Option ℕ) (m : RouteNode ι) : Prop :=
  ∃ k n, matched=some k ∧ t.read k=some n ∧ m.p.prefixlen≤n.p.prefixlen

/-- The loop invariant of the longest-prefix search. -/
structure SearchInvariant (t : RouteTable ι) (p : Prefix) (node matched : Option ℕ) : Prop where
  sound : ∀ k, matched=some k → ∃ n, Candidate t p k n
  complete : ∀ {j m}, Candidate t p j m → Ahead t node m ∨ Covered t matched m

/-- The result of the longest-prefix search. -/
def LongestMatch (t : RouteTable ι) (p : Prefix) : Option ℕ→Prop
  | none => ∀ j m, ¬Candidate t p j m
  | some i => ∃ n, Candidate t p i n ∧ ∀ j m, Candidate t p j m → m.p.prefixlen≤n.p.prefixlen

section

variable {t : RouteTable ι} {p : Prefix} (hs : Shape t) (fuel : ℕ)

theorem SearchInvariant.longestMatch (h : SearchInvariant t p none matched) :
    LongestMatch t p matched := by
  have hcov : ∀ {j m}, Candidate t p j m → Covered t matched m := by
    intro j m hm
    rcases h.complete hm with ⟨i,n,hnone,-⟩|hc
    · cases hnone
    · exact hc
  cases matched with
  | none =>
    intro j m hm
    obtain ⟨k,n,hk,-⟩ := hcov hm
    cases hk
  | some i =>
    obtain ⟨n,hn⟩ := h.sound i rfl
    refine ⟨n,hn,fun j m hm => ?_⟩
    obtain ⟨k,n',hk,hn',hle⟩ := hcov hm
    cases hk
    rw [hn.1] at hn'
    cases hn'
    exact hle

theorem SearchInvariant.stop {node : Option ℕ} (h : SearchInvariant t p node matched)
    (hend : ∀ {j m}, Candidate t p j m → ¬Ahead t node m) : SearchInvariant t p none matched where
  sound := h.sound
  complete := fun hm => .inr ((h.complete hm).resolve_left (hend hm))

include hs

theorem ahead_top {j : ℕ} {m : RouteNode ι} (hj : t.read j=some m) : Ahead t t.top m := by
  obtain ⟨r,x,htop,hx,hpre,-⟩ := top_isPrefix_of hs hj rfl
  exact ⟨r,x,htop,hx,hpre⟩

theorem ahead_link {i j : ℕ} {n m : RouteNode ι} (hi : t.read i=some n) (hj : t.read j=some m)
    (hmp : m.p.key <+: p.key) (hpre : n.p.key <+: m.p.key) :
    i=j ∨ Ahead t (n.link (prefixBit p.u n.p.prefixlen)) m := by
  by_cases hij : i=j
  · exact .inl hij
  obtain ⟨b,c,x,hbit,hlink,hx,hxpre,-,-⟩ := child_towards hs hi hj hpre hij
  have hlt := lt_length_of_getElem? hbit
  rw [←getElem?_of_isPrefix hmp hlt] at hbit
  have hlt' : n.p.prefixlen<p.prefixlen := by simpa using lt_length_of_getElem? hbit
  rw [p.key_prefixBit hlt'] at hbit
  rw [some.inj hbit,hlink]
  exact .inr ⟨c,x,rfl,hx,hxpre⟩

/-- One round of the longest-prefix search at a node that contains `p`. -/
theorem SearchInvariant.round {i : ℕ} {n : RouteNode ι} (h : SearchInvariant t p (some i) matched)
    (hi : t.read i=some n) (hpre : n.p.key <+: p.key) :
    SearchInvariant t p (n.link (prefixBit p.u n.p.prefixlen))
      (if n.info.isSome then some i else matched) := by
  have hself : ∀ {j m}, Candidate t p j m → n.p.key <+: m.p.key →
      Ahead t (n.link (prefixBit p.u n.p.prefixlen)) m ∨
        Covered t (if n.info.isSome then some i else matched) m := by
    intro j m hm hnm
    rcases ahead_link hs hi hm.1 hm.2.2 hnm with rfl|hahead
    · have heq := hm.1
      rw [hi] at heq
      cases heq
      rw [if_pos hm.2.1]
      exact .inr ⟨i,n,rfl,hi,le_rfl⟩
    · exact .inl hahead
  constructor
  · intro k hk
    by_cases hinfo : n.info.isSome
    · rw [if_pos hinfo] at hk
      cases hk
      exact ⟨n,hi,hinfo,hpre⟩
    rw [if_neg hinfo] at hk
    exact h.sound k hk
  · intro j m hm
    rcases h.complete hm with ⟨i',n',hi',hn',hnm⟩|hcov
    · cases hi'
      rw [hi] at hn'
      cases hn'
      exact hself hm hnm
    by_cases hinfo : n.info.isSome
    · -- Two prefixes of `p`: the shorter one contains the longer one.
      rcases le_total m.p.prefixlen n.p.prefixlen with hle|hle
      · rw [if_pos hinfo]
        exact .inr ⟨i,n,rfl,hi,hle⟩
      · exact hself hm (List.prefix_of_prefix_length_le hpre hm.2.2 (by simpa using hle))
    rw [if_neg hinfo]
    exact .inr hcov

/-- The longest-prefix walk ends with the longest match. -/
theorem matchWalk_spec : ∀ {node matched parent : Option ℕ}, OnBranch t p node parent →
    p.prefixlen<fuel+depthBelow t parent → SearchInvariant t p node matched →
    ∃ r, matchWalk t p fuel node matched=some r ∧ LongestMatch t p r := by
  induction fuel with
  | zero =>
    intro node matched parent hb hfuel _
    have hle := depthBelow_le hb
    omega
  | succ fuel ih =>
    intro node matched parent hb hfuel h
    cases node with
    | none => exact ⟨matched,rfl,h.longestMatch⟩
    | some i =>
      obtain ⟨n,hi,-,hdepth⟩ := onBranch_live hs hb
      rw [matchWalk,hi,bind_eq_bind,bind_some]
      by_cases hpre : n.p.key <+: p.key
      · have hle : n.p.prefixlen≤p.prefixlen := by simpa using hpre.length_le
        have hrd := h.round hs hi hpre
        rw [if_pos ⟨hle,(prefixMatch_iff _ _).mpr hpre⟩]
        by_cases heq : n.p.prefixlen=p.prefixlen
        · rw [if_pos heq]
          refine ⟨_,rfl,(hrd.stop ?_).longestMatch⟩
          -- Below the prefix itself there are only longer ones.
          rintro j m ⟨-,-,hmp⟩ ⟨c,x,hc,hx,hxm⟩
          obtain ⟨x',hx',-,-,hbit⟩ := hs.link_child hi hc
          rw [hx] at hx'
          cases hx'
          have h1 := lt_length_of_getElem? hbit
          have h2 := (hxm.trans hmp).length_le
          rw [Prefix.length_key p] at h2
          omega
        · rw [if_neg heq]
          apply ih (onBranch_link hi hpre heq) _ hrd
          rw [depthBelow_some hi]
          omega
      · rw [if_neg (fun hc => hpre ((prefixMatch_iff _ _).mp hc.2))]
        refine ⟨matched,rfl,(h.stop ?_).longestMatch⟩
        rintro j m ⟨-,-,hmp⟩ ⟨i',n',hi',hn',hnm⟩
        cases hi'
        rw [hi] at hn'
        cases hn'
        exact hpre (hnm.trans hmp)

/-- The result of the exact search. -/
def ExactMatch (t : RouteTable ι) (p : Prefix) : Option ℕ→Prop
  | none => ∀ j m, t.read j=some m → m.info.isSome → m.p.key≠p.key
  | some i => ∃ n, t.read i=some n ∧ n.info.isSome ∧ n.p.key=p.key

/-- The exact walk ends with the node of the prefix, if that has user data. -/
theorem lookupWalk_spec : ∀ {node parent : Option ℕ}, OnBranch t p node parent →
    p.prefixlen<fuel+depthBelow t parent →
    (∀ {j m}, t.read j=some m → m.p.key=p.key → Ahead t node m) →
    ∃ r, lookupWalk t p fuel node=some r ∧ ExactMatch t p r := by
  induction fuel with
  | zero =>
    intro node parent hb hfuel _
    have hle := depthBelow_le hb
    omega
  | succ fuel ih =>
    intro node parent hb hfuel h
    cases node with
    | none =>
      refine ⟨none,rfl,fun j m hj _ hkey => ?_⟩
      obtain ⟨i,n,hnone,-⟩ := h hj hkey
      cases hnone
    | some i =>
      obtain ⟨n,hi,-,hdepth⟩ := onBranch_live hs hb
      rw [lookupWalk,hi,bind_eq_bind,bind_some]
      by_cases hpre : n.p.key <+: p.key
      · have hle : n.p.prefixlen≤p.prefixlen := by simpa using hpre.length_le
        rw [if_pos ⟨hle,(prefixMatch_iff _ _).mpr hpre⟩]
        by_cases heq : n.p.prefixlen=p.prefixlen
        · rw [if_pos heq]
          have hkey := key_eq_of_match hpre heq
          refine ⟨_,rfl,?_⟩
          by_cases hinfo : n.info.isSome
          · rw [if_pos hinfo]
            exact ⟨n,hi,hinfo,hkey⟩
          rw [if_neg hinfo]
          intro j m hj hm hkey'
          rw [←eq_of_key_eq hs hi hj (hkey.trans hkey'.symm),hi] at hj
          cases hj
          exact hinfo hm
        · rw [if_neg heq]
          apply ih (onBranch_link hi hpre heq)
          · rw [depthBelow_some hi]
            omega
          intro j m hj hkey
          rcases ahead_link hs hi hj (p := p) (by rw [hkey]) (hkey ▸ hpre) with rfl|hahead
          · rw [hi] at hj
            cases hj
            exact absurd (by simpa using congrArg List.length hkey) heq
          · exact hahead
      · rw [if_neg (fun hc => hpre ((prefixMatch_iff _ _).mp hc.2))]
        refine ⟨none,rfl,fun j m hj _ hkey => ?_⟩
        obtain ⟨i',n',hi',hn',hnm⟩ := h hj hkey
        cases hi'
        rw [hi] at hn'
        cases hn'
        exact hpre (hkey ▸ hnm)

end

section

variable {fam : Family} {held : ℕ→ℕ} {t : RouteTable ι}

theorem branchFuel_enough (t : RouteTable ι) (p : Prefix) :
    p.prefixlen<branchFuel+depthBelow t none := by
  have hp := p.len_le_128
  unfold branchFuel
  omega

variable (h : TableInvariant fam held none t)
include h

theorem routeNodeMatch_spec (p : Prefix) :
    ∃ t' r, routeNodeMatch t p=some (t',r) ∧ LongestMatch t p r := by
  have hstart : SearchInvariant t p t.top none :=
    ⟨fun k hk => (nomatch hk),fun hm => .inl (ahead_top h.shape hm.1)⟩
  have hroot : OnBranch t p t.top none := rfl
  obtain ⟨r,hr,hlongest⟩ := matchWalk_spec h.shape branchFuel hroot (branchFuel_enough t p) hstart
  rw [routeNodeMatch,hr,bind_eq_bind,bind_some]
  cases r with
  | none => exact ⟨t,none,rfl,hlongest⟩
  | some i =>
    have hlive := hlongest
    obtain ⟨n,⟨hi,-⟩,-⟩ := hlive
    obtain ⟨t',ht',-⟩ := routeLockNode_spec h hi (.inl rfl)
    refine ⟨t',some i,?_,hlongest⟩
    dsimp only
    rw [ht',bind_eq_bind,bind_some]

theorem routeNodeLookup_spec (p : Prefix) :
    ∃ t' r, routeNodeLookup t p=some (t',r) ∧ ExactMatch t p r := by
  have hroot : OnBranch t p t.top none := rfl
  obtain ⟨r,hr,hexact⟩ := lookupWalk_spec h.shape branchFuel hroot (branchFuel_enough t p)
    fun hj _ => ahead_top h.shape hj
  rw [routeNodeLookup,hr,bind_eq_bind,bind_some]
  cases r with
  | none => exact ⟨t,none,rfl,hexact⟩
  | some i =>
    have hlive := hexact
    obtain ⟨n,hi,-⟩ := hlive
    obtain ⟨t',ht',-⟩ := routeLockNode_spec h hi (.inl rfl)
    refine ⟨t',some i,?_,hexact⟩
    dsimp only
    rw [ht',bind_eq_bind,bind_some]

end

/-- A node of the tree that carries user data. -/
def Carries (t : RouteTable ι) (i : ℕ) (q : Prefix) : Prop :=
  Reachable t i ∧ ∃ n, t.read i=some n ∧ n.info.isSome ∧ n.p=q

/-- **Lookup.** On every disciplined table `route_node_match` returns the longest node with user
data that contains the prefix, `route_node_lookup` the equal one, and both nothing exactly when
there is none. -/
theorem routeNode_search (fam : Family) (ops : List (TableOp ι)) (p : Prefix)
    (hlegal : LegalRun step (Legal fam fun _ => 0) routeTableInit ops) :
    ∃ t t1 t2 r1 r2, run step routeTableInit ops=some t ∧
      routeNodeMatch t p=some (t1,r1) ∧ routeNodeLookup t p=some (t2,r2) ∧
      (∀ i, r1=some i → ∃ q, Carries t i q ∧ q.key <+: p.key ∧
        ∀ j q', Carries t j q' → q'.key <+: p.key → q'.prefixlen≤q.prefixlen) ∧
      (r1=none ↔ ∀ j q, Carries t j q → ¬q.key <+: p.key) ∧
      (∀ i, r2=some i → ∃ q, Carries t i q ∧ q.key=p.key) ∧
      (r2=none ↔ ∀ j q, Carries t j q → q.key≠p.key) := by
  obtain ⟨t,ht,hinv⟩ := run_spec fam ops hlegal
  obtain ⟨t1,r1,h₁,hlongest⟩ := routeNodeMatch_spec hinv p
  obtain ⟨t2,r2,h₂,hexact⟩ := routeNodeLookup_spec hinv p
  refine ⟨t,t1,t2,r1,r2,ht,h₁,h₂,?_,?_,?_,?_⟩
  · rintro i rfl
    obtain ⟨n,⟨hi,hinfo,hpre⟩,hmax⟩ := hlongest
    refine ⟨n.p,⟨live_reachable hinv.shape hi rfl,n,hi,hinfo,rfl⟩,hpre,?_⟩
    rintro j q' ⟨-,m,hj,hm,rfl⟩ hq'
    exact hmax j m ⟨hj,hm,hq'⟩
  · constructor
    · rintro rfl j q ⟨-,m,hj,hm,rfl⟩ hq
      exact hlongest j m ⟨hj,hm,hq⟩
    · intro hnone
      cases r1 with
      | none => rfl
      | some i =>
        obtain ⟨n,⟨hi,hinfo,hpre⟩,-⟩ := hlongest
        exact absurd hpre (hnone i n.p ⟨live_reachable hinv.shape hi rfl,n,hi,hinfo,rfl⟩)
  · rintro i rfl
    obtain ⟨n,hi,hinfo,hkey⟩ := hexact
    exact ⟨n.p,⟨live_reachable hinv.shape hi rfl,n,hi,hinfo,rfl⟩,hkey⟩
  constructor
  · rintro rfl j q ⟨-,m,hj,hm,rfl⟩ hq
    exact hexact j m hj hm hq
  · intro hnone
    cases r2 with
    | none => rfl
    | some i =>
      obtain ⟨n,hi,hinfo,hkey⟩ := hexact
      exact absurd hkey (hnone i n.p ⟨live_reachable hinv.shape hi rfl,n,hi,hinfo,rfl⟩)

theorem routeNode_search_sampleRun :
    LegalRun step (Legal .inet fun _ => 0) (routeTableInit : RouteTable ℕ) sampleRun ∧
      ∃ t t1 i q, run step routeTableInit sampleRun=some t ∧
        routeNodeMatch t (sampleRoute 0xa5 32 (by decide))=some (t1,some i) ∧
        Carries t i q ∧ q.key <+: (sampleRoute 0xa5 32 (by decide)).key := by
  refine ⟨sampleRun_legal,?_⟩
  obtain ⟨t,t1,t2,r1,r2,ht,h₁,h₂,hsome,-,-,-⟩ :=
    routeNode_search .inet sampleRun (sampleRoute 0xa5 32 (by decide)) sampleRun_legal
  have hfound : (run step routeTableInit sampleRun).bind (fun t =>
      (routeNodeMatch t (sampleRoute 0xa5 32 (by decide))).map Prod.snd)=some (some 0) := by
    decide +kernel
  rw [ht,bind_some,h₁] at hfound
  cases hfound
  obtain ⟨q,hq,hpre,-⟩ := hsome 0 rfl
  exact ⟨t,t1,0,q,ht,h₁,hq,hpre⟩

end RoutePlatform.RouteTableSearch
