import RoutePlatform.RouteTableIteration

/-!
# Traversal of the route table

`route_table_prefix_iter_cmp` is a strict total order on prefixes up to their length.
`route_top` and `route_next` visit the nodes of the table in this order, each once, and
leave the table as it was; `route_table_get_next` finds the successor of any prefix in
it.
-/

namespace RoutePlatform.RouteTableTraversal

open PointerStore PrefixBytes OperationRuns RouteTableOperations RouteTableShape List
open RouteTableInvariant RouteTableOrder RouteTableRuns RouteTableIteration

variable {ι : Type} (a b : Prefix) {t : RouteTable ι}

theorem cmp_eq_neg_one_iff : routeTablePrefixIterCmp a b=some (-1) ↔ a.key<b.key := by
  rcases routeTablePrefixIterCmp_spec a b with ⟨hlt,hcmp⟩|⟨heq,hcmp⟩|⟨hgt,hcmp⟩
  · exact ⟨fun _ => hlt,fun _ => hcmp⟩
  · rw [hcmp,heq]
    exact ⟨nofun,fun h => absurd h (lt_irrefl _)⟩
  rw [hcmp]
  exact ⟨nofun,fun h => absurd h (lt_asymm hgt)⟩

theorem cmp_eq_one_iff : routeTablePrefixIterCmp a b=some 1 ↔ b.key<a.key := by
  rcases routeTablePrefixIterCmp_spec a b with ⟨hlt,hcmp⟩|⟨heq,hcmp⟩|⟨hgt,hcmp⟩
  · rw [hcmp]
    exact ⟨nofun,fun h => absurd h (lt_asymm hlt)⟩
  · rw [hcmp,heq]
    exact ⟨nofun,fun h => absurd h (lt_irrefl _)⟩
  · exact ⟨fun _ => hgt,fun _ => hcmp⟩

theorem cmp_eq_zero_iff : routeTablePrefixIterCmp a b=some 0 ↔ a.key=b.key := by
  rcases routeTablePrefixIterCmp_spec a b with ⟨hlt,hcmp⟩|⟨heq,hcmp⟩|⟨hgt,hcmp⟩
  · rw [hcmp]
    exact ⟨nofun,fun h => absurd h hlt.ne⟩
  · exact ⟨fun _ => heq,fun _ => hcmp⟩
  rw [hcmp]
  exact ⟨nofun,fun h => absurd h hgt.ne'⟩

/-- A strict total order of keys for a comparison that may fail. -/
structure CompareOrder (cmp : Prefix→Prefix→Option ℤ) : Prop where
  total : ∀ a b, cmp a b=some (-1) ∨ cmp a b=some 0 ∨ cmp a b=some 1
  zero : ∀ a b, cmp a b=some 0 ↔ a.key=b.key
  antisymm : ∀ a b, cmp a b=some (-1) ↔ cmp b a=some 1
  trans : ∀ a b c, cmp a b=some (-1) → cmp b c=some (-1) → cmp a c=some (-1)

theorem compareOrder_iterCmp : CompareOrder routeTablePrefixIterCmp where
  total := by
    intro a b
    rcases routeTablePrefixIterCmp_spec a b with ⟨-,hcmp⟩|⟨-,hcmp⟩|⟨-,hcmp⟩
    · exact .inl hcmp
    · exact .inr (.inl hcmp)
    · exact .inr (.inr hcmp)
  zero := cmp_eq_zero_iff
  antisymm := by
    intro a b
    rw [cmp_eq_neg_one_iff,cmp_eq_one_iff]
  trans := by
    intro a b c hab hbc
    rw [cmp_eq_neg_one_iff] at hab hbc ⊢
    exact hab.trans hbc

/-- `route_next` to the end: the table and the nodes stood on. -/
def nextUntilEnd : ℕ→RouteTable ι→Option ℕ→Option (RouteTable ι × List ℕ)
  | _, t, none => some (t,[])
  | 0, _, some _ => none
  | fuel+1, t, some i => do
    let (t,node) ← routeNext t i
    let (t,rest) ← nextUntilEnd fuel t node
    some (t,i::rest)

/-- The walk `for (node = route_top (table); node; node = route_next (node))`. -/
def traverse (fuel : ℕ) (t : RouteTable ι) : Option (RouteTable ι × List ℕ) := do
  let (t,node) ← routeTop t
  nextUntilEnd fuel t node

/-- The first node comes before the second in the order of the walk. -/
def Precedes (t : RouteTable ι) (i j : ℕ) : Prop :=
  ∃ n m, t.read i=some n ∧ t.read j=some m ∧ routeTablePrefixIterCmp n.p m.p=some (-1)

/-- The live nodes behind a prefix. -/
noncomputable def nodesBehind (t : RouteTable ι) (κ : List Bool) : Finset ℕ := by
  classical
  exact t.nodes.live.filter fun k => ∃ m, t.read k=some m ∧ κ < m.p.key

theorem mem_nodesBehind {κ : List Bool} {k : ℕ} :
    k∈nodesBehind t κ ↔ ∃ m, t.read k=some m ∧ κ < m.p.key := by
  classical
  rw [nodesBehind,Finset.mem_filter]
  constructor
  · exact fun h => h.2
  · rintro ⟨m,hm,hlt⟩
    exact ⟨Store.mem_live.mpr ⟨m,hm⟩,m,hm,hlt⟩

section

variable {fam : Family} {held : ℕ→ℕ} {t : RouteTable ι}

/-- The walk from a locked node visits what is behind it in order and unlocks. -/
theorem nextUntilEnd_spec (h : TableInvariant fam held none t) (k : ℕ) :
    ∀ {i : ℕ} {n : RouteNode ι}, t.read i=some n → (nodesBehind t n.p.key).card=k →
    ∃ rest, (∀ fuel, rest.length<fuel → nextUntilEnd fuel (lockAt t i) (some i)=some (t,i::rest)) ∧
      (∀ j, j∈rest ↔ j∈nodesBehind t n.p.key) ∧ (i::rest).Pairwise (Precedes t) := by
  induction k using Nat.strong_induction_on with
  | h k ih =>
    intro i n hi hk
    obtain ⟨node,hnext,hfst⟩ := routeNext_lockAt h hi
    have hturn (fuel : ℕ) : nextUntilEnd (fuel+1) (lockAt t i) (some i) =
        (nextUntilEnd fuel (lockedAt t node) node).bind fun a => some (a.1,i::a.2) := by
      rw [nextUntilEnd,hnext]
      rfl
    cases node with
    | none =>
      refine ⟨[],?_,?_,pairwise_singleton _ _⟩
      · intro fuel hfuel
        obtain ⟨f,rfl⟩ := Nat.exists_eq_add_of_lt hfuel
        rw [length_nil,zero_add,hturn]
        cases f with
        | zero | succ f => rfl
      intro j
      constructor
      · intro hj
        cases hj
      · intro hj
        obtain ⟨m,hm,hlt⟩ := mem_nodesBehind.mp hj
        exact absurd hlt (hfst j m hm)
    | some j =>
      obtain ⟨m,hj,hlt,hleast⟩ := hfst
      -- Behind the next node there is less: the next node itself is missing.
      have hsub : nodesBehind t m.p.key ⊂ nodesBehind t n.p.key := by
        rw [Finset.ssubset_iff_of_subset]
        · refine ⟨j,mem_nodesBehind.mpr ⟨m,hj,hlt⟩,fun hmem => ?_⟩
          obtain ⟨m',hm',hself⟩ := mem_nodesBehind.mp hmem
          rw [hj] at hm'
          cases hm'
          exact lt_irrefl _ hself
        intro x hx
        obtain ⟨y,hy,hmy⟩ := mem_nodesBehind.mp hx
        exact mem_nodesBehind.mpr ⟨y,hy,hlt.trans hmy⟩
      obtain ⟨rest,hrun,hmem,hsrt⟩ := ih _ (hk ▸ Finset.card_lt_card hsub) hj rfl
      have hsplit (x : ℕ) : x∈j::rest ↔ x∈nodesBehind t n.p.key := by
        rw [mem_cons,hmem x]
        constructor
        · rintro (rfl|hx)
          · exact mem_nodesBehind.mpr ⟨m,hj,hlt⟩
          · exact hsub.1 hx
        · intro hx
          obtain ⟨y,hy,hny⟩ := mem_nodesBehind.mp hx
          rcases (hleast x y hy hny).eq_or_lt with heq|hmy
          · exact .inl (eq_of_key_eq h.shape hj hy heq).symm
          · exact .inr (mem_nodesBehind.mpr ⟨y,hy,hmy⟩)
      refine ⟨j::rest,?_,hsplit,pairwise_cons.mpr ⟨?_,hsrt⟩⟩
      · intro fuel hfuel
        obtain ⟨f,rfl⟩ := Nat.exists_eq_add_of_lt hfuel
        rw [hturn]
        dsimp only [lockedAt]
        rw [hrun _ (by rw [length_cons]; omega)]
        rfl
      intro x hx
      obtain ⟨y,hy,hny⟩ := mem_nodesBehind.mp ((hsplit x).mp hx)
      exact ⟨n,y,hi,hy,(cmp_eq_neg_one_iff _ _).mpr hny⟩

theorem traverse_spec (h : TableInvariant fam held none t) :
    ∃ nodes, (∀ fuel, nodes.length≤fuel → traverse fuel t=some (t,nodes)) ∧
      (∀ i, i∈nodes ↔ Reachable t i) ∧ nodes.Pairwise (Precedes t) := by
  have hfst := firstOf_top h.shape
  cases htop : t.top with
  | none =>
    rw [htop] at hfst
    refine ⟨[],?_,?_,List.Pairwise.nil⟩
    · intro fuel _
      rw [traverse,routeTop,htop]
      cases fuel with
      | zero | succ fuel => rfl
    intro i
    rw [reachable_iff h.shape]
    constructor
    · intro hi
      cases hi
    · rintro ⟨n,hn⟩
      exact absurd trivial (hfst i n hn)
  | some r =>
    rw [htop] at hfst
    obtain ⟨m,hr,-,hleast⟩ := hfst
    obtain ⟨rest,hrun,hmem,hsrt⟩ := nextUntilEnd_spec h _ hr rfl
    refine ⟨r::rest,?_,?_,hsrt⟩
    · intro fuel hfuel
      rw [traverse,routeTop,htop]
      dsimp only
      rw [routeLockNode_eq hr]
      exact hrun fuel (by rw [length_cons] at hfuel; omega)
    intro i
    rw [reachable_iff h.shape,mem_cons,hmem]
    constructor
    · rintro (rfl|hi)
      · exact ⟨m,hr⟩
      obtain ⟨n,hn,-⟩ := mem_nodesBehind.mp hi
      exact ⟨n,hn⟩
    · rintro ⟨n,hn⟩
      rcases (hleast i n hn trivial).eq_or_lt with heq|hlt
      · exact .inl (eq_of_key_eq h.shape hr hn heq).symm
      · exact .inr (mem_nodesBehind.mpr ⟨n,hn,hlt⟩)

theorem nodup_of_precedes {nodes : List ℕ} (h : nodes.Pairwise (Precedes t)) : nodes.Nodup := by
  refine h.imp fun {i j} hij => ?_
  rintro rfl
  obtain ⟨n,m,hn,hm,hcmp⟩ := hij
  rw [hn] at hm
  cases hm
  exact lt_irrefl _ ((cmp_eq_neg_one_iff _ _).mp hcmp)

end

/-- **The traversal order.** The comparison is a strict total order whose assertions hold. On every
disciplined table `route_top` and `route_next` visit every node once in increasing order, and keep
all locks. -/
theorem routeTable_traversal : CompareOrder routeTablePrefixIterCmp ∧
    ∀ (fam : Family) (ops : List (TableOp ι)) (t : RouteTable ι),
      LegalRun step (Legal fam fun _ => 0) routeTableInit ops →
      run step routeTableInit ops=some t →
      ∃ nodes, (∀ fuel, nodes.length≤fuel → traverse fuel t=some (t,nodes)) ∧
        nodes.Nodup ∧ (∀ i, i∈nodes ↔ Reachable t i) ∧ nodes.Pairwise (Precedes t) := by
  refine ⟨compareOrder_iterCmp,?_⟩
  intro fam ops t hlegal ht
  obtain ⟨t',ht',hinv⟩ := run_spec fam ops hlegal
  rw [ht] at ht'
  cases ht'
  obtain ⟨nodes,hrun,hmem,hsorted⟩ := traverse_spec hinv
  exact ⟨nodes,hrun,nodup_of_precedes hsorted,hmem,hsorted⟩

theorem routeTable_traversal_sampleRun : ∃ (t : RouteTable ℕ) (nodes : List ℕ),
    run step routeTableInit sampleRun=some t ∧ traverse nodes.length t=some (t,nodes) ∧
      nodes.Nodup ∧ nodes.Pairwise (Precedes t) := by
  obtain ⟨t,ht,-⟩ := run_spec .inet sampleRun sampleRun_legal
  obtain ⟨nodes,hrun,hnodup,-,hsorted⟩ :=
    routeTable_traversal.2 .inet sampleRun t sampleRun_legal ht
  exact ⟨t,nodes,ht,hrun _ le_rfl,hnodup,hsorted⟩

/-- The node is the least behind the prefix; none when there is none. -/
def Successor (t : RouteTable ι) (p : Prefix) : Option ℕ→Prop
  | none => ∀ i n, Reachable t i → t.read i=some n → routeTablePrefixIterCmp n.p p≠some 1
  | some j => Reachable t j ∧ ∃ m, t.read j=some m ∧ routeTablePrefixIterCmp m.p p=some 1 ∧
      ∀ i n, Reachable t i → t.read i=some n → routeTablePrefixIterCmp n.p p=some 1 →
        i=j ∨ routeTablePrefixIterCmp m.p n.p=some (-1)

theorem FirstOf.successor (hs : Shape t) {p : Prefix} {node : Option ℕ}
    (h : FirstOf t (Behind p.key) node) : Successor t p node := by
  cases node with
  | none =>
    intro i n _ hn hcmp
    exact h i n hn ((cmp_eq_one_iff _ _).mp hcmp)
  | some j =>
    obtain ⟨m,hj,hlt,hleast⟩ := h
    refine ⟨live_reachable hs hj rfl,m,hj,(cmp_eq_one_iff _ _).mpr hlt,?_⟩
    intro i n _ hn hcmp
    rcases (hleast i n hn ((cmp_eq_one_iff _ _).mp hcmp)).eq_or_lt with heq|hmn
    · exact .inl (eq_of_key_eq hs hj hn heq).symm
    · exact .inr ((cmp_eq_neg_one_iff _ _).mpr hmn)

/-- **Successor search.** On every disciplined table `route_table_get_next` fails no assertion and
locks the least node behind the prefix, if any. -/
theorem routeTableGetNext_successor (fam : Family) (ops : List (TableOp ι)) (t : RouteTable ι)
    (p : Prefix) (hlegal : LegalRun step (Legal fam fun _ => 0) routeTableInit ops)
    (ht : run step routeTableInit ops=some t) :
    ∃ node, routeTableGetNext t p=some (lockedAt t node,node) ∧ Successor t p node := by
  obtain ⟨t',ht',hinv⟩ := run_spec fam ops hlegal
  rw [ht] at ht'
  cases ht'
  obtain ⟨node,hget,hfirst,-⟩ := routeTableGetNext_spec hinv p
  exact ⟨node,hget,FirstOf.successor hinv.shape hfirst⟩

theorem routeTableGetNext_successor_sampleRun : ∃ (t : RouteTable ℕ) (node : Option ℕ),
    run step routeTableInit sampleRun=some t ∧
      routeTableGetNext t (sampleRoute 0xa5 32 (by decide))=some (lockedAt t node,node) ∧
      Successor t (sampleRoute 0xa5 32 (by decide)) node := by
  obtain ⟨t,ht,-⟩ := run_spec .inet sampleRun sampleRun_legal
  obtain ⟨node,hget,hnode⟩ := routeTableGetNext_successor .inet sampleRun t
    (sampleRoute 0xa5 32 (by decide)) sampleRun_legal ht
  exact ⟨t,node,ht,hget,hnode⟩

end RoutePlatform.RouteTableTraversal
