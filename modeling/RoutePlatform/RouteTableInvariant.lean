import RoutePlatform.OperationRuns
import RoutePlatform.RouteTableShape

/-!
# The representation invariant of the route table

Every reference on a node is a token: `route_lock_node` creates one and `route_unlock_node`
consumes one. The locks cover the tokens that are held and the one of the `info` of a node, no
useless stub survives, and the counter is exact, for every operation with the held tokens as a
parameter.
-/

namespace RoutePlatform.RouteTableInvariant

open PrefixBytes BitString RouteTableOperations RouteTableShape Option

variable {ι : Type} {n : RouteNode ι} {focus : Option ℕ} {held : ℕ→ℕ} {k : ℕ}
  {t t' t'' : RouteTable ι}

/-- The lock that stands for the user data. -/
def infoLocks (n : RouteNode ι) : ℕ := if n.info.isSome then 1 else 0

/-- One more token held on node `i`. -/
def hold (held : ℕ → ℕ) (i : ℕ) : ℕ → ℕ := fun k => if k=i then held k+1 else held k

/-- The invariant of the nodes of one family. The focus may be a stub for a moment. -/
structure NodeInvariant (fam : Family) (held : ℕ→ℕ) (focus : Option ℕ) (t : RouteTable ι) :
    Prop where
  shape : Shape t
  family : ∀ {i n}, t.read i=some n → n.p.family=fam
  stub : ∀ {i n}, t.read i=some n → n.lock=0 → focus≠some i → ∀ b, n.link b≠none
  /-- The locks cover the held tokens and the user data. -/
  locks : ∀ {i n}, t.read i=some n → held i+infoLocks n≤n.lock

/-- The invariant of the whole table: the counter is exact, too. -/
structure TableInvariant (fam : Family) (held : ℕ→ℕ) (focus : Option ℕ) (t : RouteTable ι) :
    Prop extends NodeInvariant fam held focus t where
  counted : t.count=t.nodes.size

/-- Nodes somebody holds a token on survive with their prefix. -/
def Persists (held : ℕ→ℕ) (t t' : RouteTable ι) : Prop :=
  ∀ ⦃k n⦄, t.read k=some n → 0<held k → ∃ n', t'.read k=some n' ∧ n'.p=n.p

theorem Persists.trans (h : Persists held t t') (h' : Persists held t' t'') :
    Persists held t t'' := by
  intro k n hk hpos
  obtain ⟨n',hn',hp⟩ := h hk hpos
  obtain ⟨n'',hn'',hp'⟩ := h' hn' hpos
  exact ⟨n'',hn'',hp'.trans hp⟩

/-- Every node is still there with its prefix. -/
def Keeps (t t' : RouteTable ι) : Prop :=
  ∀ ⦃k n⦄, t.read k=some n → ∃ n', t'.read k=some n' ∧ n'.p=n.p

theorem Keeps.refl (t : RouteTable ι) : Keeps t t := fun _ _ hk => ⟨_,hk,rfl⟩

theorem Keeps.trans (h : Keeps t t') (h' : Keeps t' t'') : Keeps t t'' := by
  intro k n hk
  obtain ⟨n',hn',hp⟩ := h hk
  obtain ⟨n'',hn'',hp'⟩ := h' hn'
  exact ⟨n'',hn'',hp'.trans hp⟩

theorem Keeps.persists {t t' : RouteTable ι} (h : Keeps t t') (held : ℕ→ℕ) :
    Persists held t t' := fun _ _ hk _ => h hk

section

variable {fam : Family} {held held' : ℕ→ℕ} {focus : Option ℕ} {t : RouteTable ι}

theorem le_hold (held : ℕ → ℕ) (i k : ℕ) : held k≤hold held i k := by
  unfold hold
  split <;> omega

theorem hold_comm (held : ℕ → ℕ) (i j : ℕ) : hold (hold held i) j=hold (hold held j) i := by
  funext k
  unfold hold
  split <;> split <;> rfl

variable (h : TableInvariant fam held focus t)
include h

theorem TableInvariant.mono (hle : ∀ k, held' k≤held k) : TableInvariant fam held' focus t :=
  {h with locks := fun hk => (Nat.add_le_add_right (hle _) _).trans (h.locks hk)}

theorem TableInvariant.claimToken {i : ℕ} (hi : t.read i=some n) (hlt : held i+infoLocks n<n.lock) :
    TableInvariant fam (hold held i) focus t := by
  refine {h with locks := fun {k m} hk => ?_}
  unfold hold
  by_cases hki : k=i
  · rw [hki,hi] at hk
    cases hk
    rw [if_pos hki,hki]
    omega
  rw [if_neg hki]
  exact h.locks hk

end

/-- An update that leaves prefix, parent and links alone. -/
def Harmless (f : RouteNode ι→RouteNode ι) : Prop :=
  ∀ n, (f n).p=n.p ∧ (f n).parent=n.parent ∧ (f n).link=n.link

section

variable {t : RouteTable ι} {i : ℕ} {f : RouteNode ι→RouteNode ι}

theorem read_modify_cases {n' : RouteNode ι} (h : (t.modify i f).read k=some n') :
    ∃ n, t.read k=some n ∧ n'=if k=i then f n else n := by
  rw [read_modify] at h
  by_cases hk : k=i
  · subst hk
    rw [if_pos rfl,map_eq_some_iff] at h
    obtain ⟨n,hn,rfl⟩ := h
    exact ⟨n,hn,(if_pos rfl).symm⟩
  rw [if_neg hk] at h
  exact ⟨n',h,(if_neg hk).symm⟩

theorem read_modify_of_some (h : t.read k=some n) :
    (t.modify i f).read k=some (if k=i then f n else n) := by
  rw [read_modify]
  by_cases hk : k=i
  · subst hk
    rw [if_pos rfl,if_pos rfl,h]
    rfl
  · rw [if_neg hk,if_neg hk,h]

theorem Harmless.ite (hf : Harmless f) (c : Prop) [Decidable c] (n : RouteNode ι) :
    (if c then f n else n).p=n.p ∧ (if c then f n else n).parent=n.parent ∧
      (if c then f n else n).link=n.link := by
  split
  · exact hf n
  · exact ⟨rfl,rfl,rfl⟩

theorem modify_keeps (hf : Harmless f) : Keeps t (t.modify i f) :=
  fun _ _ hk => ⟨_,read_modify_of_some hk,(hf.ite _ _).1⟩

theorem keeps_modify (hf : Harmless f) : Keeps (t.modify i f) t := by
  intro k n' hk
  obtain ⟨n,hn,rfl⟩ := read_modify_cases hk
  exact ⟨n,hn,(hf.ite _ n).1.symm⟩

theorem modify_shape (hs : Shape t) (hf : Harmless f) : Shape (t.modify i f) := by
  have hedge : ∀ par k, Edge (t.modify i f) par k ↔ Edge t par k := by
    intro par k
    cases par with
    | none => exact Iff.rfl
    | some j =>
      constructor
      · rintro ⟨m',b,hj,hb⟩
        obtain ⟨m,hm,rfl⟩ := read_modify_cases hj
        rw [(hf.ite _ m).2.2] at hb
        exact ⟨m,b,hm,hb⟩
      · rintro ⟨m,b,hj,hb⟩
        exact ⟨_,b,read_modify_of_some hj,by rw [(hf.ite _ m).2.2,hb]⟩
  have hparent : ∀ par k, Parent (t.modify i f) par k ↔ Parent t par k := by
    intro par k
    constructor
    · rintro ⟨n',hk,rfl⟩
      obtain ⟨n,hn,rfl⟩ := read_modify_cases hk
      exact ⟨n,hn,(hf.ite _ n).2.1.symm⟩
    · rintro ⟨n,hk,rfl⟩
      exact ⟨_,read_modify_of_some hk,(hf.ite _ n).2.1⟩
  refine ⟨fun par k => by rw [hedge,hparent,hs.edge_iff],?_⟩
  intro k n' b c m' hk hc hm'
  obtain ⟨n,hn,rfl⟩ := read_modify_cases hk
  obtain ⟨m,hm,rfl⟩ := read_modify_cases hm'
  rw [(hf.ite _ n).2.2] at hc
  rw [(hf.ite _ n).1,(hf.ite _ m).1]
  exact hs.ordered hn hc hm

/-- A harmless update keeps the invariant when its locks still cover its tokens. -/
theorem modify_invariant {fam : Family} {held' : ℕ→ℕ} {focus' : Option ℕ}
    (h : TableInvariant fam held focus t) (hf : Harmless f)
    (hstub : ∀ {k n}, t.read k=some n → focus'≠some k →
      (if k=i then f n else n).lock=0 → n.lock=0 ∧ focus≠some k)
    (hlocks : ∀ {k n}, t.read k=some n →
      held' k+infoLocks (if k=i then f n else n)≤(if k=i then f n else n).lock) :
    TableInvariant fam held' focus' (t.modify i f) where
  shape := modify_shape h.shape hf
  family := by
    intro k n' hk
    obtain ⟨n,hn,rfl⟩ := read_modify_cases hk
    rw [(hf.ite _ n).1]
    exact h.family hn
  counted := by
    rw [(SameExtent.modify t i f).count,(SameExtent.modify t i f).size]
    exact h.counted
  stub := by
    intro k n' hk hz hfoc
    obtain ⟨n,hn,rfl⟩ := read_modify_cases hk
    obtain ⟨hz',hfoc'⟩ := hstub hn hfoc hz
    rw [(hf.ite _ n).2.2]
    exact h.stub hn hz' hfoc'
  locks := by
    intro k n' hk
    obtain ⟨n,hn,rfl⟩ := read_modify_cases hk
    exact hlocks hn

end

section

variable {fam : Family} {held : ℕ→ℕ} {t : RouteTable ι} {i : ℕ} {n : RouteNode ι}

theorem withLock_harmless (g : ℕ→ℕ) :
    Harmless fun n : RouteNode ι => n.withLock (g n.lock) := fun _ => ⟨rfl,rfl,rfl⟩

/-- `route_lock_node` gives the caller a token. A stub in focus is no stub
any more. -/
theorem routeLockNode_spec (h : TableInvariant fam held focus t) (hi : t.read i=some n)
    (hfoc : focus=none ∨ focus=some i) :
    ∃ t', routeLockNode t i=some t' ∧ TableInvariant fam (hold held i) none t' ∧
      t'.read i=some (n.withLock (n.lock+1)) ∧ Keeps t t' ∧ Keeps t' t := by
  have hf : Harmless fun n : RouteNode ι => n.withLock (n.lock+1) := withLock_harmless (· + 1)
  refine ⟨t.modify i fun n => n.withLock (n.lock+1),?_,?_,?_,modify_keeps hf,keeps_modify hf⟩
  · rw [routeLockNode,hi]
    rfl
  · apply modify_invariant h hf
    · intro k m hk hnf hz
      by_cases hki : k=i
      · rw [if_pos hki] at hz
        cases hz
      rw [if_neg hki] at hz
      refine ⟨hz,?_⟩
      rcases hfoc with rfl|rfl
      · simp
      · exact fun he => hki (some.inj he).symm
    intro k m hk
    have hl := h.locks hk
    unfold hold
    by_cases hki : k=i
    · rw [if_pos hki,if_pos hki]
      change held k+1+infoLocks m ≤ m.lock+1
      omega
    rw [if_neg hki,if_neg hki]
    exact hl
  · rw [read_modify_of_some hi,if_pos rfl]

/-- `route_node_delete` of an unlocked node takes the chain of stubs above it, too. -/
theorem routeNodeDelete_spec {fuel : ℕ} : ∀ {t : RouteTable ι} {i : ℕ} {n : RouteNode ι},
    TableInvariant fam held (some i) t → t.read i=some n → n.lock=0 → n.p.prefixlen<fuel →
    ∃ t', routeNodeDelete fuel t i=some t' ∧ TableInvariant fam held none t' ∧
      (∀ {k m}, t.read k=some m → 0 < m.lock → ∃ m', t'.read k=some m' ∧ m'.p=m.p) ∧
      Keeps t' t ∧ ((∀ b, n.link b≠none) → t'=t) := by
  induction fuel with
  | zero =>
    intro t i n _ _ _ hfuel
    exact absurd hfuel (Nat.not_lt_zero _)
  | succ fuel ih =>
    intro t i n h hi hz hfuel
    have hinfo : n.info=none := by
      have hl := h.locks hi
      rw [hz] at hl
      cases hn : n.info with
      | none => rfl
      | some v => simp [infoLocks,hn] at hl
    rw [routeNodeDelete,hi]
    change ∃ t', (if n.lock≠0 ∨ n.info.isSome then none else _)=some t' ∧ _
    rw [if_neg (by simp [hz,hinfo])]
    by_cases hboth : n.link false≠none ∧ n.link true≠none
    · rw [if_pos hboth]
      refine ⟨t,rfl, {h with stub := ?_},fun hk _ => ⟨_,hk,rfl⟩,Keeps.refl t,fun _ => rfl⟩
      intro k m hk hkz _ b
      by_cases hki : k=i
      · rw [hki,hi] at hk
        cases hk
        cases b with
        | false => exact hboth.1
        | true => exact hboth.2
      · exact h.stub hk hkz (fun he => hki (some.inj he).symm) b
    rw [if_neg hboth]
    have hu := unlinkNode_spec h.shape hi
    have hnboth : ¬ ∀ b, n.link b≠none := fun hb => hboth ⟨hb false,hb true⟩
    -- After the removal only the parent can be a new stub.
    have hinv : TableInvariant fam held n.parent (unlinkNode t i n) := by
      refine ⟨⟨hu.shape h.shape hi hboth,?_,?_,?_⟩,?_⟩
      · intro k y' hk
        obtain ⟨-,y,hy,hyp,-⟩ := hu.back h.shape hi hk
        rw [hyp]
        exact h.family hy
      · intro k y' hk hkz hkp b
        obtain ⟨hki,y,hy,-,hyl,-,-,hlink⟩ := hu.back h.shape hi hk
        rw [hlink hkp]
        exact h.stub hy (hyl ▸ hkz) (fun he => hki (some.inj he).symm) b
      · intro k y' hk
        obtain ⟨-,y,hy,-,hyl,hyi,-⟩ := hu.back h.shape hi hk
        have hl := h.locks hy
        rw [infoLocks,hyi,hyl]
        exact hl
      have hc := h.counted
      have hsz := hu.size
      rw [hu.count]
      omega
    have hpersist : ∀ {k m}, t.read k=some m → 0 < m.lock →
        ∃ m', (unlinkNode t i n).read k=some m' ∧ m'.p=m.p ∧ m'.lock=m.lock := by
      intro k m hk hpos
      have hki : k≠i := by
        rintro rfl
        rw [hi] at hk
        cases hk
        omega
      obtain ⟨m',hm',hp,hl,-⟩ := hu.keep hk hki
      exact ⟨m',hm',hp,hl⟩
    have hback : Keeps (unlinkNode t i n) t := by
      intro k m' hk
      obtain ⟨-,m,hm,hp,-⟩ := hu.back h.shape hi hk
      exact ⟨m,hm,hp.symm⟩
    cases hp : n.parent with
    | none =>
      rw [hp] at hinv
      refine ⟨_,rfl,hinv,fun hk hpos => ?_,hback,fun hb => absurd hb hnboth⟩
      obtain ⟨m',hm',hpm,-⟩ := hpersist hk hpos
      exact ⟨m',hm',hpm⟩
    | some j =>
      rw [hp] at hinv
      obtain ⟨x,b,hx,-,hxr,hxbit⟩ := hu.read_parent hp
      change ∃ t', ((unlinkNode t i n).read j).bind _=some t' ∧ _
      rw [hxr,bind_some]
      by_cases hxz : x.lock=0
      · have hlt : x.p.prefixlen<fuel := by
          have hl := lt_length_of_getElem? hxbit
          rw [Prefix.length_key] at hl
          omega
        obtain ⟨t',ht',hinv',hkeep',hback',-⟩ := ih hinv hxr hxz hlt
        refine ⟨t',by rw [if_pos]; exacts [ht',hxz],hinv',?_,hback'.trans hback,
          fun hb => absurd hb hnboth⟩
        intro k m hk hpos
        obtain ⟨m',hm',hpm,hlm⟩ := hpersist hk hpos
        obtain ⟨m'',hm'',hpm'⟩ := hkeep' hm' (hlm ▸ hpos)
        exact ⟨m'',hm'',hpm'.trans hpm⟩
      · refine ⟨_,if_neg hxz, {hinv with stub := ?_},fun hk hpos => ?_,hback,
          fun hb => absurd hb hnboth⟩
        · intro k m hk hkz _
          refine hinv.stub hk hkz ?_
          intro he
          cases he
          rw [hxr] at hk
          cases hk
          exact hxz hkz
        obtain ⟨m',hm',hpm,-⟩ := hpersist hk hpos
        exact ⟨m',hm',hpm⟩

/-- `route_unlock_node` consumes a token the caller holds. -/
theorem routeUnlockNode_spec (h : TableInvariant fam (hold held i) none t) (hi : t.read i=some n) :
    ∃ t', routeUnlockNode t i=some t' ∧ TableInvariant fam held none t' ∧
      Persists held t t' ∧ Keeps t' t ∧ ((1<n.lock ∨ ∀ b, n.link b≠none) → Keeps t t') := by
  have hl : held i+1+infoLocks n≤n.lock := by
    have hl := h.locks hi
    rwa [hold,if_pos rfl] at hl
  have hf : Harmless fun n : RouteNode ι => n.withLock (n.lock-1) := withLock_harmless (· - 1)
  have hinv : TableInvariant fam held (if n.lock-1=0 then some i else none)
      (t.modify i fun n => n.withLock (n.lock-1)) := by
    apply modify_invariant h hf
    · intro k m hk hfoc hkz
      refine ⟨?_,by simp⟩
      by_cases hki : k=i
      · subst hki
        rw [hi] at hk
        cases hk
        rw [if_pos rfl] at hkz
        rw [if_pos (show n.lock-1=0 from hkz)] at hfoc
        exact absurd rfl hfoc
      · rwa [if_neg hki] at hkz
    intro k m hk
    by_cases hki : k=i
    · subst hki
      rw [hi] at hk
      cases hk
      rw [if_pos rfl]
      change held k+infoLocks n≤n.lock-1
      omega
    have hlk := h.locks hk
    rw [hold,if_neg hki] at hlk
    rw [if_neg hki]
    exact hlk
  have hread := read_modify_of_some (f := fun n : RouteNode ι => n.withLock (n.lock-1)) (i := i) hi
  rw [if_pos rfl] at hread
  rw [routeUnlockNode,hi]
  change ∃ t', (if n.lock=0 then none else _)=some t' ∧ _
  rw [if_neg (by omega)]
  by_cases hz : n.lock-1=0
  · rw [if_pos hz] at hinv
    obtain ⟨t',ht',hinv',hkeep,hback,hfork⟩ := routeNodeDelete_spec hinv hread hz
      (show n.p.prefixlen<branchFuel by
        have := n.p.len_le_128
        unfold branchFuel
        omega)
    have hsurvive : ∀ {k m}, t.read k=some m → 0<(if k=i then m.lock-1 else m.lock) →
        ∃ m', t'.read k=some m' ∧ m'.p=m.p := by
      intro k m hk hpos
      obtain ⟨m',hm',hp⟩ := hkeep (read_modify_of_some hk) (by
        by_cases hki : k=i
        · rw [if_pos hki] at hpos ⊢
          exact hpos
        · rw [if_neg hki] at hpos ⊢
          exact hpos)
      exact ⟨m',hm',hp.trans (hf.ite _ _).1⟩
    refine ⟨t',by rw [if_pos hz]; exact ht',hinv',?_,hback.trans (keeps_modify hf),?_⟩
    · intro k m hk hpos
      apply hsurvive hk
      have hlk := h.locks hk
      unfold hold at hlk
      split at hlk <;> split <;> omega
    rintro (hgt|hboth)
    · omega
    rw [hfork hboth]
    exact modify_keeps hf
  · rw [if_neg hz] at hinv
    exact ⟨_,if_neg hz,hinv,(modify_keeps hf).persists held,keeps_modify hf,
      fun _ => modify_keeps hf⟩

end

end RoutePlatform.RouteTableInvariant
