import RoutePlatform.RouteTableRuns

/-!
# The nodes of a table

A node without a lock is there only where the tree forks. The locked prefixes therefore determine
the nodes of a table, whatever was inserted and taken away before.
-/

namespace RoutePlatform.RouteTableForks

open PrefixBytes BitString OperationRuns RouteTableOperations RouteTableShape RouteTableInvariant
  Option
open RouteTableRuns

variable {ι : Type} {t : RouteTable ι} {i j : ℕ} {n m : RouteNode ι} {c : List Bool}

/-- There is a node for a prefix. -/
def Present (t : RouteTable ι) (key : List Bool) : Prop := ∃ i n, t.read i=some n ∧ n.p.key=key

/-- Somebody holds a lock on it. -/
def Locked (t : RouteTable ι) (key : List Bool) : Prop :=
  ∃ i n, t.read i=some n ∧ 0<n.lock ∧ n.p.key=key

/-- Locked prefixes part behind `c`. -/
def Forks (t : RouteTable ι) (c : List Bool) : Prop := ∀ bit : Bool,
  ∃ key, Locked t key ∧ c <+: key ∧ key[c.length]? = some bit

theorem isPrefix_fork {xs us vs : List Bool} {a b : Bool} (hu : xs <+: us) (hv : xs <+: vs)
    (hc : c <+: us) (ha : us[c.length]? = some a) (hb : vs[c.length]? = some b) (hab : a≠b) :
    xs <+: c := by
  refine List.prefix_of_prefix_length_le hu hc (not_lt.mp fun hlt => hab ?_)
  rw [getElem?_of_isPrefix hu hlt,←getElem?_of_isPrefix hv hlt,hb] at ha
  exact (some.inj ha).symm

/-- Two nodes that part behind `c` part at a node. -/
theorem exists_fork (hs : Shape t) {a b : Bool} (hi : t.read i=some n) (hj : t.read j=some m)
    (hn : c <+: n.p.key) (hm : c <+: m.p.key) (ha : n.p.key[c.length]? = some a)
    (hb : m.p.key[c.length]? = some b) (hab : a≠b) : Present t c := by
  -- a node above both is at the fork or has a child above both
  have descend : ∀ d k x, t.read k=some x → x.p.key <+: n.p.key → x.p.key <+: m.p.key →
      c.length-x.p.prefixlen=d → Present t c := by
    intro d
    induction d using Nat.strong_induction_on with
    | h d ih =>
      intro k x hk hxn hxm hd
      have hxc := isPrefix_fork hxn hxm hn ha hb hab
      rcases hxc.length_le.eq_or_lt with heq|hlt
      · exact ⟨k,x,hk,hxc.eq_of_length heq⟩
      rw [Prefix.length_key] at hlt
      have hne {y : RouteNode ι} {k' : ℕ} (hy : t.read k'=some y) (hcy : c <+: y.p.key) : k≠k' := by
        rintro rfl
        obtain rfl := some.inj (hk.symm.trans hy)
        exact hlt.not_ge (by simpa using hcy.length_le)
      obtain ⟨s,k1,x1,hs1,hl,hx1,hp,-,hlong⟩ := child_towards hs hk hi hxn (hne hi hn)
      obtain ⟨s',k2,x2,hs2,hl',hx2,hp',-⟩ := child_towards hs hk hj hxm (hne hj hm)
      rw [getElem?_of_isPrefix hn hlt] at hs1
      rw [getElem?_of_isPrefix hm hlt,hs1] at hs2
      obtain rfl := some.inj hs2
      obtain rfl := some.inj (hl.symm.trans hl')
      obtain rfl := some.inj (hx1.symm.trans hx2)
      exact ih _ (by omega) k1 x1 hx1 hp hp' rfl
  obtain ⟨r,x,htop,hr,hrn,-⟩ := top_isPrefix_of hs hi rfl
  obtain ⟨r',x',htop',hr',hrm,-⟩ := top_isPrefix_of hs hj rfl
  obtain rfl := some.inj (htop.symm.trans htop')
  obtain rfl := some.inj (hr.symm.trans hr')
  exact descend _ r x hr hrn hrm rfl

section

variable {fam : Family} {held : ℕ→ℕ} (h : TableInvariant fam held none t)
include h

theorem exists_child (hi : t.read i=some n) (hlock : ¬0<n.lock) (bit : Bool) :
    ∃ k x, t.read k=some x ∧ n.p.key <+: x.p.key ∧ x.p.key[n.p.prefixlen]? = some bit := by
  obtain ⟨k,hk⟩ := ne_none_iff_exists'.mp (h.stub hi (by omega) (by simp) bit)
  obtain ⟨x,hx,-,hpre,hbit⟩ := h.shape.link_child hi hk
  exact ⟨k,x,hx,hpre,hbit⟩

/-- Somewhere below every node there is a lock. -/
theorem exists_locked (hi : t.read i=some n) : ∃ key, Locked t key ∧ n.p.key <+: key := by
  induction hd : 128-n.p.prefixlen using Nat.strong_induction_on generalizing i n with
  | h d ih =>
    by_cases hlock : 0<n.lock
    · exact ⟨n.p.key,⟨i,n,hi,hlock,rfl⟩,List.prefix_rfl⟩
    obtain ⟨k,x,hx,hpre,hbit⟩ := exists_child h hi hlock false
    have hlt := lt_length_of_getElem? hbit
    have hle := x.p.len_le_128
    rw [Prefix.length_key] at hlt
    obtain ⟨key,hkey,hbelow⟩ := ih _ (by omega) hx rfl
    exact ⟨key,hkey,hpre.trans hbelow⟩

theorem forks_of_unlocked (hi : t.read i=some n) (hlock : ¬0<n.lock) : Forks t n.p.key := by
  intro bit
  obtain ⟨k,x,hx,hpre,hbit⟩ := exists_child h hi hlock bit
  obtain ⟨key,hkey,hbelow⟩ := exists_locked h hx
  refine ⟨key,hkey,hpre.trans hbelow,?_⟩
  rw [Prefix.length_key,getElem?_of_isPrefix hbelow (lt_length_of_getElem? hbit),hbit]

end

/-- **Nothing is left behind.** After every disciplined run on an empty table the nodes are those
of the locked prefixes and those where two locked prefixes part. -/
theorem routeTable_nodes (fam : Family) (ops : List (TableOp ι))
    (hlegal : LegalRun step (Legal fam fun _ => 0) routeTableInit ops) :
    ∃ t, run step routeTableInit ops=some t ∧
      ∀ key, Present t key ↔ Locked t key ∨ Forks t key := by
  obtain ⟨t,ht,h⟩ := run_spec fam ops hlegal
  refine ⟨t,ht,fun key => ⟨?_,?_⟩⟩
  · rintro ⟨i,n,hi,rfl⟩
    by_cases hlock : 0<n.lock
    · exact .inl ⟨i,n,hi,hlock,rfl⟩
    · exact .inr (forks_of_unlocked h hi hlock)
  rintro (⟨i,n,hi,-,hkey⟩|hforks)
  · exact ⟨i,n,hi,hkey⟩
  obtain ⟨_,⟨i,n,hi,-,rfl⟩,hn,ha⟩ := hforks false
  obtain ⟨_,⟨j,m,hj,-,rfl⟩,hm,hb⟩ := hforks true
  exact exists_fork h.shape hi hj hn hm ha hb Bool.false_ne_true

theorem routeTable_nodes_sampleRun : ∃ t, run step routeTableInit sampleRun=some t ∧
    ∀ key, Present t key ↔ Locked t key ∨ Forks t key :=
  routeTable_nodes .inet sampleRun sampleRun_legal

end RoutePlatform.RouteTableForks
