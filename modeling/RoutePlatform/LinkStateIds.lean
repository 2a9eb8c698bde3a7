import Mathlib

/-!
# Link State IDs of prefixes with one base address

`ospf_lsa_unique_id` gives the second prefix with a base address an id with all host bits
set, and `ospf_lsa_lookup_by_prefix` derives the id again. It takes whatever LSA it finds
under the second id for the one it looks for.
-/

namespace RoutePlatform.LinkStateIds

open Function Option

/-- The host bits of prefixes of a length: `~mask` after `masklen2ip`. -/
def hostMask (prefixlen : ℕ) : BitVec 32 := BitVec.allOnes 32>>>prefixlen

/-- `struct prefix_ipv4` with its mask applied. -/
structure PrefixIpv4 where
  prefix' : BitVec 32
  prefixlen : ℕ
  len_le : prefixlen≤32
  masked : prefix' &&& hostMask prefixlen=0
  deriving DecidableEq

/-- The id with all host bits set. -/
def PrefixIpv4.last (p : PrefixIpv4) : BitVec 32 := p.prefix' ||| hostMask p.prefixlen

/-- The self-originated LSAs of a type by id, with mask and, as a ghost, prefix. -/
abbrev Lsdb := BitVec 32 → Option PrefixIpv4

variable (area : Bool) (lsdb : Lsdb) (p : PrefixIpv4)

/-- `ospf_lsa_lookup_by_prefix`: the LSA with its id. -/
def ospfLsaLookupByPrefix : Option (BitVec 32 × PrefixIpv4) :=
  match lsdb p.prefix' with
  | none => none
  | some q =>
    if p.prefixlen≠q.prefixlen then (lsdb p.last).map fun q => (p.last,q)
    else some (p.prefix',q)

/-- `ospf_lsa_unique_id`. The second lookup is in `ospf->lsdb`, which lacks types kept in areas. -/
def ospfLsaUniqueId : BitVec 32 :=
  match lsdb p.prefix' with
  | none => p.prefix'
  | some q =>
    if q.prefixlen=p.prefixlen then 0xffffffff
    else if (if area then none else lsdb p.last).isSome then 0xffffffff
    else p.last

/-- An LSA is originated for a prefix, or the one with an id is flushed. -/
inductive LsaOp where
  | originate (p : PrefixIpv4)
  | flush (id : BitVec 32)

def step : LsaOp → Lsdb
  | .originate p =>
    let id := ospfLsaUniqueId area lsdb p
    if id=0xffffffff then lsdb else update lsdb id (some p)
  | .flush id => update lsdb id none

/-- The database after some originations and flushes. -/
def lsdbAfter (ops : List LsaOp) : Lsdb := ops.foldl (step area) fun _ => none

/-- The new id of a prefix is not in use. -/
def Unique : Prop :=
  ospfLsaUniqueId area lsdb p=0xffffffff ∨ lsdb (ospfLsaUniqueId area lsdb p)=none

/-- The lookup finds the LSA of the prefix, and no other one. -/
structure Found : Prop where
  own : ∀ id, lsdb id=some p → ∃ id', ospfLsaLookupByPrefix lsdb p=some (id',p)
  none : (∀ id, lsdb id≠some p) → ospfLsaLookupByPrefix lsdb p=none

/-- Behind an LSA of another length at the base address the second id is free. -/
def SecondFree : Prop := ∀ q, lsdb p.prefix'=some q → q.prefixlen≠p.prefixlen →
  p.last=0xffffffff ∨ lsdb p.last=none

/-- The LSA of the prefix has not outlived one at the base address, and behind one of another
length there no other LSA has the second id. -/
def SecondOwn : Prop :=
  match lsdb p.prefix' with
  | none => lsdb p.last≠some p
  | some q => q.prefixlen≠p.prefixlen → ∀ r, lsdb p.last=some r → r=p

/-- Every LSA has one of the two ids of its prefix. -/
def Placed : Prop := ∀ id q, lsdb id=some q → id=q.prefix' ∨ id=q.last

variable {area lsdb p}

/-- An address with all host bits set is no base address. -/
theorem eq_of_last_eq {q : PrefixIpv4} (hlen : q.prefixlen=p.prefixlen) (h : q.last=p.prefix') :
    q=p := by
  have hmask : q.last &&& hostMask q.prefixlen=hostMask q.prefixlen := by
    ext i
    simpa [PrefixIpv4.last] using Or.inr
  have hz : hostMask p.prefixlen=0 := by
    rw [h,hlen,p.masked] at hmask
    exact hmask.symm
  have hbase : q.prefix'=p.prefix' := by simpa [PrefixIpv4.last,hlen,hz] using h
  cases p
  cases q
  simp_all

theorem ospfLsaUniqueId_cases (area : Bool) (lsdb : Lsdb) (p : PrefixIpv4) :
    ospfLsaUniqueId area lsdb p=0xffffffff ∨ ospfLsaUniqueId area lsdb p=p.prefix' ∨
      ospfLsaUniqueId area lsdb p=p.last := by
  unfold ospfLsaUniqueId
  cases lsdb p.prefix' with
  | none => exact .inr (.inl rfl)
  | some q =>
    dsimp only
    split_ifs <;> simp

/-- Uniqueness needs nothing in the database of the AS. -/
theorem unique_iff : Unique area lsdb p ↔ (area=true → SecondFree lsdb p) := by
  unfold Unique ospfLsaUniqueId SecondFree
  cases hq : lsdb p.prefix' with
  | none => simp [hq]
  | some q =>
    by_cases hlen : q.prefixlen=p.prefixlen
    · simp [hlen]
    · cases area <;> cases hr : lsdb p.last <;> simp [hlen,hr]

section

variable (h : Placed lsdb)
include h

theorem Placed.eq_of_length {q : PrefixIpv4} (hq : lsdb p.prefix'=some q)
    (hlen : q.prefixlen=p.prefixlen) : q=p := by
  rcases h _ _ hq with hbase|hlast
  · cases p
    cases q
    simp_all
  · exact eq_of_last_eq hlen hlast.symm

/-- The lookup is right exactly where the second id is not taken for another one. -/
theorem Placed.found_iff : Found lsdb p ↔ SecondOwn lsdb p := by
  have hids : ∀ id, lsdb id=some p → lsdb p.prefix'=some p ∨ lsdb p.last=some p := fun id hid => by
    rcases h id p hid with rfl|rfl
    · exact .inl hid
    · exact .inr hid
  unfold SecondOwn
  cases hq : lsdb p.prefix' with
  | none =>
    have hlk : ospfLsaLookupByPrefix lsdb p=none := by rw [ospfLsaLookupByPrefix,hq]
    refine ⟨fun hfnd hlast => ?_,fun hlast => ⟨fun id hid => ?_,fun _ => hlk⟩⟩
    · obtain ⟨id',hid'⟩ := hfnd.own _ hlast
      rw [hlk] at hid'
      cases hid'
    · rcases hids id hid with hbase|hend
      · rw [hq] at hbase
        cases hbase
      · exact absurd hend hlast
  | some q =>
    by_cases hlen : q.prefixlen=p.prefixlen
    · obtain rfl := h.eq_of_length hq hlen
      have hlk : ospfLsaLookupByPrefix lsdb q=some (q.prefix',q) := by
        rw [ospfLsaLookupByPrefix,hq]
        exact if_neg (not_not.mpr rfl)
      exact iff_of_true ⟨fun _ _ => ⟨_,hlk⟩,fun hno => absurd hq (hno _)⟩
        fun hne => absurd rfl hne
    have hlk : ospfLsaLookupByPrefix lsdb p=(lsdb p.last).map fun q => (p.last,q) := by
      rw [ospfLsaLookupByPrefix,hq]
      exact if_pos fun heq => hlen heq.symm
    have hbase : lsdb p.prefix'≠some p := fun heq => by
      rw [hq] at heq
      exact hlen (congrArg PrefixIpv4.prefixlen (some.inj heq))
    constructor
    · intro hfnd _ r hr
      by_contra hne
      have hnone := hfnd.none fun id hid => by
        rcases hids id hid with hid|hid
        · exact hbase hid
        · exact hne (some.inj (hr.symm.trans hid))
      rw [hlk,hr] at hnone
      cases hnone
    · intro hown
      refine ⟨fun id hid => ?_,fun hno => ?_⟩
      · have hlast := (hids id hid).resolve_left hbase
        exact ⟨p.last,by rw [hlk,hlast]; rfl⟩
      · rw [hlk,map_eq_none_iff,eq_none_iff_forall_ne_some]
        exact fun r hr => hno _ (hown hlen r hr ▸ hr)

theorem placed_step (area : Bool) (op : LsaOp) : Placed (step area lsdb op) := by
  intro id q hq
  cases op with
  | originate p =>
    rw [step] at hq
    split at hq
    · exact h id q hq
    rename_i hid
    by_cases heq : id=ospfLsaUniqueId area lsdb p
    · rw [heq,update_self,some.injEq] at hq
      rw [heq,←hq]
      exact (ospfLsaUniqueId_cases area lsdb p).resolve_left hid
    · rw [update_of_ne heq] at hq
      exact h id q hq
  | flush id' =>
    rw [step] at hq
    by_cases heq : id=id'
    · rw [heq,update_self] at hq
      cases hq
    · rw [update_of_ne heq] at hq
      exact h id q hq

theorem placed_foldl (area : Bool) (ops : List LsaOp) : Placed (ops.foldl (step area) lsdb) := by
  induction ops generalizing lsdb with
  | nil => exact h
  | cons op ops ih => exact ih (placed_step h area op)

end

/-- After every run new ids are unique in the database of the AS, and in that of an area exactly
with a free second id; the lookup is right exactly where the second id is the prefix's own. -/
theorem linkStateIds_run (area : Bool) (ops : List LsaOp) (p : PrefixIpv4) :
    (Unique area (lsdbAfter area ops) p ↔ (area=true → SecondFree (lsdbAfter area ops) p)) ∧
      (Found (lsdbAfter area ops) p ↔ SecondOwn (lsdbAfter area ops) p) :=
  ⟨unique_iff,(placed_foldl (fun _ _ h => absurd h.symm (some_ne_none _)) area ops).found_iff⟩

/-- 10.0.0.0/8. -/
def net : PrefixIpv4 := ⟨0x0A000000,8,Nat.le_add_right 8 24,by decide⟩

/-- 10.0.0.0/16. -/
def subnet : PrefixIpv4 := ⟨0x0A000000,16,Nat.le_add_right 16 16,by decide⟩

/-- 10.0.0.0/32. -/
def host : PrefixIpv4 := ⟨0x0A000000,32,by decide,by decide⟩

/-- Both of two nested prefixes are found. -/
theorem linkStateIds_run_nested :
    Found (lsdbAfter false [.originate net,.originate subnet]) net ∧
      Found (lsdbAfter false [.originate net,.originate subnet]) subnet :=
  ⟨(linkStateIds_run false _ net).2.mpr fun h => absurd rfl h,
    (linkStateIds_run false _ subnet).2.mpr fun _ _ hr => (some.inj hr).symm⟩

/-- The LSA of 10.0.0.0/8 is taken for that of 10.0.0.0/32, which was never originated. -/
theorem linkStateIds_confused :
    ospfLsaLookupByPrefix (lsdbAfter false [.originate net]) host=some (0x0A000000,net) ∧
      ¬Found (lsdbAfter false [.originate net]) host := by
  have hfound : ospfLsaLookupByPrefix (lsdbAfter false [.originate net]) host =
      some (0x0A000000,net) := by decide
  refine ⟨hfound,fun h => ?_⟩
  have hnone := h.none fun id hid => ?_
  · rw [hfound] at hnone
    cases hnone
  · have hstart : Placed fun _ => none := fun _ _ h => absurd h.symm (some_ne_none _)
    rcases placed_foldl hstart false [.originate net] id host hid with rfl|rfl
    all_goals exact absurd hid (by decide)

end RoutePlatform.LinkStateIds
