import RoutePlatform.HashInvariant

/-!
# Hash tables under sequences of calls

A table answers every lookup with the item that was inserted for the class and
not since released, whether or not it was expanded in between, as long as no
table of 2147483648 chains is expanded: the doubled size is then zero.
-/

namespace RoutePlatform.HashRuns

open ClassMap OperationRuns HashOperations HashInvariant Function List Option

universe u

variable {α : Type u} (hashKey : α→BitVec 32) (hashCmp : α→α→Bool)

/-- The table is the set of the items stored in it. -/
structure FaithfulSet (hash : Hash α) (stored : α→Option α) : Prop where
  distinct : (hashItems hash).Pairwise fun x y => hashCmp x y=false
  place : ∀ i, ∀ b∈hash.index i, i<hash.size.toNat ∧ b.key=hashKey b.data ∧
    (b.key &&& (hash.size-1)).toNat=i
  /-- A lookup answers with the item stored for the class. -/
  lookup : ∀ x, hashLookup hashKey hashCmp hash x=some (hash,stored x)
  count : hash.count=(hashItems hash).length
  size : ∃ k, hash.size.toNat=2^k

/-- The call does not expand a table that has the largest size. -/
def ExpansionFits (hash : Hash α) : HashOp α→Prop
  | .get data allocFunc =>
    findBacket hashKey hashCmp hash data=none → (allocFunc.bind fun f => f data)≠none →
      expanding hashKey hash data=true → hash.size≠largestSize
  | _ => True

/-- The calls that keep a table faithful. -/
def SafeCall (hash : Hash α) (op : HashOp α) : Prop :=
  HashLegal hashCmp op ∧ ExpansionFits hashKey hashCmp hash op

instance decidableHashLegal : ∀ op, Decidable (HashLegal hashCmp op)
  | .get data allocFunc => inferInstanceAs (Decidable
      (∀ f∈allocFunc, ∀ newdata∈f data, hashCmp newdata data=true))
  | .lookup _ => .isTrue trivial
  | .release _ => .isTrue trivial

instance decidableExpansionFits [DecidableEq α] (hash : Hash α) :
    ∀ op, Decidable (ExpansionFits hashKey hashCmp hash op)
  | .get data allocFunc => inferInstanceAs (Decidable
      (findBacket hashKey hashCmp hash data=none → (allocFunc.bind fun f => f data)≠none →
        expanding hashKey hash data=true → hash.size≠largestSize))
  | .lookup _ => .isTrue trivial
  | .release _ => .isTrue trivial

instance decidableSafeCall [DecidableEq α] (hash : Hash α) (op : HashOp α) :
    Decidable (SafeCall hashKey hashCmp hash op) := inferInstanceAs (Decidable (_ ∧ _))

/-- A table and the items stored in it. -/
structure Tracks (hash : Hash α) (stored : α→Option α) : Prop where
  inv : HashInv hashKey hashCmp hash
  holds : Holds hashCmp (Stored hash) stored

variable {hashKey hashCmp}

variable {hash : Hash α} {stored : α→Option α}

theorem Tracks.findBacket (h : Tracks hashKey hashCmp hash stored)
    (hf : HashFunctions hashKey hashCmp) (x : α) :
    (findBacket hashKey hashCmp hash x).map Backet.data=stored x := by
  apply ext
  intro y
  exact (findBacket_eq_some_iff h.inv hf x y).trans (h.holds x y).symm

theorem insertion_spec (h : Tracks hashKey hashCmp hash stored)
    (hf : HashFunctions hashKey hashCmp) {data newdata : α}
    (hlike : hashCmp newdata data=true) (hnone : stored data=none)
    (hfits : expanding hashKey hash data=true → hash.size≠largestSize) :
    ∃ hash', (if expanding hashKey hash data then hashExpand hash else some hash)=some hash' ∧
      Tracks hashKey hashCmp (insertBacket hash' (hashKey data) newdata)
        (put hashCmp stored newdata) := by
  obtain ⟨hash',hexpand,hinv,hsto⟩ : ∃ hash',
      (if expanding hashKey hash data then hashExpand hash else some hash)=some hash' ∧
        HashInv hashKey hashCmp hash' ∧ ∀ x, Stored hash' x ↔ Stored hash x := by
    by_cases hexp : expanding hashKey hash data=true
    · rw [if_pos hexp]
      exact hashExpand_spec h.inv hf (hfits hexp)
    rw [if_neg hexp]
    exact ⟨hash,rfl,h.inv,fun _ => Iff.rfl⟩
  have hfree : ∀ x, Stored hash' x → hashCmp x data=false := fun x hx =>
    (h.holds.eq_none_iff data).mp hnone x ((hsto x).mp hx)
  obtain ⟨hinv',hsto'⟩ := insertBacket_spec hinv hf hlike hfree
  refine ⟨hash',hexpand,hinv',h.holds.put hf.equivalent (fun y hy => ?_) fun y => ?_⟩
  · by_contra hbad
    have hdata := hf.equivalent.trans (Bool.eq_true_of_not_eq_false hbad) hlike
    rw [hfree y ((hsto y).mpr hy)] at hdata
    cases hdata
  · rw [hsto',hsto]

/-- One call follows the set of stored items. -/
theorem hashStep_tracks (hf : HashFunctions hashKey hashCmp) (hash : Hash α)
    (stored : α→Option α) (op : HashOp α) (h : Tracks hashKey hashCmp hash stored)
    (hsafe : SafeCall hashKey hashCmp hash op) :
    ∃ hash', hashStep hashKey hashCmp hash op=some hash' ∧
      Tracks hashKey hashCmp hash' (storedStep hashCmp stored op) := by
  obtain ⟨hleg,hfits⟩ := hsafe
  cases op with
  | get data allocFunc =>
    have hfind := h.findBacket hf data
    rw [hashStep,hashGet,storedStep,←hfind]
    cases hb : findBacket hashKey hashCmp hash data with
    | some b => exact ⟨hash,rfl,h⟩
    | none =>
      rw [hb] at hfind
      cases hnew : allocFunc.bind fun f => f data with
      | none => exact ⟨hash,rfl,h⟩
      | some newdata =>
        obtain ⟨f,hf',hfd⟩ := bind_eq_some_iff.mp hnew
        have hlike := hleg f hf' newdata hfd
        have hne : (allocFunc.bind fun f => f data)≠none := by
          rw [hnew]
          exact some_ne_none newdata
        obtain ⟨hash',hexpand,htracks⟩ := insertion_spec h hf hlike hfind.symm (hfits hb hne)
        refine ⟨_,?_,htracks⟩
        rw [hexpand]
        rfl
  | lookup data =>
    refine ⟨hash,?_,h⟩
    rw [hashStep,hashLookup,hashGet]
    cases findBacket hashKey hashCmp hash data <;> rfl
  | release data =>
    obtain ⟨hinv,hsto⟩ := hashRelease_spec h.inv hf data
    exact ⟨_,rfl,hinv,h.holds.remove hf.equivalent hsto⟩

theorem Tracks.faithfulSet (h : Tracks hashKey hashCmp hash stored) (hf : HashFunctions hashKey hashCmp) :
    FaithfulSet hashKey hashCmp hash stored where
  distinct := hashItems_pairwise h.inv hf
  place i b hb := by
    obtain ⟨hkey,hslot⟩ := h.inv.place i b hb
    refine ⟨?_,hkey,hslot⟩
    rw [←hslot]
    exact slot_lt h.inv.size_ne b.key
  lookup x := by
    rw [hashLookup,hashGet,←h.findBacket hf x]
    cases HashOperations.findBacket hashKey hashCmp hash x <;> rfl
  count := by rw [length_hashItems,h.inv.count]
  size := h.inv.size

/-- A new table is empty, and its size is a power of 2. -/
theorem hashCreateSize_tracks {size : BitVec 32} (hsize : size≠0)
    (hcreate : hashCreateSize size=some hash) : Tracks hashKey hashCmp hash fun _ => none := by
  rw [hashCreateSize] at hcreate
  split at hcreate
  · next hand =>
    cases hcreate
    have hnat : size.toNat≠0 := fun h => hsize (BitVec.eq_of_toNat_eq h)
    have hpred : (size-1).toNat=size.toNat-1 := by
      have hone : (1 : BitVec 32).toNat=1 := rfl
      rw [BitVec.toNat_sub,hone]
      omega
    have hz : size.toNat &&& (size.toNat-1)=0 := by
      rw [←hpred,←BitVec.toNat_and,hand]
      rfl
    refine ⟨⟨⟨nofun,fun _ => List.Pairwise.nil⟩,?_,?_⟩,?_⟩
    · exact (Nat.and_sub_one_eq_zero_iff_isPowerOfTwo hnat).mp hz
    · simp [total]
    refine holds_empty.congr fun y => iff_of_false ?_ not_false
    rintro ⟨_,b,hb,-⟩
    exact not_mem_nil hb
  · cases hcreate

/-- After every sequence of calls that expands no largest table, the table is the items inserted and
not released. -/
theorem hashRun_faithful (hf : HashFunctions hashKey hashCmp) {size : BitVec 32} {hash0 : Hash α}
    (hsize : size≠0) (hcreate : hashCreateSize size=some hash0) {ops : List (HashOp α)}
    (hsafe : LegalRun (hashStep hashKey hashCmp) (SafeCall hashKey hashCmp) hash0 ops) :
    ∃ hash, run (hashStep hashKey hashCmp) hash0 ops=some hash ∧
      FaithfulSet hashKey hashCmp hash (storedAfter hashCmp ops) := by
  obtain ⟨hash,hrun,htracks⟩ := run_refines (hashStep_tracks hf) ops hash0 (fun _ => none)
    (hashCreateSize_tracks hsize hcreate) hsafe
  exact ⟨hash,hrun,htracks.faithfulSet hf⟩

/-- Numbers are alike when they differ in the last digit only. -/
def sampleCmp (x y : ℕ) : Bool := x/10 == y/10

def sampleKey (x : ℕ) : BitVec 32 := BitVec.ofNat 32 (x/10)

theorem sampleFunctions : HashFunctions sampleKey sampleCmp where
  equivalent :=
    { refl := fun x => beq_self_eq_true (x/10)
      symm := fun h => beq_iff_eq.mpr (beq_iff_eq.mp h).symm
      trans := fun h h' => beq_iff_eq.mpr ((beq_iff_eq.mp h).trans (beq_iff_eq.mp h')) }
  key x y h := by rw [sampleKey,sampleKey,beq_iff_eq.mp h]

/-- Twelve insertions in one chain and a release. -/
def sampleOps : List (HashOp ℕ) := (List.range 12).map (fun n => .get (10*n) (some some)) ++
    [.get 15 (some some),.lookup 27,.release 31,.get 34 none]

theorem hashRun_faithful_sampleOps :
    ∃ hash, run (hashStep sampleKey sampleCmp) ⟨fun _ => [],1,false,0⟩ sampleOps=some hash ∧
      FaithfulSet sampleKey sampleCmp hash (storedAfter sampleCmp sampleOps) := by
  have hcreate : hashCreateSize (1 : BitVec 32)=some (⟨fun _ => [],1,false,0⟩ : Hash ℕ) := rfl
  exact hashRun_faithful sampleFunctions (by decide) hcreate (by decide +kernel)

theorem relink_zero {chain : List (Backet α)} (hne : chain≠[])
    (newIndex : ℕ → List (Backet α)) : relink 0 chain newIndex=none := by
  cases chain with
  | nil => exact absurd rfl hne
  | cons hb rest =>
    rw [relink]
    exact if_neg (Nat.not_lt_zero _)

theorem relinkChains_zero {index : ℕ → List (Backet α)} {i n : ℕ} (hi : i<n)
    (hne : index i≠[]) : relinkChains 0 index n=none := by
  induction n with
  | zero => exact absurd hi (Nat.not_lt_zero i)
  | succ n ih =>
    rw [relinkChains]
    rcases Nat.lt_succ_iff_lt_or_eq.mp hi with hlt|rfl
    · rw [ih hlt]
      rfl
    cases relinkChains 0 index i with
    | none => rfl
    | some newIndex => exact relink_zero hne newIndex

theorem hashExpand_largestSize (hsize : hash.size=largestSize) {i : ℕ}
    (hi : i<hash.size.toNat) (hne : hash.index i≠[]) : hashExpand hash=none := by
  have hz : hash.size*2=0 := by
    rw [hsize]
    rfl
  rw [hashExpand,hz,relinkChains_zero hi hne]
  rfl

section

/-- Every number has the same key. -/
def collidingKey (_ : ℕ) : BitVec 32 := 0

/-- Numbers are alike when they are equal. -/
def collidingCmp (x y : ℕ) : Bool := x == y

def collidingOps (n : ℕ) : List (HashOp ℕ) := (List.range n).map fun x => .get x (some some)

def collidingChain (n : ℕ) : List (Backet ℕ) := (List.range n).reverse.map fun x => ⟨0,x⟩

def collidingHash (n : ℕ) : Hash ℕ where
  index := update (fun _ => []) 0 (collidingChain n)
  size := largestSize
  noExpand := false
  count := n

variable (n : ℕ)

theorem slot_colliding : slot largestSize (collidingKey n)=0 := by
  have hand : (0 : BitVec 32) &&& (largestSize-1)=0 := by decide
  rw [slot,collidingKey,hand]
  rfl

theorem collidingHash_chain :
    (collidingHash n).index (slot (collidingHash n).size (collidingKey n))=collidingChain n := by
  have hsize : (collidingHash n).size=largestSize := rfl
  rw [hsize,slot_colliding,collidingHash]
  dsimp only
  rw [update_self]

theorem findBacket_collidingHash :
    findBacket collidingKey collidingCmp (collidingHash n) n=none := by
  rw [findBacket,collidingHash_chain,find?_eq_none]
  intro b hb hmatch
  obtain ⟨x,hx,rfl⟩ := mem_map.mp hb
  have hlt := mem_range.mp (mem_reverse.mp hx)
  have heq : x=n := beq_iff_eq.mp (Bool.and_eq_true_iff.mp hmatch).2
  exact hlt.ne heq

theorem expanding_collidingHash :
    expanding collidingKey (collidingHash n) n=decide (n > hashThreshold) := by
  rw [expanding,collidingHash_chain,collidingChain,length_map,length_reverse,length_range]
  exact Bool.and_true _

theorem hashStep_collidingHash {n : ℕ} (hn : n≤hashThreshold) :
    hashStep collidingKey collidingCmp (collidingHash n) (.get n (some some)) =
      some (collidingHash (n+1)) := by
  rw [hashStep,hashGet,findBacket_collidingHash]
  dsimp only [bind_some]
  rw [expanding_collidingHash,decide_eq_false hn.not_gt,if_neg Bool.false_ne_true,map_some,map_some]
  have hchain : collidingChain (n+1)=⟨0,n⟩::collidingChain n := by
    rw [collidingChain,range_succ,reverse_append,map_append]
    rfl
  rw [insertBacket,collidingHash_chain]
  rw [collidingHash,collidingHash,hchain]
  rw [slot_colliding,update_idem]
  rfl

theorem run_collidingOps {n : ℕ} (hn : n≤hashThreshold+1) :
    run (hashStep collidingKey collidingCmp) (collidingHash 0) (collidingOps n) =
      some (collidingHash n) := by
  induction n with
  | zero => rfl
  | succ n ih =>
    have hops : collidingOps (n+1)=collidingOps n++[.get n (some some)] := by
      rw [collidingOps,range_succ,map_append]
      rfl
    rw [hops,run_append,ih (Nat.le_of_succ_le hn),bind_some,
      run_cons_of_step (hashStep_collidingHash (Nat.le_of_succ_le_succ hn))]
    rfl

/-- The twelfth item with one key expands a table of the largest size. -/
theorem hashGet_overflows : ∃ hash0 : Hash ℕ, hashCreateSize largestSize=some hash0 ∧
      LegalRun (hashStep collidingKey collidingCmp) (fun _ => HashLegal collidingCmp) hash0
        (collidingOps 12) ∧
      ¬ ∃ hash, run (hashStep collidingKey collidingCmp) hash0 (collidingOps 12)=some hash ∧
        FaithfulSet collidingKey collidingCmp hash
          (storedAfter collidingCmp (collidingOps 12)) := by
  have hcreate : hashCreateSize largestSize=some (collidingHash 0) := by
    rw [collidingHash,show collidingChain 0=[] from rfl,update_eq_self]
    rfl
  refine ⟨collidingHash 0,hcreate,legalRun_of_forall (fun op hop _ => ?_) _,?_⟩
  · obtain ⟨x,-,rfl⟩ := mem_map.mp hop
    intro f hf newdata hnew
    cases hf
    cases hnew
    exact beq_self_eq_true x
  rintro ⟨hash,hrun,-⟩
  have hops : collidingOps 12=collidingOps 11++[.get 11 (some some)] := rfl
  have hexpand : hashExpand (collidingHash 11)=none :=
    hashExpand_largestSize rfl (i := 0) (by decide) (by decide)
  rw [hops,run_append,run_collidingOps (by decide),bind_some,run,hashStep,hashGet,
    findBacket_collidingHash] at hrun
  rw [expanding_collidingHash,decide_eq_true (by decide),if_pos rfl,hexpand] at hrun
  cases hrun

end

end RoutePlatform.HashRuns
