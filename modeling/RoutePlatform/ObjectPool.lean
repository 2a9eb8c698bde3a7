import RoutePlatform.HashRuns
import RoutePlatform.PointerStore

/-!
# Pools of counted objects

A hash table of pointers finds the one copy of equal objects, and a counter in the object says how
often it is referred to. An object that was not yet interned has a zero counter. The contents of
an object do not change while it is in the table.
-/

namespace RoutePlatform.ObjectPool

open PointerStore HashOperations HashInvariant HashRuns Option

universe u

variable {β : Type u} {table : Hash ℕ}

structure Object (β : Type u) where
  content : β
  refcnt : ℕ

/-- Objects, and the table of those that are interned. -/
structure Pool (β : Type u) where
  objects : Store (Object β)
  table : Hash ℕ

/-- The counter of an object, and zero for what is none. -/
def counter (objects : Store (Object β)) (p : ℕ) : ℕ :=
  match objects.read p with
  | some o => o.refcnt
  | none => 0

def contents (objects : Store (Object β)) (p : ℕ) : Option β := (objects.read p).map Object.content

def setCounter (objects : Store (Object β)) (p n : ℕ) : Store (Object β) :=
  objects.modify p fun o => {o with refcnt := n}

section

variable (key : β→BitVec 32) (cmp : β→β→Bool)

/-- The key function of the table, at a pointer. -/
def keyAt (objects : Store (Object β)) (p : ℕ) : BitVec 32 :=
  match contents objects p with
  | some x => key x
  | none => 0

/-- The comparison of the table, at two pointers. -/
def cmpAt (objects : Store (Object β)) (p q : ℕ) : Bool :=
  match contents objects p, contents objects q with
  | some x, some y => cmp x y
  | _, _ => p == q

/-- Interning with `hash_alloc_intern`: the argument becomes the copy, or it is
freed. -/
def internOwn (pool : Pool β) (p : ℕ) : Option (Pool β × ℕ) :=
  match hashGet (keyAt key pool.objects) (cmpAt cmp pool.objects) pool.table p (some some) with
  | some (table,some find) =>
    let objects := if find=p then pool.objects else pool.objects.free p
    some (⟨setCounter objects find (counter objects find+1),table⟩,find)
  | _ => none

/-- Interning where the allocation copies the argument, if needed. -/
def internCopy (pool : Pool β) (p : ℕ) : Option (Pool β × ℕ) :=
  match pool.objects.read p with
  | none => none
  | some o =>
    let copied := pool.objects.alloc {o with refcnt := 0}
    let new := pool.objects.next
    match hashGet (keyAt key copied) (cmpAt cmp copied) pool.table p (some fun _ => some new) with
    | some (table,some find) =>
      let objects := if find=new then copied else pool.objects
      some (⟨setCounter objects find (counter objects find+1),table⟩,find)
    | _ => none

/-- `bgp_attr_intern` interns the object of a pointer, or counts it. -/
def reference (intern : Pool β→ℕ→Option (Pool β × ℕ)) (pool : Pool β) (p : ℕ) :
    Option (Pool β × ℕ) :=
  match pool.objects.read p with
  | none => none
  | some o =>
    if o.refcnt=0 then intern pool p
    else some ({pool with objects := setCounter pool.objects p (o.refcnt+1)},p)

/-- An object leaves the table and is freed. Some functions assert that the
table knew it. -/
def drop (asserts : Bool) (pool : Pool β) (p : ℕ) : Option (Pool β) :=
  let (table,ret) := hashRelease (keyAt key pool.objects) (cmpAt cmp pool.objects) pool.table p
  if asserts && ret.isNone then none else some ⟨pool.objects.free p,table⟩

def unintern (asserts : Bool) (pool : Pool β) (p : ℕ) : Option (Pool β) :=
  match pool.objects.read p with
  | none => none
  | some o =>
    let refcnt := o.refcnt-1
    let pool := {pool with objects := setCounter pool.objects p refcnt}
    if refcnt=0 then drop key cmp asserts pool p else some pool

/-- The objects with a counter are those in the table, and the counters are
these. -/
structure Counted (pool : Pool β) (refs : ℕ→ℕ) : Prop where
  inv : HashInv (keyAt key pool.objects) (cmpAt cmp pool.objects) pool.table
  stored : ∀ p, Stored pool.table p ↔ counter pool.objects p≠0
  count : ∀ p, counter pool.objects p=refs p

end

def addRef (refs : ℕ → ℕ) (p : ℕ) : ℕ → ℕ := fun q => if q=p then refs q+1 else refs q

def dropRef (refs : ℕ → ℕ) (p : ℕ) : ℕ → ℕ := fun q => if q=p then refs q-1 else refs q

/-- Objects that are referred to afterwards keep their contents, if they had
any. -/
def Keeps (objects objects' : Store (Object β)) : Prop :=
  ∀ p, counter objects p≠0 → counter objects' p≠0 → contents objects' p=contents objects p

section

variable (objects : Store (Object β)) (p q n : ℕ) {o : Object β}

theorem contents_setCounter : contents (setCounter objects p n) q=contents objects q := by
  rw [contents,setCounter,Store.read_modify]
  by_cases hq : q=p
  · rw [if_pos hq,map_map,hq]
    rfl
  rw [if_neg hq]
  rfl

theorem counter_setCounter (h : objects.read p=some o) :
    counter (setCounter objects p n) q=if q=p then n else counter objects q := by
  rw [counter,setCounter,Store.read_modify]
  by_cases hq : q=p
  · rw [if_pos hq,if_pos hq,h]
    rfl
  rw [if_neg hq,if_neg hq]
  rfl

theorem keyAt_setCounter (key : β→BitVec 32) :
    keyAt key (setCounter objects p n)=keyAt key objects := by
  funext q
  rw [keyAt,keyAt,contents_setCounter]

theorem cmpAt_setCounter (cmp : β→β→Bool) :
    cmpAt cmp (setCounter objects p n)=cmpAt cmp objects := by
  funext q r
  rw [cmpAt,cmpAt,contents_setCounter,contents_setCounter]

theorem contents_free : contents (objects.free p) q=if q=p then none else contents objects q := by
  rw [contents,Store.read_free]
  split <;> rfl

theorem counter_free : counter (objects.free p) q=if q=p then 0 else counter objects q := by
  rw [counter,Store.read_free]
  by_cases hq : q=p
  · rw [if_pos hq,if_pos hq]
  rw [if_neg hq,if_neg hq]
  rfl

theorem contents_alloc (o : Object β) :
    contents (objects.alloc o) q=if q=objects.next then some o.content else contents objects q := by
  rw [contents,Store.read_alloc]
  split <;> rfl

theorem counter_alloc (o : Object β) :
    counter (objects.alloc o) q=if q=objects.next then o.refcnt else counter objects q := by
  rw [counter,Store.read_alloc]
  by_cases hq : q=objects.next
  · rw [if_pos hq,if_pos hq]
  rw [if_neg hq,if_neg hq]
  rfl

variable {objects p q n}

theorem read_of_counter (h : counter objects p≠0) :
    ∃ o, objects.read p=some o ∧ o.refcnt=counter objects p := by
  rw [counter] at h ⊢
  cases hread : objects.read p with
  | none =>
    rw [hread] at h
    exact absurd rfl h
  | some o => exact ⟨o,rfl,rfl⟩

theorem contents_of_read (h : objects.read p=some o) : contents objects p=some o.content := by
  rw [contents,h,map_some]

theorem counter_of_read (h : objects.read p=some o) : counter objects p=o.refcnt := by
  rw [counter,h]

end

section

variable {key : β→BitVec 32} {cmp : β→β→Bool}

/-- The functions of a table see equal contents. -/
theorem hashFunctions_at (hf : HashFunctions key cmp) (objects : Store (Object β)) :
    HashFunctions (keyAt key objects) (cmpAt cmp objects) where
  equivalent :=
    { refl := fun p => by
        unfold cmpAt
        cases contents objects p with
        | none => exact beq_self_eq_true p
        | some x => exact hf.equivalent.refl x
      symm := fun {p q} h => by
        unfold cmpAt at h ⊢
        cases hp : contents objects p <;> cases hq : contents objects q <;> rw [hp,hq] at h
        · exact beq_iff_eq.mpr (beq_iff_eq.mp h).symm
        · exact beq_iff_eq.mpr (beq_iff_eq.mp h).symm
        · exact beq_iff_eq.mpr (beq_iff_eq.mp h).symm
        · exact hf.equivalent.symm h
      trans := fun {p q r} h h' => by
        unfold cmpAt at h h' ⊢
        cases hp : contents objects p with
        | none =>
          rw [hp] at h
          have hpq := beq_iff_eq.mp h
          rw [←hpq,hp] at h'
          exact h'
        | some x =>
          cases hq : contents objects q with
          | none =>
            rw [hp,hq] at h
            have hpq := beq_iff_eq.mp h
            rw [hpq,hq] at hp
            cases hp
          | some y =>
            cases hr : contents objects r with
            | none =>
              rw [hq,hr] at h'
              have hqr := beq_iff_eq.mp h'
              rw [hqr,hr] at hq
              cases hq
            | some z =>
              rw [hp,hq] at h
              rw [hq,hr] at h'
              exact hf.equivalent.trans h h' }
  key p q h := by
    unfold cmpAt at h
    unfold keyAt
    cases hp : contents objects p <;> cases hq : contents objects q <;> rw [hp,hq] at h
    · have hpq := beq_iff_eq.mp h
      rw [hpq,hq] at hp
      cases hp
    · have hpq := beq_iff_eq.mp h
      rw [hpq,hq] at hp
      cases hp
    · exact hf.key _ _ h

theorem HashInv.congr {α : Type u} {hashKey hashKey' : α→BitVec 32} {hashCmp hashCmp' : α→α→Bool}
    {hash : Hash α} (h : HashInv hashKey hashCmp hash)
    (hkey : ∀ x, Stored hash x → hashKey' x=hashKey x)
    (hcmp : ∀ x y, Stored hash x → Stored hash y → hashCmp' x y=hashCmp x y) :
    HashInv hashKey' hashCmp' hash where
  place i b hb := by
    obtain ⟨hbk,hslot⟩ := h.place i b hb
    exact ⟨hbk.trans (hkey b.data ⟨i,b,hb,rfl⟩).symm,hslot⟩
  distinct i := by
    refine (h.distinct i).imp_of_mem fun {a b} ha hb hab => ?_
    rw [hcmp a.data b.data ⟨i,a,ha,rfl⟩ ⟨i,b,hb,rfl⟩]
    exact hab
  size := h.size
  count := h.count

section

variable {α : Type u} {hashKey : α→BitVec 32} {hashCmp : α→α→Bool} {hash : Hash α}

variable (h : HashInv hashKey hashCmp hash)
include h

variable (hf : HashFunctions hashKey hashCmp)
include hf

/-- The answer of `hash_get`, when it does not fail: an item of the class, or
the new item. -/
theorem hashGet_cases {hash' : Hash α} {data newdata : α} {f : α→Option α} {find : Option α}
    (hget : hashGet hashKey hashCmp hash data (some f)=some (hash',find))
    (hnew : f data=some newdata) (hlike : hashCmp newdata data=true) :
    (∃ x, find=some x ∧ Stored hash x ∧ hashCmp x data=true ∧ hash'=hash) ∨
      (find=some newdata ∧ (∀ x, Stored hash x → hashCmp x data=false) ∧
        HashInv hashKey hashCmp hash' ∧ ∀ x, Stored hash' x ↔ x=newdata ∨ Stored hash x) := by
  rw [hashGet] at hget
  cases hfind : findBacket hashKey hashCmp hash data with
  | some b =>
    rw [hfind] at hget
    cases hget
    obtain ⟨hsto,hb⟩ := (findBacket_eq_some_iff h hf data b.data).mp (by rw [hfind,map_some])
    exact .inl ⟨b.data,rfl,hsto,hb,rfl⟩
  | none =>
    have hfree := (findBacket_eq_none_iff h hf data).mp hfind
    rw [hfind] at hget
    dsimp only [bind_some] at hget
    rw [hnew] at hget
    obtain ⟨hash1,hexpand,heq⟩ := map_eq_some_iff.mp hget
    cases heq
    obtain ⟨hinv,hsto⟩ : HashInv hashKey hashCmp hash1 ∧ ∀ x, Stored hash1 x ↔ Stored hash x := by
      by_cases hexp : expanding hashKey hash data=true
      · rw [if_pos hexp] at hexpand
        by_cases hsize : hash.size=largestSize
        · rw [expanding,Bool.and_eq_true,decide_eq_true_eq] at hexp
          have hne : hash.index (slot hash.size (hashKey data))≠[] :=
            List.ne_nil_of_length_pos (by omega)
          rw [hashExpand_largestSize hsize (slot_lt h.size_ne _) hne] at hexpand
          cases hexpand
        obtain ⟨hash2,hexpand',hinv,hsto⟩ := hashExpand_spec h hf hsize
        cases hexpand.symm.trans hexpand'
        exact ⟨hinv,hsto⟩
      rw [if_neg hexp] at hexpand
      cases hexpand
      exact ⟨h,fun _ => Iff.rfl⟩
    obtain ⟨hinv',hsto'⟩ := insertBacket_spec hinv hf hlike fun x hx =>
      hfree x ((hsto x).mp hx)
    exact .inr ⟨rfl,hfree,hinv',fun x => by rw [hsto' x,hsto x]⟩

theorem exists_hashGet (hsize : hash.size≠largestSize) {data newdata : α} (f : α → Option α)
    (hnew : f data=some newdata) :
    ∃ hash' find, hashGet hashKey hashCmp hash data (some f)=some (hash',some find) := by
  rw [hashGet]
  cases findBacket hashKey hashCmp hash data with
  | some b => exact ⟨hash,b.data,rfl⟩
  | none =>
    dsimp only [bind_some]
    rw [hnew]
    obtain ⟨hash1,hexpand,-⟩ := hashExpand_spec h hf hsize
    by_cases hexp : expanding hashKey hash data=true
    · exact ⟨_,newdata,by rw [if_pos hexp,hexpand]; rfl⟩
    · exact ⟨_,newdata,by rw [if_neg hexp]; rfl⟩

end

end

variable {objects : Store (Object β)}

section

variable {key : β→BitVec 32} {cmp : β→β→Bool} {pool pool' : Pool β} {refs : ℕ→ℕ} {p : ℕ}
  {o : Object β}

theorem Counted.eq_of_like (h : Counted key cmp pool refs) (hf : HashFunctions key cmp) {q : ℕ}
    {x y : β} (hp : counter pool.objects p≠0) (hq : counter pool.objects q≠0)
    (hx : contents pool.objects p=some x) (hy : contents pool.objects q=some y)
    (hlike : cmp x y=true) : p=q := by
  obtain ⟨i,a,ha,rfl⟩ := (h.stored p).mpr hp
  obtain ⟨j,b,hb,rfl⟩ := (h.stored q).mpr hq
  have hab : cmpAt cmp pool.objects a.data b.data=true := by
    rw [cmpAt,hx,hy]
    exact hlike
  rw [(h.inv.eq_of_like (hashFunctions_at hf _) ha hb hab).2]

/-- Another reference to an object in the table. -/
theorem Counted.addRef (h : Counted key cmp pool refs) (hp : counter pool.objects p≠0) :
    Counted key cmp {pool with objects := setCounter pool.objects p (counter pool.objects p+1)}
      (addRef refs p) := by
  obtain ⟨o,ho,-⟩ := read_of_counter hp
  have hcnt := counter_setCounter pool.objects p
  refine ⟨?_,fun q => ?_,fun q => ?_⟩
  · rw [keyAt_setCounter,cmpAt_setCounter]
    exact h.inv
  · rw [h.stored q,hcnt q _ ho]
    split
    · rename_i hq
      rw [hq]
      exact iff_of_true hp (Nat.succ_ne_zero _)
    · rfl
  rw [hcnt q _ ho,ObjectPool.addRef]
  split
  · rename_i hq
    rw [h.count p,hq]
  · exact h.count q

section

variable (h : Counted key cmp pool refs)
include h

theorem Counted.congr (hctr : ∀ q, counter objects q=counter pool.objects q)
    (hcon : ∀ q, counter pool.objects q≠0 → contents objects q=contents pool.objects q) :
    Counted key cmp {pool with objects := objects} refs := by
  refine ⟨HashInv.congr h.inv (fun q hq => ?_) fun q r hq hr => ?_,fun q => ?_,fun q => ?_⟩
  · rw [keyAt,keyAt,hcon q ((h.stored q).mp hq)]
  · rw [cmpAt,cmpAt,hcon q ((h.stored q).mp hq),hcon r ((h.stored r).mp hr)]
  · rw [h.stored q,hctr q]
  · rw [hctr q,h.count q]

theorem Counted.alloc (ho : o.refcnt=0) :
    Counted key cmp {pool with objects := pool.objects.alloc o} refs := by
  have hnext : counter pool.objects pool.objects.next=0 := by rw [counter,Store.read_next]
  refine h.congr (fun q => ?_) fun q hq => ?_
  · rw [counter_alloc]
    split
    · rename_i hq
      rw [ho,hq,hnext]
    · rfl
  have hqn : q≠pool.objects.next := fun hbad => hq (hbad ▸ hnext)
  rw [contents_alloc,if_neg hqn]

theorem Counted.free (hp : counter pool.objects p=0) :
    Counted key cmp {pool with objects := pool.objects.free p} refs := by
  refine h.congr (fun q => ?_) fun q hq => ?_
  · rw [counter_free]
    split
    · rename_i hq
      rw [hq,hp]
    · rfl
  have hqp : q≠p := fun hbad => hq (hbad ▸ hp)
  rw [contents_free,if_neg hqp]

theorem Counted.insert (ho : pool.objects.read p=some o) (hfresh : o.refcnt=0)
    (hinv : HashInv (keyAt key pool.objects) (cmpAt cmp pool.objects) table)
    (hsto : ∀ q, Stored table q ↔ q=p ∨ Stored pool.table q) :
    Counted key cmp ⟨setCounter pool.objects p (counter pool.objects p+1),table⟩
      (ObjectPool.addRef refs p) := by
  have hcnt := counter_setCounter pool.objects p
  have hz := (counter_of_read ho).trans hfresh
  refine ⟨?_,fun q => ?_,fun q => ?_⟩
  · rw [keyAt_setCounter,cmpAt_setCounter]
    exact hinv
  · rw [hsto q,h.stored q,hcnt q _ ho]
    split
    · rename_i hq
      exact iff_of_true (.inl hq) (Nat.succ_ne_zero _)
    rename_i hq
    rw [or_iff_right hq]
  rw [hcnt q _ ho,ObjectPool.addRef]
  split
  · rename_i hq
    rw [h.count p,hq]
  · exact h.count q

end

/-- What interning gives: the copy is counted, and it is like the argument. -/
structure Interned (key : β→BitVec 32) (cmp : β→β→Bool) (pool : Pool β) (refs : ℕ→ℕ)
    (x : β) (pool' : Pool β) (find : ℕ) : Prop where
  counted : Counted key cmp pool' (ObjectPool.addRef refs find)
  keeps : Keeps pool.objects pool'.objects
  like : ∃ y, contents pool'.objects find=some y ∧ cmp y x=true

section

variable (hf : HashFunctions key cmp) (h : Counted key cmp pool refs) {o : Object β} {find : ℕ}
  (ho : pool.objects.read p=some o)
include hf h ho

theorem internOwn_spec (hfresh : o.refcnt=0) (hres : internOwn key cmp pool p=some (pool',find)) :
    Interned key cmp pool refs o.content pool' find := by
  have hf' := hashFunctions_at hf pool.objects
  have hz := (counter_of_read ho).trans hfresh
  rw [internOwn] at hres
  split at hres
  · rename_i table found hget
    obtain ⟨x,hx,hsto,hlike,htable⟩|⟨hx,-,hinv,hsto⟩ :=
      hashGet_cases h.inv hf' hget rfl (hf'.equivalent.refl p)
    · have hne := (h.stored x).mp hsto
      have hxp : x≠p := fun hbad => hne (hbad ▸ hz)
      have hfnd := some.inj hx
      rw [hfnd,if_neg hxp,htable] at hres
      cases hres
      have hctr : counter (pool.objects.free p) find≠0 := by
        rw [counter_free,if_neg hxp]
        exact hne
      refine ⟨(h.free hz).addRef hctr,fun q hq _ => ?_,?_⟩
      · have hqp : q≠p := fun hbad => hq (hbad ▸ hz)
        rw [contents_setCounter,contents_free,if_neg hqp]
      obtain ⟨ox,hox,-⟩ := read_of_counter hne
      refine ⟨ox.content,?_,?_⟩
      · rw [contents_setCounter,contents_free,if_neg hxp,contents_of_read hox]
      rw [cmpAt,contents_of_read hox,contents_of_read ho] at hlike
      exact hlike
    · have hfnd := some.inj hx
      rw [hfnd,if_pos rfl] at hres
      cases hres
      refine ⟨h.insert ho hfresh hinv hsto,fun q _ _ => contents_setCounter _ _ _ _,?_⟩
      exact ⟨o.content,by rw [contents_setCounter,contents_of_read ho],hf.equivalent.refl o.content⟩
  · cases hres

theorem internCopy_spec (hres : internCopy key cmp pool p=some (pool',find)) :
    Interned key cmp pool refs o.content pool' find := by
  have hnext : counter pool.objects pool.objects.next=0 := by rw [counter,Store.read_next]
  have hpn := (Store.lt_next ho).ne
  rw [internCopy,ho] at hres
  dsimp only at hres
  generalize hcopied : pool.objects.alloc {o with refcnt := 0}=copied at hres
  have hctd : Counted key cmp {pool with objects := copied} refs := by
    rw [←hcopied]
    exact h.alloc rfl
  have hf' := hashFunctions_at hf copied
  have hnew : copied.read pool.objects.next=some {o with refcnt := 0} := by
    rw [←hcopied,Store.read_alloc,if_pos rfl]
  have hcon : ∀ q, q≠pool.objects.next → contents copied q=contents pool.objects q := by
    intro q hq
    rw [←hcopied,contents_alloc,if_neg hq]
  have hlike : cmpAt cmp copied pool.objects.next p=true := by
    rw [cmpAt,contents_of_read hnew,hcon p hpn,contents_of_read ho]
    exact hf.equivalent.refl o.content
  split at hres
  · rename_i table found hget
    obtain ⟨x,hx,hsto,hlike,htable⟩|⟨hx,-,hinv,hsto⟩ :=
      hashGet_cases hctd.inv hf' hget rfl hlike
    · have hne := (h.stored x).mp hsto
      have hxn : x≠pool.objects.next := fun hbad => hne (hbad ▸ hnext)
      have hfnd := some.inj hx
      rw [hfnd,if_neg hxn,htable] at hres
      cases hres
      refine ⟨h.addRef hne,fun q _ _ => contents_setCounter _ _ _ _,?_⟩
      obtain ⟨ox,hox,-⟩ := read_of_counter hne
      refine ⟨ox.content,by rw [contents_setCounter,contents_of_read hox],?_⟩
      rw [cmpAt,hcon find hxn,hcon p hpn,contents_of_read hox,contents_of_read ho]
        at hlike
      exact hlike
    · have hfnd := some.inj hx
      rw [hfnd,if_pos rfl] at hres
      cases hres
      refine ⟨hctd.insert hnew rfl hinv hsto,fun q hq _ => ?_,?_⟩
      · have hqn : q≠pool.objects.next := fun hbad => hq (hbad ▸ hnext)
        rw [contents_setCounter,hcon q hqn]
      refine ⟨o.content,?_,hf.equivalent.refl o.content⟩
      rw [contents_setCounter,contents_of_read hnew]
  · cases hres

end

/-- An interning function gives the copy, and it fails on a table of the largest
size only. -/
structure Interns (key : β→BitVec 32) (cmp : β→β→Bool)
    (intern : Pool β→ℕ→Option (Pool β × ℕ)) : Prop where
  /-- The copy is counted. -/
  spec : ∀ {pool pool' : Pool β} {refs : ℕ → ℕ} {p find : ℕ} {o : Object β},
    Counted key cmp pool refs → pool.objects.read p=some o → o.refcnt=0 →
    intern pool p=some (pool',find) → Interned key cmp pool refs o.content pool' find
  total : ∀ {pool : Pool β} {refs : ℕ → ℕ} {p : ℕ} {o : Object β},
    Counted key cmp pool refs → pool.table.size≠largestSize → pool.objects.read p=some o →
    ∃ pool' find, intern pool p=some (pool',find)

theorem interns_internOwn (hf : HashFunctions key cmp) : Interns key cmp (internOwn key cmp) where
  spec h ho hfresh hres := internOwn_spec hf h ho hfresh hres
  total {pool _ p _} h hsize _ := by
    obtain ⟨table,find,hget⟩ := exists_hashGet h.inv (hashFunctions_at hf _) hsize some
      (show some p=some p from rfl)
    exact ⟨_,find,by rw [internOwn,hget]⟩

theorem interns_internCopy (hf : HashFunctions key cmp) : Interns key cmp (internCopy key cmp) where
  spec h ho _ hres := internCopy_spec hf h ho hres
  total {pool _ p o} h hsize ho := by
    have hcopied := h.alloc (o := {o with refcnt := 0}) rfl
    obtain ⟨table,find,hget⟩ : ∃ table find, hashGet _ _ pool.table p
        (some fun _ => some pool.objects.next)=some (table,some find) :=
      exists_hashGet hcopied.inv (hashFunctions_at hf _) hsize _ rfl
    exact ⟨_,find,by
      rw [internCopy,ho]
      dsimp only
      rw [hget]⟩

section

variable {intern : Pool β→ℕ→Option (Pool β × ℕ)} (hintern : Interns key cmp intern)
include hintern

theorem reference_spec (hf : HashFunctions key cmp)
    (h : Counted key cmp pool refs) {o : Object β} {find : ℕ} (ho : pool.objects.read p=some o)
    (hres : reference intern pool p=some (pool',find)) :
    Interned key cmp pool refs o.content pool' find ∧ (counter pool.objects p≠0 → find=p) := by
  rw [reference,ho] at hres
  dsimp only at hres
  split at hres
  · rename_i hfresh
    refine ⟨hintern.spec h ho hfresh hres,fun hne => ?_⟩
    rw [counter_of_read ho] at hne
    exact absurd hfresh hne
  rename_i hne
  cases hres
  rw [←counter_of_read ho] at hne ⊢
  refine ⟨⟨h.addRef hne,fun q _ _ => contents_setCounter _ _ _ _,o.content,?_,
    hf.equivalent.refl o.content⟩,fun _ => rfl⟩
  rw [contents_setCounter,contents_of_read ho]

theorem exists_reference (h : Counted key cmp pool refs)
    (hsize : pool.table.size≠largestSize) {o : Object β} (ho : pool.objects.read p=some o) :
    ∃ pool' find, reference intern pool p=some (pool',find) := by
  rw [reference,ho]
  dsimp only
  split
  · exact hintern.total h hsize ho
  · exact ⟨_,p,rfl⟩

end

/-- An object that is not referred to any longer leaves the table, which knew
it. -/
theorem drop_spec (hf : HashFunctions key cmp)
    (hinv : HashInv (keyAt key objects) (cmpAt cmp objects) table) (hp : Stored table p)
    (asserts : Bool) :
    ∃ table', drop key cmp asserts ⟨objects,table⟩ p=some ⟨objects.free p,table'⟩ ∧
      HashInv (keyAt key (objects.free p)) (cmpAt cmp (objects.free p)) table' ∧
      ∀ q, Stored table' q ↔ Stored table q ∧ q≠p := by
  have hf' := hashFunctions_at hf objects
  obtain ⟨hinv',hsto'⟩ := hashRelease_spec hinv hf' p
  have hret : (hashRelease (keyAt key objects) (cmpAt cmp objects) table p).2.isNone=false := by
    have hfind := (findBacket_eq_some_iff hinv hf' p p).mpr ⟨hp,hf'.equivalent.refl p⟩
    obtain ⟨b,hb,-⟩ := map_eq_some_iff.mp hfind
    rw [hashRelease,hb]
    rfl
  have hsto : ∀ q, Stored (hashRelease (keyAt key objects) (cmpAt cmp objects) table p).1 q ↔
      Stored table q ∧ q≠p := by
    intro q
    rw [hsto' q]
    refine and_congr_right fun hq => ?_
    constructor
    · rintro hlike rfl
      rw [hf'.equivalent.refl q] at hlike
      cases hlike
    · intro hne
      by_contra hlike
      obtain ⟨i,a,ha,rfl⟩ := hq
      obtain ⟨j,b,hb,rfl⟩ := hp
      exact hne (congrArg Backet.data
        (hinv.eq_of_like hf' ha hb (Bool.eq_true_of_not_eq_false hlike)).2)
  refine ⟨_,?_,HashInv.congr hinv' (fun q hq => ?_) fun q r hq hr => ?_,hsto⟩
  · rw [drop]
    dsimp only
    rw [hret,Bool.and_false]
    rfl
  · rw [keyAt,keyAt,contents_free,if_neg ((hsto q).mp hq).2]
  rw [cmpAt,cmpAt,contents_free,contents_free,if_neg ((hsto q).mp hq).2,
    if_neg ((hsto r).mp hr).2]

/-- A reference that is held can be given up. -/
theorem unintern_spec (hf : HashFunctions key cmp) (h : Counted key cmp pool refs)
    (hp : refs p≠0) (asserts : Bool) :
    ∃ pool', unintern key cmp asserts pool p=some pool' ∧
      Counted key cmp pool' (dropRef refs p) ∧ Keeps pool.objects pool'.objects := by
  rw [←h.count p] at hp
  obtain ⟨o,ho,href⟩ := read_of_counter hp
  have hcnt := counter_setCounter pool.objects p
  rw [unintern,ho]
  dsimp only
  rw [href]
  split
  · rename_i hz
    have hinv : HashInv (keyAt key (setCounter pool.objects p 0))
        (cmpAt cmp (setCounter pool.objects p 0)) pool.table := by
      rw [keyAt_setCounter,cmpAt_setCounter]
      exact h.inv
    obtain ⟨table,hdrop,hinv',hsto⟩ := drop_spec hf hinv ((h.stored p).mpr hp) asserts
    rw [hz]
    have hctr : ∀ q, counter ((setCounter pool.objects p 0).free p) q =
        if q=p then 0 else counter pool.objects q := by
      intro q
      rw [counter_free]
      split
      · rfl
      rename_i hq
      rw [hcnt q _ ho,if_neg hq]
    refine ⟨_,hdrop,⟨hinv',fun q => ?_,fun q => ?_⟩,fun q _ hq => ?_⟩
    · rw [hsto q,h.stored q,hctr q]
      split
      · rename_i hq
        exact iff_of_false (fun hbad => hbad.2 hq) fun hbad => hbad rfl
      rename_i hq
      rw [and_iff_left hq]
    · rw [hctr q,dropRef]
      split
      · rename_i hq
        rw [hq,←h.count p,hz]
      · exact h.count q
    rw [hctr q] at hq
    have hqp : q≠p := fun hbad => hq (if_pos hbad)
    rw [contents_free,if_neg hqp,contents_setCounter]
  · rename_i hne
    refine ⟨_,rfl,⟨?_,fun q => ?_,fun q => ?_⟩,fun q _ _ => contents_setCounter _ _ _ _⟩
    · rw [keyAt_setCounter,cmpAt_setCounter]
      exact h.inv
    · rw [h.stored q,hcnt q _ ho]
      split
      · rename_i hq
        rw [hq]
        exact iff_of_true hp hne
      · rfl
    rw [hcnt q _ ho,dropRef]
    split
    · rename_i hq
      rw [hq,←h.count p]
    · exact h.count q

end

end RoutePlatform.ObjectPool
