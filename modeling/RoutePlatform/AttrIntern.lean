import RoutePlatform.ObjectPool
import RoutePlatform.AttrHashing

/-!
# Interning path attributes

`bgp_attr_intern`, `bgp_attr_unintern` and `bgp_attr_unintern_sub` of `bgpd/bgp_attr.c`. A
reference to an attribute goes with one to each object that it points at. Callers make objects
without a counter, and hold references to interned ones, which are kept beside the heap.
-/

namespace RoutePlatform.AttrIntern

open PointerStore HashOperations ObjectPool AttrHashing Function

/-- The pools of all kinds of objects. -/
abbrev Pools := (k : Kind) → Pool (Content k)

/-- What pointers to objects point at. -/
def heap (pools : Pools) : Heap := fun k p => contents (pools k).objects p

/-- `aspath_intern` and its kind, which are called for objects without a counter only. -/
def subIntern : (k : Kind) → Pool (Content k)→ℕ→Option (Pool (Content k) × ℕ)
  | .cluster => internCopy (subKey .cluster) (subCmp .cluster)
  | .aspath => internOwn (subKey .aspath) (subCmp .aspath)
  | .community => internOwn (subKey .community) (subCmp .community)
  | .ecommunity => internOwn (subKey .ecommunity) (subCmp .ecommunity)
  | .transit => internOwn (subKey .transit) (subCmp .transit)

/-- Whether the table is asserted to know what is released. -/
def subAsserts : Kind→Bool
  | .aspath | .community | .ecommunity => true
  | .cluster | .transit => false

/-- `aspath_unintern` and the others. -/
def subUnintern (k : Kind) : Pool (Content k)→ℕ→Option (Pool (Content k)) :=
  unintern (subKey k) (subCmp k) (subAsserts k)

/-- The order in which an attribute's pointers are looked at. -/
def subOrder : List Kind := [.aspath,.community,.ecommunity,.cluster,.transit]

/-- The first part of `bgp_attr_intern`. -/
def internSubs : List Kind→Pools→Attr→Option (Pools × Attr)
  | [], pools, attr => some (pools,attr)
  | k::ks, pools, attr =>
    match attr.sub k with
    | none => internSubs ks pools attr
    | some p =>
      match reference (subIntern k) (pools k) p with
      | none => none
      | some (pool,find) => internSubs ks (update pools k pool) (attr.setSub k (some find))

/-- `ATTR_FLAG_BIT` of the flag that `bgp_attr_unintern_sub` clears. -/
def subFlag : Kind→BitVec 32
  | .aspath => 1 <<< 1
  | .community => 1 <<< 7
  | .ecommunity => 1 <<< 15
  | .cluster => 1 <<< 9
  | .transit => 0

/-- The flag of a pointer is cleared; those of the extra part only when there is
one. -/
def Attr.unsetFlag (attr : Attr) (k : Kind) : Attr :=
  match k with
  | .aspath | .community => {attr with flag := attr.flag &&& ~~~ subFlag k}
  | _ => if attr.extra.isSome then {attr with flag := attr.flag &&& ~~~ subFlag k} else attr

/-- The pointer after its object was given up; three functions clear it when it is freed. -/
def subLeft (k : Kind) (pool : Pool (Content k)) (p : ℕ) : Option ℕ :=
  if subAsserts k && counter pool.objects p=0 then none else some p

/-- `bgp_attr_unintern_sub`. -/
def uninternSubs : List Kind→Pools→Attr→Option (Pools × Attr)
  | [], pools, attr => some (pools,attr)
  | k::ks, pools, attr =>
    match attr.sub k with
    | none => uninternSubs ks pools (Attr.unsetFlag attr k)
    | some p =>
      match subUnintern k (pools k) p with
      | none => none
      | some pool =>
        uninternSubs ks (update pools k pool) (Attr.unsetFlag (attr.setSub k (subLeft k pool p)) k)

/-- The heap, and what the callers hold. -/
structure World where
  pools : Pools
  attrs : Pool Attr
  heldSub : Kind→ℕ→ℕ
  heldAttr : ℕ→ℕ

def setAttr (attrs : Pool Attr) (a : ℕ) (attr : Attr) : Pool Attr :=
  {attrs with objects := attrs.objects.modify a fun o => {o with content := attr}}

/-- `bgp_attr_intern`, with `bgp_attr_hash_alloc`. -/
def bgpAttrIntern (w : World) (a : ℕ) : Option (World × ℕ) :=
  match w.attrs.objects.read a with
  | none => none
  | some o =>
    (internSubs subOrder w.pools o.content).bind fun (pools,attr) =>
      (internCopy (attrhashKeyMake (heap pools)) attrhashCmp (setAttr w.attrs a attr) a).map
        fun (attrs,find) => ({w with pools,attrs},find)

/-- `bgp_attr_unintern_sub`, for an attribute of the caller. -/
def bgpAttrUninternSub (w : World) (a : ℕ) : Option World :=
  match w.attrs.objects.read a with
  | none => none
  | some o =>
    (uninternSubs subOrder w.pools o.content).map fun (pools,attr) =>
      {w with pools,attrs := setAttr w.attrs a attr}

/-- `bgp_attr_unintern`. An attribute without a counter wraps around, which is
not followed. -/
def bgpAttrUnintern (w : World) (a : ℕ) : Option World :=
  match w.attrs.objects.read a with
  | none => none
  | some o =>
    if o.refcnt=0 then none
    else (unintern (attrhashKeyMake (heap w.pools)) attrhashCmp true w.attrs a).bind fun attrs =>
        (uninternSubs subOrder w.pools o.content).map fun (pools,_) => {w with pools,attrs}

inductive AttrOp where
  | newSub (k : Kind) (x : Content k)
  | newAttr (attr : Attr)
  | internSub (k : Kind) (p : ℕ)
  | intern (a : ℕ)
  | unintern (a : ℕ)
  | uninternSub (a : ℕ)

/-- The caller gives up the references of its attribute. -/
def dropSubs (held : Kind→ℕ→ℕ) (attr : Attr) : Kind→ℕ→ℕ :=
  fun k p => held k p-if attr.sub k=some p then 1 else 0

/-- A new object of a caller. -/
def Pool.make {β : Type} (pool : Pool β) (x : β) : Pool β :=
  {pool with objects := pool.objects.alloc ⟨x,0⟩}

def step (w : World) : AttrOp→Option World
  | .newSub k x => some {w with pools := update w.pools k (Pool.make (w.pools k) x)}
  | .newAttr attr => some {w with attrs := Pool.make w.attrs attr}
  | .internSub k p =>
    (subIntern k (w.pools k) p).map fun (pool,find) =>
      {w with
        pools := update w.pools k pool
        heldSub := update w.heldSub k (addRef (w.heldSub k) find)}
  | .intern a =>
    (bgpAttrIntern w a).map fun (w',find) => {w' with heldAttr := addRef w.heldAttr find}
  | .unintern a => (bgpAttrUnintern w a).map fun w' => {w' with heldAttr := dropRef w.heldAttr a}
  | .uninternSub a =>
    match w.attrs.objects.read a with
    | none => none
    | some o =>
      (bgpAttrUninternSub w a).map fun w' => {w' with heldSub := dropSubs w.heldSub o.content}

/-- Callers point to memory that is not freed, and give up only what they hold. -/
def Legal (w : World) : AttrOp→Prop
  | .newSub _ _ => True
  | .newAttr _ => True
  | .internSub k p => ((w.pools k).objects.read p).isSome=true ∧ counter (w.pools k).objects p=0
  | .intern a =>
    ∃ attr, contents w.attrs.objects a=some attr ∧
      ∀ k p, attr.sub k=some p → ((w.pools k).objects.read p).isSome=true
  | .unintern a => w.heldAttr a≠0
  | .uninternSub a =>
    ∃ attr, contents w.attrs.objects a=some attr ∧ counter w.attrs.objects a=0 ∧
      ∀ k p, attr.sub k=some p → w.heldSub k p≠0

/-- No table has the largest size. -/
def Roomy (w : World) : Prop :=
  (∀ k, (w.pools k).table.size≠HashInvariant.largestSize) ∧
    w.attrs.table.size≠HashInvariant.largestSize

/-- A table with so many chains. -/
def emptyTable (size : BitVec 32) : Hash ℕ :=
  { index := fun _ => [],size,noExpand := false,count := 0 }

/-- `bgp_attr_init`, with `hash_create_size` and the default size. -/
def start : World where
  pools k := ⟨.empty,emptyTable (if k=.aspath then 32768 else 256)⟩
  attrs := ⟨.empty,emptyTable 256⟩
  heldSub _ _ := 0
  heldAttr _ := 0

/-- The references that attributes hold on an object: each reference to an
attribute holds one. -/
def attrRefs (objects : Store (Object Attr)) (k : Kind) (p : ℕ) : ℕ :=
  ∑ a∈Finset.range objects.next,
    if (contents objects a).bind (fun attr => attr.sub k)=some p then counter objects a else 0

/-- Every counter is the number of references. -/
structure Exact (w : World) : Prop where
  subs : ∀ k, Counted (subKey k) (subCmp k) (w.pools k) fun p =>
    w.heldSub k p+attrRefs w.attrs.objects k p
  attrs : Counted (attrhashKeyMake (heap w.pools)) attrhashCmp w.attrs w.heldAttr

end RoutePlatform.AttrIntern
