import RoutePlatform.ClassMap
import RoutePlatform.OperationRuns

/-!
# Hash tables of `lib/hash.c`

A table is an array of chains. `hash_get` may double the array in the middle of an insertion.
Sizes and keys are 32-bit numbers, so doubling can overflow; accesses outside of the array answer
nothing. Allocation does not fail.
-/

namespace RoutePlatform.HashOperations

open ClassMap

universe u

variable {α : Type u}

/-- `struct hash_backet` without its link. -/
structure Backet (α : Type u) where
  key : BitVec 32
  data : α
  deriving DecidableEq

/-- `struct hash` without its functions. -/
structure Hash (α : Type u) where
  index : ℕ→List (Backet α)
  size : BitVec 32
  noExpand : Bool
  count : ℕ

def hashThreshold : ℕ := 10

def slot (size key : BitVec 32) : ℕ := (key &&& (size-1)).toNat

def hashCreateSize (size : BitVec 32) : Option (Hash α) :=
  if size &&& (size-1)=0 then
    some { index := fun _ => [],size,noExpand := false,count := 0 }
  else none

/-- The inner loop of `hash_expand`: the items of a chain are put in front of
the new ones. -/
def relink (newSize : BitVec 32) : List (Backet α)→(ℕ→List (Backet α))→Option (ℕ→List (Backet α))
  | [], newIndex => some newIndex
  | hb::rest, newIndex =>
    let h := slot newSize hb.key
    if h<newSize.toNat then
      relink newSize rest (Function.update newIndex h (hb::newIndex h))
    else none

/-- The loop of `hash_expand` over the first chains. -/
def relinkChains (newSize : BitVec 32) (index : ℕ→List (Backet α)) : ℕ→Option (ℕ→List (Backet α))
  | 0 => some fun _ => []
  | i+1 => (relinkChains newSize index i).bind (relink newSize (index i))

/-- The loop over a chain: position, losers and whether the chain is too long. -/
def scanChain : List (Backet α)→ℕ→ℕ × Bool→ℕ × Bool
  | [], _, found => found
  | _::rest, len, (losers,noExpand) =>
    let len := len+1
    scanChain rest len
      (if len > hashThreshold/2 then losers+1 else losers,noExpand || decide (len ≥ hashThreshold))

/-- The loop of `hash_expand` that looks at the first new chains. -/
def scanChains (index : ℕ→List (Backet α)) (noExpand : Bool) : ℕ→ℕ × Bool
  | 0 => (0,noExpand)
  | i+1 => scanChain (index i) 0 (scanChains index noExpand i)

def hashExpand (hash : Hash α) : Option (Hash α) :=
  let newSize := hash.size*2
  (relinkChains newSize hash.index hash.size.toNat).map fun newIndex =>
    let found := scanChains newIndex hash.noExpand newSize.toNat
    {hash with
      index := newIndex
      size := newSize
      noExpand := found.2 || decide (found.1 > hash.count/2)}

section

variable (hashKey : α→BitVec 32) (hashCmp : α→α→Bool)

/-- What the functions of a table promise. -/
structure HashFunctions : Prop where
  equivalent : Equivalent hashCmp
  key : ∀ x y, hashCmp x y=true → hashKey x=hashKey y

/-- The test of the loops over a chain. -/
def matching (data : α) (backet : Backet α) : Bool :=
  backet.key == hashKey data && hashCmp backet.data data

/-- The item a loop over the chain finds. -/
def findBacket (hash : Hash α) (data : α) : Option (Backet α) :=
  (hash.index (slot hash.size (hashKey data))).find? (matching hashKey hashCmp data)

/-- A new item is put in front of its chain. -/
def insertBacket (hash : Hash α) (key : BitVec 32) (newdata : α) : Hash α :=
  let index := slot hash.size key
  {hash with
    index := Function.update hash.index index (⟨key,newdata⟩::hash.index index)
    count := hash.count+1}

/-- The chain is long enough to expand the table. -/
def expanding (hash : Hash α) (data : α) : Bool :=
  decide ((hash.index (slot hash.size (hashKey data))).length > hashThreshold) && !hash.noExpand

/-- `hash_get`. The function that allocates may be missing, and it may answer
nothing. -/
def hashGet (hash : Hash α) (data : α) (allocFunc : Option (α→Option α)) :
    Option (Hash α × Option α) :=
  match findBacket hashKey hashCmp hash data with
  | some backet => some (hash,some backet.data)
  | none =>
    match allocFunc.bind fun f => f data with
    | none => some (hash,none)
    | some newdata =>
      (if expanding hashKey hash data then hashExpand hash else some hash).map fun hash =>
        (insertBacket hash (hashKey data) newdata,some newdata)

def hashLookup (hash : Hash α) (data : α) : Option (Hash α × Option α) :=
  hashGet hashKey hashCmp hash data none

def hashRelease (hash : Hash α) (data : α) : Hash α × Option α :=
  match findBacket hashKey hashCmp hash data with
  | none => (hash,none)
  | some backet =>
    let index := slot hash.size (hashKey data)
    ({hash with
      index := Function.update hash.index index
        ((hash.index index).eraseP (matching hashKey hashCmp data))
      count := hash.count-1},some backet.data)

inductive HashOp (α : Type u) where
  | get (data : α) (allocFunc : Option (α→Option α))
  | lookup (data : α)
  | release (data : α)

def hashStep (hash : Hash α) : HashOp α→Option (Hash α)
  | .get data allocFunc => (hashGet hashKey hashCmp hash data allocFunc).map Prod.fst
  | .lookup data => (hashLookup hashKey hashCmp hash data).map Prod.fst
  | .release data => some (hashRelease hashKey hashCmp hash data).1

/-- What callers respect: a function that allocates answers with an item like
its argument. -/
def HashLegal : HashOp α→Prop
  | .get data allocFunc => ∀ f∈allocFunc, ∀ newdata∈f data, hashCmp newdata data=true
  | _ => True

/-- The items that are stored after a sequence of calls, by class: inserted and
not since released. -/
def storedStep (m : α→Option α) : HashOp α→(α→Option α)
  | .get data allocFunc =>
    match m data, allocFunc.bind fun f => f data with
    | none, some newdata => put hashCmp m newdata
    | _, _ => m
  | .lookup _ => m
  | .release data => remove hashCmp m data

/-- The items that are stored after a sequence of calls on an empty table. -/
def storedAfter (ops : List (HashOp α)) : α→Option α :=
  ops.foldl (storedStep hashCmp) fun _ => none

end

def hashItems (hash : Hash α) : List α :=
  (List.range hash.size.toNat).flatMap fun i => (hash.index i).map Backet.data

end RoutePlatform.HashOperations
