import RoutePlatform.PointerStore
import RoutePlatform.PrefixBytes

/-!
# The route table of `lib/table.c`

Nodes live in a pointer store and carry the parent pointer, the two child links, the reference
count and the user's `info`. A dangling pointer, a failed assertion or an endless loop answers
nothing; 257 rounds are more than a branch with `u_char` lengths can need. The delegate is the
default one; the table's `info` and `aggregate` are left out.
-/

namespace RoutePlatform.RouteTableOperations

open PointerStore PrefixBytes

variable {ι : Type}

structure RouteNode (ι : Type) where
  p : Prefix
  parent : Option ℕ
  /-- The two children: `false` is `l_left`, `true` is `l_right`. -/
  link : Bool→Option ℕ
  /-- An `unsigned int`, which memory for fewer than 2^32 references cannot make overflow. -/
  lock : ℕ
  info : Option ι

namespace RouteNode

variable (n : RouteNode ι)

/-- The node with one child link overwritten. -/
def withLink (b : Bool) (c : Option ℕ) : RouteNode ι := {n with link := Function.update n.link b c}

/-- The node with its parent pointer overwritten. -/
def withParent (j : Option ℕ) : RouteNode ι := {n with parent := j}

/-- The node with its reference count overwritten. -/
def withLock (k : ℕ) : RouteNode ι := {n with lock := k}

/-- The node with its user data overwritten. -/
def withInfo (v : Option ι) : RouteNode ι := {n with info := v}

end RouteNode

/-- `struct route_table`, together with the memory its nodes live in. -/
structure RouteTable (ι : Type) where
  nodes : Store (RouteNode ι)
  top : Option ℕ
  /-- The node counter `route_table_count` reports. -/
  count : ℕ

def routeTableInit : RouteTable ι := ⟨Store.empty,none,0⟩

/-- Rounds after which a loop along one branch has surely ended. -/
def branchFuel : ℕ := 257

namespace RouteTable

variable (t : RouteTable ι)

def read (i : ℕ) : Option (RouteNode ι) := t.nodes.read i

def modify (i : ℕ) (f : RouteNode ι→RouteNode ι) : RouteTable ι :=
  {t with nodes := t.nodes.modify i f}

end RouteTable

/-- A node as `route_node_new` returns it, with the prefix already set. -/
def freshNode (p : Prefix) : RouteNode ι := ⟨p,none,fun _ => none,0,none⟩

/-- `route_node_new` with its prefix, at the old frontier. -/
def routeNodeNew (t : RouteTable ι) (p : Prefix) : RouteTable ι :=
  {t with nodes := t.nodes.alloc (freshNode p)}

def routeNodeSet (t : RouteTable ι) (p : Prefix) : RouteTable ι := routeNodeNew t (prefixCopy p)

/-- `set_link`: hang `new` below `node` on the side of its own bit. -/
def setLink (t : RouteTable ι) (node new : ℕ) : Option (RouteTable ι) := do
  let n ← t.read node
  let c ← t.read new
  let bit := prefixBit c.p.u n.p.prefixlen
  some ((t.modify node fun n => n.withLink bit (some new)).modify new fun c =>
    c.withParent (some node))

def routeLockNode (t : RouteTable ι) (i : ℕ) : Option (RouteTable ι) := do
  let _ ← t.read i
  some (t.modify i fun n => n.withLock (n.lock+1))

/-- Replace the parent's link or the top; what is not left is right. -/
def replaceChild (t : RouteTable ι) (parent : Option ℕ) (node : ℕ) (child : Option ℕ) :
    RouteTable ι :=
  match parent with
  | none => {t with top := child}
  | some j => t.modify j fun m =>
      if m.link false=some node then m.withLink false child else m.withLink true child

/-- Point the child, when there is one, to its new parent. -/
def setParent (t : RouteTable ι) (child parent : Option ℕ) : RouteTable ι :=
  match child with
  | none => t
  | some c => t.modify c fun m => m.withParent parent

/-- One removal of `route_node_delete`: the node leaves the tree, its only
child takes its place, the counter drops and the memory is released. -/
def unlinkNode (t : RouteTable ι) (i : ℕ) (n : RouteNode ι) : RouteTable ι :=
  let child := if n.link false≠none then n.link false else n.link true
  let t := replaceChild (setParent t child n.parent) n.parent i child
  {t with count := t.count-1,nodes := t.nodes.free i}

/-- `route_node_delete`: a node with two children stays; a parent stub goes, too. -/
def routeNodeDelete : ℕ→RouteTable ι→ℕ→Option (RouteTable ι)
  | 0, _, _ => none
  | fuel+1, t, i => do
    let n ← t.read i
    if n.lock≠0 ∨ n.info.isSome then none
    else if n.link false≠none ∧ n.link true≠none then some t
    else
      let t := unlinkNode t i n
      match n.parent with
      | none => some t
      | some j => do
        let m ← t.read j
        if m.lock=0 then routeNodeDelete fuel t j else some t

def routeUnlockNode (t : RouteTable ι) (i : ℕ) : Option (RouteTable ι) := do
  let n ← t.read i
  if n.lock=0 then none
  else
    let t := t.modify i fun n => n.withLock (n.lock-1)
    if n.lock-1=0 then routeNodeDelete branchFuel t i else some t

/-- The walk of `route_node_match`: remember the last node with `info` on the
branch of `p`. -/
def matchWalk (t : RouteTable ι) (p : Prefix) : ℕ→Option ℕ→Option ℕ→Option (Option ℕ)
  | 0, _, _ => none
  | _+1, none, matched => some matched
  | fuel+1, some i, matched => do
    let n ← t.read i
    if n.p.prefixlen≤p.prefixlen ∧ prefixMatch n.p p then
      let matched := if n.info.isSome then some i else matched
      if n.p.prefixlen=p.prefixlen then some matched
      else matchWalk t p fuel (n.link (prefixBit p.u n.p.prefixlen)) matched
    else some matched

/-- `route_node_match`: the matched node, which comes back locked. -/
def routeNodeMatch (t : RouteTable ι) (p : Prefix) : Option (RouteTable ι × Option ℕ) := do
  match ← matchWalk t p branchFuel t.top none with
  | none => some (t,none)
  | some i => do
    let t ← routeLockNode t i
    some (t,some i)

/-- The walk of `route_node_lookup`. -/
def lookupWalk (t : RouteTable ι) (p : Prefix) : ℕ→Option ℕ→Option (Option ℕ)
  | 0, _ => none
  | _+1, none => some none
  | fuel+1, some i => do
    let n ← t.read i
    if n.p.prefixlen≤p.prefixlen ∧ prefixMatch n.p p then
      if n.p.prefixlen=p.prefixlen then some (if n.info.isSome then some i else none)
      else lookupWalk t p fuel (n.link (prefixBit p.u n.p.prefixlen))
    else some none

/-- `route_node_lookup`: the node of this prefix, locked, if it has `info`. -/
def routeNodeLookup (t : RouteTable ι) (p : Prefix) : Option (RouteTable ι × Option ℕ) := do
  match ← lookupWalk t p branchFuel t.top with
  | none => some (t,none)
  | some i => do
    let t ← routeLockNode t i
    some (t,some i)

/-- Where the descent of `route_node_get` ends. -/
inductive Descent where
  | found (i : ℕ)
  /-- Below `matched` the branch leads to `node`, which does not contain it. -/
  | stop (node matched : Option ℕ)
  deriving DecidableEq

/-- The descent of `route_node_get`. -/
def getWalk (t : RouteTable ι) (p : Prefix) : ℕ→Option ℕ→Option ℕ→Option Descent
  | 0, _, _ => none
  | _+1, none, matched => some (.stop none matched)
  | fuel+1, some i, matched => do
    let n ← t.read i
    if n.p.prefixlen≤p.prefixlen ∧ prefixMatch n.p p then
      if n.p.prefixlen=p.prefixlen then some (.found i)
      else getWalk t p fuel (n.link (prefixBit p.u n.p.prefixlen)) (some i)
    else some (.stop (some i) matched)

/-- Hang a new node below the matched one, or make it the top. -/
def attach (t : RouteTable ι) (matched : Option ℕ) (new : ℕ) : Option (RouteTable ι) :=
  match matched with
  | some m => setLink t m new
  | none => some {t with top := some new}

/-- `route_node_get`: find or insert the node of a prefix and lock it. -/
def routeNodeGet (t : RouteTable ι) (p : Prefix) : Option (RouteTable ι × ℕ) := do
  match ← getWalk t p branchFuel t.top none with
  | .found i =>
    let t ← routeLockNode t i
    some (t,i)
  | .stop none matched =>
    let new := t.nodes.next
    let t ← attach (routeNodeSet t p) matched new
    let t ← routeLockNode {t with count := t.count+1} new
    some (t,new)
  | .stop (some node) matched =>
    let n ← t.read node
    let new := t.nodes.next
    let common := commonPrefix n.p p
    let t ← setLink (routeNodeNew t common) new node
    let t ← attach t matched new
    if common.prefixlen≠p.prefixlen then
      let leaf := t.nodes.next
      let t ← setLink (routeNodeSet t p) new leaf
      let t := {t with count := t.count+1}
      let t ← routeLockNode {t with count := t.count+1} leaf
      some (t,leaf)
    else
      let t ← routeLockNode {t with count := t.count+1} new
      some (t,new)

def routeTop (t : RouteTable ι) : Option (RouteTable ι × Option ℕ) :=
  match t.top with
  | none => some (t,none)
  | some i => do
    let t ← routeLockNode t i
    some (t,some i)

/-- The upward loop: the first right sibling of an ancestor. -/
def subtreeNext (t : RouteTable ι) : ℕ→ℕ→Option (Option ℕ)
  | 0, _ => none
  | fuel+1, i => do
    let n ← t.read i
    match n.parent with
    | none => some none
    | some j => do
      let m ← t.read j
      if m.link false=some i ∧ m.link true≠none then some (m.link true)
      else subtreeNext t fuel j

def routeGetSubtreeNext (t : RouteTable ι) (i : ℕ) : Option (Option ℕ) := subtreeNext t branchFuel i

/-- The node `route_next` moves to. -/
def nextNode (t : RouteTable ι) (i : ℕ) : Option (Option ℕ) := do
  let n ← t.read i
  if n.link false≠none then some (n.link false)
  else if n.link true≠none then some (n.link true)
  else subtreeNext t branchFuel i

/-- `route_next`: lock the next node, then release the current one. -/
def routeNext (t : RouteTable ι) (i : ℕ) : Option (RouteTable ι × Option ℕ) := do
  match ← nextNode t i with
  | none =>
    let t ← routeUnlockNode t i
    some (t,none)
  | some j =>
    let t ← routeLockNode t j
    let t ← routeUnlockNode t i
    some (t,some j)

/-- Store user data in a node, or clear it. -/
def setInfo (t : RouteTable ι) (i : ℕ) (v : Option ι) : Option (RouteTable ι) := do
  let _ ← t.read i
  some (t.modify i fun n => n.withInfo v)

/-- The walk of `route_table_get_next_internal` with its locks. -/
def getNextWalk (p : Prefix) : ℕ→RouteTable ι→Option ℕ→Option (RouteTable ι × Option ℕ)
  | 0, _, _ => none
  | _+1, t, none => some (t,none)
  | fuel+1, t, some i => do
    let n ← t.read i
    let isMatch := if n.p.prefixlen<p.prefixlen then prefixMatch n.p p else prefixMatch p n.p
    if isMatch then
      if n.p.prefixlen=p.prefixlen then
        let t ← routeLockNode t i
        let (t,next) ← routeNext t i
        match next with
        | none => some (t,none)
        | some j => do
          let t ← routeUnlockNode t j
          some (t,some j)
      else if n.p.prefixlen > p.prefixlen then some (t,some i)
      else if n.link (prefixBit p.u n.p.prefixlen)≠none then
        getNextWalk p fuel t (n.link (prefixBit p.u n.p.prefixlen))
      else if n.link true≠none then some (t,n.link true)
      else do
        let next ← routeGetSubtreeNext t i
        some (t,next)
    else do
      let cmp ← routeTablePrefixIterCmp n.p p
      if cmp > 0 then some (t,some i)
      else if cmp<0 then
        let next ← routeGetSubtreeNext t i
        some (t,next)
      else none

def routeTableGetNext (t : RouteTable ι) (p : Prefix) : Option (RouteTable ι × Option ℕ) := do
  let (t,node) ← getNextWalk p branchFuel t t.top
  match node with
  | none => some (t,none)
  | some i => do
    let n ← t.read i
    let cmp ← routeTablePrefixIterCmp n.p p
    if cmp > 0 then
      let t ← routeLockNode t i
      some (t,some i)
    else none

/-- `route_table_iter_t`: a node while running, a prefix while paused. -/
inductive RouteTableIter where
  | init
  | iterating (current : ℕ)
  | paused (pausePrefix : Prefix)
  | done

/-- The iterator state after a step that moved to `node`. -/
def RouteTableIter.moved : Option ℕ→RouteTableIter
  | some i => .iterating i
  | none => .done

def routeTableIterNext (t : RouteTable ι) (iter : RouteTableIter) :
    Option (RouteTable ι × RouteTableIter × Option ℕ) := do
  match iter with
  | .init =>
    let (t,node) ← routeTop t
    some (t,.moved node,node)
  | .iterating current =>
    let (t,node) ← routeNext t current
    some (t,.moved node,node)
  | .paused pausePrefix =>
    let (t,node) ← routeTableGetNext t pausePrefix
    some (t,.moved node,node)
  | .done => some (t,.done,none)

def routeTableIterPause (t : RouteTable ι) (iter : RouteTableIter) :
    Option (RouteTable ι × RouteTableIter) := do
  match iter with
  | .iterating current =>
    let n ← t.read current
    let t ← routeUnlockNode t current
    some (t,.paused (prefixCopy n.p))
  | .init => some (t,.init)
  | .paused pausePrefix => some (t,.paused pausePrefix)
  | .done => some (t,.done)

end RoutePlatform.RouteTableOperations
