import RoutePlatform.WordBits
import RoutePlatform.EigrpItems

/-!
# EIGRP: peers and their handles

Every peer has a handle, the number of a bit in the handle set of the process and in
that of its interface. The sets grow word by word; a handle is the first bit that is
free.
-/

namespace RoutePlatform.EigrpDual

open EigrpItems (U32)

/-- `EigrpHandle_st`; `arraySize` is the length of the array. -/
structure Handle where
  used : BitVec 16
  array : List (BitVec 32)
deriving DecidableEq

def Handle.empty : Handle := ⟨0,[]⟩

/-- `EigrpDualPeer_st`. -/
structure Peer where
  source : U32
  iidb : ℕ
  peerHandle : ℕ
deriving DecidableEq

/-- `EigrpIdb_st`: an interface. -/
structure Iidb where
  handle : Handle
  splitHorizon : Bool

/-- The part of `EigrpDualDdb_st` that knows the peers. -/
structure Peers where
  handle : Handle
  iidbs : ℕ→Iidb
  peerArray : List (Option Peer)
  /-- `peerLst`, which holds the same peers as `peerCache`. -/
  peerLst : List Peer
  activeIntfCnt : ℕ
  asserted : Bool

def Peers.init (splitHorizon : ℕ→Bool) : Peers where
  handle := Handle.empty
  iidbs := fun i => ⟨Handle.empty,splitHorizon i⟩
  peerArray := []
  peerLst := []
  activeIntfCnt := 0
  asserted := false

/-- `EigrpTestHandle`. -/
def testHandle (h : Handle) (n : ℕ) : Bool :=
  if h.array.length*32≤n then false else WordBits.test h.array n

/-- `EigrpSetHandle`: whether its assertions hold, and the set. -/
def setHandle (h : Handle) (n : ℕ) : Bool × Handle := if h.array.length*32≤n then (false,h)
  else if WordBits.test h.array n then (false,h)
  else (true,⟨h.used+1,WordBits.set h.array n⟩)

/-- `EigrpClearHandle`: whether its assertions hold, and the set. -/
def clearHandle (h : Handle) (n : ℕ) : Bool × Handle := if h.array.length*32≤n then (false,h)
  else if !WordBits.test h.array n then (false,h)
  else if h.used=0 then (false, {h with array := WordBits.clear h.array n})
  else (true,⟨h.used-1,WordBits.clear h.array n⟩)

/-- `EigrpAdjustHandleArray`. -/
def adjustHandleArray (h : Handle) (n : ℕ) : Handle :=
  if n/32<h.array.length then h else {h with array := WordBits.grow h.array (n/32+1)}

/-- The loop over the low bits of a word. -/
def bitLoop : ℕ→BitVec 32→ℕ→ℕ
  | 0, _, handle => handle
  | fuel+1, bits, handle => if bits.getLsbD 0 then bitLoop fuel (bits >>> 1) (handle+1) else handle

/-- The first handle that is free: the loop over the words from `cell` on. -/
def freeHandleFrom : List (BitVec 32)→ℕ→ℕ
  | [], cell => cell*32
  | bits::rest, cell =>
    if bits≠BitVec.allOnes 32 then bitLoop 32 bits (cell*32) else freeHandleFrom rest (cell+1)

/-- `EigrpAdjustPeerArray`. -/
def adjustPeerArray (a : List (Option Peer)) (p : Peer) (n : ℕ) : List (Option Peer) :=
  let a := if a.length≤n then a++List.replicate (max (a.length+10) (n+1)-a.length) none else a
  a.set n (some p)

/-- An interface gets another handle set. -/
def Peers.setIidb (P : Peers) (i : ℕ) (h : Handle) : Peers :=
  {P with iidbs := Function.update P.iidbs i {P.iidbs i with handle := h}}

/-- `EigrpAllocHandle` for a peer on the interface `i`, with the handle that it gets. -/
def allocHandle (P : Peers) (source : U32) (i : ℕ) : Peers × Peer :=
  let n := freeHandleFrom P.handle.array 0
  let p : Peer := ⟨source,i,n⟩
  let all := setHandle (adjustHandleArray P.handle n) n
  let one := setHandle (adjustHandleArray (P.iidbs i).handle n) n
  (({P with
      handle := all.2,peerArray := adjustPeerArray P.peerArray p n
      asserted := P.asserted || !all.1 || !one.1} : Peers).setIidb i one.2,p)

/-- `EigrpDualPeerCount`. -/
def peerCount (P : Peers) (i : ℕ) : ℕ := (P.iidbs i).handle.used.toNat

/-- The new peer of `EigrpHeadProc`. -/
def newPeer (P : Peers) (source : U32) (i : ℕ) : Peers :=
  let (P,p) := allocHandle P source i
  let P := {P with peerLst := p::P.peerLst}
  if peerCount P i=1 then {P with activeIntfCnt := P.activeIntfCnt+1} else P

/-- `EigrpFindPeer`. -/
def findPeer (P : Peers) (address : U32) (i : ℕ) : Option Peer :=
  if address=0 then none else P.peerLst.find? fun p => p.iidb=i ∧ p.source=address

/-- `EigrpFindhandle`. -/
def findHandle (P : Peers) (nexthop : U32) (i : ℕ) : Option ℕ := (findPeer P nexthop i).map Peer.peerHandle

/-- `EigrpHandleToPeer`. -/
def handleToPeer (P : Peers) (n : ℕ) : Option Peer := P.peerArray.getD n none

/-- `EigrpFreehandle`. -/
def freeHandle (P : Peers) (p : Peer) : Peers :=
  let all := clearHandle P.handle p.peerHandle
  let one := clearHandle (P.iidbs p.iidb).handle p.peerHandle
  ({P with
     handle := all.2,peerArray := P.peerArray.set p.peerHandle none
     asserted := P.asserted || !all.1 || !one.1} : Peers).setIidb p.iidb one.2

/-- `EigrpDestroyPeer`, with `EigrpDualLastPeerDeleted`. -/
def destroyPeer (P : Peers) (p : Peer) : Peers :=
  let P := {P with peerLst := P.peerLst.erase p}
  if peerCount P p.iidb=0 then {P with activeIntfCnt := P.activeIntfCnt-1} else P

end RoutePlatform.EigrpDual
