import RoutePlatform.AsPathOperations

/-!
# Reading and synthesising AS paths

`aspath_parse` moves the get position also when it rejects the path.
`aspath_reconcile_as4` joins the leading part of a 16 bit path and the path of
`AS4_PATH`. The functions that prepend to a path or look at its segments are
those the attribute code calls.
-/

namespace RoutePlatform.AsPathSynthesis

open StreamOperations AsPathOperations

/-- `struct aspath`: its segments. -/
abbrev Aspath := List Assegment

/-- Where the loop of `assegments_parse` stops reading. -/
def parseStop (use32bit : Bool) (length : ℕ) : ℕ→Stream→ℕ→Stream
  | 0, s, _ => s
  | fuel+1, s, bytes =>
    if bytes<length then
      if length-bytes≤asHeaderSize then s
      else
        match streamGetc s with
        | none => s
        | some (type,s) =>
          match streamGetc s with
          | none => s
          | some (len,s) =>
            if bytes+assegmentSize len.toNat use32bit > length ∨ len.toNat=0 then s
            else
              match SegmentType.ofCode type, getAsns use32bit len.toNat s with
              | some _, some (_,s') =>
                parseStop use32bit length fuel s' (bytes+assegmentSize len.toNat use32bit)
              | _, _ => s
    else s

/-- `aspath_parse`: the path, if it is accepted, and the stream behind it. -/
def aspathParse (s : Stream) (length : ℕ) (use32bit : Bool) : Option Aspath × Stream :=
  if length%2≠0 then (none,s)
  else (assegmentsParse s length use32bit,
      if length=0 ∨ s.readable<length ∨ s.readable<asHeaderSize then s
      else parseStop use32bit length (length+1) s 0)

def aspathCountHops (path : Aspath) : ℕ :=
  (path.map fun seg => if seg.type=.asSequence then seg.length
    else if seg.type=.asSet then 1 else 0).sum

def aspathCountConfeds (path : Aspath) : ℕ :=
  (path.map fun seg => if seg.type=.asConfedSequence then seg.length
    else if seg.type=.asConfedSet then 1 else 0).sum

def Assegment.isConfed (seg : Assegment) : Bool :=
  seg.type=.asConfedSet || seg.type=.asConfedSequence

def aspathConfedCheck (path : Aspath) : Bool := path.any Assegment.isConfed

def aspathLeftConfedCheck (path : Aspath) : Bool := path.head?.any Assegment.isConfed

def aspathFirstasCheck (path : Aspath) (asno : AsT) : Bool :=
  path.head?.any fun seg => seg.type=.asSequence && seg.as.head? = some asno

def aspathAddSeq (path : Aspath) (asno : AsT) : Aspath :=
  match path with
  | [] => [assegmentNew .asSequence [asno]]
  | seg::rest =>
    if seg.type=.asSequence then assegmentNew .asSequence (asno::seg.as)::rest
    else if seg.length=0 then assegmentNew .asSequence [asno]::rest
    else assegmentNew .asSequence [asno]::seg::rest

def aspathDeleteConfedSeq (path : Aspath) : Aspath :=
  match path with
  | [] => []
  | seg::_ => if seg.type=.asConfedSequence then path.dropWhile Assegment.isConfed else path

/-- The loop of `aspath_reconcile_as4`, which splits no confederation sequence. -/
def reconcileLoop : ℤ→Aspath→Aspath
  | _, [] => []
  | hops, seg::rest =>
    if hops > 0 then
      match seg.type with
      | .asSet | .asConfedSet =>
        assegmentNew seg.type (seg.as.take seg.length)::reconcileLoop (hops-1) rest
      | .asConfedSequence =>
        let hops := if hops<seg.length then (seg.length : ℤ) else hops
        assegmentNew seg.type (seg.as.take (min (seg.length : ℤ) hops).toNat) ::
          reconcileLoop (hops-seg.length) rest
      | .asSequence =>
        assegmentNew seg.type (seg.as.take (min (seg.length : ℤ) hops).toNat) ::
          reconcileLoop (hops-seg.length) rest
    else []

def aspathReconcileAs4 (aspath as4path : Aspath) : Aspath :=
  let hops : ℤ := (aspathCountHops aspath+aspathCountConfeds aspath : ℕ) -
    (aspathCountHops as4path : ℕ)
  let hops := if hops<0 then (aspathCountHops aspath : ℤ) else hops
  if hops=0 then as4path else assegmentNormalise (reconcileLoop hops aspath++as4path)

end RoutePlatform.AsPathSynthesis
