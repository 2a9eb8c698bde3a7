import Mathlib

/-!
# States of OSPF interfaces and neighbours

The states are numbers in the program, and some conditions compare them.
-/

namespace RoutePlatform.OspfStates

/-- The states of a neighbour, in the order of their numbers. -/
inductive NsmState where
  | dependUpon
  | deleted
  | down
  | attempt
  | initState
  | twoWay
  | exStart
  | exchange
  | loading
  | full
  deriving DecidableEq

/-- The number of a neighbour state. -/
def NsmState.code : NsmState→ℕ
  | .dependUpon => 0
  | .deleted => 1
  | .down => 2
  | .attempt => 3
  | .initState => 4
  | .twoWay => 5
  | .exStart => 6
  | .exchange => 7
  | .loading => 8
  | .full => 9

/-- The states of an interface, in the order of their numbers. -/
inductive IsmState where
  | dependUpon
  | down
  | loopback
  | waiting
  | pointToPoint
  | drOther
  | backup
  | dr
  deriving DecidableEq

/-- The number of an interface state. -/
def IsmState.code : IsmState→ℕ
  | .dependUpon => 0
  | .down => 1
  | .loopback => 2
  | .waiting => 3
  | .pointToPoint => 4
  | .drOther => 5
  | .backup => 6
  | .dr => 7

end RoutePlatform.OspfStates
