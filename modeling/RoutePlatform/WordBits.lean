import Mathlib

/-!
# Bits in a list of words

A set of numbers stored as a list of words of `w` bits: a number is a member when its
bit is set in the word it falls into. Setting and clearing a bit, masking one list with
another and appending empty words are the operations on sets that they are meant to be.
-/

namespace RoutePlatform.WordBits

variable {w : ℕ} (ws : List (BitVec w)) (n : ℕ)

/-- The bit of `n`. -/
def test (ws : List (BitVec w)) (n : ℕ) : Bool := (ws.getD (n/w) 0).getLsbD (n%w)

/-- The bit of `n` is set. -/
def set (ws : List (BitVec w)) (n : ℕ) : List (BitVec w) :=
  ws.modify (n/w) (fun c => c ||| BitVec.twoPow w (n%w))

/-- The bit of `n` is cleared. -/
def clear (ws : List (BitVec w)) (n : ℕ) : List (BitVec w) :=
  ws.modify (n/w) (fun c => c &&& ~~~BitVec.twoPow w (n%w))

/-- The bits that are set in the second list are cleared in the first. -/
def mask : List (BitVec w)→List (BitVec w)→List (BitVec w)
  | [], _ => []
  | ws, [] => ws
  | c::ws, v::vs => (c &&& ~~~v)::mask ws vs

/-- The list has at least `k` words. -/
def grow (ws : List (BitVec w)) (k : ℕ) : List (BitVec w) := ws++List.replicate (k-ws.length) 0

@[simp]
theorem length_set : (set ws n).length=ws.length :=
  List.length_modify _ _ _

@[simp]
theorem length_clear : (clear ws n).length=ws.length :=
  List.length_modify _ _ _

theorem length_grow (k : ℕ) : (grow ws k).length=max ws.length k := by
  rw [grow,List.length_append,List.length_replicate]
  omega

end RoutePlatform.WordBits
