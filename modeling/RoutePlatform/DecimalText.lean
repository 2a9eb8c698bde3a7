import Mathlib

/-!
# Decimal numbers in text

The parsers of the daemons read a number digit by digit into a 32-bit word and
skip white space by `isspace`.
-/

namespace RoutePlatform.DecimalText

open List
variable {c : Char} (n : ℕ)

/-- `isspace` in the C locale. -/
def isspace (c : Char) : Bool := c∈[' ', '\t', '\n', '\x0b', '\x0c', '\r']

/-- One more digit of a number. -/
def addDigit (n : BitVec 32) (c : Char) : BitVec 32 := n*10+BitVec.ofNat 32 (c.toNat - '0'.toNat)

theorem foldl_addDigit (ds : List Char) (k : ℕ) :
    ds.foldl addDigit (BitVec.ofNat 32 k)=BitVec.ofNat 32 (Nat.ofDigitChars 10 ds k) := by
  induction ds generalizing k with
  | nil => rw [foldl_nil,Nat.ofDigitChars_nil]
  | cons c ds ih =>
    have hstep : addDigit (BitVec.ofNat 32 k) c = BitVec.ofNat 32 (10*k+(c.toNat - '0'.toNat)) := by
      rw [addDigit,BitVec.ofNat_add,Nat.mul_comm,BitVec.ofNat_mul]
      rfl
    rw [foldl_cons,hstep,ih,Nat.ofDigitChars_cons]

theorem foldl_addDigit_toDigits : (Nat.toDigits 10 n).foldl addDigit 0=BitVec.ofNat 32 n := by
  rw [show (0 : BitVec 32)=BitVec.ofNat 32 0 from rfl,foldl_addDigit,
    Nat.ofDigitChars_toDigits (by decide) (by decide)]

theorem isDigit_toDigits {n : ℕ} (h : c∈Nat.toDigits 10 n) : c.isDigit=true :=
  Nat.isDigit_of_mem_toDigits (by decide) (by decide) h

theorem exists_toDigits : ∃ c ds, Nat.toDigits 10 n=c::ds ∧ c.isDigit=true := by
  cases h : Nat.toDigits 10 n with
  | nil => exact absurd h Nat.toDigits_ne_nil
  | cons c ds => exact ⟨c,ds,rfl,isDigit_toDigits (h ▸ mem_cons_self)⟩

theorem isspace_of_isDigit (h : c.isDigit=true) : isspace c=false := by
  rw [isspace,decide_eq_false_iff_not]
  intro hmem
  simp only [mem_cons,not_mem_nil,or_false] at hmem
  rcases hmem with rfl|rfl|rfl|rfl|rfl|rfl <;> cases h

theorem isAlpha_of_isDigit (h : c.isDigit=true) : c.isAlpha=false := by
  simp only [Char.isDigit,Char.isAlpha,Char.isUpper,Char.isLower,Bool.and_eq_true,
    decide_eq_true_eq,Bool.or_eq_false_iff,Bool.and_eq_false_iff,decide_eq_false_iff_not,
    ge_iff_le,UInt32.le_iff_toNat_le] at h ⊢
  simp at h ⊢
  omega

theorem flatten_intersperse_cons (sep : Char) (text : List Char) (texts : List (List Char)) :
    ((text::texts).intersperse [sep]).flatten=text++texts.flatMap fun t => sep::t := by
  induction texts generalizing text with
  | nil => simp
  | cons t texts ih =>
    rw [flatMap_cons,cons_append,←ih t]
    simp

end RoutePlatform.DecimalText
