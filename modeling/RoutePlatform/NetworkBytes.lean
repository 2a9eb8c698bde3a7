import Mathlib

/-!
# Byte strings in network order

The number that a byte string stands for, with the most significant byte first. On byte
strings of one length `memcmp` compares these numbers.
-/

namespace RoutePlatform.NetworkBytes

open List Nat

variable (bs as : List (BitVec 8))

/-- The number in a byte string. -/
def netValue : List (BitVec 8)→ℕ
  | [] => 0
  | b::bs => b.toNat*256^bs.length+netValue bs

/-- `memcmp` of byte strings of one length. -/
def memcmp : List (BitVec 8)→List (BitVec 8)→Ordering
  | a::as, b::bs => (compare a.toNat b.toNat).then (memcmp as bs)
  | _, _ => .eq

section

theorem netValue_lt : netValue bs<256^bs.length := by
  induction bs with
  | nil => exact one_pos
  | cons b bs ih =>
    have hb : b.toNat+1≤256 := b.isLt
    have hmul := mul_le_mul_right (256^bs.length) hb
    rw [netValue,length_cons,pow_succ']
    rw [add_mul] at hmul
    omega

theorem netValue_concat (b : BitVec 8) : netValue (bs++[b])=netValue bs*256+b.toNat := by
  induction bs with
  | nil =>
    rw [nil_append,netValue,netValue,netValue]
    simp
  | cons a bs ih =>
    rw [cons_append,netValue,ih,netValue,length_append,length_singleton,
      pow_succ,add_mul,add_assoc,mul_assoc]

/-- On byte strings of one length the first bytes that differ decide. -/
theorem memcmp_eq_compare : ∀ bs : List (BitVec 8),
    as.length=bs.length → memcmp as bs=compare (netValue as) (netValue bs) := by
  induction as with
  | nil =>
    intro bs h
    cases bs with
    | nil => rfl
    | cons b bs => cases h
  | cons a as ih =>
    intro bs h
    cases bs with
    | nil => cases h
    | cons b bs =>
      have hlen := Nat.succ.inj h
      have ha := netValue_lt as
      have hb := netValue_lt bs
      rw [memcmp,ih bs hlen,netValue,netValue]
      rw [hlen] at ha ⊢
      rcases lt_trichotomy a.toNat b.toNat with hlt|heq|hgt
      · have hmul := mul_le_mul_right (256^bs.length) (succ_le_of_lt hlt)
        rw [succ_mul] at hmul
        rw [Nat.compare_eq_lt.mpr hlt,Ordering.lt_then,eq_comm,Nat.compare_eq_lt]
        omega
      · rw [Nat.compare_eq_eq.mpr heq,Ordering.eq_then,heq]
        rcases lt_trichotomy (netValue as) (netValue bs) with h'|h'|h'
        · rw [Nat.compare_eq_lt.mpr h',eq_comm,Nat.compare_eq_lt]
          omega
        · rw [h',Nat.compare_eq_eq.mpr rfl,Nat.compare_eq_eq.mpr rfl]
        rw [Nat.compare_eq_gt.mpr h',eq_comm,Nat.compare_eq_gt]
        omega
      have hmul := mul_le_mul_right (256^bs.length) (succ_le_of_lt hgt)
      rw [succ_mul] at hmul
      rw [Nat.compare_eq_gt.mpr hgt,Ordering.gt_then,eq_comm,Nat.compare_eq_gt]
      omega

theorem memcmp_eq_eq : ∀ bs : List (BitVec 8), as.length=bs.length → memcmp as bs=.eq → as=bs := by
  induction as with
  | nil =>
    intro bs h _
    exact (length_eq_zero_iff.mp h.symm).symm
  | cons a as ih =>
    intro bs h heq
    cases bs with
    | nil => cases h
    | cons b bs =>
      rw [memcmp,Ordering.then_eq_eq,Nat.compare_eq_eq] at heq
      rw [BitVec.eq_of_toNat_eq heq.1,ih bs (Nat.succ.inj h) heq.2]

theorem netValue_inj {as bs : List (BitVec 8)} (hlen : as.length=bs.length)
    (h : netValue as=netValue bs) : as=bs := by
  refine memcmp_eq_eq as bs hlen ?_
  rw [memcmp_eq_compare as bs hlen,h]
  exact Nat.compare_eq_eq.mpr rfl

theorem netValue_replicate (n : ℕ) : netValue (List.replicate n (0xff : BitVec 8))+1=256^n := by
  induction n with
  | zero => rfl
  | succ n ih =>
    have hff : (0xff : BitVec 8).toNat=255 := rfl
    rw [replicate_succ,netValue,length_replicate,hff,add_assoc,ih,pow_succ']
    omega

end

end RoutePlatform.NetworkBytes
