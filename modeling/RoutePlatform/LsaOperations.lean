import RoutePlatform.KeyedStore

/-!
# Link state advertisements

LSAs of `ospfd/ospf_lsa.c` and the databases of `ospfd/ospf_lsdb.c`, with at most one LSA for a
type, link state id and advertising router. Times are in microseconds; the build has
`HAVE_OPAQUE_LSA`. Locks and debug output are left out.
-/

namespace RoutePlatform.LsaOperations

open KeyedStore

/-- `struct lsa_header`, in host order. -/
structure LsaHeader where
  lsAge : BitVec 16
  options : BitVec 8
  type : BitVec 8
  id : BitVec 32
  advRouter : BitVec 32
  lsSeqnum : BitVec 32
  checksum : BitVec 16
  length : BitVec 16
  deriving DecidableEq

def ospfMinLsa : ℕ := 1

def ospfMaxLsa : ℕ := 12

def ospfAsExternalLsa : BitVec 8 := 5

def ospfAsNssaLsa : BitVec 8 := 7

def ospfOpaqueLinkLsa : BitVec 8 := 9

def ospfOpaqueAreaLsa : BitVec 8 := 10

def ospfOpaqueAsLsa : BitVec 8 := 11

def isOpaqueLsa (type : BitVec 8) : Bool :=
  type=ospfOpaqueLinkLsa || type=ospfOpaqueAreaLsa || type=ospfOpaqueAsLsa

def ospfOptionO : BitVec 8 := 0x40

def ospfLsaMaxage : ℕ := 3600

def ospfLsaMaxageDiff : ℕ := 900

structure OspfLsa where
  /-- The header of `data`. -/
  data : LsaHeader
  tvRecv : ℕ
  discard : Bool
  deriving DecidableEq

section

variable (now : ℕ)

/-- `get_age`: the age in the header and the full seconds since then. -/
def getAge (lsa : OspfLsa) : ℕ := lsa.data.lsAge.toNat+(now-lsa.tvRecv)/1000000

def lsAge (lsa : OspfLsa) : ℕ :=
  if ospfLsaMaxage<getAge now lsa then ospfLsaMaxage else getAge now lsa

def isLsaMaxage (lsa : OspfLsa) : Bool := lsAge now lsa=ospfLsaMaxage

/-- `ospf_lsa_more_recent`: positive when the first LSA is newer; sequence numbers are signed. -/
def ospfLsaMoreRecent (l1 l2 : Option OspfLsa) : ℤ :=
  match l1, l2 with
  | none, none => 0
  | none, some _ => -1
  | some _, none => 1
  | some l1, some l2 =>
    let x := l1.data.lsSeqnum.toInt
    let y := l2.data.lsSeqnum.toInt
    if x > y then 1
    else if x<y then -1
    else
      let r : ℤ := (l1.data.checksum.toNat : ℤ)-(l2.data.checksum.toNat : ℤ)
      if r≠0 then r
      else if isLsaMaxage now l1 && !isLsaMaxage now l2 then 1
      else if !isLsaMaxage now l1 && isLsaMaxage now l2 then -1
      else if (lsAge now l1 : ℤ)-(lsAge now l2 : ℤ) > ospfLsaMaxageDiff then -1
      else if (lsAge now l2 : ℤ)-(lsAge now l1 : ℤ) > ospfLsaMaxageDiff then 1
      else 0

end

/-- The checksums decide, and the second one is larger by two at least. -/
def ChecksumGap (l1 l2 : OspfLsa) : Prop :=
  l1.data.lsSeqnum=l2.data.lsSeqnum ∧ l1.data.checksum.toNat+2≤l2.data.checksum.toNat

instance decidableChecksumGap (l1 l2 : OspfLsa) : Decidable (ChecksumGap l1 l2) :=
  inferInstanceAs (Decidable (_ ∧ _))

/-- Negative results other than -1 are differences of checksums. -/
theorem ospfLsaMoreRecent_lt_neg_one_iff (now : ℕ) (l1 l2 : OspfLsa) :
    ospfLsaMoreRecent now (some l1) (some l2) < -1 ↔ ChecksumGap l1 l2 := by
  unfold ospfLsaMoreRecent ChecksumGap
  dsimp only
  by_cases hgt : l1.data.lsSeqnum.toInt > l2.data.lsSeqnum.toInt
  · rw [if_pos hgt]
    refine iff_of_false (by omega) fun h => ?_
    rw [h.1] at hgt
    exact lt_irrefl _ hgt
  rw [if_neg hgt]
  by_cases hlt : l1.data.lsSeqnum.toInt<l2.data.lsSeqnum.toInt
  · rw [if_pos hlt]
    refine iff_of_false (by omega) fun h => ?_
    rw [h.1] at hlt
    exact lt_irrefl _ hlt
  have hseq : l1.data.lsSeqnum=l2.data.lsSeqnum := BitVec.eq_of_toInt_eq (by omega)
  rw [if_neg hlt,and_iff_right hseq]
  split
  · omega
  refine iff_of_false ?_ (by omega)
  split
  · omega
  split
  · omega
  split
  · omega
  · split <;> omega

/-- The key of an LSA: its type, and the prefix of `ls_prefix_set`. -/
def lsKey (type : BitVec 8) (id advRouter : BitVec 32) : ℕ := (type++id++advRouter).toNat

def LsaHeader.key (h : LsaHeader) : ℕ := lsKey h.type h.id h.advRouter

abbrev OspfLsdb := Store OspfLsa fun lsa => lsa.data.key

def ospfLsdbAdd (lsdb : OspfLsdb) (lsa : OspfLsa) : OspfLsdb := lsdb.insert lsa

def ospfLsdbLookup (lsdb : OspfLsdb) (lsa : OspfLsa) : Option OspfLsa := lsdb.lookup lsa.data.key

def ospfLsdbLookupById (lsdb : OspfLsdb) (type : BitVec 8) (id advRouter : BitVec 32) :
    Option OspfLsa :=
  lsdb.lookup (lsKey type id advRouter)

/-- `ospf_lsdb_delete`: only this LSA is deleted, and no other one with its
key. -/
def ospfLsdbDelete (lsdb : OspfLsdb) (lsa : OspfLsa) : OspfLsdb :=
  if ospfLsdbLookup lsdb lsa=some lsa then lsdb.erase lsa.data.key else lsdb

def ospfLsdbIsempty (lsdb : OspfLsdb) : Bool := lsdb.isEmpty

/-- `external_routing` of an area. -/
inductive ExternalRouting where
  | default | nssa | stub
  deriving DecidableEq, Repr

structure OspfArea where
  externalRouting : ExternalRouting
  lsdb : OspfLsdb

/-- `ospf_lsa_lookup` in an area; `asLsdb` is `lsdb` of `struct ospf`. -/
def ospfLsaLookup (asLsdb : OspfLsdb) (area : OspfArea) (type : BitVec 8)
    (id advRouter : BitVec 32) : Option OspfLsa :=
  match type.toNat with
  | 1 | 2 | 3 | 4 | 7 | 9 | 10 => ospfLsdbLookupById area.lsdb type id advRouter
  | 5 | 11 => ospfLsdbLookupById asLsdb type id advRouter
  | _ => none

def ospfLsaLookupByHeader (asLsdb : OspfLsdb) (area : OspfArea) (lsah : LsaHeader) :
    Option OspfLsa :=
  ospfLsaLookup asLsdb area lsah.type lsah.id lsah.advRouter

end RoutePlatform.LsaOperations
