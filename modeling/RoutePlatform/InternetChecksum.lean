import Mathlib

/-!
# The Internet checksum of `lib/checksum.c`

`in_cksum` adds the words as the host reads them and folds the carries back twice. RFC 1071 adds
network words and folds until no carry is left. Up to 65535 bytes the sum fits into 31 bits, so
two folds are enough.
-/

namespace RoutePlatform.InternetChecksum

open List Nat

/-- `u_char`. -/
abbrev Byte := BitVec 8

/-- The byte order of a host. -/
inductive ByteOrder where
  | little
  | big

/-- The `u_short` that two bytes of memory hold. -/
def loadShort : ByteOrder→Byte→Byte→ℕ
  | .little, a, b => a.toNat+256*b.toNat
  | .big, a, b => 256*a.toNat+b.toNat

/-- The memory of a `u_short`. -/
def storeShort (order : ByteOrder) (w : BitVec 16) : List Byte :=
  match order with
  | .little => [w.setWidth 8,(w>>>8).setWidth 8]
  | .big => [(w>>>8).setWidth 8,w.setWidth 8]

/-- The loop over the words and the odd byte, whose other half is zero. -/
def sumLoop (order : ByteOrder) : List Byte→ℕ→ℕ
  | [], sum => sum
  | [b], sum => sum+loadShort order b 0
  | a::b::rest, sum => sumLoop order rest (sum+loadShort order a b)

def inCksum (order : ByteOrder) (buf : List Byte) : BitVec 16 :=
  let sum := sumLoop order buf 0
  let sum := (sum>>>16)+(sum&&&0xffff)
  let sum := sum+(sum>>>16)
  ~~~BitVec.ofNat 16 sum

/-- The sum of the 16-bit words, the last one padded with a zero byte. -/
def wordSum (order : ByteOrder) : List Byte→ℕ
  | [] => 0
  | [b] => loadShort order b 0
  | a::b::rest => loadShort order a b+wordSum order rest

/-- `while (sum>>16) sum = (sum & 0xffff) + (sum >> 16)`. -/
def foldCarries (sum : ℕ) : ℕ := if sum>>>16=0 then sum else foldCarries ((sum&&&0xffff)+(sum>>>16))
termination_by sum
decreasing_by
  rw [shiftRight_eq_div_pow] at *
  rw [and_two_pow_sub_one_eq_mod sum 16]
  omega

/-- The definition of RFC 1071 over the words of one byte order. -/
def inCksumRfc (order : ByteOrder) (buf : List Byte) : BitVec 16 :=
  ~~~BitVec.ofNat 16 (foldCarries (wordSum order buf))

variable (order : ByteOrder)

theorem loadShort_le (a b : Byte) : loadShort order a b≤65535 := by
  cases order <;> dsimp only [loadShort] <;> omega

theorem loadShort_storeShort (w : BitVec 16) :
    ∃ a b, storeShort order w=[a,b] ∧ loadShort order a b=w.toNat := by
  cases order <;> refine ⟨_,_,rfl,?_⟩ <;> simp [loadShort,shiftRight_eq_div_pow] <;> omega

variable (buf : List Byte)

theorem sumLoop_eq (sum : ℕ) : sumLoop order buf sum=sum+wordSum order buf := by
  fun_induction wordSum order buf generalizing sum with
  | case1 | case2 b => rfl
  | case3 a b rest ih =>
    rw [sumLoop,ih]
    omega

theorem wordSum_le : wordSum order buf≤65535*((buf.length+1)/2) := by
  fun_induction wordSum order buf with
  | case1 => exact zero_le _
  | case2 b =>
    have hword := loadShort_le order b 0
    rw [length_singleton]
    omega
  | case3 a b rest ih =>
    have hword := loadShort_le order a b
    rw [length_cons,length_cons]
    omega

theorem wordSum_append (pre post : List Byte) (heven : Even pre.length) :
    wordSum order (pre++post)=wordSum order pre+wordSum order post := by
  fun_induction wordSum order pre with
  | case1 => rw [nil_append,zero_add]
  | case2 b => exact absurd heven not_even_one
  | case3 a b rest ih =>
    rw [length_cons,length_cons,even_add_one,even_add_one,not_not] at heven
    rw [cons_append,cons_append,wordSum,ih heven,add_assoc]

theorem fold_eq (sum : ℕ) : (sum&&&0xffff)+(sum>>>16)=sum%65536+sum/65536 := by
  rw [shiftRight_eq_div_pow,and_two_pow_sub_one_eq_mod sum 16]

theorem foldCarries_residue (sum : ℕ) :
    foldCarries sum≤65535 ∧ foldCarries sum%65535=sum%65535 ∧ (foldCarries sum=0 ↔ sum=0) := by
  fun_induction foldCarries sum with
  | case1 sum hfit =>
    rw [shiftRight_eq_div_pow] at hfit
    omega
  | case2 sum hbig ih =>
    rw [shiftRight_eq_div_pow] at hbig
    rw [fold_eq] at ih ⊢
    omega

theorem inCksumRfc_toNat : (inCksumRfc order buf).toNat=65535-foldCarries (wordSum order buf) := by
  have hle := (foldCarries_residue (wordSum order buf)).1
  rw [inCksumRfc,BitVec.toNat_not,BitVec.toNat_ofNat]
  omega

theorem residue_unique {a b : ℕ} (ha : a≤65535) (hb : b≤65535) (hmod : a%65535=b%65535)
    (hz : a=0 ↔ b=0) : a=b := by
  omega

theorem inCksum_eq_rfc (hlen : buf.length≤65535) : inCksum order buf=inCksumRfc order buf := by
  have hsum := wordSum_le order buf
  obtain ⟨hle,hmod,hz⟩ := foldCarries_residue (wordSum order buf)
  refine congrArg (~~~·) (BitVec.eq_of_toNat_eq ?_)
  rw [sumLoop_eq,zero_add,add_comm (_>>>16),fold_eq,shiftRight_eq_div_pow,
    show 2^16=65536 from rfl,BitVec.toNat_ofNat,BitVec.toNat_ofNat]
  generalize wordSum order buf=sum at *
  generalize htwice : sum%65536+sum/65536=twice
  have hbound : twice≤98302 := by omega
  have hend : (twice+twice/65536)%2^16=if twice<65536 then twice else twice-65535 := by
    split <;> omega
  rw [hend,mod_eq_of_lt (lt_succ_of_le hle)]
  refine residue_unique ?_ hle ?_ ?_ <;> split <;> omega

theorem complement_bytes {w : ℕ} (hw : w≤65535) :
    (65535-w)%256=255-w%256 ∧ (65535-w)/256%256=255-w/256 := by
  omega

theorem wordSum_little : (wordSum .little buf=0 ↔ wordSum .big buf=0) ∧
      (256*wordSum .big buf)%65535=wordSum .little buf%65535 := by
  fun_induction wordSum .little buf with
  | case1 => decide
  | case2 b =>
    dsimp only [wordSum,loadShort,BitVec.toNat_ofNat]
    omega
  | case3 a b rest ih =>
    dsimp only [wordSum,loadShort]
    omega

/-- Both byte orders leave the same bytes in memory. -/
theorem storeShort_inCksumRfc :
    storeShort order (inCksumRfc order buf)=storeShort .big (inCksumRfc .big buf) := by
  cases order with
  | big => rfl
  | little =>
    obtain ⟨hz,hmod⟩ := wordSum_little buf
    obtain ⟨hlow,hlowMod,hlowZero⟩ := foldCarries_residue (wordSum .little buf)
    obtain ⟨hhigh,hhighMod,hhighZero⟩ := foldCarries_residue (wordSum .big buf)
    have hlittle := inCksumRfc_toNat .little buf
    have hbig := inCksumRfc_toNat .big buf
    have hrotate : foldCarries (wordSum .little buf)=
        foldCarries (wordSum .big buf)%256*256+foldCarries (wordSum .big buf)/256 :=
      residue_unique hlow (by omega) (by omega) (by omega)
    refine congrArg₂ (fun a b => [a,b]) (BitVec.eq_of_toNat_eq ?_) (BitVec.eq_of_toNat_eq ?_)
    all_goals
      rw [BitVec.toNat_setWidth,BitVec.toNat_setWidth,BitVec.toNat_ushiftRight,
        shiftRight_eq_div_pow,show 2^8=256 from rfl,hlittle,hbig]
      have hl := complement_bytes hlow
      have hh := complement_bytes hhigh
      omega

/-- A checksum that is stored in its zeroed field makes the checksum of the buffer zero. -/
theorem inCksum_stored (pre post : List Byte) (hlen : (pre++0::0::post).length≤65535)
    (hpre : Even pre.length) :
    inCksum order (pre++storeShort order (inCksum order (pre++0::0::post))++post)=0 := by
  obtain ⟨a,b,hstore,hload⟩ := loadShort_storeShort order (inCksum order (pre++0::0::post))
  have hlong : (pre++[a,b]++post).length≤65535 := by simpa using hlen
  have hz : loadShort order 0 0=0 := by cases order <;> rfl
  have hold : wordSum order (pre++0::0::post)=wordSum order pre+wordSum order post := by
    rw [wordSum_append order pre _ hpre,wordSum,hz,zero_add]
  have hnew : wordSum order (pre++[a,b]++post)=
      wordSum order (pre++0::0::post)+(inCksum order (pre++0::0::post)).toNat := by
    rw [append_assoc,wordSum_append order pre _ hpre,cons_append,cons_append,nil_append,
      wordSum,hload,hold]
    omega
  obtain ⟨hle,hmod,hz⟩ := foldCarries_residue (wordSum order (pre++0::0::post))
  obtain ⟨hle',hmod',hz'⟩ := foldCarries_residue (wordSum order (pre++[a,b]++post))
  have hanswer := inCksumRfc_toNat order (pre++0::0::post)
  rw [hstore,inCksum_eq_rfc order _ hlong]
  refine BitVec.eq_of_toNat_eq ?_
  rw [inCksum_eq_rfc order _ hlen] at hnew
  rw [inCksumRfc_toNat,show BitVec.toNat (0 : BitVec 16)=0 from rfl]
  omega

/-- `in_cksum` is the checksum of RFC 1071, over host words and, in memory, network words; stored in
its zeroed field it makes the checksum of an even buffer zero. -/
theorem inCksum_rfc (buf : List Byte) (hlen : buf.length≤65535) :
    inCksum order buf=inCksumRfc order buf ∧
      storeShort order (inCksum order buf)=storeShort .big (inCksumRfc .big buf) ∧
      ∀ pre post, buf=pre++0::0::post → Even pre.length → Even post.length →
        inCksum order (pre++storeShort order (inCksum order buf)++post)=0 := by
  have hrfc := inCksum_eq_rfc order buf hlen
  refine ⟨hrfc,by rw [hrfc,storeShort_inCksumRfc],?_⟩
  intro pre post hbuf hpre _
  subst hbuf
  exact inCksum_stored order pre post hlen hpre

/-- An odd buffer, and one whose checksum goes into its second word, on a little-endian host. -/
theorem inCksum_rfc_little : inCksum .little [1,2,3]=inCksumRfc .little [1,2,3] ∧
      inCksum .little ([0xf0,1]++storeShort .little (inCksum .little [0xf0,1,0,0,0xab,7])++
        [0xab,7])=0 := by
  obtain ⟨hodd,-,-⟩ := inCksum_rfc .little [1,2,3] (by decide)
  obtain ⟨-,-,hstored⟩ := inCksum_rfc .little [0xf0,1,0,0,0xab,7] (by decide)
  exact ⟨hodd,hstored [0xf0,1] [0xab,7] rfl (by decide) (by decide)⟩

end RoutePlatform.InternetChecksum
