import Mathlib

/-!
# The Fletcher checksum of `lib/checksum.c`

Two sums run over the bytes, reduced modulo 255 after each block. The check bytes
are chosen so that both sums of the finished buffer are multiples of 255. A sum that
does not fit into an `int` ends the run without a result.
-/

namespace RoutePlatform.FletcherChecksum

open List Option Nat

/-- `u_char`. -/
abbrev Byte := BitVec 8

def modx : ℕ := 4102

def fletcherChecksumValidate : ℕ := 0xffff

/-- The result of an addition of non-negative `int`s. -/
def toInt (n : ℕ) : Option ℕ := if n<2^31 then some n else none

structure Sums where
  /-- The sum of the bytes. -/
  c0 : ℕ
  c1 : ℕ
  deriving DecidableEq

/-- The inner loop over the bytes of a block. -/
def blockLoop : List Byte→Sums→Option Sums
  | [], s => some s
  | b::rest, s => do
    let c0 ← toInt (s.c0+b.toNat)
    let c1 ← toInt (s.c1+c0)
    blockLoop rest ⟨c0,c1⟩

/-- The outer loop over the bytes that are left. -/
def sumLoop (left : List Byte) (s : Sums) : Option Sums := if left=[] then some s
  else do
    let s ← blockLoop (left.take modx) s
    sumLoop (left.drop modx) ⟨s.c0%255,s.c1%255⟩
termination_by left.length
decreasing_by
  rename_i hne
  have hpos := length_pos_iff.mpr hne
  rw [length_drop,modx]
  omega

/-- The first check byte, with the product taken in `size_t` and cast to `int`. -/
def checkX (len offset : ℕ) (s : Sums) : ℤ :=
  let x := (Int.bmod (((len-offset-1 : ℤ)*s.c0-s.c1)%2^64) (2^32)).tmod 255
  if x≤0 then x+255 else x

def checkY (s : Sums) (x : ℤ) : ℤ :=
  let y := 510-s.c0-x
  if y > 255 then y-255 else y

/-- `htons` on a host of this byte order. -/
def htons (bigEndian : Bool) (w : BitVec 16) : BitVec 16 :=
  if bigEndian then w else (w <<< 8) ||| (w >>> 8)

/-- The bytes of a word in the memory of the host. -/
def memoryBytes (bigEndian : Bool) (w : BitVec 16) : List Byte :=
  if bigEndian then [(w >>> 8).setWidth 8,w.setWidth 8] else [w.setWidth 8,(w >>> 8).setWidth 8]

/-- `fletcher_checksum`; failed assertions and writes outside have no result. -/
def fletcherChecksum (bigEndian : Bool) (buffer : List Byte) (offset : ℕ) :
    Option (BitVec 16 × List Byte) :=
  if offset=fletcherChecksumValidate then do
    let s ← sumLoop buffer ⟨0,0⟩
    return (BitVec.ofNat 16 (s.c1*2^8+s.c0),buffer)
  else if offset+1<buffer.length then do
    let cleared := (buffer.set offset 0).set (offset+1) 0
    let s ← sumLoop cleared ⟨0,0⟩
    let x := checkX buffer.length offset s
    let y := checkY s x
    return (htons bigEndian ((BitVec.ofInt 16 x <<< 8) ||| (BitVec.ofInt 16 y &&& 0xff)),
      (cleared.set offset (BitVec.ofInt 8 x)).set (offset+1) (BitVec.ofInt 8 y))
  else none

def total : List Byte→ℕ
  | [] => 0
  | b::rest => b.toNat+total rest

/-- The sum with each byte counted once for itself and once for each byte after it. -/
def weighted : List Byte→ℕ
  | [] => 0
  | b::rest => (rest.length+1)*b.toNat+weighted rest

variable (a b : List Byte)

theorem total_append : total (a++b)=total a+total b := by
  induction a with
  | nil => exact (zero_add _).symm
  | cons x a ih => rw [cons_append,total,total,ih,add_assoc]

theorem weighted_append : weighted (a++b)=weighted a+b.length*total a+weighted b := by
  induction a with
  | nil => simp [weighted,total]
  | cons x a ih =>
    rw [cons_append,weighted,weighted,total,ih,length_append]
    ring

theorem total_le : total a≤255*a.length := by
  induction a with
  | nil => exact le_refl 0
  | cons x a ih =>
    rw [total,length_cons]
    omega

theorem weighted_le : 2*weighted a≤255*(a.length*(a.length+1)) := by
  induction a with
  | nil => exact le_refl 0
  | cons x a ih =>
    have hx : (a.length+1)*x.toNat≤(a.length+1)*255 :=
      mul_le_mul_left _ (le_of_lt_succ x.isLt)
    rw [weighted,length_cons]
    linarith

variable {bytes : List Byte} {s : Sums}

theorem blockLoop_eq (h0 : s.c0+total bytes<2^31)
    (h1 : s.c1+bytes.length*s.c0+weighted bytes<2^31) :
    blockLoop bytes s = some ⟨s.c0+total bytes,s.c1+bytes.length*s.c0+weighted bytes⟩ := by
  induction bytes generalizing s with
  | nil => simp [blockLoop,total,weighted]
  | cons b rest ih =>
    rw [total] at h0
    rw [weighted,length_cons] at h1
    have hsum : s.c1+(rest.length+1)*s.c0+((rest.length+1)*b.toNat+weighted rest) =
        s.c1+(s.c0+b.toNat)+rest.length*(s.c0+b.toNat)+weighted rest := by ring
    rw [hsum] at h1
    have hc0 : toInt (s.c0+b.toNat)=some (s.c0+b.toNat) := if_pos (by omega)
    have hc1 : toInt (s.c1+(s.c0+b.toNat))=some (s.c1+(s.c0+b.toNat)) := if_pos (by omega)
    rw [blockLoop,hc0,bind_eq_bind,bind_some,hc1,bind_some,
      ih (by rw [add_assoc]; exact h0) h1,total,weighted,length_cons,hsum,
      add_assoc s.c0]

theorem blockLoop_take (h0 : s.c0<255) (h1 : s.c1<255) :
    blockLoop (bytes.take modx) s=some ⟨s.c0+total (bytes.take modx),
      s.c1+(bytes.take modx).length*s.c0+weighted (bytes.take modx)⟩ := by
  have hlen : (bytes.take modx).length≤4102 := length_take_le modx bytes
  have htotal := total_le (bytes.take modx)
  have hweighted := weighted_le (bytes.take modx)
  have hsquare : (bytes.take modx).length*((bytes.take modx).length+1)≤4102*4103 :=
    Nat.mul_le_mul hlen (Nat.add_le_add_right hlen 1)
  have hstart := mul_le_mul hlen (le_of_lt_succ h0)
  exact blockLoop_eq (by omega) (by omega)

/-- The sums of the bytes modulo 255, from these sums on. -/
def reduced (bytes : List Byte) (s : Sums) : Sums :=
  ⟨(s.c0+total bytes)%255,(s.c1+bytes.length*s.c0+weighted bytes)%255⟩

theorem reduced_append (s : Sums) : reduced (a++b) s=reduced b (reduced a s) := by
  have hsum : s.c1+(a.length+b.length)*s.c0+(weighted a+b.length*total a+weighted b) =
      (s.c1+a.length*s.c0+weighted a)+b.length*(s.c0+total a)+weighted b := by ring
  rw [reduced,reduced,reduced,total_append,weighted_append,length_append,hsum,Sums.mk.injEq]
  constructor
  · rw [mod_add_mod,add_assoc]
  · exact Nat.ModEq.add_right _ (Nat.ModEq.add (mod_modEq _ _).symm
      (Nat.ModEq.mul_left _ (mod_modEq _ _).symm))

theorem sumLoop_eq (h0 : s.c0<255) (h1 : s.c1<255) : sumLoop bytes s=some (reduced bytes s) := by
  induction hn : bytes.length using Nat.strong_induction_on generalizing bytes s with
  | _ n ih =>
    by_cases hne : bytes=[]
    · subst hne
      rw [sumLoop,if_pos rfl,reduced,total,weighted,length_nil,Nat.zero_mul,
        add_zero,Nat.mod_eq_of_lt h0,Nat.add_zero,Nat.mod_eq_of_lt h1]
    have hpos := length_pos_iff.mpr hne
    have hlt : (bytes.drop modx).length<n := by
      rw [length_drop,modx]
      omega
    rw [sumLoop,if_neg hne,blockLoop_take h0 h1,bind_eq_bind,bind_some,
      ih _ hlt (mod_lt _ (by decide)) (mod_lt _ (by decide)) rfl]
    conv_rhs => rw [←take_append_drop modx bytes,reduced_append]
    rfl

variable {len offset : ℕ}

theorem checkX_eq (hlen : len≤65535) (hoffset : offset<len) (h0 : s.c0<255) (h1 : s.c1<255) :
    Int.bmod (((len-offset-1 : ℤ)*s.c0-s.c1)%2^64) (2^32) = (len-offset-1 : ℤ)*s.c0-s.c1 := by
  have hlow : (0 : ℤ)≤(len-offset-1 : ℤ)*s.c0 := mul_nonneg (by omega) (by omega)
  have hhigh : (len-offset-1 : ℤ)*s.c0≤65535*255 :=
    mul_le_mul (by omega) (by omega) (by omega) (by omega)
  rw [Int.bmod_def,Int.emod_emod_of_dvd _ (by decide)]
  omega

theorem checkX_spec (hlen : len≤65535) (hoffset : offset<len) (h0 : s.c0<255) (h1 : s.c1<255) :
    1≤checkX len offset s ∧ checkX len offset s≤255 ∧
      255 ∣ checkX len offset s-((len-offset-1 : ℤ)*s.c0-s.c1) := by
  rw [checkX,checkX_eq hlen hoffset h0 h1]
  generalize (len-offset-1 : ℤ)*s.c0-s.c1=d
  have hdvd : 255 ∣ d.tmod 255-d := by
    have h := Int.mul_tdiv_add_tmod d 255
    exact ⟨-d.tdiv 255,by omega⟩
  have hlow := Int.lt_tmod_of_pos d (by decide : (0 : ℤ)<255)
  have hhigh := Int.tmod_lt_of_pos d (by decide : (0 : ℤ)<255)
  split <;> omega

theorem checkY_spec {x : ℤ} (h0 : s.c0<255) (hx : 1≤x) (hx' : x≤255) :
    1≤checkY s x ∧ checkY s x≤255 ∧ 255 ∣ s.c0+x+checkY s x := by
  rw [checkY]
  split <;> omega

theorem memoryBytes_htons (bigEndian : Bool) (w : BitVec 16) :
    memoryBytes bigEndian (htons bigEndian w)=[(w >>> 8).setWidth 8,w.setWidth 8] := by
  cases bigEndian with
  | false =>
    have hlow : ((w <<< 8) ||| (w >>> 8)).setWidth 8=(w >>> 8).setWidth 8 := by
      ext i hi
      interval_cases i <;> simp
    have hhigh : (((w <<< 8) ||| (w >>> 8)) >>> 8).setWidth 8=w.setWidth 8 := by
      ext i hi
      interval_cases i <;> simp
    exact congrArg₂ (fun a b => [a,b]) hlow hhigh
  | true => rfl

theorem checksum_bytes (x y : BitVec 16) :
    (((x <<< 8) ||| (y &&& 0xff)) >>> 8).setWidth 8=x.setWidth 8 ∧
      ((x <<< 8) ||| (y &&& 0xff)).setWidth 8=y.setWidth 8 := by
  constructor <;> ext i hi <;> interval_cases i <;> simp

theorem setWidth_ofInt (n : ℤ) : (BitVec.ofInt 16 n).setWidth 8=BitVec.ofInt 8 n := by
  apply BitVec.eq_of_toNat_eq
  rw [BitVec.toNat_setWidth,BitVec.toNat_ofInt,BitVec.toNat_ofInt]
  omega

theorem toNat_ofInt {n : ℤ} (h : 1≤n) (h' : n≤255) : ((BitVec.ofInt 8 n).toNat : ℤ)=n := by
  rw [BitVec.toNat_ofInt]
  omega

theorem set_pair (u v x y : Byte) (b : List Byte) :
    ((a++u::v::b).set a.length x).set (a.length+1) y=a++x::y::b := by
  rw [set_append_right _ _ (le_refl _),Nat.sub_self,set_cons_zero,
    set_append_right _ _ (Nat.le_succ _),Nat.succ_sub (le_refl _),Nat.sub_self]
  rfl

theorem exists_cut {buffer : List Byte} (h : offset+1<buffer.length) :
    ∃ a u v b, buffer=a++u::v::b ∧ a.length=offset := by
  refine ⟨buffer.take offset,buffer[offset],buffer[offset+1],buffer.drop (offset+2),?_,?_⟩
  · rw [getElem_cons_drop,getElem_cons_drop,take_append_drop]
  rw [length_take]
  omega

variable (x y : Byte)

theorem total_pair (b : List Byte) : total (a++x::y::b)=total (a++0::0::b)+x.toNat+y.toNat := by
  have hz : (0 : Byte).toNat=0 := rfl
  rw [total_append,total_append,total,total,total,total,hz]
  omega

theorem weighted_pair (b : List Byte) : weighted (a++x::y::b) =
      weighted (a++0::0::b)+(b.length+2)*x.toNat+(b.length+1)*y.toNat := by
  have hz : (0 : Byte).toNat=0 := rfl
  rw [weighted_append,weighted_append,weighted,weighted,weighted,weighted,hz]
  simp only [length_cons]
  ring

/-- Check bytes chosen for the cleared buffer make both sums vanish. -/
theorem reduced_checked {a b : List Byte} (hlen : len=a.length+b.length+2) (hmax : len≤65535)
    {x y : ℤ} (hx : x=checkX len a.length (reduced (a++0::0::b) ⟨0,0⟩))
    (hy : y=checkY (reduced (a++0::0::b) ⟨0,0⟩) x) :
    (1≤x ∧ x≤255) ∧ (1≤y ∧ y≤255) ∧
      reduced (a++BitVec.ofInt 8 x::BitVec.ofInt 8 y::b) ⟨0,0⟩=⟨0,0⟩ := by
  have h0 : (reduced (a++0::0::b) ⟨0,0⟩).c0<255 := mod_lt _ (by decide)
  have h1 : (reduced (a++0::0::b) ⟨0,0⟩).c1<255 := mod_lt _ (by decide)
  obtain ⟨hx1,hx2,hxdvd⟩ := @checkX_spec _ len a.length hmax (by omega) h0 h1
  rw [←hx] at hx1 hx2 hxdvd
  obtain ⟨hy1,hy2,hydvd⟩ := checkY_spec h0 hx1 hx2
  rw [←hy] at hy1 hy2 hydvd
  refine ⟨⟨hx1,hx2⟩,⟨hy1,hy2⟩,?_⟩
  rw [reduced,total_pair,weighted_pair,Sums.mk.injEq]
  rw [reduced] at hxdvd hydvd
  simp only [mul_zero,zero_add] at hxdvd hydvd ⊢
  have hlength : (len-a.length-1 : ℤ)=b.length+1 := by omega
  rw [hlength] at hxdvd
  have hxn := toNat_ofInt hx1 hx2
  have hyn := toNat_ofInt hy1 hy2
  generalize total (a++0::0::b)=t at hxdvd hydvd ⊢
  generalize weighted (a++0::0::b)=w at hxdvd hydvd ⊢
  have hw : (255 : ℤ) ∣ w-(w%255 : ℕ) := by omega
  have hc0 : (255 : ℤ) ∣ t+x+y := by omega
  have hc1 : (255 : ℤ) ∣ w+(b.length+2)*x+(b.length+1)*y := by
    have hsum : (w+(b.length+2)*x+(b.length+1)*y : ℤ) =
        (w-(w%255 : ℕ))+(x-((b.length+1)*(t%255 : ℕ)-(w%255 : ℕ))) +
          (b.length+1)*((t%255 : ℕ)+x+y) := by ring
    rw [hsum]
    exact dvd_add (dvd_add hw hxdvd) (Dvd.dvd.mul_left hydvd _)
  rw [←hxn,←hyn] at hc0 hc1
  exact ⟨mod_eq_zero_of_dvd (by exact_mod_cast hc0),
    mod_eq_zero_of_dvd (by exact_mod_cast hc1)⟩

theorem fletcherChecksum_cut (bigEndian : Bool) (a : List Byte) (u v : Byte) (b : List Byte)
    (hmax : (a++u::v::b).length≤65535) :
    ∃ x y : Byte, 1≤x.toNat ∧ 1≤y.toNat ∧
      (∃ checksum, fletcherChecksum bigEndian (a++u::v::b) a.length =
        some (checksum,a++x::y::b) ∧ memoryBytes bigEndian checksum=[x,y]) ∧
      reduced (a++x::y::b) ⟨0,0⟩=⟨0,0⟩ := by
  have hlen : (a++u::v::b).length=a.length+b.length+2 := by
    rw [length_append,length_cons,length_cons]
    omega
  have hne : a.length≠fletcherChecksumValidate := by
    rw [fletcherChecksumValidate]
    omega
  obtain ⟨x,hx⟩ : ∃ x, x=checkX (a++u::v::b).length a.length (reduced (a++0::0::b) ⟨0,0⟩) := ⟨_,rfl⟩
  obtain ⟨y,hy⟩ : ∃ y, y=checkY (reduced (a++0::0::b) ⟨0,0⟩) x := ⟨_,rfl⟩
  obtain ⟨hx',hy',hz⟩ := reduced_checked hlen hmax hx hy
  have hxn := toNat_ofInt hx'.1 hx'.2
  have hyn := toNat_ofInt hy'.1 hy'.2
  refine ⟨BitVec.ofInt 8 x,BitVec.ofInt 8 y,by omega,by omega,
    ⟨htons bigEndian ((BitVec.ofInt 16 x <<< 8) ||| (BitVec.ofInt 16 y &&& 0xff)),?_,?_⟩,hz⟩
  · rw [fletcherChecksum,if_neg hne,if_pos (by omega)]
    dsimp only
    rw [set_pair,sumLoop_eq (by decide) (by decide),bind_eq_bind,bind_some,←hx,← hy,set_pair]
    rfl
  rw [memoryBytes_htons,(checksum_bytes _ _).1,(checksum_bytes _ _).2,setWidth_ofInt,setWidth_ofInt]

/-- For every buffer and place the checksum does not overflow, changes only the check bytes, and
verifies. -/
theorem fletcherChecksum_verifies (bigEndian : Bool) (buffer : List Byte) (offset : ℕ)
    (hmax : buffer.length≤65535) (hoffset : offset<buffer.length-1) :
    ∃ checksum written, fletcherChecksum bigEndian buffer offset=some (checksum,written) ∧
      written.length=buffer.length ∧
      (∀ i, i≠offset → i≠offset+1 → written[i]? = buffer[i]?) ∧
      (∃ x y : Byte, written[offset]? = some x ∧ written[offset+1]? = some y ∧
        1≤x.toNat ∧ 1≤y.toNat ∧ memoryBytes bigEndian checksum=[x,y]) ∧
      fletcherChecksum bigEndian written fletcherChecksumValidate=some (0,written) := by
  obtain ⟨a,u,v,b,rfl,rfl⟩ := exists_cut (by omega : offset+1<buffer.length)
  obtain ⟨x,y,hx,hy,⟨checksum,hrun,hbytes⟩,hzero⟩ := fletcherChecksum_cut bigEndian a u v b hmax
  refine ⟨checksum,a++x::y::b,hrun,?_,?_,⟨x,y,?_,?_,hx,hy,hbytes⟩,?_⟩
  · rw [length_append,length_append]
    rfl
  · intro i hi hi'
    rcases lt_or_ge i a.length with hlt|hge
    · rw [getElem?_append_left hlt,getElem?_append_left hlt]
    obtain ⟨k,hk⟩ : ∃ k, i-a.length=k+2 := ⟨i-a.length-2,by omega⟩
    rw [getElem?_append_right hge,getElem?_append_right hge,hk]
    rfl
  · rw [getElem?_append_right (le_refl _),Nat.sub_self]
    rfl
  · rw [getElem?_append_right (Nat.le_succ _),Nat.succ_sub (le_refl _),Nat.sub_self]
    rfl
  rw [fletcherChecksum,if_pos rfl,sumLoop_eq (by decide) (by decide),hzero]
  rfl

/-- An LSA whose check bytes are behind the twelfth. -/
def sampleLsa : List Byte := [2,1,10,0,0,1,10,0,0,1,128,0,0,1,0,36,7,9,255,255,0,0,3,0]

theorem fletcherChecksum_verifies_sampleLsa :
    ∃ checksum written, fletcherChecksum false sampleLsa 12=some (checksum,written) ∧
      written.length=24 ∧ (∀ i, i≠12 → i≠12+1 → written[i]? = sampleLsa[i]?) ∧
      (∃ x y : Byte, written[12]? = some x ∧ written[12+1]? = some y ∧
        1≤x.toNat ∧ 1≤y.toNat ∧ memoryBytes false checksum=[x,y]) ∧
      fletcherChecksum false written fletcherChecksumValidate=some (0,written) :=
  fletcherChecksum_verifies false sampleLsa 12 (by decide) (by decide)

end RoutePlatform.FletcherChecksum
