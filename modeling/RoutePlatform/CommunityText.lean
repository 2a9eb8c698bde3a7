import RoutePlatform.CommunityMatching
import RoutePlatform.DecimalText

/-!
# Communities as text

A sorted list of communities is printed into a buffer whose size is reckoned
before, and the parser reads the same list back. At the end of the text it adds
the last value once more, which sorting removes.
-/

namespace RoutePlatform.CommunityText

open AttrOperations CommunityMatching DecimalText List

def communityInternet : BitVec 32 := 0x0

def communityNoExport : BitVec 32 := 0xFFFFFF01

def communityNoAdvertise : BitVec 32 := 0xFFFFFF02

def communityLocalAs : BitVec 32 := 0xFFFFFF03

def valueStr (comval : BitVec 32) : List Char := if comval=communityInternet then "internet".toList
  else if comval=communityNoExport then "no-export".toList
  else if comval=communityNoAdvertise then "no-advertise".toList
  else if comval=communityLocalAs then "local-AS".toList
  else
    let as : BitVec 16 := (comval >>> 16).setWidth 16
    let val : BitVec 16 := comval.setWidth 16
    Nat.toDigits 10 as.toNat ++ ':' :: Nat.toDigits 10 val.toNat

/-- The room that is reckoned for one value. -/
def valueRoom (comval : BitVec 32) : ℕ := if comval=communityInternet then " internet".length
  else if comval=communityNoExport then " no-export".length
  else if comval=communityNoAdvertise then " no-advertise".length
  else if comval=communityLocalAs then " local-AS".length
  else " 65536:65535".length

/-- The bytes that `community_com2str` allocates. -/
def com2strLen (com : List (BitVec 32)) : ℕ := if com=[] then 1 else (com.map valueRoom).sum

/-- The text that `community_com2str` writes before the terminator. -/
def communityCom2str (com : List (BitVec 32)) : List Char :=
  ((com.map valueStr).intersperse [' ']).flatten

inductive CommunityToken where
  | val | noExport | noAdvertise | localAs | unknown
  deriving DecidableEq

/-- The loop of `community_gettoken` over a value: what is left and the value. -/
def valueLoop : List Char→Bool→Bool→BitVec 32→BitVec 32→Option (List Char × BitVec 32)
  | [], _, digit, low, high => if digit then some ([],high+low) else none
  | c::p, separator, digit, low, high =>
    if c = ':' then if separator then none else valueLoop p true false 0 (low <<< 16)
    else if c.isDigit then valueLoop p separator true (addDigit low c) high
    else if digit then some (c::p,high+low)
    else none

def keywords : List (List Char × CommunityToken × BitVec 32) :=
  [("internet".toList,.noExport,communityInternet),
    ("no-export".toList,.noExport,communityNoExport),
    ("no-advertise".toList,.noAdvertise,communityNoAdvertise),
    ("local-AS".toList,.localAs,communityLocalAs)]

def communityGettoken (buf : List Char) (token : CommunityToken) (val : BitVec 32) :
    Option (List Char) × CommunityToken × BitVec 32 :=
  match buf.dropWhile isspace with
  | [] => (none,token,val)
  | c::p =>
    if c.isAlpha then
      match keywords.find? fun k => k.1.isPrefixOf (c::p) with
      | some k => (some ((c::p).drop k.1.length),k.2)
      | none => (none,.unknown,val)
    else if c.isDigit then
      match valueLoop (c::p) false false 0 0 with
      | some (rest,value) => (some rest,.val,value)
      | none => (none,.unknown,val)
    else (none,.unknown,val)

def str2comLoop : ℕ→List Char → CommunityToken→BitVec 32→List (BitVec 32) →
    Option (List (BitVec 32))
  | 0, _, _, _, _ => none
  | fuel+1, str, token, val, com =>
    let (rest,token,val) := communityGettoken str token val
    if token=.unknown then none
    else
      match rest with
      | none => some (com++[val])
      | some str => str2comLoop fuel str token val (com++[val])

/-- `community_str2com`. Every turn but the last takes a character. -/
def communityStr2com (str : List Char) : Option (List (BitVec 32)) :=
  (str2comLoop (str.length+1) str .unknown 0 []).map communityUniqSort

theorem communityUniqSort_eq_iff {com com' : List (BitVec 32)} :
    communityUniqSort com=communityUniqSort com' ↔ ∀ v, v∈com ↔ v∈com' := by
  constructor
  · intro h v
    rw [←mem_communityUniqSort,h,mem_communityUniqSort]
  · intro h
    refine (pairwise_communityUniqSort com).eq_of_mem_iff (pairwise_communityUniqSort com')
      fun v => ?_
    rw [mem_communityUniqSort,mem_communityUniqSort,h]

theorem communityUniqSort_of_pairwise {com : List (BitVec 32)} (h : com.Pairwise (· < ·)) :
    communityUniqSort com=com :=
  (pairwise_communityUniqSort com).eq_of_mem_iff h fun _ => mem_communityUniqSort

/-- Digits are read into the low half. -/
theorem valueLoop_digits {ds : List Char} (hds : ∀ c∈ds, c.isDigit=true) (rest : List Char)
    (separator digit : Bool) (low high : BitVec 32) :
    valueLoop (ds++rest) separator digit low high =
      valueLoop rest separator (digit || !ds.isEmpty) (ds.foldl addDigit low) high := by
  induction ds generalizing digit low with
  | nil => simp
  | cons c ds ih =>
    have hc := hds c mem_cons_self
    have hcolon : c ≠ ':' := by
      rintro rfl
      cases hc
    rw [cons_append,valueLoop,if_neg hcolon,if_pos hc,
      ih fun c' hc' => hds c' (mem_cons_of_mem c hc')]
    simp

theorem valueLoop_toDigits (n : ℕ) (rest : List Char) (separator : Bool) (high : BitVec 32) :
    valueLoop (Nat.toDigits 10 n++rest) separator false 0 high =
      valueLoop rest separator true (BitVec.ofNat 32 n) high := by
  rw [valueLoop_digits (fun c hc => isDigit_toDigits hc),foldl_addDigit_toDigits]
  obtain ⟨c,ds,hds,-⟩ := exists_toDigits n
  rw [hds]
  rfl

def Ends (rest : List Char) : Prop := ∀ c∈rest.head?, c ≠ ':' ∧ c.isDigit=false

theorem valueLoop_end {rest : List Char} (h : Ends rest) (low high : BitVec 32) :
    valueLoop rest true true low high=some (rest,high+low) := by
  cases rest with
  | nil => rfl
  | cons c p =>
    obtain ⟨hcolon,hdigit⟩ := h c rfl
    rw [valueLoop,if_neg hcolon,if_neg (by rw [hdigit]; decide)]
    rfl

variable (v : BitVec 32)

theorem halves : BitVec.ofNat 32 ((v >>> 16).setWidth 16).toNat <<< 16 +
    BitVec.ofNat 32 (v.setWidth 16).toNat=v := by
  apply BitVec.eq_of_toNat_eq
  simp only [BitVec.toNat_add,BitVec.toNat_shiftLeft,BitVec.toNat_ofNat,BitVec.toNat_setWidth,
    BitVec.toNat_ushiftRight,Nat.shiftLeft_eq,Nat.shiftRight_eq_div_pow]
  omega

theorem communityGettoken_valueStr {rest : List Char} (h : Ends rest)
    (token : CommunityToken) (val : BitVec 32) : ∃ token',
      communityGettoken (valueStr v++rest) token val=(some rest,token',v) ∧ token' ≠ .unknown := by
  rw [valueStr]
  split
  · next hv => exact ⟨.noExport,hv ▸ rfl,by decide⟩
  split
  · next hv => exact ⟨.noExport,hv ▸ rfl,by decide⟩
  split
  · next hv => exact ⟨.noAdvertise,hv ▸ rfl,by decide⟩
  split
  · next hv => exact ⟨.localAs,hv ▸ rfl,by decide⟩
  refine ⟨.val,?_,by decide⟩
  obtain ⟨c,ds,hds,hc⟩ := exists_toDigits ((v >>> 16).setWidth 16).toNat
  have hloop : valueLoop (Nat.toDigits 10 ((v >>> 16).setWidth 16).toNat ++
      ':' :: (Nat.toDigits 10 (v.setWidth 16).toNat++rest)) false false 0 0=some (rest,v) := by
    rw [valueLoop_toDigits,valueLoop,if_pos rfl,if_neg (by decide),valueLoop_toDigits,
      valueLoop_end h,halves]
  rw [append_assoc,cons_append,communityGettoken]
  rw [hds] at hloop ⊢
  rw [cons_append] at hloop ⊢
  rw [dropWhile_cons_of_neg (by rw [isspace_of_isDigit hc]; decide)]
  simp only
  rw [if_neg (by rw [isAlpha_of_isDigit hc]; decide),if_pos hc,hloop]

variable (com : List (BitVec 32))

theorem communityCom2str_cons :
    communityCom2str (v::com)=valueStr v++com.flatMap fun w => ' ' :: valueStr w := by
  rw [communityCom2str,map_cons,flatten_intersperse_cons,flatMap_map]

theorem ends_flatMap : Ends (com.flatMap fun w => ' ' :: valueStr w) := by
  cases com with
  | nil => exact fun c hc => nomatch hc
  | cons w com =>
    rintro c ⟨⟩
    exact ⟨by decide,rfl⟩

theorem str2comLoop_flatMap {fuel : ℕ} {token : CommunityToken} (htoken : token ≠ .unknown)
    (val : BitVec 32) (com read : List (BitVec 32)) (hfuel : com.length<fuel) :
    ∃ x∈val::com, str2comLoop fuel (com.flatMap fun w => ' ' :: valueStr w) token val read =
      some (read++com++[x]) := by
  induction com generalizing fuel token val read with
  | nil =>
    obtain ⟨fuel,rfl⟩ := Nat.exists_eq_succ_of_ne_zero (ne_zero_of_lt hfuel)
    refine ⟨val,.head _,?_⟩
    rw [str2comLoop,flatMap_nil,communityGettoken,dropWhile_nil,append_nil]
    exact if_neg htoken
  | cons w com ih =>
    obtain ⟨fuel,rfl⟩ := Nat.exists_eq_succ_of_ne_zero (ne_zero_of_lt hfuel)
    obtain ⟨token',hget,htoken'⟩ := communityGettoken_valueStr w (ends_flatMap com) token val
    obtain ⟨x,hx,hloop⟩ := ih htoken' w (read++[w]) (Nat.lt_of_succ_lt_succ hfuel)
    have hskip : communityGettoken ((w::com).flatMap fun w => ' ' :: valueStr w) token val =
        communityGettoken (valueStr w++com.flatMap fun w => ' ' :: valueStr w) token val := by
      rw [communityGettoken,communityGettoken,flatMap_cons,cons_append,dropWhile_cons_of_pos rfl]
    refine ⟨x,mem_cons_of_mem val hx,?_⟩
    rw [str2comLoop,hskip,hget]
    simp only
    rw [if_neg htoken',hloop,append_assoc read,singleton_append]

theorem length_valueStr_pos : 0<(valueStr v).length := by
  rw [valueStr]
  split_ifs
  · decide
  · decide
  · decide
  · decide
  · exact length_pos_iff.mpr (append_ne_nil_of_right_ne_nil _ (cons_ne_nil _ _))

theorem length_lt_com2str : com.length<(communityCom2str (v::com)).length := by
  have hpos := length_valueStr_pos v
  rw [communityCom2str_cons,length_append,length_flatMap]
  have hle : com.length≤(com.map fun w => (' ' :: valueStr w).length).sum := by
    induction com with
    | nil => exact le_rfl
    | cons w com ih =>
      rw [map_cons,sum_cons,length_cons,length_cons]
      omega
  omega

theorem communityStr2com_com2str {com : List (BitVec 32)} (hcom : com≠[])
    (h : com.Pairwise (· < ·)) : communityStr2com (communityCom2str com)=some com := by
  obtain ⟨v,com,rfl⟩ := exists_cons_of_ne_nil hcom
  obtain ⟨token,hget,htoken⟩ := communityGettoken_valueStr v (ends_flatMap com) .unknown 0
  obtain ⟨x,hx,hloop⟩ := str2comLoop_flatMap htoken v com ([]++[v]) (length_lt_com2str v com)
  rw [←communityCom2str_cons] at hget
  rw [communityStr2com,str2comLoop,hget]
  simp only
  rw [if_neg htoken,hloop,Option.map_some]
  refine congrArg some ((communityUniqSort_eq_iff.mpr fun w => ?_).trans
    (communityUniqSort_of_pairwise h))
  rw [mem_append,mem_singleton]
  exact or_iff_left_of_imp fun hw => hw ▸ hx

theorem length_valueStr_lt : (valueStr v).length<valueRoom v := by
  have hhalf : ∀ n : BitVec 16, (Nat.toDigits 10 n.toNat).length≤5 := fun n =>
    (Nat.length_toDigits_le_iff (by decide) (by decide)).mpr (n.isLt.trans (by decide))
  rw [valueStr,valueRoom]
  split
  · decide
  split
  · decide
  split
  · decide
  split
  · decide
  have hhigh := hhalf ((v >>> 16).setWidth 16)
  have hlow := hhalf (v.setWidth 16)
  rw [length_append,length_cons]
  change _<12
  omega

theorem length_com2str_lt : (communityCom2str com).length<com2strLen com := by
  cases com with
  | nil => decide
  | cons v com =>
    rw [com2strLen,if_neg (cons_ne_nil v com),communityCom2str_cons,length_append,
      map_cons,sum_cons,length_flatMap]
    refine add_lt_add_of_lt_of_le (length_valueStr_lt v) (sum_le_sum fun w _ => ?_)
    exact length_valueStr_lt w

/-- `community_uniq_sort` yields the increasing list, which is read back from its text; the text
fits. -/
theorem communityUniqSort_text (com com' : List (BitVec 32)) :
    (communityUniqSort com).Pairwise (· < ·) ∧ (∀ v, v∈communityUniqSort com ↔ v∈com) ∧
      communityUniqSort (communityUniqSort com)=communityUniqSort com ∧
      (communityUniqSort com=communityUniqSort com' ↔ ∀ v, v∈com ↔ v∈com') ∧
      (communityUniqSort com=[] ∨ communityStr2com (communityCom2str (communityUniqSort com)) =
          some (communityUniqSort com)) ∧
      (communityCom2str (communityUniqSort com)).length+1 ≤
        com2strLen (communityUniqSort com) := by
  have hsorted := pairwise_communityUniqSort com
  refine ⟨hsorted,fun _ => mem_communityUniqSort,communityUniqSort_of_pairwise hsorted,
    communityUniqSort_eq_iff,?_,length_com2str_lt _⟩
  exact or_iff_not_imp_left.mpr fun hne => communityStr2com_com2str hne hsorted

end RoutePlatform.CommunityText
