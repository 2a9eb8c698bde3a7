import RoutePlatform.AttrHashing

/-!
# Matching of community attributes

`community_match` of `bgpd/bgp_community.c` and `ecommunity_match` of
`bgpd/bgp_ecommunity.c`, on the lists that the `uniq_sort` functions make. The second one
steps through the values byte by byte.
-/

namespace RoutePlatform.CommunityMatching

open AttrOperations AttrHashing List

variable {v : BitVec 32} {new : List (BitVec 32)} {α : Type} (com : List (BitVec 32))
  (ecom : List (BitVec 64)) {ecom1 ecom2 : List (BitVec 64)}

theorem mem_addOnce {com : List (BitVec 32)} :
    v∈com.foldl (fun new val => if val∈new then new else new++[val]) new ↔ v∈new ∨ v∈com := by
  induction com generalizing new with
  | nil => simp
  | cons val com ih =>
    rw [foldl_cons,ih,mem_cons]
    split
    · rename_i hmem
      constructor
      · rintro (h|h)
        · exact .inl h
        · exact .inr (.inr h)
      · rintro (h|rfl|h)
        · exact .inl h
        · exact .inl hmem
        · exact .inr h
    · rw [mem_append,mem_singleton,or_assoc]

theorem nodup_addOnce (h : new.Nodup) :
    (com.foldl (fun new val => if val∈new then new else new++[val]) new).Nodup := by
  induction com generalizing new with
  | nil => exact h
  | cons val com ih =>
    rw [foldl_cons]
    apply ih
    split
    · exact h
    rename_i hmem
    exact nodup_append_comm.mp (nodup_cons.mpr ⟨hmem,h⟩)

theorem mem_communityUniqSort {com : List (BitVec 32)} : v∈communityUniqSort com ↔ v∈com := by
  rw [communityUniqSort,mem_insertionSort,mem_addOnce]
  simp

theorem pairwise_communityUniqSort : (communityUniqSort com).Pairwise (· < ·) := by
  have hsrt := pairwise_insertionSort (α := BitVec 32) (· ≤ ·)
    (com.foldl (fun new val => if val∈new then new else new++[val]) [])
  have hnd := (perm_insertionSort (α := BitVec 32) (· ≤ ·) _).nodup_iff.mpr
    (nodup_addOnce com nodup_nil)
  exact (hsrt.and hnd).imp fun h => BitVec.lt_of_le_ne h.1 h.2

def ecommunityUniqSort (ecom : List (BitVec 64)) : List (BitVec 64) :=
  ecom.foldl (fun new eval => ecommunityAddVal eval new) []

/-- The loop of the match functions over the elements that are left. -/
def matchLoop {α : Type} [DecidableEq α] : List α→List α→Bool
  | _, [] => true
  | [], _::_ => false
  | c1::com1, c2::com2 => if c1=c2 then matchLoop com1 com2 else matchLoop com1 (c2::com2)

def communityMatch : Option (List (BitVec 32))→Option (List (BitVec 32))→Bool
  | none, none => true
  | some com1, some com2 => if com1.length<com2.length then false else matchLoop com1 com2
  | _, _ => false

/-- The eight bytes at `val + i`, for each index `i` below the size. -/
def windows (ecom : List (BitVec 64)) : List (List (BitVec 8)) :=
  (List.range ecom.length).map fun i => ((ecom.flatMap bytes64).drop i).take 8

def ecommunityMatch : Option (List (BitVec 64))→Option (List (BitVec 64))→Bool
  | none, none => true
  | some ecom1, some ecom2 =>
    if ecom1.length<ecom2.length then false else matchLoop (windows ecom1) (windows ecom2)
  | _, _ => false

theorem matchLoop_iff [DecidableEq α] {com1 com2 : List α} :
    matchLoop com1 com2=true ↔ com2.Sublist com1 := by
  induction com1 generalizing com2 with
  | nil =>
    cases com2 with
    | nil => exact iff_of_true rfl (List.Sublist.refl _)
    | cons c2 com2 => exact iff_of_false Bool.false_ne_true (by simp)
  | cons c1 com1 ih =>
    cases com2 with
    | nil => exact iff_of_true rfl (nil_sublist _)
    | cons c2 com2 =>
      rw [matchLoop]
      split
      · rename_i heq
        rw [ih,heq,cons_sublist_cons]
      rename_i hne
      rw [ih,cons_sublist_cons',or_iff_left fun h => hne h.1.symm]

theorem sublist_iff_subset {w : ℕ} {l1 l2 : List (BitVec w)}
    (h1 : l1.Pairwise (· < ·)) (h2 : l2.Pairwise (· < ·)) :
    l2.Sublist l1 ↔ ∀ v∈l2, v∈l1 := by
  refine ⟨fun h v hv => h.subset hv,fun h => ?_⟩
  have hsubperm := subperm_of_subset (h2.imp BitVec.ne_of_lt) h
  exact sublist_of_subperm_of_pairwise hsubperm h2 h1

theorem lengthCheck_iff [DecidableEq α] {l1 l2 : List α} :
    (if l1.length<l2.length then false else matchLoop l1 l2)=true ↔ l2.Sublist l1 := by
  split
  · rename_i hlt
    exact iff_of_false Bool.false_ne_true fun h => absurd h.length_le (not_le.mpr hlt)
  · exact matchLoop_iff

theorem communityMatch_iff {com1 com2 : List (BitVec 32)} (h1 : com1.Pairwise (· < ·))
    (h2 : com2.Pairwise (· < ·)) :
    communityMatch (some com1) (some com2)=true ↔ ∀ v∈com2, v∈com1 :=
  lengthCheck_iff.trans (sublist_iff_subset h1 h2)

theorem length_windows : (windows ecom).length=ecom.length := by
  rw [windows,length_map,length_range]

theorem ecommunityMatch_iff :
    ecommunityMatch (some ecom1) (some ecom2)=true ↔ (windows ecom2).Sublist (windows ecom1) := by
  rw [ecommunityMatch,←length_windows ecom1,←length_windows ecom2]
  exact lengthCheck_iff

/-- The bytes of an attribute that the match looks at. -/
def seenBytes (ecom : List (BitVec 64)) : List (BitVec 8) :=
  (ecom.flatMap bytes64).take (ecom.length+7)

theorem length_flatMap_bytes64 : (ecom.flatMap bytes64).length=8*ecom.length := by
  induction ecom with
  | nil => rfl
  | cons v ecom ih =>
    rw [flatMap_cons,length_append,ih,length_cons,mul_add,add_comm]
    rfl

theorem windows_eq :
    windows ecom=(range ecom.length).map fun i => ((seenBytes ecom).drop i).take 8 := by
  refine map_congr_left fun i hi => ?_
  have hlt := mem_range.mp hi
  rw [seenBytes,drop_take,take_take,min_eq_left (by omega)]

/-- What stands together in the bytes of an attribute is found in its windows. -/
theorem windows_sublist (h : seenBytes ecom2 <:+: seenBytes ecom1) :
    (windows ecom2).Sublist (windows ecom1) := by
  obtain ⟨s,t,hst⟩ := h
  have hlen := congrArg length hst
  rw [length_append,length_append,seenBytes,seenBytes,length_take,length_take,
    length_flatMap_bytes64,length_flatMap_bytes64] at hlen
  have hpart : windows ecom2=((windows ecom1).drop s.length).take ecom2.length := by
    refine ext_getElem ?_ fun i hi _ => ?_
    · rw [length_take,length_drop,length_windows,length_windows]
      omega
    rw [length_windows] at hi
    have hin : 8≤((seenBytes ecom2).drop i).length := by
      rw [length_drop,seenBytes,length_take,length_flatMap_bytes64]
      omega
    simp only [windows_eq,getElem_take,getElem_drop,getElem_map,getElem_range]
    rw [←hst,append_assoc,drop_append,drop_eq_nil_of_le (Nat.le_add_right _ _),nil_append,
      Nat.add_sub_cancel_left,drop_append_of_le_length,take_append_of_le_length hin]
    rw [seenBytes,length_take,length_flatMap_bytes64]
    omega
  rw [hpart]
  exact (take_sublist _ _).trans (drop_sublist _ _)

/-- The bytes that the match looks at tell whether an attribute is included: it is too long, or
is included and its bytes stand together in the other's, or is not and has eight bytes that the
other has nowhere. -/
def BytesTell (ecom1 ecom2 : List (BitVec 64)) : Prop :=
  ecom1.length<ecom2.length ∨ ((∀ v∈ecom2, v∈ecom1) ∧ seenBytes ecom2 <:+: seenBytes ecom1) ∨
    (¬(∀ v∈ecom2, v∈ecom1) ∧ ∃ w∈windows ecom2, w ∉ windows ecom1)

/-- Community matching is inclusion; the extended one where the bytes tell it. -/
theorem match_inclusion {ecom1 ecom2 : List (BitVec 64)} {com1 com2 : List (BitVec 32)}
    (hecom2 : ecom2.Pairwise (· < ·)) (hcom1 : com1.Pairwise (· < ·))
    (hcom2 : com2.Pairwise (· < ·)) (h : BytesTell ecom1 ecom2) :
    (ecommunityMatch (some ecom1) (some ecom2)=true ↔ ∀ v∈ecom2, v∈ecom1) ∧
      (communityMatch (some com1) (some com2)=true ↔ ∀ v∈com2, v∈com1) := by
  refine ⟨ecommunityMatch_iff.trans ?_,communityMatch_iff hcom1 hcom2⟩
  rcases h with hlong|⟨hsub,hbytes⟩|⟨hsub,w,hw,hout⟩
  · refine iff_of_false (fun h => ?_) fun h => ?_
    · have hle := h.length_le
      rw [length_windows,length_windows] at hle
      omega
    · have hle := (subperm_of_subset (hecom2.imp BitVec.ne_of_lt) h).length_le
      omega
  · exact iff_of_true (windows_sublist hbytes) hsub
  · exact iff_of_false (fun h => hout (h.subset hw)) hsub

/-- The first two of three route targets are found, and another one is not. -/
theorem match_inclusion_uniqSort :
    ((ecommunityMatch (some (ecommunityUniqSort [9,5,3])) (some (ecommunityUniqSort [5,3]))=true ↔
        ∀ v∈ecommunityUniqSort [5,3], v∈ecommunityUniqSort [9,5,3]) ∧
      (communityMatch (some (communityUniqSort [7,2])) (some (communityUniqSort [7]))=true ↔
        ∀ v∈communityUniqSort [7], v∈communityUniqSort [7,2])) ∧
    (ecommunityMatch (some (ecommunityUniqSort [9,5,3])) (some (ecommunityUniqSort [4]))=true ↔
      ∀ v∈ecommunityUniqSort [4], v∈ecommunityUniqSort [9,5,3]) := by
  have hprefix : ecommunityUniqSort [5,3] <+: ecommunityUniqSort [9,5,3] := by decide
  have hseen : seenBytes (ecommunityUniqSort [5,3]) <:+: seenBytes (ecommunityUniqSort [9,5,3]) :=
    ⟨[],[0],by decide⟩
  exact ⟨match_inclusion (by decide) (pairwise_communityUniqSort _) (pairwise_communityUniqSort _)
      (.inr (.inl ⟨fun _ hv => hprefix.subset hv,hseen⟩)),
    (match_inclusion (by decide) (pairwise_communityUniqSort [7]) (pairwise_communityUniqSort [7])
      (.inr (.inr ⟨fun h => absurd (h 4 (by decide)) (by decide),_,mem_cons_self,by decide⟩))).1⟩

/-- The second of two route targets is not found. -/
theorem ecommunityMatch_misses : [0x0002fde800000001#64,0x0002fde800000002#64].Pairwise (· < ·) ∧
      ecommunityMatch (some [0x0002fde800000001,0x0002fde800000002])
        (some [0x0002fde800000002])=false := by
  decide

end RoutePlatform.CommunityMatching
