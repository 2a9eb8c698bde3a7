import RoutePlatform.AsPathReconcile

/-!
# Paths that `aspath_reconcile_as4` merges

The merged path has the hops of the 16 bit path, begins with a leading part of it and goes on with
the path of `AS4_PATH`. Adjacent sequences are joined. Both paths come from one message, so the
joined sequences fit the length field.
-/

namespace RoutePlatform.AsPathMerging

open AsPathOperations AsPathEncoding AsPathSynthesis AsPathParsing AsPathRoundTrip List Nat
open AsPathReconcile StreamOperations

variable (rest : Aspath) (seg : Assegment) {use32bit : Bool} {length : ℕ}

/-- One AS number of a sequence, or another segment as a whole. -/
inductive PathItem where
  /-- An AS number of an `AS_SEQUENCE`. -/
  | hop (a : AsT)
  | segment (type : SegmentType) (as : List AsT)
deriving DecidableEq

def segmentItems (seg : Assegment) : List PathItem :=
  if seg.type=.asSequence then seg.as.map PathItem.hop else [.segment seg.type seg.as]

def items (path : Aspath) : List PathItem := path.flatMap segmentItems

def Normal (path : Aspath) : Prop := assegmentNormalise path=path

instance (path : Aspath) : Decidable (Normal path) := inferInstanceAs (Decidable (_=_))

/-- A leading part of a path: whole segments, and the last one may be cut short. -/
inductive LeadOf : Aspath→Aspath→Prop
  | nil (path : Aspath) : LeadOf [] path
  | part {x y : Assegment} (rest : Aspath) : x.type=y.type → x.as <+: y.as → LeadOf [x] (y::rest)
  | cons {xs ys : Aspath} (x : Assegment) : LeadOf xs ys → LeadOf (x::xs) (x::ys)

section

variable {path : Aspath}

theorem items_cons (rest : Aspath) : items (seg::rest)=segmentItems seg++items rest := flatMap_cons

theorem items_append (xs ys : Aspath) : items (xs++ys)=items xs++items ys := flatMap_append

theorem items_normaliseLoop : ∀ pin, RunsFit (runLength pin) rest → (∀ seg∈rest, sortSet seg=seg) →
    items (normaliseLoop pin rest)=segmentItems pin++items rest := by
  induction rest with
  | nil => exact fun pin _ _ => items_cons pin []
  | cons seg rest ih =>
    intro pin hfit hsrt
    have hrs : ∀ x∈rest, sortSet x=x := fun x hx => hsrt x (.tail _ hx)
    rw [normaliseLoop,items_cons]
    by_cases hpack : TypesPackable pin seg
    · obtain ⟨hnew,hruns⟩ := runsFit_packed hpack hfit
      have hty : (assegmentAppendAsns pin seg.as).type=.asSequence := hpack.2
      have hseg := hpack.1.symm.trans hpack.2
      rw [if_pos hpack,ih _ hruns hrs,segmentItems,if_pos hty,hnew,map_append,
        segmentItems,if_pos hpack.2,segmentItems,if_pos hseg,append_assoc]
    have hruns := runsFit_apart hpack hfit
    rw [hsrt seg mem_cons_self] at hruns ⊢
    rw [if_neg hpack,items_cons,ih _ hruns hrs]

theorem items_normalise (hfit : RunsFit 0 path) (hsrt : ∀ seg∈path, sortSet seg=seg) :
    items (assegmentNormalise path)=items path := by
  cases path with
  | nil => rfl
  | cons seg rest =>
    have hruns := runsFit_first hfit
    rw [hsrt seg mem_cons_self] at hruns
    rw [assegmentNormalise,hsrt seg mem_cons_self,items_normaliseLoop rest seg hruns
      fun x hx => hsrt x (.tail _ hx),items_cons]

theorem mem_asnsOf_cons (rest : Aspath) (a : AsT) :
    a∈asnsOf (seg::rest) ↔ a∈seg.as ∨ a∈asnsOf rest := by
  rw [asnsOf,flatMap_cons,mem_append]
  exact Iff.rfl

theorem mem_normaliseLoop (a : AsT) : ∀ pin, RunsFit (runLength pin) rest →
    (a∈asnsOf (normaliseLoop pin rest) ↔ a∈pin.as ∨ a∈asnsOf rest) := by
  induction rest with
  | nil => exact fun pin _ => mem_asnsOf_cons pin [] a
  | cons seg rest ih =>
    intro pin hfit
    rw [normaliseLoop,mem_asnsOf_cons]
    by_cases hpack : TypesPackable pin seg
    · obtain ⟨hnew,hruns⟩ := runsFit_packed hpack hfit
      rw [if_pos hpack,ih _ hruns,hnew,mem_append,or_assoc]
    · rw [if_neg hpack,mem_asnsOf_cons,ih _ (runsFit_apart hpack hfit),mem_sortSet]

theorem mem_normalise (hfit : RunsFit 0 path) (a : AsT) :
    a∈asnsOf (assegmentNormalise path) ↔ a∈asnsOf path := by
  cases path with
  | nil => exact Iff.rfl
  | cons seg rest =>
    rw [assegmentNormalise,mem_normaliseLoop rest a _ (runsFit_first hfit),mem_sortSet,
      mem_asnsOf_cons]

theorem sorted_normaliseLoop : ∀ pin, sortSet pin=pin →
    ∀ seg∈normaliseLoop pin rest, sortSet seg=seg := by
  induction rest with
  | nil =>
    intro pin hpin seg hseg
    rw [mem_singleton.mp hseg]
    exact hpin
  | cons x rest ih =>
    intro pin hpin
    rw [normaliseLoop]
    split
    · rename_i hpack
      exact ih _ (sortSet_of_sequence hpack.2)
    intro seg hseg
    rcases mem_cons.mp hseg with rfl|hseg
    · exact hpin
    · exact ih _ (sortSet_sortSet x) seg hseg

theorem Normal.sorted (h : Normal path) : ∀ seg∈path, sortSet seg=seg := by
  cases path with
  | nil =>
    intro seg hseg
    cases hseg
  | cons x rest =>
    intro seg hseg
    rw [Normal,assegmentNormalise] at h
    rw [←h] at hseg
    exact sorted_normaliseLoop rest _ (sortSet_sortSet x) seg hseg

end

section

variable {path lead : Aspath}

theorem sortSet_of_isPrefix {x y : Assegment} (hty : x.type=y.type) (has : x.as <+: y.as)
    (hy : sortSet y=y) : sortSet x=x := by
  by_cases hset : x.type=.asSet ∨ x.type=.asConfedSet
  · have hyset := hty ▸ hset
    have hyas : sortAsns y.as=y.as := by
      have h := congrArg Assegment.as hy
      rw [sortSet,if_pos hyset] at h
      exact h
    have hpair := hyas ▸ (sortAsns_spec y.as).1
    apply Assegment.ext
    · rw [type_sortSet]
    rw [sortSet,if_pos hset]
    exact sortAsns_of_pairwise (hpair.sublist has.sublist)
  · rw [sortSet,if_neg hset]

theorem LeadOf.sorted (h : LeadOf lead path) (hpath : ∀ seg∈path, sortSet seg=seg) :
    ∀ seg∈lead, sortSet seg=seg := by
  induction h with
  | nil path =>
    intro seg hseg
    cases hseg
  | part rest hty has =>
    intro seg hseg
    rw [mem_singleton.mp hseg]
    exact sortSet_of_isPrefix hty has (hpath _ mem_cons_self)
  | cons x _ ih =>
    intro seg hseg
    rcases mem_cons.mp hseg with rfl|hseg
    · exact hpath _ mem_cons_self
    · exact ih (fun y hy => hpath y (.tail _ hy)) seg hseg

/-- What the loop of `aspath_reconcile_as4` takes is a leading part of the path. -/
theorem reconcileLoop_leadOf (path : Aspath) :
    ∀ hops : ℤ, LeadOf (reconcileLoop hops path) path := by
  induction path with
  | nil => exact fun _ => .nil []
  | cons seg rest ih =>
    intro hops
    have hwhole {n : ℕ} (hn : seg.length≤n) (hops' : ℤ) :
        LeadOf (assegmentNew seg.type (seg.as.take n)::reconcileLoop hops' rest) (seg::rest) := by
      rw [assegmentNew_self seg hn]
      exact .cons seg (ih hops')
    rw [reconcileLoop]
    split
    · split
      · exact hwhole le_rfl _
      · exact hwhole le_rfl _
      · exact hwhole (by split <;> omega) _
      by_cases hlen : hops<seg.length
      · -- The cut is inside this sequence, and nothing is taken behind it.
        have hstop : reconcileLoop (hops-seg.length) rest=[] := by
          cases rest with
          | nil => rfl
          | cons x rest => exact if_neg (by omega)
        have hfits := seg.fits
        have has : (assegmentNew seg.type (seg.as.take (min (seg.length : ℤ) hops).toNat)).as =
              seg.as.take (min (seg.length : ℤ) hops).toNat :=
          assegmentNew_of_lt (by rw [length_take]; omega)
        rw [hstop]
        refine .part rest rfl ?_
        rw [has]
        exact take_prefix _ _
      · exact hwhole (by omega) _
    · exact .nil _

/-- A cut after so many hops falls inside a confederation sequence. -/
def CutsConfed (path : Aspath) (hops : ℕ) : Prop :=
  ∃ xs seg ys, path=xs++seg::ys ∧ seg.type=.asConfedSequence ∧ allHops xs<hops ∧
    hops<allHops xs+seg.length

theorem CutsConfed.cons {rest : Aspath} {k : ℕ} (h : CutsConfed rest k) :
    CutsConfed (seg::rest) (allHops [seg]+k) := by
  obtain ⟨xs,x,ys,hrs,hty,hlow,hhigh⟩ := h
  have hsplit : allHops (seg::xs)=allHops [seg]+allHops xs := by
    rw [←allHops_append,singleton_append]
  exact ⟨seg::xs,x,ys,by rw [hrs,cons_append],hty,by omega,by omega⟩

theorem allHops_single :
    allHops [seg]=if seg.type=.asSequence ∨ seg.type=.asConfedSequence then seg.length else 1 := by
  rw [allHops_cons]
  have hnil : allHops []=0 := rfl
  rw [hnil,add_zero,hopsOf,confedsOf]
  cases hty : seg.type with
  | asSet => simp [plain,hty]
  | asSequence | asConfedSequence => simp [plain,hty,Assegment.length]
  | asConfedSet => simp [plain,hty]

/-- The loop takes the hops it is asked for, unless it would cut a confederation sequence. -/
theorem allHops_reconcileLoop (path : Aspath) : ∀ k : ℕ, k≤allHops path → ¬CutsConfed path k →
    allHops (reconcileLoop (k : ℤ) path)=k := by
  induction path with
  | nil =>
    intro k hk _
    have hnil : allHops []=0 := rfl
    rw [hnil] at hk
    rw [reconcileLoop,hnil]
    omega
  | cons seg rest ih =>
    intro k hk hcut
    have hsingle := allHops_single seg
    have hsplit (xs : Aspath) (x : Assegment) : allHops (x::xs)=allHops [x]+allHops xs := by
      rw [←singleton_append,allHops_append]
    rw [hsplit] at hk
    rw [reconcileLoop]
    split
    · -- The hops of the whole segment are taken, and the loop goes on with the others.
      have hwhole {n : ℕ} (hn : seg.length≤n) {hops' : ℤ} (hle : allHops [seg]≤k)
          (hops_eq : hops'=((k-allHops [seg] : ℕ) : ℤ)) :
          allHops (assegmentNew seg.type (seg.as.take n)::reconcileLoop hops' rest)=k := by
        rw [assegmentNew_self seg hn,hsplit,hops_eq,ih (k-allHops [seg]) (by omega)]
        · omega
        intro hrs
        have hlift := hrs.cons seg
        rw [Nat.add_sub_cancel' hle] at hlift
        exact hcut hlift
      split
      · rename_i hty
        have hone : allHops [seg]=1 := by
          rw [hsingle,hty]
          rfl
        exact hwhole le_rfl (by omega) (by omega)
      · rename_i hty
        have hone : allHops [seg]=1 := by
          rw [hsingle,hty]
          rfl
        exact hwhole le_rfl (by omega) (by omega)
      · rename_i hty
        have hlen : allHops [seg]=seg.length := by
          rw [hsingle,hty]
          rfl
        have hge : seg.length≤k := by
          by_contra hlt
          have hnil : allHops []=0 := rfl
          exact hcut ⟨[],seg,rest,rfl,hty,by omega,by omega⟩
        rw [if_neg (by omega)]
        exact hwhole (by omega) (by omega) (by omega)
      rename_i hty
      have hlen : allHops [seg]=seg.length := by
        rw [hsingle,hty]
        rfl
      by_cases hlt : k<seg.length
      · have hstop : reconcileLoop ((k : ℤ)-seg.length) rest=[] := by
          cases rest with
          | nil => rfl
          | cons x rest => exact if_neg (by omega)
        rw [hstop,allHops_single,if_pos (.inl hty),length_assegmentNew_take]
        omega
      · exact hwhole (by omega) (by omega) (by omega)
    · have hnil : allHops []=0 := rfl
      omega

end

section

variable {aspath as4path : Aspath}

theorem countConfeds_of_confedCheck (h : aspathConfedCheck as4path=false) :
    aspathCountConfeds as4path=0 := by
  rw [aspathConfedCheck,any_eq_false] at h
  induction as4path with
  | nil => rfl
  | cons seg rest ih =>
    have hseg := h seg mem_cons_self
    rw [isConfed_iff,not_or] at hseg
    rw [countConfeds_cons,ih fun x hx => h x (.tail _ hx)]
    simp [confedsOf,plain,hseg.1,hseg.2]

theorem runsFit_merge (hsize : asnTotal aspath+asnTotal as4path<65536) (hops : ℤ) :
    RunsFit 0 (reconcileLoop hops aspath++as4path) := by
  refine runsFit_of_asnTotal _ 0 ?_
  rw [asnTotal_append]
  have htaken := (reconcileLoop_counts aspath hops).2
  omega

theorem length_sortSet (seg : Assegment) : (sortSet seg).length ≤ seg.length := by
  unfold sortSet
  split
  · exact length_sortAsns seg.as
  · exact le_rfl

theorem asnTotal_normaliseLoop (rest : Aspath) :
    ∀ pin, asnTotal (normaliseLoop pin rest)≤pin.length+asnTotal rest := by
  induction rest with
  | nil => exact fun pin => le_rfl
  | cons seg rest ih =>
    intro pin
    rw [normaliseLoop,asnTotal_cons]
    split
    · have hjoined : (assegmentAppendAsns pin seg.as).length≤pin.length+seg.length := by
        rw [assegmentAppendAsns,length_assegmentNew,length_append]
        exact mod_le _ _
      have hloop := ih (assegmentAppendAsns pin seg.as)
      omega
    · have hsrt := length_sortSet seg
      have hloop := ih (sortSet seg)
      rw [asnTotal_cons]
      omega

theorem length_getAsns (n : ℕ) : ∀ {s s' as}, getAsns use32bit n s=some (as,s') → as.length=n := by
  induction n with
  | zero =>
    intro s s' as h
    cases h
    rfl
  | succ n ih =>
    intro s s' as h
    obtain ⟨⟨a,t⟩,-,h⟩ := Option.bind_eq_some_iff.mp h
    obtain ⟨⟨bs,t'⟩,hrs,h⟩ := Option.bind_eq_some_iff.mp h
    cases h
    rw [length_cons,ih hrs]

/-- The AS numbers that are read fit the bytes that are left. -/
theorem asnTotal_parseLoop (fuel : ℕ) :
    ∀ {s bytes path}, bytes≤length → parseLoop use32bit length fuel s bytes=some path →
      bytes+assegmentDataSize (asnTotal path) use32bit≤length := by
  induction fuel with
  | zero => exact fun _ h => nomatch h
  | succ fuel ih =>
    intro s bytes path hle h
    rw [parseLoop] at h
    split at h
    · split at h
      · cases h
      obtain ⟨⟨code,s1⟩,-,h⟩ := Option.bind_eq_some_iff.mp h
      obtain ⟨⟨len,s2⟩,-,h⟩ := Option.bind_eq_some_iff.mp h
      dsimp only at h
      split at h
      · cases h
      rename_i hfits
      rw [not_or] at hfits
      obtain ⟨type,-,h⟩ := Option.bind_eq_some_iff.mp h
      obtain ⟨⟨as,s3⟩,has,h⟩ := Option.bind_eq_some_iff.mp h
      obtain ⟨rest,hrs,h⟩ := Option.bind_eq_some_iff.mp h
      cases h
      dsimp only at hrs ⊢
      have hloop := ih (by omega) hrs
      have hsegment : (assegmentNew type as).length≤len.toNat := by
        rw [length_assegmentNew,length_getAsns _ has]
        exact mod_le _ _
      rw [asnTotal_cons,assegmentDataSize,add_mul]
      have hdata := mul_le_mul_right (if use32bit then 4 else 2) hsegment
      rw [assegmentSize,assegmentDataSize,assegmentDataSize] at hloop
      omega
    · cases h
      rw [assegmentDataSize,asnTotal,map_nil,sum_nil,zero_mul]
      exact hle

theorem asnTotal_parse {s : Stream} {path : Aspath}
    (h : assegmentsParse s length use32bit=some path) :
    assegmentDataSize (asnTotal path) use32bit≤length := by
  rw [assegmentsParse] at h
  split at h
  · cases h
    rw [assegmentDataSize,asnTotal,map_nil,sum_nil,zero_mul]
    exact zero_le _
  split at h
  · cases h
  obtain ⟨segments,hloop,hpath⟩ := Option.map_eq_some_iff.mp h
  rw [←hpath]
  have hread := asnTotal_parseLoop _ (zero_le _) hloop
  have hnormal : asnTotal (assegmentNormalise segments)≤asnTotal segments := by
    cases segments with
    | nil => exact le_rfl
    | cons seg rest =>
      have hloop := asnTotal_normaliseLoop rest (sortSet seg)
      have hsrt := length_sortSet seg
      rw [asnTotal_cons]
      exact hloop.trans (by omega)
  have hdata := mul_le_mul_right (if use32bit then 4 else 2) hnormal
  rw [assegmentDataSize] at hread ⊢
  omega

/-- Attributes of less than 65536 bytes keep two paths below 65536 AS numbers. -/
theorem asnTotal_parsed {s s4 : Stream} {length length4 : ℕ}
    (h : assegmentsParse s length false=some aspath)
    (h4 : assegmentsParse s4 length4 true=some as4path) (hlen : length<65536)
    (hlen4 : length4<65536) : asnTotal aspath+asnTotal as4path<65536 := by
  have hold : asnTotal aspath*2≤length := asnTotal_parse h
  have hnew : asnTotal as4path*4≤length4 := asnTotal_parse h4
  omega

/-- **Reconciliation.** Where `AS4_PATH` has no confederation segments and no more hops, and no
confederation sequence is cut, the merged path has the hops of the 16 bit path, begins like it and
goes on as `AS4_PATH`, and is normal. It always holds every AS number of `AS4_PATH`. -/
theorem aspathReconcileAs4_merges (aspath as4path : Aspath)
    (hsize : asnTotal aspath+asnTotal as4path<65536) :
    (Normal aspath → Normal as4path → aspathConfedCheck as4path=false →
      aspathCountHops as4path≤allHops aspath →
      ¬CutsConfed aspath (allHops aspath-aspathCountHops as4path) →
      allHops (aspathReconcileAs4 aspath as4path)=allHops aspath ∧ (∃ lead, LeadOf lead aspath ∧
          items (aspathReconcileAs4 aspath as4path)=items lead++items as4path) ∧
        Normal (aspathReconcileAs4 aspath as4path)) ∧
      ∀ a∈asnsOf as4path, a∈asnsOf (aspathReconcileAs4 aspath as4path) := by
  constructor
  · intro hnormal hnormal4 hconfed hhops hcut
    have hall4 : allHops as4path=aspathCountHops as4path := by
      rw [allHops,countConfeds_of_confedCheck hconfed,add_zero]
    have hwant : ((aspathCountHops aspath+aspathCountConfeds aspath : ℕ) : ℤ) -
        (aspathCountHops as4path : ℕ)=((allHops aspath-aspathCountHops as4path : ℕ) : ℤ) := by
      rw [allHops] at hhops ⊢
      omega
    have hnonneg : ¬((allHops aspath-aspathCountHops as4path : ℕ) : ℤ)<0 := by omega
    rw [aspathReconcileAs4,hwant,if_neg hnonneg]
    split
    · exact ⟨by omega,⟨[],.nil _,rfl⟩,hnormal4⟩
    have hlead := reconcileLoop_leadOf aspath ((allHops aspath-aspathCountHops as4path : ℕ) : ℤ)
    have hfit := runsFit_merge hsize ((allHops aspath-aspathCountHops as4path : ℕ) : ℤ)
    have hcount := allHops_reconcileLoop aspath (allHops aspath-aspathCountHops as4path)
      (sub_le _ _) hcut
    generalize reconcileLoop ((allHops aspath-aspathCountHops as4path : ℕ) : ℤ) aspath=lead
      at hlead hfit hcount
    refine ⟨?_,⟨lead,hlead,?_⟩,normalise_normalise _⟩
    · rw [allHops_normalise hfit,allHops_append,hcount,hall4]
      omega
    rw [items_normalise hfit,items_append]
    intro seg hseg
    rcases mem_append.mp hseg with hseg|hseg
    · exact hlead.sorted hnormal.sorted seg hseg
    · exact hnormal4.sorted seg hseg
  · intro a ha
    rw [aspathReconcileAs4]
    generalize (if ((aspathCountHops aspath+aspathCountConfeds aspath : ℕ) : ℤ) -
      (aspathCountHops as4path : ℕ)<0 then (aspathCountHops aspath : ℤ)
      else ((aspathCountHops aspath+aspathCountConfeds aspath : ℕ) : ℤ) -
        (aspathCountHops as4path : ℕ))=hops
    split
    · exact ha
    rw [mem_normalise (runsFit_merge hsize _),asnsOf,flatMap_append,mem_append]
    exact .inr ha

/-- A path whose second AS number does not fit 16 bits, as it is written for an old
speaker. -/
def oldPath : Aspath := [assegmentNew .asSequence [5,23456,2]]

/-- The end of the same path in `AS4_PATH`. -/
def newPath : Aspath := [assegmentNew .asSequence [100000,2]]

/-- The two attributes on the wire. -/
def oldBytes : List (BitVec 8) := [2,3,0,5,0x5b,0xa0,0,2]

def newBytes : List (BitVec 8) := [2,2,0,1,0x86,0xa0,0,0,0,2]

theorem cutsConfed_oldPath (hops : ℕ) : ¬CutsConfed oldPath hops := by
  rintro ⟨xs,seg,ys,hpath,hty,-⟩
  have hmem : seg∈oldPath := by
    rw [hpath]
    exact mem_append_right _ mem_cons_self
  rw [mem_singleton.mp hmem] at hty
  cases hty

theorem aspathReconcileAs4_merges_oldPath :
    aspathReconcileAs4 oldPath newPath=[assegmentNew .asSequence [5,100000,2]] ∧
      allHops (aspathReconcileAs4 oldPath newPath)=allHops oldPath ∧
      Normal (aspathReconcileAs4 oldPath newPath) ∧
      ∀ a∈asnsOf newPath, a∈asnsOf (aspathReconcileAs4 oldPath newPath) := by
  have hold : assegmentsParse (streamOf oldBytes) 8 false=some oldPath := by decide +kernel
  have hnew : assegmentsParse (streamOf newBytes) 10 true=some newPath := by decide +kernel
  obtain ⟨hmerge,hmem⟩ := aspathReconcileAs4_merges oldPath newPath
    (asnTotal_parsed hold hnew (by decide) (by decide))
  obtain ⟨hhops,-,hnormal⟩ := hmerge (by decide +kernel) (by decide +kernel) (by decide) (by decide)
    (cutsConfed_oldPath _)
  exact ⟨by decide +kernel,hhops,hnormal,hmem⟩

end

end RoutePlatform.AsPathMerging
