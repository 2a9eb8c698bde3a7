import RoutePlatform.UpdateReceive

/-!
# AS path and aggregator of a peer with numbers of two bytes

`bgp_attr_parse` collects AS_PATH, AS4_PATH, AGGREGATOR and AS4_AGGREGATOR in any order, and
`bgp_attr_munge_as4_attrs` merges them behind the loop. What it leaves is a function of the
values of the four attributes.
-/

namespace RoutePlatform.AttrMerging

open StreamOperations AsPathOperations AsPathSynthesis AttrOperations AttrParsing AttrReading
  AttrVerdicts AttrFraming AttrProtocol UpdateReceive List Option

variable {v : List (BitVec 8)} {seen : Finset (BitVec 8)} {g : Gathered} {off : ℕ}

structure Attribute where
  header : AttrHeader
  value : List (BitVec 8)
  /-- The bytes begin with the header. -/
  headed : headerAt (header.raw++value) 0=some header
  length : value.length=header.length

def Attribute.bytes (a : Attribute) : List (BitVec 8) := a.header.raw++a.value

/-- The attributes one behind the other. -/
def blockOf (attrs : List Attribute) : List (BitVec 8) := attrs.flatMap Attribute.bytes

section

variable (beyond : BitVec 8) (peer : Peer)

/-- An attribute of a type that is well formed. -/
def Attribute.counts (code : AttrCode) (a : Attribute) : Bool :=
  AttrCode.ofType a.header.type=some code && !a.header.flagsInvalid beyond &&
    valueOk peer code a.value

/-- The value of the attribute of a type. -/
def given (attrs : List Attribute) (code : AttrCode) : Option (List (BitVec 8)) :=
  (attrs.find? (Attribute.counts beyond peer code)).map Attribute.value

def collect (attrs : List Attribute) : Gathered :=
  attrs.foldl (fun g a => gatherAttr beyond peer a.header a.value g) Gathered.zero

end

@[ext]
structure Merged where
  aspath : Option Aspath
  aggregatorAs : AsT
  aggregatorAddr : BitVec 32
  deriving DecidableEq

def merged (attr : Attr) : Merged := ⟨attr.aspath,attr.aggregatorAs,attr.aggregatorAddr⟩

section

variable (peer : Peer) (lookup : AttrCode→Option (List (BitVec 8)))

def aggregatorNumber (v : List (BitVec 8)) : AsT := (word16 (v.take 2)).setWidth 32

/-- AGGREGATOR stands and the AS4 attributes are ignored. -/
def ignoresAs4 : Bool := (lookup .as4Aggregator).isSome &&
    (lookup .aggregator).any fun v => aggregatorNumber v≠bgpAsTrans

/-- The path from AS_PATH and AS4_PATH, with the number that the peer is known by in front. -/
def mergedPath : Option Aspath :=
  let aspath := (lookup .asPath).bind (aspathOf peer.as4Rcv)
  let whole :=
    match (lookup .as4Path).bind (aspathOf true) with
    | some as4Path =>
      if ignoresAs4 lookup then aspath else aspath.map fun path => aspathReconcileAs4 path as4Path
    | none => aspath
  if peer.changeLocalAs≠0 ∧ !peer.localAsNoPrepend then
    whole.map fun path => aspathAddSeq path peer.changeLocalAs
  else whole

/-- AGGREGATOR, or AS4_AGGREGATOR when it is there and not ignored. -/
def mergedAggregator : AsT × BitVec 32 :=
  match lookup .as4Aggregator, ignoresAs4 lookup, lookup .aggregator with
  | some v, false, _ => (word32 (v.take 4),word32 (v.drop 4))
  | _, _, some v => (aggregatorNumber v,word32 (v.drop 2))
  | _, _, none => (0,0)

/-- The rule for the four attributes. -/
def as4Rule : Merged :=
  ⟨mergedPath peer lookup,(mergedAggregator lookup).1,(mergedAggregator lookup).2⟩

/-- What the code makes of them: without AGGREGATOR it sets no address. -/
def as4Left : Merged :=
  {as4Rule peer lookup with
    aggregatorAddr := if (lookup .aggregator).isSome then (mergedAggregator lookup).2 else 0}

/-- The address of AS4_AGGREGATOR is not lost. -/
def AddressKept : Prop :=
  ∀ v, lookup .as4Aggregator=some v → (lookup .aggregator).isSome ∨ word32 (v.drop 4)=0

theorem as4Left_iff : as4Left peer lookup=as4Rule peer lookup ↔ AddressKept lookup := by
  have haddr : as4Left peer lookup=as4Rule peer lookup ↔
      (as4Left peer lookup).aggregatorAddr=(mergedAggregator lookup).2 :=
    ⟨fun h => congrArg Merged.aggregatorAddr h,fun h => Merged.ext rfl rfl h⟩
  rw [haddr]
  unfold as4Left AddressKept
  cases hagg : lookup .aggregator with
  | some v => exact iff_of_true rfl fun _ _ => .inl rfl
  | none =>
    have hkeeps : ignoresAs4 lookup=false := by
      rw [ignoresAs4,hagg]
      exact Bool.and_false _
    unfold mergedAggregator
    rw [hkeeps,hagg]
    cases has4 : lookup .as4Aggregator with
    | none => exact iff_of_true rfl nofun
    | some v =>
      refine ⟨fun h w hw => ?_,fun h => ?_⟩
      · cases hw
        exact .inr h.symm
      rcases h v rfl with hsome|hz
      · cases hsome
      · exact hz.symm

end

def as4Codes : List AttrCode := [.asPath,.as4Path,.aggregator,.as4Aggregator]

/-- The part of what is collected that belongs to a type. -/
def slot (code : AttrCode) (g : Gathered) : Bool × Option Aspath × AsT × BitVec 32 :=
  (code∈g.attr.flag,
    match code with
    | .asPath => (g.attr.aspath,0,0)
    | .as4Path => (g.as4Path,0,0)
    | .aggregator => (none,g.attr.aggregatorAs,g.attr.aggregatorAddr)
    | .as4Aggregator => (none,g.as4Aggregator,g.as4AggregatorAddr)
    | _ => (none,0,0))

/-- That part from the value of the attribute. -/
def slotOf (code : AttrCode) (v : List (BitVec 8)) : Bool × Option Aspath × AsT × BitVec 32 :=
  (true,
    match code with
    | .asPath => (aspathOf false v,0,0)
    | .as4Path => (aspathOf true v,0,0)
    | .aggregator => (none,aggregatorNumber v,word32 (v.drop 2))
    | .as4Aggregator => (none,word32 (v.take 4),word32 (v.drop 4))
    | _ => (none,0,0))

section

variable {beyond : BitVec 8} {peer : Peer} {code other : AttrCode} {g : Gathered}
  {attrs : List Attribute} {a : Attribute}

theorem ofType_inj {t u : BitVec 8} (ht : AttrCode.ofType t=some code)
    (hu : AttrCode.ofType u=some code) : t=u := by
  unfold AttrCode.ofType at ht hu
  refine BitVec.eq_of_toNat_eq ?_
  grind

theorem slot_add_self (hpeer : peer.as4Rcv=false) (hcode : code∈as4Codes) :
    slot code (g.add peer code v)=slotOf code v := by
  simp only [as4Codes,mem_cons,not_mem_nil,or_false] at hcode
  rcases hcode with rfl|rfl|rfl|rfl <;>
    simp [slot,slotOf,Gathered.add,markAttr,aggregatorNumber,hpeer]

theorem slot_add_other (hcode : code∈as4Codes) (hne : code≠other) :
    slot code (g.add peer other v)=slot code g := by
  have hmark (attr : Attr) : code∈(markAttr attr other).flag ↔ code∈attr.flag := by
    rw [markAttr,Finset.mem_insert]
    exact or_iff_right hne
  have hsame {g' : Gathered} (hflag : code∈g'.attr.flag ↔ code∈g.attr.flag)
      (hdata : (slot code g').2=(slot code g).2) : slot code g'=slot code g :=
    Prod.ext (decide_eq_decide.mpr hflag) hdata
  simp only [as4Codes,mem_cons,not_mem_nil,or_false] at hcode
  cases other with
  | origin | nextHop | multiExitDisc | atomicAggregate | originatorId | clusterList
  | mpUnreachNlri =>
    refine hsame (hmark _) ?_
    rcases hcode with rfl|rfl|rfl|rfl <;> rfl
  | asPath | as4Path | aggregator | as4Aggregator =>
    refine hsame (hmark _) ?_
    rcases hcode with rfl|rfl|rfl|rfl <;> first | rfl | exact absurd rfl hne
  | localPref | communities | extCommunities =>
    unfold Gathered.add
    dsimp only
    split
    · rcases hcode with rfl|rfl|rfl|rfl <;> rfl
    refine hsame (hmark _) ?_
    rcases hcode with rfl|rfl|rfl|rfl <;> rfl
  | mpReachNlri =>
    have hdata : (mpReachAttr v g.attr).aggregatorAs=g.attr.aggregatorAs ∧
        (mpReachAttr v g.attr).aggregatorAddr=g.attr.aggregatorAddr := by
      unfold mpReachAttr
      split <;> exact ⟨rfl,rfl⟩
    obtain ⟨hflag,haspath⟩ := mpReachAttr_keeps v g.attr
    refine hsame ((hmark _).trans (by rw [hflag])) ?_
    rcases hcode with rfl|rfl|rfl|rfl <;> simp [slot,Gathered.add,markAttr,haspath,hdata]

/-- An attribute changes the part of its own type only. -/
theorem slot_gather (hpeer : peer.as4Rcv=false) (hcode : code∈as4Codes) :
    slot code (gatherAttr beyond peer a.header a.value g)=
      if a.counts beyond peer code then slotOf code a.value else slot code g := by
  unfold gatherAttr Attribute.counts gatherSwitch
  cases hflags : a.header.flagsInvalid beyond with
  | true => simp
  | false =>
    cases hty : AttrCode.ofType a.header.type with
    | none =>
      unfold Gathered.addUnknown
      simp only [reduceCtorEq,decide_false,Bool.false_and,Bool.false_eq_true,if_false]
      split <;> rfl
    | some other =>
      by_cases hcodes : other=code
      · subst hcodes
        by_cases hok : valueOk peer other a.value=true
        · simp [hok,slot_add_self hpeer hcode]
        · simp [hok]
      have hne : code≠other := fun h => hcodes h.symm
      by_cases hok : valueOk peer other a.value=true
      · simp [hok,hcodes,slot_add_other hcode hne]
      · simp [hok,hcodes]

theorem given_eq_some_iff (hnd : (attrs.map fun a => a.header.type).Nodup) :
    given beyond peer attrs code=some v ↔
      ∃ a∈attrs, a.counts beyond peer code=true ∧ a.value=v := by
  unfold given
  rw [map_eq_some_iff]
  constructor
  · rintro ⟨a,ha,hv⟩
    exact ⟨a,mem_of_find?_eq_some ha,find?_some ha,hv⟩
  · rintro ⟨a,ha,hcounts,hv⟩
    cases hfind : attrs.find? (Attribute.counts beyond peer code) with
    | none => exact absurd hcounts (find?_eq_none.mp hfind a ha)
    | some b =>
      have hb := find?_some hfind
      simp only [Attribute.counts,Bool.and_eq_true,decide_eq_true_eq] at hb hcounts
      have hty := ofType_inj hb.1.1 hcounts.1.1
      have hsame := inj_on_of_nodup_map hnd (mem_of_find?_eq_some hfind) ha hty
      exact ⟨b,rfl,hsame ▸ hv⟩

theorem given_perm {order : List Attribute} (hperm : order.Perm attrs)
    (hnd : (attrs.map fun a => a.header.type).Nodup) :
    given beyond peer order=given beyond peer attrs := by
  have horder : (order.map fun a => a.header.type).Nodup := (hperm.map _).nodup_iff.mpr hnd
  funext code
  refine ext fun v => ?_
  rw [given_eq_some_iff hnd,given_eq_some_iff horder]
  simp only [hperm.mem_iff]

/-- What is collected is the values of the attributes. The induction is from the last one. -/
theorem slot_collect (hpeer : peer.as4Rcv=false) (hcode : code∈as4Codes)
    (hnd : (attrs.map fun a => a.header.type).Nodup) :
    slot code (collect beyond peer attrs)=
      ((given beyond peer attrs code).map (slotOf code)).getD (false,none,0,0) := by
  induction attrs using reverseRecOn with
  | nil =>
    simp only [as4Codes,mem_cons,not_mem_nil,or_false] at hcode
    rcases hcode with rfl|rfl|rfl|rfl <;> rfl
  | append_singleton attrs a ih =>
    have hinit : (attrs.map fun a => a.header.type).Nodup := by
      rw [map_append] at hnd
      exact hnd.of_append_left
    rw [collect,foldl_append,foldl_cons,foldl_nil,slot_gather hpeer hcode]
    by_cases hcounts : a.counts beyond peer code=true
    · have hgiven := (given_eq_some_iff (v := a.value) hnd).mpr
        ⟨a,mem_append_right _ mem_cons_self,hcounts,rfl⟩
      rw [if_pos hcounts,hgiven]
      rfl
    have hgiven : given beyond peer (attrs++[a]) code=given beyond peer attrs code := by
      rw [given,find?_append,find?_cons_of_neg hcounts,find?_nil,or_none]
      rfl
    rw [if_neg hcounts,hgiven]
    exact ih hinit

end

section

variable {beyond : BitVec 8} {peer : Peer} {s : AttrState} {endp : ℕ}
  {lookup : AttrCode→Option (List (BitVec 8))}

/-- The state has collected these values. -/
def Holds (lookup : AttrCode→Option (List (BitVec 8))) (g : Gathered) : Prop :=
  ∀ code∈as4Codes, slot code g=((lookup code).map (slotOf code)).getD (false,none,0,0)

section

variable {g : Gathered} (hholds : Holds lookup g)
include hholds

theorem Holds.flag {code : AttrCode}
    (hcode : code∈as4Codes) : decide (code∈g.attr.flag)=(lookup code).isSome := by
  have hslot := congrArg Prod.fst (hholds code hcode)
  cases hlk : lookup code <;> rw [hlk] at hslot <;> exact hslot

theorem Holds.mem {code : AttrCode}
    (hcode : code∈as4Codes) : code∈g.attr.flag ↔ (lookup code).isSome := by
  rw [←hholds.flag hcode,decide_eq_true_iff]

theorem Holds.aspath : g.attr.aspath=(lookup .asPath).bind (aspathOf false) := by
  have hslot := congrArg (fun x => x.2.1) (hholds .asPath (by decide))
  cases hlk : lookup .asPath <;> rw [hlk] at hslot <;> exact hslot

theorem Holds.as4Path : g.as4Path=(lookup .as4Path).bind (aspathOf true) := by
  have hslot := congrArg (fun x => x.2.1) (hholds .as4Path (by decide))
  cases hlk : lookup .as4Path <;> rw [hlk] at hslot <;> exact hslot

theorem Holds.aggregator :
    (g.attr.aggregatorAs,g.attr.aggregatorAddr)=((lookup .aggregator).map fun v =>
      (aggregatorNumber v,word32 (v.drop 2))).getD (0,0) := by
  have hslot := congrArg (fun x => x.2.2) (hholds .aggregator (by decide))
  cases hlk : lookup .aggregator <;> rw [hlk] at hslot <;> exact hslot

theorem Holds.as4Aggregator :
    (g.as4Aggregator,g.as4AggregatorAddr)=((lookup .as4Aggregator).map fun v =>
      (word32 (v.take 4),word32 (v.drop 4))).getD (0,0) := by
  have hslot := congrArg (fun x => x.2.2) (hholds .as4Aggregator (by decide))
  cases hlk : lookup .as4Aggregator <;> rw [hlk] at hslot <;> exact hslot

end

variable (peer) in
theorem mungeAggregator_left (hholds : Holds lookup (gathered s)) :
    ((mungeAggregator s).2.attr.aggregatorAs,(mungeAggregator s).2.attr.aggregatorAddr)=
      ((as4Left peer lookup).aggregatorAs,(as4Left peer lookup).aggregatorAddr) := by
  have hagg : (s.attr.aggregatorAs,s.attr.aggregatorAddr)=_ := hholds.aggregator
  have has4 : (s.as4Aggregator,s.as4AggregatorAddr)=_ := hholds.as4Aggregator
  have haggMem : .aggregator∈s.attr.flag ↔ _ := hholds.mem (by decide : _∈as4Codes)
  have has4Mem : .as4Aggregator∈s.attr.flag ↔ _ := hholds.mem (by decide : _∈as4Codes)
  unfold mungeAggregator as4Left as4Rule mergedAggregator ignoresAs4
  cases hlk : lookup .as4Aggregator with
  | none =>
    rw [hlk] at has4Mem
    rw [if_neg fun h => by cases has4Mem.mp h]
    cases hown : lookup .aggregator <;> rw [hown] at hagg <;> exact hagg
  | some v =>
    rw [hlk] at has4Mem has4
    rw [if_pos (has4Mem.mpr rfl)]
    cases hown : lookup .aggregator with
    | none =>
      rw [hown] at hagg haggMem
      rw [if_neg fun h => by cases haggMem.mp h]
      exact Prod.ext (Prod.ext_iff.mp has4).1 (Prod.ext_iff.mp hagg).2
    | some w =>
      rw [hown] at hagg haggMem
      have hnumber : s.attr.aggregatorAs=aggregatorNumber w := (Prod.ext_iff.mp hagg).1
      rw [if_pos (haggMem.mpr rfl),hnumber]
      by_cases htrans : aggregatorNumber w=bgpAsTrans
      · rw [if_neg (not_not.mpr htrans)]
        simp only [any_some,htrans,ne_eq,not_true_eq_false,decide_false,Bool.and_false]
        exact has4
      rw [if_pos htrans]
      simp only [any_some,htrans,ne_eq,not_false_eq_true,decide_true,isSome_some,Bool.and_true]
      exact hagg

variable (hpeer : peer.as4Rcv=false)
include hpeer

theorem bgpAttrMungeAs4Attrs_aggregator (hsome : s.attr.aspath.isSome) :
    ((bgpAttrMungeAs4Attrs peer s).2.attr.aggregatorAs,
      (bgpAttrMungeAs4Attrs peer s).2.attr.aggregatorAddr)=
      ((mungeAggregator s).2.attr.aggregatorAs,(mungeAggregator s).2.attr.aggregatorAddr) := by
  obtain ⟨aspath,haspath⟩ := isSome_iff_exists.mp hsome
  unfold bgpAttrMungeAs4Attrs
  rw [haspath]
  dsimp only
  rw [hpeer,if_neg Bool.false_ne_true]
  split
  · split <;> rfl
  · rfl

/-- The two paths give what the rule says. -/
theorem wholePath_left (hholds : Holds lookup (gathered s)) :
    (if peer.changeLocalAs≠0 ∧ !peer.localAsNoPrepend then
      (wholePath peer (gathered s)).map fun path => aspathAddSeq path peer.changeLocalAs
    else wholePath peer (gathered s))=mergedPath peer lookup := by
  have hwhole : wholePath peer (gathered s)=
      match (lookup .as4Path).bind (aspathOf true) with
      | some as4Path =>
        if ignoresAs4 lookup then (lookup .asPath).bind (aspathOf peer.as4Rcv)
        else ((lookup .asPath).bind (aspathOf peer.as4Rcv)).map fun path =>
          aspathReconcileAs4 path as4Path
      | none => (lookup .asPath).bind (aspathOf peer.as4Rcv) := by
    have huses : usesAs4Path (gathered s)=((lookup .as4Path).isSome && !ignoresAs4 lookup) := by
      have hagg : (gathered s).attr.aggregatorAs=_ := congrArg Prod.fst hholds.aggregator
      unfold usesAs4Path ignoresAs4
      have hflag := @hholds.flag
      rw [hflag (by decide),hflag (by decide),hflag (by decide),hagg]
      obtain hown|⟨w,hown⟩ := eq_none_or_eq_some (lookup .aggregator) <;> simp [hown]
    unfold wholePath
    rw [hholds.aspath,hholds.as4Path,huses,hpeer]
    generalize (lookup .asPath).bind (aspathOf false)=aspath
    cases lookup .as4Path with
    | none => simp
    | some v =>
      rw [bind_some]
      cases aspathOf true v with
      | none => simp
      | some path => cases ignoresAs4 lookup <;> simp
  rw [hwhole]
  rfl

/-- What the end of the parser leaves of path and aggregator. -/
theorem attrFinish_left (hend : s.ibuf.getp=endp) (hmarked : Marked (gathered s))
    (hholds : Holds lookup (gathered s)) (hret : (attrFinish peer s endp).1=.proceed) :
    merged (attrFinish peer s endp).2.attr=as4Left peer lookup := by
  rcases attrFinish_spec hend with ⟨-,hcheck,-⟩|⟨herror,-⟩
  swap
  · rw [hret] at herror
    cases herror
  have hfinish : attrFinish peer s endp=attrFinishAspath peer s := by
    rw [attrFinish,if_neg (not_not.mpr hend),hcheck]
  rw [hfinish] at hret ⊢
  have hmem (code : AttrCode) (hcode : code∈as4Codes) :
      code∈s.attr.flag ↔ (lookup code).isSome := hholds.mem hcode
  unfold attrFinishAspath at hret ⊢
  by_cases hpath : .asPath∈s.attr.flag
  · rw [if_pos hpath] at hret ⊢
    have hsome := hmarked.aspath hpath
    obtain ⟨hproceeds,hwhole⟩ := bgpAttrMungeAs4Attrs_path peer hsome
    have haggregator := (bgpAttrMungeAs4Attrs_aggregator hpeer hsome).trans
      (mungeAggregator_left peer hholds)
    have hleft := wholePath_left hpeer hholds
    rw [←hwhole] at hleft
    generalize bgpAttrMungeAs4Attrs peer s=r at *
    obtain ⟨ret,s'⟩ := r
    cases hproceeds
    rw [Prod.mk.injEq] at haggregator
    unfold bgpAttrAspathCheck at hret ⊢
    dsimp only at hret ⊢
    split at hret
    · cases hret
    rename_i hconfed
    split at hret
    · cases hret
    rename_i hfst
    rw [if_neg hconfed,if_neg hfst]
    by_cases hlocal : peer.changeLocalAs≠0 ∧ (!peer.localAsNoPrepend)=true
    · rw [if_pos hlocal] at hleft ⊢
      exact Merged.ext hleft haggregator.1 haggregator.2
    rw [if_neg hlocal] at hleft ⊢
    exact Merged.ext hleft haggregator.1 haggregator.2
  · have hnone (code : AttrCode) (hcode : code∈as4Codes) : lookup code=none := by
      rw [←not_isSome_iff_eq_none,←hmem code hcode]
      rcases bgpAttrCheck_proceeds_iff.mp hcheck with ⟨-,hemp⟩|hlone|⟨-,hhas,-⟩
      · rw [hemp]
        exact Finset.notMem_empty _
      · rw [hlone,Finset.mem_singleton]
        rintro rfl
        exact absurd hcode (by decide)
      · exact absurd hhas hpath
    have hagg : (s.attr.aggregatorAs,s.attr.aggregatorAddr)=_ := hholds.aggregator
    have haspath : s.attr.aspath=_ := hholds.aspath
    rw [hnone _ (by decide)] at hagg haspath
    rw [if_neg hpath]
    have hleft : as4Left peer lookup=⟨none,0,0⟩ := by
      simp [as4Left,as4Rule,mergedPath,mergedAggregator,hnone .asPath (by decide),
        hnone .as4Path (by decide),hnone .aggregator (by decide),hnone .as4Aggregator (by decide)]
    rw [hleft]
    exact Merged.ext haspath (Prod.ext_iff.mp hagg).1 (Prod.ext_iff.mp hagg).2

end

variable (a : Attribute)

section

variable {beyond : BitVec 8} {peer : Peer} {attrs : List Attribute}

theorem Attribute.length_bytes : a.bytes.length=a.header.total ∧ 0<a.header.total := by
  have hraw := (raw_of_headerAt a.headed).1
  have hlen := (headerLen_of_headerAt a.headed).1
  rw [Attribute.bytes,length_append,hraw,a.length,AttrHeader.total]
  omega

theorem blockOf_append (done rest : List Attribute) :
    blockOf (done++rest)=blockOf done++blockOf rest := flatMap_append

/-- A header is read wherever the attribute stands. -/
theorem Attribute.headerAt_eq {block post : List (BitVec 8)} (hdrop : block.drop off=a.bytes++post) :
    headerAt block off=some a.header ∧ valueAt block off a.header=a.value := by
  have hraw := raw_of_headerAt a.headed
  constructor
  · have hheaded := a.headed
    unfold headerAt at hheaded ⊢
    rw [hdrop,Attribute.bytes]
    rw [drop_zero] at hheaded
    split at hheaded
    · rename_i flags type b0 rest hbs
      rw [hbs]
      split at hheaded
      · rename_i hext
        cases rest with
        | nil => cases hheaded
        | cons b1 rest =>
          dsimp only [cons_append]
          rw [if_pos hext]
          exact hheaded
      rename_i hext
      dsimp only [cons_append]
      rw [if_neg hext]
      exact hheaded
    · cases hheaded
  · rw [valueAt,←drop_drop,hdrop,Attribute.bytes,append_assoc,←hraw.1,drop_left,←a.length,take_left]

/-- Where the loop stands, some attributes are collected. -/
theorem before_prefix (hbef : Before beyond peer (blockOf attrs) off seen g) :
    ∃ done rest, attrs=done++rest ∧ off=(blockOf done).length ∧ g=collect beyond peer done ∧
      (∀ t, t∈seen ↔ t∈done.map fun a => a.header.type) ∧
      (done.map fun a => a.header.type).Nodup := by
  induction hbef with
  | start => exact ⟨[],attrs,rfl,rfl,rfl,fun t => by simp,nodup_nil⟩
  | next before header new within accepted ih =>
    obtain ⟨done,rest,hattrs,hoff,hg,hseen,hnd⟩ := ih
    have hdrop : (blockOf attrs).drop (blockOf done).length=blockOf rest := by
      rw [hattrs,blockOf_append,drop_left]
    have hlen := headerLen_of_headerAt header
    cases rest with
    | nil =>
      have hz := congrArg length hdrop
      rw [length_drop,←hoff] at hz
      change _=0 at hz
      omega
    | cons a rest =>
      have hdropped : (blockOf attrs).drop _=a.bytes++blockOf rest := hoff ▸ hdrop
      obtain ⟨hhdr,hval⟩ := a.headerAt_eq hdropped
      rw [header] at hhdr
      obtain rfl := some.inj hhdr
      refine ⟨done++[a],rest,by rw [hattrs,append_assoc]; rfl,?_,?_,fun t => ?_,?_⟩
      · rw [hoff,blockOf_append,length_append]
        simp [blockOf,a.length_bytes.1]
      · rw [hval,hg,collect,collect,foldl_append]
        rfl
      · rw [Finset.mem_insert,hseen,map_append,mem_append,or_comm,map_singleton,mem_singleton]
      rw [map_append,nodup_append]
      refine ⟨hnd,nodup_singleton _,fun t ht u hu => ?_⟩
      obtain rfl := mem_singleton.mp hu
      rintro rfl
      exact new ((hseen _).mpr ht)

theorem before_end (hbef : Before beyond peer (blockOf attrs) (blockOf attrs).length seen g) :
    g=collect beyond peer attrs ∧ (attrs.map fun a => a.header.type).Nodup := by
  obtain ⟨done,rest,hattrs,hoff,hg,-,hnd⟩ := before_prefix hbef
  have hrs : rest=[] := by
    cases rest with
    | nil => rfl
    | cons a rest =>
      rw [hattrs,blockOf_append,length_append,show blockOf (a::rest)=a.bytes++blockOf rest from rfl,
        length_append,a.length_bytes.1] at hoff
      have hpos := a.length_bytes.2
      omega
  rw [hrs,append_nil] at hattrs
  rw [hattrs]
  exact ⟨hg,hnd⟩

/-- The parser accepts only attributes of different types, and leaves what their values say. -/
theorem bgpAttrParse_left (hpeer : peer.as4Rcv=false) {ibuf : Stream} {ys : List (BitVec 8)}
    (hibuf : ibuf.rest=blockOf attrs++ys) :
    ∃ r, (∀ fuel, (blockOf attrs).length<fuel →
        bgpAttrParse beyond peer fuel ibuf (blockOf attrs).length=some r) ∧
      (r.1=.proceed → (attrs.map fun a => a.header.type).Nodup ∧
        merged r.2.state.attr=as4Left peer (given beyond peer attrs)) := by
  have hsize : (blockOf attrs).length ≤ ibuf.readable := by
    rw [←length_rest,hibuf,length_append]
    exact Nat.le_add_right _ _
  have hblock : ibuf.rest.take (blockOf attrs).length=blockOf attrs := by rw [hibuf,take_left]
  obtain ⟨r,hending,-,hparse⟩ := bgpAttrParse_ending beyond peer hsize
  rw [hblock] at hending
  refine ⟨_,hparse,fun hret => ?_⟩
  cases hending with
  | finished boundary =>
    obtain ⟨hg,hnd⟩ := before_end boundary.before
    refine ⟨hnd,attrFinish_left hpeer boundary.stands.getp ?_ (fun code hcode => ?_) hret⟩
    · rw [boundary.gathers]
      exact before_marked boundary.before
    rw [boundary.gathers,hg]
    exact slot_collect hpeer hcode hnd
  | refused history notified => cases hret
  | broken meets verdict outcome =>
    change _=AttrParseRet.proceed at hret
    rcases verdict with hv|hv|hv <;> rw [hv] at outcome <;> obtain ⟨p,hstop,-⟩ := outcome <;>
      cases hstop <;> cases hret

end

/-- The merge is right in every order exactly when each AS4_AGGREGATOR with an address has an
AGGREGATOR. -/
theorem bgpAttrParse_as4_iff (beyond : BitVec 8) (peer : Peer) (attrs : List Attribute)
    (ibuf : Stream) (ys : List (BitVec 8)) (hpeer : peer.as4Rcv=false)
    (hibuf : ibuf.rest=blockOf attrs++ys) :
    ∃ r, (∀ fuel, (blockOf attrs).length<fuel →
        bgpAttrParse beyond peer fuel ibuf (blockOf attrs).length=some r) ∧
      (r.1=.proceed → (merged r.2.state.attr=as4Rule peer (given beyond peer attrs) ↔
          AddressKept (given beyond peer attrs)) ∧
        ∀ order, order.Perm attrs → ∀ ibuf' ys', ibuf'.rest=blockOf order++ys' →
          ∃ r', (∀ fuel, (blockOf order).length<fuel →
              bgpAttrParse beyond peer fuel ibuf' (blockOf order).length=some r') ∧
            (r'.1=.proceed → merged r'.2.state.attr=merged r.2.state.attr)) := by
  obtain ⟨r,hparse,hleft⟩ := bgpAttrParse_left hpeer hibuf
  refine ⟨r,hparse,fun hret => ?_⟩
  obtain ⟨hnodup,hmerged⟩ := hleft hret
  rw [hmerged]
  refine ⟨as4Left_iff peer _,fun order hperm ibuf' ys' hibuf' => ?_⟩
  obtain ⟨r',hparse',hleft'⟩ := bgpAttrParse_left hpeer hibuf'
  refine ⟨r',hparse',fun hret' => ?_⟩
  rw [(hleft' hret').2,given_perm hperm hnodup]

/-- The attributes of a route with an AS4_AGGREGATOR only. -/
def sampleAttributes : List Attribute :=
  [⟨⟨[0x40,1,1],0x40,1,3,1⟩,[0],by decide,rfl⟩,
    ⟨⟨[0x40,2,4],0x40,2,3,4⟩,[2,1,0xFD,0xE9],by decide,rfl⟩,
    ⟨⟨[0x40,3,4],0x40,3,3,4⟩,[10,0,0,1],by decide,rfl⟩,
    ⟨⟨[0xC0,18,8],0xC0,18,3,8⟩,[0,1,0x11,0x70,10,0,0,9],by decide,rfl⟩]

theorem bgpAttrParse_as4_sample : samplePeer.as4Rcv=false ∧ ∃ r,
      bgpAttrParse 0 samplePeer 40 (streamOf (blockOf sampleAttributes))
        (blockOf sampleAttributes).length=some r ∧
      (r.1=.proceed → (merged r.2.state.attr=as4Rule samplePeer (given 0 samplePeer
        sampleAttributes) ↔ AddressKept (given 0 samplePeer sampleAttributes))) := by
  have hpeer : samplePeer.as4Rcv=false := rfl
  obtain ⟨r,hr,hmerged⟩ := bgpAttrParse_as4_iff 0 samplePeer sampleAttributes
    (streamOf (blockOf sampleAttributes)) [] hpeer rfl
  exact ⟨hpeer,r,hr 40 (by decide),fun hret => (hmerged hret).1⟩

/-- The address of the AS4_AGGREGATOR 70000 at 10.0.0.9 is lost. -/
theorem bgpAttrParse_losesAddress :
    (bgpAttrParse 0 samplePeer 40 (streamOf (blockOf sampleAttributes))
      (blockOf sampleAttributes).length).map (fun r => (r.1,merged r.2.state.attr))=
      some (.proceed,⟨some [assegmentNew .asSequence [65001]],70000,0⟩) ∧
    as4Rule samplePeer (given 0 samplePeer sampleAttributes)=
      ⟨some [assegmentNew .asSequence [65001]],70000,0x0A000009⟩ := by
  decide +kernel

end RoutePlatform.AttrMerging
