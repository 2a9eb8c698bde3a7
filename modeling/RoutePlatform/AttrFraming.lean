import RoutePlatform.AttrSwitch

/-!
# Framing of the attribute block

What the loop of `bgp_attr_parse` can reach is described on the bytes of the block alone; the loop
is then shown to be at such a boundary before every round, and to end as the verdict on the
attribute there says.
-/

namespace RoutePlatform.AttrFraming

open StreamOperations AttrOperations AttrParsing AttrReading AttrVerdicts AttrSwitch List

variable {s : AttrState}

/-- The header at an offset of the block, if it fits. -/
def headerAt (block : List (BitVec 8)) (off : ℕ) : Option AttrHeader :=
  match block.drop off with
  | flags::type::b0::rest =>
    if checkFlag (0xF0 &&& flags) flagExtlen then
      match rest with
      | b1::_ => some ⟨[flags,type,b0,b1],0xF0 &&& flags,type,4,(word16 [b0,b1]).toNat⟩
      | [] => none
    else some ⟨[flags,type,b0],0xF0 &&& flags,type,3,b0.toNat⟩
  | _ => none

/-- The value of the attribute at an offset of the block. -/
def valueAt (block : List (BitVec 8)) (off : ℕ) (h : AttrHeader) : List (BitVec 8) :=
  (block.drop (off+h.headerLen)).take h.length

section

variable (beyond : BitVec 8) (peer : Peer) (block : List (BitVec 8))

/-- The offsets of the loop, with the types before them and what they left behind. -/
inductive Before : ℕ→Finset (BitVec 8)→Gathered→Prop where
  | start : Before 0 ∅ Gathered.zero
  | next {off : ℕ} {seen : Finset (BitVec 8)} {g : Gathered} {h : AttrHeader}
      (before : Before off seen g) (header : headerAt block off=some h) (new : h.type ∉ seen)
      (within : off+h.total≤block.length)
      (accepted : attrVerdict beyond peer h (valueAt block off h)=.accept) :
      Before (off+h.total) (insert h.type seen) (gatherAttr beyond peer h (valueAt block off h) g)

/-- The loop arrives at the header of an attribute that is new and lies in the block. -/
structure Meets (off : ℕ) (seen : Finset (BitVec 8)) (g : Gathered) (h : AttrHeader) : Prop where
  before : Before beyond peer block off seen g
  header : headerAt block off=some h
  new : h.type ∉ seen
  within : off+h.total≤block.length

end

section

variable {block : List (BitVec 8)} {off : ℕ} {h : AttrHeader}

section

variable (hheader : headerAt block off=some h)
include hheader

theorem headerAt_cases :
    (∃ flags b rest, block.drop off=flags::h.type::b::rest ∧ h.flags=0xF0 &&& flags ∧
      checkFlag h.flags flagExtlen=false ∧ h.headerLen=3 ∧ h.length=b.toNat ∧
      h.raw=[flags,h.type,b]) ∨
    (∃ flags b0 b1 rest, block.drop off=flags::h.type::b0::b1::rest ∧
      h.flags=0xF0 &&& flags ∧ checkFlag h.flags flagExtlen=true ∧ h.headerLen=4 ∧
      h.length=(word16 [b0,b1]).toNat ∧ h.raw=[flags,h.type,b0,b1]) := by
  unfold headerAt at hheader
  split at hheader
  · rename_i flags type b0 rest hblock
    split at hheader
    · rename_i hext
      cases rest with
      | nil => cases hheader
      | cons b1 rest =>
        cases hheader
        exact .inr ⟨flags,b0,b1,rest,hblock,rfl,hext,rfl,rfl,rfl⟩
    rename_i hext
    cases hheader
    exact .inl ⟨flags,b0,rest,hblock,rfl,Bool.eq_false_of_not_eq_true hext,rfl,rfl,rfl⟩
  · cases hheader

theorem headerLen_of_headerAt : 3≤h.headerLen ∧ off+h.headerLen≤block.length := by
  have hlen : (block.drop off).length=block.length-off := length_drop
  rcases headerAt_cases hheader with ⟨flags,b,rest,hblock,-,-,hthree,-⟩ |
    ⟨flags,b0,b1,rest,hblock,-,-,hfour,-⟩
  · rw [hblock] at hlen
    simp only [length_cons] at hlen
    omega
  rw [hblock] at hlen
  simp only [length_cons] at hlen
  omega

theorem raw_of_headerAt :
    h.raw.length=h.headerLen ∧ block.drop off=h.raw++block.drop (off+h.headerLen) := by
  rcases headerAt_cases hheader with ⟨flags,b,rest,hblock,-,-,hthree,-,hraw⟩ |
    ⟨flags,b0,b1,rest,hblock,-,-,hfour,-,hraw⟩
  · rw [hraw,hthree,←drop_drop,hblock]
    exact ⟨rfl,rfl⟩
  rw [hraw,hfour,←drop_drop,hblock]
  exact ⟨rfl,rfl⟩

end

theorem length_valueAt (hin : off+h.total≤block.length) :
    (valueAt block off h).length=h.length := by
  rw [valueAt,length_take,length_drop]
  unfold AttrHeader.total at hin
  omega

theorem drop_headerLen (block : List (BitVec 8)) (off : ℕ) (h : AttrHeader) :
    block.drop (off+h.headerLen)=valueAt block off h++block.drop (off+h.total) := by
  have hrs : block.drop (off+h.total)=(block.drop (off+h.headerLen)).drop h.length := by
    rw [drop_drop,AttrHeader.total,add_assoc]
  rw [valueAt,hrs,take_append_drop]

end

/-- The headers are read at a position and at the ends of attributes. -/
def FramedFrom : ℕ→List HeaderRead→Prop
  | _, [] => True
  | pos, header::rest =>
    header.startp=pos ∧
      match header.attrEndp with
      | some attrEndp => FramedFrom attrEndp rest
      | none => rest=[]

/-- The headers are read one behind the other up to a position. -/
def FramedTo : ℕ→List HeaderRead→ℕ→Prop
  | pos, [], last => pos=last
  | pos, header::rest, last =>
    header.startp=pos ∧ ∃ attrEndp, header.attrEndp=some attrEndp ∧ FramedTo attrEndp rest last

section

variable {pos last : ℕ} {headers : List HeaderRead}

variable (hframed : FramedTo pos headers last)
include hframed

theorem FramedTo.framedFrom : FramedFrom pos headers := by
  induction headers generalizing pos with
  | nil => trivial
  | cons header rest ih =>
    obtain ⟨hstart,attrEndp,hend,hrs⟩ := hframed
    refine ⟨hstart,?_⟩
    rw [hend]
    exact ih hrs

theorem FramedTo.snoc (attrEndp : ℕ) : FramedTo pos (headers++[⟨last,some attrEndp⟩]) attrEndp := by
  induction headers generalizing pos with
  | nil => exact ⟨Eq.symm hframed,attrEndp,rfl,rfl⟩
  | cons header rest ih =>
    obtain ⟨hstart,e,hend,hrs⟩ := hframed
    exact ⟨hstart,e,hend,ih hrs⟩

theorem FramedTo.framedFrom_snoc (attrEndp : Option ℕ) :
    FramedFrom pos (headers++[⟨last,attrEndp⟩]) := by
  induction headers generalizing pos with
  | nil =>
    refine ⟨Eq.symm hframed,?_⟩
    cases attrEndp with
    | none => rfl
    | some e => trivial
  | cons header rest ih =>
    obtain ⟨hstart,e,hend,hrs⟩ := hframed
    refine ⟨hstart,?_⟩
    rw [hend]
    exact ih hrs

end

section

variable {beyond : BitVec 8} {peer : Peer} {block ys : List (BitVec 8)} {start off : ℕ}
  {h : AttrHeader} {p : ParseState}

/-- The loop stands at an offset of the block. -/
structure StandsAt (block ys : List (BitVec 8)) (start off : ℕ) (s : AttrState) : Prop where
  getp : s.ibuf.getp=start+off
  rest : s.ibuf.rest=block.drop off++ys

theorem StandsAt.readable (hstand : StandsAt block ys start off p.state) :
    block.length-off≤p.state.ibuf.readable := by
  rw [←length_rest,hstand.rest,length_append,length_drop]
  exact Nat.le_add_right _ _

theorem attrTurn_header (hstand : StandsAt block ys start off p.state)
    (hheader : headerAt block off=some h) :
    attrTurn beyond peer (start+block.length) p =
      attrBody beyond peer (start+block.length) p (start+off) h.flags h.type h.length
        (skipState p.state h.headerLen) := by
  have hlen := headerLen_of_headerAt hheader
  have hread := hstand.readable
  have hskip (k : ℕ) : (skipState p.state k).ibuf.readable=p.state.ibuf.readable-k :=
    skip_readable _ _
  have hmin : ¬start+block.length-(start+off)<attrMinLen := by
    unfold attrMinLen
    omega
  unfold attrTurn
  rw [hstand.getp,if_neg hmin,getc_eq (s := p.state) (by omega)]
  dsimp only
  rw [getc_eq (s := skipState p.state 1) (by rw [hskip]; omega),skipState_skipState]
  rw [skipState_ibuf,getD_skip]
  rcases headerAt_cases hheader with ⟨flags,b,rest,hblock,hflags,hext,hthree,hlength,-⟩ |
    ⟨flags,b0,b1,rest,hblock,hflags,hext,hfour,hlength,-⟩
  · have hrs : p.state.ibuf.rest=flags::h.type::b::(rest++ys) := by
      rw [hstand.rest,hblock]
      rfl
    have hif : ¬checkFlag (0xF0 &&& flags) flagExtlen=true := by
      rw [←hflags,hext]
      decide
    rw [hrs]
    change (if checkFlag (0xF0 &&& flags) flagExtlen=true then _ else _)=_
    rw [if_neg hif,getc_eq (s := skipState p.state 2) (by rw [hskip]; omega),skipState_skipState,
      skipState_ibuf,getD_skip,hrs,hthree,hlength,hflags]
    rfl
  · have hrs : p.state.ibuf.rest=flags::h.type::b0::b1::(rest++ys) := by
      rw [hstand.rest,hblock]
      rfl
    have hif : checkFlag (0xF0 &&& flags) flagExtlen=true := by rw [←hflags,hext]
    have hroom : ¬start+block.length-(start+off)<attrMinLen+1 := by
      unfold attrMinLen
      omega
    rw [hrs]
    change (if checkFlag (0xF0 &&& flags) flagExtlen=true then _ else _)=_
    rw [if_pos hif,if_neg hroom,getw_eq (s := skipState p.state 2) (by rw [hskip]; omega),
      skipState_skipState,skipState_ibuf,rest_skip,hrs,hfour,hlength,hflags]
    rfl

variable (beyond peer) in
theorem attrTurn_short (hstand : StandsAt block ys start off p.state) (hoff : off≤block.length)
    (hheader : headerAt block off=none) :
    ∃ p', attrTurn beyond peer (start+block.length) p=.stop .error p' ∧
      p'.state.notified.length=p.state.notified.length+1 ∧
      p'.interpreted=p.interpreted ∧
      (p'.headers=p.headers ∨ p'.headers=p.headers++[⟨start+off,none⟩]) := by
  have hread := hstand.readable
  have hskip (k : ℕ) : (skipState p.state k).ibuf.readable=p.state.ibuf.readable-k :=
    skip_readable _ _
  have hlen : (block.drop off).length=block.length-off := length_drop
  unfold attrTurn
  dsimp only
  rw [hstand.getp]
  by_cases hmin : start+block.length-(start+off)<attrMinLen
  · rw [if_pos hmin]
    exact ⟨_,rfl,length_notify _ _ _,rfl,.inl rfl⟩
  rw [if_neg hmin]
  unfold attrMinLen at hmin
  unfold headerAt at hheader
  match hblock : block.drop off with
  | [] | [_] | [_,_] =>
    rw [hblock] at hlen
    simp only [length_nil,length_cons] at hlen
    omega
  | flags::type::b0::rest =>
    rw [hblock] at hheader hlen
    dsimp only at hheader
    have hrs : p.state.ibuf.rest=flags::type::b0::(rest++ys) := by
      rw [hstand.rest,hblock]
      rfl
    split at hheader
    · rename_i hext
      cases rest with
      | cons b1 rest => cases hheader
      | nil =>
        have hroom : start+block.length-(start+off)<attrMinLen+1 := by
          simp only [length_nil,length_cons] at hlen
          unfold attrMinLen
          omega
        rw [getc_eq (s := p.state) (by omega),hrs]
        change ∃ p', (if checkFlag (0xF0 &&& flags) flagExtlen=true then _ else _)=_ ∧ _
        rw [if_pos hext,if_pos hroom,getc_eq (s := skipState p.state 1) (by rw [hskip]; omega)]
        exact ⟨_,rfl,length_notify _ _ _,rfl,.inr rfl⟩
    · cases hheader

/-- What a verdict means for the loop. -/
def LoopOutcome (h : AttrHeader) (startp : ℕ) (g g' : Gathered) (s : AttrState)
    (r : Option AttrParseRet × AttrState) : Verdict→Prop
  | .accept => r.1=none ∧ Passed h startp g' s r.2
  | .reject | .plead => r.1=some .error ∧ r.2.notified.length=s.notified.length+1
  | .leak => r.1=some .errorNotifypls ∧ Passed h startp g s r.2
  | .doubled => r.1=some .error ∧ r.2.notified.length=s.notified.length+2
  | .withdraw => r.1=some .withdraw ∧ Consumed h startp s r.2

variable (beyond peer) in
theorem attrInterpret_outcome {v : List (BitVec 8)} {startp : ℕ} (hrdy : Ready h startp v ys s) :
    LoopOutcome h startp (gathered s) (gatherAttr beyond peer h v (gathered s)) s
      (attrInterpret beyond peer (h.args startp) s) (attrVerdict beyond peer h v) := by
  have hflags : bgpAttrFlagInvalid beyond (h.args startp)=h.flagsInvalid beyond := rfl
  unfold attrInterpret attrVerdict gatherAttr
  rw [hflags]
  cases hinvalid : h.flagsInvalid beyond with
  | true =>
    rw [if_pos rfl,if_pos rfl,if_pos rfl]
    have hout : Outcome h startp (gathered s) s (bgpAttrMalformed peer (h.args startp)
        .attrFlagErr (h.args startp).total s) (malformedVerdict peer h) :=
      malformed_outcome hrdy .attrFlagErr h.total rfl rfl rfl
    have hne := malformedVerdict_ne peer h
    generalize bgpAttrMalformed peer (h.args startp) .attrFlagErr (h.args startp).total s=r at *
    obtain ⟨ret,s'⟩ := r
    cases hver : malformedVerdict peer h with
    | plead => exact absurd hver hne.1
    | doubled => exact absurd hver hne.2
    | accept | reject | leak | withdraw =>
      rw [hver] at hout
      obtain ⟨hret,hrs⟩ := hout
      subst hret
      exact ⟨rfl,hrs⟩
  | false =>
    rw [if_neg (by decide),if_neg (by decide),if_neg (by decide)]
    have hout : Outcome h startp (gatherSwitch peer h v (gathered s)) s
      (attrSwitch peer (h.args startp) s) (switchVerdict peer h v) := attrSwitch_outcome hrdy
    have hne := switchVerdict_ne_leak peer h v
    generalize attrSwitch peer (h.args startp) s=r at *
    obtain ⟨ret,s'⟩ := r
    unfold attrResult
    cases hver : switchVerdict peer h v with
    | leak => exact absurd hver hne
    | accept =>
      rw [hver] at hout
      obtain ⟨hret,hpassed⟩ := hout
      subst hret
      have hend : ¬s'.ibuf.getp≠(h.args startp).startp+(h.args startp).total :=
        not_not.mpr hpassed.getp
      rw [if_neg hend]
      exact ⟨rfl,hpassed⟩
    | reject | withdraw =>
      rw [hver] at hout
      obtain ⟨hret,hrs⟩ := hout
      subst hret
      exact ⟨rfl,hrs⟩
    | plead =>
      rw [hver] at hout
      obtain ⟨hret,hsame⟩ := hout
      subst hret
      refine ⟨rfl,(length_notify _ _ _).trans ?_⟩
      rw [show s'.notified=s.notified from hsame]
    | doubled =>
      rw [hver] at hout
      obtain ⟨hret,hsent⟩ := hout
      subst hret
      refine ⟨rfl,(length_notify _ _ _).trans ?_⟩
      rw [show s'.notified.length=s.notified.length+1 from hsent]

structure HistoryOk (start : ℕ) (p : ParseState) : Prop where
  framed : FramedFrom start p.headers
  once : p.interpreted.Nodup

/-- The state of the loop before a round. -/
structure AtBoundary (beyond : BitVec 8) (peer : Peer) (block ys : List (BitVec 8)) (start off : ℕ)
    (seen : Finset (BitVec 8)) (g : Gathered) (p : ParseState) : Prop where
  before : Before beyond peer block off seen g
  stands : StandsAt block ys start off p.state
  bitmap : p.seen=seen
  gathers : gathered p.state=g
  notified : p.state.notified=[]
  framed : FramedTo start p.headers (start+off)
  once : p.interpreted.Nodup
  interpreted : ∀ type∈p.interpreted, type∈seen

variable {seen : Finset (BitVec 8)} {g : Gathered}

theorem AtBoundary.history (hb : AtBoundary beyond peer block ys start off seen g p) :
    HistoryOk start p :=
  ⟨hb.framed.framedFrom,hb.once⟩

theorem StandsAt.ready (hstand : StandsAt block ys start off s)
    (hheader : headerAt block off=some h) (hin : off+h.total≤block.length) :
    Ready h (start+off) (valueAt block off h) (block.drop (off+h.total)++ys)
      (skipState s h.headerLen) := by
  have hlen := headerLen_of_headerAt hheader
  have hread : block.length-off ≤ s.ibuf.readable := by
    rw [←length_rest,hstand.rest,length_append,length_drop]
    exact Nat.le_add_right _ _
  obtain ⟨hraw,hbs⟩ := raw_of_headerAt hheader
  refine ⟨by omega,hraw,?_,?_,?_,length_valueAt hin⟩
  · have hrs : s.ibuf.data.drop (start+off)=block.drop off++ys := by
      rw [←hstand.getp]
      exact hstand.rest
    change s.ibuf.data.drop (start+off)=_
    rw [hrs,hbs,drop_headerLen,append_assoc,append_assoc]
  · rw [skipState_ibuf,skip_getp (by omega),hstand.getp]
  have hle : h.headerLen≤(block.drop off).length := by
    rw [length_drop]
    omega
  rw [skipState_ibuf,rest_skip,hstand.rest,drop_append_of_le_length hle,drop_drop,
    drop_headerLen,append_assoc]

theorem StandsAt.consumed {s' : AttrState} (hstand : StandsAt block ys start off s)
    (hin : off+h.total≤block.length)
    (hconsumed : Consumed h (start+off) (skipState s h.headerLen) s') :
    StandsAt block ys start (off+h.total) s' := by
  refine ⟨by rw [hconsumed.getp,add_assoc],?_⟩
  have hbehind : s'.ibuf.data.drop (start+off+h.total) =
      s.ibuf.data.drop (start+off+h.total) := hconsumed.behind
  have hrs : s.ibuf.data.drop (start+off)=block.drop off++ys := by
    rw [←hstand.getp]
    exact hstand.rest
  have hle : h.total≤(block.drop off).length := by
    rw [length_drop]
    omega
  rw [Stream.rest,hconsumed.getp,hbehind,←drop_drop,hrs,drop_append_of_le_length hle,drop_drop]

/-- What a verdict means for the round. -/
def TurnOutcome (beyond : BitVec 8) (peer : Peer) (block ys : List (BitVec 8)) (start off : ℕ)
    (seen : Finset (BitVec 8)) (g : Gathered) (h : AttrHeader) (turn : Turn) : Verdict→Prop
  | .accept => ∃ p, turn=.next p ∧ AtBoundary beyond peer block ys start (off+h.total)
      (insert h.type seen) (gatherAttr beyond peer h (valueAt block off h) g) p
  | .reject | .plead => ∃ p, turn=.stop .error p ∧ HistoryOk start p ∧ p.state.notified.length=1
  | .leak => ∃ p, turn=.stop .errorNotifypls p ∧ HistoryOk start p ∧ p.state.notified=[] ∧
      StandsAt block ys start (off+h.total) p.state ∧ gathered p.state=g
  | .doubled => ∃ p, turn=.stop .error p ∧ HistoryOk start p ∧ p.state.notified.length=2
  | .withdraw => ∃ p, turn=.stop .withdraw p ∧ HistoryOk start p ∧ p.state.notified=[] ∧
      StandsAt block ys start (off+h.total) p.state

variable (hb : AtBoundary beyond peer block ys start off seen g p)
include hb

theorem attrTurn_meets (hmeets : Meets beyond peer block off seen g h) :
    TurnOutcome beyond peer block ys start off seen g h
      (attrTurn beyond peer (start+block.length) p)
      (attrVerdict beyond peer h (valueAt block off h)) := by
  have hrdy := hb.stands.ready hmeets.header hmeets.within
  have hout := attrInterpret_outcome beyond peer hrdy
  have hbook : gathered (skipState p.state h.headerLen)=g := hb.gathers
  rw [hbook] at hout
  have hnew : ¬h.type∈p.seen := by
    rw [hb.bitmap]
    exact hmeets.new
  have hend : (skipState p.state h.headerLen).ibuf.getp+h.length=start+off+h.total := by
    rw [hrdy.getp,AttrHeader.total,add_assoc]
  have hin : ¬start+off+h.total > start+block.length := by
    have hwithin := hmeets.within
    omega
  have htotal : start+off+h.total-(start+off)=h.total := Nat.add_sub_cancel_left _ _
  have hhistory (s : AttrState) : HistoryOk start ⟨s,insert h.type p.seen,
      p.headers++[⟨start+off,some (start+off+h.total)⟩],p.interpreted++[h.type]⟩ := by
    refine ⟨hb.framed.framedFrom_snoc _,?_⟩
    rw [nodup_append]
    refine ⟨hb.once,nodup_singleton _,fun type hmem type' hmem' heq => ?_⟩
    rw [mem_singleton] at hmem'
    refine hmeets.new ?_
    rw [←hmem',←heq]
    exact hb.interpreted type hmem
  rw [attrTurn_header hb.stands hmeets.header,attrBody]
  dsimp only
  have hargs : (⟨h.length,h.total,h.type,h.flags,start+off⟩ : AttrArgs)=h.args (start+off) := rfl
  rw [if_neg hnew,hend,if_neg hin,htotal,hargs]
  generalize attrInterpret beyond peer (h.args (start+off)) (skipState p.state h.headerLen)=r at *
  obtain ⟨ret,s⟩ := r
  cases hver : attrVerdict beyond peer h (valueAt block off h) with
  | accept =>
    rw [hver] at hout
    obtain ⟨hret,hpassed⟩ := hout
    subst hret
    refine ⟨_,rfl,?_⟩
    exact {
      before := hb.before.next hmeets.header hmeets.new hmeets.within hver
      stands := hb.stands.consumed hmeets.within hpassed.toConsumed
      bitmap := by rw [hb.bitmap]
      gathers := hpassed.gathers
      notified := hpassed.notified.trans hb.notified
      framed := by
        rw [←add_assoc]
        exact hb.framed.snoc _
      once := (hhistory s).once
      interpreted := fun type hmem => by
        rcases mem_append.mp hmem with hmem|hmem
        · exact Finset.mem_insert_of_mem (hb.interpreted type hmem)
        · rw [mem_singleton.mp hmem]
          exact Finset.mem_insert_self _ _ }
  | reject | plead | doubled =>
    rw [hver] at hout
    obtain ⟨hret,hsent⟩ := hout
    subst hret
    refine ⟨_,rfl,hhistory s,hsent.trans ?_⟩
    change p.state.notified.length+_=_
    rw [hb.notified]
    rfl
  | leak =>
    rw [hver] at hout
    obtain ⟨hret,hpassed⟩ := hout
    subst hret
    exact ⟨_,rfl,hhistory s,hpassed.notified.trans hb.notified,
      hb.stands.consumed hmeets.within hpassed.toConsumed,hpassed.gathers⟩
  | withdraw =>
    rw [hver] at hout
    obtain ⟨hret,hconsumed⟩ := hout
    subst hret
    exact ⟨_,rfl,hhistory s,hconsumed.notified.trans hb.notified,
      hb.stands.consumed hmeets.within hconsumed⟩

/-- A round that meets no attribute sends one message and returns. -/
theorem attrTurn_stops (hoff : off≤block.length)
    (hmeets : ∀ h, ¬Meets beyond peer block off seen g h) :
    ∃ p', attrTurn beyond peer (start+block.length) p=.stop .error p' ∧ HistoryOk start p' ∧
      p'.state.notified.length=1 := by
  cases hheader : headerAt block off with
  | none =>
    obtain ⟨p',hturn,hsent,hsame,hhs⟩ := attrTurn_short beyond peer hb.stands hoff hheader
    refine ⟨p',hturn,⟨?_,?_⟩,?_⟩
    · rcases hhs with hhs|hhs
      · rw [hhs]
        exact hb.framed.framedFrom
      rw [hhs]
      exact hb.framed.framedFrom_snoc _
    · rw [hsame]
      exact hb.once
    rw [hsent,hb.notified]
    rfl
  | some h =>
    have hlen := headerLen_of_headerAt hheader
    have hread := hb.stands.readable
    have hend : (skipState p.state h.headerLen).ibuf.getp+h.length=start+off+h.total := by
      rw [skipState_ibuf,skip_getp (by omega),hb.stands.getp,AttrHeader.total,
        add_assoc (start+off)]
    have hsent (subcode : UpdateSubcode) :
        ((skipState p.state h.headerLen).notify subcode []).notified.length=1 := by
      rw [length_notify]
      change p.state.notified.length+1=1
      rw [hb.notified]
      rfl
    rw [attrTurn_header hb.stands hheader,attrBody]
    rw [hend]
    by_cases hseen : h.type∈p.seen
    · rw [if_pos hseen]
      exact ⟨_,rfl,⟨hb.framed.framedFrom_snoc _,hb.once⟩,hsent _⟩
    have hpast : start+off+h.total > start+block.length := by
      have hnot : ¬off+h.total≤block.length := by
        intro hin
        rw [hb.bitmap] at hseen
        exact hmeets h ⟨hb.before,hheader,hseen,hin⟩
      omega
    rw [if_neg hseen,if_pos hpast]
    exact ⟨_,rfl,⟨hb.framed.framedFrom_snoc _,hb.once⟩,hsent _⟩

end

end RoutePlatform.AttrFraming
