import RoutePlatform.AsPathCanonical
import RoutePlatform.DecimalText

/-!
# AS paths as text

`aspath_make_str_count` prints a path into a buffer whose room is estimated segment by
segment, and `aspath_str2aspath` builds a path from tokens. The room suffices for every
path, no AS number is lost, and a normalised path is read back.
-/

namespace RoutePlatform.AsPathText

open AsPathOperations AsPathSynthesis AsPathParsing AsPathEncoding AsPathAggregate AttrHashing
  DecimalText List
open BestPathOperations (aspathCmp aspathCmp_iff)

variable {rest : List Char} {c : Char} (seg : Assegment) (path : Aspath) (a : AsT)
  (segments : List Assegment)

/-- The variables of `aspath_make_str_count`. -/
structure StrBuf where
  /-- `str_buf` up to the terminator. -/
  chars : List Char
  len : ℕ
  size : ℕ

/-- `len += snprintf (str_buf + len, str_size - len, …)`: the text is cut, `len` counts it all. -/
def StrBuf.print (buf : StrBuf) (text : List Char) : StrBuf where
  chars := buf.chars++text.take (buf.size-buf.len-1)
  len := buf.len+text.length
  size := buf.size

def asnStrLen : ℕ := 10+1

def segmentStrLen (seg : Assegment) : ℕ := seg.length*asnStrLen+2+1+1

/-- `assegment_count_asns` from the first AS number on. -/
def assegmentCountAsns (segments : List Assegment) : ℕ := (segments.map Assegment.length).sum

def aspathStrDefaultLen : ℕ := 32

/-- The buffer is made larger where the segment may not fit. -/
def StrBuf.grow (buf : StrBuf) (seg : Assegment) : StrBuf :=
  if buf.size<buf.len+segmentStrLen seg then {buf with size := buf.len+segmentStrLen seg}
  else buf

/-- The AS numbers with their separators, bar the last one. -/
def StrBuf.printAsns (seperator : Char) : StrBuf→List AsT→StrBuf
  | buf, [] => buf
  | buf, [a] => buf.print (Nat.toDigits 10 a.toNat)
  | buf, a::as => ((buf.print (Nat.toDigits 10 a.toNat)).print [seperator]).printAsns seperator as

def StrBuf.printSegment (buf : StrBuf) (seg : Assegment) : StrBuf :=
  let buf := buf.grow seg
  if seg.type=.asSequence then buf.printAsns (separator seg.type) seg.as
  else ((buf.print (aspathDelimiterChar seg.type).1).printAsns (separator seg.type) seg.as).print
      (aspathDelimiterChar seg.type).2

def StrBuf.printSegments : StrBuf→List Assegment→StrBuf
  | buf, [] => buf
  | buf, [seg] => buf.printSegment seg
  | buf, seg::rest => ((buf.printSegment seg).print [' ']).printSegments rest

/-- `aspath_make_str_count` with its buffer. A failed assertion answers nothing. -/
def aspathMakeStr (segments : List Assegment) : Option (List Char) := if segments=[] then some []
  else
    let buf := StrBuf.printSegments
      ⟨[],0,max (assegmentCountAsns segments*asnStrLen+2+1) aspathStrDefaultLen⟩ segments
    if buf.len<buf.size then some buf.chars else none

/-- `enum as_token`, with the AS number where there is one. -/
inductive AsToken where
  | asval (asno : AsT) | setStart | setEnd | confedSeqStart | confedSeqEnd | confedSetStart
  | confedSetEnd | unknown
  deriving DecidableEq

/-- The delimiters that `aspath_gettoken` knows. -/
def delimiterToken : Char→Option AsToken
  | '\x7b' => some .setStart
  | '\x7d' => some .setEnd
  | '(' => some .confedSeqStart
  | ')' => some .confedSeqEnd
  | '[' => some .confedSetStart
  | ']' => some .confedSetEnd
  | _ => none

/-- The separators that `aspath_gettoken` skips. -/
def isSeperator (c : Char) : Bool := isspace c || c == ','

/-- `aspath_gettoken`: what is left of the text, and the token. -/
def aspathGettoken (buf : List Char) : Option (List Char × AsToken) :=
  match buf.dropWhile isSeperator with
  | [] => none
  | c::p =>
    match delimiterToken c with
    | some token => some (p,token)
    | none =>
      if c.isDigit then
        some ((c::p).dropWhile Char.isDigit,
          .asval (((c::p).takeWhile Char.isDigit).foldl addDigit 0))
      else some (c::p,.unknown)

def aspathSegmentAdd (path : Aspath) (type : SegmentType) : Aspath := path++[assegmentNew type []]

def aspathAsAdd (path : Aspath) (asno : AsT) : Aspath :=
  match path.getLast? with
  | none => path
  | some seg => path.dropLast++[assegmentAppendAsns seg [asno]]

/-- The variables of `aspath_str2aspath`. -/
structure Building where
  aspath : Aspath
  asType : SegmentType
  needtype : Bool

/-- A segment of this type is started. -/
def Building.start (b : Building) (type : SegmentType) : Building :=
  ⟨aspathSegmentAdd b.aspath type,type,false⟩

/-- A segment is ended: a number starts a sequence from now on. -/
def Building.finish (b : Building) : Building := ⟨b.aspath,.asSequence,true⟩

/-- One turn of `aspath_str2aspath`. -/
def Building.take (b : Building) : AsToken→Building
  | .asval asno =>
    let b := if b.needtype then b.start b.asType else b
    {b with aspath := aspathAsAdd b.aspath asno}
  | .setStart => b.start .asSet
  | .confedSeqStart => b.start .asConfedSequence
  | .confedSetStart => b.start .asConfedSet
  | .setEnd | .confedSeqEnd | .confedSetEnd => b.finish
  | .unknown => b

variable {token : AsToken}

theorem length_aspathGettoken {buf : List Char} (h : aspathGettoken buf=some (rest,token))
    (htoken : token ≠ .unknown) : rest.length<buf.length := by
  have hskip := (dropWhile_suffix (l := buf) isSeperator).length_le
  rw [aspathGettoken] at h
  split at h
  · cases h
  next c p hp =>
  rw [hp,length_cons] at hskip
  split at h
  · cases h
    exact hskip
  split at h
  · next hdigit =>
    cases h
    rw [dropWhile_cons_of_pos hdigit]
    exact (dropWhile_suffix Char.isDigit).length_le.trans_lt hskip
  cases h
  exact absurd rfl htoken

def str2aspathLoop (str : List Char) (b : Building) : Option Aspath :=
  match h : aspathGettoken str with
  | none => some b.aspath
  | some (rest,token) =>
    if htoken : token=.unknown then none
    else
      have := length_aspathGettoken h htoken
      str2aspathLoop rest (b.take token)
termination_by str.length

def aspathStr2aspath (str : List Char) : Option Aspath := str2aspathLoop str ⟨[],.asSequence,true⟩


/-- The buffer holds this text, and `k` more characters fit. -/
structure StrBuf.Holds (buf : StrBuf) (text : List Char) (k : ℕ) : Prop where
  chars : buf.chars=text
  len : buf.len=text.length
  room : text.length+k<buf.size

/-- The decimal text of an AS number. -/
def asnStr (asno : AsT) : List Char := Nat.toDigits 10 asno.toNat

theorem length_asnStr (asno : AsT) : (asnStr asno).length≤10 :=
  (Nat.length_toDigits_le_iff (by decide) (by decide)).mpr (asno.isLt.trans (by decide))

theorem segmentStr_eq : segmentStr seg=(aspathDelimiterChar seg.type).1 ++
    ((seg.as.map asnStr).intersperse [separator seg.type]).flatten ++
      (aspathDelimiterChar seg.type).2 := rfl

theorem segmentStr_sequence {seg : Assegment} (h : seg.type=.asSequence) :
    segmentStr seg=((seg.as.map asnStr).intersperse [separator seg.type]).flatten := by
  rw [segmentStr_eq,h]
  exact append_nil _

section

variable {buf : StrBuf} {text : List Char} {k : ℕ}

theorem StrBuf.Holds.print (h : buf.Holds text k) (t : List Char) (k' : ℕ)
    (hk : t.length+k'≤k) : (buf.print t).Holds (text++t) k' := by
  have hroom := h.room
  have htake : t.take (buf.size-buf.len-1)=t := by
    apply take_of_length_le
    rw [h.len]
    omega
  refine ⟨?_,?_,?_⟩
  · rw [StrBuf.print,htake,h.chars]
  · rw [StrBuf.print,h.len,length_append]
  rw [StrBuf.print,length_append]
  dsimp only
  omega

theorem StrBuf.Holds.less (h : buf.Holds text k) {k' : ℕ} (hk : k'≤k) : buf.Holds text k' :=
  ⟨h.chars,h.len,(Nat.add_le_add_left hk _).trans_lt h.room⟩

/-- Ten characters for a number and one behind it are enough. -/
theorem StrBuf.Holds.printAsns (seperator : Char) (as : List AsT) (k' : ℕ)
    (h : buf.Holds text k) (hk : as.length*asnStrLen+k'≤k) :
    (buf.printAsns seperator as).Holds
      (text++((as.map asnStr).intersperse [seperator]).flatten) k' := by
  induction as generalizing buf text k with
  | nil =>
    rw [map_nil,intersperse_nil,flatten_nil,append_nil]
    exact h.less (le_of_add_le_right hk)
  | cons a as ih =>
    have ha := length_asnStr a
    rw [length_cons,asnStrLen] at hk
    cases as with
    | nil =>
      rw [map_singleton,intersperse_singleton,flatten_singleton]
      exact h.print (asnStr a) k' (by rw [length_nil] at hk; omega)
    | cons b as =>
      have hnumber := h.print (asnStr a) ((b::as).length*asnStrLen+k'+1) (by rw [asnStrLen]; omega)
      have hboth := hnumber.print [seperator] _ (add_comm 1 _).le
      have hrs := ih hboth le_rfl
      rw [map_cons,map_cons,intersperse_cons_cons,flatten_cons,flatten_cons]
      rw [append_assoc,append_assoc] at hrs
      exact hrs

variable (h : buf.Holds text 0)
include h

theorem StrBuf.Holds.grow (seg : Assegment) :
    (buf.grow seg).Holds text (seg.length*asnStrLen+3) := by
  have hlen := h.len
  rw [StrBuf.grow,segmentStrLen]
  split
  · exact ⟨h.chars,h.len,by dsimp only; omega⟩
  · exact ⟨h.chars,h.len,by omega⟩

theorem StrBuf.Holds.printSegment (seg : Assegment) :
    (buf.printSegment seg).Holds (text++segmentStr seg) 1 := by
  have hgrow := h.grow seg
  rw [StrBuf.printSegment]
  split
  · next hseq =>
    have hasns := hgrow.printAsns (separator seg.type) seg.as 1 (Nat.add_le_add_left (by decide) _)
    rw [segmentStr_sequence hseq]
    exact hasns
  have hdelimiter : ∀ t : SegmentType, (aspathDelimiterChar t).1.length≤1 ∧
      (aspathDelimiterChar t).2.length≤1 := by
    intro t
    cases t <;> decide
  have hopen := hgrow.print (aspathDelimiterChar seg.type).1 (seg.length*asnStrLen+2)
    (by have := (hdelimiter seg.type).1; omega)
  have hasns := hopen.printAsns (separator seg.type) seg.as 2 le_rfl
  have hclose := hasns.print (aspathDelimiterChar seg.type).2 1
    (Nat.add_le_add_right (hdelimiter seg.type).2 1)
  rw [append_assoc text,append_assoc text] at hclose
  exact hclose

theorem StrBuf.Holds.printSegments :
    (buf.printSegments segments).Holds (text++aspathMakeStrCount segments) 0 := by
  induction segments generalizing buf text with
  | nil =>
    rw [aspathMakeStrCount,map_nil,intersperse_nil,flatten_nil,append_nil]
    exact h
  | cons seg rest ih =>
    have hseg := h.printSegment seg
    cases rest with
    | nil =>
      rw [aspathMakeStrCount,map_singleton,intersperse_singleton,flatten_singleton]
      exact hseg.less (Nat.zero_le _)
    | cons seg' rest =>
      have hrs := ih (hseg.print [' '] 0 le_rfl)
      rw [aspathMakeStrCount,map_cons,map_cons,intersperse_cons_cons,flatten_cons,flatten_cons]
      rw [append_assoc,append_assoc] at hrs
      exact hrs

end

theorem aspathMakeStr_eq : aspathMakeStr segments=some (aspathMakeStrCount segments) := by
  rw [aspathMakeStr]
  split
  · next h =>
    rw [h]
    rfl
  have hstart : StrBuf.Holds
      ⟨[],0,max (assegmentCountAsns segments*asnStrLen+2+1) aspathStrDefaultLen⟩ [] 0 :=
    ⟨rfl,rfl,lt_max_of_lt_right (by decide)⟩
  have hholds := hstart.printSegments segments
  have hlen := hholds.len.trans_lt hholds.room
  rw [if_pos hlen,hholds.chars,nil_append]

/-- The runs of digits in a text. -/
def numbers (text : List Char) : List (List Char) :=
  (text.splitOnP fun c => !c.isDigit).filter (· ≠ [])

def Ends (rest : List Char) : Prop := ∀ c∈rest.head?, c.isDigit=false

theorem ends_cons (h : c.isDigit=false) (rest : List Char) : Ends (c::rest) := by
  rintro c' ⟨⟩
  exact h

theorem numbers_cons (h : c.isDigit=false) (rest : List Char) : numbers (c::rest)=numbers rest := by
  rw [numbers,splitOnP_cons_eq_if_modifyHead,if_pos (by rw [h]; rfl),filter_cons_of_neg (by decide)]
  rfl

theorem numbers_asnStr (h : Ends rest) : numbers (asnStr a++rest)=asnStr a::numbers rest := by
  have hdigits : ∀ c∈asnStr a, (!c.isDigit)=false := by
    intro c hc
    rw [isDigit_toDigits hc]
    rfl
  have hne : decide (asnStr a≠[])=true := decide_eq_true Nat.toDigits_ne_nil
  cases rest with
  | nil =>
    rw [append_nil,numbers,splitOnP_eq_singleton hdigits,filter_cons,if_pos hne]
    rfl
  | cons c rest =>
    have hc := h c rfl
    rw [numbers_cons hc,numbers,splitOnP_append_cons_of_forall_mem hdigits c (by rw [hc]; rfl),
      filter_cons,if_pos hne]
    rfl

theorem numbers_flatMap {sep : Char} (hsep : sep.isDigit=false) (as : List AsT) (h : Ends rest) :
    Ends (as.flatMap (fun a => sep::asnStr a)++rest) ∧
      numbers (as.flatMap (fun a => sep::asnStr a)++rest)=as.map asnStr++numbers rest := by
  induction as with
  | nil => exact ⟨h,rfl⟩
  | cons a as ih =>
    rw [flatMap_cons,cons_append,cons_append]
    refine ⟨ends_cons hsep _,?_⟩
    rw [numbers_cons hsep,append_assoc,numbers_asnStr a ih.1,ih.2]
    rfl

theorem isDigit_separator (type : SegmentType) : (separator type).isDigit=false := by
  cases type <;> rfl

theorem segmentStr_cons {seg : Assegment} {a : AsT} {as : List AsT} (h : seg.as=a::as) :
    segmentStr seg=(aspathDelimiterChar seg.type).1++(asnStr a++
      (as.flatMap (fun a => separator seg.type::asnStr a)++(aspathDelimiterChar seg.type).2)) := by
  rw [segmentStr,h,map_cons,flatten_intersperse_cons,flatMap_map]
  simp only [append_assoc]
  rfl

theorem numbers_segmentStr (h : Ends rest) :
    numbers (segmentStr seg++rest)=seg.as.map asnStr++numbers rest := by
  have hskip : ∀ text, numbers ((aspathDelimiterChar seg.type).1++text)=numbers text := by
    intro text
    cases seg.type
    · exact numbers_cons rfl text
    · rfl
    · exact numbers_cons rfl text
    · exact numbers_cons rfl text
  have hclose : Ends ((aspathDelimiterChar seg.type).2++rest) ∧
      numbers ((aspathDelimiterChar seg.type).2++rest)=numbers rest := by
    cases seg.type
    · exact ⟨ends_cons rfl _,numbers_cons rfl rest⟩
    · exact ⟨h,rfl⟩
    · exact ⟨ends_cons rfl _,numbers_cons rfl rest⟩
    · exact ⟨ends_cons rfl _,numbers_cons rfl rest⟩
  cases has : seg.as with
  | nil =>
    rw [segmentStr,has,map_nil,intersperse_nil,flatten_nil,append_nil,append_assoc,hskip,hclose.2]
    rfl
  | cons a as =>
    obtain ⟨hends,hnumbers⟩ := numbers_flatMap (isDigit_separator seg.type) as hclose.1
    rw [segmentStr_cons has,append_assoc,hskip,append_assoc,append_assoc,numbers_asnStr a hends,
      hnumbers,hclose.2]
    rfl

theorem aspathMakeStrCount_cons (rest : Aspath) :
    aspathMakeStrCount (seg::rest)=segmentStr seg++rest.flatMap fun s => ' '::segmentStr s := by
  rw [aspathMakeStrCount,map_cons,flatten_intersperse_cons,flatMap_map]

theorem ends_path : Ends (path.flatMap fun s => ' '::segmentStr s) := by
  cases path with
  | nil => exact fun c hc => nomatch hc
  | cons seg path => exact ends_cons rfl _

theorem numbers_aspathMakeStrCount :
    numbers (aspathMakeStrCount path)=(asnsOf path).map asnStr := by
  have hrs : ∀ path : Aspath, numbers (path.flatMap fun s => ' '::segmentStr s) =
      (asnsOf path).map asnStr := by
    intro path
    induction path with
    | nil => rfl
    | cons seg path ih =>
      rw [flatMap_cons,cons_append,numbers_cons rfl,numbers_segmentStr seg (ends_path path),ih,
        ←map_append]
      rfl
  cases path with
  | nil => rfl
  | cons seg path =>
    rw [aspathMakeStrCount_cons,numbers_segmentStr seg (ends_path path),hrs,←map_append]
    rfl

theorem aspathGettoken_separator (h : isSeperator c=true) (text : List Char) :
    aspathGettoken (c::text)=aspathGettoken text := by
  rw [aspathGettoken,aspathGettoken,dropWhile_cons_of_pos h]

theorem aspathGettoken_asnStr (h : Ends rest) :
    aspathGettoken (asnStr a++rest)=some (rest,.asval a) := by
  obtain ⟨c,ds,hds,hc⟩ := exists_toDigits a.toNat
  have hdigits : ∀ c∈asnStr a, c.isDigit=true := fun _ => isDigit_toDigits
  have hval : (asnStr a).foldl addDigit 0=a := by
    rw [asnStr,foldl_addDigit_toDigits,BitVec.ofNat_toNat,BitVec.setWidth_eq]
  have hrs : rest.dropWhile Char.isDigit=rest ∧ rest.takeWhile Char.isDigit=[] := by
    cases rest with
    | nil => exact ⟨rfl,rfl⟩
    | cons c' rest =>
      have hc' : ¬c'.isDigit=true := by
        rw [h c' rfl]
        decide
      exact ⟨dropWhile_cons_of_neg hc',takeWhile_cons_of_neg hc'⟩
  have hskip : isSeperator c=false := by
    rw [isSeperator,isspace_of_isDigit hc,Bool.false_or,beq_eq_false_iff_ne]
    rintro rfl
    cases hc
  have hdelimiter : delimiterToken c=none := by
    unfold delimiterToken
    split <;> first | rfl | cases hc
  have htext : asnStr a++rest=c::(ds++rest) := by rw [asnStr,hds,cons_append]
  rw [aspathGettoken,htext,dropWhile_cons_of_neg (by rw [hskip]; decide)]
  simp only
  rw [hdelimiter]
  rw [if_pos hc,←htext,dropWhile_append_of_pos hdigits,hrs.1,takeWhile_append_of_pos hdigits,
    hrs.2,append_nil,hval]

theorem str2aspathLoop_eq (str : List Char) (b : Building) :
    str2aspathLoop str b=match aspathGettoken str with
      | none => some b.aspath
      | some (rest,token) =>
        if token=.unknown then none else str2aspathLoop rest (b.take token) := by
  rw [str2aspathLoop]
  split
  · next h => rw [h]
  · next h => simp only [h,dite_eq_ite]

theorem str2aspathLoop_token {str : List Char} (h : aspathGettoken str=some (rest,token))
    (htoken : token ≠ .unknown) (b : Building) :
    str2aspathLoop str b=str2aspathLoop rest (b.take token) := by
  rw [str2aspathLoop_eq,h]
  exact if_neg htoken

theorem str2aspathLoop_separator (h : isSeperator c=true) (str : List Char) (b : Building) :
    str2aspathLoop (c::str) b=str2aspathLoop str b := by
  rw [str2aspathLoop_eq,aspathGettoken_separator h,←str2aspathLoop_eq]

theorem aspathAsAdd_append (seg : Assegment) (asno : AsT) :
    aspathAsAdd (path++[seg]) asno=path++[assegmentAppendAsns seg [asno]] := by
  rw [aspathAsAdd,getLast?_concat,dropLast_concat]

section

variable {sep : Char} {rest : List Char} {path : Aspath} {type : SegmentType}

/-- The numbers behind separators are appended to the last segment. -/
theorem str2aspathLoop_flatMap (hsep : isSeperator sep=true)
    (hdigit : sep.isDigit=false) (hrs : Ends rest) (as : List AsT) {x y : Assegment}
    (hty : y.type=x.type) (has : y.as=x.as++as) :
    str2aspathLoop (as.flatMap (fun a => sep::asnStr a)++rest) ⟨path++[x],type,false⟩ =
      str2aspathLoop rest ⟨path++[y],type,false⟩ := by
  induction as generalizing x with
  | nil =>
    have hxy := Assegment.ext hty.symm (by rw [has,append_nil])
    rw [hxy]
    rfl
  | cons a as ih =>
    have hfits := y.fits
    rw [has,append_cons,length_append] at hfits
    have happend : (assegmentAppendAsns x [a]).as=x.as++[a] :=
      assegmentNew_of_lt ((Nat.le_add_right _ _).trans_lt hfits)
    have hget := aspathGettoken_asnStr a (numbers_flatMap hdigit as hrs).1
    rw [flatMap_cons,cons_append,cons_append,append_assoc,str2aspathLoop_separator hsep,
      str2aspathLoop_token hget AsToken.noConfusion]
    have htake : Building.take ⟨path++[x],type,false⟩ (.asval a) =
        ⟨path++[assegmentAppendAsns x [a]],type,false⟩ := by
      rw [←aspathAsAdd_append]
      rfl
    rw [htake]
    exact ih hty (by rw [happend,has,append_cons])

theorem str2aspathLoop_asns {seg : Assegment} (hne : seg.as≠[]) (hrs : Ends rest) (b : Building) :
    str2aspathLoop (((seg.as.map asnStr).intersperse [separator seg.type]).flatten++rest)
        (b.start seg.type) =
      str2aspathLoop rest ⟨b.aspath++[seg],seg.type,false⟩ := by
  have hsep : isSeperator (separator seg.type)=true := by cases seg.type <;> rfl
  obtain ⟨a,as,has⟩ := exists_cons_of_ne_nil hne
  have htext : separator seg.type::(((seg.as.map asnStr).intersperse [separator seg.type]).flatten
      ++rest)=seg.as.flatMap (fun a => separator seg.type::asnStr a)++rest := by
    rw [has,map_cons,flatten_intersperse_cons,flatMap_map,flatMap_cons,cons_append]
    rfl
  rw [←str2aspathLoop_separator hsep,htext]
  exact str2aspathLoop_flatMap hsep (isDigit_separator _) hrs seg.as rfl (nil_append _).symm

theorem str2aspathLoop_start {text : List Char} (htext : Ends text) {b : Building}
    (hb : b.needtype=true) :
    str2aspathLoop (asnStr a++text) b=str2aspathLoop (asnStr a++text) (b.start b.asType) := by
  have hget := aspathGettoken_asnStr a htext
  rw [str2aspathLoop_token hget AsToken.noConfusion,str2aspathLoop_token hget AsToken.noConfusion,
    Building.take,Building.take,if_pos hb]
  rfl

theorem str2aspathLoop_delimiter (h : type ≠ .asSequence) (text : List Char) (b : Building) :
    str2aspathLoop ((aspathDelimiterChar type).1++text) b=str2aspathLoop text (b.start type) ∧
      str2aspathLoop ((aspathDelimiterChar type).2++text) b=str2aspathLoop text b.finish := by
  cases type with
  | asSequence => exact absurd rfl h
  | asSet =>
    have hstart : aspathGettoken ((aspathDelimiterChar .asSet).1++text)=some (text,.setStart) := rfl
    have hend : aspathGettoken ((aspathDelimiterChar .asSet).2++text)=some (text,.setEnd) := rfl
    exact ⟨str2aspathLoop_token hstart AsToken.noConfusion b,
      str2aspathLoop_token hend AsToken.noConfusion b⟩
  | asConfedSequence =>
    have hstart : aspathGettoken ((aspathDelimiterChar .asConfedSequence).1++text)=some (text,.confedSeqStart) := rfl
    have hend : aspathGettoken ((aspathDelimiterChar .asConfedSequence).2++text)=some (text,.confedSeqEnd) := rfl
    exact ⟨str2aspathLoop_token hstart AsToken.noConfusion b,
      str2aspathLoop_token hend AsToken.noConfusion b⟩
  | asConfedSet =>
    have hstart : aspathGettoken ((aspathDelimiterChar .asConfedSet).1++text)=some (text,.confedSetStart) := rfl
    have hend : aspathGettoken ((aspathDelimiterChar .asConfedSet).2++text)=some (text,.confedSetEnd) := rfl
    exact ⟨str2aspathLoop_token hstart AsToken.noConfusion b,
      str2aspathLoop_token hend AsToken.noConfusion b⟩

/-- What is known behind a segment: a number would go on a sequence. -/
def Building.behind (path : Aspath) (seg : Assegment) : Building :=
  ⟨path++[seg],.asSequence,decide (seg.type ≠ .asSequence)⟩

theorem str2aspathLoop_segmentStr {seg : Assegment} (hne : seg.as≠[]) (hrs : Ends rest)
    {b : Building} (hb : seg.type=.asSequence → b=b.finish) :
    str2aspathLoop (segmentStr seg++rest) b =
      str2aspathLoop rest (Building.behind b.aspath seg) := by
  by_cases hseq : seg.type=.asSequence
  · obtain ⟨a,as,has⟩ := exists_cons_of_ne_nil hne
    have hends := (numbers_flatMap (isDigit_separator seg.type) as hrs).1
    have hasns := str2aspathLoop_asns hne hrs b.finish
    have htext : segmentStr seg++rest =
        asnStr a++(as.flatMap (fun a => separator seg.type::asnStr a)++rest) := by
      rw [segmentStr_cons has,hseq]
      simp only [aspathDelimiterChar,nil_append,append_nil,append_assoc]
    rw [segmentStr_sequence hseq] at htext ⊢
    rw [hb hseq,htext,str2aspathLoop_start a hends rfl,←htext]
    rw [hseq] at hasns ⊢
    rw [Building.behind,hseq]
    exact hasns
  · have hclose : Ends ((aspathDelimiterChar seg.type).2++rest) := by
      cases hty : seg.type with
      | asSequence => exact absurd hty hseq
      | asSet | asConfedSequence | asConfedSet => exact ends_cons rfl _
    rw [segmentStr_eq,append_assoc,append_assoc,(str2aspathLoop_delimiter hseq _ b).1,
      str2aspathLoop_asns hne hclose,(str2aspathLoop_delimiter hseq _ _).2,Building.behind,
      decide_eq_true hseq]
    rfl

end

theorem str2aspathLoop_path {b : Building} (hpos : ∀ seg∈path, seg.as≠[]) (hpath : Unpacked path)
    (hb : ∀ seg∈path.head?, seg.type=.asSequence → b=b.finish) :
    str2aspathLoop (path.flatMap fun s => ' '::segmentStr s) b=some (b.aspath++path) := by
  induction path generalizing b with
  | nil =>
    rw [str2aspathLoop_eq,append_nil]
    rfl
  | cons seg path ih =>
    rw [flatMap_cons,cons_append,str2aspathLoop_separator rfl,
      str2aspathLoop_segmentStr (hpos seg mem_cons_self) (ends_path path) (hb seg rfl),
      ih (fun s hs => hpos s (mem_cons_of_mem seg hs)) hpath.tail]
    · rw [append_cons]
      rfl
    intro s hs hseq
    have hne : seg.type ≠ .asSequence := by
      intro hty
      cases path with
      | nil => cases hs
      | cons s path =>
        cases hs
        exact (isChain_cons_cons.mp hpath).1 ⟨hty.trans hseq.symm,hty⟩
    rw [Building.behind,decide_eq_true hne]
    rfl

/-- The text of a path fits and has every AS number in order; a normalised path is read back. -/
theorem aspathMakeStrCount_text (path : Aspath) :
    aspathMakeStr path=some (aspathMakeStrCount path) ∧
      numbers (aspathMakeStrCount path)=(asnsOf path).map asnStr ∧
      (Normalised path → ∃ parsed, aspathStr2aspath (aspathMakeStrCount path)=some parsed ∧
        aspathCmp path parsed=true) := by
  refine ⟨aspathMakeStr_eq path,numbers_aspathMakeStrCount path,fun h => ⟨path,?_,?_⟩⟩
  · cases path with
    | nil =>
      rw [aspathStr2aspath,str2aspathLoop_eq]
      rfl
    | cons seg path =>
      have hpos : ∀ s∈seg::path, s.as≠[] := fun s hs => ne_nil_of_length_pos (h.pos s hs)
      have hread := str2aspathLoop_path (seg::path) (b := ⟨[],.asSequence,true⟩) hpos
        (unpacked_of_normal h.normal) fun _ _ _ => rfl
      rw [flatMap_cons,cons_append,str2aspathLoop_separator rfl,←aspathMakeStrCount_cons] at hread
      exact hread
  · exact (aspathCmp_iff path path).mpr rfl

/-- A path with segments of all types. -/
def mixedPath : Aspath :=
  [assegmentNew .asSequence [7,65550],assegmentNew .asSet [3,4],assegmentNew .asConfedSet [5],
    assegmentNew .asConfedSequence [6,6],assegmentNew .asSequence [1]]

theorem aspathMakeStrCount_text_mixed : ∃ parsed,
    aspathStr2aspath (aspathMakeStrCount mixedPath)=some parsed ∧ aspathCmp mixedPath parsed=true :=
  (aspathMakeStrCount_text mixedPath).2.2 ⟨by decide,by decide⟩

end RoutePlatform.AsPathText
