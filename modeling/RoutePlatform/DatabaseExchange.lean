import RoutePlatform.LsaOperations

/-!
# Database description packets of OSPF

`ospf_db_desc_proc` of `ospfd/ospf_packet.c` compares every LSA header that a neighbour describes
with the local database, and requests what is missing. The comparison may answer any difference of
two checksums, while the `switch` knows -1 and 0 only.
-/

namespace RoutePlatform.DatabaseExchange

open KeyedStore LsaOperations List

def ospfDdFlagMs : BitVec 8 := 0x01

def ospfDdFlagM : BitVec 8 := 0x02

def checkFlag (v flag : BitVec 8) : Bool := v &&& flag≠0

/-- The events of the neighbour state machine that are scheduled here. -/
inductive NsmEvent where
  | seqNumberMismatch | exchangeDone
  deriving DecidableEq, Repr

/-- The states in which `nsm_exchange_done` ends. -/
inductive NsmState where
  | loading | full
  deriving DecidableEq, Repr

/-- What a DD packet says about itself: `struct ospf_db_desc`. -/
structure OspfDbDesc where
  options : BitVec 8
  flags : BitVec 8
  /-- `dd_seqnum`, in host order. -/
  ddSeqnum : BitVec 32
  deriving DecidableEq

/-- `struct ospf_neighbor` during the exchange. -/
structure OspfNeighbor where
  options : BitVec 8
  ddFlags : BitVec 8
  ddSeqnum : BitVec 32
  lastRecv : OspfDbDesc
  lsReq : OspfLsdb
  dbSum : OspfLsdb
  events : List NsmEvent
  /-- History: the headers that were put on the request list. -/
  requested : List LsaHeader

/-- The LSA headers in the body of a packet. Less than a header at its end is
ignored. -/
def lsaHeaders : List (BitVec 8)→List LsaHeader
  | a0::a1::options::type::i0::i1::i2::i3::r0::r1::r2::r3::s0::s1::s2 :: s3::c0::c1::l0::l1::rest =>
    ⟨a0++a1,options,type,i0++i1++i2++i3,r0++r1++r2++r3,s0++s1++s2++s3,
      c0++c1,l0++l1⟩::lsaHeaders rest
  | _ => []

/-- The arrival of a DD packet, with the databases of that time. -/
structure DdReceipt where
  now : ℕ
  /-- `lsdb` of `struct ospf`. -/
  asLsdb : OspfLsdb
  area : OspfArea
  dd : OspfDbDesc
  /-- The bytes behind `OSPF_DB_DESC_MIN_SIZE`. -/
  body : List (BitVec 8)
  /-- The options in packets that are sent have `OSPF_OPTION_O`. -/
  sendsO : Bool
  /-- How many headers fit into a packet that is sent. -/
  room : ℕ

/-- The loop of `ospf_make_db_desc` for one type: what stays on the list, and the room left. -/
def describeType (sendsO : Bool) : ℕ→List OspfLsa→List OspfLsa × ℕ
  | room, [] => ([],room)
  | room, lsa::rest =>
    if isOpaqueLsa lsa.data.type && !sendsO then describeType sendsO room rest
    else if lsa.discard then describeType sendsO room rest
    else if room=0 then (lsa::rest,0)
    else describeType sendsO (room-1) rest

/-- The loop of `ospf_make_db_desc` over the types from one on. -/
def describeTypes (sendsO : Bool) (dbSum : OspfLsdb) : ℕ→ℕ→ℕ→OspfLsdb
  | 0, _, _ => dbSum
  | n+1, type, room =>
    let own := dbSum.entries.filter fun lsa => lsa.data.type.toNat=type
    let (kept,room) := describeType sendsO room own
    let gone := own.filter fun lsa => lsa ∉ kept
    describeTypes sendsO (gone.foldl (fun db lsa => db.erase lsa.data.key) dbSum) n (type+1) room

/-- `ospf_db_desc_send`, as far as the neighbour changes. -/
def ospfDbDescSend (r : DdReceipt) (nbr : OspfNeighbor) : OspfNeighbor :=
  let dbSum := describeTypes r.sendsO nbr.dbSum (ospfMaxLsa-ospfMinLsa) ospfMinLsa r.room
  {nbr with
    dbSum := dbSum
    ddFlags := if ospfLsdbIsempty dbSum then nbr.ddFlags &&& ~~~ospfDdFlagM else nbr.ddFlags}

/-- `OSPF_NSM_EVENT_SCHEDULE`. -/
def OspfNeighbor.schedule (nbr : OspfNeighbor) (event : NsmEvent) : OspfNeighbor :=
  {nbr with events := nbr.events++[event]}

def ospfLsRequestAdd (nbr : OspfNeighbor) (lsa : OspfLsa) : OspfNeighbor :=
  {nbr with
    lsReq := ospfLsdbAdd nbr.lsReq lsa
    requested := nbr.requested++[lsa.data]}

def ospfLsRequestNew (now : ℕ) (lsah : LsaHeader) : OspfLsa := ⟨lsah,now,false⟩

/-- The type and the scope of a header are acceptable. -/
def acceptable (r : DdReceipt) (options : BitVec 8) (lsah : LsaHeader) : Bool :=
  !(lsah.type.toNat<ospfMinLsa || ospfMaxLsa≤lsah.type.toNat) &&
    !(isOpaqueLsa lsah.type && !checkFlag options ospfOptionO) &&
      !((lsah.type=ospfAsExternalLsa || lsah.type=ospfOpaqueAsLsa) && r.area.externalRouting=.stub)

/-- The local copy of the LSA that a header describes. -/
def localCopy (r : DdReceipt) (lsah : LsaHeader) : Option OspfLsa :=
  ospfLsaLookupByHeader r.asLsdb r.area lsah

/-- The `switch` of `ospf_db_desc_proc` on the comparison. The case of -1 falls
through. -/
def dbDescHeader (r : DdReceipt) (nbr : OspfNeighbor) (lsah : LsaHeader) : OspfNeighbor :=
  let new := ospfLsRequestNew r.now lsah
  let find := localCopy r lsah
  let ret := ospfLsaMoreRecent r.now find (some new)
  let nbr := if ret = -1 then ospfLsRequestAdd nbr new else nbr
  if ret = -1 ∨ ret=0 then
    match find with
    | some find => {nbr with dbSum := ospfLsdbDelete nbr.dbSum find}
    | none => nbr
  else nbr

/-- The loop of `ospf_db_desc_proc`; it returns early at a header that is not
acceptable. -/
def dbDescLoop (r : DdReceipt) : OspfNeighbor→List LsaHeader→Bool × OspfNeighbor
  | nbr, [] => (true,nbr)
  | nbr, lsah::rest =>
    if acceptable r nbr.options lsah then dbDescLoop r (dbDescHeader r nbr lsah) rest
    else (false,nbr.schedule .seqNumberMismatch)

/-- Both sides have nothing more to describe. -/
def exchangeOver (r : DdReceipt) (nbr : OspfNeighbor) : Bool :=
  !checkFlag r.dd.flags ospfDdFlagM && !checkFlag nbr.ddFlags ospfDdFlagM

def ospfDbDescProc (nbr : OspfNeighbor) (r : DdReceipt) : OspfNeighbor :=
  match dbDescLoop r nbr (lsaHeaders r.body) with
  | (false,nbr) => nbr
  | (true,nbr) =>
    let nbr :=
      if checkFlag nbr.ddFlags ospfDdFlagMs then
        let nbr := {nbr with ddSeqnum := nbr.ddSeqnum+1}
        if exchangeOver r nbr then nbr.schedule .exchangeDone else ospfDbDescSend r nbr
      else
        let nbr := ospfDbDescSend r {nbr with ddSeqnum := r.dd.ddSeqnum}
        if exchangeOver r nbr then nbr.schedule .exchangeDone else nbr
    {nbr with lastRecv := r.dd}

/-- `nsm_exchange_done`, without the Link State Request it sends. -/
def nsmExchangeDone (nbr : OspfNeighbor) : NsmState :=
  if ospfLsdbIsempty nbr.lsReq then .full else .loading

/-- There is no local copy, or the header is more recent. -/
def Wanted (r : DdReceipt) (lsah : LsaHeader) : Prop :=
  localCopy r lsah=none ∨
    ospfLsaMoreRecent r.now (localCopy r lsah) (some (ospfLsRequestNew r.now lsah))<0

instance decidableWanted (r : DdReceipt) (lsah : LsaHeader) : Decidable (Wanted r lsah) :=
  inferInstanceAs (Decidable (_ ∨ _))

/-- The local copy has the sequence number, and a checksum smaller by two at least. -/
def Slips (r : DdReceipt) (lsah : LsaHeader) : Prop :=
  ∃ copy, localCopy r lsah=some copy ∧ ChecksumGap copy (ospfLsRequestNew r.now lsah)

instance decidableSlips (r : DdReceipt) (lsah : LsaHeader) : Decidable (Slips r lsah) :=
  inferInstanceAs (Decidable (∃ copy∈localCopy r lsah, ChecksumGap copy _))

def requests (r : DdReceipt) (lsah : LsaHeader) : Bool :=
  ospfLsaMoreRecent r.now (localCopy r lsah) (some (ospfLsRequestNew r.now lsah)) = -1

section

variable {r : DdReceipt} {nbr : OspfNeighbor} {lsah : LsaHeader}

theorem requests_iff (r : DdReceipt) (lsah : LsaHeader) :
    requests r lsah=true ↔ Wanted r lsah ∧ ¬Slips r lsah := by
  unfold requests Wanted Slips
  rw [decide_eq_true_eq]
  cases hcopy : localCopy r lsah with
  | none =>
    refine iff_of_true rfl ⟨.inl rfl,fun h => ?_⟩
    obtain ⟨copy,hnone,-⟩ := h
    exact nomatch hnone
  | some copy =>
    have hgap := ospfLsaMoreRecent_lt_neg_one_iff r.now copy (ospfLsRequestNew r.now lsah)
    have hslips : (∃ c, some copy=some c ∧ ChecksumGap c (ospfLsRequestNew r.now lsah)) ↔
        ospfLsaMoreRecent r.now (some copy) (some (ospfLsRequestNew r.now lsah)) < -1 := by
      rw [hgap]
      exact ⟨fun ⟨c,hc,h⟩ => Option.some.inj hc ▸ h,fun h => ⟨copy,rfl,h⟩⟩
    rw [hslips,or_iff_right nofun]
    omega

theorem dbDescHeader_requested (r : DdReceipt) (nbr : OspfNeighbor) (lsah : LsaHeader) :
    (dbDescHeader r nbr lsah).requested = nbr.requested++(if requests r lsah then [lsah] else []) ∧
      (dbDescHeader r nbr lsah).options=nbr.options ∧
      (dbDescHeader r nbr lsah).lsReq =
        (if requests r lsah then ospfLsdbAdd nbr.lsReq (ospfLsRequestNew r.now lsah)
          else nbr.lsReq) := by
  unfold dbDescHeader requests
  dsimp only
  by_cases hret : ospfLsaMoreRecent r.now (localCopy r lsah) (some (ospfLsRequestNew r.now lsah)) = -1
  · rw [if_pos hret,if_pos (.inl hret),if_pos (decide_eq_true hret),if_pos (decide_eq_true hret)]
    cases localCopy r lsah <;> exact ⟨rfl,rfl,rfl⟩
  have hno : ¬decide (ospfLsaMoreRecent r.now (localCopy r lsah)
      (some (ospfLsRequestNew r.now lsah)) = -1)=true := by
    rw [decide_eq_true_eq]
    exact hret
  rw [if_neg hret,if_neg hno,if_neg hno,append_nil]
  split
  · cases localCopy r lsah <;> exact ⟨rfl,rfl,rfl⟩
  · exact ⟨rfl,rfl,rfl⟩

theorem dbDescLoop_requested (r : DdReceipt) (headers : List LsaHeader) : ∀ nbr,
    (∀ lsah∈headers, acceptable r nbr.options lsah=true) → (dbDescLoop r nbr headers).1=true ∧
      (dbDescLoop r nbr headers).2.options=nbr.options ∧
      (dbDescLoop r nbr headers).2.requested=nbr.requested++headers.filter (requests r) ∧
      (dbDescLoop r nbr headers).2.lsReq=(headers.filter (requests r)).foldl
        (fun lsReq lsah => ospfLsdbAdd lsReq (ospfLsRequestNew r.now lsah)) nbr.lsReq := by
  induction headers with
  | nil => exact fun nbr _ => ⟨rfl,rfl,(append_nil _).symm,rfl⟩
  | cons lsah rest ih =>
    intro nbr hall
    obtain ⟨hrequested,hoptions,hlist⟩ := dbDescHeader_requested r nbr lsah
    obtain ⟨hret,hopt,hreq,hls⟩ := ih (dbDescHeader r nbr lsah) fun x hx => by
      rw [hoptions]
      exact hall x (.tail _ hx)
    rw [dbDescLoop,if_pos (hall lsah mem_cons_self)]
    refine ⟨hret,hopt.trans hoptions,?_,?_⟩
    · rw [hreq,hrequested,filter_cons]
      split
      · rw [append_assoc,singleton_append]
      · rw [append_nil]
    rw [hls,hlist,filter_cons]
    split <;> rfl

theorem ospfDbDescSend_keeps (r : DdReceipt) (nbr : OspfNeighbor) :
    (ospfDbDescSend r nbr).requested=nbr.requested ∧ (ospfDbDescSend r nbr).lsReq=nbr.lsReq ∧
      (ospfDbDescSend r nbr).options=nbr.options := by
  unfold ospfDbDescSend
  generalize describeTypes r.sendsO nbr.dbSum (ospfMaxLsa-ospfMinLsa) ospfMinLsa r.room=dbSum
  exact ⟨rfl,rfl,rfl⟩

theorem ospfDbDescProc_requested (nbr : OspfNeighbor) (r : DdReceipt)
    (hall : ∀ lsah∈lsaHeaders r.body, acceptable r nbr.options lsah=true) :
    (ospfDbDescProc nbr r).options=nbr.options ∧ (ospfDbDescProc nbr r).requested =
        nbr.requested++(lsaHeaders r.body).filter (requests r) ∧
      (ospfDbDescProc nbr r).lsReq=((lsaHeaders r.body).filter (requests r)).foldl
        (fun lsReq lsah => ospfLsdbAdd lsReq (ospfLsRequestNew r.now lsah)) nbr.lsReq := by
  obtain ⟨hret,hoptions,hrequested,hlist⟩ := dbDescLoop_requested r (lsaHeaders r.body) nbr hall
  unfold ospfDbDescProc
  generalize dbDescLoop r nbr (lsaHeaders r.body)=result at *
  obtain ⟨ret,nbr'⟩ := result
  rw [←hoptions,←hrequested,←hlist]
  subst hret
  dsimp only
  split
  · have hsend := ospfDbDescSend_keeps r {nbr' with ddSeqnum := nbr'.ddSeqnum+1}
    generalize ospfDbDescSend r {nbr' with ddSeqnum := nbr'.ddSeqnum+1}=sent at *
    split
    · exact ⟨rfl,rfl,rfl⟩
    · exact ⟨hsend.2.2,hsend.1,hsend.2.1⟩
  have hsend := ospfDbDescSend_keeps r {nbr' with ddSeqnum := r.dd.ddSeqnum}
  generalize ospfDbDescSend r {nbr' with ddSeqnum := r.dd.ddSeqnum}=sent at *
  split <;> exact ⟨hsend.2.2,hsend.1,hsend.2.1⟩

end

/-- The neighbour behind DD packets that were processed one after the other. -/
def exchange (nbr : OspfNeighbor) (rs : List DdReceipt) : OspfNeighbor :=
  rs.foldl ospfDbDescProc nbr

/-- All headers of a packet are acceptable. -/
def Acceptable (options : BitVec 8) (r : DdReceipt) : Prop :=
  ∀ lsah∈lsaHeaders r.body, acceptable r options lsah=true

instance decidableAcceptable (options : BitVec 8) (r : DdReceipt) :
    Decidable (Acceptable options r) :=
  inferInstanceAs (Decidable (∀ lsah∈lsaHeaders r.body, acceptable r options lsah=true))

/-- Exactly what is missing is requested. -/
structure RequestsMissing (nbr : OspfNeighbor) (rs : List DdReceipt) : Prop where
  /-- A header is put on the request list exactly when it is wanted. -/
  exact : (exchange nbr rs).requested=nbr.requested ++
    rs.flatMap fun r => (lsaHeaders r.body).filter fun lsah => Wanted r lsah
  /-- At Full, nothing that the neighbour described was more recent. -/
  full : nsmExchangeDone (exchange nbr rs)=.full → ∀ r∈rs, ∀ lsah∈lsaHeaders r.body, ¬Wanted r lsah

section

variable {nbr : OspfNeighbor} {rs : List DdReceipt} (r : DdReceipt) (headers : List LsaHeader)

/-- The request list is empty exactly when nothing was requested. -/
def ListKept (nbr : OspfNeighbor) : Prop := ospfLsdbIsempty nbr.lsReq=true ↔ nbr.requested=[]

theorem isempty_foldl (now : ℕ) (headers : List LsaHeader) : ∀ lsReq : OspfLsdb,
    ospfLsdbIsempty (headers.foldl
      (fun lsReq lsah => ospfLsdbAdd lsReq (ospfLsRequestNew now lsah)) lsReq)=true ↔
        ospfLsdbIsempty lsReq=true ∧ headers=[] := by
  induction headers with
  | nil => exact fun lsReq => ⟨fun h => ⟨h,rfl⟩,fun h => h.1⟩
  | cons lsah rest ih =>
    intro lsReq
    have hadd : ospfLsdbIsempty (ospfLsdbAdd lsReq (ospfLsRequestNew now lsah))=false :=
      Store.isEmpty_insert _
    rw [foldl_cons,ih,hadd]
    exact iff_of_false (fun h => nomatch h.1) fun h => nomatch h.2

theorem exchange_requested (rs : List DdReceipt) : ∀ nbr : OspfNeighbor,
    (∀ r∈rs, Acceptable nbr.options r) → ListKept nbr → (exchange nbr rs).requested=nbr.requested ++
          rs.flatMap (fun r => (lsaHeaders r.body).filter (requests r)) ∧
        ListKept (exchange nbr rs) := by
  induction rs with
  | nil => exact fun nbr _ hkept => ⟨(append_nil _).symm,hkept⟩
  | cons r rs ih =>
    intro nbr hall hkept
    obtain ⟨hoptions,hrequested,hlist⟩ := ospfDbDescProc_requested nbr r (hall r mem_cons_self)
    have hkept' : ListKept (ospfDbDescProc nbr r) := by
      rw [ListKept,hlist,isempty_foldl,hrequested,append_eq_nil_iff]
      exact and_congr_left fun _ => hkept
    obtain ⟨hreq,hlast⟩ := ih (ospfDbDescProc nbr r)
      (fun x hx => by rw [hoptions]; exact hall x (.tail _ hx)) hkept'
    refine ⟨?_,hlast⟩
    have hstep : exchange nbr (r::rs)=exchange (ospfDbDescProc nbr r) rs := rfl
    rw [hstep,hreq,hrequested,flatMap_cons,append_assoc]

/-- Pieces that are shorter one by one, and equal together, are equally long. -/
theorem flatMap_eq_of_length {α β : Type} {f g : α→List β} {xs : List α}
    (hle : ∀ x∈xs, (f x).length≤(g x).length) (heq : xs.flatMap f=xs.flatMap g) :
    ∀ x∈xs, (f x).length=(g x).length := by
  have hsum := congrArg length heq
  rw [length_flatMap,length_flatMap] at hsum
  clear heq
  induction xs with
  | nil => exact fun x hx => nomatch hx
  | cons a rest ih =>
    rw [map_cons,map_cons,sum_cons,sum_cons] at hsum
    have hhead := hle a mem_cons_self
    have htail : (rest.map fun x => (f x).length).sum≤(rest.map fun x => (g x).length).sum :=
      sum_le_sum fun x hx => hle x (.tail _ hx)
    intro x hx
    obtain rfl|hx := mem_cons.mp hx
    · omega
    · exact ih (fun y hy => hle y (.tail _ hy)) (by omega) x hx

theorem filter_requests : headers.filter (requests r) =
      (headers.filter fun lsah => Wanted r lsah).filter fun lsah => ¬Slips r lsah := by
  rw [filter_filter]
  refine filter_congr fun lsah _ => ?_
  rw [Bool.eq_iff_iff,requests_iff,Bool.and_eq_true,decide_eq_true_eq,decide_eq_true_eq]
  exact And.comm

theorem Slips.wanted {r : DdReceipt} {lsah : LsaHeader} (h : Slips r lsah) : Wanted r lsah := by
  obtain ⟨copy,hcopy,hgap⟩ := h
  have hlt := (ospfLsaMoreRecent_lt_neg_one_iff r.now copy (ospfLsRequestNew r.now lsah)).mpr hgap
  refine .inr ?_
  rw [hcopy]
  exact lt_trans hlt (by decide)

theorem length_filter_requests :
    (headers.filter (requests r)).length≤(headers.filter fun lsah => Wanted r lsah).length ∧
      ((headers.filter (requests r)).length=(headers.filter fun lsah => Wanted r lsah).length ↔
        ∀ lsah∈headers, ¬Slips r lsah) := by
  rw [filter_requests]
  refine ⟨length_filter_le _ _,?_⟩
  rw [length_filter_eq_length_iff]
  refine ⟨fun h lsah hmem hslips => ?_,fun h lsah hmem => ?_⟩
  · exact of_decide_eq_true (h lsah (mem_filter.mpr ⟨hmem,decide_eq_true hslips.wanted⟩)) hslips
  · exact decide_eq_true (h lsah (mem_filter.mp hmem).1)

/-- The DD packets request what is missing, and Full means that nothing is, iff no header slips
through. -/
theorem exchange_requestsMissing_iff (hempty : ospfLsdbIsempty nbr.lsReq=true)
    (hstart : nbr.requested=[]) (hall : ∀ r∈rs, Acceptable nbr.options r) :
    RequestsMissing nbr rs ↔ ∀ r∈rs, ∀ lsah∈lsaHeaders r.body, ¬Slips r lsah := by
  obtain ⟨hrequested,hkept⟩ := exchange_requested rs nbr hall (iff_of_true hempty hstart)
  constructor
  · intro hexact
    have hall' := flatMap_eq_of_length (fun r _ => (length_filter_requests r _).1)
      (append_cancel_left (hrequested.symm.trans hexact.exact))
    exact fun r hr => (length_filter_requests r _).2.mp (hall' r hr)
  · intro hslips
    have hwanted : rs.flatMap (fun r => (lsaHeaders r.body).filter (requests r)) =
        rs.flatMap fun r => (lsaHeaders r.body).filter fun lsah => Wanted r lsah := by
      refine flatMap_congr fun r hr => ?_
      rw [filter_requests,filter_eq_self]
      exact fun lsah hmem => decide_eq_true (hslips r hr lsah (mem_filter.mp hmem).1)
    rw [hwanted] at hrequested
    refine ⟨hrequested,fun hfull r hr lsah hlsah hw => ?_⟩
    have hnone : ospfLsdbIsempty (exchange nbr rs).lsReq=true := by
      by_contra hne
      rw [nsmExchangeDone,if_neg hne] at hfull
      exact nomatch hfull
    have hnil := hkept.mp hnone
    rw [hrequested,append_eq_nil_iff,flatMap_eq_nil_iff] at hnil
    have hfilter := hnil.2 r hr
    rw [filter_eq_nil_iff] at hfilter
    exact hfilter lsah hlsah (decide_eq_true hw)

end

/-- A neighbour at the start of an exchange, with us as master. -/
def sampleNeighbor : OspfNeighbor where
  options := 0x02
  ddFlags := 0x01
  ddSeqnum := 7
  lastRecv := ⟨0x02,0x00,6⟩
  lsReq := ⟨[],List.Pairwise.nil⟩
  dbSum := ⟨[],List.Pairwise.nil⟩
  events := []
  requested := []

/-- A router LSA of 1.1.1.1 in the database, with a checksum. -/
def sampleCopy (checksum : BitVec 16) : OspfLsa where
  data := ⟨1,0x02,1,0x01010101,0x01010101,0x80000001,checksum,36⟩
  tvRecv := 0
  discard := false

/-- The header of that LSA with checksum 3 arrives, and ends the exchange. -/
def sampleReceipt (checksum : BitVec 16) : DdReceipt where
  now := 0
  asLsdb := ⟨[],List.Pairwise.nil⟩
  area := ⟨.default,⟨[sampleCopy checksum],pairwise_singleton _ _⟩⟩
  dd := ⟨0x02,0x00,7⟩
  body := [0,1,2,1,1,1,1,1,1,1,1,1,0x80,0,0,1,0,3,0,36]
  sendsO := false
  room := 10

theorem exchange_requestsMissing_iff_sampleReceipt :
    RequestsMissing sampleNeighbor [sampleReceipt 2] ↔
      ∀ r∈[sampleReceipt 2], ∀ lsah∈lsaHeaders r.body, ¬Slips r lsah :=
  exchange_requestsMissing_iff (by decide) (by decide) (by
    intro r hr
    rw [mem_singleton.mp hr]
    decide)

/-- With checksums 1 and 3 the neighbour gets to Full without a request. -/
theorem ospfDbDescProc_missesHeader : (∀ r∈[sampleReceipt 1], Acceptable sampleNeighbor.options r) ∧
      Wanted (sampleReceipt 1) (sampleCopy 3).data ∧
      nsmExchangeDone (exchange sampleNeighbor [sampleReceipt 1])=.full ∧
      ¬RequestsMissing sampleNeighbor [sampleReceipt 1] := by
  have hwanted : Wanted (sampleReceipt 1) (sampleCopy 3).data := .inr (by decide)
  have hfull : nsmExchangeDone (exchange sampleNeighbor [sampleReceipt 1])=.full := by decide
  refine ⟨fun r hr => ?_,hwanted,hfull,fun h => ?_⟩
  · rw [mem_singleton.mp hr]
    decide
  · exact h.full hfull _ mem_cons_self _ (by decide) hwanted

end RoutePlatform.DatabaseExchange
