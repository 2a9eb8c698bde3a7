import RoutePlatform.LldpOperations

/-!
# What the discovery reader makes of a frame

The reader compares the address of the protocol field with the protocols. A buffer from the
allocator is aligned, so the frames of the writer are passed over. The loop behind it stops only
at a TLV whose length is that of all that was received; the TLVs before it at even positions are
presented.
-/

namespace RoutePlatform.LldpReading

open StreamOperations LldpOperations List

variable (d : Description) (bytes : List Byte) (r : Receive) (pos : ℕ) (s : LldpState)
  (db : Option ℕ) (ibuf n j : ℕ)

/-- A TLV with its type and value. -/
def tlvOf (type : ℕ) (value : List Byte) : Tlv := ⟨type,value.length,value⟩

def orgTlvOf (orgtype : OrgType) (subtype : Byte) (value : List Byte) : Tlv :=
  tlvOf lldpOrgTlvId (orgtype.identifer++subtype::value)

/-- The TLVs of `lldp_make_ltv` and the end. -/
def writtenTlvs (d : Description) : List Tlv :=
  [tlvOf lldpChassisId (d.chassis.subtype::d.chassis.value),
    tlvOf lldpPortId (d.port.subtype::d.port.value),
    tlvOf lldpTtlId [(d.holdtime >>> 8).setWidth 8,d.holdtime.setWidth 8]] ++
  (d.desc.toList.map (tlvOf lldpPortDescId) ++
  (d.systemName.toList.map (tlvOf lldpSystemNameId) ++
  [tlvOf lldpSystemDescId d.systemDesc,tlvOf lldpSystemCapaId [1,0,1,0],
    tlvOf lldpMgtAddrId mgtAddressBytes,
    orgTlvOf .ieee8021 1 [0,23],
    orgTlvOf .ieee8021 2 [1,0,23],
    orgTlvOf .ieee8021 3 [0,23,6,0x76,0x6c,0x61,0x6e,0x32,0x33],
    orgTlvOf .ieee8021 4 [0],
    orgTlvOf .ieee8023 4 [2,0],
    orgTlvOf .ieee8023 1 [3,0x6c,0,0,0x10],
    tlvOf lldpEnd []]))

def Tlv.encode (t : Tlv) : List Byte := lldpTlvHdr t.type t.len++t.value

def frameHead (d : Description) : List Byte := d.dstMac.toList++d.ownMac.toList ++
    match d.frame with
    | .snap => [0xAA,0xAA,0x03,0x00,0x00,0x00,0x88,0xCC]
    | .lldp => [0x88,0xcc]

/-- The stream holds as much of the bytes as fits. -/
def Holds (s : Stream) (bytes : List Byte) : Prop :=
  s.size=lldpPacketMaxSize ∧ s.data=bytes.take lldpPacketMaxSize

section

variable {s : Stream} {bytes : List Byte}

section

variable (h : Holds s bytes)
include h

theorem Holds.streamPut (more : List Byte) : Holds (streamPut s more) (bytes++more) := by
  refine ⟨h.1,?_⟩
  have hroom : s.writeable=lldpPacketMaxSize-s.data.length := by
    rw [Stream.writeable,Stream.endp,h.1]
  change s.data++more.take s.writeable=_
  rw [hroom,h.2,take_append]
  congr 2
  rw [length_take]
  omega

theorem Holds.ltv (type : ℕ) (hty : type≤127) (value : List Byte) :
    Holds (lldpConstrLtv s type value) (bytes++Tlv.encode (tlvOf type value)) := by
  rw [lldpConstrLtv,if_neg (by omega)]
  exact h.streamPut _

theorem Holds.expLtv (orgtype : OrgType) (subtype : Byte) (value : List Byte) :
    Holds (lldpConstrExpLtv s orgtype subtype value)
      (bytes++Tlv.encode (orgTlvOf orgtype subtype value)) := by
  have hident : orgtype.identifer.length=3 := by cases orgtype <;> rfl
  have hlen : (orgtype.identifer++subtype::value).length=value.length+4 := by
    rw [length_append,length_cons,hident]
    omega
  have hbs : lldpTlvHdr lldpOrgTlvId (value.length+4)++orgtype.identifer++[subtype] ++
      value=Tlv.encode (orgTlvOf orgtype subtype value) := by
    simp only [Tlv.encode,orgTlvOf,tlvOf,hlen,append_assoc,cons_append,nil_append]
  rw [lldpConstrExpLtv,hbs]
  exact h.streamPut _

theorem Holds.optional (type : ℕ) (hty : type≤127) (value : Option (List Byte)) :
    Holds (match value with | some v => lldpConstrLtv s type v | none => s)
      (bytes++(value.toList.map (tlvOf type)).flatMap Tlv.encode) := by
  cases value with
  | none => simpa using h
  | some v => simpa using h.ltv type hty v

end

theorem Holds.head : Holds (lldpHeadFormat d (streamNew lldpPacketMaxSize)) (frameHead d) := by
  have hnew : Holds (streamNew lldpPacketMaxSize) [] := ⟨rfl,rfl⟩
  unfold lldpHeadFormat frameHead
  cases d.frame with
  | snap | lldp => exact hnew.streamPut _

/-- The frame is its header and the TLVs, cut off at the size of the buffer. -/
theorem holds_lldpMakeLldpPdu :
    Holds (lldpMakeLldpPdu d) (frameHead d++(writtenTlvs d).flatMap Tlv.encode) := by
  have hids := (((Holds.head d).ltv lldpChassisId (by decide)
    (d.chassis.subtype::d.chassis.value)).ltv lldpPortId (by decide)
    (d.port.subtype::d.port.value)).ltv lldpTtlId (by decide)
    [(d.holdtime >>> 8).setWidth 8,d.holdtime.setWidth 8]
  have hnames := (hids.optional lldpPortDescId (by decide) d.desc).optional
    lldpSystemNameId (by decide) d.systemName
  have hsystem := ((hnames.ltv lldpSystemDescId (by decide) d.systemDesc).ltv
    lldpSystemCapaId (by decide) [1,0,1,0]).ltv
    lldpMgtAddrId (by decide) mgtAddressBytes
  have h8021 := (((hsystem.expLtv .ieee8021 1 [0,23]).expLtv .ieee8021 2 [1,0,23]).expLtv
    .ieee8021 3 [0,23,6,0x76,0x6c,0x61,0x6e,0x32,0x33]).expLtv .ieee8021 4 [0]
  have h8023 := (h8021.expLtv .ieee8023 4 [2,0]).expLtv .ieee8023 1 [3,0x6c,0,0,0x10]
  have hend := h8023.ltv lldpEnd (by decide) []
  simp only [append_assoc] at hend
  simp only [writtenTlvs,flatMap_append,flatMap_cons,flatMap_nil,append_assoc,append_nil]
  exact hend

end

theorem frame_getD {i : ℕ} (hi : i<14) :
    (lldpMakeLldpPdu d).data.getD i 0=(frameHead d).getD i 0 := by
  have hlen : 14≤(frameHead d).length := by
    unfold frameHead
    cases d.frame <;> simp
  have hmax : i<lldpPacketMaxSize := hi.trans (by decide)
  rw [(holds_lldpMakeLldpPdu d).2,getD_eq_getElem?_getD,getD_eq_getElem?_getD,
    getElem?_take_of_lt hmax,getElem?_append_left (by omega)]

theorem protoOffset_frame : protoOffset (lldpMakeLldpPdu d).data=14 := by
  have hhead : (frameHead d).getD 12 0≠0x81 := by
    unfold frameHead
    cases d.frame <;> simp [getD_eq_getElem?_getD]
  rw [protoOffset,frame_getD d (by decide),if_neg fun h => hhead h.1]

theorem ntohs_address {addr : ℕ} (h : 8 ∣ addr) (proto : BitVec 16)
    (hproto : (ntohs proto).toNat%8≠6) : ntohs (BitVec.ofNat 16 (addr+14))≠proto := by
  intro heq
  have hswap : ∀ w : BitVec 16, ntohs (ntohs w)=w := by
    intro w
    unfold ntohs
    ext i hi
    grind
  apply hproto
  rw [←heq,hswap,BitVec.toNat_ofNat]
  omega

theorem lldpReadPacket_frame {r : Receive} (hbs : r.bytes=(lldpMakeLldpPdu d).data)
    (haddr : 8 ∣ r.addr) : lldpReadPacket r s=.ok (s,[]) := by
  have hoffset : protoOffset r.bytes=14 := by rw [hbs,protoOffset_frame]
  have hlldp := ntohs_address haddr 0x88cc (by decide)
  have hslldp := ntohs_address haddr 0xaaaa (by decide)
  unfold lldpReadPacket
  simp only [hoffset,hlldp,hslldp,if_false,ite_self]

/-- An entry carries the identifiers of the description. -/
def Names (d : Description) (db : TlvDb) : Bool :=
  db.id.chassisType=d.chassis.subtype ∧ db.id.portIdType=d.port.subtype ∧
    d.chassis.value <+: db.id.chassisValue ∧ d.port.value <+: db.id.portIdValue

/-- The neighbours that carry the identifiers of the description. -/
def entriesOf (d : Description) (s : LldpState) : List TlvDb :=
  (s.neighbors.getD []).filter (Names d)

/-- A frame is read as written: its TLVs, and one neighbour however often it comes. -/
structure DecodedAsEncoded (d : Description) (r : Receive) (s : LldpState) : Prop where
  received : ∃ first second, lldpReadPacket r s=.ok (first,writtenTlvs d) ∧
    lldpReadPacket r first=.ok (second,writtenTlvs d) ∧
    (entriesOf d first).length=1 ∧ (entriesOf d second).length=1

theorem not_decodedAsEncoded {r : Receive} (hbs : r.bytes=(lldpMakeLldpPdu d).data)
    (haddr : 8 ∣ r.addr) : ¬DecodedAsEncoded d r s := by
  intro h
  obtain ⟨first,_,hfst,-⟩ := h.received
  rw [lldpReadPacket_frame d s hbs haddr] at hfst
  simp [writtenTlvs] at hfst

/-- Whether a run ended without a fault. -/
def Finishes {α : Type} (x : Except Fault α) : Prop := ∃ a, x=.ok a

section

variable {α β : Type} (x : Except Fault α)

@[simp] theorem finishes_ok (a : α) : Finishes (.ok a : Except Fault α) := ⟨a,rfl⟩

@[simp] theorem not_finishes_error (f : Fault) : ¬Finishes (.error f : Except Fault α) := by
  rintro ⟨a,h⟩
  cases h

theorem finishes_bind (f : α→Except Fault β) :
    Finishes (x >>= f) ↔ ∃ a, x=.ok a ∧ Finishes (f a) := by
  cases x with
  | error e | ok a => simp [Bind.bind,Except.bind]

theorem finishes_map (f : α → β) : Finishes (x.map f) ↔ Finishes x := by
  cases x with
  | error e | ok a => simp [Except.map]

theorem finishes_guard (p : Prop) [Decidable p] (x : Except Fault α) (e : Fault) :
    Finishes (if p then x else .error e) ↔ p ∧ Finishes x := by
  by_cases h : p
  · simp [h]
  · simp [h]

theorem finishes_unless (a b : ℕ) (x : Except Fault α) (e : Fault) :
    Finishes (if a<b then .error e else x) ↔ b≤a ∧ Finishes x := by
  by_cases h : a<b
  · simp [h,not_le.mpr h]
  · simp [h,not_lt.mp h]

theorem finishes_readBytes : Finishes (readBytes bytes pos n) ↔ pos+n≤bytes.length := by
  rw [readBytes,finishes_guard]
  simp

theorem readByte_eq : readByte bytes pos=if pos+1≤bytes.length then .ok (bytes.getD pos 0)
      else .error .overread := by
  unfold readByte
  split
  · next b h =>
    obtain ⟨hlt,hb⟩ := List.getElem?_eq_some_iff.mp h
    rw [if_pos (by omega),getD_eq_getElem?_getD,h]
    rfl
  next h =>
  rw [getElem?_eq_none_iff] at h
  rw [if_neg (by omega)]

theorem finishes_readByte_bind (f : Byte→Except Fault β) : Finishes (readByte bytes pos >>= f) ↔
      pos+1≤bytes.length ∧ Finishes (f (bytes.getD pos 0)) := by
  rw [readByte_eq]
  by_cases h : pos+1≤bytes.length
  · simp [h,Bind.bind,Except.bind]
  · simp [h,Bind.bind,Except.bind]

theorem finishes_readBytes_bind (f : List Byte→Except Fault β) :
    Finishes (readBytes bytes pos n >>= f) ↔
      pos+n≤bytes.length ∧ Finishes (f ((bytes.drop pos).take n)) := by
  unfold readBytes
  by_cases h : pos+n≤bytes.length
  · simp [h,Bind.bind,Except.bind]
  · simp [h,Bind.bind,Except.bind]

theorem finishes_memcpyIn_bind (array bytes : List Byte) (size pos n : ℕ)
    (f : List Byte→Except Fault β) :
    Finishes (memcpyIn array bytes size pos n >>= f) ↔ (n ≤ size ∧ pos+n≤bytes.length) ∧
        Finishes (f (memcpyArray array ((bytes.drop pos).take n))) := by
  unfold memcpyIn readBytes
  by_cases hn : n ≤ size
  · by_cases h : pos+n≤bytes.length
    · simp [hn,h,Bind.bind,Except.bind,Except.map]
    · simp [hn,h,Bind.bind,Except.bind,Except.map]
  · simp [hn,Bind.bind,Except.bind]

end

/-- A management address lies inside the received bytes. -/
def MgtFits (bytes : List Byte) (ibuf : ℕ) : Prop :=
  (bytes.getD ibuf 0).toNat≤lldpManAddrStrMaxLen ∧ (bytes.getD (ibuf+38) 0).toNat≤lldpOidMaxLen ∧
    ibuf+39+(bytes.getD (ibuf+38) 0).toNat≤bytes.length

/-- A TLV of an organization can be taken. -/
def OrgFits (bytes : List Byte) (ibuf len : ℕ) : Prop :=
  ibuf+3≤bytes.length ∧ (orgTypeOf ((bytes.drop ibuf).take 3) ≠ .tiaTr41 →
      4≤len ∧ ibuf+4≤bytes.length ∧ ibuf+3+(len-4)≤bytes.length)

/-- A TLV whose bytes are read where they were received: a chassis identifier one byte longer than
it says, a port identifier of its length; capabilities without, an organization with a neighbour. -/
def TlvFits (bytes : List Byte) (chassisLen : ℕ) (neighbor : Bool) (ibuf len : ℕ) : ℕ→Prop
  | 1 => len≤lldpSubTlvStrMaxLen ∧ ibuf+1+len≤bytes.length
  | 2 => chassisLen≤lldpSubTlvStrMaxLen ∧ ibuf+1+chassisLen≤bytes.length
  | 4 | 5 | 6 => neighbor=true → ibuf+len≤bytes.length
  | 7 => neighbor=false
  | 8 => neighbor=true → MgtFits bytes ibuf
  | 127 => neighbor=true ∧ OrgFits bytes ibuf len
  | _ => True

theorem finishes_readMgtAddress : Finishes (readMgtAddress bytes ibuf) ↔ MgtFits bytes ibuf := by
  unfold readMgtAddress MgtFits
  rw [finishes_readByte_bind,finishes_readByte_bind,finishes_memcpyIn_bind,
    finishes_readByte_bind,finishes_readBytes_bind,finishes_readByte_bind,
    finishes_memcpyIn_bind]
  have hmax : lldpManAddrStrMaxLen=31 := rfl
  simp only [finishes_ok,and_true]
  omega

theorem finishes_lldpTlvOrgProcess (len : ℕ) :
    Finishes (lldpTlvOrgProcess r s db ibuf len) ↔ db.isSome=true ∧ OrgFits r.bytes ibuf len := by
  unfold lldpTlvOrgProcess OrgFits
  rw [finishes_readBytes_bind]
  cases horg : orgTypeOf ((r.bytes.drop ibuf).take 3) with
  | tiaTr41 => cases db <;> simp
  | ieee8021 | ieee8023 =>
    rw [finishes_readByte_bind]
    cases db with
    | none => simp
    | some i =>
      rw [finishes_unless,finishes_readBytes_bind]
      simp only [finishes_ok,and_true,Option.isSome_some,true_and,ne_eq,reduceCtorEq,
        not_false_eq_true,forall_const]
      omega

theorem finishes_whenDb (f : Except Fault (TlvDb→TlvDb)) :
    Finishes (whenDb s db f) ↔ (db.isSome=true → Finishes f) := by
  cases db with
  | none => simp [whenDb]
  | some i => simp [whenDb,finishes_map]

theorem finishes_lldpTlvSwitch (len type : ℕ) : Finishes (lldpTlvSwitch r s db ibuf len type) ↔
      TlvFits r.bytes s.id.chassisLen db.isSome ibuf len type := by
  unfold lldpTlvSwitch TlvFits
  split
  · simp [finishes_whenDb]
  · rw [finishes_readByte_bind,finishes_memcpyIn_bind]
    simp
    omega
  · rw [finishes_readByte_bind,finishes_memcpyIn_bind]
    simp
    omega
  · simp [finishes_whenDb]
  · simp only [finishes_whenDb,finishes_map,finishes_readBytes]
  · simp only [finishes_whenDb,finishes_map,finishes_readBytes]
  · simp only [finishes_whenDb,finishes_map,finishes_readBytes]
  · simp [finishes_whenDb]
  · simp only [finishes_whenDb,finishes_map,finishes_readMgtAddress]
  · exact finishes_lldpTlvOrgProcess r s db ibuf len
  · simp

/-- A comparison of two identifiers stays in the arrays and finds them
different. -/
def Differs (a b : TlvDbId) : Prop :=
  a.chassisType=b.chassisType → a.chassisLen=b.chassisLen → a.portIdType=b.portIdType →
    a.portIdLen=b.portIdLen → a.chassisLen≤lldpSubTlvStrMaxLen ∧
      (a.chassisValue.take a.chassisLen=b.chassisValue.take a.chassisLen →
        a.portIdLen≤lldpSubTlvStrMaxLen ∧
          a.portIdValue.take a.portIdLen≠b.portIdValue.take a.portIdLen)

/-- There is no neighbour list, or none in it has the identifier. -/
def Unknown (s : LldpState) : Prop := ∀ list, s.neighbors=some list → ∀ db∈list, Differs db.id s.id

theorem sameId_eq_false (a b : TlvDbId) : sameId a b=.ok false ↔ Differs a b := by
  unfold sameId memcmpArray Differs
  split
  · next h =>
    obtain ⟨hty,hlen,hport,hportLen⟩ := h
    simp only [hty,hlen,hport,hportLen,forall_const]
    by_cases hc : b.chassisLen≤lldpSubTlvStrMaxLen
    · by_cases he : a.chassisValue.take b.chassisLen=b.chassisValue.take b.chassisLen
      · by_cases hp : b.portIdLen≤lldpSubTlvStrMaxLen
        · simp [hc,he,hp,Bind.bind,Except.bind]
        · simp [hc,he,hp,Bind.bind,Except.bind]
      · simp [hc,he,Bind.bind,Except.bind]
    · simp [hc,Bind.bind,Except.bind]
  next h =>
  simp only [true_iff]
  exact fun hty hlen hport hportLen => absurd ⟨hty,hlen,hport,hportLen⟩ h

theorem lookup_eq_none (id : TlvDbId) (list : List TlvDb) (i : ℕ) :
    lldpNeighborLookup id list i=.ok none ↔ ∀ db∈list, Differs db.id id := by
  induction list generalizing i with
  | nil => simp [lldpNeighborLookup]
  | cons db rest ih =>
    rw [forall_mem_cons,←sameId_eq_false,←ih (i+1),lldpNeighborLookup]
    rcases hsame : sameId db.id id with e|_|_ <;> simp [Bind.bind,Except.bind]

theorem finishes_lldpNeighborGet : Finishes (lldpNeighborGet s) ↔ Unknown s := by
  unfold lldpNeighborGet Unknown
  cases s.neighbors with
  | none => simp
  | some list =>
    have hnone := lookup_eq_none s.id list 0
    simp only [Option.some.injEq,forall_eq']
    rw [←hnone]
    rcases lldpNeighborLookup s.id list 0 with e|_|j <;> simp [Bind.bind,Except.bind]

/-- The static identifier is cleared for the first TLV behind an end. -/
def cleared (s : LldpState) : LldpState :=
  if s.dbId then s else {s with dbId := true,id := TlvDbId.zero}

/-- A TLV fits, and chassis and port collected are those of no known neighbour. -/
def Handled (r : Receive) (pos : ℕ) (s : LldpState) (db : Option ℕ) : Prop :=
  TlvFits r.bytes (cleared s).id.chassisLen db.isSome (pos+2) (lldpTlvHdrLen r.bytes pos)
      (lldpTlvHdrType r.bytes pos) ∧
    ∀ s', lldpTlvSwitch r (cleared s) db (pos+2) (lldpTlvHdrLen r.bytes pos)
        (lldpTlvHdrType r.bytes pos)=.ok s' →
      s'.id.portIdLen≠0 → s'.id.chassisLen≠0 → Unknown s'

/-- `lldp_tlv_process` for the header at a position. -/
def tlvProcessAt (r : Receive) (pos : ℕ) (s : LldpState) (db : Option ℕ) :
    Except Fault (LldpState × Option ℕ) :=
  lldpTlvProcess r s db (pos+2) (lldpTlvHdrLen r.bytes pos) (lldpTlvHdrType r.bytes pos)

theorem finishes_tlvProcessAt : Finishes (tlvProcessAt r pos s db) ↔ Handled r pos s db := by
  change Finishes (lldpTlvSwitch r (cleared s) db _ _ _ >>= fun s' =>
    if s'.id.portIdLen≠0 ∧ s'.id.chassisLen≠0 then lldpNeighborGet s' else .ok (s',db)) ↔ _
  have hget : ∀ s' : LldpState, Finishes (if s'.id.portIdLen≠0 ∧ s'.id.chassisLen≠0 then
      lldpNeighborGet s' else .ok (s',db)) ↔
      (s'.id.portIdLen≠0 → s'.id.chassisLen≠0 → Unknown s') := by
    intro s'
    rw [←finishes_lldpNeighborGet]
    split
    · next h => simp [h]
    next h =>
    simp only [finishes_ok,true_iff]
    exact fun hp hc => absurd ⟨hp,hc⟩ h
  rw [Handled,←finishes_lldpTlvSwitch,finishes_bind]
  simp only [hget]
  constructor
  · rintro ⟨s',hs',h⟩
    refine ⟨⟨s',hs'⟩,fun s'' hs'' => ?_⟩
    cases hs'.symm.trans hs''
    exact h
  · rintro ⟨⟨s',hs'⟩,h⟩
    exact ⟨s',hs',h s' hs'⟩

/-- State and neighbour pointer before the TLV at twice a position. -/
def stateBefore (r : Receive) (s : LldpState) : ℕ→LldpState × Option ℕ
  | 0 => (s,none)
  | j+1 =>
    match tlvProcessAt r (2*j) (stateBefore r s j).1 (stateBefore r s j).2 with
    | .ok next => next
    | .error _ => stateBefore r s j

/-- The loop stops at a received header of the received length, if what is before is handled. -/
def StopsFrom (r : Receive) (s : LldpState) (j : ℕ) : Prop :=
  ∃ k, j≤k ∧ 2*k+4≤r.bytes.length ∧ lldpTlvHdrLen r.bytes (2*k+2)=r.bytes.length ∧
    (∀ i, j ≤ i → i<k → lldpTlvHdrLen r.bytes (2*i+2)≠r.bytes.length) ∧
    ∀ i, j ≤ i → i≤k → Handled r (2*i) (stateBefore r s i).1 (stateBefore r s i).2

theorem stopsFrom_step :
    StopsFrom r s j ↔ Handled r (2*j) (stateBefore r s j).1 (stateBefore r s j).2 ∧
      2*j+4≤r.bytes.length ∧
      (lldpTlvHdrLen r.bytes (2*j+2)=r.bytes.length ∨ StopsFrom r s (j+1)) := by
  constructor
  · rintro ⟨k,hjk,hroom,hstop,hbef,hhandled⟩
    refine ⟨hhandled j le_rfl hjk,by omega,?_⟩
    rcases eq_or_lt_of_le hjk with rfl|hlt
    · exact Or.inl hstop
    exact Or.inr ⟨k,hlt,hroom,hstop,fun i hi => hbef i (by omega),
      fun i hi => hhandled i (by omega)⟩
  · rintro ⟨hhandled,hroom,hstop⟩
    by_cases hlen : lldpTlvHdrLen r.bytes (2*j+2)=r.bytes.length
    · refine ⟨j,le_rfl,hroom,hlen,fun i hi hij => absurd hij (by omega),fun i hi hij => ?_⟩
      obtain rfl : i=j := by omega
      exact hhandled
    obtain ⟨k,hjk,hk,hkstop,hbef,hall⟩ := hstop.resolve_left hlen
    refine ⟨k,by omega,hk,hkstop,fun i hi hik => ?_,fun i hi hik => ?_⟩
    · rcases eq_or_lt_of_le hi with rfl|hlt
      · exact hlen
      · exact hbef i hlt hik
    rcases eq_or_lt_of_le hi with rfl|hlt
    · exact hhandled
    · exact hall i hlt hik

/-- The loop finishes exactly when it stops inside the received bytes. -/
theorem finishes_lldpReadLoop :
    Finishes (lldpReadLoop r (2*j) (stateBefore r s j).1 (stateBefore r s j).2) ↔
      StopsFrom r s j := by
  induction hn : r.bytes.length-2*j using Nat.strong_induction_on generalizing j with
  | _ n ih =>
    rw [lldpReadLoop,stopsFrom_step,←finishes_tlvProcessAt,tlvProcessAt,finishes_bind]
    constructor
    · rintro ⟨⟨s',db'⟩,hnext,h⟩
      dsimp only at h
      refine ⟨⟨(s',db'),hnext⟩,?_⟩
      have hbef : stateBefore r s (j+1)=(s',db') := by rw [stateBefore,tlvProcessAt,hnext]
      by_cases hroom : 2*j+4≤r.bytes.length
      · rw [dif_pos hroom] at h
        refine ⟨hroom,?_⟩
        by_cases hlen : r.bytes.length=lldpTlvHdrLen r.bytes (2*j+2)
        · exact Or.inl hlen.symm
        rw [if_neg hlen,finishes_bind] at h
        obtain ⟨rest,hrs,-⟩ := h
        refine Or.inr ((ih _ ?_ (j+1) rfl).mp ⟨rest,?_⟩)
        · omega
        rw [hbef]
        exact hrs
      rw [dif_neg hroom] at h
      exact absurd h (not_finishes_error _)
    · rintro ⟨⟨⟨s',db'⟩,hnext⟩,hroom,hstop⟩
      refine ⟨(s',db'),hnext,?_⟩
      have hbef : stateBefore r s (j+1)=(s',db') := by rw [stateBefore,tlvProcessAt,hnext]
      dsimp only
      rw [dif_pos hroom]
      by_cases hlen : r.bytes.length=lldpTlvHdrLen r.bytes (2*j+2)
      · rw [if_pos hlen]
        exact finishes_ok _
      rw [if_neg hlen,finishes_bind]
      have hrs := (ih _ (by omega) (j+1) rfl).mpr (hstop.resolve_left fun h => hlen h.symm)
      rw [hbef] at hrs
      obtain ⟨rest,hrs⟩ := hrs
      exact ⟨rest,hrs,finishes_ok _⟩

/-- `lldp_read_process` returns and reads nothing but received bytes. -/
def ReadsInside (r : Receive) (s : LldpState) : Prop := Finishes (lldpReadProcess r s)

theorem readsInside_iff : ReadsInside r s ↔ StopsFrom r s 0 := by
  rw [←finishes_lldpReadLoop,ReadsInside,lldpReadProcess]
  by_cases h : 2≤r.bytes.length
  · rw [if_pos h]
    rfl
  rw [if_neg h,finishes_lldpReadLoop]
  constructor
  · exact fun hfault => absurd hfault (not_finishes_error _)
  · rintro ⟨k,-,hroom,-⟩
    omega

/-- No frame is read as written, and reading stays inside exactly when the loop stops there. -/
theorem lldp_frames_read (s : LldpState) :
    (∀ d : Description, d.Fits → ∀ r : Receive, r.bytes=(lldpMakeLldpPdu d).data →
      8 ∣ r.addr → ¬DecodedAsEncoded d r s) ∧
    ∀ r : Receive, ReadsInside r s ↔ StopsFrom r s 0 :=
  ⟨fun d _ _ hbytes haddr => not_decodedAsEncoded d s hbytes haddr,fun r => readsInside_iff r s⟩

/-- An interface without description of a system without name. -/
def plainDescription : Description where
  frame := .lldp
  dstMac := Vector.replicate 6 1
  ownMac := Vector.replicate 6 2
  chassis := ⟨4,[0,0,0,0,0,0]⟩
  port := ⟨5,[0x65,0x74,0x68,0x30]⟩
  holdtime := 120
  desc := none
  systemName := none
  systemDesc := []

/-- The frame of the plain description, at the start of a page. -/
def plainReceive : Receive := ⟨4096,(lldpMakeLldpPdu plainDescription).data,1⟩

theorem lldp_frames_read_plain : plainDescription.Fits ∧ 8 ∣ plainReceive.addr ∧
      ¬DecodedAsEncoded plainDescription plainReceive LldpState.start := by
  have hfits : plainDescription.Fits := by
    unfold Description.Fits
    decide
  exact ⟨hfits,by decide,(lldp_frames_read LldpState.start).1 plainDescription hfits plainReceive
    rfl (by decide)⟩

/-- The plain frame is not decoded, and the loop reads on behind an end TLV. -/
theorem lldp_frames_misread : lldpReadPacket plainReceive LldpState.start=.ok (LldpState.start,[]) ∧
      writtenTlvs plainDescription≠[] ∧
      ¬DecodedAsEncoded plainDescription plainReceive LldpState.start ∧
      ¬ReadsInside ⟨4096,[0,0,0,0],1⟩ LldpState.start := by
  refine ⟨lldpReadPacket_frame plainDescription _ rfl (by decide),by simp [writtenTlvs],
    not_decodedAsEncoded plainDescription _ rfl (by decide),?_⟩
  rw [readsInside_iff]
  rintro ⟨k,-,hroom,hstop,-⟩
  obtain rfl : k=0 := by
    change 2*k+4≤4 at hroom
    omega
  cases hstop

end RoutePlatform.LldpReading
