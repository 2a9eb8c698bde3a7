import RoutePlatform.StreamOperations

/-!
# Link layer discovery of `lldpd/lldp_packet.c` and `lldpd/lldp_read.c`

A frame is an Ethernet header and a row of TLVs with seven bits of type and nine bits of length.
The writer puts the TLVs of the system and the interface into the output stream. The reader keeps
the identifier that it collects in static variables. Memory is a list of received bytes; an access
without a meaning is a fault. The host is little endian.
-/

namespace RoutePlatform.LldpOperations

open StreamOperations

abbrev Byte := BitVec 8

/-- `lifp->frame`. -/
inductive FrameType where
  | lldp
  | snap
  deriving DecidableEq

/-- `struct lldp_sub_head` as far as it is used: a subtype and a value. -/
structure SubHead where
  subtype : Byte
  value : List Byte

/-- What the writer reads of interface and system, with answers for what is not configured. -/
structure Description where
  frame : FrameType
  dstMac : Vector Byte 6
  ownMac : Vector Byte 6
  chassis : SubHead
  port : SubHead
  holdtime : BitVec 16
  desc : Option (List Byte)
  systemName : Option (List Byte)
  systemDesc : List Byte

/-- The values of the description that go into a TLV. -/
def Description.values (d : Description) : List (List Byte) :=
  [d.chassis.subtype::d.chassis.value,d.port.subtype::d.port.value,d.systemDesc] ++
    d.desc.toList++d.systemName.toList

/-- Every value of the description fits the buffer of the writer. -/
def Description.Fits (d : Description) : Prop := ∀ v∈d.values, v.length≤506

def lldpEnd : ℕ := 0
def lldpChassisId : ℕ := 1
def lldpPortId : ℕ := 2
def lldpTtlId : ℕ := 3
def lldpPortDescId : ℕ := 4
def lldpSystemNameId : ℕ := 5
def lldpSystemDescId : ℕ := 6
def lldpSystemCapaId : ℕ := 7
def lldpMgtAddrId : ℕ := 8
def lldpOrgTlvId : ℕ := 127

def lldpPacketMaxSize : ℕ := 1500

/-- The types of organizations that a TLV names. -/
inductive OrgType where
  | ieee8021
  | ieee8023
  | tiaTr41
  deriving DecidableEq

/-- The identifier bytes of an organization. -/
def OrgType.identifer : OrgType→List Byte
  | .ieee8021 => [0x00,0x80,0xc2]
  | .ieee8023 => [0x00,0x12,0x0f]
  | .tiaTr41 => [0x00,0x12,0xBB]

def lldpTlvHdr (type len : ℕ) : List Byte :=
  [BitVec.ofNat 8 ((type &&& 0x7f) <<< 1 ||| (len &&& 0x0100) >>> 8),BitVec.ofNat 8 (len &&& 0xff)]

/-- `stream_put` shortens what does not fit. -/
def streamPut (s : Stream) (bytes : List Byte) : Stream :=
  s.append (bytes.take s.writeable) (List.length_take_le _ _)

def lldpConstrLtv (s : Stream) (type : ℕ) (tlv : List Byte) : Stream :=
  if 127<type then s else streamPut s (lldpTlvHdr type tlv.length++tlv)

def lldpConstrExpLtv (s : Stream) (orgtype : OrgType) (subtype : Byte) (tlv : List Byte) : Stream :=
  streamPut s (lldpTlvHdr lldpOrgTlvId (tlv.length+4)++orgtype.identifer++[subtype]++tlv)

def lldpConstrEndLtv (s : Stream) : Stream := streamPut s (lldpTlvHdr lldpEnd 0)

/-- What `lldp_constr_management_address_ltv` puts: 192.168.1.101, interface index and identifier.
-/
def mgtAddressBytes : List Byte := [5,1,192,168,1,101,2,0,0,0,5,1,0]

def lldpConstrSystemLtv (d : Description) (s : Stream) : Stream :=
  let s := match d.systemName with
    | some value => lldpConstrLtv s lldpSystemNameId value
    | none => s
  let s := lldpConstrLtv s lldpSystemDescId d.systemDesc
  let s := lldpConstrLtv s lldpSystemCapaId [1,0,1,0]
  lldpConstrLtv s lldpMgtAddrId mgtAddressBytes

/-- `lldp_constr_org_ltv`; `lldp_port_frame_size` overwrites the frame size. -/
def lldpConstrOrgLtv (s : Stream) : Stream :=
  let s := lldpConstrExpLtv s .ieee8021 1 [0,23]
  let s := lldpConstrExpLtv s .ieee8021 2 [1,0,23]
  let s := lldpConstrExpLtv s .ieee8021 3 [0,23,6,0x76,0x6c,0x61,0x6e,0x32,0x33]
  let s := lldpConstrExpLtv s .ieee8021 4 [0]
  let s := lldpConstrExpLtv s .ieee8023 4 [2,0]
  lldpConstrExpLtv s .ieee8023 1 [3,0x6c,0,0,0x10]

def lldpMakeLtv (d : Description) (s : Stream) : Stream :=
  let s := lldpConstrLtv s lldpChassisId (d.chassis.subtype::d.chassis.value)
  let s := lldpConstrLtv s lldpPortId (d.port.subtype::d.port.value)
  let s := lldpConstrLtv s lldpTtlId [(d.holdtime >>> 8).setWidth 8,d.holdtime.setWidth 8]
  let s := match d.desc with
    | some value => lldpConstrLtv s lldpPortDescId value
    | none => s
  lldpConstrOrgLtv (lldpConstrSystemLtv d s)

def lldpHeadFormat (d : Description) (s : Stream) : Stream :=
  match d.frame with
  | .snap => streamPut s (d.dstMac.toList++d.ownMac.toList ++
      [0xAA,0xAA,0x03,0x00,0x00,0x00,0x88,0xCC])
  | .lldp => streamPut s (d.dstMac.toList++d.ownMac.toList++[0x88,0xcc])

def lldpMakeLldpPdu (d : Description) : Stream :=
  lldpConstrEndLtv (lldpMakeLtv d (lldpHeadFormat d (streamNew lldpPacketMaxSize)))

/-- What the language gives no meaning to. -/
inductive Fault where
  | overread
  | overflow
  /-- The null pointer is followed. -/
  | nullPointer
  | allocation
  /-- The answer of a function that returned none is used. -/
  | noAnswer
  deriving DecidableEq

def lldpSubTlvStrMaxLen : ℕ := 255

structure TlvDbId where
  chassisType : Byte
  chassisLen : ℕ
  chassisValue : List Byte
  portIdType : Byte
  portIdLen : ℕ
  portIdValue : List Byte
  deriving DecidableEq

/-- The identifier that `memset` clears. -/
def TlvDbId.zero : TlvDbId :=
  ⟨0,0,List.replicate lldpSubTlvStrMaxLen 0,0,0,List.replicate lldpSubTlvStrMaxLen 0⟩

/-- `memcpy` to the start of an array. -/
def memcpyArray (array bytes : List Byte) : List Byte := bytes++array.drop bytes.length

/-- An entry of `org_list`. -/
structure OrgTlv where
  type : OrgType
  subtype : Byte
  value : List Byte
  deriving DecidableEq

structure MgtAddress where
  addrLen : Byte
  subtype : Byte
  value : List Byte
  ifsubtype : Byte
  idindex : List Byte
  oidlen : Byte
  oid : List Byte
  deriving DecidableEq

/-- `struct tlv_db`. Its capability is allocated nowhere. -/
structure TlvDb where
  id : TlvDbId
  timeInterval : ℕ
  ifindex : ℤ
  systemName : Option (List Byte)
  systemDesc : Option (List Byte)
  holdtime : ℕ
  portDesc : Option (List Byte)
  mgtAddress : Option MgtAddress
  orgList : List OrgTlv
  unknownCount : ℕ
  deriving DecidableEq

/-- What the reader keeps between frames. -/
structure LldpState where
  /-- The static `db_id` is set. -/
  dbId : Bool
  id : TlvDbId
  /-- `tlv_neighbor_list`, when there is one. -/
  neighbors : Option (List TlvDb)
  deriving DecidableEq

/-- The state when the daemon starts. -/
def LldpState.start : LldpState := ⟨false,TlvDbId.zero,some []⟩

/-- A TLV as it is presented to `lldp_tlv_process`. -/
structure Tlv where
  type : ℕ
  len : ℕ
  /-- The bytes of the value that were received. -/
  value : List Byte
  deriving DecidableEq

/-- Bytes that are read from a position. -/
def readBytes (bytes : List Byte) (pos n : ℕ) : Except Fault (List Byte) :=
  if pos+n≤bytes.length then .ok ((bytes.drop pos).take n) else .error .overread

def readByte (bytes : List Byte) (pos : ℕ) : Except Fault Byte :=
  match bytes[pos]? with
  | some b => .ok b
  | none => .error .overread

/-- `memcpy` of `n` received bytes into an array of `size` bytes. -/
def memcpyIn (array bytes : List Byte) (size pos n : ℕ) : Except Fault (List Byte) :=
  if n ≤ size then (readBytes bytes pos n).map (memcpyArray array) else .error .overflow

/-- `memcmp` of the first bytes of two arrays finds them equal. -/
def memcmpArray (a b : List Byte) (n : ℕ) : Except Fault Bool :=
  if n≤lldpSubTlvStrMaxLen then .ok (a.take n=b.take n) else .error .overflow

/-- The comparison of `lldp_neighbor_lookup`. -/
def sameId (a b : TlvDbId) : Except Fault Bool :=
  if a.chassisType=b.chassisType ∧ a.chassisLen=b.chassisLen ∧
      a.portIdType=b.portIdType ∧ a.portIdLen=b.portIdLen then do
    if ← memcmpArray a.chassisValue b.chassisValue a.chassisLen then
      memcmpArray a.portIdValue b.portIdValue a.portIdLen
    else .ok false
  else .ok false

/-- `lldp_neighbor_lookup`, from an entry on. -/
def lldpNeighborLookup (id : TlvDbId) : List TlvDb→ℕ→Except Fault (Option ℕ)
  | [], _ => .ok none
  | db::rest, i => do
    if ← sameId db.id id then .ok (some i) else lldpNeighborLookup id rest (i+1)

/-- The entry of `lldp_neighbor_new`. -/
def TlvDb.new (id : TlvDbId) : TlvDb := ⟨id,0,0,none,none,0,none,none,[],0⟩

/-- `lldp_neighbor_get`. There is no `return` for an entry that is found. -/
def lldpNeighborGet (s : LldpState) : Except Fault (LldpState × Option ℕ) :=
  match s.neighbors with
  | none => .ok (s,none)
  | some list => do
    match ← lldpNeighborLookup s.id list 0 with
    | none => .ok ({s with neighbors := some (list++[TlvDb.new s.id])},some list.length)
    | some _ => .error .noAnswer

/-- What the reader knows of the received bytes and of the interface. -/
structure Receive where
  addr : ℕ
  bytes : List Byte
  ifindex : ℤ

def ntohs (w : BitVec 16) : BitVec 16 := w <<< 8 ||| w >>> 8

def tlvDbCheckTime : ℕ := 10

/-- A change of the entry that a pointer refers to. -/
def LldpState.modifyDb (s : LldpState) (db : ℕ) (f : TlvDb→TlvDb) : LldpState :=
  {s with neighbors := s.neighbors.map fun list => list.modify db f}

/-- The entry changes when the pointer is not null. -/
def whenDb (s : LldpState) (db : Option ℕ) (f : Except Fault (TlvDb→TlvDb)) :
    Except Fault LldpState :=
  match db with
  | some i => f.map (s.modifyDb i)
  | none => .ok s

/-- `lldp_tlv_org_process` sets the value of the organization and subtype. -/
def setOrg (type : OrgType) (subtype : Byte) (value : List Byte) : List OrgTlv→List OrgTlv
  | [] => [⟨type,subtype,value⟩]
  | org::rest =>
    if org.type=type ∧ org.subtype=subtype then {org with value := value}::rest
    else org::setOrg type subtype value rest

/-- The organization of the first three bytes, `LLDP_8021_ORG` at first. -/
def orgTypeOf (ident : List Byte) : OrgType := if ident=OrgType.ieee8021.identifer then .ieee8021
  else if ident=OrgType.ieee8023.identifer then .ieee8023
  else if ident=OrgType.tiaTr41.identifer then .tiaTr41
  else .ieee8021

def lldpTlvOrgProcess (r : Receive) (s : LldpState) (db : Option ℕ) (ibuf len : ℕ) :
    Except Fault LldpState := do
  let ident ← readBytes r.bytes ibuf 3
  match orgTypeOf ident with
  | .tiaTr41 =>
    match db with
    | none => .error .nullPointer
    | some i => .ok (s.modifyDb i fun db => {db with unknownCount := db.unknownCount+1})
  | orgtype =>
    let subtype ← readByte r.bytes (ibuf+3)
    match db with
    | none => .error .nullPointer
    | some i =>
      if len<4 then .error .allocation
      else do
        let value ← readBytes r.bytes (ibuf+3) (len-4)
        .ok (s.modifyDb i fun db => {db with orgList := setOrg orgtype subtype value db.orgList})

def lldpManAddrStrMaxLen : ℕ := 31

def lldpOidMaxLen : ℕ := 128

/-- The management address of `lldp_tlv_process`. -/
def readMgtAddress (bytes : List Byte) (ibuf : ℕ) : Except Fault MgtAddress := do
  let subtype ← readByte bytes (ibuf+1)
  let addrLen ← readByte bytes ibuf
  let value ← memcpyIn (List.replicate lldpManAddrStrMaxLen 0) bytes lldpManAddrStrMaxLen (ibuf+2)
    addrLen.toNat
  let ifsubtype ← readByte bytes (ibuf+33)
  let idindex ← readBytes bytes (ibuf+34) 4
  let oidlen ← readByte bytes (ibuf+38)
  let oid ← memcpyIn (List.replicate lldpOidMaxLen 0) bytes lldpOidMaxLen (ibuf+39) oidlen.toNat
  .ok ⟨addrLen,subtype,value,ifsubtype,idindex,oidlen,oid⟩

/-- The `switch` of `lldp_tlv_process`. -/
def lldpTlvSwitch (r : Receive) (s : LldpState) (db : Option ℕ) (ibuf len type : ℕ) :
    Except Fault LldpState :=
  match type with
  | 0 =>
    whenDb {s with dbId := false} db
      (.ok fun db => {db with timeInterval := tlvDbCheckTime,ifindex := r.ifindex})
  | 1 => do
    let subtype ← readByte r.bytes ibuf
    let value ← memcpyIn s.id.chassisValue r.bytes lldpSubTlvStrMaxLen (ibuf+1) len
    .ok {s with id := {s.id with
      chassisType := subtype,chassisLen := len,chassisValue := value}}
  | 2 => do
    let subtype ← readByte r.bytes ibuf
    -- the bytes that are copied are as many as the chassis identifier has
    let value ← memcpyIn s.id.portIdValue r.bytes lldpSubTlvStrMaxLen (ibuf+1) s.id.chassisLen
    .ok {s with id := {s.id with portIdType := subtype,portIdLen := len,portIdValue := value}}
  | 3 =>
    -- the address of the value is converted, not the value
    whenDb s db (.ok fun db => {db with holdtime := (ntohs (BitVec.ofNat 16 (r.addr+ibuf))).toNat})
  | 4 =>
    whenDb s db ((readBytes r.bytes ibuf len).map fun value db => {db with portDesc := some value})
  | 5 =>
    whenDb s db
      ((readBytes r.bytes ibuf len).map fun value db => {db with systemName := some value})
  | 6 =>
    whenDb s db
      ((readBytes r.bytes ibuf len).map fun value db => {db with systemDesc := some value})
  -- the memory for the capability is given to the system description
  | 7 => whenDb s db (.error .nullPointer)
  | 8 =>
    whenDb s db
      ((readMgtAddress r.bytes ibuf).map fun value db => {db with mgtAddress := some value})
  | 127 => lldpTlvOrgProcess r s db ibuf len
  | _ => .ok s

def lldpTlvProcess (r : Receive) (s : LldpState) (db : Option ℕ) (ibuf len type : ℕ) :
    Except Fault (LldpState × Option ℕ) := do
  let s := if s.dbId then s else {s with dbId := true,id := TlvDbId.zero}
  let s ← lldpTlvSwitch r s db ibuf len type
  if s.id.portIdLen≠0 ∧ s.id.chassisLen≠0 then lldpNeighborGet s else .ok (s,db)

def lldpTlvHdrType (bytes : List Byte) (pos : ℕ) : ℕ := (bytes.getD pos 0).toNat/2

def lldpTlvHdrLen (bytes : List Byte) (pos : ℕ) : ℕ :=
  (bytes.getD pos 0).toNat%2*256+(bytes.getD (pos+1) 0).toNat

/-- What `lldp_tlv_process` is called with for the header at a position. -/
def tlvAt (bytes : List Byte) (pos : ℕ) : Tlv where
  type := lldpTlvHdrType bytes pos
  len := lldpTlvHdrLen bytes pos
  value := (bytes.drop (pos+2)).take (lldpTlvHdrLen bytes pos)

/-- The loop of `lldp_read_process`: the position advances by a header, the length by the TLV. -/
def lldpReadLoop (r : Receive) (pos : ℕ) (s : LldpState) (db : Option ℕ) :
    Except Fault (LldpState × List Tlv) := do
  let (s,db) ← lldpTlvProcess r s db (pos+2) (lldpTlvHdrLen r.bytes pos)
    (lldpTlvHdrType r.bytes pos)
  if _h : pos+4≤r.bytes.length then
    if r.bytes.length=lldpTlvHdrLen r.bytes (pos+2) then .ok (s,[tlvAt r.bytes pos])
    else do
      let (s,tlvs) ← lldpReadLoop r (pos+2) s db
      .ok (s,tlvAt r.bytes pos::tlvs)
  else .error .overread
  termination_by r.bytes.length-pos

/-- `lldp_read_process`, with the TLVs that were presented. -/
def lldpReadProcess (r : Receive) (s : LldpState) : Except Fault (LldpState × List Tlv) :=
  if 2≤r.bytes.length then lldpReadLoop r 0 s none else .error .overread

def Receive.behind (r : Receive) (offset : ℕ) : Receive :=
  {r with addr := r.addr+offset,bytes := r.bytes.drop offset}

/-- Where `lldp_read_packet` looks for the protocol: behind the headers. -/
def protoOffset (bytes : List Byte) : ℕ :=
  if bytes.getD 12 0=0x81 ∧ bytes.getD 13 0=0x00 then 18 else 14

/-- `lldp_read_packet` of an enabled daemon compares the address of the protocol. -/
def lldpReadPacket (r : Receive) (s : LldpState) : Except Fault (LldpState × List Tlv) :=
  let offset := protoOffset r.bytes
  let hProto := BitVec.ofNat 16 (r.addr+offset)
  if r.bytes.length<16 then .ok (s,[])
  else if ntohs hProto=0x88cc then lldpReadProcess (r.behind (offset+2)) s
  else if ntohs hProto=0xaaaa then lldpReadProcess (r.behind (offset+8)) s
  else .ok (s,[])

end RoutePlatform.LldpOperations
