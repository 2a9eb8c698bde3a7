import RoutePlatform.NetworkBytes
import RoutePlatform.TlvOperations

/-!
# Sequence numbers PDUs of `isisd/isis_pdu.c` and `isisd/isis_lsp.c`

The database of a level is an ordered map, here a list in the order of the ids. Of an LSP there
are the fields that an entry describes, the flags, and the rest of its PDU, over which the
checksum is computed. What `parse_tlvs` finds, the digest and the sending of a packet are
arguments. The log and the path computation are left out.
-/

namespace RoutePlatform.SnpOperations

open StreamOperations TlvOperations NetworkBytes List

variable {id1 id2 : LspId}

instance {n : ℕ} : DecidableEq (Octets n) := fun a b =>
  decidable_of_iff (a.bytes=b.bytes) (by cases a; cases b; simp)

deriving instance DecidableEq for LspEntry

/-- System id, pseudonode id and fragment number. -/
abbrev LspId := Octets 8

/-- `IS_LEVEL_1` and `IS_LEVEL_2`. -/
inductive IsisLevel where
  | level1 | level2
deriving DecidableEq, Repr

def IsisLevel.code : IsisLevel→BitVec 32
  | .level1 => 1
  | .level2 => 2

/-- `SRMflags` and `SSNflags`, a bit for each of `32 * ISIS_MAX_CIRCUITS` circuits. -/
abbrev Flags := BitVec 1024

structure IsisLsp where
  header : LspEntry
  body : List Byte
  srmFlags : Flags
  ssnFlags : Flags
deriving DecidableEq

def IsisLsp.lspId (lsp : IsisLsp) : LspId := lsp.header.lspId

def lspIdCmp (id1 id2 : LspId) : Ordering := memcmp id1.bytes id2.bytes

def idValue (id : LspId) : ℕ := netValue id.bytes

theorem lspIdCmp_eq_compare (id1 id2 : LspId) :
    lspIdCmp id1 id2=compare (idValue id1) (idValue id2) :=
  memcmp_eq_compare _ _ (id1.length_eq.trans id2.length_eq.symm)

theorem lspIdCmp_eq_lt : lspIdCmp id1 id2=.lt ↔ idValue id1 < idValue id2 := by
  rw [lspIdCmp_eq_compare,Nat.compare_eq_lt]

theorem lspIdCmp_eq_gt : lspIdCmp id1 id2=.gt ↔ idValue id2 < idValue id1 := by
  rw [lspIdCmp_eq_compare,Nat.compare_eq_gt]

theorem idValue_inj (h : idValue id1=idValue id2) : id1=id2 := by
  have hbs := netValue_inj (id1.length_eq.trans id2.length_eq.symm) h
  cases id1
  cases id2
  cases hbs
  rfl

theorem lspIdCmp_eq_eq : lspIdCmp id1 id2=.eq ↔ id1=id2 := by
  rw [lspIdCmp_eq_compare,Nat.compare_eq_eq]
  exact ⟨idValue_inj,congrArg idValue⟩

/-- Whether the remaining lifetime is not zero. -/
def IsisLsp.Alive (lsp : IsisLsp) : Prop := netValue lsp.header.remLifetime.bytes≠0

instance (lsp : IsisLsp) : Decidable lsp.Alive := inferInstanceAs (Decidable (_≠_))

/-- `area->lspdb`. -/
structure LspDb where
  lsps : List IsisLsp
  /-- They are in the order of their ids, each once. -/
  sorted : lsps.Pairwise fun a b => lspIdCmp a.lspId b.lspId=.lt

def lspSearch (id : LspId) (db : LspDb) : Option IsisLsp :=
  db.lsps.find? fun lsp => lspIdCmp lsp.lspId id=.eq

/-- `dict_lower_bound`: the node with the least id from `id` on. -/
def dictLowerBound (lsps : List IsisLsp) (id : LspId) : List IsisLsp :=
  lsps.dropWhile fun lsp => lspIdCmp lsp.lspId id=.lt

/-- `dict_upper_bound`: the node with the greatest id up to `id`. -/
def dictUpperBound (id : LspId) : List IsisLsp→List IsisLsp
  | [] => []
  | lsp::lsps =>
    if lspIdCmp lsp.lspId id=.gt then []
    else
      match dictUpperBound id lsps with
      | [] => lsp::lsps
      | node => node

/-- `LSP_EQUAL`, `LSP_NEWER` and `LSP_OLDER`. -/
inductive LspCmp where
  | equal | newer | older
deriving DecidableEq, Repr

/-- `lsp_compare`: whether what is described is newer than the LSP. -/
def lspCompare (lsp : LspEntry) (seqNum : Octets 4) (checksum remLifetime : Octets 2) : LspCmp :=
  if lsp.seqNum=seqNum ∧ lsp.checksum=checksum ∧
      (netValue lsp.remLifetime.bytes=0 ∧ netValue remLifetime.bytes=0 ∨
        netValue lsp.remLifetime.bytes≠0 ∧ netValue remLifetime.bytes≠0) then .equal
  else if netValue seqNum.bytes ≥ netValue lsp.seqNum.bytes then .newer
  else .older

structure IsisPasswd where
  type : Byte
  passwd : List Byte
  fits : passwd.length≤254
  snpAuth : Byte

/-- `struct isis_circuit`, with the passwords of its area. -/
structure IsisCircuit where
  idx : ℕ
  idx_lt : idx<1024
  isType : BitVec 32
  extDomain : Bool
  /-- The type is `CIRCUIT_T_BROADCAST`. -/
  broadcast : Bool
  isDr : IsisLevel→Bool
  /-- The systems in `adjdb`. -/
  adjdb : IsisLevel→List (Octets 6)
  /-- Whether there is a neighbour on a point to point circuit. -/
  neighbor : Bool
  isoMtu : ℕ
  /-- The size of `snd_stream`. -/
  sndSize : ℕ
  passwd : IsisLevel→IsisPasswd

/-- `ISIS_SET_FLAG`. -/
def setFlag (flags : Flags) (circuit : IsisCircuit) : Flags :=
  flags ||| BitVec.twoPow 1024 circuit.idx

/-- `ISIS_CLEAR_FLAG`. -/
def clearFlag (flags : Flags) (circuit : IsisCircuit) : Flags :=
  flags &&& ~~~BitVec.twoPow 1024 circuit.idx

/-- `ISIS_CHECK_FLAG`. -/
def checkFlag (flags : Flags) (circuit : IsisCircuit) : Bool := flags.getLsbD circuit.idx

/-- The loop of `lsp_build_list_nonzero_ht` behind a node. -/
def nonzeroLoop (last : List IsisLsp) : List IsisLsp→List IsisLsp
  | [] => []
  | lsp::lsps =>
    (if lsp.Alive then [lsp] else [])++if lsp::lsps=last then [] else nonzeroLoop last lsps

def lspBuildListNonzeroHt (startId stopId : LspId) (db : LspDb) : List IsisLsp :=
  match dictLowerBound db.lsps startId with
  | [] => []
  | first::rest =>
    (if first.Alive then [first] else [])++nonzeroLoop (dictUpperBound stopId db.lsps) rest

/-- The loop of `lsp_build_list` behind a node, with the number of LSPs as an `u_char`. -/
def buildLoop (last : List IsisLsp) (numLsps : Byte) : Byte→List IsisLsp→List IsisLsp
  | _, [] => []
  | count, lsp::lsps =>
    lsp::if count+1=numLsps ∨ lsp::lsps=last then []
      else buildLoop last numLsps (count+1) lsps

def lspBuildList (startId stopId : LspId) (numLsps : Byte) (db : LspDb) : List IsisLsp :=
  match dictLowerBound db.lsps startId with
  | [] => []
  | first::rest => first::buildLoop (dictUpperBound stopId db.lsps) numLsps 1 rest

/-- The code of `ISIS_PASSWD_TYPE_CLEARTXT`. -/
def passwdTypeCleartxt : Byte := 1

/-- The code of `ISIS_PASSWD_TYPE_HMAC_MD5`. -/
def passwdTypeHmacMd5 : Byte := 54

/-- Whether `SNP_AUTH_SEND` is set. -/
def IsisPasswd.Sends (passwd : IsisPasswd) : Prop := passwd.snpAuth &&& 0x01#8≠0

/-- Whether `SNP_AUTH_RECV` is set. -/
def IsisPasswd.Receives (passwd : IsisPasswd) : Prop := passwd.snpAuth &&& 0x02#8≠0

instance (passwd : IsisPasswd) : Decidable passwd.Sends := inferInstanceAs (Decidable (_≠_))

instance (passwd : IsisPasswd) : Decidable passwd.Receives := inferInstanceAs (Decidable (_≠_))

/-- `auth_tlv_length`: the header is counted without a password, too. -/
def authTlvLength (level : IsisLevel) (circuit : IsisCircuit) : ℕ :=
  let passwd := circuit.passwd level
  3+if passwd.Sends then
    if passwd.type=passwdTypeCleartxt then passwd.passwd.length
    else if passwd.type=passwdTypeHmacMd5 then 16
    else 0
  else 0

def getMaxLspCount (size : BitVec 16) : BitVec 16 :=
  let tlvCount := size/242
  let lspCount := tlvCount*(242/16)
  let remainingSize := size%242
  if remainingSize.toNat-2 ≥ 16 then
    lspCount+BitVec.ofNat 16 ((remainingSize.toNat-2)/16)
  else lspCount

/-- `max_lsps_per_snp` for a CSNP. -/
def maxLspsPerSnp (level : IsisLevel) (circuit : IsisCircuit) : BitVec 16 :=
  getMaxLspCount (BitVec.ofNat 16 circuit.sndSize-BitVec.ofNat 16 (8+25) -
    BitVec.ofNat 16 (authTlvLength level circuit))

/-- `stream_put`, which shortens what does not fit. -/
def streamPut (s : Stream) (bytes : List Byte) : Stream :=
  s.append (bytes.take s.writeable) (length_take_le _ _)

/-- A byte or a word. Without room for it `stream.c` aborts; a stream of the size of an MTU has room
for the headers. -/
def putOrLeave (s : Stream) (bytes : List Byte) : Stream := (s.put bytes).getD s

/-- `fill_fixed_hdr_andstream` for a CSNP. -/
def fillFixedHdr (level : IsisLevel) (s : Stream) : Stream :=
  let pduType : Byte := match level with
    | .level1 => 24
    | .level2 => 25
  [0x83,25+8,1,0,pduType,1,0,0].foldl (fun s b => putOrLeave s [b]) s

/-- The headers that `build_csnp` writes. -/
def csnpHeaders (sysid : Octets 6) (level : IsisLevel) (start stop : LspId) (s : Stream) :
    Stream :=
  let s := fillFixedHdr level s
  let s := putOrLeave s [0,0]
  let s := streamPut s sysid.bytes
  let s := putOrLeave s [0]
  let s := streamPut s start.bytes
  streamPut s stop.bytes

def tlvAddAuthinfo (authType : Byte) (authValue : List Byte) (s : Stream) : IsisRet × Stream :=
  addTlv 10 (authType::authValue) s

/-- The authentication that `build_csnp` writes. -/
def csnpAuth (passwd : IsisPasswd) (s : Stream) : IsisRet × Stream :=
  if passwd.Sends then
    if passwd.type=passwdTypeCleartxt then tlvAddAuthinfo passwdTypeCleartxt passwd.passwd s
    else if passwd.type=passwdTypeHmacMd5 then
      tlvAddAuthinfo passwdTypeHmacMd5 (List.replicate 16 0) s
    else (.isisOk,s)
  else (.isisOk,s)

def overwrite (bytes : List Byte) (offset : ℕ) (more : List Byte) : List Byte :=
  bytes.take offset++more++bytes.drop (offset+more.length)

/-- The end of `build_csnp`: the length and the digest. -/
def csnpFinish (hmacMd5 : List Byte→List Byte→List Byte) (passwd : IsisPasswd)
    (lenp authTlvOffset : ℕ) (pdu : List Byte) : List Byte :=
  let length := BitVec.ofNat 16 pdu.length
  let pdu := overwrite pdu lenp [(length >>> 8).setWidth 8,length.setWidth 8]
  if passwd.Sends ∧ passwd.type=passwdTypeHmacMd5 then
    overwrite pdu (authTlvOffset+3) (hmacMd5 pdu passwd.passwd)
  else pdu

/-- `build_csnp`, with the PDU when it succeeds. -/
def buildCsnp (hmacMd5 : List Byte→List Byte→List Byte) (sysid : Octets 6)
    (level : IsisLevel) (start stop : LspId) (lsps : List IsisLsp) (circuit : IsisCircuit) :
    Option (Except IsisRet (List Byte)) :=
  let passwd := circuit.passwd level
  let s := streamNew circuit.sndSize
  let lenp := (fillFixedHdr level s).endp
  let s := csnpHeaders sysid level start stop s
  let authTlvOffset := s.endp
  let auth := csnpAuth passwd s
  if auth.1 ≠ .isisOk then some (.error .isisWarning)
  else (tlvAddLspEntries (lsps.map IsisLsp.header) auth.2).map fun r =>
      if r.1 ≠ .isisOk then .error r.1
      else .ok (csnpFinish hmacMd5 passwd lenp authTlvOffset r.2.data)

structure Csnp where
  start : LspId
  stop : LspId
  lsps : List IsisLsp
  pdu : List Byte

/-- How a run of `send_csnp` ends. -/
inductive Ended where
  | returned (ret : IsisRet)
  /-- A null pointer is read, or a buffer overflows. -/
  | crashed
  | stuck
deriving DecidableEq

/-- The next byte string in `send_csnp`: the last byte below 0xff is increased. -/
def advance : List Byte→Option (List Byte)
  | [] => none
  | b::bs =>
    match advance bs with
    | some bs => some (b::bs)
    | none => if b.toNat<0xff then some ((b+1)::bs) else none

theorem length_advance {bs : List Byte} : ∀ {bs' : List Byte}, advance bs=some bs' →
    bs'.length=bs.length := by
  induction bs with
  | nil =>
    intro bs' h
    cases h
  | cons b bs ih =>
    intro bs' h
    rw [advance] at h
    cases hbs : advance bs with
    | some bs1 =>
      rw [hbs] at h
      cases h
      rw [length_cons,length_cons,ih hbs]
    | none =>
      rw [hbs] at h
      dsimp only at h
      split at h
      · cases h
        rfl
      · cases h

/-- Where the next CSNP starts, unless the range is used up. -/
def nextStart (stop : LspId) : Option LspId := (advance stop.bytes).pmap (fun bytes h => ⟨bytes,h⟩)
    fun _ h => (length_advance h).trans stop.length_eq

/-- `start` at the beginning. -/
def lowestId : LspId := ⟨List.replicate 8 0,rfl⟩

/-- `stop` at the beginning. -/
def highestId : LspId := ⟨List.replicate 8 0xff,rfl⟩

/-- The last id that a CSNP covers; none when the list has no last element. -/
def csnpStop (numLsps : Byte) (lsps : List IsisLsp) : Option LspId :=
  if lsps.length<numLsps.toNat then some highestId else lsps.getLast?.map IsisLsp.lspId

/-- The loop of `send_csnp`, with the CSNPs that were sent. -/
def sendLoop (hmacMd5 : List Byte→List Byte→List Byte) (sysid : Octets 6)
    (tx : ℕ→IsisRet) (level : IsisLevel) (circuit : IsisCircuit) (db : LspDb) :
    ℕ→ℕ→LspId→List Csnp × Ended
  | 0, _, _ => ([],.stuck)
  | fuel+1, sent, start =>
    let numLsps := (maxLspsPerSnp level circuit).setWidth 8
    let lsps := lspBuildList start highestId numLsps db
    match csnpStop numLsps lsps with
    | none => ([],.crashed)
    | some stop =>
      match buildCsnp hmacMd5 sysid level start stop lsps circuit with
      | none => ([],.crashed)
      | some (.error ret) => ([],.returned ret)
      | some (.ok pdu) =>
        if tx sent ≠ .isisOk then ([],.returned (tx sent))
        else
          match nextStart stop with
          | none => ([⟨start,stop,lsps,pdu⟩],.returned (tx sent))
          | some next =>
            let r := sendLoop hmacMd5 sysid tx level circuit db fuel (sent+1) next
            (⟨start,stop,lsps,pdu⟩::r.1,r.2)

/-- `send_csnp`, with the CSNPs that were sent. -/
def sendCsnp (hmacMd5 : List Byte→List Byte→List Byte) (sysid : Octets 6)
    (tx : ℕ→IsisRet) (level : IsisLevel) (circuit : IsisCircuit) (db : LspDb) :
    List Csnp × Ended :=
  if db.lsps=[] then ([],.returned .isisOk)
  else sendLoop hmacMd5 sysid tx level circuit db (db.lsps.length+1) 0 lowestId

/-- The headers of CSNPs and PSNPs. -/
inductive SnpHeader where
  | csnp (pduLen : Octets 2) (sourceId : Octets 7) (startLspId stopLspId : LspId)
  | psnp (pduLen : Octets 2) (sourceId : Octets 7)

def SnpHeader.pduLen : SnpHeader→Octets 2
  | .csnp pduLen _ _ _ => pduLen
  | .psnp pduLen _ => pduLen

def SnpHeader.sourceId : SnpHeader→Octets 7
  | .csnp _ sourceId _ _ => sourceId
  | .psnp _ sourceId => sourceId

/-- `ISIS_FIXED_HDR_LEN` and the length of the header. -/
def SnpHeader.length : SnpHeader→ℕ
  | .csnp _ _ _ _ => 8+25
  | .psnp _ _ => 8+9

structure Snp where
  header : SnpHeader
  endp : ℕ
  parsed : IsisRet
  authInfo : Option AuthInfo
  digest : List Byte→List Byte
  lspEntries : List LspEntry

/-- Whether `authentication_check` finds nothing. -/
def authenticationCheck (remote : AuthInfo) (own : IsisPasswd) (digest : List Byte→List Byte) :
    Bool :=
  if own.type≠remote.type then false
  else if own.type=0 then true
  else if own.type=passwdTypeCleartxt then
    if remote.len≠own.passwd.length then false
    else own.passwd=remote.passwd.take own.passwd.length
  else if own.type=passwdTypeHmacMd5 then
    if remote.len≠16 then false
    else (digest own.passwd).take 16=remote.passwd.take 16
  else false

def acceptLevel (level : IsisLevel) (circuitT : BitVec 32) : Prop :=
  circuitT &&& level.code=level.code

instance (level : IsisLevel) (circuitT : BitVec 32) : Decidable (acceptLevel level circuitT) :=
  inferInstanceAs (Decidable (_=_))

/-- Whether the adjacency that `process_snp` asks for is missing. -/
def noAdjacency (level : IsisLevel) (circuit : IsisCircuit) (sourceId : Octets 7) : Bool :=
  if circuit.broadcast then
    (circuit.adjdb level).all fun sysid => sysid.bytes≠sourceId.bytes.take 6
  else !circuit.neighbor

/-- Whether the authentication that `process_snp` asks for fails. -/
def authFails (passwd : IsisPasswd) (snp : Snp) : Bool :=
  if passwd.Receives ∧ passwd.type≠0 then
    match snp.authInfo with
    | none => true
    | some remote => !authenticationCheck remote passwd snp.digest
  else false

/-- What `process_snp` returns for a PDU that it does not accept. -/
def snpDiscarded (level : IsisLevel) (circuit : IsisCircuit) (snp : Snp) : Option IsisRet :=
  let pduLen := netValue snp.header.pduLen.bytes
  if pduLen<snp.header.length ∨ pduLen > circuit.isoMtu ∨ pduLen > snp.endp then
    some .isisWarning
  else if circuit.extDomain then some .isisOk
  else if ¬acceptLevel level circuit.isType then some .isisOk
  else if (match snp.header with
      | .csnp _ _ _ _ => false
      | .psnp _ _ => circuit.broadcast && !circuit.isDr level) then some .isisOk
  else if noAdjacency level circuit snp.header.sourceId then some .isisOk
  else if authFails (circuit.passwd level) snp then some .isisOk
  else none

def htonl (w : BitVec 32) : Octets 4 :=
  ⟨[(w >>> 24).setWidth 8,(w >>> 16).setWidth 8,(w >>> 8).setWidth 8,w.setWidth 8],rfl⟩

/-- `lsp_inc_seqnum`, with the checksum of the PDU with the new number. -/
def lspIncSeqnum (checksum : IsisLsp→Octets 2) (lsp : IsisLsp) (seqNum : ℕ) : IsisLsp :=
  let own := netValue lsp.header.seqNum.bytes
  let newseq := if seqNum=0 ∨ own > seqNum then own+1 else seqNum+1
  let lsp := {lsp with header := {lsp.header with seqNum := htonl (BitVec.ofNat 32 newseq)}}
  {lsp with header := {lsp.header with checksum := checksum lsp}}

/-- Whether an id begins with our system id. -/
def OwnId (sysid : Octets 6) (id : LspId) : Prop := id.bytes.take 6=sysid.bytes

instance (sysid : Octets 6) (id : LspId) : Decidable (OwnId sysid id) :=
  inferInstanceAs (Decidable (_=_))

/-- What `process_snp` does to an LSP that is listed. -/
def reportedLsp (checksum : IsisLsp→Octets 2) (sysid : Octets 6) (circuit : IsisCircuit)
    (entry : LspEntry) (lsp : IsisLsp) : IsisLsp :=
  match lspCompare lsp.header entry.seqNum entry.checksum entry.remLifetime with
  | .equal => {lsp with srmFlags := clearFlag lsp.srmFlags circuit}
  | .older => {lsp with
      ssnFlags := clearFlag lsp.ssnFlags circuit
      srmFlags := setFlag lsp.srmFlags circuit}
  | .newer =>
    if OwnId sysid entry.lspId then
      let lsp := lspIncSeqnum checksum lsp (netValue entry.seqNum.bytes)
      {lsp with srmFlags := setFlag lsp.srmFlags circuit}
    else {lsp with
      ssnFlags := setFlag lsp.ssnFlags circuit
      srmFlags := clearFlag lsp.srmFlags circuit}

theorem reportedLsp_lspId (checksum : IsisLsp→Octets 2) (sysid : Octets 6)
    (circuit : IsisCircuit) (entry : LspEntry) (lsp : IsisLsp) :
    (reportedLsp checksum sysid circuit entry lsp).lspId=lsp.lspId := by
  rw [reportedLsp]
  split
  · rfl
  · rfl
  split <;> rfl

/-- Whether an LSP that is listed and not found is inserted. -/
def Inserted (sysid : Octets 6) (entry : LspEntry) : Prop :=
  netValue entry.remLifetime.bytes≠0 ∧ netValue entry.checksum.bytes≠0 ∧
    netValue entry.seqNum.bytes≠0 ∧ ¬OwnId sysid entry.lspId

instance (sysid : Octets 6) (entry : LspEntry) : Decidable (Inserted sysid entry) :=
  inferInstanceAs (Decidable (_ ∧ _))

/-- `lsp_new` for an LSP that is listed, with `SSN` set. -/
def placeholder (circuit : IsisCircuit) (entry : LspEntry) : IsisLsp where
  header := {entry with seqNum := htonl 0}
  body := []
  srmFlags := 0
  ssnFlags := setFlag 0 circuit

/-- Change the LSP with an id. -/
def LspDb.modify (db : LspDb) (id : LspId) (f : IsisLsp→IsisLsp)
    (hf : ∀ lsp, (f lsp).lspId=lsp.lspId) : LspDb where
  lsps := db.lsps.map fun lsp => if lspIdCmp lsp.lspId id=.eq then f lsp else lsp
  sorted := by
    have hid : ∀ lsp : IsisLsp,
        (if lspIdCmp lsp.lspId id=.eq then f lsp else lsp).lspId=lsp.lspId := by
      intro lsp
      split
      · exact hf lsp
      · rfl
    rw [pairwise_map]
    refine db.sorted.imp fun {a b} hab => ?_
    rw [hid,hid]
    exact hab

/-- `lsp_insert` of an LSP whose id is not there. -/
def lspInsert (lsp : IsisLsp) (db : LspDb) : LspDb where
  lsps := (db.lsps.filter fun x => lspIdCmp x.lspId lsp.lspId=.lt) ++
    lsp::db.lsps.filter fun x => lspIdCmp lsp.lspId x.lspId=.lt
  sorted := by
    have hlow : ∀ x∈db.lsps.filter fun x => lspIdCmp x.lspId lsp.lspId=.lt,
        idValue x.lspId < idValue lsp.lspId := fun x hx =>
      lspIdCmp_eq_lt.mp (of_decide_eq_true (mem_filter.mp hx).2)
    have hhigh : ∀ x∈db.lsps.filter fun x => lspIdCmp lsp.lspId x.lspId=.lt,
        idValue lsp.lspId < idValue x.lspId := fun x hx =>
      lspIdCmp_eq_lt.mp (of_decide_eq_true (mem_filter.mp hx).2)
    rw [pairwise_append,pairwise_cons]
    refine ⟨db.sorted.filter _,⟨fun x hx => lspIdCmp_eq_lt.mpr (hhigh x hx),
      db.sorted.filter _⟩,fun x hx y hy => lspIdCmp_eq_lt.mpr ?_⟩
    rcases mem_cons.mp hy with rfl|hy
    · exact hlow x hx
    · exact (hlow x hx).trans (hhigh y hy)

/-- What `process_snp` does for an entry. -/
def processEntry (checksum : IsisLsp→Octets 2) (sysid : Octets 6) (circuit : IsisCircuit)
    (db : LspDb) (entry : LspEntry) : LspDb :=
  match lspSearch entry.lspId db with
  | some _ => db.modify entry.lspId (reportedLsp checksum sysid circuit entry)
      (reportedLsp_lspId checksum sysid circuit entry)
  | none => if Inserted sysid entry then lspInsert (placeholder circuit entry) db else db

/-- The loops that take what was listed off the list: the first LSP with the id goes. -/
def takeListed (lsps : List IsisLsp) (entries : List LspEntry) : List IsisLsp :=
  entries.foldl (fun lsps entry => lsps.eraseP fun lsp => lspIdCmp lsp.lspId entry.lspId=.eq) lsps

/-- Set `SRM` on an LSP. -/
def setSrm (circuit : IsisCircuit) (lsp : IsisLsp) : IsisLsp :=
  {lsp with srmFlags := setFlag lsp.srmFlags circuit}

/-- What `process_snp` leaves. -/
structure SnpResult where
  ret : IsisRet
  db : LspDb
  /-- The LSPs on which `SRM` was set because they were not listed. -/
  marked : List IsisLsp

def processSnp (checksum : IsisLsp→Octets 2) (sysid : Octets 6) (level : IsisLevel)
    (circuit : IsisCircuit) (snp : Snp) (db : LspDb) : SnpResult :=
  match snpDiscarded level circuit snp with
  | some ret => ⟨ret,db,[]⟩
  | none =>
    let db := snp.lspEntries.foldl (processEntry checksum sysid circuit) db
    match snp.header with
    | .psnp _ _ => ⟨snp.parsed,db,[]⟩
    | .csnp _ _ startLspId stopLspId =>
      let marked := takeListed (lspBuildListNonzeroHt startLspId stopLspId db) snp.lspEntries
      ⟨snp.parsed,
        marked.foldl (fun db lsp => db.modify lsp.lspId (setSrm circuit) fun _ => rfl) db,marked⟩

end RoutePlatform.SnpOperations
