import RoutePlatform.StreamOperations

/-!
# Type, length and value fields of `isisd/isis_tlv.c`

The lists of `struct tlvs` hold pointers into the packet, here offsets. A read behind the end of
the packet ends the run. The functions `tlv_add_...` collect elements in a buffer of 255 bytes and
write it to the stream when the next element may not fit; a run that stores more answers nothing.
-/

namespace RoutePlatform.TlvOperations

open StreamOperations

/-- `u_char`. -/
abbrev Byte := BitVec 8

/-- The results `ISIS_OK` and `ISIS_WARNING`. -/
inductive IsisRet where
  | isisOk | isisWarning
deriving DecidableEq, Repr

/-- The lists of `struct tlvs`. -/
inductive TlvList where
  | areaAddrs | isNeighs | teIsNeighs | esNeighs | lanNeighs | lspEntries | ipv4Addrs
  | ipv4IntReachs | ipv4ExtReachs | teIpv4Reachs | ipv6Addrs | ipv6Reachs
deriving DecidableEq, Repr

/-- `TLVFLAG_AREA_ADDRS` and so on. -/
def TlvList.flag : TlvList→BitVec 32
  | .areaAddrs => 1 <<< 0
  | .isNeighs => 1 <<< 1
  | .teIsNeighs => 1 <<< 16
  | .esNeighs => 1 <<< 2
  | .lanNeighs => 1 <<< 5
  | .lspEntries => 1 <<< 6
  | .ipv4Addrs => 1 <<< 12
  | .ipv4IntReachs => 1 <<< 9
  | .ipv4ExtReachs => 1 <<< 11
  | .teIpv4Reachs => 1 <<< 17
  | .ipv6Addrs => 1 <<< 14
  | .ipv6Reachs => 1 <<< 15

/-- The cases of the switch in `parse_tlvs`. -/
inductive TlvType where
  | list (list : TlvList)
  | padding | authInfo | checksum | protocolsSupported | dynamicHostname | teRouterId
  | way3Hello | gracefulRestart
  | other
deriving DecidableEq, Repr

def TlvType.ofCode (type : Byte) : TlvType :=
  match type.toNat with
  | 1 => .list .areaAddrs
  | 2 => .list .isNeighs
  | 3 => .list .esNeighs
  | 6 => .list .lanNeighs
  | 8 => .padding
  | 9 => .list .lspEntries
  | 10 => .authInfo
  | 12 => .checksum
  | 22 => .list .teIsNeighs
  | 128 => .list .ipv4IntReachs
  | 129 => .protocolsSupported
  | 130 => .list .ipv4ExtReachs
  | 132 => .list .ipv4Addrs
  | 134 => .teRouterId
  | 135 => .list .teIpv4Reachs
  | 137 => .dynamicHostname
  | 211 => .gracefulRestart
  | 232 => .list .ipv6Addrs
  | 236 => .list .ipv6Reachs
  | 240 => .way3Hello
  | _ => .other

/-- The flag of a type that is set in `found`. -/
def TlvType.flag : TlvType→BitVec 32
  | .list l => l.flag
  | .padding => 0
  | .authInfo => 1 <<< 8
  | .checksum => 1 <<< 20
  | .protocolsSupported => 1 <<< 10
  | .dynamicHostname => 1 <<< 13
  | .teRouterId => 1 <<< 19
  | .way3Hello => 1 <<< 18
  | .gracefulRestart => 1 <<< 21
  | .other => 0

def Expected (expected : BitVec 32) (type : TlvType) : Prop := expected &&& type.flag≠0

instance (expected : BitVec 32) (type : TlvType) : Decidable (Expected expected type) :=
  inferInstanceAs (Decidable (_≠_))

/-- Why a run of the model ends without a result. -/
inductive Fault where
  | outside
  | stuck
deriving DecidableEq, Repr

def byteAt (bytes : List Byte) (p : ℕ) : Except Fault Byte :=
  match bytes[p]? with
  | some b => .ok b
  | none => .error .outside

/-- An element in a list of `struct tlvs`. -/
structure Listed where
  list : TlvList
  /-- Where the value of the field begins that it was found in. -/
  tlv : ℕ
  length : ℕ
  start : ℕ
  stop : ℕ
deriving DecidableEq, Repr

/-- `struct isis_passwd`. -/
structure AuthInfo where
  type : Byte
  len : ℕ
  passwd : List Byte
deriving DecidableEq, Repr

/-- What `parse_tlvs` has found so far. -/
structure ParseState where
  pnt : ℕ
  retval : IsisRet
  found : BitVec 32
  listed : List Listed
  checksum : Option ℕ
  hostname : Option ℕ
  nlpids : Option ℕ
  routerId : Option ℕ
  authInfo : Option AuthInfo
  /-- `auth_tlv_offset`, which the caller may leave out. -/
  authTlvOffset : Option (BitVec 32)
  /-- The positions that were read as a header, with the declared lengths. -/
  headers : List (ℕ × ℕ)
deriving DecidableEq, Repr

def ipv4MaxBitlen : ℕ := 32

def ipv6MaxBitlen : ℕ := 128

/-- The bytes of a prefix in an extended IPv4 reachability. -/
def prefixSize (control : Byte) : ℕ :=
  let length := (control &&& 0x3F#8).toNat
  if length=0 then 0 else (length-1)/8+1

/-- By how much the parser goes on at an element; none for an invalid prefix length. -/
def elementSize (bytes : List Byte) (list : TlvList) (p : ℕ) : Except Fault (Option ℕ) :=
  match list with
  | .areaAddrs => do
    let addrLen ← byteAt bytes p
    .ok (some (addrLen.toNat+1))
  | .isNeighs => .ok (some 11)
  | .teIsNeighs => do
    let subTlvsLength ← byteAt bytes (p+10)
    .ok (some (11+subTlvsLength.toNat))
  | .esNeighs => .ok (some 6)
  | .lanNeighs => .ok (some 6)
  | .lspEntries => .ok (some 16)
  | .ipv4Addrs => .ok (some 4)
  | .ipv4IntReachs => .ok (some 12)
  | .ipv4ExtReachs => .ok (some 12)
  | .teIpv4Reachs => do
    let control ← byteAt bytes (p+4)
    if (control &&& 0x3F#8).toNat > ipv4MaxBitlen then .ok none
    else .ok (some (5+prefixSize control))
  | .ipv6Addrs => .ok (some 16)
  | .ipv6Reachs => do
    let prefixLen ← byteAt bytes (p+5)
    if prefixLen.toNat > ipv6MaxBitlen then .ok none
    else .ok (some ((prefixLen.toNat+7)/8+6))

/-- What a loop over elements leaves. -/
structure LoopResult where
  elements : List (ℕ × ℕ)
  pnt : ℕ
  warned : Bool
deriving DecidableEq, Repr

/-- The loop over the elements of a field, `while (length > value_len)`. -/
def elementLoop (bytes : List Byte) (list : TlvList) (length : ℕ) : ℕ→ℕ→ℕ→Except Fault LoopResult
  | 0, _, _ => .error .stuck
  | fuel+1, pnt, valueLen =>
    if length > valueLen then do
      let size ← elementSize bytes list pnt
      match size with
      | none => .ok ⟨[],pnt,true⟩
      | some size =>
        let r ← elementLoop bytes list length fuel (pnt+size) (valueLen+size)
        .ok {r with elements := (pnt,pnt+size)::r.elements}
    else .ok ⟨[],pnt,false⟩

/-- The body of a case with elements, which differ in the end of a field. -/
def listElements (bytes : List Byte) (list : TlvList) (pnt length : ℕ) : Except Fault LoopResult :=
  match list with
  | .isNeighs => do
    let _virtual ← byteAt bytes pnt
    elementLoop bytes .isNeighs length (length+1) (pnt+1) 1
  | .esNeighs => do
    let r ← elementLoop bytes .esNeighs length (length+1) (pnt+4) 4
    .ok ⟨[(pnt,r.pnt)],r.pnt,false⟩
  | .teIpv4Reachs => do
    let r ← elementLoop bytes .teIpv4Reachs length (length+1) pnt 0
    .ok {r with pnt := pnt+length}
  | .ipv6Reachs => do
    let r ← elementLoop bytes .ipv6Reachs length (length+1) pnt 0
    .ok {r with pnt := pnt+length}
  | list => elementLoop bytes list length (length+1) pnt 0

def listTlv (bytes : List Byte) (expected : BitVec 32) (list : TlvList) (length : ℕ)
    (st : ParseState) : Except Fault ParseState :=
  if Expected expected (.list list) then do
    let r ← listElements bytes list st.pnt length
    .ok {st with
      pnt := r.pnt
      retval := if r.warned then .isisWarning else st.retval
      listed := st.listed++r.elements.map fun e => ⟨list,st.pnt,length,e.1,e.2⟩}
  else .ok {st with pnt := st.pnt+length}

/-- The case `AUTH_INFO`: without a type the parser returns. -/
def authTlv (bytes : List Byte) (expected : BitVec 32) (length : ℕ) (st : ParseState) :
    Except Fault (ParseState × Bool) :=
  if Expected expected .authInfo then do
    let type ← byteAt bytes st.pnt
    if length=0 then .ok ({st with retval := .isisWarning},false)
    else .ok ({st with
      pnt := st.pnt+length
      authInfo := some ⟨type,length-1,(bytes.drop (st.pnt+1)).take (length-1)⟩
      authTlvOffset := st.authTlvOffset.map fun o => o+BitVec.ofNat 32 (st.pnt+1-3)},true)
  else .ok ({st with pnt := st.pnt+length},true)

/-- The switch of `parse_tlvs`, and whether the loop goes on. -/
def tlvSwitch (bytes : List Byte) (expected : BitVec 32) (type : TlvType) (length : ℕ)
    (st : ParseState) : Except Fault (ParseState × Bool) :=
  let st := {st with found := st.found ||| type.flag}
  let pnt := st.pnt+length
  match type with
  | .list list => do
    let st ← listTlv bytes expected list length st
    .ok (st,true)
  | .authInfo => authTlv bytes expected length st
  | .checksum =>
    .ok ({st with
      pnt := pnt
      checksum := if Expected expected .checksum then some st.pnt else st.checksum},true)
  | .protocolsSupported =>
    .ok ({st with
      pnt := pnt
      nlpids := if Expected expected .protocolsSupported then some (st.pnt-1)
        else st.nlpids},true)
  | .dynamicHostname =>
    .ok ({st with
      pnt := pnt
      hostname := if Expected expected .dynamicHostname then some (st.pnt-1)
        else st.hostname},true)
  | .teRouterId =>
    .ok ({st with
      pnt := pnt
      routerId := if Expected expected .teRouterId then some st.pnt else st.routerId},true)
  | .padding | .way3Hello | .gracefulRestart | .other => .ok ({st with pnt := pnt},true)

/-- One round of the loop of `parse_tlvs`. -/
def parseStep (bytes : List Byte) (expected : BitVec 32) (st : ParseState) :
    Except Fault (ParseState × Bool) := do
  let type ← byteAt bytes st.pnt
  let length ← byteAt bytes (st.pnt+1)
  let st := {st with
    pnt := st.pnt+2
    headers := st.headers++[(st.pnt,length.toNat)]}
  if st.pnt+length.toNat > bytes.length then .ok ({st with retval := .isisWarning},false)
  else tlvSwitch bytes expected (TlvType.ofCode type) length.toNat st

/-- The loop of `parse_tlvs`. -/
def parseLoop (bytes : List Byte) (expected : BitVec 32) : ℕ→ParseState→Except Fault ParseState
  | 0, _ => .error .stuck
  | fuel+1, st =>
    if st.pnt+2<bytes.length then do
      let r ← parseStep bytes expected st
      if r.2 then parseLoop bytes expected fuel r.1 else .ok r.1
    else .ok st

def startState (authTlvOffset : Option (BitVec 32)) : ParseState :=
  ⟨0,.isisOk,0,[],none,none,none,none,none,authTlvOffset,[]⟩

def parseTlvs (bytes : List Byte) (expected : BitVec 32) (authTlvOffset : Option (BitVec 32)) :
    Except Fault ParseState :=
  parseLoop bytes expected (bytes.length+1) (startState authTlvOffset)

/-- `add_tlv`, with the length of the value as an `u_char`. -/
def addTlv (tag : Byte) (value : List Byte) (s : Stream) : IsisRet × Stream :=
  let len := BitVec.ofNat 8 value.length
  match s.put (tag::len::value.take len.toNat) with
  | some s => (.isisOk,s)
  | none => (.isisWarning,s)

/-- The functions `tlv_add_...`: `need` is the room tested, `put` what is stored. -/
def addLoop {α : Type} (tag : Byte) (need : α→ℕ) (put : α→List Byte) :
    List α→List Byte→Stream→Option (IsisRet × Stream)
  | [], value, s => some (addTlv tag value s)
  | e::es, value, s =>
    let full : Bool := value.length+need e > 255
    let r := if full then addTlv tag value s else (.isisOk,s)
    if r.1 ≠ .isisOk then some r
    else
      let stored := (if full then [] else value)++put e
      if stored.length > 255 then none else addLoop tag need put es stored r.2

structure Octets (n : ℕ) where
  bytes : List Byte
  length_eq : bytes.length=n

structure AreaAddr where
  areaAddr : List Byte
  /-- `addr_len` is at most the size of the array. -/
  fits : areaAddr.length≤20

structure Metric where
  metricDefault : Byte
  metricDelay : Byte
  metricExpense : Byte
  metricError : Byte

/-- The bytes of `struct metric`. -/
def Metric.bytes (m : Metric) : List Byte :=
  [m.metricDefault,m.metricDelay,m.metricExpense,m.metricError]

structure IsNeigh where
  metrics : Metric
  neighId : Octets 7

structure TeIsNeigh where
  neighId : Octets 7
  teMetric : Octets 3
  subTlvsLength : Byte

/-- The fields of an LSP header that an entry holds, in network order. -/
structure LspEntry where
  remLifetime : Octets 2
  lspId : Octets 8
  seqNum : Octets 4
  checksum : Octets 2

structure Ipv4Reachability where
  metrics : Metric
  addr : Octets 4
  mask : Octets 4

/-- `struct te_ipv4_reachability`, with the bytes of the prefix that count. -/
structure TeIpv4Reachability where
  teMetric : Octets 4
  control : Byte
  valid : (control &&& 0x3F#8).toNat ≤ ipv4MaxBitlen
  /-- The bytes from `prefix_start` on. -/
  prefixStart : Octets (prefixSize control)

/-- `struct ipv6_reachability`, with the bytes of the prefix that count. -/
structure Ipv6Reachability where
  metric : Octets 4
  controlInfo : Byte
  prefixLen : Byte
  valid : prefixLen.toNat ≤ ipv6MaxBitlen
  /-- The bytes of the prefix. -/
  addr : Octets ((prefixLen.toNat+7)/8)

/-- What is stored for an area address. -/
def AreaAddr.put (e : AreaAddr) : List Byte := BitVec.ofNat 8 e.areaAddr.length::e.areaAddr

/-- What is stored for a neighbour. -/
def IsNeigh.put (e : IsNeigh) : List Byte := e.metrics.bytes++e.neighId.bytes

/-- The bytes of `struct te_is_neigh`. -/
def TeIsNeigh.wire (e : TeIsNeigh) : List Byte :=
  e.neighId.bytes++e.teMetric.bytes++[e.subTlvsLength]

/-- What is stored for an extended neighbour: the length of the sub fields is zero. -/
def TeIsNeigh.put (e : TeIsNeigh) : List Byte := e.neighId.bytes++e.teMetric.bytes++[0]

/-- What is stored for an LSP entry. -/
def LspEntry.put (e : LspEntry) : List Byte :=
  e.remLifetime.bytes++e.lspId.bytes++e.seqNum.bytes++e.checksum.bytes

/-- What is stored for a reachability. -/
def Ipv4Reachability.put (e : Ipv4Reachability) : List Byte :=
  e.metrics.bytes++e.addr.bytes++e.mask.bytes

/-- What is stored for an extended reachability. -/
def TeIpv4Reachability.put (e : TeIpv4Reachability) : List Byte :=
  e.teMetric.bytes++[e.control]++e.prefixStart.bytes

/-- What is stored for an IPv6 reachability. -/
def Ipv6Reachability.put (e : Ipv6Reachability) : List Byte :=
  e.metric.bytes++[e.controlInfo,e.prefixLen]++e.addr.bytes

/-- The loop of `tlv_add_area_addrs` tests without the byte of the length. -/
def areaLoop : List AreaAddr→List Byte→Option (Except IsisRet (List Byte))
  | [], value => some (.ok value)
  | e::es, value =>
    if value.length+e.areaAddr.length > 255 then some (.error .isisWarning)
    else if (value++e.put).length > 255 then none
    else areaLoop es (value++e.put)

def tlvAddAreaAddrs (areaAddrs : List AreaAddr) (s : Stream) : Option (IsisRet × Stream) :=
  (areaLoop areaAddrs []).map fun r =>
    match r with
    | .ok value => addTlv 1 value s
    | .error ret => (ret,s)

/-- `tlv_add_is_neighs`: only the first field gets the virtual flag. -/
def tlvAddIsNeighs (isNeighs : List IsNeigh) (s : Stream) : Option (IsisRet × Stream) :=
  addLoop 2 (fun _ => 11) IsNeigh.put isNeighs [0] s

def tlvAddTeIsNeighs (teIsNeighs : List TeIsNeigh) (s : Stream) : Option (IsisRet × Stream) :=
  addLoop 22 (fun _ => 11) TeIsNeigh.put teIsNeighs [] s

def tlvAddLanNeighs (lanNeighs : List (Octets 6)) (s : Stream) : Option (IsisRet × Stream) :=
  addLoop 6 (fun _ => 6) Octets.bytes lanNeighs [] s

def tlvAddLspEntries (lsps : List LspEntry) (s : Stream) : Option (IsisRet × Stream) :=
  addLoop 9 (fun _ => 16) LspEntry.put lsps [] s

def tlvAddIpv4Reachs (ipv4Reachs : List Ipv4Reachability) (s : Stream) :
    Option (IsisRet × Stream) :=
  addLoop 128 (fun _ => 12) Ipv4Reachability.put ipv4Reachs [] s

def tlvAddTeIpv4Reachs (teIpv4Reachs : List TeIpv4Reachability) (s : Stream) :
    Option (IsisRet × Stream) :=
  addLoop 135 (fun e => 5+prefixSize e.control) TeIpv4Reachability.put teIpv4Reachs [] s

def tlvAddIpv6Reachs (ipv6Reachs : List Ipv6Reachability) (s : Stream) :
    Option (IsisRet × Stream) :=
  addLoop 236 (fun _ => 22) Ipv6Reachability.put ipv6Reachs [] s

end RoutePlatform.TlvOperations
