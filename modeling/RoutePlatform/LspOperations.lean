import RoutePlatform.OrderedMaps
import RoutePlatform.SnpOperations

/-!
# The link state database of `isisd/isis_lsp.c`

LSPs are objects with addresses; the database of a level is an ordered map from ids to them. The
union `lspu` is a list of fragments or a pointer to the zero LSP. A null pointer, a destroyed LSP
or a failed assertion ends a run. Timers and the log are left out; what `lsp_build` puts into an
LSP is an argument, like the checksum.
-/

namespace RoutePlatform.LspOperations

open TlvOperations NetworkBytes SnpOperations OrderedMaps Function List

instance : LinearOrder LspId := LinearOrder.lift' idValue fun _ _ => idValue_inj

/-- The address of a `struct isis_lsp`. -/
abbrev Ref := ℕ

def lspFragment (id : LspId) : Byte := id.bytes.getD 7 0

/-- An id with another fragment number. -/
def withFragment (id : LspId) (fragment : Byte) : LspId where
  bytes := id.bytes.take 7++[fragment]
  length_eq := by
    rw [length_append,length_take,id.length_eq]
    rfl

/-- The id of the LSP with fragment number 0. -/
def zeroId (id : LspId) : LspId := withFragment id 0

/-- The union `lspu`. -/
inductive Lspu where
  | null
  | frags (refs : List Ref)
  | zeroLsp (ref : Ref)
deriving DecidableEq

/-- `struct isis_lsp`. -/
structure Lsp where
  /-- Remaining lifetime, id, sequence number and checksum in the header. -/
  header : LspEntry
  lspBits : Byte
  tlvs : List Byte
  lspu : Lspu
  srmFlags : Flags
  ssnFlags : Flags
  level : IsisLevel
  ownLsp : Bool
  ageOut : ℕ

def Lsp.lspId (lsp : Lsp) : LspId := lsp.header.lspId

/-- `adj_usage` of the neighbour on a point to point circuit. -/
inductive AdjUsage where
  | level1 | level2 | level1And2
deriving DecidableEq

structure QueueCircuit where
  circuit : IsisCircuit
  /-- `adj_usage` of its neighbour. -/
  adjUsage : AdjUsage
  upadjcount : IsisLevel→ℕ
  lspQueue : Option (List Ref)

/-- `struct isis_area`, with the objects. -/
structure Area where
  sysid : Octets 6
  heap : Ref→Option Lsp
  next : Ref
  lspdb : IsisLevel→Option (OrderedMap LspId Ref)
  isType : BitVec 32
  overloadBit : Byte
  maxLspLifetime : IsisLevel→ℕ
  circuits : List QueueCircuit

namespace Area

variable (a : Area)

/-- What is stored under an id. -/
def find (level : IsisLevel) (id : LspId) : Option Ref :=
  (a.lspdb level).bind fun db => db.lookup id

def set (p : Ref) (lsp : Lsp) : Area := {a with heap := update a.heap p (some lsp)}

def modify (p : Ref) (f : Lsp→Lsp) : Option Area := (a.heap p).map fun lsp => a.set p (f lsp)

def modifyAll (f : Lsp→Lsp) : List Ref→Area→Option Area
  | [], a => some a
  | p::ps, a => (a.modify p f).bind (modifyAll f ps)

def setDb (level : IsisLevel) (db : OrderedMap LspId Ref) : Area :=
  {a with lspdb := update a.lspdb level (some db)}

def alloc (lsp : Lsp) : Area := {a with heap := update a.heap a.next (some lsp),next := a.next+1}

end Area

def zeroAgeLifetime : ℕ := 60

def lspSetAllSrmflags (circuits : List QueueCircuit) (lsp : Lsp) : Lsp :=
  {lsp with srmFlags := circuits.foldl (fun flags c => setFlag flags c.circuit) 0}

def htons (w : BitVec 16) : Octets 2 := ⟨[(w >>> 8).setWidth 8,w.setWidth 8],rfl⟩

def lspNew (id : LspId) (remLifetime : Octets 2) (seqNum : Octets 4) (lspBits : Byte)
    (checksum : Octets 2) (level : IsisLevel) : Lsp where
  header := ⟨remLifetime,id,seqNum,checksum⟩
  lspBits := lspBits
  tlvs := []
  lspu := if lspFragment id=0 then .frags [] else .null
  srmFlags := 0
  ssnFlags := 0
  level := level
  ownLsp := false
  ageOut := zeroAgeLifetime

/-- `lsp_insert`: an id that is there already fails an assertion. -/
def lspInsert (level : IsisLevel) (id : LspId) (p : Ref) (a : Area) : Option Area :=
  match a.lspdb level with
  | none => none
  | some db =>
    match db.lookup id with
    | some _ => none
    | none => some (a.setDb level (db.insert id p))

/-- A circuit without an LSP in its queue. -/
def QueueCircuit.drop (p : Ref) (c : QueueCircuit) : QueueCircuit :=
  {c with lspQueue := c.lspQueue.map fun queue => queue.filter fun q => q≠p}

def lspDestroy (p : Ref) (a : Area) : Option Area :=
  match a.heap p with
  | none => none
  | some _ => some {a with
      heap := update a.heap p none
      circuits := a.circuits.map (QueueCircuit.drop p)}

def lspRemoveFrags (level : IsisLevel) : List Ref→Area→Option Area
  | [], a => some a
  | p::ps, a =>
    match a.heap p, a.lspdb level with
    | some lsp, some db =>
      match db.lookup lsp.lspId with
      | none => none
      | some _ =>
        (lspDestroy p a).bind fun a => lspRemoveFrags level ps (a.setDb level (db.erase lsp.lspId))
    | _, _ => none

def lspSearchAndDestroy (level : IsisLevel) (id : LspId) (a : Area) : Option Area :=
  match a.lspdb level with
  | none => none
  | some db =>
    match db.lookup id with
    | none => some a
    | some p =>
      let a := a.setDb level (db.erase id)
      match a.heap p with
      | none => none
      | some lsp =>
        if lspFragment lsp.lspId=0 then
          match lsp.lspu with
          | .frags refs => (lspRemoveFrags level refs a).bind (lspDestroy p)
          | _ => lspDestroy p a
        else
          match lsp.lspu with
          | .zeroLsp z =>
            match a.heap z with
            | none => none
            | some zero =>
              match zero.lspu with
              | .frags refs => lspDestroy p (a.set z {zero with lspu := .frags (refs.erase p)})
              | _ => lspDestroy p a
          | _ => lspDestroy p a

/-- A received link state PDU, with what the checks of `process_lsp` find. -/
structure ReceivedLsp where
  /-- Remaining lifetime, id, sequence number and checksum in the header. -/
  header : LspEntry
  lspBits : Byte
  pduLen : Octets 2
  tlvs : List Byte
  /-- The bytes that can be read from the stream. -/
  readable : ℕ
  endp : ℕ
  csumFails : Bool
  authFails : Bool
  /-- There is an adjacency with the address of the sender. -/
  snpaKnown : Bool

/-- What `process_lsp` returns for a PDU that it does not search. -/
def lspUnreadable (level : IsisLevel) (circuit : IsisCircuit) (r : ReceivedLsp) : Option IsisRet :=
  let pduLen := netValue r.pduLen.bytes
  if r.readable<19 then some .isisWarning
  else if pduLen<8+19 ∨ pduLen > circuit.isoMtu ∨ pduLen > r.endp then some .isisWarning
  else if r.csumFails then some .isisWarning
  else if circuit.extDomain then some .isisWarning
  else if ¬acceptLevel level circuit.isType then some .isisWarning
  else if r.authFails then some .isisWarning
  else none

/-- What `process_lsp` returns without an adjacency. -/
def noLspAdjacency (level : IsisLevel) (c : QueueCircuit) (r : ReceivedLsp) : Option IsisRet :=
  if c.circuit.broadcast then if r.snpaKnown then none else some .isisWarning
  else if !c.circuit.neighbor then some .isisOk
  else if level=.level1 ∧ c.adjUsage=.level2 ∨ level=.level2 ∧ c.adjUsage=.level1 then
    some .isisWarning
  else none

/-- `lsp_update`: the PDU holds the key, so the LSP is taken out and put back. -/
def lspUpdate (level : IsisLevel) (p : Ref) (r : ReceivedLsp) (a : Area) : Option Area :=
  match a.heap p, a.lspdb level with
  | some lsp, some db =>
    let db := match db.lookup lsp.lspId with
      | some _ => db.erase lsp.lspId
      | none => db
    let lsp := {lsp with
      header := r.header
      lspBits := r.lspBits
      tlvs := r.tlvs
      level := level
      ageOut := zeroAgeLifetime}
    lspInsert level r.header.lspId p ((a.setDb level db).set p lsp)
  | _, _ => none

/-- `lsp_new_from_stream_ptr`, with the address of the new LSP. -/
def lspNewFromStreamPtr (level : IsisLevel) (r : ReceivedLsp) (lsp0 : Option Ref) (a : Area) :
    Option (Ref × Area) :=
  let lsp : Lsp := ⟨r.header,r.lspBits,r.tlvs,.null,0,0,level,false,zeroAgeLifetime⟩
  match lsp0 with
  | none => some (a.next,a.alloc {lsp with lspu := .frags []})
  | some z =>
    match a.heap z with
    | none => none
    | some zero =>
      match zero.lspu with
      | .frags refs => some (a.next,(a.alloc {lsp with lspu := .zeroLsp z}).set z
          {zero with lspu := .frags (refs++[a.next])})
      | _ => none

/-- The level that `lsp_purge_non_exist` takes from the `lsp_bits`. -/
def purgeLevel (lspBits : Byte) : IsisLevel := if lspBits &&& 3#8=1 then .level1 else .level2

/-- `lsp_purge_non_exist`: the level is that of the received LSP. -/
def lspPurgeNonExist (header : LspEntry) (lspBits : Byte) (a : Area) : Option Area :=
  let level := purgeLevel lspBits
  let lsp : Lsp := ⟨{header with remLifetime := htons 0},lspBits,[],.null,0,0,level,false,0⟩
  lspInsert level header.lspId a.next (a.alloc (lspSetAllSrmflags a.circuits lsp))

def lspIncSeqnum (checksum : Lsp→Octets 2) (seqNum : ℕ) (lsp : Lsp) : Lsp :=
  let own := netValue lsp.header.seqNum.bytes
  let newseq := if seqNum=0 ∨ own > seqNum then own+1 else seqNum+1
  let lsp := {lsp with header := {lsp.header with seqNum := htonl (BitVec.ofNat 32 newseq)}}
  {lsp with header := {lsp.header with checksum := checksum lsp}}

/-- `SSN` on a circuit that is no broadcast circuit. -/
def setSsnUnlessBroadcast (c : IsisCircuit) (lsp : Lsp) : Lsp :=
  if c.broadcast then lsp else {lsp with ssnFlags := setFlag lsp.ssnFlags c}

/-- An LSP that was received is to be sent on all other circuits. -/
def floodOthers (circuits : List QueueCircuit) (c : IsisCircuit) (lsp : Lsp) : Lsp :=
  let lsp := lspSetAllSrmflags circuits lsp
  {lsp with srmFlags := clearFlag lsp.srmFlags c}

/-- An LSP that is newer than the received one is to be sent back. -/
def sendBack (c : IsisCircuit) (lsp : Lsp) : Lsp :=
  {lsp with srmFlags := setFlag lsp.srmFlags c,ssnFlags := clearFlag lsp.ssnFlags c}

/-- `process_lsp` for an LSP that is not in the database. -/
def processNewLsp (level : IsisLevel) (c : IsisCircuit) (r : ReceivedLsp) (a : Area) :
    Option Area :=
  let id := r.header.lspId
  if netValue r.header.remLifetime.bytes=0 then some a
  else if OwnId a.sysid id then lspPurgeNonExist r.header r.lspBits a
  else if lspFragment id≠0 ∧ a.find level (zeroId id)=none then some a
  else
    let lsp0 := if lspFragment id=0 then none else a.find level (zeroId id)
    (lspNewFromStreamPtr level r lsp0 a).bind fun created =>
      (lspInsert level id created.1 created.2).bind fun a =>
        a.modify created.1 fun lsp => setSsnUnlessBroadcast c (floodOthers a.circuits c lsp)

/-- `process_lsp` for an LSP in the database. -/
def processKnownLsp (checksum : Lsp→Octets 2) (level : IsisLevel) (c : IsisCircuit)
    (r : ReceivedLsp) (p : Ref) (lsp : Lsp) (a : Area) : Option Area :=
  let id := r.header.lspId
  let seqNum := netValue r.header.seqNum.bytes
  let comp := lspCompare lsp.header r.header.seqNum r.header.checksum r.header.remLifetime
  if netValue r.header.remLifetime.bytes=0 then
    if ¬OwnId a.sysid id then
      match comp with
      | .newer => (lspUpdate level p r a).bind fun a => a.modify p fun lsp =>
          setSsnUnlessBroadcast c {floodOthers a.circuits c lsp with ssnFlags := 0}
      | .equal => a.modify p fun lsp =>
          setSsnUnlessBroadcast c {lsp with srmFlags := clearFlag lsp.srmFlags c}
      | .older => a.modify p (sendBack c)
    else if netValue lsp.header.remLifetime.bytes≠0 then
      match comp with
      | .newer => a.modify p fun lsp =>
          lspSetAllSrmflags a.circuits (lspIncSeqnum checksum seqNum lsp)
      | _ => a.modify p (sendBack c)
    else some a
  else if OwnId a.sysid id then
    a.modify p fun lsp => lspSetAllSrmflags a.circuits
      (if seqNum > netValue lsp.header.seqNum.bytes then lspIncSeqnum checksum seqNum lsp else lsp)
  else
    match comp with
    | .newer =>
      if lspFragment id≠0 ∧ a.find level (zeroId id)=none then some a
      else (lspUpdate level p r a).bind fun a => a.modify p fun lsp =>
          setSsnUnlessBroadcast c (floodOthers a.circuits c lsp)
    | .equal => (a.modify p fun lsp => {lsp with srmFlags := clearFlag lsp.srmFlags c}).bind
        fun a => (lspUpdate level p r a).bind fun a => a.modify p (setSsnUnlessBroadcast c)
    | .older => a.modify p (sendBack c)

/-- Whether `process_lsp` goes on to the actions on an LSP. -/
def lspAccepted (level : IsisLevel) (c : QueueCircuit) (r : ReceivedLsp) (a : Area) : Bool :=
  (lspUnreadable level c.circuit r).isNone &&
    (((a.find level r.header.lspId).bind a.heap).any Lsp.ownLsp ||
      (noLspAdjacency level c r).isNone)

def processLsp (checksum : Lsp→Octets 2) (level : IsisLevel) (c : QueueCircuit)
    (r : ReceivedLsp) (a : Area) : Option Area :=
  match lspUnreadable level c.circuit r with
  | some _ => some a
  | none =>
    match a.lspdb level with
    | none => none
    | some db =>
      match db.lookup r.header.lspId with
      | none =>
        match noLspAdjacency level c r with
        | some _ => some a
        | none => processNewLsp level c.circuit r a
      | some p =>
        match a.heap p with
        | none => none
        | some lsp =>
          if !lsp.ownLsp && (noLspAdjacency level c r).isSome then some a
          else processKnownLsp checksum level c.circuit r p lsp a

/-- What an entry describes of an LSP, and the flags. -/
def Lsp.view (lsp : Lsp) : IsisLsp := ⟨lsp.header,lsp.tlvs,lsp.srmFlags,lsp.ssnFlags⟩

def Lsp.withView (lsp : Lsp) (view : IsisLsp) : Lsp :=
  {lsp with header := view.header,srmFlags := view.srmFlags,ssnFlags := view.ssnFlags}

/-- What `process_snp` does for an entry. -/
def processSnpEntry (checksum : IsisLsp→Octets 2) (level : IsisLevel) (c : IsisCircuit)
    (entry : LspEntry) (a : Area) : Option Area :=
  match a.lspdb level with
  | none => none
  | some db =>
    match db.lookup entry.lspId with
    | some p => a.modify p fun lsp => lsp.withView (reportedLsp checksum a.sysid c entry lsp.view)
    | none =>
      if Inserted a.sysid entry then
        let lsp := lspNew entry.lspId entry.remLifetime (htonl 0) 0 entry.checksum level
        lspInsert level entry.lspId a.next (a.alloc {lsp with ssnFlags := setFlag 0 c})
      else some a

def processSnpEntries (checksum : IsisLsp→Octets 2) (level : IsisLevel) (c : IsisCircuit) :
    List LspEntry→Area→Option Area
  | [], a => some a
  | entry::entries, a =>
    (processSnpEntry checksum level c entry a).bind (processSnpEntries checksum level c entries)

/-- The database with the contents of the LSPs; the key is the id in the header. -/
def viewDb (heap : Ref→Option Lsp) (db : OrderedMap LspId Ref) : LspDb where
  lsps := db.entries.map fun e =>
    match heap e.2 with
    | some lsp => {lsp.view with header := {lsp.header with lspId := e.1}}
    | none => ⟨⟨htons 0,e.1,htonl 0,htons 0⟩,[],0,0⟩
  sorted := by
    rw [pairwise_map]
    refine db.sorted.imp fun {e f} hlt => ?_
    have hid : ∀ e : LspId × Ref, IsisLsp.lspId (match heap e.2 with
        | some lsp => {lsp.view with header := {lsp.header with lspId := e.1}}
        | none => ⟨⟨htons 0,e.1,htonl 0,htons 0⟩,[],0,0⟩)=e.1 := by
      intro e
      split <;> rfl
    rw [hid,hid]
    exact lspIdCmp_eq_lt.mpr hlt

/-- Set `SRM` on the LSPs with some ids. -/
def markUnlisted (level : IsisLevel) (c : IsisCircuit) : List IsisLsp→Area→Option Area
  | [], a => some a
  | lsp::lsps, a =>
    match a.find level lsp.lspId with
    | none => none
    | some p =>
      (a.modify p fun lsp => {lsp with srmFlags := setFlag lsp.srmFlags c}).bind
        (markUnlisted level c lsps)

def processSnp (checksum : IsisLsp→Octets 2) (level : IsisLevel) (c : IsisCircuit) (snp : Snp)
    (a : Area) : Option Area :=
  match snpDiscarded level c snp with
  | some _ => some a
  | none =>
    (processSnpEntries checksum level c snp.lspEntries a).bind fun a =>
      match snp.header with
      | .psnp _ _ => some a
      | .csnp _ _ startLspId stopLspId =>
        match a.lspdb level with
        | none => none
        | some db =>
          if db.entries.all fun e => (a.heap e.2).isSome then
            markUnlisted level c (takeListed (lspBuildListNonzeroHt startLspId stopLspId
              (viewDb a.heap db)) snp.lspEntries) a
          else none

def ownLspId (sysid : Octets 6) : LspId where
  bytes := sysid.bytes++[0,0]
  length_eq := by
    rw [length_append,sysid.length_eq]
    rfl

/-- `lsp_next_frag`, with the address of the fragment. -/
def lspNextFrag (level : IsisLevel) (z : Ref) (fragNum : Byte) (a : Area) : Option (Ref × Area) :=
  match a.heap z, a.lspdb level with
  | some zero, some db =>
    let id := withFragment zero.lspId fragNum
    match db.lookup id with
    | some p => some (p,a)
    | none =>
      let lsp := lspNew id zero.header.remLifetime (htonl 0)
        ((if level=.level1 then 1 else 3) ||| a.overloadBit) (htons 0) level
      let p := a.next
      (lspInsert level id p (a.alloc {lsp with ownLsp := true,lspu := .zeroLsp z})).bind fun a =>
        match zero.lspu with
        | .frags refs => some (p,a.set z {zero with lspu := .frags (refs++[p])})
        | _ => none
  | _, _ => none

/-- The fragments of `lsp_build`: the next number is an `u_char`. -/
def buildFrags (level : IsisLevel) (z : Ref) : List (List Byte)→Ref→Area→Option Area
  | [], _, a => some a
  | tlvs::rest, p, a =>
    match a.heap p with
    | none => none
    | some lsp =>
      (lspNextFrag level z (lspFragment lsp.lspId+1) a).bind fun frag =>
        (frag.2.modify frag.1 fun lsp => {lsp with tlvs := tlvs}).bind
          (buildFrags level z rest frag.1)

def lspBuild (level : IsisLevel) (z : Ref) (tlvs : List Byte) (rest : List (List Byte))
    (a : Area) : Option Area :=
  (a.modify z fun lsp => {lsp with tlvs := tlvs}).bind (buildFrags level z rest z)

def Lsp.refs (lsp : Lsp) : List Ref :=
  match lsp.lspu with
  | .frags refs => refs
  | _ => []

def lspSeqnumUpdate (checksum : Lsp→Octets 2) (z : Ref) (a : Area) : Option Area :=
  (a.modify z (lspIncSeqnum checksum 0)).bind fun a =>
    match a.heap z with
    | none => none
    | some zero => Area.modifyAll (lspIncSeqnum checksum 0) zero.refs a

def lspGenerate (checksum : Lsp→Octets 2) (level : IsisLevel) (remLifetime : Octets 2)
    (tlvs : List Byte) (rest : List (List Byte)) (a : Area) : Option Area :=
  if ¬acceptLevel level a.isType then some a
  else
    let id := ownLspId a.sysid
    let lspBits := a.isType.setWidth 8 ||| a.overloadBit
    match a.lspdb level with
    | none => none
    | some db =>
      let old := (db.lookup id).bind a.heap
      let seqNum := match old with
        | some lsp => lsp.header.seqNum
        | none => htonl 0
      (lspSearchAndDestroy level id a).bind fun a =>
        let lsp := lspNew id remLifetime seqNum lspBits (htons 0) level
        let z := a.next
        (lspInsert level id z (a.alloc {lsp with ownLsp := true})).bind fun a =>
          (lspBuild level z tlvs rest a).bind fun a =>
            (lspSeqnumUpdate checksum z a).bind fun a => a.modify z (lspSetAllSrmflags a.circuits)

def lspRegenerate (checksum : Lsp→Octets 2) (level : IsisLevel) (remLifetime : Octets 2)
    (tlvs : List Byte) (rest : List (List Byte)) (a : Area) : Option Area :=
  if ¬acceptLevel level a.isType then some a
  else
    match a.lspdb level with
    | none => none
    | some db =>
      match db.lookup (ownLspId a.sysid) with
      | none => some a
      | some z =>
        let refresh : Lsp→Lsp := fun lsp => {lsp with
          lspBits := (if level=.level1 then 1 else 3) ||| a.overloadBit
          header := {lsp.header with remLifetime := remLifetime}}
        (lspBuild level z tlvs rest a).bind fun a =>
          (a.modify z refresh).bind fun a =>
            (lspSeqnumUpdate checksum z a).bind fun a =>
              (a.modify z (lspSetAllSrmflags a.circuits)).bind fun a =>
                match a.heap z with
                | none => none
                | some zero => Area.modifyAll
                    (fun lsp => lspSetAllSrmflags a.circuits (refresh lsp)) zero.refs a

/-- A sequence number after the `u_int16_t` of `lsp_purge_pseudo`: the bytes that the host has
lowest stay, which are the first two on a little endian one. -/
def cutSeqNum (bigEndian : Bool) (seqNum : Octets 4) : Octets 4 where
  bytes := if bigEndian then [0,0]++seqNum.bytes.drop 2 else seqNum.bytes.take 2++[0,0]
  length_eq := by cases bigEndian <;> simp [seqNum.length_eq]

def lspPurgePseudo (bigEndian : Bool) (checksum : Lsp→Octets 2) (level : IsisLevel) (id : LspId)
    (a : Area) : Option Area :=
  match a.lspdb level with
  | none => none
  | some db =>
    match db.lookup id with
    | none => some a
    | some p => a.modify p fun lsp =>
        let lsp := {lsp with
          tlvs := []
          header := {lsp.header with
            lspId := id,remLifetime := htons 0,seqNum := cutSeqNum bigEndian lsp.header.seqNum}
          level := level
          ageOut := a.maxLspLifetime level}
        lspSetAllSrmflags a.circuits {lsp with header := {lsp.header with checksum := checksum lsp}}

def lspSetTime (lsp : Lsp) : Lsp :=
  let remLifetime := netValue lsp.header.remLifetime.bytes
  if remLifetime=0 then {lsp with ageOut := lsp.ageOut-1}
  else {lsp with header := {lsp.header with
    remLifetime := htons (BitVec.ofNat 16 (remLifetime-1))}}

/-- What `lsp_tick` does to the contents of an LSP. -/
def tickLsp (circuits : List QueueCircuit) (lsp : Lsp) : Lsp :=
  let aged := lspSetTime lsp
  if netValue lsp.header.remLifetime.bytes=1 ∧ netValue aged.header.seqNum.bytes≠0 then
    lspSetAllSrmflags circuits aged
  else aged

/-- The loop of `lsp_tick` over the LSPs of a level, with the LSPs that are to be sent. -/
def tickLoop (level : IsisLevel) : List (LspId × Ref)→List Ref→Area→Option (List Ref × Area)
  | [], lspList, a => some (lspList,a)
  | e::es, lspList, a =>
    match a.heap e.2, a.lspdb level with
    | some lsp, some db =>
      let lsp := tickLsp a.circuits lsp
      if lsp.ageOut=0 then
        (lspDestroy e.2 (a.set e.2 lsp)).bind fun a =>
          tickLoop level es lspList (a.setDb level (db.erase e.1))
      else tickLoop level es (if lsp.srmFlags≠0 then lspList++[e.2] else lspList) (a.set e.2 lsp)
    | _, _ => none

/-- Whether an LSP is to be sent on a circuit. -/
def toSend (heap : Ref→Option Lsp) (c : QueueCircuit) (p : Ref) : Bool :=
  (heap p).any fun lsp => c.upadjcount lsp.level≠0 && checkFlag lsp.srmFlags c.circuit

/-- A queue with the LSPs that are to be sent. -/
def addToSend (heap : Ref→Option Lsp) (c : QueueCircuit) (lspList queue : List Ref) : List Ref :=
  lspList.foldl (fun queue p => if toSend heap c p ∧ p ∉ queue then queue++[p] else queue) queue

/-- The queue of a circuit after the timer. -/
def enqueue (heap : Ref→Option Lsp) (lspList : List Ref) (ready : IsisCircuit→Bool)
    (c : QueueCircuit) : QueueCircuit :=
  if ready c.circuit then
    {c with lspQueue := c.lspQueue.map (addToSend heap c lspList)}
  else c

/-- `lsp_tick` for a level. -/
def tickLevel (ready : IsisCircuit→Bool) (level : IsisLevel) (a : Area) : Option Area :=
  match a.lspdb level with
  | none => some a
  | some db =>
    (tickLoop level db.entries [] a).map fun r =>
      {r.2 with circuits := r.2.circuits.map (enqueue r.2.heap r.1 ready)}

def lspTick (ready : IsisCircuit→Bool) (a : Area) : Option Area :=
  (tickLevel ready .level1 a).bind (tickLevel ready .level2)

end RoutePlatform.LspOperations
