import RoutePlatform.LsaOperations
import RoutePlatform.OperationRuns
import RoutePlatform.ObjectLocks

/-!
# Shared instances of link state advertisements

A database, the retransmission lists of neighbours, the MaxAge table, the refresh queue and
further places hold a lock each of an instance. These are the parts of `ospfd/ospf_lsa.c`,
`ospfd/ospf_lsdb.c`, `ospfd/ospf_flood.c` and `ospfd/ospf_ase.c` that enter instances into these
places and take them out. Bodies of LSAs, route calculations, packets and debug output are left
out.
-/

namespace RoutePlatform.LsaHeap

open LsaOperations ObjectLocks

def ospfMaxSequenceNumber : BitVec 32 := 0x7fffffff

def ospfLsaHeaderSize : ℕ := 20

inductive NbrState where
  | dependUpon | deleted | down | attempt | init | twoWay | exStart | exchange | loading | full
  deriving DecidableEq, Repr

/-- The databases: `lsdb` of an area and `lsdb` of `struct ospf`. -/
inductive Base where
  | as
  | area (a : ℕ)
  deriving DecidableEq, Repr

/-- The places that lock an instance. -/
inductive Holder where
  /-- The lock of `ospf_lsa_new`. -/
  | created (p : ℕ)
  | lsdb (b : Base) (k : ℕ)
  /-- An entry of `ls_rxmt` of a neighbour. -/
  | lsRxmt (n k : ℕ)
  /-- `ls_req_last` of a neighbour. -/
  | lsReqLast (n : ℕ)
  /-- The node of the table `maxage_lsa` for an address. -/
  | maxageLsa (p : ℕ)
  /-- The instance at an address in `lsa_refresh_queue`. -/
  | refreshQueue (p : ℕ)
  /-- The instance at an address in `lsa_to_refresh` of the refresh walker. -/
  | toRefresh (p : ℕ)
  /-- The instance at an address in `external_lsas`. -/
  | externalLsas (p : ℕ)
  /-- `router_lsa_self` of an area. -/
  | routerLsaSelf (a : ℕ)
  /-- `network_lsa_self` of an interface. -/
  | networkLsaSelf (oi : ℕ)
  /-- `lsa` of the control information of an opaque LSA. -/
  | opaqueInfo (i : ℕ)
  | translated (p : ℕ)
  /-- An entry of an update queue, of a list of acknowledgements or of a
  scheduled action. -/
  | queued (x : ℕ)
  deriving DecidableEq, Repr

/-- `struct ospf_lsa`. -/
structure Lsa extends OspfLsa where
  self : Bool
  selfChecked : Bool
  received : Bool
  localXlt : Bool
  prematureAge : Bool
  inMaxage : Bool
  /-- `refresh_list` is not negative. -/
  refreshing : Bool
  retransmitCounter : ℤ
  area : Option ℕ
  lsdb : Option Base
  deriving DecidableEq

/-- The key of an instance in a database. -/
def Lsa.key (o : Lsa) : ℕ := o.data.key

/-- `struct ospf` with its instances and neighbours. -/
structure World where
  heap : Heap Holder ℕ Lsa
  nbrs : List ℕ
  nbrArea : ℕ→ℕ
  /-- `ospf_if_is_enable` of the interface of a neighbour. -/
  ifIsEnable : ℕ→Bool
  /-- `state` of a neighbour. -/
  nbrState : ℕ→NbrState
  now : ℕ
  /-- The headers that `ospf_lsa_is_self_originated` takes for own ones. -/
  own : LsaHeader→Bool

def World.place (w : World) (x : Holder) : Option ℕ := w.heap.place x

/-- The instance at an address, if it has not been released. -/
def World.read (w : World) (p : ℕ) : Option Lsa := w.heap.read p

def World.get (w : World) (p : ℕ) : Except Fault Lsa :=
  match w.read p with
  | none => .error .released
  | some o => .ok o

def World.via (w : World) (r : Except Fault (Heap Holder ℕ Lsa)) : Except Fault World :=
  r.map fun heap => {w with heap}

def modifyLsa (p : ℕ) (f : Lsa→Lsa) (w : World) : Except Fault World := w.via (w.heap.modify p f)

/-- `ospf_lsa_lock`, for a place. -/
def ospfLsaLock (x : Holder) (p : ℕ) (w : World) : Except Fault World := w.via (w.heap.lock x p)

/-- The checks when the last lock is given back. -/
def mayFree (o : Lsa) : Bool := o.discard && !o.refreshing

/-- `ospf_lsa_unlock`, for a place. -/
def ospfLsaUnlock (x : Holder) (w : World) : Except Fault World := w.via (w.heap.unlock mayFree x)

/-- `ospf_lsa_new` with its callers' stores, at an unused address. -/
def ospfLsaNew (p : ℕ) (o : Lsa) (w : World) : Except Fault World :=
  if (w.read p).isSome then .error .misused
  else .ok {w with heap := w.heap.alloc (.created p) p o}

def ospfLsaDiscard (p : ℕ) (w : World) : Except Fault World := do
  let o ← w.get p
  if o.discard then return w
  let w ← modifyLsa p (fun o => {o with discard := true}) w
  ospfLsaUnlock (.created p) w

/-- `ospf_lsdb_add`; a database is given by its entries. -/
def ospfLsdbAdd (lsdb : ℕ→Holder) (p : ℕ) (w : World) : Except Fault World := do
  let o ← w.get p
  match w.place (lsdb o.key) with
  | none => ospfLsaLock (lsdb o.key) p w
  | some old =>
    if old=p then return w
    let w ← ospfLsaUnlock (lsdb o.key) w
    ospfLsaLock (lsdb o.key) p w

/-- `ospf_lsdb_delete`: only this instance is deleted. -/
def ospfLsdbDelete (lsdb : ℕ→Holder) (p : ℕ) (w : World) : Except Fault World := do
  let o ← w.get p
  if w.place (lsdb o.key)=some p then ospfLsaUnlock (lsdb o.key) w else return w

def ospfLsRetransmitAdd (n p : ℕ) (w : World) : Except Fault World := do
  let o ← w.get p
  match w.place (.lsRxmt n o.key) with
  | none =>
    let w ← modifyLsa p (fun o => {o with retransmitCounter := o.retransmitCounter+1}) w
    ospfLsdbAdd (.lsRxmt n) p w
  | some old =>
    let oldLsa ← w.get old
    if ospfLsaMoreRecent w.now (some oldLsa.toOspfLsa) (some o.toOspfLsa)<0 then do
      let w ← modifyLsa old (fun o => {o with retransmitCounter := o.retransmitCounter-1}) w
      let w ← ospfLsdbDelete (.lsRxmt n) old w
      let w ← modifyLsa p (fun o => {o with retransmitCounter := o.retransmitCounter+1}) w
      ospfLsdbAdd (.lsRxmt n) p w
    else return w

def ospfLsRetransmitDelete (n p : ℕ) (w : World) : Except Fault World := do
  let o ← w.get p
  match w.place (.lsRxmt n o.key) with
  | none => return w
  | some _ =>
    let w ← modifyLsa p (fun o => {o with retransmitCounter := o.retransmitCounter-1}) w
    ospfLsdbDelete (.lsRxmt n) p w

/-- A turn of the loops of `ospf_ls_retransmit_clear`, at the node of a key. -/
def clearTurn (n : ℕ) (w : World) (k : ℕ) : Except Fault World :=
  match w.place (.lsRxmt n k) with
  | none => .ok w
  | some p => ospfLsRetransmitDelete n p w

/-- `ospf_ls_retransmit_clear`; the argument is the walk over the nodes. -/
def ospfLsRetransmitClear (n : ℕ) (walk : List ℕ) (w : World) : Except Fault World := do
  let w ← walk.foldlM (clearTurn n) w
  ospfLsaUnlock (.lsReqLast n) w

/-- A turn of the loop of `ospf_ls_retransmit_delete_nbr_if`, at a neighbour. -/
def deleteNbrTurn (p : ℕ) (w : World) (n : ℕ) : Except Fault World := do
  let o ← w.get p
  match w.place (.lsRxmt n o.key) with
  | none => return w
  | some lsr =>
    let l ← w.get lsr
    if l.data.lsSeqnum=o.data.lsSeqnum then ospfLsRetransmitDelete n lsr w else return w

def ospfLsRetransmitDeleteNbrArea (a p : ℕ) (w : World) : Except Fault World :=
  (w.nbrs.filter fun n => w.nbrArea n=a && w.ifIsEnable n).foldlM (deleteNbrTurn p) w

def ospfLsRetransmitDeleteNbrAs (p : ℕ) (w : World) : Except Fault World :=
  (w.nbrs.filter w.ifIsEnable).foldlM (deleteNbrTurn p) w

def ospfRefresherRegisterLsa (p : ℕ) (w : World) : Except Fault World := do
  let o ← w.get p
  if !o.self then throw .aborted
  if o.refreshing then return w
  let w ← ospfLsaLock (.refreshQueue p) p w
  modifyLsa p (fun o => {o with refreshing := true}) w

def ospfRefresherUnregisterLsa (p : ℕ) (w : World) : Except Fault World := do
  let o ← w.get p
  if !o.self then throw .aborted
  if !o.refreshing then return w
  let w ← ospfLsaUnlock (.refreshQueue p) w
  modifyLsa p (fun o => {o with refreshing := false}) w

/-- `ospf_lsa_maxage`. -/
def lsaMaxage (p : ℕ) (w : World) : Except Fault World := do
  let o ← w.get p
  if o.inMaxage then return w
  if (w.place (.maxageLsa p)).isSome then return w
  let w ← ospfLsaLock (.maxageLsa p) p w
  modifyLsa p (fun o => {o with inMaxage := true}) w

def ospfLsaMaxageDelete (p : ℕ) (w : World) : Except Fault World :=
  if w.place (.maxageLsa p)=some p then do
    let w ← modifyLsa p (fun o => {o with inMaxage := false}) w
    ospfLsaUnlock (.maxageLsa p) w
  else .ok w

def ospfAseRegisterExternalLsa (p : ℕ) (w : World) : Except Fault World :=
  ospfLsaLock (.externalLsas p) p w

/-- `ospf_ase_unregister_external_lsa`, which unlocks in any case. -/
def ospfAseUnregisterExternalLsa (p : ℕ) (w : World) : Except Fault World :=
  if w.place (.externalLsas p)=some p then ospfLsaUnlock (.externalLsas p) w
  else .error .misused

/-- The LSAs of the lists of external LSAs: types 5 and 7. -/
def isExternal (o : Lsa) : Bool := o.data.type=ospfAsExternalLsa || o.data.type=ospfAsNssaLsa

/-- The LSAs that are retransmitted through the AS: types 5 and 11. -/
def isAsWide (o : Lsa) : Bool := o.data.type=ospfAsExternalLsa || o.data.type=ospfOpaqueAsLsa

/-- `ospf_ls_retransmit_delete_nbr_as` or its sibling for the area. -/
def sweepRetransmits (p : ℕ) (o : Lsa) (w : World) : Except Fault World :=
  if isAsWide o then ospfLsRetransmitDeleteNbrAs p w
  else
    match o.area with
    | none => .error .released
    | some a => ospfLsRetransmitDeleteNbrArea a p w

/-- The unregistration of an instance on the refresh queue. -/
def unregisterListed (p : ℕ) (o : Lsa) (w : World) : Except Fault World :=
  if o.refreshing then ospfRefresherUnregisterLsa p w else .ok w

/-- The lists that `ospf_discard_from_db` takes an instance from for its
type. -/
def sweepType (p : ℕ) (o : Lsa) (w : World) : Except Fault World :=
  if o.data.type=ospfAsExternalLsa then do
    let w ← ospfAseUnregisterExternalLsa p w
    sweepRetransmits p o w
  else if o.data.type=ospfAsNssaLsa then do
    let w ← sweepRetransmits p o w
    ospfAseUnregisterExternalLsa p w
  else sweepRetransmits p o w

/-- `ospf_discard_from_db`: what the database has for the key of the instance
is discarded. -/
def ospfDiscardFromDb (b : Base) (p : ℕ) (w : World) : Except Fault World := do
  let o ← w.get p
  match w.place (.lsdb b o.key) with
  | none => return w
  | some old =>
    let oldLsa ← w.get old
    let w ← unregisterListed old oldLsa w
    let w ← sweepType old oldLsa w
    let w ← ospfLsaMaxageDelete old w
    ospfLsaDiscard old w

/-- The database that an instance is installed in. -/
def targetLsdb (o : Lsa) : Option Base :=
  if o.data.type=ospfAsNssaLsa then
    match o.area with
    | some a => some (.area a)
    | none => some .as
  else if isAsWide o then some .as
  else o.area.map .area

/-- `ospf_lsa_different` comes to its assertion on the length of the LSA. -/
def differentAborts (now : ℕ) (old o : Lsa) : Bool := old.data.options=o.data.options &&
    isLsaMaxage now old.toOspfLsa=isLsaMaxage now o.toOspfLsa &&
    old.data.length=o.data.length && old.data.length≠0 && old.received=o.received &&
    old.data.length.toNat≤ospfLsaHeaderSize

def ospfLsaIsSelfOriginated (w : World) (o : Lsa) : Bool :=
  if o.selfChecked then o.self else o.self || w.own o.data

/-- An instance after `ospf_lsa_is_self_originated`. -/
def selfCheck (w : World) (o : Lsa) : Lsa :=
  {o with self := ospfLsaIsSelfOriginated w o,selfChecked := true}

/-- A self-originated instance past the last sequence number is set back and aged. -/
def ageAtWrap (now : ℕ) (o : Lsa) : Lsa :=
  {o with
    prematureAge := o.prematureAge || !isLsaMaxage now o.toOspfLsa
    data := {o.data with
      lsSeqnum := ospfMaxSequenceNumber
      lsAge := BitVec.ofNat 16 ospfLsaMaxage}}

/-- What the control information of opaque LSAs answers at an installation. -/
inductive OpaqueEntry where
  | refused
  /-- The LSA has this entry; the flag says that its `struct ospf` is found. -/
  | entered (i : ℕ) (top : Bool)
  deriving DecidableEq

/-- A place gives its lock back and takes one of another instance. -/
def replaceSelf (x : Holder) (p : ℕ) (w : World) : Except Fault World := do
  let w ← ospfLsaUnlock x w
  ospfLsaLock x p w

/-- `ospf_opaque_lsa_install`; the result says whether the LSA is returned. -/
def ospfOpaqueLsaInstall (entry : OpaqueEntry) (p : ℕ) (o : Lsa) (w : World) :
    Except Fault (World × Bool) :=
  if !o.self then .ok (w,true)
  else
    match entry with
    | .refused => .ok (w,false)
    | .entered i top => do
      let w ← replaceSelf (.opaqueInfo i) p w
      if top then do
        let w ← ospfRefresherRegisterLsa p w
        return (w,true)
      else return (w,false)

/-- `ospf_external_lsa_install`, given the refresh of a translation. -/
def ospfExternalLsaInstall (translate : World→Except Fault World) (p : ℕ) (o : Lsa)
    (w : World) : Except Fault World := do
  let w ← ospfAseRegisterExternalLsa p w
  if o.data.type=ospfAsNssaLsa then
    if o.self then return w else translate w
  else if o.self && !o.localXlt then ospfRefresherRegisterLsa p w
  else return w

/-- The answers that an installation uses. -/
structure InstallAnswer where
  /-- `oi` of the caller. -/
  oi : Option ℕ
  entry : OpaqueEntry
  checksum : BitVec 16

/-- The installation for the type of the LSA; the result says whether the LSA
is returned. -/
def installType (translate : World→Except Fault World) (ans : InstallAnswer) (p : ℕ) (o : Lsa)
    (w : World) : Except Fault (World × Bool) :=
  match o.data.type.toNat with
  | 1 =>
    if o.self && !o.received then
      match o.area with
      | none => .error .released
      | some a => do
        let w ← replaceSelf (.routerLsaSelf a) p w
        let w ← ospfRefresherRegisterLsa p w
        return (w,true)
    else .ok (w,true)
  | 2 =>
    match ans.oi with
    | none => .error .aborted
    | some oi =>
      if o.self && !o.received then do
        let w ← replaceSelf (.networkLsaSelf oi) p w
        let w ← ospfRefresherRegisterLsa p w
        return (w,true)
      else .ok (w,true)
  | 3 | 4 =>
    if o.self then do
      let w ← ospfRefresherRegisterLsa p w
      return (w,true)
    else .ok (w,true)
  | 5 | 7 => do
    let w ← ospfExternalLsaInstall translate p o w
    return (w,true)
  | 9 | 10 | 11 => ospfOpaqueLsaInstall ans.entry p o w
  | _ => .ok (w,false)

/-- The old instance of a key is discarded, if there is one. -/
def discardOld (b : Base) (p : ℕ) (o : Lsa) (w : World) : Except Fault World :=
  if (w.place (.lsdb b o.key)).isSome then ospfDiscardFromDb b p w else .ok w

/-- `ospf_lsa_checksum` for a self-originated instance. -/
def writeChecksum (checksum : BitVec 16) (p : ℕ) (o : Lsa) (w : World) : Except Fault World :=
  if o.self then modifyLsa p (fun o => {o with data := {o.data with checksum}}) w else .ok w

/-- An instance that has been installed goes to the MaxAge table if its age
says so. -/
def enterMaxage (p : ℕ) (w : World) : Except Fault World := do
  let o ← w.get p
  if isLsaMaxage w.now o.toOspfLsa then lsaMaxage p w else return w

/-- `ospf_lsa_install` where it may install: the new instance replaces the old one. -/
def enterLsa (translate : World→Except Fault World) (ans : InstallAnswer) (b : Base) (p : ℕ)
    (w : World) : Except Fault World := do
  let o ← w.get p
  let w ← discardOld b p o w
  let w ← writeChecksum ans.checksum p o w
  let w ← ospfLsdbAdd (.lsdb b) p w
  let w ← modifyLsa p (fun o => {o with lsdb := some b}) w
  let r ← installType translate ans p o w
  if r.2 then enterMaxage p r.1 else return r.1

/-- The comparison with the old instance of a key, which may abort. -/
def compareOld (b : Base) (o : Lsa) (w : World) : Except Fault Unit :=
  match w.place (.lsdb b o.key) with
  | none => .ok ()
  | some old => do
    let oldLsa ← w.get old
    if differentAborts w.now oldLsa o then throw .aborted else return ()

/-- The check of the sequence number in `ospf_lsa_install`, and what follows
it. -/
def checkSeqnum (translate : World→Except Fault World) (ans : InstallAnswer) (b : Base) (p : ℕ)
    (o : Lsa) (w : World) : Except Fault World :=
  if o.data.lsSeqnum-1=ospfMaxSequenceNumber then do
    let v ← modifyLsa p (selfCheck w) w
    if ospfLsaIsSelfOriginated w o then do
      let v ← modifyLsa p (ageAtWrap w.now) v
      enterLsa translate ans b p v
    else return v
  else enterLsa translate ans b p w

def ospfLsaInstall (translate : World→Except Fault World) (ans : InstallAnswer) (p : ℕ)
    (w : World) : Except Fault World := do
  let o ← w.get p
  match targetLsdb o with
  | none => .error .released
  | some b => do
    compareOld b o w
    checkSeqnum translate ans b p o w

end RoutePlatform.LsaHeap
