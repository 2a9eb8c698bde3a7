import RoutePlatform.LsaHeap

/-!
# Refresh and removal of link state advertisements

The refresh of a self-originated LSA, the remover of MaxAge LSAs, and the steps of a router on its
instances. A refresh gives the new instance the next sequence number, installs and floods it; what
the originating functions find elsewhere is an argument. A removal runs when no neighbour is in
Exchange or Loading.
-/

namespace RoutePlatform.LsaHeap

open LsaOperations ObjectLocks

/-- Flooding enters the instance into the lists of neighbours it picks. -/
def floodTo (ns : List ℕ) (p : ℕ) (w : World) : Except Fault World :=
  ns.foldlM (fun w n => ospfLsRetransmitAdd n p w) w

/-- The header writes of a flush, with `tv_recv`. -/
def setMaxage (now : ℕ) (o : Lsa) : Lsa :=
  {o with
    data := {o.data with lsAge := BitVec.ofNat 16 ospfLsaMaxage}
    tvRecv := now}

/-- `ospf_lsa_flush_area` and `ospf_lsa_flush_as`. -/
def ospfLsaFlush (ns : List ℕ) (p : ℕ) (w : World) : Except Fault World := do
  let w ← modifyLsa p (setMaxage w.now) w
  let w ← floodTo ns p w
  lsaMaxage p w

def lsaSeqnumIncrement (o : Lsa) : BitVec 32 := o.data.lsSeqnum+1

/-- A new self-originated instance with a header. -/
def selfLsa (now : ℕ) (data : LsaHeader) (area : Option ℕ) : Lsa :=
  { data
    tvRecv := now
    discard := false
    self := true
    selfChecked := true
    received := false
    localXlt := false
    prematureAge := false
    inMaxage := false
    refreshing := false
    retransmitCounter := 0
    area
    lsdb := none }

/-- What a refresh finds in the rest of the router. -/
structure RefreshAnswer where
  /-- `ospf_if_lookup_by_local_addr` finds the interface of a network LSA. -/
  oi : Option ℕ
  /-- `ospf_external_info_check` finds the route of an AS-external LSA. -/
  info : Bool
  redistribute : Bool
  /-- What `ospf_external_info_find_lsa` finds for a flush. -/
  flushed : Option ℕ
  /-- The function of `lsa_refresher` of an opaque LSA is there. -/
  refresher : Bool
  /-- The address and the header of the instance that is made, if one is made. -/
  made : Option (ℕ × LsaHeader)
  install : InstallAnswer
  ns : List ℕ

/-- The end of a refresh: the new instance is numbered, installed and flooded. -/
def reoriginate (ans : RefreshAnswer) (oi : Option ℕ) (p : ℕ) (w : World) : Except Fault World :=
  match ans.made with
  | none => .ok w
  | some (q,data) => do
    let o ← w.get p
    let w ← ospfLsaNew q (selfLsa w.now {data with lsSeqnum := lsaSeqnumIncrement o} o.area) w
    let w ← ospfLsaInstall .ok {ans.install with oi} q w
    floodTo ans.ns q w

/-- A refresh that first takes the old instance from lists and queue. -/
def sweepAndReoriginate (ans : RefreshAnswer) (oi : Option ℕ) (p : ℕ) (o : Lsa) (w : World) :
    Except Fault World := do
  let w ← sweepRetransmits p o w
  let w ← ospfRefresherUnregisterLsa p w
  reoriginate ans oi p w

def ospfRouterLsaRefresh (ans : RefreshAnswer) : ℕ→Lsa→World→Except Fault World :=
  sweepAndReoriginate ans none

def ospfNetworkLsaRefresh (ans : RefreshAnswer) (p : ℕ) (o : Lsa) (w : World) :
    Except Fault World :=
  match ans.oi with
  | none => .ok w
  | some oi => sweepAndReoriginate ans (some oi) p o w

/-- `ospf_summary_lsa_refresh` and `ospf_summary_asbr_lsa_refresh`. -/
def ospfSummaryLsaRefresh (ans : RefreshAnswer) : ℕ→World→Except Fault World :=
  reoriginate ans none

def ospfExternalLsaFlush (ans : RefreshAnswer) (w : World) : Except Fault World :=
  match ans.flushed with
  | none => .ok w
  | some r => do
    let w ← ospfLsRetransmitDeleteNbrAs r w
    let l ← w.get r
    if isLsaMaxage w.now l.toOspfLsa then return w
    let w ← ospfRefresherUnregisterLsa r w
    ospfLsaFlush ans.ns r w

/-- `ospf_external_lsa_refresh` with `LSA_REFRESH_FORCE`. -/
def ospfExternalLsaRefresh (ans : RefreshAnswer) (p : ℕ) (o : Lsa) (w : World) :
    Except Fault World :=
  if !ans.redistribute then ospfExternalLsaFlush ans w
  else do
    let w ← sweepAndReoriginate ans none p o w
    match ans.made with
    | none => return w
    | some (q,_) => do
      let l ← w.get q
      if l.localXlt then return w else ospfRefresherRegisterLsa q w

def ospfOpaqueLsaRefresh (ans : RefreshAnswer) (p : ℕ) (w : World) : Except Fault World :=
  if ans.refresher then reoriginate ans ans.oi p w else ospfLsaFlush ans.ns p w

def ospfLsaRefresh (ans : RefreshAnswer) (p : ℕ) (w : World) : Except Fault World := do
  let o ← w.get p
  if !o.self then throw .aborted
  match o.data.type.toNat with
  | 1 => ospfRouterLsaRefresh ans p o w
  | 2 => ospfNetworkLsaRefresh ans p o w
  | 3 | 4 => ospfSummaryLsaRefresh ans p w
  | 5 =>
    if o.localXlt then return w
    else if ans.info then ospfExternalLsaRefresh ans p o w
    else ospfLsaFlush ans.ns p w
  | 9 | 10 | 11 => ospfOpaqueLsaRefresh ans p w
  | _ => return w

/-- A neighbour is in Exchange or Loading. -/
def isExchanging (w : World) (n : ℕ) : Bool := w.nbrState n=.exchange || w.nbrState n=.loading

def ospfCheckNbrStatus (w : World) : Bool :=
  w.nbrs.all fun n => !(w.ifIsEnable n && isExchanging w n)

/-- An instance that is aged prematurely is refreshed. -/
def refreshPremature (ans : RefreshAnswer) (p : ℕ) (o : Lsa) (w : World) : Except Fault World :=
  if o.prematureAge then ospfLsaRefresh ans p w else .ok w

/-- The remover takes an instance out of its database. -/
def removeFromLsdb (p : ℕ) (w : World) : Except Fault World := do
  let o ← w.get p
  match o.lsdb with
  | none => return w
  | some b => do
    let w ← ospfDiscardFromDb b p w
    ospfLsdbDelete (.lsdb b) p w

/-- A turn of the loop of `ospf_maxage_lsa_remover`, at the node of an
address. -/
def removerTurn (w : World) (turn : ℕ × RefreshAnswer) : Except Fault World :=
  if w.place (.maxageLsa turn.1)=some turn.1 then do
    let o ← w.get turn.1
    if 0<o.retransmitCounter then return w
    else do
      let w ← refreshPremature turn.2 turn.1 o w
      removeFromLsdb turn.1 w
  else .ok w

/-- `ospf_maxage_lsa_remover`, given its walk with the answers to the refreshes. -/
def ospfMaxageLsaRemover (walk : List (ℕ × RefreshAnswer)) (w : World) : Except Fault World :=
  if ospfCheckNbrStatus w then walk.foldlM removerTurn w else .ok w

/-- What the refresh of the translation of a type 7 LSA finds. -/
structure TranslationAnswer where
  type5 : ℕ
  /-- The address and the header of the new translation, if one is made. -/
  made : Option (ℕ × LsaHeader)
  /-- What `ospf_lsa_checksum` computes for it. -/
  checksum : BitVec 16
  ns : List ℕ

/-- The LSA of `ospf_lsa_translated_nssa_new`. -/
def translatedLsa (now : ℕ) (data : LsaHeader) : Lsa :=
  {selfLsa now data none with localXlt := true}

/-- `ospf_translated_nssa_refresh` for a type 7 LSA. -/
def ospfTranslatedNssaRefresh (found : Option TranslationAnswer) (w : World) : Except Fault World :=
  match found with
  | none => .ok w
  | some ans => do
    let w ← ospfLsRetransmitDeleteNbrAs ans.type5 w
    match ans.made with
    | none => return w
    | some (q,data) => do
      let w ← ospfLsaNew q (translatedLsa w.now data) w
      let w ← ospfLsaLock (.translated q) q w
      let w ← ospfLsaInstall .ok ⟨none,.refused,ans.checksum⟩ q w
      floodTo ans.ns q w

/-- The steps of a router on its instances. -/
inductive Action where
  | retransmitAdd (n p : ℕ)
  | retransmitDelete (n p : ℕ)
  | retransmitClear (n : ℕ) (walk : List ℕ)
  | retransmitDeleteNbrArea (a p : ℕ)
  | retransmitDeleteNbrAs (p : ℕ)
  | install (p : ℕ) (ans : InstallAnswer) (found : Option TranslationAnswer)
  | maxage (p : ℕ)
  | maxageDelete (p : ℕ)
  | remover (walk : List (ℕ × RefreshAnswer))
  | create (p : ℕ) (o : Lsa)
  | discard (p : ℕ)
  | age (p : ℕ)
  | due (p : ℕ)
  | refresh (p : ℕ) (ans : RefreshAnswer)
  | done (p : ℕ)
  | hold (x p : ℕ)
  | unhold (x : ℕ)
  /-- `ls_req_last` of a neighbour is set. -/
  | request (n p : ℕ)
  | nbr (n : ℕ) (enable : Bool) (state : NbrState)
  | nbrNew (n a : ℕ)
  | nbrFree (n : ℕ)
  | tick (now : ℕ)

/-- The refresh walker takes an instance with its lock from the queue. -/
def takeDue (p : ℕ) (w : World) : Except Fault World := do
  let w ← ospfLsaLock (.toRefresh p) p w
  let w ← ospfLsaUnlock (.refreshQueue p) w
  modifyLsa p (fun o => {o with refreshing := false}) w

def step (w : World) : Action→Except Fault World
  | .retransmitAdd n p => ospfLsRetransmitAdd n p w
  | .retransmitDelete n p => ospfLsRetransmitDelete n p w
  | .retransmitClear n walk => ospfLsRetransmitClear n walk w
  | .retransmitDeleteNbrArea a p => ospfLsRetransmitDeleteNbrArea a p w
  | .retransmitDeleteNbrAs p => ospfLsRetransmitDeleteNbrAs p w
  | .install p ans found => ospfLsaInstall (ospfTranslatedNssaRefresh found) ans p w
  | .maxage p => lsaMaxage p w
  | .maxageDelete p => ospfLsaMaxageDelete p w
  | .remover walk => ospfMaxageLsaRemover walk w
  | .create p o => ospfLsaNew p o w
  | .discard p => ospfLsaDiscard p w
  | .age p => modifyLsa p (setMaxage w.now) w
  | .due p => takeDue p w
  | .refresh p ans => ospfLsaRefresh ans p w
  | .done p => ospfLsaUnlock (.toRefresh p) w
  | .hold x p => ospfLsaLock (.queued x) p w
  | .unhold x => ospfLsaUnlock (.queued x) w
  | .request n p => replaceSelf (.lsReqLast n) p w
  | .nbr n enable state =>
    .ok {w with
      ifIsEnable := Function.update w.ifIsEnable n enable
      nbrState := Function.update w.nbrState n state}
  | .nbrNew n a => .ok {w with nbrs := n::w.nbrs,nbrArea := Function.update w.nbrArea n a}
  | .nbrFree n => .ok {w with nbrs := w.nbrs.erase n}
  | .tick now => .ok {w with now}

end RoutePlatform.LsaHeap
