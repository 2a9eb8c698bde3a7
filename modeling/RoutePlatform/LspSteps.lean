import RoutePlatform.LspAgeing

/-!
# The steps of the database

A step keeps the links sound when an LSP that it puts into the database without links has no
relatives there: the code links a received fragment and an own fragment with the zero LSP,
and nothing else.
-/

namespace RoutePlatform.LspSteps

open TlvOperations NetworkBytes LspOperations LspInvariant LspRemoval LspChanges List Option
open LspAgeing
open SnpOperations hiding lspInsert lspIncSeqnum processSnp

variable {a a' : Area} {level : IsisLevel} {id : LspId} {p z : Ref} {entry : LspEntry} {b : Area}
  {checksum : Lsp→Octets 2} {entries : List LspEntry} {rest : List (List Byte)} {lsp : Lsp}

/-- A zero LSP has no fragments in the database, or a fragment no zero LSP. -/
def Alone (a : Area) (level : IsisLevel) (id : LspId) : Prop :=
  if lspFragment id=0 then ∀ n, n≠0 → a.find level (withFragment id n)=none
  else a.find level (zeroId id)=none

/-- A step keeps the links and the system id. -/
def Keeps (a a' : Area) : Prop := Sound a' ∧ a'.sysid=a.sysid

theorem Like.keeps (h : Like a a') (ha : Sound a) : Keeps a a' := ⟨ha.like h,h.sysid⟩

theorem Keeps.trans (h : Keeps a b) (h' : Keeps b a') : Keeps a a' :=
  ⟨h'.1,h'.2.trans h.2⟩

theorem withFragment_of_zeroId {id' : LspId} (h : zeroId id'=id) :
    withFragment id (lspFragment id')=id' := by
  rw [←h,zeroId,withFragment_withFragment,withFragment_self]

theorem Alone.not_fragmentOf (h : Alone a level id) (ha : Sound a) (hz : lspFragment id=0)
    (q : Ref) (s : Shape) (hs : shape a q=some s) : ¬FragmentOf s level id := by
  rintro ⟨hlev,hid,hfrag⟩
  rw [Alone,if_pos hz] at h
  have hlive := ha.live hs
  have hnone := h (lspFragment s.id) hfrag
  rw [withFragment_of_zeroId hid,←hlev,hlive] at hnone
  cases hnone

theorem insert_put (ha : Sound a) (h : lspInsert level id a.next (a.alloc lsp)=some a')
    (hid : lsp.lspId=id) (hlev : lsp.level=level)
    (hlspu : lsp.lspu=.null ∨ lspFragment id=0 ∧ lsp.lspu=.frags []) (halone : Alone a level id) :
    Sound a' ∧ Put a a' level id lsp.lspu a.next := by
  have hput := put_insert ha h hid hlev (fun _ => ?_) fun hfrag => ?_
  · exact ⟨ha.put hput fun hz => halone.not_fragmentOf ha hz,hput⟩
  · rcases hlspu with hnull|⟨-,hlist⟩
    · rw [hnull]
      exact ⟨Or.inl rfl,rfl⟩
    rw [hlist]
    exact ⟨Or.inr ⟨_,rfl⟩,rfl⟩
  rw [Alone,if_neg hfrag] at halone
  exact ⟨hlspu.resolve_right fun h => hfrag h.1,halone⟩

section

variable {r : ReceivedLsp} {c : IsisCircuit}

theorem lspPurgeNonExist_keeps {header : LspEntry} {lspBits : Byte} (ha : Sound a)
    (halone : Alone a (purgeLevel lspBits) header.lspId)
    (h : lspPurgeNonExist header lspBits a=some a') : Keeps a a' := by
  obtain ⟨hsound,hput⟩ := insert_put ha h rfl rfl (Or.inl rfl) halone
  exact ⟨hsound,hput.sysid⟩

theorem shapeOf_floodOthers (circuits : List QueueCircuit) (c : IsisCircuit) (lsp : Lsp) :
    shapeOf (setSsnUnlessBroadcast c (floodOthers circuits c lsp))=shapeOf lsp :=
  shapeOf_setSsnUnlessBroadcast c _

/-- A received LSP is put into the database. -/
theorem lspNewFromStreamPtr_keeps {created : Ref × Area} (ha : Sound a)
    (hzero : lspFragment r.header.lspId=0 → Alone a level r.header.lspId)
    (hnew : lspNewFromStreamPtr level r
      (if lspFragment r.header.lspId=0 then none else a.find level (zeroId r.header.lspId)) a=some
      created)
    (hfrag : lspFragment r.header.lspId≠0 → a.find level (zeroId r.header.lspId)≠none)
    (h : lspInsert level r.header.lspId created.1 created.2=some b) : Keeps a b := by
  by_cases hnum : lspFragment r.header.lspId=0
  · rw [if_pos hnum] at hnew
    obtain rfl := some.inj hnew
    obtain ⟨hsound,hput⟩ := insert_put ha h rfl rfl (Or.inr ⟨hnum,rfl⟩) (hzero hnum)
    exact ⟨hsound,hput.sysid⟩
  obtain ⟨z,hz⟩ := ne_none_iff_exists'.mp (hfrag hnum)
  obtain ⟨zero,hheap,-,-⟩ := lsp_of_stored (stored_of_sound ha) hz
  rw [if_neg hnum,hz,lspNewFromStreamPtr] at hnew
  rw [hheap] at hnew
  dsimp only at hnew
  cases hrefs : zero.lspu with
  | null | zeroLsp q =>
    rw [hrefs] at hnew
    cases hnew
  | frags refs =>
    rw [hrefs] at hnew
    obtain rfl := some.inj hnew
    obtain ⟨db,hdb,hlk,rfl⟩ := lspInsert_spec h
    have hput := @put_link a level r.header.lspId z ⟨r.header,r.lspBits,r.tlvs,.zeroLsp z,
      0,0,level,false,zeroAgeLifetime⟩ zero db refs ha hdb hlk rfl rfl rfl hnum hz hheap
      hrefs
    exact ⟨ha.put hput fun hzero => (hnum hzero).elim,hput.sysid⟩

/-- An LSP that `process_lsp` creates has no relatives, or it is a fragment of a known LSP. -/
def NewLspOk (level : IsisLevel) (r : ReceivedLsp) (a : Area) : Prop :=
  netValue r.header.remLifetime.bytes≠0 →
    if OwnId a.sysid r.header.lspId then Alone a (purgeLevel r.lspBits) r.header.lspId
    else lspFragment r.header.lspId=0 → Alone a level r.header.lspId

theorem processNewLsp_keeps (ha : Sound a) (hok : NewLspOk level r a)
    (h : processNewLsp level c r a=some a') : Keeps a a' := by
  rw [processNewLsp] at h
  split at h
  case isTrue =>
    obtain rfl := some.inj h
    exact ⟨ha,rfl⟩
  case isFalse hlife =>
    have hok := hok hlife
    split at h
    case isTrue hown =>
      rw [if_pos hown] at hok
      exact lspPurgeNonExist_keeps ha hok h
    case isFalse hown =>
      rw [if_neg hown] at hok
      split at h
      case isTrue =>
        obtain rfl := some.inj h
        exact ⟨ha,rfl⟩
      case isFalse hfrag =>
        obtain ⟨created,hnew,h⟩ := bind_eq_some_iff.mp h
        obtain ⟨b,hb,h⟩ := bind_eq_some_iff.mp h
        have hkeeps := lspNewFromStreamPtr_keeps ha hok hnew (fun hne hnone => hfrag ⟨hne,hnone⟩) hb
        exact hkeeps.trans (Like.keeps (modify_like h
          fun lsp _ => shapeOf_floodOthers b.circuits c lsp) hkeeps.1)

/-- An LSP that is known keeps its links. -/
theorem processKnownLsp_like (hst : Stored a) (hfind : a.find level r.header.lspId=some p)
    (h : processKnownLsp checksum level c r p lsp a=some a') : Like a a' := by
  have hssn := shapeOf_setSsnUnlessBroadcast c
  have hback : ∀ {b}, a.modify p (sendBack c)=some b → Like a b :=
    fun h => modify_like h fun _ _ => rfl
  have hupdate : ∀ {b b' : Area} {f : Lsp → Lsp}, lspUpdate level p r a=some b →
      b.modify p f=some b' → (∀ lsp, shapeOf (f lsp)=shapeOf lsp) → Like a b' :=
    fun hb h hf => (lspUpdate_like hst hfind hb).trans (modify_like h fun lsp _ => hf lsp)
  rw [processKnownLsp] at h
  split at h
  · split at h
    · split at h
      · obtain ⟨b,hb,h⟩ := bind_eq_some_iff.mp h
        exact hupdate hb h fun lsp => hssn _
      · exact modify_like h fun lsp _ => hssn _
      · exact hback h
    split at h
    · split at h
      · exact modify_like h fun _ _ => rfl
      · exact hback h
    obtain rfl := some.inj h
    exact Like.refl a
  · split at h
    · refine modify_like h fun lsp _ => ?_
      split <;> rfl
    split at h
    · split at h
      · obtain rfl := some.inj h
        exact Like.refl a
      obtain ⟨b,hb,h⟩ := bind_eq_some_iff.mp h
      exact hupdate hb h fun lsp => hssn _
    · obtain ⟨b,hb,h⟩ := bind_eq_some_iff.mp h
      have hone := modify_like hb fun _ _ => rfl
      obtain ⟨b',hb',h⟩ := bind_eq_some_iff.mp h
      refine hone.trans ((lspUpdate_like (stored_of_like hone hst) ?_ hb').trans
        (modify_like h fun lsp _ => hssn lsp))
      rw [hone.find]
      exact hfind
    · exact hback h

/-- `process_lsp` keeps the links when an LSP that it creates has no relatives. -/
theorem processLsp_keeps {c : QueueCircuit} (ha : Sound a)
    (hok : lspAccepted level c r a=true → a.find level r.header.lspId=none → NewLspOk level r a)
    (h : processLsp checksum level c r a=some a') : Keeps a a' := by
  have hsame : some a=some a' → Keeps a a' := fun h => by
    obtain rfl := some.inj h
    exact ⟨ha,rfl⟩
  rw [processLsp] at h
  split at h
  case h_1 => exact hsame h
  case h_2 hreadable =>
    split at h
    · cases h
    rename_i db hdb
    have hfind := find_of_db hdb r.header.lspId
    cases hlk : db.lookup r.header.lspId with
    | none =>
      rw [hlk] at h hfind
      dsimp only at h
      split at h
      case h_1 => exact hsame h
      case h_2 hadj =>
        refine processNewLsp_keeps ha (hok ?_ hfind) h
        rw [lspAccepted,hreadable,hadj,Bool.and_eq_true,Bool.or_eq_true]
        exact ⟨rfl,Or.inr rfl⟩
    | some p =>
      rw [hlk] at h hfind
      dsimp only at h
      split at h
      case h_1 => cases h
      case h_2 lsp hlsp =>
        split at h
        · exact hsame h
        · exact Like.keeps (processKnownLsp_like (stored_of_sound ha) hfind h) ha

end

section

variable {c : IsisCircuit} {checksum : IsisLsp→Octets 2}

/-- What `process_snp` inserts has no relatives, in the database or among the entries. -/
def EntriesAlone (level : IsisLevel) (entries : List LspEntry) (a : Area) : Prop :=
  ∀ e∈entries, a.find level e.lspId=none → Inserted a.sysid e → Alone a level e.lspId ∧
    (lspFragment e.lspId≠0 → ∀ f∈entries, Inserted a.sysid f → f.lspId≠zeroId e.lspId)

theorem shapeOf_reportedLsp {sysid : Octets 6} (lsp : Lsp) :
    shapeOf (lsp.withView (reportedLsp checksum sysid c entry lsp.view))=shapeOf lsp := by
  have hid := reportedLsp_lspId checksum sysid c entry lsp.view
  change (⟨(reportedLsp checksum sysid c entry lsp.view).lspId,lsp.level,lsp.lspu⟩ : Shape) =
    ⟨lsp.view.lspId,lsp.level,lsp.lspu⟩
  rw [hid]

/-- An entry changes other contents, or puts an LSP. -/
theorem processSnpEntry_spec (ha : Sound a)
    (hok : a.find level entry.lspId=none → Inserted a.sysid entry → Alone a level entry.lspId)
    (h : processSnpEntry checksum level c entry a=some b) : Keeps a b ∧
      ((∀ id, b.find level id=a.find level id) ∨ a.find level entry.lspId=none ∧
        Inserted a.sysid entry ∧ ∀ id, b.find level id =
          if id=entry.lspId then some a.next else a.find level id) := by
  rw [processSnpEntry] at h
  split at h
  · cases h
  rename_i db hdb
  have hfind := find_of_db hdb entry.lspId
  cases hlk : db.lookup entry.lspId with
  | some p =>
    rw [hlk] at h
    have hlike := modify_like h fun lsp _ => shapeOf_reportedLsp lsp
    exact ⟨Like.keeps hlike ha,Or.inl (hlike.find level)⟩
  | none =>
    rw [hlk] at h hfind
    dsimp only at h
    split at h
    case isTrue hins =>
      have hlspu : (if lspFragment entry.lspId=0 then Lspu.frags [] else .null)=.null ∨
          lspFragment entry.lspId=0 ∧
            (if lspFragment entry.lspId=0 then Lspu.frags [] else .null)=.frags [] := by
        by_cases hnum : lspFragment entry.lspId=0
        · exact Or.inr ⟨hnum,if_pos hnum⟩
        · exact Or.inl (if_neg hnum)
      obtain ⟨hsound,hput⟩ := insert_put ha h rfl rfl hlspu (hok hfind hins)
      refine ⟨⟨hsound,hput.sysid⟩,Or.inr ⟨hfind,hins,fun id => ?_⟩⟩
      rw [hput.find]
      by_cases hid : id=entry.lspId
      · rw [if_pos ⟨rfl,hid⟩,if_pos hid]
      · rw [if_neg fun h => hid h.2,if_neg hid]
    case isFalse =>
      obtain rfl := some.inj h
      exact ⟨⟨ha,rfl⟩,Or.inl fun _ => rfl⟩

/-- The entries that follow have no relatives either. -/
theorem EntriesAlone.tail (hok : EntriesAlone level (entry::entries) a) (hsysid : b.sysid=a.sysid)
    (h : (∀ id, b.find level id=a.find level id) ∨
      a.find level entry.lspId=none ∧ Inserted a.sysid entry ∧ ∀ id, b.find level id = if id=entry.lspId then some a.next else a.find level id) :
    EntriesAlone level entries b := by
  intro e he hnone hins
  rw [hsysid] at hins ⊢
  rcases h with hfind|⟨hentry,hentryIns,hfind⟩
  · rw [hfind] at hnone
    obtain ⟨halone,hne⟩ := hok e (mem_cons_of_mem entry he) hnone hins
    refine ⟨?_,fun hfrag f hf => hne hfrag f (mem_cons_of_mem entry hf)⟩
    simp only [Alone,hfind]
    exact halone
  have hid : e.lspId≠entry.lspId := by
    intro hid
    rw [hfind,if_pos hid] at hnone
    cases hnone
  rw [hfind,if_neg hid] at hnone
  obtain ⟨halone,hne⟩ := hok e (mem_cons_of_mem entry he) hnone hins
  obtain ⟨-,hentryNe⟩ := hok entry mem_cons_self hentry hentryIns
  refine ⟨?_,fun hfrag f hf => hne hfrag f (mem_cons_of_mem entry hf)⟩
  rw [Alone]
  split
  case isTrue hz =>
    rw [Alone,if_pos hz] at halone
    intro n hn
    rw [hfind,if_neg,halone n hn]
    intro heq
    refine hentryNe ?_ e (mem_cons_of_mem entry he) hins ?_
    · rw [←heq,lspFragment_withFragment]
      exact hn
    · rw [←heq,zeroId_withFragment,zeroId_of_zero hz]
  case isFalse hfrag =>
    rw [Alone,if_neg hfrag] at halone
    rw [hfind,if_neg,halone]
    exact (hne hfrag entry mem_cons_self hentryIns).symm

theorem processSnpEntries_keeps (ha : Sound a) (hok : EntriesAlone level entries a)
    (h : processSnpEntries checksum level c entries a=some a') : Keeps a a' := by
  induction entries generalizing a with
  | nil =>
    obtain rfl := some.inj h
    exact ⟨ha,rfl⟩
  | cons entry entries ih =>
    obtain ⟨b,hb,h⟩ := bind_eq_some_iff.mp h
    obtain ⟨hkeeps,hfind⟩ := processSnpEntry_spec ha
      (fun hnone hins => (hok entry mem_cons_self hnone hins).1) hb
    exact hkeeps.trans (ih hkeeps.1 (hok.tail hkeeps.2 hfind) h)

theorem processSnp_keeps {snp : Snp} (ha : Sound a)
    (hok : snpDiscarded level c snp=none → EntriesAlone level snp.lspEntries a)
    (h : processSnp checksum level c snp a=some a') : Keeps a a' := by
  rw [processSnp] at h
  split at h
  case h_1 =>
    obtain rfl := some.inj h
    exact ⟨ha,rfl⟩
  case h_2 haccepted =>
    obtain ⟨b,hb,h⟩ := bind_eq_some_iff.mp h
    have hkeeps := processSnpEntries_keeps ha (hok haccepted) hb
    split at h
    · obtain rfl := some.inj h
      exact hkeeps
    split at h
    · cases h
    split at h
    · exact hkeeps.trans (Like.keeps (markUnlisted_like h) hkeeps.1)
    · cases h

end

section

variable {checksum : Lsp→Octets 2}

/-- `lsp_next_frag` finds a fragment, or puts one into the list of its zero LSP. -/
theorem lspNextFrag_keeps {n : Byte} {frag : Ref × Area} (ha : Sound a)
    (hz : a.find level id=some z) (hzero : lspFragment id=0)
    (h : lspNextFrag level z n a=some frag) :
    Keeps a frag.2 ∧ frag.2.find level id=some z := by
  obtain ⟨zero,hheap,hid,hlev⟩ := lsp_of_stored (stored_of_sound ha) hz
  rw [lspNextFrag,hheap] at h
  cases hdb : a.lspdb level with
  | none =>
    rw [hdb] at h
    cases h
  | some db =>
    rw [hdb] at h
    dsimp only at h
    rw [hid] at h
    split at h
    · obtain rfl := some.inj h
      exact ⟨⟨ha,rfl⟩,hz⟩
    rename_i hlk
    obtain ⟨b,hb,h⟩ := bind_eq_some_iff.mp h
    have hn : n≠0 := by
      rintro rfl
      have hself : withFragment id 0=id := zeroId_of_zero hzero
      rw [hself,←find_of_db hdb,hz] at hlk
      cases hlk
    have hzid := (zeroId_withFragment id n).trans (zeroId_of_zero hzero)
    have hnum : lspFragment (withFragment id n)≠0 := by
      rw [lspFragment_withFragment]
      exact hn
    cases hrefs : zero.lspu with
    | null | zeroLsp q =>
      rw [hrefs] at h
      cases h
    | frags refs =>
      rw [hrefs] at h
      obtain rfl := some.inj h
      have hput := put_insert_link ha hb rfl rfl rfl hnum (hzid.symm ▸ hz) hheap hrefs
      refine ⟨⟨ha.put hput fun h => (hnum h).elim,hput.sysid⟩,?_⟩
      refine (hput.find_of_ne ?_).trans hz
      rintro ⟨-,heq⟩
      rw [←heq] at hnum
      exact hnum hzero

theorem buildFrags_keeps (ha : Sound a) (hz : a.find level id=some z) (hzero : lspFragment id=0)
    (h : buildFrags level z rest p a=some a') : Keeps a a' ∧ a'.find level id=some z := by
  induction rest generalizing a p with
  | nil =>
    obtain rfl := some.inj h
    exact ⟨⟨ha,rfl⟩,hz⟩
  | cons tlvs rest ih =>
    rw [buildFrags] at h
    split at h
    · cases h
    obtain ⟨frag,hfrag,h⟩ := bind_eq_some_iff.mp h
    obtain ⟨b,hb,h⟩ := bind_eq_some_iff.mp h
    obtain ⟨hkeeps,hz⟩ := lspNextFrag_keeps ha hz hzero hfrag
    have hlike := modify_like hb fun _ _ => rfl
    obtain ⟨hkeeps',hz⟩ := ih (hkeeps.1.like hlike) ((hlike.find level id).trans hz) h
    exact ⟨hkeeps.trans ((Like.keeps hlike hkeeps.1).trans hkeeps'),hz⟩

theorem lspBuild_keeps {tlvs : List Byte} (ha : Sound a) (hz : a.find level id=some z)
    (hzero : lspFragment id=0) (h : lspBuild level z tlvs rest a=some a') : Keeps a a' := by
  obtain ⟨b,hb,h⟩ := bind_eq_some_iff.mp h
  have hlike := modify_like hb fun _ _ => rfl
  obtain ⟨hkeeps,-⟩ := buildFrags_keeps (ha.like hlike) ((hlike.find level id).trans hz) hzero h
  exact (Like.keeps hlike ha).trans hkeeps

theorem lspFragment_ownLspId (sysid : Octets 6) : lspFragment (ownLspId sysid)=0 := by
  change (sysid.bytes++[0,0]).getD 7 0=0
  rw [getD_append_right _ _ _ _ (by rw [sysid.length_eq]; decide),sysid.length_eq]
  rfl

section

variable {remLifetime : Octets 2} {tlvs : List Byte} {rest : List (List Byte)} (ha : Sound a)
include ha

/-- `lsp_regenerate` keeps the links. -/
theorem lspRegenerate_keeps
    (h : lspRegenerate checksum level remLifetime tlvs rest a=some a') : Keeps a a' := by
  rw [lspRegenerate] at h
  split at h
  case isTrue =>
    obtain rfl := some.inj h
    exact ⟨ha,rfl⟩
  case isFalse =>
    split at h
    · cases h
    rename_i db hdb
    have hfind := find_of_db hdb (ownLspId a.sysid)
    cases hlk : db.lookup (ownLspId a.sysid) with
    | none =>
      rw [hlk] at h
      obtain rfl := some.inj h
      exact ⟨ha,rfl⟩
    | some z =>
      rw [hlk] at h hfind
      obtain ⟨b,hb,h⟩ := bind_eq_some_iff.mp h
      obtain ⟨b',hb',h⟩ := bind_eq_some_iff.mp h
      obtain ⟨d,hd,h⟩ := bind_eq_some_iff.mp h
      obtain ⟨d',hd',h⟩ := bind_eq_some_iff.mp h
      have hkeeps := lspBuild_keeps ha hfind (lspFragment_ownLspId a.sysid) hb
      have hlike := (modify_like hb' fun _ _ => rfl).trans
        ((lspSeqnumUpdate_like hd).trans (modify_like hd' fun _ _ => rfl))
      refine hkeeps.trans (Like.keeps ?_ hkeeps.1)
      split at h
      · cases h
      · exact hlike.trans (modifyAll_like h fun _ => rfl)

/-- `lsp_generate` keeps the links when there are no own fragments without a zero LSP. -/
theorem lspGenerate_keeps (hok : acceptLevel level a.isType →
      a.find level (ownLspId a.sysid)=none → Alone a level (ownLspId a.sysid))
    (h : lspGenerate checksum level remLifetime tlvs rest a=some a') : Keeps a a' := by
  have hzero := lspFragment_ownLspId a.sysid
  rw [lspGenerate] at h
  split at h
  case isTrue =>
    obtain rfl := some.inj h
    exact ⟨ha,rfl⟩
  case isFalse haccept =>
    split at h
    · cases h
    obtain ⟨b,hb,h⟩ := bind_eq_some_iff.mp h
    obtain ⟨d,hd,h⟩ := bind_eq_some_iff.mp h
    obtain ⟨e,he,h⟩ := bind_eq_some_iff.mp h
    obtain ⟨g,hg,h⟩ := bind_eq_some_iff.mp h
    obtain ⟨hsound,hsysid,-⟩ := lspSearchAndDestroy_sound ha hb
    have halone : Alone b level (ownLspId a.sysid) := by
      by_cases hnone : a.find level (ownLspId a.sysid)=none
      · have hsame := lspSearchAndDestroy_absent hnone hb
        rw [hsame]
        exact hok (not_not.mp haccept) hnone
      rw [Alone,if_pos hzero]
      intro n hn
      by_contra hne
      obtain ⟨q,hq⟩ := ne_none_iff_exists'.mp hne
      obtain ⟨t,ht,hid,hlev⟩ := hsound.stored hq
      refine lspSearchAndDestroy_alone ha hzero hnone hb q t ht ⟨hlev,?_,?_⟩
      · rw [hid,zeroId_withFragment,zeroId_of_zero hzero]
      rw [hid,lspFragment_withFragment]
      exact hn
    obtain ⟨hsound',hput⟩ := insert_put hsound hd rfl rfl (Or.inr ⟨hzero,if_pos hzero⟩) halone
    have hz : d.find level (ownLspId a.sysid)=some b.next := by rw [hput.find,if_pos ⟨rfl,rfl⟩]
    have hkeeps := lspBuild_keeps hsound' hz hzero he
    have hlike := (lspSeqnumUpdate_like hg).trans (modify_like h fun _ _ => rfl)
    exact Keeps.trans ⟨hsound',hput.sysid.trans hsysid⟩ (hkeeps.trans (Like.keeps hlike hkeeps.1))

end

end

end RoutePlatform.LspSteps
