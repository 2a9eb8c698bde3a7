import RoutePlatform.LspRemoval

/-!
# Changes and insertions

What each operation does to the links: most only change other contents of LSPs, some put a
new LSP into the database.
-/

namespace RoutePlatform.LspChanges

open TlvOperations OrderedMaps LspOperations LspInvariant LspRemoval Option
open SnpOperations hiding lspInsert lspIncSeqnum

variable {a a' : Area} {level : IsisLevel} {id : LspId} {p z : Ref} {lsp zero : Lsp}
  {checksum : Lsp→Octets 2} {db : OrderedMap LspId Ref} {f : Lsp → Lsp} {refs : List Ref}

section

theorem shape_of_heap (h : a.heap p=some lsp) : shape a p=some (shapeOf lsp) := by
  rw [shape,h]
  rfl

theorem lsp_of_stored (hst : Stored a) (hfind : a.find level id=some p) :
    ∃ lsp, a.heap p=some lsp ∧ lsp.lspId=id ∧ lsp.level=level := by
  obtain ⟨s,hs,hid,hlev⟩ := hst _ _ _ hfind
  obtain ⟨lsp,hlsp,rfl⟩ := map_eq_some_iff.mp hs
  exact ⟨lsp,hlsp,hid,hlev⟩

theorem set_like (hheap : a.heap p=some lsp) {lsp' : Lsp} (h : shapeOf lsp'=shapeOf lsp) :
    Like a (a.set p lsp') where
  shape := by
    intro q
    change (Function.update a.heap p (some lsp') q).map shapeOf=(a.heap q).map shapeOf
    rw [shape_update]
    split
    case isTrue hq =>
      rw [hq,hheap]
      exact congrArg some h
    case isFalse => rfl
  find := fun _ _ => rfl
  next := rfl
  queued := fun _ h => h
  sysid := rfl

theorem modify_like (h : a.modify p f=some a')
    (hf : ∀ lsp, a.heap p=some lsp → shapeOf (f lsp)=shapeOf lsp) : Like a a' := by
  obtain ⟨lsp,hlsp,rfl⟩ := map_eq_some_iff.mp h
  exact set_like hlsp (hf lsp hlsp)

theorem modifyAll_like {ps : List Ref} (h : Area.modifyAll f ps a=some a')
    (hf : ∀ lsp, shapeOf (f lsp)=shapeOf lsp) : Like a a' := by
  induction ps generalizing a with
  | nil =>
    obtain rfl := some.inj h
    exact Like.refl a
  | cons p ps ih =>
    obtain ⟨b,hb,h⟩ := bind_eq_some_iff.mp h
    exact (modify_like hb fun lsp _ => hf lsp).trans (ih h)

theorem shapeOf_lspIncSeqnum (checksum : Lsp→Octets 2) (seqNum : ℕ) (lsp : Lsp) :
    shapeOf (lspIncSeqnum checksum seqNum lsp)=shapeOf lsp := rfl

theorem shapeOf_setSsnUnlessBroadcast (c : IsisCircuit) (lsp : Lsp) :
    shapeOf (setSsnUnlessBroadcast c lsp)=shapeOf lsp := by
  rw [setSsnUnlessBroadcast]
  split <;> rfl

theorem lspSeqnumUpdate_like (h : lspSeqnumUpdate checksum z a=some a') : Like a a' := by
  obtain ⟨b,hb,h⟩ := bind_eq_some_iff.mp h
  have hone := modify_like hb fun lsp _ => shapeOf_lspIncSeqnum checksum 0 lsp
  split at h
  · cases h
  rename_i zero hz
  exact hone.trans (modifyAll_like h (shapeOf_lspIncSeqnum checksum 0))

theorem lspPurgePseudo_like {bigEndian : Bool} (hst : Stored a)
    (h : lspPurgePseudo bigEndian checksum level id a=some a') : Like a a' := by
  rw [lspPurgePseudo] at h
  split at h
  · cases h
  rename_i db hdb
  have hfind := find_of_db hdb id
  cases hlk : db.lookup id with
  | none =>
    rw [hlk] at h
    obtain rfl := some.inj h
    exact Like.refl a
  | some p =>
    rw [hlk] at h hfind
    refine modify_like h fun lsp hlsp => ?_
    obtain ⟨lsp',hlsp',hid,hlev⟩ := lsp_of_stored hst hfind
    rw [hlsp] at hlsp'
    obtain rfl := some.inj hlsp'
    rw [←hid,←hlev]
    rfl

theorem markUnlisted_like {c : IsisCircuit} {lsps : List IsisLsp}
    (h : markUnlisted level c lsps a=some a') : Like a a' := by
  induction lsps generalizing a with
  | nil =>
    obtain rfl := some.inj h
    exact Like.refl a
  | cons lsp lsps ih =>
    rw [markUnlisted] at h
    split at h
    · cases h
    rename_i p hfind
    obtain ⟨b,hb,h⟩ := bind_eq_some_iff.mp h
    exact (modify_like hb fun _ _ => rfl).trans (ih h)

end

section

theorem lspInsert_spec (h : lspInsert level id p a=some a') : ∃ db, a.lspdb level=some db ∧
    db.lookup id=none ∧ a'=a.setDb level (db.insert id p) := by
  rw [lspInsert] at h
  cases hdb : a.lspdb level with
  | none =>
    rw [hdb] at h
    cases h
  | some db =>
    rw [hdb] at h
    dsimp only at h
    cases hlk : db.lookup id with
    | none =>
      rw [hlk] at h
      exact ⟨db,rfl,hlk,(some.inj h).symm⟩
    | some q =>
      rw [hlk] at h
      cases h

theorem find_insert (hdb : a.lspdb level=some db) (level' : IsisLevel) (id' : LspId) :
    (a.setDb level (db.insert id p)).find level' id' =
      if level'=level ∧ id'=id then some p else a.find level' id' := by
  rw [find_setDb]
  by_cases hlev : level'=level
  · rw [if_pos hlev,OrderedMap.lookup_insert,hlev,find_of_db hdb]
    by_cases hid : id'=id
    · rw [if_pos hid,if_pos ⟨rfl,hid⟩]
    · rw [if_neg hid,if_neg fun h => hid h.2]
  · rw [if_neg hlev,if_neg fun h => hlev h.1]

/-- `lsp_update` leaves the links as they are. -/
theorem lspUpdate_like {r : ReceivedLsp} (hst : Stored a)
    (hfind : a.find level r.header.lspId=some p) (h : lspUpdate level p r a=some a') :
    Like a a' := by
  obtain ⟨lsp,hlsp,hid,hlev⟩ := lsp_of_stored hst hfind
  rw [lspUpdate,hlsp] at h
  cases hdb : a.lspdb level with
  | none =>
    rw [hdb] at h
    cases h
  | some db =>
    have hlk : db.lookup lsp.lspId=some p := by
      rw [←find_of_db hdb,hid]
      exact hfind
    rw [hdb] at h
    dsimp only at h
    rw [hlk] at h
    obtain ⟨db',hdb',-,rfl⟩ := lspInsert_spec h
    refine ⟨fun q => ?_,fun level' id' => ?_,rfl,fun _ h => h,rfl⟩
    · refine (set_like hlsp ?_).shape q
      change (⟨r.header.lspId,level,lsp.lspu⟩ : Shape)=⟨lsp.lspId,lsp.level,lsp.lspu⟩
      rw [hid,hlev]
    have herase := find_erase hst hdb hfind level' id'
    rw [←hid] at herase hfind
    rw [←hid,find_insert hdb']
    split
    case isTrue hkey =>
      rw [hkey.1,hkey.2]
      exact hfind.symm
    case isFalse hkey =>
      apply ext
      intro q
      refine (herase q).trans (and_iff_left_of_imp ?_)
      rintro hq rfl
      exact hkey (hst.unique hfind hq)

theorem shape_alloc (q : Ref) : shape (a.alloc lsp) q =
    if q=a.next then some (shapeOf lsp) else shape a q :=
  shape_update q

/-- An LSP without links is put into the database. -/
theorem put_insert (ha : Sound a) (h : lspInsert level id a.next (a.alloc lsp)=some a')
    (hid : lsp.lspId=id) (hlev : lsp.level=level)
    (hz : lspFragment id=0 → IsList lsp.lspu ∧ refsOf lsp.lspu=[])
    (hfrag : lspFragment id≠0 → lsp.lspu=.null ∧ a.find level (zeroId id)=none) :
    Put a a' level id lsp.lspu a.next := by
  obtain ⟨db,hdb,hlk,rfl⟩ := lspInsert_spec h
  refine ⟨ha.fresh _ le_rfl,(find_of_db hdb id).trans hlk,fun q hq => ?_,?_,
    fun q hq => ?_,find_insert (a := a.alloc lsp) hdb,fun _ h => h,hz,fun hne => ?_,rfl⟩
  · have hq : a.next<q := hq
    refine (shape_alloc q).trans ?_
    rw [if_neg hq.ne']
    exact ha.fresh q hq.le
  · refine (shape_alloc a.next).trans ?_
    rw [if_pos rfl,←hid,←hlev]
    rfl
  · refine (shape_alloc q).trans ?_
    rw [if_neg hq,if_neg]
    rintro ⟨hne,hsome⟩
    rw [(hfrag hne).2] at hsome
    cases hsome
  rw [(hfrag hne).1,(hfrag hne).2]
  rfl

/-- A fragment is put into the database, and into the list of its zero LSP. -/
theorem put_link (ha : Sound a) (hdb : a.lspdb level=some db) (hlk : db.lookup id=none)
    (hid : lsp.lspId=id) (hlev : lsp.level=level) (hlspu : lsp.lspu=.zeroLsp z)
    (hfrag : lspFragment id≠0) (hz : a.find level (zeroId id)=some z) (hheap : a.heap z=some zero)
    (hrefs : zero.lspu=.frags refs) :
    Put a (((a.alloc lsp).set z {zero with lspu := .frags (refs++[a.next])}).setDb level
      (db.insert id a.next)) level id (.zeroLsp z) a.next := by
  have hzshape := shape_of_heap hheap
  have hzne : z≠a.next := by
    intro heq
    rw [ha.fresh z heq.ge] at hzshape
    cases hzshape
  have hshape : ∀ q, shape (((a.alloc lsp).set z
      {zero with lspu := .frags (refs++[a.next])}).setDb level (db.insert id a.next)) q =
      if q=z then some (shapeOf {zero with lspu := .frags (refs++[a.next])}) else
        if q=a.next then some (shapeOf lsp) else shape a q := by
    intro q
    rw [←shape_alloc]
    exact shape_update q
  refine ⟨ha.fresh _ le_rfl,(find_of_db hdb id).trans hlk,fun q hq => ?_,?_,
    fun q hq => ?_,find_insert (a := a.alloc lsp) hdb,fun _ h => h,
    fun hzero => (hfrag hzero).elim,fun _ => ?_,rfl⟩
  · have hq : a.next<q := hq
    have hzq : q≠z := by
      intro heq
      have hfresh := ha.fresh q hq.le
      rw [heq,hzshape] at hfresh
      cases hfresh
    rw [hshape,if_neg hzq,if_neg hq.ne']
    exact ha.fresh q hq.le
  · rw [hshape,if_neg hzne.symm,if_pos rfl,←hid,←hlev,←hlspu]
    rfl
  · rw [hshape,if_neg hq,hz]
    by_cases hqz : q=z
    · rw [if_pos hqz,if_pos ⟨hfrag,by rw [hqz]⟩,hqz,hzshape]
      change some (⟨zero.lspId,zero.level,.frags (refs++[a.next])⟩ : Shape) =
        some ⟨zero.lspId,zero.level,.frags (refsOf zero.lspu++[a.next])⟩
      rw [hrefs]
      rfl
    · rw [if_neg hqz,if_neg fun h => hqz (some.inj h.2).symm]
  rw [hz]
  rfl

theorem put_insert_link (ha : Sound a) (h : lspInsert level id a.next (a.alloc lsp)=some a')
    (hid : lsp.lspId=id) (hlev : lsp.level=level) (hlspu : lsp.lspu=.zeroLsp z)
    (hfrag : lspFragment id≠0) (hz : a.find level (zeroId id)=some z) (hheap : a.heap z=some zero)
    (hrefs : zero.lspu=.frags refs) :
    Put a (a'.set z {zero with lspu := .frags (refs++[a.next])}) level id (.zeroLsp z)
      a.next := by
  obtain ⟨db,hdb,hlk,rfl⟩ := lspInsert_spec h
  exact put_link ha hdb hlk hid hlev hlspu hfrag hz hheap hrefs

end

end RoutePlatform.LspChanges
