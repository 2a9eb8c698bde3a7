import RoutePlatform.SnpRanges

/-!
# What `process_snp` does to the database

An entry changes only the LSP with its id, or inserts one. What is left of the LSPs in the range
is the set that the neighbour does not know; for a range with fewer than two LSPs, those behind
its end are left, too.
-/

namespace RoutePlatform.SnpReports

open TlvOperations SnpOperations SnpRanges List

variable {x lsp : IsisLsp} {id' : LspId} (lsps : List IsisLsp) (entries : List LspEntry)

def Listed (entries : List LspEntry) (id : LspId) : Prop := ∃ e∈entries, e.lspId=id

/-- An id is in a range. -/
def InRange (startId stopId id : LspId) : Prop :=
  idValue startId ≤ idValue id ∧ idValue id ≤ idValue stopId

/-- There is an LSP with an id once the entries have been processed. -/
def Present (sysid : Octets 6) (db : LspDb) (entries : List LspEntry) (id : LspId) : Prop :=
  (∃ x∈db.lsps, x.lspId=id) ∨ ∃ e∈entries, e.lspId=id ∧ Inserted sysid e

section

variable {checksum : IsisLsp→Octets 2} {sysid : Octets 6} {circuit : IsisCircuit} {db : LspDb}

variable {id : LspId} {f : IsisLsp→IsisLsp}

section

variable {hf : ∀ lsp, (f lsp).lspId=lsp.lspId}

theorem mem_modify {y : IsisLsp} : y∈(db.modify id f hf).lsps ↔
      ∃ x∈db.lsps, (if x.lspId=id then f x else x)=y := by
  have hmap : (db.modify id f hf).lsps=db.lsps.map fun x => if x.lspId=id then f x else x := by
    refine map_congr_left fun x _ => ?_
    by_cases hid : x.lspId=id
    · rw [if_pos (lspIdCmp_eq_eq.mpr hid),if_pos hid]
    · rw [if_neg (fun h => hid (lspIdCmp_eq_eq.mp h)),if_neg hid]
  rw [hmap,mem_map]

theorem mem_modify_of_ne (hid : x.lspId≠id) : x∈(db.modify id f hf).lsps ↔ x∈db.lsps := by
  rw [mem_modify]
  constructor
  · rintro ⟨y,hy,hyx⟩
    by_cases hyid : y.lspId=id
    · rw [if_pos hyid] at hyx
      rw [←hyx,hf] at hid
      exact (hid hyid).elim
    rw [if_neg hyid] at hyx
    rw [←hyx]
    exact hy
  · intro hx
    exact ⟨x,hx,if_neg hid⟩

theorem ids_modify : (∃ x∈(db.modify id f hf).lsps, x.lspId=id') ↔ ∃ x∈db.lsps, x.lspId=id' := by
  have hkeep : ∀ x : IsisLsp, (if x.lspId=id then f x else x).lspId=x.lspId := by
    intro x
    split
    · exact hf x
    · rfl
  constructor
  · rintro ⟨y,hy,rfl⟩
    obtain ⟨x,hx,rfl⟩ := mem_modify.mp hy
    exact ⟨x,hx,(hkeep x).symm⟩
  · rintro ⟨x,hx,rfl⟩
    exact ⟨_,mem_modify.mpr ⟨x,hx,rfl⟩,hkeep x⟩

end

theorem mem_lspInsert (hnew : ∀ x∈db.lsps, x.lspId≠lsp.lspId) :
    x∈(lspInsert lsp db).lsps ↔ x=lsp ∨ x∈db.lsps := by
  rw [lspInsert,mem_append,mem_cons,mem_filter,mem_filter,
    decide_eq_true_iff,decide_eq_true_iff,lspIdCmp_eq_lt,lspIdCmp_eq_lt]
  constructor
  · rintro (⟨hx,-⟩|rfl|⟨hx,-⟩)
    · exact Or.inr hx
    · exact Or.inl rfl
    · exact Or.inr hx
  · rintro (rfl|hx)
    · exact Or.inr (Or.inl rfl)
    have hne : idValue x.lspId≠idValue lsp.lspId := fun h => hnew x hx (idValue_inj h)
    rcases lt_or_gt_of_ne hne with hlt|hgt
    · exact Or.inl ⟨hx,hlt⟩
    · exact Or.inr (Or.inr ⟨hx,hgt⟩)

theorem lspSearch_none (h : lspSearch id db=none) : ∀ x∈db.lsps, x.lspId≠id := fun x hx heq =>
  List.find?_eq_none.mp h x hx (decide_eq_true (lspIdCmp_eq_eq.mpr heq))

theorem lspSearch_some (h : lspSearch id db=some lsp) : ∃ x∈db.lsps, x.lspId=id := by
  have hfnd := find?_some h
  exact ⟨lsp,mem_of_find?_eq_some h,lspIdCmp_eq_eq.mp (of_decide_eq_true hfnd)⟩

variable {entry : LspEntry}

theorem mem_insertPlaceholder (hsearch : lspSearch entry.lspId db=none) :
    x∈(lspInsert (placeholder circuit entry) db).lsps ↔
      x=placeholder circuit entry ∨ x∈db.lsps := by
  have hnew : ∀ x∈db.lsps, x.lspId≠(placeholder circuit entry).lspId := lspSearch_none hsearch
  exact mem_lspInsert hnew

theorem mem_processEntry (hid : x.lspId≠entry.lspId) :
    x∈(processEntry checksum sysid circuit db entry).lsps ↔ x∈db.lsps := by
  rw [processEntry]
  cases hsearch : lspSearch entry.lspId db with
  | some lsp => exact mem_modify_of_ne hid
  | none =>
    by_cases hins : Inserted sysid entry
    · rw [if_pos hins,mem_insertPlaceholder hsearch]
      refine or_iff_right fun h => hid ?_
      rw [h]
      rfl
    · rw [if_neg hins]

theorem ids_processEntry : (∃ x∈(processEntry checksum sysid circuit db entry).lsps, x.lspId=id) ↔
      (∃ x∈db.lsps, x.lspId=id) ∨ entry.lspId=id ∧ Inserted sysid entry := by
  rw [processEntry]
  cases hsearch : lspSearch entry.lspId db with
  | some lsp =>
    refine ids_modify.trans (or_iff_left_of_imp ?_).symm
    rintro ⟨rfl,-⟩
    exact lspSearch_some hsearch
  | none =>
    by_cases hins : Inserted sysid entry
    · rw [if_pos hins]
      constructor
      · rintro ⟨x,hx,rfl⟩
        rcases (mem_insertPlaceholder hsearch).mp hx with rfl|hx
        · exact Or.inr ⟨rfl,hins⟩
        · exact Or.inl ⟨x,hx,rfl⟩
      · rintro (⟨x,hx,rfl⟩|⟨rfl,-⟩)
        · exact ⟨x,(mem_insertPlaceholder hsearch).mpr (Or.inr hx),rfl⟩
        exact ⟨placeholder circuit entry,(mem_insertPlaceholder hsearch).mpr (Or.inl rfl),rfl⟩
    rw [if_neg hins]
    exact (or_iff_left fun h => hins h.2).symm

theorem mem_processEntries : ∀ {db : LspDb} {x : IsisLsp}, ¬Listed entries x.lspId →
      (x∈(entries.foldl (processEntry checksum sysid circuit) db).lsps ↔ x∈db.lsps) := by
  induction entries with
  | nil => exact fun _ => Iff.rfl
  | cons e entries ih =>
    intro db x hx
    rw [foldl_cons]
    have hrs : ¬Listed entries x.lspId := by
      rintro ⟨e',he',hid⟩
      exact hx ⟨e',.tail _ he',hid⟩
    have hid : x.lspId≠e.lspId := fun h => hx ⟨e,.head _,h.symm⟩
    exact (ih hrs).trans (mem_processEntry hid)

theorem ids_processEntries : ∀ {db : LspDb} {id : LspId},
    (∃ x∈(entries.foldl (processEntry checksum sysid circuit) db).lsps, x.lspId=id) ↔
      Present sysid db entries id := by
  induction entries with
  | nil =>
    intro db id
    refine (or_iff_left ?_).symm
    rintro ⟨e,he,-⟩
    exact not_mem_nil he
  | cons e entries ih =>
    intro db id
    rw [foldl_cons,ih,Present,Present,ids_processEntry,exists_mem_cons_iff,or_assoc]

end

section

variable {lsps : List IsisLsp}

theorem eraseP_eq_filter (h : lsps.Pairwise fun a b => a.lspId≠b.lspId) (id : LspId) :
    (lsps.eraseP fun x => lspIdCmp x.lspId id=.eq)=lsps.filter fun x => x.lspId≠id := by
  induction lsps with
  | nil => rfl
  | cons x lsps ih =>
    obtain ⟨hhead,htail⟩ := pairwise_cons.mp h
    rw [eraseP_cons,filter_cons]
    by_cases hid : x.lspId=id
    · have hcmp := decide_eq_true (lspIdCmp_eq_eq.mpr hid)
      have hall : ∀ y∈lsps, decide (y.lspId≠id)=true := by
        intro y hy
        rw [←hid]
        exact decide_eq_true (hhead y hy).symm
      rw [hcmp,cond_true,if_neg (fun h => (of_decide_eq_true h : x.lspId≠id) hid),filter_eq_self.mpr hall]
    have hcmp := decide_eq_false fun h => hid (lspIdCmp_eq_eq.mp h)
    rw [hcmp,cond_false,if_pos (decide_eq_true hid),ih htail]

theorem mem_takeListed : ∀ {lsps : List IsisLsp} {x : IsisLsp},
    lsps.Pairwise (fun a b => a.lspId≠b.lspId) →
      (x∈takeListed lsps entries ↔ x∈lsps ∧ ¬Listed entries x.lspId) := by
  induction entries with
  | nil =>
    intro lsps x _
    refine (and_iff_left ?_).symm
    rintro ⟨e,he,-⟩
    exact not_mem_nil he
  | cons e entries ih =>
    intro lsps x h
    rw [takeListed,foldl_cons,eraseP_eq_filter h]
    refine (ih (h.filter _)).trans ?_
    rw [mem_filter,decide_eq_true_iff,and_assoc,Listed,Listed,exists_mem_cons_iff,not_or]
    exact and_congr_right fun _ => and_congr_left fun _ => not_congr eq_comm

end

section

variable {circuit : IsisCircuit}

theorem checkFlag_setFlag (flags : Flags) : checkFlag (setFlag flags circuit) circuit=true := by
  rw [checkFlag,setFlag,BitVec.getLsbD_or,BitVec.getLsbD_twoPow]
  simp [circuit.idx_lt]

/-- `SRM` is set on an LSP with an id. -/
def HasSrm (circuit : IsisCircuit) (id : LspId) (db : LspDb) : Prop :=
  ∃ y∈db.lsps, y.lspId=id ∧ checkFlag y.srmFlags circuit=true

theorem hasSrm_modify {id : LspId} {db : LspDb} (h : HasSrm circuit id db) :
    HasSrm circuit id (db.modify id' (setSrm circuit) fun _ => rfl) := by
  obtain ⟨y,hy,hid,hflag⟩ := h
  refine ⟨_,mem_modify.mpr ⟨y,hy,rfl⟩,?_⟩
  split
  · exact ⟨hid,checkFlag_setFlag _⟩
  · exact ⟨hid,hflag⟩

/-- The last loop of `process_snp`. -/
def mark (circuit : IsisCircuit) (marked : List IsisLsp) (db : LspDb) : LspDb :=
  marked.foldl (fun db lsp => db.modify lsp.lspId (setSrm circuit) fun x => Eq.refl x.lspId) db

variable (marked : List IsisLsp)

theorem hasSrm_mark : ∀ {id : LspId} {db : LspDb},
    HasSrm circuit id db → HasSrm circuit id (mark circuit marked db) := by
  induction marked with
  | nil => exact fun h => h
  | cons x marked ih => exact fun h => ih (hasSrm_modify h)

theorem mark_sets : ∀ {db : LspDb}, (∀ x∈marked, ∃ y∈db.lsps, y.lspId=x.lspId) →
      ∀ x∈marked, HasSrm circuit x.lspId (mark circuit marked db) := by
  induction marked with
  | nil => exact fun _ x hx => (not_mem_nil hx).elim
  | cons x marked ih =>
    intro db hin y hy
    rcases mem_cons.mp hy with rfl|hy
    · obtain ⟨z,hz,hid⟩ := hin y mem_cons_self
      refine hasSrm_mark marked ⟨_,mem_modify.mpr ⟨z,hz,rfl⟩,?_⟩
      rw [if_pos hid]
      exact ⟨hid,checkFlag_setFlag _⟩
    refine ih (fun z hz => ?_) y hy
    exact ids_modify.mpr (hin z (.tail _ hz))

theorem mem_mark : ∀ {x : IsisLsp} {db : LspDb},
    (∀ y∈marked, x.lspId≠y.lspId) → x∈db.lsps → x∈(mark circuit marked db).lsps := by
  induction marked with
  | nil => exact fun _ hx => hx
  | cons y marked ih =>
    intro x db hne hx
    refine ih (fun z hz => hne z (.tail _ hz)) ?_
    exact (mem_modify_of_ne (hne y mem_cons_self)).mpr hx

end

section

variable {checksum : IsisLsp→Octets 2} {sysid : Octets 6} {level : IsisLevel}
variable {circuit : IsisCircuit} {db : LspDb} {startId stopId : LspId}

/-- `SRM` is set on exactly the unlisted LSPs in the range; others stay. -/
structure MarksUnlisted (entries : List LspEntry) (startId stopId : LspId)
    (circuit : IsisCircuit) (db : LspDb) (r : SnpResult) : Prop where
  marked : ∀ x, x∈r.marked ↔
    x∈db.lsps ∧ x.Alive ∧ InRange startId stopId x.lspId ∧ ¬Listed entries x.lspId
  set : ∀ x∈r.marked, HasSrm circuit x.lspId r.db
  others : ∀ x∈db.lsps, ¬Listed entries x.lspId → ¬InRange startId stopId x.lspId → x∈r.db.lsps

/-- Two LSPs are in the range, or none behind its end is unlisted. -/
def RangeMet (sysid : Octets 6) (db : LspDb) (entries : List LspEntry) (startId stopId : LspId) :
    Prop :=
  (∃ id id', id≠id' ∧ InRange startId stopId id ∧ InRange startId stopId id' ∧
    Present sysid db entries id ∧ Present sysid db entries id') ∨
  ∀ x∈db.lsps, idValue startId ≤ idValue x.lspId → idValue stopId < idValue x.lspId →
    x.Alive→Listed entries x.lspId

theorem ids_ne (h : Ascending lsps) : lsps.Pairwise fun a b => a.lspId≠b.lspId :=
  h.imp fun hlt heq => by
    rw [heq] at hlt
    exact lt_irrefl _ hlt

theorem two_le_length (h : Ascending lsps) :
    2≤lsps.length ↔ ∃ x∈lsps, ∃ y∈lsps, x.lspId≠y.lspId := by
  constructor
  · intro hlen
    cases lsps with
    | nil => exact absurd hlen (by decide)
    | cons x lsps =>
      cases lsps with
      | nil =>
        rw [length_singleton] at hlen
        exact absurd hlen (by decide)
      | cons y lsps =>
        have hlt := (pairwise_cons.mp h).1 y mem_cons_self
        refine ⟨x,.head _,y,.tail _ mem_cons_self,fun heq => ?_⟩
        rw [heq] at hlt
        exact lt_irrefl _ hlt
  · rintro ⟨x,hx,y,hy,hne⟩
    refine not_lt.mp fun hlen => ?_
    obtain ⟨z,rfl⟩ : ∃ z, lsps=[z] :=
      length_eq_one_iff.mp (le_antisymm (Nat.lt_succ_iff.mp hlen) (length_pos_of_mem hx))
    rw [mem_singleton.mp hx,mem_singleton.mp hy] at hne
    exact hne rfl

theorem inRange_two : 2≤(inRange startId stopId
        (entries.foldl (processEntry checksum sysid circuit) db).lsps).length ↔
      ∃ id id', id≠id' ∧ InRange startId stopId id ∧ InRange startId stopId id' ∧
        Present sysid db entries id ∧ Present sysid db entries id' := by
  refine (two_le_length _ ((LspDb.ascending _).filter _)).trans ?_
  constructor
  · rintro ⟨x,hx,y,hy,hne⟩
    obtain ⟨hx,hxin⟩ := mem_inRange.mp hx
    obtain ⟨hy,hyin⟩ := mem_inRange.mp hy
    exact ⟨x.lspId,y.lspId,hne,hxin,hyin,(ids_processEntries entries).mp ⟨x,hx,rfl⟩,
      (ids_processEntries entries).mp ⟨y,hy,rfl⟩⟩
  · rintro ⟨id,id',hne,hin,hin',hpres,hpres'⟩
    obtain ⟨x,hx,rfl⟩ := (@ids_processEntries entries checksum sysid circuit db _).mpr hpres
    obtain ⟨y,hy,rfl⟩ := (@ids_processEntries entries checksum sysid circuit db _).mpr hpres'
    exact ⟨x,mem_inRange.mpr ⟨hx,hin⟩,y,mem_inRange.mpr ⟨hy,hin'⟩,hne⟩

theorem ascending_build (db : LspDb) : Ascending (lspBuildListNonzeroHt startId stopId db) := by
  have hsrt := LspDb.ascending db
  have hwhole : Ascending (inRange startId stopId db.lsps++beyond startId stopId db.lsps) := by
    rw [←lowerBound_split hsrt,dictLowerBound_eq hsrt]
    exact hsrt.filter _
  rw [lspBuildListNonzeroHt_eq]
  refine List.Pairwise.filter _ ?_
  split
  · rw [append_nil]
    exact hwhole.sublist (sublist_append_left _ _)
  · exact hwhole

theorem mem_left : x∈takeListed (lspBuildListNonzeroHt startId stopId
        (entries.foldl (processEntry checksum sysid circuit) db)) entries ↔
      x∈db.lsps ∧ x.Alive ∧ ¬Listed entries x.lspId ∧ (InRange startId stopId x.lspId ∨
        (idValue startId ≤ idValue x.lspId ∧ idValue stopId < idValue x.lspId) ∧
        ¬2≤(inRange startId stopId
          (entries.foldl (processEntry checksum sysid circuit) db).lsps).length) := by
  rw [mem_takeListed entries (ids_ne _ (ascending_build _)),lspBuildListNonzeroHt_eq,
    mem_filter,mem_append,decide_eq_true_iff,mem_inRange]
  have hmem : ¬Listed entries x.lspId →
      (x∈(entries.foldl (processEntry checksum sysid circuit) db).lsps ↔ x∈db.lsps) :=
    mem_processEntries entries
  by_cases htwo : 2≤(inRange startId stopId
      (entries.foldl (processEntry checksum sysid circuit) db).lsps).length
  · rw [if_pos htwo]
    constructor
    · rintro ⟨⟨⟨hx,hin⟩|hx,halive⟩,hun⟩
      · exact ⟨(hmem hun).mp hx,halive,hun,Or.inl hin⟩
      · exact (not_mem_nil hx).elim
    · rintro ⟨hx,halive,hun,hin|⟨-,hfew⟩⟩
      · exact ⟨⟨Or.inl ⟨(hmem hun).mpr hx,hin⟩,halive⟩,hun⟩
      · exact (hfew htwo).elim
  rw [if_neg htwo,mem_beyond]
  constructor
  · rintro ⟨⟨⟨hx,hin⟩|⟨hx,hout⟩,halive⟩,hun⟩
    · exact ⟨(hmem hun).mp hx,halive,hun,Or.inl hin⟩
    · exact ⟨(hmem hun).mp hx,halive,hun,Or.inr ⟨hout,htwo⟩⟩
  · rintro ⟨hx,halive,hun,hin|⟨hout,-⟩⟩
    · exact ⟨⟨Or.inl ⟨(hmem hun).mpr hx,hin⟩,halive⟩,hun⟩
    · exact ⟨⟨Or.inr ⟨(hmem hun).mpr hx,hout⟩,halive⟩,hun⟩

section

variable {snp : Snp} {pduLen : Octets 2} {sourceId : Octets 7}
  (hheader : snp.header=.csnp pduLen sourceId startId stopId)
  (haccepted : snpDiscarded level circuit snp=none)
include hheader haccepted

theorem processSnp_csnp : processSnp checksum sysid level circuit snp db = ⟨snp.parsed,
        mark circuit (takeListed (lspBuildListNonzeroHt startId stopId
          (snp.lspEntries.foldl (processEntry checksum sysid circuit) db)) snp.lspEntries)
          (snp.lspEntries.foldl (processEntry checksum sysid circuit) db),
        takeListed (lspBuildListNonzeroHt startId stopId
          (snp.lspEntries.foldl (processEntry checksum sysid circuit) db)) snp.lspEntries⟩ := by
  rw [processSnp,haccepted]
  rw [hheader]
  rfl

/-- **Unlisted LSPs.** `SRM` is set as it should be exactly when the range is met. -/
theorem marksUnlisted_iff : MarksUnlisted snp.lspEntries startId stopId circuit db
        (processSnp checksum sysid level circuit snp db) ↔
      RangeMet sysid db snp.lspEntries startId stopId := by
  rw [processSnp_csnp hheader haccepted,RangeMet,
    ← @inRange_two snp.lspEntries checksum sysid circuit db startId stopId]
  constructor
  · intro h
    refine or_iff_not_imp_left.mpr fun hfew x hx hstart hstop halive => ?_
    by_contra hun
    obtain ⟨-,-,⟨-,hle⟩,-⟩ := (h.marked x).mp
      ((mem_left _).mpr ⟨hx,halive,hun,Or.inr ⟨⟨hstart,hstop⟩,hfew⟩⟩)
    omega
  · intro h
    have hin : ∀ {x : IsisLsp}, x∈takeListed (lspBuildListNonzeroHt startId stopId
        (snp.lspEntries.foldl (processEntry checksum sysid circuit) db)) snp.lspEntries →
        InRange startId stopId x.lspId := by
      intro x hx
      obtain ⟨hx,halive,hun,hin|⟨⟨hstart,hstop⟩,hfew⟩⟩ := (mem_left _).mp hx
      · exact hin
      · exact (hun ((h.resolve_left hfew) x hx hstart hstop halive)).elim
    refine ⟨fun x => ⟨fun hx => ?_,fun hx => ?_⟩,mark_sets _ fun x hx => ?_,
      fun x hx hun hout => mem_mark _ (fun y hy hid => ?_) ((mem_processEntries _ hun).mpr hx)⟩
    · obtain ⟨hdb,halive,hun,-⟩ := (mem_left _).mp hx
      exact ⟨hdb,halive,hin hx,hun⟩
    · obtain ⟨hdb,halive,hin,hun⟩ := hx
      exact (mem_left _).mpr ⟨hdb,halive,hun,Or.inl hin⟩
    · obtain ⟨hdb,-,hun,-⟩ := (mem_left _).mp hx
      exact ⟨x,(mem_processEntries _ hun).mpr hdb,rfl⟩
    rw [hid] at hout
    exact hout (hin hy)

end

end

end RoutePlatform.SnpReports
