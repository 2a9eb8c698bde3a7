import RoutePlatform.SnpReports
import RoutePlatform.CsnpSending

/-!
# The exchange of sequence numbers

Two routers find the differences between their databases when the CSNPs of the one list
every LSP, the other marks the LSPs that are missing there, and of two copies that differ
exactly one is taken for the newer one. Each of these holds under a condition.
-/

namespace RoutePlatform.SnpExchange

open TlvOperations NetworkBytes SnpOperations SnpRanges SnpReports CsnpSending

def Differ (a b : LspEntry) : Prop :=
  a.seqNum≠b.seqNum ∨ a.checksum≠b.checksum ∨
    ¬(netValue a.remLifetime.bytes=0 ↔ netValue b.remLifetime.bytes=0)

/-- `lsp_compare` of an LSP with an entry. -/
def compareEntry (lsp entry : LspEntry) : LspCmp :=
  lspCompare lsp entry.seqNum entry.checksum entry.remLifetime

/-- Of two routers that describe their copies to each other one is to send it. -/
def OneSends (checksum : IsisLsp→Octets 2) (sysid1 sysid2 : Octets 6)
    (circuit1 circuit2 : IsisCircuit) (a b : IsisLsp) : Prop :=
  ¬(checkFlag (reportedLsp checksum sysid1 circuit1 b.header a).srmFlags circuit1=true ↔
    checkFlag (reportedLsp checksum sysid2 circuit2 a.header b).srmFlags circuit2=true)

section

variable {a b : LspEntry}

theorem Differ.symm (h : Differ a b) : Differ b a :=
  h.imp Ne.symm fun h => h.imp Ne.symm fun h hiff => h hiff.symm

theorem compareEntry_eq (h : Differ a b) : compareEntry a b =
    if netValue b.seqNum.bytes ≥ netValue a.seqNum.bytes then .newer else .older := by
  have hne : ¬(a.seqNum=b.seqNum ∧ a.checksum=b.checksum ∧
      (netValue a.remLifetime.bytes=0 ∧ netValue b.remLifetime.bytes=0 ∨
        netValue a.remLifetime.bytes≠0 ∧ netValue b.remLifetime.bytes≠0)) := by
    rintro ⟨hseq,hcsum,hlife⟩
    rcases h with h|h|h
    · exact h hseq
    · exact h hcsum
    rcases hlife with ⟨ha,hb⟩|⟨ha,hb⟩
    · exact h (iff_of_true ha hb)
    · exact h (iff_of_false ha hb)
  rw [compareEntry,lspCompare,if_neg hne]

theorem seqNum_inj (h : netValue a.seqNum.bytes=netValue b.seqNum.bytes) : a.seqNum=b.seqNum := by
  have hbs := netValue_inj (a.seqNum.length_eq.trans b.seqNum.length_eq.symm) h
  cases ha : a.seqNum
  cases hb : b.seqNum
  rw [ha,hb] at hbs
  cases hbs
  rfl

theorem compareEntry_agree (h : Differ a b) :
    (compareEntry a b=.newer ↔ compareEntry b a=.older) ↔ a.seqNum≠b.seqNum := by
  rw [compareEntry_eq h,compareEntry_eq h.symm]
  rcases lt_trichotomy (netValue a.seqNum.bytes) (netValue b.seqNum.bytes) with hlt|heq|hgt
  · rw [if_pos hlt.le,if_neg (not_le.mpr hlt)]
    exact iff_of_true (iff_of_true rfl rfl) fun hseq => by rw [hseq] at hlt; exact lt_irrefl _ hlt
  · rw [if_pos heq.le,if_pos heq.ge]
    exact iff_of_false (fun hiff => by cases hiff.mp rfl) fun hne => hne (seqNum_inj heq)
  rw [if_neg (not_le.mpr hgt),if_pos hgt.le]
  exact iff_of_true (iff_of_false nofun nofun)
    fun hseq => by rw [hseq] at hgt; exact lt_irrefl _ hgt

end

section

variable {checksum : IsisLsp→Octets 2} {sysid sysid1 sysid2 : Octets 6}
variable {circuit circuit1 circuit2 : IsisCircuit} {a b : IsisLsp}

theorem checkFlag_clearFlag (flags : Flags) :
    checkFlag (clearFlag flags circuit) circuit=false := by
  rw [checkFlag,clearFlag,BitVec.getLsbD_and,BitVec.getLsbD_not,BitVec.getLsbD_twoPow]
  simp [circuit.idx_lt]

theorem srm_reportedLsp (hown : ¬OwnId sysid b.lspId) :
    checkFlag (reportedLsp checksum sysid circuit b.header a).srmFlags circuit=true ↔
      compareEntry a.header b.header=.older := by
  rw [reportedLsp,compareEntry]
  cases lspCompare a.header b.header.seqNum b.header.checksum b.header.remLifetime with
  | equal =>
    rw [checkFlag_clearFlag]
    exact iff_of_false (by simp) (by simp)
  | older => exact iff_of_true (checkFlag_setFlag _) rfl
  | newer =>
    rw [if_neg (by exact hown),checkFlag_clearFlag]
    exact iff_of_false (by simp) (by simp)

theorem oneSends_iff (hown1 : ¬OwnId sysid1 b.lspId) (hown2 : ¬OwnId sysid2 a.lspId)
    (h : Differ a.header b.header) :
    OneSends checksum sysid1 sysid2 circuit1 circuit2 a b ↔ a.header.seqNum≠b.header.seqNum := by
  have hagree := compareEntry_agree h
  rw [compareEntry_eq h,compareEntry_eq h.symm] at hagree
  rw [OneSends,srm_reportedLsp hown1,srm_reportedLsp hown2,←hagree,compareEntry_eq h,
    compareEntry_eq h.symm]
  rcases lt_or_ge (netValue b.header.seqNum.bytes) (netValue a.header.seqNum.bytes) with
    hlt | hge
  · rw [if_neg (not_le.mpr hlt),if_pos hlt.le]
    decide
  rw [if_pos hge]
  split <;> decide

end

/-- **The exchange.** CSNPs describe a database exactly when it is split well; the unlisted are
marked exactly when the range is met; and copies are told apart exactly when numbers differ. -/
theorem snpExchange_iff (hmacMd5 : List Byte→List Byte→List Byte) (sysid : Octets 6)
    (level : IsisLevel) (circuit : IsisCircuit) (db : LspDb) :
    ((∀ tx, (sendCsnp hmacMd5 sysid tx level circuit db).2 ≠ .stuck) ∧
      (Describes hmacMd5 sysid level circuit db ↔
        db.lsps≠[] ∧ SplitsWell level circuit (numLsps level circuit) db.lsps)) ∧
    (∀ checksum (snp : Snp) pduLen sourceId startId stopId,
      snp.header=.csnp pduLen sourceId startId stopId →
      snpDiscarded level circuit snp=none →
      (MarksUnlisted snp.lspEntries startId stopId circuit db
          (processSnp checksum sysid level circuit snp db) ↔
        RangeMet sysid db snp.lspEntries startId stopId)) ∧
    (∀ a b, Differ a b →
      ((compareEntry a b=.newer ↔ compareEntry b a=.older) ↔ a.seqNum≠b.seqNum)) ∧
    ∀ checksum sysid1 sysid2 circuit1 circuit2 a b, ¬OwnId sysid1 (IsisLsp.lspId b) →
      ¬OwnId sysid2 (IsisLsp.lspId a) → Differ a.header b.header →
      (OneSends checksum sysid1 sysid2 circuit1 circuit2 a b ↔
        a.header.seqNum≠b.header.seqNum) := by
  refine ⟨⟨fun tx => sendCsnp_ne_stuck,describes_iff⟩,?_,?_,?_⟩
  · intro checksum snp pduLen sourceId startId stopId hheader haccepted
    exact marksUnlisted_iff hheader haccepted
  · intro a b h
    exact compareEntry_agree h
  intro checksum sysid1 sysid2 circuit1 circuit2 a b hown1 hown2 h
  exact oneSends_iff hown1 hown2 h

def exampleId (pseudo fragment : Byte) : LspId := ⟨[0,0,0,0,0,2,pseudo,fragment],rfl⟩

def exampleLsp (pseudo fragment sum : Byte) : IsisLsp :=
  ⟨⟨⟨[0,9],rfl⟩,exampleId pseudo fragment,⟨[0,0,0,7],rfl⟩,⟨[0,sum],rfl⟩⟩,[],0,0⟩

def exampleDb : LspDb := ⟨[exampleLsp 0 0 1,exampleLsp 0 0xff 1,exampleLsp 1 1 1],by decide⟩

/-- A point to point circuit with room for two entries. -/
def exampleCircuit : IsisCircuit :=
  ⟨3,by decide,3,false,false,fun _ => false,fun _ => [],true,70,70,fun _ => ⟨0,[],by decide,0⟩⟩

/-- A CSNP without entries for the first LSP. -/
def exampleSnp : Snp :=
  ⟨.csnp ⟨[0,35],rfl⟩ ⟨[0,0,0,0,0,2,0],rfl⟩ (exampleId 0 0) (exampleId 0 0),35,.isisOk,
    none,fun _ => [],[]⟩

theorem snpExchange_iff_example :
    (MarksUnlisted [] (exampleId 0 0) (exampleId 0 0) exampleCircuit exampleDb
        (processSnp (fun _ => ⟨[0,0],rfl⟩) ⟨[0,0,0,0,0,1],rfl⟩ .level1 exampleCircuit
          exampleSnp exampleDb) ↔
      RangeMet ⟨[0,0,0,0,0,1],rfl⟩ exampleDb [] (exampleId 0 0) (exampleId 0 0)) ∧
    ((compareEntry (exampleLsp 0 0 1).header (exampleLsp 0 0 2).header=.newer ↔
        compareEntry (exampleLsp 0 0 2).header (exampleLsp 0 0 1).header=.older) ↔
      (exampleLsp 0 0 1).header.seqNum≠(exampleLsp 0 0 2).header.seqNum) ∧
    (OneSends (fun _ => ⟨[0,0],rfl⟩) ⟨[0,0,0,0,0,1],rfl⟩ ⟨[0,0,0,0,0,3],rfl⟩
        exampleCircuit exampleCircuit (exampleLsp 0 0 1) (exampleLsp 0 0 2) ↔
      (exampleLsp 0 0 1).header.seqNum≠(exampleLsp 0 0 2).header.seqNum) :=
  have h := snpExchange_iff (fun _ _ => []) ⟨[0,0,0,0,0,1],rfl⟩ .level1 exampleCircuit exampleDb
  ⟨h.2.1 _ exampleSnp _ _ _ _ rfl (by decide),h.2.2.1 _ _ (Or.inr (Or.inl (by decide))),
    h.2.2.2 _ _ _ _ _ _ _ (by decide) (by decide) (Or.inr (Or.inl (by decide)))⟩

/-- Ids are skipped; an LSP behind the range is marked; and each router takes the other's copy for
newer. -/
theorem snpExchange_misses :
    ¬Describes (fun _ _ => []) ⟨[0,0,0,0,0,1],rfl⟩ .level1 exampleCircuit exampleDb ∧
    ¬MarksUnlisted [] (exampleId 0 0) (exampleId 0 0) exampleCircuit exampleDb
        (processSnp (fun _ => ⟨[0,0],rfl⟩) ⟨[0,0,0,0,0,1],rfl⟩ .level1 exampleCircuit
          exampleSnp exampleDb) ∧
    compareEntry (exampleLsp 0 0 1).header (exampleLsp 0 0 2).header=.newer ∧
    compareEntry (exampleLsp 0 0 2).header (exampleLsp 0 0 1).header=.newer := by
  refine ⟨fun h => ?_,fun h => ?_,by decide,by decide⟩
  · have hstops := (describes_iff.mp h).2.stops 1 (exampleLsp 0 0xff 1) rfl (Or.inl (by decide))
    exact absurd hstops (by decide)
  have hmet := (@marksUnlisted_iff _ _ .level1 exampleCircuit exampleDb _ _ exampleSnp _ _ rfl
    (by decide)).mp h
  rcases hmet with ⟨id,id',hne,hin,hin',-⟩|hlisted
  · exact hne (idValue_inj (le_antisymm (hin.2.trans hin'.1) (hin'.2.trans hin.1)))
  obtain ⟨e,he,-⟩ := hlisted (exampleLsp 1 1 1) (List.mem_of_getLast? rfl) (by decide)
    (by decide) (by decide)
  exact List.not_mem_nil he

end RoutePlatform.SnpExchange
