import RoutePlatform.LspSteps

/-!
# Runs of the link state database

Every LSP is stored once under its id and level, a zero LSP lists its fragments, each points back,
and nothing refers to a destroyed LSP, if the steps of a run put no LSP beside its relatives
without links and let fragments age out with their zero LSPs.
-/

namespace RoutePlatform.LspRuns

open TlvOperations OrderedMaps LspOperations LspInvariant LspRemoval LspChanges Option
open LspAgeing LspSteps
open SnpOperations hiding lspInsert lspIncSeqnum processSnp

/-- An LSP is in the database of a level. -/
def InDb (a : Area) (level : IsisLevel) (p : Ref) (lsp : Lsp) : Prop :=
  a.heap p=some lsp ∧ ∃ db, a.lspdb level=some db ∧ (lsp.lspId,p)∈db.entries

structure Structured (a : Area) : Prop where
  /-- An LSP is stored under its id, and its level is that of the database. -/
  keyed : ∀ level db, a.lspdb level=some db → ∀ e∈db.entries,
    ∃ lsp, a.heap e.2=some lsp ∧ lsp.lspId=e.1 ∧ lsp.level=level
  unique : ∀ level p q lsp lsp', InDb a level p lsp → InDb a level q lsp' →
    lsp.lspId=lsp'.lspId → p=q
  /-- A zero LSP lists its fragments in the database, each once. -/
  fragments : ∀ level z zero, InDb a level z zero → lspFragment zero.lspId=0 →
    (∀ q, zero.lspu ≠ .zeroLsp q) ∧ zero.refs.Nodup ∧ ∀ q, q∈zero.refs ↔
      ∃ lsp, InDb a level q lsp ∧ zeroId lsp.lspId=zero.lspId ∧ lspFragment lsp.lspId≠0
  back : ∀ level z zero, InDb a level z zero → lspFragment zero.lspId=0 → ∀ q∈zero.refs,
    ∀ lsp, a.heap q=some lsp → lsp.lspu=.zeroLsp z
  refs : ∀ p lsp, a.heap p=some lsp → ∀ q∈lsp.refs, a.heap q≠none
  pointer : ∀ p lsp z, a.heap p=some lsp → lsp.lspu=.zeroLsp z → a.heap z≠none
  queues : ∀ c∈a.circuits, ∀ queue, c.lspQueue=some queue → ∀ p∈queue, a.heap p≠none

section

variable {a : Area} {level : IsisLevel} {p : Ref} {lsp : Lsp}

theorem inDb_iff : InDb a level p lsp ↔
    shape a p=some (shapeOf lsp) ∧ a.heap p=some lsp ∧ a.find level lsp.lspId=some p := by
  constructor
  · rintro ⟨hheap,db,hdb,hmem⟩
    refine ⟨shape_of_heap hheap,hheap,?_⟩
    rw [find_of_db hdb,←OrderedMap.mem_entries_iff]
    exact hmem
  · rintro ⟨-,hheap,hfind⟩
    obtain ⟨db,hdb,hlk⟩ := bind_eq_some_iff.mp hfind
    exact ⟨hheap,db,hdb,(OrderedMap.mem_entries_iff db).mpr hlk⟩

theorem heap_ne_none {s : Shape} (h : shape a p=some s) : a.heap p≠none := by
  obtain ⟨lsp,hlsp,-⟩ := map_eq_some_iff.mp h
  rw [hlsp]
  exact nofun

/-- The database of a sound area is structured. -/
theorem structured_of_sound (ha : Sound a) : Structured a := by
  have hst := stored_of_sound ha
  have hlev : ∀ {level p lsp}, InDb a level p lsp → lsp.level=level := by
    intro level p lsp h
    obtain ⟨hshape,-,hfind⟩ := inDb_iff.mp h
    exact (hst.unique hfind (ha.live hshape)).1
  refine ⟨fun level db hdb e he => ?_,fun level p q lsp lsp' hp hq hid => ?_,
    fun level z zero hz hzero => ?_,fun level z zero hz hzero q hq lsp hlsp => ?_,
    fun p lsp hlsp q hq => ?_,fun p lsp z hlsp hz => ?_,fun c hc queue hqueue p hp => ?_⟩
  · refine lsp_of_stored hst ?_
    rw [find_of_db hdb,←OrderedMap.mem_entries_iff]
    exact he
  · have hp := (inDb_iff.mp hp).2.2
    rw [hid,(inDb_iff.mp hq).2.2] at hp
    exact (some.inj hp).symm
  · obtain ⟨hshape,-,-⟩ := inDb_iff.mp hz
    obtain ⟨hlist,hnd,hmem⟩ := ha.zero hshape hzero
    refine ⟨fun q hq => ?_,hnd,fun q => (hmem q).trans ⟨?_,?_⟩⟩
    · rcases hlist with hnull|⟨refs,hrefs⟩
      · cases hnull.symm.trans hq
      · cases hrefs.symm.trans hq
    · rintro ⟨t,ht,htlevel,htid,htfrag⟩
      obtain ⟨lsp,hlsp,rfl⟩ := map_eq_some_iff.mp ht
      refine ⟨lsp,inDb_iff.mpr ⟨ht,hlsp,?_⟩,htid,htfrag⟩
      have hlive := ha.live ht
      rw [htlevel] at hlive
      rw [←hlev hz]
      exact hlive
    rintro ⟨lsp,hlsp,hid,hfrag⟩
    exact ⟨_,(inDb_iff.mp hlsp).1,(hlev hlsp).trans (hlev hz).symm,hid,hfrag⟩
  · obtain ⟨hshape,-,-⟩ := inDb_iff.mp hz
    obtain ⟨t,ht,htlevel,htid,htfrag⟩ := ((ha.zero hshape hzero).2.2 q).mp hq
    rw [shape_of_heap hlsp] at ht
    obtain rfl := some.inj ht
    have hback := ha.frag (shape_of_heap hlsp) htfrag
    rw [htid,htlevel,ha.live hshape] at hback
    exact hback
  · obtain ⟨-,t,ht,-⟩ := mem_refs ha (shape_of_heap hlsp) hq
    exact heap_ne_none ht
  · have hshape := shape_of_heap hlsp
    by_cases hzero : lspFragment lsp.lspId=0
    · rcases (ha.zero hshape hzero).1 with hnull|⟨refs,hrefs⟩
      · cases hnull.symm.trans hz
      · cases hrefs.symm.trans hz
    have hback := ha.frag hshape hzero
    cases hfind : a.find lsp.level (zeroId lsp.lspId) with
    | none =>
      have hback : lsp.lspu=backPointer (a.find lsp.level (zeroId lsp.lspId)) := hback
      rw [hfind,hz] at hback
      cases hback
    | some z' =>
      have hback : lsp.lspu=backPointer (a.find lsp.level (zeroId lsp.lspId)) := hback
      rw [hfind,hz] at hback
      cases hback
      obtain ⟨s,hs,-,-⟩ := ha.stored hfind
      exact heap_ne_none hs
  · obtain ⟨s,hs⟩ := ha.queued ⟨c,hc,queue,hqueue,hp⟩
    exact heap_ne_none hs

end

inductive DbStep where
  | lsp (checksum : Lsp→Octets 2) (level : IsisLevel) (c : QueueCircuit) (r : ReceivedLsp)
  | snp (checksum : IsisLsp→Octets 2) (level : IsisLevel) (c : IsisCircuit) (pdu : Snp)
  /-- `lsp_tick`, with the circuits whose queues may be filled. -/
  | tick (ready : IsisCircuit→Bool)
  | generate (checksum : Lsp→Octets 2) (level : IsisLevel) (remLifetime : Octets 2)
    (tlvs : List Byte) (rest : List (List Byte))
  | regenerate (checksum : Lsp→Octets 2) (level : IsisLevel) (remLifetime : Octets 2)
    (tlvs : List Byte) (rest : List (List Byte))
  /-- `lsp_purge_pseudo` on a host of either byte order. -/
  | purgePseudo (bigEndian : Bool) (checksum : Lsp→Octets 2) (level : IsisLevel) (id : LspId)
  | purgeNonExist (header : LspEntry) (lspBits : Byte)
  | searchAndDestroy (level : IsisLevel) (id : LspId)

namespace DbStep

def run : DbStep→Area→Option Area
  | lsp checksum level c r, a => processLsp checksum level c r a
  | snp checksum level c pdu, a => processSnp checksum level c pdu a
  | tick ready, a => lspTick ready a
  | generate checksum level remLifetime tlvs rest, a =>
    lspGenerate checksum level remLifetime tlvs rest a
  | regenerate checksum level remLifetime tlvs rest, a =>
    lspRegenerate checksum level remLifetime tlvs rest a
  | purgePseudo bigEndian checksum level id, a => lspPurgePseudo bigEndian checksum level id a
  | purgeNonExist header lspBits, a => lspPurgeNonExist header lspBits a
  | searchAndDestroy level id, a => lspSearchAndDestroy level id a

/-- A step puts no LSP beside its relatives without links, and ages related LSPs together. -/
def Ok : DbStep→Area→Prop
  | lsp _ level c r, a => lspAccepted level c r a=true →
    a.find level r.header.lspId=none → NewLspOk level r a
  | snp _ level c pdu, a => snpDiscarded level c pdu=none → EntriesAlone level pdu.lspEntries a
  | tick _, a => ∀ level, AgesTogether a level
  | generate _ level _ _ _, a => acceptLevel level a.isType →
    a.find level (ownLspId a.sysid)=none → Alone a level (ownLspId a.sysid)
  | purgeNonExist header lspBits, a => Alone a (purgeLevel lspBits) header.lspId
  | regenerate .., _ => True
  | purgePseudo .., _ => True
  | searchAndDestroy .., _ => True

theorem keeps {step : DbStep} {a a' : Area} (ha : Sound a) (hok : step.Ok a)
    (h : step.run a=some a') : Sound a' := by
  cases step with
  | lsp checksum level c r => exact (processLsp_keeps ha hok h).1
  | snp checksum level c pdu => exact (processSnp_keeps ha hok h).1
  | tick ready => exact (lspTick_sound ha hok h).1
  | generate checksum level remLifetime tlvs rest => exact (lspGenerate_keeps ha hok h).1
  | regenerate checksum level remLifetime tlvs rest => exact (lspRegenerate_keeps ha h).1
  | purgePseudo bigEndian checksum level id => exact ha.like (lspPurgePseudo_like (stored_of_sound ha) h)
  | purgeNonExist header lspBits => exact (lspPurgeNonExist_keeps ha hok h).1
  | searchAndDestroy level id => exact (lspSearchAndDestroy_sound ha h).1

end DbStep

def runSteps : List DbStep→Area→Option Area
  | [], a => some a
  | step::steps, a => (step.run a).bind (runSteps steps)

/-- Every step of a run is one that keeps the links. -/
def RunOk : List DbStep→Area→Prop
  | [], _ => True
  | step::steps, a => step.Ok a ∧ ∀ b, step.run a=some b → RunOk steps b

structure Initial (a : Area) : Prop where
  heap : ∀ p, a.heap p=none
  lspdb : ∀ level db, a.lspdb level=some db → db.entries=[]
  queues : ∀ c∈a.circuits, ∀ queue, c.lspQueue=some queue → queue=[]

section

variable {a a' : Area} {steps : List DbStep}

theorem Initial.find (h : Initial a) (level : IsisLevel) (id : LspId) : a.find level id=none := by
  cases hdb : a.lspdb level with
  | none => exact bind_eq_none_iff.mpr fun db hdb' => by rw [hdb] at hdb'; cases hdb'
  | some db =>
    rw [find_of_db hdb,OrderedMap.lookup,h.lspdb level db hdb]
    rfl

theorem Initial.sound (h : Initial a) : Sound a := by
  have hshape : ∀ p, shape a p=none := fun p => by
    rw [shape,h.heap]
    rfl
  refine ⟨fun p _ => hshape p,fun hfind => ?_,fun hs => ?_,fun hs => ?_,fun hs => ?_,?_⟩
  · rw [h.find] at hfind
    cases hfind
  · rw [hshape] at hs
    cases hs
  · rw [hshape] at hs
    cases hs
  · rw [hshape] at hs
    cases hs
  rintro p ⟨c,hc,queue,hqueue,hp⟩
  rw [h.queues c hc queue hqueue] at hp
  cases hp

theorem runSteps_sound (ha : Sound a) (hok : RunOk steps a) (h : runSteps steps a=some a') :
    Sound a' := by
  induction steps generalizing a with
  | nil =>
    obtain rfl := some.inj h
    exact ha
  | cons step steps ih =>
    obtain ⟨b,hb,h⟩ := bind_eq_some_iff.mp h
    exact ih (DbStep.keeps ha hok.1 hb) (hok.2 b hb) h

theorem RunOk.take (hok : RunOk steps a) (n : ℕ) : RunOk (steps.take n) a := by
  induction steps generalizing a n with
  | nil =>
    rw [List.take_nil]
    trivial
  | cons step steps ih =>
    cases n with
    | zero => trivial
    | succ n => exact ⟨hok.1,fun b hb => ih (hok.2 b hb) n⟩

/-- In every run without LSPs at first whose steps keep the links, databases are structured. -/
theorem lspDatabase_structured {steps : List DbStep} (ha : Initial a) (hok : RunOk steps a)
    (n : ℕ) (h : runSteps (steps.take n) a=some a') : Structured a' :=
  structured_of_sound (runSteps_sound ha.sound (hok.take n) h)

end

/-- A level 1 area with the system id 1. -/
def runArea : Area where
  sysid := ⟨[0,0,0,0,0,1],rfl⟩
  heap := fun _ => none
  next := 0
  lspdb := fun level => if level=.level1 then some OrderedMap.empty else none
  isType := 1
  overloadBit := 0
  maxLspLifetime := fun _ => 1200
  circuits := []

def runId (fragment : Byte) : LspId := ⟨[0,0,0,0,0,1,0,fragment],rfl⟩

/-- A broadcast circuit with an adjacency. -/
def runCircuit : QueueCircuit where
  circuit := ⟨0,by decide,1,false,true,fun _ => false,fun _ => [],false,1500,1500,
    fun _ => ⟨0,[],Nat.zero_le _,0⟩⟩
  adjUsage := .level1
  upadjcount := fun _ => 1
  lspQueue := some []

/-- A fragment that we sent before we were restarted. -/
def oldFragment : ReceivedLsp where
  header := ⟨⟨[4,176],rfl⟩,runId 1,⟨[0,0,0,5],rfl⟩,⟨[1,1],rfl⟩⟩
  lspBits := 1
  pduLen := ⟨[0,27],rfl⟩
  tlvs := []
  readable := 27
  endp := 27
  csumFails := false
  authFails := false
  snpaKnown := true

theorem runArea_initial : Initial runArea where
  heap := fun _ => rfl
  lspdb := by
    intro level db hdb
    cases level with
    | level1 => rw [←some.inj hdb]; rfl
    | level2 => cases hdb
  queues := fun c hc => by cases hc

/-- Our LSP is generated with a fragment, and again with two; then a fragment is destroyed. -/
def exampleSteps : List DbStep :=
  [.generate (fun _ => htons 1) .level1 (htons 1200) [] [[1]],
    .regenerate (fun _ => htons 1) .level1 (htons 1200) [] [[1],[2]],
    .searchAndDestroy .level1 (runId 2)]

theorem lspDatabase_structured_example : ∃ a, runSteps exampleSteps runArea=some a ∧
    Structured a ∧ (a.heap 0).map Lsp.refs=some [1] := by
  have hrun : (runSteps exampleSteps runArea).map (fun a => (a.heap 0).map Lsp.refs) =
      some (some [1]) := by decide +kernel
  obtain ⟨a,ha,hrefs⟩ := map_eq_some_iff.mp hrun
  have hok : RunOk exampleSteps runArea := by
    refine ⟨fun _ _ => ?_,fun _ _ => ⟨trivial,fun _ _ => ⟨trivial,fun _ _ => trivial⟩⟩⟩
    rw [Alone,if_pos (lspFragment_ownLspId _)]
    exact fun n _ => runArea_initial.find _ _
  exact ⟨a,ha,lspDatabase_structured runArea_initial hok 3 ha,hrefs⟩

/-- Our LSP is generated, and an old fragment of ours is received. -/
def restartSteps : List DbStep :=
  [.generate (fun _ => htons 1) .level1 (htons 1200) [] [],
    .lsp (fun _ => htons 1) .level1 runCircuit oldFragment]

/-- The old fragment is put into the database to be purged, and our zero LSP does not list
it. -/
theorem lspDatabase_unlisted : ¬∀ (a : Area) (steps : List DbStep) (a' : Area), Initial a →
    runSteps steps a=some a' → Structured a' := by
  intro h
  have hrun : (runSteps restartSteps runArea).map (fun a =>
      ((a.heap 0).map fun lsp => (lsp.lspId,lsp.refs),(a.heap 1).map Lsp.lspId,
        a.find .level1 (runId 0),a.find .level1 (runId 1))) =
      some (some (runId 0,[]),some (runId 1),some 0,some 1) := by decide +kernel
  obtain ⟨a,ha,hstate⟩ := map_eq_some_iff.mp hrun
  obtain ⟨hzero,hstate⟩ := Prod.mk.inj hstate
  obtain ⟨hfrag,hstate⟩ := Prod.mk.inj hstate
  obtain ⟨hzfind,hffind⟩ := Prod.mk.inj hstate
  obtain ⟨zero,hzheap,hzero⟩ := map_eq_some_iff.mp hzero
  obtain ⟨hzid,hrefs⟩ := Prod.mk.inj hzero
  obtain ⟨frag,hfheap,hfid⟩ := map_eq_some_iff.mp hfrag
  have hz := inDb_iff.mpr ⟨shape_of_heap hzheap,hzheap,hzid.symm ▸ hzfind⟩
  have hf := inDb_iff.mpr ⟨shape_of_heap hfheap,hfheap,hfid.symm ▸ hffind⟩
  obtain ⟨-,-,hmem⟩ := (h runArea restartSteps a runArea_initial ha).fragments .level1 0 zero hz
    (by rw [hzid]; decide)
  have hlisted := (hmem 1).mpr ⟨frag,hf,by rw [hfid,hzid]; decide,by rw [hfid]; decide⟩
  rw [hrefs] at hlisted
  cases hlisted

end RoutePlatform.LspRuns
