import RoutePlatform.LspChanges

/-!
# The timer of the database

`lsp_tick` ages every LSP and takes those out whose time has come. It does not look at the
links, so they stay sound when a zero LSP and its fragments go at the same time.
-/

namespace RoutePlatform.LspAgeing

open NetworkBytes SnpOperations OrderedMaps LspOperations LspInvariant LspRemoval LspChanges
  List Option

variable {a b a' : Area} {level : IsisLevel} {p : Ref} {es : List (LspId × Ref)}
  {lspList : List Ref} {heap : Ref→Option Lsp} (circuits : List QueueCircuit) (lsp : Lsp)

/-- An LSP ages out in the next second. -/
def Expires (lsp : Lsp) : Prop :=
  if netValue lsp.header.remLifetime.bytes=0 then lsp.ageOut≤1 else lsp.ageOut=0

instance (lsp : Lsp) : Decidable (Expires lsp) :=
  inferInstanceAs (Decidable (if netValue lsp.header.remLifetime.bytes=0 then lsp.ageOut≤1
    else lsp.ageOut=0))

/-- The LSP at an address ages out. -/
def ExpiresAt (a : Area) (p : Ref) : Prop := ∃ lsp, a.heap p=some lsp ∧ Expires lsp

/-- A fragment in the database of a level ages out when its zero LSP does. -/
def AgesTogether (a : Area) (level : IsisLevel) : Prop :=
  ∀ id z p, a.find level (zeroId id)=some z → a.find level id=some p →
    (ExpiresAt a z ↔ ExpiresAt a p)

theorem lspSetTime_ageOut : (lspSetTime lsp).ageOut=0 ↔ Expires lsp := by
  rw [lspSetTime,Expires]
  split
  case isTrue => exact Nat.sub_eq_zero_iff_le
  case isFalse => exact Iff.rfl

theorem tickLsp_ageOut : (tickLsp circuits lsp).ageOut=0 ↔ Expires lsp := by
  rw [←lspSetTime_ageOut,tickLsp]
  split <;> exact Iff.rfl

theorem shapeOf_tickLsp : shapeOf (tickLsp circuits lsp)=shapeOf lsp := by
  have htime : shapeOf (lspSetTime lsp)=shapeOf lsp := by
    rw [lspSetTime]
    split <;> rfl
  rw [tickLsp]
  split <;> exact htime

section

variable {D : Ref→Prop}

theorem stored_of_like (h : Like a b) (hst : Stored a) : Stored b := by
  intro level id p hfind
  rw [h.find] at hfind
  rw [h.shape]
  exact hst level id p hfind

theorem dropped_of_like (h : Like a b) (h' : Dropped b a' D) : Dropped a a' D where
  gone := h'.gone
  kept := fun p hp => (h'.kept p hp).trans (h.shape p)
  find := by
    intro level id p
    rw [h'.find,h.find]
  next := h'.next.trans h.next
  queued := fun p hp => (h'.queued p hp).imp_left (h.queued p)
  sysid := h'.sysid.trans h.sysid

structure Ticked (level : IsisLevel) (es : List (LspId × Ref)) (a a' : Area) : Prop where
  dropped : Dropped a a' fun p => (∃ e∈es, e.2=p) ∧ ExpiresAt a p
  heap : ∀ p, (∀ e∈es, e.2≠p) → a'.heap p=a.heap p

theorem Ticked.cons (e : LspId × Ref) (hone : Dropped a b fun p => p=e.2 ∧ ExpiresAt a p)
    (hheap : ∀ p, p≠e.2 → b.heap p=a.heap p) (hne : ∀ f∈es, f.2≠e.2) (h : Ticked level es b a') :
    Ticked level (e::es) a a' where
  dropped := by
    refine (hone.trans h.dropped).congr fun p => ?_
    constructor
    · rintro (⟨rfl,hp⟩|⟨⟨f,hf,rfl⟩,hp⟩)
      · exact ⟨⟨e,.head _,rfl⟩,hp⟩
      rw [ExpiresAt,hheap _ (hne f hf)] at hp
      exact ⟨⟨f,mem_cons_of_mem e hf,rfl⟩,hp⟩
    · rintro ⟨⟨f,hf,rfl⟩,hp⟩
      rcases mem_cons.mp hf with rfl|hf
      · exact Or.inl ⟨rfl,hp⟩
      refine Or.inr ⟨⟨f,hf,rfl⟩,?_⟩
      rw [ExpiresAt,hheap _ (hne f hf)]
      exact hp
  heap := by
    intro p hp
    rw [h.heap p fun f hf => hp f (mem_cons_of_mem e hf)]
    exact hheap p (hp e mem_cons_self).symm

/-- The loop, and the LSPs that are to be sent. -/
theorem tickLoop_ticked {r : List Ref × Area} (hst : Stored a)
    (hfind : ∀ e∈es, a.find level e.1=some e.2) (hsrt : es.Pairwise fun e f => e.1<f.1)
    (h : tickLoop level es lspList a=some r) :
    Ticked level es a r.2 ∧ (∀ p∈r.1, p∈lspList ∨ ∃ s, shape r.2 p=some s) := by
  induction es generalizing a lspList with
  | nil =>
    obtain rfl := some.inj h
    refine ⟨⟨(Dropped.refl a).congr fun p => ?_,fun _ _ => rfl⟩,fun p hp => Or.inl hp⟩
    exact iff_of_false not_false (by rintro ⟨⟨e,he,-⟩,-⟩; cases he)
  | cons e es ih =>
    obtain ⟨hlow,hsrt⟩ := pairwise_cons.mp hsrt
    have hefind := hfind e mem_cons_self
    obtain ⟨lsp,hlsp,-,-⟩ := lsp_of_stored hst hefind
    have hne : ∀ f∈es, f.2≠e.2 := by
      intro f hf heq
      have hffind := hfind f (mem_cons_of_mem e hf)
      rw [heq] at hffind
      exact (hlow f hf).ne' (hst.unique hefind hffind).2
    have hlike := set_like hlsp (shapeOf_tickLsp a.circuits lsp)
    have hset : ∀ p, p≠e.2 → (a.set e.2 (tickLsp a.circuits lsp)).heap p=a.heap p :=
      fun _ hp => Function.update_of_ne hp _ _
    rw [tickLoop,hlsp] at h
    cases hdb : a.lspdb level with
    | none =>
      rw [hdb] at h
      cases h
    | some db =>
      rw [hdb] at h
      dsimp only at h
      split at h
      case isTrue hage =>
        have hexp : ExpiresAt a e.2 := ⟨lsp,hlsp,(tickLsp_ageOut _ _).mp hage⟩
        obtain ⟨b,hb,h⟩ := bind_eq_some_iff.mp h
        have hspec := lspDestroy_spec hb
        have hone := dropped_of_like hlike (hspec.dropped (stored_of_like hlike hst) hdb
          ((hlike.find _ _).trans hefind))
        obtain ⟨hticked,hlist⟩ := ih (hone.toStored hst) (fun f hf => (hone.find _ _ _).mpr
          ⟨hfind f (mem_cons_of_mem e hf),hne f hf⟩) hsrt h
        refine ⟨Ticked.cons e (hone.congr fun p => ?_) (fun p hp => ?_) hne hticked,hlist⟩
        · exact ⟨fun hp => ⟨hp,hp ▸ hexp⟩,fun hp => hp.1⟩
        · exact (hspec.heap p hp).trans (hset p hp)
      case isFalse hage =>
        have hexp : ¬ExpiresAt a e.2 := by
          rintro ⟨lsp',hlsp',hexp⟩
          rw [hlsp] at hlsp'
          obtain rfl := some.inj hlsp'
          exact hage ((tickLsp_ageOut _ _).mpr hexp)
        obtain ⟨hticked,hlist⟩ := ih (stored_of_like hlike hst) (fun f hf =>
          (hlike.find _ _).trans (hfind f (mem_cons_of_mem e hf))) hsrt h
        have hone : Dropped a (a.set e.2 (tickLsp a.circuits lsp))
            fun p => p=e.2 ∧ ExpiresAt a p := by
          refine (dropped_of_like hlike (Dropped.refl _)).congr fun p => iff_of_false not_false ?_
          rintro ⟨rfl,hp⟩
          exact hexp hp
        refine ⟨Ticked.cons e hone hset hne hticked,fun p hp => ?_⟩
        rcases hlist p hp with hp|hp
        · split at hp
          · rcases mem_append.mp hp with hp|hp
            · exact Or.inl hp
            refine Or.inr ⟨shapeOf lsp,?_⟩
            rw [mem_singleton.mp hp,hticked.dropped.kept,hlike.shape,shape_of_heap hlsp]
            rintro ⟨⟨f,hf,heq⟩,-⟩
            exact hne f hf heq
          · exact Or.inl hp
        · exact Or.inr hp

end

section

variable {ready : IsisCircuit→Bool}

theorem mem_addToSend {c : QueueCircuit} {queue : List Ref} (h : p∈addToSend heap c lspList queue) :
    p∈queue ∨ p∈lspList := by
  induction lspList generalizing queue with
  | nil => exact Or.inl h
  | cons q lspList ih =>
    rcases ih h with hp|hp
    · dsimp only at hp
      split at hp
      · rcases mem_append.mp hp with hp|hp
        · exact Or.inl hp
        · exact Or.inr (mem_singleton.mp hp ▸ .head _)
      · exact Or.inl hp
    · exact Or.inr (mem_cons_of_mem q hp)

theorem queued_enqueue
    (h : Queued {a with circuits := a.circuits.map (enqueue heap lspList ready)} p) :
    Queued a p ∨ p∈lspList := by
  obtain ⟨c',hc',queue',hqueue',hp⟩ := h
  obtain ⟨c,hc,rfl⟩ := mem_map.mp hc'
  rw [enqueue] at hqueue'
  split at hqueue'
  · obtain ⟨queue,hqueue,rfl⟩ := map_eq_some_iff.mp hqueue'
    exact (mem_addToSend hp).imp_left fun hp => ⟨c,hc,queue,hqueue,hp⟩
  · exact Or.inl ⟨c,hc,queue',hqueue',hp⟩

theorem Ticked.sound (h : Ticked level es a a') (ha : Sound a)
    (hes : ∀ id p, a.find level id=some p ↔ ∃ e∈es, e.1=id ∧ e.2=p) (hage : AgesTogether a level) :
    Sound a' := by
  have hst := stored_of_sound ha
  have hmem : ∀ p s, shape a p=some s → ((∃ e∈es, e.2=p) ↔ s.level=level) := by
    intro p s hs
    have hlive := ha.live hs
    constructor
    · rintro ⟨e,he,rfl⟩
      exact (hst.unique ((hes e.1 e.2).mpr ⟨e,he,rfl,rfl⟩) hlive).1
    · intro hlev
      rw [hlev] at hlive
      obtain ⟨e,he,-,hp⟩ := (hes _ _).mp hlive
      exact ⟨e,he,hp⟩
  have hsame : ∀ p s, shape a p=some s → lspFragment s.id=0 →
      ∀ q t, shape a q=some t → FragmentOf t s.level s.id →
      ((∃ e∈es, e.2=p) ∧ ExpiresAt a p ↔ (∃ e∈es, e.2=q) ∧ ExpiresAt a q) := by
    rintro p s hs-q t ht ⟨hlev,hid,-⟩
    rw [hmem p s hs,hmem q t ht,hlev]
    refine and_congr_right fun hl => hage t.id p q ?_ ?_
    · rw [hid,←hl]
      exact ha.live hs
    rw [←hl,←hlev]
    exact ha.live ht
  refine (h.dropped.removed fun p s hs hp q hq hqD => ?_).sound ha ?_
  · obtain ⟨hz,t,ht,hof⟩ := mem_refs ha hs hq
    exact hp ((hsame p s hs hz q t ht hof).mpr hqD)
  rintro p s hs hz hp q ⟨t,ht,hof⟩
  exact (hsame p s hs hz q t ht hof).mp hp

/-- What the timer does for a level, when it has a database. -/
theorem tickLevel_spec (ha : Sound a) (hage : AgesTogether a level)
    (h : tickLevel ready level a=some a') :
    Sound a' ∧ a'.sysid=a.sysid ∧ ∀ level', level'≠level → ∀ id p,
      a'.find level' id=some p → a.find level' id=some p ∧ a'.heap p=a.heap p := by
  rw [tickLevel] at h
  cases hdb : a.lspdb level with
  | none =>
    rw [hdb] at h
    obtain rfl := some.inj h
    exact ⟨ha,rfl,fun _ _ _ _ hp => ⟨hp,rfl⟩⟩
  | some db =>
    rw [hdb] at h
    obtain ⟨r,hr,rfl⟩ := map_eq_some_iff.mp h
    have hst := stored_of_sound ha
    have hes : ∀ id p, a.find level id=some p ↔ ∃ e∈db.entries, e.1=id ∧ e.2=p := by
      intro id p
      rw [find_of_db hdb,←OrderedMap.mem_entries_iff]
      constructor
      · exact fun hmem => ⟨(id,p),hmem,rfl,rfl⟩
      · rintro ⟨e,he,rfl,rfl⟩
        exact he
    have hentry : ∀ e∈db.entries, a.find level e.1=some e.2 := fun e he =>
      (hes e.1 e.2).mpr ⟨e,he,rfl,rfl⟩
    obtain ⟨hticked,hlist⟩ := tickLoop_ticked hst hentry db.sorted hr
    have hsound := hticked.sound ha hes hage
    refine ⟨⟨hsound.fresh,hsound.stored,hsound.live,hsound.zero,hsound.frag,fun hp => ?_⟩,
      hticked.dropped.sysid,fun level' hlev id p hp => ?_⟩
    · rcases queued_enqueue hp with hp|hp
      · exact hsound.queued hp
      · exact (hlist _ hp).resolve_left not_mem_nil
    have hp := ((hticked.dropped.find level' id p).mp hp).1
    refine ⟨hp,hticked.heap p fun e he heq => hlev ?_⟩
    have hfind := hentry e he
    rw [heq] at hfind
    exact (hst.unique hfind hp).1

theorem lspTick_sound (ha : Sound a) (hage : ∀ level, AgesTogether a level)
    (h : lspTick ready a=some a') : Sound a' ∧ a'.sysid=a.sysid := by
  obtain ⟨b,hb,h⟩ := bind_eq_some_iff.mp h
  obtain ⟨hsound,hsysid,hoth⟩ := tickLevel_spec ha (hage .level1) hb
  have hage' : AgesTogether b .level2 := by
    intro id z p hz hp
    obtain ⟨hz,hzheap⟩ := hoth .level2 nofun _ _ hz
    obtain ⟨hp,hpheap⟩ := hoth .level2 nofun _ _ hp
    rw [ExpiresAt,ExpiresAt,hzheap,hpheap]
    exact hage .level2 id z p hz hp
  obtain ⟨hsound',hsysid',-⟩ := tickLevel_spec hsound hage' h
  exact ⟨hsound',hsysid'.trans hsysid⟩

end

end RoutePlatform.LspAgeing
