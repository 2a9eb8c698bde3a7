import RoutePlatform.LspInvariant

/-!
# LSPs are taken out of the database

The links stay sound when a set of LSPs goes with every fragment of a zero LSP in it, and
the lists that remain lose what went. `lsp_search_and_destroy` takes out a fragment with its
place in the list, or a zero LSP with all its fragments.
-/

namespace RoutePlatform.LspRemoval

open SnpOperations OrderedMaps LspOperations LspInvariant Function List Option

variable {s : Shape} {p : Ref} {refs : List Ref} {q : Ref}

structure Kept (D : Ref→Prop) (s s' : Shape) : Prop where
  id : s'.id=s.id
  level : s'.level=s.level
  frag : lspFragment s.id≠0 → s'.lspu=s.lspu
  list : IsList s.lspu → IsList s'.lspu
  sub : (refsOf s'.lspu).Sublist (refsOf s.lspu)
  mem : ∀ q, q∈refsOf s'.lspu ↔ q∈refsOf s.lspu ∧ ¬D q

structure Removed (a a' : Area) (D : Ref→Prop) : Prop where
  gone : ∀ p, D p → shape a' p=none
  kept : ∀ p, ¬D p → Option.Rel (Kept D) (shape a p) (shape a' p)
  find : ∀ level id p, a'.find level id=some p ↔ a.find level id=some p ∧ ¬D p
  next : a'.next=a.next
  queued : ∀ p, Queued a' p → Queued a p ∧ ¬D p
  sysid : a'.sysid=a.sysid

/-- The fragments of a zero LSP go with it. -/
def Closed (a : Area) (D : Ref→Prop) : Prop :=
  ∀ p s, shape a p=some s → lspFragment s.id=0 → D p →
    ∀ q, (∃ t, shape a q=some t ∧ FragmentOf t s.level s.id) → D q

section

variable {a a' : Area} {D : Ref→Prop}

variable (h : Removed a a' D)
include h

theorem Removed.before {s' : Shape} (hs : shape a' p=some s') :
    ¬D p ∧ ∃ s, shape a p=some s ∧ Kept D s s' := by
  have hp : ¬D p := fun hp => by
    rw [h.gone p hp] at hs
    cases hs
  have hrel := h.kept p hp
  rw [hs] at hrel
  cases hshape : shape a p with
  | none =>
    rw [hshape] at hrel
    cases hrel
  | some s =>
    rw [hshape] at hrel
    cases hrel with
    | some hkept => exact ⟨hp,s,rfl,hkept⟩

theorem Removed.after (hs : shape a p=some s) (hp : ¬D p) :
    ∃ s', shape a' p=some s' ∧ Kept D s s' := by
  have hrel := h.kept p hp
  rw [hs] at hrel
  cases hshape : shape a' p with
  | none =>
    rw [hshape] at hrel
    cases hrel
  | some s' =>
    rw [hshape] at hrel
    cases hrel with
    | some hkept => exact ⟨s',rfl,hkept⟩

theorem Removed.fragment_iff {level : IsisLevel} {id : LspId} :
    (∃ t, shape a' q=some t ∧ FragmentOf t level id) ↔
      (∃ t, shape a q=some t ∧ FragmentOf t level id) ∧ ¬D q := by
  constructor
  · rintro ⟨t',ht',hlev,hid,hfrag⟩
    obtain ⟨hq,t,ht,hkept⟩ := h.before ht'
    rw [hkept.level] at hlev
    rw [hkept.id] at hid hfrag
    exact ⟨⟨t,ht,hlev,hid,hfrag⟩,hq⟩
  · rintro ⟨⟨t,ht,hlev,hid,hfrag⟩,hq⟩
    obtain ⟨t',ht',hkept⟩ := h.after ht hq
    rw [←hkept.level] at hlev
    rw [←hkept.id] at hid hfrag
    exact ⟨t',ht',hlev,hid,hfrag⟩

/-- The links stay sound when the fragments of a zero LSP go with it. -/
theorem Removed.sound (ha : Sound a) (hclosed : Closed a D) : Sound a' where
  fresh := by
    intro p hp
    rw [h.next] at hp
    by_contra hne
    obtain ⟨s',hs'⟩ := ne_none_iff_exists'.mp hne
    obtain ⟨-,s,hs,-⟩ := h.before hs'
    rw [ha.fresh p hp] at hs
    cases hs
  stored := by
    intro level id p hfind
    obtain ⟨hfind,hp⟩ := (h.find level id p).mp hfind
    obtain ⟨s,hs,hid,hlev⟩ := ha.stored hfind
    obtain ⟨s',hs',hkept⟩ := h.after hs hp
    exact ⟨s',hs',hkept.id.trans hid,hkept.level.trans hlev⟩
  live := by
    intro p s' hs'
    obtain ⟨hp,s,hs,hkept⟩ := h.before hs'
    rw [hkept.id,hkept.level]
    exact (h.find _ _ _).mpr ⟨ha.live hs,hp⟩
  zero := by
    intro p s' hs' hzero
    obtain ⟨hp,s,hs,hkept⟩ := h.before hs'
    rw [hkept.id] at hzero
    obtain ⟨hlist,hnd,hmem⟩ := ha.zero hs hzero
    refine ⟨hkept.list hlist,hkept.sub.nodup hnd,fun q => ?_⟩
    rw [hkept.mem,hmem,hkept.level,hkept.id]
    exact h.fragment_iff.symm
  frag := by
    intro p s' hs' hfrag
    obtain ⟨hp,s,hs,hkept⟩ := h.before hs'
    rw [hkept.id] at hfrag
    rw [hkept.frag hfrag,ha.frag hs hfrag,hkept.id,hkept.level]
    congr 1
    apply ext
    intro z
    rw [h.find]
    refine ⟨fun hz => ⟨hz,fun hD => hp ?_⟩,fun hz => hz.1⟩
    obtain ⟨t,ht,hid,hlev⟩ := ha.stored hz
    refine hclosed z t ht ?_ hD p ⟨s,hs,hlev.symm,hid.symm,hfrag⟩
    rw [hid]
    exact lspFragment_zeroId s.id
  queued := by
    intro p hp
    obtain ⟨hp,hD⟩ := h.queued p hp
    obtain ⟨s,hs⟩ := ha.queued hp
    obtain ⟨s',hs',-⟩ := h.after hs hD
    exact ⟨s',hs'⟩

end

/-- Some LSPs were taken out, and no other was changed. -/
structure Dropped (a a' : Area) (D : Ref→Prop) : Prop where
  gone : ∀ p, D p → shape a' p=none
  kept : ∀ p, ¬D p → shape a' p=shape a p
  find : ∀ level id p, a'.find level id=some p ↔ a.find level id=some p ∧ ¬D p
  next : a'.next=a.next
  queued : ∀ p, Queued a' p → Queued a p ∧ ¬D p
  sysid : a'.sysid=a.sysid

/-- What is stored is there, under its id. -/
def Stored (a : Area) : Prop :=
  ∀ level id p, a.find level id=some p → ∃ s, shape a p=some s ∧ s.id=id ∧ s.level=level

section

variable {a b c : Area} {D E : Ref→Prop}

theorem stored_of_sound (ha : Sound a) : Stored a := fun _ _ _ hfind => ha.stored hfind

theorem Stored.unique (h : Stored a) {level level' : IsisLevel} {id id' : LspId}
    (hfind : a.find level id=some p) (hfind' : a.find level' id'=some p) :
    level'=level ∧ id'=id := by
  obtain ⟨s,hs,hid,hlev⟩ := h _ _ _ hfind
  obtain ⟨s',hs',hid',hlev'⟩ := h _ _ _ hfind'
  rw [hs] at hs'
  obtain rfl := some.inj hs'
  exact ⟨hlev'.symm.trans hlev,hid'.symm.trans hid⟩

theorem Dropped.toStored (h : Dropped a b D) (ha : Stored a) : Stored b := by
  intro level id p hfind
  obtain ⟨hfind,hp⟩ := (h.find level id p).mp hfind
  rw [h.kept p hp]
  exact ha level id p hfind

theorem Dropped.refl (a : Area) : Dropped a a fun _ => False where
  gone := fun _ h => h.elim
  kept := fun _ _ => rfl
  find := fun _ _ _ => (and_iff_left not_false).symm
  next := rfl
  queued := fun _ h => ⟨h,not_false⟩
  sysid := rfl

theorem Dropped.trans (h : Dropped a b D) (h' : Dropped b c E) :
    Dropped a c fun p => D p ∨ E p where
  gone := by
    intro p hp
    by_cases hE : E p
    · exact h'.gone p hE
    rw [h'.kept p hE]
    exact h.gone p (hp.resolve_right hE)
  kept := by
    intro p hp
    rw [not_or] at hp
    rw [h'.kept p hp.2,h.kept p hp.1]
  find := by
    intro level id p
    rw [h'.find,h.find,not_or,and_assoc]
  next := h'.next.trans h.next
  queued := by
    intro p hp
    obtain ⟨hb,hE⟩ := h'.queued p hp
    obtain ⟨ha,hD⟩ := h.queued p hb
    exact ⟨ha,not_or.mpr ⟨hD,hE⟩⟩
  sysid := h'.sysid.trans h.sysid

theorem Dropped.congr (h : Dropped a b D) (hDE : ∀ p, D p ↔ E p) : Dropped a b E := by
  have heq : D=E := funext fun p => propext (hDE p)
  rw [←heq]
  exact h

theorem Kept.refl (h : ∀ q∈refsOf s.lspu, ¬D q) : Kept D s s where
  id := rfl
  level := rfl
  frag := fun _ => rfl
  list := fun hlist => hlist
  sub := List.Sublist.refl _
  mem := fun q => ⟨fun hq => ⟨hq,h q hq⟩,fun hq => hq.1⟩

theorem Dropped.removed (h : Dropped a b D)
    (hlists : ∀ p s, shape a p=some s → ¬D p → ∀ q∈refsOf s.lspu, ¬D q) :
    Removed a b D where
  gone := h.gone
  kept := by
    intro p hp
    rw [h.kept p hp]
    cases hs : shape a p with
    | none => exact Option.Rel.none
    | some s => exact Option.Rel.some (Kept.refl (hlists p s hs hp))
  find := h.find
  next := h.next
  queued := h.queued
  sysid := h.sysid

end

section

variable {a a' : Area} {level : IsisLevel} {id : LspId} {p : Ref} {db : OrderedMap LspId Ref}

theorem find_of_db (hdb : a.lspdb level=some db) (id : LspId) : a.find level id=db.lookup id := by
  change (a.lspdb level).bind _=_
  rw [hdb]
  rfl

theorem find_setDb (a : Area) (level level' : IsisLevel) (db : OrderedMap LspId Ref)
    (id : LspId) : (a.setDb level db).find level' id =
      if level'=level then db.lookup id else a.find level' id := by
  change (update a.lspdb level (some db) level').bind _=_
  by_cases hlev : level'=level
  · rw [if_pos hlev,hlev,update_self]
    rfl
  rw [if_neg hlev,update_of_ne hlev]
  rfl

/-- What is found after an entry was erased. -/
theorem find_erase (hst : Stored a) (hdb : a.lspdb level=some db)
    (hfind : a.find level id=some p) (level' : IsisLevel) (id' : LspId) (q : Ref) :
    (a.setDb level (db.erase id)).find level' id'=some q ↔ a.find level' id'=some q ∧ q≠p := by
  rw [find_setDb]
  split
  case isTrue hlev =>
    rw [OrderedMap.lookup_erase,←find_of_db hdb,hlev]
    split
    case isTrue hid =>
      rw [hid,hfind]
      exact iff_of_false nofun fun h => h.2 (some.inj h.1).symm
    case isFalse hid =>
      refine (and_iff_left_of_imp ?_).symm
      rintro hq rfl
      exact hid (hst.unique hfind hq).2
  case isFalse hlev =>
    refine (and_iff_left_of_imp ?_).symm
    rintro hq rfl
    exact hlev (hst.unique hfind hq).1

theorem queued_drop {circuits : List QueueCircuit}
    (h : ∃ c∈circuits.map (QueueCircuit.drop p), ∃ queue, c.lspQueue=some queue ∧ q∈queue) :
    (∃ c∈circuits, ∃ queue, c.lspQueue=some queue ∧ q∈queue) ∧ q≠p := by
  obtain ⟨c',hc',queue',hqueue',hq⟩ := h
  obtain ⟨c,hc,rfl⟩ := mem_map.mp hc'
  obtain ⟨queue,hqueue,rfl⟩ := map_eq_some_iff.mp hqueue'
  obtain ⟨hq,hne⟩ := mem_filter.mp hq
  exact ⟨⟨c,hc,queue,hqueue,hq⟩,of_decide_eq_true hne⟩

/-- What `lsp_destroy` leaves. -/
structure Destroyed (a a' : Area) (p : Ref) : Prop where
  heap : ∀ q, q≠p → a'.heap q=a.heap q
  shape : ∀ q, shape a' q=if q=p then none else shape a q
  lspdb : a'.lspdb=a.lspdb
  next : a'.next=a.next
  queued : ∀ q, Queued a' q → Queued a q ∧ q≠p
  sysid : a'.sysid=a.sysid

theorem shape_update {heap : Ref→Option Lsp} {o : Option Lsp} (q : Ref) :
    (update heap p o q).map shapeOf =
      if q=p then o.map shapeOf else (heap q).map shapeOf := by
  by_cases hq : q=p
  · rw [if_pos hq,hq,update_self]
  · rw [if_neg hq,update_of_ne hq]

theorem lspDestroy_spec (h : lspDestroy p a=some a') : Destroyed a a' p := by
  rw [lspDestroy] at h
  split at h
  · cases h
  rename_i lsp hheap
  obtain rfl := some.inj h
  exact ⟨fun _ hq => update_of_ne hq _ _,shape_update,rfl,rfl,fun _ => queued_drop,rfl⟩

theorem Destroyed.find (h : Destroyed a a' p) (level : IsisLevel) (id : LspId) :
    a'.find level id=a.find level id := by
  change (a'.lspdb level).bind _=_
  rw [h.lspdb]
  rfl

theorem Destroyed.dropped (h : Destroyed a a' p) (hst : Stored a) (hdb : a.lspdb level=some db)
    (hfind : a.find level id=some p) :
    Dropped a (a'.setDb level (db.erase id)) fun q => q=p where
  gone := fun q hq => (h.shape q).trans (if_pos hq)
  kept := fun q hq => (h.shape q).trans (if_neg hq)
  find := by
    intro level' id' q
    rw [←find_erase hst hdb hfind,find_setDb,find_setDb,h.find]
  next := h.next
  queued := h.queued
  sysid := h.sysid

theorem lspRemoveFrags_dropped (hst : Stored a) (hnd : refs.Nodup)
    (hrefs : ∀ q∈refs, ∃ s, shape a q=some s ∧ a.find level s.id=some q)
    (h : lspRemoveFrags level refs a=some a') : Dropped a a' fun q => q∈refs := by
  induction refs generalizing a with
  | nil =>
    obtain rfl := some.inj h
    exact (Dropped.refl a).congr fun q => (iff_false_intro not_mem_nil).symm
  | cons q refs ih =>
    rw [lspRemoveFrags] at h
    obtain ⟨s,hs,hfind⟩ := hrefs q mem_cons_self
    obtain ⟨lsp,hlsp,rfl⟩ := map_eq_some_iff.mp hs
    cases hdb : a.lspdb level with
    | none =>
      rw [hlsp,hdb] at h
      cases h
    | some db =>
      have hlk : db.lookup lsp.lspId=some q := by
        rw [←find_of_db hdb]
        exact hfind
      rw [hlsp,hdb] at h
      dsimp only at h
      rw [hlk] at h
      obtain ⟨b,hb,h⟩ := bind_eq_some_iff.mp h
      have hone := (lspDestroy_spec hb).dropped hst hdb hfind
      obtain ⟨hq,hnd⟩ := nodup_cons.mp hnd
      have hrs := ih (hone.toStored hst) hnd (fun r hr => by
        have hne : r≠q := fun heq => hq (heq ▸ hr)
        obtain ⟨t,ht,htfind⟩ := hrefs r (mem_cons_of_mem q hr)
        exact ⟨t,(hone.kept r hne).trans ht,(hone.find _ _ _).mpr ⟨htfind,hne⟩⟩) h
      exact (hone.trans hrs).congr fun r => mem_cons.symm

end

section

variable {a b a' : Area} {level : IsisLevel} {id : LspId} {p : Ref} {db : OrderedMap LspId Ref}

section

variable (ha : Sound a) {s : Shape} {q : Ref} (hs : shape a p=some s) (hq : q∈refsOf s.lspu)
include ha hs hq

theorem mem_refs : lspFragment s.id=0 ∧ ∃ t, shape a q=some t ∧ FragmentOf t s.level s.id := by
  by_cases hz : lspFragment s.id=0
  · exact ⟨hz,((ha.zero hs hz).2.2 q).mp hq⟩
  rw [ha.frag hs hz] at hq
  cases hfind : a.find s.level (zeroId s.id) with
  | none | some z =>
    rw [hfind] at hq
    cases hq

theorem zero_of_mem_refs {t : Shape} (ht : shape a q=some t) :
    a.find t.level (zeroId t.id)=some p := by
  obtain ⟨-,t',ht',hlev,hid,-⟩ := mem_refs ha hs hq
  rw [ht] at ht'
  obtain rfl := some.inj ht'
  rw [hlev,hid]
  exact ha.live hs

end

section

variable (ha : Sound a) (hdb : a.lspdb level=some db) (hfind : a.find level id=some p)
include ha hdb hfind

/-- A zero LSP is taken out with its fragments. -/
theorem removed_zero (hs : shape a p=some s) (hzero : lspFragment s.id=0)
    (hrem : lspRemoveFrags level (refsOf s.lspu) (a.setDb level (db.erase id))=some b)
    (hdestroy : lspDestroy p b=some a') :
    Removed a a' (fun q => q∈refsOf s.lspu ∨ q=p) ∧ Closed a fun q => q∈refsOf s.lspu ∨ q=p := by
  have hst := stored_of_sound ha
  obtain ⟨s',hs',hid,hlev⟩ := ha.stored hfind
  rw [hs] at hs'
  obtain rfl := some.inj hs'
  obtain ⟨-,hnd,hmem⟩ := ha.zero hs hzero
  have hfrag : ∀ q t, q∈refsOf s.lspu ∨ q=p → shape a q=some t → lspFragment t.id=0 → q=p := by
    intro q t hq ht htzero
    refine hq.resolve_left fun hq => ?_
    obtain ⟨t',ht',hof⟩ := (hmem q).mp hq
    rw [ht] at ht'
    obtain rfl := some.inj ht'
    exact hof.2.2 htzero
  have herase := find_erase hst hdb hfind
  have hdropped := lspRemoveFrags_dropped (a := a.setDb level (db.erase id))
    (fun level' id' q hq => hst _ _ _ ((herase level' id' q).mp hq).1) hnd (fun q hq => by
      obtain ⟨t,ht,htlevel,-,htfrag⟩ := (hmem q).mp hq
      refine ⟨t,ht,(herase _ _ _).mpr ⟨?_,?_⟩⟩
      · rw [←hlev,←htlevel]
        exact ha.live ht
      · rintro rfl
        rw [hs] at ht
        obtain rfl := some.inj ht
        exact htfrag hzero) hrem
  have hspec := lspDestroy_spec hdestroy
  have hall : Dropped a a' fun q => q∈refsOf s.lspu ∨ q=p := by
    refine ⟨fun q hq => ?_,fun q hq => ?_,fun level' id' q => ?_,
      hspec.next.trans hdropped.next,fun q hq => ?_,hspec.sysid.trans hdropped.sysid⟩
    · rw [hspec.shape]
      by_cases hqp : q=p
      · exact if_pos hqp
      rw [if_neg hqp]
      exact hdropped.gone q (hq.resolve_right hqp)
    · rw [not_or] at hq
      rw [hspec.shape,if_neg hq.2]
      exact hdropped.kept q hq.1
    · rw [hspec.find,hdropped.find,herase,not_or,and_assoc,and_comm (a := q≠p)]
    obtain ⟨hq,hqp⟩ := hspec.queued q hq
    obtain ⟨hq,hqrefs⟩ := hdropped.queued q hq
    exact ⟨hq,not_or.mpr ⟨hqrefs,hqp⟩⟩
  refine ⟨hall.removed ?_,?_⟩
  · intro p' s' hs' hp' q hq hD
    obtain ⟨hs'zero,t,ht,hof⟩ := mem_refs ha hs' hq
    rcases hD with hD|rfl
    · have hz := zero_of_mem_refs ha hs hD ht
      rw [zero_of_mem_refs ha hs' hq ht] at hz
      exact hp' (Or.inr (some.inj hz))
    rw [hs] at ht
    obtain rfl := some.inj ht
    exact hof.2.2 hzero
  intro p' s' hs' hs'zero hp' q hq
  obtain rfl := hfrag p' s' hp' hs' hs'zero
  rw [hs] at hs'
  obtain rfl := some.inj hs'
  exact Or.inl ((hmem q).mpr hq)

/-- A fragment that no list has goes alone. -/
theorem removed_unlisted (hnone : a.find level (zeroId id)=none)
    (hdestroy : lspDestroy p (a.setDb level (db.erase id))=some a') :
    Removed a a' fun q => q=p := by
  have hst := stored_of_sound ha
  have hspec := lspDestroy_spec hdestroy
  have hall : Dropped a a' fun q => q=p := by
    refine ⟨fun q hq => (hspec.shape q).trans (if_pos hq),
      fun q hq => (hspec.shape q).trans (if_neg hq),fun level' id' q => ?_,hspec.next,
      hspec.queued,hspec.sysid⟩
    rw [hspec.find]
    exact find_erase hst hdb hfind level' id' q
  refine hall.removed fun p' s' hs' _ q hq hqp => ?_
  obtain ⟨s,hs,hid,hlev⟩ := ha.stored hfind
  rw [hqp] at hq
  have hz := zero_of_mem_refs ha hs' hq hs
  rw [hid,hlev,hnone] at hz
  cases hz

/-- A fragment goes with its place in the list. -/
theorem removed_listed {z : Ref} {zero : Lsp} (hz : a.find level (zeroId id)=some z)
    (hzero : a.heap z=some zero) (hrefs : zero.lspu=.frags refs) (hdestroy : lspDestroy p
      ((a.setDb level (db.erase id)).set z {zero with lspu := .frags (refs.erase p)})=some a') :
    Removed a a' fun q => q=p := by
  have hst := stored_of_sound ha
  have hspec := lspDestroy_spec hdestroy
  have hzshape : shape a z=some (shapeOf zero) := by
    rw [shape,hzero]
    rfl
  obtain ⟨s,hs,hid,hlev⟩ := ha.stored hfind
  have hnd : refs.Nodup := by
    obtain ⟨t,ht,htid,-⟩ := ha.stored hz
    rw [hzshape] at ht
    obtain rfl := some.inj ht
    have h := (ha.zero hzshape (by rw [htid]; exact lspFragment_zeroId id)).2.1
    change (refsOf zero.lspu).Nodup at h
    rw [hrefs] at h
    exact h
  refine ⟨fun q hq => (hspec.shape q).trans (if_pos hq),fun q hq => ?_,fun level' id' q => ?_,
    hspec.next,hspec.queued,hspec.sysid⟩
  · rw [hspec.shape,if_neg hq]
    change Option.Rel _ _ ((update a.heap z _ q).map shapeOf)
    rw [shape_update]
    split
    case isTrue hqz =>
      rw [hqz,hzshape]
      refine Option.Rel.some ⟨rfl,rfl,fun hfrag => ?_,fun _ => Or.inr ⟨_,rfl⟩,?_,?_⟩
      · obtain ⟨t,ht,htid,-⟩ := ha.stored hz
        rw [hzshape] at ht
        obtain rfl := some.inj ht
        rw [htid] at hfrag
        exact (hfrag (lspFragment_zeroId id)).elim
      · change (refs.erase p).Sublist (refsOf zero.lspu)
        rw [hrefs]
        exact erase_sublist
      intro r
      change r∈refs.erase p ↔ r∈refsOf zero.lspu ∧ r≠p
      rw [hrefs,hnd.mem_erase_iff]
      exact and_comm
    case isFalse hqz =>
      change Option.Rel _ (shape a q) (shape a q)
      cases hq' : shape a q with
      | none => exact Option.Rel.none
      | some t =>
        refine Option.Rel.some (Kept.refl fun r hr hrp => hqz ?_)
        rw [hrp] at hr
        have hz' := zero_of_mem_refs ha hq' hr hs
        rw [hid,hlev,hz] at hz'
        exact (some.inj hz').symm
  · rw [hspec.find]
    exact find_erase hst hdb hfind level' id' q

end

theorem closed_fragment (ha : Sound a) (hfind : a.find level id=some p)
    (hfrag : lspFragment id≠0) : Closed a fun q => q=p := by
  rintro p' s hs hz rfl
  obtain ⟨t,ht,hid,-⟩ := ha.stored hfind
  rw [hs] at ht
  obtain rfl := some.inj ht
  rw [hid] at hz
  exact (hfrag hz).elim

/-- What `lsp_search_and_destroy` takes out. -/
theorem lspSearchAndDestroy_removed (ha : Sound a) (h : lspSearchAndDestroy level id a=some a') :
    ∃ D, Removed a a' D ∧ Closed a D ∧ ∀ p, a.find level id=some p → D p := by
  rw [lspSearchAndDestroy] at h
  split at h
  · cases h
  rename_i db hdb
  have hfind := find_of_db hdb id
  cases hlk : db.lookup id with
  | none =>
    rw [hlk] at h hfind
    obtain rfl := some.inj h
    refine ⟨fun _ => False,(Dropped.refl a).removed fun _ _ _ _ _ _ hq => hq,
      fun _ _ _ _ hp => hp.elim,fun p hp => ?_⟩
    rw [hfind] at hp
    cases hp
  | some p =>
    rw [hlk] at h hfind
    dsimp only at h
    obtain ⟨s,hs,hid,hlev⟩ := ha.stored hfind
    obtain ⟨lsp,hlsp,rfl⟩ := map_eq_some_iff.mp hs
    have hid : lsp.lspId=id := hid
    have hlev : lsp.level=level := hlev
    have hheap : (a.setDb level (db.erase id)).heap p=some lsp := hlsp
    have hself : ∀ q, a.find level id=some q → q=p := fun q hq => by
      rw [hfind] at hq
      exact (some.inj hq).symm
    rw [hheap] at h
    dsimp only at h
    split at h
    case isTrue hzero =>
      have hgoes : ∃ b, lspRemoveFrags level (refsOf lsp.lspu) (a.setDb level (db.erase id)) =
          some b ∧ lspDestroy p b=some a' := by
        rcases (ha.zero hs hzero).1 with hnull|⟨refs,hrefs⟩
        · have hnull : lsp.lspu=.null := hnull
          rw [hnull] at h
          rw [hnull]
          exact ⟨_,rfl,h⟩
        have hrefs : lsp.lspu=.frags refs := hrefs
        rw [hrefs] at h
        rw [hrefs]
        exact bind_eq_some_iff.mp h
      obtain ⟨b,hrem,hdestroy⟩ := hgoes
      obtain ⟨hremoved,hclosed⟩ := removed_zero ha hdb hfind hs hzero hrem hdestroy
      exact ⟨_,hremoved,hclosed,fun q hq => Or.inr (hself q hq)⟩
    case isFalse hfrag =>
      have hlspu : lsp.lspu=backPointer (a.find level (zeroId id)) := by
        have h := ha.frag hs hfrag
        change lsp.lspu=backPointer (a.find lsp.level (zeroId lsp.lspId)) at h
        rw [hid,hlev] at h
        exact h
      rw [hid] at hfrag
      refine ⟨fun q => q=p,?_,closed_fragment ha hfind hfrag,hself⟩
      cases hz : a.find level (zeroId id) with
      | none =>
        rw [hz] at hlspu
        rw [hlspu] at h
        exact removed_unlisted ha hdb hfind hz h
      | some z =>
        rw [hz] at hlspu
        rw [hlspu] at h
        obtain ⟨t,ht,htid,htlevel⟩ := ha.stored hz
        obtain ⟨zero,hzero,rfl⟩ := map_eq_some_iff.mp ht
        have hzheap : (a.setDb level (db.erase id)).heap z=some zero := hzero
        dsimp only [backPointer] at h
        rw [hzheap] at h
        have hmem : p∈refsOf zero.lspu := by
          refine ((ha.zero ht (by rw [htid]; exact lspFragment_zeroId id)).2.2 p).mpr
            ⟨_,hs,hlev.trans htlevel.symm,?_,?_⟩
          · rw [htid,←hid]
            rfl
          change lspFragment lsp.lspId≠0
          rw [hid]
          exact hfrag
        cases hrefs : zero.lspu with
        | null | zeroLsp q =>
          rw [hrefs] at hmem
          cases hmem
        | frags refs =>
          dsimp only at h
          rw [hrefs] at h
          exact removed_listed ha hdb hfind hz hzero hrefs h

theorem lspSearchAndDestroy_absent (hnone : a.find level id=none)
    (h : lspSearchAndDestroy level id a=some a') : a'=a := by
  rw [lspSearchAndDestroy] at h
  split at h
  · cases h
  rename_i db hdb
  rw [find_of_db hdb] at hnone
  rw [hnone] at h
  exact (some.inj h).symm

theorem lspSearchAndDestroy_sound (ha : Sound a) (h : lspSearchAndDestroy level id a=some a') :
    Sound a' ∧ a'.sysid=a.sysid ∧ a'.find level id=none := by
  obtain ⟨D,hrem,hclosed,hself⟩ := lspSearchAndDestroy_removed ha h
  refine ⟨hrem.sound ha hclosed,hrem.sysid,?_⟩
  by_contra hne
  obtain ⟨p,hp⟩ := ne_none_iff_exists'.mp hne
  obtain ⟨hp,hD⟩ := (hrem.find level id p).mp hp
  exact hD (hself p hp)

theorem lspSearchAndDestroy_alone (ha : Sound a) (hz : lspFragment id=0)
    (hfind : a.find level id≠none) (h : lspSearchAndDestroy level id a=some a') (q : Ref)
    (t : Shape) (ht : shape a' q=some t) : ¬FragmentOf t level id := by
  intro hof
  obtain ⟨D,hrem,hclosed,hself⟩ := lspSearchAndDestroy_removed ha h
  obtain ⟨hq,hD⟩ := hrem.fragment_iff.mp ⟨t,ht,hof⟩
  obtain ⟨p,hp⟩ := ne_none_iff_exists'.mp hfind
  obtain ⟨s,hs,hid,hlev⟩ := ha.stored hp
  rw [←hid] at hz
  rw [←hid,←hlev] at hq
  exact hD (hclosed p s hs hz (hself p hp) q hq)

end

end RoutePlatform.LspRemoval
