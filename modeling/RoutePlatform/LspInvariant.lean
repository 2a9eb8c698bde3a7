import RoutePlatform.LspOperations

/-!
# The links between LSPs

The links are sound when every LSP is in the database of its level, a zero LSP lists its fragments
and each of these points back. Two rules carry the proofs: an LSP is put into the database, and
some are taken out.
-/

namespace RoutePlatform.LspInvariant

open TlvOperations SnpOperations LspOperations List Option

variable {q : Ref} (id : LspId) (n : Byte)

section

theorem length_take_seven : (id.bytes.take 7).length=7 := by
  rw [length_take,id.length_eq]
  rfl

theorem lspFragment_withFragment : lspFragment (withFragment id n)=n := by
  have hlen := length_take_seven id
  change (id.bytes.take 7++[n]).getD 7 0=n
  rw [getD_append_right _ _ _ _ (by omega),hlen]
  rfl

theorem withFragment_withFragment (m n : Byte) :
    withFragment (withFragment id m) n=withFragment id n := by
  have hlen := length_take_seven id
  have htake : (id.bytes.take 7++[m]).take 7=id.bytes.take 7 := by
    rw [take_append_of_le_length (by omega),take_take]
    rfl
  change (⟨(id.bytes.take 7++[m]).take 7++[n],_⟩ : LspId)=⟨id.bytes.take 7++[n],_⟩
  congr 1
  rw [htake]

theorem withFragment_self : withFragment id (lspFragment id)=id := by
  obtain ⟨bytes,hlen⟩ := id
  have hlast : bytes.getD 7 0=bytes[7] := getD_eq_getElem _ _ _
  have htake : bytes.take 7++[bytes.getD 7 0]=bytes := by
    rw [hlast,take_append_getElem,take_of_length_le (by omega)]
  change (⟨bytes.take 7++[bytes.getD 7 0],_⟩ : LspId)=⟨bytes,_⟩
  congr 1

theorem zeroId_withFragment : zeroId (withFragment id n)=zeroId id :=
  withFragment_withFragment id n 0

theorem lspFragment_zeroId : lspFragment (zeroId id)=0 := lspFragment_withFragment id 0

theorem zeroId_of_zero {id : LspId} (h : lspFragment id=0) : zeroId id=id := by
  have hself := withFragment_self id
  rw [h] at hself
  exact hself

end

structure Shape where
  id : LspId
  level : IsisLevel
  lspu : Lspu

def shapeOf (lsp : Lsp) : Shape := ⟨lsp.lspId,lsp.level,lsp.lspu⟩

/-- The shape of the LSP at an address. -/
def shape (a : Area) (p : Ref) : Option Shape := (a.heap p).map shapeOf

/-- An LSP is in the queue of a circuit. -/
def Queued (a : Area) (p : Ref) : Prop := ∃ c∈a.circuits, ∃ queue, c.lspQueue=some queue ∧ p∈queue

def backPointer : Option Ref→Lspu
  | none => .null
  | some z => .zeroLsp z

def refsOf : Lspu→List Ref
  | .frags refs => refs
  | _ => []

/-- The union of a zero LSP. -/
def IsList (lspu : Lspu) : Prop := lspu=.null ∨ ∃ refs, lspu=.frags refs

/-- A fragment of the LSP with an id. -/
def FragmentOf (s : Shape) (level : IsisLevel) (id : LspId) : Prop :=
  s.level=level ∧ zeroId s.id=id ∧ lspFragment s.id≠0

structure Sound (a : Area) : Prop where
  fresh : ∀ p, a.next≤p → shape a p=none
  /-- An LSP is stored under its id in the database of its level. -/
  stored : ∀ {level id p}, a.find level id=some p → ∃ s, shape a p=some s ∧ s.id=id ∧ s.level=level
  live : ∀ {p s}, shape a p=some s → a.find s.level s.id=some p
  zero : ∀ {p s}, shape a p=some s → lspFragment s.id=0 → IsList s.lspu ∧ (refsOf s.lspu).Nodup ∧
      ∀ q, q∈refsOf s.lspu ↔ ∃ t, shape a q=some t ∧ FragmentOf t s.level s.id
  frag : ∀ {p s}, shape a p=some s → lspFragment s.id≠0 →
    s.lspu=backPointer (a.find s.level (zeroId s.id))
  queued : ∀ {p}, Queued a p → ∃ s, shape a p=some s

structure Like (a a' : Area) : Prop where
  shape : ∀ p, shape a' p=shape a p
  find : ∀ level id, a'.find level id=a.find level id
  next : a'.next=a.next
  queued : ∀ p, Queued a' p → Queued a p
  sysid : a'.sysid=a.sysid

section

variable {a b c : Area}

theorem Like.refl (a : Area) : Like a a := ⟨fun _ => rfl,fun _ _ => rfl,rfl,fun _ h => h,rfl⟩

theorem Like.trans (h : Like a b) (h' : Like b c) : Like a c where
  shape := fun p => (h'.shape p).trans (h.shape p)
  find := fun level id => (h'.find level id).trans (h.find level id)
  next := h'.next.trans h.next
  queued := fun p hp => h.queued p (h'.queued p hp)
  sysid := h'.sysid.trans h.sysid

theorem Sound.like (h : Sound a) (hl : Like a b) : Sound b where
  fresh := by
    intro p hp
    rw [hl.next] at hp
    rw [hl.shape]
    exact h.fresh p hp
  stored := by
    intro level id p hp
    rw [hl.find] at hp
    rw [hl.shape]
    exact h.stored hp
  live := by
    intro p s hp
    rw [hl.shape] at hp
    rw [hl.find]
    exact h.live hp
  zero := by
    intro p s hp hs
    rw [hl.shape] at hp
    simp only [hl.shape]
    exact h.zero hp hs
  frag := by
    intro p s hp hs
    rw [hl.shape] at hp
    rw [hl.find]
    exact h.frag hp hs
  queued := by
    intro p hp
    rw [hl.shape]
    exact h.queued (hl.queued p hp)

end

/-- A zero LSP with another fragment. -/
def addRef (p : Ref) (s : Shape) : Shape := {s with lspu := .frags (refsOf s.lspu++[p])}

/-- An LSP was put into a database: a fragment is linked with its zero LSP. -/
structure Put (a a' : Area) (level : IsisLevel) (id : LspId) (lspu : Lspu) (p : Ref) : Prop where
  new : shape a p=none
  absent : a.find level id=none
  fresh : ∀ q, a'.next≤q → shape a' q=none
  self : shape a' p=some ⟨id,level,lspu⟩
  other : ∀ q, q≠p → shape a' q =
    if lspFragment id≠0 ∧ a.find level (zeroId id)=some q then (shape a q).map (addRef p)
    else shape a q
  find : ∀ level' id', a'.find level' id' =
    if level'=level ∧ id'=id then some p else a.find level' id'
  queued : ∀ q, Queued a' q → Queued a q
  zero : lspFragment id=0 → IsList lspu ∧ refsOf lspu=[]
  frag : lspFragment id≠0 → lspu=backPointer (a.find level (zeroId id))
  sysid : a'.sysid=a.sysid

variable {s : Shape}

section

variable {a a' : Area} {level : IsisLevel} {id : LspId} {lspu : Lspu} {p : Ref}

section

variable (hput : Put a a' level id lspu p)
include hput

theorem Put.other_iff (hq : q≠p) (P : LspId→IsisLevel→Prop) :
    (∃ s, shape a' q=some s ∧ P s.id s.level) ↔ ∃ s, shape a q=some s ∧ P s.id s.level := by
  rw [hput.other q hq]
  split
  · cases shape a q with
    | none => exact Iff.rfl
    | some s =>
      constructor
      · rintro ⟨t,ht,hP⟩
        rw [←some.inj ht] at hP
        exact ⟨s,rfl,hP⟩
      · rintro ⟨t,ht,hP⟩
        rw [←some.inj ht] at hP
        exact ⟨addRef p s,rfl,hP⟩
  · exact Iff.rfl

theorem Put.ne_of_shape (h : shape a q=some s) : q≠p := by
  rintro rfl
  rw [hput.new] at h
  cases h

theorem Put.find_of_ne {level' : IsisLevel} {id' : LspId}
    (h : ¬(level'=level ∧ id'=id)) : a'.find level' id'=a.find level' id' := by
  rw [hput.find,if_neg h]

theorem Put.not_mem_refs (ha : Sound a) (h : shape a q=some s) (hz : lspFragment s.id=0) :
    p ∉ refsOf s.lspu := by
  intro hmem
  obtain ⟨t,ht,-⟩ := ((ha.zero h hz).2.2 p).mp hmem
  rw [hput.new] at ht
  cases ht

theorem Put.zero_addRef (ha : Sound a) (hfrag : lspFragment id≠0) (h : shape a q=some s)
    (hid : s.id=zeroId id) (hlev : s.level=level) :
    (refsOf (addRef p s).lspu).Nodup ∧ ∀ r, r∈refsOf (addRef p s).lspu ↔
      ∃ t, shape a' r=some t ∧ FragmentOf t s.level s.id := by
  have hs : lspFragment s.id=0 := by rw [hid]; exact lspFragment_zeroId id
  have hnew := hput.not_mem_refs ha h hs
  obtain ⟨-,hnd,hmem⟩ := ha.zero h hs
  refine ⟨nodup_append.mpr ⟨hnd,nodup_singleton p,?_⟩,fun r => ?_⟩
  · intro x hx y hy hxy
    rw [mem_singleton.mp hy] at hxy
    rw [hxy] at hx
    exact hnew hx
  change r∈refsOf s.lspu++[p] ↔ _
  rw [mem_append,mem_singleton]
  by_cases hr : r=p
  · refine ⟨fun _ => ⟨⟨id,level,lspu⟩,?_,hlev.symm,hid.symm,hfrag⟩,fun _ => Or.inr hr⟩
    rw [hr]
    exact hput.self
  have hoth := hput.other_iff hr fun id' level' =>
    level'=s.level ∧ zeroId id'=s.id ∧ lspFragment id'≠0
  rw [or_iff_left hr,hmem]
  exact hoth.symm

theorem Put.zero_kept (ha : Sound a) (h : shape a q=some s) (hs : lspFragment s.id=0)
    (hlink : ¬(lspFragment id≠0 ∧ a.find level (zeroId id)=some q)) (r : Ref) :
    r∈refsOf s.lspu ↔ ∃ t, shape a' r=some t ∧ FragmentOf t s.level s.id := by
  by_cases hr : r=p
  · rw [hr,iff_false_left (hput.not_mem_refs ha h hs)]
    rintro ⟨t,ht,hlev,hid,hfrag⟩
    rw [hput.self] at ht
    rw [←some.inj ht] at hlev hid hfrag
    refine hlink ⟨hfrag,?_⟩
    have hlive := ha.live h
    rw [←hlev,←hid] at hlive
    exact hlive
  have hoth := hput.other_iff hr fun id' level' =>
    level'=s.level ∧ zeroId id'=s.id ∧ lspFragment id'≠0
  rw [(ha.zero h hs).2.2]
  exact hoth.symm

end

/-- The links stay sound when an LSP is put in, a zero LSP only without fragments. -/
theorem Sound.put (ha : Sound a) (hput : Put a a' level id lspu p)
    (halone : lspFragment id=0 → ∀ q s, shape a q=some s → ¬FragmentOf s level id) :
    Sound a' where
  fresh := hput.fresh
  stored := by
    intro level' id' q hfind
    rw [hput.find] at hfind
    split at hfind
    case isTrue hkey =>
      rw [←some.inj hfind,hkey.1,hkey.2]
      exact ⟨_,hput.self,rfl,rfl⟩
    case isFalse =>
      obtain ⟨s,hs,hid,hlev⟩ := ha.stored hfind
      exact (hput.other_iff (hput.ne_of_shape hs) fun i l => i=id' ∧ l=level').mpr ⟨s,hs,hid,hlev⟩
  live := by
    intro q s hs
    by_cases hq : q=p
    · rw [hq,hput.self] at hs
      rw [←some.inj hs,hput.find,if_pos ⟨rfl,rfl⟩,hq]
    obtain ⟨t,ht,hid,hlev⟩ := (hput.other_iff hq fun i l => i=s.id ∧ l=s.level).mp ⟨s,hs,rfl,rfl⟩
    have hlive := ha.live ht
    rw [hid,hlev] at hlive
    rw [hput.find_of_ne ?_]
    · exact hlive
    rintro ⟨hl,hi⟩
    rw [hl,hi,hput.absent] at hlive
    cases hlive
  zero := by
    intro q s hs hz
    by_cases hq : q=p
    · rw [hq,hput.self] at hs
      obtain rfl := some.inj hs
      obtain ⟨hlist,hrefs⟩ := hput.zero hz
      rw [hrefs]
      refine ⟨hlist,nodup_nil,fun r => iff_of_false not_mem_nil ?_⟩
      rintro ⟨t,ht,hfrag⟩
      by_cases hr : r=p
      · rw [hr,hput.self] at ht
        rw [←some.inj ht] at hfrag
        exact hfrag.2.2 hz
      obtain ⟨t',ht',hfrag'⟩ := (hput.other_iff hr fun i l =>
        l=level ∧ zeroId i=id ∧ lspFragment i≠0).mp ⟨t,ht,hfrag⟩
      exact halone hz r t' ht' hfrag'
    · rw [hput.other q hq] at hs
      split at hs
      case isTrue hlink =>
        obtain ⟨t,ht,rfl⟩ := map_eq_some_iff.mp hs
        obtain ⟨t',ht',hid,hlev⟩ := ha.stored hlink.2
        rw [ht] at ht'
        obtain rfl := some.inj ht'
        exact ⟨Or.inr ⟨_,rfl⟩,hput.zero_addRef ha hlink.1 ht hid hlev⟩
      case isFalse hlink =>
        obtain ⟨hlist,hnd,-⟩ := ha.zero hs hz
        exact ⟨hlist,hnd,hput.zero_kept ha hs hz hlink⟩
  frag := by
    intro q s hs hfrag
    by_cases hq : q=p
    · rw [hq,hput.self] at hs
      obtain rfl := some.inj hs
      rw [hput.find_of_ne]
      · exact hput.frag hfrag
      rintro ⟨-,hid⟩
      rw [←hid] at hfrag
      exact hfrag (lspFragment_zeroId id)
    rw [hput.other q hq] at hs
    split at hs
    case isTrue hlink =>
      obtain ⟨t,ht,rfl⟩ := map_eq_some_iff.mp hs
      obtain ⟨t',ht',hid,-⟩ := ha.stored hlink.2
      rw [ht] at ht'
      have hid : (addRef p t).id=zeroId id := by rw [some.inj ht']; exact hid
      rw [hid] at hfrag
      exact (hfrag (lspFragment_zeroId id)).elim
    case isFalse =>
      rw [hput.find_of_ne]
      · exact ha.frag hs hfrag
      rintro ⟨hlev,hid⟩
      have hz : lspFragment id=0 := by rw [←hid]; exact lspFragment_zeroId s.id
      exact halone hz q s hs ⟨hlev,hid,hfrag⟩
  queued := by
    intro q hq
    obtain ⟨s,hs⟩ := ha.queued (hput.queued q hq)
    obtain ⟨t,ht,-⟩ := (hput.other_iff (hput.ne_of_shape hs) fun _ _ => True).mpr ⟨s,hs,trivial⟩
    exact ⟨t,ht⟩

end

end RoutePlatform.LspInvariant
