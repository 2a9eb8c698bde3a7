import Mathlib

/-!
# Objects with counted locks

Every place that refers to an object holds one lock of it, and the object is released with its
last lock. Locks are labelled with the place that took them. A heap is sound when the holders of
an object are the places that refer to it; the rules say what every operation does to a sound
heap.
-/

namespace RoutePlatform.ObjectLocks

open Function List Option

variable {σ ι β : Type*}

inductive Fault where
  /-- An object is used that is not there, for instance since it was released. -/
  | released
  | misused
  | aborted
  deriving DecidableEq, Repr

/-- An object and the places that hold a lock of it. -/
structure Cell (σ β : Type*) where
  body : β
  holders : List σ

/-- The objects by their addresses, and what every place refers to. -/
structure Heap (σ ι β : Type*) where
  cell : ι→Option (Cell σ β)
  place : σ→Option ι

def Heap.read (s : Heap σ ι β) (p : ι) : Option β := (s.cell p).map Cell.body

/-- The locks of the object at an address. -/
def Heap.locks (s : Heap σ ι β) (p : ι) : List σ := ((s.cell p).map Cell.holders).getD []

theorem Heap.cell_of_read {s : Heap σ ι β} {p : ι} {b : β} (h : s.read p=some b) :
    ∃ hs, s.cell p=some ⟨b,hs⟩ := by
  obtain ⟨c,hc,hb⟩ := map_eq_some_iff.mp h
  exact ⟨c.holders,by rw [hc,←hb]⟩

variable [DecidableEq σ] [DecidableEq ι]

def Heap.modify (s : Heap σ ι β) (p : ι) (f : β→β) : Except Fault (Heap σ ι β) :=
  match s.cell p with
  | none => .error .released
  | some c => .ok {s with cell := update s.cell p (some {c with body := f c.body})}

/-- A place takes a lock of an object and refers to it from now on. -/
def Heap.lock (s : Heap σ ι β) (x : σ) (p : ι) : Except Fault (Heap σ ι β) :=
  match s.cell p with
  | none => .error .released
  | some c =>
    .ok { cell := update s.cell p (some {c with holders := x::c.holders})
          place := update s.place x (some p) }

/-- A place gives its lock back. The object goes with its last lock, which must be allowed. -/
def Heap.unlock (mayFree : β→Bool) (s : Heap σ ι β) (x : σ) : Except Fault (Heap σ ι β) :=
  match s.place x with
  | none => .ok s
  | some p =>
    match s.cell p with
    | none => .error .released
    | some c =>
      if x∈c.holders then
        if c.holders.erase x=[] then
          if mayFree c.body then
            .ok { cell := update s.cell p none
                  place := update s.place x none }
          else .error .aborted
        else
          .ok { cell := update s.cell p (some {c with holders := c.holders.erase x})
                place := update s.place x none }
      else .error .misused

/-- A new object; the place that it is made for has its first lock. -/
def Heap.alloc (s : Heap σ ι β) (x : σ) (p : ι) (b : β) : Heap σ ι β :=
  { cell := update s.cell p (some ⟨b,[x]⟩)
    place := update s.place x (some p) }

/-- The holders of an object are the places that refer to it. -/
structure Heap.Sound (s : Heap σ ι β) : Prop where
  placed : ∀ x p, s.place x=some p → (s.cell p).isSome
  held : ∀ p c, s.cell p=some c → c.holders≠[]
  /-- A place has one lock of what it refers to, and no other one. -/
  counted : ∀ p c x, s.cell p=some c → c.holders.count x=if s.place x=some p then 1 else 0

omit [DecidableEq σ] in
theorem Heap.read_update (s : Heap σ ι β) (place : σ→Option ι) (p : ι) (c : Option (Cell σ β)) :
    (⟨update s.cell p c,place⟩ : Heap σ ι β).read = update s.read p (c.map Cell.body) := by
  funext q
  change (update s.cell p c q).map Cell.body=_
  by_cases hqp : q=p
  · rw [hqp,update_self,update_self]
  rw [update_of_ne hqp,update_of_ne hqp]
  rfl

namespace Heap.Sound

variable {s : Heap σ ι β} {x : σ} {p : ι} {b : β}

section

variable (hs : s.Sound)
include hs

theorem live (hx : s.place x=some p) : ∃ b, s.read p=some b := by
  obtain ⟨c,hc⟩ := isSome_iff_exists.mp (hs.placed x p hx)
  exact ⟨c.body,by rw [read,hc,map_some]⟩

theorem exists_place (hb : s.read p=some b) : ∃ x, s.place x=some p := by
  obtain ⟨l,hc⟩ := cell_of_read hb
  obtain ⟨x,hx⟩ := exists_mem_of_ne_nil _ (hs.held p _ hc)
  refine ⟨x,by_contra fun hne => ?_⟩
  have hcnt := hs.counted p _ x hc
  rw [if_neg hne] at hcnt
  exact count_eq_zero.mp hcnt hx

theorem count_locks (hx : s.place x=some p) : (s.locks p).count x=1 := by
  obtain ⟨c,hc⟩ := isSome_iff_exists.mp (hs.placed x p hx)
  rw [locks,hc,map_some,getD_some,hs.counted p c x hc,if_pos hx]

/-- What an edit of one object and of the places that refer to it has to respect. -/
theorem edit {place : σ→Option ι} {c : Option (Cell σ β)}
    (haway : ∀ y q, q≠p → (place y=some q ↔ s.place y=some q))
    (hplaced : ∀ y, place y=some p → c.isSome)
    (hcell : ∀ d, c=some d → d.holders≠[] ∧
      ∀ y, d.holders.count y=if place y=some p then 1 else 0) :
    (⟨update s.cell p c,place⟩ : Heap σ ι β).Sound where
  placed y q hy := by
    dsimp only at hy ⊢
    by_cases hqp : q=p
    · rw [hqp,update_self]
      exact hplaced y (hqp ▸ hy)
    rw [update_of_ne hqp]
    exact hs.placed y q ((haway y q hqp).mp hy)
  held q d hq := by
    dsimp only at hq
    by_cases hqp : q=p
    · rw [hqp,update_self] at hq
      exact (hcell d hq).1
    rw [update_of_ne hqp] at hq
    exact hs.held q d hq
  counted q d y hq := by
    dsimp only at hq ⊢
    by_cases hqp : q=p
    · rw [hqp,update_self] at hq
      rw [hqp]
      exact (hcell d hq).2 y
    rw [update_of_ne hqp] at hq
    rw [hs.counted q d y hq,if_congr (haway y q hqp) rfl rfl]

omit [DecidableEq ι] hs in
theorem away {o : Option ι} (hx : ∀ q, q≠p → (o=some q ↔ s.place x=some q)) (y : σ) (q : ι)
    (hqp : q≠p) : update s.place x o y=some q ↔ s.place y=some q := by
  by_cases hyx : y=x
  · rw [hyx,update_self]
    exact hx q hqp
  rw [update_of_ne hyx]

theorem modify (hb : s.read p=some b) (f : β → β) :
    ∃ s', s.modify p f=.ok s' ∧ s'.Sound ∧ s'.place=s.place ∧
      s'.read=update s.read p (some (f b)) := by
  obtain ⟨l,hc⟩ := cell_of_read hb
  refine ⟨{s with cell := update s.cell p (some ⟨f b,l⟩)},?_,?_,rfl,?_⟩
  · rw [Heap.modify,hc]
  · refine hs.edit (fun _ _ _ => Iff.rfl) (fun _ _ => rfl) fun d hd => ?_
    cases hd
    exact ⟨hs.held p ⟨b,l⟩ hc,fun y => hs.counted p ⟨b,l⟩ y hc⟩
  · rw [read_update,map_some]

omit [DecidableEq ι] [DecidableEq σ] hs in
theorem ne_place (hx : s.place x=none) (q : ι) (hqp : q≠p) : some p=some q ↔ s.place x=some q := by
  rw [hx]
  exact iff_of_false (fun h => hqp (some.inj h).symm) nofun

theorem lock (hx : s.place x=none) (hb : s.read p=some b) :
    ∃ s', s.lock x p=.ok s' ∧ s'.Sound ∧ s'.place=update s.place x (some p) ∧ s'.read=s.read := by
  obtain ⟨l,hc⟩ := cell_of_read hb
  refine ⟨⟨update s.cell p (some ⟨b,x::l⟩),update s.place x (some p)⟩,?_,?_,rfl,?_⟩
  · rw [Heap.lock,hc]
  · refine hs.edit (away (ne_place hx)) (fun _ _ => rfl) fun d hd => ?_
    cases hd
    refine ⟨cons_ne_nil x l,fun y => ?_⟩
    have hcnt := hs.counted p _ y hc
    by_cases hyx : y=x
    · rw [hyx,hx,if_neg nofun] at hcnt
      rw [hyx,update_self,count_cons_self,hcnt,if_pos rfl]
    · rw [update_of_ne hyx,count_cons_of_ne fun h => hyx h.symm,hcnt]
  · rw [read_update,map_some,←hb,update_eq_self]

/-- A permitted unlock; everything that can still be read is as it was. -/
theorem unlock {mayFree : β → Bool} (hx : s.place x=some p)
    (hb : s.read p=some b) (hfree : (∀ y, y≠x → s.place y≠some p) → mayFree b=true) :
    ∃ s', s.unlock mayFree x=.ok s' ∧ s'.Sound ∧ s'.place=update s.place x none ∧
      (∀ q b', s'.read q=some b' → s.read q=some b') ∧
      (∀ q, q≠p → s'.read q=s.read q) := by
  obtain ⟨l,hc⟩ := cell_of_read hb
  have hmem : x∈l := by
    have hcnt := hs.counted p _ x hc
    rw [if_pos hx] at hcnt
    exact count_pos_iff.mp (by rw [hcnt]; exact one_pos)
  have hcnt : ∀ y, (l.erase x).count y=if update s.place x none y=some p then 1 else 0 := by
    intro y
    have hy := hs.counted p _ y hc
    by_cases hyx : y=x
    · rw [hyx,if_pos hx] at hy
      rw [hyx,count_erase_self,hy,update_self,if_neg nofun]
    rw [count_erase_of_ne hyx,hy,update_of_ne hyx]
  have haway := away (s := s) (x := x) (p := p) (o := none) fun q hqp => by
    rw [hx]
    exact iff_of_false nofun fun h => hqp (some.inj h).symm
  by_cases hlast : l.erase x=[]
  · have hoths : ∀ y, update s.place x none y≠some p := by
      intro y hy
      have hone := hcnt y
      rw [hlast,if_pos hy] at hone
      cases hone
    refine ⟨⟨update s.cell p none,update s.place x none⟩,?_,?_,rfl,?_,?_⟩
    · rw [Heap.unlock,hx]
      simp only [hc]
      rw [if_pos hmem,if_pos hlast,if_pos (hfree fun y hyx hy => hoths y ?_)]
      rw [update_of_ne hyx,hy]
    · exact hs.edit haway (fun y hy => absurd hy (hoths y)) nofun
    · intro q b' hq
      rw [read_update] at hq
      by_cases hqp : q=p
      · rw [hqp,update_self,map_none] at hq
        cases hq
      rw [update_of_ne hqp] at hq
      exact hq
    · intro q hqp
      rw [read_update,update_of_ne hqp]
  · have hread : ∀ q, (⟨update s.cell p (some ⟨b,l.erase x⟩),
        update s.place x none⟩ : Heap σ ι β).read q=s.read q := by
      intro q
      rw [read_update,map_some,←hb,update_eq_self]
    refine ⟨⟨update s.cell p (some ⟨b,l.erase x⟩),update s.place x none⟩,
      ?_,?_,rfl,fun q b' hq => (hread q).symm.trans hq,fun q _ => hread q⟩
    · rw [Heap.unlock,hx]
      simp only [hc]
      rw [if_pos hmem,if_neg hlast]
    refine hs.edit haway (fun _ _ => rfl) fun d hd => ?_
    cases hd
    exact ⟨hlast,hcnt⟩

theorem alloc (hx : s.place x=none) (hp : s.cell p=none) (b : β) :
    (s.alloc x p b).Sound ∧ (s.alloc x p b).place=update s.place x (some p) ∧
      (s.alloc x p b).read=update s.read p (some b) := by
  refine ⟨hs.edit (away (ne_place hx)) (fun _ _ => rfl) fun d hd => ?_,rfl,read_update s _ p _⟩
  cases hd
  refine ⟨cons_ne_nil x [],fun y => ?_⟩
  by_cases hyx : y=x
  · rw [hyx,update_self,if_pos rfl,count_singleton_self]
  have hy : s.place y≠some p := fun hy => by
    have hsome := hs.placed y p hy
    rw [hp] at hsome
    cases hsome
  rw [update_of_ne hyx,if_neg hy,count_eq_zero_of_not_mem fun h => hyx (mem_singleton.mp h)]

end

end Heap.Sound

/-- A heap without objects and references. -/
def Heap.empty : Heap σ ι β := ⟨fun _ => none,fun _ => none⟩

omit [DecidableEq ι] in
theorem Heap.empty_sound [DecidableEq ι] : (Heap.empty : Heap σ ι β).Sound :=
  ⟨fun _ _ h => absurd h (by simp [Heap.empty]),fun _ _ h => absurd h (by simp [Heap.empty]),
    fun _ _ _ h => absurd h (by simp [Heap.empty])⟩

/-- When one member refers to something else, the count changes by it. -/
theorem countP_replace {ν : Type*} {l : List ν} (hl : l.Nodup) {n : ν} (hn : n∈l)
    {f g : ν → Option ι} (hfg : ∀ m, m≠n → g m=f m) (p : ι) :
    ((l.countP fun m => g m=some p : ℕ) : ℤ)+(if f n=some p then 1 else 0) =
      (l.countP fun m => f m=some p : ℕ)+(if g n=some p then 1 else 0) := by
  induction l with
  | nil => cases hn
  | cons m rest ih =>
    obtain ⟨hm,hrs⟩ := nodup_cons.mp hl
    rcases mem_cons.mp hn with hnm|hnrest
    · subst hnm
      have hsame : (rest.countP fun m => g m=some p)=rest.countP fun m => f m=some p :=
        countP_congr fun k hk => by rw [hfg k fun h => hm (h ▸ hk)]
      rw [countP_cons,countP_cons,hsame]
      by_cases hf : f n=some p <;> by_cases hg : g n=some p <;> simp [hf,hg]
    have hmn : m≠n := fun h => hm (h ▸ hnrest)
    have := ih hrs hnrest
    rw [countP_cons,countP_cons,hfg m hmn]
    omega

end RoutePlatform.ObjectLocks
