import RoutePlatform.BabelSteps

/-!
# Babel: what the route table keeps

The slots are sorted by prefix and length, a slot lists routes to one prefix that differ in
neighbour or next hop, only its head may be installed, and a source counts its routes, besides the
references of a running function. Functions that reconsider routes only rearrange slots.
-/

namespace RoutePlatform.BabelRoutes

open SlotSearch List

variable {w w' w'' : World} {held : ℕ→ℕ} {p q i j : ℕ} {E : Env} {pfx : BitVec 128} {plen : ℕ}

/-- No source is older than `SOURCE_GC_TIME`. -/
def Fresh (w : World) : Prop := ∀ s∈w.srcs, w.now-sourceGcTime≤(w.source s).time

/-- An announced distance is feasible for a recorded one. -/
def FeasibleFor (seqno refmetric recordedSeqno recordedMetric : BitVec 16) : Prop :=
  infinity≤refmetric.toNat ∨ 0<seqnoCompare seqno recordedSeqno ∨
    recordedSeqno=seqno ∧ refmetric<recordedMetric

/-- A recorded pair got newer, or its metric did not grow. -/
def NotWorse (oldSeqno oldMetric newSeqno newMetric : BitVec 16) : Prop :=
  seqnoCompare oldSeqno newSeqno<0 ∨ newSeqno=oldSeqno ∧ newMetric≤oldMetric

/-- A recorded pair is at least as good as a pair that was sent. -/
def AtLeastAsGood (seqno metric sentSeqno sentMetric : BitVec 16) : Prop :=
  0<seqnoCompare seqno sentSeqno ∨ seqno=sentSeqno ∧ metric ≤ sentMetric

/-- Loop avoidance: a recorded pair is as good as the one sent, unless it is a newer retraction. -/
def Event.Sound : Event→Prop
  | .made _ seqno refmetric recordedSeqno recordedMetric =>
    FeasibleFor seqno refmetric recordedSeqno recordedMetric
  | .recorded _ sentSeqno sentMetric oldSeqno oldMetric newSeqno newMetric =>
    NotWorse oldSeqno oldMetric newSeqno newMetric ∧
      (AtLeastAsGood newSeqno newMetric sentSeqno sentMetric ↔
        sentMetric.toNat < infinity ∨ 0 ≤ seqnoCompare oldSeqno sentSeqno)
  | _ => True

/-- While no source is stale, the log grows by sound events and no source gets
stale. -/
def Logged (w w' : World) : Prop := Fresh w → Fresh w' ∧ ∃ es, w'.log=w.log++es ∧ ∀ e∈es, e.Sound

theorem Logged.refl (w : World) : Logged w w :=
  fun h => ⟨h,[],(append_nil _).symm,nofun⟩

theorem Logged.trans (h : Logged w w') (h' : Logged w' w'') : Logged w w'' := by
  intro hf
  obtain ⟨hf1,es1,hlog1,hs1⟩ := h hf
  obtain ⟨hf2,es2,hlog2,hs2⟩ := h' hf1
  refine ⟨hf2,es1++es2,by rw [hlog2,hlog1,append_assoc],fun e he => ?_⟩
  exact (mem_append.mp he).elim (hs1 e) (hs2 e)

/-- What every function that reconsiders routes leaves alone, and what it logs. -/
structure Frame (w w' : World) : Prop where
  id : ∀ s, (w'.source s).id=(w.source s).id
  pfx : ∀ s, (w'.source s).pfx=(w.source s).pfx
  plen : ∀ s, (w'.source s).plen=(w.source s).plen
  routeCount : ∀ s, (w'.source s).routeCount=(w.source s).routeCount
  srcs : w'.srcs=w.srcs
  now : w'.now=w.now
  maxRouteSlots : w'.maxRouteSlots=w.maxRouteSlots
  aborted : w'.aborted=w.aborted
  events : Logged w w'

theorem Frame.refl (w : World) : Frame w w :=
  ⟨fun _ => rfl,fun _ => rfl,fun _ => rfl,fun _ => rfl,rfl,rfl,rfl,rfl,Logged.refl w⟩

theorem Frame.trans (h : Frame w w') (h' : Frame w' w'') : Frame w w'' where
  id s := (h'.id s).trans (h.id s)
  pfx s := (h'.pfx s).trans (h.pfx s)
  plen s := (h'.plen s).trans (h.plen s)
  routeCount s := (h'.routeCount s).trans (h.routeCount s)
  srcs := h'.srcs.trans h.srcs
  now := h'.now.trans h.now
  maxRouteSlots := h'.maxRouteSlots.trans h.maxRouteSlots
  aborted := h'.aborted.trans h.aborted
  events := h.events.trans h'.events

/-- Routes and slots are untouched: only messages were sent. -/
structure Quiet (w w' : World) : Prop extends Frame w w' where
  route : w'.route=w.route
  slots : w'.slots=w.slots

theorem Quiet.refl (w : World) : Quiet w w := ⟨Frame.refl w,rfl,rfl⟩

theorem Quiet.trans (h : Quiet w w') (h' : Quiet w' w'') : Quiet w w'' :=
  ⟨h.toFrame.trans h'.toFrame,h'.route.trans h.route,h'.slots.trans h.slots⟩

/-- Metrics and seqnos of routes may have changed. -/
structure Steady (w w' : World) : Prop extends Frame w w' where
  src : ∀ p, (w'.route p).src=(w.route p).src
  neigh : ∀ p, (w'.route p).neigh=(w.route p).neigh
  nexthop : ∀ p, (w'.route p).nexthop=(w.route p).nexthop
  installed : ∀ p, (w'.route p).installed=(w.route p).installed
  slots : w'.slots=w.slots

/-- The routes of a slot may have changed places, and another one may be
installed. -/
structure Rearranged (w w' : World) : Prop extends Frame w w' where
  src : ∀ p, (w'.route p).src=(w.route p).src
  neigh : ∀ p, (w'.route p).neigh=(w.route p).neigh
  nexthop : ∀ p, (w'.route p).nexthop=(w.route p).nexthop
  length : w'.slots.length=w.slots.length
  perm : ∀ i, (w.slot i).Perm (w'.slot i)

theorem Quiet.steady (h : Quiet w w') : Steady w w' :=
  ⟨h.toFrame,fun _ => by rw [h.route],fun _ => by rw [h.route],fun _ => by rw [h.route],
    fun _ => by rw [h.route],h.slots⟩

theorem Steady.slot (h : Steady w w') (i : ℕ) : w'.slot i=w.slot i := by
  rw [World.slot,World.slot,h.slots]

theorem Steady.trans (h : Steady w w') (h' : Steady w' w'') : Steady w w'' :=
  ⟨h.toFrame.trans h'.toFrame,fun p => (h'.src p).trans (h.src p),
    fun p => (h'.neigh p).trans (h.neigh p),fun p => (h'.nexthop p).trans (h.nexthop p),
    fun p => (h'.installed p).trans (h.installed p),h'.slots.trans h.slots⟩

theorem Steady.rearranged (h : Steady w w') : Rearranged w w' :=
  ⟨h.toFrame,h.src,h.neigh,h.nexthop,by rw [h.slots],fun i => by rw [h.slot]⟩

theorem Rearranged.refl (w : World) : Rearranged w w := (Quiet.refl w).steady.rearranged

theorem Rearranged.trans (h : Rearranged w w') (h' : Rearranged w' w'') : Rearranged w w'' :=
  ⟨h.toFrame.trans h'.toFrame,fun p => (h'.src p).trans (h.src p),
    fun p => (h'.neigh p).trans (h.neigh p),fun p => (h'.nexthop p).trans (h.nexthop p),
    h'.length.trans h.length,fun i => (h.perm i).trans (h'.perm i)⟩

theorem Rearranged.key (h : Rearranged w w') (p : ℕ) : w'.key p=w.key p := by
  rw [World.key,World.key,World.sourceOf,World.sourceOf,h.src,h.pfx,h.plen]

theorem Rearranged.mem (h : Rearranged w w') : p∈w'.slot i ↔ p∈w.slot i := (h.perm i).symm.mem_iff

/-- The order, the contents and the counters of the table, with `held s` further references. -/
structure Shape (held : ℕ→ℕ) (w : World) : Prop where
  nonempty : ∀ i<w.slots.length, w.slot i≠[]
  same : ∀ i, ∀ p∈w.slot i, ∀ q∈w.slot i, w.key p=w.key q
  sorted : ∀ i j, i<j → ∀ p∈w.slot i, ∀ q∈w.slot j, w.key p<w.key q
  /-- The routes of a slot differ in neighbour or next hop. -/
  distinct : ∀ i, (w.slot i).Pairwise fun p q =>
    ¬((w.route p).neigh=(w.route q).neigh ∧ (w.route p).nexthop=(w.route q).nexthop)
  /-- The source of a route is in the list of sources. -/
  live : ∀ i, ∀ p∈w.slot i, (w.route p).src∈w.srcs
  count : ∀ s∈w.srcs, (w.source s).routeCount =
    w.slots.flatten.countP (fun p => (w.route p).src=s)+held s
  room : w.slots.length≤w.maxRouteSlots
  idle : ∀ s, s ∉ w.srcs → held s=0

/-- The whole invariant: besides, only the head of a slot may be installed. -/
structure Table (held : ℕ→ℕ) (w : World) : Prop extends Shape held w where
  head : ∀ i, ∀ p∈(w.slot i).tail, (w.route p).installed=false

theorem lt_length_of_mem (h : p∈w.slot i) : i<w.slots.length := by
  by_contra hge
  rw [World.slot,getD_eq_getElem?_getD,getElem?_eq_none (by omega)] at h
  cases h

theorem mem_flatten_iff : p∈w.slots.flatten ↔ ∃ i, p∈w.slot i := by
  rw [mem_flatten]
  constructor
  · rintro ⟨l,hl,hp⟩
    obtain ⟨i,hi,rfl⟩ := getElem_of_mem hl
    refine ⟨i,?_⟩
    rw [World.slot,getD_eq_getElem?_getD,getElem?_eq_getElem hi]
    exact hp
  · rintro ⟨i,hp⟩
    have hi := lt_length_of_mem hp
    refine ⟨w.slots[i],getElem_mem hi,?_⟩
    rw [World.slot,getD_eq_getElem?_getD,getElem?_eq_getElem hi] at hp
    exact hp

theorem Rearranged.flatten (h : Rearranged w w') : w.slots.flatten.Perm w'.slots.flatten := by
  refine List.Perm.flatten_congr (forall₂_iff_get.mpr ⟨h.length.symm,fun i hi hi' => ?_⟩)
  have hperm := h.perm i
  rw [World.slot,World.slot,getD_eq_getElem?_getD,getD_eq_getElem?_getD,
    getElem?_eq_getElem hi,getElem?_eq_getElem hi'] at hperm
  exact hperm

theorem Rearranged.shape (h : Rearranged w w') (hs : Shape held w) : Shape held w' where
  nonempty i hi := by
    intro hnil
    have hperm := h.perm i
    rw [hnil] at hperm
    exact hs.nonempty i (h.length ▸ hi) hperm.eq_nil
  same i p hp q hq := by
    rw [h.key,h.key]
    exact hs.same i p (h.mem.mp hp) q (h.mem.mp hq)
  sorted i j hij p hp q hq := by
    rw [h.key,h.key]
    exact hs.sorted i j hij p (h.mem.mp hp) q (h.mem.mp hq)
  distinct i := by
    have hold := (h.perm i).pairwise (hs.distinct i) fun hne heq => hne ⟨heq.1.symm,heq.2.symm⟩
    refine hold.imp fun {p q} hne => ?_
    rw [h.neigh,h.neigh,h.nexthop,h.nexthop]
    exact hne
  live i p hp := by
    rw [h.src,h.srcs]
    exact hs.live i p (h.mem.mp hp)
  count s hm := by
    rw [h.routeCount,hs.count s (h.srcs ▸ hm),←h.flatten.countP_eq]
    simp only [h.src]
  room := by
    rw [h.length,h.maxRouteSlots]
    exact hs.room
  idle s hm := hs.idle s (h.srcs ▸ hm)

theorem Steady.table (h : Steady w w') (ht : Table held w) : Table held w' where
  toShape := h.rearranged.shape ht.toShape
  head i p hp := by
    rw [h.installed]
    rw [h.slot] at hp
    exact ht.head i p hp

/-- The prefix and the length that a lookup asks for, in the order of
`route_compare`. -/
def target (pfx : BitVec 128) (plen : ℕ) : ℕ ×ₗ ℕ := toLex (pfx.toNat,plen)

theorem routeCompare_eq (pfx : BitVec 128) (plen : ℕ) (w : World) (p : ℕ) :
    routeCompare pfx plen w p=compare (target pfx plen) (w.key p) := by
  rw [routeCompare,target,World.key,Prod.Lex.compare_def]
  rfl

section

variable (hs : Shape held w)
include hs

theorem headD_mem (hi : i<w.slots.length) : (w.slot i).headD 0∈w.slot i := by
  have hne := hs.nonempty i hi
  cases hl : w.slot i with
  | nil => exact absurd hl hne
  | cons a rest => exact .head _

theorem increasing (pfx : BitVec 128) (plen : ℕ) :
    Increasing (fun i => routeCompare pfx plen w ((w.slot i).headD 0)) w.slots.length := by
  intro i j hij hj hne
  simp only [routeCompare_eq] at hne ⊢
  rw [compare_lt_iff_lt]
  rw [Ne,compare_gt_iff_gt] at hne
  exact lt_of_le_of_lt (not_lt.mp hne)
    (hs.sorted i j hij _ (headD_mem hs (hij.trans hj)) _ (headD_mem hs hj))

theorem findRouteSlot_of_mem (hp : p∈w.slot i) (hkey : w.key p=target pfx plen) :
    findRouteSlot w pfx plen=.found i := by
  have hi := lt_length_of_mem hp
  refine search_eq_found (increasing hs pfx plen) hi ?_
  rw [routeCompare_eq,compare_eq_iff_eq,←hkey]
  exact hs.same i p hp _ (headD_mem hs hi)

theorem findRouteSlot_self (hp : p∈w.slot i) :
    findRouteSlot w (w.sourceOf p).pfx (w.sourceOf p).plen=.found i :=
  findRouteSlot_of_mem hs hp rfl

theorem findRouteSlot_found (h : findRouteSlot w pfx plen=.found i) :
    i<w.slots.length ∧ ∀ p∈w.slot i, w.key p=target pfx plen := by
  have hcorrect := search_correct (increasing hs pfx plen)
  rw [show search _ _=_ from h] at hcorrect
  obtain ⟨hi,heq⟩ := hcorrect
  beta_reduce at heq
  rw [routeCompare_eq,compare_eq_iff_eq] at heq
  exact ⟨hi,fun p hp => (hs.same i p hp _ (headD_mem hs hi)).trans heq.symm⟩

theorem findRouteSlot_absent {n : ℕ} (h : findRouteSlot w pfx plen=.absent n) :
    n≤w.slots.length ∧ (∀ i<n, ∀ p∈w.slot i, w.key p<target pfx plen) ∧
      ∀ i, n ≤ i → ∀ p∈w.slot i, target pfx plen<w.key p := by
  have hcorrect := search_correct (increasing hs pfx plen)
  rw [show search _ _=_ from h] at hcorrect
  obtain ⟨hn,hbelow,habove⟩ := hcorrect
  refine ⟨hn,fun i hi p hp => ?_,fun i hi p hp => ?_⟩
  · have hlt := hbelow i hi
    beta_reduce at hlt
    rw [routeCompare_eq,compare_gt_iff_gt] at hlt
    rw [hs.same i p hp _ (headD_mem hs (lt_length_of_mem hp))]
    exact hlt
  have hlt := habove i hi (lt_length_of_mem hp)
  beta_reduce at hlt
  rw [routeCompare_eq,compare_lt_iff_lt] at hlt
  rw [hs.same i p hp _ (headD_mem hs (lt_length_of_mem hp))]
  exact hlt

theorem findRouteSlot_eq_absent (h : ∀ i, ∀ p∈w.slot i, w.key p≠target pfx plen) :
    ∃ n, findRouteSlot w pfx plen=.absent n := by
  cases hf : findRouteSlot w pfx plen with
  | absent n => exact ⟨n,rfl⟩
  | found i =>
    obtain ⟨hi,hkey⟩ := findRouteSlot_found hs hf
    exact absurd (hkey _ (headD_mem hs hi)) (h i _ (headD_mem hs hi))

end

theorem Table.eq_head (ht : Table held w) (hp : p∈w.slot i) (hin : (w.route p).installed) :
    p=(w.slot i).headD 0 := by
  cases hl : w.slot i with
  | nil => exact absurd (hl ▸ hp) not_mem_nil
  | cons a rest =>
    rw [hl] at hp
    rcases mem_cons.mp hp with rfl|hp
    · rfl
    have hnot := ht.head i p (by rw [hl]; exact hp)
    rw [hin] at hnot
    cases hnot

theorem findInstalledRoute_eq_some_iff (ht : Table held w) : findInstalledRoute w pfx plen=some p ↔
      (∃ i, p∈w.slot i) ∧ w.key p=target pfx plen ∧ (w.route p).installed=true := by
  constructor
  · intro h
    rw [findInstalledRoute] at h
    cases hf : findRouteSlot w pfx plen with
    | absent n => simp only [hf] at h; cases h
    | found i =>
      simp only [hf] at h
      obtain ⟨hi,hkey⟩ := findRouteSlot_found ht.toShape hf
      split at h
      · rename_i hin
        obtain rfl := Option.some.inj h
        exact ⟨⟨i,headD_mem ht.toShape hi⟩,hkey _ (headD_mem ht.toShape hi),hin⟩
      · cases h
  · rintro ⟨⟨i,hp⟩,hkey,hin⟩
    rw [findInstalledRoute,findRouteSlot_of_mem ht.toShape hp hkey]
    have hhead := ht.eq_head hp hin
    simp only [←hhead,hin,if_true]

theorem findInstalledRoute_some (ht : Table held w) (h : findInstalledRoute w pfx plen=some p) :
    ∃ i, p∈w.slot i :=
  ((findInstalledRoute_eq_some_iff ht).mp h).1

end RoutePlatform.BabelRoutes
