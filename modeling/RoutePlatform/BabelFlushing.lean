import RoutePlatform.BabelSelection

/-!
# Babel: routes come and go

A route that is flushed leaves its slot and its source counts one route less; a
route that is new enters a slot or makes one, and its source counts one more. Where
the table cannot grow, the new route is given up but its source goes on counting it.
-/

namespace RoutePlatform.BabelRoutes

open Function List World

variable {w w' w'' : World} {held : ℕ→ℕ} {p q i j s src : ℕ} {E : Env} {held' : ℕ→ℕ}
  {a b : List (List ℕ)} {f : ℕ→ℕ}

/-- One more reference to a source is held. -/
def hold (held : ℕ→ℕ) (src : ℕ) : ℕ→ℕ := update held src (held src+1)

theorem hold_apply (held : ℕ→ℕ) (src s : ℕ) : hold held src s=held s+if s=src then 1 else 0 := by
  rw [hold]
  by_cases h : s=src
  · rw [h,update_self,if_pos rfl]
  · rw [update_of_ne h,if_neg h,add_zero]

theorem slots_split (hi : i<w.slots.length) : ∃ a b, w.slots=a++w.slot i::b ∧ a.length=i := by
  refine ⟨w.slots.take i,w.slots.drop (i+1),?_,by rw [length_take]; omega⟩
  have hget : w.slot i=w.slots[i] := by
    rw [slot,getD_eq_getElem?_getD,getElem?_eq_getElem hi]
    rfl
  rw [hget,←drop_eq_getElem_cons hi,take_append_drop]

theorem nodup_flatten (hs : Shape held w) : w.slots.flatten.Nodup := by
  have hslot : ∀ i (hi : i<w.slots.length), w.slots[i]=w.slot i := by
    intro i hi
    rw [slot,getD_eq_getElem?_getD,getElem?_eq_getElem hi]
    rfl
  rw [List.nodup_flatten]
  constructor
  · intro l hl
    obtain ⟨i,hi,rfl⟩ := getElem_of_mem hl
    rw [hslot i hi]
    exact nodup_slot hs i
  · rw [pairwise_iff_getElem]
    intro i j hi hj hij p hp hq
    rw [hslot i hi] at hp
    rw [hslot j hj] at hq
    exact lt_irrefl _ (hs.sorted i j hij p hp p hq)

theorem Table.sub {σ : ℕ→ℕ} (ht : Table held w) (hσ : StrictMono σ)
    (hsub : ∀ j, (w'.slot j).Sublist (w.slot (σ j))) (hne : ∀ j<w'.slots.length, w'.slot j≠[])
    (hroute : ∀ j, ∀ q∈w'.slot j, w'.key q=w.key q ∧ (w'.route q).neigh=(w.route q).neigh ∧
      (w'.route q).nexthop=(w.route q).nexthop ∧ (w'.route q).installed=(w.route q).installed)
    (hlive : ∀ j, ∀ q∈w'.slot j, (w'.route q).src∈w'.srcs)
    (hcnt : ∀ s∈w'.srcs, (w'.source s).routeCount =
      w'.slots.flatten.countP (fun q => (w'.route q).src=s)+held' s)
    (hroom : w'.slots.length≤w'.maxRouteSlots) (hidle : ∀ s, s ∉ w'.srcs → held' s=0) :
    Table held' w' where
  nonempty := hne
  same j p hp q hq := by
    rw [(hroute j p hp).1,(hroute j q hq).1]
    exact ht.same (σ j) p ((hsub j).subset hp) q ((hsub j).subset hq)
  sorted i j hij p hp q hq := by
    rw [(hroute i p hp).1,(hroute j q hq).1]
    exact ht.sorted _ _ (hσ hij) p ((hsub i).subset hp) q ((hsub j).subset hq)
  distinct j := by
    refine ((ht.distinct (σ j)).sublist (hsub j)).imp_of_mem fun {p q} hp hq hne => ?_
    rw [(hroute j p hp).2.1,(hroute j q hq).2.1,(hroute j p hp).2.2.1,(hroute j q hq).2.2.1]
    exact hne
  live := hlive
  count := hcnt
  room := hroom
  idle := hidle
  head j q hq := by
    rw [(hroute j q (mem_of_mem_tail hq)).2.2.2]
    exact ht.head (σ j) q ((hsub j).tail.subset hq)

/-- Only the number of references to one source has changed. -/
structure Recount (src : ℕ) (f : ℕ→ℕ) (w w' : World) : Prop where
  route : w'.route=w.route
  slots : w'.slots=w.slots
  srcs : w'.srcs=w.srcs
  now : w'.now=w.now
  maxRouteSlots : w'.maxRouteSlots=w.maxRouteSlots
  log : w'.log=w.log
  source : ∀ s, w'.source s =
    if s=src then {w.source s with routeCount := f (w.source s).routeCount} else w.source s

theorem modifySource_recount (w : World) (src : ℕ) (f : ℕ→ℕ) :
    Recount src f w (w.modifySource src fun s => {s with routeCount := f s.routeCount}) := by
  refine ⟨rfl,rfl,rfl,rfl,rfl,rfl,fun s => ?_⟩
  by_cases h : s=src
  · rw [if_pos h,h]
    exact update_self ..
  rw [if_neg h]
  exact update_of_ne h ..

theorem Recount.slot {f : ℕ → ℕ} (h : Recount src f w w') (j : ℕ) : w'.slot j=w.slot j := by
  rw [World.slot,World.slot,h.slots]

theorem Recount.table (h : Recount src f w w') (ht : Table held w)
    (hsame : ∀ s, s≠src → held' s=held s)
    (hcnt : f (w.source src).routeCount+held src=(w.source src).routeCount+held' src)
    (hsrc : src∈w.srcs) : Table held' w' := by
  have hkey : ∀ q, w'.key q=w.key q := by
    intro q
    rw [key,key,sourceOf,sourceOf,h.route,h.source]
    split <;> rfl
  refine ht.sub (σ := id) strictMono_id (fun j => by rw [h.slot]; exact List.Sublist.refl _)
    (fun j hj => by rw [h.slot]; exact ht.nonempty j (h.slots ▸ hj))
    (fun j q hq => ⟨hkey q,by rw [h.route],by rw [h.route],by rw [h.route]⟩)
    (fun j q hq => ?_) (fun s hs => ?_) (by rw [h.slots,h.maxRouteSlots]; exact ht.room)
    (fun s hs => ?_)
  · rw [h.route,h.srcs]
    rw [h.slot] at hq
    exact ht.live j q hq
  · have hc := ht.count s (h.srcs ▸ hs)
    rw [h.source,h.slots,h.route]
    split
    · rename_i heq
      subst heq
      dsimp only
      omega
    rename_i hne
    rw [hsame s hne]
    exact hc
  rw [h.srcs] at hs
  have hne : s≠src := fun heq => hs (heq ▸ hsrc)
  rw [hsame s hne]
  exact ht.idle s hs

theorem Recount.logged (h : Recount src f w w') : Logged w w' := by
  refine fun hf => ⟨fun s hs => ?_,[],by rw [h.log,append_nil],nofun⟩
  rw [h.now,h.source]
  split <;> exact hf s (h.srcs ▸ hs)

theorem retainSource_recount (src : ℕ) (w : World) :
    Recount src (· + 1) w (retainSource src w) := by
  have h := modifySource_recount w src (· + 1)
  rw [retainSource,expect]
  split
  · exact h
  · exact ⟨h.route,h.slots,h.srcs,h.now,h.maxRouteSlots,h.log,h.source⟩

theorem retainSource_table (ht : Table held w) (hsrc : src∈w.srcs) :
    Table (hold held src) (retainSource src w) :=
  (retainSource_recount src w).table ht (fun s hne => by rw [hold_apply,if_neg hne]; rfl)
    (by rw [hold_apply,if_pos rfl]; omega) hsrc

theorem releaseSource_table (ht : Table (hold held src) w) (hsrc : src∈w.srcs) :
    Table held (releaseSource src w) ∧ Logged w (releaseSource src w) ∧
      (releaseSource src w).aborted=w.aborted := by
  have hpos : 0<(w.source src).routeCount := by
    rw [ht.count src hsrc,hold_apply,if_pos rfl]
    omega
  have h := modifySource_recount w src (· - 1)
  rw [releaseSource,expect,if_pos hpos]
  refine ⟨h.table ht (fun s hne => by rw [hold_apply,if_neg hne]; rfl) ?_ hsrc,h.logged,rfl⟩
  rw [hold_apply,if_pos rfl]
  omega

theorem uninstallRoute_turned (ht : Table held w) (p : ℕ) :
    Turned held w (uninstallRoute E p w) ∧ ∀ q, ((uninstallRoute E p w).route q).installed =
        if q=p then false else (w.route q).installed := by
  rw [uninstallRoute]
  split
  · rename_i h
    refine ⟨Turned.refl ht,fun q => ?_⟩
    split
    · rename_i hq
      rw [hq]
      simpa using h
    · rfl
  have hq := record_quiet w (e := .kernel (.flush
    (kernelEntry E w p (metricToKernel E (routeMetric (w.route p)))))) trivial
  have ht1 := hq.steady.table ht
  dsimp only
  generalize hw1 : w.record _=w1 at hq ht1 ⊢
  obtain ⟨hr,hin⟩ := modifyRoute_installed w1 p false
  have hrr := hq.steady.rearranged.trans hr
  refine ⟨⟨hrr,hrr.shape ht.toShape,fun i q hq' => ?_⟩,fun q => by rw [hin,hq.route]⟩
  rw [hin]
  split
  · rfl
  · exact ht1.head i q hq'

theorem slot_of_slots {slots : List (List ℕ)} (h : w'.slots=slots) (j : ℕ) :
    w'.slot j=slots[j]?.getD [] := by
  rw [slot,h,getD_eq_getElem?_getD]

theorem slot_getElem? (w : World) (j : ℕ) : w.slots[j]?.getD []=w.slot j := by
  rw [slot,getD_eq_getElem?_getD]

/-- Only the size of the table has changed. -/
structure Resized (w w' : World) : Prop where
  route : w'.route=w.route
  source : w'.source=w.source
  slots : w'.slots=w.slots
  srcs : w'.srcs=w.srcs
  now : w'.now=w.now
  aborted : w'.aborted=w.aborted
  events : ∃ es, w'.log=w.log++es ∧ ∀ e∈es, e.Sound

theorem Resized.refl (w : World) : Resized w w :=
  ⟨rfl,rfl,rfl,rfl,rfl,rfl,[],(append_nil _).symm,nofun⟩

theorem resizeRouteTable_resized {n : ℕ} (hn : w.slots.length≤n) :
    Resized w (resizeRouteTable E n w) ∧ (resizeRouteTable E n w).maxRouteSlots =
        if n=0 || E.realloc w.log n then n else w.maxRouteSlots := by
  rw [resizeRouteTable,expect,if_pos hn]
  have hes : ∀ e∈[Event.resize n (n=0 || E.realloc w.log n)], e.Sound := fun e he => by
    rw [mem_singleton.mp he]
    exact trivial
  split <;> exact ⟨⟨rfl,rfl,rfl,rfl,rfl,rfl,_,rfl,hes⟩,rfl⟩

theorem shrinkRouteTable_resized (hroom : w.slots.length≤w.maxRouteSlots) :
    Resized w (shrinkRouteTable E w) ∧ w.slots.length≤(shrinkRouteTable E w).maxRouteSlots := by
  rw [shrinkRouteTable]
  split
  · rename_i hz
    obtain ⟨hr,hmax⟩ := resizeRouteTable_resized (E := E) (w := w) (n := 0) hz.le
    exact ⟨hr,by rw [hz]; exact Nat.zero_le _⟩
  split
  · obtain ⟨hr,hmax⟩ := resizeRouteTable_resized (E := E) (w := w)
      (n := w.maxRouteSlots/2) (by omega)
    refine ⟨hr,?_⟩
    rw [hmax]
    split
    · omega
    · exact hroom
  · exact ⟨Resized.refl w,hroom⟩

/-- What is left of the slots when a route is taken off. -/
structure Unlinked (p : ℕ) (w : World) (slots : List (List ℕ)) : Prop where
  perm : w.slots.flatten.Perm (p::slots.flatten)
  length : slots.length≤w.slots.length
  nonempty : ∀ j<slots.length, slots[j]?.getD []≠[]
  /-- They are parts of the old slots, in the same order. -/
  parts : ∃ σ : ℕ → ℕ, StrictMono σ ∧ ∀ j, (slots[j]?.getD []).Sublist (w.slot (σ j))

theorem slot_replace (hab : w.slots=a++w.slot i::b) (ha : a.length=i) (l : List ℕ) (j : ℕ) :
    (a++l::b)[j]?.getD []=if j=i then l else w.slot j := by
  rw [←slot_getElem? w j,hab]
  by_cases hji : j=i
  · rw [if_pos hji,hji,←ha,getElem?_append_right le_rfl,Nat.sub_self]
    rfl
  rw [if_neg hji]
  rcases lt_or_gt_of_ne hji with hlt|hgt
  · rw [getElem?_append_left (by omega),getElem?_append_left (by omega)]
  obtain ⟨k,hk⟩ : ∃ k, j-a.length=k+1 := ⟨j-a.length-1,by omega⟩
  rw [getElem?_append_right (by omega),getElem?_append_right (by omega),hk]
  rfl

section

variable (hs : Shape held w)
include hs

/-- A slot that keeps other routes stays where it is. -/
theorem unlinked_erase (hp : p∈w.slot i) {a b : List (List ℕ)} (hab : w.slots=a++w.slot i::b)
    (ha : a.length=i) (hne : (w.slot i).erase p≠[]) : Unlinked p w (a++(w.slot i).erase p::b) := by
  have hslot := slot_replace hab ha ((w.slot i).erase p)
  refine ⟨?_,?_,fun j hj => ?_,id,strictMono_id,fun j => ?_⟩
  · rw [hab,flatten_append,flatten_append,flatten_cons,flatten_cons]
    have hperm := (perm_cons_erase hp).append_right b.flatten
    exact (hperm.append_left a.flatten).trans perm_middle
  · rw [hab]
    simp only [length_append,length_cons]
    omega
  · rw [hslot]
    split
    · exact hne
    refine hs.nonempty j ?_
    rw [hab]
    simpa using hj
  rw [hslot]
  split
  · rename_i hji
    rw [hji]
    exact erase_sublist
  · exact List.Sublist.refl _

/-- A slot that held only the route goes, and the later ones close up. -/
theorem unlinked_eraseIdx (hab : w.slots=a++[p]::b) : Unlinked p w (a++b) := by
  have hslot : ∀ j, (a++b)[j]?.getD []=w.slot (if j<a.length then j else j+1) := by
    intro j
    rw [←slot_getElem? w,hab]
    split
    · rw [getElem?_append_left ‹_›,getElem?_append_left ‹_›]
    rw [getElem?_append_right (by omega),getElem?_append_right (by omega),
      Nat.sub_add_comm (by omega)]
    rfl
  refine ⟨?_,by rw [hab]; simp,fun j hj => ?_,fun j => if j<a.length then j else j+1,?_,
    fun j => by rw [hslot]⟩
  · rw [hab,flatten_append,flatten_append,flatten_cons]
    exact perm_middle
  · have hj' : j<a.length+b.length := by simpa using hj
    rw [hslot]
    refine hs.nonempty _ ?_
    rw [hab,length_append,length_cons]
    split <;> omega
  intro x y hxy
  dsimp only
  split <;> split <;> omega

/-- The slots after `flush_route` has taken a route off. -/
theorem unlinkRoute_slots (hp : p∈w.slot i) : Unlinked p w (unlinkRoute E p i w).slots := by
  obtain ⟨a,b,hab,ha⟩ := slots_split (lt_length_of_mem hp)
  rw [unlinkRoute]
  by_cases hhead : (w.slot i).head? = some p
  · obtain ⟨rest,hrs⟩ : ∃ rest, w.slot i=p::rest := by
      cases hl : w.slot i with
      | nil => rw [hl] at hhead; cases hhead
      | cons x rest =>
        rw [hl] at hhead
        obtain rfl := Option.some.inj hhead
        exact ⟨rest,rfl⟩
    have hlen : (if rest=[] then w.slots.eraseIdx i else w.slots.set i rest).length ≤
        w.maxRouteSlots := by
      split
      · exact (length_eraseIdx_le ..).trans hs.room
      rw [length_set]
      exact hs.room
    rw [if_pos hhead,hrs,tail_cons]
    have hshrunk := (shrinkRouteTable_resized (E := E) (w := {w with
      slots := if rest=[] then w.slots.eraseIdx i else w.slots.set i rest}) hlen).1.slots
    rw [hshrunk]
    split
    · rename_i hnil
      rw [hrs,hnil] at hab
      rw [hab,←ha,eraseIdx_append_of_length_le le_rfl,Nat.sub_self]
      exact unlinked_eraseIdx hs hab
    rename_i hnil
    have herase : (w.slot i).erase p=rest := by rw [hrs,erase_cons_head]
    have h := unlinked_erase hs hp hab ha (by rw [herase]; exact hnil)
    rw [herase] at h
    rw [hab,←ha,set_append_right _ _ le_rfl,Nat.sub_self]
    exact h
  · have hne : (w.slot i).erase p≠[] := by
      cases hl : w.slot i with
      | nil => rw [hl] at hp; exact absurd hp not_mem_nil
      | cons x rest =>
        rw [hl] at hhead
        have hxp : x≠p := fun h => hhead (by rw [h]; rfl)
        rw [erase_cons_tail (by simpa using hxp)]
        exact cons_ne_nil _ _
    rw [if_neg hhead]
    have hmodify : w.slots.modify i (fun l => l.erase p)=a++(w.slot i).erase p::b := by
      conv_lhs => rw [hab,←ha]
      rw [modify_eq_take_drop,take_left,drop_left,ha]
      rfl
    rw [hmodify]
    exact unlinked_erase hs hp hab ha hne

theorem unlinkRoute_resized (i : ℕ) :
    ∃ slots, Resized {w with slots := slots} (unlinkRoute E p i w) ∧
      slots.length≤(unlinkRoute E p i w).maxRouteSlots := by
  rw [unlinkRoute]
  split
  · have hlen : (if (w.slot i).tail=[] then w.slots.eraseIdx i
        else w.slots.set i (w.slot i).tail).length≤w.maxRouteSlots := by
      split
      · exact (length_eraseIdx_le ..).trans hs.room
      rw [length_set]
      exact hs.room
    exact ⟨_,shrinkRouteTable_resized (w := {w with
      slots := if (w.slot i).tail=[] then w.slots.eraseIdx i
        else w.slots.set i (w.slot i).tail}) hlen⟩
  · exact ⟨_,Resized.refl _,by rw [length_modify]; exact hs.room⟩

end

/-- The route is off the table; its source still counts it. -/
theorem unlinkRoute_table (ht : Table held w) (hp : p∈w.slot i) :
    Table (hold held (w.route p).src) (unlinkRoute E p i w) ∧
      Logged w (unlinkRoute E p i w) ∧ (unlinkRoute E p i w).aborted=w.aborted ∧
      (unlinkRoute E p i w).srcs=w.srcs := by
  have hu := unlinkRoute_slots (E := E) ht.toShape hp
  obtain ⟨slots,hr,hroom⟩ := unlinkRoute_resized (E := E) (p := p) ht.toShape i
  generalize unlinkRoute E p i w=w' at hu hr hroom ⊢
  have hslots : w'.slots=slots := hr.slots
  have hroute : w'.route=w.route := hr.route
  have hsource : w'.source=w.source := hr.source
  have hsrcs : w'.srcs=w.srcs := hr.srcs
  obtain ⟨σ,hσ,hparts⟩ := hu.parts
  have hpart : ∀ j, (w'.slot j).Sublist (w.slot (σ j)) := fun j => by
    rw [←slot_getElem?]
    exact hparts j
  refine ⟨ht.sub hσ hpart (fun j hj => ?_) (fun j q _ => ⟨?_,by rw [hroute],by rw [hroute],
    by rw [hroute]⟩) (fun j q hq => ?_) (fun s hs => ?_) (by rw [hslots]; exact hroom)
    (fun s hs => ?_),fun hf => ⟨fun s hs => ?_,hr.events⟩,hr.aborted,hsrcs⟩
  · rw [←slot_getElem?]
    exact hu.nonempty j hj
  · rw [key,key,sourceOf,sourceOf,hroute,hsource]
  · rw [hroute,hsrcs]
    exact ht.live _ q ((hpart j).subset hq)
  · rw [hsource,ht.count s (hsrcs ▸ hs),hu.perm.countP_eq,countP_cons,hold_apply,hroute]
    by_cases h : (w.route p).src=s
    · rw [if_pos (by simpa using h),if_pos h.symm]
      omega
    rw [if_neg (by simpa using h),if_neg (Ne.symm h)]
    omega
  · rw [hsrcs] at hs
    have hne : s≠(w.route p).src := fun h => hs (h ▸ ht.live i p hp)
    rw [hold_apply,if_neg hne]
    exact ht.idle s hs
  have hnow : w'.now=w.now := hr.now
  rw [hnow,hsource]
  exact hf s (hsrcs ▸ hs)

/-- A changed set of routes leaves a table, sound events and no failed assertion. -/
structure Kept (held' : ℕ→ℕ) (w w' : World) : Prop where
  table : Table held' w'
  logged : Logged w w'
  aborted : w'.aborted=w.aborted

theorem Kept.refl (ht : Table held w) : Kept held w w := ⟨ht,Logged.refl w,rfl⟩

theorem Kept.trans {held'' : ℕ→ℕ} (h : Kept held' w w') (h' : Kept held'' w' w'') :
    Kept held'' w w'' :=
  ⟨h'.table,h.logged.trans h'.logged,h'.aborted.trans h.aborted⟩

theorem Turned.kept (h : Turned held w w') : Kept held w w' := ⟨h.2,h.1.events,h.1.aborted⟩

theorem flushRoute_kept (ht : Table held w) (hp : p∈w.slot i) : Kept held w (flushRoute E p w) := by
  obtain ⟨h1,-⟩ := uninstallRoute_turned (E := E) ht p
  rw [flushRoute]
  have hsrc1 := h1.1.src p
  have hp1 := h1.mem.mpr hp
  generalize uninstallRoute E p w=w1 at h1 hsrc1 hp1 ⊢
  rw [findRouteSlot_self h1.2.toShape hp1]
  dsimp only
  obtain ⟨ht2,hlog2,hab2,hsrcs2⟩ := unlinkRoute_table (E := E) h1.2 hp1
  rw [hsrc1] at ht2
  generalize unlinkRoute E p i w1=w2 at ht2 hlog2 hab2 hsrcs2 ⊢
  have hlive : (w.route p).src∈w2.srcs := by
    rw [hsrcs2,h1.1.srcs]
    exact ht.live i p hp
  have h3 : Turned (hold held (w.route p).src) w2 (if (w.route p).installed=true then
      routeLost E (w.route p).src (routeMetric (w.route p)) w2 else w2) := by
    split
    · exact (routeLost_turned ht2 _ _).1
    · exact Turned.refl ht2
  generalize (if (w.route p).installed=true then _ else w2)=w3 at h3 ⊢
  obtain ⟨ht4,hlog4,hab4⟩ := releaseSource_table h3.2 (by rw [h3.1.srcs]; exact hlive)
  exact h1.kept.trans (⟨ht2,hlog2,hab2⟩ : Kept _ w1 w2) |>.trans h3.kept |>.trans ⟨ht4,hlog4,hab4⟩

theorem flushMatching_kept (doomed : World→ℕ→Bool) (turns : ℕ) :
    ∀ (i : ℕ) (w : World), Table held w → Kept held w (flushMatching E doomed turns i w) := by
  induction turns with
  | zero => exact fun i w ht => Kept.refl ht
  | succ turns ih =>
    intro i w ht
    rw [flushMatching]
    split
    · split
      · rename_i p hp
        have h := flushRoute_kept (E := E) ht (mem_of_find?_eq_some hp)
        exact h.trans (ih _ _ h.table)
      · exact ih _ _ ht
    · exact Kept.refl ht

theorem expireSlot_kept (i turns : ℕ) :
    ∀ (r : Option ℕ) (w : World), Table held w → (∀ p∈r, p∈w.slot i) →
      Kept held w (expireSlot E i turns r w).1 := by
  induction turns with
  | zero => exact fun r w ht _ => Kept.refl ht
  | succ turns ih =>
    intro r w ht hr
    cases r with
    | none => exact Kept.refl ht
    | some p =>
      rw [expireSlot]
      split
      · exact flushRoute_kept ht (hr p rfl)
      have h := expireVisit_turned (E := E) ht (hr p rfl)
      exact h.kept.trans (ih _ _ h.2 fun q hq => nextIn_mem hq)

theorem expireLoop_kept (turns : ℕ) :
    ∀ (i : ℕ) (w : World), Table held w → Kept held w (expireLoop E turns i w) := by
  induction turns with
  | zero => exact fun i w ht => Kept.refl ht
  | succ turns ih =>
    intro i w ht
    rw [expireLoop]
    split
    · have h := expireSlot_kept (E := E) i (slotTurns w i) (w.slot i).head? w ht
        fun p hp => mem_of_head? hp
      split
      · rename_i w' heq
        rw [heq] at h
        exact h.trans (ih _ _ h.table)
      rename_i w' heq
      rw [heq] at h
      exact h.trans (ih _ _ h.table)
    · exact Kept.refl ht

end RoutePlatform.BabelRoutes
