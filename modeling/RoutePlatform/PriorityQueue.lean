import RoutePlatform.BinaryHeap

/-!
# The priority queue of `lib/pqueue.c`

The queue knows its elements only through a comparison and a notification that an element has
moved. The notifications act on a state of the client, which is passed through every operation.
The comparison must not depend on what they change.
-/

namespace RoutePlatform.PriorityQueue

open BinaryHeap Function

universe u v w

variable {α : Type u} {σ : Type v} {n k : ℕ} {g : ℕ→α} {tmp : α} {s0 : σ}

/-- `struct pqueue` without its callbacks. Slots from `size` on hold leftovers. -/
structure PQueue (α : Type u) where
  array : ℕ→α
  arraySize : ℕ
  size : ℕ

/-- `pqueue_create`; the slots are cleared to `null`. -/
def pqueueCreate (null : α) : PQueue α := ⟨fun _ => null,32,0⟩

/-- `PARENT_OF`, `LEFT_OF`, `RIGHT_OF`. -/
def parentOf (x : ℕ) : ℕ := (x-1)/2

@[inherit_doc parentOf]
def leftOf (x : ℕ) : ℕ := 2*x+1

@[inherit_doc parentOf]
def rightOf (x : ℕ) : ℕ := 2*x+2

section

variable (cmp : α→α→ℤ) (update : α→ℕ→σ→σ)

def trickleUpLoop (tmp : α) : ℕ→ℕ→(ℕ→α)→σ→ℕ × (ℕ→α) × σ
  | 0, index, array, s => (index,array,s)
  | fuel+1, index, array, s =>
    if 0 < index ∧ cmp tmp (array (parentOf index))<0 then
      let array := Function.update array index (array (parentOf index))
      trickleUpLoop tmp fuel (parentOf index) array (update (array index) index s)
    else (index,array,s)

/-- `trickle_up`. Every round at least halves the index. -/
def trickleUp (index : ℕ) (queue : PQueue α) (s : σ) : PQueue α × σ :=
  let tmp := queue.array index
  let (index,array,s) := trickleUpLoop cmp update tmp (index+1) index queue.array s
  ({queue with array := Function.update array index tmp},update tmp index s)

/-- The child `trickle_down` considers. -/
def which (array : ℕ→α) (size index : ℕ) : ℕ :=
  if rightOf index<size ∧ cmp (array (leftOf index)) (array (rightOf index)) > 0 then
    rightOf index
  else leftOf index

def trickleDownLoop (tmp : α) (size : ℕ) : ℕ→ℕ→(ℕ→α)→σ→ℕ × (ℕ→α) × σ
  | 0, index, array, s => (index,array,s)
  | fuel+1, index, array, s =>
    if index<size/2 then
      let child := which cmp array size index
      if cmp (array child) tmp > 0 then (index,array,s)
      else
        let array := Function.update array index (array child)
        trickleDownLoop tmp size fuel child array (update (array index) index s)
    else (index,array,s)

/-- `trickle_down`. Every round moves the index up, below the size. -/
def trickleDown (index : ℕ) (queue : PQueue α) (s : σ) : PQueue α × σ :=
  let tmp := queue.array index
  let (index,array,s) :=
    trickleDownLoop cmp update tmp queue.size (queue.size+1) index queue.array s
  ({queue with array := Function.update array index tmp},update tmp index s)

/-- `pqueue_expand`; the allocation does not fail. -/
def pqueueExpand (queue : PQueue α) : PQueue α := {queue with arraySize := queue.arraySize*2}

def pqueueEnqueue (data : α) (queue : PQueue α) (s : σ) : PQueue α × σ :=
  let queue := if queue.size+2 ≥ queue.arraySize then pqueueExpand queue else queue
  let queue := {queue with array := Function.update queue.array queue.size data}
  let s := update data queue.size s
  let (queue,s) := trickleUp cmp update queue.size queue s
  ({queue with size := queue.size+1},s)

def pqueueDequeue (queue : PQueue α) (s : σ) : α × PQueue α × σ :=
  let data := queue.array 0
  let queue := {queue with size := queue.size-1}
  let queue := {queue with array := Function.update queue.array 0 (queue.array queue.size)}
  (data,trickleDown cmp update 0 queue s)

def pqueueRemoveAt (index : ℕ) (queue : PQueue α) (s : σ) : PQueue α × σ :=
  let queue := {queue with size := queue.size-1}
  let queue := {queue with array := Function.update queue.array index (queue.array queue.size)}
  if 0 < index ∧ cmp (queue.array index) (queue.array (parentOf index))<0 then
    trickleUp cmp update index queue s
  else trickleDown cmp update index queue s

end

section

variable {τ : Type w} [LinearOrder τ]
variable {cmp : α→α→ℤ} {update : α→ℕ→σ→σ} {key : α→τ} {track : σ→α→ℤ} {queue : PQueue α}

/-- The comparison orders by a key, and a notification sets one position. -/
structure Callbacks (cmp : α→α→ℤ) (update : α→ℕ→σ→σ) (key : α→τ)
    (track : σ→α→ℤ) : Prop where
  neg_iff : ∀ a b, cmp a b<0 ↔ key a<key b
  pos_iff : ∀ a b, 0<cmp a b ↔ key b<key a
  track_self : ∀ a i s, track (update a i s) a=i
  track_other : ∀ {a b} i s, b≠a → track (update a i s) b=track s b

structure Valid (key : α→τ) (track : σ→α→ℤ) (queue : PQueue α) (s : σ) : Prop where
  order : HeapOrder key queue.array queue.size
  tracked : ∀ i, i<queue.size → track s (queue.array i)=i
  fits : queue.size<queue.arraySize

def PQueue.Mem (queue : PQueue α) (a : α) : Prop := ∃ i<queue.size, queue.array i=a

def PQueue.toList (queue : PQueue α) : List α := (List.range queue.size).map queue.array

theorem PQueue.mem_toList {a : α} : a∈queue.toList ↔ queue.Mem a := by
  simp [PQueue.toList,PQueue.Mem]

theorem Valid.inj {s : σ} (h : Valid key track queue s) {i j : ℕ} (hi : i<queue.size)
    (hj : j<queue.size) (he : queue.array i=queue.array j) : i=j := by
  have h1 := h.tracked i hi
  have h2 := h.tracked j hj
  rw [he,h2] at h1
  exact_mod_cast h1.symm

theorem Valid.nodup_toList {s : σ} (h : Valid key track queue s) : queue.toList.Nodup := by
  refine List.Nodup.map_on ?_ List.nodup_range
  intro i hi j hj he
  exact h.inj (List.mem_range.mp hi) (List.mem_range.mp hj) he

/-- A sift at `k`: the first `n` slots with the saved element are a rearrangement of `g`. -/
structure Sifting (track : σ→α→ℤ) (tmp : α) (n : ℕ) (g : ℕ→α) (s0 : σ)
    (k : ℕ) (array : ℕ→α) (s : σ) : Prop where
  /-- The elements are those of `g`. -/
  perm : ∃ e : Equiv.Perm ℕ, (∀ i, n ≤ i → e i=i) ∧ Function.update array k tmp=g ∘ e
  fresh : ∀ i, i<n → i≠k → array i≠tmp
  tracked : ∀ i, i<n → i≠k → track s (array i)=i
  frame : ∀ b, b≠tmp → (∀ i, i<n → g i≠b) → track s b=track s0 b

theorem perm_lt {e : Equiv.Perm ℕ} (he : ∀ i, n ≤ i → e i=i) {i : ℕ} (hi : i<n) : e i<n := by
  by_contra hge
  have hfix := he (e i) (not_lt.mp hge)
  have hii := e.injective hfix
  omega

namespace Sifting

variable {tmp : α} {n k p : ℕ} {g array : ℕ→α} {s0 s : σ}

theorem start (track : σ → α → ℤ) (n k : ℕ) (g : ℕ → α) (s : σ) (hfresh : ∀ i, i<n → i≠k → g i≠g k)
    (htracked : ∀ i, i<n → i≠k → track s (g i)=i) :
    Sifting track (g k) n g s k g s where
  perm := ⟨Equiv.refl ℕ,fun _ _ => rfl,by rw [update_eq_self]; rfl⟩
  fresh := hfresh
  tracked := htracked
  frame := fun _ _ _ => rfl

section

variable (hcb : Callbacks cmp update key track) (h : Sifting track tmp n g s0 k array s)
include hcb h

/-- One round: the element at `p` moves into the hole and is notified. -/
theorem move (hk : k<n) (hp : p<n) (hne : k≠p) :
    Sifting track tmp n g s0 p (Function.update array k (array p)) (update (array p) k s) := by
  obtain ⟨e,he,hge⟩ := h.perm
  have hmem : array p=g (e p) := by
    have hat := congrFun hge p
    rwa [update_of_ne hne.symm] at hat
  refine ⟨⟨(Equiv.swap k p).trans e,fun i hi => ?_,?_⟩,?_,?_,?_⟩
  · rw [Equiv.trans_apply,Equiv.swap_apply_of_ne_of_ne (by omega) (by omega),he i hi]
  · rw [update_update_eq_exchange hne,hge]
    rfl
  · intro i hi hip
    by_cases hik : i=k
    · rw [hik,update_self]
      exact h.fresh p hp hne.symm
    rw [update_of_ne hik]
    exact h.fresh i hi hik
  · intro i hi hip
    by_cases hik : i=k
    · rw [hik,update_self,hcb.track_self]
    rw [update_of_ne hik]
    have hdiff : array i≠array p := by
      intro heq
      have h1 := h.tracked i hi hik
      rw [heq,h.tracked p hp hne.symm] at h1
      exact hip (by exact_mod_cast h1.symm)
    rw [hcb.track_other k s hdiff]
    exact h.tracked i hi hik
  · intro b hb hout
    have hdiff : b≠array p := by
      rw [hmem]
      exact (hout (e p) (perm_lt he hp)).symm
    rw [hcb.track_other k s hdiff]
    exact h.frame b hb hout

/-- The saved element is put back and notified. -/
theorem finish : (∀ i, i<n → track (update tmp k s) (Function.update array k tmp i)=i) ∧
      (∀ a, (∃ i<n, Function.update array k tmp i=a) ↔ ∃ i<n, g i=a) ∧
      ∀ b, b≠tmp → (∀ i, i<n → g i≠b) → track (update tmp k s) b=track s0 b := by
  obtain ⟨e,he,hge⟩ := h.perm
  refine ⟨fun i hi => ?_,fun a => ?_,fun b hb hout => ?_⟩
  · by_cases hik : i=k
    · rw [hik,update_self,hcb.track_self]
    rw [update_of_ne hik,hcb.track_other k s (h.fresh i hi hik)]
    exact h.tracked i hi hik
  · rw [hge]
    constructor
    · rintro ⟨i,hi,rfl⟩
      exact ⟨e i,perm_lt he hi,rfl⟩
    · rintro ⟨i,hi,rfl⟩
      have hsymm : ∀ j, n≤j → e.symm j=j := fun j hj => by rw [Equiv.symm_apply_eq,he j hj]
      exact ⟨e.symm i,perm_lt hsymm hi,by rw [comp_apply,Equiv.apply_symm_apply]⟩
  rw [hcb.track_other k s hb]
  exact h.frame b hb hout

end

end Sifting

section

variable (hcb : Callbacks cmp update key track)
include hcb

theorem trickleUpLoop_spec (fuel : ℕ) : ∀ {k : ℕ} {array : ℕ → α} {s : σ}, k<fuel → k<n →
    Sifting track tmp n g s0 k array s → UpOrder key (Function.update array k tmp) n k →
    ∃ k' array' s', trickleUpLoop cmp update tmp fuel k array s=(k',array',s') ∧
      Sifting track tmp n g s0 k' array' s' ∧ HeapOrder key (Function.update array' k' tmp) n := by
  induction fuel with
  | zero =>
    intro k array s hfuel
    exact absurd hfuel (Nat.not_lt_zero _)
  | succ fuel ih =>
    intro k array s hfuel hk hsift hup
    have hpar : parentOf k=parent k := rfl
    rw [trickleUpLoop]
    by_cases hloop : 0<k ∧ cmp tmp (array (parentOf k))<0
    · have hlt := parent_lt hloop.1
      have hbef := (hcb.neg_iff _ _).mp hloop.2
      rw [if_pos hloop]
      dsimp only
      rw [update_self,hpar]
      rw [hpar] at hbef
      apply ih (by omega) (by omega) (hsift.move hcb hk (by omega) hlt.ne')
      rw [update_update_eq_exchange hlt.ne']
      apply hup.move hloop.1 hk
      rw [update_self,update_of_ne hlt.ne]
      exact hbef
    · rw [if_neg hloop]
      refine ⟨k,array,s,rfl,hsift,hup.finish fun hpos => ?_⟩
      have hlt := parent_lt hpos
      rw [update_self,update_of_ne hlt.ne]
      by_contra hcon
      exact hloop ⟨hpos,(hcb.neg_iff _ _).mpr (not_le.mp hcon)⟩

/-- The two children of a position, and which of them comes first. -/
theorem which_spec (array : ℕ → α) (hk : k<n/2) :
    0<which cmp array n k ∧ which cmp array n k<n ∧ parent (which cmp array n k)=k ∧
      ∀ i, 0 < i → i<n → parent i=k → key (array (which cmp array n k))≤key (array i) := by
  have hchild : ∀ i, 0 < i → parent i=k → i=leftOf k ∨ i=rightOf k := by
    intro i hpos hpar
    unfold parent at hpar
    unfold leftOf rightOf
    omega
  unfold which
  by_cases hright : rightOf k<n ∧ cmp (array (leftOf k)) (array (rightOf k)) > 0
  · rw [if_pos hright]
    have hlt := (hcb.pos_iff _ _).mp hright.2
    refine ⟨by unfold rightOf; omega,hright.1,by unfold parent rightOf; omega,?_⟩
    intro i hpos _ hpar
    rcases hchild i hpos hpar with rfl|rfl
    · exact hlt.le
    · exact le_rfl
  rw [if_neg hright]
  refine ⟨by unfold leftOf; omega,by unfold leftOf; omega,by unfold parent leftOf; omega,?_⟩
  intro i hpos hi hpar
  rcases hchild i hpos hpar with rfl|rfl
  · exact le_rfl
  by_contra hcon
  exact hright ⟨hi,(hcb.pos_iff _ _).mpr (not_le.mp hcon)⟩

/-- The loop of `trickle_down` ends with a heap. -/
theorem trickleDownLoop_spec (fuel : ℕ) : ∀ {k : ℕ} {array : ℕ → α} {s : σ}, n<fuel+k → k≤n →
    Sifting track tmp n g s0 k array s → DownOrder key (Function.update array k tmp) n k →
    ∃ k' array' s', trickleDownLoop cmp update tmp n fuel k array s=(k',array',s') ∧
      Sifting track tmp n g s0 k' array' s' ∧ HeapOrder key (Function.update array' k' tmp) n := by
  induction fuel with
  | zero =>
    intro k array s hfuel hk
    omega
  | succ fuel ih =>
    intro k array s hfuel hk hsift hdown
    rw [trickleDownLoop]
    by_cases hhave : k<n/2
    · rw [if_pos hhave]
      obtain ⟨hpos,hcn,hpar,hfst⟩ := which_spec hcb array hhave
      dsimp only
      generalize which cmp array n k=c at hpos hcn hpar hfst ⊢
      have hkc := hpar ▸ parent_lt hpos
      have hchild : ∀ i, 0 < i → parent i=k → Function.update array k tmp i=array i := by
        intro i hi hp
        have hlt := parent_lt hi
        exact update_of_ne (by omega) _ _
      by_cases hstop : cmp (array c) tmp > 0
      · rw [if_pos hstop]
        have hlt := (hcb.pos_iff _ _).mp hstop
        refine ⟨k,array,s,rfl,hsift,hdown.finish fun i hi hin hp => ?_⟩
        rw [update_self,hchild i hi hp]
        exact hlt.le.trans (hfst i hi hin hp)
      rw [if_neg hstop,update_self]
      apply ih (by omega) (by omega) (hsift.move hcb (by omega) hcn hkc.ne)
      rw [update_update_eq_exchange hkc.ne]
      apply hdown.move hpos hcn hpar
      · intro i hi hin hp
        rw [hchild i hi hp,hchild c hpos hpar]
        exact hfst i hi hin hp
      rw [hchild c hpos hpar,update_self]
      by_contra hcon
      exact hstop ((hcb.pos_iff _ _).mpr (not_le.mp hcon))
    · rw [if_neg hhave]
      refine ⟨k,array,s,rfl,hsift,hdown.finish fun i hi hin hp => ?_⟩
      unfold parent at hp
      omega

end

/-- What a sift over the first `n` slots leaves behind. -/
structure Sifted (key : α→τ) (track : σ→α→ℤ) (n : ℕ) (g : ℕ→α) (tmp : α) (s : σ)
    (array' : ℕ→α) (s' : σ) : Prop where
  order : HeapOrder key array' n
  tracked : ∀ i, i<n → track s' (array' i)=i
  mem_iff : ∀ a, (∃ i<n, array' i=a) ↔ ∃ i<n, g i=a
  frame : ∀ b, b≠tmp → (∀ i, i<n → g i≠b) → track s' b=track s b

section

variable (hcb : Callbacks cmp update key track) (queue : PQueue α)
include hcb

theorem trickleUp_spec (s : σ) (hk : k<n)
    (hsift : Sifting track (queue.array k) n queue.array s k queue.array s)
    (hup : UpOrder key queue.array n k) :
    ∃ array' s', trickleUp cmp update k queue s=({queue with array := array'},s') ∧
      Sifted key track n queue.array (queue.array k) s array' s' := by
  obtain ⟨k',array',s',hloop,hsift',horder⟩ :=
    trickleUpLoop_spec hcb (k+1) (Nat.lt_succ_self k) hk hsift (by rw [update_eq_self]; exact hup)
  obtain ⟨htracked,hmem,hframe⟩ := hsift'.finish hcb
  exact ⟨_,_,by rw [trickleUp,hloop],horder,htracked,hmem,hframe⟩

theorem trickleDown_spec (s : σ) (hk : k≤queue.size)
    (hsift : Sifting track (queue.array k) queue.size queue.array s k queue.array s)
    (hdown : DownOrder key queue.array queue.size k) :
    ∃ array' s', trickleDown cmp update k queue s=({queue with array := array'},s') ∧
      Sifted key track queue.size queue.array (queue.array k) s array' s' := by
  obtain ⟨k',array',s',hloop,hsift',horder⟩ :=
    trickleDownLoop_spec hcb (queue.size+1) (by omega) hk hsift
      (by rw [update_eq_self]; exact hdown)
  obtain ⟨htracked,hmem,hframe⟩ := hsift'.finish hcb
  exact ⟨_,_,by rw [trickleDown,hloop],horder,htracked,hmem,hframe⟩

/-- `pqueue_enqueue` adds one element. -/
theorem pqueueEnqueue_spec {queue : PQueue α} {s : σ}
    {data : α} (h : Valid key track queue s) (hnew : ¬queue.Mem data) :
    ∃ queue' s', pqueueEnqueue cmp update data queue s=(queue',s') ∧
      Valid key track queue' s' ∧ queue'.size=queue.size+1 ∧
      (∀ a, queue'.Mem a ↔ queue.Mem a ∨ a=data) ∧
      ∀ b, b≠data → ¬queue.Mem b → track s' b=track s b := by
  have hold : ∀ i, i<queue.size → queue.array i≠data := fun i hi he => hnew ⟨i,hi,he⟩
  have hslot : ∀ i, i≠queue.size → Function.update queue.array queue.size data i=queue.array i :=
    fun i hi => update_of_ne hi _ _
  have hlast : Function.update queue.array queue.size data queue.size=data :=
    update_self _ _ _
  have hgrown : ∃ c, queue.size+1<c ∧
      (if queue.size+2 ≥ queue.arraySize then pqueueExpand queue else queue) =
        {queue with arraySize := c} := by
    have hfits := h.fits
    by_cases hfull : queue.size+2 ≥ queue.arraySize
    · exact ⟨queue.arraySize*2,by omega,by rw [if_pos hfull]; rfl⟩
    · exact ⟨queue.arraySize,by omega,by rw [if_neg hfull]⟩
  obtain ⟨c,hc,hexpand⟩ := hgrown
  have hsift : Sifting track data (queue.size+1) (Function.update queue.array queue.size data)
      (update data queue.size s) queue.size (Function.update queue.array queue.size data)
      (update data queue.size s) := by
    have hstart := Sifting.start track (queue.size+1) queue.size
      (Function.update queue.array queue.size data) (update data queue.size s)
    rw [hlast] at hstart
    apply hstart
    · intro i hi hne
      rw [hslot i hne]
      exact hold i (by omega)
    intro i hi hne
    have hlt : i<queue.size := by omega
    rw [hslot i hne,hcb.track_other _ _ (hold i hlt)]
    exact h.tracked i hlt
  obtain ⟨array',s',hup,hsifted⟩ := trickleUp_spec hcb
    {queue with arraySize := c,array := Function.update queue.array queue.size data} _
    (Nat.lt_succ_self queue.size) (by dsimp only; rw [hlast]; exact hsift) (h.order.append data)
  dsimp only at hup hsifted
  rw [hlast] at hsifted
  refine ⟨⟨array',c,queue.size+1⟩,s',?_,⟨hsifted.order,hsifted.tracked,hc⟩,rfl,?_,?_⟩
  · rw [pqueueEnqueue,hexpand]
    rw [hup]
  · intro a
    refine (hsifted.mem_iff a).trans ⟨?_,?_⟩
    · rintro ⟨i,hi,rfl⟩
      by_cases hne : i=queue.size
      · rw [hne,hlast]
        exact .inr rfl
      rw [hslot i hne]
      exact .inl ⟨i,by omega,rfl⟩
    rintro (⟨i,hi,rfl⟩|rfl)
    · exact ⟨i,by omega,hslot i (by omega)⟩
    · exact ⟨queue.size,by omega,hlast⟩
  · intro b hb hout
    rw [hsifted.frame b hb,hcb.track_other _ _ hb]
    intro i hi
    by_cases hne : i=queue.size
    · rw [hne,hlast]
      exact Ne.symm hb
    rw [hslot i hne]
    exact fun he => hout ⟨i,by omega,he⟩

/-- `pqueue_remove_at` removes the element at a position. -/
theorem pqueueRemoveAt_spec {queue : PQueue α} {s : σ} (h : Valid key track queue s)
    (hk : k<queue.size) :
    ∃ queue' s', pqueueRemoveAt cmp update k queue s=(queue',s') ∧
      Valid key track queue' s' ∧ queue'.size+1=queue.size ∧
      (∀ a, queue'.Mem a ↔ queue.Mem a ∧ a≠queue.array k) ∧
      ∀ b, ¬queue.Mem b → track s' b=track s b := by
  obtain ⟨array,arraySize,size⟩ := queue
  obtain ⟨m,rfl⟩ : ∃ m, size=m+1 := ⟨size-1,by dsimp only at hk; omega⟩
  have horder : HeapOrder key array (m+1) := h.order
  have hinj : ∀ {i j}, i < m+1 → j < m+1 → array i=array j → i=j := fun hi hj he => h.inj hi hj he
  dsimp only at hk ⊢
  have hmem : ∀ a, (∃ i < m, Function.update array k (array m) i=a) ↔
      (∃ i < m+1, array i=a) ∧ a≠array k := by
    intro a
    constructor
    · rintro ⟨i,hi,rfl⟩
      by_cases hik : i=k
      · rw [hik,update_self]
        exact ⟨⟨m,by omega,rfl⟩,fun he => by have := hinj (by omega) hk he; omega⟩
      rw [update_of_ne hik]
      exact ⟨⟨i,by omega,rfl⟩,fun he => hik (hinj (by omega) hk he)⟩
    · rintro ⟨⟨i,hi,rfl⟩,hne⟩
      have hik : i≠k := fun he => hne (by rw [he])
      by_cases him : i=m
      · exact ⟨k,by omega,by rw [update_self,him]⟩
      · exact ⟨i,by omega,update_of_ne hik _ _⟩
  have hsift : Sifting track (array m) m (Function.update array k (array m)) s k
      (Function.update array k (array m)) s := by
    have hstart := Sifting.start track m k (Function.update array k (array m)) s
    rw [update_self] at hstart
    apply hstart
    · intro i hi hik
      rw [update_of_ne hik]
      exact fun he => by have := hinj (by omega) (by omega) he; omega
    intro i hi hik
    rw [update_of_ne hik]
    exact h.tracked i (show i < m+1 by omega)
  have hresult : ∃ array' s', pqueueRemoveAt cmp update k ⟨array,arraySize,m+1⟩ s =
      (⟨array',arraySize,m⟩,s') ∧
      Sifted key track m (Function.update array k (array m)) (array m) s array' s' := by
    simp only [pqueueRemoveAt,Nat.add_sub_cancel]
    by_cases hup : 0<k ∧ cmp (Function.update array k (array m) k)
        (Function.update array k (array m) (parentOf k))<0
    · rw [if_pos hup]
      have hpk := parent_lt hup.1
      have hpar : parentOf k=parent k := rfl
      have hlt := (hcb.neg_iff _ _).mp hup.2
      rw [hpar,update_self,update_of_ne hpk.ne] at hlt
      have hkm : k < m := by
        by_contra hge
        have hkm : k=m := by omega
        exact absurd (horder k hup.1 hk) (not_le.mpr (hkm ▸ hlt))
      have hspec := trickleUp_spec hcb ⟨Function.update array k (array m),arraySize,m⟩ s hkm
        (by dsimp only; rw [update_self]; exact hsift)
        ((horder.mono (Nat.le_succ m)).replace_up hup.1 hkm hlt)
      dsimp only at hspec
      rwa [update_self] at hspec
    · rw [if_neg hup]
      have hspec := trickleDown_spec hcb ⟨Function.update array k (array m),arraySize,m⟩ s
        (show k ≤ m by omega) (by dsimp only; rw [update_self]; exact hsift)
        ((horder.mono (Nat.le_succ m)).replace_down fun hpos _ => by
          have hpk := parent_lt hpos
          by_contra hcon
          refine hup ⟨hpos,(hcb.neg_iff _ _).mpr ?_⟩
          have hpar : parentOf k=parent k := rfl
          rw [hpar,update_self,update_of_ne hpk.ne]
          exact not_le.mp hcon)
      dsimp only at hspec
      rwa [update_self] at hspec
  obtain ⟨array',s',heq,hsifted⟩ := hresult
  have hfits : m+1<arraySize := h.fits
  refine ⟨_,s',heq,⟨hsifted.order,hsifted.tracked,show m<arraySize by omega⟩,rfl,?_,?_⟩
  · intro a
    exact (hsifted.mem_iff a).trans (hmem a)
  intro b hout
  apply hsifted.frame b
  · rintro rfl
    exact hout ⟨m,Nat.lt_succ_self m,rfl⟩
  intro i hi he
  exact hout ((hmem b).mp ⟨i,hi,he⟩).1

end

end

section

variable {β : Type w} (cmp : α→α→ℤ) {update : α→ℕ→σ→σ} {view : σ→β}
variable (hview : ∀ a i s, view (update a i s)=view s) (index : ℕ) (queue : PQueue α)

include hview

theorem trickleUpLoop_view (tmp : α) (fuel index : ℕ) (array : ℕ→α) (s : σ) :
    view (trickleUpLoop cmp update tmp fuel index array s).2.2=view s := by
  induction fuel generalizing index array s with
  | zero => rfl
  | succ fuel ih =>
    rw [trickleUpLoop]
    split
    · rw [ih,hview]
    · rfl

theorem trickleDownLoop_view (tmp : α) (size fuel index : ℕ) (array : ℕ→α) (s : σ) :
    view (trickleDownLoop cmp update tmp size fuel index array s).2.2=view s := by
  induction fuel generalizing index array s with
  | zero => rfl
  | succ fuel ih =>
    rw [trickleDownLoop]
    split
    · dsimp only
      split
      · rfl
      · rw [ih,hview]
    · rfl

theorem trickleUp_view (s : σ) : view (trickleUp cmp update index queue s).2=view s := by
  rw [trickleUp]
  rw [hview,trickleUpLoop_view cmp hview]

theorem trickleDown_view (s : σ) : view (trickleDown cmp update index queue s).2=view s := by
  rw [trickleDown]
  rw [hview,trickleDownLoop_view cmp hview]

theorem pqueueEnqueue_view (data : α) (queue : PQueue α) (s : σ) :
    view (pqueueEnqueue cmp update data queue s).2=view s := by
  rw [pqueueEnqueue]
  rw [trickleUp_view cmp hview,hview]

theorem pqueueRemoveAt_view (s : σ) : view (pqueueRemoveAt cmp update index queue s).2=view s := by
  rw [pqueueRemoveAt]
  split
  · rw [trickleUp_view cmp hview]
  · rw [trickleDown_view cmp hview]

end

end RoutePlatform.PriorityQueue
