import Mathlib

/-!
# Intrusive doubly linked lists

The links live in the nodes, and many lists share one memory. A segment is a run of nodes linked
in both directions, with what comes before and after, so that segments can be cut and joined.
Disjoint lists do not disturb each other.
-/

namespace RoutePlatform.LinkedNodes

open List Option

variable {t k : ℕ} {xs : List ℕ}

universe u

variable {ys : List ℕ}

/-- A node with its two links and its contents. -/
@[ext] structure Node (ρ : Type u) where
  next : Option ℕ
  prev : Option ℕ
  data : ρ

abbrev Memory (ρ : Type u) := ℕ→Node ρ

variable {ρ : Type u}

/-- Write the forward link of a node, if there is one. -/
def setNext (mem : Memory ρ) (i v : Option ℕ) : Memory ρ :=
  match i with
  | none => mem
  | some i => Function.update mem i {mem i with next := v}

/-- Write the backward link of a node, if there is one. -/
def setPrev (mem : Memory ρ) (i v : Option ℕ) : Memory ρ :=
  match i with
  | none => mem
  | some i => Function.update mem i {mem i with prev := v}

section

variable (mem : Memory ρ) (i v : Option ℕ) (k : ℕ)

theorem next_setNext : (setNext mem i v k).next=if i=some k then v else (mem k).next := by
  cases i with
  | none => simp [setNext]
  | some i =>
    by_cases hk : k=i
    · simp [setNext,hk]
    · simp [setNext,hk,Ne.symm hk]

theorem prev_setPrev : (setPrev mem i v k).prev=if i=some k then v else (mem k).prev := by
  cases i with
  | none => simp [setPrev]
  | some i =>
    by_cases hk : k=i
    · simp [setPrev,hk]
    · simp [setPrev,hk,Ne.symm hk]

@[simp] theorem prev_setNext : (setNext mem i v k).prev=(mem k).prev := by
  cases i with
  | none => rfl
  | some i =>
    by_cases hk : k=i
    · simp [setNext,hk]
    · simp [setNext,hk]

@[simp] theorem next_setPrev : (setPrev mem i v k).next=(mem k).next := by
  cases i with
  | none => rfl
  | some i =>
    by_cases hk : k=i
    · simp [setPrev,hk]
    · simp [setPrev,hk]

@[simp] theorem data_setNext : (setNext mem i v k).data=(mem k).data := by
  cases i with
  | none => rfl
  | some i =>
    by_cases hk : k=i
    · simp [setNext,hk]
    · simp [setNext,hk]

@[simp] theorem data_setPrev : (setPrev mem i v k).data=(mem k).data := by
  cases i with
  | none => rfl
  | some i =>
    by_cases hk : k=i
    · simp [setPrev,hk]
    · simp [setPrev,hk]

end

/-- The nodes `xs` are linked in both directions, behind `p` and before `q`. -/
def Segment (mem : Memory ρ) : Option ℕ→List ℕ→Option ℕ→Prop
  | _, [], _ => True
  | p, x::xs, q => (mem x).prev=p ∧ (mem x).next=xs.head?.or q ∧ Segment mem (some x) xs q

section

variable {mem mem' : Memory ρ} {p q : Option ℕ} {xs ys : List ℕ}

theorem Segment.congr (h : Segment mem p xs q)
    (hlinks : ∀ x∈xs, (mem' x).next=(mem x).next ∧ (mem' x).prev=(mem x).prev) :
    Segment mem' p xs q := by
  induction xs generalizing p with
  | nil => trivial
  | cons x xs ih =>
    obtain ⟨hnext,hprev⟩ := hlinks x mem_cons_self
    obtain ⟨h1,h2,h3⟩ := h
    exact ⟨hprev.trans h1,hnext.trans h2,ih h3 fun y hy => hlinks y (mem_cons_of_mem x hy)⟩

theorem segment_append : Segment mem p (xs++ys) q ↔
    Segment mem p xs (ys.head?.or q) ∧ Segment mem (xs.getLast?.or p) ys q := by
  induction xs generalizing p with
  | nil => simp [Segment]
  | cons x xs ih =>
    have hhead : (xs++ys).head?.or q=xs.head?.or (ys.head?.or q) := by cases xs <;> simp
    have hlast : (x::xs).getLast?.or p=xs.getLast?.or (some x) := by
      rw [getLast?_cons]
      cases xs.getLast? <;> simp
    rw [cons_append,Segment,Segment,ih,hhead,hlast,and_assoc,and_assoc]

theorem Segment.setNext_getLast (h : Segment mem p xs q) (hnd : xs.Nodup) (q' : Option ℕ) :
    Segment (setNext mem xs.getLast? q') p xs q' := by
  induction xs generalizing p with
  | nil => trivial
  | cons x xs ih =>
    obtain ⟨h1,h2,h3⟩ := h
    rw [nodup_cons] at hnd
    refine ⟨by rw [prev_setNext,h1],?_,?_⟩
    · rw [next_setNext]
      cases xs with
      | nil => simp
      | cons y ys =>
        rw [if_neg,h2]
        · simp
        intro he
        rw [getLast?_cons_cons] at he
        exact hnd.1 (mem_of_getLast? he)
    cases xs with
    | nil => trivial
    | cons y ys =>
      rw [getLast?_cons_cons]
      exact ih h3 hnd.2

theorem Segment.setPrev_head (h : Segment mem p xs q) (hnd : xs.Nodup) (p' : Option ℕ) :
    Segment (setPrev mem xs.head? p') p' xs q := by
  cases xs with
  | nil => trivial
  | cons x xs =>
    obtain ⟨-,h2,h3⟩ := h
    rw [nodup_cons] at hnd
    refine ⟨?_,?_,h3.congr fun y hy => ⟨?_,?_⟩⟩
    · rw [prev_setPrev,head?_cons,if_pos rfl]
    · rw [next_setPrev,h2]
    · rw [next_setPrev]
    rw [prev_setPrev,if_neg]
    intro he
    cases he
    exact hnd.1 hy

end

structure Linked (mem : Memory ρ) (xs : List ℕ) : Prop where
  segment : Segment mem none xs none
  nodup : xs.Nodup

theorem Linked.congr {mem mem' : Memory ρ} (h : Linked mem xs)
    (hlinks : ∀ x∈xs, (mem' x).next=(mem x).next ∧ (mem' x).prev=(mem x).prev) :
    Linked mem' xs := ⟨h.segment.congr hlinks,h.nodup⟩

/-- Unlink a node: its neighbours are joined and its own links cleared. -/
def detach (mem : Memory ρ) (t : ℕ) : Memory ρ :=
  let mem := setPrev mem (mem t).next (mem t).prev
  let mem := setNext mem (mem t).prev (mem t).next
  setPrev (setNext mem (some t) none) (some t) none

variable (mem : Memory ρ)

@[simp] theorem data_detach (t k : ℕ) : (detach mem t k).data=(mem k).data := by
  simp [detach]

theorem next_detach_self (t : ℕ) : (detach mem t t).next=none := by
  simp [detach,next_setNext]

theorem prev_detach_self (t : ℕ) : (detach mem t t).prev=none := by
  simp [detach,prev_setPrev]

theorem links_detach {mem : Memory ρ} (ht : (mem t).next≠some t) (hkt : k≠t)
    (hnext : (mem t).next≠some k) (hprev : (mem t).prev≠some k) :
    (detach mem t k).next=(mem k).next ∧ (detach mem t k).prev=(mem k).prev := by
  have hsame : (setPrev mem (mem t).next (mem t).prev t).prev=(mem t).prev := by
    rw [prev_setPrev,if_neg ht]
  simp only [detach]
  rw [hsame]
  constructor
  · rw [next_setPrev,next_setNext,if_neg (fun h => hkt (some.inj h).symm),next_setNext,
      if_neg hprev,next_setPrev]
  · rw [prev_setPrev,if_neg (fun h => hkt (some.inj h).symm),prev_setNext,prev_setNext,
      prev_setPrev,if_neg hnext]

section

variable {mem : Memory ρ} {as bs : List ℕ} {t : ℕ}

variable (h : Linked mem (as++t::bs))
include h

theorem Linked.neighbours : (mem t).prev=as.getLast? ∧ (mem t).next=bs.head? := by
  have hcut := (segment_append.mp h.segment).2
  obtain ⟨h1,h2,-⟩ := hcut
  rw [or_none] at h1 h2
  exact ⟨h1,h2⟩

theorem Linked.detach : Linked (detach mem t) (as++bs) := by
  obtain ⟨hprev,hnext⟩ := h.neighbours
  have hnd := h.nodup
  obtain ⟨hsegA,hsegT⟩ := segment_append.mp h.segment
  obtain ⟨-,-,hsegB⟩ := hsegT
  have hsub := hnd.sublist (List.Sublist.append_left (sublist_cons_self t bs) as)
  obtain ⟨hndA,hndTB,hdisj⟩ := nodup_append.mp hnd
  obtain ⟨htB,hndB⟩ := nodup_cons.mp hndTB
  have htA : t ∉ as := fun ht => hdisj t ht t mem_cons_self rfl
  have hdisjAB : ∀ x∈as, x ∉ bs := fun x hx hxb => hdisj x hx x (mem_cons_of_mem t hxb) rfl
  have hne : (mem t).next≠some t := by
    rw [hnext]
    exact fun he => htB (mem_of_head? he)
  have hsame : (setPrev mem (mem t).next (mem t).prev t).prev=(mem t).prev := by
    rw [prev_setPrev,if_neg hne]
  refine ⟨segment_append.mpr ⟨?_,?_⟩,hsub⟩
  · rw [or_none]
    have h1 := hsegA.setNext_getLast hndA bs.head?
    refine h1.congr fun x hx => ?_
    have hxt : x≠t := fun he => htA (he ▸ hx)
    simp only [LinkedNodes.detach]
    rw [hsame,hprev,hnext]
    constructor
    · rw [next_setPrev,next_setNext,if_neg (fun he => hxt (some.inj he).symm),
        next_setNext,next_setNext,next_setPrev,next_setPrev,hnext]
    · rw [prev_setPrev,if_neg (fun he => hxt (some.inj he).symm),prev_setNext,
        prev_setNext,prev_setPrev,prev_setNext,if_neg]
      exact fun he => hdisjAB x hx (mem_of_head? he)
  · have h1 := hsegB.setPrev_head hndB (as.getLast?.or none)
    refine h1.congr fun x hx => ?_
    have hxt : x≠t := fun he => htB (he ▸ hx)
    simp only [LinkedNodes.detach]
    rw [hsame,hprev,hnext]
    constructor
    · rw [next_setPrev,next_setNext,if_neg (fun he => hxt (some.inj he).symm),
        next_setNext,if_neg,next_setPrev,next_setPrev]
      exact fun he => hdisjAB x (mem_of_getLast? he) hx
    · rw [prev_setPrev,if_neg (fun he => hxt (some.inj he).symm),prev_setNext,
        prev_setNext,prev_setPrev,prev_setPrev,or_none]

/-- Lists without a common node are not disturbed by a removal. -/
theorem Linked.detach_other (hy : Linked mem ys) (hdisj : ∀ y∈ys, y ∉ as++t::bs) :
    Linked (LinkedNodes.detach mem t) ys := by
  obtain ⟨hprev,hnext⟩ := h.neighbours
  have hmem : ∀ {y}, y∈ys → y ∉ as ∧ y≠t ∧ y ∉ bs := by
    intro y hy
    have hn := hdisj y hy
    rw [mem_append,mem_cons] at hn
    exact ⟨fun h => hn (.inl h),fun h => hn (.inr (.inl h)),fun h => hn (.inr (.inr h))⟩
  have hne : (mem t).next≠some t := by
    rw [hnext]
    intro he
    have hnd := (nodup_append.mp h.nodup).2.1
    exact (nodup_cons.mp hnd).1 (mem_of_head? he)
  refine hy.congr fun y hy => links_detach hne (hmem hy).2.1 ?_ ?_
  · rw [hnext]
    exact fun he => (hmem hy).2.2 (mem_of_head? he)
  rw [hprev]
  exact fun he => (hmem hy).1 (mem_of_getLast? he)

end

/-- Join the neighbours of a node. -/
def unlink (mem : Memory ρ) (t : ℕ) : Memory ρ :=
  let mem := setPrev mem (mem t).next (mem t).prev
  setNext mem (mem t).prev (mem t).next

@[simp] theorem data_unlink (t k : ℕ) : (unlink mem t k).data=(mem k).data := by
  simp [unlink]

theorem links_unlink_eq_detach (hk : k≠t) : (unlink mem t k).next=(detach mem t k).next ∧
      (unlink mem t k).prev=(detach mem t k).prev := by
  have hkt : some t≠some k := fun he => hk (some.inj he).symm
  have hdetach : detach mem t=setPrev (setNext (unlink mem t) (some t) none) (some t) none := rfl
  rw [hdetach,next_setPrev,next_setNext,if_neg hkt,prev_setPrev,if_neg hkt,prev_setNext]
  exact ⟨rfl,rfl⟩

section

variable {mem : Memory ρ} {as bs : List ℕ} {t : ℕ}

theorem Linked.unlink (h : Linked mem (as++t::bs)) : Linked (unlink mem t) (as++bs) := by
  refine h.detach.congr fun x hx => links_unlink_eq_detach mem fun he => ?_
  have hnot := (nodup_middle.mp h.nodup).notMem
  exact hnot (he ▸ hx)

theorem Linked.unlink_other (h : Linked mem (as++t::bs)) (hy : Linked mem ys)
    (hdisj : ∀ y∈ys, y ∉ as++t::bs) : Linked (LinkedNodes.unlink mem t) ys := by
  refine (h.detach_other hy hdisj).congr fun y hy => links_unlink_eq_detach mem fun he => ?_
  exact hdisj y hy (he ▸ mem_append_right as mem_cons_self)

end

/-- Link a node behind `tail`. -/
def attachTail (mem : Memory ρ) (tail : Option ℕ) (t : ℕ) : Memory ρ :=
  setNext (setPrev (setNext mem (some t) none) (some t) tail) tail (some t)

/-- Link a node before `head`. -/
def attachHead (mem : Memory ρ) (head : Option ℕ) (t : ℕ) : Memory ρ :=
  setPrev (setPrev (setNext mem (some t) head) (some t) none) head (some t)

@[simp] theorem data_attachTail (tail : Option ℕ) (t k : ℕ) :
    (attachTail mem tail t k).data=(mem k).data := by
  simp [attachTail]

@[simp] theorem data_attachHead (head : Option ℕ) (t k : ℕ) :
    (attachHead mem head t k).data=(mem k).data := by
  simp [attachHead]

theorem links_attachHead {mem : Memory ρ} {head : Option ℕ} (hkt : k≠t) (hhead : head≠some k) :
    (attachHead mem head t k).next=(mem k).next ∧ (attachHead mem head t k).prev=(mem k).prev := by
  have hne : some t≠some k := fun he => hkt (some.inj he).symm
  simp only [attachHead,next_setNext,next_setPrev,prev_setNext,prev_setPrev]
  rw [if_neg hne,if_neg hhead,if_neg hne]
  exact ⟨rfl,rfl⟩

section

variable {mem : Memory ρ} {xs : List ℕ} {t : ℕ}

theorem Linked.attachTail (h : Linked mem xs) (ht : t ∉ xs) :
    Linked (attachTail mem xs.getLast? t) (xs++[t]) := by
  have hlast : xs.getLast? ≠ some t := fun he => ht (mem_of_getLast? he)
  refine ⟨segment_append.mpr ⟨?_,?_,?_,trivial⟩,?_⟩
  · have h1 := h.segment.setNext_getLast h.nodup (some t)
    refine h1.congr fun x hx => ?_
    have hxt : some t≠some x := fun he => ht (some.inj he ▸ hx)
    simp only [LinkedNodes.attachTail,next_setNext,next_setPrev,prev_setNext,prev_setPrev]
    rw [if_neg hxt,if_neg hxt]
    exact ⟨rfl,rfl⟩
  · simp [LinkedNodes.attachTail,prev_setPrev]
  · simp [LinkedNodes.attachTail,next_setNext,hlast]
  exact nodup_append.mpr ⟨h.nodup,nodup_singleton t,fun x hx y hy he => ht (by
    rw [mem_singleton] at hy
    rwa [←hy,←he])⟩

theorem Linked.attachHead (h : Linked mem xs) (ht : t ∉ xs) :
    Linked (attachHead mem xs.head? t) (t::xs) := by
  have hhead : xs.head? ≠ some t := fun he => ht (mem_of_head? he)
  refine ⟨⟨?_,?_,?_⟩,nodup_cons.mpr ⟨ht,h.nodup⟩⟩
  · simp [LinkedNodes.attachHead,prev_setPrev,hhead]
  · simp [LinkedNodes.attachHead,next_setNext]
  have h1 := h.segment.setPrev_head h.nodup (some t)
  refine h1.congr fun x hx => ?_
  have hxt : some t≠some x := fun he => ht (some.inj he ▸ hx)
  simp only [LinkedNodes.attachHead,next_setNext,next_setPrev,prev_setNext,prev_setPrev]
  rw [if_neg hxt,if_neg hxt]
  exact ⟨rfl,rfl⟩

theorem Linked.attachTail_other (hy : Linked mem ys) (ht : t ∉ ys) (hdisj : ∀ y∈ys, y ∉ xs) :
    Linked (LinkedNodes.attachTail mem xs.getLast? t) ys := by
  refine hy.congr fun y hy => ?_
  have hyt : some t≠some y := fun he => ht (some.inj he ▸ hy)
  have hyl : xs.getLast? ≠ some y := fun he => hdisj y hy (mem_of_getLast? he)
  simp only [LinkedNodes.attachTail,next_setNext,next_setPrev,prev_setNext,prev_setPrev]
  rw [if_neg hyt,if_neg hyt,if_neg hyl]
  exact ⟨rfl,rfl⟩

theorem Linked.attachHead_other (hy : Linked mem ys) (ht : t ∉ ys) (hdisj : ∀ y∈ys, y ∉ xs) :
    Linked (LinkedNodes.attachHead mem xs.head? t) ys :=
  hy.congr fun y hy => links_attachHead (fun he => ht (he ▸ hy))
    fun he => hdisj y hy (mem_of_head? he)

end

/-- Link a node before another one. -/
def attachBefore (mem : Memory ρ) (point t : ℕ) : Memory ρ :=
  let mem := setNext mem (some t) (some point)
  let mem := setNext mem (mem point).prev (some t)
  let mem := setPrev mem (some t) (mem point).prev
  setPrev mem (some point) (some t)

@[simp] theorem data_attachBefore (point t k : ℕ) :
    (attachBefore mem point t k).data=(mem k).data := by
  simp [attachBefore]

theorem links_attachBefore (point : ℕ) {t k : ℕ} (hkt : k≠t) : (attachBefore mem point t k).next =
        (if (mem point).prev=some k then some t else (mem k).next) ∧
      (attachBefore mem point t k).prev=if k=point then some t else (mem k).prev := by
  have hne : some t≠some k := fun he => hkt (some.inj he).symm
  simp only [attachBefore,next_setNext,next_setPrev,prev_setNext,prev_setPrev,
    some.injEq,eq_comm (a := k)]
  rw [if_neg (fun he => hne (congrArg some he)),if_neg (fun he => hne (congrArg some he))]
  exact ⟨rfl,rfl⟩

section

variable {mem : Memory ρ} {as bs : List ℕ} {point t : ℕ}

variable (h : Linked mem (as++point::bs))
include h

theorem Linked.attachBefore (ht : t ∉ as++point::bs) :
    Linked (attachBefore mem point t) (as++t::point::bs) := by
  have hprev := h.neighbours.1
  obtain ⟨hsegA,hsegB⟩ := segment_append.mp h.segment
  obtain ⟨hndA,hndB,hdisj⟩ := nodup_append.mp h.nodup
  have hpt : t≠point := fun he => ht (he ▸ mem_append_right as mem_cons_self)
  have hlast : as.getLast? ≠ some t := fun he => ht (mem_append_left _ (mem_of_getLast? he))
  refine ⟨segment_append.mpr ⟨?_,?_,?_,?_⟩,?_⟩
  · have h1 := hsegA.setNext_getLast hndA (some t)
    refine h1.congr fun x hx => ?_
    have hxt : x≠t := fun he => ht (he ▸ mem_append_left _ hx)
    have hxp : x≠point := fun he => hdisj x hx point mem_cons_self he
    obtain ⟨hn,hp⟩ := links_attachBefore mem point hxt
    rw [hn,hp,if_neg hxp,next_setNext,prev_setNext,hprev]
    exact ⟨rfl,rfl⟩
  · simp [LinkedNodes.attachBefore,prev_setPrev,hprev,hpt.symm]
  · simp [LinkedNodes.attachBefore,next_setNext,hprev,hlast]
  · have h1 := hsegB.setPrev_head hndB (some t)
    refine h1.congr fun x hx => ?_
    have hxt : x≠t := fun he => ht (he ▸ mem_append_right _ hx)
    have hxa : as.getLast? ≠ some x := fun he => hdisj x (mem_of_getLast? he) x hx rfl
    obtain ⟨hn,hp⟩ := links_attachBefore mem point hxt
    rw [hn,hp,hprev,if_neg hxa,next_setPrev,prev_setPrev,head?_cons]
    simp only [some.injEq,eq_comm (a := x),and_self]
  have hperm : (as++t::point::bs).Perm (t::(as++point::bs)) := perm_middle
  exact hperm.nodup_iff.mpr (nodup_cons.mpr ⟨ht,h.nodup⟩)

theorem Linked.attachBefore_other (hy : Linked mem ys) (ht : t ∉ ys)
    (hdisj : ∀ y∈ys, y ∉ as++point::bs) : Linked (LinkedNodes.attachBefore mem point t) ys := by
  refine hy.congr fun y hy => ?_
  have hyt : y≠t := fun he => ht (he ▸ hy)
  have hyp : y≠point := fun he => hdisj y hy (he ▸ mem_append_right as mem_cons_self)
  have hya : as.getLast? ≠ some y := fun he => hdisj y hy (mem_append_left _ (mem_of_getLast? he))
  obtain ⟨hn,hp⟩ := links_attachBefore mem point hyt
  rw [hn,hp,h.neighbours.1,if_neg hya,if_neg hyp]
  exact ⟨rfl,rfl⟩

end

/-- The nodes from a pointer on, if the links end after at most so many. -/
def chain (mem : Memory ρ) : ℕ→Option ℕ→Option (List ℕ)
  | _, none => some []
  | 0, some _ => none
  | fuel+1, some t => (chain mem fuel (mem t).next).map (t :: ·)

theorem Segment.chain {mem : Memory ρ} (fuel : ℕ) : ∀ {p : Option ℕ} {xs : List ℕ},
    Segment mem p xs none → xs.length≤fuel → chain mem fuel xs.head? = some xs := by
  induction fuel with
  | zero =>
    intro p xs _ hlen
    have hnil : xs=[] := length_eq_zero_iff.mp (by omega)
    rw [hnil]
    rfl
  | succ fuel ih =>
    intro p xs h hlen
    cases xs with
    | nil => rfl
    | cons x xs =>
      obtain ⟨_,hnext,hrs⟩ := h
      rw [length_cons] at hlen
      rw [head?_cons,LinkedNodes.chain,hnext,or_none,ih hrs (by omega),map_some]

theorem Linked.chain {mem : Memory ρ} {fuel : ℕ} (h : Linked mem xs) (hlen : xs.length≤fuel) :
    chain mem fuel xs.head? = some xs :=
  h.segment.chain fuel hlen

end RoutePlatform.LinkedNodes
