import RoutePlatform.LinkedNodes

/-!
# The generic list of `lib/linklist.c`

A `struct list` counts its nodes and points at its two ends. The node of a new
element is handed out by the caller, since all lists share one memory. Freeing
a node and its contents is left to the owner of the memory.
-/

namespace RoutePlatform.LinkList

open LinkedNodes Function List

universe u

variable {ρ : Type u}

/-- `struct list` with the memory of its nodes. -/
structure LinkList (ρ : Type u) where
  node : Memory ρ
  head : Option ℕ
  tail : Option ℕ
  count : ℕ

def listnodeAttach (l : LinkList ρ) (n : ℕ) : LinkList ρ :=
  { node := attachTail l.node l.tail n
    head := if l.head=none then some n else l.head
    tail := some n
    count := l.count+1 }

/-- `listnode_add`, with the new node. -/
def listnodeAdd (l : LinkList ρ) (n : ℕ) (val : ρ) : LinkList ρ :=
  listnodeAttach {l with node := update l.node n ⟨none,none,val⟩} n

def listnodeDetach (l : LinkList ρ) (n : ℕ) : LinkList ρ :=
  { node := unlink l.node n
    head := if (l.node n).prev=none then (l.node n).next else l.head
    tail := if (l.node n).next=none then (l.node n).prev else l.tail
    count := l.count-1 }

def listDeleteNode (l : LinkList ρ) (n : ℕ) : LinkList ρ := listnodeDetach l n

/-- Change the contents of a node. -/
def LinkList.modify (l : LinkList ρ) (n : ℕ) (f : ρ→ρ) : LinkList ρ :=
  {l with node := update l.node n {l.node n with data := f (l.node n).data}}

structure Holds (l : LinkList ρ) (xs : List ℕ) : Prop where
  linked : Linked l.node xs
  head : l.head=xs.head?
  tail : l.tail=xs.getLast?
  count : l.count=xs.length

theorem holds_nil (node : Memory ρ) : Holds ⟨node,none,none,0⟩ [] :=
  ⟨⟨trivial,nodup_nil⟩,rfl,rfl,rfl⟩

section

variable {l : LinkList ρ} {xs as bs : List ℕ} {n : ℕ}

theorem Holds.attach (h : Holds l xs) (hn : n ∉ xs) : Holds (listnodeAttach l n) (xs++[n]) where
  linked := by
    have hlnk := h.linked.attachTail hn
    rw [←h.tail] at hlnk
    exact hlnk
  head := by
    simp only [listnodeAttach]
    rw [h.head]
    cases xs with
    | nil | cons x xs => simp
  tail := by simp [listnodeAttach]
  count := by simp [listnodeAttach,h.count]

theorem Holds.add (h : Holds l xs) (hn : n ∉ xs) (val : ρ) :
    Holds (listnodeAdd l n val) (xs++[n]) := by
  have hnew : Holds {l with node := update l.node n ⟨none,none,val⟩} xs := by
    refine ⟨h.linked.congr fun x hx => ?_,h.head,h.tail,h.count⟩
    have hne : x≠n := fun he => hn (he ▸ hx)
    simp [hne]
  exact hnew.attach hn

theorem Holds.detach (h : Holds l (as++n::bs)) : Holds (listnodeDetach l n) (as++bs) := by
  obtain ⟨hprev,hnext⟩ := h.linked.neighbours
  refine ⟨h.linked.unlink,?_,?_,?_⟩
  · simp only [listnodeDetach]
    rw [hprev,hnext,h.head]
    cases as with
    | nil => simp
    | cons a as => simp [getLast?_cons]
  · simp only [listnodeDetach]
    rw [hprev,hnext,h.tail]
    cases bs with
    | nil => simp
    | cons b bs => simp [getLast?_append,getLast?_cons]
  simp only [listnodeDetach]
  rw [h.count,length_append,length_append,length_cons]
  omega

theorem Holds.modify (h : Holds l xs) (f : ρ→ρ) : Holds (l.modify n f) xs := by
  refine ⟨h.linked.congr fun x _ => ?_,h.head,h.tail,h.count⟩
  by_cases hx : x=n
  · rw [hx]
    simp [LinkList.modify]
  · simp [LinkList.modify,hx]

theorem Holds.next_mem (h : Holds l xs) (hn : n∈xs) {m : ℕ} (hnext : (l.node n).next=some m) :
    m∈xs ∧ m≠n := by
  obtain ⟨as,bs,hsplit⟩ := append_of_mem hn
  have hlnk := h.linked
  rw [hsplit] at hlnk
  have hm : m∈bs := by
    rw [hlnk.neighbours.2] at hnext
    exact mem_of_head? hnext
  constructor
  · rw [hsplit]
    exact mem_append_right _ (.tail _ hm)
  · intro heq
    have hcons := (nodup_append.mp hlnk.nodup).2.1
    exact (nodup_cons.mp hcons).1 (heq ▸ hm)

end

section

variable (l : LinkList ρ) (n k : ℕ)

@[simp] theorem data_listnodeAttach : ((listnodeAttach l n).node k).data=(l.node k).data :=
  data_attachTail l.node l.tail n k

@[simp] theorem data_listnodeDetach : ((listnodeDetach l n).node k).data=(l.node k).data :=
  data_unlink l.node n k

theorem data_listnodeAdd (val : ρ) :
    ((listnodeAdd l n val).node k).data=if k=n then val else (l.node k).data := by
  rw [listnodeAdd,data_listnodeAttach]
  by_cases hk : k=n
  · simp [hk]
  · simp [hk]

theorem data_modify (f : ρ→ρ) :
    ((l.modify n f).node k).data=if k=n then f (l.node n).data else (l.node k).data := by
  by_cases hk : k=n
  · simp [LinkList.modify,hk]
  · simp [LinkList.modify,hk]

end

end RoutePlatform.LinkList
