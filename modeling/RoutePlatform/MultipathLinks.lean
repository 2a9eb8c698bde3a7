import RoutePlatform.MultipathOperations

/-!
# Linked and unlinked paths

While the update runs, the paths are on the new chain, on what is left of the
old one, or on neither. Taking a path off and putting it behind the last of the
new chain keep this, and the flag follows the chains.
-/

namespace RoutePlatform.MultipathOperations

open LinkedNodes List Option

variable {mem : Paths} {as rs : List ℕ} {x : ℕ}

section

variable (f : Mpath→Mpath) (x k : ℕ)

@[simp] theorem next_modify : (modify mem x f k).next=(mem k).next := by
  by_cases hk : k=x
  · simp [modify,hk]
  · simp [modify,hk]

@[simp] theorem prev_modify : (modify mem x f k).prev=(mem k).prev := by
  by_cases hk : k=x
  · simp [modify,hk]
  · simp [modify,hk]

theorem data_modify : (modify mem x f k).data=if k=x then f (mem k).data else (mem k).data := by
  by_cases hk : k=x
  · simp [modify,hk]
  · simp [modify,hk]

end

def Unlinked (mem : Paths) (x : ℕ) : Prop := (mem x).next=none ∧ (mem x).prev=none

/-- The paths `as` and `rs` are two lists, and no other path is linked. -/
structure Links (mem : Paths) (as rs : List ℕ) : Prop where
  new : Linked mem as
  old : Linked mem rs
  apart : ∀ x∈as, x ∉ rs
  free : ∀ x, x ∉ as → x ∉ rs → Unlinked mem x
  lazy : ∀ x, (mem x).data.mpath=false → Unlinked mem x ∧ (mem x).data.multipath=false

theorem Links.modify (h : Links mem as rs) (x : ℕ) {f : Mpath→Mpath}
    (hflag : ∀ d, (f d).multipath=d.multipath) (hmade : ∀ d, d.mpath=true → (f d).mpath=true) :
    Links (modify mem x f) as rs where
  new := h.new.congr fun k _ => ⟨next_modify f x k,prev_modify f x k⟩
  old := h.old.congr fun k _ => ⟨next_modify f x k,prev_modify f x k⟩
  apart := h.apart
  free k hk hkr := by
    rw [Unlinked,next_modify,prev_modify]
    exact h.free k hk hkr
  lazy k hk := by
    rw [Unlinked,next_modify,prev_modify]
    rw [data_modify] at hk ⊢
    by_cases hkx : k=x
    · rw [if_pos hkx] at hk ⊢
      rw [hflag]
      exact h.lazy k (Bool.eq_false_iff.mpr fun hm => by
        rw [hmade _ hm] at hk
        exact Bool.false_ne_true hk.symm)
    rw [if_neg hkx] at hk ⊢
    exact h.lazy k hk

theorem multipath_modify (x k : ℕ) {f : Mpath → Mpath} (hflag : ∀ d, (f d).multipath=d.multipath) :
    (modify mem x f k).data.multipath=(mem k).data.multipath := by
  rw [data_modify]
  split
  · exact hflag _
  · rfl

/-- The links are cut as in any list of this kind, also where there is no element. -/
theorem Links.dequeue_eq (h : Links mem as rs) (x : ℕ) : bgpInfoMpathDequeue mem x =
    MultipathOperations.modify (detach mem x) x fun d => {d with multipath := false} := by
  cases hm : (mem x).data.mpath with
  | true =>
    have hnext : (setNext mem (mem x).prev (mem x).next x).next=(mem x).next := by
      rw [next_setNext,ite_self]
    have hprev : (setPrev mem (mem x).next (mem x).prev x).prev=(mem x).prev := by
      rw [prev_setPrev,ite_self]
    have hcomm : setPrev (setNext mem (mem x).prev (mem x).next) (mem x).next (mem x).prev =
        setNext (setPrev mem (mem x).next (mem x).prev) (mem x).prev (mem x).next := by
      funext k
      exact Node.ext (by simp [next_setNext]) (by simp [prev_setPrev]) (by simp)
    simp only [bgpInfoMpathDequeue,detach]
    rw [if_pos hm,hnext,prev_setNext,hprev,next_setPrev,hcomm]
  | false =>
    obtain ⟨⟨hnext,hprev⟩,hflag⟩ := h.lazy x hm
    rw [bgpInfoMpathDequeue,if_neg (by rw [hm]; exact Bool.false_ne_true)]
    funext k
    have hsame : detach mem x=setPrev (setNext mem (some x) none) (some x) none := by
      rw [detach,hnext,hprev]
      change setPrev (setNext (setNext mem (mem x).prev (mem x).next) _ _) _ _=_
      rw [hnext,hprev]
      rfl
    by_cases hk : k=x
    · rw [hk]
      refine Node.ext ?_ ?_ ?_
      · simp [hsame,next_setNext,hnext]
      · simp [hsame,prev_setPrev,hprev]
      · rw [data_modify,if_pos rfl,data_detach,←hflag]
    refine Node.ext ?_ ?_ ?_
    · simp [hsame,next_setNext,Ne.symm hk]
    · simp [hsame,prev_setPrev,Ne.symm hk]
    · rw [data_modify,if_neg hk,data_detach]

theorem Links.data_dequeue (h : Links mem as rs) (x k : ℕ) :
    (bgpInfoMpathDequeue mem x k).data.mpath=(mem k).data.mpath ∧
      ((bgpInfoMpathDequeue mem x k).data.multipath=true ↔ (mem k).data.multipath=true ∧ k≠x) := by
  rw [h.dequeue_eq,data_modify,data_detach]
  by_cases hk : k=x
  · simp [hk]
  · simp [hk]

theorem linked_of_neighbour {bs cs : List ℕ} {x k : ℕ} (h : Linked mem (bs++x::cs))
    (hk : (mem x).next=some k ∨ (mem x).prev=some k) : ¬Unlinked mem k := by
  rw [h.neighbours.1,h.neighbours.2] at hk
  rcases hk with hk|hk
  · obtain ⟨cs',rfl⟩ := head?_eq_some_iff.mp hk
    rw [append_cons] at h
    rw [Unlinked,h.neighbours.1,getLast?_concat]
    exact fun hn => absurd hn.2 (some_ne_none x)
  obtain ⟨bs',rfl⟩ := getLast?_eq_some_iff.mp hk
  rw [append_assoc,singleton_append] at h
  rw [Unlinked,h.neighbours.2,head?_cons]
  exact fun hn => absurd hn.1 (some_ne_none x)

section

variable (h : Links mem as rs)
include h

theorem Links.place (hx : x ∉ as) : ∃ bs cs,
    Linked mem (bs++x::cs) ∧ (∀ y∈as, y ∉ bs++x::cs) ∧
      Linked (detach mem x) (rs.erase x) := by
  by_cases hmem : x∈rs
  · obtain ⟨bs,cs,-,hrs,herase⟩ := exists_erase_eq hmem
    have hold := hrs ▸ h.old
    exact ⟨bs,cs,hold,hrs ▸ h.apart,herase ▸ hold.detach⟩
  obtain ⟨hnext,hprev⟩ := h.free x hx hmem
  have hone : Linked mem ([]++x::[]) := ⟨⟨hprev,hnext,trivial⟩,nodup_singleton x⟩
  have hne : ∀ ys : List ℕ, x ∉ ys → ∀ y∈ys, y ∉ []++x::[] := fun ys hxy y hy he =>
    hxy (mem_singleton.mp he ▸ hy)
  refine ⟨[],[],hone,hne as hx,?_⟩
  rw [erase_of_not_mem hmem]
  exact hone.detach_other h.old (hne rs hmem)

theorem Links.dequeue (hx : x ∉ as) : Links (bgpInfoMpathDequeue mem x) as (rs.erase x) := by
  obtain ⟨bs,cs,hlist,hoth,hrs⟩ := h.place hx
  have hkeep : ∀ k, Unlinked mem k ∨ k=x → Unlinked (bgpInfoMpathDequeue mem x) k := by
    intro k hk
    rw [Unlinked,h.dequeue_eq,next_modify,prev_modify]
    by_cases hkx : k=x
    · rw [hkx]
      exact ⟨next_detach_self mem x,prev_detach_self mem x⟩
    have hk := hk.resolve_right hkx
    have hself : (mem x).next≠some x := by
      rw [hlist.neighbours.2]
      intro he
      exact (nodup_middle.mp hlist.nodup).notMem (mem_append_right bs (mem_of_head? he))
    have hsame := links_detach hself hkx (fun he => linked_of_neighbour hlist (.inl he) hk)
      fun he => linked_of_neighbour hlist (.inr he) hk
    rw [hsame.1,hsame.2]
    exact hk
  have hlinks : ∀ k, (bgpInfoMpathDequeue mem x k).next=(detach mem x k).next ∧
      (bgpInfoMpathDequeue mem x k).prev=(detach mem x k).prev := by
    intro k
    rw [h.dequeue_eq,next_modify,prev_modify]
    exact ⟨rfl,rfl⟩
  refine ⟨(hlist.detach_other h.new hoth).congr fun k _ => hlinks k,
    hrs.congr fun k _ => hlinks k,fun y hy hyr => h.apart y hy (mem_of_mem_erase hyr),
    fun k hk hkr => ?_,fun k hk => ?_⟩
  · by_cases hkx : k=x
    · exact hkeep k (.inr hkx)
    · exact hkeep k (.inl (h.free k hk fun hkr' => hkr ((mem_erase_of_ne hkx).mpr hkr')))
  rw [(h.data_dequeue x k).1] at hk
  refine ⟨hkeep k (.inl (h.lazy k hk).1),Bool.eq_false_iff.mpr fun hf => ?_⟩
  have hfm := ((h.data_dequeue x k).2.mp hf).1
  rw [(h.lazy k hk).2] at hfm
  exact Bool.false_ne_true hfm

theorem Links.get_eq (x : ℕ) : bgpInfoMpathGet mem x = MultipathOperations.modify mem x fun d =>
      {d with mpath := true,count := if d.mpath then d.count else 0} := by
  cases hm : (mem x).data.mpath with
  | true =>
    rw [bgpInfoMpathGet,if_pos hm,MultipathOperations.modify,if_pos hm,←hm,Function.update_eq_self]
  | false =>
    obtain ⟨hnext,hprev⟩ := (h.lazy x hm).1
    simp [bgpInfoMpathGet,MultipathOperations.modify,hm,hnext,hprev]

theorem Links.get (x : ℕ) : Links (bgpInfoMpathGet mem x) as rs ∧
    (∀ k, (bgpInfoMpathGet mem x k).data.multipath=(mem k).data.multipath) ∧
      ∀ k, k=x ∨ (mem k).data.mpath=true → (bgpInfoMpathGet mem x k).data.mpath=true := by
  rw [h.get_eq]
  refine ⟨h.modify x (fun _ => rfl) fun _ _ => rfl,fun k => multipath_modify x k fun _ => rfl,
    fun k hk => ?_⟩
  rw [data_modify]
  split
  · rfl
  · exact hk.resolve_left ‹_›

/-- Putting an unlinked path behind the last of the new list. -/
theorem Links.enqueue {prev x : ℕ} (hprev : as.getLast? = some prev) (hx : x ∉ as) (hxr : x ∉ rs) :
    Links (bgpInfoMpathEnqueue mem prev x) (as++[x]) rs ∧
      ∀ k, (bgpInfoMpathEnqueue mem prev x k).data.multipath=true ↔
        (mem k).data.multipath=true ∨ k=x := by
  obtain ⟨h1,hflag1,hmade1⟩ := h.get prev
  obtain ⟨h2,hflag2,hmade2⟩ := h1.get x
  have hmade : ∀ k, k=x ∨ k=prev →
      (bgpInfoMpathGet (bgpInfoMpathGet mem prev) x k).data.mpath=true := fun k hk =>
    hmade2 k (hk.imp_right fun he => hmade1 k (.inl he))
  have hlast : (bgpInfoMpathGet (bgpInfoMpathGet mem prev) x prev).next=none := by
    obtain ⟨bs,hbs⟩ := getLast?_eq_some_iff.mp hprev
    exact (hbs ▸ h2.new : Linked _ (bs++prev::[])).neighbours.2
  have heq : bgpInfoMpathEnqueue mem prev x=MultipathOperations.modify
        (attachTail (bgpInfoMpathGet (bgpInfoMpathGet mem prev) x) as.getLast? x) x
        fun d => {d with multipath := true} := by
    simp only [bgpInfoMpathEnqueue]
    rw [hlast,hprev]
    rfl
  generalize bgpInfoMpathGet (bgpInfoMpathGet mem prev) x=mem2 at *
  have hlinks : ∀ k, (bgpInfoMpathEnqueue mem prev x k).next =
      (attachTail mem2 as.getLast? x k).next ∧
      (bgpInfoMpathEnqueue mem prev x k).prev=(attachTail mem2 as.getLast? x k).prev := by
    intro k
    rw [heq,next_modify,prev_modify]
    exact ⟨rfl,rfl⟩
  have hdata : ∀ k, (bgpInfoMpathEnqueue mem prev x k).data =
      if k=x then {(mem2 k).data with multipath := true} else (mem2 k).data := by
    intro k
    rw [heq,data_modify,data_attachTail]
  have hkeep : ∀ k, ¬(k=x ∨ k=prev) → Unlinked mem2 k →
      Unlinked (bgpInfoMpathEnqueue mem prev x) k := by
    intro k hne hk
    rw [not_or] at hne
    have hxk : some x≠some k := fun he => hne.1 (some.inj he).symm
    rw [Unlinked,(hlinks k).1,(hlinks k).2,hprev]
    simp only [attachTail,next_setNext,next_setPrev,prev_setNext,prev_setPrev]
    rw [if_neg (fun he => hne.2 (some.inj he).symm),if_neg hxk,if_neg hxk]
    exact hk
  refine ⟨⟨(h2.new.attachTail hx).congr fun k _ => hlinks k,
    (h2.old.attachTail_other hxr fun y hy hya => h2.apart y hya hy).congr fun k _ => hlinks k,
    fun y hy => ?_,fun k hk hkr => ?_,fun k hk => ?_⟩,fun k => ?_⟩
  · rcases mem_append.mp hy with hy|hy
    · exact h2.apart y hy
    · exact mem_singleton.mp hy ▸ hxr
  · rw [mem_append,mem_singleton,not_or] at hk
    refine hkeep k (fun he => he.elim hk.2 fun he => ?_) (h2.free k hk.1 hkr)
    exact hk.1 (he ▸ mem_of_getLast? hprev)
  · have hmem : (mem2 k).data.mpath=false := by
      rw [hdata] at hk
      split at hk
      · exact hk
      · exact hk
    have hne : ¬(k=x ∨ k=prev) := fun he => by
      rw [hmade k he] at hmem
      exact Bool.false_ne_true hmem.symm
    rw [hdata,if_neg fun he => hne (.inl he)]
    exact ⟨hkeep k hne (h2.lazy k hmem).1,(h2.lazy k hmem).2⟩
  rw [hdata]
  by_cases hkx : k=x
  · rw [if_pos hkx]
    exact ⟨fun _ => .inr hkx,fun _ => rfl⟩
  rw [if_neg hkx,hflag2,hflag1]
  exact ⟨.inl,fun hk => hk.resolve_right hkx⟩

end

end RoutePlatform.MultipathOperations
