import RoutePlatform.BestPathComparison

/-!
# The two passes of the best path selection

The first pass marks the winners of the groups of paths with one neighbour AS;
the second one chooses among the marked paths. The marks are gone when the
selection ends, so the next selection starts without any.
-/

namespace RoutePlatform.BestPathSelection

open BestChoice BestPathOperations OperationRuns Function List Bool

variable {rn' : BgpNode} {rn : BgpNode} {f : InfoFlags→InfoFlags} {found : ℕ × BgpNode} {ri2 : ℕ}
  {rest : List ℕ} {ri1 newSelect : ℕ}

/-- The flags without the two of `deterministic-med`. -/
def base (flags : InfoFlags) : InfoFlags := {flags with dmedCheck := false,dmedSelected := false}

/-- The paths are the same up to the flags of `deterministic-med`. -/
structure Frame (rn rn' : BgpNode) : Prop where
  info : rn'.info=rn.info
  flags : ∀ ri, base (rn'.flags ri)=base (rn.flags ri)

theorem Frame.refl (rn : BgpNode) : Frame rn rn := ⟨rfl,fun _ => rfl⟩

theorem Frame.trans {rn'' : BgpNode} (h : Frame rn rn') (h' : Frame rn' rn'') : Frame rn rn'' :=
  ⟨h'.info.trans h.info,fun ri => (h'.flags ri).trans (h.flags ri)⟩

section

variable {rn rn' : BgpNode} (h : Frame rn rn') (ri : ℕ)
include h ri

theorem Frame.holddown : (rn'.flags ri).holddown=(rn.flags ri).holddown :=
  (congrArg InfoFlags.holddown (h.flags ri) :)

theorem Frame.selected : (rn'.flags ri).selected=(rn.flags ri).selected :=
  (congrArg InfoFlags.selected (h.flags ri) :)

theorem Frame.modifyFlags {f : InfoFlags → InfoFlags} (hf : ∀ flags, base (f flags)=base flags) :
    Frame rn (rn'.modifyFlags ri f) := by
  refine ⟨h.info,fun x => ?_⟩
  rw [←h.flags x,BgpNode.modifyFlags]
  dsimp only
  by_cases hx : x=ri
  · subst hx
    rw [update_self]
    exact hf _
  · rw [update_of_ne hx]

theorem Frame.setDmedCheck : Frame rn (rn'.setDmedCheck ri) := h.modifyFlags ri (by intro _; rfl)

theorem Frame.unsetDmedCheck :
    Frame rn (rn'.unsetDmedCheck ri) := h.modifyFlags ri (by intro _; rfl)

theorem Frame.setDmedSelected :
    Frame rn (rn'.setDmedSelected ri) := h.modifyFlags ri (by intro _; rfl)

theorem Frame.unsetDmedSelected :
    Frame rn (rn'.unsetDmedSelected ri) := h.modifyFlags ri (by intro _; rfl)

end

def better (bgp : Bgp) (rn : BgpNode) (new exist : ℕ) : Bool :=
  (bgpInfoCmp bgp rn (some new) (some exist)).1

theorem Frame.better (h : Frame rn rn') (bgp : Bgp) : better bgp rn'=better bgp rn := by
  funext new exist
  unfold BestPathSelection.better bgpInfoCmp
  dsimp only
  rw [h.info,h.selected,h.selected]

theorem Frame.sameNeighbour (h : Frame rn rn') : sameNeighbour rn'=sameNeighbour rn := by
  funext ri1 ri2
  rw [BestPathOperations.sameNeighbour,h.info,BestPathOperations.sameNeighbour]

/-- Both loops of the first pass skip this path. -/
def skipped (rn : BgpNode) (ri : ℕ) : Bool := (rn.flags ri).dmedCheck || (rn.flags ri).holddown

theorem modifyFlags_of_const {p : InfoFlags→Bool} {v : Bool} (hf : ∀ flags, p (f flags)=v)
    (rn : BgpNode) (ri x : ℕ) :
    p ((rn.modifyFlags ri f).flags x)=if x=ri then v else p (rn.flags x) := by
  rw [BgpNode.modifyFlags]
  dsimp only
  by_cases hx : x=ri
  · rw [hx,update_self,if_pos rfl,hf]
  · rw [update_of_ne hx,if_neg hx]

theorem modifyFlags_of_kept (p : InfoFlags→Bool) (hf : ∀ flags, p (f flags)=p flags) (rn : BgpNode)
    (ri x : ℕ) : p ((rn.modifyFlags ri f).flags x)=p (rn.flags x) := by
  rw [BgpNode.modifyFlags]
  dsimp only
  by_cases hx : x=ri
  · rw [hx,update_self,hf]
  · rw [update_of_ne hx]

section

variable (rn : BgpNode) (ri x : ℕ)

@[simp] theorem setDmedCheck_dmedCheck :
    ((rn.setDmedCheck ri).flags x).dmedCheck=if x=ri then true else (rn.flags x).dmedCheck :=
  modifyFlags_of_const (fun _ => rfl) rn ri x

@[simp] theorem setDmedCheck_dmedSelected :
    ((rn.setDmedCheck ri).flags x).dmedSelected=(rn.flags x).dmedSelected :=
  modifyFlags_of_kept InfoFlags.dmedSelected (by intro _; rfl) rn ri x

@[simp] theorem unsetDmedCheck_dmedCheck :
    ((rn.unsetDmedCheck ri).flags x).dmedCheck=if x=ri then false else (rn.flags x).dmedCheck :=
  modifyFlags_of_const (fun _ => rfl) rn ri x

@[simp] theorem unsetDmedCheck_dmedSelected :
    ((rn.unsetDmedCheck ri).flags x).dmedSelected=(rn.flags x).dmedSelected :=
  modifyFlags_of_kept InfoFlags.dmedSelected (by intro _; rfl) rn ri x

@[simp] theorem setDmedSelected_dmedSelected : ((rn.setDmedSelected ri).flags x).dmedSelected =
      if x=ri then true else (rn.flags x).dmedSelected :=
  modifyFlags_of_const (fun _ => rfl) rn ri x

@[simp] theorem setDmedSelected_dmedCheck :
    ((rn.setDmedSelected ri).flags x).dmedCheck=(rn.flags x).dmedCheck :=
  modifyFlags_of_kept InfoFlags.dmedCheck (by intro _; rfl) rn ri x

@[simp] theorem unsetDmedSelected_dmedSelected : ((rn.unsetDmedSelected ri).flags x).dmedSelected =
      if x=ri then false else (rn.flags x).dmedSelected :=
  modifyFlags_of_const (fun _ => rfl) rn ri x

@[simp] theorem unsetDmedSelected_dmedCheck :
    ((rn.unsetDmedSelected ri).flags x).dmedCheck=(rn.flags x).dmedCheck :=
  modifyFlags_of_kept InfoFlags.dmedCheck (by intro _; rfl) rn ri x

end

section

variable (bgp : Bgp)

/-- What the inner loop finds and marks. -/
structure InnerSpec (ri1 : ℕ) (rest : List ℕ) (newSelect : ℕ) (rn : BgpNode)
    (found : ℕ × BgpNode) : Prop where
  best : found.1=choose (better bgp rn) newSelect
    (rest.filter fun y => !skipped rn y && sameNeighbour rn ri1 y)
  frame : Frame rn found.2
  infoList : found.2.infoList=rn.infoList
  dmedSelected : ∀ y, (found.2.flags y).dmedSelected=(rn.flags y).dmedSelected
  dmedCheck : ∀ y, (found.2.flags y).dmedCheck =
    ((rn.flags y).dmedCheck || (decide (y∈rest) && (!skipped rn y && sameNeighbour rn ri1 y)))

theorem InnerSpec.cons_of_not_mem (h : InnerSpec bgp ri1 rest newSelect rn found)
    (hri2 : (!skipped rn ri2 && sameNeighbour rn ri1 ri2)=false) :
    InnerSpec bgp ri1 (ri2::rest) newSelect rn found := by
  refine ⟨?_,h.frame,h.infoList,h.dmedSelected,fun y => ?_⟩
  · rw [h.best,filter_cons_of_neg (by rw [hri2]; exact Bool.false_ne_true)]
  rw [h.dmedCheck]
  by_cases hy : y=ri2
  · rw [hy,hri2,Bool.and_false,Bool.and_false]
  · rw [decide_eq_decide.mpr (mem_cons.trans (or_iff_right hy)).symm]

/-- A path of the group is compared and marked as done. -/
theorem InnerSpec.cons_of_mem
    (h : InnerSpec bgp ri1 rest (chooseStep (better bgp rn) newSelect ri2) rn' found)
    (hframe : Frame rn rn') (hlist : rn'.infoList=rn.infoList)
    (hsel : ∀ y, (rn'.flags y).dmedSelected=(rn.flags y).dmedSelected)
    (hcheck : ∀ y, (rn'.flags y).dmedCheck=if y=ri2 then true else (rn.flags y).dmedCheck)
    (hnot : ri2 ∉ rest) (hri2 : (!skipped rn ri2 && sameNeighbour rn ri1 ri2)=true) :
    InnerSpec bgp ri1 (ri2::rest) newSelect rn found := by
  have hskip : ∀ y, y≠ri2 → skipped rn' y=skipped rn y := by
    intro y hy
    rw [skipped,hcheck,if_neg hy,hframe.holddown,skipped]
  have hgroup : (rest.filter fun y => !skipped rn' y && sameNeighbour rn' ri1 y) =
      rest.filter fun y => !skipped rn y && sameNeighbour rn ri1 y := by
    refine filter_congr fun y hy => ?_
    rw [hskip y fun he => hnot (he ▸ hy),hframe.sameNeighbour]
  refine ⟨?_,hframe.trans h.frame,h.infoList.trans hlist,
    fun y => (h.dmedSelected y).trans (hsel y),fun y => ?_⟩
  · have hcons : (ri2::rest).filter (fun y => !skipped rn y && sameNeighbour rn ri1 y) =
        ri2::rest.filter fun y => !skipped rn y && sameNeighbour rn ri1 y :=
      filter_cons_of_pos (by exact hri2)
    rw [h.best,hgroup,hframe.better,hcons]
    rfl
  rw [h.dmedCheck,hcheck,hframe.sameNeighbour]
  by_cases hy : y=ri2
  · rw [hy,if_pos rfl,hri2]
    simp
  · rw [if_neg hy,hskip y hy,decide_eq_decide.mpr (mem_cons.trans (or_iff_right hy)).symm]

theorem unmarked_of_marked (hframe : Frame rn rn')
    (hsel : ∀ y, (rn'.flags y).dmedSelected=(rn.flags y).dmedSelected)
    (hcheck : ∀ y, (rn'.flags y).dmedCheck=if y=ri2 then true else (rn.flags y).dmedCheck)
    (hnot : ri2 ∉ rest) (h : ∀ y∈rest, skipped rn y=false → (rn.flags y).dmedSelected=false) :
    ∀ y∈rest, skipped rn' y=false → (rn'.flags y).dmedSelected=false := by
  intro y hy hskip
  have hne : y≠ri2 := fun he => hnot (he ▸ hy)
  rw [skipped,hcheck,if_neg hne,hframe.holddown] at hskip
  rw [hsel]
  exact h y hy hskip

theorem dmedInner_cons (ri1 ri2 : ℕ) (rest : List ℕ) (newSelect : ℕ) (rn : BgpNode) :
    dmedInner bgp ri1 (ri2::rest) newSelect rn =
      if skipped rn ri2 then dmedInner bgp ri1 rest newSelect rn
      else if sameNeighbour rn ri1 ri2 then
        if better bgp rn ri2 newSelect then
          dmedInner bgp ri1 rest ri2 ((rn.unsetDmedSelected newSelect).setDmedCheck ri2)
        else dmedInner bgp ri1 rest newSelect (rn.setDmedCheck ri2)
      else dmedInner bgp ri1 rest newSelect rn := rfl

theorem dmedInner_spec (ri1 : ℕ) (rest : List ℕ) : ∀ (newSelect : ℕ) (rn : BgpNode), rest.Nodup →
      (rn.flags newSelect).dmedSelected=false →
      (∀ y∈rest, skipped rn y=false → (rn.flags y).dmedSelected=false) →
      InnerSpec bgp ri1 rest newSelect rn (dmedInner bgp ri1 rest newSelect rn) := by
  induction rest with
  | nil =>
    intro newSelect rn _ _ _
    exact ⟨rfl,Frame.refl rn,rfl,fun _ => rfl,fun y => by simp [dmedInner]⟩
  | cons ri2 rest ih =>
    intro newSelect rn hnd hnew hsel
    obtain ⟨hri2,hnd'⟩ := nodup_cons.mp hnd
    have hsel' : ∀ y∈rest, skipped rn y=false → (rn.flags y).dmedSelected=false :=
      fun y hy => hsel y (.tail _ hy)
    rw [dmedInner_cons]
    by_cases hskip : skipped rn ri2=true
    · rw [if_pos hskip]
      exact (ih newSelect rn hnd' hnew hsel').cons_of_not_mem bgp (by rw [hskip]; rfl)
    rw [if_neg hskip]
    have hskip' := Bool.eq_false_of_not_eq_true hskip
    by_cases hsame : sameNeighbour rn ri1 ri2=true
    · rw [if_pos hsame]
      have hgroup : (!skipped rn ri2 && sameNeighbour rn ri1 ri2)=true := by
        rw [hskip',hsame]
        rfl
      by_cases hbetter : better bgp rn ri2 newSelect=true
      · rw [if_pos hbetter]
        have hstep : chooseStep (better bgp rn) newSelect ri2=ri2 := if_pos hbetter
        have hframe := ((Frame.refl rn).unsetDmedSelected newSelect).setDmedCheck ri2
        have hs : ∀ y, (((rn.unsetDmedSelected newSelect).setDmedCheck ri2).flags y).dmedSelected =
            (rn.flags y).dmedSelected := by
          intro y
          rw [setDmedCheck_dmedSelected,unsetDmedSelected_dmedSelected]
          split
          · next he => rw [he,hnew]
          · rfl
        have hc : ∀ y, (((rn.unsetDmedSelected newSelect).setDmedCheck ri2).flags y).dmedCheck =
            if y=ri2 then true else (rn.flags y).dmedCheck := by
          intro y
          rw [setDmedCheck_dmedCheck,unsetDmedSelected_dmedCheck]
        refine InnerSpec.cons_of_mem bgp ?_ hframe rfl hs hc hri2 hgroup
        rw [hstep]
        have hnew' := hsel ri2 mem_cons_self hskip'
        rw [←hs] at hnew'
        exact ih ri2 _ hnd' hnew' (unmarked_of_marked hframe hs hc hri2 hsel')
      · rw [if_neg hbetter]
        have hstep : chooseStep (better bgp rn) newSelect ri2=newSelect := if_neg hbetter
        have hframe := (Frame.refl rn).setDmedCheck ri2
        have hs := setDmedCheck_dmedSelected rn ri2
        have hc := setDmedCheck_dmedCheck rn ri2
        refine InnerSpec.cons_of_mem bgp ?_ hframe rfl hs hc hri2 hgroup
        rw [hstep]
        rw [←hs] at hnew
        exact ih newSelect _ hnd' hnew (unmarked_of_marked hframe hs hc hri2 hsel')
    · rw [if_neg hsame]
      refine (ih newSelect rn hnd' hnew hsel').cons_of_not_mem bgp ?_
      rw [Bool.eq_false_of_not_eq_true hsame,Bool.and_false]

structure OuterSpec (l : List ℕ) (rn rn' : BgpNode) : Prop where
  frame : Frame rn rn'
  infoList : rn'.infoList=rn.infoList
  /-- The winners of the groups are marked as the best ones. -/
  dmedSelected : ∀ y, (rn'.flags y).dmedSelected=((rn.flags y).dmedSelected ||
    decide (y∈winners (sameNeighbour rn) (better bgp rn) l (skipped rn)))
  unchanged : ∀ y, y ∉ l ∨ (rn.flags y).holddown=true →
    (rn'.flags y).dmedCheck=(rn.flags y).dmedCheck

theorem dmedOuter_cons (ri1 : ℕ) (rest : List ℕ) (rn : BgpNode) : dmedOuter bgp (ri1::rest) rn =
      if skipped rn ri1 then dmedOuter bgp rest rn
      else dmedOuter bgp rest (((dmedInner bgp ri1 rest ri1 rn).2.setDmedCheck
          (dmedInner bgp ri1 rest ri1 rn).1).setDmedSelected (dmedInner bgp ri1 rest ri1 rn).1) :=
  rfl

theorem dmedOuter_spec (l : List ℕ) : ∀ rn : BgpNode, l.Nodup →
      (∀ y∈l, skipped rn y=false → (rn.flags y).dmedSelected=false) →
      OuterSpec bgp l rn (dmedOuter bgp l rn) := by
  induction l with
  | nil =>
    intro rn _ _
    exact ⟨Frame.refl rn,rfl,fun y => by simp [dmedOuter,winners],fun _ _ => rfl⟩
  | cons ri1 rest ih =>
    intro rn hnd hsel
    obtain ⟨hri1,hnd'⟩ := nodup_cons.mp hnd
    have hsel' : ∀ y∈rest, skipped rn y=false → (rn.flags y).dmedSelected=false :=
      fun y hy => hsel y (.tail _ hy)
    rw [dmedOuter_cons]
    by_cases hskip : skipped rn ri1=true
    · rw [if_pos hskip]
      obtain ⟨hframe,hlist,hmark,hkept⟩ := ih rn hnd' hsel'
      refine ⟨hframe,hlist,fun y => ?_,fun y hy => hkept y ?_⟩
      · rw [hmark,winners,if_pos hskip]
      · exact hy.imp_left fun hy hin => hy (.tail _ hin)
    rw [if_neg hskip]
    have hskip' := Bool.eq_false_of_not_eq_true hskip
    have hinner := dmedInner_spec bgp ri1 rest ri1 rn hnd' (hsel ri1 mem_cons_self hskip') hsel'
    generalize dmedInner bgp ri1 rest ri1 rn=found at hinner
    have hframe := (hinner.frame.setDmedCheck found.1).setDmedSelected found.1
    have hmem : found.1=ri1 ∨ found.1∈rest ∧
        (!skipped rn found.1 && sameNeighbour rn ri1 found.1)=true := by
      have hin : choose (better bgp rn) ri1
          (rest.filter fun y => !skipped rn y && sameNeighbour rn ri1 y) ∈
            ri1::rest.filter fun y => !skipped rn y && sameNeighbour rn ri1 y :=
        choose_mem _ ri1
      rw [←hinner.best,mem_cons,mem_filter] at hin
      exact hin
    have hskipped : ∀ y∈rest, skipped ((found.2.setDmedCheck found.1).setDmedSelected found.1) y =
        (skipped rn y || sameNeighbour rn ri1 y) := by
      intro y hy
      rw [skipped,setDmedSelected_dmedCheck,setDmedCheck_dmedCheck,hinner.dmedCheck,
        hframe.holddown,decide_eq_true hy,Bool.true_and]
      by_cases hyf : y=found.1
      · rw [if_pos hyf]
        have hgroup := (hmem.resolve_left fun he => hri1 (he ▸ hyf ▸ hy)).2
        rw [←hyf] at hgroup
        rw [(and_eq_true_iff.mp hgroup).2]
        simp
      rw [if_neg hyf,skipped]
      cases (rn.flags y).dmedCheck <;> cases (rn.flags y).holddown <;> simp
    have hrec := ih ((found.2.setDmedCheck found.1).setDmedSelected found.1) hnd' (by
      intro y hy hsk
      rw [hskipped y hy] at hsk
      obtain ⟨hsk,hoth⟩ := or_eq_false_iff.mp hsk
      have hyf : y≠found.1 := by
        intro he
        have hgroup := (hmem.resolve_left fun h => hri1 (h ▸ he ▸ hy)).2
        rw [←he,hoth,Bool.and_false] at hgroup
        cases hgroup
      rw [setDmedSelected_dmedSelected,if_neg hyf,setDmedCheck_dmedSelected,hinner.dmedSelected]
      exact hsel' y hy hsk)
    refine ⟨hframe.trans hrec.frame,hrec.infoList.trans hinner.infoList,fun y => ?_, fun y hy => ?_⟩
    · rw [hrec.dmedSelected,hframe.sameNeighbour,hframe.better,winners,if_neg hskip,
        winners_congr rest _ _ hskipped,←hinner.best,setDmedSelected_dmedSelected,
        setDmedCheck_dmedSelected,hinner.dmedSelected]
      by_cases hyf : y=found.1 <;> simp [hyf]
    have hyf : y≠found.1 := by
      rintro rfl
      rcases hmem with he|⟨hin,hgroup⟩
      · rcases hy with hy|hy
        · exact hy (he ▸ .head _)
        rw [he] at hy
        rw [skipped,hy,Bool.or_true] at hskip'
        cases hskip'
      rcases hy with hy|hy
      · exact hy (.tail _ hin)
      rw [skipped,hy,Bool.or_true] at hgroup
      cases hgroup
    have hy' : y ∉ rest ∨ (rn.flags y).holddown=true :=
      hy.imp_left fun hy hin => hy (.tail _ hin)
    have hkeep := hrec.unchanged y (by rw [hframe.holddown]; exact hy')
    rw [hkeep,setDmedSelected_dmedCheck,setDmedCheck_dmedCheck,if_neg hyf,hinner.dmedCheck]
    rcases hy' with hy'|hy'
    · rw [decide_eq_false hy',Bool.false_and,Bool.or_false]
    rw [skipped,hy',Bool.or_true,Bool.not_true,Bool.false_and,Bool.and_false,Bool.or_false]

end

section

variable (bgp : Bgp) (l : List ℕ)

/-- The second pass looks at this path. -/
def candidate (rn : BgpNode) (ri : ℕ) : Bool :=
  !(rn.flags ri).holddown && (!bgp.deterministicMed || (rn.flags ri).dmedSelected)

theorem Frame.candidate (h : Frame rn rn') {ri : ℕ}
    (hsel : (rn'.flags ri).dmedSelected=(rn.flags ri).dmedSelected) :
    candidate bgp rn' ri=candidate bgp rn ri := by
  rw [BestPathSelection.candidate,h.holddown,hsel,BestPathSelection.candidate]

theorem Frame.reap (h : Frame rn rn') (ri : ℕ) : Frame rn (rn'.reap ri) :=
  ⟨h.info,h.flags⟩

theorem compare_eq_chooseOption (rn : BgpNode) (ri : ℕ) (newSelect : Option ℕ) :
    (if (bgpInfoCmp bgp rn (some ri) newSelect).1 then some ri else newSelect) =
      chooseOption (better bgp rn) newSelect ri := by
  cases newSelect with
  | none => rfl
  | some best =>
    rw [chooseOption,chooseStep,better]
    split <;> rfl

/-- What one turn of the second pass leaves for the rest of the list. -/
structure TurnSpec (ri : ℕ) (rn rn' : BgpNode) : Prop where
  frame : Frame rn rn'
  infoList : rn'.infoList.Sublist rn.infoList
  other : ∀ y, y≠ri → (rn'.flags y).dmedCheck=(rn.flags y).dmedCheck ∧
    (rn'.flags y).dmedSelected=(rn.flags y).dmedSelected
  /-- A usable path loses its marks, one that is not usable keeps them. -/
  own : if (rn.flags ri).holddown then rn'.flags ri=rn.flags ri
    else (rn'.flags ri).dmedCheck=false ∧ (rn'.flags ri).dmedSelected=false

theorem selectLoop_cons (ri : ℕ) (rest : List ℕ) (oldSelect newSelect : Option ℕ) (rn : BgpNode) :
    ∃ rn' oldSelect', TurnSpec ri rn rn' ∧
      selectLoop bgp (ri::rest) oldSelect newSelect rn=selectLoop bgp rest oldSelect'
        (if candidate bgp rn ri then chooseOption (better bgp rn) newSelect ri else newSelect)
        rn' := by
  rw [selectLoop]
  dsimp only
  generalize (if (rn.flags ri).selected=true then some ri else oldSelect)=oldSelect'
  by_cases hhold : (rn.flags ri).holddown=true
  · have hcand : candidate bgp rn ri=false := by
      rw [candidate,hhold]
      rfl
    rw [if_pos hhold,hcand,if_neg Bool.false_ne_true]
    split
    · refine ⟨rn.reap ri,oldSelect',⟨(Frame.refl rn).reap ri,erase_sublist,fun _ _ => ⟨rfl,rfl⟩,?_⟩,
        rfl⟩
      rw [if_pos hhold]
      rfl
    refine ⟨rn,oldSelect',⟨Frame.refl rn,List.Sublist.refl _,fun _ _ => ⟨rfl,rfl⟩,?_⟩,rfl⟩
    rw [if_pos hhold]
  · rw [if_neg hhold]
    have hhold' := Bool.eq_false_of_not_eq_true hhold
    by_cases hmark : (bgp.deterministicMed && !(rn.flags ri).dmedSelected)=true
    · obtain ⟨hdet,hsel⟩ := and_eq_true_iff.mp hmark
      rw [not_eq_true'] at hsel
      have hcand : candidate bgp rn ri=false := by
        rw [candidate,hdet,hsel,Bool.not_true,Bool.or_false,Bool.and_false]
      rw [if_pos hmark,hcand,if_neg Bool.false_ne_true]
      refine ⟨rn.unsetDmedCheck ri,oldSelect',⟨(Frame.refl rn).unsetDmedCheck ri,List.Sublist.refl _,
        fun y hy => ?_,?_⟩,rfl⟩
      · rw [unsetDmedCheck_dmedCheck,if_neg hy,unsetDmedCheck_dmedSelected]
        exact ⟨rfl,rfl⟩
      rw [if_neg hhold,unsetDmedCheck_dmedCheck,if_pos rfl,unsetDmedCheck_dmedSelected]
      exact ⟨rfl,hsel⟩
    · have hcand : candidate bgp rn ri=true := by
        rw [candidate,hhold',Bool.not_false,Bool.true_and]
        cases hdet : bgp.deterministicMed <;> cases hsel : (rn.flags ri).dmedSelected <;>
          simp [hdet,hsel] at hmark ⊢
      rw [if_neg hmark,hcand,if_pos rfl]
      have hframe := ((Frame.refl rn).unsetDmedCheck ri).unsetDmedSelected ri
      refine ⟨(rn.unsetDmedCheck ri).unsetDmedSelected ri,oldSelect',
        ⟨hframe,List.Sublist.refl _,fun y hy => ?_,?_⟩,?_⟩
      · rw [unsetDmedSelected_dmedCheck,unsetDmedCheck_dmedCheck,if_neg hy,
          unsetDmedSelected_dmedSelected,if_neg hy,unsetDmedCheck_dmedSelected]
        exact ⟨rfl,rfl⟩
      · rw [if_neg hhold,unsetDmedSelected_dmedCheck,unsetDmedCheck_dmedCheck,if_pos rfl,
          unsetDmedSelected_dmedSelected,if_pos rfl]
        exact ⟨rfl,rfl⟩
      rw [←hframe.better,←compare_eq_chooseOption]
      split <;> rfl

theorem selectLoop_new : ∀ (oldSelect newSelect : Option ℕ) (rn : BgpNode), l.Nodup →
      (selectLoop bgp l oldSelect newSelect rn).new =
        (l.filter (candidate bgp rn)).foldl (chooseOption (better bgp rn)) newSelect := by
  induction l with
  | nil => exact fun _ _ _ _ => rfl
  | cons ri rest ih =>
    intro oldSelect newSelect rn hnd
    obtain ⟨hri,hnd'⟩ := nodup_cons.mp hnd
    obtain ⟨rn',oldSelect',hturn,heq⟩ := selectLoop_cons bgp ri rest oldSelect newSelect rn
    have hcands : rest.filter (candidate bgp rn')=rest.filter (candidate bgp rn) := by
      refine filter_congr fun y hy => hturn.frame.candidate bgp (hturn.other y ?_).2
      exact fun he => hri (he ▸ hy)
    rw [heq,ih _ _ rn' hnd',hcands,hturn.frame.better]
    by_cases hcand : candidate bgp rn ri=true
    · rw [if_pos hcand,filter_cons_of_pos hcand,foldl_cons]
    · rw [if_neg hcand,filter_cons_of_neg hcand]

def DmedClear (rn : BgpNode) : Prop :=
  ∀ y, (rn.flags y).dmedCheck=false ∧ (rn.flags y).dmedSelected=false

/-- The second pass clears the marks of all usable paths and only shortens the
list. -/
theorem selectLoop_node : ∀ (oldSelect newSelect : Option ℕ) (rn : BgpNode),
      (∀ y, y ∉ l ∨ (rn.flags y).holddown=true →
        (rn.flags y).dmedCheck=false ∧ (rn.flags y).dmedSelected=false) →
      DmedClear (selectLoop bgp l oldSelect newSelect rn).node ∧
        (selectLoop bgp l oldSelect newSelect rn).node.infoList.Sublist rn.infoList := by
  induction l with
  | nil =>
    intro oldSelect newSelect rn h
    exact ⟨fun y => h y (.inl not_mem_nil),List.Sublist.refl _⟩
  | cons ri rest ih =>
    intro oldSelect newSelect rn h
    obtain ⟨rn',oldSelect',hturn,heq⟩ := selectLoop_cons bgp ri rest oldSelect newSelect rn
    rw [heq]
    obtain ⟨hclear,hsub⟩ := ih oldSelect' _ rn' (by
      intro y hy
      by_cases he : y=ri
      · subst he
        have hown := hturn.own
        by_cases hhold : (rn.flags y).holddown=true
        · rw [if_pos hhold] at hown
          rw [hown]
          exact h y (.inr hhold)
        rw [if_neg hhold] at hown
        exact hown
      · obtain ⟨hcheck,hsel⟩ := hturn.other y he
        rw [hcheck,hsel]
        rw [hturn.frame.holddown] at hy
        exact h y (hy.imp_left fun hy hin => (mem_cons.mp hin).elim he hy))
    exact ⟨hclear,hsub.trans hturn.infoList⟩

end

section

variable (bgp : Bgp)

structure NodeInv (rn : BgpNode) : Prop where
  nodup : rn.infoList.Nodup
  clear : DmedClear rn

/-- The paths among which the second pass chooses. -/
def candidates (rn : BgpNode) : List ℕ :=
  if bgp.deterministicMed then
    (usable rn).filter fun y =>
      decide (y∈winners (sameNeighbour rn) (better bgp rn) (usable rn) fun _ => false)
  else usable rn

variable {rn : BgpNode}

theorem dmedOuter_outerSpec (h : NodeInv rn) :
    OuterSpec bgp rn.infoList rn (dmedOuter bgp rn.infoList rn) :=
  dmedOuter_spec bgp rn.infoList rn h.nodup fun y _ _ => (h.clear y).2

theorem winners_usable (h : DmedClear rn) :
    winners (sameNeighbour rn) (better bgp rn) rn.infoList (skipped rn) =
      winners (sameNeighbour rn) (better bgp rn) (usable rn) fun _ => false := by
  have hskip : ∀ y, skipped rn y=(rn.flags y).holddown := by
    intro y
    rw [skipped,(h y).1,Bool.false_or]
  rw [←winners_filter rn.infoList (skipped rn)]
  · refine winners_congr _ _ _ fun y hy => ?_
    have hy' := (mem_filter.mp hy).2
    rw [not_eq_true'] at hy'
    rw [hskip,hy']
  intro y hy
  rw [not_eq_false'] at hy
  rw [hskip,hy]

theorem bgpBestSelection_new (h : NodeInv rn) : (bgpBestSelection bgp rn).new =
      (candidates bgp rn).foldl (chooseOption (better bgp rn)) none := by
  rw [bgpBestSelection,candidates]
  by_cases hdet : bgp.deterministicMed=true
  · have hspec := dmedOuter_outerSpec bgp h
    rw [if_pos hdet,if_pos hdet,hspec.infoList,selectLoop_new bgp _ _ _ _ h.nodup,
      hspec.frame.better,usable,filter_filter]
    congr 1
    refine filter_congr fun y _ => ?_
    rw [candidate,hspec.frame.holddown,hspec.dmedSelected,(h.clear y).2,hdet,
      winners_usable bgp h.clear,Bool.and_comm]
    rfl
  rw [if_neg hdet,if_neg hdet,selectLoop_new bgp _ _ _ _ h.nodup,usable]
  congr 1
  refine filter_congr fun y _ => ?_
  rw [candidate,Bool.eq_false_of_not_eq_true hdet,Bool.not_false,Bool.true_or,Bool.and_true]

theorem bgpBestSelection_nodeInv (h : NodeInv rn) : NodeInv (bgpBestSelection bgp rn).node := by
  rw [bgpBestSelection]
  by_cases hdet : bgp.deterministicMed=true
  · have hspec := dmedOuter_outerSpec bgp h
    rw [if_pos hdet,hspec.infoList]
    obtain ⟨hclear,hsub⟩ := selectLoop_node bgp rn.infoList none none
      (dmedOuter bgp rn.infoList rn) (by
        intro y hy
        rw [hspec.frame.holddown] at hy
        refine ⟨(hspec.unchanged y hy).trans (h.clear y).1,?_⟩
        rw [hspec.dmedSelected,(h.clear y).2,Bool.false_or,winners_usable bgp h.clear]
        refine decide_eq_false fun hin => ?_
        obtain ⟨hmem,hhold⟩ := mem_filter.mp (mem_of_mem_winners _ _ hin)
        rcases hy with hy|hy
        · exact hy hmem
        · rw [hy] at hhold
          cases hhold)
    rw [hspec.infoList] at hsub
    exact ⟨h.nodup.sublist hsub,hclear⟩
  · rw [if_neg hdet]
    obtain ⟨hclear,hsub⟩ := selectLoop_node bgp rn.infoList none none rn fun y _ => h.clear y
    exact ⟨h.nodup.sublist hsub,hclear⟩

end

def emptyNode (info : ℕ→BgpInfo) : BgpNode := ⟨[],info,fun _ => InfoFlags.zero⟩

theorem emptyNode_nodeInv (info : ℕ→BgpInfo) : NodeInv (emptyNode info) :=
  ⟨nodup_nil,fun _ => ⟨rfl,rfl⟩⟩

theorem nodeStep_nodeInv (rn : BgpNode) (op : NodeOp) (h : NodeInv rn) (hleg : NodeLegal rn op) :
    ∃ rn', nodeStep rn op=some rn' ∧ NodeInv rn' := by
  cases op with
  | add ri info =>
    refine ⟨_,rfl,nodup_cons.mpr ⟨hleg,h.nodup⟩,fun y => ?_⟩
    dsimp only
    by_cases hy : y=ri
    · rw [hy,update_self]
      exact ⟨rfl,rfl⟩
    rw [update_of_ne hy]
    exact h.clear y
  | update ri info flags =>
    refine ⟨_,rfl,h.nodup,fun y => ?_⟩
    dsimp only
    by_cases hy : y=ri
    · rw [hy,update_self]
      exact h.clear ri
    rw [update_of_ne hy]
    exact h.clear y
  | reap ri => exact ⟨_,rfl,h.nodup.sublist erase_sublist,h.clear⟩
  | select bgp => exact ⟨_,rfl,bgpBestSelection_nodeInv bgp h⟩

theorem nodeRun_nodeInv {info : ℕ→BgpInfo} {ops : List NodeOp}
    (hleg : LegalRun nodeStep NodeLegal (emptyNode info) ops)
    (hrun : run nodeStep (emptyNode info) ops=some rn) : NodeInv rn := by
  obtain ⟨rn',hrun',hinv⟩ :=
    run_invariant nodeStep_nodeInv ops (emptyNode info) (emptyNode_nodeInv info) hleg
  rw [hrun] at hrun'
  cases hrun'
  exact hinv

end RoutePlatform.BestPathSelection
