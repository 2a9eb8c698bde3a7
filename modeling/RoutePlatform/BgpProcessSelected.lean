import RoutePlatform.BestPathSelection
import RoutePlatform.BgpProcess

/-!
# One run of `bgp_process_main`

A run unlinks exactly the paths that are `REMOVED` when it starts, once each, and leaves
`SELECTED` on the best path only. Between two operations no path is marked by a pass, and at most
one path is selected.
-/

namespace RoutePlatform.BgpProcessSelected

open BestPathOperations BestPathSelection BgpProcess List Option Bool

variable {rn rn' : BgpNode} (flags : ℕ→InfoFlags) (l : List ℕ) {pair : Selection} {x : ℕ} (ri : ℕ)
  (rest : List ℕ) (bgp : Bgp) (oldSelect : Option ℕ)

theorem frame_removed (h : Frame rn rn') (ri : ℕ) : (rn'.flags ri).removed=(rn.flags ri).removed :=
  (congrArg InfoFlags.removed (h.flags ri) :)

/-- The path that the second pass takes for the old one. -/
def lastSelected (flags : ℕ→InfoFlags) (l : List ℕ) (oldSelect : Option ℕ) : Option ℕ :=
  l.foldl (fun old ri => if (flags ri).selected then some ri else old) oldSelect

theorem lastSelected_cons : lastSelected flags (ri::rest) oldSelect =
      lastSelected flags rest (if (flags ri).selected then some ri else oldSelect) := rfl

theorem lastSelected_mem {flags : ℕ→InfoFlags} :
    ∀ {oldSelect : Option ℕ}, lastSelected flags l oldSelect=some x →
      oldSelect=some x ∨ (x∈l ∧ (flags x).selected=true) := by
  induction l with
  | nil => exact fun h => .inl h
  | cons ri rest ih =>
    intro oldSelect h
    rw [lastSelected_cons] at h
    rcases ih h with hold|⟨hx,hsel⟩
    · by_cases hri : (flags ri).selected=true
      · rw [if_pos hri,some.injEq] at hold
        rw [←hold]
        exact .inr ⟨.head _,hri⟩
      rw [if_neg hri] at hold
      exact .inl hold
    · exact .inr ⟨.tail _ hx,hsel⟩

theorem lastSelected_isSome {flags : ℕ→InfoFlags} :
    ∀ {oldSelect : Option ℕ}, oldSelect.isSome=true ∨ (x∈l ∧ (flags x).selected=true) →
      (lastSelected flags l oldSelect).isSome=true := by
  induction l with
  | nil =>
    intro oldSelect h
    exact h.resolve_right fun hx => not_mem_nil hx.1
  | cons ri rest ih =>
    intro oldSelect h
    rw [lastSelected_cons]
    by_cases hri : (flags ri).selected=true
    · rw [if_pos hri]
      exact ih (.inl rfl)
    rw [if_neg hri]
    refine ih (h.imp_right fun ⟨hx,hsel⟩ => ⟨?_,hsel⟩)
    refine (mem_cons.mp hx).resolve_left fun he => hri ?_
    rw [←he]
    exact hsel

theorem selectReaps_cons : selectReaps flags (ri::rest) oldSelect =
      if (flags ri).holddown && ((flags ri).removed &&
          some ri≠if (flags ri).selected then some ri else oldSelect) then
        ri::selectReaps flags rest (if (flags ri).selected then some ri else oldSelect)
      else selectReaps flags rest (if (flags ri).selected then some ri else oldSelect) := rfl

/-- The second pass as a change of the node. -/
structure LoopSpec (l : List ℕ) (oldSelect newSelect : Option ℕ) (rn : BgpNode)
    (pair : Selection) : Prop where
  frame : Frame rn pair.node
  /-- The list changes by the calls of `bgp_info_reap`. -/
  infoList : pair.node.infoList=(selectReaps rn.flags l oldSelect).foldl List.erase rn.infoList
  old : pair.old=lastSelected rn.flags l oldSelect
  /-- The new path is a usable one of the list. -/
  new : ∀ x, pair.new=some x → newSelect=some x ∨ (x∈l ∧ (rn.flags x).holddown=false)

theorem frame_lastSelected (h : Frame rn rn') (l : List ℕ) (oldSelect : Option ℕ) :
    lastSelected rn'.flags l oldSelect=lastSelected rn.flags l oldSelect := by
  unfold lastSelected
  congr 1
  funext old ri
  rw [h.selected]

theorem frame_selectReaps (h : Frame rn rn') (l : List ℕ) :
    ∀ oldSelect, selectReaps rn'.flags l oldSelect=selectReaps rn.flags l oldSelect := by
  induction l with
  | nil => exact fun _ => rfl
  | cons ri rest ih =>
    intro oldSelect
    rw [selectReaps_cons,selectReaps_cons,h.holddown,h.selected,frame_removed h,ih]

theorem LoopSpec.cons {ri : ℕ} {rest : List ℕ} {oldSelect newSelect newSelect' : Option ℕ}
    (h : LoopSpec rest (if (rn.flags ri).selected then some ri else oldSelect) newSelect' rn' pair)
    (hframe : Frame rn rn') (hlist : rn'.infoList=rn.infoList)
    (hreap : ((rn.flags ri).holddown && ((rn.flags ri).removed &&
      some ri≠if (rn.flags ri).selected then some ri else oldSelect))=false)
    (hnew : ∀ x, newSelect'=some x → newSelect=some x ∨ (x=ri ∧ (rn.flags x).holddown=false)) :
    LoopSpec (ri::rest) oldSelect newSelect rn pair := by
  refine ⟨hframe.trans h.frame,?_,?_,fun x hx => ?_⟩
  · rw [h.infoList,hlist,frame_selectReaps hframe,selectReaps_cons,hreap,if_neg Bool.false_ne_true]
  · rw [h.old,frame_lastSelected hframe,lastSelected_cons]
  rcases h.new x hx with hx|⟨hx,hhold⟩
  · refine (hnew x hx).imp_right fun ⟨he,hhold⟩ => ⟨?_,hhold⟩
    rw [he]
    exact .head _
  rw [hframe.holddown] at hhold
  exact .inr ⟨.tail _ hx,hhold⟩

theorem selectLoop_spec (l : List ℕ) : ∀ (oldSelect newSelect : Option ℕ) (rn : BgpNode),
      LoopSpec l oldSelect newSelect rn (selectLoop bgp l oldSelect newSelect rn) := by
  induction l with
  | nil => exact fun oldSelect newSelect rn => ⟨Frame.refl rn,rfl,rfl,fun _ h => .inl h⟩
  | cons ri rest ih =>
    intro oldSelect newSelect rn
    rw [selectLoop]
    dsimp only
    by_cases hhold : (rn.flags ri).holddown=true
    · rw [if_pos hhold]
      by_cases hreap : ((rn.flags ri).removed &&
          some ri≠if (rn.flags ri).selected then some ri else oldSelect)=true
      · -- The path is unlinked: the only turn that changes the list.
        rw [if_pos hreap]
        have hframe := (Frame.refl rn).reap ri
        have h := ih (if (rn.flags ri).selected then some ri else oldSelect) newSelect (rn.reap ri)
        refine ⟨hframe.trans h.frame,?_,?_,fun x hx => ?_⟩
        · rw [h.infoList,frame_selectReaps hframe,selectReaps_cons,hhold,Bool.true_and,
            if_pos hreap,foldl_cons]
          rfl
        · rw [h.old,frame_lastSelected hframe,lastSelected_cons]
        refine (h.new x hx).imp_right fun hlive => ?_
        rw [hframe.holddown] at hlive
        exact ⟨.tail _ hlive.1,hlive.2⟩
      · rw [if_neg hreap]
        refine (ih _ newSelect rn).cons (Frame.refl rn) rfl ?_ fun _ h => .inl h
        rw [Bool.eq_false_of_not_eq_true hreap,Bool.and_false]
    · rw [if_neg hhold]
      have hfree := Bool.eq_false_of_not_eq_true hhold
      have hreap : ∀ b, ((rn.flags ri).holddown && b)=false := by
        intro b
        rw [hfree,Bool.false_and]
      split
      · exact (ih _ newSelect _).cons ((Frame.refl rn).unsetDmedCheck ri) rfl (hreap _)
          fun _ h => .inl h
      have hframe := ((Frame.refl rn).unsetDmedCheck ri).unsetDmedSelected ri
      split
      · refine (ih _ (some ri) _).cons hframe rfl (hreap _) fun x hx => ?_
        rw [some.injEq] at hx
        rw [←hx]
        exact .inr ⟨rfl,hfree⟩
      · exact (ih _ newSelect _).cons hframe rfl (hreap _) fun _ h => .inl h

theorem bgpBestSelection_spec (h : NodeInv rn) :
    LoopSpec rn.infoList none none rn (bgpBestSelection bgp rn) := by
  rw [bgpBestSelection]
  by_cases hdet : bgp.deterministicMed=true
  · rw [if_pos hdet]
    have houter := dmedOuter_outerSpec bgp h
    rw [houter.infoList]
    have hloop := selectLoop_spec bgp rn.infoList none none (dmedOuter bgp rn.infoList rn)
    refine ⟨houter.frame.trans hloop.frame,?_,?_,fun x hx => ?_⟩
    · rw [hloop.infoList,houter.infoList,frame_selectReaps houter.frame]
    · rw [hloop.old,frame_lastSelected houter.frame]
    have hnew := hloop.new x hx
    rw [houter.frame.holddown] at hnew
    exact hnew
  rw [if_neg hdet]
  exact selectLoop_spec bgp rn.infoList none none rn

/-- At most one path of the list is selected. -/
def OneSelected (rn : BgpNode) : Prop := ∀ x∈rn.infoList, ∀ y∈rn.infoList,
    (rn.flags x).selected=true → (rn.flags y).selected=true → x=y

theorem lastSelected_eq_some_iff (hone : OneSelected rn) (x : ℕ) :
    lastSelected rn.flags rn.infoList none=some x ↔ x∈rn.infoList ∧ (rn.flags x).selected=true := by
  constructor
  · exact fun h => (lastSelected_mem _ h).resolve_left (some_ne_none x).symm
  · intro hx
    obtain ⟨y,hy⟩ := isSome_iff_exists.mp (lastSelected_isSome rn.infoList (.inr hx))
    have hmem := (lastSelected_mem _ hy).resolve_left (some_ne_none y).symm
    rw [hy,hone y hmem.1 x hx.1 hmem.2 hx.2]

/-- The second pass reaps the deleted paths that are not selected. -/
theorem selectReaps_eq : ∀ oldSelect : Option ℕ, l.Nodup → (∀ x, oldSelect=some x → x ∉ l) →
      selectReaps flags l oldSelect =
        l.filter fun ri => (flags ri).removed && !(flags ri).selected := by
  induction l with
  | nil => exact fun _ _ _ => rfl
  | cons ri rest ih =>
    intro oldSelect hnd hold
    obtain ⟨hri,hnd'⟩ := nodup_cons.mp hnd
    have hold' : ∀ x, (if (flags ri).selected then some ri else oldSelect)=some x → x ∉ rest := by
      intro x hx
      by_cases hsel : (flags ri).selected=true
      · rw [if_pos hsel,some.injEq] at hx
        rw [←hx]
        exact hri
      rw [if_neg hsel] at hx
      exact fun hin => hold x hx (.tail _ hin)
    have htest : ((flags ri).holddown && ((flags ri).removed &&
        some ri≠if (flags ri).selected then some ri else oldSelect)) =
          ((flags ri).removed && !(flags ri).selected) := by
      have hne : ¬some ri=oldSelect := fun he => hold ri he.symm mem_cons_self
      cases hrem : (flags ri).removed with
      | false => rw [Bool.false_and,Bool.false_and,Bool.and_false]
      | true =>
        have hhold : (flags ri).holddown=true := by
          rw [InfoFlags.holddown,hrem,Bool.or_true,Bool.or_true]
        rw [hhold]
        cases (flags ri).selected <;> simp [hne]
    rw [selectReaps_cons,htest,ih _ hnd' hold',filter_cons]

theorem foldl_erase_eq_filter {l : List ℕ} {p : ℕ→Bool} (hnd : l.Nodup) {rs : List ℕ}
    (hrs : ∀ x, x∈rs ↔ x∈l ∧ p x=true) : rs.foldl List.erase l=l.filter fun x => !p x := by
  rw [←diff_eq_foldl,hnd.sdiff_eq_filter]
  refine filter_congr fun x hx => ?_
  by_cases hp : p x=true
  · have hin := (hrs x).mpr ⟨hx,hp⟩
    simp [hin,hp]
  have hout : x ∉ rs := fun hin => hp ((hrs x).mp hin).2
  simp [hout,hp]

theorem foldl_reap (rs : List ℕ) :
    ∀ rn : BgpNode, rs.foldl BgpNode.reap rn = {rn with infoList := rs.foldl List.erase rn.infoList} := by
  induction rs with
  | nil => exact fun _ => rfl
  | cons ri rs ih =>
    intro rn
    rw [foldl_cons,ih]
    rfl

/-- The flags that a run leaves alone. -/
def lasting (flags : InfoFlags) : InfoFlags := {base flags with selected := false}

variable {flags flags' : InfoFlags}

theorem lasting_of_base (h : base flags'=base flags) : lasting flags'=lasting flags :=
  congrArg (fun flags => {flags with selected := false}) h

theorem removed_of_lasting (h : lasting flags'=lasting flags) :
    flags'.removed=flags.removed := (congrArg InfoFlags.removed h :)

theorem holddown_of_lasting (h : lasting flags'=lasting flags) :
    flags'.holddown=flags.holddown := (congrArg InfoFlags.holddown h :)

theorem not_removed_of_usable (h : flags.holddown=false) : flags.removed=false := by
  cases hrem : flags.removed with
  | false => rfl
  | true =>
    rw [InfoFlags.holddown,hrem,Bool.or_true,Bool.or_true] at h
    cases h

variable (pn : ProcessNode)

theorem moveSelected_flags (old new : Option ℕ) (ri : ℕ) :
    (setSelected (unsetSelected pn old) new).rn.flags ri = {pn.rn.flags ri with
        selected := new=some ri || (old≠some ri && (pn.rn.flags ri).selected)} := by
  have hunset : (unsetSelected pn old).rn.flags ri =
      {pn.rn.flags ri with selected := old≠some ri && (pn.rn.flags ri).selected} := by
    cases old with
    | none => rfl
    | some x =>
      by_cases hx : ri=x
      · subst hx
        simp [unsetSelected,BgpNode.modifyFlags]
      · simp [unsetSelected,BgpNode.modifyFlags,hx,Ne.symm hx]
  cases new with
  | none =>
    rw [setSelected,hunset]
    rfl
  | some x =>
    by_cases hx : ri=x
    · subst hx
      simp [setSelected,ProcessNode.modifyPath,BgpNode.modifyFlags,hunset]
    · simp [setSelected,ProcessNode.modifyPath,BgpNode.modifyFlags,hunset,hx,Ne.symm hx]

theorem moveSelected_infoList (old new : Option ℕ) :
    (setSelected (unsetSelected pn old) new).rn.infoList=pn.rn.infoList := by
  cases old <;> cases new <;> rfl

/-- What a run of `bgp_process_main` does to its node. -/
structure MainSpec (bgp : Bgp) (pn : ProcessNode) (result : ProcessResult) : Prop where
  nodup : result.reaped.Nodup
  reaped : ∀ ri, ri∈result.reaped ↔ ri∈pn.rn.infoList ∧ (pn.rn.flags ri).removed=true
  infoList : result.node.rn.infoList=pn.rn.infoList.filter fun ri => !(pn.rn.flags ri).removed
  flags : ∀ ri, lasting (result.node.rn.flags ri)=lasting (pn.rn.flags ri)
  selected : ∀ ri∈result.node.rn.infoList,
    (result.node.rn.flags ri).selected=true ↔ (bgpBestSelection bgp pn.rn).new=some ri
  best : ∀ ri, (bgpBestSelection bgp pn.rn).new=some ri →
    ri∈result.node.rn.infoList ∧ (result.node.rn.flags ri).holddown=false
  inv : NodeInv result.node.rn
  scheduled : result.node.scheduled=false

/-- What is left to show for a run: which paths it reaps, and what becomes of
`SELECTED`. -/
theorem MainSpec.of_reaped {bgp : Bgp} {pn : ProcessNode} {result : ProcessResult}
    (hinv : NodeInv pn.rn) (hnd : result.reaped.Nodup)
    (hreaped : ∀ ri, ri∈result.reaped ↔ ri∈pn.rn.infoList ∧ (pn.rn.flags ri).removed=true)
    (hlist : result.node.rn.infoList=result.reaped.foldl List.erase pn.rn.infoList)
    (hflags : ∀ ri, lasting (result.node.rn.flags ri)=lasting (pn.rn.flags ri))
    (hclear : DmedClear result.node.rn)
    (hsel : ∀ ri∈pn.rn.infoList,
      (result.node.rn.flags ri).selected=true ↔ (bgpBestSelection bgp pn.rn).new=some ri)
    (hscheduled : result.node.scheduled=false) : MainSpec bgp pn result := by
  have hfilter : result.node.rn.infoList =
      pn.rn.infoList.filter fun ri => !(pn.rn.flags ri).removed := by
    rw [hlist]
    exact foldl_erase_eq_filter hinv.nodup hreaped
  refine ⟨hnd,hreaped,hfilter,hflags,fun ri hri => hsel ri ?_,fun ri hbest => ?_,?_,
    hscheduled⟩
  · rw [hfilter] at hri
    exact (mem_filter.mp hri).1
  · have hnew := ((bgpBestSelection_spec bgp hinv).new ri hbest).resolve_left (by simp)
    have hkept := not_removed_of_usable hnew.2
    rw [hfilter,holddown_of_lasting (hflags ri),mem_filter,hkept]
    exact ⟨⟨hnew.1,rfl⟩,hnew.2⟩
  refine ⟨?_,hclear⟩
  rw [hfilter]
  exact hinv.nodup.filter _

theorem nothingToDo_eq_some {path : ℕ→PathState} {old : ℕ} (h : nothingToDo pair path=some old) :
    pair.old=some old ∧ pair.new=some old := by
  rw [nothingToDo] at h
  cases hold : pair.old with
  | none =>
    rw [hold] at h
    cases h
  | some x =>
    rw [hold] at h
    dsimp only at h
    split at h
    · next htest =>
      rw [some.injEq] at h
      rw [←h]
      exact ⟨rfl,htest.1⟩
    · cases h

theorem mem_oldReaps {pn : ProcessNode} {old : Option ℕ} {ri : ℕ} :
    ri∈oldReaps pn old ↔ old=some ri ∧ (pn.rn.flags ri).removed=true := by
  rw [oldReaps,mem_toList,filter_eq_some_iff]

theorem nodup_oldReaps (old : Option ℕ) : (oldReaps pn old).Nodup := by
  rw [oldReaps]
  cases old.filter fun ri => (pn.rn.flags ri).removed with
  | none => exact nodup_nil
  | some ri => exact nodup_singleton ri

theorem bgpProcessMain_spec (config : ProcessConfig) (multipathChg : ℕ→Bool) {pn : ProcessNode}
    (hinv : NodeInv pn.rn) (hone : OneSelected pn.rn) :
    MainSpec config.bgp pn (bgpProcessMain config multipathChg pn) := by
  have hpair := bgpBestSelection_spec config.bgp hinv
  have hclear := (bgpBestSelection_nodeInv config.bgp hinv).clear
  have hreaps := selectReaps_eq pn.rn.flags pn.rn.infoList none hinv.nodup (by simp)
  have hold : ∀ ri, (bgpBestSelection config.bgp pn.rn).old=some ri ↔
      ri∈pn.rn.infoList ∧ (pn.rn.flags ri).selected=true := by
    intro ri
    rw [hpair.old]
    exact lastSelected_eq_some_iff hone ri
  rw [bgpProcessMain]
  split
  · next old hnothing =>
    -- The old path is still the best one, so it is not deleted.
    obtain ⟨hold',hnew'⟩ := nothingToDo_eq_some hnothing
    have hkept := not_removed_of_usable ((hpair.new old hnew').resolve_left (by simp)).2
    refine MainSpec.of_reaped hinv ?_ (fun ri => ?_) hpair.infoList
      (fun ri => lasting_of_base (hpair.frame.flags ri)) hclear (fun ri hri => ?_) rfl
    · rw [hreaps]
      exact hinv.nodup.filter _
    · rw [hreaps,mem_filter,and_eq_true,not_eq_true']
      refine and_congr_right fun hri => and_iff_left_of_imp fun hrem => ?_
      refine Bool.eq_false_of_not_eq_true fun hsel => ?_
      have he := (hold ri).mpr ⟨hri,hsel⟩
      rw [hold',some.injEq] at he
      rw [←he,hkept] at hrem
      cases hrem
    have hsel := hpair.frame.selected ri
    rw [hnew',←hold',hold]
    exact ⟨fun h => ⟨hri,hsel ▸ h⟩,fun h => hsel.trans h.2⟩
  · -- The old path loses the flag before it is reaped.
    have hremoved := frame_removed hpair.frame
    refine MainSpec.of_reaped hinv ?_ (fun ri => ?_) ?_ (fun ri => ?_) (fun ri => ?_)
      (fun ri hri => ?_) rfl
    · refine List.Nodup.append ?_ (nodup_oldReaps _ _) fun ri hri hri' => ?_
      · rw [hreaps]
        exact hinv.nodup.filter _
      rw [hreaps,mem_filter,and_eq_true,not_eq_true'] at hri
      have hsel := ((hold ri).mp (mem_oldReaps.mp hri').1).2
      rw [hri.2.2] at hsel
      cases hsel
    · rw [mem_append,hreaps,mem_filter,mem_oldReaps,hold,moveSelected_flags,hremoved]
      cases (pn.rn.flags ri).removed <;> cases (pn.rn.flags ri).selected <;> simp
    · dsimp only
      rw [foldl_reap,foldl_append,←hpair.infoList,moveSelected_infoList]
    · have hlasting := lasting_of_base (hpair.frame.flags ri)
      dsimp only
      rw [foldl_reap]
      rw [moveSelected_flags]
      exact hlasting
    · dsimp only
      rw [foldl_reap]
      rw [moveSelected_flags]
      exact hclear ri
    dsimp only
    rw [foldl_reap]
    rw [moveSelected_flags]
    rw [hpair.frame.selected,or_eq_true,decide_eq_true_iff,and_eq_true,
      decide_eq_true_iff]
    refine or_iff_left fun ⟨hne,hsel⟩ => hne ((hold ri).mpr ⟨hri,hsel⟩)

end RoutePlatform.BgpProcessSelected
