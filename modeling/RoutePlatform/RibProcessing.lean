import RoutePlatform.RibEntries

/-!
# What processing keeps and whom it selects

`rib_process` changes marks of entries only: the flags of next hops, their
resolution, `SELECTED` and `CHANGED`. Everything else stays, and exactly the
removed entries go. The winner of its loop is the preferred one of the usable
entries.
-/

namespace RoutePlatform.RibProcessing

open RibEntries List Option Bool Function

variable {out : List Rib × List RedistCall} {f : Rib → Rib} {w : Rib} {a b : Rib}

/-- A next hop without its marks. -/
def nexthopData (hop : Nexthop) : Nexthop :=
  {hop with
    ifindex :=
      match hop.type with
      | .ipv4 | .ifname => 0
      | _ => hop.ifindex
    active := false
    fib := false
    resolved := []}

def ribData (rib : Rib) : Rib :=
  {rib with
    flags := {rib.flags with selected := false,changed := false}
    nexthopActiveNum := 0
    nexthops := rib.nexthops.map nexthopData}

theorem map_mapIdx_of {α β γ : Type} {f : ℕ→α→β} {g : β→γ} {k : α→γ}
    (h : ∀ i a, g (f i a)=k a) (l : List α) : (l.mapIdx f).map g=l.map k := by
  refine ext_getElem (by rw [length_map,length_mapIdx,length_map]) fun i h1 h2 => ?_
  rw [getElem_map,getElem_mapIdx,getElem_map]
  exact h i _

section

variable (safi : Safi) (env : Environment) (rib : Rib)

theorem nexthopData_nexthopActiveCheck (result : ActiveResult) (set : Bool) (hop : Nexthop) :
    nexthopData (nexthopActiveCheck result set hop)=nexthopData hop := by
  obtain ⟨type,ifname,ifindex,gate,src,active,fib,resolved⟩ := hop
  cases type <;> rfl

@[simp] theorem ribData_setSelected (b : Bool) : ribData (rib.setSelected b)=ribData rib := rfl

@[simp] theorem ribData_setFib (b : Bool) : ribData (rib.setFib b)=ribData rib := by
  unfold ribData Rib.setFib
  rw [List.map_map]
  rfl

@[simp] theorem ribData_nexthopActiveUpdate (set : Bool) :
    ribData (nexthopActiveUpdate env set rib)=ribData rib := by
  have hhops : (rib.nexthops.mapIdx fun i hop =>
      nexthopActiveCheck (env.activeCheck set rib.addr i) set hop).map nexthopData =
      rib.nexthops.map nexthopData :=
    map_mapIdx_of (fun i hop =>
      nexthopData_nexthopActiveCheck (env.activeCheck set rib.addr i) set hop) _
  unfold ribData nexthopActiveUpdate
  rw [hhops]

@[simp] theorem ribData_kernelMark (result : KernelResult) :
    ribData (kernelMark result rib)=ribData rib := by
  have hhops : (kernelMark result rib).nexthops.map nexthopData = rib.nexthops.map nexthopData := by
    refine map_mapIdx_of ?_ _
    exact fun _ _ => rfl
  unfold ribData
  rw [hhops]
  rfl

@[simp] theorem ribData_ribInstallKernel : ribData (ribInstallKernel safi env rib)=ribData rib := by
  unfold ribInstallKernel
  dsimp only
  split
  · exact ribData_setFib rib true
  split
  · rw [ribData_setFib,ribData_kernelMark]
  · exact ribData_kernelMark rib _

@[simp] theorem ribData_uninstallRib : ribData (uninstallRib safi rib)=ribData rib := by
  unfold uninstallRib ribUninstallKernel
  split
  · rfl
  · split <;> exact ribData_setFib rib _

@[simp] theorem ribData_installRib : ribData (installRib safi env rib)=ribData rib := by
  unfold installRib
  dsimp only
  split
  · exact ribData_nexthopActiveUpdate env rib true
  · rw [ribData_ribInstallKernel,ribData_nexthopActiveUpdate]

theorem addr_of_ribData (h : ribData a=ribData b) : a.addr=b.addr :=
  (congrArg Rib.addr h :)

theorem removed_of_ribData (h : ribData a=ribData b) : a.removed=b.removed :=
  (congrArg Rib.removed h :)

end

section

variable {safi : Safi} {env : Environment} {routes : List Rib}

/-- What a change of an entry keeps is kept of the list. -/
theorem map_modifyRib {α : Type} {g : Rib→α} (hf : ∀ rib, g (f rib)=g rib) (addr : ℕ)
    (routes : List Rib) : (modifyRib addr f routes).map g=routes.map g := by
  unfold modifyRib
  rw [List.map_map]
  refine map_congr_left fun rib _ => ?_
  rw [comp_apply]
  split
  · exact hf rib
  · rfl

theorem modifyRib_of_ne {addr : ℕ} (h : ∀ rib∈routes, rib.addr≠addr) :
    modifyRib addr f routes=routes := by
  have hid : modifyRib addr f routes=routes.map id :=
    map_congr_left fun rib hmem => if_neg (h rib hmem)
  rw [hid,List.map_id]

theorem ribData_refresh (env : Environment) (rib : Rib) :
    ribData (refresh env rib)=ribData rib := by
  unfold refresh
  split
  · rfl
  · exact ribData_nexthopActiveUpdate env rib false

/-- The entries are numbered, older ones lower. -/
def Numbered (routes : List Rib) : Prop := routes.Pairwise fun a b => b.addr<a.addr

theorem Numbered.eq_of_addr (h : Numbered routes) {a b : Rib} (ha : a∈routes) (hb : b∈routes)
    (haddr : a.addr=b.addr) : a=b := by
  induction routes with
  | nil => cases ha
  | cons c rest ih =>
    obtain ⟨hc,hrs⟩ := pairwise_cons.mp h
    rcases mem_cons.mp ha with ha|ha
    · rcases mem_cons.mp hb with hb|hb
      · rw [ha,hb]
      · exact absurd haddr (ne_of_gt (ha ▸ hc b hb))
    rcases mem_cons.mp hb with hb|hb
    · exact absurd haddr (ne_of_lt (hb ▸ hc a ha))
    · exact ih hrs ha hb

/-- The winner is one of the entries given, or a usable entry behind its
check. -/
theorem winner_mem (env : Environment) (routes : List Rib) : ∀ {select : Option Rib} {w : Rib},
    winner env select routes=some w → select=some w ∨ ∃ rib∈routes, usable env rib=true ∧
        w=nexthopActiveUpdate env false rib := by
  induction routes with
  | nil => exact fun h => .inl h
  | cons rib rest ih =>
    intro select w h
    rw [winner_cons] at h
    rcases ih h with hsel|⟨rib',hmem,hrib'⟩
    · cases huse : usable env rib with
      | false =>
        rw [huse] at hsel
        exact .inl hsel
      | true =>
        rw [huse,if_pos rfl,some.injEq] at hsel
        have hone : better select (nexthopActiveUpdate env false rib) =
            nexthopActiveUpdate env false rib ∨
              select=some (better select (nexthopActiveUpdate env false rib)) := by
          unfold better
          cases select with
          | none => exact .inl rfl
          | some select =>
            dsimp only
            split_ifs
            all_goals first
              | exact .inl rfl
              | exact .inr rfl
        rcases hone with hnew|hold
        · exact .inr ⟨rib,.head _,huse,hsel.symm.trans hnew⟩
        · exact .inl (hold.trans (congrArg some hsel))
    · exact .inr ⟨rib',.tail _ hmem,hrib'⟩

theorem eq_of_selectedOnce (h : SelectedOnce none routes) {a b : Rib} (ha : a∈routes)
    (hb : b∈routes) (hsa : a.flags.selected=true) (hsb : b.flags.selected=true) : a=b := by
  unfold SelectedOnce at h
  rw [toList_none,length_nil,zero_add,countP_eq_length_filter] at h
  have ha' : a∈routes.filter fun rib => rib.flags.selected := mem_filter.mpr ⟨ha,hsa⟩
  have hb' : b∈routes.filter fun rib => rib.flags.selected := mem_filter.mpr ⟨hb,hsb⟩
  cases hl : routes.filter fun rib => rib.flags.selected with
  | nil =>
    rw [hl] at ha'
    cases ha'
  | cons c rest =>
    rw [hl] at h ha' hb'
    have hrs : rest=[] := eq_nil_of_length_eq_zero (by rw [length_cons] at h; omega)
    rw [hrs] at ha' hb'
    rw [mem_singleton.mp ha',mem_singleton.mp hb']

theorem selected_of_find? {fib : Rib} (h : (routes.find? fun rib => rib.flags.selected)=some fib) :
    fib∈routes ∧ fib.flags.selected=true :=
  ⟨mem_of_find?_eq_some h, @find?_some _ (fun rib : Rib => rib.flags.selected) _ _ h⟩

/-- What is selected again is the FIB entry behind its check. -/
theorem same_eq_some (hnum : Numbered routes)
    (h : (Choice.over env ⟨none,none,false⟩ routes).same=some w) :
    ∃ fib∈routes, fib.flags.selected=true ∧ usable env fib=true ∧
      w=nexthopActiveUpdate env false fib := by
  unfold Choice.same Choice.over at h
  cases hselect : winner env none routes with
  | none =>
    rw [hselect] at h
    exact nomatch h
  | some select =>
    cases hfib : routes.find? fun rib => rib.flags.selected with
    | none =>
      rw [hselect,hfib] at h
      exact nomatch h
    | some fib =>
      rw [hselect,hfib,none_or] at h
      dsimp only at h
      by_cases haddr : select.addr=fib.addr
      · rw [if_pos haddr,some.injEq] at h
        rcases winner_mem env routes hselect with hno|⟨rib,hmem,huse,hw⟩
        · exact nomatch hno
        have hsame := hnum.eq_of_addr hmem (selected_of_find? hfib).1 (by rw [←haddr,hw]; rfl)
        refine ⟨rib,hmem,?_,huse,h.symm.trans hw⟩
        rw [hsame]
        exact (selected_of_find? hfib).2
      rw [if_neg haddr] at h
      exact nomatch h

theorem winner_of_same (h : (Choice.over env ⟨none,none,false⟩ routes).same=some w) :
    winner env none routes=some w := by
  unfold Choice.same Choice.over at h
  dsimp only at h
  split at h
  · rename_i select fib hselect hfib
    split at h
    · rw [hselect,h]
    · exact nomatch h
  · exact nomatch h

theorem removed_of_usable {rib : Rib} (h : usable env rib=true) : rib.removed=false := by
  unfold usable at h
  rw [and_eq_true,and_eq_true,not_eq_true'] at h
  exact h.1.1

/-- The pointer is to the entry. -/
def pointsTo (pointer : Option Rib) (rib : Rib) : Bool :=
  pointer.any fun other => other.addr=rib.addr

theorem pointsTo_some (other rib : Rib) :
    pointsTo (some other) rib=decide (other.addr=rib.addr) := rfl

/-- The FIB entry behind its withdrawal. -/
def withdrawnRib (safi : Safi) (env : Environment) (rib : Rib) : Rib :=
  nexthopActiveUpdate env true ((uninstallRib safi rib).setSelected false)

/-- The entry that is selected again. -/
def updatedRib (safi : Safi) (env : Environment) (rib : Rib) : Rib :=
  if rib.flags.changed then installRib safi env (uninstallRib safi rib)
  else if !rib.system && !rib.anyFib then ribInstallKernel safi env rib
  else rib

/-- What `rib_process` makes of an entry that stays. -/
def processedRib (safi : Safi) (env : Environment) (select : Option Rib) (rib : Rib) : Rib :=
  let new := nexthopActiveUpdate env false rib
  if pointsTo select rib then
    if rib.flags.selected then updatedRib safi env new
    else (installRib safi env new).setSelected true
  else if rib.flags.selected then withdrawnRib safi env new
  else new

/-- The calls of `rib_process`. -/
def redistCalls (env : Environment) (routes : List Rib) : List RedistCall :=
  match (Choice.over env ⟨none,none,false⟩ routes).same with
  | some select =>
    if select.flags.changed then [.delete select.type select.distance,.add select.type] else []
  | none =>
    ((routes.find? fun rib => rib.flags.selected).toList.map fun fib =>
      .delete fib.type fib.distance) ++
      (winner env none routes).toList.map fun select => .add select.type

theorem removeExisting_fst (safi : Safi) (env : Environment) (fib : Option Rib)
    (routes : List Rib) :
    (removeExisting safi env fib routes).1 =
      routes.map fun rib => if pointsTo fib rib then withdrawnRib safi env rib else rib := by
  cases fib with
  | none => exact (map_id routes).symm
  | some fib =>
    refine map_congr_left fun rib _ => ?_
    rw [pointsTo_some]
    by_cases haddr : rib.addr=fib.addr
    · rw [if_pos haddr,decide_eq_true haddr.symm,if_pos rfl]
      rfl
    · rw [if_neg haddr,decide_eq_false (Ne.symm haddr),if_neg Bool.false_ne_true]

theorem addSelected_fst (safi : Safi) (env : Environment) (select : Option Rib)
    (routes : List Rib) :
    (addSelected safi env select routes).1 = routes.map fun rib =>
        if pointsTo select rib then (installRib safi env rib).setSelected true else rib := by
  cases select with
  | none => exact (map_id routes).symm
  | some select =>
    refine map_congr_left fun rib _ => ?_
    rw [pointsTo_some]
    by_cases haddr : rib.addr=select.addr
    · rw [if_pos haddr,decide_eq_true haddr.symm,if_pos rfl]
    · rw [if_neg haddr,decide_eq_false (Ne.symm haddr),if_neg Bool.false_ne_true]

theorem survivors_eq (h : ∀ rib∈routes, ¬(rib.flags.selected && rib.removed)=true) :
    survivors env routes =
      (routes.filter fun rib => !rib.removed).map (nexthopActiveUpdate env false) := by
  have hfilter : (routes.filter fun rib => !rib.removed || rib.flags.selected) =
      routes.filter fun rib => !rib.removed := by
    refine filter_congr fun rib hmem => ?_
    have hrib := h rib hmem
    cases hr : rib.removed <;> cases hs : rib.flags.selected
    all_goals first
      | rfl
      | (rw [hr,hs] at hrib; exact absurd rfl hrib)
  unfold survivors
  rw [hfilter]
  refine map_congr_left fun rib hmem => if_neg ?_
  rw [not_eq_true,←not_eq_true']
  exact (mem_filter.mp hmem).2

theorem updateExisting_eq (hnum : Numbered routes) (honce : SelectedOnce none routes) {fib : Rib}
    (hfib : fib∈routes) (hsel : fib.flags.selected=true) :
    (updateExisting safi env (nexthopActiveUpdate env false fib)
        ((routes.filter fun rib => !rib.removed).map (nexthopActiveUpdate env false))).1 =
      (routes.filter fun rib => !rib.removed).map
        (processedRib safi env (some (nexthopActiveUpdate env false fib))) := by
  have hmodify : ∀ f : Rib → Rib, f (nexthopActiveUpdate env false fib) =
      updatedRib safi env (nexthopActiveUpdate env false fib) →
      modifyRib fib.addr f
          ((routes.filter fun rib => !rib.removed).map (nexthopActiveUpdate env false)) =
        (routes.filter fun rib => !rib.removed).map
          (processedRib safi env (some (nexthopActiveUpdate env false fib))) := by
    intro f hf
    unfold modifyRib
    rw [List.map_map]
    refine map_congr_left fun rib hmem => ?_
    have hrts := (mem_filter.mp hmem).1
    have haddr : (nexthopActiveUpdate env false rib).addr=rib.addr := rfl
    have hpoints : pointsTo (some (nexthopActiveUpdate env false fib)) rib =
        decide (fib.addr=rib.addr) := rfl
    unfold processedRib
    dsimp only [comp_apply]
    rw [haddr,hpoints]
    by_cases hsame : rib.addr=fib.addr
    · rw [hnum.eq_of_addr hrts hfib hsame,if_pos rfl,decide_eq_true rfl,if_pos rfl,
        if_pos hsel,hf]
    rw [if_neg hsame,decide_eq_false (Ne.symm hsame),if_neg Bool.false_ne_true,if_neg]
    exact fun hs => hsame (congrArg Rib.addr (eq_of_selectedOnce honce hrts hfib hs hsel))
  have hid : ∀ l : List Rib, modifyRib fib.addr id l=l := by
    intro l
    exact (map_congr_left fun rib _ => ite_self rib).trans (map_id l)
  unfold updateExisting
  split
  · rename_i hchanged
    exact hmodify _ (if_pos hchanged).symm
  rename_i hchanged
  split
  · rename_i hout
    exact hmodify _ ((if_neg hchanged).trans (if_pos hout)).symm
  rename_i hin
  rw [←hmodify id ((if_neg hchanged).trans (if_neg hin)).symm,hid]

theorem unlinkRemoved_eq (c : Choice) (routes : List Rib) :
    unlinkRemoved c routes=routes.filter fun rib => !(c.del && pointsTo c.fib rib) := by
  obtain ⟨fib,select,del⟩ := c
  cases fib with
  | none =>
    refine (filter_eq_self.mpr fun rib _ => ?_).symm
    rw [not_eq_true',and_eq_false_iff]
    exact .inr rfl
  | some fib =>
    cases del with
    | false => exact (filter_eq_self.mpr fun _ _ => rfl).symm
    | true =>
      refine filter_congr fun rib _ => ?_
      rw [Bool.true_and,pointsTo_some,←decide_not]
      exact decide_eq_decide.mpr (not_congr eq_comm)

theorem pointsTo_find? (hnum : Numbered routes) (honce : SelectedOnce none routes) {rib : Rib}
    (hmem : rib∈routes) :
    pointsTo (routes.find? fun rib => rib.flags.selected) rib=rib.flags.selected := by
  cases hfind : routes.find? fun rib => rib.flags.selected with
  | none => exact ((not_eq_true _).mp (find?_eq_none.mp hfind rib hmem)).symm
  | some old =>
    obtain ⟨hmemOld,hselOld⟩ := selected_of_find? hfind
    rw [pointsTo_some]
    cases hs : rib.flags.selected with
    | true => rw [eq_of_selectedOnce honce hmem hmemOld hs hselOld,decide_eq_true rfl]
    | false =>
      refine decide_eq_false fun haddr => ?_
      rw [hnum.eq_of_addr hmemOld hmem haddr,hs] at hselOld
      exact nomatch hselOld

/-- An entry behind the withdrawal of the FIB entry and the installation of
the winner. -/
def replacedRib (safi : Safi) (env : Environment) (fib select : Option Rib) (rib : Rib) : Rib :=
  let rib := if pointsTo fib rib then withdrawnRib safi env rib else rib
  if pointsTo select rib then (installRib safi env rib).setSelected true else rib

theorem ribData_replacedRib (safi : Safi) (env : Environment) (fib select : Option Rib)
    (rib : Rib) : ribData (replacedRib safi env fib select rib)=ribData rib := by
  have hwithdrawn : ribData (withdrawnRib safi env rib)=ribData rib := by
    unfold withdrawnRib
    rw [ribData_nexthopActiveUpdate,ribData_setSelected,ribData_uninstallRib]
  unfold replacedRib
  dsimp only
  split_ifs
  · rw [ribData_setSelected,ribData_installRib,hwithdrawn]
  · exact hwithdrawn
  · rw [ribData_setSelected,ribData_installRib]
  · rfl

theorem addSelected_removeExisting (safi : Safi) (env : Environment) (fib select : Option Rib)
    (routes : List Rib) :
    (addSelected safi env select (removeExisting safi env fib routes).1).1 =
      routes.map (replacedRib safi env fib select) := by
  rw [removeExisting_fst,addSelected_fst,List.map_map]
  rfl

theorem replaceSelected_eq (hnum : Numbered routes) (honce : SelectedOnce none routes)
    {c : Choice} (hfib : c.fib=routes.find? fun rib => rib.flags.selected)
    (hdel : c.del=routes.any fun rib => rib.flags.selected && rib.removed)
    (hoth : ∀ rib∈routes, rib.flags.selected=true → pointsTo c.select rib=false) :
    unlinkRemoved c
        (addSelected safi env c.select (removeExisting safi env c.fib (survivors env routes)).1).1 =
      (routes.filter fun rib => !rib.removed).map (processedRib safi env c.select) := by
  have hpoints : ∀ rib∈routes, pointsTo c.fib rib=rib.flags.selected := by
    intro rib hmem
    rw [hfib,pointsTo_find? hnum honce hmem]
  have haddr : ∀ rib, (replacedRib safi env c.fib c.select (refresh env rib)).addr=rib.addr := by
    intro rib
    rw [addr_of_ribData (ribData_replacedRib safi env c.fib c.select (refresh env rib)),
      addr_of_ribData (ribData_refresh env rib)]
  -- What the loop has left goes exactly when it is the removed FIB entry.
  have hfilter : (routes.filter fun rib =>
      !(c.del && pointsTo c.fib rib) && (!rib.removed || rib.flags.selected)) =
      routes.filter fun rib => !rib.removed := by
    refine filter_congr fun rib hmem => ?_
    rw [hpoints rib hmem]
    cases hs : rib.flags.selected with
    | false => rw [Bool.and_false,Bool.not_false,Bool.true_and,Bool.or_false]
    | true =>
      have hdelRib : c.del=rib.removed := by
        rw [hdel]
        cases hr : rib.removed with
        | true => exact any_eq_true.mpr ⟨rib,hmem,by rw [hs,hr]; rfl⟩
        | false =>
          refine any_eq_false.mpr fun other hoth' hboth => ?_
          obtain ⟨hs',hr'⟩ := (and_eq_true _ _).mp hboth
          rw [eq_of_selectedOnce honce hoth' hmem hs' hs,hr] at hr'
          exact nomatch hr'
      rw [hdelRib,Bool.and_true,Bool.or_true,Bool.and_true]
  rw [addSelected_removeExisting,unlinkRemoved_eq,survivors,List.map_map,List.filter_map,
    List.filter_filter]
  have hcomp : (fun rib : Rib => !(c.del && pointsTo c.fib rib)) ∘
      (replacedRib safi env c.fib c.select ∘ refresh env) =
      fun rib => !(c.del && pointsTo c.fib rib) := by
    funext rib
    dsimp only [comp_apply]
    unfold pointsTo
    rw [haddr]
  rw [hcomp,hfilter]
  refine map_congr_left fun rib hmem => ?_
  obtain ⟨hrts,hlive⟩ := mem_filter.mp hmem
  have hrefresh : refresh env rib=nexthopActiveUpdate env false rib :=
    if_neg (by rw [not_eq_true,←not_eq_true']; exact hlive)
  have hfibNew : pointsTo c.fib (nexthopActiveUpdate env false rib)=rib.flags.selected :=
    hpoints rib hrts
  dsimp only [comp_apply]
  rw [hrefresh]
  unfold replacedRib processedRib
  dsimp only
  rw [hfibNew]
  cases hs : rib.flags.selected with
  | true =>
    have hno := hoth rib hrts hs
    have hnoNew : pointsTo c.select (withdrawnRib safi env (nexthopActiveUpdate env false rib)) =
        false := by
      refine Eq.trans ?_ hno
      have haddr' := addr_of_ribData (ribData_uninstallRib safi (nexthopActiveUpdate env false rib))
      exact congrArg (fun a => c.select.any fun other => other.addr=a) haddr'
    rw [if_pos rfl,hno,hnoNew,if_neg Bool.false_ne_true,if_neg Bool.false_ne_true]
  | false =>
    rw [if_neg Bool.false_ne_true,if_neg Bool.false_ne_true]
    rfl

/-- Without `same`, the winner is not the FIB entry. -/
theorem pointsTo_winner_of_same (honce : SelectedOnce none routes)
    (hsame : (Choice.over env ⟨none,none,false⟩ routes).same=none) {rib : Rib}
    (hmem : rib∈routes) (hs : rib.flags.selected=true) :
    pointsTo (winner env none routes) rib=false := by
  cases hw : winner env none routes with
  | none => rfl
  | some select =>
    rw [pointsTo_some]
    refine decide_eq_false fun haddr => ?_
    cases hfib : routes.find? fun rib => rib.flags.selected with
    | none => exact find?_eq_none.mp hfib rib hmem hs
    | some fib =>
      obtain ⟨hmemFib,hselFib⟩ := selected_of_find? hfib
      unfold Choice.same Choice.over at hsame
      rw [hw,hfib,none_or] at hsame
      dsimp only at hsame
      rw [eq_of_selectedOnce honce hmemFib hmem hselFib hs,if_pos haddr] at hsame
      exact nomatch hsame

/-- `rib_process` changes each entry that was not removed on its own. -/
theorem ribProcessRoutes_eq (hnum : Numbered routes) (honce : SelectedOnce none routes) :
    ribProcessRoutes safi env routes = some ((routes.filter fun rib => !rib.removed).map
        (processedRib safi env (winner env none routes)),redistCalls env routes) := by
  unfold ribProcessRoutes
  rw [ribProcessLoop_eq,if_pos honce,map_some,some.injEq]
  unfold ribProcessEnd redistCalls
  cases hsame : (Choice.over env ⟨none,none,false⟩ routes).same with
  | some select =>
    obtain ⟨fib,hfib,hsel,huse,hselect⟩ := same_eq_some hnum hsame
    have hlive : ∀ rib∈routes, ¬(rib.flags.selected && rib.removed)=true := by
      intro rib hmem hboth
      obtain ⟨hs,hr⟩ := (and_eq_true _ _).mp hboth
      rw [eq_of_selectedOnce honce hmem hfib hs hsel,removed_of_usable huse] at hr
      exact Bool.false_ne_true hr
    dsimp only
    refine Prod.ext ?_ ?_
    · rw [survivors_eq hlive,winner_of_same hsame,hselect]
      exact updateExisting_eq hnum honce hfib hsel
    unfold updateExisting
    split
    · rfl
    · split <;> rfl
  | none =>
    refine Prod.ext ?_ ?_
    · refine replaceSelected_eq hnum honce ?_ ?_ ?_
      · exact none_or
      · exact false_or _
      · exact fun rib hmem hs => pointsTo_winner_of_same honce hsame hmem hs
    have hfib : (Choice.over env ⟨none,none,false⟩ routes).fib =
        routes.find? fun rib => rib.flags.selected := none_or
    have hselect : (Choice.over env ⟨none,none,false⟩ routes).select = winner env none routes := rfl
    rw [hfib,hselect]
    cases routes.find? fun rib => rib.flags.selected <;> cases winner env none routes <;> rfl

theorem selectedOnce_of_ribProcessRoutes (h : ribProcessRoutes safi env routes=some out) :
    SelectedOnce none routes := by
  unfold ribProcessRoutes at h
  rw [ribProcessLoop_eq] at h
  by_contra hno
  rw [if_neg hno] at h
  exact nomatch h

theorem ribData_processedRib (safi : Safi) (env : Environment) (select : Option Rib) (rib : Rib) :
    ribData (processedRib safi env select rib)=ribData rib := by
  unfold processedRib updatedRib withdrawnRib
  dsimp only
  split_ifs <;> simp

theorem map_ribData_ribProcessRoutes (hnum : Numbered routes)
    (h : ribProcessRoutes safi env routes=some out) :
    out.1.map ribData=(routes.filter fun rib => !rib.removed).map ribData := by
  have heq : ribProcessRoutes safi env routes=_ :=
    ribProcessRoutes_eq hnum (selectedOnce_of_ribProcessRoutes h)
  rw [h,some.injEq] at heq
  rw [heq,List.map_map]
  exact map_congr_left fun rib _ => ribData_processedRib safi env _ rib

end

end RoutePlatform.RibProcessing
