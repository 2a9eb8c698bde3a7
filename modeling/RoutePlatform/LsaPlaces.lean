import RoutePlatform.LsaHeapInvariant

/-!
# The functions of single places

What the functions for databases, retransmission lists, the refresh queue and the MaxAge table do
to a router whose flags and counters are right: they end, flags and counters are right afterwards,
and only the places that they are about have changed.
-/

namespace RoutePlatform.LsaHeap

open LsaOperations ObjectLocks List Option

variable {n : ℕ}

/-- The entries of the lists of neighbours. -/
def Holder.isRxmt : Holder→Bool
  | .lsRxmt _ _ => true
  | _ => false

def Holder.isLsdb : Holder→Bool
  | .lsdb _ _ => true
  | _ => false

variable {w : World} {p : ℕ} {o : Lsa}

theorem Moved.live {S : Holder→Prop} {X : ℕ→Prop} {w' : World} (h : Moved S X w w')
    (hw' : Core w') {x : Holder} (hx : ¬S x) (hX : ¬X p) (hp : w.place x=some p)
    (ho : w.read p=some o) : ∃ o', w'.read p=some o' ∧ o'.core=o.core := by
  obtain ⟨o',ho'⟩ := hw'.live ((h.places x hx).trans hp)
  obtain ⟨o0,ho0,hcore⟩ := h.reads p o' hX ho'
  rw [ho] at ho0
  exact ⟨o',ho',hcore.trans (congrArg Lsa.core (some.inj ho0).symm)⟩

variable {y : Holder}

section

variable (hw : Core w) (ho : w.read p=some o)
include hw ho

theorem ospfLsaDiscard_spec : Sets (ospfLsaDiscard p w) w (.created p) none := by
  rw [ospfLsaDiscard,get_of_read ho]
  cases hd : o.discard with
  | true =>
    have hflag : Flag.get .created o=false := by rw [Flag.get,hd]; rfl
    exact ⟨w,by simp [pure,Except.pure,bind,Except.bind,hd],hw,Moved.refl _ _ w,
      place_of_not_flag hw ho hflag⟩
  | false =>
    have hflag : Flag.get .created o=true := by rw [Flag.get,hd]; rfl
    obtain ⟨w',hok,hcore,hmv,hpl⟩ := hw.delist (f := .created) (place_of_flag hw ho hflag)
    refine ⟨w',?_,hcore,hmv,hpl⟩
    rw [←hok]
    simp only [bind,Except.bind,hd,Bool.false_eq_true,if_false]
    rfl

theorem ospfRefresherRegisterLsa_spec (hself : o.self=true) :
    Sets (ospfRefresherRegisterLsa p w) w (.refreshQueue p) (some p) := by
  rw [ospfRefresherRegisterLsa,get_of_read ho]
  cases hr : o.refreshing with
  | true =>
    exact ⟨w,by simp [pure,Except.pure,bind,Except.bind,hself,hr],hw,Moved.refl _ _ w,
      place_of_flag hw (f := .refresh) ho hr⟩
  | false =>
    obtain ⟨w',hok,hcore,hmv,hpl⟩ := hw.enlist (f := .refresh) ho hr fun _ => hself
    refine ⟨w',?_,hcore,hmv,hpl⟩
    rw [←hok]
    simp only [bind,Except.bind,hself,hr,pure,Except.pure,Bool.false_eq_true,if_false,Bool.not_true]
    rfl

theorem ospfRefresherUnregisterLsa_spec (hself : o.self=true) (hy : y ≠ .refreshQueue p)
    (hheld : w.place y=some p) :
    Sets (ospfRefresherUnregisterLsa p w) w (.refreshQueue p) none := by
  rw [ospfRefresherUnregisterLsa,get_of_read ho]
  cases hr : o.refreshing with
  | false =>
    exact ⟨w,by simp [pure,Except.pure,bind,Except.bind,hself,hr],hw,Moved.refl _ _ w,
      place_of_not_flag hw (f := .refresh) ho hr⟩
  | true =>
    obtain ⟨w',hok,hcore,hmv,hpl⟩ :=
      hw.delistHeld (f := .refresh) (place_of_flag hw ho hr) hy hheld
    refine ⟨w',?_,hcore,hmv,hpl⟩
    rw [←hok]
    simp only [bind,Except.bind,hself,hr,pure,Except.pure,Bool.false_eq_true,if_false,Bool.not_true]
    rfl

theorem lsaMaxage_spec : Sets (lsaMaxage p w) w (.maxageLsa p) (some p) := by
  rw [lsaMaxage,get_of_read ho]
  cases hr : o.inMaxage with
  | true =>
    exact ⟨w,by simp [pure,Except.pure,bind,Except.bind,hr],hw,Moved.refl _ _ w,
      place_of_flag hw (f := .maxage) ho hr⟩
  | false =>
    obtain ⟨w',hok,hcore,hmv,hpl⟩ := hw.enlist (f := .maxage) ho hr nofun
    refine ⟨w',?_,hcore,hmv,hpl⟩
    have hemp : w.place (.maxageLsa p)=none := place_of_not_flag hw (f := .maxage) ho hr
    rw [←hok]
    simp only [bind,Except.bind,hr,hemp,isSome_none,Bool.false_eq_true,if_false]
    rfl

end

theorem ospfLsaMaxageDelete_spec (hw : Core w) (p : ℕ) :
    Sets (ospfLsaMaxageDelete p w) w (.maxageLsa p) none := by
  rw [ospfLsaMaxageDelete]
  by_cases hp : w.place (.maxageLsa p)=some p
  · obtain ⟨w',hok,hcore,hmv,hpl⟩ := hw.delist (f := .maxage) hp
    exact ⟨w',by rw [if_pos hp,←hok]; rfl,hcore,hmv,hpl⟩
  refine ⟨w,by rw [if_neg hp],hw,Moved.refl _ _ w,?_⟩
  cases hpl : w.place (.maxageLsa p) with
  | none => rfl
  | some q => exact absurd (hpl.trans (congrArg some (hw.named _ q p rfl hpl))) hp

theorem ospfAseRegisterExternalLsa_spec (hw : Core w) (ho : w.read p=some o)
    (hemp : w.place (.externalLsas p)=none) (hlsdb : o.lsdb.isSome) :
    Sets (ospfAseRegisterExternalLsa p w) w (.externalLsas p) (some p) :=
  hw.lockPlain rfl hemp ho (fun _ hq => some.inj hq) nofun fun _ => hlsdb

theorem ospfAseUnregisterExternalLsa_spec (hw : Core w) (hp : w.place (.externalLsas p)=some p) :
    Sets (ospfAseUnregisterExternalLsa p w) w (.externalLsas p) none := by
  rw [ospfAseUnregisterExternalLsa,if_pos hp]
  exact hw.unlockPlain rfl

/-- The places that point to the present instance of something. -/
def Holder.isPointer : Holder→Bool
  | .routerLsaSelf _ | .networkLsaSelf _ | .opaqueInfo _ | .lsReqLast _ => true
  | _ => false

theorem replaceSelf_spec (hw : Core w) {x : Holder} (hx : x.isPointer=true) (hyx : y≠x)
    (hheld : w.place y=some p) : Sets (replaceSelf x p w) w x (some p) := by
  have hplain : x.plain=true := by
    cases x <;> first | rfl | exact absurd hx (by simp [Holder.isPointer])
  have howner : ∀ q, x.owner=some q → p=q := by
    intro q hq
    cases x <;> simp [Holder.isPointer,Holder.owner] at hx hq
  have hkey : x.entryKey=none := by
    cases x <;> first | rfl | exact absurd hx (by simp [Holder.isPointer])
  have hext : x ≠ .externalLsas p := by
    rintro rfl
    exact absurd hx (by simp [Holder.isPointer])
  obtain ⟨w1,hok1,hw1,hmv1,hpl1⟩ := hw.unlockPlain hplain
  obtain ⟨o,ho⟩ := hw1.live ((hmv1.places y hyx).trans hheld)
  obtain ⟨w',hok',hw',hmv',hpl'⟩ := hw1.lockPlain hplain hpl1 ho howner
    (fun k h => absurd (hkey.symm.trans h) (by simp)) fun h => absurd h hext
  refine ⟨w',?_,hw',hmv1.again hmv',hpl'⟩
  rw [replaceSelf,hok1]
  exact hok'

theorem ospfLsdbAdd_spec (hw : Core w) {b : Base} (ho : w.read p=some o) (hy : y ≠ .lsdb b o.key)
    (hheld : w.place y=some p) : Sets (ospfLsdbAdd (.lsdb b) p w) w (.lsdb b o.key) (some p) := by
  rw [ospfLsdbAdd,get_of_read ho]
  cases hpl : w.place (.lsdb b o.key) with
  | none =>
    obtain ⟨w',hok,hw',hmv,hp⟩ := hw.lockPlain (x := .lsdb b o.key) rfl hpl ho
      nofun (fun _ h => some.inj h) nofun
    exact ⟨w',by simp only [bind,Except.bind,hpl,hok],hw',hmv,hp⟩
  | some old =>
    by_cases hold : old=p
    · refine ⟨w,?_,hw,Moved.refl _ _ w,hpl.trans (congrArg some hold)⟩
      simp only [bind,Except.bind,hpl,hold,if_true]
      rfl
    obtain ⟨w1,hok1,hw1,hmv1,hpl1⟩ := hw.unlockPlain (x := .lsdb b o.key) rfl
    obtain ⟨o1,ho1,hcore1⟩ := hmv1.live hw1 hy (fun h => h) hheld ho
    have hkey := key_of_core hcore1
    obtain ⟨w',hok',hw',hmv',hp⟩ := hw1.lockPlain (x := .lsdb b o.key) rfl hpl1 ho1
      nofun (fun _ h => hkey.trans (some.inj h)) nofun
    refine ⟨w',?_,hw',hmv1.again hmv',hp⟩
    simp only [bind,Except.bind,hpl,hold,if_false,hok1]
    exact hok'

theorem ospfLsdbDelete_spec (hw : Core w) {b : Base} (ho : w.read p=some o) :
    ∃ w', ospfLsdbDelete (.lsdb b) p w=.ok w' ∧ Core w' ∧
      Moved (· = .lsdb b o.key) (fun _ => False) w w' ∧
      w'.place (.lsdb b o.key) =
        if w.place (.lsdb b o.key)=some p then none else w.place (.lsdb b o.key) := by
  rw [ospfLsdbDelete,get_of_read ho]
  by_cases hp : w.place (.lsdb b o.key)=some p
  · obtain ⟨w',hok,hw',hmv,hpl⟩ := hw.unlockPlain (x := .lsdb b o.key) rfl
    refine ⟨w',?_,hw',hmv,by rw [if_pos hp,hpl]⟩
    simp only [bind,Except.bind,hp,if_true]
    exact hok
  refine ⟨w,?_,hw,Moved.refl _ _ w,by rw [if_neg hp]⟩
  simp only [bind,Except.bind,hp,if_false]
  rfl

theorem ospfLsaMoreRecent_self (now : ℕ) (o : OspfLsa) :
    ospfLsaMoreRecent now (some o) (some o)=0 := by
  simp [ospfLsaMoreRecent,ospfLsaMaxageDiff]

theorem ospfLsRetransmitDelete_spec (hw : Core w) (ho : w.read p=some o)
    (hp : w.place (.lsRxmt n o.key)=none ∨ w.place (.lsRxmt n o.key)=some p) :
    Sets (ospfLsRetransmitDelete n p w) w (.lsRxmt n o.key) none := by
  rw [ospfLsRetransmitDelete,get_of_read ho]
  rcases hp with hp|hp
  · refine ⟨w,?_,hw,Moved.refl _ _ w,hp⟩
    simp only [bind,Except.bind,hp]
    rfl
  obtain ⟨w',hok,hw',hmv,hpl⟩ := hw.rxmtLeave hp
  refine ⟨w',?_,hw',hmv,hpl⟩
  obtain ⟨w1,hok1,hs1,hpl1,hread1,-⟩ := exists_modify hw.sound ho (addCounter (-1))
  have ho1 : w1.read p=some (addCounter (-1) o) := by rw [hread1,Function.update_self]
  have hp1 : w1.place (.lsRxmt n (addCounter (-1) o).key)=some p := by rw [hpl1]; exact hp
  rw [hok1] at hok
  simp only [bind,Except.bind,hp]
  have hmodify : modifyLsa p (fun o => {o with retransmitCounter := o.retransmitCounter-1})
      w=.ok w1 := hok1
  rw [hmodify]
  simp only [ospfLsdbDelete,get_of_read ho1,bind,Except.bind,hp1,if_true]
  exact hok

theorem rxmtAdd_spec (hw : Core w) (hn : n∈w.nbrs) (ho : w.read p=some o)
    (hemp : w.place (.lsRxmt n o.key)=none) :
    Moves (· = .lsRxmt n o.key)
      (modifyLsa p (fun o => {o with retransmitCounter := o.retransmitCounter+1}) w >>=
        ospfLsdbAdd (.lsRxmt n) p) w := by
  obtain ⟨w',hok,hw',hmv,-⟩ := hw.rxmtEnter hn ho hemp
  refine ⟨w',?_,hw',hmv⟩
  obtain ⟨w1,hok1,hs1,hpl1,hread1,-⟩ := exists_modify hw.sound ho (addCounter 1)
  have ho1 : w1.read p=some (addCounter 1 o) := by rw [hread1,Function.update_self]
  have hemp1 : w1.place (.lsRxmt n (addCounter 1 o).key)=none := by
    rw [hpl1]
    exact hemp
  have hmodify : modifyLsa p (fun o => {o with retransmitCounter := o.retransmitCounter+1})
      w=.ok w1 := hok1
  rw [hok1] at hok
  rw [hmodify]
  simp only [bind,Except.bind,ospfLsdbAdd,get_of_read ho1,hemp1]
  exact hok

theorem ospfLsRetransmitAdd_spec (hw : Core w) (hn : n∈w.nbrs) (ho : w.read p=some o) :
    Moves (· = .lsRxmt n o.key) (ospfLsRetransmitAdd n p w) w := by
  rw [ospfLsRetransmitAdd,get_of_read ho]
  cases hpl : w.place (.lsRxmt n o.key) with
  | none =>
    obtain ⟨w',hok,hw',hmv⟩ := rxmtAdd_spec hw hn ho hpl
    refine ⟨w',?_,hw',hmv⟩
    simp only [bind,Except.bind,hpl] at hok ⊢
    exact hok
  | some old =>
    obtain ⟨l,hl⟩ := hw.live hpl
    have hlkey := hw.keyed _ _ old l rfl hpl hl
    by_cases hless : ospfLsaMoreRecent w.now (some l.toOspfLsa) (some o.toOspfLsa)<0
    · have hold : old≠p := by
        rintro rfl
        rw [ho] at hl
        rw [←some.inj hl,ospfLsaMoreRecent_self] at hless
        exact absurd hless (lt_irrefl 0)
      -- another place holds the instance, since this entry holds the older one
      obtain ⟨y,hy⟩ := hw.sound.exists_place ho
      have hyne : y ≠ .lsRxmt n o.key := by
        rintro rfl
        exact hold (some.inj (hpl.symm.trans hy))
      obtain ⟨w1,hok1,hw1,hmv1,hpl1⟩ :=
        ospfLsRetransmitDelete_spec hw hl (.inr (hlkey.symm ▸ hpl))
      rw [hlkey] at hmv1 hpl1
      obtain ⟨o1,ho1,hcore1⟩ := hmv1.live hw1 hyne (fun h => h) hy ho
      have hkey1 := key_of_core hcore1
      obtain ⟨w',hok',hw',hmv'⟩ := rxmtAdd_spec hw1 (hmv1.nbrs.symm ▸ hn) ho1
        (hkey1.symm ▸ hpl1)
      rw [hkey1] at hmv'
      refine ⟨w',?_,hw',hmv1.again hmv'⟩
      rw [ospfLsRetransmitDelete,get_of_read hl] at hok1
      simp only [bind,Except.bind,hlkey,hpl] at hok1
      simp only [bind,Except.bind,hpl,get_of_read hl,if_pos hless]
      cases hmodify : modifyLsa old (fun o => {o with
          retransmitCounter := o.retransmitCounter-1}) w with
      | error e =>
        rw [hmodify] at hok1
        exact absurd hok1 nofun
      | ok v =>
        rw [hmodify] at hok1
        dsimp only at hok1 ⊢
        rw [hok1]
        exact hok'
    · refine ⟨w,?_,hw,Moved.refl _ _ w⟩
      simp only [bind,Except.bind,hpl,get_of_read hl,if_neg hless]
      rfl

theorem foldlM_rxmt {γ : Type*} {f : World→γ→Except Fault World} (P : World→Prop)
    (hf : ∀ w c, Core w → P w → Moves (fun x => x.isRxmt=true) (f w c) w)
    (hP : ∀ w w', P w → Core w' → Moved (fun x => x.isRxmt=true) (fun _ => False) w w' → P w')
    (l : List γ) (hw : Core w) (h : P w) :
    Moves (fun x => x.isRxmt=true) (l.foldlM f w) w := by
  induction l generalizing w with
  | nil => exact ⟨w,rfl,hw,Moved.refl _ _ w⟩
  | cons c rest ih =>
    obtain ⟨w1,hok1,hw1,hmv1⟩ := hf w c hw h
    obtain ⟨w',hok',hw',hmv'⟩ := ih hw1 (hP w w1 h hw1 hmv1)
    refine ⟨w',?_,hw',hmv1.again hmv'⟩
    rw [foldlM_cons,hok1]
    exact hok'

theorem isRxmt_of_eq {k : ℕ} (x : Holder) (h : x=.lsRxmt n k) : x.isRxmt=true := by
  rw [h]
  rfl

section

variable (hw : Core w)
include hw

theorem clearTurn_spec (n k : ℕ) : Moves (fun x => x.isRxmt=true) (clearTurn n w k) w := by
  rw [clearTurn]
  cases hpl : w.place (.lsRxmt n k) with
  | none => exact ⟨w,rfl,hw,Moved.refl _ _ w⟩
  | some q =>
    obtain ⟨l,hl⟩ := hw.live hpl
    have hkey := hw.keyed _ k q l rfl hpl hl
    obtain ⟨w',hok,hw',hmv,-⟩ := ospfLsRetransmitDelete_spec hw hl (.inr (hkey.symm ▸ hpl))
    exact ⟨w',hok,hw',hmv.mono isRxmt_of_eq fun _ h => h⟩

theorem ospfLsRetransmitClear_spec (n : ℕ) (walk : List ℕ) :
    Moves (fun x => x.isRxmt=true ∨ x=.lsReqLast n) (ospfLsRetransmitClear n walk w) w := by
  obtain ⟨w1,hok1,hw1,hmv1⟩ := foldlM_rxmt (fun _ => True)
    (fun w k hw _ => clearTurn_spec hw n k) (fun _ _ _ _ _ => trivial) walk hw trivial
  obtain ⟨w',hok',hw',hmv',-⟩ := hw1.unlockPlain (x := .lsReqLast n) rfl
  refine ⟨w',?_,hw',(hmv1.trans hmv').mono (fun x h => h) fun q h => h.elim id id⟩
  rw [ospfLsRetransmitClear,hok1]
  exact hok'

theorem deleteNbrTurn_spec (ho : w.read p=some o) (n : ℕ) :
    Moves (fun x => x.isRxmt=true) (deleteNbrTurn p w n) w := by
  rw [deleteNbrTurn,get_of_read ho]
  cases hpl : w.place (.lsRxmt n o.key) with
  | none =>
    refine ⟨w,?_,hw,Moved.refl _ _ w⟩
    simp only [bind,Except.bind,hpl]
    rfl
  | some lsr =>
    obtain ⟨l,hl⟩ := hw.live hpl
    have hkey := hw.keyed _ _ lsr l rfl hpl hl
    by_cases hseq : l.data.lsSeqnum=o.data.lsSeqnum
    · obtain ⟨w',hok,hw',hmv,-⟩ := ospfLsRetransmitDelete_spec hw hl (.inr (hkey.symm ▸ hpl))
      refine ⟨w',?_,hw',hmv.mono isRxmt_of_eq fun _ h => h⟩
      simp only [bind,Except.bind,hpl,get_of_read hl,if_pos hseq]
      exact hok
    refine ⟨w,?_,hw,Moved.refl _ _ w⟩
    simp only [bind,Except.bind,hpl,get_of_read hl,if_neg hseq]
    rfl

theorem deleteNbr_spec (hy : y.isRxmt=false) (hheld : w.place y=some p) (ns : List ℕ) :
    Moves (fun x => x.isRxmt=true) (ns.foldlM (deleteNbrTurn p) w) w := by
  refine foldlM_rxmt (fun v => v.place y=some p) (fun v n hv hp => ?_)
    (fun v v' hp hv' hmv => ?_) ns hw hheld
  · obtain ⟨o,ho⟩ := hv.live hp
    exact deleteNbrTurn_spec hv ho n
  · rw [hmv.places y (by rw [hy]; simp),hp]

theorem sweepRetransmits_spec (ho : areaOk o) (hy : y.isRxmt=false) (hheld : w.place y=some p) :
    Moves (fun x => x.isRxmt=true) (sweepRetransmits p o w) w := by
  rw [sweepRetransmits]
  by_cases hwide : isAsWide o=true
  · rw [if_pos hwide]
    exact deleteNbr_spec hw hy hheld _
  rw [if_neg hwide]
  obtain ⟨a,ha⟩ := isSome_iff_exists.mp (ho.resolve_left hwide)
  rw [ha]
  exact deleteNbr_spec hw hy hheld _

theorem floodTo_spec (hy : y.isRxmt=false) (hheld : w.place y=some p) (ns : List ℕ)
    (hns : ∀ n∈ns, n∈w.nbrs) : Moves (fun x => x.isRxmt=true) (floodTo ns p w) w := by
  induction ns generalizing w with
  | nil => exact ⟨w,rfl,hw,Moved.refl _ _ w⟩
  | cons n rest ih =>
    obtain ⟨o,ho⟩ := hw.live hheld
    obtain ⟨w1,hok1,hw1,hmv1⟩ := ospfLsRetransmitAdd_spec hw (hns n (.head _ ..)) ho
    have hheld1 : w1.place y=some p := by
      rw [hmv1.places y (fun h => by rw [h] at hy; exact absurd hy (by simp [Holder.isRxmt])),
        hheld]
    obtain ⟨w',hok',hw',hmv'⟩ := ih hw1 hheld1 fun m hm => by
      rw [hmv1.nbrs]
      exact hns m (mem_cons_of_mem n hm)
    refine ⟨w',?_,hw',((hmv1.mono isRxmt_of_eq fun _ h => h).trans hmv').mono
      (fun x h => h.elim id id) fun q h => h.elim id id⟩
    rw [floodTo,foldlM_cons,hok1]
    exact hok'

end

end RoutePlatform.LsaHeap
