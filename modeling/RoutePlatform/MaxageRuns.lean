import RoutePlatform.LsaRefreshing

/-!
# Runs of the MaxAge remover

Retransmissions, installations, flushes and the remover of MaxAge LSAs in any order. Where the
remover only meets instances that their database has, and none aged prematurely, nothing is used
after its release, the counters and the MaxAge table are exact, and an LSA is removed only when no
neighbour has to acknowledge it and none is in Exchange or Loading. An instance aged prematurely
is refreshed by the remover, which goes on with memory given back or discards the new instance.
-/

namespace RoutePlatform.LsaHeap

open LsaOperations ObjectLocks Function List Option

variable {w : World} {p : ℕ} {o : Lsa} {b : Base} {met rest : List (ℕ × RefreshAnswer)}

/-- The remover goes on with an instance in the table that is acknowledged. -/
structure Removes (w : World) (p : ℕ) (o : Lsa) : Prop where
  listed : w.place (.maxageLsa p)=some p
  read : w.read p=some o
  acked : ¬0<o.retransmitCounter

/-- The remover meets an instance of its database, if any, that is not aged prematurely. -/
def FitTurn (w : World) (p : ℕ) : Prop :=
  ∀ o, Removes w p o → o.prematureAge=false ∧ ∀ b, o.lsdb=some b → w.place (.lsdb b o.key)=some p

/-- An entry is taken out of a database. -/
theorem removeFromLsdb_spec (hw : Core w) (hd : Databases w) (ho : w.read p=some o)
    (hb : o.lsdb=some b) (hp : w.place (.lsdb b o.key)=some p) :
    ∃ w', removeFromLsdb p w=.ok w' ∧ Kept (fun _ => True) (fun _ => False) w w' ∧
      w'.place (.lsdb b o.key)=none ∧
      ∀ b' k, Holder.lsdb b' k ≠ .lsdb b o.key → w'.place (.lsdb b' k)=w.place (.lsdb b' k) := by
  obtain ⟨w1,hok1,h1⟩ := discardOld_spec (b := b) hw hd ho
  rw [discardOld,hp,isSome_some,if_pos rfl] at hok1
  have hno : ∀ b k, ¬(Holder.lsdb b k).isLsdb=false := fun b k => by simp [Holder.isLsdb]
  have hp1 := (h1.moved.places _ (hno _ _)).trans hp
  obtain ⟨o1,ho1,hcore1⟩ := h1.moved.live h1.core (hno b o.key) (fun h => h) hp ho
  have hkey1 := key_of_core hcore1
  obtain ⟨w',hok',hw',hm',hp'⟩ := ospfLsdbDelete_spec h1.core (b := b) ho1
  rw [hkey1] at hm' hp'
  rw [if_pos hp1] at hp'
  have hbut := h1.but.of_moved hm' (fun _ _ hne h => hne h) fun _ _ q _ _ => ⟨by simp,fun h => h⟩
  refine ⟨w',?_,⟨hw',Databases.of_but hbut fun q l hq => ?_,fun hmax q hq => ?_,
    (h1.moved.trans hm').mono (fun _ _ => trivial) fun q h => h.elim id id⟩,hp',
    fun b' k hne => ?_⟩
  · rw [removeFromLsdb,get_of_read ho]
    simp only [bind,Except.bind,hb,hok1]
    exact hok'
  · rw [hp'] at hq
    cases hq
  · rw [hm'.places _ (by simp)] at hq
    obtain ⟨b',k',hhome,hne⟩ := h1.maxage hmax q hq
    exact ⟨b',k',(hm'.places _ hne).trans hhome⟩
  · rw [hm'.places _ hne,h1.moved.places _ (hno b' k)]

/-- A turn at a fit instance removes only what no neighbour is to acknowledge. -/
theorem removerTurn_spec (hw : Core w) (hd : Databases w) {turn : ℕ × RefreshAnswer}
    (hfit : FitTurn w turn.1) :
    ∃ w', removerTurn w turn=.ok w' ∧ Kept (fun _ => True) (fun _ => False) w w' ∧
      (∀ b k r, w.place (.lsdb b k)=some r → w'.place (.lsdb b k)≠some r → w.number k r=0) ∧
      ∀ b k, w'.place (.lsdb b k)=w.place (.lsdb b k) ∨ w'.place (.lsdb b k)=none := by
  rw [removerTurn]
  by_cases hp : w.place (.maxageLsa turn.1)=some turn.1
  · obtain ⟨o,ho⟩ := hw.live hp
    rw [if_pos hp,get_of_read ho]
    simp only [bind,Except.bind]
    by_cases hacked : 0<o.retransmitCounter
    · rw [if_pos hacked]
      exact ⟨w,rfl,Kept.refl hw hd _ _,fun b k r h h' => absurd h h',fun _ _ => .inl rfl⟩
    obtain ⟨hyoung,hhome⟩ := hfit o ⟨hp,ho,hacked⟩
    rw [if_neg hacked,refreshPremature,hyoung]
    simp only [Bool.false_eq_true,if_false]
    cases hb : o.lsdb with
    | none =>
      refine ⟨w,?_,Kept.refl hw hd _ _,fun b k r h h' => absurd h h',fun _ _ => .inl rfl⟩
      rw [removeFromLsdb,get_of_read ho]
      simp only [bind,Except.bind,hb]
      rfl
    | some b =>
      obtain ⟨w',hok',hk',hgone,hoths⟩ := removeFromLsdb_spec hw hd ho hb (hhome b hb)
      refine ⟨w',hok',hk',fun b' k r hr hr' => ?_,fun b' k => ?_⟩
      · by_cases hne : Holder.lsdb b' k=.lsdb b o.key
        · injection hne with hbb hkk
          rw [hbb,hkk,hhome b hb] at hr
          have hrp := some.inj hr
          have hcnt := hw.counter _ o ho
          rw [hkk,←hrp]
          omega
        rw [hoths b' k hne] at hr'
        exact absurd hr hr'
      by_cases hne : Holder.lsdb b' k=.lsdb b o.key
      · exact .inr (hne ▸ hgone)
      · exact .inl (hoths b' k hne)
  · rw [if_neg hp]
    exact ⟨w,rfl,Kept.refl hw hd _ _,fun b k r h h' => absurd h h',fun _ _ => .inl rfl⟩

/-- The remover meets fit instances at every turn of its walk. -/
def FitWalk (w : World) : List (ℕ × RefreshAnswer)→Prop
  | [] => True
  | turn::rest => FitTurn w turn.1 ∧ ∀ w', removerTurn w turn=.ok w' → FitWalk w' rest

/-- A neighbour in Exchange or Loading has an interface that is up. -/
def NbrStates (w : World) : Prop := ∀ n, isExchanging w n=true → w.ifIsEnable n=true

structure Good (w : World) : Prop where
  core : Core w
  databases : Databases w
  states : NbrStates w

variable {w' : World}

theorem NbrStates.of_rest (h : NbrStates w) (hrs : {w' with heap := w.heap}=w) :
    NbrStates w' := by
  have hstate : w'.nbrState=w.nbrState := (congrArg (fun v : World => v.nbrState) hrs :)
  have henable : w'.ifIsEnable=w.ifIsEnable := (congrArg (fun v : World => v.ifIsEnable) hrs :)
  intro n hn
  rw [isExchanging,hstate] at hn
  rw [henable]
  exact h n hn

theorem Good.of_kept {T : Holder→Prop} {Y : ℕ→Prop} (h : Good w) (hk : Kept T Y w w') : Good w' :=
  ⟨hk.core,hk.databases,h.states.of_rest hk.moved.rest⟩

theorem isExchanging_of_check (h : Good w) (hcheck : ospfCheckNbrStatus w=true) {n : ℕ}
    (hn : n∈w.nbrs) : isExchanging w n=false := by
  have hturn := all_eq_true.mp hcheck n hn
  cases hx : isExchanging w n with
  | false => rfl
  | true =>
    rw [hx,h.states n hx] at hturn
    cases hturn

theorem removerWalk_spec (walk : List (ℕ × RefreshAnswer)) (hw : Core w) (hd : Databases w)
    (hfit : FitWalk w walk) :
    ∃ w', walk.foldlM removerTurn w=.ok w' ∧ Kept (fun _ => True) (fun _ => False) w w' := by
  induction walk generalizing w with
  | nil => exact ⟨w,rfl,Kept.refl hw hd _ _⟩
  | cons turn rest ih =>
    obtain ⟨w1,hok1,hk1,-⟩ := removerTurn_spec hw hd hfit.1
    obtain ⟨w',hok',hk'⟩ := ih hk1.core hk1.databases (hfit.2 w1 hok1)
    refine ⟨w',?_,(hk1.trans hk').mono (fun _ h => h.elim id id) fun _ h => h.elim id id⟩
    rw [foldlM_cons,hok1]
    exact hok'

/-- What the refresh of a translation may find. -/
def TranslationOk (w : World) (found : Option TranslationAnswer) : Prop :=
  ∀ ans, found=some ans → (∃ k, w.place (.lsdb .as k)=some ans.type5) ∧
    (∀ q data, ans.made=some (q,data) → w.read q=none ∧ data.type=ospfAsExternalLsa) ∧
    ∀ n∈ans.ns, n∈w.nbrs

/-- The addresses that a translation gives out. -/
def translationMakes (found : Option TranslationAnswer) (q : ℕ) : Prop :=
  ∃ ans data, found=some ans ∧ ans.made=some (q,data)

theorem ospfTranslatedNssaRefresh_spec {found : Option TranslationAnswer}
    (hfnd : TranslationOk w found) :
    TranslateOk (ospfTranslatedNssaRefresh found)
      (fun x => x.isLsdb=false ∨ ∃ k, x=.lsdb .as k) (translationMakes found) w := by
  intro hw hd
  simp only [ospfTranslatedNssaRefresh]
  cases hf : found with
  | none => exact .inr ⟨w,rfl,Kept.refl hw hd _ _⟩
  | some ans =>
    obtain ⟨⟨k,hk⟩,hmade,hns⟩ := hfnd ans hf
    obtain ⟨w1,hok1,hw1,hm1⟩ := deleteNbr_spec hw (y := .lsdb .as k) rfl hk
      (w.nbrs.filter w.ifIsEnable)
    have hk1 := Kept.of_rxmt hd hw1 hm1
    have hsweep : ospfLsRetransmitDeleteNbrAs ans.type5 w=.ok w1 := hok1
    simp only [bind,Except.bind,hsweep]
    cases hm : ans.made with
    | none => exact .inr ⟨w1,rfl,hk1.mono (fun _ h => .inl h) fun _ h => h.elim⟩
    | some m =>
      obtain ⟨q,data⟩ := m
      obtain ⟨hq,hty⟩ := hmade q data hm
      have hq1 : w1.read q=none := by
        cases hread : w1.read q with
        | none => rfl
        | some l =>
          obtain ⟨l0,hl0,-⟩ := hm1.reads q l (fun h => h) hread
          rw [hq] at hl0
          cases hl0
      have htypeo : (translatedLsa w1.now data).data.type=ospfAsExternalLsa := hty
      have htarget : targetLsdb (translatedLsa w1.now data)=some .as := by
        rw [targetLsdb,isAsWide,htypeo]
        rfl
      have harea : areaOk (translatedLsa w1.now data) := .inl (by rw [isAsWide,htypeo]; rfl)
      obtain ⟨w2,hok2,hw2,hm2,hcreated2,ho2⟩ :=
        ospfLsaNew_spec hw1 hq1 (o := translatedLsa w1.now data) ⟨⟨rfl,rfl,rfl⟩,rfl,rfl,harea,rfl⟩
      have hk2 := Kept.of_new hw1 hk1.databases hq1 hw2 hm2
      obtain ⟨w3,hok3,hw3,hm3,-⟩ := hw2.lockPlain (x := .translated q) rfl
        ((hm2.places _ (by simp)).trans (hw1.place_eq_none_of_unread hq1 rfl)) ho2
        (fun _ h => some.inj h) (fun _ h => by cases h) (fun h => by cases h)
      have hk3 := Kept.of_place hk2.databases hw3 hm3 rfl (by simp) (by simp)
      obtain ⟨o3,ho3,hcore3⟩ := hm3.live hw3 (x := .created q) (by simp) (fun h => h) hcreated2 ho2
      have hty3 : o3.data.type=ospfAsExternalLsa := by
        rw [data_of_core hcore3]
        exact htypeo
      have hins := ospfLsaInstall_spec (g := .ok) (T := fun _ => False)
        (Y := fun _ => False) (a := ⟨none,.refused,ans.checksum⟩) hw3 hk3.databases ho3
        (lsdb_of_core hcore3) ((hm3.places _ (by simp)).trans hcreated2)
        ((targetLsdb_of_core hcore3).trans htarget)
        (fun h => by rw [hty3] at h; exact absurd h (by decide))
        (fun h => by rw [hty3] at h; exact absurd h (by decide)) (fun h => h) fun h => h
      simp only [hok2,hok3]
      rcases hins with habort|⟨w4,hok4,hk4,hentered⟩
      · exact .inl (by rw [habort])
      rw [hok4]
      have hentered4 := hentered (self_of_core hcore3) (by
        have hchecked : o3.selfChecked=(translatedLsa w1.now data).selfChecked :=
          (congrArg (fun l : Lsa => l.selfChecked) hcore3 :)
        rw [hchecked]
        rfl)
      obtain ⟨w',hok',hk'⟩ := floodTo_kept hk4.core hk4.databases hentered4.entered ans.ns
        fun n hn => by
          rw [hk4.moved.nbrs,hm3.nbrs,hm2.nbrs,hm1.nbrs]
          exact hns n hn
      refine .inr ⟨w',hok',((((hk1.trans hk2).trans hk3).trans hk4).trans hk').mono
        (fun x h => ?_) fun r h => ?_⟩
      · rcases h with (((h|h)|h)|h|h|h)|h
        · exact .inl h
        · exact .inl h
        · exact .inl h
        · exact .inl h
        · exact .inr ⟨_,h⟩
        · exact h.elim
        · exact .inl h
      have hrq : r=q := by
        rcases h with (((h|h)|h)|h|h)|h
        · exact h.elim
        · exact h
        · exact h.elim
        · exact h
        · exact h.elim
        · exact h.elim
      exact ⟨ans,data,rfl,by rw [hm,hrq]⟩

/-- What callers promise, and what the rest of the router does. -/
def Legal (w : World) : Action→Prop
  | .retransmitAdd n p => n∈w.nbrs ∧ (w.read p).isSome
  | .retransmitDelete n p =>
    -- the callers pass what they have looked up in the list
    ∃ o, w.read p=some o ∧ (w.place (.lsRxmt n o.key)=none ∨ w.place (.lsRxmt n o.key)=some p)
  | .retransmitClear _ _ => True
  | .retransmitDeleteNbrArea _ p | .retransmitDeleteNbrAs p =>
    -- something else than the lists holds the instance
    ∃ y : Holder, y.isRxmt=false ∧ w.place y=some p
  | .install p ans found =>
    -- a new instance that has not been discarded
    ∃ o, w.read p=some o ∧ o.lsdb=none ∧ w.place (.created p)=some p ∧
      (o.data.type.toNat=2 → ans.oi.isSome) ∧ TranslationOk w found
  | .maxage p | .discard p | .age p => (w.read p).isSome
  | .maxageDelete _ | .remover _ | .done _ | .unhold _ | .tick _ => True
  | .create p o => w.read p=none ∧ NewLsa o
  | .due p => w.place (.refreshQueue p)=some p ∧ w.place (.toRefresh p)=none
  | .refresh p ans =>
    -- the instance is an entry of a database
    ∃ b k o, w.place (.lsdb b k)=some p ∧ w.read p=some o ∧ RefreshOk w o ans
  | .hold x p => w.place (.queued x)=none ∧ (w.read p).isSome
  | .request n p => ∃ y, y≠Holder.lsReqLast n ∧ w.place y=some p
  | .nbr _ enable state => enable=true ∨ state ≠ .exchange ∧ state ≠ .loading
  | .nbrNew n _ => n ∉ w.nbrs
  | .nbrFree n => ∀ k, w.place (.lsRxmt n k)=none

/-- The remover meets fit instances, if it runs at all. -/
def Fit (w : World) : Action→Prop
  | .remover walk => ospfCheckNbrStatus w=true → FitWalk w walk
  | _ => True

theorem Kept.of_rxmt_reqLast {n : ℕ} (hd : Databases w) (hw' : Core w')
    (hm : Moved (fun x => x.isRxmt=true ∨ x=.lsReqLast n) (fun _ => False) w w') :
    Kept (fun _ => True) (fun _ => False) w w' :=
  (Kept.of_moved hd hw' hm (by simp [Holder.isRxmt]) (by simp [Holder.isRxmt])
    (by simp [Holder.isRxmt])).mono (fun _ _ => trivial) fun _ h => h

theorem takeDue_spec (hw : Core w) (hd : Databases w)
    (hp : w.place (.refreshQueue p)=some p) (hemp : w.place (.toRefresh p)=none) :
    ∃ w', takeDue p w=.ok w' ∧ Kept (fun _ => True) (fun _ => False) w w' := by
  obtain ⟨o,ho⟩ := hw.live hp
  obtain ⟨w1,hok1,hw1,hm1,hp1⟩ := hw.lockPlain (x := .toRefresh p) rfl hemp ho
    (fun _ h => some.inj h) nofun nofun
  have hk1 := Kept.of_place hd hw1 hm1 rfl (by simp) (by simp)
  obtain ⟨w',hok',hw',hm',-⟩ := hw1.delistHeld (f := .refresh) (p := p)
    ((hm1.places _ (by simp [Flag.holder])).trans hp) (y := .toRefresh p) (by simp [Flag.holder])
    hp1
  have hk' :=
    Kept.of_place hk1.databases hw' hm' rfl (by simp [Flag.holder]) (by simp [Flag.holder])
  refine ⟨w',?_,(hk1.trans hk').mono (fun _ _ => trivial) fun q h => h.elim id id⟩
  rw [takeDue,hok1]
  exact hok'

theorem Databases.of_heap (hd : Databases w) (h : w'.heap=w.heap) : Databases w' := by
  intro b k p o hp ho
  rw [World.place,h] at hp
  rw [World.read,h] at ho
  have hentry := hd b k p o hp ho
  refine ⟨hentry.home,hentry.target,fun hx => ?_⟩
  rw [World.place,h]
  exact hentry.external hx

/-- A step on instances keeps what holds and meets no released instance. -/
theorem step_kept (h : Good w) {a : Action} (ha : Legal w a) (hf : Fit w a) :
    Ends (step w a) Good := by
  obtain ⟨hw,hd,hstates⟩ := h
  have hgood : ∀ {T : Holder → Prop} {Y : ℕ → Prop} {r : Except Fault World},
      (∃ w', r=.ok w' ∧ Kept T Y w w') → Ends r Good := by
    rintro T Y r ⟨w',hok,hk⟩
    exact .inr ⟨w',hok,Good.of_kept ⟨hw,hd,hstates⟩ hk⟩
  have hplain : ∀ {x : Holder} {r : Except Fault World}, x.isLsdb=false →
      (∀ q, x ≠ .externalLsas q) → (∀ q, x ≠ .maxageLsa q) →
      Moves (· = x) r w → Ends r Good := by
    rintro x r hlsdb hext hmax ⟨w',hok,hw',hm⟩
    exact hgood ⟨w',hok,Kept.of_place hd hw' hm hlsdb hext hmax⟩
  cases a with
  | retransmitAdd n p =>
    obtain ⟨hn,hp⟩ := ha
    obtain ⟨o,ho⟩ := isSome_iff_exists.mp hp
    obtain ⟨w',hok,hw',hm⟩ := ospfLsRetransmitAdd_spec hw hn ho
    exact hplain rfl (by simp) (by simp) ⟨w',hok,hw',hm⟩
  | retransmitDelete n p =>
    obtain ⟨o,ho,hp⟩ := ha
    obtain ⟨w',hok,hw',hm,-⟩ := ospfLsRetransmitDelete_spec hw ho hp
    exact hplain rfl (by simp) (by simp) ⟨w',hok,hw',hm⟩
  | retransmitClear n walk =>
    obtain ⟨w',hok,hw',hm⟩ := ospfLsRetransmitClear_spec hw n walk
    exact hgood ⟨w',hok,Kept.of_rxmt_reqLast hd hw' hm⟩
  | retransmitDeleteNbrArea a p | retransmitDeleteNbrAs p =>
    obtain ⟨y,hy,hheld⟩ := ha
    obtain ⟨w',hok,hw',hm⟩ := deleteNbr_spec hw hy hheld _
    exact hgood ⟨w',hok,Kept.of_rxmt hd hw' hm⟩
  | install p ans found =>
    obtain ⟨o,ho,hfresh,hcreated,hoi,hfnd⟩ := ha
    obtain ⟨b,hb⟩ := targetLsdb_isSome (hw.area p o ho)
    by_cases h7 : o.data.type=ospfAsNssaLsa
    · -- a type 7 LSA enters the database of its area, so translations do not meet its entry
      have harea : ∃ a, b=.area a := by
        have hwide : isAsWide o=false := by rw [isAsWide,h7]; rfl
        have hok := hw.area p o ho
        rw [areaOk,hwide] at hok
        obtain ⟨a,ha⟩ := isSome_iff_exists.mp (hok.resolve_left (by simp))
        rw [targetLsdb,if_pos h7,ha] at hb
        exact ⟨a,(some.inj hb).symm⟩
      obtain ⟨a,hba⟩ := harea
      have hmakes : ¬translationMakes found p := by
        rintro ⟨tr,data,hf,hmade⟩
        have hnone := ((hfnd tr hf).2.1 p data hmade).1
        rw [ho] at hnone
        cases hnone
      have hins := ospfLsaInstall_spec (a := ans) (Y := translationMakes found)
        (T := fun x => x.isLsdb=false ∨ ∃ k, x=.lsdb .as k)
        (g := ospfTranslatedNssaRefresh found) hw hd ho hfresh hcreated hb hoi
        (fun _ w' hm => ospfTranslatedNssaRefresh_spec fun tr hf => by
          obtain ⟨⟨k,hk⟩,hmade,hns⟩ := hfnd tr hf
          refine ⟨⟨k,?_⟩,fun q data hq => ⟨?_,(hmade q data hq).2⟩,fun n hn => ?_⟩
          · rw [hm.places _ (by simp [Holder.isLsdb,hba]),hk]
          · have hnone := (hmade q data hq).1
            cases hread : w'.read q with
            | none => rfl
            | some l =>
              have hqp : ¬q=p := by
                rintro rfl
                rw [ho] at hnone
                cases hnone
              obtain ⟨l0,hl0,-⟩ := hm.reads q l hqp hread
              rw [hnone] at hl0
              cases hl0
          · rw [hm.nbrs]
            exact hns n hn) (by simp [Holder.isLsdb,hba]) hmakes
      rcases hins with habort|⟨w',hok,hk,-⟩
      · exact .inl habort
      · exact hgood ⟨w',hok,hk⟩
    · have hins := ospfLsaInstall_spec (a := ans) (Y := fun _ => False)
        (T := fun _ => False) (g := ospfTranslatedNssaRefresh found) hw hd ho hfresh
        hcreated hb hoi (fun h => absurd h h7) (fun h => h) fun h => h
      rcases hins with habort|⟨w',hok,hk,-⟩
      · exact .inl habort
      · exact hgood ⟨w',hok,hk⟩
  | maxage p =>
    obtain ⟨o,ho⟩ := isSome_iff_exists.mp ha
    obtain ⟨w',hok,hw',hm,-⟩ := lsaMaxage_spec hw ho
    exact .inr ⟨w',hok,hw',hd.of_moved hm (by simp) fun _ _ _ _ => ⟨by simp,fun h => h⟩,
      hstates.of_rest hm.rest⟩
  | maxageDelete p =>
    obtain ⟨w',hok,hw',hm,-⟩ := ospfLsaMaxageDelete_spec hw p
    exact .inr ⟨w',hok,hw',hd.of_moved hm (by simp) fun _ _ _ _ => ⟨by simp,fun h => h⟩,
      hstates.of_rest hm.rest⟩
  | remover walk =>
    rw [step,ospfMaxageLsaRemover]
    by_cases hcheck : ospfCheckNbrStatus w=true
    · rw [if_pos hcheck]
      exact hgood (removerWalk_spec walk hw hd (hf hcheck))
    rw [if_neg hcheck]
    exact .inr ⟨w,rfl,hw,hd,hstates⟩
  | create p o =>
    obtain ⟨hp,ho⟩ := ha
    obtain ⟨w',hok,hw',hm,-⟩ := ospfLsaNew_spec hw hp ho
    exact hgood ⟨w',hok,Kept.of_new hw hd hp hw' hm⟩
  | discard p =>
    obtain ⟨o,ho⟩ := isSome_iff_exists.mp ha
    obtain ⟨w',hok,hw',hm,-⟩ := ospfLsaDiscard_spec hw ho
    exact hplain rfl (by simp) (by simp) ⟨w',hok,hw',hm⟩
  | age p =>
    obtain ⟨o,ho⟩ := isSome_iff_exists.mp ha
    obtain ⟨w',hok,hw',hd',-,hm⟩ := setMaxage_spec hw hd ho w.now
    exact .inr ⟨w',hok,hw',hd',hstates.of_rest hm.rest⟩
  | due p => exact hgood (takeDue_spec hw hd ha.1 ha.2)
  | refresh p ans =>
    obtain ⟨b,k,o,hp,ho,hans⟩ := ha
    rcases ospfLsaRefresh_spec hw hd hp ho hans with habort|⟨w',hok,hk,-⟩
    · exact .inl habort
    · exact hgood ⟨w',hok,hk⟩
  | done p =>
    obtain ⟨w',hok,hw',hm,-⟩ := hw.unlockPlain (x := .toRefresh p) rfl
    exact hplain rfl (by simp) (by simp) ⟨w',hok,hw',hm⟩
  | hold x p =>
    obtain ⟨hx,hp⟩ := ha
    obtain ⟨o,ho⟩ := isSome_iff_exists.mp hp
    obtain ⟨w',hok,hw',hm,-⟩ := hw.lockPlain (x := .queued x) rfl hx ho
      (fun _ h => by cases h) (fun _ h => by cases h) (fun h => by cases h)
    exact hplain rfl (by simp) (by simp) ⟨w',hok,hw',hm⟩
  | unhold x =>
    obtain ⟨w',hok,hw',hm,-⟩ := hw.unlockPlain (x := .queued x) rfl
    exact hplain rfl (by simp) (by simp) ⟨w',hok,hw',hm⟩
  | request n p =>
    obtain ⟨y,hy,hheld⟩ := ha
    obtain ⟨w',hok,hw',hm,-⟩ := replaceSelf_spec hw (x := .lsReqLast n) rfl hy hheld
    exact hplain rfl (by simp) (by simp) ⟨w',hok,hw',hm⟩
  | nbr n enable state =>
    refine .inr ⟨_,rfl,⟨hw.sound,hw.named,hw.keyed,hw.listed,hw.selfRefresh,hw.counter,
      hw.nodup,hw.strangers,hw.premature,hw.area,hw.external⟩,hd.of_heap rfl,fun m hm => ?_⟩
    change update w.ifIsEnable n enable m=true
    change (update w.nbrState n state m=.exchange ||
      update w.nbrState n state m=.loading : Bool)=true at hm
    by_cases hmn : m=n
    · rcases ha with ha|⟨hx,hl⟩
      · rw [hmn,update_self,ha]
      rw [hmn,update_self] at hm
      simp [hx,hl] at hm
    rw [update_of_ne hmn] at hm ⊢
    exact hstates m hm
  | nbrNew n a =>
    have hn : ∀ k p, w.place (.lsRxmt n k)≠some p := fun k p h => ha (hw.strangers n k p h)
    refine .inr ⟨_,rfl,⟨hw.sound,hw.named,hw.keyed,hw.listed,hw.selfRefresh,
      fun p o ho => ?_,nodup_cons.mpr ⟨ha,hw.nodup⟩,
      fun m k p h => mem_cons_of_mem n (hw.strangers m k p h),hw.premature,hw.area,
      hw.external⟩,hd.of_heap rfl,hstates⟩
    have hcnt : (n::w.nbrs).countP (fun m => w.place (.lsRxmt m o.key)=some p) =
        w.nbrs.countP fun m => w.place (.lsRxmt m o.key)=some p :=
      countP_cons_of_neg (by simpa using hn o.key p)
    rw [hw.counter p o ho,World.number,World.number]
    exact congrArg _ hcnt.symm
  | nbrFree n =>
    refine .inr ⟨_,rfl,⟨hw.sound,hw.named,hw.keyed,hw.listed,hw.selfRefresh,
      fun p o ho => ?_,hw.nodup.erase n,fun m k p h => ?_,hw.premature,hw.area,
      hw.external⟩,hd.of_heap rfl,hstates⟩
    · have hcnt : (w.nbrs.erase n).countP (fun m => w.place (.lsRxmt m o.key)=some p) =
          w.nbrs.countP fun m => w.place (.lsRxmt m o.key)=some p := by
        rw [countP_erase,if_neg (by simp [ha o.key]),Nat.sub_zero]
      rw [hw.counter p o ho,World.number,World.number]
      exact congrArg _ hcnt.symm
    have hmn : m≠n := by
      rintro rfl
      have hnone := ha k
      exact absurd (hnone.symm.trans h) (by simp)
    exact (mem_erase_of_ne hmn).mpr (hw.strangers m k p h)
  | tick now =>
    exact .inr ⟨_,rfl,⟨hw.sound,hw.named,hw.keyed,hw.listed,hw.selfRefresh,hw.counter,
      hw.nodup,hw.strangers,hw.premature,hw.area,hw.external⟩,hd.of_heap rfl,hstates⟩

/-- A property of every step of a run, as far as the run gets. -/
def Along (P : World→Action→Prop) : World→List Action→Prop
  | _, [] => True
  | w, a::rest => P w a ∧
    match step w a with
    | .ok w' => Along P w' rest
    | .error _ => True

def run (w : World) (acts : List Action) : Except Fault World := acts.foldlM step w

/-- A router without instances and neighbours. -/
def World.start (own : LsaHeader→Bool) (now : ℕ) : World :=
  { heap := Heap.empty
    nbrs := []
    nbrArea := fun _ => 0
    ifIsEnable := fun _ => false
    nbrState := fun _ => .down
    now
    own }

theorem good_start (own : LsaHeader→Bool) (now : ℕ) : Good (World.start own now) := by
  have hpl : ∀ x p, (World.start own now).place x≠some p := nofun
  have hread : ∀ p o, (World.start own now).read p≠some o := nofun
  exact ⟨⟨Heap.empty_sound,fun x p _ _ h => absurd h (hpl x p),
    fun x _ p _ _ h => absurd h (hpl x p),fun _ p o h => absurd h (hread p o),
    fun p o h => absurd h (hread p o),fun p o h => absurd h (hread p o),nodup_nil,
    fun _ _ _ h => absurd h (hpl _ _),fun p o h => absurd h (hread p o),
    fun p o h => absurd h (hread p o),fun _ _ h => absurd h (hpl _ _)⟩,
    fun _ _ _ _ h => absurd h (hpl _ _),fun _ h => absurd h (by simp [World.start,isExchanging])⟩

theorem along_append {P : World→Action→Prop} {done rest : List Action} (h : Along P w (done++rest))
    (hrun : run w done=.ok w') : Along P w' rest := by
  induction done generalizing w with
  | nil =>
    injection hrun with hw
    exact hw ▸ h
  | cons a done ih =>
    obtain ⟨-,hrs⟩ := h
    rw [run,foldlM_cons] at hrun
    cases hstep : step w a with
    | error e =>
      rw [hstep] at hrun
      exact absurd hrun nofun
    | ok v =>
      rw [hstep] at hrun hrs
      exact ih hrs hrun

theorem run_good (h : Good w) (acts : List Action) (hl : Along Legal w acts) (hf : Along Fit w acts) :
    Ends (run w acts) Good := by
  induction acts generalizing w with
  | nil => exact .inr ⟨w,rfl,h⟩
  | cons a rest ih =>
    obtain ⟨ha,hrs⟩ := hl
    obtain ⟨hfa,hfrest⟩ := hf
    rw [run,foldlM_cons]
    rcases step_kept h ha hfa with habort|⟨v,hok,hv⟩
    · exact .inl (by rw [habort]; rfl)
    rw [hok] at hrs hfrest ⊢
    exact ih hv hrs hfrest

/-- The neighbours whose list holds an instance. -/
def holding (w : World) (p : ℕ) : Set ℕ := {n | ∃ k, w.place (.lsRxmt n k)=some p}

theorem ncard_holding (hw : Core w) (ho : w.read p=some o) :
    (holding w p).ncard=w.number o.key p := by
  have hset : holding w p =
      ↑(w.nbrs.filter fun n => w.place (.lsRxmt n o.key)=some p).toFinset := by
    ext n
    simp only [holding,Set.mem_ofPred_eq,coe_toFinset,mem_filter,decide_eq_true_eq]
    constructor
    · rintro ⟨k,hk⟩
      refine ⟨hw.strangers n k p hk,?_⟩
      rw [hw.keyed _ k p o rfl hk ho]
      exact hk
    · rintro ⟨-,hk⟩
      exact ⟨o.key,hk⟩
  rw [hset,Set.ncard_coe_finset,toFinset_card_of_nodup (hw.nodup.filter _),World.number,
    countP_eq_length_filter]

/-- The counters of retransmissions, and the MaxAge table. -/
structure MaxageSound (w : World) : Prop where
  /-- `retransmit_counter` is the number of neighbours whose list holds the
  very instance. -/
  counter : ∀ p o, w.read p=some o → o.retransmitCounter=(holding w p).ncard
  /-- An instance is in the table exactly when it is marked so. -/
  table : ∀ p o, w.read p=some o → (o.inMaxage=true ↔ w.place (.maxageLsa p)=some p)
  /-- The table has an instance under its address, and holds one lock of it. -/
  lock : ∀ p q, w.place (.maxageLsa p)=some q → q=p ∧ (w.heap.locks p).count (.maxageLsa p)=1

theorem Core.maxageSound (hw : Core w) : MaxageSound w := by
  refine ⟨fun p o ho => ?_,fun p o ho => hw.listed .maxage p o ho,fun p q hq => ?_⟩
  · rw [ncard_holding hw ho,hw.counter p o ho]
  have hqp := hw.named _ q p rfl hq
  exact ⟨hqp,hw.sound.count_locks (hqp ▸ hq)⟩

/-- The remover waits for Exchange and Loading, and removes only what is on no list. -/
def RemoverSound (w : World) (walk : List (ℕ × RefreshAnswer)) : Prop :=
  (ospfCheckNbrStatus w=false → ospfMaxageLsaRemover walk w=.ok w) ∧
  (ospfCheckNbrStatus w=true → ∀ met turn rest v v', walk=met++turn::rest →
    met.foldlM removerTurn w=.ok v → removerTurn v turn=.ok v' →
    ∀ b k r, v.place (.lsdb b k)=some r → v'.place (.lsdb b k)≠some r →
      (holding v r).ncard=0 ∧ ∀ n∈v.nbrs, isExchanging v n=false)

theorem fitWalk_append {v : World} (h : FitWalk w (met++rest))
    (hrun : met.foldlM removerTurn w=.ok v) : FitWalk v rest := by
  induction met generalizing w with
  | nil =>
    injection hrun with hw
    exact hw ▸ h
  | cons turn met ih =>
    rw [foldlM_cons] at hrun
    cases hturn : removerTurn w turn with
    | error e =>
      rw [hturn] at hrun
      exact absurd hrun nofun
    | ok v1 =>
      rw [hturn] at hrun
      exact ih (h.2 v1 hturn) hrun

theorem fitWalk_left (h : FitWalk w (met++rest)) : FitWalk w met := by
  induction met generalizing w with
  | nil => trivial
  | cons turn met ih => exact ⟨h.1,fun v hv => ih (h.2 v hv)⟩

theorem Good.removerSound (h : Good w) {walk : List (ℕ × RefreshAnswer)}
    (hfit : Fit w (.remover walk)) : RemoverSound w walk := by
  refine ⟨fun hcheck => by rw [ospfMaxageLsaRemover,hcheck]; rfl,
    fun hcheck met turn rest v v' hwalk hmet hturn b k r hr hr' => ?_⟩
  have hfit' := hwalk ▸ hfit hcheck
  obtain ⟨v0,hok,hk⟩ := removerWalk_spec met h.core h.databases (fitWalk_left hfit')
  have hvv := Except.ok.inj (hok.symm.trans hmet)
  rw [hvv] at hk
  have hv := h.of_kept hk
  obtain ⟨v1,hok1,-,hz,-⟩ := removerTurn_spec hv.core hv.databases (fitWalk_append hfit' hmet).1
  have hv1 := Except.ok.inj (hok1.symm.trans hturn)
  rw [hv1] at hz
  obtain ⟨l,hl⟩ := hv.core.live hr
  have hcheckv : ospfCheckNbrStatus v=true := by
    rw [←hcheck,←hk.moved.rest]
    rfl
  refine ⟨?_,fun n hn => isExchanging_of_check hv hcheckv hn⟩
  rw [ncard_holding hv.core hl,hv.core.keyed _ k r l rfl hr hl]
  exact hz b k r hr hr'

/-- The header of a summary LSA. -/
def summaryHeader (lsAge : BitVec 16) (lsSeqnum : BitVec 32) : LsaHeader :=
  { lsAge
    options := 2
    type := 3
    id := 0x0A000000
    advRouter := 0x01010101
    lsSeqnum
    checksum := 0
    length := 28 }

/-- A refresh that makes an instance at an address. -/
def summaryAnswer (q : ℕ) : RefreshAnswer :=
  { oi := none
    info := false
    redistribute := false
    flushed := none
    refresher := false
    made := some (q,summaryHeader 0 0)
    install := ⟨none,.refused,0⟩
    ns := [] }

/-- A received summary LSA of MaxAge is installed and removed. -/
def flushedRun : List Action :=
  [.create 0 {selfLsa 0 (summaryHeader 3600 0x80000005) (some 0) with self := false},
    .install 0 ⟨none,.refused,0⟩ none,.remover [(0,summaryAnswer 1)]]

theorem flushed_legal : Along Legal (.start (fun _ => false) 0) flushedRun := by
  refine ⟨⟨rfl,⟨rfl,rfl,rfl⟩,rfl,rfl,.inr rfl,rfl⟩,?_⟩
  refine And.intro ⟨_,rfl,rfl,rfl,nofun,nofun⟩ ?_
  exact And.intro trivial trivial

theorem flushed_fit : Along Fit (.start (fun _ => false) 0) flushedRun := by
  refine And.intro trivial (And.intro trivial (And.intro (fun _ => ?_) trivial))
  refine And.intro ?_ fun _ _ => trivial
  intro o h
  have ho := h.read
  cases ho
  refine ⟨rfl,fun b hb => ?_⟩
  cases hb
  rfl

/-- A self-originated summary LSA whose sequence number wraps. -/
def wrapRun : List Action :=
  [.create 0 (selfLsa 0 (summaryHeader 0 0x80000000) (some 0)),
    .install 0 ⟨none,.refused,0⟩ none,.remover [(0,summaryAnswer 1)]]

theorem wrap_legal : Along Legal (.start (fun _ => false) 0) wrapRun := by
  refine ⟨⟨rfl,⟨rfl,rfl,rfl⟩,rfl,rfl,.inr rfl,rfl⟩,?_⟩
  refine And.intro ⟨_,rfl,rfl,rfl,nofun,nofun⟩ ?_
  exact And.intro trivial trivial

end RoutePlatform.LsaHeap
