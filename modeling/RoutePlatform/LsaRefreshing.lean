import RoutePlatform.LsaSteps

/-!
# A refresh as a whole

A refresh of an instance that a database has either leaves all databases as
they are, or puts the instance that it makes into the place of the old one,
with the next sequence number. The same goes for the refresh of a translated
LSA, which enters the database of the AS.
-/

namespace RoutePlatform.LsaHeap

open LsaOperations ObjectLocks Holder

variable {w : World} {p : ℕ} {o : Lsa} {b : Base} {o' : Lsa} {w' : World} {S : Holder→Prop}
  {w1 : World} {data : LsaHeader}

/-- An entry of a database is written to and stays an entry. -/
theorem setMaxage_spec (hw : Core w) (hd : Databases w) (ho : w.read p=some o) (now : ℕ) :
    ∃ w', modifyLsa p (setMaxage now) w=.ok w' ∧ Core w' ∧ Databases w' ∧
      (MaxageHome w → MaxageHome w') ∧ Moved (fun _ => False) (· = p) w w' := by
  obtain ⟨w',hok,hw',hm,ho'⟩ := hw.write ho (setMaxage now) rfl
    (fun g => by cases g <;> rfl) rfl (fun h => h)
    (fun h => ⟨(hw.premature p o ho h).1,rfl⟩) (hw.area p o ho) fun hx => hw.external p o hx ho
  -- an entry is `p` itself, with its fields, or an instance that is as it was
  have hcase : ∀ q l', w'.read q=some l' → ∃ l, w.read q=some l ∧ l'.lsdb=l.lsdb ∧
      targetLsdb l'=targetLsdb l ∧ isExternal l'=isExternal l := by
    intro q l' hl'
    by_cases hqp : q=p
    · rw [hqp,ho'] at hl'
      rw [hqp,←Option.some.inj hl']
      exact ⟨o,ho,rfl,rfl,rfl⟩
    obtain ⟨l,hl,hcore⟩ := hm.reads q l' hqp hl'
    exact ⟨l,hl,lsdb_of_core hcore,targetLsdb_of_core hcore,isExternal_of_core hcore⟩
  refine ⟨w',hok,hw',fun b k q l' hq hl' => ?_,
    fun hmax => hmax.of_moved hm (fun _ _ h => h) fun _ h => h,hm⟩
  rw [hm.places _ (fun h => h)] at hq
  obtain ⟨l,hl,hlsdb,htarget,hext⟩ := hcase q l' hl'
  have hentry := hd b k q l hq hl
  refine ⟨hlsdb.trans hentry.home,htarget.trans hentry.target,fun hx => ?_⟩
  rw [hm.places _ (fun h => h)]
  exact hentry.external (hext ▸ hx)

section

variable (hw : Core w) (hd : Databases w) {k : ℕ} (hp : w.place (.lsdb b k)=some p) (ns : List ℕ)
  (hns : ∀ n∈ns, n∈w.nbrs)
include hw hd hp ns hns

theorem floodTo_kept : ∃ w', floodTo ns p w=.ok w' ∧
      Kept (fun x => x.isLsdb=false) (fun _ => False) w w' := by
  obtain ⟨w',hok,hw',hm⟩ := floodTo_spec hw (y := .lsdb b k) rfl hp ns hns
  exact ⟨w',hok,Kept.of_rxmt hd hw' hm⟩

theorem ospfLsaFlush_spec : ∃ w', ospfLsaFlush ns p w=.ok w' ∧
      Kept (fun x => x.isLsdb=false) (· = p) w w' := by
  obtain ⟨o,ho⟩ := hw.live hp
  obtain ⟨w1,hok1,hw1,hd1,hmax1,hm1⟩ := setMaxage_spec hw hd ho w.now
  have hp1 := (hm1.places _ (fun h => h)).trans hp
  obtain ⟨w2,hok2,hk2⟩ := floodTo_kept hw1 hd1 hp1 ns fun n hn => by
    rw [hm1.nbrs]
    exact hns n hn
  have hp2 := (hk2.moved.places _ (by simp [isLsdb])).trans hp1
  obtain ⟨o2,ho2⟩ := hk2.core.live hp2
  obtain ⟨w',hok',hw',hm',-⟩ := lsaMaxage_spec hk2.core ho2
  have hk' := Kept.of_maxage hk2.databases hw' hm' hp2
  refine ⟨w',?_,hk'.core,hk'.databases,fun h => hk'.maxage (hk2.maxage (hmax1 h)),
    ((hm1.trans hk2.moved).trans hk'.moved).mono (fun x h => ?_) fun q h => ?_⟩
  · simp only [ospfLsaFlush,bind,Except.bind,hok1,hok2]
    exact hok'
  · rcases h with (h|h)|h
    · exact h.elim
    · exact h
    · exact h
  rcases h with (h|h)|h
  · exact h
  · exact h.elim
  · exact h.elim

end

/-- What the originating functions answer to a refresh of an instance. -/
structure RefreshOk (w : World) (o : Lsa) (ans : RefreshAnswer) : Prop where
  /-- The instance that is made is a new one of the same LSA. -/
  made : ∀ q data, ans.made=some (q,data) → w.read q=none ∧ data.type=o.data.type ∧
    data.id=o.data.id ∧ data.advRouter=o.data.advRouter
  ns : ∀ n∈ans.ns, n∈w.nbrs
  flushed : ∀ r, ans.flushed=some r → ∃ b k, w.place (.lsdb b k)=some r

/-- The instance that a refresh makes. -/
def remade (now : ℕ) (o : Lsa) (data : LsaHeader) : Lsa :=
  selfLsa now {data with lsSeqnum := lsaSeqnumIncrement o} o.area

/-- What a refresh leaves in the databases. -/
def Refreshed (ans : RefreshAnswer) (o : Lsa) (w w' : World) : Prop :=
  (∀ b k, w'.place (.lsdb b k)=w.place (.lsdb b k)) ∨
    ∃ q data b, ans.made=some (q,data) ∧ targetLsdb o=some b ∧
      Entered ans.install.checksum b (wrapped w.now (remade w.now o data)) q w' ∧
      ∀ b' k, Holder.lsdb b' k ≠ .lsdb b o.key → w'.place (.lsdb b' k)=w.place (.lsdb b' k)

/-- The addresses that an answer gives out. -/
def RefreshAnswer.makes (ans : RefreshAnswer) (q : ℕ) : Prop := ∃ data, ans.made=some (q,data)

theorem remade_key (now : ℕ) (hty : data.type=o.data.type) (hid : data.id=o.data.id)
    (hadv : data.advRouter=o.data.advRouter) : (remade now o data).key=o.key := by
  change lsKey data.type data.id data.advRouter=lsKey o.data.type o.data.id o.data.advRouter
  rw [hty,hid,hadv]

theorem targetLsdb_remade {now : ℕ} (hty : data.type=o.data.type) :
    targetLsdb (remade now o data)=targetLsdb o := by
  simp only [targetLsdb,isAsWide,remade,selfLsa,hty]
  rfl

theorem Entered.of_kept {checksum : BitVec 16} {q : ℕ} (h : Entered checksum b o q w)
    (hk : Kept (fun x => x.isLsdb=false) (fun _ => False) w w') : Entered checksum b o q w' := by
  obtain ⟨o',ho',hcore'⟩ := h.body
  obtain ⟨o'',ho'',hcore''⟩ := hk.moved.live hk.core (x := .lsdb b o.key)
    (by simp [isLsdb]) (fun h => h) h.entered ho'
  exact ⟨(hk.moved.places _ (by simp [isLsdb])).trans h.entered,o'',ho'',hcore''.trans hcore'⟩

variable {ans : RefreshAnswer}

theorem reoriginate_spec (hw : Core w) (hd : Databases w) (ho : w.read p=some o)
    (hans : RefreshOk w o ans) (oi : Option ℕ) (hoi : o.data.type.toNat=2 → oi.isSome)
    (h7 : o.data.type≠ospfAsNssaLsa) :
    Ends (reoriginate ans oi p w) fun w' =>
      Kept (fun _ => True) ans.makes w w' ∧ Refreshed ans o w w' ∧
      ∀ q data, ans.made=some (q,data) →
        ∃ l k, w'.place (.lsdb l k)=some q ∧ ∀ o', w'.read q=some o' → o'.self=true := by
  rw [reoriginate]
  cases hmade : ans.made with
  | none => exact .inr ⟨w,rfl,Kept.refl hw hd _ _,.inl fun _ _ => rfl,nofun⟩
  | some m =>
    obtain ⟨q,data⟩ := m
    obtain ⟨hq,hty,hid,hadv⟩ := hans.made q data hmade
    have harea : areaOk (remade w.now o data) := by
      have hok := hw.area p o ho
      rw [areaOk,isAsWide] at hok ⊢
      change (data.type=ospfAsExternalLsa || data.type=ospfOpaqueAsLsa)=true ∨ o.area.isSome
      rw [hty]
      simpa using hok
    obtain ⟨b,hb⟩ := targetLsdb_isSome (hw.area p o ho)
    obtain ⟨w1,hok1,hw1,hm1,hcreated1,ho1⟩ := ospfLsaNew_spec hw hq (newLsa_selfLsa harea)
    have hk1 := Kept.of_new hw hd hq hw1 hm1
    have hty' : (remade w.now o data).data.type=o.data.type := hty
    have hins := ospfLsaInstall_spec (g := .ok) (T := fun _ => False)
      (Y := fun _ => False) (a := {ans.install with oi}) hw1 hk1.databases ho1 rfl hcreated1
      ((targetLsdb_remade hty).trans hb) (fun h => hoi (hty' ▸ h))
      (fun h => absurd (hty' ▸ h) h7) (fun h => h) fun h => h
    have hkey := remade_key w.now hty hid hadv
    have hrun : (do
        let o ← w.get p
        let w ← ospfLsaNew q (selfLsa w.now {data with lsSeqnum := lsaSeqnumIncrement o} o.area) w
        let w ← ospfLsaInstall .ok {ans.install with oi} q w
        floodTo ans.ns q w) =
        (ospfLsaInstall .ok {ans.install with oi} q w1 >>= floodTo ans.ns q) := by
      rw [get_of_read ho]
      simp only [bind,Except.bind]
      rw [hok1]
    dsimp only
    rw [hrun]
    refine hins.bind fun w2 h₂ => .inr ?_
    obtain ⟨hk2,hentered⟩ := h₂
    have hentered2 := hentered rfl rfl
    rw [hm1.now] at hentered2
    obtain ⟨w',hok',hk'⟩ := floodTo_kept hk2.core hk2.databases hentered2.entered ans.ns
      fun n hn => by
        rw [hk2.moved.nbrs,hm1.nbrs]
        exact hans.ns n hn
    have hentered' := hentered2.of_kept hk'
    refine ⟨w',hok',((hk1.trans hk2).trans hk').mono (fun _ _ => trivial) fun r h => ?_,
      .inr ⟨q,data,b,hmade,hb,hentered',fun b' k hne => ?_⟩,fun r data' hr => ?_⟩
    · rcases h with (h|h)|h
      · exact ⟨data,by rw [h,hmade]⟩
      · rcases h with h|h
        · exact ⟨data,by rw [h,hmade]⟩
        · exact h.elim
      · exact h.elim
    · have hne2 : ¬((lsdb b' k).isLsdb=false ∨
          lsdb b' k=.lsdb b (remade w.now o data).key ∨ False) := by
        rw [hkey]
        rintro (h|h|h)
        · exact absurd h (by simp [isLsdb])
        · exact hne h
        · exact h
      rw [hk'.moved.places _ (by simp [isLsdb]),hk2.moved.places _ hne2,hm1.places _ (by simp)]
    injection hr with hr
    injection hr with hqr _
    rw [←hqr]
    refine ⟨b,_,hentered'.entered,fun o' ho' => ?_⟩
    obtain ⟨o'',ho'',hcore⟩ := hentered'.body
    rw [ho'] at ho''
    rw [Option.some.inj ho'',self_of_core hcore]
    have hself : (wrapped w.now (remade w.now o data)).self=true := by
      rw [wrapped]
      split <;> rfl
    rw [enteredLsa,checksummed_self]
    exact hself

theorem RefreshOk.of_moved (h : RefreshOk w o ans) (hm : Moved S (fun _ => False) w w')
    (hS : ∀ b k, ¬S (.lsdb b k)) (hcore : o'.core=o.core) : RefreshOk w' o' ans := by
  refine ⟨fun q data hq => ?_,fun n hn => ?_,fun r hr => ?_⟩
  · obtain ⟨hnone,hty,hid,hadv⟩ := h.made q data hq
    rw [data_of_core hcore]
    refine ⟨?_,hty,hid,hadv⟩
    cases hread : w'.read q with
    | none => rfl
    | some l =>
      obtain ⟨l0,hl0,-⟩ := hm.reads q l (fun h => h) hread
      rw [hnone] at hl0
      cases hl0
  · rw [hm.nbrs]
    exact h.ns n hn
  obtain ⟨b,k,hb⟩ := h.flushed r hr
  exact ⟨b,k,(hm.places _ (hS b k)).trans hb⟩

theorem remade_of_core (hcore : o'.core=o.core) (now : ℕ) (data : LsaHeader) :
    remade now o' data=remade now o data := by
  rw [remade,remade,lsaSeqnumIncrement,lsaSeqnumIncrement,data_of_core hcore,area_of_core hcore]

theorem Refreshed.of_before (h : Refreshed ans o' w1 w') (hm : Moved S (fun _ => False) w w1)
    (hS : ∀ b k, ¬S (.lsdb b k)) (hcore : o'.core=o.core) : Refreshed ans o w w' := by
  rcases h with h|⟨q,data,b,hmade,hb,hentered,hoths⟩
  · exact .inl fun b k => (h b k).trans (hm.places _ (hS b k))
  refine .inr ⟨q,data,b,hmade,(targetLsdb_of_core hcore).symm.trans hb,?_,
    fun b' k hne => (hoths b' k ?_).trans (hm.places _ (hS b' k))⟩
  · rw [hm.now,remade_of_core hcore] at hentered
    exact hentered
  rw [key_of_core hcore]
  exact hne

theorem Refreshed.of_after (h : Refreshed ans o w w1)
    (hk : Kept (fun x => x.isLsdb=false) (fun _ => False) w1 w') : Refreshed ans o w w' := by
  have hsame : ∀ b k, w'.place (.lsdb b k)=w1.place (.lsdb b k) := fun b k =>
    hk.moved.places _ (by simp [isLsdb])
  rcases h with h|⟨q,data,b,hmade,hb,hentered,hoths⟩
  · exact .inl fun b k => (hsame b k).trans (h b k)
  exact .inr ⟨q,data,b,hmade,hb,hentered.of_kept hk,
    fun b' k hne => (hsame b' k).trans (hoths b' k hne)⟩

/-- The instances whose fields a refresh may write: new ones and entries. -/
def RefreshAnswer.writes (ans : RefreshAnswer) (w : World) (q : ℕ) : Prop :=
  ans.makes q ∨ ∃ b k, w.place (.lsdb b k)=some q

/-- What a refresh of an entry does. -/
def RefreshEnd (ans : RefreshAnswer) (p : ℕ) (o : Lsa) (w w' : World) : Prop :=
  Kept (fun _ => True) (ans.writes w) w w' ∧ ((∀ b k, w'.place (.lsdb b k)=w.place (.lsdb b k)) ∨
      Refreshed ans o w w' ∧ ∀ o', w'.read p=some o' → o'.core=o.core)

theorem RefreshEnd.refl (hw : Core w) (hd : Databases w) : RefreshEnd ans p o w w :=
  ⟨Kept.refl hw hd _ _,.inl fun _ _ => rfl⟩

theorem refreshEnd_of_kept (ho : w.read p=some o) (hans : RefreshOk w o ans)
    (hk : Kept (fun _ => True) ans.makes w w') (hr : Refreshed ans o w w') :
    RefreshEnd ans p o w w' := by
  refine ⟨hk.mono (fun _ h => h) fun q h => .inl h,.inr ⟨hr,fun o' ho' => ?_⟩⟩
  have hold : ¬ans.makes p := by
    rintro ⟨data,hmade⟩
    have hnone := (hans.made p data hmade).1
    rw [ho] at hnone
    cases hnone
  obtain ⟨o0,ho0,hcore⟩ := hk.moved.reads p o' hold ho'
  rw [ho] at ho0
  rw [hcore,Option.some.inj ho0]

section

variable {k : ℕ} {ans : RefreshAnswer}

theorem sweepAndReoriginate_spec (hw : Core w) (hd : Databases w)
    (hp : w.place (.lsdb b k)=some p) (ho : w.read p=some o) (hself : o.self=true)
    (hans : RefreshOk w o ans) (oi : Option ℕ) (hoi : o.data.type.toNat=2 → oi.isSome)
    (h7 : o.data.type≠ospfAsNssaLsa) :
    Ends (sweepAndReoriginate ans oi p o w) fun w' =>
      Kept (fun _ => True) ans.makes w w' ∧ Refreshed ans o w w' ∧
      ∀ q data, ans.made=some (q,data) →
        ∃ l k, w'.place (.lsdb l k)=some q ∧ ∀ o', w'.read q=some o' → o'.self=true := by
  obtain ⟨w1,hok1,hw1,hm1⟩ := sweepRetransmits_spec hw (hw.area p o ho) (y := .lsdb b k) rfl hp
  obtain ⟨o1,ho1,hcore1⟩ := hm1.live hw1 (x := .lsdb b k) (by simp [isRxmt]) (fun h => h) hp ho
  have hp1 := (hm1.places _ (by simp [isRxmt])).trans hp
  obtain ⟨w2,hok2,hw2,hm₂,-⟩ := ospfRefresherUnregisterLsa_spec hw1 ho1
    ((self_of_core hcore1).trans hself) (y := .lsdb b k) (by simp) hp1
  obtain ⟨o2,ho2,hcore2⟩ := hm₂.live hw2 (x := .lsdb b k) (by simp) (fun h => h) hp1 ho1
  have hcore := hcore2.trans hcore1
  have hk1 := Kept.of_rxmt hd hw1 hm1
  have hk2 := Kept.of_place hk1.databases hw2 hm₂ rfl (by simp) (by simp)
  have hm := hk1.moved.again hk2.moved
  have hno : ∀ b k, ¬(lsdb b k).isLsdb=false := fun b k => by simp [isLsdb]
  have hrun : sweepAndReoriginate ans oi p o w=reoriginate ans oi p w2 := by
    rw [sweepAndReoriginate]
    simp only [bind,Except.bind,hok1,hok2]
  rw [hrun]
  have hend := reoriginate_spec hw2 hk2.databases ho2 (hans.of_moved hm hno hcore) oi
    (by rw [data_of_core hcore]; exact hoi) (by rw [data_of_core hcore]; exact h7)
  rcases hend with habort|⟨w',hok',hk',hr',hmade'⟩
  · exact .inl habort
  exact .inr ⟨w',hok',((hk1.trans hk2).trans hk').mono (fun _ _ => trivial)
    (fun q h => h.elim (fun h => h.elim False.elim False.elim) id),
    hr'.of_before hm hno hcore,hmade'⟩

theorem refreshEnd_of_flush {r : ℕ} {l : ℕ} {c : Base} (hr : w.place (.lsdb c l)=some r)
    (hk1 : Kept (fun x => x.isLsdb=false) (fun _ => False) w w1)
    (hk : Kept (fun x => x.isLsdb=false) (· = r) w1 w') : RefreshEnd ans p o w w' := by
  refine ⟨(hk1.trans hk).mono (fun _ _ => trivial) (fun q h => ?_),.inl fun b k => ?_⟩
  · rcases h with h|h
    · exact h.elim
    · exact .inr ⟨c,l,by rw [hr,h]⟩
  · rw [hk.moved.places _ (by simp [isLsdb]),hk1.moved.places _ (by simp [isLsdb])]

theorem ospfExternalLsaFlush_spec (hw : Core w) (hd : Databases w) (hans : RefreshOk w o ans) :
    Ends (ospfExternalLsaFlush ans w) (RefreshEnd ans p o w) := by
  rw [ospfExternalLsaFlush]
  cases hflushed : ans.flushed with
  | none => exact .inr ⟨w,rfl,RefreshEnd.refl hw hd⟩
  | some r =>
    obtain ⟨c,l,hr⟩ := hans.flushed r hflushed
    obtain ⟨w1,hok1,hw1,hm1⟩ := deleteNbr_spec hw (y := .lsdb c l) rfl hr
      (w.nbrs.filter w.ifIsEnable)
    have hk1 := Kept.of_rxmt hd hw1 hm1
    have hr1 := (hm1.places _ (by simp [isRxmt])).trans hr
    obtain ⟨o1,ho1⟩ := hw1.live hr1
    have hsweep : ospfLsRetransmitDeleteNbrAs r w=.ok w1 := hok1
    simp only [bind,Except.bind,hsweep,get_of_read ho1]
    split
    · exact .inr ⟨w1,rfl,hk1.mono (fun _ _ => trivial) (fun _ h => h.elim),
        .inl fun b k => hm1.places _ (by simp [isRxmt])⟩
    cases hself : o1.self with
    | false =>
      refine .inl ?_
      rw [ospfRefresherUnregisterLsa,get_of_read ho1]
      simp [bind,Except.bind,hself,throw,throwThe,MonadExceptOf.throw]
    | true =>
      obtain ⟨w2,hok2,hw2,hm₂,-⟩ := ospfRefresherUnregisterLsa_spec hw1 ho1 hself
        (y := .lsdb c l) (by simp) hr1
      have hk2 := Kept.of_place hk1.databases hw2 hm₂ rfl (by simp) (by simp)
      have hr2 := (hm₂.places _ (by simp)).trans hr1
      obtain ⟨w',hok',hk'⟩ := ospfLsaFlush_spec hw2 hk2.databases hr2 ans.ns fun n hn => by
        rw [hm₂.nbrs,hm1.nbrs]
        exact hans.ns n hn
      refine .inr ⟨w',by rw [hok2]; exact hok',refreshEnd_of_flush hr
        ((hk1.trans hk2).mono (fun x h => h.elim id id) fun q h => h.elim id id) hk'⟩

section

variable (hw : Core w) (hd : Databases w) (hp : w.place (.lsdb b k)=some p) (ho : w.read p=some o)
include hw hd hp ho

theorem ospfExternalLsaRefresh_spec (hself : o.self=true)
    (hans : RefreshOk w o ans) (h5 : o.data.type.toNat=5) :
    Ends (ospfExternalLsaRefresh ans p o w) (RefreshEnd ans p o w) := by
  rw [ospfExternalLsaRefresh]
  cases hredist : ans.redistribute with
  | false => exact ospfExternalLsaFlush_spec hw hd hans
  | true =>
    have hend := sweepAndReoriginate_spec hw hd hp ho hself hans none
      (fun h => absurd (h5.symm.trans h) (by simp)) (fun h => by
        rw [h] at h5
        exact absurd h5 (by decide))
    refine hend.bind fun w1 h1 => .inr ?_
    obtain ⟨hk1,hr1,hmade1⟩ := h1
    cases hmade : ans.made with
    | none => exact ⟨w1,rfl,refreshEnd_of_kept ho hans hk1 hr1⟩
    | some m =>
      obtain ⟨q,data⟩ := m
      obtain ⟨c,l,hq,hselfq⟩ := hmade1 q data hmade
      obtain ⟨o1,ho1⟩ := hk1.core.live hq
      simp only [bind,Except.bind,get_of_read ho1]
      split
      · exact ⟨w1,rfl,refreshEnd_of_kept ho hans hk1 hr1⟩
      obtain ⟨w',hok',hw',hm',-⟩ := ospfRefresherRegisterLsa_spec hk1.core ho1 (hselfq o1 ho1)
      have hk' := Kept.of_place hk1.databases hw' hm' rfl (by simp) (by simp)
      exact ⟨w',hok',refreshEnd_of_kept ho hans
        ((hk1.trans hk').mono (fun _ _ => trivial) fun q h => h.elim id False.elim)
        (hr1.of_after hk')⟩

/-- A refresh of an entry of a database. -/
theorem ospfLsaRefresh_spec (hans : RefreshOk w o ans) :
    Ends (ospfLsaRefresh ans p w) (RefreshEnd ans p o w) := by
  rw [ospfLsaRefresh,get_of_read ho]
  cases hself : o.self with
  | false => exact .inl (by simp [bind,Except.bind,hself,throw,throwThe,MonadExceptOf.throw])
  | true =>
    have hsweep : ∀ oi : Option ℕ, (o.data.type.toNat=2 → oi.isSome) → o.data.type≠ospfAsNssaLsa →
        Ends (sweepAndReoriginate ans oi p o w) (RefreshEnd ans p o w) := by
      intro oi hoi h7
      rcases sweepAndReoriginate_spec hw hd hp ho hself hans oi hoi h7 with
        habort | ⟨w',hok',hk',hr',-⟩
      · exact .inl habort
      · exact .inr ⟨w',hok',refreshEnd_of_kept ho hans hk' hr'⟩
    have hagain : ∀ oi : Option ℕ, (o.data.type.toNat=2 → oi.isSome) →
        o.data.type≠ospfAsNssaLsa → Ends (reoriginate ans oi p w) (RefreshEnd ans p o w) := by
      intro oi hoi h7
      rcases reoriginate_spec hw hd ho hans oi hoi h7 with habort|⟨w',hok',hk',hr',-⟩
      · exact .inl habort
      · exact .inr ⟨w',hok',refreshEnd_of_kept ho hans hk' hr'⟩
    have hflush : Ends (ospfLsaFlush ans.ns p w) (RefreshEnd ans p o w) := by
      obtain ⟨w',hok',hk'⟩ := ospfLsaFlush_spec hw hd hp ans.ns hans.ns
      exact .inr ⟨w',hok',refreshEnd_of_flush hp (Kept.refl hw hd _ _) hk'⟩
    have hstay : Ends (.ok w : Except Fault World) (RefreshEnd ans p o w) :=
      .inr ⟨w,rfl,RefreshEnd.refl hw hd⟩
    have h7 : ∀ m : ℕ, o.data.type.toNat=m → m≠7 → o.data.type≠ospfAsNssaLsa := by
      rintro m h hm h7
      rw [h7] at h
      exact hm (h.symm.trans (by decide))
    have hopaque : ∀ m : ℕ, o.data.type.toNat=m → m≠7 → m≠2 →
        Ends (ospfOpaqueLsaRefresh ans p w) (RefreshEnd ans p o w) := by
      intro m h hm7 hm2
      rw [ospfOpaqueLsaRefresh]
      cases ans.refresher with
      | true => exact hagain ans.oi (fun h2 => absurd (h.symm.trans h2) hm2) (h7 m h hm7)
      | false => exact hflush
    simp only [bind,Except.bind,hself,Bool.not_true,Bool.false_eq_true,if_false]
    split
    · rename_i h
      exact hsweep none (fun h2 => absurd (h.symm.trans h2) (by simp)) (h7 1 h (by simp))
    · rename_i h
      rw [ospfNetworkLsaRefresh]
      cases ans.oi with
      | none => exact hstay
      | some oi => exact hsweep (some oi) (fun _ => rfl) (h7 2 h (by simp))
    · rename_i h
      exact hagain none (fun h2 => absurd (h.symm.trans h2) (by simp)) (h7 3 h (by simp))
    · rename_i h
      exact hagain none (fun h2 => absurd (h.symm.trans h2) (by simp)) (h7 4 h (by simp))
    · rename_i h
      split
      · exact hstay
      split
      · exact ospfExternalLsaRefresh_spec hw hd hp ho hself hans h
      · exact hflush
    · rename_i h
      exact hopaque 9 h (by simp) (by simp)
    · rename_i h
      exact hopaque 10 h (by simp) (by simp)
    · rename_i h
      exact hopaque 11 h (by simp) (by simp)
    · exact hstay

end

end

end RoutePlatform.LsaHeap
