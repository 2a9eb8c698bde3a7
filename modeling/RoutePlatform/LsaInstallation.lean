import RoutePlatform.LsaPlaces

/-!
# Installation of shared LSA instances

`ospf_discard_from_db` takes an instance from every list but the database, and `ospf_lsa_install`
puts the next one into its place. Flags, counters and lists stay right, and no other entry
changes.
-/

namespace RoutePlatform.LsaHeap

open LsaOperations ObjectLocks Holder

variable {k : ℕ} {S : Holder→Prop} {X : ℕ→Prop} (checksum : BitVec 16) {w w' : World} {o o' : Lsa}

/-- What is known of an entry of a database. -/
structure Entry (w : World) (b : Base) (p : ℕ) (o : Lsa) : Prop where
  /-- `lsdb` of the instance. -/
  home : o.lsdb=some b
  /-- It is the database for the type and the area. -/
  target : targetLsdb o=some b
  /-- Instances of types 5 and 7 are on the list of external LSAs. -/
  external : isExternal o=true → w.place (.externalLsas p)=some p

/-- Entries of databases know their database. -/
def Databases (w : World) : Prop :=
  ∀ b k p o, w.place (.lsdb b k)=some p → w.read p=some o → Entry w b p o

/-- The same for all entries but one. -/
def DatabasesBut (b : Base) (k : ℕ) (w : World) : Prop :=
  ∀ b' k' p o, Holder.lsdb b' k' ≠ .lsdb b k → w.place (.lsdb b' k')=some p →
    w.read p=some o → Entry w b' p o

theorem isExternal_of_core (h : o'.core=o.core) : isExternal o'=isExternal o := by
  rw [isExternal,isExternal,data_of_core h]

theorem targetLsdb_of_core (h : o'.core=o.core) : targetLsdb o'=targetLsdb o := by
  rw [targetLsdb,targetLsdb,isAsWide,isAsWide,data_of_core h,area_of_core h]

theorem Databases.of_moved (h : Databases w) (hm : Moved S X w w') (hlsdb : ∀ b k, ¬S (.lsdb b k))
    (hext : ∀ b k p, w.place (.lsdb b k)=some p → ¬S (.externalLsas p) ∧ ¬X p) : Databases w' := by
  intro b k p o' hp ho'
  rw [hm.places _ (hlsdb b k)] at hp
  obtain ⟨hS,hX⟩ := hext b k p hp
  obtain ⟨o,ho,hcore⟩ := hm.reads p o' hX ho'
  have hentry := h b k p o hp ho
  refine ⟨(lsdb_of_core hcore).trans hentry.home,
    (targetLsdb_of_core hcore).trans hentry.target,fun hx => ?_⟩
  rw [hm.places _ hS]
  exact hentry.external (isExternal_of_core hcore ▸ hx)

theorem DatabasesBut.of_moved {b : Base} (h : DatabasesBut b k w) (hm : Moved S X w w')
    (hlsdb : ∀ b' k', lsdb b' k' ≠ .lsdb b k → ¬S (.lsdb b' k'))
    (hext : ∀ b' k' p, lsdb b' k' ≠ .lsdb b k → w.place (.lsdb b' k')=some p →
      ¬S (.externalLsas p) ∧ ¬X p) : DatabasesBut b k w' := by
  intro b' k' p o' hne hp ho'
  rw [hm.places _ (hlsdb b' k' hne)] at hp
  obtain ⟨hS,hX⟩ := hext b' k' p hne hp
  obtain ⟨o,ho,hcore⟩ := hm.reads p o' hX ho'
  have hentry := h b' k' p o hne hp ho
  refine ⟨(lsdb_of_core hcore).trans hentry.home,
    (targetLsdb_of_core hcore).trans hentry.target,fun hx => ?_⟩
  rw [hm.places _ hS]
  exact hentry.external (isExternal_of_core hcore ▸ hx)

theorem Databases.slot_unique {w : World} (hw : Core w) (hd : Databases w) {b b' : Base} {k' p : ℕ}
    (hp : w.place (.lsdb b k)=some p) (hp' : w.place (.lsdb b' k')=some p) :
    lsdb b k=.lsdb b' k' := by
  obtain ⟨o,ho⟩ := hw.live hp
  have hb := Option.some.inj ((hd b k p o hp ho).home.symm.trans (hd b' k' p o hp' ho).home)
  have hk := (hw.keyed _ k p o rfl hp ho).symm.trans (hw.keyed _ k' p o rfl hp' ho)
  rw [hb,hk]

/-- Instances of the MaxAge table are entries of databases. -/
def MaxageHome (w : World) : Prop :=
  ∀ p, w.place (.maxageLsa p)=some p → ∃ b k, w.place (.lsdb b k)=some p

theorem MaxageHome.of_moved (h : MaxageHome w) (hm : Moved S X w w') (hlsdb : ∀ b k, ¬S (.lsdb b k))
    (hmax : ∀ p, ¬S (.maxageLsa p)) : MaxageHome w' := by
  intro p hp
  rw [hm.places _ (hmax p)] at hp
  obtain ⟨b,k,hb⟩ := h p hp
  exact ⟨b,k,(hm.places _ (hlsdb b k)).trans hb⟩

/-- The places that `ospf_discard_from_db` takes an instance from. -/
def discardPlaces (p : ℕ) (x : Holder) : Prop :=
  x.isRxmt=true ∨ x=.created p ∨ x=.maxageLsa p ∨ x=.refreshQueue p ∨ x=.externalLsas p

theorem not_discardPlaces_lsdb (p : ℕ) (b : Base) (k : ℕ) : ¬discardPlaces p (.lsdb b k) := by
  simp [discardPlaces,isRxmt]

variable {w : World} {p old : ℕ} {o l : Lsa} {b : Base}

/-- The part of `ospf_discard_from_db` that depends on the type. -/
theorem sweepType_spec (hw : Core w) (hold : w.place (.lsdb b k)=some old) (harea : areaOk l)
    (hext : isExternal l=true → w.place (.externalLsas old)=some old) :
    ∃ w', sweepType old l w=.ok w' ∧ Core w' ∧
      Moved (fun x => x.isRxmt=true ∨ x=.externalLsas old) (fun _ => False) w w' ∧
      (isExternal l=true → w'.place (.externalLsas old)=none) := by
  rw [sweepType]
  by_cases h5 : l.data.type=ospfAsExternalLsa
  · rw [if_pos h5]
    have hx : isExternal l=true := by simp [isExternal,h5]
    obtain ⟨w1,hok1,hw1,hm1,hp1⟩ := ospfAseUnregisterExternalLsa_spec hw (hext hx)
    obtain ⟨w',hok',hw',hm'⟩ := sweepRetransmits_spec hw1 harea (y := .lsdb b k) rfl
      ((hm1.places _ (by simp)).trans hold)
    refine ⟨w',by rw [hok1]; exact hok',hw',(hm1.trans hm').mono (fun x h => h.symm)
      (fun q h => h.elim id id),fun _ => ?_⟩
    rw [hm'.places _ (by simp [isRxmt]),hp1]
  rw [if_neg h5]
  obtain ⟨w1,hok1,hw1,hm1⟩ := sweepRetransmits_spec hw harea (y := .lsdb b k) rfl hold
  by_cases h7 : l.data.type=ospfAsNssaLsa
  · rw [if_pos h7]
    have hx : isExternal l=true := by simp [isExternal,h7]
    obtain ⟨w',hok',hw',hm',hp'⟩ := ospfAseUnregisterExternalLsa_spec hw1
      ((hm1.places _ (by simp [isRxmt])).trans (hext hx))
    exact ⟨w',by rw [hok1]; exact hok',hw',(hm1.trans hm').mono (fun x h => h)
      (fun q h => h.elim id id),fun _ => hp'⟩
  rw [if_neg h7]
  refine ⟨w1,hok1,hw1,hm1.mono (fun x h => .inl h) (fun q h => h),fun hx => ?_⟩
  simp [isExternal,h5,h7] at hx

/-- `ospf_discard_from_db` for a key that the database has an instance of. -/
theorem ospfDiscardFromDb_spec (hw : Core w) (ho : w.read p=some o)
    (hold : w.place (.lsdb b o.key)=some old) (hl : w.read old=some l)
    (hext : isExternal l=true → w.place (.externalLsas old)=some old) :
    ∃ w', ospfDiscardFromDb b p w=.ok w' ∧ Core w' ∧
      Moved (discardPlaces old) (fun _ => False) w w' ∧ w'.place (.created old)=none ∧
      w'.place (.maxageLsa old)=none ∧ w'.place (.refreshQueue old)=none ∧
      (isExternal l=true → w'.place (.externalLsas old)=none) := by
  obtain ⟨w1,hok1,hw1,hm1,hp1⟩ : ∃ w1, unregisterListed old l w=.ok w1 ∧ Core w1 ∧
      Moved (· = .refreshQueue old) (fun _ => False) w w1 ∧
      w1.place (.refreshQueue old)=none := by
    rw [unregisterListed]
    cases hr : l.refreshing with
    | true =>
      exact ospfRefresherUnregisterLsa_spec hw hl (hw.selfRefresh old l hl hr)
        (y := .lsdb b o.key) (by simp) hold
    | false => exact ⟨w,rfl,hw,Moved.refl _ _ w,place_of_not_flag hw (f := .refresh) hl hr⟩
  have hold1 := (hm1.places _ (by simp)).trans hold
  obtain ⟨w2,hok2,hw2,hm2,hp2⟩ := sweepType_spec hw1 hold1 (hw.area old l hl)
    fun hx => (hm1.places _ (by simp)).trans (hext hx)
  obtain ⟨w3,hok3,hw3,hm3,hp3⟩ := ospfLsaMaxageDelete_spec hw2 old
  have hold3 : w3.place (.lsdb b o.key)=some old := by
    rw [hm3.places _ (by simp),hm2.places _ (by simp [isRxmt]),hold1]
  obtain ⟨l3,hl3⟩ := hw3.live hold3
  obtain ⟨w',hok',hw',hm',hp'⟩ := ospfLsaDiscard_spec hw3 hl3
  refine ⟨w',?_,hw',(((hm1.trans hm2).trans hm3).trans hm').mono (fun x h => ?_)
    (fun q h => ?_),hp',?_,?_,fun hx => ?_⟩
  · rw [ospfDiscardFromDb,get_of_read ho]
    simp only [bind,Except.bind,hold,get_of_read hl,hok1,hok2,hok3]
    exact hok'
  · rcases h with ((h|h|h)|h)|h
    · exact .inr (.inr (.inr (.inl h)))
    · exact .inl h
    · exact .inr (.inr (.inr (.inr h)))
    · exact .inr (.inr (.inl h))
    · exact .inr (.inl h)
  · exact (((h.elim (fun h => h.elim (fun h => h.elim id id) id) id)) : False)
  · rw [hm'.places _ (by simp),hp3]
  · rw [hm'.places _ (by simp),hm3.places _ (by simp),hm2.places _ (by simp [isRxmt]),hp1]
  · rw [hm'.places _ (by simp),hm3.places _ (by simp),hp2 hx]

/-- A write that keeps the key, the flags and the counter keeps the
invariant. -/
theorem Core.write (hw : Core w) (ho : w.read p=some o) (f : Lsa → Lsa)
    (hkey : (f o).key=o.key) (hflags : ∀ g : Flag, g.get (f o)=g.get o)
    (hctr : (f o).retransmitCounter=o.retransmitCounter)
    (hself : o.self=true → (f o).self=true)
    (hprem : (f o).prematureAge=true → (f o).data.lsSeqnum=ospfMaxSequenceNumber ∧
      (f o).data.lsAge=BitVec.ofNat 16 ospfLsaMaxage)
    (harea : areaOk (f o))
    (hext : w.place (.externalLsas p)=some p → (f o).lsdb.isSome) :
    ∃ w', modifyLsa p f w=.ok w' ∧ Core w' ∧ Moved (fun _ => False) (· = p) w w' ∧
      w'.read p=some (f o) := by
  obtain ⟨w',hok,hs,hpl,hread,hrs⟩ := exists_modify hw.sound ho f
  have hnbrs : w'.nbrs=w.nbrs := (congrArg (fun v : World => v.nbrs) hrs :)
  have hhere : w'.read p=some (f o) := by rw [hread,Function.update_self]
  have hoth : ∀ q, q≠p → w'.read q=w.read q := fun q hq => by rw [hread,Function.update_of_ne hq]
  -- every field of the invariant is looked at for `p` and for the other instances
  have hcase : Reads w w' p (f o) := reads_of_update (fun q o' ho' => hread ▸ ho') fun _ _ h => h
  refine ⟨w',hok,⟨hs,fun x q r hx hq => ?_,fun x k q o' hx hq ho' => ?_,
    fun g q o' ho' => ?_,fun q o' ho' hr => ?_,fun q o' ho' => ?_,hnbrs ▸ hw.nodup,
    fun n k q hq => ?_,fun q o' ho' hq => ?_,fun q o' ho' => ?_,fun q o' hq ho' => ?_⟩,
    ⟨fun x _ => by rw [hpl],fun q o' hq ho' => ⟨o',(hoth q hq).symm.trans ho',rfl⟩,hrs⟩,
    hhere⟩
  · rw [hpl] at hq
    exact hw.named x q r hx hq
  · rw [hpl] at hq
    rcases hcase q o' ho' with ⟨rfl,rfl⟩|⟨-,hold⟩
    · rw [hkey]
      exact hw.keyed x k q o hx hq ho
    · exact hw.keyed x k q o' hx hq hold
  · rw [hpl]
    rcases hcase q o' ho' with ⟨rfl,rfl⟩|⟨-,hold⟩
    · rw [hflags]
      exact hw.listed g q o ho
    · exact hw.listed g q o' hold
  · rcases hcase q o' ho' with ⟨rfl,rfl⟩|⟨-,hold⟩
    · exact hself (hw.selfRefresh q o ho ((hflags .refresh).symm.trans hr))
    · exact hw.selfRefresh q o' hold hr
  · rw [number_congr hnbrs fun n k => by rw [hpl]]
    rcases hcase q o' ho' with ⟨rfl,rfl⟩|⟨-,hold⟩
    · rw [hctr,hkey]
      exact hw.counter q o ho
    · exact hw.counter q o' hold
  · rw [hpl] at hq
    rw [hnbrs]
    exact hw.strangers n k q hq
  · rcases hcase q o' ho' with ⟨rfl,rfl⟩|⟨-,hold⟩
    · exact hprem hq
    · exact hw.premature q o' hold hq
  · rcases hcase q o' ho' with ⟨rfl,rfl⟩|⟨-,hold⟩
    · exact harea
    · exact hw.area q o' hold
  rw [hpl] at hq
  rcases hcase q o' ho' with ⟨rfl,rfl⟩|⟨-,hold⟩
  · exact hext hq
  · exact hw.external q o' hq hold

theorem isExternal_iff (o : Lsa) :
    isExternal o=true ↔ o.data.type.toNat=5 ∨ o.data.type.toNat=7 := by
  simp [isExternal,ospfAsExternalLsa,ospfAsNssaLsa,←BitVec.toNat_inj]

theorem isAsWide_iff (o : Lsa) : isAsWide o=true ↔ o.data.type.toNat=5 ∨ o.data.type.toNat=11 := by
  simp [isAsWide,ospfAsExternalLsa,ospfOpaqueAsLsa,←BitVec.toNat_inj]

theorem Databases.of_but (hd : DatabasesBut b k w)
    (hentry : ∀ p o, w.place (.lsdb b k)=some p → w.read p=some o → Entry w b p o) :
    Databases w := by
  intro b' k' q l hq hl
  by_cases hne : lsdb b' k'=.lsdb b k
  · injection hne with hb hk
    rw [hb,hk] at hq
    rw [hb]
    exact hentry q l hq hl
  · exact hd b' k' q l hne hq hl

/-- Operations on pointers and on the lists of an instance itself. -/
def selfPlaces (p : ℕ) (x : Holder) : Prop := x.isPointer=true ∨ x=.refreshQueue p

theorem not_selfPlaces_lsdb (p : ℕ) (b : Base) (k : ℕ) : ¬selfPlaces p (.lsdb b k) := by
  simp [selfPlaces,isPointer]

theorem not_selfPlaces_external (p q : ℕ) : ¬selfPlaces p (.externalLsas q) := by
  simp [selfPlaces,isPointer]

theorem selfPlaces_isLsdb {x : Holder} (h : selfPlaces p x) : x.isLsdb=false := by
  rcases h with h|h
  · cases x <;> first | rfl | exact absurd h (by simp [isPointer])
  rw [h]
  rfl

theorem not_selfPlaces_maxage (p q : ℕ) : ¬selfPlaces p (.maxageLsa q) := by
  simp [selfPlaces,isPointer]

theorem pointAndRegister_spec (hw : Core w) {x : Holder} (hx : x.isPointer=true)
    (hp : w.place (.lsdb b k)=some p) (hself : ∀ o, w.read p=some o → o.self=true) :
    Moves (selfPlaces p) (replaceSelf x p w >>= ospfRefresherRegisterLsa p) w := by
  have hne : lsdb b k≠x := by
    rintro rfl
    exact absurd hx (by simp [isPointer])
  obtain ⟨w1,hok1,hw1,hm1,-⟩ := replaceSelf_spec hw hx hne hp
  obtain ⟨o,ho⟩ := hw.live hp
  obtain ⟨o1,ho1,hcore1⟩ := hm1.live hw1 hne (fun h => h) hp ho
  obtain ⟨w',hok',hw',hm',-⟩ := ospfRefresherRegisterLsa_spec hw1 ho1
    ((self_of_core hcore1).trans (hself o ho))
  refine ⟨w',by rw [hok1]; exact hok',hw',(hm1.trans hm').mono (fun y h => ?_)
    fun q h => h.elim id id⟩
  rcases h with h|h
  · exact .inl (h ▸ hx)
  · exact .inr h

theorem registerSelf_spec (hw : Core w) (hp : w.place (.lsdb b k)=some p)
    (hself : ∀ o, w.read p=some o → o.self=true) :
    Moves (selfPlaces p) (ospfRefresherRegisterLsa p w) w := by
  obtain ⟨o,ho⟩ := hw.live hp
  obtain ⟨w',hok,hw',hm,-⟩ := ospfRefresherRegisterLsa_spec hw ho (hself o ho)
  exact ⟨w',hok,hw',hm.mono (fun x h => .inr h) fun q h => h⟩

theorem ospfOpaqueLsaInstall_spec (hw : Core w) (entry : OpaqueEntry)
    (hp : w.place (.lsdb b k)=some p) (hself : o.self=true → ∀ o, w.read p=some o → o.self=true) :
    ∃ r, ospfOpaqueLsaInstall entry p o w=.ok r ∧ Core r.1 ∧
      Moved (selfPlaces p) (fun _ => False) w r.1 := by
  simp only [ospfOpaqueLsaInstall]
  cases hs : o.self with
  | false => exact ⟨(w,true),rfl,hw,Moved.refl _ _ w⟩
  | true =>
    cases entry with
    | refused => exact ⟨(w,false),rfl,hw,Moved.refl _ _ w⟩
    | entered i top =>
      cases top with
      | false =>
        obtain ⟨w',hok,hw',hm,-⟩ := replaceSelf_spec hw (x := .opaqueInfo i)
          (y := .lsdb b k) rfl (by simp) hp
        refine ⟨(w',false),?_,hw',hm.mono (fun x h => .inl (h ▸ rfl)) fun q h => h⟩
        simp [bind,Except.bind,pure,Except.pure,hok]
      | true =>
        obtain ⟨w',hok,hw',hm⟩ := pointAndRegister_spec hw (x := .opaqueInfo i) rfl hp (hself hs)
        refine ⟨(w',true),?_,hw',hm⟩
        simp only [bind,Except.bind] at hok
        simp only [bind,Except.bind,pure,Except.pure,Bool.not_true,Bool.false_eq_true,
          if_false,if_true]
        cases hr : replaceSelf (.opaqueInfo i) p w with
        | error e =>
          rw [hr] at hok
          exact absurd hok nofun
        | ok v =>
          rw [hr] at hok
          dsimp only at hok ⊢
          rw [hok]

/-- An operation ends with a property, unless an assertion fails. -/
def Ends {γ : Type} (r : Except Fault γ) (Q : γ→Prop) : Prop :=
  r=.error .aborted ∨ ∃ c, r=.ok c ∧ Q c

theorem Ends.bind {γ δ : Type} {r : Except Fault γ} {f : γ→Except Fault δ} {Q : γ→Prop}
    {R : δ → Prop} (h : Ends r Q) (hf : ∀ c, Q c → Ends (f c) R) : Ends (r >>= f) R := by
  rcases h with h|⟨c,h,hc⟩
  · exact .inl (by rw [h]; rfl)
  rw [h]
  exact hf c hc

/-- Flags, counters and entries stay right, and certain places and instances change. -/
structure Kept (T : Holder→Prop) (Y : ℕ→Prop) (w w' : World) : Prop where
  core : Core w'
  databases : Databases w'
  maxage : MaxageHome w → MaxageHome w'
  moved : Moved T Y w w'

/-- What a refresh of a translation does when it is called in a world. -/
def TranslateOk (translate : World→Except Fault World) (T : Holder→Prop) (Y : ℕ→Prop)
    (w : World) : Prop :=
  Core w → Databases w → Ends (translate w) (Kept T Y w)

section

variable {k : ℕ} {o' : Lsa} {T : Holder→Prop} {Y : ℕ→Prop} {g : World→Except Fault World}

section

variable (hw : Core w) (hd : DatabasesBut b k w) (hp : w.place (.lsdb b k)=some p)
  (ho : w.read p=some o')
include hw hd hp ho

theorem ospfExternalLsaInstall_spec (hself : o'.self=o.self)
    (hhome : o'.lsdb=some b) (htarget : targetLsdb o'=some b)
      (hemp : w.place (.externalLsas p)=none)
    (ht : o.data.type=ospfAsNssaLsa → ∀ w', Moved (· = .externalLsas p) (fun _ => False) w w' →
      TranslateOk g T Y w') :
    Ends (ospfExternalLsaInstall g p o w) (Kept (fun x => x.isLsdb=false ∨ T x) Y w) := by
  obtain ⟨w1,hok1,hw1,hm1,hp1⟩ := ospfAseRegisterExternalLsa_spec hw ho hemp (by rw [hhome]; rfl)
  have hlsdb1 := (hm1.places _ (by simp)).trans hp
  obtain ⟨o1,ho1,hcore1⟩ := hm1.live hw1 (x := .lsdb b k) (by simp) (fun h => h) hp ho
  have hentry : ∀ q l, w1.place (.lsdb b k)=some q → w1.read q=some l → Entry w1 b q l := by
    intro q l hq hl
    have hqp := Option.some.inj (hq.symm.trans hlsdb1)
    rw [hqp,ho1] at hl
    rw [hqp]
    exact ⟨by rw [←Option.some.inj hl,lsdb_of_core hcore1,hhome],
      by rw [←Option.some.inj hl,targetLsdb_of_core hcore1,htarget],fun _ => hp1⟩
  -- the instance may leave other entries alone only if it is not one of them
  have hbut : DatabasesBut b k w1 := by
    intro b' k' q l hne hq hl
    rw [hm1.places _ (by simp)] at hq
    obtain ⟨l0,hl0,hcore⟩ := hm1.reads q l (fun h => h) hl
    have hold := hd b' k' q l0 hne hq hl0
    refine ⟨(lsdb_of_core hcore).trans hold.home,(targetLsdb_of_core hcore).trans hold.target,
      fun hx => ?_⟩
    by_cases hqp : q=p
    · rw [hqp]
      exact hp1
    rw [hm1.places _ (by simp [hqp])]
    exact hold.external (isExternal_of_core hcore ▸ hx)
  have hd1 := Databases.of_but hbut hentry
  have hmax1 : MaxageHome w → MaxageHome w1 := fun h => h.of_moved hm1 (by simp) (by simp)
  rw [ospfExternalLsaInstall,hok1]
  simp only [bind,Except.bind]
  by_cases h7 : o.data.type=ospfAsNssaLsa
  · rw [if_pos h7]
    cases hs : o.self with
    | true =>
      exact .inr ⟨w1,rfl,hw1,hd1,hmax1,hm1.mono (fun x h => .inl (h ▸ rfl)) fun q h => h.elim⟩
    | false =>
      rcases ht h7 w1 hm1 hw1 hd1 with habort|⟨w',hok',hw',hd',hmax',hm'⟩
      · exact .inl habort
      refine .inr ⟨w',hok',hw',hd',fun h => hmax' (hmax1 h),
        (hm1.trans hm').mono (fun x h => ?_) fun q h => h.elim False.elim id⟩
      rcases h with h|h
      · rw [h]
        exact .inl rfl
      · exact .inr h
  · rw [if_neg h7]
    cases hs : o.self && !o.localXlt with
    | false =>
      exact .inr ⟨w1,rfl,hw1,hd1,hmax1,hm1.mono (fun x h => .inl (h ▸ rfl)) fun q h => h.elim⟩
    | true =>
      have hos : o.self=true := (Bool.and_eq_true_iff.mp hs).1
      obtain ⟨w',hok',hw',hm'⟩ := registerSelf_spec hw1 hlsdb1 fun l hl => by
        rw [ho1] at hl
        rw [←Option.some.inj hl,self_of_core hcore1,hself,hos]
      refine .inr ⟨w',hok',hw',?_,fun h => (hmax1 h).of_moved hm' (not_selfPlaces_lsdb p)
        (not_selfPlaces_maxage p),(hm1.trans hm').mono (fun x h => .inl ?_)
        fun q h => (h.elim id id).elim⟩
      · exact hd1.of_moved hm' (not_selfPlaces_lsdb p)
          fun _ _ q _ => ⟨not_selfPlaces_external p q,fun h => h⟩
      rcases h with h|h
      · rw [h]
        rfl
      · exact selfPlaces_isLsdb h

/-- The installation of an instance that is in its database by now. -/
theorem installType_spec
    (hdata : o'.data.type=o.data.type) (hself : o'.self=o.self) (harea : areaOk o)
    (hhome : o'.lsdb=some b) (htarget : targetLsdb o'=some b)
      (hemp : w.place (.externalLsas p)=none) {a : InstallAnswer}
    (hoi : o.data.type.toNat=2 → a.oi.isSome)
    (ht : o.data.type=ospfAsNssaLsa → ∀ w', Moved (· = .externalLsas p) (fun _ => False) w w' →
      TranslateOk g T Y w') :
    Ends (installType g a p o w) fun r => Kept (fun x => x.isLsdb=false ∨ T x) Y w r.1 := by
  -- the types that are not on the list of external LSAs
  have hplain : ∀ r : Except Fault (World × Bool), ¬isExternal o=true →
      (∃ v, r=.ok v ∧ Core v.1 ∧ Moved (selfPlaces p) (fun _ => False) w v.1) →
      Ends r fun v => Kept (fun x => x.isLsdb=false ∨ T x) Y w v.1 := by
    rintro r hx ⟨v,hok,hv,hm⟩
    have hdb := Databases.of_but hd fun q l hq hl => by
      have hqp := Option.some.inj (hq.symm.trans hp)
      rw [hqp,ho] at hl
      have hl' := Option.some.inj hl
      refine ⟨hl' ▸ hhome,hl' ▸ htarget,fun hxl => absurd ?_ hx⟩
      rw [isExternal,←hdata,hl']
      exact hxl
    refine .inr ⟨v,hok,hv,hdb.of_moved hm (not_selfPlaces_lsdb p)
      fun _ _ q _ => ⟨not_selfPlaces_external p q,fun h => h⟩,
      fun h => h.of_moved hm (not_selfPlaces_lsdb p) (not_selfPlaces_maxage p),
      hm.mono (fun x h => .inl (selfPlaces_isLsdb h)) fun q h => h.elim⟩
  have hselfp : o.self=true → ∀ l, w.read p=some l → l.self=true := by
    intro hs l hl
    rw [ho] at hl
    rw [←Option.some.inj hl,hself,hs]
  have hstay : ∃ v : World × Bool, (.ok (w,true) : Except Fault (World × Bool))=.ok v ∧
      Core v.1 ∧ Moved (selfPlaces p) (fun _ => False) w v.1 := ⟨(w,true),rfl,hw,Moved.refl _ _ w⟩
  have hpoint : ∀ x : Holder, x.isPointer=true → o.self=true →
      ∃ v : World × Bool, (replaceSelf x p w >>= fun w => ospfRefresherRegisterLsa p w >>=
        fun w => pure (w,true))=.ok v ∧ Core v.1 ∧
        Moved (selfPlaces p) (fun _ => False) w v.1 := by
    intro x hx hs
    obtain ⟨w',hok,hw',hm⟩ := pointAndRegister_spec hw hx hp (hselfp hs)
    refine ⟨(w',true),?_,hw',hm⟩
    rw [←bind_assoc]
    rw [hok]
    rfl
  have hregister : o.self=true →
      ∃ v : World × Bool, (ospfRefresherRegisterLsa p w >>= fun w => pure (w,true))=.ok v ∧
        Core v.1 ∧ Moved (selfPlaces p) (fun _ => False) w v.1 := by
    intro hs
    obtain ⟨w',hok,hw',hm⟩ := registerSelf_spec hw hp (hselfp hs)
    exact ⟨(w',true),by rw [hok]; rfl,hw',hm⟩
  have hexternal : Ends (ospfExternalLsaInstall g p o w >>= fun w => pure (w,true))
      fun v => Kept (fun x => x.isLsdb=false ∨ T x) Y w v.1 :=
    (ospfExternalLsaInstall_spec hw hd hp ho hself hhome htarget hemp ht).bind
      fun v hv => .inr ⟨(v,true),rfl,hv⟩
  rw [installType]
  split
  · refine hplain _ (by rw [isExternal_iff]; omega) ?_
    split
    · rename_i hs
      obtain ⟨a,ha⟩ := Option.isSome_iff_exists.mp
        (harea.resolve_left (by rw [isAsWide_iff]; omega))
      rw [ha]
      exact hpoint _ rfl (Bool.and_eq_true_iff.mp hs).1
    · exact hstay
  · rename_i h
    refine hplain _ (by rw [isExternal_iff]; omega) ?_
    obtain ⟨oi,hoi'⟩ := Option.isSome_iff_exists.mp (hoi h)
    rw [hoi']
    dsimp only
    split
    · rename_i hs
      exact hpoint _ rfl (Bool.and_eq_true_iff.mp hs).1
    · exact hstay
  case h_3 | h_4 =>
    refine hplain _ (by rw [isExternal_iff]; omega) ?_
    split
    · rename_i hs
      exact hregister hs
    · exact hstay
  case h_5 | h_6 => exact hexternal
  case h_7 | h_8 | h_9 =>
    exact hplain _ (by rw [isExternal_iff]; omega) (ospfOpaqueLsaInstall_spec hw a.entry hp hselfp)
  · rename_i h1 h2 h3 h4 h5 h7 h9 h10 h11
    refine hplain _ (by rw [isExternal_iff]; exact fun h => h.elim h5 h7) ?_
    exact ⟨(w,false),rfl,hw,Moved.refl _ _ w⟩

end

end

/-- What is left after the old instance of a key has been discarded. -/
structure OldGone (b : Base) (k : ℕ) (w w' : World) : Prop where
  core : Core w'
  but : DatabasesBut b k w'
  moved : Moved (fun x => x.isLsdb=false) (fun _ => False) w w'
  /-- Only places of the old instance have changed, but for retransmissions. -/
  places : ∀ q, w.place (.lsdb b k)≠some q → w'.place (.created q)=w.place (.created q) ∧
    w'.place (.externalLsas q)=w.place (.externalLsas q)
  /-- The MaxAge table has entries of other keys only, if it was right. -/
  maxage : MaxageHome w → ∀ q, w'.place (.maxageLsa q)=some q →
    ∃ b' k', w'.place (.lsdb b' k')=some q ∧ Holder.lsdb b' k' ≠ .lsdb b k

theorem discardOld_spec (hw : Core w) (hd : Databases w) (ho : w.read p=some o) :
    ∃ w', discardOld b p o w=.ok w' ∧ OldGone b o.key w w' := by
  rw [discardOld]
  cases hold : w.place (.lsdb b o.key) with
  | none =>
    refine ⟨w,rfl,hw,fun b' k' q l _ => hd b' k' q l,Moved.refl _ _ w,
      fun q _ => ⟨rfl,rfl⟩,fun hmax q hq => ?_⟩
    obtain ⟨b',k',hhome⟩ := hmax q hq
    refine ⟨b',k',hhome,fun h => ?_⟩
    rw [h,hold] at hhome
    cases hhome
  | some old =>
    obtain ⟨l,hl⟩ := hw.live hold
    obtain ⟨w',hok,hw',hm,-,hmaxold,-,-⟩ := ospfDiscardFromDb_spec hw ho hold hl
      fun hx => (hd _ _ old l hold hl).external hx
    have hlsdb : ∀ b' k', w'.place (.lsdb b' k')=w.place (.lsdb b' k') :=
      fun b' k' => hm.places _ (not_discardPlaces_lsdb old b' k')
    refine ⟨w',by rw [Option.isSome_some,if_pos rfl,hok],hw',?_,?_,?_,?_⟩
    · refine DatabasesBut.of_moved (fun b' k' q l _ => hd b' k' q l) hm
        (fun b' k' _ => not_discardPlaces_lsdb old b' k') fun b' k' q hne hq => ⟨?_,fun h => h⟩
      intro hpl
      have hqold : q=old := by simpa [discardPlaces,isRxmt] using hpl
      rw [hqold] at hq
      exact hne (hd.slot_unique hw hq hold)
    · refine hm.mono (fun x h => ?_) fun q h => h
      cases x with
      | lsdb b' k' => exact absurd h (not_discardPlaces_lsdb old b' k')
      | _ => rfl
    · intro q hq
      have hne : q≠old := fun h => hq (by rw [h,hold])
      exact ⟨hm.places _ (by simp [discardPlaces,isRxmt,hne]),
        hm.places _ (by simp [discardPlaces,isRxmt,hne])⟩
    intro hmax q hq
    have hne : q≠old := by
      rintro rfl
      rw [hmaxold] at hq
      cases hq
    rw [hm.places _ (by simp [discardPlaces,isRxmt,hne])] at hq
    obtain ⟨b',k',hhome⟩ := hmax q hq
    refine ⟨b',k',(hlsdb b' k').trans hhome,fun h => ?_⟩
    rw [h,hold] at hhome
    exact hne (Option.some.inj hhome).symm

/-- The checksum of a self-originated instance. -/
def checksummed (checksum : BitVec 16) (o : Lsa) : Lsa :=
  if o.self then {o with data := {o.data with checksum}} else o

/-- An instance that has entered a database. -/
def enteredLsa (checksum : BitVec 16) (b : Base) (o : Lsa) : Lsa :=
  {checksummed checksum o with lsdb := some b}

theorem checksummed_key (o : Lsa) : (checksummed checksum o).key=o.key := by
  rw [checksummed]
  split <;> rfl

theorem checksummed_type (o : Lsa) : (checksummed checksum o).data.type=o.data.type := by
  rw [checksummed]
  split <;> rfl

theorem checksummed_self (o : Lsa) : (checksummed checksum o).self=o.self := by
  rw [checksummed]
  split <;> rfl

theorem writeChecksum_spec (hw : Core w) (ho : w.read p=some o) (checksum : BitVec 16) :
    ∃ w', writeChecksum checksum p o w=.ok w' ∧ Core w' ∧
      Moved (fun _ => False) (· = p) w w' ∧ w'.read p=some (checksummed checksum o) := by
  rw [writeChecksum,checksummed]
  by_cases hs : o.self=true
  · rw [if_pos hs,if_pos hs]
    exact hw.write ho (fun o => {o with data := {o.data with checksum}}) rfl
      (fun g => by cases g <;> rfl) rfl (fun h => h) (hw.premature p o ho) (hw.area p o ho)
      fun hx => hw.external p o hx ho
  rw [if_neg hs,if_neg hs]
  exact ⟨w,rfl,hw,Moved.refl _ _ w,ho⟩

/-- The state in which the installation for the type begins. -/
structure Placed (b : Base) (k p : ℕ) (w w' : World) : Prop where
  core : Core w'
  but : DatabasesBut b k w'
  entered : w'.place (.lsdb b k)=some p
  /-- It is not on the list of external LSAs yet. -/
  unlisted : w'.place (.externalLsas p)=none
  moved : Moved (fun x => x.isLsdb=false ∨ x=.lsdb b k) (· = p) w w'
  maxage : MaxageHome w → MaxageHome w'

/-- The new instance takes the place of the old one. -/
theorem placeLsa_spec (hw : Core w) (hd : Databases w) (ho : w.read p=some o)
    (hfresh : o.lsdb=none) (hcreated : w.place (.created p)=some p) (checksum : BitVec 16)
    (b : Base) :
    ∃ w1 w2 w3 w4, discardOld b p o w=.ok w1 ∧ writeChecksum checksum p o w1=.ok w2 ∧
      ospfLsdbAdd (.lsdb b) p w2=.ok w3 ∧
      modifyLsa p (fun o => {o with lsdb := some b}) w3=.ok w4 ∧
      Placed b o.key p w w4 ∧
      ∃ o4, w4.read p=some o4 ∧ o4.core=(enteredLsa checksum b o).core := by
  -- the instance is no entry yet
  have hnoentry : ∀ b' k', w.place (.lsdb b' k')≠some p := by
    intro b' k' hp
    rw [(hd b' k' p o hp ho).home] at hfresh
    cases hfresh
  have hunlisted : w.place (.externalLsas p)=none := by
    cases hx : w.place (.externalLsas p) with
    | none => rfl
    | some q =>
      have hq := hw.named _ q p rfl hx
      have hsome := hw.external p o (hx.trans (congrArg some hq)) ho
      rw [hfresh] at hsome
      cases hsome
  obtain ⟨w1,hok1,h₁⟩ := discardOld_spec (b := b) hw hd ho
  obtain ⟨hcreated1,hext1⟩ := h₁.places p (hnoentry b o.key)
  rw [hcreated] at hcreated1
  rw [hunlisted] at hext1
  -- flags and counter of the instance may have changed with the retransmission lists
  obtain ⟨o1,ho1⟩ := h₁.core.live hcreated1
  obtain ⟨o0,ho0,hcore1⟩ := h₁.moved.reads p o1 (fun h => h) ho1
  have hsame := Option.some.inj (ho0.symm.trans ho)
  rw [hsame] at hcore1
  have hself1 := self_of_core hcore1
  have hkey1 := key_of_core hcore1
  obtain ⟨w2,hok2,hw2,hm2,ho2⟩ := writeChecksum_spec h₁.core ho1 checksum
  have hok2' : writeChecksum checksum p o w1=.ok w2 := by
    rw [←hok2,writeChecksum,writeChecksum,hself1]
  have hkey2 := (checksummed_key checksum o1).trans hkey1
  have hcreated2 := (hm2.places _ (fun h => h)).trans hcreated1
  obtain ⟨w3,hok3,hw3,hm3,hp3⟩ := ospfLsdbAdd_spec hw2 (b := b) ho2 (y := .created p)
    (by simp) hcreated2
  rw [hkey2] at hm3 hp3
  obtain ⟨o3,ho3,hcore3⟩ := hm3.live hw3 (x := .created p) (by simp) (fun h => h) hcreated2 ho2
  obtain ⟨w4,hok4,hw4,hm4,ho4⟩ := hw3.write ho3 (fun o => {o with lsdb := some b}) rfl
    (fun g => by cases g <;> rfl) rfl (fun h => h) (hw3.premature p o3 ho3) (hw3.area p o3 ho3)
    fun _ => rfl
  have hm :=
    ((hm2.trans hm3).trans hm4).mono (fun x h => by simpa using h) fun q h => by simpa using h
  refine ⟨w1,w2,w3,w4,hok1,hok2',hok3,hok4,⟨hw4,?_,?_,?_,?_,?_⟩,_,ho4,?_⟩
  · refine h₁.but.of_moved hm (fun _ _ hne h => hne h) fun b' k' q hne hq => ⟨by simp,?_⟩
    rintro rfl
    rw [h₁.moved.places _ (by simp [isLsdb])] at hq
    exact hnoentry b' k' hq
  · exact (hm4.places _ (fun h => h)).trans hp3
  · exact (hm.places _ (by simp)).trans hext1
  · exact (h₁.moved.trans hm).mono (fun x h => h) fun q h => h.elim False.elim id
  · intro hmax q hq
    by_cases hqp : q=p
    · exact ⟨b,o.key,hqp ▸ (hm4.places _ (fun h => h)).trans hp3⟩
    rw [hm.places _ (by simp)] at hq
    obtain ⟨b',k',hhome,hne⟩ := h₁.maxage hmax q hq
    exact ⟨b',k',(hm.places _ hne).trans hhome⟩
  have hcheck : (checksummed checksum o1).core=(checksummed checksum o).core := by
    rw [checksummed,checksummed,hself1]
    have hdata := data_of_core hcore1
    split
    · rw [Lsa.core,Lsa.core] at hcore1 ⊢
      simp only [Lsa.mk.injEq,OspfLsa.mk.injEq] at hcore1 ⊢
      simp [hdata,hcore1]
    · exact hcore1
  have hsub := hcore3.trans hcheck
  rw [enteredLsa,Lsa.core,Lsa.core]
  rw [Lsa.core,Lsa.core] at hsub
  simp only [Lsa.mk.injEq,OspfLsa.mk.injEq] at hsub ⊢
  simp [hsub]

end RoutePlatform.LsaHeap
