import RoutePlatform.LsaInstallation

/-!
# Refreshing shared LSA instances

The installation and the refresh of an LSA as whole operations. They come to
their end, unless an assertion of the program fails, keep flags, counters and
entries right, and change the entry of one key at most; there the database has
the new instance afterwards.
-/

namespace RoutePlatform.LsaHeap

open LsaOperations ObjectLocks Function Option

variable {w : World} {p : ℕ} {o : Lsa} {b : Base} {x : Holder} {w' : World} {T T' : Holder→Prop}
  {Y Y' : ℕ→Prop} {k : ℕ}

theorem Kept.refl (hw : Core w) (hd : Databases w) (T : Holder→Prop) (Y : ℕ→Prop) : Kept T Y w w :=
  ⟨hw,hd,id,Moved.refl T Y w⟩

theorem Kept.trans {w'' : World} (h : Kept T Y w w') (h' : Kept T' Y' w' w'') :
    Kept (fun x => T x ∨ T' x) (fun q => Y q ∨ Y' q) w w'' :=
  ⟨h'.core,h'.databases,fun hm => h'.maxage (h.maxage hm),h.moved.trans h'.moved⟩

theorem Kept.mono (h : Kept T Y w w') (hT : ∀ x, T x → T' x) (hY : ∀ q, Y q → Y' q) :
    Kept T' Y' w w' :=
  ⟨h.core,h.databases,h.maxage,h.moved.mono hT hY⟩

theorem Kept.of_moved {S : Holder→Prop} (hd : Databases w) (hw' : Core w')
    (hm : Moved S (fun _ => False) w w') (hlsdb : ∀ b k, ¬S (.lsdb b k))
    (hext : ∀ q, ¬S (.externalLsas q)) (hmax : ∀ q, ¬S (.maxageLsa q)) :
    Kept S (fun _ => False) w w' :=
  ⟨hw',hd.of_moved hm hlsdb fun _ _ q _ => ⟨hext q,fun h => h⟩,
    fun h => h.of_moved hm hlsdb hmax,hm⟩

theorem isLsdb_of_isRxmt (h : x.isRxmt=true) : x.isLsdb=false := by
  cases x <;> first | rfl | exact absurd h (by simp [Holder.isRxmt])

theorem Kept.of_rxmt (hd : Databases w) (hw' : Core w')
    (hm : Moved (fun x => x.isRxmt=true) (fun _ => False) w w') :
    Kept (fun x => x.isLsdb=false) (fun _ => False) w w' :=
  (Kept.of_moved hd hw' hm (by simp [Holder.isRxmt]) (by simp [Holder.isRxmt])
    (by simp [Holder.isRxmt])).mono (fun x h => isLsdb_of_isRxmt h) fun _ h => h

theorem Kept.of_place (hd : Databases w) (hw' : Core w') (hm : Moved (· = x) (fun _ => False) w w')
    (hlsdb : x.isLsdb=false) (hext : ∀ q, x ≠ .externalLsas q) (hmax : ∀ q, x ≠ .maxageLsa q) :
    Kept (fun x => x.isLsdb=false) (fun _ => False) w w' := by
  refine (Kept.of_moved hd hw' hm (fun b k h => ?_) (fun q h => hext q h.symm)
    fun q h => hmax q h.symm).mono (fun y h => h ▸ hlsdb) fun _ h => h
  rw [←h] at hlsdb
  exact absurd hlsdb (by simp [Holder.isLsdb])

theorem Kept.of_maxage (hd : Databases w) (hw' : Core w')
    (hm : Moved (· = .maxageLsa p) (fun _ => False) w w') (hp : w.place (.lsdb b k)=some p) :
    Kept (fun x => x.isLsdb=false) (fun _ => False) w w' := by
  refine ⟨hw',hd.of_moved hm (by simp) fun _ _ q _ => ⟨by simp,fun h => h⟩,fun hmax => ?_,
    hm.mono (fun x h => h ▸ rfl) fun _ h => h⟩
  intro q hq
  by_cases hqp : q=p
  · exact ⟨b,k,hqp ▸ (hm.places _ (by simp)).trans hp⟩
  rw [hm.places _ (by simp [hqp])] at hq
  obtain ⟨b',k',hhome⟩ := hmax q hq
  exact ⟨b',k',(hm.places _ (by simp)).trans hhome⟩

/-- An instance that has entered its database. -/
structure Entered (checksum : BitVec 16) (b : Base) (o : Lsa) (p : ℕ) (w' : World) : Prop where
  entered : w'.place (.lsdb b o.key)=some p
  body : ∃ o', w'.read p=some o' ∧ o'.core=(enteredLsa checksum b o).core

section

variable {T : Holder→Prop} {Y : ℕ→Prop} {g : World→Except Fault World} {a : InstallAnswer}

theorem enterMaxage_spec (hw : Core w) (hd : Databases w) (hp : w.place (.lsdb b k)=some p) :
    ∃ w', enterMaxage p w=.ok w' ∧ Kept (fun x => x.isLsdb=false) (fun _ => False) w w' := by
  obtain ⟨o,ho⟩ := hw.live hp
  rw [enterMaxage,get_of_read ho]
  simp only [bind,Except.bind]
  split
  · obtain ⟨w',hok,hw',hm,-⟩ := lsaMaxage_spec hw ho
    exact ⟨w',hok,Kept.of_maxage hd hw' hm hp⟩
  · exact ⟨w,rfl,Kept.refl hw hd _ _⟩

theorem enterLsa_spec (hw : Core w) (hd : Databases w) (ho : w.read p=some o)
    (hfresh : o.lsdb=none) (hcreated : w.place (.created p)=some p)
    (hb : targetLsdb o=some b) (hoi : o.data.type.toNat=2 → a.oi.isSome)
    (ht : o.data.type=ospfAsNssaLsa → ∀ w',
      Moved (fun x => x.isLsdb=false ∨ x=.lsdb b o.key) (· = p) w w' →
      TranslateOk g T Y w') (hT : ¬T (.lsdb b o.key)) (hY : ¬Y p) :
    Ends (enterLsa g a b p w) fun w' =>
      Kept (fun x => x.isLsdb=false ∨ x=.lsdb b o.key ∨ T x) (fun q => q=p ∨ Y q) w w' ∧
      Entered a.checksum b o p w' := by
  obtain ⟨w1,w2,w3,w4,hok1,hok2,hok3,hok4,hplaced,o4,ho4,hcore4⟩ :=
    placeLsa_spec hw hd ho hfresh hcreated a.checksum b
  have hdata4 : o4.data.type=o.data.type := by
    rw [data_of_core hcore4]
    exact checksummed_type a.checksum o
  have hself4 := (self_of_core hcore4).trans (checksummed_self a.checksum o)
  have htarget4 : targetLsdb o4=some b := by
    rw [targetLsdb_of_core hcore4,←hb]
    rw [targetLsdb,targetLsdb,isAsWide,isAsWide,enteredLsa,checksummed]
    split <;> rfl
  have hty := installType_spec (g := g) (T := T) (Y := Y) (a := a) (o := o)
    hplaced.core hplaced.but hplaced.entered ho4 hdata4 hself4 (hw.area p o ho)
    (lsdb_of_core hcore4) htarget4 hplaced.unlisted hoi fun h7 w' hm =>
      ht h7 w' ((hplaced.moved.trans hm).mono
        (fun x h => h.elim id fun h => .inl (h ▸ rfl)) fun q h => h.elim id False.elim)
  have hrun : enterLsa g a b p w = (installType g a p o w4 >>= fun r =>
        if r.2 then enterMaxage p r.1 else pure r.1) := by
    rw [enterLsa,get_of_read ho]
    simp only [bind,Except.bind,hok1,hok2,hok3,hok4]
  rw [hrun]
  refine hty.bind fun r hr => .inr ?_
  have hentered : r.1.place (.lsdb b o.key)=some p := by
    rw [hr.moved.places _ (by simp [Holder.isLsdb,hT]),hplaced.entered]
  -- the whole way from the beginning to a world after the installation for the type
  have hend : ∀ w', Kept (fun x => x.isLsdb=false) (fun _ => False) r.1 w' →
      Kept (fun x => x.isLsdb=false ∨ x=.lsdb b o.key ∨ T x) (fun q => q=p ∨ Y q) w w' ∧
      Entered a.checksum b o p w' := by
    intro w' hk
    refine ⟨⟨hk.core,hk.databases,fun h => hk.maxage (hr.maxage (hplaced.maxage h)),
      ((hplaced.moved.trans hr.moved).trans hk.moved).mono (fun x h => ?_) fun q h => ?_⟩,?_,?_⟩
    · rcases h with ((h|h)|h|h)|h
      · exact .inl h
      · exact .inr (.inl h)
      · exact .inl h
      · exact .inr (.inr h)
      · exact .inl h
    · rcases h with (h|h)|h
      · exact .inl h
      · exact .inr h
      · exact h.elim
    · rw [hk.moved.places _ (by simp [Holder.isLsdb]),hentered]
    obtain ⟨o',ho',hcore'⟩ := (hr.moved.trans hk.moved).live hk.core (x := .lsdb b o.key)
      (by simp [Holder.isLsdb,hT]) (by simp [hY]) hplaced.entered ho4
    exact ⟨o',ho',hcore'.trans hcore4⟩
  cases hret : r.2 with
  | true =>
    obtain ⟨w',hok,hk⟩ := enterMaxage_spec hr.core hr.databases hentered
    exact ⟨w',by rw [if_pos rfl,hok],hend w' hk⟩
  | false => exact ⟨r.1,rfl,hend r.1 (Kept.refl hr.core hr.databases _ _)⟩

/-- An instance after the check of the sequence number. -/
def wrapped (now : ℕ) (o : Lsa) : Lsa :=
  if o.data.lsSeqnum-1=ospfMaxSequenceNumber then ageAtWrap now o else o

theorem targetLsdb_isSome (ho : areaOk o) : ∃ b, targetLsdb o=some b := by
  rw [targetLsdb]
  split
  · cases o.area with
    | none => exact ⟨.as,rfl⟩
    | some a => exact ⟨.area a,rfl⟩
  by_cases hwide : isAsWide o=true
  · exact ⟨.as,by rw [if_pos hwide]⟩
  obtain ⟨a,ha⟩ := isSome_iff_exists.mp (ho.resolve_left hwide)
  exact ⟨.area a,by rw [if_neg hwide,ha]; rfl⟩

theorem compareOld_spec (hw : Core w) (b : Base) (o : Lsa) :
    Ends (compareOld b o w) fun _ => True := by
  rw [compareOld]
  cases hold : w.place (.lsdb b o.key) with
  | none => exact .inr ⟨(),rfl,trivial⟩
  | some old =>
    obtain ⟨l,hl⟩ := hw.live hold
    simp only [get_of_read hl,bind,Except.bind]
    split
    · exact .inl rfl
    · exact .inr ⟨(),rfl,trivial⟩

section

variable (hw : Core w) (hd : Databases w) (ho : w.read p=some o) (hfresh : o.lsdb=none)
  (hcreated : w.place (.created p)=some p) (hb : targetLsdb o=some b)
  (hoi : o.data.type.toNat=2 → a.oi.isSome)
  (ht : o.data.type=ospfAsNssaLsa → ∀ w',
    Moved (fun x => x.isLsdb=false ∨ x=.lsdb b o.key) (· = p) w w' → TranslateOk g T Y w')
  (hT : ¬T (.lsdb b o.key)) (hY : ¬Y p)
include hw hd ho hfresh hcreated hb hoi ht hT hY

/-- What an installation leaves for a self-originated instance, and for any
other one. -/
theorem checkSeqnum_spec : Ends (checkSeqnum g a b p o w) fun w' =>
      Kept (fun x => x.isLsdb=false ∨ x=.lsdb b o.key ∨ T x) (fun q => q=p ∨ Y q) w w' ∧
      (o.self=true → o.selfChecked=true → Entered a.checksum b (wrapped w.now o) p w') := by
  rw [checkSeqnum]
  by_cases hseq : o.data.lsSeqnum-1=ospfMaxSequenceNumber
  · rw [if_pos hseq]
    have hkeepself : o.self=true → (selfCheck w o).self=true := by
      intro h
      rw [selfCheck,ospfLsaIsSelfOriginated]
      simp [h]
    obtain ⟨w1,hok1,hw1,hm1,ho1⟩ := hw.write ho (selfCheck w) rfl
      (fun g => by cases g <;> rfl) rfl hkeepself (hw.premature p o ho) (hw.area p o ho)
      fun hx => hw.external p o hx ho
    -- the instance is no entry, so the entries are as they were
    have hnoentry : ∀ b' k' q, w.place (.lsdb b' k')=some q → ¬q=p := by
      rintro b' k' q hq rfl
      rw [(hd b' k' q o hq ho).home] at hfresh
      cases hfresh
    have hd1 := hd.of_moved hm1 (fun _ _ h => h) fun b' k' q hq => ⟨fun h => h,hnoentry b' k' q hq⟩
    have hmax1 : MaxageHome w → MaxageHome w1 := fun h =>
      h.of_moved hm1 (fun _ _ h => h) fun _ h => h
    simp only [bind,Except.bind,hok1]
    by_cases hown : ospfLsaIsSelfOriginated w o=true
    · rw [if_pos hown]
      obtain ⟨w2,hok2,hw2,hm2,ho2⟩ := hw1.write ho1 (ageAtWrap w.now) rfl
        (fun g => by cases g <;> rfl) rfl (fun h => h) (fun _ => ⟨rfl,rfl⟩)
        (hw.area p o ho) fun hx => absurd (hw1.external p _ hx ho1) (by
          rw [selfCheck]
          simp [hfresh])
      have hmv := hm1.again hm2
      have hd2 :=
        hd.of_moved hmv (fun _ _ h => h) fun b' k' q hq => ⟨fun h => h,hnoentry b' k' q hq⟩
      have hmax2 : MaxageHome w1 → MaxageHome w2 := fun h =>
        h.of_moved hm2 (fun _ _ h => h) fun _ h => h
      rw [hok2]
      have henter := enterLsa_spec (b := b) (T := T) (Y := Y) (g := g) (a := a)
        hw2 hd2 ho2 hfresh ((hmv.places _ (fun h => h)).trans hcreated) hb hoi
        (fun h7 w' hm => ht h7 w' ((hmv.trans hm).mono (fun x h => h.elim False.elim id)
          fun q h => h.elim id id)) hT hY
      rcases henter with habort|⟨w',hok',hk,hentered⟩
      · exact .inl habort
      refine .inr ⟨w',hok',⟨hk.core,hk.databases,fun h => hk.maxage (hmax2 (hmax1 h)),
        (hmv.trans hk.moved).mono (fun x h => h.elim False.elim id)
          fun q h => h.elim .inl id⟩,fun hs hc => ?_⟩
      have hcheck : selfCheck w o=o := by
        rw [selfCheck,ospfLsaIsSelfOriginated,if_pos hc]
        cases o
        simp_all
      rw [wrapped,if_pos hseq]
      rw [hcheck] at hentered
      exact hentered
    · rw [if_neg hown]
      refine .inr ⟨w1,rfl,⟨hw1,hd1,hmax1,hm1.mono (fun x h => h.elim) fun q h => .inl h⟩,
        fun hs hc => absurd ?_ hown⟩
      rw [ospfLsaIsSelfOriginated,if_pos hc,hs]
  · rw [if_neg hseq]
    rcases enterLsa_spec (b := b) (T := T) (Y := Y) (g := g) (a := a) hw hd ho
      hfresh hcreated hb hoi ht hT hY with habort | ⟨w',hok',hk,hentered⟩
    · exact .inl habort
    refine .inr ⟨w',hok',hk,fun _ _ => ?_⟩
    rw [wrapped,if_neg hseq]
    exact hentered

theorem ospfLsaInstall_spec : Ends (ospfLsaInstall g a p w) fun w' =>
      Kept (fun x => x.isLsdb=false ∨ x=.lsdb b o.key ∨ T x) (fun q => q=p ∨ Y q) w w' ∧
      (o.self=true → o.selfChecked=true → Entered a.checksum b (wrapped w.now o) p w') := by
  have hrun : ospfLsaInstall g a p w = (compareOld b o w >>= fun _ => checkSeqnum g a b p o w) := by
    rw [ospfLsaInstall,get_of_read ho]
    simp only [bind,Except.bind,hb]
  rw [hrun]
  exact (compareOld_spec hw b o).bind fun _ _ =>
    checkSeqnum_spec hw hd ho hfresh hcreated hb hoi ht hT hY

end

end

/-- What an instance is like that has just been made. -/
structure NewLsa (o : Lsa) : Prop where
  flags : o.discard=false ∧ o.inMaxage=false ∧ o.refreshing=false
  counter : o.retransmitCounter=0
  young : o.prematureAge=false
  area : areaOk o
  lsdb : o.lsdb=none

theorem Core.place_ne_of_unread (hw : Core w) (hp : w.read p=none) (x : Holder) :
    w.place x≠some p := by
  intro hx
  obtain ⟨l,hl⟩ := hw.live hx
  rw [hp] at hl
  cases hl

theorem Core.place_eq_none_of_unread (hw : Core w) (hp : w.read p=none) (hx : x.owner=some p) :
    w.place x=none := by
  cases hpl : w.place x with
  | none => rfl
  | some q =>
    exact absurd (hpl.trans (congrArg some (hw.named x q p hx hpl)))
      (hw.place_ne_of_unread hp x)

theorem ospfLsaNew_spec (hw : Core w) (hp : w.read p=none) (ho : NewLsa o) :
    ∃ w', ospfLsaNew p o w=.ok w' ∧ Core w' ∧ Moved (· = .created p) (· = p) w w' ∧
      w'.place (.created p)=some p ∧ w'.read p=some o := by
  have hnone := hw.place_ne_of_unread hp
  have hcell : w.heap.cell p=none := by
    cases hc : w.heap.cell p with
    | none => rfl
    | some c =>
      have hsome : w.heap.read p=some c.body := by rw [Heap.read,hc]; rfl
      exact absurd (hp.symm.trans hsome) (by simp)
  obtain ⟨hs,hpl,hread⟩ := hw.sound.alloc (hw.place_eq_none_of_unread hp (x := .created p) rfl) hcell o
  let w' : World := {w with heap := w.heap.alloc (.created p) p o}
  have hpl' : w'.place=update w.place (.created p) (some p) := hpl
  have hread' : w'.read=update w.read p (some o) := hread
  have hcase : Reads w w' p o := reads_of_update (fun q o' ho' => hread' ▸ ho') fun _ _ h => h
  have hoth : ∀ x, x ≠ .created p → w'.place x=w.place x := fun x hx => by
    rw [hpl',update_of_ne hx]
  have hhere : w'.place (.created p)=some p := by rw [hpl',update_self]
  refine ⟨w',?_,⟨hs,fun x q r hx hq => ?_,fun x k q o' hx hq ho' => ?_,fun f q o' ho' => ?_,
    fun q o' ho' hr => ?_,fun q o' ho' => ?_,hw.nodup,fun n k q hq => ?_,
    fun q o' ho' hprem => ?_,fun q o' ho' => ?_,fun q o' hq ho' => ?_⟩,
    ⟨hoth,fun q o' hq ho' => ?_,rfl⟩,hhere,by rw [hread',update_self]⟩
  · rw [ospfLsaNew,hp]
    rfl
  · by_cases hxp : x=.created p
    · rw [hxp] at hx hq
      exact (some.inj (hq.symm.trans hhere)).trans (some.inj hx)
    rw [hoth x hxp] at hq
    exact hw.named x q r hx hq
  · have hxp : x ≠ .created p := by
      rintro rfl
      exact absurd hx (by simp [Holder.entryKey])
    rw [hoth x hxp] at hq
    rcases hcase q o' ho' with ⟨rfl,-⟩|⟨-,hold⟩
    · exact absurd hq (hnone x)
    · exact hw.keyed x k q o' hx hq hold
  · rcases hcase q o' ho' with ⟨rfl,rfl⟩|⟨hq,hold⟩
    · cases f with
      | created => exact iff_of_true (by simp [Flag.get,ho.flags.1]) hhere
      | maxage =>
        refine iff_of_false (by simp [Flag.get,ho.flags.2.1]) fun h => ?_
        rw [hoth _ (by simp [Flag.holder])] at h
        exact hnone _ h
      | refresh =>
        refine iff_of_false (by simp [Flag.get,ho.flags.2.2]) fun h => ?_
        rw [hoth _ (by simp [Flag.holder])] at h
        exact hnone _ h
    have hne : f.holder q ≠ .created p := by cases f <;> simp [Flag.holder,hq]
    rw [hoth _ hne]
    exact hw.listed f q o' hold
  · rcases hcase q o' ho' with ⟨-,rfl⟩|⟨-,hold⟩
    · rw [ho.flags.2.2] at hr
      cases hr
    · exact hw.selfRefresh q o' hold hr
  · have hnumber : ∀ k r, w'.number k r=w.number k r := fun k r =>
      number_congr rfl (fun n k => hoth _ (by simp)) k r
    rcases hcase q o' ho' with ⟨rfl,rfl⟩|⟨-,hold⟩
    · rw [hnumber,ho.counter,World.number,List.countP_eq_zero.mpr fun n _ => by simp [hnone]]
      rfl
    rw [hnumber]
    exact hw.counter q o' hold
  · rw [hoth _ (by simp)] at hq
    exact hw.strangers n k q hq
  · rcases hcase q o' ho' with ⟨-,rfl⟩|⟨-,hold⟩
    · rw [ho.young] at hprem
      cases hprem
    · exact hw.premature q o' hold hprem
  · rcases hcase q o' ho' with ⟨-,rfl⟩|⟨-,hold⟩
    · exact ho.area
    · exact hw.area q o' hold
  · rw [hoth _ (by simp)] at hq
    rcases hcase q o' ho' with ⟨rfl,-⟩|⟨-,hold⟩
    · exact absurd hq (hnone _)
    · exact hw.external q o' hq hold
  · rcases hcase q o' ho' with ⟨h,-⟩|⟨-,hold⟩
    · exact absurd h hq
    · exact ⟨o',hold,rfl⟩

theorem newLsa_selfLsa {now : ℕ} {data : LsaHeader} {area : Option ℕ}
    (harea : areaOk (selfLsa now data area)) : NewLsa (selfLsa now data area) :=
  ⟨⟨rfl,rfl,rfl⟩,rfl,rfl,harea,rfl⟩

theorem Kept.of_new (hw : Core w) (hd : Databases w) (hp : w.read p=none) (hw' : Core w')
    (hm : Moved (· = .created p) (· = p) w w') : Kept (fun x => x.isLsdb=false) (· = p) w w' := by
  have hnone := hw.place_ne_of_unread hp
  refine ⟨hw',hd.of_moved hm (by simp) fun b k q hq => ⟨by simp,fun h => ?_⟩,
    fun hmax => hmax.of_moved hm (by simp) (by simp),hm.mono (fun x h => h ▸ rfl) fun _ h => h⟩
  exact hnone _ (h ▸ hq)

end RoutePlatform.LsaHeap
