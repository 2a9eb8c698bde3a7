import RoutePlatform.LsaRefresh

/-!
# The invariant of shared LSA instances

The discard flag follows the lock of the creation, the MaxAge flag the node of the MaxAge table, a
refresh list the refresh queue, and the retransmission counter the lists of the neighbours. Every
operation on a place keeps this and says which places it changes.
-/

namespace RoutePlatform.LsaHeap

open LsaOperations ObjectLocks Function Option

variable {p : ℕ} {X : ℕ→Prop} {n : ℕ} {w w' w'' : World} {Y : ℕ→Prop}

/-- The instance that a place can hold only. -/
def Holder.owner : Holder→Option ℕ
  | .created p | .maxageLsa p | .refreshQueue p | .toRefresh p | .externalLsas p
  | .translated p => some p
  | _ => none

/-- The key of the instances that a place can hold only. -/
def Holder.entryKey : Holder→Option ℕ
  | .lsdb _ k | .lsRxmt _ k => some k
  | _ => none

/-- The places that an instance has a flag for. -/
inductive Flag where
  | created | maxage | refresh
  deriving DecidableEq

def Flag.holder : Flag→ℕ→Holder
  | .created => .created
  | .maxage => .maxageLsa
  | .refresh => .refreshQueue

/-- What a flag says; `OSPF_LSA_DISCARD` is set when the lock is gone. -/
def Flag.get : Flag→Lsa→Bool
  | .created, o => !o.discard
  | .maxage, o => o.inMaxage
  | .refresh, o => o.refreshing

def Flag.set : Flag→Bool→Lsa→Lsa
  | .created, v, o => {o with discard := !v}
  | .maxage, v, o => {o with inMaxage := v}
  | .refresh, v, o => {o with refreshing := v}

/-- The fields of an instance that no list changes. -/
def Lsa.core (o : Lsa) : Lsa :=
  {o with discard := false,inMaxage := false,refreshing := false,retransmitCounter := 0}

section

variable {o o' : Lsa} (h : o'.core=o.core)

include h

theorem data_of_core : o'.data=o.data := (congrArg (fun l : Lsa => l.data) h :)

theorem self_of_core : o'.self=o.self := (congrArg (fun l : Lsa => l.self) h :)

theorem prematureAge_of_core : o'.prematureAge=o.prematureAge :=
  (congrArg (fun l : Lsa => l.prematureAge) h :)

theorem area_of_core : o'.area=o.area := (congrArg (fun l : Lsa => l.area) h :)

theorem lsdb_of_core : o'.lsdb=o.lsdb := (congrArg (fun l : Lsa => l.lsdb) h :)

theorem key_of_core : o'.key=o.key := congrArg LsaHeader.key (data_of_core h)

end

variable (f : Flag)

theorem core_set (v : Bool) (o : Lsa) : (f.set v o).core=o.core := by cases f <;> rfl

@[simp] theorem get_set (v : Bool) (o : Lsa) : f.get (f.set v o)=v := by
  cases f
  · exact Bool.not_not v
  · rfl
  · rfl

theorem get_set_of_ne {f g : Flag} (h : g≠f) (v : Bool) (o : Lsa) : g.get (f.set v o)=g.get o := by
  cases f <;> cases g <;> first | rfl | exact absurd rfl h

theorem retransmitCounter_set (v : Bool) (o : Lsa) :
    (f.set v o).retransmitCounter=o.retransmitCounter := by
  cases f <;> rfl

theorem self_set (v : Bool) (o : Lsa) : (f.set v o).self=o.self := by cases f <;> rfl

theorem holder_owner (p : ℕ) : (f.holder p).owner=some p := by cases f <;> rfl

theorem holder_inj {f g : Flag} {q : ℕ} (h : f.holder p=g.holder q) : f=g ∧ p=q := by
  cases f <;> cases g <;> simp_all [Flag.holder]

theorem holder_entryKey (p : ℕ) : (f.holder p).entryKey=none := by cases f <;> rfl

/-- The number of neighbours whose list holds an instance for a key. -/
def World.number (w : World) (k p : ℕ) : ℕ := w.nbrs.countP fun n => w.place (.lsRxmt n k)=some p

/-- LSAs that need no area: types 5 and 11. -/
def areaOk (o : Lsa) : Prop := isAsWide o=true ∨ o.area.isSome

/-- Flags and counters say which places hold an instance. -/
structure Core (w : World) : Prop where
  /-- The locks of an instance are the places that refer to it. -/
  sound : w.heap.Sound
  /-- A place that is made for one instance holds no other one. -/
  named : ∀ x p q, x.owner=some q → w.place x=some p → p=q
  /-- Entries have the key of the instance that they hold. -/
  keyed : ∀ x k p o, x.entryKey=some k → w.place x=some p → w.read p=some o → o.key=k
  listed : ∀ f p o, w.read p=some o → (Flag.get f o=true ↔ w.place (f.holder p)=some p)
  selfRefresh : ∀ p o, w.read p=some o → o.refreshing=true → o.self=true
  counter : ∀ p o, w.read p=some o → o.retransmitCounter=w.number o.key p
  nodup : w.nbrs.Nodup
  strangers : ∀ n k p, w.place (.lsRxmt n k)=some p → n∈w.nbrs
  /-- An instance that is aged prematurely has the last sequence number. -/
  premature : ∀ p o, w.read p=some o → o.prematureAge=true →
    o.data.lsSeqnum=ospfMaxSequenceNumber ∧ o.data.lsAge=BitVec.ofNat 16 ospfLsaMaxage
  /-- An instance has an area if its database or its flooding needs one. -/
  area : ∀ p o, w.read p=some o → areaOk o
  /-- Instances of the list of external LSAs have been installed. -/
  external : ∀ p o, w.place (.externalLsas p)=some p → w.read p=some o → o.lsdb.isSome

/-- The places and the instances that an operation may change. -/
structure Moved (S : Holder→Prop) (X : ℕ→Prop) (w w' : World) : Prop where
  places : ∀ x, ¬S x → w'.place x=w.place x
  /-- The other instances are as they were, but for flags and counter. -/
  reads : ∀ q o', ¬X q → w'.read q=some o' → ∃ o, w.read q=some o ∧ o'.core=o.core
  rest : {w' with heap := w.heap}=w

theorem Moved.refl (S : Holder→Prop) (X : ℕ→Prop) (w : World) : Moved S X w w :=
  ⟨fun _ _ => rfl,fun _ o' _ h => ⟨o',h,rfl⟩,rfl⟩

variable {S : Holder→Prop} {T : Holder→Prop}

theorem Moved.trans (h : Moved S X w w') (h' : Moved T Y w' w'') :
    Moved (fun x => S x ∨ T x) (fun q => X q ∨ Y q) w w'' := by
  refine ⟨fun x hx => ?_,fun q o'' hq ho'' => ?_,?_⟩
  · rw [h'.places x fun ht => hx (.inr ht),h.places x fun hs => hx (.inl hs)]
  · obtain ⟨o',ho',hcore'⟩ := h'.reads q o'' (fun hy => hq (.inr hy)) ho''
    obtain ⟨o,ho,hcore⟩ := h.reads q o' (fun hx => hq (.inl hx)) ho'
    exact ⟨o,ho,hcore'.trans hcore⟩
  have hrs := h.rest
  have hrs' := h'.rest
  rw [←hrs'] at hrs
  exact hrs

/-- A function comes to its end, changes one place only, and leaves this in it. -/
def Sets (r : Except Fault World) (w : World) (x : Holder) (v : Option ℕ) : Prop :=
  ∃ w', r=.ok w' ∧ Core w' ∧ Moved (· = x) (fun _ => False) w w' ∧ w'.place x=v

/-- A function comes to its end and changes these places only. -/
abbrev Moves (S : Holder→Prop) (r : Except Fault World) (w : World) : Prop :=
  ∃ w', r=.ok w' ∧ Core w' ∧ Moved S (fun _ => False) w w'

theorem Moved.mono {w w' : World} (h : Moved S X w w') (hST : ∀ x, S x → T x)
    (hXY : ∀ q, X q → Y q) : Moved T Y w w' :=
  ⟨fun x hx => h.places x fun hs => hx (hST x hs),
    fun q o' hq => h.reads q o' fun hx => hq (hXY q hx),h.rest⟩

theorem Moved.again (h : Moved S X w w') (h' : Moved S X w' w'') : Moved S X w w'' :=
  (h.trans h').mono (fun _ h => h.elim id id) fun _ h => h.elim id id

variable {X : ℕ→Prop} {w w' : World}

theorem Moved.nbrs (h : Moved S X w w') :
    w'.nbrs=w.nbrs := (congrArg (fun v : World => v.nbrs) h.rest :)

theorem Moved.now (h : Moved S X w w') :
    w'.now=w.now := (congrArg (fun v : World => v.now) h.rest :)

theorem Core.live (hw : Core w) {x : Holder} (hx : w.place x=some p) :
    ∃ o, w.read p=some o := hw.sound.live hx

variable {o : Lsa}

theorem get_of_read (h : w.read p=some o) : w.get p=.ok o := by
  rw [World.get,h]

theorem place_of_flag (hw : Core w) {f : Flag} (ho : w.read p=some o) (hf : f.get o=true) :
    w.place (f.holder p)=some p :=
  (hw.listed f p o ho).mp hf

theorem place_of_not_flag (hw : Core w) {f : Flag} (ho : w.read p=some o) (hf : f.get o=false) :
    w.place (f.holder p)=none := by
  cases hpl : w.place (f.holder p) with
  | none => rfl
  | some q =>
    have hq := hw.named _ q p (holder_owner f p) hpl
    rw [(hw.listed f p o ho).mpr (hpl.trans (congrArg some hq))] at hf
    cases hf

variable {x : Holder}

/-- A change at one place keeps the invariant if its flags and counters
follow. -/
theorem Core.of_change (hw : Core w) (hs : w'.heap.Sound) (hpl : ∀ y, y≠x → w'.place y=w.place y)
    (hreads : ∀ q o', w'.read q=some o' → ∃ o, w.read q=some o ∧ o'.core=o.core)
    (hrs : {w' with heap := w.heap}=w)
    (howner : ∀ p q, x.owner=some q → w'.place x=some p → p=q)
    (hkey : ∀ k p o, x.entryKey=some k → w'.place x=some p → w'.read p=some o → o.key=k)
    (hlst : ∀ f p o, w'.read p=some o → (Flag.get f o=true ↔ w'.place (f.holder p)=some p))
    (hself : ∀ p o, w'.read p=some o → o.refreshing=true → o.self=true)
    (hctr : ∀ p o, w'.read p=some o → o.retransmitCounter=w'.number o.key p)
    (hstrange : ∀ n k p, x=.lsRxmt n k → w'.place x=some p → n∈w.nbrs)
    (hext : ∀ p o, x=.externalLsas p → w'.place x=some p → w'.read p=some o →
      o.lsdb.isSome) : Core w' := by
  have hnbrs : w'.nbrs=w.nbrs := (congrArg (fun v : World => v.nbrs) hrs :)
  refine ⟨hs,fun y p q hy hp => ?_,fun y k p o' hy hp ho' => ?_,hlst,hself,hctr,
    hnbrs ▸ hw.nodup,fun n k p hp => ?_,fun p o' ho' hprem => ?_,fun p o' ho' => ?_,
    fun p o' hp ho' => ?_⟩
  · by_cases hyx : y=x
    · rw [hyx] at hy hp
      exact howner p q hy hp
    rw [hpl y hyx] at hp
    exact hw.named y p q hy hp
  · by_cases hyx : y=x
    · rw [hyx] at hy hp
      exact hkey k p o' hy hp ho'
    rw [hpl y hyx] at hp
    obtain ⟨o,ho,hcore⟩ := hreads p o' ho'
    have hdata := data_of_core hcore
    rw [Lsa.key,hdata]
    exact hw.keyed y k p o hy hp ho
  · rw [hnbrs]
    by_cases hyx : Holder.lsRxmt n k=x
    · rw [hyx] at hp
      exact hstrange n k p hyx.symm hp
    rw [hpl _ hyx] at hp
    exact hw.strangers n k p hp
  · obtain ⟨o,ho,hcore⟩ := hreads p o' ho'
    have hdata := data_of_core hcore
    have hage := prematureAge_of_core hcore
    rw [hdata]
    exact hw.premature p o ho (hage ▸ hprem)
  · obtain ⟨o,ho,hcore⟩ := hreads p o' ho'
    have hdata := data_of_core hcore
    have harea := area_of_core hcore
    have hok := hw.area p o ho
    rw [areaOk,isAsWide,←hdata,←harea] at hok
    exact hok
  obtain ⟨o,ho,hcore⟩ := hreads p o' ho'
  have hlsdb := lsdb_of_core hcore
  by_cases hyx : Holder.externalLsas p=x
  · rw [hyx] at hp
    exact hext p o' hyx.symm hp ho'
  rw [hpl _ hyx] at hp
  rw [hlsdb]
  exact hw.external p o hp ho

theorem exists_lock (hs : w.heap.Sound) (hx : w.place x=none) (ho : w.read p=some o) :
    ∃ w', ospfLsaLock x p w=.ok w' ∧ w'.heap.Sound ∧
      w'.place=update w.place x (some p) ∧ w'.read=w.read ∧
      {w' with heap := w.heap}=w := by
  obtain ⟨h',hok,hs',hpl,hread⟩ := hs.lock hx ho
  refine ⟨{w with heap := h'},?_,hs',hpl,hread,rfl⟩
  rw [ospfLsaLock,World.via,hok]
  rfl

theorem exists_modify (hs : w.heap.Sound) (ho : w.read p=some o) (f : Lsa → Lsa) :
    ∃ w', modifyLsa p f w=.ok w' ∧ w'.heap.Sound ∧ w'.place=w.place ∧
      w'.read=update w.read p (some (f o)) ∧ {w' with heap := w.heap}=w := by
  obtain ⟨h',hok,hs',hpl,hread⟩ := hs.modify ho f
  refine ⟨{w with heap := h'},?_,hs',hpl,hread,rfl⟩
  rw [modifyLsa,World.via,hok]
  rfl

theorem exists_unlock (hs : w.heap.Sound) (hx : w.place x=some p) (ho : w.read p=some o)
    (hfree : (∀ y, y≠x → w.place y≠some p) → mayFree o=true) :
    ∃ w', ospfLsaUnlock x w=.ok w' ∧ w'.heap.Sound ∧ w'.place=update w.place x none ∧
      (∀ q o', w'.read q=some o' → w.read q=some o') ∧
      {w' with heap := w.heap}=w := by
  obtain ⟨h',hok,hs',hpl,hread,_⟩ := hs.unlock hx ho hfree
  refine ⟨{w with heap := h'},?_,hs',hpl,hread,rfl⟩
  rw [ospfLsaUnlock,World.via,hok]
  rfl

theorem rest_trans {w1 : World} (h : {w1 with heap := w.heap}=w)
    (h' : {w' with heap := w1.heap}=w1) : {w' with heap := w.heap}=w := by
  rw [←h'] at h
  exact h

/-- All instances but one are read as before. -/
def Reads (w w' : World) (p : ℕ) (o : Lsa) : Prop :=
  ∀ q o', w'.read q=some o' → q=p ∧ o'=o ∨ q≠p ∧ w.read q=some o'

theorem reads_of_update {read : ℕ→Option Lsa}
    (h : ∀ q o', w'.read q=some o' → update read p (some o) q=some o')
    (hread : ∀ q o', read q=some o' → w.read q=some o') : Reads w w' p o := by
  intro q o' ho'
  have hold := h q o' ho'
  by_cases hqp : q=p
  · rw [hqp,update_self] at hold
    exact .inl ⟨hqp,(some.inj hold).symm⟩
  rw [update_of_ne hqp] at hold
  exact .inr ⟨hqp,hread q o' hold⟩

theorem mayFree_of_no_place (hcreated : Flag.get .created o=false)
    (hrefresh : Flag.get .refresh o=false) : mayFree o=true := by
  have hd : o.discard=true := by simpa [Flag.get] using hcreated
  have hr : o.refreshing=false := hrefresh
  rw [mayFree,hd,hr]
  rfl

theorem number_congr (hnbrs : w'.nbrs=w.nbrs)
    (hpl : ∀ n k, w'.place (.lsRxmt n k)=w.place (.lsRxmt n k)) (k p : ℕ) :
    w'.number k p=w.number k p := by
  rw [World.number,World.number,hnbrs]
  exact List.countP_congr fun n _ => by rw [hpl n k]

theorem lsRxmt_ne_holder (n k : ℕ) (f : Flag) (p : ℕ) : Holder.lsRxmt n k≠f.holder p := by
  cases f <;> exact nofun

theorem core_of_reads {l : Lsa} (ho : w.read p=some o) (hl : l.core=o.core)
    (hreads : Reads w w' p l) (q : ℕ) (o' : Lsa) (ho' : w'.read q=some o') :
    ∃ o, w.read q=some o ∧ o'.core=o.core := by
  rcases hreads q o' ho' with ⟨rfl,rfl⟩|⟨-,hold⟩
  · exact ⟨o,ho,hl⟩
  · exact ⟨o',hold,rfl⟩

section

variable (hw : Core w)
include hw

theorem listed_change {f : Flag} {v : Bool} (hpl : ∀ y, y≠f.holder p → w'.place y=w.place y)
    (hself : v=true ↔ w'.place (f.holder p)=some p) (ho : w.read p=some o)
    (hreads : Reads w w' p (f.set v o)) (g : Flag) (q : ℕ) (o' : Lsa) (ho' : w'.read q=some o') :
    g.get o'=true ↔ w'.place (g.holder q)=some q := by
  rcases hreads q o' ho' with ⟨rfl,rfl⟩|⟨hqp,hold⟩
  · by_cases hgf : g=f
    · rw [hgf,get_set]
      exact hself
    rw [get_set_of_ne hgf,hpl _ fun h => hgf (holder_inj h).1]
    exact hw.listed g q o ho
  · rw [hpl _ fun h => hqp (holder_inj h).2]
    exact hw.listed g q o' hold

/-- A change of one flag and its place keeps the invariant. -/
theorem Core.of_flag (hs : w'.heap.Sound) {f : Flag} {v : Bool} (ho : w.read p=some o)
    (hpl : w'.place=update w.place (f.holder p) (if v then some p else none))
    (hreads : Reads w w' p (f.set v o))
    (hrs : {w' with heap := w.heap}=w) (hself : v=true → f=.refresh → o.self=true) :
    Core w' ∧ Moved (· = f.holder p) (fun _ => False) w w' := by
  have hoth : ∀ y, y≠f.holder p → w'.place y=w.place y := fun y hy => by
    rw [hpl,update_of_ne hy]
  have hhere : w'.place (f.holder p)=if v then some p else none := by rw [hpl,update_self]
  have hcore := core_of_reads ho (core_set f v o) hreads
  refine ⟨hw.of_change hs hoth hcore hrs ?_ ?_ ?_ ?_ ?_ ?_ ?_,hoth,
    fun q o' _ => hcore q o',hrs⟩
  · intro r q hq hr
    rw [hhere] at hr
    rw [holder_owner] at hq
    cases v
    · cases hr
    · exact (some.inj hr).symm.trans (some.inj hq)
  · intro k r l hk
    rw [holder_entryKey] at hk
    cases hk
  · refine listed_change hw hoth ?_ ho hreads
    rw [hhere]
    cases v <;> simp
  · intro q o' ho' hr
    rcases hreads q o' ho' with ⟨rfl,rfl⟩|⟨-,hold⟩
    · rw [self_set]
      by_cases hf : f=.refresh
      · cases v
        · have hoff := get_set f false o
          rw [hf] at hoff hr
          exact absurd (hr.symm.trans hoff) (by simp)
        · exact hself rfl hf
      have hsame := get_set_of_ne (fun h => hf h.symm) v o
      exact hw.selfRefresh q o ho (hsame.symm.trans hr)
    · exact hw.selfRefresh q o' hold hr
  · intro q o' ho'
    have hnbrs : w'.nbrs=w.nbrs := (congrArg (fun v : World => v.nbrs) hrs :)
    rw [number_congr hnbrs fun n k => hoth _ (lsRxmt_ne_holder n k f p)]
    rcases hreads q o' ho' with ⟨rfl,rfl⟩|⟨-,hold⟩
    · rw [retransmitCounter_set,key_of_core (core_set f v o)]
      exact hw.counter q o ho
    · exact hw.counter q o' hold
  · exact fun n k q h => absurd h.symm (lsRxmt_ne_holder n k f p)
  · intro q l h
    cases f <;> exact absurd h nofun

theorem Core.enlist {f : Flag} (ho : w.read p=some o) (hf : f.get o=false)
    (hself : f=.refresh → o.self=true) :
    Sets (ospfLsaLock (f.holder p) p w >>= modifyLsa p (f.set true)) w (f.holder p) (some p) := by
  obtain ⟨w1,hok1,hs1,hpl1,hread1,hrs1⟩ := exists_lock hw.sound (place_of_not_flag hw ho hf) ho
  have ho1 : w1.read p=some o := by rw [hread1,ho]
  obtain ⟨w',hok',hs',hpl',hread',hrs'⟩ := exists_modify hs1 ho1 (f.set true)
  have hpl := hpl'.trans hpl1
  have hreads := reads_of_update (fun q o' ho' => by rw [←hread',ho']) fun q o' ho' => by
    rw [←hread1,ho']
  obtain ⟨hcore,hmv⟩ := hw.of_flag hs' ho hpl hreads (rest_trans hrs1 hrs') fun _ => hself
  refine ⟨w',?_,hcore,hmv,by rw [hpl,update_self]⟩
  rw [hok1]
  exact hok'

/-- An instance changes and leaves a place. -/
theorem exists_leave (hp : w.place x=some p) (ho : w.read p=some o) (f : Lsa→Lsa)
    (hf : ∀ g : Flag, g.get (f o)=true → g.holder p≠x ∧ g.get o=true) :
    ∃ w', (modifyLsa p f w >>= ospfLsaUnlock x)=.ok w' ∧ w'.heap.Sound ∧
      w'.place=update w.place x none ∧
      Reads w w' p (f o) ∧ {w' with heap := w.heap}=w := by
  obtain ⟨w1,hok1,hs1,hpl1,hread1,hrs1⟩ := exists_modify hw.sound ho f
  have ho1 : w1.read p=some (f o) := by rw [hread1,update_self]
  have hgone : ∀ g : Flag, (∀ y, y≠x → w1.place y≠some p) → g.get (f o)=false := by
    intro g hoths
    by_contra htrue
    obtain ⟨hne,hold⟩ := hf g (by simpa using htrue)
    exact hoths (g.holder p) hne (hpl1 ▸ place_of_flag hw ho hold)
  obtain ⟨w',hok',hs',hpl',hread',hrs'⟩ := exists_unlock hs1 (by rw [hpl1,hp]) ho1
    fun hoths => mayFree_of_no_place (hgone _ hoths) (hgone _ hoths)
  refine ⟨w',?_,hs',by rw [hpl',hpl1],
    reads_of_update (fun q o' ho' => by rw [←hread1,hread' q o' ho']) fun _ _ h => h,
    rest_trans hrs1 hrs'⟩
  rw [hok1]
  exact hok'

/-- An instance is taken from a place after its flag is cleared. -/
theorem Core.delist {f : Flag} (hp : w.place (f.holder p)=some p) :
    Sets (modifyLsa p (f.set false) w >>= ospfLsaUnlock (f.holder p)) w (f.holder p) none := by
  obtain ⟨o,ho⟩ := hw.live hp
  obtain ⟨w',hok,hs,hpl,hreads,hrs⟩ := exists_leave hw hp ho (f.set false) fun g hg => by
    have hgf : g≠f := fun h => by
      rw [h,get_set] at hg
      cases hg
    rw [get_set_of_ne hgf] at hg
    exact ⟨fun h => hgf (holder_inj h).1,hg⟩
  obtain ⟨hcore,hmv⟩ := hw.of_flag hs ho hpl hreads hrs nofun
  exact ⟨w',hok,hcore,hmv,by rw [hpl,update_self]⟩

/-- An instance that another place holds is taken from a place before its
flag is cleared. -/
theorem Core.delistHeld {f : Flag} (hp : w.place (f.holder p)=some p) {y : Holder}
    (hy : y≠f.holder p) (hheld : w.place y=some p) :
    Sets (ospfLsaUnlock (f.holder p) w >>= modifyLsa p (f.set false)) w (f.holder p) none := by
  obtain ⟨o,ho⟩ := hw.live hp
  obtain ⟨w1,hok1,hs1,hpl1,hread1,hrs1⟩ := exists_unlock hw.sound hp ho
    fun hoths => absurd hheld (hoths y hy)
  have hheld1 : w1.place y=some p := by rw [hpl1,update_of_ne hy,hheld]
  obtain ⟨o1,ho1⟩ := hs1.live hheld1
  have hsame := some.inj ((hread1 p o1 ho1).symm.trans ho)
  rw [hsame] at ho1
  obtain ⟨w',hok',hs',hpl',hread',hrs'⟩ := exists_modify hs1 ho1 (f.set false)
  have hpl : w'.place=update w.place (f.holder p) none := by rw [hpl',hpl1]
  have hreads := reads_of_update (fun q o' ho' => by rw [←hread',ho']) hread1
  obtain ⟨hcore,hmv⟩ := hw.of_flag hs' ho hpl hreads (rest_trans hrs1 hrs') nofun
  refine ⟨w',?_,hcore,hmv,by rw [hpl,update_self]⟩
  rw [hok1]
  exact hok'

end

/-- Places that neither a flag nor a counter speaks of. -/
def Holder.plain : Holder→Bool
  | .created _ | .maxageLsa _ | .refreshQueue _ | .lsRxmt _ _ => false
  | _ => true

theorem holder_ne_of_plain (hx : x.plain=true) (f : Flag) (p : ℕ) : f.holder p≠x := by
  intro h
  rw [←h] at hx
  cases f <;> exact absurd hx (by simp [Flag.holder,Holder.plain])

theorem lsRxmt_ne_of_plain (hx : x.plain=true) (n k : ℕ) : Holder.lsRxmt n k≠x := by
  intro h
  rw [←h] at hx
  exact absurd hx (by simp [Holder.plain])

/-- A change of a place without a flag keeps the invariant. -/
theorem Core.of_plain (hw : Core w) (hs : w'.heap.Sound) (hx : x.plain=true)
    (hpl : ∀ y, y≠x → w'.place y=w.place y)
    (hreads : ∀ q o', w'.read q=some o' → w.read q=some o') (hrs : {w' with heap := w.heap}=w)
    (howner : ∀ p q, x.owner=some q → w'.place x=some p → p=q)
    (hkey : ∀ k p o, x.entryKey=some k → w'.place x=some p → w.read p=some o → o.key=k)
    (hext : ∀ p o, x=.externalLsas p → w'.place x=some p → w.read p=some o → o.lsdb.isSome) :
    Core w' ∧ Moved (· = x) (fun _ => False) w w' := by
  have hcore : ∀ q o', w'.read q=some o' → ∃ o, w.read q=some o ∧ o'.core=o.core :=
    fun q o' ho' => ⟨o',hreads q o' ho',rfl⟩
  refine ⟨hw.of_change hs hpl hcore hrs howner (fun k p o hk hp ho => ?_)
    (fun f p o ho => ?_) (fun p o ho => ?_) (fun p o ho => ?_) (fun n k p h => ?_)
    (fun p o h hp ho => ?_),hpl,fun q o' _ => hcore q o',hrs⟩
  · exact hkey k p o hk hp (hreads p o ho)
  · rw [hpl _ (holder_ne_of_plain hx f p)]
    exact hw.listed f p o (hreads p o ho)
  · exact hw.selfRefresh p o (hreads p o ho)
  · have hnbrs : w'.nbrs=w.nbrs := (congrArg (fun v : World => v.nbrs) hrs :)
    rw [number_congr hnbrs fun n k => hpl _ (lsRxmt_ne_of_plain hx n k)]
    exact hw.counter p o (hreads p o ho)
  · exact absurd h.symm (lsRxmt_ne_of_plain hx n k)
  · exact hext p o h hp (hreads p o ho)

theorem Core.lockPlain (hw : Core w) (hx : x.plain=true) (hemp : w.place x=none)
    (ho : w.read p=some o) (howner : ∀ q, x.owner=some q → p=q)
    (hkey : ∀ k, x.entryKey=some k → o.key=k) (hext : x=.externalLsas p → o.lsdb.isSome) :
    Sets (ospfLsaLock x p w) w x (some p) := by
  obtain ⟨w',hok,hs,hpl,hread,hrs⟩ := exists_lock hw.sound hemp ho
  have hhere : w'.place x=some p := by rw [hpl,update_self]
  have hpointer : ∀ r, w'.place x=some r → r=p := fun r hr => some.inj (hr.symm.trans hhere)
  have hkey' : ∀ k r l, x.entryKey=some k → w'.place x=some r → w.read r=some l → l.key=k := by
    intro k r l hk hr hl
    rw [hpointer r hr,ho] at hl
    exact some.inj hl ▸ hkey k hk
  have hext' : ∀ r l, x=.externalLsas r → w'.place x=some r → w.read r=some l →
      l.lsdb.isSome := by
    intro r l h hr hl
    rw [hpointer r hr,ho] at hl
    exact some.inj hl ▸ hext (hpointer r hr ▸ h)
  obtain ⟨hcore,hmv⟩ := hw.of_plain hs hx (fun y hy => by rw [hpl,update_of_ne hy])
    (fun q o' ho' => by rw [←hread,ho']) hrs
    (fun r q hq hr => hpointer r hr ▸ howner q hq) hkey' hext'
  exact ⟨w',hok,hcore,hmv,hhere⟩

/-- A place without a flag gives its lock back, if it has one. -/
theorem Core.unlockPlain (hw : Core w) (hx : x.plain=true) : Sets (ospfLsaUnlock x w) w x none := by
  cases hp : w.place x with
  | none =>
    refine ⟨w,?_,hw,Moved.refl _ _ w,hp⟩
    have hpl : w.heap.place x=none := hp
    rw [ospfLsaUnlock,World.via,Heap.unlock,hpl]
    rfl
  | some p =>
    obtain ⟨o,ho⟩ := hw.live hp
    have hgone : ∀ g : Flag, (∀ y, y≠x → w.place y≠some p) → g.get o=false := by
      intro g hoths
      by_contra htrue
      exact hoths (g.holder p) (holder_ne_of_plain hx g p)
        (place_of_flag hw ho (by simpa using htrue))
    obtain ⟨w',hok,hs,hpl,hread,hrs⟩ := exists_unlock hw.sound hp ho
      fun hoths => mayFree_of_no_place (hgone _ hoths) (hgone _ hoths)
    have hhere : w'.place x=none := by rw [hpl,update_self]
    obtain ⟨hcore,hmv⟩ := hw.of_plain hs hx
      (fun y hy => by rw [hpl,update_of_ne hy]) hread hrs
      (fun r q _ hr => absurd (hr.symm.trans hhere) (by simp))
      (fun k r l _ hr => absurd (hr.symm.trans hhere) (by simp))
      (fun r l _ hr => absurd (hr.symm.trans hhere) (by simp))
    exact ⟨w',hok,hcore,hmv,hhere⟩

/-- The counter of an instance changes with the entry of a neighbour's list. -/
theorem Core.of_rxmt (hw : Core w) (hs : w'.heap.Sound) {k : ℕ} {u v : Option ℕ} {d : ℤ}
    (ho : w.read p=some o) (hk : o.key=k) (hn : n∈w.nbrs) (hu : w.place (.lsRxmt n k)=u)
    (hu' : u=none ∨ u=some p) (hv : v=none ∨ v=some p)
    (hd : d+(if u=some p then 1 else 0)=if v=some p then 1 else 0)
    (hpl : w'.place=update w.place (.lsRxmt n k) v)
    (hreads : Reads w w' p {o with retransmitCounter := o.retransmitCounter+d})
    (hrs : {w' with heap := w.heap}=w) :
    Core w' ∧ Moved (· = .lsRxmt n k) (fun _ => False) w w' := by
  have hoth : ∀ y, y ≠ .lsRxmt n k → w'.place y=w.place y := fun y hy => by
    rw [hpl,update_of_ne hy]
  have hhere : w'.place (.lsRxmt n k)=v := by rw [hpl,update_self]
  have hnbrs : w'.nbrs=w.nbrs := (congrArg (fun v : World => v.nbrs) hrs :)
  have hcore := core_of_reads ho (by rfl) hreads
  -- the entry is `none` or `p` before and after, so only the number of `p` for `k` changes
  have hnumber : ∀ q, (w'.number k q : ℤ)=w.number k q+if q=p then d else 0 := by
    intro q
    have hcnt := countP_replace hw.nodup hn (f := fun m => w.place (.lsRxmt m k))
      (g := fun m => w'.place (.lsRxmt m k)) (fun m hm => hoth _ (by simpa using hm)) q
    rw [hu,hhere] at hcnt
    rw [World.number,World.number,hnbrs]
    by_cases hqp : q=p
    · rw [if_pos hqp]
      rw [hqp] at hcnt ⊢
      omega
    rw [if_neg hqp]
    have hune : u≠some q := by rcases hu' with h|h <;> rw [h] <;> simp [Ne.symm hqp]
    have hvne : v≠some q := by rcases hv with h|h <;> rw [h] <;> simp [Ne.symm hqp]
    rw [if_neg hune,if_neg hvne] at hcnt
    omega
  have hnumber' : ∀ j, j≠k → ∀ q, w'.number j q=w.number j q := by
    intro j hj q
    rw [World.number,World.number,hnbrs]
    exact List.countP_congr fun m _ => by rw [hoth _ (by simp [hj])]
  refine ⟨hw.of_change hs hoth hcore hrs ?_ ?_ ?_ ?_ ?_ ?_ ?_,hoth,
    fun q o' _ => hcore q o',hrs⟩
  · exact fun _ _ h => absurd h (by simp [Holder.owner])
  · intro j r l hj hr hl
    have hj' := some.inj hj
    rw [hhere] at hr
    rcases hv with h|h
    · rw [h] at hr
      cases hr
    rw [h] at hr
    obtain ⟨l0,hl0,hcore0⟩ := hcore r l hl
    rw [←some.inj hr,ho] at hl0
    rw [key_of_core hcore0,←some.inj hl0,hk,hj']
  · intro f q o' ho'
    rw [hoth _ (lsRxmt_ne_holder n k f q).symm]
    rcases hreads q o' ho' with ⟨rfl,rfl⟩|⟨-,hold⟩
    · rw [←hw.listed f q o ho]
      cases f <;> rfl
    · exact hw.listed f q o' hold
  · intro q o' ho' hr
    rcases hreads q o' ho' with ⟨rfl,rfl⟩|⟨-,hold⟩
    · exact hw.selfRefresh q o ho hr
    · exact hw.selfRefresh q o' hold hr
  · intro q o' ho'
    rcases hreads q o' ho' with ⟨rfl,rfl⟩|⟨hqp,hread⟩
    · have hold := hw.counter q o ho
      have hnew := hnumber q
      rw [if_pos rfl] at hnew
      rw [hk] at hold
      change o.retransmitCounter+d=w'.number o.key q
      rw [hk,hnew,hold]
    have hold := hw.counter q o' hread
    rw [hold]
    by_cases hkey : o'.key=k
    · have hnew := hnumber q
      rw [if_neg hqp,add_zero] at hnew
      rw [hkey,hnew]
    · rw [hnumber' _ hkey q]
  · intro m j q h _
    injection h with hm hj
    exact hm ▸ hn
  · exact fun q l h => absurd h nofun

def addCounter (d : ℤ) (o : Lsa) : Lsa := {o with retransmitCounter := o.retransmitCounter+d}

theorem Core.rxmtEnter (hw : Core w) (hn : n∈w.nbrs) (ho : w.read p=some o)
    (hemp : w.place (.lsRxmt n o.key)=none) :
    Sets (modifyLsa p (addCounter 1) w >>= ospfLsaLock (.lsRxmt n o.key) p) w (.lsRxmt n o.key)
      (some p) := by
  obtain ⟨w1,hok1,hs1,hpl1,hread1,hrs1⟩ := exists_modify hw.sound ho (addCounter 1)
  have ho1 : w1.read p=some (addCounter 1 o) := by rw [hread1,update_self]
  obtain ⟨w',hok',hs',hpl',hread',hrs'⟩ :=
    exists_lock hs1 (x := .lsRxmt n o.key) (by rw [hpl1,hemp]) ho1
  have hpl : w'.place=update w.place (.lsRxmt n o.key) (some p) := by rw [hpl',hpl1]
  have hreads := reads_of_update (fun q o' ho' => by rw [←hread1,←hread',ho']) fun _ _ h => h
  obtain ⟨hcore,hmv⟩ := hw.of_rxmt hs' ho rfl hn hemp (.inl rfl) (.inr rfl) (by simp)
    hpl hreads (rest_trans hrs1 hrs')
  refine ⟨w',?_,hcore,hmv,by rw [hpl,update_self]⟩
  rw [hok1]
  exact hok'

/-- An instance is taken from the list of a neighbour. -/
theorem Core.rxmtLeave (hw : Core w) {k : ℕ} (hp : w.place (.lsRxmt n k)=some p) :
    Sets (modifyLsa p (addCounter (-1)) w >>= ospfLsaUnlock (.lsRxmt n k)) w (.lsRxmt n k) none := by
  obtain ⟨o,ho⟩ := hw.live hp
  have hk := hw.keyed _ k p o rfl hp ho
  obtain ⟨w',hok,hs,hpl,hreads,hrs⟩ := exists_leave hw hp ho (addCounter (-1)) fun g hg =>
    ⟨(lsRxmt_ne_holder n k g p).symm,by cases g <;> simpa [Flag.get,addCounter] using hg⟩
  obtain ⟨hcore,hmv⟩ := hw.of_rxmt hs ho hk (hw.strangers n k p hp) hp (.inr rfl) (.inl rfl)
    (by simp) hpl hreads hrs
  exact ⟨w',hok,hcore,hmv,by rw [hpl,update_self]⟩

end RoutePlatform.LsaHeap
