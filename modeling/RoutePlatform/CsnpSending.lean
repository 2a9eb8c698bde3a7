import RoutePlatform.SnpRanges
import RoutePlatform.CsnpRoom

/-!
# The ranges of the CSNPs that `send_csnp` sends

The next range starts at the id behind the last one, unless that ends in 0xff: then the bytes that
should be carried over keep their value, and ids are left out. The number of LSPs is counted in a
byte. A bound of 0 or 1 is met again 256 LSPs later.
-/

namespace RoutePlatform.CsnpSending

open TlvOperations NetworkBytes SnpOperations SnpRanges CsnpRoom List Option Nat

variable {lsps : List IsisLsp} {cs : List Csnp} {x : IsisLsp} {start next : LspId} {bs : List Byte}
  {b : Byte} {c : Csnp} (n : Byte)

section

theorem advance_concat (bs : List Byte) (b : Byte) : advance (bs++[b]) =
    if b.toNat<0xff then some (bs++[b+1]) else (advance bs).map (· ++ [b]) := by
  induction bs with
  | nil =>
    rw [nil_append,advance,advance]
    rfl
  | cons a bs ih =>
    rw [cons_append,advance,ih,advance]
    by_cases hb : b.toNat<0xff
    · rw [if_pos hb,if_pos hb]
      rfl
    rw [if_neg hb,if_neg hb]
    cases advance bs with
    | some bs' => rfl
    | none =>
      rw [map_none]
      dsimp only
      split <;> rfl

theorem toNat_add_one (h : b.toNat<0xff) : (b+1).toNat=b.toNat+1 := by
  rw [BitVec.toNat_add]
  exact mod_eq_of_lt (by change b.toNat+1<256; omega)

theorem eq_ff (h : ¬b.toNat<0xff) : b=0xff := by
  exact BitVec.eq_of_toNat_eq (by change b.toNat=255; omega)

theorem advance_value : ∀ {bs' : List Byte}, advance bs=some bs' →
    netValue bs<netValue bs' ∧ (netValue bs'=netValue bs+1 ↔ bs.getLast? ≠ some 0xff) := by
  induction bs using reverseRecOn with
  | nil =>
    intro bs' h
    cases h
  | append_singleton bs b ih =>
    intro bs' h
    rw [advance_concat] at h
    rw [getLast?_concat]
    by_cases hb : b.toNat<0xff
    · rw [if_pos hb] at h
      cases h
      rw [netValue_concat,netValue_concat,toNat_add_one hb]
      refine ⟨by omega,fun _ heq => ?_,fun _ => (add_assoc _ _ _).symm⟩
      rw [some.inj heq] at hb
      exact absurd hb (by decide)
    obtain rfl := eq_ff hb
    rw [if_neg hb] at h
    obtain ⟨bs1,hbs,rfl⟩ := map_eq_some_iff.mp h
    have hgrow := (ih hbs).1
    rw [netValue_concat,netValue_concat]
    exact ⟨by omega,fun heq => by omega,fun hne => (hne rfl).elim⟩

theorem advance_none (h : advance bs=none) : bs=List.replicate bs.length 0xff := by
  induction bs with
  | nil => rfl
  | cons b bs ih =>
    rw [advance] at h
    cases hbs : advance bs with
    | some bs' =>
      rw [hbs] at h
      cases h
    | none =>
      rw [hbs] at h
      dsimp only at h
      split at h
      · cases h
      rename_i hb
      rw [length_cons,replicate_succ,←ih hbs,eq_ff hb]

theorem idValue_highestId : idValue highestId=256^8-1 := by
  have h := netValue_replicate 8
  change netValue (replicate 8 0xff)=_
  omega

theorem idValue_le (id : LspId) : idValue id ≤ idValue highestId := by
  have h := netValue_lt id.bytes
  rw [id.length_eq] at h
  rw [idValue_highestId]
  change netValue id.bytes≤_
  omega

theorem nextStart_highestId : nextStart highestId=none := rfl

theorem nextStart_of_ne {id : LspId} (h : id≠highestId) : ∃ next, nextStart id=some next ∧
    idValue id < idValue next ∧
    (idValue next=idValue id+1 ↔ id.bytes.getLast? ≠ some 0xff) := by
  cases hnext : advance id.bytes with
  | none =>
    refine (h ?_).elim
    have hbs := advance_none hnext
    rw [id.length_eq] at hbs
    cases id
    cases hbs
    rfl
  | some bytes =>
    obtain ⟨hgrow,hone⟩ := advance_value hnext
    refine ⟨⟨bytes,(length_advance hnext).trans id.length_eq⟩,?_,hgrow,hone⟩
    rw [nextStart]
    simp only [hnext,pmap_some]

end

section

/-- How many LSPs are taken for a CSNP. -/
def csnpLimit (numLsps : Byte) : ℕ := if numLsps.toNat<2 then numLsps.toNat+256 else numLsps.toNat

/-- How many LSPs are taken when some have been counted. -/
def stepsLeft (numLsps count : Byte) : ℕ := if numLsps=count then 256 else (numLsps-count).toNat

theorem stepsLeft_succ (numLsps count : Byte) : stepsLeft numLsps count =
      1+if count+1=numLsps then 0 else stepsLeft numLsps (count+1) := by
  rw [stepsLeft,stepsLeft]
  by_cases heq : numLsps=count
  · subst heq
    rw [if_pos rfl]
    rw [if_neg (by bv_omega),if_neg (by bv_omega)]
    bv_omega
  rw [if_neg heq]
  by_cases hnext : count+1=numLsps
  · rw [if_pos hnext]
    bv_omega
  rw [if_neg hnext,if_neg (fun h => hnext h.symm)]
  bv_omega

theorem stepsLeft_one (numLsps : Byte) : 1+stepsLeft numLsps 1=csnpLimit numLsps := by
  rw [stepsLeft,csnpLimit]
  by_cases hone : numLsps=1
  · subst hone
    rfl
  rw [if_neg hone]
  split <;> bv_omega

/-- The loop takes LSPs until the count is met or the database ends. -/
theorem buildLoop_eq {last : List IsisLsp} (hlast : last.length≤1) (numLsps : Byte)
    (lsps : List IsisLsp) : ∀ count : Byte,
      buildLoop last numLsps count lsps=lsps.take (stepsLeft numLsps count) := by
  induction lsps with
  | nil =>
    intro count
    rw [buildLoop,take_nil]
  | cons x lsps ih =>
    intro count
    rw [buildLoop,stepsLeft_succ,Nat.add_comm,take_succ_cons]
    congr 1
    by_cases hcnt : count+1=numLsps
    · rw [if_pos (Or.inl hcnt),if_pos hcnt,take_zero]
    rw [if_neg hcnt]
    by_cases hend : x::lsps=last
    · rw [if_pos (Or.inr hend)]
      rw [←hend,length_cons] at hlast
      rw [length_eq_zero_iff.mp (le_zero.mp (le_of_succ_le_succ hlast)),take_nil]
    rw [if_neg (fun h => h.elim hcnt hend)]
    exact ih (count+1)

theorem upperBound_highestId (db : LspDb) : (dictUpperBound highestId db.lsps).length≤1 := by
  have hnone : db.lsps.filter (fun x => idValue highestId < idValue x.lspId)=[] := by
    rw [filter_eq_nil_iff]
    intro x _ hlt
    exact not_lt.mpr (idValue_le x.lspId) (of_decide_eq_true hlt)
  rw [dictUpperBound_eq (LspDb.ascending db),hnone]
  split
  · exact zero_le _
  · exact le_refl _

theorem lspBuildList_eq (start : LspId) (numLsps : Byte) (db : LspDb) :
    lspBuildList start highestId numLsps db =
      (dictLowerBound db.lsps start).take (csnpLimit numLsps) := by
  rw [lspBuildList]
  cases dictLowerBound db.lsps start with
  | nil => rw [take_nil]
  | cons first rest =>
    dsimp only
    rw [buildLoop_eq (upperBound_highestId db),←stepsLeft_one,add_comm 1,take_succ_cons]

end

section

/-- CSNPs with consecutive ranges from a number on that list the LSPs in them. -/
inductive Covering (lsps : List IsisLsp) : ℕ→List Csnp→Prop
  | last {c : Csnp} : c.stop=highestId → c.lsps=inRange c.start c.stop lsps →
    Covering lsps (idValue c.start) [c]
  | next {c : Csnp} {cs : List Csnp} : idValue c.start ≤ idValue c.stop →
    c.lsps=inRange c.start c.stop lsps → Covering lsps (idValue c.stop+1) cs →
    Covering lsps (idValue c.start) (c::cs)

/-- The LSPs are split into CSNPs without a gap. -/
structure SplitsWell (level : IsisLevel) (circuit : IsisCircuit) (numLsps : Byte)
    (lsps : List IsisLsp) : Prop where
  ends : lsps=[] → numLsps≠0
  room : Room level circuit (min (csnpLimit numLsps) lsps.length)
  /-- Where a CSNP ends at an LSP, its id does not end in 0xff, or is the highest. -/
  stops : ∀ p x, lsps[p]? = some x → (p+1)%csnpLimit numLsps=0 ∨ numLsps.toNat<2 ∧ p+1=lsps.length →
    x.lspId=highestId ∨ x.lspId.bytes.getLast? ≠ some 0xff
  closes : numLsps=0 → ∀ x, lsps.getLast? = some x → x.lspId=highestId

/-- The CSNPs cover all ids, when no packet is lost on the way. -/
def Describes (hmacMd5 : List Byte→List Byte→List Byte) (sysid : Octets 6)
    (level : IsisLevel) (circuit : IsisCircuit) (db : LspDb) : Prop :=
  ∀ tx, (∀ k, tx k=.isisOk) → (sendCsnp hmacMd5 sysid tx level circuit db).2=.returned .isisOk ∧
      Covering db.lsps 0 (sendCsnp hmacMd5 sysid tx level circuit db).1

theorem Covering.start_eq {n : ℕ} (h : Covering lsps n (c::cs)) : idValue c.start=n := by
  cases h with
  | last | next => rfl

theorem Covering.ne_nil {n : ℕ} (h : Covering lsps n cs) : cs≠[] := by
  cases h with
  | last | next => exact cons_ne_nil _ _

theorem Covering.tail (h : Covering lsps (idValue c.start) (c::cs)) (hstop : c.stop≠highestId) :
    Covering lsps (idValue c.stop+1) cs := by
  generalize hn : idValue c.start=n at h
  cases h with
  | last h => exact (hstop h).elim
  | next _ _ h => exact h

end

section

variable {hmacMd5 : List Byte→List Byte→List Byte} {sysid : Octets 6} {tx : ℕ→IsisRet}
variable {level : IsisLevel} {circuit : IsisCircuit} {db : LspDb}

/-- The bound of `send_csnp`. -/
def numLsps (level : IsisLevel) (circuit : IsisCircuit) : Byte :=
  (maxLspsPerSnp level circuit).setWidth 8

theorem csnpLimit_pos : 0<csnpLimit n := by
  rw [csnpLimit]
  split <;> omega

theorem le_csnpLimit : n.toNat≤csnpLimit n := by
  rw [csnpLimit]
  split <;> omega

theorem lowerBound_next (hsrt : Ascending lsps) {k : ℕ}
    (hx : (dictLowerBound lsps start)[k]? = some x) (hnext : idValue next=idValue x.lspId+1) :
    dictLowerBound lsps next=(dictLowerBound lsps start).drop (k+1) ∧
      inRange start x.lspId lsps=(dictLowerBound lsps start).take (k+1) := by
  have htake : (dictLowerBound lsps start).take (k+1) =
      (dictLowerBound lsps start).take k++[x] := by
    rw [take_add_one,hx]
    rfl
  have hwhole := take_append_drop (k+1) (dictLowerBound lsps start)
  have hascending : Ascending ((dictLowerBound lsps start).take (k+1) ++
      (dictLowerBound lsps start).drop (k+1)) := by
    rw [hwhole,dictLowerBound_eq hsrt]
    exact hsrt.filter _
  obtain ⟨hfront,-,hback⟩ := pairwise_append.mp hascending
  have hlow : ∀ y∈(dictLowerBound lsps start).take (k+1), idValue y.lspId ≤ idValue x.lspId := by
    rw [htake] at hfront ⊢
    intro y hy
    rcases mem_append.mp hy with hy|hy
    · exact ((pairwise_append.mp hfront).2.2 y hy x mem_cons_self).le
    · rw [mem_singleton.mp hy]
  have hhigh : ∀ y∈(dictLowerBound lsps start).drop (k+1), idValue x.lspId < idValue y.lspId := by
    refine hback x ?_
    rw [htake]
    exact mem_append_right _ mem_cons_self
  have hstart : idValue start ≤ idValue x.lspId := by
    have hmem := mem_of_getElem? hx
    rw [dictLowerBound_eq hsrt,mem_filter,decide_eq_true_iff] at hmem
    exact hmem.2
  have hsplit : ∀ p : IsisLsp → Bool, (∀ y, p y=true → idValue start ≤ idValue y.lspId) →
      lsps.filter p=((dictLowerBound lsps start).take (k+1)).filter p ++
        ((dictLowerBound lsps start).drop (k+1)).filter p := by
    intro p hp
    rw [←filter_append,hwhole,dictLowerBound_eq hsrt,List.filter_filter]
    refine filter_congr fun y _ => ?_
    cases hpy : p y with
    | false => rfl
    | true => rw [decide_eq_true (hp y hpy),Bool.and_true]
  constructor
  · rw [dictLowerBound_eq hsrt,hsplit _ fun y hy => ?_,filter_eq_nil_iff.mpr fun y hy h => ?_,
      filter_eq_self.mpr fun y hy => ?_,nil_append]
    · have := hhigh y hy
      exact decide_eq_true (by omega)
    · have := hlow y hy
      have := of_decide_eq_true h
      omega
    have := of_decide_eq_true hy
    omega
  · rw [inRange,hsplit _ fun y hy => (of_decide_eq_true hy).1, filter_eq_self.mpr fun y hy => ?_,
      filter_eq_nil_iff.mpr fun y hy h => ?_,append_nil]
    · have := hhigh y hy
      have := (of_decide_eq_true h).2
      omega
    have hmem := mem_of_mem_take hy
    rw [dictLowerBound_eq hsrt,mem_filter,decide_eq_true_iff] at hmem
    exact decide_eq_true ⟨hmem.2,hlow y hy⟩

theorem lowerBound_shrinks (hsrt : Ascending lsps) (hx : x∈dictLowerBound lsps start)
    (hnext : idValue x.lspId < idValue next) :
    (dictLowerBound lsps next).length<(dictLowerBound lsps start).length := by
  rw [dictLowerBound_eq hsrt] at hx ⊢
  rw [dictLowerBound_eq hsrt]
  obtain ⟨hmem,hstart⟩ := mem_filter.mp hx
  have hstart := of_decide_eq_true hstart
  have hsub : (lsps.filter fun y => decide (idValue next ≤ idValue y.lspId)).Sublist
      (lsps.filter fun y => decide (idValue start ≤ idValue y.lspId)) :=
    monotone_filter_right _ fun y hy =>
      decide_eq_true (hstart.trans (hnext.le.trans (of_decide_eq_true hy)))
  refine lt_of_le_of_ne hsub.length_le fun heq => ?_
  rw [←hsub.eq_of_length heq,mem_filter] at hx
  exact not_le.mpr hnext (of_decide_eq_true hx.2)

theorem csnpStop_cases {n : Byte} {stop : LspId} (h : csnpStop n lsps=some stop) :
    lsps.length<n.toNat ∧ stop=highestId ∨
      n.toNat≤lsps.length ∧ ∃ x, lsps.getLast? = some x ∧ x.lspId=stop := by
  rw [csnpStop] at h
  split at h
  · rename_i hlt
    exact Or.inl ⟨hlt,(some.inj h).symm⟩
  rename_i hge
  exact Or.inr ⟨not_lt.mp hge,map_eq_some_iff.mp h⟩

theorem csnpStop_none {n : Byte} (h : csnpStop n lsps=none) : n=0 ∧ lsps=[] := by
  rw [csnpStop] at h
  split at h
  · cases h
  rename_i hge
  have hnil := getLast?_eq_none_iff.mp (map_eq_none_iff.mp h)
  rw [hnil,length_nil,not_lt,le_zero] at hge
  exact ⟨BitVec.eq_of_toNat_eq hge,hnil⟩

def chunk (level : IsisLevel) (circuit : IsisCircuit) (db : LspDb) (start : LspId) : List IsisLsp :=
  (dictLowerBound db.lsps start).take (csnpLimit (numLsps level circuit))

theorem lspBuildList_chunk (start : LspId) :
    lspBuildList start highestId ((maxLspsPerSnp level circuit).setWidth 8) db =
      chunk level circuit db start := lspBuildList_eq start _ db

variable {fuel sent : ℕ} {start stop : LspId}

/-- A turn has no LSP to stop at, no room in the stream, or a CSNP. -/
theorem sendLoop_cases (fuel sent : ℕ) (start : LspId) :
    csnpStop (numLsps level circuit) (chunk level circuit db start)=none ∧
      sendLoop hmacMd5 sysid tx level circuit db (fuel+1) sent start=([],.crashed) ∨
    ∃ stop, csnpStop (numLsps level circuit) (chunk level circuit db start)=some stop ∧
      (¬Room level circuit (chunk level circuit db start).length ∧
        sendLoop hmacMd5 sysid tx level circuit db (fuel+1) sent start =
          ([],.returned .isisWarning) ∨
      Room level circuit (chunk level circuit db start).length ∧ ∃ pdu,
        sendLoop hmacMd5 sysid tx level circuit db (fuel+1) sent start =
          if tx sent ≠ .isisOk then ([],.returned (tx sent))
          else
            match nextStart stop with
            | none => ([⟨start,stop,chunk level circuit db start,pdu⟩],.returned (tx sent))
            | some next =>
              let r := sendLoop hmacMd5 sysid tx level circuit db fuel (sent+1) next
              (⟨start,stop,chunk level circuit db start,pdu⟩::r.1,r.2)) := by
  cases hstop : csnpStop (numLsps level circuit) (chunk level circuit db start) with
  | none =>
    refine .inl ⟨rfl,?_⟩
    rw [sendLoop,lspBuildList_chunk]
    rw [numLsps] at hstop
    rw [hstop]
  | some stop =>
    refine .inr ⟨stop,rfl,?_⟩
    rw [sendLoop,lspBuildList_chunk]
    rw [numLsps] at hstop
    rw [hstop]
    rcases buildCsnp_cases hmacMd5 sysid level start stop (chunk level circuit db start) circuit
      with ⟨hroom,pdu,hbuild⟩|⟨hfull,hbuild⟩
    · refine .inr ⟨hroom,pdu,?_⟩
      dsimp only
      rewrite [hbuild]
      rfl
    · refine .inl ⟨hfull,?_⟩
      dsimp only
      rw [hbuild]

theorem stop_of_ne (h : csnpStop (numLsps level circuit) (chunk level circuit db start)=some stop)
    (hne : stop≠highestId) : ∃ x∈dictLowerBound db.lsps start, x.lspId=stop := by
  rcases csnpStop_cases h with ⟨-,hstop⟩|⟨-,x,hx,hid⟩
  · exact (hne hstop).elim
  · exact ⟨x,mem_of_mem_take (mem_of_getLast? hx),hid⟩

theorem sendLoop_ne_stuck (fuel : ℕ) : ∀ {sent : ℕ} {start : LspId},
    (dictLowerBound db.lsps start).length<fuel →
      (sendLoop hmacMd5 sysid tx level circuit db fuel sent start).2 ≠ .stuck := by
  induction fuel with
  | zero => exact fun h => (not_lt_zero _ h).elim
  | succ fuel ih =>
    intro sent start hfuel
    rcases @sendLoop_cases hmacMd5 sysid tx level circuit db fuel sent start with
      ⟨-,hrun⟩|⟨stop,hstop,⟨-,hrun⟩|⟨-,pdu,hrun⟩⟩
    all_goals rw [hrun]
    · exact nofun
    · exact nofun
    by_cases htx : tx sent≠.isisOk
    · rw [if_pos htx]
      exact nofun
    rw [if_neg htx]
    by_cases hhigh : stop=highestId
    · rw [hhigh,nextStart_highestId]
      exact nofun
    obtain ⟨next,hnext,hgrow,-⟩ := nextStart_of_ne hhigh
    obtain ⟨x,hx,rfl⟩ := stop_of_ne hstop hhigh
    rw [hnext]
    refine ih ?_
    have hless := lowerBound_shrinks (LspDb.ascending db) hx hgrow
    omega

end

section

variable {level : IsisLevel} {circuit : IsisCircuit} {n : Byte} {rest : List IsisLsp} {x : IsisLsp}

theorem getLast_take (h : (rest.take (csnpLimit n)).getLast? = some x) : ∃ q,
    (rest.take (csnpLimit n)).length=q+1 ∧ rest[q]? = some x ∧
      (csnpLimit n=q+1 ∨ rest.length=q+1 ∧ q+1<csnpLimit n) := by
  rw [getLast?_eq_getElem?,getElem?_take] at h
  have hlen : (rest.take (csnpLimit n)).length=min (csnpLimit n) rest.length := length_take
  split at h
  · obtain ⟨hlt,-⟩ := List.getElem?_eq_some_iff.mp h
    refine ⟨(rest.take (csnpLimit n)).length-1,by omega,h,?_⟩
    omega
  · cases h

theorem closing {q : ℕ} (hlen : (rest.take (csnpLimit n)).length=q+1)
    (hn : n.toNat≤(rest.take (csnpLimit n)).length)
    (hq : csnpLimit n=q+1 ∨ rest.length=q+1 ∧ q+1<csnpLimit n) :
    (q+1)%csnpLimit n=0 ∨ n.toNat<2 ∧ q+1=rest.length := by
  rcases hq with hfull|⟨hend,hlt⟩
  · rw [hfull]
    exact Or.inl (mod_self _)
  refine Or.inr ⟨?_,hend.symm⟩
  by_contra hge
  rw [csnpLimit,if_neg hge] at hlt
  omega

theorem splitsWell_short (hn : (rest.take (csnpLimit n)).length<n.toNat) :
    SplitsWell level circuit n rest ↔ Room level circuit (rest.take (csnpLimit n)).length := by
  have hle := le_csnpLimit n
  rw [length_take] at hn ⊢
  refine ⟨fun h => h.room,fun hroom => ⟨fun _ h0 => ?_,hroom,?_,fun h0 => ?_⟩⟩
  · rw [h0] at hn
    exact not_lt_zero _ hn
  · intro p x hp hstop
    obtain ⟨hlt,-⟩ := List.getElem?_eq_some_iff.mp hp
    rcases hstop with hmod|⟨htwo,hend⟩
    · rw [mod_eq_of_lt (by omega)] at hmod
      omega
    · omega
  rw [h0] at hn
  exact (not_lt_zero _ hn).elim

/-- When a CSNP ends at the highest id it is the last one. -/
theorem splitsWell_highest (hsrt : Ascending rest)
    (hx : (rest.take (csnpLimit n)).getLast? = some x) (hid : x.lspId=highestId) :
    rest.take (csnpLimit n)=rest ∧
      (SplitsWell level circuit n rest ↔ Room level circuit (rest.take (csnpLimit n)).length) := by
  obtain ⟨q,hlen,hq,hcase⟩ := getLast_take hx
  have hend : rest.length=q+1 := by
    obtain ⟨hlt,hget⟩ := List.getElem?_eq_some_iff.mp hq
    refine le_antisymm (not_lt.mp fun hmore => ?_) hlt
    have hup := pairwise_iff_getElem.mp hsrt q (q+1) hlt hmore (lt_succ_self _)
    rw [hget,hid] at hup
    exact not_lt.mpr (idValue_le _) hup
  have hall : rest.take (csnpLimit n)=rest := by
    refine take_of_length_le ?_
    omega
  have hne : rest≠[] := by
    rintro rfl
    cases hend
  refine ⟨hall,fun h => ?_,fun hroom => ⟨fun h => (hne h).elim,?_,fun p y hp hstop => ?_,
    fun _ y hy => ?_⟩⟩
  · rw [length_take]
    exact h.room
  · rw [←length_take]
    exact hroom
  · obtain ⟨hlt,-⟩ := List.getElem?_eq_some_iff.mp hp
    have hpq : p=q := by
      rcases hstop with hmod|⟨-,hlast⟩
      · have hle : csnpLimit n≤p+1 := le_of_dvd (succ_pos _) (dvd_of_mod_eq_zero hmod)
        omega
      · omega
    rw [hpq,hq] at hp
    exact Or.inl (some.inj hp ▸ hid)
  rw [hall] at hx
  rw [hx] at hy
  exact some.inj hy ▸ hid

theorem not_splitsWell (hn : n.toNat≤(rest.take (csnpLimit n)).length)
    (hx : (rest.take (csnpLimit n)).getLast? = some x) (hid : x.lspId≠highestId)
    (hff : x.lspId.bytes.getLast? = some 0xff) : ¬SplitsWell level circuit n rest := by
  intro h
  obtain ⟨q,hlen,hq,hcase⟩ := getLast_take hx
  exact (h.stops q x hq (closing hlen hn hcase)).elim hid fun hne => hne hff

theorem splitsWell_next (hx : (rest.take (csnpLimit n)).getLast? = some x)
    (hid : x.lspId≠highestId) (hff : x.lspId.bytes.getLast? ≠ some 0xff) :
    SplitsWell level circuit n rest ↔ Room level circuit (rest.take (csnpLimit n)).length ∧
      SplitsWell level circuit n (rest.drop (rest.take (csnpLimit n)).length) := by
  obtain ⟨q,hlen,hq,hcase⟩ := getLast_take hx
  obtain ⟨hlt,hget⟩ := List.getElem?_eq_some_iff.mp hq
  have hne : rest≠[] := by
    rintro rfl
    exact not_lt_zero _ hlt
  have hmin := length_take (l := rest) (i := csnpLimit n)
  rw [hlen]
  constructor
  · intro h
    refine ⟨?_,fun hnil h0 => hid ?_,?_,fun p y hp hstop => ?_,fun h0 y hy => ?_⟩
    · have hroom := h.room
      rwa [←hmin,hlen] at hroom
    · refine h.closes h0 x ?_
      have hle := drop_eq_nil_iff.mp hnil
      rw [getLast?_eq_getElem?,le_antisymm hle hlt]
      exact hq
    · refine Room.mono ?_ h.room
      rw [length_drop]
      omega
    · rw [getElem?_drop] at hp
      refine h.stops (q+1+p) y hp ?_
      rw [length_drop] at hstop
      rcases hstop with hmod|⟨htwo,hend⟩
      · rcases hcase with hfull|⟨hend,-⟩
        · rw [add_assoc,←hfull,add_mod_left]
          exact Or.inl hmod
        obtain ⟨hin,-⟩ := List.getElem?_eq_some_iff.mp hp
        omega
      · exact Or.inr ⟨htwo,by omega⟩
    refine h.closes h0 y ?_
    rw [←take_append_drop (q+1) rest,getLast?_append,hy]
    rfl
  · rintro ⟨hroom,h⟩
    refine ⟨fun hnil => (hne hnil).elim,?_,fun p y hp hstop => ?_,fun h0 y hy => ?_⟩
    · rw [←hmin,hlen]
      exact hroom
    · rcases lt_or_ge p (q+1) with hfront|hback
      · have hpq : p=q := by
          rcases hstop with hmod|⟨-,hend⟩
          · have hle : csnpLimit n≤p+1 :=
              le_of_dvd (succ_pos _) (dvd_of_mod_eq_zero hmod)
            omega
          · omega
        rw [hpq,hq] at hp
        exact Or.inr (some.inj hp ▸ hff)
      obtain ⟨d,rfl⟩ : ∃ d, p=q+1+d := ⟨p-(q+1),by omega⟩
      refine h.stops d y (by rw [getElem?_drop]; exact hp) ?_
      rw [length_drop]
      rcases hstop with hmod|⟨htwo,hend⟩
      · rcases hcase with hfull|⟨hend,-⟩
        · rw [add_assoc,←hfull,add_mod_left] at hmod
          exact Or.inl hmod
        obtain ⟨hin,-⟩ := List.getElem?_eq_some_iff.mp hp
        omega
      · exact Or.inr ⟨htwo,by omega⟩
    · have hmore : rest.drop (q+1)≠[] := fun hnil => h.ends hnil h0
      refine h.closes h0 y ?_
      rw [getLast?_drop,if_neg,hy]
      exact fun hle => hmore (drop_eq_nil_iff.mpr hle)

end

section

variable {hmacMd5 : List Byte→List Byte→List Byte} {sysid : Octets 6} {tx : ℕ→IsisRet}
variable {level : IsisLevel} {circuit : IsisCircuit} {db : LspDb}

theorem chunk_eq_inRange (hx : (chunk level circuit db start).getLast? = some x)
    (hnext : idValue next=idValue x.lspId+1) :
    chunk level circuit db start=inRange start x.lspId db.lsps ∧ dictLowerBound db.lsps next =
        (dictLowerBound db.lsps start).drop (chunk level circuit db start).length := by
  obtain ⟨q,hlength,hq,-⟩ := getLast_take hx
  obtain ⟨hdrop,hin⟩ := lowerBound_next (LspDb.ascending db) hq hnext
  have hwhole : chunk level circuit db start=(dictLowerBound db.lsps start).take (q+1) := by
    rw [←hlength,length_take,←take_eq_take_min]
    rfl
  have hlen : (chunk level circuit db start).length=q+1 := hlength
  rw [hlen]
  exact ⟨hwhole.trans hin.symm,hdrop⟩

theorem inRange_highest (db : LspDb) :
    inRange start highestId db.lsps=dictLowerBound db.lsps start := by
  rw [dictLowerBound_eq (LspDb.ascending db),inRange]
  refine filter_congr fun x _ => ?_
  rw [decide_eq_decide]
  exact and_iff_left (idValue_le x.lspId)

/-- From a start on, all ids are covered exactly when the LSPs are split well. -/
theorem sendLoop_iff (htx : ∀ k, tx k=.isisOk) (fuel : ℕ) : ∀ {sent : ℕ} {start : LspId},
    (dictLowerBound db.lsps start).length<fuel →
      ((sendLoop hmacMd5 sysid tx level circuit db fuel sent start).2=.returned .isisOk ∧
        Covering db.lsps (idValue start)
          (sendLoop hmacMd5 sysid tx level circuit db fuel sent start).1 ↔
      SplitsWell level circuit (numLsps level circuit) (dictLowerBound db.lsps start)) ∧
      ∀ c∈(sendLoop hmacMd5 sysid tx level circuit db fuel sent start).1.head?, c.start=start := by
  induction fuel with
  | zero => exact fun h => (not_lt_zero _ h).elim
  | succ fuel ih =>
    intro sent start hfuel
    rcases @sendLoop_cases hmacMd5 sysid tx level circuit db fuel sent start with
      ⟨hstop,hrun⟩|⟨stop,hstop,⟨hroom,hrun⟩|⟨hroom,pdu,hrun⟩⟩
    · rw [hrun]
      obtain ⟨h0,hnil⟩ := csnpStop_none hstop
      have hrs := (take_eq_nil_iff.mp hnil).resolve_left (csnpLimit_pos _).ne'
      exact ⟨⟨fun h => (h.2.ne_nil rfl).elim,fun h => (h.ends hrs h0).elim⟩,
        fun c hc => by cases hc⟩
    · rw [hrun]
      refine ⟨⟨fun h => (h.2.ne_nil rfl).elim,fun h => (hroom ?_).elim⟩,fun c hc => by cases hc⟩
      have hfits := h.room
      rw [←length_take] at hfits
      exact hfits
    rw [htx sent,if_neg fun h => h rfl] at hrun
    rw [hrun]
    by_cases hhigh : stop=highestId
    · rw [hhigh] at hstop ⊢
      rw [nextStart_highestId]
      have hall : chunk level circuit db start=dictLowerBound db.lsps start ∧
          SplitsWell level circuit (numLsps level circuit) (dictLowerBound db.lsps start) := by
        rcases csnpStop_cases hstop with ⟨hshort,-⟩|⟨-,x,hx,hid⟩
        · refine ⟨take_of_length_le ?_,(splitsWell_short hshort).mpr hroom⟩
          have hle := le_csnpLimit (numLsps level circuit)
          rw [chunk,length_take] at hshort
          omega
        have hsrt : Ascending (dictLowerBound db.lsps start) := by
          rw [dictLowerBound_eq (LspDb.ascending db)]
          exact (LspDb.ascending db).filter _
        obtain ⟨hall,hiff⟩ := @splitsWell_highest level circuit _ _ _ hsrt hx hid
        exact ⟨hall,hiff.mpr hroom⟩
      refine ⟨iff_of_true ⟨rfl, @Covering.last _ ⟨start,highestId,_,pdu⟩ rfl ?_⟩ hall.2,
        fun c hc => ?_⟩
      · exact hall.1.trans (inRange_highest db).symm
      cases hc
      rfl
    · obtain ⟨next,hnext,hgrow,hone⟩ := nextStart_of_ne hhigh
      rcases csnpStop_cases hstop with ⟨-,hstop⟩|⟨hn,x,hx,rfl⟩
      · exact (hhigh hstop).elim
      have hmem := mem_of_mem_take (mem_of_getLast? hx)
      have hless := lowerBound_shrinks (LspDb.ascending db) hmem hgrow
      obtain ⟨hrs,hfst⟩ := @ih (sent+1) next (by omega)
      rw [hnext]
      refine ⟨?_,fun c hc => by cases hc; rfl⟩
      by_cases hff : x.lspId.bytes.getLast? = some 0xff
      · refine iff_of_false (fun h => ?_) (not_splitsWell hn hx hhigh hff)
        have htail := @Covering.tail _ _ ⟨start,x.lspId,_,pdu⟩ h.2 hhigh
        obtain ⟨c,cs,hcs⟩ := exists_cons_of_ne_nil htail.ne_nil
        rw [hcs] at htail hfst
        have hstart := htail.start_eq
        rw [hfst c rfl] at hstart
        exact hone.mp hstart hff
      have hsucc := hone.mpr hff
      obtain ⟨hin,hdrop⟩ := chunk_eq_inRange hx hsucc
      have hle : idValue start ≤ idValue x.lspId := by
        rw [dictLowerBound_eq (LspDb.ascending db),mem_filter,decide_eq_true_iff] at hmem
        exact hmem.2
      rw [hsucc,hdrop] at hrs
      refine Iff.trans ?_ (splitsWell_next hx hhigh hff).symm
      constructor
      · rintro ⟨hret,hcover⟩
        exact ⟨hroom,hrs.mp ⟨hret,@Covering.tail _ _ ⟨start,x.lspId,_,pdu⟩ hcover hhigh⟩⟩
      · rintro ⟨-,hsplit⟩
        obtain ⟨hret,hcover⟩ := hrs.mpr hsplit
        exact ⟨hret, @Covering.next _ ⟨start,x.lspId,_,pdu⟩ _ hle hin hcover⟩

theorem sendCsnp_ne_stuck : (sendCsnp hmacMd5 sysid tx level circuit db).2 ≠ .stuck := by
  rw [sendCsnp]
  split
  · exact nofun
  refine sendLoop_ne_stuck _ (lt_succ_of_le ?_)
  exact (dropWhile_suffix _).length_le

/-- **Sending.** The CSNPs cover all ids exactly when there are LSPs and they are split
well. -/
theorem describes_iff : Describes hmacMd5 sysid level circuit db ↔
    db.lsps≠[] ∧ SplitsWell level circuit (numLsps level circuit) db.lsps := by
  have hlow : idValue lowestId=0 := rfl
  have hall : dictLowerBound db.lsps lowestId=db.lsps := by
    rw [dictLowerBound_eq (LspDb.ascending db),hlow]
    exact filter_eq_self.mpr fun x _ => decide_eq_true (zero_le _)
  have hloop : ∀ tx : ℕ → IsisRet, (∀ k, tx k=.isisOk) → db.lsps≠[] →
      ((sendCsnp hmacMd5 sysid tx level circuit db).2=.returned .isisOk ∧
        Covering db.lsps 0 (sendCsnp hmacMd5 sysid tx level circuit db).1 ↔
      SplitsWell level circuit (numLsps level circuit) db.lsps) := by
    intro tx htx hne
    have h := (@sendLoop_iff hmacMd5 sysid tx level circuit db htx (db.lsps.length+1) 0 lowestId
      (by rw [hall]; exact lt_succ_self _)).1
    rw [hall,hlow] at h
    rw [sendCsnp,if_neg hne]
    exact h
  constructor
  · intro h
    have hsent := h (fun _ => .isisOk) fun _ => rfl
    have hne : db.lsps≠[] := by
      intro hnil
      rw [sendCsnp,if_pos hnil] at hsent
      exact hsent.2.ne_nil rfl
    exact ⟨hne,(hloop _ (fun _ => rfl) hne).mp hsent⟩
  · rintro ⟨hne,hsplit⟩ tx htx
    exact (hloop tx htx hne).mpr hsplit

end

end RoutePlatform.CsnpSending
