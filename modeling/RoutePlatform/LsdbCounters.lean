import RoutePlatform.OperationRuns

/-!
# The counters of a link state database

`ospf_lsdb_add` and `ospf_lsdb_delete_entry` count what the LSA says of itself at that moment. The
LSA may change while it is in several databases, so the counters are right as long as flag and
checksum stay while it is entered anywhere.
-/

namespace RoutePlatform.LsdbCounters

open OperationRuns List Function

/-- What a database counts of `struct ospf_lsa`. -/
structure Lsa where
  type : ℕ
  id : BitVec 32
  advRouter : BitVec 32
  checksum : BitVec 16
  self : Bool
  deriving DecidableEq

/-- `ls_prefix_set`: where the LSA is entered. -/
def Lsa.key (o : Lsa) : ℕ × BitVec 32 × BitVec 32 := (o.type,o.id,o.advRouter)

/-- `struct ospf_lsdb`. -/
structure Lsdb where
  /-- The LSAs in the tables, each given by its pointer. -/
  entries : List ℕ
  total : BitVec 64
  count : ℕ → BitVec 64
  countSelf : ℕ → BitVec 64
  checksum : ℕ → BitVec 32

def ospfLsdbInit : Lsdb := ⟨[],0,fun _ => 0,fun _ => 0,fun _ => 0⟩

section

variable (lsa : ℕ → Lsa)

/-- What an LSA adds to the number of LSAs of a type. -/
def one (t p : ℕ) : BitVec 64 := if (lsa p).type=t then 1 else 0

/-- What it adds to the number of own ones. -/
def oneSelf (t p : ℕ) : BitVec 64 := if (lsa p).type=t ∧ (lsa p).self then 1 else 0

/-- What it adds to the sum of checksums. -/
def sumOf (t p : ℕ) : BitVec 32 := if (lsa p).type=t then (lsa p).checksum.setWidth 32 else 0

def ospfLsdbDeleteEntry (lsdb : Lsdb) (p : ℕ) : Lsdb where
  entries := lsdb.entries.erase p
  total := lsdb.total-1
  count := fun t => lsdb.count t-one lsa t p
  countSelf := fun t => lsdb.countSelf t-oneSelf lsa t p
  checksum := fun t => lsdb.checksum t-sumOf lsa t p

/-- The second half of `ospf_lsdb_add`. -/
def enter (lsdb : Lsdb) (p : ℕ) : Lsdb where
  entries := p::lsdb.entries
  total := lsdb.total+1
  count := fun t => lsdb.count t+one lsa t p
  countSelf := fun t => lsdb.countSelf t+oneSelf lsa t p
  checksum := fun t => lsdb.checksum t+sumOf lsa t p

def Lsdb.info (lsdb : Lsdb) (p : ℕ) : Option ℕ :=
  lsdb.entries.find? fun q => (lsa q).key=(lsa p).key

def ospfLsdbAdd (lsdb : Lsdb) (p : ℕ) : Lsdb :=
  match lsdb.info lsa p with
  | some old => if old=p then lsdb else enter lsa (ospfLsdbDeleteEntry lsa lsdb old) p
  | none => enter lsa lsdb p

def ospfLsdbDelete (lsdb : Lsdb) (p : ℕ) : Lsdb :=
  if lsdb.info lsa p=some p then ospfLsdbDeleteEntry lsa lsdb p else lsdb

def ospfLsdbDeleteAll (lsdb : Lsdb) : Lsdb := lsdb.entries.foldl (ospfLsdbDeleteEntry lsa) lsdb

end

/-- The LSAs and the databases of areas and neighbours. -/
structure World (ι : Type) where
  lsa : ℕ → Lsa
  lsdb : ι → Lsdb

/-- The calls on databases, and the stores that change a shared LSA. -/
inductive LsdbOp (ι : Type) where
  | add (i : ι) (p : ℕ)
  | delete (i : ι) (p : ℕ)
  | deleteAll (i : ι)
  | setSelf (p : ℕ)
  | setChecksum (p : ℕ) (checksum : BitVec 16)

variable {ι : Type} [DecidableEq ι]

def World.put (w : World ι) (i : ι) (f : Lsdb → Lsdb) : World ι :=
  {w with lsdb := update w.lsdb i (f (w.lsdb i))}

def step (w : World ι) : LsdbOp ι → Option (World ι)
  | .add i p => some (w.put i (ospfLsdbAdd w.lsa · p))
  | .delete i p => some (w.put i (ospfLsdbDelete w.lsa · p))
  | .deleteAll i => some (w.put i (ospfLsdbDeleteAll w.lsa))
  | .setSelf p => some {w with lsa := update w.lsa p {w.lsa p with self := true}}
  | .setChecksum p c => some {w with lsa := update w.lsa p {w.lsa p with checksum := c}}

/-- An LSA changes only while no database has it. -/
def Legal (w : World ι) : LsdbOp ι → Prop
  | .setSelf p => (w.lsa p).self ∨ ∀ i, p ∉ (w.lsdb i).entries
  | .setChecksum p c => (w.lsa p).checksum=c ∨ ∀ i, p ∉ (w.lsdb i).entries
  | _ => True

/-- The counters are exact, and there is one LSA at most at a key. -/
structure Exact (lsa : ℕ → Lsa) (lsdb : Lsdb) : Prop where
  once : (lsdb.entries.map fun p => (lsa p).key).Nodup
  total : lsdb.total=(lsdb.entries.length : BitVec 64)
  count : ∀ t, lsdb.count t=(lsdb.entries.countP fun p => (lsa p).type=t : ℕ)
  countSelf : ∀ t, lsdb.countSelf t=(lsdb.entries.countP fun p => (lsa p).type=t ∧ (lsa p).self : ℕ)
  checksum : ∀ t, lsdb.checksum t=((lsdb.entries.filter fun p => (lsa p).type=t).map
    fun p => (lsa p).checksum.setWidth 32).sum

/-- A counter that adds up what each LSA adds to it. -/
def tally {n : ℕ} (f : ℕ → BitVec n) (entries : List ℕ) : BitVec n := (entries.map f).sum

section

variable {lsa lsa' : ℕ → Lsa} {lsdb : Lsdb} {p q : ℕ} {n : ℕ} {entries : List ℕ} (f : ℕ → Prop)

theorem tally_erase (f : ℕ → BitVec n) (h : p∈entries) :
    tally f (entries.erase p)=tally f entries-f p := by
  have hsum := sum_map_erase f h
  rw [tally,tally,←hsum]
  ring

theorem tally_countP [DecidablePred f] :
    tally (fun p => if f p then 1 else 0) entries=(entries.countP f : BitVec n) := by
  induction entries with
  | nil => rfl
  | cons p entries ih =>
    rw [tally,map_cons,sum_cons,←tally,ih,countP_cons]
    by_cases hp : f p <;> simp [hp,add_comm]

theorem tally_filter [DecidablePred f] (g : ℕ → BitVec n) :
    tally (fun p => if f p then g p else 0) entries=((entries.filter f).map g).sum := by
  induction entries with
  | nil => rfl
  | cons p entries ih =>
    rw [tally,map_cons,sum_cons,←tally,ih,filter_cons]
    by_cases hp : f p <;> simp [hp]

/-- The counters as sums over the entries. -/
structure Counted (lsa : ℕ → Lsa) (lsdb : Lsdb) : Prop where
  once : (lsdb.entries.map fun p => (lsa p).key).Nodup
  total : lsdb.total=tally (fun _ => 1) lsdb.entries
  count : ∀ t, lsdb.count t=tally (one lsa t) lsdb.entries
  countSelf : ∀ t, lsdb.countSelf t=tally (oneSelf lsa t) lsdb.entries
  checksum : ∀ t, lsdb.checksum t=tally (sumOf lsa t) lsdb.entries

theorem Counted.exact (h : Counted lsa lsdb) : Exact lsa lsdb where
  once := h.once
  total := by
    rw [h.total,tally,map_const',sum_replicate,nsmul_one]
  count := fun t => (h.count t).trans (tally_countP _)
  countSelf := fun t => (h.countSelf t).trans (tally_countP _)
  checksum := fun t => (h.checksum t).trans (tally_filter _ _)

theorem counted_init : Counted lsa ospfLsdbInit :=
  ⟨nodup_nil,rfl,fun _ => rfl,fun _ => rfl,fun _ => rfl⟩

section

variable (h : Counted lsa lsdb)
include h

theorem Counted.deleteEntry (hp : p∈lsdb.entries) :
    Counted lsa (ospfLsdbDeleteEntry lsa lsdb p) where
  once := h.once.sublist (erase_sublist.map _)
  total := by
    dsimp only [ospfLsdbDeleteEntry]
    rw [tally_erase _ hp,h.total]
  count := fun t => by
    dsimp only [ospfLsdbDeleteEntry]
    rw [tally_erase _ hp,h.count]
  countSelf := fun t => by
    dsimp only [ospfLsdbDeleteEntry]
    rw [tally_erase _ hp,h.countSelf]
  checksum := fun t => by
    dsimp only [ospfLsdbDeleteEntry]
    rw [tally_erase _ hp,h.checksum]

theorem Counted.enter (hfree : ∀ q∈lsdb.entries, (lsa q).key≠(lsa p).key) :
    Counted lsa (enter lsa lsdb p) where
  once := nodup_cons.mpr ⟨fun hmem => by
    obtain ⟨q,hq,hkey⟩ := mem_map.mp hmem
    exact hfree q hq hkey,h.once⟩
  total := (congrArg (·+1) h.total).trans (add_comm ..)
  count := fun t => (congrArg (·+one lsa t p) (h.count t)).trans (add_comm ..)
  countSelf := fun t => (congrArg (·+oneSelf lsa t p) (h.countSelf t)).trans (add_comm ..)
  checksum := fun t => (congrArg (·+sumOf lsa t p) (h.checksum t)).trans (add_comm ..)

theorem Counted.add (p : ℕ) : Counted lsa (ospfLsdbAdd lsa lsdb p) := by
  unfold ospfLsdbAdd
  cases hinfo : lsdb.info lsa p with
  | none =>
    refine h.enter fun q hq hkey => ?_
    exact find?_eq_none.mp hinfo q hq (decide_eq_true hkey)
  | some old =>
    have hold : old∈lsdb.entries := mem_of_find?_eq_some hinfo
    have hfnd := find?_some hinfo
    have hkey : (lsa old).key=(lsa p).key := of_decide_eq_true hfnd
    dsimp only
    split
    · exact h
    refine (h.deleteEntry hold).enter fun q hq hq' => ?_
    obtain ⟨hne,hq⟩ := h.once.of_map.mem_erase_iff.mp hq
    exact hne (inj_on_of_nodup_map h.once hq hold (hq'.trans hkey.symm))

theorem Counted.delete (p : ℕ) : Counted lsa (ospfLsdbDelete lsa lsdb p) := by
  unfold ospfLsdbDelete
  split
  · rename_i hinfo
    exact h.deleteEntry (mem_of_find?_eq_some hinfo)
  · exact h

theorem Counted.deleteAll : Counted lsa (ospfLsdbDeleteAll lsa lsdb) := by
  unfold ospfLsdbDeleteAll
  generalize hent : lsdb.entries=entries
  induction entries generalizing lsdb with
  | nil => exact h
  | cons p entries ih =>
    refine ih (h.deleteEntry (hent ▸ mem_cons_self)) ?_
    dsimp only [ospfLsdbDeleteEntry]
    rw [hent,erase_cons_head]

theorem Counted.congr (hsame : ∀ q∈lsdb.entries, lsa' q=lsa q) :
    Counted lsa' lsdb where
  once := by
    rw [map_congr_left fun q hq => congrArg Lsa.key (hsame q hq)]
    exact h.once
  total := h.total
  count := fun t => (h.count t).trans (congrArg sum (map_congr_left fun q hq => by
    rw [one,one,hsame q hq]))
  countSelf := fun t => (h.countSelf t).trans (congrArg sum (map_congr_left fun q hq => by
    rw [oneSelf,oneSelf,hsame q hq]))
  checksum := fun t => (h.checksum t).trans (congrArg sum (map_congr_left fun q hq => by
    rw [sumOf,sumOf,hsame q hq]))

end

theorem counted_update {κ : Type} {lsdb : κ → Lsdb} (h : ∀ i, Counted lsa (lsdb i)) {o : Lsa}
    (hleg : lsa p=o ∨ ∀ i, p ∉ (lsdb i).entries) (i : κ) :
    Counted (update lsa p o) (lsdb i) := by
  rcases hleg with hsame|hout
  · rw [←hsame,update_eq_self]
    exact h i
  · refine (h i).congr fun q hq => ?_
    have hne : q≠p := fun heq => hout i (heq ▸ hq)
    exact update_of_ne hne _ _

end

theorem counted_step {w : World ι} (h : ∀ i, Counted w.lsa (w.lsdb i)) {op : LsdbOp ι}
    (hleg : Legal w op) :
    ∃ w', step w op=some w' ∧ ∀ i, Counted w'.lsa (w'.lsdb i) := by
  have hput : ∀ i f, Counted w.lsa (f (w.lsdb i)) →
      ∀ j, Counted (w.put i f).lsa ((w.put i f).lsdb j) := by
    intro i f hf j
    dsimp only [World.put]
    by_cases hj : j=i
    · rw [hj,update_self]
      exact hf
    · rw [update_of_ne hj]
      exact h j
  cases op with
  | add i p => exact ⟨_,rfl,hput i _ ((h i).add p)⟩
  | delete i p => exact ⟨_,rfl,hput i _ ((h i).delete p)⟩
  | deleteAll i => exact ⟨_,rfl,hput i _ (h i).deleteAll⟩
  | setSelf p =>
    refine ⟨_,rfl,counted_update h (hleg.imp_left fun hself => ?_)⟩
    rw [←hself]
  | setChecksum p c =>
    refine ⟨_,rfl,counted_update h (hleg.imp_left fun hsum => ?_)⟩
    rw [←hsum]

/-- The databases at the start, all of them empty. -/
def start (lsa : ℕ → Lsa) : World ι := ⟨lsa,fun _ => ospfLsdbInit⟩

/-- If LSAs change only outside of databases, every run leaves exact counters in each of them. -/
theorem ospfLsdb_run (lsa : ℕ → Lsa) (ops : List (LsdbOp ι))
    (hlegal : LegalRun step Legal (start lsa) ops) :
    ∃ w, run step (start lsa) ops=some w ∧ ∀ i, Exact w.lsa (w.lsdb i) := by
  obtain ⟨w,hrun,hcounted⟩ := run_invariant (fun _ _ h hl => counted_step h hl) ops (start lsa)
    (fun _ => counted_init) hlegal
  exact ⟨w,hrun,fun i => (hcounted i).exact⟩

/-- LSAs of one key, none of them marked as own. -/
def sampleLsa (p : ℕ) : Lsa := ⟨1,1,1,BitVec.ofNat 16 p,false⟩

/-- An LSA is marked before it replaces another one. -/
theorem ospfLsdb_run_sample :
    ∃ w, run step (start sampleLsa) [.setSelf 2,.add 0 1,.add 0 2,.deleteAll 0]=some w ∧
      ∀ i : ℕ, Exact w.lsa (w.lsdb i) :=
  ospfLsdb_run sampleLsa _ ⟨Or.inr fun _ => not_mem_nil,fun _ _ => ⟨trivial,fun _ _ =>
    ⟨trivial,fun _ _ => ⟨trivial,fun _ _ => trivial⟩⟩⟩⟩

/-- A received LSA is listed, found to be an own one, and acknowledged. -/
theorem ospfLsdb_selfMarked :
    ∃ w, run step (start sampleLsa) [.add 0 1,.setSelf 1,.delete 0 1]=some w ∧
      (w.lsdb (0 : ℕ)).countSelf 1=0xFFFFFFFFFFFFFFFF ∧ ¬Exact w.lsa (w.lsdb 0) := by
  refine ⟨_,rfl,by decide,fun h => ?_⟩
  have hself := h.countSelf 1
  revert hself
  decide

end RoutePlatform.LsdbCounters
