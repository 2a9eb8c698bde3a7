import RoutePlatform.EigrpRouter

/-!
# EIGRP: what cleaning up and sending leave alone

Updating the routing table, cleaning up a destination and threading it for transmission
take routes out of its chain and change their order, but never change a distance, the
query origin or the reply status table, and they send no reply.
-/

namespace RoutePlatform.EigrpDual

open List

open EigrpItems (U32 inaccess NetEntry)

/-- What the condition and the reply status depend on, but for the routes. -/
structure Core where
  dest : NetEntry
  oldMetric : U32
  origin : QueryOrigin
  replyStatus : ReplyStatus

def Ndb.core (n : Ndb) : Core := ⟨n.dest,n.oldMetric,n.origin,n.replyStatus⟩

/-- A route without its transmission state. -/
def Rdb.plain (r : Rdb) : Rdb := {r with sndReply := false}

/-- The routes without their transmission state. -/
def Ndb.plain (n : Ndb) : List Rdb := n.rdb.map Rdb.plain

/-- The second destination has the core of the first and some of its routes. -/
structure Ndb.Kept (n n' : Ndb) : Prop where
  core : n'.core=n.core
  plain : n'.plain.Subperm n.plain

theorem Ndb.Kept.refl (n : Ndb) : n.Kept n := ⟨rfl,List.Subperm.refl _⟩

theorem Ndb.Kept.trans {a b c : Ndb} (h : a.Kept b) (h' : b.Kept c) : a.Kept c :=
  ⟨h'.core.trans h.core,h'.plain.trans h.plain⟩

/-- The destination of the cell is kept, no reply is sent and no assertion fails. -/
structure Cell.Kept (c c' : Cell) : Prop where
  ndb : c.ndb.Kept c'.ndb
  replies : c'.replies=c.replies
  asserted : c'.asserted=c.asserted

variable (c : Cell)

theorem Cell.Kept.refl : c.Kept c := ⟨Ndb.Kept.refl _,rfl,rfl⟩

theorem Cell.Kept.trans {a b c : Cell} (h : a.Kept b) (h' : b.Kept c) : a.Kept c :=
  ⟨h.ndb.trans h'.ndb,h'.replies.trans h.replies,h'.asserted.trans h.asserted⟩

theorem Cell.Kept.of_ndb {c : Cell} {n : Ndb} (h : c.ndb.Kept n) : c.Kept {c with ndb := n} :=
  ⟨h,rfl,rfl⟩

variable {n n' : Ndb}

theorem Ndb.Kept.of_eq (hcore : n'.core=n.core) (hrdb : n'.rdb=n.rdb) : n.Kept n' := by
  refine ⟨hcore,?_⟩
  rw [Ndb.plain,Ndb.plain,hrdb]

theorem Ndb.Kept.edited {m m' : Ndb} (h : m.Kept m') (hcore : m.core=n.core)
    (hrdb : m.rdb=n.rdb) : n.Kept m' :=
  (Ndb.Kept.of_eq hcore hrdb).trans h

theorem Ndb.Kept.of_subperm (hcore : n'.core=n.core) (hrdb : n'.rdb.Subperm n.rdb) : n.Kept n' := by
  obtain ⟨l,hperm,hsub⟩ := hrdb
  exact ⟨hcore,l.map Rdb.plain,hperm.map _,hsub.map _⟩

theorem Cell.Kept.edited {c d : Cell} (h : Cell.Kept {c with ndb := n} d)
    (hcore : n.core=c.ndb.core) (hrdb : n.rdb=c.ndb.rdb) : c.Kept d :=
  (Cell.Kept.of_ndb (Ndb.Kept.of_eq hcore hrdb)).trans h

theorem Ndb.active_of_core (h : n'.core=n.core) : n'.active=n.active := by
  have hstatus : n'.replyStatus=n.replyStatus := congrArg Core.replyStatus h
  rw [Ndb.active,Ndb.active,hstatus]

theorem dndbDelete_kept : c.Kept (dndbDelete c) := by
  rw [dndbDelete]
  split
  · exact Cell.Kept.refl c
  · exact ⟨Ndb.Kept.refl _,rfl,rfl⟩

theorem deleteIdle_kept : c.Kept (deleteIdle c) := by
  rw [deleteIdle]
  split
  · exact dndbDelete_kept c
  · exact Cell.Kept.refl c

variable (id : ℕ)

theorem zapDrdb_kept (notify : Bool) : c.Kept (zapDrdb c id notify) := by
  rw [zapDrdb]
  split
  · exact Cell.Kept.refl c
  · exact ⟨Ndb.Kept.of_subperm rfl (eraseIdx_sublist _ _).subperm,rfl,rfl⟩

theorem rdbClear_kept : c.Kept (rdbClear c id) := (zapDrdb_kept c id true).trans (deleteIdle_kept _)

theorem cleanupMulti_kept : c.Kept (cleanupMulti c) := Cell.Kept.edited (deleteIdle_kept _) rfl rfl

theorem cleanupReply_kept : c.Kept (cleanupReply c) := Cell.Kept.edited (deleteIdle_kept _) rfl rfl

theorem modify_plain {f : Rdb → Rdb} (hf : ∀ r, (f r).plain=r.plain) :
    (n.modify id f).plain=n.plain := by
  rw [Ndb.plain,Ndb.modify,map_map,Ndb.plain]
  apply map_congr_left
  intro r _
  simp only [Function.comp]
  split
  · exact hf r
  · rfl

theorem modify_kept {f : Rdb → Rdb} (hf : ∀ r, (f r).plain=r.plain) :
    n.Kept (n.modify id f) := by
  refine ⟨rfl,?_⟩
  rw [modify_plain id hf]

theorem cleanupDrdb_kept (zap : Bool) : c.Kept (cleanupDrdb c id zap) := by
  have hlast (d : Cell) (hd : c.Kept d) :
      c.Kept (if d.ndb.rdb.any Rdb.sndReply then d else cleanupReply d) := by
    split
    · exact hd
    · exact hd.trans (cleanupReply_kept d)
  have hfst : c.Kept {c with ndb := c.ndb.modify id fun r => {r with sndReply := false}} :=
    Cell.Kept.of_ndb (modify_kept id fun _ => rfl)
  rw [cleanupDrdb]
  refine hlast _ (hfst.trans ?_)
  split
  · exact Cell.Kept.refl _
  split
  · exact zapDrdb_kept _ _ _
  · exact Cell.Kept.refl _

variable (k : ℕ)

theorem xmitDndb_kept (c : Cell) : c.Kept (xmitDndb k c) := by
  rw [xmitDndb]
  split
  · split <;> exact Cell.Kept.of_ndb (Ndb.Kept.of_eq rfl rfl)
  · exact Cell.Kept.edited (cleanupMulti_kept _) rfl rfl

theorem finishUpdateSend_kept (c : Cell) : c.Kept (finishUpdateSend k c) := by
  rw [finishUpdateSend]
  split
  · exact Cell.Kept.edited (xmitDndb_kept k _) rfl rfl
  · exact Cell.Kept.refl c

theorem dropDndbRefcount_kept (update : Bool) : c.Kept (dropDndbRefcount c update) := by
  rw [dropDndbRefcount]
  dsimp only
  split
  · exact Cell.Kept.of_ndb (Ndb.Kept.of_eq rfl rfl)
  split
  · split
    · exact Cell.Kept.of_ndb (Ndb.Kept.of_eq rfl rfl)
    split <;> exact Cell.Kept.edited (cleanupMulti_kept _) rfl rfl
  · exact Cell.Kept.of_ndb (Ndb.Kept.of_eq rfl rfl)

theorem XmitEvent.apply_kept (c : Cell) (e : XmitEvent) : c.Kept (e.apply k c) := by
  cases e with
  | finish dest => exact finishUpdateSend_kept k c
  | sent dest => exact Cell.Kept.of_ndb (Ndb.Kept.of_eq rfl rfl)
  | drop dest update => exact dropDndbRefcount_kept c update
  | replied dest id => exact cleanupDrdb_kept c id true

theorem sendQuery_kept (c : Cell) : c.Kept (sendQuery k c) :=
  Cell.Kept.edited (xmitDndb_kept k _) rfl rfl

theorem sendUpdate_kept (n : Ndb) : n.Kept (sendUpdate n) := by
  rw [sendUpdate]
  split
  · split
    · exact Ndb.Kept.refl n
    · exact Ndb.Kept.of_eq rfl rfl
  · exact Ndb.Kept.of_eq rfl rfl

theorem perm_of_find? {α : Type*} {p : α → Bool} {l : List α} {a : α} (h : l.find? p=some a) :
    (a::l.eraseP p).Perm l := by
  induction l with
  | nil => cases h
  | cons b l ih =>
    cases hb : p b with
    | true =>
      rw [find?_cons_of_pos hb] at h
      cases h
      rw [eraseP_cons_of_pos hb]
    | false =>
      have hneg : ¬p b=true := by simp [hb]
      rw [find?_cons_of_neg hneg] at h
      rw [eraseP_cons_of_neg hneg]
      exact (List.Perm.swap b a _).trans ((ih h).cons b)

theorem promote_kept (n : Ndb) (r : Rdb) : n.Kept (promote n r) := by
  rw [promote]
  split
  · exact Ndb.Kept.refl n
  rename_i first rest hrdb
  split
  · exact Ndb.Kept.refl n
  rename_i hfst
  split
  · exact Ndb.Kept.refl n
  rename_i q hq
  have hid : q.id=r.id := by
    have h := find?_some hq
    exact of_decide_eq_true h
  have hperm : (q::n.rdb.eraseP fun x => decide (x.id=q.id)).Perm n.rdb := by
    rw [hid]
    exact perm_of_find? hq
  split
  · refine Ndb.Kept.of_subperm rfl (List.Perm.subperm ?_)
    have hneg : ¬decide (first.id=q.id)=true := by simpa [hid] using hfst
    have herase : n.rdb.eraseP (fun x => decide (x.id=q.id)) =
        first::rest.eraseP fun x => decide (x.id=q.id) := by
      rw [hrdb]
      exact eraseP_cons_of_neg hneg
    rw [herase,hrdb] at hperm
    rw [hid] at herase hperm
    rw [hid,herase,hrdb]
    exact (List.Perm.swap q first _).trans hperm
  · exact Ndb.Kept.of_subperm rfl hperm.subperm

variable (r : Rdb)

theorem rtupdate_kept : c.Kept (rtupdate c r) := by
  have hone (k : ℕ) : c.ndb.Kept {c.ndb with succNum := k} := Ndb.Kept.of_eq rfl rfl
  have hprom (k : ℕ) : c.ndb.Kept (promote {c.ndb with succNum := k} r) :=
    (hone k).trans (promote_kept _ _)
  rw [rtupdate]
  split
  · dsimp only
    split
    · exact Cell.Kept.of_ndb (hprom 1)
    · exact Cell.Kept.of_ndb (hone 1)
  · exact Cell.Kept.of_ndb (hone 1)
  · exact Cell.Kept.of_ndb (hone 1)
  · dsimp only
    split
    · exact Cell.Kept.of_ndb (hprom 1)
    · exact Cell.Kept.of_ndb (hone 1)
  · dsimp only
    split
    · exact ⟨hprom _,rfl,rfl⟩
    · exact ⟨hone _,rfl,rfl⟩
  dsimp only
  split
  · exact ⟨hprom _,rfl,rfl⟩
  · exact ⟨hone _,rfl,rfl⟩

theorem foldl_kept {f : Cell → Rdb → Cell} (hf : ∀ (c : Cell) (r : Rdb), c.Kept (f c r))
    (l : List Rdb) (c : Cell) :
    c.Kept (l.foldl f c) := by
  induction l generalizing c with
  | nil => exact Cell.Kept.refl c
  | cons r l ih => exact (hf c r).trans (ih (f c r))

theorem promoteSummary_kept (n : Ndb) : n.Kept (promoteSummary n) := by
  rw [promoteSummary]
  split
  · split
    · exact Ndb.Kept.refl n
    · exact Ndb.Kept.edited (promote_kept _ _) rfl rfl
  · exact Ndb.Kept.refl n

theorem scanReasons_kept (n : Ndb) : n.Kept (scanReasons n) := by
  rw [scanReasons]
  split
  · exact sendUpdate_kept n
  split
  · exact Ndb.Kept.edited (sendUpdate_kept _) rfl rfl
  split
  · exact sendUpdate_kept n
  · exact Ndb.Kept.refl n

theorem scanUpdate_kept : c.Kept (scanUpdate c) := by
  have hscan (c : Cell) (r : Rdb) : c.Kept (if r.flagIgnore then c else rtupdate c r) := by
    split
    · exact Cell.Kept.refl c
    · exact rtupdate_kept c r
  have hstart : c.Kept {c with ndb := {c.ndb with succNum := 0}} :=
    Cell.Kept.of_ndb (Ndb.Kept.of_eq rfl rfl)
  rw [scanUpdate]
  refine (hstart.trans (foldl_kept hscan _ _)).trans (Cell.Kept.of_ndb ?_)
  exact (promoteSummary_kept _).trans (scanReasons_kept _)

theorem cleanRoute_kept : c.Kept (cleanRoute c r) := by
  rw [cleanRoute]
  split
  · split
    · exact zapDrdb_kept _ _ _
    · exact ⟨Ndb.Kept.refl _,rfl,rfl⟩
  split
  · exact ⟨Ndb.Kept.refl _,rfl,rfl⟩
  · exact Cell.Kept.refl c

theorem diddleSplitHorizon_kept (diddle : Bool) (before : List (Option ℕ)) (n : Ndb) :
    n.Kept (diddleSplitHorizon diddle before n) := by
  have hfst : n.Kept (if diddle then {n with flagSplitHorizon := true} else n) := by
    split
    · exact Ndb.Kept.of_eq rfl rfl
    · exact Ndb.Kept.refl n
  rw [diddleSplitHorizon]
  generalize (if diddle then {n with flagSplitHorizon := true} else n)=m at hfst
  split
  · exact hfst.trans (Ndb.Kept.edited (sendUpdate_kept _) rfl rfl)
  split
  · exact hfst.trans (Ndb.Kept.edited (sendUpdate_kept _) rfl rfl)
  · exact hfst

theorem routeUpdate_kept : c.Kept (routeUpdate c) := by
  rw [routeUpdate]
  have hscan : c.Kept (scanUpdate (c.ndb.rdb.foldl cleanRoute c)) :=
    (foldl_kept cleanRoute_kept _ c).trans (scanUpdate_kept _)
  split
  · exact hscan.trans (dndbDelete_kept _)
  · exact hscan.trans (Cell.Kept.of_ndb (diddleSplitHorizon_kept _ _ _))

theorem sendReply_kept (drdb : Option Rdb) : c.ndb.Kept (sendReply c drdb).ndb ∧
    (sendReply c drdb).asserted=c.asserted ∧ (sendReply c drdb).gone=c.gone ∧
    (sendReply c drdb).replies=c.replies++drdb.toList.map fun r => (r.iidb,r.nextHop) := by
  cases drdb with
  | none => exact ⟨Ndb.Kept.refl _,rfl,rfl,(append_nil _).symm⟩
  | some r =>
    have hmod : c.ndb.Kept (c.ndb.modify r.id fun r => {r with sndReply := true}) :=
      modify_kept r.id fun _ => rfl
    exact ⟨hmod.trans (Ndb.Kept.of_eq rfl rfl),rfl,rfl,rfl⟩

end RoutePlatform.EigrpDual
