import RoutePlatform.AsPathBuilders

/-!
# The AS path of an UPDATE that is sent

`bgp_packet_attribute` of `bgpd/bgp_attr.c` works on a copy of the AS path for some peers and
on the interned path of the attribute itself for the others. Before an AS4_PATH it deletes
the leading confederation segments of whichever it has.
-/

namespace RoutePlatform.PacketAspath

open AsPathOperations AsPathSynthesis AsPathBuilders AttrOperations List Assegment Option

variable {path : Aspath} {peer : Receiver}

/-- The peer that the UPDATE is for. -/
structure Receiver where
  sort : PeerSort
  as4Rcv : Bool
  asPathUnchanged : Bool
  rserverClient : Bool
  confedId : Option AsT
  changeLocalAs : AsT
  replaceAs : Bool
  localAs : AsT

def aspathHasAs4 (path : Aspath) : Bool := path.any fun seg => seg.as.any fun as => 65535<as.toNat

/-- The copy of the path, if any, which always takes one more number. -/
def copied (peer : Receiver) (path : Aspath) : Option Aspath :=
  if peer.sort=.ebgp ∧ (!peer.asPathUnchanged ∨ path=[]) ∧ !peer.rserverClient then
    match peer.confedId with
    | some confedId => some (aspathAddSeq (aspathDeleteConfedSeq path) confedId)
    | none =>
      if peer.changeLocalAs≠0 then
        let path := if peer.replaceAs then path else aspathAddSeq path peer.localAs
        some (aspathAddSeq path peer.changeLocalAs)
      else some (aspathAddSeq path peer.localAs)
  else if peer.sort=.confed then some ((aspathAddConfedSeq path peer.localAs).getD [])
  else none

/-- The path that is written as AS_PATH. -/
def sentPath (peer : Receiver) (path : Aspath) : Aspath := (copied peer path).getD path

/-- An AS4_PATH is due. -/
def as4Due (peer : Receiver) (path : Aspath) : Bool :=
  !peer.as4Rcv && aspathHasAs4 (sentPath peer path)

/-- What `bgp_packet_attribute` does with the AS path. -/
structure Written where
  asPath : Aspath
  as4Path : Option Aspath
  /-- `attr->aspath` behind the call. -/
  attrAspath : Aspath

/-- `bgp_packet_attribute` on the AS path, which is changed where there is no copy. -/
def bgpPacketAspath (peer : Receiver) (path : Aspath) : Written :=
  if as4Due peer path then
    let cut := aspathDeleteConfedSeq (sentPath peer path)
    ⟨sentPath peer path,some cut,if (copied peer path).isSome then path else cut⟩
  else ⟨sentPath peer path,none,path⟩

/-- No segment is one of the confederation. -/
def ConfedFree (path : Aspath) : Prop := ∀ seg∈path, Assegment.isConfed seg=false

/-- The attribute keeps its path, the only field that the function can write, and an AS4_PATH has no
segment of a confederation. -/
def Faithful (path : Aspath) (w : Written) : Prop :=
  w.attrAspath=path ∧ ∀ as4Path, w.as4Path=some as4Path → ConfedFree as4Path

/-- What stays of a path behind a new number: an empty segment at the front is replaced. -/
def behindNumber (type : SegmentType) (path : Aspath) : Aspath :=
  match path with
  | [] => []
  | seg::rest => if seg.type≠type ∧ seg.length=0 then rest else path

/-- The segments of an unchanged path that an AS4_PATH keeps. -/
def kept (peer : Receiver) (path : Aspath) : Aspath :=
  if peer.sort=.ebgp ∧ (!peer.asPathUnchanged ∨ path=[]) ∧ !peer.rserverClient then
    behindNumber .asSequence (if peer.confedId.isSome then aspathDeleteConfedSeq path else path)
  else if peer.sort=.confed then
    (behindNumber .asConfedSequence path).dropWhile Assegment.isConfed
  else path

theorem confedFree_aspathAddSeq {asno : AsT} :
    ConfedFree (aspathAddSeq path asno) ↔ ConfedFree (behindNumber .asSequence path) := by
  cases path with
  | nil => simp [ConfedFree,aspathAddSeq,behindNumber,assegmentNew,isConfed]
  | cons seg rest =>
    rw [aspathAddSeq,behindNumber]
    by_cases hty : seg.type=.asSequence
    · simp [ConfedFree,hty,assegmentNew,isConfed]
    rw [if_neg hty]
    by_cases hemp : seg.length=0
    · rw [if_pos hemp,if_pos ⟨hty,hemp⟩]
      simp [ConfedFree,assegmentNew,isConfed]
    rw [if_neg hemp,if_neg fun h => hemp h.2]
    simp [ConfedFree,assegmentNew,isConfed]

theorem aspathAddSeq_head (path : Aspath) (asno : AsT) :
    aspathDeleteConfedSeq (aspathAddSeq path asno)=aspathAddSeq path asno ∧
      behindNumber .asSequence (aspathAddSeq path asno)=aspathAddSeq path asno := by
  cases path with
  | nil => exact ⟨rfl,rfl⟩
  | cons seg rest =>
    rw [aspathAddSeq]
    split_ifs <;> exact ⟨rfl,rfl⟩

/-- Nothing of the confederation stays in front of the AS4_PATH for a member of it. -/
theorem aspathDeleteConfedSeq_addConfedSeq (path : Aspath) (asno : AsT) :
    aspathDeleteConfedSeq ((aspathAddConfedSeq path asno).getD [])=
      (behindNumber .asConfedSequence path).dropWhile isConfed := by
  cases path with
  | nil => rfl
  | cons seg rest =>
    rw [aspathAddConfedSeq,aspathAddAsns,behindNumber]
    by_cases hty : seg.type=.asConfedSequence
    · have hconfed : isConfed seg=true := by simp [isConfed,hty]
      rw [if_pos hty,if_neg fun h => h.1 hty,dropWhile_cons_of_pos hconfed]
      have hnew : assegmentPrependAsns seg asno 1=some (assegmentNew seg.type (asno::seg.as)) :=
        rfl
      rw [hnew,hty]
      rfl
    rw [if_neg hty]
    by_cases hemp : seg.length=0
    · rw [if_pos ⟨hty,hemp⟩]
      simp only [hemp,if_true]
      rfl
    rw [if_neg fun h => hemp h.2]
    simp only [hemp,if_false]
    rfl

theorem confedFree_copied {copy : Aspath} (hcopy : copied peer path=some copy) :
    ConfedFree (aspathDeleteConfedSeq copy) ↔ ConfedFree (kept peer path) := by
  unfold copied at hcopy
  unfold kept
  split at hcopy
  · rename_i hebgp
    rw [if_pos hebgp]
    split at hcopy
    · rename_i confedId hconfed
      obtain rfl := some.inj hcopy
      rw [(aspathAddSeq_head _ _).1,confedFree_aspathAddSeq,hconfed]
      rfl
    rename_i hconfed
    rw [hconfed]
    split at hcopy
    · obtain rfl := some.inj hcopy
      rw [(aspathAddSeq_head _ _).1,confedFree_aspathAddSeq]
      split
      · rfl
      rw [(aspathAddSeq_head _ _).2,confedFree_aspathAddSeq]
      rfl
    obtain rfl := some.inj hcopy
    rw [(aspathAddSeq_head _ _).1,confedFree_aspathAddSeq]
    rfl
  · rename_i hebgp
    rw [if_neg hebgp]
    split at hcopy
    · rename_i hconfed
      obtain rfl := some.inj hcopy
      rw [if_pos hconfed,aspathDeleteConfedSeq_addConfedSeq]
    · cases hcopy

theorem kept_of_shared (hshared : copied peer path=none) : kept peer path=path := by
  unfold copied at hshared
  unfold kept
  split at hshared
  · split at hshared
    · cases hshared
    · split at hshared <;> cases hshared
  rename_i hebgp
  rw [if_neg hebgp]
  split at hshared
  · cases hshared
  rename_i hconfed
  rw [if_neg hconfed]

/-- The path stays and AS4_PATH is plain exactly when none is due or nothing kept is of the
confederation. -/
theorem bgpPacketAspath_faithful_iff (peer : Receiver) (path : Aspath) :
    Faithful path (bgpPacketAspath peer path) ↔
      (as4Due peer path=true → ConfedFree (kept peer path)) := by
  unfold Faithful bgpPacketAspath
  by_cases hdue : as4Due peer path=true
  · rw [if_pos hdue]
    simp only [hdue,forall_const,some.injEq,forall_eq']
    cases hcopy : copied peer path with
    | some copy =>
      rw [sentPath,hcopy]
      exact (and_iff_right rfl).trans (confedFree_copied hcopy)
    | none =>
      rw [kept_of_shared hcopy,sentPath,hcopy]
      constructor
      · rintro ⟨hsame,hfree⟩
        have hcut : aspathDeleteConfedSeq path=path := hsame
        rw [←hcut]
        exact hfree
      · intro hfree
        have hcut : aspathDeleteConfedSeq path=path := by
          cases path with
          | nil => rfl
          | cons seg rest =>
            refine if_neg fun htype => ?_
            have hseg := hfree seg mem_cons_self
            simp [Assegment.isConfed,htype] at hseg
        refine ⟨hcut,fun seg hseg => hfree seg ?_⟩
        rw [←hcut]
        exact hseg
  · rw [if_neg hdue]
    exact iff_of_true ⟨rfl,nofun⟩ fun h => absurd h hdue

/-- An IBGP peer that knows AS numbers of two bytes. -/
def sampleReceiver : Receiver := ⟨.ibgp,false,false,false,none,0,false,65001⟩

/-- The interned path loses a sequence, and the AS4_PATH has one. -/
theorem bgpPacketAspath_changes : (bgpPacketAspath sampleReceiver
        [assegmentNew .asConfedSequence [65001],assegmentNew .asSequence [70000]]).attrAspath =
      [assegmentNew .asSequence [70000]] ∧
    (bgpPacketAspath sampleReceiver
        [assegmentNew .asSequence [70000],assegmentNew .asConfedSet [65001]]).as4Path =
      some [assegmentNew .asSequence [70000],assegmentNew .asConfedSet [65001]] := by
  decide

end RoutePlatform.PacketAspath
