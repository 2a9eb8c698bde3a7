import RoutePlatform.VrrpDevice
import RoutePlatform.OperationRuns

/-!
# Priority and tracked interfaces of a virtual router

The commands copy `priority` and `oldpriority` into each other, and a tick starts from
`oldpriority`. The counter of tracked interfaces is decremented whatever the compaction of the
array found.
-/

namespace RoutePlatform.VrrpTracking

open VrrpOperations VrrpDevice OperationRuns List

/-- A virtual router and its array of `VRRP_IF_TRACK_MAX` tracked interfaces. -/
structure TrackRt where
  v : VrrpRt
  niftrack : ℤ
  slots : List (ℕ × ℤ)

def vrrpIfTrackMax : ℕ := 8

def vrrpPriTrack : ℤ := 10

/-- What happens: names are made indexes, 0 if there is none; `isDown` is of a tick. -/
inductive TrackOp where
  | setPri (value : ℤ)
  | unsetPri
  | setTrack (ifindex : ℕ) (value : ℤ)
  | unsetTrack (ifindex : ℕ)
  | tick (isDown : ℕ → Bool)

/-- The share of an interface, `VRRP_PRI_TRACK` if none is given. -/
def shareOf (value : ℤ) : ℤ := if value=0 then vrrpPriTrack else value

/-- `zvrrp_opcode_set_track`. A position outside of the array is not written. -/
def setTrack (s : TrackRt) (ifindex : ℕ) (value : ℤ) : Option TrackRt :=
  if 0 ≤ s.niftrack ∧ s.niftrack<vrrpIfTrackMax then
    some {s with
      slots := s.slots.set s.niftrack.toNat (ifindex,shareOf value)
      niftrack := s.niftrack+1}
  else none

/-- The positions that `zvrrp_opcode_unset_track` copies back. -/
def keptSlots (ifindex : ℕ) (slots : List (ℕ × ℤ)) : List (ℕ × ℤ) :=
  slots.filter fun slot => slot.1≠0 ∧ slot.1≠ifindex

def unsetTrack (s : TrackRt) (ifindex : ℕ) : TrackRt :=
  let kept := keptSlots ifindex s.slots
  {s with
    slots := kept++replicate (vrrpIfTrackMax-kept.length) (0,0)
    niftrack := s.niftrack-1}

/-- `zvrrp_timer_for_one` with the positions up to `niftrack`. -/
def tick (s : TrackRt) (isDown : ℕ → Bool) : TrackRt :=
  {s with v := (zvrrpTimerForOne {s.v with track := s.slots.take s.niftrack.toNat} isDown).1}

def step (s : TrackRt) : TrackOp → Option TrackRt
  | .setPri value => some {s with v := {s.v with oldpriority := s.v.priority,priority := value}}
  | .unsetPri => some {s with v := {s.v with priority := s.v.oldpriority}}
  | .setTrack ifindex value => setTrack s ifindex value
  | .unsetTrack ifindex => some (unsetTrack s ifindex)
  | .tick isDown => some (tick s isDown)

/-- The virtual router after `zvrrp_vsrv_init`. -/
def start : TrackRt := ⟨zvrrpVsrvInit,0,replicate vrrpIfTrackMax (0,0)⟩

structure Wanted where
  priority : ℤ
  /-- The interfaces tracked and not since untracked, with their shares. -/
  tracked : List (ℕ × ℤ)

def Wanted.step (w : Wanted) : TrackOp → Wanted
  | .setPri value => {w with priority := value}
  | .unsetPri => {w with priority := 100}
  | .setTrack ifindex value => {w with tracked := w.tracked++[(ifindex,shareOf value)]}
  | .unsetTrack ifindex => {w with tracked := w.tracked.filter fun slot => slot.1≠ifindex}
  | .tick _ => w

/-- The shares of the tracked interfaces that are down. -/
def downShares (isDown : ℕ → Bool) (tracked : List (ℕ × ℤ)) : ℤ :=
  ((tracked.filter fun slot => isDown slot.1).map Prod.snd).sum

/-- The priority that is to be in force after a tick. -/
def Wanted.effective (w : Wanted) (isDown : ℕ → Bool) : ℤ :=
  if w.priority=255 then 255 else max 1 (w.priority-downShares isDown w.tracked)

/-- The array holds the tracked interfaces, and a tick leaves the wanted priority. -/
def Exact (s : TrackRt) (w : Wanted) : Prop :=
  0 ≤ s.niftrack ∧ s.niftrack≤vrrpIfTrackMax ∧ s.slots.take s.niftrack.toNat=w.tracked ∧
    ∀ isDown, (tick s isDown).v.priority=w.effective isDown

/-- A set priority is in force, an unset one was the default, what is tracked exists and is new with
room, what is untracked was tracked. -/
def Legal (s : TrackRt) : TrackOp → Prop
  | .setPri value => 1≤value ∧ value≤255 ∧ (value=255 ∨ s.v.priority=value)
  | .unsetPri => s.v.oldpriority=100
  | .setTrack ifindex value => 0≤value ∧ ifindex≠0 ∧ s.niftrack<vrrpIfTrackMax ∧
      ifindex ∉ (s.slots.take s.niftrack.toNat).map Prod.fst
  | .unsetTrack ifindex => ifindex∈(s.slots.take s.niftrack.toNat).map Prod.fst
  | .tick _ => True

instance decidableLegal (s : TrackRt) : ∀ op, Decidable (Legal s op)
  | .setPri _ => inferInstanceAs (Decidable (_ ∧ _ ∧ (_ ∨ _)))
  | .unsetPri => inferInstanceAs (Decidable (_=_))
  | .setTrack _ _ => inferInstanceAs (Decidable (_ ∧ _ ∧ _ ∧ _ ∉ _))
  | .unsetTrack _ => inferInstanceAs (Decidable (_∈_))
  | .tick _ => inferInstanceAs (Decidable True)

/-- How the fields stand for what is wanted. -/
structure Stands (s : TrackRt) (w : Wanted) : Prop where
  room : w.tracked.length≤vrrpIfTrackMax
  counter : s.niftrack=w.tracked.length
  slots : s.slots=w.tracked++replicate (vrrpIfTrackMax-w.tracked.length) (0,0)
  once : (w.tracked.map Prod.fst).Nodup
  known : ∀ slot∈w.tracked, slot.1≠0 ∧ 0 ≤ slot.2
  priority : w.priority=255 ∧ s.v.priority=255 ∨
    1≤w.priority ∧ w.priority<255 ∧ s.v.priority<255 ∧ s.v.oldpriority=w.priority

section

variable {s s' : TrackRt} {w : Wanted} {isDown : ℕ → Bool} {tracked : List (ℕ × ℤ)}

theorem downShares_cons (slot : ℕ × ℤ) : downShares isDown (slot::tracked)=
    (if isDown slot.1 then slot.2 else 0)+downShares isDown tracked := by
  unfold downShares
  rw [filter_cons]
  split
  · rw [map_cons,sum_cons]
  · rw [zero_add]

theorem downShares_nonneg (isDown : ℕ → Bool) (h : ∀ slot∈tracked, slot.1≠0 ∧ 0 ≤ slot.2) :
    0≤downShares isDown tracked :=
  sum_nonneg fun x hx => by
    obtain ⟨slot,hslot,rfl⟩ := mem_map.mp hx
    exact (h slot (mem_of_mem_filter hslot)).2

/-- The loop over the tracked interfaces takes their shares off. -/
theorem trackPriority_eq (h : ∀ slot∈tracked, slot.1≠0 ∧ 0 ≤ slot.2) : ∀ p : ℤ, 1≤p →
    trackPriority isDown p tracked=max 1 (p-downShares isDown tracked) := by
  induction tracked with
  | nil =>
    intro p hp
    have hz : downShares isDown []=0 := rfl
    rw [trackPriority,hz]
    omega
  | cons slot tracked ih =>
    intro p hp
    have hrs := fun x hx => h x (mem_cons_of_mem _ hx)
    have hsum := downShares_nonneg isDown hrs
    have hslot := h slot mem_cons_self
    rw [downShares_cons,trackPriority]
    by_cases hdown : isDown slot.1
    · rw [if_pos ⟨hslot.1,hdown⟩,if_pos hdown]
      split
      · omega
      · rw [ih hrs _ (by omega)]
        omega
    · rw [if_neg fun hc => hdown hc.2,if_neg hdown,zero_add,ih hrs p hp]

theorem tickOnState_priority (v : VrrpRt) :
    (tickOnState v).1.priority=v.priority ∧ (tickOnState v).1.oldpriority=v.oldpriority := by
  unfold tickOnState zvrrpOnInitState zvrrpGotoMasterState
  split
  · split
    · exact ⟨rfl,rfl⟩
    · split <;> exact ⟨rfl,rfl⟩
  all_goals
    dsimp only
    split <;> exact ⟨rfl,rfl⟩

theorem Stands.tick_priority (h : Stands s w) (isDown : ℕ → Bool) :
    s.slots.take s.niftrack.toNat=w.tracked ∧ (tick s isDown).v.priority=w.effective isDown ∧
      (tick s isDown).v.oldpriority=s.v.oldpriority := by
  have htake : s.slots.take s.niftrack.toNat=w.tracked := by
    rw [h.slots,h.counter,Int.toNat_natCast,take_left]
  refine ⟨htake,(tickOnState_priority _).1.trans ?_,(tickOnState_priority _).2⟩
  change (if s.v.priority<255 then
    trackPriority isDown s.v.oldpriority (s.slots.take s.niftrack.toNat) else s.v.priority)=_
  rw [htake,Wanted.effective]
  rcases h.priority with ⟨hw,hv⟩|⟨hone,hlt,hv,hold⟩
  · rw [hv,hw]
    rfl
  · rw [if_pos hv,if_neg hlt.ne,hold,trackPriority_eq h.known _ hone]

theorem Stands.exact (h : Stands s w) : Exact s w := by
  have hroom := h.room
  have hctr := h.counter
  exact ⟨by omega,by omega,(h.tick_priority (fun _ => false)).1,fun _ => (h.tick_priority _).2.1⟩

theorem Stands.keptSlots_eq (h : Stands s w) (ifindex : ℕ) :
    keptSlots ifindex s.slots=w.tracked.filter fun slot => slot.1≠ifindex := by
  have hnone : ∀ slot∈replicate (vrrpIfTrackMax-w.tracked.length) ((0,0) : ℕ × ℤ),
      ¬(decide (slot.1≠0 ∧ slot.1≠ifindex))=true := by
    intro slot hslot
    rw [eq_of_mem_replicate hslot]
    simp
  rw [keptSlots,h.slots,filter_append,filter_eq_nil_iff.mpr hnone,append_nil]
  refine filter_congr fun slot hslot => ?_
  simp [(h.known slot hslot).1]

theorem map_untracked (hnd : (tracked.map Prod.fst).Nodup) (ifindex : ℕ) :
    (tracked.filter fun slot => slot.1≠ifindex).map Prod.fst=
      (tracked.map Prod.fst).erase ifindex := by
  rw [hnd.erase_eq_filter,filter_map]
  congr 1
  exact filter_congr fun slot _ => Bool.eq_iff_iff.mpr (by simp)

theorem Stands.step (h : Stands s w) {op : TrackOp} (hleg : Legal s op) :
    ∃ s', step s op=some s' ∧ Stands s' (w.step op) := by
  obtain ⟨htake,-,-⟩ := h.tick_priority (fun _ => false)
  cases op with
  | setPri value =>
    obtain ⟨hlow,hhigh,hval⟩ := hleg
    refine ⟨_,rfl,{h with priority := ?_}⟩
    rcases hval with hval|hval
    · exact Or.inl ⟨hval,hval⟩
    · by_cases howner : value=255
      · exact Or.inl ⟨howner,howner⟩
      · exact Or.inr ⟨hlow,by change value<255; omega,by change value<255; omega,hval⟩
  | unsetPri =>
    have hold : s.v.oldpriority=100 := hleg
    have hlt : s.v.oldpriority<255 := by omega
    exact ⟨_,rfl,{h with priority := Or.inr ⟨(by decide : (1 : ℤ)≤100),
      (by decide : (100 : ℤ)<255),hlt,hold⟩}⟩
  | setTrack ifindex value =>
    obtain ⟨hval,hknown,hroom,hnew⟩ := hleg
    rw [htake] at hnew
    have hctr := h.counter
    have hlen : w.tracked.length<vrrpIfTrackMax := by omega
    refine ⟨_,if_pos ⟨by omega,hroom⟩,⟨?_,?_,?_,?_,?_,h.priority⟩⟩
    · dsimp only [Wanted.step]
      rw [length_append,length_singleton]
      omega
    · dsimp only [Wanted.step]
      rw [length_append,length_singleton,hctr]
      rfl
    · dsimp only [Wanted.step]
      obtain ⟨k,hk⟩ := Nat.exists_eq_add_of_lt hlen
      rw [h.slots,hctr,Int.toNat_natCast,set_append_right _ _ le_rfl,Nat.sub_self,
        length_append,length_singleton,append_assoc,show vrrpIfTrackMax-w.tracked.length=k+1 by omega,
        show vrrpIfTrackMax-(w.tracked.length+1)=k by omega]
      rfl
    · dsimp only [Wanted.step]
      rw [map_append,map_singleton]
      exact nodup_append.mpr ⟨h.once,nodup_singleton _,by
        intro a ha b hb hab
        have hsame : a=ifindex := hab.trans (mem_singleton.mp hb)
        exact hnew (hsame▸ha)⟩
    · intro slot hslot
      rcases mem_append.mp hslot with hslot|hslot
      · exact h.known slot hslot
      · rw [mem_singleton.mp hslot]
        refine ⟨hknown,?_⟩
        dsimp only [shareOf]
        split
        · decide
        · exact hval
  | unsetTrack ifindex =>
    rw [Legal,htake] at hleg
    have hmap := map_untracked h.once ifindex
    have hlen := congrArg length hmap
    have hpos := length_pos_of_mem hleg
    rw [length_map,length_erase_of_mem hleg,length_map] at hlen
    rw [length_map] at hpos
    have hroom := h.room
    have hctr := h.counter
    refine ⟨_,rfl,⟨?_,?_,?_,?_,?_,h.priority⟩⟩
    · dsimp only [Wanted.step]
      omega
    · dsimp only [Wanted.step,unsetTrack]
      omega
    · dsimp only [Wanted.step,unsetTrack]
      rw [h.keptSlots_eq]
    · dsimp only [Wanted.step]
      rw [hmap]
      exact h.once.erase ifindex
    · exact fun slot hslot => h.known slot (mem_of_mem_filter hslot)
  | tick isDown =>
    obtain ⟨-,hpriority,hold⟩ := h.tick_priority isDown
    refine ⟨_,rfl,⟨h.room,h.counter,h.slots,h.once,h.known,?_⟩⟩
    rw [hpriority,hold]
    rcases h.priority with ⟨hw,-⟩|⟨hone,hlt,-,hold⟩
    · exact Or.inl ⟨hw,if_pos hw⟩
    · have hshares := downShares_nonneg isDown h.known
      refine Or.inr ⟨hone,hlt,?_,hold⟩
      rw [Wanted.effective,if_neg hlt.ne]
      omega

theorem stands_start : Stands start ⟨100,[]⟩ :=
  ⟨by decide,rfl,rfl,nodup_nil,nofun,Or.inr ⟨by decide,by decide,by decide,rfl⟩⟩

end

/-- In every run of these a tick leaves the priority less the shares of the tracked interfaces that
are down. -/
theorem vrrpPriority_run (ops : List TrackOp) (hlegal : LegalRun step Legal start ops) :
    ∃ s, run step start ops=some s ∧ Exact s (ops.foldl Wanted.step ⟨100,[]⟩) := by
  have hstep : ∀ s w op, Stands s w → Legal s op →
      ∃ s', step s op=some s' ∧ Stands s' (w.step op) := fun _ _ _ h => h.step
  obtain ⟨s,hrun,hstands⟩ := run_refines hstep ops start ⟨100,[]⟩ stands_start hlegal
  exact ⟨s,hrun,hstands.exact⟩

/-- The owner's priority comes and goes before an interface is tracked and goes down. -/
def sampleOps : List TrackOp :=
  [.setPri 255,.unsetPri,.setTrack 3 30,.tick fun i => i=3,.setPri 70,.unsetTrack 3]

theorem vrrpPriority_run_sample : ∃ s, run step start sampleOps=some s ∧
    Exact s (sampleOps.foldl Wanted.step ⟨100,[]⟩) := vrrpPriority_run sampleOps (by decide)

/-- A priority of 50 is configured, and the next tick works with 100. -/
theorem vrrpPriority_lost : ∃ s, run step start [.setPri 50]=some s ∧
    ¬Exact s ([.setPri 50].foldl Wanted.step ⟨100,[]⟩) := by
  refine ⟨_,rfl,fun h => ?_⟩
  have htick := h.2.2.2 fun _ => false
  revert htick
  decide

end RoutePlatform.VrrpTracking
