import RoutePlatform.VrrpDevice
import RoutePlatform.OperationRuns

/-!
# State and timers of the virtual routers of a device

Handlers and ticks keep state and timers in step: a master is used, enabled, has an address and
counts towards its next advertisement, a backup counts towards the end of its wait. What breaks
this are commands that overwrite the structure under a master, and an interface for a virtual
router that still has threads.
-/

namespace RoutePlatform.VrrpTimers

open VrrpOperations VrrpDevice

/-- The values of a virtual router between two steps. -/
structure VsrvOk (v : VrrpRt) : Prop where
  adverInt : 1≤v.adverInt ∧ v.adverInt≤255
  delay : 0≤v.delay ∧ v.delay≤255
  priority : 1≤v.priority ∧ v.priority≤255
  oldpriority : 1≤v.oldpriority ∧ v.oldpriority≤255
  track : v.track=[]
  /-- A master is used, enabled, has an address, and its timer runs. -/
  master : v.state=.master → v.used=true ∧ v.enable=true ∧
    v.vif.address.isSome=true ∧ 0<v.adverTimer
  backup : v.state=.backup → 0<v.msDownTimer

variable {v : VrrpRt}

theorem toU32_pos {n : ℤ} (hpos : 0<n) (hlt : n<4294967296) : 0<toU32 n := by
  unfold toU32
  omega

section

variable (h : VsrvOk v)
include h

theorem VsrvOk.timerSkew : v.timerSkew=0 := by
  rw [VrrpRt.timerSkew]
  have hp := h.priority
  exact Int.tdiv_eq_zero_of_lt (by omega) (by omega)

theorem VsrvOk.downDelay_pos : 0<toU32 v.downDelay := by
  have ha := h.adverInt
  have hd := h.delay
  rw [VrrpRt.downDelay,h.timerSkew]
  apply toU32_pos
  · split <;> omega
  · split <;> omega

theorem VsrvOk.adverInt_pos : 0<toU32 v.adverInt :=
  toU32_pos (by have ha := h.adverInt; omega) (by have ha := h.adverInt; omega)

theorem VsrvOk.waits (adverTimer : ℕ) : VsrvOk
    {v with msDownTimer := toU32 v.downDelay,adverTimer := adverTimer,state := .backup} :=
  ⟨h.adverInt,h.delay,h.priority,h.oldpriority,h.track,nofun,fun _ => h.downDelay_pos⟩

theorem VsrvOk.stops (adverTimer msDownTimer : ℕ) (adminState : AdminState) :
    VsrvOk {v with
      adverTimer := adverTimer,msDownTimer := msDownTimer,adminState := adminState
      state := .init} :=
  ⟨h.adverInt,h.delay,h.priority,h.oldpriority,h.track,nofun, nofun⟩

end

/-- What a virtual router needs to become master. -/
structure Running (v : VrrpRt) : Prop where
  used : v.used=true
  enable : v.enable=true
  address : v.vif.address.isSome=true

theorem VsrvOk.masters (h : VsrvOk v) (hr : Running v) {adverTimer : ℕ} (ht : 0<adverTimer)
    (msDownTimer : ℕ) :
    VsrvOk {v with adverTimer := adverTimer,msDownTimer := msDownTimer,state := .master} :=
  ⟨h.adverInt,h.delay,h.priority,h.oldpriority,h.track,
    fun _ => ⟨hr.used,hr.enable,hr.address,ht⟩,nofun⟩

theorem VsrvOk.onInitState (h : VsrvOk v)
    (hr : v.priority=vrrpPrioOwner → Running v) : VsrvOk (zvrrpOnInitState v).1 := by
  rw [zvrrpOnInitState]
  split
  · exact h
  split
  · rename_i howner
    exact h.masters (hr howner) h.adverInt_pos v.msDownTimer
  · exact h.waits v.adverTimer

theorem timerExpired_pos {timer : ℕ} (hpos : 0<timer) (hexp : ¬(timerExpired timer).2=true) :
    0<(timerExpired timer).1 := by
  unfold timerExpired at hexp ⊢
  rw [if_neg (by omega)] at hexp ⊢
  simp only [beq_iff_eq] at hexp
  exact pos_of_ne_zero hexp

theorem VsrvOk.tickOnState (h : VsrvOk v) (hr : Running v) : VsrvOk (tickOnState v).1 := by
  rw [VrrpOperations.tickOnState]
  cases hstate : v.state with
  | init => exact h.onInitState fun _ => hr
  | backup =>
    dsimp only
    split
    · exact h.masters hr h.adverInt_pos _
    rename_i hexp
    exact ⟨h.adverInt,h.delay,h.priority,h.oldpriority,h.track,
      nofun,fun _ => timerExpired_pos (h.backup hstate) hexp⟩
  | master =>
    dsimp only
    split
    · exact h.masters hr h.adverInt_pos v.msDownTimer
    rename_i hexp
    exact h.masters hr (timerExpired_pos (h.master hstate).2.2.2 hexp) v.msDownTimer

theorem VsrvOk.tickPriority (h : VsrvOk v) (isDown : ℕ→Bool) :
    VsrvOk {v with priority := v.tickPriority isDown} := by
  refine ⟨h.adverInt,h.delay,?_,h.oldpriority,h.track,h.master,h.backup⟩
  rw [VrrpRt.tickPriority,h.track,trackPriority]
  split
  · exact h.oldpriority
  · exact h.priority

theorem VsrvOk.timerWork (h : VsrvOk v) (isDown : ℕ→Bool) : VsrvOk (timerWork v isDown).1 := by
  rw [VrrpDevice.timerWork]
  split
  · rename_i hchk
    rw [Bool.and_eq_true,Bool.and_eq_true,zvrrpCheckEnable] at hchk
    simp only [Bool.and_eq_true] at hchk
    have hr : Running {v with priority := v.tickPriority isDown} :=
      ⟨hchk.1.1.1.1.1.1.1.1,hchk.1.1.1.1.1.1.1.2,hchk.1.2⟩
    exact (h.tickPriority isDown).tickOnState hr
  · exact h

/-- A received advertisement keeps the values in step. -/
theorem VsrvOk.receive (h : VsrvOk v) (p : VrrpPkt) : VsrvOk (zvrrpReceive v p).1 := by
  rw [zvrrpReceive]
  split
  · rename_i hchk
    rw [zvrrpHandleOnState]
    split
    · exact h
    cases hstate : v.state with
    | init =>
      have hnot : v.priority≠vrrpPrioOwner := by
        intro howner
        simp [zvrrpInChk2,howner] at hchk
      exact h.onInitState fun howner => absurd howner hnot
    | backup =>
      dsimp only
      rw [zvrrpOnBackupState]
      split
      · exact h.stops v.adverTimer v.msDownTimer v.adminState
      split
      · exact h.stops v.adverTimer 0 .down
      split
      · refine ⟨h.adverInt,h.delay,h.priority,h.oldpriority,h.track,h.master,fun _ => ?_⟩
        dsimp only
        rw [h.timerSkew,if_pos rfl]
        decide
      split
      · exact ⟨h.adverInt,h.delay,h.priority,h.oldpriority,h.track,h.master,
          fun _ => h.downDelay_pos⟩
      · exact h
    | master =>
      have hm := h.master hstate
      dsimp only
      rw [zvrrpOnMasterState]
      split
      · exact h.stops v.adverTimer v.msDownTimer v.adminState
      split
      · exact h.stops 0 v.msDownTimer .down
      split
      · exact ⟨h.adverInt,h.delay,h.priority,h.oldpriority,h.track,
          fun _ => ⟨hm.1,hm.2.1,hm.2.2.1,h.adverInt_pos⟩,h.backup⟩
      split
      · exact h.waits 0
      · exact h
  · exact h

theorem onInitState_vif (v : VrrpRt) : (zvrrpOnInitState v).1.vif=v.vif := by
  rw [zvrrpOnInitState]
  split
  · rfl
  · split <;> rfl

theorem tickOnState_vif (v : VrrpRt) : (tickOnState v).1.vif=v.vif := by
  rw [tickOnState]
  cases hstate : v.state with
  | init => exact onInitState_vif v
  | backup | master =>
    dsimp only
    split <;> rfl

theorem timerWork_vif (v : VrrpRt) (isDown : ℕ → Bool) : (timerWork v isDown).1.vif=v.vif := by
  rw [timerWork]
  split
  · exact tickOnState_vif _
  · rfl

/-- A received advertisement does not touch the interface. -/
theorem receive_vif (v : VrrpRt) (p : VrrpPkt) : (zvrrpReceive v p).1.vif=v.vif := by
  rw [zvrrpReceive,zvrrpHandleOnState]
  split
  · split
    · rfl
    cases hstate : v.state with
    | init => exact onInitState_vif v
    | backup =>
      dsimp only
      rw [zvrrpOnBackupState]
      split
      · rfl
      split
      · rfl
      split
      · rfl
      · split <;> rfl
    | master =>
      dsimp only
      rw [zvrrpOnMasterState]
      split
      · rfl
      split
      · rfl
      split
      · rfl
      · split <;> rfl
  · rfl

end RoutePlatform.VrrpTimers
