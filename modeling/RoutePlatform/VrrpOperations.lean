import Mathlib

/-!
# The VRRP state machine of one virtual router

A virtual router is in state initialize, backup or master. Its second tick counts a timer down in
the two running states; an advertisement is handled by the state it arrives in. Both handlers
compare it with the own priority and address.
-/

namespace RoutePlatform.VrrpOperations

/-- An `in_addr`: the four bytes of an address in the order of the network. -/
structure InAddr where
  b0 : Fin 256
  b1 : Fin 256
  b2 : Fin 256
  b3 : Fin 256
  deriving DecidableEq

theorem neZero_byte : NeZero 256 := ⟨by decide⟩

/-- The address that is spelled by four numbers. -/
def InAddr.ofBytes (b0 b1 b2 b3 : ℕ) : InAddr :=
  ⟨@Fin.ofNat 256 neZero_byte b0, @Fin.ofNat 256 neZero_byte b1, @Fin.ofNat 256 neZero_byte b2,
    @Fin.ofNat 256 neZero_byte b3⟩

/-- `ntohl`: the number that the bytes of the network spell. -/
def InAddr.ntohl (a : InAddr) : ℕ := ((a.b0.val*256+a.b1.val)*256+a.b2.val)*256+a.b3.val

theorem InAddr.ntohl_injective {a b : InAddr} (h : a.ntohl=b.ntohl) : a=b := by
  rcases a with ⟨a0,a1,a2,a3⟩
  rcases b with ⟨b0,b1,b2,b3⟩
  simp only [InAddr.ntohl] at h
  have h3 : a3=b3 := Fin.ext (by omega)
  have h2 : a2=b2 := Fin.ext (by omega)
  have h1 : a1=b1 := Fin.ext (by omega)
  have h0 : a0=b0 := Fin.ext (by omega)
  rw [h0,h1,h2,h3]

/-- An interface address with the length of its subnet. -/
structure IfPrefix where
  prefix4 : InAddr
  prefixlen : ℕ
  deriving DecidableEq

/-- The states of `zvrrpOperState`: `init` is `zvrrpOperState_initialize`. -/
inductive OperState where
  | init
  | backup
  | master
  deriving DecidableEq

/-- The states of `zvrrpOperAdminState`. -/
inductive AdminState where
  | up
  | down
  deriving DecidableEq

/-- `struct interface`, as far as it is read here. -/
structure Interface where
  ifindex : ℕ
  connected : List IfPrefix
  hwAddr : BitVec 48
  deriving DecidableEq

/-- `vrrp_if`: the interface of a virtual router. -/
structure VrrpIf where
  ifp : Option Interface
  address : Option IfPrefix
  hwaddr : BitVec 48
  sock : ℕ
  zvrrpTimer : Option ℕ
  zvrrpRead : Option ℕ
  deriving DecidableEq

/-- The structure after `memset`. -/
def VrrpIf.zero : VrrpIf := ⟨none,none,0,0,none,none⟩

/-- `vrrp_rt`: one virtual router. -/
structure VrrpRt where
  used : Bool
  enable : Bool
  vrid : ℕ
  priority : ℤ
  oldpriority : ℤ
  /-- Virtual addresses, in use up to `naddr`. -/
  vaddr : List ℕ
  adverInt : ℤ
  preempt : Bool
  /-- Seconds by which a takeover is delayed. -/
  delay : ℤ
  state : OperState
  adverTimer : ℕ
  vif : VrrpIf
  adminState : AdminState
  msDownTimer : ℕ
  /-- Tracked interfaces, each with the priority it costs when it is down. -/
  track : List (ℕ × ℤ)
  deriving DecidableEq

/-- An advertisement: the header fields that are read. -/
structure VrrpPkt where
  ipSrc : InAddr
  ipTtl : ℕ
  ipLen : ℕ
  versType : ℕ
  vrid : ℕ
  priority : ℕ
  naddr : ℕ
  authType : ℕ
  adverInt : ℕ
  deriving DecidableEq

/-- What a virtual router puts on the wire. -/
inductive Frame where
  | advertisement (p : VrrpPkt)
  | gratuitousArp (addr : ℕ)
  deriving DecidableEq

/-- Priority of the owner of the virtual address. -/
def vrrpPrioOwner : ℤ := 255

/-- Priority of the packet that announces the end of a mastership. -/
def vrrpPrioStop : ℤ := 0

/-- An `int` that is assigned to a `uint32_t`. -/
def toU32 (d : ℤ) : ℕ := (d%4294967296).toNat

/-- An `int` that is assigned to a `uint8_t`. -/
def toU8 (d : ℤ) : ℕ := (d%256).toNat

/-- `VRRP_TIMER_SKEW`. -/
def VrrpRt.timerSkew (v : VrrpRt) : ℤ := ((256-v.priority)*1).tdiv 256

/-- `VRRP_TIMER_EXPIRED`: the timer after the macro and its value. -/
def timerExpired (timer : ℕ) : ℕ × Bool := if timer=0 then (0,false) else (timer-1,timer-1 == 0)

def zvrrpBuildPkt (v : VrrpRt) (address : IfPrefix) (prio : ℤ) : VrrpPkt where
  ipSrc := address.prefix4
  ipTtl := 255
  ipLen := 5*4+(8+v.vaddr.length*4+8)
  versType := 2*16+1
  vrid := toU8 v.vrid
  priority := toU8 prio
  naddr := v.vaddr.length
  authType := 0
  adverInt := toU8 v.adverInt

/-- `zvrrp_send_adv`. Without an interface and its address nothing is sent. -/
def zvrrpSendAdv (v : VrrpRt) (prio : ℤ) : List Frame :=
  match v.vif.address, v.vif.ifp with
  | some address, some _ => [.advertisement (zvrrpBuildPkt v address prio)]
  | _, _ => []

def sendGratuitousArp (v : VrrpRt) (addr : ℕ) : List Frame :=
  match v.vif.address, v.vif.ifp with
  | some _, some _ => [.gratuitousArp addr]
  | _, _ => []

def zvrrpGotoMasterState (v : VrrpRt) : VrrpRt × List Frame :=
  ({v with adverTimer := toU32 v.adverInt,state := .master},
    zvrrpSendAdv v v.priority++v.vaddr.flatMap (sendGratuitousArp v))

/-- `zvrrp_leave_master_state`: the last warning of the other routers. -/
def zvrrpLeaveMasterState (v : VrrpRt) (advF : Bool) : List Frame :=
  if advF then zvrrpSendAdv v vrrpPrioStop else []

/-- The delay after which a silent master is taken to be down. -/
def VrrpRt.downDelay (v : VrrpRt) : ℤ := 3*v.adverInt+v.timerSkew+if v.preempt then v.delay else 0

def zvrrpOnInitState (v : VrrpRt) : VrrpRt × List Frame := if v.adminState ≠ .up then (v,[])
  else if v.priority=vrrpPrioOwner then zvrrpGotoMasterState v
  else ({v with msDownTimer := toU32 v.downDelay,state := .backup},[])

def zvrrpOnBackupState (v : VrrpRt) (hd : VrrpPkt) : VrrpRt × List Frame :=
  if v.adminState ≠ .up then ({v with state := .init},[])
  else match v.vif.address with
    | none => ({v with msDownTimer := 0,adminState := .down,state := .init},[])
    | some address =>
      if hd.priority=0 then
        let delay := v.timerSkew
        let delay := if delay=0 then 1 else delay
        ({v with msDownTimer := toU32 delay},[])
      else if !v.preempt ∨ (hd.priority : ℤ) > v.priority ∨
          ((hd.priority : ℤ)=v.priority ∧ hd.ipSrc.ntohl > address.prefix4.ntohl) then
        ({v with msDownTimer := toU32 v.downDelay},[])
      else (v,[])

def zvrrpOnMasterState (v : VrrpRt) (hd : VrrpPkt) : VrrpRt × List Frame :=
  if v.adminState ≠ .up then ({v with state := .init},[])
  else match v.vif.address with
    | none =>
      ({v with adverTimer := 0,adminState := .down,state := .init},
        zvrrpLeaveMasterState {v with adverTimer := 0} false)
    | some address =>
      if hd.priority=0 then
        ({v with adverTimer := toU32 v.adverInt},zvrrpSendAdv v v.priority)
      else if (hd.priority : ℤ) > v.priority ∨
          ((hd.priority : ℤ)=v.priority ∧ hd.ipSrc.ntohl > address.prefix4.ntohl) then
        ({v with msDownTimer := toU32 v.downDelay,adverTimer := 0,state := .backup},
          zvrrpLeaveMasterState v false)
      else (v,[])

/-- The loop over the tracked interfaces: an interface that is down costs its
share, but the priority stays at least 1. -/
def trackPriority (isDown : ℕ→Bool) : ℤ→List (ℕ × ℤ)→ℤ
  | priority, [] => priority
  | priority, (iftrack,pritrack)::rest =>
    if iftrack≠0 ∧ isDown iftrack then
      if priority-pritrack<1 then 1 else trackPriority isDown (priority-pritrack) rest
    else trackPriority isDown priority rest

/-- The priority that a tick works with. -/
def VrrpRt.tickPriority (v : VrrpRt) (isDown : ℕ→Bool) : ℤ :=
  if v.priority<vrrpPrioOwner then trackPriority isDown v.oldpriority v.track else v.priority

/-- The switch over the state at the end of `zvrrp_timer_for_one`. -/
def tickOnState (v : VrrpRt) : VrrpRt × List Frame :=
  match v.state with
  | .init => zvrrpOnInitState v
  | .backup =>
    let (timer,expired) := timerExpired v.msDownTimer
    let v := {v with msDownTimer := timer}
    if expired then zvrrpGotoMasterState v else (v,[])
  | .master =>
    let (timer,expired) := timerExpired v.adverTimer
    let v := {v with adverTimer := timer}
    if expired then ({v with adverTimer := toU32 v.adverInt},zvrrpSendAdv v v.priority)
    else (v,[])

/-- `zvrrp_timer_for_one`; `isDown` is of the interface table. -/
def zvrrpTimerForOne (v : VrrpRt) (isDown : ℕ→Bool) : VrrpRt × List Frame :=
  tickOnState {v with priority := v.tickPriority isDown}

def zvrrpCheckEnable (v : VrrpRt) : Bool :=
  v.used && v.enable && v.vrid != 0 && !v.vaddr.isEmpty && v.vif.sock != 0 &&
    v.vif.ifp.isSome && v.vif.hwaddr != 0

def zvrrpHandleOnState (v : VrrpRt) (hd : VrrpPkt) : VrrpRt × List Frame :=
  if v.vif.address.isNone then (v,[])
  else match v.state with
    | .init => zvrrpOnInitState v
    | .backup => zvrrpOnBackupState v hd
    | .master => zvrrpOnMasterState v hd

/-- `zvrrp_in_chk2` finds nothing wrong with a packet. -/
def zvrrpInChk2 (v : VrrpRt) (hd : VrrpPkt) : Bool := if hd.ipTtl≠255 then false
  else if hd.ipLen≤8 then false
  else if hd.versType%16≠1 then false
  else if hd.authType≠0 then false
  else if v.vrid≠hd.vrid ∨ vrrpPrioOwner=v.priority then false
  else if v.adverInt≠hd.adverInt then false
  else true

/-- A packet for the virtual router: its checks and the handler. -/
def zvrrpReceive (v : VrrpRt) (hd : VrrpPkt) : VrrpRt × List Frame :=
  if zvrrpInChk2 v hd then zvrrpHandleOnState v hd else (v,[])

end RoutePlatform.VrrpOperations
