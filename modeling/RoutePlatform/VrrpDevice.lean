import RoutePlatform.VrrpOperations

/-!
# The virtual routers of one device

The daemon keeps its virtual routers in an array. Several commands overwrite a part of the
structure in any state. With its interface a virtual router gets a timer thread and a read thread;
each adds itself again when it runs.
-/

namespace RoutePlatform.VrrpDevice

open VrrpOperations

inductive ThreadKind where
  | timer
  /-- A socket to become readable, or to be served after it became readable. -/
  | read (fd : ℕ) (ready : Bool)
  deriving DecidableEq

/-- A scheduled thread of a virtual router. -/
structure VrrpThread where
  id : ℕ
  kind : ThreadKind
  vsrv : ℕ
  deriving DecidableEq

/-- `struct zvrrp_master` with the threads it scheduled. -/
structure Device where
  vsrv : ℕ→VrrpRt
  threads : List VrrpThread
  next : ℕ
  sent : List Frame

def vrrpVsrvSizeMax : ℕ := 255

/-- `zvrrp_vsrv_lookup` finds a virtual router. -/
def zvrrpVsrvLookup (vrid : ℕ) : Bool := 0<vrid && vrid<vrrpVsrvSizeMax

def zvrrpVsrvInit : VrrpRt where
  used := false
  enable := false
  vrid := 0
  priority := 100
  oldpriority := 100
  vaddr := []
  adverInt := 1
  preempt := true
  delay := 0
  state := .init
  adverTimer := 0
  vif := VrrpIf.zero
  adminState := .down
  msDownTimer := 0
  track := []

def zvrrpMasterInit : Device := ⟨fun _ => zvrrpVsrvInit,[],0,[]⟩

/-- A virtual router after a step of its own, with what it sent. -/
def Device.put (d : Device) (i : ℕ) (r : VrrpRt × List Frame) : Device :=
  {d with vsrv := Function.update d.vsrv i r.1,sent := d.sent++r.2}

/-- The pointer to the timer thread is set. -/
def setTimer (v : VrrpRt) (k : Option ℕ) : VrrpRt := {v with vif := {v.vif with zvrrpTimer := k}}

/-- The pointer to the read thread is set. -/
def setRead (v : VrrpRt) (k : Option ℕ) : VrrpRt := {v with vif := {v.vif with zvrrpRead := k}}

/-- A thread is made and scheduled. -/
def Device.addThread (d : Device) (kind : ThreadKind) (i : ℕ) : Device :=
  {d with threads := d.threads++[⟨d.next,kind,i⟩],next := d.next+1}

/-- A virtual router gets a new timer thread. -/
def Device.addTimer (d : Device) (i : ℕ) : Device :=
  (d.addThread .timer i).put i (setTimer (d.vsrv i) (some d.next),[])

/-- `FD_ISSET` of the read set. -/
def Device.fdIsSet (d : Device) (fd : ℕ) : Bool := d.threads.any fun t => t.kind=.read fd false

/-- A new read thread for a socket; a second one for the same socket is not made. -/
def Device.addRead (d : Device) (i fd : ℕ) : Device :=
  if d.fdIsSet fd then d.put i (setRead (d.vsrv i) none,[])
  else (d.addThread (.read fd false) i).put i (setRead (d.vsrv i) (some d.next),[])

/-- The scheduled thread with this object. -/
def Device.findThread (d : Device) (k : ℕ) : Option VrrpThread := d.threads.find? fun t => t.id=k

/-- A thread is no longer scheduled. -/
def Device.removeThread (d : Device) (t : VrrpThread) : Device :=
  {d with threads := d.threads.filter fun u => u.id≠t.id}

/-- `thread_cancel` of a pointer, if it is set. It fails on an object that is
not scheduled. -/
def Device.threadCancel (d : Device) : Option ℕ→Option Device
  | none => some d
  | some k => (d.findThread k).map d.removeThread

/-- The part of `zvrrp_timer_thread` before the thread is added again. -/
def timerWork (v : VrrpRt) (isDown : ℕ→Bool) : VrrpRt × List Frame :=
  if zvrrpCheckEnable v && v.vif.address.isSome && v.vif.ifp.isSome then
    zvrrpTimerForOne v isDown
  else (v,[])

def zvrrpTimerThread (d : Device) (i : ℕ) (isDown : ℕ→Bool) : Device :=
  (d.put i (timerWork (d.vsrv i) isDown)).addTimer i

/-- The timer threads of a virtual router in a list of threads. -/
def timersOf (threads : List VrrpThread) (i : ℕ) : List VrrpThread :=
  threads.filter fun t => t.kind=.timer && t.vsrv=i

/-- The read threads of a virtual router in a list of threads. -/
def readsOf (threads : List VrrpThread) (i : ℕ) : List VrrpThread :=
  threads.filter fun t => t.kind ≠ .timer && t.vsrv=i

/-- The scheduled timer threads of a virtual router. -/
def Device.timers (d : Device) (i : ℕ) : List VrrpThread := timersOf d.threads i

/-- The scheduled read threads of a virtual router. -/
def Device.reads (d : Device) (i : ℕ) : List VrrpThread := readsOf d.threads i

/-- A second passes for a virtual router: each of its timer threads runs. -/
def deviceTick (d : Device) (i : ℕ) (isDown : ℕ→Bool) : Device :=
  (d.timers i).foldl (fun d t => zvrrpTimerThread (d.removeThread t) i isDown) d

/-- `prefix_match` as `zvrrp_vsrv_find_by_pkt_id` calls it, on four bits. -/
def prefixMatch (src : InAddr) (address : IfPrefix) : Bool :=
  4≤address.prefixlen && src.b0.val/16 == address.prefix4.b0.val/16

def zvrrpLocalMyselfDetection (d : Device) (src : InAddr) : Bool :=
  (List.range vrrpVsrvSizeMax).any fun i => zvrrpVsrvLookup i && (d.vsrv i).used &&
    match (d.vsrv i).vif.address with
    | some address => src.ntohl == address.prefix4.ntohl
    | none => false

/-- `zvrrp_vsrv_find_by_pkt_id` answers the virtual router of the packet. -/
def zvrrpVsrvFindByPktId (d : Device) (p : VrrpPkt) : Bool :=
  zvrrpVsrvLookup p.vrid && (d.vsrv p.vrid).used &&
    match (d.vsrv p.vrid).vif.address with
    | some address => prefixMatch p.ipSrc address
    | none => false

/-- `zvrrp_ippkt_handle` and `zvrrp_pkt_handle` on a checked packet for the group. -/
def zvrrpPktHandle (d : Device) (p : VrrpPkt) : Device :=
  if zvrrpLocalMyselfDetection d p.ipSrc then d
  else if !zvrrpVsrvFindByPktId d p then d
  else if (d.vsrv p.vrid).adminState ≠ .up then d
  else d.put p.vrid (zvrrpReceive (d.vsrv p.vrid) p)

/-- A socket is found readable: its thread waits to be called. -/
def pollRead (d : Device) (k : ℕ) : Device where
  vsrv := d.vsrv
  threads := d.threads.map fun t =>
    match t.kind with
    | .timer => t
    | .read fd _ => if t.id=k then {t with kind := .read fd true} else t
  next := d.next
  sent := d.sent

/-- `zvrrp_reading_thread`, which ignores all but VRRP packets. -/
def zvrrpReadingThread (d : Device) (i : ℕ) (packet : Option VrrpPkt) : Device :=
  let d := d.addRead i (d.vsrv i).vif.sock
  match packet with
  | none => d
  | some p => zvrrpPktHandle d p

/-- A read thread that is ready is called. -/
def callRead (d : Device) (k : ℕ) (packet : Option VrrpPkt) : Device :=
  match d.findThread k with
  | some t =>
    match t.kind with
    | .read _ true => zvrrpReadingThread (d.removeThread t) t.vsrv packet
    | _ => d
  | none => d

def vrrpOk : ℤ := 0

def vrrpError : ℤ := -1

def vrrpCfgerrVsrvnotexist : ℤ := 5

def vrrpCfgerrVipnotexist : ℤ := 6

def zvrrpVsrvCreate (v : VrrpRt) (vrid : ℕ) : VrrpRt := {v with vrid := vrid,adminState := .up}

def zvrrpVsrvDelete (v : VrrpRt) : VrrpRt × List Frame :=
  if v.state=.master then
    ({v with adminState := .down,state := .init},zvrrpLeaveMasterState v true)
  else (v,[])

def vrrpAddIpaddr (v : VrrpRt) (ipaddr : ℕ) : ℤ × VrrpRt × List Frame :=
  if v.vaddr.length=8 then (vrrpError,v,[])
  else
    let v := {v with vaddr := v.vaddr++[ipaddr]}
    (vrrpOk,v,if v.state=.master then sendGratuitousArp v ipaddr else [])

def vrrpDelIpaddr (v : VrrpRt) (ipaddr : ℕ) : ℤ × VrrpRt := if v.vaddr=[] then (vrrpOk,v)
  else if ipaddr∈v.vaddr then (vrrpOk, {v with vaddr := v.vaddr.erase ipaddr})
  else (vrrpCfgerrVipnotexist,v)

/-- `zvrrp_if_lookup_by_ifindex` finds an interface. -/
def zvrrpIfLookupByIfindex (d : Device) (ifindex : ℕ) : Bool :=
  (List.range vrrpVsrvSizeMax).any fun i =>
    match (d.vsrv i).vif.ifp with
    | some ifp => ifp.ifindex == ifindex
    | none => false

/-- `vif` after `zvrrp_socket_init` and the copy of the hardware address. -/
def attachIf (vif : VrrpIf) (ifp : Interface) (ret : ℤ) : VrrpIf :=
  {vif with
    address := ifp.connected.head?
    ifp := some ifp
    hwaddr := ifp.hwAddr
    sock := if ret<0 then vif.sock else ret.toNat}

/-- `zvrrp_interface_config` with `zvrrp_opcode_add_interface`: `ret` is what
`zvrrp_socket_init` answers. -/
def zvrrpInterfaceAdd (d : Device) (i : ℕ) (ifp : Interface) (ret : ℤ) : ℤ × Device :=
  if zvrrpIfLookupByIfindex d ifp.ifindex then (vrrpError,d)
  else
    let v := {d.vsrv i with vif := attachIf (d.vsrv i).vif ifp ret}
    let d := d.put i (v,[])
    (vrrpOk,if ret≠0 then (d.addTimer i).addRead i v.vif.sock else d)

/-- `zvrrp_interface_config` with `zvrrp_opcode_del_interface`. -/
def zvrrpInterfaceDel (d : Device) (i : ℕ) (ifp : Interface) : Option (ℤ × Device) :=
  if !zvrrpIfLookupByIfindex d ifp.ifindex then some (vrrpError,d)
  else (d.threadCancel (d.vsrv i).vif.zvrrpRead).bind fun d' =>
      (d'.threadCancel (d.vsrv i).vif.zvrrpTimer).map fun d'' =>
        (vrrpOk,d''.put i ({d.vsrv i with vif := VrrpIf.zero},[]))

/-- The commands of `zvrrp_cmd_config_process`; milliseconds do as seconds. -/
inductive VrrpCommand where
  | addVrs
  | delVrs
  | enableVrs
  | disableVrs
  | addIp (ipaddress : ℕ)
  | delIp (ipaddress : ℕ)
  | setPri (value : ℤ)
  | unsetPri
  | setInterval (value : ℤ)
  | unsetInterval
  | setPreempt
  | unsetPreempt
  | setPreemptDelay (value : ℤ)
  | unsetPreemptDelay
  /-- An interface, with what the lookup by name and the socket calls answer. -/
  | addInterface (ifp : Option Interface) (ret : ℤ)
  | delInterface (ifp : Option Interface)
  deriving DecidableEq

/-- A command that overwrites fields of a virtual router. -/
def Device.setFields (d : Device) (vrid : ℕ) (f : VrrpRt→VrrpRt) : Option (ℤ × Device) :=
  some (vrrpOk,d.put vrid (f (d.vsrv vrid),[]))

/-- `zvrrp_cmd_config_process` on a virtual router that the lookup finds. -/
def zvrrpVsrvCommand (d : Device) (vrid : ℕ) : VrrpCommand→Option (ℤ × Device)
  | .addVrs =>
    if (d.vsrv vrid).used then some (vrrpOk,d)
    else some (vrrpOk,d.put vrid (zvrrpVsrvCreate {zvrrpVsrvInit with used := true} vrid,[]))
  | .delVrs => some (vrrpError,d.put vrid (zvrrpVsrvInit,(zvrrpVsrvDelete (d.vsrv vrid)).2))
  | .enableVrs => d.setFields vrid fun v => {v with enable := true}
  | .disableVrs => d.setFields vrid fun v => {v with enable := false}
  | .addIp ipaddress =>
    if ipaddress=0 then some (vrrpError,d)
    else
      let (ret,r) := vrrpAddIpaddr (d.vsrv vrid) ipaddress
      some (ret,d.put vrid r)
  | .delIp ipaddress =>
    if ipaddress=0 then some (vrrpError,d)
    else
      let (ret,v) := vrrpDelIpaddr (d.vsrv vrid) ipaddress
      some (ret,d.put vrid (v,[]))
  | .setPri value => d.setFields vrid fun v => {v with oldpriority := v.priority,priority := value}
  | .unsetPri => d.setFields vrid fun v => {v with priority := v.oldpriority}
  | .setInterval value =>
    d.setFields vrid fun v => {v with adverInt := value,adverTimer := toU32 value}
  | .unsetInterval => d.setFields vrid fun v => {v with adverInt := 1,adverTimer := 1}
  | .setPreempt => d.setFields vrid fun v => {v with preempt := true}
  | .unsetPreempt => d.setFields vrid fun v => {v with preempt := false}
  | .setPreemptDelay value => d.setFields vrid fun v => {v with delay := value}
  | .unsetPreemptDelay => d.setFields vrid fun v => {v with delay := 0}
  | .addInterface ifp ret =>
    match ifp with
    | none => some (vrrpError,d)
    | some ifp => some (zvrrpInterfaceAdd d vrid ifp ret)
  | .delInterface ifp =>
    match ifp with
    | none => some (vrrpError,d)
    | some ifp => zvrrpInterfaceDel d vrid ifp

/-- What a command answers when there is no such virtual router. -/
def VrrpCommand.missing : VrrpCommand→ℤ
  | .addVrs | .delVrs | .addIp _ | .delIp _ | .addInterface _ _ | .delInterface _ =>
    vrrpCfgerrVsrvnotexist
  | _ => vrrpError

def zvrrpCmdConfigProcess (d : Device) (vrid : ℕ) (cmd : VrrpCommand) : Option (ℤ × Device) :=
  if zvrrpVsrvLookup vrid then zvrrpVsrvCommand d vrid cmd else some (cmd.missing,d)

/-- What can happen to the device. -/
inductive DeviceOp where
  | command (vrid : ℕ) (cmd : VrrpCommand)
  /-- A second passes for the threads of a virtual router, with what the
  interface table says. -/
  | tick (i : ℕ) (isDown : ℕ→Bool)
  | poll (k : ℕ)
  | packet (k : ℕ) (packet : Option VrrpPkt)

/-- One step of the device, `none` is a cancelled thread that is not scheduled. -/
def deviceStep (d : Device) : DeviceOp→Option Device
  | .command vrid cmd => (zvrrpCmdConfigProcess d vrid cmd).map Prod.snd
  | .tick i isDown => some (deviceTick d i isDown)
  | .poll k => some (pollRead d k)
  | .packet k packet => some (callRead d k packet)

end RoutePlatform.VrrpDevice
