import Mathlib

/-!
# Entries of the RIB

Entries and next hops of `zebra/rib.h`, and the part of `zebra/zebra_rib.c` on the entries of one
node, up to the selection in `rib_process`. The build has `HAVE_ROUTE_OPTIMIZE`. What the checks
of next hops and the kernel answer is a parameter. Debug output, the FPM and uptimes are left out.
-/

namespace RoutePlatform.RibEntries

open List Option Bool

/-- The route types of `lib/route_types.h`. -/
inductive RouteType where
  | system | kernel | connect | static | rip | ripng | ospf | ospf6 | isis | bgp | pim | hsls
  | olsr | babel | icrp | frp | aodv | vrrp | lldp | vpn | bfd | ldp | rsvp | mpls | utils
  | manage | switch
  deriving DecidableEq, Repr

/-- The tables of an address family. -/
inductive Safi where
  | unicast | multicast
  deriving DecidableEq, Repr

/-- `enum nexthop_types_t`, as far as IPv4 tables have them. -/
inductive NexthopType where
  | ifindex | ifname | ipv4 | ipv4Ifindex | ipv4Ifname | blackhole
  deriving DecidableEq, Repr

/-- A next hop on the `resolved` list of another one. -/
structure ResolvedHop where
  type : NexthopType
  ifindex : BitVec 32
  gate : BitVec 32
  onlink : Bool
  fib : Bool
  deriving DecidableEq

/-- `struct nexthop`. `NEXTHOP_FLAG_RECURSIVE` is set while the `resolved`
list has elements. -/
structure Nexthop where
  type : NexthopType
  ifname : String
  ifindex : BitVec 32
  gate : BitVec 32
  src : BitVec 32
  active : Bool
  fib : Bool
  resolved : List ResolvedHop
  deriving DecidableEq

/-- A next hop as the functions `nexthop_*_add` make it. -/
def Nexthop.new (type : NexthopType) (ifname : String) (ifindex gate src : BitVec 32) : Nexthop :=
  ⟨type,ifname,ifindex,gate,src,false,false,[]⟩

/-- The flag of a next hop and those it resolves to. -/
def Nexthop.setFib (b : Bool) (hop : Nexthop) : Nexthop :=
  {hop with fib := b,resolved := hop.resolved.map fun h => {h with fib := b}}

/-- The next hop, or one that it resolves to, is in the FIB. -/
def Nexthop.anyFib (hop : Nexthop) : Bool := hop.fib || hop.resolved.any ResolvedHop.fib

/-- The flags `ZEBRA_FLAG_*`, one byte. -/
structure ZebraFlags where
  internal : Bool
  selfroute : Bool
  blackhole : Bool
  ibgp : Bool
  selected : Bool
  changed : Bool
  static : Bool
  reject : Bool
  deriving DecidableEq

def ZebraFlags.none : ZebraFlags := ⟨false,false,false,false,false,false,false,false⟩

structure Rib where
  /-- What tells an entry; older ones have smaller numbers. -/
  addr : ℕ
  type : RouteType
  table : BitVec 32
  metric : BitVec 32
  distance : BitVec 8
  flags : ZebraFlags
  removed : Bool
  refcnt : ℕ
  nexthopNum : BitVec 8
  nexthopActiveNum : BitVec 8
  nexthops : List Nexthop
  deriving DecidableEq

def Rib.new (type : RouteType) (table metric : BitVec 32) (distance : BitVec 8)
    (flags : ZebraFlags) : Rib :=
  ⟨0,type,table,metric,distance,flags,false,0,0,0,[]⟩

def nexthopAdd (rib : Rib) (hop : Nexthop) : Rib :=
  {rib with nexthops := rib.nexthops++[hop],nexthopNum := rib.nexthopNum+1}

def distanceInfinity : BitVec 8 := 255

/-- `RIB_SYSTEM_ROUTE`. -/
def Rib.system (rib : Rib) : Bool := rib.type=.kernel || rib.type=.connect

/-- `ZEBRA_FLAG_SELECTED`. -/
def Rib.setSelected (b : Bool) (rib : Rib) : Rib :=
  {rib with flags := {rib.flags with selected := b}}

/-- The flag of all next hops. -/
def Rib.setFib (b : Bool) (rib : Rib) : Rib :=
  {rib with nexthops := rib.nexthops.map (Nexthop.setFib b)}

/-- Some next hop is in the FIB. -/
def Rib.anyFib (rib : Rib) : Bool := rib.nexthops.any Nexthop.anyFib

/-- `meta_queue_map`: the sub-queue of a type, 0 for the types without a row. -/
def metaQueueMap : RouteType→Fin 5
  | .kernel | .connect => 0
  | .static | .pim => 1
  | .rip | .ripng | .ospf | .ospf6 | .isis | .olsr | .babel | .icrp | .frp => 2
  | .bgp => 3
  | .system | .hsls => 4
  | .aodv | .vrrp | .lldp | .vpn | .bfd | .ldp | .rsvp | .mpls | .utils | .manage | .switch => 0

/-- `route_info` as the program starts: the default distances, 0 for the types without a row. -/
def routeInfoDistance : RouteType→BitVec 8
  | .system | .kernel | .connect => 0
  | .static | .pim => 1
  | .bgp => 20
  | .frp => 80
  | .olsr => 90
  | .icrp => 95
  | .hsls => 100
  | .ospf | .ospf6 => 110
  | .isis => 115
  | .rip | .ripng | .babel => 120
  | .aodv | .vrrp | .lldp | .vpn | .bfd | .ldp | .rsvp | .mpls | .utils | .manage | .switch => 0

/-- What a check of a next hop leaves. -/
structure ActiveResult where
  active : Bool
  ifindex : BitVec 32
  resolved : List ResolvedHop

/-- What the kernel makes of an entry. -/
structure KernelResult where
  failed : Bool
  /-- The next hops that are put in the FIB, by position. -/
  hops : ℕ→Bool
  resolved : ℕ→ℕ→Bool

/-- The answers during one `rib_process`. -/
structure Environment where
  /-- `nexthop_active_check` for `set`, the entry and the position. -/
  activeCheck : Bool→ℕ→ℕ→ActiveResult
  /-- `kernel_add_ipv4` for the entry. -/
  kernelAdd : ℕ→KernelResult

/-- `nexthop_active_check`, which may resolve and look up anew. -/
def nexthopActiveCheck (result : ActiveResult) (set : Bool) (hop : Nexthop) : Nexthop :=
  {hop with
    active := result.active
    ifindex :=
      match hop.type with
      | .ipv4 => result.ifindex
      | .ifname => if set then result.ifindex else hop.ifindex
      | _ => hop.ifindex
    resolved :=
      if set && (hop.type=.ipv4 || hop.type=.ipv4Ifindex) then
        result.resolved.map fun h => {h with fib := false}
      else hop.resolved}

def nexthopActiveUpdate (env : Environment) (set : Bool) (rib : Rib) : Rib :=
  let hops := rib.nexthops.mapIdx fun i hop =>
    nexthopActiveCheck (env.activeCheck set rib.addr i) set hop
  let changed := (hops.zip rib.nexthops).any fun new =>
    new.1.active != new.2.active || new.1.ifindex != new.2.ifindex
  {rib with
    nexthops := hops
    nexthopActiveNum := BitVec.ofNat 8 (hops.countP Nexthop.active)
    flags := {rib.flags with changed := changed}}

/-- The kernel puts next hops in the FIB. -/
def kernelMark (result : KernelResult) (rib : Rib) : Rib :=
  {rib with
    nexthops := rib.nexthops.mapIdx fun i hop =>
      {hop with
        fib := hop.fib || result.hops i
        resolved := hop.resolved.mapIdx fun j h => {h with fib := h.fib || result.resolved i j}}}

def ribInstallKernel (safi : Safi) (env : Environment) (rib : Rib) : Rib :=
  if safi ≠ .unicast then rib.setFib true
  else
    let result := env.kernelAdd rib.addr
    let rib := kernelMark result rib
    if result.failed then rib.setFib false else rib

/-- `rib_uninstall_kernel`. For other tables than the unicast one it sets the
flag. -/
def ribUninstallKernel (safi : Safi) (rib : Rib) : Rib :=
  if safi ≠ .unicast then rib.setFib true else rib.setFib false

/-- The calls of `redistribute_add` and `redistribute_delete`. -/
inductive RedistCall where
  | add (type : RouteType)
  | delete (type : RouteType) (distance : BitVec 8)
  deriving DecidableEq

/-- The pointers of `rib_process`, and whether it deletes the FIB entry. -/
structure Choice where
  fib : Option Rib
  select : Option Rib
  del : Bool

/-- Route selection between two entries, of which the second is older. -/
def better (select : Option Rib) (rib : Rib) : Rib :=
  match select with
  | none => rib
  | some select =>
    if rib.type=.connect then
      if select.type ≠ .connect || rib.metric ≤ select.metric then rib else select
    else if select.type=.connect then select
    else if rib.distance > select.distance then select
    else if rib.distance<select.distance then rib
    else if rib.metric ≤ select.metric then rib else select

/-- The loop of `rib_process`, with what stays on the list. It fails when the
assertion does. -/
def ribProcessLoop (env : Environment) : Choice→List Rib→Option (Choice × List Rib)
  | c, [] => some (c,[])
  | c, rib::rest =>
    if rib.flags.selected && c.fib.isSome then none
    else
      let c := if rib.flags.selected then {c with fib := some rib} else c
      if rib.removed then
        -- Only a selected entry is the FIB entry here.
        if rib.flags.selected then
          (ribProcessLoop env {c with del := true} rest).map fun r => (r.1,rib::r.2)
        else ribProcessLoop env c rest
      else
        let rib := nexthopActiveUpdate env false rib
        let c :=
          if rib.nexthopActiveNum=0 || rib.distance=distanceInfinity then c
          else {c with select := some (better c.select rib)}
        (ribProcessLoop env c rest).map fun r => (r.1,rib::r.2)

/-- An entry that is pointed to changes. -/
def modifyRib (addr : ℕ) (f : Rib→Rib) (routes : List Rib) : List Rib :=
  routes.map fun rib => if rib.addr=addr then f rib else rib

/-- An entry is taken out of the FIB. -/
def uninstallRib (safi : Safi) (rib : Rib) : Rib :=
  if rib.system then rib else ribUninstallKernel safi rib

/-- An entry is put in the FIB, with its real next hops. -/
def installRib (safi : Safi) (env : Environment) (rib : Rib) : Rib :=
  let rib := nexthopActiveUpdate env true rib
  if rib.system then rib else ribInstallKernel safi env rib

def updateExisting (safi : Safi) (env : Environment) (select : Rib) (routes : List Rib) :
    List Rib × List RedistCall :=
  if select.flags.changed then
    (modifyRib select.addr (fun rib => installRib safi env (uninstallRib safi rib)) routes,
      [.delete select.type select.distance,.add select.type])
  else if !select.system && !select.anyFib then
    (modifyRib select.addr (ribInstallKernel safi env) routes,[])
  else (routes,[])

def removeExisting (safi : Safi) (env : Environment) (fib : Option Rib) (routes : List Rib) :
    List Rib × List RedistCall :=
  match fib with
  | none => (routes,[])
  | some fib =>
    (modifyRib fib.addr
        (fun rib => nexthopActiveUpdate env true ((uninstallRib safi rib).setSelected false)) routes,
      [.delete fib.type fib.distance])

def addSelected (safi : Safi) (env : Environment) (select : Option Rib) (routes : List Rib) :
    List Rib × List RedistCall :=
  match select with
  | none => (routes,[])
  | some select =>
    (modifyRib select.addr (fun rib => (installRib safi env rib).setSelected true) routes,
      [.add select.type])

/-- The FIB entry is unlinked if it was removed. -/
def unlinkRemoved (c : Choice) (routes : List Rib) : List Rib :=
  match c.fib, c.del with
  | some fib, true => routes.filter fun rib => rib.addr≠fib.addr
  | _, _ => routes

/-- The winner, if it is the FIB entry. -/
def Choice.same (c : Choice) : Option Rib :=
  match c.select, c.fib with
  | some select, some fib => if select.addr=fib.addr then some select else none
  | _, _ => none

/-- What `rib_process` does behind its loop. -/
def ribProcessEnd (safi : Safi) (env : Environment) (c : Choice) (routes : List Rib) :
    List Rib × List RedistCall :=
  match c.same with
  | some select => updateExisting safi env select routes
  | none =>
    let withdrawn := removeExisting safi env c.fib routes
    let added := addSelected safi env c.select withdrawn.1
    (unlinkRemoved c added.1,withdrawn.2++added.2)

/-- `rib_process`, on the entries of a node. -/
def ribProcessRoutes (safi : Safi) (env : Environment) (routes : List Rib) :
    Option (List Rib × List RedistCall) :=
  (ribProcessLoop env ⟨none,none,false⟩ routes).map fun r => ribProcessEnd safi env r.1 r.2

def refresh (env : Environment) (rib : Rib) : Rib :=
  if rib.removed then rib else nexthopActiveUpdate env false rib

/-- An entry that may be selected. -/
def usable (env : Environment) (rib : Rib) : Bool :=
  !rib.removed && (nexthopActiveUpdate env false rib).nexthopActiveNum≠0 &&
    rib.distance≠distanceInfinity

/-- The entries that the loop leaves on the list. -/
def survivors (env : Environment) (routes : List Rib) : List Rib :=
  (routes.filter fun rib => !rib.removed || rib.flags.selected).map (refresh env)

/-- The winner among entries, newest first. -/
def winner (env : Environment) (select : Option Rib) (routes : List Rib) : Option Rib :=
  (routes.filter (usable env)).foldl
    (fun select rib => some (better select (nexthopActiveUpdate env false rib))) select

def Choice.over (env : Environment) (c : Choice) (routes : List Rib) : Choice where
  fib := c.fib.or (routes.find? fun rib => rib.flags.selected)
  select := winner env c.select routes
  del := c.del || routes.any fun rib => rib.flags.selected && rib.removed

/-- At most one entry is selected. -/
def SelectedOnce (fib : Option Rib) (routes : List Rib) : Prop :=
  fib.toList.length+routes.countP (fun rib => rib.flags.selected)≤1

instance decidableSelectedOnce (fib : Option Rib) (routes : List Rib) :
    Decidable (SelectedOnce fib routes) :=
  inferInstanceAs (Decidable (_≤_))

variable (env : Environment)

theorem winner_cons (select : Option Rib) (rib : Rib) (rest : List Rib) :
    winner env select (rib::rest) = winner env (if usable env rib then
        some (better select (nexthopActiveUpdate env false rib)) else select) rest := by
  unfold winner
  rw [filter_cons]
  split <;> rfl

theorem selectedOnce_cons (fib : Option Rib) (rib : Rib) (rest : List Rib) :
    SelectedOnce fib (rib::rest) ↔ ¬(rib.flags.selected && fib.isSome)=true ∧
        SelectedOnce (if rib.flags.selected then some rib else fib) rest := by
  unfold SelectedOnce
  rw [countP_cons]
  cases rib.flags.selected <;> cases fib <;> simp

theorem survivors_cons (rib : Rib) (rest : List Rib) : survivors env (rib::rest) =
      if !rib.removed || rib.flags.selected then refresh env rib::survivors env rest
      else survivors env rest := by
  unfold survivors
  rw [filter_cons]
  split <;> rfl

theorem Choice.over_cons (c : Choice) {rib : Rib} (rest : List Rib)
    (hfib : ¬(rib.flags.selected && c.fib.isSome)=true) :
    c.over env (rib::rest)=Choice.over env
      { fib := if rib.flags.selected then some rib else c.fib
        select := if usable env rib then some (better c.select (nexthopActiveUpdate env false rib))
          else c.select
        del := c.del || (rib.flags.selected && rib.removed) } rest := by
  unfold Choice.over
  rw [winner_cons,any_cons,Bool.or_assoc,find?_cons]
  cases hsel : rib.flags.selected with
  | false => rfl
  | true =>
    rw [hsel,Bool.true_and,not_eq_true,isSome_eq_false_iff,isNone_iff_eq_none] at hfib
    rw [hfib]
    rfl

/-- The loop of `rib_process` fails when two entries are selected, else it is right. -/
theorem ribProcessLoop_eq (routes : List Rib) : ∀ c : Choice, ribProcessLoop env c routes =
      if SelectedOnce c.fib routes then some (c.over env routes,survivors env routes)
      else none := by
  induction routes with
  | nil =>
    intro c
    have honce : SelectedOnce c.fib [] := by
      unfold SelectedOnce
      cases c.fib <;> simp
    have hover : c.over env []=c := by
      unfold Choice.over
      rw [find?_nil,or_none,any_nil,Bool.or_false]
      rfl
    rw [if_pos honce,hover]
    rfl
  | cons rib rest ih =>
    intro c
    rw [ribProcessLoop]
    by_cases hfib : (rib.flags.selected && c.fib.isSome)=true
    · have hno : ¬SelectedOnce c.fib (rib::rest) := fun h =>
        ((selectedOnce_cons c.fib rib rest).mp h).1 hfib
      rw [if_pos hfib,if_neg hno]
    have honce : SelectedOnce c.fib (rib::rest) ↔
        SelectedOnce (if rib.flags.selected then some rib else c.fib) rest := by
      rw [selectedOnce_cons]
      exact and_iff_right hfib
    rw [if_neg hfib,Choice.over_cons env c rest hfib,survivors_cons]
    dsimp only
    cases hrem : rib.removed with
    | true =>
      have hunusable : usable env rib=false := by
        unfold usable
        rw [hrem]
        rfl
      have hrefresh : refresh env rib=rib := if_pos hrem
      rw [hunusable,hrefresh]
      cases hsel : rib.flags.selected with
      | true =>
        rw [hsel] at honce
        simp only [if_true,ih,Bool.not_true,Bool.or_true,Bool.and_true,honce]
        split <;> rfl
      | false =>
        rw [hsel] at honce
        simp only [if_true,ih,Bool.not_true,Bool.or_self,Bool.false_and,Bool.or_false,honce,
          false_eq_true,if_false]
    | false =>
      have hrefresh : refresh env rib=nexthopActiveUpdate env false rib :=
        if_neg (by rw [hrem]; exact false_ne_true)
      have huse : usable env rib = !((nexthopActiveUpdate env false rib).nexthopActiveNum=0 ||
            (nexthopActiveUpdate env false rib).distance=distanceInfinity : Bool) := by
        unfold usable
        rw [hrem,Bool.not_false,Bool.true_and,Bool.not_or,←decide_not,←decide_not]
        rfl
      rw [hrefresh,huse]
      generalize (decide ((nexthopActiveUpdate env false rib).nexthopActiveNum=0) ||
        decide ((nexthopActiveUpdate env false rib).distance=distanceInfinity))=skipped
      simp only [Bool.not_false,Bool.true_or,if_true,Bool.and_false,Bool.or_false,
        false_eq_true,if_false,ih,not_eq_true',honce]
      cases hsel : rib.flags.selected with
      | true | false =>
        cases skipped <;> simp only [if_true,false_eq_true,if_false,true_eq_false] <;>
          split <;> rfl

end RoutePlatform.RibEntries
