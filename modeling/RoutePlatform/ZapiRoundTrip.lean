import RoutePlatform.ZapiEncoding

/-!
# Route messages come through

What zebra hands on is what the daemon gave, except that an IPv4 blackhole with next hops leaves
bytes unread, and that an IPv6 route keeps the last next hop and interface only and never becomes
a blackhole next hop.
-/

namespace RoutePlatform.ZapiRoundTrip

open StreamOperations PrefixBytes ZapiOperations ZapiEncoding List Option

variable {s : Stream} {ys : List (BitVec 8)} {call : RibAddIpv6} (u : Address)

/-- The message arrives and is read to its end, and what is handed on passes. -/
def RoundTrip {κ : Type} (cmd : BitVec 8) (written : Stream)
    (read : Stream→Option (κ × Stream)) (passes : κ→Prop) : Prop :=
  ∃ s call s', zebraClientRead written.data=some (cmd.setWidth 16,s) ∧
    read s=some (call,s') ∧ s'.rest=[] ∧ passes call

/-- The distance that goes with a message. -/
def sentDistance {α : Type} (api : ZapiRoute α) : BitVec 8 :=
  if checkFlag api.message messageDistance then api.distance else 0

/-- The metric that goes with a message. -/
def sentMetric {α : Type} (api : ZapiRoute α) : BitVec 32 :=
  if checkFlag api.message messageMetric then api.metric else 0

/-- The next hops that go with an IPv4 message. -/
def sentHops (api : ZapiRoute (BitVec 32)) : List ZapiHop :=
  if checkFlag api.message messageNexthop then
    if checkFlag api.flags flagBlackhole then [.blackhole]
    else api.nexthop.map .ipv4++api.ifindex.map .ifindex
  else []

/-- The call for an IPv4 route is what the daemon gave. -/
structure PassesIpv4 (p : Prefix) (api : ZapiRoute (BitVec 32)) (call : RibAddIpv4) : Prop where
  type : call.rib.type=api.type
  flags : call.rib.flags=api.flags
  safi : call.safi=api.safi
  family : call.p.family=p.family
  /-- The bits of the prefix. -/
  key : call.p.key=p.key
  hops : call.rib.nexthops=sentHops api
  distance : call.rib.distance=sentDistance api
  metric : call.rib.metric=sentMetric api

/-- The next hops of an IPv6 call are those that go with the message. No index
is index zero. -/
def SameHops (api : ZapiRoute Address) (call : RibAddIpv6) : Prop :=
  if checkFlag api.message messageNexthop then
    if checkFlag api.flags flagBlackhole then call.hop=.blackhole
    else call.gate.toList=api.nexthop ∧
      (api.ifindex=[call.ifindex] ∨ api.ifindex=[] ∧ call.ifindex=0)
  else call.gate=none ∧ call.ifindex=0

/-- The call for an IPv6 route is what the daemon gave. -/
structure PassesIpv6 (p : Prefix) (api : ZapiRoute Address) (call : RibAddIpv6) : Prop where
  type : call.type=api.type
  flags : call.flags=api.flags
  safi : call.safi=api.safi
  family : call.p.family=p.family
  /-- The bits of the prefix. -/
  key : call.p.key=p.key
  hops : SameHops api call
  distance : call.distance=sentDistance api
  metric : call.metric=sentMetric api

/-- An IPv4 route comes through. -/
def RoundTripIpv4 (cmd : BitVec 8) (p : Prefix) (api : ZapiRoute (BitVec 32)) : Prop :=
  RoundTrip cmd (zapiIpv4Route cmd p api) zreadIpv4Add (PassesIpv4 p api)

/-- An IPv6 route comes through. -/
def RoundTripIpv6 (cmd : BitVec 8) (p : Prefix) (api : ZapiRoute Address) : Prop :=
  RoundTrip cmd (zapiIpv6Route cmd p api) zreadIpv6Add (PassesIpv6 p api)

/-- No next hops are given to a blackhole. -/
def BareBlackhole (api : ZapiRoute (BitVec 32)) : Prop :=
  checkFlag api.message messageNexthop=true → checkFlag api.flags flagBlackhole=true →
    api.nexthop=[] ∧ api.ifindex=[]

/-- One next hop and one interface at most, and no blackhole. -/
def OneHop (api : ZapiRoute Address) : Prop :=
  checkFlag api.message messageNexthop=true →
    checkFlag api.flags flagBlackhole=false ∧ api.nexthop.length≤1 ∧
      api.ifindex.length≤1 ∧ zeroAddress ∉ api.nexthop

theorem byteAt_addressOf_addressBytes {n k : ℕ} (hk : k<n) :
    byteAt (addressOf (addressBytes u n)) k=byteAt u k := by
  unfold byteAt
  by_cases h : k<16
  · rw [dif_pos h,dif_pos h,addressOf,addressBytes,getD_eq_getElem?_getD,
      getElem?_map,getElem?_range hk,map_some,getD_some,byteAt,
      dif_pos h]
  · rw [dif_neg h,dif_neg h]

theorem addressOf_addressBytes : addressOf (addressBytes u 16)=u := by
  funext i
  have h := byteAt_addressOf_addressBytes u i.isLt
  rw [byteAt,byteAt,dif_pos i.isLt,dif_pos i.isLt] at h
  exact h

theorem key_addressBytes (p : Prefix) :
    (⟨p.family,p.prefixlen,addressOf (addressBytes p.u (psize p.prefixlen)),p.len_le⟩ :
      Prefix).key=p.key := by
  refine map_congr_left fun i hi => ?_
  have hlt : i<p.prefixlen := mem_range.mp hi
  have hbyte : i/8<psize p.prefixlen := by
    rw [psize]
    omega
  rw [bitAt,bitAt,byteAt_addressOf_addressBytes p.u hbyte]

variable {p : Prefix}

theorem zreadPrefix_append {family : Family} (hfamily : p.family=family)
    (h : s.rest=BitVec.ofNat 8 p.prefixlen::(addressBytes p.u (psize p.prefixlen)++ys)) :
    ∃ p' s', zreadPrefix family s=some (p',s') ∧ s'.rest=ys ∧ p'.family=p.family ∧
      p'.key=p.key := by
  subst hfamily
  have hmax := p.len_le_128
  have hlen : (BitVec.ofNat 8 p.prefixlen).toNat=p.prefixlen := by
    rw [BitVec.toNat_ofNat,Nat.mod_eq_of_lt (by omega)]
  obtain ⟨s1,h1,hrs1⟩ := getc_cons h
  obtain ⟨s2,h2,hrs2⟩ := getAddress_append zeroAddress hrs1
  refine ⟨⟨p.family,p.prefixlen,addressOf (addressBytes p.u (psize p.prefixlen)),p.len_le⟩,
    s2,?_,hrs2,rfl,key_addressBytes p⟩
  rw [zreadPrefix,h1]
  simp only [hlen]
  rw [h2]
  rw [dif_pos p.len_le]

variable (l : List (BitVec 32))

theorem zreadIpv4Nexthops_ifindexes : ∀ {s : Stream} {ys : List (BitVec 8)} (rib : ZapiRib),
      s.rest=l.flatMap ifindexBytes++ys →
      ∃ s', zreadIpv4Nexthops l.length s rib =
        (s', {rib with nexthops := rib.nexthops++l.map .ifindex}) ∧ s'.rest=ys := by
  induction l with
  | nil =>
    intro s ys rib h
    rw [map_nil,append_nil]
    exact ⟨s,rfl,h⟩
  | cons i l ih =>
    intro s ys rib h
    rw [flatMap_cons,append_assoc] at h
    obtain ⟨s1,h1,hrs1⟩ := getc_cons h
    obtain ⟨s2,h2,hrs2⟩ := getl_append hrs1
    obtain ⟨s3,h3,hrs3⟩ := ih (rib.add (.ifindex i)) hrs2
    refine ⟨s3,?_,hrs3⟩
    rw [length_cons,zreadIpv4Nexthops,zreadIpv4Nexthop,h1]
    dsimp only
    rw [if_pos rfl,h2]
    rw [h3,ZapiRib.add,map_cons,append_assoc]
    rfl

theorem zreadIpv4Nexthops_append (m : List (BitVec 32)) :
    ∀ {s : Stream} {ys : List (BitVec 8)} (rib : ZapiRib),
      s.rest=l.flatMap ipv4Bytes++(m.flatMap ifindexBytes++ys) →
      ∃ s', zreadIpv4Nexthops (l.length+m.length) s rib =
        (s', {rib with nexthops := rib.nexthops++(l.map .ipv4++m.map .ifindex)}) ∧
        s'.rest=ys := by
  induction l with
  | nil =>
    intro s ys rib h
    rw [length_nil,zero_add,map_nil,nil_append]
    exact zreadIpv4Nexthops_ifindexes m rib h
  | cons g l ih =>
    intro s ys rib h
    rw [flatMap_cons,append_assoc] at h
    obtain ⟨s1,h1,hrs1⟩ := getc_cons h
    obtain ⟨s2,h2,hrs2⟩ := getl_append hrs1
    obtain ⟨s3,h3,hrs3⟩ := ih (rib.add (.ipv4 g)) hrs2
    refine ⟨s3,?_,hrs3⟩
    rw [length_cons,add_right_comm,zreadIpv4Nexthops,zreadIpv4Nexthop,h1]
    dsimp only
    rw [if_neg (by decide),if_neg (by decide),if_pos rfl,h2]
    rw [h3,ZapiRib.add,map_cons,append_assoc,cons_append]
    rfl

theorem zreadIpv6Nexthops_ifindexes :
    ∀ {s : Stream} {ys : List (BitVec 8)} (nexthop : Address) (ifindex : BitVec 32),
      s.rest=l.flatMap ifindexBytes++ys →
      ∃ s', zreadIpv6Nexthops l.length s nexthop ifindex=(s',nexthop,l.getLastD ifindex) ∧
        s'.rest=ys := by
  induction l with
  | nil => exact fun _ _ h => ⟨_,rfl,h⟩
  | cons i l ih =>
    intro s ys nexthop ifindex h
    rw [flatMap_cons,append_assoc] at h
    obtain ⟨s1,h1,hrs1⟩ := getc_cons h
    obtain ⟨s2,h2,hrs2⟩ := getl_append hrs1
    obtain ⟨s3,h3,hrs3⟩ := ih nexthop i hrs2
    refine ⟨s3,?_,hrs3⟩
    rw [length_cons,zreadIpv6Nexthops,h1]
    dsimp only
    rw [if_neg (by decide),if_pos rfl,h2]
    rw [h3,getLastD_cons]

theorem zreadIpv6Nexthops_append (l : List Address) (m : List (BitVec 32)) :
    ∀ {s : Stream} {ys : List (BitVec 8)} (nexthop : Address) (ifindex : BitVec 32),
      s.rest=l.flatMap ipv6Bytes++(m.flatMap ifindexBytes++ys) →
      ∃ s', zreadIpv6Nexthops (l.length+m.length) s nexthop ifindex =
        (s',l.getLastD nexthop,m.getLastD ifindex) ∧ s'.rest=ys := by
  induction l with
  | nil =>
    intro s ys nexthop ifindex h
    rw [length_nil,zero_add]
    exact zreadIpv6Nexthops_ifindexes m nexthop ifindex h
  | cons g l ih =>
    intro s ys nexthop ifindex h
    rw [flatMap_cons,append_assoc] at h
    obtain ⟨s1,h1,hrs1⟩ := getc_cons h
    obtain ⟨s2,h2,hrs2⟩ := getAddress_append nexthop hrs1
    rw [addressOf_addressBytes] at h2
    obtain ⟨s3,h3,hrs3⟩ := ih g ifindex hrs2
    refine ⟨s3,?_,hrs3⟩
    rw [length_cons,add_right_comm,zreadIpv6Nexthops,h1]
    dsimp only
    rw [if_pos rfl,h2]
    rw [h3,getLastD_cons]

variable {α : Type} (api : ZapiRoute α)

theorem zreadDistance_append
    (h : s.rest=(if checkFlag api.message messageDistance then [api.distance] else [])++ys) :
    ∃ s', zreadDistance api.message s=(sentDistance api,s') ∧ s'.rest=ys := by
  rw [zreadDistance,sentDistance]
  exact ite_get 0 getc_cons h

theorem zreadMetric_append
    (h : s.rest=(if checkFlag api.message messageMetric then bytes32 api.metric else [])++ys) :
    ∃ s', zreadMetric api.message s=(sentMetric api,s') ∧ s'.rest=ys := by
  rw [zreadMetric,sentMetric]
  exact ite_get 0 getl_append h

theorem getl_rest_length (h : 4 ≤ s.rest.length) : (getl s).2.rest.length+4=s.rest.length := by
  have hcut := (take_append_drop 4 s.rest).symm
  have htake : (s.rest.take 4).length=4 := by
    rw [length_take]
    omega
  obtain ⟨s',hget,hrs⟩ := get_append hcut
  rw [htake] at hget
  obtain ⟨b0,b1,b2,b3,hbs⟩ := length_eq_four.mp htake
  rw [hbs] at hget
  have hgetl : (getl s).2=s' := by rw [getl,streamGetl,hget,getD_some]
  rw [hgetl,hrs,length_drop]
  omega

theorem zreadEnd_length {xs : List (BitVec 8)} (h : s.rest=xs++endBytes api) :
    (zreadMetric api.message (zreadDistance api.message s).2).2.rest.length=xs.length := by
  have hdist : (zreadDistance api.message s).2.rest.length =
      xs.length+if checkFlag api.message messageMetric then 4 else 0 := by
    rw [endBytes] at h
    rw [zreadDistance]
    split at h
    · rename_i hbit
      rw [if_pos hbit]
      obtain ⟨c,ys,hcons⟩ : ∃ c ys, s.rest=c::ys := by
        rw [h]
        cases xs <;> exact ⟨_,_,rfl⟩
      obtain ⟨s',hget,hrs⟩ := getc_cons hcons
      have hlen := congrArg length (hcons.symm.trans h)
      rw [hget]
      rw [hrs]
      split at hlen <;> simp only [length_append,length_cons,length_nil,
        length_bytes32] at hlen <;> split <;> first | omega | contradiction
    · rename_i hbit
      rw [if_neg hbit]
      rw [h]
      split <;> simp
  rw [zreadMetric]
  split at hdist
  · rename_i hbit
    rw [if_pos hbit]
    have hlen := getl_rest_length (show 4≤(zreadDistance api.message s).2.rest.length by omega)
    omega
  rename_i hbit
  rw [if_neg hbit]
  exact hdist

theorem message_body_le (p : Prefix) (api : ZapiRoute α) {hops : List (BitVec 8)}
    (hlen : hops.length≤4000) : 6+(startBytes p api++hops++endBytes api).length≤4096 := by
  have hstart := length_startBytes_le p api
  have hend := length_endBytes_le api
  rw [length_append,length_append]
  omega

theorem or_flagBlackhole {flags : BitVec 8} (h : checkFlag flags flagBlackhole=true) :
    flags ||| flagBlackhole=flags := by
  revert flags
  decide

/-- The next hop section of `zread_ipv4_add`. -/
def zreadIpv4Hops (message : BitVec 8) (s : Stream) (rib : ZapiRib) : Stream × ZapiRib :=
  if checkFlag message messageNexthop then
    zreadIpv4Nexthops (getc s).1.toNat (getc s).2 rib
  else (s,rib)

theorem zreadIpv4Hops_append {api : ZapiRoute (BitVec 32)}
    (hnum : api.nexthop.length+api.ifindex.length≤255) (h : s.rest=hopBytes4 api++endBytes api) :
    ∃ s' rib, zreadIpv4Hops api.message s ⟨api.type,api.flags,0,0,[]⟩=(s',rib) ∧
      rib=⟨api.type,api.flags,0,0,sentHops api⟩ ∧
      ∃ xs, s'.rest=xs++endBytes api ∧ (xs=[] ↔ BareBlackhole api) := by
  unfold zreadIpv4Hops sentHops
  by_cases hnh : checkFlag api.message messageNexthop=true
  · rw [hopBytes4,if_pos hnh] at h
    rw [if_pos hnh,if_pos hnh]
    by_cases hbh : checkFlag api.flags flagBlackhole=true
    · rw [if_pos hbh,append_assoc,append_assoc] at h
      obtain ⟨s1,h1,hrs1⟩ := getc_cons h
      obtain ⟨s2,h2,hrs2⟩ := getc_cons hrs1
      rw [if_pos hbh,h1]
      refine ⟨s2,⟨api.type,api.flags,0,0,[.blackhole]⟩,?_,rfl,
        api.nexthop.flatMap ipv4Bytes++api.ifindex.flatMap ifindexBytes,?_,?_⟩
      · change zreadIpv4Nexthops 1 s1 _=_
        rw [zreadIpv4Nexthops,zreadIpv4Nexthop,h2]
        dsimp only
        rw [if_neg (by decide),if_neg (by decide),if_neg (by decide),if_neg (by decide),
          if_neg (by decide),if_pos rfl,or_flagBlackhole hbh]
        rfl
      · rw [hrs2,append_assoc]
        rfl
      rw [←length_eq_zero_iff,length_append,length_flatMap_ipv4Bytes,length_flatMap_ifindexBytes]
      constructor
      · intro hz _ _
        exact ⟨length_eq_zero_iff.mp (by omega),length_eq_zero_iff.mp (by omega)⟩
      · intro hbare
        rw [(hbare hnh hbh).1,(hbare hnh hbh).2]
        rfl
    · rw [if_neg hbh,append_assoc,append_assoc] at h
      obtain ⟨s1,h1,hrs1⟩ := getc_cons h
      obtain ⟨s2,h2,hrs2⟩ := zreadIpv4Nexthops_append api.nexthop api.ifindex
        (⟨api.type,api.flags,0,0,[]⟩ : ZapiRib) hrs1
      have hlen : (BitVec.ofNat 8 (api.nexthop.length+api.ifindex.length)).toNat =
          api.nexthop.length+api.ifindex.length := by
        rw [BitVec.toNat_ofNat,Nat.mod_eq_of_lt (by omega)]
      rw [if_neg hbh,h1]
      rw [hlen,h2]
      exact ⟨s2,_,rfl,rfl,[],hrs2,⟨fun _ _ hflag => absurd hflag hbh,fun _ => rfl⟩⟩
  · rw [hopBytes4,if_neg hnh] at h
    rw [if_neg hnh,if_neg hnh]
    exact ⟨s,_,rfl,rfl,[],h,⟨fun _ hbit => absurd hbit hnh,fun _ => rfl⟩⟩

theorem startBytes_append (p : Prefix) (api : ZapiRoute α) (ys : List (BitVec 8)) :
    startBytes p api++ys=api.type::api.flags::api.message :: (bytes16 (api.safi.setWidth 16) ++
        (BitVec.ofNat 8 p.prefixlen::(addressBytes p.u (psize p.prefixlen)++ys))) := by
  rw [startBytes,append_assoc,append_assoc,append_assoc]
  rfl

theorem safi_setWidth (safi : BitVec 8) : (safi.setWidth 16).setWidth 8=safi := by
  rw [BitVec.setWidth_setWidth_of_le _ (by decide),BitVec.setWidth_eq]

/-- What `zread_ipv4_add` makes of a message is what the daemon gave, unless bytes
are left. -/
theorem zreadIpv4Add_body {api : ZapiRoute (BitVec 32)}
    (hnum : api.nexthop.length+api.ifindex.length≤255) (hfamily : p.family=.inet)
    (h : s.rest=startBytes p api++hopBytes4 api++endBytes api) :
    ∃ call s', zreadIpv4Add s=some (call,s') ∧ (s'.rest=[] ↔ BareBlackhole api) ∧
      (BareBlackhole api → PassesIpv4 p api call) := by
  rw [append_assoc,startBytes_append] at h
  obtain ⟨s1,h1,hrs1⟩ := getc_cons h
  obtain ⟨s2,h2,hrs2⟩ := getc_cons hrs1
  obtain ⟨s3,h3,hrs3⟩ := getc_cons hrs2
  obtain ⟨s4,h4,hrs4⟩ := getw_append hrs3
  obtain ⟨p',s5,h5,hrs5,hfamily',hkey⟩ := zreadPrefix_append hfamily hrs4
  obtain ⟨s6,rib,h6,hrib,xs,hrs6,hbare⟩ := zreadIpv4Hops_append hnum hrs5
  have hcall : zreadIpv4Add s=some (⟨p', {rib with
          distance := (zreadDistance api.message s6).1
          metric := (zreadMetric api.message (zreadDistance api.message s6).2).1},
        (api.safi.setWidth 16).setWidth 8⟩,
        (zreadMetric api.message (zreadDistance api.message s6).2).2) := by
    rw [zreadIpv4Add,h1]
    dsimp only
    rw [h2]
    rw [h3]
    rw [h4]
    rw [h5,map_some]
    have h6' : (if checkFlag api.message messageNexthop then
        zreadIpv4Nexthops (getc s5).1.toNat (getc s5).2 ⟨api.type,api.flags,0,0,[]⟩
      else (s5,⟨api.type,api.flags,0,0,[]⟩))=(s6,rib) := h6
    simp only [h6']
  refine ⟨_,_,hcall,?_,fun h => ?_⟩
  · rw [←hbare,←length_eq_zero_iff,zreadEnd_length api hrs6,length_eq_zero_iff]
  rw [hbare.mpr h,nil_append,endBytes] at hrs6
  obtain ⟨s7,h7,hrs7⟩ := zreadDistance_append api hrs6
  obtain ⟨s8,h8,-⟩ := zreadMetric_append api (hrs7.trans (append_nil _).symm)
  rw [h7]
  rw [h8,hrib,safi_setWidth]
  exact ⟨rfl,rfl,rfl,hfamily',hkey,rfl,rfl,rfl⟩

theorem roundTripIpv4_iff (cmd : BitVec 8) {api : ZapiRoute (BitVec 32)}
    (hnum : api.nexthop.length+api.ifindex.length≤255) (hfamily : p.family=.inet) :
    RoundTripIpv4 cmd p api ↔ BareBlackhole api := by
  have hhops := length_hopBytes4_le hnum
  obtain ⟨s,hread,hrs⟩ := zebraClientRead_message (cmd.setWidth 16)
    (message_body_le p api (show (hopBytes4 api).length≤4000 by omega))
  obtain ⟨call,s',hadd,hleft,hpass⟩ := zreadIpv4Add_body hnum hfamily hrs
  unfold RoundTripIpv4 RoundTrip
  rw [data_zapiIpv4Route cmd p hnum]
  constructor
  · rintro ⟨t,call',t',hread',hadd',hrs',-⟩
    cases (Prod.mk.inj (some.inj (hread.symm.trans hread'))).2
    cases some.inj (hadd.symm.trans hadd')
    exact hleft.mp hrs'
  · exact fun h => ⟨s,call,s',hread,hadd,hleft.mpr h,hpass h⟩

theorem zreadIpv6Add_gate {s' : Stream} (h : zreadIpv6Add s=some (call,s')) :
    call.gate≠some zeroAddress := by
  unfold zreadIpv6Add at h
  obtain ⟨⟨p,s1⟩,-,heq⟩ := map_eq_some_iff.mp h
  cases heq
  have hgate : ∀ u : Address, (if u=zeroAddress then none else some u)≠some zeroAddress := by
    intro u hu
    split at hu
    · cases hu
    · exact absurd (some.inj hu) ‹_›
  exact hgate _

theorem RibAddIpv6.hop_ne_blackhole (call : RibAddIpv6) : call.hop ≠ .blackhole := by
  unfold RibAddIpv6.hop
  split
  · split <;> exact nofun
  · exact nofun

theorem SameHops.oneHop {api : ZapiRoute Address} (h : SameHops api call)
    (hgate : call.gate≠some zeroAddress) : OneHop api := by
  intro hnh
  unfold SameHops at h
  rw [if_pos hnh] at h
  split at h
  · exact absurd h (RibAddIpv6.hop_ne_blackhole call)
  rename_i hbh
  obtain ⟨hlist,hindex⟩ := h
  refine ⟨Bool.eq_false_iff.mpr hbh,?_,?_,fun hz => ?_⟩
  · rw [←hlist]
    cases call.gate <;> simp
  · rcases hindex with hindex|⟨hindex,-⟩ <;> simp [hindex]
  rw [←hlist] at hz
  exact hgate (mem_toList.mp hz)

/-- The next hop section of `zread_ipv6_add`. -/
def zreadIpv6Hops (message : BitVec 8) (s : Stream) : Stream × Address × BitVec 32 :=
  if checkFlag message messageNexthop then
    zreadIpv6Nexthops (getc s).1.toNat (getc s).2 zeroAddress 0
  else (s,zeroAddress,0)

theorem zreadIpv6Hops_append {api : ZapiRoute Address}
    (hnum : api.nexthop.length+api.ifindex.length≤255) (h : s.rest=hopBytes6 api++ys) :
    ∃ s', zreadIpv6Hops api.message s=(s',
        if checkFlag api.message messageNexthop then
          (api.nexthop.getLastD zeroAddress,api.ifindex.getLastD 0)
        else (zeroAddress,0)) ∧ s'.rest=ys := by
  unfold zreadIpv6Hops
  by_cases hnh : checkFlag api.message messageNexthop=true
  · rw [hopBytes6,if_pos hnh,append_assoc,append_assoc] at h
    obtain ⟨s1,h1,hrs1⟩ := getc_cons h
    obtain ⟨s2,h2,hrs2⟩ := zreadIpv6Nexthops_append api.nexthop api.ifindex zeroAddress 0 hrs1
    have hlen : (BitVec.ofNat 8 (api.nexthop.length+api.ifindex.length)).toNat =
        api.nexthop.length+api.ifindex.length := by
      rw [BitVec.toNat_ofNat,Nat.mod_eq_of_lt (by omega)]
    rw [if_pos hnh,if_pos hnh,h1]
    rw [hlen]
    exact ⟨s2,h2,hrs2⟩
  rw [hopBytes6,if_neg hnh] at h
  rw [if_neg hnh,if_neg hnh]
  exact ⟨s,rfl,h⟩

/-- One next hop and one interface at most are handed on. -/
theorem OneHop.sameHops {api : ZapiRoute Address} (h : OneHop api) {u : Address}
    (hhops : (u,call.ifindex) = if checkFlag api.message messageNexthop then
      (api.nexthop.getLastD zeroAddress,api.ifindex.getLastD 0) else (zeroAddress,0))
    (hgate : call.gate=if u=zeroAddress then none else some u) : SameHops api call := by
  unfold SameHops
  split at hhops
  · rename_i hnh
    obtain ⟨hbh,hone,hindex,hz⟩ := h hnh
    obtain ⟨hu,hi⟩ := Prod.mk.inj hhops
    rw [if_pos hnh,if_neg (Bool.eq_false_iff.mp hbh),hgate,hu,hi]
    constructor
    · cases hlist : api.nexthop with
      | nil => simp
      | cons g l =>
        rw [hlist] at hone hz
        have hl := length_eq_zero_iff.mp (by simpa using hone)
        have hg : g≠zeroAddress := fun hg => hz (hg ▸ .head _)
        rw [hl]
        simp [hg]
    · cases hlist : api.ifindex with
      | nil => exact .inr ⟨rfl,rfl⟩
      | cons i l =>
        rw [hlist] at hindex
        have hl := length_eq_zero_iff.mp (by simpa using hindex)
        rw [hl]
        exact .inl rfl
  · rename_i hnh
    obtain ⟨hu,hi⟩ := Prod.mk.inj hhops
    rw [if_neg hnh,hgate,hu,if_pos rfl]
    exact ⟨rfl,hi⟩

/-- What `zread_ipv6_add` makes of a message that fits. -/
theorem zreadIpv6Add_body {api : ZapiRoute Address}
    (hnum : api.nexthop.length+api.ifindex.length≤255) (hfamily : p.family=.inet6)
    (hone : OneHop api) (h : s.rest=startBytes p api++hopBytes6 api++endBytes api) :
    ∃ call s', zreadIpv6Add s=some (call,s') ∧ s'.rest=[] ∧ PassesIpv6 p api call := by
  rw [append_assoc,startBytes_append] at h
  obtain ⟨s1,h1,hrs1⟩ := getc_cons h
  obtain ⟨s2,h2,hrs2⟩ := getc_cons hrs1
  obtain ⟨s3,h3,hrs3⟩ := getc_cons hrs2
  obtain ⟨s4,h4,hrs4⟩ := getw_append hrs3
  obtain ⟨p',s5,h5,hrs5,hfamily',hkey⟩ := zreadPrefix_append hfamily hrs4
  obtain ⟨s6,h6,hrs6⟩ := zreadIpv6Hops_append hnum hrs5
  generalize hhops : (if checkFlag api.message messageNexthop then
    (api.nexthop.getLastD zeroAddress,api.ifindex.getLastD 0) else (zeroAddress,0))=hops at h6
  rw [endBytes] at hrs6
  obtain ⟨s7,h7,hrs7⟩ := zreadDistance_append api hrs6
  obtain ⟨s8,h8,hrs8⟩ := zreadMetric_append api (hrs7.trans (append_nil _).symm)
  have hcall : zreadIpv6Add s=some
      (⟨api.type,api.flags,p',if hops.1=zeroAddress then none else some hops.1,hops.2,
        sentMetric api,sentDistance api,(api.safi.setWidth 16).setWidth 8⟩,s8) := by
    rw [zreadIpv6Add,h1]
    dsimp only
    rw [h2]
    rw [h3]
    rw [h4]
    rw [h5,map_some]
    have h6' : (if checkFlag api.message messageNexthop then
        zreadIpv6Nexthops (getc s5).1.toNat (getc s5).2 zeroAddress 0
      else (s5,zeroAddress,0))=(s6,hops) := h6
    simp only [h6']
    rw [h7]
    rw [h8]
  refine ⟨_,s8,hcall,hrs8,⟨rfl,rfl,safi_setWidth _,hfamily',hkey,?_,rfl,rfl⟩⟩
  exact hone.sameHops hhops.symm rfl

theorem roundTripIpv6_iff (cmd : BitVec 8) {api : ZapiRoute Address}
    (hnum : api.nexthop.length+api.ifindex.length≤255) (hfamily : p.family=.inet6) :
    RoundTripIpv6 cmd p api ↔ OneHop api := by
  unfold RoundTripIpv6 RoundTrip
  constructor
  · rintro ⟨s,call,s',-,hadd,-,hpass⟩
    exact hpass.hops.oneHop (zreadIpv6Add_gate hadd)
  · intro hone
    have hhops : (hopBytes6 api).length≤4000 := by
      rw [hopBytes6]
      split
      · rename_i hnh
        obtain ⟨-,hnexthops,hindexes,-⟩ := hone hnh
        rw [length_append,length_append,length_flatMap_ipv6Bytes,
          length_flatMap_ifindexBytes,length_singleton]
        omega
      · exact Nat.zero_le _
    obtain ⟨s,hread,hrs⟩ := zebraClientRead_message (cmd.setWidth 16)
      (message_body_le p api hhops)
    obtain ⟨call,s',hadd,hleft,hpass⟩ := zreadIpv6Add_body hnum hfamily hone hrs
    rw [data_zapiIpv6Route cmd p hhops]
    exact ⟨s,call,s',hread,hadd,hleft,hpass⟩

/-- A route comes through exactly when its next hops can be handed on. -/
theorem zapiRoutes_iff (cmd : BitVec 8) {p4 p6 : Prefix} {api4 : ZapiRoute (BitVec 32)}
    {api6 : ZapiRoute Address} (hfamily4 : p4.family=.inet) (hfamily6 : p6.family=.inet6)
    (hnum4 : api4.nexthop.length+api4.ifindex.length≤255)
    (hnum6 : api6.nexthop.length+api6.ifindex.length≤255) :
    (RoundTripIpv4 cmd p4 api4 ↔ BareBlackhole api4) ∧ (RoundTripIpv6 cmd p6 api6 ↔ OneHop api6) :=
  ⟨roundTripIpv4_iff cmd hnum4 hfamily4,roundTripIpv6_iff cmd hnum6 hfamily6⟩

/-- The IPv4 prefix 10.0.0.0/8. -/
def samplePrefix : Prefix := ⟨.inet,8,setByte zeroAddress 0 10,by decide⟩

/-- The IPv6 prefix 2000::/3. -/
def samplePrefix6 : Prefix := ⟨.inet6,3,setByte zeroAddress 0 0x20,by decide⟩

/-- A static route by two gates, with these flags. -/
def sampleRoute (flags : BitVec 8) : ZapiRoute (BitVec 32) where
  type := 3
  flags := flags
  message := 0x0d
  safi := 1
  nexthop := [0x0a000001,0x0a000002]
  ifindex := [7]
  distance := 1
  metric := 20

/-- A route by gates, with the last byte of each. -/
def sampleRoute6 (gates : List (BitVec 8)) : ZapiRoute Address where
  type := 3
  flags := 0
  message := 0x0d
  safi := 1
  nexthop := gates.map (setByte (setByte zeroAddress 0 0xfe) 15)
  ifindex := [7]
  distance := 1
  metric := 20

theorem oneHop_sampleRoute6 : OneHop (sampleRoute6 [1]) := by
  refine fun _ => ⟨by decide,by decide,by decide,fun hz => ?_⟩
  have heq := congrFun (mem_singleton.mp hz) 15
  revert heq
  decide

/-- Three IPv4 next hops come through, and one IPv6 hop with interface. -/
theorem zapiRoutes_iff_sampleRoute : RoundTripIpv4 7 samplePrefix (sampleRoute 0) ∧
      RoundTripIpv6 9 samplePrefix6 (sampleRoute6 [1]) := by
  have hiff : (RoundTripIpv4 7 samplePrefix (sampleRoute 0) ↔ BareBlackhole (sampleRoute 0)) ∧
      (RoundTripIpv6 7 samplePrefix6 (sampleRoute6 [1]) ↔ OneHop (sampleRoute6 [1])) :=
    zapiRoutes_iff 7 rfl rfl (by decide) (by decide)
  have hiff6 : (RoundTripIpv4 9 samplePrefix (sampleRoute 0) ↔ BareBlackhole (sampleRoute 0)) ∧
      (RoundTripIpv6 9 samplePrefix6 (sampleRoute6 [1]) ↔ OneHop (sampleRoute6 [1])) :=
    zapiRoutes_iff 9 rfl rfl (by decide) (by decide)
  exact ⟨hiff.1.mpr nofun,hiff6.2.mpr oneHop_sampleRoute6⟩

/-- A blackhole with next hops, and an IPv6 route with two of them, do not come
through. -/
theorem zapiRoute_losesHops : ¬RoundTripIpv4 7 samplePrefix (sampleRoute flagBlackhole) ∧
      ¬RoundTripIpv6 9 samplePrefix6 (sampleRoute6 [1,2]) := by
  rw [roundTripIpv4_iff 7 (by decide) rfl,roundTripIpv6_iff 9 (by decide) rfl]
  constructor
  · intro hbare
    exact absurd (hbare (by decide) (by decide)).2 (cons_ne_nil _ _)
  · intro hone
    exact absurd (hone (by decide)).2.1 (by decide)

end RoutePlatform.ZapiRoundTrip
