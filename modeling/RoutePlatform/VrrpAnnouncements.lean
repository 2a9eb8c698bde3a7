import RoutePlatform.VrrpPackets

/-!
# The addresses of a virtual router on the wire

The table `vaddr` holds numbers of the host, which is little-endian with a `long` of eight
bytes. The advertisement, the answers to ARP and to echo requests convert them; the
gratuitous ARP copies the memory of the number.
-/

namespace RoutePlatform.VrrpAnnouncements

open VrrpOperations VrrpDevice InternetChecksum VrrpPackets List

variable {f : ℕ→Byte} {a x : ℕ} (l : List ℕ)

/-- The memory of a `uint32_t`. -/
def hostBytes (x : ℕ) : List Byte :=
  [x,x/256,x/256/256,x/256/256/256].map (BitVec.ofNat 8)

/-- `htonl` and `ntohl`, which take the lowest 32 bits. -/
def htonl (x : ℕ) : ℕ :=
  ((x%256*256+x/256%256)*256+x/256/256%256)*256+x/256/256/256%256

/-- An address as it belongs on the wire. -/
def netBytes (a : ℕ) : List Byte := hostBytes (htonl a)

/-- The number that some bytes of memory hold. -/
def load : ℕ→(ℕ→Byte)→ℕ
  | 0, _ => 0
  | n+1, m => (m 0).toNat+256*load n fun i => m (i+1)

variable (v : VrrpRt) (address : IfPrefix) (prio : ℤ) (auth : List Byte) (addr : ℕ)

/-- The Ethernet address of the virtual router. -/
def vhwaddr : List Byte := [0,0,0x5E,0,1,BitVec.ofNat 8 v.vrid]

def zvrrpBuildDlt : List Byte := [1,0,0x5E,0,0,0x12]++vhwaddr v++[8,0]

/-- A header with its checksum, which is computed while the field is zero. -/
def withSum (pre post : List Byte) : List Byte :=
  pre++storeShort .little (inCksum .little (pre++0::0::post))++post

/-- `ip_len` of a packet. -/
def ipLenBytes (n : ℕ) : List Byte := [BitVec.ofNat 8 (n/256),BitVec.ofNat 8 n]

def zvrrpBuildIp : List Byte :=
  withSum ([0x45,0]++ipLenBytes (5*4+zvrrpHdLen v.vaddr.length)++[0,0,0,0,255,112])
    [BitVec.ofNat 8 address.prefix4.b0,BitVec.ofNat 8 address.prefix4.b1,
      BitVec.ofNat 8 address.prefix4.b2,BitVec.ofNat 8 address.prefix4.b3,224,0,0,18]

/-- `zvrrp_build_vrrp`; `auth` is what the memory holds. -/
def zvrrpBuildVrrp : List Byte :=
  withSum [0x21,BitVec.ofNat 8 v.vrid,BitVec.ofInt 8 prio,BitVec.ofNat 8 v.vaddr.length,0,
    BitVec.ofInt 8 v.adverInt] (v.vaddr.flatMap netBytes++auth)

/-- `zvrrp_build_pkt`. -/
def buildPkt : List Byte :=
  zvrrpBuildDlt v++zvrrpBuildIp v address++zvrrpBuildVrrp v prio auth

/-- The frame of `send_gratuitous_arp`. -/
def gratuitousArp : List Byte :=
  replicate 6 0xFF++vhwaddr v++[8,6,0,1,8,0,6,4,0,1]++vhwaddr v++hostBytes addr++replicate 6 0++
    hostBytes addr

/-- `arp_spa` and `arp_tpa` of a frame. -/
def arpSpa (frame : List Byte) : List Byte := (frame.drop 28).take 4

def arpTpa (frame : List Byte) : List Byte := (frame.drop 38).take 4

/-- The gratuitous ARPs of `zvrrp_goto_master_state`. -/
def masterArps : List (List Byte) := (zvrrpGotoMasterState v).2.filterMap fun
  | .gratuitousArp addr => some (gratuitousArp v addr)
  | _ => none

/-- The addresses behind the header of a packet. -/
def iparr : ℕ→List Byte→List (List Byte)
  | 0, _ => []
  | n+1, bytes => bytes.take 4::iparr n (bytes.drop 4)

def vrrpMachIpaddr (vipaddr : ℕ) : Bool := v.vaddr.contains vipaddr

variable (d : Device) (m : ℕ→Byte)

/-- A virtual router in use that has an address. -/
def hasIpaddr (vipaddr i : ℕ) : Bool := zvrrpVsrvLookup i && (d.vsrv i).used &&
  (d.vsrv i).vif.address.isSome && vrrpMachIpaddr (d.vsrv i) vipaddr

/-- `zvrrp_arp_request`: the virtual router that answers. A `long` is read at `arp_tpa`. -/
def zvrrpArpRequest : Option ℕ := (range vrrpVsrvSizeMax).find? fun i =>
  hasIpaddr d (htonl (load 8 fun k => m (24+k))) i && (d.vsrv i).state=.master

def zvrrpVsrvFindByPktIp : Option ℕ :=
  (range vrrpVsrvSizeMax).find? (hasIpaddr d (htonl (load 4 fun k => m (macEthLen+16+k))))

/-- `zvrrp_icmppkt_handle`: the virtual router that answers. -/
def zvrrpIcmppktHandle : Option ℕ :=
  if m (macEthLen+ihl m)=8 then
    (zvrrpVsrvFindByPktIp d m).filter fun i =>
      (d.vsrv i).state=.master && (d.vsrv i).adminState=.up
  else none

variable {v address prio auth d m} {i n : ℕ}

theorem load_add_four (f : ℕ→Byte) :
    htonl (load (n+4) f)=(((f 0).toNat*256+(f 1).toNat)*256+(f 2).toNat)*256+(f 3).toNat := by
  have hmod : ∀ (b : Byte) r, (b.toNat+256*r)%256=b.toNat := fun b r => by omega
  have hdiv : ∀ (b : Byte) r, (b.toNat+256*r)/256=r := fun b r => by omega
  simp only [load,htonl,hmod,hdiv,zero_add,Nat.reduceAdd]

theorem netBytes_eq (a : ℕ) :
    netBytes a=[a/256/256/256,a/256/256,a/256,a].map (BitVec.ofNat 8) := by
  have hmod : ∀ x d, (x*256+d%256)%256=d%256 := fun x d => by omega
  have hdiv : ∀ x d, (x*256+d%256)/256=x := fun x d => by omega
  simp only [netBytes,hostBytes,htonl,map_cons,map_nil,cons.injEq,and_true,←BitVec.toNat_inj,
    BitVec.toNat_ofNat,Nat.reducePow,hmod,hdiv,Nat.mod_mod]

theorem netBytes_eq_iff (ha : a<2^32) : netBytes a=[f 0,f 1,f 2,f 3] ↔
      a=(((f 0).toNat*256+(f 1).toNat)*256+(f 2).toNat)*256+(f 3).toNat := by
  simp only [netBytes_eq,map_cons,map_nil,cons.injEq,and_true,←BitVec.toNat_inj,
    BitVec.toNat_ofNat,Nat.reducePow] at ha ⊢
  omega

theorem load_mem_iff {l : List ℕ} (hl : ∀ a∈l, a<2^32) :
    htonl (load (n+4) f)∈l ↔ [f 0,f 1,f 2,f 3]∈l.map netBytes := by
  rw [load_add_four,mem_map]
  constructor
  · intro hmem
    exact ⟨_,hmem,(netBytes_eq_iff (hl _ hmem)).mpr rfl⟩
  · rintro ⟨a,ha,heq⟩
    rwa [←(netBytes_eq_iff (hl a ha)).mp heq]

theorem iparr_flatMap (rest : List Byte) :
    iparr l.length (l.flatMap netBytes++rest)=l.map netBytes := by
  induction l with
  | nil => rfl
  | cons a l ih => exact congrArg (netBytes a::·) ih

theorem length_withSum (pre post : List Byte) :
    (withSum pre post).length=pre.length+2+post.length := by
  simp [withSum,storeShort]
  omega

theorem length_flatMap_netBytes : (l.flatMap netBytes).length=4*l.length := by
  simp [length_flatMap,netBytes,hostBytes,mul_comm]

theorem length_zvrrpBuildVrrp (hauth : auth.length=8) :
    (zvrrpBuildVrrp v prio auth).length=zvrrpHdLen v.vaddr.length := by
  rw [zvrrpBuildVrrp,length_withSum,length_append,length_flatMap_netBytes,hauth,zvrrpHdLen]
  simp only [length_cons,length_nil]
  omega

theorem map_ethbuf (pre bytes : List Byte) (stale : ℕ→Byte) :
    (range bytes.length).map (fun i => ethbuf (pre++bytes) stale (pre.length+i))=bytes := by
  refine ext_getElem (by simp) fun i _ hi => ?_
  simp [ethbuf,hi]

theorem seen_buildPkt (hauth : auth.length=8) (hnaddr : v.vaddr.length≤8) (stale : ℕ→Byte) :
    seen (ethbuf (buildPkt v address prio auth) stale)=
      ⟨zvrrpBuildPkt v address prio,ipprotoVrrp,inaddrVrrpGroup,zvrrpBuildVrrp v prio auth⟩ := by
  generalize hbuf : ethbuf (buildPkt v address prio auth) stale=buf
  have hihl : ihl buf=20 := by
    have hfst : buf macEthLen=0x45 := hbuf ▸ rfl
    rw [ihl,hfst]
    rfl
  have hip : ∀ i b, ethbuf (buildPkt v address prio auth) stale (macEthLen+i)=b →
      ipAt buf i=b.toNat := fun i b h => by rw [ipAt,←hbuf,h]
  have hhd : ∀ i b, ethbuf (buildPkt v address prio auth) stale (macEthLen+20+i)=b →
      hdAt buf i=b.toNat := fun i b h => by rw [hdAt,hihl,←hbuf,h]
  have hcnt : hdAt buf 3=v.vaddr.length :=
    (hhd 3 _ rfl).trans (Nat.mod_eq_of_lt (lt_of_le_of_lt hnaddr (by decide)))
  have hpayload : (range (zvrrpHdLen v.vaddr.length)).map (fun i => buf (macEthLen+20+i))=
      zvrrpBuildVrrp v prio auth := by
    rw [←length_zvrrpBuildVrrp hauth,←hbuf]
    exact map_ethbuf (zvrrpBuildDlt v++zvrrpBuildIp v address) _ stale
  have hsrc : InAddr.ofBytes (ipAt buf 12) (ipAt buf 13) (ipAt buf 14) (ipAt buf 15)=
      address.prefix4 := by
    rw [hip 12 (BitVec.ofNat 8 address.prefix4.b0) rfl,
      hip 13 (BitVec.ofNat 8 address.prefix4.b1) rfl,
      hip 14 (BitVec.ofNat 8 address.prefix4.b2) rfl,
      hip 15 (BitVec.ofNat 8 address.prefix4.b3) rfl]
    simp [InAddr.ofBytes]
  have hlen : 256*ipAt buf 2+ipAt buf 3=5*4+zvrrpHdLen v.vaddr.length := by
    rw [hip 2 (BitVec.ofNat 8 ((5*4+zvrrpHdLen v.vaddr.length)/256)) rfl,
      hip 3 (BitVec.ofNat 8 (5*4+zvrrpHdLen v.vaddr.length)) rfl,BitVec.toNat_ofNat,
      BitVec.toNat_ofNat,zvrrpHdLen]
    omega
  rw [seen,hihl,hcnt,hpayload,hsrc,hlen,hip 8 255 rfl,hip 9 112 rfl,hip 16 224 rfl,hip 17 0 rfl,
    hip 18 0 rfl,hip 19 18 rfl,hhd 0 0x21 rfl,hhd 1 (BitVec.ofNat 8 v.vrid) rfl,
    hhd 2 (BitVec.ofInt 8 prio) rfl,hhd 4 0 rfl,hhd 5 (BitVec.ofInt 8 v.adverInt) rfl,
    BitVec.toNat_ofInt,BitVec.toNat_ofInt,BitVec.toNat_ofNat]
  rfl

/-- The virtual router is a running master. -/
structure Master (d : Device) (i : ℕ) (address : IfPrefix) : Prop where
  lookup : zvrrpVsrvLookup i=true
  used : (d.vsrv i).used=true
  vrid : (d.vsrv i).vrid=i
  address : (d.vsrv i).vif.address=some address
  ifp : (d.vsrv i).vif.ifp.isSome=true
  state : (d.vsrv i).state=.master
  up : (d.vsrv i).adminState=.up
  naddr : (d.vsrv i).vaddr.length≤8
  vaddr : ∀ a∈(d.vsrv i).vaddr, a<2^32
  interval : 1≤(d.vsrv i).adverInt ∧ (d.vsrv i).adverInt≤255

/-- No virtual router with a smaller number, in use and with an address, has one of its
addresses. -/
abbrev First (d : Device) (i : ℕ) : Prop := ∀ j < i, ∀ a∈(d.vsrv i).vaddr, hasIpaddr d a j=false

/-- A peer accepts the advertisement with the list in network order. -/
structure OneSet (d : Device) (i : ℕ) (address : IfPrefix) (peer : VrrpRt) (prio : ℤ)
    (auth : List Byte) (s : Seen) : Prop where
  accepted : zvrrpIphdrChk s=true ∧ zvrrpInChk .little s=true ∧ zvrrpInChk2 peer s.pkt=true
  priority : (s.pkt.priority : ℤ)=prio
  packet : iparr s.pkt.naddr (s.payload.drop 8)=(d.vsrv i).vaddr.map netBytes
  spa : (masterArps (d.vsrv i)).map arpSpa=(d.vsrv i).vaddr.map netBytes
  tpa : (masterArps (d.vsrv i)).map arpTpa=(d.vsrv i).vaddr.map netBytes
  arp : ∀ m, zvrrpArpRequest d m=some i ↔ [m 24,m 25,m 26,m 27]∈(d.vsrv i).vaddr.map netBytes
  echo : ∀ m, m (macEthLen+ihl m)=8 → (zvrrpIcmppktHandle d m=some i ↔
    [m 30,m 31,m 32,m 33]∈(d.vsrv i).vaddr.map netBytes)

theorem Master.hasIpaddr_iff (h : Master d i address) :
    hasIpaddr d x i=true ↔ x∈(d.vsrv i).vaddr := by
  simp [hasIpaddr,h.lookup,h.used,h.address,vrrpMachIpaddr]

theorem toU8_eq {x : ℤ} (hx : 0≤x ∧ x≤255) : (toU8 x : ℤ)=x := by
  rw [toU8]
  omega

theorem Master.find_eq (h : Master d i address) (hfst : First d i) {p : ℕ→Bool}
    (hp : ∀ k, p k=true → hasIpaddr d x k=true) (hi : hasIpaddr d x i=true → p i=true) :
    (range vrrpVsrvSizeMax).find? p=some i ↔ x∈(d.vsrv i).vaddr := by
  rw [find?_range_eq_some,←h.hasIpaddr_iff]
  refine ⟨fun hfnd => hp i hfnd.1,fun hmem => ⟨hi hmem,?_,fun j hj => ?_⟩⟩
  · have hlk := h.lookup
    rw [zvrrpVsrvLookup,Bool.and_eq_true,decide_eq_true_iff,decide_eq_true_iff] at hlk
    exact mem_range.mpr hlk.2
  · rw [Bool.not_eq_true',←Bool.not_eq_true]
    intro hpj
    have hmem' := hp j hpj
    rw [hfst j hj x (h.hasIpaddr_iff.mp hmem)] at hmem'
    cases hmem'

theorem Master.masterArps_eq (h : Master d i address) :
    masterArps (d.vsrv i)=(d.vsrv i).vaddr.map (gratuitousArp (d.vsrv i)) := by
  obtain ⟨ifp,hifp⟩ := Option.isSome_iff_exists.mp h.ifp
  have hsend : sendGratuitousArp (d.vsrv i)=fun a => [.gratuitousArp a] := by
    funext a
    rw [sendGratuitousArp,h.address,hifp]
  rw [masterArps,zvrrpGotoMasterState,hsend,zvrrpSendAdv,h.address,hifp]
  simp [←map_eq_flatMap]

/-- The start of an echo request to an address. -/
def echoRequest (a k : ℕ) : Byte :=
  (replicate 14 0++0x45::replicate 15 0++netBytes a++[8]).getD k 0

/-- Only the first virtual router with an address answers all echo requests to it. -/
theorem Master.first_of_echo (h : Master d i address)
    (hecho : ∀ m, m (macEthLen+ihl m)=8 → (zvrrpIcmppktHandle d m=some i ↔
      [m 30,m 31,m 32,m 33]∈(d.vsrv i).vaddr.map netBytes)) : First d i := by
  intro j hj a ha
  have hfst : echoRequest a macEthLen=0x45 := rfl
  have hty : echoRequest a (macEthLen+ihl (echoRequest a))=8 := by
    rw [ihl,hfst]
    rfl
  have hanswer := (hecho (echoRequest a) hty).mpr (mem_map.mpr ⟨a,ha,rfl⟩)
  rw [zvrrpIcmppktHandle,if_pos hty,Option.filter_eq_some_iff,zvrrpVsrvFindByPktIp,
    find?_range_eq_some] at hanswer
  have haddr : htonl (load 4 fun k => echoRequest a (30+k))=a := by
    rw [load_add_four]
    exact ((netBytes_eq_iff (f := fun k => echoRequest a (30+k)) (h.vaddr a ha)).mp rfl).symm
  have hbef : (!hasIpaddr d (htonl (load 4 fun k => echoRequest a (30+k))) j)=true :=
    hanswer.1.2.2 j hj
  rwa [haddr,Bool.not_eq_true'] at hbef

/-- A master announces its addresses and interval exactly when the peer is no owner, they read the
same in both byte orders, and no virtual router before it has one of them. -/
theorem zvrrpAnnouncements_iff (h : Master d i address) {peer : VrrpRt}
    (hpeer : peer.vrid=(d.vsrv i).vrid ∧ peer.adverInt=(d.vsrv i).adverInt) {prio : ℤ}
    (hprio : 0≤prio ∧ prio≤255) {auth : List Byte} (hauth : auth.length=8) (stale : ℕ→Byte) :
    OneSet d i address peer prio auth
        (seen (ethbuf (buildPkt (d.vsrv i) address prio auth) stale)) ↔
      peer.priority≠vrrpPrioOwner ∧ (∀ a∈(d.vsrv i).vaddr, hostBytes a=netBytes a) ∧
        First d i := by
  rw [seen_buildPkt hauth h.naddr]
  have hspa : (masterArps (d.vsrv i)).map arpSpa=(d.vsrv i).vaddr.map hostBytes := by
    rw [h.masterArps_eq,map_map]
    rfl
  have htpa : (masterArps (d.vsrv i)).map arpTpa=(d.vsrv i).vaddr.map hostBytes := by
    rw [h.masterArps_eq,map_map]
    rfl
  have hlookup := h.lookup
  rw [zvrrpVsrvLookup,Bool.and_eq_true,decide_eq_true_iff,decide_eq_true_iff,vrrpVsrvSizeMax]
    at hlookup
  have hvrid : toU8 (d.vsrv i).vrid=i := by
    rw [h.vrid,toU8]
    omega
  constructor
  · intro hset
    have hchk := zvrrpInChk2_iff.mp hset.accepted.2.2
    exact ⟨hchk.2.2.2.2.1.2.symm,map_inj_left.mp (hspa.symm.trans hset.spa),
      h.first_of_echo hset.echo⟩
  rintro ⟨howner,hsame,hfirst⟩
  have hwire := map_congr_left hsame
  have hsum : inCksum .little (zvrrpBuildVrrp (d.vsrv i) prio auth)=0 := by
    refine inCksum_stored .little _ _ ?_ ⟨3,rfl⟩
    have hnaddr := h.naddr
    simp only [length_append,length_cons,length_nil,length_flatMap_netBytes,hauth]
    omega
  refine ⟨⟨rfl,?_,?_⟩,?_,?_,hspa.trans hwire,htpa.trans hwire,fun m => ?_,fun m hm => ?_⟩
  · have hpos : i≠0 := hlookup.1.ne'
    simp [zvrrpInChk,hsum,zvrrpBuildPkt,hvrid,hpos]
  · have hint := toU8_eq (h.interval.imp_left (Int.zero_le_ofNat 1).trans)
    rw [zvrrpInChk2_iff]
    dsimp only [zvrrpBuildPkt]
    refine ⟨rfl,by omega,rfl,rfl,⟨?_,howner.symm⟩,hpeer.2.trans hint.symm⟩
    exact hpeer.1.trans (h.vrid.trans hvrid.symm)
  · exact toU8_eq hprio
  · exact iparr_flatMap _ auth
  · rw [zvrrpArpRequest,h.find_eq hfirst (fun k hk => (Bool.and_eq_true _ _ ▸ hk).1) fun hi => by
      rw [hi,h.state]
      rfl]
    exact load_mem_iff h.vaddr
  · have hfind := h.find_eq hfirst (x := htonl (load 4 fun k => m (macEthLen+16+k))) (fun _ => id) id
    rw [zvrrpIcmppktHandle,if_pos hm,Option.filter_eq_some_iff,zvrrpVsrvFindByPktIp,hfind,h.state,
      h.up,and_iff_left (by rfl)]
    exact load_mem_iff h.vaddr

/-- 10.0.0.1/24. -/
def sampleAddress : IfPrefix := ⟨InAddr.ofBytes 10 0 0 1,24⟩

/-- A master of one virtual address. -/
def sampleRouter (a : ℕ) : VrrpRt := {zvrrpVsrvInit with
  used := true
  vrid := 1
  vaddr := [a]
  state := .master
  vif := {VrrpIf.zero with address := some sampleAddress,ifp := some ⟨1,[],0⟩}
  adminState := .up}

def sampleDevice (a : ℕ) : Device :=
  {zvrrpMasterInit with vsrv := Function.update zvrrpMasterInit.vsrv 1 (sampleRouter a)}

theorem master_sample (ha : a<2^32) : Master (sampleDevice a) 1 sampleAddress where
  lookup := rfl
  used := rfl
  vrid := rfl
  address := rfl
  ifp := rfl
  state := rfl
  up := rfl
  naddr := (by decide : 1≤8)
  vaddr := fun _ hmem => mem_singleton.mp hmem ▸ ha
  interval := ⟨le_rfl,(by decide : (1 : ℤ)≤255)⟩

/-- 10.0.0.10 reads the same in both byte orders. -/
theorem zvrrpAnnouncements_palindrome : OneSet (sampleDevice 0x0A00000A) 1 sampleAddress
    (sampleRouter 0x0A00000A) 100 (replicate 8 0)
    (seen (ethbuf (buildPkt (sampleRouter 0x0A00000A) sampleAddress 100 (replicate 8 0))
      fun _ => 0)) :=
  (zvrrpAnnouncements_iff (master_sample (by decide)) ⟨rfl,rfl⟩ (by decide) rfl _).mpr
    ⟨by decide,by decide,by decide⟩

/-- The gratuitous ARP for 10.0.0.100 is about 100.0.0.10. -/
theorem zvrrpAnnouncements_reversed :
    (masterArps (sampleRouter 0x0A000064)).map arpSpa=[[100,0,0,10]] ∧
      ¬OneSet (sampleDevice 0x0A000064) 1 sampleAddress (sampleRouter 0x0A000064) 100
        (replicate 8 0) (seen (ethbuf (buildPkt (sampleRouter 0x0A000064) sampleAddress 100
          (replicate 8 0)) fun _ => 0)) := by
  refine ⟨by decide,fun h => ?_⟩
  have hspa := h.spa
  revert hspa
  decide

end RoutePlatform.VrrpAnnouncements
