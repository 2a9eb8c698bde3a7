import RoutePlatform.VrrpDevice
import RoutePlatform.InternetChecksum

/-!
# Received VRRP packets as bytes

A frame is read into a buffer on the stack. The checks read the buffer where the header
says, whatever the length of the frame, so they may see bytes that were there before.
-/

namespace RoutePlatform.VrrpPackets

open VrrpOperations VrrpDevice InternetChecksum List

/-- `ethbuf` after a frame was read into it: behind the frame it keeps its bytes. -/
def ethbuf (frame : List Byte) (stale : ℕ→Byte) (i : ℕ) : Byte := frame.getD i (stale i)

def macEthLen : ℕ := 14

variable (buf : ℕ→Byte)

/-- `iph->ip_hl<<2`. -/
def ihl : ℕ := 4*((buf macEthLen).toNat%16)

/-- The bytes at an offset of the IP header and of `vrrp_pkt`. -/
def ipAt (i : ℕ) : ℕ := (buf (macEthLen+i)).toNat

def hdAt (i : ℕ) : ℕ := (buf (macEthLen+ihl buf+i)).toNat

def zvrrpHdLen (naddr : ℕ) : ℕ := 8+naddr*4+8

/-- What the checks read of a buffer. -/
structure Seen where
  pkt : VrrpPkt
  ipP : ℕ
  ipDst : InAddr
  /-- The bytes under the checksum. -/
  payload : List Byte
  deriving DecidableEq

def seen : Seen where
  pkt := {
    ipSrc := InAddr.ofBytes (ipAt buf 12) (ipAt buf 13) (ipAt buf 14) (ipAt buf 15)
    ipTtl := ipAt buf 8
    ipLen := 256*ipAt buf 2+ipAt buf 3
    versType := hdAt buf 0
    vrid := hdAt buf 1
    priority := hdAt buf 2
    naddr := hdAt buf 3
    authType := hdAt buf 4
    adverInt := hdAt buf 5 }
  ipP := ipAt buf 9
  ipDst := InAddr.ofBytes (ipAt buf 16) (ipAt buf 17) (ipAt buf 18) (ipAt buf 19)
  payload := (range (zvrrpHdLen (hdAt buf 3))).map fun i => buf (macEthLen+ihl buf+i)

def ipprotoVrrp : ℕ := 112

def inaddrVrrpGroup : InAddr := InAddr.ofBytes 224 0 0 18

/-- `zvrrp_iphdr_chk` finds nothing wrong. -/
def zvrrpIphdrChk (s : Seen) : Bool :=
  s.pkt.ipTtl == 255 && s.ipP == ipprotoVrrp && s.ipDst == inaddrVrrpGroup

/-- `zvrrp_in_chk` finds nothing wrong. -/
def zvrrpInChk (order : ByteOrder) (s : Seen) : Bool :=
  s.pkt.versType/16 == 2 && inCksum order s.payload == 0 && s.pkt.vrid != 0

variable (order : ByteOrder) (d : Device)

/-- `zvrrp_pkt_handle`: the device after the state machine got the packet. -/
def zvrrpPktHandle (s : Seen) (len : ℤ) : Option Device :=
  if len≤0 ∨ zvrrpIphdrChk s=false then none
  else if zvrrpInChk order s=false then none
  else if zvrrpVsrvFindByPktId d s.pkt=false ∨ (d.vsrv s.pkt.vrid).adminState≠.up then none
  else if zvrrpInChk2 (d.vsrv s.pkt.vrid) s.pkt=false then none
  else some (d.put s.pkt.vrid (zvrrpHandleOnState (d.vsrv s.pkt.vrid) s.pkt))

/-- `zvrrp_ippkt_handle`, as far as VRRP is concerned. -/
def zvrrpIppktHandle (ethlen : ℕ) : Option Device :=
  if zvrrpLocalMyselfDetection d (seen buf).pkt.ipSrc then none
  else if (seen buf).ipP=ipprotoVrrp then zvrrpPktHandle order d (seen buf) (ethlen-macEthLen)
  else none

/-- A complete advertisement: all of it inside frame and IP packet. -/
structure Complete (len : ℕ) : Prop where
  header : 20 ≤ ihl buf
  frame : macEthLen+ihl buf+zvrrpHdLen (hdAt buf 3)≤len
  packet : ihl buf+zvrrpHdLen (hdAt buf 3)≤(seen buf).pkt.ipLen

/-- What the values that were read have to be, lengths and subnet apart: the headers, the checksum,
the virtual router, and the source that no virtual router has. -/
def validTests : List (Seen→Prop) :=
  [fun s => s.pkt.ipTtl=255,fun s => s.ipP=ipprotoVrrp,fun s => s.ipDst=inaddrVrrpGroup,
    fun s => s.pkt.versType=2*16+1,fun s => inCksum order s.payload=0,fun s => s.pkt.authType=0,
    fun s => zvrrpVsrvLookup s.pkt.vrid=true ∧ (d.vsrv s.pkt.vrid).used=true ∧
      (d.vsrv s.pkt.vrid).vrid=s.pkt.vrid,
    fun s => (d.vsrv s.pkt.vrid).adminState=.up,
    fun s => vrrpPrioOwner≠(d.vsrv s.pkt.vrid).priority,
    fun s => (d.vsrv s.pkt.vrid).adverInt=s.pkt.adverInt,
    fun s => ∀ i, zvrrpVsrvLookup i=true → (d.vsrv i).used=true →
      ∀ address, (d.vsrv i).vif.address=some address → address.prefix4≠s.pkt.ipSrc]

def Valid (s : Seen) : Prop := ∀ test∈validTests order d, test s

/-- The source of a packet is in the subnet of the interface. -/
def InSubnet (s : Seen) : Prop := ∃ address, (d.vsrv s.pkt.vrid).vif.address=some address ∧
  s.pkt.ipSrc.ntohl/2^(32-address.prefixlen)=address.prefix4.ntohl/2^(32-address.prefixlen)

/-- The prefix of the interface has four bits, and they are those of the source. -/
def FourBits (s : Seen) : Prop := ∃ address, (d.vsrv s.pkt.vrid).vif.address=some address ∧
  4≤address.prefixlen ∧ s.pkt.ipSrc.b0.val/16=address.prefix4.b0.val/16

variable {buf order d} {buf' : ℕ→Byte} {len : ℕ}

theorem zvrrpLocalMyselfDetection_eq_false {src : InAddr} :
    zvrrpLocalMyselfDetection d src=false ↔ ∀ i, zvrrpVsrvLookup i=true → (d.vsrv i).used=true →
      ∀ address, (d.vsrv i).vif.address=some address → address.prefix4≠src := by
  rw [zvrrpLocalMyselfDetection,any_eq_false]
  constructor
  · intro h i hlk hused address haddr heq
    have hlt : i<vrrpVsrvSizeMax := by
      rw [zvrrpVsrvLookup,Bool.and_eq_true,decide_eq_true_iff,decide_eq_true_iff] at hlk
      exact hlk.2
    refine h i (mem_range.mpr hlt) ?_
    rw [hlk,hused,haddr,←heq]
    exact beq_self_eq_true _
  · intro h i _ hmem
    rw [Bool.and_eq_true,Bool.and_eq_true] at hmem
    obtain ⟨⟨hlk,hused⟩,hsame⟩ := hmem
    cases haddr : (d.vsrv i).vif.address with
    | none =>
      rw [haddr] at hsame
      cases hsame
    | some address =>
      rw [haddr] at hsame
      exact h i hlk hused address haddr (InAddr.ntohl_injective (beq_iff_eq.mp hsame)).symm

theorem zvrrpVsrvFindByPktId_iff {p : VrrpPkt} :
    zvrrpVsrvFindByPktId d p=true ↔ (zvrrpVsrvLookup p.vrid=true ∧ (d.vsrv p.vrid).used=true) ∧
      ∃ address, (d.vsrv p.vrid).vif.address=some address ∧
        4≤address.prefixlen ∧ p.ipSrc.b0.val/16=address.prefix4.b0.val/16 := by
  rw [zvrrpVsrvFindByPktId,Bool.and_eq_true,Bool.and_eq_true]
  refine and_congr_right fun _ => ?_
  cases (d.vsrv p.vrid).vif.address <;> simp [prefixMatch]

theorem zvrrpInChk2_iff {v : VrrpRt} {p : VrrpPkt} :
    zvrrpInChk2 v p=true ↔ p.ipTtl=255 ∧ 8<p.ipLen ∧ p.versType%16=1 ∧ p.authType=0 ∧
      (v.vrid=p.vrid ∧ vrrpPrioOwner≠v.priority) ∧ v.adverInt=p.adverInt := by
  unfold zvrrpInChk2
  grind

/-- Exactly when a packet is handed to the state machine. -/
theorem isSome_zvrrpIppktHandle : (zvrrpIppktHandle buf order d len).isSome=true ↔
    Valid order d (seen buf) ∧ macEthLen<len ∧ 8<(seen buf).pkt.ipLen ∧ FourBits d (seen buf) := by
  unfold zvrrpIppktHandle
  generalize seen buf=s
  have hown := @zvrrpLocalMyselfDetection_eq_false d s.pkt.ipSrc
  have hfind := zvrrpVsrvFindByPktId_iff (d := d) (p := s.pkt)
  have hchk := zvrrpInChk2_iff (v := d.vsrv s.pkt.vrid) (p := s.pkt)
  have hvn : s.pkt.versType/16=2 ∧ s.pkt.versType%16=1 ↔ s.pkt.versType=2*16+1 := by omega
  simp only [Valid,validTests,forall_mem_cons,not_mem_nil,false_imp_iff,implies_true,and_true]
  constructor
  · intro h
    split at h
    · cases h
    rename_i hforeign
    split at h
    · rename_i hp
      unfold zvrrpPktHandle at h
      iterate 4
        split at h
        · cases h
      rename_i hhdr hin hvsrv hin2
      rw [not_or,Bool.not_eq_false,zvrrpIphdrChk,Bool.and_eq_true,Bool.and_eq_true,
        beq_iff_eq,beq_iff_eq,beq_iff_eq] at hhdr
      rw [Bool.not_eq_false,zvrrpInChk,Bool.and_eq_true,Bool.and_eq_true,beq_iff_eq,beq_iff_eq]
        at hin
      rw [not_or,Bool.not_eq_false,not_not,hfind] at hvsrv
      rw [Bool.not_eq_false,hchk] at hin2
      obtain ⟨hlen,⟨-,-⟩,hdst⟩ := hhdr
      obtain ⟨⟨hvers,hsum⟩,-⟩ := hin
      obtain ⟨⟨⟨hlk,hused⟩,hbits⟩,hup⟩ := hvsrv
      obtain ⟨httl,hiplen,hty,hauth,⟨hvrid,howner⟩,hint⟩ := hin2
      exact ⟨⟨httl,hp,hdst,hvn.mp ⟨hvers,hty⟩,hsum,hauth,⟨hlk,hused,hvrid⟩,hup,howner,
        hint,hown.mp (Bool.not_eq_true _ ▸ hforeign)⟩,by omega,hiplen,hbits⟩
    · cases h
  · rintro ⟨⟨httl,hp,hdst,hversion,hsum,hauth,⟨hlk,hused,hvrid⟩,hup,howner,hint,hforeign⟩,hlen,
      hiplen,hbits⟩
    obtain ⟨hvers,hty⟩ := hvn.mpr hversion
    have hne : s.pkt.vrid≠0 := fun h0 => by
      rw [h0] at hlk
      cases hlk
    have hhdr : zvrrpIphdrChk s=true := by simp [zvrrpIphdrChk,httl,hp,hdst]
    have hin : zvrrpInChk order s=true := by simp [zvrrpInChk,hvers,hsum,hne]
    have hvsrv := hfind.mpr ⟨⟨hlk,hused⟩,hbits⟩
    have hin2 := hchk.mpr ⟨httl,hiplen,hty,hauth,⟨hvrid,howner⟩,hint⟩
    have hpos : ¬((len : ℤ)-macEthLen≤0) := by omega
    rw [hown.mpr hforeign,if_neg Bool.false_ne_true,if_pos hp,zvrrpPktHandle,hhdr,hin,
      hvsrv,hin2,hup]
    simp [hpos]

/-- A complete advertisement is read from the frame alone. -/
theorem Complete.seen_eq (h : Complete buf len) (hsame : ∀ i<len, buf' i=buf i) :
    seen buf'=seen buf ∧ Complete buf' len := by
  obtain ⟨hhdr,hframe,hpacket⟩ := h
  unfold zvrrpHdLen at hframe
  have hihl : ihl buf'=ihl buf := by
    rw [ihl,ihl,hsame _ (by unfold macEthLen at *; omega)]
  have hip : ∀ i<20, ipAt buf' i=ipAt buf i := fun i hi => by
    rw [ipAt,ipAt,hsame _ (by omega)]
  have hhd : ∀ i<8, hdAt buf' i=hdAt buf i := fun i hi => by
    rw [hdAt,hdAt,hihl,hsame _ (by omega)]
  have hseen : seen buf'=seen buf := by
    unfold seen
    rw [hihl,hhd 0 (by decide),hhd 1 (by decide),hhd 2 (by decide),hhd 3 (by decide),
      hhd 4 (by decide),hhd 5 (by decide)]
    simp (disch := decide) only [hip]
    congr 1
    refine map_congr_left fun i hi => hsame _ ?_
    have hle := mem_range.mp hi
    unfold zvrrpHdLen at hle
    omega
  exact ⟨hseen,hihl ▸ hhdr,by rw [hihl,hhd 3 (by decide)]; exact hframe,
    by rw [hihl,hhd 3 (by decide),hseen]; exact hpacket⟩

theorem Complete.lengths (h : Complete buf len) : macEthLen<len ∧ 8<(seen buf).pkt.ipLen := by
  have hhdr := h.header
  have hframe := h.frame
  have hpacket := h.packet
  unfold zvrrpHdLen at hframe hpacket
  omega

/-- What stands in the buffer behind a complete frame does not matter. -/
theorem Complete.behind {frame : List Byte} {stale : ℕ→Byte}
    (h : Complete (ethbuf frame stale) frame.length) (stale' : ℕ→Byte) :
    seen (ethbuf frame stale')=seen (ethbuf frame stale) ∧
      Complete (ethbuf frame stale') frame.length :=
  h.seen_eq fun i hi => by rw [ethbuf,ethbuf,getD_eq_getElem _ _ hi,getD_eq_getElem _ _ hi]

/-- Four bits tell of a source whether it is in the subnet: it is in none of fewer bits, and in
one of more bits if it agrees with it in four. -/
def FourBitsTell (d : Device) (s : Seen) : Prop :=
  ∀ address, (d.vsrv s.pkt.vrid).vif.address=some address →
    (address.prefixlen<4 → ¬InSubnet d s) ∧
      (4<address.prefixlen → s.pkt.ipSrc.b0.val/16=address.prefix4.b0.val/16 → InSubnet d s)

theorem fourBits_of_subnet {a b : InAddr} {n : ℕ} (hn : 4≤n)
    (h : a.ntohl/2^(32-n)=b.ntohl/2^(32-n)) : a.b0.val/16=b.b0.val/16 := by
  have hcut : ∀ x, x/2^28=x/2^(32-n)/2^(28-(32-n)) := fun x => by
    rw [Nat.div_div_eq_div_mul,←Nat.pow_add,Nat.add_sub_cancel' (by omega)]
  have hfour : a.ntohl/2^28=b.ntohl/2^28 := by rw [hcut,h,←hcut]
  unfold InAddr.ntohl at hfour
  omega

theorem fourBitsTell_iff {s : Seen} : FourBitsTell d s ↔ (FourBits d s ↔ InSubnet d s) := by
  refine ⟨fun h => ⟨?_,?_⟩,fun h address haddr => ⟨fun hlt hs => ?_,fun hlt hbits => ?_⟩⟩
  · rintro ⟨address,haddr,hle,hbits⟩
    rcases hle.eq_or_lt with heq|hlt
    · refine ⟨address,haddr,?_⟩
      rw [←heq]
      unfold InAddr.ntohl
      omega
    · exact (h address haddr).2 hlt hbits
  · rintro ⟨address,haddr,hsame⟩
    have hle : 4≤address.prefixlen :=
      not_lt.mp fun hlt => (h address haddr).1 hlt ⟨address,haddr,hsame⟩
    exact ⟨address,haddr,hle,fourBits_of_subnet hle hsame⟩
  · obtain ⟨a,ha,hle,-⟩ := h.mpr hs
    obtain rfl := Option.some.inj (haddr.symm.trans ha)
    omega
  · exact h.mp ⟨address,haddr,hlt.le,hbits⟩

variable (buf order d len) in
/-- What should be handed on: a complete and valid advertisement from the subnet. -/
def Acceptable : Prop := Valid order d (seen buf) ∧ Complete buf len ∧ InSubnet d (seen buf)

/-- All tests that the checks do on what they read. -/
def tests (order : ByteOrder) (d : Device) : List (Seen→Prop) :=
  validTests order d++[fun s => 8<s.pkt.ipLen,FourBits d]

theorem forall_tests {s : Seen} : (∀ test∈tests order d, test s) ↔
    Valid order d s ∧ 8<s.pkt.ipLen ∧ FourBits d s := by
  simp [tests,Valid,or_imp,forall_and]

/-- A frame that the checks get right. -/
structure WellChecked (order : ByteOrder) (d : Device) (frame : List Byte) : Prop where
  /-- Four bits tell whether the source of a complete and valid frame is in the subnet. -/
  subnet : Complete (ethbuf frame fun _ => 0) frame.length →
    Valid order d (seen (ethbuf frame fun _ => 0)) →
      FourBitsTell d (seen (ethbuf frame fun _ => 0))
  /-- In an incomplete frame of more than an Ethernet header, some test fails on what the frame
  has. -/
  rest : ¬Complete (ethbuf frame fun _ => 0) frame.length → macEthLen<frame.length →
    ∃ test∈tests order d, ∀ stale, ¬test (seen (ethbuf frame stale))

/-- A frame is handed on exactly when it is a complete valid advertisement of the subnet, whatever
stands behind it. -/
def HandedRight (order : ByteOrder) (d : Device) (frame : List Byte) : Prop :=
  (∀ stale, (zvrrpIppktHandle (ethbuf frame stale) order d frame.length).isSome=true ↔
      Acceptable (ethbuf frame stale) order d frame.length) ∧
    ∀ stale stale', (zvrrpIppktHandle (ethbuf frame stale) order d frame.length).isSome=
      (zvrrpIppktHandle (ethbuf frame stale') order d frame.length).isSome

theorem WellChecked.handedRight {frame : List Byte} (h : WellChecked order d frame) :
    HandedRight order d frame := by
  have hall : ∀ stale, (zvrrpIppktHandle (ethbuf frame stale) order d frame.length).isSome=true ↔
      Acceptable (ethbuf frame stale) order d frame.length := by
    intro stale
    rw [isSome_zvrrpIppktHandle]
    by_cases hc : Complete (ethbuf frame fun _ => 0) frame.length
    · obtain ⟨hseen,hc'⟩ := hc.behind stale
      obtain ⟨hlen,hip⟩ := hc'.lengths
      rw [Acceptable,hseen] at *
      refine and_congr_right fun hvalid => ?_
      rw [and_iff_right hlen,and_iff_right hip,and_iff_right hc',
          fourBitsTell_iff.mp (h.subnet hc hvalid)]
    · refine ⟨fun ⟨hvalid,hlen,hsome⟩ => ?_,fun ha => absurd (ha.2.1.behind _).2 hc⟩
      obtain ⟨test,hmem,hfails⟩ := h.rest hc hlen
      exact absurd (forall_tests.mpr ⟨hvalid,hsome⟩ test hmem) (hfails stale)
  refine ⟨hall,fun stale stale' => ?_⟩
  have hkeep : ∀ stale stale', Acceptable (ethbuf frame stale) order d frame.length →
      Acceptable (ethbuf frame stale') order d frame.length := by
    rintro stale stale' ⟨hvalid,hcomplete,hsubnet⟩
    obtain ⟨hseen,hcomplete'⟩ := hcomplete.behind stale'
    rw [Acceptable,hseen]
    exact ⟨hvalid,hcomplete',hsubnet⟩
  refine Bool.eq_iff_iff.mpr ?_
  rw [hall,hall]
  exact ⟨hkeep _ _,hkeep _ _⟩

/-- Well checked frames are handed on rightly, and no others that have all bytes that are read. -/
theorem zvrrpIppktHandle_right (order : ByteOrder) (d : Device) (frame : List Byte) :
    (WellChecked order d frame → HandedRight order d frame) ∧
      ((∀ stale, seen (ethbuf frame stale)=seen (ethbuf frame fun _ => 0)) →
        HandedRight order d frame → WellChecked order d frame) := by
  refine ⟨WellChecked.handedRight,fun hwhole ⟨hexact,_⟩ => ?_⟩
  simp only [isSome_zvrrpIppktHandle] at hexact
  refine ⟨fun hc hvalid => ?_,fun hc hlen => ?_⟩
  · obtain ⟨hlen,hip⟩ := hc.lengths
    refine fourBitsTell_iff.mpr ⟨fun hbits => ?_,fun hsub => ?_⟩
    · exact ((hexact _).mp ⟨hvalid,hlen,hip,hbits⟩).2.2
    · exact ((hexact _).mpr ⟨hvalid,hc,hsub⟩).2.2.2
  · by_contra hnone
    refine hc ((hexact fun _ => 0).mp ?_).2.1
    obtain ⟨hvalid,hsome⟩ := forall_tests.mp fun test hmem => by
      by_contra hfails
      exact hnone ⟨test,hmem,fun stale => hwhole stale ▸ hfails⟩
    exact ⟨hvalid,hlen,hsome⟩

/-- One virtual router, at 10.0.0.1 with a prefix length. -/
def sampleDevice (prefixlen : ℕ) : Device :=
  let v := {zvrrpVsrvInit with
    used := true
    vrid := 1
    adminState := .up
    vif := {VrrpIf.zero with address := some ⟨InAddr.ofBytes 10 0 0 1,prefixlen⟩}}
  {zvrrpMasterInit with vsrv := Function.update zvrrpMasterInit.vsrv 1 v}

/-- An advertisement from 10.1.0.9. -/
def sampleFrame : List Byte := replicate 14 0++[0x45,0,0,40,0,0,0,0,255,112,0,0,10,1,0,9,224,0,0,18,
  0x21,1,100,1,0,1,0x70,0x98,10,0,0,100,0,0,0,0,0,0,0,0]

/-- It is complete, and in the subnet of 10.0.0.1/4. -/
theorem zvrrpIppktHandle_right_sample :
    (zvrrpIppktHandle (ethbuf sampleFrame fun _ => 0) .little (sampleDevice 4) 54).isSome=true ∧
      HandedRight .little (sampleDevice 4) sampleFrame := by
  have hcomplete : Complete (ethbuf sampleFrame fun _ => 0) sampleFrame.length :=
    ⟨by decide,by decide,by decide⟩
  refine ⟨by decide +kernel,(zvrrpIppktHandle_right .little (sampleDevice 4) sampleFrame).1
    ⟨fun _ _ address haddress => ?_,fun h => absurd hcomplete h⟩⟩
  have hnet : ⟨InAddr.ofBytes 10 0 0 1,4⟩=address := Option.some.inj haddress
  rw [←hnet]
  exact ⟨fun h => absurd h (lt_irrefl 4),fun h => absurd h (lt_irrefl 4)⟩

/-- A frame of another subnet is handed on, and 15 bytes of it behind old ones. -/
theorem zvrrpIppktHandle_foreign :
    (zvrrpIppktHandle (ethbuf sampleFrame fun _ => 0) .little (sampleDevice 24) 54).isSome=true ∧
      ¬InSubnet (sampleDevice 24) (seen (ethbuf sampleFrame fun _ => 0)) ∧
      (zvrrpIppktHandle (ethbuf (sampleFrame.take 15) (ethbuf sampleFrame fun _ => 0)) .little
        (sampleDevice 24) 15).isSome=true ∧
      (zvrrpIppktHandle (ethbuf (sampleFrame.take 15) fun _ => 0) .little
        (sampleDevice 24) 15).isSome=false := by
  refine ⟨by decide +kernel,?_,by decide +kernel,by decide +kernel⟩
  rintro ⟨address,haddress,hsame⟩
  have hnet : ⟨InAddr.ofBytes 10 0 0 1,24⟩=address := Option.some.inj haddress
  rw [←hnet] at hsame
  exact absurd hsame (by decide +kernel)

end RoutePlatform.VrrpPackets
