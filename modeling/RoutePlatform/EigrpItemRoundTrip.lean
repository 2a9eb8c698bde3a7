import RoutePlatform.EigrpItems

/-!
# EIGRP: route items come out of a packet as they went in

Every item that `EigrpAddItem` has written into a packet makes exactly one route
event, unless the receiver rejects its destination, with the prefix, the external
data and the metric that were sent.
-/

namespace RoutePlatform.EigrpItems

open ReadTrace List Nat

variable {mem : Memory} {off : ℕ} {x : U32} {ipd : ℕ} {unreachable : Bool}

theorem word_be16 {x : BitVec 16} (h : Stored mem off (be16 x)) : word mem off=x.toNat := by
  have h0 : mem off=x.extractLsb' 8 8 := h.getD (k := 0) (by simp [be16])
  have h1 : mem (off+1)=x.extractLsb' 0 8 := h.getD (k := 1) (by simp [be16])
  rw [word,h0,h1,BitVec.extractLsb'_toNat,BitVec.extractLsb'_toNat]
  omega

theorem ofBytes_be32 (x : U32) :
    ofBytes (x.extractLsb' 24 8) (x.extractLsb' 16 8) (x.extractLsb' 8 8) (x.extractLsb' 0 8) =
      x := by
  apply BitVec.eq_of_toNat_eq
  rw [ofBytes,BitVec.toNat_ofNat]
  simp only [BitVec.extractLsb'_toNat]
  omega

theorem long_be32 (h : Stored mem off (be32 x)) : long mem off=x := by
  have h0 : mem off=x.extractLsb' 24 8 := h.getD (k := 0) (by simp [be32])
  have h1 : mem (off+1)=x.extractLsb' 16 8 := h.getD (k := 1) (by simp [be32])
  have h2 : mem (off+2)=x.extractLsb' 8 8 := h.getD (k := 2) (by simp [be32])
  have h3 : mem (off+3)=x.extractLsb' 0 8 := h.getD (k := 3) (by simp [be32])
  rw [long,h0,h1,h2,h3,ofBytes_be32]

theorem hostLong_zero (bigEndian : Bool) (h : Stored mem off (be32 0)) :
    hostLong bigEndian mem off=0 := by
  have hbyte : ∀ k<4, mem (off+k)=0 := by
    intro k hk
    have hget := h.getD (k := k) (by simpa [be32] using hk)
    rw [hget]
    rcases (by omega : k=0 ∨ k=1 ∨ k=2 ∨ k=3) with rfl|rfl|rfl|rfl <;> rfl
  have h0 : mem off=0 := hbyte 0 (by omega)
  rw [hostLong,long_be32 h,h0,hbyte 1 (by omega),hbyte 2 (by omega),hbyte 3 (by omega)]
  exact ite_self _

/-- A destination with a mask of some length and no bits behind it. -/
structure NetEntry.Proper (dest : NetEntry) (len : ℕ) : Prop where
  le : len≤32
  mask : dest.mask=0xffffffff <<< (32-len)
  /-- The bits behind it. -/
  bits : 2^(32-len) ∣ dest.address.toNat

theorem bitsInMask_length : ∀ len : Fin 33, bitsInMask (0xffffffff <<< (32-len.val))=len.val := by
  decide

variable {dest : NetEntry} {len : ℕ}

theorem NetEntry.Proper.bitsInMask (h : dest.Proper len) : EigrpItems.bitsInMask dest.mask=len := by
  rw [h.mask]
  exact bitsInMask_length ⟨len,lt_succ_of_le h.le⟩

theorem NetEntry.Proper.bytesInMask (h : dest.Proper len) :
    EigrpItems.bytesInMask dest.mask=(len+7)/8 := by
  rw [EigrpItems.bytesInMask,h.bitsInMask]

theorem NetEntry.Proper.octet_eq_zero {k : ℕ} (h : dest.Proper len)
    (hk : (len+7)/8≤k) (hk' : k<4) : dest.address.extractLsb' (24-8*k) 8=0 := by
  obtain ⟨c,hc⟩ := h.bits
  apply BitVec.eq_of_toNat_eq
  rw [BitVec.extractLsb'_toNat,hc,shiftRight_eq_div_pow]
  have hsplit : 2^(32-len)=2^(24-8*k)*(2^8*2^(8*k-len)) := by
    rw [←pow_add,←pow_add]
    congr 1
    omega
  rw [hsplit,mul_assoc,Nat.mul_div_cancel_left _ (by positivity),mul_assoc,Nat.mul_mod_right]
  rfl

/-- The octets that `EigrpAddressDecode` advances over. -/
def decodedOctets (len : ℕ) : ℕ := if len=0 then 1 else (len+7)/8

theorem length_destEncode (h : dest.Proper len) : (destEncode dest).length=1+(len+7)/8 := by
  have hle := h.le
  rw [destEncode,h.bytesInMask,length_cons,length_take]
  change min _ 4+1=_
  omega

theorem addressDecode_stored (h : dest.Proper len) (hstored : Stored mem off (destEncode dest)) :
    addressDecode mem off=some (dest,decodedOctets len) := by
  have hle := h.le
  have hlen := length_destEncode h
  have hmask : (mem off).toNat=len := by
    have h0 : mem off=BitVec.ofNat 8 (bitsInMask dest.mask) := hstored.getD (k := 0) (by omega)
    rw [h0,h.bitsInMask,BitVec.toNat_ofNat]
    exact mod_eq_of_lt (by omega)
  have hoctet : ∀ k<4, (if k<(len+7)/8 then mem (off+1+k) else 0) =
      dest.address.extractLsb' (24-8*k) 8 := by
    intro k hk
    split
    · rename_i hin
      have hget := hstored.getD (k := 1+k) (by omega)
      rw [add_assoc,hget,destEncode,h.bytesInMask,add_comm 1 k,getD_cons_succ,
        getD_eq_getElem?_getD,getElem?_take_of_lt hin]
      have hcases : k=0 ∨ k=1 ∨ k=2 ∨ k=3 := by omega
      rcases hcases with rfl|rfl|rfl|rfl <;> rfl
    · exact (h.octet_eq_zero (by omega) hk).symm
  rw [addressDecode,hmask]
  dsimp only
  rw [if_neg (by omega)]
  by_cases h0 : len=0
  · have hz : dest=⟨0,0⟩ := by
      have hmask0 : dest.mask=0 := by
        rw [h.mask,h0]
        decide
      have haddr : dest.address=0 := by
        rw [←ofBytes_be32 dest.address]
        have h0' := h.octet_eq_zero (k := 0) (by omega) (by omega)
        have h1' := h.octet_eq_zero (k := 1) (by omega) (by omega)
        have h2' := h.octet_eq_zero (k := 2) (by omega) (by omega)
        have h3' := h.octet_eq_zero (k := 3) (by omega) (by omega)
        rw [h0',h1',h2',h3']
        rfl
      cases dest
      cases hmask0
      cases haddr
      rfl
    rw [if_neg (by simp [h0]),hz,decodedOctets,if_pos h0]
  · rw [if_pos h0,decodedOctets,if_neg h0]
    have hval := ofBytes_be32 dest.address
    rw [hoctet 0 (by omega),hoctet 1 (by omega),hoctet 2 (by omega),hoctet 3 (by omega)]
    rw [hval,←h.mask]

/-- The bytes of a metric that are plain chars hold no sign. -/
structure Vmetric.Small (v : Vmetric) : Prop where
  hopcount : v.hopcount.toNat<128
  reliability : v.reliability.toNat<128
  load : v.load.toNat<128

/-- A number that travels as a plain char. -/
def plainChar (x : U32) : U32 := (x.extractLsb' 0 8).signExtend 32

theorem plainChar_small (h : x.toNat<128) : plainChar x=x := by
  have hlow : (x.extractLsb' 0 8).toNat=x.toNat := by
    rw [BitVec.extractLsb'_toNat,shiftRight_zero]
    exact mod_eq_of_lt (by omega)
  have hmsb : (x.extractLsb' 0 8).msb=false := by
    rw [BitVec.msb_eq_decide,hlow]
    simp
    omega
  rw [plainChar,BitVec.signExtend_eq_setWidth_of_msb_false hmsb]
  apply BitVec.eq_of_toNat_eq
  rw [BitVec.toNat_setWidth,hlow]
  exact mod_eq_of_lt x.isLt

/-- The metric of an item: delay with offset, MTU in 16 bits, the last three as plain chars. -/
def sentMetric (S : Ddb) (dest : NetEntry) (v : Vmetric) (unreachable connect : Bool) : Vmetric where
  delay := addOffset S.offsetOut dest (if unreachable then inaccess else v.delay)
  bandwidth := v.bandwidth
  mtu := v.mtu &&& 0x0000ffff
  hopcount := plainChar (if connect then 0 else v.hopcount)
  reliability := plainChar v.reliability
  load := plainChar v.load

variable {v : Vmetric}

theorem sentMetric_small (hv : v.Small) (S : Ddb) (dest : NetEntry) (unreachable connect : Bool) :
    sentMetric S dest v unreachable connect = {v with
        delay := addOffset S.offsetOut dest (if unreachable then inaccess else v.delay)
        mtu := v.mtu &&& 0x0000ffff
        hopcount := if connect then 0 else v.hopcount} := by
  rw [sentMetric,plainChar_small hv.reliability,plainChar_small hv.load]
  cases connect with
  | true => rfl
  | false =>
    have hhop := plainChar_small hv.hopcount
    simp only [Bool.false_eq_true,if_false,hhop]

/-- All but the reserved bytes of a metric. -/
def metricFields (S : Ddb) (dest : NetEntry) (v : Vmetric) (unreachable connect : Bool) :
    List Byte :=
  be32 (sentMetric S dest v unreachable connect).delay++be32 v.bandwidth ++
    (be32 (v.mtu &&& 0x0000ffff)).drop 1 ++
    [if connect then 0 else v.hopcount.extractLsb' 0 8,v.reliability.extractLsb' 0 8,
      v.load.extractLsb' 0 8]

variable {S : Ddb}

theorem metricDecode_stored {unreachable connect : Bool}
    (hstored : Stored mem off (metricFields S dest v unreachable connect)) :
    metricDecode mem off=sentMetric S dest v unreachable connect := by
  obtain ⟨h,hbs⟩ := stored_append.mp hstored
  obtain ⟨h,hmtu⟩ := stored_append.mp h
  obtain ⟨hdelay,hbandwidth⟩ := stored_append.mp h
  have hm0 : mem (off+8)=(v.mtu &&& 0x0000ffff).extractLsb' 16 8 :=
    hmtu.getD (k := 0) (by simp [be32])
  have hm1 : mem (off+9)=(v.mtu &&& 0x0000ffff).extractLsb' 8 8 :=
    hmtu.getD (k := 1) (by simp [be32])
  have hm2 : mem (off+10)=(v.mtu &&& 0x0000ffff).extractLsb' 0 8 :=
    hmtu.getD (k := 2) (by simp [be32])
  have hhop : mem (off+11)=if connect then 0 else v.hopcount.extractLsb' 0 8 :=
    hbs.getD (k := 0) (by simp)
  have hrely : mem (off+12)=v.reliability.extractLsb' 0 8 := hbs.getD (k := 1) (by simp)
  have hload : mem (off+13)=v.load.extractLsb' 0 8 := hbs.getD (k := 2) (by simp)
  have hhigh : (v.mtu &&& 0x0000ffff).extractLsb' 24 8=0 := by
    apply BitVec.eq_of_toNat_eq
    rw [BitVec.extractLsb'_toNat,BitVec.toNat_and]
    have hlt : v.mtu.toNat &&& (0x0000ffff : U32).toNat≤65535 := and_le_right
    rw [shiftRight_eq_div_pow,div_eq_of_lt (by omega)]
    rfl
  have hmtu' : ofBytes 0 (mem (off+8)) (mem (off+9)) (mem (off+10)) = v.mtu &&& 0x0000ffff := by
    rw [hm0,hm1,hm2,←hhigh]
    exact ofBytes_be32 _
  have hbandwidth' : long mem (off+4)=v.bandwidth := long_be32 hbandwidth
  rw [metricDecode,long_be32 hdelay,hbandwidth',hmtu',hhop,hrely,hload]
  cases connect <;> rfl

variable {d : ExtData}

theorem extDecode_stored (hstored : Stored mem off (List.ofFn d)) : extDecode mem off=d := by
  funext k
  have hget := hstored.getD (k := k.val) (by simp)
  rw [extDecode,hget,getD_eq_getElem?_getD,List.getElem?_ofFn,dif_pos k.isLt]
  rfl

/-- The external data that an item carries. -/
def sentExt (S : Ddb) (e : Ndb) : Option ExtData :=
  match e.rdb with
  | none => none
  | some r => if r.flagExt then some (filterExtCd S.cdOut r.extData) else none

/-- The vector metric of an item; external routes that were not static carry the default. -/
def itemVmetric (S : Ddb) (e : Ndb) : Vmetric :=
  match sentExt S e with
  | none => e.vecMetric
  | some d => if d.protocol≠protoStatic then S.vMetricDef else e.vecMetric

/-- The hop count of an item is zero. -/
def itemConnected (S : Ddb) (e : Ndb) : Bool :=
  match sentExt S e, e.rdb with
  | none, some r => r.connected
  | _, _ => false

/-- The flags that an internal item carries. -/
def itemFlags (S : Ddb) (e : Ndb) : Byte :=
  filterCd S.cdOut (match e.rdb with
    | none => 0
    | some r => r.opaqueFlag)

def item (S : Ddb) (e : Ndb) (unreachable : Bool) : List Byte :=
  be16 (BitVec.ofNat 16 (if (sentExt S e).isSome then typeExternal else typeMetric)) ++
    be16 (BitVec.ofNat 16 ((if (sentExt S e).isSome then externTypeSize else metricTypeSize) +
      (1+bytesInMask e.dest.mask)))++be32 0 ++
    (match sentExt S e with
      | none => []
      | some d => List.ofFn d) ++
    (metricFields S e.dest (itemVmetric S e) unreachable (itemConnected S e) ++
      [0,if (sentExt S e).isSome then 0 else itemFlags S e])++destEncode e.dest

theorem builtItem_eq (S : Ddb) (e : Ndb) (unreachable : Bool) :
    builtItem S e unreachable=item S e unreachable := by
  unfold builtItem item itemFlags itemConnected itemVmetric sentExt
  cases h : e.rdb with
  | none => simp only [internalItem,h]; rfl
  | some r =>
    cases hext : r.flagExt with
    | false => simp only [internalItem,h,hext]; rfl
    | true => simp only [externalItem,hext]; rfl

/-- The router id of external data. -/
def ExtData.routerId (d : ExtData) : U32 := ofBytes (d 0) (d 1) (d 2) (d 3)

/-- The receiver is itself the source of an external item. -/
def isOwn (D : Ddb) (ext : Option ExtData) : Bool := ext.any fun d => decide (d.routerId=D.routerId)

/-- The route event that the item of a destination makes, but for `originRouter`. -/
def eventOf (S D : Ddb) (p : Peer) (packetType : ℕ) (e : Ndb) (unreachable : Bool) : Option NewRt :=
  let ext := sentExt S e
  let v := sentMetric S e.dest (itemVmetric S e) unreachable (itemConnected S e)
  if isOwn D ext ∧ packetType=opcUpdate then none
  else if guard D p.intf e.dest v.delay=.take then
    some (takeRoute D p ext (itemFlags S e) {NewRt.zero with
        dest := e.dest,nextHop := p.source,vecMetric := v,flagIgnore := isOwn D ext
        flagExt := ext.isSome})
  else none

/-- Route parameters without `originRouter`, which internal items do not set. -/
def NewRt.forgetOrigin (r : NewRt) : NewRt := {r with originRouter := 0}

theorem procLoop_done (D : Ddb) (p : Peer) (limit metric : ℕ) (ignoreTlv : Bool) (nexthop : U32)
    (extd : Option ℕ) (fuel : ℕ) (r : NewRt) (h : limit ≤ ipd) :
    procLoop D p mem limit metric ignoreTlv nexthop extd fuel ipd r=(true,r,[]) := by
  cases fuel with
  | zero => rfl
  | succ fuel => rw [procLoop,if_neg (by omega)]

variable {D : Ddb} {p : Peer}

/-- An item with one destination makes its event where that is taken. -/
theorem procRoute_single {limit metric : ℕ} (ignoreTlv : Bool) (extd : Option ℕ) (r : NewRt)
    (hdest : dest.Proper len) (hstored : Stored mem ipd (destEncode dest))
    (hlimit : limit=ipd+(destEncode dest).length)
    (hp : p.intf.pointToPoint=true → p.intf.dstAddr≠none) :
    ∃ r', procRoute D p mem ipd limit metric ignoreTlv 0 extd r =
      (true,r',if guard D p.intf dest (metricDecode mem metric).delay=.take then
        [takeRoute D p (extd.map (extDecode mem)) (mem (metric+15)) {r with
            dest := dest,nextHop := p.source,vecMetric := metricDecode mem metric
            flagIgnore := ignoreTlv}] else []) ∧ r'.originRouter=r.originRouter := by
  rw [length_destEncode hdest] at hlimit
  have hend : limit ≤ ipd+decodedOctets len+1 := by
    rw [decodedOctets]
    split <;> omega
  obtain ⟨fuel,hfuel⟩ : ∃ fuel, limit-ipd=fuel+1 := ⟨limit-ipd-1,by omega⟩
  rw [procRoute,hfuel,procLoop,if_pos (by omega),addressDecode_stored hdest hstored]
  dsimp only
  cases hguard : guard D p.intf dest (metricDecode mem metric).delay with
  | skip =>
    rw [procLoop_done D p _ _ _ _ _ _ _ hend]
    exact ⟨_,rfl,rfl⟩
  | drop => exact ⟨_,rfl,rfl⟩
  | fail =>
    exfalso
    rw [guard] at hguard
    split at hguard
    · cases hguard
    split at hguard
    · cases hguard
    split at hguard
    · rename_i hpoint
      cases haddr : p.intf.dstAddr with
      | none => exact hp hpoint haddr
      | some a =>
        rw [haddr] at hguard
        dsimp only at hguard
        split at hguard <;> cases hguard
    · cases hguard
  | take =>
    dsimp only
    rw [procLoop_done D p _ _ _ _ _ _ _ hend]
    exact ⟨_,rfl,rfl⟩

/-- A peer whose point-to-point interface has an address. -/
def Peer.Addressed (p : Peer) : Prop := p.intf.pointToPoint=true → p.intf.dstAddr≠none

/-- The fields of an item as they are stored. -/
structure ItemStored (mem : Memory) (tlv : ℕ) (S : Ddb) (e : Ndb) (unreachable : Bool)
    (extLen : ℕ) : Prop where
  type : word mem tlv=if (sentExt S e).isSome then typeExternal else typeMetric
  nexthop : ∀ bigEndian, hostLong bigEndian mem (tlv+4)=0
  metric : metricDecode mem (tlv+8+extLen) =
    sentMetric S e.dest (itemVmetric S e) unreachable (itemConnected S e)
  flags : (sentExt S e).isSome=false → mem (tlv+8+extLen+15)=itemFlags S e
  dest : Stored mem (tlv+8+extLen+16) (destEncode e.dest)

theorem length_metricFields (S : Ddb) (dest : NetEntry) (v : Vmetric)
    (unreachable connect : Bool) : (metricFields S dest v unreachable connect).length=14 := rfl

variable {e : Ndb}

theorem itemStored {tlv : ℕ} (he : e.dest.Proper len)
    (hstored : Stored mem tlv (item S e unreachable)) :
    ∃ extLen, ItemStored mem tlv S e unreachable extLen ∧ extLen=(match sentExt S e with
        | none => []
        | some d => List.ofFn d).length ∧
      Stored mem (tlv+8) (match sentExt S e with
        | none => []
        | some d => List.ofFn d) ∧
      word mem (tlv+2)=8+extLen+16+(destEncode e.dest).length ∧
      (item S e unreachable).length=8+extLen+16+(destEncode e.dest).length := by
  have hle := he.le
  have hdestLen := length_destEncode he
  rw [item] at hstored
  generalize hext : (match sentExt S e with
    | none => []
    | some d => ofFn d : List Byte)=ext at hstored
  have hextLen : ext.length=if (sentExt S e).isSome then 20 else 0 := by
    rw [←hext]
    cases sentExt S e with
    | none => rfl
    | some d => exact length_ofFn
  obtain ⟨h,hdest⟩ := stored_append.mp hstored
  obtain ⟨h,hmet⟩ := stored_append.mp h
  obtain ⟨h,hext'⟩ := stored_append.mp h
  obtain ⟨h,hnh⟩ := stored_append.mp h
  obtain ⟨hty,hlen⟩ := stored_append.mp h
  obtain ⟨hfields,hflags⟩ := stored_append.mp hmet
  have hhead : (be16 (BitVec.ofNat 16 (if (sentExt S e).isSome then typeExternal else typeMetric)) ++
      be16 (BitVec.ofNat 16 ((if (sentExt S e).isSome then externTypeSize else metricTypeSize) +
        (1+bytesInMask e.dest.mask)))++be32 0++ext).length=8+ext.length := by
    simp [be16,be32]
    omega
  have hoff : tlv+(8+ext.length)=tlv+8+ext.length := by omega
  have hflags' : Stored mem (tlv+8+ext.length+14)
      [0,if (sentExt S e).isSome then 0 else itemFlags S e] := by
    rw [hhead,length_metricFields,hoff] at hflags
    exact hflags
  have hdest' : Stored mem (tlv+8+ext.length+16) (destEncode e.dest) := by
    rw [length_append,hhead,length_append,length_metricFields] at hdest
    have hoff' : tlv+(8+ext.length+(14+2))=tlv+8+ext.length+16 := by omega
    rw [←hoff']
    exact hdest
  rw [hhead,hoff] at hfields
  refine ⟨ext.length,⟨?_,fun _ => hostLong_zero _ hnh,metricDecode_stored hfields,fun hno => ?_,
    hdest'⟩,rfl,hext',?_,?_⟩
  · rw [word_be16 hty,BitVec.toNat_ofNat]
    cases (sentExt S e).isSome <;> rfl
  · have hget := hflags'.getD (k := 1) (by simp)
    rw [hno] at hget
    exact hget
  · have hword : word mem (tlv+2)=_ := word_be16 hlen
    rw [hword,BitVec.toNat_ofNat,he.bytesInMask,hextLen,hdestLen]
    cases (sentExt S e).isSome with
    | false =>
      simp only [Bool.false_eq_true,if_false,metricTypeSize]
      omega
    | true =>
      simp only [if_true,externTypeSize]
      omega
  rw [item,hext,length_append,length_append,hhead,length_append,length_metricFields]
  simp

/-- An item makes its event, and what is behind it is decoded. -/
def ItemDecoded (S D : Ddb) (p : Peer) (mem : Memory) (e : Ndb)
    (packetType fuel tlv bytes : ℕ) (unreachable : Bool) (r : NewRt) : Prop :=
  ∃ r', (decodeLoop D p packetType mem (fuel+1) tlv bytes r).map NewRt.forgetOrigin =
    ((eventOf S D p packetType e unreachable).map NewRt.forgetOrigin).toList ++
      (decodeLoop D p packetType mem fuel (tlv+(item S e unreachable).length)
        (bytes-(item S e unreachable).length) r').map NewRt.forgetOrigin

section

variable {unreachable : Bool} {len tlv bytes packetType : ℕ} (fuel : ℕ) (r : NewRt)
  (he : e.dest.Proper len) (hp : p.Addressed) (hstored : Stored mem tlv (item S e unreachable))
  (hpos : 0<bytes)
include fuel r he hp hstored hpos

theorem decodeLoop_internal (hext : sentExt S e=none) :
    ItemDecoded S D p mem e packetType fuel tlv bytes unreachable r := by
  unfold ItemDecoded
  obtain ⟨extLen,hi,hextLen,-,hword,hlen⟩ := itemStored he hstored
  rw [hext] at hextLen
  have hz : extLen=0 := hextLen
  subst hz
  have hty : word mem tlv=typeMetric := by
    rw [hi.type,hext]
    rfl
  obtain ⟨r',hroute,-⟩ := @procRoute_single mem (tlv+24) _ _ D p (tlv+word mem (tlv+2))
    (tlv+8) false none {r with flagExt := false,data := none} he hi.dest (by omega) hp
  have hmet : metricDecode mem (tlv+8)=_ := hi.metric
  have hflags : mem (tlv+8+15)=itemFlags S e := hi.flags (by rw [hext]; rfl)
  refine ⟨r',?_⟩
  rw [decodeLoop,if_pos hpos]
  rw [if_neg (by omega),if_pos hty,hi.nexthop,hroute,hlen,←hword]
  dsimp only
  rw [if_pos rfl,map_append]
  congr 1
  have hown : ¬(isOwn D none=true ∧ packetType=opcUpdate) := fun h => Bool.false_ne_true h.1
  rw [eventOf,hext,hmet,hflags]
  rw [if_neg hown]
  split <;> rfl

/-- The item of an external route is decoded. -/
theorem decodeLoop_external (hext : sentExt S e=some d) :
    ItemDecoded S D p mem e packetType fuel tlv bytes unreachable r := by
  unfold ItemDecoded
  obtain ⟨extLen,hi,hextLen,hdata,hword,hlen⟩ := itemStored he hstored
  rw [hext] at hextLen hdata
  have htwenty := hextLen.trans length_ofFn
  subst htwenty
  have hty : word mem tlv=typeExternal := by
    rw [hi.type,hext]
    rfl
  have hrouter : long mem (tlv+8)=d.routerId := by
    have hd := extDecode_stored hdata
    rw [long,ExtData.routerId,←hd]
    rfl
  have hmet : metricDecode mem (tlv+28)=_ := hi.metric
  have hown : isOwn D (some d)=decide (d.routerId=D.routerId) := rfl
  rw [decodeLoop,if_pos hpos]
  rw [if_neg (by omega),if_neg (by rw [hty]; decide),if_pos hty,hrouter,hlen,←hword,
    eventOf,hext]
  rw [hown]
  by_cases hskip : decide (d.routerId=D.routerId)=true ∧ packetType=opcUpdate
  · rw [if_pos hskip,if_pos hskip]
    exact ⟨_,rfl⟩
  obtain ⟨r',hroute,-⟩ := @procRoute_single mem (tlv+44) _ _ D p (tlv+word mem (tlv+2))
    (tlv+28) (decide (d.routerId=D.routerId)) (some (tlv+8))
    {r with
      flagExt := true
      metric := hostLong D.bigEndian mem (tlv+20)
      originRouter := d.routerId} he
    hi.dest (by omega) hp
  refine ⟨r',?_⟩
  rw [if_neg hskip,if_neg hskip,hi.nexthop,hroute]
  dsimp only
  rw [if_pos rfl,map_append,hmet,Option.map_some,extDecode_stored hdata]
  congr 1
  split <;> rfl

theorem decodeLoop_item : ItemDecoded S D p mem e packetType fuel tlv bytes unreachable r := by
  cases hext : sentExt S e with
  | none => exact decodeLoop_internal fuel r he hp hstored hpos hext
  | some d => exact decodeLoop_external fuel r he hp hstored hpos hext

end

/-- A call of `EigrpAddItem`. -/
structure AddCall where
  entry : Ndb
  bytesLeft : ℕ
  unreachable : Bool

def AddCall.bytes (S : Ddb) (c : AddCall) : List Byte := addItem S c.entry c.bytesLeft c.unreachable

/-- The event that the call leads to. -/
def AddCall.event (S D : Ddb) (p : Peer) (packetType : ℕ) (c : AddCall) : Option NewRt :=
  if (builtItem S c.entry c.unreachable).length > c.bytesLeft then none
  else eventOf S D p packetType c.entry c.unreachable

theorem length_item_pos (S : Ddb) (e : Ndb) (unreachable : Bool) :
    0<(item S e unreachable).length := by
  rw [item]
  simp [destEncode]

variable {packetType : ℕ}

/-- The items of a packet make their events, one after the other. -/
theorem decodeLoop_calls (hp : p.Addressed)
    (calls : List AddCall) (hcalls : ∀ c∈calls, ∃ len, c.entry.dest.Proper len) :
    ∀ (fuel tlv : ℕ) (r : NewRt), (calls.flatMap (AddCall.bytes S)).length≤fuel →
      Stored mem tlv (calls.flatMap (AddCall.bytes S)) →
      (decodeLoop D p packetType mem fuel tlv (calls.flatMap (AddCall.bytes S)).length r).map
          NewRt.forgetOrigin =
        (calls.filterMap (AddCall.event S D p packetType)).map NewRt.forgetOrigin := by
  induction calls with
  | nil =>
    intro fuel tlv r _ _
    cases fuel with
    | zero | succ fuel => rfl
  | cons c calls ih =>
    intro fuel tlv r hfuel hstored
    have ih := ih fun c' hc' => hcalls c' (.tail _ hc')
    obtain ⟨len,hc⟩ := hcalls c mem_cons_self
    rw [flatMap_cons] at hfuel hstored ⊢
    obtain ⟨hfst,hrs⟩ := stored_append.mp hstored
    by_cases hroom : (builtItem S c.entry c.unreachable).length > c.bytesLeft
    · have hbs : c.bytes S=[] := by rw [AddCall.bytes,addItem,if_pos hroom]
      have hevent : c.event S D p packetType=none := by rw [AddCall.event,if_pos hroom]
      rw [hbs] at hrs hfuel ⊢
      rw [filterMap_cons_none hevent]
      exact ih fuel tlv r hfuel hrs
    have hbs : c.bytes S=item S c.entry c.unreachable := by
      rw [AddCall.bytes,addItem,if_neg hroom,builtItem_eq]
    have hevent : c.event S D p packetType=eventOf S D p packetType c.entry c.unreachable := by
      rw [AddCall.event,if_neg hroom]
    have hpos := length_item_pos S c.entry c.unreachable
    rw [hbs] at hrs hfuel hfst ⊢
    rw [length_append] at hfuel ⊢
    obtain ⟨fuel,rfl⟩ : ∃ n, fuel=n+1 := ⟨fuel-1,by omega⟩
    obtain ⟨r',hstep⟩ := @decodeLoop_item mem S D p c.entry c.unreachable _ _
      ((item S c.entry c.unreachable).length+(calls.flatMap (AddCall.bytes S)).length)
      packetType fuel r hc hp hfst (by omega)
    rw [hstep,Nat.add_sub_cancel_left,ih fuel _ r' (by omega) hrs]
    cases hone : c.event S D p packetType with
    | none =>
      rw [filterMap_cons_none hone,←hevent,hone]
      rfl
    | some event =>
      rw [filterMap_cons_some hone,←hevent,hone]
      rfl

theorem eventOf_fields {r : NewRt} (h : eventOf S D p packetType e unreachable=some r) :
    r.dest=e.dest ∧ r.data=(sentExt S e).map (filterExtCd D.cdIn) ∧
      (r.metric,r.succMetric,r.vecMetric)=computeMetric D p.intf
        (sentMetric S e.dest (itemVmetric S e) unreachable (itemConnected S e)) e.dest := by
  rw [eventOf] at h
  split at h
  · cases h
  split at h
  · cases h
    exact ⟨rfl,rfl,rfl⟩
  · cases h

/-- A process with an offset of one on every delay that it sends. -/
def offsetDdb : Ddb where
  bigEndian := false
  routerId := 0x01010101
  portRouterId := 0x01010101
  maxHopCnt := 100
  k1 := 1
  k2 := 0
  k3 := 1
  offsetOut := some fun _ => 1
  offsetIn := none
  cdOut := false
  cdIn := false
  rtInDef := true
  vMetricDef := ⟨0,0,0,0,0,0⟩
  permitIncoming := fun _ => true

/-- A peer behind an Ethernet interface. -/
def ethernetPeer : Peer where
  source := 0x0a000001
  knowsFlags := true
  intf := ⟨false,true,1,10000,1500,none⟩

/-- A destination `10.0.0.0/8`. -/
def netTen : Ndb where
  dest := ⟨0x0a000000,0xff000000⟩
  vecMetric := ⟨25600,256000,1500,1,255,1⟩
  rdb := none

/-- The bytes at the start of the memory. -/
def memoryOf (bytes : List Byte) : Memory := fun k => bytes.getD k 0

theorem stored_memoryOf (bytes : List Byte) : Stored (memoryOf bytes) 0 bytes := by
  intro k hk
  rw [memoryOf,zero_add,getD_eq_getElem?_getD,getElem?_eq_getElem hk]
  rfl

/-- An item with the destinations `10.0.0.0/8` and `11.0.0.0/8`. -/
def twoDestinations : List Byte :=
  be16 0x0102++be16 28++be32 0++metricEncode offsetDdb netTen.dest netTen.vecMetric false false ++
    [8,10,8,11]

/-- The same item with the second destination only. -/
def secondDestination : List Byte :=
  be16 0x0102++be16 26++be32 0++metricEncode offsetDdb netTen.dest netTen.vecMetric false false ++
    [8,11]

end RoutePlatform.EigrpItems
