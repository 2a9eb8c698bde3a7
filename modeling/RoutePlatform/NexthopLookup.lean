import RoutePlatform.ZapiRoundTrip

/-!
# Replies to next-hop lookups

A reply of `zsend_ipv4_nexthop_lookup` or `zsend_ipv6_nexthop_lookup` holds what the switch puts
for each next hop in the FIB; `zlookup_read` and `zlookup_read_ipv6` have the same switch. The
function for IPv6 puts the bytes of its parameter, which is a pointer.
-/

namespace RoutePlatform.NexthopLookup

open StreamOperations PrefixBytes ZapiOperations ZapiEncoding ZapiRoundTrip List Option

/-- Addresses of a family, and which types of next hops have which fields: by the switches, and by
their meaning. -/
structure Wire (α : Type) where
  command : BitVec 16
  bytes : α→List (BitVec 8)
  put : Stream→α→Stream
  get : Stream→α × Stream
  zero : α
  gate : List (BitVec 8)
  ifindex : List (BitVec 8)
  carriesGate : List (BitVec 8)
  carriesIfindex : List (BitVec 8)
  put_emit : ∀ {s xs a}, (xs++bytes a).length ≤ s.writeable → put (emit s xs) a=emit s (xs++bytes a)
  get_append : ∀ {s a ys}, s.rest=bytes a++ys → ∃ s', get s=(a,s') ∧ s'.rest=ys
  gate_subset : gate⊆carriesGate
  ifindex_subset : ifindex⊆carriesIfindex

/-- The types of `enum nexthop_types_t`, from `ZEBRA_NEXTHOP_IFINDEX`, 1, to
`ZEBRA_NEXTHOP_BLACKHOLE`, 9. -/
def wire4 : Wire (BitVec 32) where
  command := 15
  bytes := bytes32
  put := putl
  get := getl
  zero := 0
  gate := [3,4]
  ifindex := [4,1,2]
  carriesGate := [3,4,5]
  carriesIfindex := [1,2,4,5]
  put_emit := emit_emit
  get_append := getl_append
  gate_subset := by decide
  ifindex_subset := by decide

def wire6 : Wire Address where
  command := 16
  bytes := fun u => addressBytes u 16
  put := fun s u => streamWrite s (addressBytes u 16)
  get := fun s => getAddress s zeroAddress 16
  zero := zeroAddress
  gate := [6,7,8]
  ifindex := [7,8,1,2]
  carriesGate := [6,7,8]
  carriesIfindex := [7,8,1,2]
  put_emit := streamWrite_emit
  get_append := fun h => by
    have hget := getAddress_append zeroAddress h
    rwa [addressOf_addressBytes] at hget
  gate_subset := by decide
  ifindex_subset := by decide

/-- `struct nexthop`, as far as it is in a reply. -/
structure LookupHop (α : Type) where
  type : BitVec 8
  gate : α
  ifindex : BitVec 32

/-- The matching entry. Each next hop stands with its `NEXTHOP_FLAG_FIB`. -/
structure LookupRib (α : Type) where
  metric : BitVec 32
  nexthops : List (Bool × LookupHop α)

variable {α : Type} (W : Wire α)

def putHop (s : Stream) (hop : LookupHop α) : Stream :=
  let s := putc s hop.type
  let s := if hop.type∈W.gate then W.put s hop.gate else s
  if hop.type∈W.ifindex then putl s hop.ifindex else s

/-- The reply, with the address `echo`. `zserv_create_header` is like `zclient_create_header`. -/
def zsendNexthopLookup (echo : α) (rib : Option (LookupRib α)) : Stream :=
  let s := zclientCreateHeader (streamNew zebraMaxPacketSiz) W.command
  let s := W.put s echo
  let s :=
    match rib with
    | some rib =>
      let s := putl s rib.metric
      let nump := s.endp
      let s := putc s 0
      let s := rib.nexthops.foldl (fun s hop => if hop.1 then putHop W s hop.2 else s) s
      (streamPutcAt s nump (BitVec.ofNat 8 (rib.nexthops.countP Prod.fst))).getD s
    | none => putc (putl s 0) 0
  streamPutwAt s 0 (BitVec.ofNat 16 s.endp)

def zsendIpv4NexthopLookup (addr : BitVec 32) (rib : Option (LookupRib (BitVec 32))) : Stream :=
  zsendNexthopLookup wire4 addr rib

/-- `stack` is what stands at `&addr`. -/
def zsendIpv6NexthopLookup (stack : Address) (rib : Option (LookupRib Address)) : Stream :=
  zsendNexthopLookup wire6 stack rib

def readHop (s : Stream) : LookupHop α × Stream :=
  let (type,s) := getc s
  let (gate,s) := if type∈W.gate then W.get s else (W.zero,s)
  let (ifindex,s) := if type∈W.ifindex then getl s else (0,s)
  (⟨type,gate,ifindex⟩,s)

def readHops : ℕ→Stream→List (LookupHop α) × Stream
  | 0, s => ([],s)
  | n+1, s =>
    let (hop,s) := readHop W s
    let (hops,s) := readHops n s
    (hop::hops,s)

/-- What is read of a reply: the address, the answer, and the bytes that are left. -/
structure Reply (α : Type) where
  raddr : α
  bnc : Option (BitVec 32 × List (LookupHop α))
  rest : List (BitVec 8)

/-- The reader behind the header. -/
def readReply (s : Stream) : Reply α :=
  let (raddr,s) := W.get s
  let (metric,s) := getl s
  let (num,s) := getc s
  if num=0 then ⟨raddr,none,s.rest⟩
  else
    let (hops,s) := readHops W num.toNat s
    ⟨raddr,some (metric,hops),s.rest⟩

/-- `zlookup_read` and `zlookup_read_ipv6`. -/
def zlookupRead (wire : List (BitVec 8)) : Reply α :=
  let s := emit (streamNew zebraMaxPacketSiz) (wire.take 2)
  let (length,s) := getw s
  let s := emit s ((wire.drop 2).take (length.toNat-2))
  let (marker,s) := getc s
  let (version,s) := getc s
  if version≠zservVersion || marker≠zebraHeaderMarker then ⟨W.zero,none,s.rest⟩
  else readReply W (getw s).2

/-- The next hops in the FIB. -/
def LookupRib.fib (rib : LookupRib α) : List (LookupHop α) :=
  (rib.nexthops.filter Prod.fst).map Prod.snd

/-- What the type of a next hop carries. -/
def carried (hop : LookupHop α) : LookupHop α where
  type := hop.type
  gate := if hop.type∈W.carriesGate then hop.gate else W.zero
  ifindex := if hop.type∈W.carriesIfindex then hop.ifindex else 0

/-- The answer that is wanted: NULL if nothing matches with a next hop in the FIB. -/
def answer (rib : Option (LookupRib α)) : Option (BitVec 32 × List (LookupHop α)) :=
  match rib with
  | none => none
  | some rib => if rib.fib=[] then none else some (rib.metric,rib.fib.map (carried W))

/-- What was written is consumed, and gives back the address and the answer. -/
def RoundTrip (written : Stream) (addr : α) (rib : Option (LookupRib α)) : Prop :=
  zlookupRead W written.data=⟨addr,answer W rib,[]⟩

/-- What a type carries and the switches leave out is zero. -/
def Kept (rib : Option (LookupRib α)) : Prop := ∀ r∈rib, ∀ hop∈r.fib,
  (hop.type∈W.carriesGate → hop.type ∉ W.gate → hop.gate=W.zero) ∧
    (hop.type∈W.carriesIfindex → hop.type ∉ W.ifindex → hop.ifindex=0)

/-- The bytes of a next hop. -/
def hopBytes (hop : LookupHop α) : List (BitVec 8) :=
  hop.type::(if hop.type∈W.gate then W.bytes hop.gate else [])++
    if hop.type∈W.ifindex then bytes32 hop.ifindex else []

/-- The bytes behind the header. -/
def bodyBytes (echo : α) (rib : Option (LookupRib α)) : List (BitVec 8) :=
  match rib with
  | some rib => W.bytes echo++bytes32 rib.metric++
      BitVec.ofNat 8 rib.fib.length::rib.fib.flatMap (hopBytes W)
  | none => W.bytes echo++bytes32 0++[0]

/-- The reply fits into the buffer. -/
def Fits (echo : α) (rib : Option (LookupRib α)) : Prop := 6+(bodyBytes W echo rib).length≤4096

/-- A next hop as it is read. -/
def sent (hop : LookupHop α) : LookupHop α where
  type := hop.type
  gate := if hop.type∈W.gate then hop.gate else W.zero
  ifindex := if hop.type∈W.ifindex then hop.ifindex else 0

variable {W} {s : Stream} {xs ys : List (BitVec 8)} {echo addr : α} {rib : Option (LookupRib α)}

theorem putHop_emit (hop : LookupHop α) (h : (xs++hopBytes W hop).length ≤ s.writeable) :
    putHop W (emit s xs) hop=emit s (xs++hopBytes W hop) := by
  have hcut : xs++hopBytes W hop=xs++[hop.type] ++
      (if hop.type∈W.gate then W.bytes hop.gate else []) ++
        (if hop.type∈W.ifindex then bytes32 hop.ifindex else []) := by
    simp [hopBytes]
  rw [hcut] at h ⊢
  have hgate := room_of_append h
  have hturn := ite_emit (fun s => W.put s hop.gate) W.put_emit hgate
  unfold putHop
  dsimp only
  rw [putc_emit (room_of_append hgate),hturn]
  exact ite_emit (fun s => putl s hop.ifindex) putl_emit h

theorem readHop_append {hop : LookupHop α} (h : s.rest=hopBytes W hop++ys) :
    ∃ s', readHop W s=(sent W hop,s') ∧ s'.rest=ys := by
  rw [hopBytes,cons_append,cons_append,append_assoc] at h
  obtain ⟨s1,hty,h1⟩ := getc_cons h
  obtain ⟨s2,hgate,h2⟩ := ite_get W.zero W.get_append h1
  obtain ⟨s3,hifindex,h3⟩ := ite_get 0 getl_append h2
  refine ⟨s3,?_,h3⟩
  unfold readHop
  rw [hty]
  dsimp only
  rw [hgate]
  rw [hifindex]
  rfl

theorem readHops_append : ∀ {hops : List (LookupHop α)} {s : Stream},
    s.rest=hops.flatMap (hopBytes W)++ys →
      ∃ s', readHops W hops.length s=(hops.map (sent W),s') ∧ s'.rest=ys
  | [], s, h => ⟨s,rfl,h⟩
  | hop::hops, s, h => by
    rw [flatMap_cons,append_assoc] at h
    obtain ⟨s1,hhop,h1⟩ := readHop_append h
    obtain ⟨s2,hhops,h2⟩ := readHops_append h1
    refine ⟨s2,?_,h2⟩
    rw [length_cons,readHops,hhop]
    dsimp only
    rw [hhops]
    rfl

theorem putHops_emit (r : LookupRib α)
    (h : (xs++BitVec.ofNat 8 r.fib.length::r.fib.flatMap (hopBytes W)).length≤
      (streamNew 4096).writeable) :
    (streamPutcAt (r.nexthops.foldl (fun s hop => if hop.1 then putHop W s hop.2 else s)
        (putc (emit (streamNew 4096) xs) 0)) (emit (streamNew 4096) xs).endp
      (BitVec.ofNat 8 (r.nexthops.countP Prod.fst))).getD
        (r.nexthops.foldl (fun s hop => if hop.1 then putHop W s hop.2 else s)
          (putc (emit (streamNew 4096) xs) 0))=
      emit (streamNew 4096) (xs++BitVec.ofNat 8 r.fib.length::r.fib.flatMap (hopBytes W)) := by
  have hfold : r.nexthops.foldl (fun s hop => if hop.1 then putHop W s hop.2 else s)
      (putc (emit (streamNew 4096) xs) 0)=
        r.fib.foldl (putHop W) (putc (emit (streamNew 4096) xs) 0) := by
    rw [LookupRib.fib,foldl_map,foldl_filter]
  have hcnt : r.nexthops.countP Prod.fst=r.fib.length := by
    rw [LookupRib.fib,length_map,countP_eq_length_filter]
  have hz : (xs++[0]++r.fib.flatMap (hopBytes W)).length≤(streamNew 4096).writeable := by
    simpa using h
  have hendp : (emit (streamNew 4096) xs).endp=(streamNew 4096).endp+xs.length :=
    endp_of_put (put_emit (room_of_append h))
  have hput := put_emit hz
  rw [append_assoc] at hput
  obtain ⟨s',hat,hput'⟩ : ∃ s', _=some s' ∧ _ :=
    putcAt_of_put hput
  rw [hfold,hcnt,hendp,putc_emit (room_of_append hz),
    foldl_emit (fun s xs hop => putHop_emit hop) r.fib _ hz,append_assoc]
  rw [hat,getD_some]
  exact some.inj (hput'.symm.trans (put_emit h))

/-- A reply that fits, as its bytes. -/
theorem data_zsendNexthopLookup (hfits : Fits W echo rib) : (zsendNexthopLookup W echo rib).data=
      headerBytes (BitVec.ofNat 16 (6+(bodyBytes W echo rib).length)) W.command++
        bodyBytes W echo rib := by
  have hroom : (headerBytes 6 W.command++bodyBytes W echo rib).length≤
      (streamNew 4096).writeable := by
    rw [length_append,length_headerBytes]
    exact hfits
  have hbody : zsendNexthopLookup W echo rib=
      let s := emit (streamNew 4096) (headerBytes 6 W.command++bodyBytes W echo rib)
      streamPutwAt s 0 (BitVec.ofNat 16 s.endp) := by
    unfold zsendNexthopLookup
    rw [zclientCreateHeader_eq]
    unfold bodyBytes at hroom ⊢
    cases rib with
    | none =>
      dsimp only at hroom ⊢
      rw [←append_assoc,←append_assoc] at hroom ⊢
      have hmet := room_of_append hroom
      rw [W.put_emit (room_of_append hmet),putl_emit hmet,putc_emit hroom]
    | some r =>
      dsimp only at hroom ⊢
      rw [←append_assoc,←append_assoc] at hroom ⊢
      have hmet := room_of_append hroom
      rw [W.put_emit (room_of_append hmet),putl_emit hmet,putHops_emit r hroom]
  have hendp : (emit (streamNew 4096) (headerBytes 6 W.command++bodyBytes W echo rib)).endp=
      6+(bodyBytes W echo rib).length := by
    rw [endp_of_put (put_emit hroom),length_append]
    exact Nat.zero_add _
  rw [hbody]
  dsimp only
  rw [hendp,data_streamPutwAt_append _ (data_emit hroom)]
  rfl

theorem readReply_bytes {metric : BitVec 32} {l : List (LookupHop α)} (hle : l.length≤255)
    (h : s.rest=W.bytes echo++bytes32 metric++BitVec.ofNat 8 l.length::l.flatMap (hopBytes W)) :
    readReply W s=⟨echo,if l=[] then none else some (metric,l.map (sent W)),[]⟩ := by
  rw [append_assoc] at h
  obtain ⟨s1,h1,hrs1⟩ := W.get_append h
  obtain ⟨s2,h2,hrs2⟩ := getl_append hrs1
  obtain ⟨s3,h3,hrs3⟩ := getc_cons hrs2
  have hcnt : (BitVec.ofNat 8 l.length).toNat=l.length := by
    rw [BitVec.toNat_ofNat]
    omega
  unfold readReply
  rw [h1]
  dsimp only
  rw [h2]
  rw [h3]
  by_cases hfib : l=[]
  · rw [if_pos hfib]
    subst hfib
    exact congrArg _ hrs3
  · have hz : BitVec.ofNat 8 l.length≠0 := fun hz => hfib (length_eq_zero_iff.mp (by
      rw [←hcnt,hz]
      rfl))
    rw [←append_nil (l.flatMap (hopBytes W))] at hrs3
    obtain ⟨s4,h4,hrs4⟩ := readHops_append hrs3
    rw [if_neg hfib,if_neg hz,hcnt,h4]
    rw [hrs4]

theorem readReply_body (hnum : ∀ r∈rib, r.fib.length≤255) (h : s.rest=bodyBytes W echo rib) :
    readReply W s=⟨echo,rib.bind fun r =>
      if r.fib=[] then none else some (r.metric,r.fib.map (sent W)),[]⟩ := by
  cases rib with
  | none => exact readReply_bytes (l := []) (Nat.zero_le _) h
  | some r => exact readReply_bytes (hnum r rfl) h

/-- What is read of a reply. -/
theorem zlookupRead_message (hfits : Fits W echo rib) (hnum : ∀ r∈rib, r.fib.length≤255) :
    zlookupRead W (headerBytes (BitVec.ofNat 16 (6+(bodyBytes W echo rib).length)) W.command++
      bodyBytes W echo rib)=⟨echo,rib.bind fun r =>
        if r.fib=[] then none else some (r.metric,r.fib.map (sent W)),[]⟩ := by
  generalize hbody : bodyBytes W echo rib=body
  unfold Fits at hfits
  rw [hbody] at hfits
  generalize hlen : BitVec.ofNat 16 (6+body.length)=length
  have hnat : length.toNat=6+body.length := by
    rw [←hlen,BitVec.toNat_ofNat,Nat.mod_eq_of_lt (by omega)]
  have hrs : (emit (streamNew zebraMaxPacketSiz) (bytes16 length)).rest=bytes16 length++[] := rfl
  obtain ⟨s1,h1,hrs1⟩ := getw_append hrs
  obtain ⟨hdata1,hsize1⟩ := getw_keeps (emit (streamNew zebraMaxPacketSiz) (bytes16 length))
  rw [h1] at hdata1 hsize1
  have htail : ((headerBytes length W.command++body).drop 2).take (length.toNat-2)=
      zebraHeaderMarker::zservVersion::(bytes16 W.command++body) := by
    rw [hnat]
    refine take_of_length_le ?_
    simp only [length_drop,length_append,length_headerBytes]
    omega
  have hroom : (zebraHeaderMarker::zservVersion::(bytes16 W.command++body)).length ≤
      s1.writeable := by
    have hdata : s1.data.length=2 := congrArg List.length hdata1
    have hsize : s1.size=4096 := hsize1
    rw [Stream.writeable,Stream.endp,hdata,hsize]
    simp only [length_cons,length_append,length_bytes16]
    omega
  have hrs2 := rest_emit hroom
  rw [hrs1,nil_append] at hrs2
  obtain ⟨s3,h3,hrs3⟩ := getc_cons hrs2
  obtain ⟨s4,h4,hrs4⟩ := getc_cons hrs3
  obtain ⟨s5,h5,hrs5⟩ := getw_append hrs4
  have hfst : (headerBytes length W.command++body).take 2=bytes16 length := rfl
  unfold zlookupRead
  dsimp only
  rw [hfst,h1]
  rw [htail,h3]
  rw [h4]
  rw [if_neg (by simp),h5]
  exact readReply_body hnum (hrs5.trans hbody.symm)

theorem ite_eq_ite_iff {β : Type} {p q : Prop} [Decidable p] [Decidable q] {a zero : β}
    (hpq : p→q) : (if p then a else zero)=(if q then a else zero) ↔ (q→¬p→a=zero) := by
  by_cases hp : p
  · rw [if_pos hp,if_pos (hpq hp)]
    exact iff_of_true rfl fun _ hno => absurd hp hno
  · rw [if_neg hp]
    by_cases hq : q
    · rw [if_pos hq]
      exact ⟨fun h _ _ => h.symm,fun h => (h hq hp).symm⟩
    · rw [if_neg hq]
      exact iff_of_true rfl fun hq' => absurd hq' hq

theorem sent_eq_carried (hop : LookupHop α) : sent W hop=carried W hop ↔
    (hop.type∈W.carriesGate → hop.type ∉ W.gate → hop.gate=W.zero) ∧
      (hop.type∈W.carriesIfindex → hop.type ∉ W.ifindex → hop.ifindex=0) := by
  have hgate := @W.gate_subset hop.type
  have hifindex := @W.ifindex_subset hop.type
  rw [sent,carried,LookupHop.mk.injEq,and_iff_right rfl]
  exact and_congr (ite_eq_ite_iff hgate) (ite_eq_ite_iff hifindex)

/-- A reply that fits makes the round trip exactly if the address is in it and nothing that
is left out matters. -/
theorem roundTrip_iff (hfits : Fits W echo rib) (hnum : ∀ r∈rib, r.fib.length≤255) :
    RoundTrip W (zsendNexthopLookup W echo rib) addr rib ↔ echo=addr ∧ Kept W rib := by
  rw [RoundTrip,data_zsendNexthopLookup hfits,zlookupRead_message hfits hnum,Reply.mk.injEq,
    and_iff_left rfl]
  refine and_congr_right fun _ => ?_
  cases rib with
  | none => exact iff_of_true rfl fun _ h => absurd h.symm (some_ne_none _)
  | some r =>
    rw [bind_some,answer]
    by_cases hfib : r.fib=[]
    · rw [if_pos hfib]
      refine iff_of_true (if_pos hfib).symm fun r' hr' hop hmem => ?_
      cases hr'
      rw [hfib] at hmem
      cases hmem
    · rw [if_neg hfib,if_neg hfib,some.injEq,Prod.mk.injEq,and_iff_right rfl,map_inj_left]
      constructor
      · intro h r' hr' hop hmem
        cases hr'
        exact (sent_eq_carried hop).mp (h hop hmem)
      · exact fun h hop hmem => (sent_eq_carried hop).mpr (h r rfl hop hmem)

theorem fits_wire4 {addr : BitVec 32} {rib : Option (LookupRib (BitVec 32))}
    (hnum : ∀ r∈rib, r.fib.length≤255) : Fits wire4 addr rib := by
  cases rib with
  | none => exact (by decide : 6+9≤4096)
  | some r =>
    have hle := hnum r rfl
    have hhop : ∀ n∈r.fib.map fun hop => (hopBytes wire4 hop).length, n≤9 := by
      intro n hn
      obtain ⟨hop,-,rfl⟩ := mem_map.mp hn
      unfold hopBytes
      split <;> split <;> simp [wire4]
    have hsum := sum_le_card_nsmul _ 9 hhop
    rw [length_map,smul_eq_mul] at hsum
    change 6+(bytes32 addr++bytes32 r.metric++
      BitVec.ofNat 8 r.fib.length::r.fib.flatMap (hopBytes wire4)).length≤4096
    rw [length_append,length_append,length_cons,length_flatMap,length_bytes32,length_bytes32]
    omega

/-- Every reply for IPv4 makes the round trip exactly if no next hop in the FIB that carries
an interface name has a gateway or an interface, and a reply for IPv6 that fits if the bytes
on the stack are those of the address. -/
theorem zlookupReads_roundTrip (addr : BitVec 32) {rib : Option (LookupRib (BitVec 32))}
    (addr6 stack : Address) {rib6 : Option (LookupRib Address)}
    (hnum : ∀ r∈rib, r.fib.length≤255) (hnum6 : ∀ r∈rib6, r.fib.length≤255) :
    (RoundTrip wire4 (zsendIpv4NexthopLookup addr rib) addr rib ↔ Kept wire4 rib) ∧
      (Fits wire6 stack rib6 →
        (RoundTrip wire6 (zsendIpv6NexthopLookup stack rib6) addr6 rib6 ↔ stack=addr6)) := by
  refine ⟨(roundTrip_iff (fits_wire4 hnum) hnum).trans (and_iff_right rfl),fun hfits =>
    (roundTrip_iff hfits hnum6).trans (and_iff_left fun r _ hop _ => ?_)⟩
  refine ⟨fun hcarries hno => absurd ?_ hno,fun hcarries hno => absurd ?_ hno⟩ <;> exact hcarries

/-- A gateway of IPv4, and a connected route of IPv6 on interface 2. -/
theorem zlookupReads_roundTrip_sample :
    (RoundTrip wire4 (zsendIpv4NexthopLookup 1 (some ⟨20,[(true,⟨3,5,0⟩)]⟩)) 1
        (some ⟨20,[(true,⟨3,5,0⟩)]⟩) ↔ Kept wire4 (some ⟨20,[(true,⟨3,5,0⟩)]⟩)) ∧
      (Fits wire6 zeroAddress (some ⟨0,[(true,⟨1,zeroAddress,2⟩)]⟩) →
        (RoundTrip wire6 (zsendIpv6NexthopLookup zeroAddress (some ⟨0,[(true,⟨1,zeroAddress,2⟩)]⟩))
            zeroAddress (some ⟨0,[(true,⟨1,zeroAddress,2⟩)]⟩) ↔ zeroAddress=zeroAddress)) :=
  zlookupReads_roundTrip 1 zeroAddress zeroAddress (fun _ hr => some.inj hr ▸ by decide)
    (fun _ hr => some.inj hr ▸ by decide)

/-- The address ::1 comes back as what stood on the stack. -/
theorem zlookupRead_otherAddress :
    ¬RoundTrip wire6 (zsendIpv6NexthopLookup zeroAddress none) (setByte zeroAddress 15 1) none := by
  intro h
  have hfits : Fits wire6 zeroAddress none := (by decide : 6+21≤4096)
  have hsame := ((roundTrip_iff hfits nofun).mp h).1
  exact absurd (congrFun hsame 15) (by decide)

end RoutePlatform.NexthopLookup
