import RoutePlatform.ZapiOperations

/-!
# The bytes of a route message

Puts that fit one after the other are one put of all the bytes. The message of
`zapi_ipv4_route` or `zapi_ipv6_route` is given as its bytes, and
`zebra_client_read` of these bytes leaves the body to be read.
-/

namespace RoutePlatform.ZapiEncoding

open StreamOperations PrefixBytes ZapiOperations List Option

variable {α : Type} (cmd : BitVec 8) (p : Prefix) {xs : List (BitVec 8)} {c : BitVec 8}
  {w : BitVec 16} {n : ℕ} {s : Stream} (api : ZapiRoute α) (put : Stream→Stream)
  (l : List (BitVec 32))

section

variable {s : Stream} {xs ys : List (BitVec 8)}

theorem put_emit (h : xs.length ≤ s.writeable) : s.put xs=some (emit s xs) := by
  obtain ⟨s',hput⟩ := exists_put h
  rw [emit,hput,getD_some]

theorem emit_emit (h : (xs++ys).length ≤ s.writeable) : emit (emit s xs) ys=emit s (xs++ys) := by
  have hlen : (xs++ys).length=xs.length+ys.length := length_append
  have hx := put_emit (show xs.length ≤ s.writeable by omega)
  have hroom := writeable_of_put hx
  have hy := put_emit (show ys.length≤(emit s xs).writeable by omega)
  rw [emit.eq_1 s (xs++ys),put_trans hx hy,getD_some]

theorem streamWrite_emit (h : (xs++ys).length ≤ s.writeable) :
    streamWrite (emit s xs) ys=emit s (xs++ys) := by
  have hlen : (xs++ys).length=xs.length+ys.length := length_append
  have hx := put_emit (show xs.length ≤ s.writeable by omega)
  have hroom := writeable_of_put hx
  rw [streamWrite,take_of_length_le (by omega),emit_emit h]

theorem putc_emit (h : (xs++[c]).length ≤ s.writeable) :
    putc (emit s xs) c=emit s (xs++[c]) := emit_emit h

theorem putw_emit (h : (xs++bytes16 w).length ≤ s.writeable) :
    putw (emit s xs) w=emit s (xs++bytes16 w) := emit_emit h

theorem putl_emit {l : BitVec 32} (h : (xs++bytes32 l).length ≤ s.writeable) :
    putl (emit s xs) l=emit s (xs++bytes32 l) := emit_emit h

theorem room_of_append (h : (xs++ys).length≤n) : xs.length≤n :=
  (sublist_append_left xs ys).length_le.trans h

theorem ite_emit {p : Prop} [Decidable p]
    (hput : (xs++ys).length ≤ s.writeable → put (emit s xs)=emit s (xs++ys))
    (h : (xs++if p then ys else []).length ≤ s.writeable) :
    (if p then put (emit s xs) else emit s xs)=emit s (xs++if p then ys else []) := by
  by_cases hp : p
  · rw [if_pos hp] at h
    rw [if_pos hp,if_pos hp,hput h]
  · rw [if_neg hp,if_neg hp,append_nil]

theorem cons_emit
    (hput : (xs++[c]++ys).length ≤ s.writeable → put (emit s (xs++[c]))=emit s (xs++[c]++ys))
    (h : (xs++c::ys).length ≤ s.writeable) : put (putc (emit s xs) c)=emit s (xs++c::ys) := by
  rw [append_cons] at h ⊢
  rw [putc_emit (room_of_append h),hput h]

theorem data_emit (h : xs.length ≤ s.writeable) : (emit s xs).data=s.data++xs :=
  (put_eq_some (put_emit h)).1

theorem rest_emit (h : xs.length ≤ s.writeable) : (emit s xs).rest=s.rest++xs := by
  obtain ⟨hdata,hgetp,-,-⟩ := put_eq_some (put_emit h)
  rw [Stream.rest,hdata,hgetp,drop_append_of_le_length s.getp_le,Stream.rest]

theorem foldl_emit {turn : Stream→α→Stream} {bytes : α→List (BitVec 8)}
    (hturn : ∀ s xs a, (xs++bytes a).length ≤ s.writeable → turn (emit s xs) a=emit s (xs++bytes a))
    (l : List α) : ∀ xs : List (BitVec 8), (xs++l.flatMap bytes).length ≤ s.writeable →
      l.foldl turn (emit s xs)=emit s (xs++l.flatMap bytes) := by
  induction l with
  | nil =>
    intro xs _
    rw [foldl_nil,flatMap_nil,append_nil]
  | cons a l ih =>
    intro xs h
    rw [flatMap_cons,←append_assoc] at h ⊢
    have hlen : (xs++bytes a++l.flatMap bytes).length =
        (xs++bytes a).length+(l.flatMap bytes).length := length_append
    rw [foldl_cons,hturn s xs a (by omega),ih (xs++bytes a) h]

end

/-- The bytes of an IPv4 next hop. -/
def ipv4Bytes (gate : BitVec 32) : List (BitVec 8) := 3::bytes32 gate

/-- The bytes of an IPv6 next hop. -/
def ipv6Bytes (gate : Address) : List (BitVec 8) := 6::addressBytes gate 16

/-- The bytes of an interface index. -/
def ifindexBytes (ifindex : BitVec 32) : List (BitVec 8) := 1::bytes32 ifindex

/-- The body of a message up to the prefix. -/
def startBytes {α : Type} (p : Prefix) (api : ZapiRoute α) : List (BitVec 8) :=
  [api.type,api.flags,api.message]++bytes16 (api.safi.setWidth 16) ++
    [BitVec.ofNat 8 p.prefixlen]++addressBytes p.u (psize p.prefixlen)

/-- The body of a message from the distance on. -/
def endBytes {α : Type} (api : ZapiRoute α) : List (BitVec 8) :=
  (if checkFlag api.message messageDistance then [api.distance] else []) ++
    if checkFlag api.message messageMetric then bytes32 api.metric else []

/-- The next hops of an IPv4 message. -/
def hopBytes4 (api : ZapiRoute (BitVec 32)) : List (BitVec 8) :=
  if checkFlag api.message messageNexthop then
    (if checkFlag api.flags flagBlackhole then [1,9]
      else [BitVec.ofNat 8 (api.nexthop.length+api.ifindex.length)]) ++
      api.nexthop.flatMap ipv4Bytes++api.ifindex.flatMap ifindexBytes
  else []

/-- The next hops of an IPv6 message. -/
def hopBytes6 (api : ZapiRoute Address) : List (BitVec 8) :=
  if checkFlag api.message messageNexthop then
    [BitVec.ofNat 8 (api.nexthop.length+api.ifindex.length)] ++
      api.nexthop.flatMap ipv6Bytes++api.ifindex.flatMap ifindexBytes
  else []

def headerBytes (length command : BitVec 16) : List (BitVec 8) :=
  bytes16 length++[zebraHeaderMarker,zservVersion]++bytes16 command

@[simp] theorem length_bytes16 (w : BitVec 16) : (bytes16 w).length=2 := rfl

@[simp] theorem length_bytes32 (l : BitVec 32) : (bytes32 l).length=4 := rfl

@[simp] theorem length_addressBytes (u : Address) (n : ℕ) : (addressBytes u n).length=n := by
  rw [addressBytes,length_map,length_range]

@[simp] theorem length_headerBytes (length command : BitVec 16) :
    (headerBytes length command).length=6 := rfl

theorem length_flatMap_ipv4Bytes : (l.flatMap ipv4Bytes).length=5*l.length := by
  have hbs : ∀ g∈l, (ipv4Bytes g).length=5 := fun _ _ => rfl
  rw [length_flatMap,map_congr_left hbs,map_const',sum_replicate,smul_eq_mul,mul_comm]

theorem length_flatMap_ifindexBytes : (l.flatMap ifindexBytes).length=5*l.length := by
  have hbs : ∀ i∈l, (ifindexBytes i).length=5 := fun _ _ => rfl
  rw [length_flatMap,map_congr_left hbs,map_const',sum_replicate,smul_eq_mul,mul_comm]

theorem length_flatMap_ipv6Bytes (l : List Address) : (l.flatMap ipv6Bytes).length=17*l.length := by
  have hbs : ∀ u∈l, (ipv6Bytes u).length=17 := fun u _ => by
    rw [ipv6Bytes,length_cons,length_addressBytes]
  rw [length_flatMap,map_congr_left hbs,map_const',sum_replicate,smul_eq_mul,mul_comm]

theorem length_startBytes_le : (startBytes p api).length≤22 := by
  have hp := p.len_le_128
  rw [startBytes]
  simp only [length_append,length_cons,length_nil,length_bytes16,length_addressBytes,psize]
  omega

theorem length_endBytes_le : (endBytes api).length≤5 := by
  rw [endBytes,length_append]
  split <;> split <;> simp

/-- The whole message, with what stands between the prefix and the distance. -/
def messageBytes {α : Type} (cmd : BitVec 8) (p : Prefix) (api : ZapiRoute α)
    (hops : List (BitVec 8)) : List (BitVec 8) :=
  let body := startBytes p api++hops++endBytes api
  headerBytes (BitVec.ofNat 16 (6+body.length)) (cmd.setWidth 16)++body

theorem zclientCreateHeader_eq (cmd : BitVec 16) :
    zclientCreateHeader (streamNew zebraMaxPacketSiz) cmd =
      emit (streamNew 4096) (headerBytes 6 cmd) := by
  have hroom : (bytes16 6++[zebraHeaderMarker]++[zservVersion]++bytes16 cmd).length ≤
    (streamNew 4096).writeable := (by decide : 6≤4096)
  have hfst : putw (streamNew zebraMaxPacketSiz) (BitVec.ofNat 16 zebraHeaderSize) =
      emit (streamNew 4096) (bytes16 6) := rfl
  have hvn := room_of_append hroom
  rw [zclientCreateHeader,hfst,putc_emit (room_of_append hvn),putc_emit hvn,
    putw_emit hroom]
  rfl

theorem zapiRouteStart_eq : zapiRouteStart cmd p api =
      emit (streamNew 4096) (headerBytes 6 (cmd.setWidth 16)++startBytes p api) := by
  have hlen := length_startBytes_le p api
  have hroom : (headerBytes 6 (cmd.setWidth 16)++startBytes p api).length ≤
      (streamNew 4096).writeable := by
    rw [length_append,length_headerBytes]
    exact (Nat.add_le_add_left hlen 6).trans (by decide)
  have hcut : headerBytes 6 (cmd.setWidth 16)++startBytes p api =
      headerBytes 6 (cmd.setWidth 16)++[api.type]++[api.flags]++[api.message] ++
        bytes16 (api.safi.setWidth 16)++[BitVec.ofNat 8 p.prefixlen] ++
          addressBytes p.u (psize p.prefixlen) := rfl
  rw [hcut] at hroom ⊢
  have hlength := room_of_append hroom
  have hsafi := room_of_append hlength
  have hmessage := room_of_append hsafi
  have hflags := room_of_append hmessage
  rw [zapiRouteStart,zclientCreateHeader_eq,putc_emit (room_of_append hflags),putc_emit hflags,
    putc_emit hmessage,putw_emit hsafi,putc_emit hlength,streamWrite_emit hroom]

theorem data_streamPutwAt_append {b0 b1 : BitVec 8} (ys : List (BitVec 8)) (h : s.data=b0::b1::ys)
    (w : BitVec 16) : (streamPutwAt s 0 w).data=bytes16 w++ys := by
  have hend : 0+2 ≤ s.endp := by
    rw [Stream.endp,h,length_cons,length_cons]
    omega
  rw [streamPutwAt,if_pos hend]
  dsimp only
  rw [h]
  rfl

/-- The message, when the hops between prefix and distance fit. -/
theorem data_zapiRouteEnd {cmd : BitVec 8} {p : Prefix} {api : ZapiRoute α} {hops : List (BitVec 8)}
    (hlen : hops.length≤4000) :
    (zapiRouteEnd api (emit (streamNew 4096)
      (headerBytes 6 (cmd.setWidth 16)++startBytes p api++hops))).data =
      messageBytes cmd p api hops := by
  have hstart := length_startBytes_le p api
  have hend := length_endBytes_le api
  have hwriteable : (streamNew 4096).writeable=4096 := rfl
  generalize hxs : headerBytes 6 (cmd.setWidth 16)++startBytes p api++hops=xs
  have hx : xs.length=6+(startBytes p api).length+hops.length := by
    rw [←hxs,length_append,length_append,length_headerBytes]
  have hroom : (xs++endBytes api).length≤(streamNew 4096).writeable := by
    rw [length_append,hwriteable]
    omega
  have hputs : (if checkFlag api.message messageMetric then
        putl (if checkFlag api.message messageDistance then
          putc (emit (streamNew 4096) xs) api.distance else emit (streamNew 4096) xs) api.metric
      else if checkFlag api.message messageDistance then
        putc (emit (streamNew 4096) xs) api.distance else emit (streamNew 4096) xs) =
      emit (streamNew 4096) (xs++endBytes api) := by
    rw [endBytes,←append_assoc] at hroom ⊢
    rw [ite_emit (fun s => putc s api.distance) putc_emit (room_of_append hroom)]
    exact ite_emit (fun s => putl s api.metric) putl_emit hroom
  rw [zapiRouteEnd,hputs]
  have hdata : (emit (streamNew 4096) (xs++endBytes api)).data=xs++endBytes api := data_emit hroom
  have hendp : (emit (streamNew 4096) (xs++endBytes api)).endp =
      6+(startBytes p api++hops++endBytes api).length := by
    rw [Stream.endp,hdata,length_append,hx,length_append,length_append]
    omega
  rw [hendp,data_streamPutwAt_append ([zebraHeaderMarker,zservVersion] ++
    bytes16 (cmd.setWidth 16)++(startBytes p api++hops++endBytes api)),messageBytes]
  · rfl
  rw [hdata,←hxs,headerBytes]
  rfl

theorem putIfindexes_emit (ifindex : List (BitVec 32))
    (h : (xs++ifindex.flatMap ifindexBytes).length ≤ s.writeable) :
    putIfindexes ifindex (emit s xs)=emit s (xs++ifindex.flatMap ifindexBytes) := by
  exact foldl_emit (fun s xs i => cons_emit (fun s => putl s i) putl_emit) ifindex xs h

theorem length_hopBytes4_le {api : ZapiRoute (BitVec 32)}
    (hnum : api.nexthop.length+api.ifindex.length≤255) : (hopBytes4 api).length≤1277 := by
  rw [hopBytes4]
  split
  · rw [length_append,length_append,length_flatMap_ipv4Bytes,length_flatMap_ifindexBytes]
    split <;> simp only [length_cons,length_nil] <;> omega
  · exact Nat.zero_le _

/-- The message of a route with next hops, when what is put first and each next hop are put in
order. -/
theorem data_zapiRouteHops {api : ZapiRoute α} {bytes : α→List (BitVec 8)} {s : Stream}
    {turn : Stream→α→Stream} {head : List (BitVec 8)} (hput : ∀ xs : List (BitVec 8),
      zapiRouteStart cmd p api=emit (streamNew 4096) xs →
        (xs++head).length ≤ (streamNew 4096).writeable → s=emit (streamNew 4096) (xs++head))
    (hturn : ∀ (s : Stream) (xs : List (BitVec 8)) (g : α),
      (xs++bytes g).length ≤ s.writeable → turn (emit s xs) g=emit s (xs++bytes g))
    (hhops : (head++api.nexthop.flatMap bytes ++
      api.ifindex.flatMap ifindexBytes).length≤4000) :
    (zapiRouteEnd api (putIfindexes api.ifindex (api.nexthop.foldl turn s))).data =
      messageBytes cmd p api (head++api.nexthop.flatMap bytes++api.ifindex.flatMap ifindexBytes) := by
  have hstart := length_startBytes_le p api
  have hwriteable : (streamNew 4096).writeable=4096 := rfl
  have hs := zapiRouteStart_eq cmd p api
  rw [←data_zapiRouteEnd hhops]
  generalize hxs : headerBytes 6 (cmd.setWidth 16)++startBytes p api=xs at hs ⊢
  have hroom : (xs++head++api.nexthop.flatMap bytes ++
      api.ifindex.flatMap ifindexBytes).length≤(streamNew 4096).writeable := by
    rw [length_append,length_append] at hhops
    simp only [←hxs,length_append,length_headerBytes,hwriteable]
    omega
  have hroom' := room_of_append hroom
  rw [hput xs hs (room_of_append hroom'),foldl_emit hturn api.nexthop _ hroom',putIfindexes_emit _ hroom]
  simp only [append_assoc]

/-- What `zapi_ipv4_route` writes. -/
theorem data_zapiIpv4Route {api : ZapiRoute (BitVec 32)}
    (hnum : api.nexthop.length+api.ifindex.length≤255) :
    (zapiIpv4Route cmd p api).data=messageBytes cmd p api (hopBytes4 api) := by
  have hhops := length_hopBytes4_le hnum
  rw [zapiIpv4Route]
  dsimp only
  by_cases hnh : checkFlag api.message messageNexthop=true
  · rw [hopBytes4,if_pos hnh] at hhops ⊢
    rw [if_pos hnh]
    refine data_zapiRouteHops cmd p (fun xs hstart hroom => ?_)
      (fun s xs g => cons_emit (fun s => putl s g) putl_emit) (by omega)
    rw [hstart]
    split
    · rename_i hbh
      rw [if_pos hbh,append_cons] at hroom
      rw [putc_emit (room_of_append hroom),putc_emit hroom,append_assoc]
      rfl
    rename_i hbh
    rw [if_neg hbh] at hroom
    exact putc_emit hroom
  · rw [hopBytes4,if_neg hnh,if_neg hnh,zapiRouteStart_eq,←data_zapiRouteEnd (Nat.zero_le _),
      append_nil]

theorem data_zapiIpv6Route {api : ZapiRoute Address} (hnum : (hopBytes6 api).length≤4000) :
    (zapiIpv6Route cmd p api).data=messageBytes cmd p api (hopBytes6 api) := by
  rw [zapiIpv6Route]
  dsimp only
  by_cases hnh : checkFlag api.message messageNexthop=true
  · rw [hopBytes6,if_pos hnh] at hnum ⊢
    rw [if_pos hnh]
    exact data_zapiRouteHops cmd p (fun xs hstart hroom => hstart ▸ putc_emit hroom)
      (fun s xs g => cons_emit (fun s => streamWrite s (addressBytes g 16)) streamWrite_emit) hnum
  · rw [hopBytes6,if_neg hnh,if_neg hnh,zapiRouteStart_eq,←data_zapiRouteEnd (Nat.zero_le _),
      append_nil]

section

variable {s : Stream} {ys : List (BitVec 8)}

theorem get_keeps {s' : Stream} (h : s.get n=some (xs,s')) : s'.data=s.data ∧ s'.size=s.size := by
  unfold Stream.get at h
  split at h
  · cases h
    exact ⟨rfl,rfl⟩
  · cases h

theorem getc_keeps (s : Stream) : (getc s).2.data=s.data ∧ (getc s).2.size=s.size := by
  unfold getc streamGetc
  split
  · exact get_keeps ‹_›
  · exact ⟨rfl,rfl⟩

theorem getw_keeps (s : Stream) : (getw s).2.data=s.data ∧ (getw s).2.size=s.size := by
  unfold getw streamGetw
  split
  · exact get_keeps ‹_›
  · exact ⟨rfl,rfl⟩

theorem getc_cons (h : s.rest=c::ys) : ∃ s', getc s=(c,s') ∧ s'.rest=ys := by
  obtain ⟨s',hget,hrs⟩ := streamGetc_cons h
  exact ⟨s',by rw [getc,hget,getD_some],hrs⟩

theorem getw_append (h : s.rest=bytes16 w++ys) : ∃ s', getw s=(w,s') ∧ s'.rest=ys := by
  obtain ⟨s',hget,hrs⟩ := streamGetw_append h
  exact ⟨s',by rw [getw,hget,getD_some],hrs⟩

theorem getl_append {l : BitVec 32} (h : s.rest=bytes32 l++ys) :
    ∃ s', getl s=(l,s') ∧ s'.rest=ys := by
  obtain ⟨s',hget,hrs⟩ := streamGetl_append h
  exact ⟨s',by rw [getl,hget,getD_some],hrs⟩

theorem ite_get {β : Type} {p : Prop} [Decidable p] {get : Stream→β × Stream} {a : β} (zero : β)
    (hget : s.rest=xs++ys → ∃ s', get s=(a,s') ∧ s'.rest=ys) (h : s.rest=(if p then xs else [])++ys) :
    ∃ s', (if p then get s else (zero,s))=(if p then a else zero,s') ∧ s'.rest=ys := by
  by_cases hp : p
  · rw [if_pos hp] at h
    rw [if_pos hp,if_pos hp]
    exact hget h
  · rw [if_neg hp,nil_append] at h
    rw [if_neg hp,if_neg hp]
    exact ⟨s,rfl,h⟩

theorem getAddress_append {u : Address} (old : Address) (h : s.rest=addressBytes u n++ys) :
    ∃ s', getAddress s old n=(addressOf (addressBytes u n),s') ∧ s'.rest=ys := by
  obtain ⟨s',hget,hrs⟩ := get_append h
  rw [length_addressBytes] at hget
  exact ⟨s',by rw [getAddress,hget],hrs⟩

end

/-- The daemon of the other side gets the body of a message it is sent. -/
theorem zebraClientRead_message (command : BitVec 16) {body : List (BitVec 8)}
    (hlen : 6+body.length≤4096) :
    ∃ s, zebraClientRead (headerBytes (BitVec.ofNat 16 (6+body.length)) command++body) =
      some (command,s) ∧ s.rest=body := by
  generalize hlength : BitVec.ofNat 16 (6+body.length)=length
  have hnat : length.toNat=6+body.length := by
    rw [←hlength,BitVec.toNat_ofNat,Nat.mod_eq_of_lt (by omega)]
  have hhead : (headerBytes length command++body).take zebraHeaderSize =
      headerBytes length command := take_left' rfl
  have htail : (headerBytes length command++body).drop zebraHeaderSize=body := drop_left' rfl
  have hroom : (headerBytes length command).length≤(streamNew 4096).writeable := by
    rw [length_headerBytes]
    decide
  obtain ⟨hdata,hgetp,hsize,-⟩ := put_eq_some (put_emit hroom)
  generalize hs : emit (streamNew 4096) (headerBytes length command)=s at hdata hgetp hsize
  have hrs : s.rest =
      bytes16 length++(zebraHeaderMarker::zservVersion::(bytes16 command++[])) := by
    rw [Stream.rest,hdata,hgetp]
    rfl
  obtain ⟨s1,h1,hrs1⟩ := getw_append hrs
  obtain ⟨s2,h2,hrs2⟩ := getc_cons hrs1
  obtain ⟨s3,h3,hrs3⟩ := getc_cons hrs2
  obtain ⟨s4,h4,hrs4⟩ := getw_append hrs3
  have hk1 := getw_keeps s
  have hk2 := getc_keeps s1
  have hk3 := getc_keeps s2
  have hk4 := getw_keeps s3
  rw [h1] at hk1
  rw [h2] at hk2
  rw [h3] at hk3
  rw [h4] at hk4
  have hdata4 : s4.data=headerBytes length command := by
    rw [hk4.1,hk3.1,hk2.1,hk1.1,hdata]
    rfl
  have hsize4 : s4.size=4096 := by
    rw [hk4.2,hk3.2,hk2.2,hk1.2,hsize]
    rfl
  have hin : body.length ≤ s4.writeable := by
    rw [Stream.writeable,Stream.endp,hsize4,hdata4,length_headerBytes]
    omega
  refine ⟨emit s4 body,?_,by rw [rest_emit hin,hrs4,nil_append]⟩
  have hlow : ¬length.toNat<zebraHeaderSize := by
    rw [hnat,zebraHeaderSize]
    omega
  have hhigh : ¬length.toNat > s4.size := by omega
  have hwire : ¬(headerBytes length command++body).length<length.toNat := by
    rw [length_append,length_headerBytes]
    omega
  have hbody : body.take (length.toNat-zebraHeaderSize)=body := by
    rw [hnat,zebraHeaderSize]
    exact take_of_length_le (by omega)
  rw [zebraClientRead]
  rw [hhead,htail,zebraMaxPacketSiz,hs,h1]
  dsimp only
  rw [h2]
  rw [h3]
  rw [h4]
  rw [if_neg (by simp),if_neg (by simp [hlow,hhigh]),if_neg hwire,hbody]

end RoutePlatform.ZapiEncoding
