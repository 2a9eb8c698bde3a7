import RoutePlatform.UpdateOperations
import RoutePlatform.ZapiRoundTrip

/-!
# Prefixes in an NLRI field

`stream_put_prefix` of `lib/stream.c` writes a prefix, `bgp_nlri_sanity_check` accepts what
such writes leave and `bgp_nlri_parse` hands it on. A multicast address makes the parser
return where the comment beside it asks to ignore the prefix.
-/

namespace RoutePlatform.NlriCodec

open StreamOperations AttrOperations UpdateOperations PrefixBytes List
open ZapiOperations hiding psize
open ZapiEncoding ZapiRoundTrip

/-- `afi2family`, backwards. -/
def afiOf : Family→BitVec 16
  | .inet6 => afiIp6
  | _ => afiIp

/-- The bytes of a prefix in NLRI format. -/
def prefixBytes (p : Prefix) : List (BitVec 8) :=
  BitVec.ofNat 8 p.prefixlen::addressBytes p.u (ZapiOperations.psize p.prefixlen)

/-- `stream_put_prefix`, whose answer is not looked at. -/
def streamPutPrefix (s : Stream) (p : Prefix) : Stream := emit s (prefixBytes p)

/-- What the parser copies of a prefix. -/
def fetched (p : Prefix) : NlriPrefix :=
  ⟨BitVec.ofNat 8 p.prefixlen,addressBytes p.u (ZapiOperations.psize p.prefixlen)⟩

/-- The call of `bgp_nlri_parse` for a prefix. -/
def nlriCall (attr : Option Attr) (plain : Bool) (afi : BitVec 16) (safi : BitVec 8)
    (p : NlriPrefix) : NlriCall :=
  match attr with
  | some attr => .update p attr afi safi plain
  | none => .withdraw p afi safi

/-- The prefix is neither multicast nor link-local. -/
def presentable (afi : BitVec 16) (safi : BitVec 8) (p : Prefix) : Bool :=
  !nlriStops afi safi (fetched p) && !nlriSkips afi safi (fetched p)

variable {family : Family} {p : Prefix} {ps : List Prefix} {rest bytes : List (BitVec 8)}

/-- Prefixes of one of the two families that BGP knows. -/
def OfFamily (family : Family) (ps : List Prefix) : Prop := family≠.unspec ∧ ∀ p∈ps, p.family=family

theorem toNat_prefixlen (p : Prefix) : (BitVec.ofNat 8 p.prefixlen).toNat=p.prefixlen := by
  have hle := p.len_le_128
  rw [BitVec.toNat_ofNat]
  omega

theorem psize_prefixlen (p : Prefix) :
    psize (BitVec.ofNat 8 p.prefixlen)=ZapiOperations.psize p.prefixlen := by
  rw [psize,toNat_prefixlen,ZapiOperations.psize]

theorem prefixlenBad_eq (h : OfFamily family (p::ps)) :
    prefixlenBad (afiOf family) (BitVec.ofNat 8 p.prefixlen)=false := by
  have hle := p.len_le
  obtain ⟨hne,hall⟩ := h
  rw [hall p mem_cons_self] at hle
  rw [prefixlenBad,toNat_prefixlen]
  cases family with
  | inet | inet6 => simpa [afiOf,afiIp,afiIp6,Family.maxPrefixlen,Family.bytelen] using hle
  | unspec => exact absurd rfl hne

theorem OfFamily.tail (h : OfFamily family (p::ps)) : OfFamily family ps :=
  ⟨h.1,fun q hq => h.2 q (mem_cons_of_mem p hq)⟩

theorem cut_prefixBytes (p : Prefix) (rest : List (BitVec 8)) :
    ∃ tail, prefixBytes p++rest=BitVec.ofNat 8 p.prefixlen::tail ∧
      ¬tail.length<psize (BitVec.ofNat 8 p.prefixlen) ∧
      tail.take (psize (BitVec.ofNat 8 p.prefixlen))=(fetched p).bytes ∧
      tail.drop (psize (BitVec.ofNat 8 p.prefixlen))=rest := by
  have hlen := length_addressBytes p.u (ZapiOperations.psize p.prefixlen)
  refine ⟨addressBytes p.u _++rest,rfl,?_⟩
  rw [psize_prefixlen,length_append,hlen]
  exact ⟨by omega,take_left' hlen,drop_left' hlen⟩

/-- The bytes that a sane field starts with belong to a prefix. -/
theorem exists_prefixBytes {b : BitVec 8} (hne : family≠.unspec)
    (hbad : prefixlenBad (afiOf family) b=false)
    (hlen : psize b≤rest.length) :
    ∃ p : Prefix, p.family=family ∧ b::rest=prefixBytes p++rest.drop (psize b) := by
  have hle : b.toNat≤family.maxPrefixlen := by
    cases family with
    | inet | inet6 =>
      simpa [prefixlenBad,afiOf,afiIp,afiIp6,Family.maxPrefixlen,Family.bytelen] using hbad
    | unspec => exact absurd rfl hne
  refine ⟨⟨family,b.toNat,addressOf (rest.take (psize b)),hle⟩,rfl,?_⟩
  have hmax := family.maxPrefixlen_le
  have htake : addressBytes (addressOf (rest.take (psize b)))
      (ZapiOperations.psize b.toNat)=rest.take (psize b) := by
    refine ext_getElem (by rw [length_addressBytes,length_take,min_eq_left hlen]; rfl) ?_
    intro i hi hi'
    rw [length_addressBytes,ZapiOperations.psize] at hi
    simp only [addressBytes,getElem_map,getElem_range,byteAt,addressOf]
    rw [dif_pos (by omega),getD_eq_getElem _ _ hi']
  rw [prefixBytes,htake,BitVec.ofNat_toNat,BitVec.setWidth_eq,cons_append,take_append_drop]

theorem nlriSanityLoop_iff (hne : family≠.unspec) (fuel : ℕ) : ∀ bytes, bytes.length≤fuel →
    (nlriSanityLoop (afiOf family) fuel bytes=true ↔
      ∃ ps, OfFamily family ps ∧ bytes=ps.flatMap prefixBytes) := by
  have hnil : ∃ ps, OfFamily family ps ∧ []=ps.flatMap prefixBytes :=
    ⟨[],⟨hne,nofun⟩,rfl⟩
  induction fuel with
  | zero =>
    intro bytes hlen
    obtain rfl := length_eq_zero_iff.mp (Nat.le_zero.mp hlen)
    exact iff_of_true rfl hnil
  | succ fuel ih =>
    intro bytes hlen
    cases bytes with
    | nil => exact iff_of_true rfl hnil
    | cons b rest =>
      rw [length_cons] at hlen
      have hdrop : (rest.drop (psize b)).length≤fuel := by
        rw [length_drop]
        omega
      rw [nlriSanityLoop]
      constructor
      · intro h
        by_cases hbad : prefixlenBad (afiOf family) b=true
        · rw [if_pos hbad] at h
          cases h
        rw [if_neg hbad] at h
        by_cases hshort : rest.length<psize b
        · rw [if_pos hshort] at h
          cases h
        rw [if_neg hshort] at h
        obtain ⟨ps,hps,hrs⟩ := (ih _ hdrop).mp h
        obtain ⟨p,hp,hbs⟩ :=
          exists_prefixBytes hne (Bool.not_eq_true _ ▸ hbad) (Nat.not_lt.mp hshort)
        refine ⟨p::ps,⟨hne,forall_mem_cons.mpr ⟨hp,hps.2⟩⟩,?_⟩
        rw [hbs,hrs,flatMap_cons]
      · rintro ⟨ps,hps,hbs⟩
        cases ps with
        | nil => cases hbs
        | cons p ps =>
          obtain ⟨tail,hcut,hshort,-,hrs⟩ := cut_prefixBytes p (ps.flatMap prefixBytes)
          obtain ⟨rfl,rfl⟩ := cons_eq_cons.mp (hbs.trans hcut)
          rw [prefixlenBad_eq hps,if_neg Bool.false_ne_true,if_neg hshort]
          exact (ih _ hdrop).mpr ⟨ps,hps.tail,hrs⟩

/-- The parser is right exactly when no prefix that ends it stands before one to hand on. -/
theorem nlriParseLoop_iff (refuses : List NlriCall → Bool) (hok : ∀ calls, refuses calls=false)
    (call : NlriPrefix → NlriCall) (safi : BitVec 8) : ∀ ps fuel calls,
    OfFamily family ps → (ps.flatMap prefixBytes).length≤fuel →
    (nlriParseLoop refuses call (afiOf family) safi fuel (ps.flatMap prefixBytes) calls=
        calls++((ps.filter (presentable (afiOf family) safi)).map fun p => call (fetched p)) ↔
      ps.Pairwise fun m p => nlriStops (afiOf family) safi (fetched m)=true →
        presentable (afiOf family) safi p=false) := by
  intro ps
  induction ps with
  | nil =>
    intro fuel calls _ _
    refine iff_of_true ?_ Pairwise.nil
    cases fuel <;> exact (append_nil calls).symm
  | cons p ps ih =>
    intro fuel calls hps hlen
    obtain ⟨tail,hcut,hshort,htake,hdrop⟩ := cut_prefixBytes p (ps.flatMap prefixBytes)
    rw [flatMap_cons,hcut] at hlen ⊢
    cases fuel with
    | zero => cases hlen
    | succ fuel =>
      have hfuel : (ps.flatMap prefixBytes).length≤fuel := by
        have hle := hdrop ▸ length_drop (l := tail)
        rw [length_cons] at hlen
        omega
      rw [nlriParseLoop,prefixlenBad_eq hps,if_neg Bool.false_ne_true,if_neg hshort,htake,
        hdrop,pairwise_cons]
      change (if nlriStops (afiOf family) safi (fetched p)=true then calls
        else if nlriSkips (afiOf family) safi (fetched p)=true then _ else if _ then _ else _)=_ ↔ _
      rw [hok,if_neg Bool.false_ne_true]
      by_cases hstop : nlriStops (afiOf family) safi (fetched p)=true
      · have hno : presentable (afiOf family) safi p=false := by
          rw [presentable,hstop]
          rfl
        rw [if_pos hstop,filter_cons_of_neg (by rw [hno]; exact Bool.false_ne_true),self_eq_append_right,
          map_eq_nil_iff,filter_eq_nil_iff]
        simp only [hstop,forall_const,Bool.not_eq_true]
        refine ⟨fun h => ⟨h,?_⟩,And.left⟩
        exact pairwise_of_forall_mem_list fun m _ q hq _ => h q hq
      rw [if_neg hstop,and_iff_right fun q _ h => absurd h hstop]
      by_cases hskip : nlriSkips (afiOf family) safi (fetched p)=true
      · have hno : presentable (afiOf family) safi p=false := by
          rw [presentable,hskip,Bool.not_true,Bool.and_false]
        rw [if_pos hskip,filter_cons_of_neg (by rw [hno]; exact Bool.false_ne_true)]
        exact ih fuel calls hps.tail hfuel
      have hyes : presentable (afiOf family) safi p=true := by simp [presentable,hstop,hskip]
      rw [if_neg hskip,filter_cons_of_pos hyes,map_cons]
      rw [←ih fuel (calls++[call (fetched p)]) hps.tail hfuel,append_assoc,singleton_append]
      rfl

/-- `stream_put_prefix`, check and parser present the unicast prefixes exactly when no multicast one
is before one. -/
theorem bgpNlriParse_presents_iff (refuses : List NlriCall→Bool)
    (hok : ∀ calls, refuses calls=false) (hne : family≠.unspec) (attr : Option Attr)
    (plain : Bool) (safi : BitVec 8) :
    (∀ bytes, nlriSane (afiOf family) bytes=true ↔
      ∃ ps, OfFamily family ps ∧ bytes=ps.flatMap prefixBytes) ∧
    (∀ (ps : List Prefix) (s : Stream), (ps.flatMap prefixBytes).length ≤ s.writeable →
      (ps.foldl streamPutPrefix s).data=s.data++ps.flatMap prefixBytes) ∧
    (∀ p : Prefix, (⟨p.family,p.prefixlen,addressOf (fetched p).bytes,p.len_le⟩ : Prefix).key=
      p.key) ∧
    ∀ ps, OfFamily family ps →
      (bgpNlriParse refuses attr plain ⟨afiOf family,safi,ps.flatMap prefixBytes⟩ []=
          (ps.filter (presentable (afiOf family) safi)).map
            (fun p => nlriCall attr plain (afiOf family) safi (fetched p)) ↔
        ps.Pairwise fun m p => nlriStops (afiOf family) safi (fetched m)=true →
          presentable (afiOf family) safi p=false) := by
  refine ⟨fun bytes => nlriSanityLoop_iff hne _ bytes le_rfl,fun ps s hroom => ?_,
    fun p => key_addressBytes p,fun ps hps => ?_⟩
  · have hempty : emit s []=s := by
      have hput : s.put []=some (emit s []) := put_emit (Nat.zero_le _)
      obtain ⟨hdata,hgetp,hsize,-⟩ := put_eq_some hput
      exact Stream.ext (hdata.trans (append_nil _)) hgetp hsize
    have hturn : ∀ s xs p, (xs++prefixBytes p).length ≤ s.writeable →
        streamPutPrefix (emit s xs) p=emit s (xs++prefixBytes p) := fun _ _ _ h => emit_emit h
    have hfold := foldl_emit hturn ps [] hroom
    rw [hempty,nil_append] at hfold
    rw [hfold,data_emit hroom]
  have hloop := nlriParseLoop_iff refuses hok (nlriCall attr plain (afiOf family) safi) safi ps
    _ [] hps le_rfl
  rw [nil_append] at hloop
  exact hloop

/-- A multicast prefix hides the one behind it. -/
theorem bgpNlriParse_hides : nlriSane afiIp [4,0xe0,8,10]=true ∧
      bgpNlriParse (fun _ => false) none true ⟨afiIp,safiUnicast,[4,0xe0,8,10]⟩ []=[] ∧
      nlriStops afiIp safiUnicast ⟨8,[10]⟩=false ∧ nlriSkips afiIp safiUnicast ⟨8,[10]⟩=false := by
  decide

/-- 10.0.0.0/8 and 192.0.2.0/24. -/
def samplePrefixes : List Prefix :=
  [samplePrefix,⟨.inet,24,setByte (setByte zeroAddress 0 192) 2 2,by decide⟩]

/-- The two networks are written, pass the check and are presented. -/
theorem bgpNlriParse_presents_inet : nlriSane afiIp [8,10,24,192,0,2]=true ∧
    bgpNlriParse (fun _ => false) none true ⟨afiIp,safiUnicast,[8,10,24,192,0,2]⟩ []=
      samplePrefixes.map (fun p => nlriCall none true afiIp safiUnicast (fetched p)) := by
  obtain ⟨hsane,-,-,hpresents⟩ :=
    bgpNlriParse_presents_iff (fun _ => false) (fun _ => rfl) (by decide : Family.inet≠.unspec)
      none true safiUnicast
  have hfamily : OfFamily .inet samplePrefixes :=
    ⟨by decide,forall_mem_cons.mpr ⟨rfl,forall_mem_singleton.mpr rfl⟩⟩
  exact ⟨(hsane _).mpr ⟨samplePrefixes,hfamily,rfl⟩,
    (hpresents samplePrefixes hfamily).mpr (by decide)⟩

end RoutePlatform.NlriCodec
