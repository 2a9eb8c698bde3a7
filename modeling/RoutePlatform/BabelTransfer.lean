import RoutePlatform.BabelParsing

/-!
# Babel: updates come out of a packet as they went in

The parser, having read what the buffer holds, knows what the sender relies on: the router id, the
IPv4 next hop and the IPv6 default prefix. So every update is told to `update_route` with the
values that it was sent with.
-/

namespace RoutePlatform.BabelPackets

open ReadTrace ReadTrace.Reading List BitVec

variable {mem : Memory} {R : Receiver} {neighbour : Address} {bodylen : ℕ} {a : Address}
  {rest : List Byte} {interval : BitVec 16} {plen len : ℕ} {body : List Byte} {u : UpdateCall}
  {type : Byte} {b : Address} {off omitted : ℕ} {nh : Ipv4} {p : Parser}

/-- The loop gets from one offset and state to the next. -/
def TurnStep (mem : Memory) (R : Receiver) (neighbour : Address) (bodylen : ℕ)
    (x y : ℕ × Parser) : Prop :=
  x.1<bodylen ∧ x.1<y.1 ∧ (turn R neighbour bodylen x.1 x.2).value mem=.next y.1 y.2

/-- Where the turns lead to the end of the body the loop ends there. -/
theorem parseLoop_of_steps {x : ℕ × Parser}
    (h : Relation.ReflTransGen (TurnStep mem R neighbour bodylen) x (bodylen,p)) :
    ∀ fuel, bodylen≤fuel+x.1 → (parseLoop R neighbour bodylen fuel x.1 x.2).value mem=some p := by
  induction h using Relation.ReflTransGen.head_induction_on with
  | refl =>
    intro fuel _
    cases fuel with
    | zero | succ fuel =>
      rw [parseLoop,if_neg (lt_irrefl _)]
      rfl
  | head hstep _ ih =>
    intro fuel hfuel
    obtain ⟨hlt,hgrow,hnext⟩ := hstep
    cases fuel with
    | zero => omega
    | succ fuel =>
      rw [parseLoop,if_pos hlt,value_bind,hnext]
      exact ih fuel (by omega)

variable {p' : Parser}

theorem turnStep_of_message {i : ℕ}
    (hsto : Stored mem (4+i) ([type,BitVec.ofNat 8 body.length]++body)) (hty : type≠0)
    (hshort : body.length<256) (hroom : i+body.length+2≤bodylen)
    (hparse : (parseMessage R neighbour (4+i) type.toNat body.length p).value mem=some p') :
    TurnStep mem R neighbour bodylen (i,p) (i+body.length+2,p') := by
  have hmem0 : mem (4+i)=type := hsto.getD (k := 0) (by simp)
  have hmem1 : mem (4+i+1)=BitVec.ofNat 8 body.length := hsto.getD (k := 1) (by simp)
  have hlen : (BitVec.ofNat 8 body.length).toNat=body.length := by
    rw [toNat_ofNat]
    exact Nat.mod_eq_of_lt hshort
  refine ⟨by omega,by omega,?_⟩
  rw [turn,value_bind,value_byte,hmem0,if_neg hty,if_neg (by omega),value_bind,value_byte,
    hmem1,hlen,if_neg (by omega),value_bind,hparse]
  rfl

theorem value_bytes_of_stored {l : List Byte} (h : Stored mem off l) (hn : l.length=n) :
    (bytes off n).value mem=l := by
  rw [←hn,value_bytes]
  refine ext_getElem (by simp) fun k _ hk => ?_
  rw [getElem_map,getElem_range]
  exact h k hk

theorem u16_short {x : BitVec 16} (h : Stored mem off (short x)) : (u16 off).value mem=x.toNat := by
  have h0 : mem off=x.extractLsb' 8 8 := h.getD (k := 0) (by simp [short])
  have h1 : mem (off+1)=x.extractLsb' 0 8 := h.getD (k := 1) (by simp [short])
  rw [value_u16,h0,h1,extractLsb'_toNat,extractLsb'_toNat]
  omega

/-- A prefix that is masked to its length already. -/
structure Masked (a : Address) (plen : ℕ) : Prop where
  le : plen≤128
  eq : maskPrefix a plen=a

theorem maskPrefix_congr (h : ∀ k : Fin 16, k.val<(plen+7)/8 → a k=b k) :
    maskPrefix a plen=maskPrefix b plen := by
  funext k
  rw [maskPrefix,maskPrefix]
  split
  · exact h k (by omega)
  split
  · rw [h k (by omega)]
  · rfl

theorem Masked.of_agree (hm : Masked a plen) (h : ∀ k : Fin 16, k.val<(plen+7)/8 → b k=a k) :
    maskPrefix b plen=a :=
  (maskPrefix_congr h).trans hm.eq

theorem octet_val (a : Address) (k : Fin 16) : octet a k.val=a k := by rw [octet,dif_pos k.isLt]

theorem v4mapped_iff : v4mapped a=true ↔ ∀ k : Fin 16, k.val<12 → a k= v4prefix k := by
  rw [v4mapped,decide_eq_true_iff]

theorem Masked.not_mapped (hm : Masked a plen) (h : isV4 a plen=false) : v4mapped a=false := by
  by_contra hmapped
  rw [Bool.not_eq_false] at hmapped
  rw [isV4,hmapped,Bool.and_true,decide_eq_false_iff_not] at h
  have hk := v4mapped_iff.mp hmapped (Fin.mk 11 (by decide)) (by decide)
  rw [←hm.eq,maskPrefix] at hk
  have hff : v4prefix (Fin.mk 11 (by decide))=0xFF := rfl
  rw [hff,if_neg (by dsimp only; omega)] at hk
  split at hk
  · have hlow : (BitVec.ofNat 8 (0xFF <<< (8-plen%8))).getLsbD 0=false := by
      rw [getLsbD_ofNat]
      simp
      omega
    have hbit := congrArg (fun b => b.getLsbD 0) hk
    simp only [getLsbD_and,hlow,Bool.and_false] at hbit
    cases hbit
  · cases hk

theorem getD_bytesFrom {pos n k : ℕ} (h : k<n) : (bytesFrom a pos n).getD k 0=octet a (pos+k) := by
  rw [bytesFrom,getD_eq_getElem?_getD,getElem?_map,getElem?_range h]
  rfl

@[simp] theorem length_bytesFrom (a : Address) (pos n : ℕ) : (bytesFrom a pos n).length=n := by
  simp [bytesFrom]

theorem networkPrefix_v4 {p : ℕ} {dp : Option Address} (hm : Masked a plen) (hv4 : isV4 a plen=true)
    (hsto : Stored mem p (bytesFrom a 12 ((plen-96+7)/8))) (hlen : (plen-96+7)/8≤len) :
    (networkPrefix 1 ((plen-96 : ℕ) : ℤ) 0 p dp len).value mem = ⟨((plen-96+7)/8 : ℕ),a,false⟩ := by
  rw [isV4,Bool.and_eq_true,decide_eq_true_iff] at hv4
  obtain ⟨h96,hmapped⟩ := hv4
  have hle := hm.le
  have hpb : prefixBytes 1 ((plen-96 : ℕ) : ℤ)=(plen-96+7)/8 := by
    rw [prefixBytes,if_pos (Int.natCast_nonneg _),Int.toNat_natCast]
  have hbs : (bytes p ((plen-96+7)/8)).value mem = bytesFrom a 12 ((plen-96+7)/8) :=
    value_bytes_of_stored hsto (by rw [length_bytesFrom])
  rw [networkPrefix,hpb]
  rw [if_neg (by omega),if_neg (by omega),if_pos rfl,if_neg (by omega),if_neg (by simp),
    value_bind,Nat.sub_zero,hbs,if_neg (by omega),if_pos rfl,Int.toNat_natCast,
    Nat.sub_add_cancel h96]
  have hmask := hm.of_agree (b := copyTo (copyFirst (copyFirst (fun _ => 0) 12 v4prefix)
    0 (dp.getD v4prefix)) (12+0)
    (bytesFrom a 12 ((plen-96+7)/8))) (fun k hk => by
      rw [copyTo,length_bytesFrom]
      split
      · rw [getD_bytesFrom (by omega)]
        have hval : 12+(k.val-(12+0))=k.val := by omega
        rw [hval,octet_val]
      · have hlt : k.val<12 := by omega
        rw [copyFirst,if_neg (by simp),copyFirst,if_pos hlt]
        exact (v4mapped_iff.mp hmapped k hlt).symm)
  change NetworkPrefix.mk _ (maskPrefix _ plen) _=_
  rw [hmask]
  simp

/-- An IPv6 prefix is decoded from the bytes that it does not share with the default
prefix. -/
theorem networkPrefix_v6 {dp : Address} {p : ℕ} (hm : Masked a plen)
    (hdp : omitted≠0 → v4mapped dp=false) (homitted : omitted≤plen/8)
    (hshared : ∀ k<omitted, octet dp k=octet a k)
    (hsto : Stored mem p (bytesFrom a omitted ((plen+7)/8-omitted)))
    (hlen : (plen+7)/8-omitted≤len) :
    (networkPrefix 2 (plen : ℤ) omitted p (some dp) len).value mem =
      ⟨((plen+7)/8-omitted : ℕ),a,omitted≠0⟩ := by
  have hle := hm.le
  have hpb : prefixBytes 2 (plen : ℤ)=(plen+7)/8 := by
    rw [prefixBytes,if_pos (Int.natCast_nonneg _),Int.toNat_natCast]
  have hbs : (bytes p ((plen+7)/8-omitted)).value mem =
      bytesFrom a omitted ((plen+7)/8-omitted) :=
    value_bytes_of_stored hsto (by rw [length_bytesFrom])
  have hdefault : ¬(omitted≠0 ∧ (!((some dp).any fun a => !v4mapped a))=true) := by
    rintro ⟨hne,hmapped⟩
    simp [hdp hne] at hmapped
  rw [networkPrefix,hpb]
  rw [if_neg (by omega),if_neg (by omega),if_neg (by omega),if_pos rfl,if_neg (by omega),
    if_neg hdefault,value_bind,hbs,if_neg (by omega),if_neg (by omega),Int.toNat_natCast]
  have hmask := hm.of_agree (b := copyTo (copyFirst (fun _ => 0) omitted ((some dp).getD v4prefix))
    omitted (bytesFrom a omitted ((plen+7)/8-omitted))) (fun k hk => by
      rw [copyTo,length_bytesFrom]
      split
      · rw [getD_bytesFrom (by omega)]
        have hval : omitted+(k.val-omitted)=k.val := by omega
        rw [hval,octet_val]
      · have hlt : k.val<omitted := by omega
        rw [copyFirst,if_pos hlt]
        have h := hshared k.val hlt
        rw [octet_val,octet_val] at h
        exact h)
  change NetworkPrefix.mk _ (maskPrefix _ plen) _=_
  rw [hmask]
  congr 1
  omega

/-- The bytes that are left out are shared, and whole bytes of the prefix. -/
theorem omitLoop_spec (buffered a : Address) (bound fuel : ℕ) :
    ∀ {omitted}, omitted≤bound → (∀ k<omitted, octet buffered k=octet a k) →
      omitLoop buffered a bound fuel omitted≤bound ∧
      ∀ k<omitLoop buffered a bound fuel omitted, octet buffered k=octet a k := by
  induction fuel with
  | zero => exact fun hle hshared => ⟨hle,hshared⟩
  | succ fuel ih =>
    intro omitted hle hshared
    rw [omitLoop]
    split
    · rename_i h
      refine ih (by omega) fun k hk => ?_
      by_cases hk' : k<omitted
      · exact hshared k hk'
      rw [show k=omitted by omega]
      exact h.2
    · exact ⟨hle,hshared⟩

/-- What is compared of a call of `update_route`. -/
def Call.route : Call→Option (RouterId × Address × ℕ × ℕ × ℕ × Address)
  | .updateRoute routerId pfx plen seqno metric _ nh _ => some (routerId,pfx,plen,seqno,metric,nh)
  | _ => none

/-- The calls of `update_route`. -/
def Parser.routes (p : Parser) : List (RouterId × Address × ℕ × ℕ × ℕ × Address) :=
  p.calls.filterMap Call.route

/-- What a receiver is to be told: no IPv4 prefix where its interface has no IPv4 address. -/
def told (R : Receiver) (neighbour : Address) (a : Announced) :
    Option (RouterId × Address × ℕ × ℕ × ℕ × Address) :=
  match a.nexthop with
  | none => some (a.id,a.pfx,a.plen,a.seqno.toNat,a.metric.toNat,neighbour)
  | some nh =>
    if R.ipv4 then some (a.id,a.pfx,a.plen,a.seqno.toNat,a.metric.toNat,v4tov6 nh) else none

/-- The parser knows what the sender relies on and has called for the buffered updates. -/
structure Knows (R : Receiver) (neighbour : Address) (s : Sender) (p : Parser) : Prop where
  id : s.haveBufferedId=true → p.haveRouterId=true ∧ p.routerId=s.bufferedId
  nh : s.haveBufferedNh=true → p.haveV4Nh=true ∧ p.v4Nh=v4tov6 s.bufferedNh
  dp : s.haveBufferedPrefix=true → p.haveV6Prefix=true ∧ p.v6Prefix=s.bufferedPrefix ∧
    v4mapped s.bufferedPrefix=false
  noNh : p.haveV6Nh=false
  routes : p.routes=s.updates.filterMap (told R neighbour)

/-- From the start of the buffer the parser gets to its end and knows what the sender relies on. -/
def Readable (s : Sender) : Prop :=
  ∀ (R : Receiver) (neighbour : Address) (k : Stack) (mem : Memory) (bodylen : ℕ),
    Stored mem 4 s.sendbuf → s.sendbuf.length≤bodylen →
      ∃ p, Relation.ReflTransGen (TurnStep mem R neighbour bodylen) (0,Parser.start k)
        (s.sendbuf.length,p) ∧ Knows R neighbour s p

/-- A message that is appended to the buffer is parsed next. -/
theorem Readable.message {s s' : Sender} (hs : Readable s) (hty : type≠0)
    (hshort : body.length<256)
    (hbuf : s'.sendbuf=s.sendbuf++([type,BitVec.ofNat 8 body.length]++body))
    (hparse : ∀ R neighbour mem m p, Knows R neighbour s p → Stored mem (m+2) body →
      ∃ p', (parseMessage R neighbour m type.toNat body.length p).value mem=some p' ∧ Knows R neighbour s' p') :
    Readable s' := by
  intro R neighbour k mem bodylen hsto hlen
  rw [hbuf] at hsto hlen
  obtain ⟨hold,hnew⟩ := stored_append.mp hsto
  simp only [length_append,length_cons,length_nil] at hlen
  obtain ⟨p,hsteps,hknows⟩ := hs R neighbour k mem bodylen hold (by omega)
  have hbody : Stored mem (4+s.sendbuf.length+2) body := (stored_append.mp hnew).2
  obtain ⟨p',hp',hknows'⟩ := hparse R neighbour mem (4+s.sendbuf.length) p hknows hbody
  refine ⟨p',hsteps.tail ?_,hknows'⟩
  have hstep : TurnStep mem R neighbour bodylen (s.sendbuf.length,p)
      (s.sendbuf.length+body.length+2,p') :=
    turnStep_of_message hnew hty hshort (by omega) hp'
  have hend : s'.sendbuf.length=s.sendbuf.length+body.length+2 := by
    rw [hbuf]
    simp only [length_append,length_cons,length_nil]
    omega
  rw [hend]
  exact hstep

variable {s : Sender} {p : Parser} {m : ℕ}

/-- A message that is no router id, next hop or update leaves alone what the parser
knows. -/
theorem parseMessage_other (mem : Memory) (R : Receiver) (neighbour : Address)
    (m : ℕ) {type : ℕ} (len : ℕ) (p : Parser) (h6 : type≠6) (h7 : type≠7) (h8 : type≠8) :
    ∃ p', (parseMessage R neighbour m type len p).value mem=some p' ∧ OnlyCalls p p' ∧
      p'.routes=p.routes := by
  have hcall : ∀ c, c.route=none →
      ∃ p', some (p.call c)=some p' ∧ OnlyCalls p p' ∧ p'.routes=p.routes := by
    intro c hc
    refine ⟨_,rfl,rfl,?_⟩
    rw [Parser.routes,Parser.call,filterMap_append,filterMap_cons_none hc,filterMap_nil,append_nil]
    rfl
  have hsame : ∃ p', some p=some p' ∧ OnlyCalls p p' ∧ p'.routes=p.routes := ⟨p,rfl,rfl,rfl⟩
  rw [parseMessage]
  split
  · rw [value_map,parseAckReq]
    split
    · exact hsame
    · exact hcall _ rfl
  split
  · rw [value_map,parseHello]
    split
    · exact hsame
    · exact hcall _ rfl
  split
  · rw [value_map,parseIhu]
    split
    · exact hsame
    simp only [value_bind]
    split
    · exact hsame
    split
    · exact hcall _ rfl
    · exact hsame
  split
  · rw [value_map,parseRequest]
    split
    · exact hsame
    simp only [value_bind]
    split
    · exact hsame
    split <;> exact hcall _ rfl
  split
  · rw [value_map,parseMhRequest]
    split
    · exact hsame
    simp only [value_bind]
    split
    · exact hsame
    · exact hcall _ rfl
  · exact hsame

theorem Knows.onlyCalls (h : Knows R neighbour s p) (honly : OnlyCalls p p')
    (hrts : p'.routes=p.routes) : Knows R neighbour s p' := by
  rw [OnlyCalls] at honly
  rw [honly] at hrts ⊢
  exact ⟨h.id,h.nh,h.dp,h.noNh,hrts.trans h.routes⟩

theorem parseRouterId_stored {id : RouterId} (hsto : Stored mem (m+2) ([0,0]++List.ofFn id)) :
    (parseMessage R neighbour m 6 ([0,0]++List.ofFn id).length p).value mem =
      some {p with routerId := id,haveRouterId := true} := by
  have hbs : (bytes (m+4) 8).value mem=ofFn id :=
    value_bytes_of_stored (stored_append.mp hsto).2 length_ofFn
  have hid : (fun k : Fin 8 => (ofFn id).getD k.val 0)=id := by
    funext k
    rw [getD_eq_getElem?_getD,List.getElem?_ofFn,dif_pos k.isLt]
    rfl
  have hlen : ([0,0]++ofFn id : List Byte).length=10 := by simp
  rw [hlen]
  change some ((parseRouterId m 10 p).value mem)=_
  rw [parseRouterId,if_neg (by omega),value_bind,hbs]
  change some {p with routerId := fun k : Fin 8 => (ofFn id).getD k.val 0,haveRouterId := true}=_
  rw [hid]

/-- An IPv4 next hop is taken over. -/
theorem parseNh_stored (hsto : Stored mem (m+2) ([1,0]++List.ofFn nh)) :
    (parseMessage R neighbour m 7 ([1,0]++List.ofFn nh).length p).value mem =
      some {p with v4Nh := v4tov6 nh,haveV4Nh := true} := by
  have hae : mem (m+2)=1 := hsto.getD (k := 0) (by simp)
  have hbs : (bytes (m+4) 4).value mem=ofFn nh :=
    value_bytes_of_stored (stored_append.mp hsto).2 length_ofFn
  have hlen : ([1,0]++ofFn nh : List Byte).length=6 := by simp
  have haddr : (networkAddress (1 : Byte).toNat (m+4) (6-2)).value mem =
      ⟨4,v4tov6 nh,false⟩ := by
    have hval : (networkAddress (1 : Byte).toNat (m+4) (6-2)).value mem=⟨4,maskPrefix (copyTo (copyFirst
        (copyFirst (fun _ => 0) 12 v4prefix) 0 v4prefix) 12 ((bytes (m+4) 4).value mem)) 128,
        false⟩ := rfl
    rw [hval,hbs]
    congr 1
    funext k
    rw [maskPrefix,if_pos (.inl le_rfl),copyTo,length_ofFn,v4tov6]
    by_cases hk : 12≤k.val
    · rw [if_pos ⟨hk,by omega⟩,dif_pos hk,getD_eq_getElem?_getD,List.getElem?_ofFn,
        dif_pos (by omega)]
      rfl
    rw [if_neg (fun h => hk h.1),dif_neg hk,copyFirst,if_neg (Nat.not_lt_zero _),copyFirst,
      if_pos (by omega)]
  rw [hlen]
  change some ((parseNh m 6 p).value mem)=_
  rw [parseNh,if_neg (by omega),value_bind,value_byte,hae,value_bind,haddr]
  rfl

/-- The fields of an update as they are stored. -/
structure UpdateStored (mem : Memory) (m : ℕ) (ae flags plen omitted : Byte)
    (seqno metric : BitVec 16) : Prop where
  ae : mem (m+2)=ae
  flags : mem (m+3)=flags
  plen : mem (m+4)=plen
  /-- The number of bytes left out. -/
  omitted : mem (m+5)=omitted
  seqno : (u16 (m+8)).value mem=seqno.toNat
  metric : (u16 (m+10)).value mem=metric.toNat

theorem updateStored {ae flags plen omitted : Byte} {seqno metric : BitVec 16} (h : Stored mem (m+2)
      ([ae,flags,plen,omitted]++short interval ++ short seqno++short metric++rest)) :
    UpdateStored mem m ae flags plen omitted seqno metric ∧ Stored mem (m+12) rest := by
  obtain ⟨h,hrs⟩ := stored_append.mp h
  obtain ⟨h,hmet⟩ := stored_append.mp h
  obtain ⟨h,hseqno⟩ := stored_append.mp h
  exact ⟨⟨h.getD (k := 0) (by simp),h.getD (k := 1) (by simp),h.getD (k := 2) (by simp),
    h.getD (k := 3) (by simp),u16_short hseqno,u16_short hmet⟩,hrs⟩

theorem updateFound_routes (mem : Memory) (R : Receiver) (neighbour : Address)
    (m len parsedLen plen interval seqno metric : ℕ) {ae : ℕ} {nh : Address} (p : Parser)
    (hid : p.haveRouterId=true) (hae : ae≠0) (hnh : p.nextHop ae neighbour=some nh) :
    ∃ p', (updateFound R neighbour m len parsedLen ae plen interval seqno metric a p).value mem =
        some p' ∧ OnlyCalls p p' ∧
      p'.routes=p.routes++if ae=1 ∧ R.ipv4=false then []
        else [(p.routerId,a,plen,seqno,metric,nh)] := by
  rw [updateFound,if_neg (by rw [hid]; simp),if_neg hae,hnh]
  dsimp only
  by_cases hv4 : ae=1 ∧ R.ipv4=false
  · rw [if_pos hv4,if_pos ⟨hv4.1,by rw [hv4.2]; rfl⟩,append_nil]
    exact ⟨p,rfl,rfl,rfl⟩
  obtain ⟨channels,hchannels⟩ := Option.isSome_iff_exists.mp
    (updateChannels_isSome mem R m len parsedLen metric)
  rw [if_neg hv4,if_neg (fun h => hv4 ⟨h.1,by simpa using h.2⟩),value_bind,hchannels]
  refine ⟨_,rfl,rfl,?_⟩
  change (p.calls++[_]).filterMap Call.route=_
  rw [filterMap_append]
  rfl

/-- The flags of an IPv6 update. -/
def v6Flags (sets carries : Bool) : Byte :=
  (if sets then 0x80 else 0) ||| (if carries then 0x40 else 0)

theorem v6Flags_spec (sets carries : Bool) :
    flag (v6Flags sets carries) 7=sets ∧ flag (v6Flags sets carries) 6=carries ∧
      v6Flags sets carries≠1 := by
  cases sets <;> cases carries <;> decide

theorem toNat_ofNat_byte {k : ℕ} (h : k<256) : (BitVec.ofNat 8 k).toNat=k := by
  rw [toNat_ofNat]
  exact Nat.mod_eq_of_lt h

/-- What the parser knows after an update. -/
structure Learns (p p' : Parser) (id : RouterId) (dp : Option Address)
    (routes : List (RouterId × Address × ℕ × ℕ × ℕ × Address)) : Prop where
  id : p'.haveRouterId=true ∧ p'.routerId=id
  nh : p'.haveV4Nh=p.haveV4Nh ∧ p'.v4Nh=p.v4Nh
  noNh : p'.haveV6Nh=p.haveV6Nh
  /-- The IPv6 default prefix is the new one, or stays. -/
  dp : match dp with
    | none => p'.haveV6Prefix=p.haveV6Prefix ∧ p'.v6Prefix=p.v6Prefix
    | some a => p'.haveV6Prefix=true ∧ p'.v6Prefix=a
  routes : p'.routes=p.routes++routes

/-- An update is taken in where the parser has a router id and a next hop for it: what it
learns then is what it has learned of the prefix, and the route. -/
theorem parseUpdate_learns {ae flags plen omitted : Byte} {seqno metric : BitVec 16} {used : Bool}
    {dp : Option Address} {id : RouterId} {nh : Address} {k n : ℕ} (hlen : 10≤len) (hae : ae.toNat≠0)
    (hf : UpdateStored mem m ae flags plen omitted seqno metric)
    (hd : (decodeUpdate m len p ae flags plen omitted).value mem=⟨k,a,used⟩)
    (hn : (plen.toNat+if ae.toNat=1 then 96 else 0)%256=n)
    (hq : Learns p ((p.noteUse used ae.toNat).takePrefix ae.toNat flags a) id dp [])
    (hnh : ((p.noteUse used ae.toNat).takePrefix ae.toNat flags a).nextHop ae.toNat neighbour=some nh) :
    ∃ p', (parseUpdate R neighbour m len p).value mem=some p' ∧
      Learns p p' id dp (if ae.toNat=1 ∧ R.ipv4=false then []
        else [(id,a,n,seqno.toNat,metric.toNat,nh)]) := by
  obtain ⟨p',hp',honly,hcalls⟩ := updateFound_routes mem R neighbour m len (10+k) n
    ((u16 (m+6)).value mem) seqno.toNat metric.toNat (a := a) _ hq.id.1 hae hnh
  refine ⟨p',?_,?_⟩
  · rw [parseUpdate_value mem R neighbour m p (by omega)]
    dsimp only
    rw [hf.ae,hf.flags,hf.plen,hf.omitted,hd,hf.seqno,hf.metric,
      if_neg (not_lt.mpr (Int.natCast_nonneg _)),hn,Int.toNat_natCast]
    exact hp'
  rw [hq.id.2,hq.routes,append_nil] at hcalls
  rw [OnlyCalls] at honly
  rw [honly] at hcalls ⊢
  exact ⟨hq.id,hq.nh,hq.noNh,hq.dp,hcalls⟩

section

variable (hknows : Knows R neighbour s p)
include hknows

/-- An IPv6 update is parsed. -/
theorem parseUpdate_v6 {sets carries : Bool} (hm : Masked u.pfx u.plen)
    (hcarries : if carries then idInPrefix u.id u.pfx u.plen=true
      else s.haveBufferedId=true ∧ s.bufferedId=u.id)
    (homitted : omitted≠0 → s.haveBufferedPrefix=true) (hle : omitted≤u.plen/8)
    (hshared : ∀ k<omitted, octet s.bufferedPrefix k=octet u.pfx k)
    (hlen : len=10+((u.plen+7)/8-omitted)+rest.length)
    (hsto : Stored mem (m+2) ([2,v6Flags sets carries,BitVec.ofNat 8 u.plen,
      BitVec.ofNat 8 omitted]++short interval++short u.seqno++short u.metric ++
        (bytesFrom u.pfx omitted ((u.plen+7)/8-omitted)++rest))) :
    ∃ p', (parseUpdate R neighbour m len p).value mem=some p' ∧
      Learns p p' u.id (if sets then some u.pfx else none)
        [(u.id,u.pfx,u.plen,u.seqno.toNat,u.metric.toNat,neighbour)] := by
  have hplen := hm.le
  obtain ⟨hfields,hbody⟩ := updateStored hsto
  obtain ⟨hpfx,-⟩ := stored_append.mp hbody
  obtain ⟨hsets,hid,hone⟩ := v6Flags_spec sets carries
  have hdecoded : (decodeUpdate m len p 2 (v6Flags sets carries) (BitVec.ofNat 8 u.plen)
      (BitVec.ofNat 8 omitted)).value mem =
      ⟨((u.plen+7)/8-omitted : ℕ),u.pfx,omitted≠0⟩ := by
    have hmay : p.mayDecode (v6Flags sets carries) omitted=true := by
      rw [Parser.mayDecode,if_neg hone]
      by_cases h0 : omitted=0
      · rw [h0]
        rfl
      · rw [(hknows.dp (homitted h0)).1,Bool.or_true]
    have hdp : omitted≠0 → v4mapped p.v6Prefix=false := by
      intro h0
      obtain ⟨-,heq,hmapped⟩ := hknows.dp (homitted h0)
      rw [heq]
      exact hmapped
    rw [decodeUpdate,toNat_ofNat_byte (by omega),toNat_ofNat_byte (by omega),if_pos hmay]
    refine networkPrefix_v6 hm hdp hle (fun k hk => ?_) hpfx (by omega)
    have h0 : omitted≠0 := by omega
    change octet p.v6Prefix k=_
    rw [(hknows.dp (homitted h0)).2.1]
    exact hshared k hk
  have hq : Learns p ((p.noteUse (decide (omitted≠0)) 2).takePrefix 2 (v6Flags sets carries) u.pfx)
      u.id (if sets then some u.pfx else none) [] := by
    have hcarried : idInPrefix u.id u.pfx u.plen=true → idOfPrefix 2 u.pfx=u.id := by
      intro h
      rw [idInPrefix,Bool.and_eq_true,decide_eq_true_iff,decide_eq_true_iff] at h
      funext k
      exact h.2 k
    have hkept : carries=false → p.haveRouterId=true ∧ p.routerId=u.id := by
      intro hno
      rw [hno,if_neg Bool.false_ne_true] at hcarries
      obtain ⟨hhave,heq⟩ := hknows.id hcarries.1
      exact ⟨hhave,heq.trans hcarries.2⟩
    rw [Parser.takePrefix,Parser.takeId,Parser.takeDefault,hsets,hid]
    cases carries with
    | true =>
      rw [if_pos rfl] at hcarries
      cases sets <;> exact ⟨⟨rfl,hcarried hcarries⟩,⟨rfl,rfl⟩,rfl,⟨rfl,rfl⟩,(append_nil _).symm⟩
    | false => cases sets <;> exact ⟨hkept rfl,⟨rfl,rfl⟩,rfl,⟨rfl,rfl⟩,(append_nil _).symm⟩
  have hnh : ((p.noteUse (decide (omitted≠0)) 2).takePrefix 2 (v6Flags sets carries) u.pfx).nextHop 2
      neighbour=some neighbour := by
    rw [Parser.nextHop,if_neg (by decide),hq.noNh,hknows.noNh]
    rfl
  have hn : ((BitVec.ofNat 8 u.plen).toNat+0)%256=u.plen := by
    rw [toNat_ofNat_byte (by omega)]
    exact Nat.mod_eq_of_lt (by omega)
  exact parseUpdate_learns (by omega) (show (2 : Byte).toNat≠0 by decide) hfields hdecoded hn hq hnh

/-- An IPv4 update is parsed. -/
theorem parseUpdate_v4 (hm : Masked u.pfx u.plen) (hv4 : isV4 u.pfx u.plen=true)
    (hid : s.haveBufferedId=true ∧ s.bufferedId=u.id)
    (hnh : s.haveBufferedNh=true ∧ s.bufferedNh=nh) (hlen : len=10+(u.plen-96+7)/8+rest.length)
    (hsto : Stored mem (m+2) ([1,0,BitVec.ofNat 8 (u.plen-96),BitVec.ofNat 8 0] ++
      short interval++short u.seqno++short u.metric ++ (bytesFrom u.pfx 12 ((u.plen-96+7)/8)++rest))) :
    ∃ p', (parseUpdate R neighbour m len p).value mem=some p' ∧
      Learns p p' u.id none (if R.ipv4=false then []
        else [(u.id,u.pfx,u.plen,u.seqno.toNat,u.metric.toNat,v4tov6 nh)]) := by
  have hplen := hm.le
  have h96 : 96≤u.plen := by
    rw [isV4,Bool.and_eq_true,decide_eq_true_iff] at hv4
    exact hv4.1
  obtain ⟨hfields,hbody⟩ := updateStored hsto
  obtain ⟨hpfx,-⟩ := stored_append.mp hbody
  have hdecoded : (decodeUpdate m len p 1 0 (BitVec.ofNat 8 (u.plen-96))
      (BitVec.ofNat 8 0)).value mem=⟨((u.plen-96+7)/8 : ℕ),u.pfx,false⟩ := by
    have hmay : p.mayDecode 0 0=true := rfl
    rw [decodeUpdate,toNat_ofNat_byte (by omega),toNat_ofNat_byte (by omega),if_pos hmay]
    exact networkPrefix_v4 hm hv4 hpfx (by omega)
  obtain ⟨hhave,hrid⟩ := hknows.id hid.1
  obtain ⟨hhaveNh,hpnh⟩ := hknows.nh hnh.1
  have hq : Learns p ((p.noteUse false 1).takePrefix 1 0 u.pfx) u.id none [] :=
    ⟨⟨hhave,hrid.trans hid.2⟩,⟨rfl,rfl⟩,rfl,⟨rfl,rfl⟩,(append_nil _).symm⟩
  have hnext : ((p.noteUse false 1).takePrefix 1 0 u.pfx).nextHop 1 neighbour=some (v4tov6 nh) := by
    rw [Parser.nextHop,if_pos rfl,hq.nh.1,hhaveNh,if_pos rfl,hq.nh.2,hpnh,hnh.2]
  have hn : ((BitVec.ofNat 8 (u.plen-96)).toNat+96)%256=u.plen := by
    rw [toNat_ofNat_byte (by omega),Nat.sub_add_cancel h96]
    exact Nat.mod_eq_of_lt (by omega)
  have h := parseUpdate_learns (R := R) (by omega) (show (1 : Byte).toNat≠0 by decide) hfields
    hdecoded hn hq hnext
  simpa using h

theorem parseUpdate_retraction {myseqno : BitVec 16}
    (hsto : Stored mem (m+2) (retractionBody myseqno)) :
    ∃ p', (parseUpdate R neighbour m 10 p).value mem=some p' ∧
      Knows R neighbour {s with haveBufferedId := false} p' := by
  have hsto' : Stored mem (m+2) ([0,0x40,0,0]++short 0xFFFF++short myseqno ++
      short 0xFFFF++[]) := by
    rw [append_nil]
    exact hsto
  obtain ⟨hfields,-⟩ := updateStored hsto'
  rw [parseUpdate_value mem R neighbour m p (by omega)]
  rw [hfields.ae,hfields.flags,hfields.plen,hfields.omitted,hfields.seqno,hfields.metric]
  refine ⟨_,rfl,⟨nofun,hknows.nh,hknows.dp,hknows.noNh,?_⟩⟩
  change (p.calls++[_]).filterMap Call.route=_
  rw [filterMap_append]
  change p.routes++[]=_
  rw [append_nil]
  exact hknows.routes

end

end RoutePlatform.BabelPackets
