import RoutePlatform.BabelTransfer

/-!
# Babel: runs of an interface

Whatever is sent on an interface and wherever its buffer is flushed, the buffer and
all packets stay readable, and they hold the updates that passed the guards of
`really_send_update`, in order.
-/

namespace RoutePlatform.BabelPackets

open ReadTrace ReadTrace.Reading List Sender

variable {s s' : Sender} {u : UpdateCall} {body : List Byte} {type : Byte}

/-- A packet tells a receiver that it reaches the updates that were put into it. -/
def Packet.Received (P : Packet) : Prop :=
  ∀ (R : Receiver) (neighbour : Address) (k : Stack) (mem : Memory), R.fromLinklocal=true →
    R.neighbour=some neighbour → Stored mem 0 P.bytes → P.bytes.length<65536 →
      ∃ p, (parsePacket R k P.bytes.length).value mem=some p ∧
        p.routes=P.updates.filterMap (told R neighbour)

/-- What holds of an interface between actions. -/
structure Sound (s : Sender) : Prop where
  readable : Readable s
  received : ∀ P∈s.packets, P.Received
  empty : s.sendbuf=[] → s.updates=[]

/-- All updates so far, in order. -/
def Sender.log (s : Sender) : List Announced := s.packets.flatMap Packet.updates++s.updates

/-- The parts of an interface that sending does not change. -/
structure Same (s s' : Sender) : Prop where
  up : s'.up=s.up
  ipv4 : s'.ipv4=s.ipv4
  mtu : s'.mtu=s.mtu
  packets : s'.packets=s.packets

theorem Same.trans {s'' : Sender} (h : Same s s') (h' : Same s' s'') : Same s s'' :=
  ⟨h'.up.trans h.up,h'.ipv4.trans h.ipv4,h'.mtu.trans h.mtu,h'.packets.trans h.packets⟩

theorem Same.bufsize (h : Same s s') : s'.bufsize=s.bufsize := by
  rw [Sender.bufsize,Sender.bufsize,h.mtu]

theorem sixtyFour_le_bufsize (s : Sender) : 64 ≤ s.bufsize := by
  rw [bufsize]
  omega

theorem readable_empty (hbuf : s.sendbuf=[]) (hid : s.haveBufferedId=false)
    (hnh : s.haveBufferedNh=false) (hdp : s.haveBufferedPrefix=false)
    (hupdates : s.updates=[]) : Readable s := by
  intro R neighbour k mem bodylen _ _
  refine ⟨Parser.start k,?_,?_⟩
  · rw [hbuf]
    exact Relation.ReflTransGen.refl
  refine ⟨fun h => ?_,fun h => ?_,fun h => ?_,rfl,?_⟩
  · rw [hid] at h
    cases h
  · rw [hnh] at h
    cases h
  · rw [hdp] at h
    cases h
  rw [hupdates]
  rfl

theorem Readable.received (hs : Readable s) :
    (⟨[42,2]++short (BitVec.ofNat 16 s.sendbuf.length)++s.sendbuf,s.updates⟩ :
      Packet).Received := by
  intro R neighbour k mem hfrom hneighbour hsto hlen
  have hhdr : ([42,2]++short (BitVec.ofNat 16 s.sendbuf.length)).length=4 := rfl
  have htotal : ([42,2]++short (BitVec.ofNat 16 s.sendbuf.length)++s.sendbuf).length =
      4+s.sendbuf.length := by
    rw [length_append,hhdr]
  rw [htotal] at hlen ⊢
  obtain ⟨hhead,hbody⟩ := stored_append.mp hsto
  rw [hhdr,zero_add] at hbody
  have h0 : mem 0=42 := hhead.getD (k := 0) (by simp)
  have h1 : mem 1=2 := hhead.getD (k := 1) (by simp)
  have hshort : Stored mem 2 (short (BitVec.ofNat 16 s.sendbuf.length)) :=
    (stored_append.mp hhead).2
  have h2 : (u16 2).value mem=s.sendbuf.length := by
    rw [u16_short hshort,BitVec.toNat_ofNat]
    exact Nat.mod_eq_of_lt (by omega)
  obtain ⟨p,hsteps,hknows⟩ := hs R neighbour k mem s.sendbuf.length hbody le_rfl
  refine ⟨p,?_,hknows.routes⟩
  rw [parsePacket,hfrom,if_neg (by decide),value_bind,value_byte,h0,if_neg (by decide),
    value_bind,value_byte,h1,if_neg (by decide),hneighbour]
  rw [value_bind,h2,if_neg (by omega)]
  exact parseLoop_of_steps hsteps _ (by omega)

theorem transmit_sound (hs : Sound s) : Sound s.transmit ∧ s.transmit.log=s.log := by
  refine ⟨⟨readable_empty rfl rfl rfl rfl rfl,fun P hP => ?_,fun _ => rfl⟩,?_⟩
  · rw [transmit] at hP
    split at hP
    · rcases mem_append.mp hP with hP|hP
      · exact hs.received P hP
      rw [mem_singleton.mp hP]
      exact hs.readable.received
    · exact hs.received P hP
  rw [log,log,transmit]
  rw [append_nil]
  split
  · rw [flatMap_append]
    simp
  have hbuf : s.sendbuf=[] := length_eq_zero_iff.mp (by omega)
  rw [hs.empty hbuf,append_nil]

theorem ensureSpace_sound (hs : Sound s) {space : ℕ} (hspace : space≤64) :
    let s' := s.ensureSpace space
    Sound s' ∧ s'.log=s.log ∧ s'.up=s.up ∧ s'.ipv4=s.ipv4 ∧
      s'.sendbuf.length+space ≤ s'.bufsize := by
  have hsize := sixtyFour_le_bufsize s
  rw [ensureSpace]
  split
  · obtain ⟨hsound,hlog⟩ := transmit_sound hs
    refine ⟨hsound,hlog,rfl,rfl,?_⟩
    change 0+space ≤ s.bufsize
    omega
  · exact ⟨hs,rfl,rfl,rfl,by omega⟩

theorem message_of_room (h : s.sendbuf.length+(body.length+2) ≤ s.bufsize) :
    s.message type body=s.accumulate ([type,BitVec.ofNat 8 body.length]++body) := by
  rw [message,ensureSpace,if_neg (by omega)]

/-- Once `sendNh` is done the buffer has the next hop. -/
theorem sendNh_spec (hs : Readable s) (nh : Ipv4) (hroom : s.sendbuf.length+8 ≤ s.bufsize) :
    let s' := s.sendNh nh
    Readable s' ∧ Same s s' ∧ s'.updates=s.updates ∧
      s'.sendbuf.length ≤ s.sendbuf.length+8 ∧ s'.haveBufferedNh=true ∧ s'.bufferedNh=nh := by
  rw [sendNh]
  split
  · have hlen : ([1,0]++ofFn nh : List Byte).length=6 := by simp
    rw [message_of_room (by rw [hlen]; omega)]
    refine ⟨hs.message (show (7 : Byte)≠0 by decide) (by rw [hlen]; omega) rfl
      fun R neighbour mem m p hknows hsto => ?_,⟨rfl,rfl,rfl,rfl⟩,rfl,?_,rfl,rfl⟩
    · exact ⟨_,parseNh_stored hsto,hknows.id,fun _ => ⟨rfl,rfl⟩,hknows.dp,hknows.noNh,
        hknows.routes⟩
    change (s.sendbuf++([7,_]++([1,0]++ofFn nh))).length≤_
    simp
  rename_i h
  rw [not_or,not_not] at h
  exact ⟨hs,⟨rfl,rfl,rfl,rfl⟩,rfl,by omega,by simpa using h.1,h.2⟩

/-- Once `sendId` is done the buffer has the router id. -/
theorem sendId_spec (hs : Readable s) (id : RouterId) (hroom : s.sendbuf.length+12 ≤ s.bufsize) :
    let s' := s.sendId id false
    Readable s' ∧ Same s s' ∧ s'.updates=s.updates ∧
      s'.sendbuf.length ≤ s.sendbuf.length+12 ∧ (s'.haveBufferedId=true ∧ s'.bufferedId=id) ∧
      (s'.haveBufferedNh=s.haveBufferedNh ∧ s'.bufferedNh=s.bufferedNh) ∧
      s'.haveBufferedPrefix=s.haveBufferedPrefix ∧ s'.bufferedPrefix=s.bufferedPrefix := by
  rw [sendId]
  split
  · have hlen : ([0,0]++ofFn id : List Byte).length=10 := by simp
    rw [if_neg Bool.false_ne_true,message_of_room (by rw [hlen]; omega)]
    refine ⟨hs.message (show (6 : Byte)≠0 by decide) (by rw [hlen]; omega) rfl
      fun R neighbour mem m p hknows hsto => ?_,⟨rfl,rfl,rfl,rfl⟩,rfl,?_,⟨rfl,rfl⟩,
      ⟨rfl,rfl⟩,rfl,rfl⟩
    · exact ⟨_,parseRouterId_stored hsto,fun _ => ⟨rfl,rfl⟩,hknows.nh,hknows.dp,
        hknows.noNh,hknows.routes⟩
    change (s.sendbuf++([6,_]++([0,0]++ofFn id))).length≤_
    simp
  rename_i h
  rw [not_or,not_not] at h
  exact ⟨hs,⟨rfl,rfl,rfl,rfl⟩,rfl,by omega,⟨by simpa using h.1,h.2.symm⟩,⟨rfl,rfl⟩,
    rfl,rfl⟩

theorem with_id_self {id : RouterId} (h : s.haveBufferedId=true ∧ s.bufferedId=id) :
    {s with haveBufferedId := true,bufferedId := id}=s := by
  rw [←h.1,←h.2]

theorem channels_length (u : UpdateCall) (diversityChannel : Bool) :
    (channelBytes (if diversityChannel then u.channels else none)).length≤10 := by
  cases diversityChannel with
  | false => exact Nat.zero_le _
  | true =>
    rw [if_pos rfl]
    cases h : u.channels with
    | none => exact Nat.zero_le _
    | some l =>
      have hfit := u.channelsFit l h
      rw [diversityHops] at hfit
      rw [channelBytes,length_append,length_cons,length_cons,length_nil]
      omega

section

variable (v4 : Bool) (flags : Byte) (plen omitted interval : ℕ) (seqno metric : BitVec 16)
  (pfx : List Byte) (channels : Option (List Byte))
include v4 flags plen omitted interval seqno metric pfx channels

theorem updateBody_eq : updateBody v4 flags plen omitted interval seqno metric pfx channels =
      [if v4 then 1 else 2,flags,BitVec.ofNat 8 plen,BitVec.ofNat 8 omitted] ++
        short (BitVec.ofNat 16 ((interval+5)/10))++short seqno++short metric ++
        (pfx++channelBytes channels) := by
  rw [updateBody,←append_assoc]

theorem length_updateBody :
    (updateBody v4 flags plen omitted interval seqno metric pfx channels).length =
      10+pfx.length+(channelBytes channels).length := by
  rw [updateBody_eq]
  simp [short]
  omega

end

theorem log_append {a : Announced} (hpackets : s'.packets=s.packets)
    (hupdates : s'.updates=s.updates++[a]) : s'.log=s.log++[a] := by
  rw [log,log,hpackets,hupdates,append_assoc]

/-- An update goes out over an interface that stays sound. -/
structure Sends (s s' : Sender) (a : Announced) : Prop where
  sound : Sound s'
  log : s'.log=s.log++[a]
  up : s'.up=s.up
  ipv4 : s'.ipv4=s.ipv4

theorem sendV4_sends (hs : Sound s) (hroom : s.sendbuf.length+60 ≤ s.bufsize) {nh : Ipv4}
    (hm : Masked u.pfx u.plen) (hv4 : isV4 u.pfx u.plen=true) :
    Sends s (s.sendV4 nh u) ⟨u.id,u.pfx,u.plen,u.seqno,u.metric,some nh⟩ := by
  have hplen := hm.le
  obtain ⟨hs1,hsame1,hupdates1,hlen1,hnh1⟩ := sendNh_spec hs.readable nh (by omega)
  rw [sendV4]
  generalize s.sendNh nh=s1 at hs1 hsame1 hupdates1 hlen1 hnh1 ⊢
  have hsize1 := hsame1.bufsize
  obtain ⟨hs2,hsame2,hupdates2,hlen2,hid2,hnh2,-⟩ := sendId_spec hs1 u.id (by omega)
  generalize s1.sendId u.id false=s2 at hs2 hsame2 hupdates2 hlen2 hid2 hnh2 ⊢
  have hsize2 := hsame2.bufsize
  have hsame := hsame1.trans hsame2
  generalize hchannels : (if s2.diversityChannel then u.channels else none)=channels
  have hten : (channelBytes channels).length≤10 := by
    rw [←hchannels]
    exact channels_length u s2.diversityChannel
  generalize hbody : updateBody true 0 (u.plen-96) 0 s2.updateInterval u.seqno u.metric
    (bytesFrom u.pfx 12 ((u.plen-96+7)/8)) channels=body
  have hbodylen : body.length=10+(u.plen-96+7)/8+(channelBytes channels).length := by
    rw [←hbody,length_updateBody,length_bytesFrom]
  rw [message_of_room (by omega)]
  have hreadable : Readable { s2.accumulate ([8,BitVec.ofNat 8 body.length]++body) with
      updates := s2.updates++[⟨u.id,u.pfx,u.plen,u.seqno,u.metric,some nh⟩] } := by
    refine hs2.message (show (8 : Byte)≠0 by decide) (by omega) rfl
      fun R neighbour mem m p hknows hsto => ?_
    rw [←hbody,updateBody_eq] at hsto
    obtain ⟨p',hp',hlearns⟩ := parseUpdate_v4 hknows hm hv4 hid2
      ⟨hnh2.1.trans hnh1.1,hnh2.2.trans hnh1.2⟩ hbodylen hsto
    refine ⟨p',hp',fun _ => ⟨hlearns.id.1,hlearns.id.2.trans hid2.2.symm⟩,fun h => ?_,
      fun h => ?_,hlearns.noNh.trans hknows.noNh,?_⟩
    · rw [hlearns.nh.1,hlearns.nh.2]
      exact hknows.nh h
    · rw [hlearns.dp.1,hlearns.dp.2]
      exact hknows.dp h
    rw [hlearns.routes,hknows.routes,filterMap_append]
    congr 1
    rw [filterMap_cons,filterMap_nil,told]
    cases R.ipv4 <;> rfl
  refine ⟨⟨hreadable,fun P hP => hs.received P (hsame.packets ▸ hP),fun h => ?_⟩,
    log_append hsame.packets ?_,hsame.up,hsame.ipv4⟩
  · exact absurd (append_eq_nil_iff.mp h).2 (by simp)
  change s2.updates++_=_
  rw [hupdates2,hupdates1]

theorem sendV6_sends (hs : Sound s) (hroom : s.sendbuf.length+60 ≤ s.bufsize)
    (hm : Masked u.pfx u.plen) (hv4 : isV4 u.pfx u.plen=false) :
    Sends s (s.sendV6 u) ⟨u.id,u.pfx,u.plen,u.seqno,u.metric,none⟩ := by
  have hplen := hm.le
  rw [sendV6]
  generalize homitted : (if s.haveBufferedPrefix then
    omitLoop s.bufferedPrefix u.pfx (u.plen/8) (u.plen/8) 0 else 0)=omitted
  generalize hsets : (!s.haveBufferedPrefix || decide (48≤u.plen))=sets
  generalize hcarries : ((!s.haveBufferedId || decide (u.id≠s.bufferedId)) &&
    idInPrefix u.id u.pfx u.plen)=carries
  have hshared : (omitted≠0 → s.haveBufferedPrefix=true) ∧ omitted≤u.plen/8 ∧
      ∀ k<omitted, octet s.bufferedPrefix k=octet u.pfx k := by
    rw [←homitted]
    by_cases hdp : s.haveBufferedPrefix=true
    · rw [if_pos hdp]
      exact ⟨fun _ => hdp,omitLoop_spec _ _ _ _ (Nat.zero_le _)
        fun k hk => absurd hk (Nat.not_lt_zero k)⟩
    rw [if_neg hdp]
    exact ⟨fun h => absurd rfl h,Nat.zero_le _,fun k hk => absurd hk (Nat.not_lt_zero k)⟩
  -- the message is appended to what the parser has read, with a router id still to come
  -- where the prefix carries it
  obtain ⟨s1,hs1,heq,hsame,hupdates,hlen,hid,hdp⟩ :
      ∃ s1 : Sender, Readable s1 ∧ s.sendId u.id (idInPrefix u.id u.pfx u.plen) =
          {s1 with haveBufferedId := true,bufferedId := u.id} ∧
        Same s s1 ∧ s1.updates=s.updates ∧ s1.sendbuf.length ≤ s.sendbuf.length+12 ∧
        (if carries then idInPrefix u.id u.pfx u.plen=true
          else s1.haveBufferedId=true ∧ s1.bufferedId=u.id) ∧
        s1.haveBufferedPrefix=s.haveBufferedPrefix ∧ s1.bufferedPrefix=s.bufferedPrefix := by
    cases carries with
    | true =>
      rw [Bool.and_eq_true,Bool.or_eq_true,decide_eq_true_iff] at hcarries
      refine ⟨s,hs.readable,?_,⟨rfl,rfl,rfl,rfl⟩,rfl,by omega,hcarries.2,rfl,rfl⟩
      rw [sendId,if_pos hcarries.1,if_pos hcarries.2]
    | false =>
      obtain ⟨hs1,hsame1,hupdates1,hlen1,hid1,-,hdp1⟩ := sendId_spec hs.readable u.id (by omega)
      refine ⟨_,hs1,?_,hsame1,hupdates1,hlen1,hid1,hdp1⟩
      rw [with_id_self hid1]
      rw [Bool.and_eq_false_iff,Bool.or_eq_false_iff] at hcarries
      rcases hcarries with ⟨hhave,hsent⟩|hno
      · have hskip : ¬((!s.haveBufferedId)=true ∨ u.id≠s.bufferedId) := by
          rw [hhave,not_or]
          exact ⟨Bool.false_ne_true,of_decide_eq_false hsent⟩
        rw [sendId,if_neg hskip,sendId,if_neg hskip]
      · rw [hno]
  rw [heq]
  have hsize := hsame.bufsize
  generalize hchannels : (if s1.diversityChannel then u.channels else none)=channels
  have hten : (channelBytes channels).length≤10 := by
    rw [←hchannels]
    exact channels_length u s1.diversityChannel
  generalize hbody : updateBody false ((if sets then 0x80 else 0) ||| (if carries then 0x40 else 0))
    u.plen omitted s1.updateInterval u.seqno u.metric
    (bytesFrom u.pfx omitted ((u.plen+7)/8-omitted)) channels=body
  have hbodylen : body.length = 10+((u.plen+7)/8-omitted)+(channelBytes channels).length := by
    rw [←hbody,length_updateBody,length_bytesFrom]
  rw [message_of_room (by change s1.sendbuf.length+_ ≤ s1.bufsize; omega)]
  have hparse : ∀ R neighbour mem m p, Knows R neighbour s1 p → Stored mem (m+2) body →
      ∃ p', (parseMessage R neighbour m (8 : Byte).toNat body.length p).value mem=some p' ∧
        Learns p p' u.id (if sets then some u.pfx else none)
          [(u.id,u.pfx,u.plen,u.seqno.toNat,u.metric.toNat,neighbour)] := by
    intro R neighbour mem m p hknows hsto
    rw [←hbody,updateBody_eq] at hsto
    refine parseUpdate_v6 hknows hm hid ?_ hshared.2.1 ?_ hbodylen hsto
    · rw [hdp.1]
      exact hshared.1
    rw [hdp.2]
    exact hshared.2.2
  have hrts : ∀ R neighbour (p p' : Parser) dp, Knows R neighbour s1 p →
      Learns p p' u.id dp [(u.id,u.pfx,u.plen,u.seqno.toNat,u.metric.toNat,neighbour)] →
      p'.routes=(s1.updates++[(⟨u.id,u.pfx,u.plen,u.seqno,u.metric,none⟩ : Announced)]).filterMap
          (told R neighbour) := by
    intro R neighbour p p' dp hknows hlearns
    rw [hlearns.routes,hknows.routes,filterMap_append]
    rfl
  -- the default prefix is that of this update where it is set, and the one before otherwise
  cases sets
  all_goals
    refine ⟨⟨hs1.message (show (8 : Byte)≠0 by decide) (by omega) rfl
      fun R neighbour mem m p hknows hsto => ?_,fun P hP => hs.received P (hsame.packets ▸ hP),
      fun h => absurd (append_eq_nil_iff.mp h).2 (by simp)⟩,
      log_append hsame.packets ?_,hsame.up,hsame.ipv4⟩
    · obtain ⟨p',hp',hlearns⟩ := hparse R neighbour mem m p hknows hsto
      refine ⟨p',hp',fun _ => hlearns.id,fun h => ?_,fun h => ?_,
        hlearns.noNh.trans hknows.noNh,hrts R neighbour p p' _ hknows hlearns⟩
      · rw [hlearns.nh.1,hlearns.nh.2]
        exact hknows.nh h
      rw [hlearns.dp.1,hlearns.dp.2]
      first
      | exact ⟨rfl,rfl,hm.not_mapped hv4⟩
      | exact hknows.dp h
    change s1.updates++_=_
    rw [hupdates]

theorem reallySendUpdate_spec (hs : Sound s) (hm : Masked u.pfx u.plen) :
    let s' := s.reallySendUpdate u
    Sound s' ∧ s'.log=s.log++(u.announce s.up s.ipv4).toList ∧ s'.up=s.up ∧ s'.ipv4=s.ipv4 := by
  rw [reallySendUpdate,UpdateCall.announce]
  by_cases hup : (!s.up)=true
  · rw [if_pos hup,if_pos (.inl hup)]
    exact ⟨hs,(append_nil _).symm,rfl,rfl⟩
  rw [if_neg hup]
  by_cases hdenied : u.denied=true
  · rw [if_pos hdenied,if_pos (.inr hdenied)]
    exact ⟨hs,(append_nil _).symm,rfl,rfl⟩
  rw [if_neg hdenied,if_neg (not_or.mpr ⟨hup,hdenied⟩)]
  obtain ⟨hs1,hlog1,hup1,hipv41,hroom⟩ := ensureSpace_sound hs (show 20+12+28≤64 by omega)
  generalize s.ensureSpace (20+12+28)=s1 at hs1 hlog1 hup1 hipv41 hroom ⊢
  by_cases hv4 : isV4 u.pfx u.plen=true
  · rw [if_pos hv4,if_pos hv4,←hipv41]
    cases hnh : s1.ipv4 with
    | none =>
      refine ⟨hs1,?_,hup1,hipv41 ▸ hnh⟩
      rw [hlog1]
      exact (append_nil _).symm
    | some nh =>
      have h := @sendV4_sends _ u hs1 hroom nh hm hv4
      exact ⟨h.sound,h.log.trans (by rw [hlog1]; rfl),h.up.trans hup1,h.ipv4.trans hnh⟩
  rw [if_neg hv4,if_neg hv4]
  have h := sendV6_sends hs1 hroom hm (by simpa using hv4)
  exact ⟨h.sound,h.log.trans (by rw [hlog1]; rfl),h.up.trans hup1,h.ipv4.trans hipv41⟩

theorem flushUpdates_spec (us : List UpdateCall) : ∀ {s : Sender}, Sound s →
    (∀ u∈us, Masked u.pfx u.plen) → Sound (s.flushUpdates us) ∧
      (s.flushUpdates us).log=s.log++us.filterMap (·.announce s.up s.ipv4) ∧
      (s.flushUpdates us).up=s.up ∧ (s.flushUpdates us).ipv4=s.ipv4 := by
  induction us with
  | nil => exact fun hs _ => ⟨hs,(append_nil _).symm,rfl,rfl⟩
  | cons u rest ih =>
    intro s hs hm
    obtain ⟨hs1,hlog1,hup1,hipv41⟩ := reallySendUpdate_spec hs (hm u mem_cons_self)
    obtain ⟨hs2,hlog2,hup2,hipv42⟩ := ih hs1 fun v hv => hm v (.tail _ hv)
    refine ⟨hs2,?_,hup2.trans hup1,hipv42.trans hipv41⟩
    change ((s.reallySendUpdate u).flushUpdates rest).log=_
    rw [hlog2,hlog1,hup1,hipv41,append_assoc]
    congr 1
    rw [filterMap_cons]
    cases u.announce s.up s.ipv4 <;> rfl

/-- A message that tells nothing of updates keeps an interface sound. -/
theorem message_sound (hs : Sound s) (hty : type≠0) (hshort : body.length<256)
    (hparse : ∀ (t : Sender) R neighbour mem m p,
      (t.haveBufferedId=true → s.haveBufferedId=true) → Knows R neighbour t p →
        Stored mem (m+2) body → ∃ p', (parseMessage R neighbour m type.toNat body.length p).value mem =
          some p' ∧ Knows R neighbour t p') :
    Sound (s.message type body) ∧ (s.message type body).log=s.log ∧
      (s.message type body).up=s.up ∧ (s.message type body).ipv4=s.ipv4 := by
  rw [message]
  obtain ⟨hs1,hlog1,hup1,hipv41,hid1⟩ : Sound (s.ensureSpace (body.length+2)) ∧
      (s.ensureSpace (body.length+2)).log=s.log ∧
      (s.ensureSpace (body.length+2)).up=s.up ∧
      (s.ensureSpace (body.length+2)).ipv4=s.ipv4 ∧
      ((s.ensureSpace (body.length+2)).haveBufferedId=true → s.haveBufferedId=true) := by
    rw [ensureSpace]
    split
    · exact ⟨(transmit_sound hs).1,(transmit_sound hs).2,rfl,rfl,nofun⟩
    · exact ⟨hs,rfl,rfl,rfl,id⟩
  generalize s.ensureSpace (body.length+2)=s1 at hs1 hlog1 hup1 hipv41 hid1 ⊢
  refine ⟨⟨hs1.readable.message hty hshort rfl fun R neighbour mem m p hknows hsto => ?_,
    hs1.received,fun h => absurd (append_eq_nil_iff.mp h).2 (by simp)⟩,hlog1,hup1,hipv41⟩
  obtain ⟨p',hp',hknows'⟩ := hparse s1 R neighbour mem m p hid1 hknows hsto
  exact ⟨p',hp',hknows'.id,hknows'.nh,hknows'.dp,hknows'.noNh,hknows'.routes⟩

theorem Readable.relies_less (hs : Readable s) (hbuf : s'.sendbuf=s.sendbuf)
    (h : ∀ R neighbour p, Knows R neighbour s p → Knows R neighbour s' p) : Readable s' := by
  intro R neighbour k mem bodylen hsto hlen
  rw [hbuf] at hsto hlen ⊢
  obtain ⟨p,hsteps,hknows⟩ := hs R neighbour k mem bodylen hsto hlen
  exact ⟨p,hsteps,h R neighbour p hknows⟩

theorem retraction_sound (hs : Sound s) (myseqno : BitVec 16) :
    let s' : Sender := {s with haveBufferedId := false}.message 8 (retractionBody myseqno)
    Sound s' ∧ s'.log=s.log ∧ s'.up=s.up ∧ s'.ipv4=s.ipv4 := by
  have hforget : Sound {s with haveBufferedId := false} :=
    ⟨hs.readable.relies_less rfl fun R neighbour p hknows =>
      ⟨nofun,hknows.nh,hknows.dp,hknows.noNh,hknows.routes⟩,
      hs.received,hs.empty⟩
  have hlen : (retractionBody myseqno).length=10 := rfl
  refine message_sound hforget (show (8 : Byte)≠0 by decide) (by omega)
    fun t R neighbour mem off p hid hknows hsto => ?_
  obtain ⟨p',hp',hknows'⟩ := parseUpdate_retraction hknows hsto
  exact ⟨p',hp',fun h => absurd (hid h) Bool.false_ne_true,hknows'.nh,hknows'.dp,
    hknows'.noNh,hknows'.routes⟩

theorem message_forgetId (s : Sender) (type : Byte) (body : List Byte) :
    ({s.message type body with haveBufferedId := false} : Sender) =
      ({s with haveBufferedId := false} : Sender).message type body := by
  rw [message,message,ensureSpace,ensureSpace]
  by_cases h : s.bufsize<s.sendbuf.length+(body.length+2)
  · have h' : ({s with haveBufferedId := false} : Sender).bufsize <
      ({s with haveBufferedId := false} : Sender).sendbuf.length+(body.length+2) := h
    rw [if_pos h,if_pos h']
    rfl
  have h' : ¬({s with haveBufferedId := false} : Sender).bufsize <
    ({s with haveBufferedId := false} : Sender).sendbuf.length+(body.length+2) := h
  rw [if_neg h,if_neg h']
  rfl

theorem step_spec (hs : Sound s) (a : Action) (hm : ∀ u∈a.updates, Masked u.pfx u.plen) :
    Sound (s.step a) ∧ (s.step a).log=s.log++a.updates.filterMap (·.announce s.up s.ipv4) ∧
      ∀ rest, announcedBy s.up s.ipv4 (a::rest)=a.updates.filterMap (·.announce s.up s.ipv4) ++
          announcedBy (s.step a).up (s.step a).ipv4 rest := by
  cases a with
  | flushUpdates us =>
    obtain ⟨hsound,hlog,hup,hipv4⟩ := flushUpdates_spec us hs hm
    refine ⟨hsound,hlog,fun rest => ?_⟩
    change us.filterMap _++_=_++announcedBy (s.flushUpdates us).up (s.flushUpdates us).ipv4 rest
    rw [hup,hipv4]
    rfl
  | flushbuf us =>
    obtain ⟨hsound,hlog,hup,hipv4⟩ := flushUpdates_spec us hs hm
    obtain ⟨hsound',hlog'⟩ := transmit_sound hsound
    refine ⟨hsound',hlog'.trans hlog,fun rest => ?_⟩
    change us.filterMap _++_=_++announcedBy (s.flushUpdates us).up (s.flushUpdates us).ipv4 rest
    rw [hup,hipv4]
    rfl
  | other m =>
    have hkind := m.kind
    have hne : ∀ k : ℕ, k<256 → m.type≠BitVec.ofNat 8 k → m.type.toNat≠k := by
      intro k hk hne heq
      refine hne (BitVec.eq_of_toNat_eq ?_)
      rw [toNat_ofNat_byte hk]
      exact heq
    obtain ⟨hsound,hlog,hup,hipv4⟩ := message_sound hs hkind.1 m.short
      fun t R neighbour mem off p _ hknows _ => by
        obtain ⟨p',hp',honly,hrts⟩ := parseMessage_other mem R neighbour off m.body.length p
          (hne 6 (by omega) hkind.2.1) (hne 7 (by omega) hkind.2.2.1)
          (hne 8 (by omega) hkind.2.2.2)
        exact ⟨p',hp',hknows.onlyCalls honly hrts⟩
    refine ⟨hsound,hlog.trans (append_nil _).symm,fun rest => ?_⟩
    change []++_=[]++announcedBy (s.message m.type m.body).up (s.message m.type m.body).ipv4 rest
    rw [hup,hipv4]
  | retraction myseqno =>
    by_cases hup : s.up=true
    · obtain ⟨hsound,hlog,hup',hipv4⟩ := retraction_sound hs myseqno
      have heq : s.step (.retraction myseqno) =
          ({s with haveBufferedId := false} : Sender).message 8 (retractionBody myseqno) :=
        (if_pos hup).trans (message_forgetId s 8 (retractionBody myseqno))
      rw [heq]
      refine ⟨hsound,hlog.trans (append_nil _).symm,fun rest => ?_⟩
      rw [hup',hipv4]
      rfl
    have heq : s.step (.retraction myseqno)=s := if_neg hup
    rw [heq]
    exact ⟨hs,(append_nil _).symm,fun rest => rfl⟩
  | link up | address ipv4 =>
    exact ⟨⟨hs.readable.relies_less rfl fun R neighbour p h => ⟨h.id,h.nh,h.dp,h.noNh,h.routes⟩,
      hs.received,hs.empty⟩,(append_nil _).symm,fun rest => rfl⟩

theorem run_spec (actions : List Action) : ∀ {s : Sender}, Sound s →
    (∀ a∈actions, ∀ u∈a.updates, Masked u.pfx u.plen) → Sound (actions.foldl step s) ∧
      (actions.foldl step s).log=s.log++announcedBy s.up s.ipv4 actions := by
  induction actions with
  | nil => exact fun hs _ => ⟨hs,(append_nil _).symm⟩
  | cons a rest ih =>
    intro s hs hm
    obtain ⟨hs1,hlog1,hannounced⟩ := step_spec hs a (hm a mem_cons_self)
    obtain ⟨hs2,hlog2⟩ := ih hs1 fun b hb => hm b (.tail _ hb)
    refine ⟨hs2,?_⟩
    rw [foldl_cons,hlog2,hlog1,hannounced,append_assoc]

theorem start_sound (up : Bool) (ipv4 : Option Ipv4) (mtu updateInterval : ℕ)
    (diversityChannel : Bool) : Sound (start up ipv4 mtu updateInterval diversityChannel) :=
  ⟨readable_empty rfl rfl rfl rfl rfl,fun P hP => absurd hP not_mem_nil,fun _ => rfl⟩

/-- An update of metric 256 for a prefix. -/
def sampleCall (pfx : Address) (plen : ℕ) : UpdateCall where
  id := fun _ => 1
  pfx := pfx
  plen := plen
  seqno := 7
  metric := 256
  channels := none
  channelsFit := fun _ h => absurd h (Option.not_mem_none _)
  denied := false

/-- 2001:db8:0:n::. -/
def sampleNet (n : Byte) : Address := ![0x20,1,0xd,0xb8,0,0,0,n,0,0,0,0,0,0,0,0]

/-- The mapped 10.1.0.0. -/
def mappedNet : Address := ![0,0,0,0,0,0,0,0,0,0,0xff,0xff,10,1,0,0]

/-- Two networks that share seven bytes, and an IPv4 network behind a flush. -/
def sampleActions : List Action :=
  [.flushUpdates [sampleCall (sampleNet 1) 64,sampleCall (sampleNet 2) 64],
    .flushbuf [sampleCall mappedNet 112]]

/-- A receiver whose neighbour is at ::. -/
def sampleReceiver : Receiver where
  fromLinklocal := true
  neighbour := some fun _ => 0
  ipv4 := true
  faraway := false
  isInterfaceLlAddress := fun _ => false

def zeroStack : Stack := ⟨fun _ => 0,fun _ => 0,fun _ => 0,fun _ => 0,fun _ => 0⟩

/-- A packet whose only message is cut off behind its type. -/
def cutPacket : List Byte := [42,2,0,1,4]

/-- An IPv6 update that sets the default prefix, and an IPv4 update that leaves out two
bytes. -/
def mixedPacket : List Byte :=
  [42,2,0,34,8,18,2,0x80,64,0,0,1,0,1,0,1,0x20,1,0xd,0xb8,0,0,0,0,8,12,1,0,32,2,0,1,0,1,0,1,10,1]

end RoutePlatform.BabelPackets
