import RoutePlatform.EigrpHello

/-!
# EIGRP: hellos with a Sequence TLV

`EigrpSendSeqHello` names the peers that are not to take the next multicast. For the product
that is configured `EigrpBuildHello` returns the start of the Parameter TLV, not its end.
-/

namespace RoutePlatform.EigrpHello

open ReadTrace EigrpItems List

variable {peers : List U32} {off : ℤ} {k : Fin 5→Byte} {hold : BitVec 16} {s : U32}

/-- `EigrpPortMemCpy` to an offset of a buffer. -/
def copyTo (mem : ℤ→Byte) (off : ℤ) (bytes : List Byte) : ℤ→Byte :=
  fun i => if off ≤ i ∧ i<off+bytes.length then bytes.getD (i-off).toNat 0 else mem i

/-- `EigrpIpAddrCopy`: an entry of a Sequence TLV. -/
def addrCopy (source : U32) : List Byte := 4::be32 source

/-- `EIGRP_MAX_SEQ_TLV`. -/
def maxSeqTlv : ℤ := 1500

/-- `EigrpBuildSequenceTlv` adds a peer behind the entries so far, `none` where no other one would
fit. -/
def buildSequenceTlv (entries : List Byte) (source : U32) : Option (List Byte) :=
  let entries := entries++addrCopy source
  if maxSeqTlv-(4+entries.length)<5 then none else some entries

/-- The Sequence TLV for some peers. -/
def sequenceTlv (peers : List U32) : Option (List Byte) :=
  (peers.foldlM buildSequenceTlv []).map fun entries =>
    be16 3++be16 (BitVec.ofNat 16 (4+entries.length))++entries

/-- `authInfo` of an interface, with the digest of the packet. -/
structure AuthInfo where
  keyId : U32
  digest : Fin 16→Byte

/-- `sizeof (EigrpAuthTlv_st)`, where the interface authenticates. -/
def authBytes (auth : Option AuthInfo) : ℤ := if auth.isSome then 40 else 0

/-- `EigrpBuildHello` for `EIGRP_PRODUCT_TYPE_YEZONG`: the buffer, and where TLVs are added. -/
def buildHello (auth : Option AuthInfo) (kValues : Fin 5→Byte) (hold : BitVec 16) (mem : ℤ→Byte) :
    (ℤ→Byte) × ℤ :=
  let param := headerBytes+authBytes auth
  (copyTo mem param (be16 1++be16 12++ofFn kValues++[0]++be16 hold),param)

/-- `EigrpGenerateMd5`. -/
def generateMd5 (auth : Option AuthInfo) (mem : ℤ→Byte) : ℤ→Byte :=
  match auth with
  | none => mem
  | some a => copyTo mem headerBytes
    (be16 2++be16 40++be16 2++be16 16++be32 a.keyId++replicate 12 0++ofFn a.digest)

/-- `EigrpSendSeqHello`: the packet, from a buffer that is zero, and its length. -/
def sendSeqHello (auth : Option AuthInfo) (kValues : Fin 5→Byte) (hold : BitVec 16)
    (tlv : List Byte) (ackSeqNum : U32) : (ℤ→Byte) × ℤ :=
  let hello := buildHello auth kValues hold fun _ => 0
  let mem := copyTo hello.1 hello.2 tlv
  let mem := copyTo mem (hello.2+tlv.length) (be16 5++be16 8++be32 ackSeqNum)
  (generateMd5 auth mem,12+tlv.length+8+authBytes auth+headerBytes)

/-- The hello puts a neighbour with the same K values in CR mode for the sequence number exactly
when none of its addresses is named, and brings it the holding time. -/
def RoundTrips (auth : Option AuthInfo) (kValues : Fin 5→Byte) (hold : BitVec 16)
    (peers : List U32) (s : U32) (localAddress : U32→Bool) (p : Peer) : Prop :=
  ∃ tlv fuel trace p' newPeer, sequenceTlv peers=some tlv ∧
    recvHello (sendSeqHello auth kValues hold tlv s).1 localAddress (ofFn kValues) fuel
      (sendSeqHello auth kValues hold tlv s).2 p=some (trace,.done p' newPeer) ∧
    (p'.flagCrMode=true ∧ p'.crSeq=s ↔ ∀ a∈peers, localAddress a=false) ∧
    p'.lastHoldingTime=max (hold.toNat*1000) 15000

variable {mem : ℤ→Byte} {localAddress : U32→Bool} {kValues : List Byte} {tlv left : ℤ}

/-- The walk from an offset on does not get to the end of a hello. -/
def Fails (mem : ℤ→Byte) (localAddress : U32→Bool) (kValues : List Byte) (tlv left : ℤ) : Prop :=
  ∀ fuel h trace p newPeer,
    helloLoop mem localAddress kValues fuel tlv left h≠some (trace,.done p newPeer)

theorem fails_of_next (hleft : 0<left) (hnext : ntohs mem (tlv+2)<4 ∨
    Fails mem localAddress kValues (tlv+ntohs mem (tlv+2)) (left-ntohs mem (tlv+2))) :
    Fails mem localAddress kValues tlv left := by
  intro fuel h trace p newPeer hrun
  cases fuel with
  | zero => cases hrun
  | succ fuel =>
    rw [helloLoop,if_neg (by omega)] at hrun
    obtain ⟨⟨trace',next⟩,-,hrs⟩ := Option.bind_eq_some_iff.mp hrun
    cases next with
    | none => cases hrs
    | some h' =>
      dsimp only at hrs
      split_ifs at hrs with hshort
      · cases hrs
      · obtain ⟨r,hr,heq⟩ := Option.map_eq_some_iff.mp hrs
        have hout : r.2=.done p newPeer := congrArg Prod.snd heq
        exact hnext.resolve_left hshort fuel h' r.1 p newPeer
          (hr.trans (congrArg some (Prod.ext rfl hout)))

theorem ntohs_copyTo (off : ℤ) (type length : BitVec 16) (rest : List Byte) :
    ntohs (copyTo mem off (be16 type++be16 length++rest)) (off+2)=length.toNat := by
  have hget : ∀ k : ℕ, k<4 → copyTo mem off (be16 type++be16 length++rest) (off+k)=
      (be16 type++be16 length++rest).getD k 0 := fun k hk => by
    have hlen : 4≤(be16 type++be16 length++rest).length := by simp [be16]
    rw [copyTo,if_pos ⟨by omega,by omega⟩,add_sub_cancel_left,Int.toNat_natCast]
  have h2 := hget 2 (by decide)
  have h3 := hget 3 (by decide)
  have hlt := length.isLt
  rw [ntohs,add_assoc]
  push_cast at h2 h3
  rw [h2,show off+(2+1)=off+3 from rfl,h3]
  simp only [be16,cons_append,nil_append,getD_cons_succ,getD_cons_zero,
    BitVec.extractLsb'_toNat,Nat.shiftRight_eq_div_pow]
  omega

theorem ntohs_copyTo_of_apart {off' : ℤ} {bytes : List Byte}
    (h : off'+2≤off ∨ off+bytes.length≤off') :
    ntohs (copyTo mem off bytes) off'=ntohs mem off' := by
  rw [ntohs,ntohs,copyTo,if_neg (by omega),copyTo,if_neg (by omega)]

theorem length_sequenceTlv {tlv : List Byte} (h : sequenceTlv peers=some tlv) :
    ∃ rest, tlv=be16 3++be16 (BitVec.ofNat 16 tlv.length)++rest ∧ tlv.length<65536 := by
  obtain ⟨entries,hfold,rfl⟩ := Option.map_eq_some_iff.mp h
  have hlen : (be16 3++be16 (BitVec.ofNat 16 (4+entries.length))++entries).length=
      4+entries.length := by
    simp [be16]
    omega
  refine ⟨entries,by rw [hlen],?_⟩
  have hbound : ∀ (peers : List U32) (start : List Byte), start.length<1500 →
      peers.foldlM buildSequenceTlv start=some entries → entries.length<1500 := by
    intro peers
    induction peers with
    | nil =>
      intro start hs hf
      cases hf
      exact hs
    | cons a peers ih =>
      intro start hs hf
      obtain ⟨next,hnext,hrs⟩ := Option.bind_eq_some_iff.mp hf
      rw [buildSequenceTlv,maxSeqTlv] at hnext
      split_ifs at hnext with hfull
      cases hnext
      exact ih _ (by omega) hrs
  have := hbound peers [] (by decide) hfold
  omega

variable {auth : Option AuthInfo}

/-- The authentication TLV lies before the others. -/
theorem ntohs_generateMd5 (h : headerBytes+authBytes auth≤off) :
    ntohs (generateMd5 auth mem) off=ntohs mem off := by
  cases auth with
  | none => rfl
  | some a =>
    refine ntohs_copyTo_of_apart (.inr ?_)
    have hbs : authBytes (some a)=40 := rfl
    simp [be16,be32]
    omega

theorem sendSeqHello_left {tlv : List Byte} :
    (sendSeqHello auth k hold tlv s).2-headerBytes=12+tlv.length+8+authBytes auth :=
  add_sub_cancel_right _ _

/-- The Sequence TLV overwrites the Parameter TLV, and zeros follow its end: the walk fails. -/
theorem sendSeqHello_fails {tlv : List Byte} (h : sequenceTlv peers=some tlv) :
    Fails (sendSeqHello auth k hold tlv s).1 localAddress kValues headerBytes
      ((sendSeqHello auth k hold tlv s).2-headerBytes) := by
  obtain ⟨rest,htlv,hlt⟩ := length_sequenceTlv h
  have hlen : (tlv.length : ℤ)≥4 := by
    have := congrArg List.length htlv
    simp only [be16,length_append,length_cons,length_nil] at this
    omega
  have hparam : (be16 1++be16 12++ofFn k++[0]++be16 hold).length=12 := by simp [be16]
  have hmulti : (be16 5++be16 8++be32 s).length=8 := by simp [be16,be32]
  set base := headerBytes+authBytes auth with hbase
  have hafter : ∀ off≥base, ntohs (sendSeqHello auth k hold tlv s).1 off=
      ntohs (copyTo (copyTo (buildHello auth k hold fun _ => 0).1 base tlv) (base+tlv.length)
        (be16 5++be16 8++be32 s)) off := fun off hoff => ntohs_generateMd5 hoff
  have hseq : ntohs (sendSeqHello auth k hold tlv s).1 (base+2)=tlv.length := by
    rw [hafter _ (by omega),ntohs_copyTo_of_apart (by omega),htlv,ntohs_copyTo,BitVec.toNat_ofNat,
      Nat.mod_eq_of_lt (by omega),←htlv]
  have hnext : ntohs (sendSeqHello auth k hold tlv s).1 (base+tlv.length+2)=8 := by
    rw [hafter _ (by omega),ntohs_copyTo]
    rfl
  have hz : ntohs (sendSeqHello auth k hold tlv s).1 (base+tlv.length+8+2)=0 := by
    rw [hafter _ (by omega),ntohs_copyTo_of_apart (by omega),ntohs_copyTo_of_apart (by omega),
      buildHello,ntohs_copyTo_of_apart (by omega)]
    simp [ntohs]
  have hwalk : Fails (sendSeqHello auth k hold tlv s).1 localAddress kValues base
      (12+tlv.length+8) := by
    refine fails_of_next (by omega) (.inr ?_)
    rw [hseq]
    refine fails_of_next (by omega) (.inr ?_)
    rw [hnext]
    exact fails_of_next (by push_cast; omega) (.inl (by push_cast; omega))
  rw [sendSeqHello_left]
  cases auth with
  | none => exact hwalk
  | some a =>
    refine fails_of_next (by rw [authBytes]; simp; omega) (.inr ?_)
    have hauth : ntohs (sendSeqHello (some a) k hold tlv s).1 (headerBytes+2)=40 :=
      ntohs_copyTo _ _ _ _
    have hbs : authBytes (some a)=40 := rfl
    rw [hauth,hbs,Nat.cast_ofNat,add_sub_cancel_right]
    rwa [hbase,hbs] at hwalk

theorem recvHello_fails {tlv : List Byte} {fuel : ℕ} {trace : List Access} {p p' : Peer}
    {newPeer : Bool} (h : sequenceTlv peers=some tlv) :
    recvHello (sendSeqHello auth k hold tlv s).1 localAddress kValues fuel
      (sendSeqHello auth k hold tlv s).2 p≠some (trace,.done p' newPeer) := by
  have hauth : 0≤authBytes auth := by
    rw [authBytes]
    split_ifs <;> decide
  have hleft := @sendSeqHello_left k hold s auth tlv
  rw [recvHello,if_neg (by omega)]
  exact sendSeqHello_fails h fuel _ trace p' newPeer

/-- The hello never gets through. -/
theorem roundTrips_never (auth : Option AuthInfo) (k : Fin 5→Byte) (hold : BitVec 16)
    (peers : List U32) (s : U32) (localAddress : U32→Bool) (p : Peer) :
    ¬RoundTrips auth k hold peers s localAddress p := by
  rintro ⟨tlv,fuel,trace,p',newPeer,htlv,hrun,-⟩
  exact recvHello_fails htlv hrun

/-- One peer is named, 10.0.0.2; the neighbour has 10.0.0.3. -/
theorem roundTrips_overwritten : ¬RoundTrips none (fun k => if k.val%2=0 ∧ k.val<4 then 1 else 0) 15
    [0x0A000002] 7 (fun a => a=0x0A000003) ⟨false,0,15000,true,0⟩ := by
  rintro ⟨tlv,fuel,trace,p',newPeer,htlv,hrun,-⟩
  exact recvHello_fails htlv hrun

end RoutePlatform.EigrpHello
