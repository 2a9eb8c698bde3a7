import RoutePlatform.EigrpItems

/-!
# EIGRP: received hellos

`EigrpRecvHello` walks the TLVs of a hello, `EigrpFindSequenceTlv` the addresses of a
Sequence TLV. Offsets count from the start of the packet; they are integers, as a signed
length byte may lead back.
-/

namespace RoutePlatform.EigrpHello

open ReadTrace EigrpItems List Option

/-- `EIGRP_HEADER_BYTES`. -/
def headerBytes : ℤ := 20

/-- What is noted of a run: what is read, where a pass over TLVs or addresses starts and ends,
and that a TLV is interpreted whose length field says `length` when `left` bytes remain. -/
inductive Access where
  | read (off : ℤ) (count : ℕ)
  | pass (start stop : ℤ)
  | body (length : ℕ) (left : ℤ)

/-- Reads stay inside a packet of `n` bytes, passes go forward, and only a TLV that is as long as
its header and fits is interpreted. -/
def Access.Good (n : ℤ) : Access→Prop
  | .read off count => 0≤off ∧ off+count≤n
  | .pass start stop => start<stop
  | .body length left => 4≤length ∧ (length : ℤ)≤left

/-- What a hello changes in `EigrpDualPeer_st`. -/
structure Peer where
  flagCrMode : Bool
  crSeq : U32
  lastHoldingTime : ℕ
  /-- `holdingTimer` is running. -/
  holding : Bool
  peerVer : U32

/-- `EigrpCancelCrMode`. -/
def Peer.cancelCrMode (p : Peer) : Peer := {p with flagCrMode := false,crSeq := 0}

/-- The variables of `EigrpRecvHello`. -/
structure Hello where
  peer : Peer
  newPeer : Bool
  seqTlvFound : Bool
  crSeqFound : Bool

/-- What follows: `EigrpNeighborDown`, nothing after an error, or `EigrpDualNewPeer` for a new
peer. -/
inductive Outcome where
  | down (peer : Peer)
  | error (peer : Peer)
  | done (peer : Peer) (newPeer : Bool)

section

variable (mem : ℤ→Byte) (localAddress : U32→Bool) (kValues : List Byte)

/-- `NTOHS` at an offset. -/
def ntohs (off : ℤ) : ℕ := (mem off).toNat*256+(mem (off+1)).toNat

/-- `NTOHL` at an offset. -/
def ntohl (off : ℤ) : U32 := ofBytes (mem off) (mem (off+1)) (mem (off+2)) (mem (off+3))

/-- The loop of `EigrpFindSequenceTlv`: whether an address is ours. -/
def sequenceLoop : ℕ→ℤ→ℤ→Option (List Access × Bool)
  | 0,_,_ => none
  | fuel+1,addr,length =>
    if length≤0 then some ([],false)
    else if localAddress (ntohl mem (addr+1)) then some ([.read (addr+1) 4],true)
    else
      let len := (mem addr).toInt+1
      (sequenceLoop fuel (addr+len) (length-len)).map fun r =>
        (.read (addr+1) 4::.read addr 1::.pass addr (addr+len)::r.1,r.2)

/-- `EigrpFindSequenceTlv`. -/
def findSequenceTlv (fuel : ℕ) (tlv left : ℤ) (p : Peer) : Option (List Access × Peer) :=
  (sequenceLoop mem localAddress fuel (tlv+4) (min left (ntohs mem (tlv+2))-4)).map fun r =>
    (r.1,if r.2 then p.cancelCrMode else {p with flagCrMode := true})

/-- `EigrpDualKValuesMatch`. -/
def kValuesMatch (tlv : ℤ) : Bool :=
  [mem (tlv+4),mem (tlv+5),mem (tlv+6),mem (tlv+7),mem (tlv+8)]=kValues

/-- The holding time of a Parameter TLV, in milliseconds, at least 15 s. -/
def holdingTime (tlv : ℤ) : ℕ := max (ntohs mem (tlv+10)*1000) 15000

/-- The switch of `EigrpRecvHello`: what a TLV of a known type does, `none` for a mismatch of the
K values; other types are skipped. -/
def tlvBody (fuel : ℕ) (tlv left : ℤ) (h : Hello) : Option (List Access × Option Hello) :=
  let body := Access.body (ntohs mem (tlv+2)) left
  match ntohs mem tlv with
  | 3 => (findSequenceTlv mem localAddress fuel tlv left h.peer).map fun r =>
    (body::.read (tlv+2) 2::r.1,some {h with peer := r.2,seqTlvFound := true})
  | 1 =>
    if kValuesMatch mem kValues tlv then
      some ([body,.read (tlv+4) 5,.read (tlv+10) 2],some {h with
        newPeer := !h.peer.holding
        peer := {h.peer with lastHoldingTime := holdingTime mem tlv,holding := true}})
    else some ([body,.read (tlv+4) 5],none)
  | 4 => some ([body,.read (tlv+4) 4],some {h with
      peer := {h.peer with peerVer := ntohl mem (tlv+4)}})
  | 5 => some ([body,.read (tlv+4) 4],some {h with
      peer := {h.peer with crSeq := ntohl mem (tlv+4)}
      crSeqFound := true})
  | _ => some ([],some h)

/-- The end of `EigrpRecvHello`. -/
def finish (left : ℤ) (h : Hello) : Outcome :=
  if left<0 then .error h.peer.cancelCrMode
  else if h.crSeqFound && !h.seqTlvFound then .done h.peer.cancelCrMode h.newPeer
  else if h.seqTlvFound && !h.crSeqFound then .done {h.peer with crSeq := 0} h.newPeer
  else .done h.peer h.newPeer

/-- The loop of `EigrpRecvHello`. -/
def helloLoop : ℕ→ℤ→ℤ→Hello→Option (List Access × Outcome)
  | 0,_,_,_ => none
  | fuel+1,tlv,left,h =>
    if left≤0 then some ([],finish left h)
    else do
      let (trace,next) ← tlvBody mem localAddress kValues fuel tlv left h
      match next with
      | none => some (.read tlv 2::trace,.down h.peer)
      | some h' =>
        let length := ntohs mem (tlv+2)
        let trace := .read tlv 2::trace++[.read (tlv+2) 2]
        if length<4 then some (trace,.error h'.peer.cancelCrMode)
        else (helloLoop fuel (tlv+length) (left-length) h').map fun r =>
          (trace++.pass tlv (tlv+length)::r.1,r.2)

/-- `EigrpRecvHello`, for a packet of `paklen` bytes. -/
def recvHello (fuel : ℕ) (paklen : ℤ) (p : Peer) : Option (List Access × Outcome) :=
  if paklen-headerBytes≤0 then some ([],.done p false)
  else helloLoop mem localAddress kValues fuel headerBytes (paklen-headerBytes)
    ⟨p,false,false,false⟩

/-- The run ends, and nothing in it is wrong. -/
def Safe (paklen : ℤ) (p : Peer) : Prop :=
  ∃ fuel trace out, recvHello mem localAddress kValues fuel paklen p=some (trace,out) ∧
    ∀ a∈trace, a.Good paklen

variable (n : ℤ)

/-- The addresses from an offset to the end of a Sequence TLV: up to one of ours they have length
bytes below 0x80 and four bytes in the packet. -/
inductive SequenceFits (stop : ℤ) : ℤ→Prop
  | done {addr : ℤ} : stop≤addr → SequenceFits stop addr
  | found {addr : ℤ} : addr<stop → addr+5≤n → localAddress (ntohl mem (addr+1))=true →
      SequenceFits stop addr
  | next {addr : ℤ} : addr<stop → addr+5≤n → localAddress (ntohl mem (addr+1))=false →
      (mem addr).toNat<128 → SequenceFits stop (addr+((mem addr).toNat+1)) →
      SequenceFits stop addr

/-- How far the fields of a TLV that are looked at reach. -/
def fieldsEnd (tlv : ℤ) : ℤ :=
  match ntohs mem tlv with
  | 1 => if kValuesMatch mem kValues tlv then tlv+12 else tlv+9
  | 4 | 5 => tlv+8
  | _ => tlv+4

/-- A TLV that is interpreted has a right length, and its fields lie in the packet. -/
def BodyFits (tlv : ℤ) : Prop :=
  ntohs mem tlv=1 ∨ ntohs mem tlv=3 ∨ ntohs mem tlv=4 ∨ ntohs mem tlv=5 →
    4≤ntohs mem (tlv+2) ∧ tlv+ntohs mem (tlv+2)≤n ∧ fieldsEnd mem kValues tlv≤n ∧
    (ntohs mem tlv=3 → SequenceFits mem localAddress n (tlv+ntohs mem (tlv+2)) (tlv+4))

/-- The TLV is a Parameter TLV with other K values. -/
def Mismatch (tlv : ℤ) : Prop := ntohs mem tlv=1 ∧ kValuesMatch mem kValues tlv=false

/-- The TLVs from an offset on, up to a mismatch of the K values or a length below four. -/
inductive HelloFits : ℤ→Prop
  | done {tlv : ℤ} : n≤tlv → HelloFits tlv
  | mismatch {tlv : ℤ} : tlv<n → BodyFits mem localAddress kValues n tlv →
      Mismatch mem kValues tlv → HelloFits tlv
  | short {tlv : ℤ} : tlv+4≤n → BodyFits mem localAddress kValues n tlv →
      ntohs mem (tlv+2)<4 → HelloFits tlv
  | next {tlv : ℤ} : tlv+4≤n → BodyFits mem localAddress kValues n tlv →
      ¬Mismatch mem kValues tlv → 4≤ntohs mem (tlv+2) →
      HelloFits (tlv+ntohs mem (tlv+2)) → HelloFits tlv

end

variable {mem : ℤ→Byte} {localAddress : U32→Bool} {kValues : List Byte} {n stop addr tlv : ℤ}
  {h : Hello} {fuel : ℕ}

theorem sequenceLoop_sound {r : List Access × Bool} {length : ℤ}
    (hr : sequenceLoop mem localAddress fuel addr length=some r) (hstop : addr+length=stop)
    (hgood : ∀ a∈r.1, a.Good n) : SequenceFits mem localAddress n stop addr := by
  induction fuel generalizing addr length r with
  | zero => cases hr
  | succ fuel ih =>
    rw [sequenceLoop] at hr
    split_ifs at hr with hdone hlocal
    · exact .done (by omega)
    · cases hr
      have hread : 0≤addr+1 ∧ addr+1+4≤n := hgood (.read (addr+1) 4) mem_cons_self
      exact .found (by omega) (by omega) hlocal
    · obtain ⟨r',hr',rfl⟩ := map_eq_some_iff.mp hr
      have hread : 0≤addr+1 ∧ addr+1+4≤n := hgood (.read (addr+1) 4) mem_cons_self
      have hpass : addr<addr+((mem addr).toInt+1) :=
        hgood (.pass _ _) (mem_cons_of_mem _ (mem_cons_of_mem _ mem_cons_self))
      have hlen := BitVec.toInt_eq_toNat_cond (mem addr)
      have hlt := (mem addr).isLt
      split_ifs at hlen with h128
      · rw [hlen] at hr'
        refine .next (by omega) (by omega) (eq_false_of_ne_true hlocal) (by omega)
          (ih hr' (by omega) fun a ha => hgood a ?_)
        exact mem_cons_of_mem _ (mem_cons_of_mem _ (mem_cons_of_mem _ ha))
      · omega

theorem sequenceLoop_complete (hfits : SequenceFits mem localAddress n stop addr) (hpos : 0≤addr) :
    ∃ least, ∀ fuel≥least, ∃ r, sequenceLoop mem localAddress fuel addr (stop-addr)=some r ∧
      ∀ a∈r.1, a.Good n := by
  induction hfits with
  | done hle =>
    refine ⟨1,fun fuel hfuel => ?_⟩
    obtain ⟨fuel,rfl⟩ := Nat.exists_eq_add_of_le' hfuel
    exact ⟨_,by rw [sequenceLoop,if_pos (by omega)],fun a ha => by cases ha⟩
  | found hlt hroom hlocal =>
    refine ⟨1,fun fuel hfuel => ?_⟩
    obtain ⟨fuel,rfl⟩ := Nat.exists_eq_add_of_le' hfuel
    refine ⟨_,by rw [sequenceLoop,if_neg (by omega),if_pos hlocal],fun a ha => ?_⟩
    rw [mem_singleton.mp ha]
    exact ⟨by omega,by push_cast; omega⟩
  | @next addr hlt hroom hlocal h128 _ ih =>
    obtain ⟨least,ih⟩ := ih (by omega)
    refine ⟨least+1,fun fuel hfuel => ?_⟩
    obtain ⟨fuel,rfl⟩ := Nat.exists_eq_add_of_le' (show 1≤fuel by omega)
    obtain ⟨r,hr,hgood⟩ := ih fuel (by omega)
    have hlen : (mem addr).toInt=(mem addr).toNat := by
      rw [BitVec.toInt_eq_toNat_cond,if_pos (by omega)]
    refine ⟨(.read (addr+1) 4::.read addr 1::.pass addr (addr+((mem addr).toNat+1))::r.1,r.2),?_,
      fun a ha => ?_⟩
    · rw [sequenceLoop,if_neg (by omega),if_neg (ne_true_of_eq_false hlocal)]
      dsimp only
      rw [hlen,Int.sub_sub,hr]
      rfl
    rcases mem_cons.mp ha with rfl|ha
    · exact ⟨by omega,by push_cast; omega⟩
    rcases mem_cons.mp ha with rfl|ha
    · exact ⟨hpos,by push_cast; omega⟩
    rcases mem_cons.mp ha with rfl|ha
    · exact show addr<addr+((mem addr).toNat+1) by omega
    · exact hgood a ha

theorem tlvBody_sound {left : ℤ} {trace : List Access} {next : Option Hello}
    (hb : tlvBody mem localAddress kValues fuel tlv left h=some (trace,next)) (hleft : tlv+left=n)
    (hgood : ∀ a∈trace, a.Good n) :
    BodyFits mem localAddress kValues n tlv ∧ (next=none ↔ Mismatch mem kValues tlv) := by
  have hbody : (.body (ntohs mem (tlv+2)) left)∈trace →
      4≤ntohs mem (tlv+2) ∧ (ntohs mem (tlv+2) : ℤ)≤left := fun hmem => hgood _ hmem
  have hread : ∀ off (count : ℕ), (.read off count)∈trace → 0≤off ∧ off+count≤n :=
    fun off count hmem => hgood _ hmem
  unfold tlvBody at hb
  rw [BodyFits,fieldsEnd,Mismatch]
  split at hb <;> rename_i hty
  · obtain ⟨r,hr,heq⟩ := map_eq_some_iff.mp hb
    obtain ⟨r',hr',rfl⟩ := map_eq_some_iff.mp hr
    cases heq
    have hlen := hbody mem_cons_self
    rw [hty]
    refine ⟨fun _ => ⟨hlen.1,by omega,show tlv+4≤n by omega,fun _ => ?_⟩,
      iff_of_false (some_ne_none _) fun hmis => by omega⟩
    exact sequenceLoop_sound hr' (by omega) fun a ha =>
      hgood a (mem_cons_of_mem _ (mem_cons_of_mem _ ha))
  · rw [hty]
    split_ifs at hb with hk <;> cases hb <;> have hlen := hbody mem_cons_self
    · have hend : tlv+10+2≤n := (hread (tlv+10) 2 (by simp)).2
      exact ⟨fun _ => ⟨hlen.1,by omega,by rw [if_pos hk]; exact show tlv+12≤n by omega,nofun⟩,
        iff_of_false (some_ne_none _) fun hmis => absurd hk (ne_true_of_eq_false hmis.2)⟩
    · have hend : tlv+4+5≤n := (hread (tlv+4) 5 (by simp)).2
      exact ⟨fun _ => ⟨hlen.1,by omega,by rw [if_neg hk]; exact show tlv+9≤n by omega,nofun⟩,
        iff_of_true rfl ⟨rfl,eq_false_of_ne_true hk⟩⟩
  case h_3 | h_4 =>
    cases hb
    have hlen := hbody mem_cons_self
    have hend : tlv+4+4≤n := (hread (tlv+4) 4 (by simp)).2
    rw [hty]
    exact ⟨fun _ => ⟨hlen.1,by omega,show tlv+8≤n by omega,nofun⟩,
      iff_of_false (some_ne_none _) fun hmis => by omega⟩
  · rename_i h3 h1 h4
    cases hb
    exact ⟨fun hknown => (hknown.elim h1 fun hk => hk.elim h3 fun hk => hk.elim h4 hty).elim,
      iff_of_false (some_ne_none _) fun hmis => h1 hmis.1⟩

/-- What a TLV that fits does is all right, whatever the hello has brought so far. -/
theorem tlvBody_complete (hfits : BodyFits mem localAddress kValues n tlv) (hpos : 0≤tlv) :
    ∃ least, ∀ fuel≥least, ∀ h, ∃ trace next,
      tlvBody mem localAddress kValues fuel tlv (n-tlv) h=some (trace,next) ∧
      (∀ a∈trace, a.Good n) ∧ (next=none ↔ Mismatch mem kValues tlv) := by
  have hread : ∀ count : ℕ, tlv+4+count≤n → Access.Good n (.read (tlv+4) count) := fun count hle =>
    ⟨by omega,hle⟩
  rw [BodyFits,fieldsEnd] at hfits
  simp only [tlvBody,Mismatch]
  split <;> rename_i hty
  · obtain ⟨hlen,hroom,-,hseq⟩ := hfits (by omega)
    obtain ⟨least,hrun⟩ := sequenceLoop_complete (hseq hty) (by omega)
    refine ⟨least,fun fuel hfuel h => ?_⟩
    obtain ⟨r,hr,hgood⟩ := hrun fuel hfuel
    have hlength : min (n-tlv) (ntohs mem (tlv+2))-4=tlv+ntohs mem (tlv+2)-(tlv+4) := by omega
    rw [findSequenceTlv,hlength,hr]
    refine ⟨_,_,rfl,fun a ha => ?_,iff_of_false (some_ne_none _) fun hmis => by omega⟩
    rcases mem_cons.mp ha with rfl|ha
    · exact ⟨hlen,by omega⟩
    rcases mem_cons.mp ha with rfl|ha
    · exact ⟨by omega,by push_cast; omega⟩
    · exact hgood a ha
  · obtain ⟨hlen,hroom,hend,-⟩ := hfits (by omega)
    rw [hty] at hend
    refine ⟨0,fun fuel _ h => ?_⟩
    split_ifs at hend ⊢ with hk
    · have hend : tlv+12≤n := hend
      refine ⟨_,_,rfl,fun a ha => ?_,iff_of_false (some_ne_none _) fun hmis =>
        absurd hk (ne_true_of_eq_false hmis.2)⟩
      simp only [mem_cons,not_mem_nil,or_false] at ha
      rcases ha with rfl|rfl|rfl
      · exact ⟨hlen,by omega⟩
      · exact hread 5 (by push_cast; omega)
      · exact ⟨by omega,by push_cast; omega⟩
    · have hend : tlv+9≤n := hend
      refine ⟨_,_,rfl,fun a ha => ?_,iff_of_true rfl ⟨hty,eq_false_of_ne_true hk⟩⟩
      simp only [mem_cons,not_mem_nil,or_false] at ha
      rcases ha with rfl|rfl
      · exact ⟨hlen,by omega⟩
      · exact hread 5 (by push_cast; omega)
  case h_3 | h_4 =>
    obtain ⟨hlen,hroom,hend,-⟩ := hfits (by omega)
    rw [hty] at hend
    have hend : tlv+8≤n := hend
    refine ⟨0,fun fuel _ h => ⟨_,_,rfl,fun a ha => ?_,
      iff_of_false (some_ne_none _) fun hmis => by omega⟩⟩
    simp only [mem_cons,not_mem_nil,or_false] at ha
    rcases ha with rfl|rfl
    · exact ⟨hlen,by omega⟩
    · exact hread 4 (by push_cast; omega)
  · rename_i h1 _
    exact ⟨0,fun fuel _ h => ⟨_,_,rfl,fun a ha => (by cases ha),
      iff_of_false (some_ne_none _) fun hmis => h1 hmis.1⟩⟩

theorem helloLoop_sound {left : ℤ} {r : List Access × Outcome}
    (hr : helloLoop mem localAddress kValues fuel tlv left h=some r) (hleft : tlv+left=n)
    (hgood : ∀ a∈r.1, a.Good n) : HelloFits mem localAddress kValues n tlv := by
  induction fuel generalizing tlv left h r with
  | zero => cases hr
  | succ fuel ih =>
    rw [helloLoop] at hr
    split_ifs at hr with hdone
    · exact .done (by omega)
    obtain ⟨⟨trace,next⟩,hb,hrs⟩ := bind_eq_some_iff.mp hr
    cases next with
    | none =>
      cases hrs
      obtain ⟨hfits,hmis⟩ := tlvBody_sound hb hleft fun a ha => hgood a (mem_cons_of_mem _ ha)
      exact .mismatch (by omega) hfits (hmis.mp rfl)
    | some h' =>
      dsimp only at hrs
      split_ifs at hrs with hshort
      · cases hrs
        obtain ⟨hfits,-⟩ := tlvBody_sound hb hleft fun a ha =>
          hgood a (mem_append_left _ (mem_cons_of_mem _ ha))
        have hread : tlv+2+2≤n := (hgood (.read (tlv+2) 2) (mem_append_right _ mem_cons_self)).2
        exact .short (by omega) hfits hshort
      · obtain ⟨r',hr',rfl⟩ := map_eq_some_iff.mp hrs
        have hfront := fun a ha => hgood a (mem_append_left _ ha)
        obtain ⟨hfits,hmis⟩ := tlvBody_sound hb hleft fun a ha =>
          hfront a (mem_append_left _ (mem_cons_of_mem _ ha))
        have hread : tlv+2+2≤n := (hfront (.read (tlv+2) 2) (mem_append_right _ mem_cons_self)).2
        exact .next (by omega) hfits (fun hm => nomatch hmis.mpr hm) (not_lt.mp hshort)
          (ih hr' (by omega) fun a ha => hgood a (mem_append_right _ (mem_cons_of_mem _ ha)))

theorem helloLoop_complete (hfits : HelloFits mem localAddress kValues n tlv) (hpos : 0≤tlv) :
    ∃ least, ∀ fuel≥least, ∀ h, ∃ r,
      helloLoop mem localAddress kValues fuel tlv (n-tlv) h=some r ∧ ∀ a∈r.1, a.Good n := by
  induction hfits with
  | done hle =>
    refine ⟨1,fun fuel hfuel h => ?_⟩
    obtain ⟨fuel,rfl⟩ := Nat.exists_eq_add_of_le' hfuel
    exact ⟨_,by rw [helloLoop,if_pos (by omega)],fun a ha => by cases ha⟩
  | @mismatch tlv hlt hfits hm =>
    obtain ⟨least,hbody⟩ := tlvBody_complete hfits hpos
    refine ⟨least+1,fun fuel hfuel h => ?_⟩
    obtain ⟨fuel,rfl⟩ := Nat.exists_eq_add_of_le' (show 1≤fuel by omega)
    obtain ⟨trace,next,hb,hgood,hmis⟩ := hbody fuel (by omega) h
    rw [helloLoop,if_neg (by omega),hb,hmis.mpr hm]
    refine ⟨_,rfl,fun a ha => ?_⟩
    rcases mem_cons.mp ha with rfl|ha
    · obtain ⟨hlen,hend,-⟩ := hfits (.inl hm.1)
      exact ⟨hpos,by push_cast; omega⟩
    · exact hgood a ha
  | @short tlv hroom hfits hshort =>
    obtain ⟨least,hbody⟩ := tlvBody_complete hfits hpos
    refine ⟨least+1,fun fuel hfuel h => ?_⟩
    obtain ⟨fuel,rfl⟩ := Nat.exists_eq_add_of_le' (show 1≤fuel by omega)
    obtain ⟨trace,next,hb,hgood,hmis⟩ := hbody fuel (by omega) h
    cases next with
    | none => exact absurd (hfits (.inl (hmis.mp rfl).1)).1 (not_le.mpr hshort)
    | some h' =>
      rw [helloLoop,if_neg (by omega),hb]
      refine ⟨_,if_pos hshort,fun a ha => ?_⟩
      rcases mem_append.mp ha with ha|ha
      · rcases mem_cons.mp ha with rfl|ha
        · exact ⟨hpos,by push_cast; omega⟩
        · exact hgood a ha
      · rw [mem_singleton.mp ha]
        exact ⟨by omega,by push_cast; omega⟩
  | @next tlv hroom hfits hm hlen _ ih =>
    obtain ⟨least,hbody⟩ := tlvBody_complete hfits hpos
    obtain ⟨least',ih⟩ := ih (by omega)
    refine ⟨max least least'+1,fun fuel hfuel h => ?_⟩
    obtain ⟨fuel,rfl⟩ := Nat.exists_eq_add_of_le' (show 1≤fuel by omega)
    obtain ⟨trace,next,hb,hgood,hmis⟩ := hbody fuel (by omega) h
    cases next with
    | none => exact absurd (hmis.mp rfl) hm
    | some h' =>
      obtain ⟨r,hr,hrgood⟩ := ih fuel (by omega) h'
      have hleft : n-(tlv+(ntohs mem (tlv+2) : ℤ))=n-tlv-ntohs mem (tlv+2) := by omega
      rw [hleft] at hr
      rw [helloLoop,if_neg (by omega),hb]
      refine ⟨_,(if_neg (not_lt.mpr hlen)).trans (congrArg _ hr),fun a ha => ?_⟩
      rcases mem_append.mp ha with ha|ha
      · rcases mem_append.mp ha with ha|ha
        · rcases mem_cons.mp ha with rfl|ha
          · exact ⟨hpos,by push_cast; omega⟩
          · exact hgood a ha
        · rw [mem_singleton.mp ha]
          exact ⟨by omega,by push_cast; omega⟩
      · rcases mem_cons.mp ha with rfl|ha
        · exact show tlv<tlv+(ntohs mem (tlv+2) : ℤ) by omega
        · exact hrgood a ha

/-- A hello is read inside the packet, forward and after its lengths are checked exactly when its
TLVs fit. -/
theorem recvHello_safe_iff (paklen : ℤ) (p : Peer) :
    Safe mem localAddress kValues paklen p ↔
      HelloFits mem localAddress kValues paklen headerBytes := by
  constructor
  · rintro ⟨fuel,trace,out,hrun,hgood⟩
    rw [recvHello] at hrun
    split_ifs at hrun with hempty
    · exact .done (by omega)
    · exact helloLoop_sound hrun (by omega) hgood
  · intro hfits
    by_cases hempty : paklen-headerBytes≤0
    · exact ⟨0,_,_,by rw [recvHello,if_pos hempty],fun a ha => by cases ha⟩
    · obtain ⟨least,hrun⟩ := helloLoop_complete hfits (by decide)
      obtain ⟨r,hr,hgood⟩ := hrun least le_rfl ⟨p,false,false,false⟩
      exact ⟨least,r.1,r.2,by rw [recvHello,if_neg hempty,hr],hgood⟩

/-- An address with the length byte 0xFF is looked at for ever. -/
theorem sequenceLoop_stalls (hbyte : mem addr=0xFF) {length : ℤ} (hlen : 0<length)
    (hlocal : localAddress (ntohl mem (addr+1))=false) (fuel : ℕ) :
    sequenceLoop mem localAddress fuel addr length=none := by
  induction fuel with
  | zero => rfl
  | succ fuel ih =>
    rw [sequenceLoop,if_neg (by omega),if_neg (ne_true_of_eq_false hlocal),hbyte]
    have hz : (0xFF : Byte).toInt+1=0 := by decide
    dsimp only
    rw [hz,add_zero,sub_zero,ih]
    rfl

/-- A hello of one Sequence TLV whose address has the length byte 0xFF. -/
def sampleHello (off : ℤ) : Byte :=
  if off=21 then 3 else if off=23 then 9 else if off=24 then 0xFF else 0

theorem recvHello_stalls :
    ¬Safe sampleHello (fun _ => false) [1,0,1,0,0] 29 ⟨false,0,0,true,0⟩ := by
  rintro ⟨fuel,trace,out,hrun,-⟩
  cases fuel with
  | zero => cases hrun
  | succ fuel =>
    have hseq (p : Peer) : findSequenceTlv sampleHello (fun _ => false) fuel 20 9 p=none := by
      rw [findSequenceTlv,sequenceLoop_stalls rfl (by decide) rfl]
      rfl
    rw [recvHello,if_neg (by decide),helloLoop,if_neg (by decide),headerBytes,
      show (29 : ℤ)-20=9 from rfl] at hrun
    unfold tlvBody at hrun
    rw [show ntohs sampleHello 20=3 by decide,hseq] at hrun
    cases hrun

end RoutePlatform.EigrpHello
