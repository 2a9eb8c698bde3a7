import RoutePlatform.PacketReaders

/-!
# Soundness of the packet examination

A packet that the examination accepts is read by the routine of its type inside the
declared length, and by the LSAs that were counted. A Link State Update that is put
together from well-formed LSAs is accepted.
-/

namespace RoutePlatform.PacketSoundness

open ReadTrace LsaOperations PacketExamination PacketReaders List
open Reading

variable {mem : Memory} {lsas : List ℕ} {n : ℕ} {headeronly : Bool} {b : List Byte} {p : ℕ}

/-- The type field of the packet. -/
def packetType (mem : Memory) : ℕ := (mem 1).toNat

/-- The length field of the packet. -/
def declaredLength (mem : Memory) : ℕ := (Reading.u16 2).value mem

/-- The number of LSAs that a Link State Update declares. -/
def numLsas (mem : Memory) : ℕ := (Reading.u32 24).value mem

/-- `length` of `ospf_read`, the size that a reader is given. -/
def readSize (mem : Memory) : ℕ := declaredLength mem-ospfHeaderSize

theorem authBytes_within (h : 24≤n) : Within authBytes mem 0 n := by
  refine (within_u16 (by omega) (by omega)).bind ?_
  split
  · exact within_pure _
  refine (within_byte (by omega) (by omega)).bind ?_
  split <;> exact within_pure _

/-- The part of the examination behind the version. -/
def examinBody (bytesonwire : ℕ) : Reading (Option (List ℕ)) := do
  let bytesdeclared ← Reading.u16 2
  let bytesauth ← authBytes
  match bytesauth with
  | none => pure none
  | some bytesauth =>
    if bytesdeclared+bytesauth > bytesonwire then pure none
    else do
      let type ← Reading.byte 1
      if 1≤type.toNat ∧ type.toNat≤5 ∧
          bytesdeclared<ospfHeaderSize+ospfPacketMinlen type.toNat then pure none
      else examinType type.toNat bytesdeclared

theorem ospfPacketExamin_eq (h : 24≤n) (hvn : (mem 0).toNat=2) :
    (ospfPacketExamin n).value mem=(examinBody n).value mem ∧
      (Within (examinBody n) mem 0 n → Within (ospfPacketExamin n) mem 0 n) := by
  have hshort : ¬n<ospfHeaderSize := not_lt.mpr h
  have hv : ¬(mem 0).toNat≠2 := not_not.mpr hvn
  unfold ospfPacketExamin
  rw [if_neg hshort]
  refine ⟨?_,fun hbody => (within_byte (by omega) (by omega)).bind ?_⟩
  · rw [value_bind,value_byte,if_neg hv]
    rfl
  rw [value_byte,if_neg hv]
  exact hbody

/-- What the examination has checked of a packet that it accepts. -/
structure Accepted (mem : Memory) (n : ℕ) (lsas : List ℕ) : Prop where
  wire : 24≤n
  known : 1≤packetType mem ∧ packetType mem≤5
  declared : declaredLength mem≤n
  minlen : 24+ospfPacketMinlen (packetType mem)≤declaredLength mem
  type : (examinType (packetType mem) (declaredLength mem)).value mem=some lsas
  reads : Within (examinType (packetType mem) (declaredLength mem)) mem 0 n →
    Within (ospfPacketExamin n) mem 0 n

theorem accepted_of_examin (h : (ospfPacketExamin n).value mem=some lsas) :
    Accepted mem n lsas := by
  have hwire : 24≤n := by
    by_contra hn
    unfold ospfPacketExamin at h
    rw [if_pos (show n<ospfHeaderSize from not_le.mp hn)] at h
    cases h
  have hvn : (mem 0).toNat=2 := by
    by_contra hv
    unfold ospfPacketExamin at h
    rw [if_neg (show ¬n<ospfHeaderSize from not_lt.mpr hwire),value_bind,value_byte,if_pos hv] at h
    cases h
  obtain ⟨hval,hreads⟩ := ospfPacketExamin_eq hwire hvn
  rw [hval] at h
  unfold examinBody at h hreads
  rw [value_bind,value_bind] at h
  split at h
  · cases h
  rename_i bytesauth hauth
  change Reading.value (if declaredLength mem+bytesauth > n then _ else _ :
    Reading (Option (List ℕ))) mem=_ at h
  by_cases hfits : declaredLength mem+bytesauth > n
  · rw [if_pos hfits] at h
    cases h
  rw [if_neg hfits,value_bind] at h
  change Reading.value (if 1≤packetType mem ∧ packetType mem≤5 ∧
    declaredLength mem<24+ospfPacketMinlen (packetType mem) then _ else _ :
    Reading (Option (List ℕ))) mem=_ at h
  by_cases hmin : 1≤packetType mem ∧ packetType mem≤5 ∧
      declaredLength mem<24+ospfPacketMinlen (packetType mem)
  · rw [if_pos hmin] at h
    cases h
  rw [if_neg hmin] at h
  have hty : (examinType (packetType mem) (declaredLength mem)).value mem=some lsas := h
  have hknown : 1≤packetType mem ∧ packetType mem≤5 := by
    by_contra hunknown
    unfold examinType at hty
    split at hty
    all_goals first
      | (rename_i heq; omega)
      | cases hty
  refine ⟨hwire,hknown,by omega,?_,hty,fun hin => hreads ?_⟩
  · by_contra hshort
    exact hmin ⟨hknown.1,hknown.2,by omega⟩
  refine (within_u16 (by omega) (by omega)).bind ((authBytes_within hwire).bind ?_)
  rw [hauth]
  change Within (if declaredLength mem+bytesauth > n then _ else _) _ _ _
  rw [if_neg hfits]
  refine (within_byte (by omega) (by omega)).bind ?_
  change Within (if 1≤packetType mem ∧ packetType mem≤5 ∧
    declaredLength mem<24+ospfPacketMinlen (packetType mem) then _ else _) _ _ _
  rw [if_neg hmin]
  exact hin

theorem examinType_lsUpd (declared : ℕ) : (examinType 4 declared).value mem =
    (ospfLsaseqExamin (24+4) (declared-24-4) false (numLsas mem)).value mem := by
  simp only [examinType,value_bind]
  rfl

theorem ospfLsaseqExamin_lsas {lsah lim declared : ℕ} (hle : lsah≤lim)
    (h : (ospfLsaseqExamin lsah (lim-lsah) headeronly declared).value mem=some lsas) :
    Lsas mem headeronly lim lsah lsas ∧ (declared=0 ∨ lsas.length=declared) ∧
      Within (ospfLsaseqExamin lsah (lim-lsah) headeronly declared) mem lsah lim := by
  unfold ospfLsaseqExamin at h
  rw [value_bind,value_pure] at h
  obtain ⟨hloop,hcnt⟩ := Option.filter_eq_some_iff.mp h
  obtain ⟨hlsas,hin⟩ := lsaseqLoop_lsas hloop
  rw [Nat.add_sub_cancel' hle] at hlsas hin
  exact ⟨hlsas,of_decide_eq_true hcnt,hin.bind (within_pure _)⟩

/-- A packet that was accepted is read as it was examined. -/
structure ReadAsExamined (mem : Memory) (n : ℕ) (lsas : List ℕ) : Prop where
  /-- The examination reads inside the bytes on the wire. -/
  examination : Within (ospfPacketExamin n) mem 0 n
  /-- `ospf_ls_upd_list_lsa` meets the LSAs, unless their number is declared as 0. -/
  lsUpd : packetType mem=4 → ∀ cx,
    Within (ospfLsUpdListLsa cx n 24 (readSize mem)) mem 24 (declaredLength mem) ∧
      (numLsas mem≠0 ∨ lsas=[] →
        ((ospfLsUpdListLsa cx n 24 (readSize mem)).value mem).map Prod.fst=lsas)
  /-- `ospf_db_desc_proc` meets the headers up to one that ends the exchange. -/
  dbDesc : packetType mem=2 → ∀ cx,
    Within (ospfDbDescProc cx n 24 (readSize mem)) mem 24 (declaredLength mem) ∧
      ((ospfDbDescProc cx n 24 (readSize mem)).value mem).1.map Prod.fst =
        lsas.takeWhile (describes mem cx) ∧
      ((ospfDbDescProc cx n 24 (readSize mem)).value mem).2 = !lsas.all (describes mem cx)
  /-- `ospf_ls_req` meets the requests up to one that cannot be answered. -/
  lsReq : packetType mem=3 → ∃ count, readSize mem=12*count ∧ ∀ cx,
    Within (ospfLsReq cx n 24 (readSize mem)) mem 24 (declaredLength mem) ∧
      ((ospfLsReq cx n 24 (readSize mem)).value mem).1 =
        (requests 24 count).takeWhile (requestFound mem cx) ∧
      ((ospfLsReq cx n 24 (readSize mem)).value mem).2 =
        !(requests 24 count).all (requestFound mem cx)
  /-- `ospf_ls_ack` meets the headers. -/
  lsAck : packetType mem=5 → Within (ospfLsAck n 24 (readSize mem)) mem 24 (declaredLength mem) ∧
      ((ospfLsAck n 24 (readSize mem)).value mem).map Prod.fst=lsas
  /-- A walk over the links of a Router-LSA meets the links that were counted. -/
  router : packetType mem=4 → ∀ lsah∈lsas, typeAt mem lsah=1 →
    lsah+lengthAt mem lsah≤declaredLength mem ∧ ∃ links,
      (ospfRouterLsaLinksExamin (lsah+24) (lengthAt mem lsah-24)
        ((Reading.u16 (lsah+22)).value mem)).value mem=some links ∧
      ∀ lsaType wId prevLink, (∀ q, prevLink=some q → q∈links) →
        (ospfGetNextLink lsah lsaType wId prevLink).value mem =
            (linksAfter links prevLink).find? (linkMatches mem lsaType wId) ∧
          Within (ospfGetNextLink lsah lsaType wId prevLink) mem lsah (lsah+lengthAt mem lsah)

theorem Lsas.passes {lim q : ℕ} (h : Lsas mem headeronly lim p lsas) (hq : q∈lsas) :
    q+lsaSize mem headeronly q≤lim ∧
      (ospfLsaExamin q (lengthAt mem q) headeronly).value mem=true := by
  induction h with
  | nil => cases hq
  | cons room header fits passes behind ih =>
    rcases mem_cons.mp hq with rfl|hq
    · exact ⟨fits,passes⟩
    · exact ih hq

theorem wrapSub_of_le {width a b : ℕ} (h : b≤a) (ha : a<2^width) : wrapSub width a b=a-b := by
  rw [wrapSub,show a+2^width-b=(a-b)+2^width by omega,Nat.add_mod_right,Nat.mod_eq_of_lt (by omega)]

theorem declaredLength_lt (mem : Memory) : declaredLength mem<65536 := value_u16_lt 2

theorem ospfLsUpdListLsa_lsas (cx : ReaderContext) (hn : declaredLength mem≤n)
    (hmin : 28≤declaredLength mem) (h : Lsas mem false (declaredLength mem) 28 lsas)
    (hcnt : numLsas mem=0 ∨ lsas.length=numLsas mem) :
    Within (ospfLsUpdListLsa cx n 24 (readSize mem)) mem 24 (declaredLength mem) ∧
      (numLsas mem≠0 ∨ lsas=[] →
        ((ospfLsUpdListLsa cx n 24 (readSize mem)).value mem).map Prod.fst=lsas) := by
  have hlt := declaredLength_lt mem
  have hle := h.le
  have hsub : wrapSub 64 (readSize mem) ospfLsUpdMinSize=declaredLength mem-28 := by
    change wrapSub 64 (declaredLength mem-24) 4=_
    rw [wrapSub_of_le (show 4≤declaredLength mem-24 by omega)
      (show declaredLength mem-24<2^64 by omega)]
    exact Nat.sub_sub _ 24 4
  have hget : (streamGetl n 24).value mem=(numLsas mem,28) := streamGetl_value (by omega)
  have hval : (ospfLsUpdListLsa cx n 24 (readSize mem)).value mem =
      (lsUpdLoop cx n (numLsas mem%2^16) 28 (declaredLength mem-28)).value mem := by
    unfold ospfLsUpdListLsa
    rw [value_bind,hget,hsub]
  have hin : Within (lsUpdLoop cx n (numLsas mem%2^16) 28 (declaredLength mem-28))
      mem 24 (declaredLength mem) →
      Within (ospfLsUpdListLsa cx n 24 (readSize mem)) mem 24 (declaredLength mem) := by
    intro hloop
    refine (streamGetl_within (le_refl _) (by omega)).bind ?_
    rw [hget,hsub]
    exact hloop
  obtain ⟨hall,hreads⟩ := lsUpdLoop_lsas cx h hn
  rcases eq_zero_or_pos (numLsas mem) with h0|hpos
  · rw [h0] at hin hval
    refine ⟨hin (within_pure _),fun hnone => ?_⟩
    rw [hval]
    rcases hnone with hnone|rfl
    · exact absurd h0 hnone
    · rfl
  have hlen := hcnt.resolve_left (by omega)
  have hmod : numLsas mem%2^16=lsas.length := by
    rw [hlen]
    exact Nat.mod_eq_of_lt (by omega)
  rw [hmod] at hin hval
  refine ⟨hin (hreads.mono (by omega) (le_refl _)),fun _ => ?_⟩
  rw [hval]
  exact hall

theorem readAsExamined_of_examin (h : (ospfPacketExamin n).value mem=some lsas) :
    ReadAsExamined mem n lsas := by
  obtain ⟨hwire,hknown,hdeclared,hmin,hty,hreads⟩ := accepted_of_examin h
  have hlt := declaredLength_lt mem
  have hseq : ∀ (size count : ℕ) (headeronly : Bool), 24+size≤declaredLength mem →
      (ospfLsaseqExamin (24+size) (declaredLength mem-24-size) headeronly count).value mem =
        some lsas →
      Lsas mem headeronly (declaredLength mem) (24+size) lsas ∧ (count=0 ∨ lsas.length=count) ∧
        Within (ospfLsaseqExamin (24+size) (declaredLength mem-24-size) headeronly count)
          mem 0 n := by
    intro size count headeronly hsize hval
    rw [Nat.sub_sub] at hval ⊢
    obtain ⟨hlsas,hcnt,hin⟩ := ospfLsaseqExamin_lsas hsize hval
    exact ⟨hlsas,hcnt,hin.mono (Nat.zero_le _) hdeclared⟩
  have other {p : Prop} (t : ℕ) (hne : packetType mem≠t) : packetType mem=t → p :=
    fun h => absurd h hne
  rcases (by omega : packetType mem=1 ∨ packetType mem=2 ∨ packetType mem=3 ∨
    packetType mem=4 ∨ packetType mem=5) with ht | ht | ht | ht | ht
  · have hin : Within (examinType 1 (declaredLength mem)) mem 0 n := by
      simp only [examinType]
      split <;> exact within_pure _
    rw [ht] at hreads
    exact ⟨hreads hin,other 4 (by omega),other 2 (by omega),other 3 (by omega),other 5 (by omega),
      other 4 (by omega)⟩
  · rw [ht] at hreads hmin hty
    change 32≤declaredLength mem at hmin
    obtain ⟨hlsas,-,hin⟩ := hseq 8 0 true hmin hty
    refine ⟨hreads hin,other 4 (by omega),fun _ cx => ?_,other 3 (by omega),
      other 5 (by omega),other 4 (by omega)⟩
    obtain ⟨hval,hreads'⟩ := dbDescLoop_lsas cx hlsas hdeclared
    have hproc : ospfDbDescProc cx n 24 (readSize mem) =
        dbDescLoop cx n 32 (declaredLength mem-32) := by
      change dbDescLoop cx n (streamForwardGetp n 24 8) (wrapSub 16 (declaredLength mem-24) 8)=_
      rw [streamForwardGetp_of_le (show 24+8≤n by omega),
        wrapSub_of_le (show 8≤declaredLength mem-24 by omega)
          (show declaredLength mem-24<2^16 by omega),Nat.sub_sub]
    rw [hproc]
    exact ⟨hreads'.mono (by omega) (le_refl _),hval⟩
  · rw [ht] at hreads hty
    have hin : Within (examinType 3 (declaredLength mem)) mem 0 n := by
      simp only [examinType]
      split <;> exact within_pure _
    have hblocks : readSize mem%12=0 := by
      by_contra hne
      simp only [examinType] at hty
      rw [if_pos (show (declaredLength mem-24-0)%12≠0 from hne)] at hty
      cases hty
    refine ⟨hreads hin,other 4 (by omega),other 2 (by omega),
      fun _ => ⟨readSize mem/12,by omega,?_⟩,other 5 (by omega),other 4 (by omega)⟩
    intro cx
    have hsize : readSize mem=12*(readSize mem/12) := by omega
    have hend : 24+12*(readSize mem/12)=declaredLength mem := by
      have : readSize mem=declaredLength mem-24 := rfl
      omega
    obtain ⟨hval,hreads'⟩ := @ospfLsReq_requests mem n cx (readSize mem/12) 24 (by omega)
    rw [hend,←hsize] at hreads'
    rw [←hsize] at hval
    exact ⟨hreads',hval⟩
  · rw [ht] at hreads hmin hty
    change 28≤declaredLength mem at hmin
    rw [examinType_lsUpd] at hty
    obtain ⟨hlsas,hcnt,hin⟩ := hseq 4 (numLsas mem) false hmin hty
    have hupd : Within (examinType 4 (declaredLength mem)) mem 0 n :=
      (within_u32 (Nat.zero_le _) (show 24+4≤n by omega)).bind hin
    refine ⟨hreads hupd,fun _ cx => ospfLsUpdListLsa_lsas cx hdeclared hmin hlsas hcnt,
      other 2 (by omega),other 3 (by omega),other 5 (by omega),fun _ lsah hlsah hrouter => ?_⟩
    obtain ⟨hfits,hpasses⟩ := Lsas.passes hlsas hlsah
    obtain ⟨hlong,links,hexamin,hlinks,-⟩ := ospfLsaExamin_router hpasses hrouter
    exact ⟨hfits,links,hexamin,fun lsaType wId prevLink hprev =>
      ospfGetNextLink_links lsaType wId rfl hlong hlinks hprev⟩
  · rw [ht] at hreads hmin hty
    obtain ⟨hlsas,-,hin⟩ := hseq 0 0 true hmin hty
    refine ⟨hreads hin,other 4 (by omega),other 2 (by omega),other 3 (by omega),fun _ => ?_,
      other 4 (by omega)⟩
    obtain ⟨hval,hreads'⟩ := ospfLsAck_lsas hlsas hdeclared
    exact ⟨hreads',hval⟩

def fieldAt (b : List Byte) (k : ℕ) : ℕ := (b.getD k 0).toNat*256+(b.getD (k+1) 0).toNat

/-- A link block: its length follows from the number of its TOS metrics. -/
def IsLink (b : List Byte) : Prop := b.length=linkSize (b.getD 9 0)

/-- What follows the header: links, forwarding blocks, or words. -/
def WellFormedBody (type : ℕ) (body : List Byte) : Prop :=
  match type with
  | 1 => ∃ (flags zero high low : Byte) (links : List (List Byte)),
      body=[flags,zero,high,low]++links.flatten ∧ (∀ l∈links, IsLink l) ∧
        links.length=high.toNat*256+low.toNat
  | 5 | 7 => ∃ k, body.length=4+12*(k+1)
  | 2 | 3 | 4 => ∃ k, body.length=4+4*(k+1)
  | 9 | 10 | 11 => ∃ k, body.length=4*k
  | _ => False

/-- An LSA whose length field is right, and whose body is that of its type. -/
structure WellFormedLsa (b : List Byte) : Prop where
  header : 20≤b.length
  length : fieldAt b 18=b.length
  body : WellFormedBody (b.getD 3 0).toNat (b.drop 20)

/-- A Link State Update that is put together from LSAs, with the digest that
follows it. -/
structure WellFormedUpdate (head : List Byte) (lsas : List (List Byte)) (digest : List Byte) :
    Prop where
  /-- The header of the packet and the number of LSAs. -/
  size : head.length=28
  version : (head.getD 0 0).toNat=2
  type : (head.getD 1 0).toNat=4
  length : fieldAt head 2=28+lsas.flatten.length
  /-- Where there is a digest it has the right length. -/
  auth : fieldAt head 14=2 → (head.getD 19 0).toNat=16 ∧ 16≤digest.length
  count : fieldAt head 24*65536+fieldAt head 26=lsas.length
  wellFormed : ∀ b∈lsas, WellFormedLsa b

/-- Where blocks start that follow each other. -/
def starts (p : ℕ) : List (List Byte)→List ℕ
  | [] => []
  | b::rest => p::starts (p+b.length) rest

theorem starts_length (blocks : List (List Byte)) :
    ∀ p, (starts p blocks).length=blocks.length := by
  induction blocks with
  | nil => exact fun _ => rfl
  | cons b rest ih => exact fun p => congrArg (· + 1) (ih _)

theorem stored_u16 {off k : ℕ} (h : Stored mem off b) (hk : k+1<b.length) :
    (u16 (off+k)).value mem=fieldAt b k := by
  rw [value_u16,add_assoc,h.getD (by omega),h.getD hk]
  rfl

theorem links_of_stored {links : List (List Byte)} : ∀ {p : ℕ}, Stored mem p links.flatten →
    (∀ l∈links, IsLink l) → Links mem (p+links.flatten.length) p (starts p links) := by
  induction links with
  | nil => exact fun _ _ => Links.nil
  | cons l rest ih =>
    intro p hsto hlinks
    rw [flatten_cons] at hsto ⊢
    obtain ⟨hl,hrs⟩ := stored_append.mp hsto
    have hlink := hlinks l mem_cons_self
    have hlong := le_linkSize (l.getD 9 0)
    have htos : mem (p+9)=l.getD 9 0 := by
      refine hl.getD ?_
      rw [hlink]
      omega
    have hsize : linkSize (mem (p+9))=l.length := by
      rw [htos]
      exact hlink.symm
    rw [length_append]
    refine Links.cons ?_ ?_
    · rw [hsize]
      omega
    rw [hsize,←add_assoc]
    exact ih hrs fun l' hl' => hlinks l' (mem_cons_of_mem l hl')

theorem ospfLsaExamin_of_wellFormed (hsto : Stored mem p b) (h : WellFormedLsa b) :
    (ospfLsaExamin p b.length false).value mem=true := by
  have hhdr := h.header
  have hbody := h.body
  have hty : mem (p+3)=b.getD 3 0 := hsto.getD (by omega)
  have hdrop : (b.drop 20).length=b.length-20 := length_drop
  have hpass : ∀ t : ℕ, ospfLsaMinlen t≤b.length-20 →
      ¬(t<ospfMaxLsa ∧ ospfLsaMinlen t≠0 ∧ b.length<ospfLsaHeaderSize+ospfLsaMinlen t) := by
    rintro t hmin ⟨-,-,hshort⟩
    change b.length<20+_ at hshort
    omega
  unfold ospfLsaExamin
  rw [value_bind,value_byte,hty]
  generalize (b.getD 3 0).toNat=t at hbody ⊢
  unfold WellFormedBody at hbody
  split at hbody
  · obtain ⟨flags,zero,high,low,links,heq,hlinks,hcnt⟩ := hbody
    have hlen : b.length-20=4+links.flatten.length := by
      rw [←hdrop,heq,length_append]
      rfl
    rw [if_neg (hpass 1 (by rw [hlen]; exact Nat.le_add_right _ _))]
    have hsplit : Stored mem p (b.take 20) ∧ Stored mem (p+20) (b.drop 20) := by
      have := stored_append.mp ((take_append_drop 20 b).symm ▸ hsto)
      rw [length_take,min_eq_left hhdr] at this
      exact this
    rw [heq] at hsplit
    obtain ⟨hfront,hlinksAt⟩ := stored_append.mp hsplit.2
    have hnum : (u16 (p+22)).value mem=links.length := by
      have hfield := stored_u16 hfront (k := 2) (by simp)
      rw [show p+22=p+20+2 by omega,hfield,hcnt]
      rfl
    have hfill := links_of_stored hlinksAt hlinks
    have hloop := linksLoop_of_links hfill
    change Option.isSome ((ospfRouterLsaLinksExamin (p+24) (b.length-20-4)
      ((u16 (p+22)).value mem)).value mem)=true
    unfold ospfRouterLsaLinksExamin
    rw [value_bind,value_pure,hlen,Nat.add_sub_cancel_left,hnum]
    rw [show (linksLoop (p+20+4) links.flatten.length).value mem = some (starts (p+20+4) links) by
      simpa using hloop]
    simp [Option.filter,starts_length]
  all_goals first
    | exact hbody.elim
    | obtain ⟨k,hk⟩ := hbody
      rw [hdrop] at hk
      rw [if_neg (hpass _ (by simp only [ospfLsaMinlen,ospfAsExternalLsaMinSize]; omega))]
      simp only [value_pure,ospfLsaHeaderSize,ospfAsExternalLsaMinSize,decide_eq_true_eq]
      omega

theorem lsas_of_stored {lsas : List (List Byte)} : ∀ {p : ℕ}, Stored mem p lsas.flatten →
    (∀ b∈lsas, WellFormedLsa b) → Lsas mem false (p+lsas.flatten.length) p (starts p lsas) := by
  induction lsas with
  | nil => exact fun _ _ => Lsas.nil
  | cons b rest ih =>
    intro p hsto hlsas
    rw [flatten_cons] at hsto ⊢
    obtain ⟨hb,hrs⟩ := stored_append.mp hsto
    have hformed := hlsas b mem_cons_self
    have hhdr := hformed.header
    have hlen : lengthAt mem p=b.length := by
      rw [←hformed.length]
      exact stored_u16 hb (by omega)
    have hsize : lsaSize mem false p=b.length := hlen
    rw [length_append]
    refine Lsas.cons (by omega) (by omega) (by omega) ?_ ?_
    · rw [hlen]
      exact ospfLsaExamin_of_wellFormed hb hformed
    rw [hsize,←add_assoc]
    exact ih hrs fun b' hb' => hlsas b' (mem_cons_of_mem b hb')

theorem lsaseqLoop_of_stored {lsas : List (List Byte)} (h : Stored mem p lsas.flatten)
    (hlsas : ∀ b∈lsas, WellFormedLsa b) :
    (lsaseqLoop false p lsas.flatten.length).value mem=some (starts p lsas) := by
  have hloop := lsaseqLoop_of_lsas (lsas_of_stored h hlsas)
  rwa [Nat.add_sub_cancel_left] at hloop

/-- A Link State Update that is put together from well-formed LSAs is accepted,
whatever memory is behind it. -/
theorem ospfPacketExamin_of_wellFormed {head digest : List Byte} {lsas : List (List Byte)}
    (h : WellFormedUpdate head lsas digest) (behind : Memory) :
    (ospfPacketExamin (head++lsas.flatten++digest).length).value
        (memoryOf (head++lsas.flatten++digest) behind)=some (starts 28 lsas) := by
  obtain ⟨hlen,hvn,hty,hlength,hauth,hcnt,hlsas⟩ := h
  have hsto := stored_memoryOf (head++lsas.flatten++digest) behind
  have htotal : (head++lsas.flatten++digest).length = 28+lsas.flatten.length+digest.length := by
    rw [length_append,length_append,hlen]
  generalize memoryOf (head++lsas.flatten++digest) behind=mem at hsto ⊢
  rw [htotal]
  obtain ⟨hfront,-⟩ := stored_append.mp hsto
  obtain ⟨hhead,hseq⟩ := stored_append.mp hfront
  rw [zero_add,hlen] at hseq
  have hbyte : ∀ k<28, mem k=head.getD k 0 := by
    intro k hk
    have := hhead.getD (k := k) (by omega)
    rwa [zero_add] at this
  have hfield : ∀ k, k+1<28 → (u16 k).value mem=fieldAt head k := by
    intro k hk
    have := stored_u16 hhead (k := k) (by omega)
    rwa [zero_add] at this
  have hdeclared : declaredLength mem=28+lsas.flatten.length := by
    rw [declaredLength,hfield 2 (by omega),hlength]
  have hver : (mem 0).toNat=2 := by
    rw [hbyte 0 (by omega)]
    exact hvn
  have hty' : (mem 1).toNat=4 := by
    rw [hbyte 1 (by omega)]
    exact hty
  have hnum : numLsas mem=lsas.length := by
    rw [numLsas,value_u32,hfield 24 (by omega),hfield 26 (by omega),hcnt]
  have hbs : ∃ bytesauth, authBytes.value mem=some bytesauth ∧ bytesauth≤digest.length := by
    unfold authBytes
    rw [value_bind,hfield 14 (by omega)]
    by_cases hcrypt : fieldAt head 14=2
    · obtain ⟨hmd5,hroom⟩ := hauth hcrypt
      rw [if_neg (not_not.mpr hcrypt),value_bind,value_byte,
        hbyte 19 (by omega),if_neg (not_not.mpr hmd5)]
      exact ⟨16,rfl,hroom⟩
    rw [if_pos hcrypt]
    exact ⟨0,rfl,Nat.zero_le _⟩
  obtain ⟨bytesauth,hauthBytes,hroom⟩ := hbs
  have hloop := lsaseqLoop_of_stored hseq hlsas
  rw [(ospfPacketExamin_eq (by omega) hver).1,examinBody,value_bind,value_bind,hauthBytes]
  change Reading.value (if declaredLength mem+bytesauth > _ then _ else _ :
    Reading (Option (List ℕ))) mem=_
  rw [if_neg (by omega),value_bind,value_byte,hty',if_neg]
  · rw [show (u16 2).value mem=declaredLength mem from rfl,examinType_lsUpd,hnum,
      ospfLsaseqExamin,value_bind,value_pure,hdeclared,
      show 28+lsas.flatten.length-24-4=lsas.flatten.length by omega]
    rw [hloop]
    simp [Option.filter,starts_length]
  rintro ⟨-,-,hshort⟩
  change declaredLength mem<24+4 at hshort
  omega

/-- An accepted packet is examined inside the wire and read inside its length by the LSAs counted;
one of well-formed LSAs is accepted. -/
theorem packet_examination : (∀ (mem : Memory) (n : ℕ) (lsas : List ℕ),
      (ospfPacketExamin n).value mem=some lsas → ReadAsExamined mem n lsas) ∧
    ∀ (head digest : List Byte) (lsas : List (List Byte)), WellFormedUpdate head lsas digest →
      ∀ behind, ∃ counted, (ospfPacketExamin (head++lsas.flatten++digest).length).value
        (memoryOf (head++lsas.flatten++digest) behind)=some counted :=
  ⟨fun _ _ _ h => readAsExamined_of_examin h,
    fun _ _ _ h behind => ⟨_,ospfPacketExamin_of_wellFormed h behind⟩⟩

/-- The header of an opaque LSA of an area. -/
def opaqueHeader : List Byte := [0,1,0x42,10,1,0,0,1,10,0,0,1,0x80,0,0,1,0,0,0,20]

/-- The header of a Link State Update with one LSA of 20 bytes. -/
def updateHead : List Byte := [2,4,0,48,10,0,0,1,0,0,0,0,0,0,0,0,0,0,0,0,0,0,0,0,0,0,0,1]

theorem updateHead_wellFormed : WellFormedUpdate updateHead [opaqueHeader] [] where
  size := rfl
  version := by decide
  type := by decide
  length := by decide
  auth := nofun
  count := by decide
  wellFormed := by
    intro b hb
    rw [mem_singleton.mp hb]
    exact ⟨by decide,by decide,⟨0,by decide⟩⟩

/-- A packet with one opaque LSA is accepted and read. -/
theorem packet_examination_update : ∃ lsas,
    (ospfPacketExamin 48).value (memoryOf (updateHead++opaqueHeader++[]) 0)=some lsas ∧
      ReadAsExamined (memoryOf (updateHead++opaqueHeader++[]) 0) 48 lsas := by
  obtain ⟨lsas,h⟩ := packet_examination.2 updateHead [] [opaqueHeader] updateHead_wellFormed 0
  exact ⟨lsas,h,packet_examination.1 _ _ lsas h⟩

/-- A Database Description with the header of one opaque LSA. -/
def descriptionPacket : List Byte :=
  [2,2,0,52,10,0,0,1,0,0,0,0,0,0,0,0,0,0,0,0,0,0,0,0,5,220,2,1,0,0,0,7]++opaqueHeader

theorem descriptionPacket_accepted :
    (ospfPacketExamin 52).value (memoryOf descriptionPacket 0)=some [32] := by
  have hlsas : Lsas (memoryOf descriptionPacket 0) true 52 32 [32] :=
    Lsas.cons (by decide) (by decide) (by decide) (by decide) Lsas.nil
  have hloop := lsaseqLoop_of_lsas hlsas
  have hseq : (ospfLsaseqExamin 32 20 true 0).value (memoryOf descriptionPacket 0) = some [32] := by
    unfold ospfLsaseqExamin
    rw [value_bind,hloop]
    rfl
  rw [←hseq]
  rfl

/-- A header that ends the exchange is counted but not processed. -/
theorem dbDescProc_stops :
    ¬ ∀ (mem : Memory) (n : ℕ) (lsas : List ℕ), (ospfPacketExamin n).value mem=some lsas →
      packetType mem=2 → ∀ cx,
        ((ospfDbDescProc cx n 24 (readSize mem)).value mem).1.map Prod.fst=lsas := by
  intro h
  have hread := readAsExamined_of_examin descriptionPacket_accepted
  obtain ⟨-,hproc,-⟩ := hread.dbDesc (by decide) ⟨false,.default,fun _ => true, fun _ _ _ => true⟩
  rw [h _ 52 [32] descriptionPacket_accepted (by decide)] at hproc
  cases hproc

end RoutePlatform.PacketSoundness
