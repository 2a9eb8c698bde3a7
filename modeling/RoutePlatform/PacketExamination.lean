import RoutePlatform.ReadTrace
import RoutePlatform.LsaOperations

/-!
# Examination and reading of OSPF packets in `ospfd/ospf_packet.c`

A received packet is examined once before the routine of its type reads it. Offsets count from the
OSPF header. Memory goes on behind the packet, so a read outside is possible and shows. What a
reader asks other parts of the daemon is an argument.
-/

namespace RoutePlatform.PacketExamination

open ReadTrace ReadTrace.Reading LsaOperations

abbrev ospfHeaderSize : ℕ := 24

abbrev ospfLsaHeaderSize : ℕ := 20

abbrev ospfRouterLsaLinkSize : ℕ := 12

abbrev ospfRouterLsaTosSize : ℕ := 4

abbrev ospfRouterLsaMinSize : ℕ := 4

abbrev ospfAsExternalLsaMinSize : ℕ := 16

abbrev ospfLsaKeySize : ℕ := 12

abbrev ospfHelloMinSize : ℕ := 20

abbrev ospfDbDescMinSize : ℕ := 8

abbrev ospfLsReqMinSize : ℕ := 0

abbrev ospfLsUpdMinSize : ℕ := 4

abbrev ospfLsAckMinSize : ℕ := 0

abbrev ospfAuthMd5Size : ℕ := 16

def ospfPacketMinlen : ℕ→ℕ
  | 1 => ospfHelloMinSize
  | 2 => ospfDbDescMinSize
  | 3 => ospfLsReqMinSize
  | 4 => ospfLsUpdMinSize
  | 5 => ospfLsAckMinSize
  | _ => 0

def ospfLsaMinlen : ℕ→ℕ
  | 1 => ospfRouterLsaMinSize
  | 2 => 8
  | 3 => 8
  | 4 => 8
  | 5 => ospfAsExternalLsaMinSize
  | 7 => ospfAsExternalLsaMinSize
  | _ => 0

/-- The size of the link block with a number of TOS metrics. -/
def linkSize (tosCount : Byte) : ℕ := ospfRouterLsaLinkSize+ospfRouterLsaTosSize*tosCount.toNat

/-- The loop of `ospf_router_lsa_links_examin`. -/
def linksLoop (link linkbytes : ℕ) : Reading (Option (List ℕ)) := if linkbytes=0 then pure (some [])
  else do
    let tosCount ← Reading.byte (link+9)
    if linkSize tosCount > linkbytes then pure none
    else do
      let counted ← linksLoop (link+linkSize tosCount) (linkbytes-linkSize tosCount)
      pure (counted.map (link :: ·))
termination_by linkbytes
decreasing_by
  simp only [linkSize,ospfRouterLsaLinkSize,ospfRouterLsaTosSize] at *
  omega

/-- `ospf_router_lsa_links_examin`: the links counted by `MSG_OK`. -/
def ospfRouterLsaLinksExamin (link linkbytes numLinks : ℕ) : Reading (Option (List ℕ)) := do
  let counted ← linksLoop link linkbytes
  pure (counted.filter fun links => links.length=numLinks)

/-- `ospf_lsa_examin`, which checks the minimum length first. -/
def ospfLsaExamin (lsah lsalen : ℕ) (headeronly : Bool) : Reading Bool := do
  let type ← Reading.byte (lsah+3)
  if type.toNat<ospfMaxLsa ∧ ospfLsaMinlen type.toNat≠0 ∧
      lsalen<ospfLsaHeaderSize+ospfLsaMinlen type.toNat then pure false
  else
    match type.toNat with
    | 1 =>
      if headeronly then pure ((lsalen-ospfLsaHeaderSize-ospfRouterLsaMinSize)%4=0)
      else do
        let links ← Reading.u16 (lsah+22)
        let counted ← ospfRouterLsaLinksExamin (lsah+ospfLsaHeaderSize+4)
          (lsalen-ospfLsaHeaderSize-4) links
        pure counted.isSome
    | 5 | 7 => pure ((lsalen-ospfLsaHeaderSize-ospfAsExternalLsaMinSize)%12=0)
    | 2 | 3 | 4 | 9 | 10 | 11 => pure (lsalen%4=0)
    | _ => pure false

/-- The loop of `ospf_lsaseq_examin`. -/
def lsaseqLoop (headeronly : Bool) (lsah length : ℕ) : Reading (Option (List ℕ)) :=
  if length=0 then pure (some [])
  else if length<ospfLsaHeaderSize then pure none
  else do
    let lsalen ← Reading.u16 (lsah+18)
    if lsalen<ospfLsaHeaderSize then pure none
    else if headeronly then do
      let ok ← ospfLsaExamin lsah lsalen true
      if !ok then pure none
      else do
        let counted ← lsaseqLoop headeronly (lsah+ospfLsaHeaderSize) (length-ospfLsaHeaderSize)
        pure (counted.map (lsah :: ·))
    else if lsalen > length then pure none
    else do
      let ok ← ospfLsaExamin lsah lsalen false
      if !ok then pure none
      else do
        let counted ← lsaseqLoop headeronly (lsah+lsalen) (length-lsalen)
        pure (counted.map (lsah :: ·))
termination_by length
decreasing_by
  all_goals
    simp only [ospfLsaHeaderSize] at *
    omega

/-- `ospf_lsaseq_examin`: the LSAs counted by `MSG_OK`. -/
def ospfLsaseqExamin (lsah length : ℕ) (headeronly : Bool) (declaredNumLsas : ℕ) :
    Reading (Option (List ℕ)) := do
  let counted ← lsaseqLoop headeronly lsah length
  pure (counted.filter fun lsas => declaredNumLsas=0 ∨ lsas.length=declaredNumLsas)

/-- `bytesauth`, if the digest has `OSPF_AUTH_MD5_SIZE` bytes. -/
def authBytes : Reading (Option ℕ) := do
  let authType ← Reading.u16 14
  if authType≠2 then pure (some 0)
  else do
    let authDataLen ← Reading.byte 19
    if authDataLen.toNat≠ospfAuthMd5Size then pure none else pure (some ospfAuthMd5Size)

/-- The check of `ospf_packet_examin` for the type of the packet. -/
def examinType (type bytesdeclared : ℕ) : Reading (Option (List ℕ)) :=
  match type with
  | 1 =>
    if (bytesdeclared-ospfHeaderSize-ospfHelloMinSize)%4≠0 then pure none
    else pure (some [])
  | 2 => ospfLsaseqExamin (ospfHeaderSize+ospfDbDescMinSize)
      (bytesdeclared-ospfHeaderSize-ospfDbDescMinSize) true 0
  | 3 =>
    if (bytesdeclared-ospfHeaderSize-ospfLsReqMinSize)%ospfLsaKeySize≠0 then pure none
    else pure (some [])
  | 4 => do
    let numLsas ← Reading.u32 ospfHeaderSize
    ospfLsaseqExamin (ospfHeaderSize+ospfLsUpdMinSize)
      (bytesdeclared-ospfHeaderSize-ospfLsUpdMinSize) false numLsas
  | 5 => ospfLsaseqExamin (ospfHeaderSize+ospfLsAckMinSize)
      (bytesdeclared-ospfHeaderSize-ospfLsAckMinSize) true 0
  | _ => pure none

/-- `ospf_packet_examin`: the LSAs counted by `MSG_OK`, if any. -/
def ospfPacketExamin (bytesonwire : ℕ) : Reading (Option (List ℕ)) :=
  if bytesonwire<ospfHeaderSize then pure none
  else do
    let version ← Reading.byte 0
    if version.toNat≠2 then pure none
    else do
      let bytesdeclared ← Reading.u16 2
      let bytesauth ← authBytes
      match bytesauth with
      | none => pure none
      | some bytesauth =>
        if bytesdeclared+bytesauth > bytesonwire then pure none
        else do
          let type ← Reading.byte 1
          if 1≤type.toNat ∧ type.toNat≤5 ∧
              bytesdeclared<ospfHeaderSize+ospfPacketMinlen type.toNat then pure none
          else examinType type.toNat bytesdeclared

/-- Behind the end of the stream this and the get below abort in `stream.c`; the checks keep the
readers from it. -/
def streamForwardGetp (endp getp size : ℕ) : ℕ := if getp+size≤endp then getp+size else getp

/-- `stream_getl` and `stream_get_ipv4`, with the position behind. -/
def streamGetl (endp getp : ℕ) : Reading (ℕ × ℕ) :=
  if getp+4≤endp then do
    let l ← Reading.u32 getp
    pure (l,getp+4)
  else pure (0,getp)

/-- Subtraction of unsigned numbers of a width. -/
def wrapSub (width a b : ℕ) : ℕ := (a+2^width-b)%2^width

/-- What the reading of an LSA depends on. -/
structure ReaderContext where
  /-- `OSPF_OPTION_O` is in the options of the neighbour. -/
  optionO : Bool
  /-- `external_routing` of the area. -/
  externalRouting : ExternalRouting
  /-- `fletcher_checksum` of the bytes validates them. -/
  checksumValid : List Byte→Bool
  /-- `ospf_lsa_lookup` finds the LSA with the key. -/
  found : ℕ→ℕ→ℕ→Bool

/-- The type is outside of the known ones. -/
def unknownType (type : ℕ) : Bool := type<ospfMinLsa ∨ type ≥ ospfMaxLsa

/-- An LSA that `ospf_ls_upd_list_lsa` makes. -/
structure ListedLsa where
  data : List Byte
  area : Bool
  oi : Bool

/-- A turn of `ospf_ls_upd_list_lsa`, which cuts an age to MaxAge. -/
def listLsa (cx : ReaderContext) (lsah length : ℕ) : Reading (Option ListedLsa) := do
  let covered ← Reading.bytes (lsah+2) (length-2)
  if !cx.checksumValid covered then pure none
  else do
    let type ← Reading.byte (lsah+3)
    if unknownType type.toNat then pure none
    else do
      let lsAge ← Reading.u16 lsah
      let stub := cx.optionO ∧ type.toNat=11 ∧ cx.externalRouting ≠ .default
      if stub ∨ (!cx.optionO ∧ isOpaqueLsa type) then pure none
      else do
        let data ← Reading.bytes lsah length
        pure (some
          { data := if lsAge > ospfLsaMaxage then
              BitVec.ofNat 8 (ospfLsaMaxage/256)::BitVec.ofNat 8 ospfLsaMaxage::data.drop 2
              else data
            area := type.toNat≠5 ∧ type.toNat≠11
            oi := type.toNat=9 })

/-- The loop of `ospf_ls_upd_list_lsa`: where it found an LSA, and what it made of
it. -/
def lsUpdLoop (cx : ReaderContext) (endp : ℕ) : ℕ→ℕ→ℕ→Reading (List (ℕ × Option ListedLsa))
  | 0, _, _ => pure []
  | count+1, getp, size =>
    if size<ospfLsaHeaderSize then pure []
    else do
      let length ← Reading.u16 (getp+18)
      if length > size then pure []
      else do
        let lsa ← listLsa cx getp length
        let rest ← lsUpdLoop cx endp count (streamForwardGetp endp getp length) (size-length)
        pure ((getp,lsa)::rest)

/-- `ospf_ls_upd_list_lsa`. The count has 16 bits. -/
def ospfLsUpdListLsa (cx : ReaderContext) (endp getp size : ℕ) :
    Reading (List (ℕ × Option ListedLsa)) := do
  let (count,getp) ← streamGetl endp getp
  lsUpdLoop cx endp (count%2^16) getp (wrapSub 64 size ospfLsUpdMinSize)

/-- `ospf_db_desc_proc` returns at a header of the type. -/
def dbDescStops (cx : ReaderContext) (type : Byte) : Bool :=
  unknownType type.toNat ∨ (isOpaqueLsa type ∧ !cx.optionO) ∨
    ((type.toNat=5 ∨ type.toNat=11) ∧ cx.externalRouting=.stub)

/-- The loop of `ospf_db_desc_proc`: the headers that are processed, and whether
it ends with the event SeqNumberMismatch. -/
def dbDescLoop (cx : ReaderContext) (endp getp size : ℕ) : Reading (List (ℕ × List Byte) × Bool) :=
  if size<ospfLsaHeaderSize then pure ([],false)
  else do
    let type ← Reading.byte (getp+3)
    if dbDescStops cx type then pure ([],true)
    else do
      let header ← Reading.bytes getp ospfLsaHeaderSize
      let rest ← dbDescLoop cx endp (streamForwardGetp endp getp ospfLsaHeaderSize)
        (size-ospfLsaHeaderSize)
      pure ((getp,header)::rest.1,rest.2)
termination_by size
decreasing_by
  simp only [ospfLsaHeaderSize] at *
  omega

/-- `ospf_db_desc_proc`. The size has 16 bits. -/
def ospfDbDescProc (cx : ReaderContext) (endp getp size : ℕ) :
    Reading (List (ℕ × List Byte) × Bool) :=
  dbDescLoop cx endp (streamForwardGetp endp getp ospfDbDescMinSize)
    (wrapSub 16 size ospfDbDescMinSize)

/-- The loop of `ospf_ls_req`: the requests answered, and a BadLSReq. -/
def ospfLsReq (cx : ReaderContext) (endp getp size : ℕ) : Reading (List ℕ × Bool) :=
  if size<ospfLsaKeySize then pure ([],false)
  else do
    let (lsType,getp1) ← streamGetl endp getp
    let (lsId,getp2) ← streamGetl endp getp1
    let (advRouter,getp3) ← streamGetl endp getp2
    if unknownType lsType then pure ([],true)
    else if !cx.found lsType lsId advRouter then pure ([],true)
    else do
      let rest ← ospfLsReq cx endp getp3 (size-ospfLsaKeySize)
      pure (getp::rest.1,rest.2)
termination_by size
decreasing_by
  simp only [ospfLsaKeySize] at *
  omega

/-- The header that `ospf_ls_ack` looks for in the retransmission list. -/
def ackHeader (lsah : ℕ) : Reading (Option (List Byte)) := do
  let type ← Reading.byte (lsah+3)
  if unknownType type.toNat then pure none
  else do
    let header ← Reading.bytes lsah ospfLsaHeaderSize
    pure (some header)

/-- The loop of `ospf_ls_ack`: the headers, without one for an unknown type. -/
def ospfLsAck (endp getp size : ℕ) : Reading (List (ℕ × Option (List Byte))) :=
  if size<ospfLsaHeaderSize then pure []
  else do
    let header ← ackHeader getp
    let rest ← ospfLsAck endp (streamForwardGetp endp getp ospfLsaHeaderSize)
      (size-ospfLsaHeaderSize)
    pure ((getp,header)::rest)
termination_by size
decreasing_by
  simp only [ospfLsaHeaderSize] at *
  omega

/-- The loop of `ospf_get_next_link`. -/
def nextLinkLoop (lsaType : Byte) (wId p lim : ℕ) : Reading (Option ℕ) :=
  if p<lim then do
    let tosCount ← Reading.byte (p+9)
    let type ← Reading.byte (p+8)
    if type≠lsaType then nextLinkLoop lsaType wId (p+linkSize tosCount) lim
    else do
      let linkId ← Reading.u32 p
      if linkId=wId then pure (some p)
      else nextLinkLoop lsaType wId (p+linkSize tosCount) lim
  else pure none
termination_by lim-p
decreasing_by
  all_goals
    simp only [linkSize,ospfRouterLsaLinkSize,ospfRouterLsaTosSize]
    omega

/-- Where `ospf_get_next_link` starts. -/
def linkBehind (lsa : ℕ) : Option ℕ→Reading ℕ
  | none => pure (lsa+ospfLsaHeaderSize+4)
  | some prevLink => do
    let tosCount ← Reading.byte (prevLink+9)
    pure (prevLink+linkSize tosCount)

/-- `ospf_get_next_link`, `lsaType` is `LSA_LINK_TYPE_TRANSIT` or
`LSA_LINK_TYPE_POINTOPOINT`. -/
def ospfGetNextLink (lsa : ℕ) (lsaType : Byte) (wId : ℕ) (prevLink : Option ℕ) :
    Reading (Option ℕ) := do
  let p ← linkBehind lsa prevLink
  let length ← Reading.u16 (lsa+18)
  nextLinkLoop lsaType wId p (lsa+length)

end RoutePlatform.PacketExamination
