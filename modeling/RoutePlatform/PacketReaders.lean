import RoutePlatform.PacketExamination

/-!
# Packets that pass the examination

What the examination accepts is described once, as links that fill the body of a Router-LSA and
LSAs that fill a packet. Every reader follows that description, so it reads inside the declared
length and meets the LSAs that were counted.
-/

namespace RoutePlatform.PacketReaders

open ReadTrace LsaOperations PacketExamination List Option
open Reading

variable {mem : Memory} {headeronly : Bool} {lsas links : List ℕ} {endp length lim p : ℕ} {lsah : ℕ}
  (cx : ReaderContext) {lsalen size getp : ℕ} (lsaType : Byte) (wId : ℕ)

/-- Links from a position fill memory up to a limit. -/
inductive Links (mem : Memory) (lim : ℕ) : ℕ→List ℕ→Prop
  | nil : Links mem lim lim []
  | cons {p : ℕ} {rest : List ℕ} (fits : p+linkSize (mem (p+9))≤lim)
      (behind : Links mem lim (p+linkSize (mem (p+9))) rest) : Links mem lim p (p::rest)

theorem le_linkSize (tosCount : Byte) : 12≤linkSize tosCount := Nat.le_add_right _ _

theorem linksLoop_links {linkbytes : ℕ} : ∀ {link : ℕ} {links : List ℕ},
    (linksLoop link linkbytes).value mem=some links → Links mem (link+linkbytes) link links ∧
        Within (linksLoop link linkbytes) mem link (link+linkbytes) := by
  induction linkbytes using Nat.strong_induction_on with
  | _ linkbytes ih =>
    intro link links h
    rw [linksLoop] at h ⊢
    have hsize := le_linkSize (mem (link+9))
    by_cases h0 : linkbytes=0
    · rw [if_pos h0] at h ⊢
      cases h
      rw [h0]
      exact ⟨Links.nil,within_pure _⟩
    rw [if_neg h0] at h ⊢
    rw [value_bind,value_byte] at h
    by_cases hlong : linkSize (mem (link+9)) > linkbytes
    · rw [if_pos hlong] at h
      cases h
    rw [if_neg hlong,value_bind,value_pure] at h
    obtain ⟨rest,hrs,rfl⟩ := map_eq_some_iff.mp h
    obtain ⟨hlinks,hin⟩ := ih _ (by omega) hrs
    rw [show link+linkSize (mem (link+9))+(linkbytes-linkSize (mem (link+9))) =
      link+linkbytes by omega] at hlinks hin
    refine ⟨Links.cons (by omega) hlinks,?_⟩
    refine (within_byte (by omega) (by omega)).bind ?_
    rw [value_byte,if_neg hlong]
    exact (hin.mono (by omega) (le_refl _)).bind (within_pure _)

theorem linksLoop_of_links (h : Links mem lim p links) :
    (linksLoop p (lim-p)).value mem=some links := by
  induction h with
  | nil =>
    rw [linksLoop,if_pos (Nat.sub_self _)]
    rfl
  | @cons p rest fits behind ih =>
    have hsize := le_linkSize (mem (p+9))
    rw [linksLoop,if_neg (by omega),value_bind,value_byte,if_neg (by omega),value_bind,
      show lim-p-linkSize (mem (p+9))=lim-(p+linkSize (mem (p+9))) by omega,ih]
    rfl

/-- A link of the type to the router or network. -/
def linkMatches (mem : Memory) (lsaType : Byte) (wId p : ℕ) : Bool :=
  mem (p+8)=lsaType ∧ (Reading.u32 p).value mem=wId

/-- The links behind a link, or all. -/
def linksAfter (links : List ℕ) : Option ℕ→List ℕ
  | none => links
  | some prevLink => (links.dropWhile (· ≠ prevLink)).tail

theorem nextLinkLoop_links (h : Links mem lim p links) :
    (nextLinkLoop lsaType wId p lim).value mem=links.find? (linkMatches mem lsaType wId) ∧
      Within (nextLinkLoop lsaType wId p lim) mem p lim := by
  induction h with
  | nil =>
    rw [nextLinkLoop,if_neg (lt_irrefl _)]
    exact ⟨rfl,within_pure _⟩
  | @cons p rest fits behind ih =>
    have hsize := le_linkSize (mem (p+9))
    obtain ⟨hval,hin⟩ := ih
    have hbehind := hin.mono (show p≤p+linkSize (mem (p+9)) by omega) (le_refl lim)
    have htos : Within (byte (p+9)) mem p lim := within_byte (by omega) (by omega)
    have hty : Within (byte (p+8)) mem p lim := within_byte (by omega) (by omega)
    have hid : Within (u32 p) mem p lim := within_u32 (by omega) (by omega)
    rw [nextLinkLoop,if_pos (by omega),find?_cons]
    by_cases hlsa : mem (p+8)≠lsaType
    · have hmatch : linkMatches mem lsaType wId p=false := by simp [linkMatches,hlsa]
      rw [hmatch]
      refine ⟨?_,htos.bind (hty.bind ?_)⟩
      · rw [value_bind,value_bind,value_byte,value_byte,if_pos hlsa]
        exact hval
      rw [value_byte,value_byte,if_pos hlsa]
      exact hbehind
    by_cases hw : (u32 p).value mem=wId
    · have hmatch : linkMatches mem lsaType wId p=true := by simp [linkMatches,not_not.mp hlsa,hw]
      rw [hmatch]
      refine ⟨?_,htos.bind (hty.bind ?_)⟩
      · rw [value_bind,value_bind,value_byte,value_byte,if_neg hlsa,value_bind,if_pos hw]
        rfl
      rw [value_byte,value_byte,if_neg hlsa]
      refine hid.bind ?_
      rw [if_pos hw]
      exact within_pure _
    have hmatch : linkMatches mem lsaType wId p=false := by simp [linkMatches,hw]
    rw [hmatch]
    refine ⟨?_,htos.bind (hty.bind ?_)⟩
    · rw [value_bind,value_bind,value_byte,value_byte,if_neg hlsa,value_bind,if_neg hw]
      exact hval
    rw [value_byte,value_byte,if_neg hlsa]
    refine hid.bind ?_
    rw [if_neg hw]
    exact hbehind

theorem Links.behind {q : ℕ} (h : Links mem lim p links) (hq : q∈links) :
    p≤q ∧ q+linkSize (mem (q+9))≤lim ∧
      Links mem lim (q+linkSize (mem (q+9))) (linksAfter links (some q)) := by
  induction h with
  | nil => cases hq
  | @cons p rest fits behind ih =>
    rcases mem_cons.mp hq with rfl|hq
    · refine ⟨le_refl _,fits,?_⟩
      rw [linksAfter,dropWhile_cons_of_neg (by simp)]
      exact behind
    obtain ⟨hle,hfits,hbehind⟩ := ih hq
    refine ⟨by omega,hfits,?_⟩
    have hne : p≠q := by
      have := le_linkSize (mem (p+9))
      omega
    rw [linksAfter,dropWhile_cons_of_pos (by simpa using hne)]
    exact hbehind

theorem ospfGetNextLink_links {lsa len : ℕ} {prevLink : Option ℕ}
    (hlen : (u16 (lsa+18)).value mem=len) (hlong : 24≤len) (h : Links mem (lsa+len) (lsa+24) links)
    (hprev : ∀ q, prevLink=some q → q∈links) :
    (ospfGetNextLink lsa lsaType wId prevLink).value mem =
        (linksAfter links prevLink).find? (linkMatches mem lsaType wId) ∧
      Within (ospfGetNextLink lsa lsaType wId prevLink) mem lsa (lsa+len) := by
  have hlength : Within (u16 (lsa+18)) mem lsa (lsa+len) :=
    within_u16 (by omega) (by omega)
  cases prevLink with
  | none =>
    obtain ⟨hval,hin⟩ := nextLinkLoop_links lsaType wId h
    refine ⟨?_,(within_pure _).bind (hlength.bind ?_)⟩
    · rw [ospfGetNextLink,linkBehind,value_bind,value_bind,value_pure,hlen]
      exact hval
    rw [hlen]
    exact hin.mono (show lsa≤lsa+24 by omega) (le_refl _)
  | some q =>
    obtain ⟨hle,hfits,hbehind⟩ := h.behind (hprev q rfl)
    have hsize := le_linkSize (mem (q+9))
    obtain ⟨hval,hin⟩ := nextLinkLoop_links lsaType wId hbehind
    have hstart : Within (linkBehind lsa (some q)) mem lsa (lsa+len) :=
      (within_byte (by omega) (by omega)).bind (within_pure _)
    have hpos : (linkBehind lsa (some q)).value mem=q+linkSize (mem (q+9)) := rfl
    refine ⟨?_,hstart.bind (hlength.bind ?_)⟩
    · rw [ospfGetNextLink,value_bind,value_bind,hpos,hlen]
      exact hval
    rw [hpos,hlen]
    exact hin.mono (by omega) (le_refl _)

/-- The type field of an LSA. -/
def typeAt (mem : Memory) (lsah : ℕ) : ℕ := (mem (lsah+3)).toNat

/-- The length field of an LSA. -/
def lengthAt (mem : Memory) (lsah : ℕ) : ℕ := (Reading.u16 (lsah+18)).value mem

theorem ospfLsaExamin_router (h : (ospfLsaExamin lsah lsalen false).value mem=true)
    (hty : typeAt mem lsah=1) :
    24≤lsalen ∧ ∃ links, (ospfRouterLsaLinksExamin (lsah+24) (lsalen-24)
        ((u16 (lsah+22)).value mem)).value mem=some links ∧
      Links mem (lsah+lsalen) (lsah+24) links ∧
      Within (ospfRouterLsaLinksExamin (lsah+24) (lsalen-24)
        ((u16 (lsah+22)).value mem)) mem (lsah+24) (lsah+lsalen) := by
  unfold typeAt at hty
  unfold ospfLsaExamin at h
  rw [value_bind,value_byte,hty] at h
  by_cases hmin : 1<ospfMaxLsa ∧ ospfLsaMinlen 1≠0 ∧ lsalen<ospfLsaHeaderSize+ospfLsaMinlen 1
  · rw [if_pos hmin] at h
    cases h
  rw [if_neg hmin] at h
  have hlong : 24≤lsalen := by
    by_contra hshort
    exact hmin ⟨by decide,by decide,by
      change lsalen<20+4
      omega⟩
  change (isSome ((ospfRouterLsaLinksExamin (lsah+24) (lsalen-20-4)
    ((u16 (lsah+22)).value mem)).value mem))=true at h
  rw [show lsalen-20-4=lsalen-24 by omega] at h
  obtain ⟨links,hlinks⟩ := isSome_iff_exists.mp h
  have hloop : (linksLoop (lsah+24) (lsalen-24)).value mem=some links := by
    unfold ospfRouterLsaLinksExamin at hlinks
    rw [value_bind,value_pure] at hlinks
    exact (filter_eq_some_iff.mp hlinks).1
  obtain ⟨hfill,hin⟩ := linksLoop_links hloop
  rw [show lsah+24+(lsalen-24)=lsah+lsalen by omega] at hfill hin
  exact ⟨hlong,links,hlinks,hfill,hin.bind (within_pure _)⟩

theorem ospfLsaExamin_within (hlen : 20≤lsalen)
    (h : (ospfLsaExamin lsah lsalen headeronly).value mem=true) :
    Within (ospfLsaExamin lsah lsalen headeronly) mem lsah
      (lsah+if headeronly then 20 else lsalen) := by
  have hroom : lsah+20≤lsah+if headeronly then 20 else lsalen := by split <;> omega
  have hty : Within (byte (lsah+3)) mem lsah (lsah+if headeronly then 20 else lsalen) :=
    within_byte (by omega) (by omega)
  by_cases hrouter : typeAt mem lsah=1 ∧ headeronly=false
  · obtain ⟨hone,rfl⟩ := hrouter
    obtain ⟨hlong,links,-,-,hin⟩ := ospfLsaExamin_router h hone
    refine hty.bind ?_
    rw [value_byte,show (mem (lsah+3)).toNat=1 from hone]
    split
    · exact within_pure _
    rw [if_neg Bool.false_ne_true]
    refine (within_u16 (by omega) ?_).bind (Within.bind ?_ (within_pure _))
    · rw [if_neg Bool.false_ne_true]
      omega
    rw [show lsalen-20-4=lsalen-24 by omega,if_neg Bool.false_ne_true]
    exact hin.mono (by omega) (le_refl _)
  · refine hty.bind ?_
    rw [value_byte]
    split
    · exact within_pure _
    split
    · rename_i hone
      cases headeronly with
      | true => exact within_pure _
      | false => exact absurd ⟨hone,rfl⟩ hrouter
    all_goals exact within_pure _

/-- How far an LSA reaches in a sequence. -/
def lsaSize (mem : Memory) (headeronly : Bool) (lsah : ℕ) : ℕ :=
  if headeronly then 20 else lengthAt mem lsah

/-- LSAs, or their headers alone, fill memory from a position up to a limit, and
each passes. -/
inductive Lsas (mem : Memory) (headeronly : Bool) (lim : ℕ) : ℕ→List ℕ→Prop
  | nil : Lsas mem headeronly lim lim []
  | cons {p : ℕ} {rest : List ℕ} (room : p+20≤lim) (header : 20≤lengthAt mem p)
      (fits : p+lsaSize mem headeronly p≤lim)
      (passes : (ospfLsaExamin p (lengthAt mem p) headeronly).value mem=true)
      (behind : Lsas mem headeronly lim (p+lsaSize mem headeronly p) rest) :
      Lsas mem headeronly lim p (p::rest)

theorem le_lsaSize (headeronly : Bool) (h : 20≤lengthAt mem p) : 20≤lsaSize mem headeronly p := by
  unfold lsaSize
  split
  · exact le_refl _
  · exact h

theorem Lsas.le (h : Lsas mem headeronly lim p lsas) : p+20*lsas.length≤lim := by
  induction h with
  | nil => exact le_refl _
  | @cons p rest room header fits passes behind ih =>
    have hsize := le_lsaSize headeronly header
    rw [length_cons]
    omega

/-- The turn of the loop for an LSA that is in bounds. -/
def lsaTurn (headeronly : Bool) (lsah length size : ℕ) (lsalen : ℕ) :
    Reading (Option (List ℕ)) := do
  let ok ← ospfLsaExamin lsah lsalen headeronly
  if !ok then pure none
  else do
    let counted ← lsaseqLoop headeronly (lsah+size) (length-size)
    pure (counted.map (lsah :: ·))

theorem lsaseqLoop_eq (headeronly : Bool) (h0 : length≠0) (hroom : 20≤length) :
    lsaseqLoop headeronly lsah length=(do
      let lsalen ← u16 (lsah+18)
      if lsalen<20 then pure none
      else if headeronly then lsaTurn headeronly lsah length 20 lsalen
      else if lsalen > length then pure none
      else lsaTurn headeronly lsah length lsalen lsalen) := by
  rw [lsaseqLoop,if_neg h0,if_neg (show ¬length<20 by omega)]
  cases headeronly with
  | true | false => rfl

theorem lsaTurn_value : (lsaTurn headeronly lsah length size lsalen).value mem =
      if (ospfLsaExamin lsah lsalen headeronly).value mem=true then
        ((lsaseqLoop headeronly (lsah+size) (length-size)).value mem).map (lsah :: ·)
      else none := by
  unfold lsaTurn
  rw [value_bind]
  cases (ospfLsaExamin lsah lsalen headeronly).value mem with
  | true | false => rfl

theorem lsaseqLoop_lsas : ∀ {lsah : ℕ} {lsas : List ℕ},
    (lsaseqLoop headeronly lsah length).value mem=some lsas →
      Lsas mem headeronly (lsah+length) lsah lsas ∧
        Within (lsaseqLoop headeronly lsah length) mem lsah (lsah+length) := by
  induction length using Nat.strong_induction_on with
  | _ length ih =>
    intro lsah lsas h
    by_cases h0 : length=0
    · rw [lsaseqLoop,if_pos h0] at h ⊢
      cases h
      rw [h0]
      exact ⟨Lsas.nil,within_pure _⟩
    by_cases hroom : length<20
    · rw [lsaseqLoop,if_neg h0,if_pos hroom] at h
      cases h
    have hturn : ∀ size, size=lsaSize mem headeronly lsah → size≤length → 20≤lengthAt mem lsah →
        (lsaTurn headeronly lsah length size (lengthAt mem lsah)).value mem=some lsas →
        Lsas mem headeronly (lsah+length) lsah lsas ∧
          Within (lsaTurn headeronly lsah length size (lengthAt mem lsah)) mem lsah
            (lsah+length) := by
      intro size hsize hfits hhdr hval
      have hle := le_lsaSize headeronly hhdr
      rw [lsaTurn_value] at hval
      by_cases hpasses : (ospfLsaExamin lsah (lengthAt mem lsah) headeronly).value mem=true
      · rw [if_pos hpasses] at hval
        obtain ⟨rest,hrs,rfl⟩ := map_eq_some_iff.mp hval
        obtain ⟨hlsas,hin⟩ := ih (length-size) (by omega) hrs
        rw [show lsah+size+(length-size)=lsah+length by omega] at hlsas hin
        refine ⟨Lsas.cons (by omega) hhdr (by omega) hpasses (hsize ▸ hlsas),?_⟩
        have hexamin := (ospfLsaExamin_within hhdr hpasses).mono (le_refl lsah)
          (show lsah+lsaSize mem headeronly lsah≤lsah+length by omega)
        refine hexamin.bind ?_
        rw [hpasses]
        exact (hin.mono (by omega) (le_refl _)).bind (within_pure _)
      rw [if_neg hpasses] at hval
      cases hval
    rw [lsaseqLoop_eq headeronly h0 (by omega)] at h ⊢
    have hlen : Within (u16 (lsah+18)) mem lsah (lsah+length) :=
      within_u16 (by omega) (by omega)
    rw [value_bind] at h
    change Reading.value (if lengthAt mem lsah<20 then _ else _) mem=_ at h
    by_cases hhdr : lengthAt mem lsah<20
    · rw [if_pos hhdr] at h
      cases h
    rw [if_neg hhdr] at h
    have hstart : ∀ r : ℕ → Reading (Option (List ℕ)),
        Within (r (lengthAt mem lsah)) mem lsah (lsah+length) →
        Within (do
          let lsalen ← u16 (lsah+18)
          if lsalen<20 then pure none else r lsalen) mem lsah (lsah+length) := by
      intro r hr
      refine hlen.bind ?_
      change Within (if lengthAt mem lsah<20 then _ else r (lengthAt mem lsah)) _ _ _
      rw [if_neg hhdr]
      exact hr
    cases headeronly with
    | true =>
      rw [if_pos rfl] at h
      obtain ⟨hlsas,hin⟩ := hturn 20 rfl (by omega) (by omega) h
      refine ⟨hlsas,hstart _ ?_⟩
      rw [if_pos rfl]
      exact hin
    | false =>
      rw [if_neg Bool.false_ne_true] at h
      by_cases hlong : lengthAt mem lsah > length
      · change Reading.value (if lengthAt mem lsah > length then _ else _) mem=_ at h
        rw [if_pos hlong] at h
        cases h
      change Reading.value (if lengthAt mem lsah > length then _ else _) mem=_ at h
      rw [if_neg hlong] at h
      obtain ⟨hlsas,hin⟩ := hturn (lengthAt mem lsah) rfl (by omega) (by omega) h
      refine ⟨hlsas,hstart _ ?_⟩
      rw [if_neg Bool.false_ne_true,if_neg hlong]
      exact hin

/-- The loop accepts LSAs that fill a packet. -/
theorem lsaseqLoop_of_lsas (h : Lsas mem headeronly lim p lsas) :
    (lsaseqLoop headeronly p (lim-p)).value mem=some lsas := by
  induction h with
  | nil =>
    rw [lsaseqLoop,if_pos (Nat.sub_self _)]
    rfl
  | @cons p rest room header fits passes behind ih =>
    rw [lsaseqLoop_eq headeronly (by omega) (by omega),value_bind]
    change Reading.value (if lengthAt mem p<20 then _ else _) mem=_
    rw [if_neg (by omega)]
    cases headeronly with
    | true =>
      rw [if_pos rfl,lsaTurn_value]
      change (if (ospfLsaExamin p (lengthAt mem p) true).value mem=true then _ else _)=_
      rw [if_pos passes,show lim-p-20=lim-(p+lsaSize mem true p) from Nat.sub_sub lim p 20]
      change Option.map _ ((lsaseqLoop true (p+lsaSize mem true p) _).value mem)=_
      rw [ih]
      rfl
    | false =>
      change p+lengthAt mem p≤lim at fits
      rw [if_neg Bool.false_ne_true]
      change Reading.value (if lengthAt mem p > lim-p then _ else _) mem=_
      rw [if_neg (by omega),lsaTurn_value]
      change (if (ospfLsaExamin p (lengthAt mem p) false).value mem=true then _ else _)=_
      rw [if_pos passes]
      change Option.map _ ((lsaseqLoop false (p+lsaSize mem false p)
        (lim-p-lsaSize mem false p)).value mem)=_
      rw [Nat.sub_sub,ih]
      rfl

theorem streamForwardGetp_of_le (h : getp+size≤endp) :
    streamForwardGetp endp getp size=getp+size := if_pos h

theorem listLsa_within (h : 20≤length) :
    Within (listLsa cx lsah length) mem lsah (lsah+length) := by
  refine (within_bytes (by omega) (by omega)).bind ?_
  split
  · exact within_pure _
  refine (within_byte (by omega) (by omega)).bind ?_
  split
  · exact within_pure _
  refine (within_u16 (le_refl _) (by omega)).bind ?_
  dsimp only
  split
  · exact within_pure _
  exact (within_bytes (le_refl _) (le_refl _)).bind (within_pure _)

theorem lsUpdLoop_lsas (h : Lsas mem false lim p lsas) (hend : lim≤endp) :
    ((lsUpdLoop cx endp lsas.length p (lim-p)).value mem).map Prod.fst=lsas ∧
      Within (lsUpdLoop cx endp lsas.length p (lim-p)) mem p lim := by
  induction h with
  | nil => exact ⟨rfl,within_pure _⟩
  | @cons p rest room header fits passes behind ih =>
    change p+lengthAt mem p≤lim at fits
    obtain ⟨hval,hin⟩ := ih
    have hforward : streamForwardGetp endp p (lengthAt mem p)=p+lengthAt mem p :=
      streamForwardGetp_of_le (by omega)
    have hrs : lim-p-lengthAt mem p=lim-(p+lengthAt mem p) := Nat.sub_sub _ _ _
    rw [length_cons,lsUpdLoop,if_neg (show ¬lim-p<20 by omega)]
    have hlen : Within (u16 (p+18)) mem p lim := within_u16 (by omega) (by omega)
    refine ⟨?_,hlen.bind ?_⟩
    · rw [value_bind]
      change map _ (Reading.value (if lengthAt mem p > lim-p then _ else _) mem)=_
      rw [if_neg (by omega),value_bind,value_bind,value_pure,map_cons]
      change p::map _ ((lsUpdLoop cx endp rest.length
        (streamForwardGetp endp p (lengthAt mem p)) (lim-p-lengthAt mem p)).value mem)=_
      rw [hforward,hrs]
      exact congrArg (p :: ·) hval
    change Within (if lengthAt mem p > lim-p then _ else _) _ _ _
    rw [if_neg (by omega)]
    refine ((listLsa_within cx header).mono (le_refl p) fits).bind (Within.bind ?_ (within_pure _))
    change Within (lsUpdLoop cx endp rest.length (streamForwardGetp endp p (lengthAt mem p))
      (lim-p-lengthAt mem p)) mem p lim
    rw [hforward,hrs]
    exact hin.mono (show p≤p+lengthAt mem p by omega) (le_refl lim)

/-- `ospf_db_desc_proc` goes on behind the header. -/
def describes (mem : Memory) (cx : ReaderContext) (p : ℕ) : Bool := !dbDescStops cx (mem (p+3))

theorem dbDescLoop_lsas (h : Lsas mem true lim p lsas) (hend : lim≤endp) :
    (((dbDescLoop cx endp p (lim-p)).value mem).1.map Prod.fst = lsas.takeWhile (describes mem cx) ∧
      ((dbDescLoop cx endp p (lim-p)).value mem).2 = !lsas.all (describes mem cx)) ∧
      Within (dbDescLoop cx endp p (lim-p)) mem p lim := by
  induction h with
  | nil =>
    rw [dbDescLoop,if_pos (show lim-lim<20 by omega)]
    exact ⟨⟨rfl,rfl⟩,within_pure _⟩
  | @cons p rest room header fits passes behind ih =>
    obtain ⟨⟨hval,hflag⟩,hin⟩ := ih
    have hforward : streamForwardGetp endp p 20=p+20 := streamForwardGetp_of_le (by omega)
    have hrs : lim-p-20=lim-(p+20) := Nat.sub_sub _ _ _
    have hty : Within (byte (p+3)) mem p lim := within_byte (by omega) (by omega)
    have hhdr : Within (bytes p 20) mem p lim :=
      within_bytes (le_refl _) (by omega)
    rw [dbDescLoop,if_neg (show ¬lim-p<20 by omega),takeWhile_cons,all_cons]
    unfold describes
    rw [value_bind,value_byte]
    cases hstop : dbDescStops cx (mem (p+3)) with
    | true =>
      refine ⟨⟨rfl,rfl⟩,hty.bind ?_⟩
      rw [value_byte,hstop]
      exact within_pure _
    | false =>
      refine ⟨?_,hty.bind ?_⟩
      · rw [if_neg Bool.false_ne_true,value_bind,value_bind,value_pure]
        rw [hforward,hrs]
        exact ⟨congrArg (p :: ·) hval,hflag⟩
      rw [value_byte,hstop,if_neg Bool.false_ne_true]
      refine hhdr.bind (Within.bind ?_ (within_pure _))
      rw [hforward,hrs]
      exact hin.mono (show p≤p+20 by omega) (le_refl lim)

theorem ospfLsAck_lsas (h : Lsas mem true lim p lsas) (hend : lim≤endp) :
    ((ospfLsAck endp p (lim-p)).value mem).map Prod.fst=lsas ∧
      Within (ospfLsAck endp p (lim-p)) mem p lim := by
  induction h with
  | nil =>
    rw [ospfLsAck,if_pos (show lim-lim<20 by omega)]
    exact ⟨rfl,within_pure _⟩
  | @cons p rest room header fits passes behind ih =>
    obtain ⟨hval,hin⟩ := ih
    have hforward : streamForwardGetp endp p 20=p+20 := streamForwardGetp_of_le (by omega)
    have hrs : lim-p-20=lim-(p+20) := Nat.sub_sub _ _ _
    have hhdr : Within (ackHeader p) mem p lim := by
      refine (within_byte (by omega) (by omega)).bind ?_
      split
      · exact within_pure _
      exact (within_bytes (le_refl _) (show p+20≤lim by omega)).bind (within_pure _)
    rw [ospfLsAck,if_neg (show ¬lim-p<20 by omega)]
    refine ⟨?_,hhdr.bind (Within.bind ?_ (within_pure _))⟩
    · rw [value_bind,value_bind,value_pure,map_cons]
      rw [hforward,hrs]
      exact congrArg (p :: ·) hval
    rw [hforward,hrs]
    exact hin.mono (show p≤p+20 by omega) (le_refl lim)

def requests (p : ℕ) : ℕ→List ℕ
  | 0 => []
  | n+1 => p::requests (p+12) n

/-- The request asks for an LSA that is there. -/
def requestFound (mem : Memory) (cx : ReaderContext) (p : ℕ) : Bool :=
  let key := fun k => (Reading.u32 (p+k)).value mem
  !unknownType (key 0) && cx.found (key 0) (key 4) (key 8)

theorem streamGetl_value (h : getp+4≤endp) :
    (streamGetl endp getp).value mem=((u32 getp).value mem,getp+4) := by
  rw [streamGetl,if_pos h]
  rfl

theorem streamGetl_within {a b : ℕ} (h : a≤getp) (h' : getp+4≤b) :
    Within (streamGetl endp getp) mem a b := by
  unfold streamGetl
  split
  · exact (within_u32 h h').bind (within_pure _)
  · exact within_pure _

/-- The turn of the loop of `ospf_ls_req` behind the key. -/
def lsReqTurn (cx : ReaderContext) (endp p size lsType lsId advRouter next : ℕ) :
    Reading (List ℕ × Bool) :=
  if unknownType lsType then pure ([],true)
  else if !cx.found lsType lsId advRouter then pure ([],true)
  else do
    let rest ← ospfLsReq cx endp next (size-ospfLsaKeySize)
    pure (p::rest.1,rest.2)

theorem ospfLsReq_eq (hsize : 12 ≤ size) (hend : p+12≤endp) :
    (ospfLsReq cx endp p size).value mem = (lsReqTurn cx endp p size ((u32 (p+0)).value mem)
          ((u32 (p+4)).value mem) ((u32 (p+8)).value mem) (p+12)).value mem ∧
      (Within (lsReqTurn cx endp p size ((u32 (p+0)).value mem)
          ((u32 (p+4)).value mem) ((u32 (p+8)).value mem) (p+12)) mem p
          (p+size)→Within (ospfLsReq cx endp p size) mem p (p+size)) := by
  have h1 : (streamGetl endp p).value mem=((u32 (p+0)).value mem,p+4) :=
    streamGetl_value (by omega)
  have h2 : (streamGetl endp (p+4)).value mem=((u32 (p+4)).value mem,p+8) :=
    streamGetl_value (by omega)
  have h3 : (streamGetl endp (p+8)).value mem=((u32 (p+8)).value mem,p+12) :=
    streamGetl_value (by omega)
  rw [ospfLsReq,if_neg (show ¬size<12 by omega)]
  refine ⟨?_,fun hturn => ?_⟩
  · rw [value_bind,h1]
    rw [value_bind,h2]
    rw [value_bind,h3]
    rfl
  refine (streamGetl_within (le_refl _) (by omega)).bind ?_
  rw [h1]
  refine (streamGetl_within (by omega) (by omega)).bind ?_
  rw [h2]
  refine (streamGetl_within (by omega) (by omega)).bind ?_
  rw [h3]
  exact hturn

theorem ospfLsReq_requests (n : ℕ) : ∀ {p : ℕ}, p+12*n≤endp →
    (((ospfLsReq cx endp p (12*n)).value mem).1 = (requests p n).takeWhile (requestFound mem cx) ∧
      ((ospfLsReq cx endp p (12*n)).value mem).2 = !(requests p n).all (requestFound mem cx)) ∧
      Within (ospfLsReq cx endp p (12*n)) mem p (p+12*n) := by
  induction n with
  | zero =>
    intro p _
    rw [ospfLsReq,if_pos (show 12*0<12 by omega)]
    exact ⟨⟨rfl,rfl⟩,within_pure _⟩
  | succ n ih =>
    intro p hend
    obtain ⟨⟨hval,hflag⟩,hin⟩ := ih (p := p+12) (by omega)
    obtain ⟨heq,hreads⟩ := @ospfLsReq_eq mem endp p cx (12*(n+1)) (by omega) (by omega)
    have hrs : 12*(n+1)-ospfLsaKeySize=12*n := by
      change 12*(n+1)-12=_
      omega
    rw [requests,takeWhile_cons,all_cons,heq]
    by_cases hfnd : requestFound mem cx p=true
    · have hkey := hfnd
      unfold requestFound at hkey
      rw [Bool.and_eq_true,Bool.not_eq_true'] at hkey
      obtain ⟨hty,hlsa⟩ := hkey
      rw [hfnd]
      refine ⟨?_,hreads ?_⟩
      · rw [lsReqTurn,hty,if_neg Bool.false_ne_true,hlsa,if_neg (by decide),hrs]
        exact ⟨congrArg (p :: ·) hval,hflag⟩
      rw [lsReqTurn,hty,if_neg Bool.false_ne_true,hlsa,if_neg (by decide),hrs]
      exact (hin.mono (by omega) (by omega)).bind (within_pure _)
    rw [Bool.not_eq_true] at hfnd
    have hkey := hfnd
    unfold requestFound at hkey
    rw [hfnd]
    have hturn : lsReqTurn cx endp p (12*(n+1)) ((u32 (p+0)).value mem)
        ((u32 (p+4)).value mem) ((u32 (p+8)).value mem) (p+12) =
        pure ([],true) := by
      unfold lsReqTurn
      cases hty : unknownType ((u32 (p+0)).value mem) with
      | true => rfl
      | false =>
        dsimp only at hkey
        rw [hty,Bool.not_false,Bool.true_and] at hkey
        rw [if_neg Bool.false_ne_true,hkey]
        rfl
    rw [hturn]
    refine ⟨⟨rfl,rfl⟩,hreads ?_⟩
    rw [hturn]
    exact within_pure _

end RoutePlatform.PacketReaders
