import RoutePlatform.TlvOperations

/-!
# The elements of type, length and value fields

The loops of `parse_tlvs` over the elements of a field advance by the sizes of the elements
until they have passed the declared length. The elements stay inside the field exactly
when their sizes add up to the declared length.
-/

namespace RoutePlatform.TlvElements

open TlvOperations List

variable {p : ℕ} {r : LoopResult} {fuel size : ℕ} {α : Type} {v : ℕ}

/-- From a position on, elements end exactly at `stop`, or at an invalid one. -/
inductive Cut (bytes : List Byte) (list : TlvList) (stop : ℕ) : ℕ→Prop
  | done : Cut bytes list stop stop
  | invalid {p : ℕ} : p<stop → elementSize bytes list p=.ok none → Cut bytes list stop p
  | next {p size : ℕ} : p<stop → elementSize bytes list p=.ok (some size) →
    p+size ≤ stop → Cut bytes list stop (p+size) → Cut bytes list stop p

/-- The elements of a field end where the field does. -/
def ValueCut (bytes : List Byte) (list : TlvList) (p length : ℕ) : Prop :=
  match list with
  | .isNeighs => 1≤length ∧ Cut bytes .isNeighs (p+length) (p+1)
  | .esNeighs => 4≤length ∧ Cut bytes .esNeighs (p+length) (p+4)
  | list => Cut bytes list (p+length) p

section

variable {bytes : List Byte} {list : TlvList} {base length : ℕ}

theorem byteAt_of_lt (h : p<bytes.length) : ∃ b, bytes[p]? = some b ∧ byteAt bytes p=.ok b := by
  have hget := getElem?_eq_getElem h
  exact ⟨bytes[p],hget,by rw [byteAt,hget]⟩

theorem byteAt_eq {b : Byte} (h : bytes[p]? = some b) : byteAt bytes p=.ok b := by
  rw [byteAt,h]

theorem bind_byteAt {f : Byte→Except Fault α} {a : α} (h : (byteAt bytes p >>= f)=.ok a) :
    ∃ b, bytes[p]? = some b ∧ f b=.ok a := by
  rw [byteAt] at h
  cases hb : bytes[p]? with
  | none =>
    rw [hb] at h
    cases h
  | some b =>
    rw [hb] at h
    exact ⟨b,rfl,h⟩

/-- A read ends outside the packet, or yields what it should. -/
def Yields {α : Type} (P : α→Prop) : Except Fault α→Prop
  | .error e => e=.outside
  | .ok a => P a

theorem Yields.bind {β : Type} {P : α→Prop} {Q : β→Prop} {x : Except Fault α} {f : α→Except Fault β}
    (hx : Yields P x) (hf : ∀ a, P a → Yields Q (f a)) : Yields Q (x >>= f) := by
  cases x with
  | error e => exact hx
  | ok a => exact hf a hx

theorem yields_byteAt (bytes : List Byte) (p : ℕ) : Yields (fun _ => True) (byteAt bytes p) := by
  rw [byteAt]
  cases bytes[p]? with
  | none => rfl
  | some b => trivial

theorem elementSize_yields (bytes : List Byte) (list : TlvList) (p : ℕ) :
    Yields (fun o => ∀ size, o=some size → 0<size) (elementSize bytes list p) := by
  cases list with
  | areaAddrs =>
    refine (yields_byteAt bytes p).bind fun b _ => ?_
    rintro _ ⟨⟩
    exact Nat.succ_pos _
  | teIsNeighs =>
    refine (yields_byteAt bytes _).bind fun b _ => ?_
    rintro _ ⟨⟩
    omega
  | teIpv4Reachs | ipv6Reachs =>
    refine (yields_byteAt bytes _).bind fun b _ => ?_
    split
    · exact nofun
    · rintro _ ⟨⟩
      omega
  | _ =>
    rintro _ ⟨⟩
    decide

theorem elementSize_pos (h : elementSize bytes list p=.ok (some size)) : 0<size := by
  have hyields := elementSize_yields bytes list p
  rw [h] at hyields
  exact hyields size rfl

theorem elementSize_ne_none (h4 : list ≠ .teIpv4Reachs) (h6 : list ≠ .ipv6Reachs) :
    elementSize bytes list p ≠ .ok none := by
  intro h
  cases list with
  | areaAddrs | teIsNeighs =>
    obtain ⟨b,-,hb⟩ := bind_byteAt h
    cases hb
  | teIpv4Reachs => exact h4 rfl
  | ipv6Reachs => exact h6 rfl
  | _ => cases h

theorem elementLoop_next (hv : v<length) (hsize : elementSize bytes list p=.ok (some size)) :
    elementLoop bytes list length (fuel+1) p v =
      (elementLoop bytes list length fuel (p+size) (v+size)).map fun r =>
        {r with elements := (p,p+size)::r.elements} := by
  rw [elementLoop,if_pos hv,hsize]
  rfl

theorem elementLoop_invalid (hv : v<length) (hsize : elementSize bytes list p=.ok none) :
    elementLoop bytes list length (fuel+1) p v=.ok ⟨[],p,true⟩ := by
  rw [elementLoop,if_pos hv,hsize]
  rfl

theorem elementLoop_done (hv : length≤v) :
    elementLoop bytes list length (fuel+1) p v=.ok ⟨[],p,false⟩ := by
  rw [elementLoop,if_neg (not_lt.mpr hv)]

theorem elementLoop_of_cut (h : Cut bytes list (base+length) p) :
    ∀ fuel v, p=base+v → length<fuel+v → ∃ r, elementLoop bytes list length fuel p v=.ok r ∧
        (∀ e∈r.elements, p≤e.1 ∧ e.2≤base+length) ∧
        (r.warned=false → r.pnt=base+length) := by
  induction h with
  | done =>
    intro fuel v hp hfuel
    obtain ⟨f,rfl⟩ : ∃ f, fuel=f+1 := ⟨fuel-1,by omega⟩
    exact ⟨_,elementLoop_done (by omega),fun e he => (not_mem_nil he).elim,fun _ => rfl⟩
  | invalid hlt hsize =>
    intro fuel v hp hfuel
    obtain ⟨f,rfl⟩ : ∃ f, fuel=f+1 := ⟨fuel-1,by omega⟩
    exact ⟨_,elementLoop_invalid (by omega) hsize,fun e he => (not_mem_nil he).elim,nofun⟩
  | @next p size hlt hsize hle hcut ih =>
    intro fuel v hp hfuel
    have hpos := elementSize_pos hsize
    obtain ⟨f,rfl⟩ : ∃ f, fuel=f+1 := ⟨fuel-1,by omega⟩
    obtain ⟨r,hr,hin,hend⟩ := ih f (v+size) (by omega) (by omega)
    refine ⟨{r with elements := (p,p+size)::r.elements},?_,fun e he => ?_,hend⟩
    · rw [elementLoop_next (by omega) hsize,hr]
      rfl
    rcases mem_cons.mp he with rfl|he
    · exact ⟨le_rfl,hle⟩
    obtain ⟨hlow,hhigh⟩ := hin e he
    exact ⟨by omega,hhigh⟩

theorem elementLoop_cases (hr : elementLoop bytes list length (fuel+1) p v=.ok r) :
    (length≤v ∧ r=⟨[],p,false⟩) ∨ (v<length ∧ elementSize bytes list p=.ok none ∧ r=⟨[],p,true⟩) ∨
      ∃ size r', v<length ∧ elementSize bytes list p=.ok (some size) ∧
        elementLoop bytes list length fuel (p+size) (v+size)=.ok r' ∧
        r = {r' with elements := (p,p+size)::r'.elements} := by
  rcases lt_or_ge v length with hlt|hge
  · cases hsize : elementSize bytes list p with
    | error e =>
      rw [elementLoop,if_pos hlt,hsize] at hr
      cases hr
    | ok size =>
      cases size with
      | none =>
        rw [elementLoop_invalid hlt hsize] at hr
        cases hr
        exact Or.inr (Or.inl ⟨hlt,rfl,rfl⟩)
      | some size =>
        rw [elementLoop_next hlt hsize] at hr
        cases hrs : elementLoop bytes list length fuel (p+size) (v+size) with
        | error e =>
          rw [hrs] at hr
          cases hr
        | ok r' =>
          rw [hrs] at hr
          cases hr
          exact Or.inr (Or.inr ⟨size,r',hlt,rfl,hrs,rfl⟩)
  · rw [elementLoop_done hge] at hr
    cases hr
    exact Or.inl ⟨hge,rfl⟩

/-- When the elements stay inside the field, they end where it does. -/
theorem cut_of_elementLoop : ∀ (fuel v : ℕ) {r : LoopResult}, v≤length →
    elementLoop bytes list length fuel (base+v) v=.ok r →
    (∀ e∈r.elements, e.2≤base+length) → Cut bytes list (base+length) (base+v) := by
  intro fuel
  induction fuel with
  | zero =>
    intro v r _ hr
    cases hr
  | succ fuel ih =>
    intro v r hv hr hin
    rcases elementLoop_cases hr with ⟨hge,-⟩|⟨hlt,hsize,-⟩|⟨size,r',hlt,hsize,hrs,rfl⟩
    · obtain rfl : v=length := by omega
      exact .done
    · exact .invalid (by omega) hsize
    have hfst : base+v+size≤base+length := hin _ mem_cons_self
    rw [add_assoc] at hrs
    have hcut := ih (v+size) (by omega) hrs fun e he => hin e (.tail _ he)
    rw [←add_assoc] at hcut
    exact .next (by omega) hsize hfst hcut

theorem elementLoop_inside : ∀ (fuel p v : ℕ) {r : LoopResult},
    elementLoop bytes list length fuel p v=.ok r → p≤r.pnt ∧ ∀ e∈r.elements, e.2≤r.pnt := by
  intro fuel
  induction fuel with
  | zero =>
    intro p v r hr
    cases hr
  | succ fuel ih =>
    intro p v r hr
    rcases elementLoop_cases hr with ⟨-,rfl⟩|⟨-,-,rfl⟩|⟨size,r',-,-,hrs,rfl⟩
    · exact ⟨le_rfl,nofun⟩
    · exact ⟨le_rfl,nofun⟩
    obtain ⟨hle,hstops⟩ := ih (p+size) (v+size) hrs
    exact ⟨(Nat.le_add_right p size).trans hle,forall_mem_cons.mpr ⟨hle,hstops⟩⟩

theorem elementLoop_warned (h4 : list ≠ .teIpv4Reachs) (h6 : list ≠ .ipv6Reachs) :
    ∀ (fuel p v : ℕ) {r : LoopResult}, elementLoop bytes list length fuel p v=.ok r →
      r.warned=false := by
  intro fuel
  induction fuel with
  | zero =>
    intro p v r hr
    cases hr
  | succ fuel ih =>
    intro p v r hr
    rcases elementLoop_cases hr with ⟨-,rfl⟩|⟨-,hsize,-⟩|⟨size,r',-,-,hrs,rfl⟩
    · rfl
    · exact (elementSize_ne_none h4 h6 hsize).elim
    exact (ih (p+size) (v+size) hrs :)

/-- The elements of a field are inside it. -/
def ElementsInside (r : LoopResult) (p length : ℕ) : Prop := ∀ e∈r.elements, p≤e.1 ∧ e.2≤p+length

/-- A field whose elements end where it does. -/
theorem listElements_of_cut (hin : p+length≤bytes.length) (h : ValueCut bytes list p length) :
    ∃ r, listElements bytes list p length=.ok r ∧ ElementsInside r p length ∧ r.pnt=p+length := by
  have hplain : ∀ l : TlvList, l ≠ .teIpv4Reachs → l ≠ .ipv6Reachs →
      Cut bytes l (p+length) p → ∃ r, elementLoop bytes l length (length+1) p 0=.ok r ∧
        ElementsInside r p length ∧ r.pnt=p+length := by
    intro l h4 h6 hcut
    obtain ⟨r,hr,hinside,hend⟩ := elementLoop_of_cut hcut (length+1) 0 rfl (Nat.lt_succ_self _)
    exact ⟨r,hr,hinside,hend (elementLoop_warned h4 h6 _ _ _ hr)⟩
  have hprefix : ∀ l : TlvList, Cut bytes l (p+length) p →
      ∃ r, elementLoop bytes l length (length+1) p 0=.ok r ∧ ElementsInside r p length := by
    intro l hcut
    obtain ⟨r,hr,hinside,-⟩ := elementLoop_of_cut hcut (length+1) 0 rfl (Nat.lt_succ_self _)
    exact ⟨r,hr,hinside⟩
  cases list with
  | isNeighs =>
    obtain ⟨hpos,hcut⟩ := h
    obtain ⟨b,-,hb⟩ := byteAt_of_lt (show p<bytes.length by omega)
    obtain ⟨r,hr,hinside,hend⟩ := elementLoop_of_cut hcut (length+1) 1 rfl (by omega)
    refine ⟨r,?_,fun e he => ?_,hend (elementLoop_warned (by decide) (by decide) _ _ _ hr)⟩
    · rw [listElements,hb]
      exact hr
    obtain ⟨hlow,hhigh⟩ := hinside e he
    exact ⟨by omega,hhigh⟩
  | esNeighs =>
    obtain ⟨hpos,hcut⟩ := h
    obtain ⟨r,hr,-,hend⟩ := elementLoop_of_cut hcut (length+1) 4 rfl (by omega)
    have hpnt := hend (elementLoop_warned (by decide) (by decide) _ _ _ hr)
    refine ⟨⟨[(p,r.pnt)],r.pnt,false⟩,?_,fun e he => ?_,hpnt⟩
    · rw [listElements,hr]
      rfl
    rw [mem_singleton.mp he]
    exact ⟨le_rfl,hpnt.le⟩
  | teIpv4Reachs =>
    obtain ⟨r,hr,hinside⟩ := hprefix .teIpv4Reachs h
    exact ⟨{r with pnt := p+length},by rw [listElements,hr]; rfl,hinside,rfl⟩
  | ipv6Reachs =>
    obtain ⟨r,hr,hinside⟩ := hprefix .ipv6Reachs h
    exact ⟨{r with pnt := p+length},by rw [listElements,hr]; rfl,hinside,rfl⟩
  | areaAddrs => exact hplain .areaAddrs (by decide) (by decide) h
  | teIsNeighs => exact hplain .teIsNeighs (by decide) (by decide) h
  | lanNeighs => exact hplain .lanNeighs (by decide) (by decide) h
  | lspEntries => exact hplain .lspEntries (by decide) (by decide) h
  | ipv4Addrs => exact hplain .ipv4Addrs (by decide) (by decide) h
  | ipv4IntReachs => exact hplain .ipv4IntReachs (by decide) (by decide) h
  | ipv4ExtReachs => exact hplain .ipv4ExtReachs (by decide) (by decide) h
  | ipv6Addrs => exact hplain .ipv6Addrs (by decide) (by decide) h

/-- A field whose elements stay inside it, neighbours without a virtual flag apart. -/
theorem cut_of_listElements (hr : listElements bytes list p length=.ok r)
    (hin : ElementsInside r p length) (hvirtual : list=.isNeighs → 1≤length) :
    ValueCut bytes list p length := by
  have hplain : ∀ (l : TlvList) {r : LoopResult},
      elementLoop bytes l length (length+1) p 0=.ok r → ElementsInside r p length →
      Cut bytes l (p+length) p := fun l r hr hin =>
    cut_of_elementLoop (length+1) 0 (Nat.zero_le _) hr fun e he => (hin e he).2
  have hbind : ∀ (l : TlvList) (v : ℕ) (g : LoopResult → LoopResult) {r : LoopResult},
      (elementLoop bytes l length (length+1) (p+v) v >>= fun r => .ok (g r))=.ok r →
      ∃ r', elementLoop bytes l length (length+1) (p+v) v=.ok r' ∧ g r'=r := by
    intro l v g r h
    cases hloop : elementLoop bytes l length (length+1) (p+v) v with
    | error e =>
      rw [hloop] at h
      cases h
    | ok r' =>
      rw [hloop] at h
      cases h
      exact ⟨r',rfl,rfl⟩
  cases list with
  | isNeighs =>
    have hpos := hvirtual rfl
    obtain ⟨b,-,hb⟩ := bind_byteAt hr
    exact ⟨hpos,cut_of_elementLoop (length+1) 1 hpos hb fun e he => (hin e he).2⟩
  | esNeighs =>
    obtain ⟨r',hr',rfl⟩ := hbind .esNeighs 4 (fun r => ⟨[(p,r.pnt)],r.pnt,false⟩) hr
    have hend : r'.pnt≤p+length := (hin _ (mem_singleton.mpr rfl)).2
    obtain ⟨hle,hstops⟩ := elementLoop_inside _ _ _ hr'
    have hpos : 4≤length := by omega
    exact ⟨hpos,cut_of_elementLoop (length+1) 4 hpos hr' fun e he =>
      (hstops e he).trans hend⟩
  | teIpv4Reachs =>
    obtain ⟨r',hr',rfl⟩ := hbind .teIpv4Reachs 0 (fun r => {r with pnt := p+length}) hr
    exact hplain .teIpv4Reachs hr' hin
  | ipv6Reachs =>
    obtain ⟨r',hr',rfl⟩ := hbind .ipv6Reachs 0 (fun r => {r with pnt := p+length}) hr
    exact hplain .ipv6Reachs hr' hin
  | areaAddrs => exact hplain .areaAddrs hr hin
  | teIsNeighs => exact hplain .teIsNeighs hr hin
  | lanNeighs => exact hplain .lanNeighs hr hin
  | lspEntries => exact hplain .lspEntries hr hin
  | ipv4Addrs => exact hplain .ipv4Addrs hr hin
  | ipv4IntReachs => exact hplain .ipv4IntReachs hr hin
  | ipv4ExtReachs => exact hplain .ipv4ExtReachs hr hin
  | ipv6Addrs => exact hplain .ipv6Addrs hr hin

end

end RoutePlatform.TlvElements
