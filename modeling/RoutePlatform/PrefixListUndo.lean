import RoutePlatform.PrefixListRuns

/-!
# Removing an entry that was added

`vty_prefix_list_install` drops a maximum length that is the whole address when there is a
minimum length; `vty_prefix_list_uninstall` looks for the lengths as they were given.
-/

namespace RoutePlatform.PrefixListUndo

open LinkedNodes OperationRuns PrefixBytes PrefixListOperations PrefixListInvariant PrefixListRuns
  Function List Option

variable {p : Prefix} {type : PrefixListType} {d : PrefixListEntry} {seqnum : ℤ} {l : ℕ}
  {as bs : List ℕ}

def contents (s : PlistState) (l : ℕ) : List PrefixListEntry := ((s.entries l).getD []).map s.data

/-- The entries of the list with a name, none if there is no such list. -/
def contentsOf (s : PlistState) (m : Master) (name : Str) : List PrefixListEntry :=
  ((prefixListLookup s m name).map (contents s)).getD []

/-- The number that a new entry gets. -/
def newNumber (s : PlistState) (es : List ℕ) (seqnum : ℤ) : ℤ :=
  if seqnum = -1 then prefixNewSeqGet s es else seqnum

/-- No entry has the number of the new one, so that none is replaced. -/
def NumberFree (s : PlistState) (m : Master) (name : Str) (seq : Option Str) : Prop :=
  ∀ l es, prefixListLookup s m name=some l → s.entries l=some es →
    prefixSeqCheck s es (newNumber s es ((seq.map atoi).getD (-1)))=none

section

variable {s s' : PlistState} {es : List ℕ}

theorem newNumber_congr (seqnum : ℤ) (h : ∀ x∈es, s'.data x=s.data x) :
    newNumber s' es seqnum=newNumber s es seqnum := by
  unfold newNumber prefixNewSeqGet
  rw [foldl_ext _ _ _ fun maxseq x hx => by rw [h x hx]]

theorem byteAt_prefixCopy {i : ℕ} (hi : i<p.family.bytelen) :
    byteAt (prefixCopy p).u i=byteAt p.u i := by
  simp [byteAt,prefixCopy,hi]

theorem prefixSame_prefixCopy (q p : Prefix) : prefixSame q (prefixCopy p)=prefixSame q p := by
  unfold prefixSame
  by_cases hfamily : q.family=p.family
  · have hbs : sameBytes q.u (prefixCopy p).u q.family.bytelen=
        sameBytes q.u p.u q.family.bytelen := by
      rw [Bool.eq_iff_iff,sameBytes_iff,sameBytes_iff]
      exact forall₂_congr fun i hi => by rw [byteAt_prefixCopy (hfamily ▸ hi)]
    rw [hbs]
    rfl
  · simp [prefixCopy,hfamily]

theorem prefixSame_copy_self (hp : p.family≠.unspec) : prefixSame (prefixCopy p) p=true := by
  have hbs : sameBytes (prefixCopy p).u p.u p.family.bytelen=true :=
    (sameBytes_iff _ _ _).mpr fun i hi => byteAt_prefixCopy hi
  simp [prefixSame,prefixCopy,hp] at hbs ⊢
  exact hbs

end

section

variable {s s' : PlistState} {shape : ℕ→List ℕ}

theorem prefixListLookup_congr {m : Master} {name : Str} (hlists : s'.lists=s.lists)
    (hname : ∀ l, (s'.plist l).name=(s.plist l).name) :
    prefixListLookup s' m name=prefixListLookup s m name := by
  unfold prefixListLookup
  rw [hlists]
  simp only [hname]

/-- The list that is found or made has the entries that the name had. -/
theorem listGet_spec (h : Rep s shape) (m : Master) (name : Str) :
    ∃ shape', Rep (prefixListGet s m name).1 shape' ∧
      Known (prefixListGet s m name).1 (prefixListGet s m name).2 ∧
      prefixListLookup (prefixListGet s m name).1 m name=some (prefixListGet s m name).2 ∧
      (prefixListGet s m name).1.data=s.data ∧
      (shape' (prefixListGet s m name).2).map s.data=contentsOf s m name ∧
      ∀ x∈shape' (prefixListGet s m name).2, ∃ l, prefixListLookup s m name=some l ∧
        s.entries l=some (shape' (prefixListGet s m name).2) := by
  rw [prefixListGet]
  cases hlk : prefixListLookup s m name with
  | some l =>
    have hknown := known_of_lookup hlk
    refine ⟨shape,h,hknown,hlk,rfl,?_,fun x _ => ⟨l,rfl,h.entries hknown⟩⟩
    rw [contentsOf,hlk,map_some,getD_some,contents,h.entries hknown,getD_some]
  | none =>
    obtain ⟨hrep,hknown⟩ := Rep.listInsert h m name
    refine ⟨_,hrep,hknown,?_,rfl,?_,fun x hx => ?_⟩
    · have hnew : ((prefixListInsert s m name).1.plist s.nextList).name=name :=
        congrArg PrefixList.name (update_self s.nextList _ s.plist)
      have hmem : s.nextList∈(prefixListInsert s m name).1.lists m .number++
          (prefixListInsert s m name).1.lists m .string := by
        rw [mem_append,mem_lists_listInsert,mem_lists_listInsert]
        cases hty : nameType name <;> simp
      have hoths : ∀ x∈(prefixListInsert s m name).1.lists m .number++
          (prefixListInsert s m name).1.lists m .string,
          ((prefixListInsert s m name).1.plist x).name=name → x=s.nextList := by
        intro x hx hname
        by_contra hne
        have hold : x∈s.lists m .number++s.lists m .string := by
          rw [mem_append,mem_lists_listInsert,mem_lists_listInsert] at hx
          rw [mem_append]
          exact hx.imp (fun h => h.resolve_right fun h => hne h.2.2)
            fun h => h.resolve_right fun h => hne h.2.2
        have hplist : (prefixListInsert s m name).1.plist x=s.plist x := update_of_ne hne _ _
        rw [hplist] at hname
        exact absurd (decide_eq_true hname) (find?_eq_none.mp hlk x hold)
      cases hfind : prefixListLookup (prefixListInsert s m name).1 m name with
      | none => exact absurd (decide_eq_true hnew) (find?_eq_none.mp hfind _ hmem)
      | some x =>
        rw [prefixListLookup] at hfind
        have hname := find?_some hfind
        rw [hoths x (mem_of_find?_eq_some hfind) (of_decide_eq_true hname)]
        rfl
    · rw [contentsOf,hlk]
      change ((update shape s.nextList []) s.nextList).map s.data=_
      rw [update_self]
      rfl
    · change x∈(update shape s.nextList []) s.nextList at hx
      rw [update_self] at hx
      cases hx

theorem entryDelete_spec {x : ℕ} (h : Rep s shape) (hl : Known s l) (hshape : shape l=as++x::bs) :
    ∃ s'', prefixListEntryDelete s l x true=some s'' ∧ contents s'' l=(as++bs).map s.data := by
  have hunlinked := h.unlinkEntry hl hshape
  have hl' : Known (entryUnlink s l x) l := hl
  have hent := hunlinked.entries hl'
  rw [update_self] at hent
  have hdata : (entryUnlink s l x).data=s.data := funext (data_entryUnlink s l x)
  rw [prefixListEntryDelete]
  split
  · rename_i hemp
    have hhead := (hunlinked.lists l hl').head
    rw [hemp.2.1,update_self] at hhead
    have hnil : as++bs=[] := head?_eq_none_iff.mp hhead.symm
    refine ⟨_,by rw [prefixListDelete,hent,map_some],?_⟩
    rw [contents,PlistState.entries]
    change ((chain _ _ ((entryUnlink s l x).plist l).head).getD []).map _=_
    rw [hemp.2.1,hnil]
    cases Finset.card _ <;> rfl
  refine ⟨_,rfl,?_⟩
  rw [contents,hent,hdata,getD_some]

end

section

variable {s : PlistState} {shape : ℕ→List ℕ} {l e : ℕ}

theorem entryLink_kept (s : PlistState) (l e : ℕ) (point : Option ℕ) :
    (entryLink s l e point).data=s.data ∧ (entryLink s l e point).lists=s.lists ∧
      ∀ x, ((entryLink s l e point).plist x).name=(s.plist x).name := by
  have hname (s : PlistState) (f : PrefixList → PrefixList) (hf : ∀ pl, (f pl).name=pl.name)
      (x : ℕ) : ((s.modifyList l f).plist x).name=(s.plist x).name := by
    by_cases hx : x=l
    · rw [hx,modifyList_self,hf]
    · rw [modifyList_of_ne s f hx]
  cases point with
  | none =>
    refine ⟨funext fun x => data_attachTail s.entry _ e x,rfl,?_⟩
    rw [entryLink_none]
    exact hname _ _ fun _ => rfl
  | some point =>
    refine ⟨funext fun x => data_attachBefore s.entry point e x,rfl,?_⟩
    rw [entryLink_some]
    exact hname _ _ fun _ => rfl

/-- A new entry whose number is free is linked between the others. -/
theorem entryAdd_spec (h : Rep s shape) (hl : Known s l) (hp : Pending s shape e)
    (hfree : ∀ x∈shape l, (s.data x).seq≠newNumber s (shape l) (s.data e).seq) :
    ∃ s' as bs, prefixListEntryAdd s l e=some s' ∧ shape l=as++bs ∧
      Rep s' (update shape l (as++e::bs)) ∧ s'.lists=s.lists ∧
      (∀ x, (s'.plist x).name=(s.plist x).name) ∧ (∀ x, x≠e → s'.data x=s.data x) ∧
      s'.data e={s.data e with seq := newNumber s (shape l) (s.data e).seq} := by
  rw [prefixListEntryAdd,h.entries hl,bind_some]
  dsimp only
  generalize hs' : (if (s.data e).seq = -1 then
    s.modifyData e fun d => {d with seq := prefixNewSeqGet s (shape l)} else s)=s'
  obtain ⟨h',hp',hlists⟩ := Rep.numberEntry h hp _ s' hs'.symm
  have hl' : Known s' l := by
    rw [Known,hlists]
    exact hl
  have hsame : ∀ x, x≠e → s'.data x=s.data x := by
    intro x hx
    rw [←hs']
    split
    · rw [data_modifyData,if_neg hx]
    · rfl
  have hown : s'.data e={s.data e with seq := newNumber s (shape l) (s.data e).seq} := by
    rw [←hs',newNumber]
    split
    · rw [data_modifyData,if_pos rfl]
    · rfl
  have hplist : s'.plist=s.plist := by
    rw [←hs']
    split <;> rfl
  have hapart := hp.apart l hl
  have hnew : ∀ x∈shape l, (s'.data x).seq≠(s'.data e).seq := by
    intro x hx
    rw [hsame x fun hxe => hapart (hxe ▸ hx),hown]
    exact hfree x hx
  have hcheck : prefixSeqCheck s' (shape l) (s'.data e).seq=none :=
    find?_eq_none.mpr fun x hx => by simpa using hnew x hx
  obtain ⟨as,bs,hshape,hrep⟩ := h'.insertEntry hl' hp' hnew
  rw [hcheck]
  rw [bind_some,h'.entries hl',map_some]
  obtain ⟨hdata,hlink,hname⟩ := entryLink_kept s' l e
    ((shape l).find? fun point => (s'.data e).seq≤(s'.data point).seq)
  refine ⟨_,as,bs,rfl,hshape,hrep,hlink.trans hlists,fun x => ?_,fun x hx => ?_,?_⟩
  · rw [hname,hplist]
  · rw [hdata,hsame x hx]
  · rw [hdata,hown]

/-- A new entry between the others, none of which has its number or its policy. -/
structure Added (s : PlistState) (l e : ℕ) (d : PrefixListEntry) (as bs : List ℕ) : Prop where
  rep : ∃ shape, Rep s shape ∧ shape l=as++e::bs
  own : s.data e=d
  fresh : ∀ x∈as++bs, (s.data x).seq≠d.seq
  other : ∀ x∈as++bs, ¬(prefixSame (s.data x).network d.network=true ∧ (s.data x).type=d.type ∧
    (s.data x).le=d.le ∧ (s.data x).ge=d.ge)

/-- The end of `vty_prefix_list_install`, when it succeeds and the number is free. -/
theorem addEntry_added (h : Rep s shape) (hl : Known s l) (hp : Pending s shape e)
    (hfree : ∀ x∈shape l, (s.data x).seq≠newNumber s (shape l) (s.data e).seq)
    {refused : ℕ → Reply} (hrefused : ∀ dup, refused dup≠.success) {s' : PlistState}
    (hadd : ((s.entries l).bind fun es =>
      match prefixEntryDupCheck s es (s.data e) with
      | some dup => some (prefixListEntryFree s e,refused dup)
      | none => (prefixListEntryAdd s l e).map fun s => (s,.success))=some (s',.success)) :
    ∃ as bs, Added s' l e {s.data e with seq := newNumber s (shape l) (s.data e).seq} as bs ∧
      shape l=as++bs ∧ (∀ x∈as++bs, s'.data x=s.data x) ∧
      ∀ m name, prefixListLookup s' m name=prefixListLookup s m name := by
  obtain ⟨s2,as,bs,hresult,hsplit,hrep,hlists,hname,hkept,hown⟩ := entryAdd_spec h hl hp hfree
  rw [h.entries hl,bind_some] at hadd
  cases hdup : prefixEntryDupCheck s (shape l) (s.data e) with
  | some dup =>
    rw [hdup] at hadd
    cases hrefused dup (congrArg Prod.snd (some.inj hadd))
  | none =>
    rw [hdup,hresult] at hadd
    have hs' : s2=s' := congrArg Prod.fst (some.inj hadd)
    rw [←hs']
    have hmem : ∀ x∈as++bs, x∈shape l := fun x hx => hsplit ▸ hx
    have hold : ∀ x∈as++bs, s2.data x=s.data x := by
      intro x hx
      refine hkept x ?_
      rintro rfl
      exact hp.apart l hl (hmem x hx)
    refine ⟨as,bs,⟨⟨_,hrep,update_self _ _ _⟩,hown,fun x hx => ?_,fun x hx hsame => ?_⟩,hsplit,
      hold,fun m name => prefixListLookup_congr hlists hname⟩
    · rw [hold x hx]
      exact hfree x (hmem x hx)
    have hno := find?_eq_none.mp hdup x (hmem x hx)
    have hseq := hfree x (hmem x hx)
    rw [newNumber] at hseq
    rw [hold x hx] at hsame
    obtain ⟨hnetwork,hty,hle,hge⟩ := hsame
    simp [hnetwork,hty,hle,hge,hseq] at hno

end

/-- The maximum length that is stored. -/
def storedLe (afi : Afi) (genum lenum : ℤ) : ℤ :=
  if genum≠0 ∧ lenum=afi.maxBitlen then 0 else lenum

theorem commandPrefix_family {libc : Libc} {afi : Afi} {network : Str}
    (h : commandPrefix libc afi network=some p) : p.family≠.unspec := by
  have hchecked {family : Family} {u : Address} {plen : ℕ}
      (h : checkedPrefix family u plen=some p) : p.family=family := by
    rw [checkedPrefix] at h
    split at h
    · rw [←some.inj h]
    · cases h
  have hparse {parse : Str→Option Address} {family : Family} {str : Str}
      (h : str2prefixWith parse family str=some p) : p.family=family := by
    rw [str2prefixWith] at h
    split at h <;>
    · obtain ⟨u,-,hu⟩ := bind_eq_some_iff.mp h
      exact hchecked hu
  cases afi <;>
  · rw [hparse h]
    decide

section

variable {s s' : PlistState} {shape : ℕ→List ℕ} {libc : Libc} {afi : Afi} {name : Str}
  {seq : Option Str} {typestr network : Str} {ge le : Option Str}

theorem install_added (h : Rep s shape)
    (hins : vtyPrefixListInstall libc s afi name seq typestr network ge le=some (s',.success))
    (hfree : NumberFree s afi.master name seq) :
    ∃ type p number l e as bs, filterType typestr=some type ∧
      commandPrefix libc afi network=some p ∧
      (0≤(seq.map atoi).getD (-1) → number=(seq.map atoi).getD (-1)) ∧
      prefixListLookup s' afi.master name=some l ∧
      (as++bs).map s'.data=contentsOf s afi.master name ∧
      Added s' l e
        { seq := number
          le := storedLe afi (if isAny network then 0 else optionalNumber ge)
            (if isAny network then (afi.maxBitlen : ℤ) else optionalNumber le)
          ge := if isAny network then 0 else optionalNumber ge
          type,any := isAny network,network := prefixCopy p,refcnt := 0,hitcnt := 0 } as bs := by
  rw [vtyPrefixListInstall] at hins
  unfold storedLe
  cases hty : filterType typestr with
  | none =>
    rw [hty] at hins
    cases hins
  | some type =>
    rw [hty] at hins
    dsimp only at hins
    generalize (if isAny network=true then 0 else optionalNumber ge)=genum at *
    generalize (if isAny network=true then (afi.maxBitlen : ℤ) else optionalNumber le)=lenum at *
    cases hp : commandPrefix libc afi network with
    | none =>
      rw [hp] at hins
      cases hins
    | some p =>
      rw [hp] at hins
      dsimp only at hins
      cases hrange : invalidPrefixRange p.prefixlen genum lenum with
      | true =>
        rw [hrange] at hins
        cases hins
      | false =>
        rw [hrange,if_neg Bool.false_ne_true] at hins
        obtain ⟨shape',hrep,hknown,hlk,hdata,hcon,hold⟩ :=
          listGet_spec h afi.master name
        generalize prefixListGet s afi.master name=got at *
        have hdrop := invalidPrefixRange_drop hrange (genum≠0 ∧ lenum=afi.maxBitlen)
        generalize (if genum≠0 ∧ lenum=afi.maxBitlen then 0 else lenum)=stored at *
        obtain ⟨hmade,hpending⟩ := hrep.entryMake p type ((seq.map atoi).getD (-1)) stored genum
          (isAny network) hdrop
        have hkept : ∀ x∈shape' got.2, (prefixListEntryMake got.1 p type
            ((seq.map atoi).getD (-1)) stored genum (isAny network)).1.data x=s.data x := by
          intro x hx
          have hne : x≠got.1.nextEntry := by
            rintro rfl
            exact hpending.apart got.2 hknown hx
          rw [←hdata]
          exact congrArg Node.data (update_of_ne hne _ _)
        have hown : (prefixListEntryMake got.1 p type ((seq.map atoi).getD (-1)) stored genum
            (isAny network)).1.data got.1.nextEntry=⟨(seq.map atoi).getD (-1),stored,genum,type,
              isAny network,prefixCopy p,0,0⟩ :=
          congrArg Node.data (update_self got.1.nextEntry _ got.1.entry)
        have hnumber := newNumber_congr ((seq.map atoi).getD (-1)) hkept
        have hfree' : ∀ x∈shape' got.2, (s.data x).seq≠
            newNumber s (shape' got.2) ((seq.map atoi).getD (-1)) := by
          intro x hx
          obtain ⟨l,hl,hent⟩ := hold x hx
          simpa using find?_eq_none.mp (hfree l _ hl hent) x hx
        obtain ⟨as,bs,hadded,hsplit,hsame,hfnd⟩ := addEntry_added hmade hknown hpending
          (fun x hx => by
            rw [hkept x hx]
            refine ne_of_ne_of_eq (hfree' x hx) ?_
            rw [←hnumber]
            exact congrArg _ (congrArg PrefixListEntry.seq hown).symm)
          (fun _ h => Reply.noConfusion h) hins
        refine ⟨type,p,_,got.2,got.1.nextEntry,as,bs,rfl,rfl,?_,?_,?_,hown ▸ hadded⟩
        · intro hseq
          have hgiven : (seq.map atoi).getD (-1)≠-1 := by omega
          exact if_neg hgiven
        · rw [hfnd,←hlk]
          rfl
        rw [←hcon,hsplit]
        exact map_congr_left fun x hx => (hsame x hx).trans (hkept x (hsplit ▸ hx))

theorem uninstall_eq {es : List ℕ} (hty : filterType typestr=some type)
    (hp : commandPrefix libc afi network=some p)
    (hlk : prefixListLookup s afi.master name=some l) (hent : s.entries l=some es) :
    vtyPrefixListUninstall libc s afi name seq (some typestr) (some network) ge le=
      match prefixListEntryLookup s es p type ((seq.map atoi).getD (-1))
        (if isAny network then (afi.maxBitlen : ℤ) else optionalNumber le)
        (if isAny network then 0 else optionalNumber ge) with
      | none => some (s,.notFound)
      | some e => (prefixListEntryDelete s l e true).map fun s => (s,.success) := by
  simp only [vtyPrefixListUninstall,hlk,hty,hp,hent,reduceCtorEq,false_and,and_false,
    if_false,bind_some]
  all_goals rfl

theorem lookup_added {e : ℕ} (h : Added s l e d as bs) (hnetwork : d.network=prefixCopy p)
    (hp : p.family≠.unspec) (hseq : 0 ≤ seqnum → d.seq=seqnum) :
    prefixListEntryLookup s (as++e::bs) p d.type seqnum d.le d.ge=some e := by
  have hoth : ∀ x∈as, ¬(prefixSame (s.data x).network p && (s.data x).type=d.type &&
      !(0 ≤ seqnum && (s.data x).seq≠seqnum) && (s.data x).le=d.le && (s.data x).ge=d.ge)=true := by
    intro x hx hsame
    have hno := h.other x (mem_append_left _ hx)
    rw [hnetwork,prefixSame_prefixCopy] at hno
    simp only [Bool.and_eq_true,decide_eq_true_eq] at hsame
    exact hno ⟨hsame.1.1.1.1,hsame.1.1.1.2,hsame.1.2,hsame.2⟩
  have hself : (prefixSame (s.data e).network p && (s.data e).type=d.type &&
      !(0 ≤ seqnum && (s.data e).seq≠seqnum) && (s.data e).le=d.le && (s.data e).ge=d.ge)=true := by
    rw [h.own,hnetwork,prefixSame_copy_self hp]
    simpa [imp_iff_not_or] using hseq
  rw [prefixListEntryLookup,find?_append,find?_eq_none.mpr hoth,find?_cons,hself]
  rfl

/-- Whatever entry of another policy is removed, the new entry stays. -/
theorem lookup_removes {e x : ℕ} {le ge : ℤ} (h : Added s l e d as bs) (hl : Known s l)
    (hle : le≠d.le) (hfnd : prefixListEntryLookup s (as++e::bs) p type seqnum le ge=some x)
    {s'' : PlistState} (hdelete : prefixListEntryDelete s l x true=some s'') :
    contents s'' l≠(as++bs).map s.data := by
  obtain ⟨shape,hrep,hshape⟩ := h.rep
  have hfind := find?_some hfnd
  simp only [Bool.and_eq_true,decide_eq_true_eq] at hfind
  have hne : e≠x := by
    rintro rfl
    rw [h.own] at hfind
    exact hle hfind.1.2.symm
  obtain ⟨cs,ds,hsplit⟩ := append_of_mem (mem_of_find?_eq_some hfnd)
  obtain ⟨s2,hresult,hcon⟩ := entryDelete_spec hrep hl (hshape.trans hsplit)
  rw [hdelete] at hresult
  rw [some.inj hresult,hcon]
  intro heq
  have hmem : e∈cs++ds := by
    have he : e∈cs++x::ds := hsplit ▸ mem_append_right as mem_cons_self
    rw [mem_append,mem_cons] at he
    exact mem_append.mpr (he.imp id fun h => h.resolve_left hne)
  have hdata := mem_map_of_mem (f := s.data) hmem
  rw [heq,List.mem_map] at hdata
  obtain ⟨y,hy,hsame⟩ := hdata
  exact h.fresh y hy (by rw [hsame,h.own])

end

/-- In every run, after `vty_prefix_list_install` replaces nothing, `vty_prefix_list_uninstall`
restores the entries exactly when not a minimum length comes with the maximum length of the family.
-/
theorem vtyPrefixListUninstall_undoes_iff (libc : Libc) (ops : List PlistOp) (s s' : PlistState)
    (hrun : run (plistStep libc) emptyState ops=some s) (afi : Afi) (name : Str)
    (seq : Option Str) (typestr network : Str) (ge le : Option Str)
    (hinstall : vtyPrefixListInstall libc s afi name seq typestr network ge le=some (s',.success))
    (hfree : NumberFree s afi.master name seq) :
    (∃ l s'', prefixListLookup s' afi.master name=some l ∧
      vtyPrefixListUninstall libc s' afi name seq (some typestr) (some network) ge le=
        some (s'',.success) ∧ contents s'' l=contentsOf s afi.master name) ↔
      ¬(isAny network=false ∧ optionalNumber ge≠0 ∧ optionalNumber le=afi.maxBitlen) := by
  have hall : LegalRun (plistStep libc) (fun _ _ => True) emptyState ops :=
    legalRun_of_forall (fun _ _ _ => trivial) _
  obtain ⟨s2,hrun2,shape,hrep⟩ := run_invariant (plistStep_inv libc) ops _ emptyState_inv hall
  rw [hrun] at hrun2
  rw [←some.inj hrun2] at hrep
  obtain ⟨type,p,number,l,e,as,bs,htype,hp,hseq,hlookup,hbefore,hadded⟩ :=
    install_added hrep hinstall hfree
  obtain ⟨shape',hrep',hshape'⟩ := hadded.rep
  have hl := known_of_lookup hlookup
  have hentries := hrep'.entries hl
  rw [hshape'] at hentries
  rw [uninstall_eq htype hp hlookup hentries]
  constructor
  · rintro ⟨l',s'',hl',hresult,hcontents⟩ ⟨hany,hge,hle⟩
    rw [hlookup] at hl'
    rw [←some.inj hl',←hbefore] at hcontents
    split at hresult
    · cases hresult
    rename_i x hfound
    obtain ⟨s3,hdelete,hs3⟩ := map_eq_some_iff.mp hresult
    rw [show s3=s'' from congrArg Prod.fst hs3] at hdelete
    refine lookup_removes hadded hl ?_ hfound hdelete hcontents
    rw [hany,if_neg Bool.false_ne_true,hle]
    change _≠storedLe afi (optionalNumber ge) afi.maxBitlen
    rw [storedLe,if_pos ⟨hge,rfl⟩]
    cases afi <;> decide
  · intro hcond
    have hstored : storedLe afi (if isAny network then 0 else optionalNumber ge)
        (if isAny network then (afi.maxBitlen : ℤ) else optionalNumber le)=
          if isAny network then (afi.maxBitlen : ℤ) else optionalNumber le := by
      refine if_neg ?_
      split
      · exact fun h => h.1 rfl
      rename_i hany
      exact fun h => hcond ⟨Bool.eq_false_of_not_eq_true hany,h⟩
    have hfound := lookup_added hadded rfl (commandPrefix_family hp) hseq
    rw [hstored] at hfound
    obtain ⟨s'',hdelete,hcontents⟩ := entryDelete_spec hrep' hl hshape'
    refine ⟨l,s'',hlookup,?_,hcontents.trans hbefore⟩
    rw [hfound]
    dsimp only
    rw [hdelete,map_some]

/-- An address parser that knows one address. -/
def sampleLibc : Libc where
  inetAton := fun str =>
    if str="10.0.0.0".toList then some fun i => if i=0 then 10 else 0 else none
  inetPton := fun _ => none

theorem numberFree_empty (m : Master) (name : Str) (seq : Option Str) :
    NumberFree emptyState m name seq := by
  intro l es h
  cases (h : none=some l)

theorem vtyPrefixListUninstall_undoes_sample : ∃ s', vtyPrefixListInstall sampleLibc emptyState
    .ip ['L'] (some ['5']) "permit".toList "10.0.0.0/8".toList none (some "24".toList)=
      some (s',.success) ∧ ∃ l s'', prefixListLookup s' .ipv4 ['L']=some l ∧
        vtyPrefixListUninstall sampleLibc s' .ip ['L'] (some ['5']) (some "permit".toList)
          (some "10.0.0.0/8".toList) none (some "24".toList)=some (s'',.success) ∧
        contents s'' l=contentsOf emptyState .ipv4 ['L'] :=
  ⟨_,rfl,(vtyPrefixListUninstall_undoes_iff sampleLibc [] emptyState _ rfl .ip ['L'] (some ['5'])
    "permit".toList "10.0.0.0/8".toList none (some "24".toList) rfl
    (numberFree_empty _ _ _)).mpr (by decide)⟩

/-- `ip prefix-list L seq 5 permit 10.0.0.0/8 ge 16 le 32` is installed, but not found again. -/
theorem vtyPrefixListUninstall_misses : ∃ s', vtyPrefixListInstall sampleLibc emptyState
    .ip ['L'] (some ['5']) "permit".toList "10.0.0.0/8".toList (some "16".toList)
      (some "32".toList)=some (s',.success) ∧ NumberFree emptyState .ipv4 ['L'] (some ['5']) ∧
        vtyPrefixListUninstall sampleLibc s' .ip ['L'] (some ['5']) (some "permit".toList)
          (some "10.0.0.0/8".toList) (some "16".toList) (some "32".toList)=some (s',.notFound) :=
  ⟨_,rfl,numberFree_empty _ _ _,rfl⟩

end RoutePlatform.PrefixListUndo
