import RoutePlatform.PrefixListInvariant

/-!
# Prefix lists under every sequence of commands

Commands that succeed and commands that fail keep all lists well formed. So a
walk along a list meets the matching entry with the smallest sequence number
first, and `prefix_list_apply` answers its type.
-/

namespace RoutePlatform.PrefixListRuns

open LinkedNodes OperationRuns PrefixBytes PrefixListOperations PrefixListInvariant
  Function List Option

variable {l : ℕ} (libc : Libc) (s : PlistState) {shape : ℕ→List ℕ} {xs : List ℕ} {x : ℕ}

section

variable {s : PlistState} {shape : ℕ→List ℕ} {l e : ℕ}

variable (h : Rep s shape)
include h

theorem Rep.entryDelete (hl : Known s l) (he : e∈shape l) (update : Bool) :
    ∃ s' shape', prefixListEntryDelete s l e update=some s' ∧ Rep s' shape' := by
  obtain ⟨as,bs,hshape⟩ := append_of_mem he
  have hunlinked := h.unlinkEntry hl hshape
  rw [prefixListEntryDelete]
  split
  · obtain ⟨s',hdelete,hrep⟩ := hunlinked.listDelete (l := l) hl
    exact ⟨s',_,hdelete,hrep⟩
  · exact ⟨_,_,rfl,hunlinked⟩

theorem Rep.numberEntry (hp : Pending s shape e) (seq : ℤ) :
    ∀ s', s'=(if (s.data e).seq = -1 then s.modifyData e fun d => {d with seq} else s) →
      Rep s' shape ∧ Pending s' shape e ∧ s'.lists=s.lists := by
  intro s' hs'
  rw [hs']
  split
  · have hkeep := h.modifyPending hp (fun d => {d with seq})
      ⟨hp.window.ge_gt,hp.window.le_gt,hp.window.ge_le⟩
    exact ⟨hkeep.1,hkeep.2,rfl⟩
  · exact ⟨h,hp,rfl⟩

/-- A pending entry gets a place of its own. -/
theorem Rep.entryAdd (hl : Known s l) (hp : Pending s shape e) :
    ∃ s' shape', prefixListEntryAdd s l e=some s' ∧ Rep s' shape' := by
  rw [prefixListEntryAdd,h.entries hl,bind_some]
  dsimp only
  generalize hs' : (if (s.data e).seq = -1 then
    s.modifyData e fun d => {d with seq := prefixNewSeqGet s (shape l)} else s)=s'
  obtain ⟨h',hp',hlists⟩ := Rep.numberEntry h hp _ s' hs'.symm
  have hl' : Known s' l := by
    rw [Known,hlists]
    exact hl
  have hok := h'.lists l hl'
  cases hcheck : prefixSeqCheck s' (shape l) (s'.data e).seq with
  | none =>
    have hnew : ∀ x∈shape l, (s'.data x).seq≠(s'.data e).seq := by
      intro x hx
      simpa using find?_eq_none.mp hcheck x hx
    obtain ⟨as,bs,-,hrep⟩ := h'.insertEntry hl' hp' hnew
    refine ⟨_,_,?_,hrep⟩
    rw [bind_some,h'.entries hl',map_some]
  | some old =>
    have hold : (s'.data old).seq=(s'.data e).seq := by simpa using find?_some hcheck
    obtain ⟨as,bs,hshape⟩ := append_of_mem (mem_of_find?_eq_some hcheck)
    have hunlinked := h'.unlinkEntry hl' hshape
    have hpending : Pending (entryUnlink s' l old) (update shape l (as++bs)) e := by
      have hne : e≠old := by
        intro heq
        refine hp'.apart l hl' ?_
        rw [hshape,heq]
        exact mem_append_right _ mem_cons_self
      refine ⟨Finset.mem_erase.mpr ⟨hne,hp'.live⟩,?_,?_⟩
      · intro l2 hl2 hmem
        by_cases hll : l2=l
        · rw [hll,update_self] at hmem
          refine hp'.apart l hl' ?_
          rw [hshape]
          exact (List.Sublist.append_left (sublist_cons_self old bs) as).mem hmem
        rw [update_of_ne hll] at hmem
        exact hp'.apart l2 hl2 hmem
      rw [data_entryUnlink]
      exact hp'.window
    have hnew : ∀ x∈(update shape l (as++bs)) l,
        ((entryUnlink s' l old).data x).seq≠((entryUnlink s' l old).data e).seq := by
      intro x hx
      rw [update_self] at hx
      rw [data_entryUnlink,data_entryUnlink,←hold]
      have hsrt := hok.sorted
      rw [hshape] at hsrt
      obtain ⟨_,hcons,hcross⟩ := pairwise_append.mp hsrt
      cases mem_append.mp hx with
      | inl hxa => exact ne_of_lt (hcross x hxa old mem_cons_self)
      | inr hxb => exact ne_of_gt (rel_of_pairwise_cons hcons hxb)
    obtain ⟨as,bs,-,hrep⟩ := hunlinked.insertEntry hl' hpending hnew
    refine ⟨_,_,?_,hrep⟩
    have hdelete : prefixListEntryDelete s' l old false=some (entryUnlink s' l old) := by
      simp [prefixListEntryDelete]
    dsimp only
    rw [hdelete,bind_some,hunlinked.entries hl',map_some]

end

section

variable {s : PlistState} {shape : ℕ→List ℕ}

theorem known_of_lookup {m : Master} {name : Str} (h : prefixListLookup s m name=some l) :
    Known s l := by
  have hmem := mem_of_find?_eq_some h
  cases mem_append.mp hmem with
  | inl hnum => exact ⟨m,.number,hnum⟩
  | inr hstr => exact ⟨m,.string,hstr⟩

theorem mem_insertAtPoint {isPoint : ℕ→Bool} : x∈insertAtPoint isPoint l xs ↔ x=l ∨ x∈xs := by
  rw [insertAtPoint,perm_middle.mem_iff,mem_cons,takeWhile_append_dropWhile]

def nameType (name : Str) : PrefixNameType := if name.all Char.isDigit then .number else .string

theorem mem_lists_listInsert (s : PlistState) (m m' : Master) (name : Str)
    (type' : PrefixNameType) (x : ℕ) :
    x∈(prefixListInsert s m name).1.lists m' type' ↔
      x∈s.lists m' type' ∨ m'=m ∧ type'=nameType name ∧ x=s.nextList := by
  simp only [prefixListInsert]
  by_cases hm : m'=m
  · rw [hm,update_self]
    by_cases hty : type'=nameType name
    · rw [hty,nameType,update_self,mem_insertAtPoint,or_comm]
      simp
    rw [update_of_ne (by exact hty)]
    simp [hty]
  rw [update_of_ne hm]
  simp [hm]

theorem Rep.listInsert (h : Rep s shape) (m : Master) (name : Str) :
    Rep (prefixListInsert s m name).1 (update shape s.nextList []) ∧
      Known (prefixListInsert s m name).1 s.nextList := by
  have hplist : ∀ l, l≠s.nextList → (prefixListInsert s m name).1.plist l=s.plist l :=
    fun l hne => update_of_ne hne _ _
  have hnew : (prefixListInsert s m name).1.plist s.nextList =
      ⟨name,none,m,nameType name,0,none,none⟩ := update_self _ _ _
  have hknown : ∀ l, Known (prefixListInsert s m name).1 l → l=s.nextList ∨
      (l≠s.nextList ∧ Known s l) := by
    intro l hl
    obtain ⟨m',type',hmem⟩ := hl
    rw [mem_lists_listInsert] at hmem
    cases hmem with
    | inl hold =>
      have hlt := h.known_lt l ⟨m',type',hold⟩
      exact Or.inr ⟨ne_of_lt hlt,m',type',hold⟩
    | inr hfresh => exact Or.inl hfresh.2.2
  refine ⟨⟨?_,?_,?_,?_,h.live_lt⟩,m,nameType name,?_⟩
  · intro l hl
    cases hknown l hl with
    | inl heq =>
      rw [heq,update_self]
      have hnil : ∀ x∈([] : List ℕ), x∈s.live := fun x hx => (nomatch hx)
      exact ⟨⟨trivial,nodup_nil⟩,by rw [hnew]; rfl,by rw [hnew]; rfl,by rw [hnew]; rfl,
        List.Pairwise.nil,fun x hx => (nomatch hx),hnil⟩
    | inr hold =>
      rw [update_of_ne hold.1]
      have hok := h.lists l hold.2
      exact hok.congr hok.linked (fun x _ => rfl) (hplist l hold.1) hok.live
  · intro l1 l2 h1 h2 hne x hx
    cases hknown l1 h1 with
    | inl heq =>
      rw [heq,update_self] at hx
      cases hx
    | inr hold1 =>
      rw [update_of_ne hold1.1] at hx
      cases hknown l2 h2 with
      | inl heq =>
        rw [heq,update_self]
        exact not_mem_nil
      | inr hold2 =>
        rw [update_of_ne hold2.1]
        exact h.disjoint l1 l2 hold1.2 hold2.2 hne x hx
  · intro l hl
    have hlt : l<s.nextList+1 := by
      cases hknown l hl with
      | inl heq => omega
      | inr hold => exact Nat.lt_succ_of_lt (h.known_lt l hold.2)
    exact hlt
  · intro m' type' l hl
    rw [mem_lists_listInsert] at hl
    cases hl with
    | inl hold =>
      rw [hplist l (ne_of_lt (h.known_lt l ⟨m',type',hold⟩))]
      exact h.place m' type' l hold
    | inr hfresh =>
      obtain ⟨hm',hty',hl⟩ := hfresh
      rw [hl,hnew,hm',hty']
      exact ⟨rfl,rfl⟩
  · rw [mem_lists_listInsert]
    exact Or.inr ⟨rfl,rfl,rfl⟩

theorem Rep.listGet (h : Rep s shape) (m : Master) (name : Str) :
    ∃ shape', Rep (prefixListGet s m name).1 shape' ∧
      Known (prefixListGet s m name).1 (prefixListGet s m name).2 := by
  rw [prefixListGet]
  cases hlk : prefixListLookup s m name with
  | some l => exact ⟨shape,h,known_of_lookup hlk⟩
  | none => exact ⟨_,Rep.listInsert h m name⟩

end

section

variable {s : PlistState} {shape : ℕ→List ℕ}

/-- A command returns and leaves well formed lists. -/
def Keeps (result : Option (PlistState × Reply)) : Prop :=
  ∃ s' reply shape', result=some (s',reply) ∧ Rep s' shape'

theorem keeps_same (h : Rep s shape) (reply : Reply) : Keeps (some (s,reply)) :=
  ⟨s,reply,shape,rfl,h⟩

theorem invalidPrefixRange_drop {prefixlen : ℕ} {genum lenum : ℤ}
    (h : invalidPrefixRange prefixlen genum lenum=false) (drop : Prop) [Decidable drop] :
    invalidPrefixRange prefixlen genum (if drop then 0 else lenum)=false := by
  split
  · simp_all [invalidPrefixRange]
  · exact h

variable (h : Rep s shape)
include h

theorem keeps_addEntry (hl : Known s l) (network : Prefix) (type : PrefixListType) (seq le ge : ℤ)
    (any : Bool) (hrange : invalidPrefixRange network.prefixlen ge le=false) (refused : ℕ → Reply) :
    let made := prefixListEntryMake s network type seq le ge any
    Keeps ((made.1.entries l).bind fun es =>
      match prefixEntryDupCheck made.1 es (made.1.data made.2) with
      | some dup => some (prefixListEntryFree made.1 made.2,refused dup)
      | none => (prefixListEntryAdd made.1 l made.2).map fun s => (s,.success)) := by
  intro made
  obtain ⟨hrep,hpending⟩ := h.entryMake network type seq le ge any hrange
  have hknown : Known made.1 l := hl
  rw [hrep.entries hknown,bind_some]
  split
  · exact keeps_same (hrep.freePending hpending) _
  obtain ⟨s',shape',hadd,hrep'⟩ := Rep.entryAdd hrep hknown hpending
  exact ⟨s',.success,shape',by rw [hadd]; rfl,hrep'⟩

theorem keeps_deleteEntry (hl : Known s l) (find : List ℕ→Option ℕ)
    (hfind : ∀ es e, find es=some e → e∈es) (refused : Reply) :
    Keeps ((s.entries l).bind fun es =>
      match find es with
      | none => some (s,refused)
      | some e => (prefixListEntryDelete s l e true).map fun s => (s,.success)) := by
  rw [h.entries hl,bind_some]
  split
  · exact keeps_same h _
  rename_i e hfnd
  obtain ⟨s',shape',hdelete,hrep'⟩ := Rep.entryDelete h hl (hfind _ e hfnd) true
  exact ⟨s',.success,shape',by rw [hdelete]; rfl,hrep'⟩

theorem keeps_install (afi : Afi) (name : Str) (seq : Option Str) (typestr network : Str)
    (ge le : Option Str) :
    Keeps (vtyPrefixListInstall libc s afi name seq typestr network ge le) := by
  rw [vtyPrefixListInstall]
  cases filterType typestr with
  | none => exact keeps_same h _
  | some type =>
    dsimp only
    generalize (if isAny network=true then 0 else optionalNumber ge)=genum
    generalize (if isAny network=true then (afi.maxBitlen : ℤ) else optionalNumber le)=lenum
    cases commandPrefix libc afi network with
    | none => exact keeps_same h _
    | some p =>
      dsimp only
      cases hrange : invalidPrefixRange p.prefixlen genum lenum with
      | true => exact keeps_same h _
      | false =>
        obtain ⟨shape',hrep,hknown⟩ := Rep.listGet h afi.master name
        exact keeps_addEntry hrep hknown p type _ _ genum (isAny network)
          (invalidPrefixRange_drop hrange _) _

theorem keeps_uninstall (afi : Afi) (name : Str) (seq typestr network ge le : Option Str) :
    Keeps (vtyPrefixListUninstall libc s afi name seq typestr network ge le) := by
  rw [vtyPrefixListUninstall]
  cases hlk : prefixListLookup s afi.master name with
  | none => exact keeps_same h _
  | some l =>
    have hl := known_of_lookup hlk
    dsimp only
    split
    · obtain ⟨s',hdelete,hrep⟩ := h.listDelete hl
      exact ⟨s',.success,shape,by rw [hdelete]; rfl,hrep⟩
    cases typestr with
    | none => exact keeps_same h _
    | some typestr =>
      cases network with
      | none => exact keeps_same h _
      | some network =>
        dsimp only
        cases filterType typestr with
        | none => exact keeps_same h _
        | some type =>
          cases commandPrefix libc afi network with
          | none => exact keeps_same h _
          | some p =>
            exact keeps_deleteEntry h hl _ (fun es e he => mem_of_find?_eq_some he) .notFound

theorem keeps_orfSet (name : Str) (afi : Afi) (orfp : OrfPrefix) (permit set : Bool) :
    Keeps (prefixBgpOrfSet s name afi orfp permit set) := by
  rw [prefixBgpOrfSet]
  cases hrange : invalidPrefixRange orfp.p.prefixlen orfp.ge.toNat orfp.le.toNat with
  | true => exact keeps_same h _
  | false =>
    obtain ⟨shape',hrep,hknown⟩ := Rep.listGet h .orf name
    cases set with
    | true =>
      exact keeps_addEntry hrep hknown orfp.p _ _ _ _ false (invalidPrefixRange_drop hrange _) _
    | false =>
      exact keeps_deleteEntry hrep hknown _ (fun es e he => mem_of_find?_eq_some he) .warning

end

/-- An entry matches: the prefix is within, and its length in the window or equal. -/
def Matches (d : PrefixListEntry) (p : Prefix) : Prop :=
  d.network.key <+: p.key ∧
    if d.le=0 ∧ d.ge=0 then p.prefixlen=d.network.prefixlen
    else (d.le≠0 → (p.prefixlen : ℤ)≤d.le) ∧ (d.ge≠0 → d.ge≤(p.prefixlen : ℤ))

theorem prefixListEntryMatch_iff (d : PrefixListEntry) (p : Prefix) :
    prefixListEntryMatch d p=true ↔ Matches d p := by
  rw [prefixListEntryMatch,Matches,←prefixMatch_iff]
  cases prefixMatch d.network p with
  | false => simp
  | true =>
    simp only [Bool.true_eq_false,if_false,true_and]
    by_cases hexact : d.le=0 ∧ d.ge=0
    · rw [if_pos hexact,if_pos hexact]
      simp [eq_comm]
    rw [if_neg hexact,if_neg hexact]
    by_cases hle : d.le≠0 ∧ (p.prefixlen : ℤ) > d.le
    · rw [if_pos hle]
      simp only [Bool.false_eq_true,false_iff,not_and]
      intro hin
      omega
    rw [if_neg hle]
    simp only [Bool.not_eq_true',decide_eq_false_iff_not,not_and,not_lt]
    constructor
    · intro hge
      refine ⟨fun hne => ?_,hge⟩
      by_contra hgt
      exact hle ⟨hne,by omega⟩
    · exact fun hboth => hboth.2

/-- Two states that differ in the counters of entries only. -/
structure Counted (s s' : PlistState) : Prop where
  links : ∀ x, (s'.entry x).next=(s.entry x).next ∧ (s'.entry x).prev=(s.entry x).prev
  rules : ∀ x, rule (s'.data x)=rule (s.data x)
  live : s'.live=s.live
  nextEntry : s'.nextEntry=s.nextEntry
  plist : s'.plist=s.plist
  nextList : s'.nextList=s.nextList
  lists : s'.lists=s.lists

theorem Counted.trans {s s' s'' : PlistState} (h : Counted s s') (h' : Counted s' s'') :
    Counted s s'' where
  links := fun x => ⟨(h'.links x).1.trans (h.links x).1,(h'.links x).2.trans (h.links x).2⟩
  rules := fun x => (h'.rules x).trans (h.rules x)
  live := h'.live.trans h.live
  nextEntry := h'.nextEntry.trans h.nextEntry
  plist := h'.plist.trans h.plist
  nextList := h'.nextList.trans h.nextList
  lists := h'.lists.trans h.lists

theorem Counted.refl : Counted s s :=
  ⟨fun _ => ⟨rfl,rfl⟩,fun _ => rfl,rfl,rfl,rfl,rfl,rfl⟩

theorem counted_modifyData (e : ℕ) (f : PrefixListEntry→PrefixListEntry)
    (hf : ∀ d, rule (f d)=rule d) : Counted s (s.modifyData e f) := by
  refine ⟨fun x => links_modifyData s e x f,fun x => ?_,rfl,rfl,rfl,rfl,rfl⟩
  rw [data_modifyData]
  split
  · rename_i hx
    rw [hx]
    exact hf _
  · rfl

theorem Counted.rep {s s' : PlistState} (hc : Counted s s') (h : Rep s shape) : Rep s' shape := by
  refine h.frame hc.lists hc.nextList hc.plist ?_ fun l hl => ?_
  · rw [hc.live,hc.nextEntry]
    exact h.live_lt
  have hok := h.lists l hl
  refine hok.congr (hok.linked.congr fun x _ => hc.links x) (fun x _ => hc.rules x) ?_ ?_
  · rw [hc.plist]
  rw [hc.live]
  exact hok.live

theorem match_of_rule {d d' : PrefixListEntry} (h : rule d'=rule d) (p : Prefix) :
    prefixListEntryMatch d' p=prefixListEntryMatch d p ∧ d'.type=d.type := by
  have hmatch : prefixListEntryMatch (rule d') p=prefixListEntryMatch (rule d) p := by rw [h]
  have hty : (rule d').type=(rule d).type := by rw [h]
  exact ⟨hmatch,hty⟩

theorem applyLoop_spec (p : Prefix) : ∀ (es : List ℕ) (s : PlistState),
    Counted s (applyLoop s p es).1 ∧ (applyLoop s p es).2 =
        match es.find? fun e => prefixListEntryMatch (s.data e) p with
        | some e => (s.data e).type
        | none => .deny := by
  intro es
  induction es with
  | nil => exact fun s => ⟨Counted.refl s,rfl⟩
  | cons e es ih =>
    intro s
    have hlooked := counted_modifyData s e (fun d => {d with refcnt := d.refcnt+1}) fun _ => rfl
    rw [applyLoop,find?_cons]
    generalize s.modifyData e (fun d => {d with refcnt := d.refcnt+1})=s1 at hlooked
    rw [(match_of_rule (hlooked.rules e) p).1]
    cases hmatch : prefixListEntryMatch (s.data e) p with
    | true =>
      have hhit := counted_modifyData s1 e (fun d => {d with hitcnt := d.hitcnt+1}) fun _ => rfl
      have hall := hlooked.trans hhit
      exact ⟨hall,(match_of_rule (hall.rules e) p).2⟩
    | false =>
      obtain ⟨hrs,hty⟩ := ih s1
      refine ⟨hlooked.trans hrs,?_⟩
      have hfind : (es.find? fun e => prefixListEntryMatch (s1.data e) p) =
          es.find? fun e => prefixListEntryMatch (s.data e) p := by
        congr 1
        funext x
        exact (match_of_rule (hlooked.rules x) p).1
      rw [if_neg Bool.false_ne_true,hty,hfind]
      cases es.find? fun e => prefixListEntryMatch (s.data e) p with
      | none => rfl
      | some x => exact (match_of_rule (hlooked.rules x) p).2

theorem prefixListApply_counted {s : PlistState} (h : Rep s shape) {plist : Option ℕ}
    (hl : ∀ l, plist=some l → Known s l) (p : Prefix) :
    ∃ s' verdict, prefixListApply s plist p=some (s',verdict) ∧ Counted s s' := by
  cases plist with
  | none => exact ⟨s,.deny,rfl,Counted.refl s⟩
  | some l =>
    rw [prefixListApply]
    split
    · exact ⟨s,.permit,rfl,Counted.refl s⟩
    rw [h.entries (hl l rfl),map_some]
    exact ⟨_,_,rfl,(applyLoop_spec p (shape l) s).1⟩

/-- In increasing order the first match is the match with the smallest
sequence number. -/
theorem find?_smallest {s : PlistState} {p : Prefix}
    (hsrt : xs.Pairwise fun x y => (s.data x).seq<(s.data y).seq) (hx : x∈xs)
    (hmatch : Matches (s.data x) p)
    (hleast : ∀ y∈xs, Matches (s.data y) p → (s.data x).seq≤(s.data y).seq) :
    (xs.find? fun e => prefixListEntryMatch (s.data e) p)=some x := by
  induction xs with
  | nil => cases hx
  | cons e es ih =>
    rw [pairwise_cons] at hsrt
    rw [find?_cons]
    cases hfst : prefixListEntryMatch (s.data e) p with
    | true =>
      have hle := hleast e mem_cons_self ((prefixListEntryMatch_iff _ p).mp hfst)
      cases mem_cons.mp hx with
      | inl heq => rw [heq]
      | inr hmem =>
        have hlt := hsrt.1 x hmem
        omega
    | false =>
      cases mem_cons.mp hx with
      | inl heq =>
        rw [heq,←prefixListEntryMatch_iff,hfst] at hmatch
        cases hmatch
      | inr hmem => exact ih hsrt.2 hmem fun y hy => hleast y (mem_cons_of_mem e hy)

/-- There are well formed lists with some entries. -/
def PlistInv (s : PlistState) : Prop := ∃ shape, Rep s shape

theorem plistStep_inv (op : PlistOp) (h : PlistInv s) (_ : True) :
    ∃ s', plistStep libc s op=some s' ∧ PlistInv s' := by
  obtain ⟨shape,hrep⟩ := h
  cases op with
  | install afi name seq typestr network ge le =>
    obtain ⟨s',reply,shape',hrun,hrep'⟩ :=
      keeps_install libc hrep afi name seq typestr network ge le
    exact ⟨s',by rw [plistStep,hrun]; rfl,shape',hrep'⟩
  | uninstall afi name seq typestr network ge le =>
    obtain ⟨s',reply,shape',hrun,hrep'⟩ :=
      keeps_uninstall libc hrep afi name seq typestr network ge le
    exact ⟨s',by rw [plistStep,hrun]; rfl,shape',hrep'⟩
  | orfSet name afi orfp permit set =>
    obtain ⟨s',reply,shape',hrun,hrep'⟩ := keeps_orfSet hrep name afi orfp permit set
    exact ⟨s',by rw [plistStep,hrun]; rfl,shape',hrep'⟩
  | apply m name p =>
    obtain ⟨s',verdict,hrun,hctd⟩ :=
      prefixListApply_counted hrep (fun l hl => known_of_lookup hl) p
    exact ⟨s',by rw [plistStep,hrun]; rfl,shape,hctd.rep hrep⟩

theorem emptyState_inv : PlistInv emptyState := by
  have hnone : ∀ {l}, ¬Known emptyState l := by
    intro l hl
    obtain ⟨m,type,hmem⟩ := hl
    exact not_mem_nil hmem
  exact ⟨fun _ => [],fun l hl => absurd hl hnone,fun l _ hl => absurd hl hnone,
    fun l hl => absurd hl hnone,fun m type l hl => absurd hl not_mem_nil,
    fun e he => absurd he (Finset.notMem_empty e)⟩

/-- After every sequence of commands, lists are linked both ways, counted and strictly increasing,
with `len < ge <= le` as far as given; and `prefix_list_apply` answers the matching entry with the
smallest number, or deny. -/
theorem plistRun_firstMatch (libc : Libc) (ops : List PlistOp) :
    ∃ s, run (plistStep libc) emptyState ops=some s ∧ ∀ m type, ∀ l∈s.lists m type, ∃ xs : List ℕ,
        Linked s.entry xs ∧ (s.plist l).head=xs.head? ∧ (s.plist l).tail=xs.getLast? ∧
          (s.plist l).count=xs.length ∧
          (xs.Pairwise fun x y => (s.data x).seq<(s.data y).seq) ∧
          (∀ x∈xs, EntryOk (s.data x)) ∧
          ∀ p, ∃ s' verdict, prefixListApply s (some l) p=some (s',verdict) ∧
            (∀ x∈xs, Matches (s.data x) p →
              (∀ y∈xs, Matches (s.data y) p → (s.data x).seq≤(s.data y).seq) →
              verdict=(s.data x).type) ∧
            (xs≠[] → (∀ x∈xs, ¬Matches (s.data x) p) → verdict=.deny) := by
  have hall : LegalRun (plistStep libc) (fun _ _ => True) emptyState ops :=
    legalRun_of_forall (fun _ _ _ => trivial) _
  obtain ⟨s,hrun,shape,hrep⟩ := run_invariant (plistStep_inv libc) ops _ emptyState_inv hall
  refine ⟨s,hrun,fun m type l hl => ⟨shape l,?_⟩⟩
  have hknown : Known s l := ⟨m,type,hl⟩
  have hok := hrep.lists l hknown
  refine ⟨hok.linked,hok.head,hok.tail,hok.count,hok.sorted,hok.window,fun p => ?_⟩
  rw [prefixListApply]
  split
  · rename_i hzero
    have hnil : shape l=[] := by
      rw [hok.count] at hzero
      exact length_eq_zero_iff.mp (by omega)
    rw [hnil]
    exact ⟨s,.permit,rfl,fun x hx => (nomatch hx),fun hne => absurd rfl hne⟩
  rw [hrep.entries hknown,map_some]
  have hverdict := (applyLoop_spec p (shape l) s).2
  refine ⟨_,_,rfl,fun x hx hmatch hleast => ?_,fun _ hno => ?_⟩
  · rw [hverdict,find?_smallest hok.sorted hx hmatch hleast]
  have hnone : ((shape l).find? fun e => prefixListEntryMatch (s.data e) p)=none := by
    rw [find?_eq_none]
    exact fun x hx hmatch => hno x hx ((prefixListEntryMatch_iff _ p).mp hmatch)
  rw [hverdict,hnone]

end RoutePlatform.PrefixListRuns
