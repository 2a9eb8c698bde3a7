import RoutePlatform.PrefixListOperations

/-!
# What holds of all prefix lists between calls

A shape says which entries each list has, in order. The links, the ends and the count of a list
are those of its shape, the sequence numbers increase along it, and no entry is on two lists. The
operations are instances of one lemma that replaces the shape of a list.
-/

namespace RoutePlatform.PrefixListInvariant

open LinkedNodes PrefixBytes PrefixListOperations Function List PlistState Finset

variable {shape : ℕ→List ℕ} {l : ℕ} (s : PlistState) {d d' : PrefixListEntry} (as bs : List ℕ)
  {xs : List ℕ} (e x : ℕ) (f : PrefixListEntry→PrefixListEntry)

/-- The lengths of an entry: `len < ge <= le`, as far as they are given. -/
structure EntryOk (d : PrefixListEntry) : Prop where
  ge_gt : d.ge≠0 → (d.network.prefixlen : ℤ)<d.ge
  le_gt : d.le≠0 → (d.network.prefixlen : ℤ)<d.le
  ge_le : d.le≠0 → d.ge≤d.le

def rule (d : PrefixListEntry) : PrefixListEntry := {d with refcnt := 0,hitcnt := 0}

theorem EntryOk.of_rule (h : EntryOk d) (hrule : rule d'=rule d) : EntryOk d' := by
  have hok : EntryOk (rule d') := by
    rw [hrule]
    exact ⟨h.ge_gt,h.le_gt,h.ge_le⟩
  exact ⟨hok.ge_gt,hok.le_gt,hok.ge_le⟩

theorem seq_of_rule (h : rule d'=rule d) : d'.seq=d.seq :=
  (congrArg PrefixListEntry.seq h :)

structure ListOk (s : PlistState) (l : ℕ) (xs : List ℕ) : Prop where
  linked : Linked s.entry xs
  head : (s.plist l).head=xs.head?
  tail : (s.plist l).tail=xs.getLast?
  count : (s.plist l).count=xs.length
  sorted : xs.Pairwise fun x y => (s.data x).seq<(s.data y).seq
  window : ∀ x∈xs, EntryOk (s.data x)
  live : ∀ x∈xs, x∈s.live

theorem ListOk.congr {s s' : PlistState} (h : ListOk s l xs) (hlnk : Linked s'.entry xs)
    (hrule : ∀ x∈xs, rule (s'.data x)=rule (s.data x)) (hplist : s'.plist l=s.plist l)
    (hlive : ∀ x∈xs, x∈s'.live) : ListOk s' l xs where
  linked := hlnk
  head := by rw [hplist]; exact h.head
  tail := by rw [hplist]; exact h.tail
  count := by rw [hplist]; exact h.count
  sorted := by
    refine h.sorted.imp_of_mem fun {x y} hx hy hlt => ?_
    rw [seq_of_rule (hrule x hx),seq_of_rule (hrule y hy)]
    exact hlt
  window := fun x hx => (h.window x hx).of_rule (hrule x hx)
  live := hlive

def Known (s : PlistState) (l : ℕ) : Prop := ∃ m type, l∈s.lists m type

/-- All lists have the entries of the shape. -/
structure Rep (s : PlistState) (shape : ℕ→List ℕ) : Prop where
  lists : ∀ l, Known s l → ListOk s l (shape l)
  disjoint : ∀ l l', Known s l → Known s l' → l'≠l → ∀ x∈shape l, x ∉ shape l'
  known_lt : ∀ l, Known s l → l<s.nextList
  place : ∀ m type, ∀ l∈s.lists m type, (s.plist l).master=m ∧ (s.plist l).type=type
  live_lt : ∀ e∈s.live, e<s.nextEntry

theorem Rep.entries {s : PlistState} (h : Rep s shape) (hl : Known s l) :
    s.entries l=some (shape l) := by
  have hok := h.lists l hl
  have hcard : (shape l).length ≤ s.live.card := by
    rw [←toFinset_card_of_nodup hok.linked.nodup]
    exact card_le_card fun x hx => hok.live x (mem_toFinset.mp hx)
  rw [PlistState.entries,hok.head]
  exact hok.linked.chain hcard

theorem Rep.frame {s s' : PlistState} (h : Rep s shape) (hlists : s'.lists=s.lists)
    (hnext : s'.nextList=s.nextList) (hplist : s'.plist=s.plist)
    (hlive : ∀ e∈s'.live, e<s'.nextEntry) (hok : ∀ l, Known s l → ListOk s' l (shape l)) :
    Rep s' shape := by
  have hknown : ∀ {l}, Known s' l → Known s l := by
    intro l hl
    rw [Known,hlists] at hl
    exact hl
  exact {
    lists := fun l hl => hok l (hknown hl)
    disjoint := fun l l' hl hl' => h.disjoint l l' (hknown hl) (hknown hl')
    known_lt := fun l hl => by rw [hnext]; exact h.known_lt l (hknown hl)
    place := by rw [hlists,hplist]; exact h.place
    live_lt := hlive }

theorem Rep.replace {s s' : PlistState} (h : Rep s shape) (hlists : s'.lists=s.lists)
    (hnext : s'.nextList=s.nextList)
    (hpl : ∀ l', (s'.plist l').master=(s.plist l').master ∧ (s'.plist l').type=(s.plist l').type)
    (hlive : ∀ e∈s'.live, e<s'.nextEntry) (hok : ListOk s' l xs)
    (hoths : ∀ l', Known s l' → l'≠l → ListOk s' l' (shape l'))
    (hapart : ∀ l', Known s l' → l'≠l → ∀ x∈xs, x ∉ shape l') : Rep s' (update shape l xs) := by
  have hknown : ∀ {l}, Known s' l → Known s l := by
    intro l hl
    rw [Known,hlists] at hl
    exact hl
  refine ⟨?_,?_,?_,?_,hlive⟩
  · intro l' hl'
    by_cases hne : l'=l
    · rw [hne,update_self]
      exact hok
    rw [update_of_ne hne]
    exact hoths l' (hknown hl') hne
  · intro l1 l2 h1 h2 hne x hx
    by_cases hl1 : l1=l
    · rw [hl1,update_self] at hx
      rw [update_of_ne (hl1 ▸ hne)]
      exact hapart l2 (hknown h2) (hl1 ▸ hne) x hx
    rw [update_of_ne hl1] at hx
    by_cases hl2 : l2=l
    · rw [hl2,update_self]
      exact fun hmem => hapart l1 (hknown h1) hl1 x hmem hx
    rw [update_of_ne hl2]
    exact h.disjoint l1 l2 (hknown h1) (hknown h2) hne x hx
  · intro l' hl'
    rw [hnext]
    exact h.known_lt l' (hknown hl')
  · intro m type l' hl'
    rw [hlists] at hl'
    rw [(hpl l').1,(hpl l').2]
    exact h.place m type l' hl'

/-- An entry that is allocated and on no list yet. -/
structure Pending (s : PlistState) (shape : ℕ→List ℕ) (e : ℕ) : Prop where
  live : e∈s.live
  apart : ∀ l, Known s l → e ∉ shape l
  window : EntryOk (s.data e)

theorem data_modifyData : (s.modifyData e f).data x=if x=e then f (s.data e) else s.data x := by
  by_cases hx : x=e
  · rw [if_pos hx,hx]
    simp [modifyData,data]
  rw [if_neg hx]
  simp [modifyData,data,hx]

theorem links_modifyData :
    ((s.modifyData e f).entry x).next=(s.entry x).next ∧
      ((s.modifyData e f).entry x).prev=(s.entry x).prev := by
  by_cases hx : x=e
  · rw [hx]
    simp [modifyData]
  · simp [modifyData,hx]

section

variable {s : PlistState} {shape : ℕ→List ℕ} {e : ℕ}

variable (h : Rep s shape)
include h

theorem Rep.entryMake (network : Prefix) (type : PrefixListType) (seq le ge : ℤ) (any : Bool)
    (hwindow : invalidPrefixRange network.prefixlen ge le=false) :
    let made := prefixListEntryMake s network type seq le ge any
    Rep made.1 shape ∧ Pending made.1 shape made.2 := by
  intro made
  have hnew : ∀ l, Known s l → s.nextEntry ∉ shape l := by
    intro l hl hmem
    exact lt_irrefl _ (h.live_lt _ ((h.lists l hl).live _ hmem))
  have hold : ∀ l, Known s l → ∀ x∈shape l, made.1.entry x=s.entry x := by
    intro l hl x hx
    have hne : x≠s.nextEntry := fun he => hnew l hl (he ▸ hx)
    exact update_of_ne hne _ _
  constructor
  · refine h.frame rfl rfl rfl ?_ fun l hl => ?_
    · intro x hx
      have hcase := mem_insert.mp hx
      have hlt : x<s.nextEntry+1 := by
        cases hcase with
        | inl heq => omega
        | inr hmem => exact Nat.lt_succ_of_lt (h.live_lt x hmem)
      exact hlt
    have hok := h.lists l hl
    refine hok.congr ?_ ?_ rfl fun x hx => mem_insert_of_mem (hok.live x hx)
    · refine hok.linked.congr fun x hx => ?_
      rw [hold l hl x hx]
      exact ⟨rfl,rfl⟩
    intro x hx
    rw [data,hold l hl x hx]
    rfl
  · refine ⟨mem_insert_self _ _,hnew,?_⟩
    have hdata : made.1.data made.2 =
        { seq,le,ge,type,any,network := prefixCopy network,refcnt := 0,hitcnt := 0 } := by
      simp [made,prefixListEntryMake,data]
    rw [hdata]
    simp only [invalidPrefixRange,Bool.or_eq_false_iff,Bool.and_eq_false_iff,
      decide_eq_false_iff_not,not_not,not_le,not_lt,gt_iff_lt] at hwindow
    obtain ⟨⟨hge,hle⟩,hboth⟩ := hwindow
    exact {
      ge_gt := fun hne => hge.resolve_left hne
      le_gt := fun hne => hle.resolve_left hne
      ge_le := fun hne => hboth.resolve_left hne }

theorem Rep.modifyPending (hp : Pending s shape e) (f : PrefixListEntry→PrefixListEntry)
    (hwindow : EntryOk (f (s.data e))) :
    Rep (s.modifyData e f) shape ∧ Pending (s.modifyData e f) shape e := by
  constructor
  · refine h.frame rfl rfl rfl h.live_lt fun l hl => ?_
    have hok := h.lists l hl
    refine hok.congr ?_ ?_ rfl hok.live
    · exact hok.linked.congr fun x _ => links_modifyData s e x f
    intro x hx
    have hne : x≠e := fun he => hp.apart l hl (he ▸ hx)
    rw [data_modifyData,if_neg hne]
  · refine ⟨hp.live,hp.apart,?_⟩
    rw [data_modifyData,if_pos rfl]
    exact hwindow

theorem Rep.freePending (hp : Pending s shape e) : Rep (prefixListEntryFree s e) shape := by
  refine h.frame rfl rfl rfl (fun x hx => h.live_lt x (mem_of_mem_erase hx)) fun l hl => ?_
  have hok := h.lists l hl
  refine hok.congr hok.linked (fun x _ => rfl) rfl fun x hx => ?_
  have hne : x≠e := fun he => hp.apart l hl (he ▸ hx)
  exact mem_erase.mpr ⟨hne,hok.live x hx⟩

end

theorem modifyList_self (l : ℕ) (f : PrefixList→PrefixList) :
    (s.modifyList l f).plist l=f (s.plist l) := update_self _ _ _

theorem modifyList_of_ne {l' : ℕ} (f : PrefixList→PrefixList) (hne : l'≠l) :
    (s.modifyList l f).plist l'=s.plist l' := update_of_ne hne _ _

theorem modifyList_place (l : ℕ) (f : PrefixList→PrefixList)
    (hf : ∀ pl, (f pl).master=pl.master ∧ (f pl).type=pl.type) (l' : ℕ) :
    ((s.modifyList l f).plist l').master=(s.plist l').master ∧
      ((s.modifyList l f).plist l').type=(s.plist l').type := by
  by_cases hne : l'=l
  · rw [hne,modifyList_self]
    exact hf _
  rw [modifyList_of_ne s f hne]
  exact ⟨rfl,rfl⟩

theorem head?_append_eq : (as++bs).head? = if as.getLast? = none then bs.head? else as.head? := by
  cases as with
  | nil => rfl
  | cons a as => simp [getLast?_cons]

theorem getLast?_append_eq :
    (as++bs).getLast? = if bs.head? = none then as.getLast? else bs.getLast? := by
  cases bs with
  | nil => simp
  | cons b bs => simp [getLast?_append,getLast?_cons]

section

variable {s : PlistState} {shape : ℕ→List ℕ} {l : ℕ} {as bs : List ℕ} {e : ℕ}

theorem data_entryUnlink (s : PlistState) (l e x : ℕ) : (entryUnlink s l e).data x=s.data x :=
  data_unlink s.entry e x

/-- What removing an entry does to its list. -/
def withoutEntry (node : Node PrefixListEntry) (pl : PrefixList) : PrefixList :=
  {pl with
    head := if node.prev=none then node.next else pl.head
    tail := if node.next=none then node.prev else pl.tail
    count := pl.count-1}

theorem plist_entryUnlink (s : PlistState) (l e : ℕ) :
    (entryUnlink s l e).plist=(s.modifyList l (withoutEntry (s.entry e))).plist := rfl

theorem Rep.unlinkEntry (h : Rep s shape) (hl : Known s l) (hshape : shape l=as++e::bs) :
    Rep (entryUnlink s l e) (update shape l (as++bs)) := by
  have hok := h.lists l hl
  rw [hshape] at hok
  have hnot := (nodup_middle.mp hok.linked.nodup).notMem
  obtain ⟨hprev,hnext⟩ := hok.linked.neighbours
  have hpl := modifyList_place s l (withoutEntry (s.entry e)) fun _ => ⟨rfl,rfl⟩
  refine h.replace rfl rfl hpl ?_ ?_ ?_ ?_
  · exact fun x hx => h.live_lt x (mem_of_mem_erase hx)
  · have hsub := List.Sublist.append_left (sublist_cons_self e bs) as
    have hplist := modifyList_self s l (withoutEntry (s.entry e))
    rw [←plist_entryUnlink] at hplist
    refine ⟨hok.linked.unlink,?_,?_,?_,?_,?_,?_⟩
    · rw [hplist]
      dsimp only [withoutEntry]
      rw [hprev,hnext,hok.head,head?_append_eq,head?_append_eq]
      split <;> rfl
    · rw [hplist]
      dsimp only [withoutEntry]
      rw [hprev,hnext,hok.tail,getLast?_append_eq,getLast?_append_eq]
      cases bs with
      | nil => simp
      | cons b bs => simp [getLast?_cons]
    · rw [hplist]
      dsimp only [withoutEntry]
      rw [hok.count]
      simp only [length_append,length_cons]
      omega
    · refine (hok.sorted.sublist hsub).imp fun {x y} hlt => ?_
      rw [data_entryUnlink,data_entryUnlink]
      exact hlt
    · intro x hx
      rw [data_entryUnlink]
      exact hok.window x (hsub.mem hx)
    intro x hx
    exact mem_erase.mpr ⟨fun he => hnot (he ▸ hx),hok.live x (hsub.mem hx)⟩
  · intro l' hl' hne
    have hok' := h.lists l' hl'
    have hdisj : ∀ x∈shape l', x ∉ as++e::bs := by
      rw [←hshape]
      exact h.disjoint l' l hl' hl (Ne.symm hne)
    refine hok'.congr (hok.linked.unlink_other hok'.linked hdisj) ?_ ?_ ?_
    · exact fun x _ => congrArg rule (data_entryUnlink s l e x)
    · exact modifyList_of_ne s (withoutEntry (s.entry e)) hne
    intro x hx
    have hxe : x≠e := fun he => hdisj x hx (he ▸ mem_append_right as mem_cons_self)
    exact mem_erase.mpr ⟨hxe,hok'.live x hx⟩
  · intro l' hl' hne x hx
    refine h.disjoint l l' hl hl' hne x ?_
    rw [hshape]
    exact (List.Sublist.append_left (sublist_cons_self e bs) as).mem hx

/-- What inserting an entry before a node, or at the end, does to its list. -/
def withEntry (e : ℕ) (first last : Bool) (pl : PrefixList) : PrefixList :=
  {pl with
    head := if first then some e else pl.head
    tail := if last then some e else pl.tail
    count := pl.count+1}

theorem entryLink_none (s : PlistState) (l e : ℕ) : entryLink s l e none =
    {s with entry := attachTail s.entry (s.plist l).tail e}.modifyList l
      (withEntry e (decide ((s.plist l).tail=none)) true) := by
  have hfun : withEntry e (decide ((s.plist l).tail=none)) true=fun pl =>
      {pl with
        head := if (s.plist l).tail=none then some e else pl.head
        tail := some e
        count := pl.count+1} := by
    funext pl
    simp [withEntry]
  rw [hfun]
  rfl

theorem entryLink_some (s : PlistState) (l e point : ℕ) : entryLink s l e (some point) =
    {s with entry := attachBefore s.entry point e}.modifyList l
      (withEntry e (decide ((s.entry point).prev=none)) false) := by
  have hfun : withEntry e (decide ((s.entry point).prev=none)) false=fun pl =>
      {pl with
        head := if (s.entry point).prev=none then some e else pl.head
        count := pl.count+1} := by
    funext pl
    simp [withEntry]
  rw [hfun]
  rfl

/-- Inserting a pending entry, once the links are right. -/
theorem Rep.linkEntry {mem : Memory PrefixListEntry} (first last : Bool) (h : Rep s shape)
    (hl : Known s l) (hshape : shape l=as++bs) (hp : Pending s shape e)
    (hlnk : Linked mem (as++e::bs))
    (hoths : ∀ ys, Linked s.entry ys → e ∉ ys → (∀ y∈ys, y ∉ as++bs) → Linked mem ys)
    (hdata : ∀ x, (mem x).data=s.data x)
    (hfst : first=true ↔ as=[]) (hlast : last=true ↔ bs=[])
    (hbef : ∀ x∈as, (s.data x).seq<(s.data e).seq)
    (hbehind : ∀ x∈bs, (s.data e).seq<(s.data x).seq) :
    Rep ({s with entry := mem}.modifyList l (withEntry e first last))
      (update shape l (as++e::bs)) := by
  have hok := h.lists l hl
  rw [hshape] at hok
  have hmem : ∀ {x}, x∈as++e::bs → x=e ∨ x∈as++bs := by
    intro x hx
    have hperm : (as++e::bs).Perm (e::(as++bs)) := perm_middle
    exact mem_cons.mp (hperm.mem_iff.mp hx)
  have hpl := modifyList_place s l (withEntry e first last) fun _ => ⟨rfl,rfl⟩
  refine h.replace rfl rfl hpl h.live_lt ?_ ?_ ?_
  · have hplist := modifyList_self s l (withEntry e first last)
    refine ⟨hlnk,?_,?_,?_,?_,?_,?_⟩
    · refine (congrArg PrefixList.head hplist).trans ?_
      dsimp only [withEntry]
      rw [hok.head]
      cases as with
      | nil | cons a as => simp [hfst]
    · refine (congrArg PrefixList.tail hplist).trans ?_
      dsimp only [withEntry]
      rw [hok.tail]
      cases bs with
      | nil => simp [hlast]
      | cons b bs => simp [hlast,getLast?_append,getLast?_cons]
    · refine (congrArg PrefixList.count hplist).trans ?_
      dsimp only [withEntry]
      rw [hok.count]
      simp only [length_append,length_cons]
      omega
    · have hsrt : (as++e::bs).Pairwise fun x y => (s.data x).seq<(s.data y).seq := by
        obtain ⟨hA,hB,hAB⟩ := pairwise_append.mp hok.sorted
        refine pairwise_append.mpr ⟨hA,pairwise_cons.mpr ⟨hbehind,hB⟩,?_⟩
        intro x hx y hy
        cases mem_cons.mp hy with
        | inl he => rw [he]; exact hbef x hx
        | inr hyb => exact hAB x hx y hyb
      refine hsrt.imp fun {x y} hlt => ?_
      rw [←hdata x,←hdata y] at hlt
      exact hlt
    · intro x hx
      have hwindow : EntryOk (s.data x) := by
        cases hmem hx with
        | inl he => rw [he]; exact hp.window
        | inr hmem => exact hok.window x hmem
      rw [←hdata x] at hwindow
      exact hwindow
    intro x hx
    cases hmem hx with
    | inl he => rw [he]; exact hp.live
    | inr hmem => exact hok.live x hmem
  · intro l' hl' hne
    have hok' := h.lists l' hl'
    have hdisj : ∀ x∈shape l', x ∉ as++bs := by
      rw [←hshape]
      exact h.disjoint l' l hl' hl (Ne.symm hne)
    refine hok'.congr (hoths _ hok'.linked (hp.apart l' hl') hdisj) ?_ ?_ hok'.live
    · exact fun x _ => congrArg rule (hdata x)
    · exact modifyList_of_ne s (withEntry e first last) hne
  · intro l' hl' hne x hx
    cases hmem hx with
    | inl he => rw [he]; exact hp.apart l' hl'
    | inr hmem =>
      rw [←hshape] at hmem
      exact h.disjoint l l' hl hl' hne x hmem

theorem Rep.insertEntry (h : Rep s shape) (hl : Known s l) (hp : Pending s shape e)
    (hnew : ∀ x∈shape l, (s.data x).seq≠(s.data e).seq) :
    ∃ as bs, shape l=as++bs ∧
      Rep (entryLink s l e ((shape l).find? fun point => (s.data e).seq≤(s.data point).seq))
        (update shape l (as++e::bs)) := by
  have hok := h.lists l hl
  have hapart := hp.apart l hl
  cases hfind : (shape l).find? fun point => (s.data e).seq≤(s.data point).seq with
  | none =>
    have hbef : ∀ x∈shape l, (s.data x).seq<(s.data e).seq := by
      intro x hx
      simpa using find?_eq_none.mp hfind x hx
    refine ⟨shape l,[],(append_nil _).symm,?_⟩
    have hlink := Rep.linkEntry (decide ((s.plist l).tail=none)) true h hl
      (append_nil _).symm hp (hok.linked.attachTail hapart)
      (fun ys hys hey hdisj => hys.attachTail_other hey (by simpa using hdisj))
      (fun x => data_attachTail s.entry _ e x) ?_ (by simp) hbef (fun x hx => (nomatch hx))
    · rw [entryLink_none,hok.tail]
      rw [hok.tail] at hlink
      exact hlink
    · rw [hok.tail,decide_eq_true_iff,getLast?_eq_none_iff]
  | some point =>
    obtain ⟨hpoint,as,bs,hshape,hbef⟩ := find?_eq_some_iff_append.mp hfind
    have hprev : (s.entry point).prev=as.getLast? := by
      have hlnk := hok.linked
      rw [hshape] at hlnk
      exact hlnk.neighbours.1
    have hbehind : ∀ x∈point::bs, (s.data e).seq<(s.data x).seq := by
      have hle : (s.data e).seq≤(s.data point).seq := by simpa using hpoint
      have hne := hnew point (by rw [hshape]; exact mem_append_right _ mem_cons_self)
      have hlt : (s.data e).seq<(s.data point).seq := lt_of_le_of_ne hle (Ne.symm hne)
      have hsrt := hok.sorted
      rw [hshape] at hsrt
      intro x hx
      cases mem_cons.mp hx with
      | inl he => rw [he]; exact hlt
      | inr hxb =>
        have hcons := (pairwise_append.mp hsrt).2.1
        exact hlt.trans (rel_of_pairwise_cons hcons hxb)
    have hlnk := hok.linked
    rw [hshape] at hapart hlnk
    refine ⟨as,point::bs,hshape,?_⟩
    have hlink := Rep.linkEntry (decide ((s.entry point).prev=none)) false h hl hshape hp
      (hlnk.attachBefore hapart)
      (fun ys hys hey hdisj => hlnk.attachBefore_other hys hey hdisj)
      (fun x => data_attachBefore s.entry point e x) ?_ (by simp) ?_ hbehind
    · rw [entryLink_some]
      exact hlink
    · rw [hprev,decide_eq_true_iff,getLast?_eq_none_iff]
    intro x hx
    simpa using hbef x hx

/-- A list is deleted with all its entries. -/
theorem Rep.listDelete (h : Rep s shape) (hl : Known s l) :
    ∃ s', prefixListDelete s l=some s' ∧ Rep s' shape := by
  obtain ⟨m,type,hmem⟩ := hl
  refine ⟨_,by rw [prefixListDelete,h.entries ⟨m,type,hmem⟩,Option.map_some],?_⟩
  have hlists : ∀ m' type', ∀ l'∈update s.lists (s.plist l).master
      (update (s.lists (s.plist l).master) (s.plist l).type
        ((s.lists (s.plist l).master (s.plist l).type).filter (· ≠ l))) m' type',
      l'∈s.lists m' type' ∧ l'≠l := by
    intro m' type' l' hl'
    by_cases hm' : m'=(s.plist l).master
    · rw [hm',update_self] at hl'
      by_cases ht' : type'=(s.plist l).type
      · rw [ht',update_self,mem_filter] at hl'
        rw [hm',ht']
        exact ⟨hl'.1,by simpa using hl'.2⟩
      rw [update_of_ne ht'] at hl'
      rw [hm']
      refine ⟨hl',fun he => ht' ?_⟩
      rw [←he]
      exact (h.place _ _ l' hl').2.symm
    rw [update_of_ne hm'] at hl'
    refine ⟨hl',fun he => hm' ?_⟩
    rw [←he]
    exact (h.place _ _ l' hl').1.symm
  have hknown : ∀ l', (∃ m' type', l'∈update s.lists (s.plist l).master
      (update (s.lists (s.plist l).master) (s.plist l).type
        ((s.lists (s.plist l).master (s.plist l).type).filter (· ≠ l))) m' type') →
      Known s l' ∧ l'≠l := by
    intro l' hl'
    obtain ⟨m',type',hmem'⟩ := hl'
    exact ⟨⟨m',type',(hlists m' type' l' hmem').1⟩,(hlists m' type' l' hmem').2⟩
  refine ⟨?_,?_,?_,?_,?_⟩
  · intro l' hl'
    obtain ⟨hk,hne⟩ := hknown l' hl'
    have hok := h.lists l' hk
    refine hok.congr hok.linked (fun x _ => rfl) rfl fun x hx => ?_
    refine mem_sdiff.mpr ⟨hok.live x hx,fun hx' => ?_⟩
    exact h.disjoint l' l hk ⟨m,type,hmem⟩ (Ne.symm hne) x hx (mem_toFinset.mp hx')
  · intro l1 l2 h1 h2
    exact h.disjoint l1 l2 (hknown l1 h1).1 (hknown l2 h2).1
  · exact fun l' hl' => h.known_lt l' (hknown l' hl').1
  · exact fun m' type' l' hl' => h.place m' type' l' (hlists m' type' l' hl').1
  · exact fun x hx => h.live_lt x (mem_sdiff.mp hx).1

end

end RoutePlatform.PrefixListInvariant
