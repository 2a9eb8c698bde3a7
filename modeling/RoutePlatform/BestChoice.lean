import Mathlib

/-!
# Choosing the best of a list

A best element is found by comparing the elements of a list with the best one so far. If the
comparison is a strict order of keys, the order of the list does not matter, nor does it when the
list is first reduced to the best of groups: arbitrary ones for a total order, and classes on each
of which it is total.
-/

namespace RoutePlatform.BestChoice

open List Option Bool

universe u v

section

variable {β : Type v} [LinearOrder β] {as bs : List β} {γ : Type v} {a b : β}

/-- A comparison step: the smaller value is preferred, equal values leave the
decision open. -/
def prefer (a b : β) : Option Bool := if a<b then some true else if b<a then some false else none

theorem prefer_of_lt (h : a<b) : prefer a b=some true := if_pos h

theorem prefer_of_gt (h : b<a) : prefer a b=some false := by
  rw [prefer,if_neg h.not_gt,if_pos h]

@[simp] theorem prefer_self (a : β) : prefer a a=none := by
  rw [prefer,if_neg (lt_irrefl a),if_neg (lt_irrefl a)]

theorem prefer_map [LinearOrder γ] {f : β→γ} (hf : StrictMono f) (a b : β) :
    prefer (f a) (f b)=prefer a b := by
  rw [prefer,prefer]
  simp only [hf.lt_iff_lt]

theorem prefer_map_reverse [LinearOrder γ] {f : β→γ} (hf : StrictAnti f) (a b : β) :
    prefer (f a) (f b)=prefer b a := by
  rw [prefer,prefer]
  simp only [hf.lt_iff_gt]

/-- Steps until one of them decides. -/
def lexPrefer : List β→List β→Option Bool
  | a::as, b::bs => (prefer a b).or (lexPrefer as bs)
  | _, _ => none

theorem lexPrefer_append (h : as.length=bs.length) (cs ds : List β) :
    lexPrefer (as++cs) (bs++ds)=(lexPrefer as bs).or (lexPrefer cs ds) := by
  induction as generalizing bs with
  | nil =>
    have hbs := length_eq_zero_iff.mp h.symm
    rw [hbs]
    rfl
  | cons a as ih =>
    cases bs with
    | nil => cases h
    | cons b bs =>
      rw [cons_append,cons_append,lexPrefer,lexPrefer,ih (Nat.succ.inj h),Option.or_assoc]

/-- The steps compare lists of one length lexicographically. -/
theorem lexPrefer_spec (h : as.length=bs.length) :
    (lexPrefer as bs=some true ↔ as<bs) ∧ (lexPrefer as bs=none ↔ as=bs) := by
  induction as generalizing bs with
  | nil =>
    have hbs := length_eq_zero_iff.mp h.symm
    subst hbs
    exact ⟨iff_of_false (by simp [lexPrefer]) (lt_irrefl _),iff_of_true rfl rfl⟩
  | cons a as ih =>
    cases bs with
    | nil => cases h
    | cons b bs =>
      obtain ⟨ihlt,iheq⟩ := ih (Nat.succ.inj h)
      rw [lexPrefer,cons_lt_cons_iff,cons.injEq]
      rcases lt_trichotomy a b with hab|hab|hab
      · rw [prefer_of_lt hab,some_or]
        exact ⟨iff_of_true rfl (.inl hab),iff_of_false (by simp) fun he => hab.ne he.1⟩
      · subst hab
        rw [prefer_self,none_or,ihlt,iheq]
        simp
      rw [prefer_of_gt hab,some_or]
      refine ⟨iff_of_false (by simp) ?_,iff_of_false (by simp) fun he => hab.ne' he.1⟩
      rintro (hlt|⟨he,-⟩)
      · exact hab.not_gt hlt
      · exact hab.ne' he

end

section

variable {α : Type u} {β : Type v} [LinearOrder β] (better : α→α→Bool)

def chooseStep (best x : α) : α := if better x best then x else best

/-- The best of a list, starting from a first element. -/
def choose (x : α) (l : List α) : α := l.foldl (chooseStep better) x

/-- The better one, when there is one already. -/
def chooseOption (best : Option α) (x : α) : Option α :=
  match best with
  | none => some x
  | some best => some (chooseStep better best x)

/-- On these elements the comparison is a strict order of keys. -/
structure Ordered (key : α→β) (S : α→Prop) : Prop where
  iff : ∀ {a b}, S a → S b → a≠b → (better a b=true ↔ key a<key b)
  inj : ∀ {a b}, S a → S b → key a=key b → a=b

/-- The element has the smallest key. -/
def IsBest (key : α → β) (S : α → Prop) (x : α) : Prop := S x ∧ ∀ y, S y → key x≤key y

variable {better} {key : α→β} {S : α→Prop}

section

variable (h : Ordered better key S)
include h

theorem Ordered.mono {T : α → Prop} (hT : ∀ x, T x → S x) : Ordered better key T :=
  ⟨fun ha hb hne => h.iff (hT _ ha) (hT _ hb) hne,fun ha hb he => h.inj (hT _ ha) (hT _ hb) he⟩

theorem Ordered.unique {x y : α} (hx : IsBest key S x) (hy : IsBest key S y) : x=y :=
  h.inj hx.1 hy.1 (le_antisymm (hx.2 y hy.1) (hy.2 x hx.1))

theorem chooseStep_isBest {best x : α} (hb : S best) (hx : S x) :
    IsBest key (fun y => y=best ∨ y=x) (chooseStep better best x) := by
  unfold chooseStep
  by_cases he : x=best
  · subst he
    rw [ite_self]
    exact ⟨.inl rfl,fun y hy => by rw [or_self_iff.mp hy]⟩
  by_cases hlt : better x best=true
  · rw [if_pos hlt]
    refine ⟨.inr rfl,fun y hy => ?_⟩
    rcases hy with rfl|rfl
    · exact ((h.iff hx hb he).mp hlt).le
    · exact le_rfl
  rw [if_neg hlt]
  have hle : key best≤key x := not_lt.mp fun hk => hlt ((h.iff hx hb he).mpr hk)
  refine ⟨.inl rfl,fun y hy => ?_⟩
  rcases hy with rfl|rfl
  · exact le_rfl
  · exact hle

theorem choose_isBest (l : List α) :
    ∀ x, (∀ y∈x::l, S y) → IsBest key (fun y => y∈x::l) (choose better x l) := by
  induction l with
  | nil =>
    intro x _
    exact ⟨.head _,fun y hy => by rw [mem_singleton.mp hy]; exact le_rfl⟩
  | cons z l ih =>
    intro x hS
    have hx := hS x mem_cons_self
    have hz := hS z (.tail _ mem_cons_self)
    obtain ⟨hmem,hmin⟩ := chooseStep_isBest h hx hz
    have hS' : ∀ y∈chooseStep better x z::l, S y := by
      intro y hy
      rcases mem_cons.mp hy with rfl|hy
      · rcases hmem with he|he
        · rw [he]
          exact hx
        rw [he]
        exact hz
      · exact hS y (.tail _ (.tail _ hy))
    obtain ⟨hin,hle⟩ := ih (chooseStep better x z) hS'
    have hfold : choose better x (z::l)=choose better (chooseStep better x z) l := rfl
    rw [hfold]
    refine ⟨?_,fun y hy => ?_⟩
    · rcases mem_cons.mp hin with he|hin
      · rw [he]
        rcases hmem with he|he
        · rw [he]
          exact .head _
        rw [he]
        exact .tail _ mem_cons_self
      · exact .tail _ (.tail _ hin)
    have hstep := hle _ mem_cons_self
    rcases mem_cons.mp hy with rfl|hy
    · exact hstep.trans (hmin _ (.inl rfl))
    rcases mem_cons.mp hy with rfl|hy
    · exact hstep.trans (hmin _ (.inr rfl))
    · exact hle y (.tail _ hy)

end

theorem foldl_chooseOption_some (l : List α) :
    ∀ x : α, l.foldl (chooseOption better) (some x)=some (choose better x l) := by
  induction l with
  | nil => exact fun x => rfl
  | cons y l ih => exact fun x => ih (chooseStep better x y)

theorem exists_isBest (h : Ordered better key S) {l : List α} (hS : ∀ y∈l, S y)
    (hne : l≠[]) : ∃ b, IsBest key (fun y => y∈l) b := by
  cases l with
  | nil => exact absurd rfl hne
  | cons x l => exact ⟨choose better x l,choose_isBest h l x hS⟩

theorem foldl_chooseOption_of_isBest (h : Ordered better key S) {l : List α}
    (hS : ∀ y∈l, S y) {b : α} (hb : IsBest key (fun y => y∈l) b) :
    l.foldl (chooseOption better) none=some b := by
  cases l with
  | nil => exact absurd hb.1 not_mem_nil
  | cons x l =>
    calc (x::l).foldl (chooseOption better) none
        = some (choose better x l) := foldl_chooseOption_some l x
      _=some b := by rw [(h.mono hS).unique (choose_isBest h l x hS) hb]

end

section

variable {α : Type u} {β : Type v} [LinearOrder β] (sim better : α→α→Bool) (l : List α)

/-- Every element not done starts a group with later similar ones; its best wins. -/
def winners : List α→(α→Bool)→List α
  | [], _ => []
  | x::rest, done =>
    if done x then winners rest done
    else choose better x (rest.filter fun y => !done y && sim x y) ::
      winners rest fun y => done y || sim x y

variable {sim better} {key : α→β}

theorem choose_mem : ∀ x : α, choose better x l∈x::l := by
  induction l with
  | nil => exact fun x => .head _
  | cons y l ih =>
    intro x
    have hfold : choose better x (y::l)=choose better (chooseStep better x y) l := rfl
    rw [hfold]
    rcases mem_cons.mp (ih (chooseStep better x y)) with he|hin
    · rw [he,chooseStep]
      split
      · exact .tail _ mem_cons_self
      · exact .head _
    · exact .tail _ (.tail _ hin)

theorem mem_of_mem_winners : ∀ (done : α → Bool) {x : α}, x∈winners sim better l done → x∈l := by
  induction l with
  | nil => exact fun _ _ h => h
  | cons z l ih =>
    intro done x hx
    rw [winners] at hx
    split at hx
    · exact .tail _ (ih done hx)
    rcases mem_cons.mp hx with he|hx
    · rw [he]
      have hmem : choose better z (l.filter fun y => !done y && sim z y) ∈
          z::l.filter fun y => !done y && sim z y := choose_mem _ z
      rcases mem_cons.mp hmem with h|h
      · rw [h]
        exact .head _
      · exact .tail _ (mem_of_mem_filter h)
    · exact .tail _ (ih _ hx)

theorem winners_congr : ∀ done done' : α → Bool, (∀ y∈l, done y=done' y) →
      winners sim better l done=winners sim better l done' := by
  induction l with
  | nil => exact fun _ _ _ => rfl
  | cons x l ih =>
    intro done done' h
    have hl : ∀ y∈l, done y=done' y := fun y hy => h y (.tail _ hy)
    have hgroup : l.filter (fun y => !done y && sim x y)=l.filter fun y => !done' y && sim x y :=
      filter_congr fun y hy => by rw [hl y hy]
    have hrs : winners sim better l (fun y => done y || sim x y) =
        winners sim better l fun y => done' y || sim x y :=
      ih _ _ fun y hy => by rw [hl y hy]
    rw [winners,winners,h x mem_cons_self,ih done done' hl,hgroup,hrs]

/-- Elements that are done from the start play no part. -/
theorem winners_filter {p : α→Bool} : ∀ done : α → Bool, (∀ y, p y=false → done y=true) →
      winners sim better (l.filter p) done=winners sim better l done := by
  induction l with
  | nil => exact fun _ _ => rfl
  | cons x l ih =>
    intro done hp
    cases hx : p x with
    | false => rw [filter_cons_of_neg (by simp [hx]),ih done hp,winners,if_pos (hp x hx)]
    | true =>
      rw [filter_cons_of_pos hx,winners,winners,ih done hp]
      have hgroup : (l.filter p).filter (fun y => !done y && sim x y) =
          l.filter fun y => !done y && sim x y := by
        rw [List.filter_filter]
        refine filter_congr fun y _ => ?_
        cases hy : p y with
        | false => rw [hp y hy]; rfl
        | true => rw [Bool.and_true]
      rw [hgroup,ih _ fun y hy => by rw [hp y hy]; rfl]

/-- Whatever the groups are, the best of all wins in its own. -/
theorem best_mem_winners : ∀ (done : α → Bool) {b : α}, Ordered better key (fun y => y∈l) →
      IsBest key (fun y => y∈l) b → done b=false → b∈winners sim better l done := by
  induction l with
  | nil => exact fun _ _ _ hb _ => hb.1
  | cons z l ih =>
    intro done b hord hb hdone
    have hord' : Ordered better key (fun y => y∈l) := hord.mono fun y hy => .tail _ hy
    have hmin : ∀ y∈l, key b≤key y := fun y hy => hb.2 y (.tail _ hy)
    rw [winners]
    by_cases hz : done z=true
    · have hbl : b∈l := by
        rcases mem_cons.mp hb.1 with he|hbl
        · rw [he,hz] at hdone
          cases hdone
        · exact hbl
      rw [if_pos hz]
      exact ih done hord' ⟨hbl,hmin⟩ hdone
    rw [if_neg hz]
    have hsub : ∀ y∈z::l.filter (fun y => !done y && sim z y), y∈z::l := by
      intro y hy
      rcases mem_cons.mp hy with he|hy
      · rw [he]
        exact .head _
      · exact .tail _ (mem_of_mem_filter hy)
    by_cases hin : b∈z::l.filter (fun y => !done y && sim z y)
    · have hbest := choose_isBest (hord.mono hsub) _ z fun y hy => hy
      have hb' : IsBest key (fun y => y∈z::l.filter fun y => !done y && sim z y) b :=
        ⟨hin,fun y hy => hb.2 y (hsub y hy)⟩
      rw [(hord.mono hsub).unique hb' hbest]
      exact .head _
    have hbz : b≠z := fun he => hin (by rw [he]; exact .head _)
    have hbl := (mem_cons.mp hb.1).resolve_left hbz
    have hsim : sim z b=false := by
      by_contra hs
      refine hin (.tail _ (mem_filter.mpr ⟨hbl,?_⟩))
      rw [hdone,eq_true_of_not_eq_false hs]
      rfl
    refine .tail _ (ih _ hord' ⟨hbl,hmin⟩ ?_)
    rw [hdone,hsim]
    rfl

/-- The classes of a partial equivalence on the elements of a list. -/
structure Classes (sim : α→α→Bool) (S : α→Prop) : Prop where
  symm : ∀ {a b}, S a → S b → sim a b=true → sim b a=true
  trans : ∀ {a b c}, S a → S b → S c → sim a b=true → sim b c=true → sim a c=true

theorem Classes.mono {S T : α → Prop} (h : Classes sim S) (hT : ∀ x, T x → S x) : Classes sim T :=
  ⟨fun ha hb => h.symm (hT _ ha) (hT _ hb),fun ha hb hc => h.trans (hT _ ha) (hT _ hb) (hT _ hc)⟩

/-- With classes for groups, the winners are the best of each class. -/
theorem mem_winners_iff : ∀ (done : α → Bool) (x : α), l.Nodup → Classes sim (fun y => y∈l) →
      (∀ z∈l, Ordered better key fun y => y∈l ∧ (y=z ∨ sim z y=true)) →
      (∀ y∈l, ∀ z∈l, sim y z=true → done y=done z) →
      (x∈winners sim better l done ↔ x∈l ∧ done x=false ∧ ∀ y∈l, sim x y=true → key x≤key y) := by
  induction l with
  | nil => exact fun _ x _ _ _ _ => iff_of_false not_mem_nil fun h => not_mem_nil h.1
  | cons z l ih =>
    intro done x hnd hcls hord hdone
    obtain ⟨hzl,hnd'⟩ := nodup_cons.mp hnd
    have hz : z∈z::l := .head _
    have hmem : ∀ {y}, y∈l → y∈z::l := fun hy => .tail _ hy
    have hcls' : Classes sim (fun y => y∈l) := hcls.mono fun y hy => hmem hy
    have hord' : ∀ w∈l, Ordered better key fun y => y∈l ∧ (y=w ∨ sim w y=true) :=
      fun w hw => (hord w (hmem hw)).mono fun y hy => ⟨hmem hy.1,hy.2⟩
    rw [winners]
    by_cases hdz : done z=true
    · rw [if_pos hdz,ih done x hnd' hcls' hord' fun y hy w hw => hdone y (hmem hy) w (hmem hw)]
      constructor
      · rintro ⟨hx,hdx,hmin⟩
        refine ⟨hmem hx,hdx,fun y hy hs => ?_⟩
        rcases mem_cons.mp hy with rfl|hy
        · rw [hdone x (hmem hx) y hz hs,hdz] at hdx
          cases hdx
        · exact hmin y hy hs
      · rintro ⟨hx,hdx,hmin⟩
        rcases mem_cons.mp hx with rfl|hx
        · rw [hdz] at hdx
          cases hdx
        · exact ⟨hx,hdx,fun y hy => hmin y (hmem hy)⟩
    · rw [if_neg hdz,mem_cons]
      have hdz' := eq_false_of_not_eq_true hdz
      -- the group of the first element is its whole class
      have hgroup : ∀ y, y∈z::l.filter (fun y => !done y && sim z y) ↔
          y∈z::l ∧ (y=z ∨ sim z y=true) := by
        intro y
        rw [mem_cons,mem_filter,mem_cons]
        constructor
        · rintro (rfl|⟨hy,hs⟩)
          · exact ⟨.inl rfl,.inl rfl⟩
          · exact ⟨.inr hy,.inr (and_eq_true_iff.mp hs).2⟩
        · rintro ⟨rfl|hy,hs⟩
          · exact .inl rfl
          rcases hs with rfl|hs
          · exact .inl rfl
          refine .inr ⟨hy,?_⟩
          rw [←hdone z hz y (hmem hy) hs,hdz',hs]
          rfl
      have hordz := hord z hz
      have hbest := choose_isBest (hordz.mono fun y hy => (hgroup y).mp hy) _ z fun y hy => hy
      have hinv : ∀ y∈l, ∀ w∈l, sim y w=true → (done y || sim z y)=(done w || sim z w) := by
        intro y hy w hw hs
        have hback := hcls.symm (hmem hy) (hmem hw) hs
        have hsim : sim z y=sim z w := by
          apply Bool.eq_iff_iff.mpr
          exact ⟨fun h => hcls.trans hz (hmem hy) (hmem hw) h hs,
            fun h => hcls.trans hz (hmem hw) (hmem hy) h hback⟩
        rw [hdone y (hmem hy) w (hmem hw) hs,hsim]
      rw [ih _ x hnd' hcls' hord' hinv]
      by_cases hclass : x∈z::l ∧ (x=z ∨ sim z x=true)
      · obtain ⟨hx,hxz⟩ := hclass
        have hdx : done x=false := by
          rcases hxz with rfl|hs
          · exact hdz'
          · rw [←hdone z hz x hx hs,hdz']
        have hsame : ∀ y∈z::l, (y=z ∨ sim z y=true) → y=x ∨ sim x y=true := by
          intro y hy hyz
          rcases hxz with rfl|hs
          · exact hyz
          have hback := hcls.symm hz hx hs
          rcases hyz with rfl|hyz
          · exact .inr hback
          · exact .inr (hcls.trans hx hz hy hback hyz)
        have hrs : ¬(x∈l ∧ (done x || sim z x)=false ∧
            ∀ y∈l, sim x y=true → key x≤key y) := by
          rintro ⟨hxl,hds,-⟩
          rcases hxz with rfl|hs
          · exact hzl hxl
          rw [hs,Bool.or_true] at hds
          cases hds
        rw [or_iff_left hrs]
        constructor
        · intro he
          refine ⟨hx,hdx,fun y hy hs => ?_⟩
          rw [he]
          refine hbest.2 y ((hgroup y).mpr ⟨hy,?_⟩)
          rcases hxz with rfl|hzx
          · exact .inr hs
          · exact .inr (hcls.trans hz hx hy hzx hs)
        · rintro ⟨-,-,hmin⟩
          have hxbest : IsBest key (fun y => y∈z::l.filter fun y => !done y && sim z y) x := by
            refine ⟨(hgroup x).mpr ⟨hx,hxz⟩,fun y hy => ?_⟩
            obtain ⟨hyl,hyz⟩ := (hgroup y).mp hy
            rcases hsame y hyl hyz with rfl|hs
            · exact le_rfl
            · exact hmin y hyl hs
          exact (hordz.mono fun y hy => (hgroup y).mp hy).unique hxbest hbest
      · have hne : x≠choose better z (l.filter fun y => !done y && sim z y) := by
          intro he
          exact hclass ((hgroup x).mp (by rw [he]; exact hbest.1))
        rw [or_iff_right hne]
        constructor
        · rintro ⟨hx,hdx,hmin⟩
          obtain ⟨hdx,hs⟩ := or_eq_false_iff.mp hdx
          refine ⟨hmem hx,hdx,fun y hy hxy => ?_⟩
          rcases mem_cons.mp hy with rfl|hy
          · rw [hcls.symm (hmem hx) hz hxy] at hs
            cases hs
          · exact hmin y hy hxy
        · rintro ⟨hx,hdx,hmin⟩
          have hxz : x≠z := fun he => hclass ⟨hx,.inl he⟩
          have hs : sim z x=false := by
            by_contra hs
            exact hclass ⟨hx,.inr (eq_true_of_not_eq_false hs)⟩
          refine ⟨(mem_cons.mp hx).resolve_left hxz,?_,fun y hy => hmin y (hmem hy)⟩
          rw [hdx,hs]
          rfl

end

end RoutePlatform.BestChoice
