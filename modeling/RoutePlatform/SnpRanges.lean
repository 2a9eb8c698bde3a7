import RoutePlatform.SnpOperations

/-!
# The LSPs in a range of ids

`lsp_build_list_nonzero_ht` steps on before it compares with the last node of the range.
It stops there when the range has at least two LSPs. When it has one or none, the loop
never meets the last node and runs to the end of the database.
-/

namespace RoutePlatform.SnpRanges

open SnpOperations List

def inRange (startId stopId : LspId) (lsps : List IsisLsp) : List IsisLsp :=
  lsps.filter fun x => idValue startId ≤ idValue x.lspId ∧ idValue x.lspId ≤ idValue stopId

/-- The LSPs from the start of a range on that are behind its end. -/
def beyond (startId stopId : LspId) (lsps : List IsisLsp) : List IsisLsp :=
  lsps.filter fun x => idValue startId ≤ idValue x.lspId ∧ idValue stopId < idValue x.lspId

def Ascending (lsps : List IsisLsp) : Prop :=
  lsps.Pairwise fun a b => idValue a.lspId < idValue b.lspId

section

variable {startId stopId : LspId} {lsps : List IsisLsp} {x : IsisLsp} (db : LspDb)

theorem LspDb.ascending : Ascending db.lsps :=
  db.sorted.imp fun h => lspIdCmp_eq_lt.mp h

theorem mem_inRange : x∈inRange startId stopId lsps ↔
    x∈lsps ∧ idValue startId ≤ idValue x.lspId ∧ idValue x.lspId ≤ idValue stopId := by
  rw [inRange,mem_filter,decide_eq_true_iff]

theorem mem_beyond : x∈beyond startId stopId lsps ↔
    x∈lsps ∧ idValue startId ≤ idValue x.lspId ∧ idValue stopId < idValue x.lspId := by
  rw [beyond,mem_filter,decide_eq_true_iff]

section

variable (hsorted : Ascending lsps)
include hsorted

theorem dictLowerBound_eq : dictLowerBound lsps startId =
    lsps.filter fun x => idValue startId ≤ idValue x.lspId := by
  induction lsps with
  | nil => rfl
  | cons x lsps ih =>
    obtain ⟨hhead,htail⟩ := pairwise_cons.mp hsorted
    have ih := ih htail
    rw [dictLowerBound] at ih ⊢
    by_cases hlt : idValue x.lspId < idValue startId
    · rw [dropWhile_cons,if_pos (decide_eq_true (lspIdCmp_eq_lt.mpr hlt)),ih,
        filter_cons,if_neg (fun h => not_le.mpr hlt (of_decide_eq_true h))]
    have hall : ∀ y∈x::lsps, decide (idValue startId ≤ idValue y.lspId)=true := by
      intro y hy
      rcases mem_cons.mp hy with rfl|hy
      · exact decide_eq_true (not_lt.mp hlt)
      · exact decide_eq_true ((not_lt.mp hlt).trans (hhead y hy).le)
    rw [dropWhile_cons,if_neg (fun h => hlt (lspIdCmp_eq_lt.mp (of_decide_eq_true h))),
      filter_eq_self.mpr hall]

/-- The greatest id, and what is behind it. -/
theorem dictUpperBound_eq : dictUpperBound stopId lsps =
    match (lsps.filter fun x => idValue x.lspId ≤ idValue stopId).getLast? with
    | none => []
    | some last => last::lsps.filter fun x => idValue stopId < idValue x.lspId := by
  induction lsps with
  | nil => rfl
  | cons x lsps ih =>
    obtain ⟨hhead,htail⟩ := pairwise_cons.mp hsorted
    have ih := ih htail
    rw [dictUpperBound]
    by_cases hgt : idValue stopId < idValue x.lspId
    · have hnone : (x::lsps).filter (fun x => idValue x.lspId ≤ idValue stopId)=[] := by
        rw [filter_eq_nil_iff]
        intro y hy hle
        have hle := of_decide_eq_true hle
        rcases mem_cons.mp hy with rfl|hy
        · omega
        have := hhead y hy
        omega
      rw [if_pos (lspIdCmp_eq_gt.mpr hgt),hnone]
      rfl
    have hkeep : (x::lsps).filter (fun x => idValue x.lspId ≤ idValue stopId) =
        x::lsps.filter fun x => idValue x.lspId ≤ idValue stopId :=
      filter_cons_of_pos (decide_eq_true (not_lt.mp hgt))
    have hdrop : (x::lsps).filter (fun x => idValue stopId < idValue x.lspId) =
        lsps.filter fun x => idValue stopId < idValue x.lspId :=
      filter_cons_of_neg fun h => hgt (of_decide_eq_true h)
    rw [if_neg (fun h => hgt (lspIdCmp_eq_gt.mp h)),hkeep,hdrop,ih]
    rcases eq_nil_or_concat (lsps.filter fun x => idValue x.lspId ≤ idValue stopId) with
      hnil | ⟨front,last,hlast⟩
    · have hall : ∀ y∈lsps, decide (idValue stopId < idValue y.lspId)=true := by
        intro y hy
        refine decide_eq_true (not_le.mp fun hle => ?_)
        have hmem : y∈lsps.filter fun x => idValue x.lspId ≤ idValue stopId :=
          mem_filter.mpr ⟨hy,decide_eq_true hle⟩
        rw [hnil] at hmem
        exact not_mem_nil hmem
      rw [hnil,filter_eq_self.mpr hall]
      rfl
    · rw [hlast,concat_eq_append,←cons_append,getLast?_concat,getLast?_concat]

/-- LSPs in the order of their ids are those below a number and those from it on. -/
theorem filter_split (n : ℕ) (p : IsisLsp→Bool) :
    lsps.filter p=lsps.filter (fun x => p x && decide (idValue x.lspId<n)) ++
      lsps.filter fun x => p x && decide (n ≤ idValue x.lspId) := by
  induction lsps with
  | nil => rfl
  | cons x lsps ih =>
    obtain ⟨hhead,htail⟩ := pairwise_cons.mp hsorted
    have ih := ih htail
    rw [filter_cons,filter_cons,filter_cons]
    cases hp : p x with
    | false => exact ih
    | true =>
      rw [Bool.true_and,Bool.true_and]
      rcases lt_or_ge (idValue x.lspId) n with hlt|hge
      · rw [if_pos rfl,if_pos (decide_eq_true hlt),
          if_neg (fun h => not_le.mpr hlt (of_decide_eq_true h)),ih,cons_append]
      have hnone : lsps.filter (fun x => p x && decide (idValue x.lspId<n))=[] := by
        rw [filter_eq_nil_iff]
        intro y hy hlt
        have hlt := of_decide_eq_true (Bool.and_elim_right hlt)
        have := hhead y hy
        omega
      rw [hnone,nil_append] at ih
      rw [if_pos rfl,if_neg (fun h => not_lt.mpr hge (of_decide_eq_true h)),
        if_pos (decide_eq_true hge),hnone,nil_append,ih]

theorem lowerBound_split : dictLowerBound lsps startId =
    inRange startId stopId lsps++beyond startId stopId lsps := by
  rw [dictLowerBound_eq hsorted,filter_split hsorted (idValue stopId+1),inRange,beyond]
  congr 1
  · refine filter_congr fun x _ => ?_
    rw [Bool.decide_and,decide_eq_decide.mpr Nat.lt_succ_iff]
  refine filter_congr fun x _ => ?_
  rw [Bool.decide_and,decide_eq_decide.mpr Nat.succ_le_iff]

end

theorem filter_alive_cons (x : IsisLsp) (rest : List IsisLsp) : (x::rest).filter IsisLsp.Alive =
      (if x.Alive then [x] else [])++rest.filter IsisLsp.Alive := by
  rw [filter_cons]
  by_cases halive : x.Alive
  · rw [if_pos halive,if_pos (decide_eq_true halive)]
    rfl
  rw [if_neg halive,if_neg (fun h => halive (of_decide_eq_true h))]
  rfl

theorem nonzeroLoop_missed {last rest : List IsisLsp} (h : last=[] ∨ rest.length<last.length) :
    nonzeroLoop last rest=rest.filter IsisLsp.Alive := by
  induction rest with
  | nil => rfl
  | cons x rest ih =>
    have hne : x::rest≠last := by
      rintro rfl
      rcases h with h|h
      · cases h
      · exact lt_irrefl _ h
    have hrs : last=[] ∨ rest.length<last.length :=
      h.imp_right fun h => (Nat.lt_succ_self _).trans h
    rw [nonzeroLoop,if_neg hne,ih hrs,filter_alive_cons]

theorem nonzeroLoop_met (last : IsisLsp) (rest front : List IsisLsp) :
    nonzeroLoop (last::rest) (front++last::rest) = (front++[last]).filter IsisLsp.Alive := by
  induction front with
  | nil =>
    rw [nil_append,nonzeroLoop,if_pos rfl,nil_append,filter_alive_cons,filter_nil]
  | cons x front ih =>
    have hne : x::(front++last::rest)≠last::rest := by
      intro h
      have hlen := congrArg length h
      rw [length_cons,length_append] at hlen
      omega
    rw [cons_append,nonzeroLoop,if_neg hne,ih,cons_append,filter_alive_cons]

theorem beyond_eq (h : inRange startId stopId lsps≠[]) : beyond startId stopId lsps =
    lsps.filter fun x => idValue stopId < idValue x.lspId := by
  obtain ⟨x,hx⟩ := exists_mem_of_ne_nil _ h
  obtain ⟨-,hstart,hstop⟩ := mem_inRange.mp hx
  refine filter_congr fun y _ => ?_
  rw [decide_eq_decide]
  exact ⟨fun h => h.2,fun h => ⟨by omega,h⟩⟩

theorem upperBound_of_inRange (hsorted : Ascending lsps) {front : List IsisLsp} {last : IsisLsp}
    (h : inRange startId stopId lsps=front++[last]) :
    dictUpperBound stopId lsps=last::beyond startId stopId lsps := by
  have hne : inRange startId stopId lsps≠[] := by
    rw [h]
    exact concat_ne_nil _ _
  have hin : lsps.filter (fun x => decide (idValue x.lspId ≤ idValue stopId) &&
      decide (idValue startId ≤ idValue x.lspId))=front++[last] := by
    rw [←h,inRange]
    refine filter_congr fun x _ => ?_
    rw [Bool.decide_and,Bool.and_comm]
  rw [dictUpperBound_eq hsorted,beyond_eq hne,filter_split hsorted (idValue startId),hin,
    ← append_assoc,getLast?_concat]

theorem upperBound_missed (hsorted : Ascending lsps) : dictUpperBound stopId lsps=[] ∨
      (beyond startId stopId lsps).length<(dictUpperBound stopId lsps).length := by
  rw [dictUpperBound_eq hsorted]
  split
  · exact Or.inl rfl
  refine Or.inr (Nat.lt_succ_of_le (List.Sublist.length_le ?_))
  exact monotone_filter_right _ fun x hx => decide_eq_true (of_decide_eq_true hx).2

/-- The list has the LSPs in the range, and those behind it unless there are two in it. -/
theorem lspBuildListNonzeroHt_eq : lspBuildListNonzeroHt startId stopId db =
    (inRange startId stopId db.lsps ++
      if 2≤(inRange startId stopId db.lsps).length then [] else
        beyond startId stopId db.lsps).filter IsisLsp.Alive := by
  have hsorted := LspDb.ascending db
  have hlower := @lowerBound_split startId stopId db.lsps hsorted
  have hmissed := @upperBound_missed startId stopId db.lsps hsorted
  rw [lspBuildListNonzeroHt,hlower]
  cases hin : inRange startId stopId db.lsps with
  | nil =>
    rw [nil_append,nil_append,if_neg (by decide)]
    cases hbeyond : beyond startId stopId db.lsps with
    | nil => rfl
    | cons first rest =>
      rw [hbeyond] at hmissed
      dsimp only
      rw [nonzeroLoop_missed (hmissed.imp_right fun h => (Nat.lt_succ_self _).trans h),
        filter_alive_cons]
  | cons first front =>
    rcases eq_nil_or_concat front with rfl|⟨front,last,rfl⟩
    · have hone : ¬2≤[first].length := by
        rw [length_singleton]
        decide
      rw [if_neg hone,cons_append,nil_append]
      dsimp only
      rw [nonzeroLoop_missed hmissed,filter_alive_cons]
    rw [concat_eq_append] at hin ⊢
    have htwo : 2≤(first::(front++[last])).length := by
      rw [length_cons,length_append,length_singleton]
      omega
    rw [if_pos htwo,append_nil,cons_append,append_assoc,singleton_append]
    dsimp only
    rw [upperBound_of_inRange hsorted (by rw [hin]; rfl : _=(first::front)++[last]),nonzeroLoop_met,
      filter_alive_cons]

end

end RoutePlatform.SnpRanges
