import Mathlib

/-!
# Runs of a partial state machine under a caller discipline

A step either yields the next state or fails. A discipline says which operations callers may issue
in a state. The run rule turns a one-step argument into a statement about every disciplined
sequence: no step fails, and the invariant holds in every state reached.
-/

namespace RoutePlatform.OperationRuns

open List Option

universe u v

variable {σ : Type u} {ω : Type v} (step : σ→ω→Option σ) (legal : σ→ω→Prop) {ops : List ω}

/-- Execute a sequence of operations, stopping at the first failure. -/
def run : σ→List ω→Option σ
  | s, [] => some s
  | s, op::ops => (step s op).bind fun s' => run s' ops

/-- Every operation is permitted in the state it is issued in. -/
def LegalRun : σ→List ω→Prop
  | _, [] => True
  | s, op::ops => legal s op ∧ ∀ s', step s op=some s' → LegalRun s' ops

variable {step legal}

@[simp] theorem run_nil (s : σ) : run step s []=some s := rfl

theorem run_cons_of_step {s s' : σ} {op : ω} (h : step s op=some s') :
    run step s (op::ops)=run step s' ops := by
  rw [run,h,bind_some]

/-- A discipline that can be checked in a state can be checked along a run. -/
instance decidableLegalRun [∀ s op, Decidable (legal s op)] :
    ∀ s ops, Decidable (LegalRun step legal s ops)
  | _, [] => isTrue trivial
  | s, op::ops =>
    match h : step s op with
    | none => decidable_of_iff (legal s op)
        ⟨fun hl => ⟨hl,fun s' hs' => by rw [h] at hs'; cases hs'⟩,fun hl => hl.1⟩
    | some s' =>
      have := decidableLegalRun s' ops
      decidable_of_iff (legal s op ∧ LegalRun step legal s' ops)
        ⟨fun hl => ⟨hl.1,fun s'' hs'' => by rw [h] at hs''; cases hs''; exact hl.2⟩,
          fun hl => ⟨hl.1,hl.2 s' h⟩⟩

theorem run_append (s : σ) (xs ys : List ω) :
    run step s (xs++ys)=(run step s xs).bind fun s' => run step s' ys := by
  induction xs generalizing s with
  | nil => rfl
  | cons op ops ih =>
    rw [cons_append,run,run]
    cases hs : step s op with
    | none => rfl
    | some s' =>
      rw [bind_some,bind_some]
      exact ih s'

theorem run_invariant {inv : σ→Prop}
    (hstep : ∀ s op, inv s → legal s op → ∃ s', step s op=some s' ∧ inv s') :
    ∀ (ops : List ω) (s : σ), inv s → LegalRun step legal s ops →
      ∃ s', run step s ops=some s' ∧ inv s'
  | [], s, hi, _ => ⟨s,rfl,hi⟩
  | op::ops, s, hi, hl => by
    obtain ⟨s',hs,hi'⟩ := hstep s op hi hl.1
    rw [run_cons_of_step hs]
    exact run_invariant hstep ops s' hi' (hl.2 s' hs)

theorem run_preserves {inv : σ→Prop}
    (hstep : ∀ s op s', inv s → legal s op → step s op=some s' → inv s') :
    ∀ (ops : List ω) (s s' : σ), inv s → LegalRun step legal s ops → run step s ops=some s' → inv s'
  | [], s, s', hi, _, hrun => by
    rw [run_nil,Option.some.injEq] at hrun
    rw [←hrun]
    exact hi
  | op::ops, s, s', hi, hl, hrun => by
    rw [run] at hrun
    obtain ⟨s1,hs1,hrs⟩ := bind_eq_some_iff.mp hrun
    exact run_preserves hstep ops s1 s' (hstep s op s1 hi hl.1 hs1) (hl.2 s1 hs1) hrs

theorem run_refines {τ : Type*} {rel : σ→τ→Prop} {spec : τ→ω→τ}
    (hstep : ∀ s t op, rel s t → legal s op → ∃ s', step s op=some s' ∧ rel s' (spec t op)) :
    ∀ (ops : List ω) (s : σ) (t : τ), rel s t → LegalRun step legal s ops →
      ∃ s', run step s ops=some s' ∧ rel s' (ops.foldl spec t)
  | [], s, _, hr, _ => ⟨s,rfl,hr⟩
  | op::ops, s, t, hr, hl => by
    obtain ⟨s',hs,hr'⟩ := hstep s t op hr hl.1
    rw [run_cons_of_step hs,foldl_cons]
    exact run_refines hstep ops s' (spec t op) hr' (hl.2 s' hs)

theorem legalRun_cons {s s' : σ} {op : ω} (hleg : legal s op) (hstep : step s op=some s')
    (hrs : LegalRun step legal s' ops) : LegalRun step legal s (op::ops) := by
  refine ⟨hleg,fun s'' hs'' => ?_⟩
  rw [hstep] at hs''
  cases hs''
  exact hrs

theorem legalRun_of_forall (h : ∀ op∈ops, ∀ s, legal s op) : ∀ s, LegalRun step legal s ops := by
  induction ops with
  | nil => exact fun _ => trivial
  | cons op ops ih =>
    intro s
    refine ⟨h op mem_cons_self s,fun s' _ => ?_⟩
    exact ih (fun op' hop' => h op' (.tail _ hop')) s'

end RoutePlatform.OperationRuns
