import Mathlib.Data.List.Basic

/-!
# Runs of a transition function

A system is a state type `σ`, an input type `ι` and a transition function
`step : σ → ι → σ`. Every outcome that the environment decides (an allocation
that fails, a hardware request that times out) is part of the input, so a run
is the fold of `step` over a list of inputs.
-/

namespace Amdkfd.Lib

section
variable {σ ι : Type*} (step : σ → ι → σ)

/-- The state after the inputs `ops`, starting from `s`. -/
def run (s : σ) (ops : List ι) : σ :=
  ops.foldl step s

/-- Every input of the run meets `ok` in the state in which it is taken. -/
def StepsOk (ok : σ → ι → Prop) : σ → List ι → Prop
  | _, [] => True
  | s, op :: ops => ok s op ∧ StepsOk ok (step s op) ops

instance StepsOk.decidable (ok : σ → ι → Prop) [∀ s op, Decidable (ok s op)] :
    ∀ s ops, Decidable (StepsOk step ok s ops)
  | _, [] => isTrue trivial
  | s, op :: ops =>
    have := StepsOk.decidable ok (step s op) ops
    inferInstanceAs (Decidable (_ ∧ _))

@[simp] theorem run_nil (s : σ) : run step s [] = s := rfl

@[simp] theorem run_cons (s : σ) (op : ι) (ops : List ι) :
    run step s (op :: ops) = run step (step s op) ops := rfl

theorem run_append (s : σ) (xs ys : List ι) : run step s (xs ++ ys) = run step (run step s xs) ys :=
  List.foldl_append

theorem stepsOk_append {ok : σ → ι → Prop} {s : σ} {xs ys : List ι} :
    StepsOk step ok s (xs ++ ys) ↔ StepsOk step ok s xs ∧ StepsOk step ok (run step s xs) ys := by
  induction xs generalizing s with
  | nil => simp [StepsOk]
  | cons x xs ih => simp only [List.cons_append, StepsOk, run_cons, ih, and_assoc]

variable {step}

theorem run_inv_of_stepsOk {ok : σ → ι → Prop} {P : σ → Prop}
    (hstep : ∀ s op, P s → ok s op → P (step s op)) {s : σ} (hs : P s) {ops : List ι}
    (hok : StepsOk step ok s ops) : P (run step s ops) := by
  induction ops generalizing s with
  | nil => exact hs
  | cons op ops ih => exact ih (hstep s op hs hok.1) hok.2

theorem run_inv {P : σ → Prop} (hstep : ∀ s op, P s → P (step s op)) {s : σ} (hs : P s)
    (ops : List ι) : P (run step s ops) := by
  induction ops generalizing s with
  | nil => exact hs
  | cons op ops ih => exact ih (hstep s op hs)

theorem stepsOk_iff_take {ok : σ → ι → Prop} {P : σ → Prop}
    (hstep : ∀ s op, P s → (P (step s op) ↔ ok s op)) {s : σ} (hs : P s) (ops : List ι) :
    (∀ n, P (run step s (ops.take n))) ↔ StepsOk step ok s ops := by
  induction ops generalizing s with
  | nil => simpa [StepsOk] using hs
  | cons op ops ih =>
    constructor
    · intro h
      have h1 : P (step s op) := by simpa using h 1
      refine ⟨(hstep s op hs).mp h1, (ih h1).mp fun n => ?_⟩
      simpa using h (n + 1)
    · rintro ⟨hop, hops⟩ n
      cases n with
      | zero => simpa using hs
      | succ n => simpa using (ih ((hstep s op hs).mpr hop)).mpr hops n

theorem stepsOk_congr {ok Q : σ → ι → Prop} {P : σ → Prop}
    (hiff : ∀ s op, P s → (Q s op ↔ ok s op)) (hstep : ∀ s op, P s → ok s op → P (step s op))
    {s : σ} (hs : P s) (ops : List ι) : StepsOk step Q s ops ↔ StepsOk step ok s ops := by
  induction ops generalizing s with
  | nil => exact Iff.rfl
  | cons op ops ih =>
    simp only [StepsOk, hiff s op hs]
    exact and_congr_right fun hop => ih (hstep s op hs hop)

theorem foldl_range_inv {f : σ → Nat → σ} {P : Nat → σ → Prop}
    (hstep : ∀ i s, P i s → P (i + 1) (f s i)) {s : σ} (hs : P 0 s) (n : Nat) :
    P n ((List.range n).foldl f s) := by
  induction n with
  | zero => exact hs
  | succ n ih =>
    rw [List.range_succ, List.foldl_append]
    exact hstep n _ ih

end

end Amdkfd.Lib
