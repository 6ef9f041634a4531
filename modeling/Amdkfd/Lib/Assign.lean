import Mathlib.Data.List.Basic

/-!
# Sequences of assignments

A list of requests is applied to a state from the front to the back. Each request names some
settings and gives each of them a value; the others it leaves alone. What a setting has in the end
is what the last request that names it gives.

* `Assigns.foldl_unnamed`: a setting that no request names keeps its value.
* `Assigns.foldl_last`: the last request that names a setting decides.
* `Assigns.foldl_distinct`: when no setting is named twice, every request has its way.
-/

namespace Amdkfd.Lib

open List

variable {σ ι κ ν : Type*}

/-- The requests that meet `ok` write the settings that they name, and no others. -/
structure Assigns (step : σ → ι → σ) (read : σ → κ → ν) (names : ι → κ → Prop) (gives : ι → κ → ν)
    (ok : ι → Prop) : Prop where
  frame : ∀ s x k, ok x → ¬names x k → read (step s x) k = read s k
  effect : ∀ s x k, ok x → names x k → read (step s x) k = gives x k

def Distinct (names : ι → κ → Prop) (xs : List ι) : Prop :=
  xs.Pairwise fun x y => ∀ k, names x k → ¬names y k

namespace Assigns

variable {step : σ → ι → σ} {read : σ → κ → ν} {names : ι → κ → Prop} {gives : ι → κ → ν}
  {ok : ι → Prop} {xs ys : List ι} {x : ι} {k : κ}

section
variable (h : Assigns step read names gives ok)
include h

theorem foldl_unnamed (hok : ∀ x ∈ xs, ok x) (hno : ∀ x ∈ xs, ¬names x k) (s : σ) :
    read (xs.foldl step s) k = read s k := by
  induction xs generalizing s with
  | nil => rfl
  | cons x xs ih =>
    obtain ⟨hx, hxs⟩ := forall_mem_cons.mp hok
    obtain ⟨hnox, hnoxs⟩ := forall_mem_cons.mp hno
    rw [foldl_cons, ih hxs hnoxs, h.frame s x k hx hnox]

theorem foldl_last (hx : ok x) (hys : ∀ y ∈ ys, ok y) (hnames : names x k)
    (hno : ∀ y ∈ ys, ¬names y k) (s : σ) : read ((xs ++ x :: ys).foldl step s) k = gives x k := by
  rw [foldl_append, foldl_cons, h.foldl_unnamed hys hno, h.effect _ x k hx hnames]

theorem foldl_distinct (hok : ∀ x ∈ xs, ok x) (hdistinct : Distinct names xs) (hmem : x ∈ xs)
    (hnames : names x k) (s : σ) : read (xs.foldl step s) k = gives x k := by
  obtain ⟨before, after, rfl⟩ := append_of_mem hmem
  obtain ⟨-, hrest, -⟩ := pairwise_append.mp hdistinct
  refine h.foldl_last (hok x hmem) (fun y hy => hok y ?_) hnames (fun y hy => ?_) s
  · exact mem_append_right _ (mem_cons_of_mem _ hy)
  · exact (pairwise_cons.mp hrest).1 y hy k hnames

end

end Assigns

end Amdkfd.Lib
