import Mathlib.Data.List.TakeWhile

/-!
# Gaps between intervals

Intervals in order, and the widest interval around a point that keeps out of something.

* `InOrder.before`, `InOrder.after`: the neighbours of a point that is in none of the intervals.
* `Widest.of_edges`: an interval is the widest one when the points next to it are taken.
-/

namespace Amdkfd.Lib

open List

section Order
variable {α : Type*} {first last : α → ℕ} {l : List α} {a : α} {x : ℕ}

/-- Each interval of the list ends before the next one starts. -/
structure InOrder (first last : α → ℕ) (l : List α) : Prop where
  le : ∀ a ∈ l, first a ≤ last a
  sorted : l.Pairwise fun a b => last a < first b

def Outside (first last : α → ℕ) (l : List α) (x : ℕ) : Prop :=
  ∀ a ∈ l, ¬(first a ≤ x ∧ x ≤ last a)

theorem InOrder.before (h : InOrder first last l) (hout : Outside first last l x)
    (ha : a ∈ l.takeWhile fun a => last a ≤ x) :
    last a < x ∧ ∀ prev ∈ (l.takeWhile fun a => last a ≤ x).getLast?, last a ≤ last prev := by
  have hmem : ∀ b ∈ l.takeWhile fun a => last a ≤ x, b ∈ l :=
    fun b hb => (List.takeWhile_prefix _).subset hb
  constructor
  · have hends := mem_takeWhile_imp ha
    rw [decide_eq_true_eq] at hends
    have hle := h.le a (hmem a ha)
    have hnot := hout a (hmem a ha)
    omega
  · intro prev hprev
    have hle := h.le prev (hmem prev (mem_of_getLast? hprev))
    have hsorted := h.sorted.sublist (List.takeWhile_prefix fun a => decide (last a ≤ x)).sublist
    obtain ⟨init, hsplit⟩ := getLast?_eq_some_iff.mp hprev
    rw [hsplit] at hsorted ha
    rcases mem_append.mp ha with ha | ha
    · have := (pairwise_append.mp hsorted).2.2 a ha prev (mem_singleton_self _)
      omega
    · rw [mem_singleton.mp ha]

theorem InOrder.after (h : InOrder first last l) (hout : Outside first last l x)
    (ha : a ∈ l.dropWhile fun a => last a ≤ x) :
    ∃ next ∈ (l.dropWhile fun a => last a ≤ x).head?, x < first next ∧ first next ≤ first a := by
  have hmem : ∀ b ∈ l.dropWhile fun a => last a ≤ x, b ∈ l :=
    fun b hb => (dropWhile_suffix _).subset hb
  have hsorted := h.sorted.sublist (dropWhile_suffix fun a => decide (last a ≤ x)).sublist
  have hnext := head?_dropWhile_not (fun a => decide (last a ≤ x)) l
  cases hdrop : l.dropWhile fun a => last a ≤ x with
  | nil =>
    rw [hdrop] at ha
    exact absurd ha not_mem_nil
  | cons next rest =>
    rw [hdrop] at ha hsorted hmem hnext
    simp only [head?_cons, decide_eq_false_iff_not] at hnext
    have hnot := hout next (hmem next mem_cons_self)
    refine ⟨next, rfl, by omega, ?_⟩
    rcases mem_cons.mp ha with rfl | ha
    · exact Nat.le_refl _
    · have hlt := (pairwise_cons.mp hsorted).1 a ha
      have hle := h.le next (hmem next mem_cons_self)
      omega

end Order

section Widest
variable {free : ℕ → Prop} {x lo hi : ℕ}

/-- All points from `lo` to `hi` are free, `x` is one of them, and all intervals of which this
holds are inside of this one. -/
structure Widest (free : ℕ → Prop) (x lo hi : ℕ) : Prop where
  lo_le : lo ≤ x
  le_hi : x ≤ hi
  inside : ∀ y, lo ≤ y → y ≤ hi → free y
  widest : ∀ lo' hi', lo' ≤ x → x ≤ hi' → (∀ y, lo' ≤ y → y ≤ hi' → free y) → lo ≤ lo' ∧ hi' ≤ hi

theorem Widest.of_edges (hlo : lo ≤ x) (hhi : x ≤ hi) (hfree : ∀ y, lo ≤ y → y ≤ hi → free y)
    (hleft : ∀ y, y + 1 = lo → ¬free y) (hright : ¬free (hi + 1)) : Widest free x lo hi where
  lo_le := hlo
  le_hi := hhi
  inside := hfree
  widest := by
    intro lo' hi' hlo' hhi' hfree'
    constructor
    · by_contra hlt
      exact hleft (lo - 1) (by omega) (hfree' (lo - 1) (by omega) (by omega))
    · by_contra hlt
      exact hright (hfree' (hi + 1) (by omega) (by omega))

end Widest

end Amdkfd.Lib
