import Mathlib.Data.List.Rotate
import Mathlib.Algebra.BigOperators.Group.List.Basic
import Mathlib.Algebra.Ring.Nat

/-!
# Rings of the last elements

A ring of `q` slots, each position written to the slot of its remainder, keeps the last `q`
elements of what was written. Read from the slot of the next position on, it is a queue.

* `rotate_set`: writing the slot of the next position takes the front off the queue.
* `lastSlots`: the queue behind a history, with `lastSlots_concat` for one more element.
* `lastSlots_getElem?`, `lastSlots_sum`: the elements that it has.
-/

namespace Amdkfd.Lib

open List

variable {α : Type*}

theorem rotate_set {l : List α} (h : l ≠ []) (n : Nat) (a : α) :
    (l.set (n % l.length) a).rotate (n + 1) = (l.rotate n).tail ++ [a] := by
  have hlen : n % l.length < l.length := Nat.mod_lt n (length_pos_iff.mpr h)
  have htake : (l.take (n % l.length)).length = n % l.length := by
    rw [length_take, min_eq_left hlen.le]
  have hsplit : l.set (n % l.length) a =
      l.take (n % l.length) ++ a :: l.drop (n % l.length + 1) := by
    rw [set_eq_take_append_cons_drop, if_pos hlen]
  have hturn : (l.set (n % l.length) a).rotate n =
      a :: (l.drop (n % l.length + 1) ++ l.take (n % l.length)) := by
    rw [rotate_eq_drop_append_take_mod, length_set, hsplit, drop_left' htake,
      take_left' htake]
    rfl
  rw [← rotate_rotate, hturn, rotate_cons_succ, rotate_zero,
    rotate_eq_drop_append_take_mod, tail_append_of_ne_nil, tail_drop]
  simpa using hlen

/-- The slots of a ring that keeps the last `q` elements of a history, the oldest first. -/
def lastSlots (q : Nat) (history : List α) : List (Option α) :=
  replicate (q - history.length) none ++ (history.drop (history.length - q)).map some

variable {q : Nat} {history : List α}

@[simp] theorem lastSlots_length : (lastSlots q history).length = q := by
  simp only [lastSlots, length_append, length_replicate, length_map,
    length_drop]
  omega

theorem lastSlots_nil : lastSlots q ([] : List α) = replicate q none := by
  simp [lastSlots]

theorem lastSlots_concat (hq : 0 < q) (a : α) :
    lastSlots q (history ++ [a]) = (lastSlots q history).tail ++ [some a] := by
  unfold lastSlots
  rw [length_append, length_singleton]
  rcases lt_or_ge history.length q with hlt | hge
  · obtain ⟨k, hk⟩ : ∃ k, q - history.length = k + 1 := ⟨q - history.length - 1, by omega⟩
    rw [hk, show q - (history.length + 1) = k by omega,
      show history.length + 1 - q = 0 by omega, show history.length - q = 0 by omega]
    simp [replicate_succ]
  · have hdrop : history.length + 1 - q = history.length - q + 1 := by omega
    rw [show q - history.length = 0 by omega, show q - (history.length + 1) = 0 by omega, hdrop,
      drop_append_of_le_length (by omega)]
    simp [map_drop]

theorem lastSlots_getElem? (k : Nat) :
    (lastSlots q history)[k]?.join =
      if q ≤ history.length + k then history[history.length + k - q]? else none := by
  unfold lastSlots
  rcases lt_or_ge k (q - history.length) with hlt | hge
  · rw [getElem?_append_left (by simpa using hlt), if_neg (by omega)]
    simp [hlt]
  · rw [getElem?_append_right (by simpa using hge), if_pos (by omega), getElem?_map,
      getElem?_drop, length_replicate,
      show history.length - q + (k - (q - history.length)) = history.length + k - q by omega]
    cases history[history.length + k - q]? <;> rfl

theorem lastSlots_sum {f : Option α → Nat} (hf : f none = 0) :
    ((lastSlots q history).map f).sum =
      ((history.drop (history.length - q)).map fun a => f (some a)).sum := by
  rw [lastSlots, map_append, sum_append, map_replicate, hf, map_map,
    sum_replicate_nat, mul_zero, zero_add]
  rfl

end Amdkfd.Lib
