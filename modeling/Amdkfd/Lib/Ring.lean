import Mathlib.Data.Nat.ModEq
import Mathlib.Data.List.Basic

/-!
# Rings

A ring of `q` slots is addressed by positions that only grow; the slot of a
position is its remainder modulo `q`.
-/

namespace Amdkfd.Lib

open List

theorem mod_ne_of_lt_of_lt_add {q x y : Nat} (hlt : x < y) (hturn : y < x + q) :
    x % q ≠ y % q := by
  intro h
  have hdvd : q ∣ y - x := (Nat.modEq_iff_dvd' hlt.le).mp h
  have := Nat.le_of_dvd (by omega) hdvd
  omega

theorem add_mod_of_lt {q r d : Nat} (hr : r < q) (hd : d < q) :
    (r + d) % q = if r + d < q then r + d else r + d - q := by
  split
  · next h => exact Nat.mod_eq_of_lt h
  · next h =>
    rw [Nat.mod_eq_sub_mod (by omega), Nat.mod_eq_of_lt (by omega)]

theorem slot_dist {q x y : Nat} (hle : x ≤ y) (hturn : y < x + q) :
    (y % q + q - x % q) % q = y - x := by
  have hq : 0 < q := by omega
  have hx := Nat.mod_lt x hq
  have hy : y % q = if x % q + (y - x) < q then x % q + (y - x) else x % q + (y - x) - q := by
    rw [← add_mod_of_lt hx (by omega), Nat.mod_add_mod, Nat.add_sub_cancel' hle]
  split at hy
  · rw [hy, show x % q + (y - x) + q - x % q = (y - x) + q by omega, Nat.add_mod_right,
      Nat.mod_eq_of_lt (by omega)]
  · rw [hy, show x % q + (y - x) - q + q - x % q = y - x by omega, Nat.mod_eq_of_lt (by omega)]

theorem slot_free {q x y : Nat} (hle : x ≤ y) (hturn : y < x + q) :
    (x % q + q - 1 - y % q) % q = q - 1 - (y - x) := by
  have hq : 0 < q := by omega
  have hx := Nat.mod_lt x hq
  have hy : y % q = if x % q + (y - x) < q then x % q + (y - x) else x % q + (y - x) - q := by
    rw [← add_mod_of_lt hx (by omega), Nat.mod_add_mod, Nat.add_sub_cancel' hle]
  split at hy
  · rw [hy, show x % q + q - 1 - (x % q + (y - x)) = q - 1 - (y - x) by omega,
      Nat.mod_eq_of_lt (by omega)]
  · rw [hy, show x % q + q - 1 - (x % q + (y - x) - q) = q - 1 - (y - x) + q by omega,
      Nat.add_mod_right, Nat.mod_eq_of_lt (by omega)]

theorem slot_to_end {q x i : Nat} (hge : x % q ≤ i) (hlt : i < q) :
    (x + (i - x % q)) % q = i := by
  rw [← Nat.mod_add_mod, Nat.add_sub_cancel' hge, Nat.mod_eq_of_lt hlt]

section Contents
variable {α : Type*}

/-- The `n` elements of a ring of `q` slots from position `r` on. -/
def ringWindow (q : Nat) (ring : Nat → α) (r n : Nat) : List α :=
  (range n).map fun j => ring ((r + j) % q)

def ringWrite (ring : Nat → α) (base : Nat) (data : List α) : Nat → α := fun i =>
  if h : base ≤ i ∧ i - base < data.length then data.get ⟨i - base, h.2⟩ else ring i

variable {q : Nat} {ring : Nat → α}

@[simp] theorem ringWindow_length (r n : Nat) : (ringWindow q ring r n).length = n := by
  simp [ringWindow]

theorem ringWindow_getElem {r n j : Nat} (h : j < (ringWindow q ring r n).length) :
    (ringWindow q ring r n)[j] = ring ((r + j) % q) := by
  simp [ringWindow]

theorem ringWindow_take (r : Nat) {n m : Nat} (h : n ≤ m) :
    (ringWindow q ring r m).take n = ringWindow q ring r n := by
  simp [ringWindow, ← map_take, take_range, min_eq_left h]

theorem ringWindow_drop (r n m : Nat) :
    (ringWindow q ring r m).drop n = ringWindow q ring (r + n) (m - n) := by
  refine ext_getElem (by simp) fun j h1 h2 => ?_
  rw [getElem_drop, ringWindow_getElem, ringWindow_getElem, add_assoc]

theorem ringWindow_mod (r n : Nat) : ringWindow q ring (r % q) n = ringWindow q ring r n := by
  simp [ringWindow, Nat.mod_add_mod]

theorem ringWindow_congr {ring' : Nat → α} (hq : 0 < q) (h : ∀ i < q, ring' i = ring i)
    (r n : Nat) : ringWindow q ring' r n = ringWindow q ring r n :=
  map_congr_left fun _ _ => h _ (Nat.mod_lt _ hq)

theorem ringWindow_eq_run {r n : Nat} (h : r + n ≤ q) :
    ringWindow q ring r n = (range n).map fun i => ring (r + i) := by
  refine map_congr_left fun i hi => ?_
  have hi := mem_range.mp hi
  rw [Nat.mod_eq_of_lt (by omega)]

theorem ringWindow_eq_wrap {r n : Nat} (hr : r ≤ q) (hn : n ≤ q) (h : q ≤ r + n) :
    ringWindow q ring r n =
      ((range (q - r)).map fun i => ring (r + i)) ++ (range (r + n - q)).map ring := by
  have hsplit : n = (q - r) + (r + n - q) := by omega
  conv_lhs => rw [hsplit, ringWindow, range_add, map_append, map_map]
  congr 1
  · refine map_congr_left fun i hi => ?_
    have hi := mem_range.mp hi
    rw [Nat.mod_eq_of_lt (by omega)]
  · refine map_congr_left fun i hi => ?_
    have hi := mem_range.mp hi
    have hpos : r + (q - r + i) = i + q := by omega
    simp only [Function.comp_apply, hpos, Nat.add_mod_right]
    rw [Nat.mod_eq_of_lt (by omega)]

theorem ringWrite_before {base x : Nat} {data : List α} (hfit : base % q + data.length ≤ q)
    (hlt : x < base) (hturn : base + data.length ≤ x + q) :
    ringWrite ring (base % q) data (x % q) = ring (x % q) := by
  unfold ringWrite
  rw [dif_neg]
  rintro ⟨hge, hend⟩
  have hslot := slot_to_end hge (Nat.mod_lt x (by omega : 0 < q))
  exact mod_ne_of_lt_of_lt_add (by omega) (by omega) hslot.symm

theorem ringWrite_at {base k : Nat} {data : List α} (hfit : base % q + data.length ≤ q)
    (hk : k < data.length) :
    ringWrite ring (base % q) data ((base + k) % q) = data[k] := by
  rw [← Nat.mod_add_mod, Nat.mod_eq_of_lt (by omega : base % q + k < q)]
  simp [ringWrite, hk]

theorem ringWrite_replicate (base k : Nat) (a : α) (i : Nat) :
    ringWrite ring base (replicate k a) i =
      if base ≤ i ∧ i - base < k then a else ring i := by
  simp [ringWrite]

theorem ringWindow_write {r m : Nat} {content data : List α}
    (hc : ringWindow q ring r content.length = content) (hm : m ≤ content.length)
    (hfit : (r + m) % q + data.length ≤ q) (hturn : m + data.length ≤ q) :
    ringWindow q (ringWrite ring ((r + m) % q) data) r (m + data.length) =
      content.take m ++ data := by
  rw [← hc, ringWindow_take r hm]
  refine ext_getElem (by simp) fun j h1 h2 => ?_
  rw [ringWindow_length] at h1
  rw [ringWindow_getElem]
  rcases Nat.lt_or_ge j m with hj | hj
  · rw [getElem_append_left (by simpa using hj), ringWindow_getElem]
    exact ringWrite_before hfit (by omega) (by omega)
  · rw [getElem_append_right (by simpa using hj), show r + j = r + m + (j - m) by omega,
      ringWrite_at hfit (by omega)]
    simp only [ringWindow_length]

/-- Write `data` to the slots of `base` and the positions behind it. -/
def ringPut (q : Nat) (ring : Nat → α) (base : Nat) (data : List α) : Nat → α := fun i =>
  (data[(i + q - base % q) % q]?).getD (ring i)

theorem ringPut_mod (base : Nat) (data : List α) :
    ringPut q ring (base % q) data = ringPut q ring base data := by
  unfold ringPut
  rw [Nat.mod_mod]

theorem ringPut_at {base j : Nat} {data : List α} (hlen : data.length ≤ q)
    (hj : j < data.length) : ringPut q ring base data ((base + j) % q) = data[j] := by
  unfold ringPut
  rw [slot_dist (by omega) (by omega), Nat.add_sub_cancel_left, getElem?_eq_getElem hj]
  rfl

theorem ringPut_other {base i : Nat} {data : List α} (hi : i < q)
    (h : ∀ j < data.length, i ≠ (base + j) % q) : ringPut q ring base data i = ring i := by
  have hslot := Nat.mod_lt base (show 0 < q by omega)
  have hback : (base + (i + q - base % q) % q) % q = i := by
    rw [Nat.add_mod_mod, ← Nat.mod_add_mod, Nat.add_sub_cancel' (by omega), Nat.add_mod_right,
      Nat.mod_eq_of_lt hi]
  unfold ringPut
  rw [getElem?_eq_none, Option.getD_none]
  by_contra hlt
  exact h _ (by omega) hback.symm

theorem ringPut_eq_write {base i : Nat} {data : List α} (hbase : base < q)
    (hfit : base + data.length ≤ q) (hi : i < q) :
    ringPut q ring base data i = ringWrite ring base data i := by
  unfold ringPut ringWrite
  rw [Nat.mod_eq_of_lt hbase]
  rcases Nat.lt_or_ge i base with hlt | hge
  · rw [Nat.mod_eq_of_lt (by omega), getElem?_eq_none (by omega), dif_neg (by omega)]
    rfl
  · rw [show i + q - base = i - base + q by omega, Nat.add_mod_right, Nat.mod_eq_of_lt (by omega)]
    by_cases hlen : i - base < data.length
    · rw [dif_pos ⟨hge, hlen⟩, getElem?_eq_getElem hlen]
      rfl
    · rw [dif_neg (by omega), getElem?_eq_none (by omega)]
      rfl

/-- A write that wraps is one up to the end of the ring and one from its start. -/
theorem ringPut_eq_wrap {base i : Nat} {data : List α} (hbase : base < q)
    (hwrap : q ≤ base + data.length) (hlen : data.length ≤ q) (hi : i < q) :
    ringPut q ring base data i =
      ringWrite (ringWrite ring base (data.take (q - base))) 0 (data.drop (q - base)) i := by
  unfold ringPut ringWrite
  rw [Nat.mod_eq_of_lt hbase]
  simp only [length_drop, length_take, get_eq_getElem, getElem_drop,
    getElem_take, Nat.sub_zero, Nat.zero_le, true_and]
  rcases Nat.lt_or_ge i base with hlt | hge
  · rw [Nat.mod_eq_of_lt (by omega)]
    by_cases hin : i < data.length - (q - base)
    · have hindex : i + q - base = q - base + i := by omega
      rw [dif_pos hin, hindex, getElem?_eq_getElem (by omega)]
      rfl
    · rw [dif_neg hin, getElem?_eq_none (by omega), dif_neg (by omega)]
      rfl
  · rw [show i + q - base = i - base + q by omega, Nat.add_mod_right, Nat.mod_eq_of_lt (by omega),
      dif_neg (by omega), dif_pos (by omega), getElem?_eq_getElem (by omega)]
    rfl

theorem ringWindow_put {r n k : Nat} {data : List α} (hn : n ≤ q) (hk : k ≤ n)
    (hlen : data.length ≤ q) (hroom : n + data.length ≤ k + q) :
    ringWindow q (ringPut q ring (r + n) data) (r + k) (n - k + data.length) =
      (ringWindow q ring r n ++ data).drop k := by
  refine ext_getElem (by simp; omega) fun j h1 h2 => ?_
  rw [ringWindow_length] at h1
  rw [ringWindow_getElem, getElem_drop]
  have hq : 0 < q := by omega
  have hslot := Nat.mod_lt (r + k + j) hq
  unfold ringPut
  rcases Nat.lt_or_ge (k + j) n with hj | hj
  · rw [getElem_append_left (by simpa using hj), ringWindow_getElem]
    have hdist : ((r + k + j) % q + q - (r + n) % q) % q = (k + j + q - n) % q := by
      rcases eq_or_lt_of_le (show n - (k + j) ≤ q by omega) with heq | hlt
      · have hpos : r + n = r + k + j + q := by omega
        rw [hpos, Nat.add_mod_right, show k + j + q - n = 0 by omega, Nat.add_sub_cancel_left,
          Nat.mod_self, Nat.zero_mod]
      · have := slot_dist (q := q) (x := r + n) (y := r + k + j + q) (by omega) (by omega)
        rw [Nat.add_mod_right] at this
        rw [this, Nat.mod_eq_of_lt (by omega)]
        omega
    have hfar : data.length ≤ (k + j + q - n) % q := by
      rcases eq_or_lt_of_le (show n - (k + j) ≤ q by omega) with heq | hlt
      · have hzero : data.length = 0 := by omega
        omega
      · rw [Nat.mod_eq_of_lt (by omega)]
        omega
    rw [hdist, getElem?_eq_none hfar, Option.getD_none, add_assoc]
  · have hdist := slot_dist (q := q) (x := r + n) (y := r + k + j) (by omega) (by omega)
    rw [getElem_append_right (by simpa using hj), hdist,
      getElem?_eq_getElem (by omega), Option.getD_some]
    congr 1
    simp only [ringWindow_length]
    omega

end Contents

end Amdkfd.Lib
