import Mathlib.Algebra.Ring.Nat

/-!
# Rounding to multiples

`alignDown x a` is the last multiple of `a` up to `x`, and `alignUp x a` the first one from `x` on.
A multiple is compared with either of them as with `x` itself (`le_alignDown`, `alignUp_le`).
-/

namespace Amdkfd.Lib

def alignDown (x a : Nat) : Nat := x / a * a

def alignUp (x a : Nat) : Nat := (x + (a - 1)) / a * a

section
variable {x y a : Nat}

theorem dvd_alignDown : a ∣ alignDown x a := Nat.dvd_mul_left ..

theorem dvd_alignUp : a ∣ alignUp x a := Nat.dvd_mul_left ..

theorem alignDown_le : alignDown x a ≤ x := Nat.div_mul_le_self ..

theorem le_alignDown (ha : 0 < a) (hy : a ∣ y) : y ≤ alignDown x a ↔ y ≤ x := by
  obtain ⟨k, rfl⟩ := hy
  rw [alignDown, Nat.mul_comm a k, Nat.mul_le_mul_right_iff ha, Nat.le_div_iff_mul_le ha]

theorem alignUp_le (ha : 0 < a) (hy : a ∣ y) : alignUp x a ≤ y ↔ x ≤ y := by
  obtain ⟨k, rfl⟩ := hy
  rw [alignUp, Nat.mul_comm a k, Nat.mul_le_mul_right_iff ha, ← Nat.lt_succ_iff,
    Nat.div_lt_iff_lt_mul ha, Nat.succ_mul]
  omega

theorem le_alignUp (ha : 0 < a) : x ≤ alignUp x a := (alignUp_le ha dvd_alignUp).mp le_rfl

theorem alignDown_unique (hy : a ∣ y) (hle : y ≤ x) (hlt : x < y + a) : alignDown x a = y := by
  have ha : 0 < a := by omega
  obtain ⟨k, rfl⟩ := hy
  have hdiv : x / a = k := by
    rw [Nat.div_eq_iff ha]
    rw [Nat.mul_comm] at hle hlt
    omega
  rw [alignDown, hdiv, Nat.mul_comm]

theorem lt_alignDown_add (ha : 0 < a) : x < alignDown x a + a := Nat.lt_div_mul_add ha

end

end Amdkfd.Lib
