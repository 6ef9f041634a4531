import Mathlib.Order.Basic

/-!
# The newest of numbered events

`newest p n` is the last of the events `0, …, n - 1` that meet `p`.
-/

namespace Amdkfd.Lib

/-- The largest number below `n` that meets `p`. -/
def newest (p : ℕ → Bool) : ℕ → Option ℕ
  | 0 => none
  | n + 1 => if p n then some n else newest p n

variable {p : ℕ → Bool} {m n : ℕ}

theorem newest_succ (p : ℕ → Bool) (n : ℕ) :
    newest p (n + 1) = if p n then some n else newest p n := rfl

theorem newest_eq_none : newest p n = none ↔ ∀ k < n, p k = false := by
  induction n with
  | zero => simp [newest]
  | succ n ih =>
    rw [newest_succ]
    split
    case isTrue h =>
      refine iff_of_false nofun fun hall => ?_
      rw [hall n (Nat.lt_succ_self n)] at h
      exact Bool.false_ne_true h
    case isFalse h =>
      rw [ih]
      constructor
      · intro hall k hk
        rcases Nat.lt_succ_iff_lt_or_eq.mp hk with hk | rfl
        · exact hall k hk
        · exact Bool.eq_false_iff.mpr h
      · exact fun hall k hk => hall k (Nat.lt_succ_of_lt hk)

theorem newest_eq_some :
    newest p n = some m ↔ m < n ∧ p m = true ∧ ∀ k, m < k → k < n → p k = false := by
  induction n with
  | zero => simp [newest]
  | succ n ih =>
    rw [newest_succ]
    split
    case isTrue h =>
      constructor
      · intro heq
        obtain rfl : n = m := Option.some.inj heq
        exact ⟨Nat.lt_succ_self n, h, fun k hk hk' => absurd hk' (by omega)⟩
      · rintro ⟨hm, -, hall⟩
        rcases Nat.lt_succ_iff_lt_or_eq.mp hm with hm | rfl
        · rw [hall n hm (Nat.lt_succ_self n)] at h
          exact absurd h Bool.false_ne_true
        · rfl
    case isFalse h =>
      rw [ih]
      constructor
      · rintro ⟨hm, hp, hall⟩
        refine ⟨Nat.lt_succ_of_lt hm, hp, fun k hk hk' => ?_⟩
        rcases Nat.lt_succ_iff_lt_or_eq.mp hk' with hk' | rfl
        · exact hall k hk hk'
        · exact Bool.eq_false_iff.mpr h
      · rintro ⟨hm, hp, hall⟩
        rcases Nat.lt_succ_iff_lt_or_eq.mp hm with hm | rfl
        · exact ⟨hm, hp, fun k hk hk' => hall k hk (Nat.lt_succ_of_lt hk')⟩
        · exact absurd hp h

theorem newest_congr {q : ℕ → Bool} (h : ∀ k < n, p k = q k) : newest p n = newest q n := by
  induction n with
  | zero => rfl
  | succ n ih =>
    rw [newest_succ, newest_succ, h n (Nat.lt_succ_self n),
      ih fun k hk => h k (Nat.lt_succ_of_lt hk)]

end Amdkfd.Lib
