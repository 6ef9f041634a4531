import Mathlib.Algebra.Order.Group.Multiset

/-!
# A ledger of what is held

Everything a piece of code takes is put on the ledger, everything it gives back is crossed out. What
is given back without being held is an error that stays on record. So a ledger on which nothing is
held and nothing went wrong says that everything was given back exactly as often as it was taken.
`Holds l m` says what the ledger holds, as a multiset: a reference taken twice counts twice.
-/

namespace Amdkfd.Lib

/-- What is held, and whether something was given back that was not. -/
structure Ledger (ρ : Type*) where
  held : List ρ := []
  wrong : Bool := false
  deriving DecidableEq

namespace Ledger

variable {ρ : Type*}

def take (r : ρ) (l : Ledger ρ) : Ledger ρ := { l with held := r :: l.held }

/-- Gives `r` back. -/
def give [DecidableEq ρ] (r : ρ) (l : Ledger ρ) : Ledger ρ :=
  if r ∈ l.held then { l with held := l.held.erase r } else { l with wrong := true }

def giveAll [DecidableEq ρ] (rs : List ρ) (l : Ledger ρ) : Ledger ρ :=
  rs.foldl (fun l r => l.give r) l

def Settled (l : Ledger ρ) : Prop := l.held = [] ∧ l.wrong = false
  deriving Decidable

/-- The ledger holds exactly `m`, and nothing went wrong. -/
def Holds (l : Ledger ρ) (m : Multiset ρ) : Prop := (l.held : Multiset ρ) = m ∧ l.wrong = false

variable {l : Ledger ρ} {m : Multiset ρ} {r : ρ}

theorem Holds.init : Holds ({} : Ledger ρ) 0 := ⟨rfl, rfl⟩

theorem Holds.settled_iff (h : l.Holds m) : l.Settled ↔ m = 0 := by
  rw [← h.1, Settled, Multiset.coe_eq_zero]
  exact and_iff_left h.2

theorem Holds.take (h : l.Holds m) : (l.take r).Holds ({r} + m) :=
  ⟨by rw [← h.1]; rfl, h.2⟩

theorem Holds.give [DecidableEq ρ] (h : l.Holds ({r} + m)) : (l.give r).Holds m := by
  have hmem : r ∈ l.held := by
    rw [← Multiset.mem_coe, h.1]
    exact Multiset.mem_add.mpr (.inl (Multiset.mem_singleton_self r))
  rw [Ledger.give, if_pos hmem]
  refine ⟨?_, h.2⟩
  rw [← Multiset.coe_erase, h.1, Multiset.singleton_add, Multiset.erase_cons_head]

theorem Holds.giveAll [DecidableEq ρ] {rs : List ρ} (h : l.Holds (↑rs + m)) :
    (l.giveAll rs).Holds m := by
  induction rs generalizing l with
  | nil => simpa [Ledger.giveAll] using h
  | cons r rs ih =>
    refine ih (Holds.give ?_)
    rwa [← add_assoc, Multiset.singleton_add, Multiset.cons_coe]

theorem Holds.congr {m' : Multiset ρ} (h : l.Holds m) (heq : m = m') : l.Holds m' := heq ▸ h

theorem give_of_notMem [DecidableEq ρ] (h : r ∉ l.held) : (l.give r).wrong = true := by
  rw [Ledger.give, if_neg h]

theorem giveAll_wrong [DecidableEq ρ] (rs : List ρ) (h : l.wrong = true) :
    (l.giveAll rs).wrong = true := by
  induction rs generalizing l with
  | nil => exact h
  | cons r rs ih =>
    refine ih (show (l.give r).wrong = true from ?_)
    unfold Ledger.give
    split
    · exact h
    · rfl

theorem Holds.giveAll_settled_iff [DecidableEq ρ] {rs : List ρ} (h : l.Holds m) :
    (l.giveAll rs).Settled ↔ (rs : Multiset ρ) = m := by
  constructor
  · intro hsettled
    induction rs generalizing l m with
    | nil => exact (h.settled_iff.mp hsettled).symm
    | cons r rs ih =>
      by_cases hmem : r ∈ l.held
      · have hm : r ∈ m := h.1 ▸ Multiset.mem_coe.mpr hmem
        have hsplit : m = {r} + m.erase r := by
          rw [Multiset.singleton_add, Multiset.cons_erase hm]
        have hrest := ih (Holds.give (h.congr hsplit)) hsettled
        rw [hsplit, ← hrest]
        rfl
      · have hwrong := giveAll_wrong rs (give_of_notMem hmem)
        exact absurd hsettled.2 (by rw [show (l.giveAll (r :: rs)).wrong = true from hwrong]; simp)
  · intro heq
    have hall : (l.giveAll rs).Holds 0 := Holds.giveAll (h.congr (by rw [heq, add_zero]))
    exact hall.settled_iff.mpr rfl

end Ledger

end Amdkfd.Lib
