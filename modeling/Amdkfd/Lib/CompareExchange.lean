import Mathlib.Data.List.Nodup
import Amdkfd.Lib.Run

/-!
# Loops around a compare-exchange

Each of several threads updates one cell: it reads the cell, works out the new value from what it
has read, and writes it with a compare-exchange; when the cell has changed in between, it starts
again. Reads and compare-exchanges of the threads come in any order.

* `run_linear`: at any time the cell is what the threads that are done leave when they update it one
  after the other, in some order.
-/

namespace Amdkfd.Lib

open Function List

variable {ι α : Type*}

/-- Where a thread is, with the value that it has read. -/
inductive CasPc (α : Type*)
  | start
  | seen (old : α)
  | done
  deriving DecidableEq

structure Cas (ι α : Type*) where
  cell : α
  pc : ι → CasPc α

namespace Cas

def init (cell : α) : Cas ι α :=
  { cell := cell, pc := fun _ => .start }

/-- Thread `i` reads, or tries to write. -/
def step [DecidableEq ι] [DecidableEq α] (update : ι → α → α) (s : Cas ι α) (i : ι) : Cas ι α :=
  match s.pc i with
  | .start => { s with pc := Function.update s.pc i (.seen s.cell) }
  | .seen old =>
    if s.cell = old then { cell := update i old, pc := Function.update s.pc i .done }
    else { s with pc := Function.update s.pc i .start }
  | .done => s

/-- The threads of `order` have updated the cell one after the other, and they are those that are
done. -/
structure Linear (update : ι → α → α) (cell : α) (s : Cas ι α) (order : List ι) : Prop where
  nodup : order.Nodup
  done : ∀ i, i ∈ order ↔ s.pc i = .done
  cell_eq : s.cell = order.foldl (fun v i => update i v) cell

variable {update : ι → α → α} {cell : α} {s : Cas ι α} {order : List ι}

theorem Linear.init : Linear update cell (Cas.init cell) [] :=
  ⟨.nil, fun _ => iff_of_false not_mem_nil nofun, rfl⟩

variable [DecidableEq ι]

theorem Linear.move (h : Linear update cell s order) {i : ι} (hi : s.pc i ≠ .done) {pc : CasPc α}
    (hpc : pc ≠ .done) : Linear update cell { s with pc := Function.update s.pc i pc } order := by
  refine ⟨h.nodup, fun j => ?_, h.cell_eq⟩
  rw [h.done j]
  by_cases hj : j = i
  · subst hj
    simp only [update_self]
    exact iff_of_false hi hpc
  · simp only [Function.update_of_ne hj]

variable [DecidableEq α]

theorem Linear.step (h : Linear update cell s order) (i : ι) :
    ∃ order, Linear update cell (step update s i) order := by
  unfold Cas.step
  cases hpc : s.pc i with
  | start => exact ⟨order, h.move (by rw [hpc]; exact nofun) nofun⟩
  | done => exact ⟨order, h⟩
  | seen old =>
    dsimp only
    have hnot : i ∉ order := fun hi => by
      have hdone := (h.done i).mp hi
      rw [hpc] at hdone
      cases hdone
    split
    · next hcell =>
      -- the thread comes last: the cell still is what it has read
      refine ⟨order ++ [i], ?_, fun j => ?_, ?_⟩
      · exact nodup_append.mpr ⟨h.nodup, nodup_singleton i, fun j hj k hk hjk =>
          hnot (mem_singleton.mp hk ▸ hjk ▸ hj)⟩
      · rw [mem_append, mem_singleton, h.done j]
        by_cases hj : j = i
        · subst hj
          simp
        · simp only [hj, or_false, Function.update_of_ne hj]
      · rw [foldl_append, ← h.cell_eq, hcell]
        rfl
    · exact ⟨order, h.move (by rw [hpc]; exact nofun) nofun⟩

theorem run_linear (update : ι → α → α) (cell : α) (sched : List ι) :
    ∃ order, Linear update cell (run (Cas.step update) (init cell) sched) order := by
  refine run_inv (P := fun s => ∃ order, Linear update cell s order) ?_ ⟨[], .init⟩ sched
  rintro s i ⟨order, h⟩
  exact h.step i

end Cas

end Amdkfd.Lib
