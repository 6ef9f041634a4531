import Amdkfd.Lib.Ring

/-!
# Memory in cells

Memory from an offset on, seen as cells of `w` elements each.

* `cell_write`: a run of cells written at once.
* `read_cells`: a run of cells read at once.
* `drop_flatten_cells`: the cell at the front of what is left of a run.
-/

namespace Amdkfd.Lib

open List

section
variable {α : Type*} {w : Nat}

def readRun (mem : Nat → α) (addr n : Nat) : List α :=
  (range n).map fun i => mem (addr + i)

@[simp] theorem length_readRun (mem : Nat → α) (addr n : Nat) :
    (readRun mem addr n).length = n := by
  simp [readRun]

theorem readRun_add (mem : Nat → α) (addr n m : Nat) :
    readRun mem addr (n + m) = readRun mem addr n ++ readRun mem (addr + n) m := by
  simp [readRun, range_add, add_assoc, Function.comp_def]

theorem readRun_write_self (mem : Nat → α) (addr : Nat) (data : List α) :
    readRun (ringWrite mem addr data) addr data.length = data := by
  refine ext_getElem (by simp) fun i h1 h2 => ?_
  simp [readRun, ringWrite, h2]

theorem readRun_write_of_disjoint {mem : Nat → α} {addr n base : Nat} {data : List α}
    (h : addr + n ≤ base ∨ base + data.length ≤ addr) :
    readRun (ringWrite mem base data) addr n = readRun mem addr n := by
  refine map_congr_left fun i hi => ?_
  have hi := mem_range.mp hi
  unfold ringWrite
  rw [dif_neg (by omega)]

def cell (w off : Nat) (mem : Nat → α) (i : Nat) : List α :=
  readRun mem (off + i * w) w

@[simp] theorem length_cell (off : Nat) (mem : Nat → α) (i : Nat) :
    (cell w off mem i).length = w :=
  length_readRun ..

theorem length_flatten_cells {cells : List (List α)} (h : ∀ c ∈ cells, c.length = w) :
    cells.flatten.length = cells.length * w := by
  induction cells with
  | nil => simp
  | cons c cs ih =>
    rw [flatten_cons, length_append, h c mem_cons_self,
      ih fun d hd => h d (mem_cons_of_mem c hd), length_cons, Nat.succ_mul, add_comm]

theorem take_flatten_cells {cells : List (List α)} (h : ∀ c ∈ cells, c.length = w) {n : Nat}
    (hn : n ≤ cells.length) : cells.flatten.take (n * w) = (cells.take n).flatten := by
  have hlen : (cells.take n).flatten.length = n * w := by
    rw [length_flatten_cells fun c hc => h c (mem_of_mem_take hc), length_take_of_le hn]
  conv_lhs => rw [← take_append_drop n cells, flatten_append]
  exact take_left' hlen

theorem drop_flatten_cells {cells : List (List α)} (h : ∀ c ∈ cells, c.length = w) {n : Nat}
    (hn : n ≤ cells.length) : cells.flatten.drop (n * w) = (cells.drop n).flatten := by
  have hlen : (cells.take n).flatten.length = n * w := by
    rw [length_flatten_cells fun c hc => h c (mem_of_mem_take hc), length_take_of_le hn]
  conv_lhs => rw [← take_append_drop n cells, flatten_append]
  exact drop_left' hlen

theorem getElem?_flatten_cells {cells : List (List α)} (h : ∀ c ∈ cells, c.length = w) {k j : Nat}
    (hk : k < cells.length) (hj : j < w) :
    cells.flatten[k * w + j]? = (cells[k])[j]? := by
  have hdrop := drop_flatten_cells h hk.le
  rw [← getElem?_drop, hdrop, drop_eq_getElem_cons hk, flatten_cons,
    getElem?_append_left]
  rw [h _ (getElem_mem hk)]
  exact hj

theorem cell_write {off a i : Nat} {mem : Nat → α} {cells : List (List α)}
    (h : ∀ c ∈ cells, c.length = w) :
    cell w off (ringWrite mem (off + a * w) cells.flatten) i =
      ringWrite (cell w off mem) a cells i := by
  have hlen := length_flatten_cells h
  by_cases hin : a ≤ i ∧ i - a < cells.length
  · have hcell := h _ (getElem_mem hin.2)
    have hi : i * w = a * w + (i - a) * w := by rw [← add_mul, Nat.add_sub_cancel' hin.1]
    have hright : ringWrite (cell w off mem) a cells i = cells[i - a] := by
      rw [ringWrite, dif_pos hin]
      rfl
    rw [hright]
    refine ext_getElem (by simp [hcell]) fun j h1 h2 => ?_
    rw [length_cell] at h1
    have hend : (i - a) * w + j < cells.flatten.length := by
      have hle : (i - a + 1) * w ≤ cells.length * w := Nat.mul_le_mul_right w hin.2
      rw [add_mul, one_mul] at hle
      omega
    have hget := getElem?_flatten_cells h hin.2 h1
    rw [getElem?_eq_getElem hend, getElem?_eq_getElem (by omega)] at hget
    have hindex : off + i * w + j - (off + a * w) = (i - a) * w + j := by omega
    simp only [cell, readRun, getElem_map, getElem_range, ringWrite,
      get_eq_getElem, hindex]
    rw [dif_pos ⟨by omega, hend⟩]
    exact Option.some.inj hget
  · have hright : ringWrite (cell w off mem) a cells i = cell w off mem i := by
      rw [ringWrite, dif_neg hin]
    rw [hright]
    refine readRun_write_of_disjoint ?_
    rw [hlen]
    rcases lt_or_ge i a with hlt | hge
    · have hle : (i + 1) * w ≤ a * w := Nat.mul_le_mul_right w hlt
      rw [add_mul, one_mul] at hle
      omega
    · have hle : (a + cells.length) * w ≤ i * w := Nat.mul_le_mul_right w (by omega)
      rw [add_mul] at hle
      omega

theorem read_cells (off a n : Nat) (mem : Nat → α) :
    readRun mem (off + a * w) (n * w) =
      ((range n).map fun i => cell w off mem (a + i)).flatten := by
  induction n with
  | zero => simp [readRun]
  | succ n ih =>
    rw [Nat.succ_mul, readRun_add, ih, range_succ, map_append, flatten_append]
    simp [cell, add_mul, add_assoc]

end

end Amdkfd.Lib
