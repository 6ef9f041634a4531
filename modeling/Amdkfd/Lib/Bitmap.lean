import Mathlib.Order.Interval.Finset.Nat

/-!
# Bitmaps

A bitmap is the finite set of the indices of its set bits. The operations are
the kernel's: `bitmapSet`, `bitmapClear` on a run of bits, and
`findNextZeroBit`, which returns `size` when no clear bit is left, and `findFirstBit`. A word has a
set bit just when it is not 0.
-/

namespace Amdkfd.Lib

abbrev Bitmap := Finset Nat

/-- `bitmap_set(map, start, len)`. -/
def bitmapSet (map : Bitmap) (start len : Nat) : Bitmap :=
  map ∪ Finset.Ico start (start + len)

/-- `bitmap_clear(map, start, len)`. -/
def bitmapClear (map : Bitmap) (start len : Nat) : Bitmap :=
  map \ Finset.Ico start (start + len)

variable {map : Bitmap}

@[simp] theorem mem_bitmapSet {start len i : Nat} :
    i ∈ bitmapSet map start len ↔ i ∈ map ∨ (start ≤ i ∧ i < start + len) := by
  simp [bitmapSet]

@[simp] theorem mem_bitmapClear {start len i : Nat} :
    i ∈ bitmapClear map start len ↔ i ∈ map ∧ ¬ (start ≤ i ∧ i < start + len) := by
  simp [bitmapClear]

def scanZeroBit (map : Bitmap) : Nat → Nat → Nat
  | 0, offset => offset
  | left + 1, offset => if offset ∈ map then scanZeroBit map left (offset + 1) else offset

/-- `find_next_zero_bit(map, size, offset)`. -/
def findNextZeroBit (map : Bitmap) (size offset : Nat) : Nat :=
  if offset < size then scanZeroBit map (size - offset) offset else size

theorem scanZeroBit_spec (map : Bitmap) (left offset : Nat) :
    offset ≤ scanZeroBit map left offset ∧
    scanZeroBit map left offset ≤ offset + left ∧
    (∀ i, offset ≤ i → i < scanZeroBit map left offset → i ∈ map) ∧
    (scanZeroBit map left offset < offset + left → scanZeroBit map left offset ∉ map) := by
  induction left generalizing offset with
  | zero => simp [scanZeroBit]; omega
  | succ left ih =>
    unfold scanZeroBit
    split
    · next hmem =>
      obtain ⟨hge, hle, hset, hfree⟩ := ih (offset + 1)
      refine ⟨by omega, by omega, fun i hi hlt => ?_, fun hlt => hfree (by omega)⟩
      rcases Nat.eq_or_lt_of_le hi with rfl | hi
      · exact hmem
      · exact hset i hi hlt
    · next hmem => exact ⟨le_rfl, by omega, fun i hi hlt => by omega, fun _ => hmem⟩

variable {size offset : Nat}

theorem findNextZeroBit_ge (h : offset ≤ size) : offset ≤ findNextZeroBit map size offset := by
  unfold findNextZeroBit
  split
  · exact (scanZeroBit_spec map _ offset).1
  · exact h

theorem findNextZeroBit_le : findNextZeroBit map size offset ≤ size := by
  unfold findNextZeroBit
  split
  · have := (scanZeroBit_spec map (size - offset) offset).2.1
    omega
  · exact le_rfl

theorem findNextZeroBit_set {size offset i : Nat} (h : offset ≤ i)
    (hlt : i < findNextZeroBit map size offset) (hsize : offset < size) : i ∈ map := by
  unfold findNextZeroBit at hlt
  rw [if_pos hsize] at hlt
  exact (scanZeroBit_spec map _ offset).2.2.1 i h hlt

theorem findNextZeroBit_clear (hlt : findNextZeroBit map size offset < size) :
    findNextZeroBit map size offset ∉ map := by
  unfold findNextZeroBit at hlt ⊢
  split at hlt
  · next h =>
    rw [if_pos h]
    exact (scanZeroBit_spec map _ offset).2.2.2 (by omega)
  · exact absurd hlt (lt_irrefl _)

/-- `find_first_bit(map, size)`, which returns `size` when no bit is set. -/
def findFirstBit (map : Bitmap) (size : Nat) : Nat :=
  ((List.range size).find? (· ∈ map)).getD size

theorem findFirstBit_spec {size i : Nat} (hi : i ∈ map) (hlt : i < size) :
    (findFirstBit map size ∈ map ∧ findFirstBit map size < size) ∧ findFirstBit map size ≤ i := by
  unfold findFirstBit
  cases hfind : (List.range size).find? (· ∈ map) with
  | none =>
    have hnone := List.find?_eq_none.mp hfind i (List.mem_range.mpr hlt)
    exact absurd hi (by simpa using hnone)
  | some j =>
    obtain ⟨hj, hjlt, hbefore⟩ := List.find?_range_eq_some.mp hfind
    refine ⟨⟨of_decide_eq_true hj, List.mem_range.mp hjlt⟩, Nat.not_lt.mp fun hij => ?_⟩
    have hclear := hbefore i hij
    simp [hi] at hclear

theorem findFirstBit_mem {size i : Nat} (hi : i ∈ map) (hlt : i < size) :
    findFirstBit map size ∈ map ∧ findFirstBit map size < size :=
  (findFirstBit_spec hi hlt).1

theorem findFirstBit_le {size i : Nat} (hi : i ∈ map) (hlt : i < size) :
    findFirstBit map size ≤ i :=
  (findFirstBit_spec hi hlt).2

theorem word_ne_zero_iff {w : Nat} {word : BitVec w} : word ≠ 0 ↔ ∃ b, word.getLsbD b = true := by
  show word ≠ 0#w ↔ _
  constructor
  · intro hne
    by_contra hnone
    push Not at hnone
    refine hne (BitVec.eq_of_getLsbD_eq fun b _ => ?_)
    rw [BitVec.getLsbD_zero]
    exact Bool.eq_false_iff.mpr (hnone b)
  · rintro ⟨b, hbit⟩ rfl
    rw [BitVec.getLsbD_zero] at hbit
    cases hbit

end Amdkfd.Lib
