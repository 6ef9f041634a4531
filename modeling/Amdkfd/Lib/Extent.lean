import Mathlib.Algebra.Ring.Nat
import Mathlib.Order.Interval.Finset.Nat

/-!
# Extents of an address space

An extent is a start and a size. The number of addresses below a limit in disjoint extents is the
sum of what each has below it.

* `card_bytesBelow`: that sum.
* `contains_of_sum`: disjoint extents inside a range that add up to its size cover it.
* `locate_drop`: places counted over a list of extents, once the front of the first is dropped.
* `endOf_add`, `dvd_endOf`: where the extent of a place ends.
* `end_le_of_adjacent`, `exists_last_of_adjacent`, `locate_of_adjacent`: extents that follow one
  another without a gap are one extent.
-/

namespace Amdkfd.Lib

open List Option

structure Extent where
  start : ℕ
  size : ℕ
  deriving DecidableEq

namespace Extent

def Contains (e : Extent) (a : ℕ) : Prop := e.start ≤ a ∧ a < e.start + e.size
  deriving Decidable

def Apart (e f : Extent) : Prop := e.start + e.size ≤ f.start ∨ f.start + f.size ≤ e.start
  deriving Decidable

/-- The number of addresses of the extent below `v`. -/
def below (v : ℕ) (e : Extent) : ℕ := min (e.start + e.size) v - e.start

theorem Apart.symm {e f : Extent} (h : e.Apart f) : f.Apart e := Or.symm h

theorem Apart.not_contains {e f : Extent} (h : e.Apart f) {a : ℕ} (he : e.Contains a) :
    ¬ f.Contains a := by
  intro hf
  obtain ⟨h1, h2⟩ := he
  obtain ⟨h3, h4⟩ := hf
  rcases h with h | h <;> omega

def bytesBelow (v : ℕ) (es : List Extent) : Finset ℕ :=
  (Finset.range v).filter fun a => ∃ e ∈ es, e.Contains a

variable {es : List Extent} {e : Extent} {k : ℕ}

theorem mem_bytesBelow {v a : ℕ} : a ∈ bytesBelow v es ↔ a < v ∧ ∃ e ∈ es, e.Contains a := by
  simp [bytesBelow]

theorem bytesBelow_cons (v : ℕ) (e : Extent) (es : List Extent) :
    bytesBelow v (e :: es) = Finset.Ico e.start (min (e.start + e.size) v) ∪ bytesBelow v es := by
  ext a
  simp only [mem_bytesBelow, Finset.mem_union, Finset.mem_Ico, mem_cons, exists_eq_or_imp,
    Contains, lt_min_iff]
  tauto

theorem card_bytesBelow (v : ℕ) (h : es.Pairwise Apart) :
    (bytesBelow v es).card = (es.map (below v)).sum := by
  induction es with
  | nil => simp [bytesBelow]
  | cons e es ih =>
    obtain ⟨hhead, htail⟩ := pairwise_cons.mp h
    have hdisj : Disjoint (Finset.Ico e.start (min (e.start + e.size) v)) (bytesBelow v es) := by
      rw [Finset.disjoint_left]
      intro a ha hb
      rw [Finset.mem_Ico, lt_min_iff] at ha
      obtain ⟨-, f, hf, hfa⟩ := mem_bytesBelow.mp hb
      exact (hhead f hf).not_contains ⟨ha.1, ha.2.1⟩ hfa
    rw [bytesBelow_cons, Finset.card_union_of_disjoint hdisj, ih htail, Nat.card_Ico,
      map_cons, sum_cons]
    rfl

theorem contains_of_sum {start size : ℕ} (h : es.Pairwise Apart)
    (hin : ∀ e ∈ es, start ≤ e.start ∧ e.start + e.size ≤ start + size)
    (hsum : (es.map Extent.size).sum = size) {a : ℕ} (ha : start ≤ a) (hlt : a < start + size) :
    ∃ e ∈ es, e.Contains a := by
  have hbelow : es.map (below (start + size)) = es.map Extent.size := by
    refine map_congr_left fun e he => ?_
    obtain ⟨h1, h2⟩ := hin e he
    rw [below, min_eq_left h2, Nat.add_sub_cancel_left]
  have hsub : bytesBelow (start + size) es ⊆ Finset.Ico start (start + size) := by
    intro b hb
    obtain ⟨hlt, e, he, hc, -⟩ := mem_bytesBelow.mp hb
    exact Finset.mem_Ico.mpr ⟨(hin e he).1.trans hc, hlt⟩
  have hcard : (Finset.Ico start (start + size)).card ≤ (bytesBelow (start + size) es).card := by
    rw [card_bytesBelow _ h, hbelow, Nat.card_Ico, Nat.add_sub_cancel_left]
    exact hsum.ge
  have hall := Finset.eq_of_subset_of_card_le hsub hcard
  have hmem : a ∈ bytesBelow (start + size) es := hall ▸ Finset.mem_Ico.mpr ⟨ha, hlt⟩
  exact (mem_bytesBelow.mp hmem).2

/-- The address of place `k`, counted over the extents one after the other. -/
def locate : List Extent → ℕ → Option ℕ
  | [], _ => none
  | e :: es, k => if k < e.size then some (e.start + k) else locate es (k - e.size)

def total (es : List Extent) : ℕ := (es.map size).sum

@[simp] theorem total_cons (e : Extent) (es : List Extent) : total (e :: es) = e.size + total es :=
  rfl

theorem locate_head (h : k < e.size) : locate (e :: es) k = some (e.start + k) := if_pos h

theorem locate_tail (h : e.size ≤ k) :
    locate (e :: es) k = locate es (k - e.size) := if_neg (not_lt.mpr h)

theorem locate_tail_add (e : Extent) (es : List Extent) (k : ℕ) :
    locate (e :: es) (e.size + k) = locate es k := by
  rw [locate_tail (Nat.le_add_right ..), Nat.add_sub_cancel_left]

theorem contains_of_locate {k a : ℕ} (h : locate es k = some a) : ∃ e ∈ es, e.Contains a := by
  induction es generalizing k with
  | nil => cases h
  | cons e es ih =>
    rcases lt_or_ge k e.size with hlt | hge
    · rw [locate_head hlt] at h
      obtain rfl := some.inj h
      exact ⟨e, mem_cons_self, Nat.le_add_right _ _, Nat.add_lt_add_left hlt _⟩
    · obtain ⟨f, hf, hfa⟩ := ih ((locate_tail hge).symm.trans h)
      exact ⟨f, mem_cons_of_mem e hf, hfa⟩

/-- Extents that are apart have every address at one place. -/
theorem locate_inj {i j a : ℕ} (hapart : es.Pairwise Apart) (hi : locate es i = some a)
    (hj : locate es j = some a) : i = j := by
  induction es generalizing i j with
  | nil => cases hi
  | cons e es ih =>
    obtain ⟨hhead, htail⟩ := pairwise_cons.mp hapart
    -- an address of the first extent is at no place of the others
    have hout {i j : ℕ} (hlt : i < e.size) (hge : e.size ≤ j)
        (hi : locate (e :: es) i = some a) (hj : locate (e :: es) j = some a) : False := by
      rw [locate_head hlt] at hi
      rw [locate_tail hge] at hj
      obtain ⟨f, hf, hfa⟩ := contains_of_locate hj
      obtain rfl := some.inj hi
      have hin : e.Contains (e.start + i) := ⟨Nat.le_add_right _ _, Nat.add_lt_add_left hlt _⟩
      exact (hhead f hf).not_contains hin hfa
    rcases lt_or_ge i e.size with hlt | hge <;> rcases lt_or_ge j e.size with hlt' | hge'
    · rw [locate_head hlt] at hi
      rw [locate_head hlt'] at hj
      exact Nat.add_left_cancel (some.inj (hi.trans hj.symm))
    · exact (hout hlt hge' hi hj).elim
    · exact (hout hlt' hge hj hi).elim
    · rw [locate_tail hge] at hi
      rw [locate_tail hge'] at hj
      have := ih htail hi hj
      omega

theorem locate_drop {start size n k : ℕ} (h : n ≤ size) :
    locate (⟨start + n, size - n⟩ :: es) k = locate (⟨start, size⟩ :: es) (n + k) := by
  rcases lt_or_ge (n + k) size with hlt | hge
  · have hleft : locate (⟨start + n, size - n⟩ :: es) k = some (start + n + k) :=
      locate_head (show k < size - n by omega)
    have hright : locate (⟨start, size⟩ :: es) (n + k) = some (start + (n + k)) := locate_head hlt
    rw [hleft, hright, add_assoc]
  · have hleft : locate (⟨start + n, size - n⟩ :: es) k = locate es (k - (size - n)) :=
      locate_tail (show size - n ≤ k by omega)
    have hright : locate (⟨start, size⟩ :: es) (n + k) = locate es (n + k - size) :=
      locate_tail hge
    rw [hleft, hright]
    congr 1
    omega

/-- The place after the extent of place `k`, counted over the extents one after the other. -/
def endOf : List Extent → ℕ → ℕ
  | [], _ => 0
  | e :: es, k => if k < e.size then e.size else e.size + endOf es (k - e.size)

theorem endOf_head (h : k < e.size) : endOf (e :: es) k = e.size := if_pos h

theorem endOf_tail (h : e.size ≤ k) :
    endOf (e :: es) k = e.size + endOf es (k - e.size) := if_neg (not_lt.mpr h)

theorem endOf_add {k n : ℕ} (h : k + n < endOf es k) : endOf es (k + n) = endOf es k := by
  induction es generalizing k with
  | nil => exact absurd h (Nat.not_lt_zero _)
  | cons e es ih =>
    rcases lt_or_ge k e.size with hlt | hge
    · rw [endOf_head hlt] at h ⊢
      exact endOf_head h
    · rw [endOf_tail hge] at h ⊢
      rw [endOf_tail (hge.trans (Nat.le_add_right k n)), Nat.sub_add_comm hge, ih (by omega)]

theorem dvd_endOf {d : ℕ} (h : ∀ e ∈ es, d ∣ e.size) (k : ℕ) : d ∣ endOf es k := by
  induction es generalizing k with
  | nil => exact ⟨0, rfl⟩
  | cons e es ih =>
    obtain ⟨he, hes⟩ := forall_mem_cons.mp h
    rcases lt_or_ge k e.size with hlt | hge
    · rwa [endOf_head hlt]
    · rw [endOf_tail hge]
      exact Nat.dvd_add he (ih hes _)

/-! ### Without a gap -/

def Adjacent (e f : Extent) : Prop := e.start + e.size = f.start
  deriving Decidable

section
variable (h : (e :: es).IsChain Adjacent)
include h

theorem end_le_of_adjacent : ∀ f ∈ e :: es, f.start + f.size ≤ e.start + total (e :: es) := by
  induction es generalizing e with
  | nil =>
    intro f hf
    rw [mem_singleton.mp hf]
    exact Nat.add_le_add_left (Nat.le_add_right ..) _
  | cons e' es ih =>
    obtain ⟨hadj, htail⟩ := isChain_cons_cons.mp h
    have hadj : e.start + e.size = e'.start := hadj
    intro f hf
    rw [total_cons]
    obtain rfl | hf := mem_cons.mp hf
    · omega
    · have := ih htail f hf
      omega

theorem exists_last_of_adjacent : ∃ f ∈ e :: es, f.start + f.size = e.start + total (e :: es) := by
  induction es generalizing e with
  | nil => exact ⟨e, mem_cons_self, rfl⟩
  | cons e' es ih =>
    obtain ⟨hadj, htail⟩ := isChain_cons_cons.mp h
    have hadj : e.start + e.size = e'.start := hadj
    obtain ⟨f, hf, hend⟩ := ih htail
    refine ⟨f, mem_cons_of_mem _ hf, ?_⟩
    rw [hend, total_cons e]
    omega

theorem locate_of_adjacent (hk : k < total (e :: es)) :
    locate (e :: es) k = some (e.start + k) := by
  induction es generalizing e k with
  | nil => exact locate_head hk
  | cons e' es ih =>
    obtain ⟨hadj, htail⟩ := isChain_cons_cons.mp h
    have hadj : e.start + e.size = e'.start := hadj
    obtain hlt | hge := lt_or_ge k e.size
    · exact locate_head hlt
    · rw [total_cons] at hk
      rw [locate_tail hge, ih htail (by omega)]
      congr 1
      omega

end

end Extent

end Amdkfd.Lib
