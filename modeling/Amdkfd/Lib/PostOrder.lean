import Mathlib.Data.List.Basic
import Mathlib.Data.Nat.Basic
import Mathlib.Order.Basic

/-!
# Trees of paths in post-order

A node of a tree is the list of the indices that lead to it, the last one first. `kids p` is the
number of children of a node.

* `mem_below`: a walk in post-order has the nodes below its root.
* `below_pairwise`: each once, and children before their parents.
* `belowFrom_eq_below`, `exists_not_mem_belowFrom`: a walk that does not go into the first children
  leaves nodes out.
-/

namespace Amdkfd.Lib.PostOrder

open List

variable (kids : List ℕ → ℕ)

inductive Node : List ℕ → Prop
  | root : Node []
  | child {p : List ℕ} {i : ℕ} : Node p → i < kids p → Node (i :: p)

/-- The nodes below `p` in post-order, to a depth. -/
def below : ℕ → List ℕ → List (List ℕ)
  | 0, _ => []
  | d + 1, p => (range' 0 (kids p)).flatMap fun i => below d (i :: p) ++ [i :: p]

/-- The nodes below `p` from the end of a first path on, which goes from `q` to child `first q`. -/
def belowFrom (first : List ℕ → ℕ) : ℕ → List ℕ → List (List ℕ)
  | 0, _ => []
  | d + 1, p =>
    if kids p = 0 then []
    else
      belowFrom first d (first p :: p) ++ (first p :: p) ::
        (range' (first p + 1) (kids p - (first p + 1))).flatMap fun i =>
          below kids d (i :: p) ++ [i :: p]

def AtFirst (first : List ℕ → ℕ) : ℕ → List ℕ → Prop
  | 0, _ => True
  | d + 1, p => kids p ≠ 0 → first p = 0 ∧ AtFirst first d (0 :: p)

variable {kids} {first : List ℕ → ℕ} {d : ℕ} {p e : List ℕ}

theorem child_unique {i j : ℕ} (hi : i :: p <:+ e) (hj : j :: p <:+ e) : i = j := by
  have hsuffix := suffix_of_suffix_length_le hi hj (le_refl _)
  exact (cons.inj (hsuffix.eq_of_length (by rfl))).1

theorem suffix_of_child {i : ℕ} (h : i :: p <:+ e) : p <:+ e ∧ p.length < e.length :=
  ⟨(suffix_cons i p).trans h, h.length_le⟩

theorem below_suffix (h : e ∈ below kids d p) : p <:+ e ∧ p.length < e.length := by
  induction d generalizing p with
  | zero => exact absurd h not_mem_nil
  | succ d ih =>
    obtain ⟨i, -, he⟩ := mem_flatMap.mp h
    rcases mem_append.mp he with he | he
    · exact suffix_of_child (ih he).1
    · obtain rfl := mem_singleton.mp he
      exact suffix_of_child suffix_rfl

theorem block_suffix {i : ℕ} (h : e ∈ below kids d (i :: p) ++ [i :: p]) : i :: p <:+ e := by
  rcases mem_append.mp h with h | h
  · exact (below_suffix h).1
  · exact mem_singleton.mp h ▸ suffix_rfl

theorem Node.below_cases (h : Node kids e) (hp : p <:+ e) (hne : e ≠ p) :
    ∃ i < kids p, i :: p <:+ e := by
  induction h with
  | root =>
    exact absurd (suffix_nil.mp hp).symm hne
  | @child q i hq hi ih =>
    rcases suffix_cons_iff.mp hp with rfl | hp
    · exact absurd rfl hne
    · rcases eq_or_ne q p with rfl | hqp
      · exact ⟨i, hi, suffix_rfl⟩
      · obtain ⟨j, hj, hsuffix⟩ := ih hp hqp
        exact ⟨j, hj, hsuffix.trans (suffix_cons i q)⟩

theorem mem_below (hroot : Node kids p)
    (hdepth : ∀ q, p <:+ q → p.length + d ≤ q.length → kids q = 0) :
    e ∈ below kids d p ↔ Node kids e ∧ p <:+ e ∧ e ≠ p := by
  induction d generalizing p with
  | zero =>
    refine iff_of_false not_mem_nil ?_
    rintro ⟨he, hp, hne⟩
    obtain ⟨i, hi, -⟩ := he.below_cases hp hne
    rw [hdepth p suffix_rfl (le_refl _)] at hi
    exact absurd hi (Nat.not_lt_zero i)
  | succ d ih =>
    have hchild : ∀ i < kids p, (e ∈ below kids d (i :: p) ↔
        Node kids e ∧ i :: p <:+ e ∧ e ≠ i :: p) := by
      intro i hi
      refine ih (.child hroot hi) fun q hq hlen => hdepth q (suffix_of_child hq).1 ?_
      rw [length_cons] at hlen
      omega
    rw [below, mem_flatMap]
    constructor
    · rintro ⟨i, hi, he⟩
      have hi := (mem_range'_1.mp hi).2
      rw [Nat.zero_add] at hi
      obtain ⟨hp, hlt⟩ := suffix_of_child (block_suffix he)
      refine ⟨?_, hp, fun heq => absurd hlt (by rw [heq]; exact lt_irrefl _)⟩
      rcases mem_append.mp he with he | he
      · exact ((hchild i hi).mp he).1
      · exact mem_singleton.mp he ▸ .child hroot hi
    · rintro ⟨he, hp, hne⟩
      obtain ⟨i, hi, hsuffix⟩ := he.below_cases hp hne
      refine ⟨i, mem_range'_1.mpr ⟨Nat.zero_le i, by rwa [Nat.zero_add]⟩, ?_⟩
      rcases eq_or_ne e (i :: p) with rfl | hei
      · exact mem_append_right _ (mem_singleton_self _)
      · exact mem_append_left _ ((hchild i hi).mpr ⟨he, hsuffix, hei⟩)

theorem below_pairwise : (below kids d p).Pairwise fun x y => ¬ x <:+ y := by
  induction d generalizing p with
  | zero => exact .nil
  | succ d ih =>
    rw [below, pairwise_flatMap]
    constructor
    · intro i _
      refine pairwise_append.mpr ⟨ih, pairwise_singleton _ _, fun x hx y hy => ?_⟩
      obtain rfl := mem_singleton.mp hy
      exact fun hsuffix => absurd hsuffix.length_le (not_le.mpr (below_suffix hx).2)
    · refine List.Pairwise.imp (fun {i j} hij x hx y hy hsuffix => ?_)
        (pairwise_lt_range' 1)
      exact absurd (child_unique ((block_suffix hx).trans hsuffix) (block_suffix hy)) hij.ne

theorem belowFrom_eq_below (h : AtFirst kids first d p) :
    belowFrom kids first d p = below kids d p := by
  induction d generalizing p with
  | zero => rfl
  | succ d ih =>
    rw [belowFrom, below]
    rcases Nat.eq_zero_or_pos (kids p) with hzero | hpos
    · rw [if_pos hzero, hzero]
      rfl
    · obtain ⟨hfirst, hrest⟩ := h hpos.ne'
      obtain ⟨n, hn⟩ := Nat.exists_eq_succ_of_ne_zero hpos.ne'
      rw [if_neg hpos.ne', hfirst, ih hrest, hn, range'_succ, flatMap_cons,
        append_assoc]
      rfl

theorem belowFrom_suffix (h : e ∈ belowFrom kids first (d + 1) p) :
    ∃ i, first p ≤ i ∧ i :: p <:+ e ∧ (i = first p → e ∈ belowFrom kids first d (i :: p) ∨
      e = i :: p) := by
  have hlater : ∀ {d : ℕ} {p e : List ℕ}, e ∈ belowFrom kids first d p → p <:+ e := by
    intro d
    induction d with
    | zero => exact fun h => absurd h not_mem_nil
    | succ d ih =>
      intro p e h
      unfold belowFrom at h
      split at h
      · exact absurd h not_mem_nil
      · rcases mem_append.mp h with h | h
        · exact (suffix_of_child (ih h)).1
        · rcases mem_cons.mp h with rfl | h
          · exact suffix_cons _ p
          · obtain ⟨i, -, he⟩ := mem_flatMap.mp h
            exact (suffix_of_child (block_suffix he)).1
  unfold belowFrom at h
  split at h
  · exact absurd h not_mem_nil
  · rcases mem_append.mp h with h | h
    · exact ⟨first p, le_refl _, hlater h, fun _ => .inl h⟩
    · rcases mem_cons.mp h with rfl | h
      · exact ⟨first p, le_refl _, suffix_rfl, fun _ => .inr rfl⟩
      · obtain ⟨i, hi, he⟩ := mem_flatMap.mp h
        have hlt : first p < i := (mem_range'_1.mp hi).1
        exact ⟨i, hlt.le, block_suffix he, fun heq => absurd heq hlt.ne'⟩

theorem exists_not_mem_belowFrom (h : ¬ AtFirst kids first d p) :
    ∃ e ∈ below kids d p, e ∉ belowFrom kids first d p := by
  induction d generalizing p with
  | zero => exact absurd trivial h
  | succ d ih =>
    unfold AtFirst at h
    push Not at h
    obtain ⟨hkids, hfirst⟩ := h
    have hmem : ∀ {e : List ℕ}, e ∈ below kids d (0 :: p) ++ [0 :: p] → e ∈ below kids (d + 1) p :=
      fun he => mem_flatMap.mpr
        ⟨0, mem_range'_1.mpr ⟨le_refl 0, by omega⟩, he⟩
    rcases Nat.eq_zero_or_pos (first p) with hzero | hpos
    · obtain ⟨e, he, hnot⟩ := ih (hfirst hzero)
      refine ⟨e, hmem (mem_append_left _ he), fun hin => ?_⟩
      obtain ⟨hsuffix, hlen⟩ := below_suffix he
      obtain ⟨i, -, hi, hcase⟩ := belowFrom_suffix hin
      obtain rfl := child_unique hi hsuffix
      rcases hcase hzero.symm with hin | rfl
      · exact hnot hin
      · exact absurd hlen (lt_irrefl _)
    · refine ⟨0 :: p, hmem (mem_append_right _ (mem_singleton_self _)), fun hin => ?_⟩
      obtain ⟨i, hle, hi, -⟩ := belowFrom_suffix hin
      obtain rfl := child_unique hi suffix_rfl
      exact absurd hpos (not_lt.mpr hle)

end Amdkfd.Lib.PostOrder
