import Mathlib.Data.List.Perm.Basic

/-!
# Interval maps

A partial map on the natural numbers that is constant on intervals is kept as a
list of pieces, each an interval with a value. `Represents` relates the two: the
pieces are disjoint and the map has the value of the piece that covers a number.
The operations on the pieces are stated as operations on the map.
-/

namespace Amdkfd.Lib

open List

variable {α : Type*}

/-- A value on the interval from `lo` to `hi`, both included. -/
structure Piece (α : Type*) where
  lo : Nat
  hi : Nat
  val : α

/-- The piece has the number `x`. -/
def Piece.Covers (p : Piece α) (x : Nat) : Prop :=
  p.lo ≤ x ∧ x ≤ p.hi
  deriving Decidable

def Piece.Apart (p q : Piece α) : Prop :=
  p.hi < q.lo ∨ q.hi < p.lo

theorem Piece.Apart.symm {p q : Piece α} (h : p.Apart q) : q.Apart p :=
  Or.symm h

theorem Piece.Apart.not_covers {p q : Piece α} (h : p.Apart q) {x : Nat} (hp : p.Covers x) :
    ¬q.Covers x := by
  rintro ⟨h1, h2⟩
  obtain ⟨h3, h4⟩ := hp
  rcases h with h | h <;> omega

/-- The map with the value `v` on an interval. -/
def fill (m : Nat → Option α) (lo hi : Nat) (v : α) : Nat → Option α :=
  fun x => if lo ≤ x ∧ x ≤ hi then some v else m x

def erase (m : Nat → Option α) (lo hi : Nat) : Nat → Option α :=
  fun x => if lo ≤ x ∧ x ≤ hi then none else m x

/-- The map updated by `f` from `lo` up to, but not including, `hi`, where `d`
stands for a missing value. -/
def modifyOn (f : α → α) (d : α) (m : Nat → Option α) (lo hi : Nat) : Nat → Option α :=
  fun x => if lo ≤ x ∧ x < hi then some (f ((m x).getD d)) else m x

structure Represents (ps : List (Piece α)) (m : Nat → Option α) : Prop where
  nonempty : ∀ p ∈ ps, p.lo ≤ p.hi
  disjoint : ps.Pairwise Piece.Apart
  value : ∀ x a, m x = some a ↔ ∃ p ∈ ps, p.Covers x ∧ p.val = a

section Represents
variable {ps qs : List (Piece α)} {p : Piece α} {m m' : Nat → Option α}

theorem represents_nil : Represents ([] : List (Piece α)) (fun _ => none) :=
  ⟨by simp, .nil, by simp⟩

section
variable (h : Represents ps m)
include h

theorem Represents.perm (hperm : ps.Perm qs) : Represents qs m := by
  refine ⟨fun p hp => h.nonempty p (hperm.mem_iff.mpr hp),
    hperm.pairwise h.disjoint fun hpq => hpq.symm, fun x a => ?_⟩
  rw [h.value]
  constructor
  · rintro ⟨p, hp, hx⟩
    exact ⟨p, hperm.mem_iff.mp hp, hx⟩
  · rintro ⟨p, hp, hx⟩
    exact ⟨p, hperm.mem_iff.mpr hp, hx⟩

theorem Represents.congr (heq : ∀ x, m' x = m x) : Represents ps m' := by
  obtain rfl : m' = m := funext heq
  exact h

theorem Represents.eq_some (hp : p ∈ ps) {x : Nat} (hx : p.Covers x) : m x = some p.val :=
  (h.value x p.val).mpr ⟨p, hp, hx, rfl⟩

theorem Represents.eq_none {x : Nat} (hx : ∀ p ∈ ps, ¬p.Covers x) : m x = none := by
  cases hm : m x with
  | none => rfl
  | some a =>
    obtain ⟨p, hp, hcovers, -⟩ := (h.value x a).mp hm
    exact absurd hcovers (hx p hp)

theorem Represents.unique (h' : Represents ps m') : m = m' := by
  funext x
  refine Option.ext fun a => ?_
  rw [h.value, h'.value]

theorem Represents.not_covers (hp : p ∈ ps) {x : Nat} (hm : m x = none) : ¬p.Covers x := by
  intro hx
  rw [h.eq_some hp hx] at hm
  cases hm

theorem Represents.cons (hp : p.lo ≤ p.hi) (hfree : ∀ x, p.Covers x → m x = none) :
    Represents (p :: ps) (fill m p.lo p.hi p.val) := by
  refine ⟨?_, ?_, fun x a => ?_⟩
  · intro q hq
    rcases mem_cons.mp hq with rfl | hq
    · exact hp
    · exact h.nonempty q hq
  · refine pairwise_cons.mpr ⟨fun q hq => ?_, h.disjoint⟩
    -- An overlap would have its larger lower bound in both pieces.
    by_contra hov
    have hcovers : p.Covers (max p.lo q.lo) ∧ q.Covers (max p.lo q.lo) := by
      have := h.nonempty q hq
      simp only [Piece.Apart, not_or, Nat.not_lt] at hov
      simp only [Piece.Covers]
      omega
    exact h.not_covers hq (hfree _ hcovers.1) hcovers.2
  · simp only [fill, mem_cons, exists_eq_or_imp]
    change (if p.Covers x then some p.val else m x) = some a ↔ _
    by_cases hx : p.Covers x
    · rw [if_pos hx]
      constructor
      · intro ha
        exact .inl ⟨hx, Option.some_inj.mp ha⟩
      · rintro (⟨-, rfl⟩ | ⟨q, hq, hqx, -⟩)
        · rfl
        · exact absurd hqx (h.not_covers hq (hfree x hx))
    · rw [if_neg hx, h.value]
      constructor
      · exact .inr
      · rintro (⟨hx', -⟩ | hq)
        · exact absurd hx' hx
        · exact hq

end

theorem Represents.tail (h : Represents (p :: ps) m) : Represents ps (erase m p.lo p.hi) := by
  obtain ⟨happart, hdisjoint⟩ := pairwise_cons.mp h.disjoint
  refine ⟨fun q hq => h.nonempty q (mem_cons_of_mem p hq), hdisjoint, fun x a => ?_⟩
  simp only [erase]
  split
  · next hx =>
    constructor
    · intro ha
      cases ha
    · rintro ⟨q, hq, hqx, -⟩
      exact absurd hqx ((happart q hq).not_covers hx)
  · next hx =>
    rw [h.value]
    constructor
    · rintro ⟨q, hq, hqx, hval⟩
      rcases mem_cons.mp hq with rfl | hq
      · exact absurd hqx hx
      · exact ⟨q, hq, hqx, hval⟩
    · rintro ⟨q, hq, hqx, hval⟩
      exact ⟨q, mem_cons_of_mem p hq, hqx, hval⟩

theorem Represents.head_free (h : Represents (p :: ps) m) (hsub : ∀ q ∈ qs, q ∈ ps)
    (hqs : Represents qs m') {x : Nat} (hx : p.Covers x) : m' x = none :=
  hqs.eq_none fun q hq =>
    ((pairwise_cons.mp h.disjoint).1 q (hsub q hq)).not_covers hx

theorem modifyOn_eq_fill {f : α → α} {d : α} {lo hi : Nat}
    (hfree : ∀ x, lo ≤ x ∧ x ≤ hi → m x = none) :
    modifyOn f d m lo (hi + 1) = fill m lo hi (f d) := by
  funext x
  unfold modifyOn fill
  by_cases hx : lo ≤ x ∧ x ≤ hi
  · rw [if_pos hx, if_pos ⟨hx.1, Nat.lt_succ_of_le hx.2⟩, hfree x hx]
    rfl
  · rw [if_neg hx, if_neg fun h => hx ⟨h.1, Nat.le_of_lt_succ h.2⟩]

theorem Represents.setVal (h : Represents (p :: ps) m) (v : α) :
    Represents ({ p with val := v } :: ps) (fill m p.lo p.hi v) := by
  have hnonempty := h.nonempty p mem_cons_self
  refine (h.tail.cons (p := { p with val := v }) hnonempty fun x hx => if_pos hx).congr fun x => ?_
  simp only [fill, erase]
  split <;> rfl

theorem Represents.split (h : Represents (p :: ps) m) {mid : Nat} (hlo : p.lo < mid)
    (hhi : mid ≤ p.hi) :
    Represents ({ p with hi := mid - 1 } :: { p with lo := mid } :: ps) m := by
  have hright := h.tail.cons (p := { p with lo := mid }) hhi fun x hx =>
    if_pos ⟨by have := hx.1; simp only at this; omega, hx.2⟩
  have hleft := hright.cons (p := { p with hi := mid - 1 }) (by simp only; omega) fun x hx => by
    obtain ⟨h1, h2⟩ := hx
    simp only at h1 h2
    rw [fill, if_neg (by simp only; omega), erase, if_pos (by omega)]
  refine hleft.congr fun x => ?_
  simp only [fill, erase]
  split
  · next hx => exact h.eq_some mem_cons_self ⟨hx.1, by omega⟩
  · split
    · next hx => exact h.eq_some mem_cons_self ⟨by omega, hx.2⟩
    · rw [if_neg (by omega)]

/-- What a piece keeps outside of the interval from `a` to `b`. -/
def Piece.cut (p : Piece α) (a b : Nat) : List (Piece α) :=
  (if p.lo < a then [{ p with hi := min p.hi (a - 1) }] else []) ++
    if b < p.hi then [{ p with lo := max p.lo (b + 1) }] else []

theorem Piece.cut_avoids {q : Piece α} {a b : Nat} (hq : q ∈ p.cut a b) : q.hi < a ∨ b < q.lo := by
  rcases mem_append.mp hq with hq | hq
  · split at hq
    · cases mem_singleton.mp hq
      simp only
      omega
    · exact absurd hq not_mem_nil
  · split at hq
    · cases mem_singleton.mp hq
      simp only
      omega
    · exact absurd hq not_mem_nil

theorem Piece.cut_covers {a b x : Nat} (hx : p.Covers x) (hout : ¬(a ≤ x ∧ x ≤ b)) :
    ∃ q ∈ p.cut a b, q.Covers x := by
  obtain ⟨hlo, hhi⟩ := hx
  unfold Piece.cut
  by_cases hleft : x < a
  · rw [if_pos (Nat.lt_of_le_of_lt hlo hleft)]
    exact ⟨_, mem_append_left _ (mem_singleton_self _), hlo,
      Nat.le_min.mpr ⟨hhi, by omega⟩⟩
  · have hright : b < x := by omega
    rw [if_pos (Nat.lt_of_lt_of_le hright hhi)]
    exact ⟨_, mem_append_right _ (mem_singleton_self _),
      Nat.max_le.mpr ⟨hlo, hright⟩, hhi⟩

theorem Piece.cut_of_avoids {a b : Nat} (hp : p.lo ≤ p.hi) (hab : a ≤ b)
    (h : p.hi < a ∨ b < p.lo) : p.cut a b = [p] := by
  unfold Piece.cut
  rcases h with h | h
  · rw [if_pos (by omega), if_neg (by omega), Nat.min_eq_left (by omega)]
    rfl
  · rw [if_neg (by omega), if_pos (by omega), Nat.max_eq_left (by omega)]
    rfl

section CutCases
variable {a b : Nat}

theorem Piece.cut_tail (hlo : p.lo < a) (ha : a ≤ p.hi) (hb : p.hi ≤ b) :
    p.cut a b = [{ p with hi := a - 1 }] := by
  unfold Piece.cut
  rw [if_pos hlo, if_neg (by omega), Nat.min_eq_right (by omega)]
  rfl

theorem Piece.cut_head (hlo : a ≤ p.lo) (hb : p.lo ≤ b) (hhi : b < p.hi) :
    p.cut a b = [{ p with lo := b + 1 }] := by
  unfold Piece.cut
  rw [if_neg (by omega), if_pos hhi, Nat.max_eq_right (by omega)]
  rfl

theorem Piece.cut_middle (hlo : p.lo < a) (hab : a ≤ b) (hhi : b < p.hi) :
    p.cut a b = [{ p with hi := a - 1 }, { p with lo := b + 1 }] := by
  unfold Piece.cut
  rw [if_pos hlo, if_pos hhi, Nat.min_eq_right (by omega), Nat.max_eq_right (by omega)]
  rfl

theorem Piece.cut_whole (hlo : a ≤ p.lo) (hhi : p.hi ≤ b) : p.cut a b = [] := by
  unfold Piece.cut
  rw [if_neg (by omega), if_neg (by omega)]
  rfl

end CutCases

theorem Represents.cut (h : Represents (p :: ps) m) {a b : Nat} (hab : a ≤ b) :
    Represents (p.cut a b ++ ps) (fun x => if (a ≤ x ∧ x ≤ b) ∧ p.Covers x then none else m x) := by
  have hp := h.nonempty p mem_cons_self
  have hval : ∀ x, p.Covers x → m x = some p.val := fun x => h.eq_some mem_cons_self
  have hright : Represents ((if b < p.hi then [{ p with lo := max p.lo (b + 1) }] else []) ++ ps)
      (fun x => if p.Covers x then if b < x then some p.val else none else m x) := by
    split
    · next hb =>
      refine (h.tail.cons (p := { p with lo := max p.lo (b + 1) }) (by simp only; omega)
        fun x hx => if_pos ⟨Nat.le_trans (Nat.le_max_left _ _) hx.1, hx.2⟩).congr fun x => ?_
      unfold fill erase
      dsimp only
      by_cases hx : p.Covers x
      · rw [if_pos hx, if_pos (c := p.lo ≤ x ∧ x ≤ p.hi) hx]
        obtain ⟨hlo, hhi⟩ := hx
        by_cases hbx : b < x
        · rw [if_pos hbx, if_pos (by omega)]
        · rw [if_neg hbx, if_neg (by omega)]
      · rw [if_neg hx, if_neg (c := p.lo ≤ x ∧ x ≤ p.hi) hx]
        unfold Piece.Covers at hx
        rw [if_neg (by omega)]
    · next hb =>
      refine h.tail.congr fun x => ?_
      unfold erase
      by_cases hx : p.Covers x
      · rw [if_pos hx, if_pos (c := p.lo ≤ x ∧ x ≤ p.hi) hx]
        obtain ⟨hlo, hhi⟩ := hx
        rw [if_neg (by omega)]
      · rw [if_neg hx, if_neg (c := p.lo ≤ x ∧ x ≤ p.hi) hx]
  have hleft : Represents (p.cut a b ++ ps)
      (fun x => if p.Covers x then if x < a ∨ b < x then some p.val else none else m x) := by
    unfold Piece.cut
    rw [append_assoc]
    split
    · next ha =>
      refine (hright.cons (p := { p with hi := min p.hi (a - 1) }) (by simp only; omega)
        fun x hx => ?_).congr fun x => ?_
      · obtain ⟨h1, h2⟩ := hx
        simp only at h1 h2
        rw [if_pos ⟨h1, by omega⟩, if_neg (by omega)]
      · unfold fill
        dsimp only
        by_cases hx : p.Covers x
        · rw [if_pos hx, if_pos hx]
          obtain ⟨hlo, hhi⟩ := hx
          by_cases hxa : x < a
          · rw [if_pos (.inl hxa), if_pos (by omega)]
          · simp only [hxa, false_or]
            rw [if_neg (c := p.lo ≤ x ∧ x ≤ _) (by omega)]
        · rw [if_neg hx, if_neg hx]
          unfold Piece.Covers at hx
          rw [if_neg (by omega)]
    · next ha =>
      refine hright.congr fun x => ?_
      by_cases hx : p.Covers x
      · have hxa : ¬x < a := by
          have := hx.1
          omega
        simp only [hxa, false_or]
      · rw [if_neg hx, if_neg hx]
  refine hleft.congr fun x => ?_
  by_cases hx : p.Covers x
  · rw [if_pos hx]
    by_cases hin : a ≤ x ∧ x ≤ b
    · rw [if_pos ⟨hin, hx⟩, if_neg (by omega)]
    · rw [if_neg (fun h => hin h.1), if_pos (by omega), hval x hx]
  · rw [if_neg hx, if_neg fun h => hx h.2]

end Represents

end Amdkfd.Lib
