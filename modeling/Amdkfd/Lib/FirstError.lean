import Mathlib.Data.List.Basic

/-!
# Computations that stop at the first error

A C function that returns an error code is a pair of the state it leaves and the error, if any.
`andThen` goes on while there is none, `eachUntil` is a loop that is left at the first error of its
body. What such a loop returns can often be read off its input: `err before a` is the error of the
body at `a` when the elements `before` went well, `firstError` the error of the loop, and `seen` the
elements that the loop has looked at when it ends.
-/

namespace Amdkfd.Lib

open List

variable {σ ε α : Type*}

/-- `f`, unless there was an error before. -/
def andThen (x : σ × Option ε) (f : σ → σ × Option ε) : σ × Option ε :=
  match x with
  | (s, some e) => (s, some e)
  | (s, none) => f s

variable {x : σ × Option ε}

theorem andThen_none (h : x.2 = none) (f : σ → σ × Option ε) : andThen x f = f x.1 := by
  obtain ⟨s, r⟩ := x
  obtain rfl : r = none := h
  rfl

theorem andThen_some {e : ε} (h : x.2 = some e) (f : σ → σ × Option ε) : andThen x f = x := by
  obtain ⟨s, r⟩ := x
  obtain rfl : r = some e := h
  rfl

theorem andThen_inv {I : σ → Prop} {f : σ → σ × Option ε} (hx : I x.1)
    (hf : x.2 = none → I (f x.1).1) : I (andThen x f).1 := by
  cases h : x.2 with
  | none => rw [andThen_none h]; exact hf h
  | some e => rw [andThen_some h]; exact hx

/-- The loop over `as` that stops at the first error of its body. -/
def eachUntil (body : α → σ → σ × Option ε) : List α → σ → σ × Option ε
  | [], s => (s, none)
  | a :: as, s => andThen (body a s) (eachUntil body as)

/-- The first error, when `err before a` is the error at `a` after `before`. -/
def firstError (err : List α → α → Option ε) : List α → List α → Option ε
  | _, [] => none
  | before, a :: as => (err before a).or (firstError err (before ++ [a]) as)

/-- The elements up to the first error, that one included. -/
def seen (err : List α → α → Option ε) : List α → List α → List α
  | _, [] => []
  | before, a :: as =>
    a :: if err before a = none then seen err (before ++ [a]) as else []

theorem firstError_const (err : α → Option ε) (before as : List α) :
    firstError (fun _ => err) before as = as.findSome? err := by
  induction as generalizing before with
  | nil => rfl
  | cons a as ih =>
    rw [firstError, findSome?_cons, ih]
    cases err a <;> rfl

variable {body : α → σ → σ × Option ε} {err : List α → α → Option ε}

theorem eachUntil_inv {I : σ → Prop} {as : List α} (h : ∀ a ∈ as, ∀ s, I s → I (body a s).1)
    {s : σ} (hs : I s) : I (eachUntil body as s).1 := by
  induction as generalizing s with
  | nil => exact hs
  | cons a as ih =>
    exact andThen_inv (h a mem_cons_self s hs) fun _ =>
      ih (fun b hb => h b (mem_cons_of_mem a hb)) (h a mem_cons_self s hs)

theorem eachUntil_findSome {err : α → Option ε} (h : ∀ a s, (body a s).2 = err a) (as : List α)
    (s : σ) : (eachUntil body as s).2 = as.findSome? err := by
  induction as generalizing s with
  | nil => rfl
  | cons a as ih =>
    rw [eachUntil, findSome?_cons, ← h a s]
    cases he : (body a s).2 with
    | none => rw [andThen_none he, ih]
    | some e => rw [andThen_some he, he]

section
variable {P : α → Prop} {R : List α → σ → Prop}
  (herr : ∀ before a s, P a → R before s → (body a s).2 = err before a)
  (hstep : ∀ before a s, P a → R before s → err before a = none → R (before ++ [a]) (body a s).1)
include herr hstep

variable {s : σ} {before as : List α}

theorem eachUntil_error (has : ∀ a ∈ as, P a) (hs : R before s) :
    (eachUntil body as s).2 = firstError err before as := by
  induction as generalizing before s with
  | nil => rfl
  | cons a as ih =>
    obtain ⟨ha, has⟩ := forall_mem_cons.mp has
    have h := herr before a s ha hs
    rw [eachUntil, firstError]
    cases he : err before a with
    | none =>
      rw [andThen_none (h.trans he), Option.none_or]
      exact ih has (hstep before a s ha hs he)
    | some e => rw [andThen_some (h.trans he), h, he]; rfl

theorem eachUntil_all (has : ∀ a ∈ as, P a) (hs : R before s)
    (hnone : firstError err before as = none) : R (before ++ as) (eachUntil body as s).1 := by
  induction as generalizing before s with
  | nil => rwa [append_nil, eachUntil]
  | cons a as ih =>
    obtain ⟨ha, has⟩ := forall_mem_cons.mp has
    obtain ⟨hnow, hlater⟩ := Option.or_eq_none_iff.mp hnone
    rw [eachUntil, andThen_none ((herr before a s ha hs).trans hnow), append_cons]
    exact ih has (hstep before a s ha hs hnow) hlater

theorem eachUntil_spec {as : List α} (has : ∀ a ∈ as, P a) (hs : R [] s) :
    (eachUntil body as s).2 = firstError err [] as ∧
      (firstError err [] as = none → R as (eachUntil body as s).1) :=
  ⟨eachUntil_error herr hstep has hs, fun hnone => by
    have h := eachUntil_all herr hstep has hs hnone
    rwa [nil_append] at h⟩

theorem eachUntil_seen {Q : List α → σ → Prop}
    (hQ : ∀ before a s, P a → R before s → Q before s → Q (before ++ [a]) (body a s).1)
    (has : ∀ a ∈ as, P a) (hs : R before s) (hq : Q before s) :
    Q (before ++ seen err before as) (eachUntil body as s).1 := by
  induction as generalizing before s with
  | nil => simpa [seen, eachUntil] using hq
  | cons a as ih =>
    obtain ⟨ha, has⟩ := forall_mem_cons.mp has
    have h := herr before a s ha hs
    rw [eachUntil, seen]
    cases he : err before a with
    | none =>
      rw [andThen_none (h.trans he), if_pos rfl, append_cons]
      exact ih has (hstep before a s ha hs he) (hQ before a s ha hs hq)
    | some e =>
      rw [andThen_some (h.trans he), if_neg nofun]
      exact hQ before a s ha hs hq

end

/-! ### Loops in loops -/

theorem andThen_assoc (x : σ × Option ε) (f g : σ → σ × Option ε) :
    andThen (andThen x f) g = andThen x fun s => andThen (f s) g := by
  obtain ⟨s, r⟩ := x
  cases r with
  | none | some e => rfl

theorem eachUntil_append (as bs : List α) (s : σ) :
    eachUntil body (as ++ bs) s = andThen (eachUntil body as s) (eachUntil body bs) := by
  induction as generalizing s with
  | nil => rfl
  | cons a as ih =>
    rw [cons_append, eachUntil, eachUntil, andThen_assoc]
    congr 1
    funext s
    exact ih s

theorem eachUntil_map {β : Type*} (f : β → α) (bs : List β) (s : σ) :
    eachUntil body (bs.map f) s = eachUntil (fun b => body (f b)) bs s := by
  induction bs generalizing s with
  | nil => rfl
  | cons b bs ih =>
    rw [map_cons, eachUntil, eachUntil]
    congr 1
    funext s
    exact ih s

theorem eachUntil_flatMap {β : Type*} (f : β → List α) (bs : List β) (s : σ) :
    eachUntil (fun b => eachUntil body (f b)) bs s = eachUntil body (bs.flatMap f) s := by
  induction bs generalizing s with
  | nil => rfl
  | cons b bs ih =>
    rw [flatMap_cons, eachUntil_append, eachUntil]
    congr 1
    funext s
    exact ih s

theorem eachUntil_filter {p : α → Bool} (h : ∀ a s, p a = false → body a s = (s, none))
    (as : List α) (s : σ) : eachUntil body as s = eachUntil body (as.filter p) s := by
  induction as generalizing s with
  | nil => rfl
  | cons a as ih =>
    cases hp : p a with
    | false =>
      have hskip : ¬p a = true := Bool.eq_false_iff.mp hp
      rw [filter_cons_of_neg hskip, eachUntil, h a s hp, andThen_none rfl, ih]
    | true =>
      rw [filter_cons_of_pos hp, eachUntil, eachUntil]
      congr 1
      funext s
      exact ih s

/-- A loop of `n` rounds that is left at the first error. -/
def timesUntil (body : σ → σ × Option ε) : ℕ → σ → σ × Option ε
  | 0, s => (s, none)
  | n + 1, s => andThen (body s) (timesUntil body n)

theorem timesUntil_first {body : σ → σ × Option ε} {I L : ℕ → σ → Prop} {fails : ℕ → Prop} {n : ℕ}
    (hround : ∀ i < n, ∀ s, I i s →
      (¬fails i ∧ ∃ s', body s = (s', none) ∧ I (i + 1) s') ∨
        (fails i ∧ ∃ s' e, body s = (s', some e) ∧ L i s'))
    {s : σ} (hs : I 0 s) :
    ((∀ k < n, ¬fails k) ∧ ∃ s', timesUntil body n s = (s', none) ∧ I n s') ∨
      ∃ i < n, (∀ k < i, ¬fails k) ∧ fails i ∧
        ∃ s' e, timesUntil body n s = (s', some e) ∧ L i s' := by
  have hfrom (rounds : ℕ) : ∀ i s, i + rounds = n → (∀ k < i, ¬fails k) → I i s →
      ((∀ k < n, ¬fails k) ∧ ∃ s', timesUntil body rounds s = (s', none) ∧ I n s') ∨
        ∃ i < n, (∀ k < i, ¬fails k) ∧ fails i ∧
          ∃ s' e, timesUntil body rounds s = (s', some e) ∧ L i s' := by
    induction rounds with
    | zero =>
      intro i s hi hbefore hs
      obtain rfl : i = n := hi
      exact .inl ⟨hbefore, s, rfl, hs⟩
    | succ rounds ih =>
      intro i s hi hbefore hs
      rcases hround i (by omega) s hs with ⟨hok, s', heq, hs'⟩ | ⟨hfails, s', e, heq, hleft⟩
      · rw [timesUntil, heq]
        refine ih (i + 1) s' (by omega) (fun k hk => ?_) hs'
        rcases Nat.lt_succ_iff_lt_or_eq.mp hk with hk | rfl
        · exact hbefore k hk
        · exact hok
      · refine .inr ⟨i, by omega, hbefore, hfails, s', e, ?_, hleft⟩
        rw [timesUntil, heq]
        rfl
  exact hfrom n 0 s (Nat.zero_add n) (fun k hk => absurd hk (Nat.not_lt_zero k)) hs

end Amdkfd.Lib
