import Mathlib.Data.Finset.Card
import Mathlib.Data.Nat.Find
import Amdkfd.Atom.Bounds

/-!
# The watchdog of the loops

`atom_op_jump` aborts a table that jumps to where its last jump went, 20 seconds after it was noted.
A run that does not end has a table that is never left from some time on, and runs again and again.
If each branch back is a jump to the target that was noted, that target is noted no more at some
point, and the time since then is looked at until it is up.
-/

namespace Amdkfd.Atom

open List Option

/-! ## A table that runs for ever -/

theorem exists_recurring {f : Nat → Nat} {b : Nat} (hb : ∀ n, ∃ k ≥ n, f k ≤ b) :
    ∃ d n, (∀ k ≥ n, d ≤ f k) ∧ ∀ n, ∃ k ≥ n, f k = d := by
  induction b with
  | zero =>
    refine ⟨0, 0, fun k _ => Nat.zero_le _, fun n => ?_⟩
    obtain ⟨k, hk, hle⟩ := hb n
    exact ⟨k, hk, Nat.le_zero.mp hle⟩
  | succ b ih =>
    by_cases hless : ∀ n, ∃ k ≥ n, f k ≤ b
    · exact ih hless
    · push Not at hless
      obtain ⟨n, hn⟩ := hless
      refine ⟨b + 1, n, hn, fun l => ?_⟩
      obtain ⟨k, hk, hle⟩ := hb (max l n)
      exact ⟨k, by omega, le_antisymm hle (hn k (by omega))⟩

theorem exists_stable {f : Nat → Nat} {b i : Nat} (hmono : ∀ j ≥ i, f j ≤ f (j + 1))
    (hb : ∀ j ≥ i, f j < b) : ∃ k ≥ i, ∀ j ≥ k, f (j + 1) = f j := by
  obtain ⟨d, n, hleast, hrecurs⟩ := exists_recurring (f := fun j => b - f j) (b := b)
    fun n => ⟨n, le_refl n, Nat.sub_le ..⟩
  obtain ⟨k, hk, heq⟩ := hrecurs (max i n)
  have hle : ∀ j ≥ k, f k ≤ f j := by
    intro j hj
    induction j, hj using Nat.le_induction with
    | base => exact le_refl _
    | succ j hj ih => exact ih.trans (hmono j (by omega))
  refine ⟨k, by omega, fun j hj => ?_⟩
  have := hle j hj
  have := hmono j (by omega)
  have := hb (j + 1) (by omega)
  have := hleast (j + 1) (by omega)
  omega

/-- A clock that advances, and what is made of it in milliseconds: after `limit` jiffies the 20
seconds are up. Neither wraps for another `gap` jiffies. -/
structure Clock (card : Card) (now : Nat → UInt64) (t : Nat → Nat) (limit gap : Nat) : Prop where
  now_eq : ∀ i, now i = .ofNat (t i)
  advances : ∀ i j, i < j → t i < t j
  span : limit + gap < 2 ^ 63
  msecs : ∀ d : UInt64, limit < d.toNat → d.toNat ≤ limit + gap → 20 * 1000 < card.jiffiesToMsecs d

/-- What the watchdog makes of a jump to the target that was noted. -/
def Timed (card : Card) (now : UInt64) (f f' : Frame) : Prop :=
  if timeAfter now f.lastJumpJiffies then
    f'.lastJumpJiffies = f.lastJumpJiffies ∧
      (20 * 1000 < card.jiffiesToMsecs (now - f.lastJumpJiffies) → f'.abort = true)
  else f'.lastJumpJiffies = now

/-- A jump back to the target that was noted. -/
structure Back (card : Card) (now : UInt64) (f f' : Frame) : Prop where
  ptr_le : f'.ptr ≤ f.ptr
  ptr_eq : f'.ptr = f'.lastJump
  lastJump_eq : f'.lastJump = f.lastJump
  timed : Timed card now f f'

/-- A table that is never left, as it is over the time. At a time at which it is not at the top it
waits for the one that it calls. -/
structure Activation (card : Card) (now : Nat → UInt64) where
  frame : Nat → Frame
  top : Nat → Prop
  recurs : ∀ i, ∃ j ≥ i, top j
  live : ∀ i, top i → (frame i).abort = false ∧ u8 card (frame i).ptr ≠ 91
  waits : ∀ i, ¬top i →
    (frame (i + 1)).ptr = (frame i).ptr ∧ (frame (i + 1)).watch = (frame i).watch
  runs : ∀ i, top i →
    (frame i).ptr < (frame (i + 1)).ptr ∧
        ((frame (i + 1)).watch = (frame i).watch ∨ (frame (i + 1)).ptr = (frame (i + 1)).lastJump) ∨
      top (i + 1) ∧ Back card (now i) (frame i) (frame (i + 1))

namespace Activation
variable {card : Card} {now : Nat → UInt64} (a : Activation card now)

def BackAt (i : Nat) : Prop :=
  a.top i ∧ a.top (i + 1) ∧ Back card (now i) (a.frame i) (a.frame (i + 1))

/-- Without a jump back the place moves on. -/
theorem ptr_mono {i : Nat} (h : ¬a.BackAt i) : (a.frame i).ptr ≤ (a.frame (i + 1)).ptr ∧
    (a.top i → (a.frame i).ptr < (a.frame (i + 1)).ptr) := by
  by_cases htop : a.top i
  · rcases a.runs i htop with ⟨hlt, -⟩ | hback
    · exact ⟨hlt.le, fun _ => hlt⟩
    · exact absurd ⟨htop, hback⟩ h
  · exact ⟨(a.waits i htop).1.ge, fun h => absurd h htop⟩

theorem ptr_le_of_forward {i j : Nat} (hij : i ≤ j) (h : ∀ k, i ≤ k → k < j → ¬a.BackAt k) :
    (a.frame i).ptr ≤ (a.frame j).ptr := by
  induction j, hij using Nat.le_induction with
  | base => exact le_refl _
  | succ j hij ih =>
    exact (ih fun k hk hlt => h k hk (by omega)).trans (a.ptr_mono (h j hij (by omega))).1

variable {size : Nat}

theorem ptr_lt (hsize : ∀ p, size ≤ p → u8 card p = 91) (i : Nat) : (a.frame i).ptr < size := by
  obtain ⟨j, hj, htop⟩ := a.recurs i
  obtain ⟨d, rfl⟩ := Nat.exists_eq_add_of_le hj
  clear hj
  induction d generalizing i with
  | zero => exact not_le.mp fun hge => (a.live i htop).2 (hsize _ hge)
  | succ d ih =>
    by_cases hi : a.top i
    · exact not_le.mp fun hge => (a.live i hi).2 (hsize _ hge)
    · rw [← (a.waits i hi).1]
      exact ih (i + 1) (by rwa [Nat.add_right_comm, add_assoc])

theorem exists_back (hsize : ∀ p, size ≤ p → u8 card p = 91) (i : Nat) : ∃ j ≥ i, a.BackAt j := by
  by_contra hno
  have hforward : ∀ k, i ≤ k → ¬a.BackAt k := fun k hk h => hno ⟨k, hk, h⟩
  have hgrows : ∀ n, ∃ j ≥ i, n ≤ (a.frame j).ptr := by
    intro n
    induction n with
    | zero => exact ⟨i, le_refl i, Nat.zero_le _⟩
    | succ n ih =>
      obtain ⟨j, hj, hn⟩ := ih
      obtain ⟨k, hk, htop⟩ := a.recurs j
      have hle := a.ptr_le_of_forward hk fun l hl _ => hforward l (hj.le.trans hl)
      have hlt := (a.ptr_mono (hforward k (hj.le.trans hk))).2 htop
      exact ⟨k + 1, by omega, by omega⟩
  obtain ⟨j, -, hj⟩ := hgrows size
  exact absurd (a.ptr_lt hsize j) (not_lt.mpr hj)

/-- After a jump back the place is not before the target that is noted, and a target that is noted
lies behind the one before. -/
theorem lastJump_le {i j : Nat} (hi : a.BackAt i) (hij : i < j) :
    (a.frame j).lastJump ≤ (a.frame j).ptr ∧
      (a.frame j).lastJump ≤ (a.frame (j + 1)).lastJump := by
  have hstep (j : Nat) (hle : (a.frame j).lastJump ≤ (a.frame j).ptr) :
      (a.frame (j + 1)).lastJump ≤ (a.frame (j + 1)).ptr ∧
        (a.frame j).lastJump ≤ (a.frame (j + 1)).lastJump := by
    by_cases htop : a.top j
    · rcases a.runs j htop with ⟨hlt, hsame | hjump⟩ | ⟨-, hback⟩
      · rw [show (a.frame (j + 1)).lastJump = _ from congrArg Prod.fst hsame]
        exact ⟨hle.trans hlt.le, le_refl _⟩
      · rw [← hjump]
        exact ⟨le_refl _, hle.trans hlt.le⟩
      · exact ⟨hback.ptr_eq.ge, hback.lastJump_eq.ge⟩
    · obtain ⟨hptr, hsame⟩ := a.waits j htop
      rw [hptr, show (a.frame (j + 1)).lastJump = _ from congrArg Prod.fst hsame]
      exact ⟨hle, le_refl _⟩
  have hle : ∀ j, i < j → (a.frame j).lastJump ≤ (a.frame j).ptr := by
    intro j hij
    induction j, hij using Nat.le_induction with
    | base => exact hi.2.2.ptr_eq.ge
    | succ j hij ih => exact (hstep j ih).1
  exact ⟨hle j hij, (hstep j (hle j hij)).2⟩

/-- From some time on every jump back goes to one target, and only such a jump may note the time. -/
theorem exists_settled (hsize : ∀ p, size ≤ p → u8 card p = 91) :
    ∃ k, ∀ j ≥ k, ¬a.BackAt j → (a.frame (j + 1)).watch = (a.frame j).watch := by
  obtain ⟨i, -, hi⟩ := a.exists_back hsize 0
  obtain ⟨k, hk, hstable⟩ := exists_stable (f := fun j => (a.frame j).lastJump) (i := i + 1)
    (fun j hj => (a.lastJump_le hi hj).2)
    (fun j hj => (a.lastJump_le hi hj).1.trans_lt (a.ptr_lt hsize j))
  refine ⟨k, fun j hj hno => ?_⟩
  by_cases htop : a.top j
  · rcases a.runs j htop with ⟨hlt, hsame | hjump⟩ | hback
    · exact hsame
    · have := (a.lastJump_le hi (show i < j by omega)).1
      have heq : (a.frame (j + 1)).lastJump = (a.frame j).lastJump := hstable j hj
      omega
    · exact absurd ⟨htop, hback⟩ hno
  · exact (a.waits j htop).2

/-- How long the time that is noted is ago. -/
def elapsed (i : Nat) : Nat := (now i - (a.frame (i + 1)).lastJumpJiffies).toNat

/-- What is left until the watchdog acts: of the limit, or until the time is noted again. -/
def slack (limit e : Nat) : Nat := if e ≤ limit then limit - e else limit + 2 ^ 63 + 1 - e

theorem timeAfter_iff (x y : UInt64) :
    timeAfter x y = true ↔ 0 < (x - y).toNat ∧ (x - y).toNat ≤ 2 ^ 63 := by
  have hx := x.toNat_lt
  have hy := y.toNat_lt
  unfold timeAfter
  rw [decide_eq_true_iff, UInt64.toNat_sub, UInt64.toNat_sub]
  omega

variable {t : Nat → Nat} {limit gap : Nat}

theorem elapsed_le {i : Nat} (h : a.BackAt i) : a.elapsed i ≤ 2 ^ 63 := by
  have htimed := h.2.2.timed
  unfold Timed at htimed
  unfold elapsed
  split at htimed
  · next hafter =>
    rw [htimed.1]
    exact ((timeAfter_iff _ _).mp hafter).2
  · rw [htimed, UInt64.sub_self]
    exact Nat.zero_le _

theorem slack_lt (h : Clock card now t limit gap) {i j : Nat} (hi : a.BackAt i) (hj : a.BackAt j)
    (hij : i < j) (hgap : t j ≤ t i + gap)
    (hsame : (a.frame j).lastJumpJiffies = (a.frame (i + 1)).lastJumpJiffies) :
    slack limit (a.elapsed j) < slack limit (a.elapsed i) := by
  have hlt := h.advances i j hij
  have hspan := h.span
  have hle := a.elapsed_le hi
  have hle' := a.elapsed_le hj
  have hago : (now j - (a.frame j).lastJumpJiffies).toNat = a.elapsed i + (t j - t i) := by
    unfold elapsed at hle ⊢
    rw [hsame, h.now_eq, h.now_eq]
    rw [h.now_eq] at hle
    have hx := (a.frame (i + 1)).lastJumpJiffies.toNat_lt
    rw [UInt64.toNat_sub, UInt64.toNat_ofNat'] at hle ⊢
    rw [UInt64.toNat_sub, UInt64.toNat_ofNat']
    omega
  have htimed := hj.2.2.timed
  have hafter := timeAfter_iff (now j) (a.frame j).lastJumpJiffies
  rw [hago] at hafter
  unfold Timed at htimed
  split at htimed
  · next htime =>
    have helapsed : a.elapsed j = a.elapsed i + (t j - t i) := by
      unfold elapsed at hago ⊢
      rw [htimed.1, hago]
    -- the table runs on, so the limit has not been passed
    have hlimit : a.elapsed i ≤ limit → a.elapsed j ≤ limit := by
      intro hin
      by_contra hout
      have hfires := htimed.2 (h.msecs _ (by omega) (by omega))
      rw [(a.live _ hj.2.1).1] at hfires
      cases hfires
    unfold slack
    split <;> split <;> omega
  · next htime =>
    have hzero : a.elapsed j = 0 := by
      unfold elapsed
      rw [htimed, UInt64.sub_self]
      rfl
    have hnot : ¬(a.elapsed i + (t j - t i) ≤ 2 ^ 63) := fun h => htime (hafter.mpr ⟨by omega, h⟩)
    rw [hzero]
    unfold slack
    split <;> split <;> omega

/-- A table that is watched does not run for ever. -/
theorem false (hsize : ∀ p, size ≤ p → u8 card p = 91) (hclock : Clock card now t limit gap)
    (hpass : ∀ i j, i < j → a.BackAt i → a.BackAt j → (∀ k, i < k → k < j → ¬a.BackAt k) →
      t j ≤ t i + gap) : False := by
  obtain ⟨k, hk⟩ := a.exists_settled hsize
  have hdescent : ∀ n, ∀ i ≥ k, a.BackAt i → slack limit (a.elapsed i) = n → False := by
    intro n
    induction n using Nat.strong_induction_on with
    | _ n ih =>
      intro i hi hback hn
      have hnext := a.exists_back hsize (i + 1)
      classical
      obtain ⟨hlt, hback'⟩ := Nat.find_spec hnext
      have hnone : ∀ l, i < l → l < Nat.find hnext → ¬a.BackAt l :=
        fun l hl hlt h => Nat.find_min hnext hlt ⟨hl, h⟩
      have hsame : ∀ l, i + 1 ≤ l → l ≤ Nat.find hnext →
          (a.frame l).watch = (a.frame (i + 1)).watch := by
        intro l hl
        induction l, hl using Nat.le_induction with
        | base => exact fun _ => rfl
        | succ l hl ihl =>
          exact fun hle => (hk l (by omega) (hnone l hl (by omega))).trans (ihl (by omega))
      have hless := a.slack_lt hclock hback hback' hlt
        (hpass _ _ hlt hback hback' hnone) (congrArg Prod.snd (hsame _ hlt (le_refl _)))
      exact ih _ (hn ▸ hless) _ (by omega) hback' rfl
  obtain ⟨i, hi, hback⟩ := a.exists_back hsize k
  exact hdescent _ i hi hback rfl

end Activation

/-! ## Steps -/

section
variable {card : Card}

/-- What a turn of the loop does to a table at the top that it does not leave: `up` is what it
calls. -/
inductive Moves (card : Card) (now : UInt64) (f : Frame) : List Frame → Frame → Prop
  | ahead {up f'} : f.ptr < f'.ptr → f'.watch = f.watch → Moves card now f up f'
  | other {f'} : (∀ cond, funcOf (u8 card f.ptr) ≠ some (.jump cond)) → f'.watch = f.watch →
      Moves card now f [] f'
  | jump {f'} : f'.ptr = f.start + u16 card (f.ptr + 1) → f'.lastJump = f'.ptr →
      (f.lastJump = f'.ptr → Timed card now f f') → Moves card now f [] f'

theorem atomOpJump_moves (ans : Answers) (cond : Cond) (m : Machine) (f : Frame) :
    Moves card ans.jiffies f []
      (atomOpJump card ans cond (m.exec { f with ptr := f.ptr + 1 })).frame := by
  unfold atomOpJump Machine.exec
  dsimp only
  split
  · split
    · next hlast =>
      split
      · next hafter =>
        exact .jump rfl hlast fun _ => (if_pos hafter).mpr ⟨rfl, fun h => by simp [h]⟩
      · next hafter => exact .jump rfl hlast fun _ => (if_neg hafter).mpr rfl
    · next hlast => exact .jump rfl rfl fun h => absurd h hlast
  · exact .ahead (by dsimp only; omega) rfl

variable {m : Machine} {f : Frame} {rest : List Frame}

theorem enterTable_start {memory : Bool} {index ps : Nat} {psSize : UInt32}
    (h : enterTable card memory index ps psSize = .ok f) : f.start < 65536 := by
  have hlow := (card.bios (card.cmdTable + 4 + 2 * index)).toNat_lt
  have hhigh := (card.bios (card.cmdTable + 4 + 2 * index + 1)).toNat_lt
  unfold enterTable at h
  dsimp only at h
  split_ifs at h
  cases h
  unfold u16 u8
  dsimp only
  omega

theorem atomOpCalltable_moves (ans : Answers) :
    ∃ up f', (atomOpCalltable card ans m { f with ptr := f.ptr + 1 } rest).frames =
      up ++ f' :: rest ∧ f'.start = f.start ∧ (∀ g ∈ up, g.start < 65536) ∧
        Moves card ans.jiffies f up f' := by
  have hptr : f.ptr < f.ptr + 1 + 1 := by omega
  unfold atomOpCalltable
  dsimp only
  split
  · exact ⟨[], _, rfl, rfl, by simp, .ahead hptr rfl⟩
  · split
    · exact ⟨[], _, rfl, rfl, by simp, .ahead hptr rfl⟩
    · next callee hcallee =>
      refine ⟨[callee], _, rfl, rfl, ?_, .ahead hptr rfl⟩
      intro g hg
      rw [mem_singleton.mp hg]
      exact enterTable_start hcallee

/-- A turn of the loop leaves the table at the top, or moves on in it. -/
theorem step_moves (card : Card) (hm : m.frames = f :: rest) (ans : Answers) :
    (∃ failed, (step card m ans).frames = (leaveTable m failed rest).frames) ∨
    f.abort = false ∧ u8 card f.ptr ≠ 91 ∧ ∃ up f', (step card m ans).frames = up ++ f' :: rest ∧
      f'.start = f.start ∧ (∀ g ∈ up, g.start < 65536) ∧ Moves card ans.jiffies f up f' := by
  have hend (h : funcOf (u8 card f.ptr) ≠ some .eot) : u8 card f.ptr ≠ 91 := by
    intro h91
    exact h (by rw [h91]; rfl)
  unfold step
  rw [hm]
  dsimp only
  by_cases habort : f.abort = true
  · rw [if_pos habort]
    exact .inl ⟨true, rfl⟩
  rw [if_neg habort]
  have habort : f.abort = false := by simpa using habort
  split
  · exact .inl ⟨false, rfl⟩
  · next hfunc =>
    exact .inr ⟨habort, hend (by rw [hfunc]; exact fun h => by cases h), atomOpCalltable_moves ans⟩
  · exact .inl ⟨false, rfl⟩
  · next func _ hne hfunc =>
    refine .inr ⟨habort, hend (by rw [hfunc]; exact fun h => hne (some.inj h)), [], _, rfl,
      (runFunc_kept ..).2.1, by simp, ?_⟩
    by_cases hjump : ∃ cond, func = .jump cond
    · obtain ⟨cond, rfl⟩ := hjump
      exact atomOpJump_moves ans cond m f
    · have hjump : ∀ cond, func ≠ .jump cond := fun cond h => hjump ⟨cond, h⟩
      refine .other (fun cond h => hjump cond (some.inj (hfunc.symm.trans h))) ?_
      exact (runFunc_kept ..).2.2 hjump

/-- A table below the top waits. -/
theorem step_waits (card : Card) {g : Frame} {up : List Frame}
    (hm : m.frames = g :: (up ++ f :: rest)) (ans : Answers) :
    ∃ up' f', (step card m ans).frames = up' ++ f' :: rest ∧ f'.ptr = f.ptr ∧
      f'.watch = f.watch := by
  rcases step_moves card hm ans with ⟨failed, hleave⟩ | ⟨-, -, up', g', hframes, -⟩
  · rw [hleave]
    cases up with
    | nil => exact ⟨[], { f with abort := f.abort || failed }, rfl, rfl, rfl⟩
    | cons h up => exact ⟨{ h with abort := h.abort || failed } :: up, f, rfl, rfl, rfl⟩
  · refine ⟨up' ++ g' :: up, f, ?_, rfl, rfl⟩
    rw [hframes, append_assoc]
    rfl

theorem leaveTable_length (m : Machine) (failed : Bool) (rest : List Frame) :
    (leaveTable m failed rest).frames.length = rest.length := by
  cases rest <;> rfl

end

/-! ## Runs -/

/-- The machine after the first `n` turns. -/
def machineAt (card : Card) (call : Call) (ans : Nat → Answers) : Nat → Machine
  | 0 => amdgpuAtomExecuteTable card call
  | n + 1 => step card (machineAt card call ans n) (ans n)

/-- The table at the top goes on at a place that is not behind the opcode. -/
def BranchesBack (m m' : Machine) : Prop :=
  ∃ f rest f', m.frames = f :: rest ∧ m'.frames = f' :: rest ∧ f'.ptr ≤ f.ptr

/-- From one branch back of a table to the next. -/
structure Pass (m : Nat → Machine) (k n : Nat) : Prop where
  lt : k < n
  back : BranchesBack (m k) (m (k + 1))
  depth : (m k).frames.length = (m n).frames.length
  inside : ∀ l, k < l → l < n → (m n).frames.length ≤ (m l).frames.length ∧
    ((m l).frames.length = (m n).frames.length → ¬BranchesBack (m l) (m (l + 1)))

/-- A branch back is a jump to where the last jump of the table went, and the pass up to it has
taken no more than `gap`. -/
def Watched (card : Card) (t : Nat → Nat) (gap : Nat) (m : Nat → Machine) (n : Nat) : Prop :=
  BranchesBack (m n) (m (n + 1)) →
    (∀ f ∈ (m n).frames.head?, f.lastJump = f.start + u16 card (f.ptr + 1) ∧
      ∃ cond, funcOf (u8 card f.ptr) = some (.jump cond)) ∧
    ∀ k, Pass m k n → t n ≤ t k + gap

section
variable {card : Card} {ans : Nat → Answers} {m : Nat → Machine}

/-- What lies below a table that is never left stays. -/
theorem exists_below (hstep : ∀ n, m (n + 1) = step card (m n) (ans n)) {d n : Nat}
    (hdepth : ∀ k ≥ n, d + 1 ≤ (m k).frames.length) :
    ∃ low : List Frame, low.length = d ∧ ∀ i, ∃ up f, (m (n + i)).frames = up ++ f :: low := by
  obtain ⟨f, low, hdrop⟩ : ∃ f low, (m n).frames.drop ((m n).frames.length - (d + 1)) = f :: low :=
    exists_cons_of_length_pos (by
      have := hdepth n (le_refl n)
      rw [length_drop]
      omega)
  have hlow : low.length = d := by
    have := hdepth n (le_refl n)
    have hlength := congrArg List.length hdrop
    rw [length_drop, length_cons] at hlength
    omega
  refine ⟨low, hlow, fun i => ?_⟩
  induction i with
  | zero =>
    exact ⟨(m n).frames.take ((m n).frames.length - (d + 1)), f, by
      rw [← hdrop, add_zero, take_append_drop]⟩
  | succ i ih =>
    obtain ⟨up, f, hframes⟩ := ih
    rw [← add_assoc, hstep]
    cases up with
    | nil =>
      rcases step_moves card hframes (ans (n + i)) with ⟨failed, hleave⟩ | hmoves
      · have := hdepth (n + i + 1) (by omega)
        rw [hstep, hleave, leaveTable_length] at this
        omega
      · obtain ⟨-, -, up, f', h, -⟩ := hmoves
        exact ⟨up, f', h⟩
    | cons g up =>
      obtain ⟨up', f', h, -⟩ := step_waits card hframes (ans (n + i))
      exact ⟨up', f', h⟩

theorem frame_eq {up up' low : List Frame} {f f' : Frame} (h : up ++ f :: low = up' ++ f' :: low) :
    up = up' ∧ f = f' := by
  obtain ⟨hup, hf⟩ := append_inj' h rfl
  exact ⟨hup, (cons.inj hf).1⟩

variable {t : Nat → Nat}

/-- The table at the top branches back, or moves on to a place that may be a target it has noted. -/
theorem runs_of_watched {gap n : Nat} {f f' : Frame} {up low : List Frame}
    (hwatched : Watched card t gap m n) (hcur : (m n).frames = f :: low)
    (hnext : (m (n + 1)).frames = up ++ f' :: low) (hmoves : Moves card (ans n).jiffies f up f') :
    f.ptr < f'.ptr ∧ (f'.watch = f.watch ∨ f'.ptr = f'.lastJump) ∨
      up = [] ∧ Back card (ans n).jiffies f f' := by
  have hjump (hup : up = []) (hle : f'.ptr ≤ f.ptr) :
      f.lastJump = f.start + u16 card (f.ptr + 1) ∧
        ∃ cond, funcOf (u8 card f.ptr) = some (.jump cond) := by
    rw [hup] at hnext
    exact (hwatched ⟨f, low, f', hcur, hnext, hle⟩).1 f (by rw [hcur]; rfl)
  cases hmoves with
  | ahead hlt hsame => exact .inl ⟨hlt, .inl hsame⟩
  | other hnot hsame =>
    rcases lt_or_ge f.ptr f'.ptr with hlt | hle
    · exact .inl ⟨hlt, .inl hsame⟩
    · obtain ⟨-, cond, hcond⟩ := hjump rfl hle
      exact absurd hcond (hnot cond)
  | jump hptr hnew htimed =>
    rcases lt_or_ge f.ptr f'.ptr with hlt | hle
    · exact .inl ⟨hlt, .inr hnew.symm⟩
    · have hlast : f.lastJump = f'.ptr := (hjump rfl hle).1.trans hptr.symm
      exact .inr ⟨rfl, hle, hnew.symm, hnew.trans hlast.symm, htimed hlast⟩

/-- The table in a run that does not end, at the least depth to which the run comes again and
again. -/
theorem activation_of_endless {gap b n0 : Nat} (hstep : ∀ n, m (n + 1) = step card (m n) (ans n))
    (hb : ∀ n, (m n).frames.length ≤ b) (hwatched : ∀ n ≥ n0, Watched card t gap m n)
    (hends : ∀ n, (m n).frames ≠ []) :
    ∃ d, ∃ n ≥ n0, ∃ a : Activation card fun i => (ans (n + i)).jiffies,
      ∀ i, d ≤ (m (n + i)).frames.length ∧ (a.BackAt i ↔
        (m (n + i)).frames.length = d ∧ BranchesBack (m (n + i)) (m (n + (i + 1)))) := by
  obtain ⟨d, n1, hdepth, hrecurs⟩ := exists_recurring (f := fun n => (m n).frames.length - 1)
    (b := b) fun n => ⟨n, le_refl n, (Nat.sub_le _ _).trans (hb n)⟩
  have hpos (n : Nat) : 0 < (m n).frames.length := length_pos_iff.mpr (hends n)
  obtain ⟨n, hn0, hn1⟩ : ∃ n, n0 ≤ n ∧ n1 ≤ n := ⟨max n0 n1, by omega, by omega⟩
  have hlength (k : Nat) (hk : n ≤ k) : d + 1 ≤ (m k).frames.length := by
    have := hdepth k (by omega)
    have := hpos k
    omega
  obtain ⟨low, hlow, hframes⟩ := exists_below hstep hlength
  choose up frame hframes using hframes
  have hnext (i : Nat) : m (n + (i + 1)) = step card (m (n + i)) (ans (n + i)) := hstep (n + i)
  have htop (i : Nat) : up i = [] ↔ (m (n + i)).frames.length = d + 1 := by
    rw [hframes, length_append, length_cons, hlow, ← length_eq_zero_iff]
    omega
  have hcur (i : Nat) (hi : up i = []) : (m (n + i)).frames = frame i :: low := by
    rw [hframes, hi, nil_append]
  have hmoves (i : Nat) (hi : up i = []) : (frame i).abort = false ∧ u8 card (frame i).ptr ≠ 91 ∧
      Moves card (ans (n + i)).jiffies (frame i) (up (i + 1)) (frame (i + 1)) := by
    rcases step_moves card (hcur i hi) (ans (n + i)) with
      ⟨failed, hleave⟩ | ⟨ha, hu, up', f', h, -, -, hmv⟩
    · have := hlength (n + (i + 1)) (by omega)
      rw [hnext, hleave, leaveTable_length] at this
      omega
    · rw [← hnext, hframes] at h
      obtain ⟨rfl, rfl⟩ := frame_eq h
      exact ⟨ha, hu, hmv⟩
  have hruns (i : Nat) (hi : up i = []) :=
    runs_of_watched (hwatched (n + i) (by omega)) (hcur i hi) (hframes (i + 1)) (hmoves i hi).2.2
  have hwaits (i : Nat) (hi : up i ≠ []) : (frame (i + 1)).ptr = (frame i).ptr ∧
      (frame (i + 1)).watch = (frame i).watch := by
    obtain ⟨g, us, hup⟩ := exists_cons_of_ne_nil hi
    obtain ⟨up', f', h, hsame⟩ := step_waits card
      (show (m (n + i)).frames = g :: (us ++ frame i :: low) by rw [hframes, hup]; rfl)
      (ans (n + i))
    rw [← hnext, hframes] at h
    obtain ⟨-, rfl⟩ := frame_eq h
    exact hsame
  have hrecur (i : Nat) : ∃ j ≥ i, up j = [] := by
    obtain ⟨k, hk, hd⟩ := hrecurs (n + i)
    obtain ⟨j, rfl⟩ := Nat.exists_eq_add_of_le (show n ≤ k by omega)
    have := hpos (n + j)
    exact ⟨j, by omega, (htop j).mpr (by omega)⟩
  refine ⟨d + 1, n, hn0, ⟨frame, fun i => up i = [], hrecur,
    fun i hi => ⟨(hmoves i hi).1, (hmoves i hi).2.1⟩, hwaits, hruns⟩,
    fun i => ⟨hlength _ (by omega), ⟨fun h => ?_, ?_⟩⟩⟩
  · exact ⟨(htop i).mp h.1, frame i, low, frame (i + 1), hcur i h.1, hcur (i + 1) h.2.1,
      h.2.2.ptr_le⟩
  · rintro ⟨hi, f, rest, f', hf, hf', hle⟩
    have hi : up i = [] := (htop i).mpr hi
    rw [hcur i hi] at hf
    obtain ⟨rfl, rfl⟩ := cons.inj hf
    rw [hframes, ← nil_append (f' :: low)] at hf'
    obtain ⟨hi', rfl⟩ := frame_eq hf'
    rcases hruns i hi with ⟨hlt, -⟩ | ⟨-, hback⟩
    · omega
    · exact ⟨hi, hi', hback⟩

theorem ends_of_watched {size limit gap b n0 : Nat}
    (hstep : ∀ n, m (n + 1) = step card (m n) (ans n)) (hb : ∀ n, (m n).frames.length ≤ b)
    (hsize : ∀ p, size ≤ p → u8 card p = 91)
    (hclock : Clock card (fun n => (ans n).jiffies) t limit gap)
    (hwatched : ∀ n ≥ n0, Watched card t gap m n) : ∃ n, (m n).frames = [] := by
  by_contra hends
  obtain ⟨d, n, hn, a, ha⟩ := activation_of_endless hstep hb hwatched fun n h => hends ⟨n, h⟩
  refine a.false hsize (t := fun i => t (n + i)) ⟨fun i => hclock.now_eq (n + i),
    fun i j hij => hclock.advances _ _ (by omega), hclock.span, hclock.msecs⟩
    fun i j hij hi hj hno => ?_
  obtain ⟨hi, hbacki⟩ := (ha i).2.mp hi
  obtain ⟨hj, hbackj⟩ := (ha j).2.mp hj
  refine (hwatched (n + j) (by omega) hbackj).2 (n + i)
    ⟨by omega, hbacki, hi.trans hj.symm, fun l hil hlj => ?_⟩
  obtain ⟨l, rfl⟩ := Nat.exists_eq_add_of_le (show n ≤ l by omega)
  rw [hj]
  exact ⟨(ha l).1, fun hl hback => hno l (by omega) (by omega) ((ha l).2.mpr ⟨hl, hback⟩)⟩

theorem step_starts {m : Machine} (h : ∀ f ∈ m.frames, f.start < 65536) (ans : Answers) :
    ∀ f ∈ (step card m ans).frames, f.start < 65536 := by
  cases hm : m.frames with
  | nil =>
    have hstay : step card m ans = m := by
      unfold step
      rw [hm]
    rwa [hstay]
  | cons f rest =>
    rw [hm] at h
    have hrest : ∀ g ∈ rest, g.start < 65536 := fun g hg => h g (mem_cons_of_mem f hg)
    rcases step_moves card hm ans with ⟨failed, hleave⟩ | ⟨-, -, up, f', hframes, hstart, hup, -⟩
    · rw [hleave]
      cases rest with
      | nil => exact hrest
      | cons g rest => exact forall_mem_cons.mpr (forall_mem_cons.mp hrest)
    · rw [hframes]
      refine forall_mem_append.mpr ⟨hup, forall_mem_cons.mpr ⟨?_, hrest⟩⟩
      rw [hstart]
      exact h f mem_cons_self

theorem machineAt_starts (call : Call) (n : Nat) :
    ∀ f ∈ (machineAt card call ans n).frames, f.start < 65536 := by
  induction n with
  | zero =>
    unfold machineAt amdgpuAtomExecuteTable
    dsimp only
    split
    · exact fun f hf => absurd hf not_mem_nil
    · next f henter =>
      intro g hg
      rw [mem_singleton.mp hg]
      exact enterTable_start henter
  | succ n ih => exact step_starts ih (ans n)

/-- Tables that do not call one another are no more than there are addresses. -/
theorem length_le_of_nodup {fs : List Frame} (h : ∀ f ∈ fs, f.start < 65536)
    (hnodup : (fs.map Frame.start).Nodup) : fs.length ≤ 65536 := by
  have hsub : (fs.map Frame.start).toFinset ⊆ Finset.range 65536 := by
    intro x hx
    obtain ⟨f, hf, rfl⟩ := mem_map.mp (mem_toFinset.mp hx)
    exact Finset.mem_range.mpr (h f hf)
  have hcard := Finset.card_le_card hsub
  rwa [toFinset_card_of_nodup hnodup, length_map, Finset.card_range] at hcard

end

/-- An aborted table ends, with all that have called it, and the call returns `-EINVAL`. -/
theorem machineAt_abort {card : Card} {call : Call} {ans : Nat → Answers} {n : Nat} {f : Frame}
    {rest : List Frame} (hm : (machineAt card call ans n).frames = f :: rest)
    (habort : f.abort = true) :
    (machineAt card call ans (n + rest.length + 1)).frames = [] ∧
      (machineAt card call ans (n + rest.length + 1)).ret = some .einval := by
  induction rest generalizing n f with
  | nil =>
    show (step card _ _).frames = [] ∧ (step card _ _).ret = _
    simp [step, hm, habort, leaveTable]
  | cons g rest ih =>
    have hnext : (machineAt card call ans (n + 1)).frames = { g with abort := true } :: rest := by
      show (step card _ _).frames = _
      simp [step, hm, habort, leaveTable]
    have hend := ih hnext rfl
    rwa [add_assoc n, add_comm 1] at hend

/-- A call of a finite image without recursion ends exactly when from some time on every branch back
is watched. One in which a table is aborted ends with `-EINVAL`. -/
theorem executeTable_ends_iff (card : Card) (call : Call) {ans : Nat → Answers} {t : Nat → Nat}
    {size limit gap : Nat} (hsize : ∀ p, size ≤ p → u8 card p = 91)
    (hcalls : ∀ n, ((machineAt card call ans n).frames.map Frame.start).Nodup)
    (hclock : Clock card (fun n => (ans n).jiffies) t limit gap) :
    ((∃ n, (machineAt card call ans n).frames = []) ↔
      ∃ n0, ∀ n ≥ n0, Watched card t gap (machineAt card call ans) n) ∧
    ∀ n f rest, (machineAt card call ans n).frames = f :: rest → f.abort = true →
      (machineAt card call ans (n + rest.length + 1)).frames = [] ∧
        (machineAt card call ans (n + rest.length + 1)).ret = some .einval := by
  refine ⟨?_, fun n f rest => machineAt_abort⟩
  constructor
  · rintro ⟨n0, hend⟩
    have hstays : ∀ n ≥ n0, (machineAt card call ans n).frames = [] := by
      intro n hn
      induction n, hn using Nat.le_induction with
      | base => exact hend
      | succ n hn ih =>
        show (step card (machineAt card call ans n) (ans n)).frames = []
        unfold step
        rw [ih]
        exact ih
    refine ⟨n0, fun n hn ⟨f, rest, f', hf, _⟩ => ?_⟩
    rw [hstays n hn] at hf
    cases hf
  · rintro ⟨n0, hwatched⟩
    exact ends_of_watched (fun n => rfl)
      (fun n => length_le_of_nodup (machineAt_starts call n) (hcalls n)) hsize hclock
      hwatched

/-! ## A loop with two targets -/

/-- The table jumps to the opcode behind the jump, and from there back. -/
def exLoopImage : List UInt8 := [0, 0, 0, 0, 6, 0, 0, 0, 0, 0, 0, 0, 67, 9, 0, 67, 6, 0]

def exLoopCard : Card :=
  { bios := fun i => (exLoopImage[i]?).getD 91
    cmdTable := 0
    dataTable := 0
    iio := fun _ => 0
    scratchSizeBytes := 0
    scratchSizeBytes_lt := by decide
    jiffiesToMsecs := fun j => j.toNat % 2 ^ 32 }

def exLoopCall : Call :=
  { index := 0
    params := fun _ => 0
    paramsSize := 0
    paramsSize_lt := by decide
    ctx := ⟨0, 0, 0, 0, 0, 0, 0, false, false, .mm, fun _ => 0⟩
    memory := true }

/-- A jiffy passes with each opcode. -/
def exLoopAnswers (n : Nat) : Answers := ⟨0, 0, .ofNat n, true⟩

/-- A jump to another target than the last is taken, and noted. -/
theorem exLoop_step {m : Machine} {f : Frame} {dest : Nat} (ans : Answers) (hm : m.frames = [f])
    (habort : f.abort = false) (hop : u8 exLoopCard f.ptr = 67)
    (hdest : f.start + u16 exLoopCard (f.ptr + 1) = dest) (hlast : f.lastJump ≠ dest) :
    ∃ f', (step exLoopCard m ans).frames = [f'] ∧ f'.start = f.start ∧ f'.abort = false ∧
      f'.ptr = dest ∧ f'.lastJump = dest := by
  have hfunc : funcOf 67 = some (.jump .always) := rfl
  refine ⟨_, by
    simp only [step, hm, hop, hfunc, habort, Bool.false_eq_true, if_false, runFunc]
    rfl, ?_⟩
  simp [atomOpJump, Machine.exec, Cond.holds, hdest, hlast]

/-- The table is at one of its jumps, and its last jump went elsewhere. -/
theorem exLoop_frames (n : Nat) :
    ∃ f, (machineAt exLoopCard exLoopCall exLoopAnswers n).frames = [f] ∧ f.start = 6 ∧
      f.abort = false ∧ (f.ptr = 12 ∧ f.lastJump ≠ 15 ∨ f.ptr = 15 ∧ f.lastJump ≠ 12) := by
  induction n with
  | zero => exact ⟨_, rfl, rfl, rfl, .inl ⟨rfl, by decide⟩⟩
  | succ n ih =>
    obtain ⟨f, hf, hstart, habort, ⟨hptr, hlast⟩ | ⟨hptr, hlast⟩⟩ := ih
    · obtain ⟨f', hf', hstart', habort', hptr', hlast'⟩ := exLoop_step (exLoopAnswers n) hf habort
        (by rw [hptr]; rfl) (by rw [hstart, hptr]; rfl) hlast
      exact ⟨f', hf', hstart'.trans hstart, habort', .inr ⟨hptr', by omega⟩⟩
    · obtain ⟨f', hf', hstart', habort', hptr', hlast'⟩ := exLoop_step (exLoopAnswers n) hf habort
        (by rw [hptr]; rfl) (by rw [hstart, hptr]; rfl) hlast
      exact ⟨f', hf', hstart'.trans hstart, habort', .inl ⟨hptr', by omega⟩⟩

theorem exLoop_calls (n : Nat) :
    ((machineAt exLoopCard exLoopCall exLoopAnswers n).frames.map Frame.start).Nodup := by
  obtain ⟨f, hf, -⟩ := exLoop_frames n
  rw [hf]
  exact nodup_singleton _

theorem exLoopCard_end (p : Nat) (hp : 18 ≤ p) : u8 exLoopCard p = 91 := by
  have hnone : exLoopImage[p]? = none := getElem?_eq_none hp
  unfold u8 exLoopCard
  dsimp only
  rw [hnone]
  rfl

theorem exLoopCard_msecs (d : UInt64) (hlow : 20000 < d.toNat) (hhigh : d.toNat ≤ 20000 + 2 ^ 31) :
    20 * 1000 < exLoopCard.jiffiesToMsecs d := by
  show 20 * 1000 < d.toNat % 2 ^ 32
  omega

theorem executeTable_ends_exLoop :
    (∃ n, (machineAt exLoopCard exLoopCall exLoopAnswers n).frames = []) ↔
      ∃ n0, ∀ n ≥ n0,
        Watched exLoopCard id (2 ^ 31) (machineAt exLoopCard exLoopCall exLoopAnswers) n :=
  (executeTable_ends_iff exLoopCard exLoopCall exLoopCard_end exLoop_calls
    ⟨fun _ => rfl, fun _ _ h => h, by decide, exLoopCard_msecs⟩).1

/-- The image is finite, no table calls another, and the clock advances. The table never ends. -/
theorem executeTable_endless :
    (∀ p, 18 ≤ p → u8 exLoopCard p = 91) ∧
      (∀ n, ((machineAt exLoopCard exLoopCall exLoopAnswers n).frames.map Frame.start).Nodup) ∧
      (∀ n, (exLoopAnswers n).jiffies = .ofNat n) ∧
      ∀ n, (machineAt exLoopCard exLoopCall exLoopAnswers n).frames ≠ [] := by
  refine ⟨exLoopCard_end, exLoop_calls, fun _ => rfl, fun n h => ?_⟩
  obtain ⟨f, hf, -⟩ := exLoop_frames n
  rw [h] at hf
  cases hf

end Amdkfd.Atom
