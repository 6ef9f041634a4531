import Amdkfd.Fence.Model
import Amdkfd.Lib.Ring
import Mathlib.Data.List.Nodup
import Mathlib.Tactic.IntervalCases

/-!
# Fences are signalled once, and in time

`Inv` ties the 32-bit numbers and the masked slot numbers of the driver to the numbers without
end that the record of a run keeps. A number that `last_seq` has passed is signalled or in the
range of exactly one call of `amdgpu_fence_process`, and its fence keeps its slot until that call
takes it out.
-/

namespace Amdkfd.FenceDriver

open Lib List Option

/-! ## Numbers and slots -/

section
variable (r : Ring)

theorem Ring.slots_pow : ∃ k, k ≤ 31 ∧ r.slots = 2 ^ k := by
  obtain ⟨k, hk⟩ := r.isPowerOf2
  refine ⟨k + 1, ?_, ?_⟩
  · have h : 2 ^ k < 2 ^ 31 := hk ▸ r.isInt
    have := (Nat.pow_lt_pow_iff_right (by decide : 1 < 2)).mp h
    omega
  · rw [Ring.slots, hk, Nat.pow_succ]

theorem Ring.slots_pos : 0 < r.slots := by
  obtain ⟨k, -, hk⟩ := r.slots_pow
  rw [hk]
  exact Nat.two_pow_pos k

theorem Ring.slots_le : r.slots ≤ 2 ^ 31 := by
  obtain ⟨k, hle, hk⟩ := r.slots_pow
  rw [hk]
  exact Nat.pow_le_pow_right (by decide) hle

theorem Ring.slots_dvd : r.slots ∣ 2 ^ 32 := by
  obtain ⟨k, hle, hk⟩ := r.slots_pow
  rw [hk]
  exact Nat.pow_dvd_pow 2 (by omega)

theorem Ring.and_mask (x : Nat) : x &&& r.numFencesMask = x % r.slots := by
  obtain ⟨k, -, hk⟩ := r.slots_pow
  have hmask : r.numFencesMask = 2 ^ k - 1 := by rw [← hk]; rfl
  rw [hmask, hk, Nat.and_two_pow_sub_one_eq_mod]

/-- The slot of a number does not change when the counter wraps. -/
theorem Ring.and_mask_wrap (n : Nat) : n % 2 ^ 32 &&& r.numFencesMask = n % r.slots := by
  rw [r.and_mask, Nat.mod_mod_of_dvd _ r.slots_dvd]

theorem Ring.next_slot (n : Nat) :
    (n % r.slots + 1) % 2 ^ 32 &&& r.numFencesMask = (n + 1) % r.slots := by
  rw [r.and_mask_wrap, Nat.mod_add_mod]

end

theorem eq_of_mod_eq {a b : Nat} (hle : a ≤ b) (hlt : b < a + 2 ^ 32)
    (h : b % 2 ^ 32 = a % 2 ^ 32) : a = b := by
  rcases lt_or_ge a b with hab | hab
  · exact absurd h.symm (mod_ne_of_lt_of_lt_add hab hlt)
  · exact le_antisymm hle hab

/-! ## Setters -/

@[simp] theorem setFence_self (s : State) (k : Nat) (f : Option Fence) :
    (s.setFence k f).fences k = f := by
  simp [State.setFence]

theorem setFence_ne {s : State} {k i : Nat} (f : Option Fence) (h : i ≠ k) :
    (s.setFence k f).fences i = s.fences i := by
  simp [State.setFence, h]

@[simp] theorem setProcess_self (s : State) (i : Nat) (p : Process) :
    (s.setProcess i p).process i = p := by
  simp [State.setProcess]

theorem setProcess_ne {s : State} {i j : Nat} (p : Process) (h : j ≠ i) :
    (s.setProcess i p).process j = s.process j := by
  simp [State.setProcess, h]

/-! ## The ranges of the calls -/

/-- The fences up to this number are out of the slots, as far as this call is concerned. -/
def Process.cur : Process → Nat
  | .scan _ _ cur _ => cur
  | .taken _ _ _ cur _ => cur
  | _ => 0

/-- The fences up to this number are signalled, as far as this call is concerned. -/
def Process.low : Process → Nat
  | .scan _ _ cur _ => cur
  | .taken _ _ _ cur _ => cur - 1
  | _ => 0

def Process.upto : Process → Nat
  | .scan _ _ _ upto => upto
  | .taken _ _ _ _ upto => upto
  | _ => 0

def Process.Takes (p : Process) (n : Nat) : Prop := p.cur < n ∧ n ≤ p.upto

def Process.Holds (p : Process) (n : Nat) : Prop := p.low < n ∧ n ≤ p.upto

theorem Process.low_le_cur (p : Process) : p.low ≤ p.cur := by
  cases p <;> simp [Process.low, Process.cur]

theorem Process.Takes.holds {p : Process} {n : Nat} (h : p.Takes n) : p.Holds n :=
  ⟨lt_of_le_of_lt p.low_le_cur h.1, h.2⟩

/-- The fence of the number is in its slot: `last_seq` has not passed it, or a call is still to
take it. -/
def Untaken (s : State) (n : Nat) : Prop := s.passed < n ∨ ∃ i, (s.process i).Takes n

/-- No call of `amdgpu_fence_process` is still to signal a fence up to the number. -/
def Quiet (s : State) (n : Nat) : Prop := ∀ i m, (s.process i).Holds m → n < m

/-! ## The gaps -/

/-- What the step must not meet. `last_seq` has not come round to its value between the read and
the `atomic_cmpxchg` of a call; and when `amdgpu_fence_wait_empty` returns `0`, the number of the
last fence is not `0` with fences behind `last_seq`, the emission of that fence has written its
slot, and no call that has moved `last_seq` is still to signal a fence that was emitted before. -/
def StepOk (r : Ring) (s : State) : Op → Prop
  | .processXchg i => ∀ lastSeq seq last hw, s.process i = .readSeq lastSeq seq last hw →
      s.lastSeq = lastSeq → s.passed = last
  | .waitStart w => s.wait w = .idle → s.syncSeq = 0 → s.lastSeq = 0 ∧ Quiet s s.emitted
  | .waitSlot w => ∀ seq num, s.wait w = .read seq num →
      num ≤ s.stored ∧ (s.fences (seq &&& r.numFencesMask) = none → Quiet s num)
  | .waitDone w => ∀ f num, s.wait w = .waiting f num → Signalled s f → Quiet s num
  | _ => True

/-! ## The invariant -/

/-- What the registers of an emission say. -/
def EmitOk (r : Ring) (s : State) : Emit → Prop
  | .idle => s.emitted = s.stored
  | .begun f => s.emitted = s.stored + 1 ∧ f.num = s.emitted ∧ f.seqno = s.syncSeq
  | .loaded f old => s.emitted = s.stored + 1 ∧ f.num = s.emitted ∧ f.seqno = s.syncSeq ∧
      ∀ g, s.fences (s.emitted % r.slots) = some g → old = some g

/-- What the registers of a call of `amdgpu_fence_process` say. -/
def ProcessOk (r : Ring) (s : State) : Process → Prop
  | .idle => True
  | .readLast lastSeq last => lastSeq = last % 2 ^ 32 ∧ last ≤ s.passed
  | .readSeq lastSeq seq last hw => lastSeq = last % 2 ^ 32 ∧ seq = hw % 2 ^ 32 ∧ last ≤ s.passed ∧
      last ≤ hw ∧ hw ≤ s.written
  | .scan lastSeq seq cur upto => lastSeq = cur % r.slots ∧ seq = upto % r.slots ∧ cur < upto ∧
      upto ≤ cur + r.slots ∧ upto ≤ s.passed
  | .taken lastSeq seq f cur upto => lastSeq = cur % r.slots ∧ seq = upto % r.slots ∧ 0 < cur ∧
      cur ≤ upto ∧ upto < cur + r.slots ∧ upto ≤ s.passed ∧ f.num = cur
  | .done => True

/-- What the registers of a call of `amdgpu_fence_wait_empty` say. -/
def WaitOk (s : State) : Wait → Prop
  | .read seq num => seq = num % 2 ^ 32 ∧ num ≤ s.emitted
  | .waiting f num => num ≤ f.num
  | _ => True

structure Inv (r : Ring) (s : State) : Prop where
  passed_le : s.passed ≤ s.written
  written_le : s.written ≤ s.committed
  committed_le : s.committed ≤ s.stored
  syncSeq : s.syncSeq = s.emitted % 2 ^ 32
  lastSeq : s.lastSeq = s.passed % 2 ^ 32
  cpu : s.cpu = s.written % 2 ^ 32
  emit : EmitOk r s s.emit
  process : ∀ i, ProcessOk r s (s.process i)
  wait : ∀ w, WaitOk s (s.wait w)
  -- the table holds the fences that are stored and not taken, each in its slot
  slotSome : ∀ k g, s.fences k = some g →
    k = g.num % r.slots ∧ 0 < g.num ∧ g.num ≤ s.stored ∧ Untaken s g.num
  slotOf : ∀ n, 0 < n → n ≤ s.stored → Untaken s n →
    ∃ g, s.fences (n % r.slots) = some g ∧ g.num = n
  window : ∀ n, 0 < n → Untaken s n → s.stored < n + r.slots
  -- a passed number is signalled, or one call holds it: the first that read about it
  one : ∀ i j n, (s.process i).Holds n → (s.process j).Holds n → i = j
  first : ∀ i n, (s.process i).Holds n → firstReader n s.reads = some i
  reads : ∀ p ∈ s.reads, p.2 ≤ s.passed
  signals : ∀ n ∈ s.signals, 0 < n ∧ n ≤ s.passed ∧ ∀ i, ¬ (s.process i).Holds n
  signalled : ∀ n, 0 < n → n ≤ s.passed → n ∈ s.signals ∨ ∃ i, (s.process i).Holds n
  nodup : s.signals.Nodup
  kept : s.overwritten = []
  empty : ∀ m ∈ s.returned, ∀ n, 0 < n → n ≤ m → n ∈ s.signals

namespace Inv

variable {r : Ring} {s : State}

theorem emitted_le (h : Inv r s) : s.stored ≤ s.emitted ∧ s.emitted ≤ s.stored + 1 := by
  have he := h.emit
  cases hs : s.emit with
  | idle =>
    rw [hs] at he
    have : s.emitted = s.stored := he
    omega
  | begun f | loaded f old =>
    rw [hs] at he
    have := he.1
    omega

theorem stored_le (h : Inv r s) : s.stored ≤ s.passed + r.slots := by
  have := h.window (s.passed + 1) (Nat.succ_pos _) (.inl (Nat.lt_succ_self _))
  omega

theorem mem_signals_of_quiet (h : Inv r s) {num n : Nat} (hp : num ≤ s.passed)
    (hq : Quiet s num) (hn : 0 < n) (hle : n ≤ num) : n ∈ s.signals := by
  rcases h.signalled n hn (hle.trans hp) with hs | ⟨i, hi⟩
  · exact hs
  · have := hq i n hi
    omega

theorem not_mem_signals (h : Inv r s) {n : Nat} (hn : Untaken s n) : n ∉ s.signals := by
  intro hs
  obtain ⟨-, hp, hno⟩ := h.signals n hs
  rcases hn with hlt | ⟨i, hi⟩
  · omega
  · exact hno i hi.holds

theorem countEmitted_eq (h : Inv r s) : countEmitted s = s.emitted - s.passed := by
  have he := h.emitted_le
  have hst := h.stored_le
  have hsl := r.slots_le
  have hp := h.passed_le
  have hw := h.written_le
  have hc := h.committed_le
  rw [countEmitted, h.syncSeq, h.lastSeq]
  have hpow : (2 : Nat) ^ 32 = 4294967296 := by decide
  have hpow' : (2 : Nat) ^ 31 = 2147483648 := by decide
  rw [hpow'] at hsl
  rw [hpow]
  omega

end Inv

/-! ## The first reader -/

variable {rs : List (Nat × Nat)}

theorem exists_of_firstReader {n i : Nat} (h : firstReader n rs = some i) : ∃ p ∈ rs, n ≤ p.2 := by
  induction rs with
  | nil => cases h
  | cons p rs ih =>
    simp only [firstReader] at h
    split at h
    · next j hj =>
      obtain ⟨q, hq, hle⟩ := ih (hj.trans (by rw [h]))
      exact ⟨q, mem_cons_of_mem _ hq, hle⟩
    · split at h
      · next hle => exact ⟨p, mem_cons_self, hle⟩
      · cases h

theorem firstReader_cons_of_some {n i : Nat} (p : Nat × Nat) (h : firstReader n rs = some i) :
    firstReader n (p :: rs) = some i := by
  simp only [firstReader, h]

theorem firstReader_cons_of_lt {n i m : Nat} (h : ∀ p ∈ rs, p.2 < n) (hle : n ≤ m) :
    firstReader n ((i, m) :: rs) = some i := by
  have hnone : firstReader n rs = none := by
    cases hr : firstReader n rs with
    | none => rfl
    | some j =>
      obtain ⟨p, hp, hn⟩ := exists_of_firstReader hr
      exact absurd (h p hp) (by omega)
  simp only [firstReader, hnone, if_pos hle]

theorem Inv.right {r : Ring} {s : State} (h : Inv r s) : Right s where
  once := h.nodup
  notEarly n hn := ⟨(h.signals n hn).1, (h.signals n hn).2.1.trans h.passed_le⟩
  inTime n i hn he hf hd := by
    obtain ⟨p, hp, hle⟩ := exists_of_firstReader hf
    rcases h.signalled n hn (hle.trans (h.reads p hp)) with hs | ⟨j, hj⟩
    · exact hs
    · have hij : some j = some i := (h.first j n hj).symm.trans hf
      obtain rfl := some.inj hij
      rw [hd] at hj
      exact absurd hj.2 (Nat.not_le_of_lt hn)
  kept := h.kept
  count := ⟨h.countEmitted_eq, by
    have := h.emitted_le
    have := h.passed_le
    have := h.written_le
    have := h.committed_le
    omega⟩
  empty := h.empty

/-! ## Steps that only move registers -/

theorem ProcessOk.mono {r : Ring} {s s' : State} {p : Process} (hp : s.passed ≤ s'.passed)
    (hw : s.written ≤ s'.written) (h : ProcessOk r s p) : ProcessOk r s' p := by
  cases p with
  | idle => exact h
  | readLast => exact ⟨h.1, h.2.trans hp⟩
  | readSeq => exact ⟨h.1, h.2.1, h.2.2.1.trans hp, h.2.2.2.1, h.2.2.2.2.trans hw⟩
  | scan => exact ⟨h.1, h.2.1, h.2.2.1, h.2.2.2.1, h.2.2.2.2.trans hp⟩
  | taken =>
    obtain ⟨h1, h2, h3, h4, h5, h6, h7⟩ := h
    exact ⟨h1, h2, h3, h4, h5, h6.trans hp, h7⟩
  | done => exact h

theorem WaitOk.mono {s s' : State} {w : Wait} (he : s.emitted ≤ s'.emitted) (h : WaitOk s w) :
    WaitOk s' w := by
  cases w with
  | read => exact ⟨h.1, h.2.trans he⟩
  | idle | waiting | done => exact h

namespace Inv

variable {r : Ring} {s : State}

theorem init (r : Ring) : Inv r init where
  passed_le := le_refl _
  written_le := le_refl _
  committed_le := le_refl _
  syncSeq := rfl
  lastSeq := rfl
  cpu := rfl
  emit := rfl
  process _ := trivial
  wait _ := trivial
  slotSome _ _ hg := absurd hg (some_ne_none _).symm
  slotOf _ h0 h1 := absurd h0 (Nat.not_lt_of_le h1)
  window n _ _ := Nat.add_pos_right n r.slots_pos
  one _ _ _ h := absurd h.1 (Nat.not_lt_of_le h.2)
  first _ _ h := absurd h.1 (Nat.not_lt_of_le h.2)
  reads _ h := absurd h not_mem_nil
  signals _ h := absurd h not_mem_nil
  signalled _ h0 h1 := absurd h0 (Nat.not_lt_of_le h1)
  nodup := nodup_nil
  kept := rfl
  empty _ h := absurd h not_mem_nil

section
variable (h : Inv r s)
include h

theorem emitBegin (job : Option Nat) (alloc : Bool) : Inv r (emitBegin s job alloc) := by
  unfold FenceDriver.emitBegin
  split
  · next he =>
    have hst : s.emitted = s.stored := by
      have hok := h.emit
      rwa [he] at hok
    split
    · exact h
    · have hseq : (s.syncSeq + 1) % 2 ^ 32 = (s.emitted + 1) % 2 ^ 32 := by
        rw [h.syncSeq, Nat.mod_add_mod]
      exact { h with
        syncSeq := hseq
        emit := ⟨congrArg (· + 1) hst, rfl, rfl⟩
        wait := fun w => (h.wait w).mono (Nat.le_succ _) }
  · exact h

theorem emitLoad : Inv r (emitLoad r s) := by
  unfold FenceDriver.emitLoad
  split
  · next f he =>
    have hf : s.emitted = s.stored + 1 ∧ f.num = s.emitted ∧ f.seqno = s.syncSeq := by
      have hok := h.emit
      rwa [he] at hok
    have hslot : f.seqno &&& r.numFencesMask = s.emitted % r.slots := by
      rw [hf.2.2, h.syncSeq, r.and_mask_wrap]
    exact { h with
      emit := ⟨hf.1, hf.2.1, hf.2.2, fun g hg => by rw [hslot]; exact hg⟩ }
  · exact h

theorem commit : Inv r (commit s) := by
  unfold FenceDriver.commit
  split
  · exact { h with
      written_le := h.written_le.trans h.committed_le
      committed_le := le_refl _ }
  · exact h

theorem hwWrite (n : Nat) : Inv r (hwWrite s n) := by
  unfold FenceDriver.hwWrite
  split
  · next hn =>
    exact { h with
      passed_le := h.passed_le.trans hn.1
      written_le := hn.2
      cpu := rfl
      process := fun i => (h.process i).mono (le_refl s.passed) hn.1 }
  · exact h

/-- A process goes on, and the fences of `new`, which it held, signal. -/
theorem setProcess_signals {i : Nat} {p : Process} (new : List Nat) (hp : ProcessOk r s p)
    (hh : ∀ n, p.Holds n ↔ (s.process i).Holds n ∧ n ∉ new)
    (ht : ∀ n, p.Takes n ↔ (s.process i).Takes n)
    (hnew : ∀ n ∈ new, 0 < n ∧ n ≤ s.passed ∧ (s.process i).Holds n) (hnodup : new.Nodup) :
    Inv r { s.setProcess i p with signals := new ++ s.signals } := by
  have holds : ∀ j n, ((s.setProcess i p).process j).Holds n ↔
      (s.process j).Holds n ∧ n ∉ new := by
    intro j n
    by_cases hj : j = i
    · rw [hj, setProcess_self, hh]
    · rw [setProcess_ne p hj]
      exact ⟨fun hn => ⟨hn, fun he => hj (h.one j i n hn (hnew n he).2.2)⟩, And.left⟩
  have takes : ∀ j n, ((s.setProcess i p).process j).Takes n ↔ (s.process j).Takes n := by
    intro j n
    by_cases hj : j = i
    · rw [hj, setProcess_self, ht]
    · rw [setProcess_ne p hj]
  have untaken : ∀ n, Untaken (s.setProcess i p) n ↔ Untaken s n := fun n =>
    or_congr Iff.rfl (exists_congr fun j => takes j n)
  exact { h with
    process := fun j => by
      change ProcessOk r s ((s.setProcess i p).process j)
      by_cases hj : j = i
      · rw [hj, setProcess_self]
        exact hp
      · rw [setProcess_ne p hj]
        exact h.process j
    slotSome := fun k g hg => by
      obtain ⟨hk, h0, hle, hu⟩ := h.slotSome k g hg
      exact ⟨hk, h0, hle, (untaken _).mpr hu⟩
    slotOf := fun n h0 hle hu => h.slotOf n h0 hle ((untaken n).mp hu)
    window := fun n h0 hu => h.window n h0 ((untaken n).mp hu)
    one := fun j k n hj hk => h.one j k n ((holds j n).mp hj).1 ((holds k n).mp hk).1
    first := fun j n hj => h.first j n ((holds j n).mp hj).1
    signals := fun n hn => by
      rcases mem_append.mp hn with hn | hn
      · obtain ⟨h0, hle, -⟩ := hnew n hn
        exact ⟨h0, hle, fun j hj => ((holds j n).mp hj).2 hn⟩
      · obtain ⟨h0, hle, hno⟩ := h.signals n hn
        exact ⟨h0, hle, fun j hj => hno j ((holds j n).mp hj).1⟩
    signalled := fun n h0 hle => by
      by_cases he : n ∈ new
      · exact .inl (mem_append_left _ he)
      · rcases h.signalled n h0 hle with hs | ⟨j, hj⟩
        · exact .inl (mem_append_right _ hs)
        · exact .inr ⟨j, (holds j n).mpr ⟨hj, he⟩⟩
    nodup := nodup_append.mpr ⟨hnodup, h.nodup, fun a ha b hb hab =>
      (h.signals b hb).2.2 i (hab ▸ (hnew a ha).2.2)⟩
    empty := fun m hm n hn hle => mem_append_right _ (h.empty m hm n hn hle) }

theorem setProcess {i : Nat} {p : Process} (hp : ProcessOk r s p)
    (hh : ∀ n, p.Holds n ↔ (s.process i).Holds n) (ht : ∀ n, p.Takes n ↔ (s.process i).Takes n) :
    Inv r (s.setProcess i p) :=
  h.setProcess_signals [] hp (fun n => by simp [hh]) ht nofun nodup_nil

theorem processReadLast (i : Nat) : Inv r (processReadLast s i) := by
  unfold FenceDriver.processReadLast
  split
  · next hi =>
    refine h.setProcess ⟨h.lastSeq, le_refl _⟩ (fun n => ?_) fun n => ?_
    · rw [hi]; exact Iff.rfl
    · rw [hi]; exact Iff.rfl
  · exact h

theorem processReadSeq (i : Nat) : Inv r (processReadSeq s i) := by
  unfold FenceDriver.processReadSeq
  split
  · next lastSeq last hi =>
    have hr : lastSeq = last % 2 ^ 32 ∧ last ≤ s.passed := by
      have hok := h.process i
      rwa [hi] at hok
    refine h.setProcess ⟨hr.1, h.cpu, hr.2, hr.2.trans h.passed_le, le_refl _⟩
      (fun n => ?_) fun n => ?_
    · rw [hi]; exact Iff.rfl
    · rw [hi]; exact Iff.rfl
  · exact h

end

end Inv

/-! ## The range of a call -/

namespace Inv

variable {r : Ring} {s : State}

theorem le_passed (h : Inv r s) {i n : Nat} (hn : (s.process i).Holds n) : n ≤ s.passed := by
  have hok := h.process i
  cases hp : s.process i with
  | scan =>
    rw [hp] at hn hok
    exact hn.2.trans hok.2.2.2.2
  | taken =>
    rw [hp] at hn hok
    exact hn.2.trans hok.2.2.2.2.2.1
  | idle | readLast | readSeq | done => rw [hp] at hn; exact absurd hn.1 (Nat.not_lt_of_le hn.2)

theorem takeRange (h : Inv r s) {i hw : Nat} {p : Process} (hi : ∀ n, ¬ (s.process i).Holds n)
    (hle : s.passed ≤ hw) (hwr : hw ≤ s.written)
    (hh : ∀ n, p.Holds n ↔ s.passed < n ∧ n ≤ hw) (ht : ∀ n, p.Takes n ↔ s.passed < n ∧ n ≤ hw)
    (hp : ProcessOk r { s with passed := hw } p) :
    Inv r (({ s with lastSeq := hw % 2 ^ 32, passed := hw, reads := (i, hw) :: s.reads } :
      State).setProcess i p) := by
  have holds : ∀ j n, ((s.setProcess i p).process j).Holds n ↔
      (s.process j).Holds n ∨ j = i ∧ s.passed < n ∧ n ≤ hw := by
    intro j n
    by_cases hj : j = i
    · rw [hj, setProcess_self, hh]
      exact ⟨fun hn => .inr ⟨rfl, hn⟩, fun hn => hn.elim (fun hn => absurd hn (hi n)) And.right⟩
    · rw [setProcess_ne p hj]
      exact ⟨.inl, fun hn => hn.resolve_right fun hn => hj hn.1⟩
  have untaken : ∀ n, Untaken (({ s with
      lastSeq := hw % 2 ^ 32, passed := hw, reads := (i, hw) :: s.reads } : State).setProcess i p) n
      ↔ Untaken s n := by
    intro n
    constructor
    · rintro (hn | ⟨j, hj⟩)
      · exact .inl (lt_of_le_of_lt hle hn)
      · by_cases hji : j = i
        · have hj : ((s.setProcess i p).process j).Takes n := hj
          rw [hji, setProcess_self, ht] at hj
          exact .inl hj.1
        · have hj : ((s.setProcess i p).process j).Takes n := hj
          rw [setProcess_ne p hji] at hj
          exact .inr ⟨j, hj⟩
    · rintro (hn | ⟨j, hj⟩)
      · by_cases hnw : n ≤ hw
        · refine .inr ⟨i, ?_⟩
          change ((s.setProcess i p).process i).Takes n
          rw [setProcess_self, ht]
          exact ⟨hn, hnw⟩
        · exact .inl (Nat.lt_of_not_le hnw)
      · have hji : j ≠ i := fun hji => hi n (hji ▸ hj.holds)
        refine .inr ⟨j, ?_⟩
        change ((s.setProcess i p).process j).Takes n
        rwa [setProcess_ne p hji]
  exact { h with
    passed_le := hwr
    lastSeq := rfl
    process := fun j => by
      change ProcessOk r _ ((s.setProcess i p).process j)
      by_cases hj : j = i
      · rw [hj, setProcess_self]
        exact ProcessOk.mono (s := { s with passed := hw }) (le_refl hw) (le_refl s.written)
          hp
      · rw [setProcess_ne p hj]
        exact (h.process j).mono hle (le_refl s.written)
    slotSome := fun k g hg => by
      obtain ⟨hk, h0, hst, hu⟩ := h.slotSome k g hg
      exact ⟨hk, h0, hst, (untaken _).mpr hu⟩
    slotOf := fun n h0 hst hu => h.slotOf n h0 hst ((untaken n).mp hu)
    window := fun n h0 hu => h.window n h0 ((untaken n).mp hu)
    one := fun j k n hj hk => by
      rcases (holds j n).mp hj with oldj | ⟨rfl, newj⟩ <;>
        rcases (holds k n).mp hk with oldk | ⟨rfl, newk⟩
      · exact h.one j k n oldj oldk
      · exact absurd (h.le_passed oldj) (Nat.not_le_of_lt newk.1)
      · exact absurd (h.le_passed oldk) (Nat.not_le_of_lt newj.1)
      · rfl
    first := fun j n hj => by
      rcases (holds j n).mp hj with old | ⟨rfl, new⟩
      · exact firstReader_cons_of_some _ (h.first j n old)
      · exact firstReader_cons_of_lt (fun q hq => lt_of_le_of_lt (h.reads q hq) new.1) new.2
    reads := fun q hq => by
      rcases mem_cons.mp hq with rfl | hq
      · exact le_refl _
      · exact (h.reads q hq).trans hle
    signals := fun n hn => by
      obtain ⟨h0, hst, hno⟩ := h.signals n hn
      refine ⟨h0, hst.trans hle, fun j hj => ?_⟩
      rcases (holds j n).mp hj with old | ⟨-, new⟩
      · exact hno j old
      · exact absurd hst (Nat.not_le_of_lt new.1)
    signalled := fun n h0 hn => by
      by_cases hp : n ≤ s.passed
      · rcases h.signalled n h0 hp with hs | ⟨j, hj⟩
        · exact .inl hs
        · exact .inr ⟨j, (holds j n).mpr (.inl hj)⟩
      · exact .inr ⟨i, (holds i n).mpr (.inr ⟨rfl, Nat.lt_of_not_le hp, hn⟩)⟩ }

theorem processXchg (h : Inv r s) (i : Nat) (hok : StepOk r s (.processXchg i)) :
    Inv r (processXchg r s i) := by
  unfold FenceDriver.processXchg
  split
  · next lastSeq seq last hw hi =>
    obtain ⟨hl, hq, hlast, hlh, hwr⟩ : lastSeq = last % 2 ^ 32 ∧ seq = hw % 2 ^ 32 ∧
        last ≤ s.passed ∧ last ≤ hw ∧ hw ≤ s.written := by
      have hreg := h.process i
      rwa [hi] at hreg
    have hnone : ∀ n, ¬ (s.process i).Holds n := by
      intro n hn
      rw [hi] at hn
      exact absurd hn.1 (Nat.not_lt_of_le hn.2)
    split
    · next heq =>
      obtain rfl : s.passed = last := hok lastSeq seq last hw hi heq
      have hturn : hw ≤ s.passed + r.slots :=
        hwr.trans (h.written_le.trans (h.committed_le.trans h.stored_le))
      have hsl := r.slots_le
      subst hq
      split
      · next hsame =>
        obtain rfl : s.passed = hw := eq_of_mod_eq hlh (by omega) (hsame.trans hl)
        refine h.takeRange hnone (le_refl _) hwr (fun n => ?_) (fun n => ?_) trivial
        · exact ⟨fun hn => absurd hn.1 (Nat.not_lt_of_le hn.2),
            fun hn => absurd hn.1 (Nat.not_lt_of_le hn.2)⟩
        · exact ⟨fun hn => absurd hn.1 (Nat.not_lt_of_le hn.2),
            fun hn => absurd hn.1 (Nat.not_lt_of_le hn.2)⟩
      · next hmoved =>
        have hlt : s.passed < hw := by
          refine Nat.lt_of_le_of_ne hlh fun he => hmoved ?_
          rw [hl, he]
        rw [hl, r.and_mask_wrap, r.and_mask_wrap]
        exact h.takeRange hnone hlh hwr (fun n => Iff.rfl) (fun n => Iff.rfl)
          ⟨rfl, rfl, hlt, hturn, le_refl _⟩
    · refine h.setProcess trivial (fun n => ?_) fun n => ?_
      · rw [hi]; exact Iff.rfl
      · rw [hi]; exact Iff.rfl
  · exact h

/-! ## Out of the slot, and signalled -/

variable {i lastSeq seq cur upto : Nat}

theorem slot_of_scan (h : Inv r s) (hi : s.process i = .scan lastSeq seq cur upto) :
    ∃ f, s.fences ((cur + 1) % r.slots) = some f ∧ f.num = cur + 1 := by
  obtain ⟨-, -, hlt, -, hup⟩ : lastSeq = cur % r.slots ∧ seq = upto % r.slots ∧ cur < upto ∧
      upto ≤ cur + r.slots ∧ upto ≤ s.passed := by
    have hreg := h.process i
    rwa [hi] at hreg
  refine h.slotOf (cur + 1) (Nat.succ_pos cur) ?_ (.inr ⟨i, ?_⟩)
  · have := h.passed_le
    have := h.written_le
    have := h.committed_le
    omega
  · rw [hi]
    exact ⟨Nat.lt_succ_self cur, hlt⟩

variable {f : Fence}

theorem takeFence (h : Inv r s) (hi : s.process i = .scan lastSeq seq cur upto)
    (hf : s.fences ((cur + 1) % r.slots) = some f) (hnum : f.num = cur + 1) :
    Inv r ((s.setFence ((cur + 1) % r.slots) none).setProcess i
      (.taken ((cur + 1) % r.slots) seq f (cur + 1) upto)) := by
  obtain ⟨-, hseq, hlt, hturn, hup⟩ : lastSeq = cur % r.slots ∧ seq = upto % r.slots ∧
      cur < upto ∧ upto ≤ cur + r.slots ∧ upto ≤ s.passed := by
    have hreg := h.process i
    rwa [hi] at hreg
  generalize hp : Process.taken ((cur + 1) % r.slots) seq f (cur + 1) upto = p
  have holds : ∀ j n, ((s.setProcess i p).process j).Holds n ↔ (s.process j).Holds n := by
    intro j n
    by_cases hj : j = i
    · rw [hj, setProcess_self, hi, ← hp]
      exact Iff.rfl
    · rw [setProcess_ne p hj]
  have takes : ∀ j n, ((s.setProcess i p).process j).Takes n ↔
      (s.process j).Takes n ∧ ¬ (j = i ∧ n = cur + 1) := by
    intro j n
    by_cases hj : j = i
    · rw [hj, setProcess_self, hi, ← hp]
      simp only [Process.Takes, Process.cur, Process.upto, true_and]
      omega
    · rw [setProcess_ne p hj]
      exact ⟨fun hn => ⟨hn, fun he => hj he.1⟩, And.left⟩
  have untaken : ∀ n, Untaken ((s.setFence ((cur + 1) % r.slots) none).setProcess i p) n ↔
      Untaken s n ∧ n ≠ cur + 1 := by
    intro n
    constructor
    · rintro (hn | ⟨j, hj⟩)
      · have hn : s.passed < n := hn
        exact ⟨.inl hn, by omega⟩
      · obtain ⟨old, hne⟩ := (takes j n).mp hj
        refine ⟨.inr ⟨j, old⟩, fun he => hne ⟨?_, he⟩⟩
        refine h.one j i n old.holds ?_
        rw [hi]
        exact ⟨he ▸ Nat.lt_succ_self cur, he ▸ hlt⟩
    · rintro ⟨hn | ⟨j, hj⟩, hne⟩
      · exact .inl hn
      · exact .inr ⟨j, (takes j n).mpr ⟨hj, fun he => hne he.2⟩⟩
  have fences : ∀ k g, (s.setFence ((cur + 1) % r.slots) none).fences k = some g →
      k ≠ (cur + 1) % r.slots ∧ s.fences k = some g := by
    intro k g hg
    by_cases hk : k = (cur + 1) % r.slots
    · rw [hk, setFence_self] at hg
      exact absurd hg (some_ne_none g).symm
    · rw [setFence_ne none hk] at hg
      exact ⟨hk, hg⟩
  exact { h with
    emit := by
      change EmitOk r _ s.emit
      have hok := h.emit
      cases he : s.emit with
      | idle | begun => rw [he] at hok; exact hok
      | loaded =>
        rw [he] at hok
        exact ⟨hok.1, hok.2.1, hok.2.2.1, fun g hg => hok.2.2.2 g (fences _ g hg).2⟩
    process := fun j => by
      change ProcessOk r s ((s.setProcess i p).process j)
      by_cases hj : j = i
      · rw [hj, setProcess_self, ← hp]
        exact ⟨rfl, hseq, Nat.succ_pos cur, hlt, by omega, hup, hnum⟩
      · rw [setProcess_ne p hj]
        exact h.process j
    slotSome := fun k g hg => by
      obtain ⟨hk, hg⟩ := fences k g hg
      obtain ⟨hslot, h0, hst, hu⟩ := h.slotSome k g hg
      refine ⟨hslot, h0, hst, (untaken _).mpr ⟨hu, fun he => hk ?_⟩⟩
      rw [hslot, he]
    slotOf := fun n h0 hst hu => by
      obtain ⟨hu, hne⟩ := (untaken n).mp hu
      obtain ⟨g, hg, hgn⟩ := h.slotOf n h0 hst hu
      have hk : n % r.slots ≠ (cur + 1) % r.slots := by
        intro he
        rw [he, hf] at hg
        obtain rfl := some.inj hg
        exact hne (hgn ▸ hnum)
      exact ⟨g, (setFence_ne none hk).trans hg, hgn⟩
    window := fun n h0 hu => h.window n h0 ((untaken n).mp hu).1
    one := fun j k n hj hk => h.one j k n ((holds j n).mp hj) ((holds k n).mp hk)
    first := fun j n hj => h.first j n ((holds j n).mp hj)
    signals := fun n hn => by
      obtain ⟨h0, hle, hno⟩ := h.signals n hn
      exact ⟨h0, hle, fun j hj => hno j ((holds j n).mp hj)⟩
    signalled := fun n h0 hle => by
      rcases h.signalled n h0 hle with hs | ⟨j, hj⟩
      · exact .inl hs
      · exact .inr ⟨j, (holds j n).mpr hj⟩ }

theorem processSlot (h : Inv r s) (i : Nat) : Inv r (processSlot r s i) := by
  unfold FenceDriver.processSlot
  split
  · next lastSeq seq cur upto hi =>
    obtain ⟨f, hf, hnum⟩ := h.slot_of_scan hi
    have hl : lastSeq = cur % r.slots := by
      have hreg := h.process i
      rw [hi] at hreg
      exact hreg.1
    have hslot : (lastSeq + 1) % 2 ^ 32 &&& r.numFencesMask = (cur + 1) % r.slots := by
      rw [hl, r.next_slot]
    simp only [hslot, hf]
    exact h.takeFence hi hf hnum
  · exact h

theorem nextSlot_holds {cur upto : Nat} (hle : cur ≤ upto) (hlt : upto < cur + r.slots) (n : Nat) :
    ((nextSlot (cur % r.slots) (upto % r.slots) cur upto).Holds n ↔ cur < n ∧ n ≤ upto) ∧
    ((nextSlot (cur % r.slots) (upto % r.slots) cur upto).Takes n ↔ cur < n ∧ n ≤ upto) := by
  unfold nextSlot
  rcases lt_or_ge cur upto with hcu | hcu
  · rw [if_pos (mod_ne_of_lt_of_lt_add hcu hlt)]
    exact ⟨Iff.rfl, Iff.rfl⟩
  · obtain rfl := le_antisymm hle hcu
    rw [if_neg (not_not.mpr rfl)]
    constructor <;> exact ⟨fun hn => absurd hn.1 (Nat.not_lt_of_le hn.2),
      fun hn => absurd hn.1 (Nat.not_lt_of_le hn.2)⟩

theorem signalFence (h : Inv r s) (hi : s.process i = .taken lastSeq seq f cur upto) :
    Inv r
      { s.setProcess i (nextSlot lastSeq seq cur upto) with signals := f.num :: s.signals } := by
  obtain ⟨hl, hseq, h0, hcu, hturn, hup, hnum⟩ : lastSeq = cur % r.slots ∧ seq = upto % r.slots ∧
      0 < cur ∧ cur ≤ upto ∧ upto < cur + r.slots ∧ upto ≤ s.passed ∧ f.num = cur := by
    have hreg := h.process i
    rwa [hi] at hreg
  have hcur : (s.process i).Holds cur := by
    rw [hi]
    exact ⟨Nat.sub_lt h0 Nat.one_pos, hcu⟩
  have hnext := fun n => nextSlot_holds (r := r) hcu hturn n
  have hreg : ProcessOk r s (nextSlot lastSeq seq cur upto) := by
    unfold nextSlot
    split
    · next hne =>
      refine ⟨hl, hseq, Nat.lt_of_le_of_ne hcu fun he => hne ?_, hturn.le, hup⟩
      rw [hl, hseq, he]
    · trivial
  rw [← hl, ← hseq] at hnext
  refine h.setProcess_signals [f.num] hreg (fun n => ?_) (fun n => ?_) (fun n hn => ?_)
    (nodup_singleton _)
  · rw [(hnext n).1, hi, mem_singleton, hnum]
    simp only [Process.Holds, Process.low, Process.upto]
    omega
  · rw [(hnext n).2, hi]
    exact Iff.rfl
  · obtain rfl := (mem_singleton.mp hn).trans hnum
    exact ⟨h0, hcu.trans hup, hcur⟩

theorem processSignal (h : Inv r s) (i : Nat) : Inv r (processSignal s i) := by
  unfold FenceDriver.processSignal
  split
  · next hi => exact h.signalFence hi
  · exact h

/-! ## Into the slot -/

theorem slot_empty (h : Inv r s) {old : Option Fence} (he : s.emit = .loaded f old)
    (hold : ∀ o ∈ old, Signalled s o) : s.fences (s.emitted % r.slots) = none := by
  have hok : ∀ g, s.fences (s.emitted % r.slots) = some g → old = some g := by
    have hreg := h.emit
    rw [he] at hreg
    exact hreg.2.2.2
  cases hslot : s.fences (s.emitted % r.slots) with
  | none => rfl
  | some g =>
    have hsig : g.num ∈ s.signals := hold g (mem_def.mpr (hok g hslot))
    obtain ⟨-, -, -, hu⟩ := h.slotSome _ g hslot
    exact absurd hsig (h.not_mem_signals hu)

theorem storeFence (h : Inv r s) (hst : s.emitted = s.stored + 1) (hnum : f.num = s.emitted)
    (hslot : s.fences (s.emitted % r.slots) = none) :
    Inv r { s.setFence (s.emitted % r.slots) (some f) with
      emit := .idle, stored := s.emitted, overwritten := s.overwritten } := by
  have fresh : ∀ n, 0 < n → n ≤ s.stored → Untaken s n → n % r.slots ≠ s.emitted % r.slots := by
    intro n h0 hle hu he
    obtain ⟨g, hg, -⟩ := h.slotOf n h0 hle hu
    rw [he, hslot] at hg
    exact absurd hg (some_ne_none g).symm
  have hpassed : s.passed < s.emitted := by
    have := h.passed_le
    have := h.written_le
    have := h.committed_le
    omega
  exact { h with
    committed_le := h.committed_le.trans h.emitted_le.1
    emit := rfl
    slotSome := fun k g hg => by
      by_cases hk : k = s.emitted % r.slots
      · have hg : (s.setFence (s.emitted % r.slots) (some f)).fences k = some g := hg
        rw [hk, setFence_self] at hg
        obtain rfl := some.inj hg
        rw [hnum]
        exact ⟨hk, by omega, le_refl _, .inl hpassed⟩
      · have hg : (s.setFence (s.emitted % r.slots) (some f)).fences k = some g := hg
        rw [setFence_ne _ hk] at hg
        obtain ⟨hslotg, h0, hle, hu⟩ := h.slotSome k g hg
        exact ⟨hslotg, h0, hle.trans h.emitted_le.1, hu⟩
    slotOf := fun n h0 hle hu => by
      by_cases hn : n = s.emitted
      · refine ⟨f, ?_, hnum.trans hn.symm⟩
        rw [hn]
        exact setFence_self s _ _
      · have hle : n ≤ s.emitted := hle
        have hle' : n ≤ s.stored := by omega
        obtain ⟨g, hg, hgn⟩ := h.slotOf n h0 hle' hu
        exact ⟨g, (setFence_ne _ (fresh n h0 hle' hu)).trans hg, hgn⟩
    window := fun n h0 hu => by
      change s.emitted < n + r.slots
      have hw := h.window n h0 hu
      have hs := r.slots_pos
      by_contra hge
      have he : s.emitted = n + r.slots := by omega
      refine fresh n h0 (by omega) hu ?_
      rw [he, Nat.add_mod_right] }

theorem emitStore (h : Inv r s) : Inv r (emitStore r s) := by
  unfold FenceDriver.emitStore
  split
  · next f old he =>
    split
    · next hold =>
      obtain ⟨hst, hnum, hseq⟩ : s.emitted = s.stored + 1 ∧ f.num = s.emitted ∧
          f.seqno = s.syncSeq := by
        have hreg := h.emit
        rw [he] at hreg
        exact ⟨hreg.1, hreg.2.1, hreg.2.2.1⟩
      have hk : f.seqno &&& r.numFencesMask = s.emitted % r.slots := by
        rw [hseq, h.syncSeq, r.and_mask_wrap]
      have hslot := h.slot_empty he hold
      simp only [hk, lostAt, hslot, hnum, nil_append]
      exact h.storeFence hst hnum hslot
    · exact h
  · exact h

/-! ## `amdgpu_fence_wait_empty` -/

section
variable (h : Inv r s)
include h

theorem setWait {w : Nat} {p : Wait} (hp : WaitOk s p) : Inv r (s.setWait w p) :=
  { h with
    wait := fun v => by
      change WaitOk _ (if v = w then p else s.wait v)
      split
      · exact hp.mono (le_refl s.emitted)
      · exact (h.wait v).mono (le_refl s.emitted) }

theorem waitReturn {w num : Nat} (hp : num ≤ s.passed) (hq : Quiet s num) :
    Inv r (waitReturn s w num) :=
  { h.setWait (w := w) (p := .done) trivial with
    empty := fun m hm n h0 hle => by
      rcases mem_cons.mp hm with rfl | hm
      · exact h.mem_signals_of_quiet hp hq h0 hle
      · exact h.empty m hm n h0 hle }

theorem waitStart (w : Nat) (hok : StepOk r s (.waitStart w)) : Inv r (waitStart s w) := by
  unfold FenceDriver.waitStart
  split
  · next hw =>
    split
    · next hz =>
      obtain ⟨hl, hq⟩ := hok hw hz
      refine h.waitReturn ?_ hq
      have hle := h.emitted_le
      have hst := h.stored_le
      have hsl := r.slots_le
      have hpe : s.passed ≤ s.emitted :=
        h.passed_le.trans (h.written_le.trans (h.committed_le.trans hle.1))
      refine (eq_of_mod_eq hpe (by omega) ?_).ge
      rw [← h.syncSeq, ← h.lastSeq, hz, hl]
    · exact h.setWait ⟨h.syncSeq, le_refl _⟩
  · exact h

theorem slot_ge {num : Nat} (hst : num ≤ s.stored) (hf : s.fences (num % r.slots) = some f) :
    num ≤ f.num := by
  obtain ⟨hslot, h0, -, hu⟩ := h.slotSome _ f hf
  by_contra hlt
  have hw := h.window f.num h0 hu
  exact mod_ne_of_lt_of_lt_add (Nat.lt_of_not_le hlt) (by omega) hslot.symm

theorem le_passed_of_slot {num : Nat} (hst : num ≤ s.stored) (hf : s.fences (num % r.slots) = none)
    : num ≤ s.passed := by
  by_contra hlt
  obtain ⟨g, hg, -⟩ := h.slotOf num (by omega) hst (.inl (Nat.lt_of_not_le hlt))
  rw [hf] at hg
  exact absurd hg (some_ne_none g).symm

theorem waitSlot (w : Nat) (hok : StepOk r s (.waitSlot w)) : Inv r (waitSlot r s w) := by
  unfold FenceDriver.waitSlot
  split
  · next seq num hw =>
    obtain ⟨hst, hq⟩ := hok seq num hw
    have hseq : seq &&& r.numFencesMask = num % r.slots := by
      have hreg := h.wait w
      rw [hw] at hreg
      rw [hreg.1, r.and_mask_wrap]
    split
    · next hf =>
      have hf' := hf
      rw [hseq] at hf'
      exact h.waitReturn (h.le_passed_of_slot hst hf') (hq hf)
    · next f hf =>
      rw [hseq] at hf
      exact h.setWait (h.slot_ge hst hf)
  · exact h

theorem waitDone (w : Nat) (hok : StepOk r s (.waitDone w)) : Inv r (waitDone s w) := by
  unfold FenceDriver.waitDone
  split
  · next f num hw =>
    split
    · next hs =>
      have hle : num ≤ f.num := by
        have hreg := h.wait w
        rwa [hw] at hreg
      exact h.waitReturn (hle.trans (h.signals _ hs).2.1) (hok f num hw hs)
    · exact h
  · exact h

theorem step (op : Op) (hok : StepOk r s op) : Inv r (step r s op) := by
  cases op with
  | emitBegin job alloc => exact h.emitBegin job alloc
  | emitLoad => exact h.emitLoad
  | emitStore => exact h.emitStore
  | commit => exact h.commit
  | hwWrite n => exact h.hwWrite n
  | processReadLast i => exact h.processReadLast i
  | processReadSeq i => exact h.processReadSeq i
  | processXchg i => exact h.processXchg i hok
  | processSlot i => exact h.processSlot i
  | processSignal i => exact h.processSignal i
  | waitStart w => exact h.waitStart w hok
  | waitSlot w => exact h.waitSlot w hok
  | waitDone w => exact h.waitDone w hok

end

end Inv

/-! ## Runs -/

/-- A run is right in all its states when no step of it meets a gap. -/
theorem fences_right (r : Ring) (ops : List Op)
    (hok : StepsOk (step r) (StepOk r) init ops) : Right (run (step r) init ops) :=
  (run_inv_of_stepsOk (P := Inv r) (fun _ op h hop => h.step op hop) (Inv.init r) hok).right

/-- A run in which a fence is emitted, reached, and signalled by one of two calls that have seen its
number, and `amdgpu_fence_wait_empty` finds its slot empty. -/
theorem fences_right_one : Right (run (step .default) init
    [.emitBegin none true, .emitLoad, .emitStore, .commit, .hwWrite 1, .processReadLast 0,
      .processReadSeq 0, .processReadLast 1, .processReadSeq 1, .processXchg 0, .processXchg 1,
      .processSlot 0, .processSignal 0, .waitStart 0, .waitSlot 0]) := by
  refine fences_right _ _ ⟨trivial, trivial, trivial, trivial, trivial, trivial, trivial,
    trivial, trivial, ?_, ?_, trivial, trivial, ?_, ?_, trivial⟩
  · rintro _ _ _ _ ⟨⟩ _
    rfl
  · rintro _ _ _ _ ⟨⟩ h
    exact absurd h (by decide)
  · intro _ h
    exact absurd h (by decide)
  · rintro _ _ ⟨⟩
    refine ⟨by decide, fun _ i m hm => ?_⟩
    match i with
    | 0 => exact absurd hm.1 (Nat.not_lt_of_le hm.2)
    | 1 => exact absurd hm.1 (Nat.not_lt_of_le hm.2)
    | i + 2 => exact absurd hm.1 (Nat.not_lt_of_le hm.2)

theorem waitEmpty_early : ¬ Right (run (step .default) init
    [.emitBegin none true, .emitLoad, .emitStore, .commit, .hwWrite 1, .processReadLast 0,
      .processReadSeq 0, .processXchg 0, .processSlot 0, .waitStart 0, .waitSlot 0]) := fun h =>
  absurd (h.empty 1 (by decide) 1 (by decide) (by decide)) (by decide)

/-! ## The counter comes round -/

def round (n : Nat) : List Op :=
  [.emitBegin none true, .emitLoad, .emitStore, .commit, .hwWrite n, .processReadLast n,
    .processReadSeq n, .processXchg n, .processSlot n, .processSignal n]

/-- `n` fences are through, and nothing is under way. -/
structure Idle (n : Nat) (s : State) : Prop where
  syncSeq : s.syncSeq = n % 2 ^ 32
  lastSeq : s.lastSeq = n % 2 ^ 32
  cpu : s.cpu = n % 2 ^ 32
  fences : s.fences = fun _ => none
  emit : s.emit = .idle
  process : ∀ i, n < i → s.process i = .idle
  wait : s.wait = fun _ => .idle
  signals : ∀ m ∈ s.signals, m ≤ n
  emitted : s.emitted = n
  committed : s.committed = n
  written : s.written = n
  passed : s.passed = n

namespace Idle

variable {r : Ring} {n : Nat} {s : State}

theorem round (h : Idle n s) : Idle (n + 1) (run (step r) s (round (n + 1))) := by
  obtain ⟨h1, h2, h3, h4, h5, h6, h7, h8, h9, h10, h11, h12⟩ := h
  have hne : ¬ (n + 1) % 2 ^ 32 = n % 2 ^ 32 := fun he =>
    absurd (eq_of_mod_eq (Nat.le_succ n) (by omega) he) (by omega)
  have hproc := h6 (n + 1) (Nat.lt_succ_self n)
  -- the emission and the write of the number
  simp only [FenceDriver.round, run_cons, run_nil, step, emitBegin, h1, h5, h9, reduceCtorEq,
    and_false, if_false, Nat.mod_add_mod, emitLoad, h4, r.and_mask_wrap, emitStore,
    mem_def, IsEmpty.forall_iff, implies_true, if_true, lostAt, State.setFence, commit,
    hwWrite, h11, Nat.le_succ, le_refl, and_self]
  -- the call that signals it
  simp only [processReadLast, hproc, State.setProcess, h2, h12, processReadSeq, processXchg, hne,
    processSlot, State.setFence, processSignal, nextSlot, if_true, if_false, r.and_mask_wrap,
    Nat.mod_add_mod,
    ne_eq, not_true_eq_false]
  refine ⟨rfl, rfl, rfl, ?_, rfl, ?_, h7, ?_, rfl, rfl, rfl, rfl⟩
  · funext i
    dsimp only
    split <;> rfl
  · intro i hi
    have hni : i ≠ n + 1 := by omega
    simp only [if_neg hni]
    exact h6 i (by omega)
  · intro m hm
    rcases mem_cons.mp hm with rfl | hm
    · exact le_refl _
    · exact (h8 m hm).trans (Nat.le_succ n)

end Idle

def rounds (k : Nat) : List Op := (range k).flatMap fun n => round (n + 1)

theorem idle_rounds (r : Ring) (k : Nat) : Idle k (run (step r) init (rounds k)) := by
  induction k with
  | zero => exact ⟨rfl, rfl, rfl, rfl, rfl, fun _ _ => rfl, rfl,
      fun _ h => absurd h not_mem_nil, rfl, rfl, rfl, rfl⟩
  | succ k ih =>
    rw [rounds, range_succ, flatMap_append, run_append, flatMap_singleton]
    exact ih.round

/-- Another fence after `k` rounds, and `amdgpu_fence_wait_empty` while it is in its slot. -/
def lastOps (k : Nat) : List Op :=
  rounds k ++ [.emitBegin none true, .emitLoad, .emitStore, .waitStart 0]

theorem waitEmpty_wraps (r : Ring) {k : Nat} (hk : (k + 1) % 2 ^ 32 = 0) :
    ¬ Right (run (step r) init (lastOps k)) := by
  intro h
  have hidle := idle_rounds r k
  rw [lastOps, run_append] at h
  generalize run (step r) init (rounds k) = s at hidle h
  obtain ⟨h1, -, -, h4, h5, -, h7, h8, h9, -, -, -⟩ := hidle
  simp only [run_cons, run_nil, step, emitBegin, h1, h5, h9, reduceCtorEq, and_false, if_false,
    Nat.mod_add_mod, emitLoad, h4, emitStore, mem_def, IsEmpty.forall_iff, implies_true,
    if_true, lostAt, State.setFence, waitStart, h7, hk, waitReturn, State.setWait] at h
  have hm : k + 1 ∈ s.signals := h.empty (k + 1) mem_cons_self (k + 1) (Nat.succ_pos k) le_rfl
  exact absurd (h8 _ hm) (by omega)

/-- The fence after a whole turn of the counter. -/
theorem fenceDriver_not_right : ¬ Right (run (step .default) init (lastOps (2 ^ 32 - 1))) :=
  waitEmpty_wraps .default (by decide)

end Amdkfd.FenceDriver
