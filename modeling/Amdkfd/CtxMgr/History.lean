import Amdkfd.CtxMgr.Model
import Amdkfd.Lib.LastSlots

/-!
# The fence history of an entity
-/

namespace Amdkfd.CtxMgr

open Lib List

/-! ## What a query is to return -/

/-- The fence that `amdgpu_ctx_add_fence` numbered `n`. -/
def Entity.numbered (e : Entity) (n : Nat) : Option Nat :=
  if n = 0 then none else e.history[n - 1]?

/-- For `~0` the newest fence. For another number an error if it is not handed out yet, and else its
fence, or `NULL` when there is none or it is signalled. -/
def FenceAnswer (fences : List SFence) (e : Entity) (seq : Nat)
    (r : Except Errno (Option Nat)) : Prop :=
  if seq = 2 ^ 64 - 1 then r = .ok e.history.getLast?
  else
    (∀ err, r = .error err ↔ err = .einval ∧ e.history.length < seq) ∧
      ∀ f, r = .ok f → f = e.numbered seq ∨
        f = none ∧ ∀ n, e.numbered seq = some n → signalled fences n

/-! ## Slots -/

theorem SchedJobs.jobs_pos (j : SchedJobs) : 0 < j.jobs := Nat.two_pow_pos _

theorem SchedJobs.slot_eq (j : SchedJobs) (seq : Nat) : seq &&& (j.jobs - 1) = seq % j.jobs :=
  Nat.and_two_pow_sub_one_eq_mod ..

/-- The wrap of the counter does not disturb the order of the slots. -/
theorem SchedJobs.slot_mod (j : SchedJobs) (n : Nat) : n % 2 ^ 64 % j.jobs = n % j.jobs :=
  Nat.mod_mod_of_dvd n (Nat.pow_dvd_pow 2 (by have := j.int; omega))

structure Entity.Inv (j : SchedJobs) (fences : List SFence) (e : Entity) : Prop where
  sequence : e.sequence = (e.history.length + 1) % 2 ^ 64
  slots : e.fences.rotate (e.history.length + 1) = lastSlots j.jobs e.history
  replaced : ∀ f ∈ e.history.take (e.history.length - j.jobs), signalled fences f

variable {j : SchedJobs} {fences : List SFence} {e : Entity}

theorem Entity.inv_init (hwIp : Nat) : (Entity.init j hwIp).Inv j fences where
  sequence := rfl
  slots := by
    rw [show (Entity.init j hwIp).history = [] from rfl, lastSlots_nil]
    exact rotate_replicate ..
  replaced f hf := by simp [Entity.init] at hf

section
variable (h : e.Inv j fences)
include h

theorem Entity.Inv.mono {fences' : List SFence}
    (hsig : ∀ f, signalled fences f → signalled fences' f) : e.Inv j fences' where
  sequence := h.sequence
  slots := h.slots
  replaced f hf := hsig f (h.replaced f hf)

theorem Entity.Inv.length : e.fences.length = j.jobs := by
  rw [← length_rotate e.fences (e.history.length + 1), h.slots, lastSlots_length]

theorem Entity.Inv.slot {p : Nat} (hlt : e.history.length < p) (hle : p ≤ e.history.length + j.jobs) :
    (e.fences[p % j.jobs]?).join = e.numbered (p - j.jobs) := by
  obtain ⟨k, rfl⟩ : ∃ k, p = k + (e.history.length + 1) := ⟨p - (e.history.length + 1), by omega⟩
  have hrotate := getElem?_rotate (l := e.fences) (n := e.history.length + 1) (m := k)
    (by rw [h.length]; omega)
  rw [h.length] at hrotate
  rw [← hrotate, h.slots, lastSlots_getElem?]
  unfold Entity.numbered
  by_cases hk : j.jobs ≤ e.history.length + k
  · rw [if_pos hk, if_neg (by omega)]
    congr 1
    omega
  · rw [if_neg hk, if_pos (by omega)]

theorem Entity.Inv.next_slot :
    (e.fences[e.sequence &&& (j.jobs - 1)]?).join = e.numbered (e.history.length + 1 - j.jobs) := by
  rw [j.slot_eq, h.sequence, j.slot_mod]
  exact h.slot (Nat.lt_succ_self _) (by have := j.jobs_pos; omega)

end

theorem Entity.numbered_of_pos {n : Nat} (h : 0 < n) : e.numbered n = e.history[n - 1]? :=
  if_neg (by omega)

theorem Entity.take_concat (j : SchedJobs) (e : Entity) (fence : Nat) :
    (e.history ++ [fence]).take (e.history.length + 1 - j.jobs) =
      e.history.take (e.history.length - j.jobs) ++
        (e.numbered (e.history.length + 1 - j.jobs)).toList := by
  have hpos := j.jobs_pos
  rw [take_append_of_le_length (by omega)]
  rcases Nat.lt_or_ge e.history.length j.jobs with hlt | hge
  · have hzero : e.history.length + 1 - j.jobs = 0 := by omega
    rw [hzero, show e.history.length - j.jobs = 0 by omega]
    rfl
  · have hsucc : e.history.length + 1 - j.jobs = e.history.length - j.jobs + 1 := by omega
    rw [hsucc, take_add_one, Entity.numbered_of_pos (Nat.add_one_pos _), Nat.add_sub_cancel]

theorem Entity.Inv.waited {s : Mgr} (h : e.Inv j s.fences) (hwait : amdgpuCtxWaitPrevFence j s e)
    {n : Nat} (hn : e.numbered (e.history.length + 1 - j.jobs) = some n) :
    signalled s.fences n := by
  unfold amdgpuCtxWaitPrevFence at hwait
  rw [h.next_slot, hn] at hwait
  exact hwait

theorem Entity.Inv.add (h : e.Inv j fences)
    (hother : ∀ n, e.numbered (e.history.length + 1 - j.jobs) = some n → signalled fences n)
    (s : Mgr) (fence : Nat) : (amdgpuCtxAddFence j s e fence).1.Inv j fences where
  sequence := by
    rw [show (amdgpuCtxAddFence j s e fence).1.sequence = (e.sequence + 1) % 2 ^ 64 from rfl,
      h.sequence, Nat.mod_add_mod,
      show (amdgpuCtxAddFence j s e fence).1.history = e.history ++ [fence] from rfl,
      length_append, length_singleton]
  slots := by
    have hne : e.fences ≠ [] := by
      have := h.length
      have := j.jobs_pos
      exact ne_nil_of_length_pos (by omega)
    have hset := rotate_set hne (e.history.length + 1) (some fence)
    rw [h.length] at hset
    rw [show (amdgpuCtxAddFence j s e fence).1.history = e.history ++ [fence] from rfl,
      show (amdgpuCtxAddFence j s e fence).1.fences =
        e.fences.set (e.sequence &&& (j.jobs - 1)) (some fence) from rfl,
      length_append, length_singleton, j.slot_eq, h.sequence, j.slot_mod, hset, h.slots,
      lastSlots_concat j.jobs_pos]
  replaced f hf := by
    rw [show (amdgpuCtxAddFence j s e fence).1.history = e.history ++ [fence] from rfl,
      length_append, length_singleton, e.take_concat j fence, mem_append] at hf
    rcases hf with hold | hnext
    · exact h.replaced f hold
    · exact hother f (Option.mem_toList.mp hnext)

/-! ## Queries -/

theorem Entity.numbered_last (e : Entity) : e.numbered e.history.length = e.history.getLast? := by
  unfold Entity.numbered
  split
  · next h => rw [length_eq_zero_iff.mp h]; rfl
  · rw [getLast?_eq_getElem?]

theorem Entity.Inv.slot_window (h : e.Inv j fences) {seq : Nat} (hle : seq ≤ e.history.length)
    (hwindow : e.history.length < seq + j.jobs) :
    (e.fences[seq &&& (j.jobs - 1)]?).join = e.numbered seq := by
  have hslot := h.slot hwindow (by omega)
  rwa [Nat.add_mod_right, Nat.add_sub_cancel, ← j.slot_eq] at hslot

theorem Entity.Inv.signalled_behind (h : e.Inv j fences) {seq n : Nat}
    (hbehind : seq + j.jobs ≤ e.history.length) (hn : e.numbered seq = some n) :
    signalled fences n := by
  unfold Entity.numbered at hn
  split at hn
  · cases hn
  · refine h.replaced n (mem_of_getElem? (i := seq - 1) ?_)
    rw [getElem?_take_of_lt (by omega)]
    exact hn

theorem fenceAnswer_getFence (h : e.Inv j fences) (hlen : e.history.length + j.jobs < 2 ^ 64)
    (seq : Nat) : FenceAnswer fences e seq (amdgpuCtxGetFence j e seq) := by
  have hpos := j.jobs_pos
  have hsequence : e.sequence = e.history.length + 1 := by
    rw [h.sequence, Nat.mod_eq_of_lt (by omega)]
  unfold FenceAnswer amdgpuCtxGetFence
  by_cases hall : seq = 2 ^ 64 - 1
  · have hlast : (e.sequence + (2 ^ 64 - 1)) % 2 ^ 64 = e.history.length := by
      rw [hsequence]
      omega
    simp only [if_pos hall, hlast]
    rw [if_neg (by omega), Nat.mod_eq_of_lt hlen, if_neg (by omega),
      h.slot_window (Nat.le_refl _) (by omega), e.numbered_last]
  · simp only [if_neg hall]
    by_cases hnew : e.sequence ≤ seq
    · rw [if_pos hnew]
      refine ⟨fun err => ?_, fun f hf => by cases hf⟩
      rw [Except.error.injEq, eq_comm]
      exact ⟨fun heq => ⟨heq, by omega⟩, fun heq => heq.1⟩
    · have hnone (r : Option Nat) (err : Errno) :
          (Except.ok r : Except Errno (Option Nat)) = .error err ↔
            err = .einval ∧ e.history.length < seq :=
        ⟨fun heq => (by cases heq), fun heq => absurd heq.2 (by omega)⟩
      rw [if_neg hnew, Nat.mod_eq_of_lt (show seq + j.jobs < 2 ^ 64 by omega)]
      split
      · next hbehind =>
        refine ⟨hnone none, fun f hf => .inr ⟨(Except.ok.inj hf).symm, fun n hn => ?_⟩⟩
        exact h.signalled_behind (by omega) hn
      · next hwindow =>
        rw [h.slot_window (by omega) (by omega)]
        exact ⟨hnone _, fun f hf => .inl (Except.ok.inj hf).symm⟩

end Amdkfd.CtxMgr
