import Amdkfd.Fence.Signalling
import Amdkfd.Lib.Count
import Mathlib.Data.List.ReduceOption

/-!
# Runtime-PM references of fences

`amdgpu_fence_emit` takes a reference for each fence, and `amdgpu_fence_process` drops it with the
fence. The reset path empties slots in `amdgpu_fence_driver_clear_job_fences` and completes the
rest in `amdgpu_fence_driver_force_completion`. The calls follow one another, but while an emission
waits for the fence in its slot other calls come in.
-/

namespace Amdkfd.FenceRuntimePm

open Lib List
open FenceDriver (Ring)

/-! ## Model -/

/-- A hardware fence. `jobFence` tells whether it has `amdgpu_job_fence_ops`, and `sFence` whether
its job has a scheduler fence. `num` tells the fences of a ring apart. -/
structure HwFence where
  num : Nat
  seqno : Nat
  jobFence : Bool
  sFence : Bool
  deriving DecidableEq, Repr

/-- `struct amdgpu_fence_driver` with the memory at `cpu_addr`, if there is any. `emitting` is the
fence of an emission that has taken its reference, with the fence it waits for. -/
structure Driver where
  ring : Ring
  cpuAddr : Bool
  syncSeq : Nat
  lastSeq : Nat
  cpu : Nat
  fences : List (Option HwFence)
  emitting : Option (HwFence × Option HwFence)
  signalled : List Nat
  emitted : Nat

def Driver.init (ring : Ring) (cpuAddr : Bool) : Driver where
  ring := ring
  cpuAddr := cpuAddr
  syncSeq := 0
  lastSeq := 0
  cpu := 0
  fences := replicate ring.slots none
  emitting := none
  signalled := []
  emitted := 0

def amdgpuFenceWrite (d : Driver) (seq : Nat) : Driver :=
  if d.cpuAddr then { d with cpu := seq } else d

def amdgpuFenceRead (d : Driver) : Nat :=
  if d.cpuAddr then d.cpu else d.lastSeq

/-- `amdgpu_fence_emit` up to its wait. `job` is the job, by whether it has a scheduler fence, and a
job that is run again brings a fence that has left its slot and is not signalled. Without a job the
fence has to be allocated. -/
def amdgpuFenceEmitBegin (d : Driver) (job : Option Bool) (alloc : Bool) : Driver × Int :=
  match d.emitting with
  | some _ => (d, 0)
  | none =>
    if job = none ∧ alloc = false then (d, 0)
    else
      let seq := (d.syncSeq + 1) % 2 ^ 32
      let fence : HwFence := ⟨d.emitted + 1, seq, job.isSome, job.getD false⟩
      let old := (d.fences[seq &&& d.ring.numFencesMask]?).join
      ({ d with syncSeq := seq, emitted := d.emitted + 1, emitting := some (fence, old) }, 1)

def amdgpuFenceEmitEnd (d : Driver) : Driver × Int :=
  match d.emitting with
  | some (fence, old) =>
    if ∀ o ∈ old, o.num ∈ d.signalled then
      ({ d with
        fences := d.fences.set (fence.seqno &&& d.ring.numFencesMask) (some fence)
        emitting := none }, 0)
    else (d, 0)
  | none => (d, 0)

def amdgpuFenceEmitFail (d : Driver) : Driver × Int :=
  match d.emitting with
  | some (_, some _) => ({ d with emitting := none }, 0)
  | _ => (d, 0)

def processSlot (d : Driver) (slot : Nat) : Driver × Int :=
  match d.fences[slot]? with
  | some (some f) =>
    ({ d with fences := d.fences.set slot none, signalled := f.num :: d.signalled }, -1)
  | _ => (d, 0)

/-- The loop of `amdgpu_fence_process`: what it leaves, the change of the references and
`last_seq`. -/
def processLoop : Nat → Driver → Nat → Nat → Driver × Int × Nat
  | 0, d, lastSeq, _ => (d, 0, lastSeq)
  | fuel + 1, d, lastSeq, seq =>
    let lastSeq := (lastSeq + 1) % 2 ^ 32 &&& d.ring.numFencesMask
    let taken := processSlot d lastSeq
    if lastSeq ≠ seq then
      let rest := processLoop fuel taken.1 lastSeq seq
      (rest.1, taken.2 + rest.2.1, rest.2.2)
    else (taken.1, taken.2, lastSeq)

def amdgpuFenceProcess (d : Driver) : Driver × Int :=
  let lastSeq := d.lastSeq
  let seq := amdgpuFenceRead d
  let d := { d with lastSeq := seq }
  if seq = lastSeq then (d, 0)
  else
    let done := processLoop d.ring.slots d (lastSeq &&& d.ring.numFencesMask)
      (seq &&& d.ring.numFencesMask)
    (done.1, done.2.1)

/-- Whether `amdgpu_fence_driver_clear_job_fences` empties the slot. -/
def isJobFence : Option HwFence → Bool
  | some f => f.jobFence
  | none => false

def clearedSlot (slot : Option HwFence) : Option HwFence :=
  if isJobFence slot then none else slot

def badFences (d : Driver) : List HwFence :=
  (d.fences.filter isJobFence).reduceOption.filter fun f =>
    !f.sFence && decide (f.num ∉ d.signalled)

def amdgpuFenceDriverClearJobFences (d : Driver) : Driver × Int :=
  ({ d with
    fences := d.fences.map clearedSlot
    signalled := (badFences d).map HwFence.num ++ d.signalled }, 0)

/-- `amdgpu_fence_driver_force_completion`. The error that it sets on the fences does not matter
here. -/
def amdgpuFenceDriverForceCompletion (d : Driver) : Driver × Int :=
  amdgpuFenceProcess (amdgpuFenceWrite d d.syncSeq)

/-- A call on a ring, or a write of the hardware. -/
inductive Act
  | emitBegin (job : Option Bool) (alloc : Bool)
  | emitEnd
  | emitFail
  | hwWrite (seq : Nat)
  | process
  | clearJobFences
  | forceCompletion

/-- What is left of the ring, and the change of the references. -/
def Driver.act (d : Driver) : Act → Driver × Int
  | .emitBegin job alloc => amdgpuFenceEmitBegin d job alloc
  | .emitEnd => amdgpuFenceEmitEnd d
  | .emitFail => amdgpuFenceEmitFail d
  | .hwWrite seq => ({ d with cpu := seq % 2 ^ 32 }, 0)
  | .process => amdgpuFenceProcess d
  | .clearJobFences => amdgpuFenceDriverClearJobFences d
  | .forceCompletion => amdgpuFenceDriverForceCompletion d

/-- The rings of a device, and its runtime-PM usage count as far as fences have changed it. -/
structure Device where
  drivers : List Driver
  usage : Int

def Device.init (rings : List (Ring × Bool)) : Device where
  drivers := rings.map fun r => Driver.init r.1 r.2
  usage := 0

/-- A call on the ring of an index. -/
def step (d : Device) (op : Nat × Act) : Device :=
  match d.drivers[op.1]? with
  | some r => { drivers := d.drivers.set op.1 (r.act op.2).1, usage := d.usage + (r.act op.2).2 }
  | none => d

/-! ## What is held -/

/-- The slots that are not empty, and the emission that has not come to its slot. -/
def Driver.held (d : Driver) : Nat :=
  d.fences.countP Option.isSome + if d.emitting.isSome then 1 else 0

/-- The references that are taken are those of the fences in the slots and of the emissions under
way. -/
def Right (d : Device) : Prop := d.usage = ((d.drivers.map Driver.held).sum : Nat)
  deriving Decidable

/-- `amdgpu_fence_driver_clear_job_fences` finds no fence of a job, and an emission does not fail in
its wait. -/
def ActOk (r : Driver) : Act → Prop
  | .clearJobFences => ∀ slot ∈ r.fences, isJobFence slot = false
  | .emitFail => ∀ f o, r.emitting ≠ some (f, some o)
  | _ => True

def StepOk (d : Device) (op : Nat × Act) : Prop :=
  ∀ r, d.drivers[op.1]? = some r → ActOk r op.2

/-! ## The invariant of a ring -/

def Driver.stored (d : Driver) : Nat := if d.emitting.isSome then d.emitted - 1 else d.emitted

/-- The fences in the slots are not signalled, each is in the slot of its number, and the slot of an
emission under way still has the fence that it waits for or none. -/
structure Driver.Inv (d : Driver) : Prop where
  length : d.fences.length = d.ring.slots
  syncSeq : d.syncSeq = d.emitted % 2 ^ 32
  slot : ∀ k f, d.fences[k]? = some (some f) →
    k = f.num % d.ring.slots ∧ f.num ≤ d.stored ∧ f.num ∉ d.signalled
  signalled : ∀ n ∈ d.signalled, n ≤ d.stored
  emitting : ∀ f old, d.emitting = some (f, old) →
    f.num = d.emitted ∧ 0 < d.emitted ∧ f.seqno = d.syncSeq ∧
      ∀ g, d.fences[d.emitted % d.ring.slots]? = some (some g) → old = some g

theorem Driver.inv_init (ring : Ring) (cpuAddr : Bool) : (Driver.init ring cpuAddr).Inv where
  length := length_replicate
  syncSeq := rfl
  slot k f hf := by
    simp only [Driver.init, getElem?_replicate] at hf
    split at hf <;> cases hf
  signalled n hn := absurd hn not_mem_nil
  emitting f old h := by cases h

section
variable {d : Driver}

theorem Driver.Inv.and_mask (h : d.Inv) :
    d.syncSeq &&& d.ring.numFencesMask = d.emitted % d.ring.slots := by
  rw [h.syncSeq, d.ring.and_mask_wrap]

theorem emitBegin_spec (h : d.Inv) (job : Option Bool) (alloc : Bool) :
    (amdgpuFenceEmitBegin d job alloc).1.Inv ∧
      ((amdgpuFenceEmitBegin d job alloc).1.held : Int) =
        d.held + (amdgpuFenceEmitBegin d job alloc).2 := by
  unfold amdgpuFenceEmitBegin
  cases hemit : d.emitting with
  | some e => exact ⟨h, by simp⟩
  | none =>
    dsimp only
    split
    case isTrue => exact ⟨h, by simp⟩
    case isFalse =>
      have hstored : d.stored = d.emitted := by simp [Driver.stored, hemit]
      have hseq : (d.syncSeq + 1) % 2 ^ 32 = (d.emitted + 1) % 2 ^ 32 := by
        rw [h.syncSeq, Nat.mod_add_mod]
      refine ⟨⟨h.length, hseq, ?_, ?_, ?_⟩, ?_⟩
      · intro k f hf
        obtain ⟨hk, hle, hnot⟩ := h.slot k f hf
        exact ⟨hk, by rwa [hstored] at hle, hnot⟩
      · intro n hn
        have hle := h.signalled n hn
        rwa [hstored] at hle
      · rintro f old ⟨⟩
        refine ⟨rfl, Nat.succ_pos _, rfl, fun g hg => ?_⟩
        have hslot : (d.syncSeq + 1) % 2 ^ 32 &&& d.ring.numFencesMask =
            (d.emitted + 1) % d.ring.slots := by
          rw [hseq, d.ring.and_mask_wrap]
        have hget : d.fences[(d.emitted + 1) % d.ring.slots]? = some (some g) := hg
        rw [hslot, hget]
        rfl
      · simp [Driver.held, hemit]

theorem Driver.Inv.slot_empty (h : d.Inv) {f : HwFence} {old : Option HwFence}
    (hemit : d.emitting = some (f, old)) (hold : ∀ o ∈ old, o.num ∈ d.signalled) :
    d.fences[d.emitted % d.ring.slots]? = some none := by
  have hlt : d.emitted % d.ring.slots < d.fences.length := by
    rw [h.length]
    exact Nat.mod_lt _ d.ring.slots_pos
  rw [getElem?_eq_getElem hlt]
  cases hslot : d.fences[d.emitted % d.ring.slots] with
  | none => rfl
  | some g =>
    have hget : d.fences[d.emitted % d.ring.slots]? = some (some g) := by
      rw [getElem?_eq_getElem hlt, hslot]
    have hsame := (h.emitting f old hemit).2.2.2 g hget
    exact absurd (hold g hsame) (h.slot _ g hget).2.2

theorem emitEnd_spec (h : d.Inv) :
    (amdgpuFenceEmitEnd d).1.Inv ∧
      ((amdgpuFenceEmitEnd d).1.held : Int) = d.held + (amdgpuFenceEmitEnd d).2 := by
  unfold amdgpuFenceEmitEnd
  cases hemit : d.emitting with
  | none => exact ⟨h, by simp⟩
  | some e =>
    obtain ⟨f, old⟩ := e
    dsimp only
    split
    case isFalse => exact ⟨h, by simp⟩
    case isTrue hold =>
      obtain ⟨hnum, hpos, hseqno, -⟩ := h.emitting f old hemit
      have hempty := h.slot_empty hemit hold
      have hstored : d.stored = d.emitted - 1 := by simp [Driver.stored, hemit]
      rw [hseqno, h.and_mask]
      refine ⟨⟨?_, h.syncSeq, ?_, ?_, ?_⟩, ?_⟩
      · rw [length_set]
        exact h.length
      · intro k g hg
        have hg : (d.fences.set (d.emitted % d.ring.slots) (some f))[k]? = some (some g) := hg
        by_cases hk : d.emitted % d.ring.slots = k
        · subst hk
          obtain ⟨hlt, -⟩ := List.getElem?_eq_some_iff.mp hempty
          rw [getElem?_set_self hlt] at hg
          obtain rfl : f = g := by simpa using hg
          rw [hnum]
          refine ⟨rfl, le_rfl, fun hmem => ?_⟩
          have := h.signalled _ hmem
          omega
        · rw [getElem?_set_ne hk] at hg
          obtain ⟨hslot, hle, hnot⟩ := h.slot k g hg
          exact ⟨hslot, by show g.num ≤ d.emitted; omega, hnot⟩
      · intro n hn
        have hle := h.signalled n hn
        show n ≤ d.emitted
        omega
      · rintro f old ⟨⟩
      · have hcount := countP_set_add (b := some f) Option.isSome hempty
        simp only [Driver.held, hemit]
        simp at hcount ⊢
        omega

theorem emitFail_spec (h : d.Inv) :
    (amdgpuFenceEmitFail d).1.Inv ∧
      (((amdgpuFenceEmitFail d).1.held : Int) = d.held + (amdgpuFenceEmitFail d).2 ↔
        ActOk d .emitFail) := by
  unfold amdgpuFenceEmitFail ActOk
  split
  case h_1 f o hemit =>
    have hle : d.stored ≤ d.emitted := by
      unfold Driver.stored
      split <;> omega
    refine ⟨⟨h.length, h.syncSeq, ?_, ?_, ?_⟩, ?_⟩
    · intro k g hg
      obtain ⟨hslot, hnum, hnot⟩ := h.slot k g hg
      exact ⟨hslot, hnum.trans hle, hnot⟩
    · exact fun n hn => (h.signalled n hn).trans hle
    · rintro f old ⟨⟩
    · -- The reference that was taken stays.
      refine iff_of_false ?_ fun hno => hno f o hemit
      simp [Driver.held, hemit]
  case h_2 hno =>
    exact ⟨h, iff_of_true (by simp) fun f o hemit => hno f o hemit⟩

/-! ### `amdgpu_fence_process` -/

theorem processSlot_spec (h : d.Inv) (slot : Nat) :
    (processSlot d slot).1.Inv ∧
      ((processSlot d slot).1.held : Int) = d.held + (processSlot d slot).2 := by
  unfold processSlot
  split
  case h_2 => exact ⟨h, by simp⟩
  case h_1 f hf =>
    obtain ⟨hslot, hle, hnot⟩ := h.slot slot f hf
    refine ⟨⟨?_, h.syncSeq, ?_, ?_, ?_⟩, ?_⟩
    · rw [length_set]
      exact h.length
    · intro k g hg
      have hg : (d.fences.set slot none)[k]? = some (some g) := hg
      by_cases hk : slot = k
      · subst hk
        rw [getElem?_set_self (List.getElem?_eq_some_iff.mp hf).1] at hg
        simp at hg
      · rw [getElem?_set_ne hk] at hg
        obtain ⟨hgslot, hgle, hgnot⟩ := h.slot k g hg
        refine ⟨hgslot, hgle, fun hmem => ?_⟩
        obtain heq | hmem := mem_cons.mp hmem
        · exact hk (by rw [hslot, hgslot, heq])
        · exact hgnot hmem
    · exact forall_mem_cons.mpr ⟨hle, h.signalled⟩
    · intro e old hemit
      obtain ⟨hnum, hpos, hseqno, hold⟩ := h.emitting e old hemit
      refine ⟨hnum, hpos, hseqno, fun g hg => ?_⟩
      have hg : (d.fences.set slot none)[d.emitted % d.ring.slots]? = some (some g) := hg
      by_cases hk : slot = d.emitted % d.ring.slots
      · subst hk
        rw [getElem?_set_self (List.getElem?_eq_some_iff.mp hf).1] at hg
        simp at hg
      · rw [getElem?_set_ne hk] at hg
        exact hold g hg
    · have hcount := countP_set_add (b := none) Option.isSome hf
      simp only [Driver.held]
      simp at hcount ⊢
      omega

theorem processLoop_spec (h : d.Inv) (fuel lastSeq seq : Nat) :
    (processLoop fuel d lastSeq seq).1.Inv ∧
      ((processLoop fuel d lastSeq seq).1.held : Int) =
        d.held + (processLoop fuel d lastSeq seq).2.1 := by
  induction fuel generalizing d lastSeq with
  | zero => exact ⟨h, by simp [processLoop]⟩
  | succ fuel ih =>
    rw [processLoop]
    dsimp only
    obtain ⟨hinv, hheld⟩ := processSlot_spec h ((lastSeq + 1) % 2 ^ 32 &&& d.ring.numFencesMask)
    split
    · obtain ⟨hrest, hsum⟩ := ih hinv ((lastSeq + 1) % 2 ^ 32 &&& d.ring.numFencesMask)
      exact ⟨hrest, by rw [hsum, hheld, Int.add_assoc]⟩
    · exact ⟨hinv, hheld⟩

theorem process_spec (h : d.Inv) :
    (amdgpuFenceProcess d).1.Inv ∧
      ((amdgpuFenceProcess d).1.held : Int) = d.held + (amdgpuFenceProcess d).2 := by
  have hread : Driver.Inv { d with lastSeq := amdgpuFenceRead d } :=
    ⟨h.length, h.syncSeq, h.slot, h.signalled, h.emitting⟩
  unfold amdgpuFenceProcess
  dsimp only
  split
  · exact ⟨hread, by simp [Driver.held]⟩
  · exact processLoop_spec hread _ _ _

theorem forceCompletion_spec (h : d.Inv) :
    (amdgpuFenceDriverForceCompletion d).1.Inv ∧
      ((amdgpuFenceDriverForceCompletion d).1.held : Int) =
        d.held + (amdgpuFenceDriverForceCompletion d).2 := by
  have hwrite : (amdgpuFenceWrite d d.syncSeq).Inv := by
    unfold amdgpuFenceWrite
    split
    · exact ⟨h.length, h.syncSeq, h.slot, h.signalled, h.emitting⟩
    · exact h
  have hheld : (amdgpuFenceWrite d d.syncSeq).held = d.held := by
    unfold amdgpuFenceWrite
    split <;> rfl
  rw [← hheld]
  exact process_spec hwrite

/-! ### `amdgpu_fence_driver_clear_job_fences` -/

theorem cleared_kept {k : Nat} {g : HwFence}
    (hg : (d.fences.map clearedSlot)[k]? = some (some g)) :
    d.fences[k]? = some (some g) ∧ isJobFence (some g) = false := by
  rw [getElem?_map, Option.map_eq_some_iff] at hg
  obtain ⟨slot, hslot, heq⟩ := hg
  unfold clearedSlot at heq
  split at heq
  · cases heq
  · next hjob =>
    subst heq
    exact ⟨hslot, by simpa using hjob⟩

theorem cleared_signalled {n : Nat} (hn : n ∈ (badFences d).map HwFence.num) :
    ∃ (f : HwFence) (j : Nat),
      d.fences[j]? = some (some f) ∧ isJobFence (some f) = true ∧ f.num = n := by
  obtain ⟨f, hf, rfl⟩ := mem_map.mp hn
  have hmem := reduceOption_mem_iff.mp (mem_of_mem_filter hf)
  obtain ⟨hin, hjob⟩ := mem_filter.mp hmem
  obtain ⟨j, hj⟩ := mem_iff_getElem?.mp hin
  exact ⟨f, j, hj, hjob, rfl⟩

theorem clearJobFences_inv (h : d.Inv) : (amdgpuFenceDriverClearJobFences d).1.Inv := by
  refine ⟨?_, h.syncSeq, ?_, ?_, ?_⟩
  · simp only [amdgpuFenceDriverClearJobFences, length_map]
    exact h.length
  · intro k g hg
    obtain ⟨hget, hjob⟩ := cleared_kept hg
    obtain ⟨hslot, hle, hnot⟩ := h.slot k g hget
    refine ⟨hslot, hle, fun hmem => ?_⟩
    obtain hbad | hmem := mem_append.mp hmem
    · -- A number that has just been signalled is that of the fence in another slot.
      obtain ⟨f, j, hf, hfjob, hfnum⟩ := cleared_signalled hbad
      have hfslot := (h.slot j f hf).1
      have hsame : j = k := by rw [hfslot, hslot, hfnum]
      rw [hsame, hget] at hf
      obtain rfl : g = f := by simpa using hf
      rw [hjob] at hfjob
      cases hfjob
    · exact hnot hmem
  · intro n hn
    obtain hbad | hmem := mem_append.mp hn
    · obtain ⟨f, j, hf, -, rfl⟩ := cleared_signalled hbad
      exact (h.slot j f hf).2.1
    · exact h.signalled n hmem
  · intro e old hemit
    obtain ⟨hnum, hpos, hseqno, hold⟩ := h.emitting e old hemit
    exact ⟨hnum, hpos, hseqno, fun g hg => hold g (cleared_kept hg).1⟩

theorem countP_clearedSlot (fences : List (Option HwFence)) :
    (fences.map clearedSlot).countP Option.isSome + fences.countP isJobFence =
      fences.countP Option.isSome := by
  induction fences with
  | nil => rfl
  | cons slot fences ih =>
    rw [map_cons, countP_cons, countP_cons, countP_cons, ← ih]
    cases slot with
    | none => rfl
    | some f =>
      cases hjob : f.jobFence <;> simp only [clearedSlot, isJobFence, hjob] <;> simp <;> omega

theorem clearJobFences_held :
    (amdgpuFenceDriverClearJobFences d).1.held + d.fences.countP isJobFence = d.held := by
  have hcount := countP_clearedSlot d.fences
  simp only [Driver.held, amdgpuFenceDriverClearJobFences]
  rw [← hcount, Nat.add_right_comm]
  rfl

theorem clearJobFences_held_iff :
    ((amdgpuFenceDriverClearJobFences d).1.held : Int) =
        d.held + (amdgpuFenceDriverClearJobFences d).2 ↔ ActOk d .clearJobFences := by
  have hheld := clearJobFences_held (d := d)
  have hzero : d.fences.countP isJobFence = 0 ↔ ActOk d .clearJobFences := by
    rw [countP_eq_zero]
    simp [ActOk]
  rw [← hzero]
  show ((amdgpuFenceDriverClearJobFences d).1.held : Int) = d.held + 0 ↔ _
  omega

/-! ### Calls -/

theorem Driver.Inv.act (h : d.Inv) (a : Act) : (d.act a).1.Inv := by
  cases a with
  | emitBegin job alloc => exact (emitBegin_spec h job alloc).1
  | emitEnd => exact (emitEnd_spec h).1
  | emitFail => exact (emitFail_spec h).1
  | hwWrite seq => exact ⟨h.length, h.syncSeq, h.slot, h.signalled, h.emitting⟩
  | process => exact (process_spec h).1
  | clearJobFences => exact clearJobFences_inv h
  | forceCompletion => exact (forceCompletion_spec h).1

theorem Driver.act_held_iff (h : d.Inv) (a : Act) :
    ((d.act a).1.held : Int) = d.held + (d.act a).2 ↔ ActOk d a := by
  cases a with
  | emitBegin job alloc => exact iff_of_true (emitBegin_spec h job alloc).2 trivial
  | emitEnd => exact iff_of_true (emitEnd_spec h).2 trivial
  | emitFail => exact (emitFail_spec h).2
  | hwWrite seq => exact iff_of_true (by show (d.held : Int) = d.held + 0; omega) trivial
  | process => exact iff_of_true (process_spec h).2 trivial
  | clearJobFences => exact clearJobFences_held_iff
  | forceCompletion => exact iff_of_true (forceCompletion_spec h).2 trivial

end

/-! ## Runs -/

def AllInv (d : Device) : Prop := ∀ r ∈ d.drivers, r.Inv

theorem allInv_init (rings : List (Ring × Bool)) : AllInv (Device.init rings) := by
  intro r hr
  obtain ⟨ring, -, rfl⟩ := mem_map.mp hr
  exact Driver.inv_init _ _

theorem AllInv.step {d : Device} (h : AllInv d) (op : Nat × Act) : AllInv (step d op) := by
  unfold FenceRuntimePm.step
  cases hget : d.drivers[op.1]? with
  | none => exact h
  | some r =>
    intro r' hr'
    obtain hold | rfl := mem_or_eq_of_mem_set hr'
    · exact h r' hold
    · exact (h r (mem_of_getElem? hget)).act op.2

theorem right_step_iff {d : Device} (h : AllInv d) (hright : Right d) (op : Nat × Act) :
    Right (step d op) ↔ StepOk d op := by
  unfold FenceRuntimePm.step
  cases hget : d.drivers[op.1]? with
  | none => exact iff_of_true hright fun r hr => by rw [hget] at hr; cases hr
  | some r =>
    have hinv := h r (mem_of_getElem? hget)
    have hok : StepOk d op ↔ ActOk r op.2 := by
      simp [StepOk, hget]
    rw [hok, ← Driver.act_held_iff hinv op.2]
    have hset := sum_map_set (b := (r.act op.2).1) Driver.held hget
    have herase := sum_map_eraseIdx_add Driver.held hget
    unfold Right at hright ⊢
    dsimp only
    omega

/-- Also when a ring is reset under a job. -/
theorem drivers_run (rings : List (Ring × Bool)) (ops : List (Nat × Act)) :
    AllInv (run step (Device.init rings) ops) :=
  @run_inv _ _ step AllInv (fun _ op h => h.step op) _ (allInv_init rings) ops

/-- On all rings of a device the references are those of the fences in the slots, in every state of
a run, exactly when no call clears the fence of a job and no emission fails in its wait. -/
theorem references_right_iff (rings : List (Ring × Bool)) (ops : List (Nat × Act)) :
    (∀ n, Right (run step (Device.init rings) (ops.take n))) ↔
      StepsOk step StepOk (Device.init rings) ops := by
  have hstart : Right (Device.init rings) := by
    have hzero : ∀ r : Ring × Bool, (Driver.init r.1 r.2).held = 0 := by
      simp [Driver.held, Driver.init, countP_replicate]
    simp [Right, Device.init, Function.comp_def, hzero]
  have hall : ∀ ops, AllInv (run step (Device.init rings) ops) := fun ops =>
    @run_inv _ _ step AllInv (fun _ op h => AllInv.step h op) _ (allInv_init rings) ops
  have hiff := @stepsOk_iff_take _ _ step StepOk (fun d => Right d ∧ AllInv d)
    (fun d op h => (and_iff_left (h.2.step op)).trans (right_step_iff h.2 h.1 op)) _
    ⟨hstart, allInv_init rings⟩ ops
  rw [← hiff]
  exact forall_congr' fun n => (and_iff_left (hall _)).symm

/-- The fence of a job is in its slot when the ring is reset: the slot is empty, its reference
stays. -/
theorem references_wrong :
    ¬ Right (run step (Device.init [(.default, true)])
      [(0, .emitBegin (some true) true), (0, .emitEnd), (0, .clearJobFences),
        (0, .forceCompletion)]) := by
  decide

end Amdkfd.FenceRuntimePm
