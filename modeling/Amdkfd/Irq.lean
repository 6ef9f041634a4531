import Amdkfd.Basic
import Amdkfd.Lib.Run
import Mathlib.Logic.Function.Basic

/-!
# Interrupt types of a source

`amdgpu_irq_get`, `amdgpu_irq_put` and `amdgpu_irq_update` of `amdgpu_irq.c`, and the reset with
`amdgpu_irq_gpu_reset_resume_helper`. The counters change outside of the lock, so that calls of
different users, and what they program, interleave.
-/

namespace Amdkfd.Irq

open Function Lib

/-- `hasSet`: the source has `enabled_types` and `funcs->set`. -/
structure Src where
  installed : Bool
  numTypes : Nat
  hasSet : Bool

/-- `hw` is what was programmed, if that did not fail, `updates` the calls that are to come to
`amdgpu_irq_update`, and `taken` the references of the users. -/
structure State where
  enabledTypes : Nat → Int
  hw : Nat → Option Bool
  updates : Nat → Nat
  taken : Nat → Nat

def amdgpuIrqEnabled (src : Src) (s : State) (type : Nat) : Bool :=
  src.installed && type < src.numTypes && src.hasSet && s.enabledTypes type != 0

/-- The counter is looked up again under the lock. `r` is the result of `funcs->set`. -/
def amdgpuIrqUpdate (src : Src) (s : State) (type : Nat) (r : Option Errno) : State :=
  { s with
    hw := update s.hw type (if r = none then some (amdgpuIrqEnabled src s type) else none)
    updates := update s.updates type (s.updates type - 1) }

/-- The counter goes to `count`, and at `edge` an update follows. -/
def State.setCount (s : State) (type : Nat) (count edge : Int) : State :=
  { s with
    enabledTypes := update s.enabledTypes type count
    updates := update s.updates type (s.updates type + if count = edge then 1 else 0) }

def invalid (src : Src) (type : Nat) : Option Errno :=
  if !src.installed then some .enoent
  else if src.numTypes ≤ type || !src.hasSet then some .einval
  else none

def amdgpuIrqGet (src : Src) (s : State) (type : Nat) : State × Option Errno :=
  match invalid src type with
  | some e => (s, some e)
  | none => (s.setCount type (s.enabledTypes type + 1) 1, none)

/-- From the look at the counter to its decrement it has the reference of the caller. -/
def amdgpuIrqPut (src : Src) (s : State) (type : Nat) : State × Option Errno :=
  match invalid src type with
  | some e => (s, some e)
  | none =>
    if !amdgpuIrqEnabled src s type then (s, some .einval)
    else (s.setCount type (s.enabledTypes type - 1) 0, none)

inductive Op
  | get (type : Nat)
  | put (type : Nat)
  | update (type : Nat) (r : Option Errno)
  | gpuReset

/-- The user that made a call has `taken` references once the call has not failed. -/
def refer (type taken : Nat) (r : State × Option Errno) : State :=
  if r.2 = none then { r.1 with taken := update r.1.taken type taken } else r.1

/-- Users put what they have taken. A reset clears the hardware, and all types are updated. -/
def step (src : Src) (s : State) : Op → State
  | .get type => refer type (s.taken type + 1) (amdgpuIrqGet src s type)
  | .put type =>
    if s.taken type = 0 then s else refer type (s.taken type - 1) (amdgpuIrqPut src s type)
  | .update type r => if s.updates type = 0 then s else amdgpuIrqUpdate src s type r
  | .gpuReset =>
    { s with
      hw := fun _ => some false
      updates := fun type => s.updates type + if invalid src type = none then 1 else 0 }

def init : State := ⟨fun _ => 0, fun _ => some false, fun _ => 0, fun _ => 0⟩

/-- The counters are those of the references, of types that there are, and a type for which no
update is to come is programmed as its counter says, or programming it failed. -/
structure Inv (src : Src) (s : State) : Prop where
  count : ∀ type, s.enabledTypes type = s.taken type
  valid : ∀ type, s.taken type ≠ 0 → invalid src type = none
  hw : ∀ type, s.updates type = 0 → ∀ b, s.hw type = some b → (b = true ↔ s.taken type ≠ 0)

section
variable {src : Src} {s : State} {type : Nat}

theorem Inv.enabled (h : Inv src s) : amdgpuIrqEnabled src s type = true ↔ s.taken type ≠ 0 := by
  have hcount := h.count type
  have hvalid := h.valid type
  unfold invalid at hvalid
  unfold amdgpuIrqEnabled
  grind

/-- A counter that does not come to its edge is and was not 0. -/
theorem Inv.refer (h : Inv src s) (hvalid : invalid src type = none) {count edge : Int} {n : Nat}
    (hcount : count = n) (hedge : count ≠ edge → n ≠ 0 ∧ s.taken type ≠ 0) :
    Inv src (refer type n (s.setCount type count edge, none)) := by
  constructor <;> intro t <;> by_cases ht : t = type
  · simp [Irq.refer, State.setCount, ht, hcount]
  · simpa [Irq.refer, State.setCount, ht] using h.count t
  · exact fun _ => ht ▸ hvalid
  · simpa [Irq.refer, State.setCount, ht] using h.valid t
  · subst ht
    intro hu b hb
    have hne : count ≠ edge := fun he => by simp [Irq.refer, State.setCount, he] at hu
    have hold := h.hw t (by simpa [Irq.refer, State.setCount, hne] using hu) b hb
    rw [hold]
    refine iff_of_true (hedge hne).2 ?_
    simpa [Irq.refer] using (hedge hne).1
  · simpa [Irq.refer, State.setCount, ht] using h.hw t

theorem Inv.step (h : Inv src s) (op : Op) : Inv src (step src s op) := by
  cases op with
  | get type =>
    dsimp only [Irq.step, amdgpuIrqGet]
    have hcount := h.count type
    split
    · exact h
    · next hvalid => exact h.refer hvalid (by omega) fun hne => by omega
  | put type =>
    dsimp only [Irq.step, amdgpuIrqPut]
    have hcount := h.count type
    split
    · exact h
    · next htaken =>
      rw [h.valid type htaken, h.enabled.mpr htaken]
      exact h.refer (h.valid type htaken) (by omega) fun hne => by omega
  | update type r =>
    dsimp only [Irq.step]
    split
    · exact h
    · refine ⟨h.count, h.valid, fun t => ?_⟩
      by_cases ht : t = type
      · subst ht
        cases r <;> simp [amdgpuIrqUpdate, ← h.enabled]
      · simpa [amdgpuIrqUpdate, ht] using h.hw t
  | gpuReset =>
    refine ⟨h.count, h.valid, fun t hu b hb => ?_⟩
    by_cases htaken : s.taken t = 0
    · simp_all [Irq.step]
    · simp [Irq.step, h.valid t htaken] at hu

end

end Amdkfd.Irq
