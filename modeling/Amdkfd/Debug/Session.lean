import Amdkfd.Basic
import Amdkfd.Lib.Run

/-!
# Debug sessions

A debug session is active when the process is debugged and its runtime is enabled. It is
started by whichever of `kfd_dbg_trap_enable` and `runtime_enable` comes second, and ended
by whichever of `kfd_dbg_trap_disable` and `runtime_disable` comes first. On each device it
has the reserved VMID, the debug flag of the trap handler, and a request to keep GFXOFF
disabled.

The calls run under the lock of the process. `runtime_enable` and `runtime_disable` release
it while they wait for the debugger, so each is two steps: the call up to the wait, and
`resume`.
-/

namespace Amdkfd.DebugSession

open Lib List Option Bool

/-! ## Model -/

/-- `dqm->trap_debug_vmid`: free, reserved for the process, or for another one. -/
inductive Holder
  | free
  | this
  | other
  deriving DecidableEq

inductive RuntimeState
  | disabled
  | enabled
  | enabledBusy
  | enabledError
  deriving DecidableEq

/-- `struct kfd_process_device` and its device. The first fields are what the device can do
and whether the TMA has been allocated; then come the reservation of the debug VMID, the
flag in the TMA, and the outstanding `amdgpu_gfx_off_ctrl(false)` of the process. -/
structure Pdd where
  perVmid : Bool
  rlcRestore : Bool
  cwsrWorkaround : Bool
  gwsSupport : Bool
  soc15 : Bool
  cwsrKaddr : Bool
  holder : Holder
  debugFlag : Bool
  gfxOff : Int
  deriving DecidableEq

/-- A call that waits on `runtime_enable_sema`, with the local variable that it needs
afterwards. -/
inductive Waiter
  | enable
  | disable (wasEnabled : Bool)
  deriving DecidableEq

/-- `struct kfd_process`. -/
structure Process where
  debugTrapEnabled : Bool
  runtimeState : RuntimeState
  ttmpSetup : Bool
  isRuntimeRetry : Bool
  pdds : List Pdd
  waiters : List Waiter
  deriving DecidableEq

/-- How the scheduler answers while a VMID is reserved or released: it does what it is
asked, it fails to unmap the queues, or it fails later. -/
inductive Sched
  | done
  | unmapFails (e : Errno)
  | mapFails (e : Errno)
  deriving DecidableEq

def reserveDebugTrapVmid (pdd : Pdd) (answer : Sched) : Pdd × Option Errno :=
  if pdd.holder ≠ .free then (pdd, some .ebusy)
  else
    match answer with
    | .unmapFails e => (pdd, some e)
    | .mapFails e => ({ pdd with holder := .this }, some e)
    | .done => ({ pdd with holder := .this }, none)

def releaseDebugTrapVmid (pdd : Pdd) (answer : Sched) : Pdd :=
  if pdd.holder = .free then pdd
  else
    match answer with
    | .unmapFails _ => pdd
    | _ => { pdd with holder := .free }

def gfxOffCtrl (pdd : Pdd) (enable : Bool) : Pdd :=
  { pdd with gfxOff := if enable then pdd.gfxOff - 1 else pdd.gfxOff + 1 }

def setTrapDebugFlag (pdd : Pdd) (enabled : Bool) : Pdd :=
  if pdd.cwsrKaddr then { pdd with debugFlag := enabled } else pdd

/-- The answers to an activation: of `kfd_dbg_set_workaround`, and for each device of the
reservation, of the refresh of the run list or of MES, and of the release in an unwind. -/
structure ActivateArgs where
  workaround : Option Errno
  reserve : Nat → Sched
  refresh : Nat → Option Errno
  release : Nat → Sched

def stateOfError (e : Errno) : RuntimeState :=
  if e = .ebusy then .enabledBusy else .enabledError

/-- The reservation that an activation makes, where the device needs one. -/
def reserveIfNeeded (pdd : Pdd) (answer : Sched) : Pdd × Option Errno :=
  if pdd.perVmid then (pdd, none) else reserveDebugTrapVmid pdd answer

/-- An iteration of the loop of `kfd_dbg_trap_activate`. A failure comes with the state
that the runtime gets. -/
def activateOne (pdd : Pdd) (reserve : Sched) (refresh : Option Errno) :
    Pdd × Option (Errno × RuntimeState) :=
  match reserveIfNeeded pdd reserve with
  | (pdd, some e) => (pdd, some (e, stateOfError e))
  | (pdd, none) =>
    let pdd := gfxOffCtrl pdd false
    let pdd := if pdd.rlcRestore then gfxOffCtrl pdd true else pdd
    (setTrapDebugFlag pdd true, refresh.map fun e => (e, .enabledError))

/-- An iteration of the loop of `kfd_dbg_trap_deactivate`. -/
def deactivateOne (pdd : Pdd) (release : Sched) : Pdd :=
  let pdd := setTrapDebugFlag pdd false
  let pdd := if pdd.rlcRestore then gfxOffCtrl pdd false else pdd
  let pdd := gfxOffCtrl pdd true
  if pdd.perVmid then pdd else releaseDebugTrapVmid pdd release

/-- The loop of `kfd_dbg_trap_activate` from device `i` on, with the device it fails at. -/
def activateLoop (a : ActivateArgs) :
    Nat → List Pdd → List Pdd × Option (Nat × Errno × RuntimeState)
  | _, [] => ([], none)
  | i, pdd :: pdds =>
    match activateOne pdd (a.reserve i) (a.refresh i) with
    | (pdd, some (e, state)) => (pdd :: pdds, some (i, e, state))
    | (pdd, none) =>
      let r := activateLoop a (i + 1) pdds
      (pdd :: r.1, r.2)

/-- The loop of `kfd_dbg_trap_deactivate` over the first `count` devices. -/
def deactivateFirst (release : Nat → Sched) (count : Nat) (pdds : List Pdd) : List Pdd :=
  pdds.mapIdx fun i pdd => if i < count then deactivateOne pdd (release i) else pdd

def kfdDbgTrapDeactivate (p : Process) (release : Nat → Sched) : Process :=
  { p with pdds := deactivateFirst release p.pdds.length p.pdds }

def kfdDbgTrapActivate (p : Process) (a : ActivateArgs) : Process × Option Errno :=
  match a.workaround with
  | some e => ({ p with runtimeState := stateOfError e }, some e)
  | none =>
    match activateLoop a 0 p.pdds with
    | (pdds, none) => ({ p with pdds := pdds }, none)
    | (pdds, some (i, e, state)) =>
      ({ p with runtimeState := state, pdds := deactivateFirst a.release i pdds }, some e)

/-- The arguments and answers of `kfd_dbg_trap_enable`: the `num_gws` of the devices,
whether the file exists, and whether the user memory can be written. -/
structure EnableArgs extends ActivateArgs where
  numGws : Nat → Nat
  fget : Bool
  copy : Bool

/-- The checks of `kfd_dbg_trap_enable` on the devices. -/
def enableChecks (numGws : Nat → Nat) : Nat → List Pdd → Option Errno
  | _, [] => none
  | i, pdd :: pdds =>
    if pdd.soc15 = false then some .enodev
    else if numGws i ≠ 0 ∧ (pdd.gwsSupport = false ∨ pdd.cwsrWorkaround) then some .ebusy
    else enableChecks numGws (i + 1) pdds

def kfdDbgTrapEnable (p : Process) (a : EnableArgs) : Process × Option Errno :=
  if p.debugTrapEnabled then (p, some .ealready)
  else
    match enableChecks a.numGws 0 p.pdds with
    | some e => (p, some e)
    | none =>
      if a.fget = false then (p, some .ebadf)
      else
        -- the result of the activation is not looked at
        let p := if p.runtimeState = .enabled then (kfdDbgTrapActivate p a.toActivateArgs).1 else p
        let p := { p with debugTrapEnabled := true }
        if a.copy = false then (kfdDbgTrapDeactivate p a.release, some .efault) else (p, none)

def kfdDbgTrapDisable (p : Process) (release : Nat → Sched) : Process :=
  if p.debugTrapEnabled = false then p
  else
    let p :=
      match p.runtimeState with
      | .enabled => kfdDbgTrapDeactivate p release
      | .disabled => p
      | _ => { p with runtimeState := .enabled }
    { p with debugTrapEnabled := false }

/-- The requests that go with the setup of the trap temporaries, on the devices that do not
restore the registers by themselves. -/
def ttmpGfxOff (enable : Bool) (pdds : List Pdd) : List Pdd :=
  pdds.map fun pdd => if pdd.rlcRestore then pdd else gfxOffCtrl pdd enable

/-- What a call does: it returns an error or none, or it waits. -/
inductive Outcome
  | returns (r : Option Errno)
  | waits
  deriving DecidableEq

def runtimeRetry (p : Process) (a : ActivateArgs) : Process × Outcome :=
  if p.debugTrapEnabled then
    let p := if p.isRuntimeRetry then p else (kfdDbgTrapActivate p a).1
    ({ p with waiters := p.waiters ++ [.enable] }, .waits)
  else (p, .returns none)

def runtimeSetup (p : Process) (enableTtmpSetup : Bool) : Process :=
  { p with
    runtimeState := .enabled
    ttmpSetup := enableTtmpSetup
    pdds := if enableTtmpSetup then ttmpGfxOff false p.pdds else p.pdds }

def runtimeEnable (p : Process) (enableTtmpSetup : Bool) (queueCount : Nat → Nat)
    (a : ActivateArgs) : Process × Outcome :=
  if p.isRuntimeRetry then runtimeRetry p a
  else if p.runtimeState ≠ .disabled then (p, .returns (some .ebusy))
  else if (range p.pdds.length).any (queueCount · ≠ 0) then (p, .returns (some .eexist))
  else runtimeRetry (runtimeSetup p enableTtmpSetup) a

/-- The part of `runtime_disable` after its wait. -/
def runtimeDisableEnd (p : Process) (wasEnabled : Bool) : Process :=
  { p with
    pdds := if wasEnabled && p.ttmpSetup then ttmpGfxOff true p.pdds else p.pdds
    ttmpSetup := false }

def runtimeDisable (p : Process) (release : Nat → Sched) : Process × Outcome :=
  let wasEnabled : Bool := p.runtimeState = .enabled
  let p := { p with runtimeState := .disabled }
  if p.debugTrapEnabled then
    let p := if wasEnabled then kfdDbgTrapDeactivate p release else p
    ({ p with waiters := p.waiters ++ [.disable wasEnabled] }, .waits)
  else (runtimeDisableEnd p wasEnabled, .returns none)

/-- A call that waits goes on, after `down_interruptible` was interrupted or not. -/
def resume (p : Process) (i : Nat) (interrupted : Bool) : Process × Outcome :=
  let result := if interrupted then some Errno.erestartsys else none
  match p.waiters[i]? with
  | none => (p, .returns (some .einval))
  | some waiter =>
    let p := { p with isRuntimeRetry := interrupted, waiters := p.waiters.eraseIdx i }
    match waiter with
    | .enable => (p, .returns result)
    | .disable wasEnabled =>
      (if interrupted then p else runtimeDisableEnd p wasEnabled, .returns result)

/-- Another process reserves or releases the VMID of a device. -/
def otherProcess (i : Nat) (reserve : Bool) (p : Process) : Process :=
  { p with
    pdds := p.pdds.modify i fun pdd =>
      match pdd.holder, reserve with
      | .free, true => { pdd with holder := .other }
      | .other, false => { pdd with holder := .free }
      | _, _ => pdd }

/-- A call, the end of one, or a call of another process. -/
inductive Op
  | trapEnable (a : EnableArgs)
  | trapDisable (release : Nat → Sched)
  | runtimeEnable (enableTtmpSetup : Bool) (queueCount : Nat → Nat) (a : ActivateArgs)
  | runtimeDisable (release : Nat → Sched)
  | resume (i : Nat) (interrupted : Bool)
  | other (i : Nat) (reserve : Bool)

def step (p : Process) : Op → Process
  | .trapEnable a => (kfdDbgTrapEnable p a).1
  | .trapDisable release => kfdDbgTrapDisable p release
  | .runtimeEnable ttmp queueCount a => (runtimeEnable p ttmp queueCount a).1
  | .runtimeDisable release => (runtimeDisable p release).1
  | .resume i interrupted => (resume p i interrupted).1
  | .other i reserve => otherProcess i reserve p

/-! ## What must hold -/

def Process.active (p : Process) : Bool :=
  p.debugTrapEnabled && decide (p.runtimeState = .enabled)

/-- The state of a device that goes with the state of the process. -/
structure Expected (active ttmp : Bool) (pdd : Pdd) : Prop where
  holder : pdd.holder = .this ↔ active = true ∧ pdd.perVmid = false
  debugFlag : pdd.debugFlag = (active && pdd.cwsrKaddr)
  gfxOff : pdd.gfxOff =
    if pdd.rlcRestore then 0 else (if active then 1 else 0) + if ttmp then 1 else 0

/-- Every device is in the state that goes with the state of the process. -/
def Symmetric (p : Process) : Prop :=
  ∀ pdd ∈ p.pdds, Expected p.active p.ttmpSetup pdd

def Fails (pdd : Pdd) (reserve : Sched) (refresh : Option Errno) : Prop :=
  pdd.perVmid = false ∧ (pdd.holder ≠ .free ∨ reserve ≠ .done) ∨ refresh ≠ none

/-- A failure that leaves nothing behind: the VMID was not reserved, or there is nothing
that the device could keep. -/
def CleanFailure (pdd : Pdd) (reserve : Sched) : Prop :=
  pdd.perVmid = false ∧ (pdd.holder ≠ .free ∨ ∃ e, reserve = .unmapFails e) ∨
    pdd.perVmid = true ∧ pdd.rlcRestore = true ∧ pdd.cwsrKaddr = false

/-- The release of the VMID of a device gets as far as to release it. -/
def ReleaseOk (pdd : Pdd) (release : Sched) : Prop :=
  pdd.perVmid = true ∨ ∀ e, release ≠ .unmapFails e

/-- The condition of an activation: where it fails, it fails cleanly, and the devices
before are released. -/
def ActivateOk (pdds : List Pdd) (a : ActivateArgs) : Prop :=
  a.workaround = none → ∀ (i : Nat) (pdd : Pdd), pdds[i]? = some pdd →
    (∀ j < i, ∀ pdd' : Pdd, pdds[j]? = some pdd' → ¬ Fails pdd' (a.reserve j) (a.refresh j)) →
    Fails pdd (a.reserve i) (a.refresh i) →
    CleanFailure pdd (a.reserve i) ∧
      ∀ j < i, ∀ pdd' : Pdd, pdds[j]? = some pdd' → ReleaseOk pdd' (a.release j)

def ReleasesOk (pdds : List Pdd) (release : Nat → Sched) : Prop :=
  ∀ (i : Nat) (pdd : Pdd), pdds[i]? = some pdd → ReleaseOk pdd (release i)

def AllRlcRestore (pdds : List Pdd) : Prop :=
  ∀ pdd ∈ pdds, pdd.rlcRestore = true

/-- The condition for clearing `ttmp_setup`: the requests that go with it are taken back,
or there are none. -/
def TtmpOk (p : Process) (wasEnabled : Bool) : Prop :=
  wasEnabled = false → p.ttmpSetup = true → AllRlcRestore p.pdds

/-- The condition of a call. -/
def Op.Ok (p : Process) : Op → Prop
  | .trapEnable a =>
    p.debugTrapEnabled = false → enableChecks a.numGws 0 p.pdds = none → a.fget = true →
      a.copy = true ∧ (p.runtimeState = .enabled → ActivateOk p.pdds a.toActivateArgs)
  | .trapDisable release => p.active = true → ReleasesOk p.pdds release
  | .runtimeEnable ttmp queueCount a =>
    p.isRuntimeRetry = false → p.runtimeState = .disabled →
      (range p.pdds.length).any (queueCount · ≠ 0) = false →
      (p.ttmpSetup = true → AllRlcRestore p.pdds) ∧
        (p.debugTrapEnabled = true → ActivateOk (runtimeSetup p ttmp).pdds a)
  | .runtimeDisable release =>
    (p.active = true → ReleasesOk p.pdds release) ∧
      (p.debugTrapEnabled = false → TtmpOk p (decide (p.runtimeState = .enabled)))
  | .resume i interrupted =>
    ∀ wasEnabled, p.waiters[i]? = some (.disable wasEnabled) → interrupted = false →
      TtmpOk p wasEnabled
  | .other _ _ => True

/-- The activations that a call makes, with the process at that point. -/
inductive Activates (p : Process) : Op → Process → ActivateArgs → Prop
  | trapEnable {a : EnableArgs} (off : p.debugTrapEnabled = false)
      (checks : enableChecks a.numGws 0 p.pdds = none) (fget : a.fget = true)
      (state : p.runtimeState = .enabled) : Activates p (.trapEnable a) p a.toActivateArgs
  | runtimeEnable {ttmp : Bool} {queueCount : Nat → Nat} {a : ActivateArgs}
      (retry : p.isRuntimeRetry = false) (state : p.runtimeState = .disabled)
      (queues : (range p.pdds.length).any (queueCount · ≠ 0) = false)
      (on : p.debugTrapEnabled = true) :
      Activates p (.runtimeEnable ttmp queueCount a) (runtimeSetup p ttmp) a

/-- A process before its first call. -/
structure Initial (p : Process) : Prop where
  debugTrapEnabled : p.debugTrapEnabled = false
  runtimeState : p.runtimeState = .disabled
  ttmpSetup : p.ttmpSetup = false
  isRuntimeRetry : p.isRuntimeRetry = false
  waiters : p.waiters = []
  pdds : ∀ pdd ∈ p.pdds, pdd.holder ≠ .this ∧ pdd.debugFlag = false ∧ pdd.gfxOff = 0

/-! ## One device -/

section
variable {active ttmp : Bool} {pdd : Pdd} {reserve release : Sched} {refresh : Option Errno}

theorem activateOne_fails :
    (activateOne pdd reserve refresh).2 ≠ none ↔ Fails pdd reserve refresh := by
  unfold activateOne reserveIfNeeded reserveDebugTrapVmid Fails
  by_cases hvmid : pdd.perVmid <;> by_cases hholder : pdd.holder = .free <;> cases reserve <;>
    cases refresh <;> simp [hvmid, hholder]

theorem stateOfError_ne (e : Errno) : stateOfError e ≠ .enabled := by
  unfold stateOfError
  split <;> simp

theorem activateOne_state {e : Errno} {state : RuntimeState}
    (h : (activateOne pdd reserve refresh).2 = some (e, state)) : state ≠ .enabled := by
  unfold activateOne at h
  split at h
  · cases h
    exact stateOfError_ne e
  · obtain ⟨e', -, heq⟩ := map_eq_some_iff.mp h
    cases heq
    simp

theorem activateOne_ok (hok : (activateOne pdd reserve refresh).2 = none) :
    (pdd.perVmid = false → pdd.holder = .free) ∧
    (activateOne pdd reserve refresh).1 =
      { pdd with
        holder := if pdd.perVmid then pdd.holder else .this
        debugFlag := if pdd.cwsrKaddr then true else pdd.debugFlag
        gfxOff := if pdd.rlcRestore then pdd.gfxOff else pdd.gfxOff + 1 } := by
  have hfine : ¬ Fails pdd reserve refresh := fun h => activateOne_fails.mpr h hok
  obtain ⟨hreserve, -⟩ := not_or.mp hfine
  cases hvmid : pdd.perVmid with
  | true =>
    refine ⟨nofun, ?_⟩
    cases hrlc : pdd.rlcRestore <;> cases hcwsr : pdd.cwsrKaddr <;>
      simp [activateOne, reserveIfNeeded, hvmid, gfxOffCtrl, setTrapDebugFlag, hrlc, hcwsr]
  | false =>
    obtain ⟨hholder, rfl⟩ : pdd.holder = .free ∧ reserve = .done := by
      simpa [hvmid] using hreserve
    refine ⟨fun _ => hholder, ?_⟩
    cases hrlc : pdd.rlcRestore <;> cases hcwsr : pdd.cwsrKaddr <;>
      simp [activateOne, reserveIfNeeded, reserveDebugTrapVmid, hvmid, hholder, gfxOffCtrl,
        setTrapDebugFlag, hrlc, hcwsr]

theorem deactivateOne_eq (hrelease : ReleaseOk pdd release) :
    deactivateOne pdd release =
      { pdd with
        holder := if pdd.perVmid then pdd.holder else .free
        debugFlag := if pdd.cwsrKaddr then false else pdd.debugFlag
        gfxOff := if pdd.rlcRestore then pdd.gfxOff else pdd.gfxOff - 1 } := by
  cases hvmid : pdd.perVmid with
  | true =>
    cases hrlc : pdd.rlcRestore <;> cases hcwsr : pdd.cwsrKaddr <;>
      simp [deactivateOne, hvmid, gfxOffCtrl, setTrapDebugFlag, hrlc, hcwsr]
  | false =>
    have hne := hrelease.resolve_left (by simp [hvmid])
    have hfree : ∀ x : Pdd, releaseDebugTrapVmid x release = { x with holder := .free } := by
      intro x
      unfold releaseDebugTrapVmid
      split
      · next hfree => rw [← hfree]
      · cases release with
        | unmapFails e => exact absurd rfl (hne e)
        | done => rfl
        | mapFails e => rfl
    cases hrlc : pdd.rlcRestore <;> cases hcwsr : pdd.cwsrKaddr <;>
      simp [deactivateOne, hvmid, gfxOffCtrl, setTrapDebugFlag, hrlc, hcwsr, hfree]

theorem activateOne_expected (h : Expected false ttmp pdd)
    (hok : (activateOne pdd reserve refresh).2 = none) :
    Expected true ttmp (activateOne pdd reserve refresh).1 := by
  obtain ⟨hholder, hflag, hgfx⟩ := h
  rw [(activateOne_ok hok).2]
  constructor
  · cases hvmid : pdd.perVmid <;> simp_all
  · cases hcwsr : pdd.cwsrKaddr <;> simp_all
  · cases hrlc : pdd.rlcRestore with
    | true => simpa [hrlc] using hgfx
    | false =>
      simp only [hrlc, false_eq_true, if_false, if_true] at hgfx ⊢
      rw [hgfx]
      omega

theorem deactivateOne_expected (h : Expected true ttmp pdd) (hrelease : ReleaseOk pdd release) :
    Expected false ttmp (deactivateOne pdd release) := by
  obtain ⟨hholder, hflag, hgfx⟩ := h
  rw [deactivateOne_eq hrelease]
  constructor
  · cases hvmid : pdd.perVmid <;> simp_all
  · cases hcwsr : pdd.cwsrKaddr <;> simp_all
  · cases hrlc : pdd.rlcRestore with
    | true => simpa [hrlc] using hgfx
    | false =>
      simp only [hrlc, false_eq_true, if_false, if_true] at hgfx ⊢
      rw [hgfx]
      omega

theorem deactivateOne_activateOne (h : Expected false ttmp pdd)
    (hok : (activateOne pdd reserve refresh).2 = none) (hrelease : ReleaseOk pdd release) :
    deactivateOne (activateOne pdd reserve refresh).1 release = pdd := by
  obtain ⟨hfree, heq⟩ := activateOne_ok hok
  have hflag := h.debugFlag
  rw [deactivateOne_eq (by rw [heq]; exact hrelease), heq]
  cases pdd with
  | mk perVmid rlc wa gws soc15 cwsr holder flag gfxOff =>
    cases perVmid <;> cases rlc <;> cases cwsr <;> simp_all

theorem activateOne_clean (hclean : CleanFailure pdd reserve) :
    (activateOne pdd reserve refresh).1 = pdd := by
  rcases hclean with ⟨hvmid, hreserve⟩ | ⟨hvmid, hrlc, hcwsr⟩
  · by_cases hholder : pdd.holder = .free
    · obtain ⟨e, rfl⟩ := hreserve.resolve_left (not_not.mpr hholder)
      simp [activateOne, reserveIfNeeded, reserveDebugTrapVmid, hvmid, hholder]
    · simp [activateOne, reserveIfNeeded, reserveDebugTrapVmid, hvmid, hholder]
  · cases pdd
    simp_all [activateOne, reserveIfNeeded, gfxOffCtrl, setTrapDebugFlag]

theorem ttmpGfxOff_expected {pdds : List Pdd} (h : ∀ pdd ∈ pdds, Expected active ttmp pdd)
    (enable : Bool) (httmp : ttmp = true → enable = false → AllRlcRestore pdds)
    (httmp' : ttmp = false → enable = true → AllRlcRestore pdds) :
    ∀ pdd ∈ ttmpGfxOff enable pdds, Expected active (!enable) pdd := by
  intro pdd' hpdd'
  obtain ⟨pdd, hpdd, rfl⟩ := mem_map.mp hpdd'
  obtain ⟨hholder, hflag, hgfx⟩ := h pdd hpdd
  cases hrlc : pdd.rlcRestore with
  | true => exact ⟨hholder, hflag, by simpa [hrlc] using hgfx⟩
  | false =>
    have hno : ¬ AllRlcRestore pdds := fun hall => by simp [hall pdd hpdd] at hrlc
    refine ⟨hholder, hflag, ?_⟩
    simp only [hrlc, false_eq_true, if_false] at hgfx
    cases enable <;> cases ttmp <;> simp_all [gfxOffCtrl]

theorem expected_of_allRlcRestore {pdds : List Pdd} (h : ∀ pdd ∈ pdds, Expected active ttmp pdd)
    (ttmp' : Bool) (hall : ttmp ≠ ttmp' → AllRlcRestore pdds) :
    ∀ pdd ∈ pdds, Expected active ttmp' pdd := by
  intro pdd hpdd
  by_cases heq : ttmp = ttmp'
  · exact heq ▸ h pdd hpdd
  · obtain ⟨hholder, hflag, hgfx⟩ := h pdd hpdd
    have hrlc := hall heq pdd hpdd
    exact ⟨hholder, hflag, by simpa [hrlc] using hgfx⟩

end

/-! ## Activation -/

variable {a : ActivateArgs} {p : Process} {ttmp : Bool}

theorem activateLoop_ok {n : Nat} {pdds pdds' : List Pdd}
    (h : activateLoop a n pdds = (pdds', none)) :
    (∀ (i : Nat) (pdd : Pdd), pdds[i]? = some pdd →
      (activateOne pdd (a.reserve (i + n)) (a.refresh (i + n))).2 = none) ∧
    ∀ i : Nat, pdds'[i]? =
      (pdds[i]?).map fun pdd => (activateOne pdd (a.reserve (i + n)) (a.refresh (i + n))).1 := by
  induction pdds generalizing n pdds' with
  | nil =>
    cases h
    simp
  | cons pdd pdds ih =>
    unfold activateLoop at h
    split at h
    · cases h
    next pdd' hone =>
    obtain ⟨rfl, hsnd⟩ := Prod.mk.inj h
    have hrest : activateLoop a (n + 1) pdds = ((activateLoop a (n + 1) pdds).1, none) :=
      Prod.ext rfl hsnd
    obtain ⟨hfine, hget⟩ := ih hrest
    constructor
    · intro i x hx
      cases i with
      | zero =>
        cases hx
        simp [hone]
      | succ i =>
        rw [Nat.add_right_comm i 1 n]
        exact hfine i x hx
    · intro i
      cases i with
      | zero => simp [hone]
      | succ i =>
        rw [Nat.add_right_comm i 1 n]
        exact hget i

theorem activateLoop_failed {n k : Nat} {e : Errno} {state : RuntimeState} {pdds pdds' : List Pdd}
    (h : activateLoop a n pdds = (pdds', some (k, e, state))) :
    ∃ i pdd, k = i + n ∧ pdds[i]? = some pdd ∧
      (activateOne pdd (a.reserve k) (a.refresh k)).2 = some (e, state) ∧
      (∀ (j : Nat) (x : Pdd), j < i → pdds[j]? = some x →
        (activateOne x (a.reserve (j + n)) (a.refresh (j + n))).2 = none) ∧
      ∀ j : Nat, pdds'[j]? =
        if j ≤ i then
          (pdds[j]?).map fun x => (activateOne x (a.reserve (j + n)) (a.refresh (j + n))).1
        else pdds[j]? := by
  induction pdds generalizing n pdds' with
  | nil => cases h
  | cons pdd pdds ih =>
    unfold activateLoop at h
    split at h
    · next pdd' e' state' hone =>
      cases h
      refine ⟨0, pdd, (zero_add _).symm, rfl, by simp [hone],
        fun j _ hj => absurd hj (Nat.not_lt_zero j), fun j => ?_⟩
      cases j with
      | zero => simp [hone]
      | succ j => simp
    next pdd' hone =>
    obtain ⟨rfl, hsnd⟩ := Prod.mk.inj h
    have hrest : activateLoop a (n + 1) pdds =
        ((activateLoop a (n + 1) pdds).1, some (k, e, state)) := Prod.ext rfl hsnd
    obtain ⟨i, x, hk, hx, hfail, hfine, hget⟩ := ih hrest
    refine ⟨i + 1, x, by omega, hx, hfail, ?_, ?_⟩
    · intro j y hj hy
      cases j with
      | zero =>
        cases hy
        simp [hone]
      | succ j =>
        rw [Nat.add_right_comm j 1 n]
        exact hfine j y (Nat.lt_of_succ_lt_succ hj) hy
    · intro j
      cases j with
      | zero => simp [hone]
      | succ j =>
        rw [Nat.add_right_comm j 1 n, getElem?_cons_succ, getElem?_cons_succ, hget j]
        simp only [Nat.add_le_add_iff_right]
        rfl

theorem deactivateFirst_getElem (release : Nat → Sched) (count : Nat) (pdds : List Pdd) (i : Nat) :
    (deactivateFirst release count pdds)[i]? =
      (pdds[i]?).map fun pdd => if i < count then deactivateOne pdd (release i) else pdd := by
  simp [deactivateFirst]

theorem activate_failed (h : ∀ pdd ∈ p.pdds, Expected false ttmp pdd) (hok : ActivateOk p.pdds a)
    (hfail : (kfdDbgTrapActivate p a).2 ≠ none) :
    ∃ state, state ≠ .enabled ∧ (kfdDbgTrapActivate p a).1 = { p with runtimeState := state } := by
  unfold kfdDbgTrapActivate at hfail ⊢
  split
  · exact ⟨_, stateOfError_ne _, rfl⟩
  next hwork =>
  split
  · next hloop => simp [hwork, hloop] at hfail
  next pdds k e state hloop =>
  obtain ⟨i, pdd, hk, hpdd, hone, hfine, hget⟩ := activateLoop_failed hloop
  rw [add_zero] at hk
  rw [hk] at hone ⊢
  simp only [add_zero] at hfine hget
  have hfails : Fails pdd (a.reserve i) (a.refresh i) :=
    activateOne_fails.mp (by rw [hone]; simp)
  have hbefore : ∀ j < i, ∀ x : Pdd, p.pdds[j]? = some x →
      ¬ Fails x (a.reserve j) (a.refresh j) :=
    fun j hj x hx hno => activateOne_fails.mpr hno (hfine j x hj hx)
  obtain ⟨hclean, hrelease⟩ := hok hwork i pdd hpdd hbefore hfails
  refine ⟨state, activateOne_state hone, ?_⟩
  have hsame : deactivateFirst a.release i pdds = p.pdds := by
    apply ext_getElem?
    intro j
    rw [deactivateFirst_getElem, hget]
    rcases lt_trichotomy j i with hlt | rfl | hgt
    · rw [if_pos hlt.le]
      cases hx : p.pdds[j]? with
      | none => rfl
      | some x =>
        have hx' := mem_of_getElem? hx
        simp only [map_some, if_pos hlt]
        rw [deactivateOne_activateOne (h x hx') (hfine j x hlt hx) (hrelease j hlt x hx)]
    · rw [if_pos le_rfl, hpdd]
      simp only [map_some, lt_irrefl, if_false]
      rw [activateOne_clean hclean]
    · rw [if_neg (not_le.mpr hgt)]
      simp [not_lt.mpr hgt.le]
  rw [hsame]

theorem activate_symmetric (h : ∀ pdd ∈ p.pdds, Expected false ttmp pdd)
    (hok : ActivateOk p.pdds a) (hstate : p.runtimeState = .enabled) :
    ∀ pdd ∈ (kfdDbgTrapActivate p a).1.pdds,
      Expected (decide ((kfdDbgTrapActivate p a).1.runtimeState = .enabled)) ttmp pdd := by
  by_cases hfail : (kfdDbgTrapActivate p a).2 = none
  · intro pdd' hpdd'
    unfold kfdDbgTrapActivate at hfail hpdd' ⊢
    cases hwork : a.workaround with
    | some e => simp [hwork] at hfail
    | none =>
      simp only [hwork] at hfail hpdd' ⊢
      split at hfail
      · next pdds hloop =>
        obtain ⟨hfine, hget⟩ := activateLoop_ok hloop
        simp only [hloop] at hpdd' ⊢
        obtain ⟨i, hi⟩ := mem_iff_getElem?.mp hpdd'
        rw [hget i] at hi
        obtain ⟨pdd, hpdd, rfl⟩ := map_eq_some_iff.mp hi
        simp only [hstate, decide_true]
        exact activateOne_expected (h pdd (mem_of_getElem? hpdd)) (hfine i pdd hpdd)
      · cases hfail
  · obtain ⟨state, hne, heq⟩ := activate_failed h hok hfail
    rw [heq]
    simpa [hne] using h

theorem activate_frame (p : Process) (a : ActivateArgs) :
    (kfdDbgTrapActivate p a).1.ttmpSetup = p.ttmpSetup ∧
      (kfdDbgTrapActivate p a).1.debugTrapEnabled = p.debugTrapEnabled := by
  unfold kfdDbgTrapActivate
  split
  · exact ⟨rfl, rfl⟩
  · split <;> exact ⟨rfl, rfl⟩

variable {release : Nat → Sched}

theorem deactivate_symmetric (h : ∀ pdd ∈ p.pdds, Expected true ttmp pdd)
    (hok : ReleasesOk p.pdds release) :
    ∀ pdd ∈ (kfdDbgTrapDeactivate p release).pdds, Expected false ttmp pdd := by
  intro pdd' hpdd'
  obtain ⟨i, hi⟩ := mem_iff_getElem?.mp hpdd'
  simp only [kfdDbgTrapDeactivate] at hi
  rw [deactivateFirst_getElem] at hi
  obtain ⟨pdd, hpdd, rfl⟩ := map_eq_some_iff.mp hi
  have hlt : i < p.pdds.length := (List.getElem?_eq_some_iff.mp hpdd).1
  rw [if_pos hlt]
  exact deactivateOne_expected (h pdd (mem_of_getElem? hpdd)) (hok i pdd hpdd)

/-! ## Calls -/

theorem symmetric_trapEnable {a : EnableArgs} (h : Symmetric p) (hok : (Op.trapEnable a).Ok p) :
    Symmetric (kfdDbgTrapEnable p a).1 := by
  unfold kfdDbgTrapEnable
  cases hon : p.debugTrapEnabled with
  | true => exact h
  | false =>
    simp only [false_eq_true, if_false]
    cases hchecks : enableChecks a.numGws 0 p.pdds with
    | some e => exact h
    | none =>
      cases hfget : a.fget with
      | false => exact h
      | true =>
        obtain ⟨hcopy, hactivate⟩ := hok hon hchecks hfget
        simp only [true_eq_false, if_false, hcopy]
        have hidle : ∀ pdd ∈ p.pdds, Expected false p.ttmpSetup pdd := by
          simpa [Symmetric, Process.active, hon] using h
        split
        · next hstate =>
          have hnew := activate_symmetric hidle (hactivate hstate) hstate
          simpa [Symmetric, Process.active, (activate_frame p a.toActivateArgs).1] using hnew
        · next hstate =>
          simpa [Symmetric, Process.active, hstate] using hidle

theorem symmetric_trapDisable (h : Symmetric p) (hok : (Op.trapDisable release).Ok p) :
    Symmetric (kfdDbgTrapDisable p release) := by
  unfold kfdDbgTrapDisable
  cases hon : p.debugTrapEnabled with
  | false => exact h
  | true =>
    simp only [true_eq_false, if_false]
    cases hstate : p.runtimeState with
    | enabled =>
      have hactive : p.active = true := by simp [Process.active, hon, hstate]
      rw [Symmetric, hactive] at h
      exact deactivate_symmetric h (hok hactive)
    | disabled => simpa [Symmetric, Process.active, hon, hstate] using h
    | enabledBusy => simpa [Symmetric, Process.active, hon, hstate] using h
    | enabledError => simpa [Symmetric, Process.active, hon, hstate] using h

theorem symmetric_runtimeRetry
    (h : p.isRuntimeRetry = true ∨ p.debugTrapEnabled = false → Symmetric p)
    (hnew : p.isRuntimeRetry = false → p.debugTrapEnabled = true →
      (∀ pdd ∈ p.pdds, Expected false p.ttmpSetup pdd) ∧ p.runtimeState = .enabled ∧
        ActivateOk p.pdds a) : Symmetric (runtimeRetry p a).1 := by
  unfold runtimeRetry
  cases hon : p.debugTrapEnabled with
  | false => exact h (.inr hon)
  | true =>
    cases hretry : p.isRuntimeRetry with
    | true => exact h (.inl hretry)
    | false =>
      obtain ⟨hidle, hstate, hok⟩ := hnew hretry hon
      have hsym := activate_symmetric hidle hok hstate
      obtain ⟨httmp, hon'⟩ := activate_frame p a
      simpa [Symmetric, Process.active, httmp, hon', hon] using hsym

section
variable (h : Symmetric p)
include h

theorem runtimeSetup_expected (hstate : p.runtimeState = .disabled)
    (hrlc : p.ttmpSetup = true → AllRlcRestore p.pdds) (ttmp : Bool) :
    ∀ pdd ∈ (runtimeSetup p ttmp).pdds, Expected false ttmp pdd := by
  have hidle : ∀ pdd ∈ p.pdds, Expected false p.ttmpSetup pdd := by
    simpa [Symmetric, Process.active, hstate] using h
  cases ttmp with
  | true => exact ttmpGfxOff_expected hidle false (fun hold _ => hrlc hold) nofun
  | false =>
    refine expected_of_allRlcRestore hidle false fun hne => hrlc ?_
    simpa using hne

theorem symmetric_runtimeEnable {queueCount : Nat → Nat}
    (hok : (Op.runtimeEnable ttmp queueCount a).Ok p) :
    Symmetric (runtimeEnable p ttmp queueCount a).1 := by
  unfold runtimeEnable
  split
  · next hretry =>
    exact symmetric_runtimeRetry (fun _ => h) fun hno => by simp [hretry] at hno
  next hretry =>
  split
  · exact h
  next hstate =>
  split
  · exact h
  next hqueues =>
  have hretry : p.isRuntimeRetry = false := by simpa using hretry
  have hstate : p.runtimeState = .disabled := by simpa using hstate
  obtain ⟨hrlc, hactivate⟩ := hok hretry hstate (by simpa using hqueues)
  have hset := runtimeSetup_expected h hstate hrlc ttmp
  refine symmetric_runtimeRetry ?_ fun _ hon => ⟨hset, rfl, hactivate hon⟩
  rintro (hno | hoff)
  · exact absurd (hretry.symm.trans hno) false_ne_true
  · have hidle : (runtimeSetup p ttmp).active = false := by simp [Process.active, hoff]
    rw [Symmetric, hidle]
    exact hset

theorem symmetric_runtimeDisableEnd {wasEnabled : Bool} (hok : TtmpOk p wasEnabled) :
    Symmetric (runtimeDisableEnd p wasEnabled) := by
  have hcleared : ∀ pdd ∈ (if wasEnabled && p.ttmpSetup then ttmpGfxOff true p.pdds else p.pdds),
      Expected p.active false pdd := by
    cases httmp : p.ttmpSetup with
    | false =>
      rw [Symmetric, httmp] at h
      simpa using h
    | true =>
      rw [Symmetric, httmp] at h
      cases wasEnabled with
      | true => exact ttmpGfxOff_expected h true nofun nofun
      | false => exact expected_of_allRlcRestore h false fun _ => hok rfl httmp
  exact hcleared

theorem symmetric_runtimeDisable (hok : (Op.runtimeDisable release).Ok p) :
    Symmetric (runtimeDisable p release).1 := by
  obtain ⟨hrelease, httmp⟩ := hok
  unfold runtimeDisable
  cases hon : p.debugTrapEnabled with
  | false =>
    have hidle : Symmetric { p with runtimeState := .disabled } := by
      simpa [Symmetric, Process.active, hon] using h
    rw [hon] at hidle
    exact symmetric_runtimeDisableEnd hidle (httmp hon)
  | true =>
    by_cases hstate : p.runtimeState = .enabled
    · have hactive : p.active = true := by simp [Process.active, hon, hstate]
      rw [Symmetric, hactive] at h
      have hidle := deactivate_symmetric h (hrelease hactive)
      simpa [Symmetric, Process.active, hstate, kfdDbgTrapDeactivate] using hidle
    · simpa [Symmetric, Process.active, hon, hstate] using h

theorem symmetric_resume {i : Nat} {interrupted : Bool} (hok : (Op.resume i interrupted).Ok p) :
    Symmetric (resume p i interrupted).1 := by
  unfold resume
  cases hwaiter : p.waiters[i]? with
  | none => exact h
  | some waiter =>
    cases waiter with
    | enable => exact h
    | disable wasEnabled =>
      cases interrupted with
      | true => exact h
      | false =>
        refine symmetric_runtimeDisableEnd ?_ (hok wasEnabled hwaiter rfl)
        exact h

theorem symmetric_otherProcess (i : Nat) (reserve : Bool) :
    Symmetric (otherProcess i reserve p) := by
  intro pdd' hpdd'
  obtain ⟨j, hj⟩ := mem_iff_getElem?.mp hpdd'
  simp only [otherProcess, getElem?_modify] at hj
  obtain ⟨pdd, hpdd, rfl⟩ := map_eq_some_iff.mp hj
  obtain ⟨hholder, hflag, hgfx⟩ := h pdd (mem_of_getElem? hpdd)
  show Expected p.active p.ttmpSetup _
  split
  · split
    · next _ _ hfree => exact ⟨by simpa [hfree] using hholder, hflag, hgfx⟩
    · next _ _ hother => exact ⟨by simpa [hother] using hholder, hflag, hgfx⟩
    · exact ⟨hholder, hflag, hgfx⟩
  · exact ⟨hholder, hflag, hgfx⟩

end

theorem symmetric_step (p : Process) (op : Op) (h : Symmetric p) (hok : op.Ok p) :
    Symmetric (step p op) := by
  cases op with
  | trapEnable a => exact symmetric_trapEnable h hok
  | trapDisable release => exact symmetric_trapDisable h hok
  | runtimeEnable ttmp queueCount a => exact symmetric_runtimeEnable h hok
  | runtimeDisable release => exact symmetric_runtimeDisable h hok
  | resume i interrupted => exact symmetric_resume h hok
  | other i reserve => exact symmetric_otherProcess h i reserve

theorem Initial.symmetric (h : Initial p) : Symmetric p := by
  intro pdd hpdd
  obtain ⟨hholder, hflag, hgfx⟩ := h.pdds pdd hpdd
  have hactive : p.active = false := by simp [Process.active, h.debugTrapEnabled]
  rw [hactive, h.ttmpSetup]
  exact ⟨by simpa using hholder, by simpa using hflag, by simpa using hgfx⟩

theorem activates_failed {p q : Process} {op : Op} (h : Symmetric p) (hok : op.Ok p)
    (hact : Activates p op q a) (hfail : (kfdDbgTrapActivate q a).2 ≠ none) :
    (kfdDbgTrapActivate q a).1.pdds = q.pdds := by
  cases hact with
  | trapEnable off checks fget state =>
    have hidle : ∀ pdd ∈ p.pdds, Expected false p.ttmpSetup pdd := by
      simpa [Symmetric, Process.active, off] using h
    obtain ⟨_, -, heq⟩ := activate_failed hidle ((hok off checks fget).2 state) hfail
    rw [heq]
  | runtimeEnable retry state queues on =>
    obtain ⟨hrlc, hactivate⟩ := hok retry state queues
    obtain ⟨_, -, heq⟩ :=
      activate_failed (runtimeSetup_expected h state hrlc _) (hactivate on) hfail
    rw [heq]

theorem trapEnable_failed {a : EnableArgs} (hok : (Op.trapEnable a).Ok p)
    (hfail : (kfdDbgTrapEnable p a).2 ≠ none) : (kfdDbgTrapEnable p a).1 = p := by
  unfold kfdDbgTrapEnable at hfail ⊢
  cases hon : p.debugTrapEnabled with
  | true => rfl
  | false =>
    simp only [hon, false_eq_true, if_false] at hfail ⊢
    cases hchecks : enableChecks a.numGws 0 p.pdds with
    | some e => rfl
    | none =>
      cases hfget : a.fget with
      | false => rfl
      | true => simp [hchecks, hfget, (hok hon hchecks hfget).1] at hfail

/-! ## Runs -/

/-- After every run of calls that meet their conditions, every device is in the state that
goes with the state of the process, an activation that fails leaves every device as it was,
and a `kfd_dbg_trap_enable` that fails leaves the process as it was. -/
theorem debug_symmetry {p : Process} (hinit : Initial p) {ops : List Op}
    (hok : StepsOk step (fun p op => op.Ok p) p ops) :
    Symmetric (run step p ops) ∧
    (∀ (op : Op) (q : Process) (a : ActivateArgs), op.Ok (run step p ops) →
      Activates (run step p ops) op q a → (kfdDbgTrapActivate q a).2 ≠ none →
      (kfdDbgTrapActivate q a).1.pdds = q.pdds) ∧
    ∀ a : EnableArgs, (Op.trapEnable a).Ok (run step p ops) →
      (kfdDbgTrapEnable (run step p ops) a).2 ≠ none →
      (kfdDbgTrapEnable (run step p ops) a).1 = run step p ops := by
  have hsym : Symmetric (run step p ops) :=
    run_inv_of_stepsOk symmetric_step hinit.symmetric hok
  exact ⟨hsym, fun op q a => activates_failed hsym, fun a => trapEnable_failed⟩

/-- A process with a device that has debug registers for each VMID and restores them, and
one that does neither. -/
def exProcess : Process :=
  { debugTrapEnabled := false
    runtimeState := .disabled
    ttmpSetup := false
    isRuntimeRetry := false
    pdds :=
      [⟨true, true, false, true, true, true, .free, false, 0⟩,
        ⟨false, false, false, true, true, true, .free, false, 0⟩]
    waiters := [] }

def exActivate : ActivateArgs :=
  { workaround := none
    reserve := fun _ => .done
    refresh := fun _ => none
    release := fun _ => .done }

def exEnable : EnableArgs :=
  { exActivate with numGws := fun _ => 0, fget := true, copy := true }

/-- The debugger attaches, the runtime cannot be activated because another process has the
VMID, and its wait is interrupted and retried. The debugger detaches, the other process
releases the VMID, and the debugger attaches again. -/
def exRun : List Op :=
  [.other 1 true, .trapEnable exEnable, .runtimeEnable true (fun _ => 0) exActivate,
    .resume 0 true, .runtimeEnable true (fun _ => 0) exActivate, .resume 0 false,
    .trapDisable fun _ => .done, .other 1 false, .trapEnable exEnable]

/-- Two devices of which the second fails only because its VMID is not free. -/
theorem activateOk_exActivate {pdd0 pdd1 : Pdd}
    (h0 : ¬ Fails pdd0 .done none) (h1 : pdd1.perVmid = false) :
    ActivateOk [pdd0, pdd1] exActivate := by
  intro _ i pdd hpdd _ hfails
  match i with
  | 0 =>
    cases hpdd
    exact absurd hfails h0
  | 1 =>
    cases hpdd
    have hbusy := hfails.resolve_right (· rfl)
    exact ⟨.inl ⟨h1, .inl (hbusy.2.resolve_right (· rfl))⟩, fun _ _ _ _ => .inr nofun⟩
  | i + 2 => cases hpdd

theorem debug_symmetry_exRun :
    Symmetric (run step exProcess exRun) ∧
      (run step exProcess (exRun.take 3)).runtimeState = .enabledBusy ∧
      (run step exProcess exRun).active = true := by
  have hinit : Initial exProcess := by
    refine ⟨rfl, rfl, rfl, rfl, rfl, ?_⟩
    simp [exProcess]
  refine ⟨(debug_symmetry hinit ?_).1, by decide, by decide⟩
  have hfine : ¬ Fails ⟨true, true, false, true, true, true, .free, false, 0⟩ .done none := by
    simp [Fails]
  refine ⟨trivial, ?_, ?_, nofun, ?_, ?_, ?_, trivial, ?_, trivial⟩
  · exact fun _ _ _ => ⟨rfl, nofun⟩
  · exact fun _ _ _ => ⟨nofun, fun _ => activateOk_exActivate hfine rfl⟩
  · exact nofun
  · exact nofun
  · exact fun _ i pdd _ => .inr nofun
  · exact fun _ _ _ => ⟨rfl, fun _ => activateOk_exActivate hfine rfl⟩

def exRefreshFails : List Op :=
  [.trapEnable exEnable,
    .runtimeEnable false (fun _ => 0)
      { exActivate with refresh := fun i => if i = 1 then some .eio else none }]

/-- The second device keeps the VMID, the flag and the request of an activation that
failed, and a process stays debugged after a `kfd_dbg_trap_enable` that failed. -/
theorem debug_symmetry_broken :
    Initial exProcess ∧
    (run step exProcess exRefreshFails).runtimeState = .enabledError ∧
    ¬ Symmetric (run step exProcess exRefreshFails) ∧
    (kfdDbgTrapEnable exProcess { exEnable with copy := false }).2 = some .efault ∧
    (kfdDbgTrapEnable exProcess { exEnable with copy := false }).1.debugTrapEnabled = true := by
  refine ⟨⟨rfl, rfl, rfl, rfl, rfl, by simp [exProcess]⟩, by decide, fun h => ?_, rfl, rfl⟩
  have hkept : (⟨false, false, false, true, true, true, .this, true, 1⟩ : Pdd) ∈
      (run step exProcess exRefreshFails).pdds := by decide
  exact absurd (h _ hkept).debugFlag (by decide)

end Amdkfd.DebugSession
