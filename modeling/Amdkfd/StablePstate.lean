import Amdkfd.Basic
import Amdkfd.Lib.Run

/-!
# The owner of the stable power state

A context can force the DPM level of the device (`AMDGPU_CTX_OP_SET_STABLE_PSTATE`) and owns it
until it asks for `NONE` again. `amdgpu_ctx_fini` sets the level that the context remembers from
its creation, through the function that also moves the ownership.
-/

namespace Amdkfd.StablePstate

open Lib Option

inductive ForcedLevel
  | auto
  | manual
  | low
  | high
  | profileStandard
  | profileMinSclk
  | profileMinMclk
  | profilePeak
  | profileExit
  | perfDeterminism
  deriving DecidableEq, Repr

/-- `AMDGPU_CTX_STABLE_PSTATE_*`. -/
inductive Pstate
  | none
  | standard
  | minSclk
  | minMclk
  | peak
  deriving DecidableEq, Repr

/-- A context, numbered in the order of creation: a freed one never comes back. -/
abbrev CtxId := Nat

/-- `struct amdgpu_ctx`. `handle` says that it is in `ctx_handles`. -/
structure Ctx where
  refcount : Nat
  handle : Bool
  stablePstate : Pstate
  deriving DecidableEq

/-- The power management of `struct amdgpu_device`. -/
structure Adev where
  level : ForcedLevel
  stablePstateCtx : Option CtxId
  deriving DecidableEq

structure State where
  adev : Adev
  ctx : CtxId → Ctx
  next : CtxId

/-- The device before the first context. -/
def init (level : ForcedLevel) : State :=
  { adev := { level := level, stablePstateCtx := none }
    ctx := fun _ => { refcount := 0, handle := false, stablePstate := .none }
    next := 0 }

def Live (s : State) (c : CtxId) : Prop := 0 < (s.ctx c).refcount
  deriving Decidable

def State.setCtx (s : State) (c : CtxId) (x : Ctx) : State :=
  { s with ctx := fun i => if i = c then x else s.ctx i }

@[simp] theorem setCtx_adev (s : State) (c : CtxId) (x : Ctx) : (s.setCtx c x).adev = s.adev := rfl

@[simp] theorem setCtx_next (s : State) (c : CtxId) (x : Ctx) : (s.setCtx c x).next = s.next := rfl

@[simp] theorem setCtx_ctx_self (s : State) (c : CtxId) (x : Ctx) : (s.setCtx c x).ctx c = x := by
  simp [State.setCtx]

variable {s : State} {c : CtxId}

theorem setCtx_ctx_ne {c i : CtxId} (x : Ctx) (h : i ≠ c) : (s.setCtx c x).ctx i = s.ctx i := by
  simp [State.setCtx, h]

/-! ## The level and its owner -/

/-- What `amdgpu_dpm_force_performance_level` does: its result, and the level that the power
management reports from then on. -/
structure Force where
  r : Option Errno
  level : ForcedLevel
  deriving DecidableEq

def getStablePstate (adev : Adev) : Pstate :=
  match adev.level with
  | .profileStandard => .standard
  | .profileMinSclk => .minSclk
  | .profileMinMclk => .minMclk
  | .profilePeak => .peak
  | _ => .none

/-- The level of a request, in `amdgpu_ctx_set_stable_pstate`. -/
def Pstate.toLevel : Pstate → ForcedLevel
  | .none => .auto
  | .standard => .profileStandard
  | .minSclk => .profileMinSclk
  | .minMclk => .profileMinMclk
  | .peak => .profilePeak

def setStablePstate (adev : Adev) (c : CtxId) (p : Pstate) (f : Force) : Adev × Option Errno :=
  if adev.stablePstateCtx ≠ none ∧ adev.stablePstateCtx ≠ some c then (adev, some .ebusy)
  else if p = getStablePstate adev then (adev, none)
  else
    -- the owner is set whatever the power management answers
    ({ level := f.level,
       stablePstateCtx := if p.toLevel = .auto then none else some c }, f.r)

/-! ## Contexts -/

/-- `amdgpu_ctx_alloc` with `amdgpu_ctx_init`. `r` is the error of the allocations or of
`amdgpu_ctx_priority_permit`. -/
def ctxAlloc (s : State) (r : Option Errno) : State × Option Errno :=
  match r with
  | some e => (s, some e)
  | none =>
    let p := match s.adev.stablePstateCtx with
      | some o => (s.ctx o).stablePstate
      | none => getStablePstate s.adev
    ({ s.setCtx s.next { refcount := 1, handle := true, stablePstate := p } with
        next := s.next + 1 }, none)

/-- What decides the end of `amdgpu_ctx_fini`: whether `drm_dev_enter` finds the device, and what
forcing the level does. -/
structure Fini where
  enter : Bool
  force : Force
  deriving DecidableEq

/-- The level that `amdgpu_ctx_fini` restores for a context that remembers `p`. -/
def restore (adev : Adev) (c : CtxId) (p : Pstate) (u : Fini) : Adev :=
  if u.enter then (setStablePstate adev c p u.force).1 else adev

/-- `kref_put` with `amdgpu_ctx_do_release` and `amdgpu_ctx_fini`. -/
def ctxPut (s : State) (c : CtxId) (u : Fini) : State :=
  let x := s.ctx c
  let s := s.setCtx c { x with refcount := x.refcount - 1 }
  if x.refcount = 1 then { s with adev := restore s.adev c x.stablePstate u } else s

def ctxGet (s : State) (c : CtxId) : State :=
  let x := s.ctx c
  if x.handle then s.setCtx c { x with refcount := x.refcount + 1 } else s

/-- `amdgpu_ctx_free`, and what `amdgpu_ctx_mgr_fini` does for one context. -/
def ctxFree (s : State) (c : CtxId) (u : Fini) : State × Option Errno :=
  let x := s.ctx c
  if x.handle then (ctxPut (s.setCtx c { x with handle := false }) c u, none)
  else (s, some .einval)

def pstateFlagsMask : Nat := 0xf

/-- The request with the value `flags`, up to `AMDGPU_CTX_STABLE_PSTATE_PEAK`. -/
def Pstate.ofFlags : Nat → Option Pstate
  | 0 => some .none
  | 1 => some .standard
  | 2 => some .minSclk
  | 3 => some .minMclk
  | 4 => some .peak
  | _ => Option.none

def ioctlSetStablePstate (s : State) (c : CtxId) (flags : Nat) (f : Force) : State × Option Errno :=
  if flags ||| pstateFlagsMask ≠ pstateFlagsMask then (s, some .einval)
  else
    match Pstate.ofFlags flags with
    | none => (s, some .einval)
    | some p =>
      if (s.ctx c).handle then
        let (adev, r) := setStablePstate s.adev c p f
        ({ s with adev := adev }, r)
      else (s, some .einval)

/-- The calls, with what decides them. `dpmLevel` is a change of the level that no context asked
for. -/
inductive Op
  | ctxAlloc (r : Option Errno)
  | ctxGet (c : CtxId)
  | ctxPut (c : CtxId) (u : Fini)
  | ctxFree (c : CtxId) (u : Fini)
  | setStablePstate (c : CtxId) (flags : Nat) (f : Force)
  | dpmLevel (level : ForcedLevel)
  deriving DecidableEq

/-- A reference from `amdgpu_ctx_get` is still held. -/
def Ctx.held (x : Ctx) : Bool := (if x.handle then 1 else 0) < x.refcount

def step (s : State) : Op → State
  | .ctxAlloc r => (ctxAlloc s r).1
  | .ctxGet c => ctxGet s c
  | .ctxPut c u => if (s.ctx c).held then ctxPut s c u else s
  | .ctxFree c u => (ctxFree s c u).1
  | .setStablePstate c flags f => (ioctlSetStablePstate s c flags f).1
  | .dpmLevel level => { s with adev := { s.adev with level := level } }

/-! ## What is to be shown -/

/-- The context that acts. -/
def Op.ctx : Op → Option CtxId
  | .ctxGet c => some c
  | .ctxPut c _ => some c
  | .ctxFree c _ => some c
  | .setStablePstate c _ _ => some c
  | .ctxAlloc _ | .dpmLevel _ => none

def Op.external : Op → Bool
  | .dpmLevel _ => true
  | _ => false

structure Owned (s : State) : Prop where
  /-- The owner is not freed. -/
  live : ∀ c, s.adev.stablePstateCtx = some c → Live s c
  /-- While a context owns the level, no other one changes it, or the owner. -/
  exclusive : ∀ c op, s.adev.stablePstateCtx = some c → op.external = false → op.ctx ≠ some c →
    (step s op).adev = s.adev
  /-- Without contexts there is no owner. -/
  released : (∀ c, ¬ Live s c) → s.adev.stablePstateCtx = none

/-- The destruction of the context `c`, which remembers `p`, does not leave it the owner. -/
def FiniReleases (adev : Adev) (c : CtxId) (p : Pstate) (u : Fini) : Prop :=
  match adev.stablePstateCtx with
  | none => u.enter = false ∨ p = getStablePstate adev ∨ p = .none
  | some o => o ≠ c ∨ u.enter = true ∧ p = .none ∧ getStablePstate adev ≠ .none

instance (adev : Adev) (c : CtxId) (p : Pstate) (u : Fini) :
    Decidable (FiniReleases adev c p u) := by
  unfold FiniReleases
  split <;> infer_instance

/-- A call that destroys a context releases the level. -/
def Releases (s : State) : Op → Prop
  | .ctxPut c u => (s.ctx c).held = true → (s.ctx c).refcount = 1 →
      FiniReleases s.adev c (s.ctx c).stablePstate u
  | .ctxFree c u => (s.ctx c).handle = true → (s.ctx c).refcount = 1 →
      FiniReleases s.adev c (s.ctx c).stablePstate u
  | _ => True

instance (s : State) (op : Op) : Decidable (Releases s op) := by
  cases op <;> unfold Releases <;> infer_instance

/-! ## One call -/

variable {p : Pstate} {adev : Adev}

theorem getStablePstate_none_iff : p.toLevel = .auto ↔ p = .none := by
  cases p <;> simp [Pstate.toLevel]

theorem setStablePstate_of_other {c o : CtxId} (p : Pstate) (f : Force)
    (ho : adev.stablePstateCtx = some o) (hne : o ≠ c) :
    setStablePstate adev c p f = (adev, some .ebusy) := by
  have h : adev.stablePstateCtx ≠ none ∧ adev.stablePstateCtx ≠ some c := by
    rw [ho]
    exact ⟨nofun, fun h => hne (some.inj h)⟩
  rw [setStablePstate, if_pos h]

theorem setStablePstate_owner {c o : CtxId} {f : Force}
    (h : (setStablePstate adev c p f).1.stablePstateCtx = some o) :
    adev.stablePstateCtx = some o ∨ o = c := by
  unfold setStablePstate at h
  split at h
  · exact .inl h
  · split at h
    · exact .inl h
    · dsimp only at h
      split at h
      · cases h
      · exact .inr (some.inj h).symm

theorem restore_owner {c o : CtxId} {u : Fini} (h : (restore adev c p u).stablePstateCtx = some o) :
    adev.stablePstateCtx = some o ∨ o = c := by
  unfold restore at h
  split at h
  · exact setStablePstate_owner h
  · exact .inl h

theorem finiReleases_iff (adev : Adev) (c : CtxId) (p : Pstate) (u : Fini) :
    (restore adev c p u).stablePstateCtx ≠ some c ↔ FiniReleases adev c p u := by
  rcases ho : adev.stablePstateCtx with _ | o
  · cases he : u.enter
    · simp [restore, FiniReleases, ho, he]
    · by_cases hp : p = getStablePstate adev
      · simp [restore, FiniReleases, setStablePstate, ho, he, ← hp]
      · by_cases hn : p = .none
        · subst hn
          simp [restore, FiniReleases, setStablePstate, ho, he, hp, Pstate.toLevel]
        · simp [restore, FiniReleases, setStablePstate, ho, he, hp, hn, getStablePstate_none_iff]
  · by_cases hne : o = c
    · subst hne
      cases he : u.enter
      · simp [restore, FiniReleases, ho, he]
      · by_cases hp : p = getStablePstate adev
        · simp [restore, FiniReleases, setStablePstate, ho, he, ← hp]
        · by_cases hn : p = .none
          · subst hn
            simp [restore, FiniReleases, setStablePstate, ho, he, hp, Pstate.toLevel, Ne.symm hp]
          · simp [restore, FiniReleases, setStablePstate, ho, he, hp, hn, getStablePstate_none_iff]
    · cases he : u.enter
      · simp [restore, FiniReleases, ho, he, hne]
      · simp [restore, FiniReleases, setStablePstate_of_other _ _ ho hne, ho, he, hne]

theorem step_adev_of_owner {op : Op} (ho : s.adev.stablePstateCtx = some c)
    (hext : op.external = false) (hctx : op.ctx ≠ some c) : (step s op).adev = s.adev := by
  have hput : ∀ s' : State, s'.adev = s.adev → ∀ d u, d ≠ c → (ctxPut s' d u).adev = s.adev := by
    intro s' hs' d u hd
    have hset := setStablePstate_of_other (s'.ctx d).stablePstate u.force (hs' ▸ ho) (Ne.symm hd)
    unfold ctxPut
    dsimp only
    split
    · simp only [restore, setCtx_adev, hset]
      split <;> exact hs'
    · exact hs'
  cases op with
  | ctxAlloc r => cases r <;> rfl
  | ctxGet d =>
    simp only [step, ctxGet]
    split <;> rfl
  | ctxPut d u =>
    have hd : d ≠ c := fun h => hctx (congrArg some h)
    simp only [step]
    split
    · exact hput s rfl d u hd
    · rfl
  | ctxFree d u =>
    have hd : d ≠ c := fun h => hctx (congrArg some h)
    simp only [step, ctxFree]
    split
    · exact hput (s.setCtx d { s.ctx d with handle := false }) rfl d u hd
    · rfl
  | setStablePstate d flags f =>
    have hd : c ≠ d := fun h => hctx (congrArg some h.symm)
    simp only [step, ioctlSetStablePstate]
    split
    · rfl
    · split
      · rfl
      · split
        · rw [setStablePstate_of_other _ _ ho hd]
        · rfl
  | dpmLevel level => cases hext

theorem owned_iff (s : State) : Owned s ↔ ∀ c, s.adev.stablePstateCtx = some c → Live s c := by
  constructor
  · exact fun h => h.live
  · intro h
    refine ⟨h, fun c op => step_adev_of_owner, fun hnone => ?_⟩
    rcases ho : s.adev.stablePstateCtx with _ | c
    · rfl
    · exact absurd (h c ho) (hnone c)

/-! ## Runs -/

/-- A context in `ctx_handles` is not freed. -/
def Handled (s : State) : Prop := ∀ c, (s.ctx c).handle = true → Live s c

def Inv (s : State) : Prop := Owned s ∧ Handled s

theorem handled_setCtx {x : Ctx} (h : Handled s) (hx : x.handle = true → 0 < x.refcount) :
    Handled (s.setCtx c x) := by
  intro i hi
  by_cases hic : i = c
  · subst hic
    simp only [Live, setCtx_ctx_self] at hi ⊢
    exact hx hi
  · simp only [Live, setCtx_ctx_ne _ hic] at hi ⊢
    exact h i hi

theorem ctxPut_ctx (s : State) (c : CtxId) (u : Fini) : (ctxPut s c u).ctx =
    (s.setCtx c { s.ctx c with refcount := (s.ctx c).refcount - 1 }).ctx := by
  unfold ctxPut
  dsimp only
  split <;> rfl

theorem handled_ctxPut (u : Fini) (h : Handled s) (hc : (s.ctx c).held = true) :
    Handled (ctxPut s c u) := by
  have hset : Handled (s.setCtx c { s.ctx c with refcount := (s.ctx c).refcount - 1 }) := by
    refine handled_setCtx h fun hh => ?_
    dsimp only at hh ⊢
    simp only [Ctx.held, hh, if_true, decide_eq_true_eq] at hc
    omega
  intro i hi
  simp only [Live, ctxPut_ctx] at hi ⊢
  exact hset i hi

theorem handled_step (h : Handled s) (op : Op) : Handled (step s op) := by
  cases op with
  | ctxAlloc r =>
    cases r with
    | some e => exact h
    | none => exact handled_setCtx h fun _ => Nat.one_pos
  | ctxGet c =>
    simp only [step, ctxGet]
    split
    · exact handled_setCtx h fun _ => Nat.succ_pos _
    · exact h
  | ctxPut c u =>
    simp only [step]
    split
    case isTrue hc => exact handled_ctxPut u h hc
    case isFalse => exact h
  | ctxFree c u =>
    simp only [step, ctxFree]
    split
    case isTrue hc =>
      refine handled_ctxPut u (handled_setCtx h nofun) ?_
      have hl : 0 < (s.ctx c).refcount := h c hc
      simpa [Ctx.held] using hl
    case isFalse => exact h
  | setStablePstate c flags f =>
    simp only [step, ioctlSetStablePstate]
    split
    · exact h
    · split
      · exact h
      · split <;> exact h
  | dpmLevel level => exact h

theorem owned_ctxPut_iff {s s' : State} (u : Fini) (h : Owned s) (hadev : s'.adev = s.adev)
    (hother : ∀ i, i ≠ c → s'.ctx i = s.ctx i) (href : (s'.ctx c).refcount = (s.ctx c).refcount)
    (hp : (s'.ctx c).stablePstate = (s.ctx c).stablePstate) :
    Owned (ctxPut s' c u) ↔ ((s.ctx c).refcount = 1 →
      FiniReleases s.adev c (s.ctx c).stablePstate u) := by
  have hctx : ∀ i, i ≠ c → (Live (ctxPut s' c u) i ↔ Live s i) := by
    intro i hi
    rw [Live, Live, ctxPut_ctx, setCtx_ctx_ne _ hi, hother i hi]
  have hself : Live (ctxPut s' c u) c ↔ 1 < (s.ctx c).refcount := by
    rw [Live, ctxPut_ctx, setCtx_ctx_self]
    show 0 < (s'.ctx c).refcount - 1 ↔ _
    rw [href]
    omega
  rw [owned_iff]
  by_cases h1 : (s.ctx c).refcount = 1
  · have hfini : (ctxPut s' c u).adev = restore s.adev c (s.ctx c).stablePstate u := by
      unfold ctxPut
      dsimp only
      rw [if_pos (href.trans h1)]
      simp only [setCtx_adev, hadev, hp]
    simp only [h1, true_imp_iff, ← finiReleases_iff, hfini]
    constructor
    · intro hlive hc
      have := hself.mp (hlive c hc)
      omega
    · intro hne i hi
      have hic : i ≠ c := fun e => hne (e ▸ hi)
      rcases restore_owner hi with hold | hold
      · exact (hctx i hic).mpr (h.live i hold)
      · exact absurd hold hic
  · have hkeep : (ctxPut s' c u).adev = s.adev := by
      unfold ctxPut
      dsimp only
      rw [if_neg (fun e => h1 (href.symm.trans e))]
      exact hadev
    simp only [h1, false_imp_iff, iff_true, hkeep]
    intro i hi
    have hi' := h.live i hi
    by_cases hic : i = c
    · subst hic
      refine hself.mpr ?_
      rw [Live] at hi'
      omega
    · exact (hctx i hic).mpr hi'

theorem step_inv_iff (h : Inv s) (op : Op) : Inv (step s op) ↔ Releases s op := by
  obtain ⟨howned, hhandled⟩ := h
  rw [Inv, and_iff_left (handled_step hhandled op)]
  cases op with
  | ctxAlloc r =>
    simp only [Releases, iff_true]
    rw [owned_iff]
    cases r with
    | some e => exact howned.live
    | none =>
      intro c hc
      by_cases hn : c = s.next
      · subst hn
        show 0 < ((s.setCtx s.next _).ctx s.next).refcount
        rw [setCtx_ctx_self]
        exact Nat.one_pos
      · show 0 < ((s.setCtx s.next _).ctx c).refcount
        rw [setCtx_ctx_ne _ hn]
        exact howned.live c hc
  | ctxGet d =>
    simp only [Releases, iff_true, step, ctxGet]
    split
    · rw [owned_iff]
      intro c hc
      by_cases hd : c = d
      · subst hd
        rw [Live, setCtx_ctx_self]
        exact Nat.succ_pos _
      · rw [Live, setCtx_ctx_ne _ hd]
        exact howned.live c hc
    · exact howned
  | ctxPut c u =>
    simp only [Releases, step]
    split
    case isTrue hc =>
      rw [owned_ctxPut_iff u howned rfl (fun _ _ => rfl) rfl rfl]
      simp only [hc, true_imp_iff]
    case isFalse hc => exact iff_of_true howned fun h => absurd h hc
  | ctxFree c u =>
    simp only [Releases, step, ctxFree]
    split
    case isTrue hc =>
      have hiff : Owned (ctxPut (s.setCtx c { s.ctx c with handle := false }) c u) ↔ _ :=
        owned_ctxPut_iff u howned rfl (fun i hi => setCtx_ctx_ne _ hi) (by simp) (by simp)
      rw [hiff]
      simp only [hc, true_imp_iff]
    case isFalse hc => exact iff_of_true howned fun h => absurd h hc
  | setStablePstate c flags f =>
    simp only [Releases, iff_true, step, ioctlSetStablePstate]
    split
    · exact howned
    · split
      · exact howned
      · split
        case isTrue hc =>
          rw [owned_iff]
          intro o ho
          rcases setStablePstate_owner ho with hold | rfl
          · exact howned.live o hold
          · exact hhandled o hc
        case isFalse => exact howned
  | dpmLevel level =>
    simp only [Releases, iff_true, step]
    rw [owned_iff]
    exact howned.live

theorem inv_init (level : ForcedLevel) : Inv (init level) :=
  ⟨(owned_iff _).mpr nofun, nofun⟩

/-- In a run the owner of the level is a context that is not freed, no other context changes the
level, and nothing owns it once all contexts are gone, exactly when every call that destroys a
context releases the level. -/
theorem stablePstate_owned_iff (level : ForcedLevel) (ops : List Op) :
    (∀ n, Owned (run step (init level) (ops.take n))) ↔ StepsOk step Releases (init level) ops := by
  rw [← stepsOk_iff_take (P := Inv) (fun s op h => step_inv_iff h op) (inv_init level)]
  have hh : ∀ n, Handled (run step (init level) (ops.take n)) := fun n =>
    run_inv (P := Handled) (fun s op h => handled_step h op) (inv_init level).2 _
  exact forall_congr' fun n => (and_iff_left (hh n)).symm

/-- The level is `PROFILE_PEAK` when a context is created; the context asks for `STANDARD` and is
destroyed. -/
def exOps : List Op :=
  [.ctxAlloc none, .setStablePstate 0 1 ⟨none, .profileStandard⟩,
    .ctxFree 0 ⟨true, ⟨none, .profilePeak⟩⟩]

/-- The destruction restores `PEAK` for a context that is then freed, and leaves it the owner. -/
theorem stablePstate_dangles : ¬ ∀ level ops, Owned (run step (init level) ops) := by
  intro h
  have hlive := (h .profilePeak exOps).live 0 (by decide)
  exact absurd hlive (by decide)

end Amdkfd.StablePstate
