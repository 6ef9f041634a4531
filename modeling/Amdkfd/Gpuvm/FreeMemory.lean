import Amdkfd.Gpuvm.MemLimit

/-!
# Freeing memory of a GPU

`amdgpu_amdkfd_gpuvm_free_memory_of_gpu` and the handle of `kfd_ioctl_free_memory_of_gpu`. A free
does steps that cannot be done again, and two of its checks come after some of them: the one for a
mapping, and the reservation, which a signal interrupts. The handle of a BO that was not freed stays
for the tear-down of the process.

The steps that a free does are kept in a ledger, in their order.
-/

namespace Amdkfd.FreeMemory

open MemLimit List Option

/-! ## Model -/

/-- The steps that are done once in the life of a BO. -/
inductive Step
  | unpin
  | listDel
  | hmmUnregister
  | discardUserPages
  | removeEvictionFence
  | detach (vm : Nat)
  | putObject
  deriving DecidableEq

/-- `struct kgd_mem` with what the free reads of its BO. `userTask` says that user pages are set in
the `ttm_tt`, `notifier` that `notifier.mm` is, and `range` that `mem->range` is not NULL. -/
structure Mem where
  bo : Bo
  isImported : Bool
  mappedToGpuMemory : Nat
  pinCount : Nat
  onValidateList : Bool
  userTask : Bool
  notifier : Bool
  range : Bool
  attachments : List Nat
  evictionFence : Bool
  deriving DecidableEq

/-- What the calls of a free return: `amdgpu_bo_reserve` before the unpin, whether the task of the
user pages has its memory still, and `reserve_bo_and_cond_vms`. -/
structure Call where
  unpinReserve : Bool
  usermm : Bool
  reserve : Option Errno
  deriving DecidableEq

structure Freed where
  mem : Mem
  steps : List Step
  ret : Except Errno Nat

def Mem.unpins (m : Mem) : Bool := m.bo.mem.allocFlags.doorbell || m.bo.mem.allocFlags.mmioRemap

/-- `amdgpu_amdkfd_gpuvm_unpin_bo`. It has no result: without the reservation it does nothing. -/
def unpinBo (m : Mem) (reserved : Bool) : Mem × List Step :=
  if reserved then ({ m with pinCount := m.pinCount - 1 }, [.unpin]) else (m, [])

def hmmUnregister (m : Mem) : Mem × List Step :=
  if m.notifier then ({ m with notifier := false }, [.hmmUnregister]) else (m, [])

/-- `amdgpu_ttm_tt_discard_user_pages`. The caller's pointer stays as it is. -/
def discardUserPages (m : Mem) : List Step :=
  if m.userTask && m.range then [.discardUserPages] else []

def freedSize (m : Mem) : Nat :=
  if m.isImported = false ∧ (m.bo.preferredDomain = .vram ∨
    m.bo.dev.apu ∧ m.bo.preferredDomain = .gtt) then m.bo.size else 0

def releaseBo (m : Mem) : Mem × List Step :=
  ({ m with evictionFence := false, attachments := [] },
    (if m.evictionFence then [.removeEvictionFence] else []) ++ m.attachments.map .detach ++
      [.putObject])

/-- The unpin of the BOs that are pinned when they are allocated. -/
def unpinAllocated (m : Mem) (c : Call) : Mem × List Step :=
  if m.unpins then unpinBo m c.unpinReserve else (m, [])

/-- The user pages and their notifier, of a BO whose user still has its memory. -/
def cleanupUserPages (m : Mem) (c : Call) : Mem × List Step :=
  if m.userTask && c.usermm then
    let user := hmmUnregister m
    (user.1, user.2 ++ discardUserPages user.1)
  else (m, [])

def freeMemoryOfGpu (m : Mem) (c : Call) : Freed :=
  let unpinned := unpinAllocated m c
  if 0 < unpinned.1.mappedToGpuMemory then ⟨unpinned.1, unpinned.2, .error .ebusy⟩
  else
    let user := cleanupUserPages { unpinned.1 with onValidateList := false } c
    let steps := unpinned.2 ++ .listDel :: user.2
    match c.reserve with
    | some e => ⟨user.1, steps, .error e⟩
    | none => ⟨(releaseBo user.1).1, steps ++ (releaseBo user.1).2, .ok (freedSize user.1)⟩

/-- `kfd_ioctl_free_memory_of_gpu` on the memory of its handle, `none` for a handle that is not
there: what the handle has afterwards, the steps and the result. -/
def kfdIoctlFree (handle : Option Mem) (c : Call) : Option Mem × List Step × Except Errno Nat :=
  match handle with
  | none => (none, [], .error .einval)
  | some m =>
    let freed := freeMemoryOfGpu m c
    match freed.ret with
    -- the handle is left in place for the tear-down
    | .error e => (some freed.mem, freed.steps, .error e)
    | .ok size => (none, freed.steps, .ok size)

/-- `kfd_process_device_free_bos` for one handle: it is unmapped from the devices, of which
`mapped` remain, then freed. -/
def freeAtTearDown (m : Mem) (mapped : Nat) (c : Call) : Freed :=
  freeMemoryOfGpu { m with mappedToGpuMemory := mapped } c

/-! ## What a free can do -/

def Unpins (m : Mem) (c : Call) : Prop := m.unpins = true ∧ c.unpinReserve = true
  deriving Decidable

variable {m : Mem} {c : Call}

theorem unpinAllocated_of_unpins (h : Unpins m c) :
    unpinAllocated m c = ({ m with pinCount := m.pinCount - 1 }, [.unpin]) := by
  simp only [unpinAllocated, unpinBo, if_pos h.1, if_pos h.2]

theorem unpinAllocated_of_not (h : ¬ Unpins m c) : unpinAllocated m c = (m, []) := by
  unfold unpinAllocated unpinBo
  split_ifs with hflags hreserve
  · exact absurd ⟨hflags, hreserve⟩ h
  · rfl
  · rfl

theorem unpinAllocated_frame (m : Mem) (c : Call) :
    (unpinAllocated m c).1 = { m with pinCount := (unpinAllocated m c).1.pinCount } := by
  by_cases h : Unpins m c
  · rw [unpinAllocated_of_unpins h]
  · rw [unpinAllocated_of_not h]

theorem free_mapped (h : 0 < m.mappedToGpuMemory) :
    freeMemoryOfGpu m c = ⟨(unpinAllocated m c).1, (unpinAllocated m c).2, .error .ebusy⟩ := by
  have hmapped : 0 < (unpinAllocated m c).1.mappedToGpuMemory := by
    rw [unpinAllocated_frame]
    exact h
  exact if_pos hmapped

def beforeReserve (m : Mem) (c : Call) : Mem × List Step :=
  let user := cleanupUserPages { (unpinAllocated m c).1 with onValidateList := false } c
  (user.1, (unpinAllocated m c).2 ++ .listDel :: user.2)

theorem free_unmapped (h : m.mappedToGpuMemory = 0) :
    freeMemoryOfGpu m c =
      match c.reserve with
      | some e => ⟨(beforeReserve m c).1, (beforeReserve m c).2, .error e⟩
      | none => ⟨(releaseBo (beforeReserve m c).1).1,
          (beforeReserve m c).2 ++ (releaseBo (beforeReserve m c).1).2,
          .ok (freedSize (beforeReserve m c).1)⟩ := by
  have hmapped : ¬ 0 < (unpinAllocated m c).1.mappedToGpuMemory := by
    rw [unpinAllocated_frame]
    exact Nat.not_lt.mpr (Nat.le_of_eq h)
  exact if_neg hmapped

theorem listDel_mem_beforeReserve (m : Mem) (c : Call) : .listDel ∈ (beforeReserve m c).2 :=
  mem_append_right _ mem_cons_self

theorem listDel_mem_of_unmapped (c : Call) (h : m.mappedToGpuMemory = 0) :
    .listDel ∈ (freeMemoryOfGpu m c).steps := by
  rw [free_unmapped h]
  cases c.reserve with
  | some e => exact listDel_mem_beforeReserve m c
  | none => exact mem_append_left _ (listDel_mem_beforeReserve m c)

theorem unpin_mem (h : Unpins m c) : .unpin ∈ (freeMemoryOfGpu m c).steps := by
  have hstep : .unpin ∈ (unpinAllocated m c).2 := by
    rw [unpinAllocated_of_unpins h]
    exact mem_cons_self
  rcases Nat.eq_zero_or_pos m.mappedToGpuMemory with hmapped | hmapped
  · have hbefore : .unpin ∈ (beforeReserve m c).2 := mem_append_left _ hstep
    rw [free_unmapped hmapped]
    cases c.reserve with
    | some e => exact hbefore
    | none => exact mem_append_left _ hbefore
  · rw [free_mapped hmapped]
    exact hstep

/-! ## Freeing again -/

structure SameBo (m m' : Mem) : Prop where
  pinCount : m'.pinCount = m.pinCount
  onValidateList : m'.onValidateList = m.onValidateList
  notifier : m'.notifier = m.notifier
  attachments : m'.attachments = m.attachments
  evictionFence : m'.evictionFence = m.evictionFence

/-- A free that fails keeps the handle, leaves the BO as it was, and did no step that the free at
tear-down does. -/
def CanRetry (m : Mem) (c : Call) : Prop :=
  ∀ e, (kfdIoctlFree (some m) c).2.2 = .error e →
    ∃ m', (kfdIoctlFree (some m) c).1 = some m' ∧ SameBo m m' ∧
      ∀ mapped c', Disjoint (kfdIoctlFree (some m) c).2.1 (freeAtTearDown m' mapped c').steps

/-- A free that finds a mapping does not come to its unpin, and one that finds none gets the
reservation. -/
def Retryable (m : Mem) (c : Call) : Prop :=
  (0 < m.mappedToGpuMemory → ¬ Unpins m c) ∧ (m.mappedToGpuMemory = 0 → c.reserve = none)

theorem kfdIoctlFree_error {e : Errno} (h : (freeMemoryOfGpu m c).ret = .error e) :
    kfdIoctlFree (some m) c =
      (some (freeMemoryOfGpu m c).mem, (freeMemoryOfGpu m c).steps, .error e) := by
  simp only [kfdIoctlFree, h]

theorem Retryable.error (h : Retryable m c) {e : Errno}
    (he : (freeMemoryOfGpu m c).ret = .error e) : freeMemoryOfGpu m c = ⟨m, [], .error e⟩ := by
  rcases Nat.eq_zero_or_pos m.mappedToGpuMemory with hmapped | hmapped
  · rw [free_unmapped hmapped, h.2 hmapped] at he
    cases he
  · rw [free_mapped hmapped] at he ⊢
    obtain rfl := Except.error.inj he
    rw [unpinAllocated_of_not (h.1 hmapped)]

/-- A free of a failed handle can be tried again exactly when the BO was mapped and not unpinned. -/
theorem failed_free_retry (m : Mem) (c : Call) : CanRetry m c ↔ Retryable m c := by
  constructor
  · intro h
    refine ⟨fun hmapped hunpins => ?_, fun hmapped => ?_⟩
    · have he : (freeMemoryOfGpu m c).ret = .error .ebusy := by rw [free_mapped hmapped]
      have hioctl := kfdIoctlFree_error he
      obtain ⟨m', hm', -, hdisjoint⟩ := h .ebusy (by rw [hioctl])
      rw [hioctl] at hm' hdisjoint
      obtain rfl := some.inj hm'
      have hagain : Unpins { (freeMemoryOfGpu m c).mem with mappedToGpuMemory := 0 } c := by
        rw [free_mapped hmapped, unpinAllocated_frame]
        exact hunpins
      exact hdisjoint 0 c (unpin_mem hunpins) (unpin_mem hagain)
    · cases hreserve : c.reserve with
      | none => rfl
      | some e =>
        have he : (freeMemoryOfGpu m c).ret = .error e := by rw [free_unmapped hmapped, hreserve]
        have hioctl := kfdIoctlFree_error he
        obtain ⟨m', hm', -, hdisjoint⟩ := h e (by rw [hioctl])
        rw [hioctl] at hm' hdisjoint
        obtain rfl := some.inj hm'
        exact absurd (listDel_mem_of_unmapped c rfl)
          (hdisjoint 0 c (listDel_mem_of_unmapped c hmapped))
  · intro h e he
    cases hret : (freeMemoryOfGpu m c).ret with
    | ok size =>
      simp only [kfdIoctlFree, hret] at he
      cases he
    | error e' =>
      rw [kfdIoctlFree_error hret, h.error hret]
      exact ⟨m, rfl, ⟨rfl, rfl, rfl, rfl, rfl⟩, fun _ _ => disjoint_nil_left _⟩

def exDoorbell : Mem :=
  { bo := Args.bo
      { dev := ⟨0, false, false⟩, size := 8192, flags := { doorbell := true }, xcp := none
        offset := some 4096, limits := ⟨0, 0, true, fun _ => 0, 0, 0⟩, sgTable := true
        kzalloc := true, gemObjectCreate := none, vmaNodeAllow := none, gemHandleCreate := none
        prepare := none } 0 .cpu none
    isImported := false
    mappedToGpuMemory := 1
    pinCount := 1
    onValidateList := true
    userTask := false
    notifier := false
    range := false
    attachments := [0]
    evictionFence := false }

/-- The doorbell is still mapped: its free returns `-EBUSY`, and its pin is gone. -/
theorem failed_free_unpins :
    (kfdIoctlFree (some exDoorbell) ⟨true, false, none⟩).2.2 = .error .ebusy ∧
      (kfdIoctlFree (some exDoorbell) ⟨true, false, none⟩).1.map Mem.pinCount = some 0 ∧
      ¬ CanRetry exDoorbell ⟨true, false, none⟩ := by
  refine ⟨rfl, rfl, fun h => ?_⟩
  obtain ⟨m', hm', hsame, -⟩ := h .ebusy rfl
  obtain rfl := some.inj hm'
  exact absurd hsame.pinCount (by decide)

end Amdkfd.FreeMemory
