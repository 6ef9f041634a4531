import Amdkfd.Basic
import Amdkfd.Lib.Bitmap
import Amdkfd.Lib.Run

/-!
# Writeback slots

`amdgpu_device_wb_get` hands out the slots of `adev->wb`. Rings and the MES keep dword offsets of
their slots, and interrupt rings only their addresses. An object is initialised when it is not, and
finalised when it is; a call that is made otherwise is not modelled, and its step does nothing.
-/

namespace Amdkfd.Writeback

open Lib List

/-! ## Model -/

/-- `adev->wb`, a page of the GART. `num_wb` is `AMDGPU_MAX_WB` or 0. -/
structure Wb where
  numWb : Nat
  gpuAddr : Nat
  numWb_le : numWb ≤ 1024
  gpuAddr_lt : gpuAddr < 2 ^ 64
  gpuAddr_dvd : 4096 ∣ gpuAddr

/-- An initialised object and what it keeps of its slots. A `mesRing` is a ring of a MES queue, with
slots in its own memory, and a `busIh` an interrupt ring with `use_bus_addr`. -/
inductive Obj
  | ring (id rptrOffs wptrOffs fenceOffs trailFenceOffs condExeOffs : Nat)
  | mesRing (id : Nat)
  | ih (id : Nat) (wptrAddr rptrAddr : UInt64)
  | busIh (id : Nat)
  | mes (schCtxOffs queryStatusFenceOffs readValOffs : Nat)
  deriving DecidableEq

inductive Key
  | ring (id : Nat) | ih (id : Nat) | mes
  deriving DecidableEq

def Obj.key : Obj → Key
  | .ring id .. | .mesRing id => .ring id
  | .ih id .. | .busIh id => .ih id
  | .mes .. => .mes

structure State where
  used : Bitmap
  objs : List Obj

/-- What fails in an init: what comes before the slots, the allocation of a buffer, the doorbells
and the event log of the MES. `amdgpu_fence_driver_start_ring` returns 0. -/
structure Answers where
  early : Option Errno
  bo : Option Errno
  doorbell : Option Errno
  eventLog : Option Errno

/-- `amdgpu_device_wb_get`, with the dword offset. -/
def wbGet (wb : Wb) (used : Bitmap) : Option (Bitmap × Nat) :=
  let offset := findNextZeroBit used wb.numWb 0
  if offset < wb.numWb then some (insert offset used, offset <<< 3) else none

def wbFree (wb : Wb) (used : Bitmap) (offs : Nat) : Bitmap :=
  if offs >>> 3 < wb.numWb then used.erase (offs >>> 3) else used

/-- Up to `n` calls of `amdgpu_device_wb_get`, until one fails. -/
def wbGets (wb : Wb) : Nat → Bitmap → Bitmap × List Nat
  | 0, used => (used, [])
  | n + 1, used =>
    match wbGet wb used with
    | none => (used, [])
    | some (used, offs) =>
      let r := wbGets wb n used
      (r.1, offs :: r.2)

def wbFrees (wb : Wb) (used : Bitmap) (offs : List Nat) : Bitmap := offs.foldl (wbFree wb) used

/-- A slot that could not be had leaves those that were. -/
def amdgpuRingInit (wb : Wb) (s : State) (id : Nat) (isMesQueue : Bool) (a : Answers) :
    State × Option Errno :=
  if a.early.isSome then (s, a.early)
  else if isMesQueue then ({ s with objs := .mesRing id :: s.objs }, none)
  else
    match wbGets wb 5 s.used with
    | (used, [rptr, wptr, fence, trailFence, condExe]) =>
      if a.bo.isSome then ({ s with used := used }, a.bo)
      else (⟨used, .ring id rptr wptr fence trailFence condExe :: s.objs⟩, none)
    | (used, _) => ({ s with used := used }, some .einval)

def amdgpuIhRingInit (wb : Wb) (s : State) (id : Nat) (useBusAddr : Bool) (a : Answers) :
    State × Option Errno :=
  if useBusAddr then
    if a.bo.isSome then (s, some .enomem) else ({ s with objs := .busIh id :: s.objs }, none)
  else
    match wbGets wb 2 s.used with
    | (used, [wptr, rptr]) =>
      if a.bo.isSome then ({ s with used := wbFrees wb used [rptr, wptr] }, a.bo)
      else
        (⟨used, .ih id (.ofNat (wb.gpuAddr + wptr * 4)) (.ofNat (wb.gpuAddr + rptr * 4)) :: s.objs⟩,
          none)
    | (used, offs) => ({ s with used := wbFrees wb used offs }, some .einval)

def amdgpuMesInit (wb : Wb) (s : State) (a : Answers) : State × Option Errno :=
  match wbGets wb 3 s.used with
  | (used, [schCtx, queryStatusFence, readVal]) =>
    let failed := { s with used := wbFrees wb used [schCtx, queryStatusFence, readVal] }
    if a.doorbell.isSome then (failed, a.doorbell)
    else if a.eventLog.isSome then (failed, a.eventLog)
    else (⟨used, .mes schCtx queryStatusFence readVal :: s.objs⟩, none)
  | (used, offs) => ({ s with used := wbFrees wb used offs }, some .einval)

/-- `amdgpu_ring_fini`, `amdgpu_ih_ring_fini` and `amdgpu_mes_fini`. `amdgpu_bo_free_kernel` has
cleared the `gpu_addr` of an interrupt ring before it is subtracted. -/
def finiUsed (wb : Wb) (used : Bitmap) : Obj → Bitmap
  | .ring _ rptr wptr fence _ condExe => wbFrees wb used [rptr, wptr, condExe, fence]
  | .ih _ wptrAddr rptrAddr =>
    let gpuAddr := 0
    wbFrees wb used
      [(wptrAddr - gpuAddr).toNat / 4 % 2 ^ 32, (rptrAddr - gpuAddr).toNat / 4 % 2 ^ 32]
  | .mes schCtx queryStatusFence readVal => wbFrees wb used [schCtx, queryStatusFence, readVal]
  | .mesRing _ | .busIh _ => used

inductive Op
  | ringInit (id : Nat) (isMesQueue : Bool) (a : Answers)
  | ihInit (id : Nat) (useBusAddr : Bool) (a : Answers)
  | mesInit (a : Answers)
  | fini (k : Key)

def step (wb : Wb) (s : State) : Op → State
  | .ringInit id isMesQueue a =>
    if s.objs.any (·.key = .ring id) then s else (amdgpuRingInit wb s id isMesQueue a).1
  | .ihInit id useBusAddr a =>
    if s.objs.any (·.key = .ih id) then s else (amdgpuIhRingInit wb s id useBusAddr a).1
  | .mesInit a => if s.objs.any (·.key = .mes) then s else (amdgpuMesInit wb s a).1
  | .fini k =>
    match s.objs.find? (·.key = k) with
    | none => s
    | some o => ⟨finiUsed wb s.used o, s.objs.erase o⟩

/-! ## What is to be shown -/

def slotOf (wb : Wb) (addr : UInt64) : Nat := (addr.toNat + 2 ^ 64 - wb.gpuAddr) % 2 ^ 64 / 32

def slots (wb : Wb) : Obj → List Nat
  | .ring _ rptr wptr fence trailFence condExe =>
    [rptr, wptr, fence, trailFence, condExe].map (· >>> 3)
  | .ih _ wptrAddr rptrAddr => [slotOf wb wptrAddr, slotOf wb rptrAddr]
  | .mes schCtx queryStatusFence readVal => [schCtx, queryStatusFence, readVal].map (· >>> 3)
  | .mesRing _ | .busIh _ => []

def owned (wb : Wb) (s : State) : List Nat := s.objs.flatMap (slots wb)

/-- Beside the slots of `base`, those in use are the slots of the objects, each of one only. -/
structure Right (wb : Wb) (base : Bitmap) (s : State) : Prop where
  used : s.used = base ∪ (owned wb s).toFinset
  nodup : (owned wb s).Nodup
  apart : ∀ i ∈ owned wb s, i ∉ base
  lt : ∀ i ∈ owned wb s, i < wb.numWb

def left (wb : Wb) (used : Bitmap) : Nat := (Finset.range wb.numWb \ used).card

/-- No ring with slots is finalised, and an interrupt ring only where 32 bits of a dword address do
not show the address of the page. -/
def FiniOk (wb : Wb) : Obj → Prop
  | .ring .. => False
  | .ih .. => wb.gpuAddr % 2 ^ 34 = 0
  | _ => True

/-- No ring fails that has taken a slot, and what is finalised is right. -/
def StepOk (wb : Wb) (s : State) : Op → Prop
  | .ringInit id isMesQueue a =>
    s.objs.any (·.key = .ring id) ∨ a.early.isSome ∨ isMesQueue ∨ left wb s.used = 0 ∨
      (5 ≤ left wb s.used ∧ a.bo = none)
  | .fini k => ∀ o, s.objs.find? (·.key = k) = some o → FiniOk wb o
  | _ => True

section
variable {wb : Wb} {base used : Bitmap} {s : State}

/-! ## Slots -/

theorem wbGet_none (h : wbGet wb used = none) : left wb used = 0 := by
  unfold wbGet at h
  simp only [ite_eq_right_iff, reduceCtorEq] at h
  refine Finset.card_eq_zero.mpr (Finset.sdiff_eq_empty_iff_subset.mpr fun i hi => ?_)
  have hlt := Finset.mem_range.mp hi
  exact findNextZeroBit_set (Nat.zero_le i) (lt_of_lt_of_le hlt (not_lt.mp h))
    (Nat.zero_lt_of_lt hlt)

theorem wbGet_some {used' : Bitmap} {offs : Nat} (h : wbGet wb used = some (used', offs)) :
    offs >>> 3 < wb.numWb ∧ offs >>> 3 ∉ used ∧ used' = insert (offs >>> 3) used ∧
      left wb used = left wb used' + 1 := by
  unfold wbGet at h
  dsimp only at h
  split at h
  · next hlt =>
    cases h
    rw [Nat.shiftLeft_shiftRight]
    have hclear := findNextZeroBit_clear hlt
    refine ⟨hlt, hclear, rfl, ?_⟩
    unfold left
    rw [Finset.sdiff_insert, Finset.card_erase_add_one]
    exact Finset.mem_sdiff.mpr ⟨Finset.mem_range.mpr hlt, hclear⟩
  · cases h

/-- `n` slots are taken, or all that are left. -/
theorem wbGets_spec (wb : Wb) (n : Nat) (used : Bitmap) :
    ((wbGets wb n used).2.map (· >>> 3)).Nodup ∧
      (∀ i ∈ (wbGets wb n used).2.map (· >>> 3), i < wb.numWb ∧ i ∉ used) ∧
      (wbGets wb n used).1 = used ∪ ((wbGets wb n used).2.map (· >>> 3)).toFinset ∧
      (wbGets wb n used).2.length = min n (left wb used) := by
  induction n generalizing used with
  | zero => simp [wbGets]
  | succ n ih =>
    unfold wbGets
    cases hget : wbGet wb used with
    | none => simp [wbGet_none hget]
    | some x =>
      obtain ⟨used', offs⟩ := x
      obtain ⟨hlt, hclear, rfl, hleft⟩ := wbGet_some hget
      obtain ⟨hnodup, hfree, hused, hlength⟩ := ih (insert (offs >>> 3) used)
      refine ⟨nodup_cons.mpr ⟨fun hmem => ?_, hnodup⟩, fun i hi => ?_, ?_, ?_⟩
      · exact (hfree _ hmem).2 (Finset.mem_insert_self _ _)
      · rcases mem_cons.mp hi with rfl | hi
        · exact ⟨hlt, hclear⟩
        · exact ⟨(hfree i hi).1, fun hmem => (hfree i hi).2 (Finset.mem_insert_of_mem hmem)⟩
      · dsimp only
        rw [hused, map_cons, toFinset_cons, Finset.insert_union, Finset.union_insert]
      · show _ + 1 = _
        rw [hlength, hleft]
        omega

theorem mem_wbFrees {offs : List Nat} {i : Nat} :
    i ∈ wbFrees wb used offs ↔ i ∈ used ∧ (i < wb.numWb → i ∉ offs.map (· >>> 3)) := by
  induction offs generalizing used with
  | nil => simp [wbFrees]
  | cons x offs ih =>
    refine (@ih (wbFree wb used x)).trans ?_
    unfold wbFree
    split <;> simp <;> grind

/-- What an init has taken is given back. -/
theorem wbFrees_wbGets {n : Nat} {offs : List Nat} (h : offs.Perm (wbGets wb n used).2) :
    wbFrees wb (wbGets wb n used).1 offs = used := by
  obtain ⟨-, hfree, hused, -⟩ := wbGets_spec wb n used
  have hmem : ∀ i, i ∈ offs.map (· >>> 3) ↔ i ∈ (wbGets wb n used).2.map (· >>> 3) := fun i =>
    (h.map _).mem_iff
  ext i
  rw [mem_wbFrees, hmem, hused, Finset.mem_union, mem_toFinset]
  constructor
  · rintro ⟨h | h, hnot⟩
    · exact h
    · exact absurd h (hnot (hfree i h).1)
  · exact fun hi => ⟨.inl hi, fun _ hin => (hfree i hin).2 hi⟩

/-! ## Objects come and go -/

theorem right_same_iff (h : Right wb base s) : Right wb base { s with used := used } ↔
    used = s.used :=
  ⟨fun h' => h'.used.trans h.used.symm, fun heq => heq ▸ h⟩

theorem Right.take (h : Right wb base s) {n : Nat} {o : Obj}
    (ho : slots wb o = (wbGets wb n s.used).2.map (· >>> 3)) :
    Right wb base ⟨(wbGets wb n s.used).1, o :: s.objs⟩ := by
  obtain ⟨hnodup, hfree, hused, -⟩ := wbGets_spec wb n s.used
  rw [← ho] at hnodup hfree hused
  have howned : owned wb ⟨(wbGets wb n s.used).1, o :: s.objs⟩ = slots wb o ++ owned wb s := rfl
  constructor
  · rw [howned, toFinset_append, ← Finset.union_assoc, Finset.union_right_comm, ← h.used,
      hused]
  · rw [howned]
    refine nodup_append.mpr ⟨hnodup, h.nodup, fun i hi j hj hij => (hfree i hi).2 ?_⟩
    rw [h.used]
    exact Finset.mem_union_right _ (mem_toFinset.mpr (hij ▸ hj))
  · intro i hi
    rcases mem_append.mp (howned ▸ hi) with hi | hi
    · exact fun hb => (hfree i hi).2 (h.used ▸ Finset.mem_union_left _ hb)
    · exact h.apart i hi
  · intro i hi
    rcases mem_append.mp (howned ▸ hi) with hi | hi
    · exact (hfree i hi).1
    · exact h.lt i hi

theorem right_erase_iff (h : Right wb base s) {o : Obj} (ho : o ∈ s.objs) :
    Right wb base ⟨used, s.objs.erase o⟩ ↔ used = s.used \ (slots wb o).toFinset := by
  have hperm : (owned wb s).Perm (slots wb o ++ owned wb ⟨used, s.objs.erase o⟩) :=
    (perm_cons_erase ho).flatMap_right _
  obtain ⟨-, hnodup, hapart⟩ := nodup_append.mp (hperm.nodup_iff.mp h.nodup)
  have hrest : base ∪ (owned wb ⟨used, s.objs.erase o⟩).toFinset =
      s.used \ (slots wb o).toFinset := by
    ext i
    have hbase := h.apart i
    have hne : i ∈ slots wb o → i ∉ owned wb ⟨used, s.objs.erase o⟩ := fun hi hin =>
      hapart i hi i hin rfl
    rw [h.used]
    simp only [Finset.mem_union, Finset.mem_sdiff, mem_toFinset, hperm.mem_iff,
      mem_append] at hbase ⊢
    tauto
  constructor
  · exact fun h' => h'.used.trans hrest
  · rintro rfl
    have hsub := fun i hi => hperm.mem_iff.mpr (mem_append_right (slots wb o) (b := i) hi)
    exact ⟨hrest.symm, hnodup, fun i hi => h.apart i (hsub i hi), fun i hi => h.lt i (hsub i hi)⟩

theorem slotOf_ofNat {offs : Nat} (h : offs >>> 3 < wb.numWb) :
    slotOf wb (.ofNat (wb.gpuAddr + offs * 4)) = offs >>> 3 := by
  have hle := wb.numWb_le
  have hlt := wb.gpuAddr_lt
  unfold slotOf
  rw [UInt64.toNat_ofNat']
  rw [Nat.shiftRight_eq_div_pow] at h ⊢
  omega

/-- The slot that is freed for an address. -/
theorem freed_eq (addr : UInt64) :
    ((addr - 0).toNat / 4 % 2 ^ 32) >>> 3 = (slotOf wb addr + wb.gpuAddr / 32) % 2 ^ 29 := by
  have hlt := wb.gpuAddr_lt
  have haddr := addr.toNat_lt
  obtain ⟨k, hk⟩ := wb.gpuAddr_dvd
  unfold slotOf
  rw [UInt64.sub_zero, Nat.shiftRight_eq_div_pow]
  generalize addr.toNat = x at haddr ⊢
  obtain ⟨y, hy, hxy⟩ : ∃ y, (x + 2 ^ 64 - wb.gpuAddr) % 2 ^ 64 = y ∧
      (x = y + wb.gpuAddr ∨ x + 2 ^ 64 = y + wb.gpuAddr) := ⟨_, rfl, by omega⟩
  rw [hy]
  omega

/-! ## The calls -/

theorem wbGets_eq_iff {n : Nat} : (wbGets wb n used).1 = used ↔ min n (left wb used) = 0 := by
  obtain ⟨-, hfree, hused, hlength⟩ := wbGets_spec wb n used
  rw [← hlength, length_eq_zero_iff]
  constructor
  · intro heq
    have hsub := Finset.union_eq_left.mp (hused.symm.trans heq)
    refine eq_nil_iff_forall_not_mem.mpr fun offs hoffs => ?_
    have hmem := mem_map_of_mem (f := (· >>> 3)) hoffs
    exact (hfree _ hmem).2 (hsub (mem_toFinset.mpr hmem))
  · intro hnil
    simp [hused, hnil]

theorem ringInit_iff (h : Right wb base s) (id : Nat) (isMesQueue : Bool) (a : Answers) :
    Right wb base (step wb s (.ringInit id isMesQueue a)) ↔
      StepOk wb s (.ringInit id isMesQueue a) := by
  have hlength := (wbGets_spec wb 5 s.used).2.2.2
  have hsame := (@wbGets_eq_iff wb s.used 5)
  have htake := fun o => @Right.take wb base s h 5 o
  show Right wb base (ite _ _ _) ↔ _ ∨ _
  split_ifs with hkey
  · exact iff_of_true h (.inl hkey)
  unfold amdgpuRingInit
  by_cases hearly : a.early.isSome
  · simp [hearly, h]
  cases isMesQueue with
  | true =>
    have hmes : Right wb base { s with objs := .mesRing id :: s.objs } := by
      simpa [wbGets] using @Right.take wb base s h 0 (.mesRing id) rfl
    simp [hearly, hmes]
  | false =>
    simp only [hkey, hearly, if_false, Bool.false_eq_true, false_or]
    cases hget : wbGets wb 5 s.used with
    | mk used offs =>
      rw [hget] at hlength hsame htake
      dsimp only at hlength hsame htake
      split
      · next heq =>
        cases heq
        have hleft : 5 ≤ left wb s.used := by simp at hlength; omega
        have hnot : used ≠ s.used := fun heq => by have := hsame.mp heq; omega
        cases hbo : a.bo with
        | some e => simp [right_same_iff h, hnot]; omega
        | none => exact iff_of_true (htake _ rfl) (.inr ⟨hleft, rfl⟩)
      · next hshort heq =>
        cases heq
        have hlt : left wb s.used < 5 := by
          by_contra hge
          rw [min_eq_left (not_lt.mp hge)] at hlength
          rcases offs with _ | ⟨a, _ | ⟨b, _ | ⟨c, _ | ⟨d, _ | ⟨e, _ | _⟩⟩⟩⟩⟩ <;>
            first | exact hshort _ _ _ _ _ rfl | simp at hlength
        rw [right_same_iff h, hsame]
        constructor
        · exact fun hmin => .inl (by omega)
        · rintro (hzero | ⟨hge, -⟩) <;> omega

theorem ihInit_right (h : Right wb base s) (id : Nat) (useBusAddr : Bool) (a : Answers) :
    Right wb base (step wb s (.ihInit id useBusAddr a)) := by
  have htake := fun o => @Right.take wb base s h 2 o
  have hback := fun offs => @wbFrees_wbGets wb s.used 2 offs
  have hfree := (wbGets_spec wb 2 s.used).2.1
  show Right wb base (ite _ _ _)
  split_ifs with hkey
  · exact h
  unfold amdgpuIhRingInit
  cases useBusAddr with
  | true =>
    have hbus : Right wb base { s with objs := .busIh id :: s.objs } := by
      simpa [wbGets] using @Right.take wb base s h 0 (.busIh id) rfl
    by_cases hbo : a.bo.isSome <;> simp [hbo, h, hbus]
  | false =>
    simp only [if_false, Bool.false_eq_true]
    cases hget : wbGets wb 2 s.used with
    | mk used offs =>
      rw [hget] at htake hback hfree
      dsimp only at htake hback hfree
      split
      · next wptr rptr heq =>
        cases heq
        split
        · exact (right_same_iff h).mpr (hback _ (.swap ..))
        · refine htake _ ?_
          simp only [slots, slotOf_ofNat (hfree _ (.head _)).1,
            slotOf_ofNat (hfree _ (.tail _ (.head _))).1, map_cons, map_nil]
      · next heq =>
        cases heq
        exact (right_same_iff h).mpr (hback _ (.refl _))

theorem mesInit_right (h : Right wb base s) (a : Answers) :
    Right wb base (step wb s (.mesInit a)) := by
  have htake := fun o => @Right.take wb base s h 3 o
  have hback := fun offs => @wbFrees_wbGets wb s.used 3 offs
  show Right wb base (ite _ _ _)
  split_ifs with hkey
  · exact h
  unfold amdgpuMesInit
  cases hget : wbGets wb 3 s.used with
  | mk used offs =>
    rw [hget] at htake hback
    dsimp only at htake hback
    split
    · next heq =>
      cases heq
      dsimp only
      split_ifs
      · exact (right_same_iff h).mpr (hback _ (.refl _))
      · exact (right_same_iff h).mpr (hback _ (.refl _))
      · exact htake _ rfl
    · next heq =>
      cases heq
      exact (right_same_iff h).mpr (hback _ (.refl _))

theorem finiUsed_iff {o : Obj} (hown : ∀ i ∈ slots wb o, i ∈ used ∧ i < wb.numWb)
    (hnodup : (slots wb o).Nodup) :
    finiUsed wb used o = used \ (slots wb o).toFinset ↔ FiniOk wb o := by
  have hlt := fun i hi => lt_of_lt_of_le (hown i hi).2 wb.numWb_le
  cases o with
  | ring n rptr wptr fence trailFence condExe =>
    refine iff_of_false (fun heq => ?_) not_false
    have hmem : trailFence >>> 3 ∈ slots wb (.ring n rptr wptr fence trailFence condExe) := by
      simp [slots]
    -- `trail_fence_offs` is not freed
    have hfreed :
        trailFence >>> 3 ∉ finiUsed wb used (.ring n rptr wptr fence trailFence condExe) :=
      heq ▸ fun hin => (Finset.mem_sdiff.mp hin).2 (mem_toFinset.mpr hmem)
    refine hfreed (mem_wbFrees.mpr ⟨(hown _ hmem).1, fun _ => ?_⟩)
    simp only [slots, map_cons, map_nil, nodup_cons, mem_cons] at hnodup ⊢
    grind
  | mesRing id | busIh id => simp [finiUsed, slots, FiniOk]
  | mes a b c =>
    refine iff_of_true (Finset.ext fun i => ?_) trivial
    have := hown i
    simp only [finiUsed, mem_wbFrees, Finset.mem_sdiff, mem_toFinset, slots] at this ⊢
    tauto
  | ih n wptrAddr rptrAddr =>
    have hw := hlt (slotOf wb wptrAddr) (by simp [slots])
    have hr := hlt (slotOf wb rptrAddr) (by simp [slots])
    obtain ⟨k, hk⟩ := wb.gpuAddr_dvd
    have hmem : ∀ i, i ∈ finiUsed wb used (.ih n wptrAddr rptrAddr) ↔ i ∈ used ∧ (i < wb.numWb →
        i ≠ (slotOf wb wptrAddr + wb.gpuAddr / 32) % 2 ^ 29 ∧
          i ≠ (slotOf wb rptrAddr + wb.gpuAddr / 32) % 2 ^ 29) := fun i => by
      refine mem_wbFrees.trans ?_
      rw [map_cons, map_cons, @freed_eq wb, @freed_eq wb]
      simp
    have hslots : ∀ i, i ∈ slots wb (.ih n wptrAddr rptrAddr) ↔
        i = slotOf wb wptrAddr ∨ i = slotOf wb rptrAddr := by simp [slots]
    simp only [Finset.ext_iff, hmem, Finset.mem_sdiff, mem_toFinset, hslots, FiniOk] at hown ⊢
    constructor
    · intro heq
      have h1 := heq (slotOf wb wptrAddr)
      have h2 := heq (slotOf wb rptrAddr)
      have := hown _ (.inl rfl)
      have := hown _ (.inr rfl)
      grind
    · intro hzero i
      have h1 : (slotOf wb wptrAddr + wb.gpuAddr / 32) % 2 ^ 29 = slotOf wb wptrAddr := by omega
      have h2 : (slotOf wb rptrAddr + wb.gpuAddr / 32) % 2 ^ 29 = slotOf wb rptrAddr := by omega
      rw [h1, h2]
      have := hown i
      tauto

theorem fini_iff (h : Right wb base s) (k : Key) :
    Right wb base (step wb s (.fini k)) ↔ StepOk wb s (.fini k) := by
  cases hfind : s.objs.find? (·.key = k) with
  | none => simp [step, StepOk, hfind, h]
  | some o =>
    have ho := mem_of_find?_eq_some hfind
    have hmem : ∀ i ∈ slots wb o, i ∈ owned wb s := fun i hi => mem_flatMap.mpr ⟨o, ho, hi⟩
    have hstep : step wb s (.fini k) = ⟨finiUsed wb s.used o, s.objs.erase o⟩ := by
      simp [step, hfind]
    have hok : StepOk wb s (.fini k) ↔ FiniOk wb o := by simp [StepOk, hfind]
    rw [hstep, hok, right_erase_iff h ho]
    have hnodup := (nodup_flatMap.mp h.nodup).1 o ho
    refine finiUsed_iff (fun i hi => ⟨?_, h.lt i (hmem i hi)⟩) hnodup
    exact h.used ▸ Finset.mem_union_right _ (mem_toFinset.mpr (hmem i hi))

end

/-- The used slots are those of the objects in every state of a run exactly when every step meets
the condition. A failed init leaves the objects, and so the slots. -/
theorem right_run_iff (wb : Wb) (base : Bitmap) (ops : List Op) :
    (∀ n, Right wb base (run (step wb) ⟨base, []⟩ (ops.take n))) ↔
      StepsOk (step wb) (StepOk wb) ⟨base, []⟩ ops := by
  refine stepsOk_iff_take (P := Right wb base) (fun s op h => ?_) ?_ ops
  · cases op with
    | ringInit id isMesQueue a => exact ringInit_iff h id isMesQueue a
    | ihInit id useBusAddr a => exact iff_of_true (ihInit_right h id useBusAddr a) trivial
    | mesInit a => exact iff_of_true (mesInit_right h a) trivial
    | fini k => exact fini_iff h k
  · exact ⟨by simp [owned], by simp [owned], by simp [owned], by simp [owned]⟩

def exWb : Wb := ⟨1024, 2 ^ 34, le_refl _, by decide, by decide⟩

def exGood : Answers := ⟨none, none, none, none⟩

/-- A ring is initialised and finalised. Its fourth slot stays in use. -/
theorem right_run_fails :
    (run (step exWb) ⟨∅, []⟩ [.ringInit 0 false exGood, .fini (.ring 0)]).objs = [] ∧
      ¬∀ n, Right exWb ∅ (run (step exWb) ⟨∅, []⟩
        (List.take n [.ringInit 0 false exGood, .fini (.ring 0)])) := by
  refine ⟨by decide +kernel, fun h => ?_⟩
  have hused := (h 2).used
  revert hused
  decide +kernel

end Amdkfd.Writeback
