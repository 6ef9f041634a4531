import Amdkfd.Lib.Bitmap
import Amdkfd.Lib.Run

/-!
# The seq64 pool

`amdgpu_seq64_alloc` and `amdgpu_seq64_free`: a bit of `used` stands for a slot of the pool. It is
scaled to a byte offset, which is added to the GPU address of the pool as it is and to
`cpu_base_addr` in units of a `u64`.
-/

namespace Amdkfd.Seq64

open Lib List

/-! ## Model -/

def seq64Size : Nat := 2 <<< 20

/-- `AMDGPU_MAX_SEQ64_SLOTS`, which is `num_sem` after `amdgpu_seq64_init`. -/
def maxSeq64Slots : Nat := seq64Size / (8 * 8)

structure Pool where
  vaReservedSize : BitVec 64
  cpuBaseAddr : Nat

def Pool.vaddrStart (p : Pool) : BitVec 64 := p.vaReservedSize + 0x50000

/-- The addresses that a call returns. -/
structure Slot where
  gpuAddr : BitVec 64
  cpuAddr : Nat
  deriving DecidableEq

structure State where
  used : Bitmap
  live : List Slot
  returned : List Slot

def slotAt (p : Pool) (bitPos : Nat) : Slot :=
  let offset := (bitPos <<< 6) % 2 ^ 32
  ⟨BitVec.ofNat 64 offset + p.vaddrStart, p.cpuBaseAddr + 8 * offset⟩

def amdgpuSeq64Alloc (p : Pool) (used : Bitmap) : Option (Bitmap × Slot) :=
  let bitPos := findNextZeroBit used maxSeq64Slots 0
  if bitPos < maxSeq64Slots then some (insert bitPos used, slotAt p bitPos) else none

def amdgpuSeq64Free (p : Pool) (used : Bitmap) (gpuAddr : BitVec 64) : Bitmap :=
  let offset := (gpuAddr - p.vaddrStart).toNat % 2 ^ 32
  let offset := offset >>> 6
  if offset < maxSeq64Slots then used.erase offset else used

/-- A call: one more slot, or the free of a GPU address that has been returned before. -/
inductive Op
  | alloc
  | free (i : Nat)
  deriving DecidableEq

def step (p : Pool) (s : State) : Op → State
  | .alloc =>
    match amdgpuSeq64Alloc p s.used with
    | none => s
    | some (used, slot) => ⟨used, s.live ++ [slot], s.returned ++ [slot]⟩
  | .free i =>
    match s.returned[i]? with
    | none => s
    | some slot =>
      { s with
        used := amdgpuSeq64Free p s.used slot.gpuAddr
        live := s.live.filter (·.gpuAddr ≠ slot.gpuAddr) }

/-- After `amdgpu_seq64_init`. -/
def init : State := ⟨∅, [], []⟩

/-! ## What holds of the live slots -/

def Pool.gpuOffset (p : Pool) (slot : Slot) : Nat := (slot.gpuAddr - p.vaddrStart).toNat

def Apart (x y : Nat) : Prop := x + 8 ≤ y ∨ y + 8 ≤ x

/-- The live slots are words of their own, with a GPU address in the pool; the free of a slot makes
it and no other one available again, that of a slot that is not live nothing; a call fails only when
all slots are live. -/
structure Kept (p : Pool) (s : State) : Prop where
  apart : s.live.Pairwise fun x y =>
    Apart (p.gpuOffset x) (p.gpuOffset y) ∧ Apart x.cpuAddr y.cpuAddr
  gpuInPool : ∀ slot ∈ s.live, p.gpuOffset slot + 8 ≤ seq64Size
  free : ∀ slot ∈ s.live, ∃ bit ∈ s.used, slot = slotAt p bit ∧
    amdgpuSeq64Free p s.used slot.gpuAddr = s.used.erase bit
  freeTwice : ∀ slot ∈ s.returned, slot ∉ s.live → amdgpuSeq64Free p s.used slot.gpuAddr = s.used
  full : amdgpuSeq64Alloc p s.used = none → s.live.length = maxSeq64Slots

/-- Besides, the CPU pointer names the same byte of the pool as the GPU address. -/
structure Right (p : Pool) (s : State) : Prop extends Kept p s where
  sameOffset : ∀ slot ∈ s.live, slot.cpuAddr = p.cpuBaseAddr + p.gpuOffset slot
  cpuInPool : ∀ slot ∈ s.live, slot.cpuAddr + 8 ≤ p.cpuBaseAddr + seq64Size

/-- The slots are those of these bits, each of which is set once, and no other bit is set. -/
structure Inv (p : Pool) (s : State) (bits : List Nat) : Prop where
  live : s.live = bits.map (slotAt p)
  nodup : bits.Nodup
  lt : ∀ bit ∈ bits, bit < maxSeq64Slots
  used : s.used = bits.toFinset
  returned : ∀ slot ∈ s.returned, ∃ bit < maxSeq64Slots, slot = slotAt p bit

section
variable {p : Pool} {s : State} {bits : List Nat} {bit bit' : Nat}

theorem maxSeq64Slots_eq : maxSeq64Slots = 32768 := by decide

theorem offset_eq (h : bit < maxSeq64Slots) : (bit <<< 6) % 2 ^ 32 = 64 * bit := by
  rw [maxSeq64Slots_eq] at h
  rw [Nat.shiftLeft_eq]
  omega

theorem gpuOffset_slotAt (h : bit < maxSeq64Slots) : p.gpuOffset (slotAt p bit) = 64 * bit := by
  rw [Pool.gpuOffset, slotAt]
  dsimp only
  rw [BitVec.add_sub_cancel, BitVec.toNat_ofNat, offset_eq h]
  rw [maxSeq64Slots_eq] at h
  omega

theorem cpuAddr_slotAt (h : bit < maxSeq64Slots) :
    (slotAt p bit).cpuAddr = p.cpuBaseAddr + 512 * bit := by
  rw [slotAt]
  dsimp only
  rw [offset_eq h]
  omega

theorem free_slotAt (h : bit < maxSeq64Slots) (used : Bitmap) :
    amdgpuSeq64Free p used (slotAt p bit).gpuAddr = used.erase bit := by
  have hoffset : (((slotAt p bit).gpuAddr - p.vaddrStart).toNat % 2 ^ 32) >>> 6 = bit := by
    have heq := @gpuOffset_slotAt p bit h
    rw [Pool.gpuOffset] at heq
    rw [heq, Nat.shiftRight_eq_div_pow]
    rw [maxSeq64Slots_eq] at h
    omega
  unfold amdgpuSeq64Free
  dsimp only
  rw [hoffset, if_pos h]

theorem gpuAddr_inj (h : bit < maxSeq64Slots) (h' : bit' < maxSeq64Slots)
    (heq : (slotAt p bit).gpuAddr = (slotAt p bit').gpuAddr) : bit = bit' := by
  have hoffset := @gpuOffset_slotAt p bit h
  have hoffset' := @gpuOffset_slotAt p bit' h'
  rw [Pool.gpuOffset] at hoffset hoffset'
  rw [heq] at hoffset
  omega

theorem alloc_cases (p : Pool) (used : Bitmap) :
    (amdgpuSeq64Alloc p used = none ∧ ∀ bit < maxSeq64Slots, bit ∈ used) ∨
    ∃ bit < maxSeq64Slots, bit ∉ used ∧ (∀ b < bit, b ∈ used) ∧
      amdgpuSeq64Alloc p used = some (insert bit used, slotAt p bit) := by
  have hpos : 0 < maxSeq64Slots := by decide
  unfold amdgpuSeq64Alloc
  dsimp only
  by_cases hlt : findNextZeroBit used maxSeq64Slots 0 < maxSeq64Slots
  · rw [if_pos hlt]
    refine .inr ⟨_, hlt, findNextZeroBit_clear hlt, fun b hb => ?_, rfl⟩
    exact findNextZeroBit_set (Nat.zero_le b) hb hpos
  · rw [if_neg hlt]
    refine .inl ⟨rfl, fun bit hbit => ?_⟩
    exact findNextZeroBit_set (Nat.zero_le bit) (hbit.trans_le (not_lt.mp hlt)) hpos

theorem step_free {i : Nat} {slot : Slot} (h : s.returned[i]? = some slot) :
    step p s (.free i) =
      { s with
        used := amdgpuSeq64Free p s.used slot.gpuAddr
        live := s.live.filter (·.gpuAddr ≠ slot.gpuAddr) } := by
  simp only [step, h]

theorem step_free_none {i : Nat} (h : s.returned[i]? = none) : step p s (.free i) = s := by
  simp only [step, h]

theorem Inv.init : Inv p init [] :=
  ⟨rfl, nodup_nil, fun _ h => absurd h not_mem_nil, rfl,
    fun _ h => absurd h not_mem_nil⟩

theorem Inv.alloc (h : Inv p s bits) (hlt : bit < maxSeq64Slots) (hclear : bit ∉ s.used) :
    Inv p ⟨insert bit s.used, s.live ++ [slotAt p bit], s.returned ++ [slotAt p bit]⟩
      (bits ++ [bit]) := by
  have hnot : bit ∉ bits := by
    rw [h.used] at hclear
    exact fun hmem => hclear (mem_toFinset.mpr hmem)
  constructor
  case live => simp only [h.live, map_append, map_singleton]
  case nodup =>
    rw [nodup_append_comm]
    exact nodup_cons.mpr ⟨hnot, h.nodup⟩
  case lt =>
    intro b hb
    rcases mem_append.mp hb with hb | hb
    · exact h.lt b hb
    · rwa [mem_singleton.mp hb]
  case used =>
    dsimp only
    rw [h.used, toFinset_append, Finset.union_comm]
    rfl
  case returned =>
    intro slot hslot
    rcases mem_append.mp hslot with hslot | hslot
    · exact h.returned slot hslot
    · exact ⟨bit, hlt, mem_singleton.mp hslot⟩

theorem Inv.free (h : Inv p s bits) (hlt : bit < maxSeq64Slots) :
    Inv p
      { s with
        used := amdgpuSeq64Free p s.used (slotAt p bit).gpuAddr
        live := s.live.filter (·.gpuAddr ≠ (slotAt p bit).gpuAddr) }
      (bits.filter (· ≠ bit)) := by
  constructor
  case live =>
    dsimp only
    rw [h.live, filter_map]
    refine congrArg (List.map (slotAt p)) (filter_congr fun b hb => ?_)
    have hiff : (slotAt p b).gpuAddr = (slotAt p bit).gpuAddr ↔ b = bit :=
      ⟨gpuAddr_inj (h.lt b hb) hlt, congrArg fun b => (slotAt p b).gpuAddr⟩
    rw [Function.comp_apply, decide_eq_decide]
    exact not_congr hiff
  case nodup => exact h.nodup.filter _
  case lt => exact fun b hb => h.lt b (mem_of_mem_filter hb)
  case used =>
    dsimp only
    rw [free_slotAt hlt, h.used]
    ext b
    simp [and_comm]
  case returned => exact h.returned

theorem Inv.step (h : Inv p s bits) (op : Op) : ∃ bits', Inv p (step p s op) bits' := by
  cases op with
  | alloc =>
    unfold Seq64.step
    rcases alloc_cases p s.used with ⟨hnone, -⟩ | ⟨bit, hlt, hclear, -, hsome⟩
    · rw [hnone]
      exact ⟨bits, h⟩
    · rw [hsome]
      exact ⟨_, h.alloc hlt hclear⟩
  | free i =>
    cases hslot : s.returned[i]? with
    | none =>
      rw [step_free_none hslot]
      exact ⟨bits, h⟩
    | some slot =>
      obtain ⟨bit, hlt, rfl⟩ := h.returned slot (mem_of_getElem? hslot)
      rw [step_free hslot]
      exact ⟨_, h.free hlt⟩

theorem exists_inv (p : Pool) (ops : List Op) : ∃ bits, Inv p (run (step p) Seq64.init ops) bits :=
  run_inv (P := fun s => ∃ bits, Inv p s bits) (fun _ op ⟨_, h⟩ => h.step op) ⟨[], Inv.init⟩ ops

theorem Inv.kept (h : Inv p s bits) : Kept p s := by
  constructor
  case apart =>
    rw [h.live, pairwise_map]
    refine h.nodup.imp_of_mem fun {b b'} hb hb' hne => ?_
    rw [gpuOffset_slotAt (h.lt b hb), gpuOffset_slotAt (h.lt b' hb'), cpuAddr_slotAt (h.lt b hb),
      cpuAddr_slotAt (h.lt b' hb')]
    unfold Apart
    omega
  case gpuInPool =>
    intro slot hslot
    rw [h.live] at hslot
    obtain ⟨bit, hbit, rfl⟩ := mem_map.mp hslot
    have hlt := h.lt bit hbit
    rw [gpuOffset_slotAt hlt]
    rw [maxSeq64Slots_eq] at hlt
    have hsize : seq64Size = 64 * 32768 := by decide
    omega
  case free =>
    intro slot hslot
    rw [h.live] at hslot
    obtain ⟨bit, hbit, rfl⟩ := mem_map.mp hslot
    refine ⟨bit, ?_, rfl, free_slotAt (h.lt bit hbit) _⟩
    rw [h.used]
    exact mem_toFinset.mpr hbit
  case freeTwice =>
    intro slot hslot hnot
    obtain ⟨bit, hlt, rfl⟩ := h.returned slot hslot
    rw [free_slotAt hlt]
    refine Finset.erase_eq_of_notMem fun hmem => hnot ?_
    rw [h.used] at hmem
    rw [h.live]
    exact mem_map_of_mem (mem_toFinset.mp hmem)
  case full =>
    intro hnone
    rcases alloc_cases p s.used with ⟨-, hall⟩ | ⟨bit, -, -, -, hsome⟩
    · have hused : bits.toFinset = Finset.range maxSeq64Slots := by
        ext b
        rw [Finset.mem_range, mem_toFinset]
        refine ⟨h.lt b, fun hlt => ?_⟩
        have hmem := hall b hlt
        rw [h.used] at hmem
        exact mem_toFinset.mp hmem
      rw [h.live, length_map, ← toFinset_card_of_nodup h.nodup, hused, Finset.card_range]
    · rw [hnone] at hsome
      cases hsome

/-! ## When both addresses name the same word -/

theorem cpuInPool_iff (h : bit < maxSeq64Slots) :
    (slotAt p bit).cpuAddr + 8 ≤ p.cpuBaseAddr + seq64Size ↔ bit < 4096 := by
  have hsize : seq64Size = 512 * 4096 := by decide
  rw [cpuAddr_slotAt h]
  omega

theorem Inv.right_iff (h : Inv p s bits) : Right p s ↔ ∀ bit ∈ bits, bit = 0 := by
  constructor
  · intro hright bit hbit
    have hsame := hright.sameOffset (slotAt p bit) (h.live ▸ mem_map_of_mem hbit)
    rw [cpuAddr_slotAt (h.lt bit hbit), gpuOffset_slotAt (h.lt bit hbit)] at hsame
    omega
  · intro hzero
    refine ⟨h.kept, fun slot hslot => ?_, fun slot hslot => ?_⟩
    · rw [h.live] at hslot
      obtain ⟨bit, hbit, rfl⟩ := mem_map.mp hslot
      rw [cpuAddr_slotAt (h.lt bit hbit), gpuOffset_slotAt (h.lt bit hbit), hzero bit hbit]
    · rw [h.live] at hslot
      obtain ⟨bit, hbit, rfl⟩ := mem_map.mp hslot
      rw [cpuInPool_iff (h.lt bit hbit), hzero bit hbit]
      decide

def StepOk (s : State) : Op → Prop
  | .alloc => 0 ∉ s.used
  | .free _ => True

theorem right_step_iff (h : Inv p s bits) (hright : Right p s) (op : Op) :
    Right p (step p s op) ↔ StepOk s op := by
  have hzero := h.right_iff.mp hright
  cases op with
  | alloc =>
    unfold step StepOk
    rcases alloc_cases p s.used with ⟨hnone, hall⟩ | ⟨bit, hlt, hclear, hbelow, hsome⟩
    · -- Not all slots can be live.
      have hone := hall 1 (by decide)
      rw [h.used] at hone
      exact absurd (hzero 1 (mem_toFinset.mp hone)) Nat.one_ne_zero
    · rw [hsome]
      dsimp only
      rw [(h.alloc hlt hclear).right_iff]
      constructor
      · intro hall
        rwa [hall bit (mem_append_right _ (mem_singleton_self bit))] at hclear
      · intro hfree b hb
        rcases mem_append.mp hb with hb | hb
        · exact hzero b hb
        · rw [mem_singleton.mp hb]
          by_contra hpos
          exact hfree (hbelow 0 (Nat.pos_of_ne_zero hpos))
  | free i =>
    refine iff_of_true ?_ trivial
    cases hslot : s.returned[i]? with
    | none =>
      rw [step_free_none hslot]
      exact hright
    | some slot =>
      obtain ⟨bit, hlt, rfl⟩ := h.returned slot (mem_of_getElem? hslot)
      rw [step_free hslot]
      exact (h.free hlt).right_iff.mpr fun b hb => hzero b (mem_of_mem_filter hb)

end

/-- The slots are right in every state of a run exactly when each call for one finds the first one
free. -/
theorem seq64_right_iff (p : Pool) (ops : List Op) :
    (∀ n, Right p (run (step p) init (ops.take n))) ↔ StepsOk (step p) StepOk init ops := by
  have hstart : Right p init := Inv.init.right_iff.mpr fun _ h => absurd h not_mem_nil
  have hiff := @stepsOk_iff_take _ _ (step p) StepOk (fun s => Right p s ∧ ∃ bits, Inv p s bits)
    (fun s op ⟨hright, bits, h⟩ =>
      (and_iff_left (h.step op)).trans (right_step_iff h hright op)) _ ⟨hstart, [], Inv.init⟩ ops
  rw [← hiff]
  exact forall_congr' fun n => (and_iff_left (exists_inv p _)).symm

/-- In every run, slots that live are apart and a free gives back its own slot only. -/
theorem kept_run (p : Pool) (ops : List Op) : Kept p (run (step p) init ops) := by
  obtain ⟨bits, h⟩ := exists_inv p ops
  exact h.kept

def exPool : Pool := ⟨0x200000, 0x10000⟩

/-- The second slot is 64 bytes into the pool for the GPU and 512 for the CPU. -/
theorem seq64_second_slot : ¬ ∀ (p : Pool) (ops : List Op), Right p (run (step p) init ops) := by
  intro h
  have hsame := (h exPool [.alloc, .alloc]).sameOffset ⟨0x250040, 0x10200⟩ (by decide)
  exact absurd hsame (by decide)

end Amdkfd.Seq64
