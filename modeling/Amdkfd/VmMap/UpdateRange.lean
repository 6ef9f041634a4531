import Amdkfd.CuMask
import Amdkfd.Ttm.ResCursor
import Amdkfd.VmMap.Model
import Mathlib.Data.Nat.Bitwise

/-!
# Updating a range of a VM

`amdgpu_vm_update_range` cuts the pages from `start` to `last` into calls of
`amdgpu_vm_ptes_update`: one for each piece of a block of VRAM, and for DMA addresses one for each
run of CPU pages that follow one another or that do not.
-/

namespace Amdkfd.VmUpdate

open Lib List Option
open Ttm (Cursor resFirst resFirst_at resNext)
open VmMap (gpuPageSize pteValid ptePrt)

/-! ## Model -/

structure DmaPages where
  pageShift : Nat
  addr : Nat → Nat
  pageShift_ge : 12 ≤ pageShift
  pageShift_lt : pageShift < 64
  addr_lt : ∀ pfn, addr pfn < 2 ^ 64
  aligned : ∀ pfn, 2 ^ pageShift ∣ addr pfn

def DmaPages.pageSize (p : DmaPages) : Nat := 2 ^ p.pageShift

def DmaPages.gpuPages (p : DmaPages) : Nat := p.pageSize / gpuPageSize

/-- `amdgpu_vm_map_gart`. -/
def DmaPages.mapGart (p : DmaPages) (addr : Nat) : Nat :=
  (p.addr (addr >>> p.pageShift) ||| (addr &&& (p.pageSize - 1))) &&& 0xFFFFFFFFFFFFF000

/-- `pages_addr[pfn] == pages_addr[pfn - 1] + PAGE_SIZE`. -/
def DmaPages.follows (p : DmaPages) (pfn : Nat) : Bool :=
  p.addr pfn = (p.addr (pfn - 1) + p.pageSize) % 2 ^ 64

/-- `struct amdgpu_vram_mgr_resource`, in pages of the GPU. -/
structure VramResource where
  size : Nat
  blocks : List Extent
  size_le : size ≤ Extent.total blocks
  block_pos : ∀ b ∈ blocks, 0 < b.size
  aligned : ∀ b ∈ blocks, gpuPageSize ∣ b.size

/-- The arguments of `amdgpu_vm_update_range`. Page numbers are those of a VM, below `2 ^ 52`. -/
structure Args where
  unlocked : Bool
  flushTlb : Bool
  start : Nat
  last : Nat
  flags : BitVec 64
  offset : Nat
  vramBase : Nat
  res : Option VramResource
  pagesAddr : Option DmaPages

/-- What is read of the device: `gmc.xgmi.num_physical_nodes` and the version of `GC_HWIP`. -/
structure Device where
  numPhysicalNodes : Nat
  gcVersion : Nat

/-- `enum amdgpu_sync_mode`, as far as it is used. -/
inductive SyncMode
  | eqOwner
  | explicit
  deriving DecidableEq

/-- What `amdgpu_vm_update_range` finds: whether the device is there, whether there is memory,
`vm->evicting`, whether `vm->last_unlocked` is signaled, what `prepare` and `commit` return, whether
a table has been freed, and whether the callback has been added to a fence. -/
structure Found where
  devEnter : Bool
  kmalloc : Bool
  evicting : Bool
  lastUnlockedSignaled : Bool
  prepare : Option Errno
  commit : Option Errno
  tableFreed : Bool
  callbackAdded : Bool

/-- A call of `amdgpu_vm_ptes_update` for the pages from `start` up to `stop`, with `pages_addr` of
`struct amdgpu_vm_update_params`. -/
structure PtesCall where
  start : Nat
  stop : Nat
  dst : Nat
  pagesAddr : Option DmaPages

/-- What `amdgpu_vm_update_range` does, in order. -/
inductive Event
  | devEnter
  | evictionLock
  | boFence
  | prepare (mode : SyncMode)
  | ptesUpdate (call : PtesCall)
  | commit
  | addCallback
  | tlbSeqCb
  | evictionUnlock
  | devExit

inductive Ending
  | returned (e : Option Errno)
  | bug
  | running
  deriving DecidableEq

structure Run where
  trace : List Event
  ending : Ending

def resFirst (res : Option VramResource) (start size : Nat) : Option Cursor :=
  let fallback := { start := start, size := size, remaining := size, node := [] }
  match res with
  | none => some fallback
  | some res =>
    if res.size < start + size then none
    else
      match res.blocks with
      | [] => some fallback
      | _ :: _ => Ttm.resFirst res.blocks start size

def DmaPages.runCount (p : DmaPages) (contiguous : Bool) (pfn : Nat) : Nat → Nat → Nat
  | 0, count => count
  | tests + 1, count =>
    if contiguous != p.follows (pfn + count) then count
    else p.runCount contiguous pfn tests (count + 1)

/-- The locals of a round of the loop: `num_entries`, `addr` and `params.pages_addr`. -/
structure Piece where
  numEntries : Nat
  addr : Nat
  pagesAddr : Option DmaPages

def Piece.call (p : Piece) (start : Nat) : PtesCall :=
  { start := start, stop := start + p.numEntries, dst := p.addr, pagesAddr := p.pagesAddr }

/-- A round of the loop for `pages_addr`. -/
def DmaPages.piece (p : DmaPages) (cur : Cursor) : Piece :=
  let numEntries := cur.size / gpuPageSize
  let pfn := cur.start >>> p.pageShift
  if p.gpuPages < numEntries then
    let contiguous := p.follows (pfn + 1)
    let count := p.runCount contiguous pfn (numEntries / p.gpuPages - 2) 2
    if contiguous then
      { numEntries := count * p.gpuPages, addr := p.addr pfn, pagesAddr := none }
    else
      { numEntries := (count - 1) * p.gpuPages, addr := cur.start, pagesAddr := some p }
  else { numEntries := numEntries, addr := p.addr pfn, pagesAddr := none }

/-- The entries are for pages that are there, or that are for PRT. -/
def Args.translates (a : Args) : Bool := a.flags &&& (pteValid ||| ptePrt) != 0

/-- A round of the loop. -/
def Args.piece (a : Args) (cur : Cursor) : Piece :=
  match a.pagesAddr with
  | some p => p.piece cur
  | none =>
    { numEntries := cur.size / gpuPageSize
      addr := if a.translates then (a.vramBase + cur.start) % 2 ^ 64 else 0
      pagesAddr := none }

inductive LoopEnd
  | done
  | failed (e : Errno)
  | bug
  | running
  deriving DecidableEq

/-- The loop from round `k` on, for so many rounds at most. `ptes k` is what the call of round `k`
returns. A piece that is longer than what remains is a `BUG_ON` of `amdgpu_res_next`. -/
def updateLoop (a : Args) (ptes : Nat → Option Errno) : Nat → Nat → Cursor → Nat →
    List PtesCall × LoopEnd
  | 0, _, cur, _ => ([], if cur.remaining = 0 then .done else .running)
  | fuel + 1, k, cur, start =>
    if cur.remaining = 0 then ([], .done)
    else
      let p := a.piece cur
      match ptes k with
      | some e => ([p.call start], .failed e)
      | none =>
        if cur.remaining < p.numEntries * gpuPageSize then ([p.call start], .bug)
        else
          let rest := updateLoop a ptes fuel (k + 1) (resNext cur (p.numEntries * gpuPageSize))
            (start + p.numEntries)
          (p.call start :: rest.1, rest.2)

def Args.numPages (a : Args) : Nat := a.last - a.start + 1

def Args.syncMode (a : Args) : SyncMode := if a.flags &&& pteValid = 0 then .eqOwner else .explicit

def Args.flush (a : Args) (dev : Device) : Bool :=
  a.flushTlb || (dev.numPhysicalNodes != 0 && dev.gcVersion == CuMask.ipVersion 9 4 0) ||
    dev.gcVersion < CuMask.ipVersion 9 0 0

/-- The label `error_unlock`. -/
def exit : List Event := [.evictionUnlock, .devExit]

def Args.head (a : Args) (f : Found) : List Event :=
  [.devEnter, .evictionLock] ++
    (if !a.unlocked && !f.lastUnlockedSignaled then [.boFence] else []) ++ [.prepare a.syncMode]

def afterLoop (dev : Device) (f : Found) (a : Args) (events : List Event) : LoopEnd → Run
  | .failed e => ⟨events ++ exit, .returned (some e)⟩
  | .bug => ⟨events, .bug⟩
  | .running => ⟨events, .running⟩
  | .done =>
    let flush := if a.flush dev || f.tableFreed then
        if f.callbackAdded then [Event.addCallback] else [.tlbSeqCb]
      else []
    ⟨events ++ .commit :: flush ++ exit, .returned f.commit⟩

def updateRange (dev : Device) (f : Found) (ptes : Nat → Option Errno) (a : Args) : Run :=
  if f.devEnter = false then ⟨[], .returned (some .enodev)⟩
  else if f.kmalloc = false then ⟨.devEnter :: exit, .returned (some .enomem)⟩
  else if f.evicting then ⟨[.devEnter, .evictionLock] ++ exit, .returned (some .ebusy)⟩
  else
    match f.prepare with
    | some e => ⟨a.head f ++ exit, .returned (some e)⟩
    | none =>
      let res := if a.pagesAddr.isSome then none else a.res
      match resFirst res a.offset (a.numPages * gpuPageSize) with
      | none => ⟨a.head f, .bug⟩
      | some cur =>
        let loop := updateLoop a ptes a.numPages 0 cur a.start
        afterLoop dev f a (a.head f ++ loop.1.map .ptesUpdate) loop.2

/-! ## What is right -/

/-- The address in the entry of page `i` of a call: `amdgpu_vm_ptes_update` adds the size of a page
for each, and the update functions look it up in `pages_addr`. -/
def resolve (pagesAddr : Option DmaPages) (dst i : Nat) : Nat :=
  match pagesAddr with
  | some p => p.mapGart (dst + i * gpuPageSize)
  | none => (dst + i * gpuPageSize) % 2 ^ 64

def PtesCall.resolve (c : PtesCall) (x : Nat) : Nat :=
  VmUpdate.resolve c.pagesAddr c.dst (x - c.start)

def DmaPages.physical (p : DmaPages) (b : Nat) : Nat := p.addr (b / p.pageSize) + b % p.pageSize

/-- The address of a byte of the backing store. -/
def Args.physical (a : Args) (b : Nat) : Option Nat :=
  match a.pagesAddr, a.res with
  | some p, _ => some (p.physical b)
  | none, some res => (Extent.locate res.blocks b).map fun x => (a.vramBase + x) % 2 ^ 64
  | none, none => none

/-- The calls are for intervals that follow one another, from page `start` up to `stop`. -/
def Consecutive (start stop : Nat) : List PtesCall → Prop
  | [] => start = stop
  | c :: calls => c.start = start ∧ start < c.stop ∧ Consecutive c.stop stop calls

def Event.call? : Event → Option PtesCall
  | .ptesUpdate call => some call
  | _ => none

/-- The calls of `amdgpu_vm_ptes_update`. -/
def Run.calls (r : Run) : List PtesCall := r.trace.filterMap Event.call?

/-- The eviction lock, taken or not. It is `none` once it is taken twice or released when it is not
taken. -/
def lockStep : Option Bool → Event → Option Bool
  | some false, .evictionLock => some true
  | some true, .evictionUnlock => some false
  | some _, .evictionLock | some _, .evictionUnlock => none
  | held, _ => held

def Run.LockRight (r : Run) : Prop := r.trace.foldl lockStep (some false) = some false

/-- The run gets as far as the loop. -/
structure Found.Enters (f : Found) : Prop where
  devEnter : f.devEnter = true
  kmalloc : f.kmalloc = true
  evicting : f.evicting = false
  prepare : f.prepare = none

/-- The calls are right: they begin with page `start`, end with page `last` if none fails, and the
entries that are for a page of the backing store have its address. -/
structure RunRight (f : Found) (ptes : Nat → Option Errno) (a : Args) (r : Run) : Prop where
  returned : ∃ e, r.ending = .returned e
  lock : r.LockRight
  calls : ∃ stop, Consecutive a.start stop r.calls ∧ stop ≤ a.last + 1 ∧
    (f.Enters → (∀ k < r.calls.length, ptes k = none) → stop = a.last + 1)
  resolves : a.translates = true → ∀ c ∈ r.calls, ∀ x, c.start ≤ x → x < c.stop →
    a.physical (a.offset + (x - a.start) * gpuPageSize) = some (c.resolve x)

/-! ## DMA addresses -/

section
variable (p : DmaPages)

theorem DmaPages.pageSize_eq : p.pageSize = p.gpuPages * gpuPageSize :=
  (Nat.div_mul_cancel (Nat.pow_dvd_pow 2 p.pageShift_ge)).symm

theorem DmaPages.pageSize_pos : 0 < p.pageSize := Nat.two_pow_pos _

theorem DmaPages.gpuPages_pos : 0 < p.gpuPages :=
  Nat.div_pos (Nat.pow_le_pow_right Nat.zero_lt_two p.pageShift_ge) (by decide)

theorem DmaPages.dvd_pageSize : gpuPageSize ∣ p.pageSize := Nat.pow_dvd_pow 2 p.pageShift_ge

theorem DmaPages.addr_add_le (pfn : Nat) : p.addr pfn + p.pageSize ≤ 2 ^ 64 := by
  obtain ⟨k, hk⟩ := p.aligned pfn
  have hsize : p.pageSize ∣ 2 ^ 64 := Nat.pow_dvd_pow 2 (le_of_lt p.pageShift_lt)
  obtain ⟨l, hl⟩ := hsize
  have hlt := p.addr_lt pfn
  rw [hl] at hlt ⊢
  rw [hk] at hlt ⊢
  change p.pageSize * k < p.pageSize * l at hlt
  show p.pageSize * k + p.pageSize ≤ p.pageSize * l
  rw [← Nat.mul_succ]
  exact Nat.mul_le_mul_left _ (Nat.lt_of_mul_lt_mul_left hlt)

theorem DmaPages.physical_lt (b : Nat) : p.physical b < 2 ^ 64 :=
  lt_of_lt_of_le (Nat.add_lt_add_left (Nat.mod_lt b p.pageSize_pos) _) (p.addr_add_le _)

theorem and_pageMask {v : Nat} (hlt : v < 2 ^ 64) (hdvd : gpuPageSize ∣ v) :
    v &&& 0xFFFFFFFFFFFFF000 = v := by
  obtain ⟨y, rfl⟩ := hdvd
  have hy : y < 2 ^ 52 := by
    simp only [gpuPageSize] at hlt
    omega
  have hmask : 0xFFFFFFFFFFFFF000 = (2 ^ 52 - 1) <<< 12 := by decide
  have hshift : gpuPageSize * y = y <<< 12 := by
    rw [Nat.shiftLeft_eq, mul_comm]
    rfl
  rw [hmask, hshift, ← Nat.shiftLeft_and_distrib, Nat.and_two_pow_sub_one_of_lt_two_pow hy]

theorem DmaPages.mapGart_eq {b : Nat} (hb : gpuPageSize ∣ b) : p.mapGart b = p.physical b := by
  have hor : p.addr (b >>> p.pageShift) ||| (b &&& (p.pageSize - 1)) = p.physical b := by
    rw [DmaPages.pageSize, Nat.and_two_pow_sub_one_eq_mod, Nat.shiftRight_eq_div_pow,
      DmaPages.physical, DmaPages.pageSize]
    obtain ⟨k, hk⟩ := p.aligned (b / 2 ^ p.pageShift)
    rw [hk]
    exact (Nat.two_pow_add_eq_or_of_lt (Nat.mod_lt b p.pageSize_pos) k).symm
  rw [DmaPages.mapGart, hor]
  refine and_pageMask (p.physical_lt b) (Nat.dvd_add ?_ ?_)
  · exact Nat.dvd_trans p.dvd_pageSize (p.aligned _)
  · exact (Nat.dvd_mod_iff p.dvd_pageSize).mpr hb

theorem DmaPages.addr_run {pfn m : Nat} (hrun : ∀ i, 0 < i → i < m → p.follows (pfn + i) = true)
    {j : Nat} (hj : j < m) : p.addr (pfn + j) = (p.addr pfn + j * p.pageSize) % 2 ^ 64 := by
  induction j with
  | zero => rw [zero_mul, add_zero, add_zero, Nat.mod_eq_of_lt (p.addr_lt pfn)]
  | succ j ih =>
    have hnext : p.addr (pfn + (j + 1)) = (p.addr (pfn + (j + 1) - 1) + p.pageSize) % 2 ^ 64 :=
      of_decide_eq_true (hrun (j + 1) (Nat.succ_pos j) hj)
    rw [hnext, ← add_assoc, Nat.add_sub_cancel, ih (Nat.lt_of_succ_lt hj), Nat.mod_add_mod,
      Nat.succ_mul, add_assoc]

theorem DmaPages.resolve_run {pos m : Nat} (hpos : p.pageSize ∣ pos)
    (hrun : ∀ i, 0 < i → i < m → p.follows (pos / p.pageSize + i) = true) {i : Nat}
    (hi : i < m * p.gpuPages) :
    p.physical (pos + i * gpuPageSize) = resolve none (p.addr (pos / p.pageSize)) i := by
  obtain ⟨pfn, rfl⟩ := hpos
  have hsize := p.pageSize_eq
  rw [Nat.mul_div_cancel_left _ p.pageSize_pos] at hrun ⊢
  obtain ⟨j, hj⟩ : ∃ j, j = i / p.gpuPages := ⟨_, rfl⟩
  obtain ⟨r, hr⟩ : ∃ r, r = i % p.gpuPages := ⟨_, rfl⟩
  have hi' : i = p.gpuPages * j + r := by rw [hj, hr, Nat.div_add_mod]
  have hbytes : i * gpuPageSize = j * p.pageSize + r * gpuPageSize := by
    rw [hi', add_mul, hsize, mul_comm p.gpuPages j, mul_assoc]
  have hrlt : r * gpuPageSize < p.pageSize := by
    rw [hsize, hr]
    exact Nat.mul_lt_mul_of_pos_right (Nat.mod_lt i p.gpuPages_pos) (by decide)
  have hjlt : j < m := hj ▸ (Nat.div_lt_iff_lt_mul p.gpuPages_pos).mpr hi
  have hbyte : p.pageSize * pfn + i * gpuPageSize = r * gpuPageSize + p.pageSize * (pfn + j) := by
    rw [hbytes, mul_add, mul_comm j, add_comm (r * gpuPageSize), add_assoc]
  rw [hbyte, DmaPages.physical, Nat.add_mul_div_left _ _ p.pageSize_pos, Nat.add_mul_mod_self_left,
    Nat.div_eq_of_lt hrlt, Nat.mod_eq_of_lt hrlt, zero_add]
  show _ = (p.addr pfn + i * gpuPageSize) % 2 ^ 64
  have hend := lt_of_lt_of_le (Nat.add_lt_add_left hrlt _) (p.addr_add_le (pfn + j))
  rw [hbytes, ← add_assoc, ← Nat.mod_add_mod, ← p.addr_run hrun hjlt, Nat.mod_eq_of_lt hend]

theorem DmaPages.runCount_spec (contiguous : Bool) (pfn tests count : Nat) :
    let stop := p.runCount contiguous pfn tests count
    count ≤ stop ∧ stop ≤ count + tests ∧
      (∀ i, count ≤ i → i < stop → p.follows (pfn + i) = contiguous) ∧
      (stop < count + tests → p.follows (pfn + stop) = !contiguous) := by
  induction tests generalizing count with
  | zero =>
    exact ⟨le_refl _, le_refl _, fun i hle hlt => absurd hlt (not_lt.mpr hle),
      fun hlt => absurd hlt (lt_irrefl _)⟩
  | succ tests ih =>
    unfold DmaPages.runCount
    split
    · rename_i hne
      refine ⟨le_refl _, Nat.le_add_right _ _, fun i hle hlt => absurd hlt (not_lt.mpr hle),
        fun _ => ?_⟩
      exact Bool.eq_not_of_ne (bne_iff_ne.mp hne).symm
    · rename_i heq
      have heq : contiguous = p.follows (pfn + count) := by simpa using heq
      obtain ⟨hge, hle, hrun, hstop⟩ := ih (count + 1)
      have hcount : count + (tests + 1) = count + 1 + tests := by
        rw [add_assoc, add_comm 1]
      rw [hcount]
      refine ⟨Nat.le_of_succ_le hge, hle, fun i hi hlt => ?_, hstop⟩
      rcases Nat.eq_or_lt_of_le hi with rfl | hi
      · exact heq.symm
      · exact hrun i hi hlt

theorem DmaPages.piece_cases {cur : Cursor} {n : Nat} (hsize : cur.size = n * gpuPageSize) :
    let pfn := cur.start / p.pageSize
    let full := n / p.gpuPages
    (n ≤ p.gpuPages ∧ p.piece cur = ⟨n, p.addr pfn, none⟩) ∨
    (p.gpuPages < n ∧ ∃ m, 1 < m ∧ (m ≤ full ∨ full = 1 ∧ m = 2) ∧
      (∀ i, 0 < i → i < m → p.follows (pfn + i) = true) ∧
      (m < full → p.follows (pfn + m) = false) ∧
      p.piece cur = ⟨m * p.gpuPages, p.addr pfn, none⟩) ∨
    (p.gpuPages < n ∧ ∃ m, 0 < m ∧ (m < full ∨ full = 1 ∧ m = 1) ∧
      (∀ i, 0 < i → i ≤ m → p.follows (pfn + i) = false) ∧
      p.piece cur = ⟨m * p.gpuPages, cur.start, some p⟩) := by
  have hnum : cur.size / gpuPageSize = n := by
    rw [hsize]
    exact Nat.mul_div_cancel n (by decide)
  have hpfn : cur.start >>> p.pageShift = cur.start / p.pageSize := Nat.shiftRight_eq_div_pow _ _
  unfold DmaPages.piece
  dsimp only
  rw [hnum, hpfn]
  split
  · rename_i hmore
    have hfull : 0 < n / p.gpuPages := Nat.div_pos (le_of_lt hmore) p.gpuPages_pos
    obtain ⟨hge, hle, hrun, hstop⟩ := p.runCount_spec (p.follows (cur.start / p.pageSize + 1))
      (cur.start / p.pageSize) (n / p.gpuPages - 2) 2
    revert hge hle hrun hstop
    generalize p.runCount (p.follows (cur.start / p.pageSize + 1)) (cur.start / p.pageSize)
      (n / p.gpuPages - 2) 2 = count
    intro hge hle hrun hstop
    have hall : ∀ i, 0 < i → i < count → p.follows (cur.start / p.pageSize + i) =
        p.follows (cur.start / p.pageSize + 1) := by
      intro i hi hlt
      rcases Nat.eq_or_lt_of_le hi with rfl | hi
      · rfl
      · exact hrun i hi hlt
    cases hcontiguous : p.follows (cur.start / p.pageSize + 1) with
    | true =>
      rw [hcontiguous] at hall hstop
      refine .inr (.inl ⟨hmore, count, hge, ?_, hall, fun hlt => hstop ?_, rfl⟩)
      · omega
      · omega
    | false =>
      rw [hcontiguous] at hall
      refine .inr (.inr ⟨hmore, count - 1, ?_, ?_, fun i hi hi' => hall i hi ?_, rfl⟩)
      · omega
      · omega
      · omega
  · rename_i hless
    exact .inl ⟨not_lt.mp hless, rfl⟩

end

/-! ## The loop -/

structure PieceRight (a : Args) (pos n : Nat) (p : Piece) : Prop where
  nonempty : 0 < p.numEntries
  le : p.numEntries ≤ n
  resolves : a.translates = true → ∀ i < p.numEntries,
    a.physical (pos + i * gpuPageSize) = some (resolve p.pagesAddr p.addr i)

structure LoopRight (a : Args) (ptes : Nat → Option Errno) (k start pos n : Nat)
    (out : List PtesCall × LoopEnd) : Prop where
  ended : out.2 = .done ∨ ∃ e, out.2 = .failed e
  calls : ∃ stop, Consecutive start stop out.1 ∧ stop ≤ start + n ∧
    ((∀ i < out.1.length, ptes (k + i) = none) → stop = start + n)
  resolves : a.translates = true → ∀ c ∈ out.1, ∀ x, c.start ≤ x → x < c.stop →
    a.physical (pos + (x - start) * gpuPageSize) = some (c.resolve x)

theorem Consecutive.le_start {start stop : Nat} {calls : List PtesCall}
    (h : Consecutive start stop calls) : ∀ c ∈ calls, start ≤ c.start := by
  induction calls generalizing start with
  | nil => exact fun c hc => absurd hc not_mem_nil
  | cons d calls ih =>
    obtain ⟨rfl, hlt, hrest⟩ := h
    intro c hc
    rcases mem_cons.mp hc with rfl | hc
    · exact le_refl _
    · exact le_trans (le_of_lt hlt) (ih hrest c hc)

section
variable {a : Args} {ptes : Nat → Option Errno} {k n pos start fuel : Nat} {cur : Cursor}

theorem PieceRight.call_resolve {p : Piece} (h : PieceRight a pos n p) (hmap : a.translates = true)
    {x : Nat} (hge : start ≤ x) (hlt : x < start + p.numEntries) :
    a.physical (pos + (x - start) * gpuPageSize) = some ((p.call start).resolve x) :=
  h.resolves hmap (x - start) (Nat.sub_lt_left_of_lt_add hge hlt)

theorem LoopRight.nil : LoopRight a ptes k start pos 0 ([], .done) :=
  ⟨.inl rfl, ⟨start, rfl, le_refl _, fun _ => rfl⟩, fun _ _ hc => absurd hc not_mem_nil⟩

theorem updateLoop_right {I : Cursor → Nat → Nat → Prop}
    (hrem : ∀ {cur pos n}, I cur pos n → cur.remaining = n * gpuPageSize)
    (hstep : ∀ {cur pos n}, I cur pos n → 0 < n → PieceRight a pos n (a.piece cur) ∧
      I (resNext cur ((a.piece cur).numEntries * gpuPageSize))
        (pos + (a.piece cur).numEntries * gpuPageSize) (n - (a.piece cur).numEntries))
    (h : I cur pos n) (hfuel : n ≤ fuel) :
    LoopRight a ptes k start pos n (updateLoop a ptes fuel k cur start) := by
  induction fuel generalizing k n pos start cur with
  | zero =>
    obtain rfl := Nat.le_zero.mp hfuel
    have hzero : cur.remaining = 0 := (hrem h).trans (zero_mul _)
    rw [updateLoop, if_pos hzero]
    exact .nil
  | succ fuel ih =>
    have hremaining := hrem h
    rw [updateLoop]
    rcases Nat.eq_zero_or_pos n with rfl | hn
    · rw [if_pos (by rw [hremaining, zero_mul])]
      exact .nil
    · obtain ⟨hright, hnext⟩ := hstep h hn
      have hle : (a.piece cur).numEntries * gpuPageSize ≤ n * gpuPageSize :=
        Nat.mul_le_mul_right _ hright.le
      have hpos : 0 < n * gpuPageSize := Nat.mul_pos hn (by decide)
      rw [if_neg (by rw [hremaining]; exact ne_of_gt hpos)]
      have hstart : start < start + (a.piece cur).numEntries :=
        Nat.lt_add_of_pos_right hright.nonempty
      dsimp only
      -- A failed call ends the loop: what has been passed so far is a start of the range.
      cases hptes : ptes k with
      | some e =>
        refine ⟨.inr ⟨e, rfl⟩, ⟨_, ⟨rfl, hstart, rfl⟩, Nat.add_le_add_left hright.le _, ?_⟩, ?_⟩
        · intro hall
          have hfirst := hall 0 Nat.zero_lt_one
          rw [add_zero, hptes] at hfirst
          cases hfirst
        · intro hmap c hc x hge hlt
          obtain rfl := mem_singleton.mp hc
          exact hright.call_resolve hmap hge hlt
      | none =>
        dsimp only
        rw [if_neg (by rw [hremaining]; exact not_lt.mpr hle)]
        have hfuel' : n - (a.piece cur).numEntries ≤ fuel := by
          have := hright.nonempty
          omega
        have hrest := @ih (k + 1) _ _ (start + (a.piece cur).numEntries) _ hnext hfuel'
        have hsum : start + (a.piece cur).numEntries + (n - (a.piece cur).numEntries) =
            start + n := by
          rw [add_assoc, Nat.add_sub_cancel' hright.le]
        obtain ⟨stop, hcalls, hstop, hall⟩ := hrest.calls
        rw [hsum] at hstop hall
        refine ⟨hrest.ended, ⟨stop, ⟨rfl, hstart, hcalls⟩, hstop, fun hnone => hall fun i hi => ?_⟩,
          ?_⟩
        · rw [add_assoc, add_comm 1]
          exact hnone (i + 1) (Nat.succ_lt_succ hi)
        · intro hmap c hc x hge hlt
          rcases mem_cons.mp hc with rfl | hc
          · exact hright.call_resolve hmap hge hlt
          · have hx := le_trans (hcalls.le_start c hc) hge
            rw [← hrest.resolves hmap c hc x hge hlt, add_assoc, ← add_mul]
            congr 3
            omega

theorem mem_updateLoop (h : cur.remaining ≠ 0) :
    (a.piece cur).call start ∈ (updateLoop a ptes (fuel + 1) k cur start).1 := by
  rw [updateLoop, if_neg h]
  dsimp only
  cases ptes k with
  | some e => exact mem_singleton_self _
  | none =>
    dsimp only
    split
    · exact mem_singleton_self _
    · exact mem_cons_self

theorem updateLoop_round (h : cur.remaining ≠ 0) (hptes : ptes k = none)
    (hle : (a.piece cur).numEntries * gpuPageSize ≤ cur.remaining) :
    updateLoop a ptes (fuel + 1) k cur start =
      let rest := updateLoop a ptes fuel (k + 1)
        (resNext cur ((a.piece cur).numEntries * gpuPageSize)) (start + (a.piece cur).numEntries)
      ((a.piece cur).call start :: rest.1, rest.2) := by
  rw [updateLoop, if_neg h]
  dsimp only
  rw [hptes]
  exact if_neg (not_lt.mpr hle)

end

/-! ## Blocks of VRAM -/

structure OnBlocks (blocks : List Extent) (cur : Cursor) (pos n : Nat) : Prop where
  at_pos : cur.At blocks pos (n * gpuPageSize)
  size_dvd : 0 < n → gpuPageSize ∣ cur.size
  node_dvd : 0 < n → ∀ b ∈ cur.node, gpuPageSize ∣ b.size

section
variable {a : Args} {n pos : Nat} {cur : Cursor} {res : VramResource}

theorem piece_vram (hpages : a.pagesAddr = none) (hres : a.res = some res)
    (h : OnBlocks res.blocks cur pos n) (hn : 0 < n) : PieceRight a pos n (a.piece cur) ∧
      OnBlocks res.blocks (resNext cur ((a.piece cur).numEntries * gpuPageSize))
        (pos + (a.piece cur).numEntries * gpuPageSize) (n - (a.piece cur).numEntries) := by
  have hbytes : 0 < n * gpuPageSize := Nat.mul_pos hn (by decide)
  have hsize_pos := h.at_pos.size_pos hbytes
  have hsize_le := h.at_pos.size_le hbytes
  obtain ⟨m, hm⟩ := h.size_dvd hn
  rw [mul_comm] at hm
  have hpiece : a.piece cur =
      ⟨m, if a.translates then (a.vramBase + cur.start) % 2 ^ 64 else 0, none⟩ := by
    unfold Args.piece
    rw [hpages, hm, Nat.mul_div_cancel m (by decide)]
  have hm_pos : 0 < m := Nat.pos_of_mul_pos_right (hm ▸ hsize_pos)
  have hm_le : m ≤ n := Nat.le_of_mul_le_mul_right (hm ▸ hsize_le) (by decide)
  rw [hpiece]
  refine ⟨⟨hm_pos, hm_le, fun hmap i hi => ?_⟩, ?_⟩
  · have hlt : i * gpuPageSize < cur.size := by
      rw [hm]
      exact Nat.mul_lt_mul_of_pos_right hi (by decide)
    unfold Args.physical
    rw [hpages, hres]
    dsimp only
    rw [h.at_pos.locate hbytes hlt, if_pos hmap]
    show some ((a.vramBase + (cur.start + i * gpuPageSize)) % 2 ^ 64) =
      some (((a.vramBase + cur.start) % 2 ^ 64 + i * gpuPageSize) % 2 ^ 64)
    rw [Nat.mod_add_mod, add_assoc]
  · show OnBlocks res.blocks (resNext cur (m * gpuPageSize)) (pos + m * gpuPageSize) (n - m)
    have hnext := h.at_pos.next (le_of_eq hm.symm) (Nat.mul_le_mul_right _ hm_le)
    rw [← Nat.sub_mul] at hnext
    refine ⟨hnext, fun hmore => ?_, fun hmore => ?_⟩
    all_goals
      have hlt : m * gpuPageSize < n * gpuPageSize :=
        Nat.mul_lt_mul_of_pos_right (Nat.lt_of_sub_pos hmore) (by decide)
      rcases h.at_pos.resNext_cases (le_of_eq hm.symm) hlt with
        ⟨hin, -⟩ | ⟨block, rest, -, hnode, -, hcur⟩
      · exact absurd hin (not_lt.mpr (le_of_eq hm))
    · rw [hcur, ← Nat.sub_mul]
      have hblock := h.node_dvd hn block (hnode ▸ mem_cons_self)
      show gpuPageSize ∣ min block.size _
      rcases le_total block.size ((n - m) * gpuPageSize) with hle | hle
      · rwa [min_eq_left hle]
      · rw [min_eq_right hle]
        exact Nat.dvd_mul_left _ _
    · rw [hcur]
      exact fun b hb => h.node_dvd hn b (hnode ▸ mem_cons_of_mem block hb)

theorem resFirst_dvd {blocks : List Extent} {start size : Nat}
    (hblocks : ∀ b ∈ blocks, gpuPageSize ∣ b.size) (hstart : gpuPageSize ∣ start)
    (hsize : gpuPageSize ∣ size) (h : Ttm.resFirst blocks start size = some cur) :
    gpuPageSize ∣ cur.size ∧ ∀ b ∈ cur.node, gpuPageSize ∣ b.size := by
  induction blocks generalizing start with
  | nil => cases h
  | cons block blocks ih =>
    obtain ⟨hblock, hrest⟩ := forall_mem_cons.mp hblocks
    unfold Ttm.resFirst at h
    split at h
    · exact ih hrest (Nat.dvd_sub hstart hblock) h
    · obtain rfl := some.inj h
      refine ⟨?_, hrest⟩
      show gpuPageSize ∣ min (block.size - start) size
      rcases le_total (block.size - start) size with hle | hle
      · rw [min_eq_left hle]
        exact Nat.dvd_sub hblock hstart
      · rwa [min_eq_right hle]

theorem resFirst_vram (hn : 0 < n) (hpos : gpuPageSize ∣ pos)
    (hfits : pos + n * gpuPageSize ≤ res.size) :
    ∃ cur, resFirst (some res) pos (n * gpuPageSize) = some cur ∧
      OnBlocks res.blocks cur pos n := by
  have hbytes : 0 < n * gpuPageSize := Nat.mul_pos hn (by decide)
  have htotal := le_trans hfits res.size_le
  obtain ⟨cur, hcur, hat⟩ := resFirst_at res.block_pos
    (lt_of_lt_of_le (Nat.lt_add_of_pos_right hbytes) htotal) htotal
  have hdvd := resFirst_dvd res.aligned hpos (Nat.dvd_mul_left _ n) hcur
  refine ⟨cur, ?_, hat, fun _ => hdvd.1, fun _ => hdvd.2⟩
  unfold resFirst
  dsimp only
  rw [if_neg (not_lt.mpr hfits)]
  cases hblocks : res.blocks with
  | nil =>
    rw [hblocks] at hcur
    cases hcur
  | cons block blocks =>
    rw [hblocks] at hcur
    exact hcur

end

/-! ## Arrays of DMA addresses -/

/-- The cursor of `amdgpu_res_first` without a resource is at byte `pos`, with `n` pages to go. -/
structure Flat (cur : Cursor) (pos n : Nat) : Prop where
  remaining : cur.remaining = n * gpuPageSize
  start : 0 < n → cur.start = pos
  size : 0 < n → cur.size = n * gpuPageSize

theorem Flat.remaining_ne {cur : Cursor} {pos n : Nat} (h : Flat cur pos n) (hn : 0 < n) :
    cur.remaining ≠ 0 := by
  rw [h.remaining]
  exact ne_of_gt (Nat.mul_pos hn (by decide))

theorem Flat.next {cur : Cursor} {pos n : Nat} (h : Flat cur pos n) (m : Nat) :
    Flat (resNext cur (m * gpuPageSize)) (pos + m * gpuPageSize) (n - m) := by
  have hremaining : cur.remaining - m * gpuPageSize = (n - m) * gpuPageSize := by
    rw [h.remaining, Nat.sub_mul]
  unfold resNext
  dsimp only
  rw [hremaining]
  rcases Nat.eq_zero_or_pos (n - m) with hend | hmore
  · rw [hend, zero_mul, if_pos rfl]
    exact ⟨(zero_mul _).symm, fun hlt => absurd hlt (lt_irrefl 0),
      fun hlt => absurd hlt (lt_irrefl 0)⟩
  · have hn : 0 < n := lt_of_lt_of_le hmore (Nat.sub_le n m)
    have hne : (n - m) * gpuPageSize ≠ 0 := ne_of_gt (Nat.mul_pos hmore (by decide))
    have hsize : cur.size - m * gpuPageSize = (n - m) * gpuPageSize := by
      rw [h.size hn, Nat.sub_mul]
    rw [if_neg hne, hsize, if_pos hne]
    exact ⟨rfl, fun _ => congrArg (· + m * gpuPageSize) (h.start hn), fun _ => rfl⟩

/-- Of `n` pages of the GPU from CPU page `pfn` on, the last are some of a CPU page, which follows
the one before it, and that one does not follow another of them. -/
def DmaPages.Tail (p : DmaPages) (pfn n : Nat) : Prop :=
  n % p.gpuPages ≠ 0 ∧ 0 < n / p.gpuPages ∧ p.follows (pfn + n / p.gpuPages) = true ∧
    (n / p.gpuPages = 1 ∨ p.follows (pfn + n / p.gpuPages - 1) = false)

section
variable {a : Args} {n m pfn pos start fuel k : Nat} {cur : Cursor} {p : DmaPages}

theorem DmaPages.run_le (hm : m ≤ n / p.gpuPages) : m * p.gpuPages ≤ n :=
  le_trans (Nat.mul_le_mul_right _ hm) (Nat.div_mul_le_self n p.gpuPages)

theorem DmaPages.tail_rest (hm : m ≤ n / p.gpuPages) :
    (n - m * p.gpuPages) % p.gpuPages = n % p.gpuPages ∧
      (n - m * p.gpuPages) / p.gpuPages = n / p.gpuPages - m := by
  obtain ⟨r, rfl⟩ := Nat.exists_eq_add_of_le (DmaPages.run_le hm)
  rw [Nat.add_sub_cancel_left, mul_comm m, Nat.mul_add_mod_self_left,
    Nat.mul_add_div p.gpuPages_pos, Nat.add_sub_cancel_left]
  exact ⟨rfl, rfl⟩

theorem DmaPages.Tail.of_rest (hm : 0 < m) (hle : m ≤ n / p.gpuPages)
    (hcut : m < n / p.gpuPages → p.follows (pfn + m) = false)
    (h : p.Tail (pfn + m) (n - m * p.gpuPages)) : p.Tail pfn n := by
  obtain ⟨hmod, hdiv⟩ := DmaPages.tail_rest hle
  obtain ⟨hpart, hfull, hfollows, hlast⟩ := h
  rw [hmod] at hpart
  rw [hdiv] at hfull hfollows hlast
  have hlt : m < n / p.gpuPages := Nat.lt_of_sub_pos hfull
  have hidx : pfn + m + (n / p.gpuPages - m) = pfn + n / p.gpuPages := by omega
  rw [hidx] at hfollows hlast
  refine ⟨hpart, lt_of_le_of_lt (Nat.zero_le m) hlt, hfollows, .inr ?_⟩
  rcases hlast with hone | hlast
  · have hprev : pfn + n / p.gpuPages - 1 = pfn + m := by omega
    rw [hprev]
    exact hcut hlt
  · exact hlast

theorem DmaPages.Tail.rest (hlt : m < n / p.gpuPages) (h : p.Tail pfn n) :
    p.Tail (pfn + m) (n - m * p.gpuPages) := by
  obtain ⟨hmod, hdiv⟩ := DmaPages.tail_rest (le_of_lt hlt)
  obtain ⟨hpart, hfull, hfollows, hlast⟩ := h
  have hidx : pfn + m + (n / p.gpuPages - m) = pfn + n / p.gpuPages := by omega
  unfold DmaPages.Tail
  rw [hmod, hdiv, hidx]
  refine ⟨hpart, Nat.sub_pos_of_lt hlt, hfollows, ?_⟩
  rcases hlast with hone | hlast
  · exact .inl (by omega)
  · exact .inr hlast

/-- Where the loop is in the array, with the run of its pages as it should be. -/
structure OnPages (a : Args) (p : DmaPages) (cur : Cursor) (pos n : Nat) : Prop where
  flat : Flat cur pos n
  pos_dvd : gpuPageSize ∣ pos
  pos_aligned : 0 < n → a.translates = true → p.pageSize ∣ pos
  no_tail : ¬ p.Tail (pos / p.pageSize) n

theorem DmaPages.pos_next (p : DmaPages) (pos m : Nat) :
    pos + m * p.gpuPages * gpuPageSize = pos + m * p.pageSize := by
  rw [p.pageSize_eq, mul_assoc]

theorem DmaPages.pfn_next (p : DmaPages) (pos m : Nat) :
    (pos + m * p.gpuPages * gpuPageSize) / p.pageSize = pos / p.pageSize + m := by
  rw [p.pos_next, Nat.add_mul_div_right _ _ p.pageSize_pos]

theorem OnPages.next (h : OnPages a p cur pos n) (hn : 0 < n) (hm : 0 < m)
    (hle : m ≤ n / p.gpuPages)
    (hcut : m < n / p.gpuPages → p.follows (pos / p.pageSize + m) = false) :
    OnPages a p (resNext cur (m * p.gpuPages * gpuPageSize)) (pos + m * p.gpuPages * gpuPageSize)
      (n - m * p.gpuPages) := by
  refine ⟨h.flat.next _, Nat.dvd_add h.pos_dvd (Nat.dvd_mul_left _ _), fun _ hmap => ?_, ?_⟩
  · rw [p.pos_next]
    exact Nat.dvd_add (h.pos_aligned hn hmap) (Nat.dvd_mul_left _ _)
  · rw [p.pfn_next]
    exact fun htail => h.no_tail (htail.of_rest hm hle hcut)

section
variable (hpages : a.pagesAddr = some p)
include hpages

theorem Args.piece_pages (cur : Cursor) : a.piece cur = p.piece cur := by
  unfold Args.piece
  rw [hpages]

theorem Args.physical_pages (b : Nat) : a.physical b = some (p.physical b) := by
  unfold Args.physical
  rw [hpages]

theorem piece_pages (h : OnPages a p cur pos n) (hn : 0 < n) :
    PieceRight a pos n (a.piece cur) ∧
      OnPages a p (resNext cur ((a.piece cur).numEntries * gpuPageSize))
        (pos + (a.piece cur).numEntries * gpuPageSize) (n - (a.piece cur).numEntries) := by
  have hcases := p.piece_cases (h.flat.size hn)
  rw [h.flat.start hn] at hcases
  rw [Args.piece_pages hpages]
  rcases hcases with ⟨hless, heq⟩ | ⟨hmore, m, hm, hle, hrun, hcut, heq⟩ |
      ⟨hmore, m, hm, hle, hrun, heq⟩
  · rw [heq]
    refine ⟨⟨hn, le_refl n, fun hmap i hi => ?_⟩, ?_⟩
    · rw [Args.physical_pages hpages]
      refine congrArg some (p.resolve_run (m := 1) (h.pos_aligned hn hmap) (fun i hi hlt => ?_) ?_)
      · exact absurd hlt (not_lt.mpr hi)
      · rw [one_mul]
        exact lt_of_lt_of_le hi hless
    · have hend : n - n = 0 := Nat.sub_self n
      refine ⟨h.flat.next n, Nat.dvd_add h.pos_dvd (Nat.dvd_mul_left _ n), fun hlt => ?_, ?_⟩
      · exact absurd hend (ne_of_gt hlt)
      · exact fun htail => htail.1 (by rw [hend, Nat.zero_mod])
  · -- The piece is longer than what remains only at the tail.
    have hle : m ≤ n / p.gpuPages := by
      rcases hle with hle | ⟨hone, rfl⟩
      · exact hle
      · refine absurd ⟨?_, ?_, ?_, .inl hone⟩ h.no_tail
        · intro hzero
          have hsum := Nat.div_add_mod n p.gpuPages
          rw [hone, hzero, mul_one, add_zero] at hsum
          exact absurd hsum (ne_of_lt hmore)
        · rw [hone]
          exact Nat.zero_lt_one
        · rw [hone]
          exact hrun 1 Nat.zero_lt_one hm
    have hm : 0 < m := Nat.lt_of_succ_lt hm
    rw [heq]
    refine ⟨⟨Nat.mul_pos hm p.gpuPages_pos, ?_, fun hmap i hi => ?_⟩, h.next hn hm hle hcut⟩
    · exact DmaPages.run_le hle
    · rw [Args.physical_pages hpages]
      exact congrArg some (p.resolve_run (h.pos_aligned hn hmap) hrun hi)
  · have hle : m ≤ n / p.gpuPages := by
      rcases hle with hlt | ⟨hone, rfl⟩
      · exact le_of_lt hlt
      · exact le_of_eq hone.symm
    rw [heq]
    refine ⟨⟨Nat.mul_pos hm p.gpuPages_pos, ?_, fun hmap i hi => ?_⟩,
      h.next hn hm hle fun _ => hrun m hm (le_refl m)⟩
    · exact DmaPages.run_le hle
    · rw [Args.physical_pages hpages]
      exact congrArg some (p.mapGart_eq (Nat.dvd_add h.pos_dvd (Nat.dvd_mul_left _ i))).symm

theorem updateLoop_tail (h : Flat cur pos n) (htail : p.Tail (pos / p.pageSize) n)
    (hfuel : n ≤ fuel) : (updateLoop a (fun _ => none) fuel k cur start).2 = .bug := by
  induction fuel generalizing k n pos start cur with
  | zero =>
    obtain rfl := Nat.le_zero.mp hfuel
    exact absurd (Nat.zero_mod _) htail.1
  | succ fuel ih =>
    have hfull := htail.2.1
    have hn : 0 < n := Nat.pos_of_ne_zero fun hzero => by
      rw [hzero, Nat.zero_div] at hfull
      exact absurd hfull (lt_irrefl 0)
    have hne := h.remaining_ne hn
    have hrest : ∀ m addr pages, a.piece cur = ⟨m * p.gpuPages, addr, pages⟩ → 0 < m →
        m < n / p.gpuPages →
        (updateLoop a (fun _ => none) (fuel + 1) k cur start).2 = .bug := by
      intro m addr pages heq hm hlt
      have hle : m * p.gpuPages ≤ n := DmaPages.run_le (le_of_lt hlt)
      have hpos : 0 < m * p.gpuPages := Nat.mul_pos hm p.gpuPages_pos
      have hround : (a.piece cur).numEntries * gpuPageSize ≤ cur.remaining := by
        rw [heq, h.remaining]
        exact Nat.mul_le_mul_right _ hle
      rw [updateLoop_round hne rfl hround, heq]
      have hfuel' : n - m * p.gpuPages ≤ fuel := by omega
      refine ih (h.next _) ?_ hfuel'
      rw [p.pfn_next]
      exact htail.rest hlt
    -- The tail stays ahead of the cursor until the last whole page, whose piece is one too long.
    have hcases := p.piece_cases (h.size hn)
    rw [h.start hn, ← Args.piece_pages hpages] at hcases
    rcases hcases with ⟨hless, -⟩ | ⟨-, m, hm, hle, hrun, -, heq⟩ | ⟨-, m, hm, hle, hrun, heq⟩
    · rcases Nat.eq_or_lt_of_le hless with heq | hlt
      · exact absurd (by rw [heq, Nat.mod_self]) htail.1
      · exact absurd (Nat.div_eq_of_lt hlt) (ne_of_gt hfull)
    · have hm0 : 0 < m := Nat.lt_of_succ_lt hm
      rcases hle with hle | ⟨hone, rfl⟩
      · rcases Nat.eq_or_lt_of_le hle with heq' | hlt
        · -- The last whole page would follow the one before it.
          have hprev := hrun (m - 1) (Nat.sub_pos_of_lt hm) (Nat.sub_lt hm0 Nat.zero_lt_one)
          rw [← Nat.add_sub_assoc hm0, heq'] at hprev
          rcases htail.2.2.2 with hone | hlast
          · exact absurd (heq'.trans hone) (ne_of_gt hm)
          · rw [hprev] at hlast
            cases hlast
        · exact hrest m _ _ heq hm0 hlt
      · have hlt : n < 2 * p.gpuPages := (Nat.div_lt_iff_lt_mul p.gpuPages_pos).mp (by omega)
        rw [updateLoop, if_neg hne, heq, h.remaining]
        dsimp only
        rw [if_pos (Nat.mul_lt_mul_of_pos_right hlt (by decide))]
    · rcases hle with hlt | ⟨hone, rfl⟩
      · exact hrest m _ _ heq hm hlt
      · have hfollows := htail.2.2.1
        rw [hone, hrun 1 Nat.zero_lt_one (le_refl 1)] at hfollows
        cases hfollows

theorem updateLoop_misaligned (h : Flat cur pos n) (hn : 0 < n) (hpos : ¬ p.pageSize ∣ pos)
    (hfuel : n ≤ fuel) :
    ∃ c ∈ (updateLoop a (fun _ => none) fuel k cur start).1, start ≤ c.start ∧ c.start < c.stop ∧
      a.physical (pos + (c.start - start) * gpuPageSize) ≠ some (c.resolve c.start) := by
  induction fuel generalizing k n pos start cur with
  | zero => exact absurd hn (not_lt.mpr hfuel)
  | succ fuel ih =>
    have hne := h.remaining_ne hn
    have hmem : (a.piece cur).call start ∈
        (updateLoop a (fun _ => none) (fuel + 1) k cur start).1 := mem_updateLoop hne
    -- A call with the address of its CPU page has it for a page inside of it.
    have hwrong : ∀ num, 0 < num → a.piece cur = ⟨num, p.addr (pos / p.pageSize), none⟩ →
        ∃ c ∈ (updateLoop a (fun _ => none) (fuel + 1) k cur start).1, start ≤ c.start ∧
          c.start < c.stop ∧
          a.physical (pos + (c.start - start) * gpuPageSize) ≠ some (c.resolve c.start) := by
      intro num hnum heq
      refine ⟨_, hmem, le_refl _, ?_, ?_⟩
      · rw [heq]
        exact Nat.lt_add_of_pos_right hnum
      · rw [heq, Args.physical_pages hpages]
        show some (p.physical (pos + (start - start) * gpuPageSize)) ≠
          some ((p.addr (pos / p.pageSize) + (start - start) * gpuPageSize) % 2 ^ 64)
        rw [Nat.sub_self, zero_mul, add_zero, add_zero, Nat.mod_eq_of_lt (p.addr_lt _)]
        intro hsame
        refine hpos (Nat.dvd_of_mod_eq_zero ?_)
        exact Nat.add_eq_left.mp (some.inj hsame)
    have hcases := p.piece_cases (h.size hn)
    rw [h.start hn, ← Args.piece_pages hpages] at hcases
    rcases hcases with ⟨-, heq⟩ | ⟨-, m, hm, -, -, -, heq⟩ | ⟨hmore, m, hm, hle, -, heq⟩
    · exact hwrong n hn heq
    · exact hwrong _ (Nat.mul_pos (Nat.lt_of_succ_lt hm) p.gpuPages_pos) heq
    · have hlt : m * p.gpuPages < n := by
        rcases hle with hlt | ⟨-, rfl⟩
        · exact lt_of_lt_of_le (Nat.mul_lt_mul_of_pos_right hlt p.gpuPages_pos)
            (Nat.div_mul_le_self n p.gpuPages)
        · rwa [one_mul]
      have hnum : 0 < m * p.gpuPages := Nat.mul_pos hm p.gpuPages_pos
      have hround : (a.piece cur).numEntries * gpuPageSize ≤ cur.remaining := by
        rw [heq, h.remaining]
        exact Nat.mul_le_mul_right _ (le_of_lt hlt)
      have hpos' : ¬ p.pageSize ∣ pos + m * p.gpuPages * gpuPageSize := by
        rw [p.pos_next, Nat.dvd_add_left (Nat.dvd_mul_left _ m)]
        exact hpos
      have hfuel' : n - m * p.gpuPages ≤ fuel := by omega
      obtain ⟨c, hc, hstart, hstop, hne'⟩ := @ih _ _ (start + m * p.gpuPages) (k + 1) _
        (h.next _) (Nat.sub_pos_of_lt hlt) hpos' hfuel'
      rw [updateLoop_round hne rfl hround, heq]
      refine ⟨c, mem_cons_of_mem _ hc, le_trans (Nat.le_add_right _ _) hstart, hstop, ?_⟩
      rw [add_assoc, ← add_mul] at hne'
      have hidx : m * p.gpuPages + (c.start - (start + m * p.gpuPages)) = c.start - start := by
        omega
      rwa [hidx] at hne'

end

end

/-! ## The call -/

/-- What the callers of `amdgpu_vm_update_range` see to: there is a first page and a last, the
offset is that of a page of the GPU, and the pages are in the backing store. -/
structure Args.Ok (a : Args) : Prop where
  start_le : a.start ≤ a.last
  offset_dvd : gpuPageSize ∣ a.offset
  store : a.pagesAddr.isSome = true ∨
    ∃ res, a.res = some res ∧ a.offset + a.numPages * gpuPageSize ≤ res.size

/-- The pages are right for the loop: VRAM is, and an array of DMA addresses is if the offset is
that of a CPU page and the last pages are not such that a call goes past them. -/
def Args.Plain (a : Args) : Prop :=
  ∀ p, a.pagesAddr = some p → (a.translates = true → p.pageSize ∣ a.offset) ∧
    ¬ p.Tail (a.offset / p.pageSize) a.numPages

theorem foldl_lockStep_calls (calls : List PtesCall) :
    (calls.map Event.ptesUpdate).foldl lockStep (some true) = some true := by
  induction calls with
  | nil => rfl
  | cons c calls ih => exact ih

theorem filterMap_calls (calls : List PtesCall) :
    (calls.map Event.ptesUpdate).filterMap Event.call? = calls := by
  rw [filterMap_map]
  exact filterMap_some

section
variable {dev : Device} {f : Found} {ptes : Nat → Option Errno} {a : Args} {cur : Cursor}

theorem Args.head_events (a : Args) (f : Found) (calls : List PtesCall) :
    (a.head f ++ calls.map Event.ptesUpdate).filterMap Event.call? = calls ∧
      (a.head f ++ calls.map Event.ptesUpdate).foldl lockStep (some false) = some true := by
  have hcalls : (a.head f).filterMap Event.call? = [] := by
    unfold Args.head
    split <;> rfl
  have hlock : (a.head f).foldl lockStep (some false) = some true := by
    unfold Args.head
    split <;> rfl
  constructor
  · rw [filterMap_append, hcalls, filterMap_calls, nil_append]
  · rw [foldl_append, hlock, foldl_lockStep_calls]

theorem afterLoop_calls (events : List Event) (e : LoopEnd) :
    (afterLoop dev f a events e).calls = events.filterMap Event.call? := by
  cases e with
  | done =>
    show (events ++ _ ++ exit).filterMap _ = _
    rw [append_assoc, filterMap_append]
    split_ifs <;> exact append_nil _
  | failed e => exact (filterMap_append ..).trans (append_nil _)
  | bug | running => rfl

theorem afterLoop_right {events : List Event}
    (hlock : events.foldl lockStep (some false) = some true) {e : LoopEnd}
    (he : e = .done ∨ ∃ errno, e = .failed errno) :
    (afterLoop dev f a events e).LockRight ∧
      ∃ r, (afterLoop dev f a events e).ending = .returned r := by
  rcases he with rfl | ⟨errno, rfl⟩
  · refine ⟨?_, _, rfl⟩
    show (events ++ _ ++ exit).foldl lockStep (some false) = some false
    rw [append_assoc, foldl_append, hlock]
    split_ifs <;> rfl
  · refine ⟨?_, _, rfl⟩
    show (events ++ exit).foldl lockStep (some false) = some false
    rw [foldl_append, hlock]
    rfl

theorem updateRange_enters (h : f.Enters)
    (hcur : resFirst (if a.pagesAddr.isSome then none else a.res) a.offset
      (a.numPages * gpuPageSize) = some cur) :
    let loop := updateLoop a ptes a.numPages 0 cur a.start
    updateRange dev f ptes a = afterLoop dev f a (a.head f ++ loop.1.map .ptesUpdate) loop.2 := by
  obtain ⟨henter, hkmalloc, hevicting, hprepare⟩ := h
  unfold updateRange
  rw [if_neg (by rw [henter]; decide), if_neg (by rw [hkmalloc]; decide),
    if_neg (by rw [hevicting]; decide), hprepare]
  dsimp only
  rw [hcur]

theorem exists_cursor (h : a.Ok) :
    ∃ cur, resFirst (if a.pagesAddr.isSome then none else a.res) a.offset
      (a.numPages * gpuPageSize) = some cur ∧
      (∀ p, a.pagesAddr = some p → Flat cur a.offset a.numPages) ∧
      ∀ res, a.pagesAddr = none → a.res = some res →
        OnBlocks res.blocks cur a.offset a.numPages := by
  cases hpages : a.pagesAddr with
  | some p =>
    exact ⟨_, rfl, fun _ _ => ⟨rfl, fun _ => rfl, fun _ => rfl⟩, fun _ hnone => by cases hnone⟩
  | none =>
    rcases h.store with hsome | ⟨res, hres, hfits⟩
    · rw [hpages] at hsome
      cases hsome
    · obtain ⟨cur, hcur, hat⟩ := resFirst_vram (Nat.succ_pos _) h.offset_dvd hfits
      rw [hres]
      refine ⟨cur, hcur, ?_, ?_⟩
      · intro p hsome
        cases hsome
      · intro res' _ heq
        obtain rfl := some.inj heq
        exact hat

theorem loop_right (h : a.Ok) (hplain : a.Plain)
    (hcur : resFirst (if a.pagesAddr.isSome then none else a.res) a.offset
      (a.numPages * gpuPageSize) = some cur) :
    LoopRight a ptes 0 a.start a.offset a.numPages
      (updateLoop a ptes a.numPages 0 cur a.start) := by
  obtain ⟨cur', hcur', hflat, hblocks⟩ := exists_cursor h
  obtain rfl := some.inj (hcur.symm.trans hcur')
  cases hpages : a.pagesAddr with
  | some p =>
    obtain ⟨haligned, htail⟩ := hplain p hpages
    exact updateLoop_right (I := OnPages a p) (fun h => h.flat.remaining)
      (fun h hn => piece_pages hpages h hn)
      ⟨hflat p hpages, h.offset_dvd, fun _ => haligned, htail⟩ (le_refl _)
  | none =>
    rcases h.store with hsome | ⟨res, hres, -⟩
    · rw [hpages] at hsome
      cases hsome
    · exact updateLoop_right (I := OnBlocks res.blocks) (fun h => h.at_pos.remaining_eq)
        (fun h hn => piece_vram hpages hres h hn) (hblocks res hpages hres) (le_refl _)

theorem Args.numPages_end (h : a.Ok) : a.start + a.numPages = a.last + 1 := by
  rw [Args.numPages, ← add_assoc, Nat.add_sub_cancel' h.start_le]

theorem runRight_of_not_enters (h : a.Ok) (hne : ¬ f.Enters)
    (hkmalloc : f.devEnter = true → f.kmalloc = true) :
    RunRight f ptes a (updateRange dev f ptes a) := by
  have hnone : ∀ r : Run, (∃ e, r.ending = .returned e) → r.LockRight → r.calls = [] →
      RunRight f ptes a r := by
    intro r hreturned hlock hcalls
    refine ⟨hreturned, hlock, ⟨a.start, ?_, Nat.le_succ_of_le h.start_le, fun henters => ?_⟩, ?_⟩
    · rw [hcalls]
      rfl
    · exact absurd henters hne
    · rw [hcalls]
      exact fun _ c hc => absurd hc not_mem_nil
  unfold updateRange
  cases henter : f.devEnter with
  | false => exact hnone _ ⟨_, rfl⟩ rfl rfl
  | true =>
    rw [hkmalloc henter]
    cases hevicting : f.evicting with
    | true => exact hnone _ ⟨_, rfl⟩ rfl rfl
    | false =>
      cases hprepare : f.prepare with
      | none => exact absurd ⟨henter, hkmalloc henter, hevicting, hprepare⟩ hne
      | some e =>
        have hevents := a.head_events f []
        rw [map_nil, append_nil] at hevents
        refine hnone _ ⟨_, rfl⟩ ?_ ?_
        · show (a.head f ++ exit).foldl lockStep (some false) = some false
          rw [foldl_append, hevents.2]
          rfl
        · show (a.head f ++ exit).filterMap Event.call? = []
          rw [filterMap_append, hevents.1]
          rfl

/-- `amdgpu_vm_update_range` is right, whatever its calls return, exactly where the device is gone,
or there is memory and it does not get to the loop or the pages are right for it. -/
theorem update_range_right_iff (dev : Device) (f : Found) (h : a.Ok) :
    (∀ ptes, RunRight f ptes a (updateRange dev f ptes a)) ↔
      (f.devEnter = true → f.kmalloc = true ∧
        (f.evicting = false → f.prepare = none → a.Plain)) := by
  constructor
  · intro hright henter
    cases hkmalloc : f.kmalloc with
    | false =>
      have hlock := (hright fun _ => none).lock
      unfold updateRange at hlock
      rw [henter, hkmalloc] at hlock
      cases hlock
    | true =>
      refine ⟨rfl, fun hevicting hprepare p hpages => ?_⟩
      have henters : f.Enters := ⟨henter, hkmalloc, hevicting, hprepare⟩
      obtain ⟨cur, hcur, hflat, -⟩ := exists_cursor h
      have hflat := hflat p hpages
      have hrun := hright fun _ => none
      rw [updateRange_enters henters hcur] at hrun
      have hcalls := @afterLoop_calls dev f a (a.head f ++
        (updateLoop a (fun _ => none) a.numPages 0 cur a.start).1.map Event.ptesUpdate)
        (updateLoop a (fun _ => none) a.numPages 0 cur a.start).2
      rw [(a.head_events f _).1] at hcalls
      constructor
      · intro hmap
        by_contra hpos
        obtain ⟨c, hc, -, hstop, hne⟩ := @updateLoop_misaligned a a.numPages a.offset a.start
          a.numPages 0 cur p hpages hflat (Nat.succ_pos _) hpos (le_refl _)
        exact hne (hrun.resolves hmap c (by rw [hcalls]; exact hc) c.start (le_refl _) hstop)
      · intro htail
        have hbug := @updateLoop_tail a a.numPages a.offset a.start a.numPages 0 cur p hpages hflat
          htail (le_refl _)
        obtain ⟨e, he⟩ := hrun.returned
        rw [hbug] at he
        cases he
  · intro hcond ptes
    by_cases henters : f.Enters
    · obtain ⟨cur, hcur, -, -⟩ := exists_cursor h
      have hplain := (hcond henters.devEnter).2 henters.evicting henters.prepare
      have hloop := @loop_right ptes a cur h hplain hcur
      rw [updateRange_enters henters hcur]
      obtain ⟨hcalls, hlock⟩ := a.head_events f (updateLoop a ptes a.numPages 0 cur a.start).1
      obtain ⟨hlock', hreturned⟩ := @afterLoop_right dev f a _ hlock _ hloop.ended
      rw [← @afterLoop_calls dev f a _ (updateLoop a ptes a.numPages 0 cur a.start).2] at hcalls
      obtain ⟨stop, hcons, hle, hall⟩ := hloop.calls
      rw [a.numPages_end h] at hle hall
      refine ⟨hreturned, hlock', ⟨stop, ?_, hle, fun _ hnone => hall fun i hi => ?_⟩, ?_⟩
      · rwa [hcalls]
      · rw [hcalls] at hnone
        rw [zero_add]
        exact hnone i hi
      · rw [hcalls]
        exact hloop.resolves
    · exact runRight_of_not_enters h henters fun henter => (hcond henter).1

end

def exPages : DmaPages :=
  { pageShift := 16
    addr := fun pfn => if pfn = 0 then 0x10000 else if pfn = 1 then 0x20000 else 0
    pageShift_ge := by decide
    pageShift_lt := by decide
    addr_lt := fun pfn => by
      split_ifs <;> decide
    aligned := fun pfn => by
      split_ifs <;> decide }

def exArgs (offset numPages : Nat) : Args :=
  { unlocked := false
    flushTlb := false
    start := 0
    last := numPages - 1
    flags := pteValid
    offset := offset
    vramBase := 0
    res := none
    pagesAddr := some exPages }

/-- Two blocks of VRAM, the second one below the first. -/
def exVram : VramResource :=
  { size := 0x20000
    blocks := [⟨0x40000, 0x10000⟩, ⟨0x10000, 0x10000⟩]
    size_le := by decide
    block_pos := by decide
    aligned := by decide }

def exVramArgs : Args := { exArgs 0 32 with res := some exVram, pagesAddr := none }

def exFound (kmalloc : Bool) : Found :=
  { devEnter := true
    kmalloc := kmalloc
    evicting := false
    lastUnlockedSignaled := true
    prepare := none
    commit := none
    tableFreed := false
    callbackAdded := true }

def exDevice : Device := { numPhysicalNodes := 0, gcVersion := CuMask.ipVersion 11 0 0 }

/-- Two whole CPU pages are updated by one call, and two blocks of VRAM by two. -/
theorem update_range_right_pages :
    RunRight (exFound true) (fun _ => none) (exArgs 0 32)
      (updateRange exDevice (exFound true) (fun _ => none) (exArgs 0 32)) ∧
    RunRight (exFound true) (fun _ => none) exVramArgs
      (updateRange exDevice (exFound true) (fun _ => none) exVramArgs) := by
  constructor
  · have hok : (exArgs 0 32).Ok := ⟨by decide, by decide, .inl rfl⟩
    refine (update_range_right_iff exDevice (exFound true) hok).mpr
      (fun _ => ⟨rfl, fun _ _ p hp => ?_⟩) fun _ => none
    obtain rfl := some.inj hp
    exact ⟨fun _ => by decide, fun htail => htail.1 (by decide)⟩
  · have hok : exVramArgs.Ok := ⟨by decide, by decide, .inr ⟨exVram, rfl, by decide⟩⟩
    exact (update_range_right_iff exDevice (exFound true) hok).mpr
      (fun _ => ⟨rfl, fun _ _ p hp => nomatch hp⟩) fun _ => none

/-- Without memory the lock is released that was not taken; a GPU page inside of a CPU page gets the
address of the first one; and a call goes past the last page. -/
theorem update_range_wrong :
    ¬ RunRight (exFound false) (fun _ => none) (exArgs 0 32)
      (updateRange exDevice (exFound false) (fun _ => none) (exArgs 0 32)) ∧
    ¬ RunRight (exFound true) (fun _ => none) (exArgs 0x1000 1)
      (updateRange exDevice (exFound true) (fun _ => none) (exArgs 0x1000 1)) ∧
    ¬ RunRight (exFound true) (fun _ => none) (exArgs 0 17)
      (updateRange exDevice (exFound true) (fun _ => none) (exArgs 0 17)) := by
  refine ⟨fun h => ?_, fun h => ?_, fun h => ?_⟩
  · have hlock := h.lock
    cases hlock
  · have hsame := h.resolves rfl ⟨0, 1, 0x10000, none⟩ (mem_singleton_self _) 0 (le_refl 0)
      Nat.zero_lt_one
    have haddr := some.inj hsame
    revert haddr
    decide
  · obtain ⟨e, he⟩ := h.returned
    cases he

end Amdkfd.VmUpdate
