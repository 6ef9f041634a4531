import Amdkfd.Basic
import Amdkfd.Lib.Run
import Amdkfd.Lib.Ring

/-!
# The kernel queue ring

`kq_acquire_packet_buffer`, `kq_submit_packet` and `kq_rollback_packet` of
`kfd_kernel_queue.c`. The driver takes space for one packet, fills it and
publishes it by writing the write pointer, or takes the space back. The GPU
reads dwords up to the published write pointer.

Two layers. `System` is the code: a ring of `2 ^ sizeLog` dwords, a pending
write pointer (and a 64-bit one when doorbells have eight bytes), a published
write pointer and the GPU's read pointer, all of them indices. `Fifo` says what
the ring is for: a queue of unread dwords between two positions that only grow.
-/

namespace Amdkfd.KernelQueueRing

open Lib List Option

/-! ## Model -/

/-- `struct kernel_queue`, with the memory its pointers name. The queue size is
`4 * 2 ^ sizeLog` bytes and fits an `unsigned int`. `wptr_kernel` and
`wptr64_kernel` are the same memory, `wptrMem`. -/
structure KernelQueue where
  sizeLog : Fin 30
  doorbell8 : Bool
  nopPacket : UInt32
  pendingWptr : Nat
  pendingWptr64 : Nat
  wptrMem : Nat
  doorbell : Nat
  rptrKernel : Nat
  pq : Nat → UInt32

/-- `kq->queue->properties.queue_size / 4`. -/
def KernelQueue.queueSizeDwords (kq : KernelQueue) : Nat :=
  2 ^ kq.sizeLog.val

/-- `*kq->wptr_kernel`: the low 32 bits of the write pointer's memory. -/
def KernelQueue.wptrKernel (kq : KernelQueue) : Nat :=
  kq.wptrMem % 2 ^ 32

def kqInitialize (sizeLog : Fin 30) (doorbell8 : Bool) (nopPacket : UInt32) : KernelQueue :=
  { sizeLog := sizeLog
    doorbell8 := doorbell8
    nopPacket := nopPacket
    pendingWptr := 0
    pendingWptr64 := 0
    wptrMem := 0
    doorbell := 0
    rptrKernel := 0
    pq := fun _ => 0 }

/-- The loop `while (wptr > 0)` that fills the end of the ring with NOPs. -/
def fillNops (sizeLog : Nat) (nopPacket : UInt32) (pq : Nat → UInt32) (wptr wptr64 : Nat) :
    (Nat → UInt32) × Nat × Nat :=
  if 0 < wptr then
    fillNops sizeLog nopPacket (Function.update pq wptr nopPacket) ((wptr + 1) % 2 ^ sizeLog)
      ((wptr64 + 1) % 2 ^ 64)
  else (pq, wptr, wptr64)
termination_by if wptr = 0 then 0 else if wptr < 2 ^ sizeLog then 2 ^ sizeLog - wptr
  else 2 ^ sizeLog + 1
decreasing_by
  have hq : 0 < 2 ^ sizeLog := Nat.two_pow_pos sizeLog
  have hlt := Nat.mod_lt (wptr + 1) hq
  rcases lt_or_ge (wptr + 1) (2 ^ sizeLog) with h | h
  · rw [Nat.mod_eq_of_lt h]
    split_ifs <;> omega
  · rcases eq_or_lt_of_le h with h | h
    · rw [← h, Nat.mod_self]
      split_ifs <;> omega
    · split_ifs <;> omega

/-- `kq_acquire_packet_buffer`: the index of the packet's first dword, or `none`
when there is no space. -/
def kqAcquirePacketBuffer (kq : KernelQueue) (packetSize : Nat) : KernelQueue × Option Nat :=
  let rptr := kq.rptrKernel
  let wptr := kq.pendingWptr
  let wptr64 := kq.pendingWptr64
  let availableSize := (rptr + kq.queueSizeDwords - 1 - wptr) % kq.queueSizeDwords
  if availableSize < packetSize then (kq, none)
  else if kq.queueSizeDwords ≤ wptr + packetSize then
    -- after rolling back to position 0 there must still be enough space
    if rptr ≤ packetSize then (kq, none)
    else
      let (pq, wptr, wptr64) := fillNops kq.sizeLog kq.nopPacket kq.pq wptr wptr64
      ({ kq with pq := pq, pendingWptr := wptr + packetSize,
                 pendingWptr64 := (wptr64 + packetSize) % 2 ^ 64 }, some wptr)
  else
    ({ kq with pendingWptr := wptr + packetSize,
               pendingWptr64 := (wptr64 + packetSize) % 2 ^ 64 }, some wptr)

def kqSubmitPacket (kq : KernelQueue) : KernelQueue :=
  if kq.doorbell8 then
    { kq with wptrMem := kq.pendingWptr64, doorbell := kq.pendingWptr64 }
  else
    { kq with wptrMem := kq.pendingWptr, doorbell := kq.pendingWptr }

def kqRollbackPacket (kq : KernelQueue) : KernelQueue :=
  if kq.doorbell8 then
    { kq with pendingWptr64 := kq.wptrMem, pendingWptr := kq.wptrKernel % kq.queueSizeDwords }
  else
    { kq with pendingWptr := kq.wptrKernel }

def KernelQueue.publishedWptr (kq : KernelQueue) : Nat :=
  if kq.doorbell8 then kq.wptrMem % kq.queueSizeDwords else kq.wptrMem

def KernelQueue.unread (kq : KernelQueue) : Nat :=
  (kq.publishedWptr + kq.queueSizeDwords - kq.rptrKernel) % kq.queueSizeDwords

/-- The `n` dwords from the read pointer on, in ring order. -/
def KernelQueue.window (kq : KernelQueue) (n : Nat) : List UInt32 :=
  ringWindow kq.queueSizeDwords kq.pq kq.rptrKernel n

/-- Space the driver has acquired and neither submitted nor rolled back, with
the packet it was last filled with. -/
structure Held where
  buffer : Nat
  size : Nat
  data : Option (List UInt32)
  deriving DecidableEq, Repr

/-- The queue, the packet under construction, the dwords the GPU has read and
the packets that were submitted. Callers hold `pm->lock` from an acquire to the
submit or the rollback that ends it, so at most one packet is held. -/
structure System where
  kq : KernelQueue
  held : Option Held
  gpuRead : List UInt32
  submitted : List (List UInt32)

/-- A step of the driver, or of the GPU, which reads `n` dwords. -/
inductive Op
  | acquire (packetSize : Nat)
  | fill (data : List UInt32)
  | submit
  | rollback
  | gpuAdvance (n : Nat)
  deriving DecidableEq, Repr

/-- Steps that the protocol does not allow in a state leave it unchanged: a
second acquire, a fill of the wrong length, a submit of a packet that was not
filled, a read past the published write pointer. -/
def step (s : System) : Op → System
  | .acquire n =>
    match s.held with
    | some _ => s
    | none =>
      match kqAcquirePacketBuffer s.kq n with
      | (kq, some buffer) => { s with kq := kq, held := some ⟨buffer, n, none⟩ }
      | (kq, none) => { s with kq := kq }
  | .fill data =>
    match s.held with
    | some h =>
      if data.length = h.size then
        { s with kq := { s.kq with pq := ringWrite s.kq.pq h.buffer data },
                 held := some { h with data := some data } }
      else s
    | none => s
  | .submit =>
    match s.held with
    | some ⟨_, _, some data⟩ =>
      { s with kq := kqSubmitPacket s.kq, held := none, submitted := s.submitted ++ [data] }
    | _ => s
  | .rollback =>
    match s.held with
    | some _ => { s with kq := kqRollbackPacket s.kq, held := none }
    | none => s
  | .gpuAdvance n =>
    if n ≤ s.kq.unread then
      { s with kq := { s.kq with rptrKernel := (s.kq.rptrKernel + n) % s.kq.queueSizeDwords },
               gpuRead := s.gpuRead ++ s.kq.window n }
    else s

/-- The ring indices that a step writes. -/
def Writes (s : System) (op : Op) (i : Nat) : Prop :=
  match op with
  | .acquire n =>
    s.held = none ∧ (kqAcquirePacketBuffer s.kq n).2.isSome ∧
      s.kq.queueSizeDwords ≤ s.kq.pendingWptr + n ∧
      s.kq.pendingWptr ≤ i ∧ i < s.kq.queueSizeDwords
  | .fill data => ∃ h, s.held = some h ∧ data.length = h.size ∧
      h.buffer ≤ i ∧ i < h.buffer + data.length
  | _ => False

/-- The state before the first packet. -/
def init (sizeLog : Fin 30) (doorbell8 : Bool) (nopPacket : UInt32) : System :=
  { kq := kqInitialize sizeLog doorbell8 nopPacket
    held := none
    gpuRead := []
    submitted := [] }

/-! ## The abstract queue -/

/-- A packet under construction: `pad` NOPs to the end of the ring, then `size`
dwords. -/
structure FifoHeld where
  pad : Nat
  size : Nat
  data : Option (List UInt32)
  deriving DecidableEq, Repr

/-- What the ring is for: dwords written up to position `wpos` and read up to
position `rpos`. -/
structure Fifo where
  rpos : Nat
  wpos : Nat
  unread : List UInt32
  held : Option FifoHeld
  gpuRead : List UInt32
  submitted : List (List UInt32)
  deriving DecidableEq, Repr

namespace Fifo

/-- The position behind the packet under construction. -/
def pendingPos (f : Fifo) : Nat :=
  match f.held with
  | some h => f.wpos + h.pad + h.size
  | none => f.wpos

/-- The dwords from `rpos` on: unread ones, padding, and the packet under
construction once it is filled. -/
def content (nop : UInt32) (f : Fifo) : List UInt32 :=
  match f.held with
  | some h => f.unread ++ replicate h.pad nop ++ h.data.getD []
  | none => f.unread

/-- The padding that a packet of `n` dwords needs in a queue of `q` dwords that
keeps one dword empty, when there is space for both. -/
def place (q : Nat) (f : Fifo) (n : Nat) : Option Nat :=
  if q - 1 - (f.wpos - f.rpos) < n then none
  else if q ≤ f.wpos % q + n then
    if f.rpos % q ≤ n then none else some (q - f.wpos % q)
  else some 0

def step (q : Nat) (nop : UInt32) (f : Fifo) : Op → Fifo
  | .acquire n =>
    match f.held, f.place q n with
    | none, some pad => { f with held := some ⟨pad, n, none⟩ }
    | _, _ => f
  | .fill data =>
    match f.held with
    | some h => if data.length = h.size then { f with held := some { h with data := some data } }
      else f
    | none => f
  | .submit =>
    match f.held with
    | some ⟨pad, size, some data⟩ =>
      { f with wpos := f.wpos + pad + size,
               unread := f.unread ++ replicate pad nop ++ data,
               held := none,
               submitted := f.submitted ++ [data] }
    | _ => f
  | .rollback => { f with held := none }
  | .gpuAdvance n =>
    if n ≤ f.wpos - f.rpos then
      { f with rpos := f.rpos + n,
               unread := f.unread.drop n,
               gpuRead := f.gpuRead ++ f.unread.take n }
    else f

end Fifo

/-- A stream of packets, each behind any number of NOPs. -/
inductive Padded (nop : UInt32) : List (List UInt32) → List UInt32 → Prop
  | nil : Padded nop [] []
  | snoc {packets stream} (pad : Nat) (packet : List UInt32) :
      Padded nop packets stream →
      Padded nop (packets ++ [packet]) (stream ++ replicate pad nop ++ packet)

namespace Fifo

/-- The invariant of the abstract queue of `q` dwords. -/
structure Inv (q : Nat) (nop : UInt32) (f : Fifo) : Prop where
  rpos_le : f.rpos ≤ f.wpos
  length : f.unread.length = f.wpos - f.rpos
  fits : f.pendingPos - f.rpos + 1 ≤ q
  placed : ∀ h, f.held = some h → (f.wpos + h.pad) % q + h.size < q
  filled : ∀ h data, f.held = some h → h.data = some data → data.length = h.size
  padded : Padded nop f.submitted (f.gpuRead ++ f.unread)

variable {q : Nat} {nop : UInt32} {f : Fifo}

theorem place_spec {n pad : Nat} (hi : f.Inv q nop) (hnone : f.held = none)
    (h : f.place q n = some pad) :
    f.wpos + pad + n - f.rpos + 1 ≤ q ∧ (f.wpos + pad) % q + n < q ∧
      (pad = 0 ∨ 0 < f.wpos % q ∧ pad = q - f.wpos % q ∧ q ≤ f.wpos % q + n) := by
  have hle := hi.rpos_le
  have hfits := hi.fits
  have hpos : f.pendingPos = f.wpos := by simp [pendingPos, hnone]
  have hq : 0 < q := by omega
  have hw := Nat.mod_lt f.wpos hq
  have hr := Nat.mod_lt f.rpos hq
  have hdist := slot_dist (q := q) hle (by omega)
  unfold place at h
  split at h
  · cases h
  · next hspace =>
    split at h
    · next hwrap =>
      split at h
      · cases h
      · next hn =>
        obtain rfl := some.inj h
        have hzero : (f.wpos + (q - f.wpos % q)) % q = 0 := by
          rw [← Nat.mod_add_mod, Nat.add_sub_cancel' hw.le, Nat.mod_self]
        rw [hzero]
        -- the write slot is not behind the read slot, or the packet would not fit
        have hord : f.rpos % q ≤ f.wpos % q := by
          by_contra hlt
          rw [Nat.mod_eq_of_lt (by omega)] at hdist
          omega
        rw [show f.wpos % q + q - f.rpos % q = f.wpos % q - f.rpos % q + q by omega,
          Nat.add_mod_right, Nat.mod_eq_of_lt (by omega)] at hdist
        omega
    · next hwrap =>
      obtain rfl := some.inj h
      refine ⟨by omega, ?_, .inl rfl⟩
      rw [add_zero]
      omega

theorem exists_place {n : Nat} (hfree : f.wpos - f.rpos + n < q)
    (hplace : f.wpos % q + n < q ∨ n < f.rpos % q) : ∃ pad, f.place q n = some pad := by
  unfold place
  rw [if_neg (by omega)]
  split
  · next hwrap =>
    rw [if_neg (by omega)]
    exact ⟨_, rfl⟩
  · exact ⟨_, rfl⟩

theorem step_inv (op : Op) (hi : f.Inv q nop) : (f.step q nop op).Inv q nop := by
  have hle := hi.rpos_le
  have hlen := hi.length
  have hfits := hi.fits
  cases op with
  | acquire n =>
    simp only [step]
    split
    · next pad hnone hplace =>
      obtain ⟨h1, h2, -⟩ := place_spec hi hnone hplace
      refine ⟨hle, hlen, ?_, ?_, ?_, hi.padded⟩
      · simpa [pendingPos] using h1
      · rintro h ⟨⟩
        exact h2
      · rintro h data ⟨⟩ ⟨⟩
    · exact hi
  | fill data =>
    simp only [step]
    split
    · next h hh =>
      split
      · next hsize =>
        refine ⟨hle, hlen, ?_, ?_, ?_, hi.padded⟩
        · simpa [pendingPos, hh] using hfits
        · rintro h' ⟨⟩
          exact hi.placed h hh
        · rintro h' data' ⟨⟩ ⟨⟩
          exact hsize
      · exact hi
    · exact hi
  | submit =>
    simp only [step]
    split
    · next pad size data hh =>
      have hsize := hi.filled _ _ hh rfl
      simp only [pendingPos, hh] at hfits
      simp only at hsize
      refine ⟨by simp only; omega, ?_, by simpa [pendingPos] using hfits, by simp, by simp, ?_⟩
      · simp only [length_append, length_replicate, hlen, hsize]
        omega
      · have := Padded.snoc pad data hi.padded
        simpa only [append_assoc] using this
    · exact hi
  | rollback =>
    refine ⟨hle, hlen, ?_, by simp [step], by simp [step], hi.padded⟩
    simp only [step, pendingPos] at hfits ⊢
    split at hfits <;> omega
  | gpuAdvance n =>
    simp only [step]
    split
    · next hn =>
      refine ⟨by simp only; omega, ?_, ?_, hi.placed, hi.filled, ?_⟩
      · simp only [length_drop, hlen]
        omega
      · simp only [pendingPos] at hfits ⊢
        omega
      · simpa only [append_assoc, take_append_drop] using hi.padded
    · exact hi

end Fifo

/-! ## Refinement -/

theorem fillNops_eq (sizeLog : Nat) (nop : UInt32) (pq : Nat → UInt32) {wptr : Nat}
    (wptr64 : Nat) (h0 : 0 < wptr) (hlt : wptr < 2 ^ sizeLog) :
    fillNops sizeLog nop pq wptr wptr64 =
      (ringWrite pq wptr (replicate (2 ^ sizeLog - wptr) nop), 0,
        (wptr64 + (2 ^ sizeLog - wptr)) % 2 ^ 64) := by
  induction hd : 2 ^ sizeLog - wptr generalizing pq wptr wptr64 with
  | zero => omega
  | succ d ih =>
    rw [fillNops, if_pos h0]
    cases d with
    | zero =>
      rw [show wptr + 1 = 2 ^ sizeLog by omega, Nat.mod_self, fillNops, if_neg (by omega)]
      refine Prod.ext (funext fun i => ?_) rfl
      simp only [ringWrite_replicate, Function.update_apply]
      exact ite_congr (propext (by omega)) (fun _ => rfl) fun _ => rfl
    | succ d =>
      rw [Nat.mod_eq_of_lt (a := wptr + 1) (by omega), ih _ _ (by omega) (by omega) (by omega),
        Nat.mod_add_mod, show wptr64 + 1 + (d + 1) = wptr64 + (d + 1 + 1) by omega]
      refine Prod.ext (funext fun i => ?_) rfl
      simp only [ringWrite_replicate, Function.update_apply, ← ite_or]
      exact ite_congr (propext (by omega)) (fun _ => rfl) fun _ => rfl

/-- The code's state stands for the abstract queue. -/
structure Refines (sizeLog : Fin 30) (doorbell8 : Bool) (nop : UInt32) (s : System) (f : Fifo) :
    Prop where
  sizeLog_eq : s.kq.sizeLog = sizeLog
  doorbell8_eq : s.kq.doorbell8 = doorbell8
  nop_eq : s.kq.nopPacket = nop
  rptr : s.kq.rptrKernel = f.rpos % 2 ^ sizeLog.val
  pending : s.kq.pendingWptr = f.pendingPos % 2 ^ sizeLog.val
  pending64 : doorbell8 = true → s.kq.pendingWptr64 = f.pendingPos % 2 ^ 64
  wptrMem : s.kq.wptrMem = if doorbell8 then f.wpos % 2 ^ 64 else f.wpos % 2 ^ sizeLog.val
  doorbell : s.kq.doorbell = s.kq.wptrMem
  content : ringWindow (2 ^ sizeLog.val) s.kq.pq f.rpos (f.content nop).length = f.content nop
  held : s.held = f.held.map fun h => ⟨(f.wpos + h.pad) % 2 ^ sizeLog.val, h.size, h.data⟩
  gpuRead : s.gpuRead = f.gpuRead
  submitted : s.submitted = f.submitted

section Refinement
variable {sizeLog : Fin 30} {doorbell8 : Bool} {nop : UInt32} {s : System} {f : Fifo}

theorem size_dvd_two_pow (sizeLog : Fin 30) {k : Nat} (hk : 30 ≤ k) : 2 ^ sizeLog.val ∣ 2 ^ k :=
  Nat.pow_dvd_pow 2 (by have := sizeLog.isLt; omega)

theorem size_lt_two_pow (sizeLog : Fin 30) : 2 ^ sizeLog.val < 2 ^ 32 :=
  Nat.pow_lt_pow_right (by omega) (by have := sizeLog.isLt; omega)

section
variable (hr : Refines sizeLog doorbell8 nop s f)
include hr

theorem Refines.size : s.kq.queueSizeDwords = 2 ^ sizeLog.val := by
  rw [KernelQueue.queueSizeDwords, hr.sizeLog_eq]

theorem Refines.publishedWptr : s.kq.publishedWptr = f.wpos % 2 ^ sizeLog.val := by
  rw [KernelQueue.publishedWptr, hr.size, hr.doorbell8_eq, hr.wptrMem]
  cases doorbell8
  · rfl
  · exact Nat.mod_mod_of_dvd _ (size_dvd_two_pow sizeLog (by omega))

theorem Refines.unread (hi : f.Inv (2 ^ sizeLog.val) nop) : s.kq.unread = f.wpos - f.rpos := by
  have hfits := hi.fits
  have hpend : f.wpos ≤ f.pendingPos := by
    unfold Fifo.pendingPos
    split <;> omega
  rw [KernelQueue.unread, hr.publishedWptr, hr.size, hr.rptr]
  exact slot_dist hi.rpos_le (by omega)

theorem Refines.window {n : Nat} (hn : n ≤ f.unread.length) : s.kq.window n = f.unread.take n := by
  rw [KernelQueue.window, hr.size, hr.rptr, ringWindow_mod,
    ← ringWindow_take (m := (f.content nop).length), hr.content]
  all_goals
    unfold Fifo.content
    split
  · rw [append_assoc, take_append_of_le_length hn]
  · rfl
  · simp only [length_append]
    omega
  · exact hn

theorem Refines.acquire (hi : f.Inv (2 ^ sizeLog.val) nop) (hnone : f.held = none) (n : Nat) :
    kqAcquirePacketBuffer s.kq n =
      match f.place (2 ^ sizeLog.val) n with
      | none => (s.kq, none)
      | some pad =>
        ({ s.kq with
            pq := ringWrite s.kq.pq (f.wpos % 2 ^ sizeLog.val) (replicate pad nop),
            pendingWptr := (f.wpos + pad + n) % 2 ^ sizeLog.val,
            pendingWptr64 := (s.kq.pendingWptr64 + pad + n) % 2 ^ 64 },
          some ((f.wpos + pad) % 2 ^ sizeLog.val)) := by
  have hfits := hi.fits
  have hpos : f.pendingPos = f.wpos := by simp [Fifo.pendingPos, hnone]
  have hfree := slot_free hi.rpos_le (by omega : f.wpos < f.rpos + 2 ^ sizeLog.val)
  have hw := Nat.mod_lt f.wpos (Nat.two_pow_pos sizeLog.val)
  have hplace := fun pad => @Fifo.place_spec _ _ _ n pad hi hnone
  unfold kqAcquirePacketBuffer
  unfold Fifo.place at hplace ⊢
  simp only [hr.size, hr.rptr, hr.pending, hpos, hr.sizeLog_eq, hr.nop_eq, hfree]
  split
  · rfl
  · next hspace =>
    rw [if_neg hspace] at hplace
    split
    · next hwrap =>
      rw [if_pos hwrap] at hplace
      split
      · rfl
      · next hn =>
        rw [if_neg hn] at hplace
        obtain ⟨-, -, h | ⟨h0, -, -⟩⟩ := hplace _ rfl
        · omega
        · have hzero : (f.wpos + (2 ^ sizeLog.val - f.wpos % 2 ^ sizeLog.val)) % 2 ^ sizeLog.val
              = 0 := by
            rw [← Nat.mod_add_mod, Nat.add_sub_cancel' hw.le, Nat.mod_self]
          simp only [fillNops_eq _ _ _ _ h0 hw, hzero, Nat.mod_add_mod]
          rw [← Nat.mod_add_mod (f.wpos + _), hzero, zero_add,
            Nat.mod_eq_of_lt (by omega : n < 2 ^ sizeLog.val)]
    · next hwrap =>
      have hsame : ringWrite s.kq.pq (f.wpos % 2 ^ sizeLog.val) [] = s.kq.pq := by
        funext i
        simp [ringWrite]
      simp only [replicate_zero, hsame, add_zero]
      rw [← Nat.mod_add_mod f.wpos, Nat.mod_eq_of_lt (by omega : f.wpos % 2 ^ sizeLog.val + n < _)]

end

theorem Refines.step_acquire (n : Nat) (hr : Refines sizeLog doorbell8 nop s f)
    (hi : f.Inv (2 ^ sizeLog.val) nop) :
    Refines sizeLog doorbell8 nop (step s (.acquire n))
      (f.step (2 ^ sizeLog.val) nop (.acquire n)) := by
  have hheld := hr.held
  simp only [step, Fifo.step]
  cases hnone : f.held with
  | some h =>
    rw [hnone] at hheld
    rw [hheld]
    exact hr
  | none =>
    rw [hnone] at hheld
    rw [hheld]
    have hpos : f.pendingPos = f.wpos := by simp [Fifo.pendingPos, hnone]
    simp only [map_none, hr.acquire hi hnone n]
    cases hplace : f.place (2 ^ sizeLog.val) n with
    | none => exact { hr with held := by simp [hnone] }
    | some pad =>
      obtain ⟨h1, -, h3⟩ := Fifo.place_spec hi hnone hplace
      have hle := hi.rpos_le
      have hlen := hi.length
      refine { hr with
        pending := by simp [Fifo.pendingPos]
        pending64 := fun h8 => ?_
        content := ?_
        held := by simp }
      · show (s.kq.pendingWptr64 + pad + n) % 2 ^ 64 = (f.wpos + pad + n) % 2 ^ 64
        rw [hr.pending64 h8, hpos, add_assoc, Nat.mod_add_mod, ← add_assoc]
      · have hcontent := hr.content
        rw [show f.content nop = f.unread by simp [Fifo.content, hnone]] at hcontent
        have hfit : (f.rpos + f.unread.length) % 2 ^ sizeLog.val +
            (replicate pad nop).length ≤ 2 ^ sizeLog.val := by
          have := Nat.mod_lt f.wpos (Nat.two_pow_pos sizeLog.val)
          rw [length_replicate, hlen, Nat.add_sub_cancel' hle]
          omega
        have := ringWindow_write hcontent le_rfl hfit (by simp; omega)
        rw [hlen, Nat.add_sub_cancel' hle, ← hlen, take_length] at this
        simpa [Fifo.content] using this

theorem Refines.step_fill (data : List UInt32) (hr : Refines sizeLog doorbell8 nop s f)
    (hi : f.Inv (2 ^ sizeLog.val) nop) :
    Refines sizeLog doorbell8 nop (step s (.fill data))
      (f.step (2 ^ sizeLog.val) nop (.fill data)) := by
  have hheld := hr.held
  simp only [step, Fifo.step]
  cases hh : f.held with
  | none =>
    rw [hh] at hheld
    rw [hheld]
    exact hr
  | some h =>
    rw [hh] at hheld
    rw [hheld]
    simp only [map_some]
    split
    · next hsize =>
      have hle := hi.rpos_le
      have hlen := hi.length
      have hfits := hi.fits
      have hplaced := hi.placed h hh
      have hcontent := hr.content
      have hpend : f.pendingPos = f.wpos + h.pad + h.size := by simp [Fifo.pendingPos, hh]
      have hbase : f.wpos + h.pad = f.rpos + (f.unread.length + h.pad) := by omega
      refine { hr with
        pending := by rw [hr.pending]; simp [Fifo.pendingPos, hh]
        pending64 := fun h8 => by rw [hr.pending64 h8]; simp [Fifo.pendingPos, hh]
        content := ?_
        held := by simp }
      rw [show f.content nop = f.unread ++ replicate h.pad nop ++ h.data.getD [] by
        simp [Fifo.content, hh]] at hcontent
      rw [hbase] at hplaced ⊢
      rw [← hsize] at hplaced
      have := ringWindow_write hcontent (by simp) hplaced.le (by omega)
      rw [take_append_of_le_length (by simp), take_of_length_le (by simp)] at this
      simpa [Fifo.content, add_assoc] using this
    · exact { hr with held := by simpa [hh] using hheld }

theorem Refines.step_submit (hr : Refines sizeLog doorbell8 nop s f) :
    Refines sizeLog doorbell8 nop (step s .submit) (f.step (2 ^ sizeLog.val) nop .submit) := by
  have hheld := hr.held
  simp only [step, Fifo.step]
  cases hh : f.held with
  | none =>
    rw [hh] at hheld
    rw [hheld]
    exact hr
  | some h =>
    obtain ⟨pad, size, data⟩ := h
    rw [hh] at hheld
    rw [hheld]
    cases data with
    | none => exact { hr with held := by simpa [hh] using hheld }
    | some data =>
      have hpend : f.pendingPos = f.wpos + pad + size := by simp [Fifo.pendingPos, hh]
      have hcontent : f.content nop = f.unread ++ replicate pad nop ++ data := by
        simp [Fifo.content, hh]
      have hpending := hr.pending
      have hpending64 := hr.pending64
      rw [hpend] at hpending hpending64
      cases doorbell8 with
      | false =>
        simp only [map_some, kqSubmitPacket, hr.doorbell8_eq, Bool.false_eq_true, if_false]
        exact { hr with
          doorbell8_eq := rfl
          pending := hpending
          pending64 := fun h8 => nomatch h8
          wptrMem := hpending
          doorbell := rfl
          content := hcontent ▸ hr.content
          held := rfl
          submitted := by simp [hr.submitted] }
      | true =>
        simp only [map_some, kqSubmitPacket, hr.doorbell8_eq, if_true]
        exact { hr with
          doorbell8_eq := rfl
          pending := hpending
          pending64 := hpending64
          wptrMem := hpending64 rfl
          doorbell := rfl
          content := hcontent ▸ hr.content
          held := rfl
          submitted := by simp [hr.submitted] }

theorem Refines.step_rollback (hr : Refines sizeLog doorbell8 nop s f) :
    Refines sizeLog doorbell8 nop (step s .rollback) (f.step (2 ^ sizeLog.val) nop .rollback) := by
  have hheld := hr.held
  simp only [step, Fifo.step]
  cases hh : f.held with
  | none =>
    rw [hh] at hheld
    rw [hheld, show ({ f with held := none } : Fifo) = f by rw [← hh]]
    exact hr
  | some h =>
    rw [hh] at hheld
    rw [hheld]
    have hmem := hr.wptrMem
    have hprefix : (f.content nop).take f.unread.length = f.unread := by
      simp only [Fifo.content, hh, append_assoc, take_left']
    have hunread : ringWindow (2 ^ sizeLog.val) s.kq.pq f.rpos f.unread.length = f.unread := by
      rw [← ringWindow_take (m := (f.content nop).length), hr.content, hprefix]
      simp [Fifo.content, hh]
    cases doorbell8 with
    | false =>
      simp only [map_some, kqRollbackPacket, hr.doorbell8_eq, Bool.false_eq_true, if_false,
        KernelQueue.wptrKernel] at hmem ⊢
      have hlt : f.wpos % 2 ^ sizeLog.val < 2 ^ 32 :=
        (Nat.mod_lt _ (Nat.two_pow_pos _)).trans (size_lt_two_pow sizeLog)
      exact { hr with
        doorbell8_eq := rfl
        pending := by rw [hmem, Nat.mod_eq_of_lt hlt]; rfl
        pending64 := fun h8 => nomatch h8
        content := hunread
        held := rfl }
    | true =>
      simp only [map_some, kqRollbackPacket, hr.doorbell8_eq, if_true,
        KernelQueue.wptrKernel, hr.size] at hmem ⊢
      exact { hr with
        doorbell8_eq := rfl
        pending := by
          rw [hmem, Nat.mod_mod_of_dvd _ (Nat.pow_dvd_pow 2 (by omega)),
            Nat.mod_mod_of_dvd _ (size_dvd_two_pow sizeLog (by omega))]
          rfl
        pending64 := fun _ => hmem
        content := hunread
        held := rfl }

theorem Refines.step_gpuAdvance (n : Nat) (hr : Refines sizeLog doorbell8 nop s f)
    (hi : f.Inv (2 ^ sizeLog.val) nop) :
    Refines sizeLog doorbell8 nop (step s (.gpuAdvance n))
      (f.step (2 ^ sizeLog.val) nop (.gpuAdvance n)) := by
  simp only [step, Fifo.step, hr.unread hi]
  split
  · next hn =>
    have hlen := hi.length
    have hdrop : (f.content nop).drop n =
        Fifo.content nop { f with rpos := f.rpos + n, unread := f.unread.drop n,
                                  gpuRead := f.gpuRead ++ f.unread.take n } := by
      simp only [Fifo.content]
      split
      · rw [append_assoc, append_assoc, drop_append_of_le_length (by omega)]
      · rfl
    refine { hr with
      rptr := ?_
      content := ?_
      gpuRead := ?_ }
    · simp only [hr.rptr, hr.size, Nat.mod_add_mod]
    · rw [← hdrop, length_drop, ← ringWindow_drop, hr.content]
    · rw [hr.gpuRead, hr.window (by omega)]
  · exact hr

theorem step_refines (op : Op) (hr : Refines sizeLog doorbell8 nop s f)
    (hi : f.Inv (2 ^ sizeLog.val) nop) :
    Refines sizeLog doorbell8 nop (step s op) (f.step (2 ^ sizeLog.val) nop op) := by
  cases op with
  | acquire n => exact hr.step_acquire n hi
  | fill data => exact hr.step_fill data hi
  | submit => exact hr.step_submit
  | rollback => exact hr.step_rollback
  | gpuAdvance n => exact hr.step_gpuAdvance n hi

theorem init_refines (sizeLog : Fin 30) (doorbell8 : Bool) (nop : UInt32) :
    Refines sizeLog doorbell8 nop (init sizeLog doorbell8 nop) ⟨0, 0, [], none, [], []⟩ := by
  constructor <;> simp [init, kqInitialize, Fifo.pendingPos, Fifo.content, ringWindow]

theorem Fifo.init_inv (sizeLog : Fin 30) (nop : UInt32) :
    Fifo.Inv (2 ^ sizeLog.val) nop ⟨0, 0, [], none, [], []⟩ :=
  { rpos_le := le_rfl
    length := rfl
    fits := Nat.two_pow_pos _
    placed := fun _ h => nomatch h
    filled := fun _ _ h => nomatch h
    padded := .nil }

section
variable (hr : Refines sizeLog doorbell8 nop s f)
include hr

theorem run_refines (hi : f.Inv (2 ^ sizeLog.val) nop) (ops : List Op) :
    Refines sizeLog doorbell8 nop (run step s ops)
        (run (Fifo.step (2 ^ sizeLog.val) nop) f ops) ∧
      (run (Fifo.step (2 ^ sizeLog.val) nop) f ops).Inv (2 ^ sizeLog.val) nop := by
  induction ops generalizing s f with
  | nil => exact ⟨hr, hi⟩
  | cons op ops ih => exact ih (step_refines op hr hi) (Fifo.step_inv op hi)

theorem Refines.writes_behind (hi : f.Inv (2 ^ sizeLog.val) nop) {op : Op} {i : Nat}
    (hw : Writes s op i) :
    ∃ p, f.wpos ≤ p ∧ p < f.rpos + 2 ^ sizeLog.val ∧ i = p % 2 ^ sizeLog.val := by
  have hle := hi.rpos_le
  have hfits := hi.fits
  cases op with
  | acquire n =>
    obtain ⟨hheld, hsome, hwrap, hge, hlt⟩ := hw
    have hnone : f.held = none := by
      have := hr.held
      rw [hheld] at this
      exact map_eq_none_iff.mp this.symm
    have hpos : f.pendingPos = f.wpos := by simp [Fifo.pendingPos, hnone]
    rw [hr.acquire hi hnone] at hsome
    rw [hr.size, hr.pending, hpos] at hwrap
    rw [hr.pending, hpos] at hge
    rw [hr.size] at hlt
    cases hplace : f.place (2 ^ sizeLog.val) n with
    | none =>
      rw [hplace] at hsome
      cases hsome
    | some pad =>
      obtain ⟨h1, h2, h3 | ⟨-, h3, -⟩⟩ := Fifo.place_spec hi hnone hplace
      · subst h3
        rw [add_zero] at h2
        omega
      · exact ⟨f.wpos + (i - f.wpos % 2 ^ sizeLog.val), by omega, by omega,
          (slot_to_end hge hlt).symm⟩
  | fill data =>
    obtain ⟨h, hheld, hsize, hge, hlt⟩ := hw
    have hmap := hr.held
    rw [hheld] at hmap
    obtain ⟨fh, hfh, rfl⟩ := map_eq_some_iff.mp hmap.symm
    have hplaced := hi.placed fh hfh
    have hpos : f.pendingPos = f.wpos + fh.pad + fh.size := by simp [Fifo.pendingPos, hfh]
    simp only at hge hlt hsize
    exact ⟨f.wpos + fh.pad + (i - (f.wpos + fh.pad) % 2 ^ sizeLog.val), by omega, by omega,
      (slot_to_end hge (by omega)).symm⟩
  | submit | rollback | gpuAdvance n => exact hw.elim

theorem Refines.step_pq (hi : f.Inv (2 ^ sizeLog.val) nop) {op : Op} {i : Nat}
    (hw : ¬ Writes s op i) : (step s op).kq.pq i = s.kq.pq i := by
  cases op with
  | acquire n =>
    simp only [step]
    cases hheld : s.held with
    | some h => rfl
    | none =>
      have hnone : f.held = none := by
        have := hr.held
        rw [hheld] at this
        exact map_eq_none_iff.mp this.symm
      have hpos : f.pendingPos = f.wpos := by simp [Fifo.pendingPos, hnone]
      have hacq := hr.acquire hi hnone n
      simp only [Writes, hheld, hacq, hr.size, hr.pending, hpos] at hw ⊢
      cases hplace : f.place (2 ^ sizeLog.val) n with
      | none => rfl
      | some pad =>
        obtain ⟨-, -, h3⟩ := Fifo.place_spec hi hnone hplace
        simp only [hplace, ringWrite_replicate] at hw ⊢
        rw [if_neg]
        rintro ⟨hge, hlt⟩
        exact hw ⟨trivial, rfl, by omega, hge, by omega⟩
  | fill data =>
    simp only [step]
    split
    · next h hh =>
      split
      · next hsize =>
        simp only [ringWrite]
        rw [dif_neg]
        rintro ⟨hge, hlt⟩
        exact hw ⟨h, hh, hsize, hge, by omega⟩
      · rfl
    · rfl
  | submit =>
    simp only [step]
    split
    · simp only [kqSubmitPacket]
      split <;> rfl
    · rfl
  | rollback =>
    simp only [step]
    split
    · simp only [kqRollbackPacket]
      split <;> rfl
    · rfl
  | gpuAdvance n =>
    simp only [step]
    split <;> rfl

end

end Refinement

/-! ## Rollback -/

/-- Steps that can happen while a packet is held: the driver fills it and the
GPU reads. -/
def Op.WhileHeld : Op → Prop
  | .fill _ => True
  | .gpuAdvance _ => True
  | _ => False

/-- What the packets published so far and the next steps depend on. -/
def SamePublished (s t : System) : Prop :=
  s.kq.wptrMem = t.kq.wptrMem ∧ s.kq.doorbell = t.kq.doorbell ∧
  s.kq.rptrKernel = t.kq.rptrKernel ∧ s.kq.pendingWptr = t.kq.pendingWptr ∧
  s.kq.window s.kq.unread = t.kq.window t.kq.unread ∧
  s.held = t.held ∧ s.gpuRead = t.gpuRead ∧ s.submitted = t.submitted

theorem Refines.samePublished {sizeLog : Fin 30} {doorbell8 : Bool} {nop : UInt32} {s t : System}
    {f : Fifo} (hs : Refines sizeLog doorbell8 nop s f) (ht : Refines sizeLog doorbell8 nop t f)
    (hi : f.Inv (2 ^ sizeLog.val) nop) : SamePublished s t := by
  have hlen := hi.length
  refine ⟨?_, ?_, ?_, ?_, ?_, ?_, ?_, ?_⟩
  · rw [hs.wptrMem, ht.wptrMem]
  · rw [hs.doorbell, ht.doorbell, hs.wptrMem, ht.wptrMem]
  · rw [hs.rptr, ht.rptr]
  · rw [hs.pending, ht.pending]
  · rw [hs.unread hi, ht.unread hi, hs.window hlen.ge, ht.window hlen.ge]
  · rw [hs.held, ht.held]
  · rw [hs.gpuRead, ht.gpuRead]
  · rw [hs.submitted, ht.submitted]

namespace Fifo

theorem step_whileHeld (q : Nat) (nop : UInt32) {f : Fifo} (hnone : f.held = none)
    (held : Option FifoHeld) {op : Op} (hop : op.WhileHeld) :
    (∃ held', step q nop { f with held := held } op = { f.step q nop op with held := held' }) ∧
      (f.step q nop op).held = none := by
  cases op with
  | fill data =>
    have hfill : f.step q nop (.fill data) = f := by simp [step, hnone]
    rw [hfill]
    refine ⟨?_, hnone⟩
    cases held with
    | none => exact ⟨none, rfl⟩
    | some h =>
      simp only [step]
      split
      · exact ⟨_, rfl⟩
      · exact ⟨some h, rfl⟩
  | gpuAdvance n =>
    simp only [step]
    split
    · exact ⟨⟨held, rfl⟩, hnone⟩
    · exact ⟨⟨held, rfl⟩, hnone⟩
  | acquire n | submit | rollback => exact hop.elim

theorem run_whileHeld (q : Nat) (nop : UInt32) {f : Fifo} (hnone : f.held = none)
    (held : Option FifoHeld) {during : List Op} (hd : ∀ op ∈ during, op.WhileHeld) :
    (run (step q nop) { f with held := held } during).step q nop .rollback =
      run (step q nop) f during := by
  induction during generalizing f held with
  | nil =>
    simp only [run_nil, step]
    rw [← hnone]
  | cons op during ih =>
    obtain ⟨hop, hrest⟩ := forall_mem_cons.mp hd
    obtain ⟨⟨held', hstep⟩, hnone'⟩ := step_whileHeld q nop hnone held hop
    rw [run_cons, run_cons, hstep]
    exact ih hnone' held' hrest

theorem run_rollback (q : Nat) (nop : UInt32) {f : Fifo} (hnone : f.held = none) (n : Nat)
    {during : List Op} (hd : ∀ op ∈ during, op.WhileHeld) (rest : List Op) :
    run (step q nop) f (.acquire n :: during ++ .rollback :: rest) =
      run (step q nop) f (during ++ rest) := by
  obtain ⟨held, hacq⟩ : ∃ held, f.step q nop (.acquire n) = { f with held := held } := by
    rw [step]
    split
    · exact ⟨_, rfl⟩
    · exact ⟨f.held, rfl⟩
  rw [cons_append, run_cons, hacq, run_append, run_append, run_cons,
    run_whileHeld q nop hnone held hd]

end Fifo

/-! ## The ring -/

/-- Every run of the driver and the GPU. No step writes a slot between the read
pointer and the published write pointer; the pending write pointer is below the
queue size and, with 8-byte doorbells, the 64-bit one modulo that size; the
dwords read and still to be read are the submitted packets in order, each behind
NOPs only; acquiring a packet and rolling it back, whatever is filled in and
read in between, leaves what is published from then on as it would have been;
and a packet is given space that leaves one dword free, at the write pointer or
at the start of the ring. -/
theorem kernelQueue_ring (sizeLog : Fin 30) (doorbell8 : Bool) (nop : UInt32) (ops : List Op) :
    let s := run step (init sizeLog doorbell8 nop) ops
    (∀ op i, Writes s op i → ∀ j < s.kq.unread, i ≠ (s.kq.rptrKernel + j) % s.kq.queueSizeDwords) ∧
    (∀ op i, ¬ Writes s op i → (step s op).kq.pq i = s.kq.pq i) ∧
    s.kq.pendingWptr < s.kq.queueSizeDwords ∧
    (doorbell8 = true → s.kq.pendingWptr = s.kq.pendingWptr64 % s.kq.queueSizeDwords) ∧
    Padded nop s.submitted (s.gpuRead ++ s.kq.window s.kq.unread) ∧
    (s.held = none → ∀ n during rest, (∀ op ∈ during, Op.WhileHeld op) →
      SamePublished (run step s (.acquire n :: during ++ .rollback :: rest))
        (run step s (during ++ rest))) ∧
    (s.held = none → ∀ n, s.kq.unread + n < s.kq.queueSizeDwords →
      s.kq.pendingWptr + n < s.kq.queueSizeDwords ∨ n < s.kq.rptrKernel →
      (step s (.acquire n)).held.isSome) := by
  intro s
  obtain ⟨hr, hi⟩ := run_refines (init_refines sizeLog doorbell8 nop)
    (Fifo.init_inv sizeLog nop) ops
  generalize run (Fifo.step (2 ^ sizeLog.val) nop) _ ops = f at hr hi
  have hlen := hi.length
  have hnone (hheld : s.held = none) : f.held = none := by
    have hnone := hr.held
    rwa [hheld, eq_comm, map_eq_none_iff] at hnone
  refine ⟨?_, fun op i => hr.step_pq hi, ?_, fun h8 => ?_, ?_, ?_, ?_⟩
  · intro op i hw j hj
    obtain ⟨p, hp1, hp2, rfl⟩ := hr.writes_behind hi hw
    rw [hr.unread hi] at hj
    rw [hr.size, hr.rptr, Nat.mod_add_mod]
    exact (mod_ne_of_lt_of_lt_add (by omega) (by omega)).symm
  · rw [hr.pending, hr.size]
    exact Nat.mod_lt _ (Nat.two_pow_pos _)
  · rw [hr.pending, hr.pending64 h8, hr.size,
      Nat.mod_mod_of_dvd _ (size_dvd_two_pow sizeLog (by omega))]
  · rw [hr.unread hi, hr.window hlen.ge, ← hlen, take_length, hr.gpuRead, hr.submitted]
    exact hi.padded
  · intro hheld n during rest hd
    obtain ⟨hr1, hi1⟩ := run_refines hr hi (.acquire n :: during ++ .rollback :: rest)
    obtain ⟨hr2, -⟩ := run_refines hr hi (during ++ rest)
    rw [Fifo.run_rollback _ _ (hnone hheld) n hd] at hr1 hi1
    exact hr1.samePublished hr2 hi1
  · intro hheld n hfree hplace
    obtain ⟨hr1, -⟩ := run_refines hr hi [.acquire n]
    rw [hr.unread hi, hr.size] at hfree
    rw [hr.pending, Fifo.pendingPos, hnone hheld, hr.size, hr.rptr] at hplace
    obtain ⟨pad, hpad⟩ := Fifo.exists_place hfree hplace
    have hheld1 := hr1.held
    rw [run_cons, run_cons, run_nil, run_nil, Fifo.step, hnone hheld, hpad] at hheld1
    rw [hheld1]
    rfl

/-- The packet wraps to the start of the ring. -/
example : (run step (init 3 true 0)
    [.acquire 5, .fill [1, 2, 3, 4, 5], .submit, .gpuAdvance 5, .acquire 3]).held =
      some ⟨0, 3, none⟩ := by
  decide +kernel

end Amdkfd.KernelQueueRing
