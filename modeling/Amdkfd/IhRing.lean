import Amdkfd.Lib.Cells
import Amdkfd.Lib.Run
import Mathlib.Data.UInt

/-!
# The software interrupt ring

`amdgpu_ih_ring_write` and `amdgpu_ih_process`. A write stores its entry and then publishes it, and
one write follows the other. The reader takes an entry, dispatches it and only then masks its read
pointer, so that writes can come in between.
-/

namespace Amdkfd.IhRing

open Lib Function List

/-! ## Model -/

/-- `struct amdgpu_ih_ring`, with the memory its pointers name. -/
structure Ring where
  ringSize : Nat
  ptrMask : Nat
  rptr : Nat
  wptrCpu : Nat
  ring : Nat → UInt32

/-- `amdgpu_ih_ring_init` with `use_bus_addr`, for memory that has been cleared. `rbBufsz` is the
logarithm of the size in dwords. -/
def amdgpuIhRingInit (rbBufsz : Nat) : Ring :=
  let ringSize := (1 <<< rbBufsz) * 4
  { ringSize := ringSize, ptrMask := ringSize - 1, rptr := 0, wptrCpu := 0, ring := fun _ => 0 }

abbrev Iv := { iv : List UInt32 // iv.length = 8 }

/-- The loop of `amdgpu_ih_ring_write`. -/
def storeDwords (ring : Nat → UInt32) (wptr : Nat) : List UInt32 → (Nat → UInt32) × Nat
  | [] => (ring, wptr)
  | dw :: dws => storeDwords (update ring wptr dw) (wptr + 1) dws

def amdgpuIhRingStore (ih : Ring) (iv : List UInt32) : Ring × Nat :=
  let stored := storeDwords ih.ring (ih.wptrCpu >>> 2) iv
  ({ ih with ring := stored.1 }, (stored.2 <<< 2) &&& ih.ptrMask)

/-- The rest of `amdgpu_ih_ring_write`, and whether it publishes the entry. -/
def amdgpuIhRingCommit (ih : Ring) (wptr : Nat) : Ring × Bool :=
  if wptr ≠ ih.rptr then ({ ih with wptrCpu := wptr }, true) else (ih, false)

/-- `struct amdgpu_iv_entry`, what the helper decodes of it. -/
structure IvEntry where
  clientId : UInt32
  srcId : UInt32
  ringId : UInt32
  vmid : UInt32
  vmidSrc : UInt32
  timestamp : UInt64
  timestampSrc : UInt32
  pasid : UInt32
  nodeId : UInt32
  srcData : List UInt32
  deriving DecidableEq

/-- The fields of an entry. -/
def ivEntry (dw : List UInt32) : IvEntry where
  clientId := dw.getD 0 0 &&& 0xff
  srcId := (dw.getD 0 0 >>> 8) &&& 0xff
  ringId := (dw.getD 0 0 >>> 16) &&& 0xff
  vmid := (dw.getD 0 0 >>> 24) &&& 0xf
  vmidSrc := dw.getD 0 0 >>> 31
  timestamp := (dw.getD 1 0).toUInt64 ||| ((dw.getD 2 0 &&& 0xffff).toUInt64 <<< 32)
  timestampSrc := dw.getD 2 0 >>> 31
  pasid := dw.getD 3 0 &&& 0xffff
  nodeId := (dw.getD 3 0 >>> 16) &&& 0xff
  srcData := [dw.getD 4 0, dw.getD 5 0, dw.getD 6 0, dw.getD 7 0]

def amdgpuIhDecodeIvHelper (ih : Ring) : Ring × IvEntry :=
  let ringIndex := ih.rptr >>> 2
  ({ ih with rptr := ih.rptr + 32 }, ivEntry (readRun ih.ring ringIndex 8))

/-- `amdgpu_ih_get_wptr` of a software ring, whose write pointer never has the overflow bit. -/
def getWptr (ih : Ring) : Nat := ih.wptrCpu &&& ih.ptrMask

def amdgpuIhMaxNumIvs : Nat := 32

/-- Where `amdgpu_ih_process` is: not called, before the condition of its loop, or dispatching an
entry. It has the local `wptr` and `count`. -/
inductive Reader
  | idle
  | loop (wptr count : Nat)
  | dispatching (wptr count : Nat)
  deriving DecidableEq

/-- The ring, the write that has stored its entry, the reader, the entries that were published and
the ones that were decoded. -/
structure System where
  ih : Ring
  writer : Option (Iv × Nat)
  reader : Reader
  committed : List (List UInt32)
  delivered : List IvEntry

inductive Op
  | store (iv : Iv)
  | commit
  | read

def readStep (s : System) : System :=
  match s.reader with
  | .idle => { s with reader := .loop (getWptr s.ih) amdgpuIhMaxNumIvs }
  | .loop wptr count =>
    if s.ih.rptr ≠ wptr ∧ count - 1 ≠ 0 then
      let taken := amdgpuIhDecodeIvHelper s.ih
      { s with
        ih := taken.1
        reader := .dispatching wptr (count - 1)
        delivered := s.delivered ++ [taken.2] }
    else
      let wptr := getWptr s.ih
      { s with reader := if wptr ≠ s.ih.rptr then .loop wptr amdgpuIhMaxNumIvs else .idle }
  | .dispatching wptr count =>
    { s with ih := { s.ih with rptr := s.ih.rptr &&& s.ih.ptrMask }, reader := .loop wptr count }

def step (s : System) : Op → System
  | .store iv =>
    match s.writer with
    | some _ => s
    | none =>
      let stored := amdgpuIhRingStore s.ih iv.val
      { s with ih := stored.1, writer := some (iv, stored.2) }
  | .commit =>
    match s.writer with
    | none => s
    | some (iv, wptr) =>
      let done := amdgpuIhRingCommit s.ih wptr
      { s with
        ih := done.1
        writer := none
        committed := if done.2 then s.committed ++ [iv.val] else s.committed }
  | .read => readStep s

/-- An empty ring. -/
def init (rbBufsz : Nat) : System where
  ih := amdgpuIhRingInit rbBufsz
  writer := none
  reader := .idle
  committed := []
  delivered := []

/-! ## What the ring is for -/

/-- The number of entries that have been published and not decoded. -/
def System.pending (s : System) : Nat := s.committed.length - s.delivered.length

def Ring.slots (ih : Ring) : Nat := ih.ringSize / 32

/-- What the ring holds for the reader to come: as many entries as are pending, from the one behind
the last that was decoded. -/
def System.unread (s : System) : List (List UInt32) :=
  (range s.pending).map fun j =>
    cell 8 0 s.ih.ring ((s.delivered.length + j) % s.ih.slots)

/-- What is published is delivered once, in order and as it was written. -/
structure Delivers (s : System) : Prop where
  delivered : s.delivered = (s.committed.take s.delivered.length).map ivEntry
  unread : s.unread = s.committed.drop s.delivered.length
  drains : ∃ n, (run step s (replicate n .read)).delivered = s.committed.map ivEntry

/-- What a step does: a store stays in the ring, a write to a full ring changes neither the write
pointer nor what is there to be read, and the ring still works. -/
structure StepRight (s : System) (op : Op) : Prop where
  inside : ∀ iv, op = .store iv → s.ih.wptrCpu / 4 + 8 ≤ s.ih.ringSize / 4
  full : op = .commit → s.pending + 1 = s.ih.slots →
    (step s op).ih.wptrCpu = s.ih.wptrCpu ∧ (step s op).unread = s.unread
  delivers : Delivers (step s op)

/-- A write does not end at the start of the ring while the reader has decoded the entry at the end
of the ring and not masked its read pointer. -/
def InTime (s : System) : Op → Prop
  | .commit => ∀ iv wptr, s.writer = some (iv, wptr) → ¬ (wptr = 0 ∧ s.ih.rptr = s.ih.ringSize)
  | _ => True

/-! ## Positions -/

theorem and_mask (x k : Nat) : x &&& (32 * 2 ^ k - 1) = x % (32 * 2 ^ k) := by
  have hpow : 32 * 2 ^ k = 2 ^ (k + 5) := by rw [Nat.pow_add]; omega
  rw [hpow, Nat.and_two_pow_sub_one_eq_mod]

def byteOf (k pos : Nat) : Nat := 32 * (pos % 2 ^ k)

theorem byteOf_lt (k pos : Nat) : byteOf k pos + 32 ≤ 32 * 2 ^ k := by
  have := Nat.mod_lt pos (Nat.two_pow_pos k)
  unfold byteOf
  omega

theorem byteOf_succ (k pos : Nat) : (byteOf k pos + 32) % (32 * 2 ^ k) = byteOf k (pos + 1) := by
  have hmul : byteOf k pos + 32 = 32 * (pos % 2 ^ k + 1) := by unfold byteOf; omega
  rw [hmul, Nat.mul_mod_mul_left, Nat.mod_add_mod]
  rfl

theorem byteOf_mod (k pos : Nat) : byteOf k pos % (32 * 2 ^ k) = byteOf k pos :=
  Nat.mod_eq_of_lt (by have := byteOf_lt k pos; omega)

theorem byteOf_inj {k x y : Nat} (hle : x ≤ y) (hturn : y < x + 2 ^ k)
    (h : byteOf k x = byteOf k y) : x = y := by
  by_contra hne
  have hslot := mod_ne_of_lt_of_lt_add (by omega : x < y) hturn
  unfold byteOf at h
  omega

theorem byteOf_succ_ne {k pos : Nat} (hk : 0 < k) (h : byteOf k pos = 0)
    (hsucc : byteOf k (pos + 1) = 0) : False := by
  have htwo : 2 ≤ 2 ^ k := Nat.le_self_pow (by omega) 2
  have hslot : pos % 2 ^ k = 0 := by unfold byteOf at h; omega
  rw [byteOf, ← Nat.mod_add_mod, hslot, zero_add, Nat.mod_eq_of_lt (by omega)] at hsucc
  omega

theorem storeDwords_eq (ring : Nat → UInt32) (wptr : Nat) (iv : List UInt32) :
    storeDwords ring wptr iv = (ringWrite ring wptr iv, wptr + iv.length) := by
  induction iv generalizing ring wptr with
  | nil =>
    refine Prod.ext (funext fun i => ?_) rfl
    simp [storeDwords, ringWrite]
  | cons dw dws ih =>
    rw [storeDwords, ih]
    refine Prod.ext (funext fun i => ?_) (by simp only [length_cons]; omega)
    simp only [ringWrite, length_cons]
    obtain hlt | rfl | hgt := lt_trichotomy i wptr
    · rw [dif_neg (by omega), dif_neg (by omega), update_of_ne (by omega)]
    · rw [dif_neg (by omega), dif_pos (by omega), update_self]
      simp
    · rw [update_of_ne (by omega)]
      by_cases hin : i - wptr < dws.length + 1
      case neg => rw [dif_neg (by omega), dif_neg (by omega)]
      rw [dif_pos ⟨by omega, by omega⟩, dif_pos ⟨by omega, hin⟩]
      have hindex : i - wptr = i - (wptr + 1) + 1 := by omega
      simp [hindex]

/-! ## The invariant -/

/-- The reader's pointer is at the next entry, or behind the one it dispatches, and its local `wptr`
is one of those that were published. -/
def ReaderAt (k : Nat) (s : System) : Prop :=
  match s.reader with
  | .idle => s.ih.rptr = byteOf k s.delivered.length
  | .loop wptr _ =>
    s.ih.rptr = byteOf k s.delivered.length ∧
      ∃ p, s.delivered.length ≤ p ∧ p ≤ s.committed.length ∧ wptr = byteOf k p
  | .dispatching wptr _ =>
    (∃ n, s.delivered.length = n + 1 ∧ s.ih.rptr = byteOf k n + 32) ∧
      ∃ p, s.delivered.length ≤ p ∧ p ≤ s.committed.length ∧ wptr = byteOf k p

/-- The ring has `2 ^ k` slots. It holds the entries that are pending, the one that is written is
behind them. -/
structure Inv (k : Nat) (s : System) : Prop where
  ringSize : s.ih.ringSize = 32 * 2 ^ k
  ptrMask : s.ih.ptrMask = 32 * 2 ^ k - 1
  delivered : s.delivered = (s.committed.take s.delivered.length).map ivEntry
  turn : s.committed.length < s.delivered.length + 2 ^ k
  wptr : s.ih.wptrCpu = byteOf k s.committed.length
  holds : ∀ i, s.delivered.length ≤ i → i < s.committed.length →
    s.committed[i]? = some (cell 8 0 s.ih.ring (i % 2 ^ k))
  reader : ReaderAt k s
  writer : ∀ iv wptr, s.writer = some (iv, wptr) →
    wptr = byteOf k (s.committed.length + 1) ∧
      cell 8 0 s.ih.ring (s.committed.length % 2 ^ k) = iv.val

theorem init_inv {rbBufsz : Nat} (h : 3 ≤ rbBufsz) : Inv (rbBufsz - 3) (init rbBufsz) := by
  have hsize : (1 <<< rbBufsz) * 4 = 32 * 2 ^ (rbBufsz - 3) := by
    have hpow : 2 ^ rbBufsz = 2 ^ (rbBufsz - 3) * 2 ^ 3 := by
      rw [← Nat.pow_add, Nat.sub_add_cancel h]
    rw [Nat.one_shiftLeft, hpow]
    omega
  have hpos := Nat.two_pow_pos (rbBufsz - 3)
  refine ⟨hsize, congrArg (· - 1) hsize, rfl, by simpa [init] using hpos, ?_, ?_, ?_, ?_⟩
  · simp [init, amdgpuIhRingInit, byteOf]
  · intro i _ hi
    exact absurd hi (Nat.not_lt_zero i)
  · simp [ReaderAt, init, amdgpuIhRingInit, byteOf]
  · intro iv wptr hw
    cases hw

section
variable {k : Nat} {s : System}

theorem Inv.le (h : Inv k s) : s.delivered.length ≤ s.committed.length := by
  have hlen := congrArg List.length h.delivered
  rw [length_map, length_take] at hlen
  omega

theorem Inv.slots (h : Inv k s) : s.ih.slots = 2 ^ k := by
  rw [Ring.slots, h.ringSize]
  exact Nat.mul_div_cancel_left _ (by decide)

theorem Inv.getWptr_eq (h : Inv k s) : getWptr s.ih = byteOf k s.committed.length := by
  rw [getWptr, h.wptr, h.ptrMask, and_mask, byteOf_mod]

theorem Inv.unread (h : Inv k s) : s.unread = s.committed.drop s.delivered.length := by
  refine ext_getElem? fun j => ?_
  rw [System.unread, h.slots, getElem?_drop, getElem?_map]
  rcases lt_or_ge j s.pending with hj | hj
  · rw [getElem?_range hj, Option.map_some]
    exact (h.holds _ (by omega) (by unfold System.pending at hj; omega)).symm
  · have hend : s.committed.length ≤ s.delivered.length + j := by
      unfold System.pending at hj
      omega
    rw [getElem?_eq_none hend, getElem?_eq_none (by simpa using hj)]
    rfl

/-! ### Writes -/

theorem Inv.store_eq (h : Inv k s) (iv : Iv) :
    amdgpuIhRingStore s.ih iv.val =
      ({ s.ih with ring := ringWrite s.ih.ring (s.committed.length % 2 ^ k * 8) iv.val },
        byteOf k (s.committed.length + 1)) := by
  have hindex : s.ih.wptrCpu >>> 2 = s.committed.length % 2 ^ k * 8 := by
    rw [h.wptr, Nat.shiftRight_eq_div_pow, byteOf]
    omega
  have hbytes : (s.committed.length % 2 ^ k * 8 + 8) <<< 2 = byteOf k s.committed.length + 32 := by
    rw [Nat.shiftLeft_eq, byteOf]
    omega
  simp only [amdgpuIhRingStore, hindex, storeDwords_eq, iv.property, hbytes, h.ptrMask, and_mask,
    byteOf_succ]

theorem cell_store (ring : Nat → UInt32) (a i : Nat) (iv : Iv) :
    cell 8 0 (ringWrite ring (a * 8) iv.val) i = if i = a then iv.val else cell 8 0 ring i := by
  have hcell := @cell_write _ 8 0 a i ring [iv.val] (by simpa using iv.property)
  rw [zero_add, flatten_singleton] at hcell
  rw [hcell, ringWrite]
  by_cases hi : i = a
  · rw [dif_pos (by simp [hi]), if_pos hi]
    simp
  · rw [dif_neg (by simp only [length_singleton]; omega), if_neg hi]

theorem Inv.store (h : Inv k s) (iv : Iv) : Inv k (step s (.store iv)) := by
  cases hwriter : s.writer with
  | some w =>
    simp only [step, hwriter]
    exact h
  | none =>
    simp only [step, hwriter, h.store_eq]
    refine { h with holds := fun i hge hlt => ?_, reader := ?_, writer := ?_ }
    · rw [h.holds i hge hlt, cell_store, if_neg]
      have hturn := h.turn
      have hfirst : s.delivered.length ≤ i := hge
      exact mod_ne_of_lt_of_lt_add hlt (by show s.committed.length < i + 2 ^ k; omega)
    · exact h.reader
    · rintro iv' wptr ⟨⟩
      exact ⟨rfl, by simp only [cell_store, if_true]⟩

theorem Inv.rptr_cases (h : Inv k s) :
    s.ih.rptr = byteOf k s.delivered.length ∨
      s.ih.rptr = s.ih.ringSize ∧ byteOf k s.delivered.length = 0 := by
  have hreader := h.reader
  unfold ReaderAt at hreader
  cases hr : s.reader with
  | idle =>
    rw [hr] at hreader
    exact .inl hreader
  | loop wptr count =>
    rw [hr] at hreader
    exact .inl hreader.1
  | dispatching wptr count =>
    rw [hr] at hreader
    obtain ⟨⟨n, hn, hrptr⟩, -⟩ := hreader
    have hnext := byteOf_succ k n
    have hle := byteOf_lt k n
    rw [hn, hrptr, h.ringSize]
    obtain hlt | heq := Nat.lt_or_eq_of_le hle
    · rw [Nat.mod_eq_of_lt hlt] at hnext
      exact .inl hnext
    · rw [heq, Nat.mod_self] at hnext
      exact .inr ⟨heq, hnext.symm⟩

theorem byteOf_turn (k x : Nat) : byteOf k (x + 2 ^ k) = byteOf k x := by
  rw [byteOf, Nat.add_mod_right, byteOf]

theorem Inv.byteOf_eq_iff (h : Inv k s) :
    byteOf k (s.committed.length + 1) = byteOf k s.delivered.length ↔
      s.committed.length + 1 = s.delivered.length + 2 ^ k := by
  have hle := h.le
  have hturn := h.turn
  constructor
  · intro heq
    by_contra hne
    have := byteOf_inj (by omega) (by omega) heq.symm
    omega
  · intro heq
    rw [heq, byteOf_turn]

variable {iv : Iv} {wptr : Nat}

theorem Inv.full_iff (h : Inv k s) (hw : s.writer = some (iv, wptr)) (htime : InTime s .commit) :
    wptr = s.ih.rptr ↔ s.committed.length + 1 = s.delivered.length + 2 ^ k := by
  obtain ⟨hwptr, -⟩ := h.writer iv wptr hw
  rw [← h.byteOf_eq_iff, hwptr]
  obtain hrptr | ⟨hrptr, hzero⟩ := h.rptr_cases
  · rw [hrptr]
  · have hnot := htime iv wptr hw
    have hlt := byteOf_lt k (s.committed.length + 1)
    rw [hrptr, hzero]
    refine iff_of_false ?_ fun heq => hnot ⟨by rw [hwptr, heq], hrptr⟩
    rw [h.ringSize]
    omega

theorem ReaderAt.commit {t : System} (h : ReaderAt k s) (hrptr : t.ih.rptr = s.ih.rptr)
    (hreader : t.reader = s.reader) (hdelivered : t.delivered = s.delivered)
    (hle : s.committed.length ≤ t.committed.length) : ReaderAt k t := by
  unfold ReaderAt at h ⊢
  rw [hreader, hrptr, hdelivered]
  split at h
  · exact h
  · obtain ⟨hr, p, hge, hp, hwptr⟩ := h
    exact ⟨hr, p, hge, by omega, hwptr⟩
  · obtain ⟨hr, p, hge, hp, hwptr⟩ := h
    exact ⟨hr, p, hge, by omega, hwptr⟩

theorem step_commit_full (hw : s.writer = some (iv, wptr)) (heq : wptr = s.ih.rptr) :
    step s .commit = { s with writer := none } := by
  simp [step, hw, amdgpuIhRingCommit, heq]

theorem step_commit_publish (hw : s.writer = some (iv, wptr)) (hne : wptr ≠ s.ih.rptr) :
    step s .commit =
      { s with
        ih := { s.ih with wptrCpu := wptr }
        writer := none
        committed := s.committed ++ [iv.val] } := by
  simp [step, hw, amdgpuIhRingCommit, hne]

theorem Inv.commit (h : Inv k s) (htime : InTime s .commit) : Inv k (step s .commit) := by
  cases hwriter : s.writer with
  | none =>
    simp only [step, hwriter]
    exact h
  | some w =>
    obtain ⟨iv, wptr⟩ := w
    obtain ⟨hwptr, hcell⟩ := h.writer iv wptr hwriter
    have hfull := h.full_iff hwriter htime
    by_cases heq : wptr = s.ih.rptr
    · rw [step_commit_full hwriter heq]
      exact { h with writer := fun _ _ hw => by cases hw }
    rw [step_commit_publish hwriter heq]
    have hturn := h.turn
    refine { h with
      delivered := ?_, turn := ?_, wptr := ?_, holds := fun i hge hlt => ?_, reader := ?_
      writer := fun _ _ hw => by cases hw }
    · rw [take_append_of_le_length h.le]
      exact h.delivered
    · rw [length_append, length_singleton]
      show s.committed.length + 1 < s.delivered.length + 2 ^ k
      omega
    · rw [length_append, length_singleton]
      exact hwptr
    · rw [length_append, length_singleton] at hlt
      obtain hlast | hold := eq_or_lt_of_le (Nat.le_of_lt_succ hlt)
      · subst hlast
        rw [getElem?_append_right le_rfl, Nat.sub_self, hcell]
        rfl
      · rw [getElem?_append_left hold]
        exact h.holds i hge hold
    · exact h.reader.commit rfl rfl rfl (by simp)

/-! ### Reads -/

theorem Inv.read_idle (h : Inv k s) (hr : s.reader = .idle) :
    step s .read = { s with reader := .loop (byteOf k s.committed.length) amdgpuIhMaxNumIvs } := by
  rw [step, readStep, hr, ← h.getWptr_eq]

theorem Inv.read_done (h : Inv k s) {wptr count : Nat} (hr : s.reader = .loop wptr count)
    (hdone : ¬ (s.ih.rptr ≠ wptr ∧ count - 1 ≠ 0)) :
    step s .read =
      { s with
        reader :=
          if s.delivered.length < s.committed.length then
            .loop (byteOf k s.committed.length) amdgpuIhMaxNumIvs
          else .idle } := by
  have hreader := h.reader
  unfold ReaderAt at hreader
  rw [hr] at hreader
  have hiff : getWptr s.ih ≠ s.ih.rptr ↔ s.delivered.length < s.committed.length := by
    have hle := h.le
    rw [h.getWptr_eq, hreader.1]
    constructor
    · intro hne
      by_contra hnot
      exact hne (by rw [show s.committed.length = s.delivered.length by omega])
    · intro hlt heq
      have := byteOf_inj hle h.turn heq.symm
      omega
  rw [step, readStep, hr]
  dsimp only
  rw [if_neg hdone, if_congr hiff rfl rfl, h.getWptr_eq]

theorem Inv.read_decode (h : Inv k s) {wptr count : Nat} (hr : s.reader = .loop wptr count)
    (hmore : s.ih.rptr ≠ wptr ∧ count - 1 ≠ 0) :
    ∃ dw, s.committed[s.delivered.length]? = some dw ∧
      step s .read =
        { s with
          ih := { s.ih with rptr := byteOf k s.delivered.length + 32 }
          reader := .dispatching wptr (count - 1)
          delivered := s.delivered ++ [ivEntry dw] } := by
  have hreader := h.reader
  unfold ReaderAt at hreader
  rw [hr] at hreader
  obtain ⟨hrptr, p, hge, hle, hwptr⟩ := hreader
  have hne : s.delivered.length ≠ p := by
    rintro rfl
    exact hmore.1 (hrptr.trans hwptr.symm)
  refine ⟨_, h.holds _ le_rfl (by omega), ?_⟩
  have hindex : byteOf k s.delivered.length >>> 2 = 0 + s.delivered.length % 2 ^ k * 8 := by
    rw [Nat.shiftRight_eq_div_pow, byteOf]
    omega
  rw [step, readStep, hr]
  dsimp only
  rw [if_pos hmore]
  simp only [amdgpuIhDecodeIvHelper, hrptr, hindex, cell]

theorem Inv.read (h : Inv k s) : Inv k (step s .read) := by
  have hreader := h.reader
  unfold ReaderAt at hreader
  cases hr : s.reader with
  | idle =>
    rw [hr] at hreader
    rw [h.read_idle hr]
    exact { h with reader := ⟨hreader, _, h.le, le_rfl, rfl⟩ }
  | loop wptr count =>
    rw [hr] at hreader
    obtain ⟨hrptr, p, hge, hle, hwptr⟩ := hreader
    by_cases hmore : s.ih.rptr ≠ wptr ∧ count - 1 ≠ 0
    · obtain ⟨dw, hdw, hstep⟩ := h.read_decode hr hmore
      have hne : s.delivered.length ≠ p := by
        rintro rfl
        exact hmore.1 (hrptr.trans hwptr.symm)
      have hlen : (s.delivered ++ [ivEntry dw]).length = s.delivered.length + 1 := by simp
      rw [hstep]
      refine { h with
        delivered := ?_, turn := ?_, holds := fun i hi => h.holds i ?_
        reader := ⟨⟨_, hlen, rfl⟩, p, ?_, hle, hwptr⟩ }
      · rw [hlen, take_add_one, hdw, map_append, ← h.delivered]
        rfl
      · have hturn := h.turn
        show s.committed.length < (s.delivered ++ [ivEntry dw]).length + 2 ^ k
        omega
      · rw [hlen] at hi
        omega
      · show (s.delivered ++ [ivEntry dw]).length ≤ p
        omega
    · rw [h.read_done hr hmore]
      by_cases hlt : s.delivered.length < s.committed.length
      · rw [if_pos hlt]
        exact { h with reader := ⟨hrptr, _, h.le, le_rfl, rfl⟩ }
      · rw [if_neg hlt]
        exact { h with reader := hrptr }
  | dispatching wptr count =>
    rw [hr] at hreader
    obtain ⟨⟨n, hn, hrptr⟩, hp⟩ := hreader
    have hstep : step s .read =
        { s with ih := { s.ih with rptr := byteOf k (n + 1) }, reader := .loop wptr count } := by
      rw [step, readStep, hr]
      simp only [hrptr, h.ptrMask, and_mask, byteOf_succ]
    rw [hstep]
    exact { h with reader := ⟨by rw [hn], hp⟩ }

theorem Inv.step_inv (h : Inv k s) {op : Op} (htime : InTime s op) : Inv k (step s op) := by
  cases op with
  | store iv => exact h.store iv
  | commit => exact h.commit htime
  | read => exact h.read

/-! ### The reader gets to the end -/

def TakesNext (s : System) : Prop :=
  ∃ n, (run step s (replicate n .read)).delivered.length = s.delivered.length + 1 ∧
    (run step s (replicate n .read)).committed = s.committed

theorem TakesNext.of_step {t : System} (h : TakesNext t) (hstep : step s .read = t)
    (hdelivered : t.delivered = s.delivered) (hcommitted : t.committed = s.committed) :
    TakesNext s := by
  obtain ⟨n, hnext, hsame⟩ := h
  refine ⟨n + 1, ?_⟩
  rw [replicate_succ, run_cons, hstep, hnext, hsame, hdelivered, hcommitted]
  exact ⟨rfl, rfl⟩

theorem Inv.takesNext_of_more (h : Inv k s) {wptr count : Nat} (hr : s.reader = .loop wptr count)
    (hmore : s.ih.rptr ≠ wptr ∧ count - 1 ≠ 0) : TakesNext s := by
  obtain ⟨dw, -, hstep⟩ := h.read_decode hr hmore
  refine ⟨1, ?_⟩
  rw [replicate_one, run_cons, run_nil, hstep]
  exact ⟨by simp, rfl⟩

theorem Inv.takesNext_of_fresh (h : Inv k s)
    (hr : s.reader = .loop (byteOf k s.committed.length) amdgpuIhMaxNumIvs)
    (hlt : s.delivered.length < s.committed.length) : TakesNext s := by
  refine h.takesNext_of_more hr ⟨fun heq => ?_, by decide⟩
  have hreader := h.reader
  unfold ReaderAt at hreader
  rw [hr] at hreader
  have := byteOf_inj h.le h.turn (hreader.1.symm.trans heq)
  omega

theorem Inv.takesNext_of_loop (h : Inv k s) {wptr count : Nat} (hr : s.reader = .loop wptr count)
    (hlt : s.delivered.length < s.committed.length) : TakesNext s := by
  by_cases hmore : s.ih.rptr ≠ wptr ∧ count - 1 ≠ 0
  · exact h.takesNext_of_more hr hmore
  -- The batch is over or all that was seen is decoded, so that the pointer is read again.
  have hstep := h.read_done hr hmore
  rw [if_pos hlt] at hstep
  exact (hstep ▸ h.read).takesNext_of_fresh rfl hlt |>.of_step hstep rfl rfl

theorem Inv.takesNext (h : Inv k s) (hlt : s.delivered.length < s.committed.length) :
    TakesNext s := by
  cases hr : s.reader with
  | idle =>
    have hstep := h.read_idle hr
    exact (hstep ▸ h.read).takesNext_of_fresh rfl hlt |>.of_step hstep rfl rfl
  | loop wptr count => exact h.takesNext_of_loop hr hlt
  | dispatching wptr count =>
    have hstep : step s .read =
        { s with
          ih := { s.ih with rptr := s.ih.rptr &&& s.ih.ptrMask }
          reader := .loop wptr count } := by
      rw [step, readStep, hr]
    exact (hstep ▸ h.read).takesNext_of_loop rfl hlt |>.of_step hstep rfl rfl

theorem Inv.reads (h : Inv k s) (n : Nat) : Inv k (run step s (replicate n .read)) := by
  induction n generalizing s with
  | zero => exact h
  | succ n ih => exact ih h.read

theorem Inv.drains (h : Inv k s) :
    ∃ n, (run step s (replicate n .read)).delivered = s.committed.map ivEntry := by
  generalize hpending : s.committed.length - s.delivered.length = d
  induction d generalizing s with
  | zero =>
    refine ⟨0, ?_⟩
    have hdelivered := h.delivered
    rw [take_of_length_le (by omega)] at hdelivered
    exact hdelivered
  | succ d ih =>
    obtain ⟨n, hnext, hsame⟩ := h.takesNext (by omega)
    obtain ⟨m, hm⟩ := ih (h.reads n) (by rw [hnext, hsame]; omega)
    refine ⟨n + m, ?_⟩
    rw [replicate_add, run_append, hm, hsame]

theorem Inv.delivers (h : Inv k s) : Delivers s := ⟨h.delivered, h.unread, h.drains⟩

/-! ## Runs -/

theorem Inv.stepRight_iff (h : Inv k s) (hk : 0 < k) (op : Op) : StepRight s op ↔ InTime s op := by
  constructor
  · intro hright
    cases op with
    | store iv | read => trivial
    | commit =>
      rintro iv wptr hw ⟨hzero, hrptr⟩
      obtain ⟨hwptr, -⟩ := h.writer iv wptr hw
      have hbehind : byteOf k (s.committed.length + 1) = 0 := hwptr.symm.trans hzero
      have hnext : byteOf k s.delivered.length = 0 := by
        obtain hsame | ⟨-, hnext⟩ := h.rptr_cases
        · have hlt := byteOf_lt k s.delivered.length
          rw [← hsame, hrptr, h.ringSize] at hlt
          omega
        · exact hnext
      have hfull := h.byteOf_eq_iff.mp (hbehind.trans hnext.symm)
      have hne : wptr ≠ s.ih.rptr := by
        have := Nat.two_pow_pos k
        rw [hzero, hrptr, h.ringSize]
        omega
      have hle := h.le
      have hsame := (hright.full rfl (by rw [h.slots, System.pending]; omega)).1
      rw [step_commit_publish hw hne, h.wptr] at hsame
      have hlast : byteOf k s.committed.length = 0 := hsame.symm.trans hzero
      exact byteOf_succ_ne hk hlast hbehind
  · intro htime
    refine ⟨?_, ?_, (h.step_inv htime).delivers⟩
    · rintro iv rfl
      have := byteOf_lt k s.committed.length
      rw [h.wptr, h.ringSize]
      omega
    · rintro rfl hfull
      cases hwriter : s.writer with
      | none => simp only [step, hwriter, and_self]
      | some w =>
        rw [h.slots, System.pending] at hfull
        have hle := h.le
        have heq := (h.full_iff hwriter htime).mpr (by omega)
        rw [step_commit_full hwriter heq]
        exact ⟨rfl, rfl⟩

def exIv : Iv := ⟨[1, 2, 3, 4, 5, 6, 7, 8], rfl⟩

/-- A run of writes and reads from the empty ring works exactly when every write is in time. -/
theorem ihRing_right_iff {rbBufsz : Nat} (hsize : 4 ≤ rbBufsz) (ops : List Op) :
    StepsOk step StepRight (init rbBufsz) ops ↔ StepsOk step InTime (init rbBufsz) ops :=
  @stepsOk_congr _ _ step InTime StepRight (Inv (rbBufsz - 3))
    (fun _ op h => h.stepRight_iff (Nat.sub_pos_of_lt hsize) op)
    (fun _ _ h htime => h.step_inv htime) _ (init_inv (le_of_lt hsize)) ops

theorem ihRing_right_at :
    StepsOk step StepRight (init 4) [.store exIv, .commit, .read, .read, .read, .read] :=
  (ihRing_right_iff (by decide) _).mpr ⟨trivial, fun _ _ hw => by cases hw; decide, trivial,
    trivial, trivial, trivial, trivial⟩

/-- In a ring of two entries: two entries are delivered, and while the second one is dispatched a
third one is written. -/
def exBefore : List Op :=
  [.store exIv, .commit, .read, .read, .read, .store exIv, .commit, .read, .read,
    .store exIv, .commit, .store exIv]

/-- The fourth entry is published although the ring is full, and the reader returns without the
last two. -/
theorem ihRing_wrong :
    ¬ StepsOk step StepRight (init 4) (exBefore ++ [.commit, .read, .read]) ∧
      (run step (init 4) (exBefore ++ [.commit, .read, .read])).reader = .idle ∧
      (run step (init 4) (exBefore ++ [.commit, .read, .read])).committed.length = 4 ∧
      (run step (init 4) (exBefore ++ [.commit, .read, .read])).delivered.length = 2 := by
  refine ⟨fun h => ?_, by decide, by decide, by decide⟩
  obtain ⟨-, hcommit, -⟩ := (stepsOk_append step).mp h
  have hsame := (hcommit.full rfl (by decide)).1
  revert hsame
  decide

end

end Amdkfd.IhRing
