import Mathlib.Data.BitVec
import Amdkfd.Ttm.ResCursor

/-!
# CPU access to VRAM

`amdgpu_ttm_access_memory` copies what the aperture shows of a piece of a buffer object, and the
rest a word at a time with `amdgpu_device_mm_access`. In between it moves `buf`, and it moves it
again at the end of the piece.

The SDMA is not used, and the device is there. Where bytes of `buf` are read or written is followed
by the end of the last of them.
-/

namespace Amdkfd.Ttm

open Lib Option

/-! ## Model -/

/-- `aper_base_kaddr` is not `NULL`, and `visible_vram_size`. -/
structure Aperture where
  mapped : Bool
  visibleVramSize : Nat

structure Bytes where
  vram : Nat → BitVec 8
  buf : Nat → BitVec 8
  end_ : Nat

def word (f : Nat → BitVec 8) (a : Nat) : BitVec 32 := f (a + 3) ++ f (a + 2) ++ f (a + 1) ++ f a

/-- `n` bytes of a word are stored at an address. -/
def store (f : Nat → BitVec 8) (a n : Nat) (w : BitVec 32) : Nat → BitVec 8 :=
  fun x => if a ≤ x ∧ x < a + n then w.extractLsb' (8 * (x - a)) 8 else f x

def copy (f g : Nat → BitVec 8) (a b n : Nat) : Nat → BitVec 8 :=
  fun x => if a ≤ x ∧ x < a + n then g (b + (x - a)) else f x

/-- `memcpy_toio` or `memcpy_fromio` of `count` bytes between `pos` in VRAM and `buf + b`. -/
def Bytes.memcpy (m : Bytes) (pos b count : Nat) (write : Bool) : Bytes :=
  if write then { m with vram := copy m.vram m.buf pos b count, end_ := max m.end_ (b + count) }
  else { m with buf := copy m.buf m.vram b pos count, end_ := max m.end_ (b + count) }

/-- `count` of `amdgpu_device_aper_access`. -/
def aperCount (ap : Aperture) (pos size : Nat) : Nat :=
  if ap.mapped then min (pos + size) ap.visibleVramSize - pos else 0

def amdgpuDeviceAperAccess (ap : Aperture) (m : Bytes) (pos b size : Nat) (write : Bool) :
    Bytes × Nat :=
  let count := aperCount ap pos size
  (if 0 < count then m.memcpy pos b count write else m, count)

/-- The mask and the bytes of a word in `amdgpu_ttm_vram_mm_access`. -/
def mmMask (pos size : Nat) : BitVec 32 × Nat :=
  let bytes := 4 - pos % 4
  let ones : BitVec 32 := 0xffffffff
  let mask := ones <<< (8 * (pos % 4))
  if size < bytes then (mask &&& ones >>> (8 * (bytes - size)), size) else (mask, bytes)

/-- A round of `amdgpu_ttm_vram_mm_access`. A write reads a whole word of `buf`. -/
def mmWord (m : Bytes) (pos b size : Nat) (write : Bool) : Bytes :=
  let alignedPos := pos / 4 * 4
  let shift := 8 * (pos % 4)
  let (mask, bytes) := mmMask pos size
  let value := word m.vram alignedPos
  if mask ≠ 0xffffffff then
    if write then
      { m with
        vram := store m.vram alignedPos 4 (value &&& ~~~mask ||| word m.buf b <<< shift &&& mask)
        end_ := max m.end_ (b + 4) }
    else
      { m with
        buf := store m.buf b bytes ((value &&& mask) >>> shift), end_ := max m.end_ (b + bytes) }
  else if write then
    { m with vram := store m.vram alignedPos 4 (word m.buf b), end_ := max m.end_ (b + 4) }
  else { m with buf := store m.buf b 4 value, end_ := max m.end_ (b + 4) }

/-- The bytes that a round takes. -/
theorem mmMask_bytes (pos size : Nat) : (mmMask pos size).2 = min (4 - pos % 4) size := by
  unfold mmMask
  dsimp only
  split <;> dsimp only <;> omega

def amdgpuTtmVramMmAccess (m : Bytes) (pos b size : Nat) (write : Bool) : Bytes :=
  if size = 0 then m
  else
    let bytes := (mmMask pos size).2
    amdgpuTtmVramMmAccess (mmWord m pos b size write) (pos + bytes) (b + bytes) (size - bytes) write
termination_by size
decreasing_by
  rw [mmMask_bytes]
  omega

/-- The piece that the cursor is at, and where `buf` is left. -/
def accessPiece (ap : Aperture) (m : Bytes) (cursor : Cursor) (b : Nat) (write : Bool) :
    Bytes × Nat :=
  let (m, count) := amdgpuDeviceAperAccess ap m cursor.start b cursor.size write
  let size := cursor.size - count
  if size ≠ 0 then
    (amdgpuTtmVramMmAccess m (cursor.start + count) (b + count) size write, b + count)
  else (m, b)

/-- The loop of `amdgpu_ttm_access_memory`, for as many rounds as there are bytes. -/
def accessLoop (ap : Aperture) (write : Bool) : Nat → Bytes → Cursor → Nat → Nat → Bytes × Nat
  | 0, m, _, _, ret => (m, ret)
  | fuel + 1, m, cursor, b, ret =>
    if cursor.remaining = 0 then (m, ret)
    else
      let (m, b) := accessPiece ap m cursor b write
      accessLoop ap write fuel m (resNext cursor cursor.size) (b + cursor.size) (ret + cursor.size)

def amdgpuTtmAccessMemory (ap : Aperture) (blocks : List Extent) (offset len : Nat) (write : Bool)
    (m : Bytes) : Option (Bytes × Nat) :=
  (resFirst blocks offset len).map fun cursor => accessLoop ap write len m cursor 0 0

/-! ## What is to be shown -/

/-- The bytes from `pos` on of the blocks were copied, and those from `buf + b` on. -/
structure Copied (blocks : List Extent) (pos b len : Nat) (write : Bool) (m m' : Bytes) : Prop where
  vram : ∀ a, m'.vram a ≠ m.vram a →
    write = true ∧ ∃ i < len, Extent.locate blocks (pos + i) = some a
  buf : ∀ k, m'.buf k ≠ m.buf k → write = false ∧ b ≤ k ∧ k < b + len
  bytes : ∀ i < len, ∀ a, Extent.locate blocks (pos + i) = some a →
    if write = true then m'.vram a = m.buf (b + i) else m'.buf (b + i) = m.vram a

/-- The bytes of the buffer object are copied, and no byte behind those of `buf` is accessed. -/
def AccessRight (ap : Aperture) (blocks : List Extent) (offset len : Nat) (write : Bool)
    (vram buf : Nat → BitVec 8) : Prop :=
  ∃ m', amdgpuTtmAccessMemory ap blocks offset len write ⟨vram, buf, 0⟩ = some (m', len) ∧
    Copied blocks offset 0 len write ⟨vram, buf, 0⟩ m' ∧ m'.end_ ≤ len

/-- The words of a piece that are stored in part read no more of `buf` than there is, behind `b`. -/
def MmFits (len pos b size : Nat) : Prop :=
  (pos % 4 ≠ 0 → b + 4 ≤ len) ∧
    ((pos + size) % 4 ≠ 0 → (pos + size) % 4 ≤ size → b + size - (pos + size) % 4 + 4 ≤ len)

/-- Only the last piece of the walk is shown in part, and what is stored in part fits. -/
def WalkFits (ap : Aperture) (write : Bool) (len : Nat) : Nat → Cursor → Nat → Prop
  | 0, _, _ => True
  | fuel + 1, cursor, b =>
    0 < cursor.remaining →
      let count := aperCount ap cursor.start cursor.size
      (count = 0 ∨ count = cursor.size ∨ cursor.size = cursor.remaining) ∧
        (write = true → count ≠ cursor.size →
          MmFits len (cursor.start + count) (b + count) (cursor.size - count)) ∧
        WalkFits ap write len fuel (resNext cursor cursor.size) (b + cursor.size)

/-! ## Words -/

theorem extract_word {f : Nat → BitVec 8} {a j : Nat} (hj : j < 4) :
    (word f a).extractLsb' (8 * j) 8 = f (a + j) := by
  refine BitVec.eq_of_getLsbD_eq fun i hi => ?_
  unfold word
  simp only [BitVec.getLsbD_extractLsb', BitVec.getLsbD_append, hi, decide_true, Bool.true_and]
  rcases (by omega : j = 0 ∨ j = 1 ∨ j = 2 ∨ j = 3) with rfl | rfl | rfl | rfl <;>
    simp (disch := omega) only [if_pos, if_neg] <;> exact congrArg _ (by omega)

theorem mmMask_getLsbD {pos size k : Nat} (hk : k < 32) :
    (mmMask pos size).1.getLsbD k =
      decide (8 * (pos % 4) ≤ k ∧ k < 8 * (pos % 4 + (mmMask pos size).2)) := by
  have hones : (0xffffffff : BitVec 32) = BitVec.allOnes 32 := rfl
  have hpos := Nat.mod_lt pos (show 0 < 4 by decide)
  rw [mmMask_bytes]
  unfold mmMask
  dsimp only
  split
  · simp only [hones, BitVec.getLsbD_and, BitVec.getLsbD_shiftLeft, BitVec.getLsbD_ushiftRight,
      BitVec.getLsbD_allOnes, hk, decide_true, Bool.true_and]
    rw [Bool.eq_iff_iff]
    simp
    omega
  · simp only [hones, BitVec.getLsbD_shiftLeft, BitVec.getLsbD_allOnes, hk, decide_true,
      Bool.true_and]
    rw [Bool.eq_iff_iff]
    simp
    omega

/-- A byte of a word of which the bytes from `o` on are replaced. -/
theorem extract_masked {value w mask : BitVec 32} {o n j : Nat}
    (hmask : ∀ k < 32, mask.getLsbD k = decide (8 * o ≤ k ∧ k < 8 * (o + n))) (hj : j < 4) :
    (value &&& ~~~mask ||| w <<< (8 * o) &&& mask).extractLsb' (8 * j) 8 =
      if o ≤ j ∧ j < o + n then w.extractLsb' (8 * (j - o)) 8 else value.extractLsb' (8 * j) 8 := by
  refine BitVec.eq_of_getLsbD_eq fun i hi => ?_
  have hk : 8 * j + i < 32 := by omega
  simp only [BitVec.getLsbD_extractLsb', BitVec.getLsbD_or, BitVec.getLsbD_and, BitVec.getLsbD_not,
    BitVec.getLsbD_shiftLeft, hmask _ hk, hi, hk, decide_true, Bool.true_and]
  split
  · next hin =>
    have hlo : ¬8 * j + i < 8 * o := by omega
    have hsub : 8 * j + i - 8 * o = 8 * (j - o) + i := by omega
    have hmem : 8 * o ≤ 8 * j + i ∧ 8 * j + i < 8 * (o + n) := by omega
    simp [hlo, hsub, hmem, hi]
  · next hout =>
    have hmem : ¬(8 * o ≤ 8 * j + i ∧ 8 * j + i < 8 * (o + n)) := by omega
    simp [hmem, hi]

theorem extract_shifted {value mask : BitVec 32} {o n j : Nat}
    (hmask : ∀ k < 32, mask.getLsbD k = decide (8 * o ≤ k ∧ k < 8 * (o + n))) (hj : j < n)
    (hn : o + n ≤ 4) :
    ((value &&& mask) >>> (8 * o)).extractLsb' (8 * j) 8 = value.extractLsb' (8 * (o + j)) 8 := by
  refine BitVec.eq_of_getLsbD_eq fun i hi => ?_
  have hadd : 8 * o + (8 * j + i) = 8 * (o + j) + i := by omega
  have hmem : 8 * o ≤ 8 * (o + j) + i ∧ 8 * (o + j) + i < 8 * (o + n) := by omega
  simp [hi, hadd, hmask _ (show 8 * (o + j) + i < 32 by omega), hmem]

/-- A word copies its bytes. A word that is written in part reads all four bytes of `buf`. -/
theorem mmWord_eq (m : Bytes) (pos b size : Nat) (write : Bool) :
    mmWord m pos b size write =
      let bytes := (mmMask pos size).2
      { m.memcpy pos b bytes write with
        end_ := max m.end_ (b + if write = true then 4 else bytes) } := by
  have hmask := fun k hk => @mmMask_getLsbD pos size k hk
  have hbytes := mmMask_bytes pos size
  have hpos := Nat.mod_lt pos (show 0 < 4 by decide)
  unfold mmWord
  generalize mmMask pos size = x at hmask hbytes ⊢
  obtain ⟨mask, bytes⟩ := x
  dsimp only at hmask hbytes ⊢
  split
  · cases write with
    | true =>
      simp only [if_true, Bytes.memcpy, Bytes.mk.injEq, and_true]
      funext x
      unfold store copy
      by_cases hx : pos ≤ x ∧ x < pos + bytes
      · rw [if_pos (by omega), if_pos hx, extract_masked hmask (by omega), if_pos (by omega),
          extract_word (by omega)]
        congr 1
        omega
      · rw [if_neg hx]
        split
        · rw [extract_masked hmask (by omega), if_neg (by omega), extract_word (by omega)]
          congr 1
          omega
        · rfl
    | false =>
      simp only [Bool.false_eq_true, if_false, Bytes.memcpy, Bytes.mk.injEq, and_true, true_and]
      funext x
      unfold store copy
      refine ite_congr rfl (fun hx => ?_) fun _ => rfl
      rw [extract_shifted hmask (by omega) (by omega), extract_word (by omega)]
      congr 1
      omega
  · next hfull =>
    have hfull : mask = BitVec.allOnes 32 := not_not.mp hfull
    have hlow := hmask 0 (by decide)
    have hhigh := hmask 31 (by decide)
    rw [hfull, BitVec.getLsbD_allOnes, eq_comm] at hlow hhigh
    have hlow := of_decide_eq_true hlow
    have hhigh := of_decide_eq_true hhigh
    have haligned : pos / 4 * 4 = pos := by omega
    obtain rfl : bytes = 4 := by omega
    rw [haligned]
    cases write with
    | true =>
      simp only [if_true, Bytes.memcpy, Bytes.mk.injEq, and_true]
      funext x
      exact ite_congr rfl (fun hx => extract_word (by omega)) fun _ => rfl
    | false =>
      simp only [Bool.false_eq_true, if_false, Bytes.memcpy, Bytes.mk.injEq, and_true, true_and]
      funext x
      exact ite_congr rfl (fun hx => extract_word (by omega)) fun _ => rfl

theorem copy_add (f g : Nat → BitVec 8) (a b n k : Nat) :
    copy (copy f g a b n) g (a + n) (b + n) k = copy f g a b (n + k) := by
  funext x
  unfold copy
  by_cases hk : a + n ≤ x ∧ x < a + n + k
  · rw [if_pos hk, if_pos (by omega)]
    congr 1
    omega
  · rw [if_neg hk]
    exact if_congr (by omega) rfl rfl

theorem copy_zero (f g : Nat → BitVec 8) (a b : Nat) : copy f g a b 0 = f := by
  funext x
  exact if_neg (by omega)

/-- The bytes of VRAM and of `buf`, whatever was accessed of the latter. -/
def Bytes.Same (m m' : Bytes) : Prop := m.vram = m'.vram ∧ m.buf = m'.buf

theorem Bytes.Same.memcpy {m m' : Bytes} (h : m.Same m') (pos b n : Nat) (write : Bool) :
    (m.memcpy pos b n write).Same (m'.memcpy pos b n write) := by
  obtain ⟨hvram, hbuf⟩ := h
  cases write <;> exact ⟨by simp [Bytes.memcpy, hvram, hbuf], by simp [Bytes.memcpy, hvram, hbuf]⟩

theorem Bytes.memcpy_add (m : Bytes) (pos b n k : Nat) (write : Bool) :
    ((m.memcpy pos b n write).memcpy (pos + n) (b + n) k write).Same
      (m.memcpy pos b (n + k) write) := by
  cases write <;> simp [memcpy, Same, copy_add]

theorem Bytes.memcpy_zero (m : Bytes) (pos b : Nat) (write : Bool) :
    (m.memcpy pos b 0 write).Same m := by
  cases write <;> simp [memcpy, Same, copy_zero]

theorem Bytes.memcpy_end (m : Bytes) (pos b n : Nat) (write : Bool) :
    (m.memcpy pos b n write).end_ = max m.end_ (b + n) := by
  cases write <;> rfl

/-! ## A piece -/

theorem vramMmAccess_same (m : Bytes) (pos b size : Nat) (write : Bool) :
    (amdgpuTtmVramMmAccess m pos b size write).Same (m.memcpy pos b size write) := by
  fun_induction amdgpuTtmVramMmAccess m pos b size write with
  | case1 => exact ⟨(Bytes.memcpy_zero ..).1.symm, (Bytes.memcpy_zero ..).2.symm⟩
  | case2 m pos b size hne bytes ih =>
    have hle : bytes ≤ size := by
      have := mmMask_bytes pos size
      omega
    have hword : (mmWord m pos b size write).Same (m.memcpy pos b bytes write) := by
      rw [mmWord_eq]
      exact ⟨rfl, rfl⟩
    have hstep := hword.memcpy (pos + bytes) (b + bytes) (size - bytes) write
    have hadd := m.memcpy_add pos b bytes (size - bytes) write
    rw [Nat.add_sub_cancel' hle] at hadd
    exact ⟨ih.1.trans (hstep.1.trans hadd.1), ih.2.trans (hstep.2.trans hadd.2)⟩

theorem vramMmAccess_end_le {m : Bytes} {pos b size len : Nat} {write : Bool} (hsize : 0 < size) :
    (amdgpuTtmVramMmAccess m pos b size write).end_ ≤ len ↔
      m.end_ ≤ len ∧ b + size ≤ len ∧ (write = true → MmFits len pos b size) := by
  fun_induction amdgpuTtmVramMmAccess m pos b size write with
  | case1 => exact absurd hsize (lt_irrefl 0)
  | case2 m pos b size hne bytes ih =>
    have hbytes : bytes = min (4 - pos % 4) size := mmMask_bytes pos size
    have hword : (mmWord m pos b size write).end_ =
        max m.end_ (b + if write = true then 4 else bytes) := by
      rw [mmWord_eq]
    by_cases hlast : size - bytes = 0
    · unfold amdgpuTtmVramMmAccess
      rw [if_pos hlast, hword]
      unfold MmFits
      cases write <;> simp <;> omega
    · rw [ih (by omega), hword]
      unfold MmFits
      cases write <;> simp <;> omega

theorem aperCount_le (ap : Aperture) (pos size : Nat) : aperCount ap pos size ≤ size := by
  unfold aperCount
  split <;> omega

/-- A piece is copied, in whatever way. -/
theorem accessPiece_same (ap : Aperture) (m : Bytes) (cursor : Cursor) (b : Nat) (write : Bool) :
    (accessPiece ap m cursor b write).1.Same (m.memcpy cursor.start b cursor.size write) := by
  have hle := aperCount_le ap cursor.start cursor.size
  unfold accessPiece amdgpuDeviceAperAccess
  dsimp only
  generalize aperCount ap cursor.start cursor.size = count at hle ⊢
  have haper : (if 0 < count then m.memcpy cursor.start b count write else m).Same
      (m.memcpy cursor.start b count write) := by
    split
    · exact ⟨rfl, rfl⟩
    · obtain rfl : count = 0 := by omega
      exact ⟨(m.memcpy_zero ..).1.symm, (m.memcpy_zero ..).2.symm⟩
  by_cases hrest : cursor.size - count ≠ 0
  · rw [if_pos hrest]
    have hmm := vramMmAccess_same (if 0 < count then m.memcpy cursor.start b count write else m)
      (cursor.start + count) (b + count) (cursor.size - count) write
    have hstep := haper.memcpy (cursor.start + count) (b + count) (cursor.size - count) write
    have hadd := m.memcpy_add cursor.start b count (cursor.size - count) write
    rw [Nat.add_sub_cancel' hle] at hadd
    exact ⟨hmm.1.trans (hstep.1.trans hadd.1), hmm.2.trans (hstep.2.trans hadd.2)⟩
  · rw [if_neg hrest]
    obtain rfl : count = cursor.size := by omega
    exact haper

theorem accessPiece_end_le (ap : Aperture) (m : Bytes) {cursor : Cursor} (b : Nat) (write : Bool)
    {len : Nat} (hsize : 0 < cursor.size) :
    let count := aperCount ap cursor.start cursor.size
    (accessPiece ap m cursor b write).1.end_ ≤ len ↔
      m.end_ ≤ len ∧ b + cursor.size ≤ len ∧ (write = true → count ≠ cursor.size →
        MmFits len (cursor.start + count) (b + count) (cursor.size - count)) := by
  have hle := aperCount_le ap cursor.start cursor.size
  unfold accessPiece amdgpuDeviceAperAccess
  dsimp only
  generalize aperCount ap cursor.start cursor.size = count at hle ⊢
  have haper : (if 0 < count then m.memcpy cursor.start b count write else m).end_ =
      if 0 < count then max m.end_ (b + count) else m.end_ := by
    rw [apply_ite Bytes.end_, Bytes.memcpy_end]
  by_cases hrest : cursor.size - count ≠ 0
  · have hne : count ≠ cursor.size := by omega
    rw [if_pos hrest, vramMmAccess_end_le (Nat.pos_of_ne_zero hrest), haper]
    simp only [hne, not_false_eq_true, forall_const, ne_eq]
    refine Iff.trans (and_assoc.symm) (Iff.trans (and_congr_left fun _ => ?_) and_assoc)
    split <;> omega
  · obtain rfl : count = cursor.size := by omega
    rw [if_neg hrest, haper, if_pos hsize, max_le_iff]
    simp

theorem accessPiece_snd (ap : Aperture) (m : Bytes) (cursor : Cursor) (b : Nat) (write : Bool) :
    let count := aperCount ap cursor.start cursor.size
    (accessPiece ap m cursor b write).2 = if count = cursor.size then b else b + count := by
  have hle := aperCount_le ap cursor.start cursor.size
  unfold accessPiece amdgpuDeviceAperAccess
  dsimp only
  generalize aperCount ap cursor.start cursor.size = count at hle ⊢
  by_cases hfull : count = cursor.size
  · rw [if_pos hfull, if_neg (by omega)]
  · rw [if_neg hfull, if_pos (by omega)]

/-! ## The walk -/

theorem Copied.of_memcpy {blocks : List Extent} {pos b size start : Nat} {write : Bool}
    {m m' : Bytes} (hloc : ∀ i < size, Extent.locate blocks (pos + i) = some (start + i))
    (hsame : m'.Same (m.memcpy start b size write)) : Copied blocks pos b size write m m' := by
  obtain ⟨hvram, hbuf⟩ := hsame
  cases write with
  | true =>
    have hbuf : m'.buf = m.buf := hbuf
    have hvram : m'.vram = copy m.vram m.buf start b size := hvram
    refine ⟨fun a ha => ⟨rfl, ?_⟩, fun k hk => absurd (congrFun hbuf k) hk, fun i hi a ha => ?_⟩
    · rw [hvram] at ha
      have hin : start ≤ a ∧ a < start + size := by_contra fun h => ha (if_neg h)
      exact ⟨a - start, by omega, (hloc _ (by omega)).trans (congrArg some (by omega))⟩
    · obtain rfl := some.inj ((hloc i hi).symm.trans ha)
      rw [if_pos rfl, hvram]
      exact (if_pos (by omega)).trans (congrArg m.buf (by omega))
  | false =>
    have hvram : m'.vram = m.vram := hvram
    have hbuf : m'.buf = copy m.buf m.vram b start size := hbuf
    refine ⟨fun a ha => absurd (congrFun hvram a) ha, fun k hk => ⟨rfl, ?_⟩, fun i hi a ha => ?_⟩
    · rw [hbuf] at hk
      exact by_contra fun h => hk (if_neg h)
    · obtain rfl := some.inj ((hloc i hi).symm.trans ha)
      rw [if_neg Bool.false_ne_true, hbuf]
      exact (if_pos (by omega)).trans (congrArg m.vram (by omega))

theorem Copied.refl {blocks : List Extent} {pos b : Nat} {write : Bool} (m : Bytes) :
    Copied blocks pos b 0 write m m :=
  ⟨fun _ h => absurd rfl h, fun _ h => absurd rfl h, fun _ h => absurd h (Nat.not_lt_zero _)⟩

theorem Copied.trans {blocks : List Extent} (hapart : blocks.Pairwise Extent.Apart)
    {pos b n k : Nat} {write : Bool} {m m1 m2 : Bytes} (h1 : Copied blocks pos b n write m m1)
    (h2 : Copied blocks (pos + n) (b + n) k write m1 m2) :
    Copied blocks pos b (n + k) write m m2 := by
  refine ⟨fun a ha => ?_, fun i hi => ?_, fun i hi a ha => ?_⟩
  · by_cases h : m1.vram a = m.vram a
    · obtain ⟨hwrite, i, hi, hloc⟩ := h2.vram a (h ▸ ha)
      exact ⟨hwrite, n + i, by omega, by rwa [← add_assoc]⟩
    · obtain ⟨hwrite, i, hi, hloc⟩ := h1.vram a h
      exact ⟨hwrite, i, by omega, hloc⟩
  · by_cases h : m1.buf i = m.buf i
    · have := h2.buf i (h ▸ hi)
      exact ⟨this.1, by omega, by omega⟩
    · have := h1.buf i h
      exact ⟨this.1, by omega, by omega⟩
  · rcases lt_or_ge i n with hlt | hge
    · -- what the rest of the walk changes is elsewhere
      have hvram : m2.vram a = m1.vram a := by
        by_contra h
        obtain ⟨-, j, -, hj⟩ := h2.vram a h
        have := Extent.locate_inj hapart ha hj
        omega
      have hbuf : m2.buf (b + i) = m1.buf (b + i) := by
        by_contra h
        have := h2.buf _ h
        omega
      rw [hvram, hbuf]
      exact h1.bytes i hlt a ha
    · have hbytes := h2.bytes (i - n) (by omega) a
        (by rwa [show pos + n + (i - n) = pos + i by omega])
      rw [show b + n + (i - n) = b + i by omega] at hbytes
      have hvram (hwrite : write = false) : m1.vram a = m.vram a := by
        by_contra h
        exact absurd (h1.vram a h).1 (by simp [hwrite])
      have hbuf (hwrite : write = true) : m1.buf (b + i) = m.buf (b + i) := by
        by_contra h
        exact absurd (h1.buf _ h).1 (by simp [hwrite])
      cases write with
      | true => exact hbytes.trans (hbuf rfl)
      | false => exact hbytes.trans (hvram rfl)

variable {ap : Aperture} {write : Bool} {blocks : List Extent} {cursor : Cursor}
  {fuel pos remaining len : Nat}

theorem accessLoop_done (m : Bytes) (b ret : Nat) (h : cursor.remaining = 0) :
    accessLoop ap write fuel m cursor b ret = (m, ret) := by
  cases fuel with
  | zero => rfl
  | succ fuel => exact if_pos h

theorem accessLoop_succ (m : Bytes) (b ret : Nat) (h : cursor.remaining ≠ 0) :
    accessLoop ap write (fuel + 1) m cursor b ret =
      accessLoop ap write fuel (accessPiece ap m cursor b write).1 (resNext cursor cursor.size)
        ((accessPiece ap m cursor b write).2 + cursor.size) (ret + cursor.size) :=
  if_neg h

/-- What is left of the walk is behind `b`, wherever that is. -/
theorem le_accessLoop_end (m : Bytes) (b ret : Nat) (hat : cursor.At blocks pos remaining)
    (hfuel : remaining ≤ fuel) (hrem : 0 < remaining) :
    b + remaining ≤ (accessLoop ap write fuel m cursor b ret).1.end_ := by
  induction fuel generalizing m cursor b ret pos remaining with
  | zero => omega
  | succ fuel ih =>
    have hle := hat.size_le hrem
    have hpos := hat.size_pos hrem
    have hnext := hat.next (le_refl _) hle
    rw [accessLoop_succ _ _ _ (by rw [hat.remaining_eq]; omega)]
    rcases Nat.eq_zero_or_pos (remaining - cursor.size) with hlast | hmore
    · rw [accessLoop_done _ _ _ (hnext.remaining_eq.trans hlast)]
      have := ((accessPiece_end_le ap m b write hpos).mp (le_refl _)).2.1
      show b + remaining ≤ (accessPiece ap m cursor b write).1.end_
      omega
    · refine le_trans ?_ (ih _ _ _ hnext (by omega) hmore)
      rw [accessPiece_snd]
      split <;> omega

/-- The loop takes every byte. A piece before the last one that is shown in part moves `buf` too
far, so that the rest of the walk does not fit. -/
theorem accessLoop_end_le (m : Bytes) (b ret : Nat) (hat : cursor.At blocks pos remaining)
    (hfuel : remaining ≤ fuel) (hlen : 0 < remaining → b + remaining = len) :
    (accessLoop ap write fuel m cursor b ret).1.end_ ≤ len ↔
      m.end_ ≤ len ∧ WalkFits ap write len fuel cursor b := by
  induction fuel generalizing m cursor b ret pos remaining with
  | zero => exact (and_iff_left trivial).symm
  | succ fuel ih =>
    rcases Nat.eq_zero_or_pos remaining with rfl | hrem
    · rw [accessLoop_done _ _ _ hat.remaining_eq]
      exact (and_iff_left fun h => absurd hat.remaining_eq h.ne').symm
    have hlen := hlen hrem
    have hle := hat.size_le hrem
    have hpos := hat.size_pos hrem
    have hnext := hat.next (le_refl _) hle
    have hrest : cursor.remaining = remaining := hat.remaining_eq
    have hcount := aperCount_le ap cursor.start cursor.size
    have hpiece := @accessPiece_end_le ap m cursor b write len hpos
    have hb := accessPiece_snd ap m cursor b write
    rw [accessLoop_succ _ _ _ (by omega)]
    unfold WalkFits
    dsimp only at hpiece hb ⊢
    rw [hrest]
    generalize aperCount ap cursor.start cursor.size = count at hcount hpiece hb ⊢
    by_cases hmiss : count = 0 ∨ count = cursor.size ∨ cursor.size = remaining
    · -- the walk goes on where the piece ends, or ends
      have hgo : (accessPiece ap m cursor b write).2 + cursor.size = b + cursor.size ∨
          remaining - cursor.size = 0 := by
        rw [hb]
        split <;> omega
      have hih := ih (accessPiece ap m cursor b write).1 (b + cursor.size) (ret + cursor.size)
        hnext (by omega) (by omega)
      have hsame : (accessLoop ap write fuel (accessPiece ap m cursor b write).1
          (resNext cursor cursor.size) ((accessPiece ap m cursor b write).2 + cursor.size)
          (ret + cursor.size)).1 = (accessLoop ap write fuel (accessPiece ap m cursor b write).1
          (resNext cursor cursor.size) (b + cursor.size) (ret + cursor.size)).1 := by
        rcases hgo with hgo | hlast
        · rw [hgo]
        · rw [accessLoop_done _ _ _ (hnext.remaining_eq.trans hlast),
            accessLoop_done _ _ _ (hnext.remaining_eq.trans hlast)]
      have hfit : b + cursor.size ≤ len := by omega
      rw [hsame, hih, hpiece]
      constructor
      · rintro ⟨⟨hm, -, hmm⟩, hwalk⟩
        exact ⟨hm, fun _ => ⟨hmiss, hmm, hwalk⟩⟩
      · rintro ⟨hm, hall⟩
        obtain ⟨-, hmm, hwalk⟩ := hall hrem
        exact ⟨⟨hm, hfit, hmm⟩, hwalk⟩
    · -- the rest of the walk ends behind `len`
      have hb' : (accessPiece ap m cursor b write).2 = b + count := by
        rw [hb, if_neg (by tauto)]
      have hfuel : remaining - cursor.size ≤ fuel := by omega
      have hend := @le_accessLoop_end ap write _ _ _ _ _ (accessPiece ap m cursor b write).1
        (b + count + cursor.size) (ret + cursor.size) hnext hfuel (by omega)
      rw [hb']
      refine iff_of_false (fun h => ?_) fun h => hmiss (h.2 hrem).1
      omega

theorem accessLoop_copied (m : Bytes) (b ret : Nat) (hapart : blocks.Pairwise Extent.Apart)
    (hat : cursor.At blocks pos remaining) (hfuel : remaining ≤ fuel)
    (hfits : WalkFits ap write len fuel cursor b) :
    Copied blocks pos b remaining write m (accessLoop ap write fuel m cursor b ret).1 ∧
      (accessLoop ap write fuel m cursor b ret).2 = ret + remaining := by
  induction fuel generalizing m cursor b ret pos remaining with
  | zero =>
    obtain rfl := Nat.le_zero.mp hfuel
    exact ⟨.refl m, rfl⟩
  | succ fuel ih =>
    rcases Nat.eq_zero_or_pos remaining with rfl | hrem
    · rw [accessLoop_done _ _ _ hat.remaining_eq]
      exact ⟨.refl m, rfl⟩
    have hle := hat.size_le hrem
    have hpos := hat.size_pos hrem
    have hnext := hat.next (le_refl _) hle
    have hb := accessPiece_snd ap m cursor b write
    have hpiece := Copied.of_memcpy (fun i hi => hat.locate hrem hi)
      (accessPiece_same ap m cursor b write)
    obtain ⟨hmiss, -, hrest⟩ := hfits (by rwa [hat.remaining_eq])
    rw [accessLoop_succ _ _ _ (by rw [hat.remaining_eq]; omega)]
    rw [hat.remaining_eq] at hmiss
    dsimp only at hb
    generalize aperCount ap cursor.start cursor.size = count at hmiss hb
    rcases Nat.eq_zero_or_pos (remaining - cursor.size) with hlast | hmore
    · obtain rfl : cursor.size = remaining := by omega
      rw [accessLoop_done _ _ _ (hnext.remaining_eq.trans hlast)]
      exact ⟨hpiece, rfl⟩
    · have hgo : (accessPiece ap m cursor b write).2 = b := by
        rw [hb]
        split <;> omega
      obtain ⟨hcopied, hret⟩ := ih (accessPiece ap m cursor b write).1 (b + cursor.size)
        (ret + cursor.size) hnext (by omega) hrest
      rw [hgo]
      refine ⟨?_, by omega⟩
      have := hpiece.trans hapart hcopied
      rwa [Nat.add_sub_cancel' hle] at this

/-! ## The result -/

theorem AccessRight.walkFits {vram buf : Nat → BitVec 8} {offset : Nat}
    (h : AccessRight ap blocks offset len write vram buf)
    (hcursor : resFirst blocks offset len = some cursor) (hat : cursor.At blocks offset len) :
    WalkFits ap write len len cursor 0 := by
  obtain ⟨m', hm', -, hle⟩ := h
  unfold amdgpuTtmAccessMemory at hm'
  rw [hcursor] at hm'
  refine ((accessLoop_end_le ⟨vram, buf, 0⟩ 0 0 hat (le_refl len)
    fun _ => zero_add len).mp ?_).2
  rw [show accessLoop ap write len _ cursor 0 0 = (m', len) from some.inj hm']
  exact hle

/-- The bytes are copied, and no other byte is accessed, exactly when only the last piece is shown
in part by the aperture and the words that are written in part do not read behind `buf`. -/
theorem accessMemory_right_iff (ap : Aperture) (write : Bool) (vram buf : Nat → BitVec 8)
    {blocks : List Extent} {offset len : Nat} (hpos : ∀ block ∈ blocks, 0 < block.size)
    (hapart : blocks.Pairwise Extent.Apart) (hoffset : offset < Extent.total blocks)
    (hlen : offset + len ≤ Extent.total blocks) :
    AccessRight ap blocks offset len write vram buf ↔
      ∃ cursor, resFirst blocks offset len = some cursor ∧ WalkFits ap write len len cursor 0 := by
  obtain ⟨cursor, hcursor, hat⟩ := resFirst_at hpos hoffset hlen
  constructor
  · exact fun h => ⟨cursor, hcursor, h.walkFits hcursor hat⟩
  · rintro ⟨_, hsome, hfits⟩
    obtain rfl := some.inj (hcursor.symm.trans hsome)
    obtain ⟨hcopied, hret⟩ := accessLoop_copied ⟨vram, buf, 0⟩ 0 0 hapart hat (le_refl len) hfits
    have hend := (accessLoop_end_le ⟨vram, buf, 0⟩ 0 0 hat (le_refl len)
      fun _ => zero_add len).mpr ⟨Nat.zero_le len, hfits⟩
    refine ⟨_, ?_, hcopied, hend⟩
    unfold amdgpuTtmAccessMemory
    rw [hcursor]
    exact congrArg some (Prod.ext rfl (hret.trans (zero_add len)))

def exAperture : Aperture := ⟨true, 4096⟩

/-- The aperture ends in the middle of the first block. -/
def exBlocks : List Extent := [⟨0, 8192⟩, ⟨16384, 8192⟩]

theorem accessMemory_right_exBlocks :
    AccessRight exAperture exBlocks 8192 4096 true (fun _ => 0) (fun _ => 1) ↔
      ∃ cursor, resFirst exBlocks 8192 4096 = some cursor ∧
        WalkFits exAperture true 4096 4096 cursor 0 :=
  accessMemory_right_iff exAperture true _ _ (by decide) (by decide) (by decide) (by decide)

/-- The second block is read to byte 12288 of `buf`, and its last 4096 bytes behind it. -/
theorem accessMemory_not_right :
    ¬ AccessRight exAperture exBlocks 0 16384 false (fun _ => 0) (fun _ => 1) := by
  intro h
  obtain ⟨cursor, hcursor, hat⟩ :
      ∃ cur, resFirst exBlocks 0 16384 = some cur ∧ cur.At exBlocks 0 16384 :=
    resFirst_at (by decide) (by decide) (by decide)
  have hwalk := h.walkFits hcursor hat
  obtain rfl : _ = cursor := some.inj hcursor
  exact absurd (hwalk (by decide)).1 (by decide)

end Amdkfd.Ttm
