import Amdkfd.Lib.Bitmap
import Amdkfd.Lib.Run

/-!
# Kernel doorbells

`kfd_get_kernel_doorbell` and `kfd_release_kernel_doorbell`: the doorbells of kernel queues, in one
page of the doorbell aperture. A bit of a bitmap stands for a doorbell. It is turned into a pointer
by a fixed scaling and into a place on the BAR by one that depends on the size of a doorbell.

The bitmap has a bit for every dword of the page; the bits past it are the memory behind it.
-/

namespace Amdkfd.KernelDoorbell

open Lib List

/-! ## Model -/

def kfdMaxNumOfQueuesPerProcess : Nat := 1024

/-- `struct kfd_dev` with `PAGE_SIZE`: the size of a doorbell, where the page of kernel doorbells
is mapped, and where it is in the doorbell aperture. -/
structure Dev where
  pageSize : Nat
  doorbellSize : Nat
  doorbellKernelPtr : Nat
  dbBoOffset : BitVec 64
  doorbellSize_eq : doorbellSize = 4 ∨ doorbellSize = 8
  pageSize_ge : 4096 ≤ pageSize
  pageSize_dvd : 4096 ∣ pageSize
  /-- The page is allocated with the alignment of a page. -/
  aligned : pageSize ∣ dbBoOffset.toNat

/-- A doorbell that has been handed out: its pointer, its offset on the BAR in dwords, and the bit
that was taken for it. -/
structure Doorbell where
  ptr : Nat
  doorbellOff : Nat
  bit : Nat
  deriving DecidableEq

structure State where
  bitmap : Bitmap
  live : List Doorbell

def amdgpuDoorbellIndexOnBar (dbBoOffset : BitVec 64) (doorbellIndex dbSize : Nat) : Nat :=
  (((dbBoOffset.truncate 32).signExtend 64).toNat / 4 +
    doorbellIndex * ((dbSize + 4 - 1) / 4) % 2 ^ 32) % 2 ^ 32

/-- `inx`: the first clear bit. -/
def firstFree (d : Dev) (bitmap : Bitmap) : Nat := findNextZeroBit bitmap (d.pageSize / 4) 0

/-- `kfd_get_kernel_doorbell`: the bitmap, and the pointer with `doorbell_off`. The bit is set
before it is compared with the number of queues. -/
def kfdGetKernelDoorbell (d : Dev) (bitmap : Bitmap) : Bitmap × Option (Nat × Nat) :=
  let inx := firstFree d bitmap
  let bitmap := insert inx bitmap
  if kfdMaxNumOfQueuesPerProcess ≤ inx then (bitmap, none)
  else
    let doorbellOff := amdgpuDoorbellIndexOnBar d.dbBoOffset inx d.doorbellSize
    let inx := inx * 2
    (bitmap, some (d.doorbellKernelPtr + 4 * inx, doorbellOff))

def kfdReleaseKernelDoorbell (d : Dev) (bitmap : Bitmap) (dbAddr : Nat) : Bitmap :=
  let inx := (dbAddr - d.doorbellKernelPtr) / 4
  bitmap.erase (inx / 2)

/-- A call: one more doorbell, or the release of a live one. -/
inductive Op
  | get
  | release (i : Nat)
  deriving DecidableEq

def step (d : Dev) (s : State) : Op → State
  | .get =>
    match kfdGetKernelDoorbell d s.bitmap with
    | (bitmap, none) => { s with bitmap := bitmap }
    | (bitmap, some (ptr, doorbellOff)) =>
      ⟨bitmap, s.live ++ [⟨ptr, doorbellOff, firstFree d s.bitmap⟩]⟩
  | .release i =>
    match s.live[i]? with
    | none => s
    | some db => ⟨kfdReleaseKernelDoorbell d s.bitmap db.ptr, s.live.eraseIdx i⟩

/-- After `kfd_doorbell_init`. -/
def start : State := ⟨∅, []⟩

/-! ## What holds of the live doorbells -/

def PageFull (d : Dev) (s : State) : Prop :=
  ∀ k < d.pageSize / d.doorbellSize,
    ∃ db ∈ s.live, db.ptr = d.doorbellKernelPtr + k * d.doorbellSize

/-- Doorbells have pointers of their own in the page, pointer and offset name the same place of the
BAR, and a release frees the bit that was taken and nothing else. -/
structure Kept (d : Dev) (s : State) : Prop where
  distinct : (s.live.map Doorbell.ptr).Nodup
  inPage : ∀ db ∈ s.live, d.doorbellKernelPtr ≤ db.ptr ∧
    db.ptr + d.doorbellSize ≤ d.doorbellKernelPtr + d.pageSize
  onBar : ∀ db ∈ s.live, d.dbBoOffset.toNat + (db.ptr - d.doorbellKernelPtr) = 4 * db.doorbellOff
  release : ∀ db ∈ s.live, db.bit ∈ s.bitmap ∧
    kfdReleaseKernelDoorbell d s.bitmap db.ptr = s.bitmap.erase db.bit

/-- Bits of live doorbells are those of queues, they are set, each once, and no other bit of a queue
is. -/
structure Inv (d : Dev) (s : State) : Prop where
  nodup : (s.live.map Doorbell.bit).Nodup
  lt : ∀ db ∈ s.live, db.bit < kfdMaxNumOfQueuesPerProcess
  set : ∀ db ∈ s.live, db.bit ∈ s.bitmap
  owned : ∀ bit ∈ s.bitmap, bit < kfdMaxNumOfQueuesPerProcess → ∃ db ∈ s.live, db.bit = bit
  ptr : ∀ db ∈ s.live, db.ptr = d.doorbellKernelPtr + 4 * (db.bit * 2)

section
variable {d : Dev} {s : State}

theorem release_eq (bitmap : Bitmap) (bit : Nat) :
    kfdReleaseKernelDoorbell d bitmap (d.doorbellKernelPtr + 4 * (bit * 2)) = bitmap.erase bit := by
  have hbit : (d.doorbellKernelPtr + 4 * (bit * 2) - d.doorbellKernelPtr) / 4 / 2 = bit := by omega
  unfold kfdReleaseKernelDoorbell
  dsimp only
  rw [hbit]

/-- The doorbell that the next call hands out. -/
def nextDoorbell (d : Dev) (s : State) : Doorbell :=
  let inx := firstFree d s.bitmap
  ⟨d.doorbellKernelPtr + 4 * (inx * 2),
    amdgpuDoorbellIndexOnBar d.dbBoOffset inx d.doorbellSize, inx⟩

theorem get_cases (d : Dev) (s : State) :
    (kfdMaxNumOfQueuesPerProcess ≤ firstFree d s.bitmap ∧
      (kfdGetKernelDoorbell d s.bitmap).2 = none ∧
      step d s .get = { s with bitmap := insert (firstFree d s.bitmap) s.bitmap }) ∨
    (firstFree d s.bitmap < kfdMaxNumOfQueuesPerProcess ∧ firstFree d s.bitmap ∉ s.bitmap ∧
      (kfdGetKernelDoorbell d s.bitmap).2 ≠ none ∧
      step d s .get =
        ⟨insert (firstFree d s.bitmap) s.bitmap, s.live ++ [nextDoorbell d s]⟩) := by
  unfold step kfdGetKernelDoorbell
  dsimp only
  by_cases hge : kfdMaxNumOfQueuesPerProcess ≤ firstFree d s.bitmap
  · rw [if_pos hge]
    exact .inl ⟨hge, rfl, rfl⟩
  · have hlt : firstFree d s.bitmap < 1024 := Nat.lt_of_not_le hge
    have hsize := d.pageSize_ge
    have hclear : firstFree d s.bitmap < d.pageSize / 4 := by omega
    rw [if_neg hge]
    exact .inr ⟨hlt, findNextZeroBit_clear hclear, nofun, rfl⟩

theorem release_none {i : Nat} (hdb : s.live[i]? = none) : step d s (.release i) = s := by
  simp only [step, hdb]

theorem release_some {i : Nat} {db : Doorbell} (hdb : s.live[i]? = some db) :
    step d s (.release i) =
      ⟨kfdReleaseKernelDoorbell d s.bitmap db.ptr, s.live.eraseIdx i⟩ := by
  simp only [step, hdb]

theorem live_step {P : Doorbell → Prop} (h : ∀ db ∈ s.live, P db) {op : Op}
    (hnext : op = .get → firstFree d s.bitmap < kfdMaxNumOfQueuesPerProcess →
      P (nextDoorbell d s)) : ∀ db ∈ (step d s op).live, P db := by
  cases op with
  | get =>
    rcases get_cases d s with ⟨-, -, heq⟩ | ⟨hlt, -, -, heq⟩
    · rw [heq]
      exact h
    · rw [heq]
      intro db hdb
      rcases mem_append.mp hdb with hdb | hdb
      · exact h db hdb
      · obtain rfl := mem_singleton.mp hdb
        exact hnext rfl hlt
  | release i =>
    cases hdb : s.live[i]? with
    | none =>
      rw [release_none hdb]
      exact h
    | some db =>
      rw [release_some hdb]
      exact fun db' hdb' => h db' (mem_of_mem_eraseIdx hdb')

/-! ## Bits and pointers -/

theorem Inv.release_eq (h : Inv d s) {db : Doorbell} (hdb : db ∈ s.live) :
    kfdReleaseKernelDoorbell d s.bitmap db.ptr = s.bitmap.erase db.bit := by
  rw [h.ptr db hdb, KernelDoorbell.release_eq]

theorem Inv.bit_ne (h : Inv d s) {i : Nat} {db db' : Doorbell} (hdb : s.live[i]? = some db)
    (hmem : db' ∈ s.live.eraseIdx i) : db'.bit ≠ db.bit := by
  obtain ⟨hi, rfl⟩ := List.getElem?_eq_some_iff.mp hdb
  obtain ⟨j, hj, hne, rfl⟩ := mem_eraseIdx_iff_getElem.mp hmem
  have hi' : i < (s.live.map Doorbell.bit).length := by rwa [length_map]
  have hj' : j < (s.live.map Doorbell.bit).length := by rwa [length_map]
  intro heq
  have hmap : (s.live.map Doorbell.bit)[j] = (s.live.map Doorbell.bit)[i] := by
    rw [getElem_map, getElem_map, heq]
  exact hne (h.nodup.getElem_inj_iff.mp hmap)

theorem mem_eraseIdx_of_bit_ne {i : Nat} {db db' : Doorbell} (hdb : s.live[i]? = some db)
    (hmem : db' ∈ s.live) (hne : db'.bit ≠ db.bit) : db' ∈ s.live.eraseIdx i := by
  obtain ⟨hi, rfl⟩ := List.getElem?_eq_some_iff.mp hdb
  obtain ⟨j, hj, rfl⟩ := mem_iff_getElem.mp hmem
  refine mem_eraseIdx_iff_getElem.mpr ⟨j, hj, fun heq => ?_, rfl⟩
  subst heq
  exact hne rfl

theorem Inv.start : Inv d start :=
  ⟨nodup_nil, nofun, nofun, nofun, nofun⟩

theorem Inv.get (h : Inv d s) : Inv d (step d s .get) := by
  have hptr : ∀ db ∈ (step d s .get).live, db.ptr = d.doorbellKernelPtr + 4 * (db.bit * 2) :=
    live_step h.ptr fun _ _ => rfl
  have hbit : ∀ db ∈ (step d s .get).live, db.bit < kfdMaxNumOfQueuesPerProcess :=
    live_step h.lt fun _ hlt => hlt
  rcases get_cases d s with ⟨hge, -, heq⟩ | ⟨hlt, hfree, -, heq⟩
  · rw [heq]
    refine ⟨h.nodup, h.lt, fun db hdb => Finset.mem_insert_of_mem (h.set db hdb), ?_, h.ptr⟩
    intro bit hbit hlt
    rcases Finset.mem_insert.mp hbit with rfl | hbit
    · omega
    · exact h.owned bit hbit hlt
  · rw [heq] at hptr hbit ⊢
    refine ⟨?_, hbit, ?_, ?_, hptr⟩
    · rw [map_append, map_singleton]
      refine Nodup.append h.nodup (nodup_singleton _) fun bit hbit hnew => ?_
      obtain ⟨db, hdb, rfl⟩ := mem_map.mp hbit
      have hnew : db.bit = firstFree d s.bitmap := mem_singleton.mp hnew
      exact hfree (hnew ▸ h.set db hdb)
    · intro db hdb
      rcases mem_append.mp hdb with hdb | hdb
      · exact Finset.mem_insert_of_mem (h.set db hdb)
      · obtain rfl := mem_singleton.mp hdb
        exact Finset.mem_insert_self ..
    · intro bit hbit hlt'
      rcases Finset.mem_insert.mp hbit with rfl | hbit
      · exact ⟨nextDoorbell d s, mem_append_right _ (mem_singleton_self _), rfl⟩
      · obtain ⟨db, hdb, rfl⟩ := h.owned bit hbit hlt'
        exact ⟨db, mem_append_left _ hdb, rfl⟩

theorem Inv.release (h : Inv d s) (i : Nat) : Inv d (step d s (.release i)) := by
  cases hdb : s.live[i]? with
  | none =>
    rw [release_none hdb]
    exact h
  | some db =>
    rw [release_some hdb, h.release_eq (mem_of_getElem? hdb)]
    have hmem : ∀ db' ∈ s.live.eraseIdx i, db' ∈ s.live :=
      fun db' hdb' => mem_of_mem_eraseIdx hdb'
    refine ⟨?_, fun db' hdb' => h.lt db' (hmem _ hdb'), fun db' hdb' => ?_, fun bit hbit hlt => ?_,
      fun db' hdb' => h.ptr db' (hmem _ hdb')⟩
    · exact h.nodup.sublist ((eraseIdx_sublist ..).map _)
    · exact Finset.mem_erase.mpr ⟨h.bit_ne hdb hdb', h.set db' (hmem db' hdb')⟩
    · obtain ⟨hne, hbit⟩ := Finset.mem_erase.mp hbit
      obtain ⟨db', hdb', rfl⟩ := h.owned bit hbit hlt
      exact ⟨db', mem_eraseIdx_of_bit_ne hdb hdb' hne, rfl⟩

theorem Inv.step (h : Inv d s) (op : Op) : Inv d (step d s op) := by
  cases op with
  | get => exact h.get
  | release i => exact h.release i

/-- In every run, with both sizes and on any page. -/
theorem distinct_run (d : Dev) (ops : List Op) :
    let s := run (KernelDoorbell.step d) KernelDoorbell.start ops
    (s.live.map Doorbell.ptr).Nodup ∧ ∀ db ∈ s.live, db.bit ∈ s.bitmap ∧
      kfdReleaseKernelDoorbell d s.bitmap db.ptr = s.bitmap.erase db.bit := by
  intro s
  have h : Inv d s := run_inv (fun _ op h => h.step op) Inv.start ops
  refine ⟨List.Nodup.map_on (fun db hdb db' hdb' heq => ?_) (Nodup.of_map _ h.nodup),
    fun db hdb => ⟨h.set db hdb, h.release_eq hdb⟩⟩
  rw [h.ptr db hdb, h.ptr db' hdb'] at heq
  exact inj_on_of_nodup_map h.nodup hdb hdb' (by omega)

end

/-! ## When the doorbells are in the page -/

/-- The doorbell of a bit lies in the page and in the place on the BAR that its pointer names: the
page has room for it at the distance of 8 bytes, which is the size of a doorbell unless it is the
first one, and the page lies in the first 2 GiB of the aperture. -/
def BitOk (d : Dev) (bit : Nat) : Prop :=
  8 * bit + d.doorbellSize ≤ d.pageSize ∧ (bit = 0 ∨ d.doorbellSize = 8) ∧
    d.dbBoOffset.toNat < 2 ^ 31
  deriving Decidable

/-- The condition on a call for a doorbell: the first clear bit is that of a doorbell of the page,
or the bits of all queues are set and the page has no more doorbells. -/
def StepOk (d : Dev) (s : State) : Op → Prop
  | .get =>
    if firstFree d s.bitmap < kfdMaxNumOfQueuesPerProcess then BitOk d (firstFree d s.bitmap)
    else d.pageSize ≤ 8 * kfdMaxNumOfQueuesPerProcess
  | .release _ => True

structure Good (d : Dev) (s : State) : Prop extends Inv d s where
  bitOk : ∀ db ∈ s.live, BitOk d db.bit
  doorbellOff : ∀ db ∈ s.live,
    db.doorbellOff = amdgpuDoorbellIndexOnBar d.dbBoOffset db.bit d.doorbellSize

section
variable {d : Dev} {s : State}

theorem Good.start : Good d start := ⟨Inv.start, nofun, nofun⟩

theorem Good.step (h : Good d s) {op : Op} (hok : StepOk d s op) : Good d (step d s op) := by
  refine ⟨h.toInv.step op, live_step h.bitOk ?_, live_step h.doorbellOff fun _ _ => rfl⟩
  rintro rfl hlt
  unfold StepOk at hok
  rw [if_pos hlt] at hok
  exact hok

theorem indexOnBar_eq {bit : Nat} (hlt : bit < 2 ^ 29) (h : BitOk d bit) :
    4 * amdgpuDoorbellIndexOnBar d.dbBoOffset bit d.doorbellSize =
      d.dbBoOffset.toNat + 8 * bit := by
  obtain ⟨hfit, hscale, hoff⟩ := h
  have hdvd : 4 ∣ d.dbBoOffset.toNat :=
    Nat.dvd_trans (Nat.dvd_trans (by decide) d.pageSize_dvd) d.aligned
  have hcut : (d.dbBoOffset.truncate 32).toNat = d.dbBoOffset.toNat := by
    rw [BitVec.truncate_eq_setWidth, BitVec.toNat_setWidth, Nat.mod_eq_of_lt (by omega)]
  have hmsb : (d.dbBoOffset.truncate 32).msb = false := by
    rw [BitVec.msb_eq_decide, hcut]
    exact decide_eq_false (by omega)
  have hint : ((d.dbBoOffset.truncate 32).signExtend 64).toNat = d.dbBoOffset.toNat := by
    rw [BitVec.signExtend_eq_setWidth_of_msb_false hmsb, BitVec.toNat_setWidth, hcut,
      Nat.mod_eq_of_lt (by omega)]
  have hindex : bit * ((d.doorbellSize + 4 - 1) / 4) = 2 * bit := by
    rcases hscale with rfl | hsize
    · simp
    · rw [hsize]
      omega
  unfold amdgpuDoorbellIndexOnBar
  rw [hint, hindex]
  omega

theorem Good.kept (h : Good d s) : Kept d s := by
  have hplace : ∀ db ∈ s.live, db.ptr = d.doorbellKernelPtr + 8 * db.bit := by
    intro db hdb
    rw [h.ptr db hdb]
    omega
  refine ⟨?_, fun db hdb => ?_, fun db hdb => ?_, fun db hdb => ⟨h.set db hdb, h.release_eq hdb⟩⟩
  · refine List.Nodup.map_on (fun db hdb db' hdb' heq => ?_) (Nodup.of_map _ h.nodup)
    rw [hplace db hdb, hplace db' hdb'] at heq
    exact inj_on_of_nodup_map h.nodup hdb hdb' (by omega)
  · have hfit := (h.bitOk db hdb).1
    rw [hplace db hdb]
    omega
  · have hlt : db.bit < 1024 := h.lt db hdb
    rw [h.doorbellOff db hdb, indexOnBar_eq (by omega) (h.bitOk db hdb), hplace db hdb,
      Nat.add_sub_cancel_left]

theorem Good.pageFull (h : Good d s) (hok : StepOk d s .get)
    (hfail : (kfdGetKernelDoorbell d s.bitmap).2 = none) : PageFull d s := by
  rcases get_cases d s with ⟨hge, -, -⟩ | ⟨-, -, hsome, -⟩
  · have hroom := d.pageSize_ge
    have hlive : ∀ bit < 1024, ∃ db ∈ s.live, db.bit = bit := fun bit hbit =>
      h.owned bit
        (findNextZeroBit_set (Nat.zero_le _) (Nat.lt_of_lt_of_le hbit hge) (by omega)) hbit
    have hpage : d.pageSize ≤ 8 * 1024 := by
      unfold StepOk at hok
      rwa [if_neg (Nat.not_lt.mpr hge)] at hok
    -- The second doorbell has the distance of 8 bytes to the first.
    have hsize : d.doorbellSize = 8 := by
      obtain ⟨db, hdb, hbit⟩ := hlive 1 (by decide)
      exact (h.bitOk db hdb).2.1.resolve_left (by omega)
    intro k hk
    rw [hsize] at hk
    obtain ⟨db, hdb, rfl⟩ := hlive k (by omega)
    refine ⟨db, hdb, ?_⟩
    rw [h.ptr db hdb, hsize]
    omega
  · exact absurd hfail hsome

/-- Along a run whose steps meet the condition: doorbells with pointers of their own in the page, at
the place of the BAR that their offset names, releases that free the bit that was taken, and no
failure unless the page is full. -/
theorem kernel_doorbells (d : Dev) (ops : List Op)
    (hok : StepsOk (step d) (StepOk d) KernelDoorbell.start ops) (n : Nat) :
    let s := run (step d) KernelDoorbell.start (ops.take n)
    Kept d s ∧
      (ops[n]? = some .get → (kfdGetKernelDoorbell d s.bitmap).2 = none → PageFull d s) := by
  intro s
  rw [← take_append_drop n ops] at hok
  obtain ⟨hbefore, hafter⟩ := (stepsOk_append (step d)).mp hok
  have hgood : Good d s := run_inv_of_stepsOk (fun _ _ h hop => h.step hop) Good.start hbefore
  refine ⟨hgood.kept, fun hget hfail => hgood.pageFull ?_ hfail⟩
  obtain ⟨hn, hop⟩ := List.getElem?_eq_some_iff.mp hget
  rw [drop_eq_getElem_cons hn, hop] at hafter
  exact hafter.1

end

instance (d : Dev) (s : State) : ∀ op, Decidable (StepOk d s op)
  | .get => inferInstanceAs (Decidable (ite ..))
  | .release _ => isTrue trivial

/-- Pages of 4 KiB, the page of kernel doorbells behind that of the graphics driver. -/
def exDev (doorbellSize : Nat) (h : doorbellSize = 4 ∨ doorbellSize = 8) : Dev :=
  ⟨4096, doorbellSize, 0x1000000, 8192, h, by decide, by decide, by decide⟩

/-- Two doorbells of 8 bytes, and the first one again. -/
theorem kernel_doorbells_exDev :
    Kept (exDev 8 (.inr rfl))
      (run (step (exDev 8 (.inr rfl))) start [.get, .get, .release 0, .get]) :=
  (kernel_doorbells (exDev 8 (.inr rfl)) [.get, .get, .release 0, .get] (by decide) 4).1

/-- The second doorbell of 4 bytes is rung at the place of the third. -/
theorem kernel_doorbells_broken :
    ¬ ∀ (d : Dev) (ops : List Op), Kept d (run (step d) start ops) := by
  intro h
  have hbar := (h (exDev 4 (.inl rfl)) [.get, .get]).onBar ⟨0x1000008, 2049, 1⟩ (by decide)
  exact absurd hbar (by decide)

end Amdkfd.KernelDoorbell
