import Amdkfd.Basic
import Amdkfd.Lib.Run
import Amdkfd.Lib.Bitmap
import Mathlib.Tactic.Ring

/-!
# The GTT sub-allocator

`kfd_gtt_sa_init`, `kfd_gtt_sa_allocate` and `kfd_gtt_sa_free` of
`kfd_device.c`. A buffer is cut into chunks of equal size, a bitmap has one bit
for each chunk, and an allocation takes the first run of free chunks that is
long enough. The search is a `goto`-based restart: a candidate run is extended
one chunk at a time, and a chunk in use restarts the search behind it.
-/

namespace Amdkfd.GttSubAllocator

open Lib List Option

/-! ## Model -/

/-- The sub-allocator's fields of `struct kfd_dev`. `kfd_gtt_sa_init` refuses a
chunk size of zero. -/
structure GttSa where
  gttStartGpuAddr : Nat
  gttStartCpuPtr : Nat
  gttSaChunkSize : Nat
  gttSaNumOfChunks : Nat
  gttSaBitmap : Bitmap
  chunk_pos : 0 < gttSaChunkSize

structure KfdMemObj where
  rangeStart : Nat
  rangeEnd : Nat
  gpuAddr : Nat
  cpuPtr : Nat
  deriving DecidableEq, Repr

/-- `kfd_gtt_sa_init`; `bitmapZalloc` says whether the bitmap could be
allocated. -/
def kfdGttSaInit (gttStartGpuAddr gttStartCpuPtr bufSize chunkSize : Nat) (bitmapZalloc : Bool) :
    Except Errno GttSa :=
  if bufSize < chunkSize then .error .einval
  else if bufSize = 0 then .error .einval
  else if h : chunkSize = 0 then .error .einval
  else if bitmapZalloc = false then .error .enomem
  else .ok
    { gttStartGpuAddr := gttStartGpuAddr
      gttStartCpuPtr := gttStartCpuPtr
      gttSaChunkSize := chunkSize
      gttSaNumOfChunks := bufSize / chunkSize
      gttSaBitmap := ∅
      chunk_pos := Nat.pos_of_ne_zero h }

/-- How the inner loop of `kfd_gtt_sa_allocate` leaves a candidate run: back to
`kfd_gtt_restart_search` with a new `start_search`, to `kfd_gtt_no_free_chunk`,
or with the last chunk of a complete run. -/
inductive Extension
  | restart (startSearch : Nat)
  | noFreeChunk
  | done (rangeEnd : Nat)
  deriving DecidableEq, Repr

/-- The `do .. while (cur_size > 0)` loop: extend the run that ends at `found`
by `curSize` more bytes. -/
def extendRun (kfd : GttSa) (found curSize : Nat) : Extension :=
  let rangeEnd := findNextZeroBit kfd.gttSaBitmap kfd.gttSaNumOfChunks (found + 1)
  if rangeEnd ≠ found + 1 then .restart (found + 1)
  else if found + 1 = kfd.gttSaNumOfChunks then .noFreeChunk
  else if curSize ≤ kfd.gttSaChunkSize then .done rangeEnd
  else extendRun kfd (found + 1) (curSize - kfd.gttSaChunkSize)
termination_by curSize
decreasing_by
  have := kfd.chunk_pos
  omega

/-- The search from `kfd_gtt_restart_search` on. The outer `none` is a search
that ran out of fuel, the inner one is `kfd_gtt_no_free_chunk`. -/
def searchRun (kfd : GttSa) (size : Nat) : Nat → Nat → Option (Option (Nat × Nat))
  | 0, _ => none
  | fuel + 1, startSearch =>
    let found := findNextZeroBit kfd.gttSaBitmap kfd.gttSaNumOfChunks startSearch
    if found = kfd.gttSaNumOfChunks then some none
    else if size ≤ kfd.gttSaChunkSize then some (some (found, found))
    else
      match extendRun kfd found (size - kfd.gttSaChunkSize) with
      | .restart startSearch => searchRun kfd size fuel startSearch
      | .noFreeChunk => some none
      | .done rangeEnd => some (some (found, rangeEnd))

def searchFuel (kfd : GttSa) : Nat := kfd.gttSaNumOfChunks + 1

def kfdGttSaCalcAddr (startAddr bitNum chunkSize : Nat) : Nat :=
  startAddr + bitNum * chunkSize

/-- The object that describes the run `[found, rangeEnd]`. -/
def memObj (kfd : GttSa) (found rangeEnd : Nat) : KfdMemObj :=
  { rangeStart := found
    rangeEnd := rangeEnd
    gpuAddr := kfdGttSaCalcAddr kfd.gttStartGpuAddr found kfd.gttSaChunkSize
    cpuPtr := kfdGttSaCalcAddr kfd.gttStartCpuPtr found kfd.gttSaChunkSize }

/-- Mark the run `[rangeStart, rangeEnd]` of `obj` as allocated. -/
def markAllocated (kfd : GttSa) (obj : KfdMemObj) : GttSa :=
  { kfd with
    gttSaBitmap := bitmapSet kfd.gttSaBitmap obj.rangeStart (obj.rangeEnd - obj.rangeStart + 1) }

/-- `kfd_gtt_sa_allocate`; `kzalloc` says whether the `kfd_mem_obj` could be
allocated. -/
def kfdGttSaAllocate (kfd : GttSa) (kzalloc : Bool) (size : Nat) : GttSa × Except Errno KfdMemObj :=
  if size = 0 then (kfd, .error .einval)
  else if kfd.gttSaNumOfChunks * kfd.gttSaChunkSize < size then (kfd, .error .enomem)
  else if kzalloc = false then (kfd, .error .enomem)
  else
    match searchRun kfd size (searchFuel kfd) 0 with
    | some (some (found, rangeEnd)) =>
      (markAllocated kfd (memObj kfd found rangeEnd), .ok (memObj kfd found rangeEnd))
    | _ => (kfd, .error .enomem)

/-- `kfd_gtt_sa_free`, which acts like `kfree` on a null pointer. -/
def kfdGttSaFree (kfd : GttSa) : Option KfdMemObj → GttSa
  | none => kfd
  | some obj =>
    { kfd with
      gttSaBitmap :=
        bitmapClear kfd.gttSaBitmap obj.rangeStart (obj.rangeEnd - obj.rangeStart + 1) }

/-- The allocator with the objects its callers hold, each with the size it was
allocated for. -/
structure State where
  kfd : GttSa
  live : List (Nat × KfdMemObj)

/-- A call: an allocation, the free of the `i`-th live object, or the free of a
null pointer. -/
inductive Op
  | allocate (size : Nat) (kzalloc : Bool)
  | free (i : Nat)
  | freeNull
  deriving Repr

def step (s : State) : Op → State
  | .allocate size kzalloc =>
    match kfdGttSaAllocate s.kfd kzalloc size with
    | (kfd, .ok obj) => { kfd := kfd, live := (size, obj) :: s.live }
    | (kfd, .error _) => { s with kfd := kfd }
  | .free i =>
    match s.live[i]? with
    | some (_, obj) => { kfd := kfdGttSaFree s.kfd (some obj), live := s.live.eraseIdx i }
    | none => s
  | .freeNull => { s with kfd := kfdGttSaFree s.kfd none }

/-! ## Specification -/

/-- The number of chunks an allocation of `size` bytes needs: `size / chunk`,
rounded up. -/
def chunksFor (kfd : GttSa) (size : Nat) : Nat :=
  (size + kfd.gttSaChunkSize - 1) / kfd.gttSaChunkSize

/-- The `n` chunks from `a` on are inside the buffer and free. -/
def FreeRun (kfd : GttSa) (a n : Nat) : Prop :=
  a + n ≤ kfd.gttSaNumOfChunks ∧ ∀ i, a ≤ i → i < a + n → i ∉ kfd.gttSaBitmap

/-- The chunk `i` belongs to `obj`. -/
def KfdMemObj.Owns (obj : KfdMemObj) (i : Nat) : Prop :=
  obj.rangeStart ≤ i ∧ i ≤ obj.rangeEnd

/-- Every live object is a run of the chunks its size needs, inside the buffer;
no chunk has two owners; the set bits are the owned chunks. -/
structure Inv (s : State) : Prop where
  shape : ∀ p ∈ s.live, p.2.rangeEnd < s.kfd.gttSaNumOfChunks ∧
    p.2.rangeStart + chunksFor s.kfd p.1 = p.2.rangeEnd + 1 ∧ p.2.rangeStart ≤ p.2.rangeEnd
  disjoint : s.live.Pairwise fun p q => ∀ i, p.2.Owns i → ¬ q.2.Owns i
  bits : ∀ i, i ∈ s.kfd.gttSaBitmap ↔ ∃ p ∈ s.live, p.2.Owns i

/-! ## The search -/

variable {size : Nat} {kfd : GttSa}

theorem chunksFor_pos (kfd : GttSa) (h0 : 0 < size) : 0 < chunksFor kfd size :=
  Nat.div_pos (by have := kfd.chunk_pos; omega) kfd.chunk_pos

theorem chunksFor_one (h0 : 0 < size) (h : size ≤ kfd.gttSaChunkSize) : chunksFor kfd size = 1 := by
  unfold chunksFor
  exact Nat.div_eq_of_lt_le (by omega) (by omega)

theorem chunksFor_succ (h : kfd.gttSaChunkSize < size) :
    chunksFor kfd size = chunksFor kfd (size - kfd.gttSaChunkSize) + 1 := by
  unfold chunksFor
  have hp := kfd.chunk_pos
  rw [← Nat.add_div_right _ hp]
  congr 1
  omega

theorem extendRun_spec (kfd : GttSa) (found curSize : Nat) (h0 : 0 < curSize)
    (hfound : found < kfd.gttSaNumOfChunks) :
    match extendRun kfd found curSize with
    | .restart s => found < s ∧ s ≤ found + chunksFor kfd curSize ∧
        s < kfd.gttSaNumOfChunks ∧ s ∈ kfd.gttSaBitmap
    | .noFreeChunk => kfd.gttSaNumOfChunks ≤ found + chunksFor kfd curSize
    | .done e => e = found + chunksFor kfd curSize ∧ e < kfd.gttSaNumOfChunks ∧
        ∀ i, found < i → i ≤ e → i ∉ kfd.gttSaBitmap := by
  induction found, curSize using extendRun.induct kfd with
  | case1 found curSize rangeEnd hne =>
    rw [extendRun, if_pos hne]
    have hge : found + 1 ≤ rangeEnd := findNextZeroBit_ge hfound
    have hle : rangeEnd ≤ kfd.gttSaNumOfChunks := findNextZeroBit_le
    have hlt : found + 1 < kfd.gttSaNumOfChunks := by omega
    have hpos := chunksFor_pos kfd h0
    exact ⟨by omega, by omega, hlt, findNextZeroBit_set le_rfl (by omega) hlt⟩
  | case2 found curSize rangeEnd heq hend =>
    rw [extendRun, if_neg heq, if_pos hend]
    have hpos := chunksFor_pos kfd h0
    show kfd.gttSaNumOfChunks ≤ found + chunksFor kfd curSize
    omega
  | case3 found curSize rangeEnd heq hend hlast =>
    rw [extendRun, if_neg heq, if_neg hend, if_pos hlast]
    have hre : rangeEnd = found + 1 := by omega
    have hlt : rangeEnd < kfd.gttSaNumOfChunks := by omega
    refine ⟨by rw [chunksFor_one h0 hlast]; exact hre, hlt, fun i hi hie => ?_⟩
    obtain rfl : i = rangeEnd := by omega
    exact findNextZeroBit_clear hlt
  | case4 found curSize rangeEnd heq hend hmore ih =>
    have hre : rangeEnd = found + 1 := by omega
    have hlt : rangeEnd < kfd.gttSaNumOfChunks := by omega
    have hfree : rangeEnd ∉ kfd.gttSaBitmap := findNextZeroBit_clear hlt
    have hchunks := chunksFor_succ (Nat.lt_of_not_le hmore)
    have ih := ih (by omega) (by omega)
    rw [extendRun, if_neg heq, if_neg hend, if_neg hmore]
    revert ih
    cases extendRun kfd (found + 1) (curSize - kfd.gttSaChunkSize) with
    | restart s => exact fun ⟨h1, h2, h3, h4⟩ => ⟨by omega, by omega, h3, h4⟩
    | noFreeChunk => intro h; show _ ≤ _; simp only at h; omega
    | done e =>
      refine fun ⟨h1, h2, h3⟩ => ⟨by omega, h2, fun i hi hie => ?_⟩
      rcases Nat.eq_or_lt_of_le hi with rfl | hi
      · rw [hre] at hfree
        exact hfree
      · exact h3 i hi hie

theorem searchRun_isSome (kfd : GttSa) (size : Nat) {fuel startSearch : Nat}
    (hfuel : kfd.gttSaNumOfChunks < startSearch + fuel)
    (hstart : startSearch ≤ kfd.gttSaNumOfChunks) :
    (searchRun kfd size fuel startSearch).isSome := by
  induction fuel generalizing startSearch with
  | zero => omega
  | succ fuel ih =>
    have hge : startSearch ≤ findNextZeroBit kfd.gttSaBitmap kfd.gttSaNumOfChunks startSearch :=
      findNextZeroBit_ge hstart
    have hle := @findNextZeroBit_le kfd.gttSaBitmap kfd.gttSaNumOfChunks startSearch
    simp only [searchRun]
    split
    · rfl
    · next hne =>
      split
      · rfl
      · next hsize =>
        have hext := extendRun_spec kfd
          (findNextZeroBit kfd.gttSaBitmap kfd.gttSaNumOfChunks startSearch)
          (size - kfd.gttSaChunkSize) (by omega) (by omega)
        split
        · next s heq =>
          rw [heq] at hext
          obtain ⟨hlt, -, hs, -⟩ := hext
          exact ih (by omega) (by omega)
        · rfl
        · rfl

theorem not_freeRun_before_found {startSearch a n : Nat} (hn : 0 < n)
    (hstart : startSearch < kfd.gttSaNumOfChunks) (ha : startSearch ≤ a)
    (hlt : a < findNextZeroBit kfd.gttSaBitmap kfd.gttSaNumOfChunks startSearch) :
    ¬ FreeRun kfd a n := by
  rintro ⟨-, hfree⟩
  exact hfree a le_rfl (by omega) (findNextZeroBit_set ha hlt hstart)

theorem searchRun_spec (kfd : GttSa) {size fuel startSearch : Nat} {r : Option (Nat × Nat)}
    (h0 : 0 < size) (hstart : startSearch ≤ kfd.gttSaNumOfChunks)
    (h : searchRun kfd size fuel startSearch = some r) :
    match r with
    | none => ∀ a, startSearch ≤ a → ¬ FreeRun kfd a (chunksFor kfd size)
    | some (a, e) => FreeRun kfd a (chunksFor kfd size) ∧ e + 1 = a + chunksFor kfd size ∧
        ∀ a', startSearch ≤ a' → a' < a → ¬ FreeRun kfd a' (chunksFor kfd size) := by
  induction fuel generalizing startSearch with
  | zero => simp [searchRun] at h
  | succ fuel ih =>
    have hpos := chunksFor_pos kfd h0
    have hge : startSearch ≤ findNextZeroBit kfd.gttSaBitmap kfd.gttSaNumOfChunks startSearch :=
      findNextZeroBit_ge hstart
    have hle := @findNextZeroBit_le kfd.gttSaBitmap kfd.gttSaNumOfChunks startSearch
    have hbefore : ∀ a, startSearch ≤ a →
        a < findNextZeroBit kfd.gttSaBitmap kfd.gttSaNumOfChunks startSearch →
        ¬ FreeRun kfd a (chunksFor kfd size) := fun a ha hlt =>
      not_freeRun_before_found hpos (by omega) ha hlt
    simp only [searchRun] at h
    split at h
    · next hend =>
      obtain rfl : none = r := some.inj h
      intro a ha hrun
      exact hbefore a ha (by have := hrun.1; omega) hrun
    · next hne =>
      split at h
      · next hsize =>
        obtain rfl : some _ = r := some.inj h
        simp only [chunksFor_one h0 hsize] at hbefore ⊢
        refine ⟨⟨by omega, fun i hi hlt => ?_⟩, trivial, hbefore⟩
        rw [show i = findNextZeroBit kfd.gttSaBitmap kfd.gttSaNumOfChunks startSearch by omega]
        exact findNextZeroBit_clear (by omega)
      · next hsize =>
        have hchunks := chunksFor_succ (Nat.lt_of_not_le hsize)
        have hext := extendRun_spec kfd
          (findNextZeroBit kfd.gttSaBitmap kfd.gttSaNumOfChunks startSearch)
          (size - kfd.gttSaChunkSize) (by omega) (by omega)
        split at h
        · next s heq =>
          rw [heq] at hext
          obtain ⟨hlt, hs, hnum, hbit⟩ := hext
          have hrec := @ih s (by omega) h
          -- a run that starts at or behind `found` but before `s` contains the used chunk `s`
          have hbetween : ∀ a, startSearch ≤ a → a < s →
              ¬ FreeRun kfd a (chunksFor kfd size) := by
            intro a ha has hrun
            rcases lt_or_ge a
              (findNextZeroBit kfd.gttSaBitmap kfd.gttSaNumOfChunks startSearch) with hlt' | hge'
            · exact hbefore a ha hlt' hrun
            · exact hrun.2 s (by omega) (by omega) hbit
          cases r with
          | none =>
            intro a ha hrun
            rcases lt_or_ge a s with has | has
            · exact hbetween a ha has hrun
            · exact hrec a has hrun
          | some p =>
            obtain ⟨hrun, hend, hleast⟩ := hrec
            refine ⟨hrun, hend, fun a ha hlt' hrun' => ?_⟩
            rcases lt_or_ge a s with has | has
            · exact hbetween a ha has hrun'
            · exact hleast a has hlt' hrun'
        · next heq =>
          rw [heq] at hext
          obtain rfl : none = r := some.inj h
          intro a ha hrun
          rcases lt_or_ge a
            (findNextZeroBit kfd.gttSaBitmap kfd.gttSaNumOfChunks startSearch) with hlt' | hge'
          · exact hbefore a ha hlt' hrun
          · have := hrun.1
            simp only at hext
            omega
        · next e heq =>
          rw [heq] at hext
          obtain ⟨he, hnum, hfree⟩ := hext
          obtain rfl : some _ = r := some.inj h
          refine ⟨⟨by omega, fun i hi hlt => ?_⟩, by omega, hbefore⟩
          rcases Nat.eq_or_lt_of_le hi with rfl | hi
          · exact findNextZeroBit_clear (by omega)
          · exact hfree i hi (by omega)

/-! ## One allocation -/

theorem kfdGttSaAllocate_cases (kfd : GttSa) (kzalloc : Bool) (size : Nat) :
    (∃ a, kzalloc = true ∧ 0 < size ∧ FreeRun kfd a (chunksFor kfd size) ∧
      (∀ a', a' < a → ¬ FreeRun kfd a' (chunksFor kfd size)) ∧
      kfdGttSaAllocate kfd kzalloc size =
        (markAllocated kfd (memObj kfd a (a + chunksFor kfd size - 1)),
          .ok (memObj kfd a (a + chunksFor kfd size - 1)))) ∨
    (∃ e, kfdGttSaAllocate kfd kzalloc size = (kfd, .error e) ∧
      (size = 0 ∨ kzalloc = false ∨ ∀ a, ¬ FreeRun kfd a (chunksFor kfd size))) := by
  unfold kfdGttSaAllocate
  split
  · next h0 => exact .inr ⟨_, rfl, .inl h0⟩
  · next h0 =>
    split
    · next hbig =>
      refine .inr ⟨_, rfl, .inr (.inr fun a hrun => ?_)⟩
      have hnum : kfd.gttSaNumOfChunks < chunksFor kfd size := by
        unfold chunksFor
        rw [Nat.lt_iff_add_one_le, Nat.le_div_iff_mul_le kfd.chunk_pos, add_mul]
        omega
      have := hrun.1
      omega
    · split
      · next hk => exact .inr ⟨_, rfl, .inr (.inl hk)⟩
      · next hk =>
        have hsome : (searchRun kfd size (searchFuel kfd) 0).isSome :=
          searchRun_isSome kfd size (by unfold searchFuel; omega) (Nat.zero_le _)
        obtain ⟨r, hr⟩ := Option.isSome_iff_exists.mp hsome
        have hspec := searchRun_spec kfd (by omega) (Nat.zero_le _) hr
        rw [hr]
        cases r with
        | none => exact .inr ⟨_, rfl, .inr (.inr fun a => hspec a (Nat.zero_le _))⟩
        | some p =>
          obtain ⟨a, e⟩ := p
          obtain ⟨hrun, he, hleast⟩ := hspec
          obtain rfl : e = a + chunksFor kfd size - 1 := by omega
          exact .inl ⟨a, by simpa using hk, by omega, hrun,
            fun a' hlt => hleast a' (Nat.zero_le _) hlt, rfl⟩

/-! ## Runs -/

theorem owns_iff {obj : KfdMemObj} (h : obj.rangeStart ≤ obj.rangeEnd) (i : Nat) :
    obj.Owns i ↔ obj.rangeStart ≤ i ∧ i < obj.rangeStart + (obj.rangeEnd - obj.rangeStart + 1) := by
  unfold KfdMemObj.Owns
  omega

theorem inv_init (kfd : GttSa) (h : kfd.gttSaBitmap = ∅) : Inv ⟨kfd, []⟩ :=
  { shape := by simp
    disjoint := List.Pairwise.nil
    bits := by simp [h] }

theorem inv_allocate {s : State} (hi : Inv s) {size a : Nat} (h0 : 0 < size)
    (hrun : FreeRun s.kfd a (chunksFor s.kfd size)) :
    Inv ⟨markAllocated s.kfd (memObj s.kfd a (a + chunksFor s.kfd size - 1)),
      (size, memObj s.kfd a (a + chunksFor s.kfd size - 1)) :: s.live⟩ := by
  have hpos := chunksFor_pos s.kfd h0
  have howns : ∀ i, (memObj s.kfd a (a + chunksFor s.kfd size - 1)).Owns i ↔
      a ≤ i ∧ i < a + chunksFor s.kfd size := by
    intro i
    simp only [KfdMemObj.Owns, memObj]
    omega
  constructor
  · intro p hp
    rcases mem_cons.mp hp with rfl | hp
    · have := hrun.1
      refine ⟨?_, ?_, ?_⟩ <;> simp only [markAllocated, memObj, chunksFor] at * <;> omega
    · exact hi.shape p hp
  · refine pairwise_cons.mpr ⟨fun q hq i hown hq' => ?_, hi.disjoint⟩
    obtain ⟨hge, hlt⟩ := (howns i).mp hown
    exact hrun.2 i hge hlt ((hi.bits i).mpr ⟨q, hq, hq'⟩)
  · intro i
    rw [exists_mem_cons_iff, howns i, ← hi.bits i]
    simp only [markAllocated, memObj, mem_bitmapSet]
    constructor
    · rintro (hmem | ⟨hge, hlt⟩)
      · exact .inr hmem
      · exact .inl ⟨hge, by omega⟩
    · rintro (⟨hge, hlt⟩ | hmem)
      · exact .inr ⟨hge, by omega⟩
      · exact .inl hmem

theorem inv_free {s : State} (hi : Inv s) {i : Nat} {obj : KfdMemObj}
    (hget : s.live[i]? = some (size, obj)) :
    Inv ⟨kfdGttSaFree s.kfd (some obj), s.live.eraseIdx i⟩ := by
  obtain ⟨hlen, hget⟩ := List.getElem?_eq_some_iff.mp hget
  have hsplit : s.live.Perm ((size, obj) :: s.live.eraseIdx i) := by
    rw [← hget]
    exact (getElem_cons_eraseIdx_perm hlen).symm
  have hsym : ∀ p q : Nat × KfdMemObj, (∀ j, p.2.Owns j → ¬ q.2.Owns j) →
      ∀ j, q.2.Owns j → ¬ p.2.Owns j := fun p q h j hq hp => h j hp hq
  have hdisj := (hsplit.pairwise_iff (fun {p q} => hsym p q)).mp hi.disjoint
  obtain ⟨hother, hrest⟩ := pairwise_cons.mp hdisj
  have hshape := hi.shape (size, obj) (hsplit.mem_iff.mpr mem_cons_self)
  constructor
  · exact fun p hp => hi.shape p (hsplit.mem_iff.mpr (mem_cons_of_mem _ hp))
  · exact hrest
  · intro j
    simp only [kfdGttSaFree, mem_bitmapClear, ← owns_iff hshape.2.2 j, hi.bits j,
      hsplit.mem_iff, exists_mem_cons_iff]
    constructor
    · rintro ⟨hown | hrest', hnot⟩
      · exact absurd hown hnot
      · exact hrest'
    · rintro ⟨q, hq, hown⟩
      exact ⟨.inr ⟨q, hq, hown⟩, fun hobj => hother q hq j hobj hown⟩

theorem step_inv (s : State) (op : Op) (hi : Inv s) : Inv (step s op) := by
  cases op with
  | allocate size kzalloc =>
    obtain ⟨a, -, h0, hrun, -, heq⟩ | ⟨e, heq, -⟩ := kfdGttSaAllocate_cases s.kfd kzalloc size
    · simp only [step, heq]
      exact inv_allocate hi h0 hrun
    · simp only [step, heq]
      exact hi
  | free i =>
    simp only [step]
    split
    · next size obj hget => exact inv_free hi hget
    · exact hi
  | freeNull => exact hi

theorem kfdGttSaInit_bitmap {gpu cpu bufSize chunkSize : Nat} {zalloc : Bool}
    (h : kfdGttSaInit gpu cpu bufSize chunkSize zalloc = .ok kfd) : kfd.gttSaBitmap = ∅ := by
  unfold kfdGttSaInit at h
  split at h
  · cases h
  split at h
  · cases h
  split at h
  · cases h
  split at h
  · cases h
  cases h
  rfl

/-- The sub-allocator after any sequence of calls. Live objects own disjoint
runs of exactly the chunks their sizes need, inside the buffer, and the set
bits are the chunks they own. An allocation succeeds when its `kfd_mem_obj` can
be allocated and a free run of the needed length exists, and then returns the
lowest one; a failed allocation changes nothing; the restart loop ends for any
bound on its rounds above the number of chunks. -/
theorem gttSa_first_fit {gpu cpu bufSize chunkSize : Nat} {zalloc : Bool} {kfd : GttSa}
    (hinit : kfdGttSaInit gpu cpu bufSize chunkSize zalloc = .ok kfd) (ops : List Op) :
    let s := run step ⟨kfd, []⟩ ops
    (∀ p ∈ s.live, p.2.rangeEnd < s.kfd.gttSaNumOfChunks ∧
      p.2.rangeStart + chunksFor s.kfd p.1 = p.2.rangeEnd + 1 ∧ p.2.rangeStart ≤ p.2.rangeEnd) ∧
    (s.live.Pairwise fun p q => ∀ i, p.2.Owns i → ¬ q.2.Owns i) ∧
    (∀ i, i ∈ s.kfd.gttSaBitmap ↔ ∃ p ∈ s.live, p.2.Owns i) ∧
    (∀ size kzalloc, 0 < size → size ≤ bufSize →
      ((∃ obj, (kfdGttSaAllocate s.kfd kzalloc size).2 = .ok obj) ↔
        kzalloc = true ∧ ∃ a, FreeRun s.kfd a (chunksFor s.kfd size)) ∧
      ∀ obj, (kfdGttSaAllocate s.kfd kzalloc size).2 = .ok obj →
        FreeRun s.kfd obj.rangeStart (chunksFor s.kfd size) ∧
        obj.rangeEnd + 1 = obj.rangeStart + chunksFor s.kfd size ∧
        ∀ a, FreeRun s.kfd a (chunksFor s.kfd size) → obj.rangeStart ≤ a) ∧
    (∀ size kzalloc e, (kfdGttSaAllocate s.kfd kzalloc size).2 = .error e →
      (kfdGttSaAllocate s.kfd kzalloc size).1.gttSaBitmap = s.kfd.gttSaBitmap) ∧
    (∀ size fuel, s.kfd.gttSaNumOfChunks < fuel →
      (searchRun s.kfd size fuel 0).isSome) := by
  intro s
  have hi : Inv s := run_inv step_inv (inv_init kfd (kfdGttSaInit_bitmap hinit)) ops
  refine ⟨hi.shape, hi.disjoint, hi.bits, ?_, ?_, ?_⟩
  · intro size kzalloc h0 _
    obtain ⟨a, hk, -, hrun, hleast, heq⟩ | ⟨e, heq, hno⟩ :=
      kfdGttSaAllocate_cases s.kfd kzalloc size
    · have hpos := chunksFor_pos s.kfd h0
      rw [heq]
      refine ⟨⟨fun _ => ⟨hk, a, hrun⟩, fun _ => ⟨_, rfl⟩⟩, fun obj hobj => ?_⟩
      cases hobj
      refine ⟨hrun, ?_, fun a' hrun' => ?_⟩
      · simp only [memObj]
        omega
      · exact Nat.le_of_not_lt fun hlt => hleast a' hlt hrun'
    · rw [heq]
      refine ⟨⟨fun ⟨obj, hobj⟩ => (nomatch hobj), fun ⟨hk, a, hrun⟩ => ?_⟩,
        fun obj hobj => nomatch hobj⟩
      rcases hno with h | h | h
      · omega
      · rw [hk] at h
        cases h
      · exact absurd hrun (h a)
  · intro size kzalloc e he
    obtain ⟨a, -, -, -, -, heq⟩ | ⟨e', heq, -⟩ := kfdGttSaAllocate_cases s.kfd kzalloc size
    · rw [heq] at he
      cases he
    · rw [heq]
  · exact fun size fuel hfuel => searchRun_isSome _ size (by omega) (Nat.zero_le _)

def exGtt : GttSa :=
  { gttStartGpuAddr := 0x1000
    gttStartCpuPtr := 0x8000
    gttSaChunkSize := 16
    gttSaNumOfChunks := 4
    gttSaBitmap := ∅
    chunk_pos := by decide }

/-- `gttSa_first_fit` at a fresh buffer of 64 bytes after two allocations and
the free of the first one. -/
theorem gttSa_first_fit_exGtt :
    kfdGttSaInit 0x1000 0x8000 64 16 true = .ok exGtt ∧
    let s := run step ⟨exGtt, []⟩ [.allocate 20 true, .allocate 1 true, .free 1]
    ∀ i, i ∈ s.kfd.gttSaBitmap ↔ ∃ p ∈ s.live, p.2.Owns i :=
  ⟨rfl, (@gttSa_first_fit 0x1000 0x8000 64 16 true exGtt rfl
    [.allocate 20 true, .allocate 1 true, .free 1]).2.2.1⟩

/-- A free run is not enough: with every chunk free, an allocation of one byte
fails when the `kfd_mem_obj` cannot be allocated. -/
theorem freeRun_not_enough :
    ¬ ∀ (kfd : GttSa) (kzalloc : Bool) (size : Nat),
      0 < size → size ≤ kfd.gttSaNumOfChunks * kfd.gttSaChunkSize →
      (∃ a, FreeRun kfd a (chunksFor kfd size)) →
      ∃ obj, (kfdGttSaAllocate kfd kzalloc size).2 = .ok obj := by
  intro h
  obtain ⟨obj, hobj⟩ := h exGtt false 1 (by decide) (by decide)
    ⟨0, by decide, fun i _ _ => by simp [exGtt]⟩
  cases hobj

end Amdkfd.GttSubAllocator
