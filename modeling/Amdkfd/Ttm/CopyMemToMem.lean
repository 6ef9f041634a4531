import Amdkfd.Ttm.GartWindow

/-!
# Copies through the windows of the GART

`amdgpu_ttm_copy_mem_to_mem`: two resources are walked side by side, in rounds of what is one piece
in both, what the windows take and at most 256 MiB. A round maps its source through window 0 and
its destination through window 1, and copies. Jobs are submitted.

An entry maps 4 KB while a window has 512 of them for up to 512 CPU pages, so with CPU pages of
64 KB a round can leave its window. A secure copy uses a window for every resource, and a GTT
resource with an address starts at a page that is not one of its page array.
-/

namespace Amdkfd.Ttm

open Lib List Option

/-! ## Model -/

/-- The arguments of `amdgpu_ttm_copy_mem_to_mem`, and the GART as it is before. -/
structure Request (adev : Device) where
  src : CopyMem
  dst : CopyMem
  size : Nat
  tmz : Bool
  table : Nat → Nat
  src_ok : src.Ok adev
  dst_ok : dst.Ok adev
  src_bound : Bound adev src table
  dst_bound : Bound adev dst table
  src_in : src.offset < src.mem.size ∧ src.offset + size ≤ src.mem.size
  dst_in : dst.offset < dst.mem.size ∧ dst.offset + size ≤ dst.mem.size

/-- A round: the cursors before it, the two mappings, and the GART that its copy sees. -/
structure Round where
  srcMm : Cursor
  dstMm : Cursor
  srcMap : Mapping
  dstMap : Mapping
  table : Nat → Nat

/-- `cur_size` at the copy. -/
def Round.size (r : Round) : Nat := r.dstMap.size

section
variable {adev : Device}

def curSize (srcMm dstMm : Cursor) : Nat := min (min srcMm.size dstMm.size) (256 * 2 ^ 20)

/-- One round of the loop of `amdgpu_ttm_copy_mem_to_mem`. -/
def copyRound (req : Request adev) (table : Nat → Nat) (srcMm dstMm : Cursor) : Option Round := do
  let srcMap ← mapBuffer adev req.src srcMm 0 req.tmz (curSize srcMm dstMm)
  let dstMap ← mapBuffer adev req.dst dstMm 1 req.tmz srcMap.size
  some
    { srcMm := srcMm
      dstMm := dstMm
      srcMap := srcMap
      dstMap := dstMap
      table := writeEntries (writeEntries table srcMap.entries) dstMap.entries }

/-- The loop of `amdgpu_ttm_copy_mem_to_mem`. It is `none` on an error, and when `fuel` does not
last. -/
def copyLoop (req : Request adev) : Nat → (Nat → Nat) → Cursor → Cursor → Option (List Round)
  | fuel, table, srcMm, dstMm =>
    if srcMm.remaining = 0 then some []
    else
      match fuel with
      | 0 => none
      | fuel + 1 => do
        let r ← copyRound req table srcMm dstMm
        let rounds ← copyLoop req fuel r.table (resNext srcMm r.size) (resNext dstMm r.size)
        some (r :: rounds)

def copyMemToMem (req : Request adev) : Option (List Round) := do
  let srcMm ← resFirst req.src.mem.blocks req.src.offset req.size
  let dstMm ← resFirst req.dst.mem.blocks req.dst.offset req.size
  copyLoop req req.size req.table srcMm dstMm

/-! ## What is right -/

structure RoundRight (req : Request adev) (pos : Nat) (r : Round) : Prop where
  copies : 0 < r.size
  src : SideRight adev req.src 0 pos r.size r.srcMap r.table
  dst : SideRight adev req.dst 1 pos r.size r.dstMap r.table

/-- The rounds copy the bytes from `pos` on, one piece after the other, up to the end. -/
def RoundsRight (req : Request adev) : Nat → List Round → Prop
  | pos, [] => pos = req.size
  | pos, r :: rounds => RoundRight req pos r ∧ RoundsRight req (pos + r.size) rounds

def CopyRight (req : Request adev) : Prop :=
  ∃ rounds, copyMemToMem req = some rounds ∧ RoundsRight req 0 rounds

/-- The pieces of the two resources: from each, up to the next end of a block. -/
def pieces : Nat → Cursor → Cursor → List (Cursor × Cursor)
  | fuel, srcMm, dstMm =>
    if srcMm.remaining = 0 then []
    else
      match fuel with
      | 0 => []
      | fuel + 1 =>
        let size := min srcMm.size dstMm.size
        (srcMm, dstMm) :: pieces fuel (resNext srcMm size) (resNext dstMm size)

def Request.pieces (req : Request adev) : List (Cursor × Cursor) :=
  match resFirst req.src.mem.blocks req.src.offset req.size,
    resFirst req.dst.mem.blocks req.dst.offset req.size with
  | some srcMm, some dstMm => Ttm.pieces req.size srcMm dstMm
  | _, _ => []

/-- What goes through a window is something that a window can map. -/
structure Good (req : Request adev) (srcMm dstMm : Cursor) (size : Nat) : Prop where
  src : Windowed req.src req.tmz → Fits adev req.src srcMm size
  dst : Windowed req.dst req.tmz → Fits adev req.dst dstMm size

/-! ## A round -/

section Map
variable {m : CopyMem} {cur : Cursor} {window pos rem n size : Nat} {tmz : Bool} {map : Mapping}
  {table : Nat → Nat}

theorem CopyMem.Ok.ne_preempt (h : m.Ok adev) : m.mem.memType ≠ .preempt := by
  cases h with
  | vram hmem | gtt _ hmem => simp [hmem]

theorem CopyMem.Ok.block_pos (h : m.Ok adev) : ∀ e ∈ m.mem.blocks, 0 < e.size := by
  cases h with
  | vram _ _ hpos => exact hpos
  | gtt _ _ hblocks _ _ _ _ hpos =>
    intro e he
    rw [hblocks, mem_singleton] at he
    rw [he]
    exact mul_pos hpos adev.pageSize_pos

theorem CopyMem.Ok.size_le (h : m.Ok adev) : m.mem.size ≤ Extent.total m.mem.blocks := by
  cases h with
  | vram _ _ _ _ hsize => exact hsize
  | gtt _ _ hblocks _ _ _ _ _ hsize =>
    rw [hblocks]
    exact hsize

section
variable (hok : m.Ok adev)
include hok

theorem mapBuffer_direct (h : ¬ Windowed m tmz) :
    mapBuffer adev m cur window tmz n = some (directMap adev m cur n) :=
  (if_neg hok.ne_preempt).trans (if_pos (not_not.mp h))

theorem mapBuffer_window (h : Windowed m tmz) :
    mapBuffer adev m cur window tmz n = some (windowMap adev m cur window tmz n) :=
  (if_neg hok.ne_preempt).trans (if_neg h)

theorem mapBuffer_cases (h : mapBuffer adev m cur window tmz n = some map) :
    (¬ Windowed m tmz ∧ map = directMap adev m cur n) ∨
      (Windowed m tmz ∧ map = windowMap adev m cur window tmz n) := by
  by_cases hw : Windowed m tmz
  · rw [mapBuffer_window hok hw] at h
    exact .inr ⟨hw, (some.inj h).symm⟩
  · rw [mapBuffer_direct hok hw] at h
    exact .inl ⟨hw, (some.inj h).symm⟩

theorem mapBuffer_size (h : mapBuffer adev m cur window tmz n = some map) :
    map.size ≤ n ∧ (0 < n → 0 < map.size) := by
  rcases mapBuffer_cases hok h with ⟨-, rfl⟩ | ⟨-, rfl⟩
  · exact ⟨le_rfl, id⟩
  · exact ⟨min_le_left .., windowMap_size_pos⟩

/-- The entries that are written, in the space before the first resource of the GTT manager. -/
theorem mapBuffer_entries (hwin : window < gttNumTransferWindows)
    (h : mapBuffer adev m cur window tmz n = some map) :
    ∀ e ∈ map.entries, window * gttMaxTransferSize ≤ e.1 ∧
      e.1 < gttMaxTransferSize * gttNumTransferWindows * adev.ratio := by
  intro e he
  rcases mapBuffer_cases hok h with ⟨-, rfl⟩ | ⟨-, rfl⟩
  · exact absurd he not_mem_nil
  · obtain ⟨f, hf, rfl⟩ := mem_map.mp he
    obtain ⟨i, hi, j, hj, rfl⟩ := mem_windowEntries.mp hf
    refine ⟨Nat.le_add_right .., ?_⟩
    have hlt := index_lt hi hj
    have hle : numPages adev cur n * adev.ratio ≤ gttMaxTransferSize * adev.ratio :=
      Nat.mul_le_mul_right _ (min_le_right ..)
    have hpos := adev.ratio_pos
    simp only [gttMaxTransferSize, gttNumTransferWindows] at *
    omega

theorem sideRight_iff (hwin : window < gttNumTransferWindows)
    (hat : cur.At m.mem.blocks (m.offset + pos) rem) (hrem : 0 < rem) (hn : n ≤ cur.size)
    (hpos : 0 < size) (h : mapBuffer adev m cur window tmz n = some map) (hle : size ≤ map.size)
    (hbound : Bound adev m table)
    (hentries : ∀ e ∈ map.entries, e.1 < (window + 1) * gttMaxTransferSize → table e.1 = e.2) :
    SideRight adev m window pos size map table ↔ (Windowed m tmz → Fits adev m cur n) := by
  rcases mapBuffer_cases hok h with ⟨hdir, rfl⟩ | ⟨hw, rfl⟩
  · have hcur : size ≤ cur.size := hle.trans hn
    exact iff_of_true (sideRight_direct hok hdir hat hrem hcur hbound) fun hw => absurd hw hdir
  · have hwritten (e : Nat × Nat) (he : e ∈ windowEntries adev m cur tmz (numPages adev cur n))
        (hlt : e.1 < gttMaxTransferSize) : table (window * gttMaxTransferSize + e.1) = e.2 := by
      refine hentries _ (mem_map.mpr ⟨e, he, rfl⟩) ?_
      show window * gttMaxTransferSize + e.1 < (window + 1) * gttMaxTransferSize
      rw [add_mul, one_mul]
      exact Nat.add_lt_add_left hlt _
    rw [sideRight_window hok hwin hat hrem hle hwritten hn hpos]
    exact ⟨fun hf _ => hf, fun hf => hf hw⟩

theorem mapBuffer_written (h : mapBuffer adev m cur window tmz n = some map) (table : Nat → Nat) :
    ∀ e ∈ map.entries, writeEntries table map.entries e.1 = e.2 := by
  intro e he
  refine writeEntries_of_mem table he fun f hf hkey => ?_
  rcases mapBuffer_cases hok h with ⟨-, rfl⟩ | ⟨-, rfl⟩
  · exact absurd he not_mem_nil
  · obtain ⟨e', he', rfl⟩ := mem_map.mp he
    obtain ⟨f', hf', rfl⟩ := mem_map.mp hf
    have hindex : window * gttMaxTransferSize + f'.1 = window * gttMaxTransferSize + e'.1 := hkey
    have hval := windowEntries_unique he' hf' (Nat.add_left_cancel hindex)
    exact hval

end

/-- The entries of a resource with an address are behind the windows. -/
theorem Bound.write {entries : List (Nat × Nat)} (h : Bound adev m table) (hok : m.Ok adev)
    (hin : ∀ e ∈ entries, e.1 < gttMaxTransferSize * gttNumTransferWindows * adev.ratio) :
    Bound adev m (writeEntries table entries) := by
  intro first hmem hstart
  obtain ⟨tmz', hentries⟩ := h first hmem hstart
  refine ⟨tmz', fun e he => ?_⟩
  rw [writeEntries_of_ne, hentries e he]
  intro f hf heq
  have hlt := hin f hf
  obtain ⟨i, -, j, -, rfl⟩ := mem_gartMap.mp he
  cases hok with
  | vram hvram => exact absurd hmem (by simp [hvram])
  | gtt _ _ _ _ _ _ hsome _ _ =>
    obtain ⟨rfl, hfirst, -⟩ := hsome first hstart
    have hle : gttMaxTransferSize * gttNumTransferWindows * adev.ratio ≤ first * adev.ratio :=
      Nat.mul_le_mul_right _ hfirst
    dsimp only at heq
    rw [adev.mul_pageSize_div] at heq
    omega

end Map

section Round
variable {req : Request adev} {table : Nat → Nat} {srcMm dstMm : Cursor} {pos rem : Nat}
  {m : CopyMem} {cur : Cursor} {window n : Nat} {tmz : Bool} {map : Mapping}

/-- With CPU pages of 4 KB, whether a window can map a piece does not depend on its size. -/
theorem fits_of_ratio_one (h : adev.ratio = 1) (k : Nat) (hfits : Fits adev m cur n) :
    Fits adev m cur k := by
  refine ⟨hfits.start, ?_, hfits.aligned⟩
  rw [h, mul_one]
  exact min_le_right ..

theorem Fits.pages (hfits : Fits adev m cur n) (h : adev.ratio = 16) :
    n + cur.start % adev.pageSize ≤ numPages adev cur n * adev.pageSize ∧
      numPages adev cur n * adev.pageSize ≤ 2 ^ 21 := by
  have hle := hfits.entries
  rw [h] at hle
  have hpage : adev.pageSize = 65536 := by rw [adev.pageSize_eq, h]; rfl
  have hnum : numPages adev cur n = pfnUp adev (n + cur.start % adev.pageSize) := by
    unfold numPages at hle ⊢
    simp only [gttMaxTransferSize] at *
    omega
  rw [hnum] at hle ⊢
  unfold pfnUp at hle ⊢
  rw [hpage] at hle ⊢
  simp only [gttMaxTransferSize] at *
  omega

theorem mapBuffer_whole (hok : m.Ok adev) (h16 : adev.ratio = 16)
    (h : mapBuffer adev m cur window tmz n = some map)
    (hfits : Windowed m tmz → Fits adev m cur n) : map.size = n := by
  rcases mapBuffer_cases hok h with ⟨-, rfl⟩ | ⟨hw, rfl⟩
  · rfl
  · have hpages := ((hfits hw).pages h16).1
    show min n (numPages adev cur n * adev.pageSize - cur.start % adev.pageSize) = n
    omega

structure RoundSpec (req : Request adev) (table : Nat → Nat) (srcMm dstMm : Cursor)
    (r : Round) : Prop where
  table_eq : r.table = writeEntries (writeEntries table r.srcMap.entries) r.dstMap.entries
  src : mapBuffer adev req.src srcMm 0 req.tmz (curSize srcMm dstMm) = some r.srcMap
  dst : mapBuffer adev req.dst dstMm 1 req.tmz r.srcMap.size = some r.dstMap
  srcMm_eq : r.srcMm = srcMm
  dstMm_eq : r.dstMm = dstMm

theorem copyRound_spec (req : Request adev) (table : Nat → Nat) (srcMm dstMm : Cursor) :
    ∃ r, copyRound req table srcMm dstMm = some r ∧ RoundSpec req table srcMm dstMm r := by
  have hmap (m : CopyMem) (hok : m.Ok adev) (cur : Cursor) (window n : Nat) :
      ∃ map, mapBuffer adev m cur window req.tmz n = some map := by
    by_cases hw : Windowed m req.tmz
    · exact ⟨_, mapBuffer_window hok hw⟩
    · exact ⟨_, mapBuffer_direct hok hw⟩
  obtain ⟨srcMap, hsrc⟩ := hmap req.src req.src_ok srcMm 0 (curSize srcMm dstMm)
  obtain ⟨dstMap, hdst⟩ := hmap req.dst req.dst_ok dstMm 1 srcMap.size
  let r : Round :=
    ⟨srcMm, dstMm, srcMap, dstMap, writeEntries (writeEntries table srcMap.entries) dstMap.entries⟩
  refine ⟨r, ?_, ⟨rfl, hsrc, hdst, rfl, rfl⟩⟩
  simp only [copyRound, hsrc, hdst, bind_eq_bind, bind_some, r]

namespace RoundSpec
variable {r : Round} (h : RoundSpec req table srcMm dstMm r)
include h

theorem size_le : r.size ≤ r.srcMap.size ∧ r.srcMap.size ≤ curSize srcMm dstMm :=
  ⟨(mapBuffer_size req.dst_ok h.dst).1, (mapBuffer_size req.src_ok h.src).1⟩

theorem size_pos (hcur : 0 < curSize srcMm dstMm) : 0 < r.size :=
  (mapBuffer_size req.dst_ok h.dst).2 ((mapBuffer_size req.src_ok h.src).2 hcur)

theorem bound (hok : m.Ok adev) (hbound : Bound adev m table) : Bound adev m r.table := by
  rw [h.table_eq]
  have hsrc := mapBuffer_entries req.src_ok (by decide) h.src
  have hdst := mapBuffer_entries req.dst_ok (by decide) h.dst
  exact (hbound.write hok fun e he => (hsrc e he).2).write hok fun e he => (hdst e he).2

/-- What the source's window holds at the copy: the destination's window starts behind it. -/
theorem src_entries : ∀ e ∈ r.srcMap.entries, e.1 < (0 + 1) * gttMaxTransferSize →
    r.table e.1 = e.2 := by
  intro e he hlt
  rw [h.table_eq, writeEntries_of_ne]
  · exact mapBuffer_written req.src_ok h.src table e he
  · intro f hf heq
    have hle := (mapBuffer_entries req.dst_ok (by decide) h.dst f hf).1
    omega

theorem dst_entries : ∀ e ∈ r.dstMap.entries, e.1 < (1 + 1) * gttMaxTransferSize →
    r.table e.1 = e.2 := by
  intro e he _
  rw [h.table_eq]
  exact mapBuffer_written req.dst_ok h.dst _ e he

theorem roundRight_iff (hsrc : srcMm.At req.src.mem.blocks (req.src.offset + pos) rem)
    (hdst : dstMm.At req.dst.mem.blocks (req.dst.offset + pos) rem) (hrem : 0 < rem)
    (hsb : Bound adev req.src table) (hdb : Bound adev req.dst table) :
    RoundRight req pos r ↔ Good req srcMm dstMm (curSize srcMm dstMm) := by
  have hspos := hsrc.size_pos hrem
  have hdpos := hdst.size_pos hrem
  have hmin : curSize srcMm dstMm ≤ srcMm.size ∧ curSize srcMm dstMm ≤ dstMm.size ∧
      0 < curSize srcMm dstMm := by
    unfold curSize
    omega
  have hpos := h.size_pos hmin.2.2
  obtain ⟨hle, hle'⟩ := h.size_le
  have hsrcIff := sideRight_iff req.src_ok (by decide) hsrc hrem hmin.1 hpos h.src
    hle (h.bound req.src_ok hsb) h.src_entries
  have hdstIff := sideRight_iff req.dst_ok (by decide) hdst hrem
    (hle'.trans hmin.2.1) hpos h.dst le_rfl (h.bound req.dst_ok hdb) h.dst_entries
  -- the source cuts the piece of the destination only with CPU pages of 4 KB
  have hsame (hgood : Windowed req.src req.tmz → Fits adev req.src srcMm (curSize srcMm dstMm)) :
      Fits adev req.dst dstMm r.srcMap.size ↔ Fits adev req.dst dstMm (curSize srcMm dstMm) := by
    rcases adev.ratio_cases with h1 | h16
    · exact ⟨fits_of_ratio_one h1 _, fits_of_ratio_one h1 _⟩
    · rw [mapBuffer_whole req.src_ok h16 h.src hgood]
  constructor
  · intro hright
    have hgood := hsrcIff.mp hright.src
    exact ⟨hgood, fun hw => (hsame hgood).mp (hdstIff.mp hright.dst hw)⟩
  · intro hgood
    exact ⟨hpos, hsrcIff.mpr hgood.src, hdstIff.mpr fun hw => (hsame hgood.src).mpr (hgood.dst hw)⟩

end RoundSpec

end Round

/-! ## The loop -/

section Loop
variable {req : Request adev} {table : Nat → Nat} {srcMm dstMm : Cursor} {fuel pos rem : Nat}

theorem copyLoop_step {r : Round} (hmore : srcMm.remaining ≠ 0)
    (hr : copyRound req table srcMm dstMm = some r) :
    copyLoop req (fuel + 1) table srcMm dstMm =
      (copyLoop req fuel r.table (resNext srcMm r.size) (resNext dstMm r.size)).map (r :: ·) := by
  conv_lhs => unfold copyLoop
  rw [if_neg hmore]
  dsimp only
  rw [hr]
  cases hrest : copyLoop req fuel r.table (resNext srcMm r.size) (resNext dstMm r.size) <;>
    simp [hrest]

theorem copyLoop_end (h : srcMm.remaining = 0) : copyLoop req fuel table srcMm dstMm = some [] := by
  unfold copyLoop
  exact if_pos h

theorem copyLoop_rounds (hsrc : srcMm.At req.src.mem.blocks (req.src.offset + pos) rem)
    (hdst : dstMm.At req.dst.mem.blocks (req.dst.offset + pos) rem)
    (hsb : Bound adev req.src table) (hdb : Bound adev req.dst table) (hfuel : rem ≤ fuel)
    (hend : pos + rem = req.size) :
    ∃ rounds, copyLoop req fuel table srcMm dstMm = some rounds ∧
      (RoundsRight req pos rounds ↔
        ∀ r ∈ rounds, Good req r.srcMm r.dstMm (curSize r.srcMm r.dstMm)) := by
  induction fuel generalizing table srcMm dstMm pos rem with
  | zero =>
    have hzero : rem = 0 := Nat.le_zero.mp hfuel
    refine ⟨[], copyLoop_end (hsrc.remaining_eq.trans hzero), ?_⟩
    exact iff_of_true (show pos = req.size by omega) fun r hr => absurd hr not_mem_nil
  | succ fuel ih =>
    by_cases hdone : rem = 0
    · refine ⟨[], copyLoop_end (hsrc.remaining_eq.trans hdone), ?_⟩
      exact iff_of_true (show pos = req.size by omega) fun r hr => absurd hr not_mem_nil
    · have hrem : 0 < rem := Nat.pos_of_ne_zero hdone
      have hmore : srcMm.remaining ≠ 0 := by rwa [hsrc.remaining_eq]
      obtain ⟨r, hr, hspec⟩ := copyRound_spec req table srcMm dstMm
      have hsle := hsrc.size_le hrem
      have hspos := hsrc.size_pos hrem
      have hdpos := hdst.size_pos hrem
      have hcur : r.size ≤ srcMm.size ∧ r.size ≤ dstMm.size ∧ 0 < curSize srcMm dstMm := by
        have hle := hspec.size_le
        unfold curSize at hle ⊢
        omega
      have hpos := hspec.size_pos hcur.2.2
      have hsnext := hsrc.next hcur.1 (hcur.1.trans hsle)
      have hdnext := hdst.next hcur.2.1 (hcur.1.trans hsle)
      rw [add_assoc] at hsnext hdnext
      obtain ⟨rounds, hrounds, hiff⟩ := ih hsnext hdnext (hspec.bound req.src_ok hsb)
        (hspec.bound req.dst_ok hdb) (by omega) (by omega)
      refine ⟨r :: rounds, ?_, ?_⟩
      · rw [copyLoop_step hmore hr, hrounds]
        rfl
      · have hround := hspec.roundRight_iff hsrc hdst hrem hsb hdb
        rw [forall_mem_cons, hspec.srcMm_eq, hspec.dstMm_eq, ← hround, ← hiff]
        rfl

end Loop

/-! ## The pieces -/

section Pieces
variable {req : Request adev} {table : Nat → Nat} {srcMm dstMm : Cursor} {fuel : Nat}

/-- Each piece of the resources is something that the windows it needs can map. -/
def PiecesGood (req : Request adev) (ps : List (Cursor × Cursor)) : Prop :=
  ∀ p ∈ ps, Good req p.1 p.2 (min p.1.size p.2.size)

theorem pieces_step (hmore : srcMm.remaining ≠ 0) :
    pieces (fuel + 1) srcMm dstMm = (srcMm, dstMm) ::
      pieces fuel (resNext srcMm (min srcMm.size dstMm.size))
        (resNext dstMm (min srcMm.size dstMm.size)) := by
  conv_lhs => unfold pieces
  rw [if_neg hmore]

theorem pieces_end (h : srcMm.remaining = 0) : pieces fuel srcMm dstMm = [] := by
  unfold pieces
  exact if_pos h

variable {m : CopyMem}

theorem fits_limit {cur : Cursor} {n : Nat} :
    Fits adev m cur (min n (256 * 2 ^ 20)) ↔ Fits adev m cur n := by
  rcases adev.ratio_cases with h1 | h16
  · exact ⟨fits_of_ratio_one h1 _, fits_of_ratio_one h1 _⟩
  · rcases le_total n (256 * 2 ^ 20) with hle | hle
    · rw [min_eq_left hle]
    · rw [min_eq_right hle]
      refine iff_of_false (fun hfits => ?_) fun hfits => ?_
      · have hpages := hfits.pages h16
        omega
      · have hpages := hfits.pages h16
        omega

theorem good_limit : Good req srcMm dstMm (curSize srcMm dstMm) ↔
    Good req srcMm dstMm (min srcMm.size dstMm.size) :=
  ⟨fun h => ⟨fun hw => fits_limit.mp (h.src hw), fun hw => fits_limit.mp (h.dst hw)⟩,
    fun h => ⟨fun hw => fits_limit.mpr (h.src hw), fun hw => fits_limit.mpr (h.dst hw)⟩⟩

/-- Where the pieces make no difference: with CPU pages of 4 KB, and without windows. -/
def Uniform (req : Request adev) : Prop :=
  adev.ratio = 1 ∨ ¬(Windowed req.src req.tmz ∨ Windowed req.dst req.tmz)

theorem fits_uniform {cur cur' : Cursor} {n k : Nat} (h : adev.ratio = 1)
    (hfits : Fits adev m cur n) : Fits adev m cur' k := by
  refine ⟨hfits.start, ?_, fun _ => ?_⟩
  · rw [h, mul_one]
    exact min_le_right ..
  · have hpage : adev.pageSize = gpuPageSize := by rw [adev.pageSize_eq, h, mul_one]
    rw [hpage]
    exact Nat.mod_lt _ (by decide)

theorem good_uniform {s s' d d' : Cursor} {n k : Nat} (h : Uniform req) (hgood : Good req s d n) :
    Good req s' d' k := by
  rcases h with h1 | hnone
  · exact ⟨fun hw => fits_uniform h1 (hgood.src hw), fun hw => fits_uniform h1 (hgood.dst hw)⟩
  · exact ⟨fun hw => absurd (.inl hw) hnone, fun hw => absurd (.inr hw) hnone⟩

theorem RoundSpec.size_eq {r : Round} (h : RoundSpec req table srcMm dstMm r)
    (huni : ¬ Uniform req) (hgood : Good req srcMm dstMm (curSize srcMm dstMm)) :
    r.size = min srcMm.size dstMm.size := by
  have h16 : adev.ratio = 16 := adev.ratio_cases.resolve_left fun h1 => huni (.inl h1)
  have hwin : Windowed req.src req.tmz ∨ Windowed req.dst req.tmz := by
    by_contra hnone
    exact huni (.inr hnone)
  have hsrc := mapBuffer_whole req.src_ok h16 h.src hgood.src
  have hdst : r.size = curSize srcMm dstMm := by
    refine (mapBuffer_whole req.dst_ok h16 h.dst fun hw => ?_).trans hsrc
    rw [hsrc]
    exact hgood.dst hw
  have hsmall : curSize srcMm dstMm ≤ 2 ^ 21 := by
    rcases hwin with hw | hw
    · have hpages := (hgood.src hw).pages h16
      omega
    · have hpages := (hgood.dst hw).pages h16
      omega
  rw [hdst]
  unfold curSize at hsmall ⊢
  omega

theorem rounds_good_end {rounds : List Round} (hdone : srcMm.remaining = 0)
    (hrun : copyLoop req fuel table srcMm dstMm = some rounds) :
    (∀ r ∈ rounds, Good req r.srcMm r.dstMm (curSize r.srcMm r.dstMm)) ↔
      PiecesGood req (pieces fuel srcMm dstMm) := by
  rw [copyLoop_end hdone] at hrun
  obtain rfl := some.inj hrun
  rw [pieces_end hdone]
  exact iff_of_true (fun r hr => absurd hr not_mem_nil) fun p hp => absurd hp not_mem_nil

theorem rounds_good_iff {rounds : List Round}
    (hrun : copyLoop req fuel table srcMm dstMm = some rounds) :
    (∀ r ∈ rounds, Good req r.srcMm r.dstMm (curSize r.srcMm r.dstMm)) ↔
      PiecesGood req (pieces fuel srcMm dstMm) := by
  induction fuel generalizing table srcMm dstMm rounds with
  | zero =>
    by_cases hdone : srcMm.remaining = 0
    · exact rounds_good_end hdone hrun
    · unfold copyLoop at hrun
      rw [if_neg hdone] at hrun
      exact absurd hrun (by simp)
  | succ fuel ih =>
    by_cases hdone : srcMm.remaining = 0
    · exact rounds_good_end hdone hrun
    · obtain ⟨r, hr, hspec⟩ := copyRound_spec req table srcMm dstMm
      rw [copyLoop_step hdone hr] at hrun
      obtain ⟨rest, hrest, rfl⟩ := map_eq_some_iff.mp hrun
      rw [PiecesGood, pieces_step hdone, forall_mem_cons, forall_mem_cons,
        hspec.srcMm_eq, hspec.dstMm_eq, good_limit]
      refine and_congr_right fun hgood => ?_
      by_cases huni : Uniform req
      · exact iff_of_true (fun q _ => good_uniform huni hgood) fun p _ => good_uniform huni hgood
      · -- the next round starts with the next piece
        rw [hspec.size_eq huni (good_limit.mpr hgood)] at hrest
        exact ih hrest

/-- The cursor of an offset inside a resource. -/
theorem CopyMem.Ok.first {size : Nat} (hok : m.Ok adev)
    (hin : m.offset < m.mem.size ∧ m.offset + size ≤ m.mem.size) :
    ∃ cur, resFirst m.mem.blocks m.offset size = some cur ∧ cur.At m.mem.blocks m.offset size := by
  have hle := hok.size_le
  exact resFirst_at hok.block_pos (by omega) (by omega)

def HasGartAddr (m : CopyMem) : Prop := m.mem.memType = .tt ∧ m.mem.start.isSome

theorem windowed_start {tmz : Bool} :
    (Windowed m tmz → m.mem.memType = .tt → m.mem.start = none) ↔
      ¬(tmz = true ∧ HasGartAddr m) := by
  unfold Windowed HasGartAddr
  cases tmz <;> cases m.mem.start <;> simp

theorem copyRight_iff_pieces
    (hsrc : resFirst req.src.mem.blocks req.src.offset req.size = some srcMm)
    (hdst : resFirst req.dst.mem.blocks req.dst.offset req.size = some dstMm) :
    CopyRight req ↔ PiecesGood req (pieces req.size srcMm dstMm) := by
  have hsat : srcMm.At req.src.mem.blocks (req.src.offset + 0) req.size := by
    obtain ⟨cur, hcur, hat⟩ := req.src_ok.first req.src_in
    exact some.inj (hcur.symm.trans hsrc) ▸ hat
  have hdat : dstMm.At req.dst.mem.blocks (req.dst.offset + 0) req.size := by
    obtain ⟨cur, hcur, hat⟩ := req.dst_ok.first req.dst_in
    exact some.inj (hcur.symm.trans hdst) ▸ hat
  obtain ⟨rounds, hrun, hiff⟩ := copyLoop_rounds hsat hdat req.src_bound req.dst_bound
    (le_refl req.size) (zero_add req.size)
  have hcopy : copyMemToMem req = some rounds := by
    simp only [copyMemToMem, hsrc, hdst, bind_eq_bind, bind_some, hrun]
  rw [← rounds_good_iff hrun, ← hiff]
  constructor
  · rintro ⟨other, hother, hright⟩
    obtain rfl := some.inj (hcopy.symm.trans hother)
    exact hright
  · exact fun hright => ⟨rounds, hcopy, hright⟩

/-- With CPU pages of 4 KB a copy is right, except for a secure copy from or to a GTT resource with
an address. -/
theorem copyMemToMem_right_page (req : Request adev) (h : adev.pageSize = 4096) :
    CopyRight req ↔
      req.size = 0 ∨ ¬(req.tmz = true ∧ (HasGartAddr req.src ∨ HasGartAddr req.dst)) := by
  have h1 : adev.ratio = 1 := by rw [Device.ratio, h]; rfl
  obtain ⟨srcMm, hsrc, hsat⟩ := req.src_ok.first req.src_in
  obtain ⟨dstMm, hdst, -⟩ := req.dst_ok.first req.dst_in
  rw [copyRight_iff_pieces hsrc hdst]
  rcases Nat.eq_zero_or_pos req.size with hzero | hpos
  · rw [pieces_end (hsat.remaining_eq.trans hzero)]
    exact iff_of_true (fun p hp => absurd hp not_mem_nil) (.inl hzero)
  · obtain ⟨fuel, hfuel⟩ := Nat.exists_eq_add_of_lt hpos
    have hmore : srcMm.remaining ≠ 0 := by
      rw [hsat.remaining_eq]
      omega
    have hall : PiecesGood req (pieces req.size srcMm dstMm) ↔
        Good req srcMm dstMm (min srcMm.size dstMm.size) := by
      rw [hfuel, zero_add, pieces_step hmore, PiecesGood, forall_mem_cons]
      exact and_iff_left_of_imp fun hgood _ _ => good_uniform (.inl h1) hgood
    have hfits {m : CopyMem} {cur : Cursor} {n : Nat} :
        Fits adev m cur n ↔ (m.mem.memType = .tt → m.mem.start = none) := by
      refine ⟨Fits.start, fun hstart => ⟨hstart, ?_, fun _ => ?_⟩⟩
      · rw [h1, mul_one]
        exact min_le_right ..
      · rw [h]
        exact Nat.mod_lt _ (by decide)
    have hgood : Good req srcMm dstMm (min srcMm.size dstMm.size) ↔
        ¬(req.tmz = true ∧ HasGartAddr req.src) ∧ ¬(req.tmz = true ∧ HasGartAddr req.dst) := by
      rw [← windowed_start, ← windowed_start]
      exact ⟨fun hg => ⟨fun hw => hfits.mp (hg.src hw), fun hw => hfits.mp (hg.dst hw)⟩,
        fun hg => ⟨fun hw => hfits.mpr (hg.1 hw), fun hw => hfits.mpr (hg.2 hw)⟩⟩
    rw [hall, hgood, or_iff_right hpos.ne', and_or_left, not_or]

/-- A copy is right when the windows can map each piece of its resources that goes through them. -/
theorem copyMemToMem_right_iff (req : Request adev) :
    CopyRight req ↔ PiecesGood req req.pieces := by
  obtain ⟨srcMm, hsrc, -⟩ := req.src_ok.first req.src_in
  obtain ⟨dstMm, hdst, -⟩ := req.dst_ok.first req.dst_in
  have hpieces : req.pieces = pieces req.size srcMm dstMm := by
    simp only [Request.pieces, hsrc, hdst]
  rw [hpieces]
  exact copyRight_iff_pieces hsrc hdst

end Pieces

end

/-! ## A secure copy from the GTT -/

def exDevice : Device where
  pageSize := 4096
  vramStart := 0
  vramSize := 2 ^ 30
  gartStart := 2 ^ 40
  gartSize := 2 ^ 30
  vramBaseOffset := 0
  gartPteFlags := 0
  page := by decide
  apart := by decide
  windows := by decide
  base_aligned := by decide
  base_room := by decide
  flags_addr := by decide
  flags_system := by decide

def exSrc : CopyMem where
  mem :=
    { memType := .tt
      start := some 1024
      size := 4096
      blocks := [⟨1024 * 4096, 4096⟩]
      busCached := false }
  dmaAddress := [2 ^ 20]
  cached := true
  readonly := false
  offset := 0

def exDst : CopyMem where
  mem :=
    { memType := .vram
      start := some 0
      size := 4096
      blocks := [⟨0, 4096⟩]
      busCached := false }
  dmaAddress := []
  cached := false
  readonly := false
  offset := 0

def exRequest : Request exDevice where
  src := exSrc
  dst := exDst
  size := 4096
  tmz := true
  table := fun _ => setPtePde (2 ^ 20) (mapFlags exDevice exSrc true)
  src_ok := .gtt 1024 rfl rfl (by decide) (by decide) (by simp [exSrc])
    (fun s hs => by
      obtain rfl := some.inj hs
      decide) (by decide) (by decide)
  dst_ok := .vram rfl rfl (by decide) (by decide) (by decide)
  src_bound := fun first _ hstart => by
    obtain rfl := some.inj hstart
    exact ⟨true, by decide +kernel⟩
  dst_bound := fun _ hmem => absurd hmem (by decide)
  src_in := by decide
  dst_in := by decide

theorem copyMemToMem_right_page_exRequest : CopyRight exRequest ↔
    exRequest.size = 0 ∨ ¬(exRequest.tmz = true ∧ (HasGartAddr exSrc ∨ HasGartAddr exDst)) :=
  copyMemToMem_right_page exRequest rfl

/-- The page array of one page is read at index `1024`. -/
theorem copyMemToMem_secure_gtt : ¬ CopyRight exRequest := by
  rintro ⟨rounds, hrun, hright⟩
  have hindexes : (copyMemToMem exRequest).map (·.map fun r => r.srcMap.indexes) =
      some [[1024]] := by decide +kernel
  rw [hrun, map_some, Option.some.injEq] at hindexes
  cases rounds with
  | nil => exact absurd hindexes (by simp)
  | cons r rest =>
    rw [map_cons, List.cons.injEq] at hindexes
    have hlt := hright.1.src.indexes 1024 (by rw [hindexes.1]; exact mem_singleton_self _)
    exact absurd hlt (by decide)

end Amdkfd.Ttm
