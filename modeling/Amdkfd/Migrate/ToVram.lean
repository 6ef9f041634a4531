import Amdkfd.Migrate.Model

/-!
# Which pages go to VRAM

`svm_migrate_copy_to_vram` gives every page up to `cpages` a destination at its own offset, and
copies those that are in system memory, in batches that end at a gap or with a block of VRAM.
-/

namespace Amdkfd.Migrate

open Lib Function List
open Ttm (Cursor resFirst resNext resFirst_at resFirst_ends)

/-! ## A copy in parts -/

section Copy
variable {hw : Hw} {dir : Direction} {i n : Nat} {scratch : Nat → Nat}

def CopyFails (hw : Hw) (i n : Nat) : Prop :=
  if n = 0 then hw.uninit ≠ none
  else ∃ part, part * gttMaxPages < n ∧ (hw.gartMap i part ≠ none ∨ hw.copyBuffer i part ≠ none)

def PartsOk (hw : Hw) (i part npages : Nat) : Prop :=
  ∀ p, p * gttMaxPages < npages → hw.gartMap i (part + p) = none ∧ hw.copyBuffer i (part + p) = none

theorem partsOk_zero (part : Nat) : PartsOk hw i part 0 := fun _ hp => absurd hp (Nat.not_lt_zero _)

theorem partsOk_iff {part npages : Nat} (hpos : npages ≠ 0) :
    PartsOk hw i part npages ↔ (hw.gartMap i part = none ∧ hw.copyBuffer i part = none) ∧
      PartsOk hw i (part + 1) (npages - min gttMaxPages npages) := by
  constructor
  · intro h
    refine ⟨h 0 (by omega), fun p hp => ?_⟩
    have := h (p + 1) (by rw [Nat.succ_mul]; omega)
    rwa [add_comm p 1, ← add_assoc] at this
  · rintro ⟨hfirst, hrest⟩ p hp
    cases p with
    | zero => exact hfirst
    | succ p =>
      have := hrest p (by rw [Nat.succ_mul] at hp; omega)
      rwa [add_assoc, add_comm 1 p] at this

variable {r : Option Int}

theorem copyParts_none_iff {fuel part sys vram npages : Nat} (hfuel : npages ≤ fuel) :
    (copyParts hw dir i scratch fuel part sys vram npages r).2 = none ↔
      (npages = 0 → r = none) ∧ PartsOk hw i part npages := by
  induction fuel generalizing part sys vram npages r with
  | zero =>
    obtain rfl : npages = 0 := Nat.le_zero.mp hfuel
    simp [copyParts, partsOk_zero]
  | succ fuel ih =>
    unfold copyParts
    by_cases hzero : npages = 0
    · subst hzero
      simp [partsOk_zero]
    have hsize : 0 < min gttMaxPages npages :=
      lt_min (by decide) (Nat.pos_of_ne_zero hzero)
    rw [if_neg hzero, partsOk_iff hzero]
    dsimp only
    cases hmap : hw.gartMap i part with
    | some e => simp
    | none =>
      cases hcopy : hw.copyBuffer i part with
      | some e => simp
      | none =>
        dsimp only
        rw [ih (by omega)]
        simp [hzero]

def pageCopies (hw : Hw) (dir : Direction) (scratch : Nat → Nat) (sys vram npages : Nat) :
    List PageCopy :=
  (range npages).map fun q => ⟨dir, scratch (sys + q), scratch (vram + q) + hw.vramStart⟩

theorem partCopies_eq {sys vram size : Nat}
    (hvram : ∀ q < size, scratch (vram + q) = scratch vram + q * pageSize) :
    partCopies hw dir scratch sys vram size = pageCopies hw dir scratch sys vram size := by
  refine map_congr_left fun q hq => ?_
  rw [hvram q (mem_range.mp hq)]
  congr 1
  exact add_right_comm ..

theorem pageCopies_add (sys vram n k : Nat) :
    pageCopies hw dir scratch sys vram (n + k) =
      pageCopies hw dir scratch sys vram n ++ pageCopies hw dir scratch (sys + n) (vram + n) k := by
  simp only [pageCopies, range_add, map_append, map_map, comp_def,
    add_assoc]

theorem copyParts_eq {fuel part sys vram npages : Nat} (hfuel : npages ≤ fuel)
    (hvram : ∀ q < npages, scratch (vram + q) = scratch vram + q * pageSize)
    (hok : PartsOk hw i part npages) :
    (copyParts hw dir i scratch fuel part sys vram npages r).1 =
      pageCopies hw dir scratch sys vram npages := by
  induction fuel generalizing part sys vram npages r with
  | zero =>
    obtain rfl : npages = 0 := Nat.le_zero.mp hfuel
    rfl
  | succ fuel ih =>
    by_cases hzero : npages = 0
    · subst hzero
      simp [copyParts, pageCopies]
    obtain ⟨⟨hmap, hcopy⟩, hok⟩ := (partsOk_iff hzero).mp hok
    have hpos : 0 < min gttMaxPages npages := lt_min (by decide) (Nat.pos_of_ne_zero hzero)
    generalize hsize : min gttMaxPages npages = size at hpos hok
    have hle : size ≤ npages := by omega
    have hrest : ∀ q < npages - size,
        scratch (vram + size + q) = scratch (vram + size) + q * pageSize := by
      intro q hq
      rw [add_assoc, hvram (size + q) (by omega), hvram size (by omega), add_mul,
        add_assoc]
    unfold copyParts
    rw [if_neg hzero, hmap, hcopy]
    dsimp only
    rw [hsize, ih (by omega) hrest hok, partCopies_eq fun q hq => hvram q (by omega),
      ← pageCopies_add, Nat.add_sub_cancel' hle]

theorem copyMemoryGart_none_iff (hw : Hw) (dir : Direction) (i sys vram n : Nat) (m : Mem) :
    (copyMemoryGart hw dir i sys vram n m).2 = none ↔ ¬CopyFails hw i n := by
  show (copyParts hw dir i m.scratch n 0 sys vram n hw.uninit).2 = none ↔ _
  rw [copyParts_none_iff le_rfl, CopyFails]
  by_cases hzero : n = 0
  · rw [if_pos hzero, hzero, not_not]
    exact ⟨fun h => h.1 rfl, fun h => ⟨fun _ => h, partsOk_zero 0⟩⟩
  · rw [if_neg hzero]
    push Not
    simp only [PartsOk, zero_add]
    exact ⟨fun h => h.2, fun h => ⟨fun hn => absurd hn hzero, h⟩⟩

theorem copyMemoryGart_copied {sys vram : Nat} {m : Mem} (hok : ¬CopyFails hw i n)
    (hvram : ∀ q < n, m.scratch (vram + q) = m.scratch vram + q * pageSize) :
    copyMemoryGart hw dir i sys vram n m =
      ({ m with copied := m.copied ++ pageCopies hw dir m.scratch sys vram n }, none) := by
  have hnone := (copyMemoryGart_none_iff hw dir i sys vram n m).mpr hok
  have hparts := (copyParts_none_iff le_rfl).mp hnone
  refine Prod.ext ?_ hnone
  show { m with copied := m.copied ++ (copyParts ..).1 } = _
  rw [copyParts_eq le_rfl hvram hparts.2]

end Copy

/-! ## The cursor -/

structure Room (blocks : List Extent) (first npages : Nat) : Prop where
  pos : ∀ block ∈ blocks, 0 < block.size
  dvd : ∀ block ∈ blocks, pageSize ∣ block.size
  room : (first + npages) * pageSize ≤ Extent.total blocks

def vramAddr (blocks : List Extent) (first k : Nat) : Nat :=
  (Extent.locate blocks ((first + k) * pageSize)).getD 0

def BlockEnds (blocks : List Extent) (first k : Nat) : Prop :=
  Extent.endOf blocks ((first + k) * pageSize) = (first + k + 1) * pageSize
  deriving Decidable

/-- The cursor is at page `b`, where a batch starts that has `j` pages and room for one more. -/
structure Walk (blocks : List Extent) (first cpages : Nat) (cur : Cursor) (b j : Nat) :
    Prop where
  at_ : cur.At blocks ((first + b) * pageSize) ((cpages - b) * pageSize)
  ends : cur.Ends blocks ((first + b) * pageSize) ((cpages - b) * pageSize)
  fits : b + j < cpages → (j + 1) * pageSize ≤ cur.size

section Walk
variable {hw : Hw} {blocks : List Extent} {first cpages b j : Nat} {cur : Cursor}

theorem Walk.remaining_pos (h : b + j < cpages) : 0 < (cpages - b) * pageSize :=
  mul_pos (by omega) pageSize_pos

theorem Walk.addr (h : Walk blocks first cpages cur b j) (hlt : b + j < cpages) {q : Nat}
    (hq : q ≤ j) : vramAddr blocks first (b + q) = cur.start + q * pageSize := by
  have hin : q * pageSize < cur.size :=
    calc q * pageSize < (q + 1) * pageSize :=
          Nat.mul_lt_mul_of_pos_right (Nat.lt_succ_self q) pageSize_pos
      _ ≤ (j + 1) * pageSize := Nat.mul_le_mul_right _ (Nat.succ_le_succ hq)
      _ ≤ cur.size := h.fits hlt
  have hloc := h.at_.locate (Walk.remaining_pos hlt) hin
  rw [← add_mul, add_assoc] at hloc
  rw [vramAddr, hloc]
  rfl

theorem dvd_size (hroom : ∀ block ∈ blocks, pageSize ∣ block.size) (hlt : b < cpages)
    (h : cur.Ends blocks ((first + b) * pageSize) ((cpages - b) * pageSize)) :
    pageSize ∣ cur.size := by
  have hsize := h.size_eq (mul_pos (Nat.sub_pos_of_lt hlt) pageSize_pos)
  have hpos : pageSize ∣ (first + b) * pageSize := Dvd.intro_left _ rfl
  have hrem : pageSize ∣ (cpages - b) * pageSize := Dvd.intro_left _ rfl
  refine (Nat.dvd_add_right hpos).mp ?_
  rw [hsize]
  rcases min_choice (Extent.endOf blocks ((first + b) * pageSize))
    ((first + b) * pageSize + (cpages - b) * pageSize) with heq | heq
  · rw [heq]
    exact Extent.dvd_endOf hroom _
  · rw [heq]
    exact Nat.dvd_add hpos hrem

section
variable (h : Walk blocks first cpages cur b j)
include h

theorem Walk.blockEnds_iff (hlt : b + j + 1 < cpages) :
    BlockEnds blocks first (b + j) ↔ cur.size = (j + 1) * pageSize := by
  have hfits := h.fits (by omega)
  have hsize := h.ends.size_eq (Walk.remaining_pos (show b + j < cpages by omega))
  have hrem : (j + 1 + 1) * pageSize ≤ (cpages - b) * pageSize :=
    Nat.mul_le_mul_right _ (by omega)
  have hpos := pageSize_pos
  have hplace : (first + (b + j)) * pageSize = (first + b) * pageSize + j * pageSize := by
    rw [← add_mul, add_assoc]
  have hafter : (first + (b + j) + 1) * pageSize =
      (first + b) * pageSize + (j + 1) * pageSize := by
    rw [← add_mul, ← add_assoc, add_assoc]
  rw [Nat.succ_mul] at hrem
  rw [Nat.succ_mul] at hfits hrem
  have hend : Extent.endOf blocks ((first + b) * pageSize + j * pageSize) =
      Extent.endOf blocks ((first + b) * pageSize) := Extent.endOf_add (by omega)
  rw [BlockEnds, hplace, hend, hafter, Nat.succ_mul]
  omega

theorem Walk.grow (hroom : ∀ block ∈ blocks, pageSize ∣ block.size)
    (hfull : b + j + 1 < cpages → cur.size ≠ (j + 1) * pageSize) :
    Walk blocks first cpages cur b (j + 1) := by
  refine ⟨h.at_, h.ends, fun hlt => ?_⟩
  have hfits := h.fits (by omega)
  obtain ⟨c, hc⟩ := dvd_size hroom (by omega) h.ends
  rw [mul_comm] at hc
  have hne := hfull (by omega)
  rw [hc] at hfits hne ⊢
  have hle : j + 1 ≤ c := Nat.le_of_mul_le_mul_right hfits pageSize_pos
  have hne : j + 1 ≠ c := fun heq => hne (by rw [heq])
  exact Nat.mul_le_mul_right _ (by omega)

theorem Walk.next (hroom : ∀ block ∈ blocks, pageSize ∣ block.size) (hlt : b + j < cpages) :
    Walk blocks first cpages (resNext cur ((j + 1) * pageSize)) (b + j + 1) 0 := by
  have hfits := h.fits hlt
  have hrem : (j + 1) * pageSize ≤ (cpages - b) * pageSize :=
    Nat.mul_le_mul_right _ (by omega)
  have hat := h.at_.next hfits hrem
  have hends := h.ends.next h.at_ hfits hrem
  have hplace : (first + b) * pageSize + (j + 1) * pageSize =
      (first + (b + j + 1)) * pageSize := by
    rw [← add_mul]
    congr 1
    omega
  have hleft : (cpages - b) * pageSize - (j + 1) * pageSize =
      (cpages - (b + j + 1)) * pageSize := by
    rw [← Nat.sub_mul]
    congr 1
    omega
  rw [hplace, hleft] at hat hends
  refine ⟨hat, hends, fun hmore => ?_⟩
  have hmore : b + j + 1 < cpages := hmore
  have hpos := hat.size_pos (mul_pos (Nat.sub_pos_of_lt hmore) pageSize_pos)
  rw [zero_add, one_mul]
  exact Nat.le_of_dvd hpos (dvd_size hroom hmore hends)

/-- The test of the source for a batch that ends with its block. -/
theorem Walk.full_iff (hroom : ∀ block ∈ blocks, pageSize ∣ block.size) (hlt : b + j < cpages) :
    1 ≤ cur.size / pageSize ∧ cur.size / pageSize - 1 ≤ j ∧ b + j < cpages - 1 ↔
      BlockEnds blocks first (b + j) ∧ b + j + 1 < cpages := by
  have hfits := h.fits hlt
  obtain ⟨c, hc⟩ := dvd_size hroom (by omega) h.ends
  have hdiv : cur.size / pageSize = c := by
    rw [hc, Nat.mul_div_cancel_left c pageSize_pos]
  rw [mul_comm] at hc
  rw [hc] at hfits
  have hle : j + 1 ≤ c := Nat.le_of_mul_le_mul_right hfits pageSize_pos
  rw [hdiv]
  constructor
  · rintro ⟨-, hfull, hmore⟩
    have hmore : b + j + 1 < cpages := by omega
    refine ⟨(h.blockEnds_iff hmore).mpr ?_, hmore⟩
    rw [hc, show c = j + 1 by omega]
  · rintro ⟨hend, hmore⟩
    have heq := (h.blockEnds_iff hmore).mp hend
    rw [hc] at heq
    obtain rfl : c = j + 1 := Nat.eq_of_mul_eq_mul_right pageSize_pos heq
    exact ⟨by omega, by omega, by omega⟩

end

theorem walk_init (hroom : Room blocks first cpages) (hpos : 0 < cpages) :
    Walk blocks first cpages (vramCursor blocks first cpages) 0 0 := by
  have htotal := hroom.room
  rw [add_mul] at htotal
  have hbytes : 0 < cpages * pageSize := mul_pos hpos pageSize_pos
  have hstart : first * pageSize < Extent.total blocks := by omega
  obtain ⟨cur, hcur, hat⟩ := resFirst_at hroom.pos hstart htotal
  have hends := resFirst_ends hcur
  have heq : vramCursor blocks first cpages = cur := by rw [vramCursor, hcur]; rfl
  rw [heq]
  refine ⟨hat, hends, fun _ => ?_⟩
  rw [zero_add, one_mul]
  exact Nat.le_of_dvd (hat.size_pos hbytes) (dvd_size hroom.dvd hpos hends)

end Walk

/-! ## What a page does -/

/-- The pages before page `i` that are not copied yet: those in memory since the last gap or the
last end of a block, which for the last page does not count. -/
def pending (hw : Hw) (blocks : List Extent) (first : Nat) (migrate : MigrateVma) : Nat → Nat
  | 0 => 0
  | i + 1 =>
    if hw.Present (migrate.src i) ∧ (BlockEnds blocks first i → i + 1 = migrate.cpages) then
      pending hw blocks first migrate i + 1
    else 0

def VramFails (hw : Hw) (blocks : List Extent) (first : Nat) (migrate : MigrateVma) (i : Nat) :
    Prop :=
  if hw.Present (migrate.src i) then
    dmaMappingError (hw.dmaMapPage i) ≠ none ∨
      (BlockEnds blocks first i ∧ i + 1 < migrate.cpages) ∧
        CopyFails hw i (pending hw blocks first migrate i + 1)
  else
    0 < pending hw blocks first migrate i ∧ CopyFails hw i (pending hw blocks first migrate i)

def vramScratch (hw : Hw) (blocks : List Extent) (first : Nat) (migrate : MigrateVma) (n : Nat) :
    Nat → Nat := fun x =>
  if x < migrate.cpages then
    if x < n ∧ hw.Present (migrate.src x) then hw.dmaMapPage x else 0
  else if x - migrate.cpages < n then vramAddr blocks first (x - migrate.cpages) else 0

/-- The destination of page `k`. -/
def vramPfn (hw : Hw) (blocks : List Extent) (first k : Nat) : Nat :=
  hw.addrToPfn (vramAddr blocks first k)

structure MemAt (hw : Hw) (blocks : List Extent) (first : Nat) (migrate : MigrateVma) (n : Nat)
    (m : Mem) : Prop where
  scratch : m.scratch = vramScratch hw blocks first migrate n
  dst : m.dst = fun k => if k < n then some (vramPfn hw blocks first k) else none
  pages : m.pages.Holds ((range n).map (vramPfn hw blocks first))

/-- The pages before `n` that are in memory. -/
def presentPages (hw : Hw) (src : Nat → SrcEntry) (n : Nat) : List Nat :=
  (range n).filter fun k => hw.Present (src k)

def copyAt (hw : Hw) (blocks : List Extent) (first k : Nat) : PageCopy :=
  ⟨.ramToVram, hw.dmaMapPage k, vramAddr blocks first k + hw.vramStart⟩

/-- The loop is at a page, and all operations before it went well. -/
structure VramInv (hw : Hw) (blocks : List Extent) (first : Nat) (migrate : MigrateVma)
    (s : VramState) : Prop where
  le : s.i ≤ migrate.cpages
  j_eq : s.j = pending hw blocks first migrate s.i
  walk : s.i < migrate.cpages → Walk blocks first migrate.cpages s.cursor (s.i - s.j) s.j
  batch : ∀ q < s.j, vramAddr blocks first (s.i - s.j + q) =
    vramAddr blocks first (s.i - s.j) + q * pageSize
  mem : MemAt hw blocks first migrate s.i s.m
  dma : s.m.dma.Holds ((presentPages hw migrate.src s.i).map hw.dmaMapPage)
  copied : s.m.copied = (presentPages hw migrate.src (s.i - s.j)).map (copyAt hw blocks first)

section Page
variable {hw : Hw} {blocks : List Extent} {first : Nat} {migrate : MigrateVma} {s : VramState}
  {i n : Nat} {m : Mem}

theorem pending_le (i : Nat) : pending hw blocks first migrate i ≤ i := by
  induction i with
  | zero => exact le_rfl
  | succ i ih =>
    unfold pending
    split
    · exact Nat.succ_le_succ ih
    · exact Nat.zero_le _

variable {k : Nat} {p : Nat → Prop} {b : Nat}

theorem pending_present (hk : i - pending hw blocks first migrate i ≤ k) (hlt : k < i) :
    hw.Present (migrate.src k) := by
  induction i with
  | zero => exact absurd hlt (Nat.not_lt_zero k)
  | succ i ih =>
    unfold pending at hk
    split at hk
    case isTrue h =>
      rcases Nat.lt_succ_iff_lt_or_eq.mp hlt with hlt | rfl
      · exact ih (by omega) hlt
      · exact h.1
    case isFalse => omega

theorem filter_range_succ_of_pos [DecidablePred p] (h : p i) :
    (range (i + 1)).filter p = (range i).filter p ++ [i] := by
  simp [range_succ, h]

theorem filter_range_succ_of_neg [DecidablePred p] (h : ¬p i) :
    (range (i + 1)).filter p = (range i).filter p := by
  simp [range_succ, h]

theorem presentPages_succ_of_present (h : hw.Present (migrate.src i)) :
    presentPages hw migrate.src (i + 1) = presentPages hw migrate.src i ++ [i] :=
  filter_range_succ_of_pos h

theorem presentPages_succ_of_not (h : ¬hw.Present (migrate.src i)) :
    presentPages hw migrate.src (i + 1) = presentPages hw migrate.src i :=
  filter_range_succ_of_neg h

theorem presentPages_add (h : ∀ q < n, hw.Present (migrate.src (b + q))) :
    presentPages hw migrate.src (b + n) =
      presentPages hw migrate.src b ++ (range n).map (b + ·) := by
  induction n with
  | zero => simp
  | succ n ih =>
    rw [← add_assoc, presentPages_succ_of_present (h n (Nat.lt_succ_self n)),
      ih fun q hq => h q (Nat.lt_succ_of_lt hq), range_succ, map_append,
      append_assoc]
    rfl

theorem vramScratch_vram (k : Nat) (hk : k < n) :
    vramScratch hw blocks first migrate n (migrate.cpages + k) = vramAddr blocks first k := by
  rw [vramScratch, if_neg (not_lt.mpr (Nat.le_add_right _ _)), Nat.add_sub_cancel_left,
    if_pos hk]

theorem vramScratch_sys (hk : k < n) (hlt : k < migrate.cpages) (h : hw.Present (migrate.src k)) :
    vramScratch hw blocks first migrate n k = hw.dmaMapPage k := by
  rw [vramScratch, if_pos hlt, if_pos ⟨hk, h⟩]

theorem vramScratch_get (x : Nat) (hx : x ≠ i) :
    update (vramScratch hw blocks first migrate i) (migrate.cpages + i)
      (vramAddr blocks first i) x = vramScratch hw blocks first migrate (i + 1) x := by
  by_cases hdst : x = migrate.cpages + i
  · rw [hdst, update_self, vramScratch_vram i (Nat.lt_succ_self i)]
  rw [update_of_ne hdst]
  unfold vramScratch
  by_cases hsys : x < migrate.cpages
  · have hiff : x < i ↔ x < i + 1 := by omega
    simp only [if_pos hsys, hiff]
  · have hiff : x - migrate.cpages < i ↔ x - migrate.cpages < i + 1 := by omega
    simp only [if_neg hsys, hiff]

theorem vramScratch_succ_of_not (hlt : i < migrate.cpages) (h : ¬hw.Present (migrate.src i)) :
    update (vramScratch hw blocks first migrate i) (migrate.cpages + i)
      (vramAddr blocks first i) = vramScratch hw blocks first migrate (i + 1) := by
  funext x
  by_cases hx : x = i
  · have hne : i ≠ migrate.cpages + i := by omega
    subst hx
    rw [update_of_ne hne]
    simp [vramScratch, hlt, h]
  · exact vramScratch_get x hx

theorem vramScratch_succ_of_present (hlt : i < migrate.cpages)
    (h : hw.Present (migrate.src i)) :
    update (update (vramScratch hw blocks first migrate i)
      (migrate.cpages + i) (vramAddr blocks first i)) i (hw.dmaMapPage i) =
      vramScratch hw blocks first migrate (i + 1) := by
  funext x
  by_cases hx : x = i
  · rw [hx, update_self, vramScratch_sys (Nat.lt_succ_self i) hlt h]
  · rw [update_of_ne hx, vramScratch_get x hx]

theorem VramInv.addr (h : VramInv hw blocks first migrate s) (hlt : s.i < migrate.cpages) :
    s.cursor.start + s.j * pageSize = vramAddr blocks first s.i := by
  have hle : s.j ≤ s.i := h.j_eq ▸ pending_le s.i
  have hsplit : s.i - s.j + s.j = s.i := Nat.sub_add_cancel hle
  have haddr := (h.walk hlt).addr (by rwa [hsplit]) le_rfl
  rw [hsplit] at haddr
  exact haddr.symm

theorem VramInv.get (h : VramInv hw blocks first migrate s) (hlt : s.i < migrate.cpages) :
    (getVramPage hw migrate.cpages s).scratch =
        update (vramScratch hw blocks first migrate s.i) (migrate.cpages + s.i)
          (vramAddr blocks first s.i) ∧
      (∀ scratch, scratch = vramScratch hw blocks first migrate (s.i + 1) →
        MemAt hw blocks first migrate (s.i + 1)
          { getVramPage hw migrate.cpages s with scratch := scratch }) := by
  have haddr := h.addr hlt
  refine ⟨?_, fun scratch hscratch => ⟨hscratch, ?_, ?_⟩⟩
  · show update s.m.scratch _ (s.cursor.start + s.j * pageSize) = _
    rw [haddr, h.mem.scratch]
  · show update s.m.dst s.i (some (hw.addrToPfn (s.cursor.start + s.j * pageSize))) = _
    rw [haddr, h.mem.dst]
    funext k
    by_cases hk : k = s.i
    · rw [hk, update_self, if_pos (Nat.lt_succ_self _)]
      rfl
    · have hiff : k < s.i ↔ k < s.i + 1 := by omega
      rw [update_of_ne hk]
      simp only [hiff]
  · show (s.m.pages.take (hw.addrToPfn (s.cursor.start + s.j * pageSize))).Holds _
    rw [haddr]
    refine h.mem.pages.take.congr ?_
    rw [range_succ, map_append, ← Multiset.coe_add, add_comm]
    rfl

theorem copyBatch {b stop : Nat} (hmem : MemAt hw blocks first migrate stop m) (hn : b + n ≤ stop)
    (hstop : stop ≤ migrate.cpages) (hok : ¬CopyFails hw i n)
    (hpresent : ∀ q < n, hw.Present (migrate.src (b + q)))
    (hbatch : ∀ q < n, vramAddr blocks first (b + q) =
      vramAddr blocks first b + q * pageSize) :
    copyMemoryGart hw .ramToVram i b (migrate.cpages + b) n m =
      ({ m with
          copied := m.copied ++ (range n).map fun q => copyAt hw blocks first (b + q) },
        none) := by
  have hscratch {q : Nat} (hq : q < n) : m.scratch (migrate.cpages + b + q) =
      vramAddr blocks first (b + q) := by
    rw [hmem.scratch, add_assoc, vramScratch_vram _ (by omega)]
  have hvram : ∀ q < n, m.scratch (migrate.cpages + b + q) =
      m.scratch (migrate.cpages + b) + q * pageSize := by
    intro q hq
    have hzero := hscratch (Nat.zero_lt_of_lt hq)
    rw [add_zero, add_zero] at hzero
    rw [hscratch hq, hzero, hbatch q hq]
  have hcopies : pageCopies hw .ramToVram m.scratch b (migrate.cpages + b) n =
      (range n).map fun q => copyAt hw blocks first (b + q) := by
    refine map_congr_left fun q hq => ?_
    have hq := mem_range.mp hq
    rw [hscratch hq, hmem.scratch,
      vramScratch_sys (show b + q < stop by omega) (by omega) (hpresent q hq)]
    rfl
  rw [copyMemoryGart_copied hok hvram, hcopies]

theorem flush_cases (s : VramState) (bytes : Nat)
    (hmem : MemAt hw blocks first migrate (i + 1) s.m) (hi : s.i = i) (hlt : i < migrate.cpages)
    (hb : s.i - s.j = b) (hn : b + n ≤ i + 1)
    (hpresent : ∀ q < n, hw.Present (migrate.src (b + q)))
    (hbatch : ∀ q < n, vramAddr blocks first (b + q) =
      vramAddr blocks first b + q * pageSize) :
    (¬CopyFails hw i n ∧ s.flush hw migrate.cpages n bytes =
      ({ i := i + 1
         j := 0
         cursor := resNext s.cursor bytes
         m := { s.m with
           copied := s.m.copied ++ (range n).map fun q => copyAt hw blocks first (b + q) } },
        none)) ∨
    (CopyFails hw i n ∧ ∃ s' e, s.flush hw migrate.cpages n bytes = (s', some e) ∧
      s'.i = i ∧ MemAt hw blocks first migrate (i + 1) s'.m) := by
  subst hi
  unfold VramState.flush
  rw [hb]
  by_cases hfails : CopyFails hw s.i n
  · refine .inr ⟨hfails, ?_⟩
    have hne := mt (copyMemoryGart_none_iff hw .ramToVram s.i b (migrate.cpages + b) n s.m).mp
      (not_not_intro hfails)
    obtain ⟨e, he⟩ := Option.ne_none_iff_exists'.mp hne
    refine ⟨{ s with m := (copyMemoryGart hw .ramToVram s.i b (migrate.cpages + b) n s.m).1 }, e,
      ?_, rfl, hmem.scratch, hmem.dst, hmem.pages⟩
    dsimp only
    rw [he]
    rfl
  · refine .inl ⟨hfails, ?_⟩
    have hcopy := copyBatch hmem hn hlt hfails hpresent hbatch
    rw [hcopy]
    rfl

theorem VramInv.j_le (h : VramInv hw blocks first migrate s) : s.j ≤ s.i :=
  h.j_eq ▸ pending_le s.i

theorem VramInv.present (h : VramInv hw blocks first migrate s) {q : Nat} (hq : q < s.j) :
    hw.Present (migrate.src (s.i - s.j + q)) := by
  have hle := h.j_le
  have hfrom : s.i - pending hw blocks first migrate s.i ≤ s.i - s.j + q := by
    rw [← h.j_eq]
    exact Nat.le_add_right _ _
  exact pending_present hfrom (by omega)

theorem vramInv_flushed {cur : Cursor} (hlt : i < migrate.cpages)
    (hzero : 0 = pending hw blocks first migrate (i + 1))
    (hwalk : Walk blocks first migrate.cpages cur (i + 1) 0)
    (hmem : MemAt hw blocks first migrate (i + 1) m)
    (hdma : m.dma.Holds ((presentPages hw migrate.src (i + 1)).map hw.dmaMapPage))
    (hcopied : m.copied = (presentPages hw migrate.src b).map (copyAt hw blocks first))
    (hbatch : presentPages hw migrate.src (i + 1) =
      presentPages hw migrate.src b ++ (range n).map (b + ·)) :
    VramInv hw blocks first migrate
      { i := i + 1
        j := 0
        cursor := cur
        m := { m with
          copied := m.copied ++ (range n).map fun q => copyAt hw blocks first (b + q) } } where
  le := hlt
  j_eq := hzero
  walk _ := hwalk
  batch q hq := absurd hq (Nat.not_lt_zero q)
  mem := ⟨hmem.scratch, hmem.dst, hmem.pages⟩
  dma := hdma
  copied := by
    show m.copied ++ _ = (presentPages hw migrate.src (i + 1)).map _
    rw [hbatch, hcopied, map_append, map_map]
    rfl

/-- A turn of the loop goes on to the next page, or fails where it is to fail. -/
def VramTurn (hw : Hw) (blocks : List Extent) (first : Nat) (migrate : MigrateVma) (s : VramState) :
    Prop :=
  (¬VramFails hw blocks first migrate s.i ∧ ∃ s',
    vramStep hw migrate.cpages migrate.src s = (s', none) ∧ s'.i = s.i + 1 ∧
      VramInv hw blocks first migrate s') ∨
  (VramFails hw blocks first migrate s.i ∧ ∃ s' e,
    vramStep hw migrate.cpages migrate.src s = (s', some e) ∧ s'.i = s.i ∧
      MemAt hw blocks first migrate (s.i + 1) s'.m)

section
variable (hroom : Room blocks first migrate.cpages)
include hroom

theorem vramStep_gap (h : VramInv hw blocks first migrate s) (hlt : s.i < migrate.cpages)
    (habsent : ¬hw.Present (migrate.src s.i)) : VramTurn hw blocks first migrate s := by
  have hle := h.j_le
  have hwalk := h.walk hlt
  have hsplit : s.i - s.j + s.j = s.i := Nat.sub_add_cancel hle
  obtain ⟨hscratch, hget⟩ := h.get hlt
  have hmem : MemAt hw blocks first migrate (s.i + 1) (getVramPage hw migrate.cpages s) :=
    hget _ (hscratch.trans (vramScratch_succ_of_not hlt habsent))
  have hnext := hwalk.next hroom.dvd (by rwa [hsplit])
  rw [hsplit] at hnext
  have hzero : 0 = pending hw blocks first migrate (s.i + 1) :=
    (if_neg fun hp => habsent hp.1).symm
  have hdma := h.dma
  rw [← presentPages_succ_of_not habsent] at hdma
  unfold VramTurn vramStep
  dsimp only
  rw [if_neg habsent, VramFails, if_neg habsent, ← h.j_eq]
  by_cases hj : s.j = 0
  · rw [if_neg (not_not_intro hj)]
    refine .inl ⟨fun hfails => absurd hj hfails.1.ne', _, rfl, rfl, hlt, hj.trans hzero,
      fun _ => ?_, fun q hq => absurd (hj ▸ hq) (Nat.not_lt_zero q), hmem, hdma, ?_⟩
    · rw [hj, zero_add, one_mul] at hnext
      dsimp only
      rw [hj, Nat.sub_zero]
      exact hnext
    · show s.m.copied = (presentPages hw migrate.src (s.i + 1 - s.j)).map _
      rw [hj, Nat.sub_zero, presentPages_succ_of_not habsent, h.copied, hj, Nat.sub_zero]
  · rw [if_pos hj]
    have hflush := flush_cases { s with m := getVramPage hw migrate.cpages s }
      ((s.j + 1) * pageSize) hmem rfl hlt rfl (by dsimp only; omega)
      (fun q hq => h.present hq) h.batch
    rcases hflush with ⟨hok, heq⟩ | ⟨hfails, s', e, heq, hi, hmem'⟩
    · have hall := presentPages_add (b := s.i - s.j) (n := s.j) fun q hq => h.present hq
      rw [hsplit, ← presentPages_succ_of_not habsent] at hall
      exact .inl ⟨fun hfails => hok hfails.2, _, heq, rfl,
        vramInv_flushed hlt hzero hnext hmem hdma h.copied hall⟩
    · exact .inr ⟨⟨Nat.pos_of_ne_zero hj, hfails⟩, s', e, heq, hi, hmem'⟩

theorem vramStep_page (h : VramInv hw blocks first migrate s) (hlt : s.i < migrate.cpages)
    (hpresent : hw.Present (migrate.src s.i)) : VramTurn hw blocks first migrate s := by
  have hle := h.j_le
  have hwalk := h.walk hlt
  have hsplit : s.i - s.j + s.j = s.i := Nat.sub_add_cancel hle
  have hlt' : s.i - s.j + s.j < migrate.cpages := by rwa [hsplit]
  obtain ⟨hscratch, hget⟩ := h.get hlt
  have hmem := hget
    (update (getVramPage hw migrate.cpages s).scratch s.i (hw.dmaMapPage s.i))
    (by rw [hscratch, vramScratch_succ_of_present hlt hpresent])
  have hfull := hwalk.full_iff hroom.dvd hlt'
  rw [hsplit] at hfull
  -- the pages of the batch with this one
  have hall : ∀ q < s.j + 1, hw.Present (migrate.src (s.i - s.j + q)) := by
    intro q hq
    rcases Nat.lt_succ_iff_lt_or_eq.mp hq with hq | rfl
    · exact h.present hq
    · rwa [hsplit]
  have hbatch : ∀ q < s.j + 1, vramAddr blocks first (s.i - s.j + q) =
      vramAddr blocks first (s.i - s.j) + q * pageSize := by
    intro q hq
    have hfirst := hwalk.addr hlt' (Nat.zero_le s.j)
    rw [add_zero, zero_mul, add_zero] at hfirst
    rw [hwalk.addr hlt' (Nat.le_of_lt_succ hq), hfirst]
  have hpages := presentPages_succ_of_present hpresent
  have hdma : (s.m.dma.take (hw.dmaMapPage s.i)).Holds
      ((presentPages hw migrate.src (s.i + 1)).map hw.dmaMapPage) := by
    refine h.dma.take.congr ?_
    rw [hpages, map_append, ← Multiset.coe_add, add_comm]
    rfl
  unfold VramTurn vramStep
  dsimp only
  rw [if_pos hpresent, VramFails, if_pos hpresent, ← h.j_eq]
  cases hmap : dmaMappingError (hw.dmaMapPage s.i) with
  | some e => exact .inr ⟨.inl nofun, _, e, rfl, rfl, hmem⟩
  | none =>
    rw [andThen_none rfl]
    dsimp only
    by_cases hend : BlockEnds blocks first s.i ∧ s.i + 1 < migrate.cpages
    · have htest := hfull.mpr hend
      have hzero : 0 = pending hw blocks first migrate (s.i + 1) :=
        (if_neg fun hp => absurd (hp.2 hend.1) hend.2.ne).symm
      have hnext := hwalk.next hroom.dvd hlt'
      rw [hsplit] at hnext
      rw [if_pos htest]
      rcases flush_cases { s with m := { getVramPage hw migrate.cpages s with
          scratch := update (getVramPage hw migrate.cpages s).scratch s.i
            (hw.dmaMapPage s.i)
          dma := s.m.dma.take (hw.dmaMapPage s.i) } } ((s.j + 1) * pageSize)
        ⟨hmem.scratch, hmem.dst, hmem.pages⟩ rfl hlt rfl (by dsimp only; omega) hall hbatch
        with ⟨hok, heq⟩ | ⟨hfails, s', e, heq, hi, hmem'⟩
      · have hcopies := presentPages_add hall
        rw [← add_assoc, hsplit] at hcopies
        refine .inl ⟨fun hfails => ?_, _, heq, rfl, ?_⟩
        · exact hok (hfails.resolve_left (not_not_intro rfl)).2
        · exact vramInv_flushed hlt hzero hnext ⟨hmem.scratch, hmem.dst, hmem.pages⟩ hdma h.copied
            hcopies
      · exact .inr ⟨.inr ⟨hend, hfails⟩, s', e, heq, hi, hmem'⟩
    · have htest := mt hfull.mp hend
      have hnext : BlockEnds blocks first s.i → s.i + 1 = migrate.cpages := fun hblock =>
        le_antisymm hlt (not_lt.mp fun hmore => hend ⟨hblock, hmore⟩)
      have hone : s.j + 1 = pending hw blocks first migrate (s.i + 1) := by
        rw [pending, if_pos ⟨hpresent, hnext⟩, h.j_eq]
      rw [if_neg htest]
      refine .inl ⟨fun hfails => ?_, _, rfl, rfl, hlt, hone, fun hmore => ?_, ?_,
        ⟨hmem.scratch, hmem.dst, hmem.pages⟩, hdma, ?_⟩
      · exact hend (hfails.resolve_left (not_not_intro rfl)).1
      · show Walk blocks first migrate.cpages s.cursor (s.i + 1 - (s.j + 1)) (s.j + 1)
        rw [Nat.succ_sub_succ]
        refine hwalk.grow hroom.dvd fun hlast heq => ?_
        have hblock := (hwalk.blockEnds_iff hlast).mpr heq
        rw [hsplit] at hblock hlast
        exact absurd (hnext hblock) hlast.ne
      · show ∀ q < s.j + 1, vramAddr blocks first (s.i + 1 - (s.j + 1) + q) = _
        rw [Nat.succ_sub_succ]
        exact hbatch
      · show s.m.copied = (presentPages hw migrate.src (s.i + 1 - (s.j + 1))).map _
        rw [Nat.succ_sub_succ]
        exact h.copied

theorem vramInv_init :
    VramInv hw blocks first migrate
      { i := 0, j := 0, cursor := vramCursor blocks first migrate.cpages, m := {} } where
  le := Nat.zero_le _
  j_eq := rfl
  walk hlt := walk_init hroom hlt
  batch q hq := absurd hq (Nat.not_lt_zero q)
  mem := ⟨by funext x; simp [vramScratch], by funext k; simp, Ledger.Holds.init⟩
  dma := Ledger.Holds.init
  copied := rfl

theorem vramStep_cases (h : VramInv hw blocks first migrate s) (hlt : s.i < migrate.cpages) :
    VramTurn hw blocks first migrate s := by
  by_cases hpresent : hw.Present (migrate.src s.i)
  · exact vramStep_page hroom h hlt hpresent
  · exact vramStep_gap hroom h hlt hpresent

theorem vramLoop_cases (h : VramInv hw blocks first migrate s) (hi : s.i = 0) :
    (∃ s', timesUntil (vramStep hw migrate.cpages migrate.src) migrate.cpages s = (s', none) ∧
      s'.i = migrate.cpages ∧ (∀ k < migrate.cpages, ¬VramFails hw blocks first migrate k) ∧
        VramInv hw blocks first migrate s') ∨
    ∃ i < migrate.cpages, ∃ s' e,
      timesUntil (vramStep hw migrate.cpages migrate.src) migrate.cpages s = (s', some e) ∧
        VramFails hw blocks first migrate i ∧ s'.i = i ∧
          MemAt hw blocks first migrate (i + 1) s'.m := by
  let I (i : Nat) (s : VramState) : Prop := s.i = i ∧ VramInv hw blocks first migrate s
  let L (i : Nat) (s : VramState) : Prop := s.i = i ∧ MemAt hw blocks first migrate (i + 1) s.m
  have hround : ∀ i < migrate.cpages, ∀ s, I i s →
      (¬VramFails hw blocks first migrate i ∧ ∃ s',
        vramStep hw migrate.cpages migrate.src s = (s', none) ∧ I (i + 1) s') ∨
      (VramFails hw blocks first migrate i ∧ ∃ s' e,
        vramStep hw migrate.cpages migrate.src s = (s', some e) ∧ L i s') := by
    rintro i hlt s ⟨rfl, hs⟩
    exact vramStep_cases hroom hs hlt
  rcases timesUntil_first hround ⟨hi, h⟩ with
    ⟨hall, s', heq, hend⟩ | ⟨i, hlt, -, hfails, s', e, heq, hleft⟩
  · exact .inl ⟨s', heq, hend.1, hall, hend.2⟩
  · exact .inr ⟨i, hlt, s', e, heq, hfails, hleft.1, hleft.2⟩

end

end Page

/-! ## The function -/

section Function
variable {hw : Hw} {blocks : List Extent} {first : Nat} {migrate : MigrateVma}

theorem Room.mono {n k : Nat} (h : Room blocks first n) (hle : k ≤ n) : Room blocks first k :=
  ⟨h.pos, h.dvd, (Nat.mul_le_mul_right _ (Nat.add_le_add_left hle _)).trans h.room⟩

theorem copyToVram_cases (hroom : Room blocks first migrate.cpages) :
    (∃ i < migrate.cpages, VramFails hw blocks first migrate i ∧ ∃ m e,
      copyToVram hw blocks first migrate {} = (putVramPages hw migrate.cpages i m, some e) ∧
        MemAt hw blocks first migrate (i + 1) m) ∨
    ((∀ k < migrate.cpages, ¬VramFails hw blocks first migrate k) ∧ ∃ m,
      MemAt hw blocks first migrate migrate.cpages m ∧
      m.dma.Holds ((presentPages hw migrate.src migrate.cpages).map hw.dmaMapPage) ∧
      ((CopyFails hw migrate.cpages (pending hw blocks first migrate migrate.cpages) ∧ ∃ e,
          copyToVram hw blocks first migrate {} =
            (putVramPages hw migrate.cpages migrate.cpages m, some e)) ∨
        (¬CopyFails hw migrate.cpages (pending hw blocks first migrate migrate.cpages) ∧
          copyToVram hw blocks first migrate {} = (m, none) ∧
          m.copied = (presentPages hw migrate.src migrate.cpages).map
            (copyAt hw blocks first)))) := by
  rcases vramLoop_cases hroom (@vramInv_init hw _ _ _ hroom) rfl with
    ⟨s, heq, hi, hall, hs⟩ | ⟨i, hlt, s, e, heq, hfails, rfl, hmem⟩
  · have hle := hs.j_le
    have hsplit : s.i - s.j + s.j = s.i := Nat.sub_add_cancel hle
    have hpending : pending hw blocks first migrate migrate.cpages = s.j := by rw [hs.j_eq, hi]
    unfold copyToVram
    dsimp only
    rw [heq, andThen_none rfl, hpending, ← hi]
    by_cases hfails : CopyFails hw s.i s.j
    · have hne := mt (copyMemoryGart_none_iff hw .ramToVram s.i (s.i - s.j)
        (s.i + (s.i - s.j)) s.j s.m).mp (not_not_intro hfails)
      obtain ⟨e, he⟩ := Option.ne_none_iff_exists'.mp hne
      refine .inr ⟨hi ▸ hall,
        (copyMemoryGart hw .ramToVram s.i (s.i - s.j) (s.i + (s.i - s.j)) s.j s.m).1, ?_, ?_,
        .inl ⟨hfails, e, ?_⟩⟩
      · exact ⟨hs.mem.scratch, hs.mem.dst, hs.mem.pages⟩
      · exact hs.dma
      · dsimp only
        rw [he]
    · have hcopy := copyBatch hs.mem hsplit.le hs.le hfails (fun q hq => hs.present hq) hs.batch
      rw [← hi] at hcopy
      rw [hcopy]
      refine .inr ⟨hi ▸ hall, _, ?_, ?_, .inr ⟨hfails, rfl, ?_⟩⟩
      · exact ⟨hs.mem.scratch, hs.mem.dst, hs.mem.pages⟩
      · exact hs.dma
      · have hcopies := presentPages_add (b := s.i - s.j) (n := s.j) fun q hq => hs.present hq
        rw [hsplit] at hcopies
        rw [hs.copied, hcopies, map_append, map_map]
        rfl
  · refine .inl ⟨s.i, hlt, hfails, s.m, e, ?_, hmem⟩
    unfold copyToVram
    dsimp only
    rw [heq]
    rfl

/-- Every operation outside of the file goes well. -/
structure Hw.Succeeds (hw : Hw) : Prop where
  dmaMapPage : ∀ i, dmaMappingError (hw.dmaMapPage i) = none
  gartMap : ∀ i part, hw.gartMap i part = none
  copyBuffer : ∀ i part, hw.copyBuffer i part = none

theorem Hw.Succeeds.copyFails_iff (h : hw.Succeeds) {i n : Nat} :
    CopyFails hw i n ↔ n = 0 ∧ hw.uninit ≠ none := by
  unfold CopyFails
  split
  case isTrue hn => simp [hn]
  case isFalse hn => simp [hn, h.gartMap, h.copyBuffer]

theorem Hw.Succeeds.not_vramFails (h : hw.Succeeds) (i : Nat) :
    ¬VramFails hw blocks first migrate i := by
  unfold VramFails
  split
  · rintro (hmap | ⟨-, hcopy⟩)
    · exact hmap (h.dmaMapPage i)
    · exact absurd (h.copyFails_iff.mp hcopy).1 (Nat.succ_ne_zero _)
  · rintro ⟨hpos, hcopy⟩
    exact hpos.ne' (h.copyFails_iff.mp hcopy).1

/-- What the function should do: the pages that can migrate have destinations at their own offsets,
those in memory are copied to them, nothing else happens, and 0 is returned. -/
structure VramRight (hw : Hw) (blocks : List Extent) (first : Nat) (migrate : MigrateVma)
    (r : Mem × Option Int) : Prop where
  dst : ∀ i < migrate.npages, r.1.dst i =
    if (migrate.src i).migrate then some (vramPfn hw blocks first i) else none
  copied : r.1.copied = ((range migrate.npages).filter fun i =>
    (migrate.src i).migrate ∧ hw.Present (migrate.src i)).map (copyAt hw blocks first)
  ret : r.2 = none

theorem pending_cpages : pending hw blocks first migrate migrate.cpages = 0 ↔
    ¬(0 < migrate.cpages ∧ hw.Present (migrate.src (migrate.cpages - 1))) := by
  cases hc : migrate.cpages with
  | zero => simp [pending]
  | succ c => simp [pending, hc]

theorem filter_range_lt {p : Nat → Bool} {c n : Nat} (h : c ≤ n) :
    (range n).filter (fun i => i < c && p i) = (range c).filter p := by
  induction n, h using Nat.le_induction with
  | base =>
    refine filter_congr fun i hi => ?_
    rw [decide_eq_true (mem_range.mp hi), Bool.true_and]
  | succ n hle ih =>
    rw [range_succ, filter_append, ih]
    simp [not_lt.mpr hle]

/-- When every operation goes well, the function does what it should just when the pages that can
migrate are the first `cpages` ones, and the last of these is in memory (or `r` is 0 by chance). -/
theorem copyToVram_right_iff (hw : Hw) (hok : hw.Succeeds) (blocks : List Extent) (first : Nat)
    (migrate : MigrateVma) (hroom : Room blocks first migrate.npages) :
    VramRight hw blocks first migrate (copyToVram hw blocks first migrate {}) ↔
      (∀ i < migrate.npages, (migrate.src i).migrate = true ↔ i < migrate.cpages) ∧
        (hw.uninit = none ∨
          0 < migrate.cpages ∧ hw.Present (migrate.src (migrate.cpages - 1))) := by
  rcases copyToVram_cases (hroom.mono migrate.cpages_le) with
    ⟨i, -, hfails, -⟩ | ⟨-, m, hmem, -, ⟨hfails, e, heq⟩ | ⟨hwell, heq, hcopied⟩⟩
  · exact absurd hfails (hok.not_vramFails i)
  · -- the last copy has no page and returns what was in `r`
    obtain ⟨hzero, hne⟩ := hok.copyFails_iff.mp hfails
    have habsent := pending_cpages.mp hzero
    rw [heq]
    constructor
    · intro h
      exact absurd h.ret nofun
    · rintro ⟨-, hinit | hlast⟩
      · exact absurd hinit hne
      · exact absurd hlast habsent
  · have hlast : hw.uninit = none ∨
        0 < migrate.cpages ∧ hw.Present (migrate.src (migrate.cpages - 1)) := by
      by_contra hnot
      push Not at hnot
      refine hwell (hok.copyFails_iff.mpr ⟨pending_cpages.mpr ?_, hnot.1⟩)
      rintro ⟨hpos, hpresent⟩
      exact hnot.2 hpos hpresent
    rw [heq, and_iff_left hlast]
    constructor
    · intro h i hi
      have hdst := h.dst i hi
      rw [hmem.dst] at hdst
      cases hmig : (migrate.src i).migrate with
      | true | false => simpa [hmig] using hdst
    · intro hbelow
      refine ⟨fun i hi => ?_, ?_, rfl⟩
      · rw [hmem.dst]
        simp only [hbelow i hi]
      · rw [hcopied, presentPages, ← filter_range_lt migrate.cpages_le]
        congr 1
        refine filter_congr fun i hi => ?_
        have hiff := hbelow i (mem_range.mp hi)
        by_cases hlt : i < migrate.cpages
        · simp [hlt, hiff.mpr hlt]
        · simp [hlt, mt hiff.mp hlt]

end Function

/-! ## An example -/

def exHw : Hw where
  pgmapStart := 0x100000000
  vramStart := 0x8000000000
  isZoneDevicePage _ := false
  dmaMapPage i := 0x200000 + i * 4096
  allocPage i := some (0x200 + i)
  allocPage_ne i h := absurd (Option.some.inj h) (by omega)
  gartMap _ _ := none
  copyBuffer _ _ := none
  uninit := some 1

theorem exHw_succeeds : exHw.Succeeds where
  dmaMapPage i := by
    unfold dmaMappingError
    split
    case isTrue h =>
      have h : 0x200000 + i * 4096 = 2 ^ 64 - 1 := h
      omega
    case isFalse => rfl
  gartMap _ _ := rfl
  copyBuffer _ _ := rfl

def exBlocks : List Extent := [⟨0x10000, 0x2000⟩, ⟨0x40000, 0x2000⟩]

def exMigrate : MigrateVma where
  npages := 3
  cpages := 3
  cpages_le := le_rfl
  src i := { valid := i ≠ 1, migrate := true, pfn := i + 7 }

theorem exBlocks_room : Room exBlocks 1 3 where
  pos := by decide
  dvd := by decide
  room := by decide

theorem copyToVram_right_exMigrate :
    VramRight exHw exBlocks 1 exMigrate (copyToVram exHw exBlocks 1 exMigrate {}) :=
  (copyToVram_right_iff exHw exHw_succeeds exBlocks 1 exMigrate exBlocks_room).mpr
    ⟨by decide, .inr ⟨by decide, by decide⟩⟩

def exPinned : MigrateVma where
  npages := 2
  cpages := 1
  cpages_le := by decide
  src i := { valid := true, migrate := i ≠ 0, pfn := i + 7 }

theorem copyToVram_broken : ¬ ∀ (hw : Hw) (_ : hw.Succeeds) (blocks : List Extent) (first : Nat)
    (migrate : MigrateVma) (_ : Room blocks first migrate.npages),
    VramRight hw blocks first migrate (copyToVram hw blocks first migrate {}) := by
  intro h
  have hright := h exHw exHw_succeeds exBlocks 1 exPinned
    (exBlocks_room.mono (show exPinned.npages ≤ 3 by decide))
  have hgiven : (copyToVram exHw exBlocks 1 exPinned {}).1.dst 0 ≠ none := by decide +kernel
  exact hgiven (hright.dst 0 (by decide))

end Amdkfd.Migrate
