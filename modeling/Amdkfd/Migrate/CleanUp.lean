import Amdkfd.Migrate.ToVram

/-!
# Failures of a migration

What is held after `svm_migrate_copy_to_vram` or `svm_migrate_copy_to_ram` failed, and after the
caller has removed the DMA mappings. To VRAM the clean-up leaves out the page at which the loop was
left. To RAM it takes DMA addresses for page addresses, and entries that were skipped for pages.
-/

namespace Amdkfd.Migrate

open Lib Function List

/-! ## The clean-up loops -/

/-- Nothing is held, neither a page nor a mapping, and entries are for pages that are held. -/
structure Clean (npages : Nat) (m : Mem) : Prop where
  pages : m.pages.Settled
  dst : ∀ i pfn, m.dst i = some pfn → pfn ∈ m.pages.held
  dma : (dmaUnmapDev npages m).dma.Settled

/-- A failure leaves nothing behind, once the caller has removed the mappings. -/
def CleanFailure (npages : Nat) (r : Mem × Option Int) : Prop :=
  r.2 ≠ none → Clean npages r.1

section CleanUp
variable {m : Mem}

theorem putPages_eq (page : Nat → Nat) (i : Nat) (m : Mem) : putPages page i m =
    { m with
      pages := m.pages.giveAll ((range i).reverse.map page)
      dst := fun k => if k < i then none else m.dst k } := by
  induction i generalizing m with
  | zero => simp [putPages, Ledger.giveAll]
  | succ i ih =>
    rw [putPages, ih, range_succ, reverse_append]
    congr 1
    funext k
    rcases lt_trichotomy k i with hlt | rfl | hlt
    · simp [hlt, Nat.lt_succ_of_lt hlt]
    · simp
    · simp [hlt.not_gt, not_lt.mpr (Nat.succ_le_of_lt hlt), update_of_ne hlt.ne']

theorem putPages_settled_iff (page : Nat → Nat) (i : Nat) {held : Multiset Nat}
    (h : m.pages.Holds held) :
    (putPages page i m).pages.Settled ↔ ((range i).map page : Multiset Nat) = held := by
  rw [putPages_eq]
  show (m.pages.giveAll _).Settled ↔ _
  rw [h.giveAll_settled_iff, map_reverse, Multiset.coe_reverse]

def unmapped (npages : Nat) (scratch : Nat → Nat) : List Nat :=
  ((range npages).map scratch).filter isValidDmaMappingAddr

theorem dmaUnmapDev_spec (npages : Nat) (m : Mem) :
    (dmaUnmapDev npages m).dma = m.dma.giveAll (unmapped npages m.scratch) ∧
      ∀ k, npages ≤ k → (dmaUnmapDev npages m).scratch k = m.scratch k := by
  induction npages with
  | zero => exact ⟨rfl, fun _ _ => rfl⟩
  | succ n ih =>
    obtain ⟨hdma, hscratch⟩ := ih
    have hstep : dmaUnmapDev (n + 1) m = dmaUnmapPage (dmaUnmapDev n m) n := by
      rw [dmaUnmapDev, range_succ, foldl_append]
      rfl
    have hlast : unmapped (n + 1) m.scratch = unmapped n m.scratch ++
        if isValidDmaMappingAddr (m.scratch n) then [m.scratch n] else [] := by
      simp [unmapped, range_succ, filter_cons]
    rw [hstep, dmaUnmapPage, hscratch n le_rfl, hlast]
    cases isValidDmaMappingAddr (m.scratch n) with
    | true =>
      refine ⟨?_, fun k hk => ?_⟩
      · simp [hdma, Ledger.giveAll]
      · have hne : k ≠ n := by omega
        exact (update_of_ne hne _ _).trans (hscratch k (by omega))
    | false =>
      refine ⟨?_, fun k hk => hscratch k (by omega)⟩
      simpa using hdma

theorem dmaUnmap_settled_iff (npages : Nat) (page : Nat → Nat) (i : Nat) {mapped : Multiset Nat}
    (h : m.dma.Holds mapped) :
    (dmaUnmapDev npages (putPages page i m)).dma.Settled ↔
      (unmapped npages m.scratch : Multiset Nat) = mapped := by
  rw [putPages_eq, (dmaUnmapDev_spec npages _).1]
  exact h.giveAll_settled_iff

theorem filter_append_eq_iff {p : Nat → Bool} {xs ys : List Nat} :
    ((xs.filter p ++ ys.filter p : List Nat) : Multiset Nat) = xs ↔
      (∀ x ∈ xs, p x) ∧ ∀ y ∈ ys, ¬p y := by
  rw [Multiset.coe_eq_coe]
  constructor
  · intro h
    have hall : ∀ x ∈ xs, p x := by
      intro x hx
      rcases mem_append.mp (h.mem_iff.mpr hx) with hx | hx
      · exact (mem_filter.mp hx).2
      · exact (mem_filter.mp hx).2
    have hlen := h.length_eq
    rw [filter_eq_self.mpr hall, length_append] at hlen
    have hnil : ys.filter p = [] := length_eq_zero_iff.mp (by omega)
    exact ⟨hall, filter_eq_nil_iff.mp hnil⟩
  · rintro ⟨hall, hnone⟩
    rw [filter_eq_self.mpr hall, filter_eq_nil_iff.mpr hnone, append_nil]

theorem filter_map_ite {p : Nat → Prop} [DecidablePred p] {f : Nat → Nat} (ks : List Nat) :
    (ks.map fun k => if p k then f k else 0).filter isValidDmaMappingAddr =
      ((ks.filter p).map f).filter isValidDmaMappingAddr := by
  have hzero : isValidDmaMappingAddr 0 = false := rfl
  induction ks with
  | nil => rfl
  | cons k ks ih =>
    by_cases hp : p k
    · simp only [map_cons, filter_cons, hp, decide_true, if_true, ih]
    · simp only [map_cons, filter_cons, hp, decide_false, if_false, hzero, ih]
      simp

end CleanUp

/-! ## To VRAM -/

/-- The caller unmaps what was mapped on the way to VRAM, and nothing else: mapped addresses are
valid, and the addresses in VRAM at which it looks, when pages were not collected, are not. -/
structure UnmapRight (hw : Hw) (blocks : List Extent) (first : Nat) (migrate : MigrateVma) :
    Prop where
  mapped : ∀ k < migrate.cpages, hw.Present (migrate.src k) →
    isValidDmaMappingAddr (hw.dmaMapPage k) = true
  others : ∀ k < migrate.cpages, migrate.cpages + k < migrate.npages →
    isValidDmaMappingAddr (vramAddr blocks first k) = false

section ToVram
variable {hw : Hw} {blocks : List Extent} {first : Nat} {migrate : MigrateVma} {m : Mem}

theorem unmapped_vram : unmapped migrate.npages
      (vramScratch hw blocks first migrate migrate.cpages) =
    ((presentPages hw migrate.src migrate.cpages).map hw.dmaMapPage).filter isValidDmaMappingAddr ++
      (((range (migrate.npages - migrate.cpages)).filter (· < migrate.cpages)).map
        (vramAddr blocks first)).filter isValidDmaMappingAddr := by
  obtain ⟨d, hd⟩ := Nat.exists_eq_add_of_le migrate.cpages_le
  have hsys : (range migrate.cpages).map
        (vramScratch hw blocks first migrate migrate.cpages) =
      (range migrate.cpages).map fun k =>
        if hw.Present (migrate.src k) then hw.dmaMapPage k else 0 := by
    refine map_congr_left fun k hk => ?_
    have hk := mem_range.mp hk
    simp [vramScratch, hk]
  have hvram : (range d).map
        (fun k => vramScratch hw blocks first migrate migrate.cpages (migrate.cpages + k)) =
      (range d).map fun k =>
        if k < migrate.cpages then vramAddr blocks first k else 0 := by
    refine map_congr_left fun k _ => ?_
    simp [vramScratch]
  rw [unmapped, hd, Nat.add_sub_cancel_left, range_add, map_append, map_map,
    filter_append, hsys]
  simp only [comp_def]
  rw [hvram, filter_map_ite, filter_map_ite]
  rfl

theorem unmap_vram_iff :
    (unmapped migrate.npages (vramScratch hw blocks first migrate migrate.cpages) :
        Multiset Nat) = ((presentPages hw migrate.src migrate.cpages).map hw.dmaMapPage) ↔
      UnmapRight hw blocks first migrate := by
  rw [unmapped_vram, filter_append_eq_iff]
  simp only [forall_mem_map, presentPages, mem_filter, mem_range,
    decide_eq_true_eq, Bool.not_eq_true, and_imp]
  constructor
  · rintro ⟨hmapped, hothers⟩
    exact ⟨fun k hk hp => hmapped k hk hp, fun k hk hlt => hothers k (by omega) hk⟩
  · rintro ⟨hmapped, hothers⟩
    exact ⟨fun k hk hp => hmapped k hk hp, fun k hlt hk => hothers k hk (by omega)⟩

theorem copyToVram_clean_iff (hroom : Room blocks first migrate.npages) :
    CleanFailure migrate.npages (copyToVram hw blocks first migrate {}) ↔
      (∀ i < migrate.cpages, ¬VramFails hw blocks first migrate i) ∧
        (CopyFails hw migrate.cpages (pending hw blocks first migrate migrate.cpages) →
          UnmapRight hw blocks first migrate) := by
  rcases copyToVram_cases (hroom.mono migrate.cpages_le) with
    ⟨i, hlt, hfails, m, e, heq, hmem⟩ | ⟨hall, m, hmem, hdma, ⟨hcopy, e, heq⟩ | ⟨hcopy, heq, -⟩⟩
  · -- the destination of the page `i` is not released
    rw [heq]
    constructor
    · intro h
      have hpages := (putPages_settled_iff _ i hmem.pages).mp (h nofun).pages
      have hcard := congrArg Multiset.card hpages
      simp at hcard
    · rintro ⟨hall, -⟩
      exact absurd hfails (hall i hlt)
  · rw [heq, and_iff_right hall]
    have hpages : (putVramPages hw migrate.cpages migrate.cpages m).pages.Settled := by
      refine (putPages_settled_iff _ _ hmem.pages).mpr ?_
      congr 1
      refine map_congr_left fun k hk => ?_
      rw [hmem.scratch, vramScratch_vram k (mem_range.mp hk)]
      rfl
    have hunmap : (dmaUnmapDev migrate.npages
        (putVramPages hw migrate.cpages migrate.cpages m)).dma.Settled ↔
          UnmapRight hw blocks first migrate := by
      rw [putVramPages, dmaUnmap_settled_iff _ _ _ hdma, hmem.scratch]
      exact unmap_vram_iff
    constructor
    · intro h _
      exact hunmap.mp (h nofun).dma
    · intro h _
      refine ⟨hpages, fun k pfn hk => ?_, hunmap.mpr (h hcopy)⟩
      rw [putVramPages, putPages_eq] at hk
      simp only [hmem.dst] at hk
      split at hk
      · cases hk
      · cases hk
  · rw [heq]
    exact ⟨fun _ => ⟨hall, fun h => absurd h hcopy⟩, fun _ h => absurd rfl h⟩

end ToVram

/-! ## To RAM -/

def IsDevice (hw : Hw) (src : Nat → SrcEntry) (k : Nat) : Prop :=
  hw.devicePage (src k) ≠ none

instance (hw : Hw) (src : Nat → SrcEntry) : DecidablePred (IsDevice hw src) := fun _ =>
  inferInstanceAs (Decidable (_ ≠ _))

def ramAddr (hw : Hw) (src : Nat → SrcEntry) (k : Nat) : Nat :=
  (hw.devicePage (src k)).elim 0 hw.migrateAddr

/-- Page `k` does not follow the one before it. -/
def Breaks (hw : Hw) (src : Nat → SrcEntry) (k : Nat) : Prop :=
  ramAddr hw src k ≠ ramAddr hw src (k - 1) + pageSize

instance (hw : Hw) (src : Nat → SrcEntry) : DecidablePred (Breaks hw src) := fun _ =>
  inferInstanceAs (Decidable (_ ≠ _))

/-- The pages before page `i` that are not copied yet. -/
def ramPending (hw : Hw) (src : Nat → SrcEntry) : Nat → Nat
  | 0 => 0
  | i + 1 =>
    if IsDevice hw src i then
      if 0 < ramPending hw src i ∧ Breaks hw src i then 1 else ramPending hw src i + 1
    else 0

/-- At page `i` a batch is copied, and that fails. -/
def FlushFails (hw : Hw) (src : Nat → SrcEntry) (i : Nat) : Prop :=
  0 < ramPending hw src i ∧ (IsDevice hw src i → Breaks hw src i) ∧
    CopyFails hw i (ramPending hw src i)

def MapFails (hw : Hw) (src : Nat → SrcEntry) (i : Nat) : Prop :=
  ¬FlushFails hw src i ∧ IsDevice hw src i ∧ hw.allocPage i ≠ none ∧
    dmaMappingError (hw.dmaMapPage i) ≠ none

def RamFails (hw : Hw) (src : Nat → SrcEntry) (i : Nat) : Prop :=
  FlushFails hw src i ∨ IsDevice hw src i ∧ hw.allocPage i = none ∨ MapFails hw src i

/-- Page `f` is the first one at which something fails; the last copy counts as page `npages`. -/
def FailsFirst (hw : Hw) (migrate : MigrateVma) (f : Nat) : Prop :=
  (∀ k < f, ¬RamFails hw migrate.src k) ∧
    (f < migrate.npages ∧ RamFails hw migrate.src f ∨
      f = migrate.npages ∧ CopyFails hw f (ramPending hw migrate.src f))

def devicePages (hw : Hw) (src : Nat → SrcEntry) (n : Nat) : List Nat :=
  (range n).filter (IsDevice hw src)

def sysPage (hw : Hw) (k : Nat) : Nat := (hw.allocPage k).getD 0

/-- The first `n` pages have pages to go to, and `v` addresses in VRAM are known. -/
structure RamMem (hw : Hw) (migrate : MigrateVma) (n v : Nat) (m : Mem) : Prop where
  sys : ∀ k < migrate.npages,
    m.scratch k = if k < n ∧ IsDevice hw migrate.src k then hw.dmaMapPage k else 0
  vram : ∀ k < v, IsDevice hw migrate.src k →
    m.scratch (migrate.npages + k) = ramAddr hw migrate.src k
  dst : ∀ k, n ≤ k → m.dst k = none
  pages : m.pages.Holds ((devicePages hw migrate.src n).map (sysPage hw))
  dma : m.dma.Holds ((devicePages hw migrate.src n).map hw.dmaMapPage)

/-- The loop is at page `i`, and all operations before it went well. -/
structure RamInv (hw : Hw) (migrate : MigrateVma) (s : RamState) : Prop where
  le : s.i ≤ migrate.npages
  j_eq : s.j = ramPending hw migrate.src s.i
  mem : RamMem hw migrate s.i s.i s.m

structure RamLeft (hw : Hw) (migrate : MigrateVma) (i : Nat) (s : RamState) : Prop where
  i_eq : s.i = i
  fails : RamFails hw migrate.src i
  mem : ∃ m v, RamMem hw migrate i v m ∧
    (¬MapFails hw migrate.src i ∧ s.m = m ∨
      MapFails hw migrate.src i ∧ s.m =
        { m with
          pages := m.pages.take (sysPage hw i)
          scratch := update m.scratch i (hw.dmaMapPage i) })

section ToRam
variable {hw : Hw} {migrate : MigrateVma} {s : RamState} {i n v : Nat} {m : Mem}

theorem devicePages_succ_of_device (h : IsDevice hw migrate.src i) :
    devicePages hw migrate.src (i + 1) = devicePages hw migrate.src i ++ [i] :=
  filter_range_succ_of_pos h

theorem devicePages_succ_of_not (h : ¬IsDevice hw migrate.src i) :
    devicePages hw migrate.src (i + 1) = devicePages hw migrate.src i :=
  filter_range_succ_of_neg h

theorem RamMem.skip (h : RamMem hw migrate i i m) (hskip : ¬IsDevice hw migrate.src i) :
    RamMem hw migrate (i + 1) (i + 1) m where
  sys k hk := by
    rw [h.sys k hk]
    by_cases hd : IsDevice hw migrate.src k
    · have hne : k ≠ i := fun heq => hskip (heq ▸ hd)
      have hiff : k < i ↔ k < i + 1 := by omega
      simp only [hiff]
    · simp [hd]
  vram k hk hd := by
    have hne : k ≠ i := fun heq => hskip (heq ▸ hd)
    exact h.vram k (by omega) hd
  dst k hk := h.dst k (by omega)
  pages := by rw [devicePages_succ_of_not hskip]; exact h.pages
  dma := by rw [devicePages_succ_of_not hskip]; exact h.dma

theorem RamMem.copied (h : RamMem hw migrate n v m) (copied : List PageCopy) :
    RamMem hw migrate n v { m with copied := copied } :=
  ⟨h.sys, h.vram, h.dst, h.pages, h.dma⟩

theorem RamMem.setVram (h : RamMem hw migrate i i m) :
    RamMem hw migrate i (i + 1) { m with
      scratch := update m.scratch (migrate.npages + i) (ramAddr hw migrate.src i) } where
  sys k hk := by
    have hne : k ≠ migrate.npages + i := by omega
    exact (update_of_ne hne _ _).trans (h.sys k hk)
  vram k hk hd := by
    by_cases heq : k = i
    · rw [heq]
      exact update_self ..
    · have hne : migrate.npages + k ≠ migrate.npages + i := by omega
      exact (update_of_ne hne _ _).trans (h.vram k (by omega) hd)
  dst := h.dst
  pages := h.pages
  dma := h.dma

theorem RamMem.take (h : RamMem hw migrate i (i + 1) m) (hlt : i < migrate.npages)
    (hd : IsDevice hw migrate.src i) :
    RamMem hw migrate (i + 1) (i + 1) { m with
      scratch := update m.scratch i (hw.dmaMapPage i)
      dst := update m.dst i (some (sysPage hw i))
      pages := m.pages.take (sysPage hw i)
      dma := m.dma.take (hw.dmaMapPage i) } where
  sys k hk := by
    by_cases heq : k = i
    · rw [heq, if_pos ⟨Nat.lt_succ_self i, hd⟩]
      exact update_self ..
    · have hiff : k < i ↔ k < i + 1 := by omega
      refine (update_of_ne heq _ _).trans ((h.sys k hk).trans ?_)
      simp only [hiff]
  vram k hk hdk := by
    have hne : migrate.npages + k ≠ i := by omega
    exact (update_of_ne hne _ _).trans (h.vram k hk hdk)
  dst k hk := by
    have hne : k ≠ i := by omega
    exact (update_of_ne hne _ _).trans (h.dst k (by omega))
  pages := by
    refine h.pages.take.congr ?_
    rw [devicePages_succ_of_device hd, map_append, ← Multiset.coe_add, add_comm]
    rfl
  dma := by
    refine h.dma.take.congr ?_
    rw [devicePages_succ_of_device hd, map_append, ← Multiset.coe_add, add_comm]
    rfl

theorem takeSysPage_cases (h : RamMem hw migrate s.i (s.i + 1) s.m) (hlt : s.i < migrate.npages)
    (hd : IsDevice hw migrate.src s.i) (hflush : ¬FlushFails hw migrate.src s.i) :
    (¬RamFails hw migrate.src s.i ∧ ∃ s', takeSysPage hw s = (s', none) ∧ s'.i = s.i + 1 ∧
      s'.j = s.j + 1 ∧ RamMem hw migrate (s.i + 1) (s.i + 1) s'.m) ∨
    ∃ s' e, takeSysPage hw s = (s', some e) ∧ RamLeft hw migrate s.i s' := by
  unfold takeSysPage
  cases halloc : hw.allocPage s.i with
  | none =>
    have hmap : ¬MapFails hw migrate.src s.i := fun hmap => hmap.2.2.1 halloc
    exact .inr ⟨s, _, rfl, rfl, .inr (.inl ⟨hd, halloc⟩), s.m, _, h, .inl ⟨hmap, rfl⟩⟩
  | some dpage =>
    have hpage : sysPage hw s.i = dpage := by rw [sysPage, halloc]; rfl
    have hsome : hw.allocPage s.i ≠ none := by rw [halloc]; nofun
    dsimp only
    cases herr : dmaMappingError (hw.dmaMapPage s.i) with
    | some e =>
      have hmap : MapFails hw migrate.src s.i := ⟨hflush, hd, hsome, by rw [herr]; nofun⟩
      refine .inr ⟨_, e, rfl, rfl, .inr (.inr hmap), s.m, _, h, .inr ⟨hmap, ?_⟩⟩
      rw [hpage]
    | none =>
      have hmem := h.take hlt hd
      rw [hpage] at hmem
      refine .inl ⟨?_, _, rfl, rfl, rfl, hmem⟩
      rintro (hfails | ⟨-, hfails⟩ | hfails)
      · exact hflush hfails
      · exact hsome hfails
      · exact hfails.2.2.2 herr

theorem ramFlush_cases (hw : Hw) (s : RamState) (npages : Nat) :
    (¬CopyFails hw s.i s.j ∧ ∃ copied,
      s.flush hw npages = ({ s with m := { s.m with copied := copied } }, none)) ∨
    (CopyFails hw s.i s.j ∧ ∃ copied e,
      s.flush hw npages = ({ s with m := { s.m with copied := copied } }, some e)) := by
  have hiff := copyMemoryGart_none_iff hw .vramToRam s.i (s.i - s.j) (npages + (s.i - s.j)) s.j s.m
  by_cases hfails : CopyFails hw s.i s.j
  · obtain ⟨e, he⟩ := Option.ne_none_iff_exists'.mp (mt hiff.mp (not_not_intro hfails))
    exact .inr ⟨hfails, _, e, Prod.ext rfl he⟩
  · exact .inl ⟨hfails, _, Prod.ext rfl (hiff.mpr hfails)⟩

/-- A turn of the loop goes on to the next page, or fails and leaves what it is to leave. -/
def RamTurn (hw : Hw) (migrate : MigrateVma) (s : RamState) : Prop :=
  (¬RamFails hw migrate.src s.i ∧ ∃ s', ramStep hw migrate.npages migrate.src s = (s', none) ∧
    s'.i = s.i + 1 ∧ RamInv hw migrate s') ∨
  ∃ s' e, ramStep hw migrate.npages migrate.src s = (s', some e) ∧ RamLeft hw migrate s.i s'

theorem ramStep_skip (h : RamInv hw migrate s) (hlt : s.i < migrate.npages)
    (hskip : ¬IsDevice hw migrate.src s.i) : RamTurn hw migrate s := by
  have hnone : hw.devicePage (migrate.src s.i) = none := not_not.mp hskip
  have hmap : ¬MapFails hw migrate.src s.i := fun hmap => hskip hmap.2.1
  have hzero : 0 = ramPending hw migrate.src (s.i + 1) := (if_neg hskip).symm
  have hmem := h.mem.skip hskip
  have hwell (hflush : ¬FlushFails hw migrate.src s.i) : ¬RamFails hw migrate.src s.i := by
    rintro (hfails | ⟨hd, -⟩ | hfails)
    · exact hflush hfails
    · exact hskip hd
    · exact hmap hfails
  unfold RamTurn ramStep
  rw [hnone]
  dsimp only
  by_cases hj : s.j = 0
  · rw [if_neg (not_not_intro hj)]
    refine .inl ⟨hwell fun hfails => ?_, _, rfl, rfl, hlt, hj.trans hzero, hmem⟩
    exact absurd (h.j_eq.symm.trans hj) hfails.1.ne'
  · rw [if_pos hj]
    rcases ramFlush_cases hw s migrate.npages with
      ⟨hok, copied, heq⟩ | ⟨hfails, copied, e, heq⟩
    · rw [heq, andThen_none rfl]
      refine .inl ⟨hwell fun hfails => ?_, _, rfl, rfl, hlt, hzero, hmem.copied copied⟩
      exact hok (h.j_eq ▸ hfails.2.2)
    · rw [heq]
      have hflush : FlushFails hw migrate.src s.i :=
        ⟨h.j_eq ▸ Nat.pos_of_ne_zero hj, fun hd => absurd hd hskip, h.j_eq ▸ hfails⟩
      exact .inr ⟨_, e, rfl, rfl, .inl hflush, _, _, h.mem.copied copied, .inl ⟨hmap, rfl⟩⟩

theorem ramPending_pos {src : Nat → SrcEntry} (h : 0 < ramPending hw src i) :
    0 < i ∧ IsDevice hw src (i - 1) := by
  cases i with
  | zero => exact absurd h (Nat.not_lt_zero 0)
  | succ i =>
    refine ⟨Nat.succ_pos i, ?_⟩
    by_contra hskip
    have hzero : ramPending hw src (i + 1) = 0 := if_neg hskip
    exact absurd h (by rw [hzero]; exact lt_irrefl 0)

theorem ramStep_page (h : RamInv hw migrate s) (hlt : s.i < migrate.npages)
    (hd : IsDevice hw migrate.src s.i) : RamTurn hw migrate s := by
  obtain ⟨spage, hspage⟩ := Option.ne_none_iff_exists'.mp hd
  have haddr : hw.migrateAddr spage = ramAddr hw migrate.src s.i := by rw [ramAddr, hspage]; rfl
  have hmem := h.mem.setVram
  -- the address of the page before is known when something is pending
  have hbefore (hj : 0 < s.j) :
      update s.m.scratch (migrate.npages + s.i) (ramAddr hw migrate.src s.i)
        (migrate.npages + (s.i - 1)) = ramAddr hw migrate.src (s.i - 1) := by
    obtain ⟨hpos, hdev⟩ := ramPending_pos (h.j_eq ▸ hj)
    have hne : migrate.npages + (s.i - 1) ≠ migrate.npages + s.i := by omega
    rw [update_of_ne hne]
    exact h.mem.vram (s.i - 1) (by omega) hdev
  have htest : (0 < s.j ∧ ramAddr hw migrate.src s.i ≠
      update s.m.scratch (migrate.npages + s.i) (ramAddr hw migrate.src s.i)
        (migrate.npages + (s.i - 1)) + pageSize) ↔ 0 < s.j ∧ Breaks hw migrate.src s.i :=
    and_congr_right fun hj => by rw [hbefore hj]; rfl
  unfold RamTurn ramStep
  rw [hspage]
  dsimp only
  rw [haddr]
  by_cases hbreak : 0 < s.j ∧ Breaks hw migrate.src s.i
  · rw [if_pos (htest.mpr hbreak)]
    have hone : 0 + 1 = ramPending hw migrate.src (s.i + 1) := by
      rw [ramPending, if_pos hd, if_pos (h.j_eq ▸ hbreak)]
    rcases ramFlush_cases hw { s with m := { s.m with
        scratch := update s.m.scratch (migrate.npages + s.i)
          (ramAddr hw migrate.src s.i) } } migrate.npages with
      ⟨hok, copied, heq⟩ | ⟨hfails, copied, e, heq⟩
    · rw [heq, andThen_none rfl]
      have hflush : ¬FlushFails hw migrate.src s.i := fun hfails => hok (h.j_eq ▸ hfails.2.2)
      rcases takeSysPage_cases (s := ⟨s.i, 0, _⟩) (hmem.copied copied) hlt hd hflush with
        ⟨hwell, s', heq', hi, hj, hmem'⟩ | hleft
      · refine .inl ⟨hwell, s', heq', hi, ?_, ?_, ?_⟩
        · rw [hi]
          exact hlt
        · rw [hi, hj]
          exact hone
        · rw [hi]
          exact hmem'
      · exact .inr hleft
    · rw [heq]
      have hflush : FlushFails hw migrate.src s.i :=
        ⟨h.j_eq ▸ hbreak.1, fun _ => hbreak.2, h.j_eq ▸ hfails⟩
      exact .inr ⟨_, e, rfl, rfl, .inl hflush, _, _, hmem.copied copied,
        .inl ⟨fun hmap => hmap.1 hflush, rfl⟩⟩
  · rw [if_neg (mt htest.mp hbreak)]
    have hmore : s.j + 1 = ramPending hw migrate.src (s.i + 1) := by
      rw [ramPending, if_pos hd, if_neg (h.j_eq ▸ hbreak), h.j_eq]
    have hflush : ¬FlushFails hw migrate.src s.i := fun hfails =>
      hbreak ⟨h.j_eq ▸ hfails.1, hfails.2.1 hd⟩
    rcases takeSysPage_cases (s := { s with m := { s.m with
        scratch := update s.m.scratch (migrate.npages + s.i)
          (ramAddr hw migrate.src s.i) } }) hmem hlt hd hflush with
      ⟨hwell, s', heq', hi, hj, hmem'⟩ | hleft
    · refine .inl ⟨hwell, s', heq', hi, ?_, ?_, ?_⟩
      · rw [hi]
        exact hlt
      · rw [hi, hj]
        exact hmore
      · rw [hi]
        exact hmem'
    · exact .inr hleft

theorem ramStep_cases (h : RamInv hw migrate s) (hlt : s.i < migrate.npages) :
    RamTurn hw migrate s := by
  by_cases hd : IsDevice hw migrate.src s.i
  · exact ramStep_page h hlt hd
  · exact ramStep_skip h hlt hd

theorem ramLoop_cases (h : RamInv hw migrate s) (hi : s.i = 0) :
    (∃ s', timesUntil (ramStep hw migrate.npages migrate.src) migrate.npages s = (s', none) ∧
      s'.i = migrate.npages ∧ (∀ k < migrate.npages, ¬RamFails hw migrate.src k) ∧
        RamInv hw migrate s') ∨
    ∃ i < migrate.npages, ∃ s' e,
      timesUntil (ramStep hw migrate.npages migrate.src) migrate.npages s = (s', some e) ∧
        (∀ k < i, ¬RamFails hw migrate.src k) ∧ RamLeft hw migrate i s' := by
  let I (i : Nat) (s : RamState) : Prop := s.i = i ∧ RamInv hw migrate s
  have hround : ∀ i < migrate.npages, ∀ s, I i s →
      (¬RamFails hw migrate.src i ∧ ∃ s',
        ramStep hw migrate.npages migrate.src s = (s', none) ∧ I (i + 1) s') ∨
      (RamFails hw migrate.src i ∧ ∃ s' e,
        ramStep hw migrate.npages migrate.src s = (s', some e) ∧ RamLeft hw migrate i s') := by
    rintro i hlt s ⟨rfl, hs⟩
    rcases ramStep_cases hs hlt with hok | ⟨s', e, heq, hleft⟩
    · exact .inl hok
    · exact .inr ⟨hleft.fails, s', e, heq, hleft⟩
  rcases timesUntil_first hround ⟨hi, h⟩ with
    ⟨hall, s', heq, hend⟩ | ⟨i, hlt, hbefore, -, s', e, heq, hleft⟩
  · exact .inl ⟨s', heq, hend.1, hall, hend.2⟩
  · exact .inr ⟨i, hlt, s', e, heq, hbefore, hleft⟩

theorem ramInv_init : RamInv hw migrate { i := 0, j := 0, m := {} } where
  le := Nat.zero_le _
  j_eq := rfl
  mem :=
    { sys := fun k _ => by simp
      vram := fun k hk => absurd hk (Nat.not_lt_zero k)
      dst := fun _ _ => rfl
      pages := Ledger.Holds.init
      dma := Ledger.Holds.init }

theorem sysPage_ne (h : hw.allocPage i ≠ none) : sysPage hw i ≠ 0 := by
  obtain ⟨page, hpage⟩ := Option.ne_none_iff_exists'.mp h
  intro hzero
  rw [sysPage, hpage] at hzero
  exact hw.allocPage_ne i (hpage.trans (congrArg some hzero))

theorem held_ne (hbefore : ∀ k < n, ¬RamFails hw migrate.src k) :
    ∀ page ∈ (devicePages hw migrate.src n).map (sysPage hw), page ≠ 0 := by
  refine forall_mem_map.mpr fun k hk => sysPage_ne fun hnone => ?_
  obtain ⟨hlt, hd⟩ := mem_filter.mp hk
  exact hbefore k (mem_range.mp hlt) (.inr (.inl ⟨of_decide_eq_true hd, hnone⟩))

theorem RamMem.zero_mem (h : RamMem hw migrate n v m) (hle : n ≤ migrate.npages) {k : Nat}
    (hk : k < n) (hskip : ¬IsDevice hw migrate.src k) :
    0 ∈ (range n).map fun k => m.scratch k / pageSize := by
  refine mem_map.mpr ⟨k, mem_range.mpr hk, ?_⟩
  rw [h.sys k (hk.trans_le hle), if_neg fun hd => hskip hd.2, Nat.zero_div]

theorem devicePages_all (h : ∀ k < n, IsDevice hw migrate.src k) :
    devicePages hw migrate.src n = range n :=
  filter_eq_self.mpr fun k hk => decide_eq_true (h k (mem_range.mp hk))

theorem RamMem.unmapped (h : RamMem hw migrate n v m) (hle : n ≤ migrate.npages) :
    unmapped migrate.npages m.scratch =
      ((devicePages hw migrate.src n).map hw.dmaMapPage).filter isValidDmaMappingAddr := by
  have hmap : (range migrate.npages).map m.scratch =
      (range migrate.npages).map fun k =>
        if k < n ∧ IsDevice hw migrate.src k then hw.dmaMapPage k else 0 :=
    map_congr_left fun k hk => h.sys k (mem_range.mp hk)
  rw [Migrate.unmapped, hmap, filter_map_ite]
  simp only [Bool.decide_and]
  rw [filter_range_lt hle]
  rfl

theorem RamMem.unmap_iff (h : RamMem hw migrate n v m) (hle : n ≤ migrate.npages) :
    (Migrate.unmapped migrate.npages m.scratch : Multiset Nat) =
        (devicePages hw migrate.src n).map hw.dmaMapPage ↔
      ∀ addr ∈ (devicePages hw migrate.src n).map hw.dmaMapPage, isValidDmaMappingAddr addr := by
  have hiff := @filter_append_eq_iff isValidDmaMappingAddr
    ((devicePages hw migrate.src n).map hw.dmaMapPage) []
  rw [filter_nil, append_nil, ← h.unmapped hle] at hiff
  exact hiff.trans (and_iff_left fun _ hy => absurd hy not_mem_nil)

end ToRam

/-- What must hold of the first failure, at page `f`: no page was taken that could not be mapped,
no entry was skipped, the DMA addresses are those of the pages, up to their order, and valid. -/
structure RamRight (hw : Hw) (migrate : MigrateVma) (f : Nat) : Prop where
  mapped : ¬(f < migrate.npages ∧ MapFails hw migrate.src f)
  device : ∀ k < f, IsDevice hw migrate.src k
  pages : ((range f).map fun k => hw.dmaMapPage k / pageSize).Perm
    ((range f).map (sysPage hw))
  valid : ∀ k < f, isValidDmaMappingAddr (hw.dmaMapPage k) = true

section ToRam
variable {hw : Hw} {migrate : MigrateVma} {f v : Nat} {m : Mem}

theorem clean_iff_of_held (h : RamMem hw migrate f v m) (hle : f ≤ migrate.npages)
    (hbefore : ∀ k < f, ¬RamFails hw migrate.src k)
    (hmap : ¬(f < migrate.npages ∧ MapFails hw migrate.src f)) :
    Clean migrate.npages (putSysPages f m) ↔ RamRight hw migrate f := by
  have hpages := putPages_settled_iff (fun k => m.scratch k / pageSize) f h.pages
  have hdma := dmaUnmap_settled_iff migrate.npages (fun k => m.scratch k / pageSize) f h.dma
  rw [h.unmap_iff hle] at hdma
  -- the released pages, when no entry was skipped
  have hreleased (hall : ∀ k < f, IsDevice hw migrate.src k) :
      ((range f).map fun k => m.scratch k / pageSize) =
        (range f).map fun k => hw.dmaMapPage k / pageSize :=
    map_congr_left fun k hk => by
      have hk := mem_range.mp hk
      rw [h.sys k (hk.trans_le hle), if_pos ⟨hk, hall k hk⟩]
  constructor
  · intro hclean
    have heq := hpages.mp hclean.pages
    have hall : ∀ k < f, IsDevice hw migrate.src k := by
      intro k hk
      by_contra hskip
      have hzero := Multiset.mem_coe.mpr (h.zero_mem hle hk hskip)
      rw [heq] at hzero
      exact held_ne hbefore 0 (Multiset.mem_coe.mp hzero) rfl
    rw [hreleased hall, devicePages_all hall] at heq
    have hvalid := hdma.mp hclean.dma
    rw [devicePages_all hall] at hvalid
    refine ⟨hmap, hall, Multiset.coe_eq_coe.mp heq, fun k hk => ?_⟩
    exact hvalid _ (mem_map_of_mem (mem_range.mpr hk))
  · rintro ⟨-, hall, hperm, hvalid⟩
    refine ⟨hpages.mpr ?_, fun k pfn hk => ?_, hdma.mpr ?_⟩
    · rw [hreleased hall, devicePages_all hall]
      exact Multiset.coe_eq_coe.mpr hperm
    · rw [putSysPages, putPages_eq] at hk
      dsimp only at hk
      split at hk
      case isTrue => cases hk
      case isFalse hge =>
        rw [h.dst k (not_lt.mp hge)] at hk
        cases hk
    · rw [devicePages_all hall]
      exact forall_mem_map.mpr fun k hk => hvalid k (mem_range.mp hk)

theorem not_clean_of_mapFails (h : RamMem hw migrate f v m) (hlt : f < migrate.npages)
    (hbefore : ∀ k < f, ¬RamFails hw migrate.src k) (hmap : MapFails hw migrate.src f) :
    ¬Clean migrate.npages (putSysPages f { m with
      pages := m.pages.take (sysPage hw f)
      scratch := update m.scratch f (hw.dmaMapPage f) }) := by
  intro hclean
  have hreleased : ((range f).map fun k =>
        update m.scratch f (hw.dmaMapPage f) k / pageSize) =
      (range f).map fun k => m.scratch k / pageSize :=
    map_congr_left fun k hk => by
      rw [update_of_ne (mem_range.mp hk).ne]
  have heq := (putPages_settled_iff _ f (Ledger.Holds.take h.pages)).mp hclean.pages
  dsimp only at heq
  rw [hreleased] at heq
  by_cases hall : ∀ k < f, IsDevice hw migrate.src k
  · -- one page more is held than is released
    have hcard := congrArg Multiset.card heq
    rw [devicePages_all hall] at hcard
    simp at hcard
  · push Not at hall
    obtain ⟨k, hk, hskip⟩ := hall
    have hzero := Multiset.mem_coe.mpr (h.zero_mem hlt.le hk hskip)
    rw [heq] at hzero
    rcases Multiset.mem_add.mp hzero with hzero | hzero
    · exact sysPage_ne hmap.2.2.1 (Multiset.mem_singleton.mp hzero).symm
    · exact held_ne hbefore 0 (Multiset.mem_coe.mp hzero) rfl

theorem failsFirst_unique {f' : Nat} (h : FailsFirst hw migrate f)
    (h' : FailsFirst hw migrate f') : f = f' := by
  have hlt {a b : Nat} (ha : FailsFirst hw migrate a) (hb : FailsFirst hw migrate b)
      (hab : a < b) : False := by
    rcases ha.2 with ⟨-, hfails⟩ | ⟨rfl, -⟩
    · exact hb.1 a hab hfails
    · rcases hb.2 with ⟨hb, -⟩ | ⟨rfl, -⟩
      · exact absurd hab hb.not_gt
      · exact absurd hab (lt_irrefl _)
  rcases lt_trichotomy f f' with hff | heq | hff
  · exact (hlt h h' hff).elim
  · exact heq
  · exact (hlt h' h hff).elim

theorem copyToRam_clean_iff (hw : Hw) (migrate : MigrateVma) :
    CleanFailure migrate.npages (copyToRam hw migrate {}) ↔
      ∀ f, FailsFirst hw migrate f → RamRight hw migrate f := by
  -- what follows when the first failure is at page `f`
  have hat {f : Nat} {m : Mem} {e : Int} (hfails : FailsFirst hw migrate f)
      (heq : copyToRam hw migrate {} = (putSysPages f m, some e))
      (hiff : Clean migrate.npages (putSysPages f m) ↔ RamRight hw migrate f) :
      CleanFailure migrate.npages (copyToRam hw migrate {}) ↔
        ∀ f, FailsFirst hw migrate f → RamRight hw migrate f := by
    rw [heq]
    constructor
    · intro h f' hf'
      exact failsFirst_unique hfails hf' ▸ hiff.mp (h nofun)
    · intro h _
      exact hiff.mpr (h f hfails)
  rcases ramLoop_cases ramInv_init rfl with
    ⟨s, hloop, hi, hall, hs⟩ | ⟨i, hlt, s, e, hloop, hbefore, rfl, hfails, m, v, hmem, hleft⟩
  · have hmem : RamMem hw migrate migrate.npages migrate.npages s.m := hi ▸ hs.mem
    have hcopy : CopyFails hw s.i s.j ↔
        CopyFails hw migrate.npages (ramPending hw migrate.src migrate.npages) := by
      rw [hs.j_eq, hi]
    rcases ramFlush_cases hw s migrate.npages with
      ⟨hok, copied, hflush⟩ | ⟨hfails, copied, e, hflush⟩
    · have heq : copyToRam hw migrate {} = ({ s.m with copied := copied }, none) := by
        unfold copyToRam
        dsimp only
        rw [hloop, andThen_none rfl, hflush]
      rw [heq]
      refine iff_of_true (fun h => absurd rfl h) fun f hf => ?_
      rcases hf.2 with ⟨hlt, hfails⟩ | ⟨rfl, hfails⟩
      · exact absurd hfails (hall f hlt)
      · exact absurd (hcopy.mpr hfails) hok
    · have heq : copyToRam hw migrate {} =
          (putSysPages migrate.npages { s.m with copied := copied }, some e) := by
        unfold copyToRam
        dsimp only
        rw [hloop, andThen_none rfl, hflush, ← hi]
      refine hat ⟨hall, .inr ⟨rfl, hcopy.mp hfails⟩⟩ heq ?_
      exact clean_iff_of_held (hmem.copied copied) le_rfl hall fun h => absurd h.1 (lt_irrefl _)
  · have heq : copyToRam hw migrate {} = (putSysPages s.i s.m, some e) := by
      unfold copyToRam
      dsimp only
      rw [hloop]
      rfl
    refine hat ⟨hbefore, .inl ⟨hlt, hfails⟩⟩ heq ?_
    rcases hleft with ⟨hmap, hm⟩ | ⟨hmap, hm⟩
    · rw [hm]
      exact clean_iff_of_held hmem hlt.le hbefore fun h => hmap h.2
    · rw [hm]
      refine iff_of_false (not_clean_of_mapFails hmem hlt hbefore hmap) fun h => ?_
      exact h.mapped ⟨hlt, hmap⟩

end ToRam

/-- When a failure of either function leaves nothing behind. -/
theorem copies_clean_iff (hw : Hw) (blocks : List Extent) (first : Nat)
    (toVram toRam : MigrateVma) (hroom : Room blocks first toVram.npages) :
    (CleanFailure toVram.npages (copyToVram hw blocks first toVram {}) ↔
      (∀ i < toVram.cpages, ¬VramFails hw blocks first toVram i) ∧
        (CopyFails hw toVram.cpages (pending hw blocks first toVram toVram.cpages) →
          UnmapRight hw blocks first toVram)) ∧
    (CleanFailure toRam.npages (copyToRam hw toRam {}) ↔
      ∀ f, FailsFirst hw toRam f → RamRight hw toRam f) :=
  ⟨copyToVram_clean_iff hroom, copyToRam_clean_iff hw toRam⟩

/-! ## An example -/

def exLastCopy : Hw :=
  { exHw with copyBuffer := fun i _ => if i = 3 then some (-5) else none, uninit := none }

theorem exLastCopy_room : Room exBlocks 1 3 :=
  ⟨exBlocks_room.pos, exBlocks_room.dvd, exBlocks_room.room⟩

theorem exLastCopy_well {i n : Nat} (hi : i < 3) : ¬CopyFails exLastCopy i n := by
  unfold CopyFails
  split
  · exact not_not_intro rfl
  · rintro ⟨part, -, hmap | hcopy⟩
    · exact hmap rfl
    · exact hcopy (if_neg hi.ne)

theorem copies_clean_exLastCopy :
    (copyToVram exLastCopy exBlocks 1 exMigrate {}).2 = some (-5) ∧
      CleanFailure 3 (copyToVram exLastCopy exBlocks 1 exMigrate {}) := by
  refine ⟨by decide +kernel,
    (copies_clean_iff exLastCopy exBlocks 1 exMigrate exMigrate exLastCopy_room).1.mpr
      ⟨fun i hi hfails => ?_, fun _ => ⟨by decide, by decide⟩⟩⟩
  unfold VramFails at hfails
  split at hfails
  · rcases hfails with hmap | ⟨-, hcopy⟩
    · exact hmap (exHw_succeeds.dmaMapPage i)
    · exact exLastCopy_well hi hcopy
  · exact exLastCopy_well hi hfails.2

def exUnmappable : Hw :=
  { exHw with dmaMapPage := fun _ => dmaMappingErrorAddr }

/-- The destination of the page stays. -/
theorem copies_broken : ¬ ∀ (hw : Hw) (blocks : List Extent) (first : Nat)
    (toVram toRam : MigrateVma) (_ : Room blocks first toVram.npages),
    CleanFailure toVram.npages (copyToVram hw blocks first toVram {}) ∧
      CleanFailure toRam.npages (copyToRam hw toRam {}) := by
  intro h
  have hroom : Room exBlocks 1 3 :=
    ⟨exBlocks_room.pos, exBlocks_room.dvd, exBlocks_room.room⟩
  have hclean := (h exUnmappable exBlocks 1 exMigrate exMigrate hroom).1 (by decide +kernel)
  exact absurd hclean.pages (by decide +kernel)

end Amdkfd.Migrate
