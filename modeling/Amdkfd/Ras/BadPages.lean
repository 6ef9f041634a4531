import Amdkfd.Ras.Persist

/-!
# The list of bad pages and the table

`amdgpu_ras_load_bad_pages`, `amdgpu_ras_add_bad_pages` and `amdgpu_ras_save_bad_pages`: the bad
pages of the device in memory, over the table in the EEPROM. What there is to save is found from
two counts, that of the list and that of the table. Memory can be allocated.

The pages that were handed to `amdgpu_vram_mgr_reserve_range`, the counts at the last load and the
records that were written since are followed beside the model.
-/

namespace Amdkfd.Ras.BadPages

open Lib List

/-! ## Model -/

def rasUmcInjectAddrLimit : Nat := 2 ^ 52

structure Gpu where
  mcVramSize : Nat
  retireUnit : Nat

/-- `struct ras_err_handler_data` with the size of its array. Its `count` is the length of `bps`. -/
structure EhData where
  bps : List Record
  spaceLeft : Nat
  size : Nat

structure State where
  params : Params
  table : Table
  data : EhData
  /-- The addresses handed to `amdgpu_vram_mgr_reserve_range`. -/
  reserved : List Nat
  /-- `ras_num_recs` and the length of the list at the last load. -/
  loadedRecs : Nat
  loadedPages : Nat
  /-- The records written to the EEPROM since the last load. -/
  written : List Record

/-- `retired_page << AMDGPU_GPU_PAGE_SHIFT`, in 64 bits. -/
def pageAddr (retiredPage : Nat) : Nat := retiredPage * 4096 % 2 ^ 64

def amdgpuRasCheckBadPageUnlock (gpu : Gpu) (data : EhData) (addr : Nat) : Except Errno Bool :=
  if (gpu.mcVramSize ≤ addr ∧ gpu.mcVramSize ≠ 0) ∨ rasUmcInjectAddrLimit ≤ addr then
    .error .einval
  else .ok (data.bps.any fun bp => addr / 4096 = bp.retiredPage)

def amdgpuRasReallocEhDataSpace (data : EhData) (pages : Nat) : EhData :=
  let oldSpace := data.bps.length + data.spaceLeft
  let alignSpace := (oldSpace + pages + 511) / 512 * 512
  { data with
    spaceLeft := data.spaceLeft + (alignSpace - oldSpace)
    size := alignSpace }

/-- One round of the loop of `amdgpu_ras_add_bad_pages`. A page outside of VRAM is passed over like
one that is known. -/
def addBadPage (gpu : Gpu) (s : State) (bp : Record) : State :=
  match amdgpuRasCheckBadPageUnlock gpu s.data (pageAddr bp.retiredPage) with
  | .ok false =>
    let data := if s.data.spaceLeft = 0 then amdgpuRasReallocEhDataSpace s.data 256 else s.data
    { s with
      data := { data with bps := data.bps ++ [bp], spaceLeft := data.spaceLeft - 1 }
      reserved := s.reserved ++ [pageAddr bp.retiredPage] }
  | _ => s

def amdgpuRasAddBadPages (gpu : Gpu) (s : State) (bps : List Record) : State :=
  bps.foldl (addBadPage gpu) s

/-- `save_count` of `amdgpu_ras_save_bad_pages`. -/
def saveCount (s : State) : Int := s.data.bps.length - s.table.control.rasNumRecs

/-- The second result is `new_cnt`, an unsigned quotient. -/
def amdgpuRasSaveBadPages (gpu : Gpu) (s : State) : State × Nat × Option Errno :=
  let newCnt := (saveCount s % 2 ^ 32).toNat / gpu.retireUnit
  if 0 < saveCount s then
    let bps := s.data.bps.drop s.table.control.rasNumRecs
    match amdgpuRasEepromAppend s.params s.table bps with
    | (table, .ok _) => ({ s with table := table, written := s.written ++ bps }, newCnt, none)
    | (table, .error _) => ({ s with table := table }, newCnt, some .eio)
  else (s, newCnt, none)

def amdgpuRasLoadBadPages (gpu : Gpu) (s : State) : State × Option Errno :=
  if s.table.control.rasNumRecs = 0 ∨ s.params.badPageThreshold = 0 then (s, none)
  else
    match amdgpuRasEepromRead s.table s.table.control.rasNumRecs with
    | (table, .ok bps) => (amdgpuRasAddBadPages gpu { s with table := table } bps, none)
    | (table, .error e) => ({ s with table := table }, some e)

/-! ## Runs -/

inductive Op
  | load
  | add (bps : List Record)
  | save

def step (gpu : Gpu) (s : State) : Op → State
  | .load =>
    let s' := (amdgpuRasLoadBadPages gpu s).1
    { s' with
      loadedRecs := s.table.control.rasNumRecs
      loadedPages := s'.data.bps.length
      written := [] }
  | .add bps => amdgpuRasAddBadPages gpu s bps
  | .save => (amdgpuRasSaveBadPages gpu s).1

/-- The driver has found the table in the EEPROM, or made one. -/
def start (p : Params) (e : Eeprom) : State :=
  let table := (amdgpuRasEepromInit p ⟨freshControl, e⟩).1
  { params := p
    table := table
    data := { bps := [], spaceLeft := 0, size := 0 }
    reserved := []
    loadedRecs := table.control.rasNumRecs
    loadedPages := 0
    written := [] }

def State.added (s : State) : List Record := s.data.bps.drop s.loadedPages

/-! ## The promise -/

/-- No page is twice on the list, each was reserved once, and the array has a place for each. -/
structure Kept (s : State) : Prop where
  distinct : (s.data.bps.map Record.retiredPage).Nodup
  reserved : ∀ bp ∈ s.data.bps, s.reserved.count (pageAddr bp.retiredPage) = 1
  space : s.data.bps.length + s.data.spaceLeft = s.data.size

/-- Every page that came since the last load is in the table, and was written once. -/
def Saved (s : State) : Prop :=
  ∀ bp ∈ s.added, (∃ r ∈ tableRecords s.table, r.retiredPage = bp.retiredPage) ∧
    (s.written.map Record.retiredPage).count bp.retiredPage = 1

/-- The address is one that `amdgpu_ras_check_bad_page_unlock` looks for. -/
def InVram (gpu : Gpu) (addr : Nat) : Prop :=
  (addr < gpu.mcVramSize ∨ gpu.mcVramSize = 0) ∧ addr < rasUmcInjectAddrLimit
  deriving Decidable

/-- No page is added whose number loses bits in its address and comes to lie in VRAM. A load finds
its first record in the table. A save has nothing to do, or it comes after a load that has put as
many pages on the list as there were records, all pages of the list fit in the table, and the
records are behind the header. -/
def StepOk (gpu : Gpu) (s : State) : Op → Prop
  | .load => s.table.control.rasNumRecs = 0 ∨ s.params.badPageThreshold = 0 ∨
      s.table.control.rasFri < s.table.control.rasMaxRecordCount
  | .add bps => ∀ bp ∈ bps, bp.retiredPage < 2 ^ 52 ∨ ¬InVram gpu (pageAddr bp.retiredPage)
  | .save => (s.added = [] ∧ s.data.bps.length ≤ s.table.control.rasNumRecs) ∨
      (s.loadedRecs ≤ s.loadedPages ∧ s.data.bps.length ≤ s.table.control.rasMaxRecordCount ∧
        s.table.control.rasFri < s.table.control.rasMaxRecordCount ∧
        RoomForStart s.table.control)

/-! ## Pages come to the list -/

section Add
variable {gpu : Gpu} {s : State}

/-- The list, with pages that `amdgpu_ras_check_bad_page_unlock` finds again. -/
structure Listed (gpu : Gpu) (s : State) : Prop where
  inVram : ∀ bp ∈ s.data.bps, bp.retiredPage < 2 ^ 40
  distinct : (s.data.bps.map Record.retiredPage).Nodup
  reserved : s.reserved = s.data.bps.map fun bp => pageAddr bp.retiredPage
  space : s.data.bps.length + s.data.spaceLeft = s.data.size

theorem pageAddr_of_lt {page : Nat} (h : page < 2 ^ 52) : pageAddr page = page * 4096 :=
  Nat.mod_eq_of_lt (by omega)

theorem check_ok {data : EhData} {addr : Nat} {known : Bool}
    (h : amdgpuRasCheckBadPageUnlock gpu data addr = .ok known) :
    InVram gpu addr ∧ known = data.bps.any fun bp => addr / 4096 = bp.retiredPage := by
  unfold amdgpuRasCheckBadPageUnlock at h
  split at h
  · cases h
  · next hin =>
    obtain ⟨hsize, hlimit⟩ := not_or.mp hin
    cases h
    exact ⟨⟨by omega, not_le.mp hlimit⟩, rfl⟩

theorem realloc_size {data : EhData} (h : data.bps.length + data.spaceLeft = data.size)
    (pages : Nat) :
    (amdgpuRasReallocEhDataSpace data pages).bps = data.bps ∧
      data.spaceLeft + pages ≤ (amdgpuRasReallocEhDataSpace data pages).spaceLeft ∧
      (amdgpuRasReallocEhDataSpace data pages).bps.length +
        (amdgpuRasReallocEhDataSpace data pages).spaceLeft =
          (amdgpuRasReallocEhDataSpace data pages).size := by
  unfold amdgpuRasReallocEhDataSpace
  dsimp only
  have hup : data.bps.length + data.spaceLeft + pages ≤
      (data.bps.length + data.spaceLeft + pages + 511) / 512 * 512 := by omega
  exact ⟨rfl, by omega, by omega⟩

theorem addBadPage_spec (h : Listed gpu s) {bp : Record}
    (hok : bp.retiredPage < 2 ^ 52 ∨ ¬InVram gpu (pageAddr bp.retiredPage)) :
    Listed gpu (addBadPage gpu s bp) ∧ ∃ data reserved new,
      addBadPage gpu s bp = { s with data := data, reserved := reserved } ∧
        data.bps = s.data.bps ++ new := by
  unfold addBadPage
  split
  · next hcheck =>
    obtain ⟨hin, hknown⟩ := check_ok hcheck
    have hpage : bp.retiredPage < 2 ^ 52 := hok.resolve_right (not_not.mpr hin)
    rw [pageAddr_of_lt hpage] at hin hknown ⊢
    rw [Nat.mul_div_cancel _ (by decide), eq_comm, any_eq_false] at hknown
    have hlow : bp.retiredPage < 2 ^ 40 := by
      have := hin.2
      unfold rasUmcInjectAddrLimit at this
      omega
    -- the array with room for one more
    have hroom : ∃ data : EhData, (if s.data.spaceLeft = 0 then
          amdgpuRasReallocEhDataSpace s.data 256 else s.data) = data ∧
        data.bps = s.data.bps ∧ 0 < data.spaceLeft ∧
        data.bps.length + data.spaceLeft = data.size := by
      split
      · obtain ⟨hbps, hleft, hsize⟩ := realloc_size h.space 256
        exact ⟨_, rfl, hbps, by omega, hsize⟩
      · next hleft => exact ⟨_, rfl, rfl, Nat.pos_of_ne_zero hleft, h.space⟩
    obtain ⟨data, heq, hbps, hleft, hsize⟩ := hroom
    dsimp only
    rw [heq, hbps]
    refine ⟨⟨fun b hb => ?_, ?_, ?_, ?_⟩, _, _, [bp], rfl, rfl⟩
    · rcases mem_append.mp hb with hb | hb
      · exact h.inVram b hb
      · rw [mem_singleton.mp hb]
        exact hlow
    · dsimp only
      rw [map_append, nodup_append]
      refine ⟨h.distinct, nodup_singleton _, fun x hx y hy => ?_⟩
      obtain ⟨b, hb, rfl⟩ := mem_map.mp hx
      rw [map_singleton, mem_singleton] at hy
      subst hy
      have := hknown b hb
      rw [decide_eq_true_eq] at this
      exact fun heq => this heq.symm
    · dsimp only
      rw [map_append, h.reserved, map_singleton, pageAddr_of_lt hpage]
    · dsimp only
      rw [length_append, length_singleton, ← hbps]
      omega
  · exact ⟨h, s.data, s.reserved, [], rfl, (append_nil _).symm⟩

theorem addBadPages_spec (bps : List Record) : ∀ s : State, Listed gpu s →
    (∀ bp ∈ bps, bp.retiredPage < 2 ^ 52 ∨ ¬InVram gpu (pageAddr bp.retiredPage)) →
    Listed gpu (amdgpuRasAddBadPages gpu s bps) ∧ ∃ data reserved new,
      amdgpuRasAddBadPages gpu s bps = { s with data := data, reserved := reserved } ∧
        data.bps = s.data.bps ++ new := by
  induction bps with
  | nil => exact fun s h _ => ⟨h, s.data, s.reserved, [], rfl, (append_nil _).symm⟩
  | cons bp bps ih =>
    intro s h hok
    obtain ⟨hfirst, data, reserved, new, heq, hdata⟩ :=
      addBadPage_spec h (hok bp mem_cons_self)
    obtain ⟨hrest, data', reserved', new', heq', hdata'⟩ :=
      ih _ hfirst fun b hb => hok b (mem_cons_of_mem _ hb)
    refine ⟨hrest, data', reserved', new ++ new', ?_, ?_⟩
    · show amdgpuRasAddBadPages gpu (addBadPage gpu s bp) bps = _
      rw [heq', heq]
    · rw [hdata', heq, ← append_assoc, ← hdata]

theorem Listed.kept (h : Listed gpu s) : Kept s := by
  refine ⟨h.distinct, fun bp hbp => ?_, h.space⟩
  have haddr : (s.data.bps.map fun bp => pageAddr bp.retiredPage) =
      (s.data.bps.map Record.retiredPage).map (· * 4096) := by
    rw [map_map]
    exact map_congr_left fun b hb => pageAddr_of_lt ((h.inVram b hb).trans (by decide))
  have hnodup : s.reserved.Nodup := by
    rw [h.reserved, haddr]
    exact h.distinct.map fun a b hab => Nat.eq_of_mul_eq_mul_right (by decide) hab
  rw [hnodup.count, if_pos]
  rw [h.reserved]
  exact mem_map_of_mem hbp

end Add

/-! ## The table -/

theorem decoded_retiredPage_lt (buf : List UInt8) :
    (decodeTableRecordFromBuf buf).retiredPage < 2 ^ 48 :=
  readAt_lt buf 18 6

theorem read_control {t : Table} {num : Nat} {t' : Table} {r : Except Errno (List Record)}
    (h : amdgpuRasEepromRead t num = (t', r)) :
    t'.control.rasNumRecs = t.control.rasNumRecs ∧ tableRecords t' = tableRecords t ∧
      ∀ bps, r = .ok bps → ∀ bp ∈ bps, bp.retiredPage < 2 ^ 48 := by
  unfold amdgpuRasEepromRead at h
  dsimp only at h
  split at h
  · cases h
    exact ⟨rfl, rfl, nofun⟩
  split at h
  · cases h
    exact ⟨rfl, rfl, nofun⟩
  · obtain ⟨rfl, rfl⟩ := Prod.mk.inj h
    rw [foldl_noteChannel_eq]
    refine ⟨rfl, rfl, ?_⟩
    rintro _ ⟨⟩ bp hbp
    obtain ⟨i, -, rfl⟩ := mem_map.mp hbp
    exact decoded_retiredPage_lt _

/-! ## What a step keeps -/

/-- The first records of the list are in the table. Those behind the records of the last load were
written since. -/
structure InStep (s : State) : Prop where
  loaded_le : s.loadedRecs ≤ s.table.control.rasNumRecs
  recs_le : s.table.control.rasNumRecs ≤ s.data.bps.length
  written : s.written =
    (s.data.bps.drop s.loadedRecs).take (s.table.control.rasNumRecs - s.loadedRecs)
  stored : ∀ r ∈ s.written, r.stored ∈ tableRecords s.table

/-- The list, and the table as long as the last load has put all its records on the list. -/
structure Inv (gpu : Gpu) (s : State) : Prop where
  listed : Listed gpu s
  pages_le : s.loadedPages ≤ s.data.bps.length
  inStep : s.loadedRecs ≤ s.loadedPages → InStep s

section Step
variable {gpu : Gpu} {s : State}

theorem Inv.start (gpu : Gpu) (p : Params) (e : Eeprom) : Inv gpu (start p e) where
  listed := ⟨nofun, nodup_nil, rfl, rfl⟩
  pages_le := le_refl 0
  inStep h :=
    { loaded_le := le_refl _
      recs_le := h
      written := by
        show [] = List.take _ (List.drop _ [])
        rw [drop_nil, take_nil]
      stored := nofun }

theorem Inv.load (h : Inv gpu s) : Inv gpu (step gpu s .load) := by
  have hloaded : ∃ data reserved table, (amdgpuRasLoadBadPages gpu s).1 =
        { s with data := data, reserved := reserved, table := table } ∧
      table.control.rasNumRecs = s.table.control.rasNumRecs ∧
      Listed gpu (amdgpuRasLoadBadPages gpu s).1 := by
    unfold amdgpuRasLoadBadPages
    split
    · exact ⟨_, _, _, rfl, rfl, h.listed⟩
    split
    · next table bps hread =>
      obtain ⟨hnum, -, hpages⟩ := read_control hread
      have hlisted : Listed gpu { s with table := table } :=
        ⟨h.listed.inVram, h.listed.distinct, h.listed.reserved, h.listed.space⟩
      obtain ⟨hadded, data, reserved, new, heq, -⟩ := addBadPages_spec bps _ hlisted
        fun bp hbp => .inl ((hpages bps rfl bp hbp).trans (by decide))
      exact ⟨data, reserved, table, heq, hnum, hadded⟩
    · next table e hread =>
      exact ⟨_, _, table, rfl, (read_control hread).1,
        ⟨h.listed.inVram, h.listed.distinct, h.listed.reserved, h.listed.space⟩⟩
  obtain ⟨data, reserved, table, heq, hnum, hlisted⟩ := hloaded
  unfold BadPages.step
  dsimp only
  rw [heq] at hlisted ⊢
  refine ⟨⟨hlisted.inVram, hlisted.distinct, hlisted.reserved, hlisted.space⟩, le_refl _,
    fun hle => ⟨le_of_eq hnum.symm, ?_, ?_, nofun⟩⟩
  · exact (le_of_eq hnum).trans hle
  · dsimp only
    rw [hnum, Nat.sub_self, take_zero]

theorem Inv.add (h : Inv gpu s) (bps : List Record) (hok : StepOk gpu s (.add bps)) :
    Inv gpu (step gpu s (.add bps)) := by
  obtain ⟨hlisted, data, reserved, new, heq, hdata⟩ := addBadPages_spec bps s h.listed hok
  unfold BadPages.step
  dsimp only
  rw [heq] at hlisted ⊢
  have hlen : s.data.bps.length ≤ data.bps.length := by
    rw [hdata, length_append]
    exact Nat.le_add_right ..
  refine ⟨hlisted, h.pages_le.trans hlen, fun hle => ?_⟩
  obtain ⟨hloaded, hrecs, hwritten, hstored⟩ := h.inStep hle
  refine ⟨hloaded, hrecs.trans hlen, ?_, hstored⟩
  dsimp only
  rw [hwritten, hdata, drop_append_of_le_length (hloaded.trans hrecs),
    take_append_of_le_length]
  rw [length_drop]
  omega

theorem save_spec (h : Inv gpu s) (hle : s.loadedRecs ≤ s.loadedPages)
    (hfits : s.data.bps.length ≤ s.table.control.rasMaxRecordCount)
    (hfri : s.table.control.rasFri < s.table.control.rasMaxRecordCount)
    (hroom : RoomForStart s.table.control) :
    InStep (step gpu s .save) ∧
      (step gpu s .save).data = s.data ∧ (step gpu s .save).reserved = s.reserved ∧
      (step gpu s .save).loadedRecs = s.loadedRecs ∧
      (step gpu s .save).loadedPages = s.loadedPages ∧
      (step gpu s .save).written = s.data.bps.drop s.loadedRecs := by
  have hin := h.inStep hle
  obtain ⟨hloaded, hrecs, hwritten, hstored⟩ := hin
  unfold BadPages.step amdgpuRasSaveBadPages saveCount
  dsimp only
  by_cases hmore : (0 : Int) < s.data.bps.length - s.table.control.rasNumRecs
  · rw [if_pos hmore]
    have hlen : (s.data.bps.drop s.table.control.rasNumRecs).length =
        s.data.bps.length - s.table.control.rasNumRecs := length_drop
    obtain ⟨t1, happ, hupd, hroom1⟩ := @appended_spec s.params s.table
      ⟨hfri, hrecs.trans hfits⟩ hroom (s.data.bps.drop s.table.control.rasNumRecs) (by omega)
      (by omega)
    have hok : (amdgpuRasEepromAppend s.params s.table
        (s.data.bps.drop s.table.control.rasNumRecs)).2 = .ok () := by
      unfold amdgpuRasEepromAppend
      rw [if_neg (by omega), if_neg (by omega)]
    generalize amdgpuRasEepromAppend s.params s.table
      (s.data.bps.drop s.table.control.rasNumRecs) = r at hok hupd ⊢
    obtain ⟨table, err⟩ := r
    obtain rfl : err = .ok () := hok
    have hnum : table.control.rasNumRecs = s.data.bps.length := by
      have h1 : table.control.rasNumRecs = t1.control.rasNumRecs := hupd.rasNumRecs
      rw [h1, happ.rasNumRecs]
      omega
    have hrecords : tableRecords table = tableRecords s.table ++
        (s.data.bps.drop s.table.control.rasNumRecs).map Record.stored := by
      have h1 : tableRecords table = tableRecords t1 := hupd.records hroom1
      rw [h1, happ.records, hlen, Nat.sub_eq_zero_of_le (by omega), drop_zero]
    have hall : s.written ++ s.data.bps.drop s.table.control.rasNumRecs =
        s.data.bps.drop s.loadedRecs := by
      have hsplit := take_append_drop (s.table.control.rasNumRecs - s.loadedRecs)
        (s.data.bps.drop s.loadedRecs)
      rwa [← hwritten, drop_drop, Nat.add_sub_cancel' hloaded] at hsplit
    refine ⟨⟨?_, le_of_eq hnum, ?_, fun r hr => ?_⟩, rfl, rfl, rfl, rfl, hall⟩
    · exact (hloaded.trans hrecs).trans (le_of_eq hnum.symm)
    · dsimp only
      rw [hall, hnum, take_of_length_le (le_of_eq length_drop)]
    · rw [hrecords]
      rcases mem_append.mp hr with hr | hr
      · exact mem_append_left _ (hstored r hr)
      · exact mem_append_right _ (mem_map_of_mem hr)
  · rw [if_neg hmore]
    refine ⟨⟨hloaded, hrecs, hwritten, hstored⟩, rfl, rfl, rfl, rfl, ?_⟩
    rw [hwritten, take_of_length_le]
    rw [length_drop]
    omega

theorem save_nothing (hle : s.data.bps.length ≤ s.table.control.rasNumRecs) :
    step gpu s .save = s := by
  unfold BadPages.step amdgpuRasSaveBadPages saveCount
  dsimp only
  rw [if_neg (by omega)]

theorem Inv.step (h : Inv gpu s) (op : Op) (hok : StepOk gpu s op) : Inv gpu (step gpu s op) := by
  cases op with
  | load => exact h.load
  | add bps => exact h.add bps hok
  | save =>
    rcases hok with ⟨-, hle⟩ | ⟨hle, hfits, hfri, hroom⟩
    · rw [save_nothing hle]
      exact h
    · obtain ⟨hin, hdata, hreserved, hrecs, hpages, -⟩ := save_spec h hle hfits hfri hroom
      refine ⟨⟨?_, ?_, ?_, ?_⟩, ?_, fun _ => hin⟩
      · rw [hdata]
        exact h.listed.inVram
      · rw [hdata]
        exact h.listed.distinct
      · rw [hdata, hreserved]
        exact h.listed.reserved
      · rw [hdata]
        exact h.listed.space
      · rw [hdata, hpages]
        exact h.pages_le

theorem Inv.saved (h : Inv gpu s) (hok : StepOk gpu s .save) :
    Saved (BadPages.step gpu s .save) := by
  rcases hok with ⟨hadded, hle⟩ | ⟨hle, hfits, hfri, hroom⟩
  · rw [save_nothing hle]
    intro bp hbp
    rw [hadded] at hbp
    exact absurd hbp not_mem_nil
  · obtain ⟨hin, hdata, -, -, hpages, hwritten⟩ := save_spec h hle hfits hfri hroom
    intro bp hbp
    have hmem : bp ∈ s.data.bps.drop s.loadedRecs := by
      unfold State.added at hbp
      rw [hdata, hpages] at hbp
      exact (drop_sublist_drop_left _ hle).subset hbp
    have hlow := h.listed.inVram bp (mem_of_mem_drop hmem)
    refine ⟨⟨bp.stored, hin.stored bp (hwritten ▸ hmem), ?_⟩, ?_⟩
    · exact Nat.mod_eq_of_lt (hlow.trans (by decide))
    · rw [hwritten, map_drop]
      have hnodup := h.listed.distinct.sublist (drop_sublist s.loadedRecs _)
      rw [hnodup.count, if_pos]
      rw [← map_drop]
      exact mem_map_of_mem hmem

end Step

/-! ## Runs -/

/-- Along a run whose steps meet the condition no page is twice on the list, each was reserved
once, and after every save each page that came since the last load is in the table and was written
once. -/
theorem bad_pages_run (gpu : Gpu) (p : Params) (e : Eeprom) (ops : List Op)
    (hok : StepsOk (step gpu) (StepOk gpu) (start p e) ops) (n : Nat) :
    Kept (run (step gpu) (start p e) (ops.take n)) ∧
      (ops[n]? = some .save →
        Saved (step gpu (run (step gpu) (start p e) (ops.take n)) .save)) := by
  rw [← take_append_drop n ops] at hok
  obtain ⟨hbefore, hafter⟩ := (stepsOk_append (step gpu)).mp hok
  have hinv : Inv gpu (run (step gpu) (start p e) (ops.take n)) :=
    run_inv_of_stepsOk (fun s op h hop => h.step op hop) (Inv.start gpu p e) hbefore
  refine ⟨hinv.listed.kept, fun hsave => ?_⟩
  obtain ⟨hlt, hget⟩ := List.getElem?_eq_some_iff.mp hsave
  rw [drop_eq_getElem_cons hlt, hget] at hafter
  exact hinv.saved hafter.1

instance (gpu : Gpu) (s : State) : ∀ op, Decidable (StepOk gpu s op)
  | .load => inferInstanceAs (Decidable (_ ∨ _ ∨ _ < _))
  | .add bps => inferInstanceAs (Decidable (∀ bp ∈ bps, _ < _ ∨ ¬InVram _ _))
  | .save => inferInstanceAs (Decidable ((_ ∧ _ ≤ _) ∨ (_ ≤ _ ∧ _ ≤ _ ∧ _ < _ ∧ _ ≤ _)))

def exGpu : Gpu := ⟨2 ^ 34, 1⟩

def exBadParams : Params := ⟨1, 100, false⟩

def exPage (page : Nat) : Record := ⟨0, page, 0, 0, 0, 0, 0⟩

def exSaves : List Op :=
  [.load, .add [exPage 5, exPage 5], .save, .save, .add [exPage 5, exPage (2 ^ 30), exPage 7],
    .save]

theorem bad_pages_run_exSaves :
    Saved (step exGpu (run (step exGpu) (start exBadParams exBlank.eeprom) (exSaves.take 5))
      .save) :=
  (bad_pages_run exGpu exBadParams exBlank.eeprom exSaves (by decide +kernel) 5).2 rfl

def exTwice : Eeprom :=
  (amdgpuRasEepromAppend exBadParams (start exBadParams exBlank.eeprom).table
    [exPage 5, exPage 5]).1.eeprom

/-- The list is one shorter than the table, so that the next page is not saved. -/
theorem bad_pages_broken :
    ¬ ∀ (gpu : Gpu) (p : Params) (e : Eeprom) (ops : List Op) (n : Nat),
      Kept (run (step gpu) (start p e) (ops.take n)) ∧
        (ops[n]? = some .save →
          Saved (step gpu (run (step gpu) (start p e) (ops.take n)) .save)) := by
  intro h
  have hsaved := (h exGpu exBadParams exTwice [.load, .add [exPage 7], .save] 2).2 rfl
  have hadded : exPage 7 ∈ (step exGpu (run (step exGpu) (start exBadParams exTwice)
      [.load, .add [exPage 7]]) .save).added := by decide +kernel
  have hmissing : ¬ ∃ r ∈ tableRecords (step exGpu (run (step exGpu) (start exBadParams exTwice)
      [.load, .add [exPage 7]]) .save).table, r.retiredPage = 7 := by decide +kernel
  exact hmissing (hsaved _ hadded).1

end Amdkfd.Ras.BadPages
